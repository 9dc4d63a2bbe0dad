import Pathwise.Profile.Basic
import Pathwise.Proofs.Text.Delimited

/-!
# What the content of a path tells

The content of a path is the text of which its fingerprint is the digest. It can be read back as
long as no name and no constraint contains a line break, which quoted names can bring in.

* **Lines** (`ContentLine.text_inj`): each kind of line can be read back.
* **Contents** (`Path.eq_of_content`): paths with the same content have the same variables, domains,
  accesses, transformations, texts of constraints, and output.
-/

namespace Pathwise

open Text

/-- A natural number is written with digits only. -/
theorem Text.notMem_repr {c : Char} (hc : c.isDigit = false) (n : Nat) : c ∉ n.repr.toList :=
  fun h => by simp [isDigit_of_mem_repr h] at hc

/-- An integer is written with digits and a sign only. -/
theorem Text.notMem_int_repr {c : Char} (hc : isSignOrDigit c = false) (z : Int) :
    c ∉ z.repr.toList :=
  fun h => by simp [isSignOrDigit_of_mem_repr h] at hc

/-- There is no line feed in a number. -/
theorem Text.break_notMem_toDigits (n : Nat) : '\n' ∉ Nat.toDigits 10 n :=
  Nat.toList_repr ▸ notMem_repr (by decide) n

/-! ### Domains -/

namespace Interval

/-- The characters of an interval's text. -/
theorem toList_text (r : Interval) :
    r.text.toList = '[' :: (r.lo.repr.toList ++ ',' :: ' ' :: (r.hi.repr.toList ++ [']'])) := by
  simp [text, Nat.toString_eq_repr]

/-- An interval ends with its bracket. -/
theorem text_append_inj {r s : Interval} {xs ys : List Char}
    (h : r.text.toList ++ xs = s.text.toList ++ ys) : r = s ∧ xs = ys := by
  obtain ⟨lo, hi⟩ := r
  obtain ⟨lo', hi'⟩ := s
  rw [toList_text, toList_text] at h
  simp only [List.cons_append, List.append_assoc, List.cons.injEq, true_and] at h
  obtain ⟨rfl, hrest⟩ := repr_append_inj (notNext_cons (by decide)) (notNext_cons (by decide)) h
  simp only [List.cons.injEq, true_and] at hrest
  obtain ⟨rfl, hend⟩ := repr_append_inj (notNext_cons (by decide)) (notNext_cons (by decide)) hrest
  exact ⟨rfl, List.tail_eq_of_cons_eq hend⟩

end Interval

namespace Domain

/-- What stands after the intervals of a domain. -/
def exclusionText (excluded : List Nat) : List Char :=
  if excluded.isEmpty then []
  else " \\ \x7b".toList ++ (", ".toList.intercalate (excluded.map (·.repr.toList)) ++ ['\x7d'])

/-- The characters of a domain's text. -/
theorem toList_text (d : Domain) :
    d.text.toList = if d.ranges.isEmpty then ['∅'] else
      " ∪ ".toList.intercalate (d.ranges.map (·.text.toList)) ++ exclusionText d.excluded := by
  unfold text exclusionText
  split
  · rfl
  · split <;> simp [String.toList_intercalate, Function.comp_def, Nat.toString_eq_repr]

/-- Excluded numbers can be read off their text. -/
theorem exclusionText_inj {ns ms : List Nat} (h : exclusionText ns = exclusionText ms) :
    ns = ms := by
  unfold exclusionText at h
  split at h <;> split at h
  · simp_all
  · simp at h
  · simp at h
  · rename_i hns hms
    have hfollows : NotNext Char.isDigit ['\x7d'] := notNext_cons (by decide)
    refine (intercalate_append_inj (NotNext Char.isDigit) (fun _ => notNext_cons (by decide))
      (fun _ _ _ _ => repr_append_inj) hfollows hfollows (by decide) (by decide) ?_ ?_
      (List.append_cancel_left h)).1
    · simpa using hns
    · simpa using hms

/-- The intervals of a domain are told from what is excluded, and both can be read back. A domain
without intervals shows nothing else. -/
theorem text_inj {d e : Domain} (hd : d.ranges = [] → d.excluded = [])
    (he : e.ranges = [] → e.excluded = []) (hwidth : d.width = e.width)
    (h : d.text.toList = e.text.toList) : d = e := by
  obtain ⟨w, ranges, excluded⟩ := d
  obtain ⟨w', ranges', excluded'⟩ := e
  obtain rfl : w = w' := hwidth
  have hmark (ns : List Nat) : ¬ " ∪ ".toList <+: exclusionText ns := by
    unfold exclusionText
    split <;> simp
  have hempty (rs : List Interval) (ns : List Nat) (hrs : rs ≠ []) :
      ['∅'] ≠ " ∪ ".toList.intercalate (rs.map (·.text.toList)) ++ exclusionText ns := by
    obtain ⟨r, rs, rfl⟩ := List.exists_cons_of_ne_nil hrs
    cases rs <;> simp [Interval.toList_text, List.intercalate_cons_cons]
  rw [toList_text, toList_text] at h
  simp only [List.isEmpty_iff] at h
  split at h <;> split at h
  · simp_all
  · exact absurd h (hempty _ _ ‹_›)
  · exact absurd h.symm (hempty _ _ ‹_›)
  · obtain ⟨rfl, hexcluded⟩ := intercalate_append_inj (fun _ => True) (fun _ => trivial)
      (fun _ _ _ _ _ _ => Interval.text_append_inj) trivial trivial (hmark _) (hmark _) ‹_› ‹_› h
    rw [exclusionText_inj hexcluded]

/-- The text of a domain is one line. -/
theorem break_notMem_text (d : Domain) : '\n' ∉ d.text.toList := by
  have hranges : '\n' ∉ " ∪ ".toList.intercalate (d.ranges.map (·.text.toList)) := by
    intro h
    rcases mem_or_mem_of_mem_intercalate h with h | ⟨part, hpart, h⟩
    · exact absurd h (by decide)
    · obtain ⟨r, -, rfl⟩ := List.mem_map.mp hpart
      simp [Interval.toList_text, break_notMem_toDigits] at h
  have hexcluded : '\n' ∉ ", ".toList.intercalate (d.excluded.map (·.repr.toList)) := by
    intro h
    rcases mem_or_mem_of_mem_intercalate h with h | ⟨part, hpart, h⟩
    · exact absurd h (by decide)
    · obtain ⟨n, -, rfl⟩ := List.mem_map.mp hpart
      exact notMem_repr (by decide) n h
  rw [toList_text]
  split
  · decide
  · refine fun h => (List.mem_append.mp h).elim hranges fun h => ?_
    unfold exclusionText at h
    split at h
    · cases h
    · rcases List.mem_append.mp h with h | h
      · exact absurd h (by decide)
      · exact (List.mem_append.mp h).elim hexcluded (by simp)

/-- Nothing is excluded from limits that allow nothing. -/
theorem excluded_of_ranges_nil {l : Limits} (h : l.domain.ranges = []) :
    l.domain.excluded = [] := by
  have hranges : l.ranges = [] := by simpa [Limits.domain] using h
  simp [Limits.domain, hranges]

end Domain

/-! ### The other kinds of lines -/

/-- An operator is found by its name. -/
theorem Op.ofName?_name (o : Op) : Op.ofName? o.name = some o := by
  cases o <;> decide

/-- A role is known by its number and the width of its index. -/
theorem Role.eq_of_number {r s : Role} (hnumber : r.number = s.number)
    (hwidth : r.indexWidth = s.indexWidth) : r = s := by
  cases r <;> cases s <;> simp_all [Role.number, Role.indexWidth]

namespace Profile

/-- The characters of a symbol's line, split from the right, where the name cannot confuse. -/
theorem toList_variableLine (v : Variable) :
    (variableLine v).toList = ((("var ".toList ++ v.name.toList) ++ ' ' :: v.width.repr.toList) ++
      ' ' :: v.role.number.repr.toList) ++ ' ' :: v.role.indexWidth.repr.toList := by
  simp [variableLine, Nat.toString_eq_repr]

/-- The numbers of a variable come last, so its name may have spaces. -/
theorem variableLine_inj {v w : Variable}
    (h : (variableLine v).toList = (variableLine w).toList) : v = w := by
  have hspace (n : Nat) : ' ' ∉ n.repr.toList := notMem_repr (by decide) n
  rw [toList_variableLine, toList_variableLine] at h
  obtain ⟨h, hindex⟩ := append_cons_inj_last (hspace _) (hspace _) h
  obtain ⟨h, hnumber⟩ := append_cons_inj_last (hspace _) (hspace _) h
  obtain ⟨h, hwidth⟩ := append_cons_inj_last (hspace _) (hspace _) h
  have hname : v.name = w.name := String.toList_injective (List.append_cancel_left h)
  have hrole : v.role = w.role := Role.eq_of_number (repr_inj hnumber) (repr_inj hindex)
  have hwidth : v.width = w.width := repr_inj hwidth
  obtain ⟨name, width, role⟩ := v
  simp_all

/-- A domain can be read off its line if it excludes nothing where it has no ranges. -/
theorem domainLine_inj {d e : Domain} (hd : d.ranges = [] → d.excluded = [])
    (he : e.ranges = [] → e.excluded = []) (h : (domainLine d).toList = (domainLine e).toList) :
    d = e := by
  have hline (d : Domain) :
      (domainLine d).toList = "dom ".toList ++ (d.width.repr.toList ++ ' ' :: d.text.toList) := by
    simp [domainLine, Nat.toString_eq_repr]
  rw [hline, hline] at h
  obtain ⟨hwidth, htext⟩ := repr_append_inj (notNext_cons (by decide)) (notNext_cons (by decide))
    (List.append_cancel_left h)
  exact Domain.text_inj hd he hwidth (List.tail_eq_of_cons_eq htext)

/-- How the base of an access is shown. -/
def baseText (base : Int) : List Char :=
  if base ≥ 0 then 'b' :: base.repr.toList else "abs".toList

/-- A base can be read off its text, the one that stands for no base included. -/
theorem baseText_inj {b c : Int} (hb : -1 ≤ b) (hc : -1 ≤ c) (h : baseText b = baseText c) :
    b = c := by
  unfold baseText at h
  split at h <;> split at h
  · exact int_repr_inj (List.tail_eq_of_cons_eq h)
  · simp at h
  · simp at h
  · omega

/-- The text of a base ends where the plus sign stands. -/
theorem plus_notMem_baseText (b : Int) : '+' ∉ baseText b := by
  unfold baseText
  split
  · simp only [List.mem_cons, not_or]
    exact ⟨by decide, notMem_int_repr (by decide) b⟩
  · decide

/-- The characters of an access's line, from one separator to the next. -/
theorem toList_accessLine (a : Access) :
    (accessLine a).toList = "mem ".toList ++ (a.kind.name.toList ++ ' ' :: (baseText a.base ++
      '+' :: (a.offset.repr.toList ++ '#' :: (a.epoch.repr.toList ++ ' ' :: ("abs=".toList ++
        a.address.repr.toList))))) := by
  unfold accessLine Access.text baseText
  split <;> simp [Nat.toString_eq_repr, Int.toString_eq_repr]

/-- An access can be read off its line. -/
theorem accessLine_inj {a b : Access} (ha : -1 ≤ a.base) (hb : -1 ≤ b.base)
    (h : (accessLine a).toList = (accessLine b).toList) : a = b := by
  have hspace (k : AccessKind) : ' ' ∉ k.name.toList := by cases k <;> decide
  have hkinds {k l : AccessKind} (h : k.name.toList = l.name.toList) : k = l := by
    cases k <;> cases l <;> first | rfl | exact absurd h (by decide)
  rw [toList_accessLine, toList_accessLine] at h
  obtain ⟨hkind, h⟩ := append_cons_inj (hspace _) (hspace _) (List.append_cancel_left h)
  obtain ⟨hbase, h⟩ := append_cons_inj (plus_notMem_baseText _) (plus_notMem_baseText _) h
  obtain ⟨hoffset, h⟩ := repr_append_inj (notNext_cons (by decide)) (notNext_cons (by decide)) h
  obtain ⟨hepoch, h⟩ := int_append_inj (notNext_cons (by decide)) (notNext_cons (by decide))
    (List.tail_eq_of_cons_eq h)
  have haddress : a.address = b.address :=
    repr_inj (List.append_cancel_left (List.tail_eq_of_cons_eq h))
  have hkind : a.kind = b.kind := hkinds hkind
  have hbase : a.base = b.base := baseText_inj ha hb hbase
  obtain ⟨kind, base, address, offset, epoch⟩ := a
  simp_all

/-- How the constant of a transformation is shown. -/
def constantText : Option Nat → List Char
  | none => []
  | some n => ' ' :: ("const=".toList ++ n.repr.toList)

/-- The characters of a transformation's text. -/
theorem toList_transformationText (t : Transformation) :
    t.text.toList
      = t.op.name.toList ++ '/' :: (t.arity.repr.toList ++ constantText t.constant) := by
  unfold Transformation.text constantText
  cases t.constant <;> simp [Nat.toString_eq_repr]

/-- A constant can be read off its text, and so can its absence. -/
theorem constantText_inj {c c' : Option Nat} (h : constantText c = constantText c') : c = c' := by
  cases c with
  | none =>
      cases c' with
      | none => rfl
      | some m => exact absurd h.symm (List.cons_ne_nil _ _)
  | some n =>
      cases c' with
      | none => exact absurd h (List.cons_ne_nil _ _)
      | some m => rw [repr_inj (List.append_cancel_left (List.tail_eq_of_cons_eq h))]

/-- A transformation can be read off its text. -/
theorem transformationText_inj {t u : Transformation} (h : t.text.toList = u.text.toList) :
    t = u := by
  have hslash (o : Op) : '/' ∉ o.name.toList := by cases o <;> decide
  have hnext (c : Option Nat) : NotNext Char.isDigit (constantText c) := by
    cases c
    · exact notNext_nil _
    · exact notNext_cons (by decide)
  rw [toList_transformationText, toList_transformationText] at h
  obtain ⟨hop, h⟩ := append_cons_inj (hslash _) (hslash _) h
  obtain ⟨harity, h⟩ := repr_append_inj (hnext _) (hnext _) h
  have hop : t.op = u.op := Option.some.inj <| by
    rw [← Op.ofName?_name, ← Op.ofName?_name, String.toList_injective hop]
  have hconstant : t.constant = u.constant := constantText_inj h
  obtain ⟨op, arity, constant⟩ := t
  simp_all

/-- The observed output can be read off its line. -/
theorem outputLine_inj {o o' : Observed} (h : (outputLine o).toList = (outputLine o').toList) :
    o = o' := by
  have hspace (o : Observed) : ' ' ∉ o.kind.toList := by cases o <;> simp [Observed.kind]
  have hline (o : Observed) :
      (outputLine o).toList = "output ".toList ++ (o.kind.toList ++ ' ' :: o.shown.toList) := by
    simp [outputLine]
  rw [hline, hline] at h
  obtain ⟨hkind, hshown⟩ := append_cons_inj (hspace o) (hspace o') (List.append_cancel_left h)
  have hkinds (hne : o.kind ≠ o'.kind) : False := hne (String.toList_injective hkind)
  cases o with
  | none => cases o' <;> first | rfl | exact (hkinds (by simp [Observed.kind])).elim
  | integer y =>
      cases o' with
      | integer z => exact congrArg Observed.integer (int_repr_inj hshown)
      | _ => exact (hkinds (by simp [Observed.kind])).elim
  | text s =>
      cases o' with
      | text t => exact congrArg Observed.text (String.toList_injective hshown)
      | _ => exact (hkinds (by simp [Observed.kind])).elim

end Profile

/-! ### Lines -/

/-- The lines of a content before the last, which is that of the output. -/
inductive ContentLine where
  | symbol (v : Variable)
  | domain (d : Domain)
  | access (a : Access)
  | operation (t : Transformation)
  | assertion (text : String)

namespace ContentLine

/-- A line as it is written. -/
def text : ContentLine → String
  | symbol v => Profile.variableLine v
  | domain d => Profile.domainLine d
  | access a => Profile.accessLine a
  | operation t => "op " ++ t.text
  | assertion text => "assert " ++ text

/-- What a line needs to be read back: there is no line break in it, and numbers and domains are
such as paths have them. -/
def Readable : ContentLine → Prop
  | symbol v => '\n' ∉ v.name.toList
  | domain d => d.ranges = [] → d.excluded = []
  | access a => -1 ≤ a.base
  | operation _ => True
  | assertion text => '\n' ∉ text.toList

/-- Lines of different kinds differ in one of their first two characters. -/
theorem text_inj {l l' : ContentLine} (hl : l.Readable) (hl' : l'.Readable)
    (h : l.text.toList = l'.text.toList) : l = l' := by
  have hkind := congrArg (List.take 2) h
  cases l with
  | symbol v =>
      cases l' with
      | symbol w => exact congrArg symbol (Profile.variableLine_inj h)
      | _ => simp [text, Profile.variableLine, Profile.domainLine, Profile.accessLine] at hkind
  | domain d =>
      cases l' with
      | domain e => exact congrArg domain (Profile.domainLine_inj hl hl' h)
      | _ => simp [text, Profile.variableLine, Profile.domainLine, Profile.accessLine] at hkind
  | access a =>
      cases l' with
      | access b => exact congrArg access (Profile.accessLine_inj hl hl' h)
      | _ => simp [text, Profile.variableLine, Profile.domainLine, Profile.accessLine] at hkind
  | operation t =>
      cases l' with
      | operation u =>
          simp only [text, String.toList_append] at h
          exact congrArg operation (Profile.transformationText_inj (List.append_cancel_left h))
      | _ => simp [text, Profile.variableLine, Profile.domainLine, Profile.accessLine] at hkind
  | assertion s =>
      cases l' with
      | assertion t =>
          simp only [text, String.toList_append] at h
          exact congrArg assertion (String.toList_injective (List.append_cancel_left h))
      | _ => simp [text, Profile.variableLine, Profile.domainLine, Profile.accessLine] at hkind

/-- Readable lines are known by their texts. -/
theorem eq_of_map_text {ls ls' : List ContentLine} (hls : ∀ l ∈ ls, l.Readable)
    (hls' : ∀ l ∈ ls', l.Readable)
    (h : ls.map (·.text.toList) = ls'.map (·.text.toList)) : ls = ls' := by
  induction ls generalizing ls' with
  | nil => exact (List.map_eq_nil_iff.mp h.symm).symm
  | cons l ls ih =>
      cases ls' with
      | nil => cases h
      | cons l' ls' =>
          obtain ⟨hl, hls⟩ := List.forall_mem_cons.mp hls
          obtain ⟨hl', hls'⟩ := List.forall_mem_cons.mp hls'
          obtain ⟨hhead, htail⟩ := List.cons_eq_cons.mp h
          rw [text_inj hl hl' hhead, ih hls hls' htail]

/-- The variable of a line, if it is for one. -/
def symbol? : ContentLine → Option Variable
  | symbol v => some v
  | _ => none

/-- The domain of a line, if it is for one. -/
def domain? : ContentLine → Option Domain
  | domain d => some d
  | _ => none

/-- The access of a line, if it is for one. -/
def access? : ContentLine → Option Access
  | access a => some a
  | _ => none

/-- The transformation of a line, if it is for one. -/
def operation? : ContentLine → Option Transformation
  | operation t => some t
  | _ => none

/-- The constraint of a line, if it is for one. -/
def assertion? : ContentLine → Option String
  | assertion text => some text
  | _ => none

/-- No other line begins like the line of the output. -/
theorem output_not_begin (l : ContentLine) (rest : List Char) :
    ¬ "output".toList <+: l.text.toList ++ rest := by
  cases l <;> simp [text, Profile.variableLine, Profile.domainLine, Profile.accessLine]

/-- A readable line is one line. -/
theorem break_notMem_text {l : ContentLine} (hl : l.Readable) : '\n' ∉ l.text.toList := by
  have hnat (n : Nat) : '\n' ∉ Nat.toDigits 10 n := break_notMem_toDigits n
  have hint (z : Int) : '\n' ∉ z.repr.toList := notMem_int_repr (by decide) z
  cases l with
  | symbol v =>
      have hname : '\n' ∉ v.name.toList := hl
      rw [text, Profile.toList_variableLine]
      simp [hname, hnat]
  | domain d => simp [text, Profile.domainLine, Nat.toString_eq_repr, hnat, d.break_notMem_text]
  | access a =>
      have hkind (k : AccessKind) : '\n' ∉ k.name.toList := by cases k <;> decide
      rw [text, Profile.toList_accessLine]
      unfold Profile.baseText
      split <;> simp [hkind, hnat, hint]
  | operation t =>
      have hop (o : Op) : '\n' ∉ o.name.toList := by cases o <;> decide
      simp only [text, String.toList_append, Profile.toList_transformationText]
      cases t.constant <;> simp [Profile.constantText, hop, hnat]
  | assertion s =>
      have htext : '\n' ∉ s.toList := hl
      simp [text, htext]

end ContentLine

/-! ### Contents -/

namespace Path

/-- The text that identifies a path. -/
def content (p : Path) : String :=
  Profile.contentText p p.domains p.accesses p.transformations

/-- The lines of the content of a path before the last. -/
def contentLines (p : Path) : List ContentLine :=
  p.declared.map .symbol ++ p.domains.map .domain ++ p.accesses.map .access ++
    p.transformations.map .operation ++ p.constraints.map (.assertion ·.text)

/-- The content without what only the last line says. -/
theorem toList_content (p : Path) :
    p.content.toList = (p.contentLines.map (·.text.toList)).flatMap (· ++ ['\n']) ++
      ((Profile.outputLine p.output).toList ++ ['\n']) := by
  simp only [content, Profile.contentText, Profile.contentLines, contentLines, String.toList_join]
  simp [List.flatMap_map, Function.comp_def, ContentLine.text]

/-- A path without line breaks in names and constraints. -/
structure Unbroken (p : Path) : Prop where
  names : ∀ v ∈ p.declared, '\n' ∉ v.name.toList
  texts : ∀ c ∈ p.constraints, '\n' ∉ c.text.toList

instance (p : Path) : Decidable p.Unbroken :=
  decidable_of_iff ((∀ v ∈ p.declared, '\n' ∉ v.name.toList) ∧
      ∀ c ∈ p.constraints, '\n' ∉ c.text.toList)
    ⟨fun h => ⟨h.1, h.2⟩, fun h => ⟨h.names, h.texts⟩⟩

/-- A domain of a path excludes nothing where it has no ranges. -/
theorem excluded_of_mem_domains {p : Path} {d : Domain} (hd : d ∈ p.domains) :
    d.ranges = [] → d.excluded = [] := by
  obtain ⟨v, -, rfl⟩ := List.mem_map.mp hd
  exact Domain.excluded_of_ranges_nil

/-- The base of an access is a number, or the one that stands for none. -/
theorem base_of_mem_accesses {p : Path} {a : Access} (ha : a ∈ p.accesses) : -1 ≤ a.base := by
  obtain ⟨⟨l, k⟩, -, rfl⟩ := List.mem_map.mp ha
  simp only [Access.baseNumber]
  split <;> omega

/-- The lines of a path without line feeds in its names can be read back. -/
theorem Unbroken.readable {p : Path} (hp : p.Unbroken) : ∀ l ∈ p.contentLines, l.Readable := by
  intro l hl
  simp only [contentLines, List.mem_append, List.mem_map] at hl
  rcases hl with (((⟨v, hv, rfl⟩ | ⟨d, hd, rfl⟩) | ⟨a, ha, rfl⟩) | ⟨t, -, rfl⟩) | ⟨c, hc, rfl⟩
  · exact hp.names v hv
  · exact excluded_of_mem_domains hd
  · exact base_of_mem_accesses ha
  · trivial
  · exact hp.texts c hc

/-- Paths with the same content have the same lines and the same output. -/
theorem contentLines_eq_of_content {p q : Path} (hp : p.Unbroken) (hq : q.Unbroken)
    (h : p.content = q.content) : p.contentLines = q.contentLines ∧ p.output = q.output := by
  have hlines {p : Path} (hp : p.Unbroken) :
      ∀ l ∈ p.contentLines.map (·.text.toList),
        '\n' ∉ l ∧ ∀ rest, ¬ "output".toList <+: l ++ rest := by
    intro l hl
    obtain ⟨line, hline, rfl⟩ := List.mem_map.mp hl
    exact ⟨line.break_notMem_text (hp.readable line hline), line.output_not_begin⟩
  have hlast (o : Observed) : "output".toList <+: (Profile.outputLine o).toList ++ ['\n'] := by
    simp [Profile.outputLine]
  have hchars : p.content.toList = q.content.toList := by rw [h]
  rw [toList_content, toList_content] at hchars
  obtain ⟨hbefore, houtput⟩ :=
    lines_append_inj (hlines hp) (hlines hq) (hlast p.output) (hlast q.output) hchars
  exact ⟨ContentLine.eq_of_map_text hp.readable hq.readable hbefore,
    Profile.outputLine_inj (List.append_cancel_right houtput)⟩

/-- What the lines of a content are for. -/
theorem filterMap_contentLines (p : Path) :
    p.contentLines.filterMap (·.symbol?) = p.declared ∧
      p.contentLines.filterMap (·.domain?) = p.domains ∧
      p.contentLines.filterMap (·.access?) = p.accesses ∧
      p.contentLines.filterMap (·.operation?) = p.transformations ∧
      p.contentLines.filterMap (·.assertion?) = p.constraints.map (·.text) := by
  refine ⟨?_, ?_, ?_, ?_, ?_⟩ <;>
    simp [contentLines, List.filterMap_append, List.filterMap_map, ContentLine.symbol?,
      ContentLine.domain?, ContentLine.access?, ContentLine.operation?,
      ContentLine.assertion?]

/-- Paths with the same content agree in all that it lists. -/
theorem eq_of_content {p q : Path} (hp : p.Unbroken) (hq : q.Unbroken)
    (h : p.content = q.content) :
    p.declared = q.declared ∧ p.domains = q.domains ∧ p.accesses = q.accesses ∧
      p.transformations = q.transformations ∧
      p.constraints.map (·.text) = q.constraints.map (·.text) ∧ p.output = q.output := by
  obtain ⟨hlines, houtput⟩ := contentLines_eq_of_content hp hq h
  obtain ⟨hp1, hp2, hp3, hp4, hp5⟩ := p.filterMap_contentLines
  obtain ⟨hq1, hq2, hq3, hq4, hq5⟩ := q.filterMap_contentLines
  rw [← hp1, ← hp2, ← hp3, ← hp4, ← hp5, hlines]
  exact ⟨hq1, hq2, hq3, hq4, hq5, houtput⟩

end Path

end Pathwise

import Pathwise.Proofs.Path.Assertions
import Pathwise.Proofs.Profile.Access

/-!
# Locations and epochs

Which location each access to memory gets. The *log* of a source lists what touches memory, in the
order in which it is converted: declarations of memory symbols and accesses to arrays, the accesses
in the arguments of an application before its own, and those in a definition of a let where it is
defined and not where it is used.

* **Epochs** (`Location.Numbered.epoch_eq`): locations at one address are counted from 0.
* **Logs** (`Path.eventsOf`, `Path.eventLog`): what touches memory in an expression, and in a
  source.
* **Rules** (`Event.Follows`): stores get locations of their own; selects get the latest one of
  their element, if there is one.
* **Steps** (`Builder.Books`, `Books.convert`): memory has the locations of the log so far in the
  order in which they are first touched, and the builder knows the latest one of each element.
* **Runs** (`Path.books_of_parse`): so does the path, and all accesses in its constraints are in the
  log.
-/

namespace Pathwise

/-! ### Epochs -/

/-- Locations at one address have the numbers of their places among them. -/
theorem Location.Numbered.epoch_eq {memory : List Location} (h : Numbered memory) {base : String}
    {address k : Nat} {l : Location}
    (hl : (memory.filter fun m => m.base == base && m.address == address)[k]? = some l) :
    l.epoch = k := by
  obtain ⟨hk, hget⟩ := List.getElem?_eq_some_iff.mp hl
  have hsplit := (List.take_append_drop k _).symm.trans (congrArg _ (List.drop_eq_getElem_cons hk))
  rw [hget, List.filter_eq_append_iff] at hsplit
  obtain ⟨front, back, rfl, hfront, hback⟩ := hsplit
  obtain ⟨between, after, rfl, hbetween, hmatch, -⟩ := List.filter_eq_cons_iff.mp hback
  obtain ⟨hbase, haddress⟩ : l.base = base ∧ l.address = address := by simpa using hmatch
  have hnone : between.countP (fun m => m.base == base && m.address == address) = 0 :=
    List.countP_eq_zero.mpr hbetween
  rw [h (front ++ between) l after (by simp), hbase, haddress, List.countP_append, hnone,
    List.countP_eq_length_filter, hfront, List.length_take]
  omega

namespace Path

/-! ### Logs -/

/-- What touches memory: the declaration of a memory symbol, or an access to an element of an
array. -/
inductive Event where
  | declared (location : Location)
  | accessed (kind : AccessKind) (slot : Slot) (location : Location)
  deriving Repr, DecidableEq

namespace Event

/-- The location that is touched. -/
def location : Event → Location
  | declared l => l
  | accessed _ _ l => l

/-- The element that is accessed. -/
def slot? : Event → Option Slot
  | declared _ => none
  | accessed _ s _ => some s

end Event

/-- The access that a converted term makes by itself. -/
def event? : Term → Option Event
  | .apply (.access k l) (a :: index :: _) _ =>
    a.arrayOf?.map fun v =>
      .accessed k ⟨v.name, (addressOf index).1, (addressOf index).2⟩ l
  | _ => none

/-- What follows a step, if it succeeds. -/
def following {α : Type} (m : Build α) (b : Builder) (f : α → Builder → List Event) : List Event :=
  match m.run b with
  | .ok (a, b') => f a b'
  | .error _ => []

mutual

/-- The accesses of an expression, in the order in which they are converted. -/
def eventsOf (scope : Scope) (b : Builder) : SExpr → List Event
  | .atom _ _ => []
  | .list _ [] => []
  | .list line (.list headLine headItems :: rest) =>
    eventsOfAll scope b rest ++
      following (convert scope (.list line (.list headLine headItems :: rest))) b
        fun t _ => (event? t).toList
  | .list line (.atom headLine head :: rest) =>
    if head = "_" then []
    else if head = "let" then
      match rest with
      | [.list _ definitions, body] =>
        eventsOfDefinitions scope b definitions ++
          following (define scope definitions) b fun inner b' => eventsOf (inner ++ scope) b' body
      | _ => []
    else
      eventsOfAll scope b rest ++
        following (convert scope (.list line (.atom headLine head :: rest))) b
          fun t _ => (event? t).toList

/-- The accesses of expressions, from left to right. -/
def eventsOfAll (scope : Scope) (b : Builder) : List SExpr → List Event
  | [] => []
  | e :: es =>
    eventsOf scope b e ++ following (convert scope e) b fun _ b' => eventsOfAll scope b' es

/-- The accesses of the definitions of a let. -/
def eventsOfDefinitions (scope : Scope) (b : Builder) : List SExpr → List Event
  | .list _ [.atom _ _, e] :: definitions =>
    eventsOf scope b e ++
      following (convert scope e) b fun _ b' => eventsOfDefinitions scope b' definitions
  | _ => []

end

/-- A literal accesses nothing. -/
theorem eventsOf_literal (scope : Scope) (b : Builder) (line headLine : Nat) (rest : List SExpr) :
    eventsOf scope b (.list line (.atom headLine "_" :: rest)) = [] := by
  rw [eventsOf.eq_def]
  exact if_pos rfl

/-- The accesses of definitions come first, and then those of the body. -/
theorem eventsOf_let (scope : Scope) (b : Builder) (line headLine line' : Nat)
    (definitions : List SExpr) (body : SExpr) :
    eventsOf scope b (.list line [.atom headLine "let", .list line' definitions, body]) =
      eventsOfDefinitions scope b definitions ++
        following (define scope definitions) b
          fun inner b' => eventsOf (inner ++ scope) b' body := by
  rw [eventsOf.eq_def]
  simp only [if_neg (show "let" ≠ "_" by decide), if_true]

/-- The accesses of the arguments come first, and then that of the application. -/
theorem eventsOf_application {head : SExpr} {name : String} {indices : List Nat} {o? : Option Op}
    (h : Builder.Heads head name indices o?) (scope : Scope) (b : Builder) (line : Nat)
    (rest : List SExpr) :
    eventsOf scope b (.list line (head :: rest)) =
      eventsOfAll scope b rest ++
        following (convert scope (.list line (head :: rest))) b fun t _ => (event? t).toList := by
  cases h with
  | plain hmark hlet =>
      rw [eventsOf.eq_def]
      simp only [if_neg hmark, if_neg hlet]
  | indexed _ => rw [eventsOf]

/-- What a command touches. A declaration touches what it adds to memory. -/
def eventsOfCommand (b : Builder) (node : SExpr) : List Event :=
  if node.head = "assert" then
    match node.items with
    | [_, e] => eventsOf [] b e
    | _ => []
  else following (command node) b fun _ b' => (b'.memory.drop b.memory.length).map .declared

/-- What commands touch, one after the other. -/
def eventsFrom (b : Builder) : List SExpr → List Event
  | [] => []
  | e :: es => eventsOfCommand b e ++ following (command e) b fun _ b' => eventsFrom b' es

/-- All that touches memory in a source, in the order in which it is converted. -/
def eventLog (src : String) : List Event :=
  match SExpr.readAll (bodyOf src) with
  | .ok nodes => eventsFrom .empty nodes
  | .error _ => []

/-- What follows a step that succeeds. -/
theorem following_of_run {α : Type} {m : Build α} {b b' : Builder} {a : α}
    (h : m.run b = .ok (a, b')) (f : α → Builder → List Event) : following m b f = f a b' := by
  rw [following, h]

/-! ### Rules -/

/-- The location of the latest access to an element. -/
def latest? (slot : Slot) (events : List Event) : Option Location :=
  (events.reverse.find? (·.slot? == some slot)).map (·.location)

/-- The latest access to an element is the last one, if it is to that element. -/
theorem latest?_concat (slot : Slot) (events : List Event) (e : Event) :
    latest? slot (events ++ [e]) =
      if e.slot? = some slot then some e.location else latest? slot events := by
  rw [latest?, List.reverse_append, List.reverse_singleton, List.singleton_append, List.find?_cons]
  split <;> simp_all [latest?]

/-- The latest location was accessed. -/
theorem mem_of_latest? {slot : Slot} {events : List Event} {l : Location}
    (h : latest? slot events = some l) : l ∈ events.map (·.location) := by
  obtain ⟨e, he, rfl⟩ := Option.map_eq_some_iff.mp h
  exact List.mem_map_of_mem (List.mem_reverse.mp (List.mem_of_find?_eq_some he))

/-- The location of an event is as the events before it ask: a select has the location of the latest
access to its element, if there is one, and otherwise the location has not been touched before. -/
def Event.Follows (before : List Event) : Event → Prop
  | accessed .read slot l =>
    match latest? slot before with
    | some k => l = k
    | none => l ∉ before.map location
  | accessed .write _ l => l ∉ before.map location
  | declared l => l ∉ before.map location

namespace Builder

/-! ### Books -/

/-- What a builder keeps of the events so far: each location once, in the order in which they were
opened, and the latest one of each element. -/
structure Books (b : Builder) (events : List Event) : Prop where
  memory : b.memory = firsts (events.map (·.location))
  numbered : Location.Numbered b.memory
  latest : ∀ slot, b.latest.lookup slot = latest? slot events
  follows : ∀ before e after, events = before ++ e :: after → e.Follows before

/-- There are no events at first. -/
theorem books_empty : empty.Books [] where
  memory := rfl
  numbered := wellFormed_empty.epochs
  latest _ := rfl
  follows before e after h := by simp at h

variable {b b' : Builder} {events : List Event}

/-- Books are about memory only. -/
theorem Books.congr (h : b.Books events) (hmemory : b'.memory = b.memory)
    (hlatest : b'.latest = b.latest) : b'.Books events where
  memory := hmemory.trans h.memory
  numbered := hmemory ▸ h.numbered
  latest := hlatest ▸ h.latest
  follows := h.follows

/-- A location with the next epoch of its address has not been touched. -/
theorem Books.not_mem (h : b.Books events) {l : Location}
    (hepoch : l.epoch = b.epoch l.base l.address) : l ∉ events.map (·.location) := by
  intro hl
  rw [← mem_firsts, ← h.memory] at hl
  obtain ⟨before, after, heq⟩ := List.append_of_mem hl
  have hplace := h.numbered before l after heq
  rw [hepoch, epoch, heq, List.countP_append, List.countP_cons_of_pos (by simp)] at hplace
  omega

/-- Opening a location is booked as one event. -/
theorem Books.first (h : b.Books events) {e : Event}
    (hepoch : e.location.epoch = b.epoch e.location.base e.location.address)
    (hfollows : e.location ∉ events.map (·.location) → e.Follows events)
    (hmemory : b'.memory = b.memory ++ [e.location])
    (hlatest : ∀ slot, b'.latest.lookup slot =
      if e.slot? = some slot then some e.location else b.latest.lookup slot) :
    b'.Books (events ++ [e]) where
  memory := by
    rw [hmemory, h.memory, List.map_append, List.map_singleton, firsts_concat,
      if_neg (h.not_mem hepoch)]
  numbered := hmemory ▸ h.numbered.concat hepoch
  latest slot := by rw [hlatest, latest?_concat, h.latest]
  follows := forall_split_concat h.follows (hfollows (h.not_mem hepoch))

/-- Reading the latest location of an element is booked as one event. -/
theorem Books.reread (h : b.Books events) {slot : Slot} {l : Location}
    (hl : b.latest.lookup slot = some l) : b.Books (events ++ [.accessed .read slot l]) where
  memory := by
    have hmem := mem_of_latest? ((h.latest slot).symm.trans hl)
    rw [h.memory, List.map_append, List.map_singleton, firsts_concat]
    exact (if_pos hmem).symm
  numbered := h.numbered
  latest slot' := by
    rw [latest?_concat, h.latest]
    split
    · rename_i heq
      cases heq
      rw [← h.latest, hl]
      rfl
    · rfl
  follows := by
    refine forall_split_concat h.follows ?_
    simp only [Event.Follows, ← h.latest, hl]

/-- Touching an array keeps the books right, with one more access. -/
theorem Books.touch (h : b.Books events) {array : Variable} {index : Term} {kind : AccessKind}
    {l : Location} (hrun : (touch array index kind).run b = .ok (l, b')) :
    b'.Books (events ++
      [.accessed kind ⟨array.name, (addressOf index).1, (addressOf index).2⟩ l]) := by
  rcases touch_cases hrun with ⟨rfl, hl, rfl⟩ | ⟨hnone, hbase, haddress, hepoch, rfl⟩
  · exact h.reread hl
  · refine h.first ?_ ?_ rfl ?_
    · simp only [Event.location, hbase, haddress, hepoch]
    · intro hnew
      cases kind with
      | write => exact hnew
      | read =>
          simp only [Event.Follows, ← h.latest, hnone rfl]
          exact hnew
    · intro slot
      rw [List.lookup_cons]
      simp only [Event.slot?, Event.location, Option.some.injEq]
      split <;> split <;> simp_all

/-! ### Converting -/

/-- All accesses in a term are among the events. -/
def Recorded (events : List Event) (t : Term) : Prop :=
  ∀ u ∈ t.parts, ∀ e, event? u = some e → e ∈ events

/-- What was recorded stays recorded. -/
theorem Recorded.mono {events' : List Event} {t : Term} (h : Recorded events t)
    (hsubset : events ⊆ events') : Recorded events' t :=
  fun u hu e he => hsubset (h u hu e he)

/-- A term is recorded by its own access after those of its arguments. -/
theorem recorded_of_args {t : Term} (h : ∀ u ∈ t.args, Recorded events u) :
    Recorded (events ++ (event? t).toList) t := by
  refine Term.forall_parts_iff.mpr ⟨?_, ?_⟩
  · intro e he
    simp [he]
  · intro u hu
    exact (h u hu).mono (List.subset_append_left _ _)

/-- A term without arguments is no access. -/
theorem event?_eq_none {t : Term} (h : t.args = []) : event? t = none := by
  cases t with
  | apply head args w =>
      obtain rfl : args = [] := h
      cases head <;> rfl
  | _ => rfl

/-- There is nothing to record about a term without arguments. -/
theorem recorded_of_leaf {t : Term} (h : t.args = []) : Recorded events t := by
  have hrecorded : Recorded (events ++ (event? t).toList) t := recorded_of_args (by simp [h])
  rwa [event?_eq_none h, Option.toList_none, List.append_nil] at hrecorded

/-- The accesses in the term of an atom were recorded when it was defined. -/
theorem AtomTerm.recorded {scope : Scope} (hscope : ∀ d ∈ scope, Recorded events d.2)
    {text : String} {t : Term} (h : AtomTerm scope b text t) : Recorded events t := by
  have hliteral {base bits : Nat} {digits : List Char}
      (ht : radixLiteral? base bits digits = some t) : Recorded events t := by
    simp only [radixLiteral?] at ht
    split at ht
    · cases ht
    · obtain ⟨n, -, rfl⟩ := Option.map_eq_some_iff.mp ht
      exact recorded_of_leaf rfl
  cases h with
  | truth v => exact recorded_of_leaf rfl
  | hexadecimal _ ht => exact hliteral ht
  | binary _ ht => exact hliteral ht
  | definition hd => exact hscope _ hd
  | symbol _ ht =>
      obtain ⟨v, -, rfl⟩ := Option.map_eq_some_iff.mp ht
      refine recorded_of_leaf ?_
      split
      · rfl
      · rfl
      · split <;> rfl

/-- There is nothing to record about a literal. -/
theorem recorded_of_indexedLiteral {node : SExpr} {t : Term} (h : indexedLiteral node = .ok t) :
    Recorded events t := by
  simp only [indexedLiteral] at h
  repeat' split at h
  all_goals cases h
  exact recorded_of_leaf rfl

/-- An application books its own access, with the location that it gets. -/
theorem Books.applies (h : b.Books events) {o? : Option Op} {name : String} {indices : List Nat}
    {args : List Term} {t : Term} (ht : Applies o? name indices args b t b') :
    t.args = args ∧ b'.Books (events ++ (event? t).toList) := by
  cases ht with
  | unknown _ => exact ⟨rfl, by simpa [event?, applyUnknown] using h⟩
  | access _ hform harray htouch =>
      refine ⟨rfl, ?_⟩
      simp only [hform, event?, harray]
      exact h.touch htouch
  | op _ _ _ _ => exact ⟨rfl, by simpa [event?] using h⟩

/-- Converting an expression books its accesses and records them in the term. -/
theorem Books.convert (h : b.Books events) {scope : Scope} {e : SExpr} {t : Term}
    (hscope : ∀ d ∈ scope, Recorded events d.2) (hrun : (convert scope e).run b = .ok (t, b')) :
    b'.Books (events ++ eventsOf scope b e) ∧ Recorded (events ++ eventsOf scope b e) t := by
  refine convert_induction
    (P := fun scope b e t b' => ∀ events, b.Books events → (∀ d ∈ scope, Recorded events d.2) →
      b'.Books (events ++ eventsOf scope b e) ∧ Recorded (events ++ eventsOf scope b e) t)
    (D := fun scope b es ds b' => ∀ events, b.Books events → (∀ d ∈ scope, Recorded events d.2) →
      b'.Books (events ++ eventsOfDefinitions scope b es) ∧
        ∀ d ∈ ds, Recorded (events ++ eventsOfDefinitions scope b es) d.2)
    (A := fun scope b es ts b' => ∀ events, b.Books events → (∀ d ∈ scope, Recorded events d.2) →
      b'.Books (events ++ eventsOfAll scope b es) ∧
        ∀ t ∈ ts, Recorded (events ++ eventsOfAll scope b es) t)
    ?atom ?literal ?binding ?application ?noDefinition ?definition ?noArgument ?argument hrun
    events h hscope
  case atom =>
    intro scope b line text t ht events hb hscope
    simp only [eventsOf, List.append_nil]
    exact ⟨hb, ht.recorded hscope⟩
  case literal =>
    intro scope b line headLine rest t ht events hb hscope
    simp only [eventsOf_literal, List.append_nil]
    exact ⟨hb, recorded_of_indexedLiteral ht⟩
  case binding =>
    intro scope b c b' line headLine line' definitions body inner t hinner ihdef ihbody events hb
      hscope
    obtain ⟨hc, hrecorded⟩ := ihdef events hb hscope
    have hboth : ∀ d ∈ inner ++ scope,
        Recorded (events ++ eventsOfDefinitions scope b definitions) d.2 := by
      intro d hd
      rcases List.mem_append.mp hd with hd | hd
      · exact hrecorded d hd
      · exact (hscope d hd).mono (List.subset_append_left _ _)
    rw [eventsOf_let, following_of_run hinner, ← List.append_assoc]
    exact ihbody _ hc hboth
  case application =>
    intro scope b c b' line head rest name indices o? args t hconvert hhead ihargs happlies events
      hb hscope
    obtain ⟨hc, hrecorded⟩ := ihargs events hb hscope
    obtain ⟨hargs, hb'⟩ := hc.applies happlies
    rw [eventsOf_application hhead, following_of_run hconvert, ← List.append_assoc]
    exact ⟨hb', recorded_of_args (hargs ▸ hrecorded)⟩
  case noDefinition =>
    intro scope b events hb hscope
    simpa [eventsOfDefinitions] using hb
  case definition =>
    intro scope b c b' line line' name e definitions t later he ih ihrest events hb hscope
    obtain ⟨hc, ht⟩ := ih events hb hscope
    obtain ⟨hb', hlater⟩ :=
      ihrest _ hc fun d hd => (hscope d hd).mono (List.subset_append_left _ _)
    rw [eventsOfDefinitions, following_of_run he, ← List.append_assoc]
    refine ⟨hb', fun d hd => ?_⟩
    rcases List.mem_append.mp hd with hd | hd
    · exact hlater d hd
    · rw [List.mem_singleton.mp hd]
      exact ht.mono (List.subset_append_left _ _)
  case noArgument =>
    intro scope b events hb hscope
    simpa [eventsOfAll] using hb
  case argument =>
    intro scope b c b' e es t ts he ih ihrest events hb hscope
    obtain ⟨hc, ht⟩ := ih events hb hscope
    obtain ⟨hb', hts⟩ := ihrest _ hc fun d hd => (hscope d hd).mono (List.subset_append_left _ _)
    rw [eventsOfAll, following_of_run he, ← List.append_assoc]
    exact ⟨hb', List.forall_mem_cons.mpr ⟨ht.mono (List.subset_append_left _ _), hts⟩⟩

/-! ### Commands -/

/-- Declaring a symbol opens one location at most. -/
theorem Books.declare (h : b.Books events) {line : Nat} {name sort : SExpr}
    (hrun : (declare line name sort).run b = .ok ((), b')) :
    b'.Books (events ++ (b'.memory.drop b.memory.length).map .declared) := by
  obtain ⟨l, v, -, -, -, ⟨-, rfl⟩ | ⟨m, -, -, hepoch, rfl⟩⟩ := declare_cases hrun
  · rw [List.drop_length, List.map_nil, List.append_nil]
    exact h.congr rfl rfl
  · simp only [List.drop_left, List.map_singleton]
    exact h.first hepoch id rfl fun slot => rfl

/-- A command books what it touches, and records what it asserts. -/
theorem Books.command (h : b.Books events) {node : SExpr}
    (hrun : (command node).run b = .ok ((), b')) :
    b'.Books (events ++ eventsOfCommand b node) ∧
      ∀ t ∈ b.asserted node, Recorded (events ++ eventsOfCommand b node) t := by
  have hother (hnode : node.head ≠ "assert") : eventsOfCommand b node =
      (b'.memory.drop b.memory.length).map .declared := by
    rw [eventsOfCommand, if_neg hnode, following_of_run hrun]
  rcases command_cases hrun with ⟨hnode, line, name, sort, -, hdeclare⟩ |
    ⟨hnode, line, first, e, t, c, rfl, hconvert, hassert⟩ | ⟨hnode, rfl⟩
  · rw [asserted_of_ne hnode, hother hnode]
    exact ⟨h.declare hdeclare, by simp⟩
  · have hevents : eventsOfCommand b (.list line [first, e]) = eventsOf [] b e := by
      simp [eventsOfCommand, hnode, SExpr.items]
    obtain ⟨hc, hrecorded⟩ := h.convert (by simp) hconvert
    obtain ⟨-, rfl⟩ := assert_cases hassert
    rw [asserted_of_assert hnode hconvert, hevents, List.forall_mem_singleton]
    exact ⟨hc.congr rfl rfl, hrecorded⟩
  · rw [asserted_of_ne hnode, hother hnode]
    simpa using h

/-- Commands book what they touch, one after the other. -/
theorem Books.commands (h : b.Books events) {nodes : List SExpr}
    (hrun : (commands nodes).run b = .ok ((), b')) :
    b'.Books (events ++ eventsFrom b nodes) ∧
      ∀ t ∈ b.assertionsFrom nodes, Recorded (events ++ eventsFrom b nodes) t := by
  induction nodes generalizing b events with
  | nil =>
      cases hrun
      simpa [eventsFrom, assertionsFrom] using h
  | cons node nodes ih =>
      rw [Path.commands] at hrun
      obtain ⟨_, c, hfirst, hrest⟩ := exists_of_run_bind hrun
      obtain ⟨hc, hrecorded⟩ := h.command hfirst
      obtain ⟨hb', hrecorded'⟩ := ih hc hrest
      rw [eventsFrom, following_of_run hfirst, ← List.append_assoc]
      simp only [assertionsFrom, hfirst]
      refine ⟨hb', fun t ht => ?_⟩
      rcases List.mem_append.mp ht with ht | ht
      · exact (hrecorded t ht).mono (List.subset_append_left _ _)
      · exact hrecorded' t ht

end Builder

/-! ### Paths -/

/-- A path has the locations of the events of its source, which follow their rules, and all accesses
in its constraints are among them. -/
theorem books_of_parse {src name : String} {p : Path} (h : parse src name = .ok p) :
    p.memory = firsts ((eventLog src).map (·.location)) ∧
      (∀ before e after, eventLog src = before ++ e :: after → e.Follows before) ∧
      ∀ c ∈ p.constraints, Builder.Recorded (eventLog src) c.term := by
  obtain ⟨nodes, b, hread, hrun, -, hmemory, hconstraints⟩ := exists_commands_of_parse h
  have hlog : eventLog src = [] ++ eventsFrom .empty nodes := by
    simp only [eventLog, hread, List.nil_append]
  obtain ⟨hbooks, hrecorded⟩ := Builder.books_empty.commands hrun
  rw [hlog, hmemory]
  refine ⟨hbooks.memory, hbooks.follows, fun c hc => ?_⟩
  have hterm : c.term ∈ b.constraintTerms := List.mem_map_of_mem (hconstraints ▸ hc)
  rw [(Builder.constraintTerms_commands hrun).2] at hterm
  obtain ⟨t, ht, hconjunct⟩ : ∃ t ∈ Builder.empty.assertionsFrom nodes, c.term ∈ conjuncts t := by
    simpa [Builder.constraintTerms, Builder.empty] using hterm
  have hpart := Builder.mem_parts_of_mem_conjuncts t _ hconjunct
  exact fun u hu => hrecorded t ht u (Term.parts_subset t _ hpart hu)

/-- A location is new after some events, and is put after theirs. -/
def Opened (memory : List Location) (before : List Event) (l : Location) : Prop :=
  l ∉ before.map (·.location) ∧ firsts (before.map (·.location)) ++ [l] <+: memory

/-- What the events of a source say about the memory of its path. -/
structure Chronicle (p : Path) (events : List Event) : Prop where
  /-- Locations at one address have the numbers of their places among them. -/
  epoch_eq : ∀ (base : String) (address k : Nat) (l : Location),
    (p.memory.filter fun m => m.base == base && m.address == address)[k]? = some l → l.epoch = k
  /-- A location is known by its address and its epoch. -/
  keys_nodup : (p.memory.map fun l => (l.base, l.address, l.epoch)).Nodup
  /-- Memory has the locations that are touched, in the order in which they are first touched. -/
  memory_eq : p.memory = firsts (events.map (·.location))
  /-- The accesses in the constraints have the locations that they had when they were converted. -/
  recorded : ∀ c ∈ p.constraints, ∀ t ∈ c.term.parts, ∀ e, event? t = some e → e ∈ events
  /-- A store gets a location of its own. -/
  write : ∀ before slot l after, events = before ++ .accessed .write slot l :: after →
    Opened p.memory before l
  /-- A select gets the location of the latest access to its element, or a new one. -/
  read : ∀ before slot l after, events = before ++ .accessed .read slot l :: after →
    match latest? slot before with
    | some k => l = k
    | none => Opened p.memory before l

/-- **Epochs identify locations, and each access gets the right one.** -/
theorem chronicle_of_parse {src name : String} {p : Path} (h : parse src name = .ok p) :
    p.Chronicle (eventLog src) := by
  have hwf := wellFormed_of_parse h
  obtain ⟨hmemory, hfollows, hrecorded⟩ := books_of_parse h
  have hopened {before after : List Event} {e : Event} (heq : eventLog src = before ++ e :: after)
      (hnew : e.location ∉ before.map (·.location)) : Opened p.memory before e.location := by
    refine ⟨hnew, ?_⟩
    have hprefix := firsts_prefix ((before ++ [e]).map (·.location)) (after.map (·.location))
    rw [← List.map_append, List.append_assoc, List.singleton_append, ← heq, ← hmemory,
      List.map_append, List.map_singleton, firsts_concat, if_neg hnew] at hprefix
    exact hprefix
  refine ⟨fun _ _ _ _ => hwf.epochs.epoch_eq, ?_, hmemory, hrecorded, ?_, ?_⟩
  · have hnodup : p.memory.Nodup := hmemory ▸ nodup_firsts _
    refine hnodup.map_on fun l hl m hm hkey => ?_
    simp only [Prod.mk.injEq] at hkey
    exact hwf.epochs.eq_of_epoch hl hm hkey.1 hkey.2.1 hkey.2.2
  · intro before slot l after heq
    exact hopened heq (hfollows before _ after heq)
  · intro before slot l after heq
    have hrule := hfollows before _ after heq
    simp only [Event.Follows] at hrule
    split
    · rename_i k hk
      simpa only [hk] using hrule
    · rename_i hnone
      simp only [hnone] at hrule
      exact hopened heq hrule

/-- A memory symbol and two accesses to an array at one address share their epochs. The definition
is converted once; the select after the store gets the location of the store. -/
theorem chronicle_of_shared_address :
    let src := "(declare-const mem_1_0_1 (_ BitVec 1))
      (declare-const m (Array (_ BitVec 1) (_ BitVec 1)))
      (assert (let ((y (select m #b1))) (= y (select (store m #b1 y) #b1))))"
    let slot : Slot := ⟨"m", "", 1⟩
    let cell : Location := ⟨"mem_1_0_1", "", 1, 0, 0, 1⟩
    let first : Location := ⟨"m[(_ bv1 1)]", "", 1, -1, 1, 1⟩
    let second : Location := ⟨"m[(_ bv1 1)]", "", 1, -1, 2, 1⟩
    ∃ p, parse src "" = .ok p ∧ p.memory = [cell, first, second] ∧
      eventLog src = [.declared cell, .accessed .read slot first, .accessed .write slot second,
        .accessed .read slot second] ∧
      p.Chronicle (eventLog src) := by
  intro src slot cell first second
  have hfacts : (parse src "").toOption.any (fun p =>
      decide (p.memory = [cell, first, second]) &&
        decide (eventLog src = [.declared cell, .accessed .read slot first,
          .accessed .write slot second, .accessed .read slot second])) = true := by
    decide +kernel
  obtain ⟨p, hp, hfacts⟩ := exists_of_parse hfacts
  simp only [Bool.and_eq_true, decide_eq_true_eq] at hfacts
  exact ⟨p, hp, hfacts.1, hfacts.2, chronicle_of_parse hp⟩

end Path

end Pathwise

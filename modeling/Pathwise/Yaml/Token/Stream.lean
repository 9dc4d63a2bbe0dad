import Pathwise.Yaml.Token.Property
import Pathwise.Yaml.Token.Scalar

/-!
# Token streams

Tokens are scanned on demand, so that what stands behind the end of a document is not looked at.

* **Blocks** are nested by columns: a deeper column begins a block, and a smaller one ends it.
* **Keys**: whether a node is a key shows only at the colon behind it. A token that may begin a key
  waits until that is settled. The colon has to follow on the same line, within 1024 characters.
* **Flow collections** are nested by their brackets; inside them columns do not matter.
-/

namespace Pathwise.Yaml

/-- A place where a key may have begun: the number of its first token, whether it may still turn out
to be a key, whether it has to, and whether its token waits for that. -/
structure Candidate where
  number : Nat
  mark : Mark
  possible : Bool
  required : Bool
  awaited : Bool
  deriving Repr, Inhabited

/-- Whether a colon here comes too late for a candidate. -/
def Candidate.isStale (k : Candidate) (m : Mark) : Bool :=
  k.mark.line < m.line || k.mark.index + 1024 < m.index

/-- How deep collections can be nested. -/
def depthLimit : Nat := 10000

/-- A text that is being scanned: its size, the place that was reached, the tokens that were scanned
but not taken, how many were taken, the candidates for keys on each level of flow collections from
the innermost on, whether a key may begin here, and the least columns of the block around and of
those around that. -/
structure Stream where
  size : Nat
  cursor : Cursor
  queue : List Placed
  taken : Nat
  inner : Candidate
  outer : List Candidate
  keyAllowed : Bool
  least : Nat
  leasts : List Nat
  deriving Repr, Inhabited

namespace Stream

/-- A candidate that is none. -/
def noCandidate (number : Nat) (m : Mark) : Candidate :=
  ⟨number, m, false, false, false⟩

/-- The stream of a text. -/
def ofText (cs : List Char) : Stream :=
  let cursor := Cursor.start cs
  { size := cs.length, cursor, queue := [], taken := 0
    inner := noCandidate 0 cursor.mark, outer := []
    keyAllowed := true, least := 0, leasts := [] }

/-- Scans something at the cursor, and moves on to the place behind it. -/
def scan {α : Type} (s : Stream) (m : Scan α) : Except Fault (α × Stream) := do
  let (a, cursor) ← m.run s.cursor
  return (a, { s with cursor })

/-- Whether this is inside a flow collection. -/
def inFlow (s : Stream) : Bool :=
  !s.outer.isEmpty

/-- The column of the next character. -/
def column (s : Stream) : Nat :=
  s.cursor.column

/-- The number of the next token. -/
def nextNumber (s : Stream) : Nat :=
  s.taken + s.queue.length

/-- Adds a token that begins at the cursor. -/
def push (s : Stream) (t : Token) : Stream :=
  { s with queue := s.queue ++ [⟨t, s.cursor.mark.line⟩] }

/-- Puts a token before the one with a number. If that one was taken, it comes last. -/
def insert (s : Stream) (number : Nat) (t : Placed) : Stream :=
  let place := if s.taken ≤ number then number - s.taken else s.queue.length
  { s with queue := s.queue.take place ++ t :: s.queue.drop place }

/-- Moves on by some characters. -/
def advance (s : Stream) (n : Nat) : Stream :=
  { s with cursor := s.cursor.skips n }

/-- Adds a token of some characters. -/
def sign (s : Stream) (t : Token) (length : Nat) : Stream :=
  (s.push t).advance length

/-- A problem at the cursor. -/
def fault (s : Stream) (p : Problem) : Fault :=
  s.cursor.fault p

/-! ### Blocks -/

/-- Begins a block in a column, unless it is no deeper. Its token comes before that of a number. -/
def enterBlock (s : Stream) (column number line : Nat) (t : Token) : Except Fault Stream :=
  if s.inFlow || column < s.least then .ok s
  else if depthLimit ≤ s.leasts.length then .error (s.fault .tooDeep)
  else .ok ({ s with least := column + 1, leasts := s.least :: s.leasts }.insert number ⟨t, line⟩)

/-- Begins a block here. -/
def enterBlockHere (s : Stream) (t : Token) : Except Fault Stream :=
  s.enterBlock s.column s.nextNumber s.cursor.mark.line t

/-- Ends blocks down to a least column, given the least columns of blocks. The result has those that
go on, and how many end. -/
def leaveFrom (target : Nat) : Nat → List Nat → Nat × List Nat × Nat
  | least, [] => (least, [], 0)
  | least, l :: ls =>
    if target < least then
      let (least', leasts, ended) := leaveFrom target l ls
      (least', leasts, ended + 1)
    else (least, l :: ls, 0)

/-- Ends the blocks whose least column is greater than a given one. -/
def leaveBlocks (s : Stream) (target : Nat) : Stream :=
  if s.inFlow then s
  else
    let (least, leasts, ended) := leaveFrom target s.least s.leasts
    { s with
      least, leasts
      queue := s.queue ++ List.replicate ended ⟨.blockEnd, s.cursor.mark.line⟩ }

/-! ### Keys -/

/-- Gives up the candidate on this level. -/
def dropCandidate (s : Stream) : Except Fault Stream :=
  if !s.inner.possible then .ok s
  else if s.inner.required then .error (s.fault .missingColon)
  else .ok { s with inner := { s.inner with possible := false, awaited := false } }

/-- Notes that a key may begin here, if it may. It has to, if an entry of the block around has to
begin in this column. -/
def noteCandidate (s : Stream) : Except Fault Stream := do
  if !s.keyAllowed then return s
  let required := !s.inFlow && s.least == s.column + 1
  let s ← s.dropCandidate
  return { s with inner := ⟨s.nextNumber, s.cursor.mark, true, required, true⟩ }

/-- Settles whether a candidate may still be a key. -/
def settle (s : Stream) (k : Candidate) : Except Fault Candidate :=
  if k.possible && k.isStale s.cursor.mark then
    if k.required then .error (s.fault .missingColon) else .ok { k with possible := false }
  else .ok k

/-- Begins a flow collection. -/
def enterFlow (s : Stream) : Except Fault Stream :=
  let k := noCandidate s.nextNumber s.cursor.mark
  if depthLimit ≤ s.outer.length then .error (s.fault .tooDeep)
  else .ok { s with inner := k, outer := s.inner :: s.outer }

/-- Ends a flow collection. The candidate outside does not wait if nothing inside was one. -/
def leaveFlow (s : Stream) : Stream :=
  match s.outer with
  | [] => s
  | k :: ks =>
    { s with inner := { k with awaited := k.awaited && k.number != s.inner.number }, outer := ks }

/-! ### Tokens -/

/-- Skips what stands before a token on a line: any character at its start if the window begins with
a byte order mark, blanks and a comment. Tabs do not count as blanks where a key may begin. -/
def skipInLine (tabs : Bool) : Scan Unit := do
  Scan.need 1
  let c ← get
  if c.marked && c.column = 0 then Scan.skip
  Scan.need 1
  Scan.skipWhile fun d => d == ' ' || (tabs && d == '\t')
  Scan.skipComment

/-- Skips what stands before the next token. There are no more lines than characters. -/
def toTokenFrom (s : Stream) : Nat → Except Fault Stream
  | 0 => .ok s
  | fuel + 1 => do
    let (_, s) ← s.scan (skipInLine (s.inFlow || !s.keyAllowed))
    if s.cursor.atBreak then
      let (_, s) ← s.scan Scan.takeBreak
      toTokenFrom { s with keyAllowed := s.keyAllowed || !s.inFlow } fuel
    else return s

/-- Skips what stands before the next token. -/
def toToken (s : Stream) : Except Fault Stream :=
  s.toTokenFrom (s.size + 1)

/-- Scans the end of the text, which is the end of all blocks. -/
def fetchEnd (s : Stream) : Except Fault Stream := do
  let m := s.cursor.mark
  let m := if m.column = 0 then m else { m with line := m.line + 1, column := 0 }
  let s ← ({ s with cursor := { s.cursor with mark := m } }.leaveBlocks 0).dropCandidate
  return { s with keyAllowed := false }.push .streamEnd

/-- Ends all blocks before something that stands between documents. -/
def leaveDocument (s : Stream) : Except Fault Stream := do
  let s ← (s.leaveBlocks 0).dropCandidate
  return { s with keyAllowed := false }

/-- Scans a directive. -/
def fetchDirective (s : Stream) : Except Fault Stream := do
  let s ← s.leaveDocument
  let (token, next) ← s.scan directiveToken
  return { s.push token with cursor := next.cursor }

/-- Scans a mark between documents. -/
def fetchDocumentMark (s : Stream) : Except Fault Stream := do
  let s ← s.leaveDocument
  return s.sign (if s.cursor.sees '-' then .documentStart else .documentEnd) 3

/-- Scans the beginning of a flow collection. -/
def fetchFlowStart (s : Stream) (t : Token) : Except Fault Stream := do
  let s ← s.noteCandidate
  let s ← s.enterFlow
  return { s with keyAllowed := true }.sign t 1

/-- Scans the end of a flow collection. -/
def fetchFlowEnd (s : Stream) (t : Token) : Except Fault Stream := do
  let s ← s.dropCandidate
  return { s.leaveFlow with keyAllowed := false }.sign t 1

/-- Scans a comma. -/
def fetchComma (s : Stream) : Except Fault Stream := do
  let s ← s.dropCandidate
  return { s with keyAllowed := true }.sign .comma 1

/-- Scans the sign before an item of a block sequence. -/
def fetchItem (s : Stream) : Except Fault Stream := do
  if !s.inFlow && !s.keyAllowed then throw (s.fault .strayItem)
  let s ← s.enterBlockHere .blockSequence
  let s ← s.dropCandidate
  return { s with keyAllowed := true }.sign .item 1

/-- Scans the sign before a key. -/
def fetchKey (s : Stream) : Except Fault Stream := do
  if !s.inFlow && !s.keyAllowed then throw (s.fault .strayKey)
  let s ← s.enterBlockHere .blockMapping
  let s ← s.dropCandidate
  return { s with keyAllowed := !s.inFlow }.sign .key 1

/-- Scans the colon behind a candidate, which is a key then. -/
def fetchValueOf (s : Stream) (k : Candidate) : Except Fault Stream := do
  let s := s.insert k.number ⟨.key, k.mark.line⟩
  let s ← s.enterBlock k.mark.column k.number k.mark.line .blockMapping
  let k := { k with possible := false, awaited := false }
  return { s with inner := k, keyAllowed := false }.sign .value 1

/-- Scans a colon. -/
def fetchValue (s : Stream) : Except Fault Stream := do
  let k ← s.settle s.inner
  if k.possible then s.fetchValueOf k
  else
    let s := { s with inner := k }
    if !s.inFlow && !s.keyAllowed then throw (s.fault .strayValue)
    let s ← s.enterBlockHere .blockMapping
    return { s with keyAllowed := !s.inFlow }.sign .value 1

/-- Scans an anchor or a reference. -/
def fetchAnchor (s : Stream) (t : String → Token) : Except Fault Stream := do
  let s ← s.noteCandidate
  let (name, next) ← s.scan anchorName
  return { s.push (t name) with cursor := next.cursor, keyAllowed := false }

/-- Scans a tag. -/
def fetchTag (s : Stream) : Except Fault Stream := do
  let s ← s.noteCandidate
  let (token, next) ← s.scan tagToken
  return { s.push token with cursor := next.cursor, keyAllowed := false }

/-- Scans a block scalar. -/
def fetchBlockScalar (s : Stream) (literal : Bool) : Except Fault Stream := do
  let s ← s.dropCandidate
  let (text, next) ← s.scan (blockScalar literal s.least s.size)
  return { s.push (.scalar (String.ofList text) false) with
    cursor := next.cursor, keyAllowed := true }

/-- Scans a quoted scalar. -/
def fetchQuoted (s : Stream) (quote : Char) : Except Fault Stream := do
  let s ← s.noteCandidate
  let (text, next) ← s.scan (quotedScalar quote s.size)
  return { s.push (.scalar (String.ofList text) false) with
    cursor := next.cursor, keyAllowed := false }

/-- Scans a plain scalar. -/
def fetchPlain (s : Stream) : Except Fault Stream := do
  let s ← s.noteCandidate
  let (p, next) ← s.scan (plainScalar s.inFlow s.least s.size)
  return { s.push (.scalar (String.ofList p.text) true) with
    cursor := next.cursor, keyAllowed := p.broken }

/-- Signs with which no plain scalar begins. -/
def indicators : List Char :=
  [',', '[', ']', '\x7b', '\x7d', '#', '&', '*', '!', '|', '>', singleQuote, '"', '%', '@', '\x60']

/-- Whether a plain scalar begins with these characters. -/
def beginsPlain (s : Stream) (c : Char) (cs : List Char) : Bool :=
  if c = '-' then !cs.head?.any isBlank
  else if c = '?' || c = ':' then !s.inFlow && !endsWord cs
  else !isBlank c && !isBreak c && !indicators.contains c

/-- Scans the token that begins with these characters. -/
def fetchAt (s : Stream) (c : Char) (cs : List Char) : Except Fault Stream :=
  let alone := endsWord cs
  if c = '%' && s.column = 0 then s.fetchDirective
  else if s.cursor.atDocumentMark then s.fetchDocumentMark
  else if c = '[' then s.fetchFlowStart .flowSequence
  else if c = '\x7b' then s.fetchFlowStart .flowMapping
  else if c = ']' then s.fetchFlowEnd .flowSequenceEnd
  else if c = '\x7d' then s.fetchFlowEnd .flowMappingEnd
  else if c = ',' then s.fetchComma
  else if c = '-' && alone then s.fetchItem
  else if c = '?' && (s.inFlow || alone) then s.fetchKey
  else if c = ':' && (s.inFlow || alone) then s.fetchValue
  else if c = '*' then s.fetchAnchor .reference
  else if c = '&' then s.fetchAnchor .anchor
  else if c = '!' then s.fetchTag
  else if c = '|' && !s.inFlow then s.fetchBlockScalar true
  else if c = '>' && !s.inFlow then s.fetchBlockScalar false
  else if c = singleQuote || c = '"' then s.fetchQuoted c
  else if s.beginsPlain c cs then s.fetchPlain
  else .error (s.fault .strayCharacter)

/-- Scans one more token, with those that follow from its column. -/
def fetch (s : Stream) : Except Fault Stream := do
  let s ← s.toToken
  let (_, s) ← (s.leaveBlocks (s.column + 1)).scan (Scan.need 4)
  match s.cursor.rest with
  | [] => s.fetchEnd
  | c :: cs => s.fetchAt c cs

/-! ### Taking tokens -/

/-- Settles whether candidates hold back the next token, which those with its number can, and says
whether one does. Candidates further out have smaller numbers. -/
def settleHeld (s : Stream) : List Candidate → Except Fault (List Candidate × Bool)
  | [] => .ok ([], false)
  | k :: ks => do
    if k.number < s.taken then return (k :: ks, false)
    let awaited := k.awaited && k.number = s.taken
    let k ← if awaited then s.settle k else pure k
    let (ks, held) ← s.settleHeld ks
    return (k :: ks, (awaited && k.possible) || held)

/-- Settles whether the next token is held back, and says whether it is. -/
def settleNext (s : Stream) : Except Fault (Stream × Bool) := do
  match ← s.settleHeld (s.inner :: s.outer) with
  | (inner :: outer, held) => return ({ s with inner, outer }, held)
  | ([], held) => return (s, held)

/-- Scans until the next token is settled, and says which it is. There are no more tokens to scan
than characters, besides the end. -/
def peekFrom (s : Stream) : Nat → Except Fault (Placed × Stream)
  | 0 => .error (s.fault .missingContent)
  | fuel + 1 => do
    match s.queue with
    | [] => (← s.fetch).peekFrom fuel
    | t :: _ =>
      let (s, held) ← s.settleNext
      if held then (← s.fetch).peekFrom fuel else return (t, s)

/-- The next token. -/
def peek (s : Stream) : Except Fault (Placed × Stream) :=
  s.peekFrom (s.size + 3)

/-- Takes the next token, which has been looked at. -/
def take (s : Stream) : Stream :=
  { s with queue := s.queue.drop 1, taken := s.taken + 1 }

end Stream

end Pathwise.Yaml

/-!
# White space and lines

Text is handled as a list of characters. This file has the two ways in which the rest of the
library cuts it: into lines at line feeds, and by trimming white space off its ends.

* **Blank**: the characters with the Unicode property `White_Space`. Zero-width characters such as
  U+200B and U+FEFF are not among them.
* **Lines**: a text with `n` line feeds has `n + 1` lines, the last of which may be empty.
-/

namespace Pathwise.Text

/-- White space: the characters of the Unicode property of that name. -/
def isBlank (c : Char) : Bool :=
  let n := c.toNat
  (9 ≤ n && n ≤ 13) || n == 0x20 || n == 0x85 || n == 0xA0 || n == 0x1680 ||
    (0x2000 ≤ n && n ≤ 0x200A) || n == 0x2028 || n == 0x2029 || n == 0x202F || n == 0x205F ||
    n == 0x3000

/-- The text without the characters at its end that satisfy `p`. -/
def dropEndWhile (p : Char → Bool) (cs : List Char) : List Char :=
  (cs.reverse.dropWhile p).reverse

/-- The text without white space at either end. -/
def trimChars (cs : List Char) : List Char :=
  dropEndWhile isBlank (cs.dropWhile isBlank)

/-- The text without white space at either end. -/
def trim (s : String) : String :=
  String.ofList (trimChars s.toList)

/-- The lines of a text, without their line feeds. -/
def lines : List Char → List (List Char)
  | [] => [[]]
  | c :: cs =>
    if c = '\n' then [] :: lines cs
    else
      match lines cs with
      | [] => [[c]]
      | l :: ls => (c :: l) :: ls

/-- Cuts a text at the first character that satisfies `p`, which belongs to neither part. -/
def cut? (p : Char → Bool) : List Char → Option (List Char × List Char)
  | [] => none
  | c :: cs => if p c then some ([], cs) else (cut? p cs).map fun (a, b) => (c :: a, b)

/-- What follows `start` in a text that begins with it. -/
def after? (start : List Char) (cs : List Char) : Option (List Char) :=
  match start, cs with
  | [], cs => some cs
  | _ :: _, [] => none
  | s :: start, c :: cs => if s = c then after? start cs else none

/-- Whether a text begins with `start`. -/
def startsWith (start cs : List Char) : Bool :=
  (after? start cs).isSome

/-- Lower case, as far as it can lead to an ASCII letter: the capital letters of ASCII, U+0130 and
U+212A. No other character has an ASCII letter for its lower case, so this decides whether a text
in lower case equals a text of ASCII letters and caseless characters. -/
def lowerChar (c : Char) : Char :=
  if 'A' ≤ c ∧ c ≤ 'Z' then Char.ofNat (c.toNat + 32)
  else if c.toNat = 0x130 then 'i'
  else if c.toNat = 0x212A then 'k'
  else c

/-- Lower case, letter by letter (see `lowerChar`). -/
def lower (s : String) : String :=
  String.ofList (s.toList.map lowerChar)

/-- Upper case for texts of ASCII letters. -/
def upper (s : String) : String :=
  String.ofList (s.toList.map fun c => if 'a' ≤ c ∧ c ≤ 'z' then Char.ofNat (c.toNat - 32) else c)

/-- A text of `n` copies of a character. -/
def repeated (n : Nat) (c : Char) : String :=
  String.ofList (List.replicate n c)

end Pathwise.Text

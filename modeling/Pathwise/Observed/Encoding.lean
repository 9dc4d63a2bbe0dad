import Pathwise.Document
import Pathwise.Json.Reader
import Pathwise.Observed

/-!
# Observed outputs in JSON and YAML

An integer is a JSON number of any size, a text a JSON string, and no output is null. Reading is
more lenient: a string that spells a JSON number is read as that number, and any other string as a
raw output. In YAML, an integer is a number only if it fits into a word.
-/

namespace Pathwise.Observed

/-- An output as a JSON value. -/
def toJson : Observed → Json
  | none => .null
  | integer n => .int n
  | text s => .string s

/-- An output as a value of a YAML document. -/
def toYaml : Observed → Document
  | none => .null
  | integer n => if int64 n = n then .int n else .text (toString n)
  | text s => .text s

/-- Why a JSON text is no output. -/
inductive DecodeError where
  | notInteger (numeral : String)
  | notScalar
  deriving Repr, DecidableEq, Inhabited

/-- The wording of an error, where it does not depend on the reader of JSON. -/
def DecodeError.message : DecodeError → String
  | notInteger n => "无法解析整数输出: " ++ n
  | notScalar => "既不是数字也不是字符串"

/-- The integer that a JSON number spells. -/
def ofNumeral (numeral : String) : Except DecodeError Observed :=
  match Text.signed? 10 numeral.toList with
  | some n => .ok (integer n)
  | Option.none => .error (.notInteger numeral)

/-- The output that a JSON text denotes. White space around null may be of any kind, and an empty
text is no output too. -/
def decode (json : String) : Except DecodeError Observed :=
  let trimmed := Text.trim json
  if trimmed = "null" ∨ trimmed = "" then .ok none
  else
    match Json.read? json with
    | some (.number n) => ofNumeral n
    | some (.string s) => if Json.isNumber s then ofNumeral s else .ok (ofText s)
    | some .null => .ok none
    | _ => .error .notScalar

end Pathwise.Observed

/-!
# What can be wrong with a YAML text

A text is refused at the first thing that is wrong with it. Most problems are reported with a line.
-/

namespace Pathwise.Yaml

/-- What is wrong with a text. -/
inductive Problem where
  | strayByte
  | forbiddenCharacter
  | tooDeep
  | missingColon
  | strayItem
  | strayKey
  | strayValue
  | strayCharacter
  | missingDirectiveName
  | badDirectiveName
  | unknownDirective
  | missingVersion
  | longVersion
  | badVersion
  | missingBlank
  | missingWordEnd
  | missingLineEnd
  | missingName
  | missingTagSign
  | missingTag
  | openTag
  | badEscapedByte
  | badLeadingByte
  | badTrailingByte
  | zeroIndent
  | tabInBlock
  | tabInPlain
  | markInQuotes
  | openQuotes
  | unknownEscape
  | badHexadecimal
  | badCodePoint
  | missingDocumentStart
  | repeatedVersion
  | otherVersion
  | repeatedHandle
  | unknownHandle
  | missingContent
  | missingItem
  | missingKey
  | openFlowSequence
  | openFlowMapping
  | unknownAnchor (name : String)
  | endlessAnchor (name : String)
  | tooManyAliases
  | badMerge
  | badBase64
  | otherKind (found text wanted : String)
  deriving Repr, Inhabited

/-- The wording of a problem. -/
def Problem.message : Problem → String
  | strayByte => "invalid leading UTF-8 octet"
  | forbiddenCharacter => "control characters are not allowed"
  | tooDeep => "exceeded max depth of 10000"
  | missingColon => "could not find expected ':'"
  | strayItem => "block sequence entries are not allowed in this context"
  | strayKey => "mapping keys are not allowed in this context"
  | strayValue => "mapping values are not allowed in this context"
  | strayCharacter => "found character that cannot start any token"
  | missingDirectiveName => "could not find expected directive name"
  | badDirectiveName => "found unexpected non-alphabetical character"
  | unknownDirective => "found unknown directive name"
  | missingVersion => "did not find expected version number"
  | longVersion => "found extremely long version number"
  | badVersion => "did not find expected digit or '.' character"
  | missingBlank => "did not find expected whitespace"
  | missingWordEnd => "did not find expected whitespace or line break"
  | missingLineEnd => "did not find expected comment or line break"
  | missingName => "did not find expected alphabetic or numeric character"
  | missingTagSign => "did not find expected '!'"
  | missingTag => "did not find expected tag URI"
  | openTag => "did not find the expected '>'"
  | badEscapedByte => "did not find URI escaped octet"
  | badLeadingByte => "found an incorrect leading UTF-8 octet"
  | badTrailingByte => "found an incorrect trailing UTF-8 octet"
  | zeroIndent => "found an indentation indicator equal to 0"
  | tabInBlock => "found a tab character where an indentation space is expected"
  | tabInPlain => "found a tab character that violates indentation"
  | markInQuotes => "found unexpected document indicator"
  | openQuotes => "found unexpected end of stream"
  | unknownEscape => "found unknown escape character"
  | badHexadecimal => "did not find expected hexdecimal number"
  | badCodePoint => "found invalid Unicode character escape code"
  | missingDocumentStart => "did not find expected <document start>"
  | repeatedVersion => "found duplicate %YAML directive"
  | otherVersion => "found incompatible YAML document"
  | repeatedHandle => "found duplicate %TAG directive"
  | unknownHandle => "found undefined tag handle"
  | missingContent => "did not find expected node content"
  | missingItem => "did not find expected '-' indicator"
  | missingKey => "did not find expected key"
  | openFlowSequence => "did not find expected ',' or ']'"
  | openFlowMapping => "did not find expected ',' or '\x7d'"
  | unknownAnchor name => "unknown anchor '" ++ name ++ "' referenced"
  | endlessAnchor name => "anchor '" ++ name ++ "' value contains itself"
  | tooManyAliases => "document contains excessive aliasing"
  | badMerge => "map merge requires map or sequence of maps as the value"
  | badBase64 => "!!binary value contains invalid base64 data"
  | otherKind found text wanted =>
    "cannot decode " ++ found ++ " `" ++ text ++ "` as a " ++ wanted

/-- A problem and the line that it is reported with. Line 0 is not told. -/
structure Fault where
  line : Nat
  problem : Problem
  deriving Repr, Inhabited

/-- A problem that is not tied to a line. -/
def Fault.anywhere (p : Problem) : Fault :=
  ⟨0, p⟩

/-- The wording of a fault. -/
def Fault.message (f : Fault) : String :=
  let place := if f.line = 0 then "" else "line " ++ toString f.line ++ ": "
  "yaml: " ++ place ++ f.problem.message

end Pathwise.Yaml

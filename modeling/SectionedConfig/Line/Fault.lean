import SectionedConfig.Error

/-!
# Faults on a line

The reasons for which the text of a line cannot be split into tokens, and where on the line the
complaint points.
-/

namespace SectionedConfig

/-- What cannot stand after plain text. -/
inductive Boundary where
  | sectionEnd
  | comment
  | endOfLine
  | endOfInput
deriving DecidableEq

/-- The name of a boundary in messages. -/
def Boundary.name : Boundary → String
  | sectionEnd => "end of section"
  | comment => "comment"
  | endOfLine => "end of statement"
  | endOfInput => "end of file"

/-- Why a line cannot be split into tokens. -/
inductive LineFault.Cause where
  /-- An opening brace follows nothing but white space. -/
  | namelessSection
  /-- An equals sign follows nothing but white space. -/
  | keylessAssignment
  /-- Plain text ends at a boundary that does not make it a name or a key. -/
  | strayText (text : List Char) (boundary : Boundary)
  /-- A value starts with a bracket and does not end with one. -/
  | unclosedList
  /-- A value contains a single quotation mark. -/
  | unclosedString
  /-- A quoted value has text around it. -/
  | textAroundString
deriving DecidableEq

/-- The wording of a cause. -/
def LineFault.Cause.message : Cause → String
  | namelessSection => "section start without a name"
  | keylessAssignment => "assignment without a key"
  | strayText text boundary =>
    "unrecognized text " ++ Text.quoted (String.ofList text) ++ " before " ++ boundary.name
  | unclosedList => "unterminated list"
  | unclosedString => "unterminated string"
  | textAroundString => "unexpected text around quoted value"

/-- A fault and its distance in bytes from the start of the line. -/
structure LineFault where
  start : Nat
  cause : LineFault.Cause
deriving DecidableEq

/-- The error for a fault on a line with the given number and offset. -/
def LineFault.toError (line offset : Nat) (fault : LineFault) : Error :=
  .lexical line (offset + fault.start) fault.cause.message

end SectionedConfig

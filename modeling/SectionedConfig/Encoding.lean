import SectionedConfig.Document
import SectionedConfig.Layout

/-!
# Encoding

Whatever is encoded becomes a document first: a header of comments, and sections whose assignments
stand on lines of their own. What cannot be read back is refused before that. The causes of refusal
are shared by everything that encodes values.
-/

namespace SectionedConfig

open Text

/-- Why a value cannot be written so that it reads back. -/
inductive ValueFault where
  /-- A string contains a line feed or a carriage return. -/
  | lineBreak
  /-- A string contains a quotation mark. -/
  | quotationMark
  /-- A string contains an opening bracket, which would make a list of it. -/
  | bracket
  /-- A list item contains a character that the notation of lists uses. -/
  | itemCharacter (item : String) (c : Char)
  /-- A list item has white space around it, which reading would drop. -/
  | itemBlank (item : String)
deriving DecidableEq

/-- The wording of a fault. -/
def ValueFault.message : ValueFault → String
  | lineBreak => "string contains a line break"
  | quotationMark => "string contains a quote"
  | bracket => "string containing '[' would decode as a list"
  | itemCharacter item c => "list element " ++ quoted item ++ " contains " ++ quotedChar c
  | itemBlank item => "list element " ++ quoted item ++ " has surrounding whitespace"

/-- The error for a fault in the value of a field. -/
def ValueFault.toError (field : String) (fault : ValueFault) : Error :=
  .unsupportedValue field fault.message

/-- What keeps a text from being written between quotation marks. -/
def textFault? (text : String) : Option ValueFault :=
  let chars := text.toList
  if '\n' ∈ chars ∨ '\r' ∈ chars then some .lineBreak
  else if '"' ∈ chars then some .quotationMark
  else none

/-- The characters that a list item cannot contain. -/
def itemReserved : List Char := [',', '"', '[', ']', '\n', '\r']

/-- What keeps a text from being an item of a list. -/
def itemFault? (item : String) : Option ValueFault :=
  match item.toList.find? fun c ↦ itemReserved.contains c with
  | some c => some (.itemCharacter item c)
  | none => if trim item.toList = item.toList then none else some (.itemBlank item)

/-- The assignment of a string, if it can be written between quotation marks. -/
def encodeString (field text : String) : Except Error Statement :=
  match textFault? text with
  | some fault => .error (fault.toError field)
  | none => .ok (.assignString field text)

namespace Document

/-- A section whose assignments stand on lines of their own. -/
def blockOfLines (name : String) (assignments : List Statement) : Statement :=
  .blockOf name
    (.lineEnd :: assignments.flatMap fun assignment ↦ [assignment, .lineEnd])

/-- A header of comments and the sections after it. -/
def ofSections (header : Option String) (sections : List (String × List Statement)) : Document :=
  ⟨header.elim [] Statement.remarkBlock ++
    sections.flatMap fun (name, assignments) ↦ [blockOfLines name assignments, .lineEnd]⟩

/-- The text of a document. -/
def render (document : Document) : Except Error String :=
  SectionedConfig.render document.tokens

end Document

end SectionedConfig

import SectionedConfig.Line.Fault
import SectionedConfig.Line.Segments
import SectionedConfig.Text.Lines
import SectionedConfig.Token

/-!
# The lexemes of a line

Each line is split on its own. A lexeme knows its distance from the start of the line, so that lines
can be split without knowing where in the input they stand; `Lexeme.toToken` puts it in its place.
A fault ends the line, and the lexemes before it are kept.
-/

namespace SectionedConfig

open Text

/-- A piece of a line and its distance in bytes from the start of the line. -/
structure Lexeme where
  kind : TokenKind
  text : List Char
  start : Nat
  /-- Whether a string stands without quotation marks. -/
  unquoted : Bool := false
deriving DecidableEq

/-- The token of a lexeme on a line with the given number and offset. -/
def Lexeme.toToken (line offset : Nat) (lexeme : Lexeme) : Token :=
  { kind := lexeme.kind
    value := String.ofList lexeme.text
    position := some ⟨line, offset + lexeme.start⟩
    unquoted := lexeme.unquoted }

/-- A lexeme for a text without the white space around it; `start` is where the text starts. -/
def Lexeme.trimmed (kind : TokenKind) (text : List Char) (start : Nat) : Lexeme :=
  ⟨kind, trim text, start + byteSize (margin text), false⟩

/-- What splitting a line gives: its lexemes, up to a fault if there is one. -/
structure Scan where
  lexemes : List Lexeme
  fault : Option LineFault := none
deriving DecidableEq

namespace Scan

/-- A scan that fails before anything is found. -/
def failed (start : Nat) (cause : LineFault.Cause) : Scan :=
  ⟨[], some ⟨start, cause⟩⟩

/-- Puts lexemes in front of a scan. -/
def prepend (lexemes : List Lexeme) (scan : Scan) : Scan :=
  ⟨lexemes ++ scan.lexemes, scan.fault⟩

/-- Goes on with `scan` if the text before a boundary is blank, and complains about it if not. -/
def afterBlank (lead : List Char) (start : Nat) (boundary : Boundary) (scan : Scan) : Scan :=
  if (trim lead).isEmpty then scan
  else failed (start + byteSize (margin lead)) (.strayText (trim lead) boundary)

end Scan

/-- The lexeme of a value that starts at `start`. A bracket makes a list of it, quotation marks make
a string of what stands between the first and the last one, and anything else is a bare value. -/
def scanValue (text : List Char) (start : Nat) : Except LineFault Lexeme :=
  let bare := trim text
  let bareStart := start + byteSize (margin text)
  if bare.head? = some '[' then
    if bare.getLast? = some ']' then .ok ⟨.string, bare, bareStart, true⟩
    else .error ⟨bareStart, .unclosedList⟩
  else match cutFirst '"' text with
    | none => .ok ⟨.int64, bare, bareStart, false⟩
    | some (before, inside) =>
      match cutLast '"' inside with
      | none => .error ⟨start + byteSize before, .unclosedString⟩
      | some (string, after) =>
        if (trim before).isEmpty && (trim after).isEmpty then
          .ok ⟨.string, string, start + byteSize before, false⟩
        else .error ⟨bareStart, .textAroundString⟩

/-- The lexemes of a comment whose mark stands at `start`. -/
def scanComment (text : List Char) (start : Nat) : List Lexeme :=
  [⟨.comment, ['#'], start, false⟩, .trimmed .commentText text (start + 1)]

/-- The lexeme that ends a line; it is empty where the input ends instead. -/
def endLexeme (terminated : Bool) (start : Nat) : Lexeme :=
  ⟨.endOfStatement, if terminated then ['\n'] else [], start, false⟩

/-- The lexemes after an equals sign at the end of which `start` stands. -/
def scanAssigned (text : List Char) (start : Nat) (terminated : Bool) : Scan :=
  let (value, comment) := cutComment false text
  match scanValue value start with
  | .error fault => ⟨[], some fault⟩
  | .ok lexeme =>
    let remark := comment.elim [] fun text ↦ scanComment text (start + byteSize value)
    ⟨lexeme :: remark ++ [endLexeme terminated (start + byteSize text)], none⟩

/-- The lexemes of segments the first of which starts at `start`. -/
def Segments.scan (terminated : Bool) (start : Nat) : Segments → Scan
  | .plain text =>
    Scan.afterBlank text start (if terminated then .endOfLine else .endOfInput)
      ⟨[endLexeme terminated (start + byteSize text)], none⟩
  | .opening name rest =>
    let brace := start + byteSize name
    if (trim name).isEmpty then Scan.failed brace .namelessSection
    else
      (rest.scan terminated (brace + 1)).prepend
        [.trimmed .sectionName name start, ⟨.sectionStart, ['{'], brace, false⟩]
  | .closing lead rest =>
    let brace := start + byteSize lead
    Scan.afterBlank lead start .sectionEnd
      ((rest.scan terminated (brace + 1)).prepend [⟨.sectionEnd, ['}'], brace, false⟩])
  | .assignment key value =>
    let sign := start + byteSize key
    if (trim key).isEmpty then Scan.failed sign .keylessAssignment
    else
      (scanAssigned value (sign + 1) terminated).prepend
        [.trimmed .identifier key start, ⟨.assignment, ['='], sign, false⟩]
  | .comment lead text =>
    let mark := start + byteSize lead
    Scan.afterBlank lead start .comment
      ⟨scanComment text mark ++ [endLexeme terminated (mark + 1 + byteSize text)], none⟩

/-- Splits a line into lexemes. -/
def Text.Line.scan (line : Line Char) : Scan :=
  (Segments.cut line.content).scan line.terminated 0

/-- The number of bytes that a line takes, with its line feed. -/
def Text.Line.byteSize (line : Line Char) : Nat :=
  Text.byteSize line.content + if line.terminated then 1 else 0

end SectionedConfig

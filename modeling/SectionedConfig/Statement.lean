import SectionedConfig.Decimal
import SectionedConfig.Text.Blank
import SectionedConfig.Text.Lines
import SectionedConfig.Token

/-!
# Statements

Tokens group into statements: the end of a line, a comment, an assignment, or a section with the
statements between its braces. A statement keeps the tokens that it is made of, so it can be turned
back into them. The format has no sections inside sections; the type allows them, and adding a
statement to a section refuses them.
-/

namespace SectionedConfig

open Text

/-- A group of tokens that belong together. -/
inductive Statement where
  /-- The end of a line. -/
  | newline (token : Token)
  | comment (mark text : Token)
  | assignment (key sign value : Token)
  /-- A section: its name, its braces, and the statements between them. -/
  | block (name opening : Token) (children : List Statement) (closing : Token)

namespace Statement

/-- A token without a place. -/
def freshToken (kind : TokenKind) (value : String) : Token :=
  { kind := kind, value := value }

/-- The end of a line. -/
def lineEnd : Statement :=
  newline (freshToken .endOfStatement "\n")

/-- A comment with a text, which loses the white space around it. -/
def remark (text : String) : Statement :=
  comment (freshToken .comment "#")
    (freshToken .commentText (String.ofList (trim text.toList)))

/-- Comments for the lines of a text, each on a line of its own. -/
def remarkBlock (text : String) : List Statement :=
  (Line.cut '\n' text.toList).flatMap fun line ↦ [remark (String.ofList line.content), lineEnd]

/-- The assignment of a value token to a key. -/
def assign (key : String) (value : Token) : Statement :=
  assignment (freshToken .identifier key) (freshToken .assignment "=") value

/-- The assignment of an integer. -/
def assignInt64 (key : String) (number : Int64) : Statement :=
  assign key (freshToken .int64 (Decimal.writeInt64 number))

/-- The assignment of a string, which is written between quotation marks. -/
def assignString (key text : String) : Statement :=
  assign key (freshToken .string text)

/-- The assignment of a bracketed list, which is written as it stands. -/
def assignList (key text : String) : Statement :=
  assign key { freshToken .string text with unquoted := true }

/-- The section with the given statements between its braces. -/
def blockOf (name : String) (children : List Statement) : Statement :=
  block (freshToken .sectionName name) (freshToken .sectionStart "\x7b") children
    (freshToken .sectionEnd "\x7d")

/-- A section without assignments: its braces stand on lines of their own. -/
def emptyBlock (name : String) : Statement :=
  blockOf name [lineEnd]

/-- The kind of statement, as the kind of a token that is typical of it. -/
def kind : Statement → TokenKind
  | newline _ => .endOfStatement
  | comment _ _ => .comment
  | assignment _ _ _ => .assignment
  | block _ _ _ _ => .sectionName

/-- Whether a statement is a section. -/
def isBlock (statement : Statement) : Bool :=
  statement.kind = .sectionName

/-- The name of a section or the key of an assignment. -/
def name? : Statement → Option String
  | block name _ _ _ => some name.value
  | assignment key _ _ => some key.value
  | _ => none

/-- The statements inside a section. -/
def children : Statement → List Statement
  | block _ _ children _ => children
  | _ => []

/-- Adds a statement at the end of a section. Only sections can be added to, and no section can be
added. -/
def push (statement child : Statement) : Except Error Statement :=
  match child, statement with
  | block name _ _ _, _ =>
    .error (.structural name.line "statement inside section" TokenKind.sectionName.name)
  | child, block name opening children closing =>
    .ok (block name opening (children ++ [child]) closing)
  | _, other => .error (.structural 0 "section" other.kind.name)

/-- Adds a statement on a line of its own at the end of a section. -/
def pushLine (statement child : Statement) : Except Error Statement :=
  (statement.push child).bind fun longer ↦ longer.push lineEnd

mutual

/-- The tokens of a statement. -/
def tokens : Statement → List Token
  | newline token => [token]
  | comment mark text => [mark, text]
  | assignment key sign value => [key, sign, value]
  | block name opening children closing => name :: opening :: (tokensOf children ++ [closing])

/-- The tokens of statements in a row. -/
def tokensOf : List Statement → List Token
  | [] => []
  | statement :: rest => statement.tokens ++ tokensOf rest

end

mutual

/-- Whether two statements have the same shape and the same tokens. -/
def same : Statement → Statement → Bool
  | newline token, newline token' => token.same token'
  | comment mark text, comment mark' text' => mark.same mark' && text.same text'
  | assignment key sign value, assignment key' sign' value' =>
    key.same key' && sign.same sign' && value.same value'
  | block name opening children closing, block name' opening' children' closing' =>
    name.same name' && opening.same opening' && sameAll children children' &&
      closing.same closing'
  | _, _ => false

/-- Whether two rows of statements are the same. -/
def sameAll : List Statement → List Statement → Bool
  | [], [] => true
  | statement :: rest, statement' :: rest' => statement.same statement' && sameAll rest rest'
  | _, _ => false

end

end Statement

end SectionedConfig

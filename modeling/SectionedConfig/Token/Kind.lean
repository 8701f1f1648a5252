/-!
# Kinds of tokens

The smallest parts of a configuration text, sorted by the part that they play. Five characters have
a meaning of their own; everything else is plain text until one of them settles what it was.
-/

namespace SectionedConfig

/-- The part that a token plays. -/
inductive TokenKind where
  /-- The mark that starts a comment. -/
  | comment
  /-- The text of a comment. -/
  | commentText
  /-- The line feed that ends a statement; empty if the input ends without one. -/
  | endOfStatement
  /-- The name in front of an opening brace. -/
  | sectionName
  /-- An opening brace. -/
  | sectionStart
  /-- A closing brace. -/
  | sectionEnd
  /-- The text between quotation marks, or a bracketed list. -/
  | string
  /-- The key in front of an equals sign. -/
  | identifier
  /-- An equals sign. -/
  | assignment
  /-- A bare value, which is a numeral if the text is to be decoded. -/
  | int64
  /-- The place before the first line. -/
  | startOfFile
  /-- The place after the last line. -/
  | endOfFile
  /-- A failure, after which nothing follows. -/
  | failure
  /-- Plain text whose part is not settled yet. -/
  | unclassified
deriving DecidableEq

namespace TokenKind

/-- The name of a kind in messages. -/
def name : TokenKind → String
  | comment => "comment"
  | commentText => "comment value"
  | endOfStatement => "end of statement"
  | sectionName => "section"
  | sectionStart => "start of section"
  | sectionEnd => "end of section"
  | string => "string"
  | identifier => "identifier"
  | assignment => "assignment"
  | int64 => "int64"
  | startOfFile => "start of file"
  | endOfFile => "end of file"
  | failure => "error"
  | unclassified => "unclassified"

/-- The kind that a single character settles. -/
def classify (c : Char) : TokenKind :=
  if c = '{' then sectionStart
  else if c = '}' then sectionEnd
  else if c = '=' then assignment
  else if c = '\n' then endOfStatement
  else if c = '#' then comment
  else unclassified

/-- Five characters settle a kind, each one its own. -/
theorem classify_eq_iff {c : Char} {kind : TokenKind} (h : kind ≠ unclassified) :
    classify c = kind ↔ (kind, c) ∈ [(sectionStart, '{'), (sectionEnd, '}'), (assignment, '='),
      (endOfStatement, '\n'), (comment, '#')] := by
  simp only [List.mem_cons, Prod.mk.injEq, List.not_mem_nil, or_false]
  grind [classify]

/-- The kinds that can stand after an equals sign. -/
def isValue : TokenKind → Bool
  | string | int64 => true
  | _ => false

end TokenKind

end SectionedConfig

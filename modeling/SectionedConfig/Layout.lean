import SectionedConfig.Token

/-!
# Layout

Tokens are written with a fixed layout. Inside a section, comments and assignments that start a line
are indented by one tab; after something else on the line they are set off by one space. What a
token looks like depends on the token, on what has been written before it, and, for the mark of a
comment, on whether a text follows.
-/

namespace SectionedConfig

namespace Layout

/-- What has been written, as far as it matters for the next token. -/
structure Cursor where
  /-- Whether the last brace that was written opens a section. -/
  inSection : Bool
  /-- Whether nothing has been written on the line. -/
  atLineStart : Bool
deriving DecidableEq

/-- The start of a text. -/
def Cursor.start : Cursor := ⟨false, true⟩

/-- What sets a comment or a key off from what is before it. -/
def Cursor.gap (cursor : Cursor) : List Char :=
  if !cursor.atLineStart then [' '] else if cursor.inSection then ['\t'] else []

/-- The cursor after a token. -/
def Cursor.after (cursor : Cursor) (kind : TokenKind) : Cursor :=
  match kind with
  | .startOfFile => cursor
  | .endOfStatement => { cursor with atLineStart := true }
  | .sectionStart => ⟨true, false⟩
  | .sectionEnd => ⟨false, false⟩
  | _ => { cursor with atLineStart := false }

/-- Whether a token is the text of a comment, and not an empty one. -/
def isRemark (token : Token) : Bool :=
  token.kind = .commentText && !token.value.isEmpty

/-- The written form of a token in front of the next one. -/
def tokenText (cursor : Cursor) (token : Token) (next : Option Token) :
    Except Error (List Char) :=
  let text := token.value.toList
  match token.kind with
  | .startOfFile | .endOfFile => .ok []
  | .endOfStatement | .commentText | .int64 | .sectionStart | .sectionEnd => .ok text
  | .comment => .ok (cursor.gap ++ text ++ if next.any isRemark then [' '] else [])
  | .sectionName | .assignment => .ok (text ++ [' '])
  | .identifier => .ok (cursor.gap ++ text ++ [' '])
  | .string => .ok (if token.unquoted then text else '"' :: text ++ ['"'])
  | .failure => .error (token.failure?.getD (.custom token.value))
  | .unclassified => .error (.unformattable token.kind)

/-- The written form of tokens. The end of the file ends it. -/
def textFrom (cursor : Cursor) : List Token → Except Error (List Char)
  | [] => .ok []
  | token :: rest =>
    if token.kind = .endOfFile then .ok []
    else
      match tokenText cursor token rest.head? with
      | .error error => .error error
      | .ok text => (textFrom (cursor.after token.kind) rest).map fun later ↦ text ++ later

end Layout

/-- The text of a token sequence. -/
def render (tokens : List Token) : Except Error String :=
  (Layout.textFrom .start tokens).map String.ofList

end SectionedConfig

import SectionedConfig.Error

/-!
# Tokens

A token is a piece of text with the part that it plays and the place where it was found. Tokens that
were not read from a text, and the ones that end a token sequence, have no place.
-/

namespace SectionedConfig

/-- A place in a text: the line, counted from one, and the number of bytes before it. -/
structure Position where
  line : Nat
  offset : Nat
deriving DecidableEq

/-- A piece of text and the part that it plays. -/
structure Token where
  kind : TokenKind
  value : String
  position : Option Position := none
  /-- What went wrong, in the token that ends a failed reading. -/
  error : Option Error := none
  /-- Whether a string is written without quotation marks, as a list is. -/
  unquoted : Bool := false
deriving DecidableEq

namespace Token

/-- The token after the last line. -/
def endOfFile : Token := ⟨.endOfFile, "", none, none, false⟩

/-- The token that ends a failed reading. -/
def ofError (error : Error) : Token := ⟨.failure, error.message, none, some error, false⟩

/-- The line on which a token starts, zero if it has no place. -/
def line (token : Token) : Nat :=
  token.position.elim 0 Position.line

/-- The number of bytes before a token, zero if it has no place. -/
def offset (token : Token) : Nat :=
  token.position.elim 0 Position.offset

/-- What a failure stands for. One that embeds no error complains about its own text. -/
def failure? (token : Token) : Option Error :=
  if token.kind = .failure then some (token.error.getD (.lexical token.line 0 token.value))
  else none

/-- Tokens are the same if they agree in everything; embedded errors are compared by their
wording. -/
def same (first second : Token) : Bool :=
  first.kind = second.kind && first.value = second.value && first.position = second.position &&
    first.unquoted = second.unquoted &&
    first.error.map Error.message = second.error.map Error.message

end Token

end SectionedConfig

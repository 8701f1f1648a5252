import SectionedConfig.ByteStream
import SectionedConfig.Line.Lexeme

/-!
# Token streams

Lines become batches of tokens, one batch a line. The first batch opens with the token for the start
of the file. The last one ends with the token for its end or with a failure; nothing is read after a
failure. A token stream hands out the batches one by one, or all that are left at once.
-/

namespace SectionedConfig

open Text

/-- The tokens of one line. -/
structure Batch where
  tokens : List Token
  /-- The number of the line that comes next. A line that fails is not counted. -/
  line : Nat
deriving DecidableEq

namespace Batch

/-- The token before the first line. -/
def startOfFile : Token :=
  { kind := .startOfFile, value := "", position := some ⟨1, 0⟩ }

/-- The batches of lines the first of which has the given number and offset. `lead` are the tokens
that open the first batch. -/
def ofLines (lead : List Token) (number offset : Nat) : List LineRead → List Batch
  | [] => [⟨lead ++ [.endOfFile], number⟩]
  | .error reason :: _ =>
    [⟨lead ++ [.ofError (.stream ("line " ++ toString number ++ ": " ++ reason))], number⟩]
  | .ok line :: rest =>
    let scan := line.scan
    let tokens := lead ++ scan.lexemes.map (Lexeme.toToken number offset)
    match scan.fault with
    | some fault => [⟨tokens ++ [.ofError (fault.toError number offset)], number⟩]
    | none =>
      if line.terminated then
        ⟨tokens, number + 1⟩ :: ofLines [] (number + 1) (offset + line.byteSize) rest
      else [⟨tokens ++ [.endOfFile], number + 1⟩]

/-- The batches of a whole input. -/
def all (lines : List LineRead) : List Batch :=
  ofLines [startOfFile] 1 0 lines

end Batch

/-- The batches of an input that have not been handed out yet. -/
structure TokenStream where
  pending : List Batch
  /-- The number of the line that comes next. -/
  line : Nat
deriving DecidableEq

namespace TokenStream

/-- The tokens of some lines, none of them handed out. -/
def ofLines (lines : List LineRead) : TokenStream :=
  ⟨Batch.all lines, 1⟩

/-- The tokens of a text. -/
def ofText (text : String) : TokenStream :=
  ofLines (linesOfText text)

/-- The tokens of what a byte stream delivers. -/
def ofBytes (bytes : ByteStream) : TokenStream :=
  ofLines bytes.lines

/-- The next batch. Once the input is used up, every batch is the end of the file. -/
def nextBatch (stream : TokenStream) : List Token × TokenStream :=
  match stream.pending with
  | [] => ([.endOfFile], stream)
  | batch :: rest => (batch.tokens, ⟨rest, batch.line⟩)

/-- All tokens that are left, or the end of the file once the input is used up. -/
def rest (stream : TokenStream) : List Token × TokenStream :=
  match stream.pending with
  | [] => ([.endOfFile], stream)
  | first :: others =>
    (first.tokens ++ others.flatMap Batch.tokens, ⟨[], (others.getLast?.getD first).line⟩)

/-- The tokens of a whole input. A failure is the last of them. -/
def tokens (stream : TokenStream) : List Token :=
  stream.rest.1

/-- The tokens of a whole input, or the failure that ends them. -/
def checked (stream : TokenStream) : Except Error (List Token) :=
  match stream.tokens.getLast?.bind Token.failure? with
  | some error => .error error
  | none => .ok stream.tokens

end TokenStream

end SectionedConfig

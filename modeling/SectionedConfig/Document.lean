import SectionedConfig.Statement

/-!
# Documents

A document is a row of statements. It is assembled from tokens in one pass that remembers the
section whose closing brace is still to come, and it is flattened into tokens again. A pass that
breaks off leaves no statements behind. Flattening numbers the lines anew, so that documents built
by hand have line numbers as well.
-/

namespace SectionedConfig

open Text (quoted)

/-- The statements of a configuration text. -/
structure Document where
  statements : List Statement

namespace Document

/-- A section whose closing brace has not been met. -/
structure Pending where
  name : Token
  opening : Token
  children : List Statement

/-- What a message calls a token that may be missing. -/
def foundName (token : Option Token) : String :=
  token.elim "end of input" fun token ↦ token.kind.name

/-- The complaint that `token` is not followed by a token of the wanted kind. -/
def missingAfter (token : Token) (wanted : TokenKind) (found : Option Token) : Error :=
  .structural token.line (wanted.name ++ " after " ++ token.kind.name) (foundName found)

/-- What is wrong if the tokens end while a section is pending. -/
def unclosed (pending : Pending) : Error :=
  .structural pending.name.line ("end of section " ++ quoted pending.name.value)
    TokenKind.endOfFile.name

/-- Adds a statement to the pending section, or to the finished statements if there is none. -/
def attach (statement : Statement) : Option Pending → Option Pending × List Statement
  | none => (none, [statement])
  | some pending => (some { pending with children := pending.children ++ [statement] }, [])

/-- What a pass over tokens has come to. -/
structure Pass where
  /-- The statements that were finished, also if the pass broke off after them. -/
  finished : List Statement
  /-- What broke the pass off. -/
  fault : Option Error

/-- Breaks off before a statement is finished. -/
def Pass.failed (error : Error) : Pass := ⟨[], some error⟩

/-- Puts finished statements in front of the ones that follow them. -/
def Pass.after (finished : List Statement) (rest : Pass) : Pass :=
  ⟨finished ++ rest.finished, rest.fault⟩

/-- Ends the pass, which must not leave a section pending. -/
def finish : Option Pending → Pass
  | none => ⟨[], none⟩
  | some pending => .failed (unclosed pending)

/-- Finishes the statements of a token sequence. `pending` is the section that is open and
`previous` the token before. -/
def parse (pending : Option Pending) (previous : Option Token) : List Token → Pass
  | [] => finish pending
  | token :: rest =>
    match token.kind with
    | .startOfFile => parse pending (some token) rest
    | .endOfFile => finish pending
    | .failure => .failed (token.failure?.getD (.custom token.value))
    | .sectionName =>
      match pending with
      | some around =>
        .failed (.structural token.line ("end of section " ++ quoted around.name.value)
          token.kind.name)
      | none =>
        match rest with
        | [] => .failed (missingAfter token .sectionStart none)
        | opening :: rest =>
          if opening.kind = .sectionStart then
            parse (some ⟨token, opening, []⟩) (some opening) rest
          else .failed (missingAfter token .sectionStart (some opening))
    | .sectionEnd =>
      match pending with
      | none => .failed (.structural token.line "open section" token.kind.name)
      | some around =>
        (parse none (some token) rest).after
          [.block around.name around.opening around.children token]
    | .comment =>
      match rest with
      | [] => .failed (missingAfter token .commentText none)
      | text :: rest =>
        if text.kind = .commentText then
          let (pending, finished) := attach (.comment token text) pending
          (parse pending (some text) rest).after finished
        else .failed (missingAfter token .commentText (some text))
    | .identifier =>
      match rest with
      | [] => .failed (missingAfter token .assignment none)
      | [sign] =>
        if sign.kind = .assignment then
          .failed (.structural sign.line "value after assignment" (foundName none))
        else .failed (missingAfter token .assignment (some sign))
      | sign :: value :: rest =>
        if sign.kind = .assignment then
          if value.kind.isValue then
            let (pending, finished) := attach (.assignment token sign value) pending
            (parse pending (some value) rest).after finished
          else .failed (.structural sign.line "value after assignment" (foundName (some value)))
        else .failed (missingAfter token .assignment (some sign))
    | .endOfStatement =>
      let (pending, finished) := attach (.newline token) pending
      (parse pending (some token) rest).after finished
    | .assignment =>
      .failed (.structural token.line "identifier before assignment" (foundName previous))
    | kind => .failed (.structural token.line "statement" kind.name)

/-- The document without statements. -/
def empty : Document := ⟨[]⟩

/-- Adds a statement at the end. -/
def push (document : Document) (statement : Statement) : Document :=
  ⟨document.statements ++ [statement]⟩

/-- Adds a statement on a line of its own at the end. -/
def pushLine (document : Document) (statement : Statement) : Document :=
  (document.push statement).push .lineEnd

/-- Adds statements at the end. -/
def pushAll (document : Document) (statements : List Statement) : Document :=
  ⟨document.statements ++ statements⟩

/-- Takes all statements out. -/
def clear (document : Document) : Document :=
  { document with statements := [] }

/-- Takes all statements out and adds the ones that are assembled from tokens. If the tokens are
faulty, those that had been added before the fault was met are taken out again. -/
def reassemble (document : Document) (tokens : List Token) : Except Error Unit × Document :=
  let pass := parse none none tokens
  let filled := document.clear.pushAll pass.finished
  match pass.fault with
  | none => (.ok (), filled)
  | some error => (.error error, filled.clear)

/-- Assembles a document. -/
def ofTokens (tokens : List Token) : Except Error Document :=
  let (result, document) := empty.reassemble tokens
  result.map fun () ↦ document

/-- The sections of a document. -/
def sections (document : Document) : List Statement :=
  document.statements.filter Statement.isBlock

/-- The first section with the given name. -/
def section? (document : Document) (name : String) : Option Statement :=
  document.sections.find? fun statement ↦ statement.name? = some name

/-- Numbers the lines of tokens, the first of them with `line`. Offsets are kept. -/
def numberLines (line : Nat) : List Token → List Token
  | [] => []
  | token :: rest =>
    { token with position := some ⟨line, token.offset⟩ } ::
      numberLines (if token.kind = .endOfStatement then line + 1 else line) rest

/-- The tokens of a document. They end with the end of the file unless there are none. -/
def tokens (document : Document) : List Token :=
  let tokens := numberLines 1 (Statement.tokensOf document.statements)
  if tokens.isEmpty then [] else tokens ++ [.endOfFile]

end Document

end SectionedConfig

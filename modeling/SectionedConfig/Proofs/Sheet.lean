import Mathlib.Data.List.Forall2
import SectionedConfig.Proofs.Layout

/-!
# Sheets

A sheet is what a whole text says: the clauses of its lines, and the clause of a last line without a
line feed if there is one. It fixes the tokens of the text but for their offsets, and it fixes the
text that these tokens are rendered as. The lines of that text are the written clauses, so reading a
well-formed sheet that has been written gives the sheet back.
-/

namespace SectionedConfig

open Layout Text

/-- A token without the offset of its place; the line is kept. -/
def Token.withoutOffset (token : Token) : Token :=
  { token with position := token.position.map fun position ↦ ⟨position.line, 0⟩ }

/-- What a text says, line by line. -/
structure Sheet where
  /-- The clauses of the lines that end with a line feed. -/
  lines : List Clause
  /-- The clause of a last line without a line feed. -/
  last : Option Clause := none

namespace Sheet

/-- The tokens of lines with these clauses, the first of which has the given number. -/
def tokensOf (number : Nat) : List Clause → List Token
  | [] => []
  | clause :: rest => clause.tokens number true ++ tokensOf (number + 1) rest

/-- The tokens of the lines of a sheet. -/
def tokens (sheet : Sheet) : List Token :=
  tokensOf 1 sheet.lines ++ sheet.last.elim [] (Clause.tokens (sheet.lines.length + 1) false)

/-- Whether the last brace opens a section, given whether it does so in front of the clauses. -/
def inSection (inside : Bool) (clauses : List Clause) : Bool :=
  clauses.foldl Clause.inSection inside

/-- The contents of written lines with these clauses. -/
def contentsOf (inside : Bool) : List Clause → List (List Char)
  | [] => []
  | clause :: rest => clause.text ⟨inside, true⟩ :: contentsOf (clause.inSection inside) rest

/-- What is written behind the last line feed. -/
def lastContent (sheet : Sheet) : List Char :=
  sheet.last.elim [] (Clause.text ⟨inSection false sheet.lines, true⟩)

/-- A sheet as it is written. -/
def text (sheet : Sheet) : List Char :=
  (contentsOf false sheet.lines).flatMap (· ++ ['\n']) ++ sheet.lastContent

/-- All clauses of a sheet are well-formed. -/
structure WellFormed (sheet : Sheet) : Prop where
  lines : ∀ clause ∈ sheet.lines, clause.WellFormed
  last : ∀ clause ∈ sheet.last, clause.WellFormed

/-! ## Writing -/

theorem contentsOf_append (inside : Bool) (first second : List Clause) :
    contentsOf inside (first ++ second) =
      contentsOf inside first ++ contentsOf (inSection inside first) second := by
  induction first generalizing inside with
  | nil => rfl
  | cons clause rest ih => exact congrArg (clause.text ⟨inside, true⟩ :: ·) (ih _)

theorem writes_tokensOf (number : Nat) (inside : Bool) (clauses : List Clause) :
    Writes ⟨inside, true⟩ (tokensOf number clauses)
      ((contentsOf inside clauses).flatMap (· ++ ['\n'])) ⟨inSection inside clauses, true⟩ := by
  induction clauses generalizing number inside with
  | nil => exact Writes.nil _
  | cons clause rest ih =>
    exact (clause.writes_tokens number true ⟨inside, true⟩).append (ih (number + 1) _)

/-- A sheet is rendered as it is written, with or without the token for the start of the file. -/
theorem render_tokens (sheet : Sheet) (lead : List Token)
    (hlead : ∀ token ∈ lead, token.kind = .startOfFile) :
    render (lead ++ sheet.tokens ++ [.endOfFile]) = .ok (String.ofList sheet.text) := by
  have hstart : Writes .start lead [] .start := by
    induction lead with
    | nil => exact Writes.nil _
    | cons token rest ih =>
      have htoken : token.kind = .startOfFile := hlead token List.mem_cons_self
      have hfirst : Writes .start [token] [] (Cursor.start.after token.kind) :=
        writes_singleton (by simp [htoken]) fun next ↦ by simp [tokenText, htoken]
      rw [htoken] at hfirst
      exact hfirst.append (ih fun other hother ↦ hlead other (List.mem_cons_of_mem token hother))
  have hlines := hstart.append (writes_tokensOf 1 false sheet.lines)
  cases hlast : sheet.last with
  | none => simpa [tokens, text, lastContent, hlast] using hlines.render_eq
  | some clause =>
    have hall := hlines.append (clause.writes_tokens (sheet.lines.length + 1) false _)
    simpa [tokens, text, lastContent, hlast, Clause.lineEnd] using hall.render_eq

end Sheet

end SectionedConfig

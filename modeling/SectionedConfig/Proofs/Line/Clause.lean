import SectionedConfig.Line.Lexeme
import SectionedConfig.Proofs.Line.Quotes
import SectionedConfig.Proofs.Line.Segments
import SectionedConfig.Proofs.Text.Trim

/-!
# Clauses

A clause is what a line says once its layout is forgotten: the braces on it with the names in front
of them, and at its end nothing, an assignment or a remark. Every accepted line has a clause, and
its lexemes are those of the clause but for their distances from the start of the line. A clause
that is read off a line is well-formed: its texts are trimmed, and none contains a character that
would have ended it.
-/

namespace SectionedConfig

open Text

/-- A lexeme without its distance from the start of the line. -/
def Lexeme.unplaced (lexeme : Lexeme) : Lexeme :=
  { lexeme with start := 0 }

/-- The lexemes of a line that is accepted, without their distances from its start. -/
def Scan.settled (scan : Scan) : Option (List Lexeme) :=
  match scan.fault with
  | none => some (scan.lexemes.map Lexeme.unplaced)
  | some _ => none

/-- A value as it can stand after an equals sign. -/
inductive ValueForm where
  /-- A text without quotation marks. -/
  | bare (text : List Char)
  /-- The text between two quotation marks. -/
  | quoted (text : List Char)
  /-- A text in brackets, brackets included. -/
  | list (text : List Char)
deriving DecidableEq

namespace ValueForm

/-- The form of a value with the white space around it. -/
def of? (text : List Char) : Option ValueForm :=
  if (trim text).head? = some '[' then
    if (trim text).getLast? = some ']' then some (list (trim text)) else none
  else match cutFirst '"' text with
    | none => some (bare (trim text))
    | some (before, inside) =>
      match cutLast '"' inside with
      | none => none
      | some (string, after) =>
        if (trim before).isEmpty && (trim after).isEmpty then some (quoted string) else none

/-- The kind of token that holds a value of this form. -/
def kind : ValueForm → TokenKind
  | bare _ => .int64
  | quoted _ | list _ => .string

/-- The text of the token that holds a value of this form. -/
def text : ValueForm → List Char
  | bare text | quoted text | list text => text

/-- Whether a value of this form is a string without quotation marks. -/
def unquoted : ValueForm → Bool
  | list _ => true
  | _ => false

/-- The lexeme of a value. -/
def lexeme (form : ValueForm) : Lexeme :=
  ⟨form.kind, form.text, 0, form.unquoted⟩

/-- A value as it is written. -/
def written : ValueForm → List Char
  | bare text | list text => text
  | quoted text => '"' :: text ++ ['"']

/-- What the text of a form has to be like for the form to be recognised. -/
def Recognisable : ValueForm → Prop
  | bare text => Tight isBlank text ∧ text.head? ≠ some '[' ∧ '"' ∉ text
  | quoted _ => True
  | list text => Tight isBlank text ∧ text.head? = some '[' ∧ text.getLast? = some ']'

/-- A value that can stand on a line: it is recognised, holds no line feed, and starts no
comment. -/
structure WellFormed (form : ValueForm) : Prop where
  recognisable : form.Recognisable
  uncommented : Uncommented false form.written
  unbroken : '\n' ∉ form.written

end ValueForm

/-- A text that can be a name in front of a brace, or a key. -/
structure IsNameText (text : List Char) : Prop where
  nonempty : text ≠ []
  tight : Tight isBlank text
  plain : Segments.Plain text
  unbroken : '\n' ∉ text

/-- A text that can be a remark behind a number sign. -/
structure IsRemarkText (text : List Char) : Prop where
  tight : Tight isBlank text
  unbroken : '\n' ∉ text

/-- What a line says. -/
inductive Clause where
  /-- Nothing up to the end of the line. -/
  | blank
  /-- A name, an opening brace, and what follows them. -/
  | opening (name : List Char) (rest : Clause)
  /-- A closing brace and what follows it. -/
  | closing (rest : Clause)
  /-- A key, a value, and the remark after them if there is one. -/
  | assignment (key : List Char) (value : ValueForm) (remark : Option (List Char))
  /-- A comment. -/
  | comment (text : List Char)
deriving DecidableEq

namespace Clause

/-- The lexemes of a remark. -/
def remarkLexemes (text : List Char) : List Lexeme :=
  [⟨.comment, ['#'], 0, false⟩, ⟨.commentText, text, 0, false⟩]

/-- The lexemes of a clause, but for the end of the line. -/
def lexemes : Clause → List Lexeme
  | blank => []
  | opening name rest =>
    ⟨.sectionName, name, 0, false⟩ :: ⟨.sectionStart, ['{'], 0, false⟩ :: rest.lexemes
  | closing rest => ⟨.sectionEnd, ['}'], 0, false⟩ :: rest.lexemes
  | assignment key value remark =>
    ⟨.identifier, key, 0, false⟩ :: ⟨.assignment, ['='], 0, false⟩ :: value.lexeme ::
      remark.elim [] remarkLexemes
  | comment text => remarkLexemes text

/-- The lexemes of a line with this clause. -/
def lineLexemes (terminated : Bool) (clause : Clause) : List Lexeme :=
  clause.lexemes ++ [endLexeme terminated 0]

/-- The texts of a clause are as a line can hold them. A remark can follow a value only if the
value leaves no quotation mark open. -/
def WellFormed : Clause → Prop
  | blank => True
  | opening name rest => IsNameText name ∧ rest.WellFormed
  | closing rest => rest.WellFormed
  | assignment key value remark =>
    IsNameText key ∧ value.WellFormed ∧
      ∀ text, remark = some text → IsRemarkText text ∧ quotesAfter false value.written = false
  | comment text => IsRemarkText text

end Clause

/-- The clause of a line that is cut into segments, if the line is accepted. -/
def Segments.clause? : Segments → Option Clause
  | plain text => if (trim text).isEmpty then some .blank else none
  | opening name rest =>
    if (trim name).isEmpty then none else rest.clause?.map (.opening (trim name))
  | closing lead rest => if (trim lead).isEmpty then rest.clause?.map .closing else none
  | assignment key text =>
    let (value, remark) := cutComment false text
    if (trim key).isEmpty then none
    else (ValueForm.of? value).map fun form ↦ .assignment (trim key) form (remark.map trim)
  | comment lead text => if (trim lead).isEmpty then some (.comment (trim text)) else none

/-- The clause of the content of a line, if the line is accepted. -/
def Clause.of? (content : List Char) : Option Clause :=
  (Segments.cut content).clause?

/-! ## Scanning finds the clause -/

@[simp]
theorem Lexeme.unplaced_mk (kind : TokenKind) (text : List Char) (start : Nat) (unquoted : Bool) :
    (Lexeme.mk kind text start unquoted).unplaced = ⟨kind, text, 0, unquoted⟩ := rfl

@[simp]
theorem Scan.settled_prepend (lexemes : List Lexeme) (scan : Scan) :
    (scan.prepend lexemes).settled =
      scan.settled.map (lexemes.map Lexeme.unplaced ++ ·) := by
  obtain ⟨found, fault⟩ := scan
  cases fault with
  | none => simp [Scan.settled, Scan.prepend]
  | some fault => rfl

@[simp]
theorem Scan.settled_afterBlank (lead : List Char) (start : Nat) (boundary : Boundary)
    (scan : Scan) :
    (Scan.afterBlank lead start boundary scan).settled =
      if (trim lead).isEmpty then scan.settled else none := by
  unfold Scan.afterBlank
  split <;> rfl

/-- Scanning a value finds its form, or a fault if it has none. -/
theorem toOption_scanValue (text : List Char) (start : Nat) :
    (scanValue text start).toOption.map Lexeme.unplaced =
      (ValueForm.of? text).map ValueForm.lexeme := by
  unfold scanValue ValueForm.of?
  by_cases hopen : (trim text).head? = some '['
  · by_cases hclose : (trim text).getLast? = some ']'
    · simp [hopen, hclose, Except.toOption, ValueForm.lexeme, ValueForm.kind, ValueForm.text,
        ValueForm.unquoted]
    · simp [hopen, hclose, Except.toOption]
  · simp only [if_neg hopen]
    rcases cutFirst '"' text with _ | ⟨before, inside⟩
    · rfl
    · rcases hlast : cutLast '"' inside with _ | ⟨string, after⟩
      · simp [hlast, Except.toOption]
      · simp only [hlast]
        split <;> rfl

theorem settled_scanAssigned (text : List Char) (start : Nat) (terminated : Bool) :
    (scanAssigned text start terminated).settled =
      (ValueForm.of? (cutComment false text).1).map fun form ↦
        form.lexeme :: ((cutComment false text).2.map trim).elim [] Clause.remarkLexemes ++
          [endLexeme terminated 0] := by
  rcases hcut : cutComment false text with ⟨value, remark⟩
  have hvalue := toOption_scanValue value start
  unfold scanAssigned
  simp only [hcut]
  cases hscan : scanValue value start with
  | error fault =>
    rw [hscan] at hvalue
    rw [show ValueForm.of? value = none by simpa [Except.toOption] using hvalue.symm]
    rfl
  | ok lexeme =>
    rw [hscan] at hvalue
    obtain ⟨form, hform, heq⟩ := Option.map_eq_some_iff.mp hvalue.symm
    rw [hform, Option.map_some, heq]
    cases remark with
    | none => rfl
    | some remark => rfl

/-- A line is accepted if it has a clause, and then it has the lexemes of that clause. -/
theorem Segments.settled_scan (terminated : Bool) (start : Nat) (segments : Segments) :
    (segments.scan terminated start).settled =
      segments.clause?.map (Clause.lineLexemes terminated) := by
  induction segments generalizing start with
  | plain text =>
    simp only [scan, clause?, Scan.settled_afterBlank]
    split <;> rfl
  | opening name rest ih =>
    simp only [scan, clause?]
    split
    · rfl
    · simp only [Scan.settled_prepend, ih, Option.map_map]
      rfl
  | closing lead rest ih =>
    simp only [scan, clause?, Scan.settled_afterBlank, Scan.settled_prepend, ih]
    split
    · rw [Option.map_map, Option.map_map]
      rfl
    · rfl
  | assignment key text =>
    simp only [scan, clause?]
    split
    · rfl
    · simp only [Scan.settled_prepend, settled_scanAssigned, Option.map_map]
      rfl
  | comment lead text =>
    simp only [scan, clause?, Scan.settled_afterBlank]
    split <;> rfl

end SectionedConfig

import SectionedConfig.Assignment
import SectionedConfig.Proofs.Decimal.Numeral
import SectionedConfig.Proofs.Results
import SectionedConfig.Proofs.Sheet.Reading

/-!
# The assignments of a sheet

Walking over tokens never looks at offsets, and over the tokens of a line with a clause it finds the
assignment of the clause and passes on the section that the last brace leaves open. The walk over a
whole sheet is free of faults: every equals sign that a line was read with has a key before it and a
value after it.
-/

namespace SectionedConfig

open Text

namespace Assignment

/-! ## Offsets do not matter -/

/-- An assignment without the offsets of its tokens. -/
def withoutOffset (assignment : Assignment) : Assignment :=
  ⟨assignment.enclosing, assignment.key.withoutOffset, assignment.value.withoutOffset⟩

/-- A walk without the offsets of the tokens that it found. -/
def Walk.withoutOffset (walk : Walk) : Walk :=
  ⟨walk.found.map Assignment.withoutOffset, walk.fault⟩

theorem line_withoutOffset (token : Token) : token.withoutOffset.line = token.line := by
  obtain ⟨kind, value, position, error, unquoted⟩ := token
  cases position <;> rfl

theorem around_withoutOffset (enclosing : Option String) (previous : Option Token) (sign : Token)
    (next : Option Token) :
    around enclosing (previous.map Token.withoutOffset) sign.withoutOffset
        (next.map Token.withoutOffset) =
      (around enclosing previous sign next).map withoutOffset := by
  have hkind (token : Token) : token.withoutOffset.kind = token.kind := rfl
  have hvalue (token : Token) : token.withoutOffset.value = token.value := rfl
  cases previous with
  | none => simp only [around, Option.map_none, line_withoutOffset, Except.map]
  | some key =>
    simp only [around, Option.map_some, hkind, hvalue, line_withoutOffset]
    split
    next =>
      cases next with
      | none => rfl
      | some value =>
        simp only [Option.map_some, hkind]
        split <;> rfl
    next => rfl

theorem walkFrom_map_withoutOffset (enclosing : Option String) (previous : Option Token)
    (tokens : List Token) :
    walkFrom enclosing (previous.map Token.withoutOffset) (tokens.map Token.withoutOffset) =
      (walkFrom enclosing previous tokens).withoutOffset := by
  induction tokens generalizing enclosing previous with
  | nil => rfl
  | cons token rest ih =>
    have hkind : token.withoutOffset.kind = token.kind := rfl
    have hnext (enclosing : Option String) := ih enclosing (some token)
    rw [Option.map_some] at hnext
    rw [List.map_cons, walkFrom, walkFrom, hkind]
    cases token.kind with
    | assignment =>
      simp only [List.head?_map, around_withoutOffset, hnext]
      cases around enclosing previous token rest.head? <;> rfl
    | failure => simp [Walk.withoutOffset]
    | endOfFile => rfl
    | comment | commentText | endOfStatement | sectionName | sectionStart | sectionEnd | string
    | identifier | int64 | startOfFile | unclassified => exact hnext _

theorem walk_map_withoutOffset (tokens : List Token) :
    walk (tokens.map Token.withoutOffset) = (walk tokens).withoutOffset :=
  walkFrom_map_withoutOffset none none tokens

/-- Handling what a walk found succeeds if the walk has no fault and every assignment can be
handled. -/
theorem Walk.traverse_eq_ok_iff {α : Type} {walk : Walk} {handle : Assignment → Except Error α}
    {results : List α} :
    walk.traverse handle = .ok results ↔
      walk.fault = none ∧ walk.found.mapM handle = .ok results := by
  unfold traverse
  cases walk.found.mapM handle with
  | error error => simp
  | ok found => cases walk.fault <;> simp

/-- After a walk without a fault, nothing matters but the assignments. -/
theorem Walk.traverse_of_faultless {α : Type} (found : List Assignment)
    (handle : Assignment → Except Error α) :
    (Walk.mk found none).traverse handle = found.mapM handle := by
  unfold traverse
  cases found.mapM handle <;> rfl

/-- The first assignment is handled first. -/
theorem Walk.traverse_cons {α : Type} (assignment : Assignment) (walk : Walk)
    (handle : Assignment → Except Error α) :
    (walk.cons assignment).traverse handle =
      (handle assignment).bind fun first ↦
        (walk.traverse handle).map fun others ↦ first :: others := by
  unfold traverse cons
  rw [List.mapM_cons]
  cases handle assignment with
  | error error => rfl
  | ok first =>
    cases walk.found.mapM handle with
    | error error => rfl
    | ok others => cases walk.fault <;> rfl

/-- After a walk without a fault, what can fail is the handling of an assignment. -/
theorem Walk.exists_of_traverse_eq_error {α : Type} {walk : Walk}
    {handle : Assignment → Except Error α} {error : Error} (hfault : walk.fault = none)
    (h : walk.traverse handle = .error error) :
    ∃ assignment ∈ walk.found, handle assignment = .error error := by
  obtain ⟨found, fault⟩ := walk
  obtain rfl : fault = none := hfault
  rw [traverse_of_faultless] at h
  exact exists_of_mapM_eq_error h

/-- A bare value without the white space around it is read as the integer that it denotes. -/
theorem integer_eq_ok_iff {key : String} {value : Token} {number : Int64} :
    integer key value = .ok number ↔
      Decimal.Denotes (trim value.value.toList) number.toInt := by
  rw [← Decimal.readInt64?_eq_some_iff]
  unfold integer
  cases Decimal.readInt64? (trim value.value.toList) <;> simp

/-- A bare value is refused if it denotes no integer within the bounds. -/
theorem integer_eq_error_iff {key : String} {value : Token} {error : Error} :
    integer key value = .error error ↔ ¬ Decimal.IsInt64 (trim value.value.toList) ∧
      error = .invalidInteger key value.value value.line := by
  rw [Decimal.not_isInt64_iff]
  unfold integer
  cases Decimal.readInt64? (trim value.value.toList) <;> simp [eq_comm]

/-! ## Walking over the tokens of a line -/

/-- A key, an equals sign and a value in a row are an assignment. -/
theorem walkFrom_assignment {key sign value : Token} (hkey : key.kind = .identifier)
    (hsign : sign.kind = .assignment) (hvalue : value.kind.isValue = true)
    (enclosing : Option String) (previous : Option Token) (rest : List Token) :
    walkFrom enclosing previous (key :: sign :: value :: rest) =
      (walkFrom enclosing (some value) rest).cons ⟨enclosing, key, value⟩ := by
  have haround : around enclosing (some key) sign (some value) = .ok ⟨enclosing, key, value⟩ := by
    rw [around, if_pos hkey, if_pos hvalue]
  have hrest (previous : Option Token) :
      walkFrom enclosing previous (value :: rest) = walkFrom enclosing (some value) rest := by
    rw [walkFrom]
    cases hkind : value.kind <;> first | rfl | simp [hkind, TokenKind.isValue] at hvalue
  simp only [walkFrom, hkey, hsign, List.head?_cons, haround]
  exact congrArg _ (hrest _)

/-- Puts assignments in front of those found later. -/
def Walk.prepend (found : List Assignment) (walk : Walk) : Walk :=
  ⟨found ++ walk.found, walk.fault⟩

end Assignment

open Assignment

namespace Clause

/-- The assignment at the end of a line with this clause, if there is one. -/
def assignments (number : Nat) (enclosing : Option String) : Clause → List Assignment
  | blank | comment _ => []
  | opening name rest => rest.assignments number (some (String.ofList name))
  | closing rest => rest.assignments number none
  | assignment key value _ =>
    [⟨enclosing, Lexeme.onLine number ⟨.identifier, key, 0, false⟩, value.lexeme.onLine number⟩]

/-- The section that is open after a line with this clause. -/
def enclosingAfter (enclosing : Option String) : Clause → Option String
  | opening name rest => rest.enclosingAfter (some (String.ofList name))
  | closing rest => rest.enclosingAfter none
  | _ => enclosing

theorem isValue_kind (form : ValueForm) : form.kind.isValue = true := by
  cases form <;> rfl

/-- A walk finds the assignment of a line and goes on in the section that is open after it. -/
theorem walkFrom_tokens (number : Nat) (terminated : Bool) (clause : Clause)
    (enclosing : Option String) (previous : Option Token) (rest : List Token) :
    walkFrom enclosing previous (clause.tokens number terminated ++ rest) =
      (walkFrom (clause.enclosingAfter enclosing)
        (some (Lexeme.onLine number (endLexeme terminated 0))) rest).prepend
          (clause.assignments number enclosing) := by
  induction clause generalizing enclosing previous with
  | blank => rfl
  | opening name other ih => exact ih (some (String.ofList name)) _
  | closing other ih => exact ih none _
  | assignment key value remark =>
    have hremark (previous : Option Token) :
        walkFrom enclosing previous
            ((remark.elim [] remarkLexemes).map (Lexeme.onLine number) ++
              Lexeme.onLine number (endLexeme terminated 0) :: rest) =
          walkFrom enclosing (some (Lexeme.onLine number (endLexeme terminated 0))) rest := by
      cases remark <;> rfl
    simp only [tokens, lineLexemes, lexemes, List.cons_append, List.map_cons, List.map_append,
      List.append_assoc, List.map_nil, List.nil_append]
    rw [walkFrom_assignment rfl rfl (isValue_kind value), hremark]
    rfl
  | comment text => rfl

end Clause

/-! ## Walking over a sheet -/

namespace Sheet

/-- The assignments of lines with these clauses, the first of which has the given number. -/
def assignmentsOf (number : Nat) (enclosing : Option String) : List Clause → List Assignment
  | [] => []
  | clause :: rest =>
    clause.assignments number enclosing ++
      assignmentsOf (number + 1) (clause.enclosingAfter enclosing) rest

theorem assignmentsOf_append (number : Nat) (enclosing : Option String)
    (first second : List Clause) :
    assignmentsOf number enclosing (first ++ second) =
      assignmentsOf number enclosing first ++
        assignmentsOf (number + first.length) (first.foldl Clause.enclosingAfter enclosing)
          second := by
  induction first generalizing number enclosing with
  | nil => rfl
  | cons clause rest ih =>
    simp [assignmentsOf, ih, Nat.add_assoc, Nat.add_comm 1]

/-- A walk over the tokens of a sheet finds all of its assignments and no fault. -/
theorem walkFrom_tokensOf (number : Nat) (enclosing : Option String) (previous : Option Token)
    (clauses : List Clause) :
    walkFrom enclosing previous (tokensOf number clauses ++ [.endOfFile]) =
      ⟨assignmentsOf number enclosing clauses, none⟩ := by
  induction clauses generalizing number enclosing previous with
  | nil => rfl
  | cons clause rest ih =>
    rw [tokensOf, List.append_assoc, Clause.walkFrom_tokens, ih]
    rfl

end Sheet

end SectionedConfig

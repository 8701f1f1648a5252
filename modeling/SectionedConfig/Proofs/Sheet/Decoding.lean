import SectionedConfig.ConfigMap
import SectionedConfig.Proofs.Assignment
import SectionedConfig.Proofs.Results

/-!
# Decoding a sheet

The tokens of a sheet are decoded as the entries of its assignments. Neither the offsets nor the
lines of the tokens play a part in that, so the entries of some lines are the same wherever the
lines stand.
-/

namespace SectionedConfig

open Assignment

namespace Assignment

theorem entry_withoutOffset (assignment : Assignment) :
    assignment.withoutOffset.entry = assignment.entry := by
  unfold entry integer composedKey
  rw [show assignment.withoutOffset.value.line = assignment.value.line from
    line_withoutOffset assignment.value]
  rfl

/-- Two assignments give the same value to the same key; where they stand does not matter. -/
structure Agrees (first second : Assignment) : Prop where
  enclosing : first.enclosing = second.enclosing
  key : first.key.value = second.key.value
  kind : first.value.kind = second.value.kind
  value : first.value.value = second.value.value

theorem Agrees.entry_eq_ok {first second : Assignment} (h : first.Agrees second)
    {found : String × Value} (hfound : first.entry = .ok found) : second.entry = .ok found := by
  have hkey : first.composedKey = second.composedKey := by
    rw [composedKey, composedKey, h.enclosing, h.key]
  unfold entry integer at hfound ⊢
  rw [hkey, h.kind, h.value] at hfound
  simp only at hfound ⊢
  split
  next hkind =>
    rw [if_pos hkind] at hfound
    cases hread : Decimal.readInt64? (Text.trim second.value.value.toList) with
    | some number =>
      rw [hread] at hfound
      exact hfound
    | none =>
      rw [hread] at hfound
      cases hfound
  next hkind =>
    rw [if_neg hkind] at hfound
    exact hfound

end Assignment

theorem Clause.agrees_assignments (number other : Nat) (enclosing : Option String)
    (clause : Clause) :
    List.Forall₂ Agrees (clause.assignments number enclosing)
      (clause.assignments other enclosing) := by
  induction clause generalizing enclosing with
  | blank | comment text => exact .nil
  | opening name rest ih => exact ih _
  | closing rest ih => exact ih none
  | assignment key value remark => exact .cons ⟨rfl, rfl, rfl, rfl⟩ .nil

namespace Sheet

theorem agrees_assignmentsOf (number other : Nat) (enclosing : Option String)
    (clauses : List Clause) :
    List.Forall₂ Agrees (assignmentsOf number enclosing clauses)
      (assignmentsOf other enclosing clauses) := by
  induction clauses generalizing number other enclosing with
  | nil => exact .nil
  | cons clause rest ih =>
    exact List.rel_append (clause.agrees_assignments number other enclosing) (ih _ _ _)

/-- The entries of some lines do not depend on the number of the first of them. -/
theorem mapM_entry_assignmentsOf {number : Nat} {enclosing : Option String}
    {clauses : List Clause} {entries : List (String × Value)}
    (h : (assignmentsOf number enclosing clauses).mapM entry = .ok entries) (other : Nat) :
    (assignmentsOf other enclosing clauses).mapM entry = .ok entries := by
  rw [mapM_eq_ok_iff] at h ⊢
  have hagrees := agrees_assignmentsOf number other enclosing clauses
  generalize assignmentsOf other enclosing clauses = later at hagrees ⊢
  generalize assignmentsOf number enclosing clauses = sooner at hagrees h
  induction hagrees generalizing entries with
  | nil => exact h
  | cons hfirst _ ih =>
    cases h with
    | cons hentry hrest => exact .cons (hfirst.entry_eq_ok hentry) (ih hrest)

/-- The clauses of all lines of a sheet. -/
def clauses (sheet : Sheet) : List Clause :=
  sheet.lines ++ sheet.last.toList

theorem walkFrom_tokensOf_append (number : Nat) (enclosing : Option String)
    (previous : Option Token) (clauses : List Clause) (rest : List Token) :
    ∃ last, walkFrom enclosing previous (tokensOf number clauses ++ rest) =
      (walkFrom (clauses.foldl Clause.enclosingAfter enclosing) last rest).prepend
        (assignmentsOf number enclosing clauses) := by
  induction clauses generalizing number enclosing previous with
  | nil => exact ⟨previous, rfl⟩
  | cons clause others ih =>
    obtain ⟨last, hlast⟩ := ih (number + 1) (clause.enclosingAfter enclosing)
      (some (Lexeme.onLine number (endLexeme true 0)))
    refine ⟨last, ?_⟩
    rw [tokensOf, List.append_assoc, Clause.walkFrom_tokens, hlast]
    simp [Walk.prepend, assignmentsOf]

/-- A walk over the tokens of a sheet finds all of its assignments and no fault. -/
theorem walkFrom_tokens (sheet : Sheet) (previous : Option Token) :
    walkFrom none previous (sheet.tokens ++ [.endOfFile]) =
      ⟨assignmentsOf 1 none sheet.clauses, none⟩ := by
  obtain ⟨last, hlast⟩ := walkFrom_tokensOf_append 1 none previous sheet.lines
    (sheet.last.elim [] (Clause.tokens (sheet.lines.length + 1) false) ++ [.endOfFile])
  rw [tokens, List.append_assoc, hlast, clauses, assignmentsOf_append]
  cases sheet.last with
  | none => rfl
  | some clause =>
    rw [Option.elim_some, Clause.walkFrom_tokens, Nat.add_comm 1]
    simp [Walk.prepend, assignmentsOf, walkFrom, Token.endOfFile]

end Sheet

/-- The tokens of a sheet are decoded as the entries of its assignments. -/
theorem ConfigMap.ofTokens_of_sheet {sheet : Sheet} {tokens : List Token}
    (h : tokens.map Token.withoutOffset = Batch.startOfFile :: sheet.tokens ++ [.endOfFile]) :
    ofTokens tokens =
      ((Sheet.assignmentsOf 1 none sheet.clauses).mapM entry).map OrderedMap.ofList := by
  have hwalk : (walk tokens).withoutOffset = ⟨Sheet.assignmentsOf 1 none sheet.clauses, none⟩ := by
    rw [← walk_map_withoutOffset, h]
    exact sheet.walkFrom_tokens (some Batch.startOfFile)
  have hfound : (walk tokens).found.map Assignment.withoutOffset =
      Sheet.assignmentsOf 1 none sheet.clauses := congrArg Walk.found hwalk
  have hfault : (walk tokens).fault = none := congrArg Walk.fault hwalk
  have hentries : (walk tokens).found.mapM entry =
      (Sheet.assignmentsOf 1 none sheet.clauses).mapM entry := by
    rw [← hfound, List.mapM_map]
    congr 1
    funext assignment
    exact (entry_withoutOffset assignment).symm
  rw [ofTokens, Walk.traverse, hentries, hfault]
  cases (Sheet.assignmentsOf 1 none sheet.clauses).mapM entry <;> rfl

end SectionedConfig

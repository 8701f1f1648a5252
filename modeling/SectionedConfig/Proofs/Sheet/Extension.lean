import SectionedConfig.Proofs.Sheet.Decoding
import SectionedConfig.Proofs.Sheet.RoundTrip

/-!
# Lines behind a sheet

Lines can be written behind a sheet. If the last line of the sheet lacks its line feed, the first of
them is written on that line. Behind a brace, and on a blank line, it keeps its meaning there, so
the assignments of the lines follow those of the sheet. Behind an assignment or a comment it would
become part of the value or of the remark.
-/

namespace SectionedConfig

open Assignment Layout Text

/-! ## Going on with a line -/

namespace Clause

/-- A line that another clause can follow: it ends behind a brace, or is blank. -/
def Closed : Clause → Prop
  | blank => True
  | opening _ rest | closing rest => rest.Closed
  | assignment _ _ _ | comment _ => False

/-- What a line says if it goes on with another clause. -/
def andThen : Clause → Clause → Clause
  | blank, next => next
  | opening name rest, next => opening name (rest.andThen next)
  | closing rest, next => closing (rest.andThen next)
  | other, _ => other

variable {clause next : Clause}

/-- A clause that is written behind a closed one is read as it is. -/
theorem of?_text_append (hclosed : clause.Closed) (h : clause.WellFormed)
    (hnext : next.WellFormed) (cursor cursor' : Cursor) :
    of? (clause.text cursor ++ next.text cursor') = some (clause.andThen next) := by
  induction clause generalizing cursor with
  | blank => exact of?_text hnext cursor'
  | opening name rest ih =>
    have hname := of?_opening h.1 blank_nil blank_space
      (rest.text ⟨true, false⟩ ++ next.text cursor')
    rw [ih hclosed h.2] at hname
    simpa [text, andThen] using hname
  | closing rest ih =>
    have hbrace := of?_closing blank_nil (rest.text ⟨false, false⟩ ++ next.text cursor')
    rw [ih hclosed h] at hbrace
    simpa [text, andThen] using hbrace
  | assignment key value remark => exact hclosed.elim
  | comment text => exact hclosed.elim

theorem assignments_of_closed (hclosed : clause.Closed) (number : Nat)
    (enclosing : Option String) : clause.assignments number enclosing = [] := by
  induction clause generalizing enclosing with
  | blank => rfl
  | opening name rest ih | closing rest ih => exact ih hclosed _
  | assignment key value remark => exact hclosed.elim
  | comment text => rfl

theorem assignments_andThen (hclosed : clause.Closed) (number : Nat)
    (enclosing : Option String) :
    (clause.andThen next).assignments number enclosing =
      next.assignments number (clause.enclosingAfter enclosing) := by
  induction clause generalizing enclosing with
  | blank => rfl
  | opening name rest ih | closing rest ih => exact ih hclosed _
  | assignment key value remark | comment text => exact hclosed.elim

theorem enclosingAfter_andThen (hclosed : clause.Closed) (enclosing : Option String) :
    (clause.andThen next).enclosingAfter enclosing =
      next.enclosingAfter (clause.enclosingAfter enclosing) := by
  induction clause generalizing enclosing with
  | blank => rfl
  | opening name rest ih | closing rest ih => exact ih hclosed _
  | assignment key value remark | comment text => exact hclosed.elim

end Clause

/-! ## Sheets with lines behind them -/

namespace Sheet

variable {sheet : Sheet} {clauses : List Clause}

/-- The clause behind the last line feed. -/
def final (sheet : Sheet) : Clause :=
  sheet.last.getD .blank

/-- A sheet with lines behind it, the first of which goes on with the line behind the last line
feed. -/
def extend (sheet : Sheet) : List Clause → Sheet
  | [] => sheet.settled
  | first :: rest => ⟨sheet.lines ++ sheet.final.andThen first :: rest, none⟩

/-- The text of a sheet with lines behind it. -/
def extendedText (sheet : Sheet) (clauses : List Clause) : List Char :=
  sheet.text ++ (contentsOf (inSection false sheet.clauses) clauses).flatMap (· ++ ['\n'])

theorem lastContent_eq (sheet : Sheet) :
    sheet.lastContent = sheet.final.text ⟨inSection false sheet.lines, true⟩ := by
  rw [lastContent, final]
  cases sheet.last <;> rfl

theorem wellFormed_final (h : sheet.WellFormed) : sheet.final.WellFormed := by
  rw [final]
  cases hlast : sheet.last with
  | none => exact trivial
  | some clause => exact h.last clause hlast

theorem final_settled (sheet : Sheet) : sheet.settled.final = sheet.final := by
  rw [final, settled, final]
  by_cases hblank : sheet.last = some .blank
  · simp [hblank]
  · simp [hblank]

/-- A line that is not there has the same assignments as a blank one. -/
theorem assignmentsOf_clauses (sheet : Sheet) (number : Nat) (enclosing : Option String) :
    assignmentsOf number enclosing sheet.clauses =
      assignmentsOf number enclosing (sheet.lines ++ [sheet.final]) := by
  rw [clauses, assignmentsOf_append, assignmentsOf_append, final]
  cases sheet.last <;> rfl

theorem foldl_enclosingAfter_clauses (sheet : Sheet) (enclosing : Option String) :
    sheet.clauses.foldl Clause.enclosingAfter enclosing =
      sheet.final.enclosingAfter (sheet.lines.foldl Clause.enclosingAfter enclosing) := by
  rw [clauses, List.foldl_append, final]
  cases sheet.last <;> rfl

/-- A sheet that lines have been put behind is found again. -/
theorem checked_extendedText (h : sheet.WellFormed)
    (hclauses : ∀ clause ∈ clauses, clause.WellFormed)
    (hclosed : clauses ≠ [] → sheet.final.Closed) :
    ∃ tokens,
      (TokenStream.ofText (String.ofList (sheet.extendedText clauses))).checked = .ok tokens ∧
        tokens.map Token.withoutOffset =
          Batch.startOfFile :: (sheet.extend clauses).tokens ++ [.endOfFile] := by
  cases clauses with
  | nil =>
    rw [extendedText, contentsOf, List.flatMap_nil, List.append_nil]
    exact checked_text h
  | cons first rest =>
    obtain ⟨hfirst, hrest⟩ := List.forall_mem_cons.mp hclauses
    have hfinal := wellFormed_final h
    generalize hcursor : (⟨inSection false sheet.clauses, true⟩ : Cursor) = cursor
    generalize hinside : first.inSection (inSection false sheet.clauses) = inside
    have hisOf : (sheet.extend (first :: rest)).IsOf (contentsOf false sheet.lines ++
        (sheet.lastContent ++ first.text cursor) :: contentsOf inside rest) [] := by
      refine ⟨List.rel_append (forall₂_contentsOf h.lines false)
        (.cons ?_ (forall₂_contentsOf hrest inside)), .blank, rfl, rfl⟩
      rw [lastContent_eq]
      exact Clause.of?_text_append (hclosed (List.cons_ne_nil first rest)) hfinal hfirst _ cursor
    refine TokenStream.checked_of_isOf hisOf ?_ ?_ List.not_mem_nil
    · rw [String.toList_ofList, extendedText, text, contentsOf, hcursor, hinside]
      simp
    · refine List.forall_mem_append.mpr ⟨notMem_contentsOf h.lines false,
        List.forall_mem_cons.mpr ⟨?_, notMem_contentsOf hrest inside⟩⟩
      rw [lastContent_eq, List.mem_append, not_or]
      exact ⟨Clause.notMem_text hfinal _, Clause.notMem_text hfirst cursor⟩

/-- The entries of the lines come behind those of the sheet. -/
theorem mapM_entry_extend {entries others : List (String × Value)}
    (hclosed : clauses ≠ [] → sheet.final.Closed)
    (hopen : sheet.clauses.foldl Clause.enclosingAfter none = none)
    (h : (assignmentsOf 1 none sheet.clauses).mapM entry = .ok entries)
    (hothers : (assignmentsOf 1 none clauses).mapM entry = .ok others) :
    (assignmentsOf 1 none (sheet.extend clauses).clauses).mapM entry = .ok (entries ++ others) := by
  cases clauses with
  | nil =>
    obtain rfl : others = [] := (Except.ok.inj hothers).symm
    rw [assignmentsOf_clauses] at h ⊢
    rw [extend, final_settled, List.append_nil]
    exact h
  | cons first rest =>
    have hfinal : sheet.final.Closed := hclosed (List.cons_ne_nil first rest)
    rw [foldl_enclosingAfter_clauses] at hopen
    have hsheet : assignmentsOf 1 none sheet.clauses = assignmentsOf 1 none sheet.lines := by
      rw [assignmentsOf_clauses, assignmentsOf_append, assignmentsOf,
        Clause.assignments_of_closed hfinal]
      exact List.append_nil _
    have hlater : assignmentsOf 1 none (sheet.extend (first :: rest)).clauses =
        assignmentsOf 1 none sheet.lines ++
          assignmentsOf (1 + sheet.lines.length) none (first :: rest) := by
      rw [extend, clauses, Option.toList_none, List.append_nil, assignmentsOf_append, assignmentsOf,
        Clause.assignments_andThen hfinal, Clause.enclosingAfter_andThen hfinal, hopen]
      rfl
    rw [hsheet] at h
    have hrest := mapM_entry_assignmentsOf hothers (1 + sheet.lines.length)
    rw [hlater]
    rw [mapM_eq_ok_iff] at h hrest ⊢
    exact List.rel_append h hrest

/-- The tokens of a sheet are written as its text. -/
theorem writes_tokens (sheet : Sheet) :
    Writes .start sheet.tokens sheet.text ⟨inSection false sheet.clauses, true⟩ := by
  have hlines : Writes .start _ _ _ := writes_tokensOf 1 false sheet.lines
  cases hlast : sheet.last with
  | none => simpa [tokens, text, lastContent, clauses, hlast] using hlines
  | some clause =>
    have hall := hlines.append (clause.writes_tokens (sheet.lines.length + 1) false _)
    simpa [tokens, text, lastContent, clauses, inSection, hlast, Clause.lineEnd] using hall

end Sheet

end SectionedConfig

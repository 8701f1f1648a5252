import SectionedConfig.Layout
import SectionedConfig.Proofs.Line.Reading

/-!
# How a clause is written

The layout of a clause depends on nothing but the cursor in front of it. The text that a well-formed
clause is written as has that clause again: the white space that the layout puts in is stripped off,
and no two texts run together. So writing a clause and reading the line gives the clause back.
-/

namespace SectionedConfig

open Text Layout

namespace Clause

/-- A remark with its mark. -/
def remarkText (text : List Char) : List Char :=
  '#' :: if text.isEmpty then [] else ' ' :: text

/-- A clause as it is written behind a cursor. -/
def text (cursor : Cursor) : Clause → List Char
  | blank => []
  | opening name rest => name ++ ' ' :: '{' :: rest.text ⟨true, false⟩
  | closing rest => '}' :: rest.text ⟨false, false⟩
  | assignment key value remark =>
    cursor.gap ++ key ++ ' ' :: '=' :: ' ' :: value.written ++
      remark.elim [] fun text ↦ ' ' :: remarkText text
  | comment text => cursor.gap ++ remarkText text

/-- Whether the last brace opens a section, given whether it does so in front of the clause. -/
def inSection (inside : Bool) : Clause → Bool
  | opening _ rest => rest.inSection true
  | closing rest => rest.inSection false
  | _ => inside

end Clause

theorem Layout.Cursor.blank_gap (cursor : Cursor) : Blank cursor.gap := by
  obtain ⟨inSection, atLineStart⟩ := cursor
  cases inSection <;> cases atLineStart <;> decide

/-! ## Reading a written clause -/

/-- The space behind a number sign is stripped off again. -/
theorem trim_remarkText_tail {text : List Char} (h : Tight isBlank text) :
    trim (if text.isEmpty then [] else ' ' :: text) = text := by
  split
  next hempty => rw [List.isEmpty_iff.mp hempty]; rfl
  next => simpa using trim_append_append h blank_space blank_nil

/-- A written value with a remark behind it is cut where it was put together. -/
theorem cutComment_written {form : ValueForm} (hform : Uncommented false form.written)
    {remark : Option (List Char)}
    (hremark : ∀ text, remark = some text → quotesAfter false form.written = false) :
    cutComment false (' ' :: form.written ++
        remark.elim [] fun text ↦ ' ' :: Clause.remarkText text) =
      ([' '] ++ form.written ++ (if remark.isSome then [' '] else []),
        remark.map fun text ↦ if text.isEmpty then [] else ' ' :: text) := by
  have hspace : Uncommented false ([' '] ++ form.written) :=
    uncommented_append.mpr ⟨rfl, hform⟩
  cases remark with
  | none => simpa [Uncommented] using hspace
  | some text =>
    have hquotes : quotesAfter false ([' '] ++ form.written ++ [' ']) = false := by
      rw [quotesAfter_append, quotesAfter_append]
      exact congrArg (quotesAfter · [' ']) (hremark text rfl)
    have hvalue : Uncommented false ([' '] ++ form.written ++ [' ']) :=
      uncommented_append.mpr ⟨hspace, uncommented_of_notMem (by decide) _⟩
    have hcut := cutComment_append hvalue (Clause.remarkText text)
    rw [hquotes] at hcut
    simpa [Clause.remarkText, cutComment] using hcut

/-- Writing a well-formed clause and reading the line gives the clause back. -/
theorem Clause.of?_text {clause : Clause} (h : clause.WellFormed) (cursor : Cursor) :
    of? (clause.text cursor) = some clause := by
  induction clause generalizing cursor with
  | blank => rfl
  | opening name rest ih =>
    simpa [text, ih h.2] using
      of?_opening h.1 blank_nil blank_space (rest.text ⟨true, false⟩)
  | closing rest ih =>
    have hrest : rest.WellFormed := h
    simpa [text, ih hrest] using of?_closing blank_nil (rest.text ⟨false, false⟩)
  | assignment key value remark =>
    obtain ⟨hkey, hvalue, hremark⟩ := h
    have hform : ValueForm.of? ([' '] ++ value.written ++ if remark.isSome then [' '] else []) =
        some value :=
      ValueForm.of?_append_append hvalue.recognisable blank_space (by split <;> decide)
    have htrim : (remark.map fun text ↦ if text.isEmpty then [] else ' ' :: text).map trim =
        remark := by
      cases remark with
      | none => rfl
      | some text => exact congrArg some (trim_remarkText_tail (hremark text rfl).1.tight)
    have hline := of?_assignment hkey cursor.blank_gap blank_space
      (' ' :: value.written ++ remark.elim [] fun text ↦ ' ' :: remarkText text)
    rw [cutComment_written hvalue.uncommented fun text htext ↦ (hremark text htext).2, hform,
      htrim] at hline
    simpa [text] using hline
  | comment remark =>
    rw [text, remarkText, of?_comment cursor.blank_gap, trim_remarkText_tail h.tight]

end SectionedConfig

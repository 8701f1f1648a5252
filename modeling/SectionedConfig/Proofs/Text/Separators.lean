import SectionedConfig.Text.Separators

/-!
# Where texts are cut

The first occurrence of a character is the one that no other precedes, and the last one is the one
that no other follows. The pieces between all occurrences are those that splitting a list finds.
-/

namespace SectionedConfig.Text

variable {mark : Char}

theorem cutFirst_append {before : List Char} (h : mark ∉ before) (after : List Char) :
    cutFirst mark (before ++ mark :: after) = some (before, after) := by
  induction before with
  | nil => simp [cutFirst]
  | cons c rest ih =>
    rw [List.mem_cons, not_or] at h
    rw [List.cons_append, cutFirst, if_neg (Ne.symm h.1), ih h.2]
    rfl

theorem cutLast_of_notMem {text : List Char} (h : mark ∉ text) : cutLast mark text = none := by
  induction text with
  | nil => rfl
  | cons c rest ih =>
    rw [List.mem_cons, not_or] at h
    simp [cutLast, ih h.2, Ne.symm h.1]

theorem cutLast_append {after : List Char} (h : mark ∉ after) (before : List Char) :
    cutLast mark (before ++ mark :: after) = some (before, after) := by
  induction before with
  | nil => simp [cutLast, cutLast_of_notMem h]
  | cons c rest ih => rw [List.cons_append, cutLast, ih]

theorem cutLast_eq_some {text before after : List Char}
    (h : cutLast mark text = some (before, after)) :
    text = before ++ mark :: after ∧ mark ∉ after := by
  by_cases hmem : mark ∈ text.reverse
  · -- The last occurrence is the first one of the reversed text.
    obtain ⟨tail, lead, hreverse, htail⟩ := List.eq_append_cons_of_mem hmem
    have htext : text = lead.reverse ++ mark :: tail.reverse := by
      rw [← text.reverse_reverse, hreverse]
      simp
    have hnot : mark ∉ tail.reverse := by simpa using htail
    rw [htext, cutLast_append hnot] at h
    obtain ⟨rfl, rfl⟩ := Prod.ext_iff.mp (Option.some.inj h)
    exact ⟨htext, hnot⟩
  · rw [cutLast_of_notMem (by simpa using hmem)] at h
    cases h

/-- A tail without the character belongs to what stands behind the last one. -/
theorem cutLast_append_of_notMem {tail : List Char} (h : mark ∉ tail) (text : List Char) :
    cutLast mark (text ++ tail) =
      (cutLast mark text).map fun (before, after) ↦ (before, after ++ tail) := by
  induction text with
  | nil => exact cutLast_of_notMem h
  | cons c rest ih =>
    rw [List.cons_append, cutLast, cutLast, ih]
    cases cutLast mark rest with
    | some pieces => rfl
    | none =>
      by_cases hc : c = mark
      · simp [hc]
      · simp [hc]

/-- Cutting at every occurrence of a character is splitting on it. -/
theorem splitAll_eq_splitOn (mark : Char) (text : List Char) :
    splitAll mark text = text.splitOn mark := by
  induction text with
  | nil => rfl
  | cons c rest ih =>
    rw [List.splitOn_cons_eq_if_modifyHead, ← ih, splitAll, pieces]
    by_cases hc : c = mark <;> simp [hc, splitAll]

theorem notMem_splitAll (mark : Char) (text : List Char) :
    ∀ piece ∈ splitAll mark text, mark ∉ piece := by
  induction text with
  | nil => simp [splitAll, pieces]
  | cons c rest ih =>
    obtain ⟨hfirst, hothers⟩ := List.forall_mem_cons.mp ih
    by_cases hc : c = mark
    · simpa [splitAll, pieces, hc] using ⟨hfirst, hothers⟩
    · simpa [splitAll, pieces, hc, Ne.symm hc] using ⟨hfirst, hothers⟩

/-- The pieces are texts without the separator, of which the whole text consists. -/
theorem splitAll_eq_iff {text : List Char} {pieces : List (List Char)} :
    splitAll mark text = pieces ↔
      pieces ≠ [] ∧ [mark].intercalate pieces = text ∧ ∀ piece ∈ pieces, mark ∉ piece := by
  constructor
  · rintro rfl
    refine ⟨List.cons_ne_nil _ _, ?_, notMem_splitAll mark text⟩
    rw [splitAll_eq_splitOn, List.intercalate_splitOn]
  · rintro ⟨hne, rfl, hplain⟩
    rw [splitAll_eq_splitOn, List.splitOn_intercalate mark hplain hne]

/-- All pieces but the first stand behind a separator. -/
theorem intercalate_cons (separator first : List Char) (rest : List (List Char)) :
    separator.intercalate (first :: rest) = first ++ rest.flatMap (separator ++ ·) := by
  induction rest generalizing first with
  | nil => simp
  | cons second others ih => simp [List.intercalate_cons_cons, ih]

end SectionedConfig.Text

import SectionedConfig.Line.Segments

/-!
# Number signs and quotation marks

The text after an equals sign holds a comment if a number sign stands outside quotation marks. What
decides is the parity of the quotation marks before it, so the only thing that one part of a value
passes on to the next is whether a mark is open at its end.
-/

namespace SectionedConfig

/-- Whether a quotation mark is open at the end of a text, given whether one is at its start. -/
def quotesAfter (inQuotes : Bool) : List Char → Bool
  | [] => inQuotes
  | c :: rest => quotesAfter (if c = '"' then !inQuotes else inQuotes) rest

/-- A text in which no number sign stands outside quotation marks. -/
def Uncommented (inQuotes : Bool) (text : List Char) : Prop :=
  cutComment inQuotes text = (text, none)

instance (inQuotes : Bool) (text : List Char) : Decidable (Uncommented inQuotes text) :=
  inferInstanceAs (Decidable (_ = _))

@[simp]
theorem quotesAfter_append (inQuotes : Bool) (first second : List Char) :
    quotesAfter inQuotes (first ++ second) = quotesAfter (quotesAfter inQuotes first) second := by
  induction first generalizing inQuotes with
  | nil => rfl
  | cons c rest ih => exact ih _

theorem quotesAfter_of_notMem {text : List Char} (h : '"' ∉ text) (inQuotes : Bool) :
    quotesAfter inQuotes text = inQuotes := by
  induction text with
  | nil => rfl
  | cons c rest ih =>
    rw [List.mem_cons, not_or] at h
    rw [quotesAfter, if_neg (Ne.symm h.1), ih h.2]

@[simp]
theorem uncommented_nil (inQuotes : Bool) : Uncommented inQuotes [] := rfl

theorem uncommented_cons {inQuotes : Bool} {c : Char} {rest : List Char} :
    Uncommented inQuotes (c :: rest) ↔
      (c = '#' → inQuotes = true) ∧
        Uncommented (if c = '"' then !inQuotes else inQuotes) rest := by
  unfold Uncommented
  rw [cutComment]
  by_cases h : c = '#' ∧ inQuotes = false
  · rw [if_pos h]
    simp [h.1, h.2]
  · rw [if_neg h]
    have hquoted : c = '#' → inQuotes = true := fun hc ↦ by simpa [hc] using h
    simp only [Prod.ext_iff, List.cons.injEq, true_and]
    exact ⟨fun h ↦ ⟨hquoted, h⟩, fun h ↦ h.2⟩

/-- The comment of a text is found behind any beginning that has none. -/
theorem cutComment_append {inQuotes : Bool} {first : List Char} (h : Uncommented inQuotes first)
    (second : List Char) :
    cutComment inQuotes (first ++ second) =
      (first ++ (cutComment (quotesAfter inQuotes first) second).1,
        (cutComment (quotesAfter inQuotes first) second).2) := by
  induction first generalizing inQuotes with
  | nil => rfl
  | cons c rest ih =>
    obtain ⟨hc, hrest⟩ := uncommented_cons.mp h
    have hsign : ¬ (c = '#' ∧ inQuotes = false) := fun ⟨hsign, hout⟩ ↦ by simp [hc hsign] at hout
    rw [List.cons_append, cutComment, if_neg hsign, ih hrest]
    rfl

theorem uncommented_append {inQuotes : Bool} {first second : List Char} :
    Uncommented inQuotes (first ++ second) ↔
      Uncommented inQuotes first ∧ Uncommented (quotesAfter inQuotes first) second := by
  induction first generalizing inQuotes with
  | nil => simp [quotesAfter]
  | cons c rest ih => rw [List.cons_append, uncommented_cons, uncommented_cons, ih, and_assoc]; rfl

theorem uncommented_of_notMem {text : List Char} (h : '#' ∉ text) (inQuotes : Bool) :
    Uncommented inQuotes text := by
  induction text generalizing inQuotes with
  | nil => rfl
  | cons c rest ih =>
    rw [List.mem_cons, not_or] at h
    exact uncommented_cons.mpr ⟨fun hc ↦ absurd hc.symm h.1, ih h.2 _⟩

/-- What stands at the end belongs to the comment if there is one, and else to the value. -/
theorem cutComment_append_tail {tail : List Char} (h : '#' ∉ tail) (inQuotes : Bool)
    (text : List Char) :
    cutComment inQuotes (text ++ tail) =
      match cutComment inQuotes text with
      | (value, none) => (value ++ tail, none)
      | (value, some remark) => (value, some (remark ++ tail)) := by
  induction text generalizing inQuotes with
  | nil => exact uncommented_of_notMem h inQuotes
  | cons c rest ih =>
    rw [List.cons_append, cutComment, cutComment]
    split
    next => rfl
    next =>
      rw [ih]
      rcases cutComment (if c = '"' then !inQuotes else inQuotes) rest with ⟨value, _ | remark⟩ <;>
        rfl

/-- Inside quotation marks no text without one starts a comment. -/
theorem uncommented_true_of_notMem {text : List Char} (h : '"' ∉ text) : Uncommented true text := by
  induction text with
  | nil => rfl
  | cons c rest ih =>
    rw [List.mem_cons, not_or] at h
    refine uncommented_cons.mpr ⟨fun _ ↦ rfl, ?_⟩
    rw [if_neg (Ne.symm h.1)]
    exact ih h.2

/-- Cutting off a comment leaves a value without one. If there is a comment, a number sign comes
after the value and stands outside quotation marks. -/
theorem cutComment_spec {inQuotes : Bool} {text value : List Char} {comment : Option (List Char)}
    (h : cutComment inQuotes text = (value, comment)) :
    Uncommented inQuotes value ∧ text = value ++ comment.elim [] ('#' :: ·) ∧
      (comment.isSome → quotesAfter inQuotes value = false) := by
  induction text generalizing inQuotes value with
  | nil =>
    rw [cutComment, Prod.mk.injEq] at h
    obtain ⟨rfl, rfl⟩ := h
    simp
  | cons c rest ih =>
    rw [cutComment] at h
    split at h
    next hsign =>
      obtain ⟨rfl, rfl⟩ := Prod.ext_iff.mp h
      simp [hsign.1, hsign.2, quotesAfter]
    next hsign =>
      obtain ⟨rfl, rfl⟩ := Prod.ext_iff.mp h
      obtain ⟨hvalue, heq, hquotes⟩ := ih rfl
      refine ⟨uncommented_cons.mpr ⟨fun hc ↦ by simpa [hc] using hsign, hvalue⟩, ?_, hquotes⟩
      rw [List.cons_append, ← heq]

/-! ## Self-contained texts -/

/-- A text that starts no comment and leaves no quotation mark open. -/
structure SelfContained (text : List Char) : Prop where
  uncommented : Uncommented false text
  closed : quotesAfter false text = false

namespace SelfContained

theorem append {first second : List Char} (h : SelfContained first) (h' : SelfContained second) :
    SelfContained (first ++ second) where
  uncommented := uncommented_append.mpr ⟨h.uncommented, h.closed.symm ▸ h'.uncommented⟩
  closed := by rw [quotesAfter_append, h.closed, h'.closed]

theorem of_notMem {text : List Char} (hsign : '#' ∉ text) (hquote : '"' ∉ text) :
    SelfContained text where
  uncommented := uncommented_of_notMem hsign false
  closed := quotesAfter_of_notMem hquote false

/-- A text between quotation marks, whatever else stands in it. -/
theorem quoted {text : List Char} (h : '"' ∉ text) : SelfContained ('"' :: text ++ ['"']) := by
  have hopen : quotesAfter false ('"' :: text) = true := quotesAfter_of_notMem h true
  constructor
  · refine uncommented_append.mpr ⟨uncommented_cons.mpr ⟨by decide, ?_⟩, ?_⟩
    · exact uncommented_true_of_notMem h
    · exact uncommented_of_notMem (by decide) _
  · rw [quotesAfter_append, hopen]
    rfl

/-- Texts with a separator between each two that is self-contained as well. -/
theorem intercalate {separator : List Char} (hseparator : SelfContained separator)
    {pieces : List (List Char)} (h : ∀ piece ∈ pieces, SelfContained piece) :
    SelfContained (separator.intercalate pieces) := by
  induction pieces with
  | nil => exact of_notMem (by simp) (by simp)
  | cons first rest ih =>
    obtain ⟨hfirst, hrest⟩ := List.forall_mem_cons.mp h
    cases rest with
    | nil => rwa [List.intercalate_singleton]
    | cons second rest =>
      rw [List.intercalate_cons_cons]
      exact (hfirst.append hseparator).append (ih hrest)

end SelfContained

end SectionedConfig

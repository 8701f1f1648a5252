/-!
# Cutting at a separator

A text is cut at the first or the last occurrence of a character, or at all of them. The separator
itself belongs to no piece.
-/

namespace SectionedConfig.Text

/-- What stands before and after the first occurrence of a character, if there is one. -/
def cutFirst (mark : Char) : List Char → Option (List Char × List Char)
  | [] => none
  | c :: rest =>
    if c = mark then some ([], rest)
    else (cutFirst mark rest).map fun (before, after) ↦ (c :: before, after)

/-- What stands before and after the last occurrence of a character, if there is one. -/
def cutLast (mark : Char) : List Char → Option (List Char × List Char)
  | [] => none
  | c :: rest =>
    match cutLast mark rest with
    | some (before, after) => some (c :: before, after)
    | none => if c = mark then some ([], rest) else none

/-- The first piece of a text that is cut at every occurrence of a character, and the others. -/
def pieces (mark : Char) : List Char → List Char × List (List Char)
  | [] => ([], [])
  | c :: rest =>
    let (first, others) := pieces mark rest
    if c = mark then ([], first :: others) else (c :: first, others)

/-- The pieces between the occurrences of a character: one more than there are occurrences. -/
def splitAll (mark : Char) (text : List Char) : List (List Char) :=
  (pieces mark text).1 :: (pieces mark text).2

theorem cutFirst_eq_some {mark : Char} {text before after : List Char}
    (h : cutFirst mark text = some (before, after)) :
    text = before ++ mark :: after ∧ mark ∉ before := by
  induction text generalizing before with
  | nil => simp [cutFirst] at h
  | cons c rest ih =>
    unfold cutFirst at h
    split at h
    next hc =>
      simp only [Option.some.injEq, Prod.mk.injEq] at h
      obtain ⟨rfl, rfl⟩ := h
      simp [hc]
    next hc =>
      obtain ⟨⟨first, second⟩, hcut, heq⟩ := Option.map_eq_some_iff.mp h
      simp only [Prod.mk.injEq] at heq
      obtain ⟨rfl, rfl⟩ := heq
      obtain ⟨rfl, hnot⟩ := ih hcut
      exact ⟨rfl, by simpa [hnot] using Ne.symm hc⟩

theorem cutFirst_eq_none {mark : Char} {text : List Char} :
    cutFirst mark text = none ↔ mark ∉ text := by
  induction text with
  | nil => simp [cutFirst]
  | cons c rest ih =>
    unfold cutFirst
    split
    next hc => simp [hc]
    next hc => simp [ih, Ne.symm hc]

end SectionedConfig.Text

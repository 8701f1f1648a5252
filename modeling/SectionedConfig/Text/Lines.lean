/-!
# Lines

A line feed ends a line. Texts and byte sequences are cut alike, so the cut is defined for any kind
of unit. The lines keep everything but the line feeds, which `terminated` accounts for: putting the
lines together again gives the input back.
-/

namespace SectionedConfig.Text

/-- What stands before a line feed, or after the last one. -/
structure Line (α : Type) where
  /-- The units of the line, without the line feed. -/
  content : List α
  /-- Whether a line feed ends the line; only the last line of an input can lack it. -/
  terminated : Bool
deriving DecidableEq

namespace Line

variable {α : Type} [DecidableEq α]

/-- Cuts a sequence after each line feed. Nothing follows the last line feed unless units do. -/
def cut (feed : α) : List α → List (Line α)
  | [] => []
  | unit :: rest =>
    if unit = feed then ⟨[], true⟩ :: cut feed rest
    else match cut feed rest with
      | [] => [⟨[unit], false⟩]
      | first :: others => ⟨unit :: first.content, first.terminated⟩ :: others

/-- The units of a line as they stood in the input. -/
def units (feed : α) (line : Line α) : List α :=
  if line.terminated then line.content ++ [feed] else line.content

/-- Cutting loses nothing. -/
theorem flatMap_units_cut (feed : α) (input : List α) :
    (cut feed input).flatMap (units feed) = input := by
  induction input with
  | nil => rfl
  | cons unit rest ih =>
    unfold cut
    split
    next h => simp [units, ih, h]
    next h =>
      split
      next hcut =>
        rw [hcut] at ih
        simpa [units] using ih
      next first others hcut =>
        rw [hcut] at ih
        simp only [List.flatMap_cons, units] at ih ⊢
        split at ih <;> simp_all

/-- No line contains a line feed. -/
theorem notMem_content_of_mem_cut {feed : α} {input : List α} {line : Line α}
    (h : line ∈ cut feed input) : feed ∉ line.content := by
  induction input generalizing line with
  | nil => simp [cut] at h
  | cons unit rest ih =>
    unfold cut at h
    split at h
    next hunit =>
      rcases List.mem_cons.mp h with rfl | h
      · simp
      · exact ih h
    next hunit =>
      split at h
      next =>
        obtain rfl := List.mem_singleton.mp h
        simpa using Ne.symm hunit
      next first others hcut =>
        rcases List.mem_cons.mp h with rfl | h
        · have : feed ∉ first.content := ih (by simp [hcut])
          simpa [this] using Ne.symm hunit
        · exact ih (by simp [hcut, h])

end Line

end SectionedConfig.Text

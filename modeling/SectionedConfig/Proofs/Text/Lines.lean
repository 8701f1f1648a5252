import Mathlib.Data.List.Basic
import SectionedConfig.Text.Lines

/-!
# Where lines are cut

An input is a row of contents without line feeds, each with a line feed after it, and a last content
that may be empty. Cutting finds exactly these contents, so two inputs with the same lines are the
same, and an input that is put together line by line is cut where it was put together.
-/

namespace SectionedConfig.Text

namespace Line

variable {α : Type} [DecidableEq α] {feed : α}

theorem cut_append_feed {content : List α} (h : feed ∉ content) (rest : List α) :
    cut feed (content ++ feed :: rest) = ⟨content, true⟩ :: cut feed rest := by
  induction content with
  | nil => simp [cut]
  | cons unit content ih =>
    rw [List.mem_cons, not_or] at h
    obtain ⟨hunit, hcontent⟩ := h
    rw [List.cons_append, cut, if_neg (Ne.symm hunit), ih hcontent]

theorem cut_of_notMem {content : List α} (h : feed ∉ content) :
    cut feed content = if content = [] then [] else [⟨content, false⟩] := by
  induction content with
  | nil => rfl
  | cons unit content ih =>
    rw [List.mem_cons, not_or] at h
    obtain ⟨hunit, hcontent⟩ := h
    rw [cut, if_neg (Ne.symm hunit), ih hcontent]
    by_cases hnil : content = []
    · simp [hnil]
    · simp [hnil]

/-- Contents that are put together with line feeds are found again. -/
theorem cut_flatMap_append {contents : List (List α)} {last : List α}
    (h : ∀ content ∈ contents, feed ∉ content) (hlast : feed ∉ last) :
    cut feed (contents.flatMap (· ++ [feed]) ++ last) =
      contents.map (⟨·, true⟩) ++ if last = [] then [] else [⟨last, false⟩] := by
  induction contents with
  | nil => simpa using cut_of_notMem hlast
  | cons content contents ih =>
    have hrest := ih fun other hother ↦ h other (List.mem_cons_of_mem content hother)
    rw [List.flatMap_cons, List.append_assoc, List.append_assoc, List.singleton_append,
      cut_append_feed (h content List.mem_cons_self), hrest, List.map_cons, List.cons_append]

/-- Splitting at the line feeds gives the contents and what stands behind the last line feed. -/
theorem splitOn_flatMap_append {contents : List (List α)} {last : List α}
    (h : ∀ content ∈ contents, feed ∉ content) (hlast : feed ∉ last) :
    (contents.flatMap (· ++ [feed]) ++ last).splitOn feed = contents ++ [last] := by
  have hjoin : [feed].intercalate (contents ++ [last]) =
      contents.flatMap (· ++ [feed]) ++ last := by
    clear h
    induction contents with
    | nil => simp
    | cons first others ih =>
      rw [List.cons_append, List.intercalate_cons_of_ne_nil (by simp), ih, List.flatMap_cons]
      simp only [List.append_assoc]
  rw [← hjoin]
  refine List.splitOn_intercalate feed (fun content hcontent ↦ ?_) (by simp)
  rcases List.mem_append.mp hcontent with hcontent | hcontent
  · exact h content hcontent
  · exact List.mem_singleton.mp hcontent ▸ hlast

/-- Every input is put together from contents without line feeds. -/
theorem exists_contents (feed : α) (input : List α) :
    ∃ (contents : List (List α)) (last : List α), 
      (∀ content ∈ contents, feed ∉ content) ∧ feed ∉ last ∧
        input = contents.flatMap (· ++ [feed]) ++ last := by
  induction input with
  | nil => exact ⟨[], [], by simp, by simp, rfl⟩
  | cons unit rest ih =>
    obtain ⟨contents, last, hcontents, hlast, rfl⟩ := ih
    by_cases hunit : unit = feed
    · exact ⟨[] :: contents, last, by simpa using hcontents, hlast, by simp [hunit]⟩
    · cases contents with
      | nil => exact ⟨[], unit :: last, by simp, by simp [Ne.symm hunit, hlast], rfl⟩
      | cons first others =>
        obtain ⟨hfirst, hothers⟩ := List.forall_mem_cons.mp hcontents
        refine ⟨(unit :: first) :: others, last, ?_, hlast, by simp⟩
        exact List.forall_mem_cons.mpr ⟨by simp [Ne.symm hunit, hfirst], hothers⟩

/-- An input that ends with a line feed, or is empty, has no line without one. -/
theorem terminated_of_mem_cut {input : List α} (h : input = [] ∨ input.getLast? = some feed) :
    ∀ line ∈ cut feed input, line.terminated = true := by
  obtain ⟨contents, last, hcontents, hlast, rfl⟩ := exists_contents feed input
  by_cases hnil : last = []
  · rw [cut_flatMap_append hcontents hlast, if_pos hnil, List.append_nil, List.forall_mem_map]
    exact fun _ _ ↦ rfl
  · have hends : last.getLast? = some feed := by
      rcases h with hempty | hends
      · exact absurd (List.append_eq_nil_iff.mp hempty).2 hnil
      · rwa [List.getLast?_append_of_ne_nil _ hnil] at hends
    exact absurd (List.mem_of_getLast? hends) hlast

/-- Behind lines with line feeds an input is cut as it is by itself. -/
theorem cut_append {first : List α} (h : ∀ line ∈ cut feed first, line.terminated = true)
    (second : List α) : cut feed (first ++ second) = cut feed first ++ cut feed second := by
  induction first with
  | nil => rfl
  | cons unit rest ih =>
    unfold cut at h
    rw [List.cons_append, cut, cut]
    split at h
    next hunit =>
      rw [if_pos hunit, if_pos hunit, ih (List.forall_mem_cons.mp h).2]
      rfl
    next hunit =>
      rw [if_neg hunit, if_neg hunit]
      cases hrest : cut feed rest with
      | nil => simp [hrest] at h
      | cons line others =>
        simp only [hrest, List.forall_mem_cons] at h
        rw [ih (by rw [hrest]; exact List.forall_mem_cons.mpr h), hrest]
        rfl

end Line

/-! ## Inside a line -/

/-- A text that ends where a line starts. -/
def EndsLine (text : List Char) : Prop :=
  text = [] ∨ text.getLast? = some '\n'

/-- A text that starts where a line ends. -/
def StartsAtFeed (text : List Char) : Prop :=
  text = [] ∨ text.head? = some '\n'

theorem endsLine_append_feed (text : List Char) : EndsLine (text ++ ['\n']) :=
  .inr List.getLast?_concat

theorem endsLine_flatMap (contents : List (List Char)) :
    EndsLine (contents.flatMap (· ++ ['\n'])) := by
  rcases contents.eq_nil_or_concat with rfl | ⟨front, content, rfl⟩
  · exact .inl rfl
  · rw [List.concat_eq_append, List.flatMap_append, List.flatMap_singleton, ← List.append_assoc]
    exact endsLine_append_feed _

/-- Behind its last line feed every text has the beginning of a line. -/
theorem exists_endsLine_append (text : List Char) :
    ∃ earlier front, text = earlier ++ front ∧ EndsLine earlier ∧ '\n' ∉ front := by
  obtain ⟨contents, last, _, hlast, rfl⟩ := Line.exists_contents '\n' text
  exact ⟨_, last, rfl, endsLine_flatMap contents, hlast⟩

/-- In front of its first line feed every text has the end of a line. -/
theorem exists_append_startsAtFeed (text : List Char) :
    ∃ back later, text = back ++ later ∧ '\n' ∉ back ∧ StartsAtFeed later := by
  induction text with
  | nil => exact ⟨[], [], rfl, List.not_mem_nil, .inl rfl⟩
  | cons c rest ih =>
    by_cases hc : c = '\n'
    · exact ⟨[], c :: rest, rfl, List.not_mem_nil, .inr (congrArg some hc)⟩
    · obtain ⟨back, later, rfl, hback, hlater⟩ := ih
      refine ⟨c :: back, later, rfl, ?_, hlater⟩
      rw [List.mem_cons, not_or]
      exact ⟨Ne.symm hc, hback⟩

end SectionedConfig.Text

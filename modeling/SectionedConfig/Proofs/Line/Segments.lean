import SectionedConfig.Line.Segments

/-!
# Where segments are cut

The text of a segment is plain: it contains none of the four characters that cut a line. A plain
text in front of a line becomes part of the first segment, so a line that is put together from plain
texts and these characters is cut where it was put together.
-/

namespace SectionedConfig.Segments

/-- The characters that cut a line. -/
def marks : List Char := ['{', '}', '=', '#']

/-- A character cuts a line if it settles a kind and does not end the line. -/
theorem mem_marks_iff {c : Char} :
    c ∈ marks ↔ TokenKind.classify c ≠ .unclassified ∧ TokenKind.classify c ≠ .endOfStatement := by
  grind [marks, TokenKind.classify]

/-- A text without the characters that cut a line. -/
def Plain (text : List Char) : Prop := ∀ c ∈ text, c ∉ marks

theorem plain_nil : Plain [] := by
  simp [Plain]

theorem plain_cons {c : Char} {rest : List Char} :
    Plain (c :: rest) ↔ c ∉ marks ∧ Plain rest :=
  List.forall_mem_cons

theorem plain_append {first second : List Char} :
    Plain (first ++ second) ↔ Plain first ∧ Plain second :=
  List.forall_mem_append

/-- Puts a text in front of the first segment. -/
def pushAll (lead : List Char) : Segments → Segments
  | plain text => plain (lead ++ text)
  | opening name rest => opening (lead ++ name) rest
  | closing other rest => closing (lead ++ other) rest
  | assignment key value => assignment (lead ++ key) value
  | comment other text => comment (lead ++ other) text

theorem cut_cons_of_notMem {c : Char} (h : c ∉ marks) (rest : List Char) :
    cut (c :: rest) = (cut rest).push c := by
  rw [cut]
  split
  · next hkind => exact absurd (mem_marks_iff.mpr (by simp [hkind])) h
  · next hkind => exact absurd (mem_marks_iff.mpr (by simp [hkind])) h
  · next hkind => exact absurd (mem_marks_iff.mpr (by simp [hkind])) h
  · next hkind => exact absurd (mem_marks_iff.mpr (by simp [hkind])) h
  · rfl

/-- A plain text in front of a line belongs to its first segment. -/
theorem cut_append {lead : List Char} (h : Plain lead) (rest : List Char) :
    cut (lead ++ rest) = (cut rest).pushAll lead := by
  induction lead with
  | nil =>
    rw [List.nil_append]
    cases cut rest <;> rfl
  | cons c lead ih =>
    obtain ⟨hc, hlead⟩ := plain_cons.mp h
    rw [List.cons_append, cut_cons_of_notMem hc, ih hlead]
    cases cut rest <;> rfl

theorem cut_of_plain {text : List Char} (h : Plain text) : cut text = plain text := by
  simpa [cut, pushAll] using cut_append h []

theorem cut_append_opening {name : List Char} (h : Plain name) (rest : List Char) :
    cut (name ++ '{' :: rest) = opening name (cut rest) := by
  simp [cut_append h, pushAll]

theorem cut_append_closing {lead : List Char} (h : Plain lead) (rest : List Char) :
    cut (lead ++ '}' :: rest) = closing lead (cut rest) := by
  simp [cut_append h, pushAll]

theorem cut_append_assignment {key : List Char} (h : Plain key) (value : List Char) :
    cut (key ++ '=' :: value) = assignment key value := by
  simp [cut_append h, pushAll]

theorem cut_append_comment {lead : List Char} (h : Plain lead) (text : List Char) :
    cut (lead ++ '#' :: text) = comment lead text := by
  simp [cut_append h, pushAll]

/-- The texts in front of the marks are plain. -/
def Clean : Segments → Prop
  | plain text => Plain text
  | opening name rest => Plain name ∧ rest.Clean
  | closing lead rest => Plain lead ∧ rest.Clean
  | assignment key _ => Plain key
  | comment lead _ => Plain lead

theorem clean_push {c : Char} (hc : c ∉ marks) {segments : Segments} (h : segments.Clean) :
    (segments.push c).Clean := by
  cases segments with
  | plain text => exact plain_cons.mpr ⟨hc, h⟩
  | opening name rest => exact ⟨plain_cons.mpr ⟨hc, h.1⟩, h.2⟩
  | closing lead rest => exact ⟨plain_cons.mpr ⟨hc, h.1⟩, h.2⟩
  | assignment key value => exact plain_cons.mpr ⟨hc, h⟩
  | comment lead text => exact plain_cons.mpr ⟨hc, h⟩

/-- Cutting leaves no mark in front of another. -/
theorem clean_cut (content : List Char) : (cut content).Clean := by
  induction content with
  | nil => exact plain_nil
  | cons c rest ih =>
    by_cases hc : c ∈ marks
    · simp only [marks, List.mem_cons, List.not_mem_nil, or_false] at hc
      rcases hc with rfl | rfl | rfl | rfl
      · exact ⟨plain_nil, ih⟩
      · exact ⟨plain_nil, ih⟩
      · exact plain_nil
      · exact plain_nil
    · rw [cut_cons_of_notMem hc]
      exact clean_push hc ih

end SectionedConfig.Segments

import SectionedConfig.Proofs.Line.Clause
import SectionedConfig.Proofs.Text.Separators

/-!
# What is read off a line

The form of a value is recognised in the middle of white space and nowhere else, so a value is the
written form of what is read off it, with white space around it. The clause of a line that holds no
line feed is well-formed.
-/

namespace SectionedConfig

open Text

namespace ValueForm

theorem tight_written {form : ValueForm} (h : form.Recognisable) :
    Tight isBlank form.written := by
  cases form with
  | bare text => exact h.1
  | quoted text => exact tight_cons_append_singleton text (by decide) (by decide)
  | list text => exact h.1

/-- A recognisable form is found between white space. -/
theorem of?_append_append {form : ValueForm} (h : form.Recognisable) {lead tail : List Char}
    (hlead : Blank lead) (htail : Blank tail) :
    of? (lead ++ form.written ++ tail) = some form := by
  have htrim : trim (lead ++ form.written ++ tail) = form.written :=
    trim_append_append (tight_written h) hlead htail
  have hquote {text : List Char} (htext : Blank text) : '"' ∉ text := htext.notMem (by decide)
  unfold of?
  rw [htrim]
  cases form with
  | bare text =>
    have hnone : cutFirst '"' (lead ++ text ++ tail) = none := by
      rw [cutFirst_eq_none, List.mem_append, List.mem_append, not_or, not_or]
      exact ⟨⟨hquote hlead, h.2.2⟩, hquote htail⟩
    rw [written, if_neg h.2.1, hnone]
  | quoted text =>
    have hcut : cutFirst '"' (lead ++ ('"' :: text ++ ['"']) ++ tail) =
        some (lead, text ++ '"' :: tail) := by
      simpa using cutFirst_append (hquote hlead) (text ++ '"' :: tail)
    rw [written, if_neg (by simp), hcut]
    simp only [cutLast_append (hquote htail)]
    rw [if_pos]
    rw [Bool.and_eq_true]
    exact ⟨isEmpty_trim_iff.mpr hlead, isEmpty_trim_iff.mpr htail⟩
  | list text => rw [written, if_pos h.2.1, if_pos h.2.2]

/-- A text has a form if it is the written form between white space. -/
theorem eq_append_of_of?_eq_some {text : List Char} {form : ValueForm}
    (h : of? text = some form) :
    form.Recognisable ∧
      ∃ lead tail, Blank lead ∧ Blank tail ∧ text = lead ++ form.written ++ tail := by
  have htrim : ∃ lead tail, Blank lead ∧ Blank tail ∧ text = lead ++ trim text ++ tail :=
    exists_eq_append_strip_append isBlank text
  unfold of? at h
  split at h
  next hopen =>
    split at h
    next hclose =>
      obtain rfl := Option.some.inj h
      exact ⟨⟨tight_trim text, hopen, hclose⟩, htrim⟩
    next => cases h
  next hopen =>
    split at h
    next hcut =>
      obtain rfl := Option.some.inj h
      refine ⟨⟨tight_trim text, hopen, fun hmem ↦ ?_⟩, htrim⟩
      exact cutFirst_eq_none.mp hcut (mem_of_mem_strip hmem)
    next before inside hcut =>
      split at h
      next => cases h
      next string after hlast =>
        split at h
        next hblank =>
          obtain rfl := Option.some.inj h
          rw [Bool.and_eq_true, isEmpty_trim_iff, isEmpty_trim_iff] at hblank
          refine ⟨trivial, before, after, hblank.1, hblank.2, ?_⟩
          rw [(cutFirst_eq_some hcut).1, (cutLast_eq_some hlast).1]
          simp [written]
        next => cases h

/-- The form of a value is well-formed, and it leaves a quotation mark open if the value does. -/
theorem wellFormed_of_of?_eq_some {text : List Char} {form : ValueForm} (h : of? text = some form)
    (huncommented : Uncommented false text) (hunbroken : '\n' ∉ text) :
    form.WellFormed ∧ quotesAfter false form.written = quotesAfter false text := by
  obtain ⟨hform, lead, tail, hlead, htail, rfl⟩ := eq_append_of_of?_eq_some h
  have hquote {text : List Char} (htext : Blank text) (inQuotes : Bool) :
      quotesAfter inQuotes text = inQuotes := quotesAfter_of_notMem (htext.notMem (by decide)) _
  rw [List.append_assoc, uncommented_append, uncommented_append, hquote hlead] at huncommented
  refine ⟨⟨hform, huncommented.2.1, fun hmem ↦ hunbroken ?_⟩, ?_⟩
  · exact List.mem_append_left _ (List.mem_append_right _ hmem)
  · rw [quotesAfter_append, quotesAfter_append, hquote hlead, hquote htail]

end ValueForm

/-- A trimmed segment is a name unless it is blank. -/
theorem isNameText_trim {text : List Char} (hblank : ¬ (trim text).isEmpty = true)
    (hplain : Segments.Plain text) (hunbroken : '\n' ∉ text) : IsNameText (trim text) where
  nonempty := fun h ↦ hblank (List.isEmpty_iff.mpr h)
  tight := tight_trim text
  plain := fun c hc ↦ hplain c (mem_of_mem_strip hc)
  unbroken := fun h ↦ hunbroken (mem_of_mem_strip h)

theorem isRemarkText_trim {text : List Char} (hunbroken : '\n' ∉ text) :
    IsRemarkText (trim text) where
  tight := tight_trim text
  unbroken := fun h ↦ hunbroken (mem_of_mem_strip h)

/-- The clause of clean segments without line feeds is well-formed. -/
theorem Segments.wellFormed_of_clause?_eq_some {segments : Segments} {clause : Clause}
    (hclean : segments.Clean) (hunbroken : '\n' ∉ segments.join)
    (h : segments.clause? = some clause) : clause.WellFormed := by
  induction segments generalizing clause with
  | plain text =>
    simp only [clause?, Option.ite_none_right_eq_some, Option.some.injEq] at h
    obtain ⟨_, rfl⟩ := h
    trivial
  | opening name rest ih =>
    simp only [clause?, Option.ite_none_left_eq_some, Option.map_eq_some_iff] at h
    obtain ⟨hname, other, hrest, rfl⟩ := h
    simp only [join, List.mem_append, List.mem_cons, not_or] at hunbroken
    exact ⟨isNameText_trim hname hclean.1 hunbroken.1, ih hclean.2 hunbroken.2.2 hrest⟩
  | closing lead rest ih =>
    simp only [clause?, Option.ite_none_right_eq_some, Option.map_eq_some_iff] at h
    obtain ⟨_, other, hrest, rfl⟩ := h
    simp only [join, List.mem_append, List.mem_cons, not_or] at hunbroken
    have hother : other.WellFormed := ih hclean.2 hunbroken.2.2 hrest
    exact hother
  | assignment key text =>
    rcases hcut : cutComment false text with ⟨value, remark⟩
    simp only [clause?, hcut, Option.ite_none_left_eq_some, Option.map_eq_some_iff] at h
    obtain ⟨hkey, form, hform, rfl⟩ := h
    obtain ⟨huncommented, rfl, hquotes⟩ := cutComment_spec hcut
    simp only [join, List.mem_append, List.mem_cons, not_or] at hunbroken
    obtain ⟨hwell, hafter⟩ :=
      ValueForm.wellFormed_of_of?_eq_some hform huncommented hunbroken.2.2.1
    refine ⟨isNameText_trim hkey hclean hunbroken.1, hwell, fun text htext ↦ ?_⟩
    obtain ⟨rest, rfl, rfl⟩ := Option.map_eq_some_iff.mp htext
    rw [hafter]
    refine ⟨isRemarkText_trim fun hmem ↦ hunbroken.2.2.2 ?_, hquotes rfl⟩
    exact List.mem_cons_of_mem '#' hmem
  | comment lead text =>
    simp only [clause?, Option.ite_none_right_eq_some, Option.some.injEq] at h
    obtain ⟨_, rfl⟩ := h
    simp only [join, List.mem_append, List.mem_cons, not_or] at hunbroken
    exact isRemarkText_trim hunbroken.2.2

/-- The clause of a line is well-formed. -/
theorem Clause.wellFormed_of_of?_eq_some {content : List Char} {clause : Clause}
    (hunbroken : '\n' ∉ content) (h : of? content = some clause) : clause.WellFormed := by
  refine Segments.wellFormed_of_clause?_eq_some (Segments.clean_cut content) ?_ h
  rwa [Segments.join_cut]

theorem Segments.plain_of_blank {text : List Char} (h : Blank text) : Plain text := by
  intro c hc hmark
  have hblank : isBlank c = false := by
    simp only [marks, List.mem_cons, List.not_mem_nil, or_false] at hmark
    rcases hmark with rfl | rfl | rfl | rfl <;> decide
  exact h.notMem hblank hc

namespace Clause

variable {lead name tail : List Char}

theorem plain_append_name (hname : IsNameText name) (hlead : Blank lead) (htail : Blank tail) :
    Segments.Plain (lead ++ name ++ tail) := by
  rw [Segments.plain_append, Segments.plain_append]
  exact ⟨⟨Segments.plain_of_blank hlead, hname.plain⟩, Segments.plain_of_blank htail⟩

theorem not_isEmpty_name (hname : IsNameText name) : ¬ name.isEmpty = true :=
  fun h ↦ hname.nonempty (List.isEmpty_iff.mp h)

/-- A name in front of an opening brace. -/
theorem of?_opening (hname : IsNameText name) (hlead : Blank lead) (htail : Blank tail)
    (rest : List Char) :
    of? (lead ++ name ++ tail ++ '{' :: rest) = (of? rest).map (opening name) := by
  rw [of?, Segments.cut_append_opening (plain_append_name hname hlead htail), Segments.clause?,
    trim_append_append hname.tight hlead htail, if_neg (not_isEmpty_name hname), of?]

/-- A closing brace. -/
theorem of?_closing (hlead : Blank lead) (rest : List Char) :
    of? (lead ++ '}' :: rest) = (of? rest).map closing := by
  rw [of?, Segments.cut_append_closing (Segments.plain_of_blank hlead), Segments.clause?,
    if_pos (isEmpty_trim_iff.mpr hlead), of?]

/-- A key in front of an equals sign. -/
theorem of?_assignment (hname : IsNameText name) (hlead : Blank lead) (htail : Blank tail)
    (text : List Char) :
    of? (lead ++ name ++ tail ++ '=' :: text) =
      (ValueForm.of? (cutComment false text).1).map fun form ↦
        assignment name form ((cutComment false text).2.map trim) := by
  rcases hcut : cutComment false text with ⟨value, remark⟩
  rw [of?, Segments.cut_append_assignment (plain_append_name hname hlead htail)]
  simp only [Segments.clause?, hcut]
  rw [trim_append_append hname.tight hlead htail, if_neg (not_isEmpty_name hname)]

/-- A remark behind a number sign. -/
theorem of?_comment (hlead : Blank lead) (text : List Char) :
    of? (lead ++ '#' :: text) = some (comment (trim text)) := by
  rw [of?, Segments.cut_append_comment (Segments.plain_of_blank hlead), Segments.clause?,
    if_pos (isEmpty_trim_iff.mpr hlead)]

/-- A line says nothing if it is blank, and only then. -/
theorem of?_eq_blank_iff {content : List Char} : of? content = some blank ↔ Blank content := by
  constructor
  · intro h
    have hjoin := Segments.join_cut content
    unfold of? at h
    revert h hjoin
    cases Segments.cut content with
    | plain text =>
      intro h hjoin
      simp only [Segments.clause?, Option.ite_none_right_eq_some] at h
      exact hjoin ▸ isEmpty_trim_iff.mp h.1
    | opening name rest | closing lead rest | assignment key value | comment lead text =>
      simp [Segments.clause?]
  · intro h
    rw [of?, Segments.cut_of_plain (Segments.plain_of_blank h), Segments.clause?,
      if_pos (isEmpty_trim_iff.mpr h)]

end Clause

end SectionedConfig

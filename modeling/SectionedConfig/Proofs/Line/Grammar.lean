import Mathlib.Algebra.Group.Nat.Even
import SectionedConfig.Proofs.Line.Reading

/-!
# The grammar of a line

A line is a row of names with opening braces and of closing braces, and at its end stands white
space, a remark, or an assignment. The grammar says so without saying how a line is cut: which
number sign starts the remark behind a value is settled by counting quotation marks, and a value is
described by its first and last characters. A line has a clause if it is in the grammar, and only
then.
-/

namespace SectionedConfig

open Text

/-! ## Values -/

/-- The part of the text after an equals sign that holds the value. It goes up to the first number
sign with an even number of quotation marks before it, or up to the end. -/
def IsValueHalf (rest value : List Char) : Prop :=
  (∀ before after, value = before ++ '#' :: after → ¬ Even (before.count '"')) ∧
    (rest = value ∨ ∃ remark, rest = value ++ '#' :: remark ∧ Even (value.count '"'))

/-- A value, with the white space around it. -/
inductive IsValue (text : List Char) : Prop where
  /-- A text in brackets. -/
  | list (hopen : (trim text).head? = some '[') (hclose : (trim text).getLast? = some ']')
  /-- A text without quotation marks. -/
  | bare (hopen : (trim text).head? ≠ some '[') (hquote : '"' ∉ text)
  /-- A text with nothing around its first and its last quotation mark, which are two. -/
  | quoted (before inside after : List Char) (hopen : (trim text).head? ≠ some '[')
      (htext : text = before ++ '"' :: inside ++ '"' :: after) (hbefore : Blank before)
      (hafter : Blank after)

/-- A quotation mark is open behind a text if the text holds an odd number of them. -/
theorem quotesAfter_eq_false_iff (inQuotes : Bool) (text : List Char) :
    quotesAfter inQuotes text = false ↔ (Even (text.count '"') ↔ inQuotes = false) := by
  induction text generalizing inQuotes with
  | nil => simp [quotesAfter]
  | cons c rest ih =>
    rw [quotesAfter, ih, List.count_cons]
    by_cases hc : c = '"'
    · simp only [hc, if_true, beq_self_eq_true, Nat.even_add_one]
      cases inQuotes <;> simp
    · simp [hc]

/-- No number sign starts a comment if a quotation mark is open at each of them. -/
theorem uncommented_iff {inQuotes : Bool} {text : List Char} :
    Uncommented inQuotes text ↔
      ∀ before after, text = before ++ '#' :: after → quotesAfter inQuotes before = true := by
  constructor
  · rintro h before after rfl
    exact (uncommented_cons.mp (uncommented_append.mp h).2).1 rfl
  · intro h
    rcases hcut : cutComment inQuotes text with ⟨value, comment⟩
    obtain ⟨hvalue, htext, hquotes⟩ := cutComment_spec hcut
    cases comment with
    | none =>
      rw [htext, Option.elim_none, List.append_nil]
      exact hvalue
    | some comment =>
      have hclosed : quotesAfter inQuotes value = false := hquotes rfl
      rw [h value comment htext] at hclosed
      cases hclosed

theorem quotesAfter_false_iff {text : List Char} :
    quotesAfter false text = false ↔ Even (text.count '"') := by
  simp [quotesAfter_eq_false_iff]

/-- A text starts no comment if an odd number of quotation marks precedes each number sign. -/
theorem uncommented_false_iff {text : List Char} :
    Uncommented false text ↔
      ∀ before after, text = before ++ '#' :: after → ¬ Even (before.count '"') := by
  simp only [uncommented_iff, ← quotesAfter_false_iff, Bool.not_eq_false]

/-- The value half is what is left when the comment is cut off. -/
theorem isValueHalf_iff {rest value : List Char} :
    IsValueHalf rest value ↔ (cutComment false rest).1 = value := by
  rw [IsValueHalf, ← uncommented_false_iff]
  constructor
  · rintro ⟨hvalue, rfl | ⟨remark, rfl, hclosed⟩⟩
    · rw [show cutComment false rest = (rest, none) from hvalue]
    · rw [cutComment_append hvalue, quotesAfter_false_iff.mpr hclosed]
      exact List.append_nil value
  · intro hvalue
    rcases hcut : cutComment false rest with ⟨found, comment⟩
    rw [hcut] at hvalue
    obtain rfl : found = value := hvalue
    obtain ⟨hfound, hrest, hclosed⟩ := cutComment_spec hcut
    refine ⟨hfound, ?_⟩
    cases comment with
    | none => exact .inl (hrest.trans (List.append_nil found))
    | some remark => exact .inr ⟨remark, hrest, quotesAfter_false_iff.mp (hclosed rfl)⟩

/-- A text has a form if it is a value, and only then. -/
theorem isValue_iff {text : List Char} : IsValue text ↔ ∃ form, ValueForm.of? text = some form := by
  constructor
  · intro h
    cases h with
    | list hopen hclose => exact ⟨_, by rw [ValueForm.of?, if_pos hopen, if_pos hclose]⟩
    | bare hopen hquote =>
      exact ⟨_, by rw [ValueForm.of?, if_neg hopen, cutFirst_eq_none.mpr hquote]⟩
    | quoted before inside after hopen htext hbefore hafter =>
      subst htext
      have hinside : (ValueForm.quoted inside).Recognisable := trivial
      have hform := ValueForm.of?_append_append hinside hbefore hafter
      exact ⟨.quoted inside, by simpa [ValueForm.written] using hform⟩
  · rintro ⟨form, h⟩
    by_cases hopen : (trim text).head? = some '['
    · rw [ValueForm.of?, if_pos hopen, Option.ite_none_right_eq_some] at h
      exact .list hopen h.1
    · by_cases hquote : '"' ∈ text
      · obtain ⟨hform, lead, tail, hlead, htail, htext⟩ := ValueForm.eq_append_of_of?_eq_some h
        cases form with
        | bare found =>
          rw [htext, List.mem_append, List.mem_append] at hquote
          have hmark {text : List Char} (htext : Blank text) : '"' ∉ text :=
            htext.notMem (by decide)
          rcases hquote with (hquote | hquote) | hquote
          · exact absurd hquote (hmark hlead)
          · exact absurd hquote hform.2.2
          · exact absurd hquote (hmark htail)
        | quoted found =>
          exact .quoted lead found tail hopen (by simpa [ValueForm.written] using htext) hlead htail
        | list found =>
          have hfound : trim text = found := htext ▸ trim_append_append hform.1 hlead htail
          exact absurd (hfound ▸ hform.2.1) hopen
      · exact .bare hopen hquote

/-! ## Lines -/

/-- A line as it can stand in a text, without its line feed. -/
inductive IsLine : List Char → Prop where
  /-- Nothing but white space. -/
  | blank {text : List Char} (htext : Blank text) : IsLine text
  /-- A number sign and anything after it. -/
  | remark {lead : List Char} (text : List Char) (hlead : Blank lead) : IsLine (lead ++ '#' :: text)
  /-- A name, an opening brace, and the rest of the line. -/
  | opening {name rest : List Char} (hname : ¬ Blank name) (hplain : Segments.Plain name)
      (hrest : IsLine rest) : IsLine (name ++ '{' :: rest)
  /-- A closing brace and the rest of the line. -/
  | closing {lead rest : List Char} (hlead : Blank lead) (hrest : IsLine rest) :
      IsLine (lead ++ '}' :: rest)
  /-- A key, an equals sign, a value, and a remark if there is one. -/
  | assignment {key rest value : List Char} (hkey : ¬ Blank key) (hplain : Segments.Plain key)
      (hhalf : IsValueHalf rest value) (hvalue : IsValue value) : IsLine (key ++ '=' :: rest)

/-- Clean segments that have a clause make up a line. -/
theorem Segments.isLine_join {segments : Segments} {clause : Clause} (hclean : segments.Clean)
    (h : segments.clause? = some clause) : IsLine segments.join := by
  induction segments generalizing clause with
  | plain text =>
    rw [clause?, Option.ite_none_right_eq_some] at h
    exact .blank (isEmpty_trim_iff.mp h.1)
  | opening name rest ih =>
    rw [clause?, Option.ite_none_left_eq_some, isEmpty_trim_iff, Option.map_eq_some_iff] at h
    obtain ⟨hname, other, hrest, _⟩ := h
    exact .opening hname hclean.1 (ih hclean.2 hrest)
  | closing lead rest ih =>
    rw [clause?, Option.ite_none_right_eq_some, isEmpty_trim_iff, Option.map_eq_some_iff] at h
    obtain ⟨hlead, other, hrest, _⟩ := h
    exact .closing hlead (ih hclean.2 hrest)
  | assignment key text =>
    simp only [clause?, Option.ite_none_left_eq_some, Option.map_eq_some_iff,
      isEmpty_trim_iff] at h
    obtain ⟨hkey, form, hform, _⟩ := h
    exact .assignment hkey hclean (isValueHalf_iff.mpr rfl) (isValue_iff.mpr ⟨form, hform⟩)
  | comment lead text =>
    rw [clause?, Option.ite_none_right_eq_some] at h
    exact .remark text (isEmpty_trim_iff.mp h.1)

/-- A line is accepted if it is in the grammar, and only then. -/
theorem isLine_iff {content : List Char} :
    IsLine content ↔ ∃ clause, Clause.of? content = some clause := by
  constructor
  · intro h
    induction h with
    | blank htext => exact ⟨.blank, Clause.of?_eq_blank_iff.mpr htext⟩
    | remark text hlead => exact ⟨_, Clause.of?_comment hlead text⟩
    | @opening name rest hname hplain _ ih =>
      obtain ⟨clause, hclause⟩ := ih
      refine ⟨.opening (trim name) clause, ?_⟩
      rw [Clause.of?, Segments.cut_append_opening hplain, Segments.clause?,
        if_neg (isEmpty_trim_iff.not.mpr hname), ← Clause.of?, hclause, Option.map_some]
    | closing hlead _ ih =>
      obtain ⟨clause, hclause⟩ := ih
      exact ⟨.closing clause, by rw [Clause.of?_closing hlead, hclause, Option.map_some]⟩
    | @assignment key rest value hkey hplain hhalf hvalue =>
      obtain ⟨form, hform⟩ := isValue_iff.mp hvalue
      rw [← isValueHalf_iff.mp hhalf] at hform
      refine ⟨.assignment (trim key) form ((cutComment false rest).2.map trim), ?_⟩
      simp only [Clause.of?, Segments.cut_append_assignment hplain, Segments.clause?,
        isEmpty_trim_iff, if_neg hkey, hform, Option.map_some]
  · rintro ⟨clause, hclause⟩
    rw [← Segments.join_cut content]
    exact Segments.isLine_join (Segments.clean_cut content) hclause

end SectionedConfig

import SectionedConfig.Proofs.Document.Appending
import SectionedConfig.Proofs.Line.Grammar

/-!
# Tidy texts

A text is tidy if it is laid out as tokens are rendered: one brace or assignment on a line, single
spaces around braces and equals signs and in front of remarks, and a tab in front of the comments
and assignments behind an opening brace. What is tidy is said without clauses. Every tidy line is
nevertheless the written form of one, so a tidy text is the written form of a sheet, and it is
rendered as itself.
-/

namespace SectionedConfig

open Text

/-! ## The layout -/

/-- A remark with a single space behind its number sign, or nothing at all. -/
inductive IsTidyRemark : List Char → Prop where
  | empty : IsTidyRemark ['#']
  | text {text : List Char} (hnonempty : text ≠ []) (htight : Tight isBlank text)
      (hunbroken : '\n' ∉ text) : IsTidyRemark ('#' :: ' ' :: text)

/-- What stands behind a brace or a value: nothing, or a remark behind a single space. -/
inductive IsTidyTail : List Char → Prop where
  | nil : IsTidyTail []
  | remark {text : List Char} (h : IsTidyRemark text) : IsTidyTail (' ' :: text)

/-- A value that a remark can follow. -/
inductive IsTidyValue : List Char → Prop where
  | quoted {text : List Char} (hquote : '"' ∉ text) (hunbroken : '\n' ∉ text) :
      IsTidyValue ('"' :: text ++ ['"'])
  | bare {text : List Char} (hnonempty : text ≠ []) (htight : Tight isBlank text)
      (hopen : text.head? ≠ some '[') (hquote : '"' ∉ text) (hsign : '#' ∉ text)
      (hunbroken : '\n' ∉ text) : IsTidyValue text
  /-- A text in brackets. An odd number of quotation marks stands in front of each number sign, and
  an even number in the whole text. -/
  | list {text : List Char} (hopen : text.head? = some '[') (hclose : text.getLast? = some ']')
      (hsign : ∀ before after, text = before ++ '#' :: after → ¬ Even (before.count '"'))
      (heven : Even (text.count '"')) (hunbroken : '\n' ∉ text) : IsTidyValue text

/-- What a comment or an assignment is indented by. -/
def indent (inside : Bool) : List Char :=
  if inside then ['\t'] else []

/-- A tidy line without its line feed. The flags say whether the last brace in front of the line and
the last brace behind it open a section. Braces in remarks and values do not count. -/
inductive TidyLine (inside : Bool) : List Char → Bool → Prop where
  | empty : TidyLine inside [] inside
  | opening {name tail : List Char} (hname : IsNameText name) (htail : IsTidyTail tail) :
      TidyLine inside (name ++ ' ' :: '{' :: tail) true
  | closing {tail : List Char} (htail : IsTidyTail tail) : TidyLine inside ('}' :: tail) false
  | remark {text : List Char} (h : IsTidyRemark text) :
      TidyLine inside (indent inside ++ text) inside
  | assignment {key value tail : List Char} (hkey : IsNameText key) (hvalue : IsTidyValue value)
      (htail : IsTidyTail tail) :
      TidyLine inside (indent inside ++ key ++ ' ' :: '=' :: ' ' :: value ++ tail) inside

/-- A text of tidy lines. The last of them can lack its line feed. -/
inductive IsTidy : Bool → List Char → Prop where
  | last {inside after : Bool} {content : List Char} (h : TidyLine inside content after) :
      IsTidy inside content
  | line {inside after : Bool} {content rest : List Char} (h : TidyLine inside content after)
      (hrest : IsTidy after rest) : IsTidy inside (content ++ '\n' :: rest)

/-! ## Tidy lines are written clauses -/

theorem IsTidyRemark.exists_text {written : List Char} (h : IsTidyRemark written) :
    ∃ text, IsRemarkText text ∧ Clause.remarkText text = written := by
  cases h with
  | empty => exact ⟨[], ⟨tight_nil isBlank, List.not_mem_nil⟩, rfl⟩
  | @text text hnonempty htight hunbroken =>
    refine ⟨text, ⟨htight, hunbroken⟩, ?_⟩
    rw [Clause.remarkText, List.isEmpty_eq_false_iff.mpr hnonempty]
    rfl

theorem IsTidyTail.exists_remark {tail : List Char} (h : IsTidyTail tail) :
    ∃ remark : Option (List Char), (∀ text, remark = some text → IsRemarkText text) ∧
      (remark.elim [] fun text ↦ ' ' :: Clause.remarkText text) = tail := by
  cases h with
  | nil => exact ⟨none, by simp, rfl⟩
  | remark h =>
    obtain ⟨text, htext, rfl⟩ := h.exists_text
    exact ⟨some text, fun other hother ↦ Option.some.inj hother ▸ htext, rfl⟩

/-- What stands behind a brace is a clause of its own. -/
theorem IsTidyTail.exists_clause {tail : List Char} (h : IsTidyTail tail) (inside : Bool) :
    ∃ clause : Clause, clause.WellFormed ∧ clause.text ⟨inside, false⟩ = tail ∧
      clause.inSection inside = inside := by
  obtain ⟨remark, hremark, rfl⟩ := h.exists_remark
  cases remark with
  | none => exact ⟨.blank, trivial, rfl, rfl⟩
  | some text => exact ⟨.comment text, hremark text rfl, rfl, rfl⟩

theorem IsTidyValue.exists_form {written : List Char} (h : IsTidyValue written) :
    ∃ form : ValueForm, form.WellFormed ∧ form.written = written ∧
      quotesAfter false written = false := by
  cases h with
  | @quoted text hquote hunbroken =>
    exact ⟨.quoted text, Value.wellFormed_quoted hunbroken hquote, rfl,
      (SelfContained.quoted hquote).closed⟩
  | bare hnonempty htight hopen hquote hsign hunbroken =>
    exact ⟨.bare written, ⟨⟨htight, hopen, hquote⟩, uncommented_of_notMem hsign false, hunbroken⟩,
      rfl, quotesAfter_of_notMem hquote false⟩
  | list hopen hclose hsign heven hunbroken =>
    have htight : Tight isBlank written := by
      constructor
      · intro c hc
        obtain rfl : '[' = c := Option.some.inj (hopen.symm.trans hc)
        decide
      · intro c hc
        obtain rfl : ']' = c := Option.some.inj (hclose.symm.trans hc)
        decide
    exact ⟨.list written,
      ⟨⟨htight, hopen, hclose⟩, uncommented_false_iff.mpr hsign, hunbroken⟩, rfl,
      quotesAfter_false_iff.mpr heven⟩

/-- A tidy line is the written form of a clause. -/
theorem TidyLine.exists_clause {inside after : Bool} {content : List Char}
    (h : TidyLine inside content after) :
    ∃ clause : Clause, clause.WellFormed ∧ clause.text ⟨inside, true⟩ = content ∧
      clause.inSection inside = after := by
  have hgap (inside : Bool) : Layout.Cursor.gap ⟨inside, true⟩ = indent inside := by
    cases inside <;> rfl
  cases h with
  | empty => exact ⟨.blank, trivial, rfl, rfl⟩
  | @opening name tail hname htail =>
    obtain ⟨rest, hrest, rfl, hinside⟩ := htail.exists_clause true
    exact ⟨.opening name rest, ⟨hname, hrest⟩, rfl, hinside⟩
  | @closing tail htail =>
    obtain ⟨rest, hrest, rfl, hinside⟩ := htail.exists_clause false
    exact ⟨.closing rest, hrest, rfl, hinside⟩
  | remark h =>
    obtain ⟨text, htext, rfl⟩ := h.exists_text
    exact ⟨.comment text, htext, congrArg (· ++ _) (hgap inside), rfl⟩
  | @assignment key value tail hkey hvalue htail =>
    obtain ⟨form, hform, rfl, hquotes⟩ := hvalue.exists_form
    obtain ⟨remark, hremark, rfl⟩ := htail.exists_remark
    refine ⟨.assignment key form remark,
      ⟨hkey, hform, fun text htext ↦ ⟨hremark text htext, hquotes⟩⟩, ?_, rfl⟩
    rw [Clause.text, hgap]

/-- A tidy text is the written form of a sheet. -/
theorem IsTidy.exists_sheet {inside : Bool} {text : List Char} (h : IsTidy inside text) :
    ∃ sheet : Sheet, sheet.WellFormed ∧
      (Sheet.contentsOf inside sheet.lines).flatMap (· ++ ['\n']) ++
        sheet.last.elim [] (Clause.text ⟨Sheet.inSection inside sheet.lines, true⟩) = text := by
  induction h with
  | last h =>
    obtain ⟨clause, hclause, rfl, _⟩ := h.exists_clause
    exact ⟨⟨[], some clause⟩, ⟨by simp, by simpa using hclause⟩, rfl⟩
  | line h _ ih =>
    -- The rest is indented as the clause of the first line leaves it.
    obtain ⟨clause, hclause, rfl, rfl⟩ := h.exists_clause
    obtain ⟨sheet, ⟨hlines, hlast⟩, rfl⟩ := ih
    refine ⟨⟨clause :: sheet.lines, sheet.last⟩,
      ⟨List.forall_mem_cons.mpr ⟨hclause, hlines⟩, hlast⟩, ?_⟩
    simp [Sheet.contentsOf, Sheet.inSection]

/-- A tidy text is accepted, and its tokens are rendered as the text. So is the document that is
assembled from them, if there is one. -/
theorem render_of_isTidy {text : String} (h : IsTidy false text.toList) :
    ∃ tokens, (TokenStream.ofText text).checked = .ok tokens ∧ render tokens = .ok text ∧
      ∀ document, Document.ofTokens tokens = .ok document → document.render = .ok text := by
  obtain ⟨sheet, hsheet, htext⟩ := h.exists_sheet
  have hwritten : String.ofList sheet.text = text := by
    rw [← text.ofList_toList, ← htext]
    rfl
  obtain ⟨tokens, hchecked, htokens⟩ := Sheet.checked_text hsheet
  rw [hwritten] at hchecked
  have hsettled : String.ofList sheet.settled.text = text := by
    rw [Sheet.text_settled, hwritten]
  refine ⟨tokens, hchecked, ?_, fun document hdocument ↦ ?_⟩
  · rw [Sheet.render_of_map_withoutOffset htokens, hsettled]
  · rw [(Document.hasTokens_of_ofTokens hdocument htokens).1.render_eq, hsettled]

/-- A remark behind a brace, a number sign in a list, and a brace in a value at the end of a text
that lacks its last line feed. -/
theorem render_of_isTidy_unended :
    ∃ tokens document,
      (TokenStream.ofText "# c\ns \x7b # d\n\n\tk = [\"#\"] #\n\x7d\na = 1 \x7b").checked =
        .ok tokens ∧
      render tokens = .ok "# c\ns \x7b # d\n\n\tk = [\"#\"] #\n\x7d\na = 1 \x7b" ∧
      Document.ofTokens tokens = .ok document ∧
      document.render = .ok "# c\ns \x7b # d\n\n\tk = [\"#\"] #\n\x7d\na = 1 \x7b" := by
  have hname (name : String) (h : checkName name = .ok ()) : IsNameText name.toList :=
    (checkName_eq_ok_iff.mp h).isNameText
  have hremark (c : Char) (h : isBlank c = false) (hfeed : '\n' ∉ [c]) :
      IsTidyRemark ['#', ' ', c] :=
    .text (List.cons_ne_nil c []) (tight_of_forall (List.forall_mem_singleton.mpr h)) hfeed
  have hlist : IsTidyValue ['[', '"', '#', '"', ']'] :=
    .list rfl rfl (uncommented_false_iff.mp (by decide)) (quotesAfter_false_iff.mp (by decide))
      (by decide)
  have hbare : IsTidyValue ['1', ' ', '{'] :=
    .bare (by decide) (tight_cons_append_singleton [' '] (by decide) (by decide)) (by decide)
      (by decide) (by decide) (by decide)
  have htidy : IsTidy false "# c\ns \x7b # d\n\n\tk = [\"#\"] #\n\x7d\na = 1 \x7b".toList :=
    .line (.remark (hremark 'c' (by decide) (by decide))) <|
    .line (.opening (hname "s" (by decide)) (.remark (hremark 'd' (by decide) (by decide)))) <|
    .line .empty <|
    .line (.assignment (hname "k" (by decide)) hlist (.remark .empty)) <|
    .line (.closing .nil) <|
    .last (.assignment (hname "a" (by decide)) hbare .nil)
  obtain ⟨tokens, hchecked, hrender, hdocument⟩ := render_of_isTidy htidy
  obtain rfl := Except.ok.inj (hchecked.symm.trans (by rfl))
  obtain ⟨document, hassembled⟩ : ∃ document, Document.ofTokens (TokenStream.ofText
      "# c\ns \x7b # d\n\n\tk = [\"#\"] #\n\x7d\na = 1 \x7b").tokens = .ok document := ⟨_, rfl⟩
  exact ⟨_, document, hchecked, hrender, hassembled, hdocument document hassembled⟩

end SectionedConfig

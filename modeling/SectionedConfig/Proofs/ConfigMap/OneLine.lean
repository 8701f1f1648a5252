import SectionedConfig.Proofs.Name
import SectionedConfig.Proofs.Sheet.Decoding
import SectionedConfig.Proofs.Sheet.Reading
import SectionedConfig.Proofs.Value.Lists

/-!
# Texts of one line

A text whose only line is an assignment makes a map of one entry. White space around the key, the
equals sign and the value, a comment behind them and the line feed at the end make no difference, if
the value leaves no quotation mark open. So a list in brackets is the list of its items, however
they are spaced and whether or not they stand between quotation marks.
-/

namespace SectionedConfig

open Text

/-- How an assignment stands on the only line of a text. -/
structure LineLayout where
  /-- The white space in front of the key. -/
  lead : Gap
  beforeSign : Gap
  afterSign : Gap
  /-- The white space behind the value. -/
  tail : Gap
  /-- What a comment behind the value says. -/
  remark : Option (List Char)
  /-- Whether a line feed ends the line. -/
  terminated : Bool
  unbroken : ∀ text ∈ remark, '\n' ∉ text

namespace LineLayout

/-- A value with the white space around it. -/
def spaced (layout : LineLayout) (value : List Char) : List Char :=
  layout.afterSign.text ++ value ++ layout.tail.text

/-- The line without its line feed. -/
def content (layout : LineLayout) (key value : List Char) : List Char :=
  layout.lead.text ++ key ++ layout.beforeSign.text ++
    '=' :: (layout.spaced value ++ layout.remark.elim [] ('#' :: ·))

/-- The text whose only line assigns a value to a key. -/
def text (layout : LineLayout) (key : String) (value : List Char) : String :=
  String.ofList
    (layout.content key.toList value ++ if layout.terminated then ['\n'] else [])

variable {layout : LineLayout} {key : List Char} {form : ValueForm}

/-- The comment is cut off behind the value. -/
theorem cutComment_spaced (layout : LineLayout) {value : List Char} (h : SelfContained value) :
    cutComment false (layout.spaced value ++ layout.remark.elim [] ('#' :: ·)) =
      (layout.spaced value, layout.remark) := by
  have hspaced : SelfContained (layout.spaced value) :=
    (layout.afterSign.selfContained.append h).append layout.tail.selfContained
  rw [cutComment_append hspaced.uncommented, hspaced.closed]
  cases layout.remark <;> simp [cutComment]

/-- The line says what is assigned, and what the comment says if there is one. -/
theorem of?_content (layout : LineLayout) (hkey : IsNameText key) (hform : form.WellFormed)
    (hclosed : quotesAfter false form.written = false) :
    Clause.of? (layout.content key form.written) =
      some (.assignment key form (layout.remark.map trim)) := by
  have hvalue : ValueForm.of? (layout.spaced form.written) = some form :=
    ValueForm.of?_append_append hform.recognisable layout.afterSign.blank layout.tail.blank
  rw [content, Clause.of?_assignment hkey layout.lead.blank layout.beforeSign.blank,
    layout.cutComment_spaced ⟨hform.uncommented, hclosed⟩, hvalue]
  rfl

theorem notMem_content (layout : LineLayout) (hkey : IsNameText key) (hform : form.WellFormed) :
    '\n' ∉ layout.content key form.written := by
  have hremark : '\n' ∉ layout.remark.elim [] ('#' :: ·) := by
    cases hremark : layout.remark with
    | none => simp
    | some text => simpa using layout.unbroken text hremark
  simp [content, spaced, layout.lead.unbroken, layout.beforeSign.unbroken,
    layout.afterSign.unbroken, layout.tail.unbroken, hkey.unbroken, hform.unbroken, hremark]

end LineLayout

/-! ## Reading one line -/

/-- The text of a line that ends with a line feed or without one has the tokens of its clause. -/
theorem Sheet.exists_checked_line {content : List Char} {clause : Clause}
    (h : Clause.of? content = some clause) (hne : content ≠ []) (hunbroken : '\n' ∉ content)
    (terminated : Bool) :
    ∃ (sheet : Sheet) (tokens : List Token), sheet.clauses = [clause] ∧
      (TokenStream.ofText
        (String.ofList (content ++ if terminated then ['\n'] else []))).checked = .ok tokens ∧
      tokens.map Token.withoutOffset = Batch.startOfFile :: sheet.tokens ++ [.endOfFile] := by
  cases terminated with
  | true =>
    let sheet : Sheet := ⟨[clause], none⟩
    have hsheet : sheet.IsOf [content] [] := ⟨.cons h .nil, .blank, rfl, rfl⟩
    have htext : (String.ofList (content ++ ['\n'])).toList =
        [content].flatMap (· ++ ['\n']) ++ [] := by
      simp
    obtain ⟨tokens, hchecked, htokens⟩ := TokenStream.checked_of_isOf hsheet htext
      (List.forall_mem_singleton.mpr hunbroken) List.not_mem_nil
    exact ⟨sheet, tokens, rfl, hchecked, htokens⟩
  | false =>
    let sheet : Sheet := ⟨[], some clause⟩
    have hsheet : sheet.IsOf [] content := ⟨.nil, clause, h, (if_neg hne).symm⟩
    have htext : (String.ofList (content ++ [])).toList =
        [].flatMap (· ++ ['\n']) ++ content := by
      simp
    obtain ⟨tokens, hchecked, htokens⟩ :=
      TokenStream.checked_of_isOf hsheet htext (List.forall_mem_nil _) hunbroken
    exact ⟨sheet, tokens, rfl, hchecked, htokens⟩

namespace ConfigMap

/-- A line with an assignment makes its entry. -/
theorem ofText_line (layout : LineLayout) {key : String} (hkey : IsNameText key.toList)
    {form : ValueForm} (hform : form.WellFormed)
    (hclosed : quotesAfter false form.written = false) :
    ofText (layout.text key form.written) =
      (Assignment.entry ⟨none, ⟨.identifier, key, some ⟨1, 0⟩, none, false⟩,
        form.lexeme.onLine 1⟩).map fun entry ↦ .ofList [entry] := by
  obtain ⟨sheet, tokens, hclauses, hchecked, htokens⟩ := Sheet.exists_checked_line
    (layout.of?_content hkey hform hclosed) (by simp [LineLayout.content])
    (layout.notMem_content hkey hform) layout.terminated
  rw [ofText, ofStream, LineLayout.text, hchecked]
  change ofTokens tokens = _
  rw [ofTokens_of_sheet htokens, hclauses]
  have hkeyToken : Lexeme.onLine 1 ⟨.identifier, key.toList, 0, false⟩ =
      ⟨.identifier, key, some ⟨1, 0⟩, none, false⟩ := by
    simp [Lexeme.toToken]
  simp only [Sheet.assignmentsOf, Clause.assignments, hkeyToken, List.append_nil, List.mapM_cons,
    List.mapM_nil]
  cases Assignment.entry _ <;> rfl

/-- A line with a list in brackets makes an entry with what the brackets read as. -/
theorem ofText_line_bracketed (layout : LineLayout) {key : String} (hkey : IsNameText key.toList)
    {inside : List Char} (h : SelfContained inside) (hunbroken : '\n' ∉ inside) :
    (ofText (layout.text key (bracketed inside))).map OrderedMap.entries =
      .ok [(key, .ofText (String.ofList (bracketed inside)))] := by
  have hline := ofText_line layout hkey (ValueForm.wellFormed_bracketed h hunbroken)
    h.bracketed.closed
  rw [show bracketed inside = (ValueForm.list (bracketed inside)).written from rfl, hline]
  rfl

/-- A list in brackets on a line of its own is the list of the texts of its items, however they are
spaced, whether or not they stand between quotation marks, and whatever a comment behind the list
says. With nothing but white space between the brackets it is the empty list. -/
theorem ofText_line_list {key : String} (hkey : IsNameText key.toList) (layout : LineLayout) :
    (∀ items : List ListItem, items ≠ [] →
      (∀ item, items = [item] → item.text = "" → item.quoted = true) →
      (ofText (layout.text key (bracketed (ListItem.joined items)))).map OrderedMap.entries =
        .ok [(key, .list (items.map ListItem.text))]) ∧
    ∀ gap : Gap, (ofText (layout.text key (bracketed gap.text))).map OrderedMap.entries =
      .ok [(key, .emptyList)] := by
  constructor
  · intro items hne hsingle
    rw [ofText_line_bracketed layout hkey (ListItem.selfContained_joined items),
      Value.ofText_bracketed_joined hne hsingle]
    exact ListItem.notMem_joined (by decide) (by decide) (by decide)
  · intro gap
    rw [ofText_line_bracketed layout hkey gap.selfContained gap.unbroken,
      Value.ofText_bracketed_of_blank gap.blank]

/-- Items with a number sign between quotation marks, without any text, and with a space inside, and
a comment that looks like the rest of a list. -/
theorem ofText_line_list_mixed :
    IsNameText "k".toList ∧
      (ofText " k= [ \"a#b\",,c d ,\t\"\"]# , e]").map OrderedMap.entries =
        .ok [("k", .list ["a#b", "", "c d", ""])] ∧
      (ofText " k= [\t]# , e]").map OrderedMap.entries = .ok [("k", .emptyList)] := by
  have hkey : IsNameText "k".toList := (nameFault?_eq_none_iff.mp (by decide)).isNameText
  let tab : Gap := ⟨['\t'], by decide, by decide⟩
  let layout : LineLayout := ⟨.space, .none, .space, .none, some " , e]".toList, false, by decide⟩
  let items : List ListItem := [
    ⟨"a#b", true, .space, .none, by simp [listMarks], by decide, by decide⟩,
    ⟨"", false, .none, .none, by simp [listMarks], by decide, by decide⟩,
    ⟨"c d", false, .none, .space, by simp [listMarks], by decide, by decide⟩,
    ⟨"", true, tab, .none, by simp [listMarks], by decide, by decide⟩]
  have hlistText : layout.text "k" (bracketed (ListItem.joined items)) =
      " k= [ \"a#b\",,c d ,\t\"\"]# , e]" := by
    decide
  have hemptyText : layout.text "k" (bracketed tab.text) = " k= [\t]# , e]" := by decide
  obtain ⟨hlist, hempty⟩ := ofText_line_list hkey layout
  rw [← hlistText, ← hemptyText]
  exact ⟨hkey, hlist items (List.cons_ne_nil _ _) (by simp [items]), hempty tab⟩

end ConfigMap

end SectionedConfig

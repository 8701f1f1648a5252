import Mathlib.Data.List.DropRight
import SectionedConfig.Proofs.Sheet.Reading

/-!
# Rendering what was read

Rendering the tokens of an accepted text normalises its layout and nothing else: reading the
rendered text finds the same tokens on the same lines. Only a last line that is blank and lacks a
line feed is lost, because nothing is written for it. A text that was rendered is rendered as
itself.
-/

namespace SectionedConfig

open Layout Text

/-! ## Offsets are not rendered -/

theorem Layout.tokenText_withoutOffset (cursor : Cursor) (token : Token) (next : Option Token) :
    tokenText cursor token.withoutOffset (next.map Token.withoutOffset) =
      tokenText cursor token next := by
  have hnext : (next.map Token.withoutOffset).any isRemark = next.any isRemark := by
    cases next <;> rfl
  unfold tokenText
  rw [hnext, Token.failure?_withoutOffset]
  rfl

theorem Layout.textFrom_map_withoutOffset (cursor : Cursor) (tokens : List Token) :
    textFrom cursor (tokens.map Token.withoutOffset) = textFrom cursor tokens := by
  induction tokens generalizing cursor with
  | nil => rfl
  | cons token rest ih =>
    rw [List.map_cons, textFrom, textFrom, List.head?_map, tokenText_withoutOffset, ih]
    rfl

theorem render_map_withoutOffset (tokens : List Token) :
    render (tokens.map Token.withoutOffset) = render tokens := by
  rw [render, render, textFrom_map_withoutOffset]

/-- Tokens that differ from those of a sheet in their offsets are rendered as the sheet. -/
theorem Sheet.render_of_map_withoutOffset {sheet : Sheet} {tokens : List Token}
    (h : tokens.map Token.withoutOffset = Batch.startOfFile :: sheet.tokens ++ [.endOfFile]) :
    render tokens = .ok (String.ofList sheet.text) := by
  rw [← render_map_withoutOffset, h]
  exact sheet.render_tokens [Batch.startOfFile] (by simp [Batch.startOfFile])

/-! ## Reading a written sheet -/

namespace Sheet

/-- A sheet without a last line that says nothing. -/
def settled (sheet : Sheet) : Sheet :=
  { sheet with last := if sheet.last = some .blank then none else sheet.last }

/-- Nothing is written for a last line that says nothing. -/
theorem text_settled (sheet : Sheet) : sheet.settled.text = sheet.text := by
  unfold text lastContent settled
  by_cases hblank : sheet.last = some .blank
  · simp [hblank, Clause.text]
  · rw [if_neg hblank]

theorem notMem_contentsOf {clauses : List Clause} (h : ∀ clause ∈ clauses, clause.WellFormed)
    (inside : Bool) : ∀ content ∈ contentsOf inside clauses, '\n' ∉ content := by
  induction clauses generalizing inside with
  | nil => simp [contentsOf]
  | cons clause rest ih =>
    obtain ⟨hclause, hrest⟩ := List.forall_mem_cons.mp h
    exact List.forall_mem_cons.mpr ⟨Clause.notMem_text hclause _, ih hrest _⟩

theorem notMem_lastContent {sheet : Sheet} (h : sheet.WellFormed) : '\n' ∉ sheet.lastContent := by
  unfold lastContent
  cases hlast : sheet.last with
  | none => simp
  | some clause => exact Clause.notMem_text (h.last clause hlast) _

/-- Written lines have the clauses that they were written for. -/
theorem forall₂_contentsOf {clauses : List Clause} (h : ∀ clause ∈ clauses, clause.WellFormed)
    (inside : Bool) :
    List.Forall₂ (fun content clause ↦ Clause.of? content = some clause)
      (contentsOf inside clauses) clauses := by
  induction clauses generalizing inside with
  | nil => exact .nil
  | cons clause rest ih =>
    obtain ⟨hclause, hrest⟩ := List.forall_mem_cons.mp h
    exact .cons (Clause.of?_text hclause _) (ih hrest _)

/-- The lines of a written sheet make up the sheet. -/
theorem isOf_written {sheet : Sheet} (h : sheet.WellFormed) :
    sheet.settled.IsOf (contentsOf false sheet.lines) sheet.lastContent := by
  constructor
  · exact forall₂_contentsOf h.lines false
  · unfold lastContent settled
    cases hlast : sheet.last with
    | none => exact ⟨.blank, rfl, rfl⟩
    | some clause =>
      refine ⟨clause, Clause.of?_text (h.last clause hlast) _, ?_⟩
      simp [Clause.text_eq_nil_iff]

/-- Reading a well-formed sheet that has been written gives it back. -/
theorem checked_text {sheet : Sheet} (h : sheet.WellFormed) :
    ∃ tokens, (TokenStream.ofText (String.ofList sheet.text)).checked = .ok tokens ∧
      tokens.map Token.withoutOffset =
        Batch.startOfFile :: sheet.settled.tokens ++ [.endOfFile] :=
  TokenStream.checked_of_isOf (isOf_written h) (String.toList_ofList)
    (notMem_contentsOf h.lines false) (notMem_lastContent h)

end Sheet

/-! ## The round trip -/

/-- What stands behind the last line feed of a text. -/
def behindLastFeed (text : String) : List Char :=
  text.toList.rtakeWhile (· ≠ '\n')

/-- The text ends with a line that is blank and lacks a line feed. -/
def EndsInBlankLine (text : String) : Prop :=
  behindLastFeed text ≠ [] ∧ Blank (behindLastFeed text)

variable {text : String} {contents : List (List Char)} {last : List Char}

theorem behindLastFeed_eq (h : text.toList = contents.flatMap (· ++ ['\n']) ++ last)
    (hlast : '\n' ∉ last) : behindLastFeed text = last := by
  have hstay : ∀ c ∈ last.reverse, decide (c ≠ '\n') = true := by
    intro c hc
    rw [decide_eq_true_eq]
    rintro rfl
    exact hlast (List.mem_reverse.mp hc)
  have hstop : (contents.flatMap (· ++ ['\n'])).reverse.takeWhile (· ≠ '\n') = [] := by
    rcases contents.eq_nil_or_concat with rfl | ⟨front, content, rfl⟩
    · rfl
    · simp
  rw [behindLastFeed, List.rtakeWhile, h, List.reverse_append,
    List.takeWhile_append_of_pos hstay, hstop, List.append_nil, List.reverse_reverse]

/-- The sheet of a text ends with an empty clause if the text ends with a blank line that lacks a
line feed. -/
theorem Sheet.IsOf.last_eq_blank_iff {sheet : Sheet} (h : sheet.IsOf contents last)
    (htext : text.toList = contents.flatMap (· ++ ['\n']) ++ last) (hlast : '\n' ∉ last) :
    sheet.last = some .blank ↔ EndsInBlankLine text := by
  obtain ⟨clause, hclause, hfinal⟩ := h.last
  rw [EndsInBlankLine, behindLastFeed_eq htext hlast, hfinal, ← Clause.of?_eq_blank_iff, hclause]
  simp

theorem Token.eq_endOfFile_of_withoutOffset {token : Token}
    (h : token.withoutOffset = .endOfFile) : token = .endOfFile := by
  obtain ⟨kind, value, position, error, unquoted⟩ := token
  cases position with
  | none => exact h
  | some position => cases h

/-- The empty end of a blank last line stands in front of the end of the file. -/
theorem Sheet.exists_eq_append_stop {sheet : Sheet} (hblank : sheet.last = some .blank)
    {tokens : List Token}
    (h : tokens.map Token.withoutOffset = Batch.startOfFile :: sheet.tokens ++ [.endOfFile]) :
    ∃ front stop, tokens = front ++ [stop, .endOfFile] ∧ stop.kind = .endOfStatement ∧
      stop.value = "" ∧ front.map Token.withoutOffset =
        Batch.startOfFile :: sheet.settled.tokens := by
  have hlines : sheet.tokens = sheet.settled.tokens ++
      [Lexeme.onLine (sheet.lines.length + 1) (endLexeme false 0)] := by
    simp [Sheet.tokens, settled, hblank, Clause.tokens, Clause.lineLexemes, Clause.lexemes]
  rw [hlines, ← List.cons_append, List.append_assoc] at h
  obtain ⟨front, tail, rfl, hfront, htail⟩ := List.map_eq_append_iff.mp h
  obtain ⟨stop, other, rfl, hstop, hother⟩ := List.map_eq_cons_iff.mp htail
  obtain ⟨final, none, rfl, hfinal, hnone⟩ := List.map_eq_cons_iff.mp hother
  rw [List.map_eq_nil_iff] at hnone
  obtain rfl := Token.eq_endOfFile_of_withoutOffset hfinal
  refine ⟨front, stop, by rw [hnone], ?_, ?_, hfront⟩
  · exact congrArg Token.kind hstop
  · exact congrArg Token.value hstop

/-- Rendering the tokens of an accepted text and reading the result gives the same tokens on the
same lines, and rendering them again gives the same text. The only token that can be lost is the
empty end of a blank last line without a line feed. -/
theorem checked_render {tokens : List Token} (h : (TokenStream.ofText text).checked = .ok tokens) :
    ∃ rendered reread, render tokens = .ok rendered ∧
      (TokenStream.ofText rendered).checked = .ok reread ∧ render reread = .ok rendered ∧
      (¬ EndsInBlankLine text →
        reread.map Token.withoutOffset = tokens.map Token.withoutOffset) ∧
      (EndsInBlankLine text →
        ∃ front stop, tokens = front ++ [stop, .endOfFile] ∧ stop.kind = .endOfStatement ∧
          stop.value = "" ∧
          reread.map Token.withoutOffset = (front ++ [.endOfFile]).map Token.withoutOffset) := by
  obtain ⟨contents, last, hcontents, hlast, htext⟩ := Line.exists_contents '\n' text.toList
  obtain ⟨sheet, hsheet⟩ := TokenStream.exists_isOf_of_checked h htext hcontents hlast
  obtain ⟨same, hsame, htokens⟩ := TokenStream.checked_of_isOf hsheet htext hcontents hlast
  obtain rfl : tokens = same := Except.ok.inj (h.symm.trans hsame)
  obtain ⟨reread, hreread, hagain⟩ := Sheet.checked_text (hsheet.wellFormed hcontents hlast)
  have hblank := hsheet.last_eq_blank_iff htext hlast
  have hstart : ∀ token ∈ [Batch.startOfFile], token.kind = .startOfFile := by
    simp [Batch.startOfFile]
  refine ⟨String.ofList sheet.text, reread, ?_, hreread, ?_, fun hends ↦ ?_, fun hends ↦ ?_⟩
  · rw [← render_map_withoutOffset, htokens]
    exact sheet.render_tokens [Batch.startOfFile] hstart
  · rw [← render_map_withoutOffset, hagain, ← sheet.text_settled]
    exact sheet.settled.render_tokens [Batch.startOfFile] hstart
  · rw [hagain, htokens, Sheet.settled, if_neg (hblank.not.mpr hends)]
  · obtain ⟨front, stop, hfront, hkind, hvalue, hmap⟩ :=
      Sheet.exists_eq_append_stop (hblank.mpr hends) htokens
    refine ⟨front, stop, hfront, hkind, hvalue, ?_⟩
    rw [hagain, List.map_append, hmap]
    rfl

/-- A list with a number sign between quotation marks, missing indentation, and a blank last line
that is lost. -/
theorem checked_render_untidy :
    ∃ tokens reread front stop,
      (TokenStream.ofText "s \x7b\n k=[\"a#\" ]# c\n\x7d\n\t").checked = .ok tokens ∧
      render tokens = .ok "s \x7b\n\tk = [\"a#\" ] # c\n\x7d\n" ∧
      (TokenStream.ofText "s \x7b\n\tk = [\"a#\" ] # c\n\x7d\n").checked = .ok reread ∧
      EndsInBlankLine "s \x7b\n k=[\"a#\" ]# c\n\x7d\n\t" ∧ tokens = front ++ [stop, .endOfFile] ∧
      reread.map Token.withoutOffset = (front ++ [.endOfFile]).map Token.withoutOffset := by
  have hchecked : (TokenStream.ofText "s \x7b\n k=[\"a#\" ]# c\n\x7d\n\t").checked =
      .ok (TokenStream.ofText "s \x7b\n k=[\"a#\" ]# c\n\x7d\n\t").tokens := by decide
  have hends : EndsInBlankLine "s \x7b\n k=[\"a#\" ]# c\n\x7d\n\t" := by
    constructor <;> decide
  obtain ⟨rendered, reread, hrender, hreread, _, _, hblank⟩ := checked_render hchecked
  obtain ⟨front, stop, hfront, _, _, hmap⟩ := hblank hends
  have hsame : render (TokenStream.ofText "s \x7b\n k=[\"a#\" ]# c\n\x7d\n\t").tokens =
      .ok "s \x7b\n\tk = [\"a#\" ] # c\n\x7d\n" := by decide
  obtain rfl : rendered = "s \x7b\n\tk = [\"a#\" ] # c\n\x7d\n" :=
    Except.ok.inj (hrender.symm.trans hsame)
  exact ⟨_, reread, front, stop, hchecked, hsame, hreread, hends, hfront, hmap⟩

end SectionedConfig

import SectionedConfig.Proofs.Document.Assembly
import SectionedConfig.Proofs.Document.Building
import SectionedConfig.Proofs.OrderedMap
import SectionedConfig.Proofs.Sheet.Extension

/-!
# Appending to a document

Statements that are added to the document of a text, on lines of their own, are rendered behind it.
The rendered text is decoded as the text is, with the entries of the statements inserted after it,
unless the text ends with an assignment or a comment that no line feed ends. The document keeps an
empty end for such a line, and nothing is rendered for it: the first statement is rendered on that
line and becomes part of the value or of the remark.
-/

namespace SectionedConfig

open Assignment Layout Statement Text

/-- A token without its place. -/
def Token.unplaced (token : Token) : Token :=
  { token with position := none }

/-! ## The tokens of a sheet -/

namespace Clause

theorem map_unplaced_tokens (number : Nat) (terminated : Bool) (clause : Clause) :
    (clause.tokens number terminated).map Token.unplaced =
      (clause.lineLexemes terminated).map Lexeme.fresh :=
  List.map_map

theorem map_unplaced_freshTokens (clauses : List Clause) :
    (clauses.flatMap freshTokens).map Token.unplaced = clauses.flatMap freshTokens := by
  have hclause (clause : Clause) :
      clause.freshTokens.map Token.unplaced = clause.freshTokens := List.map_map
  simp only [List.map_flatMap, hclause]

/-- The tokens of a line stand inside the file, and they open the section that the clause leaves
open. -/
theorem tokens_spec (number : Nat) (terminated : Bool) (clause : Clause)
    (enclosing : Option String) :
    (∀ token ∈ clause.tokens number terminated, token.IsInner) ∧
      (clause.tokens number terminated).foldl Token.enclosingAfter enclosing =
        clause.enclosingAfter enclosing := by
  have hinner {lexeme : Lexeme} (hstart : lexeme.kind ≠ .startOfFile)
      (hend : lexeme.kind ≠ .endOfFile) : (Lexeme.onLine number lexeme).IsInner := ⟨hstart, hend⟩
  induction clause generalizing enclosing with
  | blank => exact ⟨List.forall_mem_singleton.mpr (hinner nofun nofun), rfl⟩
  | opening name rest ih =>
    obtain ⟨hrest, hfold⟩ := ih (some (String.ofList name))
    exact ⟨List.forall_mem_cons.mpr ⟨hinner nofun nofun,
      List.forall_mem_cons.mpr ⟨hinner nofun nofun, hrest⟩⟩, hfold⟩
  | closing rest ih =>
    obtain ⟨hrest, hfold⟩ := ih none
    exact ⟨List.forall_mem_cons.mpr ⟨hinner nofun nofun, hrest⟩, hfold⟩
  | assignment key value remark =>
    cases value <;> cases remark <;>
      simp [tokens, lineLexemes, lexemes, remarkLexemes, ValueForm.lexeme, ValueForm.kind,
        Lexeme.toToken, endLexeme, Token.IsInner, Token.enclosingAfter, enclosingAfter]
  | comment text =>
    simp [tokens, lineLexemes, lexemes, remarkLexemes, Lexeme.toToken, endLexeme, Token.IsInner,
      Token.enclosingAfter, enclosingAfter]

end Clause

namespace Sheet

theorem tokensOf_spec (number : Nat) (clauses : List Clause) (enclosing : Option String) :
    (∀ token ∈ tokensOf number clauses, token.IsInner) ∧
      (tokensOf number clauses).foldl Token.enclosingAfter enclosing =
        clauses.foldl Clause.enclosingAfter enclosing := by
  induction clauses generalizing number enclosing with
  | nil => simp [tokensOf]
  | cons clause rest ih =>
    obtain ⟨hclause, hfold⟩ := clause.tokens_spec number true enclosing
    obtain ⟨hrest, hfolds⟩ := ih (number + 1) (clause.enclosingAfter enclosing)
    rw [tokensOf, List.foldl_append, hfold]
    exact ⟨List.forall_mem_append.mpr ⟨hclause, hrest⟩, hfolds⟩

/-- The tokens of a sheet stand inside the file, and they open the section that its last clause
leaves open. -/
theorem tokens_spec (sheet : Sheet) (enclosing : Option String) :
    (∀ token ∈ sheet.tokens, token.IsInner) ∧
      sheet.tokens.foldl Token.enclosingAfter enclosing =
        sheet.clauses.foldl Clause.enclosingAfter enclosing := by
  obtain ⟨hlines, hfold⟩ := tokensOf_spec 1 sheet.lines enclosing
  rw [tokens, clauses, List.foldl_append, List.foldl_append, hfold]
  cases sheet.last with
  | none => exact ⟨by simpa using hlines, rfl⟩
  | some clause =>
    obtain ⟨hlast, hfold⟩ := clause.tokens_spec (sheet.lines.length + 1) false
      (sheet.lines.foldl Clause.enclosingAfter enclosing)
    exact ⟨List.forall_mem_append.mpr ⟨hlines, hlast⟩, hfold⟩

theorem map_unplaced_tokensOf (number : Nat) (clauses : List Clause) :
    (tokensOf number clauses).map Token.unplaced = clauses.flatMap Clause.freshTokens := by
  induction clauses generalizing number with
  | nil => rfl
  | cons clause rest ih =>
    rw [tokensOf, List.map_append, ih, Clause.map_unplaced_tokens]
    rfl

theorem map_unplaced_tokens (sheet : Sheet) :
    sheet.tokens.map Token.unplaced = sheet.lines.flatMap Clause.freshTokens ++
      sheet.last.elim [] fun clause ↦ (clause.lineLexemes false).map Lexeme.fresh := by
  rw [tokens, List.map_append, map_unplaced_tokensOf]
  cases sheet.last with
  | none => rfl
  | some clause => rw [Option.elim_some, Option.elim_some, Clause.map_unplaced_tokens]

/-- Tokens that differ from those of a sheet in their offsets stand between the start and the end of
the file. -/
theorem exists_eq_start_append {sheet : Sheet} {tokens : List Token}
    (h : tokens.map Token.withoutOffset = Batch.startOfFile :: sheet.tokens ++ [.endOfFile]) :
    ∃ start inner, tokens = start :: (inner ++ [.endOfFile]) ∧ start.kind = .startOfFile ∧
      inner.map Token.withoutOffset = sheet.tokens := by
  obtain ⟨front, back, rfl, hfront, hback⟩ := List.map_eq_append_iff.mp h
  obtain ⟨start, inner, rfl, hstart, hinner⟩ := List.map_eq_cons_iff.mp hfront
  obtain ⟨stop, behind, rfl, hstop, hbehind⟩ := List.map_eq_cons_iff.mp hback
  obtain rfl := Token.eq_endOfFile_of_withoutOffset hstop
  obtain rfl := List.map_eq_nil_iff.mp hbehind
  exact ⟨start, inner, rfl, congrArg Token.kind hstart, hinner⟩

end Sheet

namespace Document

/-- Only the numbers of the lines are left where tokens have been numbered. -/
theorem map_withoutOffset_numberLines (number : Nat) (tokens : List Token) :
    (numberLines number tokens).map Token.withoutOffset =
      numberLines number (tokens.map Token.unplaced) := by
  induction tokens generalizing number with
  | nil => rfl
  | cons token rest ih => exact congrArg _ (ih _)

theorem statements_foldl_pushLine (document : Document) (appended : List Statement) :
    (appended.foldl pushLine document).statements = document.statements ++ onLines appended := by
  induction appended generalizing document with
  | nil => exact (List.append_nil _).symm
  | cons statement rest ih =>
    rw [List.foldl_cons, ih]
    simp [pushLine, push, onLines]

/-- The document has the tokens of the sheet, wherever they stand. -/
def HasTokens (document : Document) (sheet : Sheet) : Prop :=
  (tokensOf document.statements).map Token.unplaced = sheet.tokens.map Token.unplaced

variable {document : Document} {sheet : Sheet} {appended : List Statement} {clauses : List Clause}

/-- The tokens of lines that are put behind a document come behind its own. -/
theorem HasTokens.exists_numberLines (h : document.HasTokens sheet)
    (htokens : tokensOf (onLines appended) = clauses.flatMap Clause.freshTokens) :
    ∃ number, (numberLines 1
      (tokensOf (appended.foldl pushLine document).statements)).map Token.withoutOffset =
        sheet.tokens ++ Sheet.tokensOf number clauses := by
  rw [map_withoutOffset_numberLines, statements_foldl_pushLine, tokensOf_append, htokens,
    List.map_append, h, Clause.map_unplaced_freshTokens, Sheet.map_unplaced_tokens,
    List.append_assoc, numberLines_append_flatMap, Nat.add_comm 1, Sheet.tokens]
  cases sheet.last with
  | none =>
    refine ⟨sheet.lines.length + 1, ?_⟩
    rw [Option.elim_none, Option.elim_none, List.nil_append, List.append_nil, numberLines_flatMap]
  | some clause =>
    refine ⟨sheet.lines.length + 1 + 1, ?_⟩
    rw [Option.elim_some, Option.elim_some, numberLines_lineLexemes, numberLines_flatMap,
      List.append_assoc]

/-- Lines that are put behind a document are rendered behind its text. -/
theorem HasTokens.render_append (h : document.HasTokens sheet)
    (htokens : tokensOf (onLines appended) = clauses.flatMap Clause.freshTokens) :
    (appended.foldl pushLine document).render =
      .ok (String.ofList (sheet.extendedText clauses)) := by
  obtain ⟨number, hnumbered⟩ := h.exists_numberLines htokens
  rw [render_eq, ← render_map_withoutOffset, List.map_append, hnumbered]
  exact (sheet.writes_tokens.append (Sheet.writes_tokensOf number _ clauses)).render_eq

/-- A document is rendered as the sheet that has its tokens. -/
theorem HasTokens.render_eq (h : document.HasTokens sheet) :
    document.render = .ok (String.ofList sheet.text) := by
  have hrender : (([] : List Statement).foldl pushLine document).render =
      .ok (String.ofList (sheet.extendedText [])) := h.render_append rfl
  rwa [Sheet.extendedText, Sheet.contentsOf, List.flatMap_nil, List.append_nil] at hrender

/-- What is rendered is decoded as the document and then the lines. -/
theorem HasTokens.ofText_render_append (h : document.HasTokens sheet) (hsheet : sheet.WellFormed)
    (hopen : sheet.clauses.foldl Clause.enclosingAfter none = none)
    (hclosed : clauses ≠ [] → sheet.final.Closed) (hlines : HaveLines none appended clauses)
    {entries others : List (String × Value)}
    (hentries : (Sheet.assignmentsOf 1 none sheet.clauses).mapM entry = .ok entries)
    (hothers : (Sheet.assignmentsOf 1 none clauses).mapM entry = .ok others) :
    ∃ rendered, (appended.foldl pushLine document).render = .ok rendered ∧
      ConfigMap.ofText rendered = .ok (.ofList (entries ++ others)) := by
  obtain ⟨tokens, hchecked, htokens⟩ :=
    Sheet.checked_extendedText hsheet hlines.wellFormed hclosed
  refine ⟨_, h.render_append hlines.tokens, ?_⟩
  have hall := Sheet.mapM_entry_extend hclosed hopen hentries hothers
  rw [ConfigMap.ofText, ConfigMap.ofStream, hchecked]
  change ConfigMap.ofTokens tokens = _
  rw [ConfigMap.ofTokens_of_sheet htokens, hall]
  rfl

/-- The document of the tokens of a sheet has these tokens, and the sheet leaves no section open. -/
theorem hasTokens_of_ofTokens {tokens : List Token} (h : ofTokens tokens = .ok document)
    (htokens : tokens.map Token.withoutOffset =
      Batch.startOfFile :: sheet.tokens ++ [.endOfFile]) :
    document.HasTokens sheet ∧ sheet.clauses.foldl Clause.enclosingAfter none = none := by
  obtain ⟨hstatements, hopen⟩ := ofTokens_spec h
  obtain ⟨start, inner, rfl, hstart, hinner⟩ := Sheet.exists_eq_start_append htokens
  obtain ⟨hsheet, hfold⟩ := sheet.tokens_spec none
  have hbody : body (start :: (inner ++ [.endOfFile])) = inner := by
    have hkinds : ∀ token ∈ inner, token.IsInner := fun token htoken ↦
      hsheet token.withoutOffset (hinner ▸ List.mem_map_of_mem htoken)
    have hend : ∀ token ∈ [Token.endOfFile].head?, token.kind = .endOfFile := by
      intro token htoken
      obtain rfl : Token.endOfFile = token := Option.some.inj htoken
      rfl
    rw [body_cons_of_start hstart, body_append hkinds, body_of_stop hend, List.append_nil]
  rw [hbody] at hstatements hopen
  constructor
  · rw [HasTokens, hstatements, ← hinner, List.map_map]
    rfl
  · rw [← hfold, ← hinner, List.foldl_map]
    exact hopen

end Document

/-- What stands behind the last line feed of the text is blank or ends behind a brace. -/
def EndsClosed (text : String) : Prop :=
  ∀ clause, Clause.of? (behindLastFeed text) = some clause → clause.Closed

theorem Sheet.IsOf.closed_final {sheet : Sheet} {text : String} {contents : List (List Char)}
    {last : List Char} (h : sheet.IsOf contents last)
    (htext : text.toList = contents.flatMap (· ++ ['\n']) ++ last) (hlast : '\n' ∉ last)
    (hclosed : EndsClosed text) : sheet.final.Closed := by
  obtain ⟨clause, hclause, hsheet⟩ := h.last
  rw [final, hsheet]
  split
  next => exact trivial
  next =>
    rw [← behindLastFeed_eq htext hlast] at hclause
    exact hclosed clause hclause

/-- Built statements that are put behind the document of a text, on lines of their own, add their
entries and change nothing else, unless the text ends with an assignment or a comment that no line
feed ends. -/
theorem Document.ofText_render_pushLine {text : String} {tokens : List Token} {document : Document}
    {map : ConfigMap} {appended : List Statement}
    (hchecked : (TokenStream.ofText text).checked = .ok tokens)
    (hdocument : ofTokens tokens = .ok document) (hmap : ConfigMap.ofText text = .ok map)
    (hbuilt : ∀ statement ∈ appended, statement.Built) (hclosed : appended ≠ [] → EndsClosed text) :
    ∃ rendered alone added,
      (appended.foldl pushLine document).render = .ok rendered ∧
      (appended.foldl pushLine .empty).render = .ok alone ∧
      ConfigMap.ofText alone = .ok added ∧
      ConfigMap.ofText rendered = .ok (map.insertAll added.entries) := by
  obtain ⟨contents, last, hcontents, hlast, htext⟩ := Line.exists_contents '\n' text.toList
  obtain ⟨sheet, hsheet⟩ := TokenStream.exists_isOf_of_checked hchecked htext hcontents hlast
  obtain ⟨same, hsame, htokens⟩ := TokenStream.checked_of_isOf hsheet htext hcontents hlast
  obtain rfl : tokens = same := Except.ok.inj (hchecked.symm.trans hsame)
  obtain ⟨hdocument, hopen⟩ := hasTokens_of_ofTokens hdocument htokens
  obtain ⟨clauses, hlines⟩ := HaveLines.exists_of_forall fun statement hstatement ↦
    (hbuilt statement hstatement).haveLines
  obtain ⟨others, hothers⟩ := hlines.entries 1
  -- The entries of the text.
  rw [ConfigMap.ofText, ConfigMap.ofStream, hchecked] at hmap
  obtain ⟨entries, hentries, rfl⟩ :=
    map_eq_ok_iff.mp ((ConfigMap.ofTokens_of_sheet htokens).symm.trans hmap)
  have hfinal : clauses ≠ [] → sheet.final.Closed := by
    intro hne
    refine hsheet.closed_final htext hlast (hclosed ?_)
    rintro rfl
    exact hne hlines.eq_nil
  obtain ⟨rendered, hrendered, hdecoded⟩ := hdocument.ofText_render_append
    (hsheet.wellFormed hcontents hlast) hopen hfinal hlines hentries hothers
  -- The statements alone stand behind a document without statements.
  have hempty : Document.empty.HasTokens ⟨[], none⟩ := rfl
  have hnothing : (Sheet.assignmentsOf 1 none (⟨[], none⟩ : Sheet).clauses).mapM entry = .ok [] :=
    rfl
  obtain ⟨alone, halone, hadded⟩ := hempty.ofText_render_append ⟨by simp, by simp⟩ rfl
    (fun _ ↦ trivial) hlines hnothing hothers
  refine ⟨rendered, alone, _, hrendered, halone, hadded, ?_⟩
  rw [hdecoded, List.nil_append, OrderedMap.insertAll_entries_ofList, OrderedMap.ofList,
    OrderedMap.insertAll_append]
  rfl

/-- A string and a section with an assignment behind a closing brace. -/
theorem Document.ofText_render_pushLine_brace :
    ∃ document block rendered alone added,
      ofTokens (TokenStream.ofText "a = 1\ns \x7b\n\x7d").tokens = .ok document ∧
      [Statement.assignInt64 "a" 3].foldlM Statement.pushLine (.emptyBlock "t") = .ok block ∧
      ([.assignString "b" "#", block].foldl pushLine document).render = .ok rendered ∧
      ([.assignString "b" "#", block].foldl pushLine .empty).render = .ok alone ∧
      ConfigMap.ofText alone = .ok added ∧
      ConfigMap.ofText rendered =
        .ok ((OrderedMap.ofList [("a", Value.int64 1)]).insertAll added.entries) := by
  obtain ⟨document, hdocument⟩ : ∃ document,
      ofTokens (TokenStream.ofText "a = 1\ns \x7b\n\x7d").tokens = .ok document := ⟨_, rfl⟩
  obtain ⟨block, hblock⟩ : ∃ block,
      [Statement.assignInt64 "a" 3].foldlM Statement.pushLine (.emptyBlock "t") = .ok block :=
    ⟨_, rfl⟩
  have hbuilt : ∀ statement ∈ [Statement.assignString "b" "#", block], statement.Built := by
    refine List.forall_mem_cons.mpr ⟨.line (.string "b" "#" (by decide) (by decide)),
      List.forall_mem_singleton.mpr (.block "t" (by decide) ?_ hblock)⟩
    exact List.forall_mem_singleton.mpr (.int64 "a" 3 (by decide))
  have hends : EndsClosed "a = 1\ns \x7b\n\x7d" := by
    intro clause hclause
    have hbrace : Clause.of? (behindLastFeed "a = 1\ns \x7b\n\x7d") = some (.closing .blank) := by
      decide
    obtain rfl := Option.some.inj (hbrace.symm.trans hclause)
    exact trivial
  obtain ⟨rendered, alone, added, hrest⟩ := ofText_render_pushLine
    (show (TokenStream.ofText "a = 1\ns \x7b\n\x7d").checked = .ok _ by decide) hdocument
    (show ConfigMap.ofText "a = 1\ns \x7b\n\x7d" = .ok (.ofList [("a", Value.int64 1)]) by decide)
    hbuilt fun _ ↦ hends
  exact ⟨document, block, rendered, alone, added, hdocument, hblock, hrest⟩

/-- Behind an integer that no line feed ends, an assignment becomes part of the numeral. -/
theorem Document.render_pushLine_unended :
    (∃ tokens document, (TokenStream.ofText "a = 1").checked = .ok tokens ∧
      ofTokens tokens = .ok document ∧
      (document.pushLine (.assignInt64 "b" 2)).render = .ok "a = 1b = 2\n") ∧
    ConfigMap.ofText "a = 1" = .ok (.ofList [("a", .int64 1)]) ∧
    (Statement.assignInt64 "b" 2).Built ∧
    ConfigMap.ofText "a = 1b = 2\n" = .error (.invalidInteger "a" "1b = 2" 1) := by
  refine ⟨⟨_, _, rfl, rfl, by decide⟩, by decide, .line (.int64 "b" 2 (by decide)), by decide⟩

end SectionedConfig

import SectionedConfig.Proofs.Document.Rebuilding

/-!
# Documents that are composed

A document can be composed by hand, one line at a time: comments, assignments of integers, strings
and lists, and sections that are composed in the same way. Such a document has a sheet of its own.
It is rendered as the text of that sheet, reading the text finds the tokens that the document was
flattened into, and these are assembled as the document again.
-/

namespace SectionedConfig

open Statement Text

namespace Statement

/-- A statement that is composed to stand on one line. The text of a list is the one that a list of
such items has. -/
inductive ComposedLine : Statement → Prop where
  | built {statement : Statement} (h : statement.BuiltLine) : ComposedLine statement
  | list (key : String) {items : List String} (hkey : checkName key = .ok ())
      (hitems : ∀ item ∈ items, itemFault? item = none) :
      ComposedLine (.assignList key (Value.list items).text)
  | lineEnd : ComposedLine .lineEnd

/-- A section that lines and blocks of comments have been added to, one after the other. -/
inductive ComposedBlock : Statement → Prop where
  | empty (name : String) (hname : checkName name = .ok ()) : ComposedBlock (emptyBlock name)
  | pushLine {block line longer : Statement} (h : block.ComposedBlock) (hline : line.ComposedLine)
      (hpush : block.pushLine line = .ok longer) : ComposedBlock longer
  | remarks {block longer : Statement} (h : block.ComposedBlock) (text : String)
      (hpush : (remarkBlock text).foldlM push block = .ok longer) : ComposedBlock longer

/-- A statement that can be added to a document on a line of its own. -/
inductive Composed : Statement → Prop where
  | line {statement : Statement} (h : statement.ComposedLine) : Composed statement
  | block {statement : Statement} (h : statement.ComposedBlock) : Composed statement

end Statement

/-- A document that statements and blocks of comments have been added to, one after the other. -/
inductive Document.Composed : Document → Prop where
  | empty : Composed .empty
  | pushLine {document : Document} {statement : Statement} (h : document.Composed)
      (hstatement : statement.Composed) : Composed (document.pushLine statement)
  | remarks {document : Document} (h : document.Composed) (text : String) :
      Composed (document.pushAll (remarkBlock text))

/-! ## Lines -/

namespace Statement

/-- A block of comments is a row of lines. -/
theorem exists_onLines_remarkBlock (text : String) :
    ∃ lines, remarkBlock text = onLines lines ∧ ∀ line ∈ lines, line.ComposedLine := by
  refine ⟨(Line.cut '\n' text.toList).map fun line ↦ remark (String.ofList line.content), ?_,
    List.forall_mem_map.mpr fun line hline ↦ .built (.remark _ ?_)⟩
  · rw [onLines, List.flatMap_map]
    rfl
  · rw [String.toList_ofList]
    exact Line.notMem_content_of_mem_cut hline

namespace ComposedLine

variable {statement : Statement}

theorem isPlain (h : statement.ComposedLine) : statement.IsPlain := by
  cases h with
  | built h =>
    cases h with
    | remark text => exact .comment rfl rfl
    | int64 key number => exact .assignment rfl rfl rfl
    | string key text => exact .assignment rfl rfl rfl
  | list key => exact .assignment rfl rfl rfl
  | lineEnd => exact .newline rfl

/-- A composed line has the tokens of well-formed lines. -/
theorem haveLines (h : statement.ComposedLine) (enclosing : Option String) :
    ∃ clauses, HaveLines enclosing [statement] clauses := by
  cases h with
  | built h => exact h.haveLines enclosing
  | @list key items hkey hitems =>
    have hform := Value.wellFormed_list fun item hitem ↦
      Value.isItem_of_itemFault? (hitems item hitem)
    have hassign : assignList key (Value.list items).text =
        .assign key (ValueForm.list (Value.listText items).toList).token := by
      rw [ValueForm.token, ValueForm.text, String.ofList_toList]
      rfl
    rw [hassign]
    exact ⟨_, .assignText hkey hform (by simp [ValueForm.kind])⟩
  | lineEnd =>
    exact ⟨[.blank, .blank], ⟨rfl, by simp [Clause.WellFormed], rfl, fun _ ↦ ⟨[], rfl⟩⟩⟩

end ComposedLine

/-! ## Sections -/

/-- A composed section holds lines. -/
theorem ComposedBlock.exists_blockOfLines {statement : Statement} (h : statement.ComposedBlock) :
    ∃ name lines, checkName name = .ok () ∧ statement = Document.blockOfLines name lines ∧
      ∀ line ∈ lines, line.ComposedLine := by
  have hadd (name : String) (lines added : List Statement)
      (hadded : ∀ line ∈ added, line.ComposedLine) :
      (onLines added).foldlM push (Document.blockOfLines name lines) =
        .ok (Document.blockOfLines name (lines ++ added)) :=
    foldlM_push_blockOfLines (fun line hline ↦ (hadded line hline).isPlain.isBlock_eq_false)
      name lines
  induction h with
  | empty name hname => exact ⟨name, [], hname, rfl, by simp⟩
  | @pushLine block line longer _ hline hpush ih =>
    obtain ⟨name, lines, hname, rfl, hlines⟩ := ih
    have hadded : ∀ other ∈ [line], other.ComposedLine := List.forall_mem_singleton.mpr hline
    rw [pushLine_eq_foldlM, hadd name lines [line] hadded] at hpush
    exact ⟨name, lines ++ [line], hname, (Except.ok.inj hpush).symm,
      List.forall_mem_append.mpr ⟨hlines, hadded⟩⟩
  | @remarks block longer _ text hpush ih =>
    obtain ⟨name, lines, hname, rfl, hlines⟩ := ih
    obtain ⟨remarks, hremarks, hcomposed⟩ := exists_onLines_remarkBlock text
    rw [hremarks, hadd name lines remarks hcomposed] at hpush
    exact ⟨name, lines ++ remarks, hname, (Except.ok.inj hpush).symm,
      List.forall_mem_append.mpr ⟨hlines, hcomposed⟩⟩

namespace Composed

variable {statement : Statement}

/-- A composed statement is a line or a section that holds lines. -/
theorem cases_lines (h : statement.Composed) :
    statement.ComposedLine ∨ ∃ name lines, checkName name = .ok () ∧
      statement = Document.blockOfLines name lines ∧ ∀ line ∈ lines, line.ComposedLine := by
  cases h with
  | line h => exact .inl h
  | block h => exact .inr h.exists_blockOfLines

theorem haveLines (h : statement.Composed) : ∃ clauses, HaveLines none [statement] clauses := by
  rcases h.cases_lines with hline | ⟨name, lines, hname, rfl, hlines⟩
  · exact hline.haveLines none
  · obtain ⟨clauses, hclauses⟩ := HaveLines.exists_of_forall fun line hline ↦
      (hlines line hline).haveLines (some name)
    exact ⟨_, hclauses.block hname⟩

theorem hasKinds (h : statement.Composed) : statement.HasKinds ∧ statement.IsFlat := by
  rcases h.cases_lines with hline | ⟨name, lines, _, rfl, hlines⟩
  · exact ⟨.plain hline.isPlain, hline.isPlain.isFlat⟩
  · have hplain : ∀ child ∈ lineEnd :: onLines lines, child.IsPlain :=
      List.forall_mem_cons.mpr ⟨.newline rfl,
        forall_mem_onLines (.newline rfl) fun line hline ↦ (hlines line hline).isPlain⟩
    exact ⟨hasKinds_blockOf name fun child hchild ↦ .plain (hplain child hchild),
      fun child hchild ↦ (hplain child hchild).isBlock_eq_false⟩

end Composed

end Statement

/-! ## Documents -/

namespace Document

variable {document : Document} {sheet : Sheet} {clauses : List Clause}

/-- A composed document is a row of lines and sections. -/
theorem Composed.exists_onLines (h : document.Composed) :
    ∃ row, document.statements = onLines row ∧ ∀ statement ∈ row, statement.Composed := by
  induction h with
  | empty => exact ⟨[], rfl, by simp⟩
  | @pushLine document statement _ hstatement ih =>
    obtain ⟨row, hrow, hcomposed⟩ := ih
    refine ⟨row ++ [statement], ?_, List.forall_mem_append.mpr
      ⟨hcomposed, List.forall_mem_singleton.mpr hstatement⟩⟩
    rw [onLines_append, ← hrow]
    exact List.append_assoc document.statements [statement] [lineEnd]
  | @remarks document _ text ih =>
    obtain ⟨row, hrow, hcomposed⟩ := ih
    obtain ⟨lines, hlines, hremarks⟩ := exists_onLines_remarkBlock text
    refine ⟨row ++ lines, ?_, List.forall_mem_append.mpr
      ⟨hcomposed, fun line hline ↦ .line (hremarks line hline)⟩⟩
    rw [onLines_append, ← hrow, ← hlines]
    rfl

/-- A composed document has the tokens of well-formed lines. -/
theorem Composed.exists_clauses (h : document.Composed) :
    ∃ clauses : List Clause, (∀ clause ∈ clauses, clause.WellFormed) ∧
      tokensOf document.statements = clauses.flatMap Clause.freshTokens := by
  obtain ⟨row, hrow, hcomposed⟩ := h.exists_onLines
  obtain ⟨clauses, hlines⟩ := HaveLines.exists_of_forall fun statement hstatement ↦
    (hcomposed statement hstatement).haveLines
  exact ⟨clauses, hlines.wellFormed, hrow ▸ hlines.tokens⟩

theorem Composed.hasKinds (h : document.Composed) :
    ∀ statement ∈ document.statements, statement.HasKinds ∧ statement.IsFlat := by
  obtain ⟨row, hrow, hcomposed⟩ := h.exists_onLines
  rw [hrow]
  exact forall_mem_onLines ⟨hasKinds_lineEnd, by simp [IsFlat, Statement.children, lineEnd]⟩
    fun statement hstatement ↦ (hcomposed statement hstatement).hasKinds

theorem hasTokens_of_tokensOf_eq
    (h : tokensOf document.statements = clauses.flatMap Clause.freshTokens) :
    document.HasTokens ⟨clauses, none⟩ := by
  rw [HasTokens, h, Clause.map_unplaced_freshTokens, Sheet.map_unplaced_tokens]
  exact (List.append_nil _).symm

theorem tokens_eq_of_ne_nil (h : document.statements ≠ []) :
    document.tokens = numberLines 1 (tokensOf document.statements) ++ [.endOfFile] := by
  have hstatement (statement : Statement) : statement.tokens ≠ [] := by
    cases statement <;> simp [Statement.tokens]
  have htokens : numberLines 1 (tokensOf document.statements) ≠ [] := by
    obtain ⟨statement, rest, hcons⟩ := List.exists_cons_of_ne_nil h
    obtain ⟨token, others, hfirst⟩ := List.exists_cons_of_ne_nil (hstatement statement)
    rw [hcons, tokensOf, hfirst]
    exact List.cons_ne_nil _ _
  rw [tokens, List.isEmpty_eq_false_iff.mpr htokens]
  rfl

/-- The lines of a document are numbered as those of its sheet. -/
theorem map_withoutOffset_tokens (hne : document.statements ≠ [])
    (h : tokensOf document.statements = clauses.flatMap Clause.freshTokens) :
    document.tokens.map Token.withoutOffset = (⟨clauses, none⟩ : Sheet).tokens ++ [.endOfFile] := by
  rw [tokens_eq_of_ne_nil hne, List.map_append, map_withoutOffset_numberLines, h,
    Clause.map_unplaced_freshTokens, numberLines_flatMap, Sheet.tokens]
  exact congrArg (· ++ [Token.endOfFile]) (List.append_nil (Sheet.tokensOf 1 clauses)).symm

/-- The tokens of a document, wherever they stand on their lines, are assembled as the document. -/
theorem HasTokens.exists_read (h : document.HasTokens sheet)
    (hkinds : ∀ statement ∈ document.statements, statement.HasKinds ∧ statement.IsFlat)
    {tokens : List Token}
    (htokens : tokens.map Token.withoutOffset =
      Batch.startOfFile :: sheet.tokens ++ [.endOfFile]) :
    ∃ read, ofTokens tokens = .ok read ∧
      read.statements.map Statement.unplaced = document.statements.map Statement.unplaced := by
  obtain ⟨start, inner, rfl, hstart, hinner⟩ := Sheet.exists_eq_start_append htokens
  have hsame : inner.map Token.unplaced = (tokensOf document.statements).map Token.unplaced := by
    rw [h, ← hinner, List.map_map]
    rfl
  obtain ⟨moved, hassembled, _, hmoved⟩ := exists_assembled
    (fun statement hstatement ↦ (hkinds statement hstatement).1)
    (fun statement hstatement ↦ (hkinds statement hstatement).2) hsame (some start)
  refine ⟨⟨moved⟩, ?_, hmoved⟩
  rw [ofTokens_eq_assemble, assemble_startOfFile hstart, hassembled]
  rfl

/-- A composed document that has statements is rendered, and the text is read. The tokens that are
read are, at their lines, the ones of the document behind the start of the file. They are assembled
as the document, and they and the new document are rendered as the same text. -/
theorem checked_render_of_composed (h : document.Composed) (hne : document.statements ≠ []) :
    ∃ text tokens read, document.render = .ok text ∧
      (TokenStream.ofText text).checked = .ok tokens ∧
      tokens.map Token.withoutOffset =
        (Batch.startOfFile :: document.tokens).map Token.withoutOffset ∧
      ofTokens tokens = .ok read ∧
      read.statements.map Statement.unplaced = document.statements.map Statement.unplaced ∧
      SectionedConfig.render tokens = .ok text ∧ read.render = .ok text := by
  obtain ⟨clauses, hclauses, hlines⟩ := h.exists_clauses
  have hdocument := hasTokens_of_tokensOf_eq hlines
  have hsheet : (⟨clauses, none⟩ : Sheet).WellFormed := ⟨hclauses, by simp⟩
  obtain ⟨tokens, hchecked, htokens⟩ := Sheet.checked_text hsheet
  have hfound : tokens.map Token.withoutOffset =
      (Batch.startOfFile :: document.tokens).map Token.withoutOffset := by
    rw [htokens, List.map_cons, map_withoutOffset_tokens hne hlines]
    rfl
  obtain ⟨read, hread, hsame⟩ := hdocument.exists_read h.hasKinds htokens
  have hreread := (hasTokens_of_ofTokens hread htokens).1
  exact ⟨_, tokens, read, hdocument.render_eq, hchecked, hfound, hread, hsame,
    Sheet.render_of_map_withoutOffset htokens, hreread.render_eq⟩

/-- Two comments, a section with a list and a comment, and a section without assignments. -/
theorem checked_render_of_composed_sections :
    ∃ block document tokens read,
      [Statement.assignList "l" (Value.list ["x#", "y"]).text, .remark " c"].foldlM
        Statement.pushLine (.emptyBlock "s") = .ok block ∧
      document = ((pushAll .empty (remarkBlock "first\n second")).pushLine block).pushLine
        (.emptyBlock "t") ∧
      document.render = .ok
        "# first\n# second\ns \x7b\n\tl = [\"x#\", \"y\"]\n\t# c\n\x7d\nt \x7b\n\x7d\n" ∧
      (TokenStream.ofText
        "# first\n# second\ns \x7b\n\tl = [\"x#\", \"y\"]\n\t# c\n\x7d\nt \x7b\n\x7d\n").checked =
          .ok tokens ∧
      tokens.map Token.withoutOffset =
        (Batch.startOfFile :: document.tokens).map Token.withoutOffset ∧
      ofTokens tokens = .ok read := by
  have hlist : (Statement.assignList "l" (Value.list ["x#", "y"]).text).ComposedLine :=
    .list "l" (by decide) (by decide)
  have hremark : (Statement.remark " c").ComposedLine := .built (.remark " c" (by decide))
  have hblock : (blockOfLines "s" [.assignList "l" (Value.list ["x#", "y"]).text,
      .remark " c"]).ComposedBlock :=
    ((ComposedBlock.empty "s" (by decide)).pushLine hlist rfl).pushLine hremark rfl
  have hempty : (Statement.emptyBlock "t").ComposedBlock := .empty "t" (by decide)
  have hdocument := ((Composed.empty.remarks "first\n second").pushLine (.block hblock)).pushLine
    (.block hempty)
  obtain ⟨text, tokens, read, hrender, hchecked, htokens, hread, _⟩ :=
    checked_render_of_composed hdocument (by simp [pushLine, push])
  obtain rfl : text =
      "# first\n# second\ns \x7b\n\tl = [\"x#\", \"y\"]\n\t# c\n\x7d\nt \x7b\n\x7d\n" :=
    Except.ok.inj (hrender.symm.trans (by decide +kernel))
  exact ⟨_, _, tokens, read, rfl, rfl, hrender, hchecked, htokens, hread⟩

end Document

end SectionedConfig

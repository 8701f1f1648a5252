import SectionedConfig.Proofs.Assignment
import SectionedConfig.Proofs.Index
import SectionedConfig.Proofs.Name
import SectionedConfig.Proofs.Sheet.RoundTrip
import SectionedConfig.Proofs.Value.Form

/-!
# The sheet of an encoded document

Whatever is encoded comes down to value forms at places. The document of a header and of such forms
has a sheet, whose lines are those of the header followed by one block for each section. If the
places are named and the forms are well-formed, so is the sheet: the encoded text is accepted, and
the walk over its tokens finds the forms again, each at its place and in order.
-/

namespace SectionedConfig

open Text Statement

/-- The token of a lexeme that was not read from a text. -/
def Lexeme.fresh (lexeme : Lexeme) : Token :=
  { kind := lexeme.kind, value := String.ofList lexeme.text, unquoted := lexeme.unquoted }

/-- The tokens of a line with this clause before the lines are numbered. -/
def Clause.freshTokens (clause : Clause) : List Token :=
  (clause.lineLexemes true).map Lexeme.fresh

namespace Sheet

/-- The lines of a header. -/
def headerLines (header : Option String) : List Clause :=
  header.elim [] fun text ↦
    (Line.cut '\n' text.toList).map fun line ↦ .comment (trim line.content)

/-- The line of an assignment. -/
def assignmentLine (entry : String × ValueForm) : Clause :=
  .assignment entry.1.toList entry.2 none

/-- The lines of a section. -/
def blockLines (block : String × List (String × ValueForm)) : List Clause :=
  .opening block.1.toList .blank :: block.2.map assignmentLine ++ [.closing .blank]

/-- The sheet of a header and the sections after it. -/
def ofIndex (header : Option String) (forms : Index ValueForm) : Sheet :=
  ⟨headerLines header ++ forms.sections.flatMap blockLines, none⟩

end Sheet

/-- The assignments of a section as statements. -/
def blockStatements (block : String × List (String × ValueForm)) : String × List Statement :=
  (block.1, block.2.map fun entry ↦ .assign entry.1 entry.2.token)

/-! ## Tokens -/

theorem Statement.tokensOf_append (first second : List Statement) :
    tokensOf (first ++ second) = tokensOf first ++ tokensOf second := by
  induction first with
  | nil => rfl
  | cons statement rest ih => simp [tokensOf, ih]

theorem Statement.tokensOf_flatMap {α : Type} (statements : α → List Statement) (list : List α) :
    tokensOf (list.flatMap statements) = list.flatMap fun entry ↦ tokensOf (statements entry) := by
  induction list with
  | nil => rfl
  | cons entry rest ih => simp [tokensOf_append, ih]

theorem tokensOf_remarkBlock (header : Option String) :
    tokensOf (header.elim [] remarkBlock) =
      (Sheet.headerLines header).flatMap Clause.freshTokens := by
  cases header with
  | none => rfl
  | some text =>
    have hline (line : Line Char) :
        tokensOf [remark (String.ofList line.content), lineEnd] =
          (Clause.comment (trim line.content)).freshTokens := by
      simp only [remark, String.toList_ofList]
      rfl
    simp only [Option.elim_some, remarkBlock, Sheet.headerLines, tokensOf_flatMap, hline,
      List.flatMap_map]

theorem tokensOf_assign (entry : String × ValueForm) :
    tokensOf [.assign entry.1 entry.2.token, lineEnd] =
      (Sheet.assignmentLine entry).freshTokens := by
  obtain ⟨field, form⟩ := entry
  have hkey : Lexeme.fresh ⟨.identifier, field.toList, 0, false⟩ =
      freshToken .identifier field := by
    simp [Lexeme.fresh, freshToken]
  simp only [Clause.freshTokens, Sheet.assignmentLine, Clause.lineLexemes, Clause.lexemes,
    List.cons_append, List.map_cons, hkey]
  rfl

/-- A section whose statements have lines takes these lines and the ones of its braces. -/
theorem tokensOf_blockOfLines (name : String) {statements : List Statement} {clauses : List Clause}
    (h : tokensOf (statements.flatMap fun statement ↦ [statement, lineEnd]) =
      clauses.flatMap Clause.freshTokens) :
    tokensOf [Document.blockOfLines name statements, lineEnd] =
      (Clause.opening name.toList .blank :: clauses ++ [Clause.closing .blank]).flatMap
        Clause.freshTokens := by
  have hname : Lexeme.fresh ⟨.sectionName, name.toList, 0, false⟩ =
      freshToken .sectionName name := by
    simp [Lexeme.fresh, freshToken]
  have hopening : (Clause.opening name.toList .blank).freshTokens =
      freshToken .sectionName name :: freshToken .sectionStart "\x7b" ::
        lineEnd.tokens := by
    rw [← hname]
    rfl
  have hclosing : (Clause.closing .blank).freshTokens =
      freshToken .sectionEnd "\x7d" :: lineEnd.tokens := rfl
  simp only [List.flatMap_append, List.flatMap_cons, List.flatMap_nil, hopening, hclosing, ← h,
    Document.blockOfLines, blockOf, tokensOf, Statement.tokens, List.cons_append, List.append_assoc,
    List.append_nil, List.nil_append]

theorem tokensOf_blockStatements (block : String × List (String × ValueForm)) :
    tokensOf [Document.blockOfLines block.1 (blockStatements block).2, lineEnd] =
      (Sheet.blockLines block).flatMap Clause.freshTokens := by
  have hfields : tokensOf ((blockStatements block).2.flatMap fun assignment ↦
      [assignment, lineEnd]) = (block.2.map Sheet.assignmentLine).flatMap Clause.freshTokens := by
    simp only [blockStatements, List.flatMap_map, tokensOf_flatMap, tokensOf_assign]
  exact tokensOf_blockOfLines block.1 hfields

theorem tokensOf_ofSections (header : Option String) (forms : Index ValueForm) :
    tokensOf (Document.ofSections header (forms.sections.map blockStatements)).statements =
      (Sheet.ofIndex header forms).lines.flatMap Clause.freshTokens := by
  simp only [Document.ofSections, Sheet.ofIndex, tokensOf_append, tokensOf_remarkBlock,
    List.flatMap_append, List.flatMap_map, tokensOf_flatMap]
  congr 1
  rw [List.flatMap_assoc]
  congr 1
  funext block
  exact tokensOf_blockStatements block

/-- If every content is encoded as the assignment of its form, the sections of an index are encoded
as those of the forms. -/
theorem eq_blockStatements_of_mapM {α : Type} {encode : String → α → Except Error Statement}
    {Good : α → Prop} {form : α → ValueForm}
    (hencode : ∀ field content statement, encode field content = .ok statement →
      Good content ∧ statement = .assign field (form content).token)
    {index : Index α} {sections : List (String × List Statement)}
    (h : (index.sections.mapM fun block ↦
      (block.2.mapM fun (entry : String × α) ↦ encode entry.1 entry.2).map
        fun assignments ↦ (block.1, assignments)) = .ok sections) :
    (∀ entry ∈ index.entries, Good entry.2) ∧
      sections = (index.map form).sections.map blockStatements := by
  have hblock : ∀ (block : String × List (String × α)) (result : String × List Statement),
      (block.2.mapM fun (entry : String × α) ↦ encode entry.1 entry.2).map
        (fun assignments ↦ (block.1, assignments)) = .ok result →
      (∀ entry ∈ block.2, Good entry.2) ∧
        result = blockStatements (Index.mapBlock form block) := by
    intro block result hresult
    obtain ⟨assignments, hassignments, rfl⟩ := map_eq_ok_iff.mp hresult
    obtain ⟨hgood, rfl⟩ := eq_map_of_mapM_eq_ok
      (fun entry statement ↦ hencode entry.1 entry.2 statement) hassignments
    refine ⟨hgood, ?_⟩
    rw [blockStatements, Index.mapBlock, List.map_map]
    rfl
  obtain ⟨hgood, rfl⟩ := eq_map_of_mapM_eq_ok hblock h
  constructor
  · intro entry hentry
    rw [← index.flatMap_sections, List.mem_flatMap] at hentry
    obtain ⟨block, hmem, hentry⟩ := hentry
    obtain ⟨field, hfield, rfl⟩ := List.mem_map.mp hentry
    exact hgood block hmem field hfield
  · rw [Index.sections_map, List.map_map]
    rfl

/-! ## Numbered lines -/

theorem Document.numberLines_lineLexemes (number : Nat) (terminated : Bool) (clause : Clause)
    (rest : List Token) :
    numberLines number ((clause.lineLexemes terminated).map Lexeme.fresh ++ rest) =
      clause.tokens number terminated ++ numberLines (number + 1) rest := by
  induction clause with
  | blank | comment text => rfl
  | opening name other ih =>
    let brace : List Lexeme := [⟨.sectionName, name, 0, false⟩, ⟨.sectionStart, ['{'], 0, false⟩]
    exact congrArg (brace.map (Lexeme.onLine number) ++ ·) ih
  | closing other ih =>
    let brace : List Lexeme := [⟨.sectionEnd, ['}'], 0, false⟩]
    exact congrArg (brace.map (Lexeme.onLine number) ++ ·) ih
  | assignment key value remark => cases value <;> cases remark <;> rfl

theorem Document.numberLines_append_flatMap (number : Nat) (clauses : List Clause)
    (rest : List Token) :
    numberLines number (clauses.flatMap Clause.freshTokens ++ rest) =
      Sheet.tokensOf number clauses ++ numberLines (number + clauses.length) rest := by
  induction clauses generalizing number with
  | nil => rfl
  | cons clause others ih =>
    rw [List.flatMap_cons, List.append_assoc, Clause.freshTokens, numberLines_lineLexemes, ih,
      Sheet.tokensOf, List.append_assoc, List.length_cons, Nat.add_assoc, Nat.add_comm 1]

theorem Document.numberLines_flatMap (number : Nat) (clauses : List Clause) :
    numberLines number (clauses.flatMap Clause.freshTokens) = Sheet.tokensOf number clauses := by
  have hall := numberLines_append_flatMap number clauses []
  rwa [List.append_nil, numberLines, List.append_nil] at hall

/-- A document is rendered as its numbered tokens, also if it has none. -/
theorem Document.render_eq (document : Document) :
    document.render =
      SectionedConfig.render (numberLines 1 (tokensOf document.statements) ++ [.endOfFile]) := by
  rw [render, tokens]
  split
  next hempty =>
    rw [List.isEmpty_iff.mp hempty]
    rfl
  next => rfl

/-- Encoded forms are rendered as their sheet is written. -/
theorem render_ofSections (header : Option String) (forms : Index ValueForm) :
    (Document.ofSections header (forms.sections.map blockStatements)).render =
      .ok (String.ofList (Sheet.ofIndex header forms).text) := by
  have hnumbered : Document.numberLines 1
      (tokensOf (Document.ofSections header (forms.sections.map blockStatements)).statements) =
        (Sheet.ofIndex header forms).tokens := by
    rw [tokensOf_ofSections, Document.numberLines_flatMap]
    exact (List.append_nil _).symm
  rw [Document.render_eq, hnumbered, ← List.nil_append (Sheet.tokens _)]
  exact Sheet.render_tokens _ [] (by simp)

/-- If every content is encoded as the assignment of its form, the encoded text is that of the sheet
of the forms. -/
theorem eq_text_of_encode {α : Type} {encode : String → α → Except Error Statement}
    {Good : α → Prop} {form : α → ValueForm}
    (hencode : ∀ field content statement, encode field content = .ok statement →
      Good content ∧ statement = .assign field (form content).token)
    {index : Index α} {header : Option String} {document : Document} {text : String}
    (hdocument : Except.map (Document.ofSections header) (index.sections.mapM fun block ↦
      (block.2.mapM fun (entry : String × α) ↦ encode entry.1 entry.2).map
        fun assignments ↦ (block.1, assignments)) = .ok document)
    (hrender : document.render = .ok text) :
    (∀ entry ∈ index.entries, Good entry.2) ∧
      text = String.ofList (Sheet.ofIndex header (index.map form)).text := by
  obtain ⟨sections, hsections, rfl⟩ := map_eq_ok_iff.mp hdocument
  obtain ⟨hgood, rfl⟩ := eq_blockStatements_of_mapM hencode hsections
  rw [render_ofSections] at hrender
  exact ⟨hgood, (Except.ok.inj hrender).symm⟩

/-! ## The encoded text is accepted -/

theorem Sheet.wellFormed_headerLines (header : Option String) :
    ∀ clause ∈ headerLines header, clause.WellFormed := by
  cases header with
  | none => simp [headerLines]
  | some text =>
    intro clause hclause
    obtain ⟨line, hline, rfl⟩ := List.mem_map.mp hclause
    exact isRemarkText_trim (Line.notMem_content_of_mem_cut hline)

theorem Sheet.wellFormed_ofIndex (header : Option String) {forms : Index ValueForm}
    (hnamed : ∀ entry ∈ forms.entries, entry.1.Named)
    (hforms : ∀ entry ∈ forms.entries, entry.2.WellFormed) :
    (ofIndex header forms).WellFormed := by
  constructor
  · intro clause hclause
    rcases List.mem_append.mp hclause with hclause | hclause
    · exact wellFormed_headerLines header clause hclause
    obtain ⟨block, hblock, hclause⟩ := List.mem_flatMap.mp hclause
    obtain ⟨⟨field, form⟩, hfirst⟩ := Index.exists_mem_of_mem_sections hblock
    have hname := hnamed _ (Index.mem_entries_of_mem_sections hblock hfirst)
    simp only [blockLines, List.cons_append, List.mem_cons, List.mem_append, List.mem_map,
      List.not_mem_nil, or_false] at hclause
    rcases hclause with rfl | ⟨⟨field, form⟩, hfield, rfl⟩ | rfl
    · exact ⟨hname.sectionName.isNameText, trivial⟩
    · have hmem := Index.mem_entries_of_mem_sections hblock hfield
      exact ⟨(hnamed _ hmem).field.isNameText, hforms _ hmem, nofun⟩
    · exact trivial
  · intro clause hclause
    cases hclause

/-- The assignment gives the form to the place. -/
structure Assignment.States (assignment : Assignment) (entry : Place × ValueForm) : Prop where
  enclosing : assignment.enclosing = some entry.1.sectionName
  key : assignment.key.value = entry.1.field
  kind : assignment.value.kind = entry.2.kind
  value : assignment.value.value = String.ofList entry.2.text

theorem Sheet.states_blockLines (number : Nat) (enclosing : Option String)
    (block : String × List (String × ValueForm)) :
    List.Forall₂ Assignment.States (assignmentsOf number enclosing (blockLines block))
      (Index.entriesOf block) := by
  obtain ⟨name, fields⟩ := block
  have hfields (number : Nat) : List.Forall₂ Assignment.States
      (assignmentsOf number (some name) (fields.map assignmentLine ++ [.closing .blank]))
      (Index.entriesOf (name, fields)) := by
    induction fields generalizing number with
    | nil => exact .nil
    | cons entry rest ih =>
      exact .cons ⟨rfl, String.ofList_toList, rfl, rfl⟩ (ih (number + 1))
  have hname : (Clause.opening name.toList .blank).enclosingAfter enclosing = some name :=
    congrArg some String.ofList_toList
  rw [blockLines, List.cons_append, assignmentsOf, hname]
  exact hfields (number + 1)

theorem Sheet.states_ofIndex (header : Option String) (forms : Index ValueForm) :
    List.Forall₂ Assignment.States (assignmentsOf 1 none (ofIndex header forms).lines)
      forms.entries := by
  have hheader (number : Nat) (enclosing : Option String) (contents : List (Line Char)) :
      assignmentsOf number enclosing
        (contents.map fun line ↦ .comment (trim line.content)) = [] := by
    induction contents generalizing number with
    | nil => rfl
    | cons line rest ih => exact ih (number + 1)
  have hblocks (number : Nat) (enclosing : Option String)
      (blocks : List (String × List (String × ValueForm))) :
      List.Forall₂ Assignment.States
        (assignmentsOf number enclosing (blocks.flatMap blockLines))
        (blocks.flatMap Index.entriesOf) := by
    induction blocks generalizing number enclosing with
    | nil => exact .nil
    | cons block rest ih =>
      rw [List.flatMap_cons, List.flatMap_cons, assignmentsOf_append]
      exact List.rel_append (states_blockLines number enclosing block) (ih _ _)
  have hnone : assignmentsOf 1 none (headerLines header) = [] := by
    cases header with
    | none => rfl
    | some text => exact hheader 1 none _
  rw [ofIndex, assignmentsOf_append, hnone, List.nil_append, ← forms.flatMap_sections]
  exact hblocks _ _ _

/-- The text of well-formed forms at named places is accepted, and the walk over its tokens finds
the forms at their places, in order. -/
theorem exists_checked_ofIndex (header : Option String) {forms : Index ValueForm}
    (hnamed : ∀ entry ∈ forms.entries, entry.1.Named)
    (hforms : ∀ entry ∈ forms.entries, entry.2.WellFormed) :
    ∃ tokens,
      (TokenStream.ofText (String.ofList (Sheet.ofIndex header forms).text)).checked =
          .ok tokens ∧
        (Assignment.walk tokens).fault = none ∧
        List.Forall₂ Assignment.States (Assignment.walk tokens).found forms.entries := by
  obtain ⟨tokens, htokens, hsheet⟩ :=
    Sheet.checked_text (Sheet.wellFormed_ofIndex header hnamed hforms)
  have hwalk : (Assignment.walk tokens).withoutOffset =
      ⟨Sheet.assignmentsOf 1 none (Sheet.ofIndex header forms).lines, none⟩ := by
    have hlines : (Sheet.ofIndex header forms).settled.tokens =
        Sheet.tokensOf 1 (Sheet.ofIndex header forms).lines := List.append_nil _
    rw [← Assignment.walk_map_withoutOffset, hsheet, hlines]
    exact Sheet.walkFrom_tokensOf 1 none (some Batch.startOfFile) _
  refine ⟨tokens, htokens, ?_, ?_⟩
  · exact congrArg Assignment.Walk.fault hwalk
  · have hfound : (Assignment.walk tokens).found.map Assignment.withoutOffset =
        Sheet.assignmentsOf 1 none (Sheet.ofIndex header forms).lines :=
      congrArg Assignment.Walk.found hwalk
    have hstates := Sheet.states_ofIndex header forms
    rw [← hfound, List.forall₂_map_left_iff] at hstates
    exact hstates.imp fun assignment entry h ↦ ⟨h.enclosing, h.key, h.kind, h.value⟩

/-- The text of an index is accepted, and handling its assignments gives what is expected of the
entries. -/
theorem exists_traverse_ofIndex {α β : Type} (header : Option String) {index : Index α}
    {form : α → ValueForm} {handle : Assignment → Except Error β} {answer : Place × α → β}
    (hnamed : ∀ entry ∈ index.entries, entry.1.Named)
    (hforms : ∀ entry ∈ index.entries, (form entry.2).WellFormed)
    (hhandle : ∀ entry ∈ index.entries, ∀ assignment : Assignment,
      assignment.States (entry.1, form entry.2) → handle assignment = .ok (answer entry)) :
    ∃ tokens,
      (TokenStream.ofText (String.ofList (Sheet.ofIndex header (index.map form)).text)).checked =
          .ok tokens ∧
        (Assignment.walk tokens).traverse handle = .ok (index.entries.map answer) := by
  have hplaces : ∀ entry ∈ (index.map form).entries, entry.1.Named :=
    List.forall_mem_map.mpr hnamed
  have hlines : ∀ entry ∈ (index.map form).entries, entry.2.WellFormed :=
    List.forall_mem_map.mpr hforms
  obtain ⟨tokens, htokens, hfault, hstates⟩ := exists_checked_ofIndex header hplaces hlines
  refine ⟨tokens, htokens, Assignment.Walk.traverse_eq_ok_iff.mpr ⟨hfault, ?_⟩⟩
  exact mapM_eq_ok_of_forall₂ (List.forall₂_map_right_iff.mp hstates) hhandle

end SectionedConfig

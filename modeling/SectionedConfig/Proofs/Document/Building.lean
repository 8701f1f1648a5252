import SectionedConfig.Proofs.Sheet.Decoding
import SectionedConfig.Proofs.Value.Encoding

/-!
# Statements that are built

Statements can be built by hand: comments without line feeds, assignments of integers and of strings
that can stand between quotation marks, and sections that such statements are added to. Put on lines
of their own they have the tokens of well-formed lines, which open no section that they do not close
and whose assignments can all be decoded.
-/

namespace SectionedConfig

open Assignment Text

namespace Statement

/-- A statement that is built to stand on one line. -/
inductive BuiltLine : Statement → Prop where
  | remark (text : String) (hunbroken : '\n' ∉ text.toList) : BuiltLine (.remark text)
  | int64 (key : String) (number : Int64) (hkey : checkName key = .ok ()) :
      BuiltLine (.assignInt64 key number)
  | string (key text : String) (hkey : checkName key = .ok ()) (htext : textFault? text = none) :
      BuiltLine (.assignString key text)

/-- A statement that is built by hand: a line, or a section to which lines have been added. -/
inductive Built : Statement → Prop where
  | line {statement : Statement} (h : statement.BuiltLine) : Built statement
  | block (name : String) {lines : List Statement} {statement : Statement}
      (hname : checkName name = .ok ()) (hlines : ∀ line ∈ lines, line.BuiltLine)
      (h : lines.foldlM pushLine (emptyBlock name) = .ok statement) : Built statement

/-- Statements on lines of their own. -/
def onLines (statements : List Statement) : List Statement :=
  statements.flatMap fun statement ↦ [statement, lineEnd]

/-- Inside a section, or outside any, the statements have the tokens of these lines. The lines are
well-formed, open no section that they do not close, and all of their assignments can be decoded. -/
structure HaveLines (enclosing : Option String) (statements : List Statement)
    (clauses : List Clause) : Prop where
  tokens : tokensOf (onLines statements) = clauses.flatMap Clause.freshTokens
  wellFormed : ∀ clause ∈ clauses, clause.WellFormed
  closed : clauses.foldl Clause.enclosingAfter enclosing = enclosing
  entries : ∀ number, ∃ entries,
    (Sheet.assignmentsOf number enclosing clauses).mapM entry = .ok entries

theorem onLines_append (first second : List Statement) :
    onLines (first ++ second) = onLines first ++ onLines second :=
  List.flatMap_append

theorem forall_mem_onLines {p : Statement → Prop} {statements : List Statement} (hend : p lineEnd)
    (h : ∀ statement ∈ statements, p statement) :
    ∀ statement ∈ onLines statements, p statement := by
  intro statement hstatement
  obtain ⟨line, hline, hmem⟩ := List.mem_flatMap.mp hstatement
  rcases List.mem_pair.mp hmem with rfl | rfl
  · exact h statement hline
  · exact hend

namespace HaveLines

variable {enclosing : Option String} {statements : List Statement} {clauses : List Clause}

theorem nil : HaveLines enclosing [] [] where
  tokens := rfl
  wellFormed := by simp
  closed := rfl
  entries := fun _ ↦ ⟨[], rfl⟩

theorem eq_nil (h : HaveLines enclosing [] clauses) : clauses = [] := by
  cases clauses with
  | nil => rfl
  | cons clause rest =>
    have htokens := h.tokens
    simp [onLines, tokensOf, Clause.freshTokens, Clause.lineLexemes] at htokens

theorem append {others : List Statement} {clauses' : List Clause}
    (h : HaveLines enclosing statements clauses) (h' : HaveLines enclosing others clauses') :
    HaveLines enclosing (statements ++ others) (clauses ++ clauses') where
  tokens := by rw [onLines_append, tokensOf_append, h.tokens, h'.tokens, List.flatMap_append]
  wellFormed := List.forall_mem_append.mpr ⟨h.wellFormed, h'.wellFormed⟩
  closed := by rw [List.foldl_append, h.closed, h'.closed]
  entries := fun number ↦ by
    obtain ⟨entries, hentries⟩ := h.entries number
    obtain ⟨others, hothers⟩ := h'.entries (number + clauses.length)
    refine ⟨entries ++ others, ?_⟩
    rw [Sheet.assignmentsOf_append, h.closed]
    rw [mapM_eq_ok_iff] at hentries hothers ⊢
    exact List.rel_append hentries hothers

/-- Statements that each have lines have them in a row. -/
theorem exists_of_forall
    (h : ∀ statement ∈ statements, ∃ clauses, HaveLines enclosing [statement] clauses) :
    ∃ clauses, HaveLines enclosing statements clauses := by
  induction statements with
  | nil => exact ⟨[], nil⟩
  | cons statement rest ih =>
    obtain ⟨⟨clauses, hclauses⟩, hrest⟩ := List.forall_mem_cons.mp h
    obtain ⟨others, hothers⟩ := ih hrest
    exact ⟨clauses ++ others, hclauses.append hothers⟩

/-- The line of a remark. -/
theorem remark {text : String} (h : '\n' ∉ text.toList) :
    HaveLines enclosing [.remark text] [.comment (trim text.toList)] where
  tokens := rfl
  wellFormed := List.forall_mem_singleton.mpr (isRemarkText_trim h)
  closed := rfl
  entries := fun _ ↦ ⟨[], rfl⟩

/-- The line of an assignment. -/
theorem assign {key : String} {form : ValueForm} (hkey : checkName key = .ok ())
    (hform : form.WellFormed)
    (hentry : ∀ assignment : Assignment, assignment.value.kind = form.kind →
      assignment.value.value = String.ofList form.text → ∃ found, assignment.entry = .ok found) :
    HaveLines enclosing [.assign key form.token] [Sheet.assignmentLine (key, form)] where
  tokens := by
    have htokens := tokensOf_assign (key, form)
    simpa [onLines] using htokens
  wellFormed := List.forall_mem_singleton.mpr
    ⟨(checkName_eq_ok_iff.mp hkey).isNameText, hform, nofun⟩
  closed := rfl
  entries := fun number ↦ by
    obtain ⟨found, hfound⟩ := hentry
      ⟨enclosing, Lexeme.onLine number ⟨.identifier, key.toList, 0, false⟩,
        form.lexeme.onLine number⟩ rfl rfl
    exact ⟨[found], mapM_eq_ok_iff.mpr (.cons hfound .nil)⟩

/-- The line of an assignment that holds no integer. -/
theorem assignText {key : String} {form : ValueForm} (hkey : checkName key = .ok ())
    (hform : form.WellFormed) (hkind : form.kind ≠ .int64) :
    HaveLines enclosing [.assign key form.token] [Sheet.assignmentLine (key, form)] := by
  refine .assign hkey hform fun assignment hvalue _ ↦ ?_
  rw [← hvalue] at hkind
  exact ⟨_, if_neg hkind⟩

/-- The lines of a section. -/
theorem block {name : String} (hname : checkName name = .ok ())
    (h : HaveLines (some name) statements clauses) :
    HaveLines none [Document.blockOfLines name statements]
      (Clause.opening name.toList .blank :: clauses ++ [Clause.closing .blank]) where
  tokens := by
    have htokens := tokensOf_blockOfLines name h.tokens
    simpa [onLines] using htokens
  wellFormed := by
    rw [List.cons_append, List.forall_mem_cons, List.forall_mem_append]
    exact ⟨⟨(checkName_eq_ok_iff.mp hname).isNameText, trivial⟩, h.wellFormed,
      List.forall_mem_singleton.mpr trivial⟩
  closed := by
    rw [List.foldl_append]
    rfl
  entries := fun number ↦ by
    obtain ⟨entries, hentries⟩ := h.entries (number + 1)
    have hopening : (Clause.opening name.toList .blank).enclosingAfter none = some name :=
      congrArg some String.ofList_toList
    refine ⟨entries, ?_⟩
    rw [List.cons_append, Sheet.assignmentsOf, hopening, Sheet.assignmentsOf_append]
    simpa [Clause.assignments, Sheet.assignmentsOf] using hentries

end HaveLines

/-! ## Adding to a section -/

theorem push_blockOf {statement : Statement} (h : statement.isBlock = false) (name : String)
    (children : List Statement) :
    (blockOf name children).push statement = .ok (blockOf name (children ++ [statement])) := by
  cases statement with
  | newline | comment | assignment => rfl
  | block => cases h

theorem pushLine_eq_foldlM (block line : Statement) :
    block.pushLine line = (onLines [line]).foldlM push block := by
  change (block.push line).bind (push · lineEnd) =
    (block.push line).bind fun longer ↦ longer.push lineEnd >>= pure
  cases block.push line with
  | error error => rfl
  | ok longer => exact (bind_pure (longer.push lineEnd)).symm

/-- Statements that are added to a section stand behind what it holds. -/
theorem foldlM_push_blockOf {statements : List Statement}
    (h : ∀ statement ∈ statements, statement.isBlock = false) (name : String)
    (children : List Statement) :
    statements.foldlM push (blockOf name children) =
      .ok (blockOf name (children ++ statements)) := by
  induction statements generalizing children with
  | nil => exact congrArg (fun all ↦ Except.ok (blockOf name all)) children.append_nil.symm
  | cons statement rest ih =>
    obtain ⟨hstatement, hrest⟩ := List.forall_mem_cons.mp h
    calc
      (statement :: rest).foldlM push (blockOf name children) =
          rest.foldlM push (blockOf name (children ++ [statement])) := by
        rw [List.foldlM_cons, push_blockOf hstatement]
        rfl
      _ = .ok (blockOf name (children ++ statement :: rest)) := by
        rw [ih hrest, List.append_assoc]
        rfl

/-- Lines that are added to a section come behind the ones that it holds. -/
theorem foldlM_push_blockOfLines {added : List Statement}
    (h : ∀ line ∈ added, line.isBlock = false) (name : String) (lines : List Statement) :
    (onLines added).foldlM push (Document.blockOfLines name lines) =
      .ok (Document.blockOfLines name (lines ++ added)) := by
  rw [Document.blockOfLines, foldlM_push_blockOf (forall_mem_onLines rfl h), Document.blockOfLines]
  exact congrArg (fun all ↦ Except.ok (blockOf name (lineEnd :: all)))
    (onLines_append lines added).symm

/-- Lines are added as the statements that stand on them. -/
theorem foldlM_pushLine_eq (lines : List Statement) (block : Statement) :
    lines.foldlM pushLine block = (onLines lines).foldlM push block := by
  induction lines generalizing block with
  | nil => rfl
  | cons line rest ih =>
    calc
      (line :: rest).foldlM pushLine block =
          (onLines [line]).foldlM push block >>= (onLines rest).foldlM push := by
        rw [List.foldlM_cons, pushLine_eq_foldlM]
        exact congrArg _ (funext ih)
      _ = (onLines (line :: rest)).foldlM push block := by
        rw [← List.foldlM_append, ← onLines_append]
        rfl

/-! ## What is built has lines -/

theorem BuiltLine.haveLines {statement : Statement} (h : statement.BuiltLine)
    (enclosing : Option String) : ∃ clauses, HaveLines enclosing [statement] clauses := by
  cases h with
  | remark text hunbroken => exact ⟨_, .remark hunbroken⟩
  | int64 key number hkey =>
    have hform := Value.wellFormed_bare_write number.toInt
    refine ⟨_, .assign hkey hform fun assignment hkind hvalue ↦ ?_⟩
    have hint64 : assignment.value.kind = .int64 := hkind
    exact ⟨_, by rw [entry, if_pos hint64, integer_of_write hvalue]; rfl⟩
  | string key text hkey htext =>
    obtain ⟨hfeed, hquote⟩ := Value.notMem_of_textFault? htext
    have hassign : assignString key text = .assign key (ValueForm.quoted text.toList).token := by
      rw [ValueForm.token, ValueForm.text, String.ofList_toList]
      rfl
    rw [hassign]
    exact ⟨_, .assignText hkey (Value.wellFormed_quoted hfeed hquote) (by simp [ValueForm.kind])⟩

theorem BuiltLine.isBlock_eq_false {statement : Statement} (h : statement.BuiltLine) :
    statement.isBlock = false := by
  cases h <;> rfl

/-- Built statements have lines. -/
theorem Built.haveLines {statement : Statement} (h : statement.Built) :
    ∃ clauses, HaveLines none [statement] clauses := by
  cases h with
  | line hline => exact hline.haveLines none
  | @block name lines _ hname hlines hpush =>
    obtain ⟨clauses, hclauses⟩ := HaveLines.exists_of_forall fun line hline ↦
      (hlines line hline).haveLines (some name)
    have hplain : ∀ child ∈ onLines lines, child.isBlock = false :=
      forall_mem_onLines rfl fun line hline ↦ (hlines line hline).isBlock_eq_false
    rw [emptyBlock, foldlM_pushLine_eq, foldlM_push_blockOf hplain] at hpush
    obtain rfl := Except.ok.inj hpush
    exact ⟨_, hclauses.block hname⟩

end Statement

end SectionedConfig

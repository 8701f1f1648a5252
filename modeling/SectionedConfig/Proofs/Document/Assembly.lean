import SectionedConfig.Proofs.Encoding

/-!
# What is assembled

Assembling a document keeps every token, so flattening the document gives the tokens back, but for
the ones at the start and the end of the file. A document is assembled only if every section is
closed. Both follow from a description of what assembly accepts, one rule for each of its steps. A
document that is assembled anew keeps nothing of what it held. If nothing can be assembled, then a
token is a failure, or the structure is wrong on the line of a token.
-/

namespace SectionedConfig

/-- The section that is open behind a token. -/
def Token.enclosingAfter (enclosing : Option String) (token : Token) : Option String :=
  match token.kind with
  | .sectionName => some token.value
  | .sectionEnd => none
  | _ => enclosing

/-- A token that stands neither at the start nor at the end of the file. -/
def Token.IsInner (token : Token) : Prop :=
  token.kind ≠ .startOfFile ∧ token.kind ≠ .endOfFile

/-- A statement other than a section, made of tokens of the right kinds. -/
inductive Statement.IsPlain : Statement → Prop where
  | newline {token : Token} (hkind : token.kind = .endOfStatement) : IsPlain (.newline token)
  | comment {mark text : Token} (hmark : mark.kind = .comment) (htext : text.kind = .commentText) :
      IsPlain (.comment mark text)
  | assignment {key sign value : Token} (hkey : key.kind = .identifier)
      (hsign : sign.kind = .assignment) (hvalue : value.kind.isValue = true) :
      IsPlain (.assignment key sign value)

/-- Plain statements neither open nor close a section. -/
theorem Statement.IsPlain.tokens_spec {statement : Statement} (h : statement.IsPlain) :
    (∀ token ∈ statement.tokens, token.IsInner) ∧
      ∀ enclosing, statement.tokens.foldl Token.enclosingAfter enclosing = enclosing := by
  cases h with
  | newline hkind => simp [Statement.tokens, Token.IsInner, Token.enclosingAfter, hkind]
  | comment hmark htext =>
    simp [Statement.tokens, Token.IsInner, Token.enclosingAfter, hmark, htext]
  | @assignment key sign value hkey hsign hvalue =>
    cases hkind : value.kind <;> simp [TokenKind.isValue, hkind] at hvalue <;>
      simp [Statement.tokens, Token.IsInner, Token.enclosingAfter, hkey, hsign, hkind]

namespace Document

/-! ## Passes over tokens -/

/-- The statements of a pass that came to its end, or else what broke it off. -/
def Pass.result : Pass → Except Error (List Statement)
  | ⟨finished, none⟩ => .ok finished
  | ⟨_, some error⟩ => .error error

/-- The statements that are assembled from tokens. -/
def assemble (pending : Option Pending) (previous : Option Token) (tokens : List Token) :
    Except Error (List Statement) :=
  (parse pending previous tokens).result

/-- Puts finished statements in front of the ones that are assembled after them. -/
def following (finished : List Statement) (rest : Except Error (List Statement)) :
    Except Error (List Statement) :=
  rest.map fun statements ↦ finished ++ statements

theorem Pass.result_after (finished : List Statement) (rest : Pass) :
    (rest.after finished).result = following finished rest.result := by
  obtain ⟨later, fault⟩ := rest
  cases fault <;> rfl

theorem ofTokens_eq_assemble (tokens : List Token) :
    ofTokens tokens = (assemble none none tokens).map Document.mk := by
  rw [ofTokens, reassemble, assemble]
  obtain ⟨finished, fault⟩ := parse none none tokens
  cases fault <;> rfl

/-- What a document held makes no difference to what it becomes, and a fault leaves nothing of what
had been added before it was met. -/
theorem reassemble_eq (held : Document) (tokens : List Token) :
    held.reassemble tokens =
      match ofTokens tokens with
      | .ok document => (.ok (), document)
      | .error error => (.error error, .empty) := by
  rw [ofTokens, reassemble, reassemble]
  obtain ⟨finished, fault⟩ := parse none none tokens
  cases fault <;> rfl

/-! ## The steps of a pass -/

/-- The tokens of a section that is still open. -/
def Pending.tokens (pending : Pending) : List Token :=
  pending.name :: pending.opening :: Statement.tokensOf pending.children

/-- The tokens become these statements, behind a section that may be open. -/
inductive Assembled : Option Pending → List Token → List Statement → Prop where
  | stop {tokens : List Token} (h : ∀ token ∈ tokens.head?, token.kind = .endOfFile) :
      Assembled none tokens []
  | start {pending : Option Pending} {token : Token} {rest : List Token}
      {statements : List Statement} (hkind : token.kind = .startOfFile)
      (h : Assembled pending rest statements) : Assembled pending (token :: rest) statements
  | opening {name brace : Token} {rest : List Token} {statements : List Statement}
      (hname : name.kind = .sectionName) (hbrace : brace.kind = .sectionStart)
      (h : Assembled (some ⟨name, brace, []⟩) rest statements) :
      Assembled none (name :: brace :: rest) statements
  | closing {pending : Pending} {brace : Token} {rest : List Token} {statements : List Statement}
      (hbrace : brace.kind = .sectionEnd) (h : Assembled none rest statements) :
      Assembled (some pending) (brace :: rest)
        (.block pending.name pending.opening pending.children brace :: statements)
  | statement {pending : Option Pending} {statement : Statement} {rest : List Token}
      {statements : List Statement} (hplain : statement.IsPlain)
      (h : Assembled (attach statement pending).1 rest statements) :
      Assembled pending (statement.tokens ++ rest) ((attach statement pending).2 ++ statements)

theorem Assembled.finish {pending : Option Pending} {tokens : List Token}
    {statements : List Statement} (hstop : ∀ token ∈ tokens.head?, token.kind = .endOfFile)
    (h : (finish pending).result = .ok statements) : Assembled pending tokens statements := by
  cases pending with
  | none =>
    obtain rfl := Except.ok.inj h
    exact .stop hstop
  | some pending => cases h

/-- A plain statement goes into the open section or in front of what follows. -/
theorem Assembled.following {pending other : Option Pending} {statement : Statement}
    {rest : List Token} {finished statements : List Statement} {pass : Pass}
    (hplain : statement.IsPlain) (hattach : attach statement pending = (other, finished))
    (h : (pass.after finished).result = .ok statements)
    (hrest : ∀ {later}, pass.result = .ok later → Assembled other rest later) :
    Assembled pending (statement.tokens ++ rest) statements := by
  rw [Pass.result_after] at h
  obtain ⟨later, hlater, rfl⟩ := map_eq_ok_iff.mp h
  have hall : Assembled (attach statement pending).1 rest later := by
    rw [hattach]
    exact hrest hlater
  rw [← show (attach statement pending).2 = finished from congrArg Prod.snd hattach]
  exact .statement hplain hall

/-- Whatever assembly accepts is covered by the rules. -/
theorem assembled_of_assemble {pending : Option Pending} {previous : Option Token}
    {tokens : List Token} {statements : List Statement}
    (h : assemble pending previous tokens = .ok statements) :
    Assembled pending tokens statements := by
  unfold assemble at h
  fun_induction parse pending previous tokens generalizing statements
  case case1 => exact .finish (by simp) h
  case case2 hkind ih => exact .start hkind (ih h)
  case case3 hkind => exact .finish (by simpa using hkind) h
  case case7 hname _ _ hbrace ih => exact .opening hname hbrace (ih h)
  case case10 hbrace pending ih =>
    rw [Pass.result_after] at h
    obtain ⟨later, hlater, rfl⟩ := map_eq_ok_iff.mp h
    exact .closing hbrace (ih hlater)
  case case12 hmark _ _ htext _ _ hattach ih => exact .following (.comment hmark htext) hattach h ih
  case case17 hkey _ _ _ hsign hvalue _ _ hattach ih =>
    exact .following (.assignment hkey hsign hvalue) hattach h ih
  case case20 hkind _ _ hattach ih => exact .following (.newline hkind) hattach h ih
  all_goals cases h

/-! ## What the statements hold -/

/-- The tokens between the start and the end of the file. -/
def body (tokens : List Token) : List Token :=
  (tokens.takeWhile fun token ↦ token.kind ≠ .endOfFile).filter fun token ↦
    token.kind ≠ .startOfFile

theorem body_append {front : List Token} (h : ∀ token ∈ front, token.IsInner) (rest : List Token) :
    body (front ++ rest) = front ++ body rest := by
  have hend : ∀ token ∈ front, decide (token.kind ≠ .endOfFile) = true :=
    fun token htoken ↦ decide_eq_true (h token htoken).2
  have hstart : ∀ token ∈ front, decide (token.kind ≠ .startOfFile) = true :=
    fun token htoken ↦ decide_eq_true (h token htoken).1
  rw [body, List.takeWhile_append_of_pos hend, List.filter_append, List.filter_eq_self.mpr hstart,
    ← body]

theorem body_opening {name brace : Token} (hname : name.kind = .sectionName)
    (hbrace : brace.kind = .sectionStart) (rest : List Token) :
    body (name :: brace :: rest) = name :: brace :: body rest := by
  have hinner : ∀ token ∈ [name, brace], token.IsInner := by
    simp [Token.IsInner, hname, hbrace]
  exact body_append hinner rest

theorem body_closing {brace : Token} (hbrace : brace.kind = .sectionEnd) (rest : List Token) :
    body (brace :: rest) = brace :: body rest := by
  have hinner : ∀ token ∈ [brace], token.IsInner := by simp [Token.IsInner, hbrace]
  exact body_append hinner rest

theorem body_cons_of_start {token : Token} (h : token.kind = .startOfFile) (rest : List Token) :
    body (token :: rest) = body rest := by
  simp [body, h]

theorem body_of_stop {tokens : List Token}
    (h : ∀ token ∈ tokens.head?, token.kind = .endOfFile) : body tokens = [] := by
  cases tokens with
  | nil => rfl
  | cons token rest =>
    have hkind : token.kind = .endOfFile := h token rfl
    simp [body, hkind]

namespace Assembled

variable {pending : Option Pending} {tokens : List Token} {statements : List Statement}

/-- Assembly keeps every token. -/
theorem tokensOf_eq (h : Assembled pending tokens statements) :
    pending.elim [] Pending.tokens ++ body tokens = Statement.tokensOf statements := by
  induction h with
  | stop hstop => rw [body_of_stop hstop]; rfl
  | @start pending token rest _ hkind _ ih =>
    rw [body_cons_of_start hkind, ih]
  | @opening name brace rest _ hname hbrace _ ih =>
    rw [body_opening hname hbrace, ← ih]
    rfl
  | @closing pending brace rest _ hbrace _ ih =>
    rw [body_closing hbrace, Statement.tokensOf, ← ih]
    simp [Statement.tokens, Pending.tokens]
  | @statement pending statement rest later hplain _ ih =>
    rw [body_append hplain.tokens_spec.1]
    cases pending with
    | none => exact congrArg (statement.tokens ++ ·) ih
    | some pending =>
      have hchildren : Pending.tokens { pending with children := pending.children ++ [statement] } =
          pending.tokens ++ statement.tokens := by
        simp [Pending.tokens, Statement.tokensOf_append, Statement.tokensOf]
      change pending.tokens ++ (statement.tokens ++ body rest) = Statement.tokensOf later
      rw [← List.append_assoc, ← hchildren]
      exact ih

/-- Assembly leaves no section open. -/
theorem enclosing_eq_none (h : Assembled pending tokens statements) :
    (body tokens).foldl Token.enclosingAfter (pending.map fun around ↦ around.name.value) =
      none := by
  induction h with
  | stop hstop => rw [body_of_stop hstop]; rfl
  | @start pending token rest _ hkind _ ih =>
    rwa [body_cons_of_start hkind]
  | @opening name brace rest _ hname hbrace _ ih =>
    rw [body_opening hname hbrace]
    simpa [Token.enclosingAfter, hname, hbrace] using ih
  | @closing pending brace rest _ hbrace _ ih =>
    rw [body_closing hbrace]
    simpa [Token.enclosingAfter, hbrace] using ih
  | @statement pending statement rest _ hplain _ ih =>
    rw [body_append hplain.tokens_spec.1, List.foldl_append, hplain.tokens_spec.2]
    cases pending with
    | none => exact ih
    | some pending => exact ih

end Assembled

/-- The tokens of an assembled document are the ones that it was assembled from, and they leave no
section open. -/
theorem ofTokens_spec {tokens : List Token} {document : Document}
    (h : ofTokens tokens = .ok document) :
    Statement.tokensOf document.statements = body tokens ∧
      (body tokens).foldl Token.enclosingAfter none = none := by
  rw [ofTokens_eq_assemble] at h
  obtain ⟨statements, hassemble, rfl⟩ := map_eq_ok_iff.mp h
  have hassembled := assembled_of_assemble hassemble
  exact ⟨hassembled.tokensOf_eq.symm, hassembled.enclosing_eq_none⟩

/-! ## What can be wrong -/

section Faults

variable {pending : Option Pending} {previous : Option Token} {tokens tokens' : List Token}
  {error : Error}

/-- What can be wrong with tokens: one of them is a failure, or the structure is not right on the
line of one of them. -/
inductive Broken (tokens : List Token) : Error → Prop
  | failure {token : Token} (hmem : token ∈ tokens) (hkind : token.kind = .failure) :
      Broken tokens (token.failure?.getD (.custom token.value))
  | structural {token : Token} (hmem : token ∈ tokens) (expected found : String) :
      Broken tokens (.structural token.line expected found)

theorem Broken.mono (hsubset : tokens ⊆ tokens') (h : Broken tokens error) :
    Broken tokens' error := by
  cases h with
  | failure hmem hkind => exact .failure (hsubset hmem) hkind
  | structural hmem expected found => exact .structural (hsubset hmem) expected found

/-- The token that names the open section. -/
def openNames (pending : Option Pending) : List Token :=
  (pending.map Pending.name).toList

/-- Adding a statement leaves the same section open. -/
theorem openNames_attach {statement : Statement} {after : Option Pending}
    {finished : List Statement} (h : attach statement pending = (after, finished)) :
    openNames after = openNames pending := by
  cases pending with
  | none =>
    cases h
    rfl
  | some pending =>
    cases h
    rfl

theorem Broken.of_failed {token : Token} {expected found : String} (hmem : token ∈ tokens)
    (h : (Pass.failed (.structural token.line expected found)).fault = some error) :
    Broken tokens error := by
  obtain rfl := Option.some.inj h
  exact .structural hmem expected found

theorem Broken.finish {pending : Option Pending} (h : (finish pending).fault = some error) :
    Broken (openNames pending) error := by
  cases pending with
  | none => cases h
  | some pending => exact .of_failed List.mem_cons_self h

/-- What is wrong behind a statement is wrong in front of it: `read` are its tokens. -/
theorem Broken.of_attach {statement : Statement} {after : Option Pending}
    {finished : List Statement} (hattach : attach statement pending = (after, finished))
    (read : List Token) (h : Broken (openNames after ++ tokens) error) :
    Broken (openNames pending ++ (read ++ tokens)) error := by
  rw [openNames_attach hattach] at h
  refine h.mono (List.append_subset.mpr ⟨List.subset_append_left _ _, ?_⟩)
  exact List.Subset.trans (List.subset_append_right read tokens) (List.subset_append_right _ _)

theorem broken_of_fault (h : (parse pending previous tokens).fault = some error) :
    Broken (openNames pending ++ tokens) error := by
  -- Every step either breaks off at a token that it has met, or goes on with the tokens behind it.
  fun_induction parse pending previous tokens
  case case1 | case3 => exact (Broken.finish h).mono (List.subset_append_left _ _)
  case case4 hkind =>
    obtain rfl := Option.some.inj h
    exact .failure (by simp) hkind
  case case2 ih => exact (ih h).mono (by simp)
  case case7 ih | case10 ih => exact (ih h).mono (by simp [openNames])
  case case12 mark _ text _ _ _ _ hattach ih => exact .of_attach hattach [mark, text] (ih h)
  case case17 key _ sign value _ _ _ _ _ hattach ih =>
    exact .of_attach hattach [key, sign, value] (ih h)
  case case20 feed _ _ _ _ hattach ih => exact .of_attach hattach [feed] (ih h)
  all_goals exact .of_failed (by simp [openNames]) h

/-- What goes wrong in assembling a document is a failure among the tokens, or the structure on the
line of one of them. -/
theorem broken_of_ofTokens (h : ofTokens tokens = .error error) : Broken tokens error := by
  have hfault : (parse none none tokens).fault = some error := by
    unfold ofTokens reassemble at h
    cases hfault : (parse none none tokens).fault with
    | none =>
      simp only [hfault] at h
      cases h
    | some found =>
      simp only [hfault] at h
      rw [Except.error.inj h]
  exact broken_of_fault hfault

end Faults

end Document

end SectionedConfig

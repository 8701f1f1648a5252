import SectionedConfig.Proofs.Document.Appending

/-!
# Assembling a flattened document

The type of statements allows sections inside sections, and a document of any shape can be
flattened. Assembling its tokens gives the document back, with the places that flattening gave to
the tokens, provided that no section stands inside a section. The name of an inner section is where
assembly fails otherwise, because the section around it is still open. Places play no part in any of
this: whatever tokens stand in the places of the flattened ones become the same statements.
-/

namespace SectionedConfig

open Statement Text

/-! ## Statements without places -/

theorem Token.kind_congr {token other : Token}
    (h : token.unplaced = other.unplaced) : token.kind = other.kind := by
  change token.unplaced.kind = other.unplaced.kind
  rw [h]

namespace Statement

mutual

/-- A statement without the places of its tokens. -/
def unplaced : Statement → Statement
  | newline token => newline token.unplaced
  | comment mark text => comment mark.unplaced text.unplaced
  | assignment key sign value => assignment key.unplaced sign.unplaced value.unplaced
  | block name opening children closing =>
    block name.unplaced opening.unplaced (unplacedAll children) closing.unplaced

/-- Statements in a row without the places of their tokens. -/
def unplacedAll : List Statement → List Statement
  | [] => []
  | statement :: rest => statement.unplaced :: unplacedAll rest

end

theorem unplacedAll_eq_map (statements : List Statement) :
    unplacedAll statements = statements.map unplaced := by
  induction statements with
  | nil => rfl
  | cons statement rest ih => exact congrArg (statement.unplaced :: ·) ih

theorem isBlock_unplaced (statement : Statement) :
    statement.unplaced.isBlock = statement.isBlock := by
  cases statement <;> rfl

theorem children_unplaced (statement : Statement) :
    statement.unplaced.children = statement.children.map unplaced := by
  cases statement with
  | block name opening children closing => exact unplacedAll_eq_map children
  | newline | comment | assignment => rfl

/-- A statement whose tokens are of the kinds that their slots ask for. Sections can stand inside
sections. -/
inductive HasKinds : Statement → Prop where
  | plain {statement : Statement} (h : statement.IsPlain) : HasKinds statement
  | block {name opening closing : Token} {children : List Statement}
      (hname : name.kind = .sectionName) (hopening : opening.kind = .sectionStart)
      (hchildren : ∀ child ∈ children, child.HasKinds) (hclosing : closing.kind = .sectionEnd) :
      HasKinds (.block name opening children closing)

theorem hasKinds_lineEnd : lineEnd.HasKinds :=
  .plain (.newline rfl)

theorem hasKinds_remark (text : String) : (remark text).HasKinds :=
  .plain (.comment rfl rfl)

theorem hasKinds_assign (key : String) {value : Token} (h : value.kind.isValue = true) :
    (assign key value).HasKinds :=
  .plain (.assignment rfl rfl h)

theorem hasKinds_blockOf (name : String) {children : List Statement}
    (h : ∀ child ∈ children, child.HasKinds) : (blockOf name children).HasKinds :=
  .block rfl rfl h rfl

/-- A statement that holds no section. -/
def IsFlat (statement : Statement) : Prop :=
  ∀ child ∈ statement.children, child.isBlock = false

theorem IsPlain.isBlock_eq_false {statement : Statement} (h : statement.IsPlain) :
    statement.isBlock = false := by
  cases h <;> rfl

theorem IsPlain.isFlat {statement : Statement} (h : statement.IsPlain) : statement.IsFlat := by
  cases h <;> simp [IsFlat, children]

namespace HasKinds

variable {statement : Statement}

theorem isPlain (h : statement.HasKinds) (hblock : statement.isBlock = false) :
    statement.IsPlain := by
  cases h with
  | plain h => exact h
  | block hname hopening hchildren hclosing => cases hblock

theorem exists_tokens_eq_cons (h : statement.HasKinds) (hblock : statement.isBlock = true) :
    ∃ name rest, statement.tokens = name :: rest ∧ name.kind = .sectionName := by
  cases h with
  | plain h => cases h <;> cases hblock
  | block hname hopening hchildren hclosing => exact ⟨_, _, rfl, hname⟩

end HasKinds

theorem isFlat_unplaced {statement : Statement} : statement.unplaced.IsFlat ↔ statement.IsFlat := by
  rw [IsFlat, children_unplaced, List.forall_mem_map]
  simp only [isBlock_unplaced]
  rfl

theorem isFlat_of_map_unplaced {statements others : List Statement}
    (h : others.map unplaced = statements.map unplaced)
    (hflat : ∀ statement ∈ statements, statement.IsFlat) : ∀ other ∈ others, other.IsFlat := by
  have hunplaced : ∀ other ∈ others.map unplaced, other.IsFlat := by
    rw [h, List.forall_mem_map]
    exact fun statement hstatement ↦ isFlat_unplaced.mpr (hflat statement hstatement)
  exact fun other hother ↦ isFlat_unplaced.mp (hunplaced _ (List.mem_map_of_mem hother))

/-! ## Statements of other tokens -/

/-- Whatever tokens differ from those of the statement in their places alone, they are the tokens of
a statement that differs from it in places alone. -/
def CanMove (statement : Statement) : Prop :=
  ∀ tokens : List Token, tokens.map Token.unplaced = statement.tokens.map Token.unplaced →
    ∃ moved : Statement, moved.HasKinds ∧ moved.tokens = tokens ∧
      moved.unplaced = statement.unplaced

theorem exists_moved {statements : List Statement} (h : ∀ statement ∈ statements, statement.CanMove)
    {tokens : List Token}
    (htokens : tokens.map Token.unplaced = (tokensOf statements).map Token.unplaced) :
    ∃ moved : List Statement, (∀ statement ∈ moved, statement.HasKinds) ∧
      tokensOf moved = tokens ∧ moved.map unplaced = statements.map unplaced := by
  induction statements generalizing tokens with
  | nil =>
    obtain rfl : tokens = [] := by simpa [tokensOf] using htokens
    exact ⟨[], by simp, rfl, rfl⟩
  | cons statement rest ih =>
    obtain ⟨hstatement, hrest⟩ := List.forall_mem_cons.mp h
    rw [tokensOf, List.map_append, List.map_eq_append_iff] at htokens
    obtain ⟨front, back, rfl, hfront, hback⟩ := htokens
    obtain ⟨first, hkinds, rfl, hfirst⟩ := hstatement front hfront
    obtain ⟨others, hothers, rfl, hmap⟩ := ih hrest hback
    refine ⟨first :: others, List.forall_mem_cons.mpr ⟨hkinds, hothers⟩, rfl, ?_⟩
    rw [List.map_cons, List.map_cons, hfirst, hmap]

theorem IsPlain.canMove {statement : Statement} (h : statement.IsPlain) : statement.CanMove := by
  intro tokens htokens
  cases h with
  | newline hkind =>
    simp only [Statement.tokens, List.map_cons, List.map_nil, List.map_eq_cons_iff,
      List.map_eq_nil_iff] at htokens
    obtain ⟨token, _, rfl, hsame, rfl⟩ := htokens
    have hplain : IsPlain (.newline token) := .newline ((Token.kind_congr hsame).trans hkind)
    refine ⟨.newline token, .plain hplain, rfl, ?_⟩
    rw [unplaced, unplaced, hsame]
  | comment hmark htext =>
    simp only [Statement.tokens, List.map_cons, List.map_nil, List.map_eq_cons_iff,
      List.map_eq_nil_iff] at htokens
    obtain ⟨mark, _, rfl, hsame, text, _, rfl, hsame', rfl⟩ := htokens
    have hplain : IsPlain (.comment mark text) :=
      .comment ((Token.kind_congr hsame).trans hmark) ((Token.kind_congr hsame').trans htext)
    refine ⟨.comment mark text, .plain hplain, rfl, ?_⟩
    rw [unplaced, unplaced, hsame, hsame']
  | assignment hkey hsign hvalue =>
    simp only [Statement.tokens, List.map_cons, List.map_nil, List.map_eq_cons_iff,
      List.map_eq_nil_iff] at htokens
    obtain ⟨key, _, rfl, hsame, sign, _, rfl, hsame', value, _, rfl, hsame'', rfl⟩ := htokens
    have hplain : IsPlain (.assignment key sign value) :=
      .assignment ((Token.kind_congr hsame).trans hkey) ((Token.kind_congr hsame').trans hsign)
        (by rwa [Token.kind_congr hsame''])
    refine ⟨.assignment key sign value, .plain hplain, rfl, ?_⟩
    rw [unplaced, unplaced, hsame, hsame', hsame'']

theorem HasKinds.canMove {statement : Statement} (h : statement.HasKinds) :
    statement.CanMove := by
  induction h with
  | plain h => exact h.canMove
  | block hname hopening hchildren hclosing ih =>
    intro tokens htokens
    simp only [Statement.tokens, List.map_cons, List.map_append, List.map_nil,
      List.map_eq_cons_iff, List.map_eq_append_iff, List.map_eq_nil_iff] at htokens
    obtain ⟨name, _, rfl, hsame, opening, _, rfl, hsame', front, _, rfl, hfront, closing, _, rfl,
      hsame'', rfl⟩ := htokens
    obtain ⟨children, hkinds, rfl, hmap⟩ := exists_moved ih hfront
    refine ⟨.block name opening children closing, .block ?_ ?_ hkinds ?_, rfl, ?_⟩
    · exact (Token.kind_congr hsame).trans hname
    · exact (Token.kind_congr hsame').trans hopening
    · exact (Token.kind_congr hsame'').trans hclosing
    · rw [unplaced, unplaced, hsame, hsame', hsame'', unplacedAll_eq_map, unplacedAll_eq_map, hmap]

end Statement

/-! ## Assembling what was flattened -/

namespace Document

theorem following_nil (rest : Except Error (List Statement)) : following [] rest = rest := by
  cases rest <;> rfl

/-- Assembly goes on behind a plain statement. -/
theorem exists_assemble_plain {statement : Statement} (h : statement.IsPlain)
    (pending : Option Pending) (previous : Option Token) (rest : List Token) :
    ∃ last, assemble pending previous (statement.tokens ++ rest) =
      following (attach statement pending).2 (assemble (attach statement pending).1 last rest) := by
  cases h with
  | @newline token hkind =>
    refine ⟨some token, ?_⟩
    rw [Statement.tokens, List.singleton_append, assemble, parse.eq_def]
    simp only [hkind, Pass.result_after]
    rfl
  | @comment mark text hmark htext =>
    refine ⟨some text, ?_⟩
    rw [Statement.tokens, List.cons_append, List.singleton_append, assemble, parse.eq_def]
    simp only [hmark, htext, if_true, Pass.result_after]
    rfl
  | @assignment key sign value hkey hsign hvalue =>
    refine ⟨some value, ?_⟩
    rw [Statement.tokens, List.cons_append, List.cons_append, List.singleton_append,
      assemble, parse.eq_def]
    simp only [hkey, hsign, hvalue, if_true, Pass.result_after]
    rfl

theorem assemble_endOfFile {token : Token} (h : token.kind = .endOfFile)
    (pending : Option Pending) (previous : Option Token) (rest : List Token) :
    assemble pending previous (token :: rest) = (finish pending).result := by
  rw [assemble, parse.eq_def]
  simp only [h]

theorem assemble_startOfFile {token : Token} (h : token.kind = .startOfFile)
    (pending : Option Pending) (previous : Option Token) (rest : List Token) :
    assemble pending previous (token :: rest) = assemble pending (some token) rest := by
  rw [assemble, parse.eq_def]
  simp only [h]
  rfl

theorem assemble_opening {name opening : Token} (hname : name.kind = .sectionName)
    (hopening : opening.kind = .sectionStart) (previous : Option Token) (rest : List Token) :
    assemble none previous (name :: opening :: rest) =
      assemble (some ⟨name, opening, []⟩) (some opening) rest := by
  rw [assemble, parse.eq_def]
  simp only [hname, hopening, if_true]
  rfl

theorem assemble_closing {closing : Token} (hclosing : closing.kind = .sectionEnd)
    (pending : Pending) (previous : Option Token) (rest : List Token) :
    assemble (some pending) previous (closing :: rest) =
      following [.block pending.name pending.opening pending.children closing]
        (assemble none (some closing) rest) := by
  rw [assemble, parse.eq_def]
  simp only [hclosing, Pass.result_after]
  rfl

/-- The complaint about a section inside the section of the given name. -/
def nested (line : Nat) (around : String) : Error :=
  .structural line ("end of section " ++ quoted around) TokenKind.sectionName.name

theorem assemble_inner {name : Token} (hname : name.kind = .sectionName) (pending : Pending)
    (previous : Option Token) (rest : List Token) :
    assemble (some pending) previous (name :: rest) =
      .error (nested name.line pending.name.value) := by
  rw [assemble, parse.eq_def]
  simp only [hname]
  rfl

theorem assemble_unopened {brace : Token} (hbrace : brace.kind = .sectionEnd)
    (previous : Option Token) (rest : List Token) :
    assemble none previous (brace :: rest) =
      .error (.structural brace.line "open section" TokenKind.sectionEnd.name) := by
  rw [assemble, parse.eq_def]
  simp only [hbrace]
  rfl

/-- Plain statements go into the open section. -/
theorem exists_assemble_children {children : List Statement}
    (h : ∀ child ∈ children, child.IsPlain) (pending : Pending) (previous : Option Token)
    (rest : List Token) :
    ∃ last, assemble (some pending) previous (tokensOf children ++ rest) =
      assemble (some { pending with children := pending.children ++ children }) last rest := by
  induction children generalizing pending previous with
  | nil =>
    refine ⟨previous, ?_⟩
    rw [List.append_nil]
    rfl
  | cons child others ih =>
    obtain ⟨hchild, hothers⟩ := List.forall_mem_cons.mp h
    let longer : Pending := { pending with children := pending.children ++ [child] }
    obtain ⟨next, hnext⟩ := exists_assemble_plain hchild (some pending) previous
      (tokensOf others ++ rest)
    obtain ⟨last, hlast⟩ := ih hothers longer next
    refine ⟨last, ?_⟩
    calc
      assemble (some pending) previous (tokensOf (child :: others) ++ rest) =
          assemble (some pending) previous (child.tokens ++ (tokensOf others ++ rest)) := by
        rw [tokensOf, List.append_assoc]
      _ = following [] (assemble (some longer) next (tokensOf others ++ rest)) := hnext
      _ = assemble (some longer) next (tokensOf others ++ rest) := following_nil _
      _ = assemble (some { pending with children := pending.children ++ child :: others }) last
            rest := by
        rw [hlast, List.append_assoc]
        rfl

/-- A statement that holds no section is assembled as itself. -/
theorem exists_assemble_flat {statement : Statement} (h : statement.HasKinds)
    (hflat : statement.IsFlat) (previous : Option Token) (rest : List Token) :
    ∃ last, assemble none previous (statement.tokens ++ rest) =
      following [statement] (assemble none last rest) := by
  cases h with
  | plain hplain => exact exists_assemble_plain hplain none previous rest
  | @block name opening closing children hname hopening hchildren hclosing =>
    have hplain : ∀ child ∈ children, child.IsPlain := fun child hchild ↦
      (hchildren child hchild).isPlain (hflat child hchild)
    obtain ⟨last, hlast⟩ := exists_assemble_children hplain ⟨name, opening, []⟩ (some opening)
      (closing :: rest)
    refine ⟨some closing, ?_⟩
    calc
      assemble none previous ((Statement.block name opening children closing).tokens ++ rest) =
          assemble none previous (name :: opening :: (tokensOf children ++ closing :: rest)) := by
        simp [Statement.tokens]
      _ = assemble (some ⟨name, opening, children⟩) last (closing :: rest) :=
        (assemble_opening hname hopening previous _).trans hlast
      _ = following [.block name opening children closing] (assemble none (some closing) rest) :=
        assemble_closing hclosing _ last rest

/-- A section that holds another one is refused at the name of the inner one. -/
theorem exists_assemble_nested {statement : Statement} (h : statement.HasKinds)
    (hflat : ¬ statement.IsFlat) (previous : Option Token) (rest : List Token) :
    ∃ line around, assemble none previous (statement.tokens ++ rest) =
      .error (nested line around) := by
  cases h with
  | plain hplain => exact absurd hplain.isFlat hflat
  | @block name opening closing children hname hopening hchildren hclosing =>
    -- The first section among the children has plain statements in front of it.
    obtain ⟨inner, hfind⟩ : ∃ inner, children.find? isBlock = some inner := by
      rw [← Option.isSome_iff_exists, List.find?_isSome]
      simpa [IsFlat, Statement.children] using hflat
    obtain ⟨hinner, front, back, rfl, hfront⟩ := List.find?_eq_some_iff_append.mp hfind
    have hplain : ∀ child ∈ front, child.IsPlain := fun child hchild ↦
      (hchildren child (List.mem_append_left _ hchild)).isPlain (by simpa using hfront child hchild)
    obtain ⟨token, later, htokens, hkind⟩ :=
      (hchildren inner (by simp)).exists_tokens_eq_cons hinner
    obtain ⟨last, hlast⟩ := exists_assemble_children hplain ⟨name, opening, []⟩ (some opening)
      (inner.tokens ++ (tokensOf back ++ closing :: rest))
    refine ⟨token.line, name.value, ?_⟩
    calc
      assemble none previous
          ((Statement.block name opening (front ++ inner :: back) closing).tokens ++ rest) =
          assemble none previous (name :: opening ::
            (tokensOf front ++ (inner.tokens ++ (tokensOf back ++ closing :: rest)))) := by
        simp [Statement.tokens, tokensOf_append, tokensOf]
      _ = assemble (some ⟨name, opening, front⟩) last
            (inner.tokens ++ (tokensOf back ++ closing :: rest)) :=
        (assemble_opening hname hopening previous _).trans hlast
      _ = .error (nested token.line name.value) := by
        rw [htokens]
        exact assemble_inner hkind _ last _

/-- Statements that hold no section are assembled as themselves. -/
theorem assemble_of_isFlat {statements : List Statement}
    (h : ∀ statement ∈ statements, statement.HasKinds)
    (hflat : ∀ statement ∈ statements, statement.IsFlat) (previous : Option Token) :
    assemble none previous (tokensOf statements ++ [.endOfFile]) = .ok statements := by
  induction statements generalizing previous with
  | nil => rfl
  | cons statement rest ih =>
    obtain ⟨hkinds, hrest⟩ := List.forall_mem_cons.mp h
    obtain ⟨hfirst, hothers⟩ := List.forall_mem_cons.mp hflat
    obtain ⟨last, hlast⟩ := exists_assemble_flat hkinds hfirst previous
      (tokensOf rest ++ [.endOfFile])
    rw [tokensOf, List.append_assoc, hlast, ih hrest hothers last]
    rfl

/-- Whatever tokens stand in the places of theirs, statements that hold no section are assembled as
themselves. -/
theorem exists_assembled {statements : List Statement}
    (h : ∀ statement ∈ statements, statement.HasKinds)
    (hflat : ∀ statement ∈ statements, statement.IsFlat) {tokens : List Token}
    (htokens : tokens.map Token.unplaced = (tokensOf statements).map Token.unplaced)
    (previous : Option Token) :
    ∃ moved, assemble none previous (tokens ++ [.endOfFile]) = .ok moved ∧
      tokensOf moved = tokens ∧ moved.map unplaced = statements.map unplaced := by
  obtain ⟨moved, hkinds, rfl, hmoved⟩ := exists_moved (fun statement hstatement ↦
    (h statement hstatement).canMove) htokens
  have hassembled := assemble_of_isFlat hkinds (isFlat_of_map_unplaced hmoved hflat) previous
  exact ⟨moved, hassembled, rfl, hmoved⟩

/-- The first section that holds another one ends the assembly. -/
theorem exists_assemble_of_not_isFlat {statements : List Statement}
    (h : ∀ statement ∈ statements, statement.HasKinds)
    (hflat : ¬ ∀ statement ∈ statements, statement.IsFlat) (previous : Option Token)
    (rest : List Token) :
    ∃ line around, assemble none previous (tokensOf statements ++ rest) =
      .error (nested line around) := by
  induction statements generalizing previous with
  | nil => simp at hflat
  | cons statement others ih =>
    obtain ⟨hkinds, hothers⟩ := List.forall_mem_cons.mp h
    rw [tokensOf, List.append_assoc]
    by_cases hfirst : statement.IsFlat
    · have hlater : ¬ ∀ other ∈ others, other.IsFlat := fun hall ↦
        hflat (List.forall_mem_cons.mpr ⟨hfirst, hall⟩)
      obtain ⟨last, hlast⟩ := exists_assemble_flat hkinds hfirst previous (tokensOf others ++ rest)
      obtain ⟨line, around, herror⟩ := ih hothers hlater last
      refine ⟨line, around, ?_⟩
      rw [hlast, herror]
      rfl
    · exact exists_assemble_nested hkinds hfirst previous (tokensOf others ++ rest)

/-! ## Flattened documents -/

theorem numberLines_numberLines (number : Nat) (tokens : List Token) :
    numberLines number (numberLines number tokens) = numberLines number tokens := by
  induction tokens generalizing number with
  | nil => rfl
  | cons token rest ih => exact congrArg (_ :: ·) (ih _)

theorem map_unplaced_numberLines (number : Nat) (tokens : List Token) :
    (numberLines number tokens).map Token.unplaced = tokens.map Token.unplaced := by
  induction tokens generalizing number with
  | nil => rfl
  | cons token rest ih => exact congrArg (token.unplaced :: ·) (ih _)

/-- The end of the file that a document without statements lacks is not missed. -/
theorem assemble_tokens (document : Document) :
    assemble none none document.tokens =
      assemble none none (numberLines 1 (tokensOf document.statements) ++ [.endOfFile]) := by
  rw [tokens]
  split
  next hempty =>
    rw [List.isEmpty_iff.mp hempty]
    rfl
  next => rfl

theorem tokens_eq_of_tokensOf_eq {document other : Document}
    (h : tokensOf other.statements = numberLines 1 (tokensOf document.statements)) :
    other.tokens = document.tokens := by
  rw [tokens, tokens, h, numberLines_numberLines]

/-- The tokens of a document without sections inside sections are assembled again. -/
theorem exists_rebuilt {document : Document}
    (h : ∀ statement ∈ document.statements, statement.HasKinds)
    (hflat : ∀ statement ∈ document.statements, statement.IsFlat) :
    ∃ rebuilt, ofTokens document.tokens = .ok rebuilt ∧
      rebuilt.statements.map Statement.unplaced = document.statements.map Statement.unplaced ∧
        rebuilt.tokens = document.tokens := by
  obtain ⟨moved, hassembled, htokens, hmoved⟩ :=
    exists_assembled h hflat (map_unplaced_numberLines 1 (tokensOf document.statements)) none
  refine ⟨⟨moved⟩, ?_, hmoved, tokens_eq_of_tokensOf_eq htokens⟩
  rw [ofTokens_eq_assemble, assemble_tokens, hassembled]
  rfl

/-- The tokens of a document with a section inside a section are not assembled. -/
theorem exists_ofTokens_eq_nested {document : Document}
    (h : ∀ statement ∈ document.statements, statement.HasKinds)
    (hflat : ¬ ∀ statement ∈ document.statements, statement.IsFlat) :
    ∃ line around, ofTokens document.tokens = .error (nested line around) := by
  obtain ⟨moved, hkinds, htokens, hmoved⟩ := exists_moved (fun statement hstatement ↦
    (h statement hstatement).canMove) (map_unplaced_numberLines 1 (tokensOf document.statements))
  have hnested : ¬ ∀ statement ∈ moved, statement.IsFlat := fun hall ↦
    hflat (isFlat_of_map_unplaced hmoved.symm hall)
  obtain ⟨line, around, herror⟩ := exists_assemble_of_not_isFlat hkinds hnested none [.endOfFile]
  refine ⟨line, around, ?_⟩
  rw [ofTokens_eq_assemble, assemble_tokens, ← htokens, herror]
  rfl

/-- Flattening a document and assembling its tokens succeeds if no section stands inside a section,
and only then. It gives the document back but for the places of its tokens, and these are the places
of the flattened tokens. Otherwise a section is complained about inside another one, and rebuilding
any document leaves no statements. -/
theorem ofTokens_tokens {document : Document}
    (h : ∀ statement ∈ document.statements, statement.HasKinds) :
    ((∃ rebuilt, ofTokens document.tokens = .ok rebuilt) ↔
        ∀ statement ∈ document.statements, statement.IsFlat) ∧
      (∀ rebuilt, ofTokens document.tokens = .ok rebuilt →
        rebuilt.statements.map Statement.unplaced = document.statements.map Statement.unplaced ∧
          rebuilt.tokens = document.tokens) ∧
      ∀ error, ofTokens document.tokens = .error error →
        (∃ line expected found, error = .structural line expected found) ∧
          ∀ held : Document, held.reassemble document.tokens = (.error error, .empty) := by
  by_cases hflat : ∀ statement ∈ document.statements, statement.IsFlat
  · obtain ⟨rebuilt, hrebuilt, hsame⟩ := exists_rebuilt h hflat
    rw [hrebuilt]
    refine ⟨⟨fun _ ↦ hflat, fun _ ↦ ⟨rebuilt, rfl⟩⟩, fun other hother ↦ ?_, nofun⟩
    obtain rfl := Except.ok.inj hother
    exact hsame
  · obtain ⟨line, around, hnested⟩ := exists_ofTokens_eq_nested h hflat
    rw [hnested]
    refine ⟨⟨nofun, fun hall ↦ absurd hall hflat⟩, nofun, fun error herror ↦ ?_⟩
    obtain rfl := Except.error.inj herror
    exact ⟨⟨_, _, _, rfl⟩, fun held ↦ by rw [reassemble_eq, hnested]⟩

/-- An assignment, an empty section and a comment without line ends between them are found again.
A section two levels deep is complained about on the line of its name, which is counted anew. -/
theorem ofTokens_tokens_deep :
    (∃ rebuilt,
      ofTokens (tokens ⟨[.assignInt64 "a" 1, .blockOf "s" [], .remark "c"]⟩) = .ok rebuilt ∧
        rebuilt.tokens = tokens ⟨[.assignInt64 "a" 1, .blockOf "s" [], .remark "c"]⟩) ∧
      ofTokens (tokens ⟨[.lineEnd, .blockOf "s" [.lineEnd, .blockOf "t" [.blockOf "u" []]]]⟩) =
        .error (.structural 3 "end of section \"s\"" "section") ∧
      reassemble ⟨[.remark "old"]⟩
          (tokens ⟨[.lineEnd, .blockOf "s" [.lineEnd, .blockOf "t" [.blockOf "u" []]]]⟩) =
        (.error (.structural 3 "end of section \"s\"" "section"), .empty) := by
  have hassign : (Statement.assignInt64 "a" 1).HasKinds := hasKinds_assign "a" rfl
  have hrow : ∀ statement ∈
      (Document.mk [.assignInt64 "a" 1, .blockOf "s" [], .remark "c"]).statements,
      statement.HasKinds := by
    simp [hassign, hasKinds_blockOf, hasKinds_remark]
  have hflat : ∀ statement ∈
      (Document.mk [.assignInt64 "a" 1, .blockOf "s" [], .remark "c"]).statements,
      statement.IsFlat := by
    simp [IsFlat, Statement.children, assignInt64, assign, blockOf, remark]
  have hempty : (Statement.blockOf "t" [.blockOf "u" []]).HasKinds :=
    hasKinds_blockOf "t" (by simp [hasKinds_blockOf])
  have hdeep : ∀ statement ∈
      (Document.mk [.lineEnd, .blockOf "s" [.lineEnd, .blockOf "t" [.blockOf "u" []]]]).statements,
      statement.HasKinds :=
    List.forall_mem_cons.mpr ⟨hasKinds_lineEnd, List.forall_mem_singleton.mpr
      (hasKinds_blockOf "s" (by simp [hasKinds_lineEnd, hempty]))⟩
  have hmessage : nested 3 "s" = .structural 3 "end of section \"s\"" "section" := by
    decide +kernel
  have herror : ofTokens
      (tokens ⟨[.lineEnd, .blockOf "s" [.lineEnd, .blockOf "t" [.blockOf "u" []]]]⟩) =
        .error (nested 3 "s") := rfl
  rw [hmessage] at herror
  obtain ⟨rebuilt, hrebuilt⟩ := (ofTokens_tokens hrow).1.mpr hflat
  exact ⟨⟨rebuilt, hrebuilt, ((ofTokens_tokens hrow).2.1 rebuilt hrebuilt).2⟩, herror,
    ((ofTokens_tokens hdeep).2.2 _ herror).2 ⟨[.remark "old"]⟩⟩

end Document

end SectionedConfig

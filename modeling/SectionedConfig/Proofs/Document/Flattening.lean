import SectionedConfig.Proofs.Document.Assembly

/-!
# Flattening an assembled document

A document that was assembled from tokens is flattened into these tokens again, without the ones
that stand for the start of the file and without what comes behind its end. Only the lines are
counted anew. No section of the document contains another one. The flattened tokens are rendered as
the tokens of the assembly: nothing is written for the start of the file, and the layout does not
look at places.
-/

namespace SectionedConfig

open Layout

/-- A token on the given line, at the offset that it had. -/
def Token.atLine (number : Nat) (token : Token) : Token :=
  { token with position := some ⟨number, token.offset⟩ }

/-! ## Lines counted anew -/

namespace Document

/-- How many statements the tokens end. -/
def statementEnds (tokens : List Token) : Nat :=
  tokens.countP fun token ↦ token.kind = .endOfStatement

/-- Tokens the first of which is on the line `number`, each of the others as many lines below it as
statements end in front of it. -/
def relined (number : Nat) (tokens : List Token) : List Token :=
  tokens.mapIdx fun index token ↦ token.atLine (number + statementEnds (tokens.take index))

theorem numberLines_eq_relined (number : Nat) (tokens : List Token) :
    numberLines number tokens = relined number tokens := by
  induction tokens generalizing number with
  | nil => rfl
  | cons token rest ih =>
    have hline (index : Nat) :
        number + statementEnds ((token :: rest).take (index + 1)) =
          (if token.kind = .endOfStatement then number + 1 else number) +
            statementEnds (rest.take index) := by
      rw [List.take_succ_cons, statementEnds, List.countP_cons, ← statementEnds]
      by_cases h : token.kind = .endOfStatement
      · simp only [h, decide_true, if_true]
        omega
      · simp [h]
    rw [numberLines, ih, relined, relined, List.mapIdx_cons]
    simp only [hline]
    rfl

end Document

/-! ## What is rendered -/

namespace Layout

theorem tokenText_atLine {token : Token} (h : token.kind ≠ .failure) (number : Nat)
    (cursor : Cursor) (next : Option Token) :
    tokenText cursor (token.atLine number) next = tokenText cursor token next := by
  obtain ⟨kind, value, position, error, unquoted⟩ := token
  cases kind <;> first | rfl | exact absurd rfl h

/-- What is rendered does not depend on the lines, and the end of the file adds nothing. -/
theorem textFrom_numberLines {tokens : List Token} (h : ∀ token ∈ tokens, token.kind ≠ .failure)
    (number : Nat) (cursor : Cursor) :
    textFrom cursor (Document.numberLines number tokens ++ [Token.endOfFile]) =
      textFrom cursor tokens := by
  induction tokens generalizing number cursor with
  | nil => rfl
  | cons token rest ih =>
    obtain ⟨htoken, hrest⟩ := List.forall_mem_cons.mp h
    have hnext (later : Nat) :
        tokenText cursor token (Document.numberLines later rest ++ [Token.endOfFile]).head? =
          tokenText cursor token rest.head? := by
      have hremark :
          (Document.numberLines later rest ++ [Token.endOfFile]).head?.any isRemark =
            rest.head?.any isRemark := by
        cases rest <;> rfl
      unfold tokenText
      rw [hremark]
    have hplaced := tokenText_atLine htoken number cursor
    rw [Token.atLine] at hplaced
    simp only [Document.numberLines, List.cons_append, textFrom, ih hrest, hplaced, hnext]

/-- The kinds of tokens whose written form depends on nothing behind them. -/
def isSettled : TokenKind → Bool
  | .comment | .failure | .unclassified | .endOfFile => false
  | _ => true

theorem isSettled_of_isValue {kind : TokenKind} (h : kind.isValue = true) :
    isSettled kind = true := by
  cases kind <;> first | rfl | cases h

theorem exists_writes_singleton {token : Token} (h : isSettled token.kind = true)
    (cursor : Cursor) : ∃ text, Writes cursor [token] text (cursor.after token.kind) := by
  have htext : ∃ text, ∀ next, tokenText cursor token next = .ok text := by
    obtain ⟨kind, value, position, error, unquoted⟩ := token
    cases kind with
    | comment | failure | unclassified | endOfFile => cases h
    | _ => exact ⟨_, fun next ↦ rfl⟩
  obtain ⟨text, htext⟩ := htext
  refine ⟨text, writes_singleton (fun hkind ↦ ?_) htext⟩
  rw [hkind] at h
  cases h

/-- Tokens in a row whose written form is settled are written the same way whatever follows. -/
theorem exists_writes {tokens : List Token} (h : ∀ token ∈ tokens, isSettled token.kind = true)
    (cursor : Cursor) : ∃ text after, Writes cursor tokens text after := by
  induction tokens generalizing cursor with
  | nil => exact ⟨[], cursor, Writes.nil cursor⟩
  | cons token rest ih =>
    obtain ⟨htoken, hrest⟩ := List.forall_mem_cons.mp h
    obtain ⟨first, hfirst⟩ := exists_writes_singleton htoken cursor
    obtain ⟨later, after, hlater⟩ := ih hrest (cursor.after token.kind)
    exact ⟨first ++ later, after, hfirst.append hlater⟩

/-- The mark of a comment depends on the token behind it, which is the text of the comment. -/
theorem exists_writes_comment {mark text : Token} (hmark : mark.kind = .comment)
    (htext : text.kind = .commentText) (cursor : Cursor) :
    ∃ written after, Writes cursor [mark, text] written after := by
  obtain ⟨later, hlater⟩ := exists_writes_singleton
    (show isSettled text.kind = true by rw [htext]; rfl) (cursor.after mark.kind)
  obtain ⟨first, hfirst⟩ : ∃ first, tokenText cursor mark (some text) = .ok first := by
    obtain ⟨kind, value, position, error, unquoted⟩ := mark
    obtain rfl : kind = .comment := hmark
    exact ⟨_, rfl⟩
  refine ⟨first ++ later, (cursor.after mark.kind).after text.kind, fun rest ↦ ?_⟩
  have hstep : textFrom cursor ([mark, text] ++ rest) =
      (textFrom (cursor.after mark.kind) ([text] ++ rest)).map (first ++ ·) := by
    rw [List.cons_append, textFrom, if_neg (by simp [hmark])]
    simp only [List.cons_append, List.nil_append, List.head?_cons, hfirst]
  rw [hstep, hlater]
  cases textFrom ((cursor.after mark.kind).after text.kind) rest with
  | error error => rfl
  | ok others => exact congrArg Except.ok (List.append_assoc first later others).symm

/-- The tokens of a plain statement are written the same way whatever follows them. -/
theorem exists_writes_tokens {statement : Statement} (h : statement.IsPlain) (cursor : Cursor) :
    ∃ text after, Writes cursor statement.tokens text after := by
  cases h with
  | newline hkind =>
    apply exists_writes
    simp [Statement.tokens, hkind, isSettled]
  | comment hmark htext => exact exists_writes_comment hmark htext cursor
  | assignment hkey hsign hvalue =>
    apply exists_writes
    have hsettled := isSettled_of_isValue hvalue
    simp only [Statement.tokens, List.forall_mem_cons, hkey, hsign, hsettled]
    simp [isSettled]

/-- Tokens that are written the same way whatever follows leave a difference to what follows. -/
theorem Writes.textFrom_congr {cursor after : Cursor} {front rest rest' : List Token}
    {text : List Char} (h : Writes cursor front text after)
    (hrest : textFrom after rest = textFrom after rest') :
    textFrom cursor (front ++ rest) = textFrom cursor (front ++ rest') := by
  rw [h, h, hrest]

end Layout

namespace Document.Assembled

variable {pending : Option Pending} {tokens : List Token} {statements : List Statement}

/-- No failure stands among the tokens that become statements. -/
theorem kind_ne_failure (h : Assembled pending tokens statements) :
    ∀ token ∈ body tokens, token.kind ≠ .failure := by
  induction h with
  | stop hstop => simp [body_of_stop hstop]
  | start hkind _ ih => rwa [body_cons_of_start hkind]
  | opening hname hbrace _ ih =>
    rw [body_opening hname hbrace]
    simpa [hname, hbrace] using ih
  | closing hbrace _ ih =>
    rw [body_closing hbrace]
    simpa [hbrace] using ih
  | statement hplain _ ih =>
    rw [body_append hplain.tokens_spec.1]
    refine List.forall_mem_append.mpr ⟨?_, ih⟩
    cases hplain with
    | newline hkind => simp [Statement.tokens, hkind]
    | comment hmark htext => simp [Statement.tokens, hmark, htext]
    | assignment hkey hsign hvalue =>
      simp only [Statement.tokens, List.forall_mem_cons, hkey, hsign]
      refine ⟨by simp, by simp, fun hkind ↦ ?_, by simp⟩
      rw [hkind] at hvalue
      cases hvalue

/-- The tokens that become statements are rendered as all of the tokens. -/
theorem textFrom_body (h : Assembled pending tokens statements) (cursor : Cursor) :
    textFrom cursor (body tokens) = textFrom cursor tokens := by
  induction h generalizing cursor with
  | @stop tokens hstop =>
    rw [body_of_stop hstop]
    cases tokens with
    | nil => rfl
    | cons token rest => rw [textFrom, textFrom, if_pos (hstop token rfl)]
  | @start pending token rest _ hkind _ ih =>
    have hstart : Writes cursor [token] [] cursor := by
      have hwrites : Writes cursor [token] [] (cursor.after token.kind) :=
        writes_singleton (by simp [hkind]) fun next ↦ by simp [tokenText, hkind]
      rwa [hkind] at hwrites
    rw [body_cons_of_start hkind]
    calc
      textFrom cursor (body rest) = textFrom cursor rest := ih cursor
      _ = (textFrom cursor rest).map ([] ++ ·) := by cases textFrom cursor rest <;> rfl
      _ = textFrom cursor (token :: rest) := (hstart rest).symm
  | @opening name brace rest _ hname hbrace _ ih =>
    rw [body_opening hname hbrace]
    obtain ⟨text, after, hwrites⟩ : ∃ text after, Writes cursor [name, brace] text after := by
      apply exists_writes
      simp [hname, hbrace, isSettled]
    exact hwrites.textFrom_congr (ih after)
  | @closing pending brace rest _ hbrace _ ih =>
    rw [body_closing hbrace]
    obtain ⟨text, hwrites⟩ := exists_writes_singleton
      (show isSettled brace.kind = true by rw [hbrace]; rfl) cursor
    exact hwrites.textFrom_congr (ih _)
  | @statement pending statement rest later hplain _ ih =>
    rw [body_append hplain.tokens_spec.1]
    obtain ⟨text, after, hwrites⟩ := exists_writes_tokens hplain cursor
    exact hwrites.textFrom_congr (ih after)

/-- What stands in a section is plain, so no section stands in another one. -/
theorem children_isPlain (h : Assembled pending tokens statements)
    (hpending : ∀ around ∈ pending, ∀ child ∈ around.children, child.IsPlain) :
    ∀ statement ∈ statements, ∀ child ∈ statement.children, child.IsPlain := by
  induction h with
  | stop hstop => simp
  | start hkind _ ih => exact ih hpending
  | opening hname hbrace _ ih =>
    apply ih
    simp
  | @closing pending brace rest statements hbrace _ ih =>
    exact List.forall_mem_cons.mpr ⟨hpending pending rfl, ih (by simp)⟩
  | @statement pending statement rest later hplain _ ih =>
    cases pending with
    | none =>
      refine List.forall_mem_cons.mpr ⟨?_, ih hpending⟩
      cases hplain <;> simp [Statement.children]
    | some around =>
      have hchildren := hpending around rfl
      apply ih
      simpa [attach, or_imp, forall_and] using ⟨hchildren, hplain⟩

end Document.Assembled

namespace Document

/-- A document that was assembled from tokens has no section inside a section. Its tokens are the
ones before the end of the file, but for the ones at its start, each with its line counted anew and
at the offset that it had, and they are rendered as the tokens of the assembly. -/
theorem tokens_of_ofTokens {tokens : List Token} {document : Document}
    (h : ofTokens tokens = .ok document) :
    (∀ statement ∈ document.statements, ∀ child ∈ statement.children, child.isBlock = false) ∧
      document.tokens =
        relined 1 (body tokens) ++ (if body tokens = [] then [] else [.endOfFile]) ∧
      SectionedConfig.render document.tokens = SectionedConfig.render tokens := by
  obtain ⟨hstatements, _⟩ := ofTokens_spec h
  rw [ofTokens_eq_assemble] at h
  obtain ⟨statements, hassemble, rfl⟩ := map_eq_ok_iff.mp h
  have hassembled := assembled_of_assemble hassemble
  refine ⟨fun statement hstatement child hchild ↦ ?_, ?_, ?_⟩
  · have hplain := hassembled.children_isPlain (by simp) statement hstatement child hchild
    cases hplain <;> rfl
  · rw [Document.tokens, hstatements, numberLines_eq_relined]
    cases body tokens <;> simp [relined]
  · have hrender : SectionedConfig.render (Document.tokens ⟨statements⟩) =
        SectionedConfig.render (numberLines 1 (body tokens) ++ [Token.endOfFile]) := by
      rw [← hstatements]
      exact render_eq ⟨statements⟩
    rw [hrender, SectionedConfig.render, SectionedConfig.render,
      textFrom_numberLines hassembled.kind_ne_failure, hassembled.textFrom_body]

/-- A start of the file inside a section, a mark with an error that nothing looks at, an offset on a
line that does not fit, and garbage behind the end of the file. -/
theorem tokens_of_ofTokens_unordered :
    ∃ document, ofTokens [Statement.freshToken .sectionName "s",
        Statement.freshToken .sectionStart "\x7b", Statement.freshToken .startOfFile "",
        ⟨.comment, "#", none, some (.custom "lost"), false⟩, Statement.freshToken .commentText "c",
        Statement.freshToken .endOfStatement "\n", ⟨.identifier, "k", some ⟨9, 40⟩, none, false⟩,
        Statement.freshToken .assignment "=", ⟨.string, "[x]", none, none, true⟩,
        Statement.freshToken .sectionEnd "\x7d", .endOfFile,
        Statement.freshToken .unclassified "?"] = .ok document ∧
      (∀ statement ∈ document.statements, ∀ child ∈ statement.children, child.isBlock = false) ∧
      document.tokens = [⟨.sectionName, "s", some ⟨1, 0⟩, none, false⟩,
        ⟨.sectionStart, "\x7b", some ⟨1, 0⟩, none, false⟩,
        ⟨.comment, "#", some ⟨1, 0⟩, some (.custom "lost"), false⟩,
        ⟨.commentText, "c", some ⟨1, 0⟩, none, false⟩,
        ⟨.endOfStatement, "\n", some ⟨1, 0⟩, none, false⟩,
        ⟨.identifier, "k", some ⟨2, 40⟩, none, false⟩,
        ⟨.assignment, "=", some ⟨2, 0⟩, none, false⟩, ⟨.string, "[x]", some ⟨2, 0⟩, none, true⟩,
        ⟨.sectionEnd, "\x7d", some ⟨2, 0⟩, none, false⟩, .endOfFile] ∧
      SectionedConfig.render document.tokens = .ok "s \x7b # c\n\tk = [x]\x7d" := by
  generalize hresult : ofTokens _ = result
  obtain ⟨document, rfl⟩ : ∃ document, result = .ok document := ⟨_, hresult.symm⟩
  obtain ⟨hflat, htokens, hrender⟩ := tokens_of_ofTokens hresult
  exact ⟨document, rfl, hflat, htokens, hrender.trans (by decide)⟩

end Document

end SectionedConfig

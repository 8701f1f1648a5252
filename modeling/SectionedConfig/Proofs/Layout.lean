import SectionedConfig.Proofs.Line.Writing

/-!
# Rendering a clause

What a row of tokens is written as depends on the cursor in front of it, and of that row only the
cursor behind it matters for what follows. Rows can therefore be written one after the other. The
tokens of a line with a clause are written as the text of the clause and the end of the line.
-/

namespace SectionedConfig

namespace Layout

/-- Between the two cursors the tokens are written as the text, whatever follows them. -/
def Writes (cursor : Cursor) (tokens : List Token) (text : List Char) (after : Cursor) : Prop :=
  ∀ rest, textFrom cursor (tokens ++ rest) = (textFrom after rest).map (text ++ ·)

theorem Writes.nil (cursor : Cursor) : Writes cursor [] [] cursor := by
  intro rest
  rw [List.nil_append]
  cases textFrom cursor rest <;> rfl

theorem Writes.append {first second third : Cursor} {tokens tokens' : List Token}
    {text text' : List Char} (h : Writes first tokens text second)
    (h' : Writes second tokens' text' third) :
    Writes first (tokens ++ tokens') (text ++ text') third := by
  intro rest
  rw [List.append_assoc, h, h']
  cases textFrom third rest with
  | error error => rfl
  | ok later => exact congrArg Except.ok (List.append_assoc text text' later).symm

/-- A single token is written the same way in front of every other one, unless it is the mark of a
comment. -/
theorem writes_singleton {cursor : Cursor} {token : Token} {text : List Char}
    (hkind : token.kind ≠ .endOfFile) (h : ∀ next, tokenText cursor token next = .ok text) :
    Writes cursor [token] text (cursor.after token.kind) := by
  intro rest
  rw [List.singleton_append, textFrom, if_neg hkind, h]

/-- The tokens that are written make up the text that is rendered. -/
theorem Writes.render_eq {tokens : List Token} {text : List Char} {after : Cursor}
    (h : Writes .start tokens text after) :
    render (tokens ++ [.endOfFile]) = .ok (String.ofList text) := by
  have hend : textFrom after [.endOfFile] = .ok [] := rfl
  rw [render, h, hend]
  simp [Except.map]

end Layout

open Layout Text

/-- The token of a lexeme on a line, at the start of the text. -/
abbrev Lexeme.onLine (number : Nat) (lexeme : Lexeme) : Token :=
  lexeme.toToken number 0

namespace Clause

/-- A well-formed clause is written without a line feed. -/
theorem notMem_text {clause : Clause} (h : clause.WellFormed) (cursor : Cursor) :
    '\n' ∉ clause.text cursor := by
  have hgap (cursor : Cursor) : '\n' ∉ cursor.gap := by
    obtain ⟨inSection, atLineStart⟩ := cursor
    cases inSection <;> cases atLineStart <;> decide
  have hremark {text : List Char} (htext : IsRemarkText text) : '\n' ∉ remarkText text := by
    unfold remarkText
    split
    next => decide
    next => simpa using htext.unbroken
  induction clause generalizing cursor with
  | blank => simp [text]
  | opening name rest ih => simpa [text] using ⟨h.1.unbroken, ih h.2 _⟩
  | closing rest ih =>
    have hrest : rest.WellFormed := h
    simpa [text] using ih hrest _
  | assignment key value remark =>
    obtain ⟨hkey, hvalue, hafter⟩ := h
    cases remark with
    | none => simpa [text] using ⟨hgap cursor, hkey.unbroken, hvalue.unbroken⟩
    | some remark =>
      simpa [text] using
        ⟨hgap cursor, hkey.unbroken, hvalue.unbroken, hremark (hafter remark rfl).1⟩
  | comment remark => simpa [text] using ⟨hgap cursor, hremark h⟩

theorem text_eq_nil_iff {clause : Clause} {cursor : Cursor} :
    clause.text cursor = [] ↔ clause = blank := by
  cases clause <;> simp [text, remarkText]

/-- The tokens of a line with a clause. -/
def tokens (number : Nat) (terminated : Bool) (clause : Clause) : List Token :=
  (clause.lineLexemes terminated).map (Lexeme.onLine number)

/-- What stands at the end of a line. -/
def lineEnd (terminated : Bool) : List Char :=
  if terminated then ['\n'] else []

variable (number : Nat)

/-- The lexeme of a remark is written together with its mark, because the mark is set off from a
remark that is not empty. -/
theorem writes_remark (cursor : Cursor) (text : List Char) :
    Writes cursor ((remarkLexemes text).map (Lexeme.onLine number))
      (cursor.gap ++ remarkText text) ⟨cursor.inSection, false⟩ := by
  intro rest
  have hmark : tokenText cursor (Lexeme.onLine number ⟨.comment, ['#'], 0, false⟩)
      (some (Lexeme.onLine number ⟨.commentText, text, 0, false⟩)) =
        .ok (cursor.gap ++ ['#'] ++ if text.isEmpty then [] else [' ']) := by
    simp [tokenText, Lexeme.toToken, isRemark]
  have htext : Writes (cursor.after .comment) [Lexeme.onLine number ⟨.commentText, text, 0, false⟩]
      text ⟨cursor.inSection, false⟩ :=
    writes_singleton (by simp [Lexeme.toToken]) fun next ↦ by simp [tokenText, Lexeme.toToken]
  have hstep : textFrom cursor ((remarkLexemes text).map (Lexeme.onLine number) ++ rest) =
      (textFrom (cursor.after .comment)
        ([Lexeme.onLine number ⟨.commentText, text, 0, false⟩] ++ rest)).map
          (cursor.gap ++ ['#'] ++ (if text.isEmpty then [] else [' ']) ++ ·) := by
    rw [remarkLexemes, List.map_cons, List.cons_append, textFrom, if_neg (by simp [Lexeme.toToken])]
    simp only [List.map_cons, List.map_nil, List.cons_append, List.nil_append, List.head?_cons,
      hmark]
    rfl
  rw [hstep, htext]
  cases textFrom ⟨cursor.inSection, false⟩ rest with
  | error error => rfl
  | ok later =>
    apply congrArg Except.ok
    by_cases hempty : text.isEmpty
    · simp [remarkText, List.isEmpty_iff.mp hempty]
    · simp [remarkText, hempty]

theorem writes_value (cursor : Cursor) (form : ValueForm) :
    Writes cursor [form.lexeme.onLine number] form.written ⟨cursor.inSection, false⟩ := by
  cases form with
  | bare text | quoted text | list text =>
    apply writes_singleton (by simp [Lexeme.toToken, ValueForm.lexeme, ValueForm.kind])
    simp [tokenText, ValueForm.lexeme, ValueForm.kind, ValueForm.text, ValueForm.unquoted,
      ValueForm.written, Lexeme.toToken]

/-- The tokens of a line are written as the text of its clause and the end of the line. -/
theorem writes_tokens (terminated : Bool) (clause : Clause) (cursor : Cursor) :
    Writes cursor (clause.tokens number terminated) (clause.text cursor ++ lineEnd terminated)
      ⟨clause.inSection cursor.inSection, true⟩ := by
  have hend (cursor : Cursor) :
      Writes cursor [Lexeme.onLine number (endLexeme terminated 0)] (lineEnd terminated)
        ⟨cursor.inSection, true⟩ :=
    writes_singleton (by simp [Lexeme.toToken, endLexeme])
      fun next ↦ by simp [tokenText, endLexeme, Lexeme.toToken, lineEnd]
  induction clause generalizing cursor with
  | blank => exact hend cursor
  | opening name rest ih =>
    have hname : Writes cursor [Lexeme.onLine number ⟨.sectionName, name, 0, false⟩]
        (name ++ [' ']) ⟨cursor.inSection, false⟩ :=
      writes_singleton (by simp [Lexeme.toToken]) fun next ↦ by simp [tokenText, Lexeme.toToken]
    have hbrace (cursor : Cursor) :
        Writes cursor [Lexeme.onLine number ⟨.sectionStart, ['{'], 0, false⟩] ['{'] ⟨true, false⟩ :=
      writes_singleton (by simp [Lexeme.toToken]) fun next ↦ by simp [tokenText, Lexeme.toToken]
    have hline := (hname.append (hbrace _)).append (ih ⟨true, false⟩)
    simpa [tokens, lineLexemes, lexemes, text, inSection] using hline
  | closing rest ih =>
    have hbrace : Writes cursor [Lexeme.onLine number ⟨.sectionEnd, ['}'], 0, false⟩] ['}']
        ⟨false, false⟩ :=
      writes_singleton (by simp [Lexeme.toToken]) fun next ↦ by simp [tokenText, Lexeme.toToken]
    simpa [tokens, lineLexemes, lexemes, text, inSection] using hbrace.append (ih ⟨false, false⟩)
  | assignment key value remark =>
    have hkey : Writes cursor [Lexeme.onLine number ⟨.identifier, key, 0, false⟩]
        (cursor.gap ++ key ++ [' ']) ⟨cursor.inSection, false⟩ :=
      writes_singleton (by simp [Lexeme.toToken]) fun next ↦ by simp [tokenText, Lexeme.toToken]
    have hsign (cursor : Cursor) : Writes cursor
        [Lexeme.onLine number ⟨.assignment, ['='], 0, false⟩] ['=', ' ']
          ⟨cursor.inSection, false⟩ :=
      writes_singleton (by simp [Lexeme.toToken]) fun next ↦ by simp [tokenText, Lexeme.toToken]
    have hassigned := (hkey.append (hsign _)).append (writes_value number _ value)
    cases remark with
    | none =>
      simpa [tokens, lineLexemes, lexemes, text, inSection] using hassigned.append (hend _)
    | some remark =>
      have hremark := (hassigned.append (writes_remark number _ remark)).append (hend _)
      simpa [tokens, lineLexemes, lexemes, text, inSection, Cursor.gap] using hremark
  | comment remark =>
    simpa [tokens, lineLexemes, lexemes, text, inSection] using
      (writes_remark number cursor remark).append (hend _)

end Clause

end SectionedConfig

import SectionedConfig.Proofs.Document.Flattening
import SectionedConfig.Proofs.Document.Rebuilding
import SectionedConfig.Proofs.Line.Ending
import SectionedConfig.Proofs.TokenStream

/-!
# Line numbers of a text and of its document

Lines are counted twice. While a text is read, every line that has been split counts, and its tokens
get the number of the line and their offset in the text. When a document is flattened, every token
that ends a statement counts. Each line of an accepted text has one such token, as its last one, so
the tokens of its document are those of the text, each in its place. Hence they make up the same
document again, however often it is flattened and assembled.
-/

namespace SectionedConfig

open Text

/-! ## Numbering lines anew -/

namespace Document

/-- Tokens that end no statement keep the line that is counted if they are on it. -/
theorem numberLines_append {number : Nat} {front : List Token}
    (h : ∀ token ∈ front, token.kind ≠ .endOfStatement ∧ token.atLine number = token)
    (rest : List Token) :
    numberLines number (front ++ rest) = front ++ numberLines number rest := by
  induction front with
  | nil => rfl
  | cons token others ih =>
    obtain ⟨⟨hkind, hline⟩, hothers⟩ := List.forall_mem_cons.mp h
    rw [List.cons_append, numberLines, if_neg hkind, ih hothers, ← Token.atLine, hline,
      List.cons_append]

/-- The tokens of a line keep their places, and the next line counts one more. -/
theorem numberLines_lexemes {line : Line Char} (h : line.scan.fault = none) (number offset : Nat)
    (rest : List Token) :
    numberLines number (line.scan.lexemes.map (Lexeme.toToken number offset) ++ rest) =
      line.scan.lexemes.map (Lexeme.toToken number offset) ++ numberLines (number + 1) rest := by
  have hplaced : ∀ token ∈ line.scan.lexemes.map (Lexeme.toToken number offset),
      token.atLine number = token := by
    rw [List.forall_mem_map]
    exact fun lexeme _ ↦ rfl
  obtain ⟨front, stop, hlexemes, hstop, hfront⟩ := Line.exists_stop h number offset
  rw [hlexemes] at hplaced ⊢
  obtain ⟨hplaced, hlast⟩ := List.forall_mem_append.mp hplaced
  rw [List.append_assoc, List.append_assoc, numberLines_append]
  · rw [List.singleton_append, numberLines, if_pos hstop, ← Token.atLine,
      hlast stop (List.mem_singleton_self stop), List.singleton_append]
  · intro token htoken
    refine ⟨fun hkind ↦ ?_, hplaced token htoken⟩
    have honline := hfront token htoken
    rw [hkind] at honline
    cases honline

/-- The tokens of lines without a fault keep their places. -/
theorem numberLines_tokensOf (number offset : Nat) {lines : List (Line Char)}
    (h : ∀ line ∈ lines, line.scan.fault = none) :
    numberLines number (Batch.tokensOf number offset lines) =
      Batch.tokensOf number offset lines := by
  induction lines generalizing number offset with
  | nil => rfl
  | cons line rest ih =>
    obtain ⟨hline, hrest⟩ := List.forall_mem_cons.mp h
    rw [Batch.tokensOf, numberLines_lexemes hline, ih _ _ hrest]

end Document

/-! ## The tokens of a text -/

namespace Batch

variable {number offset : Nat} {lines : List (Line Char)}

/-- Neither the start nor the end of the file is a token of a line. -/
theorem isInner_of_mem_tokensOf {token : Token} (h : token ∈ tokensOf number offset lines) :
    token.IsInner := by
  induction lines generalizing number offset with
  | nil => cases h
  | cons line rest ih =>
    rcases List.mem_append.mp h with h | h
    · obtain ⟨lexeme, hlexeme, rfl⟩ := List.mem_map.mp h
      have hkind := Line.kind_of_mem_lexemes hlexeme
      constructor
      · rintro (hstart : lexeme.kind = .startOfFile)
        simp [hstart, TokenKind.isOnLine] at hkind
      · rintro (hend : lexeme.kind = .endOfFile)
        simp [hend, TokenKind.isOnLine] at hkind
    · exact ih h

theorem tokensOf_ne_nil (h : ∀ line ∈ lines, line.scan.fault = none) (hne : lines ≠ []) :
    tokensOf number offset lines ≠ [] := by
  obtain ⟨line, rest, rfl⟩ := List.exists_cons_of_ne_nil hne
  obtain ⟨front, stop, hlexemes, -, -⟩ :=
    Line.exists_stop (h line List.mem_cons_self) number offset
  simp [tokensOf, hlexemes]

end Batch

/-- Between the start and the end of the file stand the tokens of the lines. -/
theorem Document.body_tokensOf (lines : List (Line Char)) :
    body (Batch.startOfFile :: Batch.tokensOf 1 0 lines ++ [.endOfFile]) =
      Batch.tokensOf 1 0 lines := by
  rw [List.cons_append, body_cons_of_start rfl,
    body_append fun token htoken ↦ Batch.isInner_of_mem_tokensOf htoken,
    body_of_stop fun token htoken ↦ ?_, List.append_nil]
  obtain rfl := Option.some.inj htoken
  rfl

/-! ## Assembling again -/

namespace Document

/-- What is assembled does not depend on the token before. -/
theorem assemble_previous {pending : Option Pending} {previous : Option Token}
    {tokens : List Token} {statements : List Statement}
    (h : assemble pending previous tokens = .ok statements) (other : Option Token) :
    assemble pending other tokens = .ok statements := by
  cases tokens with
  | nil => exact h
  | cons token rest =>
    rw [assemble, parse.eq_def] at h ⊢
    cases hkind : token.kind <;> simp only [hkind] at h ⊢ <;> first | exact h | cases h

/-- Flattens a document and assembles it from its tokens, the given number of times. -/
def reassembled : Nat → Document → Except Error Document
  | 0, document => .ok document
  | times + 1, document => (ofTokens document.tokens).bind (reassembled times)

theorem reassembled_eq {document : Document} (h : ofTokens document.tokens = .ok document)
    (times : Nat) : document.reassembled times = .ok document := by
  induction times with
  | zero => rfl
  | succ times ih => rw [reassembled, h, Except.bind, ih]

end Document

/-! ## Texts -/

namespace TokenStream

variable {text : String} {tokens : List Token} {document : Document}

/-- A document has the tokens of its text without the start of the file, each in its place. -/
theorem eq_startOfFile_cons (hne : text ≠ "") (h : (ofText text).checked = .ok tokens)
    (hdocument : Document.ofTokens tokens = .ok document) :
    tokens = Batch.startOfFile :: document.tokens ∧
      document.tokens.getLast? = some .endOfFile := by
  obtain ⟨hnone, htokens⟩ := faultless_of_checked h
  rw [tokens_of_faultless hnone] at htokens
  have hlines : Line.cut '\n' text.toList ≠ [] := by
    intro hnil
    have htext := Line.flatMap_units_cut '\n' text.toList
    rw [hnil] at htext
    exact hne (String.toList_injective htext.symm)
  have hstatements : Statement.tokensOf document.statements =
      Batch.tokensOf 1 0 (Line.cut '\n' text.toList) := by
    rw [(Document.ofTokens_spec hdocument).1, htokens, Document.body_tokensOf]
  have hflat : document.tokens =
      Batch.tokensOf 1 0 (Line.cut '\n' text.toList) ++ [.endOfFile] := by
    rw [Document.tokens, hstatements, Document.numberLines_tokensOf 1 0 hnone,
      List.isEmpty_eq_false_iff.mpr (Batch.tokensOf_ne_nil hnone hlines)]
    rfl
  rw [htokens, hflat, List.getLast?_concat]
  exact ⟨rfl, rfl⟩

/-- The tokens of the document of an accepted text that is not empty are those of the text without
the start of the file, each on the line and at the offset where it stands in the text, and the end
of the file without a place. However often the document is flattened and assembled again, it stays
the same. -/
theorem tokens_of_document (hne : text ≠ "") (h : (ofText text).checked = .ok tokens)
    (hdocument : Document.ofTokens tokens = .ok document) :
    tokens = Batch.startOfFile :: document.tokens ∧
      document.tokens.getLast? = some .endOfFile ∧
      ∀ times, document.reassembled times = .ok document := by
  obtain ⟨htokens, hlast⟩ := eq_startOfFile_cons hne h hdocument
  refine ⟨htokens, hlast, Document.reassembled_eq ?_⟩
  rw [Document.ofTokens_eq_assemble] at hdocument ⊢
  obtain ⟨statements, hassemble, rfl⟩ := map_eq_ok_iff.mp hdocument
  rw [htokens, Document.assemble_startOfFile rfl] at hassemble
  exact map_eq_ok_iff.mpr ⟨statements, Document.assemble_previous hassemble none, rfl⟩

/-- Several statements on a line, letters of two bytes, a comment behind a value, and a last line
without a line feed. -/
theorem tokens_of_document_unended :
    ∃ tokens document, (ofText "é \x7b\n\tk = \"ü\" # c\n\x7d a = 1").checked = .ok tokens ∧
      Document.ofTokens tokens = .ok document ∧ tokens = Batch.startOfFile :: document.tokens ∧
      (⟨.identifier, "a", some ⟨3, 21⟩, none, false⟩ : Token) ∈ document.tokens ∧
      document.reassembled 2 = .ok document := by
  let text := "é \x7b\n\tk = \"ü\" # c\n\x7d a = 1"
  have hchecked : (ofText text).checked = .ok (ofText text).tokens := by decide
  have hsome : (Document.ofTokens (ofText text).tokens).toOption.isSome := by decide
  generalize hdocument : Document.ofTokens (ofText text).tokens = result at hsome
  obtain _ | document := result
  · cases hsome
  obtain ⟨htokens, -, htimes⟩ := tokens_of_document (by decide) hchecked hdocument
  have hmem : (⟨.identifier, "a", some ⟨3, 21⟩, none, false⟩ : Token) ∈
      Batch.startOfFile :: document.tokens := by
    rw [← htokens]
    decide
  exact ⟨_, document, hchecked, hdocument, htokens, List.mem_of_ne_of_mem (by decide) hmem,
    htimes 2⟩

end TokenStream

end SectionedConfig

import SectionedConfig.Proofs.Document.Assembly
import SectionedConfig.Proofs.Line.Ending
import SectionedConfig.Proofs.TokenStream

/-!
# The order of the tokens of a text

The tokens of an accepted text come in a fixed order: a name in front of each opening brace, a text
behind the mark of each comment, a key in front of each equals sign and a value behind it, and the
end of the file as the last token of all. Nothing is said about which braces match; a text is
accepted with its sections nested, never closed, or closed without being open. The order holds on
each line by itself, so it is shown for the segments of a line and put together line by line.
-/

namespace SectionedConfig

open Text

/-- The tokens are the start of the file, names with opening braces, closing braces, and the tokens
of plain statements, in any order, up to the end of the file. -/
inductive Regular : List Token → Prop where
  | stop {token : Token} (hkind : token.kind = .endOfFile) : Regular [token]
  | start {token : Token} {rest : List Token} (hkind : token.kind = .startOfFile)
      (h : Regular rest) : Regular (token :: rest)
  | opening {name brace : Token} {rest : List Token} (hname : name.kind = .sectionName)
      (hbrace : brace.kind = .sectionStart) (h : Regular rest) : Regular (name :: brace :: rest)
  | closing {brace : Token} {rest : List Token} (hbrace : brace.kind = .sectionEnd)
      (h : Regular rest) : Regular (brace :: rest)
  | statement {statement : Statement} {rest : List Token} (hplain : statement.IsPlain)
      (h : Regular rest) : Regular (statement.tokens ++ rest)

/-! ## Lines -/

variable {number offset start : Nat} {terminated : Bool} {rest : List Token}

namespace Regular

theorem lineEnd (h : Regular rest) :
    Regular ((endLexeme terminated start).toToken number offset :: rest) :=
  have hplain : Statement.IsPlain (.newline ((endLexeme terminated start).toToken number offset)) :=
    .newline rfl
  .statement hplain h

theorem comment (text : List Char) (h : Regular rest) :
    Regular ((scanComment text start).map (Lexeme.toToken number offset) ++ rest) :=
  have hplain : Statement.IsPlain (.comment
      (Lexeme.toToken number offset ⟨.comment, ['#'], start, false⟩)
      ((Lexeme.trimmed .commentText text (start + 1)).toToken number offset)) :=
    .comment rfl rfl
  .statement hplain h

theorem assignment {key sign value : Lexeme} (hkey : key.kind = .identifier)
    (hsign : sign.kind = .assignment) (hvalue : value.kind.isValue = true) (h : Regular rest) :
    Regular (key.toToken number offset :: sign.toToken number offset ::
      value.toToken number offset :: rest) :=
  have hplain : Statement.IsPlain (.assignment (key.toToken number offset)
      (sign.toToken number offset) (value.toToken number offset)) :=
    .assignment hkey hsign hvalue
  .statement hplain h

/-- A key, an equals sign, and a text behind them that holds a value. -/
theorem assigned {key sign : Lexeme} {text : List Char} (hkey : key.kind = .identifier)
    (hsign : sign.kind = .assignment) (h : (scanAssigned text start terminated).fault = none)
    (hrest : Regular rest) :
    Regular ((key :: sign :: (scanAssigned text start terminated).lexemes).map
      (Lexeme.toToken number offset) ++ rest) := by
  rcases hcut : cutComment false text with ⟨value, remark⟩
  unfold scanAssigned at h ⊢
  simp only [hcut] at h ⊢
  cases hvalue : scanValue value start with
  | error fault =>
    rw [hvalue] at h
    cases h
  | ok found =>
    have hkind := isValue_of_scanValue hvalue
    cases remark with
    | none => exact .assignment hkey hsign hkind hrest.lineEnd
    | some remark => exact .assignment hkey hsign hkind (.comment remark hrest.lineEnd)

end Regular

/-- Segments without a fault give tokens in order. -/
theorem Segments.regular_scan {segments : Segments}
    (h : (segments.scan terminated start).fault = none) (hrest : Regular rest) :
    Regular ((segments.scan terminated start).lexemes.map (Lexeme.toToken number offset) ++
      rest) := by
  induction segments generalizing start with
  | plain text =>
    unfold scan Scan.afterBlank at h ⊢
    split at h
    next hblank =>
      rw [if_pos hblank]
      exact hrest.lineEnd
    next => cases h
  | opening name others ih =>
    unfold scan at h ⊢
    split at h
    next => cases h
    next hname =>
      rw [if_neg hname]
      exact .opening rfl rfl (ih h)
  | closing lead others ih =>
    unfold scan Scan.afterBlank at h ⊢
    split at h
    next hblank =>
      rw [if_pos hblank]
      exact .closing rfl (ih h)
    next => cases h
  | assignment key text =>
    unfold scan at h ⊢
    split at h
    next => cases h
    next hkey =>
      rw [if_neg hkey]
      exact .assigned rfl rfl h hrest
  | comment lead text =>
    unfold scan Scan.afterBlank at h ⊢
    split at h
    next hblank =>
      rw [if_pos hblank, List.map_append, List.append_assoc]
      exact .comment text hrest.lineEnd
    next => cases h

/-- Lines without a fault give tokens in order. -/
theorem Batch.regular_tokensOf {lines : List (Line Char)}
    (h : ∀ line ∈ lines, line.scan.fault = none) (hrest : Regular rest) :
    Regular (tokensOf number offset lines ++ rest) := by
  induction lines generalizing number offset with
  | nil => exact hrest
  | cons line others ih =>
    obtain ⟨hline, hothers⟩ := List.forall_mem_cons.mp h
    rw [tokensOf, List.append_assoc]
    exact Segments.regular_scan hline (ih hothers)

/-! ## Texts -/

namespace TokenStream

variable {text : String} {tokens : List Token}

/-- The tokens of an accepted text are in order. -/
theorem regular_of_checked (h : (ofText text).checked = .ok tokens) : Regular tokens := by
  obtain ⟨hnone, rfl⟩ := faultless_of_checked h
  rw [tokens_of_faultless hnone]
  exact .start rfl (Batch.regular_tokensOf hnone (.stop rfl))

end TokenStream

end SectionedConfig

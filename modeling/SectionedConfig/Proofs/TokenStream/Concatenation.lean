import SectionedConfig.Proofs.TokenStream

/-!
# The tokens of two texts in a row

A line is split without regard to the lines in front of it: no quotation mark, bracket or brace is
carried over a line feed. All that is carried is the number of the lines and their length in bytes.
The tokens of two texts in a row are therefore those of the first one and behind them those of the
second one, moved as far as the first text reaches, and a failure in the second text is the same
failure further on.
-/

namespace SectionedConfig

open Text

/-! ## Moving tokens -/

/-- An error about a text that stands so many lines and bytes further on. -/
def Error.shift (lines bytes : Nat) : Error → Error
  | .lexical line offset reason => .lexical (line + lines) (offset + bytes) reason
  | other => other

/-- A token of a text that stands so many lines and bytes further on. A failure says so in its text,
too. -/
def Token.shift (lines bytes : Nat) (token : Token) : Token :=
  { token with
    value := token.error.elim token.value fun error ↦ (error.shift lines bytes).message
    position := token.position.map fun place ↦ ⟨place.line + lines, place.offset + bytes⟩
    error := token.error.map (Error.shift lines bytes) }

variable (lines bytes : Nat)

theorem Lexeme.shift_toToken (number offset : Nat) (lexeme : Lexeme) :
    (lexeme.toToken number offset).shift lines bytes =
      lexeme.toToken (number + lines) (offset + bytes) := by
  have hoffset : offset + lexeme.start + bytes = offset + bytes + lexeme.start := by omega
  simp only [toToken, Token.shift, Option.map_some, Option.map_none, Option.elim_none, hoffset]

theorem LineFault.shift_toError (number offset : Nat) (fault : LineFault) :
    (fault.toError number offset).shift lines bytes =
      fault.toError (number + lines) (offset + bytes) := by
  have hoffset : offset + fault.start + bytes = offset + bytes + fault.start := by omega
  rw [toError, Error.shift, hoffset, toError]

theorem Token.shift_ofError (error : Error) :
    (ofError error).shift lines bytes = ofError (error.shift lines bytes) := rfl

theorem Token.shift_endOfFile : endOfFile.shift lines bytes = endOfFile := rfl

/-! ## Lines and texts -/

/-- Lines that start further on give the same tokens further on, and the same failure. -/
theorem Batch.map_shift_tokens (number offset : Nat) (input : List (Line Char)) :
    ((ofLines [] number offset (input.map .ok)).flatMap Batch.tokens).map
        (Token.shift lines bytes) =
      (ofLines [] (number + lines) (offset + bytes) (input.map .ok)).flatMap Batch.tokens := by
  induction input generalizing number offset with
  | nil => rfl
  | cons line rest ih =>
    have hlexemes : (line.scan.lexemes.map (Lexeme.toToken number offset)).map
        (Token.shift lines bytes) =
          line.scan.lexemes.map (Lexeme.toToken (number + lines) (offset + bytes)) := by
      rw [List.map_map]
      exact List.map_congr_left fun lexeme _ ↦ lexeme.shift_toToken lines bytes number offset
    have hnumber : number + 1 + lines = number + lines + 1 := by omega
    have hoffset : offset + line.byteSize + bytes = offset + bytes + line.byteSize := by omega
    have hrest := ih (number + 1) (offset + line.byteSize)
    rw [hnumber, hoffset] at hrest
    simp only [List.map_cons, ofLines]
    cases line.scan.fault with
    | some fault =>
      simp only [List.nil_append, List.flatMap_cons, List.flatMap_nil, List.append_nil,
        List.map_append, List.map_cons, List.map_nil, hlexemes, Token.shift_ofError,
        LineFault.shift_toError]
    | none =>
      cases line.terminated with
      | true =>
        simp only [List.nil_append, if_true, List.flatMap_cons, List.map_append, hlexemes, hrest]
      | false =>
        simp only [List.nil_append, Bool.false_eq_true, if_false, List.flatMap_cons,
          List.flatMap_nil, List.append_nil, List.map_append, List.map_cons, List.map_nil, hlexemes,
          Token.shift_endOfFile]

/-- The tokens of two texts in a row, the first of which is accepted and does not break off in the
middle of a line, are those of the first text without the end of the file and those of the second
one without the start, moved by the lines and bytes of the first text. -/
theorem TokenStream.tokens_ofText_append {first second : String} {tokens : List Token}
    (hends : first = "" ∨ first.toList.getLast? = some '\n')
    (hchecked : (ofText first).checked = .ok tokens) :
    ∃ front behind, tokens = front ++ [.endOfFile] ∧
      (ofText second).tokens = Batch.startOfFile :: behind ∧
      (ofText (first ++ second)).tokens =
        front ++ behind.map (Token.shift (first.toList.count '\n') (byteSize first.toList)) := by
  obtain ⟨hfaultless, rfl⟩ := faultless_of_checked hchecked
  have hterminated : ∀ line ∈ Line.cut '\n' first.toList, line.terminated = true := by
    apply Line.terminated_of_mem_cut
    rcases hends with rfl | hends
    · exact .inl rfl
    · exact .inr hends
  have hunbroken : ∀ line ∈ Line.cut '\n' first.toList, '\n' ∉ line.content :=
    fun line hline ↦ Line.notMem_content_of_mem_cut hline
  have htext := Line.flatMap_units_cut '\n' first.toList
  have hcount := Line.count_flatMap_units hunbroken hterminated
  rw [htext] at hcount
  refine ⟨_, _, tokens_of_faultless hfaultless, tokens_ofText second, ?_⟩
  calc
    (ofText (first ++ second)).tokens =
        Batch.startOfFile :: (Batch.ofLines [] 1 0
          ((Line.cut '\n' first.toList).map .ok ++ linesOfText second)).flatMap Batch.tokens := by
      rw [tokens_ofText, linesOfText, String.toList_append, Line.cut_append hterminated,
        List.map_append]
      rfl
    _ = Batch.startOfFile :: (Batch.tokensOf 1 0 (Line.cut '\n' first.toList) ++
          (Batch.ofLines [] (1 + first.toList.count '\n') (0 + byteSize first.toList)
            (linesOfText second)).flatMap Batch.tokens) := by
      rw [Batch.tokens_append 1 0 hterminated hfaultless, htext, hcount]
    _ = _ := by
      rw [linesOfText, Batch.map_shift_tokens]
      rfl

/-- The first text takes fourteen bytes, and the failure in the second line of the second text is
found in the third line, fourteen bytes further on. -/
theorem TokenStream.tokens_ofText_append_failure :
    ∃ front behind, (ofText "k = \"é\" # ü\n").tokens = front ++ [.endOfFile] ∧
      (ofText "s \x7b\n=1").tokens = Batch.startOfFile :: behind ∧
      (ofText "s \x7b\n=1").tokens.getLast? =
        some (.ofError (.lexical 2 4 "assignment without a key")) ∧
      (ofText "k = \"é\" # ü\ns \x7b\n=1").tokens = front ++ behind.map (Token.shift 1 14) ∧
      (ofText "k = \"é\" # ü\ns \x7b\n=1").tokens.getLast? =
        some (.ofError (.lexical 3 18 "assignment without a key")) := by
  have hends : "k = \"é\" # ü\n".toList.getLast? = some '\n' := rfl
  have hchecked : (ofText "k = \"é\" # ü\n").checked = .ok (ofText "k = \"é\" # ü\n").tokens := by
    decide
  obtain ⟨front, behind, hfront, hbehind, hall⟩ :
      ∃ front behind, (ofText "k = \"é\" # ü\n").tokens = front ++ [.endOfFile] ∧
        (ofText "s \x7b\n=1").tokens = Batch.startOfFile :: behind ∧
        (ofText "k = \"é\" # ü\ns \x7b\n=1").tokens =
          front ++ behind.map (Token.shift 1 14) :=
    tokens_ofText_append (.inr hends) hchecked
  exact ⟨front, behind, hfront, hbehind, by decide, hall, by decide⟩

end SectionedConfig

import Mathlib.Data.List.Chain
import SectionedConfig.Proofs.Sheet.Reading

/-!
# The tokens of a text, line by line

A text is cut into lines, and only the last one can lack its line feed. Each line is split on its
own, so the tokens of a text are those of its lines, placed one line after the other. They end with
the end of the file if no line has a fault. Otherwise the first line with a fault gives the lexemes
that it has before the fault, the failure follows them, and the lines after it are not read.
-/

namespace SectionedConfig

open Text

namespace Text.Line

/-- Only the last line of an input can lack its line feed. -/
theorem isChain_cut {α : Type} [DecidableEq α] (feed : α) (input : List α) :
    (cut feed input).IsChain fun line _ ↦ line.terminated = true := by
  induction input with
  | nil => exact .nil
  | cons unit rest ih =>
    unfold cut
    split
    next => exact List.isChain_cons.mpr ⟨fun _ _ ↦ rfl, ih⟩
    next =>
      split
      next => exact .singleton _
      next first others hcut =>
        rw [hcut] at ih
        exact List.isChain_cons.mpr (List.isChain_cons.mp ih)

/-- Every line with another one behind it has a line feed. -/
theorem terminated_of_isChain {α : Type} {before rest : List (Line α)} {line : Line α}
    (h : (before ++ line :: rest).IsChain fun line _ ↦ line.terminated = true) :
    ∀ other ∈ before, other.terminated = true := by
  induction before with
  | nil => simp
  | cons first others ih =>
    obtain ⟨hnext, hchain⟩ := List.isChain_cons.mp h
    have hhead : ∃ next, (others ++ line :: rest).head? = some next := by
      cases others <;> exact ⟨_, rfl⟩
    obtain ⟨next, hfirst⟩ := hhead
    exact List.forall_mem_cons.mpr ⟨hnext next hfirst, ih hchain⟩

/-- The bytes of a line are those of its units. -/
theorem byteSize_units (line : Line Char) : Text.byteSize (units '\n' line) = line.byteSize := by
  unfold units byteSize
  split
  next => rw [byteSize_append]; rfl
  next => rfl

/-- Every line with a line feed counts. -/
theorem count_flatMap_units {lines : List (Line Char)}
    (hunbroken : ∀ line ∈ lines, '\n' ∉ line.content)
    (hterminated : ∀ line ∈ lines, line.terminated = true) :
    (lines.flatMap (units '\n')).count '\n' = lines.length := by
  induction lines with
  | nil => rfl
  | cons line rest ih =>
    rw [List.forall_mem_cons] at hunbroken hterminated
    rw [List.flatMap_cons, List.count_append, ih hunbroken.2 hterminated.2, units,
      if_pos hterminated.1, List.count_append, List.count_eq_zero_of_not_mem hunbroken.1]
    exact (Nat.zero_add _).symm ▸ Nat.add_comm 1 rest.length

/-- A line without a fault has a clause. -/
theorem exists_clause {line : Line Char} (h : line.scan.fault = none) :
    ∃ clause, Clause.of? line.content = some clause := by
  cases hclause : Clause.of? line.content with
  | some clause => exact ⟨clause, rfl⟩
  | none =>
    obtain ⟨fault, hfault⟩ := scan_fault_of_none hclause line.terminated
    rw [h] at hfault
    cases hfault

end Text.Line

/-! ## Lines in a row -/

/-- The tokens of lines in a row, the first of which has the given number and offset. -/
def Batch.tokensOf (number offset : Nat) : List (Line Char) → List Token
  | [] => []
  | line :: rest =>
    line.scan.lexemes.map (Lexeme.toToken number offset) ++
      tokensOf (number + 1) (offset + line.byteSize) rest

namespace Batch

/-- Lines without a fault give their tokens and the end of the file. -/
theorem tokens_of_faultless (number offset : Nat) {lines : List (Line Char)}
    (hchain : lines.IsChain fun line _ ↦ line.terminated = true)
    (h : ∀ line ∈ lines, line.scan.fault = none) :
    (ofLines [] number offset (lines.map .ok)).flatMap Batch.tokens =
      tokensOf number offset lines ++ [.endOfFile] := by
  induction lines generalizing number offset with
  | nil => rfl
  | cons line rest ih =>
    obtain ⟨hline, hrest⟩ := List.forall_mem_cons.mp h
    obtain ⟨hnext, hchain⟩ := List.isChain_cons.mp hchain
    have hothers := ih (number + 1) (offset + line.byteSize) hchain hrest
    cases hterminated : line.terminated with
    | true =>
      simp only [List.map_cons, ofLines, hline, hterminated, if_true, List.flatMap_cons,
        List.nil_append, hothers, tokensOf, List.append_assoc]
    | false =>
      -- Nothing follows a line without a line feed.
      obtain rfl : rest = [] := by
        cases rest with
        | nil => rfl
        | cons next others => simp [hnext next rfl] at hterminated
      simp [ofLines, hline, hterminated, tokensOf]

/-- Lines with line feeds and without a fault give their tokens, and what is read behind them is
numbered and placed as their length says. -/
theorem tokens_append (number offset : Nat) {lines : List (Line Char)}
    (hterminated : ∀ line ∈ lines, line.terminated = true)
    (h : ∀ line ∈ lines, line.scan.fault = none) (rest : List LineRead) :
    (ofLines [] number offset (lines.map .ok ++ rest)).flatMap Batch.tokens =
      tokensOf number offset lines ++
        (ofLines [] (number + lines.length)
          (offset + byteSize (lines.flatMap (Line.units '\n'))) rest).flatMap Batch.tokens := by
  induction lines generalizing number offset with
  | nil => rfl
  | cons line others ih =>
    obtain ⟨hfeed, hothers⟩ := List.forall_mem_cons.mp hterminated
    obtain ⟨hline, hfaultless⟩ := List.forall_mem_cons.mp h
    have hlater := ih (number + 1) (offset + line.byteSize) hothers hfaultless
    have hnumber : number + 1 + others.length = number + (line :: others).length := by
      rw [List.length_cons]
      omega
    have hoffset : offset + line.byteSize + byteSize (others.flatMap (Line.units '\n')) =
        offset + byteSize ((line :: others).flatMap (Line.units '\n')) := by
      rw [List.flatMap_cons, byteSize_append, Line.byteSize_units, Nat.add_assoc]
    rw [hnumber, hoffset] at hlater
    simp only [List.map_cons, List.cons_append, ofLines, hline, hfeed, if_true, List.flatMap_cons,
      List.nil_append, hlater, tokensOf, List.append_assoc]

/-- The first line with a fault gives its lexemes and the failure. -/
theorem tokens_of_fault (number offset : Nat) {before rest : List (Line Char)} {line : Line Char}
    {fault : LineFault} (hchain : (before ++ line :: rest).IsChain fun line _ ↦
      line.terminated = true)
    (hbefore : ∀ line ∈ before, line.scan.fault = none) (hfault : line.scan.fault = some fault) :
    (ofLines [] number offset ((before ++ line :: rest).map .ok)).flatMap Batch.tokens =
      tokensOf number offset before ++
        line.scan.lexemes.map (Lexeme.toToken (number + before.length)
          (offset + byteSize (before.flatMap (Line.units '\n')))) ++
        [.ofError (fault.toError (number + before.length)
          (offset + byteSize (before.flatMap (Line.units '\n'))))] := by
  have hterminated := Line.terminated_of_isChain hchain
  rw [List.map_append, tokens_append number offset hterminated hbefore]
  simp [ofLines, hfault]

end Batch

/-! ## Texts -/

/-- No line of the text has a fault. -/
def Faultless (text : String) : Prop :=
  ∀ line ∈ Line.cut '\n' text.toList, line.scan.fault = none

/-- The first line of the text with a fault, behind the given lines. -/
structure FirstFault (text : String) (before : List (Line Char)) (line : Line Char)
    (fault : LineFault) : Prop where
  exists_cut_eq : ∃ rest, Line.cut '\n' text.toList = before ++ line :: rest
  faultless : ∀ line ∈ before, line.scan.fault = none
  fault : line.scan.fault = some fault

theorem faultless_or_firstFault (text : String) :
    Faultless text ∨ ∃ before line fault, FirstFault text before line fault := by
  cases hfind : (Line.cut '\n' text.toList).find? fun line ↦ line.scan.fault.isSome with
  | none =>
    refine .inl fun line hline ↦ ?_
    simpa using List.find?_eq_none.mp hfind line hline
  | some line =>
    obtain ⟨hline, before, rest, hcut, hbefore⟩ := List.find?_eq_some_iff_append.mp hfind
    obtain ⟨fault, hfault⟩ := Option.isSome_iff_exists.mp hline
    refine .inr ⟨before, line, fault, ⟨rest, hcut⟩, fun other hother ↦ ?_, hfault⟩
    simpa using hbefore other hother

namespace TokenStream

variable {text : String}

theorem tokens_ofLines_eq_flatMap (lines : List LineRead) :
    (ofLines lines).tokens = (Batch.all lines).flatMap Batch.tokens := by
  rw [tokens, rest, ofLines]
  cases hall : Batch.all lines with
  | nil => exact absurd hall (Batch.ofLines_ne_nil [Batch.startOfFile] 1 0 lines)
  | cons first others => rfl

theorem tokens_ofLines (lines : List LineRead) :
    (ofLines lines).tokens =
      Batch.startOfFile :: (Batch.ofLines [] 1 0 lines).flatMap Batch.tokens := by
  rw [tokens_ofLines_eq_flatMap, Batch.all, Batch.flatMap_tokens_ofLines]
  rfl

theorem tokens_ofText (text : String) :
    (ofText text).tokens =
      Batch.startOfFile :: (Batch.ofLines [] 1 0 (linesOfText text)).flatMap Batch.tokens :=
  tokens_ofLines (linesOfText text)

/-- The tokens of a text without a fault are those of its lines. -/
theorem tokens_of_faultless (h : Faultless text) :
    (ofText text).tokens =
      Batch.startOfFile :: Batch.tokensOf 1 0 (Line.cut '\n' text.toList) ++ [.endOfFile] := by
  rw [tokens_ofText, linesOfText, Batch.tokens_of_faultless 1 0 (Line.isChain_cut _ _) h]
  rfl

/-- Tokens up to the end of the file are accepted. -/
theorem checked_of_endOfFile {stream : TokenStream} {front : List Token}
    (h : stream.tokens = front ++ [.endOfFile]) : stream.checked = .ok stream.tokens := by
  unfold checked
  rw [h, List.getLast?_concat]
  rfl

/-- Tokens up to a failure are refused with its error. -/
theorem checked_of_ofError {stream : TokenStream} {front : List Token} {error : Error}
    (h : stream.tokens = front ++ [.ofError error]) : stream.checked = .error error := by
  unfold checked
  rw [h, List.getLast?_concat]
  rfl

theorem checked_of_faultless (h : Faultless text) :
    (ofText text).checked = .ok (ofText text).tokens :=
  checked_of_endOfFile (tokens_of_faultless h)

end TokenStream

namespace FirstFault

variable {text : String} {before : List (Line Char)} {line : Line Char} {fault : LineFault}

/-- The failure that a fault makes of a text. -/
def error (before : List (Line Char)) (fault : LineFault) : Error :=
  fault.toError (1 + before.length) (byteSize (before.flatMap (Line.units '\n')))

/-- The tokens of a text with a fault are those of the lines before it, the lexemes of the line that
stand before the fault, and the failure. -/
theorem tokens_eq (h : FirstFault text before line fault) :
    (TokenStream.ofText text).tokens =
      Batch.startOfFile :: Batch.tokensOf 1 0 before ++
        line.scan.lexemes.map (Lexeme.toToken (1 + before.length)
          (byteSize (before.flatMap (Line.units '\n')))) ++ [.ofError (error before fault)] := by
  obtain ⟨⟨rest, hcut⟩, hbefore, hfault⟩ := h
  have hchain := Line.isChain_cut '\n' text.toList
  rw [hcut] at hchain
  rw [TokenStream.tokens_ofText, linesOfText, hcut,
    Batch.tokens_of_fault 1 0 hchain hbefore hfault, Nat.zero_add]
  rfl

theorem checked_eq (h : FirstFault text before line fault) :
    (TokenStream.ofText text).checked = .error (error before fault) :=
  TokenStream.checked_of_ofError h.tokens_eq

end FirstFault

/-- An accepted text has no line with a fault. -/
theorem TokenStream.faultless_of_checked {text : String} {tokens : List Token}
    (h : (ofText text).checked = .ok tokens) :
    Faultless text ∧ tokens = (ofText text).tokens := by
  rcases faultless_or_firstFault text with hnone | ⟨before, line, fault, hfirst⟩
  · rw [checked_of_faultless hnone] at h
    exact ⟨hnone, (Except.ok.inj h).symm⟩
  · rw [hfirst.checked_eq] at h
    cases h

end SectionedConfig

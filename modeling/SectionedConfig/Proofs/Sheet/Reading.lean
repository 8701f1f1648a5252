import SectionedConfig.Proofs.Sheet
import SectionedConfig.Proofs.Text.Lines
import SectionedConfig.TokenStream

/-!
# The sheet of a text

Lines are read one after the other, and nothing but the line number and the offset is carried from
one to the next. A text is therefore accepted if each of its lines has a clause, and then its tokens
are those of its sheet. The first line without a clause ends the tokens with a failure.
-/

namespace SectionedConfig

open Text

/-! ## Tokens without offsets -/

@[simp]
theorem Token.failure?_withoutOffset (token : Token) :
    token.withoutOffset.failure? = token.failure? := by
  obtain ⟨kind, value, position, error, unquoted⟩ := token
  cases position <;> rfl

theorem Token.withoutOffset_endOfFile : Token.endOfFile.withoutOffset = Token.endOfFile := rfl

/-! ## Lines -/

/-- The tokens of the batches of some lines, without their offsets. -/
def Batch.settled (number offset : Nat) (lines : List LineRead) : List Token :=
  ((ofLines [] number offset lines).flatMap Batch.tokens).map Token.withoutOffset

theorem Batch.ofLines_ne_nil (lead : List Token) (number offset : Nat) (lines : List LineRead) :
    ofLines lead number offset lines ≠ [] := by
  rcases lines with _ | ⟨reason | line, rest⟩
  · simp [ofLines]
  · simp [ofLines]
  · simp only [ofLines]
    cases line.scan.fault with
    | some fault => simp
    | none => cases line.terminated <;> simp

theorem Batch.flatMap_tokens_ofLines (lead : List Token) (number offset : Nat)
    (lines : List LineRead) :
    (ofLines lead number offset lines).flatMap Batch.tokens =
      lead ++ (ofLines [] number offset lines).flatMap Batch.tokens := by
  rcases lines with _ | ⟨reason | line, rest⟩
  · simp [ofLines]
  · simp [ofLines]
  · simp only [ofLines]
    cases line.scan.fault with
    | some fault => simp
    | none => cases line.terminated <;> simp

theorem scan_of_clause {content : List Char} {clause : Clause}
    (h : Clause.of? content = some clause) (terminated : Bool) :
    (Line.scan ⟨content, terminated⟩).fault = none ∧
      (Line.scan ⟨content, terminated⟩).lexemes.map Lexeme.unplaced =
        clause.lineLexemes terminated := by
  have hsettled := (Segments.cut content).settled_scan terminated 0
  rw [show (Segments.cut content).clause? = some clause from h, Option.map_some] at hsettled
  unfold Line.scan
  unfold Scan.settled at hsettled
  split at hsettled
  next hfault => exact ⟨hfault, Option.some.inj hsettled⟩
  next => cases hsettled

theorem scan_fault_of_none {content : List Char} (h : Clause.of? content = none)
    (terminated : Bool) : ∃ fault, (Line.scan ⟨content, terminated⟩).fault = some fault := by
  have hsettled := (Segments.cut content).settled_scan terminated 0
  rw [show (Segments.cut content).clause? = none from h, Option.map_none] at hsettled
  unfold Line.scan
  unfold Scan.settled at hsettled
  split at hsettled
  next => cases hsettled
  next fault hfault => exact ⟨fault, hfault⟩

theorem map_withoutOffset_scan {lexemes : List Lexeme} {clause : Clause} {terminated : Bool}
    (h : lexemes.map Lexeme.unplaced = clause.lineLexemes terminated) (number offset : Nat) :
    (lexemes.map (Lexeme.toToken number offset)).map Token.withoutOffset =
      clause.tokens number terminated := by
  rw [Clause.tokens, ← h, List.map_map, List.map_map]
  rfl

/-- A line with a clause gives its tokens, and the lines after it are read with the next number. -/
theorem Batch.settled_cons {content : List Char} {clause : Clause}
    (h : Clause.of? content = some clause) (number offset : Nat) (rest : List LineRead) :
    settled number offset (.ok ⟨content, true⟩ :: rest) =
      clause.tokens number true ++
        settled (number + 1) (offset + Line.byteSize ⟨content, true⟩) rest := by
  obtain ⟨hfault, hlexemes⟩ := scan_of_clause h true
  have htokens := map_withoutOffset_scan hlexemes number offset
  simp only [settled, ofLines, hfault, if_true, List.flatMap_cons, List.map_append, List.nil_append,
    htokens]

/-- A last line without a line feed gives its tokens and the end of the file. -/
theorem Batch.settled_last {content : List Char} {clause : Clause}
    (h : Clause.of? content = some clause) (number offset : Nat) :
    settled number offset [.ok ⟨content, false⟩] = clause.tokens number false ++ [.endOfFile] := by
  obtain ⟨hfault, hlexemes⟩ := scan_of_clause h false
  have htokens := map_withoutOffset_scan hlexemes number offset
  simp only [settled, ofLines, hfault, Bool.false_eq_true, if_false, List.flatMap_cons,
    List.flatMap_nil, List.map_append, List.nil_append, List.append_nil, htokens]
  rfl

/-- A line without a clause ends the tokens with a failure. -/
theorem Batch.settled_fault {content : List Char} (h : Clause.of? content = none)
    (terminated : Bool) (number offset : Nat) (rest : List LineRead) :
    ∃ found error, settled number offset (.ok ⟨content, terminated⟩ :: rest) =
      found ++ [Token.ofError error] := by
  obtain ⟨fault, hfault⟩ := scan_fault_of_none h terminated
  refine ⟨((Line.scan ⟨content, terminated⟩).lexemes.map (Lexeme.toToken number offset)).map
    Token.withoutOffset, fault.toError number offset, ?_⟩
  simp only [settled, ofLines, hfault, List.flatMap_cons, List.flatMap_nil, List.map_append,
    List.nil_append, List.append_nil]
  rfl

/-! ## Texts -/

/-- The lines of a text that is put together from contents and a last content. -/
def linesOfContents (contents : List (List Char)) (last : List Char) : List LineRead :=
  contents.map (fun content ↦ .ok ⟨content, true⟩) ++
    if last = [] then [] else [.ok ⟨last, false⟩]

theorem linesOfText_eq {text : String} {contents : List (List Char)} {last : List Char}
    (h : text.toList = contents.flatMap (· ++ ['\n']) ++ last)
    (hcontents : ∀ content ∈ contents, '\n' ∉ content) (hlast : '\n' ∉ last) :
    linesOfText text = linesOfContents contents last := by
  rw [linesOfText, h, Line.cut_flatMap_append hcontents hlast, List.map_append, List.map_map,
    linesOfContents]
  split <;> rfl

/-- The sheet holds the clauses of the lines. Behind the last line feed there is no line unless
something stands there. -/
structure Sheet.IsOf (sheet : Sheet) (contents : List (List Char)) (last : List Char) : Prop where
  lines : List.Forall₂ (fun content clause ↦ Clause.of? content = some clause) contents sheet.lines
  last : ∃ clause, Clause.of? last = some clause ∧
    sheet.last = if last = [] then none else some clause

theorem Sheet.IsOf.wellFormed {sheet : Sheet} {contents : List (List Char)} {last : List Char}
    (h : sheet.IsOf contents last) (hcontents : ∀ content ∈ contents, '\n' ∉ content)
    (hlast : '\n' ∉ last) : sheet.WellFormed := by
  obtain ⟨clauses, final⟩ := sheet
  obtain ⟨hlines, clause, hclause, hfinal⟩ := h
  simp only at hlines hfinal
  constructor
  · induction hlines with
    | nil => simp
    | cons hcontent _ ih =>
      obtain ⟨hfirst, hrest⟩ := List.forall_mem_cons.mp hcontents
      exact List.forall_mem_cons.mpr
        ⟨Clause.wellFormed_of_of?_eq_some hfirst hcontent, ih hrest⟩
  · intro other hother
    rw [hfinal, Option.mem_def, Option.ite_none_left_eq_some] at hother
    obtain rfl := Option.some.inj hother.2
    exact Clause.wellFormed_of_of?_eq_some hlast hclause

/-- The tokens of lines whose clauses make up a sheet. -/
theorem Batch.settled_of_isOf {sheet : Sheet} {contents : List (List Char)} {last : List Char}
    (h : sheet.IsOf contents last) (number offset : Nat) :
    settled number offset (linesOfContents contents last) =
      Sheet.tokensOf number sheet.lines ++
        sheet.last.elim [] (Clause.tokens (number + sheet.lines.length) false) ++
          [.endOfFile] := by
  obtain ⟨clauses, final⟩ := sheet
  obtain ⟨hlines, clause, hclause, hfinal⟩ := h
  simp only at hlines hfinal ⊢
  unfold linesOfContents
  induction hlines generalizing number offset with
  | nil =>
    subst hfinal
    by_cases hlast : last = []
    · simp [hlast, Sheet.tokensOf, settled, ofLines, Token.withoutOffset_endOfFile]
    · simpa [hlast, Sheet.tokensOf] using settled_last hclause number offset
  | cons hcontent _ ih =>
    rw [List.map_cons, List.cons_append, settled_cons hcontent, ih]
    simp [Sheet.tokensOf, Nat.add_assoc, Nat.add_comm 1]

/-- If the lines do not make up a sheet, their tokens end with a failure. -/
theorem Batch.isOf_or_failure (number offset : Nat) (contents : List (List Char))
    (last : List Char) :
    (∃ sheet : Sheet, sheet.IsOf contents last) ∨
      ∃ found error, settled number offset (linesOfContents contents last) =
        found ++ [Token.ofError error] := by
  unfold linesOfContents
  induction contents generalizing number offset with
  | nil =>
    cases hlast : Clause.of? last with
    | some clause =>
      exact .inl ⟨⟨[], if last = [] then none else some clause⟩, .nil, clause, hlast, rfl⟩
    | none =>
      have hne : last ≠ [] := by
        rintro rfl
        cases hlast
      rw [if_neg hne]
      exact .inr (settled_fault hlast false number offset [])
  | cons content rest ih =>
    cases hcontent : Clause.of? content with
    | none => exact .inr (settled_fault hcontent true number offset _)
    | some clause =>
      rcases ih (number + 1) (offset + Line.byteSize ⟨content, true⟩) with
        ⟨sheet, hsheet⟩ | ⟨found, error, hfailure⟩
      · exact .inl ⟨⟨clause :: sheet.lines, sheet.last⟩, .cons hcontent hsheet.lines, hsheet.last⟩
      · refine .inr ⟨clause.tokens number true ++ found, error, ?_⟩
        rw [List.map_cons, List.cons_append, settled_cons hcontent, hfailure, List.append_assoc]

namespace TokenStream

theorem map_withoutOffset_tokens_ofLines (lines : List LineRead) :
    (ofLines lines).tokens.map Token.withoutOffset =
      Batch.startOfFile :: Batch.settled 1 0 lines := by
  have htokens : (ofLines lines).tokens = (Batch.all lines).flatMap Batch.tokens := by
    rw [tokens, rest, ofLines]
    have hne := Batch.ofLines_ne_nil [Batch.startOfFile] 1 0 lines
    cases hall : Batch.all lines with
    | nil => exact absurd hall hne
    | cons first others => rfl
  rw [htokens, Batch.all, Batch.flatMap_tokens_ofLines, List.map_append]
  rfl

/-- Whether a text is accepted does not depend on offsets. -/
theorem checked_eq (stream : TokenStream) :
    stream.checked =
      match (stream.tokens.map Token.withoutOffset).getLast?.bind Token.failure? with
      | some error => .error error
      | none => .ok stream.tokens := by
  have hsame : Token.failure? ∘ Token.withoutOffset = Token.failure? :=
    funext Token.failure?_withoutOffset
  have hlast : (stream.tokens.map Token.withoutOffset).getLast?.bind Token.failure? =
      stream.tokens.getLast?.bind Token.failure? := by
    rw [List.getLast?_map, Option.bind_map, hsame]
  calc
    stream.checked =
        match stream.tokens.getLast?.bind Token.failure? with
        | some error => .error error
        | none => .ok stream.tokens := rfl
    _ = _ := by rw [hlast]

variable {text : String} {contents : List (List Char)} {last : List Char}

/-- A text whose lines make up a sheet is accepted, and it has the tokens of the sheet. -/
theorem checked_of_isOf {sheet : Sheet} (h : sheet.IsOf contents last)
    (htext : text.toList = contents.flatMap (· ++ ['\n']) ++ last)
    (hcontents : ∀ content ∈ contents, '\n' ∉ content) (hlast : '\n' ∉ last) :
    ∃ tokens, (ofText text).checked = .ok tokens ∧
      tokens.map Token.withoutOffset = Batch.startOfFile :: sheet.tokens ++ [.endOfFile] := by
  have htokens : (ofText text).tokens.map Token.withoutOffset =
      Batch.startOfFile :: sheet.tokens ++ [.endOfFile] := by
    rw [ofText, map_withoutOffset_tokens_ofLines, linesOfText_eq htext hcontents hlast,
      Batch.settled_of_isOf h, Nat.add_comm 1]
    rfl
  refine ⟨(ofText text).tokens, ?_, htokens⟩
  rw [checked_eq, htokens, List.getLast?_concat]
  rfl

/-- The lines of a text that is accepted make up a sheet. -/
theorem exists_isOf_of_checked {tokens : List Token} (h : (ofText text).checked = .ok tokens)
    (htext : text.toList = contents.flatMap (· ++ ['\n']) ++ last)
    (hcontents : ∀ content ∈ contents, '\n' ∉ content) (hlast : '\n' ∉ last) :
    ∃ sheet : Sheet, sheet.IsOf contents last := by
  rcases Batch.isOf_or_failure 1 0 contents last with hsheet | ⟨found, error, hfailure⟩
  · exact hsheet
  · rw [checked_eq, ofText, map_withoutOffset_tokens_ofLines, linesOfText_eq htext hcontents hlast,
      hfailure, ← List.cons_append, List.getLast?_concat] at h
    cases h

end TokenStream

end SectionedConfig

import SectionedConfig.Proofs.Line.Reading

/-!
# How a line ends

A line that can be split ends with one lexeme for its end, and no lexeme in front of it is of that
kind. A line with a fault has the lexemes in front of the fault and no end. Neither the start nor
the end of the file, nor a failure, is a lexeme of a line.
-/

namespace SectionedConfig

open Text

/-- The kinds of the lexemes that stand on a line in front of its end. -/
def TokenKind.isOnLine : TokenKind → Bool
  | endOfStatement | startOfFile | endOfFile | failure => false
  | _ => true

theorem TokenKind.isOnLine_of_isValue {kind : TokenKind} (h : kind.isValue = true) :
    kind.isOnLine = true := by
  cases kind with
  | string | int64 => rfl
  | comment | commentText | endOfStatement | sectionName | sectionStart | sectionEnd | identifier
  | assignment | startOfFile | endOfFile | failure | unclassified => cases h

/-- The scan goes on to the end of the line, or it breaks off at a fault. -/
inductive Scan.Ends (terminated : Bool) : Scan → Prop where
  | whole {front : List Lexeme} (start : Nat)
      (hfront : ∀ lexeme ∈ front, lexeme.kind.isOnLine = true) :
      Ends terminated ⟨front ++ [endLexeme terminated start], none⟩
  | broken {front : List Lexeme} (fault : LineFault)
      (hfront : ∀ lexeme ∈ front, lexeme.kind.isOnLine = true) :
      Ends terminated ⟨front, some fault⟩

namespace Scan.Ends

variable {terminated : Bool} {scan : Scan}

theorem prepend {lexemes : List Lexeme}
    (hlexemes : ∀ lexeme ∈ lexemes, lexeme.kind.isOnLine = true) (h : scan.Ends terminated) :
    (scan.prepend lexemes).Ends terminated := by
  cases h with
  | @whole front start hfront =>
    rw [Scan.prepend, ← List.append_assoc]
    exact .whole start (List.forall_mem_append.mpr ⟨hlexemes, hfront⟩)
  | broken fault hfront =>
    exact .broken fault (List.forall_mem_append.mpr ⟨hlexemes, hfront⟩)

theorem failed (start : Nat) (cause : LineFault.Cause) :
    (Scan.failed start cause).Ends terminated :=
  .broken ⟨start, cause⟩ (by simp)

theorem afterBlank (lead : List Char) (start : Nat) (boundary : Boundary)
    (h : scan.Ends terminated) : (Scan.afterBlank lead start boundary scan).Ends terminated := by
  unfold Scan.afterBlank
  split
  next => exact h
  next => exact failed _ _

end Scan.Ends

/-- The lexeme of a value is a string or a bare value. -/
theorem isValue_of_scanValue {text : List Char} {start : Nat} {found : Lexeme}
    (h : scanValue text start = .ok found) : found.kind.isValue = true := by
  have hform := toOption_scanValue text start
  rw [h] at hform
  obtain ⟨form, _, hfound⟩ := Option.map_eq_some_iff.mp hform.symm
  have hkind : form.kind = found.kind := congrArg Lexeme.kind hfound
  rw [← hkind]
  cases form <;> rfl

theorem isOnLine_of_mem_scanComment (text : List Char) (start : Nat) :
    ∀ lexeme ∈ scanComment text start, lexeme.kind.isOnLine = true := by
  simp [scanComment, Lexeme.trimmed, TokenKind.isOnLine]

theorem ends_scanAssigned (text : List Char) (start : Nat) (terminated : Bool) :
    (scanAssigned text start terminated).Ends terminated := by
  rcases hcut : cutComment false text with ⟨value, remark⟩
  unfold scanAssigned
  simp only [hcut]
  cases hvalue : scanValue value start with
  | error fault => exact .broken fault (by simp)
  | ok found =>
    have hfound := TokenKind.isOnLine_of_isValue (isValue_of_scanValue hvalue)
    cases remark with
    | none => exact .whole _ (List.forall_mem_singleton.mpr hfound)
    | some remark =>
      exact .whole _ (List.forall_mem_cons.mpr ⟨hfound, isOnLine_of_mem_scanComment remark _⟩)

/-- Segments are scanned to the end of the line or to a fault. -/
theorem Segments.ends_scan (terminated : Bool) (start : Nat) (segments : Segments) :
    (segments.scan terminated start).Ends terminated := by
  induction segments generalizing start with
  | plain text =>
    have hwhole : Scan.Ends terminated
        ⟨[] ++ [endLexeme terminated (start + byteSize text)], none⟩ :=
      .whole _ (by simp)
    exact .afterBlank _ _ _ hwhole
  | opening name rest ih =>
    rw [scan]
    split
    next => exact .failed _ _
    next => exact (ih _).prepend (by simp [Lexeme.trimmed, TokenKind.isOnLine])
  | closing lead rest ih =>
    exact .afterBlank _ _ _ ((ih _).prepend (by simp [TokenKind.isOnLine]))
  | assignment key value =>
    rw [scan]
    split
    next => exact .failed _ _
    next =>
      exact (ends_scanAssigned value _ terminated).prepend
        (by simp [Lexeme.trimmed, TokenKind.isOnLine])
  | comment lead text =>
    exact .afterBlank _ _ _ (.whole _ (isOnLine_of_mem_scanComment text _))

namespace Text.Line

theorem ends_scan (line : Line Char) : line.scan.Ends line.terminated :=
  (Segments.cut line.content).ends_scan line.terminated 0

/-- The tokens of a line without a fault are followed by its end. -/
theorem exists_stop {line : Line Char} (h : line.scan.fault = none) (number offset : Nat) :
    ∃ front stop, line.scan.lexemes.map (Lexeme.toToken number offset) = front ++ [stop] ∧
      stop.kind = .endOfStatement ∧ ∀ token ∈ front, token.kind.isOnLine = true := by
  have hends := line.ends_scan
  generalize line.scan = scan at h hends ⊢
  cases hends with
  | @whole front start hfront =>
    rw [List.map_append]
    exact ⟨_, _, rfl, rfl, List.forall_mem_map.mpr hfront⟩
  | broken fault hfront => cases h

/-- On a line there is neither the start nor the end of the file, and no failure. -/
theorem kind_of_mem_lexemes {line : Line Char} {lexeme : Lexeme}
    (h : lexeme ∈ line.scan.lexemes) :
    lexeme.kind.isOnLine = true ∨ lexeme.kind = .endOfStatement := by
  have hends := line.ends_scan
  generalize line.scan = scan at h hends
  cases hends with
  | whole start hfront =>
    rcases List.mem_append.mp h with h | h
    · exact .inl (hfront lexeme h)
    · rw [List.mem_singleton.mp h]
      exact .inr rfl
  | broken fault hfront => exact .inl (hfront lexeme h)

end Text.Line

end SectionedConfig

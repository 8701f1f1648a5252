import SectionedConfig.Proofs.Layout
import SectionedConfig.Proofs.Line.Fault
import SectionedConfig.Proofs.Text.Separators

/-!
# Where lexemes stand

The tokens of a text stand in it one after the other, with nothing but white space between them, and
each of them knows its place. This is a property of rows of tokens that are put together where they
meet, so it is shown lexeme by lexeme for a line. A line with a fault is covered as far as it was
scanned.
-/

namespace SectionedConfig

open Text

/-! ## Places -/

/-- The place behind a text that starts at a place. -/
def Position.after (place : Position) (text : List Char) : Position :=
  ⟨place.line + text.count '\n', place.offset + byteSize text⟩

@[simp]
theorem Position.after_nil (place : Position) : place.after [] = place := rfl

@[simp]
theorem Position.after_append (place : Position) (first second : List Char) :
    place.after (first ++ second) = (place.after first).after second := by
  simp [after, List.count_append, Nat.add_assoc]

theorem Position.after_of_notMem {text : List Char} (h : '\n' ∉ text) (place : Position) :
    place.after text = ⟨place.line, place.offset + byteSize text⟩ := by
  rw [after, List.count_eq_zero_of_not_mem h, Nat.add_zero]

/-- What a token takes of the text that it was read from. Quotation marks belong to the string
between them. -/
def Token.source (token : Token) : List Char :=
  if token.kind = .string ∧ token.unquoted = false then '"' :: token.value.toList ++ ['"']
  else token.value.toList

/-- The tokens stand in the text, which starts at the given place: nothing but white space without
line feeds stands between them, and nothing stands behind the last of them. Only the end of a
statement takes a line feed. -/
inductive Spread : Position → List Token → List Char → Prop where
  | nil (place : Position) : Spread place [] []
  | cons {place : Position} {token : Token} {others : List Token} {gap text : List Char}
      (hgap : Blank gap) (hunbroken : '\n' ∉ gap) (hplace : token.position = some (place.after gap))
      (hfeed : '\n' ∈ token.source → token.kind = .endOfStatement)
      (hothers : Spread (place.after (gap ++ token.source)) others text) :
      Spread place (token :: others) (gap ++ token.source ++ text)

namespace Spread

theorem append {place : Position} {first second : List Token} {text text' : List Char}
    (h : Spread place first text) (h' : Spread (place.after text) second text') :
    Spread place (first ++ second) (text ++ text') := by
  induction h with
  | nil place => exact h'
  | cons hgap hunbroken hplace hfeed _ ih =>
    rw [List.cons_append, List.append_assoc]
    rw [Position.after_append] at h'
    exact .cons hgap hunbroken hplace hfeed (ih h')

end Spread

/-! ## Lexemes -/

variable {number offset start : Nat}

/-- What a lexeme takes of its line. -/
def Lexeme.source (lexeme : Lexeme) : List Char :=
  if lexeme.kind = .string ∧ lexeme.unquoted = false then '"' :: lexeme.text ++ ['"']
  else lexeme.text

@[simp]
theorem Lexeme.source_toToken (lexeme : Lexeme) :
    (lexeme.toToken number offset).source = lexeme.source := by
  simp [Token.source, source, toToken]

/-- The lexeme of a value stands between white space. -/
theorem exists_around_of_scanValue {text : List Char} {found : Lexeme}
    (h : scanValue text start = .ok found) :
    ∃ gap tail, Blank gap ∧ Blank tail ∧ gap ++ found.source ++ tail = text ∧
      found.start = start + byteSize gap := by
  obtain ⟨tail, htail, htext⟩ := exists_margin_append_trim_append text
  unfold scanValue at h
  simp only at h
  split at h
  next =>
    split at h
    next =>
      obtain rfl := Except.ok.inj h
      exact ⟨_, tail, blank_margin text, htail, htext, rfl⟩
    next => cases h
  next =>
    split at h
    next =>
      obtain rfl := Except.ok.inj h
      exact ⟨_, tail, blank_margin text, htail, htext, rfl⟩
    next before inside hcut =>
      split at h
      next => cases h
      next string after hlast =>
        split at h
        next hblank =>
          obtain rfl := Except.ok.inj h
          rw [Bool.and_eq_true, isEmpty_trim_iff, isEmpty_trim_iff] at hblank
          refine ⟨before, after, hblank.1, hblank.2, ?_, rfl⟩
          rw [(cutFirst_eq_some hcut).1, (cutLast_eq_some hlast).1]
          simp [Lexeme.source]
        next => cases h

namespace Spread

/-- White space in front of the first token belongs to the gap before it. -/
theorem lead {token : Token} {others : List Token} {gap text : List Char} (hgap : Blank gap)
    (hunbroken : '\n' ∉ gap)
    (h : Spread ⟨number, offset + (start + byteSize gap)⟩ (token :: others) text) :
    Spread ⟨number, offset + start⟩ (token :: others) (gap ++ text) := by
  have hafter : (Position.mk number (offset + start)).after gap =
      ⟨number, offset + (start + byteSize gap)⟩ := by
    rw [Position.after_of_notMem hunbroken, Nat.add_assoc]
  rw [← hafter] at h
  cases h with
  | @cons _ _ _ second later hsecond hsecond' hplace hfeed hothers =>
    rw [List.append_assoc, ← List.append_assoc gap, ← List.append_assoc]
    refine .cons (List.forall_mem_append.mpr ⟨hgap, hsecond⟩) ?_ ?_ hfeed ?_
    · exact fun hmem ↦ (List.mem_append.mp hmem).elim hunbroken hsecond'
    · rw [hplace, Position.after_append]
    · rwa [List.append_assoc, Position.after_append]

/-- A lexeme without a line feed takes its part of the line, with the white space in front of it. -/
theorem lexeme {lexeme : Lexeme} {others : List Token} {gap rest : List Char} (hgap : Blank gap)
    (hunbroken : '\n' ∉ gap ++ lexeme.source) (hstart : lexeme.start = start + byteSize gap)
    (h : Spread ⟨number, offset + (start + byteSize (gap ++ lexeme.source))⟩ others rest) :
    Spread ⟨number, offset + start⟩ (lexeme.toToken number offset :: others)
      (gap ++ lexeme.source ++ rest) := by
  rw [← @Lexeme.source_toToken number offset lexeme] at h hunbroken ⊢
  have hgap' : '\n' ∉ gap := fun hmem ↦ hunbroken (List.mem_append_left _ hmem)
  refine .cons hgap hgap' ?_ (fun hmem ↦ absurd (List.mem_append_right gap hmem) hunbroken) ?_
  · rw [Position.after_of_notMem hgap', Lexeme.toToken, hstart, Nat.add_assoc]
  · rwa [Position.after_of_notMem hunbroken, Nat.add_assoc]

/-- A character that settles its own kind. -/
theorem mark {c : Char} {kind : TokenKind} {others : List Token} {rest : List Char}
    (hkind : kind ≠ .string) (hsize : c.utf8Size = 1) (hfeed : c ≠ '\n')
    (h : Spread ⟨number, offset + (start + 1)⟩ others rest) :
    Spread ⟨number, offset + start⟩
      (Lexeme.toToken number offset ⟨kind, [c], start, false⟩ :: others) (c :: rest) := by
  have hsource : (Lexeme.mk kind [c] start false).source = [c] := by simp [Lexeme.source, hkind]
  have hlexeme : Spread ⟨number, offset + start⟩ _
      ([] ++ (Lexeme.mk kind [c] start false).source ++ rest) :=
    lexeme blank_nil (by simpa [hsource] using hfeed.symm) rfl (by simpa [hsource, hsize] using h)
  rwa [hsource] at hlexeme

/-- A lexeme between white space, in front of another token. -/
theorem between {lexeme : Lexeme} {next : Token} {others : List Token} {gap tail rest : List Char}
    (hgap : Blank gap) (htail : Blank tail) (hunbroken : '\n' ∉ gap ++ lexeme.source ++ tail)
    (hstart : lexeme.start = start + byteSize gap)
    (h : Spread ⟨number, offset + (start + byteSize (gap ++ lexeme.source ++ tail))⟩
      (next :: others) rest) :
    Spread ⟨number, offset + start⟩ (lexeme.toToken number offset :: next :: others)
      (gap ++ lexeme.source ++ tail ++ rest) := by
  rw [List.mem_append, not_or] at hunbroken
  rw [List.append_assoc]
  refine .lexeme hgap hunbroken.1 hstart (.lead htail hunbroken.2 ?_)
  rwa [Nat.add_assoc, ← byteSize_append]

/-- A text whose white space is stripped, in front of another token. -/
theorem trimmed {kind : TokenKind} {text : List Char} {next : Token} {others : List Token}
    {rest : List Char} (hkind : kind ≠ .string) (hunbroken : '\n' ∉ text)
    (h : Spread ⟨number, offset + (start + byteSize text)⟩ (next :: others) rest) :
    Spread ⟨number, offset + start⟩
      ((Lexeme.trimmed kind text start).toToken number offset :: next :: others)
      (text ++ rest) := by
  have hsource : (Lexeme.trimmed kind text start).source = trim text := by
    simp [Lexeme.source, Lexeme.trimmed, hkind]
  obtain ⟨tail, htail, htext⟩ := exists_margin_append_trim_append text
  rw [← hsource] at htext
  rw [← htext] at h
  have hlexeme := between (blank_margin text) htail (by rwa [htext]) rfl h
  rwa [htext] at hlexeme

/-- A value, in front of another token. -/
theorem value {text : List Char} {found : Lexeme} {next : Token} {others : List Token}
    {rest : List Char} (hvalue : scanValue text start = .ok found) (hunbroken : '\n' ∉ text)
    (h : Spread ⟨number, offset + (start + byteSize text)⟩ (next :: others) rest) :
    Spread ⟨number, offset + start⟩ (found.toToken number offset :: next :: others)
      (text ++ rest) := by
  obtain ⟨gap, tail, hgap, htail, rfl, hstart⟩ := exists_around_of_scanValue hvalue
  exact between hgap htail hunbroken hstart h

/-- The end of a line. -/
theorem lineEnd (terminated : Bool) :
    Spread ⟨number, offset + start⟩
      [(endLexeme terminated start).toToken number offset] (Clause.lineEnd terminated) := by
  have hsource : ((endLexeme terminated start).toToken number offset).source =
      Clause.lineEnd terminated := by
    rw [Lexeme.source_toToken]
    rfl
  have hend : Spread ⟨number, offset + start⟩ [(endLexeme terminated start).toToken number offset]
      ([] ++ ((endLexeme terminated start).toToken number offset).source ++ []) :=
    .cons blank_nil List.not_mem_nil rfl (fun _ ↦ rfl) (.nil _)
  rwa [hsource, List.nil_append, List.append_nil] at hend

end Spread

/-! ## Lines -/

/-- The lexemes of a scan stand in the text, which starts at the given distance from the start of
its line. They take all of it unless there is a fault. -/
def Scan.Covers (number offset start : Nat) (scan : Scan) (text : List Char) : Prop :=
  ∃ covered rest, text = covered ++ rest ∧
    Spread ⟨number, offset + start⟩ (scan.lexemes.map (Lexeme.toToken number offset)) covered ∧
    (scan.fault = none → rest = [])

theorem Scan.covers_failed (distance : Nat) (cause : LineFault.Cause) (text : List Char) :
    (Scan.failed distance cause).Covers number offset start text :=
  ⟨[], text, rfl, .nil _, fun h ↦ by cases h⟩

theorem Scan.covers_afterBlank {lead text : List Char} {boundary : Boundary} {scan : Scan}
    (h : Blank lead → scan.Covers number offset start text) :
    (Scan.afterBlank lead start boundary scan).Covers number offset start text := by
  unfold Scan.afterBlank
  split
  next hblank => exact h (isEmpty_trim_iff.mp hblank)
  next => exact covers_failed _ _ _

/-- The lexemes of a comment and of the end of its line. -/
theorem Spread.comment {text : List Char} (terminated : Bool) (hunbroken : '\n' ∉ text) :
    Spread ⟨number, offset + start⟩
      ((scanComment text start ++ [endLexeme terminated (start + 1 + byteSize text)]).map
        (Lexeme.toToken number offset))
      ('#' :: text ++ Clause.lineEnd terminated) :=
  .mark (by decide) rfl (by decide) (.trimmed (by decide) hunbroken (.lineEnd terminated))

theorem covers_scanAssigned {text : List Char} (terminated : Bool) (hunbroken : '\n' ∉ text) :
    (scanAssigned text start terminated).Covers number offset start
      (text ++ Clause.lineEnd terminated) := by
  rcases hcut : cutComment false text with ⟨value, comment⟩
  obtain ⟨_, htext, _⟩ := cutComment_spec hcut
  unfold scanAssigned
  simp only [hcut]
  cases hvalue : scanValue value start with
  | error fault => exact ⟨[], _, rfl, .nil _, fun h ↦ by cases h⟩
  | ok lexeme =>
    refine ⟨_, [], (List.append_nil _).symm, ?_, fun _ ↦ rfl⟩
    subst htext
    cases comment with
    | none =>
      have hvalueOnly : '\n' ∉ value := by simpa using hunbroken
      simpa using Spread.value hvalue hvalueOnly (.lineEnd terminated)
    | some remark =>
      rw [Option.elim_some, List.mem_append, List.mem_cons, not_or, not_or] at hunbroken
      have hend : start + byteSize (value ++ '#' :: remark) =
          start + byteSize value + 1 + byteSize remark := by
        rw [byteSize_append, byteSize_cons, ← Nat.add_assoc, ← Nat.add_assoc]
        rfl
      have hremark : Spread ⟨number, offset + (start + byteSize value)⟩ _ _ :=
        .comment terminated hunbroken.2.2
      rw [← hend] at hremark
      simpa [scanComment] using Spread.value hvalue hunbroken.1 hremark

/-- The lexemes of segments cover them up to the fault. -/
theorem Segments.covers_scan (terminated : Bool) (segments : Segments)
    (hunbroken : '\n' ∉ segments.join) :
    (segments.scan terminated start).Covers number offset start
      (segments.join ++ Clause.lineEnd terminated) := by
  induction segments generalizing start with
  | plain text =>
    refine Scan.covers_afterBlank fun hblank ↦ ⟨_, [], (List.append_nil _).symm, ?_, fun _ ↦ rfl⟩
    exact .lead hblank hunbroken (.lineEnd terminated)
  | opening name rest ih =>
    rw [join, List.mem_append, List.mem_cons, not_or, not_or] at hunbroken
    rw [scan]
    split
    next => exact Scan.covers_failed _ _ _
    next =>
      obtain ⟨covered, left, hjoin, hspread, hleft⟩ :=
        @ih (start + byteSize name + 1) hunbroken.2.2
      refine ⟨name ++ '{' :: covered, left, by simp [join, hjoin], ?_, hleft⟩
      exact .trimmed (by decide) hunbroken.1 (.mark (by decide) rfl (by decide) hspread)
  | closing lead rest ih =>
    rw [join, List.mem_append, List.mem_cons, not_or, not_or] at hunbroken
    obtain ⟨covered, left, hjoin, hspread, hleft⟩ :=
      @ih (start + byteSize lead + 1) hunbroken.2.2
    refine Scan.covers_afterBlank fun hblank ↦
      ⟨lead ++ '}' :: covered, left, by simp [join, hjoin], ?_, hleft⟩
    exact .lead hblank hunbroken.1 (.mark (by decide) rfl (by decide) hspread)
  | assignment key value =>
    rw [join, List.mem_append, List.mem_cons, not_or, not_or] at hunbroken
    rw [scan]
    split
    next => exact Scan.covers_failed _ _ _
    next =>
      obtain ⟨covered, left, hjoin, hspread, hleft⟩ :=
        @covers_scanAssigned number offset (start + byteSize key + 1) value terminated hunbroken.2.2
      refine ⟨key ++ '=' :: covered, left, by simp [join, hjoin], ?_, hleft⟩
      exact .trimmed (by decide) hunbroken.1 (.mark (by decide) rfl (by decide) hspread)
  | comment lead text =>
    rw [join, List.mem_append, List.mem_cons, not_or, not_or] at hunbroken
    refine Scan.covers_afterBlank fun hblank ↦ ⟨_, [], (List.append_nil _).symm, ?_, fun _ ↦ rfl⟩
    rw [join, List.append_assoc]
    exact .lead hblank hunbroken.1 (.comment terminated hunbroken.2.2)

/-- The lexemes of a line cover it up to the fault. -/
theorem Text.Line.covers_scan (number offset : Nat) {line : Line Char}
    (h : '\n' ∉ line.content) : line.scan.Covers number offset 0 (line.units '\n') := by
  have hcovers := @Segments.covers_scan number offset 0 line.terminated (Segments.cut line.content)
  rw [Segments.join_cut] at hcovers
  have hunits : line.units '\n' = line.content ++ Clause.lineEnd line.terminated := by
    unfold units Clause.lineEnd
    split <;> simp
  rw [hunits]
  exact hcovers h

end SectionedConfig

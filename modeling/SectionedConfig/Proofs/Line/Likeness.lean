import SectionedConfig.Proofs.Line.Reading

/-!
# Lines that say the same

Up to its first equals sign or number sign a line is cut at braces and nowhere else. Two lines that
begin alike up to there say the same if they do so behind any name or white space. White space at
the ends of a line and next to its marks is stripped with the texts that it belongs to, and a remark
is nothing but what stands behind its number sign.
-/

namespace SectionedConfig

open Text

/-! ## Outcomes -/

/-- What scanning comes to, wherever the line stands: the lexemes, as they are viewed, or what is
wrong with the line. -/
def Scan.outcome (view : Lexeme → Lexeme) (scan : Scan) : Except LineFault.Cause (List Lexeme) :=
  match scan.fault with
  | none => .ok (scan.lexemes.map fun lexeme ↦ view lexeme.unplaced)
  | some fault => .error fault.cause

/-- What scanning a value comes to, but for places. -/
def valueOutcome (text : List Char) (start : Nat) : Except LineFault.Cause Lexeme :=
  ((scanValue text start).map Lexeme.unplaced).mapError LineFault.cause

/-- What the text behind an equals sign comes to. -/
def assignedOutcome (view : Lexeme → Lexeme) (terminated : Bool) (text : List Char) :
    Except LineFault.Cause (List Lexeme) :=
  let (value, remark) := cutComment false text
  (valueOutcome value 0).map fun lexeme ↦
    (lexeme :: (remark.map trim).elim [] Clause.remarkLexemes ++ [endLexeme terminated 0]).map view

/-- What the content of a line comes to. -/
def lineOutcome (view : Lexeme → Lexeme) (terminated : Bool) (content : List Char) :
    Except LineFault.Cause (List Lexeme) :=
  ((Segments.cut content).scan terminated 0).outcome view

variable {view : Lexeme → Lexeme} {terminated : Bool}

@[simp]
theorem Scan.outcome_prepend (lexemes : List Lexeme) (scan : Scan) :
    (scan.prepend lexemes).outcome view =
      (scan.outcome view).map
        ((lexemes.map fun lexeme ↦ view lexeme.unplaced) ++ ·) := by
  obtain ⟨found, fault⟩ := scan
  cases fault with
  | none => simp [outcome, prepend, Except.map]
  | some fault => rfl

@[simp]
theorem Scan.outcome_afterBlank (lead : List Char) (start : Nat) (boundary : Boundary)
    (scan : Scan) :
    (Scan.afterBlank lead start boundary scan).outcome view =
      if (trim lead).isEmpty then scan.outcome view
      else .error (.strayText (trim lead) boundary) := by
  unfold Scan.afterBlank
  split <;> rfl

/-- White space around a value makes no difference to it, and neither does its place. -/
theorem valueOutcome_around {lead tail : List Char} (hlead : Blank lead) (htail : Blank tail)
    (text : List Char) (start start' : Nat) :
    valueOutcome (lead ++ text ++ tail) start' = valueOutcome text start := by
  have hquote {text : List Char} (htext : Blank text) : '"' ∉ text := htext.notMem (by decide)
  have hblank {front back text : List Char} (hfront : Blank front) (hback : Blank back) :
      (trim (front ++ text ++ back)).isEmpty = (trim text).isEmpty := by
    rw [trim_around hfront hback]
  unfold valueOutcome scanValue
  simp only [trim_around hlead htail]
  by_cases hopen : (trim text).head? = some '['
  · by_cases hclose : (trim text).getLast? = some ']'
    · simp only [if_pos hopen, if_pos hclose]
      rfl
    · simp only [if_pos hopen, if_neg hclose]
      rfl
  simp only [if_neg hopen]
  cases hfirst : cutFirst '"' text with
  | none =>
    have hnone : cutFirst '"' (lead ++ text ++ tail) = none := by
      simp [cutFirst_eq_none, hquote hlead, cutFirst_eq_none.mp hfirst, hquote htail]
    rw [hnone]
    rfl
  | some pieces =>
    obtain ⟨before, inside⟩ := pieces
    obtain ⟨rfl, hbefore⟩ := cutFirst_eq_some hfirst
    have hcut : cutFirst '"' (lead ++ (before ++ '"' :: inside) ++ tail) =
        some (lead ++ before, inside ++ tail) := by
      have hnot : '"' ∉ lead ++ before := by simp [hquote hlead, hbefore]
      simpa using cutFirst_append hnot (inside ++ tail)
    rw [hcut]
    simp only [cutLast_append_of_notMem (hquote htail)]
    cases cutLast '"' inside with
    | none => rfl
    | some pieces =>
      obtain ⟨string, after⟩ := pieces
      have hfront := @hblank lead [] before hlead blank_nil
      have hback := @hblank [] tail after blank_nil htail
      rw [List.append_nil] at hfront
      rw [List.nil_append] at hback
      simp only [Option.map_some, hfront, hback]
      split <;> rfl

/-- White space in front of a value belongs to the value. -/
theorem cutComment_append_blank {lead : List Char} (h : Blank lead) (text : List Char) :
    cutComment false (lead ++ text) =
      (lead ++ (cutComment false text).1, (cutComment false text).2) := by
  have hlead : Uncommented false lead := uncommented_of_notMem (h.notMem (by decide)) false
  rw [cutComment_append hlead, quotesAfter_of_notMem (h.notMem (by decide))]

theorem outcome_scanAssigned (text : List Char) (start : Nat) :
    (scanAssigned text start terminated).outcome view = assignedOutcome view terminated text := by
  rcases hcut : cutComment false text with ⟨value, remark⟩
  have hvalue := valueOutcome_around blank_nil blank_nil value 0 start
  rw [List.append_nil, List.nil_append] at hvalue
  unfold scanAssigned assignedOutcome
  simp only [hcut]
  rw [← hvalue, valueOutcome]
  cases scanValue value start with
  | error fault => rfl
  | ok lexeme => cases remark <;> rfl

/-- A line comes to the same wherever it starts. -/
theorem Segments.outcome_scan (segments : Segments) (start : Nat) :
    (segments.scan terminated start).outcome view =
      (segments.scan terminated 0).outcome view := by
  induction segments generalizing start with
  | plain text =>
    simp only [scan, Scan.outcome_afterBlank]
    rfl
  | opening name rest ih =>
    simp only [scan]
    split
    next => rfl
    next =>
      rw [Scan.outcome_prepend, Scan.outcome_prepend, ih, ih (0 + byteSize name + 1)]
      rfl
  | closing lead rest ih =>
    simp only [scan, Scan.outcome_afterBlank, Scan.outcome_prepend]
    rw [ih, ih (0 + byteSize lead + 1)]
    rfl
  | assignment key value =>
    simp only [scan]
    split
    next => rfl
    next =>
      rw [Scan.outcome_prepend, Scan.outcome_prepend, outcome_scanAssigned, outcome_scanAssigned]
      rfl
  | comment lead text =>
    simp only [scan, Scan.outcome_afterBlank]
    rfl

/-! ## Scanning a line from the left -/

namespace Segments

variable {lead text : List Char}

theorem lineOutcome_plain (h : Plain text) :
    lineOutcome view terminated text =
      if (trim text).isEmpty then .ok [view (endLexeme terminated 0)]
      else .error (.strayText (trim text) (if terminated then .endOfLine else .endOfInput)) := by
  rw [lineOutcome, cut_of_plain h, scan, Scan.outcome_afterBlank]
  rfl

theorem lineOutcome_append_opening (h : Plain lead) (rest : List Char) :
    lineOutcome view terminated (lead ++ '{' :: rest) =
      if (trim lead).isEmpty then .error .namelessSection
      else (lineOutcome view terminated rest).map
        ([view ⟨.sectionName, trim lead, 0, false⟩,
          view ⟨.sectionStart, ['{'], 0, false⟩] ++ ·) := by
  rw [lineOutcome, cut_append_opening h, scan]
  split
  next => rfl
  next =>
    rw [Scan.outcome_prepend, outcome_scan]
    rfl

theorem lineOutcome_append_closing (h : Plain lead) (rest : List Char) :
    lineOutcome view terminated (lead ++ '}' :: rest) =
      if (trim lead).isEmpty then
        (lineOutcome view terminated rest).map ([view ⟨.sectionEnd, ['}'], 0, false⟩] ++ ·)
      else .error (.strayText (trim lead) .sectionEnd) := by
  rw [lineOutcome, cut_append_closing h, scan, Scan.outcome_afterBlank, Scan.outcome_prepend,
    outcome_scan]
  rfl

theorem lineOutcome_append_assignment (h : Plain lead) (rest : List Char) :
    lineOutcome view terminated (lead ++ '=' :: rest) =
      if (trim lead).isEmpty then .error .keylessAssignment
      else (assignedOutcome view terminated rest).map
        ([view ⟨.identifier, trim lead, 0, false⟩,
          view ⟨.assignment, ['='], 0, false⟩] ++ ·) := by
  rw [lineOutcome, cut_append_assignment h, scan]
  split
  next => rfl
  next =>
    rw [Scan.outcome_prepend, outcome_scanAssigned]
    rfl

theorem lineOutcome_append_comment (h : Plain lead) (rest : List Char) :
    lineOutcome view terminated (lead ++ '#' :: rest) =
      if (trim lead).isEmpty then
        .ok ((Clause.remarkLexemes (trim rest) ++ [endLexeme terminated 0]).map view)
      else .error (.strayText (trim lead) .comment) := by
  rw [lineOutcome, cut_append_comment h, scan, Scan.outcome_afterBlank]
  rfl

/-- A text without the signs that end the cutting of a line. -/
def Signless (text : List Char) : Prop := ∀ c ∈ text, c ≠ '=' ∧ c ≠ '#'

theorem signless_append {first second : List Char} :
    Signless (first ++ second) ↔ Signless first ∧ Signless second :=
  List.forall_mem_append

theorem signless_of_plain (h : Plain text) : Signless text := by
  intro c hc
  have hmark := h c hc
  simp only [marks, List.mem_cons, not_or] at hmark
  exact ⟨hmark.2.2.1, hmark.2.2.2.1⟩

/-- A line has no sign, or there is a first one. -/
theorem signless_or_exists (text : List Char) :
    Signless text ∨ ∃ lead sign rest, text = lead ++ sign :: rest ∧ Signless lead ∧
      (sign = '=' ∨ sign = '#') := by
  induction text with
  | nil => exact .inl (by simp [Signless])
  | cons c rest ih =>
    by_cases hc : c = '=' ∨ c = '#'
    · exact .inr ⟨[], c, rest, rfl, by simp [Signless], hc⟩
    rcases ih with hrest | ⟨lead, sign, after, rfl, hlead, hsign⟩
    · exact .inl (List.forall_mem_cons.mpr ⟨not_or.mp hc, hrest⟩)
    · exact .inr ⟨c :: lead, sign, after, rfl, List.forall_mem_cons.mpr ⟨not_or.mp hc, hlead⟩,
        hsign⟩

/-- Two lines that begin alike come to the same if they do so behind every name or white space. -/
theorem lineOutcome_append_congr {first second : List Char}
    (h : ∀ text, Plain text →
      lineOutcome view terminated (text ++ first) = lineOutcome view terminated (text ++ second))
    (hlead : Signless lead) :
    lineOutcome view terminated (lead ++ first) = lineOutcome view terminated (lead ++ second) := by
  -- What has been passed since the last brace is plain.
  have hall (text : List Char) (htext : Plain text) :
      lineOutcome view terminated (text ++ (lead ++ first)) =
        lineOutcome view terminated (text ++ (lead ++ second)) := by
    induction lead generalizing text with
    | nil => exact h text htext
    | cons c rest ih =>
      obtain ⟨⟨hequals, hnumber⟩, hrest⟩ := List.forall_mem_cons.mp hlead
      have hbehind := ih hrest [] plain_nil
      rw [List.nil_append, List.nil_append] at hbehind
      rw [List.cons_append, List.cons_append]
      by_cases hopen : c = '{'
      · rw [hopen, lineOutcome_append_opening htext, lineOutcome_append_opening htext, hbehind]
      by_cases hclose : c = '}'
      · rw [hclose, lineOutcome_append_closing htext, lineOutcome_append_closing htext, hbehind]
      have hplain : Plain (text ++ [c]) := by
        refine plain_append.mpr ⟨htext, List.forall_mem_singleton.mpr ?_⟩
        simp [marks, hopen, hclose, hequals, hnumber]
      simpa using ih hrest _ hplain
  exact hall [] plain_nil

/-! ## White space -/

/-- The marks next to which white space says nothing. -/
def layoutMarks : List Char := ['{', '}', '=']

/-- The beginnings and ends of a line between which white space says nothing: nothing stands on one
side, or one of the marks does, and no sign stands in front of the mark. -/
inductive IsGap : List Char → List Char → Prop where
  | lineStart (back : List Char) : IsGap [] back
  | lineEnd (front : List Char) : IsGap front []
  | beforeMark {front : List Char} {mark : Char} (hfront : Signless front)
      (hmark : mark ∈ layoutMarks) (back : List Char) : IsGap front (mark :: back)
  | afterMark {front : List Char} {mark : Char} (hfront : Signless front)
      (hmark : mark ∈ layoutMarks) (back : List Char) : IsGap (front ++ [mark]) back

variable {gap : List Char}

theorem assignedOutcome_append_blank (hgap : Blank gap) (text : List Char) :
    assignedOutcome view terminated (text ++ gap) = assignedOutcome view terminated text := by
  unfold assignedOutcome
  rw [cutComment_append_tail (hgap.notMem (by decide))]
  rcases cutComment false text with ⟨value, _ | remark⟩
  · have hvalue := valueOutcome_around blank_nil hgap value 0 0
    rw [List.nil_append] at hvalue
    simp only [hvalue]
  · simp only [Option.map_some, trim_append_blank hgap]

theorem assignedOutcome_blank_append (hgap : Blank gap) (text : List Char) :
    assignedOutcome view terminated (gap ++ text) = assignedOutcome view terminated text := by
  have hvalue := valueOutcome_around hgap blank_nil (cutComment false text).1 0 0
  rw [List.append_nil] at hvalue
  unfold assignedOutcome
  simp only [cutComment_append_blank hgap, hvalue]

theorem lineOutcome_blank_append (hgap : Blank gap) (content : List Char) :
    lineOutcome view terminated (gap ++ content) = lineOutcome view terminated content := by
  rw [lineOutcome, lineOutcome, cut_append (plain_of_blank hgap)]
  -- The gap belongs to the first segment, whatever its kind.
  cases cut content with
  | plain text =>
    simp only [pushAll, scan, Scan.outcome_afterBlank, trim_blank_append hgap]
    rfl
  | opening name rest =>
    simp only [pushAll, scan, trim_blank_append hgap]
    split
    next => rfl
    next =>
      rw [Scan.outcome_prepend, Scan.outcome_prepend, outcome_scan,
        outcome_scan rest (0 + byteSize name + 1)]
      simp only [List.map_cons, List.map_nil, Lexeme.trimmed, Lexeme.unplaced,
        trim_blank_append hgap]
  | closing lead rest =>
    simp only [pushAll, scan, Scan.outcome_afterBlank, trim_blank_append hgap]
    rw [Scan.outcome_prepend, Scan.outcome_prepend, outcome_scan,
      outcome_scan rest (0 + byteSize lead + 1)]
    rfl
  | assignment key value =>
    simp only [pushAll, scan, trim_blank_append hgap]
    split
    next => rfl
    next =>
      rw [Scan.outcome_prepend, Scan.outcome_prepend, outcome_scanAssigned, outcome_scanAssigned]
      simp only [List.map_cons, List.map_nil, Lexeme.trimmed, Lexeme.unplaced,
        trim_blank_append hgap]
  | comment lead text =>
    simp only [pushAll, scan, Scan.outcome_afterBlank, trim_blank_append hgap]
    rfl

theorem lineOutcome_append_blank (hgap : Blank gap) (content : List Char) :
    lineOutcome view terminated (content ++ gap) = lineOutcome view terminated content := by
  rcases signless_or_exists content with hcontent | ⟨lead, sign, rest, rfl, hlead, rfl | rfl⟩
  · have hplain (text : List Char) (htext : Plain text) :
        lineOutcome view terminated (text ++ gap) = lineOutcome view terminated (text ++ []) := by
      rw [lineOutcome_plain (plain_append.mpr ⟨htext, plain_of_blank hgap⟩),
        trim_append_blank hgap, List.append_nil, lineOutcome_plain htext]
    simpa using lineOutcome_append_congr hplain hcontent
  · rw [List.append_assoc]
    refine lineOutcome_append_congr (fun text htext ↦ ?_) hlead
    rw [List.cons_append, lineOutcome_append_assignment htext, lineOutcome_append_assignment htext,
      assignedOutcome_append_blank hgap]
  · rw [List.append_assoc]
    refine lineOutcome_append_congr (fun text htext ↦ ?_) hlead
    rw [List.cons_append, lineOutcome_append_comment htext, lineOutcome_append_comment htext,
      trim_append_blank hgap]

/-- White space in a gap makes no difference to what a line comes to. -/
theorem lineOutcome_append_gap {front back : List Char} (h : IsGap front back)
    (hgap : Blank gap) :
    lineOutcome view terminated (front ++ gap ++ back) =
      lineOutcome view terminated (front ++ back) := by
  cases h with
  | lineStart back => exact lineOutcome_blank_append hgap back
  | lineEnd front =>
    rw [List.append_nil, List.append_nil]
    exact lineOutcome_append_blank hgap front
  | @beforeMark front mark hfront hmark back =>
    rw [List.append_assoc]
    refine lineOutcome_append_congr (fun text htext ↦ ?_) hfront
    have hplain := plain_append.mpr ⟨htext, plain_of_blank hgap⟩
    rw [← List.append_assoc]
    simp only [layoutMarks, List.mem_cons, List.not_mem_nil, or_false] at hmark
    rcases hmark with rfl | rfl | rfl
    · rw [lineOutcome_append_opening hplain, lineOutcome_append_opening htext,
        trim_append_blank hgap]
    · rw [lineOutcome_append_closing hplain, lineOutcome_append_closing htext,
        trim_append_blank hgap]
    · rw [lineOutcome_append_assignment hplain, lineOutcome_append_assignment htext,
        trim_append_blank hgap]
  | @afterMark front mark hfront hmark back =>
    rw [List.append_assoc, List.append_assoc, List.append_assoc, List.singleton_append,
      List.singleton_append]
    refine lineOutcome_append_congr (fun text htext ↦ ?_) hfront
    simp only [layoutMarks, List.mem_cons, List.not_mem_nil, or_false] at hmark
    rcases hmark with rfl | rfl | rfl
    · rw [lineOutcome_append_opening htext, lineOutcome_append_opening htext,
        lineOutcome_blank_append hgap]
    · rw [lineOutcome_append_closing htext, lineOutcome_append_closing htext,
        lineOutcome_blank_append hgap]
    · rw [lineOutcome_append_assignment htext, lineOutcome_append_assignment htext,
        assignedOutcome_blank_append hgap]

/-! ## Remarks -/

end Segments

/-- A lexeme that says nothing if it is the text of a comment. -/
def Lexeme.withoutRemark (lexeme : Lexeme) : Lexeme :=
  if lexeme.kind = .commentText then { lexeme with text := [] } else lexeme

namespace Segments

/-- The beginnings of a line behind which a number sign starts a remark: no sign stands there, or
an equals sign and a value that leaves no quotation mark open and starts no remark itself. -/
inductive RemarkFront : List Char → Prop where
  | line {lead : List Char} (hlead : Signless lead) : RemarkFront lead
  | trailing {lead value : List Char} (hlead : Signless lead) (hvalue : Uncommented false value)
      (hclosed : quotesAfter false value = false) : RemarkFront (lead ++ '=' :: value)

/-- What a line comes to, but for its remark, does not depend on the remark. -/
theorem lineOutcome_append_remark {front : List Char} (h : RemarkFront front)
    (remark other : List Char) :
    lineOutcome Lexeme.withoutRemark terminated (front ++ '#' :: remark) =
      lineOutcome Lexeme.withoutRemark terminated (front ++ '#' :: other) := by
  cases h with
  | line hlead =>
    refine lineOutcome_append_congr (fun text htext ↦ ?_) hlead
    rw [lineOutcome_append_comment htext, lineOutcome_append_comment htext]
    rfl
  | @trailing lead value hlead hvalue hclosed =>
    have hremark : assignedOutcome Lexeme.withoutRemark terminated (value ++ '#' :: remark) =
        assignedOutcome Lexeme.withoutRemark terminated (value ++ '#' :: other) := by
      have hcut (remark : List Char) :
          cutComment false (value ++ '#' :: remark) = (value, some remark) := by
        rw [cutComment_append hvalue, hclosed]
        simp [cutComment]
      unfold assignedOutcome
      rw [hcut, hcut]
      rfl
    rw [List.append_assoc, List.append_assoc]
    refine lineOutcome_append_congr (fun text htext ↦ ?_) hlead
    rw [List.cons_append, List.cons_append, lineOutcome_append_assignment htext,
      lineOutcome_append_assignment htext, hremark]

end Segments

end SectionedConfig

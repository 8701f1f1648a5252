import SectionedConfig.Line.Lexeme
import SectionedConfig.Proofs.Line.Quotes
import SectionedConfig.Proofs.Text.Quoted
import SectionedConfig.Proofs.Text.Trim

/-!
# Where a fault points

A line fails at a mark that lacks a name or a key, at text that nothing settles, or at a value. In
each case the fault points at something that stands on the line, so its distance from the start of
the line is less than the length of the line. What is reported can be told from the wording: no two
causes are worded alike, whatever text the wording quotes.
-/

namespace SectionedConfig

open Text

namespace Text

theorem byteSize_pos {text : List Char} (h : text ≠ []) : 0 < byteSize text := by
  cases text with
  | nil => exact absurd rfl h
  | cons c rest => exact Nat.add_pos_left c.utf8Size_pos (byteSize rest)

/-- The bytes in front of a place settle where it is. -/
theorem eq_of_byteSize_eq {first second rest rest' : List Char}
    (h : first ++ rest = second ++ rest')
    (hsize : byteSize first = byteSize second) : first = second ∧ rest = rest' := by
  have hnil {text : List Char} (htext : byteSize text = 0) : text = [] :=
    Decidable.byContradiction fun hne ↦ Nat.ne_of_gt (byteSize_pos hne) htext
  rcases List.append_eq_append_iff.mp h with ⟨left, rfl, rfl⟩ | ⟨left, rfl, rfl⟩
  · rw [byteSize_append] at hsize
    rw [hnil (by omega : byteSize left = 0)]
    simp
  · rw [byteSize_append] at hsize
    rw [hnil (by omega : byteSize left = 0)]
    simp

/-- The distance behind a text and a mark, which takes one byte. -/
theorem byteSize_append_mark {mark : Char} (hmark : mark.utf8Size = 1) (start : Nat)
    (text : List Char) : start + byteSize (text ++ [mark]) = start + byteSize text + 1 := by
  rw [byteSize_append, byteSize_cons, hmark, byteSize_nil, Nat.add_assoc]

/-- White space in front of something ends before the text does. -/
theorem byteSize_margin_lt {text : List Char} (h : ¬ Blank text) :
    byteSize (margin text) < byteSize text := by
  have hne : stripStart isBlank text ≠ [] := by
    intro hnil
    refine h ?_
    rw [← margin_append_stripStart text, hnil, List.append_nil]
    exact blank_margin text
  calc
    byteSize (margin text) < byteSize (margin text) + byteSize (stripStart isBlank text) :=
      Nat.lt_add_of_pos_right (byteSize_pos hne)
    _ = byteSize text := by rw [← byteSize_append, margin_append_stripStart]

end Text

/-- The fault of a scan points into the text that starts at the given distance. -/
def Scan.FaultIn (start : Nat) (text : List Char) (scan : Scan) : Prop :=
  ∀ fault, scan.fault = some fault →
    start ≤ fault.start ∧ fault.start < start + byteSize text

namespace Scan.FaultIn

variable {start : Nat} {text : List Char} {scan : Scan}

theorem of_none (h : scan.fault = none) : scan.FaultIn start text := by
  intro fault hfault
  rw [h] at hfault
  cases hfault

theorem failed {distance : Nat} (cause : LineFault.Cause) (h : distance < byteSize text) :
    (Scan.failed (start + distance) cause).FaultIn start text := by
  intro fault hfault
  obtain rfl := Option.some.inj hfault
  exact ⟨Nat.le_add_right start distance, Nat.add_lt_add_left h start⟩

/-- A fault behind a part of the text. -/
theorem prepend {distance : Nat} {front : List Char} (lexemes : List Lexeme)
    (hfront : start + byteSize front = distance) (h : scan.FaultIn distance text) :
    (scan.prepend lexemes).FaultIn start (front ++ text) := by
  intro fault hfault
  have hbounds := h fault hfault
  rw [byteSize_append]
  omega

/-- A fault at stray text in front of a boundary, or behind it. -/
theorem afterBlank {lead : List Char} (boundary : Boundary)
    (h : scan.FaultIn start (lead ++ text)) :
    (Scan.afterBlank lead start boundary scan).FaultIn start (lead ++ text) := by
  unfold Scan.afterBlank
  split
  next => exact h
  next hstray =>
    refine failed _ ?_
    have hlead := byteSize_margin_lt fun hblank ↦ hstray (isEmpty_trim_iff.mpr hblank)
    rw [byteSize_append]
    omega

end Scan.FaultIn

/-- A fault in a value points into the value. -/
theorem scanValue_fault_mem {text : List Char} {start : Nat} {fault : LineFault}
    (h : scanValue text start = .error fault) :
    start ≤ fault.start ∧ fault.start < start + byteSize text := by
  have hmargin (hblank : ¬ Blank text) :
      start ≤ start + byteSize (margin text) ∧
        start + byteSize (margin text) < start + byteSize text :=
    ⟨Nat.le_add_right _ _, Nat.add_lt_add_left (byteSize_margin_lt hblank) start⟩
  unfold scanValue at h
  simp only at h
  split at h
  next hopen =>
    split at h
    next => cases h
    next =>
      obtain rfl := Except.error.inj h
      refine hmargin fun hblank ↦ ?_
      rw [List.isEmpty_iff.mp (isEmpty_trim_iff.mpr hblank)] at hopen
      cases hopen
  next =>
    split at h
    next => cases h
    next before inside hcut =>
      have htext : text = before ++ '"' :: inside := (cutFirst_eq_some hcut).1
      split at h
      next =>
        obtain rfl := Except.error.inj h
        have hmark : 0 < byteSize ('"' :: inside) := byteSize_pos (List.cons_ne_nil _ _)
        rw [htext, byteSize_append]
        simp only
        omega
      next =>
        split at h
        next => cases h
        next =>
          obtain rfl := Except.error.inj h
          refine hmargin fun hblank ↦ hblank.notMem (by decide : isBlank '"' = false) ?_
          rw [htext]
          exact List.mem_append_right before List.mem_cons_self

theorem faultIn_scanAssigned (text : List Char) (start : Nat) (terminated : Bool) :
    (scanAssigned text start terminated).FaultIn start text := by
  intro fault hfault
  rcases hcut : cutComment false text with ⟨value, comment⟩
  obtain ⟨_, htext, _⟩ := cutComment_spec hcut
  unfold scanAssigned at hfault
  simp only [hcut] at hfault
  cases hvalue : scanValue value start with
  | ok lexeme =>
    rw [hvalue] at hfault
    cases hfault
  | error found =>
    rw [hvalue] at hfault
    obtain rfl : found = fault := Option.some.inj hfault
    have hbounds := scanValue_fault_mem hvalue
    rw [htext, byteSize_append]
    omega

/-- A fault points into the segments that were scanned. -/
theorem Segments.faultIn_scan (terminated : Bool) (start : Nat) (segments : Segments) :
    (segments.scan terminated start).FaultIn start segments.join := by
  -- A missing name or key is noticed at the mark that it should stand in front of.
  have nameless {start : Nat} (lead : List Char) (mark : Char) (rest : List Char)
      (cause : LineFault.Cause) :
      (Scan.failed (start + byteSize lead) cause).FaultIn start (lead ++ [mark] ++ rest) := by
    refine .failed cause ?_
    rw [byteSize_append, byteSize_append]
    have hmark : 0 < byteSize [mark] := byteSize_pos (List.cons_ne_nil mark [])
    omega
  induction segments generalizing start with
  | plain text =>
    have hstray : ((plain text).scan terminated start).FaultIn start (text ++ []) :=
      .afterBlank _ (.of_none rfl)
    rwa [List.append_nil] at hstray
  | opening name rest ih =>
    rw [scan, join, List.append_cons]
    split
    next => exact nameless name '{' rest.join .namelessSection
    next => exact .prepend _ (byteSize_append_mark rfl start name) (ih _)
  | closing lead rest ih =>
    refine .afterBlank .sectionEnd ?_
    rw [List.append_cons]
    exact .prepend _ (byteSize_append_mark rfl start lead) (ih _)
  | assignment key value =>
    rw [scan, join, List.append_cons]
    split
    next => exact nameless key '=' value .keylessAssignment
    next =>
      exact .prepend _ (byteSize_append_mark rfl start key) (faultIn_scanAssigned value _ _)
  | comment lead text => exact .afterBlank .comment (.of_none rfl)

/-! ## Wordings -/

theorem Boundary.name_injective : Function.Injective name := by
  intro boundary other h
  cases boundary <;> cases other <;> first | rfl | exact absurd h (by decide +kernel)

namespace LineFault.Cause

theorem message_strayText (text : List Char) (boundary : Boundary) :
    (strayText text boundary).message =
      "unrecognized text " ++ (quoted (String.ofList text) ++ (" before " ++ boundary.name)) := by
  unfold message
  exact String.append_assoc.trans String.append_assoc

theorem take_message_strayText (text : List Char) (boundary : Boundary) :
    (strayText text boundary).message.toList.take 3 = ['u', 'n', 'r'] := by
  rw [message_strayText, String.toList_append]
  generalize (quoted (String.ofList text) ++ (" before " ++ boundary.name)).toList = rest
  simp

/-- The wording of a cause says which one it is, with the text and the boundary that it is about. -/
theorem message_injective : Function.Injective message := by
  intro cause other h
  cases cause with
  | strayText text boundary =>
    cases other with
    | strayText text' boundary' =>
      rw [message_strayText, message_strayText, String.append_right_inj] at h
      obtain ⟨htext, hboundary⟩ := quoted_unique h
      rw [String.append_right_inj] at hboundary
      rw [String.ofList_injective htext, Boundary.name_injective hboundary]
    | _ =>
      have htake := take_message_strayText text boundary
      rw [h] at htake
      exact absurd htake (by decide +kernel)
  | _ =>
    cases other with
    | strayText text boundary =>
      have htake := take_message_strayText text boundary
      rw [← h] at htake
      exact absurd htake (by decide +kernel)
    | _ => first | rfl | exact absurd h (by decide +kernel)

end LineFault.Cause

end SectionedConfig

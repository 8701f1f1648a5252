import SectionedConfig.Proofs.Line.Fault
import SectionedConfig.Proofs.Line.Grammar
import SectionedConfig.Proofs.TokenStream

/-!
# Which texts are accepted

A text is accepted if all of its lines are in the grammar. Otherwise the error names the first line
that is not, and its offset points into that line. The lines here are what stands between line
feeds; whether a line feed follows the last of them makes no difference, because what stands behind
it is blank.
-/

namespace SectionedConfig

open Text

/-! ## Lines between line feeds -/

namespace Text.Line

/-- Cutting a text after its line feeds gives the lines between them, but for an empty line behind
the last one. -/
theorem splitOn_eq (input : List Char) :
    ∃ tail, (∀ content ∈ tail, content = []) ∧
      input.splitOn '\n' = (cut '\n' input).map content ++ tail := by
  obtain ⟨contents, last, hcontents, hlast, rfl⟩ := exists_contents '\n' input
  have hmap : (contents.map fun content ↦ (⟨content, true⟩ : Line Char)).map content = contents :=
    List.map_map.trans (List.map_id contents)
  refine ⟨if last = [] then [[]] else [], by split <;> simp, ?_⟩
  rw [splitOn_flatMap_append hcontents hlast, cut_flatMap_append hcontents hlast, List.map_append,
    hmap]
  by_cases hnil : last = [] <;> simp [hnil]

end Text.Line

/-- A line has no fault if it is in the grammar, and only then. -/
theorem isLine_content_iff (line : Line Char) : IsLine line.content ↔ line.scan.fault = none := by
  rw [isLine_iff]
  refine ⟨?_, Line.exists_clause⟩
  rintro ⟨clause, hclause⟩
  exact (scan_of_clause hclause line.terminated).1

/-- No line has a fault if all of them are in the grammar. -/
theorem faultless_iff {text : String} :
    Faultless text ↔ ∀ content ∈ text.toList.splitOn '\n', IsLine content := by
  obtain ⟨tail, htail, hsplit⟩ := Line.splitOn_eq text.toList
  have hblank : ∀ content ∈ tail, IsLine content := fun content hcontent ↦
    htail content hcontent ▸ .blank blank_nil
  simp only [Faultless, hsplit, List.forall_mem_append, List.forall_mem_map, isLine_content_iff]
  exact ⟨fun h ↦ ⟨h, hblank⟩, fun h ↦ h.1⟩

/-- The first line with a fault is the first one that is not in the grammar, and the error points
into it. -/
theorem FirstFault.exists_splitOn_eq {text : String} {before : List (Line Char)}
    {line : Line Char} {fault : LineFault} (h : FirstFault text before line fault) :
    ∃ contents after, text.toList.splitOn '\n' = contents ++ line.content :: after ∧
      (∀ content ∈ contents, IsLine content) ∧ ¬ IsLine line.content ∧
      contents.length = before.length ∧
      byteSize (contents.flatMap (· ++ ['\n'])) = byteSize (before.flatMap (Line.units '\n')) := by
  obtain ⟨⟨rest, hcut⟩, hbefore, hfault⟩ := h
  obtain ⟨tail, _, hsplit⟩ := Line.splitOn_eq text.toList
  have hchain := Line.isChain_cut '\n' text.toList
  rw [hcut] at hchain
  have hterminated := Line.terminated_of_isChain hchain
  refine ⟨before.map Line.content, rest.map Line.content ++ tail, ?_, ?_, ?_, List.length_map _, ?_⟩
  · simp [hsplit, hcut]
  · rw [List.forall_mem_map]
    exact fun other hother ↦ (isLine_content_iff other).mpr (hbefore other hother)
  · simp [isLine_content_iff, hfault]
  · rw [List.flatMap_map]
    congr 1
    refine List.flatMap_congr fun other hother ↦ ?_
    rw [Line.units, if_pos (hterminated other hother)]

/-- A text is accepted if every line is in the grammar, and only then. Otherwise the error has the
number of the first line that is not in the grammar, and its offset lies within that line. -/
theorem TokenStream.checked_eq_ok_iff_isLine (text : String) :
    ((∃ tokens, (ofText text).checked = .ok tokens) ↔
      ∀ line ∈ text.toList.splitOn '\n', IsLine line) ∧
    ∀ error, (ofText text).checked = .error error →
      ∃ before line after offset reason, text.toList.splitOn '\n' = before ++ line :: after ∧
        (∀ other ∈ before, IsLine other) ∧ ¬ IsLine line ∧
        error = .lexical (before.length + 1) offset reason ∧
        byteSize (before.flatMap (· ++ ['\n'])) ≤ offset ∧
        offset < byteSize (before.flatMap (· ++ ['\n'])) + byteSize line := by
  rcases faultless_or_firstFault text with hnone | ⟨before, line, fault, hfirst⟩
  · have hchecked := checked_of_faultless hnone
    refine ⟨⟨fun _ ↦ faultless_iff.mp hnone, fun _ ↦ ⟨_, hchecked⟩⟩, fun error herror ↦ ?_⟩
    rw [hchecked] at herror
    cases herror
  · obtain ⟨contents, after, hsplit, hgood, hbad, hlength, hsize⟩ := hfirst.exists_splitOn_eq
    have hmem : line.content ∈ text.toList.splitOn '\n' := by
      rw [hsplit]
      exact List.mem_append_right _ List.mem_cons_self
    refine ⟨⟨?_, fun hall ↦ absurd (hall _ hmem) hbad⟩, fun error herror ↦ ?_⟩
    · rintro ⟨tokens, htokens⟩
      rw [hfirst.checked_eq] at htokens
      cases htokens
    · obtain rfl := Except.error.inj (hfirst.checked_eq.symm.trans herror)
      have hbounds := (Segments.cut line.content).faultIn_scan line.terminated 0 fault hfirst.fault
      rw [Segments.join_cut, Nat.zero_add] at hbounds
      refine ⟨contents, line.content, after,
        byteSize (contents.flatMap (· ++ ['\n'])) + fault.start, fault.cause.message,
        hsplit, hgood, hbad, ?_, ?_, ?_⟩
      · rw [FirstFault.error, LineFault.toError, ← hsize, hlength, Nat.add_comm 1]
      · exact Nat.le_add_right _ fault.start
      · exact Nat.add_lt_add_left hbounds.2 _

/-- The text behind a quoted value is blamed, and not the second equals sign or the line after. -/
theorem TokenStream.checked_eq_ok_iff_isLine_stray :
    ∃ before line after offset reason,
      "# \"\nk = \"a\" = b\n=".toList.splitOn '\n' = before ++ line :: after ∧
      (∀ other ∈ before, IsLine other) ∧ ¬ IsLine line ∧
      Error.lexical 2 8 "unexpected text around quoted value" =
        .lexical (before.length + 1) offset reason ∧
      byteSize (before.flatMap (· ++ ['\n'])) ≤ offset ∧
      offset < byteSize (before.flatMap (· ++ ['\n'])) + byteSize line :=
  (checked_eq_ok_iff_isLine "# \"\nk = \"a\" = b\n=").2 _ (by decide)

end SectionedConfig

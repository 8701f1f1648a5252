import SectionedConfig.Proofs.Line.Placement
import SectionedConfig.Proofs.TokenStream

/-!
# Where tokens stand

Every token with a place stands in the text at that place, the line of the place is counted in line
feeds, and no two tokens take the same part of the text. If the text is accepted, its tokens take
everything but white space, and each line feed is taken by the end of a statement. All of this
follows from one fact: the tokens of a text are spread over it, up to a fault if there is one.
-/

namespace SectionedConfig

open Text

/-! ## Rows of tokens -/

/-- The token takes the byte with this offset. -/
def Token.Takes (token : Token) (offset : Nat) : Prop :=
  ∃ place, token.position = some place ∧ place.offset ≤ offset ∧
    offset < place.offset + byteSize token.source

/-- A character of two texts in a row belongs to the first or to the second one. -/
theorem Text.exists_of_append_eq_append_cons {first second before after : List Char} {c : Char}
    (h : first ++ second = before ++ c :: after) :
    (∃ left, first = before ++ c :: left) ∨
      ∃ left, before = first ++ left ∧ second = left ++ c :: after := by
  rcases List.append_eq_append_iff.mp h with ⟨left, hbefore, hsecond⟩ | ⟨left, hfirst, hafter⟩
  · exact .inr ⟨left, hbefore, hsecond⟩
  · rcases List.cons_eq_append_iff.mp hafter with ⟨rfl, hsecond⟩ | ⟨inner, rfl, _⟩
    · exact .inr ⟨[], by simpa using hfirst.symm, hsecond⟩
    · exact .inl ⟨inner, hfirst⟩

namespace Token

variable {token : Token} {place : Position} {offset : Nat}

theorem not_takes_of_lt (h : token.position = some place) (hlt : offset < place.offset) :
    ¬ token.Takes offset := by
  rintro ⟨found, hfound, hle, _⟩
  obtain rfl := Option.some.inj (h.symm.trans hfound)
  omega

theorem not_takes_of_le (h : token.position = some place)
    (hle : place.offset + byteSize token.source ≤ offset) : ¬ token.Takes offset := by
  rintro ⟨found, hfound, _, hlt⟩
  obtain rfl := Option.some.inj (h.symm.trans hfound)
  omega

end Token

namespace Spread

variable {place : Position} {tokens : List Token} {text : List Char}

/-- Every token of a row stands at its place. -/
theorem exists_of_mem (h : Spread place tokens text) {token : Token} (htoken : token ∈ tokens) :
    ∃ before after, text = before ++ token.source ++ after ∧
      token.position = some (place.after before) := by
  induction h with
  | nil place => cases htoken
  | @cons place first others gap rest _ _ hplace _ _ ih =>
    rcases List.mem_cons.mp htoken with rfl | htoken
    · exact ⟨gap, rest, rfl, hplace⟩
    · obtain ⟨before, after, rfl, hbefore⟩ := ih htoken
      refine ⟨gap ++ first.source ++ before, after, by simp, ?_⟩
      rw [hbefore, ← Position.after_append]

theorem le_of_mem (h : Spread place tokens text) {token : Token} (htoken : token ∈ tokens)
    {found : Position} (hfound : token.position = some found) : place.offset ≤ found.offset := by
  obtain ⟨before, _, _, hbefore⟩ := h.exists_of_mem htoken
  obtain rfl := Option.some.inj (hfound.symm.trans hbefore)
  exact Nat.le_add_right _ _

/-- No token of a row takes anything in front of the row. -/
theorem not_takes_of_lt (h : Spread place tokens text) {offset : Nat} (hlt : offset < place.offset)
    {token : Token} (htoken : token ∈ tokens) : ¬ token.Takes offset := by
  obtain ⟨_, _, _, hplace⟩ := h.exists_of_mem htoken
  exact Token.not_takes_of_lt hplace (Nat.lt_of_lt_of_le hlt (h.le_of_mem htoken hplace))

/-- Each token of a row starts behind the ones before it. -/
theorem pairwise (h : Spread place tokens text) :
    tokens.Pairwise fun first second ↦ ∀ place place', first.position = some place →
      second.position = some place' → place.offset + byteSize first.source ≤ place'.offset := by
  induction h with
  | nil place => exact .nil
  | @cons place first others gap rest _ _ hplace _ hothers ih =>
    refine .cons (fun second hsecond found found' hfound hfound' ↦ ?_) ih
    obtain rfl := Option.some.inj (hfound.symm.trans hplace)
    have hlater := hothers.le_of_mem hsecond hfound'
    rwa [Position.after_append] at hlater

/-- A character of the text of a row is white space between its tokens, or one of its tokens takes
it and no other does. Only the end of a statement takes a line feed. -/
theorem blank_or_takes (h : Spread place tokens text) {before after : List Char} {c : Char}
    (htext : text = before ++ c :: after) :
    (isBlank c = true ∧ c ≠ '\n' ∧
      ∀ token ∈ tokens, ¬ token.Takes (place.offset + byteSize before)) ∨
    ∃ front token back, tokens = front ++ token :: back ∧
      token.Takes (place.offset + byteSize before) ∧ (c = '\n' → token.kind = .endOfStatement) ∧
      ∀ other ∈ front ++ back, ¬ other.Takes (place.offset + byteSize before) := by
  induction h generalizing before with
  | nil place => simp at htext
  | @cons place first others gap rest hgap hunbroken hplace hfeed hothers ih =>
    have hbehind : (place.after (gap ++ first.source)).offset =
        place.offset + byteSize gap + byteSize first.source := by
      rw [Position.after_append]
      rfl
    rcases exists_of_append_eq_append_cons htext with ⟨left, hleft⟩ | ⟨later, rfl, hrest⟩
    · rcases exists_of_append_eq_append_cons hleft with ⟨inner, rfl⟩ | ⟨inner, rfl, hsource⟩
      · -- The character stands in the gap, and every token starts behind the gap.
        have hc : c ∈ before ++ c :: inner := List.mem_append_right _ List.mem_cons_self
        have hlt : byteSize before < byteSize (before ++ c :: inner) := by
          rw [byteSize_append]
          exact Nat.lt_add_of_pos_right (byteSize_pos (List.cons_ne_nil c inner))
        refine .inl ⟨hgap c hc, fun hfeed ↦ hunbroken (hfeed ▸ hc), ?_⟩
        refine List.forall_mem_cons.mpr ⟨?_, fun token htoken ↦ ?_⟩
        · exact Token.not_takes_of_lt hplace (Nat.add_lt_add_left hlt place.offset)
        · exact hothers.not_takes_of_lt (by omega) htoken
      · -- The character stands in the first token, and the others start behind it.
        have hlt : byteSize inner < byteSize first.source := by
          rw [hsource, byteSize_append]
          exact Nat.lt_add_of_pos_right (byteSize_pos (List.cons_ne_nil c left))
        rw [byteSize_append]
        refine .inr ⟨[], first, others, rfl, ⟨_, hplace, ?_, ?_⟩, fun hc ↦ hfeed ?_,
          fun token htoken ↦ hothers.not_takes_of_lt (by omega) htoken⟩
        · simp only [Position.after]
          omega
        · simp only [Position.after]
          omega
        · rw [hsource, hc]
          exact List.mem_append_right inner List.mem_cons_self
    · -- The character stands behind the first token.
      have hoffset : place.offset + byteSize (gap ++ first.source ++ later) =
          (place.after (gap ++ first.source)).offset + byteSize later := by
        rw [hbehind, byteSize_append, byteSize_append]
        omega
      have hfirst : ¬ first.Takes (place.offset + byteSize (gap ++ first.source ++ later)) := by
        refine Token.not_takes_of_le hplace ?_
        rw [hoffset, hbehind]
        exact Nat.le_add_right _ _
      rw [hoffset] at hfirst ⊢
      rcases ih hrest with ⟨hblank, hc, hnone⟩ | ⟨front, token, back, rfl, htakes, hc, hnone⟩
      · exact .inl ⟨hblank, hc, List.forall_mem_cons.mpr ⟨hfirst, hnone⟩⟩
      · exact .inr ⟨first :: front, token, back, rfl, htakes, hc,
          List.forall_mem_cons.mpr ⟨hfirst, hnone⟩⟩

/-- Tokens that take nothing can stand in front. -/
theorem cons_of_source_eq_nil {token : Token} (hplace : token.position = some place)
    (hsource : token.source = []) (h : Spread place tokens text) :
    Spread place (token :: tokens) text := by
  have hall : Spread place (token :: tokens) ([] ++ token.source ++ text) :=
    .cons blank_nil List.not_mem_nil hplace (by simp [hsource]) (by simpa [hsource] using h)
  rwa [hsource] at hall

end Spread

/-! ## Lines in a row -/

namespace Text.Line

/-- Behind lines with line feeds as many lines are counted. -/
theorem after_flatMap_units (number offset : Nat) {lines : List (Line Char)}
    (hunbroken : ∀ line ∈ lines, '\n' ∉ line.content)
    (hterminated : ∀ line ∈ lines, line.terminated = true) :
    (Position.mk number offset).after (lines.flatMap (units '\n')) =
      ⟨number + lines.length, offset + Text.byteSize (lines.flatMap (units '\n'))⟩ := by
  rw [Position.after, count_flatMap_units hunbroken hterminated]

end Text.Line

/-- The tokens of lines without a fault take all of the lines. -/
theorem Batch.spread_tokensOf (number offset : Nat) {lines : List (Line Char)}
    (hchain : lines.IsChain fun line _ ↦ line.terminated = true)
    (hunbroken : ∀ line ∈ lines, '\n' ∉ line.content)
    (h : ∀ line ∈ lines, line.scan.fault = none) :
    Spread ⟨number, offset⟩ (tokensOf number offset lines) (lines.flatMap (Line.units '\n')) := by
  induction lines generalizing number offset with
  | nil => exact .nil _
  | cons line rest ih =>
    rw [List.forall_mem_cons] at hunbroken h
    obtain ⟨hnext, hothers⟩ := List.isChain_cons.mp hchain
    obtain ⟨covered, left, hunits, hspread, hleft⟩ := line.covers_scan number offset hunbroken.1
    obtain rfl := hleft h.1
    rw [List.append_nil] at hunits
    rw [List.flatMap_cons, hunits]
    refine hspread.append ?_
    cases rest with
    | nil => exact .nil _
    | cons next others =>
      have hterminated : line.terminated = true := hnext next rfl
      have hline := Line.after_flatMap_units number offset
        (List.forall_mem_singleton.mpr hunbroken.1) (List.forall_mem_singleton.mpr hterminated)
      rw [List.flatMap_cons, List.flatMap_nil, List.append_nil, Line.byteSize_units,
        hunits] at hline
      rw [Nat.add_zero, hline]
      exact ih _ _ hothers hunbroken.2 h.2

/-! ## Texts -/

namespace TokenStream

/-- The tokens of a text take all of it if it is accepted, and as much of it as was scanned if it is
not. The last token is the end of the file or the failure, and has no place. -/
theorem exists_spread (text : String) :
    ∃ placed stop covered rest, (ofText text).tokens = placed ++ [stop] ∧ stop.position = none ∧
      text.toList = covered ++ rest ∧ Spread ⟨1, 0⟩ placed covered ∧
      ∀ tokens, (ofText text).checked = .ok tokens → rest = [] := by
  have hchain := Line.isChain_cut '\n' text.toList
  have hunbroken : ∀ line ∈ Line.cut '\n' text.toList, '\n' ∉ line.content :=
    fun line hline ↦ Line.notMem_content_of_mem_cut hline
  have htext := Line.flatMap_units_cut '\n' text.toList
  rcases faultless_or_firstFault text with hnone | ⟨before, line, fault, hfirst⟩
  · refine ⟨_, _, text.toList, [], tokens_of_faultless hnone, rfl, (List.append_nil _).symm, ?_,
      fun _ _ ↦ rfl⟩
    have hspread := Batch.spread_tokensOf 1 0 hchain hunbroken hnone
    rw [htext] at hspread
    exact hspread.cons_of_source_eq_nil rfl rfl
  · obtain ⟨rest, hcut⟩ := hfirst.exists_cut_eq
    rw [hcut] at hchain hunbroken htext
    rw [List.forall_mem_append, List.forall_mem_cons] at hunbroken
    have hbefore := Batch.spread_tokensOf 1 0 hchain.left_of_append hunbroken.1 hfirst.faultless
    obtain ⟨covered, left, hunits, hspread, -⟩ := line.covers_scan (1 + before.length)
      (byteSize (before.flatMap (Line.units '\n'))) hunbroken.2.1
    have hafter := Line.after_flatMap_units 1 0 hunbroken.1 (Line.terminated_of_isChain hchain)
    rw [Nat.zero_add] at hafter
    rw [Nat.add_zero, ← hafter] at hspread
    refine ⟨_, _, _, left ++ rest.flatMap (Line.units '\n'), hfirst.tokens_eq, rfl, ?_,
      (hbefore.append hspread).cons_of_source_eq_nil rfl rfl, fun tokens htokens ↦ ?_⟩
    · rw [← htext, List.flatMap_append, List.flatMap_cons, hunits]
      simp only [List.append_assoc]
    · rw [hfirst.checked_eq] at htokens
      cases htokens

/-- Every token with a place stands in the text at its offset, on the line that the line feeds in
front of it count; a string stands there with its quotation marks. No token starts before the one in
front of it ends. If the text is accepted, each of its characters is white space that no token
takes, and not a line feed, or exactly one token takes it, and a line feed is taken by the end of a
statement. -/
theorem tokens_placed (text : String) :
    (∀ token ∈ (ofText text).tokens, ∀ place, token.position = some place →
      ∃ before after, text.toList = before ++ token.source ++ after ∧
        place = ⟨1 + before.count '\n', byteSize before⟩) ∧
    ((ofText text).tokens.Pairwise fun first second ↦ ∀ place place',
      first.position = some place → second.position = some place' →
        place.offset + byteSize first.source ≤ place'.offset) ∧
    ∀ tokens, (ofText text).checked = .ok tokens →
      ∀ before c after, text.toList = before ++ c :: after →
        (isBlank c = true ∧ c ≠ '\n' ∧ ∀ token ∈ tokens, ¬ token.Takes (byteSize before)) ∨
        ∃ front token back, tokens = front ++ token :: back ∧ token.Takes (byteSize before) ∧
          (c = '\n' → token.kind = .endOfStatement) ∧
          ∀ other ∈ front ++ back, ¬ other.Takes (byteSize before) := by
  obtain ⟨placed, stop, covered, rest, htokens, hstop, htext, hspread, hrest⟩ := exists_spread text
  have hnone (offset : Nat) : ¬ stop.Takes offset := by
    rintro ⟨place, hplace, _⟩
    rw [hstop] at hplace
    cases hplace
  rw [htokens]
  refine ⟨fun token htoken place hplace ↦ ?_, ?_, fun tokens hchecked before c after hc ↦ ?_⟩
  · rcases List.mem_append.mp htoken with htoken | htoken
    · obtain ⟨before, after, rfl, hbefore⟩ := hspread.exists_of_mem htoken
      refine ⟨before, after ++ rest, by rw [htext]; simp only [List.append_assoc], ?_⟩
      rw [Option.some.inj (hplace.symm.trans hbefore), Position.after, Nat.zero_add]
    · rw [List.mem_singleton.mp htoken, hstop] at hplace
      cases hplace
  · refine List.pairwise_append.mpr ⟨hspread.pairwise, List.pairwise_singleton _ _, ?_⟩
    intro first _ second hsecond place place' _ hplace'
    rw [List.mem_singleton.mp hsecond, hstop] at hplace'
    cases hplace'
  · obtain rfl : tokens = placed ++ [stop] := by
      rw [← htokens]
      unfold checked at hchecked
      split at hchecked
      next => cases hchecked
      next => exact (Except.ok.inj hchecked).symm
    rw [hrest _ hchecked, List.append_nil] at htext
    have hplaced := hspread.blank_or_takes (htext.symm.trans hc)
    rw [Nat.zero_add] at hplaced
    rcases hplaced with ⟨hblank, hfeed, hplaced⟩ | ⟨front, token, back, rfl, htakes, hfeed, hplaced⟩
    · refine .inl ⟨hblank, hfeed, List.forall_mem_append.mpr ⟨hplaced, ?_⟩⟩
      exact List.forall_mem_singleton.mpr (hnone _)
    · refine .inr ⟨front, token, back ++ [stop], by simp, htakes, hfeed, ?_⟩
      rw [← List.append_assoc]
      exact List.forall_mem_append.mpr ⟨hplaced, List.forall_mem_singleton.mpr (hnone _)⟩

/-- The string of a text with letters of two bytes stands at its opening quotation mark. -/
theorem tokens_placed_accents :
    ∃ before after, "\né = \"ü\"".toList = before ++ "\"ü\"".toList ++ after ∧
      (⟨2, 6⟩ : Position) = ⟨1 + before.count '\n', byteSize before⟩ :=
  (tokens_placed "\né = \"ü\"").1 ⟨.string, "ü", some ⟨2, 6⟩, none, false⟩ (by decide) _ rfl

end TokenStream

end SectionedConfig

import SectionedConfig.Proofs.Line.Ending
import SectionedConfig.Proofs.Line.Fault
import SectionedConfig.Proofs.Line.Likeness
import SectionedConfig.Proofs.TokenStream

/-!
# Where marks stand

A brace, an equals sign or a number sign is a token of its own only where the line in front of it
allows that: no sign stands before it, or, for a number sign, a value that it can end. This holds of
rejected texts as well, as far as they were scanned.
-/

namespace SectionedConfig

open Text

/-- The kinds of tokens that are marks. -/
def TokenKind.isMark : TokenKind → Bool
  | sectionStart | sectionEnd | assignment | comment => true
  | _ => false

theorem TokenKind.isMark_of_isValue {kind : TokenKind} (h : kind.isValue = true) :
    kind.isMark = false := by
  cases kind with
  | string | int64 => rfl
  | comment | commentText | endOfStatement | sectionName | sectionStart | sectionEnd | identifier
  | assignment | startOfFile | endOfFile | failure | unclassified => cases h

/-- A mark that makes a token of the kind behind this beginning of a line. -/
inductive MarkAt : TokenKind → List Char → Char → Prop where
  | opening {front : List Char} (hfront : Segments.Signless front) : MarkAt .sectionStart front '{'
  | closing {front : List Char} (hfront : Segments.Signless front) : MarkAt .sectionEnd front '}'
  | equals {front : List Char} (hfront : Segments.Signless front) : MarkAt .assignment front '='
  | number {front : List Char} (hfront : Segments.RemarkFront front) : MarkAt .comment front '#'

theorem Segments.RemarkFront.append {lead front : List Char} (h : RemarkFront front)
    (hlead : Signless lead) : RemarkFront (lead ++ front) := by
  cases h with
  | line hfront => exact .line (signless_append.mpr ⟨hlead, hfront⟩)
  | trailing hfront hvalue hclosed =>
    rw [← List.append_assoc]
    exact .trailing (signless_append.mpr ⟨hlead, hfront⟩) hvalue hclosed

theorem MarkAt.append {kind : TokenKind} {lead front : List Char} {mark : Char}
    (h : MarkAt kind front mark) (hlead : Segments.Signless lead) :
    MarkAt kind (lead ++ front) mark := by
  cases h with
  | opening hfront => exact .opening (Segments.signless_append.mpr ⟨hlead, hfront⟩)
  | closing hfront => exact .closing (Segments.signless_append.mpr ⟨hlead, hfront⟩)
  | equals hfront => exact .equals (Segments.signless_append.mpr ⟨hlead, hfront⟩)
  | number hfront => exact .number (hfront.append hlead)

theorem MarkAt.remarkFront {front : List Char} {mark : Char} (h : MarkAt .comment front mark) :
    Segments.RemarkFront front := by
  cases h with
  | number hfront => exact hfront

/-- The lexeme stands as a mark in the content, which starts at the given distance. -/
def Lexeme.MarksAt (start : Nat) (content : List Char) (lexeme : Lexeme) : Prop :=
  ∃ front mark back, content = front ++ mark :: back ∧ lexeme.start = start + byteSize front ∧
    MarkAt lexeme.kind front mark

theorem Lexeme.MarksAt.append {start distance : Nat} {content : List Char} {lexeme : Lexeme}
    (h : lexeme.MarksAt distance content) {lead : List Char} (hlead : Segments.Signless lead)
    (hdistance : distance = start + byteSize lead) : lexeme.MarksAt start (lead ++ content) := by
  obtain ⟨front, mark, back, rfl, hstart, hmark⟩ := h
  refine ⟨lead ++ front, mark, back, by simp, ?_, hmark.append hlead⟩
  rw [hstart, hdistance, byteSize_append, Nat.add_assoc]

theorem Scan.mem_afterBlank {lead : List Char} {start : Nat} {boundary : Boundary} {scan : Scan}
    {lexeme : Lexeme} (h : lexeme ∈ (Scan.afterBlank lead start boundary scan).lexemes) :
    Blank lead ∧ lexeme ∈ scan.lexemes := by
  unfold afterBlank at h
  split at h
  next hblank => exact ⟨isEmpty_trim_iff.mp hblank, h⟩
  next => simp [failed] at h

/-- In a remark the only mark is its number sign. -/
theorem eq_mark_of_mem_scanComment {text : List Char} {start : Nat} {lexeme : Lexeme}
    (h : lexeme ∈ scanComment text start) (hmark : lexeme.kind.isMark = true) :
    lexeme = ⟨.comment, ['#'], start, false⟩ := by
  rcases List.mem_pair.mp h with rfl | rfl
  · rfl
  · cases hmark

/-- Behind an equals sign the only mark is the number sign behind the value. -/
theorem eq_mark_of_mem_scanAssigned {text : List Char} {start : Nat} {terminated : Bool}
    {lexeme : Lexeme} (h : lexeme ∈ (scanAssigned text start terminated).lexemes)
    (hmark : lexeme.kind.isMark = true) :
    ∃ value remark, text = value ++ '#' :: remark ∧ Uncommented false value ∧
      quotesAfter false value = false ∧
        lexeme = ⟨.comment, ['#'], start + byteSize value, false⟩ := by
  rcases hcut : cutComment false text with ⟨value, remark⟩
  obtain ⟨hvalue, htext, hclosed⟩ := cutComment_spec hcut
  unfold scanAssigned at h
  simp only [hcut] at h
  cases hscan : scanValue value start with
  | error fault => simp [hscan] at h
  | ok found =>
    simp only [hscan, List.cons_append, List.mem_cons, List.mem_append, List.not_mem_nil,
      or_false] at h
    rcases h with rfl | h | rfl
    · rw [TokenKind.isMark_of_isValue (isValue_of_scanValue hscan)] at hmark
      cases hmark
    · cases remark with
      | none => cases h
      | some remark =>
        exact ⟨value, remark, htext, hvalue, hclosed rfl, eq_mark_of_mem_scanComment h hmark⟩
    · cases hmark

/-- The marks of a line stand where they can. -/
theorem Segments.marksAt_of_mem_scan {terminated : Bool} {start : Nat} {segments : Segments}
    (hclean : segments.Clean) {lexeme : Lexeme}
    (h : lexeme ∈ (segments.scan terminated start).lexemes) (hmark : lexeme.kind.isMark = true) :
    lexeme.MarksAt start segments.join := by
  have hbrace (lead : List Char) (brace : Char) (hbrace : brace.utf8Size = 1) (start : Nat) :
      start + byteSize lead + 1 = start + byteSize (lead ++ [brace]) :=
    (byteSize_append_mark hbrace start lead).symm
  have hsignless {lead : List Char} {brace : Char} (hlead : Plain lead)
      (hsign : brace ≠ '=' ∧ brace ≠ '#') : Segments.Signless (lead ++ [brace]) :=
    signless_append.mpr ⟨signless_of_plain hlead, List.forall_mem_singleton.mpr hsign⟩
  induction segments generalizing start with
  | plain text =>
    obtain ⟨_, h⟩ := Scan.mem_afterBlank h
    rw [List.mem_singleton.mp h] at hmark
    cases hmark
  | opening name rest ih =>
    obtain ⟨hname, hrest⟩ := hclean
    rw [scan] at h
    split at h
    next => cases h
    next =>
      rcases List.mem_append.mp h with h | h
      · rcases List.mem_pair.mp h with rfl | rfl
        · cases hmark
        · exact ⟨name, '{', rest.join, rfl, rfl, .opening (Segments.signless_of_plain hname)⟩
      · have hlater := (ih hrest h).append (hsignless hname (by decide)) (hbrace name '{' rfl start)
        rwa [List.append_assoc] at hlater
  | closing lead rest ih =>
    obtain ⟨hlead, hrest⟩ := hclean
    obtain ⟨_, h⟩ := Scan.mem_afterBlank h
    rcases List.mem_append.mp h with h | h
    · rw [List.mem_singleton.mp h]
      exact ⟨lead, '}', rest.join, rfl, rfl, .closing (Segments.signless_of_plain hlead)⟩
    · have hlater := (ih hrest h).append (hsignless hlead (by decide)) (hbrace lead '}' rfl start)
      rwa [List.append_assoc] at hlater
  | assignment key value =>
    have hkey := Segments.signless_of_plain hclean
    rw [scan] at h
    split at h
    next => cases h
    next =>
      rcases List.mem_append.mp h with h | h
      · rcases List.mem_pair.mp h with rfl | rfl
        · cases hmark
        · exact ⟨key, '=', value, rfl, rfl, .equals hkey⟩
      · obtain ⟨value, remark, rfl, hvalue, hclosed, rfl⟩ := eq_mark_of_mem_scanAssigned h hmark
        refine ⟨key ++ '=' :: value, '#', remark, by simp [join], ?_,
          .number (.trailing hkey hvalue hclosed)⟩
        rw [hbrace key '=' rfl, Nat.add_assoc, ← byteSize_append, List.append_assoc]
        rfl
  | comment lead text =>
    obtain ⟨_, h⟩ := Scan.mem_afterBlank h
    rcases List.mem_append.mp h with h | h
    · rw [eq_mark_of_mem_scanComment h hmark]
      exact ⟨lead, '#', text, rfl, rfl, .number (.line (Segments.signless_of_plain hclean))⟩
    · rw [List.mem_singleton.mp h] at hmark
      cases hmark

/-! ## Texts -/

/-- Lines with line feeds end where a line starts. -/
theorem Text.Line.endsLine_flatMap_units {lines : List (Line Char)}
    (h : ∀ line ∈ lines, line.terminated = true) : EndsLine (lines.flatMap (units '\n')) := by
  have hunits : lines.flatMap (units '\n') = (lines.map content).flatMap (· ++ ['\n']) := by
    rw [List.flatMap_map]
    exact List.flatMap_congr fun line hline ↦ if_pos (h line hline)
  rw [hunits]
  exact endsLine_flatMap _

/-- A token of lines in a row is a lexeme of one of them. -/
theorem Batch.exists_of_mem_tokensOf {number offset : Nat} {lines : List (Line Char)}
    {token : Token} (h : token ∈ tokensOf number offset lines) :
    ∃ before line after lexeme, lines = before ++ line :: after ∧ lexeme ∈ line.scan.lexemes ∧
      token.kind = lexeme.kind ∧
        token.offset = offset + byteSize (before.flatMap (Line.units '\n')) + lexeme.start := by
  induction lines generalizing number offset with
  | nil => cases h
  | cons line rest ih =>
    rcases List.mem_append.mp h with h | h
    · obtain ⟨lexeme, hlexeme, rfl⟩ := List.mem_map.mp h
      exact ⟨[], line, rest, lexeme, rfl, hlexeme, rfl, rfl⟩
    · obtain ⟨before, other, after, lexeme, rfl, hlexeme, hkind, hoffset⟩ := ih h
      refine ⟨line :: before, other, after, lexeme, rfl, hlexeme, hkind, ?_⟩
      rw [hoffset, List.flatMap_cons, byteSize_append, Line.byteSize_units, Nat.add_assoc offset]

namespace TokenStream

/-- A mark among the tokens of a text is a lexeme of one of the lines. -/
theorem exists_line_of_mark {text : String} {token : Token} (h : token ∈ (ofText text).tokens)
    (hmark : token.kind.isMark = true) :
    ∃ before line after lexeme, Line.cut '\n' text.toList = before ++ line :: after ∧
      lexeme ∈ line.scan.lexemes ∧ token.kind = lexeme.kind ∧
        token.offset = byteSize (before.flatMap (Line.units '\n')) + lexeme.start := by
  have hoffset {bytes : Nat} : 0 + bytes = bytes := Nat.zero_add bytes
  rcases faultless_or_firstFault text with hnone | ⟨before, line, fault, hfirst⟩
  · rw [tokens_of_faultless hnone] at h
    rcases List.mem_append.mp h with h | h
    · rcases List.mem_cons.mp h with rfl | h
      · cases hmark
      · simpa only [hoffset] using Batch.exists_of_mem_tokensOf h
    · rw [List.mem_singleton.mp h] at hmark
      cases hmark
  · obtain ⟨rest, hcut⟩ := hfirst.exists_cut_eq
    rw [hfirst.tokens_eq] at h
    rcases List.mem_append.mp h with h | h
    · rcases List.mem_append.mp h with h | h
      · rcases List.mem_cons.mp h with rfl | h
        · cases hmark
        · obtain ⟨front, other, after, lexeme, hbefore, hlexeme, hkind, hplace⟩ :=
            Batch.exists_of_mem_tokensOf h
          refine ⟨front, other, after ++ line :: rest, lexeme, ?_, hlexeme, hkind, ?_⟩
          · rw [hcut, hbefore, List.append_assoc, List.cons_append]
          · rw [hplace, hoffset]
      · obtain ⟨lexeme, hlexeme, rfl⟩ := List.mem_map.mp h
        exact ⟨before, line, rest, lexeme, hcut, hlexeme, rfl, rfl⟩
    · rw [List.mem_singleton.mp h] at hmark
      cases hmark

/-- The marks among the tokens of a text stand in it at their offsets, each on a line that allows
it. -/
theorem exists_markAt {text : String} {token : Token} (h : token ∈ (ofText text).tokens)
    (hmark : token.kind.isMark = true) :
    ∃ earlier front mark after, text.toList = earlier ++ front ++ mark :: after ∧
      token.offset = byteSize (earlier ++ front) ∧ EndsLine earlier ∧
        '\n' ∉ front ∧ MarkAt token.kind front mark := by
  obtain ⟨before, line, after, lexeme, hcut, hlexeme, hkind, hoffset⟩ := exists_line_of_mark h hmark
  rw [hkind] at hmark
  obtain ⟨front, mark, back, hcontent, hstart, hplace⟩ :=
    Segments.marksAt_of_mem_scan (Segments.clean_cut line.content) hlexeme hmark
  rw [Segments.join_cut] at hcontent
  have hline : line ∈ Line.cut '\n' text.toList := by simp [hcut]
  have hunbroken := Line.notMem_content_of_mem_cut hline
  rw [hcontent, List.mem_append, not_or] at hunbroken
  have hchain := Line.isChain_cut '\n' text.toList
  rw [hcut] at hchain
  have hunits : ∃ rest, line.units '\n' = front ++ mark :: rest := by
    unfold Line.units
    rw [hcontent]
    split
    next => exact ⟨back ++ ['\n'], by simp⟩
    next => exact ⟨back, rfl⟩
  obtain ⟨rest, hunits⟩ := hunits
  refine ⟨before.flatMap (Line.units '\n'), front, mark, rest ++ after.flatMap (Line.units '\n'),
    ?_, ?_, Line.endsLine_flatMap_units (Line.terminated_of_isChain hchain), hunbroken.1, ?_⟩
  · rw [← Line.flatMap_units_cut '\n' text.toList, hcut, List.flatMap_append, List.flatMap_cons,
      hunits]
    simp
  · rw [hoffset, hstart, Nat.zero_add, byteSize_append]
  · rwa [hkind]

end TokenStream

end SectionedConfig

import SectionedConfig.Proofs.TokenStream.Likeness
import SectionedConfig.Proofs.TokenStream.Marks

/-!
# White space says nothing

White space can be put at the start and at the end of every line, and on both sides of every brace
that is a token and of the equals sign of every assignment, without a change to what is read: the
text is accepted if it was before, with the same tokens on the same lines, and the same is decoded
from it. In particular lines can end with a carriage return and a line feed.
-/

namespace SectionedConfig

open Text

/-! ## Gaps -/

/-- The kinds of tokens next to which white space says nothing. -/
def layoutKinds : List TokenKind := [.sectionStart, .sectionEnd, .assignment]

/-- The places in a text with these tokens at which white space says nothing, by what stands before
and behind them. An equals sign that is the first sign of its line counts as that of an assignment,
whether or not the line is read. -/
inductive IsTextGap (tokens : List Token) : List Char → List Char → Prop where
  | lineStart {before after : List Char} (hbefore : EndsLine before) (hafter : after ≠ []) :
      IsTextGap tokens before after
  | lineEnd {before after : List Char} (hafter : after.head? = some '\n') :
      IsTextGap tokens before after
  | lastLineEnd {before : List Char} (hbefore : ¬ EndsLine before) : IsTextGap tokens before []
  | beforeMark {before after : List Char} {token : Token} (htoken : token ∈ tokens)
      (hkind : token.kind ∈ layoutKinds) (hoffset : token.offset = byteSize before) :
      IsTextGap tokens before after
  | afterMark {before after : List Char} {token : Token} (htoken : token ∈ tokens)
      (hkind : token.kind ∈ layoutKinds) (hoffset : token.offset + 1 = byteSize before) :
      IsTextGap tokens before after
  | beforeSign {earlier front : List Char} (hearlier : EndsLine earlier) (hfront : '\n' ∉ front)
      (hsignless : Segments.Signless front) (after : List Char) :
      IsTextGap tokens (earlier ++ front) ('=' :: after)
  | afterSign {earlier front : List Char} (hearlier : EndsLine earlier) (hfront : '\n' ∉ front)
      (hsignless : Segments.Signless front) (after : List Char) :
      IsTextGap tokens (earlier ++ front ++ ['=']) after

/-- Nothing, or white space on one line where it says nothing. -/
def Insertable (tokens : List Token) (before after inserted : List Char) : Prop :=
  inserted = [] ∨ IsTextGap tokens before after ∧ Blank inserted ∧ '\n' ∉ inserted

/-- What stands behind `before` with white space put in wherever it says nothing. -/
inductive Respaced (tokens : List Token) : List Char → List Char → List Char → Prop where
  | stop {before inserted : List Char} (hinserted : Insertable tokens before [] inserted) :
      Respaced tokens before [] inserted
  | next {before rest rest' inserted : List Char} {c : Char}
      (hinserted : Insertable tokens before (c :: rest) inserted)
      (hrest : Respaced tokens (before ++ [c]) rest rest') :
      Respaced tokens before (c :: rest) (inserted ++ c :: rest')

theorem MarkAt.layout {kind : TokenKind} {front : List Char} {mark : Char}
    (h : MarkAt kind front mark) (hkind : kind ∈ layoutKinds) :
    Segments.Signless front ∧ mark ∈ Segments.layoutMarks ∧ mark.utf8Size = 1 := by
  cases h with
  | opening hfront => exact ⟨hfront, by decide, rfl⟩
  | closing hfront => exact ⟨hfront, by decide, rfl⟩
  | equals hfront => exact ⟨hfront, by decide, rfl⟩
  | number hfront => simp [layoutKinds] at hkind

theorem TokenKind.isMark_of_mem_layoutKinds {kind : TokenKind} (h : kind ∈ layoutKinds) :
    kind.isMark = true := by
  simp only [layoutKinds, List.mem_cons, List.not_mem_nil, or_false] at h
  rcases h with rfl | rfl | rfl <;> rfl

/-- A gap between the beginning and the end of one of the lines of a text. -/
structure LineGap (earlier front back later : List Char) : Prop where
  endsLine : EndsLine earlier
  front_unbroken : '\n' ∉ front
  back_unbroken : '\n' ∉ back
  startsAtFeed : StartsAtFeed later
  isGap : Segments.IsGap front back
  ne_nil : later = [] → front ++ back ≠ []

namespace LineGap

variable {earlier front : List Char} {mark : Char}

theorem exists_beforeMark (hearlier : EndsLine earlier) (hfront : '\n' ∉ front)
    (hsignless : Segments.Signless front) (hmark : mark ∈ Segments.layoutMarks)
    (rest : List Char) :
    ∃ back later, mark :: rest = back ++ later ∧ LineGap earlier front back later := by
  obtain ⟨back, later, rfl, hback, hlater⟩ := exists_append_startsAtFeed rest
  have hfeed : '\n' ≠ mark := fun hsame ↦ absurd (hsame ▸ hmark) (by decide)
  exact ⟨mark :: back, later, rfl, hearlier, hfront, by simp [hback, hfeed], hlater,
    .beforeMark hsignless hmark back, by simp⟩

theorem exists_afterMark (hearlier : EndsLine earlier) (hfront : '\n' ∉ front)
    (hsignless : Segments.Signless front) (hmark : mark ∈ Segments.layoutMarks)
    (rest : List Char) :
    ∃ back later, rest = back ++ later ∧ LineGap earlier (front ++ [mark]) back later := by
  obtain ⟨back, later, rfl, hback, hlater⟩ := exists_append_startsAtFeed rest
  have hfeed : '\n' ≠ mark := fun hsame ↦ absurd (hsame ▸ hmark) (by decide)
  exact ⟨back, later, rfl, hearlier, by simp [hfront, hfeed], hback, hlater,
    .afterMark hsignless hmark back, by simp⟩

end LineGap

/-- A gap of a text is a gap of one of its lines, also if something else comes after the next
character. -/
theorem IsTextGap.exists_lineGap {text : String} {before after after' : List Char}
    (h : IsTextGap (TokenStream.ofText text).tokens before after)
    (htext : text.toList = before ++ after) (hhead : after'.head? = after.head?) :
    ∃ earlier front back later, before = earlier ++ front ∧ after' = back ++ later ∧
      LineGap earlier front back later := by
  have hequals : '=' ∈ Segments.layoutMarks := by decide
  cases h with
  | lineStart hbefore hafter =>
    obtain ⟨back, later, rfl, hback, hlater⟩ := exists_append_startsAtFeed after'
    refine ⟨before, [], back, later, (List.append_nil _).symm, rfl, hbefore, List.not_mem_nil,
      hback, hlater, .lineStart back, ?_⟩
    rintro rfl hnil
    rw [List.append_nil, show back = [] from hnil] at hhead
    exact hafter (List.head?_eq_none_iff.mp hhead.symm)
  | lineEnd hafter =>
    obtain ⟨earlier, front, rfl, hearlier, hfront⟩ := exists_endsLine_append before
    refine ⟨earlier, front, [], after', rfl, rfl, hearlier, hfront, List.not_mem_nil,
      .inr (hhead.trans hafter), .lineEnd front, ?_⟩
    rintro rfl
    rw [← hhead] at hafter
    cases hafter
  | lastLineEnd hbefore =>
    obtain ⟨earlier, front, rfl, hearlier, hfront⟩ := exists_endsLine_append before
    obtain rfl : after' = [] := List.head?_eq_none_iff.mp hhead
    refine ⟨earlier, front, [], [], rfl, rfl, hearlier, hfront, List.not_mem_nil, .inl rfl,
      .lineEnd front, ?_⟩
    rintro - hnil
    rw [List.append_nil] at hnil
    rw [hnil, List.append_nil] at hbefore
    exact hbefore hearlier
  | beforeMark htoken hkind hoffset =>
    obtain ⟨earlier, front, mark, rest, hplace, hsize, hearlier, hfront, hmark⟩ :=
      TokenStream.exists_markAt htoken (TokenKind.isMark_of_mem_layoutKinds hkind)
    obtain ⟨hsignless, hlayout, _⟩ := hmark.layout hkind
    obtain ⟨rfl, rfl⟩ := eq_of_byteSize_eq (htext.symm.trans hplace) (hoffset.symm.trans hsize)
    obtain ⟨rest', rfl⟩ := List.head?_eq_some_iff.mp hhead
    obtain ⟨back, later, hafter, hline⟩ :=
      LineGap.exists_beforeMark hearlier hfront hsignless hlayout rest'
    exact ⟨earlier, front, back, later, rfl, hafter, hline⟩
  | afterMark htoken hkind hoffset =>
    obtain ⟨earlier, front, mark, rest, hplace, hsize, hearlier, hfront, hmark⟩ :=
      TokenStream.exists_markAt htoken (TokenKind.isMark_of_mem_layoutKinds hkind)
    obtain ⟨hsignless, hlayout, hbyte⟩ := hmark.layout hkind
    have hbefore : before ++ after = (earlier ++ front ++ [mark]) ++ rest := by
      rw [← htext, hplace]
      simp
    have hbytes : byteSize before = byteSize (earlier ++ front ++ [mark]) := by
      rw [← hoffset, hsize, byteSize_append (earlier ++ front), byteSize_cons, hbyte]
      rfl
    obtain ⟨rfl, rfl⟩ := eq_of_byteSize_eq hbefore hbytes
    obtain ⟨back, later, hafter, hline⟩ :=
      LineGap.exists_afterMark hearlier hfront hsignless hlayout after'
    exact ⟨earlier, front ++ [mark], back, later, by simp, hafter, hline⟩
  | @beforeSign earlier front hearlier hfront hsignless =>
    obtain ⟨rest', rfl⟩ := List.head?_eq_some_iff.mp hhead
    obtain ⟨back, later, hafter, hline⟩ :=
      LineGap.exists_beforeMark hearlier hfront hsignless hequals rest'
    exact ⟨earlier, front, back, later, rfl, hafter, hline⟩
  | @afterSign earlier front hearlier hfront hsignless =>
    obtain ⟨back, later, hafter, hline⟩ :=
      LineGap.exists_afterMark hearlier hfront hsignless hequals after'
    exact ⟨earlier, front ++ ['='], back, later, by simp, hafter, hline⟩

/-- White space that is put in at one gap does not change what the lines come to. -/
theorem Insertable.lineOutcomes_eq {text : String} {before after after' inserted : List Char}
    (h : Insertable (TokenStream.ofText text).tokens before after inserted)
    (htext : text.toList = before ++ after) (hhead : after'.head? = after.head?) :
    lineOutcomes id (before ++ after') = lineOutcomes id (before ++ (inserted ++ after')) := by
  rcases h with rfl | ⟨hgap, hblank, hunbroken⟩
  · rfl
  obtain ⟨earlier, front, back, later, rfl, rfl, hline⟩ := hgap.exists_lineGap htext hhead
  have hcontent : '\n' ∉ front ++ back := by simp [hline.front_unbroken, hline.back_unbroken]
  have hcontent' : '\n' ∉ front ++ inserted ++ back := by
    simp [hline.front_unbroken, hunbroken, hline.back_unbroken]
  have hempty : later = [] → (front ++ back = [] ↔ front ++ inserted ++ back = []) := by
    intro hnil
    refine iff_of_false (hline.ne_nil hnil) fun hall ↦ hline.ne_nil hnil ?_
    simp only [List.append_eq_nil_iff] at hall ⊢
    exact ⟨hall.1.1, hall.2⟩
  have hsame (terminated : Bool) : lineOutcome id terminated (front ++ back) =
      lineOutcome id terminated (front ++ inserted ++ back) :=
    (Segments.lineOutcome_append_gap hline.isGap hblank).symm
  have hlines :=
    lineOutcomes_congr hline.endsLine hcontent hcontent' hline.startsAtFeed hempty hsame
  simpa only [List.append_assoc] using hlines

/-- White space that is put in at any gaps does not change what the lines come to. -/
theorem Respaced.lineOutcomes_eq {text : String} {before rest rest' : List Char}
    (h : Respaced (TokenStream.ofText text).tokens before rest rest')
    (htext : text.toList = before ++ rest) :
    lineOutcomes id (before ++ rest) = lineOutcomes id (before ++ rest') := by
  induction h with
  | @stop before inserted hinserted =>
    simpa using hinserted.lineOutcomes_eq htext rfl
  | @next before rest rest' inserted c hinserted _ ih =>
    calc
      lineOutcomes id (before ++ c :: rest) = lineOutcomes id (before ++ [c] ++ rest) := by simp
      _ = lineOutcomes id (before ++ [c] ++ rest') := ih (by simpa using htext)
      _ = lineOutcomes id (before ++ c :: rest') := by simp
      _ = lineOutcomes id (before ++ (inserted ++ c :: rest')) :=
        hinserted.lineOutcomes_eq htext rfl

theorem isLikeness_id : IsLikeness id id where
  onLine := fun _ _ ↦ rfl
  startOfFile := rfl
  endOfFile := rfl
  walk := fun tokens ↦ congrArg Assignment.walk tokens.map_id

/-! ## Line ends -/

/-- A text with a carriage return in front of each line feed. -/
def withReturns (text : List Char) : List Char :=
  text.flatMap fun c ↦ if c = '\n' then ['\r', '\n'] else [c]

theorem respaced_withReturns (tokens : List Token) (before rest : List Char) :
    Respaced tokens before rest (withReturns rest) := by
  induction rest generalizing before with
  | nil => exact .stop (.inl rfl)
  | cons c rest ih =>
    have hreturn : Blank ['\r'] ∧ '\n' ∉ ['\r'] := by decide
    rw [withReturns, List.flatMap_cons]
    split
    next hc =>
      subst hc
      exact .next (.inr ⟨.lineEnd rfl, hreturn⟩) (ih _)
    next => exact .next (.inl rfl) (ih _)

/-- Texts read alike if one of them is the other with white space put in at gaps, on one line each.
A carriage return in front of every line feed is such white space. -/
theorem readsAlike_of_respaced (text : String) :
    (∀ text' : String,
      Respaced (TokenStream.ofText text).tokens [] text.toList text'.toList →
        ReadsAlike Token.withoutOffset text text') ∧
      ReadsAlike Token.withoutOffset text (String.ofList (withReturns text.toList)) := by
  have hall (text' : String)
      (h : Respaced (TokenStream.ofText text).tokens [] text.toList text'.toList) :
      ReadsAlike Token.withoutOffset text text' :=
    isLikeness_id.readsAlike (h.lineOutcomes_eq rfl)
  refine ⟨hall, hall _ ?_⟩
  rw [String.toList_ofList]
  exact respaced_withReturns _ [] text.toList

/-- White space at the ends of both lines, in front of a brace and around an equals sign. -/
theorem readsAlike_of_respaced_marks :
    Respaced (TokenStream.ofText "s\x7b\nk=1").tokens [] "s\x7b\nk=1".toList
        "\u00a0s\t\x7b\r\n\tk =\u20031\r".toList ∧
      ReadsAlike Token.withoutOffset "s\x7b\nk=1" "\u00a0s\t\x7b\r\n\tk =\u20031\r" ∧
      ConfigMap.ofText "\u00a0s\t\x7b\r\n\tk =\u20031\r" = .ok (.ofList [("s/k", .int64 1)]) := by
  have hrespaced : Respaced (TokenStream.ofText "s\x7b\nk=1").tokens [] "s\x7b\nk=1".toList
      "\u00a0s\t\x7b\r\n\tk =\u20031\r".toList := by
    have hold : "s\x7b\nk=1".toList = ['s', '{', '\n', 'k', '=', '1'] := rfl
    have hnew : "\u00a0s\t\x7b\r\n\tk =\u20031\r".toList =
        ['\u00a0', 's', '\t', '{', '\r', '\n', '\t', 'k', ' ', '=', '\u2003', '1', '\r'] := rfl
    have hbrace : ⟨.sectionStart, "\x7b", some ⟨1, 1⟩, none, false⟩ ∈
        (TokenStream.ofText "s\x7b\nk=1").tokens := by decide
    have hsign : ⟨.assignment, "=", some ⟨2, 4⟩, none, false⟩ ∈
        (TokenStream.ofText "s\x7b\nk=1").tokens := by decide
    rw [hold, hnew]
    refine @Respaced.next _ _ _ _ ['\u00a0'] _ (.inr ⟨.lineStart (.inl rfl) ?_, ?_⟩) ?_
    · decide
    · decide
    refine @Respaced.next _ _ _ _ ['\t'] _ (.inr ⟨.beforeMark hbrace ?_ rfl, ?_⟩) ?_
    · decide
    · decide
    refine @Respaced.next _ _ _ _ ['\r'] _ (.inr ⟨.lineEnd rfl, by decide⟩) ?_
    refine @Respaced.next _ _ _ _ ['\t'] _ (.inr ⟨.lineStart (.inr rfl) ?_, ?_⟩) ?_
    · decide
    · decide
    refine @Respaced.next _ _ _ _ [' '] _ (.inr ⟨.beforeMark hsign ?_ rfl, ?_⟩) ?_
    · decide
    · decide
    refine @Respaced.next _ _ _ _ ['\u2003'] _ (.inr ⟨.afterMark hsign ?_ rfl, ?_⟩) ?_
    · decide
    · decide
    exact .stop (.inr ⟨.lastLineEnd (by simp [EndsLine]), by decide⟩)
  have halike := (readsAlike_of_respaced "s\x7b\nk=1").1 _ hrespaced
  have hchecked : (TokenStream.ofText "s\x7b\nk=1").checked =
      .ok (TokenStream.ofText "s\x7b\nk=1").tokens := by decide
  refine ⟨hrespaced, halike, ?_⟩
  rw [halike.config _ hchecked]
  decide

end SectionedConfig

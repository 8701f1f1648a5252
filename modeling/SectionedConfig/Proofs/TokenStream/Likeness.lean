import SectionedConfig.Proofs.Line.Likeness
import SectionedConfig.Proofs.Registry.Unbound
import SectionedConfig.Proofs.Sheet.Decoding
import SectionedConfig.Proofs.TokenStream

/-!
# Texts that read alike

A text comes to what its lines come to, one after the other. Two texts that come to the same are
both accepted or both rejected. If they are accepted, they have the same tokens but for the offsets,
and the same is decoded from them, because nothing looks at an offset or at the text of a comment.
If they are rejected, it is on the same line and for the same reason.
-/

namespace SectionedConfig

open Text

variable {view : Lexeme → Lexeme}

/-! ## The lines of a text -/

/-- What the lines of a text come to. -/
def lineOutcomes (view : Lexeme → Lexeme) (text : List Char) :
    List (Except LineFault.Cause (List Lexeme)) :=
  (Line.cut '\n' text).map fun line ↦ line.scan.outcome view

theorem lineOutcomes_append {first : List Char} (h : EndsLine first) (second : List Char) :
    lineOutcomes view (first ++ second) = lineOutcomes view first ++ lineOutcomes view second := by
  rw [lineOutcomes, Line.cut_append (Line.terminated_of_mem_cut h), List.map_append]
  rfl

/-- A line can be exchanged for one that comes to the same. -/
theorem lineOutcomes_congr {earlier content content' later : List Char}
    (hearlier : EndsLine earlier) (hcontent : '\n' ∉ content) (hcontent' : '\n' ∉ content')
    (hlater : StartsAtFeed later) (hempty : later = [] → (content = [] ↔ content' = []))
    (h : ∀ terminated, lineOutcome view terminated content = lineOutcome view terminated content') :
    lineOutcomes view (earlier ++ (content ++ later)) =
      lineOutcomes view (earlier ++ (content' ++ later)) := by
  rw [lineOutcomes_append hearlier, lineOutcomes_append hearlier]
  apply congrArg
  have hline (terminated : Bool) : (Line.scan ⟨content, terminated⟩).outcome view =
      (Line.scan ⟨content', terminated⟩).outcome view := h terminated
  unfold lineOutcomes
  rcases hlater with rfl | hfeed
  · rw [List.append_nil, List.append_nil, Line.cut_of_notMem hcontent, Line.cut_of_notMem hcontent']
    by_cases hnil : content = []
    · rw [if_pos hnil, if_pos ((hempty rfl).mp hnil)]
    · rw [if_neg hnil, if_neg ((hempty rfl).not.mp hnil)]
      simp only [List.map_cons, List.map_nil, hline]
  · obtain ⟨rest, rfl⟩ := List.head?_eq_some_iff.mp hfeed
    rw [Line.cut_append_feed hcontent, Line.cut_append_feed hcontent']
    simp only [List.map_cons, hline]

/-! ## Acceptance and tokens -/

namespace Scan

variable {scan : Scan}

theorem outcome_of_faultless (h : scan.fault = none) :
    scan.outcome view = .ok (scan.lexemes.map fun lexeme ↦ view lexeme.unplaced) := by
  rw [outcome, h]

theorem outcome_of_fault {fault : LineFault} (h : scan.fault = some fault) :
    scan.outcome view = .error fault.cause := by
  rw [outcome, h]

theorem fault_eq_none_iff (view : Lexeme → Lexeme) :
    scan.fault = none ↔ ∃ lexemes, scan.outcome view = .ok lexemes := by
  constructor
  · exact fun h ↦ ⟨_, outcome_of_faultless h⟩
  · rintro ⟨lexemes, hlexemes⟩
    rw [Option.eq_none_iff_forall_ne_some]
    intro fault hfault
    rw [outcome_of_fault hfault] at hlexemes
    cases hlexemes

theorem exists_fault_of_outcome {cause : LineFault.Cause} (h : scan.outcome view = .error cause) :
    ∃ fault, scan.fault = some fault ∧ fault.cause = cause := by
  cases hfault : scan.fault with
  | none =>
    rw [outcome_of_faultless hfault] at h
    cases h
  | some fault =>
    rw [outcome_of_fault hfault] at h
    exact ⟨fault, rfl, Except.error.inj h⟩

end Scan

theorem faultless_iff_outcomes (view : Lexeme → Lexeme) (text : String) :
    Faultless text ↔
      ∀ outcome ∈ lineOutcomes view text.toList, ∃ lexemes, outcome = .ok lexemes := by
  simp only [Faultless, lineOutcomes, List.forall_mem_map, Scan.fault_eq_none_iff view]

theorem exists_checked_iff {text : String} :
    (∃ tokens, (TokenStream.ofText text).checked = .ok tokens) ↔ Faultless text := by
  constructor
  · rintro ⟨tokens, htokens⟩
    exact (TokenStream.faultless_of_checked htokens).1
  · intro h
    exact ⟨_, TokenStream.checked_of_faultless h⟩

/-- Texts whose lines come to the same are rejected for the same reason on the same line. -/
theorem FirstFault.exists_congr {text text' : String} {before : List (Line Char)}
    {line : Line Char} {fault : LineFault} (h : FirstFault text before line fault)
    (hlines : lineOutcomes view text.toList = lineOutcomes view text'.toList) :
    ∃ before' line' fault', FirstFault text' before' line' fault' ∧
      before'.length = before.length ∧ fault'.cause = fault.cause := by
  obtain ⟨⟨rest, hcut⟩, hbefore, hfault⟩ := h
  rw [lineOutcomes, hcut, List.map_append, List.map_cons] at hlines
  obtain ⟨before', others, hcut', hfront, hothers⟩ := List.map_eq_append_iff.mp hlines.symm
  obtain ⟨line', rest', rfl, hline, _⟩ := List.map_eq_cons_iff.mp hothers
  rw [Scan.outcome_of_fault hfault] at hline
  obtain ⟨fault', hfault', hcause⟩ := Scan.exists_fault_of_outcome hline
  refine ⟨before', line', fault', ⟨⟨rest', hcut'⟩, fun other hother ↦ ?_, hfault'⟩, ?_, hcause⟩
  · rw [Scan.fault_eq_none_iff view]
    have hmem := List.mem_map_of_mem (f := fun line : Line Char ↦ line.scan.outcome view) hother
    rw [hfront] at hmem
    obtain ⟨found, hfound, hsame⟩ := List.mem_map.mp hmem
    exact ⟨_, hsame.symm.trans (Scan.outcome_of_faultless (hbefore found hfound))⟩
  · simpa using congrArg List.length hfront

/-- The tokens of accepted lines that come to this, without their offsets. -/
def tokensOfOutcomes (number : Nat) : List (Except LineFault.Cause (List Lexeme)) → List Token
  | [] => []
  | outcome :: rest =>
    (outcome.toOption.getD []).map (Lexeme.onLine number) ++ tokensOfOutcomes (number + 1) rest

/-- A view of lexemes and of their tokens. Walking over tokens cannot tell apart what looks
alike. -/
structure IsLikeness (view : Lexeme → Lexeme) (tokenView : Token → Token) : Prop where
  onLine : ∀ (lexeme : Lexeme) number,
    tokenView (lexeme.onLine number) = (view lexeme).onLine number
  startOfFile : tokenView Batch.startOfFile = Batch.startOfFile
  endOfFile : tokenView .endOfFile = .endOfFile
  walk : ∀ tokens, Assignment.walk (tokens.map tokenView) = Assignment.walk tokens

namespace IsLikeness

variable {tokenView : Token → Token}

theorem map_tokensOf (h : IsLikeness view tokenView) (number offset : Nat)
    {lines : List (Line Char)} (hfaultless : ∀ line ∈ lines, line.scan.fault = none) :
    ((Batch.tokensOf number offset lines).map Token.withoutOffset).map tokenView =
      tokensOfOutcomes number (lines.map fun line ↦ line.scan.outcome view) := by
  induction lines generalizing number offset with
  | nil => rfl
  | cons line rest ih =>
    obtain ⟨hline, hrest⟩ := List.forall_mem_cons.mp hfaultless
    have hlexeme (lexeme : Lexeme) :
        tokenView (lexeme.toToken number offset).withoutOffset =
          (view lexeme.unplaced).onLine number :=
      h.onLine lexeme.unplaced number
    rw [Batch.tokensOf, List.map_append, List.map_append, ih _ _ hrest, List.map_cons,
      tokensOfOutcomes, Scan.outcome_of_faultless hline]
    simp [Function.comp_def, hlexeme, Except.toOption]

theorem map_tokens (h : IsLikeness view tokenView) {text : String} (hfaultless : Faultless text) :
    ((TokenStream.ofText text).tokens.map Token.withoutOffset).map tokenView =
      Batch.startOfFile :: tokensOfOutcomes 1 (lineOutcomes view text.toList) ++
        [.endOfFile] := by
  rw [TokenStream.tokens_of_faultless hfaultless]
  simp only [List.cons_append, List.map_cons, List.map_append, List.map_nil,
    h.map_tokensOf 1 0 hfaultless]
  exact congrArg₂
    (fun first last ↦ first :: (tokensOfOutcomes 1 (lineOutcomes view text.toList) ++ [last]))
    h.startOfFile h.endOfFile

end IsLikeness

/-! ## Decoding -/

namespace Assignment

theorem Walk.traverse_withoutOffset {α : Type} {handle : Assignment → Except Error α}
    (h : ∀ assignment : Assignment, handle assignment.withoutOffset = handle assignment)
    (walk : Walk) : walk.withoutOffset.traverse handle = walk.traverse handle := by
  have hsame : handle ∘ Assignment.withoutOffset = handle := funext h
  unfold traverse withoutOffset
  rw [List.mapM_map, hsame]

theorem update?_withoutOffset {Target : Type} (registry : Registry Target) (hints : Hints)
    (assignment : Assignment) :
    registry.update? hints assignment.withoutOffset = registry.update? hints assignment := by
  have hconvert (slot : Slot Target) (place : Place) (token : Token) :
      slot.convert place token.withoutOffset = slot.convert place token := by
    unfold Slot.convert integer
    rw [line_withoutOffset]
    rfl
  unfold Registry.update?
  simp only [show assignment.withoutOffset.value = assignment.value.withoutOffset from rfl,
    hconvert]
  rfl

end Assignment

open Assignment

/-- Nothing of the tokens is decoded but what a walk over them finds, and offsets do not matter. -/
theorem ofTokens_congr {tokens tokens' : List Token}
    (h : (walk tokens).withoutOffset = (walk tokens').withoutOffset) :
    ConfigMap.ofTokens tokens = ConfigMap.ofTokens tokens' := by
  unfold ConfigMap.ofTokens
  rw [← Walk.traverse_withoutOffset entry_withoutOffset, h,
    Walk.traverse_withoutOffset entry_withoutOffset]

theorem Schema.decode_congr {Target : Type} {tokens tokens' : List Token}
    (h : (walk tokens).withoutOffset = (walk tokens').withoutOffset) (schema : Schema Target)
    (hints : Hints) (target : Target) :
    schema.decode hints tokens target = schema.decode hints tokens' target := by
  unfold Schema.decode
  cases schema.registry with
  | error error => rfl
  | ok registry =>
    apply Registry.decode_eq_of_queued
    have hupdate := update?_withoutOffset registry hints
    unfold Registry.queued
    rw [← Walk.traverse_withoutOffset hupdate, h, Walk.traverse_withoutOffset hupdate]

/-- Both texts are accepted or neither is. If they are accepted, their tokens look alike, they are
decoded as the same map, and decoding them into a target does the same to it. If they are rejected,
the failures differ in nothing but the offset. -/
structure ReadsAlike (tokenView : Token → Token) (text text' : String) : Prop where
  accepted : (∃ tokens, (TokenStream.ofText text).checked = .ok tokens) ↔
    ∃ tokens, (TokenStream.ofText text').checked = .ok tokens
  tokens : ∀ tokens tokens', (TokenStream.ofText text).checked = .ok tokens →
    (TokenStream.ofText text').checked = .ok tokens' →
      tokens'.map tokenView = tokens.map tokenView
  config : ∀ tokens, (TokenStream.ofText text).checked = .ok tokens →
    ConfigMap.ofText text' = ConfigMap.ofText text
  target : ∀ tokens, (TokenStream.ofText text).checked = .ok tokens →
    ∀ (Target : Type) (schema : Schema Target) hints target,
      schema.decodeText hints text' target = schema.decodeText hints text target
  rejected : ∀ error, (TokenStream.ofText text).checked = .error error →
    ∃ line offset offset' reason, error = .lexical line offset reason ∧
      (TokenStream.ofText text').checked = .error (.lexical line offset' reason)

/-- Texts whose lines come to the same read alike. -/
theorem IsLikeness.readsAlike {tokenView : Token → Token} (h : IsLikeness view tokenView)
    {text text' : String}
    (hlines : lineOutcomes view text.toList = lineOutcomes view text'.toList) :
    ReadsAlike (fun token ↦ tokenView token.withoutOffset) text text' := by
  have haccepted : Faultless text ↔ Faultless text' := by
    rw [faultless_iff_outcomes view, faultless_iff_outcomes view, hlines]
  have htokens (hfaultless : Faultless text) :
      ((TokenStream.ofText text').tokens.map Token.withoutOffset).map tokenView =
        ((TokenStream.ofText text).tokens.map Token.withoutOffset).map tokenView := by
    rw [h.map_tokens hfaultless, h.map_tokens (haccepted.mp hfaultless), hlines]
  have hwalk (hfaultless : Faultless text) :
      (Assignment.walk (TokenStream.ofText text').tokens).withoutOffset =
        (Assignment.walk (TokenStream.ofText text).tokens).withoutOffset := by
    rw [← walk_map_withoutOffset, ← walk_map_withoutOffset, ← h.walk, htokens hfaultless, h.walk]
  constructor
  case accepted => rw [exists_checked_iff, exists_checked_iff, haccepted]
  case tokens =>
    intro tokens tokens' hchecked hchecked'
    obtain ⟨hfaultless, rfl⟩ := TokenStream.faultless_of_checked hchecked
    obtain ⟨_, rfl⟩ := TokenStream.faultless_of_checked hchecked'
    have hmap := htokens hfaultless
    rwa [List.map_map, List.map_map] at hmap
  case config =>
    intro tokens hchecked
    have hfaultless := (TokenStream.faultless_of_checked hchecked).1
    have hchecked' := TokenStream.checked_of_faultless (haccepted.mp hfaultless)
    rw [ConfigMap.ofText, ConfigMap.ofText, ConfigMap.ofStream, ConfigMap.ofStream, hchecked',
      TokenStream.checked_of_faultless hfaultless]
    exact ofTokens_congr (hwalk hfaultless)
  case target =>
    intro tokens hchecked Target schema hints target
    have hfaultless := (TokenStream.faultless_of_checked hchecked).1
    have hchecked' := TokenStream.checked_of_faultless (haccepted.mp hfaultless)
    simp only [Schema.decodeText, Schema.decodeStream, hchecked',
      TokenStream.checked_of_faultless hfaultless]
    exact Schema.decode_congr (hwalk hfaultless) schema hints target
  case rejected =>
    intro error hchecked
    rcases faultless_or_firstFault text with hfaultless | ⟨before, line, fault, hfirst⟩
    · rw [TokenStream.checked_of_faultless hfaultless] at hchecked
      cases hchecked
    · obtain ⟨before', line', fault', hfirst', hlength, hcause⟩ := hfirst.exists_congr hlines
      obtain rfl := Except.error.inj (hfirst.checked_eq.symm.trans hchecked)
      refine ⟨_, _, byteSize (before'.flatMap (Line.units '\n')) + fault'.start, _, rfl, ?_⟩
      rw [hfirst'.checked_eq, FirstFault.error, LineFault.toError, hlength, hcause]

end SectionedConfig

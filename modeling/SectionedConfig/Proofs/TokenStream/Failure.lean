import SectionedConfig.ConfigMap
import SectionedConfig.Proofs.Assignment
import SectionedConfig.Proofs.Line.Ending
import SectionedConfig.Proofs.Results
import SectionedConfig.Proofs.TokenStream

/-!
# Decoding the tokens of a text that fails

Decoding a text reports the failure of its lexemes. Decoding the tokens of the text walks up to the
failure first. The lines before it cannot stop the walk, and neither can most of what was found on
the failing line. But where the value after an equals sign is at fault, the failure stands in its
place, and the walk takes it for a value of a kind that cannot be assigned.
-/

namespace SectionedConfig

open Assignment Text

/-! ## What a walk finds -/

namespace Assignment

/-- The value of an assignment is the token behind the equals sign. -/
theorem eq_some_value_of_around {enclosing : Option String} {previous next : Option Token}
    {sign : Token} {assignment : Assignment}
    (h : around enclosing previous sign next = .ok assignment) : next = some assignment.value := by
  unfold around at h
  split at h
  next => cases h
  next key =>
    split at h
    next =>
      split at h
      next => cases h
      next value =>
        split at h
        next =>
          obtain rfl := Except.ok.inj h
          rfl
        next => cases h
    next => cases h

/-- The value of an assignment is one of the tokens. -/
theorem value_mem_of_mem_walkFrom {enclosing : Option String} {previous : Option Token}
    {tokens : List Token} {assignment : Assignment}
    (h : assignment ∈ (walkFrom enclosing previous tokens).found) : assignment.value ∈ tokens := by
  induction tokens generalizing enclosing previous with
  | nil => cases h
  | cons token rest ih =>
    unfold walkFrom at h
    split at h
    next => cases h
    next => cases h
    next => exact List.mem_cons_of_mem token (ih h)
    next => exact List.mem_cons_of_mem token (ih h)
    next =>
      split at h
      next => cases h
      next found haround =>
        rcases List.mem_cons.mp h with rfl | h
        · exact List.mem_cons_of_mem token (List.mem_of_head? (eq_some_value_of_around haround))
        · exact List.mem_cons_of_mem token (ih h)
    next => exact List.mem_cons_of_mem token (ih h)

/-- Every bare value among the tokens denotes an integer within the bounds of 64 bits. -/
def Readable (tokens : List Token) : Prop :=
  ∀ token ∈ tokens, token.kind = .int64 → Decimal.IsInt64 (trim token.value.toList)

instance (tokens : List Token) : Decidable (Readable tokens) :=
  inferInstanceAs (Decidable (∀ token ∈ tokens, token.kind = .int64 → _))

/-- Where every integer can be read, every assignment makes an entry. -/
theorem exists_entry {tokens : List Token} (h : Readable tokens) {assignment : Assignment}
    (hvalue : assignment.value ∈ tokens) : ∃ entry, assignment.entry = .ok entry := by
  unfold entry
  simp only
  split
  next hkind =>
    obtain ⟨number, hnumber⟩ := (h _ hvalue hkind).exists_denotes
    exact ⟨_, by rw [integer_eq_ok_iff.mpr hnumber]; rfl⟩
  next => exact ⟨_, rfl⟩

end Assignment

/-- Where every integer can be read, the fault of the walk is the error of the decoding. -/
theorem ConfigMap.ofTokens_of_fault {tokens : List Token} {error : Error} (h : Readable tokens)
    (hfault : (walk tokens).fault = some error) : ofTokens tokens = .error error := by
  have hfound : ∀ assignment ∈ (walk tokens).found, ∃ result, assignment.entry = .ok result :=
    fun assignment hassignment ↦ exists_entry h (value_mem_of_mem_walkFrom hassignment)
  obtain ⟨entries, hentries⟩ := exists_mapM_eq_ok hfound
  rw [ofTokens, Walk.traverse, hentries, hfault]
  rfl

/-! ## Lines before the failure -/

theorem Assignment.fault_walkFrom_withoutOffset (enclosing : Option String)
    (previous : Option Token) (tokens : List Token) :
    (walkFrom enclosing (previous.map Token.withoutOffset)
      (tokens.map Token.withoutOffset)).fault = (walkFrom enclosing previous tokens).fault := by
  rw [walkFrom_map_withoutOffset]
  rfl

/-- Behind the tokens of a line without a fault, a walk goes on as it would without them. -/
theorem Text.Line.fault_walkFrom {line : Line Char} (h : line.scan.fault = none)
    (number offset : Nat) (enclosing : Option String) (previous : Option Token)
    (rest : List Token) :
    ∃ enclosing' previous', (walkFrom enclosing previous
      (line.scan.lexemes.map (Lexeme.toToken number offset) ++ rest)).fault =
        (walkFrom enclosing' previous' rest).fault := by
  obtain ⟨clause, hclause⟩ := exists_clause h
  have htokens := map_withoutOffset_scan (scan_of_clause hclause line.terminated).2 number offset
  refine ⟨clause.enclosingAfter enclosing,
    some (Lexeme.onLine number (endLexeme line.terminated 0)), ?_⟩
  rw [← fault_walkFrom_withoutOffset, List.map_append, htokens, Clause.walkFrom_tokens,
    ← fault_walkFrom_withoutOffset _ (some (Lexeme.onLine number (endLexeme line.terminated 0)))]
  rfl

/-- Behind the tokens of lines without a fault, a walk goes on as it would without them. -/
theorem Batch.fault_walkFrom (number offset : Nat) {lines : List (Line Char)}
    (h : ∀ line ∈ lines, line.scan.fault = none) (enclosing : Option String)
    (previous : Option Token) (rest : List Token) :
    ∃ enclosing' previous',
      (walkFrom enclosing previous (tokensOf number offset lines ++ rest)).fault =
        (walkFrom enclosing' previous' rest).fault := by
  induction lines generalizing number offset enclosing previous with
  | nil => exact ⟨enclosing, previous, rfl⟩
  | cons line others ih =>
    obtain ⟨hline, hothers⟩ := List.forall_mem_cons.mp h
    rw [tokensOf, List.append_assoc]
    obtain ⟨enclosing', previous', hfirst⟩ := line.fault_walkFrom hline number offset enclosing
      previous (tokensOf (number + 1) (offset + line.byteSize) others ++ rest)
    rw [hfirst]
    exact ih _ _ hothers enclosing' previous'

/-- Lines without a fault do not end with an equals sign. -/
theorem Batch.kind_last_tokensOf (number offset : Nat) {front : List Token}
    (hfront : ∀ last ∈ front.getLast?, last.kind ≠ .assignment) {lines : List (Line Char)}
    (h : ∀ line ∈ lines, line.scan.fault = none) :
    ∀ last ∈ (front ++ tokensOf number offset lines).getLast?, last.kind ≠ .assignment := by
  induction lines generalizing number offset front with
  | nil => rwa [tokensOf, List.append_nil]
  | cons line rest ih =>
    obtain ⟨hline, hrest⟩ := List.forall_mem_cons.mp h
    obtain ⟨before, stop, hbefore, hstop, _⟩ := line.exists_stop hline number offset
    rw [tokensOf, ← List.append_assoc]
    refine ih _ _ (fun last hlast ↦ ?_) hrest
    rw [hbefore, ← List.append_assoc, List.getLast?_concat] at hlast
    obtain rfl : stop = last := Option.some.inj hlast
    simp [hstop]

/-! ## The failing line -/

/-- What a walk makes of the lexemes of a failing line and the failure behind them: the failure, or
a complaint about it if it stands behind an equals sign. -/
inductive Stops (error : Error) : List Token → Error → Prop where
  | failure {tokens : List Token} (h : ∀ last ∈ tokens.getLast?, last.kind ≠ .assignment) :
      Stops error tokens error
  | value (others : List Token) {key sign : Token} (hsign : sign.kind = .assignment) :
      Stops error (others ++ [key, sign])
        (.unsupportedValue key.value "unrecognized value token kind error")

namespace Stops

theorem cons {error reported : Error} {first : Token} {tokens : List Token}
    (hfirst : first.kind ≠ .assignment) (h : Stops error tokens reported) :
    Stops error (first :: tokens) reported := by
  cases h with
  | failure hlast =>
    refine .failure fun last hmem ↦ ?_
    cases tokens with
    | nil =>
      obtain rfl : first = last := Option.some.inj hmem
      exact hfirst
    | cons second rest => exact hlast last hmem
  | value others hsign => exact .value (first :: others) hsign

/-- Nothing changes behind tokens that do not end with an equals sign. -/
theorem append {error reported : Error} {front tokens : List Token}
    (hfront : ∀ last ∈ front.getLast?, last.kind ≠ .assignment) (h : Stops error tokens reported) :
    Stops error (front ++ tokens) reported := by
  cases h with
  | failure hlast =>
    refine .failure fun last hmem ↦ ?_
    rw [List.getLast?_append, Option.mem_def, Option.or_eq_some_iff] at hmem
    rcases hmem with hmem | ⟨_, hmem⟩
    · exact hlast last hmem
    · exact hfront last hmem
  | value others hsign =>
    rw [← List.append_assoc]
    exact .value (front ++ others) hsign

end Stops

variable {number offset : Nat}

/-- A walk over the lexemes of segments with a fault stops at the failure behind them. -/
theorem Segments.stops_scan {terminated : Bool} {start : Nat} {segments : Segments}
    {fault : LineFault} (h : (segments.scan terminated start).fault = some fault)
    (enclosing : Option String) (previous : Option Token) (error : Error) :
    ∃ reported, (walkFrom enclosing previous
        ((segments.scan terminated start).lexemes.map (Lexeme.toToken number offset) ++
          [.ofError error])).fault = some reported ∧
      Stops error ((segments.scan terminated start).lexemes.map (Lexeme.toToken number offset))
        reported := by
  -- Where nothing was found, the failure comes first.
  have hnothing (enclosing : Option String) (previous : Option Token) :
      ∃ reported, (walkFrom enclosing previous [.ofError error]).fault = some reported ∧
        Stops error [] reported := ⟨error, rfl, .failure (by simp)⟩
  induction segments generalizing start enclosing previous with
  | plain text =>
    unfold scan Scan.afterBlank at h ⊢
    split at h
    next => cases h
    next hstray =>
      rw [if_neg hstray]
      exact hnothing enclosing previous
  | opening name rest ih =>
    unfold scan at h ⊢
    split at h
    next hname =>
      rw [if_pos hname]
      exact hnothing enclosing previous
    next hname =>
      obtain ⟨reported, hwalk, hstops⟩ :=
        ih h (some (String.ofList (trim name))) _
      rw [if_neg hname]
      exact ⟨reported, hwalk,
        .cons (by simp [Lexeme.toToken, Lexeme.trimmed]) (.cons (by simp [Lexeme.toToken]) hstops)⟩
  | closing lead rest ih =>
    unfold scan Scan.afterBlank at h ⊢
    split at h
    next hblank =>
      obtain ⟨reported, hwalk, hstops⟩ := ih h none _
      rw [if_pos hblank]
      exact ⟨reported, hwalk, .cons (by simp [Lexeme.toToken]) hstops⟩
    next hstray =>
      rw [if_neg hstray]
      exact hnothing enclosing previous
  | assignment key value =>
    unfold scan at h ⊢
    split at h
    next hkey =>
      rw [if_pos hkey]
      exact hnothing enclosing previous
    next hkey =>
      rw [if_neg hkey]
      unfold scanAssigned at h ⊢
      simp only [Scan.prepend] at h ⊢
      split at h
      next => exact ⟨_, rfl, .value [] rfl⟩
      next => cases h
  | comment lead text =>
    unfold scan Scan.afterBlank at h ⊢
    split at h
    next => cases h
    next hstray =>
      rw [if_neg hstray]
      exact hnothing enclosing previous

/-! ## Texts -/

/-- If every integer of a text that fails can be read, decoding the text reports the failure, and so
does decoding its tokens, unless the failure stands behind an equals sign. There the failure of the
value is lost, and the complaint is about the kind of the token in its place. -/
theorem TokenStream.ofTokens_of_checked_error {text : String} {error : Error}
    (h : (ofText text).checked = .error error) (hread : Readable (ofText text).tokens) :
    ConfigMap.ofText text = .error error ∧
      ∃ front reported, (ofText text).tokens = front ++ [.ofError error] ∧
        Stops error front reported ∧ ConfigMap.ofTokens (ofText text).tokens = .error reported := by
  refine ⟨by rw [ConfigMap.ofText, ConfigMap.ofStream, h]; rfl, ?_⟩
  rcases faultless_or_firstFault text with hnone | ⟨before, line, fault, hfirst⟩
  · rw [checked_of_faultless hnone] at h
    cases h
  · obtain rfl := Except.error.inj (hfirst.checked_eq.symm.trans h)
    have htokens := hfirst.tokens_eq
    obtain ⟨enclosing, previous, hbefore⟩ := Batch.fault_walkFrom 1 0 hfirst.faultless none
      (some Batch.startOfFile) (line.scan.lexemes.map (Lexeme.toToken (1 + before.length)
        (byteSize (before.flatMap (Line.units '\n')))) ++
          [.ofError (FirstFault.error before fault)])
    obtain ⟨reported, hwalk, hstops⟩ :=
      Segments.stops_scan hfirst.fault enclosing previous (FirstFault.error before fault)
    have hfault : (walk (ofText text).tokens).fault = some reported := by
      rw [htokens, List.append_assoc, List.cons_append]
      exact hbefore.trans hwalk
    have hstart : ∀ last ∈ [Batch.startOfFile].getLast?, last.kind ≠ .assignment := by
      simp [Batch.startOfFile]
    have hlast := Batch.kind_last_tokensOf 1 0 hstart hfirst.faultless
    exact ⟨_, reported, htokens, hstops.append hlast, ConfigMap.ofTokens_of_fault hread hfault⟩

/-- The failure of a nameless section is reported from the tokens as it is from the text. -/
theorem TokenStream.ofTokens_of_checked_error_nameless :
    ConfigMap.ofText "a = 1\n\x7b" = .error (.lexical 2 6 "section start without a name") ∧
      ∃ front reported, (ofText "a = 1\n\x7b").tokens =
          front ++ [.ofError (.lexical 2 6 "section start without a name")] ∧
        Stops (.lexical 2 6 "section start without a name") front reported ∧
        ConfigMap.ofTokens (ofText "a = 1\n\x7b").tokens = .error reported :=
  ofTokens_of_checked_error (by decide) (by decide)

/-- A string without an end is reported from the text, and lost where the tokens are decoded. -/
theorem TokenStream.ofTokens_unclosed_string :
    (ofText "k = \"a").checked = .error (.lexical 1 4 "unterminated string") ∧
      Readable (ofText "k = \"a").tokens ∧
      ConfigMap.ofText "k = \"a" = .error (.lexical 1 4 "unterminated string") ∧
      ConfigMap.ofTokens (ofText "k = \"a").tokens =
        .error (.unsupportedValue "k" "unrecognized value token kind error") := by
  decide

end SectionedConfig

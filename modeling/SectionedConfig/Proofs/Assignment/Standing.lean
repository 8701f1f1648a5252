import Mathlib.Data.Nat.Find
import SectionedConfig.Proofs.Assignment
import SectionedConfig.Proofs.Document.Assembly

/-!
# Assignments where they stand

A walk goes over tokens one by one and remembers the token before and the open section. What it
finds can be said without a walk. An assignment stands at the index of an equals sign with a key
directly in front of it and a value directly behind it, and the section around it is the one named
last, unless a closing brace stands in between. A token is out of place if it is a failure, or an
equals sign without a key or a value. Whatever is done with the assignments of a walk, its error is
the one for the first token that is out of place or makes an assignment that is refused.
-/

namespace SectionedConfig

namespace Token

/-- The section that is open behind tokens: the one named last, unless a closing brace follows. -/
def openSection (tokens : List Token) : Option String :=
  (tokens.filter fun token ↦ token.kind = .sectionName ∨ token.kind = .sectionEnd).getLast?.bind
    fun token ↦ if token.kind = .sectionName then some token.value else none

/-- The file does not end in front of an index. -/
def Reached (tokens : List Token) (index : Nat) : Prop :=
  ∀ token ∈ tokens.take index, token.kind ≠ .endOfFile

instance (tokens : List Token) (index : Nat) : Decidable (Reached tokens index) :=
  inferInstanceAs (Decidable (∀ token ∈ tokens.take index, token.kind ≠ .endOfFile))

theorem openSection_concat (tokens : List Token) (token : Token) :
    openSection (tokens ++ [token]) = token.enclosingAfter (openSection tokens) := by
  unfold openSection enclosingAfter
  rw [List.filter_append]
  cases hkind : token.kind <;> simp [hkind]

theorem Reached.mono {tokens : List Token} {earlier index : Nat} (h : Reached tokens index)
    (hle : earlier ≤ index) : Reached tokens earlier :=
  fun token htoken ↦ h token (List.take_subset_take_left tokens hle htoken)

end Token

namespace Assignment

open Token (openSection Reached)

/-- The assignment at an index: an equals sign with a key directly in front of it and a value
directly behind it, not behind the end of the file. -/
def at? (tokens : List Token) (index : Nat) : Option Assignment :=
  match (tokens.take index).getLast?, tokens[index]?, tokens[index + 1]? with
  | some key, some sign, some value =>
    if Reached tokens index ∧ key.kind = .identifier ∧ sign.kind = .assignment ∧
        value.kind.isValue then
      some ⟨openSection (tokens.take index), key, value⟩
    else none
  | _, _, _ => none

/-- All assignments among tokens, in order. -/
def standing (tokens : List Token) : List Assignment :=
  (List.range tokens.length).filterMap (at? tokens)

/-- What is wrong with the tokens around an equals sign, with the error that is reported for it. -/
inductive Misplaced (sign : Token) : Option Token → Option Token → Error → Prop where
  /-- The input starts with the equals sign. -/
  | first (next : Option Token) :
      Misplaced sign none next
        (.structural sign.line "identifier before assignment" "start of input")
  /-- What stands in front is no key. -/
  | keyless {previous : Token} (hkey : previous.kind ≠ .identifier) (next : Option Token) :
      Misplaced sign (some previous) next
        (.structural sign.line "identifier before assignment" previous.kind.name)
  /-- The input ends with the equals sign. -/
  | last {key : Token} (hkey : key.kind = .identifier) :
      Misplaced sign (some key) none
        (.structural sign.line "value after assignment" "end of input")
  /-- What stands behind is no value. -/
  | valueless {key next : Token} (hkey : key.kind = .identifier)
      (hvalue : next.kind.isValue = false) :
      Misplaced sign (some key) (some next)
        (.unsupportedValue key.value ("unrecognized value token kind " ++ next.kind.name))

/-- What is wrong at an index, with the error that is reported for it. Assignments that are in
place can be refused. -/
inductive OffenceAt (Refuses : Assignment → Error → Prop) (tokens : List Token) (index : Nat) :
    Error → Prop where
  /-- A failure is reported as what it embeds. -/
  | failure {token : Token} (htoken : tokens[index]? = some token) (hkind : token.kind = .failure) :
      OffenceAt Refuses tokens index (token.error.getD (.lexical token.line 0 token.value))
  /-- An equals sign has no key in front of it or no value behind it. -/
  | misplaced {sign : Token} {error : Error} (hsign : tokens[index]? = some sign)
      (hkind : sign.kind = .assignment)
      (haround : Misplaced sign (tokens.take index).getLast? tokens[index + 1]? error) :
      OffenceAt Refuses tokens index error
  /-- An assignment is refused. -/
  | refused {assignment : Assignment} {error : Error}
      (hassignment : at? tokens index = some assignment) (hrefused : Refuses assignment error) :
      OffenceAt Refuses tokens index error

/-- The error is the one for the first offence in front of the end of the file. -/
def FirstOffence (Refuses : Assignment → Error → Prop) (tokens : List Token) (error : Error) :
    Prop :=
  ∃ index, Reached tokens index ∧ OffenceAt Refuses tokens index error ∧
    ∀ earlier < index, ∀ other, ¬ OffenceAt Refuses tokens earlier other

variable {Refuses : Assignment → Error → Prop} {before after tokens : List Token} {token : Token}
  {index : Nat} {error : Error}

/-! ## At one token -/

theorem around_eq_ok_iff {enclosing : Option String} {previous next : Option Token}
    {assignment : Assignment} :
    around enclosing previous token next = .ok assignment ↔
      assignment.enclosing = enclosing ∧ previous = some assignment.key ∧
        assignment.key.kind = .identifier ∧ next = some assignment.value ∧
          assignment.value.kind.isValue = true := by
  obtain ⟨around, key, value⟩ := assignment
  unfold Assignment.around
  cases previous with
  | none => simp
  | some previous =>
    by_cases hkey : previous.kind = .identifier
    · cases next with
      | none => simp [hkey]
      | some next =>
        by_cases hvalue : next.kind.isValue = true
        · simp only [hkey, hvalue, if_true, Except.ok.injEq, mk.injEq, Option.some.injEq]
          constructor
          · rintro ⟨rfl, rfl, rfl⟩
            exact ⟨rfl, rfl, hkey, rfl, hvalue⟩
          · rintro ⟨rfl, rfl, -, rfl, -⟩
            exact ⟨rfl, rfl, rfl⟩
        · simp only [hkey, hvalue, if_true, if_false, reduceCtorEq, false_iff, Option.some.injEq]
          rintro ⟨-, -, -, rfl, h⟩
          exact hvalue h
    · simp only [hkey, if_false, reduceCtorEq, false_iff, Option.some.injEq]
      rintro ⟨-, rfl, h, -⟩
      exact hkey h

theorem around_eq_error_iff {enclosing : Option String} {previous next : Option Token} :
    around enclosing previous token next = .error error ↔ Misplaced token previous next error := by
  unfold around
  constructor
  · intro h
    split at h
    next =>
      obtain rfl := Except.error.inj h
      exact .first next
    next =>
      split at h
      next hkey =>
        split at h
        next =>
          obtain rfl := Except.error.inj h
          exact .last hkey
        next =>
          split at h
          next => cases h
          next hvalue =>
            obtain rfl := Except.error.inj h
            exact .valueless hkey (Bool.eq_false_iff.mpr hvalue)
      next hkey =>
        obtain rfl := Except.error.inj h
        exact .keyless hkey next
  · intro h
    cases h with
    | first => rfl
    | keyless hkey => simp [hkey]
    | last hkey => simp [hkey]
    | valueless hkey hvalue => simp [hkey, hvalue]

/-- What stands at an equals sign is what a walk makes of it. -/
theorem at?_eq_some_iff {assignment : Assignment} (htoken : tokens[index]? = some token) :
    at? tokens index = some assignment ↔ Reached tokens index ∧ token.kind = .assignment ∧
      around (openSection (tokens.take index)) (tokens.take index).getLast? token
        tokens[index + 1]? = .ok assignment := by
  rw [at?, htoken, around_eq_ok_iff]
  obtain ⟨enclosing, key, value⟩ := assignment
  cases (tokens.take index).getLast? with
  | none => simp
  | some previous =>
    cases tokens[index + 1]? with
    | none => simp
    | some next =>
      simp only [Option.ite_none_right_eq_some, Option.some.injEq, mk.injEq]
      constructor
      · rintro ⟨⟨hreached, hkey, hsign, hvalue⟩, rfl, rfl, rfl⟩
        exact ⟨hreached, hsign, rfl, rfl, hkey, rfl, hvalue⟩
      · rintro ⟨hreached, hsign, rfl, rfl, hkey, rfl, hvalue⟩
        exact ⟨⟨hreached, hkey, hsign, hvalue⟩, rfl, rfl, rfl⟩

theorem at?_of_ne (htoken : tokens[index]? = some token) (hkind : token.kind ≠ .assignment) :
    at? tokens index = none :=
  Option.eq_none_iff_forall_ne_some.mpr fun _ hfound ↦
    hkind ((at?_eq_some_iff htoken).mp hfound).2.1

theorem isValue_of_at? {assignment : Assignment} (h : at? tokens index = some assignment) :
    assignment.value.kind.isValue = true := by
  rw [at?] at h
  split at h
  next =>
    obtain ⟨⟨_, _, _, hvalue⟩, h⟩ := Option.ite_none_right_eq_some.mp h
    obtain rfl := Option.some.inj h
    exact hvalue
  next => cases h

theorem at?_of_not_reached (h : ¬ Reached tokens index) : at? tokens index = none := by
  rw [at?]
  split
  next => rw [if_neg fun hall ↦ h hall.1]
  next => rfl

theorem offenceAt_failure_iff (htoken : tokens[index]? = some token)
    (hkind : token.kind = .failure) :
    OffenceAt Refuses tokens index error ↔ token.failure? = some error := by
  rw [Token.failure?, if_pos hkind, Option.some.injEq]
  constructor
  · intro h
    cases h with
    | failure hother _ =>
      obtain rfl := Option.some.inj (htoken.symm.trans hother)
      rfl
    | misplaced hsign hassignment _ =>
      obtain rfl := Option.some.inj (htoken.symm.trans hsign)
      simp [hkind] at hassignment
    | refused hassignment _ =>
      have hsign := ((at?_eq_some_iff htoken).mp hassignment).2.1
      simp [hkind] at hsign
  · rintro rfl
    exact .failure htoken hkind

/-- An equals sign offends if it is misplaced, or if its assignment is refused. -/
theorem offenceAt_assignment_iff (htoken : tokens[index]? = some token)
    (hkind : token.kind = .assignment) (hreached : Reached tokens index) :
    OffenceAt Refuses tokens index error ↔
      around (openSection (tokens.take index)) (tokens.take index).getLast? token
          tokens[index + 1]? = .error error ∨
        ∃ assignment, around (openSection (tokens.take index)) (tokens.take index).getLast? token
          tokens[index + 1]? = .ok assignment ∧ Refuses assignment error := by
  rw [around_eq_error_iff]
  constructor
  · intro h
    cases h with
    | failure hother hfailure =>
      obtain rfl := Option.some.inj (htoken.symm.trans hother)
      simp [hkind] at hfailure
    | misplaced hsign _ haround =>
      obtain rfl := Option.some.inj (htoken.symm.trans hsign)
      exact .inl haround
    | refused hassignment hrefused =>
      exact .inr ⟨_, ((at?_eq_some_iff htoken).mp hassignment).2.2, hrefused⟩
  · rintro (haround | ⟨assignment, haround, hrefused⟩)
    · exact .misplaced htoken hkind haround
    · exact .refused ((at?_eq_some_iff htoken).mpr ⟨hreached, hkind, haround⟩) hrefused

theorem not_offenceAt_of_ne (htoken : tokens[index]? = some token)
    (hfailure : token.kind ≠ .failure) (hassignment : token.kind ≠ .assignment) :
    ¬ OffenceAt Refuses tokens index error := by
  intro h
  cases h with
  | failure hother hkind =>
    obtain rfl := Option.some.inj (htoken.symm.trans hother)
    exact hfailure hkind
  | misplaced hsign hkind _ =>
    obtain rfl := Option.some.inj (htoken.symm.trans hsign)
    exact hassignment hkind
  | refused hfound _ => exact hassignment ((at?_eq_some_iff htoken).mp hfound).2.1

theorem not_offenceAt_of_none (htoken : tokens[index]? = none) :
    ¬ OffenceAt Refuses tokens index error := by
  intro h
  cases h with
  | failure hother _ => simp [htoken] at hother
  | misplaced hsign _ _ => simp [htoken] at hsign
  | refused hassignment _ => simp [at?, htoken] at hassignment

theorem isValue_of_mem_standing {assignment : Assignment} (h : assignment ∈ standing tokens) :
    assignment.value.kind.isValue = true := by
  obtain ⟨_, _, hat⟩ := List.mem_filterMap.mp h
  exact isValue_of_at? hat

/-! ## From an index on -/

/-- The error is the one for the first offence at or behind an index. -/
def FirstOffenceFrom (Refuses : Assignment → Error → Prop) (tokens : List Token) (start : Nat)
    (error : Error) : Prop :=
  ∃ index, start ≤ index ∧ Reached tokens index ∧ OffenceAt Refuses tokens index error ∧
    ∀ earlier, start ≤ earlier → earlier < index → ∀ other,
      ¬ OffenceAt Refuses tokens earlier other

theorem firstOffenceFrom_of_offence {start : Nat} {fault : Error} (hreached : Reached tokens start)
    (h : ∀ other, OffenceAt Refuses tokens start other ↔ other = fault) :
    FirstOffenceFrom Refuses tokens start error ↔ error = fault := by
  constructor
  · rintro ⟨index, hle, _, hoffence, hearlier⟩
    rcases Nat.eq_or_lt_of_le hle with rfl | hlt
    · exact (h error).mp hoffence
    · exact absurd ((h fault).mpr rfl) (hearlier start (Nat.le_refl start) hlt fault)
  · rintro rfl
    exact ⟨start, Nat.le_refl start, hreached, (h error).mpr rfl, by omega⟩

theorem firstOffenceFrom_succ {start : Nat} (h : ∀ other, ¬ OffenceAt Refuses tokens start other) :
    FirstOffenceFrom Refuses tokens start error ↔
      FirstOffenceFrom Refuses tokens (start + 1) error := by
  constructor
  · rintro ⟨index, hle, hindex, hoffence, hearlier⟩
    rcases Nat.eq_or_lt_of_le hle with rfl | hlt
    · exact absurd hoffence (h error)
    · exact ⟨index, hlt, hindex, hoffence,
        fun earlier hstart ↦ hearlier earlier (Nat.le_of_succ_le hstart)⟩
  · rintro ⟨index, hle, hindex, hoffence, hearlier⟩
    refine ⟨index, Nat.le_of_succ_le hle, hindex, hoffence, fun earlier hstart hlt ↦ ?_⟩
    rcases Nat.eq_or_lt_of_le hstart with rfl | hstart
    · exact h
    · exact hearlier earlier hstart hlt

theorem not_firstOffenceFrom {start : Nat} (h : ∀ index, start ≤ index → Reached tokens index →
    ∀ error, ¬ OffenceAt Refuses tokens index error) :
    ¬ FirstOffenceFrom Refuses tokens start error :=
  fun ⟨index, hle, hreached, hoffence, _⟩ ↦ h index hle hreached error hoffence

/-! ## Walks -/

/-- The walk over the tokens from an index on, as a walk over all tokens comes to it. -/
def walkAt (tokens : List Token) (index : Nat) : Walk :=
  walkFrom (openSection (tokens.take index)) (tokens.take index).getLast? (tokens.drop index)

/-- A token stands at an index, with the others behind it. -/
structure Splits (tokens : List Token) (index : Nat) (token : Token) (rest : List Token) :
    Prop where
  drop_eq : tokens.drop index = token :: rest
  getElem?_eq : tokens[index]? = some token
  take_succ : tokens.take (index + 1) = tokens.take index ++ [token]
  drop_succ : tokens.drop (index + 1) = rest
  getElem?_succ : tokens[index + 1]? = rest.head?

theorem splits_of_drop {rest : List Token} (h : tokens.drop index = token :: rest) :
    Splits tokens index token rest := by
  have htoken : tokens[index]? = some token := by
    rw [← List.head?_drop, h]
    rfl
  have hdrop : tokens.drop (index + 1) = rest := by
    rw [← List.drop_drop, h]
    rfl
  exact ⟨h, htoken, by rw [List.take_add_one, htoken]; rfl, hdrop, by rw [← List.head?_drop, hdrop]⟩

namespace Splits

variable {rest : List Token}

theorem reached_succ (h : Splits tokens index token rest) :
    Reached tokens (index + 1) ↔ Reached tokens index ∧ token.kind ≠ .endOfFile := by
  unfold Reached
  rw [h.take_succ, List.forall_mem_append, List.forall_mem_singleton]

/-- Nothing behind the end of the file is reached. -/
theorem not_reached (h : Splits tokens index token rest) (hkind : token.kind = .endOfFile)
    {later : Nat} (hlt : index < later) : ¬ Reached tokens later :=
  fun hreached ↦ (h.reached_succ.mp (hreached.mono hlt)).2 hkind

theorem walkAt_endOfFile (h : Splits tokens index token rest) (hkind : token.kind = .endOfFile) :
    walkAt tokens index = ⟨[], none⟩ := by
  rw [walkAt, h.drop_eq, walkFrom, hkind]

theorem walkAt_failure (h : Splits tokens index token rest) (hkind : token.kind = .failure) :
    walkAt tokens index = ⟨[], token.failure?⟩ := by
  rw [walkAt, h.drop_eq, walkFrom, hkind]

theorem walkAt_assignment (h : Splits tokens index token rest) (hkind : token.kind = .assignment) :
    walkAt tokens index =
      match around (openSection (tokens.take index)) (tokens.take index).getLast? token
        tokens[index + 1]? with
      | .error fault => ⟨[], some fault⟩
      | .ok assignment => (walkAt tokens (index + 1)).cons assignment := by
  have hopen : openSection (tokens.take (index + 1)) = openSection (tokens.take index) := by
    rw [h.take_succ, Token.openSection_concat, Token.enclosingAfter, hkind]
  have hnext : walkAt tokens (index + 1) =
      walkFrom (openSection (tokens.take index)) (some token) rest := by
    rw [walkAt, hopen, h.drop_succ, h.take_succ, List.getLast?_concat]
  rw [hnext, h.getElem?_succ, walkAt, h.drop_eq, walkFrom]
  cases around (openSection (tokens.take index)) (tokens.take index).getLast? token rest.head? with
  | error fault => simp only [hkind]
  | ok assignment => simp only [hkind]

/-- Over a token that is no equals sign and does not end it, a walk goes on. -/
theorem walkAt_of_ne (h : Splits tokens index token rest) (hend : token.kind ≠ .endOfFile)
    (hfailure : token.kind ≠ .failure) (hassignment : token.kind ≠ .assignment) :
    walkAt tokens index = walkAt tokens (index + 1) := by
  rw [walkAt, walkAt, h.drop_eq, h.take_succ, h.drop_succ, Token.openSection_concat,
    List.getLast?_concat, walkFrom, Token.enclosingAfter]
  cases hkind : token.kind <;> simp_all

end Splits

theorem walkAt_of_length_le (h : tokens.length ≤ index) : walkAt tokens index = ⟨[], none⟩ := by
  rw [walkAt, List.drop_of_length_le h]
  rfl

theorem traverse_fault_eq_error_iff {α : Type} {handle : Assignment → Except Error α}
    {fault : Error} :
    (Walk.mk [] (some fault)).traverse handle = .error error ↔ error = fault :=
  ⟨fun h ↦ (Except.error.inj h).symm, fun h ↦ h ▸ rfl⟩

/-- Handling what a walk finds fails with the error for the first token from there on that is out of
place or makes an assignment that cannot be handled. -/
theorem traverse_walkAt_eq_error_iff {α : Type} {handle : Assignment → Except Error α}
    (hrefuses : ∀ assignment error, handle assignment = .error error ↔ Refuses assignment error)
    (hreached : Reached tokens index) :
    (walkAt tokens index).traverse handle = .error error ↔
      FirstOffenceFrom Refuses tokens index error := by
  generalize hrest : tokens.drop index = rest
  induction rest generalizing index with
  | nil =>
    have hend : tokens.length ≤ index := List.drop_eq_nil_iff.mp hrest
    rw [walkAt_of_length_le hend]
    refine iff_of_false nofun (not_firstOffenceFrom fun later hle _ _ ↦ ?_)
    exact not_offenceAt_of_none (List.getElem?_eq_none (hend.trans hle))
  | cons token rest ih =>
    have hsplits := splits_of_drop hrest
    have htoken := hsplits.getElem?_eq
    by_cases hend : token.kind = .endOfFile
    · rw [hsplits.walkAt_endOfFile hend]
      refine iff_of_false nofun (not_firstOffenceFrom fun later hle hlater _ ↦ ?_)
      rcases Nat.eq_or_lt_of_le hle with rfl | hlt
      · exact not_offenceAt_of_ne htoken (by simp [hend]) (by simp [hend])
      · exact absurd hlater (hsplits.not_reached hend hlt)
    have hnext := ih (hsplits.reached_succ.mpr ⟨hreached, hend⟩) hsplits.drop_succ
    by_cases hfailure : token.kind = .failure
    · obtain ⟨fault, hfault⟩ : ∃ fault, token.failure? = some fault :=
        ⟨_, if_pos hfailure⟩
      have hoffence (other : Error) : OffenceAt Refuses tokens index other ↔ other = fault := by
        rw [offenceAt_failure_iff htoken hfailure, hfault, Option.some.injEq, eq_comm]
      rw [hsplits.walkAt_failure hfailure, hfault, firstOffenceFrom_of_offence hreached hoffence,
        traverse_fault_eq_error_iff]
    by_cases hassignment : token.kind = .assignment
    · have hoffence (other : Error) : OffenceAt Refuses tokens index other ↔ _ :=
        offenceAt_assignment_iff htoken hassignment hreached
      rw [hsplits.walkAt_assignment hassignment]
      cases haround : around (openSection (tokens.take index)) (tokens.take index).getLast? token
          tokens[index + 1]? with
      | error fault =>
        simp only [haround, Except.error.injEq, reduceCtorEq, false_and, exists_false,
          or_false] at hoffence
        rw [firstOffenceFrom_of_offence hreached fun other ↦ (hoffence other).trans eq_comm,
          traverse_fault_eq_error_iff]
      | ok assignment =>
        simp only [haround, reduceCtorEq, Except.ok.injEq, false_or, exists_eq_left',
          ← hrefuses] at hoffence
        rw [Walk.traverse_cons]
        cases hhandle : handle assignment with
        | error fault =>
          simp only [hhandle, Except.error.injEq] at hoffence
          rw [firstOffenceFrom_of_offence hreached fun other ↦ (hoffence other).trans eq_comm]
          exact ⟨fun h ↦ (Except.error.inj h).symm, fun h ↦ h ▸ rfl⟩
        | ok result =>
          simp only [hhandle, reduceCtorEq, iff_false] at hoffence
          rw [firstOffenceFrom_succ hoffence, ← hnext]
          exact map_eq_error_iff
    · have hnone : ∀ other, ¬ OffenceAt Refuses tokens index other :=
        fun other ↦ not_offenceAt_of_ne htoken hfailure hassignment
      rw [hsplits.walkAt_of_ne hend hfailure hassignment, hnext, firstOffenceFrom_succ hnone]

/-- A walk without a fault finds the assignments that stand at the index or behind it. -/
theorem found_walkAt (hreached : Reached tokens index)
    (hfault : (walkAt tokens index).fault = none) :
    (walkAt tokens index).found =
      (List.range' index (tokens.drop index).length).filterMap (at? tokens) := by
  generalize hrest : tokens.drop index = rest
  induction rest generalizing index with
  | nil =>
    rw [walkAt_of_length_le (List.drop_eq_nil_iff.mp hrest)]
    rfl
  | cons token rest ih =>
    have hsplits := splits_of_drop hrest
    have htoken := hsplits.getElem?_eq
    by_cases hend : token.kind = .endOfFile
    · -- The token makes no assignment, and nothing behind it is reached.
      rw [hsplits.walkAt_endOfFile hend, eq_comm, List.filterMap_eq_nil_iff]
      intro later hlater
      rcases Nat.eq_or_lt_of_le (List.mem_range'_1.mp hlater).1 with rfl | hlt
      · exact at?_of_ne htoken (by simp [hend])
      · exact at?_of_not_reached (hsplits.not_reached hend hlt)
    rw [List.length_cons, List.range'_succ, List.filterMap_cons]
    have hnext := ih (hsplits.reached_succ.mpr ⟨hreached, hend⟩)
    by_cases hfailure : token.kind = .failure
    · rw [hsplits.walkAt_failure hfailure, Token.failure?, if_pos hfailure] at hfault
      cases hfault
    by_cases hassignment : token.kind = .assignment
    · have hwalk := hsplits.walkAt_assignment hassignment
      cases haround : around (openSection (tokens.take index)) (tokens.take index).getLast? token
          tokens[index + 1]? with
      | error fault =>
        simp only [haround] at hwalk
        rw [hwalk] at hfault
        cases hfault
      | ok assignment =>
        simp only [haround] at hwalk
        rw [hwalk] at hfault
        rw [hwalk, (at?_eq_some_iff htoken).mpr ⟨hreached, hassignment, haround⟩]
        exact congrArg _ (hnext hfault hsplits.drop_succ)
    · rw [hsplits.walkAt_of_ne hend hfailure hassignment] at hfault ⊢
      rw [at?_of_ne htoken hassignment]
      exact hnext hfault hsplits.drop_succ

/-! ## From the start -/

theorem walkAt_zero (tokens : List Token) : walkAt tokens 0 = walk tokens := rfl

theorem reached_zero (tokens : List Token) : Reached tokens 0 := by
  simp [Reached]

/-- Handling what a walk finds fails with the error for the first token that is out of place or
makes an assignment that cannot be handled. -/
theorem traverse_walk_eq_error_iff {α : Type} {handle : Assignment → Except Error α}
    (hrefuses : ∀ assignment error, handle assignment = .error error ↔
      Refuses assignment error) :
    (walk tokens).traverse handle = .error error ↔ FirstOffence Refuses tokens error := by
  rw [← walkAt_zero, traverse_walkAt_eq_error_iff hrefuses (reached_zero tokens)]
  simp [FirstOffenceFrom, FirstOffence]

/-- Where an offence is reached, one of them is the first. -/
theorem exists_firstOffence_iff :
    (∃ error, FirstOffence Refuses tokens error) ↔
      ∃ index error, Reached tokens index ∧ OffenceAt Refuses tokens index error := by
  constructor
  · rintro ⟨error, index, hreached, hoffence, _⟩
    exact ⟨index, error, hreached, hoffence⟩
  · intro h
    classical
    obtain ⟨error, hreached, hoffence⟩ := Nat.find_spec h
    refine ⟨error, Nat.find h, hreached, hoffence, fun earlier hlt other hother ↦ ?_⟩
    exact Nat.find_min h hlt ⟨other, hreached.mono (Nat.le_of_lt hlt), hother⟩

/-- There is no offence if no failure is reached and every equals sign makes an assignment that is
not refused. -/
theorem not_exists_firstOffence_iff :
    (¬ ∃ error, FirstOffence Refuses tokens error) ↔
      ∀ index token, Reached tokens index → tokens[index]? = some token →
        token.kind ≠ .failure ∧ (token.kind = .assignment → ∃ assignment,
          at? tokens index = some assignment ∧ ∀ error, ¬ Refuses assignment error) := by
  rw [exists_firstOffence_iff]
  constructor
  · intro h index token hreached htoken
    refine ⟨fun hkind ↦ h ⟨index, _, hreached, .failure htoken hkind⟩, fun hkind ↦ ?_⟩
    cases haround : around (openSection (tokens.take index)) (tokens.take index).getLast? token
        tokens[index + 1]? with
    | error fault =>
      have hmisplaced := around_eq_error_iff.mp haround
      exact absurd ⟨index, fault, hreached, .misplaced htoken hkind hmisplaced⟩ h
    | ok assignment =>
      have hat := (at?_eq_some_iff htoken).mpr ⟨hreached, hkind, haround⟩
      refine ⟨assignment, hat, fun error hrefused ↦ ?_⟩
      exact h ⟨index, error, hreached, .refused hat hrefused⟩
  · rintro h ⟨index, error, hreached, hoffence⟩
    cases hoffence with
    | failure htoken hkind => exact (h index _ hreached htoken).1 hkind
    | misplaced htoken hkind hmisplaced =>
      obtain ⟨assignment, hat, _⟩ := (h index _ hreached htoken).2 hkind
      have haround := ((at?_eq_some_iff htoken).mp hat).2.2
      rw [around_eq_error_iff.mpr hmisplaced] at haround
      cases haround
    | refused hat hrefused =>
      cases htoken : tokens[index]? with
      | none => simp [at?, htoken] at hat
      | some token =>
        have hkind := ((at?_eq_some_iff htoken).mp hat).2.1
        obtain ⟨assignment, hsame, haccepted⟩ := (h index token hreached htoken).2 hkind
        obtain rfl := Option.some.inj (hsame.symm.trans hat)
        exact haccepted error hrefused

/-- If all that a walk finds can be handled, it has found the assignments that stand among the
tokens. -/
theorem mapM_standing_of_traverse {α : Type} {handle : Assignment → Except Error α}
    {results : List α} (h : (walk tokens).traverse handle = .ok results) :
    (standing tokens).mapM handle = .ok results := by
  obtain ⟨hfault, hfound⟩ := Walk.traverse_eq_ok_iff.mp h
  have hall := found_walkAt (reached_zero tokens) hfault
  rw [walkAt_zero, List.drop_zero, ← List.range_eq_range'] at hall
  rw [standing, ← hall, hfound]

end Assignment

end SectionedConfig

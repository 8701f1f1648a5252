import SectionedConfig.Proofs.Assignment.Standing
import SectionedConfig.Proofs.Registry.FlatDecoding
import SectionedConfig.Proofs.Value.Meaning

/-!
# What a flat map holds

Tokens make up a flat map if none of them is out of place and every integer that is assigned can be
read. The map then has the keys of the assignments, in the order in which they come first, and the
value of the last assignment to each of them. Otherwise the error is the one for the first token
that is at fault.
-/

namespace SectionedConfig

open Assignment Text
open Token (Reached)

/-- The value that a token stands for: a bare one the integer that it is a numeral of, apart from
white space around it, and a string its text. -/
inductive Token.Denotes (token : Token) : Value → Prop where
  | int64 {number : Int64} (hkind : token.kind = .int64)
      (hnumber : Decimal.Denotes (trim token.value.toList) number.toInt) :
      Denotes token (.int64 number)
  | string (hkind : token.kind = .string) : Denotes token (.string token.value)

/-- The value that a token has in a flat map: a bare one the integer that it is a numeral of, and a
string what its text stands for. -/
inductive Token.Means (token : Token) : Value → Prop where
  | int64 {number : Int64} (hkind : token.kind = .int64)
      (hnumber : Decimal.Denotes (trim token.value.toList) number.toInt) :
      Means token (.int64 number)
  | string {value : Value} (hkind : token.kind = .string)
      (hvalue : StandsFor token.value.toList value) : Means token value

theorem Token.Means.unique {token : Token} {value other : Value} (h : token.Means value)
    (h' : token.Means other) : value = other := by
  cases h with
  | int64 hkind hnumber =>
    cases h' with
    | int64 _ hsame => rw [hnumber.unique hsame]
    | string hstring => simp [hkind] at hstring
  | string hkind hvalue =>
    cases h' with
    | int64 hinteger _ => simp [hkind] at hinteger
    | string _ hsame => exact (Value.existsUnique_standsFor token.value).unique hvalue hsame

namespace Assignment

variable {assignment : Assignment} {tokens : List Token} {error : Error}

/-- The value is bare and denotes no integer within the bounds of 64 bits. -/
inductive Unreadable (assignment : Assignment) : Error → Prop where
  | intro (hkind : assignment.value.kind = .int64)
      (hnumber : ¬ Decimal.IsInt64 (trim assignment.value.value.toList)) :
      Unreadable assignment
        (.invalidInteger assignment.composedKey assignment.value.value assignment.value.line)

theorem entry_eq_error_iff : assignment.entry = .error error ↔ assignment.Unreadable error := by
  constructor
  · intro h
    unfold entry at h
    split at h
    next hkind =>
      obtain ⟨hnumber, rfl⟩ := integer_eq_error_iff.mp (map_eq_error_iff.mp h)
      exact .intro hkind hnumber
    next => cases h
  · rintro ⟨hkind, hnumber⟩
    rw [entry, if_pos hkind, integer_eq_error_iff.mpr ⟨hnumber, rfl⟩]
    rfl

/-- The entry has the composed key of an assignment and what its value means. -/
structure Enters (assignment : Assignment) (entry : String × Value) : Prop where
  fst_eq : entry.1 = assignment.composedKey
  means : assignment.value.Means entry.2

theorem enters_of_entry (hvalue : assignment.value.kind.isValue = true) {entry : String × Value}
    (h : assignment.entry = .ok entry) : assignment.Enters entry := by
  unfold Assignment.entry at h
  split at h
  next hkind =>
    obtain ⟨number, hnumber, rfl⟩ := map_eq_ok_iff.mp h
    exact ⟨rfl, .int64 hkind (integer_eq_ok_iff.mp hnumber)⟩
  next hkind =>
    obtain rfl := Except.ok.inj h
    have hstring : assignment.value.kind = .string := by
      cases hother : assignment.value.kind <;> simp_all [TokenKind.isValue]
    exact ⟨rfl, .string hstring (Value.ofText_eq_iff.mp rfl)⟩

/-- In front of the end of the file there is no failure, and every equals sign stands between a key
and a value that can be read. -/
def Decodable (tokens : List Token) : Prop :=
  ∀ index token, Reached tokens index → tokens[index]? = some token →
    token.kind ≠ .failure ∧
      (token.kind = .assignment → ∃ assignment value, at? tokens index = some assignment ∧
        assignment.value.Denotes value)

theorem denotes_iff_not_unreadable (hvalue : assignment.value.kind.isValue = true) :
    (∃ value, assignment.value.Denotes value) ↔ ∀ error, ¬ assignment.Unreadable error := by
  constructor
  · rintro ⟨value, hdenotes⟩ error ⟨hkind, hnumber⟩
    cases hdenotes with
    | int64 _ hsome => exact hnumber hsome.isInt64
    | string hstring => simp [hkind] at hstring
  · intro h
    cases hkind : assignment.value.kind with
    | string => exact ⟨_, .string hkind⟩
    | int64 =>
      by_cases hnumber : Decimal.IsInt64 (trim assignment.value.value.toList)
      · obtain ⟨number, hdenotes⟩ := hnumber.exists_denotes
        exact ⟨_, .int64 hkind hdenotes⟩
      · exact absurd (.intro hkind hnumber) (h _)
    | _ => simp [hkind, TokenKind.isValue] at hvalue

theorem decodable_iff : Decodable tokens ↔ ¬ ∃ error, FirstOffence Unreadable tokens error := by
  rw [not_exists_firstOffence_iff, Decodable]
  refine forall_congr' fun index ↦ forall_congr' fun token ↦ forall_congr' fun _ ↦
    forall_congr' fun _ ↦ and_congr_right fun _ ↦ forall_congr' fun _ ↦ ?_
  refine exists_congr fun assignment ↦ ?_
  rw [exists_and_left]
  exact and_congr_right fun hat ↦ denotes_iff_not_unreadable (isValue_of_at? hat)

/-- The last assignment to a key. -/
def last? (tokens : List Token) (key : String) : Option Assignment :=
  ((standing tokens).filter fun assignment ↦ assignment.composedKey = key).getLast?

end Assignment

namespace ConfigMap

variable {tokens : List Token} {map : ConfigMap} {error : Error}

theorem ofTokens_eq_error_iff :
    ofTokens tokens = .error error ↔ FirstOffence Unreadable tokens error :=
  map_eq_error_iff.trans (traverse_walk_eq_error_iff fun _ _ ↦ entry_eq_error_iff)

theorem exists_ofTokens_iff_decodable : (∃ map, ofTokens tokens = .ok map) ↔ Decodable tokens := by
  rw [exists_eq_ok_iff, decodable_iff, not_exists]
  exact forall_congr' fun error ↦ not_congr ofTokens_eq_error_iff

/-- The entries of a map are those of the assignments. -/
theorem exists_entries_of_ofTokens (h : ofTokens tokens = .ok map) :
    ∃ entries, map = .ofList entries ∧ List.Forall₂ Enters (standing tokens) entries := by
  obtain ⟨entries, hentries, rfl⟩ := map_eq_ok_iff.mp h
  have hall := mapM_eq_ok_iff.mp (mapM_standing_of_traverse hentries)
  have hvalues : ∀ assignment ∈ standing tokens, assignment.value.kind.isValue = true :=
    fun _ ↦ isValue_of_mem_standing
  refine ⟨entries, rfl, ?_⟩
  exact ((List.forall₂_and_left _ _).mpr ⟨hvalues, hall⟩).imp fun _ _ h ↦ enters_of_entry h.1 h.2

theorem map_fst_of_enters {assignments : List Assignment} {entries : List (String × Value)}
    (h : List.Forall₂ Enters assignments entries) :
    entries.map Prod.fst = assignments.map composedKey := by
  induction h with
  | nil => rfl
  | cons hfirst _ ih => rw [List.map_cons, List.map_cons, ih, hfirst.fst_eq]

/-- A key has what the value of the last assignment to it means. -/
theorem get?_of_enters {entries : List (String × Value)}
    (h : List.Forall₂ Enters (standing tokens) entries) (key : String) (value : Value) :
    (OrderedMap.ofList entries).get? key = some value ↔ ∃ assignment,
      last? tokens key = some assignment ∧ assignment.value.Means value := by
  have hfilter : List.Forall₂ Enters
      ((standing tokens).filter fun assignment ↦ assignment.composedKey = key)
      (entries.filter fun entry ↦ entry.1 = key) := by
    refine List.rel_filter ?_ h
    intro assignment entry henters
    simp only [henters.fst_eq]
  have hlast := rel_getLast? hfilter
  rw [← last?] at hlast
  rw [OrderedMap.get?_ofList]
  generalize last? tokens key = found at hlast
  generalize (entries.filter fun entry ↦ entry.1 = key).getLast? = entry at hlast
  cases hlast with
  | none => simp
  | @some assignment entry henters =>
    constructor
    · intro hvalue
      exact ⟨assignment, rfl, Option.some.inj hvalue ▸ henters.means⟩
    · rintro ⟨other, hother, hmeans⟩
      obtain rfl := Option.some.inj hother
      exact congrArg some (henters.means.unique hmeans)

theorem not_means_list_nil (token : Token) : ¬ token.Means (.list []) := by
  rintro (_ | ⟨_, hvalue⟩)
  exact Value.not_standsFor_list_nil _ hvalue

/-- Tokens make up a flat map if none of them is at fault, and only then. Otherwise the error is the
one for the first token that is at fault. The keys of the map are those of the assignments in the
order in which they come first, and each of them has what the value of the last assignment to it
means. No value is a list without items. -/
theorem ofTokens_outcome (tokens : List Token) :
    ((∃ map, ofTokens tokens = .ok map) ↔ Decodable tokens) ∧
      (∀ error, ofTokens tokens = .error error ↔ FirstOffence Unreadable tokens error) ∧
      ∀ map, ofTokens tokens = .ok map →
        map.keys = ((standing tokens).map composedKey).eraseDups ∧
          (∀ key value, map.get? key = some value ↔ ∃ assignment,
            last? tokens key = some assignment ∧ assignment.value.Means value) ∧
          ∀ key, map.get? key ≠ some (.list []) := by
  refine ⟨exists_ofTokens_iff_decodable, fun _ ↦ ofTokens_eq_error_iff, fun map hmap ↦ ?_⟩
  obtain ⟨entries, rfl, henters⟩ := exists_entries_of_ofTokens hmap
  have hget := get?_of_enters henters
  refine ⟨?_, hget, fun key hnil ↦ ?_⟩
  · rw [OrderedMap.keys_ofList, map_fst_of_enters henters]
  · obtain ⟨_, _, hmeans⟩ := (hget key _).mp hnil
    exact not_means_list_nil _ hmeans

/-- A bare key collides with a composed one, a section is named inside another one, one closing
brace closes both, and a failure stands behind the end of the file. The second sequence fails with
its failure, which stands behind an integer that can be read. -/
theorem ofTokens_outcome_collision :
    ∃ (tokens broken : List Token) (map : ConfigMap),
      tokens.map Token.value = ["s/a", "=", "1", "t", "s", "b", "=", " [x, \"y\"]", "a", "=", " +2",
        "\x7d", "c", "=", "\"z", "", "fault"] ∧
      broken.map Token.value = ["a", "=", "7", "fault", "="] ∧
      Decodable tokens ∧ ofTokens tokens = .ok map ∧
      map.keys = ((standing tokens).map composedKey).eraseDups ∧
      (standing tokens).map composedKey = ["s/a", "s/b", "s/a", "c"] ∧
      (map.get? "s/a" = some (.int64 2) ∧ ∃ assignment, last? tokens "s/a" = some assignment ∧
        assignment.value.value = " +2" ∧ assignment.value.Means (.int64 2)) ∧
      (map.get? "s/b" = some (.list ["x", "y"]) ∧ ∃ assignment,
        last? tokens "s/b" = some assignment ∧ assignment.value.Means (.list ["x", "y"])) ∧
      (map.get? "c" = some (.string "z") ∧ ∃ assignment,
        last? tokens "c" = some assignment ∧ assignment.value.Means (.string "z")) ∧
      map.get? "s/b" ≠ some (.list []) ∧
      FirstOffence Unreadable broken (.lexical 0 0 "fault") := by
  let token (kind : TokenKind) (text : String) : Token := ⟨kind, text, none, none, false⟩
  let sign := token .assignment "="
  let tokens : List Token := [token .identifier "s/a", sign, token .int64 "1",
    token .sectionName "t", token .sectionName "s", token .identifier "b", sign,
    token .string " [x, \"y\"]", token .identifier "a", sign, token .int64 " +2",
    token .sectionEnd "\x7d", token .identifier "c", sign, token .string "\"z", .endOfFile,
    token .failure "fault"]
  let broken : List Token := [token .identifier "a", sign, token .int64 "7",
    token .failure "fault", sign]
  have hmap : ofTokens tokens = .ok (.ofList [("s/a", .int64 2), ("s/b", .list ["x", "y"]),
      ("c", .string "z")]) := by
    decide +kernel
  have hbroken : ofTokens broken = .error (.lexical 0 0 "fault") := by decide +kernel
  obtain ⟨hdecodable, _, hmeaning⟩ := ofTokens_outcome tokens
  obtain ⟨_, herror, _⟩ := ofTokens_outcome broken
  obtain ⟨hkeys, hget, hlist⟩ := hmeaning _ hmap
  have hinteger := (hget "s/a" (.int64 2)).mp (by decide +kernel)
  have hwritten : (last? tokens "s/a").map (fun last ↦ last.value.value) = some " +2" := by
    decide +kernel
  obtain ⟨last, hlast, hmeans⟩ := hinteger
  rw [hlast, Option.map_some] at hwritten
  exact ⟨tokens, broken, _, rfl, rfl, hdecodable.mp ⟨_, hmap⟩, hmap, hkeys, by decide +kernel,
    ⟨by decide +kernel, last, hlast, Option.some.inj hwritten, hmeans⟩,
    ⟨by decide +kernel, (hget "s/b" (.list ["x", "y"])).mp (by decide +kernel)⟩,
    ⟨by decide +kernel, (hget "c" (.string "z")).mp (by decide +kernel)⟩, hlist "s/b",
    (herror _).mp hbroken⟩

end ConfigMap

end SectionedConfig

import SectionedConfig.OrderedMap

/-!
# Entries of ordered maps

Where no two entries have the same key, looking up a key is the same as finding it among the
entries. Entries with different keys make up a map as they are.
-/

namespace SectionedConfig

/-- Among entries with different keys, the first one with a key is the only one. -/
theorem mem_iff_find?_fst {κ α : Type} [DecidableEq κ] {entries : List (κ × α)}
    (h : (entries.map Prod.fst).Nodup) {key : κ} {value : α} :
    (key, value) ∈ entries ↔
      (entries.find? fun entry ↦ entry.1 = key).map Prod.snd = some value := by
  induction entries with
  | nil => simp
  | cons entry rest ih =>
    obtain ⟨hentry, hrest⟩ := List.nodup_cons.mp h
    by_cases heq : entry.1 = key
    · have hnot : (key, value) ∉ rest := fun hmem ↦
        hentry (List.mem_map.mpr ⟨(key, value), hmem, heq.symm⟩)
      have hpair : (key, value) = entry ↔ entry.2 = value := by
        rw [← heq, Prod.ext_iff]
        exact ⟨fun hsame ↦ hsame.2.symm, fun hsame ↦ ⟨rfl, hsame.symm⟩⟩
      simp [hnot, heq, hpair]
    · have hne : (key, value) ≠ entry := fun hsame ↦ heq (congrArg Prod.fst hsame).symm
      simp only [List.mem_cons, hne, false_or, List.find?_cons, heq, decide_false]
      exact ih hrest

namespace OrderedMap

variable {α : Type}

theorem mem_entries_iff {map : OrderedMap α} {key : String} {value : α} :
    (key, value) ∈ map.entries ↔ map.get? key = some value :=
  mem_iff_find?_fst map.nodup_keys

/-- Entries with different keys make up a map as they are. -/
theorem entries_ofList {entries : List (String × α)} (h : (entries.map Prod.fst).Nodup) :
    (ofList entries).entries = entries := by
  have hput {key : String} {before : List (String × α)} (value : α)
      (hnot : key ∉ before.map Prod.fst) : put key value before = before ++ [(key, value)] := by
    induction before with
    | nil => rfl
    | cons entry rest ih =>
      obtain ⟨hne, hrest⟩ := not_or.mp (mt List.mem_cons.mpr hnot)
      rw [put, if_neg (Ne.symm hne), ih hrest, List.cons_append]
  have hinsert (map : OrderedMap α) (hnodup : ((map.entries ++ entries).map Prod.fst).Nodup) :
      (map.insertAll entries).entries = map.entries ++ entries := by
    induction entries generalizing map with
    | nil => simp [insertAll]
    | cons entry rest ih =>
      obtain ⟨key, value⟩ := entry
      have hnot : key ∉ map.entries.map Prod.fst := by
        rw [List.map_append, List.nodup_append] at hnodup
        exact fun hmem ↦ hnodup.2.2 key hmem key List.mem_cons_self rfl
      have hentries : (map.insert key value).entries = map.entries ++ [(key, value)] :=
        hput value hnot
      have hrest : (rest.map Prod.fst).Nodup := (List.nodup_cons.mp h).2
      have hall := ih hrest (map.insert key value) (by simpa [hentries] using hnodup)
      rw [hentries, List.append_assoc] at hall
      exact hall
  exact hinsert empty h

/-! ## Inserting in two steps -/

variable {key other : String} {value value' : α} {entries : List (String × α)}

/-- What is inserted twice takes the later value. -/
theorem put_put (key : String) (value value' : α) (entries : List (String × α)) :
    put key value (put key value' entries) = put key value entries := by
  induction entries with
  | nil => simp [put]
  | cons entry rest ih =>
    by_cases h : entry.1 = key
    · simp [put, h]
    · simp [put, h, ih]

/-- A key that has its place can be given its value at any time. -/
theorem put_comm_of_mem (hne : other ≠ key) (hmem : key ∈ entries.map Prod.fst) :
    put other value' (put key value entries) = put key value (put other value' entries) := by
  induction entries with
  | nil => cases hmem
  | cons entry rest ih =>
    by_cases hkey : entry.1 = key
    · have hother : entry.1 ≠ other := fun h ↦ hne (h.symm.trans hkey)
      simp [put, hkey, hne.symm]
    · have hrest : key ∈ rest.map Prod.fst :=
        (List.mem_cons.mp hmem).resolve_left fun h ↦ hkey h.symm
      by_cases hother : entry.1 = other
      · simp [put, hother, hne]
      · simp [put, hkey, hother, ih hrest]

variable {map : OrderedMap α}

theorem insertAll_cons (map : OrderedMap α) (entry : String × α) (entries : List (String × α)) :
    map.insertAll (entry :: entries) = (map.insert entry.1 entry.2).insertAll entries := rfl

theorem insertAll_append (map : OrderedMap α) (first second : List (String × α)) :
    map.insertAll (first ++ second) = (map.insertAll first).insertAll second :=
  List.foldl_append

/-- A key that has its place can be given its value before other keys are inserted. -/
theorem insertAll_insert (hmem : key ∈ map.keys) (hnot : key ∉ entries.map Prod.fst) :
    (map.insert key value).insertAll entries = (map.insertAll entries).insert key value := by
  induction entries generalizing map with
  | nil => rfl
  | cons entry rest ih =>
    rw [List.map_cons, List.mem_cons, not_or] at hnot
    have hcomm : (map.insert key value).insert entry.1 entry.2 =
        (map.insert entry.1 entry.2).insert key value :=
      OrderedMap.ext (put_comm_of_mem (Ne.symm hnot.1) hmem)
    rw [insertAll_cons, insertAll_cons, hcomm]
    exact ih (mem_keys_insert.mpr (.inr hmem)) hnot.2

/-- Inserting entries one of which has been given a new value is inserting the value behind them. -/
theorem insertAll_put (map : OrderedMap α) (hnodup : (entries.map Prod.fst).Nodup) :
    map.insertAll (put key value entries) = (map.insertAll entries).insert key value := by
  induction entries generalizing map with
  | nil => rfl
  | cons entry rest ih =>
    obtain ⟨hentry, hrest⟩ := List.nodup_cons.mp hnodup
    unfold put
    split
    next heq =>
      subst heq
      have hlater : ((map.insert entry.1 entry.2).insert entry.1 value).insertAll rest =
          ((map.insert entry.1 entry.2).insertAll rest).insert entry.1 value :=
        insertAll_insert (mem_keys_insert.mpr (.inl rfl)) hentry
      have hsame : (map.insert entry.1 entry.2).insert entry.1 value = map.insert entry.1 value :=
        OrderedMap.ext (put_put entry.1 value entry.2 map.entries)
      rw [insertAll_cons, insertAll_cons, ← hlater, hsame]
    next => exact ih (map.insert entry.1 entry.2) hrest

/-- Inserting what a list of entries makes is inserting the list. -/
theorem insertAll_entries_ofList (map : OrderedMap α) (entries : List (String × α)) :
    map.insertAll (ofList entries).entries = map.insertAll entries := by
  have hfrom (start : OrderedMap α) : map.insertAll (start.insertAll entries).entries =
      (map.insertAll start.entries).insertAll entries := by
    induction entries generalizing start with
    | nil => rfl
    | cons entry rest ih =>
      rw [insertAll_cons, insertAll_cons, ih, ← insertAll_put map start.nodup_keys]
      rfl
  exact hfrom empty

/-! ## What a list of entries makes -/

theorem map_fst_put (key : String) (value : α) (entries : List (String × α)) :
    (put key value entries).map Prod.fst =
      if key ∈ entries.map Prod.fst then entries.map Prod.fst
      else entries.map Prod.fst ++ [key] := by
  induction entries with
  | nil => simp [put]
  | cons entry rest ih =>
    by_cases heq : entry.1 = key
    · simp [put, heq]
    · simp only [put, heq, if_false, List.map_cons, ih, List.mem_cons, Ne.symm heq, false_or]
      split <;> rfl

theorem keys_insert (map : OrderedMap α) (key : String) (value : α) :
    (map.insert key value).keys = if key ∈ map.keys then map.keys else map.keys ++ [key] :=
  map_fst_put key value map.entries

/-- The keys are those of the entries, in the order in which they come first. -/
theorem keys_ofList (entries : List (String × α)) :
    (ofList entries).keys = (entries.map Prod.fst).eraseDups := by
  have hinsert (map : OrderedMap α) : (map.insertAll entries).keys =
      map.keys ++ ((entries.map Prod.fst).filter (· ∉ map.keys)).eraseDups := by
    induction entries generalizing map with
    | nil => simp [insertAll]
    | cons entry rest ih =>
      rw [insertAll_cons, ih, keys_insert, List.map_cons]
      by_cases hmem : entry.1 ∈ map.keys
      · rw [if_pos hmem, List.filter_cons_of_neg (by simpa using hmem)]
      · rw [if_neg hmem, List.filter_cons_of_pos (by simpa using hmem), List.eraseDups_cons,
          List.filter_filter, List.append_assoc, List.singleton_append]
        congr 3
        refine List.filter_congr fun key _ ↦ ?_
        rw [Bool.eq_iff_iff]
        simp [and_comm]
  have hnone (key : String) : key ∉ (empty : OrderedMap α).keys := List.not_mem_nil
  rw [ofList, hinsert, List.filter_eq_self.mpr fun key _ ↦ decide_eq_true (hnone key)]
  rfl

/-- A key has the value of the last entry with this key. -/
theorem get?_ofList (entries : List (String × α)) (key : String) :
    (ofList entries).get? key =
      ((entries.filter fun entry ↦ entry.1 = key).getLast?).map Prod.snd := by
  have hinsert (map : OrderedMap α) : (map.insertAll entries).get? key =
      (((entries.filter fun entry ↦ entry.1 = key).getLast?).map Prod.snd).or (map.get? key) := by
    induction entries generalizing map with
    | nil => rfl
    | cons entry rest ih =>
      rw [insertAll_cons, ih, get?_insert]
      by_cases heq : entry.1 = key
      · rw [List.filter_cons_of_pos (by simpa using heq), List.getLast?_cons, if_pos heq.symm]
        cases (rest.filter fun entry ↦ entry.1 = key).getLast? <;> simp
      · rw [List.filter_cons_of_neg (by simpa using heq), if_neg (Ne.symm heq)]
  rw [ofList, hinsert, get?_empty, Option.or_none]

end OrderedMap

end SectionedConfig

/-!
# Maps in order of insertion

A map from texts that remembers the order in which its keys were first inserted. A key that is
inserted again keeps its place and takes the new value. `get?` is the view that everything else is
described by.
-/

namespace SectionedConfig

/-- Entries in order of insertion, no two with the same key. -/
@[ext]
structure OrderedMap (α : Type) where
  entries : List (String × α)
  nodup_keys : (entries.map Prod.fst).Nodup
deriving DecidableEq

namespace OrderedMap

variable {α : Type}

/-- Gives a key a value, where it stands or after all others. -/
def put (key : String) (value : α) : List (String × α) → List (String × α)
  | [] => [(key, value)]
  | entry :: rest => if entry.1 = key then (key, value) :: rest else entry :: put key value rest

theorem mem_map_fst_put {key other : String} {value : α} {entries : List (String × α)} :
    other ∈ (put key value entries).map Prod.fst ↔
      other = key ∨ other ∈ entries.map Prod.fst := by
  induction entries with
  | nil => simp [put]
  | cons entry rest ih =>
    unfold put
    split
    next h => simp [h]
    next h =>
      simp only [List.map_cons, List.mem_cons, ih]
      exact ⟨fun h ↦ by rcases h with h | h | h <;> simp [h],
        fun h ↦ by rcases h with h | h | h <;> simp [h]⟩

theorem nodup_map_fst_put (key : String) (value : α) {entries : List (String × α)}
    (h : (entries.map Prod.fst).Nodup) : ((put key value entries).map Prod.fst).Nodup := by
  induction entries with
  | nil => simp [put]
  | cons entry rest ih =>
    unfold put
    simp only [List.map_cons, List.nodup_cons] at h
    split
    next heq =>
      rw [List.map_cons, List.nodup_cons, ← heq]
      exact h
    next heq =>
      rw [List.map_cons, List.nodup_cons, mem_map_fst_put, not_or]
      exact ⟨⟨heq, h.1⟩, ih h.2⟩

/-- The map without entries. -/
def empty : OrderedMap α := ⟨[], List.nodup_nil⟩

/-- The number of entries. -/
def size (map : OrderedMap α) : Nat := map.entries.length

/-- The keys in order. -/
def keys (map : OrderedMap α) : List String := map.entries.map Prod.fst

/-- The values in the order of their keys. -/
def values (map : OrderedMap α) : List α := map.entries.map Prod.snd

/-- The value of a key. -/
def get? (map : OrderedMap α) (key : String) : Option α :=
  (map.entries.find? fun entry ↦ entry.1 = key).map Prod.snd

/-- Whether a key has a value. -/
def contains (map : OrderedMap α) (key : String) : Bool :=
  (map.get? key).isSome

/-- Gives a key a value. -/
def insert (map : OrderedMap α) (key : String) (value : α) : OrderedMap α :=
  ⟨put key value map.entries, nodup_map_fst_put key value map.nodup_keys⟩

/-- Takes a key and its value away. The others keep their order. -/
def erase (map : OrderedMap α) (key : String) : OrderedMap α :=
  ⟨map.entries.filter fun entry ↦ entry.1 ≠ key,
    map.nodup_keys.sublist (List.filter_sublist.map Prod.fst)⟩

/-- Inserts entries one after the other. -/
def insertAll (map : OrderedMap α) (entries : List (String × α)) : OrderedMap α :=
  entries.foldl (fun map entry ↦ map.insert entry.1 entry.2) map

/-- The map of a list of entries. -/
def ofList (entries : List (String × α)) : OrderedMap α :=
  empty.insertAll entries

/-- Two maps are equal if they give every key the same value; the order does not count. -/
def sameEntries [DecidableEq α] (first second : OrderedMap α) : Bool :=
  first.size = second.size && first.entries.all fun entry ↦ second.get? entry.1 = some entry.2

theorem keys_nodup (map : OrderedMap α) : map.keys.Nodup := map.nodup_keys

theorem mem_keys_insert {map : OrderedMap α} {key other : String} {value : α} :
    other ∈ (map.insert key value).keys ↔ other = key ∨ other ∈ map.keys :=
  mem_map_fst_put

@[simp]
theorem get?_empty (key : String) : (empty : OrderedMap α).get? key = none := rfl

theorem find?_put (key other : String) (value : α) (entries : List (String × α)) :
    ((put key value entries).find? fun entry ↦ entry.1 = other).map Prod.snd =
      if other = key then some value
      else (entries.find? fun entry ↦ entry.1 = other).map Prod.snd := by
  induction entries with
  | nil =>
    by_cases h : other = key
    · simp [put, h]
    · simp [put, h, Ne.symm h]
  | cons entry rest ih =>
    unfold put
    split
    next heq =>
      by_cases h : other = key
      · simp [h]
      · simp [h, heq, Ne.symm h]
    next heq =>
      by_cases h : entry.1 = other
      · have hother : other ≠ key := fun hkey ↦ heq (h.trans hkey)
        simp [h, hother]
      · simp [h, ih]

/-- An insertion is seen at its key and nowhere else. -/
@[simp]
theorem get?_insert (map : OrderedMap α) (key other : String) (value : α) :
    (map.insert key value).get? other = if other = key then some value else map.get? other :=
  find?_put key other value map.entries

end OrderedMap

end SectionedConfig

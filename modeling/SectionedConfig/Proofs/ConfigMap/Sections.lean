import SectionedConfig.Proofs.Name
import SectionedConfig.Proofs.OrderedMap

/-!
# Sections of a flat map

The fields of a section can be listed, and the value of a single field can be looked up under its
composed key. Listing cuts each key at its first separator, and looking up joins section and field,
so the two agree for names without a separator. A name with one has no fields: the first separator
of a key never stands inside its section. Every key with a separator thus belongs to one section,
and a key without any to none.
-/

namespace SectionedConfig.ConfigMap

variable {map : ConfigMap} {name field key : String} {value : Value}

/-! ## The fields of a section -/

/-- The field and the value of an entry whose key is cut at the name of a section. -/
def fieldOf? (name : String) (entry : String × Value) : Option (String × Value) :=
  (splitKey? entry.1).bind fun (sectionName, field) ↦
    if sectionName = name then some (field, entry.2) else none

theorem sectionEntries_eq (map : ConfigMap) (name : String) :
    map.sectionEntries name = map.entries.filterMap (fieldOf? name) := rfl

theorem fieldOf?_eq_some_iff {entry shown : String × Value} :
    fieldOf? name entry = some shown ↔
      keySeparator ∉ name.toList ∧ (composeKey name shown.1, shown.2) = entry := by
  obtain ⟨key, value⟩ := entry
  obtain ⟨field, found⟩ := shown
  rw [fieldOf?, Option.bind_eq_some_iff]
  constructor
  · rintro ⟨⟨sectionName, rest⟩, hsplit, hfield⟩
    obtain ⟨rfl, heq⟩ := Option.ite_none_right_eq_some.mp hfield
    obtain ⟨rfl, rfl⟩ := Prod.mk.inj (Option.some.inj heq)
    obtain ⟨hnot, rfl⟩ := splitKey?_eq_some_iff.mp hsplit
    exact ⟨hnot, rfl⟩
  · rintro ⟨hnot, heq⟩
    obtain ⟨rfl, rfl⟩ := Prod.mk.inj heq
    exact ⟨(name, field), splitKey?_eq_some_iff.mpr ⟨hnot, rfl⟩, if_pos rfl⟩

/-- A section has a field with the value that is found under the composed key, and no other. -/
theorem mem_sectionEntries_iff :
    (field, value) ∈ map.sectionEntries name ↔
      keySeparator ∉ name.toList ∧ map.getIn? name field = some value := by
  rw [sectionEntries_eq, List.mem_filterMap, getIn?, ← OrderedMap.mem_entries_iff]
  constructor
  · rintro ⟨entry, hentry, hshown⟩
    obtain ⟨hnot, rfl⟩ := fieldOf?_eq_some_iff.mp hshown
    exact ⟨hnot, hentry⟩
  · rintro ⟨hnot, hentry⟩
    exact ⟨_, hentry, fieldOf?_eq_some_iff.mpr ⟨hnot, rfl⟩⟩

/-- Under their composed keys, the fields of a section are entries of the map, in its order. -/
theorem sublist_sectionEntries (map : ConfigMap) (name : String) :
    ((map.sectionEntries name).map fun entry ↦ (composeKey name entry.1, entry.2)).Sublist
      map.entries := by
  rw [sectionEntries_eq]
  induction map.entries with
  | nil => exact .slnil
  | cons entry rest ih =>
    cases hshown : fieldOf? name entry with
    | none =>
      rw [List.filterMap_cons_none hshown]
      exact ih.cons entry
    | some shown =>
      rw [List.filterMap_cons_some hshown, List.map_cons, (fieldOf?_eq_some_iff.mp hshown).2]
      exact ih.cons_cons entry

/-- No section has two fields of one name. -/
theorem nodup_sectionEntries (map : ConfigMap) (name : String) :
    ((map.sectionEntries name).map Prod.fst).Nodup := by
  have hkeys : (((map.sectionEntries name).map Prod.fst).map (composeKey name)).Nodup := by
    have hsublist := (sublist_sectionEntries map name).map Prod.fst
    rw [List.map_map] at hsublist ⊢
    exact map.nodup_keys.sublist hsublist
  exact List.Pairwise.of_map (composeKey name) (fun _ _ hne heq ↦ hne (congrArg _ heq)) hkeys

/-! ## The section of an entry -/

/-- A section shows the entry of a key if it has other fields once the entry is taken out. -/
def Shows (map : ConfigMap) (name key : String) : Prop :=
  sectionEntries (map.erase key) name ≠ map.sectionEntries name

/-- What is taken out of a map is gone from its section, and all other fields stay. -/
theorem sectionEntries_erase (map : ConfigMap) (name key : String) :
    sectionEntries (map.erase key) name =
      (map.sectionEntries name).filter fun shown ↦ composeKey name shown.1 ≠ key := by
  rw [sectionEntries_eq, sectionEntries_eq, OrderedMap.erase, List.filterMap_filter,
    List.filter_filterMap]
  congr 1
  funext entry
  cases hshown : fieldOf? name entry with
  | none => simp
  | some shown =>
    obtain ⟨_, rfl⟩ := fieldOf?_eq_some_iff.mp hshown
    simp [Option.filter_some]

/-- A section shows the entries whose keys are composed of its name and a field. -/
theorem shows_iff :
    map.Shows name key ↔
      keySeparator ∉ name.toList ∧ key ∈ map.keys ∧ ∃ field, key = composeKey name field := by
  rw [Shows, sectionEntries_erase, Ne, List.filter_eq_self]
  constructor
  · intro h
    simp only [not_forall, decide_eq_true_eq, not_not] at h
    obtain ⟨⟨field, value⟩, hshown, rfl⟩ := h
    obtain ⟨hnot, hfound⟩ := mem_sectionEntries_iff.mp hshown
    exact ⟨hnot, List.mem_map_of_mem (OrderedMap.mem_entries_iff.mpr hfound), field, rfl⟩
  · rintro ⟨hnot, hkey, field, rfl⟩ hall
    obtain ⟨⟨_, value⟩, hentry, rfl⟩ := List.mem_map.mp hkey
    have hshown := mem_sectionEntries_iff.mpr ⟨hnot, OrderedMap.mem_entries_iff.mp hentry⟩
    exact absurd rfl (of_decide_eq_true (hall _ hshown))

/-- A section without a separator in its name has the fields whose values are found under the
composed keys, each of them once and in the order of the map. The entry of a key without a separator
is shown by no section, and the entry of any other key by exactly one. -/
theorem sectionEntries_outcome (map : ConfigMap) :
    (∀ name, keySeparator ∉ name.toList →
      (∀ field value,
        (field, value) ∈ map.sectionEntries name ↔ map.getIn? name field = some value) ∧
      ((map.sectionEntries name).map Prod.fst).Nodup ∧
      ((map.sectionEntries name).map fun shown ↦ (composeKey name shown.1, shown.2)).Sublist
        map.entries) ∧
    ∀ key ∈ map.keys,
      (keySeparator ∉ key.toList → ∀ name, ¬ map.Shows name key) ∧
      (keySeparator ∈ key.toList → ∃! name, map.Shows name key) := by
  refine ⟨fun name hname ↦ ⟨fun field value ↦ ?_, nodup_sectionEntries map name,
    sublist_sectionEntries map name⟩, fun key hkey ↦ ⟨fun hnot name hshown ↦ ?_, fun hmem ↦ ?_⟩⟩
  · rw [mem_sectionEntries_iff, and_iff_right hname]
  · obtain ⟨_, _, field, rfl⟩ := shows_iff.mp hshown
    exact hnot (by simp [toList_composeKey, keySeparator])
  · obtain ⟨⟨name, field⟩, hsplit⟩ := Option.ne_none_iff_exists'.mp
      (mt splitKey?_eq_none_iff.mp (not_not.mpr hmem))
    obtain ⟨hname, hcomposed⟩ := splitKey?_eq_some_iff.mp hsplit
    refine ⟨name, shows_iff.mpr ⟨hname, hkey, field, hcomposed⟩, fun other hshown ↦ ?_⟩
    -- A key is cut at one place only.
    obtain ⟨hother, _, rest, hcomposed'⟩ := shows_iff.mp hshown
    have hsplit' := splitKey?_eq_some_iff.mpr ⟨hother, hcomposed'⟩
    rw [hsplit] at hsplit'
    exact (Prod.mk.inj (Option.some.inj hsplit')).1.symm

/-- A field with a separator, one with an empty name, a section with an empty name, and a bare key
that is the name of a section. -/
theorem sectionEntries_outcome_separators :
    ∃ map : ConfigMap, map.keys = ["a/b/c", "a", "/a", "a/", "a/b"] ∧
      keySeparator ∉ "a".toList ∧ map.sectionEntries "a" =
        [("b/c", .int64 1), ("", .string "x"), ("b", .emptyList)] ∧
      (∀ field value,
        (field, value) ∈ map.sectionEntries "a" ↔ map.getIn? "a" field = some value) ∧
      (∀ name, ¬ map.Shows name "a") ∧ (∃! name, map.Shows name "/a") ∧
      ∃! name, map.Shows name "a/b/c" := by
  let map : ConfigMap := .ofList [("a/b/c", .int64 1), ("a", .int64 2), ("/a", .int64 3),
    ("a/", .string "x"), ("a/b", .emptyList)]
  have hkeys : map.keys = ["a/b/c", "a", "/a", "a/", "a/b"] := by decide +kernel
  obtain ⟨hsections, hentries⟩ := sectionEntries_outcome map
  have hentry (key : String) (hkey : key ∈ ["a/b/c", "a", "/a", "a/", "a/b"]) :=
    hentries key (hkeys ▸ hkey)
  exact ⟨map, hkeys, by decide, by decide +kernel, (hsections "a" (by decide)).1,
    (hentry "a" (by decide)).1 (by decide), (hentry "/a" (by decide)).2 (by decide),
    (hentry "a/b/c" (by decide)).2 (by decide)⟩

end SectionedConfig.ConfigMap

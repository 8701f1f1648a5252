import Mathlib.Data.List.Nodup
import SectionedConfig.Proofs.Value.Encoding

/-!
# Decoding an encoded map

A map that can be encoded is decoded from its text with nothing lost: the same keys, each with its
value, whatever the header says and whatever the order of the map was. The entries come back in the
order of their places, and a list without items comes back as the empty list.
-/

namespace SectionedConfig

/-- Different named places have different keys. -/
theorem Index.nodup_keys {α : Type} (index : Index α)
    (hnamed : ∀ entry ∈ index.entries, entry.1.Named) :
    (index.entries.map fun entry ↦ entry.1.key).Nodup := by
  have hinjective : ∀ first ∈ index.entries.map Prod.fst, ∀ second ∈ index.entries.map Prod.fst,
      first.key = second.key → first = second := by
    intro first hfirst second hsecond
    obtain ⟨entry, hentry, rfl⟩ := List.mem_map.mp hfirst
    obtain ⟨other, hother, rfl⟩ := List.mem_map.mp hsecond
    exact Place.key_inj (hnamed entry hentry) (hnamed other hother)
  have hkeys := index.nodup_places.map_on hinjective
  rwa [List.map_map] at hkeys

namespace ConfigMap

/-- The keys of a map stand for places in increasing order. -/
def Increasing (map : ConfigMap) : Prop :=
  map.keys.Pairwise fun first second ↦ ∃ place other,
    placeOfKey first = .ok place ∧ placeOfKey second = .ok other ∧ place.Before other

/-- Where the keys of entries can be placed, they are the composed keys of named places. -/
theorem eq_map_of_placed {entries : List (String × Value)} {placed : List (Place × Value)}
    (h : (entries.mapM fun entry ↦ (placeOfKey entry.1).map fun place ↦ (place, entry.2)) =
      .ok placed) :
    (∀ entry ∈ placed, entry.1.Named) ∧
      entries = placed.map fun entry ↦ (entry.1.key, entry.2) := by
  have hpairs := mapM_eq_ok_iff.mp h
  clear h
  induction hpairs with
  | nil => simp
  | cons hfirst _ ih =>
    obtain ⟨place, hplace, rfl⟩ := map_eq_ok_iff.mp hfirst
    obtain ⟨hnamed, hkey⟩ := placeOfKey_eq_ok_iff.mp hplace
    obtain ⟨hrest, rfl⟩ := ih
    refine ⟨List.forall_mem_cons.mpr ⟨hnamed, hrest⟩, ?_⟩
    rw [List.map_cons, ← hkey]

/-- The index of a map has the entries of the map, each at the place of its key. -/
theorem index_spec {map : ConfigMap} {index : Index Value} (h : map.index = .ok index) :
    (∀ entry ∈ index.entries, entry.1.Named) ∧
      ∀ key value, (key, value) ∈ map.entries ↔
        ∃ place, (place, value) ∈ index.entries ∧ key = place.key := by
  obtain ⟨placed, hplaced, rfl⟩ := map_eq_ok_iff.mp h
  obtain ⟨hnamed, hmap⟩ := eq_map_of_placed hplaced
  have hnodup : (placed.map Prod.fst).Nodup := by
    have hkeys := map.nodup_keys
    rw [hmap, List.map_map] at hkeys
    apply List.Nodup.of_map Place.key
    rwa [List.map_map]
  have hmem (place : Place) (value : Value) :
      (place, value) ∈
        (placed.foldl (fun index entry ↦ index.insert entry.1 entry.2) Index.empty).entries ↔
          (place, value) ∈ placed :=
    Index.mem_entries_iff.trans (Index.get?_foldl_insert hnodup)
  constructor
  · intro entry hentry
    exact hnamed entry ((hmem entry.1 entry.2).mp hentry)
  · intro key value
    rw [hmap, List.mem_map]
    constructor
    · rintro ⟨entry, hentry, heq⟩
      obtain ⟨rfl, rfl⟩ := Prod.mk.inj heq
      exact ⟨entry.1, (hmem entry.1 entry.2).mpr hentry, rfl⟩
    · rintro ⟨place, hplace, rfl⟩
      exact ⟨(place, value), (hmem place value).mp hplace, rfl⟩

/-- A map has an index if its keys stand for places. -/
theorem exists_index {map : ConfigMap}
    (h : ∀ entry ∈ map.entries, ∃ place : Place, place.Named ∧ entry.1 = place.key) :
    ∃ index, map.index = .ok index := by
  have hplace : ∀ entry ∈ map.entries,
      ∃ result, (placeOfKey entry.1).map (fun place ↦ (place, entry.2)) = .ok result := by
    intro entry hentry
    obtain ⟨place, hnamed, hkey⟩ := h entry hentry
    rw [placeOfKey_eq_ok_iff.mpr ⟨hnamed, hkey⟩]
    exact ⟨(place, entry.2), rfl⟩
  obtain ⟨placed, hplaced⟩ := exists_mapM_eq_ok hplace
  exact ⟨_, map_eq_ok_iff.mpr ⟨placed, hplaced, rfl⟩⟩

/-- The entries of a map settle its index, whatever their order. -/
theorem index_eq_ok {map : ConfigMap} {index : Index Value}
    (hnamed : ∀ entry ∈ index.entries, entry.1.Named)
    (hentries : ∀ key value, (key, value) ∈ map.entries ↔
      ∃ place, (place, value) ∈ index.entries ∧ key = place.key) :
    map.index = .ok index := by
  have hplaced : ∀ entry ∈ map.entries, ∃ place : Place, place.Named ∧ entry.1 = place.key := by
    rintro ⟨key, value⟩ hentry
    obtain ⟨place, hplace, hkey⟩ := (hentries key value).mp hentry
    exact ⟨place, hnamed _ hplace, hkey⟩
  obtain ⟨found, hfound⟩ := exists_index hplaced
  obtain ⟨hnamed', hentries'⟩ := index_spec hfound
  rw [hfound]
  apply congrArg Except.ok
  apply Index.eq_of_mem_iff
  rintro ⟨place, value⟩
  constructor
  · intro hplace
    obtain ⟨other, hother, hkey⟩ :=
      (hentries place.key value).mp ((hentries' place.key value).mpr ⟨place, hplace, rfl⟩)
    obtain rfl := Place.key_inj (hnamed' _ hplace) (hnamed _ hother) hkey
    exact hother
  · intro hplace
    obtain ⟨other, hother, hkey⟩ :=
      (hentries' place.key value).mp ((hentries place.key value).mpr ⟨place, hplace, rfl⟩)
    obtain rfl := Place.key_inj (hnamed _ hplace) (hnamed' _ hother) hkey
    exact hother

/-! ## The decoded map -/

/-- The map that the text of an index is decoded as. -/
def ofIndex (index : Index Value) : ConfigMap :=
  .ofList (index.entries.map fun entry ↦ (entry.1.key, entry.2.canonical))

variable {index : Index Value}

/-- The decoded map has one entry for each place. -/
theorem entries_ofIndex (hnamed : ∀ entry ∈ index.entries, entry.1.Named) :
    (ofIndex index).entries =
      index.entries.map fun entry ↦ (entry.1.key, entry.2.canonical) := by
  apply OrderedMap.entries_ofList
  have hkeys := index.nodup_keys hnamed
  rwa [List.map_map]

theorem increasing_ofIndex (hnamed : ∀ entry ∈ index.entries, entry.1.Named) :
    Increasing (ofIndex index) := by
  have hplaced : ∀ entry ∈ index.entries, placeOfKey entry.1.key = .ok entry.1 :=
    fun entry hentry ↦ placeOfKey_eq_ok_iff.mpr ⟨hnamed entry hentry, rfl⟩
  rw [Increasing, OrderedMap.keys, entries_ofIndex hnamed, List.map_map, List.pairwise_map]
  apply index.increasing.imp_of_mem
  intro first second hfirst hsecond hbefore
  exact ⟨first.1, second.1, hplaced first hfirst, hplaced second hsecond, hbefore⟩

theorem get?_ofIndex {map : ConfigMap} (h : map.index = .ok index) (key : String) :
    (ofIndex index).get? key = (map.get? key).map Value.canonical := by
  obtain ⟨hnamed, hentries⟩ := index_spec h
  ext value
  rw [← OrderedMap.mem_entries_iff, entries_ofIndex hnamed, List.mem_map, Option.map_eq_some_iff]
  constructor
  · rintro ⟨⟨place, found⟩, hmem, heq⟩
    obtain ⟨rfl, rfl⟩ := Prod.mk.inj heq
    have hkey := (hentries place.key found).mpr ⟨place, hmem, rfl⟩
    exact ⟨found, OrderedMap.mem_entries_iff.mp hkey, rfl⟩
  · rintro ⟨found, hfound, rfl⟩
    obtain ⟨place, hmem, rfl⟩ := (hentries key found).mp (OrderedMap.mem_entries_iff.mpr hfound)
    exact ⟨(place, found), hmem, rfl⟩

/-- A map that can be encoded is decoded from its text, whatever its header: every key has the value
that it had, but for lists without items, and the entries are in the order of their places. -/
theorem ofText_encode {map : ConfigMap} {header : Option String} {text : String}
    (h : map.encode header = .ok text) :
    ∃ decoded, ofText text = .ok decoded ∧
      (∀ key, decoded.get? key = (map.get? key).map Value.canonical) ∧ Increasing decoded := by
  obtain ⟨document, hdocument, hrender⟩ := bind_eq_ok_iff.mp h
  obtain ⟨index, hindex, hdocument⟩ := bind_eq_ok_iff.mp hdocument
  obtain ⟨hnamed, _⟩ := index_spec hindex
  have hencode : ∀ field (value : Value) statement, value.encode field = .ok statement →
      value.ReadsBack ∧ statement = .assign field value.form.token :=
    fun _ _ _ ↦ Value.encode_eq_ok
  obtain ⟨hvalues, rfl⟩ := eq_text_of_encode hencode hdocument hrender
  have hforms : ∀ entry ∈ index.entries, entry.2.form.WellFormed :=
    fun entry hentry ↦ (hvalues entry hentry).writable.wellFormed
  have hentry : ∀ entry ∈ index.entries, ∀ assignment : Assignment,
      assignment.States (entry.1, entry.2.form) →
        assignment.entry = .ok (entry.1.key, entry.2.canonical) :=
    fun entry hmem assignment hstates ↦ hstates.entry_eq (hvalues entry hmem)
  obtain ⟨tokens, htokens, hread⟩ := exists_traverse_ofIndex header hnamed hforms hentry
  have hdecoded : ofText (String.ofList (Sheet.ofIndex header (index.map Value.form)).text) =
      .ok (ofIndex index) := by
    rw [ofText, ofStream, htokens]
    simp only [Except.bind, ofTokens, hread, Except.map, ofIndex]
  exact ⟨ofIndex index, hdecoded, get?_ofIndex hindex, increasing_ofIndex hnamed⟩

/-- A header that looks like a brace and an assignment, marks in strings and items, and a list
without items. -/
theorem ofText_encode_marks :
    ∃ text decoded,
      encode (some " \x7d\nk = 1") (.ofList [("z/s", .string " a#\x7b="), ("a/l", .list ["", "#"]),
        ("a/e", .list [])]) = .ok text ∧ ofText text = .ok decoded ∧
      decoded.get? "z/s" = some (.string " a#\x7b=") ∧
      decoded.get? "a/l" = some (.list ["", "#"]) ∧ decoded.get? "a/e" = some .emptyList ∧
      decoded.get? "k" = none := by
  have hencode : encode (some " \x7d\nk = 1") (.ofList [("z/s", .string " a#\x7b="),
      ("a/l", .list ["", "#"]), ("a/e", .list [])]) =
        .ok ("# \x7d\n# k = 1\na \x7b\n\te = []\n\tl = [\"\", \"#\"]\n\x7d\n" ++
          "z \x7b\n\ts = \" a#\x7b=\"\n\x7d\n") := by
    decide +kernel
  obtain ⟨decoded, hdecoded, hget, _⟩ := ofText_encode hencode
  refine ⟨_, decoded, hencode, hdecoded, ?_, ?_, ?_, ?_⟩
  · rw [hget]
    decide
  · rw [hget]
    decide
  · rw [hget]
    decide
  · rw [hget]
    decide

end ConfigMap

end SectionedConfig

import SectionedConfig.Proofs.ConfigMap.RoundTrip
import SectionedConfig.Proofs.Registry.Indexing
import SectionedConfig.Proofs.Registry.Updates

/-!
# Encoding a target as a flat map

What the bound slots of a target hold makes up a flat map with one entry for each place. Encoding
the target and encoding that map give the same result, whatever the order of the map, unless a
string contains an opening bracket: the index of the map has the places of the registry, so both
encoders go through the same sections and fields, and their checks agree on every value.
-/

namespace SectionedConfig

variable {Target : Type}

namespace Slot

variable {slot : Slot Target} {target : Target} {field : String}

/-- Both encoders agree on what a slot holds, unless it is a string that looks like a list. -/
theorem encode_read (h : ∀ text, slot.read target = .string text → '[' ∉ text.toList) :
    (slot.read target).encode field = slot.encode target field := by
  cases slot with
  | int64 get set => rfl
  | string get set =>
    have hbracket : '[' ∉ (get target).toList := h (get target) rfl
    change Value.encode field (.string (get target)) = encodeString field (get target)
    cases hfault : textFault? (get target) with
    | some fault => simp only [Value.encode, encodeString, hfault]
    | none => simp only [Value.encode, encodeString, hfault, if_neg hbracket]

/-- A slot is refused for the value that it holds, and for nothing else. -/
theorem exists_of_encode_eq_error {error : Error} (h : slot.encode target field = .error error) :
    ∃ reason, error = .unsupportedValue field reason := by
  cases slot with
  | int64 get set => cases h
  | string get set =>
    change encodeString field (get target) = .error error at h
    unfold encodeString at h
    cases hfault : textFault? (get target) with
    | some fault =>
      rw [hfault] at h
      exact ⟨fault.message, (Except.error.inj h).symm⟩
    | none =>
      rw [hfault] at h
      cases h

end Slot

namespace Registry

variable {registry : Registry Target} {target : Target}

/-- What the bound slots of a target hold, each at the key of its place. -/
def flatEntries (registry : Registry Target) (target : Target) : List (String × Value) :=
  registry.entries.map fun entry ↦ (entry.1.key, entry.2.read target)

/-- The map of these entries, in any order, has an index with the places of the registry. -/
theorem index_of_perm (hnamed : ∀ entry ∈ registry.entries, entry.1.Named)
    {entries : List (String × Value)} (h : entries.Perm (registry.flatEntries target)) :
    ConfigMap.index (.ofList entries) = .ok (registry.map (Slot.read target)) := by
  have hkeys : (entries.map Prod.fst).Nodup := by
    rw [(h.map Prod.fst).nodup_iff, flatEntries, List.map_map]
    exact registry.nodup_keys hnamed
  have hmem (key : String) (value : Value) : (key, value) ∈ (OrderedMap.ofList entries).entries ↔
      ∃ bound ∈ registry.entries, bound.1.key = key ∧ bound.2.read target = value := by
    rw [OrderedMap.entries_ofList hkeys, h.mem_iff, flatEntries, List.mem_map]
    simp only [Prod.mk.injEq]
  refine ConfigMap.index_eq_ok ?_ fun key value ↦ ?_
  · intro entry hentry
    obtain ⟨bound, hbound, rfl⟩ := List.mem_map.mp hentry
    exact hnamed bound hbound
  · rw [hmem]
    constructor
    · rintro ⟨bound, hbound, rfl, rfl⟩
      exact ⟨bound.1, List.mem_map_of_mem hbound, rfl⟩
    · rintro ⟨place, hplace, rfl⟩
      obtain ⟨bound, hbound, heq⟩ := List.mem_map.mp hplace
      obtain ⟨rfl, rfl⟩ := Prod.mk.inj heq
      exact ⟨bound, hbound, rfl, rfl⟩

/-- Both encoders agree on the sections of a registry whose strings do not look like lists. -/
theorem mapM_encodeSection_map
    (hplain : ∀ entry ∈ registry.entries, ∀ text, entry.2.read target = .string text →
      '[' ∉ text.toList) :
    (registry.map (Slot.read target)).sections.mapM ConfigMap.encodeSection =
      registry.sections.mapM (encodeSection target) := by
  rw [Index.sections_map, List.mapM_map]
  apply mapM_congr
  intro block hblock
  have hfields : (Index.mapBlock (Slot.read target) block).2.mapM
      (fun (entry : String × Value) ↦ entry.2.encode entry.1) =
        block.2.mapM fun (entry : String × Slot Target) ↦ entry.2.encode target entry.1 := by
    rw [Index.mapBlock, List.mapM_map]
    apply mapM_congr
    intro entry hentry
    exact Slot.encode_read (hplain _ (Index.mem_entries_of_mem_sections hblock hentry))
  rw [Function.comp_apply, ConfigMap.encodeSection, hfields]
  rfl

/-- A target is refused for what a slot holds, and for nothing else: what has passed the checks of
the slots is rendered. -/
theorem exists_of_encode_eq_error {header : Option String} {error : Error}
    (h : registry.encode header target = .error error) :
    ∃ field reason, error = .unsupportedValue field reason := by
  rcases bind_eq_error_iff.mp h with hdocument | ⟨document, hdocument, hrender⟩
  · obtain ⟨block, _, hblock⟩ := exists_of_mapM_eq_error (map_eq_error_iff.mp hdocument)
    obtain ⟨entry, _, hentry⟩ := exists_of_mapM_eq_error (map_eq_error_iff.mp hblock)
    exact ⟨entry.1, Slot.exists_of_encode_eq_error hentry⟩
  · have hencode : ∀ field (slot : Slot Target) statement,
        slot.encode target field = .ok statement → (slot.form target).WellFormed ∧
          statement = .assign field (slot.form target).token :=
      fun _ _ _ ↦ Slot.encode_eq_ok
    obtain ⟨sections, hsections, rfl⟩ := map_eq_ok_iff.mp hdocument
    obtain ⟨_, rfl⟩ := eq_blockStatements_of_mapM hencode hsections
    rw [render_ofSections] at hrender
    cases hrender

end Registry

/-- Encoding a target with the registry of its schema is encoding the map of what its bound slots
hold, inserted in any order, unless one of them holds a string with an opening bracket. Both give
the same text or the same error, which is that of an unsupported value. -/
theorem Registry.encode_eq_encode_ofList {schema : Schema Target} {registry : Registry Target}
    (hregistry : schema.registry = .ok registry) (header : Option String) {target : Target}
    {inserted : List (String × Value)} (hinserted : inserted.Perm (registry.flatEntries target))
    (hplain : ∀ entry ∈ registry.entries, ∀ text, entry.2.read target = .string text →
      '[' ∉ text.toList) :
    registry.encode header target = ConfigMap.encode header (.ofList inserted) ∧
      ∀ error, registry.encode header target = .error error →
        ∃ field reason, error = .unsupportedValue field reason := by
  have hnamed : ∀ entry ∈ registry.entries, entry.1.Named := fun entry hentry ↦
    schema.named_of_registry hregistry
      ((schema.get?_registry hregistry).mp (Index.mem_entries_iff.mp hentry))
  refine ⟨?_, fun error ↦ exists_of_encode_eq_error⟩
  unfold ConfigMap.encode ConfigMap.toDocument
  rw [index_of_perm hnamed hinserted, encode, toDocument, ← mapM_encodeSection_map hplain]
  rfl

/-- Two sections in the wrong order. A quotation mark is refused although a later section holds a
line feed, and without them the blocks are sorted. -/
theorem Registry.encode_eq_encode_ofList_unsorted :
    ∃ (schema : Schema Table) (registry : Registry Table), schema.registry = .ok registry ∧
      registry.encode (some "h") ((Table.blank.setString (0, 0) "x\ny").setString (1, 0) "\"") =
        ConfigMap.encode (some "h")
          (.ofList [("t/k", .string "x\ny"), ("s/k", .string "\""), ("s/n", .int64 0)]) ∧
      registry.encode (some "h") ((Table.blank.setString (0, 0) "x\ny").setString (1, 0) "\"") =
        .error (.unsupportedValue "k" "string contains a quote") ∧
      registry.encode (some "h") ((Table.blank.setString (0, 0) "").setString (1, 0) "#") =
        ConfigMap.encode (some "h")
          (.ofList [("s/n", .int64 0), ("t/k", .string ""), ("s/k", .string "#")]) ∧
      registry.encode (some "h") ((Table.blank.setString (0, 0) "").setString (1, 0) "#") =
        .ok "# h\ns \x7b\n\tk = \"#\"\n\tn = 0\n\x7d\nt \x7b\n\tk = \"\"\n\x7d\n" := by
  let schema : Schema Table := ⟨[⟨"t", [⟨"k", .slot (Table.slot .string (0, 0)), false⟩], false⟩,
    ⟨"s", [⟨"n", .slot (Table.slot .int64 (1, 1)), false⟩,
      ⟨"k", .slot (Table.slot .string (1, 0)), false⟩], false⟩]⟩
  let registry : Registry Table := ((Index.empty.insert ⟨"t", "k"⟩
    (Table.slot .string (0, 0))).insert ⟨"s", "n"⟩ (Table.slot .int64 (1, 1))).insert ⟨"s", "k"⟩
      (Table.slot .string (1, 0))
  have hregistry : schema.registry = .ok registry := rfl
  have hentries : registry.entries = [(⟨"s", "k"⟩, Table.slot .string (1, 0)),
      (⟨"s", "n"⟩, Table.slot .int64 (1, 1)), (⟨"t", "k"⟩, Table.slot .string (0, 0))] := rfl
  have hagree {first second : String} (hfirst : '[' ∉ first.toList) (hsecond : '[' ∉ second.toList)
      {inserted : List (String × Value)} (hinserted : inserted.Perm
        [("s/k", .string second), ("s/n", .int64 0), ("t/k", .string first)]) :
      registry.encode (some "h") ((Table.blank.setString (0, 0) first).setString (1, 0) second) =
        ConfigMap.encode (some "h") (.ofList inserted) := by
    refine (Registry.encode_eq_encode_ofList hregistry (some "h") hinserted ?_).1
    rw [hentries]
    simp [Table.slot, Slot.read, Table.setString, hfirst, hsecond]
  exact ⟨schema, registry, hregistry, hagree (by decide) (by decide) (by decide),
    by decide +kernel, hagree (by decide) (by decide) (by decide), by decide +kernel⟩

end SectionedConfig

import Mathlib.Data.List.Nodup
import SectionedConfig.Proofs.Index
import SectionedConfig.Proofs.Registry.Declarations
import SectionedConfig.Registry.Decoding
import SectionedConfig.Table

/-!
# Registries as indexes of declarations

The registry of a schema can be built if every declaration is good in itself and no place is
declared twice. If not, the first declaration that is bad in itself is reported rather than a place
that is declared twice. A registry lists every declared slot once, in the order of the places, so it
does not depend on the order of the declarations. These are the slots that the schema binds. In a
table they are separate if the registry gives them numbers of their own.
-/

namespace SectionedConfig

variable {Target : Type} {schema other : Schema Target} {error : Error}

/-- The error that a schema is rejected with. -/
inductive Schema.Rejected (schema : Schema Target) : Error → Prop where
  /-- The first declaration that is bad in itself. -/
  | fault {before after : List (Declaration Target)} {declaration : Declaration Target}
      {error : Error} (hdeclarations : schema.declarations = before ++ declaration :: after)
      (hbefore : ∀ earlier ∈ before, ∀ other, ¬ earlier.Fault other)
      (hfault : declaration.Fault error) : Rejected schema error
  /-- The first slot at the place of an earlier one, if all declarations are good in themselves. -/
  | duplicate {before after : List (Binding Target)} {binding : Binding Target}
      (hbindable : schema.Bindable) (hdeclared : schema.declared = before ++ binding :: after)
      (hbefore : (before.map Prod.fst).Nodup) (hrepeated : binding.1 ∈ before.map Prod.fst) :
      Rejected schema (.duplicateBinding binding.1.sectionName binding.1.field)

/-- The registry lists the declared slots, each once, in the order of their places, and its views
agree with that list. -/
structure Registry.Indexes (registry : Registry Target) (declared : List (Binding Target)) :
    Prop where
  perm : registry.entries.Perm declared
  increasing : registry.entries.Pairwise fun first second ↦ first.1.Before second.1
  get?_eq_some_iff : ∀ place slot, registry.get? place = some slot ↔ (place, slot) ∈ declared
  size_eq : registry.size = declared.length
  increasing_sectionNames : registry.sectionNames.Pairwise (· < ·)
  mem_sectionNames_iff : ∀ name, name ∈ registry.sectionNames ↔
    ∃ entry ∈ registry.entries, entry.1.sectionName = name
  fieldsOf_eq : ∀ name, registry.fieldsOf name =
    (registry.entries.filter fun entry ↦ entry.1.sectionName = name).map
      fun entry ↦ (entry.1.field, entry.2)

/-! ## Adding bindings -/

namespace Registry

variable {registry : Registry Target} {binding : Binding Target} {bindings : List (Binding Target)}

theorem add_eq_error_iff :
    registry.add binding = .error error ↔ (∃ slot, registry.get? binding.1 = some slot) ∧
      error = .duplicateBinding binding.1.sectionName binding.1.field := by
  unfold add
  cases registry.get? binding.1 with
  | none => simp
  | some slot => simp [eq_comm]

theorem add_eq_ok_iff {after : Registry Target} :
    registry.add binding = .ok after ↔
      registry.get? binding.1 = none ∧ after = registry.insert binding.1 binding.2 := by
  unfold add
  cases registry.get? binding.1 with
  | none => simp [eq_comm]
  | some slot => simp

/-- Bindings are added to a registry at places that were free, so all of them are kept. -/
theorem get?_of_foldlM_add {before after : Registry Target} {place : Place} {slot : Slot Target}
    (h : bindings.foldlM add before = .ok after) :
    after.get? place = some slot ↔
      (place, slot) ∈ bindings ∨ before.get? place = some slot := by
  induction bindings generalizing before with
  | nil =>
    cases h
    simp
  | cons binding rest ih =>
    rw [List.foldlM_cons] at h
    obtain ⟨between, hadd, hrest⟩ := bind_eq_ok_iff.mp h
    obtain ⟨hfree, rfl⟩ := add_eq_ok_iff.mp hadd
    obtain ⟨first, bound⟩ := binding
    rw [ih hrest, Index.get?_insert, List.mem_cons]
    by_cases heq : place = first
    · subst heq
      simp [hfree, or_comm, eq_comm]
    · simp [heq]

/-- Bindings can be added if their places are free and different from each other. -/
theorem exists_foldlM_add_iff :
    (∃ after, bindings.foldlM add registry = .ok after) ↔
      (bindings.map Prod.fst).Nodup ∧ ∀ binding ∈ bindings, registry.get? binding.1 = none := by
  induction bindings generalizing registry with
  | nil => exact iff_of_true ⟨registry, rfl⟩ ⟨List.nodup_nil, nofun⟩
  | cons binding rest ih =>
    -- What is added takes a place away from the bindings behind it.
    have hinsert (other : Place) : (registry.insert binding.1 binding.2).get? other = none ↔
        other ≠ binding.1 ∧ registry.get? other = none := by
      rw [Index.get?_insert]
      split <;> simp [*]
    rw [List.foldlM_cons, List.map_cons, List.nodup_cons, List.forall_mem_cons]
    constructor
    · rintro ⟨after, h⟩
      obtain ⟨next, hadd, hrest⟩ := bind_eq_ok_iff.mp h
      obtain ⟨hfree, rfl⟩ := add_eq_ok_iff.mp hadd
      obtain ⟨hnodup, hplaces⟩ := ih.mp ⟨after, hrest⟩
      refine ⟨⟨fun hmem ↦ ?_, hnodup⟩, hfree, fun other hother ↦ ?_⟩
      · obtain ⟨other, hother, heq⟩ := List.mem_map.mp hmem
        exact ((hinsert other.1).mp (hplaces other hother)).1 heq
      · exact ((hinsert other.1).mp (hplaces other hother)).2
    · rintro ⟨⟨hnot, hnodup⟩, hfree, hplaces⟩
      obtain ⟨after, hafter⟩ := ih.mpr ⟨hnodup, fun other hother ↦ (hinsert other.1).mpr
        ⟨fun heq ↦ hnot (List.mem_map.mpr ⟨other, hother, heq⟩), hplaces other hother⟩⟩
      exact ⟨after, bind_eq_ok_iff.mpr ⟨_, add_eq_ok_iff.mpr ⟨hfree, rfl⟩, hafter⟩⟩

theorem exists_ofBindings_iff :
    (∃ registry, ofBindings bindings = .ok registry) ↔ (bindings.map Prod.fst).Nodup := by
  refine exists_foldlM_add_iff.trans (and_iff_left fun binding _ ↦ ?_)
  exact Index.get?_empty binding.1

theorem get?_of_ofBindings (h : ofBindings bindings = .ok registry) {place : Place}
    {slot : Slot Target} : registry.get? place = some slot ↔ (place, slot) ∈ bindings := by
  simp [get?_of_foldlM_add h]

/-- The first binding at the place of an earlier one is reported. -/
theorem ofBindings_eq_error_iff :
    ofBindings bindings = .error error ↔
      ∃ before binding after, bindings = before ++ binding :: after ∧
        (before.map Prod.fst).Nodup ∧ binding.1 ∈ before.map Prod.fst ∧
          error = .duplicateBinding binding.1.sectionName binding.1.field := by
  refine foldlM_eq_error_iff.trans ⟨?_, ?_⟩
  · rintro ⟨before, binding, after, reached, rfl, hbefore, hadd⟩
    obtain ⟨⟨slot, hslot⟩, rfl⟩ := add_eq_error_iff.mp hadd
    have hmem : (binding.1, slot) ∈ before := (get?_of_ofBindings hbefore).mp hslot
    exact ⟨before, binding, after, rfl, exists_ofBindings_iff.mp ⟨reached, hbefore⟩,
      List.mem_map.mpr ⟨_, hmem, rfl⟩, rfl⟩
  · rintro ⟨before, binding, after, rfl, hnodup, hrepeated, rfl⟩
    obtain ⟨reached, hreached⟩ := exists_ofBindings_iff.mpr hnodup
    obtain ⟨⟨place, slot⟩, hmem, rfl⟩ := List.mem_map.mp hrepeated
    exact ⟨before, binding, after, reached, rfl, hreached,
      add_eq_error_iff.mpr ⟨⟨slot, (get?_of_ofBindings hreached).mpr hmem⟩, rfl⟩⟩

/-- A registry has the bindings that it was made of, in the order of their places. -/
theorem indexes_of_ofBindings (h : ofBindings bindings = .ok registry) :
    registry.Indexes bindings := by
  have hperm : registry.entries.Perm bindings := by
    rw [List.perm_ext_iff_of_nodup (List.Nodup.of_map Prod.fst registry.nodup_places)
      (List.Nodup.of_map Prod.fst (exists_ofBindings_iff.mp ⟨registry, h⟩))]
    exact fun entry ↦ Index.mem_entries_iff.trans (get?_of_ofBindings h)
  exact ⟨hperm, registry.increasing, fun _ _ ↦ get?_of_ofBindings h, hperm.length_eq,
    registry.increasing_sections.1, fun _ ↦ Index.mem_sectionNames_iff, registry.fieldsOf_eq⟩

/-- Bindings in another order make the same registry. -/
theorem ofBindings_eq_of_perm {others : List (Binding Target)}
    (h : ofBindings bindings = .ok registry) (hperm : others.Perm bindings) :
    ofBindings others = .ok registry := by
  have hnodup : (others.map Prod.fst).Nodup :=
    (hperm.map Prod.fst).nodup_iff.mpr (exists_ofBindings_iff.mp ⟨registry, h⟩)
  obtain ⟨other, hother⟩ := exists_ofBindings_iff.mpr hnodup
  have heq : other = registry := Index.eq_of_mem_iff fun entry ↦ by
    rw [(indexes_of_ofBindings hother).perm.mem_iff, (indexes_of_ofBindings h).perm.mem_iff,
      hperm.mem_iff]
  rw [hother, heq]

end Registry

/-! ## Registries -/

namespace Schema

variable {registry : Registry Target}

theorem registry_eq_ofBindings (h : schema.Bindable) :
    schema.registry = Registry.ofBindings schema.declared := by
  obtain ⟨bindings, hbindings⟩ := exists_bindings_iff.mpr h
  rw [Schema.registry, hbindings, ← eq_declared_of_bindings hbindings]
  rfl

theorem bindable_of_registry (h : schema.registry = .ok registry) : schema.Bindable := by
  obtain ⟨bindings, hbindings, _⟩ := bind_eq_ok_iff.mp h
  exact exists_bindings_iff.mp ⟨bindings, hbindings⟩

theorem exists_registry_iff :
    (∃ registry, schema.registry = .ok registry) ↔
      schema.Bindable ∧ (schema.declared.map Prod.fst).Nodup := by
  constructor
  · rintro ⟨registry, h⟩
    have hbindable := bindable_of_registry h
    rw [registry_eq_ofBindings hbindable] at h
    exact ⟨hbindable, Registry.exists_ofBindings_iff.mp ⟨registry, h⟩⟩
  · rintro ⟨hbindable, hnodup⟩
    rw [registry_eq_ofBindings hbindable]
    exact Registry.exists_ofBindings_iff.mpr hnodup

theorem registry_eq_error_iff : schema.registry = .error error ↔ schema.Rejected error := by
  constructor
  · intro h
    -- Only if nothing is wrong with any declaration does the building of the registry begin.
    by_cases hbindable : schema.Bindable
    · rw [registry_eq_ofBindings hbindable] at h
      obtain ⟨before, binding, after, hdeclared, hbefore, hrepeated, rfl⟩ :=
        Registry.ofBindings_eq_error_iff.mp h
      exact .duplicate hbindable hdeclared hbefore hrepeated
    · rcases bind_eq_error_iff.mp h with h | ⟨bindings, hbindings, _⟩
      · obtain ⟨before, declaration, after, hdeclarations, hbefore, hfault⟩ :=
          bindings_eq_error_iff.mp h
        exact .fault hdeclarations hbefore hfault
      · exact absurd (exists_bindings_iff.mp ⟨bindings, hbindings⟩) hbindable
  · intro h
    cases h with
    | fault hdeclarations hbefore hfault =>
      exact bind_eq_error_iff.mpr (.inl (bindings_eq_error_iff.mpr
        ⟨_, _, _, hdeclarations, hbefore, hfault⟩))
    | duplicate hbindable hdeclared hbefore hrepeated =>
      rw [registry_eq_ofBindings hbindable, Registry.ofBindings_eq_error_iff]
      exact ⟨_, _, _, hdeclared, hbefore, hrepeated, rfl⟩

/-- The order of the declarations does not matter for a registry. -/
theorem registry_of_rearranges (h : schema.registry = .ok registry)
    (hother : other.Rearranges schema) : other.registry = .ok registry := by
  have hbindable := bindable_of_registry h
  rw [registry_eq_ofBindings hbindable] at h
  rw [registry_eq_ofBindings (hother.bindable hbindable)]
  exact Registry.ofBindings_eq_of_perm h hother.declared_perm

/-- The registry of a schema can be built if all sections and fields that are not left out have
names, the fields are slots and no place is declared twice, and only then. Otherwise the first
declaration that is bad in itself is reported and, if there is none, the first slot at the place of
an earlier one. A registry lists the declared slots, each once, in the order of their places, and
all its views agree. Other declarations of the same sections and slots make the same registry, so
targets are encoded and inputs are decoded alike. -/
theorem registry_outcome (schema : Schema Target) :
    ((∃ registry, schema.registry = .ok registry) ↔
        schema.Bindable ∧ (schema.declared.map Prod.fst).Nodup) ∧
      (∀ error, schema.registry = .error error ↔ schema.Rejected error) ∧
      ∀ registry, schema.registry = .ok registry →
        registry.Indexes schema.declared ∧
          ∀ other : Schema Target, other.Rearranges schema →
            other.registry = .ok registry ∧
              (∀ header target, other.encode header target = schema.encode header target) ∧
              (∀ hints tokens target,
                other.decode hints tokens target = schema.decode hints tokens target) ∧
              ∀ hints stream target,
                other.decodeStream hints stream target =
                  schema.decodeStream hints stream target := by
  refine ⟨exists_registry_iff, fun error ↦ registry_eq_error_iff, fun registry h ↦ ⟨?_, ?_⟩⟩
  · rw [registry_eq_ofBindings (bindable_of_registry h)] at h
    exact Registry.indexes_of_ofBindings h
  · intro other hother
    have hregistry := registry_of_rearranges h hother
    have hdecode : other.decode = schema.decode := by
      funext hints tokens target
      rw [Schema.decode, Schema.decode, hregistry, h]
    refine ⟨hregistry, fun header target ↦ ?_, fun hints tokens target ↦ by rw [hdecode], ?_⟩
    · rw [Schema.encode, Schema.encode, hregistry, h]
    · intro hints stream target
      rw [decodeStream, decodeStream, hdecode]

/-- One section is declared twice, one has no fields and one is left out; the same fields can be
declared in another order and section by section. A field that is declared again is reported unless
a declaration behind it is bad in itself. -/
theorem registry_outcome_reopened :
    ∃ (schema other twice mixed : Schema Table) (registry : Registry Table),
      schema.registry = .ok registry ∧ registry.Indexes schema.declared ∧
      schema.declared.map Prod.fst = [⟨"t", "k"⟩, ⟨"s", "n"⟩, ⟨"t", "a"⟩] ∧
      registry.entries.map Prod.fst = [⟨"s", "n"⟩, ⟨"t", "a"⟩, ⟨"t", "k"⟩] ∧
      registry.sectionNames = ["s", "t"] ∧
      other.sections.map Section.name = ["e", "t", "s"] ∧ other.registry = .ok registry ∧
      twice.Rejected (.duplicateBinding "t" "k") ∧
      mixed.Rejected (.unsupportedKind "s" "x" "f64") := by
  let schema : Schema Table := ⟨[⟨"t", [⟨"k", .slot (Table.slot .string (0, 0)), false⟩], false⟩,
    ⟨"-", [⟨"n", .slot (Table.slot .int64 (1, 0)), false⟩], true⟩,
    ⟨"s", [⟨"n", .slot (Table.slot .int64 (2, 0)), false⟩, ⟨"", .unsupported "f64", true⟩], false⟩,
    ⟨"t", [⟨"a", .slot (Table.slot .int64 (0, 1)), false⟩], false⟩, ⟨"e", [], false⟩]⟩
  let other : Schema Table := ⟨[⟨"e", [], false⟩,
    ⟨"t", [⟨"a", .slot (Table.slot .int64 (0, 1)), false⟩,
      ⟨"k", .slot (Table.slot .string (0, 0)), false⟩], false⟩,
    ⟨"s", [⟨"n", .slot (Table.slot .int64 (2, 0)), false⟩], false⟩]⟩
  let twice : Schema Table := ⟨[⟨"t", [⟨"k", .slot (Table.slot .string (0, 0)), false⟩], false⟩,
    ⟨"t", [⟨"k", .slot (Table.slot .int64 (0, 1)), false⟩], false⟩]⟩
  let mixed : Schema Table := ⟨[⟨"t", [⟨"k", .slot (Table.slot .string (0, 0)), false⟩,
    ⟨"k", .slot (Table.slot .int64 (0, 1)), false⟩], false⟩,
    ⟨"s", [⟨"x", .unsupported "f64", false⟩], false⟩]⟩
  let registry : Registry Table := ((Index.empty.insert ⟨"t", "k"⟩
    (Table.slot .string (0, 0))).insert ⟨"s", "n"⟩ (Table.slot .int64 (2, 0))).insert ⟨"t", "a"⟩
      (Table.slot .int64 (0, 1))
  have hother : other.Rearranges schema := by
    refine ⟨fun name ↦ ?_, (List.perm_append_singleton _ _).symm⟩
    have hschema : .opening name ∈ schema.declarations ↔
        name = "t" ∨ name = "s" ∨ name = "t" ∨ name = "e" := by
      simp [schema, declarations, Section.declarations, Field.declarations]
    have hrearranged : .opening name ∈ other.declarations ↔
        name = "e" ∨ name = "t" ∨ name = "s" := by
      simp [other, declarations, Section.declarations, Field.declarations]
    rw [hschema, hrearranged]
    grind
  have hregistry : schema.registry = .ok registry := rfl
  obtain ⟨hindexes, halike⟩ := (registry_outcome schema).2.2 registry hregistry
  exact ⟨schema, other, twice, mixed, registry, hregistry, hindexes, rfl, rfl, rfl, rfl,
    (halike other hother).1, ((registry_outcome twice).2.1 _).mp rfl,
    ((registry_outcome mixed).2.1 _).mp rfl⟩

end Schema

/-! ## Bound slots -/

variable {place : Place} {slot : Slot Target}

/-- The slots that a schema binds are those that it declares. -/
theorem Schema.binds_iff {schema : Schema Target} :
    schema.Binds place slot ↔ (place, slot) ∈ schema.declared := by
  rw [mem_declared_iff, mem_declarations_iff]
  constructor
  · rintro ⟨member, hmember, hname, hignored, field, hfield, hkey, hkept, hleaf⟩
    refine ⟨member, hmember, hignored, .inr ⟨field, hfield, hkept, ?_⟩⟩
    rw [hname, hkey, hleaf]
  · rintro ⟨member, hmember, hignored, hfield | ⟨field, hfield, hkept, heq⟩⟩
    · cases hfield
    · obtain ⟨rfl, hleaf⟩ := Declaration.field.inj heq
      exact ⟨member, hmember, rfl, hignored, field, hfield, rfl, hkept, hleaf.symm⟩

/-- The registry of a schema has the slots that the schema binds. -/
theorem Schema.get?_registry {schema : Schema Target} {registry : Registry Target}
    (h : schema.registry = .ok registry) :
    registry.get? place = some slot ↔ schema.Binds place slot := by
  rw [registry_eq_ofBindings (bindable_of_registry h)] at h
  rw [Registry.get?_of_ofBindings h, binds_iff]

theorem Schema.named_of_registry {schema : Schema Target} {registry : Registry Target}
    (h : schema.registry = .ok registry) (hbinds : schema.Binds place slot) : place.Named := by
  obtain ⟨member, hmember, hname, hignored, field, hfield, hkey, hkept, _⟩ := hbinds
  obtain ⟨hsection, hfields⟩ := bindable_of_registry h member hmember hignored
  exact ⟨hname ▸ hsection, hkey ▸ (hfields field hfield hkept).1⟩

/-- The slots of a schema are separate if those in its registry have numbers of their own. -/
theorem Table.separate_of_entries {schema : Schema Table} {registry : Registry Table}
    (hregistry : schema.registry = .ok registry) (number : Place → Nat × Nat)
    (hslot : ∀ entry ∈ registry.entries, ∃ kind, entry.2 = Table.slot kind (number entry.1))
    (hnumber : ∀ entry ∈ registry.entries, ∀ other ∈ registry.entries,
      number entry.1 = number other.1 → entry.1 = other.1) : schema.Separate := by
  have hmem (place : Place) (slot : Slot Table) (h : schema.Binds place slot) :
      (place, slot) ∈ registry.entries :=
    Index.mem_entries_iff.mpr ((schema.get?_registry hregistry).mpr h)
  apply separate_of_numbers number
  · intro place slot h
    exact hslot (place, slot) (hmem place slot h)
  · intro place slot other slot' h h'
    exact hnumber (place, slot) (hmem place slot h) (other, slot') (hmem other slot' h')

end SectionedConfig

import SectionedConfig.Proofs.ConfigMap.RoundTrip
import SectionedConfig.Proofs.Registry.FlatDecoding

/-!
# Flat maps of encoded texts

A text that was encoded can be decoded without a schema, wherever it came from. What a key had in a
map it has again, but for a list without items. What a bound slot held stands at the key of its
place, as it looks without a schema: a string with an opening bracket is read as a list.
-/

namespace SectionedConfig

/-- The form can stand on a line, and every assignment of it makes an entry with this value. -/
structure ValueForm.ReadsAs (form : ValueForm) (value : Value) : Prop where
  wellFormed : form.WellFormed
  entry : ∀ (place : Place) (assignment : Assignment),
    assignment.States (place, form) → assignment.entry = .ok (place.key, value)

theorem Value.ReadsBack.readsAs {value : Value} (h : value.ReadsBack) :
    value.form.ReadsAs value.canonical where
  wellFormed := h.writable.wellFormed
  entry := fun _ _ hstates ↦ hstates.entry_eq h

theorem Slot.readsAs_form {Target : Type} {slot : Slot Target} {source : Target}
    (h : (slot.form source).WellFormed) :
    (slot.form source).ReadsAs (slot.read source).asEntry where
  wellFormed := h
  entry := by
    intro place assignment hstates
    cases slot with
    | int64 get set =>
      have hback : (Value.int64 (get source)).ReadsBack := ⟨trivial, nofun⟩
      exact hstates.entry_eq hback
    | string get set =>
      have hkey := Assignment.composedKey_of_enclosing hstates.enclosing hstates.key
      have hkind : assignment.value.kind ≠ .int64 := by
        simp [hstates.kind, form, read, Value.form, ValueForm.kind]
      have htext : assignment.value.value = get source := by
        rw [hstates.value, form, read, Value.form, ValueForm.text, String.ofList_toList]
      rw [Assignment.entry, if_neg hkind, hkey, htext]
      rfl

/-- Whatever is encoded as forms is decoded as the values that the forms read as. -/
theorem exists_ofText_of_encode {α : Type} {encode : String → α → Except Error Statement}
    {form : α → ValueForm} {answer : α → Value}
    (hencode : ∀ field content statement, encode field content = .ok statement →
      (form content).ReadsAs (answer content) ∧ statement = .assign field (form content).token)
    {index : Index α} (hnamed : ∀ entry ∈ index.entries, entry.1.Named) {header : Option String}
    {document : Document} {text : String}
    (hdocument : Except.map (Document.ofSections header) (index.sections.mapM fun block ↦
      (block.2.mapM fun (entry : String × α) ↦ encode entry.1 entry.2).map
        fun assignments ↦ (block.1, assignments)) = .ok document)
    (hrender : document.render = .ok text) :
    ∃ decoded, ConfigMap.ofText text = .ok decoded ∧
      ∀ entry ∈ index.entries, decoded.get? entry.1.key = some (answer entry.2) := by
  obtain ⟨hreads, rfl⟩ := eq_text_of_encode hencode hdocument hrender
  obtain ⟨tokens, htokens, hread⟩ := exists_traverse_ofIndex header hnamed
    (fun entry hentry ↦ (hreads entry hentry).wellFormed)
    (fun entry hentry ↦ (hreads entry hentry).entry entry.1)
  refine ⟨.ofList (index.entries.map fun entry ↦ (entry.1.key, answer entry.2)), ?_, ?_⟩
  · rw [ConfigMap.ofText, ConfigMap.ofStream, htokens]
    simp only [Except.bind, ConfigMap.ofTokens, hread, Except.map]
  · intro entry hentry
    have hkeys := index.nodup_keys hnamed
    rw [← OrderedMap.mem_entries_iff, OrderedMap.entries_ofList (by rwa [List.map_map])]
    exact List.mem_map_of_mem hentry

/-- The text of a map is decoded as a map with the same values at the same keys. -/
theorem ConfigMap.exists_ofText_encode {map : ConfigMap} {header : Option String} {text : String}
    (h : map.encode header = .ok text) :
    ∃ decoded, ofText text = .ok decoded ∧
      ∀ key value, map.get? key = some value → decoded.get? key = some value.canonical := by
  obtain ⟨document, hdocument, hrender⟩ := bind_eq_ok_iff.mp h
  obtain ⟨index, hindex, hdocument⟩ := bind_eq_ok_iff.mp hdocument
  obtain ⟨hnamed, hentries⟩ := index_spec hindex
  have hencode : ∀ field (value : Value) statement, value.encode field = .ok statement →
      value.form.ReadsAs value.canonical ∧ statement = .assign field value.form.token :=
    fun _ _ _ hstatement ↦ (Value.encode_eq_ok hstatement).imp_left Value.ReadsBack.readsAs
  obtain ⟨decoded, hdecoded, hget⟩ := exists_ofText_of_encode hencode hnamed hdocument hrender
  refine ⟨decoded, hdecoded, fun key value hvalue ↦ ?_⟩
  obtain ⟨place, hplace, rfl⟩ := (hentries key value).mp (OrderedMap.mem_entries_iff.mpr hvalue)
  exact hget _ hplace

/-- The text of a target is decoded without the schema as a map of what the bound slots held. -/
theorem Schema.exists_ofText_encode {Target : Type} {schema : Schema Target}
    {header : Option String} {source : Target} {text : String}
    (h : schema.encode header source = .ok text) :
    ∃ decoded, ConfigMap.ofText text = .ok decoded ∧
      ∀ place slot, schema.Binds place slot →
        decoded.get? place.key = some (slot.read source).asEntry := by
  obtain ⟨registry, hregistry, htext⟩ := bind_eq_ok_iff.mp h
  obtain ⟨document, hdocument, hrender⟩ := bind_eq_ok_iff.mp htext
  have hbinds {place : Place} {slot : Slot Target} :
      (place, slot) ∈ registry.entries ↔ schema.Binds place slot :=
    Index.mem_entries_iff.trans (schema.get?_registry hregistry)
  have hencode : ∀ field (slot : Slot Target) statement,
      slot.encode source field = .ok statement →
        (slot.form source).ReadsAs (slot.read source).asEntry ∧
          statement = .assign field (slot.form source).token :=
    fun _ _ _ hstatement ↦ (Slot.encode_eq_ok hstatement).imp_left Slot.readsAs_form
  have hnamed : ∀ entry ∈ registry.entries, entry.1.Named :=
    fun _ hentry ↦ schema.named_of_registry hregistry (hbinds.mp hentry)
  obtain ⟨decoded, hdecoded, hget⟩ := exists_ofText_of_encode hencode hnamed hdocument hrender
  exact ⟨decoded, hdecoded, fun _ _ hslot ↦ hget _ (hbinds.mpr hslot)⟩

end SectionedConfig

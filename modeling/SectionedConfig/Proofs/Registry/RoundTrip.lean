import SectionedConfig.Proofs.Registry.Indexing
import SectionedConfig.Proofs.Registry.Updates
import SectionedConfig.Proofs.Value.Encoding

/-!
# Decoding an encoded target

If the slots of a schema are separate locations, decoding the text that a target was encoded as
copies the bound slots of that target and touches nothing else. Every bound slot is assigned once,
at its place, and its text reads back as what the slot held.
-/

namespace SectionedConfig

universe u

variable {Target : Type}

namespace Registry

/-- The updates that copy all bound slots of a target. -/
def copies (registry : Registry Target) (source : Target) : List (Update Target) :=
  registry.entries.map fun entry ↦ ⟨entry.1, entry.2, entry.2.read source⟩

/-- Decoding the text of an encoded target asks for the updates that copy its slots. -/
theorem exists_updates_of_encode {registry : Registry Target}
    (hnamed : ∀ entry ∈ registry.entries, entry.1.Named) {header : Option String}
    {source : Target} {text : String} (h : registry.encode header source = .ok text) :
    ∃ tokens, (TokenStream.ofText text).checked = .ok tokens ∧
      registry.updates .empty tokens = .ok ((registry.copies source).map some) := by
  obtain ⟨document, hdocument, hrender⟩ := bind_eq_ok_iff.mp h
  have hencode : ∀ field (slot : Slot Target) statement, slot.encode source field = .ok statement →
      (slot.form source).WellFormed ∧ statement = .assign field (slot.form source).token :=
    fun _ _ _ ↦ Slot.encode_eq_ok
  obtain ⟨hforms, rfl⟩ := eq_text_of_encode hencode hdocument hrender
  have hupdate : ∀ entry ∈ registry.entries, ∀ assignment : Assignment,
      assignment.States (entry.1, entry.2.form source) →
        registry.update? .empty assignment =
          .ok (some ⟨entry.1, entry.2, entry.2.read source⟩) := by
    intro entry hentry assignment hstates
    have hslot : registry.get? entry.1 = some entry.2 := Index.mem_entries_iff.mp hentry
    simp only [update?, hstates.place_eq, hslot, hstates.convert_eq]
    rfl
  obtain ⟨tokens, htokens, hread⟩ := exists_traverse_ofIndex header hnamed hforms hupdate
  refine ⟨tokens, htokens, ?_⟩
  rw [copies, List.map_map]
  exact hread

end Registry

/-- Decoding the text of an encoded target into another target succeeds, every bound slot then holds
what it held in the encoded target, and whatever the bound slots spare, such as a member that is
left out, is as it was before. -/
theorem Schema.decodeText_encode {schema : Schema Target} (hseparate : schema.Separate)
    {header : Option String} {source : Target} {text : String}
    (h : schema.encode header source = .ok text) (target : Target) :
    (schema.decodeText .empty text target).1 = .ok () ∧
      (∀ place slot, schema.Binds place slot →
        slot.read (schema.decodeText .empty text target).2 = slot.read source) ∧
      ∀ {α : Type u} (view : Target → α),
        (∀ place slot, schema.Binds place slot → slot.Spares view) →
          view (schema.decodeText .empty text target).2 = view target := by
  obtain ⟨registry, hregistry, hencode⟩ := bind_eq_ok_iff.mp h
  have hbinds : ∀ entry ∈ registry.entries, schema.Binds entry.1 entry.2 :=
    fun entry hentry ↦ (schema.get?_registry hregistry).mp (Index.mem_entries_iff.mp hentry)
  obtain ⟨tokens, htokens, hupdates⟩ := Registry.exists_updates_of_encode
    (fun entry hentry ↦ schema.named_of_registry hregistry (hbinds entry hentry)) hencode
  have hdecode : schema.decodeText .empty text target =
      Update.applyAll target (registry.copies source) := by
    have hcopies : ((registry.copies source).map some).filterMap id = registry.copies source := by
      simp
    simp only [decodeText, decodeStream, htokens, decode, hregistry, Registry.decode, hupdates,
      hcopies]
  have hfits : ∀ update ∈ registry.copies source, update.slot.Fits update.value :=
    List.forall_mem_map.mpr fun entry _ ↦ entry.2.fits_read source
  have hlawful : ∀ update ∈ registry.copies source, update.slot.Lawful :=
    List.forall_mem_map.mpr fun entry hentry ↦ hseparate.lawful _ _ (hbinds entry hentry)
  have hapart : (registry.copies source).Pairwise fun first second ↦
      second.slot.Spares fun target ↦ first.slot.read target := by
    refine List.pairwise_map.mpr (registry.increasing.imp_of_mem ?_)
    intro first second hfirst hsecond hbefore
    have hne : second.1 ≠ first.1 := fun heq ↦ Place.Before.irrefl first.1 (heq ▸ hbefore)
    exact hseparate.apart _ _ _ _ (hbinds second hsecond) (hbinds first hfirst) hne
  rw [hdecode]
  refine ⟨Update.applyAll_of_fits hfits target, fun place slot hslot ↦ ?_, fun view hview ↦ ?_⟩
  · have hmem : (place, slot) ∈ registry.entries :=
      Index.mem_entries_iff.mpr ((schema.get?_registry hregistry).mpr hslot)
    exact Update.read_applyAll hfits hlawful hapart target ⟨place, slot, slot.read source⟩
      (List.mem_map.mpr ⟨(place, slot), hmem, rfl⟩)
  · have hspares : ∀ update ∈ registry.copies source, update.slot.Spares view :=
      List.forall_mem_map.mpr fun entry hentry ↦ hview entry.1 entry.2 (hbinds entry hentry)
    exact Update.view_applyAll hspares target

/-- A string that looks like other things, a negative integer, a header that looks like a brace, and
a field that is left out. -/
theorem Schema.decodeText_encode_marks :
    ∃ (schema : Schema Table) (text : String),
      schema.encode (some "h\n\x7d")
        ((Table.blank.setString (0, 0) " [#\x7b=").setInteger (0, 1) (-7)) = .ok text ∧
      (schema.decodeText .empty text (Table.blank.setString (0, 2) "kept")).1 = .ok () ∧
      (schema.decodeText .empty text (Table.blank.setString (0, 2) "kept")).2.strings (0, 0) =
        " [#\x7b=" ∧
      (schema.decodeText .empty text (Table.blank.setString (0, 2) "kept")).2.integers (0, 1) = -7 ∧
      (schema.decodeText .empty text (Table.blank.setString (0, 2) "kept")).2.strings (0, 2) =
        "kept" := by
  let schema : Schema Table := ⟨[⟨"s", [⟨"a", .slot (Table.slot .string (0, 0)), false⟩,
    ⟨"b", .slot (Table.slot .int64 (0, 1)), false⟩,
    ⟨"c", .slot (Table.slot .string (0, 2)), true⟩], false⟩]⟩
  let registry : Registry Table :=
    (Index.empty.insert ⟨"s", "a"⟩ (Table.slot .string (0, 0))).insert ⟨"s", "b"⟩
      (Table.slot .int64 (0, 1))
  have hregistry : schema.registry = .ok registry := rfl
  have hentries : registry.entries = [(⟨"s", "a"⟩, Table.slot .string (0, 0)),
      (⟨"s", "b"⟩, Table.slot .int64 (0, 1))] := rfl
  have hbinds (place : Place) (slot : Slot Table) : schema.Binds place slot ↔
      place = ⟨"s", "a"⟩ ∧ slot = Table.slot .string (0, 0) ∨
        place = ⟨"s", "b"⟩ ∧ slot = Table.slot .int64 (0, 1) := by
    rw [← Schema.get?_registry hregistry, ← Index.mem_entries_iff, hentries]
    simp
  have hseparate : schema.Separate := by
    let number (place : Place) : Nat × Nat := if place.field = "a" then (0, 0) else (0, 1)
    apply Table.separate_of_numbers number
    · intro place slot h
      rcases (hbinds place slot).mp h with ⟨rfl, rfl⟩ | ⟨rfl, rfl⟩
      · exact ⟨.string, rfl⟩
      · exact ⟨.int64, rfl⟩
    · intro place slot other slot' h h'
      rcases (hbinds place slot).mp h with ⟨rfl, _⟩ | ⟨rfl, _⟩ <;>
        rcases (hbinds other slot').mp h' with ⟨rfl, _⟩ | ⟨rfl, _⟩ <;> decide
  have hencode : schema.encode (some "h\n\x7d")
      ((Table.blank.setString (0, 0) " [#\x7b=").setInteger (0, 1) (-7)) =
        .ok "# h\n# \x7d\ns \x7b\n\ta = \" [#\x7b=\"\n\tb = -7\n\x7d\n" := by
    decide +kernel
  obtain ⟨hok, hread, hview⟩ := Schema.decodeText_encode hseparate hencode
    (Table.blank.setString (0, 2) "kept")
  refine ⟨schema, _, hencode, hok, ?_, ?_, ?_⟩
  · have htext := hread ⟨"s", "a"⟩ _ ((hbinds _ _).mpr (.inl ⟨rfl, rfl⟩))
    exact Value.string.inj htext
  · have hnumber := hread ⟨"s", "b"⟩ _ ((hbinds _ _).mpr (.inr ⟨rfl, rfl⟩))
    exact Value.int64.inj hnumber
  · have hkept := hview fun table ↦ (Table.slot .string (0, 2)).read table
    apply Value.string.inj
    apply hkept
    intro place slot h
    rcases (hbinds place slot).mp h with ⟨_, rfl⟩ | ⟨_, rfl⟩ <;>
      exact Table.slot_spares_of_ne (by decide) _ _

end SectionedConfig

import SectionedConfig.Proofs.OrderedMap
import SectionedConfig.Proofs.Registry.Atomicity
import SectionedConfig.Proofs.Registry.Indexing
import SectionedConfig.Proofs.Registry.Updates

/-!
# Decoding into a target and into a flat map

The same tokens can be decoded into a flat map or into a target. Both decoders go through the same
assignments in order, one inserting an entry and the other queueing an update where a slot is bound.
What the map says about a bound place then fits what has become of its slot, step by step and in the
end. Both read integers alike, so tokens that make up a flat map can only be refused by a target for
a value of the wrong kind.
-/

namespace SectionedConfig

variable {Target : Type}

/-- The entry that a flat map has for what a slot holds. A string is looked at like the text of a
token, so it loses quotation marks at both ends, or becomes a list. -/
def Value.asEntry : Value → Value
  | string text => ofText text
  | other => other

namespace ConfigMap

/-- What a map says about a place fits what was there before and what is there after: without an
entry nothing has changed, and an entry is that of what is there now. -/
def Reflects (map : ConfigMap) (place : Place) (before after : Value) : Prop :=
  match map.getIn? place.sectionName place.field with
  | none => after = before
  | some value => value = after.asEntry

variable {map : ConfigMap} {place : Place} {before after value : Value}

theorem reflects_insert (map : ConfigMap) (place : Place) (before after : Value) :
    Reflects (map.insert place.key after.asEntry) place before after := by
  simp [Reflects, getIn?, Place.key]

theorem reflects_insert_of_ne {key : String} (hne : key ≠ place.key) :
    Reflects (map.insert key value) place before after ↔ map.Reflects place before after := by
  have hother : composeKey place.sectionName place.field ≠ key := hne.symm
  simp [Reflects, getIn?, hother]

end ConfigMap

/-! ## One assignment -/

namespace Assignment

variable {assignment : Assignment} {entry : String × Value}

theorem fst_of_entry (h : assignment.entry = .ok entry) : entry.1 = assignment.composedKey := by
  unfold Assignment.entry at h
  split at h
  next =>
    obtain ⟨_, _, rfl⟩ := map_eq_ok_iff.mp h
    rfl
  next =>
    cases h
    rfl

/-- An assignment has the key of a named place if it is attributed to it, unless it is outside any
section and its key looks composed. -/
theorem composedKey_eq_key_iff {place : Place} (hplace : place.Named)
    (hplain : assignment.enclosing = none → keySeparator ∉ assignment.key.value.toList) :
    assignment.composedKey = place.key ↔ assignment.place .empty = place := by
  unfold composedKey Assignment.place
  rw [OrderedMap.get?_empty, Option.none_or]
  cases henclosing : assignment.enclosing with
  | some sectionName => exact Place.composeKey_eq_key_iff hplace
  | none =>
    have hkey : assignment.key.value ≠ place.key := by
      intro heq
      apply hplain henclosing
      rw [heq, Place.key, toList_composeKey]
      simp [keySeparator]
    have hsection : (⟨"", assignment.key.value⟩ : Place) ≠ place := by
      rintro rfl
      exact hplace.sectionName.nonempty rfl
    exact iff_of_false hkey hsection

end Assignment

namespace Slot

variable {assignment : Assignment} {entry : String × Value} {place : Place} {slot : Slot Target}

/-- A value that a slot takes is the one that the flat map gets. -/
theorem snd_of_convert {value : Value} (hentry : assignment.entry = .ok entry)
    (h : slot.convert place assignment.value = .ok value) : entry.2 = value.asEntry := by
  unfold Assignment.entry at hentry
  unfold convert at h
  split at h
  next _ hkind =>
    rw [if_pos hkind] at hentry
    obtain ⟨number, hnumber, rfl⟩ := map_eq_ok_iff.mp hentry
    obtain ⟨same, hsame, rfl⟩ := map_eq_ok_iff.mp h
    rw [Assignment.integer_eq_ok_iff] at hnumber hsame
    rw [hnumber.unique hsame]
    rfl
  next _ hkind =>
    rw [if_neg (by simp [hkind])] at hentry
    cases hentry
    cases h
    rfl
  next => cases h

/-- A value that the flat map gets is refused by a slot for its kind only. -/
theorem eq_mismatch_of_convert {error : Error} (hentry : assignment.entry = .ok entry)
    (h : slot.convert place assignment.value = .error error) :
    ∃ found, error = slot.mismatch place found := by
  rcases convert_eq_error_iff.mp h with ⟨_, rfl⟩ | ⟨_, hkind, hnone, _⟩
  · exact ⟨_, rfl⟩
  · rw [Assignment.entry, if_pos hkind] at hentry
    obtain ⟨number, hnumber, _⟩ := map_eq_ok_iff.mp hentry
    exact absurd (Assignment.integer_eq_ok_iff.mp hnumber).isInt64 hnone

end Slot

namespace Registry

variable {registry : Registry Target} {schema : Schema Target} {place : Place} {slot : Slot Target}
variable {map : ConfigMap} {before : Value} {target : Target}

/-- Inserting the entry of an assignment and applying its update keeps map and slot together. -/
theorem reflects_step (hregistry : schema.registry = .ok registry) (hseparate : schema.Separate)
    (hslot : schema.Binds place slot) {assignment : Assignment}
    (hplain : assignment.enclosing = none → keySeparator ∉ assignment.key.value.toList)
    {entry : String × Value} (hentry : assignment.entry = .ok entry)
    {queued : Option (Update Target)} (hqueued : registry.update? .empty assignment = .ok queued)
    (h : map.Reflects place before (slot.read target)) :
    ∃ after, Update.applyAll target queued.toList = (.ok (), after) ∧
      ConfigMap.Reflects (map.insert entry.1 entry.2) place before (slot.read after) := by
  have hbound : registry.get? place = some slot := (schema.get?_registry hregistry).mpr hslot
  have hkey : entry.1 = place.key ↔ assignment.place .empty = place := by
    rw [Assignment.fst_of_entry hentry]
    exact Assignment.composedKey_eq_key_iff (schema.named_of_registry hregistry hslot) hplain
  rcases update?_eq_ok hqueued with ⟨hnone, rfl⟩ | ⟨other, value, hget, hvalue, rfl⟩
  · -- The assignment is skipped, so it is attributed to another place.
    have hne : entry.1 ≠ place.key := by
      intro heq
      rw [hkey.mp heq, hbound] at hnone
      cases hnone
    exact ⟨target, rfl, (ConfigMap.reflects_insert_of_ne hne).mpr h⟩
  have hother : schema.Binds (assignment.place .empty) other :=
    (schema.get?_registry hregistry).mp hget
  obtain ⟨after, hwrite⟩ :=
    (Slot.fits_of_convert hvalue).exists_write_eq_ok (assignment.place .empty) target
  refine ⟨after, by simp [Update.applyAll, hwrite], ?_⟩
  by_cases heq : assignment.place .empty = place
  · -- The assignment is attributed to the place, so the slot now holds its value.
    have hsame : other = slot := by
      rw [heq, hbound] at hget
      exact (Option.some.inj hget).symm
    have hread : slot.read after = value := by
      rw [← hsame]
      exact hseparate.lawful _ _ hother _ _ _ _ hwrite
    rw [hkey.mpr heq, Slot.snd_of_convert hentry hvalue, hread]
    exact ConfigMap.reflects_insert map place before value
  · -- Another slot is written, and another entry inserted.
    have hread : slot.read after = slot.read target :=
      hseparate.apart _ _ _ _ hother hslot heq _ _ _ _ hwrite
    rw [hread]
    exact (ConfigMap.reflects_insert_of_ne (mt hkey.mp heq)).mpr h

/-- Going through assignments, inserting all entries and applying all updates, keeps them together
as well. -/
theorem reflects_run (hregistry : schema.registry = .ok registry) (hseparate : schema.Separate)
    (hslot : schema.Binds place slot) {found : List Assignment}
    (hplain : ∀ assignment ∈ found,
      assignment.enclosing = none → keySeparator ∉ assignment.key.value.toList)
    {entries : List (String × Value)} (hentries : found.mapM Assignment.entry = .ok entries)
    {queued : List (Option (Update Target))}
    (hqueued : found.mapM (registry.update? .empty) = .ok queued)
    (h : map.Reflects place before (slot.read target)) :
    ConfigMap.Reflects (map.insertAll entries) place before
      (slot.read (Update.applyAll target (queued.filterMap id)).2) := by
  rw [mapM_eq_ok_iff] at hentries hqueued
  induction hentries generalizing map target queued with
  | nil =>
    cases hqueued
    exact h
  | cons hentry _ ih =>
    obtain ⟨first, others, hfirst, hothers, rfl⟩ := List.forall₂_cons_left_iff.mp hqueued
    obtain ⟨hhead, hrest⟩ := List.forall_mem_cons.mp hplain
    obtain ⟨after, happlied, hafter⟩ :=
      reflects_step hregistry hseparate hslot hhead hentry hfirst h
    have hsplit : (first :: others).filterMap id = first.toList ++ others.filterMap id := by
      cases first <;> rfl
    rw [hsplit, Update.applyAll_append happlied, OrderedMap.insertAll_cons]
    exact ih hrest hothers hafter

/-- Tokens that make up a flat map are decoded into any target, or refused for the kind of a
value. -/
theorem fst_decode_of_ofTokens (registry : Registry Target) {tokens : List Token}
    (hmap : ConfigMap.ofTokens tokens = .ok map) (target : Target) :
    (registry.decode .empty tokens target).1 = .ok () ∨
      ∃ sectionName field expected found, (registry.decode .empty tokens target).1 =
        .error (.typeMismatch sectionName field expected found) := by
  obtain ⟨entries, hentries, _⟩ := map_eq_ok_iff.mp hmap
  obtain ⟨hfault, hfound⟩ := Assignment.Walk.traverse_eq_ok_iff.mp hentries
  rw [fst_decode]
  cases hqueued : registry.updates .empty tokens with
  | ok queued => exact .inl rfl
  | error error =>
    right
    obtain ⟨assignment, hmem, hupdate⟩ :=
      Assignment.Walk.exists_of_traverse_eq_error hfault hqueued
    obtain ⟨entry, _, hentry⟩ := exists_mem_of_mapM hfound hmem
    obtain ⟨slot, _, hconvert⟩ := update?_eq_error hupdate
    obtain ⟨found, rfl⟩ := Slot.eq_mismatch_of_convert hentry hconvert
    exact ⟨_, _, _, found, rfl⟩

end Registry

/-- If tokens make up a flat map, they are decoded into a target or refused for the kind of a value,
and nothing else can go wrong. If they are decoded, and no key outside a section looks composed,
then every bound slot whose place has no entry is as it was before, and the entry of every other
place is that of what its slot holds now. For the second part the slots are separate. This is no
property of the tokens but what a schema is for: each section names one key per member, so two
places are never bound to one member. -/
theorem Registry.decode_of_ofTokens {schema : Schema Target} {registry : Registry Target}
    (hregistry : schema.registry = .ok registry) {tokens : List Token} {map : ConfigMap}
    (hmap : ConfigMap.ofTokens tokens = .ok map) (target : Target) :
    ((registry.decode .empty tokens target).1 = .ok () ∨
      ∃ sectionName field expected found, (registry.decode .empty tokens target).1 =
        .error (.typeMismatch sectionName field expected found)) ∧
    ((registry.decode .empty tokens target).1 = .ok () → schema.Separate →
      (∀ assignment ∈ (Assignment.walk tokens).found,
        assignment.enclosing = none → keySeparator ∉ assignment.key.value.toList) →
      ∀ place slot, schema.Binds place slot →
        map.Reflects place (slot.read target)
          (slot.read (registry.decode .empty tokens target).2)) := by
  refine ⟨fst_decode_of_ofTokens registry hmap target, ?_⟩
  intro hdecode hseparate hplain place slot hslot
  obtain ⟨entries, hentries, rfl⟩ := map_eq_ok_iff.mp hmap
  obtain ⟨_, hfound⟩ := Assignment.Walk.traverse_eq_ok_iff.mp hentries
  unfold decode at hdecode ⊢
  cases hupdates : registry.updates .empty tokens with
  | error error =>
    rw [hupdates] at hdecode
    cases hdecode
  | ok queued =>
    obtain ⟨_, hqueued⟩ := Assignment.Walk.traverse_eq_ok_iff.mp hupdates
    have hstart : ConfigMap.Reflects .empty place (slot.read target) (slot.read target) := rfl
    exact reflects_run hregistry hseparate hslot hplain hfound hqueued hstart

/-- A list, an integer that is assigned twice, a field that is not assigned, and assignments that
are skipped. A string where an integer is bound is refused. -/
theorem Registry.decode_of_ofTokens_repeated :
    ∃ (schema : Schema Table) (registry : Registry Table) (tokens kinds : List Token),
      schema.registry = .ok registry ∧
      (TokenStream.ofText
        "k = 9\ns \x7b\nk = \"[a, b\"\nn = 1\nn = 2\n\x7d\nt/u \x7b\nk = 3\n\x7d").checked =
          .ok tokens ∧
      (registry.decode .empty tokens .blank).1 = .ok () ∧
      (∀ place slot, schema.Binds place slot →
        ConfigMap.Reflects (.ofList [("k", .int64 9), ("s/k", .list ["a", "b"]),
          ("s/n", .int64 2), ("t/u/k", .int64 3)]) place (slot.read .blank)
            (slot.read (registry.decode .empty tokens .blank).2)) ∧
      (TokenStream.ofText "s \x7b\nn = 1\nn = \"1\"\n\x7d").checked = .ok kinds ∧
      ∃ sectionName field expected found, (registry.decode .empty kinds .blank).1 =
        .error (.typeMismatch sectionName field expected found) := by
  let schema : Schema Table := ⟨[⟨"s", [⟨"k", .slot (Table.slot .string (0, 0)), false⟩,
    ⟨"m", .slot (Table.slot .int64 (0, 1)), false⟩,
    ⟨"n", .slot (Table.slot .int64 (0, 2)), false⟩], false⟩]⟩
  let registry : Registry Table := ((Index.empty.insert ⟨"s", "k"⟩
    (Table.slot .string (0, 0))).insert ⟨"s", "m"⟩ (Table.slot .int64 (0, 1))).insert ⟨"s", "n"⟩
      (Table.slot .int64 (0, 2))
  let read (text : String) : List Token :=
    match (TokenStream.ofText text).checked with
    | .ok tokens => tokens
    | .error _ => []
  let tokens :=
    read "k = 9\ns \x7b\nk = \"[a, b\"\nn = 1\nn = 2\n\x7d\nt/u \x7b\nk = 3\n\x7d"
  let kinds := read "s \x7b\nn = 1\nn = \"1\"\n\x7d"
  have hregistry : schema.registry = .ok registry := rfl
  have hentries : registry.entries = [(⟨"s", "k"⟩, Table.slot .string (0, 0)),
      (⟨"s", "m"⟩, Table.slot .int64 (0, 1)), (⟨"s", "n"⟩, Table.slot .int64 (0, 2))] := rfl
  have hseparate : schema.Separate := by
    let number (place : Place) : Nat × Nat :=
      if place.field = "k" then (0, 0) else if place.field = "m" then (0, 1) else (0, 2)
    apply Table.separate_of_entries hregistry number
    · simp only [hentries, List.forall_mem_cons]
      exact ⟨⟨.string, rfl⟩, ⟨.int64, rfl⟩, ⟨.int64, rfl⟩, nofun⟩
    · decide
  have hmap : ConfigMap.ofTokens tokens = .ok (.ofList [("k", .int64 9), ("s/k", .list ["a", "b"]),
      ("s/n", .int64 2), ("t/u/k", .int64 3)]) := by decide +kernel
  have hkinds : ConfigMap.ofTokens kinds = .ok (.ofList [("s/n", .string "1")]) := by
    decide +kernel
  have hdecode : (registry.decode .empty tokens .blank).1 = .ok () := by decide +kernel
  have hplain : ∀ assignment ∈ (Assignment.walk tokens).found,
      assignment.enclosing = none → keySeparator ∉ assignment.key.value.toList := by
    decide +kernel
  have hrefused : (registry.decode .empty kinds .blank).1 ≠ .ok () := by decide +kernel
  obtain ⟨_, hreflects⟩ := Registry.decode_of_ofTokens hregistry hmap .blank
  obtain ⟨houtcome, _⟩ := Registry.decode_of_ofTokens hregistry hkinds .blank
  exact ⟨schema, registry, tokens, kinds, hregistry, by decide +kernel, hdecode,
    hreflects hdecode hseparate hplain, by decide +kernel, houtcome.resolve_left hrefused⟩

end SectionedConfig

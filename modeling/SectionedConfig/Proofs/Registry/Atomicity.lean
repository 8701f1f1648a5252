import SectionedConfig.Proofs.Assignment
import SectionedConfig.Proofs.Registry.Updates
import SectionedConfig.Proofs.Results
import SectionedConfig.Table

/-!
# Decoding is atomic

Whatever can fail while a target is decoded fails before the first slot is overwritten. The updates
that a walk has queued all fit their slots, so that applying them is never broken off.
-/

namespace SectionedConfig

variable {Target : Type}

/-- A decoding that failed left the target as it was. -/
def Unharmed (target : Target) (outcome : Except Error Unit × Target) : Prop :=
  ∀ error, outcome.1 = .error error → outcome.2 = target

namespace Registry

/-- All updates that tokens ask for fit their slots. -/
theorem fits_of_updates {registry : Registry Target} {hints : Hints} {tokens : List Token}
    {updates : List (Option (Update Target))} (h : registry.updates hints tokens = .ok updates) :
    ∀ update ∈ updates.filterMap id, update.slot.Fits update.value := by
  obtain ⟨_, hfound⟩ := Assignment.Walk.traverse_eq_ok_iff.mp h
  intro update hupdate
  obtain ⟨queued, hqueued, rfl⟩ := List.mem_filterMap.mp hupdate
  obtain ⟨assignment, _, hasked⟩ := exists_of_mem_mapM hfound hqueued
  rcases update?_eq_ok hasked with ⟨_, hskipped⟩ | ⟨slot, value, _, hvalue, hqueued⟩
  · cases hskipped
  · obtain rfl := Option.some.inj hqueued
    exact Slot.fits_of_convert hvalue

theorem applyAll_of_updates {registry : Registry Target} {hints : Hints} {tokens : List Token}
    {updates : List (Option (Update Target))} (h : registry.updates hints tokens = .ok updates)
    (target : Target) : (Update.applyAll target (updates.filterMap id)).1 = .ok () :=
  Update.applyAll_of_fits (fits_of_updates h) target

/-- A decoding succeeds if the walk does, and fails with its error. -/
theorem fst_decode (registry : Registry Target) (hints : Hints) (tokens : List Token)
    (target : Target) :
    (registry.decode hints tokens target).1 =
      (registry.updates hints tokens).map fun _ ↦ () := by
  rw [decode]
  cases hupdates : registry.updates hints tokens with
  | error fault => rfl
  | ok updates => exact applyAll_of_updates hupdates target

theorem unharmed_decode (registry : Registry Target) (hints : Hints) (tokens : List Token)
    (target : Target) : Unharmed target (registry.decode hints tokens target) := by
  intro error herror
  rw [fst_decode, map_eq_error_iff] at herror
  rw [decode, herror]

end Registry

namespace Schema

theorem unharmed_decode (schema : Schema Target) (hints : Hints) (tokens : List Token)
    (target : Target) : Unharmed target (schema.decode hints tokens target) := by
  unfold decode
  cases schema.registry with
  | error fault => exact fun _ _ ↦ rfl
  | ok registry => exact registry.unharmed_decode hints tokens target

theorem unharmed_decodeStream (schema : Schema Target) (hints : Hints) (stream : TokenStream)
    (target : Target) : Unharmed target (schema.decodeStream hints stream target) := by
  unfold decodeStream
  cases stream.checked with
  | error fault => exact fun _ _ ↦ rfl
  | ok tokens => exact schema.unharmed_decode hints tokens target

end Schema

/-- Decoding either succeeds or leaves the target as it was: from any tokens, with a registry that
was built before or from a schema, from any text, and from any byte stream, wherever it breaks off.
Once the walk over the tokens has succeeded, all its updates are applied. -/
theorem decoding_atomic (registry : Registry Target) (schema : Schema Target) (hints : Hints)
    (target : Target) :
    (∀ tokens, Unharmed target (registry.decode hints tokens target)) ∧
      (∀ tokens, Unharmed target (schema.decode hints tokens target)) ∧
      (∀ text, Unharmed target (schema.decodeText hints text target)) ∧
      (∀ deliveries, Unharmed target
        (schema.decodeStream hints (.ofBytes (.ofDeliveries deliveries)) target)) ∧
      ∀ tokens updates, registry.updates hints tokens = .ok updates →
        (Update.applyAll target (updates.filterMap id)).1 = .ok () :=
  ⟨fun tokens ↦ registry.unharmed_decode hints tokens target,
    fun tokens ↦ schema.unharmed_decode hints tokens target,
    fun text ↦ schema.unharmed_decodeStream hints (.ofText text) target,
    fun deliveries ↦
      schema.unharmed_decodeStream hints (.ofBytes (.ofDeliveries deliveries)) target,
    fun _ _ hupdates ↦ Registry.applyAll_of_updates hupdates target⟩

/-- The second of two values is no integer, so the first one is not written either. A single good
value that a hint attributes to the section is written. -/
theorem decoding_atomic_halfway :
    ∃ (schema : Schema Table) (registry : Registry Table) (updates : List (Option (Update Table))),
      schema.registry = .ok registry ∧
      schema.decodeText .empty "s \x7b\n\ta = 1\n\tb = x\n\x7d\n" .blank =
        (.error (.invalidInteger "b" "x" 3), .blank) ∧
      registry.updates (OrderedMap.empty.insert "a" "s")
          [⟨.identifier, "a", none, none, false⟩, ⟨.assignment, "=", none, none, false⟩,
            ⟨.int64, "1", none, none, false⟩] = .ok updates ∧
      (Update.applyAll .blank (updates.filterMap id)).1 = .ok () := by
  let schema : Schema Table := ⟨[⟨"s", [⟨"a", .slot (Table.slot .int64 (0, 0)), false⟩,
    ⟨"b", .slot (Table.slot .int64 (0, 1)), false⟩], false⟩]⟩
  let registry : Registry Table := (Index.empty.insert ⟨"s", "a"⟩ (Table.slot .int64 (0, 0))).insert
    ⟨"s", "b"⟩ (Table.slot .int64 (0, 1))
  have herror : (schema.decodeText .empty "s \x7b\n\ta = 1\n\tb = x\n\x7d\n" .blank).1 =
      .error (.invalidInteger "b" "x" 3) := by
    decide +kernel
  have hupdates : registry.updates (OrderedMap.empty.insert "a" "s")
      [⟨.identifier, "a", none, none, false⟩, ⟨.assignment, "=", none, none, false⟩,
        ⟨.int64, "1", none, none, false⟩] =
          .ok [some ⟨⟨"s", "a"⟩, Table.slot .int64 (0, 0), .int64 1⟩] :=
    rfl
  obtain ⟨_, _, htext, _, _⟩ := decoding_atomic registry schema .empty Table.blank
  obtain ⟨_, _, _, _, happlied⟩ :=
    decoding_atomic registry schema (OrderedMap.empty.insert "a" "s") Table.blank
  exact ⟨schema, registry, _, rfl, Prod.ext herror (htext _ _ herror), hupdates,
    happlied _ _ hupdates⟩

end SectionedConfig

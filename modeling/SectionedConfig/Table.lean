import SectionedConfig.Schema

/-!
# Tables

A target whose members are numbered: each section has a number, and each field in it. Every place
of a table holds an integer and a string, of which the schema uses the one that it declares. What is
written at one number of a table is read back there and seen at no other number. A schema that gives
every bound place a number of its own therefore has separate slots.
-/

namespace SectionedConfig

/-- Integers and strings at numbered places. -/
structure Table where
  integers : Nat × Nat → Int64
  strings : Nat × Nat → String

namespace Table

/-- The table that holds zero and the empty text everywhere. -/
def blank : Table := ⟨fun _ ↦ 0, fun _ ↦ ""⟩

/-- Overwrites the integer at a place. -/
def setInteger (place : Nat × Nat) (number : Int64) (table : Table) : Table :=
  { table with integers := fun other ↦ if other = place then number else table.integers other }

/-- Overwrites the string at a place. -/
def setString (place : Nat × Nat) (text : String) (table : Table) : Table :=
  { table with strings := fun other ↦ if other = place then text else table.strings other }

/-- The slot of the given kind at a place. -/
def slot (kind : SlotKind) (place : Nat × Nat) : Slot Table :=
  match kind with
  | .int64 => .int64 (fun table ↦ table.integers place) (setInteger place)
  | .string => .string (fun table ↦ table.strings place) (setString place)

theorem lawful_slot (kind : SlotKind) (number : Nat × Nat) : (slot kind number).Lawful := by
  intro place value table after h
  cases kind <;> cases value <;> cases h <;> simp [slot, Slot.read, setInteger, setString]

theorem slot_spares_of_ne {number other : Nat × Nat} (h : number ≠ other) (kind kind' : SlotKind) :
    (slot kind number).Spares fun table ↦ (slot kind' other).read table := by
  intro place value table after hwrite
  cases kind <;> cases kind' <;> cases value <;> cases hwrite <;>
    simp [slot, Slot.read, setInteger, setString, Ne.symm h]

/-- Slots with numbers of their own are separate. -/
theorem separate_of_numbers {schema : Schema Table} (number : Place → Nat × Nat)
    (hslot : ∀ place slot, schema.Binds place slot → ∃ kind, slot = Table.slot kind (number place))
    (hnumber : ∀ place slot other slot', schema.Binds place slot → schema.Binds other slot' →
      number place = number other → place = other) : schema.Separate where
  lawful := by
    intro place slot hbinds
    obtain ⟨kind, rfl⟩ := hslot place slot hbinds
    exact lawful_slot kind (number place)
  apart := by
    intro place slot other slot' hbinds hother hne
    obtain ⟨kind, rfl⟩ := hslot place slot hbinds
    obtain ⟨kind', rfl⟩ := hslot other slot' hother
    have hapart : number place ≠ number other := fun heq ↦
      hne (hnumber place _ other _ hbinds hother heq)
    exact slot_spares_of_ne hapart kind kind'

end Table

end SectionedConfig

import SectionedConfig.Index
import SectionedConfig.Value

/-!
# Schemas

A schema describes a type of targets in two levels: sections, and fields in them. A field has a slot
in the target that holds an integer or a string. Members can be left out, and a member can turn out
to be of a type that no slot fits, which is an error of the schema.
-/

namespace SectionedConfig

universe u

/-- The kinds of slots. -/
inductive SlotKind where
  | int64
  | string
deriving DecidableEq

/-- The name of a kind in messages. -/
def SlotKind.name : SlotKind → String
  | int64 => "int64"
  | string => "string"

/-- A location in a target that can be read and overwritten. -/
inductive Slot (Target : Type) where
  | int64 (get : Target → Int64) (set : Int64 → Target → Target)
  | string (get : Target → String) (set : String → Target → Target)

namespace Slot

variable {Target : Type} {α : Type u}

/-- The kind of a slot. -/
def kind : Slot Target → SlotKind
  | int64 _ _ => .int64
  | string _ _ => .string

/-- What a slot holds. -/
def read (target : Target) : Slot Target → Value
  | int64 get _ => .int64 (get target)
  | string get _ => .string (get target)

/-- The complaint that something of the kind called `found` does not fit the slot at a place. -/
def mismatch (slot : Slot Target) (place : Place) (found : String) : Error :=
  .typeMismatch place.sectionName place.field slot.kind.name found

/-- Overwrites the slot at a place with a value of its kind. -/
def write (place : Place) (value : Value) (target : Target) :
    Slot Target → Except Error Target
  | int64 get set =>
    match value with
    | .int64 number => .ok (set number target)
    | other => .error ((int64 get set).mismatch place other.kindName)
  | string get set =>
    match value with
    | .string text => .ok (set text target)
    | other => .error ((string get set).mismatch place other.kindName)

/-- The slot holds what was written to it last. -/
def Lawful (slot : Slot Target) : Prop :=
  ∀ place value target after, slot.write place value target = .ok after → slot.read after = value

/-- Writing to the slot does not change the view. -/
def Spares (slot : Slot Target) (view : Target → α) : Prop :=
  ∀ place value target after, slot.write place value target = .ok after → view after = view target

end Slot

/-- What a schema knows about the type of a member. -/
inductive Leaf (Target : Type) where
  /-- The member is a slot. -/
  | slot (slot : Slot Target)
  /-- The member is of a type that holds neither an integer nor a string. -/
  | unsupported (typeName : String)

/-- A member of a section. -/
structure Field (Target : Type) where
  key : String
  leaf : Leaf Target
  /-- Whether the member is left out; its key is not checked then. -/
  ignored : Bool := false

/-- A member of a target that is a section. -/
structure Section (Target : Type) where
  name : String
  fields : List (Field Target)
  /-- Whether the member is left out, with everything in it. -/
  ignored : Bool := false

/-- The description of a type of targets. -/
structure Schema (Target : Type) where
  sections : List (Section Target)

/-- A slot and its place. -/
abbrev Binding (Target : Type) := Place × Slot Target

variable {Target : Type}

/-- The binding of a field, unless it is left out. -/
def Field.binding (sectionName : String) (field : Field Target) :
    Except Error (Option (Binding Target)) :=
  if field.ignored then .ok none
  else
    (checkName field.key).bind fun _ ↦
      match field.leaf with
      | .slot slot => .ok (some (⟨sectionName, field.key⟩, slot))
      | .unsupported typeName => .error (.unsupportedKind sectionName field.key typeName)

/-- The bindings of the fields of a section, unless it is left out. -/
def Section.bindings (member : Section Target) : Except Error (List (Binding Target)) :=
  if member.ignored then .ok []
  else
    (checkName member.name).bind fun _ ↦
      (member.fields.mapM (Field.binding member.name)).map fun bindings ↦ bindings.filterMap id

/-- All bindings in the order of their declaration. -/
def Schema.bindings (schema : Schema Target) : Except Error (List (Binding Target)) :=
  (schema.sections.mapM Section.bindings).map List.flatten

/-! ## What a schema binds -/

/-- The field is bound to the slot. -/
def Field.Binds (field : Field Target) (slot : Slot Target) : Prop :=
  field.ignored = false ∧ field.leaf = .slot slot

/-- A field of the section with this key is bound to the slot. -/
def Section.Binds (member : Section Target) (key : String) (slot : Slot Target) : Prop :=
  member.ignored = false ∧ ∃ field ∈ member.fields, field.key = key ∧ field.Binds slot

/-- A field at the place is bound to the slot. -/
def Schema.Binds (schema : Schema Target) (place : Place) (slot : Slot Target) : Prop :=
  ∃ member ∈ schema.sections, member.name = place.sectionName ∧ member.Binds place.field slot

/-- The bound slots are locations: each holds what was written to it last, and writing to one is
not seen in another one. A schema is made for this: it names one section per member of the target,
and each section names one key per member. -/
structure Schema.Separate (schema : Schema Target) : Prop where
  lawful : ∀ place slot, schema.Binds place slot → slot.Lawful
  apart : ∀ place slot other slot', schema.Binds place slot → schema.Binds other slot' →
    place ≠ other → slot.Spares fun target ↦ slot'.read target

end SectionedConfig

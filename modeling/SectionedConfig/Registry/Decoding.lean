import SectionedConfig.Assignment
import SectionedConfig.TokenStream
import SectionedConfig.OrderedMap
import SectionedConfig.Registry

/-!
# Decoding into a target

Every assignment is attributed to a section: the one that a hint names for its key, else the one
around it, else the nameless one. If a slot is bound there, the value is converted to its kind;
other assignments are skipped. The slots are overwritten after all assignments have been converted,
in order, so that the last assignment to a slot counts.
-/

namespace SectionedConfig

variable {Target : Type}

/-- The sections that keys belong to wherever they are assigned. -/
abbrev Hints := OrderedMap String

/-- The place that an assignment is attributed to. -/
def Assignment.place (hints : Hints) (assignment : Assignment) : Place :=
  let sectionName := (hints.get? assignment.key.value).or assignment.enclosing
  ⟨sectionName.getD "", assignment.key.value⟩

/-- The value that a token gives to the slot at a place. -/
def Slot.convert (place : Place) (token : Token) (slot : Slot Target) : Except Error Value :=
  match slot.kind, token.kind with
  | .int64, .int64 => (Assignment.integer place.field token).map Value.int64
  | .string, .string => .ok (.string token.value)
  | _, kind => .error (slot.mismatch place kind.name)

/-- A value that is to be written to a slot. -/
structure Update (Target : Type) where
  place : Place
  slot : Slot Target
  value : Value

/-- Writes values one after the other. It stops at the first one that does not fit; what has been
written before that stays written. -/
def Update.applyAll (target : Target) : List (Update Target) → Except Error Unit × Target
  | [] => (.ok (), target)
  | update :: rest =>
    match update.slot.write update.place update.value target with
    | .error error => (.error error, target)
    | .ok target => applyAll target rest

namespace Registry

/-- The update that an assignment asks for, if a slot is bound at its place. -/
def update? (registry : Registry Target) (hints : Hints) (assignment : Assignment) :
    Except Error (Option (Update Target)) :=
  let place := assignment.place hints
  match registry.get? place with
  | none => .ok none
  | some slot => (slot.convert place assignment.value).map fun value ↦ some ⟨place, slot, value⟩

/-- The updates that tokens ask for, and nothing for the assignments that are skipped. -/
def updates (registry : Registry Target) (hints : Hints) (tokens : List Token) :
    Except Error (List (Option (Update Target))) :=
  (Assignment.walk tokens).traverse (registry.update? hints)

/-- Decodes tokens into a target. The target is answered in any case. -/
def decode (registry : Registry Target) (hints : Hints) (tokens : List Token) (target : Target) :
    Except Error Unit × Target :=
  match registry.updates hints tokens with
  | .error error => (.error error, target)
  | .ok updates => Update.applyAll target (updates.filterMap id)

end Registry

namespace Schema

/-- Decodes tokens into a target that a schema describes. -/
def decode (schema : Schema Target) (hints : Hints) (tokens : List Token) (target : Target) :
    Except Error Unit × Target :=
  match schema.registry with
  | .error error => (.error error, target)
  | .ok registry => registry.decode hints tokens target

/-- Decodes what a token stream has left. It is read before the schema is looked at. -/
def decodeStream (schema : Schema Target) (hints : Hints) (stream : TokenStream)
    (target : Target) : Except Error Unit × Target :=
  match stream.checked with
  | .error error => (.error error, target)
  | .ok tokens => schema.decode hints tokens target

/-- Decodes a text. -/
def decodeText (schema : Schema Target) (hints : Hints) (text : String) (target : Target) :
    Except Error Unit × Target :=
  schema.decodeStream hints (.ofText text) target

end Schema

end SectionedConfig

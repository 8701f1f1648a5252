import SectionedConfig.Encoding
import SectionedConfig.Schema

/-!
# Registries

A registry holds the bindings of a schema, sorted by place, with no two at the same place. It is
built once and serves any number of decodings and encodings. A target is encoded by reading the
bound slots in the order of their places and writing one block for each section.
-/

namespace SectionedConfig

variable {Target : Type}

/-- The bindings of a schema by place. -/
abbrev Registry (Target : Type) := Index (Slot Target)

namespace Registry

/-- Adds a binding. Its place must be free. -/
def add (registry : Registry Target) (binding : Binding Target) :
    Except Error (Registry Target) :=
  if (registry.get? binding.1).isSome then
    .error (.duplicateBinding binding.1.sectionName binding.1.field)
  else .ok (registry.insert binding.1 binding.2)

/-- The registry of bindings, none of which may repeat the place of an earlier one. -/
def ofBindings (bindings : List (Binding Target)) : Except Error (Registry Target) :=
  bindings.foldlM add .empty

/-- What a bound slot holds. -/
def read? (registry : Registry Target) (place : Place) (target : Target) : Option Value :=
  (registry.get? place).map (Slot.read target)

/-- Overwrites a bound slot, and says whether there is one. -/
def write? (registry : Registry Target) (place : Place) (value : Value) (target : Target) :
    Except Error (Option Target) :=
  match registry.get? place with
  | none => .ok none
  | some slot => (slot.write place value target).map some

/-- A binding as it is listed for inspection. -/
def describeBinding (binding : Binding Target) : String :=
  "FieldBinding \x7b section: " ++ Text.quoted binding.1.sectionName ++ ", key: " ++
    Text.quoted binding.1.field ++ ", kind: " ++
    (match binding.2.kind with
      | .int64 => "Int64"
      | .string => "String") ++ " \x7d"

/-- All bindings as they are listed for inspection. -/
def describe (registry : Registry Target) : String :=
  "[" ++ ", ".intercalate (registry.entries.map describeBinding) ++ "]"

end Registry

/-- The registry of a schema. -/
def Schema.registry (schema : Schema Target) : Except Error (Registry Target) :=
  schema.bindings.bind Registry.ofBindings

/-! ## Encoding a target -/

/-- The assignment of what a slot holds to a field. -/
def Slot.encode (target : Target) (field : String) : Slot Target → Except Error Statement
  | .int64 get _ => .ok (.assignInt64 field (get target))
  | .string get _ => encodeString field (get target)

namespace Registry

/-- The assignments of a section. -/
def encodeSection (target : Target) (block : String × List (String × Slot Target)) :
    Except Error (String × List Statement) :=
  (block.2.mapM fun (entry : String × Slot Target) ↦ entry.2.encode target entry.1).map
    fun assignments ↦ (block.1, assignments)

/-- The document of a target. -/
def toDocument (registry : Registry Target) (header : Option String) (target : Target) :
    Except Error Document :=
  (registry.sections.mapM (encodeSection target)).map (Document.ofSections header)

/-- Encodes a target, below a header of comments. -/
def encode (registry : Registry Target) (header : Option String) (target : Target) :
    Except Error String :=
  (registry.toDocument header target).bind Document.render

end Registry

/-- Encodes a target that a schema describes. -/
def Schema.encode (schema : Schema Target) (header : Option String) (target : Target) :
    Except Error String :=
  schema.registry.bind fun registry ↦ registry.encode header target

end SectionedConfig

import SectionedConfig.ConfigMap
import SectionedConfig.Encoding
import SectionedConfig.Index

/-!
# Encoding flat maps

The keys are checked in the order of the map, then the values in the order of their places. The text
has one block for each section, and both sections and fields are sorted, so it does not depend on
the order of the map.
-/

namespace SectionedConfig

/-- The place that a composed key stands for. There has to be exactly one separator, with a name on
each side. -/
def placeOfKey (key : String) : Except Error Place :=
  match splitKey? key with
  | none => .error (.invalidKey key)
  | some (sectionName, field) =>
    if sectionName.isEmpty ∨ field.isEmpty ∨ keySeparator ∈ field.toList then
      .error (.invalidKey key)
    else
      (checkName sectionName).bind fun _ ↦ (checkName field).map fun _ ↦ ⟨sectionName, field⟩

/-- The assignment of a value to a field, if it reads back as the value. -/
def Value.encode (field : String) (value : Value) : Except Error Statement :=
  match value with
  | .int64 number => .ok (.assignInt64 field number)
  | .string text =>
    match textFault? text with
    | some fault => .error (fault.toError field)
    | none =>
      if '[' ∈ text.toList then .error (ValueFault.bracket.toError field)
      else .ok (.assignString field text)
  | .list items =>
    match items.findSome? itemFault? with
    | some fault => .error (fault.toError field)
    | none => .ok (.assignList field value.text)
  | .emptyList => .ok (.assignList field value.text)

namespace ConfigMap

/-- The entries of a map by section and field. -/
def index (map : ConfigMap) : Except Error (Index Value) :=
  (map.entries.mapM fun entry ↦ (placeOfKey entry.1).map fun place ↦ (place, entry.2)).map
    fun entries ↦ entries.foldl (fun index entry ↦ index.insert entry.1 entry.2) .empty

/-- The assignments of a section. -/
def encodeSection (block : String × List (String × Value)) :
    Except Error (String × List Statement) :=
  (block.2.mapM fun (entry : String × Value) ↦ entry.2.encode entry.1).map
    fun assignments ↦ (block.1, assignments)

/-- The document of a map. -/
def toDocument (header : Option String) (map : ConfigMap) : Except Error Document :=
  (map.index).bind fun index ↦
    (index.sections.mapM encodeSection).map (Document.ofSections header)

/-- Encodes a map, below a header of comments. -/
def encode (header : Option String) (map : ConfigMap) : Except Error String :=
  (map.toDocument header).bind Document.render

end ConfigMap

end SectionedConfig

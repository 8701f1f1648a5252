import SectionedConfig.Assignment
import SectionedConfig.TokenStream
import SectionedConfig.OrderedMap
import SectionedConfig.Value

/-!
# Flat maps

A configuration without a schema is a map from keys to values. An assignment inside a section has
the key `section/field`, one outside any section its bare key. Decoding keeps the order in which the
keys were first assigned and the value that was assigned last.
-/

namespace SectionedConfig

/-- A configuration as a map from composed keys to values. -/
abbrev ConfigMap := OrderedMap Value

/-- What separates section and field in a composed key. -/
def keySeparator : Char := '/'

/-- The composed key of a field of a section. -/
def composeKey (sectionName field : String) : String :=
  sectionName ++ String.singleton keySeparator ++ field

/-- The section and the field of a composed key, cut at the first separator. -/
def splitKey? (key : String) : Option (String × String) :=
  (Text.cutFirst keySeparator key.toList).map fun (sectionName, field) ↦
    (String.ofList sectionName, String.ofList field)

namespace Assignment

/-- The key under which an assignment is stored. -/
def composedKey (assignment : Assignment) : String :=
  match assignment.enclosing with
  | some sectionName => composeKey sectionName assignment.key.value
  | none => assignment.key.value

/-- The entry that an assignment makes. -/
def entry (assignment : Assignment) : Except Error (String × Value) :=
  let key := assignment.composedKey
  if assignment.value.kind = .int64 then
    (integer key assignment.value).map fun number ↦ (key, .int64 number)
  else .ok (key, .ofText assignment.value.value)

end Assignment

namespace ConfigMap

/-- The value of a field of a section. -/
def getIn? (map : ConfigMap) (sectionName field : String) : Option Value :=
  map.get? (composeKey sectionName field)

/-- The fields of a section with their values, in the order of the map. -/
def sectionEntries (map : ConfigMap) (name : String) : List (String × Value) :=
  map.entries.filterMap fun entry ↦
    (splitKey? entry.1).bind fun (sectionName, field) ↦
      if sectionName = name then some (field, entry.2) else none

/-- Decodes tokens. -/
def ofTokens (tokens : List Token) : Except Error ConfigMap :=
  ((Assignment.walk tokens).traverse Assignment.entry).map OrderedMap.ofList

/-- Decodes what a token stream has left. -/
def ofStream (stream : TokenStream) : Except Error ConfigMap :=
  stream.checked.bind ofTokens

/-- Decodes a text. -/
def ofText (text : String) : Except Error ConfigMap :=
  ofStream (.ofText text)

/-- Decodes bytes, which are checked to be text before anything else. -/
def ofBytes (bytes : List UInt8) : Except Error ConfigMap :=
  match Text.Utf8.decode bytes with
  | .ok text => ofText (String.ofList text)
  | .error fault => .error (.stream fault.message)

end ConfigMap

end SectionedConfig

import SectionedConfig.ConfigMap
import SectionedConfig.Decimal

/-!
# Values as JSON

A value is written to JSON as a string, a number or an array of strings, and a map as an object in
the order of its entries. Reading accepts the same three forms, an empty array being the empty list.
Anything else is refused with a description of what was found.
-/

namespace SectionedConfig

/-- A JSON value. Numbers are integers if they were written as such and fit in 64 bits. -/
inductive Json where
  | null
  | boolean (truth : Bool)
  | integer (number : Int)
  | floating (number : Float)
  | string (text : String)
  | array (items : List Json)
  | object (members : List (String × Json))
deriving Inhabited

namespace Json

/-- The escape of a character in a JSON string. -/
def escape (c : Char) : List Char :=
  if c = '"' then ['\\', '"']
  else if c = '\\' then ['\\', '\\']
  else if c = '\x08' then ['\\', 'b']
  else if c = '\x0c' then ['\\', 'f']
  else if c = '\n' then ['\\', 'n']
  else if c = '\r' then ['\\', 'r']
  else if c = '\t' then ['\\', 't']
  else if c.toNat < 0x20 then
    let digits := Nat.toDigits 16 c.toNat
    ['\\', 'u'] ++ List.replicate (4 - digits.length) '0' ++ digits
  else [c]

/-- A text as a JSON string. -/
def quote (text : String) : String :=
  String.ofList ('"' :: text.toList.flatMap escape ++ ['"'])

/-- Texts as a JSON array. -/
def arrayOf (items : List String) : String :=
  "[" ++ ",".intercalate (items.map quote) ++ "]"

/-- Numbers from `10 ^ -5` and below `10 ^ 16` are written in positional notation. -/
def floatStyle : Decimal.Style := ⟨-5, 15⟩

/-- What a JSON value is called when it is not wanted. -/
def describe : Json → String
  | null => "null"
  | boolean truth => "boolean `" ++ (if truth then "true" else "false") ++ "`"
  | integer number => "integer `" ++ String.ofList (Decimal.write number) ++ "`"
  | floating number => "floating point `" ++ (Decimal.writeFloat? floatStyle number).getD "" ++ "`"
  | string text => "string " ++ Text.quoted text
  | array _ => "sequence"
  | object _ => "map"

end Json

/-- Why a JSON value is no value of a configuration. -/
inductive JsonFault where
  /-- It is none of the three forms. -/
  | notValue (found : Json)
  /-- An item of a list is not a string. -/
  | notString (found : Json)
  /-- It is an integer above the greatest one that fits. -/
  | outOfRange (number : Int)

/-- The wording of a fault. -/
def JsonFault.message : JsonFault → String
  | notValue found =>
    "invalid type: " ++ found.describe ++
      ", expected a string, a 64-bit integer or a list of strings"
  | notString found => "invalid type: " ++ found.describe ++ ", expected a string"
  | outOfRange number =>
    "integer " ++ String.ofList (Decimal.write number) ++ " out of range for int64"

/-- The text of a JSON string. -/
def Json.toText : Json → Except JsonFault String
  | .string text => .ok text
  | other => .error (.notString other)

namespace Value

/-- Reads a value from JSON. -/
def ofJson : Json → Except JsonFault Value
  | .string text => .ok (.string text)
  | .integer number =>
    if Decimal.fits number then .ok (.int64 (Int64.ofInt number))
    else .error (.outOfRange number)
  | .array items => (items.mapM Json.toText).map ofItems
  | other => .error (.notValue other)

/-- Writes a value to JSON. -/
def toJson : Value → String
  | string text => Json.quote text
  | int64 number => Decimal.writeInt64 number
  | list items => Json.arrayOf items
  | emptyList => "[]"

end Value

/-- Writes a map to JSON. -/
def ConfigMap.toJson (map : ConfigMap) : String :=
  "\x7b" ++
    ",".intercalate (map.entries.map fun entry ↦ Json.quote entry.1 ++ ":" ++ entry.2.toJson) ++
    "\x7d"

end SectionedConfig

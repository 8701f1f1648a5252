import SectionedConfig.Decimal
import SectionedConfig.Error
import SectionedConfig.Text.Blank
import SectionedConfig.Text.Separators

/-!
# Values

What an assignment can hold: a string, a 64-bit integer, or a list of strings. The empty list is a
value of its own, because it is written without any item.
-/

namespace SectionedConfig

open Text

/-- A value of an assignment. -/
inductive Value where
  | string (text : String)
  | int64 (number : Int64)
  | list (items : List String)
  | emptyList
deriving DecidableEq

namespace Value

/-- The list of some items. -/
def ofItems : List String → Value
  | [] => emptyList
  | items => list items

/-- The truth values are the integers zero and one. -/
def ofBool (truth : Bool) : Value :=
  int64 (if truth then 1 else 0)

/-- The name of the kind of a value in messages. -/
def kindName : Value → String
  | string _ => "string"
  | int64 _ => "int64"
  | list _ => "list"
  | emptyList => "empty list"

/-- The text of a string. -/
def text? : Value → Option String
  | string text => some text
  | _ => none

/-- The number of an integer. -/
def number? : Value → Option Int64
  | int64 number => some number
  | _ => none

/-- The items of a list, empty or not. -/
def items? : Value → Option (List String)
  | list items => some items
  | emptyList => some []
  | _ => none

/-- The complaint that a value is not of the kind called `expected`. -/
def unexpected (expected : String) (value : Value) : Error :=
  .custom ("expected " ++ expected ++ ", found " ++ value.kindName)

/-- The number of an integer, or a complaint. -/
def toInt64 (value : Value) : Except Error Int64 :=
  match value with
  | int64 number => .ok number
  | other => .error (other.unexpected "int64")

/-- The text of a string, or a complaint. -/
def toText (value : Value) : Except Error String :=
  match value with
  | string text => .ok text
  | other => .error (other.unexpected "string")

/-- Items in quotation marks, separated by commas, in brackets. -/
def listText (items : List String) : String :=
  "[" ++ ", ".intercalate (items.map fun item ↦ "\"" ++ item ++ "\"") ++ "]"

/-- A value as it is written in an assignment, but for the quotation marks around a string. -/
def text : Value → String
  | string text => text
  | int64 number => Decimal.writeInt64 number
  | list items => listText items
  | emptyList => "[]"

/-- Drops the quotation marks at both ends of a text. -/
def unquote (text : List Char) : List Char :=
  strip (· == '"') text

/-- What stands inside the brackets of a list. -/
def insideBrackets (text : List Char) : List Char :=
  trim (stripEnd (· == ']') (stripStart (· == '[') (trim text)))

/-- The value of a text token. An opening bracket anywhere makes a list of it, whose items lose the
white space and the quotation marks around them. -/
def ofText (text : String) : Value :=
  let chars := text.toList
  if '[' ∈ chars then
    let inside := insideBrackets chars
    if inside.isEmpty then emptyList
    else list ((splitAll ',' inside).map fun item ↦ String.ofList (unquote (trim item)))
  else string (String.ofList (unquote chars))

end Value

end SectionedConfig

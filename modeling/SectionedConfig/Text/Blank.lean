/-!
# Blank characters and stripping

Character properties are tables of code points. Layout characters are those with the Unicode
property `White_Space`. Names and values lose them at both ends. Stripping is defined for any class
of characters, since list items also lose quotation marks and brackets.
-/

namespace SectionedConfig.Text

/-- A set of code points as inclusive ranges, lowest bound first in each pair. -/
abbrev Ranges := List (Nat × Nat)

/-- A character belongs to a table if one of its ranges holds the code point. -/
def Ranges.has (ranges : Ranges) (c : Char) : Bool :=
  ranges.any fun range ↦ range.1 ≤ c.toNat && c.toNat ≤ range.2

/-- The code points with the Unicode property `White_Space`. -/
def blankRanges : Ranges :=
  [(0x09, 0x0D), (0x20, 0x20), (0x85, 0x85), (0xA0, 0xA0), (0x1680, 0x1680), (0x2000, 0x200A),
    (0x2028, 0x2029), (0x202F, 0x202F), (0x205F, 0x205F), (0x3000, 0x3000)]

/-- White space of any kind, line feeds included. -/
def isBlank (c : Char) : Bool :=
  blankRanges.has c

/-- Drops the characters of a class from the start of a text. -/
def stripStart (dropped : Char → Bool) (text : List Char) : List Char :=
  text.dropWhile dropped

/-- Drops the characters of a class from the end of a text. -/
def stripEnd (dropped : Char → Bool) (text : List Char) : List Char :=
  (text.reverse.dropWhile dropped).reverse

/-- Drops the characters of a class from both ends of a text. -/
def strip (dropped : Char → Bool) (text : List Char) : List Char :=
  stripEnd dropped (stripStart dropped text)

/-- A text without the white space around it. -/
def trim (text : List Char) : List Char :=
  strip isBlank text

/-- The white space that a text starts with. -/
def margin (text : List Char) : List Char :=
  text.takeWhile isBlank

/-- The number of bytes that a text takes in UTF-8. -/
def byteSize : List Char → Nat
  | [] => 0
  | c :: rest => c.utf8Size + byteSize rest

@[simp]
theorem byteSize_nil : byteSize [] = 0 := rfl

@[simp]
theorem byteSize_cons (c : Char) (text : List Char) :
    byteSize (c :: text) = c.utf8Size + byteSize text := rfl

@[simp]
theorem byteSize_append (first second : List Char) :
    byteSize (first ++ second) = byteSize first + byteSize second := by
  induction first with
  | nil => simp
  | cons c rest ih => rw [List.cons_append, byteSize_cons, byteSize_cons, ih, Nat.add_assoc]

/-- The margin and what stripping at the start leaves make up the whole text. -/
theorem margin_append_stripStart (text : List Char) :
    margin text ++ stripStart isBlank text = text :=
  List.takeWhile_append_dropWhile

end SectionedConfig.Text

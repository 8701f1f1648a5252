/-!
# Decimal notation

A numeral of a 64-bit integer is an optional sign and one or more digits `0` to `9`; leading zeros
are allowed. Its value is computed without a bound and then has to fit. Writing uses no plus sign
and no leading zeros.

A finite double is an integer times a power of two. All real numbers nearer to it than to any other
double read back as it, and so do the two midpoints if the integer is even. Among the decimals that
read back, the ones with the fewest digits are wanted, and of those the nearest. On the grid of all
decimals with a given number of digits only the two neighbours of the double have to be tested,
because a grid point that reads back is no nearer to the double than they are. All arithmetic is on
natural numbers, so nothing is rounded on the way.

A decimal is written in positional notation if its first digit stands near the point, and in
scientific notation otherwise. Positional notation has at least one digit on each side of the point.
Scientific notation has a point only if digits follow it, and its exponent always has a sign.
-/

namespace SectionedConfig.Decimal

/-! ## Integers -/

/-- The decimal digits of an integer, after a minus sign if it is negative. -/
def write (n : Int) : List Char :=
  if n < 0 then '-' :: Nat.toDigits 10 n.natAbs else Nat.toDigits 10 n.natAbs

/-- The number that a text of decimal digits denotes; there has to be at least one. -/
def readDigits? (text : List Char) : Option Nat :=
  if text ≠ [] ∧ text.all Char.isDigit then some (Nat.ofDigitChars 10 text 0) else none

/-- The integer that a numeral denotes. -/
def read? : List Char → Option Int
  | '+' :: digits => (readDigits? digits).map fun n ↦ (n : Int)
  | '-' :: digits => (readDigits? digits).map fun n ↦ -(n : Int)
  | digits => (readDigits? digits).map fun n ↦ (n : Int)

/-- The integers that 64 bits can hold. -/
def fits (n : Int) : Bool :=
  Int64.minValue.toInt ≤ n && n ≤ Int64.maxValue.toInt

/-- The 64-bit integer that a numeral denotes, if there is one. -/
def readInt64? (text : List Char) : Option Int64 :=
  (read? text).bind fun n ↦ if fits n then some (Int64.ofInt n) else none

/-- The numeral of a 64-bit integer. -/
def writeInt64 (n : Int64) : String :=
  String.ofList (write n.toInt)

/-- The digits of a natural number read back as it. -/
theorem readDigits?_toDigits (n : Nat) : readDigits? (Nat.toDigits 10 n) = some n := by
  have hdigits : (Nat.toDigits 10 n).all Char.isDigit :=
    List.all_eq_true.mpr fun _ h ↦ Nat.isDigit_of_mem_toDigits (by decide) (by decide) h
  simp [readDigits?, hdigits, Nat.toDigits_ne_nil, Nat.ofDigitChars_ten_toDigits]

/-! ## The shortest decimal of a double -/

/-- The size of a finite double: an integer times a power of two. -/
structure Binary where
  /-- The integer, below `2 ^ 53`. -/
  mantissa : Nat
  /-- The exponent of two. -/
  exponent : Int
deriving DecidableEq

/-- The size of a double, which infinities and indeterminate values do not have. -/
def Binary.ofFloat? (x : Float) : Option Binary :=
  let bits := x.toBits.toNat
  let biased : Nat := bits / Nat.pow 2 52 % Nat.pow 2 11
  let fraction : Nat := bits % Nat.pow 2 52
  if biased = 2047 then none
  else if biased = 0 then some ⟨fraction, -1074⟩
  else some ⟨Nat.pow 2 52 + fraction, (biased : Int) - 1075⟩

/-- A natural number times a power of ten. -/
structure Scaled where
  /-- The digits, as a number. -/
  digits : Nat
  /-- The exponent of ten. -/
  exponent : Int
deriving DecidableEq

namespace Binary

/-- Four times the mantissa, so that the midpoints to the neighbouring doubles are integers. -/
def quarters (x : Binary) : Nat :=
  4 * x.mantissa

/-- The lower midpoint; below a power of two the doubles lie twice as dense. -/
def lowMidpoint (x : Binary) : Nat :=
  if x.mantissa = Nat.pow 2 52 ∧ x.exponent > -1074 then x.quarters - 1 else x.quarters - 2

/-- The upper midpoint. -/
def highMidpoint (x : Binary) : Nat :=
  x.quarters + 2

/-- The factor that brings quarters of the double to the common scale with multiples of
`10 ^ grid`. -/
def quarterFactor (x : Binary) (grid : Int) : Nat :=
  Nat.pow 2 (x.exponent - 2).toNat * Nat.pow 10 (-grid).toNat

/-- The factor that brings multiples of `10 ^ grid` to the common scale. -/
def gridFactor (x : Binary) (grid : Int) : Nat :=
  Nat.pow 10 grid.toNat * Nat.pow 2 (2 - x.exponent).toNat

/-- Whether `count * 10 ^ grid` reads back as the double. -/
def readsBack (x : Binary) (grid : Int) (count : Nat) : Bool :=
  let low := x.lowMidpoint * x.quarterFactor grid
  let high := x.highMidpoint * x.quarterFactor grid
  let point := count * x.gridFactor grid
  if x.mantissa % 2 = 0 then low ≤ point && point ≤ high else low < point && point < high

/-- How many multiples of `10 ^ grid` fit into the double. -/
def floorOn (x : Binary) (grid : Int) : Nat :=
  x.quarters * x.quarterFactor grid / x.gridFactor grid

/-- The exponent of the least power of ten above the double. No double is below `10 ^ -400`. -/
def magnitude (x : Binary) : Int :=
  (Nat.toDigits 10 (x.floorOn (-400))).length - 400

/-- The multiple of `10 ^ grid` that is nearest to the double; a tie goes to the even one. -/
def roundOn (x : Binary) (grid : Int) : Nat :=
  let below := x.floorOn grid
  let middle := (2 * below + 1) * x.gridFactor grid
  let double := 2 * x.quarters * x.quarterFactor grid
  if middle < double ∨ (middle = double ∧ below % 2 = 1) then below + 1 else below

/-- The decimal on the grid `10 ^ grid` that reads back and is nearest. -/
def nearestOn? (x : Binary) (grid : Int) : Option Scaled :=
  let below := x.floorOn grid
  match x.readsBack grid below, x.readsBack grid (below + 1) with
  | true, true => some ⟨x.roundOn grid, grid⟩
  | true, false => some ⟨below, grid⟩
  | false, true => some ⟨below + 1, grid⟩
  | false, false => none

/-- The shortest decimal that reads back. Seventeen digits always do. -/
def shortest (x : Binary) : Scaled :=
  let grids := (List.range 17).map fun (count : Nat) ↦ x.magnitude - ((count : Int) + 1)
  (grids.findSome? x.nearestOn?).getD ⟨x.floorOn (x.magnitude - 17), x.magnitude - 17⟩

end Binary

/-! ## The layout of decimals -/

/-- The powers of ten at which a first digit can stand in positional notation. -/
structure Style where
  least : Int
  greatest : Int

namespace Scaled

/-- The power of ten at which the first digit stands. -/
def leading (x : Scaled) : Int :=
  x.exponent + (Nat.toDigits 10 x.digits).length - 1

/-- Digits without the zeros at their end. -/
def significant (digits : List Char) : List Char :=
  (digits.reverse.dropWhile (· == '0')).reverse

/-- The decimal written without an exponent. -/
def positional (x : Scaled) : List Char :=
  let digits := Nat.toDigits 10 x.digits
  if 0 ≤ x.exponent then digits ++ List.replicate x.exponent.toNat '0' ++ ['.', '0']
  else
    let places := (-x.exponent).toNat
    let padded := List.replicate (places + 1 - digits.length) '0' ++ digits
    let fraction := significant (padded.drop (padded.length - places))
    padded.take (padded.length - places) ++
      '.' :: (if fraction.isEmpty then ['0'] else fraction)

/-- The decimal written with an exponent, after its first digit. -/
def scientific (x : Scaled) : List Char :=
  let digits := Nat.toDigits 10 x.digits
  let fraction := significant (digits.drop 1)
  let sign := if 0 ≤ x.leading then ['+'] else []
  digits.take 1 ++ (if fraction.isEmpty then [] else '.' :: fraction) ++
    'e' :: (sign ++ write x.leading)

/-- The decimal in the notation that a style asks for. -/
def layout (style : Style) (x : Scaled) : List Char :=
  if style.least ≤ x.leading ∧ x.leading ≤ style.greatest then x.positional else x.scientific

end Scaled

/-- A finite double with the fewest digits that read back. -/
def writeFloat? (style : Style) (x : Float) : Option String :=
  (Binary.ofFloat? x).map fun size ↦
    let sign := if x.toBits.toNat < Nat.pow 2 63 then [] else ['-']
    let digits := if size.mantissa = 0 then ['0', '.', '0'] else size.shortest.layout style
    String.ofList (sign ++ digits)

end SectionedConfig.Decimal

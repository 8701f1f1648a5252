import Mathlib.Data.Nat.Digits.Defs
import Mathlib.Data.Set.List
import SectionedConfig.Proofs.Decimal

/-!
# What a numeral denotes

A numeral is at most one sign and then one or more of the digits `0` to `9`, in any number and with
any zeros in front. It denotes the sum of its digits times powers of ten, without any bound. Reading
accepts the numerals and nothing else, and reading into 64 bits keeps exactly those of them whose
value lies within the bounds: nothing is reduced to fit.
-/

namespace SectionedConfig.Decimal

/-- What stands in front of the digits of a numeral. -/
inductive Sign where
  | absent
  | plus
  | minus
deriving DecidableEq

/-- A sign as it is written. -/
def Sign.text : Sign → List Char
  | absent => []
  | plus => ['+']
  | minus => ['-']

/-- What a sign multiplies the digits by. -/
def Sign.factor : Sign → Int
  | absent | plus => 1
  | minus => -1

/-- A numeral: a sign and at least one digit. -/
structure Numeral where
  sign : Sign
  /-- The digits, the first of which counts most. -/
  digits : List (Fin 10)
  nonempty : digits ≠ []

/-- A digit as it is written. -/
def digit (d : Fin 10) : Char :=
  Nat.digitChar d

/-- The sum of digits times powers of ten; the last one counts as it is. -/
def digitsValue (digits : List (Fin 10)) : Nat :=
  Nat.ofDigits 10 (digits.reverse.map Fin.val)

namespace Numeral

/-- A numeral as it is written. -/
def text (numeral : Numeral) : List Char :=
  numeral.sign.text ++ numeral.digits.map digit

/-- The integer that a numeral stands for. -/
def value (numeral : Numeral) : Int :=
  numeral.sign.factor * digitsValue numeral.digits

end Numeral

/-- The text is a numeral with this value. -/
def Denotes (text : List Char) (n : Int) : Prop :=
  ∃ numeral : Numeral, numeral.text = text ∧ numeral.value = n

/-! ## Digits -/

theorem isDigit_digit (d : Fin 10) : (digit d).isDigit = true := by
  simp [digit, Nat.isDigit_digitChar]

/-- The characters that are digits are the written digits. -/
theorem range_digit : Set.range digit = {c | c.isDigit = true} := by
  ext c
  constructor
  · rintro ⟨d, rfl⟩
    exact isDigit_digit d
  · intro h
    obtain ⟨hlow, hhigh⟩ : 48 ≤ c.toNat ∧ c.toNat ≤ 57 := Char.isDigit_iff_toNat.mp h
    have hlt : c.toNat - 48 < 10 := by omega
    refine ⟨⟨c.toNat - 48, hlt⟩, Char.toNat_inj.mp ?_⟩
    rw [digit, Nat.toNat_digitChar_of_lt_ten hlt]
    exact Nat.add_sub_cancel' hlow

/-- The texts of digits are those that are written with digits. -/
theorem forall_isDigit_iff {text : List Char} :
    (∀ c ∈ text, c.isDigit = true) ↔ ∃ digits : List (Fin 10), digits.map digit = text := by
  have hrange : Set.range (List.map digit) = {text | ∀ c ∈ text, c.isDigit = true} := by
    rw [Set.range_list_map, range_digit]
    rfl
  exact (Set.ext_iff.mp hrange text).symm

/-- Reading digits from left to right sums them up. -/
theorem ofDigitChars_map_digit (digits : List (Fin 10)) :
    Nat.ofDigitChars 10 (digits.map digit) 0 = digitsValue digits := by
  induction digits with
  | nil => rfl
  | cons d rest ih =>
    calc
      Nat.ofDigitChars 10 ((d :: rest).map digit) 0 =
          Nat.ofDigitChars 10 (rest.map digit) d := by
        rw [List.map_cons, digit, Nat.ofDigitChars_cons_digitChar_of_lt_ten d.isLt, Nat.mul_zero,
          Nat.zero_add]
      _ = 10 ^ rest.length * d + digitsValue rest := by
        rw [Nat.ofDigitChars_eq_ofDigitChars_zero, ih, List.length_map]
      _ = digitsValue (d :: rest) := by
        rw [digitsValue, digitsValue, List.map_reverse, List.map_reverse, List.map_cons,
          Nat.ofDigits_reverse_cons, List.length_map, Nat.add_comm]

/-- Texts of digits are read as the sum of the digits, and nothing else is read. -/
theorem readDigits?_eq_some_iff {text : List Char} {n : Nat} :
    readDigits? text = some n ↔
      ∃ digits : List (Fin 10), digits ≠ [] ∧ digits.map digit = text ∧ digitsValue digits = n := by
  rw [readDigits?, Option.ite_none_right_eq_some, List.all_eq_true, forall_isDigit_iff,
    Option.some.injEq]
  constructor
  · rintro ⟨⟨hne, digits, rfl⟩, hvalue⟩
    rw [ofDigitChars_map_digit] at hvalue
    exact ⟨digits, by simpa using hne, rfl, hvalue⟩
  · rintro ⟨digits, hne, rfl, hvalue⟩
    rw [ofDigitChars_map_digit]
    exact ⟨⟨by simpa using hne, digits, rfl⟩, hvalue⟩

/-- The digits of a natural number, and what they are written as. -/
theorem exists_digits (n : Nat) : ∃ digits : List (Fin 10), digits ≠ [] ∧
    digits.map digit = Nat.toDigits 10 n ∧ digitsValue digits = n ∧
      (digits.head? = some 0 → digits = [0]) := by
  obtain ⟨digits, hne, htext, hvalue⟩ :=
    readDigits?_eq_some_iff.mp (readDigits?_toDigits n)
  refine ⟨digits, hne, htext, hvalue, fun hhead ↦ ?_⟩
  by_cases hzero : n = 0
  · subst hzero
    have hlength := congrArg List.length htext
    rw [Nat.toDigits_zero, List.length_map] at hlength
    obtain ⟨d, rfl⟩ := List.length_eq_one_iff.mp hlength
    rw [Option.some.inj hhead]
  · refine absurd ?_ (head?_toDigits_ne_zero hzero)
    rw [← htext, List.head?_map, hhead]
    rfl

/-! ## Numerals -/

/-- A numeral is read as what it denotes. -/
theorem Numeral.read?_text (numeral : Numeral) : read? numeral.text = some numeral.value := by
  obtain ⟨sign, digits, hne⟩ := numeral
  have hread : readDigits? (digits.map digit) = some (digitsValue digits) :=
    readDigits?_eq_some_iff.mpr ⟨digits, hne, rfl, rfl⟩
  cases sign with
  | plus => simp [text, value, Sign.text, Sign.factor, read?, hread]
  | minus => simp [text, value, Sign.text, Sign.factor, read?, hread]
  | absent =>
    -- The first digit is neither of the two signs.
    obtain ⟨d, rest, rfl⟩ := List.exists_cons_of_ne_nil hne
    rw [List.map_cons] at hread
    simp [text, value, Sign.text, Sign.factor, read?_of_isDigit (isDigit_digit d), hread]

/-- Reading takes off a sign and reads what is left as digits. -/
theorem exists_sign (text : List Char) : ∃ (sign : Sign) (rest : List Char),
    text = sign.text ++ rest ∧
      ∀ n, read? text = some n → ∃ m, readDigits? rest = some m ∧ sign.factor * m = n := by
  unfold read?
  split
  next digits => exact ⟨.plus, digits, rfl, by simp [Sign.factor, Option.bind_eq_some_iff]⟩
  next digits => exact ⟨.minus, digits, rfl, by simp [Sign.factor, Option.bind_eq_some_iff]⟩
  next => exact ⟨.absent, text, rfl, by simp [Sign.factor, Option.bind_eq_some_iff]⟩

/-- Numerals are read as what they denote, and nothing else is read. -/
theorem read?_eq_some_iff {text : List Char} {n : Int} : read? text = some n ↔ Denotes text n := by
  constructor
  · intro h
    obtain ⟨sign, rest, rfl, hrest⟩ := exists_sign text
    obtain ⟨m, hread, rfl⟩ := hrest n h
    obtain ⟨digits, hne, rfl, rfl⟩ := readDigits?_eq_some_iff.mp hread
    exact ⟨⟨sign, digits, hne⟩, rfl, rfl⟩
  · rintro ⟨numeral, rfl, rfl⟩
    exact numeral.read?_text

instance (text : List Char) (n : Int) : Decidable (Denotes text n) :=
  decidable_of_iff (read? text = some n) read?_eq_some_iff

/-- There is one sign at most, and a digit of another script is none. -/
example : Denotes "+007".toList 7 ∧ ¬ Denotes "+-7".toList (-7) ∧ ¬ Denotes "٣".toList 3 := by
  decide

/-! ## 64 bits -/

theorem fits_iff {n : Int} : fits n = true ↔ -2 ^ 63 ≤ n ∧ n ≤ 2 ^ 63 - 1 := by
  rw [fits, Bool.and_eq_true, decide_eq_true_eq, decide_eq_true_eq]
  rfl

/-- An integer within the bounds is not changed by keeping 64 bits of it. -/
theorem toInt_ofInt_of_fits {n : Int} (h : fits n = true) : (Int64.ofInt n).toInt = n := by
  obtain ⟨hlow, hhigh⟩ := fits_iff.mp h
  exact Int64.toInt_ofInt_of_le hlow (Int.lt_of_le_sub_one hhigh)

/-- The 64-bit integers stand for the integers within the bounds. -/
theorem exists_toInt_eq_iff {n : Int} :
    (∃ number : Int64, number.toInt = n) ↔ -2 ^ 63 ≤ n ∧ n ≤ 2 ^ 63 - 1 := by
  rw [← fits_iff]
  constructor
  · rintro ⟨number, rfl⟩
    exact fits_toInt number
  · exact fun h ↦ ⟨Int64.ofInt n, toInt_ofInt_of_fits h⟩

/-- A text is read as the 64-bit integer that it denotes. -/
theorem readInt64?_eq_some_iff {text : List Char} {number : Int64} :
    readInt64? text = some number ↔ Denotes text number.toInt := by
  rw [← read?_eq_some_iff, readInt64?, Option.bind_eq_some_iff]
  constructor
  · rintro ⟨n, hread, hbounded⟩
    obtain ⟨hfits, heq⟩ := Option.ite_none_right_eq_some.mp hbounded
    rw [hread, ← Option.some.inj heq, toInt_ofInt_of_fits hfits]
  · intro hread
    exact ⟨number.toInt, hread, by rw [if_pos (fits_toInt number), Int64.ofInt_toInt]⟩

/-- A text is not read if it denotes no integer within the bounds, and only then. -/
theorem readInt64?_eq_none_iff {text : List Char} :
    readInt64? text = none ↔ ∀ n : Int, -2 ^ 63 ≤ n ∧ n ≤ 2 ^ 63 - 1 → ¬ Denotes text n := by
  simp only [Option.eq_none_iff_forall_ne_some, ne_eq, readInt64?_eq_some_iff,
    ← exists_toInt_eq_iff, forall_exists_index, forall_apply_eq_imp_iff]

/-- The text is a numeral, and its value lies within the bounds of 64 bits. -/
def IsInt64 (text : List Char) : Prop :=
  ∃ n : Int, (-2 ^ 63 ≤ n ∧ n ≤ 2 ^ 63 - 1) ∧ Denotes text n

theorem not_isInt64_iff {text : List Char} : ¬ IsInt64 text ↔ readInt64? text = none := by
  rw [readInt64?_eq_none_iff, IsInt64, not_exists]
  exact forall_congr' fun _ ↦ not_and

theorem isInt64_iff {text : List Char} :
    IsInt64 text ↔ ∃ number, readInt64? text = some number := by
  rw [← not_iff_not, not_isInt64_iff, Option.eq_none_iff_forall_ne_some, not_exists]

/-- A text denotes one 64-bit integer at most. -/
theorem Denotes.unique {text : List Char} {number other : Int64} (h : Denotes text number.toInt)
    (h' : Denotes text other.toInt) : number = other := by
  rw [← readInt64?_eq_some_iff] at h h'
  exact Option.some.inj (h.symm.trans h')

theorem Denotes.isInt64 {text : List Char} {number : Int64} (h : Denotes text number.toInt) :
    IsInt64 text :=
  isInt64_iff.mpr ⟨number, readInt64?_eq_some_iff.mpr h⟩

theorem IsInt64.exists_denotes {text : List Char} (h : IsInt64 text) :
    ∃ number : Int64, Denotes text number.toInt := by
  obtain ⟨number, hread⟩ := isInt64_iff.mp h
  exact ⟨number, readInt64?_eq_some_iff.mp hread⟩

instance (text : List Char) : Decidable (IsInt64 text) :=
  decidable_of_iff ((readInt64? text).isSome = true)
    (Option.isSome_iff_exists.trans isInt64_iff.symm)

end SectionedConfig.Decimal

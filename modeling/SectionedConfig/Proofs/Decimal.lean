import SectionedConfig.Decimal
import SectionedConfig.Text.Blank

/-!
# Numerals read back

A numeral consists of digits and at most a minus sign in front. It starts with no plus sign, its
digits denote the absolute value, and a 64-bit integer is within the bounds, so reading the numeral
of a 64-bit integer gives the integer back.
-/

namespace SectionedConfig.Decimal

/-- What starts with a digit has no sign. -/
theorem read?_of_isDigit {c : Char} (h : c.isDigit = true) (rest : List Char) :
    read? (c :: rest) = (readDigits? (c :: rest)).map fun n ↦ (n : Int) := by
  have hplus : c ≠ '+' := by
    rintro rfl
    cases h
  have hminus : c ≠ '-' := by
    rintro rfl
    cases h
  unfold read?
  split
  next heq => exact absurd (List.cons.inj heq).1 hplus
  next heq => exact absurd (List.cons.inj heq).1 hminus
  next => rfl

theorem read?_toDigits (n : Nat) : read? (Nat.toDigits 10 n) = some (n : Int) := by
  have hdigits := readDigits?_toDigits n
  cases hcases : Nat.toDigits 10 n with
  | nil => exact absurd hcases Nat.toDigits_ne_nil
  | cons c rest =>
    have hc : c.isDigit = true :=
      Nat.isDigit_of_mem_toDigits (by decide) (by decide) (hcases ▸ List.mem_cons_self)
    rw [read?_of_isDigit hc, ← hcases, hdigits]
    rfl

theorem read?_write (n : Int) : read? (write n) = some n := by
  unfold write
  split
  next hneg =>
    rw [read?, readDigits?_toDigits]
    change some (-(n.natAbs : Int)) = some n
    congr 1
    omega
  next hneg =>
    rw [read?_toDigits]
    congr 1
    omega

/-- Only zero is written with a zero in front. -/
theorem head?_toDigits_ne_zero {n : Nat} (h : n ≠ 0) :
    (Nat.toDigits 10 n).head? ≠ some '0' := by
  induction n using Nat.strongRecOn with
  | ind n ih =>
    by_cases hlt : n < 10
    · simpa [Nat.toDigits_of_lt_base hlt] using h
    · have hhead := ih (n / 10) (by omega) (by omega)
      rw [Nat.toDigits_of_base_le (by decide) (Nat.le_of_not_lt hlt)]
      cases hdigits : Nat.toDigits 10 (n / 10) with
      | nil => exact absurd hdigits Nat.toDigits_ne_nil
      | cons c rest => rwa [hdigits] at hhead

theorem fits_toInt (n : Int64) : fits n.toInt = true := by
  have hlow := n.minValue_le_toInt
  have hhigh := n.toInt_le
  simp only [fits, Bool.and_eq_true, decide_eq_true_eq]
  exact ⟨hlow, hhigh⟩

/-- The numeral of a 64-bit integer reads back as the integer. -/
theorem readInt64?_write (n : Int64) : readInt64? (write n.toInt) = some n := by
  rw [readInt64?, read?_write, Option.bind_some, if_pos (fits_toInt n), Int64.ofInt_toInt]

/-- A numeral consists of digits and minus signs. -/
theorem mem_write {n : Int} {c : Char} (h : c ∈ write n) : c.isDigit = true ∨ c = '-' := by
  have hdigit : ∀ c ∈ Nat.toDigits 10 n.natAbs, c.isDigit = true := fun c hc ↦
    Nat.isDigit_of_mem_toDigits (by decide) (by decide) hc
  unfold write at h
  split at h
  next =>
    rcases List.mem_cons.mp h with rfl | h
    · exact .inr rfl
    · exact .inl (hdigit c h)
  next => exact .inl (hdigit c h)

theorem notMem_write {n : Int} {c : Char} (hdigit : c.isDigit = false) (hminus : c ≠ '-') :
    c ∉ write n :=
  fun hc ↦ (mem_write hc).elim (fun h ↦ by simp [h] at hdigit) hminus

end SectionedConfig.Decimal

import Mathlib.Algebra.Order.Field.Power
import Mathlib.Algebra.Order.Field.Rat
import Mathlib.Data.Rat.Cast.Order
import Mathlib.Tactic.FieldSimp
import Mathlib.Tactic.Linarith
import Mathlib.Tactic.NormNum
import Mathlib.Tactic.Positivity
import Mathlib.Tactic.Ring
import SectionedConfig.Decimal

/-!
# Shortest decimals

Reading a decimal gives the double that is nearest to it, and of two that are equally near the one
whose mantissa is even. So a decimal reads back as a double if it lies between the midpoints to the
two neighbours of the double, or on one of them if the mantissa is even.

All tests are made on natural numbers, on a scale that both the double and the multiples of a power
of ten are brought to. They decide what they should: whether a multiple reads back, which multiples
are next to the double, and which of them is nearer. Seventeen digits are enough, because the
multiples of that power of ten lie closer together than the midpoints. No decimal with fewer digits
reads back, and none with as many digits is nearer.
-/

namespace SectionedConfig.Decimal

/-- The number that a decimal stands for. -/
def Scaled.value (x : Scaled) : ℚ :=
  x.digits * 10 ^ x.exponent

/-- A decimal that can be written with so many digits. -/
def Scaled.HasDigits (x : Scaled) (count : Nat) : Prop :=
  ∃ y : Scaled, y.value = x.value ∧ y.digits < 10 ^ count

namespace Binary

/-- The number that a binary stands for. -/
def value (x : Binary) : ℚ :=
  x.mantissa * 2 ^ x.exponent

/-- The sizes of doubles: a mantissa of 53 bits, the first of which is set unless the exponent is
the least one. There is no greatest exponent here, because a number is first rounded as if there
were none. -/
structure Regular (x : Binary) : Prop where
  mantissa_lt : x.mantissa < 2 ^ 53
  least_le : -1074 ≤ x.exponent
  normal : x.exponent = -1074 ∨ 2 ^ 52 ≤ x.mantissa

/-- Reading the number gives this size: no other one is nearer, and if another one is as near, then
the mantissa is even. -/
structure RoundsTo (r : ℚ) (x : Binary) : Prop where
  nearest : ∀ y : Binary, y.Regular → |r - x.value| ≤ |r - y.value|
  even : ∀ y : Binary, y.Regular → y ≠ x → |r - x.value| = |r - y.value| → x.mantissa % 2 = 0

variable {x y : Binary} {r s t : ℚ} {grid : Int} {count : Nat}

/-! ## Neighbours -/

/-- The next size above. -/
def next (x : Binary) : Binary :=
  if x.mantissa + 1 < 2 ^ 53 then ⟨x.mantissa + 1, x.exponent⟩ else ⟨2 ^ 52, x.exponent + 1⟩

/-- The next size below. -/
def previous (x : Binary) : Binary :=
  if x.mantissa = 2 ^ 52 ∧ -1074 < x.exponent then ⟨2 ^ 53 - 1, x.exponent - 1⟩
  else ⟨x.mantissa - 1, x.exponent⟩

theorem regular_next (h : x.Regular) : x.next.Regular := by
  obtain ⟨hlt, hle, hnormal⟩ := h
  unfold next
  split_ifs with hfits
  · exact ⟨hfits, hle, hnormal.imp_right fun h ↦ Nat.le_succ_of_le h⟩
  · exact ⟨by norm_num, by change -1074 ≤ x.exponent + 1; omega, .inr le_rfl⟩

theorem regular_previous (h : x.Regular) : x.previous.Regular := by
  obtain ⟨hlt, hle, hnormal⟩ := h
  unfold previous
  split_ifs with hpower
  · exact ⟨by norm_num, by change -1074 ≤ x.exponent - 1; omega, .inr (by norm_num)⟩
  · refine ⟨?_, hle, ?_⟩
    · change x.mantissa - 1 < 2 ^ 53
      omega
    · change x.exponent = -1074 ∨ 2 ^ 52 ≤ x.mantissa - 1
      omega

/-- The distance between two sizes with the same exponent. -/
def ulp (x : Binary) : ℚ :=
  2 ^ x.exponent

theorem ulp_pos (x : Binary) : 0 < x.ulp :=
  zpow_pos (by norm_num) _

theorem two_zpow_add_one (e : Int) : (2 : ℚ) ^ (e + 1) = 2 * 2 ^ e := by
  rw [zpow_add_one₀ (by norm_num), mul_comm]

theorem value_next (h : x.Regular) : x.next.value = x.value + x.ulp := by
  unfold next
  split_ifs with hfits
  · simp only [value, ulp]
    push_cast
    ring
  · have hmantissa : x.mantissa = 2 ^ 53 - 1 := by
      have hlt := h.mantissa_lt
      omega
    simp only [value, ulp, hmantissa, two_zpow_add_one]
    push_cast
    ring

/-- How far the next size below is: half as far as the next one above if its exponent is lower. -/
def gap (x : Binary) : ℚ :=
  if x.mantissa = 2 ^ 52 ∧ -1074 < x.exponent then x.ulp / 2 else x.ulp

theorem gap_pos (x : Binary) : 0 < x.gap := by
  have hulp := x.ulp_pos
  unfold gap
  split_ifs <;> linarith

theorem gap_le_ulp (x : Binary) : x.gap ≤ x.ulp := by
  have hulp := x.ulp_pos
  unfold gap
  split_ifs <;> linarith

theorem value_previous (hpos : 0 < x.mantissa) : x.previous.value = x.value - x.gap := by
  unfold previous gap
  split_ifs with hpower
  · have hulp : x.ulp = 2 * 2 ^ (x.exponent - 1) := by
      rw [ulp, ← two_zpow_add_one, sub_add_cancel]
    have hvalue : x.value = 2 ^ 52 * x.ulp := by
      rw [value, ulp, hpower.1]
      norm_num
    rw [hvalue, hulp, value]
    norm_num
    ring
  · simp only [value, ulp]
    rw [Nat.cast_pred hpos]
    ring

theorem value_eq_mul_ulp (x : Binary) : x.value = x.mantissa * x.ulp :=
  rfl

theorem value_le_of_exponent_lt (hx : x.Regular) (hy : y.Regular)
    (hlt : y.exponent < x.exponent) : y.value ≤ x.value - x.gap := by
  -- The mantissa of `x` has its first bit set, and that of `y` counts at most half as much.
  have hhalf : y.ulp ≤ x.ulp / 2 := by
    rw [le_div_iff₀ (by norm_num), mul_comm, ulp, ulp, ← two_zpow_add_one]
    exact zpow_le_zpow_right₀ (by norm_num) (by omega)
  have hleast : -1074 < x.exponent := hy.least_le.trans_lt hlt
  have hmantissa : (y.mantissa : ℚ) + 1 ≤ 2 ^ 53 := by exact_mod_cast hy.mantissa_lt
  have hvalue : y.value ≤ (2 ^ 53 - 1) * (x.ulp / 2) :=
    mul_le_mul (by linarith) hhalf y.ulp_pos.le (by norm_num)
  have hnormal : 2 ^ 52 ≤ x.mantissa := hx.normal.resolve_left hleast.ne'
  have hulp := x.ulp_pos
  rw [x.value_eq_mul_ulp]
  by_cases hpower : x.mantissa = 2 ^ 52
  · have hgap : x.gap = x.ulp / 2 := if_pos ⟨hpower, hleast⟩
    rw [hgap, hpower]
    push_cast
    linarith
  · have hmore : (2 : ℚ) ^ 52 + 1 ≤ x.mantissa := by
      exact_mod_cast Nat.lt_of_le_of_ne hnormal (Ne.symm hpower)
    have hgap := x.gap_le_ulp
    nlinarith

theorem value_le_of_mantissa_lt (hsame : y.exponent = x.exponent)
    (hlt : y.mantissa < x.mantissa) : y.value + x.ulp ≤ x.value := by
  have hless : (y.mantissa : ℚ) + 1 ≤ x.mantissa := by exact_mod_cast hlt
  calc
    y.value + x.ulp = (y.mantissa + 1) * x.ulp := by
      rw [y.value_eq_mul_ulp, ulp, ulp, hsame]
      ring
    _ ≤ x.mantissa * x.ulp := mul_le_mul_of_nonneg_right hless x.ulp_pos.le
    _ = x.value := x.value_eq_mul_ulp.symm

theorem value_le_of_lt_exponent (hx : x.Regular) (hy : y.Regular)
    (hlt : x.exponent < y.exponent) : x.value + x.ulp ≤ y.value := by
  -- The mantissa of `y` has its first bit set, and it counts at least twice as much.
  have hdouble : 2 * x.ulp ≤ y.ulp := by
    rw [ulp, ulp, ← two_zpow_add_one]
    exact zpow_le_zpow_right₀ (by norm_num) (by omega)
  have hnormal : (2 : ℚ) ^ 52 ≤ y.mantissa := by
    exact_mod_cast hy.normal.resolve_left (hx.least_le.trans_lt hlt).ne'
  have hmantissa : (x.mantissa : ℚ) + 1 ≤ 2 ^ 53 := by exact_mod_cast hx.mantissa_lt
  have hulp := x.ulp_pos
  calc
    x.value + x.ulp = (x.mantissa + 1) * x.ulp := by rw [x.value_eq_mul_ulp]; ring
    _ ≤ 2 ^ 53 * x.ulp := mul_le_mul_of_nonneg_right hmantissa hulp.le
    _ = 2 ^ 52 * (2 * x.ulp) := by ring
    _ ≤ y.mantissa * y.ulp := mul_le_mul hnormal hdouble (by linarith) (by positivity)
    _ = y.value := y.value_eq_mul_ulp.symm

/-- No size lies between neighbours. -/
theorem value_apart (hx : x.Regular) (hy : y.Regular) (hne : y ≠ x) :
    y.value ≤ x.value - x.gap ∨ x.value + x.ulp ≤ y.value := by
  rcases lt_trichotomy y.exponent x.exponent with hlt | hsame | hlt
  · exact .inl (value_le_of_exponent_lt hx hy hlt)
  · have hmantissa : y.mantissa ≠ x.mantissa := fun heq ↦ hne (by
      cases x
      cases y
      simp_all)
    rcases Nat.lt_or_gt_of_ne hmantissa with hlt | hlt
    · have hbelow := value_le_of_mantissa_lt hsame hlt
      have hgap := x.gap_le_ulp
      exact .inl (by linarith)
    · have habove := value_le_of_mantissa_lt hsame.symm hlt
      rw [ulp, hsame] at habove
      exact .inr habove
  · exact .inr (value_le_of_lt_exponent hx hy hlt)

/-! ## Midpoints -/

/-- The numbers between the midpoints to the neighbours, and the midpoints if the mantissa is
even. -/
def Covers (x : Binary) (r : ℚ) : Prop :=
  if x.mantissa % 2 = 0 then x.value - x.gap / 2 ≤ r ∧ r ≤ x.value + x.ulp / 2
  else x.value - x.gap / 2 < r ∧ r < x.value + x.ulp / 2

theorem Covers.bounds (h : x.Covers r) : x.value - x.gap / 2 ≤ r ∧ r ≤ x.value + x.ulp / 2 := by
  unfold Covers at h
  split_ifs at h
  · exact h
  · exact ⟨h.1.le, h.2.le⟩

theorem covers_of_lt (hlow : x.value - x.gap / 2 < r) (hhigh : r < x.value + x.ulp / 2) :
    x.Covers r := by
  unfold Covers
  split_ifs
  · exact ⟨hlow.le, hhigh.le⟩
  · exact ⟨hlow, hhigh⟩

theorem covers_value (x : Binary) : x.Covers x.value := by
  have hulp := x.ulp_pos
  have hgap := x.gap_pos
  exact covers_of_lt (by linarith) (by linarith)

/-- What lies between two numbers that are covered is covered. -/
theorem Covers.between (hr : x.Covers r) (ht : x.Covers t) (hrs : r ≤ s) (hst : s ≤ t) :
    x.Covers s := by
  unfold Covers at hr ht ⊢
  split_ifs at hr ht ⊢
  · exact ⟨hr.1.trans hrs, hst.trans ht.2⟩
  · exact ⟨hr.1.trans_le hrs, hst.trans_lt ht.2⟩

section Distance

variable {v w : ℚ}

theorem abs_sub_le_iff_le (h : v < w) : |r - v| ≤ |r - w| ↔ r ≤ (v + w) / 2 := by
  rw [← sq_le_sq]
  constructor
  · intro hsquares
    nlinarith
  · intro hle
    nlinarith

theorem abs_sub_le_iff_ge (h : w < v) : |r - v| ≤ |r - w| ↔ (v + w) / 2 ≤ r := by
  rw [← sq_le_sq]
  constructor
  · intro hsquares
    nlinarith
  · intro hle
    nlinarith

/-- Only the midpoint is as far from one number as from another one. -/
theorem abs_sub_eq_iff (h : v ≠ w) : |r - v| = |r - w| ↔ r = (v + w) / 2 := by
  have hzero : (r - v) ^ 2 - (r - w) ^ 2 = (w - v) * (2 * r - (v + w)) := by ring
  rw [← sq_eq_sq_iff_abs_eq_abs, ← sub_eq_zero, hzero, mul_eq_zero, sub_eq_zero, sub_eq_zero,
    or_iff_right h.symm, eq_div_iff (by norm_num), mul_comm]

end Distance

theorem Covers.roundsTo (hx : x.Regular) (h : x.Covers r) : RoundsTo r x := by
  have hulp := x.ulp_pos
  have hgap := x.gap_pos
  obtain ⟨hlow, hhigh⟩ := h.bounds
  refine ⟨fun y hy ↦ ?_, fun y hy hne heq ↦ ?_⟩
  · by_cases hne : y = x
    · rw [hne]
    · rcases value_apart hx hy hne with hbelow | habove
      · exact (abs_sub_le_iff_ge (by linarith)).mpr (by linarith)
      · exact (abs_sub_le_iff_le (by linarith)).mpr (by linarith)
  · -- A number that is as near to another size is a midpoint, and not all midpoints are covered.
    by_contra hodd
    obtain ⟨hlow, hhigh⟩ : x.value - x.gap / 2 < r ∧ r < x.value + x.ulp / 2 := by
      rwa [Covers, if_neg hodd] at h
    rcases value_apart hx hy hne with hbelow | habove
    · have hmiddle := (abs_sub_eq_iff (by linarith)).mp heq
      linarith
    · have hmiddle := (abs_sub_eq_iff (by linarith)).mp heq
      linarith

theorem RoundsTo.covers (hx : x.Regular) (hpos : 0 < x.mantissa) (h : RoundsTo r x) :
    x.Covers r := by
  have hulp := x.ulp_pos
  have hgap := x.gap_pos
  have hnext : x.next.value = x.value + x.ulp := value_next hx
  have hprevious : x.previous.value = x.value - x.gap := value_previous hpos
  have hhigh := (abs_sub_le_iff_le (by linarith)).mp (h.nearest x.next (regular_next hx))
  have hlow := (abs_sub_le_iff_ge (by linarith)).mp (h.nearest x.previous (regular_previous hx))
  unfold Covers
  split_ifs with heven
  · exact ⟨by linarith, by linarith⟩
  · have hne {y : Binary} (hy : y.Regular) (hvalue : y.value ≠ x.value) :
        r ≠ (x.value + y.value) / 2 := by
      intro hmiddle
      have heq : |r - x.value| = |r - y.value| := (abs_sub_eq_iff hvalue.symm).mpr hmiddle
      exact heven (h.even y hy (fun hyx ↦ hvalue (congrArg value hyx)) heq)
    have hlt := lt_of_le_of_ne hhigh (hne (regular_next hx) (by linarith))
    have hgt := lt_of_le_of_ne hlow (hne (regular_previous hx) (by linarith)).symm
    exact ⟨by linarith, by linarith⟩

/-- The numbers that are covered are those that read back as the size. -/
theorem covers_iff_roundsTo (hx : x.Regular) (hpos : 0 < x.mantissa) :
    x.Covers r ↔ RoundsTo r x :=
  ⟨Covers.roundsTo hx, RoundsTo.covers hx hpos⟩

/-! ## The common scale -/

/-- What numbers are multiplied by on the common scale. -/
def scale (x : Binary) (grid : Int) : ℚ :=
  2 ^ (2 - x.exponent).toNat * 10 ^ (-grid).toNat

theorem scale_pos (x : Binary) (grid : Int) : 0 < x.scale grid := by
  unfold scale
  positivity

theorem zpow_mul_pow_toNat {base : ℚ} (hbase : base ≠ 0) (e : Int) :
    base ^ e * base ^ (-e).toNat = base ^ e.toNat := by
  rw [← zpow_natCast, ← zpow_natCast, ← zpow_add₀ hbase]
  congr 1
  omega

theorem quarterFactor_eq (x : Binary) (grid : Int) :
    (x.quarterFactor grid : ℚ) = x.ulp / 4 * x.scale grid := by
  have hquarter : x.ulp / 4 = 2 ^ (x.exponent - 2) := by
    rw [ulp, zpow_sub₀ (by norm_num)]
    norm_num
  have hpower := zpow_mul_pow_toNat (by norm_num : (2 : ℚ) ≠ 0) (x.exponent - 2)
  rw [neg_sub] at hpower
  simp only [quarterFactor, scale, Nat.pow_eq, hquarter]
  push_cast
  rw [← hpower]
  ring

theorem gridFactor_eq (x : Binary) (grid : Int) :
    (x.gridFactor grid : ℚ) = 10 ^ grid * x.scale grid := by
  have hpower := zpow_mul_pow_toNat (by norm_num : (10 : ℚ) ≠ 0) grid
  simp only [gridFactor, scale, Nat.pow_eq]
  push_cast
  rw [← hpower]
  ring

/-- Natural numbers on the common scale are compared like the numbers that they stand for. -/
theorem mul_quarterFactor_le_iff (x : Binary) (grid : Int) (quarters count : Nat) :
    quarters * x.quarterFactor grid ≤ count * x.gridFactor grid ↔
      quarters * (x.ulp / 4) ≤ count * 10 ^ grid := by
  have hscale := x.scale_pos grid
  rw [← @Nat.cast_le ℚ, Nat.cast_mul, Nat.cast_mul, quarterFactor_eq, gridFactor_eq,
    ← mul_assoc, ← mul_assoc, mul_le_mul_iff_left₀ hscale]

theorem mul_gridFactor_le_iff (x : Binary) (grid : Int) (quarters count : Nat) :
    count * x.gridFactor grid ≤ quarters * x.quarterFactor grid ↔
      count * 10 ^ grid ≤ quarters * (x.ulp / 4) := by
  have hscale := x.scale_pos grid
  rw [← @Nat.cast_le ℚ, Nat.cast_mul, Nat.cast_mul, quarterFactor_eq, gridFactor_eq,
    ← mul_assoc, ← mul_assoc, mul_le_mul_iff_left₀ hscale]

theorem quarters_mul (x : Binary) : (x.quarters : ℚ) * (x.ulp / 4) = x.value := by
  rw [quarters, value_eq_mul_ulp]
  push_cast
  ring

theorem lowMidpoint_mul (hpos : 0 < x.mantissa) :
    (x.lowMidpoint : ℚ) * (x.ulp / 4) = x.value - x.gap / 2 := by
  have hone : 1 ≤ x.quarters := by unfold quarters; omega
  have htwo : 2 ≤ x.quarters := by unfold quarters; omega
  rw [lowMidpoint, gap, Nat.pow_eq]
  split_ifs
  · rw [Nat.cast_sub hone, sub_mul, quarters_mul]
    push_cast
    ring
  · rw [Nat.cast_sub htwo, sub_mul, quarters_mul]
    push_cast
    ring

theorem highMidpoint_mul (x : Binary) :
    (x.highMidpoint : ℚ) * (x.ulp / 4) = x.value + x.ulp / 2 := by
  rw [highMidpoint, Nat.cast_add, add_mul, quarters_mul]
  push_cast
  ring

/-- The test decides whether a multiple of a power of ten reads back as the size. -/
theorem readsBack_iff (hpos : 0 < x.mantissa) :
    x.readsBack grid count = true ↔ x.Covers (count * 10 ^ grid) := by
  unfold readsBack Covers
  split_ifs
  · rw [Bool.and_eq_true, decide_eq_true_eq, decide_eq_true_eq, mul_quarterFactor_le_iff,
      mul_gridFactor_le_iff, lowMidpoint_mul hpos, highMidpoint_mul]
  · rw [Bool.and_eq_true, decide_eq_true_eq, decide_eq_true_eq, ← not_le, ← not_le,
      mul_quarterFactor_le_iff, mul_gridFactor_le_iff, lowMidpoint_mul hpos, highMidpoint_mul,
      not_le, not_le]

theorem gridFactor_pos (x : Binary) (grid : Int) : 0 < x.gridFactor grid := by
  have hscale := x.scale_pos grid
  have hpos : (0 : ℚ) < x.gridFactor grid := by
    rw [gridFactor_eq]
    positivity
  exact_mod_cast hpos

/-! ## The nearest multiple -/

/-- The multiple below is the greatest one that does not exceed the size. -/
theorem le_floorOn_iff : count ≤ x.floorOn grid ↔ (count : ℚ) * 10 ^ grid ≤ x.value := by
  rw [← quarters_mul, ← mul_gridFactor_le_iff]
  exact Nat.le_div_iff_mul_le (x.gridFactor_pos grid)

theorem floorOn_lt_iff : x.floorOn grid < count ↔ x.value < (count : ℚ) * 10 ^ grid := by
  rw [← not_le, le_floorOn_iff, not_le]

theorem floorOn_mul_le (x : Binary) (grid : Int) : (x.floorOn grid : ℚ) * 10 ^ grid ≤ x.value :=
  le_floorOn_iff.mp le_rfl

theorem lt_succ_floorOn_mul (x : Binary) (grid : Int) :
    x.value < (x.floorOn grid + 1 : ℚ) * 10 ^ grid := by
  exact_mod_cast floorOn_lt_iff.mp (Nat.lt_succ_self _)

theorem mul_grid_mono {count other : Nat} (h : count ≤ other) (grid : Int) :
    (count : ℚ) * 10 ^ grid ≤ other * 10 ^ grid :=
  mul_le_mul_of_nonneg_right (by exact_mod_cast h) (zpow_nonneg (by norm_num) grid)

/-- No multiple below the size is nearer than the greatest one. -/
theorem abs_floorOn_sub_le (h : count ≤ x.floorOn grid) :
    |x.floorOn grid * 10 ^ grid - x.value| ≤ |(count : ℚ) * 10 ^ grid - x.value| := by
  have hfloor := x.floorOn_mul_le grid
  have hcount := mul_grid_mono h grid
  rw [abs_of_nonpos (by linarith), abs_of_nonpos (by linarith)]
  linarith

/-- No multiple above the size is nearer than the least one. -/
theorem abs_succ_floorOn_sub_le (h : x.floorOn grid < count) :
    |(x.floorOn grid + 1 : ℚ) * 10 ^ grid - x.value| ≤ |(count : ℚ) * 10 ^ grid - x.value| := by
  have habove := x.lt_succ_floorOn_mul grid
  have hcount := mul_grid_mono h grid
  rw [Nat.succ_eq_add_one, Nat.cast_add_one] at hcount
  rw [abs_of_nonneg (by linarith), abs_of_nonneg (by linarith)]
  linarith

theorem double_quarters_mul (x : Binary) :
    ((2 * x.quarters : Nat) : ℚ) * (x.ulp / 4) = 2 * x.value := by
  rw [← quarters_mul]
  push_cast
  ring

/-- Rounding takes the multiple below or the one above, whichever is nearer. -/
theorem roundOn_eq (x : Binary) (grid : Int) :
    (x.roundOn grid = x.floorOn grid ∧ 2 * x.value ≤ (2 * x.floorOn grid + 1) * 10 ^ grid) ∨
      (x.roundOn grid = x.floorOn grid + 1 ∧
        (2 * x.floorOn grid + 1) * 10 ^ grid ≤ 2 * x.value) := by
  have hmiddle : ((2 * x.floorOn grid + 1 : Nat) : ℚ) = 2 * x.floorOn grid + 1 := by push_cast; rfl
  have hbelow := x.mul_quarterFactor_le_iff grid (2 * x.quarters) (2 * x.floorOn grid + 1)
  have habove := x.mul_gridFactor_le_iff grid (2 * x.quarters) (2 * x.floorOn grid + 1)
  rw [hmiddle, double_quarters_mul] at hbelow habove
  rw [← hbelow, ← habove]
  unfold roundOn
  grind

/-- If the two multiples next to the size are equally near, then rounding takes the even one. -/
theorem even_roundOn (h : 2 * x.value = (2 * x.floorOn grid + 1) * 10 ^ grid) :
    x.roundOn grid % 2 = 0 := by
  have hmiddle : ((2 * x.floorOn grid + 1 : Nat) : ℚ) = 2 * x.floorOn grid + 1 := by push_cast; rfl
  have hbelow := x.mul_quarterFactor_le_iff grid (2 * x.quarters) (2 * x.floorOn grid + 1)
  have habove := x.mul_gridFactor_le_iff grid (2 * x.quarters) (2 * x.floorOn grid + 1)
  rw [hmiddle, double_quarters_mul, h] at hbelow habove
  have htie := Nat.le_antisymm (hbelow.mpr le_rfl) (habove.mpr le_rfl)
  unfold roundOn
  grind

/-- If a multiple that does not exceed the size reads back, then so does the greatest one. -/
theorem covers_floorOn (hle : count ≤ x.floorOn grid) (h : x.Covers (count * 10 ^ grid)) :
    x.Covers (x.floorOn grid * 10 ^ grid) :=
  h.between x.covers_value (mul_grid_mono hle grid) (x.floorOn_mul_le grid)

/-- If a multiple that exceeds the size reads back, then so does the least one. -/
theorem covers_succ_floorOn (hlt : x.floorOn grid < count) (h : x.Covers (count * 10 ^ grid)) :
    x.Covers ((x.floorOn grid + 1 : ℚ) * 10 ^ grid) := by
  have hcount := mul_grid_mono hlt grid
  rw [Nat.succ_eq_add_one, Nat.cast_add_one] at hcount
  exact x.covers_value.between h (x.lt_succ_floorOn_mul grid).le hcount

/-- The rounded multiple is the nearest one. -/
theorem abs_roundOn_sub_le (x : Binary) (grid : Int) (count : Nat) :
    |(x.roundOn grid : ℚ) * 10 ^ grid - x.value| ≤ |(count : ℚ) * 10 ^ grid - x.value| := by
  have hfloor := x.floorOn_mul_le grid
  have hceil := x.lt_succ_floorOn_mul grid
  have hneighbour : |(x.roundOn grid : ℚ) * 10 ^ grid - x.value| ≤
      |(x.floorOn grid : ℚ) * 10 ^ grid - x.value| ∧
      |(x.roundOn grid : ℚ) * 10 ^ grid - x.value| ≤
        |(x.floorOn grid + 1 : ℚ) * 10 ^ grid - x.value| := by
    rw [abs_of_nonpos (by linarith : (x.floorOn grid : ℚ) * 10 ^ grid - x.value ≤ 0),
      abs_of_nonneg (by linarith : 0 ≤ (x.floorOn grid + 1 : ℚ) * 10 ^ grid - x.value)]
    rcases x.roundOn_eq grid with ⟨hround, hnear⟩ | ⟨hround, hnear⟩
    · rw [hround, abs_of_nonpos (by linarith)]
      constructor <;> linarith
    · rw [hround, Nat.cast_add_one, abs_of_nonneg (by linarith)]
      constructor <;> linarith
  rcases Nat.lt_or_ge (x.floorOn grid) count with hlt | hle
  · exact hneighbour.2.trans (abs_succ_floorOn_sub_le hlt)
  · exact hneighbour.1.trans (abs_floorOn_sub_le hle)

/-- Which of the two multiples next to the size read back, and what is found then. -/
theorem nearestOn?_cases (hpos : 0 < x.mantissa) (grid : Int) :
    (x.Covers (x.floorOn grid * 10 ^ grid) ∧ x.Covers ((x.floorOn grid + 1 : ℚ) * 10 ^ grid) ∧
        x.nearestOn? grid = some ⟨x.roundOn grid, grid⟩) ∨
      (x.Covers (x.floorOn grid * 10 ^ grid) ∧ ¬ x.Covers ((x.floorOn grid + 1 : ℚ) * 10 ^ grid) ∧
        x.nearestOn? grid = some ⟨x.floorOn grid, grid⟩) ∨
      (¬ x.Covers (x.floorOn grid * 10 ^ grid) ∧ x.Covers ((x.floorOn grid + 1 : ℚ) * 10 ^ grid) ∧
        x.nearestOn? grid = some ⟨x.floorOn grid + 1, grid⟩) ∨
      (¬ x.Covers (x.floorOn grid * 10 ^ grid) ∧
        ¬ x.Covers ((x.floorOn grid + 1 : ℚ) * 10 ^ grid) ∧ x.nearestOn? grid = none) := by
  rw [← Nat.cast_add_one, ← readsBack_iff hpos, ← readsBack_iff hpos]
  simp only [nearestOn?]
  generalize x.readsBack grid (x.floorOn grid) = below
  generalize x.readsBack grid (x.floorOn grid + 1) = above
  cases below <;> cases above <;> simp

/-- The multiple that is found reads back, and none that reads back is nearer. -/
theorem nearestOn?_eq_some (hpos : 0 < x.mantissa) {found : Scaled}
    (h : x.nearestOn? grid = some found) :
    found.exponent = grid ∧ found.digits ≤ x.floorOn grid + 1 ∧ x.Covers found.value ∧
      ∀ count : Nat, x.Covers (count * 10 ^ grid) →
        |found.value - x.value| ≤ |count * 10 ^ grid - x.value| := by
  rcases nearestOn?_cases hpos grid with ⟨hfloor, hceil, hfound⟩ | ⟨hfloor, hceil, hfound⟩ |
    ⟨hfloor, hceil, hfound⟩ | ⟨_, _, hfound⟩
  · obtain rfl := Option.some.inj (hfound.symm.trans h)
    refine ⟨rfl, ?_, ?_, fun count _ ↦ x.abs_roundOn_sub_le grid count⟩
    · rcases x.roundOn_eq grid with ⟨hround, _⟩ | ⟨hround, _⟩
      · exact hround.le.trans (Nat.le_succ _)
      · exact hround.le
    · rcases x.roundOn_eq grid with ⟨hround, _⟩ | ⟨hround, _⟩
      · rwa [Scaled.value, hround]
      · rwa [Scaled.value, hround, Nat.cast_add_one]
  · obtain rfl := Option.some.inj (hfound.symm.trans h)
    refine ⟨rfl, Nat.le_succ _, hfloor, fun count hcount ↦ abs_floorOn_sub_le ?_⟩
    exact Nat.le_of_not_lt fun hlt ↦ hceil (covers_succ_floorOn hlt hcount)
  · obtain rfl := Option.some.inj (hfound.symm.trans h)
    have hvalue :
        Scaled.value ⟨x.floorOn grid + 1, grid⟩ = (x.floorOn grid + 1 : ℚ) * 10 ^ grid := by
      rw [Scaled.value, Nat.cast_add_one]
    rw [hvalue]
    refine ⟨rfl, le_rfl, hceil, fun count hcount ↦ abs_succ_floorOn_sub_le ?_⟩
    exact Nat.lt_of_not_le fun hle ↦ hfloor (covers_floorOn hle hcount)
  · cases hfound.symm.trans h

/-- If none is found, then no multiple reads back. -/
theorem not_covers_of_nearestOn?_eq_none (hpos : 0 < x.mantissa) (h : x.nearestOn? grid = none)
    (count : Nat) : ¬ x.Covers (count * 10 ^ grid) := by
  rcases nearestOn?_cases hpos grid with ⟨_, _, hfound⟩ | ⟨_, _, hfound⟩ | ⟨_, _, hfound⟩ |
    ⟨hfloor, hceil, _⟩
  · cases hfound.symm.trans h
  · cases hfound.symm.trans h
  · cases hfound.symm.trans h
  · intro hcovers
    rcases Nat.lt_or_ge (x.floorOn grid) count with hlt | hle
    · exact hceil (covers_succ_floorOn hlt hcovers)
    · exact hfloor (covers_floorOn hle hcovers)

/-! ## Seventeen digits -/

theorem ten_zpow_pos (e : Int) : (0 : ℚ) < 10 ^ e :=
  zpow_pos (by norm_num) e

theorem ten_zpow_mul (count : Nat) (grid : Int) :
    (10 : ℚ) ^ count * 10 ^ grid = 10 ^ (grid + count) := by
  rw [zpow_add₀ (by norm_num), zpow_natCast, mul_comm]

/-- The number of digits of the multiple below tells where the first digit of the size stands. -/
theorem length_toDigits_floorOn (h : 1 ≤ x.floorOn grid) :
    (10 : ℚ) ^ ((Nat.toDigits 10 (x.floorOn grid)).length + grid - 1) ≤ x.value ∧
      x.value < 10 ^ ((Nat.toDigits 10 (x.floorOn grid)).length + grid) := by
  obtain ⟨others, hlength⟩ : ∃ others, (Nat.toDigits 10 (x.floorOn grid)).length = others + 1 :=
    Nat.exists_eq_succ_of_ne_zero Nat.length_toDigits_pos.ne'
  rw [hlength]
  constructor
  · have hle : 10 ^ others ≤ x.floorOn grid := by
      rcases Nat.eq_zero_or_pos others with rfl | hpos
      · exact h
      · by_contra hlt
        have hfewer := (Nat.length_toDigits_le_iff (by decide) hpos).mpr (Nat.lt_of_not_le hlt)
        omega
    have hfloor := le_floorOn_iff.mp hle
    rw [Nat.cast_pow, Nat.cast_ofNat, ten_zpow_mul] at hfloor
    convert hfloor using 2
    push_cast
    ring
  · have hlt : x.floorOn grid < 10 ^ (others + 1) :=
      (Nat.length_toDigits_le_iff (by decide) (Nat.succ_pos _)).mp hlength.le
    have hfloor := floorOn_lt_iff.mp hlt
    rw [Nat.cast_pow, Nat.cast_ofNat, ten_zpow_mul] at hfloor
    rwa [add_comm grid] at hfloor

theorem one_le_floorOn (hx : x.Regular) (hpos : 0 < x.mantissa) : 1 ≤ x.floorOn (-400) := by
  have hpowers : (2 : ℚ) ^ 1074 ≤ 10 ^ 400 :=
    calc
      (2 : ℚ) ^ 1074 ≤ 2 ^ (3 * 400) := pow_le_pow_right₀ (by norm_num) (by norm_num)
      _ = (2 ^ 3) ^ 400 := pow_mul 2 3 400
      _ ≤ 10 ^ 400 := pow_le_pow_left₀ (by norm_num) (by norm_num) 400
  have hinverse : (10 : ℚ) ^ (-400 : Int) ≤ 2 ^ (-1074 : Int) := by
    rw [zpow_neg, zpow_neg, zpow_ofNat, zpow_ofNat]
    exact inv_anti₀ (by positivity) hpowers
  have hulp : (2 : ℚ) ^ (-1074 : Int) ≤ x.ulp := zpow_le_zpow_right₀ (by norm_num) hx.least_le
  have hone : x.ulp ≤ x.mantissa * x.ulp :=
    le_mul_of_one_le_left x.ulp_pos.le (by exact_mod_cast hpos)
  rw [le_floorOn_iff, Nat.cast_one, one_mul, value_eq_mul_ulp]
  exact hinverse.trans (hulp.trans hone)

/-- The size has its first digit just below the power of ten that is its magnitude. -/
theorem magnitude_spec (hx : x.Regular) (hpos : 0 < x.mantissa) :
    (10 : ℚ) ^ (x.magnitude - 1) ≤ x.value ∧ x.value < 10 ^ x.magnitude := by
  rw [magnitude, sub_eq_add_neg _ (400 : Int)]
  exact length_toDigits_floorOn (one_le_floorOn hx hpos)

/-- The multiples of a power of ten lie closer together than the midpoints if the size has seventeen
digits on this grid. -/
theorem grid_lt_midpoints (hx : x.Regular) (hgrid : (10 : ℚ) ^ 16 * 10 ^ grid ≤ x.value) :
    (10 : ℚ) ^ grid < x.gap / 2 + x.ulp / 2 := by
  have hulp := x.ulp_pos
  rw [value_eq_mul_ulp] at hgrid
  unfold gap
  split_ifs with hpower
  · rw [hpower.1] at hgrid
    push_cast at hgrid
    linarith
  · have hmantissa : (x.mantissa : ℚ) + 1 ≤ 2 ^ 53 := by exact_mod_cast hx.mantissa_lt
    nlinarith

theorem exists_covers (hx : x.Regular) (hpos : 0 < x.mantissa) :
    ∃ count : Nat, x.Covers (count * 10 ^ (x.magnitude - 17)) := by
  have hulp := x.ulp_pos
  have hgap := x.gap_pos
  have hfloor := x.floorOn_mul_le (x.magnitude - 17)
  have hceil := x.lt_succ_floorOn_mul (x.magnitude - 17)
  have hgrid : (10 : ℚ) ^ (x.magnitude - 17) < x.gap / 2 + x.ulp / 2 := by
    refine grid_lt_midpoints hx ?_
    rw [ten_zpow_mul]
    convert (magnitude_spec hx hpos).1 using 2
    push_cast
    ring
  rcases lt_or_ge (x.value - x.gap / 2) (x.floorOn (x.magnitude - 17) * 10 ^ (x.magnitude - 17))
    with hlow | hlow
  · exact ⟨_, covers_of_lt hlow (by linarith)⟩
  · refine ⟨x.floorOn (x.magnitude - 17) + 1, covers_of_lt ?_ ?_⟩
    · rw [Nat.cast_add_one]
      linarith
    · rw [Nat.cast_add_one]
      linarith

/-! ## The fewest digits -/

theorem pos_of_covers (hpos : 0 < x.mantissa) (h : x.Covers r) : 0 < r := by
  have hulp := x.ulp_pos
  have hgap := x.gap_le_ulp
  have hvalue : x.ulp ≤ x.value :=
    le_mul_of_one_le_left hulp.le (by exact_mod_cast hpos)
  linarith [h.bounds.1]

theorem count_pos_of_covers (hpos : 0 < x.mantissa) {found : Scaled} (h : x.Covers found.value)
    (hdigits : found.digits < 10 ^ count) : 0 < count := by
  by_contra hzero
  have hvalue := pos_of_covers hpos h
  have hnone : found.digits = 0 := by simpa [Nat.eq_zero_of_not_pos hzero] using hdigits
  simp [Scaled.value, hnone] at hvalue

/-- A decimal that has its first digit in front of `10 ^ power` is a multiple of the power of ten
where its last digit is. -/
theorem exists_value_eq_mul {found : Scaled} {power : Int} (hdigits : found.digits < 10 ^ count)
    (hvalue : (10 : ℚ) ^ (power - 1) ≤ found.value) :
    ∃ multiple : Nat, found.value = multiple * 10 ^ (power - count) := by
  have hexponent : power - count ≤ found.exponent := by
    by_contra hlt
    have hless : (found.digits : ℚ) < 10 ^ count := by exact_mod_cast hdigits
    have hpower : (10 : ℚ) ^ found.exponent ≤ 10 ^ (power - count - 1) :=
      zpow_le_zpow_right₀ (by norm_num) (by omega)
    refine hvalue.not_gt ?_
    calc
      found.value ≤ found.digits * 10 ^ (power - count - 1) :=
        mul_le_mul_of_nonneg_left hpower (Nat.cast_nonneg _)
      _ < 10 ^ count * 10 ^ (power - count - 1) :=
        mul_lt_mul_of_pos_right hless (ten_zpow_pos _)
      _ = 10 ^ (power - 1) := by
        rw [ten_zpow_mul]
        congr 1
        ring
  refine ⟨found.digits * 10 ^ (found.exponent - (power - count)).toNat, ?_⟩
  rw [Scaled.value, Nat.cast_mul, Nat.cast_pow, Nat.cast_ofNat, mul_assoc, ten_zpow_mul]
  congr 2
  omega

/-- For every decimal that reads back there is a multiple of a power of ten that reads back and is
as near: the decimal itself, or the power of ten between it and the size. -/
theorem exists_nearer (hx : x.Regular) (hpos : 0 < x.mantissa) {found : Scaled}
    (hcovers : x.Covers found.value) (hdigits : found.digits < 10 ^ count) :
    ∃ multiple : Nat, x.Covers (multiple * 10 ^ (x.magnitude - count)) ∧
      |(multiple : ℚ) * 10 ^ (x.magnitude - count) - x.value| ≤ |found.value - x.value| := by
  obtain ⟨hmagnitude, _⟩ := magnitude_spec hx hpos
  rcases lt_or_ge found.value (10 ^ (x.magnitude - 1)) with hlt | hge
  · have hcount := count_pos_of_covers hpos hcovers hdigits
    have hpower : ((10 ^ (count - 1) : Nat) : ℚ) * 10 ^ (x.magnitude - count) =
        10 ^ (x.magnitude - 1) := by
      rw [Nat.cast_pow, Nat.cast_ofNat, ten_zpow_mul]
      congr 1
      omega
    refine ⟨10 ^ (count - 1), ?_, ?_⟩
    · rw [hpower]
      exact hcovers.between x.covers_value hlt.le hmagnitude
    · rw [hpower, abs_of_nonpos (by linarith), abs_of_nonpos (by linarith)]
      linarith
  · obtain ⟨multiple, hmultiple⟩ := exists_value_eq_mul hdigits hge
    rw [hmultiple] at hcovers ⊢
    exact ⟨multiple, hcovers, le_rfl⟩

theorem findSome?_range_eq_some {α : Type} {f : Nat → Option α} {bound : Nat} {found : α}
    (h : (List.range bound).findSome? f = some found) :
    ∃ n < bound, f n = some found ∧ ∀ k < n, f k = none := by
  induction bound with
  | zero => cases h
  | succ bound ih =>
    rw [List.range_succ, List.findSome?_append, Option.or_eq_some_iff] at h
    rcases h with hbefore | ⟨hnone, hlast⟩
    · obtain ⟨n, hn, hfound⟩ := ih hbefore
      exact ⟨n, Nat.lt_succ_of_lt hn, hfound⟩
    · refine ⟨bound, Nat.lt_succ_self _, by simpa using hlast, fun k hk ↦ ?_⟩
      exact List.findSome?_eq_none_iff.mp hnone k (List.mem_range.mpr hk)

/-- The shortest decimal is found on the first grid where one is found, which is one of
seventeen. -/
theorem exists_nearestOn?_eq_shortest (hx : x.Regular) (hpos : 0 < x.mantissa) :
    ∃ n : Nat, n < 17 ∧ x.nearestOn? (x.magnitude - ((n : Int) + 1)) = some x.shortest ∧
      ∀ k < n, x.nearestOn? (x.magnitude - ((k : Int) + 1)) = none := by
  cases hfirst : (List.range 17).findSome?
      (x.nearestOn? ∘ fun n : Nat ↦ x.magnitude - ((n : Int) + 1)) with
  | some found =>
    have hshortest : x.shortest = found := by
      simp only [shortest, List.findSome?_map, hfirst, Option.getD_some]
    rw [hshortest]
    exact findSome?_range_eq_some hfirst
  | none =>
    obtain ⟨count, hcovers⟩ := exists_covers hx hpos
    have hnone := List.findSome?_eq_none_iff.mp hfirst 16 (by decide)
    exact absurd hcovers (not_covers_of_nearestOn?_eq_none hpos hnone count)

/-- What is found on a grid has no more digits than the grid has between it and the size; if it is
the power of ten above the size, then it has one. -/
theorem hasDigits_of_nearestOn? (hx : x.Regular) (hpos : 0 < x.mantissa) {found : Scaled}
    (hfound : x.nearestOn? (x.magnitude - count) = some found) (hcount : 0 < count) :
    found.HasDigits count := by
  obtain ⟨hexponent, hdigits, _⟩ := nearestOn?_eq_some hpos hfound
  have hfloor : x.floorOn (x.magnitude - count) < 10 ^ count := by
    rw [floorOn_lt_iff, Nat.cast_pow, Nat.cast_ofNat, ten_zpow_mul, sub_add_cancel]
    exact (magnitude_spec hx hpos).2
  rcases Nat.lt_or_ge found.digits (10 ^ count) with hlt | hge
  · exact ⟨found, rfl, hlt⟩
  · have hpower : found.digits = 10 ^ count := by omega
    refine ⟨⟨1, x.magnitude⟩, ?_, Nat.one_lt_pow hcount.ne' (by decide)⟩
    rw [Scaled.value, Scaled.value, hexponent, hpower, Nat.cast_one, one_mul, Nat.cast_pow,
      Nat.cast_ofNat, ten_zpow_mul, sub_add_cancel]

/-- The shortest decimal reads back as the size. It has no more digits than any other decimal that
reads back, and seventeen at most, and none with as many digits is nearer. -/
theorem shortest_spec (hx : x.Regular) (hpos : 0 < x.mantissa) :
    RoundsTo x.shortest.value x ∧ ∃ n ≤ 17, x.shortest.HasDigits n ∧
      ∀ (other : Scaled) (k : Nat), RoundsTo other.value x → other.HasDigits k →
        n ≤ k ∧ (k = n → |x.shortest.value - x.value| ≤ |other.value - x.value|) := by
  obtain ⟨n, hn, hfound, hnone⟩ := exists_nearestOn?_eq_shortest hx hpos
  have hcast (m : Nat) : x.magnitude - ((m : Int) + 1) = x.magnitude - (m + 1 : Nat) := by
    push_cast
    rfl
  rw [hcast] at hfound
  obtain ⟨_, _, hcovers, hnearest⟩ := nearestOn?_eq_some hpos hfound
  refine ⟨(covers_iff_roundsTo hx hpos).mp hcovers, n + 1, hn,
    hasDigits_of_nearestOn? hx hpos hfound (Nat.succ_pos n), fun other k hother hk ↦ ?_⟩
  obtain ⟨same, hsame, hlt⟩ := hk
  rw [← covers_iff_roundsTo hx hpos, ← hsame] at hother
  obtain ⟨multiple, hmultiple, hnear⟩ := exists_nearer hx hpos hother hlt
  rw [hsame] at hnear
  constructor
  · by_contra hfewer
    obtain ⟨m, rfl⟩ : ∃ m, k = m + 1 :=
      Nat.exists_eq_succ_of_ne_zero (count_pos_of_covers hpos hother hlt).ne'
    have hearlier := hnone m (by omega)
    rw [hcast] at hearlier
    exact not_covers_of_nearestOn?_eq_none hpos hearlier multiple hmultiple
  · rintro rfl
    exact (hnearest multiple hmultiple).trans hnear

end Binary

end SectionedConfig.Decimal

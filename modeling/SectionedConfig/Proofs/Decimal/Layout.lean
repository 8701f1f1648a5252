import Mathlib.Tactic.SplitIfs
import SectionedConfig.Proofs.Decimal.Numeral
import SectionedConfig.Proofs.Decimal.Shortest

/-!
# How decimals are written

A decimal text is either digits around a point, or one digit with a fraction and the power of ten
that the point is moved by. Both are texts of a grammar that has no digit too many: zeros in front
and at the end are left out, but for the one that stands where a digit is needed. Whichever notation
a style asks for, the text stands for the decimal that was laid out.

So what is written for a double, after its sign, reads back as the double, and it stands for the
shortest decimal that does.
-/

namespace SectionedConfig.Decimal

/-- A text of the grammar of decimals, and the number that it stands for. -/
inductive Writes : List Char → ℚ → Prop
  | positional {whole fraction : List (Fin 10)} (hwhole : whole ≠ []) (hfraction : fraction ≠ [])
      (hfirst : whole.head? = some 0 → whole = [0])
      (hlast : fraction.getLast? = some 0 → fraction = [0]) :
      Writes (whole.map digit ++ '.' :: fraction.map digit)
        (digitsValue (whole ++ fraction) * 10 ^ (-fraction.length : Int))
  | scientific {first : Fin 10} {fraction : List (Fin 10)} {power : List Char} {n : Int}
      (hfirst : first ≠ 0) (hlast : fraction.getLast? ≠ some 0) (hpower : Denotes power n) :
      Writes (digit first :: (if fraction = [] then [] else '.' :: fraction.map digit) ++
        'e' :: power) (digitsValue (first :: fraction) * 10 ^ (n - fraction.length))

/-! ## Zeros -/

theorem digitsValue_append (first second : List (Fin 10)) :
    digitsValue (first ++ second) =
      digitsValue first * 10 ^ second.length + digitsValue second := by
  rw [digitsValue, List.reverse_append, List.map_append, Nat.ofDigits_append, List.length_map,
    List.length_reverse, add_comm, mul_comm]
  rfl

theorem digitsValue_replicate_zero (zeros : Nat) : digitsValue (List.replicate zeros 0) = 0 := by
  induction zeros with
  | zero => rfl
  | succ zeros ih =>
    rw [List.replicate_succ', digitsValue_append, ih]
    rfl

/-- Zeros at the end count as factors of ten. -/
theorem digitsValue_append_replicate (digits : List (Fin 10)) (zeros : Nat) :
    digitsValue (digits ++ List.replicate zeros 0) = digitsValue digits * 10 ^ zeros := by
  rw [digitsValue_append, digitsValue_replicate_zero, List.length_replicate, add_zero]

/-- Zeros in front do not count. -/
theorem digitsValue_replicate_append (digits : List (Fin 10)) (zeros : Nat) :
    digitsValue (List.replicate zeros 0 ++ digits) = digitsValue digits := by
  rw [digitsValue_append, digitsValue_replicate_zero, zero_mul, zero_add]

namespace Scaled

theorem significant_append_zero (text : List Char) :
    significant (text ++ ['0']) = significant text := by
  simp [significant]

theorem significant_append_of_ne {c : Char} (h : c ≠ '0') (text : List Char) :
    significant (text ++ [c]) = text ++ [c] := by
  simp [significant, h]

/-- The significant digits are what is left when the zeros at the end are taken off. -/
theorem exists_significant (digits : List (Fin 10)) : ∃ (kept : List (Fin 10)) (zeros : Nat),
    digits = kept ++ List.replicate zeros 0 ∧ significant (digits.map digit) = kept.map digit ∧
      kept.getLast? ≠ some 0 := by
  induction digits using List.reverseRecOn with
  | nil => exact ⟨[], 0, rfl, rfl, by simp⟩
  | append_singleton digits d ih =>
    by_cases hzero : d = 0
    · obtain ⟨kept, zeros, hdigits, hsignificant, hlast⟩ := ih
      refine ⟨kept, zeros + 1, ?_, ?_, hlast⟩
      · rw [List.replicate_succ', ← List.append_assoc, ← hdigits, hzero]
      · rw [← hsignificant, hzero, List.map_append]
        exact significant_append_zero _
    · refine ⟨digits ++ [d], 0, (List.append_nil _).symm, ?_, by simpa using hzero⟩
      have hne : digit d ≠ '0' := by
        rw [digit, ne_eq, Nat.digitChar_eq_zero]
        exact fun h ↦ hzero (Fin.ext h)
      rw [List.map_append, List.map_singleton]
      exact significant_append_of_ne hne _

variable {x : Scaled}

/-! ## The two notations -/

/-- The digits of a decimal, of which the first is not zero. -/
theorem exists_first_digit (h : x.digits ≠ 0) : ∃ (first : Fin 10) (rest : List (Fin 10)),
    first ≠ 0 ∧ (first :: rest).map digit = Nat.toDigits 10 x.digits ∧
      digitsValue (first :: rest) = x.digits := by
  obtain ⟨digits, hne, htext, hvalue, hzero⟩ := exists_digits x.digits
  obtain ⟨first, rest, rfl⟩ := List.exists_cons_of_ne_nil hne
  refine ⟨first, rest, ?_, htext, hvalue⟩
  rintro rfl
  rw [hzero rfl] at hvalue
  exact h hvalue.symm

/-- Zeros at the end of the digits can be counted by the exponent. -/
theorem value_eq_of_digitsValue {digits : List (Fin 10)} {zeros : Nat}
    (h : digitsValue (digits ++ List.replicate zeros 0) = x.digits) :
    x.value = digitsValue digits * 10 ^ (x.exponent + zeros) := by
  rw [value, ← h, digitsValue_append_replicate, Nat.cast_mul, Nat.cast_pow, Nat.cast_ofNat,
    mul_assoc, Binary.ten_zpow_mul]

/-- The exponent in scientific notation, which always has a sign. -/
theorem denotes_signed (n : Int) : Denotes ((if 0 ≤ n then ['+'] else []) ++ write n) n := by
  rw [← read?_eq_some_iff]
  split_ifs with hsign
  · have hdigits : write n = Nat.toDigits 10 n.natAbs := if_neg (by omega)
    rw [hdigits, List.singleton_append, read?, readDigits?_toDigits]
    change some (n.natAbs : Int) = some n
    congr 1
    omega
  · exact read?_write n

theorem writes_scientific (h : x.digits ≠ 0) : Writes x.scientific x.value := by
  obtain ⟨first, rest, hfirst, htext, hvalue⟩ := exists_first_digit h
  obtain ⟨kept, zeros, hrest, hkept, hlast⟩ := exists_significant rest
  have hleading : x.leading = x.exponent + zeros + kept.length := by
    rw [leading, ← htext, List.length_map, List.length_cons, hrest, List.length_append,
      List.length_replicate]
    push_cast
    ring
  have hwrites := Writes.scientific hfirst hlast (denotes_signed x.leading)
  have hnumber : x.value = digitsValue (first :: kept) * 10 ^ (x.leading - kept.length) := by
    rw [hleading, add_sub_cancel_right]
    exact value_eq_of_digitsValue (by rw [List.cons_append, ← hrest, hvalue])
  rw [hnumber]
  convert hwrites using 1
  simp only [scientific, ← htext, List.map_cons, List.take_succ_cons, List.take_zero,
    List.drop_succ_cons, List.drop_zero, hkept, List.isEmpty_iff, List.map_eq_nil_iff]
  rfl

/-- Without an exponent below zero the digits are followed by zeros, and the fraction is zero. -/
theorem writes_positional_of_nonneg (h : x.digits ≠ 0) (hexponent : 0 ≤ x.exponent) :
    Writes x.positional x.value := by
  obtain ⟨first, rest, hfirst, htext, hvalue⟩ := exists_first_digit h
  have hwrites : Writes ((first :: rest ++ List.replicate x.exponent.toNat 0).map digit ++
      '.' :: [(0 : Fin 10)].map digit) _ :=
    .positional (by simp) (by simp) (fun hhead ↦ absurd (Option.some.inj hhead) hfirst)
      fun _ ↦ rfl
  have hnumber : x.value = digitsValue (first :: rest) * 10 ^ (x.exponent + (0 : Nat)) :=
    value_eq_of_digitsValue (by rw [List.replicate_zero, List.append_nil, hvalue])
  have hexponent' : x.exponent + (0 : Nat) = -1 + (x.exponent.toNat + 1 : Nat) := by omega
  rw [hnumber, hexponent', ← Binary.ten_zpow_mul]
  convert hwrites using 1
  · rw [positional, if_pos hexponent, ← htext, List.map_append, List.map_replicate]
    rfl
  · rw [List.append_assoc, ← List.replicate_succ', digitsValue_append_replicate, Nat.cast_mul,
      Nat.cast_pow, Nat.cast_ofNat, mul_assoc]
    rfl

/-- Zeros in front of the digits make room for the point: if any are needed, then one of them is in
front of the point. -/
theorem exists_point {first : Fin 10} (hfirst : first ≠ 0) (rest : List (Fin 10)) (places : Nat) :
    ∃ whole fraction : List (Fin 10),
      List.replicate (places + 1 - (rest.length + 1)) 0 ++ first :: rest = whole ++ fraction ∧
        fraction.length = places ∧ whole ≠ [] ∧ (whole.head? = some 0 → whole = [0]) := by
  rcases Nat.lt_or_ge rest.length places with hfew | hmany
  · refine ⟨[0], List.replicate (places - (rest.length + 1)) 0 ++ first :: rest, ?_, ?_, by simp,
      fun _ ↦ rfl⟩
    · rw [Nat.sub_add_comm hfew, List.replicate_succ]
      rfl
    · rw [List.length_append, List.length_replicate, List.length_cons]
      omega
  · obtain ⟨others, hothers⟩ := Nat.exists_eq_add_of_le hmany
    refine ⟨first :: rest.take others, rest.drop others, ?_, ?_, by simp,
      fun hhead ↦ absurd (Option.some.inj hhead) hfirst⟩
    · rw [List.cons_append, List.take_append_drop, Nat.sub_eq_zero_of_le (by omega)]
      rfl
    · rw [List.length_drop]
      omega

/-- The fraction loses the zeros at its end, but for one if it is zero. -/
theorem exists_fraction {fraction : List (Fin 10)} (h : fraction ≠ []) :
    ∃ (shown : List (Fin 10)) (zeros : Nat), fraction = shown ++ List.replicate zeros 0 ∧
      (if (significant (fraction.map digit)).isEmpty then ['0']
        else significant (fraction.map digit)) = shown.map digit ∧
      shown ≠ [] ∧ (shown.getLast? = some 0 → shown = [0]) := by
  obtain ⟨kept, zeros, hfraction, hkept, hlast⟩ := exists_significant fraction
  rw [hkept]
  by_cases hnone : kept = []
  · subst hnone
    obtain ⟨others, rfl⟩ : ∃ others, zeros = others + 1 :=
      Nat.exists_eq_succ_of_ne_zero fun hzero ↦ h (by rw [hfraction, hzero]; rfl)
    exact ⟨[0], others, hfraction, rfl, by simp, fun _ ↦ rfl⟩
  · exact ⟨kept, zeros, hfraction, if_neg (by simpa using hnone), hnone, fun h ↦ absurd h hlast⟩

/-- With an exponent below zero the point stands among the digits, or in front of them with zeros
between. -/
theorem writes_positional_of_neg (h : x.digits ≠ 0) (hexponent : x.exponent < 0) :
    Writes x.positional x.value := by
  obtain ⟨first, rest, hfirst, htext, hvalue⟩ := exists_first_digit h
  obtain ⟨places, hplaces⟩ : ∃ places : Nat, x.exponent = -places :=
    ⟨(-x.exponent).toNat, by omega⟩
  obtain ⟨whole, fraction, hpadded, hlength, hwhole, hhead⟩ := exists_point hfirst rest places
  have hfraction : fraction ≠ [] := List.ne_nil_of_length_pos (by omega)
  obtain ⟨shown, zeros, hsplit, hshown, hne, hlast⟩ := exists_fraction hfraction
  have hdigits : digitsValue (whole ++ shown ++ List.replicate zeros 0) = x.digits := by
    rw [List.append_assoc, ← hsplit, ← hpadded, digitsValue_replicate_append, hvalue]
  have hzeros : x.exponent + zeros = -shown.length := by
    rw [hplaces, ← hlength, hsplit, List.length_append, List.length_replicate]
    push_cast
    ring
  have hpositional : x.positional = whole.map digit ++ '.' :: shown.map digit := by
    have hpadding : List.replicate (places + 1 - (Nat.toDigits 10 x.digits).length) '0' ++
        Nat.toDigits 10 x.digits = whole.map digit ++ fraction.map digit := by
      rw [← htext, ← List.map_append, ← hpadded, List.map_append, List.map_replicate,
        List.length_map]
      rfl
    have hplaces' : (-x.exponent).toNat = places := by omega
    rw [positional, if_neg (by omega)]
    have hbefore : (whole.map digit ++ fraction.map digit).length - places =
        (whole.map digit).length := by
      simp [hlength]
    simp only [hplaces', hpadding, hbefore, List.take_left, List.drop_left]
    rw [hshown]
  rw [hpositional, value_eq_of_digitsValue hdigits, hzeros]
  exact .positional hwhole hne hhead hlast

theorem writes_positional (h : x.digits ≠ 0) : Writes x.positional x.value := by
  rcases lt_or_ge x.exponent 0 with hexponent | hexponent
  · exact writes_positional_of_neg h hexponent
  · exact writes_positional_of_nonneg h hexponent

/-- A decimal is written as a text that stands for it. -/
theorem writes_layout (style : Style) (h : x.digits ≠ 0) : Writes (x.layout style) x.value := by
  unfold layout
  split_ifs
  · exact writes_positional h
  · exact writes_scientific h

/-- A tenth is no double. The double nearest to it is written as a tenth all the same, and a double
below the least power of ten of the style is written with an exponent. -/
example : (Binary.shortest ⟨7205759403792794, -56⟩).layout ⟨-5, 15⟩ = ['0', '.', '1'] ∧
    (Binary.shortest ⟨1, -1074⟩).layout ⟨-5, 15⟩ = ['5', 'e', '-', '3', '2', '4'] := by
  decide +kernel

end Scaled

/-! ## Doubles -/

theorem Binary.regular_of_ofFloat? {x : Float} {size : Binary}
    (h : Binary.ofFloat? x = some size) : size.Regular := by
  unfold Binary.ofFloat? at h
  have hfraction : x.toBits.toNat % 2 ^ 52 < 2 ^ 52 := Nat.mod_lt _ (by decide)
  simp only [Nat.pow_eq] at h
  split_ifs at h with hinfinite hsubnormal
  · obtain rfl := Option.some.inj h
    exact ⟨by change _ % 2 ^ 52 < 2 ^ 53; omega, le_rfl, .inl rfl⟩
  · obtain rfl := Option.some.inj h
    refine ⟨?_, ?_, .inr ?_⟩
    · change 2 ^ 52 + _ % 2 ^ 52 < 2 ^ 53
      omega
    · change (-1074 : Int) ≤ _ - 1075
      omega
    · exact Nat.le_add_right _ _

theorem writes_zero : Writes ['0', '.', '0'] 0 := by
  have hwrites : Writes ([(0 : Fin 10)].map digit ++ '.' :: [(0 : Fin 10)].map digit) _ :=
    .positional (by simp) (by simp) (fun _ ↦ rfl) fun _ ↦ rfl
  have hzero : digitsValue ([0] ++ [0]) = 0 := rfl
  rwa [hzero, Nat.cast_zero, zero_mul] at hwrites

theorem Binary.roundsTo_zero {size : Binary} (h : size.mantissa = 0) :
    Binary.RoundsTo 0 size where
  nearest y _ := by
    rw [value, h, Nat.cast_zero, zero_mul, sub_zero, abs_zero]
    exact abs_nonneg _
  even _ _ _ _ := by rw [h]

/-- What is written for a double is a sign and a decimal text. The text stands for a number that
reads back as the size of the double, and unless it is zero, for the shortest one. -/
theorem writeFloat?_eq_some {style : Style} {x : Float} {text : String}
    (h : writeFloat? style x = some text) :
    ∃ (size : Binary) (digits : List Char) (r : ℚ), Binary.ofFloat? x = some size ∧
      text = String.ofList ((if x.toBits.toNat < 2 ^ 63 then [] else ['-']) ++ digits) ∧
      Writes digits r ∧ Binary.RoundsTo r size ∧
      (0 < size.mantissa → r = size.shortest.value) := by
  obtain ⟨size, hsize, htext⟩ := Option.map_eq_some_iff.mp h
  have hregular := Binary.regular_of_ofFloat? hsize
  by_cases hzero : size.mantissa = 0
  · refine ⟨size, _, 0, hsize, ?_, writes_zero, Binary.roundsTo_zero hzero, by omega⟩
    simpa [hzero] using htext.symm
  · have hpos : 0 < size.mantissa := Nat.pos_of_ne_zero hzero
    obtain ⟨hrounds, _⟩ := Binary.shortest_spec hregular hpos
    have hdigits : size.shortest.digits ≠ 0 := by
      intro hnone
      have hcovers := (Binary.covers_iff_roundsTo hregular hpos).mpr hrounds
      have hvalue := Binary.pos_of_covers hpos hcovers
      simp [Scaled.value, hnone] at hvalue
    refine ⟨size, _, _, hsize, ?_, Scaled.writes_layout style hdigits, hrounds, fun _ ↦ rfl⟩
    simpa [hzero] using htext.symm

end SectionedConfig.Decimal

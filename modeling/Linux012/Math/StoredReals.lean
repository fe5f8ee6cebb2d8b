import Linux012.Math.LoadedReals

/-! How `temp_to_short` and `temp_to_long` round. -/

set_option autoImplicit false

namespace Linux012.Math

open CarryWords ExponentWord Rounding

/-- The number is in the normal range of the format, and is rounded to one that is. -/
structure InRange (F : BinaryFormat) (mode : Mode) (r : TempReal) : Prop where
  low : 2 ^ (1 - (F.bias : ℤ)) ≤ |r.value|
  high : |r.value| < 2 ^ ((F.bias : ℤ) + 1)
  rounded : |roundTo (F.fractionBits + 1) mode r.value| < 2 ^ ((F.bias : ℤ) + 1)

def StoresRounded (F : BinaryFormat) (mode : Mode) (r : TempReal) (n : Nat) : Prop :=
  F.Finite n ∧ F.value ℚ n = roundTo (F.fractionBits + 1) mode r.value

structure Storable (F : BinaryFormat) : Prop where
  width : F.fractionBits < 63
  bias : F.bias < 16383
  exponents : 2 ^ F.exponentBits = 2 * F.bias + 2

theorem shortFormat_storable : Storable shortFormat := ⟨by decide, by decide, by decide⟩

theorem longFormat_storable : Storable longFormat := ⟨by decide, by decide, by decide⟩

section Stored

variable {F : BinaryFormat} {mode : Mode} {r : TempReal}

theorem abs_value_bounds (normal : r.Normalized) :
    2 ^ ((r.field : ℤ) - 16383) ≤ |r.value| ∧ |r.value| < 2 ^ ((r.field : ℤ) - 16382) := by
  have small := r.mantissa_lt
  rw [TempReal.normalized_iff] at normal
  have place : (0 : ℚ) < 2 ^ ((r.field : ℤ) - 16446) := by positivity
  have size := r.abs_value
  constructor
  · rw [show (r.field : ℤ) - 16383 = (63 : Nat) + (r.field - 16446) by omega, zpow_add₀ two_ne_zero, zpow_natCast, size]
    exact mul_le_mul_of_nonneg_right (by exact_mod_cast normal) place.le
  · rw [show (r.field : ℤ) - 16382 = (64 : Nat) + (r.field - 16446) by omega, zpow_add₀ two_ne_zero, zpow_natCast, size]
    exact mul_lt_mul_of_pos_right (by exact_mod_cast small) place

theorem InRange.field_bounds (normal : r.Normalized) (range : InRange F mode r) :
    16384 ≤ r.field + F.bias ∧ r.field ≤ 16383 + F.bias := by
  obtain ⟨below, above⟩ := abs_value_bounds normal
  have first := (zpow_lt_zpow_iff_right₀ one_lt_two).mp (range.low.trans_lt above)
  have last := (zpow_lt_zpow_iff_right₀ one_lt_two).mp (below.trans_lt range.high)
  omega

theorem roundTo_value (storable : Storable F) (normal : r.Normalized) :
    roundTo (F.fractionBits + 1) mode r.value =
      signed r.negative (r.mantissa / 2 ^ (63 - F.fractionBits) +
        (roundsAway mode r.negative r.mantissa (2 ^ (63 - F.fractionBits))).toNat) *
        2 ^ ((r.field : ℤ) - 16446 + (63 - F.fractionBits : Nat)) := by
  obtain ⟨k, dropped⟩ : ∃ k, 63 - F.fractionBits = k := ⟨_, rfl⟩
  have width := storable.width
  have wide : 2 ^ (F.fractionBits + 1) * 2 ^ k = 2 ^ 64 := by
    rw [← Nat.pow_add]
    congr 1
    omega
  have small := r.mantissa_lt
  rw [TempReal.normalized_iff] at normal
  rw [dropped]
  have positive : 0 < 2 ^ k := Nat.two_pow_pos k
  have unit : (0 : ℚ) < (2 ^ k : Nat) := by exact_mod_cast positive
  have is : r.value = (signed r.negative r.mantissa : ℚ) / (2 ^ k : Nat) * 2 ^ ((r.field : ℤ) - 16446 + k) := by
    rw [TempReal.value, TempReal.signedMantissa, zpow_add₀ two_ne_zero, zpow_natCast]
    push_cast
    field_simp
  have size : |(signed r.negative r.mantissa : ℚ) / (2 ^ k : Nat)| = r.mantissa / (2 ^ k : Nat) := by
    rw [abs_div, ← Int.cast_abs, abs_signed, Int.cast_natCast, abs_of_pos unit]
  rw [roundTo_eq mode is, roundInt_div mode r.negative r.mantissa positive]
  · rw [size, ← mul_div_assoc, le_div_iff₀ unit]
    exact_mod_cast (show 2 ^ (F.fractionBits + 1) * 2 ^ k ≤ 2 * r.mantissa by omega)
  · rw [size, div_lt_iff₀ unit]
    exact_mod_cast (show r.mantissa < 2 ^ (F.fractionBits + 1) * 2 ^ k by omega)

theorem signed_eq_iff {negative : Bool} {n m : Nat} : signed negative n = signed negative m ↔ n = m := by
  cases negative <;> simp [signed]

theorem eq_of_toNat_eq {x y : Bool} (same : x.toNat = y.toNat) : x = y := by
  cases x <;> cases y <;> simp_all

theorem place_pos (F : BinaryFormat) (r : TempReal) :
    (0 : ℚ) < 2 ^ ((r.field : ℤ) - 16446 + (63 - F.fractionBits : Nat)) := by positivity

theorem rounded_digits_lt (storable : Storable F) (normal : r.Normalized) (range : InRange F mode r)
    (last : r.field = 16383 + F.bias) :
    r.mantissa / 2 ^ (63 - F.fractionBits) +
      (roundsAway mode r.negative r.mantissa (2 ^ (63 - F.fractionBits))).toNat < 2 ^ (F.fractionBits + 1) := by
  have width := storable.width
  have bound := range.rounded
  have place := place_pos F r
  rw [roundTo_value storable normal, abs_mul, ← Int.cast_abs, abs_signed, Int.cast_natCast, abs_of_pos place,
    show (F.bias : ℤ) + 1 = (F.fractionBits + 1 : Nat) + (r.field - 16446 + (63 - F.fractionBits : Nat)) by omega,
    zpow_add₀ two_ne_zero (F.fractionBits + 1 : Nat), zpow_natCast, mul_lt_mul_iff_left₀ place] at bound
  exact_mod_cast bound

theorem kept_bits (storable : Storable F) (normal : r.Normalized) :
    2 ^ F.fractionBits + r.mantissa / 2 ^ (63 - F.fractionBits) % 2 ^ F.fractionBits =
      r.mantissa / 2 ^ (63 - F.fractionBits) := by
  have width := storable.width
  have small := r.mantissa_lt
  rw [TempReal.normalized_iff] at normal
  have low : 2 ^ F.fractionBits ≤ r.mantissa / 2 ^ (63 - F.fractionBits) := by
    rw [Nat.le_div_iff_mul_le (Nat.two_pow_pos _), ← Nat.pow_add, Nat.add_sub_cancel' width.le]
    exact normal
  have high : r.mantissa / 2 ^ (63 - F.fractionBits) < 2 * 2 ^ F.fractionBits := by
    rw [Nat.div_lt_iff_lt_mul (Nat.two_pow_pos _), Nat.mul_assoc, ← Nat.pow_add, Nat.add_sub_cancel' width.le]
    omega
  rw [Nat.mod_eq_sub_mod low, Nat.mod_eq_of_lt (by omega)]
  omega

theorem storesRounded_iff (storable : Storable F) (normal : r.Normalized) (range : InRange F mode r) {n e : Nat}
    {added : Bool} (exponent : e + 16383 = r.field + F.bias)
    (is : n = 2 ^ (F.fractionBits + F.exponentBits) * r.negative.toNat + (e * 2 ^ F.fractionBits +
      (r.mantissa / 2 ^ (63 - F.fractionBits) % 2 ^ F.fractionBits + added.toNat))) :
    StoresRounded F mode r n ↔ added = roundsAway mode r.negative r.mantissa (2 ^ (63 - F.fractionBits)) := by
  have width := storable.width
  have fields := range.field_bounds normal
  have exponents := storable.exponents
  have positive := Nat.two_pow_pos F.fractionBits
  have kept := kept_bits storable normal
  have inside : r.mantissa / 2 ^ (63 - F.fractionBits) % 2 ^ F.fractionBits < 2 ^ F.fractionBits :=
    Nat.mod_lt _ positive
  have flag := added.toNat_le
  have room : e * 2 ^ F.fractionBits + (r.mantissa / 2 ^ (63 - F.fractionBits) % 2 ^ F.fractionBits + added.toNat) <
      2 ^ (F.fractionBits + F.exponentBits) := by
    have top := Nat.mul_le_mul_right (2 ^ F.fractionBits) (show e + 2 ≤ 2 * F.bias + 2 by omega)
    rw [Nat.pow_add, exponents, Nat.mul_comm (2 ^ F.fractionBits)]
    rw [Nat.add_mul] at top
    omega
  have number := BinaryFormat.value_of_pack ℚ (F := F) (show 0 < e by omega) (by omega) room is
  rw [← Nat.add_assoc, kept, show (e : ℤ) - F.bias - F.fractionBits =
    r.field - 16446 + (63 - F.fractionBits : Nat) by omega] at number
  have place := place_pos F r
  have rounded : roundTo (F.fractionBits + 1) mode r.value = _ := roundTo_value storable normal
  rw [StoresRounded, number, rounded]
  constructor
  · rintro ⟨-, same⟩
    have digits := signed_eq_iff.mp (Int.cast_injective (mul_right_cancel₀ place.ne' same))
    exact eq_of_toNat_eq (Nat.add_left_cancel digits)
  · rintro rfl
    refine ⟨fun infinite => ?_, rfl⟩
    rw [BinaryFormat.exponent, (BinaryFormat.fields_of_pack room is).2, exponents] at infinite
    have top := Nat.mul_le_mul_right (2 ^ F.fractionBits) infinite.ge
    have whole := Nat.div_mul_le_self (e * 2 ^ F.fractionBits + (r.mantissa / 2 ^ (63 - F.fractionBits) %
      2 ^ F.fractionBits + (roundsAway mode r.negative r.mantissa (2 ^ (63 - F.fractionBits))).toNat))
      (2 ^ F.fractionBits)
    have last : e = 2 * F.bias := by
      by_contra less
      have below := Nat.mul_le_mul_right (2 ^ F.fractionBits) (show e + 1 ≤ 2 * F.bias by omega)
      have step := Nat.mul_lt_mul_of_pos_right (show 2 * F.bias < 2 * F.bias + 2 - 1 by omega) positive
      rw [Nat.add_mul] at below
      omega
    have digits := rounded_digits_lt storable normal range (by omega)
    have step : (2 * F.bias + 2 - 1) * 2 ^ F.fractionBits = e * 2 ^ F.fractionBits + 2 ^ F.fractionBits := by
      rw [last, ← Nat.succ_mul]
      rfl
    rw [Nat.pow_succ] at digits
    omega

theorem inRange_of_fields (storable : Storable F) (normal : r.Normalized) (low : 16384 ≤ r.field + F.bias)
    (high : r.field < 16383 + F.bias) : InRange F mode r := by
  have width := storable.width
  have flag := (roundsAway mode r.negative r.mantissa (2 ^ (63 - F.fractionBits))).toNat_le
  obtain ⟨below, above⟩ := abs_value_bounds normal
  refine ⟨?_, ?_, ?_⟩
  · exact (zpow_le_zpow_right₀ one_le_two (by omega)).trans below
  · exact above.trans_le (zpow_le_zpow_right₀ one_le_two (by omega))
  · have place := place_pos F r
    have inside : r.mantissa / 2 ^ (63 - F.fractionBits) % 2 ^ F.fractionBits < 2 ^ F.fractionBits :=
      Nat.mod_lt _ (Nat.two_pow_pos _)
    have kept := kept_bits storable normal
    have digits : r.mantissa / 2 ^ (63 - F.fractionBits) +
        (roundsAway mode r.negative r.mantissa (2 ^ (63 - F.fractionBits))).toNat ≤ 2 ^ (F.fractionBits + 1) := by
      rw [Nat.pow_succ]
      omega
    rw [roundTo_value storable normal, abs_mul, ← Int.cast_abs, abs_signed, Int.cast_natCast, abs_of_pos place]
    calc _ ≤ ((2 ^ (F.fractionBits + 1) : Nat) : ℚ) * 2 ^ ((r.field : ℤ) - 16446 + (63 - F.fractionBits : Nat)) :=
          mul_le_mul_of_nonneg_right (by exact_mod_cast digits) place.le
      _ = 2 ^ ((r.field : ℤ) - 16382) := by
          rw [Nat.cast_pow, Nat.cast_ofNat, ← zpow_natCast, ← zpow_add₀ two_ne_zero]
          congr 1
          omega
      _ < 2 ^ ((F.bias : ℤ) + 1) := zpow_lt_zpow_right₀ one_lt_two (by omega)

end Stored

/-! ## The tests of the two routines -/

/-- The inputs on which `temp_to_short` adds what rounding adds. -/
def ShortRounds (mode : Mode) (r : TempReal) : Prop :=
  match mode with
  | .nearest => ¬(r.b &&& 0xff = 0x80 ∧ (r.a ≠ 0 ∨ r.b.getLsbD 8))
  | .down => ¬(r.negative ∧ r.b &&& 0xff = 0 ∧ r.a ≠ 0)
  | .up => ¬(¬r.negative ∧ r.b &&& 0xff = 0 ∧ r.a ≠ 0)
  | .towardZero => True

/-- The inputs on which `temp_to_long` adds what rounding adds. -/
def LongRounds (mode : Mode) (r : TempReal) : Prop :=
  match mode with
  | .nearest => ¬(r.a &&& 0x7ff = 0x400 ∧ r.a.getLsbD 11)
  | .down => r.negative → (r.b &&& 0xff ≠ 0 ↔ r.a &&& 0x7ff ≠ 0)
  | .up => ¬r.negative → (r.b &&& 0xff ≠ 0 ↔ r.a &&& 0x7ff ≠ 0)
  | .towardZero => True

theorem and_eq_iff {x mask y : BitVec 32} {k : Nat} (is : mask.toNat = 2 ^ k - 1) :
    x &&& mask = y ↔ x.toNat % 2 ^ k = y.toNat := by
  rw [← BitVec.toNat_inj, BitVec.toNat_and, is, Nat.and_two_pow_sub_one_eq_mod]

theorem getLsbD_iff {x : BitVec 32} (n : Nat) : x.getLsbD n = true ↔ x.toNat / 2 ^ n % 2 = 1 := by
  rw [BitVec.getLsbD, Nat.testBit_eq_decide_div_mod_eq, decide_eq_true_iff]

theorem shortIncrements_iff (mode : Mode) (r : TempReal) :
    shortIncrements mode r = roundsAway mode r.negative r.mantissa (2 ^ 40) ↔ ShortRounds mode r := by
  have small := r.a.isLt
  have words : r.mantissa = r.a.toNat + 2 ^ 32 * r.b.toNat := rfl
  have middle : r.b &&& 0xff = 0x80 ↔ r.b.toNat % 2 ^ 8 = 128 := and_eq_iff rfl
  have none : r.b &&& 0xff = 0 ↔ r.b.toNat % 2 ^ 8 = 0 := and_eq_iff rfl
  have low : r.a = 0 ↔ r.a.toNat = 0 := BitVec.toNat_inj.symm
  rw [Bool.eq_iff_iff, shortIncrements]
  cases mode with
  | nearest =>
    simp only [increments, roundsAway, ShortRounds, Bool.or_eq_true, Bool.and_eq_true, decide_eq_true_iff, middle,
      low, getLsbD_iff, ne_eq, words]
    omega
  | down =>
    simp only [increments, roundsAway, ShortRounds, Bool.and_eq_true, decide_eq_true_iff, none, low, ne_eq, words]
    cases r.negative with
    | false => simp
    | true =>
      simp
      omega
  | up =>
    simp only [increments, roundsAway, ShortRounds, Bool.and_eq_true, decide_eq_true_iff, none, low, ne_eq, words]
    cases r.negative with
    | false =>
      simp
      omega
    | true => simp
  | towardZero => exact iff_of_true Iff.rfl trivial

theorem longIncrements_iff (mode : Mode) (r : TempReal) :
    longIncrements mode r = roundsAway mode r.negative r.mantissa (2 ^ 11) ↔ LongRounds mode r := by
  have small := r.a.isLt
  have words : r.mantissa = r.a.toNat + 2 ^ 32 * r.b.toNat := rfl
  have middle : r.a &&& 0x7ff = 0x400 ↔ r.a.toNat % 2 ^ 11 = 1024 := and_eq_iff rfl
  have none : r.a &&& 0x7ff = 0 ↔ r.a.toNat % 2 ^ 11 = 0 := and_eq_iff rfl
  have tested : r.b &&& 0xff = 0 ↔ r.b.toNat % 2 ^ 8 = 0 := and_eq_iff rfl
  rw [Bool.eq_iff_iff, longIncrements]
  cases mode with
  | nearest =>
    simp only [increments, roundsAway, LongRounds, Bool.or_eq_true, Bool.and_eq_true, decide_eq_true_iff, middle,
      getLsbD_iff, words]
    omega
  | down =>
    simp only [increments, roundsAway, LongRounds, Bool.and_eq_true, decide_eq_true_iff, none, tested, ne_eq, words]
    cases r.negative with
    | false => simp
    | true =>
      simp
      omega
  | up =>
    simp only [increments, roundsAway, LongRounds, Bool.and_eq_true, decide_eq_true_iff, none, tested, ne_eq, words]
    cases r.negative with
    | false =>
      simp
      omega
    | true => simp
  | towardZero => exact iff_of_true Iff.rfl trivial

theorem tempToShort_storesRounded_iff {mode : Mode} {r : TempReal} (normal : r.Normalized)
    (range : InRange shortFormat mode r) :
    StoresRounded shortFormat mode r (tempToShort mode r).toNat ↔ ShortRounds mode r := by
  have fields := range.field_bounds normal
  change 16384 ≤ r.field + 127 ∧ r.field ≤ 16383 + 127 at fields
  have pattern := tempToShort_eq (a := r) (by omega) mode
  have flag := r.negative.toNat_le
  have flag' := (shortIncrements mode r).toNat_le
  rw [tempToShortTruncated_toNat, Nat.mod_eq_of_lt (by omega)] at pattern
  rw [← shortIncrements_iff]
  refine storesRounded_iff shortFormat_storable normal range (e := r.field - 16256) ?_ ?_
  · show _ = r.field + 127
    omega
  · rw [pattern]
    show _ = 2 ^ 31 * r.negative.toNat + ((r.field - 16256) * 2 ^ 23 +
      (r.mantissa / 2 ^ 40 % 2 ^ 23 + (shortIncrements mode r).toNat))
    omega

theorem tempToLong_storesRounded_iff {mode : Mode} {r : TempReal} (normal : r.Normalized)
    (range : InRange longFormat mode r) :
    StoresRounded longFormat mode r (tempToLong mode r).value ↔ LongRounds mode r := by
  have fields := range.field_bounds normal
  change 16384 ≤ r.field + 1023 ∧ r.field ≤ 16383 + 1023 at fields
  have pattern := tempToLong_eq (a := r) (by omega) mode
  have flag := r.negative.toNat_le
  have flag' := (longIncrements mode r).toNat_le
  rw [tempToLongTruncated_value, Nat.mod_eq_of_lt (by omega)] at pattern
  rw [← longIncrements_iff]
  refine storesRounded_iff longFormat_storable normal range (e := r.field - 15360) ?_ ?_
  · show _ = r.field + 1023
    omega
  · rw [pattern]
    show _ = 2 ^ 63 * r.negative.toNat + ((r.field - 15360) * 2 ^ 52 +
      (r.mantissa / 2 ^ 11 % 2 ^ 52 + (longIncrements mode r).toNat))
    omega

/-- Reals are stored correctly rounded except where the tests miss bits that are lost. -/
theorem store_rounds_iff (mode : Mode) (r : TempReal) (normal : r.Normalized) :
    (InRange shortFormat mode r →
      (StoresRounded shortFormat mode r (tempToShort mode r).toNat ↔ ShortRounds mode r)) ∧
      (InRange longFormat mode r → (StoresRounded longFormat mode r (tempToLong mode r).value ↔ LongRounds mode r)) :=
  ⟨tempToShort_storesRounded_iff normal, tempToLong_storesRounded_iff normal⟩

theorem store_rounds_one :
    (StoresRounded shortFormat .up .one (tempToShort .up .one).toNat ↔ ShortRounds .up .one) ∧
      (StoresRounded longFormat .up .one (tempToLong .up .one).value ↔ LongRounds .up .one) :=
  (store_rounds_iff .up .one (by decide)).imp
    (fun rounds => rounds (inRange_of_fields shortFormat_storable (by decide) (by decide) (by decide)))
    fun rounds => rounds (inRange_of_fields longFormat_storable (by decide) (by decide) (by decide))

def oddHalf : TempReal := ⟨⟨0, 0x80000180⟩, 0x3fff⟩

theorem tempToShort_oddHalf :
    oddHalf.Normalized ∧ InRange shortFormat .nearest oddHalf ∧
      ¬StoresRounded shortFormat .nearest oddHalf (tempToShort .nearest oddHalf).toNat := by
  have normal : oddHalf.Normalized := by decide
  have range : InRange shortFormat .nearest oddHalf :=
    inRange_of_fields shortFormat_storable normal (by decide) (by decide)
  refine ⟨normal, range, (tempToShort_storesRounded_iff normal range).not.mpr ?_⟩
  show ¬¬_
  decide

end Linux012.Math

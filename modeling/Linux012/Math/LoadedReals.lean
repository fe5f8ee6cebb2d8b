import Linux012.Math.Convert

/-! What `short_to_temp` and `long_to_temp` make of a real, and what comes back from it. -/

set_option autoImplicit false

namespace Linux012.Math

open CarryWords ExponentWord Rounding

/-! ## There and back -/

theorem toNat_eq_msb (v : BitVec 32) : v.toNat = 2 ^ 31 * v.msb.toNat + v.toNat % 2 ^ 31 := by
  have small := v.isLt
  rw [BitVec.msb_eq_decide]
  by_cases top : 2 ^ 31 ≤ v.toNat
  · simp only [Nat.add_one_sub_one, top, decide_true, Bool.toNat_true]
    omega
  · simp only [Nat.add_one_sub_one, top, decide_false, Bool.toNat_false]
    omega

theorem shortToTemp_of_zero {v : BitVec 32} (zero : v.toNat % 2 ^ 31 = 0) :
    shortToTemp v = ⟨⟨0, 0⟩, if v ≠ 0 then 0x8000 else 0⟩ := by
  rw [shortToTemp, if_pos (low31_eq_zero_iff.mpr zero)]

variable {v : LongReal}

theorem longToTemp_of_zero (zero : v.value % 2 ^ 63 = 0) :
    longToTemp v = ⟨⟨0, 0⟩, if v.b ≠ 0 then 0x8000 else 0⟩ := by
  rw [longToTemp, if_pos (long_zero_iff.mpr zero)]

theorem eq_of_low31 {v : BitVec 32} (zero : v.toNat % 2 ^ 31 = 0) : v = 0 ∨ v = 0x80000000 := by
  have small := v.isLt
  have choice : v.toNat = 0 ∨ v.toNat = 2 ^ 31 := by omega
  exact choice.imp (fun low => BitVec.eq_of_toNat_eq low) (fun top => BitVec.eq_of_toNat_eq top)

theorem tempToShort_shortToTemp (v : BitVec 32) (mode : Mode) : tempToShort mode (shortToTemp v) = v := by
  by_cases zero : v.toNat % 2 ^ 31 = 0
  · rw [shortToTemp_of_zero zero]
    obtain rfl | rfl := eq_of_low31 zero
    · rfl
    · rfl
  · obtain ⟨field, sign, mantissa⟩ := shortToTemp_fields zero
    have parts := toNat_eq_msb v
    have none : (shortToTemp v).mantissa / 2 ^ 32 % 2 ^ 8 = 0 := by
      rw [mantissa]
      omega
    have exact : shortIncrements mode (shortToTemp v) = false := by
      rw [shortIncrements, none]
      cases mode <;> simp only [increments, none] <;> simp
    apply BitVec.eq_of_toNat_eq
    rw [tempToShort_eq (by omega), tempToShortTruncated_toNat, exact, field, sign, mantissa, Bool.toNat_false]
    have flag := v.msb.toNat_le
    omega

theorem longToTemp_low8 (nonzero : v.value % 2 ^ 63 ≠ 0) :
    (longToTemp v).mantissa / 2 ^ 32 % 2 ^ 8 = v.a.toNat / 2 ^ 21 % 2 ^ 8 := by
  have small := v.a.isLt
  rw [(longToTemp_fields nonzero).2.2, DoubleWord.value]
  omega

theorem longIncrements_longToTemp (nonzero : v.value % 2 ^ 63 ≠ 0) (mode : Mode) :
    longIncrements mode (longToTemp v) =
      (decide (mode = .down ∧ v.b.msb ∨ mode = .up ∧ ¬v.b.msb) && decide (v.a.toNat / 2 ^ 21 % 2 ^ 8 ≠ 0)) := by
  have low : (longToTemp v).mantissa % 2 ^ 11 = 0 := by
    rw [(longToTemp_fields nonzero).2.2]
    omega
  have eight := longToTemp_low8 nonzero
  have sign := (longToTemp_fields nonzero).2.1
  rw [longIncrements, low]
  cases mode <;> cases top : v.b.msb <;> simp only [increments, eight, sign, top] <;> simp

theorem add_flag_iff {n m : Nat} {flag : Bool} (small : n < m) (wide : 1 < m) :
    (n + flag.toNat) % m = n ↔ flag = false := by
  cases flag with
  | false => simp [Nat.mod_eq_of_lt small]
  | true =>
    refine iff_of_false ?_ (by decide)
    rw [Bool.toNat_true]
    by_cases last : n + 1 = m
    · rw [last, Nat.mod_self]
      omega
    · rw [Nat.mod_eq_of_lt (by omega)]
      omega

theorem value_eq_msb (v : LongReal) : v.value = 2 ^ 63 * v.b.msb.toNat + v.value % 2 ^ 63 := by
  have low := v.a.isLt
  have parts := toNat_eq_msb v.b
  rw [DoubleWord.value]
  omega

theorem tempToLong_longToTemp_iff (v : LongReal) (mode : Mode) :
    tempToLong mode (longToTemp v) = v ↔
      ¬((mode = .down ∧ v.b.msb ∨ mode = .up ∧ ¬v.b.msb) ∧ v.a.toNat / 2 ^ 21 % 2 ^ 8 ≠ 0) := by
  by_cases zero : v.value % 2 ^ 63 = 0
  · have small := v.a.isLt
    have words := long_zero_iff.mpr zero
    have back : tempToLong mode (longToTemp v) = v := by
      obtain ⟨a, b⟩ := v
      rw [longToTemp_of_zero zero]
      obtain ⟨rfl, high⟩ := words
      obtain rfl | rfl := eq_of_low31 (low31_eq_zero_iff.mp high)
      · rfl
      · rfl
    refine iff_of_true back ?_
    rw [words.1]
    simp
  · obtain ⟨field, sign, mantissa⟩ := longToTemp_fields zero
    have parts := value_eq_msb v
    have flag := v.b.msb.toNat_le
    have small := v.value_lt
    have truncated : (tempToLongTruncated (longToTemp v)).value = v.value := by
      rw [tempToLongTruncated_value, field, sign, mantissa]
      omega
    rw [← DoubleWord.value_inj, tempToLong_eq (by omega), truncated, longIncrements_longToTemp zero,
      add_flag_iff small (by decide), ← Bool.not_eq_true, Bool.and_eq_true, decide_eq_true_iff, decide_eq_true_iff]

/-- A short real survives loading and storing, and a long one does unless the wrong word is tested. -/
theorem store_load_iff (short : BitVec 32) (v : LongReal) (mode : Mode) :
    tempToShort mode (shortToTemp short) = short ∧
      (tempToLong mode (longToTemp v) = v ↔
        ¬((mode = .down ∧ v.b.msb ∨ mode = .up ∧ ¬v.b.msb) ∧ v.a.toNat / 2 ^ 21 % 2 ^ 8 ≠ 0)) :=
  ⟨tempToShort_shortToTemp short mode, tempToLong_longToTemp_iff v mode⟩

theorem tempToLong_longToTemp_up :
    tempToLong .up (longToTemp ⟨0x00200000, 0x3ff00000⟩) ≠ ⟨0x00200000, 0x3ff00000⟩ := by decide

/-! ## The number -/

def shortFormat : BinaryFormat := ⟨23, 8⟩

def longFormat : BinaryFormat := ⟨52, 11⟩

theorem shortFormat_fields (v : BitVec 32) :
    shortFormat.negative v.toNat = v.msb ∧ shortFormat.exponent v.toNat = v.toNat / 2 ^ 23 % 2 ^ 8 ∧
      shortFormat.fraction v.toNat = v.toNat % 2 ^ 23 := by
  obtain ⟨negative, magnitude⟩ := BinaryFormat.fields_of_pack (F := shortFormat) (Nat.mod_lt _ (by decide))
    (toNat_eq_msb v)
  refine ⟨negative, ?_, ?_⟩
  · rw [BinaryFormat.exponent, magnitude]
    show v.toNat % 2 ^ 31 / 2 ^ 23 = _
    omega
  · rw [BinaryFormat.fraction, magnitude]
    show v.toNat % 2 ^ 31 % 2 ^ 23 = _
    omega

theorem longFormat_fields (v : LongReal) :
    longFormat.negative v.value = v.b.msb ∧ longFormat.exponent v.value = v.value / 2 ^ 52 % 2 ^ 11 ∧
      longFormat.fraction v.value = v.value % 2 ^ 52 := by
  obtain ⟨negative, magnitude⟩ := BinaryFormat.fields_of_pack (F := longFormat) (Nat.mod_lt _ (by decide))
    (value_eq_msb v)
  refine ⟨negative, ?_, ?_⟩
  · rw [BinaryFormat.exponent, magnitude]
    show v.value % 2 ^ 63 / 2 ^ 52 = _
    omega
  · rw [BinaryFormat.fraction, magnitude]
    show v.value % 2 ^ 63 % 2 ^ 52 = _
    omega

theorem value_of_fraction {r : TempReal} {n k : Nat} (mantissa : r.mantissa = n * 2 ^ k) :
    r.value = signed r.negative n * 2 ^ ((r.field : ℤ) - 16446 + k) := by
  rw [TempReal.value, TempReal.signedMantissa, mantissa, signed_eq_mul, signed_eq_mul, zpow_add₀ two_ne_zero,
    zpow_natCast]
  push_cast
  ring

theorem shortToTemp_value_iff (v : BitVec 32) :
    (shortToTemp v).value = shortFormat.value ℚ v.toNat ↔ v &&& 0x7fffffff = 0 ∨ shortFormat.exponent v.toNat ≠ 0 := by
  obtain ⟨negative, exponent, fraction⟩ := shortFormat_fields v
  by_cases zero : v.toNat % 2 ^ 31 = 0
  · refine iff_of_true ?_ (.inl (low31_eq_zero_iff.mpr zero))
    rw [BinaryFormat.value_of_magnitude_zero ℚ (F := shortFormat) zero, shortToTemp_of_zero zero]
    simp [TempReal.value, TempReal.signedMantissa, TempReal.mantissa, DoubleWord.value, signed_eq_mul]
  · obtain ⟨field, sign, mantissa⟩ := shortToTemp_fields zero
    have digits : (shortToTemp v).mantissa = (2 ^ 23 + v.toNat % 2 ^ 23) * 2 ^ 40 := by omega
    rw [value_of_fraction digits, low31_eq_zero_iff, or_iff_right zero, ← BinaryFormat.value_eq_leading_iff ℚ, eq_comm,
      negative, exponent, fraction, sign, field]
    have places : ((v.toNat / 2 ^ 23 % 2 ^ 8 + 16256 : Nat) : ℤ) - 16446 + (40 : Nat) =
        (v.toNat / 2 ^ 23 % 2 ^ 8 : Nat) - (shortFormat.bias : ℤ) - (shortFormat.fractionBits : ℤ) := by
      show _ = _ - ((127 : Nat) : ℤ) - ((23 : Nat) : ℤ)
      omega
    rw [places]
    rfl

theorem longToTemp_value_iff (v : LongReal) :
    (longToTemp v).value = longFormat.value ℚ v.value ↔
      v.a = 0 ∧ v.b &&& 0x7fffffff = 0 ∨ longFormat.exponent v.value ≠ 0 := by
  obtain ⟨negative, exponent, fraction⟩ := longFormat_fields v
  by_cases zero : v.value % 2 ^ 63 = 0
  · refine iff_of_true ?_ (.inl (long_zero_iff.mpr zero))
    rw [BinaryFormat.value_of_magnitude_zero ℚ (F := longFormat) zero, longToTemp_of_zero zero]
    simp [TempReal.value, TempReal.signedMantissa, TempReal.mantissa, DoubleWord.value, signed_eq_mul]
  · obtain ⟨field, sign, mantissa⟩ := longToTemp_fields zero
    have digits : (longToTemp v).mantissa = (2 ^ 52 + v.value % 2 ^ 52) * 2 ^ 11 := by omega
    rw [value_of_fraction digits, long_zero_iff, or_iff_right zero, ← BinaryFormat.value_eq_leading_iff ℚ, eq_comm,
      negative, exponent, fraction, sign, field]
    have places : ((v.value / 2 ^ 52 % 2 ^ 11 + 15360 : Nat) : ℤ) - 16446 + (11 : Nat) =
        (v.value / 2 ^ 52 % 2 ^ 11 : Nat) - (longFormat.bias : ℤ) - (longFormat.fractionBits : ℤ) := by
      show _ = _ - ((1023 : Nat) : ℤ) - ((52 : Nat) : ℤ)
      omega
    rw [places]
    rfl

/-- A finite real keeps its number unless it is a denormal one. -/
theorem load_value_iff (short : BitVec 32) (v : LongReal) :
    (shortFormat.Finite short.toNat →
      ((shortToTemp short).value = shortFormat.value ℚ short.toNat ↔
        short &&& 0x7fffffff = 0 ∨ shortFormat.exponent short.toNat ≠ 0)) ∧
      (longFormat.Finite v.value →
        ((longToTemp v).value = longFormat.value ℚ v.value ↔
          v.a = 0 ∧ v.b &&& 0x7fffffff = 0 ∨ longFormat.exponent v.value ≠ 0)) :=
  ⟨fun _ => shortToTemp_value_iff short, fun _ => longToTemp_value_iff v⟩

theorem load_value_one :
    ((shortToTemp 0x3f800000).value = shortFormat.value ℚ (0x3f800000 : BitVec 32).toNat ↔
      (0x3f800000 : BitVec 32) &&& 0x7fffffff = 0 ∨ shortFormat.exponent (0x3f800000 : BitVec 32).toNat ≠ 0) ∧
      ((longToTemp ⟨0, 0x3ff00000⟩).value = longFormat.value ℚ (DoubleWord.value (w := 32) ⟨0, 0x3ff00000⟩) ↔
        (0 : BitVec 32) = 0 ∧ (0x3ff00000 : BitVec 32) &&& 0x7fffffff = 0 ∨
          longFormat.exponent (DoubleWord.value (w := 32) ⟨0, 0x3ff00000⟩) ≠ 0) :=
  (load_value_iff 0x3f800000 ⟨0, 0x3ff00000⟩).imp (fun keeps => keeps (by decide)) fun keeps => keeps (by decide)

theorem shortToTemp_denormal :
    shortFormat.Finite (1 : BitVec 32).toNat ∧ (shortToTemp 1).value ≠ shortFormat.value ℚ (1 : BitVec 32).toNat :=
  ⟨by decide, (shortToTemp_value_iff 1).not.mpr (by decide)⟩

end Linux012.Math

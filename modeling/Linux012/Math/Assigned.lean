import Linux012.Math.Add
import Linux012.Math.Divide

/-! Which operands the routines have a result for, and operands that can change places. -/

set_option autoImplicit false

namespace Linux012.Math

open CarryWords ExponentWord

/-! ## Exchanged operands -/

theorem align_zero (b : TempReal) : align b 0 = b := by
  rw [align, if_neg (by decide), DoubleWord.shiftRight_zero (by decide)]

theorem fadd_comm (x y : TempReal) : fadd x y = fadd y x := by
  rw [fadd, fadd]
  obtain below | same | above := lt_trichotomy y.field x.field
  · rw [if_pos below, if_neg below.asymm]
  · have exponents : (x.exponent + 2) &&& 0x7fff = (y.exponent + 2) &&& 0x7fff := by
      apply BitVec.eq_of_toNat_eq
      rw [← ExponentWord.field, ← ExponentWord.field, field_eq, field_eq, BitVec.toNat_add, BitVec.toNat_add]
      rw [TempReal.field, TempReal.field, field_eq, field_eq] at same
      omega
    rw [if_neg same.not_lt, if_neg same.symm.not_lt, same, Nat.sub_self, faddOrdered, faddOrdered,
      if_neg (by decide), if_neg (by decide), align_zero, align_zero]
    dsimp only
    rw [DoubleWord.add_comm, exponent_signify, exponent_signify, exponents]
  · rw [if_neg above.asymm, if_pos above]

theorem signWord_comm (x y : TempReal) : signWord x y = signWord y x := by
  rw [signWord, signWord, BitVec.xor_comm]

theorem fmul_result_comm (x y : TempReal) (swd swd' : BitVec 32) : (fmul x y swd).result = (fmul y x swd').result := by
  have product : mul64 x.toDoubleWord y.toDoubleWord = mul64 y.toDoubleWord x.toDoubleWord := by
    rw [← QuadWord.value_inj, value_mul64, value_mul64, Nat.mul_comm]
  rw [fmul, fmul, product, signWord_comm, add_comm (y.field : ℤ)]
  dsimp only
  split
  · rfl
  · split
    · rfl
    · rfl

theorem fdivFinish_result (sign : BitVec 16) (i : Nat) (tmp : Words) (swd : BitVec 32) :
    (fdivFinish sign i tmp swd).result =
      if 0x7fff < i then none else some ⟨⟨tmp.c2, tmp.c3⟩, BitVec.ofNat 16 i ||| sign⟩ := by
  rw [fdivFinish]
  split
  · rfl
  · rfl

theorem fdiv_result (x y : TempReal) (swd swd' : BitVec 32) : (fdiv x y swd).result = (fdiv x y swd').result := by
  by_cases zero : y.a = 0 ∧ y.b = 0
  · rw [fdiv, fdiv, dif_pos zero, dif_pos zero]
  · rw [fdiv, fdiv, dif_neg zero, dif_neg zero]
    dsimp only
    generalize (x.field : ℤ) - y.field + 16383 = i
    by_cases low : i < 0
    · rw [if_pos low, if_pos low]
    · rw [if_neg low, if_neg low]
      by_cases none : fdivQuotient i.toNat x y zero = ⟨0, 0, 0, 0⟩
      · rw [if_pos none, if_pos none, fdivFinish_result, fdivFinish_result]
      · rw [if_neg none, if_neg none, fdivFinish_result, fdivFinish_result]

/-! ## Assigned results -/

def ProductFits (x y : TempReal) : Prop := x.field + y.field ≤ 0x7fff + 16382

/-- The quotient is below `2 ^ 16385`, or it has no bit among the 64 that are computed. -/
def QuotientFits (x y : TempReal) : Prop :=
  y.mantissa * 2 ^ 0x8000 ≤ x.mantissa * 2 ^ (x.field + 16383 - y.field) →
    x.mantissa * 2 ^ Nat.log2 y.mantissa < y.mantissa

instance (x y : TempReal) : Decidable (ProductFits x y) := inferInstanceAs (Decidable (_ ≤ _))

instance (x y : TempReal) : Decidable (QuotientFits x y) := inferInstanceAs (Decidable (_ → _))

theorem fmul_assigns_iff (x y : TempReal) (swd : BitVec 32) : (fmul x y swd).result.isSome ↔ ProductFits x y := by
  rw [fmul, ProductFits]
  dsimp only
  split
  · exact iff_of_true rfl (by omega)
  · split
    · exact iff_of_false Bool.false_ne_true (by omega)
    · exact iff_of_true rfl (by omega)

section Quotient

variable {m n q i j k f : Nat}

theorem log2_of_shifted (low : 2 ^ 63 ≤ 2 ^ k * n) (high : 2 ^ k * n < 2 ^ 64) : k ≤ 63 ∧ Nat.log2 n = 63 - k := by
  have positive : 0 < n := Nat.pos_of_ne_zero (by rintro rfl; simp at low)
  have few : k ≤ 63 := by
    by_contra many
    have wide : 2 ^ 64 ≤ 2 ^ k := Nat.pow_le_pow_right (by decide) (by omega)
    have := Nat.le_mul_of_pos_right (2 ^ k) positive
    omega
  refine ⟨few, (Nat.log2_eq_iff positive.ne').mpr ⟨?_, ?_⟩⟩
  · rw [show 63 = k + (63 - k) by omega, Nat.pow_add] at low
    exact Nat.le_of_mul_le_mul_left low (Nat.two_pow_pos k)
  · rw [show 64 = k + (63 - k + 1) by omega, Nat.pow_add] at high
    exact Nat.lt_of_mul_lt_mul_left high

theorem quotient_pos_iff (low : 2 ^ 63 ≤ 2 ^ k * n) (high : 2 ^ k * n < 2 ^ 64) :
    m * 2 ^ 63 / (2 ^ k * n) ≠ 0 ↔ n ≤ m * 2 ^ Nat.log2 n := by
  obtain ⟨few, log⟩ := log2_of_shifted low high
  rw [log, ← Nat.pos_iff_ne_zero, Nat.div_pos_iff]
  have split : m * 2 ^ 63 = 2 ^ k * (m * 2 ^ (63 - k)) := by
    rw [show 63 = k + (63 - k) by omega, Nat.pow_add]
    simp only [Nat.add_sub_cancel_left]
    ring
  rw [split]
  constructor
  · exact fun both => Nat.le_of_mul_le_mul_left both.2 (Nat.two_pow_pos k)
  · exact fun reaches => ⟨by omega, Nat.mul_le_mul_left _ reaches⟩

theorem quotient_exponent (quotient : q = m * 2 ^ 63 / (2 ^ k * n)) (positive : 0 < 2 ^ k * n) (some : q ≠ 0)
    (exponents : i + k = f + j) (small : 2 ^ j * q < 2 ^ 64) :
    m * 2 ^ i < 2 ^ (f + 1) * n ∧ (2 ^ 63 ≤ 2 ^ j * q → 2 ^ f * n ≤ m * 2 ^ i) := by
  have factors : 2 ^ k * 2 ^ i = 2 ^ f * 2 ^ j := by
    rw [← Nat.pow_add, ← Nat.pow_add, Nat.add_comm k, exponents]
  constructor
  · have few : j < 64 := by
      by_contra many
      have wide : 2 ^ 64 ≤ 2 ^ j := Nat.pow_le_pow_right (by decide) (by omega)
      have := Nat.le_mul_of_pos_right (2 ^ j) (Nat.pos_of_ne_zero some)
      omega
    have next : 2 ^ j * (q + 1) ≤ 2 ^ 64 := by
      rw [show 64 = j + (64 - j) by omega, Nat.pow_add] at small ⊢
      exact Nat.mul_le_mul_left _ (Nat.lt_of_mul_lt_mul_left small)
    have above : m * 2 ^ 63 < (q + 1) * (2 ^ k * n) := by
      rw [quotient]
      exact (Nat.div_lt_iff_lt_mul positive).mp (Nat.lt_succ_self _)
    refine Nat.lt_of_mul_lt_mul_left (a := 2 ^ 63) ?_
    calc 2 ^ 63 * (m * 2 ^ i) = m * 2 ^ 63 * 2 ^ i := by ring
      _ < (q + 1) * (2 ^ k * n) * 2 ^ i := Nat.mul_lt_mul_of_pos_right above (Nat.two_pow_pos i)
      _ = 2 ^ j * (q + 1) * (2 ^ f * n) := by linear_combination (q + 1) * n * factors
      _ ≤ 2 ^ 64 * (2 ^ f * n) := Nat.mul_le_mul_right _ next
      _ = 2 ^ 63 * (2 ^ (f + 1) * n) := by ring
  · intro top
    have below : q * (2 ^ k * n) ≤ m * 2 ^ 63 := by
      rw [quotient]
      exact Nat.div_mul_le_self _ _
    refine Nat.le_of_mul_le_mul_left (c := 2 ^ 63) ?_ (Nat.two_pow_pos 63)
    calc 2 ^ 63 * (2 ^ f * n) ≤ 2 ^ j * q * (2 ^ f * n) := Nat.mul_le_mul_right _ top
      _ = q * (2 ^ k * n) * 2 ^ i := by linear_combination -(q * n * factors)
      _ ≤ m * 2 ^ 63 * 2 ^ i := Nat.mul_le_mul_right _ below
      _ = 2 ^ 63 * (m * 2 ^ i) := by ring

theorem exponent_reaches_iff {e : Nat} (quotient : q = m * 2 ^ 63 / (2 ^ k * n)) (positive : 0 < 2 ^ k * n)
    (some : q ≠ 0) (exponents : i + k = f + j) (small : 2 ^ j * q < 2 ^ 64) (stop : f = 0 ∨ 2 ^ 63 ≤ 2 ^ j * q)
    (nonzero : e ≠ 0) : e ≤ f ↔ n * 2 ^ e ≤ m * 2 ^ i := by
  obtain ⟨above, below⟩ := quotient_exponent quotient positive some exponents small
  rw [Nat.mul_comm n]
  constructor
  · intro large
    calc 2 ^ e * n ≤ 2 ^ f * n := Nat.mul_le_mul_right _ (Nat.pow_le_pow_right two_pos large)
      _ ≤ m * 2 ^ i := below (stop.resolve_left (by omega))
  · intro reaches
    by_contra fits
    have less : 2 ^ (f + 1) * n ≤ 2 ^ e * n := Nat.mul_le_mul_right _ (Nat.pow_le_pow_right two_pos (not_le.mp fits))
    exact absurd reaches (not_le.mpr (above.trans_le less))

theorem lt_mul_pow {e : Nat} (small : m < 2 ^ 64) (wide : 64 ≤ e) (nonzero : n ≠ 0) : m < n * 2 ^ e :=
  calc m < 2 ^ 64 := small
    _ ≤ 2 ^ e := Nat.pow_le_pow_right two_pos wide
    _ ≤ n * 2 ^ e := Nat.le_mul_of_pos_left _ (Nat.pos_of_ne_zero nonzero)

end Quotient

theorem fdiv_assigns_iff (x y : TempReal) (swd : BitVec 32) :
    (fdiv x y swd).result.isSome ↔ y.mantissa ≠ 0 ∧ QuotientFits x y := by
  by_cases zero : y.a = 0 ∧ y.b = 0
  · rw [fdiv, dif_pos zero]
    exact iff_of_false Bool.false_ne_true fun both => both.1 (TempReal.mantissa_eq_zero_iff.mpr zero)
  have nonzero : y.mantissa ≠ 0 := by rwa [ne_eq, TempReal.mantissa_eq_zero_iff]
  rw [and_iff_right nonzero, fdiv, dif_neg zero, QuotientFits]
  dsimp only
  by_cases low : (x.field : ℤ) - y.field + 16383 < 0
  · rw [if_pos low]
    have none : x.field + 16383 - y.field = 0 := by omega
    refine iff_of_true rfl fun reaches => ?_
    rw [none, Nat.pow_zero, Nat.mul_one] at reaches
    exact absurd reaches (not_le.mpr (lt_mul_pow x.mantissa_lt (by decide) nonzero))
  · rw [if_neg low, show ((x.field : ℤ) - y.field + 16383).toNat = x.field + 16383 - y.field by omega]
    generalize x.field + 16383 - y.field = i
    obtain ⟨k, count, least, most, value⟩ := fdivQuotient_spec i x y zero
    have bits := quotient_pos_iff (m := x.mantissa) least most
    by_cases none : fdivQuotient i x y zero = ⟨0, 0, 0, 0⟩
    · rw [if_pos none, fdivFinish_result, if_neg (by decide)]
      rw [← QuadWord.value_eq_zero_iff, value] at none
      refine iff_of_true rfl fun _ => not_le.mp fun reaches => bits.mpr reaches ?_
      omega
    · rw [if_neg none, count]
      rw [← QuadWord.value_eq_zero_iff, value] at none
      obtain ⟨j, few, left, shifted, stop⟩ := shiftLoop_spec (i + k) (fdivQuotient i x y zero)
      generalize shiftLoop.run (i + k, fdivQuotient i x y zero) = last at left shifted stop
      have small := QuadWord.value_lt last.2
      rw [value, Nat.mul_left_comm] at shifted
      rw [words_msb, decide_eq_true_iff] at stop
      have some : x.mantissa * 2 ^ 63 / (2 ^ k * y.mantissa) ≠ 0 := fun zero => none (by rw [zero, Nat.mul_zero])
      have overflow := exponent_reaches_iff (e := 0x8000) (i := i) (j := j) (f := i + k - j) rfl (by omega) some
        (by omega) (by omega) (by omega) (by decide)
      rw [fdivFinish_result, left, ← overflow]
      have reaches := bits.mp some
      by_cases large : 0x7fff < i + k - j
      · rw [if_pos large]
        exact iff_of_false Bool.false_ne_true fun fits => absurd (fits large) (by omega)
      · rw [if_neg large]
        exact iff_of_true rfl fun larger => absurd larger large

end Linux012.Math

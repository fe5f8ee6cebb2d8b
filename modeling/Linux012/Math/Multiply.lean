import Linux012.Math.TempReal

/-! The multiplication of temporary reals (`kernel/math/mul.c`). -/

set_option autoImplicit false

namespace Linux012.Math

open CarryWords ExponentWord Rounding

/-- What a routine leaves behind: `none` stands for a `*result` that it did not assign. -/
structure Outcome where
  result : Option TempReal
  swd : BitVec 32
deriving DecidableEq

def setOE (swd : BitVec 32) : BitVec 32 := swd ||| 8

/-! ## Normalising four words -/

abbrev Words := QuadWord 32

theorem words_msb (p : Words) : p.c3.msb = decide (2 ^ 127 ≤ p.value) := by
  have first := p.c0.isLt
  have second := p.c1.isLt
  have third := p.c2.isLt
  rw [BitVec.msb_eq_decide, QuadWord.value]
  simp only [Nat.add_one_sub_one, decide_eq_decide]
  omega

def shiftLoopGuard (s : Nat × Words) : Bool := s.1 ≠ 0 && !s.2.c3.msb

theorem shiftLoop_decreases (s : Nat × Words) (more : shiftLoopGuard s = true) : s.1 - 1 < s.1 := by
  rw [shiftLoopGuard, Bool.and_eq_true, decide_eq_true_iff] at more
  have := more.1
  omega

/-- `while (i && tmp[3] >= 0)`, with `shift` or `shift_left` -/
def shiftLoop : WhileLoop (Nat × Words) where
  guard := shiftLoopGuard
  body s _ := (s.1 - 1, s.2.double)
  measure s := s.1
  decreases := shiftLoop_decreases

theorem value_double_of_low {p : Words} (low : p.c3.msb = false) : p.double.value = 2 * p.value := by
  rw [words_msb, decide_eq_false_iff_not] at low
  rw [QuadWord.value_double, Nat.mod_eq_of_lt]
  change 2 * p.value < 2 ^ 128
  omega

theorem shiftLoop_spec (i : Nat) (tmp : Words) :
    ∃ k ≤ i, (shiftLoop.run (i, tmp)).1 = i - k ∧ (shiftLoop.run (i, tmp)).2.value = 2 ^ k * tmp.value ∧
      (i - k = 0 ∨ (shiftLoop.run (i, tmp)).2.c3.msb = true) := by
  have shifted : ∃ k ≤ i, (shiftLoop.run (i, tmp)).1 = i - k ∧
      (shiftLoop.run (i, tmp)).2.value = 2 ^ k * tmp.value := by
    refine WhileLoop.run_keeps (l := shiftLoop)
      (motive := fun s => ∃ k ≤ i, s.1 = i - k ∧ s.2.value = 2 ^ k * tmp.value) ?_ ⟨0, Nat.zero_le _, rfl, by simp⟩
    rintro s more ⟨k, few, left, value⟩
    have guard : s.1 ≠ 0 ∧ s.2.c3.msb = false := by simpa [shiftLoop, shiftLoopGuard] using more
    refine ⟨k + 1, by omega, ?_, ?_⟩
    · show s.1 - 1 = i - (k + 1)
      omega
    · show s.2.double.value = _
      rw [value_double_of_low guard.2, value, Nat.pow_succ']
      ring
  obtain ⟨k, few, left, value⟩ := shifted
  refine ⟨k, few, left, value, ?_⟩
  have stop := shiftLoop.guard_run (i, tmp)
  rw [← left]
  by_contra more
  simp_all [shiftLoop, shiftLoopGuard]

/-! ## The routines -/

def addMiddle (c : Words) (p : DoubleWord 32) : Words :=
  let c1 := addCarry c.c1 p.a false
  let c2 := addCarry c.c2 p.b c1.carry
  ⟨c.c0, c1.word, c2.word, (addCarry c.c3 0 c2.carry).word⟩

def mul64 (a b : DoubleWord 32) : Words :=
  let low := DoubleWord.mull a.a b.a
  let high := DoubleWord.mull a.b b.b
  addMiddle (addMiddle ⟨low.a, low.b, high.a, high.b⟩ (DoubleWord.mull a.a b.b)) (DoubleWord.mull a.b b.a)

def signWord (src1 src2 : TempReal) : BitVec 16 := (src1.exponent ^^^ src2.exponent) &&& 0x8000

def fmul (src1 src2 : TempReal) (swd : BitVec 32) : Outcome :=
  let i : ℤ := src1.field + src2.field - 16383 + 1
  if i < 0 then ⟨some ⟨⟨0, 0⟩, signWord src1 src2⟩, swd⟩
  else if 0x7fff < i then ⟨none, setOE swd⟩
  else
    let tmp := mul64 src1.toDoubleWord src2.toDoubleWord
    let last := if tmp = ⟨0, 0, 0, 0⟩ then (0, tmp) else shiftLoop.run (i.toNat, tmp)
    ⟨some ⟨⟨last.2.c2, last.2.c3⟩, BitVec.ofNat 16 last.1 ||| signWord src1 src2⟩, swd⟩

/-! ## The product -/

theorem value_addMiddle (c : Words) (p : DoubleWord 32) :
    (addMiddle c p).value = (c.value + 2 ^ 32 * p.value) % 2 ^ 128 := by
  have top := QuadWord.value_lt (addMiddle c p)
  revert top
  simp only [addMiddle, QuadWord.value, DoubleWord.value]
  generalize first : addCarry c.c1 p.a false = k1
  generalize second : addCarry c.c2 p.b k1.carry = k2
  generalize third : addCarry c.c3 0 k2.carry = k3
  intro top
  have c1 := first ▸ addCarry_value c.c1 p.a false
  have c2 := second ▸ addCarry_value c.c2 p.b k1.carry
  have c3 := third ▸ addCarry_value c.c3 0 k2.carry
  refine DoubleWord.eq_mod_of_carry (c := k3.carry.toNat) ?_ top
  have none : (0 : BitVec 32).toNat = 0 := rfl
  rw [Bool.toNat_false] at c1
  rw [none] at c3
  omega

theorem value_mul64 (a b : DoubleWord 32) : (mul64 a b).value = a.value * b.value := by
  have product : a.value * b.value < 2 ^ 64 * 2 ^ 64 := Nat.mul_lt_mul'' a.value_lt b.value_lt
  have low := DoubleWord.value_mull a.a b.a
  have high := DoubleWord.value_mull a.b b.b
  have sum : a.value * b.value = a.a.toNat * b.a.toNat + 2 ^ 32 * (a.a.toNat * b.b.toNat) +
      2 ^ 32 * (a.b.toNat * b.a.toNat) + 2 ^ 64 * (a.b.toNat * b.b.toNat) := by
    simp only [DoubleWord.value]
    ring
  rw [mul64, value_addMiddle, value_addMiddle, DoubleWord.value_mull, DoubleWord.value_mull, Nat.mod_add_mod]
  rw [DoubleWord.value] at low high
  rw [QuadWord.value]
  dsimp only
  rw [Nat.mod_eq_of_lt]
  · omega
  · omega

theorem mul64_eq_zero_iff {a b : TempReal} :
    mul64 a.toDoubleWord b.toDoubleWord = ⟨0, 0, 0, 0⟩ ↔ a.mantissa * b.mantissa = 0 := by
  rw [← QuadWord.value_eq_zero_iff, value_mul64]
  rfl

theorem value_high (p : Words) : DoubleWord.value ⟨p.c2, p.c3⟩ = p.value / 2 ^ 64 := by
  have first := p.c0.isLt
  have second := p.c1.isLt
  rw [DoubleWord.value, QuadWord.value]
  dsimp only
  omega

section Normalized

variable {x y : TempReal}

theorem product_bounds (xNormal : x.Normalized) (yNormal : y.Normalized) :
    2 ^ 126 ≤ x.mantissa * y.mantissa ∧ x.mantissa * y.mantissa < 2 ^ 128 := by
  rw [TempReal.normalized_iff] at xNormal yNormal
  have low := Nat.mul_le_mul xNormal yNormal
  have high := Nat.mul_lt_mul'' x.mantissa_lt y.mantissa_lt
  omega

theorem roundTo_product {k i : Nat} {r : TempReal} {p : Words}
    (exponents : (i : ℤ) = x.field + y.field - 16382) (few : k ≤ i) (value : p.value = 2 ^ k * (x.mantissa * y.mantissa))
    (top : p.c3.msb = true) (mantissa : r.mantissa = p.value / 2 ^ 64) (field : r.field = i - k)
    (sign : r.negative = (x.negative ^^ y.negative)) :
    r.value = roundTo 64 .towardZero (x.value * y.value) := by
  have full : 2 ^ 127 ≤ p.value ∧ p.value < 2 ^ 128 := by
    rw [words_msb, decide_eq_true_iff] at top
    exact ⟨top, QuadWord.value_lt p⟩
  have size : |(signed (x.negative ^^ y.negative) p.value : ℚ) / (2 ^ 64 : Nat)| = p.value / 2 ^ 64 := by
    rw [abs_div, ← Int.cast_abs, abs_signed, Int.cast_natCast, Nat.abs_cast]
    norm_num
  have product : x.value * y.value = (signed (x.negative ^^ y.negative) p.value : ℚ) / (2 ^ 64 : Nat) *
      2 ^ ((r.field : ℤ) - 16446) := by
    have places : (x.field : ℤ) - 16446 + (y.field - 16446) = -64 + k + (r.field - 16446) := by omega
    have scaled : signed (x.negative ^^ y.negative) p.value = 2 ^ k * (x.signedMantissa * y.signedMantissa) := by
      rw [TempReal.signedMantissa, TempReal.signedMantissa, signed_mul, value, signed_eq_mul, signed_eq_mul]
      push_cast
      ring
    calc x.value * y.value
        = x.signedMantissa * y.signedMantissa * 2 ^ ((x.field : ℤ) - 16446 + (y.field - 16446)) := by
          rw [TempReal.value, TempReal.value, zpow_add₀ two_ne_zero]
          ring
      _ = _ := by
          rw [places, zpow_add₀ two_ne_zero, zpow_add₀ two_ne_zero, zpow_natCast, scaled]
          push_cast
          ring
  rw [roundTo_eq .towardZero product, roundInt_div _ _ _ (by decide), TempReal.value, TempReal.signedMantissa, sign,
    mantissa]
  · rfl
  · rw [size, ← mul_div_assoc, le_div_iff₀ (by positivity)]
    have double : 2 ^ 64 * 2 ^ 64 ≤ 2 * QuadWord.value p := by omega
    exact_mod_cast double
  · rw [size, div_lt_iff₀ (by positivity)]
    have small : QuadWord.value p < 2 ^ 64 * 2 ^ 64 := by omega
    exact_mod_cast small

/-- The product is cut off behind 64 significant bits. -/
theorem fmul_truncates (xNormal : x.Normalized) (yNormal : y.Normalized)
    (low : 2 ≤ (x.field + y.field : ℤ) - 16382) (high : (x.field + y.field : ℤ) - 16382 ≤ 0x7fff) (swd : BitVec 32) :
    ∃ r, fmul x y swd = ⟨some r, swd⟩ ∧ r.Normalized ∧ r.negative = (x.negative ^^ y.negative) ∧
      r.value = roundTo 64 .towardZero (x.value * y.value) := by
  have bounds := product_bounds xNormal yNormal
  obtain ⟨i, exponents⟩ : ∃ i : Nat, (x.field : ℤ) + y.field - 16383 + 1 = i :=
    ⟨((x.field : ℤ) + y.field - 16383 + 1).toNat, by omega⟩
  obtain ⟨k, few, left, value, stop⟩ := shiftLoop_spec i (mul64 x.toDoubleWord y.toDoubleWord)
  have nonzero : ¬mul64 x.toDoubleWord y.toDoubleWord = ⟨0, 0, 0, 0⟩ := by
    rw [mul64_eq_zero_iff]
    omega
  rw [value_mul64, ← TempReal.mantissa, ← TempReal.mantissa] at value
  have small := QuadWord.value_lt (shiftLoop.run (i, mul64 x.toDoubleWord y.toDoubleWord)).2
  have once : k < 2 := by
    by_contra twice
    have : 2 ^ 2 ≤ 2 ^ k := Nat.pow_le_pow_right (by decide) (by omega)
    have := Nat.mul_le_mul this bounds.1
    omega
  have top := stop.resolve_left (by omega)
  have run : fmul x y swd = ⟨some ⟨⟨(shiftLoop.run (i, mul64 x.toDoubleWord y.toDoubleWord)).2.c2,
      (shiftLoop.run (i, mul64 x.toDoubleWord y.toDoubleWord)).2.c3⟩, BitVec.ofNat 16 (i - k) ||| signWord x y⟩, swd⟩ := by
    simp only [fmul, exponents]
    rw [if_neg (by omega), if_neg (by omega), if_neg nonzero, Int.toNat_natCast, left]
  have field := field_ofNat_or (i := i - k) (by omega) (x.exponent ^^^ y.exponent)
  have sign : (BitVec.ofNat 16 (i - k) ||| signWord x y).msb = (x.negative ^^ y.negative) :=
    (msb_ofNat_or (by omega) _).trans BitVec.msb_xor
  refine ⟨_, run, top, sign, ?_⟩
  exact roundTo_product (by omega) few value top (value_high _) field sign

theorem fmul_truncates_one_one :
    ∃ r, fmul .one .one 0 = ⟨some r, 0⟩ ∧ r.Normalized ∧
      r.negative = (TempReal.one.negative ^^ TempReal.one.negative) ∧
      r.value = roundTo 64 .towardZero (TempReal.one.value * TempReal.one.value) :=
  fmul_truncates (by decide) (by decide) (by decide) (by decide) 0

end Normalized

end Linux012.Math

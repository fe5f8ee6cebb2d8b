import Linux012.Math.TempReal

/-! The addition of temporary reals (`kernel/math/add.c`). -/

set_option autoImplicit false

namespace Linux012.Math

open CarryWords ExponentWord Rounding

/-! ## Normalising -/

/-- One round of the loops that normalise: `exponent--`, and the mantissa twice as large. -/
def TempReal.shiftUp (r : TempReal) : TempReal := { r.toDoubleWord.double with exponent := r.exponent - 1 }

theorem TempReal.mantissa_shiftUp {r : TempReal} (low : r.b.msb = false) :
    r.shiftUp.mantissa = 2 * r.mantissa := by
  rw [msb_eq, decide_eq_false_iff_not] at low
  show r.toDoubleWord.double.value = 2 * r.toDoubleWord.value
  rw [DoubleWord.value_double, Nat.mod_eq_of_lt]
  change 2 * r.mantissa < 2 ^ 64
  omega

abbrev NonzeroReal := { r : TempReal // r.mantissa ≠ 0 }

theorem NonzeroReal.shiftUp_ne_zero (r : NonzeroReal) (low : (!r.val.b.msb) = true) :
    r.val.shiftUp.mantissa ≠ 0 := by
  rw [TempReal.mantissa_shiftUp (by simpa using low)]
  exact Nat.mul_ne_zero (by decide) r.property

theorem NonzeroReal.shiftUp_rises (r : NonzeroReal) (low : (!r.val.b.msb) = true) :
    2 ^ 64 - r.val.shiftUp.mantissa < 2 ^ 64 - r.val.mantissa := by
  have nonzero := r.property
  have small := r.val.mantissa_lt
  rw [TempReal.mantissa_shiftUp (by simpa using low)]
  omega

/-- `while (a->b >= 0)` -/
def normaliseLoop : WhileLoop NonzeroReal where
  guard r := !r.val.b.msb
  body r low := ⟨r.val.shiftUp, r.shiftUp_ne_zero low⟩
  measure r := 2 ^ 64 - r.val.mantissa
  decreases := NonzeroReal.shiftUp_rises

theorem normaliseLoop_spec (r : NonzeroReal) :
    ∃ k < 64, (normaliseLoop.run r).val.Normalized ∧
      (normaliseLoop.run r).val.mantissa = 2 ^ k * r.val.mantissa ∧
      (normaliseLoop.run r).val.exponent = r.val.exponent - BitVec.ofNat 16 k := by
  have shifted : ∃ k, (normaliseLoop.run r).val.mantissa = 2 ^ k * r.val.mantissa ∧
      (normaliseLoop.run r).val.exponent = r.val.exponent - BitVec.ofNat 16 k := by
    refine WhileLoop.run_keeps (l := normaliseLoop) (motive := fun s => ∃ k,
      s.val.mantissa = 2 ^ k * r.val.mantissa ∧ s.val.exponent = r.val.exponent - BitVec.ofNat 16 k) ?_ ⟨0, ?_, ?_⟩
    · rintro s low ⟨k, mantissa, exponent⟩
      refine ⟨k + 1, ?_, ?_⟩
      · show s.val.shiftUp.mantissa = _
        rw [TempReal.mantissa_shiftUp (by simpa [normaliseLoop] using low), mantissa, Nat.pow_succ']
        ring
      · show s.val.exponent - 1 = _
        rw [exponent, BitVec.ofNat_add]
        bv_omega
    · rw [Nat.pow_zero, Nat.one_mul]
    · exact (BitVec.sub_zero _).symm
  obtain ⟨k, mantissa, exponent⟩ := shifted
  have top : (normaliseLoop.run r).val.b.msb = true := by
    have stop := normaliseLoop.guard_run r
    simpa [normaliseLoop] using stop
  refine ⟨k, ?_, top, mantissa, exponent⟩
  have small := (normaliseLoop.run r).val.mantissa_lt
  rw [mantissa] at small
  by_contra large
  have : 2 ^ 64 ≤ 2 ^ k := Nat.pow_le_pow_right (by decide) (by omega)
  have : 2 ^ k * 1 ≤ 2 ^ k * r.val.mantissa := Nat.mul_le_mul_left _ (Nat.pos_of_ne_zero r.property)
  omega

/-! ## The routines -/

def negint (a : TempReal) : TempReal := { a.toDoubleWord.negate with exponent := a.exponent }

def signify (a : TempReal) : TempReal :=
  let a := { a.toDoubleWord.shiftRight 2 with exponent := a.exponent + 2 : TempReal }
  let a := if a.exponent.msb then negint a else a
  { a with exponent := a.exponent &&& 0x7fff }

def unsignifySign (a : TempReal) : TempReal :=
  let a := { a with exponent := a.exponent &&& 0x7fff }
  if a.b.msb then { negint a with exponent := a.exponent ||| 0x8000 } else a

variable {a : TempReal}

theorem unsignifySign_ne_zero (nonzero : ¬(a.a = 0 ∧ a.b = 0)) : (unsignifySign a).mantissa ≠ 0 := by
  rw [← TempReal.mantissa_eq_zero_iff] at nonzero
  dsimp only [unsignifySign]
  split
  · show a.toDoubleWord.negate.value ≠ 0
    rw [DoubleWord.value_negate (by decide)]
    have small := a.mantissa_lt
    change (2 ^ 64 - a.mantissa) % 2 ^ 64 ≠ 0
    omega
  · exact nonzero

def unsignify (a : TempReal) : TempReal :=
  if zero : a.a = 0 ∧ a.b = 0 then { a with exponent := 0 }
  else (normaliseLoop.run ⟨unsignifySign a, unsignifySign_ne_zero zero⟩).val

def align (b : TempReal) (shift : Nat) : TempReal :=
  if 32 ≤ shift then { DoubleWord.shiftRight ⟨b.b, 0⟩ (shift - 32) with exponent := b.exponent }
  else { b.toDoubleWord.shiftRight shift with exponent := b.exponent }

/-- `fadd` behind the choice of `a`, the operand with the larger exponent. -/
def faddOrdered (a b : TempReal) (shift : Nat) : TempReal :=
  if 64 ≤ shift then a
  else
    let a := signify a
    let b := signify (align b shift)
    unsignify { a.toDoubleWord.add b.toDoubleWord with exponent := a.exponent }

def fadd (src1 src2 : TempReal) : TempReal :=
  if src2.field < src1.field then faddOrdered src1 src2 (src1.field - src2.field)
  else faddOrdered src2 src1 (src2.field - src1.field)

/-! ## Two's complement -/

theorem toInt_signify (a : TempReal) :
    (signify a).toDoubleWord.toInt = signed (a.exponent + 2).msb (a.mantissa / 4) := by
  have small := a.mantissa_lt
  have quarter : (a.toDoubleWord.shiftRight 2).value = a.mantissa / 4 := DoubleWord.value_shiftRight (by decide) _
  have plain : (a.toDoubleWord.shiftRight 2).toInt = (a.mantissa / 4 : Nat) := by
    rw [DoubleWord.toInt_eq (by decide), quarter, if_neg (by omega)]
  dsimp only [signify]
  split
  · rename_i negative
    show (a.toDoubleWord.shiftRight 2).negate.toInt = _
    rw [DoubleWord.toInt_negate (by decide), plain, negative]
    apply Int.bmod_eq_of_le
    · omega
    · omega
  · rename_i positive
    show (a.toDoubleWord.shiftRight 2).toInt = _
    rw [Bool.not_eq_true] at positive
    rw [plain, positive]
    rfl

@[simp] theorem exponent_signify (a : TempReal) : (signify a).exponent = (a.exponent + 2) &&& 0x7fff := by
  dsimp only [signify]
  split
  · rfl
  · rfl

theorem unsignify_of_zero (zero : a.toDoubleWord.toInt = 0) : unsignify a = .zero := by
  have small := a.mantissa_lt
  have none : a.mantissa = 0 := by
    rw [TempReal.toInt_eq] at zero
    split at zero
    · omega
    · omega
  have words := TempReal.mantissa_eq_zero_iff.mp none
  obtain ⟨⟨low, high⟩, exponent⟩ := a
  obtain ⟨rfl, rfl⟩ := words
  rw [unsignify, dif_pos ⟨rfl, rfl⟩]
  rfl

/-- The word of exponent and sign that `unsignify` starts to count down from. -/
def startExponent (a : TempReal) : BitVec 16 :=
  if a.toDoubleWord.toInt < 0 then a.exponent &&& 0x7fff ||| 0x8000 else a.exponent &&& 0x7fff

theorem unsignify_spec (nonzero : a.toDoubleWord.toInt ≠ 0) :
    ∃ k < 64, (unsignify a).Normalized ∧
      (unsignify a).mantissa = 2 ^ k * a.toDoubleWord.toInt.natAbs ∧
      (unsignify a).exponent = startExponent a - BitVec.ofNat 16 k := by
  have words : ¬(a.a = 0 ∧ a.b = 0) := by
    rw [← TempReal.mantissa_eq_zero_iff]
    intro none
    apply nonzero
    rw [TempReal.toInt_eq, TempReal.msb_eq, none]
    rfl
  have start : (unsignifySign a).mantissa = a.toDoubleWord.toInt.natAbs ∧
      (unsignifySign a).exponent = startExponent a := by
    have small := a.mantissa_lt
    rw [startExponent, TempReal.toInt_eq]
    dsimp only [unsignifySign]
    split
    · rename_i top
      have high := top
      rw [TempReal.msb_eq, decide_eq_true_iff] at high
      refine ⟨?_, (if_pos (by omega)).symm⟩
      show a.toDoubleWord.negate.value = _
      rw [DoubleWord.value_negate (by decide)]
      change (2 ^ 64 - a.mantissa) % 2 ^ 64 = _
      omega
    · refine ⟨?_, (if_neg (by omega)).symm⟩
      rfl
  obtain ⟨k, few, normal, mantissa, exponent⟩ := normaliseLoop_spec ⟨_, unsignifySign_ne_zero words⟩
  rw [unsignify, dif_neg words, ← start.1, ← start.2]
  exact ⟨k, few, normal, mantissa, exponent⟩

/-! ## The sum of aligned mantissas -/

variable {shift : Nat}

theorem mantissa_align (inside : shift < 64) (b : TempReal) :
    (align b shift).mantissa = b.mantissa / 2 ^ shift := by
  unfold align
  split
  · rename_i far
    show (DoubleWord.shiftRight ⟨b.b, 0⟩ (shift - 32)).value = _
    have high : DoubleWord.value ⟨b.b, (0 : BitVec 32)⟩ = b.mantissa / 2 ^ 32 := by
      have low := b.a.isLt
      show b.b.toNat + 2 ^ 32 * 0 = (b.a.toNat + 2 ^ 32 * b.b.toNat) / 2 ^ 32
      omega
    rw [DoubleWord.value_shiftRight (by omega), high, Nat.div_div_eq_div_mul, ← Nat.pow_add]
    congr 2
    omega
  · exact DoubleWord.value_shiftRight (by omega) _

@[simp] theorem exponent_align (b : TempReal) (shift : Nat) : (align b shift).exponent = b.exponent := by
  unfold align
  split
  · rfl
  · rfl

/-- The sum of the mantissas behind `signify`, in units of four last places of `a`. -/
def alignedSum (a b : TempReal) (shift : Nat) : ℤ :=
  signed (a.exponent + 2).msb (a.mantissa / 4) + signed (b.exponent + 2).msb (b.mantissa / 2 ^ (shift + 2))

theorem toInt_sum (inside : shift < 64) (a b : TempReal) :
    ((signify a).toDoubleWord.add (signify (align b shift)).toDoubleWord).toInt = alignedSum a b shift := by
  have aSmall : a.mantissa / 4 < 2 ^ 62 := by
    have := a.mantissa_lt
    omega
  have bSmall : b.mantissa / 2 ^ (shift + 2) < 2 ^ 62 := by
    rw [Nat.add_comm, Nat.pow_add, ← Nat.div_div_eq_div_mul]
    have := b.mantissa_lt
    have := Nat.div_le_self (b.mantissa / 2 ^ 2) (2 ^ shift)
    omega
  rw [DoubleWord.toInt_add, toInt_signify, toInt_signify, exponent_align, mantissa_align inside,
    Nat.div_div_eq_div_mul, show 2 ^ shift * 4 = 2 ^ (shift + 2) by rw [Nat.pow_add]]
  have bounds (negative : Bool) {n : Nat} (small : n < 2 ^ 62) :
      -2 ^ 62 < signed negative n ∧ signed negative n < 2 ^ 62 := by
    cases negative <;> simp only [signed] <;> constructor <;> simp <;> omega
  have aBounds := bounds (a.exponent + 2).msb aSmall
  have bBounds := bounds (b.exponent + 2).msb bSmall
  apply Int.bmod_eq_of_le
  · omega
  · omega

theorem faddOrdered_of_zero {b : TempReal} (inside : shift < 64) (zero : alignedSum a b shift = 0) :
    faddOrdered a b shift = .zero := by
  rw [faddOrdered, if_neg (by omega)]
  exact unsignify_of_zero ((toInt_sum inside a b).trans zero)

theorem faddOrdered_spec {b : TempReal} (inside : shift < 64) (nonzero : alignedSum a b shift ≠ 0) :
    ∃ k < 64, (faddOrdered a b shift).Normalized ∧
      (faddOrdered a b shift).mantissa = 2 ^ k * (alignedSum a b shift).natAbs ∧
      (faddOrdered a b shift).exponent = (if alignedSum a b shift < 0 then (a.exponent + 2) &&& 0x7fff ||| 0x8000
        else (a.exponent + 2) &&& 0x7fff) - BitVec.ofNat 16 k := by
  have sum := toInt_sum inside a b
  rw [faddOrdered, if_neg (by omega)]
  obtain ⟨k, few, normal, mantissa, exponent⟩ := unsignify_spec (a := ⟨(signify a).toDoubleWord.add
    (signify (align b shift)).toDoubleWord, (signify a).exponent⟩) (by rwa [sum])
  rw [sum] at mantissa
  refine ⟨k, few, normal, mantissa, exponent.trans ?_⟩
  rw [startExponent, sum]
  simp only [exponent_signify, BitVec.and_assoc, BitVec.and_self]

theorem fields_faddOrdered {b : TempReal} {k : Nat} (high : a.field ≤ 0x7ffd) (few : k ≤ a.field + 2)
    (exponent : (faddOrdered a b shift).exponent = (if alignedSum a b shift < 0 then
      (a.exponent + 2) &&& 0x7fff ||| 0x8000 else (a.exponent + 2) &&& 0x7fff) - BitVec.ofNat 16 k) :
    (faddOrdered a b shift).negative = decide (alignedSum a b shift < 0) ∧
      (faddOrdered a b shift).field = a.field + 2 - k := by
  have field : ExponentWord.field (a.exponent + 2) = a.field + 2 := field_add_two (by
    change a.field + 2 < 2 ^ 15
    omega)
  rw [TempReal.negative, TempReal.field, exponent]
  split
  · rename_i below
    rw [msb_sub, field_sub, msb_or_sign, field_or_sign, field_and, field, decide_eq_true below]
    · exact ⟨rfl, rfl⟩
    · rw [field_or_sign, field_and, field]
      exact few
    · rw [field_or_sign, field_and, field]
      exact few
  · rename_i above
    rw [msb_sub, field_sub, msb_and, field_and, field, decide_eq_false above]
    · exact ⟨rfl, rfl⟩
    · rw [field_and, field]
      exact few
    · rw [field_and, field]
      exact few

theorem value_faddOrdered {b : TempReal} (inside : shift < 64) (low : 61 ≤ a.field) (high : a.field ≤ 0x7ffd)
    (nonzero : alignedSum a b shift ≠ 0) :
    (faddOrdered a b shift).value = alignedSum a b shift * 2 ^ ((a.field : ℤ) + 2 - 16446) := by
  obtain ⟨k, few, -, mantissa, exponent⟩ := faddOrdered_spec inside nonzero
  obtain ⟨sign, field⟩ := fields_faddOrdered high (by omega) exponent
  rw [TempReal.value_eq_of_shift mantissa sign field (by omega), signed_natAbs]
  push_cast
  rfl

/-! ## Accuracy -/

theorem abs_cut_lt (negative : Bool) (n : Nat) {d : Nat} (positive : 0 < d) :
    |(signed negative (n / d) : ℚ) * d - signed negative n| < d := by
  have whole : (d : ℚ) * (n / d : Nat) + (n % d : Nat) = n := by exact_mod_cast Nat.div_add_mod n d
  have rest : ((n % d : Nat) : ℚ) < d := by exact_mod_cast Nat.mod_lt n positive
  have above : (0 : ℚ) ≤ (n % d : Nat) := Nat.cast_nonneg _
  have less : (0 : ℚ) < d := by exact_mod_cast positive
  cases negative with
  | false =>
    simp only [signed, Bool.false_eq_true, if_false, Int.cast_natCast, abs_lt]
    constructor <;> linarith
  | true =>
    simp only [signed, if_true, Int.cast_neg, Int.cast_natCast, abs_lt]
    constructor <;> linarith

theorem abs_cut_sum_lt {high low aSigned bSigned x y unit scale : ℚ} (unitPos : 0 < unit) (scalePos : 0 < scale)
    (xIs : x = aSigned * unit) (yIs : y * scale = bSigned * unit) (aCut : |high * 4 - aSigned| < 4)
    (bCut : |low * (scale * 4) - bSigned| < scale * 4) :
    |(high + low) * (4 * unit) - (x + y)| < 8 * unit := by
  have error : ((high + low) * (4 * unit) - (x + y)) * scale =
      ((high * 4 - aSigned) * scale + (low * (scale * 4) - bSigned)) * unit := by
    rw [xIs]
    linear_combination -yIs
  refine lt_of_mul_lt_mul_right ?_ scalePos.le
  calc |(high + low) * (4 * unit) - (x + y)| * scale
      = |(high * 4 - aSigned) * scale + (low * (scale * 4) - bSigned)| * unit := by
        rw [← abs_of_pos scalePos, ← abs_mul, abs_of_pos scalePos, error, abs_mul, abs_of_pos unitPos]
    _ ≤ (|high * 4 - aSigned| * scale + |low * (scale * 4) - bSigned|) * unit := by
        refine mul_le_mul_of_nonneg_right ((abs_add_le _ _).trans ?_) unitPos.le
        rw [abs_mul, abs_of_pos scalePos]
    _ < (4 * scale + scale * 4) * unit :=
        mul_lt_mul_of_pos_right (add_lt_add (mul_lt_mul_of_pos_right aCut scalePos) bCut) unitPos
    _ = 8 * unit * scale := by ring

section Ordered

variable {a b : TempReal}

theorem TempReal.place_pos (a : TempReal) : (0 : ℚ) < 2 ^ ((a.field : ℤ) - 16446) := by positivity

theorem value_of_ordered (ordered : b.field ≤ a.field) :
    b.value * 2 ^ (a.field - b.field) = b.signedMantissa * 2 ^ ((a.field : ℤ) - 16446) := by
  have places : (a.field : ℤ) - 16446 = ((b.field : ℤ) - 16446) + (a.field - b.field : Nat) := by omega
  rw [TempReal.value, places, zpow_add₀ two_ne_zero, zpow_natCast, mul_assoc]

theorem abs_value_of_ordered (ordered : b.field ≤ a.field) :
    |b.value| * 2 ^ (a.field - b.field) = b.mantissa * 2 ^ ((a.field : ℤ) - 16446) := by
  have place := a.place_pos
  have shifted := congrArg (|·|) (value_of_ordered ordered)
  simp only [abs_mul, abs_of_pos place, abs_pow, abs_two] at shifted
  rw [shifted, ← Int.cast_abs, TempReal.signedMantissa, abs_signed, Int.cast_natCast]

theorem abs_value_lt_of_far (far : 64 ≤ a.field - b.field) : |b.value| < 2 ^ ((a.field : ℤ) - 16446) := by
  have place := a.place_pos
  have shifted := abs_value_of_ordered (a := a) (b := b) (by omega)
  have small : (b.mantissa : ℚ) < 2 ^ 64 := by exact_mod_cast b.mantissa_lt
  have wide : (2 : ℚ) ^ 64 ≤ 2 ^ (a.field - b.field) := pow_le_pow_right₀ one_le_two far
  have positive : (0 : ℚ) < 2 ^ (a.field - b.field) := by positivity
  refine lt_of_mul_lt_mul_right ?_ positive.le
  calc |b.value| * 2 ^ (a.field - b.field) = b.mantissa * 2 ^ ((a.field : ℤ) - 16446) := shifted
    _ < 2 ^ (a.field - b.field) * 2 ^ ((a.field : ℤ) - 16446) := mul_lt_mul_of_pos_right (by linarith) place
    _ = 2 ^ ((a.field : ℤ) - 16446) * 2 ^ (a.field - b.field) := mul_comm _ _

theorem abs_alignedSum_lt (ordered : b.field ≤ a.field) (high : a.field ≤ 0x7ffd) :
    |alignedSum a b (a.field - b.field) * 2 ^ ((a.field : ℤ) + 2 - 16446) - (a.value + b.value)| <
      2 ^ ((a.field : ℤ) - 16443) := by
  have aSign : (a.exponent + 2).msb = a.negative := msb_add_two (by change a.field + 2 < 2 ^ 15; omega)
  have bSign : (b.exponent + 2).msb = b.negative := msb_add_two (by change b.field + 2 < 2 ^ 15; omega)
  have place := a.place_pos
  have four : (2 : ℚ) ^ ((a.field : ℤ) + 2 - 16446) = 4 * 2 ^ ((a.field : ℤ) - 16446) := by
    rw [show (a.field : ℤ) + 2 - 16446 = 2 + ((a.field : ℤ) - 16446) by omega, zpow_add₀ two_ne_zero]
    norm_num
  have eight : (2 : ℚ) ^ ((a.field : ℤ) - 16443) = 8 * 2 ^ ((a.field : ℤ) - 16446) := by
    rw [show (a.field : ℤ) - 16443 = 3 + ((a.field : ℤ) - 16446) by omega, zpow_add₀ two_ne_zero]
    norm_num
  have aCut := abs_cut_lt a.negative a.mantissa (d := 4) (by decide)
  have bCut := abs_cut_lt b.negative b.mantissa (d := 2 ^ (a.field - b.field + 2)) (Nat.two_pow_pos _)
  rw [← TempReal.signedMantissa] at aCut bCut
  rw [alignedSum, aSign, bSign, four, eight, Int.cast_add]
  have scale : (0 : ℚ) < 2 ^ (a.field - b.field) := by positivity
  refine abs_cut_sum_lt place scale rfl (value_of_ordered ordered) (by exact_mod_cast aCut) ?_
  have wide : ((2 ^ (a.field - b.field + 2) : Nat) : ℚ) = 2 ^ (a.field - b.field) * 4 := by
    push_cast
    ring
  rwa [wide] at bCut

theorem eq_of_sum_zero (aNormal : a.Normalized) (bNormal : b.Normalized) (ordered : b.field ≤ a.field)
    (opposite : a.value + b.value = 0) :
    b.field = a.field ∧ b.mantissa = a.mantissa ∧ b.negative = !a.negative := by
  have place := a.place_pos
  rw [TempReal.normalized_iff] at aNormal bNormal
  have magnitudes : a.mantissa * 2 ^ (a.field - b.field) = b.mantissa := by
    have shifted := abs_value_of_ordered ordered
    have own := abs_value_of_ordered (a := a) (b := a) le_rfl
    rw [Nat.sub_self, pow_zero, mul_one] at own
    rw [← abs_neg, show -b.value = a.value by linarith, own] at shifted
    have scaled : (a.mantissa * 2 ^ (a.field - b.field) : ℚ) = b.mantissa := by
      refine mul_right_cancel₀ place.ne' ?_
      linear_combination shifted
    exact_mod_cast scaled
  have near : a.field - b.field = 0 := by
    by_contra apart
    have wide : 2 ^ 1 ≤ 2 ^ (a.field - b.field) := Nat.pow_le_pow_right (by decide) (by omega)
    have := Nat.mul_le_mul_left a.mantissa wide
    have := b.mantissa_lt
    omega
  rw [near, Nat.pow_zero, Nat.mul_one] at magnitudes
  have fields : b.field = a.field := by omega
  refine ⟨fields, magnitudes.symm, ?_⟩
  have sum : a.signedMantissa + b.signedMantissa = 0 := by
    have scaled : ((a.signedMantissa + b.signedMantissa : ℤ) : ℚ) * 2 ^ ((a.field : ℤ) - 16446) = 0 := by
      rw [TempReal.value, TempReal.value, fields] at opposite
      push_cast
      linear_combination opposite
    exact_mod_cast (mul_eq_zero.mp scaled).resolve_right place.ne'
  rw [TempReal.signedMantissa, TempReal.signedMantissa, ← magnitudes] at sum
  cases aSign : a.negative <;> cases bSign : b.negative <;> simp only [aSign, bSign, signed] at sum ⊢ <;>
    simp at sum ⊢ <;> omega

theorem alignedSum_of_opposite {a b : TempReal} (mantissas : b.mantissa = a.mantissa)
    (signs : (b.exponent + 2).msb = !(a.exponent + 2).msb) : alignedSum a b 0 = 0 := by
  rw [alignedSum, signs, mantissas]
  cases (a.exponent + 2).msb <;> simp [signed]

theorem faddOrdered_accurate (aNormal : a.Normalized) (bNormal : b.Normalized) (ordered : b.field ≤ a.field)
    (low : 64 ≤ a.field) (high : a.field ≤ 0x7ffc) :
    ((faddOrdered a b (a.field - b.field)).Normalized ∨ faddOrdered a b (a.field - b.field) = .zero) ∧
      |(faddOrdered a b (a.field - b.field)).value - (a.value + b.value)| < 2 ^ ((a.field : ℤ) - 16443) ∧
      (a.value + b.value = 0 → faddOrdered a b (a.field - b.field) = .zero) := by
  by_cases far : 64 ≤ a.field - b.field
  · have place : (2 : ℚ) ^ ((a.field : ℤ) - 16446) ≤ 2 ^ ((a.field : ℤ) - 16443) :=
      zpow_le_zpow_right₀ one_le_two (by omega)
    rw [faddOrdered, if_pos far]
    refine ⟨.inl aNormal, ?_, fun opposite => ?_⟩
    · rw [sub_add_cancel_left, abs_neg]
      exact (abs_value_lt_of_far far).trans_le place
    · have := eq_of_sum_zero aNormal bNormal ordered opposite
      omega
  · have error := abs_alignedSum_lt ordered (by omega : a.field ≤ 0x7ffd)
    by_cases zero : alignedSum a b (a.field - b.field) = 0
    · rw [faddOrdered_of_zero (by omega) zero]
      rw [zero, Int.cast_zero, zero_mul] at error
      refine ⟨.inr rfl, ?_, fun _ => rfl⟩
      rwa [TempReal.value_zero]
    · obtain ⟨-, -, normal, -⟩ := faddOrdered_spec (by omega) zero
      rw [value_faddOrdered (by omega) (by omega) (by omega) zero]
      refine ⟨.inl normal, error, fun opposite => ?_⟩
      obtain ⟨fields, mantissas, signs⟩ := eq_of_sum_zero aNormal bNormal ordered opposite
      refine absurd ?_ zero
      rw [fields, Nat.sub_self]
      refine alignedSum_of_opposite mantissas ?_
      rw [msb_add_two, msb_add_two]
      · exact signs
      · change a.field + 2 < 2 ^ 15
        omega
      · change b.field + 2 < 2 ^ 15
        omega

end Ordered

/-- `fadd` ends: its only loop is `normaliseLoop`, whose measure falls. -/
theorem fadd_accurate (x y : TempReal) (xNormal : x.Normalized) (yNormal : y.Normalized)
    (xLow : 64 ≤ x.field) (xHigh : x.field ≤ 0x7ffc) (yLow : 64 ≤ y.field) (yHigh : y.field ≤ 0x7ffc) :
    ((fadd x y).Normalized ∨ fadd x y = .zero) ∧
      |(fadd x y).value - (x.value + y.value)| < 2 ^ ((max x.field y.field : ℤ) - 16383 - 60) ∧
      (x.value + y.value = 0 → fadd x y = .zero) := by
  have place (e : Nat) : (e : ℤ) - 16383 - 60 = (e : ℤ) - 16443 := by omega
  rw [fadd]
  by_cases first : y.field < x.field
  · rw [if_pos first, max_eq_left (by omega), place]
    exact faddOrdered_accurate xNormal yNormal first.le xLow xHigh
  · rw [if_neg first, max_eq_right (by omega), place, add_comm x.value]
    exact faddOrdered_accurate yNormal xNormal (not_lt.mp first) yLow yHigh

theorem fadd_accurate_one_one :
    ((fadd .one .one).Normalized ∨ fadd .one .one = .zero) ∧
      |(fadd .one .one).value - (TempReal.one.value + TempReal.one.value)| <
        2 ^ ((max TempReal.one.field TempReal.one.field : ℤ) - 16383 - 60) ∧
      (TempReal.one.value + TempReal.one.value = 0 → fadd .one .one = .zero) :=
  fadd_accurate .one .one (by decide) (by decide) (by decide) (by decide) (by decide) (by decide)

end Linux012.Math

import Linux012.Math.Add

/-! The comparison of temporary reals (`kernel/math/compare.c`). -/

set_option autoImplicit false

namespace Linux012.Math

open CarryWords ExponentWord Rounding

/-! ## The condition codes -/

def clearCx (swd : BitVec 32) : BitVec 32 := swd &&& ~~~0x4500

def setC0 (swd : BitVec 32) : BitVec 32 := swd ||| 0x0100

def setC3 (swd : BitVec 32) : BitVec 32 := swd ||| 0x4000

def C0 (swd : BitVec 32) : Bool := swd.getLsbD 8

def C2 (swd : BitVec 32) : Bool := swd.getLsbD 10

def C3 (swd : BitVec 32) : Bool := swd.getLsbD 14

/-! ## The routines -/

def normalizeGuard (s : Nat × DoubleWord 32) : Bool := s.1 ≠ 0 && !s.2.b.msb

theorem normalize_decreases (s : Nat × DoubleWord 32) (more : normalizeGuard s = true) : s.1 - 1 < s.1 := by
  rw [normalizeGuard, Bool.and_eq_true, decide_eq_true_iff] at more
  have := more.1
  omega

/-- `while (i && a->b >= 0)` -/
def normalizeLoop : WhileLoop (Nat × DoubleWord 32) where
  guard := normalizeGuard
  body s _ := (s.1 - 1, s.2.double)
  measure s := s.1
  decreases := normalize_decreases

def normalize (a : TempReal) : TempReal :=
  if a.a = 0 ∧ a.b = 0 then { a with exponent := 0 }
  else
    let last := normalizeLoop.run (a.field, a.toDoubleWord)
    { last.2 with exponent := BitVec.ofNat 16 last.1 ||| a.exponent &&& 0x8000 }

def ftst (a : TempReal) (swd : BitVec 32) : BitVec 32 :=
  let b := normalize a
  if b.a ≠ 0 ∨ b.b ≠ 0 ∨ b.exponent ≠ 0 then if b.exponent.msb then setC0 (clearCx swd) else clearCx swd
  else setC3 (clearCx swd)

def fcom (src1 src2 : TempReal) (swd : BitVec 32) : BitVec 32 := ftst (fadd src1.negate src2) swd

def fucom (src1 src2 : TempReal) (swd : BitVec 32) : BitVec 32 := fcom src1 src2 swd

/-! ## What the test sees -/

theorem normalizeLoop_spec (i : Nat) {p : DoubleWord 32} (nonzero : p.value ≠ 0) :
    (normalizeLoop.run (i, p)).1 ≤ i ∧ (normalizeLoop.run (i, p)).2.value ≠ 0 := by
  refine WhileLoop.run_keeps (l := normalizeLoop) (motive := fun s => s.1 ≤ i ∧ s.2.value ≠ 0) ?_
    ⟨Nat.le_refl _, nonzero⟩
  rintro ⟨n, q⟩ more ⟨less, nonzero⟩
  refine ⟨by show n - 1 ≤ i; omega, ?_⟩
  have low : q.b.msb = false := by
    have := more
    simp only [normalizeLoop, normalizeGuard, Bool.and_eq_true, Bool.not_eq_true'] at this
    exact this.2
  show q.double.value ≠ 0
  have doubled := TempReal.mantissa_shiftUp (r := ⟨q, 0⟩) low
  change q.double.value = 2 * q.value at doubled
  rw [doubled]
  exact Nat.mul_ne_zero two_ne_zero nonzero

theorem ftst_of_zero {a : TempReal} (zero : a.mantissa = 0) (swd : BitVec 32) :
    ftst a swd = setC3 (clearCx swd) := by
  have words := TempReal.mantissa_eq_zero_iff.mp zero
  have normal : normalize a = .zero := by
    rw [normalize, if_pos words]
    obtain ⟨⟨low, high⟩, exponent⟩ := a
    obtain ⟨rfl, rfl⟩ := words
    rfl
  rw [ftst, normal]
  rfl

theorem ftst_of_ne_zero {a : TempReal} (nonzero : a.mantissa ≠ 0) (swd : BitVec 32) :
    ftst a swd = if a.negative then setC0 (clearCx swd) else clearCx swd := by
  have words : ¬(a.a = 0 ∧ a.b = 0) := by rwa [← TempReal.mantissa_eq_zero_iff]
  obtain ⟨left, still⟩ := normalizeLoop_spec a.field nonzero
  have small := field_lt a.exponent
  have sign : (BitVec.ofNat 16 (normalizeLoop.run (a.field, a.toDoubleWord)).1 ||| a.exponent &&& 0x8000).msb =
      a.negative := msb_ofNat_or (lt_of_le_of_lt left small) _
  have some : ¬((normalizeLoop.run (a.field, a.toDoubleWord)).2.a = 0 ∧
      (normalizeLoop.run (a.field, a.toDoubleWord)).2.b = 0) := by
    have := TempReal.mantissa_eq_zero_iff (r := ⟨(normalizeLoop.run (a.field, a.toDoubleWord)).2, 0⟩)
    rwa [← this]
  rw [ftst, normalize, if_neg words]
  dsimp only
  rw [sign, if_pos (by tauto)]

/-! ## The order -/

/-- A number cut off behind the 62 bits that `fadd` keeps beside an operand with exponent field `e`. -/
def comparedUnits (e : Nat) (r : TempReal) : ℤ := roundInt .towardZero (r.value / 2 ^ ((e : ℤ) - 16383 - 61))

variable {r : TempReal}

theorem comparedUnits_eq {e : Nat} (field : r.field ≤ e) :
    comparedUnits e r = signed r.negative (r.mantissa / 2 ^ (e - r.field + 2)) := by
  have ratio : r.value / 2 ^ ((e : ℤ) - 16383 - 61) =
      (signed r.negative r.mantissa : ℚ) / (2 ^ (e - r.field + 2) : Nat) := by
    have places : (e : ℤ) - 16383 - 61 = (r.field - 16446) + (e - r.field + 2 : Nat) := by omega
    rw [TempReal.value, TempReal.signedMantissa, places, zpow_add₀ two_ne_zero, zpow_natCast]
    push_cast
    field_simp
  rw [comparedUnits, ratio, roundInt_div _ _ _ (Nat.two_pow_pos _)]
  rfl

theorem comparedUnits_mono {e : Nat} {s : TempReal} (order : r.value ≤ s.value) :
    comparedUnits e r ≤ comparedUnits e s :=
  roundInt_towardZero_mono (div_le_div_of_nonneg_right order (by positivity))

@[simp] theorem field_negate (r : TempReal) : r.negate.field = r.field := field_xor_sign _

@[simp] theorem negative_negate (r : TempReal) : r.negate.negative = !r.negative := msb_xor_sign _

@[simp] theorem mantissa_negate (r : TempReal) : r.negate.mantissa = r.mantissa := rfl

theorem comparedUnits_negate {e : Nat} (field : r.field ≤ e) : comparedUnits e r.negate = -comparedUnits e r := by
  rw [comparedUnits_eq field, comparedUnits_eq (by simpa using field), field_negate, negative_negate, mantissa_negate,
    signed_not]

def TempReal.IsZero (r : TempReal) : Prop := r.mantissa = 0 ∧ r.field = 0

instance (r : TempReal) : Decidable r.IsZero := inferInstanceAs (Decidable (_ ∧ _))

section Ordered

variable {a b : TempReal}

theorem alignedSum_eq (ordered : b.field ≤ a.field) (high : a.field ≤ 0x7ffc) :
    alignedSum a b (a.field - b.field) = comparedUnits a.field a + comparedUnits a.field b := by
  have aSign : (a.exponent + 2).msb = a.negative := msb_add_two (by change a.field + 2 < 2 ^ 15; omega)
  have bSign : (b.exponent + 2).msb = b.negative := msb_add_two (by change b.field + 2 < 2 ^ 15; omega)
  rw [alignedSum, comparedUnits_eq le_rfl, comparedUnits_eq ordered, aSign, bSign, Nat.sub_self]
  rfl

theorem faddOrdered_sign (aIs : a.Normalized ∨ a.IsZero) (ordered : b.field ≤ a.field) (high : a.field ≤ 0x7ffc)
    {sum : ℤ} (sumIs : sum = comparedUnits a.field a + comparedUnits a.field b)
    (apart : sum ≠ 0 → 2 ^ (61 - a.field) ≤ sum.natAbs) :
    ((faddOrdered a b (a.field - b.field)).mantissa = 0 ↔ sum = 0) ∧
      (sum ≠ 0 → (faddOrdered a b (a.field - b.field)).negative = decide (sum < 0)) := by
  by_cases far : 64 ≤ a.field - b.field
  · have normal : 2 ^ 63 ≤ a.mantissa := TempReal.normalized_iff.mp (aIs.resolve_right fun zero => by
      have := zero.2
      omega)
    have wide : 2 ^ 64 ≤ 2 ^ (a.field - b.field + 2) := Nat.pow_le_pow_right (by decide) (by omega)
    have nothing : b.mantissa / 2 ^ (a.field - b.field + 2) = 0 := Nat.div_eq_of_lt (b.mantissa_lt.trans_le wide)
    rw [comparedUnits_eq le_rfl, comparedUnits_eq ordered, nothing, Nat.sub_self] at sumIs
    rw [faddOrdered, if_pos far]
    have some : 0 < a.mantissa / 2 ^ (0 + 2) := Nat.div_pos (by omega) (by decide)
    cases sign : a.negative with
    | false =>
      have positive : 0 < sum := by
        rw [sumIs, sign]
        simp [signed]
        omega
      exact ⟨iff_of_false (by omega) positive.ne', fun _ => (decide_eq_false (by omega)).symm⟩
    | true =>
      have below : sum < 0 := by
        rw [sumIs, sign]
        simp [signed]
        omega
      exact ⟨iff_of_false (by omega) below.ne, fun _ => (decide_eq_true below).symm⟩
  · rw [← alignedSum_eq ordered high] at sumIs
    by_cases zero : sum = 0
    · rw [faddOrdered_of_zero (by omega) (sumIs ▸ zero)]
      exact ⟨iff_of_true rfl zero, fun nonzero => absurd zero nonzero⟩
    · obtain ⟨k, few, -, mantissa, exponent⟩ := faddOrdered_spec (by omega) (sumIs ▸ zero)
      have small := (faddOrdered a b (a.field - b.field)).mantissa_lt
      rw [← sumIs] at mantissa
      have enough : k ≤ a.field + 2 := by
        by_contra borrow
        have shifts : 2 ^ (a.field + 3) ≤ 2 ^ k := Nat.pow_le_pow_right (by decide) (by omega)
        have product := Nat.mul_le_mul shifts (apart zero)
        rw [← Nat.pow_add, ← mantissa] at product
        have := Nat.pow_le_pow_right (show 0 < 2 by decide) (show 64 ≤ a.field + 3 + (61 - a.field) by omega)
        omega
      refine ⟨iff_of_false ?_ zero, fun _ => ?_⟩
      · rw [mantissa]
        exact Nat.mul_ne_zero (Nat.two_pow_pos k).ne' (Int.natAbs_ne_zero.mpr zero)
      · rw [(fields_faddOrdered (by omega) enough exponent).1, sumIs]

end Ordered

section Compare

variable {s t : TempReal}

theorem normalized_negate (is : s.Normalized ∨ s.IsZero) : s.negate.Normalized ∨ s.negate.IsZero :=
  is.imp id fun zero => ⟨zero.1, (field_negate s).trans zero.2⟩

theorem fadd_negate_sign (sIs : s.Normalized ∨ s.IsZero) (tIs : t.Normalized ∨ t.IsZero)
    (sHigh : s.field ≤ 0x7ffc) (tHigh : t.field ≤ 0x7ffc) {e : Nat} (eIs : e = max s.field t.field)
    (apart : comparedUnits e t ≠ comparedUnits e s → 2 ^ (61 - e) ≤ (comparedUnits e t - comparedUnits e s).natAbs) :
    ((fadd s.negate t).mantissa = 0 ↔ comparedUnits e t = comparedUnits e s) ∧
      (comparedUnits e t ≠ comparedUnits e s →
        (fadd s.negate t).negative = decide (comparedUnits e t < comparedUnits e s)) := by
  have zeroIff : comparedUnits e t - comparedUnits e s = 0 ↔ comparedUnits e t = comparedUnits e s := sub_eq_zero
  have below : comparedUnits e t - comparedUnits e s < 0 ↔ comparedUnits e t < comparedUnits e s := sub_neg
  have same := field_negate s
  rw [ne_eq, ← zeroIff] at apart ⊢
  rw [fadd, ← decide_eq_decide.mpr below]
  by_cases first : t.field < s.negate.field
  · obtain rfl : e = s.negate.field := by omega
    rw [if_pos first]
    refine faddOrdered_sign (normalized_negate sIs) first.le (by omega) ?_ apart
    rw [comparedUnits_negate same.ge]
    omega
  · obtain rfl : e = t.field := by omega
    rw [if_neg first]
    refine faddOrdered_sign tIs (not_lt.mp first) tHigh ?_ apart
    rw [comparedUnits_negate (by omega)]
    omega

theorem codes_clear (swd : BitVec 32) :
    C0 (clearCx swd) = false ∧ C2 (clearCx swd) = false ∧ C3 (clearCx swd) = false := by
  simp [C0, C2, C3, clearCx]

theorem codes_setC0 (swd : BitVec 32) :
    C0 (setC0 (clearCx swd)) = true ∧ C2 (setC0 (clearCx swd)) = false ∧ C3 (setC0 (clearCx swd)) = false := by
  simp [C0, C2, C3, setC0, clearCx]

theorem codes_setC3 (swd : BitVec 32) :
    C0 (setC3 (clearCx swd)) = false ∧ C2 (setC3 (clearCx swd)) = false ∧ C3 (setC3 (clearCx swd)) = true := by
  simp [C0, C2, C3, setC3, clearCx]

theorem fcom_codes (s t : TempReal) (swd : BitVec 32) :
    C2 (fcom s t swd) = false ∧ C3 (fcom s t swd) = decide ((fadd s.negate t).mantissa = 0) ∧
      C0 (fcom s t swd) = (decide ((fadd s.negate t).mantissa ≠ 0) && (fadd s.negate t).negative) := by
  by_cases zero : (fadd s.negate t).mantissa = 0
  · obtain ⟨c0, c2, c3⟩ := codes_setC3 swd
    rw [fcom, ftst_of_zero zero, c0, c2, c3]
    simp [zero]
  · rw [fcom, ftst_of_ne_zero zero]
    cases sign : (fadd s.negate t).negative with
    | false =>
      obtain ⟨c0, c2, c3⟩ := codes_clear swd
      rw [if_neg Bool.false_ne_true, c0, c2, c3]
      simp [zero]
    | true =>
      obtain ⟨c0, c2, c3⟩ := codes_setC0 swd
      rw [if_pos rfl, c0, c2, c3]
      simp [zero]

/-- Numbers are compared by the 62 bits that `fadd` keeps of them. -/
theorem fcom_orders (sIs : s.Normalized ∨ s.IsZero) (tIs : t.Normalized ∨ t.IsZero) (sHigh : s.field ≤ 0x7ffc)
    (tHigh : t.field ≤ 0x7ffc) {e : Nat} (eIs : e = max s.field t.field)
    (apart : comparedUnits e t ≠ comparedUnits e s →
      2 ^ (61 - e) ≤ (comparedUnits e t - comparedUnits e s).natAbs) (swd : BitVec 32) :
    C2 (fcom s t swd) = false ∧
      (C3 (fcom s t swd) = true ↔ comparedUnits e t = comparedUnits e s) ∧
      (C0 (fcom s t swd) = true ↔ comparedUnits e t < comparedUnits e s) ∧
      (t.value = s.value → C3 (fcom s t swd) = true) ∧
      (C0 (fcom s t swd) = true → t.value < s.value) ∧
      (C0 (fcom s t swd) = false → C3 (fcom s t swd) = false → s.value < t.value) := by
  obtain ⟨c2, c3, c0⟩ := fcom_codes s t swd
  obtain ⟨zero, sign⟩ := fadd_negate_sign sIs tIs sHigh tHigh eIs apart
  have equal : C3 (fcom s t swd) = true ↔ comparedUnits e t = comparedUnits e s := by
    rw [c3, decide_eq_true_iff, zero]
  have less : C0 (fcom s t swd) = true ↔ comparedUnits e t < comparedUnits e s := by
    rw [c0, Bool.and_eq_true, decide_eq_true_iff, ne_eq, zero]
    constructor
    · rintro ⟨apart, negative⟩
      rw [sign apart, decide_eq_true_iff] at negative
      exact negative
    · intro below
      exact ⟨below.ne, by rw [sign below.ne, decide_eq_true below]⟩
  refine ⟨c2, equal, less, fun same => ?_, fun below => ?_, fun notBelow notEqual => ?_⟩
  · rw [equal, comparedUnits, same]
    rfl
  · by_contra above
    exact absurd (less.mp below) (not_lt.mpr (comparedUnits_mono (not_lt.mp above)))
  · by_contra above
    have order := comparedUnits_mono (e := e) (not_lt.mp above)
    cases order.lt_or_eq with
    | inl below => simp [less.mpr below] at notBelow
    | inr same => simp [equal.mpr same] at notEqual

theorem fcom_orders_one_one :
    C2 (fcom .one .one 0) = false ∧
      (C3 (fcom .one .one 0) = true ↔ comparedUnits 16383 .one = comparedUnits 16383 .one) ∧
      (C0 (fcom .one .one 0) = true ↔ comparedUnits 16383 .one < comparedUnits 16383 .one) ∧
      (TempReal.one.value = TempReal.one.value → C3 (fcom .one .one 0) = true) ∧
      (C0 (fcom .one .one 0) = true → TempReal.one.value < TempReal.one.value) ∧
      (C0 (fcom .one .one 0) = false → C3 (fcom .one .one 0) = false → TempReal.one.value < TempReal.one.value) :=
  fcom_orders (.inl (by decide)) (.inl (by decide)) (by decide) (by decide) (by decide) (fun apart => absurd rfl apart) 0

def afterOne : TempReal := ⟨⟨1, 0x80000000⟩, 0x3fff⟩

theorem fcom_afterOne :
    (afterOne.Normalized ∧ afterOne.field ≤ 0x7ffc) ∧ (TempReal.one.Normalized ∧ TempReal.one.field ≤ 0x7ffc) ∧
      C3 (fcom afterOne .one 0) = true ∧ TempReal.one.value ≠ afterOne.value := by
  refine ⟨by decide, by decide, by decide +kernel, fun same => ?_⟩
  have place : (2 : ℚ) ^ ((TempReal.one.field : ℤ) - 16446) ≠ 0 := zpow_ne_zero _ two_ne_zero
  have digits : TempReal.one.signedMantissa = afterOne.signedMantissa :=
    Int.cast_injective (mul_right_cancel₀ place same)
  exact absurd digits (by decide)

end Compare

end Linux012.Math

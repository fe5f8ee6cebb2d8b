import Linux012.Lib.BitFields
import Linux012.Math.MemoryForms
import Linux012.Math.StoredReals

/-! How `real_to_int` rounds, and that integers and decimals come back as they were read. -/

set_option autoImplicit false

namespace Linux012.Math

open CarryWords ExponentWord Rounding Function
open BitVec (toNat_add toNat_ofInt toNat_ofNat add_assoc)

/-! ## Rounding to an integer -/

def IsRounded (mode : Mode) (r : TempReal) (ti : TempInt) : Prop :=
  ti.sign = r.negative ∧ signed ti.sign ti.value = roundInt mode r.value

/-- The inputs on which the bits below `2 ^ -32` do not matter: `real_to_int` drops them. -/
def IntegerRounds (mode : Mode) (r : TempReal) : Prop :=
  RestUnseen mode r.negative (r.mantissa * 2 ^ 32) (2 ^ (16446 - r.field)) (2 ^ 32)

instance (mode : Mode) (r : TempReal) : Decidable (IntegerRounds mode r) :=
  inferInstanceAs (Decidable (RestUnseen ..))

theorem integerWords_value (r : TempReal) {shift : Nat} (inside : shift < 96) :
    (integerWords r shift).2.2 < 32 ∧
      ((integerWords r shift).2.1.toNat + 2 ^ 32 * (integerWords r shift).1.value) / 2 ^ (integerWords r shift).2.2 =
        r.mantissa * 2 ^ 32 / 2 ^ shift := by
  have small := r.a.isLt
  have words : r.mantissa = r.a.toNat + 2 ^ 32 * r.b.toNat := rfl
  rw [integerWords]
  by_cases first : shift < 32
  · rw [if_pos first]
    refine ⟨first, congrArg (· / _) ?_⟩
    show 0 + 2 ^ 32 * r.mantissa = r.mantissa * 2 ^ 32
    omega
  · rw [if_neg first]
    by_cases second : shift < 64
    · obtain ⟨k, rfl⟩ : ∃ k, shift = k + 32 := ⟨shift - 32, by omega⟩
      rw [if_pos second, Nat.pow_add, Nat.mul_div_mul_right _ _ (Nat.two_pow_pos 32), Nat.add_sub_cancel]
      refine ⟨(by omega : k < 32), congrArg (· / _) ?_⟩
      show r.a.toNat + 2 ^ 32 * (r.b.toNat + 2 ^ 32 * 0) = r.mantissa
      omega
    · obtain ⟨k, rfl⟩ : ∃ k, shift = k + 64 := ⟨shift - 64, by omega⟩
      have high : r.mantissa / 2 ^ 32 = r.b.toNat := by omega
      have wide : 2 ^ (k + 64) = 2 ^ 32 * 2 ^ k * 2 ^ 32 := by
        rw [Nat.pow_add]
        ring
      rw [if_neg second, wide, Nat.mul_div_mul_right _ _ (Nat.two_pow_pos 32), ← Nat.div_div_eq_div_mul, high,
        Nat.add_sub_cancel]
      exact ⟨(by omega : k < 32), congrArg (· / _) (Nat.add_zero _)⟩

theorem shifted_value (p : DoubleWord 32) (underflow : BitVec 32) {shift : Nat} (inside : shift < 32) :
    (DoubleWord.shiftRight ⟨underflow, p.a⟩ shift).a.toNat + 2 ^ 32 * (p.shiftRight shift).value =
      (underflow.toNat + 2 ^ 32 * p.value) / 2 ^ shift := by
  obtain ⟨k, width⟩ : ∃ k, 32 = shift + k := ⟨32 - shift, by omega⟩
  have place : 2 ^ 32 = 2 ^ shift * 2 ^ k := by rw [width, Nat.pow_add]
  have positive := Nat.two_pow_pos shift
  have shifted (x y : Nat) : (x + 2 ^ 32 * y) / 2 ^ shift = x / 2 ^ shift + 2 ^ k * y := by
    rw [place, Nat.mul_assoc, Nat.add_mul_div_left _ _ positive]
  have low := DoubleWord.value_shiftRight inside ⟨underflow, p.a⟩
  have high := DoubleWord.value_shiftRight inside p
  have top : (DoubleWord.shiftRight ⟨underflow, p.a⟩ shift).b.toNat = p.a.toNat / 2 ^ shift := by
    rw [DoubleWord.shiftRight, BitVec.toNat_ushiftRight, Nat.shiftRight_eq_div_pow]
  have split : p.value = p.a.toNat + 2 ^ 32 * p.b.toNat := rfl
  rw [split, shifted] at high
  rw [DoubleWord.value, DoubleWord.value, shifted, top] at low
  rw [high, split, shifted]
  linear_combination low

theorem roundInteger_eq (mode : Mode) (sign : Bool) (p : DoubleWord 32) (underflow : BitVec 32) :
    roundInteger mode sign p underflow =
      if roundsAway mode sign (underflow.toNat + 2 ^ 32 * p.value) (2 ^ 32) then p.increment else p := by
  have small := underflow.isLt
  have quotient : (underflow.toNat + 2 ^ 32 * p.value) / 2 ^ 32 = p.value := by omega
  have rest : (underflow.toNat + 2 ^ 32 * p.value) % 2 ^ 32 = underflow.toNat := by omega
  have nonzero : underflow ≠ 0 ↔ underflow.toNat ≠ 0 := BitVec.toNat_inj.symm.not
  cases mode with
  | nearest =>
    have last : (0x7fffffff + (p.a &&& 1)).toNat = 0x7fffffff + p.value % 2 := by
      have odd : (p.a &&& 1).toNat = p.a.toNat % 2 := by
        rw [BitVec.toNat_and]
        exact Nat.and_two_pow_sub_one_eq_mod _ 1
      have parity : p.value % 2 = p.a.toNat % 2 := by
        rw [DoubleWord.value]
        omega
      rw [toNat_add, odd, parity]
      show (0x7fffffff + p.a.toNat % 2) % 2 ^ 32 = _
      omega
    have carry : (addCarry (0x7fffffff + (p.a &&& 1)) underflow false).carry =
        roundsAway .nearest sign (underflow.toNat + 2 ^ 32 * p.value) (2 ^ 32) := by
      rw [roundsAway, quotient, rest, Bool.eq_iff_iff, addCarry, last]
      simp only [decide_eq_true_iff, Bool.or_eq_true, Bool.and_eq_true, Bool.toNat_false]
      omega
    rw [← carry]
    rfl
  | down => simp only [roundInteger, roundsAway, rest, nonzero, Bool.and_eq_true, decide_eq_true_iff]
  | up =>
    simp only [roundInteger, roundsAway, rest, nonzero, Bool.and_eq_true, decide_eq_true_iff, Bool.not_eq_true']
  | towardZero => rfl

theorem roundsAway_of_exact (mode : Mode) (negative : Bool) {n d : Nat} (positive : 0 < d) (exact_ : n % d = 0) :
    roundsAway mode negative n d = false := by
  cases mode <;> simp [roundsAway, exact_, positive.ne']

theorem roundInteger_value (mode : Mode) (sign : Bool) {p : DoubleWord 32} {underflow : BitVec 32}
    (room : p.value + 1 < 2 ^ 64 ∨ underflow = 0) :
    (roundInteger mode sign p underflow).value =
      p.value + (roundsAway mode sign (underflow.toNat + 2 ^ 32 * p.value) (2 ^ 32)).toNat := by
  rw [roundInteger_eq]
  cases away : roundsAway mode sign (underflow.toNat + 2 ^ 32 * p.value) (2 ^ 32) with
  | false => rfl
  | true =>
    have fits : p.value + 1 < 2 ^ 64 := by
      refine room.resolve_right fun none => ?_
      rw [none, roundsAway_of_exact _ _ (by decide) (by simp)] at away
      exact Bool.false_ne_true away
    rw [if_pos rfl, DoubleWord.value_increment (by decide), Nat.mod_eq_of_lt fits, Bool.toNat_true]

variable {r : TempReal}

theorem realToInt_value (mode : Mode) (swd : BitVec 32) (inside : r.field ≤ 16446) :
    (realToInt mode r swd).1.sign = r.negative ∧
      (realToInt mode r swd).1.value = r.mantissa * 2 ^ 32 / 2 ^ (16446 - r.field) / 2 ^ 32 +
        (roundsAway mode r.negative (r.mantissa * 2 ^ 32 / 2 ^ (16446 - r.field)) (2 ^ 32)).toNat := by
  have small := r.mantissa_lt
  obtain ⟨shift, isShift, distance⟩ : ∃ shift : Nat, 16446 - r.field = shift ∧ (16383 + 63 - r.field : ℤ) = shift :=
    ⟨_, rfl, by omega⟩
  have nonnegative : ¬(shift : ℤ) < 0 := by omega
  rw [realToInt, isShift]
  dsimp only
  rw [distance, if_neg nonnegative]
  by_cases far : 96 ≤ (shift : ℤ)
  · have wide : 2 ^ 96 ≤ 2 ^ shift := Nat.pow_le_pow_right (by decide) (by omega)
    have none : r.mantissa * 2 ^ 32 / 2 ^ shift = 0 := Nat.div_eq_of_lt (by omega)
    rw [if_pos far, none, roundsAway_of_exact _ _ (by decide) (Nat.zero_mod _)]
    exact ⟨rfl, rfl⟩
  · have near : shift < 96 := by omega
    obtain ⟨short, whole⟩ := integerWords_value r near
    rw [if_neg far, Int.toNat_natCast]
    generalize integerWords r shift = words at short whole ⊢
    obtain ⟨p, underflow, n⟩ := words
    dsimp only at short whole ⊢
    have lost := (DoubleWord.shiftRight ⟨underflow, p.a⟩ n).a.isLt
    have collected := shifted_value p underflow short
    rw [whole] at collected
    have value : r.mantissa * 2 ^ 32 / 2 ^ shift / 2 ^ 32 = (p.shiftRight n).value := by omega
    refine ⟨rfl, (roundInteger_value mode r.exponent.msb ?_).trans ?_⟩
    · rcases Nat.eq_zero_or_pos shift with rfl | positive
      · right
        apply BitVec.eq_of_toNat_eq
        show _ = 0
        rw [Nat.pow_zero, Nat.div_one] at collected
        omega
      · left
        have half : r.mantissa * 2 ^ 32 / 2 ^ shift ≤ r.mantissa * 2 ^ 32 / 2 ^ 1 :=
          Nat.div_le_div_left (Nat.pow_le_pow_right (by decide) positive) (by decide)
        omega
    · rw [collected, value]
      rfl

theorem roundInt_value (mode : Mode) (inside : r.field ≤ 16446) :
    roundInt mode r.value = signed r.negative (r.mantissa / 2 ^ (16446 - r.field) +
      (roundsAway mode r.negative r.mantissa (2 ^ (16446 - r.field))).toNat) := by
  have shifted : r.value = (signed r.negative r.mantissa : ℚ) / (2 ^ (16446 - r.field) : Nat) := by
    have places : (r.field : ℤ) - 16446 = -((16446 - r.field : Nat) : ℤ) := by omega
    rw [TempReal.value, TempReal.signedMantissa, places, zpow_neg, zpow_natCast, div_eq_mul_inv, Nat.cast_pow,
      Nat.cast_ofNat]
  rw [shifted, roundInt_div mode r.negative r.mantissa (Nat.two_pow_pos _)]

theorem realToInt_isRounded_iff (mode : Mode) (swd : BitVec 32) (inside : r.field ≤ 16446) :
    IsRounded mode r (realToInt mode r swd).1 ↔ IntegerRounds mode r := by
  obtain ⟨sign, value⟩ := realToInt_value mode swd inside
  have unit := Nat.two_pow_pos (16446 - r.field)
  have quotient : r.mantissa * 2 ^ 32 / 2 ^ (16446 - r.field) / 2 ^ 32 = r.mantissa / 2 ^ (16446 - r.field) := by
    rw [Nat.div_div_eq_div_mul, Nat.mul_div_mul_right _ _ (Nat.two_pow_pos 32)]
  have whole := roundsAway_mul mode r.negative r.mantissa (2 ^ (16446 - r.field)) (Nat.two_pow_pos 32)
  rw [IsRounded, sign, value, roundInt_value mode inside, signed_eq_iff, quotient, Nat.add_left_cancel_iff, ← whole,
    and_iff_right rfl, IntegerRounds, ← roundsAway_div_iff _ _ _ unit (by decide)]
  exact ⟨eq_of_toNat_eq, congrArg Bool.toNat⟩

theorem integerRounds_of_zero (mode : Mode) (zero : r.mantissa = 0) : IntegerRounds mode r := by
  rw [IntegerRounds, zero, Nat.zero_mul]
  cases mode with
  | nearest | down | up => simp [RestUnseen]
  | towardZero => trivial

/-- Integers are correctly rounded except where the bits that `real_to_int` drops decide. -/
theorem realToInt_rounds_iff (mode : Mode) {r : TempReal} (swd : BitVec 32) (normal : r.Normalized ∨ r.mantissa = 0)
    (small : |r.value| < 2 ^ 64) : IsRounded mode r (realToInt mode r swd).1 ↔ IntegerRounds mode r := by
  by_cases inside : r.field ≤ 16446
  · exact realToInt_isRounded_iff mode swd inside
  · have zero : r.mantissa = 0 := by
      refine normal.resolve_left fun normal => inside ?_
      have below := (abs_value_bounds normal).1.trans_lt small
      rw [← zpow_natCast, zpow_lt_zpow_iff_right₀ one_lt_two] at below
      omega
    have above : (16383 + 63 - r.field : ℤ) < 0 := by omega
    refine iff_of_true ?_ (integerRounds_of_zero mode zero)
    rw [realToInt]
    dsimp only
    rw [if_pos above]
    refine ⟨rfl, ?_⟩
    rw [TempReal.value, TempReal.signedMantissa, zero]
    cases mode <;> simp [signed, roundInt, nearestEven, DoubleWord.value]

theorem abs_value_lt (normal : r.Normalized) (inside : r.field ≤ 16446) : |r.value| < 2 ^ 64 := by
  refine (abs_value_bounds normal).2.trans_le ?_
  rw [← zpow_natCast, zpow_le_zpow_iff_right₀ one_lt_two]
  omega

theorem realToInt_rounds_one : IsRounded .up .one (realToInt .up .one 0).1 ↔ IntegerRounds .up .one :=
  realToInt_rounds_iff .up 0 (.inl (by decide)) (abs_value_lt (by decide) (by decide))

def aboveHalf : TempReal := ⟨⟨1, 0xa0000000⟩, 0x4000⟩

theorem realToInt_aboveHalf :
    aboveHalf.Normalized ∧ |aboveHalf.value| < 2 ^ 64 ∧ ¬IsRounded .nearest aboveHalf (realToInt .nearest aboveHalf 0).1 := by
  have normal : aboveHalf.Normalized := by decide
  refine ⟨normal, abs_value_lt normal (by decide), (realToInt_isRounded_iff .nearest 0 (by decide)).not.mpr ?_⟩
  decide

/-! ## Integers that come back -/

theorem intToReal_units (ti : TempInt) :
    (intToReal ti).field ≤ 16446 ∧
      (intToReal ti).mantissa * 2 ^ 32 / 2 ^ (16446 - (intToReal ti).field) = ti.value * 2 ^ 32 ∧
      (ti.value ≠ 0 → (intToReal ti).negative = ti.sign) := by
  by_cases zero : ti.value = 0
  · have words : ti.a = 0 ∧ ti.b = 0 := (@TempReal.mantissa_eq_zero_iff ⟨ti.toDoubleWord, 0⟩).mp zero
    have none : (⟨ti.toDoubleWord, 0⟩ : TempReal).mantissa = 0 := zero
    rw [intToReal, dif_pos words, none, zero, Nat.zero_mul, Nat.zero_div]
    exact ⟨(by decide : field 0 ≤ 16446), rfl, fun nonzero => absurd rfl nonzero⟩
  · obtain ⟨k, few, mantissa, sign, field⟩ := intToReal_fields zero
    have shift : 16446 - (intToReal ti).field = k := by omega
    rw [shift, mantissa, Nat.mul_assoc, Nat.mul_div_cancel_left _ (Nat.two_pow_pos k)]
    exact ⟨by omega, rfl, fun _ => sign⟩

theorem realToInt_of_integer (mode : Mode) (ti : TempInt) (swd : BitVec 32) :
    (realToInt mode (intToReal ti) swd).1.value = ti.value ∧
      signed (realToInt mode (intToReal ti) swd).1.sign (realToInt mode (intToReal ti) swd).1.value =
        signed ti.sign ti.value := by
  obtain ⟨inside, whole, sign⟩ := intToReal_units ti
  obtain ⟨isSign, value⟩ := realToInt_value mode swd inside
  rw [whole, roundsAway_of_exact _ _ (by decide) (Nat.mul_mod_left ..), Nat.mul_div_cancel _ (by decide),
    Bool.toNat_false, Nat.add_zero] at value
  rw [value, isSign]
  refine ⟨rfl, ?_⟩
  by_cases zero : ti.value = 0
  · rw [zero]
    simp [signed]
  · rw [sign zero]

theorem ofInt_low (ti : TempInt) : (if ti.sign then -ti.a else ti.a) = BitVec.ofInt 32 (signed ti.sign ti.value) := by
  have small := ti.a.isLt
  apply BitVec.eq_of_toNat_eq
  rw [toNat_ofInt, DoubleWord.value]
  cases ti.sign with
  | false =>
    simp only [signed, Bool.false_eq_true, if_false]
    omega
  | true =>
    simp only [signed, if_true, BitVec.toNat_neg]
    omega

theorem negate_value (ti : TempInt) :
    ((if ti.sign then ti.negate else ti.toDoubleWord).value : ℤ) = signed ti.sign ti.value % (2 ^ 64 : Nat) := by
  have small := ti.value_lt
  cases ti.sign with
  | false =>
    simp only [signed, Bool.false_eq_true, if_false]
    omega
  | true =>
    simp only [signed, if_true]
    rw [DoubleWord.value_negate (by decide)]
    omega

namespace Memory

variable (mem : Memory) (addr : BitVec 32)

theorem add_ne_self {n : Nat} (positive : 0 < n) (small : n < 2 ^ 32) : addr + BitVec.ofNat 32 n ≠ addr := by
  intro same
  have number := congrArg BitVec.toNat same
  rw [toNat_add, toNat_ofNat] at number
  omega

theorem word_putWord (v : BitVec 16) : (mem.putWord v addr).word addr = v := by
  have other : addr ≠ addr + 1 := (add_ne_self addr (by decide : 0 < 1) (by decide)).symm
  rw [word, putWord, update_self, update_of_ne other, update_self]
  exact BitVec.extractLsb'_append_extractLsb'

theorem bytes_append (v : BitVec 32) :
    v.extractLsb' 24 8 ++ v.extractLsb' 16 8 ++ v.extractLsb' 8 8 ++ v.extractLsb' 0 8 = v := by
  have third : v.extractLsb' 24 8 ++ v.extractLsb' 16 8 = v.extractLsb' 16 16 :=
    BitVec.extractLsb'_append_extractLsb'_eq_extractLsb' rfl
  have second : v.extractLsb' 16 16 ++ v.extractLsb' 8 8 = v.extractLsb' 8 24 :=
    BitVec.extractLsb'_append_extractLsb'_eq_extractLsb' rfl
  rw [third, second]
  exact BitVec.extractLsb'_append_extractLsb'

theorem long_putLong (v : BitVec 32) : (mem.putLong v addr).long addr = v := by
  have bytes := bytes_append v
  simpa [long, putLong, putWord, add_assoc, BitFields.extractLsb'_extractLsb'] using bytes

theorem long_putLong_next (v : BitVec 32) : (mem.putLong v (addr + 4)).long addr = mem.long addr := by
  simp [long, putLong, putWord, add_assoc]

end Memory

/-! ### Decimals -/

theorem div10_value (p : DoubleWord 32) : (div10 p).1.value = p.value / 10 ∧ (div10 p).2.toNat = p.value % 10 := by
  have low := p.a.isLt
  have high := p.b.isLt
  have quotient : (p.b / 10).toNat = p.b.toNat / 10 := BitVec.toNat_udiv
  rw [div10, DoubleWord.value, DoubleWord.value, toNat_ofNat, toNat_ofNat, quotient]
  omega

/-- The loop of `put_BCD` on a memory. -/
def storeDigits : Nat → BitVec 32 → DoubleWord 32 → Memory → Memory
  | 0, _, _, mem => mem
  | k + 1, addr, i, mem =>
    let first := div10 i
    let second := div10 first.1
    storeDigits k (addr + 1) second.1 (update mem addr ((first.2 + second.2 <<< 4).setWidth 8))

theorem putDigits_apply (k : Nat) (addr : BitVec 32) (i : DoubleWord 32) (s : Machine) :
    putDigits k addr i s = .ok () { s with memory := storeDigits k addr i s.memory } := by
  induction k generalizing addr i s with
  | zero => rfl
  | succ k ih => exact ih ..

theorem add_one_add (addr : BitVec 32) (j : Nat) : addr + 1 + BitVec.ofNat 32 j = addr + BitVec.ofNat 32 (j + 1) := by
  rw [add_assoc, Nat.add_comm j, BitVec.ofNat_add]
  rfl

theorem storeDigits_other {k : Nat} {addr x : BitVec 32} (i : DoubleWord 32) (mem : Memory)
    (other : ∀ j < k, x ≠ addr + BitVec.ofNat 32 j) : storeDigits k addr i mem x = mem x := by
  induction k generalizing addr i mem with
  | zero => rfl
  | succ k ih =>
    have here : x ≠ addr := fun same => other 0 (Nat.succ_pos k) (same.trans (BitVec.add_zero addr).symm)
    rw [storeDigits, ih, update_of_ne here]
    intro j inside
    rw [add_one_add]
    exact other (j + 1) (Nat.succ_lt_succ inside)

theorem decimalNumber_storeDigits {k : Nat} (few : k < 2 ^ 32) (addr : BitVec 32) (i : DoubleWord 32) (mem : Memory) :
    decimalNumber (storeDigits k addr i mem) addr k = i.value % 100 ^ k := by
  induction k generalizing addr i mem with
  | zero => simp [decimalNumber, Nat.mod_one]
  | succ k ih =>
    obtain ⟨tens, ones⟩ := div10_value i
    obtain ⟨rest, second⟩ := div10_value (div10 i).1
    have byte : decimalDigits (((div10 i).2 + (div10 (div10 i).1).2 <<< 4).setWidth 8) = i.value % 100 := by
      have number : (((div10 i).2 + (div10 (div10 i).1).2 <<< 4).setWidth 8).toNat =
          i.value % 10 + 16 * (i.value / 10 % 10) := by
        have low : i.value % 10 < 10 := Nat.mod_lt _ (by decide)
        have high : i.value / 10 % 10 < 10 := Nat.mod_lt _ (by decide)
        rw [BitVec.toNat_setWidth, toNat_add, BitVec.toNat_shiftLeft, Nat.shiftLeft_eq, ones, second, tens]
        generalize i.value % 10 = low at *
        generalize i.value / 10 % 10 = high at *
        omega
      rw [decimalDigits, number]
      omega
    have kept : storeDigits (k + 1) addr i mem addr = ((div10 i).2 + (div10 (div10 i).1).2 <<< 4).setWidth 8 := by
      rw [storeDigits, storeDigits_other, update_self]
      intro j inside same
      rw [add_one_add] at same
      exact Memory.add_ne_self addr (Nat.succ_pos j) (by omega) same.symm
    rw [decimalNumber, kept, byte, storeDigits, ih (by omega), rest, tens, Nat.div_div_eq_div_mul, Nat.pow_succ',
      Nat.mod_mul]

theorem decimalNumber_lt {mem : Memory} {addr : BitVec 32} {k : Nat}
    (packed : ∀ j < k, decimalDigits (mem (addr + BitVec.ofNat 32 j)) < 100) : decimalNumber mem addr k < 100 ^ k := by
  induction k with
  | zero => exact Nat.one_pos
  | succ k ih =>
    have lower := ih fun j inside => packed j (inside.trans (Nat.lt_succ_self k))
    have digits := Nat.mul_le_mul_left (100 ^ k) (packed k (Nat.lt_succ_self k))
    rw [decimalNumber_succ, Nat.pow_succ]
    rw [Nat.mul_succ] at digits
    omega

/-! ### Every integer format -/

def Format.put (format : Format) (tmp : TempReal) (code : Nat) : Emu Unit :=
  match format with
  | real32 => putShortReal tmp code
  | real64 => putLongReal tmp code
  | real80 => putTempReal tmp code
  | int16 => putShortInt tmp code
  | int32 => putLongInt tmp code
  | int64 => putLonglongInt tmp code
  | decimal => putBCD tmp code

def Format.IsInteger (format : Format) : Bool :=
  match format with
  | int16 | int32 | int64 | decimal => true
  | real32 | real64 | real80 => false

def Format.Packed (format : Format) (mem : Memory) (addr : BitVec 32) : Prop :=
  format = decimal → ∀ j < 9, (mem (addr + BitVec.ofNat 32 j)).toNat / 16 ≤ 9 ∧ (mem (addr + BitVec.ofNat 32 j)).toNat % 16 ≤ 9

def Format.Holds (format : Format) (x : ℤ) : Prop :=
  match format with
  | int16 => -2 ^ 15 ≤ x ∧ x < 2 ^ 15
  | int32 => -2 ^ 31 ≤ x ∧ x < 2 ^ 31
  | int64 => -2 ^ 63 ≤ x ∧ x < 2 ^ 63
  | decimal => x.natAbs < 100 ^ 9
  | real32 | real64 | real80 => False

theorem bmod_of_emod {x : ℤ} {n : Nat} (k : Nat) (is : (n : ℤ) = x % (2 ^ (k + 1) : Nat)) (low : -2 ^ k ≤ x)
    (high : x < 2 ^ k) : Int.bmod n (2 ^ (k + 1)) = x := by
  have double : ((2 ^ (k + 1) : Nat) : ℤ) = 2 * 2 ^ k := by
    push_cast
    ring
  rw [is, Int.emod_bmod, Int.bmod_eq_of_le_mul_two (by omega) (by omega)]

theorem natAbs_signed (negative : Bool) (n : Nat) : (signed negative n).natAbs = n := by
  cases negative <;> simp [signed]

section Put

variable {code : Nat} {s : Machine}

theorem put_apply (s : Machine) (memory : code / 64 % 4 ≠ 3) (tmp : TempReal) (store : TempInt → BitVec 32 → Emu Unit) :
    ∃ t, (do
        let addr ← ea code
        let ti ← toInteger tmp
        store ti addr : Emu Unit) s =
      store (realToInt (roundingMode s.i387.cwd) tmp s.i387.swd).1 (effectiveAddress code s) t := by
  obtain ⟨offset, ran⟩ := ea_apply memory s
  rw [bind_apply, ran]
  exact ⟨_, rfl⟩

theorem Format.put_datum {format : Format} {ti : TempInt} (holds : format.Holds (signed ti.sign ti.value))
    (memory : code / 64 % 4 ≠ 3) :
    ∃ t, format.put (intToReal ti) code s = .ok () t ∧
      format.datum t.memory (effectiveAddress code s) = .number (signed ti.sign ti.value) := by
  obtain ⟨value, number⟩ := realToInt_of_integer (roundingMode s.i387.cwd) ti s.i387.swd
  generalize stored : (realToInt (roundingMode s.i387.cwd) (intToReal ti) s.i387.swd).1 = ti' at value number
  cases format with
  | real32 | real64 | real80 => exact holds.elim
  | int16 =>
    obtain ⟨t, ran⟩ := put_apply s memory (intToReal ti) fun ti addr =>
      putFsWord ((if ti.sign then -ti.a else ti.a).setWidth 16) addr
    refine ⟨_, ran, ?_⟩
    rw [stored]
    show Datum.number (Int.bmod (Memory.number _ _ 2) (2 ^ 16)) = _
    rw [← Memory.word_toNat, Memory.word_putWord, ofInt_low, number, bmod_of_emod 15 _ holds.1 holds.2]
    rw [BitVec.toNat_setWidth, toNat_ofInt]
    omega
  | int32 =>
    obtain ⟨t, ran⟩ := put_apply s memory (intToReal ti) fun ti addr =>
      putFsLong (if ti.sign then -ti.a else ti.a) addr
    refine ⟨_, ran, ?_⟩
    rw [stored]
    show Datum.number (Int.bmod (Memory.number _ _ 4) (2 ^ 32)) = _
    rw [← Memory.long_toNat, Memory.long_putLong, ofInt_low, number, bmod_of_emod 31 _ holds.1 holds.2]
    rw [toNat_ofInt]
    omega
  | int64 =>
    obtain ⟨t, ran⟩ := put_apply s memory (intToReal ti) fun ti addr => do
      let ti := if ti.sign then ti.toDoubleWord.negate else ti.toDoubleWord
      putFsLong ti.a addr
      putFsLong ti.b (addr + 4)
    refine ⟨_, ran, ?_⟩
    rw [stored]
    show Datum.number (Int.bmod (Memory.number _ _ 8) (2 ^ 64)) = _
    rw [← longs_value, Memory.long_putLong, Memory.long_putLong_next, Memory.long_putLong,
      bmod_of_emod 63 _ holds.1 holds.2]
    rw [← number]
    exact negate_value ti'
  | decimal =>
    obtain ⟨t, ran⟩ := put_apply s memory (intToReal ti) fun ti addr => do
      putFsByte (if ti.sign then 0x80 else 0) (addr + 9)
      putDigits 9 addr ti.toDoubleWord
    have stores (t : Machine) (sign : BitVec 8) (addr : BitVec 32) (i : DoubleWord 32) :
        (putFsByte sign (addr + 9) >>= fun _ => putDigits 9 addr i) t =
          .ok () { t with memory := storeDigits 9 addr i (update t.memory (addr + 9) sign) } := by
      have first : putFsByte sign (addr + 9) t = .ok () { t with memory := update t.memory (addr + 9) sign } := rfl
      rw [bind_apply, first]
      exact putDigits_apply 9 addr i _
    rw [stored, stores] at ran
    refine ⟨_, ran, congrArg (fun x : ℤ => Datum.number x) ?_⟩
    have small : ti'.value < 100 ^ 9 := by
      have size := natAbs_signed ti.sign ti.value
      rw [value, ← size]
      exact holds
    have sign : (storeDigits 9 (effectiveAddress code s) ti'.toDoubleWord (update t.memory
        (effectiveAddress code s + 9) (if ti'.sign then 0x80 else 0)) (effectiveAddress code s + 9)).msb = ti'.sign := by
      rw [storeDigits_other, update_self]
      · cases ti'.sign <;> rfl
      · intro j inside same
        have number := congrArg BitVec.toNat same
        have nine : (9 : BitVec 32).toNat = 9 := rfl
        rw [toNat_add, toNat_add, toNat_ofNat, nine] at number
        omega
    rw [sign, decimalNumber_storeDigits (by decide), Nat.mod_eq_of_lt small, number]

theorem negated_range (ti : DoubleWord 32) :
    -2 ^ 63 ≤ signed ti.b.msb (if ti.b.msb then ti.negate else ti).value ∧
      signed ti.b.msb (if ti.b.msb then ti.negate else ti).value < 2 ^ 63 := by
  have small := ti.value_lt
  rw [negated_value, DoubleWord.toInt_eq (by decide)]
  omega

theorem Format.operand_holds {format : Format} (integer : format.IsInteger) {mem : Memory} {addr : BitVec 32}
    (packed : format.Packed mem addr) :
    ∃ ti, format.operand mem addr = intToReal ti ∧ format.Holds (signed ti.sign ti.value) ∧
      format.datum mem addr = .number (signed ti.sign ti.value) := by
  have read : (format.operand mem addr).datum = format.datum mem addr := by
    refine (format.operand_datum_iff mem addr).mpr ?_
    cases format with
    | real32 | real64 => exact absurd integer Bool.false_ne_true
    | real80 | int16 | int32 | int64 | decimal => trivial
  have named {ti : TempInt} (is : format.operand mem addr = intToReal ti) :
      format.datum mem addr = .number (signed ti.sign ti.value) := by
    rw [← read, is, intToReal_datum]
  cases format with
  | real32 | real64 | real80 => exact absurd integer Bool.false_ne_true
  | int16 =>
    refine ⟨_, rfl, ?_, named rfl⟩
    rw [signMagnitude_value, BitVec.toInt_signExtend_of_le (by decide)]
    exact ⟨BitVec.le_toInt _, BitVec.toInt_lt⟩
  | int32 =>
    refine ⟨_, rfl, ?_, named rfl⟩
    rw [signMagnitude_value]
    exact ⟨BitVec.le_toInt _, BitVec.toInt_lt⟩
  | int64 =>
    refine ⟨_, rfl, ?_, named rfl⟩
    exact negated_range ⟨mem.long addr, mem.long (addr + 4)⟩
  | decimal =>
    refine ⟨_, rfl, ?_, named rfl⟩
    have digits : decimalNumber mem addr 9 < 100 ^ 9 := by
      refine decimalNumber_lt fun j inside => ?_
      obtain ⟨tens, ones⟩ := packed rfl j inside
      rw [decimalDigits]
      omega
    have fits : (signed (mem (addr + 9)).msb (digitWords mem 9 (addr + 9 - 1) ⟨0, 0⟩).value).natAbs < 100 ^ 9 := by
      rw [decimal_value]
      exact (natAbs_signed _ _).trans_lt digits
    rw [← sign_byte] at fits
    exact fits

/-- What is put into memory is the number that was read, whatever the rounding mode. -/
theorem get_put_datum {format : Format} (integer : format.IsInteger) {code code' : Nat} (memory : code / 64 % 4 ≠ 3)
    (memory' : code' / 64 % 4 ≠ 3) (s s' : Machine) (packed : format.Packed s.memory (effectiveAddress code s)) :
    ∃ tmp t t', format.get code s = .ok tmp t ∧ format.put tmp code' s' = .ok () t' ∧
      format.datum t'.memory (effectiveAddress code' s') = format.datum s.memory (effectiveAddress code s) := by
  obtain ⟨offset, got⟩ := format.get_apply memory s
  obtain ⟨ti, is, holds, number⟩ := Format.operand_holds integer packed
  obtain ⟨t', put, stored⟩ := Format.put_datum holds memory'
  exact ⟨intToReal ti, _, t', by rw [got, is], put, stored.trans number.symm⟩

def eighteenDigits : Machine := task [0x11, 0x22, 0x33, 0x44, 0x55, 0x66, 0x77, 0x88, 0x99, 0x80]

theorem get_put_datum_digits :
    ∃ tmp t t', Format.decimal.get 0 eighteenDigits = .ok tmp t ∧ Format.decimal.put tmp 0 (task []) = .ok () t' ∧
      Format.decimal.datum t'.memory (effectiveAddress 0 (task [])) =
        Format.decimal.datum eighteenDigits.memory (effectiveAddress 0 eighteenDigits) :=
  get_put_datum rfl (by decide) (by decide) eighteenDigits (task []) fun _ => by decide

end Put

end Linux012.Math

import Mathlib.Tactic.LinearCombination
import Mathlib.Tactic.Ring

/-! Numbers of two and of four machine words, with operations that go from word to word
through a carry. -/

set_option autoImplicit false

namespace CarryWords

open BitVec (toNat_and getLsbD_and toNat_ushiftRight eq_of_toNat_eq)
open Nat (mod_eq_of_lt two_pow_pos)

variable {w : Nat}

structure Flagged (w : Nat) where
  word : BitVec w
  carry : Bool

def addCarry (x y : BitVec w) (carry : Bool) : Flagged w :=
  ⟨x + y + (BitVec.ofBool carry).setWidth w, decide (2 ^ w ≤ x.toNat + y.toNat + carry.toNat)⟩

def subBorrow (x y : BitVec w) (borrow : Bool) : Flagged w :=
  ⟨x - y - (BitVec.ofBool borrow).setWidth w, decide (x.toNat < y.toNat + borrow.toNat)⟩

def rotateRight (x : BitVec w) (carry : Bool) : Flagged w :=
  ⟨x >>> 1 ||| (BitVec.ofBool carry).setWidth w <<< (w - 1), x.getLsbD 0⟩

theorem addCarry_value (x y : BitVec w) (carry : Bool) :
    (addCarry x y carry).word.toNat + 2 ^ w * (addCarry x y carry).carry.toNat = x.toNat + y.toNat + carry.toNat := by
  have word : (addCarry x y carry).word.toNat = (x.toNat + y.toNat + carry.toNat) % 2 ^ w := by
    simp [addCarry, BitVec.toNat_add]
  have small : x.toNat + y.toNat + carry.toNat < 2 * 2 ^ w := by
    have := x.isLt
    have := y.isLt
    have := carry.toNat_le
    omega
  rw [word]
  by_cases overflows : 2 ^ w ≤ x.toNat + y.toNat + carry.toNat
  · have carried : (addCarry x y carry).carry = true := decide_eq_true overflows
    rw [Nat.mod_eq_sub_mod overflows, mod_eq_of_lt (by omega), carried, Bool.toNat_true]
    omega
  · have carried : (addCarry x y carry).carry = false := decide_eq_false overflows
    rw [mod_eq_of_lt (by omega), carried, Bool.toNat_false]
    omega

theorem subBorrow_value (x y : BitVec w) (borrow : Bool) :
    (subBorrow x y borrow).word.toNat + y.toNat + borrow.toNat =
      x.toNat + 2 ^ w * (subBorrow x y borrow).carry.toNat := by
  have word : (subBorrow x y borrow).word.toNat =
      (2 ^ w - borrow.toNat % 2 ^ w + (2 ^ w - y.toNat + x.toNat)) % 2 ^ w := by
    simp [subBorrow, BitVec.toNat_sub]
  have xSmall := x.isLt
  have ySmall := y.isLt
  have flag := borrow.toNat_le
  cases w with
  | zero => cases borrow <;> simp [subBorrow, BitVec.of_length_zero]
  | succ w =>
    have wide : 2 ≤ 2 ^ (w + 1) := Nat.le_self_pow (Nat.succ_ne_zero w) 2
    rw [mod_eq_of_lt (a := borrow.toNat) (by omega)] at word
    by_cases under : x.toNat < y.toNat + borrow.toNat
    · have borrowed : (subBorrow x y borrow).carry = true := decide_eq_true under
      rw [Nat.mod_eq_sub_mod (by omega), mod_eq_of_lt (by omega)] at word
      rw [word, borrowed, Bool.toNat_true]
      omega
    · have borrowed : (subBorrow x y borrow).carry = false := decide_eq_false under
      rw [Nat.mod_eq_sub_mod (by omega), Nat.mod_eq_sub_mod (by omega), mod_eq_of_lt (by omega)] at word
      rw [word, borrowed, Bool.toNat_false]
      omega

theorem toNat_or_of_lt {x y : BitVec w} {n k : Nat} (low : x.toNat < 2 ^ n) (high : y.toNat = 2 ^ n * k) :
    (x ||| y).toNat = x.toNat + y.toNat := by
  rw [BitVec.toNat_or, high, Nat.or_comm, ← Nat.two_pow_add_eq_or_of_lt low, Nat.add_comm]

theorem toNat_or_top (x : BitVec (w + 1)) :
    (x ||| BitVec.twoPow (w + 1) w).toNat = x.toNat % 2 ^ w + 2 ^ w := by
  have top : (BitVec.twoPow (w + 1) w).toNat = 2 ^ w * 1 := by
    rw [BitVec.toNat_twoPow, Nat.mul_one, mod_eq_of_lt (Nat.pow_lt_pow_succ one_lt_two)]
  have low : (x &&& BitVec.ofNat (w + 1) (2 ^ w - 1)).toNat = x.toNat % 2 ^ w := by
    have wide : 2 ^ w < 2 ^ (w + 1) := Nat.pow_lt_pow_succ one_lt_two
    rw [toNat_and, BitVec.toNat_ofNat, mod_eq_of_lt (by omega), Nat.and_two_pow_sub_one_eq_mod]
  have cleared : x ||| BitVec.twoPow (w + 1) w =
      (x &&& BitVec.ofNat (w + 1) (2 ^ w - 1)) ||| BitVec.twoPow (w + 1) w := by
    apply BitVec.eq_of_getLsbD_eq
    intro i small
    simp only [BitVec.getLsbD_or, getLsbD_and, BitVec.getLsbD_twoPow, BitVec.getLsbD_ofNat,
      Nat.testBit_two_pow_sub_one]
    by_cases last : w = i
    · simp [last]
    · simp [last, small, show i < w by omega]
  rw [cleared, toNat_or_of_lt (by rw [low]; exact Nat.mod_lt _ (two_pow_pos w)) top, low, top, Nat.mul_one]

theorem toNat_and_mask {x mask : BitVec w} {n k : Nat} (is : mask.toNat = 2 ^ n * (2 ^ k - 1)) :
    (x &&& mask).toNat = 2 ^ n * (x.toNat / 2 ^ n % 2 ^ k) := by
  rw [toNat_and, is]
  apply Nat.eq_of_testBit_eq
  intro i
  rw [Nat.testBit_and, Nat.testBit_two_pow_mul, Nat.testBit_two_pow_mul, Nat.testBit_two_pow_sub_one,
    Nat.testBit_mod_two_pow, Nat.testBit_div_two_pow]
  by_cases low : n ≤ i
  · rw [Nat.sub_add_cancel low]
    cases x.toNat.testBit i <;> simp [low]
  · simp [low]

theorem toNat_sshiftRight_and {x mask : BitVec w} {n k : Nat} (is : mask.toNat = 2 ^ k - 1) (inside : n + k ≤ w) :
    (x.sshiftRight n &&& mask).toNat = x.toNat / 2 ^ n % 2 ^ k := by
  have same : x.sshiftRight n &&& mask = x >>> n &&& mask := by
    apply BitVec.eq_of_getLsbD_eq
    intro i small
    rw [getLsbD_and, getLsbD_and, BitVec.getLsbD_sshiftRight, BitVec.getLsbD_ushiftRight]
    by_cases low : i < k
    · simp [not_le.mpr small, show n + i < w by omega]
    · have clear : mask.getLsbD i = false := by
        rw [BitVec.getLsbD, is, Nat.testBit_two_pow_sub_one, decide_eq_false low]
      rw [clear, Bool.and_false, Bool.and_false]
  rw [same, toNat_and, toNat_ushiftRight, is, Nat.and_two_pow_sub_one_eq_mod, Nat.shiftRight_eq_div_pow]

theorem toNat_ofBool_setWidth (positive : 0 < w) (carry : Bool) :
    ((BitVec.ofBool carry).setWidth w).toNat = carry.toNat := by
  have wide : 2 ≤ 2 ^ w := Nat.le_self_pow (by omega) 2
  have flag := carry.toNat_le
  rw [BitVec.toNat_setWidth, BitVec.toNat_ofBool, mod_eq_of_lt (by omega)]

theorem rotateRight_value (positive : 0 < w) (x : BitVec w) (carry : Bool) :
    2 * (rotateRight x carry).word.toNat + (rotateRight x carry).carry.toNat = x.toNat + 2 ^ w * carry.toNat := by
  obtain ⟨w, rfl⟩ : ∃ v, w = v + 1 := ⟨w - 1, by omega⟩
  have xSmall := x.isLt
  have half : (x >>> 1).toNat = x.toNat / 2 := by
    rw [toNat_ushiftRight, Nat.shiftRight_one]
  have top : ((BitVec.ofBool carry).setWidth (w + 1) <<< w).toNat = 2 ^ w * carry.toNat := by
    rw [BitVec.toNat_shiftLeft, toNat_ofBool_setWidth positive, Nat.shiftLeft_eq, Nat.mul_comm, mod_eq_of_lt]
    calc 2 ^ w * carry.toNat ≤ 2 ^ w * 1 := Nat.mul_le_mul_left _ carry.toNat_le
      _ < 2 ^ (w + 1) := by rw [Nat.pow_succ]; have := two_pow_pos w; omega
  have lost : (x.getLsbD 0).toNat = x.toNat % 2 := by
    rw [BitVec.getLsbD, Nat.testBit_zero]
    cases Nat.mod_two_eq_zero_or_one x.toNat with
    | inl even => simp [even]
    | inr odd => simp [odd]
  have word : (rotateRight x carry).word.toNat = x.toNat / 2 + 2 ^ w * carry.toNat := by
    rw [← half, ← top]
    exact toNat_or_of_lt (by rw [half]; omega) top
  have out : (rotateRight x carry).carry.toNat = x.toNat % 2 := lost
  rw [word, out, Nat.pow_succ]
  have := Nat.div_add_mod x.toNat 2
  linear_combination this

/-! ## Two words -/

structure DoubleWord (w : Nat) where
  a : BitVec w
  b : BitVec w
deriving DecidableEq

namespace DoubleWord

def value (p : DoubleWord w) : Nat := p.a.toNat + 2 ^ w * p.b.toNat

def toInt (p : DoubleWord w) : ℤ := (p.value : ℤ).bmod (2 ^ (2 * w))

def addCarry (p q : DoubleWord w) (carry : Bool) : DoubleWord w :=
  let low := CarryWords.addCarry p.a q.a carry
  ⟨low.word, (CarryWords.addCarry p.b q.b low.carry).word⟩

def add (p q : DoubleWord w) : DoubleWord w := p.addCarry q false

def double (p : DoubleWord w) : DoubleWord w := p.add p

def increment (p : DoubleWord w) : DoubleWord w := p.add ⟨1, 0⟩

def negate (p : DoubleWord w) : DoubleWord w := increment ⟨~~~p.a, ~~~p.b⟩

def shiftRight (p : DoubleWord w) (n : Nat) : DoubleWord w :=
  ⟨p.a >>> n ||| p.b <<< (w - n), p.b >>> n⟩

def mull (x y : BitVec w) : DoubleWord w :=
  ⟨.ofNat w (x.toNat * y.toNat), .ofNat w (x.toNat * y.toNat / 2 ^ w)⟩

variable {p q : DoubleWord w}

theorem value_lt (p : DoubleWord w) : p.value < 2 ^ (2 * w) := by
  have low := p.a.isLt
  have high : 2 ^ w * p.b.toNat + 2 ^ w ≤ 2 ^ w * 2 ^ w := by
    rw [← Nat.mul_succ]
    exact Nat.mul_le_mul_left _ p.b.isLt
  rw [Nat.two_mul, Nat.pow_add, value]
  omega

theorem value_inj : p.value = q.value ↔ p = q := by
  constructor
  · intro same
    have pLow := p.a.isLt
    have qLow := q.a.isLt
    obtain ⟨pa, pb⟩ := p
    obtain ⟨qa, qb⟩ := q
    simp only [value] at same pLow qLow
    have low : pa.toNat = qa.toNat := by
      have := congrArg (· % 2 ^ w) same
      simpa [Nat.add_mul_mod_self_left, mod_eq_of_lt] using this
    have high : pb.toNat = qb.toNat := by
      have := congrArg (· / 2 ^ w) same
      simpa [Nat.add_mul_div_left, two_pow_pos, Nat.div_eq_of_lt pLow, Nat.div_eq_of_lt qLow] using this
    rw [eq_of_toNat_eq low, eq_of_toNat_eq high]
  · rintro rfl
    rfl

theorem eq_mod_of_carry {v m c n : Nat} (sum : v + m * c = n) (small : v < m) : v = n % m := by
  rw [← sum, Nat.add_mul_mod_self_left, mod_eq_of_lt small]

theorem value_addCarry (p q : DoubleWord w) (carry : Bool) :
    (p.addCarry q carry).value = (p.value + q.value + carry.toNat) % 2 ^ (2 * w) := by
  have low := addCarry_value p.a q.a carry
  have high := addCarry_value p.b q.b (CarryWords.addCarry p.a q.a carry).carry
  refine eq_mod_of_carry (c := (CarryWords.addCarry p.b q.b (CarryWords.addCarry p.a q.a carry).carry).carry.toNat)
    ?_ (value_lt _)
  rw [Nat.two_mul, Nat.pow_add]
  simp only [addCarry, value]
  linear_combination low + 2 ^ w * high

theorem value_add (p q : DoubleWord w) : (p.add q).value = (p.value + q.value) % 2 ^ (2 * w) :=
  value_addCarry p q false

theorem add_comm (p q : DoubleWord w) : p.add q = q.add p := by
  rw [← value_inj, value_add, value_add, Nat.add_comm]

theorem value_double (p : DoubleWord w) : p.double.value = 2 * p.value % 2 ^ (2 * w) := by
  rw [double, value_add, Nat.two_mul p.value]

theorem value_increment (positive : 0 < w) (p : DoubleWord w) :
    p.increment.value = (p.value + 1) % 2 ^ (2 * w) := by
  have wide : 1 < 2 ^ w := Nat.one_lt_two_pow (by omega)
  rw [increment, value_add]
  simp [value, BitVec.toNat_one positive]

theorem value_negate (positive : 0 < w) (p : DoubleWord w) :
    p.negate.value = (2 ^ (2 * w) - p.value) % 2 ^ (2 * w) := by
  have flip (x : BitVec w) : (~~~x).toNat + x.toNat + 1 = 2 ^ w := by
    have := x.isLt
    rw [BitVec.toNat_not]
    omega
  have flipped : value ⟨~~~p.a, ~~~p.b⟩ + p.value + 1 = 2 ^ (2 * w) := by
    rw [Nat.two_mul, Nat.pow_add]
    simp only [value]
    linear_combination flip p.a + 2 ^ w * flip p.b
  rw [negate, value_increment positive]
  congr 1
  omega

theorem value_shiftRight {n : Nat} (inside : n < w) (p : DoubleWord w) :
    (p.shiftRight n).value = p.value / 2 ^ n := by
  obtain ⟨k, rfl⟩ : ∃ k, w = n + k := ⟨w - n, by omega⟩
  have kept : (p.a >>> n).toNat = p.a.toNat / 2 ^ n := by
    rw [toNat_ushiftRight, Nat.shiftRight_eq_div_pow]
  have taken : (p.b <<< k).toNat = 2 ^ k * (p.b.toNat % 2 ^ n) := by
    rw [BitVec.toNat_shiftLeft, Nat.shiftLeft_eq, Nat.pow_add, Nat.mul_mod_mul_right, Nat.mul_comm]
  have small : (p.a >>> n).toNat < 2 ^ k := by
    rw [kept, Nat.div_lt_iff_lt_mul (two_pow_pos n), Nat.mul_comm, ← Nat.pow_add]
    exact p.a.isLt
  have low : (p.shiftRight n).a.toNat = p.a.toNat / 2 ^ n + 2 ^ k * (p.b.toNat % 2 ^ n) := by
    rw [← kept, ← taken, shiftRight, Nat.add_sub_cancel_left]
    exact toNat_or_of_lt small taken
  have high : (p.shiftRight n).b.toNat = p.b.toNat / 2 ^ n := by
    rw [shiftRight, toNat_ushiftRight, Nat.shiftRight_eq_div_pow]
  have split := Nat.mod_add_div p.b.toNat (2 ^ n)
  rw [value, value, low, high, Nat.pow_add, Nat.mul_assoc (2 ^ n), Nat.mul_assoc (2 ^ n),
    Nat.add_mul_div_left _ _ (two_pow_pos n)]
  linear_combination 2 ^ k * split

theorem shiftRight_zero (positive : 0 < w) (p : DoubleWord w) : p.shiftRight 0 = p := by
  rw [← value_inj, value_shiftRight positive, Nat.pow_zero, Nat.div_one]

theorem toInt_add (p q : DoubleWord w) : (p.add q).toInt = (p.toInt + q.toInt).bmod (2 ^ (2 * w)) := by
  rw [toInt, value_add, Int.natCast_mod, Int.emod_bmod, Nat.cast_add, toInt, toInt, Int.bmod_add_bmod,
    Int.add_bmod_bmod]

theorem toInt_negate (positive : 0 < w) (p : DoubleWord w) :
    p.negate.toInt = (-p.toInt).bmod (2 ^ (2 * w)) := by
  rw [toInt, value_negate positive, Int.natCast_mod, Int.emod_bmod, Nat.cast_sub p.value_lt.le, toInt,
    Int.bmod_neg_bmod, Int.sub_bmod_left]

theorem toInt_eq (positive : 0 < w) (p : DoubleWord w) :
    p.toInt = if 2 ^ (2 * w - 1) ≤ p.value then (p.value : ℤ) - (2 ^ (2 * w) : Nat) else p.value := by
  have small := p.value_lt
  have even : 2 ^ (2 * w) = 2 * 2 ^ (2 * w - 1) := by
    rw [← Nat.pow_succ', Nat.succ_eq_add_one, Nat.sub_add_cancel (by omega)]
  have reduced : (p.value : ℤ) % (2 ^ (2 * w) : Nat) = p.value :=
    Int.emod_eq_of_lt (Int.natCast_nonneg _) (Int.ofNat_lt.mpr small)
  have half : (p.value : ℤ) ≥ ((2 ^ (2 * w) : Nat) + 1) / 2 ↔ 2 ^ (2 * w - 1) ≤ p.value := by omega
  rw [toInt, Int.bmod_eq_emod, reduced]
  by_cases above : 2 ^ (2 * w - 1) ≤ p.value
  · rw [if_pos above, if_pos (half.mpr above)]
  · rw [if_neg above, if_neg (mt half.mp above), Nat.cast_zero, Int.sub_zero]

theorem value_mull (x y : BitVec w) : (mull x y).value = x.toNat * y.toNat := by
  have below : x.toNat * y.toNat / 2 ^ w < 2 ^ w := by
    rw [Nat.div_lt_iff_lt_mul (two_pow_pos w)]
    exact Nat.mul_lt_mul'' x.isLt y.isLt
  simp only [mull, value, BitVec.toNat_ofNat, mod_eq_of_lt below]
  exact Nat.mod_add_div _ _

end DoubleWord

/-! ## Four words -/

structure QuadWord (w : Nat) where
  c0 : BitVec w
  c1 : BitVec w
  c2 : BitVec w
  c3 : BitVec w
deriving DecidableEq

namespace QuadWord

variable {p : QuadWord w}

def value (p : QuadWord w) : Nat := p.c0.toNat + 2 ^ w * (p.c1.toNat + 2 ^ w * (p.c2.toNat + 2 ^ w * p.c3.toNat))

def addCarry (p q : QuadWord w) (carry : Bool) : QuadWord w × Bool :=
  let c0 := CarryWords.addCarry p.c0 q.c0 carry
  let c1 := CarryWords.addCarry p.c1 q.c1 c0.carry
  let c2 := CarryWords.addCarry p.c2 q.c2 c1.carry
  let c3 := CarryWords.addCarry p.c3 q.c3 c2.carry
  (⟨c0.word, c1.word, c2.word, c3.word⟩, c3.carry)

def double (p : QuadWord w) : QuadWord w := (p.addCarry p false).1

def halve (p : QuadWord w) : QuadWord w :=
  let c3 := rotateRight p.c3 false
  let c2 := rotateRight p.c2 c3.carry
  let c1 := rotateRight p.c1 c2.carry
  let c0 := rotateRight p.c0 c1.carry
  ⟨c0.word, c1.word, c2.word, c3.word⟩

def sub (p q : QuadWord w) : QuadWord w × Bool :=
  let c0 := subBorrow p.c0 q.c0 false
  let c1 := subBorrow p.c1 q.c1 c0.carry
  let c2 := subBorrow p.c2 q.c2 c1.carry
  let c3 := subBorrow p.c3 q.c3 c2.carry
  (⟨c0.word, c1.word, c2.word, c3.word⟩, c3.carry)

theorem value_eq_halves (p : QuadWord w) :
    p.value = DoubleWord.value ⟨p.c0, p.c1⟩ + 2 ^ (2 * w) * DoubleWord.value ⟨p.c2, p.c3⟩ := by
  rw [Nat.two_mul, Nat.pow_add]
  simp only [value, DoubleWord.value]
  ring

theorem value_lt (p : QuadWord w) : p.value < 2 ^ (4 * w) := by
  have low := DoubleWord.value_lt ⟨p.c0, p.c1⟩
  have high := DoubleWord.value_lt ⟨p.c2, p.c3⟩
  have room : 2 ^ (2 * w) * DoubleWord.value ⟨p.c2, p.c3⟩ + 2 ^ (2 * w) ≤ 2 ^ (2 * w) * 2 ^ (2 * w) := by
    rw [← Nat.mul_succ]
    exact Nat.mul_le_mul_left _ high
  rw [show 4 * w = 2 * w + 2 * w by omega, Nat.pow_add, value_eq_halves]
  omega

theorem value_inj {q : QuadWord w} : p.value = q.value ↔ p = q := by
  refine ⟨fun same => ?_, congrArg _⟩
  have pLow := DoubleWord.value_lt ⟨p.c0, p.c1⟩
  have qLow := DoubleWord.value_lt ⟨q.c0, q.c1⟩
  rw [value_eq_halves, value_eq_halves] at same
  have low : DoubleWord.value ⟨p.c0, p.c1⟩ = DoubleWord.value ⟨q.c0, q.c1⟩ := by
    have := congrArg (· % 2 ^ (2 * w)) same
    simpa [Nat.add_mul_mod_self_left, mod_eq_of_lt pLow, mod_eq_of_lt qLow] using this
  have high : DoubleWord.value ⟨p.c2, p.c3⟩ = DoubleWord.value ⟨q.c2, q.c3⟩ := by
    rw [low] at same
    exact Nat.eq_of_mul_eq_mul_left (two_pow_pos _) (Nat.add_left_cancel same)
  rw [DoubleWord.value_inj, DoubleWord.mk.injEq] at low high
  obtain ⟨c0, c1, c2, c3⟩ := p
  obtain ⟨d0, d1, d2, d3⟩ := q
  rw [mk.injEq]
  exact ⟨low.1, low.2, high.1, high.2⟩

theorem value_eq_zero_iff : p.value = 0 ↔ p = ⟨0, 0, 0, 0⟩ := by
  constructor
  · intro zero
    obtain ⟨c0, c1, c2, c3⟩ := p
    have positive := two_pow_pos w
    simp only [value, Nat.add_eq_zero_iff, Nat.mul_eq_zero, positive.ne', false_or] at zero
    obtain ⟨low, second, third, high⟩ := zero
    rw [eq_of_toNat_eq (y := 0) low, eq_of_toNat_eq (y := 0) second,
      eq_of_toNat_eq (y := 0) third, eq_of_toNat_eq (y := 0) high]
  · rintro rfl
    simp [value]

theorem addCarry_value (p q : QuadWord w) (carry : Bool) :
    (p.addCarry q carry).1.value + 2 ^ (4 * w) * (p.addCarry q carry).2.toNat = p.value + q.value + carry.toNat := by
  simp only [addCarry, value]
  generalize first : CarryWords.addCarry p.c0 q.c0 carry = k0
  generalize second : CarryWords.addCarry p.c1 q.c1 k0.carry = k1
  generalize third : CarryWords.addCarry p.c2 q.c2 k1.carry = k2
  have c0 := first ▸ CarryWords.addCarry_value p.c0 q.c0 carry
  have c1 := second ▸ CarryWords.addCarry_value p.c1 q.c1 k0.carry
  have c2 := third ▸ CarryWords.addCarry_value p.c2 q.c2 k1.carry
  have c3 := CarryWords.addCarry_value p.c3 q.c3 k2.carry
  linear_combination c0 + 2 ^ w * (c1 + 2 ^ w * (c2 + 2 ^ w * c3))

theorem value_double (p : QuadWord w) : p.double.value = 2 * p.value % 2 ^ (4 * w) := by
  refine DoubleWord.eq_mod_of_carry (c := (p.addCarry p false).2.toNat) ?_ (value_lt _)
  rw [double, addCarry_value, Nat.two_mul]
  rfl

theorem sub_value (p q : QuadWord w) :
    (p.sub q).1.value + q.value = p.value + 2 ^ (4 * w) * (p.sub q).2.toNat := by
  simp only [sub, value]
  generalize first : subBorrow p.c0 q.c0 false = k0
  generalize second : subBorrow p.c1 q.c1 k0.carry = k1
  generalize third : subBorrow p.c2 q.c2 k1.carry = k2
  have c0 := first ▸ subBorrow_value p.c0 q.c0 false
  have c1 := second ▸ subBorrow_value p.c1 q.c1 k0.carry
  have c2 := third ▸ subBorrow_value p.c2 q.c2 k1.carry
  have c3 := subBorrow_value p.c3 q.c3 k2.carry
  rw [Bool.toNat_false] at c0
  linear_combination c0 + 2 ^ w * (c1 + 2 ^ w * (c2 + 2 ^ w * c3))

theorem sub_borrow (p q : QuadWord w) : (p.sub q).2 = decide (p.value < q.value) := by
  have difference := sub_value p q
  have small := value_lt (p.sub q).1
  have qSmall := value_lt q
  cases borrowed : (p.sub q).2 with
  | false =>
    rw [borrowed, Bool.toNat_false] at difference
    exact (decide_eq_false (by omega)).symm
  | true =>
    rw [borrowed, Bool.toNat_true] at difference
    exact (decide_eq_true (by omega)).symm

theorem value_halve (positive : 0 < w) (p : QuadWord w) : p.halve.value = p.value / 2 := by
  have whole : 2 * p.halve.value + (rotateRight p.c0 (rotateRight p.c1 (rotateRight p.c2
      (rotateRight p.c3 false).carry).carry).carry).carry.toNat = p.value := by
    simp only [halve, value]
    generalize first : rotateRight p.c3 false = k3
    generalize second : rotateRight p.c2 k3.carry = k2
    generalize third : rotateRight p.c1 k2.carry = k1
    have c3 := first ▸ rotateRight_value positive p.c3 false
    have c2 := second ▸ rotateRight_value positive p.c2 k3.carry
    have c1 := third ▸ rotateRight_value positive p.c1 k2.carry
    have c0 := rotateRight_value positive p.c0 k1.carry
    rw [Bool.toNat_false] at c3
    linear_combination c0 + 2 ^ w * (c1 + 2 ^ w * (c2 + 2 ^ w * c3))
  have lost := (rotateRight p.c0 (rotateRight p.c1 (rotateRight p.c2
    (rotateRight p.c3 false).carry).carry).carry).carry.toNat_le
  omega

end QuadWord

end CarryWords

import Mathlib.Data.BitVec

/-! Bit fields of a word that are read from another word. -/

set_option autoImplicit false

namespace BitFields

open BitVec (eq_of_getLsbD_eq getLsbD_extractLsb')

variable {w : Nat}

theorem extractLsb'_rotateRight {r start len : Nat} (x : BitVec w) (inside : r + start + len ≤ w) (shorter : r < w) :
    (x.rotateRight r).extractLsb' start len = x.extractLsb' (r + start) len := by
  apply eq_of_getLsbD_eq
  intro i below
  have place : start + i < w - r := by omega
  rw [getLsbD_extractLsb', getLsbD_extractLsb', BitVec.getLsbD_rotateRight_of_lt shorter,
    decide_eq_true place, cond_true, Nat.add_assoc]

theorem extractLsb'_extractLsb' {r n start len : Nat} (x : BitVec w) (inside : start + len ≤ n) :
    (x.extractLsb' r n).extractLsb' start len = x.extractLsb' (r + start) len := by
  apply eq_of_getLsbD_eq
  intro i below
  have place : start + i < n := by omega
  rw [getLsbD_extractLsb', getLsbD_extractLsb', getLsbD_extractLsb', decide_eq_true place,
    Bool.true_and, Nat.add_assoc]

theorem getLsbD_high_nibble (flags : BitVec 8) {i : Nat} (inside : i < 8) :
    (flags &&& 240#8).getLsbD i = (decide (4 ≤ i) && flags.getLsbD i) := by
  have mask : ∀ i < 8, (240#8).getLsbD i = decide (4 ≤ i) := by decide
  rw [BitVec.getLsbD_and, mask i inside, Bool.and_comm]

theorem nibbles_of_or {low : BitVec 8} (flags : BitVec 8) (small : low.toNat < 2 ^ 4) :
    (low ||| flags &&& 240#8).extractLsb' 0 4 = low.extractLsb' 0 4 ∧
      ∀ k n, 4 ≤ k → k + n ≤ 8 → (low ||| flags &&& 240#8).extractLsb' k n = flags.extractLsb' k n := by
  constructor
  · apply eq_of_getLsbD_eq
    intro i below
    have place : ¬4 ≤ 0 + i := by omega
    rw [getLsbD_extractLsb', getLsbD_extractLsb', BitVec.getLsbD_or,
      getLsbD_high_nibble flags (by omega), decide_eq_false place, Bool.false_and, Bool.or_false]
  · intro k n above inside
    apply eq_of_getLsbD_eq
    intro i below
    have high : 4 ≤ k + i := by omega
    have clear : low.getLsbD (k + i) = false :=
      Nat.testBit_lt_two_pow (small.trans_le (Nat.pow_le_pow_right (by decide) high))
    rw [getLsbD_extractLsb', getLsbD_extractLsb', BitVec.getLsbD_or,
      getLsbD_high_nibble flags (by omega), decide_eq_true high, clear, Bool.false_or, Bool.true_and]

end BitFields

import Mathlib.Data.Int.Log
import Mathlib.Algebra.Order.Floor.Ring
import Mathlib.Tactic.Ring
import Mathlib.Tactic.Positivity

/-! Rounding to an integer and to a number of significant bits, in the four usual directions;
binary interchange formats: sign, exponent and fraction of a bit pattern, and the number that a
finite pattern stands for. -/

set_option autoImplicit false

namespace Rounding

inductive Mode where
  | nearest
  | down
  | up
  | towardZero
deriving DecidableEq

def signed (negative : Bool) (n : Nat) : ℤ := if negative then -n else n

theorem signed_eq_mul (negative : Bool) (n : Nat) : signed negative n = (if negative then -1 else 1) * n := by
  cases negative <;> simp [signed]

@[simp] theorem abs_signed (negative : Bool) (n : Nat) : |signed negative n| = n := by
  cases negative <;> simp [signed]

theorem signed_mul (first second : Bool) (m n : Nat) :
    signed first m * signed second n = signed (first ^^ second) (m * n) := by
  cases first <;> cases second <;> simp [signed]

theorem signed_not (negative : Bool) (n : Nat) : signed (!negative) n = -signed negative n := by
  cases negative <;> simp [signed]

theorem signed_natAbs (t : ℤ) : signed (decide (t < 0)) t.natAbs = t := by
  by_cases below : t < 0
  · rw [signed, decide_eq_true below, if_pos rfl]
    omega
  · rw [signed, decide_eq_false below, if_neg Bool.false_ne_true]
    omega

variable {K : Type*} [Field K] [LinearOrder K] [IsStrictOrderedRing K] [FloorRing K]

def nearestEven (x : K) : ℤ :=
  if Int.fract x < 1 / 2 then ⌊x⌋
  else if 1 / 2 < Int.fract x then ⌊x⌋ + 1
  else if Even ⌊x⌋ then ⌊x⌋ else ⌊x⌋ + 1

def roundInt : Mode → K → ℤ
  | .nearest, x => nearestEven x
  | .down, x => ⌊x⌋
  | .up, x => ⌈x⌉
  | .towardZero, x => if 0 ≤ x then ⌊x⌋ else ⌈x⌉

def lastPlace (p : Nat) (x : K) : ℤ := Int.log 2 |x| + 1 - p

def roundTo (p : Nat) (mode : Mode) (x : K) : K :=
  roundInt mode (x / 2 ^ lastPlace p x) * 2 ^ lastPlace p x

theorem nearestEven_eq {x : K} {k : ℤ} (near : |x - k| ≤ 1 / 2) (even : |x - k| = 1 / 2 → Even k) :
    nearestEven x = k := by
  have split := Int.floor_add_fract x
  have below := Int.fract_lt_one x
  have above := Int.fract_nonneg x
  have bounds := abs_le.mp near
  have choice : k = ⌊x⌋ ∨ k = ⌊x⌋ + 1 := by
    have low : ((⌊x⌋ : ℤ) : K) < ((k + 1 : ℤ) : K) := by
      push_cast
      linarith
    have high : (k : K) < ((⌊x⌋ + 2 : ℤ) : K) := by
      push_cast
      linarith
    have := Int.cast_lt.mp low
    have := Int.cast_lt.mp high
    omega
  cases choice with
  | inl down =>
    have distance : |x - k| = Int.fract x := by
      rw [down, abs_of_nonneg (by linarith)]
      linarith
    rw [distance] at near even
    by_cases less : Int.fract x < 1 / 2
    · rw [nearestEven, if_pos less, down]
    · rw [nearestEven, if_neg less, if_neg (by linarith), if_pos (down ▸ even (by linarith)), down]
  | inr up =>
    have distance : |x - k| = 1 - Int.fract x := by
      rw [up, abs_of_nonpos (by push_cast; linarith)]
      push_cast
      linarith
    rw [distance] at near even
    rw [nearestEven, if_neg (by linarith)]
    by_cases more : 1 / 2 < Int.fract x
    · rw [if_pos more, up]
    · have odd : ¬Even ⌊x⌋ := Int.even_add_one.mp (up ▸ even (by linarith))
      rw [if_neg more, if_neg odd, up]

omit [IsStrictOrderedRing K] in
theorem roundInt_towardZero_mono {x y : K} (order : x ≤ y) : roundInt .towardZero x ≤ roundInt .towardZero y := by
  simp only [roundInt]
  split
  · rename_i above
    rw [if_pos (above.trans order)]
    exact Int.floor_mono order
  · rename_i below
    have top : ⌈x⌉ ≤ 0 := Int.ceil_le.mpr (by simpa using (not_le.mp below).le)
    split
    · rename_i above
      exact top.trans (Int.floor_nonneg.mpr above)
    · exact Int.ceil_mono order

/-! ## Quotients of natural numbers -/

/-- The quotient by `d` is rounded away from zero. -/
def roundsAway (mode : Mode) (negative : Bool) (n d : Nat) : Bool :=
  match mode with
  | .nearest => decide (d < 2 * (n % d)) || decide (d = 2 * (n % d)) && decide (n / d % 2 = 1)
  | .down => negative && decide (n % d ≠ 0)
  | .up => !negative && decide (n % d ≠ 0)
  | .towardZero => false

theorem floor_div_natCast (n d : Nat) : ⌊(n : K) / d⌋ = (n / d : Nat) := by
  rw [Int.floor_div_natCast, Int.floor_natCast]
  rfl

variable {d : Nat}

theorem ceil_div_natCast (n : Nat) (positive : 0 < d) :
    ⌈(n : K) / d⌉ = (n / d + (decide (n % d ≠ 0)).toNat : Nat) := by
  have whole : (d : K) * (n / d : Nat) + (n % d : Nat) = n := by exact_mod_cast Nat.div_add_mod n d
  have less : ((n % d : Nat) : K) < d := by exact_mod_cast Nat.mod_lt n positive
  have dPos : (0 : K) < d := by exact_mod_cast positive
  rw [Int.ceil_eq_iff]
  by_cases exact : n % d = 0
  · rw [exact, Nat.cast_zero, add_zero] at whole
    simp only [exact, ne_eq, not_true_eq_false, decide_false, Bool.toNat_false, Nat.add_zero, Int.cast_natCast]
    rw [div_le_iff₀ dPos, lt_div_iff₀ dPos]
    constructor <;> nlinarith
  · have rest : (1 : K) ≤ (n % d : Nat) := by exact_mod_cast Nat.one_le_iff_ne_zero.mpr exact
    simp only [exact, ne_eq, not_false_eq_true, decide_true, Bool.toNat_true]
    rw [div_le_iff₀ dPos, lt_div_iff₀ dPos, Nat.cast_add, Nat.cast_one, Int.cast_add, Int.cast_natCast, Int.cast_one]
    constructor <;> nlinarith

theorem even_signed (negative : Bool) {k : Nat} (even : k % 2 = 0) : Even (signed negative k) := by
  rw [Int.even_iff]
  cases negative <;> simp only [signed] <;> simp <;> omega

theorem nearestEven_div (negative : Bool) (n : Nat) (positive : 0 < d) :
    nearestEven ((signed negative n : K) / d) =
      signed negative (n / d + (roundsAway .nearest negative n d).toNat) := by
  have dPos : (0 : K) < d := by exact_mod_cast positive
  have less : ((n % d : Nat) : K) / d < 1 := (div_lt_one dPos).mpr (by exact_mod_cast Nat.mod_lt n positive)
  have whole : (n : K) / d = (n / d : Nat) + (n % d : Nat) / d := by
    rw [div_eq_iff dPos.ne', add_mul, div_mul_cancel₀ _ dPos.ne', mul_comm]
    exact_mod_cast (Nat.div_add_mod n d).symm
  have distance (k : Nat) : |(signed negative n : K) / d - (signed negative k : ℤ)| = |(n : K) / d - k| := by
    cases negative with
    | false => simp [signed]
    | true =>
      rw [← abs_neg]
      congr 1
      simp [signed, neg_div]
      ring
  have half : ((n % d : Nat) : K) / d ≤ 1 / 2 ↔ 2 * (n % d) ≤ d := by
    rw [div_le_div_iff₀ dPos two_pos]
    norm_cast
    rw [one_mul, Nat.mul_comm]
  have half' : 1 / 2 ≤ ((n % d : Nat) : K) / d ↔ d ≤ 2 * (n % d) := by
    rw [div_le_div_iff₀ two_pos dPos]
    norm_cast
    rw [one_mul, Nat.mul_comm]
  cases away : roundsAway .nearest negative n d with
  | false =>
    simp only [roundsAway, Bool.or_eq_false_iff, Bool.and_eq_false_iff, decide_eq_false_iff_not] at away
    have size : |(n : K) / d - (n / d : Nat)| = (n % d : Nat) / d := by
      rw [whole, add_sub_cancel_left, abs_of_nonneg (by positivity)]
    apply nearestEven_eq
    · rw [Bool.toNat_false, Nat.add_zero, distance, size, half]
      omega
    · rw [Bool.toNat_false, Nat.add_zero, distance, size]
      intro middle
      have := half'.mp middle.ge
      exact even_signed negative (by omega)
  | true =>
    simp only [roundsAway, Bool.or_eq_true, Bool.and_eq_true, decide_eq_true_eq] at away
    have size : |(n : K) / d - (n / d + 1 : Nat)| = 1 - (n % d : Nat) / d := by
      rw [whole, Nat.cast_add, Nat.cast_one, abs_of_nonpos (by linarith)]
      ring
    apply nearestEven_eq
    · rw [Bool.toNat_true, distance, size]
      have := half'.mpr (by omega)
      linarith
    · rw [Bool.toNat_true, distance, size]
      intro middle
      have := half.mp (by linarith)
      exact even_signed negative (by omega)

theorem roundInt_div (mode : Mode) (negative : Bool) (n : Nat) (positive : 0 < d) :
    roundInt mode ((signed negative n : K) / d) = signed negative (n / d + (roundsAway mode negative n d).toNat) := by
  have dPos : (0 : K) < d := by exact_mod_cast positive
  have up := ceil_div_natCast (K := K) n positive
  have down := floor_div_natCast (K := K) n d
  cases mode with
  | nearest => exact nearestEven_div negative n positive
  | down =>
    cases negative with
    | false => simpa [roundInt, signed, roundsAway] using down
    | true =>
      rw [roundInt, signed, if_pos rfl, Int.cast_neg, Int.cast_natCast, neg_div, Int.floor_neg, up, signed,
        if_pos rfl, roundsAway, Bool.true_and]
  | up =>
    cases negative with
    | false =>
      rw [roundInt, signed, if_neg Bool.false_ne_true, Int.cast_natCast, up, signed, if_neg Bool.false_ne_true,
        roundsAway, Bool.not_false, Bool.true_and]
    | true => simpa [roundInt, signed, roundsAway, neg_div, Int.ceil_neg] using down
  | towardZero =>
    have size : (0 : K) ≤ n / d := by positivity
    cases negative with
    | false => simpa [roundInt, signed, roundsAway, size] using down
    | true =>
      have toCeil : roundInt .towardZero ((signed true n : K) / d) = ⌈(signed true n : K) / d⌉ := by
        rw [roundInt]
        split
        · rename_i above
          have none : (n : K) / d = 0 := by
            refine le_antisymm ?_ size
            simpa [signed, neg_div] using above
          simp [signed, neg_div, none]
        · rfl
      rw [toCeil]
      simpa [signed, roundsAway, neg_div, Int.ceil_neg] using down

/-! ## Lost parts -/

/-- Rounding the quotient by `d` of the units of `l` in `n` does not need the part of `n` below them. -/
def RestUnseen (mode : Mode) (negative : Bool) (n l d : Nat) : Prop :=
  match mode with
  | .nearest => ¬(n % l ≠ 0 ∧ 2 * (n / l % d) = d ∧ n / l / d % 2 = 0)
  | .down => ¬(negative = true ∧ n % l ≠ 0 ∧ n / l % d = 0)
  | .up => ¬(negative = false ∧ n % l ≠ 0 ∧ n / l % d = 0)
  | .towardZero => True

instance (mode : Mode) (negative : Bool) (n l d : Nat) : Decidable (RestUnseen mode negative n l d) :=
  match mode with
  | .nearest => inferInstanceAs (Decidable (¬_))
  | .down => inferInstanceAs (Decidable (¬_))
  | .up => inferInstanceAs (Decidable (¬_))
  | .towardZero => inferInstanceAs (Decidable True)

theorem roundsAway_mul (mode : Mode) (negative : Bool) (n d : Nat) {c : Nat} (positive : 0 < c) :
    roundsAway mode negative (n * c) (d * c) = roundsAway mode negative n d := by
  have half (k : Nat) : d * c < 2 * (k * c) ↔ d < 2 * k := by
    rw [← Nat.mul_assoc, Nat.mul_lt_mul_right positive]
  have middle (k : Nat) : d * c = 2 * (k * c) ↔ d = 2 * k := by
    rw [← Nat.mul_assoc, Nat.mul_left_inj positive.ne']
  cases mode with
  | nearest => simp only [roundsAway, Nat.mul_mod_mul_right, Nat.mul_div_mul_right _ _ positive, half, middle]
  | down | up => simp only [roundsAway, Nat.mul_mod_mul_right, ne_eq, Nat.mul_eq_zero, positive.ne', or_false]
  | towardZero => rfl

theorem roundsAway_div_iff (mode : Mode) (negative : Bool) (n : Nat) {l : Nat} (positive : 0 < l)
    (even : d % 2 = 0) :
    roundsAway mode negative (n / l) d = roundsAway mode negative n (l * d) ↔ RestUnseen mode negative n l d := by
  have rest : n % (l * d) = n % l + l * (n / l % d) := Nat.mod_mul
  have whole : n / (l * d) = n / l / d := (Nat.div_div_eq_div_mul n l d).symm
  have below := Nat.mod_lt n positive
  have none : n % l + l * (n / l % d) = 0 ↔ n % l = 0 ∧ n / l % d = 0 := by
    rw [Nat.add_eq_zero_iff, Nat.mul_eq_zero, or_iff_right positive.ne']
  rw [Bool.eq_iff_iff]
  cases mode with
  | nearest =>
    obtain ⟨half, rfl⟩ : ∃ half, d = 2 * half := ⟨d / 2, by omega⟩
    have twice : l * (2 * half) = 2 * (l * half) := by ring
    simp only [roundsAway, RestUnseen, rest, whole, Bool.or_eq_true, Bool.and_eq_true, decide_eq_true_iff]
    rw [twice]
    generalize n / l % (2 * half) = kept
    rcases Nat.lt_trichotomy kept half with less | rfl | more
    · have room := Nat.mul_le_mul_left l less
      rw [Nat.mul_succ] at room
      omega
    · omega
    · have room := Nat.mul_le_mul_left l more
      rw [Nat.mul_succ] at room
      omega
  | down =>
    simp only [roundsAway, RestUnseen, rest, Bool.and_eq_true, decide_eq_true_iff]
    tauto
  | up =>
    simp only [roundsAway, RestUnseen, rest, Bool.and_eq_true, decide_eq_true_iff, Bool.not_eq_true']
    tauto
  | towardZero => exact iff_of_true Iff.rfl trivial

/-! ## Significant bits -/

theorem roundTo_eq {p : Nat} {x m : K} {e : ℤ} (mode : Mode) (is : x = m * 2 ^ e) (low : 2 ^ p ≤ 2 * |m|)
    (high : |m| < 2 ^ p) : roundTo p mode x = roundInt mode m * 2 ^ e := by
  have place : (0 : K) < 2 ^ e := zpow_pos two_pos e
  have size : |x| = |m| * 2 ^ e := by rw [is, abs_mul, abs_of_pos place]
  have top : (0 : K) < 2 ^ p := by positivity
  have mPos : 0 < |m| := by linarith
  have xPos : 0 < |x| := by
    rw [size]
    exact mul_pos mPos place
  have bound : (2 : K) ^ (p + e) = 2 ^ p * 2 ^ e := by rw [zpow_add₀ two_ne_zero, zpow_natCast]
  have log : Int.log 2 |x| = p - 1 + e := by
    apply le_antisymm
    · have below : |x| < (2 : Nat) ^ (p + e) := by
        rw [Nat.cast_ofNat, bound, size]
        exact mul_lt_mul_of_pos_right high place
      have := (Int.lt_zpow_iff_log_lt one_lt_two xPos).mp below
      omega
    · refine (Int.zpow_le_iff_le_log one_lt_two xPos).mp ?_
      rw [Nat.cast_ofNat, show (p : ℤ) - 1 + e = p + e - 1 by omega, zpow_sub_one₀ two_ne_zero, bound, size,
        mul_inv_le_iff₀ two_pos]
      nlinarith
  have last : lastPlace p x = e := by
    rw [lastPlace, log]
    omega
  rw [roundTo, last, is, mul_div_cancel_right₀ _ place.ne']

end Rounding

open Rounding

structure BinaryFormat where
  fractionBits : Nat
  exponentBits : Nat
deriving DecidableEq

namespace BinaryFormat

variable (F : BinaryFormat)

def bias : Nat := 2 ^ (F.exponentBits - 1) - 1

def magnitude (n : Nat) : Nat := n % 2 ^ (F.fractionBits + F.exponentBits)

def negative (n : Nat) : Bool := decide (n / 2 ^ (F.fractionBits + F.exponentBits) % 2 = 1)

def exponent (n : Nat) : Nat := F.magnitude n / 2 ^ F.fractionBits

def fraction (n : Nat) : Nat := F.magnitude n % 2 ^ F.fractionBits

def Finite (n : Nat) : Prop := F.exponent n ≠ 2 ^ F.exponentBits - 1

instance (n : Nat) : Decidable (F.Finite n) := inferInstanceAs (Decidable (_ ≠ _))

variable (K : Type*) [Field K]

def value (n : Nat) : K :=
  if F.exponent n = 0 then signed (F.negative n) (F.fraction n) * 2 ^ (1 - (F.bias : ℤ) - F.fractionBits)
  else signed (F.negative n) (2 ^ F.fractionBits + F.fraction n) *
    2 ^ ((F.exponent n : ℤ) - F.bias - F.fractionBits)

variable {F} {n m : Nat} {sign : Bool}

theorem fields_of_pack (small : m < 2 ^ (F.fractionBits + F.exponentBits))
    (is : n = 2 ^ (F.fractionBits + F.exponentBits) * sign.toNat + m) : F.negative n = sign ∧ F.magnitude n = m := by
  have positive := Nat.two_pow_pos (F.fractionBits + F.exponentBits)
  constructor
  · rw [negative, is, Nat.mul_add_div positive, Nat.div_eq_of_lt small, Nat.add_zero]
    cases sign <;> rfl
  · rw [magnitude, is, Nat.mul_add_mod, Nat.mod_eq_of_lt small]

theorem value_of_pack [CharZero K] {e k : Nat} (normal : 0 < e) (room : k ≤ 2 ^ F.fractionBits)
    (small : e * 2 ^ F.fractionBits + k < 2 ^ (F.fractionBits + F.exponentBits))
    (is : n = 2 ^ (F.fractionBits + F.exponentBits) * sign.toNat + (e * 2 ^ F.fractionBits + k)) :
    F.value K n = signed sign (2 ^ F.fractionBits + k) * 2 ^ ((e : ℤ) - F.bias - F.fractionBits) := by
  have two : (2 : K) ≠ 0 := OfNat.ofNat_ne_zero 2
  have positive := Nat.two_pow_pos F.fractionBits
  obtain ⟨negative, magnitude⟩ := fields_of_pack small is
  by_cases carry : k = 2 ^ F.fractionBits
  · have exponent : F.exponent n = e + 1 := by
      rw [BinaryFormat.exponent, magnitude, carry, ← Nat.succ_mul, Nat.mul_div_cancel _ positive]
    have fraction : F.fraction n = 0 := by
      rw [BinaryFormat.fraction, magnitude, carry, ← Nat.succ_mul, Nat.mul_mod_left]
    rw [value, exponent, if_neg (Nat.succ_ne_zero e), negative, fraction, carry, signed_eq_mul, signed_eq_mul,
      show ((e + 1 : Nat) : ℤ) - F.bias - F.fractionBits = 1 + ((e : ℤ) - F.bias - F.fractionBits) by omega,
      zpow_add₀ two]
    push_cast
    ring
  · have inside : k < 2 ^ F.fractionBits := by omega
    have exponent : F.exponent n = e := by
      rw [BinaryFormat.exponent, magnitude, Nat.mul_comm, Nat.mul_add_div positive, Nat.div_eq_of_lt inside,
        Nat.add_zero]
    have fraction : F.fraction n = k := by
      rw [BinaryFormat.fraction, magnitude, Nat.mul_comm, Nat.mul_add_mod, Nat.mod_eq_of_lt inside]
    rw [value, exponent, if_neg (by omega), negative, fraction]

theorem value_eq_leading_iff [CharZero K] :
    F.value K n = signed (F.negative n) (2 ^ F.fractionBits + F.fraction n) *
      2 ^ ((F.exponent n : ℤ) - F.bias - F.fractionBits) ↔ F.exponent n ≠ 0 := by
  have two : (2 : K) ≠ 0 := OfNat.ofNat_ne_zero 2
  rw [value]
  constructor
  · intro same zero
    rw [if_pos zero, zero, show 1 - (F.bias : ℤ) - F.fractionBits = 1 + (((0 : Nat) : ℤ) - F.bias - F.fractionBits) by
      omega, zpow_add₀ two, zpow_one, ← mul_assoc] at same
    have doubled := mul_right_cancel₀ (zpow_ne_zero _ two) same
    have small : F.fraction n < 2 ^ F.fractionBits := Nat.mod_lt _ (Nat.two_pow_pos _)
    have whole : signed (F.negative n) (F.fraction n) * 2 =
        signed (F.negative n) (2 ^ F.fractionBits + F.fraction n) := by exact_mod_cast doubled
    cases sign : F.negative n with
    | false =>
      simp only [sign, signed, Bool.false_eq_true, if_false] at whole
      omega
    | true =>
      simp only [sign, signed, if_true] at whole
      omega
  · intro nonzero
    rw [if_neg nonzero]

theorem finite_of_magnitude_zero (wide : F.exponentBits ≠ 0) (zero : F.magnitude n = 0) : F.Finite n := by
  have two : 2 ^ 1 ≤ 2 ^ F.exponentBits := Nat.pow_le_pow_right (by decide) (Nat.pos_of_ne_zero wide)
  rw [Finite, exponent, zero, Nat.zero_div]
  omega

theorem value_of_magnitude_zero (zero : F.magnitude n = 0) : F.value K n = 0 := by
  have exponent : F.exponent n = 0 := by rw [BinaryFormat.exponent, zero, Nat.zero_div]
  have fraction : F.fraction n = 0 := by rw [BinaryFormat.fraction, zero, Nat.zero_mod]
  rw [value, if_pos exponent, fraction, signed_eq_mul]
  simp

end BinaryFormat

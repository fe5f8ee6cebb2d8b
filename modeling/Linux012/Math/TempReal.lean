import Linux012.Lib.CarryWords
import Linux012.Lib.Rounding
import Linux012.Lib.WhileLoop
import Mathlib.Algebra.Order.Field.Power
import Mathlib.Data.Rat.Floor

/-! The temporary real of the coprocessor emulator and the number that it stands for
(`include/linux/math_emu.h`). -/

set_option autoImplicit false

namespace Linux012.Math

open CarryWords Rounding

/-! ## The 16 bits of exponent and sign -/

namespace ExponentWord

def field (e : BitVec 16) : Nat := (e &&& 0x7fff).toNat

variable {e s : BitVec 16}

theorem field_eq (e : BitVec 16) : field e = e.toNat % 2 ^ 15 := by
  rw [field, BitVec.toNat_and]
  exact Nat.and_two_pow_sub_one_eq_mod e.toNat 15

theorem field_lt (e : BitVec 16) : field e < 2 ^ 15 := by
  rw [field_eq]
  omega

theorem toNat_eq (e : BitVec 16) : e.toNat = 2 ^ 15 * e.msb.toNat + field e := by
  have small := e.isLt
  rw [field_eq, BitVec.msb_eq_decide]
  by_cases top : 2 ^ 15 ≤ e.toNat
  · simp only [Nat.add_one_sub_one, top, decide_true, Bool.toNat_true]
    omega
  · simp only [Nat.add_one_sub_one, top, decide_false, Bool.toNat_false]
    omega

theorem ext (sign : e.msb = s.msb) (fields : field e = field s) : e = s := by
  apply BitVec.eq_of_toNat_eq
  rw [toNat_eq e, toNat_eq s, sign, fields]

theorem msb_eq_of_toNat {negative : Bool} {n : Nat} (small : n < 2 ^ 15) (is : e.toNat = 2 ^ 15 * negative.toNat + n) :
    e.msb = negative := by
  rw [BitVec.msb_eq_decide, is]
  cases negative with
  | false => simpa using small
  | true => simp

theorem field_eq_of_toNat {negative : Bool} {n : Nat} (small : n < 2 ^ 15)
    (is : e.toNat = 2 ^ 15 * negative.toNat + n) : field e = n := by
  rw [field_eq, is]
  omega

@[simp] theorem field_and (e : BitVec 16) : field (e &&& 0x7fff) = field e := by
  rw [field, BitVec.and_assoc]
  rfl

@[simp] theorem msb_and (e : BitVec 16) : (e &&& 0x7fff).msb = false := by
  rw [BitVec.msb_and]
  exact Bool.and_false _

@[simp] theorem field_or_sign (e : BitVec 16) : field (e ||| 0x8000) = field e := by
  rw [field, BitVec.and_or_distrib_right]
  simp [field]

@[simp] theorem msb_or_sign (e : BitVec 16) : (e ||| 0x8000).msb = true := by
  rw [BitVec.msb_or]
  exact Bool.or_true _

@[simp] theorem field_xor_sign (e : BitVec 16) : field (e ^^^ 0x8000) = field e := by
  simp only [field, BitVec.toNat_and, BitVec.toNat_xor, Nat.and_xor_distrib_right]
  exact Nat.xor_zero _

@[simp] theorem msb_xor_sign (e : BitVec 16) : (e ^^^ 0x8000).msb = !e.msb := by
  rw [BitVec.msb_xor]
  exact Bool.xor_true _

@[simp] theorem field_and_sign (e : BitVec 16) : field (e &&& 0x8000) = 0 := by
  rw [field, BitVec.and_assoc]
  simp

@[simp] theorem msb_and_sign (e : BitVec 16) : (e &&& 0x8000).msb = e.msb := by
  rw [BitVec.msb_and]
  exact Bool.and_true _

theorem field_ofNat_or {i : Nat} (small : i < 2 ^ 15) (s : BitVec 16) :
    field (BitVec.ofNat 16 i ||| s &&& 0x8000) = i := by
  have first : (BitVec.ofNat 16 i &&& 0x7fff).toNat = i := by
    rw [← field, field_eq, BitVec.toNat_ofNat]
    omega
  rw [field, BitVec.and_or_distrib_right, BitVec.and_assoc, BitVec.toNat_or, first]
  simp

theorem msb_ofNat_or {i : Nat} (small : i < 2 ^ 15) (s : BitVec 16) :
    (BitVec.ofNat 16 i ||| s &&& 0x8000).msb = s.msb := by
  have low : (BitVec.ofNat 16 i).msb = false := by
    rw [BitVec.msb_eq_decide, BitVec.toNat_ofNat]
    simp
    omega
  rw [BitVec.msb_or, low, msb_and_sign, Bool.false_or]

theorem toNat_sub {k : Nat} (enough : k ≤ field e) :
    (e - BitVec.ofNat 16 k).toNat = 2 ^ 15 * e.msb.toNat + (field e - k) := by
  have whole := toNat_eq e
  have small := e.isLt
  have amount : (BitVec.ofNat 16 k).toNat = k := Nat.mod_eq_of_lt (by omega)
  rw [BitVec.toNat_sub_of_le (BitVec.le_def.mpr (by omega)), amount]
  omega

theorem field_sub {k : Nat} (enough : k ≤ field e) : field (e - BitVec.ofNat 16 k) = field e - k :=
  field_eq_of_toNat (by have := field_lt e; omega) (toNat_sub enough)

theorem msb_sub {k : Nat} (enough : k ≤ field e) : (e - BitVec.ofNat 16 k).msb = e.msb :=
  msb_eq_of_toNat (by have := field_lt e; omega) (toNat_sub enough)

theorem toNat_add_two (room : field e + 2 < 2 ^ 15) : (e + 2).toNat = 2 ^ 15 * e.msb.toNat + (field e + 2) := by
  have whole := toNat_eq e
  have flag := e.msb.toNat_le
  have two : (2 : BitVec 16).toNat = 2 := rfl
  rw [BitVec.toNat_add, two]
  omega

theorem field_add_two (room : field e + 2 < 2 ^ 15) : field (e + 2) = field e + 2 :=
  field_eq_of_toNat room (toNat_add_two room)

theorem msb_add_two (room : field e + 2 < 2 ^ 15) : (e + 2).msb = e.msb :=
  msb_eq_of_toNat room (toNat_add_two room)

end ExponentWord

open ExponentWord

/-! ## Temporary reals -/

structure TempReal extends DoubleWord 32 where
  exponent : BitVec 16
deriving DecidableEq

namespace TempReal

def field (r : TempReal) : Nat := ExponentWord.field r.exponent

def negative (r : TempReal) : Bool := r.exponent.msb

def mantissa (r : TempReal) : Nat := r.toDoubleWord.value

def signedMantissa (r : TempReal) : ℤ := signed r.negative r.mantissa

def value (r : TempReal) : ℚ := r.signedMantissa * 2 ^ ((r.field : ℤ) - 16446)

def Normalized (r : TempReal) : Prop := r.b.msb = true

def negate (r : TempReal) : TempReal := { r with exponent := r.exponent ^^^ 0x8000 }

instance (r : TempReal) : Decidable r.Normalized := inferInstanceAs (Decidable (_ = _))

def zero : TempReal := ⟨⟨0, 0⟩, 0⟩

def one : TempReal := ⟨⟨0, 0x80000000⟩, 0x3fff⟩

variable {r : TempReal}

theorem mantissa_lt (r : TempReal) : r.mantissa < 2 ^ 64 := DoubleWord.value_lt r.toDoubleWord

theorem msb_eq (r : TempReal) : r.b.msb = decide (2 ^ 63 ≤ r.mantissa) := by
  have low := r.a.isLt
  have high := r.b.isLt
  rw [BitVec.msb_eq_decide, mantissa, DoubleWord.value]
  simp only [Nat.add_one_sub_one, decide_eq_decide]
  omega

theorem normalized_iff : r.Normalized ↔ 2 ^ 63 ≤ r.mantissa := by
  rw [Normalized, msb_eq, decide_eq_true_iff]

theorem toInt_eq (r : TempReal) :
    r.toDoubleWord.toInt = if r.b.msb then (r.mantissa : ℤ) - 2 ^ 64 else (r.mantissa : ℤ) := by
  rw [DoubleWord.toInt_eq (by decide), msb_eq]
  simp only [decide_eq_true_eq]
  rfl

@[simp] theorem value_zero : zero.value = 0 := by
  have mantissa : zero.mantissa = 0 := rfl
  rw [value, signedMantissa, mantissa, signed_eq_mul]
  simp

theorem mantissa_eq_zero_iff : r.mantissa = 0 ↔ r.a = 0 ∧ r.b = 0 := by
  rw [mantissa, DoubleWord.value, ← BitVec.toNat_inj, ← BitVec.toNat_inj]
  simp

theorem abs_value (r : TempReal) : |r.value| = r.mantissa * 2 ^ ((r.field : ℤ) - 16446) := by
  rw [value, abs_mul, ← Int.cast_abs, signedMantissa, abs_signed, Int.cast_natCast, abs_of_pos (by positivity)]

theorem value_eq_of_shift {negative : Bool} {n f k : Nat} (mantissa : r.mantissa = 2 ^ k * n)
    (sign : r.negative = negative) (field : r.field = f - k) (enough : k ≤ f) :
    r.value = signed negative n * 2 ^ ((f : ℤ) - 16446) := by
  have places : (f : ℤ) - 16446 = k + (((f - k : Nat) : ℤ) - 16446) := by omega
  rw [value, signedMantissa, mantissa, sign, field, signed_eq_mul, signed_eq_mul, places,
    zpow_add₀ two_ne_zero, zpow_natCast]
  push_cast
  ring

end TempReal

end Linux012.Math

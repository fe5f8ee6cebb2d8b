import Linux012.Math.Multiply

/-! The division of temporary reals (`kernel/math/div.c`). -/

set_option autoImplicit false

namespace Linux012.Math

open CarryWords ExponentWord Rounding

def setDE (swd : BitVec 32) : BitVec 32 := swd ||| 2

def setZE (swd : BitVec 32) : BitVec 32 := swd ||| 4

def setUE (swd : BitVec 32) : BitVec 32 := swd ||| 16

def setPE (swd : BitVec 32) : BitVec 32 := swd ||| 32

/-! ## The divisor -/

abbrev NonzeroWords := { s : Nat × Words // s.2.value ≠ 0 }

theorem NonzeroWords.double_ne_zero (s : NonzeroWords) (low : (!s.val.2.c3.msb) = true) :
    s.val.2.double.value ≠ 0 := by
  rw [value_double_of_low (by simpa using low)]
  exact Nat.mul_ne_zero (by decide) s.property

theorem NonzeroWords.double_rises (s : NonzeroWords) (low : (!s.val.2.c3.msb) = true) :
    2 ^ 128 - s.val.2.double.value < 2 ^ 128 - s.val.2.value := by
  have nonzero := s.property
  have small := QuadWord.value_lt s.val.2
  rw [value_double_of_low (by simpa using low)]
  omega

/-- `while (b[3] >= 0)` -/
def divisorLoop : WhileLoop NonzeroWords where
  guard s := !s.val.2.c3.msb
  body s low := ⟨(s.val.1 + 1, s.val.2.double), s.double_ne_zero low⟩
  measure s := 2 ^ 128 - s.val.2.value
  decreases := NonzeroWords.double_rises

theorem divisorLoop_spec (s : NonzeroWords) :
    ∃ k, (divisorLoop.run s).val.1 = s.val.1 + k ∧ (divisorLoop.run s).val.2.value = 2 ^ k * s.val.2.value ∧
      (divisorLoop.run s).val.2.c3.msb = true := by
  have shifted : ∃ k, (divisorLoop.run s).val.1 = s.val.1 + k ∧
      (divisorLoop.run s).val.2.value = 2 ^ k * s.val.2.value := by
    refine WhileLoop.run_keeps (l := divisorLoop)
      (motive := fun t => ∃ k, t.val.1 = s.val.1 + k ∧ t.val.2.value = 2 ^ k * s.val.2.value) ?_ ⟨0, rfl, by simp⟩
    rintro t low ⟨k, count, value⟩
    refine ⟨k + 1, ?_, ?_⟩
    · show t.val.1 + 1 = _
      omega
    · show t.val.2.double.value = _
      rw [value_double_of_low (by simpa [divisorLoop] using low), value, Nat.pow_succ']
      ring
  obtain ⟨k, count, value⟩ := shifted
  refine ⟨k, count, value, ?_⟩
  have stop := divisorLoop.guard_run s
  simpa [divisorLoop] using stop

/-! ## Long division -/

structure LongDivision where
  a : Words
  b : Words
  c : Words
  place : Nat
  mask : BitVec 32

/-- `*c |= mask` -/
def orAt (c : Words) (place : Nat) (mask : BitVec 32) : Words :=
  match place with
  | 0 => { c with c0 := c.c0 ||| mask }
  | 1 => { c with c1 := c.c1 ||| mask }
  | 2 => { c with c2 := c.c2 ||| mask }
  | _ => { c with c3 := c.c3 ||| mask }

def trySub (b tmp : Words) : Words × Bool := ((tmp.sub b).1, !(tmp.sub b).2)

namespace LongDivision

def nextPlace (s : LongDivision) : LongDivision :=
  if s.mask >>> 1 = 0 then { s with place := s.place - 1, mask := 0x80000000 }
  else { s with mask := s.mask >>> 1 }

def subtract (s : LongDivision) : LongDivision :=
  if (trySub s.b s.a).2 then { s with c := orAt s.c s.place s.mask, a := (trySub s.b s.a).1 } else s

def round (s : LongDivision) : LongDivision :=
  let s := s.nextPlace.subtract
  { s with b := s.b.halve }

end LongDivision

def div64 (a b c : Words) : Words := (LongDivision.round^[64] ⟨a, b, c, 4, 0⟩).c

def AtBit (n : Nat) (s : LongDivision) : Prop :=
  n < 32 ∧ s.place = 3 ∧ s.mask.toNat = 2 ^ (31 - n) ∨ 32 ≤ n ∧ s.place = 2 ∧ s.mask.toNat = 2 ^ (63 - n)

variable {s : LongDivision}

theorem nextPlace_first (place : s.place = 4) (mask : s.mask = 0) : AtBit 0 s.nextPlace := by
  rw [LongDivision.nextPlace, if_pos (by rw [mask]; rfl), place]
  exact .inl ⟨by decide, rfl, rfl⟩

variable {n : Nat}

theorem nextPlace_atBit (inside : n < 63) (here : AtBit n s) : AtBit (n + 1) s.nextPlace := by
  have halved : (s.mask >>> 1).toNat = s.mask.toNat / 2 := by
    rw [BitVec.toNat_ushiftRight, Nat.shiftRight_one]
  have isZero : s.mask >>> 1 = 0 ↔ s.mask.toNat / 2 = 0 := by
    rw [← halved, ← BitVec.toNat_inj]
    rfl
  rw [LongDivision.nextPlace]
  by_cases last : n = 31
  · subst last
    obtain ⟨-, place, mask⟩ | ⟨late, -⟩ := here
    · rw [if_pos (isZero.mpr (by rw [mask]; rfl)), place]
      exact .inr ⟨by decide, rfl, rfl⟩
    · omega
  · have halfPower {k : Nat} (positive : 0 < k) : 2 ^ k / 2 = 2 ^ (k - 1) := by
      obtain ⟨j, rfl⟩ : ∃ j, k = j + 1 := ⟨k - 1, by omega⟩
      rw [Nat.pow_succ, Nat.mul_div_cancel _ two_pos, Nat.add_sub_cancel]
    have more : ¬s.mask >>> 1 = 0 := by
      have := Nat.two_pow_pos (31 - n - 1)
      have := Nat.two_pow_pos (63 - n - 1)
      rw [isZero]
      obtain ⟨early, -, mask⟩ | ⟨late, -, mask⟩ := here
      · rw [mask, halfPower (by omega)]
        omega
      · rw [mask, halfPower (by omega)]
        omega
    rw [if_neg more]
    obtain ⟨early, place, mask⟩ | ⟨late, place, mask⟩ := here
    · refine .inl ⟨by omega, place, ?_⟩
      rw [halved, mask, halfPower (by omega)]
      rfl
    · refine .inr ⟨by omega, place, ?_⟩
      rw [halved, mask, halfPower (by omega)]
      rfl

theorem value_orAt {q : Nat} (inside : n < 64) (here : AtBit n s)
    (sofar : DoubleWord.value ⟨s.c.c2, s.c.c3⟩ = q * 2 ^ (64 - n)) :
    DoubleWord.value ⟨(orAt s.c s.place s.mask).c2, (orAt s.c s.place s.mask).c3⟩ = q * 2 ^ (64 - n) + 2 ^ (63 - n) := by
  have c2Small := s.c.c2.isLt
  rw [DoubleWord.value] at sofar ⊢
  dsimp only at sofar
  obtain ⟨early, place, mask⟩ | ⟨late, place, mask⟩ := here
  · have wide : 2 ^ (64 - n) = 2 ^ 32 * 2 ^ (32 - n) := by
      rw [← Nat.pow_add]
      congr 1
      omega
    have wide' : 2 ^ (63 - n) = 2 ^ 32 * 2 ^ (31 - n) := by
      rw [← Nat.pow_add]
      congr 1
      omega
    have c3 : s.c.c3.toNat = 2 ^ (32 - n) * q := by
      rw [wide, Nat.mul_left_comm] at sofar
      rw [Nat.mul_comm]
      omega
    have less : s.mask.toNat < 2 ^ (32 - n) := by
      rw [mask]
      exact Nat.pow_lt_pow_right (by decide) (by omega)
    have or : (s.c.c3 ||| s.mask).toNat = s.c.c3.toNat + s.mask.toNat := by
      rw [BitVec.or_comm, toNat_or_of_lt less c3, Nat.add_comm]
    rw [place]
    show s.c.c2.toNat + 2 ^ 32 * (s.c.c3 ||| s.mask).toNat = _
    rw [or, mask, wide', ← sofar]
    omega
  · obtain ⟨m, rfl⟩ : ∃ m, n = 32 + m := ⟨n - 32, by omega⟩
    have split : 2 ^ 32 = 2 ^ (32 - m) * 2 ^ m := by
      rw [← Nat.pow_add]
      congr 1
      omega
    rw [show 64 - (32 + m) = 32 - m by omega] at *
    rw [show 63 - (32 + m) = 31 - m by omega] at *
    have c2 : s.c.c2.toNat = 2 ^ (32 - m) * (q - 2 ^ m * s.c.c3.toNat) := by
      rw [Nat.mul_sub, ← Nat.mul_assoc, ← split, Nat.mul_comm _ q]
      omega
    have less : s.mask.toNat < 2 ^ (32 - m) := by
      rw [mask]
      exact Nat.pow_lt_pow_right (by decide) (by omega)
    have or : (s.c.c2 ||| s.mask).toNat = s.c.c2.toNat + s.mask.toNat := by
      rw [BitVec.or_comm, toNat_or_of_lt less c2, Nat.add_comm]
    rw [place]
    show (s.c.c2 ||| s.mask).toNat + 2 ^ 32 * s.c.c3.toNat = _
    rw [or, mask, ← sofar]
    omega

theorem orAt_low (here : AtBit n s) :
    (orAt s.c s.place s.mask).c0 = s.c.c0 ∧ (orAt s.c s.place s.mask).c1 = s.c.c1 := by
  obtain ⟨-, place, -⟩ | ⟨-, place, -⟩ := here
  · rw [place]
    exact ⟨rfl, rfl⟩
  · rw [place]
    exact ⟨rfl, rfl⟩

theorem AtBit.of_eq {t : LongDivision} (here : AtBit n s) (place : t.place = s.place) (mask : t.mask = s.mask) :
    AtBit n t := by
  rw [AtBit, place, mask]
  exact here

theorem nextPlace_words (s : LongDivision) :
    s.nextPlace.a = s.a ∧ s.nextPlace.b = s.b ∧ s.nextPlace.c = s.c := by
  rw [LongDivision.nextPlace]
  split
  · exact ⟨rfl, rfl, rfl⟩
  · exact ⟨rfl, rfl, rfl⟩

theorem round_place (s : LongDivision) :
    s.round.place = s.nextPlace.place ∧ s.round.mask = s.nextPlace.mask := by
  dsimp only [LongDivision.round, LongDivision.subtract]
  split
  · exact ⟨rfl, rfl⟩
  · exact ⟨rfl, rfl⟩

theorem round_b (s : LongDivision) : s.round.b = s.b.halve := by
  have same := (nextPlace_words s).2.1
  dsimp only [LongDivision.round, LongDivision.subtract]
  split
  · show s.nextPlace.b.halve = _
    rw [same]
  · rw [same]

theorem round_of_le (fits : s.b.value ≤ s.a.value) :
    s.round.c = orAt s.nextPlace.c s.nextPlace.place s.nextPlace.mask ∧ s.round.a.value + s.b.value = s.a.value := by
  obtain ⟨aSame, bSame, -⟩ := nextPlace_words s
  have borrow := QuadWord.sub_borrow s.a s.b
  have value := QuadWord.sub_value s.a s.b
  rw [decide_eq_false (not_lt.mpr fits)] at borrow
  rw [borrow, Bool.toNat_false] at value
  have taken : s.nextPlace.subtract = { s.nextPlace with
      c := orAt s.nextPlace.c s.nextPlace.place s.nextPlace.mask, a := (s.a.sub s.b).1 } := by
    rw [LongDivision.subtract, if_pos (by rw [trySub, aSame, bSame, borrow]; rfl)]
    simp only [trySub, aSame, bSame]
  rw [LongDivision.round, taken]
  exact ⟨rfl, value⟩

theorem round_of_lt (large : s.a.value < s.b.value) : s.round.c = s.c ∧ s.round.a = s.a := by
  obtain ⟨aSame, bSame, cSame⟩ := nextPlace_words s
  have borrow := QuadWord.sub_borrow s.a s.b
  rw [decide_eq_true large] at borrow
  have kept : s.nextPlace.subtract = s.nextPlace := by
    rw [LongDivision.subtract, if_neg (by rw [trySub, aSame, bSame, borrow]; simp)]
  rw [LongDivision.round, kept]
  exact ⟨cSame, aSame⟩

/-- What `n` rounds have done: the divisor is halved `n` times, and the quotient's first `n`
bits are those of the dividend with the remainder left in `a`. -/
structure Divided (dividend divisor n : Nat) (s : LongDivision) : Prop where
  next : n < 64 → AtBit n s.nextPlace
  b : s.b.value = divisor * 2 ^ (64 - n)
  low : s.c.c0 = 0 ∧ s.c.c1 = 0
  quotient : ∃ q, DoubleWord.value ⟨s.c.c2, s.c.c3⟩ = q * 2 ^ (64 - n) ∧
    dividend = q * (divisor * 2 ^ (65 - n)) + s.a.value ∧ s.a.value < divisor * 2 ^ (65 - n)

namespace Divided

variable {dividend divisor n : Nat} {s : LongDivision}

theorem start {a b : Words} (bIs : b.value = divisor * 2 ^ 64) (small : a.value < divisor * 2 ^ 65) :
    Divided a.value divisor 0 ⟨a, b, ⟨0, 0, 0, 0⟩, 4, 0⟩ where
  next _ := nextPlace_first rfl rfl
  b := bIs
  low := ⟨rfl, rfl⟩
  quotient := ⟨0, by simp [DoubleWord.value], by simp, small⟩

theorem round (inside : n < 64) (divided : Divided dividend divisor n s) :
    Divided dividend divisor (n + 1) s.round := by
  have here := divided.next inside
  obtain ⟨aSame, bSame, cSame⟩ := nextPlace_words s
  have halves : divisor * 2 ^ (64 - n) = 2 * (divisor * 2 ^ (63 - n)) := by
    rw [show 64 - n = 63 - n + 1 by omega, Nat.pow_succ]
    ring
  have twice : divisor * 2 ^ (65 - n) = 2 * (divisor * 2 ^ (64 - n)) := by
    rw [show 65 - n = 64 - n + 1 by omega, Nat.pow_succ]
    ring
  obtain ⟨q, high, whole, rest⟩ := divided.quotient
  have b : s.round.b.value = divisor * 2 ^ (63 - n) := by
    rw [round_b, QuadWord.value_halve (by decide), divided.b, halves, Nat.mul_div_cancel_left _ two_pos]
  have atBit : AtBit n s.round := here.of_eq (round_place s).1 (round_place s).2
  have next (more : n + 1 < 64) : AtBit (n + 1) s.round.nextPlace := nextPlace_atBit (by omega) atBit
  have power : 2 ^ (64 - n) = 2 * 2 ^ (63 - n) := by
    rw [show 64 - n = 63 - n + 1 by omega, Nat.pow_succ']
  have old := divided.b
  by_cases fits : s.b.value ≤ s.a.value
  · obtain ⟨cIs, aIs⟩ := round_of_le fits
    have sofar := value_orAt (q := q) inside here (by rw [cSame]; exact high)
    have low := orAt_low here
    rw [← cIs] at sofar low
    rw [cSame] at low
    refine ⟨next, by rw [b]; rw [show 64 - (n + 1) = 63 - n by omega], ?_, 2 * q + 1, ?_, ?_, ?_⟩
    · rw [low.1, low.2]
      exact divided.low
    · rw [sofar, power, show 64 - (n + 1) = 63 - n by omega]
      ring
    · rw [show 65 - (n + 1) = 64 - n by omega, ← old, whole, twice, ← old]
      linarith
    · rw [show 65 - (n + 1) = 64 - n by omega, ← old]
      omega
  · obtain ⟨cIs, aIs⟩ := round_of_lt (not_le.mp fits)
    refine ⟨next, by rw [b]; rw [show 64 - (n + 1) = 63 - n by omega], ?_, 2 * q, ?_, ?_, ?_⟩
    · rw [cIs]
      exact divided.low
    · rw [cIs, high, power, show 64 - (n + 1) = 63 - n by omega]
      ring
    · rw [show 65 - (n + 1) = 64 - n by omega, ← old, whole, twice, ← old, aIs]
      ring
    · rw [show 65 - (n + 1) = 64 - n by omega, ← old, aIs]
      omega

end Divided

theorem div64_spec {a b : Words} {divisor : Nat} (bIs : b.value = divisor * 2 ^ 64)
    (small : a.value < divisor * 2 ^ 65) :
    (div64 a b ⟨0, 0, 0, 0⟩).c0 = 0 ∧ (div64 a b ⟨0, 0, 0, 0⟩).c1 = 0 ∧
      DoubleWord.value ⟨(div64 a b ⟨0, 0, 0, 0⟩).c2, (div64 a b ⟨0, 0, 0, 0⟩).c3⟩ = a.value / (2 * divisor) := by
  have rounds : ∀ n ≤ 64, Divided a.value divisor n (LongDivision.round^[n] ⟨a, b, ⟨0, 0, 0, 0⟩, 4, 0⟩) := by
    intro n inside
    induction n with
    | zero => exact .start bIs small
    | succ n ih =>
      rw [Function.iterate_succ_apply']
      exact (ih (by omega)).round inside
  have last := rounds 64 le_rfl
  rw [div64]
  generalize LongDivision.round^[64] ⟨a, b, ⟨0, 0, 0, 0⟩, 4, 0⟩ = s at last
  obtain ⟨q, high, whole, rest⟩ := last.quotient
  refine ⟨last.low.1, last.low.2, ?_⟩
  rw [Nat.sub_self, Nat.pow_zero, Nat.mul_one] at high
  rw [show 65 - 64 = 1 from rfl, Nat.pow_one] at whole rest
  refine high.trans (Nat.div_eq_of_lt_le ?_ ?_).symm
  · rw [Nat.mul_comm 2]
    omega
  · rw [Nat.mul_comm 2, Nat.succ_mul]
    omega

/-! ## The routine -/

def mantissaWords (r : TempReal) : Words := ⟨0, 0, r.a, r.b⟩

theorem value_mantissaWords (r : TempReal) : (mantissaWords r).value = 2 ^ 64 * r.mantissa := by
  have none : (0 : BitVec 32).toNat = 0 := rfl
  rw [TempReal.mantissa, DoubleWord.value, QuadWord.value]
  simp only [mantissaWords, none]
  omega

theorem mantissaWords_ne_zero {r : TempReal} (nonzero : ¬(r.a = 0 ∧ r.b = 0)) : (mantissaWords r).value ≠ 0 := by
  rw [← TempReal.mantissa_eq_zero_iff] at nonzero
  rw [value_mantissaWords]
  omega

def fdivDivisor (i : Nat) (src2 : TempReal) (nonzero : ¬(src2.a = 0 ∧ src2.b = 0)) : Nat × Words :=
  (divisorLoop.run ⟨(i, mantissaWords src2), mantissaWords_ne_zero nonzero⟩).val

def fdivQuotient (i : Nat) (src1 src2 : TempReal) (nonzero : ¬(src2.a = 0 ∧ src2.b = 0)) : Words :=
  div64 (mantissaWords src1) (fdivDivisor i src2 nonzero).2 ⟨0, 0, 0, 0⟩

/-- `fdiv` behind the long division, `i` and `tmp` being normalised. -/
def fdivFinish (sign : BitVec 16) (i : Nat) (tmp : Words) (swd : BitVec 32) : Outcome :=
  if 0x7fff < i then ⟨none, setOE swd⟩
  else
    ⟨some ⟨⟨tmp.c2, tmp.c3⟩, BitVec.ofNat 16 i ||| sign⟩, if tmp.c0 ≠ 0 ∨ tmp.c1 ≠ 0 then setPE swd else swd⟩

def fdiv (src1 src2 : TempReal) (swd : BitVec 32) : Outcome :=
  if zero : src2.a = 0 ∧ src2.b = 0 then ⟨none, setZE swd⟩
  else
    let i : ℤ := src1.field - src2.field + 16383
    if i < 0 then ⟨some ⟨⟨0, 0⟩, signWord src1 src2⟩, setUE swd⟩
    else
      let tmp := fdivQuotient i.toNat src1 src2 zero
      if tmp = ⟨0, 0, 0, 0⟩ then fdivFinish (signWord src1 src2) 0 tmp swd
      else
        let last := shiftLoop.run ((fdivDivisor i.toNat src2 zero).1, tmp)
        fdivFinish (signWord src1 src2) last.1 last.2 (if last.2.c3.msb then swd else setDE swd)

/-! ## The quotient -/

theorem fdivDivisor_spec (i : Nat) (y : TempReal) (nonzero : ¬(y.a = 0 ∧ y.b = 0)) :
    ∃ k, (fdivDivisor i y nonzero).1 = i + k ∧ 2 ^ 63 ≤ 2 ^ k * y.mantissa ∧ 2 ^ k * y.mantissa < 2 ^ 64 ∧
      (fdivDivisor i y nonzero).2.value = 2 ^ k * y.mantissa * 2 ^ 64 := by
  obtain ⟨k, count, value, top⟩ := divisorLoop_spec ⟨(i, mantissaWords y), mantissaWords_ne_zero nonzero⟩
  have small := QuadWord.value_lt (fdivDivisor i y nonzero).2
  rw [words_msb, decide_eq_true_iff] at top
  change 2 ^ 127 ≤ (fdivDivisor i y nonzero).2.value at top
  change (fdivDivisor i y nonzero).2.value = 2 ^ k * (mantissaWords y).value at value
  rw [value_mantissaWords, Nat.mul_left_comm, Nat.mul_comm] at value
  refine ⟨k, count, ?_, ?_, value⟩
  · omega
  · omega

theorem fdivQuotient_spec (i : Nat) (x y : TempReal) (nonzero : ¬(y.a = 0 ∧ y.b = 0)) :
    ∃ k, (fdivDivisor i y nonzero).1 = i + k ∧ 2 ^ 63 ≤ 2 ^ k * y.mantissa ∧ 2 ^ k * y.mantissa < 2 ^ 64 ∧
      (fdivQuotient i x y nonzero).value = 2 ^ 64 * (x.mantissa * 2 ^ 63 / (2 ^ k * y.mantissa)) := by
  obtain ⟨k, count, low, high, value⟩ := fdivDivisor_spec i y nonzero
  refine ⟨k, count, low, high, ?_⟩
  have xSmall := x.mantissa_lt
  have dividend := value_mantissaWords x
  obtain ⟨first, second, quotient⟩ := div64_spec (a := mantissaWords x) value (by omega)
  have none : (0 : BitVec 32).toNat = 0 := rfl
  have double : 2 ^ 64 * x.mantissa / (2 * (2 ^ k * y.mantissa)) = x.mantissa * 2 ^ 63 / (2 ^ k * y.mantissa) := by
    rw [show 2 ^ 64 * x.mantissa = 2 * (x.mantissa * 2 ^ 63) by ring, Nat.mul_div_mul_left _ _ two_pos]
  rw [dividend, double, DoubleWord.value] at quotient
  rw [fdivQuotient, QuadWord.value, first, second, none, ← quotient]
  dsimp only
  omega

section Normalized

variable {x y : TempReal}

theorem words_ne_zero (yNormal : y.Normalized) : ¬(y.a = 0 ∧ y.b = 0) := by
  rw [TempReal.normalized_iff] at yNormal
  rw [← TempReal.mantissa_eq_zero_iff]
  omega

theorem fdivQuotient_of_normalized (i : Nat) (x : TempReal) (yNormal : y.Normalized) :
    (fdivDivisor i y (words_ne_zero yNormal)).1 = i ∧
      (fdivQuotient i x y (words_ne_zero yNormal)).value = 2 ^ 64 * (x.mantissa * 2 ^ 63 / y.mantissa) := by
  obtain ⟨k, count, low, high, value⟩ := fdivQuotient_spec i x y (words_ne_zero yNormal)
  rw [TempReal.normalized_iff] at yNormal
  cases k with
  | zero =>
    rw [Nat.pow_zero, Nat.one_mul] at value
    exact ⟨count, value⟩
  | succ k =>
    have := Nat.two_pow_pos k
    rw [Nat.pow_succ] at high
    nlinarith

theorem quotient_bounds (xNormal : x.Normalized) (yNormal : y.Normalized) :
    2 ^ 62 ≤ x.mantissa * 2 ^ 63 / y.mantissa ∧ x.mantissa * 2 ^ 63 / y.mantissa < 2 ^ 64 := by
  rw [TempReal.normalized_iff] at xNormal yNormal
  have xSmall := x.mantissa_lt
  have ySmall := y.mantissa_lt
  constructor
  · rw [Nat.le_div_iff_mul_le (by omega)]
    omega
  · rw [Nat.div_lt_iff_lt_mul (by omega)]
    omega

theorem words_of_high {p : Words} {n : Nat} (value : p.value = 2 ^ 64 * n) :
    p.c0 = 0 ∧ p.c1 = 0 ∧ DoubleWord.value ⟨p.c2, p.c3⟩ = n := by
  have first := p.c0.isLt
  have second := p.c1.isLt
  refine ⟨BitVec.eq_of_toNat_eq ?_, BitVec.eq_of_toNat_eq ?_, ?_⟩
  · rw [QuadWord.value] at value
    change p.c0.toNat = 0
    omega
  · rw [QuadWord.value] at value
    change p.c1.toNat = 0
    omega
  · rw [value_high, value]
    omega

theorem abs_value_div (y : TempReal) (nonzero : y.mantissa ≠ 0) (x : TempReal) :
    |x.value / y.value| = (x.mantissa * 2 ^ 63 : Nat) / y.mantissa * 2 ^ ((x.field : ℤ) - y.field - 63) := by
  have yPos : (0 : ℚ) < y.mantissa := by exact_mod_cast Nat.pos_of_ne_zero nonzero
  have places : (x.field : ℤ) - 16446 = 63 + (x.field - y.field - 63) + (y.field - 16446) := by omega
  rw [abs_div, TempReal.abs_value, TempReal.abs_value, places, zpow_add₀ two_ne_zero, zpow_add₀ two_ne_zero]
  push_cast
  field_simp

theorem quotient_error {r : TempReal} {k i : Nat} (nonzero : y.mantissa ≠ 0)
    (exponents : (x.field : ℤ) - y.field + 16383 = i) (few : k ≤ i)
    (mantissa : r.mantissa = 2 ^ k * (x.mantissa * 2 ^ 63 / y.mantissa)) (field : r.field = i - k) :
    0 ≤ |x.value / y.value| - |r.value| ∧
      |x.value / y.value| - |r.value| < 2 ^ ((x.field : ℤ) - y.field - 63) := by
  have place : (0 : ℚ) < 2 ^ ((x.field : ℤ) - y.field - 63) := by positivity
  have yPos : (0 : ℚ) < y.mantissa := by exact_mod_cast Nat.pos_of_ne_zero nonzero
  have below : ((x.mantissa * 2 ^ 63 / y.mantissa : Nat) : ℚ) ≤ (x.mantissa * 2 ^ 63 : Nat) / y.mantissa := by
    rw [le_div_iff₀ yPos]
    exact_mod_cast Nat.div_mul_le_self _ _
  have above : ((x.mantissa * 2 ^ 63 : Nat) : ℚ) / y.mantissa < (x.mantissa * 2 ^ 63 / y.mantissa : Nat) + 1 := by
    rw [div_lt_iff₀ yPos]
    exact_mod_cast (Nat.div_lt_iff_lt_mul (Nat.pos_of_ne_zero nonzero)).mp (Nat.lt_succ_self _)
  have value := TempReal.value_eq_of_shift mantissa rfl field few
  rw [abs_value_div y nonzero x, value, abs_mul, ← Int.cast_abs, abs_signed, Int.cast_natCast,
    abs_of_pos (by positivity), show (i : ℤ) - 16446 = x.field - y.field - 63 by omega, ← sub_mul]
  constructor
  · exact mul_nonneg (by linarith) place.le
  · rw [mul_lt_iff_lt_one_left place]
    linarith

/-- `fdiv` is a long division of which the quotient is not rounded. -/
theorem fdiv_divides (xNormal : x.Normalized) (yNormal : y.Normalized)
    (low : 1 ≤ (x.field : ℤ) - y.field + 16383) (high : (x.field : ℤ) - y.field + 16383 ≤ 0x7fff)
    (swd : BitVec 32) :
    (∀ i, (fdivQuotient i x y (words_ne_zero yNormal)).value = 2 ^ 64 * (x.mantissa * 2 ^ 63 / y.mantissa)) ∧
      ∃ r, fdiv x y swd = ⟨some r, swd⟩ ∧ r.Normalized ∧ r.negative = (x.negative ^^ y.negative) ∧
        0 ≤ |x.value / y.value| - |r.value| ∧
        |x.value / y.value| - |r.value| < 2 ^ ((x.field : ℤ) - y.field - 63) := by
  refine ⟨fun i => (fdivQuotient_of_normalized i x yNormal).2, ?_⟩
  obtain ⟨i, exponents⟩ : ∃ i : Nat, (x.field : ℤ) - y.field + 16383 = i :=
    ⟨((x.field : ℤ) - y.field + 16383).toNat, by omega⟩
  obtain ⟨count, value⟩ := fdivQuotient_of_normalized i x yNormal
  have bounds := quotient_bounds xNormal yNormal
  obtain ⟨k, few, left, shifted, stop⟩ := shiftLoop_spec i (fdivQuotient i x y (words_ne_zero yNormal))
  generalize quotient : fdivQuotient i x y (words_ne_zero yNormal) = q at value shifted stop left
  generalize last : shiftLoop.run (i, q) = after at shifted stop left
  have nonzero : ¬q = ⟨0, 0, 0, 0⟩ := by
    rw [← QuadWord.value_eq_zero_iff]
    omega
  rw [value, Nat.mul_left_comm] at shifted
  have small := QuadWord.value_lt after.2
  have once : k < 2 := by
    by_contra twice
    have : 2 ^ 2 ≤ 2 ^ k := Nat.pow_le_pow_right (by decide) (by omega)
    have := Nat.mul_le_mul this bounds.1
    omega
  have top : after.2.c3.msb = true := by
    cases stop with
    | inr top => exact top
    | inl exhausted =>
      -- the only round was spent on a quotient below bit 127
      have spent : k = 1 := by omega
      rw [words_msb, decide_eq_true_iff, shifted, spent]
      omega
  obtain ⟨first, second, mantissa⟩ := words_of_high shifted
  have run : fdiv x y swd = ⟨some ⟨⟨after.2.c2, after.2.c3⟩, BitVec.ofNat 16 (i - k) ||| signWord x y⟩, swd⟩ := by
    rw [fdiv, dif_neg (words_ne_zero yNormal)]
    dsimp only
    rw [exponents, if_neg (by omega), Int.toNat_natCast, quotient, if_neg nonzero, count, last, if_pos top, left,
      fdivFinish, if_neg (by omega), if_neg (by simp [first, second])]
  have field := field_ofNat_or (i := i - k) (by omega) (x.exponent ^^^ y.exponent)
  have sign : (BitVec.ofNat 16 (i - k) ||| signWord x y).msb = (x.negative ^^ y.negative) :=
    (msb_ofNat_or (by omega) _).trans BitVec.msb_xor
  rw [TempReal.normalized_iff] at yNormal
  exact ⟨_, run, top, sign, quotient_error (by omega) exponents few mantissa field⟩

theorem fdiv_divides_one_one :
    (∀ i, (fdivQuotient i .one .one (words_ne_zero (y := .one) (by decide))).value =
        2 ^ 64 * (TempReal.one.mantissa * 2 ^ 63 / TempReal.one.mantissa)) ∧
      ∃ r, fdiv .one .one 0 = ⟨some r, 0⟩ ∧ r.Normalized ∧
        r.negative = (TempReal.one.negative ^^ TempReal.one.negative) ∧
        0 ≤ |TempReal.one.value / TempReal.one.value| - |r.value| ∧
        |TempReal.one.value / TempReal.one.value| - |r.value| <
          2 ^ ((TempReal.one.field : ℤ) - TempReal.one.field - 63) :=
  fdiv_divides (by decide) (by decide) (by decide) (by decide) 0

end Normalized

end Linux012.Math

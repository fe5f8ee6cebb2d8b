import Linux012.Math.Instructions

/-! What the operands in memory stand for, format by format, and the temporary reals that
`kernel/math/get_put.c` makes of them. -/

set_option autoImplicit false

namespace Linux012.Math

open CarryWords ExponentWord Rounding

/-! ## Bytes -/

namespace Memory

def number (mem : Memory) (addr : BitVec 32) : Nat → Nat
  | 0 => 0
  | n + 1 => (mem addr).toNat + 2 ^ 8 * mem.number (addr + 1) n

variable (mem : Memory) (addr : BitVec 32)

theorem toNat_append {v w : Nat} (x : BitVec v) (y : BitVec w) : (x ++ y).toNat = y.toNat + 2 ^ w * x.toNat := by
  rw [BitVec.toNat_append, ← Nat.shiftLeft_add_eq_or_of_lt y.isLt, Nat.shiftLeft_eq, Nat.mul_comm, Nat.add_comm]

theorem word_toNat : (mem.word addr).toNat = mem.number addr 2 := by
  rw [word, toNat_append]
  simp only [number]
  omega

theorem long_toNat : (mem.long addr).toNat = mem.number addr 4 := by
  have second : addr + 1 + 1 = addr + 2 := BitVec.add_assoc ..
  have third : addr + 2 + 1 = addr + 3 := BitVec.add_assoc ..
  rw [long, toNat_append, toNat_append, toNat_append]
  simp only [number, second, third]
  omega

theorem number_add (m n : Nat) :
    mem.number addr (m + n) = mem.number addr m + 2 ^ (8 * m) * mem.number (addr + BitVec.ofNat 32 m) n := by
  induction m generalizing addr with
  | zero =>
    have here : addr + BitVec.ofNat 32 0 = addr := BitVec.add_zero addr
    rw [Nat.zero_add, here]
    simp [number]
  | succ m ih =>
    have next : addr + 1 + BitVec.ofNat 32 m = addr + BitVec.ofNat 32 (m + 1) := by
      rw [BitVec.add_assoc, Nat.add_comm m, BitVec.ofNat_add]
      rfl
    rw [Nat.succ_add, number, number, ih, next]
    ring

end Memory

/-! ## Numbers, infinities and NaNs -/

inductive Datum where
  | number (q : ℚ)
  | infinite (negative : Bool)
  | notANumber
deriving DecidableEq

def realDatum (F : BinaryFormat) (n : Nat) : Datum :=
  if F.Finite n then .number (F.value ℚ n)
  else if F.fraction n = 0 then .infinite (F.negative n)
  else .notANumber

def TempReal.datum (r : TempReal) : Datum :=
  if r.field ≠ 0x7fff then .number (r.signedMantissa * 2 ^ ((max r.field 1 : ℤ) - 16446))
  else if r.mantissa = 2 ^ 63 then .infinite r.negative
  else .notANumber

def decimalDigits (byte : BitVec 8) : Nat := 10 * (byte.toNat / 16) + byte.toNat % 16

/-- The number of `k` bytes with two decimal digits each, the lowest first. -/
def decimalNumber (mem : Memory) (addr : BitVec 32) : Nat → Nat
  | 0 => 0
  | k + 1 => decimalDigits (mem addr) + 100 * decimalNumber mem (addr + 1) k

namespace Format

def datum (format : Format) (mem : Memory) (addr : BitVec 32) : Datum :=
  match format with
  | real32 => realDatum shortFormat (mem.number addr 4)
  | real64 => realDatum longFormat (mem.number addr 8)
  | real80 => TempReal.datum ⟨⟨mem.long addr, mem.long (addr + 4)⟩, mem.word (addr + 8)⟩
  | int16 => .number (Int.bmod (mem.number addr 2) (2 ^ 16))
  | int32 => .number (Int.bmod (mem.number addr 4) (2 ^ 32))
  | int64 => .number (Int.bmod (mem.number addr 8) (2 ^ 64))
  | decimal => .number (signed (mem (addr + 9)).msb (decimalNumber mem addr 9))

end Format

/-! ## Conversions -/

def digitWords (mem : Memory) : Nat → BitVec 32 → DoubleWord 32 → DoubleWord 32
  | 0, _, i => i
  | k + 1, addr, i => digitWords mem k (addr - 1) (addDigits i (mem addr))

def Format.operand (format : Format) (mem : Memory) (addr : BitVec 32) : TempReal :=
  match format with
  | real32 => shortToTemp (mem.long addr)
  | real64 => longToTemp ⟨mem.long addr, mem.long (addr + 4)⟩
  | real80 => ⟨⟨mem.long addr, mem.long (addr + 4)⟩, mem.word (addr + 8)⟩
  | int16 => intToReal (signMagnitude ((mem.word addr).signExtend 32))
  | int32 => intToReal (signMagnitude (mem.long addr))
  | int64 =>
    let ti : DoubleWord 32 := ⟨mem.long addr, mem.long (addr + 4)⟩
    intToReal ⟨if ti.b.msb then ti.negate else ti, ti.b.msb⟩
  | decimal => intToReal ⟨digitWords mem 9 (addr + 9 - 1) ⟨0, 0⟩, mem (addr + 9) &&& 0x80 ≠ 0⟩

def ZeroOrNormal (F : BinaryFormat) (n : Nat) : Prop := F.magnitude n = 0 ∨ F.exponent n ≠ 0 ∧ F.Finite n

instance (F : BinaryFormat) (n : Nat) : Decidable (ZeroOrNormal F n) := inferInstanceAs (Decidable (_ ∨ _))

def Format.Exact (format : Format) (mem : Memory) (addr : BitVec 32) : Prop :=
  match format with
  | real32 => ZeroOrNormal shortFormat (mem.number addr 4)
  | real64 => ZeroOrNormal longFormat (mem.number addr 8)
  | _ => True

theorem datum_eq_value {r : TempReal} (finite : r.field ≠ 0x7fff) (leading : r.field ≠ 0 ∨ r.mantissa = 0) :
    r.datum = .number r.value := by
  rw [TempReal.datum, if_pos finite, TempReal.value]
  obtain nonzero | zero := leading
  · rw [max_eq_left (by omega)]
  · rw [TempReal.signedMantissa, zero]
    simp [signed]

/-! ### Integers -/

theorem integerExponent (sign : Bool) :
    field (16383 + 63 + if sign then 0x8000 else 0) = 16446 ∧
      (16383 + 63 + if sign then 0x8000 else 0 : BitVec 16).msb = sign := by
  cases sign <;> decide

theorem intToReal_fields {a : TempInt} (nonzero : a.value ≠ 0) :
    ∃ k < 64, (intToReal a).mantissa = 2 ^ k * a.value ∧ (intToReal a).negative = a.sign ∧
      (intToReal a).field = 16446 - k := by
  have words : ¬(a.a = 0 ∧ a.b = 0) := by
    rwa [← TempReal.mantissa_eq_zero_iff (r := ⟨a.toDoubleWord, 0⟩)]
  obtain ⟨k, few, -, mantissa, exponent⟩ := normaliseLoop_spec
    ⟨⟨a.toDoubleWord, 16383 + 63 + if a.sign then 0x8000 else 0⟩, integer_ne_zero words _⟩
  obtain ⟨start, sign⟩ := integerExponent a.sign
  have room : k ≤ field (16383 + 63 + if a.sign then 0x8000 else 0) := by
    rw [start]
    omega
  rw [intToReal, dif_neg words]
  refine ⟨k, few, mantissa, ?_, ?_⟩
  · rw [TempReal.negative, exponent, msb_sub room, sign]
  · rw [TempReal.field, exponent, field_sub room, start]

theorem intToReal_datum (a : TempInt) : (intToReal a).datum = .number (signed a.sign a.value) := by
  by_cases zero : a.value = 0
  · have words : a.a = 0 ∧ a.b = 0 := (TempReal.mantissa_eq_zero_iff (r := ⟨a.toDoubleWord, 0⟩)).mp zero
    have none : (⟨a.toDoubleWord, 0⟩ : TempReal).mantissa = 0 := zero
    have finite : (⟨a.toDoubleWord, 0⟩ : TempReal).field ≠ 0x7fff := (by decide : field 0 ≠ 0x7fff)
    rw [intToReal, dif_pos words, datum_eq_value finite (.inr none), TempReal.value, TempReal.signedMantissa, none,
      zero]
    simp [signed]
  · obtain ⟨k, few, mantissa, sign, field⟩ := intToReal_fields zero
    rw [datum_eq_value (by omega) (.inl (by omega)), TempReal.value_eq_of_shift mantissa sign field (by omega)]
    simp

theorem signMagnitude_value (a : BitVec 32) : signed (signMagnitude a).sign (signMagnitude a).value = a.toInt := by
  have small := a.isLt
  have value : (signMagnitude a).value = if a.msb then (-a).toNat else a.toNat := by
    rw [DoubleWord.value, signMagnitude]
    split <;> rfl
  rw [value, BitVec.toInt_eq_msb_cond]
  show signed a.msb _ = _
  cases sign : a.msb with
  | false => simp [signed]
  | true =>
    rw [BitVec.msb_eq_decide, decide_eq_true_iff] at sign
    simp only [signed, if_true, BitVec.toNat_neg]
    omega

theorem negated_value (ti : DoubleWord 32) :
    signed ti.b.msb (if ti.b.msb then ti.negate else ti).value = ti.toInt := by
  have small := ti.value_lt
  have msb : ti.b.msb = decide (2 ^ 63 ≤ ti.value) := TempReal.msb_eq ⟨ti, 0⟩
  rw [DoubleWord.toInt_eq (by decide)]
  cases sign : ti.b.msb with
  | false =>
    rw [msb, decide_eq_false_iff_not] at sign
    rw [if_neg sign]
    simp [signed]
  | true =>
    rw [msb, decide_eq_true_iff] at sign
    rw [if_pos sign, if_pos rfl, DoubleWord.value_negate (by decide)]
    simp only [signed, if_true]
    omega

/-! ### Decimals -/

variable {p : DoubleWord 32}

theorem mul10_value (room : 10 * p.value < 2 ^ 64) : (mul10 p).value = 10 * p.value := by
  rw [mul10, DoubleWord.value_add, DoubleWord.value_double, DoubleWord.value_double, DoubleWord.value_double]
  omega

theorem add64_value {val : BitVec 32} (room : p.value + val.toNat < 2 ^ 64) :
    (add64 val p).value = p.value + val.toNat := by
  have digit : DoubleWord.value ⟨val, (0 : BitVec 32)⟩ = val.toNat := by simp [DoubleWord.value]
  rw [add64, DoubleWord.value_add, digit, Nat.mod_eq_of_lt room]

theorem addDigits_value (c : BitVec 8) (room : 100 * p.value + 165 < 2 ^ 64) :
    (addDigits p c).value = 100 * p.value + decimalDigits c := by
  have small := c.isLt
  have high : ((c >>> 4).setWidth 32).toNat = c.toNat / 16 := by
    rw [BitVec.toNat_setWidth, BitVec.toNat_ushiftRight, Nat.shiftRight_eq_div_pow]
    omega
  have low : ((c &&& 0xf).setWidth 32).toNat = c.toNat % 16 := by
    rw [BitVec.toNat_setWidth, toNat_and_mask (n := 0) (k := 4) rfl]
    omega
  have first : (mul10 p).value = 10 * p.value := mul10_value (by omega)
  have second : (add64 ((c >>> 4).setWidth 32) (mul10 p)).value = 10 * p.value + c.toNat / 16 := by
    rw [add64_value (by omega), first, high]
  have third := mul10_value (p := add64 ((c >>> 4).setWidth 32) (mul10 p)) (by omega)
  rw [addDigits, add64_value (by omega), third, second, low, decimalDigits]
  omega

theorem decimalNumber_succ (mem : Memory) (addr : BitVec 32) (k : Nat) :
    decimalNumber mem addr (k + 1) =
      decimalNumber mem addr k + 100 ^ k * decimalDigits (mem (addr + BitVec.ofNat 32 k)) := by
  induction k generalizing addr with
  | zero =>
    have here : addr + BitVec.ofNat 32 0 = addr := BitVec.add_zero addr
    rw [here]
    simp [decimalNumber]
  | succ k ih =>
    have next : addr + 1 + BitVec.ofNat 32 k = addr + BitVec.ofNat 32 (k + 1) := by
      rw [BitVec.add_assoc, Nat.add_comm k, BitVec.ofNat_add]
      rfl
    rw [decimalNumber, ih, decimalNumber, next]
    ring

theorem digitWords_value (mem : Memory) (addr : BitVec 32) {k : Nat} {i : DoubleWord 32}
    (room : (i.value + 2) * 100 ^ k ≤ 2 * 100 ^ 9) :
    (digitWords mem k (addr + BitVec.ofNat 32 k - 1) i).value = i.value * 100 ^ k + decimalNumber mem addr k := by
  induction k generalizing i with
  | zero => simp [digitWords, decimalNumber]
  | succ k ih =>
    have here : addr + BitVec.ofNat 32 (k + 1) - 1 = addr + BitVec.ofNat 32 k := by
      rw [BitVec.ofNat_add, ← BitVec.add_assoc]
      exact BitVec.add_sub_cancel ..
    have digits : decimalDigits (mem (addr + BitVec.ofNat 32 k)) ≤ 165 := by
      have := (mem (addr + BitVec.ofNat 32 k)).isLt
      rw [decimalDigits]
      omega
    have positive : 1 ≤ 100 ^ k := Nat.one_le_pow _ _ (by decide)
    rw [Nat.pow_succ] at room
    have lower : (i.value + 2) * 100 ≤ 2 * 100 ^ 9 :=
      (Nat.mul_le_mul_left _ (Nat.le_mul_of_pos_left 100 positive)).trans room
    have value : (addDigits i (mem (addr + BitVec.ofNat 32 k))).value =
        100 * i.value + decimalDigits (mem (addr + BitVec.ofNat 32 k)) := addDigits_value _ (by omega)
    have rest : (100 * i.value + decimalDigits (mem (addr + BitVec.ofNat 32 k)) + 2) * 100 ^ k ≤ 2 * 100 ^ 9 :=
      calc _ ≤ (i.value + 2) * 100 * 100 ^ k := Nat.mul_le_mul_right _ (by omega)
        _ = (i.value + 2) * (100 ^ k * 100) := by ring
        _ ≤ _ := room
    rw [here, digitWords, ih (by rwa [value]), value, decimalNumber_succ]
    ring

/-! ### Reals -/

theorem realDatum_eq_iff {F : BinaryFormat} {n : Nat} {r : TempReal} (wide : F.exponentBits ≠ 0)
    (datum : r.datum = .number r.value) (value : r.value = F.value ℚ n ↔ F.magnitude n = 0 ∨ F.exponent n ≠ 0) :
    r.datum = realDatum F n ↔ ZeroOrNormal F n := by
  rw [datum, realDatum, ZeroOrNormal]
  by_cases finite : F.Finite n
  · rw [if_pos finite, Datum.number.injEq, value, and_iff_left finite]
  · rw [if_neg finite]
    refine iff_of_false ?_ ?_
    · split
      · exact Datum.noConfusion
      · exact Datum.noConfusion
    · rintro (zero | ⟨-, normal⟩)
      · exact finite (BinaryFormat.finite_of_magnitude_zero wide zero)
      · exact finite normal

theorem datum_of_zero {negative : Prop} [Decidable negative] :
    (⟨⟨0, 0⟩, if negative then 0x8000 else 0⟩ : TempReal).datum =
      .number (⟨⟨0, 0⟩, if negative then 0x8000 else 0⟩ : TempReal).value := by
  refine datum_eq_value ?_ (.inr rfl)
  split
  · exact (by decide : field 0x8000 ≠ 0x7fff)
  · exact (by decide : field 0 ≠ 0x7fff)

theorem shortToTemp_datum (v : BitVec 32) : (shortToTemp v).datum = .number (shortToTemp v).value := by
  by_cases zero : v.toNat % 2 ^ 31 = 0
  · rw [shortToTemp_of_zero zero]
    exact datum_of_zero
  · have exponent := (shortToTemp_fields zero).1
    exact datum_eq_value (by omega) (.inl (by omega))

theorem longToTemp_datum (v : LongReal) : (longToTemp v).datum = .number (longToTemp v).value := by
  by_cases zero : v.value % 2 ^ 63 = 0
  · rw [longToTemp_of_zero zero]
    exact datum_of_zero
  · have exponent := (longToTemp_fields zero).1
    exact datum_eq_value (by omega) (.inl (by omega))

theorem shortToTemp_datum_iff (v : BitVec 32) :
    (shortToTemp v).datum = realDatum shortFormat v.toNat ↔ ZeroOrNormal shortFormat v.toNat := by
  refine realDatum_eq_iff (by decide) (shortToTemp_datum v) ?_
  rw [shortToTemp_value_iff, low31_eq_zero_iff]
  rfl

theorem longToTemp_datum_iff (v : LongReal) :
    (longToTemp v).datum = realDatum longFormat v.value ↔ ZeroOrNormal longFormat v.value := by
  refine realDatum_eq_iff (by decide) (longToTemp_datum v) ?_
  rw [longToTemp_value_iff, long_zero_iff]
  rfl

/-! ### Every format -/

section Every

variable (mem : Memory) (addr : BitVec 32)

theorem longs_value : DoubleWord.value ⟨mem.long addr, mem.long (addr + 4)⟩ = mem.number addr 8 := by
  rw [DoubleWord.value, Memory.long_toNat, Memory.long_toNat]
  exact (mem.number_add addr 4 4).symm

theorem sign_byte (byte : BitVec 8) : decide (byte &&& 0x80 ≠ 0) = byte.msb := by
  revert byte
  decide

theorem decimal_value :
    signed (mem (addr + 9)).msb (digitWords mem 9 (addr + 9 - 1) ⟨0, 0⟩).value =
      signed (mem (addr + 9)).msb (decimalNumber mem addr 9) := by
  have none : DoubleWord.value (⟨0, 0⟩ : DoubleWord 32) = 0 := rfl
  have digits := digitWords_value mem addr (k := 9) (i := ⟨0, 0⟩) (by rw [none])
  rw [none, Nat.zero_mul, Nat.zero_add] at digits
  exact congrArg _ digits

theorem Format.operand_datum_iff (format : Format) :
    (format.operand mem addr).datum = format.datum mem addr ↔ format.Exact mem addr := by
  cases format with
  | real32 =>
    show (shortToTemp (mem.long addr)).datum = realDatum _ (mem.number addr 4) ↔ ZeroOrNormal _ (mem.number addr 4)
    rw [← Memory.long_toNat]
    exact shortToTemp_datum_iff _
  | real64 =>
    show (longToTemp _).datum = realDatum _ (mem.number addr 8) ↔ ZeroOrNormal _ (mem.number addr 8)
    rw [← longs_value]
    exact longToTemp_datum_iff _
  | real80 => exact iff_of_true rfl trivial
  | int16 =>
    refine iff_of_true ?_ trivial
    rw [Format.operand, intToReal_datum, signMagnitude_value, BitVec.toInt_signExtend_of_le (by decide),
      BitVec.toInt_eq_toNat_bmod, Memory.word_toNat]
    rfl
  | int32 =>
    refine iff_of_true ?_ trivial
    rw [Format.operand, intToReal_datum, signMagnitude_value, BitVec.toInt_eq_toNat_bmod, Memory.long_toNat]
    rfl
  | int64 =>
    refine iff_of_true ?_ trivial
    have number := negated_value ⟨mem.long addr, mem.long (addr + 4)⟩
    rw [DoubleWord.toInt, longs_value] at number
    rw [Format.operand, intToReal_datum]
    exact congrArg Datum.number (congrArg Int.cast number)
  | decimal =>
    refine iff_of_true ?_ trivial
    rw [Format.operand, intToReal_datum]
    simp only [sign_byte]
    exact congrArg Datum.number (congrArg Int.cast (decimal_value mem addr))

end Every

end Linux012.Math

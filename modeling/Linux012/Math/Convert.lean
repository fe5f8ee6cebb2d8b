import Linux012.Math.TempReal

/-! The conversions between temporary reals and the 32-bit and 64-bit formats
(`kernel/math/convert.c`). -/

set_option autoImplicit false

namespace Linux012.Math

open CarryWords ExponentWord Rounding

abbrev LongReal := DoubleWord 32

/-- `ROUNDING` -/
def roundingMode (cwd : BitVec 32) : Mode :=
  match ((cwd >>> 10) &&& 3).toNat with
  | 0 => .nearest
  | 1 => .down
  | 2 => .up
  | _ => .towardZero

def shortToTemp (a : BitVec 32) : TempReal :=
  if a &&& 0x7fffffff = 0 then ⟨⟨0, 0⟩, if a ≠ 0 then 0x8000 else 0⟩
  else
    let exponent : BitVec 16 := (((a.sshiftRight 23) &&& 0xff) - 127 + 16383).setWidth 16
    ⟨⟨0, (a <<< 8) ||| 0x80000000⟩, if a.msb then exponent ||| 0x8000 else exponent⟩

def longToTemp (a : LongReal) : TempReal :=
  if a.a = 0 ∧ a.b &&& 0x7fffffff = 0 then ⟨⟨0, 0⟩, if a.b ≠ 0 then 0x8000 else 0⟩
  else
    let exponent : BitVec 16 := (((a.b.sshiftRight 20) &&& 0x7ff) - 1023 + 16383).setWidth 16
    ⟨⟨a.a <<< 11, (0x80000000 : BitVec 32) ||| (a.b <<< 11) ||| (a.a >>> 21)⟩,
      if a.b.msb then exponent ||| 0x8000 else exponent⟩

/-- `temp_to_short` before it rounds. -/
def tempToShortTruncated (a : TempReal) : BitVec 32 :=
  let b := ((a.exponent.signExtend 32 - 16383 + 127) <<< 23) &&& 0x7f800000
  let b := if a.exponent.msb then b ||| 0x80000000 else b
  b ||| ((a.b.sshiftRight 8) &&& 0x007fffff)

def tempToShort (mode : Mode) (a : TempReal) : BitVec 32 :=
  if a.exponent &&& 0x7fff = 0 then if a.exponent ≠ 0 then 0x80000000 else 0
  else
    let b := tempToShortTruncated a
    match mode with
    | .nearest => if 0x80 < a.b &&& 0xff then b + 1 else b
    | .down => if a.exponent &&& 0x8000 ≠ 0 ∧ a.b &&& 0xff ≠ 0 then b + 1 else b
    | .up => if ¬a.exponent &&& 0x8000 ≠ 0 ∧ a.b &&& 0xff ≠ 0 then b + 1 else b
    | .towardZero => b

/-- `temp_to_long` before it rounds. -/
def tempToLongTruncated (a : TempReal) : LongReal :=
  let b := (((0x7fff : BitVec 32) &&& a.exponent.signExtend 32) - 16383 + 1023) <<< 20 &&& 0x7ff00000
  let b := if a.exponent.msb then b ||| 0x80000000 else b
  ⟨a.b <<< 21 ||| (a.a.sshiftRight 11 &&& 0x001fffff), b ||| (a.b.sshiftRight 11 &&& 0x000fffff)⟩

/-- `ROUND_DOWN` and `ROUND_UP` test a word that is not the one whose bits are lost. -/
def tempToLong (mode : Mode) (a : TempReal) : LongReal :=
  if a.exponent &&& 0x7fff = 0 then ⟨0, if a.exponent ≠ 0 then 0x80000000 else 0⟩
  else
    let b := tempToLongTruncated a
    match mode with
    | .nearest => if 0x400 < a.a &&& 0x7ff then b.increment else b
    | .down => if a.exponent &&& 0x8000 ≠ 0 ∧ a.b &&& 0xff ≠ 0 then b.increment else b
    | .up => if ¬a.exponent &&& 0x8000 ≠ 0 ∧ a.b &&& 0xff ≠ 0 then b.increment else b
    | .towardZero => b

/-! ## The fields of a short real -/

theorem low31_eq_zero_iff {v : BitVec 32} : v &&& 0x7fffffff = 0 ↔ v.toNat % 2 ^ 31 = 0 := by
  rw [← BitVec.toNat_inj, toNat_and_mask (n := 0) (k := 31) rfl, Nat.pow_zero, Nat.div_one, Nat.one_mul]
  rfl

theorem exponent_fields (negative : Bool) {e : BitVec 32} {n : Nat} (is : e.toNat = n) (small : n < 2 ^ 15) :
    ExponentWord.field (if negative then e.setWidth 16 ||| 0x8000 else e.setWidth 16) = n ∧
      (if negative then e.setWidth 16 ||| 0x8000 else e.setWidth 16).msb = negative := by
  have low : (e.setWidth 16).toNat = n := by
    rw [BitVec.toNat_setWidth, is]
    omega
  cases negative with
  | false =>
    refine ⟨?_, ?_⟩
    · rw [if_neg Bool.false_ne_true, field_eq, low]
      omega
    · exact msb_eq_of_toNat small (by simpa using low)
  | true =>
    refine ⟨?_, msb_or_sign _⟩
    rw [if_pos rfl, field_or_sign, field_eq, low]
    omega

theorem shortToTemp_fields {v : BitVec 32} (nonzero : v.toNat % 2 ^ 31 ≠ 0) :
    (shortToTemp v).field = v.toNat / 2 ^ 23 % 2 ^ 8 + 16256 ∧ (shortToTemp v).negative = v.msb ∧
      (shortToTemp v).mantissa = 2 ^ 63 + v.toNat % 2 ^ 23 * 2 ^ 40 := by
  have eight : (v.sshiftRight 23 &&& 0xff).toNat = v.toNat / 2 ^ 23 % 2 ^ 8 := toNat_sshiftRight_and rfl (by decide)
  have biased : ((v.sshiftRight 23 &&& 0xff) - 127 + 16383).toNat = v.toNat / 2 ^ 23 % 2 ^ 8 + 16256 := by
    have bias : (127 : BitVec 32).toNat = 127 := rfl
    have bias' : (16383 : BitVec 32).toNat = 16383 := rfl
    rw [BitVec.toNat_add, BitVec.toNat_sub, eight, bias, bias']
    omega
  have high : (v <<< 8 ||| 0x80000000).toNat = 2 ^ 31 + v.toNat % 2 ^ 23 * 2 ^ 8 := by
    rw [show (0x80000000 : BitVec 32) = BitVec.twoPow 32 31 from rfl, toNat_or_top, BitVec.toNat_shiftLeft,
      Nat.shiftLeft_eq]
    omega
  obtain ⟨field, sign⟩ := exponent_fields v.msb biased (by omega)
  rw [shortToTemp, if_neg (by rwa [low31_eq_zero_iff])]
  refine ⟨field, sign, ?_⟩
  rw [TempReal.mantissa, DoubleWord.value]
  dsimp only
  rw [high]
  simp
  omega

/-! ## The fields of a long real -/

theorem long_zero_iff {v : LongReal} : v.a = 0 ∧ v.b &&& 0x7fffffff = 0 ↔ v.value % 2 ^ 63 = 0 := by
  have low := v.a.isLt
  rw [low31_eq_zero_iff, ← BitVec.toNat_inj, DoubleWord.value]
  change v.a.toNat = 0 ∧ _ ↔ _
  omega

theorem longToTemp_fields {v : LongReal} (nonzero : v.value % 2 ^ 63 ≠ 0) :
    (longToTemp v).field = v.value / 2 ^ 52 % 2 ^ 11 + 15360 ∧ (longToTemp v).negative = v.b.msb ∧
      (longToTemp v).mantissa = 2 ^ 63 + v.value % 2 ^ 52 * 2 ^ 11 := by
  have aSmall := v.a.isLt
  have bSmall := v.b.isLt
  have eleven : (v.b.sshiftRight 20 &&& 0x7ff).toNat = v.value / 2 ^ 52 % 2 ^ 11 := by
    rw [toNat_sshiftRight_and (n := 20) (k := 11) rfl (by decide), DoubleWord.value]
    omega
  have biased : ((v.b.sshiftRight 20 &&& 0x7ff) - 1023 + 16383).toNat = v.value / 2 ^ 52 % 2 ^ 11 + 15360 := by
    have bias : (1023 : BitVec 32).toNat = 1023 := rfl
    have bias' : (16383 : BitVec 32).toNat = 16383 := rfl
    rw [BitVec.toNat_add, BitVec.toNat_sub, eleven, bias, bias']
    omega
  have lowWord : (v.a <<< 11).toNat = v.a.toNat % 2 ^ 21 * 2 ^ 11 := by
    rw [BitVec.toNat_shiftLeft, Nat.shiftLeft_eq]
    omega
  have top : ((0x80000000 : BitVec 32) ||| v.b <<< 11).toNat = 2 ^ 11 * (2 ^ 20 + v.b.toNat % 2 ^ 20) := by
    rw [BitVec.or_comm, show (0x80000000 : BitVec 32) = BitVec.twoPow 32 31 from rfl, toNat_or_top,
      BitVec.toNat_shiftLeft, Nat.shiftLeft_eq]
    omega
  have brought : (v.a >>> 21).toNat = v.a.toNat / 2 ^ 21 := by
    rw [BitVec.toNat_ushiftRight, Nat.shiftRight_eq_div_pow]
  have highWord : ((0x80000000 : BitVec 32) ||| v.b <<< 11 ||| v.a >>> 21).toNat =
      2 ^ 11 * (2 ^ 20 + v.b.toNat % 2 ^ 20) + v.a.toNat / 2 ^ 21 := by
    rw [BitVec.or_comm, toNat_or_of_lt (by omega) top, brought, top, Nat.add_comm]
  obtain ⟨field, sign⟩ := exponent_fields v.b.msb biased (by omega)
  rw [longToTemp, if_neg (by rwa [long_zero_iff])]
  refine ⟨field, sign, ?_⟩
  rw [TempReal.mantissa, DoubleWord.value]
  dsimp only
  rw [lowWord, highWord, DoubleWord.value]
  omega

/-! ## The fields of a temporary real that is stored -/

variable {a : TempReal}

theorem field_ne_zero_iff : ¬a.exponent &&& 0x7fff = 0 ↔ a.field ≠ 0 := by
  rw [TempReal.field, ExponentWord.field, ← BitVec.toNat_inj]
  rfl

theorem toNat_signExtend (a : TempReal) :
    (a.exponent.signExtend 32).toNat = (2 ^ 32 - 2 ^ 15) * a.negative.toNat + a.field := by
  have whole := toNat_eq a.exponent
  have small := field_lt a.exponent
  rw [BitVec.toNat_signExtend, BitVec.toNat_setWidth, whole, TempReal.negative, TempReal.field]
  cases a.exponent.msb <;> simp <;> omega

theorem toNat_withSign (negative : Bool) {x : BitVec 32} (small : x.toNat < 2 ^ 31) :
    (if negative then x ||| 0x80000000 else x).toNat = 2 ^ 31 * negative.toNat + x.toNat := by
  cases negative with
  | false => simp
  | true =>
    rw [if_pos rfl, show (0x80000000 : BitVec 32) = BitVec.twoPow 32 31 from rfl, toNat_or_top,
      Nat.mod_eq_of_lt small, Bool.toNat_true, Nat.mul_one, Nat.add_comm]

theorem tempToShortTruncated_toNat (a : TempReal) :
    (tempToShortTruncated a).toNat = 2 ^ 31 * a.negative.toNat +
      ((a.field + 128) % 2 ^ 8 * 2 ^ 23 + a.mantissa / 2 ^ 40 % 2 ^ 23) := by
  have wide := toNat_signExtend a
  have low := a.a.isLt
  have high := a.b.isLt
  have exponent : (((a.exponent.signExtend 32 - 16383 + 127) <<< 23) &&& 0x7f800000).toNat =
      2 ^ 23 * ((a.field + 128) % 2 ^ 8) := by
    rw [toNat_and_mask (n := 23) (k := 8) rfl, BitVec.toNat_shiftLeft, Nat.shiftLeft_eq, BitVec.toNat_add,
      BitVec.toNat_sub, wide]
    change 2 ^ 23 * (((2 ^ 32 - 16383 + _) % 2 ^ 32 + 127) % 2 ^ 32 * 2 ^ 23 % 2 ^ 32 / 2 ^ 23 % 2 ^ 8) = _
    cases a.negative <;> simp only [Bool.toNat_true, Bool.toNat_false] <;> omega
  have fraction : (a.b.sshiftRight 8 &&& 0x007fffff).toNat = a.mantissa / 2 ^ 40 % 2 ^ 23 := by
    rw [toNat_sshiftRight_and (n := 8) (k := 23) rfl (by decide), TempReal.mantissa, DoubleWord.value]
    omega
  have signed := toNat_withSign a.negative (x := ((a.exponent.signExtend 32 - 16383 + 127) <<< 23) &&& 0x7f800000)
    (by rw [exponent]; omega)
  rw [exponent] at signed
  have above : 2 ^ 31 * a.negative.toNat + 2 ^ 23 * ((a.field + 128) % 2 ^ 8) =
      2 ^ 23 * (2 ^ 8 * a.negative.toNat + (a.field + 128) % 2 ^ 8) := by omega
  rw [above] at signed
  dsimp only [tempToShortTruncated]
  rw [show a.exponent.msb = a.negative from rfl, BitVec.or_comm,
    toNat_or_of_lt (by rw [fraction]; omega) signed, fraction, signed]
  omega

theorem tempToLongTruncated_value (a : TempReal) :
    (tempToLongTruncated a).value = 2 ^ 63 * a.negative.toNat +
      ((a.field + 1024) % 2 ^ 11 * 2 ^ 52 + a.mantissa / 2 ^ 11 % 2 ^ 52) := by
  have wide := toNat_signExtend a
  have low := a.a.isLt
  have high := a.b.isLt
  have exponent : ((((0x7fff : BitVec 32) &&& a.exponent.signExtend 32) - 16383 + 1023) <<< 20 &&& 0x7ff00000).toNat =
      2 ^ 20 * ((a.field + 1024) % 2 ^ 11) := by
    have small := field_lt a.exponent
    have fifteen : ((0x7fff : BitVec 32) &&& a.exponent.signExtend 32).toNat = a.field := by
      rw [BitVec.and_comm, toNat_and_mask (n := 0) (k := 15) rfl, wide]
      change a.field < 2 ^ 15 at small
      cases a.negative <;> simp only [Bool.toNat_true, Bool.toNat_false] <;> omega
    rw [toNat_and_mask (n := 20) (k := 11) rfl, BitVec.toNat_shiftLeft, Nat.shiftLeft_eq, BitVec.toNat_add,
      BitVec.toNat_sub, fifteen]
    change 2 ^ 20 * (((2 ^ 32 - 16383 + _) % 2 ^ 32 + 1023) % 2 ^ 32 * 2 ^ 20 % 2 ^ 32 / 2 ^ 20 % 2 ^ 11) = _
    omega
  have signed := toNat_withSign a.negative
    (x := (((0x7fff : BitVec 32) &&& a.exponent.signExtend 32) - 16383 + 1023) <<< 20 &&& 0x7ff00000)
    (by rw [exponent]; omega)
  have above : 2 ^ 31 * a.negative.toNat + 2 ^ 20 * ((a.field + 1024) % 2 ^ 11) =
      2 ^ 20 * (2 ^ 11 * a.negative.toNat + (a.field + 1024) % 2 ^ 11) := by omega
  rw [exponent, above] at signed
  have fraction : (a.b.sshiftRight 11 &&& 0x000fffff).toNat = a.b.toNat / 2 ^ 11 % 2 ^ 20 :=
    toNat_sshiftRight_and rfl (by decide)
  have brought : (a.a.sshiftRight 11 &&& 0x001fffff).toNat = a.a.toNat / 2 ^ 11 % 2 ^ 21 :=
    toNat_sshiftRight_and rfl (by decide)
  have moved : (a.b <<< 21).toNat = 2 ^ 21 * (a.b.toNat % 2 ^ 11) := by
    rw [BitVec.toNat_shiftLeft, Nat.shiftLeft_eq]
    omega
  dsimp only [tempToLongTruncated]
  rw [DoubleWord.value]
  dsimp only
  rw [show a.exponent.msb = a.negative from rfl, BitVec.or_comm (a.b <<< 21),
    toNat_or_of_lt (by rw [brought]; omega) moved, BitVec.or_comm (if a.negative = true then _ else _),
    toNat_or_of_lt (by rw [fraction]; omega) signed, fraction, brought, moved, signed, TempReal.mantissa,
    DoubleWord.value]
  omega

/-! ## What is added for rounding -/

/-- `above` is the test of `ROUND_NEAREST`; the others test the low byte of the high word. -/
def increments (above : Bool) (mode : Mode) (a : TempReal) : Bool :=
  match mode with
  | .nearest => above
  | .down => a.negative && decide (a.mantissa / 2 ^ 32 % 2 ^ 8 ≠ 0)
  | .up => !a.negative && decide (a.mantissa / 2 ^ 32 % 2 ^ 8 ≠ 0)
  | .towardZero => false

def shortIncrements (mode : Mode) (a : TempReal) : Bool :=
  increments (decide (2 ^ 7 < a.mantissa / 2 ^ 32 % 2 ^ 8)) mode a

def longIncrements (mode : Mode) (a : TempReal) : Bool := increments (decide (2 ^ 10 < a.mantissa % 2 ^ 11)) mode a

theorem sign_ne_zero_iff : a.exponent &&& 0x8000 ≠ 0 ↔ a.negative = true := by
  rw [TempReal.negative, ← msb_and_sign, ne_eq, ← BitVec.toNat_inj, toNat_eq, field_and_sign]
  cases (a.exponent &&& 0x8000).msb <;> simp

theorem low8_toNat (a : TempReal) : (a.b &&& 0xff).toNat = a.mantissa / 2 ^ 32 % 2 ^ 8 := by
  have low := a.a.isLt
  rw [toNat_and_mask (n := 0) (k := 8) rfl, TempReal.mantissa, DoubleWord.value]
  omega

theorem low8_ne_zero_iff : a.b &&& 0xff ≠ 0 ↔ a.mantissa / 2 ^ 32 % 2 ^ 8 ≠ 0 := by
  rw [← low8_toNat, ne_eq, ← BitVec.toNat_inj]
  rfl

theorem low11_toNat (a : TempReal) : (a.a &&& 0x7ff).toNat = a.mantissa % 2 ^ 11 := by
  rw [toNat_and_mask (n := 0) (k := 11) rfl, TempReal.mantissa, DoubleWord.value]
  omega

theorem down_iff {above : Bool} :
    (a.exponent &&& 0x8000 ≠ 0 ∧ a.b &&& 0xff ≠ 0) ↔ increments above .down a = true := by
  rw [sign_ne_zero_iff, low8_ne_zero_iff, increments, Bool.and_eq_true, decide_eq_true_iff]

theorem up_iff {above : Bool} :
    (¬a.exponent &&& 0x8000 ≠ 0 ∧ a.b &&& 0xff ≠ 0) ↔ increments above .up a = true := by
  rw [sign_ne_zero_iff, low8_ne_zero_iff, increments, Bool.and_eq_true, decide_eq_true_iff, Bool.not_eq_true,
    Bool.not_eq_true']

theorem toNat_ite_succ {test : Prop} [Decidable test] {flag : Bool} (same : test ↔ flag = true) (b : BitVec 32) :
    (if test then b + 1 else b).toNat = (b.toNat + flag.toNat) % 2 ^ 32 := by
  by_cases holds : test
  · rw [if_pos holds, same.mp holds, BitVec.toNat_add]
    rfl
  · rw [if_neg holds, Bool.eq_false_iff.mpr (mt same.mpr holds), Bool.toNat_false, Nat.add_zero,
      Nat.mod_eq_of_lt b.isLt]

theorem value_ite_increment {test : Prop} [Decidable test] {flag : Bool} (same : test ↔ flag = true) (b : LongReal) :
    (if test then b.increment else b).value = (b.value + flag.toNat) % 2 ^ 64 := by
  by_cases holds : test
  · rw [if_pos holds, same.mp holds, DoubleWord.value_increment (by decide)]
    rfl
  · rw [if_neg holds, Bool.eq_false_iff.mpr (mt same.mpr holds), Bool.toNat_false, Nat.add_zero,
      Nat.mod_eq_of_lt b.value_lt]

theorem tempToShort_eq (nonzero : a.field ≠ 0) (mode : Mode) :
    (tempToShort mode a).toNat = ((tempToShortTruncated a).toNat + (shortIncrements mode a).toNat) % 2 ^ 32 := by
  rw [tempToShort, if_neg (field_ne_zero_iff.mpr nonzero)]
  cases mode with
  | nearest =>
    refine toNat_ite_succ ?_ _
    rw [shortIncrements, increments, decide_eq_true_iff, BitVec.lt_def, low8_toNat]
    rfl
  | down => exact toNat_ite_succ down_iff _
  | up => exact toNat_ite_succ up_iff _
  | towardZero => exact (Nat.mod_eq_of_lt (tempToShortTruncated a).isLt).symm

theorem tempToLong_eq (nonzero : a.field ≠ 0) (mode : Mode) :
    (tempToLong mode a).value = ((tempToLongTruncated a).value + (longIncrements mode a).toNat) % 2 ^ 64 := by
  rw [tempToLong, if_neg (field_ne_zero_iff.mpr nonzero)]
  cases mode with
  | nearest =>
    refine value_ite_increment ?_ _
    rw [longIncrements, increments, decide_eq_true_iff, BitVec.lt_def, low11_toNat]
    rfl
  | down => exact value_ite_increment down_iff _
  | up => exact value_ite_increment up_iff _
  | towardZero => exact (Nat.mod_eq_of_lt (tempToLongTruncated a).value_lt).symm

end Linux012.Math

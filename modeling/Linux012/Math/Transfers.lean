import Linux012.Math.EffectiveAddress
import Linux012.Math.LoadedReals

/-! The accesses to user memory: getting and putting integers, reals and decimals
(`kernel/math/get_put.c`, and the integers of `kernel/math/convert.c`). -/

set_option autoImplicit false

namespace Linux012.Math

open CarryWords Rounding

/-! ## Integers -/

structure TempInt extends DoubleWord 32 where
  sign : Bool
deriving DecidableEq

theorem integer_ne_zero {a : TempInt} (nonzero : ¬(a.a = 0 ∧ a.b = 0)) (exponent : BitVec 16) :
    (⟨a.toDoubleWord, exponent⟩ : TempReal).mantissa ≠ 0 := by
  rwa [ne_eq, TempReal.mantissa_eq_zero_iff]

def intToReal (a : TempInt) : TempReal :=
  if zero : a.a = 0 ∧ a.b = 0 then ⟨a.toDoubleWord, 0⟩
  else
    (normaliseLoop.run ⟨⟨a.toDoubleWord, 16383 + 63 + if a.sign then 0x8000 else 0⟩, integer_ne_zero zero _⟩).val

/-- The words and the lost bits of `real_to_int` before it shifts, and how far it shifts. -/
def integerWords (a : TempReal) (shift : Nat) : DoubleWord 32 × BitVec 32 × Nat :=
  if shift < 32 then (⟨a.a, a.b⟩, 0, shift)
  else if shift < 64 then (⟨a.b, 0⟩, a.a, shift - 32)
  else (⟨0, 0⟩, a.b, shift - 64)

def roundInteger (mode : Mode) (sign : Bool) (p : DoubleWord 32) (underflow : BitVec 32) : DoubleWord 32 :=
  match mode with
  | .nearest => if (addCarry (0x7fffffff + (p.a &&& 1)) underflow false).carry then p.increment else p
  | .up => if !sign ∧ underflow ≠ 0 then p.increment else p
  | .down => if sign ∧ underflow ≠ 0 then p.increment else p
  | .towardZero => p

def realToInt (mode : Mode) (a : TempReal) (swd : BitVec 32) : TempInt × BitVec 32 :=
  let shift : ℤ := 16383 + 63 - a.field
  if shift < 0 then (⟨⟨0, 0⟩, a.exponent.msb⟩, setOE swd)
  else if 96 ≤ shift then (⟨⟨0, 0⟩, a.exponent.msb⟩, swd)
  else
    let (p, underflow, shift) := integerWords a shift.toNat
    let underflow := (DoubleWord.shiftRight ⟨underflow, p.a⟩ shift).a
    (⟨roundInteger mode a.exponent.msb (p.shiftRight shift) underflow, a.exponent.msb⟩, swd)

/-! ## Getting -/

def getShortReal (code : Nat) : Emu TempReal := do
  let addr ← ea code
  let sr ← getFsLong addr
  return shortToTemp sr

def getLongReal (code : Nat) : Emu TempReal := do
  let addr ← ea code
  let a ← getFsLong addr
  let b ← getFsLong (addr + 4)
  return longToTemp ⟨a, b⟩

def getTempReal (code : Nat) : Emu TempReal := do
  let addr ← ea code
  let a ← getFsLong addr
  let b ← getFsLong (addr + 4)
  let exponent ← getFsWord (addr + 8)
  return ⟨⟨a, b⟩, exponent⟩

def signMagnitude (a : BitVec 32) : TempInt := ⟨⟨if a.msb then -a else a, 0⟩, a.msb⟩

def getShortInt (code : Nat) : Emu TempReal := do
  let addr ← ea code
  let a ← getFsWord addr
  return intToReal (signMagnitude (a.signExtend 32))

def getLongInt (code : Nat) : Emu TempReal := do
  let addr ← ea code
  let a ← getFsLong addr
  return intToReal (signMagnitude a)

def getLonglongInt (code : Nat) : Emu TempReal := do
  let addr ← ea code
  let a ← getFsLong addr
  let b ← getFsLong (addr + 4)
  let ti : DoubleWord 32 := ⟨a, b⟩
  return intToReal ⟨if b.msb then ti.negate else ti, b.msb⟩

def mul10 (p : DoubleWord 32) : DoubleWord 32 := p.double.double.double.add p.double

def add64 (val : BitVec 32) (p : DoubleWord 32) : DoubleWord 32 := p.add ⟨val, 0⟩

def addDigits (p : DoubleWord 32) (c : BitVec 8) : DoubleWord 32 :=
  add64 ((c &&& 0xf).setWidth 32) (mul10 (add64 ((c >>> 4).setWidth 32) (mul10 p)))

/-- The loop of `get_BCD` with `k` rounds left. -/
def getDigits : Nat → BitVec 32 → DoubleWord 32 → Emu (DoubleWord 32)
  | 0, _, i => pure i
  | k + 1, addr, i => do
    let c ← getFsByte addr
    getDigits k (addr - 1) (addDigits i c)

def getBCD (code : Nat) : Emu TempReal := do
  let addr ← ea code
  let addr := addr + 9
  let sign ← getFsByte addr
  let i ← getDigits 9 (addr - 1) ⟨0, 0⟩
  return intToReal ⟨i, sign &&& 0x80 ≠ 0⟩

/-! ## Putting -/

/-- `real_to_int`, with `ROUNDING` as it is in the control word. -/
def toInteger (tmp : TempReal) : Emu TempInt := do
  let s ← get
  let (ti, swd) := realToInt (roundingMode s.i387.cwd) tmp s.i387.swd
  modifySwd fun _ => swd
  return ti

def putShortReal (tmp : TempReal) (code : Nat) : Emu Unit := do
  let addr ← ea code
  putFsLong (tempToShort (roundingMode (← get).i387.cwd) tmp) addr

def putLongReal (tmp : TempReal) (code : Nat) : Emu Unit := do
  let addr ← ea code
  let lr := tempToLong (roundingMode (← get).i387.cwd) tmp
  putFsLong lr.a addr
  putFsLong lr.b (addr + 4)

def putTempReal (tmp : TempReal) (code : Nat) : Emu Unit := do
  let addr ← ea code
  putFsLong tmp.a addr
  putFsLong tmp.b (addr + 4)
  putFsWord tmp.exponent (addr + 8)

def putShortInt (tmp : TempReal) (code : Nat) : Emu Unit := do
  let addr ← ea code
  let ti ← toInteger tmp
  putFsWord ((if ti.sign then -ti.a else ti.a).setWidth 16) addr

def putLongInt (tmp : TempReal) (code : Nat) : Emu Unit := do
  let addr ← ea code
  let ti ← toInteger tmp
  putFsLong (if ti.sign then -ti.a else ti.a) addr

def putLonglongInt (tmp : TempReal) (code : Nat) : Emu Unit := do
  let addr ← ea code
  let ti ← toInteger tmp
  let ti := if ti.sign then ti.toDoubleWord.negate else ti.toDoubleWord
  putFsLong ti.a addr
  putFsLong ti.b (addr + 4)

def div10 (p : DoubleWord 32) : DoubleWord 32 × BitVec 32 :=
  let rest := 2 ^ 32 * (p.b.toNat % 10) + p.a.toNat
  (⟨BitVec.ofNat 32 (rest / 10), p.b / 10⟩, BitVec.ofNat 32 (rest % 10))

/-- The loop of `put_BCD` with `k` rounds left. -/
def putDigits : Nat → BitVec 32 → DoubleWord 32 → Emu Unit
  | 0, _, _ => pure ()
  | k + 1, addr, i => do
    let (i, low) := div10 i
    let (i, high) := div10 i
    putFsByte ((low + high <<< 4).setWidth 8) addr
    putDigits k (addr + 1) i

def putBCD (tmp : TempReal) (code : Nat) : Emu Unit := do
  let addr ← ea code
  let i ← toInteger tmp
  putFsByte (if i.sign then 0x80 else 0) (addr + 9)
  putDigits 9 addr i.toDoubleWord

end Linux012.Math

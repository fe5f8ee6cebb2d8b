import Linux012.Lib.RegisterStack
import Linux012.Math.Compare
import Linux012.Math.Divide
import Mathlib.Data.BitVec

/-! What the emulator works on: the coprocessor state of the task, the registers that the trap
saved and the memory of the user (`include/linux/math_emu.h`). -/

set_option autoImplicit false

namespace Linux012.Math

open CarryWords Function

/-! ## Temporary reals in bytes -/

namespace TempReal

def byte (r : TempReal) (k : Nat) : BitVec 8 :=
  if k < 4 then r.a.extractLsb' (8 * k) 8
  else if k < 8 then r.b.extractLsb' (8 * (k - 4)) 8
  else r.exponent.extractLsb' (8 * (k - 8)) 8

def ofBytes (f : Nat → BitVec 8) : TempReal :=
  ⟨⟨f 3 ++ f 2 ++ f 1 ++ f 0, f 7 ++ f 6 ++ f 5 ++ f 4⟩, f 9 ++ f 8⟩

end TempReal

/-! ## The state -/

structure I387 where
  cwd : BitVec 32
  swd : BitVec 32
  twd : BitVec 32
  fip : BitVec 32
  fcs : BitVec 32
  foo : BitVec 32
  fos : BitVec 32
  stSpace : BitVec 3 → TempReal

namespace I387

/-- `((long *) & I387)[n]` -/
def long (s : I387) (n : Nat) : BitVec 32 :=
  match n with
  | 0 => s.cwd
  | 1 => s.swd
  | 2 => s.twd
  | 3 => s.fip
  | 4 => s.fcs
  | 5 => s.foo
  | 6 => s.fos
  | n + 7 =>
    let byte (j : Nat) : BitVec 8 := (s.stSpace (BitVec.ofNat 3 (j / 10))).byte (j % 10)
    byte (4 * n + 3) ++ byte (4 * n + 2) ++ byte (4 * n + 1) ++ byte (4 * n)

def setLong (s : I387) (n : Nat) (v : BitVec 32) : I387 :=
  match n with
  | 0 => { s with cwd := v }
  | 1 => { s with swd := v }
  | 2 => { s with twd := v }
  | 3 => { s with fip := v }
  | 4 => { s with fcs := v }
  | 5 => { s with foo := v }
  | 6 => { s with fos := v }
  | n + 7 =>
    { s with
      stSpace := fun r => .ofBytes fun k =>
        let j := 10 * r.toNat + k
        if j / 4 = n then v.extractLsb' (8 * (j % 4)) 8 else (s.stSpace r).byte k }

def initialise (s : I387) : I387 := { s with cwd := 0x037f, swd := 0, twd := 0 }

end I387

structure Info where
  origEip : BitVec 32
  edi : BitVec 32
  esi : BitVec 32
  ebp : BitVec 32
  eax : BitVec 32
  ebx : BitVec 32
  ecx : BitVec 32
  edx : BitVec 32
  eip : BitVec 32
  cs : BitVec 16
  esp : BitVec 32
deriving DecidableEq

/-- `REG`, with `__regoffset` -/
def Info.reg (info : Info) (x : BitVec 3) : BitVec 32 :=
  match x with
  | 0 => info.eax
  | 1 => info.ecx
  | 2 => info.edx
  | 3 => info.ebx
  | 4 => info.esp
  | 5 => info.ebp
  | 6 => info.esi
  | 7 => info.edi

abbrev Memory := BitVec 32 → BitVec 8

structure Machine where
  info : Info
  i387 : I387
  memory : Memory
  usedMath : Bool
  signal : BitVec 32

inductive Stop where
  | aborted
  | panicked
deriving DecidableEq

abbrev Emu := EStateM Stop Machine

section Run

variable {α β : Type} (s : Machine)

theorem bind_apply (x : Emu α) (f : α → Emu β) :
    (x >>= f) s = match x s with
      | .ok a s' => f a s'
      | .error e s' => .error e s' := by
  show EStateM.bind x f s = _
  rw [EStateM.bind]
  cases x s <;> rfl

theorem pure_apply (a : α) : (pure a : Emu α) s = .ok a s := rfl

theorem get_apply : (get : Emu Machine) s = .ok s s := rfl

theorem modify_apply (f : Machine → Machine) : (modify f : Emu Unit) s = .ok () (f s) := rfl

end Run

def sigill : Nat := 4

def sigfpe : Nat := 8

def signalBit (signal : Nat) : BitVec 32 := BitVec.twoPow 32 (signal - 1)

def mathAbort {α : Type} (signal : BitVec 32) : Emu α := do
  modify fun s => { s with info := { s.info with eip := s.info.origEip }, signal := s.signal ||| signal }
  throw .aborted

/-! ## User memory -/

namespace Memory

def word (mem : Memory) (addr : BitVec 32) : BitVec 16 := mem (addr + 1) ++ mem addr

def long (mem : Memory) (addr : BitVec 32) : BitVec 32 :=
  mem (addr + 3) ++ mem (addr + 2) ++ mem (addr + 1) ++ mem addr

def putWord (mem : Memory) (v : BitVec 16) (addr : BitVec 32) : Memory :=
  update (update mem addr (v.extractLsb' 0 8)) (addr + 1) (v.extractLsb' 8 8)

def putLong (mem : Memory) (v : BitVec 32) (addr : BitVec 32) : Memory :=
  putWord (putWord mem (v.extractLsb' 0 16) addr) (v.extractLsb' 16 16) (addr + 2)

end Memory

def getFsByte (addr : BitVec 32) : Emu (BitVec 8) := do
  return (← get).memory addr

def getFsWord (addr : BitVec 32) : Emu (BitVec 16) := do
  return (← get).memory.word addr

def getFsLong (addr : BitVec 32) : Emu (BitVec 32) := do
  return (← get).memory.long addr

def putFsByte (v : BitVec 8) (addr : BitVec 32) : Emu Unit :=
  modify fun s => { s with memory := update s.memory addr v }

def putFsWord (v : BitVec 16) (addr : BitVec 32) : Emu Unit :=
  modify fun s => { s with memory := s.memory.putWord v addr }

def putFsLong (v : BitVec 32) (addr : BitVec 32) : Emu Unit :=
  modify fun s => { s with memory := s.memory.putLong v addr }

/-! ## The register stack -/

def stIndex (swd : BitVec 32) (i : Nat) : BitVec 3 :=
  ((BitVec.ofNat 32 i + swd.sshiftRight 11) &&& 7).setWidth 3

def popTop (swd : BitVec 32) : BitVec 32 := ((swd + 0x00000800) &&& 0x00003800) ||| (swd &&& 0xffffc7ff)

def pushTop (swd : BitVec 32) : BitVec 32 := ((swd + 0x00003800) &&& 0x00003800) ||| (swd &&& 0xffffc7ff)

namespace Machine

def setI387 (s : Machine) (i387 : I387) : Machine := { s with i387 := i387 }

def setSwd (s : Machine) (swd : BitVec 32) : Machine := s.setI387 { s.i387 with swd := swd }

def st (s : Machine) (i : Nat) : TempReal := s.i387.stSpace (stIndex s.i387.swd i)

def setSt (s : Machine) (i : Nat) (r : TempReal) : Machine :=
  s.setI387 { s.i387 with stSpace := update s.i387.stSpace (stIndex s.i387.swd i) r }

def fpop (s : Machine) : Machine := s.setSwd (popTop s.i387.swd)

def fpush (s : Machine) : Machine := s.setSwd (pushTop s.i387.swd)

end Machine

def st (i : Nat) : Emu TempReal := do
  return (← get).st i

def setSt (i : Nat) (r : TempReal) : Emu Unit := modify fun s => s.setSt i r

def modifySwd (f : BitVec 32 → BitVec 32) : Emu Unit := modify fun s => s.setSwd (f s.i387.swd)

def fpop : Emu Unit := modify Machine.fpop

def fpush : Emu Unit := modify Machine.fpush

def fxchg (i j : Nat) : Emu Unit := do
  let c ← st i
  setSt i (← st j)
  setSt j c

/-- A call of a routine that may leave `*result` as it was. -/
def assign (routine : BitVec 32 → Outcome) (result : TempReal) : Emu TempReal := do
  let outcome := routine (← get).i387.swd
  modifySwd fun _ => outcome.swd
  return outcome.result.getD result

/-! ## The stack as the instructions see it -/

def topOf (swd : BitVec 32) : BitVec 3 := swd.extractLsb' 11 3

def Machine.stack (s : Machine) : RegisterStack (BitVec 3) TempReal := ⟨topOf s.i387.swd, s.i387.stSpace⟩

section Top

variable {swd mask : BitVec 32}

theorem topOf_toNat (swd : BitVec 32) : (topOf swd).toNat = swd.toNat / 2 ^ 11 % 8 := by
  rw [topOf, BitVec.extractLsb'_toNat, Nat.shiftRight_eq_div_pow]

theorem topOf_or (clear : topOf mask = 0) : topOf (swd ||| mask) = topOf swd := by
  rw [topOf, topOf] at *
  rw [BitVec.extractLsb'_or, clear]
  exact BitVec.or_zero

theorem topOf_and (full : topOf mask = 7) : topOf (swd &&& mask) = topOf swd := by
  rw [topOf, topOf] at *
  rw [BitVec.extractLsb'_and, full]
  exact BitVec.and_allOnes

theorem topOf_turned (x : BitVec 32) : topOf ((x &&& 0x00003800) ||| (swd &&& 0xffffc7ff)) = topOf x := by
  have kept : topOf (x &&& 0x00003800) = topOf x := topOf_and (by decide)
  have others : topOf (swd &&& 0xffffc7ff) = 0 := by
    rw [topOf, BitVec.extractLsb'_and]
    exact BitVec.and_zero
  rw [topOf_or others, kept]

theorem topOf_popTop (swd : BitVec 32) : topOf (popTop swd) = topOf swd + 1 := by
  rw [popTop, topOf_turned]
  apply BitVec.eq_of_toNat_eq
  have step : (0x00000800 : BitVec 32).toNat = 2 ^ 11 := rfl
  have one : (1 : BitVec 3).toNat = 1 := rfl
  rw [topOf_toNat, BitVec.toNat_add, BitVec.toNat_add, topOf_toNat, step, one]
  omega

theorem topOf_pushTop (swd : BitVec 32) : topOf (pushTop swd) = topOf swd - 1 := by
  rw [pushTop, topOf_turned]
  apply BitVec.eq_of_toNat_eq
  have step : (0x00003800 : BitVec 32).toNat = 7 * 2 ^ 11 := rfl
  have one : (1 : BitVec 3).toNat = 1 := rfl
  rw [topOf_toNat, BitVec.toNat_add, BitVec.toNat_sub, topOf_toNat, step, one]
  omega

theorem stIndex_eq (swd : BitVec 32) (i : Nat) : stIndex swd i = topOf swd + BitVec.ofNat 3 i := by
  have seven : (7 : BitVec 32).setWidth 3 = BitVec.allOnes 3 := rfl
  have top : (swd.sshiftRight 11).setWidth 3 = topOf swd := by
    apply BitVec.eq_of_getLsbD_eq
    intro k inside
    rw [topOf, BitVec.getLsbD_setWidth, BitVec.getLsbD_sshiftRight, BitVec.getLsbD_extractLsb']
    have low : 11 + k < 32 := by omega
    simp [low, inside]
    omega
  rw [stIndex, BitVec.setWidth_and, seven, BitVec.and_allOnes, BitVec.setWidth_add _ _ (by decide), top,
    BitVec.setWidth_ofNat_of_le (by decide), add_comm]

theorem topOf_clearCx (swd : BitVec 32) : topOf (clearCx swd) = topOf swd := topOf_and (by decide)

theorem topOf_ftst (a : TempReal) (swd : BitVec 32) : topOf (ftst a swd) = topOf swd := by
  have kept := topOf_clearCx swd
  dsimp only [ftst]
  split
  · split
    · exact (topOf_or (by decide)).trans kept
    · exact kept
  · exact (topOf_or (by decide)).trans kept

theorem topOf_fmul (x y : TempReal) (swd : BitVec 32) : topOf (fmul x y swd).swd = topOf swd := by
  rw [fmul]
  split
  · rfl
  · split
    · exact topOf_or (by decide)
    · rfl

theorem topOf_fdivFinish (sign : BitVec 16) (i : Nat) (tmp : Words) (swd : BitVec 32) :
    topOf (fdivFinish sign i tmp swd).swd = topOf swd := by
  rw [fdivFinish]
  split
  · exact topOf_or (by decide)
  · dsimp only
    split
    · exact topOf_or (by decide)
    · rfl

theorem topOf_fdiv (x y : TempReal) (swd : BitVec 32) : topOf (fdiv x y swd).swd = topOf swd := by
  by_cases zero : y.a = 0 ∧ y.b = 0
  · rw [fdiv, dif_pos zero]
    exact topOf_or (by decide)
  · rw [fdiv, dif_neg zero]
    dsimp only
    generalize (x.field : ℤ) - y.field + 16383 = i
    by_cases low : i < 0
    · rw [if_pos low]
      exact topOf_or (by decide)
    · rw [if_neg low]
      generalize shiftLoop.run ((fdivDivisor i.toNat y zero).1, fdivQuotient i.toNat x y zero) = last
      by_cases none : fdivQuotient i.toNat x y zero = ⟨0, 0, 0, 0⟩
      · rw [if_pos none]
        exact topOf_fdivFinish ..
      · rw [if_neg none, topOf_fdivFinish]
        split
        · rfl
        · exact topOf_or (by decide)

end Top

/-! ## The condition codes -/

def conditionCodes (swd : BitVec 32) : Bool × Bool × Bool := (C0 swd, C2 swd, C3 swd)

theorem conditionCodes_popTop (swd : BitVec 32) : conditionCodes (popTop swd) = conditionCodes swd := by
  simp [conditionCodes, popTop, C0, C2, C3]

theorem conditionCodes_ftst (a : TempReal) (swd swd' : BitVec 32) :
    conditionCodes (ftst a swd) = conditionCodes (ftst a swd') := by
  have clear := codes_clear swd
  have clear' := codes_clear swd'
  have one := codes_setC0 swd
  have one' := codes_setC0 swd'
  have three := codes_setC3 swd
  have three' := codes_setC3 swd'
  by_cases zero : a.mantissa = 0
  · simp [conditionCodes, ftst_of_zero zero, three, three']
  · cases sign : a.negative with
    | false => simp [conditionCodes, ftst_of_ne_zero zero, sign, clear, clear']
    | true => simp [conditionCodes, ftst_of_ne_zero zero, sign, one, one']

/-! ## The stack of a changed state -/

namespace Machine

variable {s : Machine}

@[simp] theorem st_eq (s : Machine) (i : Nat) : s.st i = s.stack.st (BitVec.ofNat 3 i) := by
  rw [st, stIndex_eq]
  rfl

@[simp] theorem stack_setSt (s : Machine) (i : Nat) (r : TempReal) :
    (s.setSt i r).stack = s.stack.set (BitVec.ofNat 3 i) r := by
  rw [setSt, stIndex_eq]
  rfl

theorem stack_setSwd {swd : BitVec 32} (same : topOf swd = topOf s.i387.swd) : (s.setSwd swd).stack = s.stack :=
  congrArg (RegisterStack.mk · s.i387.stSpace) same

@[simp] theorem stack_fpop (s : Machine) : s.fpop.stack = s.stack.pop :=
  congrArg (RegisterStack.mk · s.i387.stSpace) (topOf_popTop s.i387.swd)

@[simp] theorem stack_fpush (s : Machine) : s.fpush.stack = s.stack.turnBack :=
  congrArg (RegisterStack.mk · s.i387.stSpace) (topOf_pushTop s.i387.swd)

end Machine

end Linux012.Math

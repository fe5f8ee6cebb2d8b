import Linux012.Math.Assigned
import Linux012.Math.Emulate

/-! The instructions that `kernel/math/math_emulate.c` emulates: what the opcodes mean on the
coprocessor, in terms of its register stack. -/

set_option autoImplicit false

namespace Linux012.Math

/-! ## Arithmetic -/

inductive Operation where
  | add
  | subtract
  | multiply
  | divide
deriving DecidableEq

namespace Operation

def result (op : Operation) (x y : TempReal) : Option TempReal :=
  match op with
  | add => some (fadd x y)
  | subtract => some (fadd x y.negate)
  | multiply => (fmul x y 0).result
  | divide => (fdiv x y 0).result

def Assigns (op : Operation) (x y : TempReal) : Prop :=
  match op with
  | add => True
  | subtract => True
  | multiply => ProductFits x y
  | divide => y.mantissa ≠ 0 ∧ QuotientFits x y

theorem assigns_iff {op : Operation} {x y : TempReal} : (op.result x y).isSome ↔ op.Assigns x y := by
  cases op with
  | add | subtract => exact iff_of_true rfl trivial
  | multiply => exact fmul_assigns_iff x y 0
  | divide => exact fdiv_assigns_iff x y 0

end Operation

/-! ## Register forms -/

inductive RegisterInstruction where
  | arithmetic (op : Operation) (dest first second : BitVec 3) (pops : Nat)
  | compare (against : BitVec 3) (pops : Nat)
  | test
  | load (source : BitVec 3)
  | loadConstant (c : TempReal)
  | store (dest : BitVec 3) (pops : Nat)
  | exchange (i : BitVec 3)
deriving DecidableEq

def arithmeticRow (reg : Nat) (dest i : BitVec 3) (pops : Nat) : Option RegisterInstruction :=
  match reg with
  | 0 => some (.arithmetic .add dest 0 i pops)
  | 1 => some (.arithmetic .multiply dest 0 i pops)
  | 4 => some (.arithmetic .subtract dest 0 i pops)
  | 5 => some (.arithmetic .subtract dest i 0 pops)
  | 6 => some (.arithmetic .divide dest 0 i pops)
  | 7 => some (.arithmetic .divide dest i 0 pops)
  | _ => none

def constantRow (i : BitVec 3) : Option RegisterInstruction :=
  match i with
  | 0 => some (.loadConstant .one)
  | 1 => some (.loadConstant constL2t)
  | 2 => some (.loadConstant constL2e)
  | 3 => some (.loadConstant constPi)
  | 4 => some (.loadConstant constLg2)
  | 5 => some (.loadConstant constLn2)
  | 6 => some (.loadConstant .zero)
  | 7 => none

/-- The arithmetic, the comparisons, the loads, the stores and the exchanges with first byte
`0xd8 + escape` and ModRM byte `0xc0 + 8 * reg + i`. In row 3 of 0xde the coprocessor defines
`i = 1` only; `do_emu` takes the others for comparisons, too. -/
def registerInstruction (escape reg : Nat) (i : BitVec 3) : Option RegisterInstruction :=
  match escape, reg with
  | 0, 2 => some (.compare i 0)
  | 0, 3 => some (.compare i 1)
  | 0, reg => arithmeticRow reg 0 i 0
  | 1, 0 => some (.load i)
  | 1, 1 => some (.exchange i)
  | 1, 3 => some (.store i 1)
  | 1, 4 => if i = 4 then some .test else none
  | 1, 5 => constantRow i
  | 2, 5 => if i = 1 then some (.compare 1 2) else none
  | 4, 2 => some (.compare i 0)
  | 4, 3 => some (.compare i 1)
  | 4, reg => arithmeticRow reg i i 0
  | 5, 1 => some (.exchange i)
  | 5, 2 => some (.store i 0)
  | 5, 3 => some (.store i 1)
  | 5, 4 => some (.compare i 0)
  | 5, 5 => some (.compare i 1)
  | 6, 2 => some (.compare i 1)
  | 6, 3 => some (if i = 1 then .compare 1 2 else .compare i 1)
  | 6, reg => arithmeticRow reg i i 1
  | 7, 1 => some (.exchange i)
  | 7, 2 => some (.store i 1)
  | 7, 3 => some (.store i 1)
  | _, _ => none

/-! ## Memory forms -/

inductive Format where
  | real32
  | real64
  | real80
  | int16
  | int32
  | int64
  | decimal
deriving DecidableEq

inductive MemoryInstruction where
  /-- `ST(0)` is the first operand unless the form is reversed. -/
  | arithmetic (op : Operation) (format : Format) (reversed : Bool)
  | compare (format : Format) (pops : Nat)
  | load (format : Format)
deriving DecidableEq

def operandRow (reg : Nat) (format : Format) : Option MemoryInstruction :=
  match reg with
  | 0 => some (.arithmetic .add format false)
  | 1 => some (.arithmetic .multiply format false)
  | 2 => some (.compare format 0)
  | 3 => some (.compare format 1)
  | 4 => some (.arithmetic .subtract format false)
  | 5 => some (.arithmetic .subtract format true)
  | 6 => some (.arithmetic .divide format false)
  | 7 => some (.arithmetic .divide format true)
  | _ => none

/-- The arithmetic, the comparisons and the loads with first byte `0xd8 + escape` and `reg` in the
ModRM byte. -/
def memoryInstruction (escape reg : Nat) : Option MemoryInstruction :=
  match escape, reg with
  | 0, reg => operandRow reg .real32
  | 2, reg => operandRow reg .int32
  | 4, reg => operandRow reg .real64
  | 6, reg => operandRow reg .int16
  | 1, 0 => some (.load .real32)
  | 3, 0 => some (.load .int32)
  | 3, 5 => some (.load .real80)
  | 5, 0 => some (.load .real64)
  | 7, 0 => some (.load .int16)
  | 7, 4 => some (.load .decimal)
  | 7, 5 => some (.load .int64)
  | _, _ => none

/-! ## Effects -/

def comparison (x y : TempReal) : Bool × Bool × Bool := conditionCodes (fcom y x 0)

abbrev Stack := RegisterStack (BitVec 3) TempReal

namespace RegisterInstruction

/-- What an instruction does to the stack and the condition codes `codes` that it leaves. -/
def Effect (instr : RegisterInstruction) (stack stack' : Stack) (codes : Bool × Bool × Bool) : Prop :=
  match instr with
  | arithmetic op dest first second pops =>
    ∃ r, op.result (stack.st first) (stack.st second) = some r ∧ stack' = RegisterStack.pop^[pops] (stack.set dest r)
  | compare against pops =>
    codes = comparison (stack.st 0) (stack.st against) ∧ stack' = RegisterStack.pop^[pops] stack
  | test => codes = conditionCodes (ftst (stack.st 0) 0) ∧ stack' = stack
  | load source => stack' = stack.push (stack.st source)
  | loadConstant c => stack' = stack.push c
  | store dest pops => stack' = RegisterStack.pop^[pops] (stack.set dest (stack.st 0))
  | exchange i => stack' = stack.exchange 0 i

end RegisterInstruction

namespace MemoryInstruction

def format : MemoryInstruction → Format
  | arithmetic _ format _ => format
  | compare format _ => format
  | load format => format

def resultOf (op : Operation) (reversed : Bool) (top operand : TempReal) : Option TempReal :=
  if reversed then op.result operand top else op.result top operand

def Effect (instr : MemoryInstruction) (operand : TempReal) (stack stack' : Stack) (codes : Bool × Bool × Bool) : Prop :=
  match instr with
  | arithmetic op _ reversed => ∃ r, resultOf op reversed (stack.st 0) operand = some r ∧ stack' = stack.set 0 r
  | compare _ pops => codes = comparison (stack.st 0) operand ∧ stack' = RegisterStack.pop^[pops] stack
  | load _ => stack' = stack.push operand

end MemoryInstruction

/-! ## Runs -/

namespace Machine

def codes (s : Machine) : Bool × Bool × Bool := conditionCodes s.i387.swd

def fetched (s : Machine) : Machine := s.begin.fetch

end Machine

theorem doEmu_of_user {s : Machine} (user : s.info.cs = 0x000f) (tmp : TempReal) :
    doEmu tmp s = execute s.code.toNat tmp s.fetched := by
  have inside : ¬s.begin.info.cs ≠ 0x000f := not_not.mpr user
  simp only [doEmu, bind_apply, modify_apply, get_apply]
  rw [if_neg inside]
  rfl

theorem execute_of_operand {code : Nat} {tmp : TempReal} (control : controlSwitch code = none)
    (register : registerSwitch (code >>> 3) (code &&& 7) tmp = none) (transfer : transferSwitch code = none) :
    execute code tmp = (memoryOperand code tmp >>= arithmeticSwitch code) := by
  rw [execute, control, register, transfer]

def task (bytes : List (BitVec 8)) : Machine where
  info :=
    { origEip := 0, edi := 0, esi := 0, ebp := 0, eax := 0, ebx := 0, ecx := 0, edx := 0, eip := 0, cs := 0x000f, esp := 0 }
  i387 := { cwd := 0x037f, swd := 0, twd := 0, fip := 0, fcs := 0, foo := 0, fos := 0, stSpace := fun _ => .zero }
  memory addr := bytes.getD addr.toNat 0
  usedMath := true
  signal := 0

end Linux012.Math

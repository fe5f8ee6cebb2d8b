import Linux012.Math.Operands
import Linux012.Math.RegisterForms

/-! The data flow of the memory forms (`kernel/math/math_emulate.c`). -/

set_option autoImplicit false

namespace Linux012.Math

open CarryWords

/-! ## Reading an operand -/

def Format.get (format : Format) (code : Nat) : Emu TempReal :=
  match format with
  | real32 => getShortReal code
  | real64 => getLongReal code
  | real80 => getTempReal code
  | int16 => getShortInt code
  | int32 => getLongInt code
  | int64 => getLonglongInt code
  | decimal => getBCD code

theorem getDigits_apply (k : Nat) (addr : BitVec 32) (i : DoubleWord 32) (s : Machine) :
    getDigits k addr i s = .ok (digitWords s.memory k addr i) s := by
  induction k generalizing addr i with
  | zero => rfl
  | succ k ih => exact ih (addr - 1) (addDigits i (s.memory addr))

variable {code : Nat}

theorem Format.get_apply (format : Format) (memory : code / 64 % 4 ≠ 3) (s : Machine) :
    ∃ offset, format.get code s = .ok (format.operand s.memory (effectiveAddress code s))
      ((s.advance (addressing code s).length).setOperand offset) := by
  obtain ⟨offset, ran⟩ := ea_apply memory s
  refine ⟨offset, ?_⟩
  cases format with
  | real32 =>
    rw [get, getShortReal, bind_apply, ran]
    rfl
  | real64 =>
    rw [get, getLongReal, bind_apply, ran]
    rfl
  | real80 =>
    rw [get, getTempReal, bind_apply, ran]
    rfl
  | int16 =>
    rw [get, getShortInt, bind_apply, ran]
    rfl
  | int32 =>
    rw [get, getLongInt, bind_apply, ran]
    rfl
  | int64 =>
    rw [get, getLonglongInt, bind_apply, ran]
    rfl
  | decimal =>
    have digits := getDigits_apply 9 (effectiveAddress code s + 9 - 1) ⟨0, 0⟩
      ((s.advance (addressing code s).length).setOperand offset)
    have sign (addr : BitVec 32) (t : Machine) : getFsByte addr t = .ok (t.memory addr) t := rfl
    rw [get, getBCD, bind_apply, ran]
    dsimp only
    rw [bind_apply, sign]
    dsimp only
    rw [bind_apply, digits]
    rfl

@[simp] theorem stack_setOperand (s : Machine) (n : Nat) (offset : BitVec 32) :
    ((s.advance n).setOperand offset).stack = s.stack := rfl

/-! ## The decoding -/

namespace Machine

def escape (s : Machine) : Nat := s.code.toNat / 256

def reg (s : Machine) : Nat := s.code.toNat / 8 % 8

theorem code_lt (s : Machine) : s.code.toNat < 2 ^ 11 := by
  rw [code, toNat_and_mask (n := 0) (k := 11) rfl]
  omega

end Machine

section Decoding

variable {code : Nat}

theorem controlSwitch_of_memory (memory : code / 64 % 4 ≠ 3) : controlSwitch code = none := by
  unfold controlSwitch
  split
  case h_49 => rfl
  all_goals exact absurd rfl memory

theorem registerSwitch_of_memory (memory : code / 64 % 4 ≠ 3) (tmp : TempReal) :
    registerSwitch (code >>> 3) (code &&& 7) tmp = none := by
  refine registerSwitch_of_other (fun mem => memory ?_) _ tmp
  have rows : ∀ k ∈ 0xb8 :: 0xf8 :: registerRows, k / 8 % 4 = 3 := by decide
  have row := rows _ mem
  rw [Nat.shiftRight_eq_div_pow, Nat.div_div_eq_div_mul] at row
  exact row

theorem switch_keys (small : code < 2 ^ 11) :
    code >>> 3 &&& 0xe7 = 32 * (code / 256) + code / 8 % 8 ∧
      code >>> 3 &&& 0x27 = 32 * (code / 256 % 2) + code / 8 % 8 ∧ code >>> 9 = code / 256 / 2 ∧
      (code &&& 0x138 = 0x100 ↔ code / 256 % 2 = 1 ∧ code / 8 % 8 = 0) := by
  have keys : ∀ k < 2 ^ 8, k &&& 0xe7 = 32 * (k / 32) + k % 8 ∧ k &&& 0x27 = 32 * (k / 32 % 2) + k % 8 := by decide +kernel
  have row : code >>> 3 = code / 8 := Nat.shiftRight_eq_div_pow code 3
  have quotient : (code &&& 0x138) / 8 = code / 8 &&& 0x27 := Nat.and_div_two_pow (n := 3)
  have rest : (code &&& 0x138) % 8 = 0 :=
    (Nat.and_mod_two_pow (a := code) (b := 0x138) (n := 3)).trans (Nat.and_zero (code % 2 ^ 3))
  obtain ⟨transfer, arithmetic⟩ := keys (code / 8) (by omega)
  refine ⟨?_, ?_, ?_, ?_⟩
  · rw [row, transfer, Nat.div_div_eq_div_mul]
  · rw [row, arithmetic, Nat.div_div_eq_div_mul]
  · rw [Nat.shiftRight_eq_div_pow, Nat.div_div_eq_div_mul]
  · omega

end Decoding

/-! ## Runs of a row -/

/-- What the instruction leaves when its operand is `operand`: a routine without a result leaves
the operand, which the temporary held. -/
def MemoryInstruction.Leaves (instr : MemoryInstruction) (operand : TempReal) (stack stack' : Stack)
    (codes : Bool × Bool × Bool) : Prop :=
  match instr with
  | arithmetic op _ reversed => stack' = stack.set 0 ((resultOf op reversed (stack.st 0) operand).getD operand)
  | compare _ pops => codes = comparison (stack.st 0) operand ∧ stack' = RegisterStack.pop^[pops] stack
  | load _ => stack' = stack.push operand

def Format.temporary (format : Format) (tmp : TempReal) (mem : Memory) (addr : BitVec 32) : TempReal :=
  if format = int16 then tmp else format.operand mem addr

section Rows

variable {code reg : Nat} {s : Machine} {format : Format} {instr : MemoryInstruction}

theorem arithmeticSwitch_leaves (operand : TempReal) (row : code >>> 3 &&& 0x27 = reg) (is : operandRow reg format = some instr) :
    ∃ s', arithmeticSwitch code operand s = .ok () s' ∧ instr.Leaves operand s.stack s'.stack s'.codes ∧
      s'.memory = s.memory ∧ s'.signal = s.signal := by
  unfold arithmeticSwitch
  rw [row]
  unfold operandRow at is
  split at is
  · cases is
    exact ⟨_, rfl, by simp [MemoryInstruction.Leaves, MemoryInstruction.resultOf, Operation.result, fadd_comm operand],
      rfl, rfl⟩
  · cases is
    exact ⟨_, rfl, by simp [MemoryInstruction.Leaves, MemoryInstruction.resultOf, multiply_comm operand], rfl, rfl⟩
  · cases is
    exact ⟨_, rfl, by simp [MemoryInstruction.Leaves], rfl, rfl⟩
  · cases is
    exact ⟨_, rfl, by simp [MemoryInstruction.Leaves], rfl, rfl⟩
  · cases is
    exact ⟨_, rfl, by simp [MemoryInstruction.Leaves, MemoryInstruction.resultOf, Operation.result,
      fadd_comm operand.negate], rfl, rfl⟩
  · cases is
    exact ⟨_, rfl, by simp [MemoryInstruction.Leaves, MemoryInstruction.resultOf, Operation.result], rfl, rfl⟩
  · cases is
    exact ⟨_, rfl, by simp [MemoryInstruction.Leaves, MemoryInstruction.resultOf], rfl, rfl⟩
  · cases is
    exact ⟨_, rfl, by simp [MemoryInstruction.Leaves, MemoryInstruction.resultOf], rfl, rfl⟩
  · cases is

theorem format_of_row (is : operandRow reg format = some instr) : instr.format = format := by
  unfold operandRow at is
  split at is
  case h_9 => cases is
  all_goals
    cases is
    rfl

theorem arithmeticSwitch_of_load {operand : TempReal} (row : code >>> 3 &&& 0x27 = 0x20) (load : code &&& 0x138 = 0x100) :
    arithmeticSwitch code operand s = .ok () (s.fpush.setSt 0 operand) := by
  unfold arithmeticSwitch
  rw [row]
  dsimp only
  rw [if_pos load]
  rfl

theorem arithmeticSwitch_of_other {operand : TempReal} (row : 0x20 < code >>> 3 &&& 0x27) (other : ¬code &&& 0x138 = 0x100) :
    arithmeticSwitch code operand s = mathAbort (signalBit sigfpe) s := by
  unfold arithmeticSwitch
  generalize code >>> 3 &&& 0x27 = k at row
  split
  case h_9 => rw [if_neg other]
  all_goals exact absurd row (by decide)

end Rows

/-! ## The switches -/

def transferKeys : List Nat :=
  [0x22, 0x23, 0x24, 0x25, 0x26, 0x27, 0x62, 0x63, 0x65, 0x67, 0xa2, 0xa3, 0xa4, 0xa6, 0xa7, 0xe2, 0xe3, 0xe4, 0xe5,
    0xe6, 0xe7]

theorem transferSwitch_of_other (other : code >>> 3 &&& 0xe7 ∉ transferKeys) : transferSwitch code = none := by
  unfold transferSwitch
  generalize code >>> 3 &&& 0xe7 = key at other
  split
  case h_22 => rfl
  all_goals exact absurd (by decide) other

def operandFormat (k : Nat) : Format :=
  match k with
  | 0 => .real32
  | 1 => .int32
  | 2 => .real64
  | _ => .int16

theorem memoryOperand_reads (memory : code / 64 % 4 ≠ 3) (small : code >>> 9 < 4) (tmp : TempReal) (s : Machine) :
    ∃ s', memoryOperand code tmp s =
        .ok ((operandFormat (code >>> 9)).temporary tmp s.memory (effectiveAddress code s)) s' ∧
      s'.stack = s.stack ∧ s'.memory = s.memory ∧ s'.signal = s.signal := by
  have read (format : Format) (used : format ≠ .int16) :
      ∃ s', format.get code s = .ok (format.temporary tmp s.memory (effectiveAddress code s)) s' ∧
        s'.stack = s.stack ∧ s'.memory = s.memory ∧ s'.signal = s.signal := by
    obtain ⟨offset, ran⟩ := format.get_apply memory s
    rw [Format.temporary, if_neg used]
    exact ⟨_, ran, rfl, rfl, rfl⟩
  unfold memoryOperand
  generalize code >>> 9 = format at small
  obtain rfl | rfl | rfl | rfl : format = 0 ∨ format = 1 ∨ format = 2 ∨ format = 3 := by omega
  · exact read .real32 (by decide)
  · exact read .int32 (by decide)
  · exact read .real64 (by decide)
  · exact ⟨s, rfl, rfl, rfl, rfl⟩

section Run

variable {s : Machine} {instr : MemoryInstruction}

theorem execute_of_memory (memory : s.code.toNat / 64 % 4 ≠ 3) (tmp : TempReal) :
    execute s.code.toNat tmp = match transferSwitch s.code.toNat with
      | some run => run
      | none => memoryOperand s.code.toNat tmp >>= arithmeticSwitch s.code.toNat := by
  rw [execute, controlSwitch_of_memory memory, registerSwitch_of_memory memory] <;> rfl

theorem execute_of_arithmetic (memory : s.code.toNat / 64 % 4 ≠ 3) (other : 32 * s.escape + s.reg ∉ transferKeys)
    (tmp : TempReal) :
    ∃ t, execute s.code.toNat tmp s.fetched = arithmeticSwitch s.code.toNat
        ((operandFormat (s.escape / 2)).temporary tmp s.memory (effectiveAddress s.code.toNat s.fetched)) t ∧
      t.stack = s.stack ∧ t.memory = s.memory ∧ t.signal = s.signal := by
  have small := s.code_lt
  obtain ⟨key, -, format, -⟩ := switch_keys small
  obtain ⟨t, ran, stack, kept⟩ := memoryOperand_reads memory (by rw [format]; omega) tmp s.fetched
  rw [execute_of_memory memory, transferSwitch_of_other (by rwa [key])]
  refine ⟨t, ?_, stack.trans (stack_fetched s), kept⟩
  dsimp only
  rw [bind_apply, ran, format]
  rfl

def Machine.operandAddress (s : Machine) : BitVec 32 := effectiveAddress s.code.toNat s.fetched

def Machine.temporary (s : Machine) (format : Format) (tmp : TempReal) : TempReal :=
  format.temporary tmp s.memory s.operandAddress

theorem ends_of_arithmetic (user : s.info.cs = 0x000f) (memory : s.code.toNat / 64 % 4 ≠ 3) (even : s.escape % 2 = 0)
    (is : operandRow s.reg (operandFormat (s.escape / 2)) = some instr) (tmp : TempReal) :
    Ends tmp s (instr.Leaves (s.temporary instr.format tmp) s.stack) := by
  have small := s.code_lt
  obtain ⟨-, row, -⟩ := switch_keys small
  have free : ∀ escape < 8, ∀ reg < 8, escape % 2 = 0 → 32 * escape + reg ∉ transferKeys := by decide
  obtain ⟨t, ran, stack, memoryKept, signalKept⟩ := execute_of_arithmetic memory
    (free s.escape (by rw [Machine.escape]; omega) s.reg (Nat.mod_lt _ (by decide)) even) tmp
  obtain ⟨s', ends, leaves, memoryKept', signalKept'⟩ := arithmeticSwitch_leaves (s := t)
    (s.temporary (operandFormat (s.escape / 2)) tmp)
    (by rw [row, show s.code.toNat / 256 % 2 = 0 from even, Nat.mul_zero, Nat.zero_add]; rfl) is
  rw [stack] at leaves
  refine ⟨s', ?_, ?_, memoryKept'.trans memoryKept, signalKept'.trans signalKept⟩
  · rw [doEmu_of_user user, ran]
    exact ends
  · rw [format_of_row is]
    exact leaves

theorem ends_of_load (user : s.info.cs = 0x000f) (memory : s.code.toNat / 64 % 4 ≠ 3) (odd : s.escape % 2 = 1)
    (reg : s.reg = 0) (tmp : TempReal) :
    Ends tmp s ((MemoryInstruction.load (operandFormat (s.escape / 2))).Leaves
      (s.temporary (operandFormat (s.escape / 2)) tmp) s.stack) := by
  have small := s.code_lt
  obtain ⟨-, row, -, load⟩ := switch_keys small
  have free : ∀ escape < 8, 32 * escape + 0 ∉ transferKeys := by decide
  obtain ⟨t, ran, stack, memoryKept, signalKept⟩ := execute_of_arithmetic memory
    (by rw [reg]; exact free s.escape (by rw [Machine.escape]; omega)) tmp
  have key : s.code.toNat >>> 3 &&& 0x27 = 0x20 := by
    rw [row, show s.code.toNat / 256 % 2 = 1 from odd, show s.code.toNat / 8 % 8 = 0 from reg]
  refine ⟨t.fpush.setSt 0 (s.temporary (operandFormat (s.escape / 2)) tmp), ?_, ?_, memoryKept, signalKept⟩
  · rw [doEmu_of_user user, ran]
    exact arithmeticSwitch_of_load key (load.mpr ⟨odd, reg⟩)
  · simp [MemoryInstruction.Leaves, RegisterStack.push, stack]

theorem ends_of_transfer (user : s.info.cs = 0x000f) (memory : s.code.toNat / 64 % 4 ≠ 3) {format : Format}
    (used : format ≠ .int16) (transfer : transferSwitch s.code.toNat = some do
      fpush
      let tmp ← format.get s.code.toNat
      setSt 0 tmp) (tmp : TempReal) :
    Ends tmp s ((MemoryInstruction.load format).Leaves (s.temporary format tmp) s.stack) := by
  obtain ⟨offset, ran⟩ := format.get_apply memory s.fetched.fpush
  have temporary : s.temporary format tmp = format.operand s.memory s.operandAddress := if_neg used
  rw [temporary]
  refine ⟨((s.fetched.fpush.advance (addressing s.code.toNat s.fetched.fpush).length).setOperand offset).setSt 0
    (format.operand s.memory s.operandAddress), ?_, ?_, rfl, rfl⟩
  · rw [doEmu_of_user user, execute_of_memory memory, transfer]
    dsimp only
    rw [bind_apply, fpush, modify_apply]
    dsimp only
    rw [bind_apply, ran]
    rfl
  · simp [MemoryInstruction.Leaves, RegisterStack.push]

theorem memory_ends (user : s.info.cs = 0x000f) (memory : s.code.toNat / 64 % 4 ≠ 3)
    (is : memoryInstruction s.escape s.reg = some instr) (tmp : TempReal) :
    Ends tmp s (instr.Leaves (s.temporary instr.format tmp) s.stack) := by
  obtain ⟨key, -⟩ := switch_keys s.code_lt
  have transfer {escape reg : Nat} (first : s.escape = escape) (second : s.reg = reg) :
      s.code.toNat >>> 3 &&& 0xe7 = 32 * escape + reg := by
    rw [key, ← first, ← second]
    rfl
  generalize escapeIs : s.escape = escape at is
  generalize regIs : s.reg = reg at is
  unfold memoryInstruction at is
  split at is
  case h_12 => cases is
  case h_1 | h_2 | h_3 | h_4 =>
    exact ends_of_arithmetic user memory (by rw [escapeIs]) (by rw [escapeIs, regIs]; exact is) tmp
  case h_5 | h_6 | h_8 | h_9 =>
    cases is
    have load := ends_of_load user memory (by rw [escapeIs]) regIs tmp
    rw [escapeIs] at load
    exact load
  all_goals
    cases is
    refine ends_of_transfer user memory (by decide) ?_ tmp
    unfold transferSwitch
    rw [transfer escapeIs regIs]
    rfl

end Run

/-! ## Leftovers -/

theorem negate_negate (x : TempReal) : x.negate.negate = x := by
  rw [TempReal.negate, TempReal.negate]
  simp [BitVec.xor_assoc]

theorem fadd_differs (x : TempReal) : ∃ y y', fadd x y ≠ fadd x y' := by
  refine ⟨x.negate, ({ x with b := x.b ^^^ 0x80000000 } : TempReal).negate, fun same => fadd_negate_flip x ?_⟩
  rw [fadd_comm, ← same, fadd_negate_self]
  rfl

theorem signWord_negate (x y : TempReal) : signWord x y.negate ≠ signWord x y := by
  have top : (signWord x y.negate).msb = !(signWord x y).msb := by
    have mask : (0x8000 : BitVec 16).msb = true := rfl
    rw [signWord, signWord, TempReal.negate, BitVec.msb_and, BitVec.msb_and, BitVec.msb_xor, BitVec.msb_xor,
      BitVec.msb_xor, mask]
    simp
  intro same
  rw [same] at top
  exact Bool.not_ne_self _ top.symm

variable {y : TempReal}

theorem multiply_zero (x : TempReal) (none : y.mantissa = 0) (field : y.field = 0) :
    Operation.multiply.result x y = some ⟨⟨0, 0⟩, signWord x y⟩ := by
  have small : x.field < 2 ^ 15 := ExponentWord.field_lt x.exponent
  have product : mul64 x.toDoubleWord y.toDoubleWord = ⟨0, 0, 0, 0⟩ :=
    mul64_eq_zero_iff.mpr (by rw [none, Nat.mul_zero])
  rw [Operation.result, fmul, field, product]
  dsimp only
  split
  · rfl
  · rw [if_neg (by omega), if_pos rfl]
    exact congrArg _ (congrArg _ (BitVec.zero_or))

theorem divide_zero {x : TempReal} (none : x.mantissa = 0) (nonzero : y.mantissa ≠ 0) :
    Operation.divide.result x y = some ⟨⟨0, 0⟩, signWord x y⟩ := by
  have words : ¬(y.a = 0 ∧ y.b = 0) := by rwa [← TempReal.mantissa_eq_zero_iff]
  rw [Operation.result, fdiv, dif_neg words]
  dsimp only
  split
  · rfl
  · obtain ⟨k, -, -, -, value⟩ := fdivQuotient_spec ((x.field : ℤ) - y.field + 16383).toNat x y words
    rw [none, Nat.zero_mul, Nat.zero_div, Nat.mul_zero] at value
    have quotient := QuadWord.value_eq_zero_iff.mp value
    rw [if_pos quotient, quotient, fdivFinish_result, if_neg (by decide)]
    exact congrArg _ (congrArg _ (BitVec.zero_or))

theorem divide_by_zero (x : TempReal) (zero : y.mantissa = 0) : Operation.divide.result x y = none := by
  rw [← Option.isNone_iff_eq_none, ← Option.not_isSome, Bool.not_eq_true', ← Bool.not_eq_true, Operation.assigns_iff]
  exact fun assigns => assigns.1 zero

open MemoryInstruction in
theorem leftovers_differ (op : Operation) (reversed : Bool) (top : TempReal) :
    ∃ tmp tmp', (resultOf op reversed top tmp).getD tmp ≠ (resultOf op reversed top tmp').getD tmp' := by
  have zeros : TempReal.zero ≠ TempReal.zero.negate := (negate_ne_self _).symm
  have signs (x : TempReal) : (⟨⟨0, 0⟩, signWord x .zero⟩ : TempReal) ≠ ⟨⟨0, 0⟩, signWord x TempReal.zero.negate⟩ :=
    fun same => signWord_negate x .zero (congrArg TempReal.exponent same).symm
  cases op with
  | add =>
    obtain ⟨y, y', apart⟩ := fadd_differs top
    refine ⟨y, y', ?_⟩
    cases reversed with
    | false => exact apart
    | true =>
      rw [fadd_comm top, fadd_comm top] at apart
      exact apart
  | subtract =>
    cases reversed with
    | false =>
      obtain ⟨y, y', apart⟩ := fadd_differs top
      refine ⟨y.negate, y'.negate, ?_⟩
      show fadd top y.negate.negate ≠ fadd top y'.negate.negate
      rwa [negate_negate, negate_negate]
    | true =>
      obtain ⟨y, y', apart⟩ := fadd_differs top.negate
      rw [fadd_comm _ y, fadd_comm _ y'] at apart
      exact ⟨y, y', apart⟩
  | multiply =>
    have product (reversed : Bool) {y : TempReal} (none : y.mantissa = 0) (field : y.field = 0) :
        resultOf .multiply reversed top y = some ⟨⟨0, 0⟩, signWord top y⟩ := by
      rw [resultOf, multiply_comm y, ite_self, multiply_zero top none field]
    refine ⟨.zero, TempReal.zero.negate, ?_⟩
    rw [product reversed rfl rfl, product reversed rfl rfl]
    exact signs top
  | divide =>
    refine ⟨.zero, TempReal.zero.negate, ?_⟩
    cases reversed with
    | false =>
      show (Operation.divide.result top .zero).getD _ ≠ (Operation.divide.result top TempReal.zero.negate).getD _
      rw [divide_by_zero top (y := .zero) rfl, divide_by_zero top (y := TempReal.zero.negate) rfl]
      exact zeros
    | true =>
      show (Operation.divide.result .zero top).getD _ ≠ (Operation.divide.result TempReal.zero.negate top).getD _
      by_cases zero : top.mantissa = 0
      · rw [divide_by_zero _ zero, divide_by_zero _ zero]
        exact zeros
      · rw [divide_zero (x := .zero) rfl zero, divide_zero (x := TempReal.zero.negate) rfl zero,
          signWord_comm, signWord_comm _ top]
        exact signs top

/-! ## Every memory form -/

theorem Ends.imp {tmp : TempReal} {s : Machine} {post post' : Stack → Bool × Bool × Bool → Prop} (ends : Ends tmp s post)
    (implied : ∀ stack codes, post stack codes → post' stack codes) : Ends tmp s post' := by
  obtain ⟨s', ran, holds, kept⟩ := ends
  exact ⟨s', ran, implied _ _ holds, kept⟩

namespace MemoryInstruction

def Assigns (instr : MemoryInstruction) (top operand : TempReal) : Prop :=
  match instr with
  | arithmetic op _ reversed => if reversed then op.Assigns operand top else op.Assigns top operand
  | _ => True

theorem resultOf_isSome_iff {op : Operation} {format : Format} {reversed : Bool} {top operand : TempReal} :
    (resultOf op reversed top operand).isSome ↔ (arithmetic op format reversed).Assigns top operand := by
  cases reversed with
  | false | true => exact Operation.assigns_iff

variable {instr : MemoryInstruction} {s : Machine} {operand : TempReal}

theorem effect_iff (ends : ∀ tmp, Ends tmp s (instr.Leaves operand s.stack)) :
    (∀ tmp, Ends tmp s (instr.Effect operand s.stack)) ↔ instr.Assigns (s.stack.st 0) operand := by
  cases instr with
  | arithmetic op format reversed =>
    rw [← resultOf_isSome_iff, Option.isSome_iff_exists]
    constructor
    · intro right
      obtain ⟨-, -, ⟨r, result, -⟩, -⟩ := (right operand).both (ends operand)
      exact ⟨r, result⟩
    · rintro ⟨r, result⟩ tmp
      refine (ends tmp).imp fun stack codes leaves => ⟨r, result, ?_⟩
      rwa [Leaves, result] at leaves
  | compare format pops | load format => exact iff_of_true ends trivial

theorem not_effect (ends : ∀ tmp, Ends tmp s (instr.Leaves tmp s.stack)) :
    ¬∀ tmp, Ends tmp s (instr.Effect operand s.stack) := by
  intro right
  cases instr with
  | arithmetic op format reversed =>
    obtain ⟨tmp, tmp', apart⟩ := leftovers_differ op reversed (s.stack.st 0)
    have written (tmp : TempReal) : resultOf op reversed (s.stack.st 0) operand =
        some ((resultOf op reversed (s.stack.st 0) tmp).getD tmp) := by
      obtain ⟨stack, -, ⟨r, result, stackIs⟩, rfl⟩ := (right tmp).both (ends tmp)
      rw [result, RegisterStack.set_eq_set_iff.mp stackIs]
    exact apart (Option.some.inj ((written tmp).symm.trans (written tmp')))
  | compare format pops =>
    have named (tmp : TempReal) : comparison (s.stack.st 0) tmp = comparison (s.stack.st 0) operand := by
      obtain ⟨-, codes, ⟨codesAre, -⟩, rfl, -⟩ := (right tmp).both (ends tmp)
      exact codesAre
    obtain ⟨tmp, apart⟩ := comparison_differs (s.stack.st 0)
    exact apart ((named tmp).trans (named _).symm)
  | load format =>
    obtain ⟨stack, codes, named, written⟩ := (right operand.negate).both (ends operand.negate)
    exact negate_ne_self operand (RegisterStack.set_eq_set_iff.mp (written.symm.trans named))

end MemoryInstruction

/-- The operand is the number, infinity or NaN in memory, and the instruction has the effect of the
coprocessor with it, whatever the temporary holds. -/
def ReadsOperand (instr : MemoryInstruction) (s : Machine) : Prop :=
  (instr.format.operand s.memory s.operandAddress).datum = instr.format.datum s.memory s.operandAddress ∧
    ∀ tmp, Ends tmp s (instr.Effect (instr.format.operand s.memory s.operandAddress) s.stack)

def MemoryFormRight (instr : MemoryInstruction) (s : Machine) : Prop :=
  instr.format ≠ .int16 ∧ instr.format.Exact s.memory s.operandAddress ∧
    instr.Assigns (s.stack.st 0) (instr.format.operand s.memory s.operandAddress)

def transferForms : List (Nat × Nat) :=
  [(1, 2), (1, 3), (1, 4), (1, 5), (1, 6), (1, 7), (3, 2), (3, 3), (3, 7), (5, 2), (5, 3), (5, 4), (5, 6), (5, 7),
    (7, 2), (7, 3), (7, 6), (7, 7)]

def WithoutCase (escape reg : Nat) : Prop := 32 * escape + reg ∉ transferKeys ∧ escape % 2 = 1 ∧ reg ≠ 0

instance (escape reg : Nat) : Decidable (WithoutCase escape reg) := inferInstanceAs (Decidable (_ ∧ _))

section Forms

variable {s : Machine} {instr : MemoryInstruction}

theorem memory_form_iff (user : s.info.cs = 0x000f) (memory : s.code.toNat / 64 % 4 ≠ 3)
    (is : memoryInstruction s.escape s.reg = some instr) : ReadsOperand instr s ↔ MemoryFormRight instr s := by
  have ends := memory_ends user memory is
  rw [ReadsOperand, MemoryFormRight, Format.operand_datum_iff]
  by_cases unread : instr.format = .int16
  · have temporary (tmp : TempReal) : s.temporary instr.format tmp = tmp := if_pos unread
    refine iff_of_false (fun right => MemoryInstruction.not_effect (fun tmp => ?_) right.2) fun right => right.1 unread
    have leaves := ends tmp
    rwa [temporary] at leaves
  · have temporary (tmp : TempReal) :
        s.temporary instr.format tmp = instr.format.operand s.memory s.operandAddress := if_neg unread
    rw [and_iff_right unread, MemoryInstruction.effect_iff fun tmp => by rw [← temporary tmp]; exact ends tmp]

theorem memory_form_refused (user : s.info.cs = 0x000f) (memory : s.code.toNat / 64 % 4 ≠ 3)
    (none : memoryInstruction s.escape s.reg = none) (other : (s.escape, s.reg) ∉ transferForms) (tmp : TempReal) :
    ∃ s', doEmu tmp s = .error .aborted s' := by
  have table : ∀ escape < 8, ∀ reg < 8, (memoryInstruction escape reg).isSome ∨ (escape, reg) ∈ transferForms ∨
      WithoutCase escape reg := by decide
  have small := s.code_lt
  have row := table s.escape (by rw [Machine.escape]; omega) s.reg (Nat.mod_lt _ (by decide))
  rw [none] at row
  obtain ⟨free, odd, nonzero⟩ := (row.resolve_left Bool.false_ne_true).resolve_left other
  obtain ⟨-, row, -, load⟩ := switch_keys small
  obtain ⟨t, ran, -⟩ := execute_of_arithmetic memory free tmp
  have above : 0x20 < s.code.toNat >>> 3 &&& 0x27 := by
    rw [row, show s.code.toNat / 256 % 2 = 1 from odd, show s.code.toNat / 8 % 8 = s.reg from rfl]
    omega
  rw [doEmu_of_user user, ran, arithmeticSwitch_of_other above fun is => nonzero (load.mp is).2]
  exact ⟨_, rfl⟩

/-- Which memory forms read their operand in the format of the opcode; no other form is accepted. -/
theorem memory_forms (user : s.info.cs = 0x000f) (memory : s.code.toNat / 64 % 4 ≠ 3) :
    (∀ instr, memoryInstruction s.escape s.reg = some instr → (ReadsOperand instr s ↔ MemoryFormRight instr s)) ∧
      (memoryInstruction s.escape s.reg = none → (s.escape, s.reg) ∉ transferForms →
        ∀ tmp, ∃ s', doEmu tmp s = .error .aborted s') :=
  ⟨fun _ is => memory_form_iff user memory is, memory_form_refused user memory⟩

end Forms

theorem memory_forms_fadd :
    (∀ instr, memoryInstruction (task [0xd8, 0x00]).escape (task [0xd8, 0x00]).reg = some instr →
        (ReadsOperand instr (task [0xd8, 0x00]) ↔ MemoryFormRight instr (task [0xd8, 0x00]))) ∧
      (memoryInstruction (task [0xd8, 0x00]).escape (task [0xd8, 0x00]).reg = none →
        ((task [0xd8, 0x00]).escape, (task [0xd8, 0x00]).reg) ∉ transferForms →
        ∀ tmp, ∃ s', doEmu tmp (task [0xd8, 0x00]) = .error .aborted s') :=
  memory_forms rfl (by decide)

/-- `FILD` of the 16-bit integer at `EAX` loads the temporary. -/
theorem fild_unread :
    (task [0xdf, 0x00]).info.cs = 0x000f ∧ (task [0xdf, 0x00]).code.toNat / 64 % 4 ≠ 3 ∧
      memoryInstruction (task [0xdf, 0x00]).escape (task [0xdf, 0x00]).reg = some (.load .int16) ∧
      ¬ReadsOperand (.load .int16) (task [0xdf, 0x00]) := by
  have memory : (task [0xdf, 0x00]).code.toNat / 64 % 4 ≠ 3 := by decide
  have is : memoryInstruction (task [0xdf, 0x00]).escape (task [0xdf, 0x00]).reg = some (.load .int16) := by decide
  exact ⟨rfl, memory, is, fun right => ((memory_form_iff rfl memory is).mp right).1 rfl⟩

end Linux012.Math

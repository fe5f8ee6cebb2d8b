import Linux012.Math.Instructions

/-! The data flow of the register forms (`kernel/math/math_emulate.c`). -/

set_option autoImplicit false

namespace Linux012.Math

open ExponentWord Rounding

/-! ## Runs of a row -/

theorem topOf_busy (cwd swd : BitVec 32) : topOf (busy cwd swd) = topOf swd := by
  rw [busy]
  split
  · exact topOf_or (by decide)
  · exact topOf_and (by decide)

@[simp] theorem stack_fetched (s : Machine) : s.fetched.stack = s.stack :=
  congrArg (RegisterStack.mk · s.i387.stSpace) (topOf_busy s.i387.cwd s.i387.swd)

/-- The run ends, with this stack and these condition codes; it leaves memory and signals alone. -/
def Ends (tmp : TempReal) (s : Machine) (post : Stack → Bool × Bool × Bool → Prop) : Prop :=
  ∃ s', doEmu tmp s = .ok () s' ∧ post s'.stack s'.codes ∧ s'.memory = s.memory ∧ s'.signal = s.signal

def registerCode (escape reg : Nat) (i : BitVec 3) : Nat := 256 * escape + 0xc0 + 8 * reg + i.toNat

def registerRows : List Nat :=
  [0x18, 0x19, 0x1a, 0x1b, 0x1c, 0x1d, 0x1e, 0x1f, 0x38, 0x39, 0x3b, 0x98, 0x99, 0x9a, 0x9b, 0x9c, 0x9d, 0x9e, 0x9f,
    0xb9, 0xba, 0xbb, 0xbc, 0xbd, 0xd8, 0xd9, 0xda, 0xdc, 0xdd, 0xde, 0xdf, 0xf9, 0xfa, 0xfb]

theorem controlSwitch_of_row : ∀ k ∈ registerRows, ∀ i < 8, (controlSwitch (8 * k + i)).isNone = true := by
  decide

section Rows

variable {s : Machine} {tmp : TempReal} {post : Stack → Bool × Bool × Bool → Prop}

theorem execute_of_row {k i : Nat} (small : i < 8) (control : (controlSwitch (8 * k + i)).isNone) {run : Emu Unit}
    (row : registerSwitch k i tmp = some run) : execute (8 * k + i) tmp = run := by
  have high : (8 * k + i) >>> 3 = k := by
    rw [Nat.shiftRight_eq_div_pow]
    omega
  have low : (8 * k + i) &&& 7 = i := by
    rw [show (8 * k + i) &&& 7 = (8 * k + i) % 8 from Nat.and_two_pow_sub_one_eq_mod _ 3]
    omega
  rw [execute, Option.isNone_iff_eq_none.mp control, high, low, row]

theorem ends_of_row (user : s.info.cs = 0x000f) (k : Nat) {i : BitVec 3} (code : s.code.toNat = 8 * k + i.toNat)
    (mem : k ∈ registerRows) {run : Emu Unit} {s' : Machine} (row : registerSwitch k i.toNat tmp = some run)
    (ran : run s.fetched = .ok () s') (holds : post s'.stack s'.codes) (memory : s'.memory = s.memory := by rfl)
    (signal : s'.signal = s.signal := by rfl) : Ends tmp s post := by
  refine ⟨s', ?_, holds, memory, signal⟩
  rw [doEmu_of_user user, code, execute_of_row i.isLt (controlSwitch_of_row k mem _ i.isLt) row, ran]

end Rows

/-! ## Arithmetic -/

def NegatesRegister (escape reg : Nat) : Prop :=
  escape = 0 ∧ reg = 5 ∨ (escape = 4 ∨ escape = 6) ∧ reg = 4

instance (escape reg : Nat) : Decidable (NegatesRegister escape reg) := inferInstanceAs (Decidable (_ ∨ _))

@[simp] theorem fmul_result (x y : TempReal) (swd : BitVec 32) : (fmul x y swd).result = Operation.multiply.result x y :=
  (fmul_result_comm x y swd 0).trans (fmul_result_comm y x 0 0)

theorem multiply_comm (x y : TempReal) : Operation.multiply.result x y = Operation.multiply.result y x :=
  fmul_result_comm x y 0 0

@[simp] theorem fdiv_result_eq (x y : TempReal) (swd : BitVec 32) : (fdiv x y swd).result = Operation.divide.result x y :=
  fdiv_result x y swd 0

@[simp] theorem stack_setSwd_fmul (s : Machine) (x y : TempReal) : (s.setSwd (fmul x y s.i387.swd).swd).stack = s.stack :=
  Machine.stack_setSwd (topOf_fmul x y s.i387.swd)

@[simp] theorem stack_setSwd_fdiv (s : Machine) (x y : TempReal) : (s.setSwd (fdiv x y s.i387.swd).swd).stack = s.stack :=
  Machine.stack_setSwd (topOf_fdiv x y s.i387.swd)

def RowOperands (reg : Nat) (i : BitVec 3) (op : Operation) (first second : BitVec 3) : Prop :=
  reg = 0 ∧ op = .add ∧ first = 0 ∧ second = i ∨ reg = 1 ∧ op = .multiply ∧ first = 0 ∧ second = i ∨
    reg = 4 ∧ op = .subtract ∧ first = 0 ∧ second = i ∨ reg = 5 ∧ op = .subtract ∧ first = i ∧ second = 0 ∨
    reg = 6 ∧ op = .divide ∧ first = 0 ∧ second = i ∨ reg = 7 ∧ op = .divide ∧ first = i ∧ second = 0

variable {i : BitVec 3}

theorem rowOperands_of_row {reg pops : Nat} {dest : BitVec 3} {instr : RegisterInstruction}
    (is : arithmeticRow reg dest i pops = some instr) :
    ∃ op first second, instr = .arithmetic op dest first second pops ∧ RowOperands reg i op first second := by
  unfold arithmeticRow at is
  split at is
  case h_7 => cases is
  all_goals
    cases is
    exact ⟨_, _, _, rfl, by simp [RowOperands]⟩

section ArithmeticEnds

variable {s : Machine} {reg : Nat} {i first second : BitVec 3} {op : Operation}

def usedFirst (escape reg : Nat) (i first : BitVec 3) (stack : Stack) : TempReal :=
  if NegatesRegister escape reg ∧ i = 0 then (stack.st 0).negate else stack.st first

theorem intoTop_ends (user : s.info.cs = 0x000f) (code : s.code.toNat = registerCode 0 reg i)
    (row : RowOperands reg i op first second) (tmp : TempReal) :
    Ends tmp s fun stack _ => stack =
      s.stack.set 0 ((op.result (usedFirst 0 reg i first s.stack) (s.stack.st second)).getD tmp) := by
  obtain ⟨rfl, rfl, rfl, rfl⟩ | ⟨rfl, rfl, rfl, rfl⟩ | ⟨rfl, rfl, rfl, rfl⟩ | ⟨rfl, rfl, rfl, rfl⟩ |
    ⟨rfl, rfl, rfl, rfl⟩ | ⟨rfl, rfl, rfl, rfl⟩ := row
  · exact ends_of_row user 0x18 code (by decide) rfl rfl (by simp [usedFirst, NegatesRegister, Operation.result])
  · exact ends_of_row user 0x19 code (by decide) rfl rfl (by simp [usedFirst, NegatesRegister])
  · exact ends_of_row user 0x1c code (by decide) rfl rfl (by simp [usedFirst, NegatesRegister, Operation.result])
  · refine ends_of_row user 0x1d code (by decide) rfl rfl ?_
    simp [usedFirst, NegatesRegister, Operation.result, RegisterStack.st_set_eq, fadd_comm (s.stack.st 0#3).negate]
  · exact ends_of_row user 0x1e code (by decide) rfl rfl (by simp [usedFirst, NegatesRegister])
  · exact ends_of_row user 0x1f code (by decide) rfl rfl (by simp [usedFirst, NegatesRegister])

theorem intoRegister_ends (user : s.info.cs = 0x000f) (code : s.code.toNat = registerCode 4 reg i)
    (row : RowOperands reg i op first second) (tmp : TempReal) :
    Ends tmp s fun stack _ => stack =
      s.stack.set i ((op.result (usedFirst 4 reg i first s.stack) (s.stack.st second)).getD tmp) := by
  obtain ⟨rfl, rfl, rfl, rfl⟩ | ⟨rfl, rfl, rfl, rfl⟩ | ⟨rfl, rfl, rfl, rfl⟩ | ⟨rfl, rfl, rfl, rfl⟩ |
    ⟨rfl, rfl, rfl, rfl⟩ | ⟨rfl, rfl, rfl, rfl⟩ := row
  · exact ends_of_row user 0x98 code (by decide) rfl rfl (by simp [usedFirst, NegatesRegister, Operation.result])
  · exact ends_of_row user 0x99 code (by decide) rfl rfl (by simp [usedFirst, NegatesRegister])
  · refine ends_of_row user 0x9c code (by decide) rfl rfl ?_
    by_cases same : second = 0#3
    · simp [usedFirst, NegatesRegister, Operation.result, same]
    · simp [usedFirst, NegatesRegister, Operation.result, RegisterStack.st_set_eq, same, Ne.symm same]
  · exact ends_of_row user 0x9d code (by decide) rfl rfl (by simp [usedFirst, NegatesRegister, Operation.result])
  · exact ends_of_row user 0x9e code (by decide) rfl rfl (by simp [usedFirst, NegatesRegister])
  · exact ends_of_row user 0x9f code (by decide) rfl rfl (by simp [usedFirst, NegatesRegister])

theorem intoPopped_ends (user : s.info.cs = 0x000f) (code : s.code.toNat = registerCode 6 reg i)
    (row : RowOperands reg i op first second) (tmp : TempReal) :
    Ends tmp s fun stack _ => stack =
      (s.stack.set i ((op.result (usedFirst 6 reg i first s.stack) (s.stack.st second)).getD tmp)).pop := by
  obtain ⟨rfl, rfl, rfl, rfl⟩ | ⟨rfl, rfl, rfl, rfl⟩ | ⟨rfl, rfl, rfl, rfl⟩ | ⟨rfl, rfl, rfl, rfl⟩ |
    ⟨rfl, rfl, rfl, rfl⟩ | ⟨rfl, rfl, rfl, rfl⟩ := row
  · refine ends_of_row user 0xd8 code (by decide) rfl rfl ?_
    simp [usedFirst, NegatesRegister, Operation.result, fadd_comm (s.stack.st second)]
  · refine ends_of_row user 0xd9 code (by decide) rfl rfl ?_
    simp [usedFirst, NegatesRegister, multiply_comm (s.stack.st second)]
  · refine ends_of_row user 0xdc code (by decide) rfl rfl ?_
    by_cases same : second = 0#3
    · simp [usedFirst, NegatesRegister, Operation.result, same]
    · simp [usedFirst, NegatesRegister, Operation.result, RegisterStack.st_set_eq, same, Ne.symm same]
  · exact ends_of_row user 0xdd code (by decide) rfl rfl (by simp [usedFirst, NegatesRegister, Operation.result])
  · exact ends_of_row user 0xde code (by decide) rfl rfl (by simp [usedFirst, NegatesRegister])
  · exact ends_of_row user 0xdf code (by decide) rfl rfl (by simp [usedFirst, NegatesRegister])

end ArithmeticEnds

/-! ## Negated twice -/

theorem msb_add_two_xor (e : BitVec 16) : ((e ^^^ 0x8000) + 2).msb = !(e + 2).msb := by
  have flipped := toNat_eq (e ^^^ 0x8000)
  have plain := toNat_eq e
  have small := field_lt e
  rw [msb_xor_sign, field_xor_sign] at flipped
  have two : (2 : BitVec 16).toNat = 2 := rfl
  rw [BitVec.msb_eq_decide, BitVec.msb_eq_decide, ← decide_not, decide_eq_decide, BitVec.toNat_add, BitVec.toNat_add, two]
  cases sign : e.msb with
  | false =>
    rw [sign] at flipped plain
    simp only [Bool.not_false, Bool.toNat_true, Bool.toNat_false] at flipped plain
    omega
  | true =>
    rw [sign] at flipped plain
    simp only [Bool.not_true, Bool.toNat_true, Bool.toNat_false] at flipped plain
    omega

theorem fadd_negate_self (x : TempReal) : fadd x x.negate = .zero := by
  have opposite : alignedSum x.negate x 0 = 0 := by
    refine alignedSum_of_opposite rfl ?_
    rw [← msb_add_two_xor]
    simp [TempReal.negate, BitVec.xor_assoc]
  rw [fadd, if_neg (by rw [field_negate]; exact lt_irrefl _), field_negate, Nat.sub_self]
  exact faddOrdered_of_zero (by decide) opposite

theorem fadd_negated_iff (x : TempReal) : fadd x.negate x.negate = fadd x x.negate ↔ x.mantissa < 4 := by
  have sum : alignedSum x.negate x.negate 0 = 2 * signed (x.negate.exponent + 2).msb (x.mantissa / 4) := by
    show signed _ (x.mantissa / 4) + signed _ (x.mantissa / 4) = _
    ring
  rw [fadd_negate_self, fadd, if_neg (lt_irrefl _), Nat.sub_self]
  constructor
  · intro zero
    by_contra large
    have some : signed (x.negate.exponent + 2).msb (x.mantissa / 4) ≠ 0 := by
      rw [← abs_ne_zero, abs_signed]
      omega
    have nonzero : alignedSum x.negate x.negate 0 ≠ 0 := by
      rw [sum]
      exact mul_ne_zero two_ne_zero some
    obtain ⟨k, -, normal, -⟩ := faddOrdered_spec (by decide) nonzero
    rw [zero] at normal
    exact absurd normal (by decide)
  · intro small
    refine faddOrdered_of_zero (by decide) ?_
    rw [sum, Nat.div_eq_of_lt small]
    simp [signed]

/-! ## The arithmetic rows -/

def CarriesOut (instr : RegisterInstruction) (s : Machine) : Prop := ∀ tmp, Ends tmp s (instr.Effect s.stack)

variable {s : Machine}

theorem Ends.both {tmp : TempReal} {post post' : Stack → Bool × Bool × Bool → Prop} (ends : Ends tmp s post)
    (ends' : Ends tmp s post') : ∃ stack codes, post stack codes ∧ post' stack codes := by
  obtain ⟨t, run, holds, -⟩ := ends
  obtain ⟨t', run', holds', -⟩ := ends'
  cases run.symm.trans run'
  exact ⟨t.stack, t.codes, holds, holds'⟩

theorem negate_ne_self (x : TempReal) : x.negate ≠ x := by
  intro same
  have sign := congrArg TempReal.negative same
  rw [negative_negate] at sign
  exact Bool.not_ne_self _ sign

section ArithmeticIff

variable {s : Machine} {reg pops : Nat} {i dest first second : BitVec 3} {op : Operation}

theorem carriesOut_arithmetic_iff {x : TempReal}
    (ends : ∀ tmp, Ends tmp s fun stack _ => stack =
      RegisterStack.pop^[pops] (s.stack.set dest ((op.result x (s.stack.st second)).getD tmp))) :
    CarriesOut (.arithmetic op dest first second pops) s ↔
      ∃ r, op.result (s.stack.st first) (s.stack.st second) = some r ∧ op.result x (s.stack.st second) = some r := by
  constructor
  · intro right
    have written (tmp : TempReal) :
        op.result (s.stack.st first) (s.stack.st second) = some ((op.result x (s.stack.st second)).getD tmp) := by
      obtain ⟨stack, -, ⟨r, result, stackIs⟩, rfl⟩ := (right tmp).both (ends tmp)
      rw [result, RegisterStack.set_eq_set_iff.mp (RegisterStack.pop_injective.iterate pops stackIs)]
    cases used : op.result x (s.stack.st second) with
    | some r => exact ⟨r, by rw [written .zero, used]; rfl, rfl⟩
    | none =>
      -- what was left over was written
      rw [used] at written
      have leftovers := Option.some.inj ((written TempReal.zero.negate).symm.trans (written .zero))
      exact absurd leftovers (negate_ne_self _)
  · rintro ⟨r, result, used⟩ tmp
    obtain ⟨s', run, stackIs, kept⟩ := ends tmp
    rw [used] at stackIs
    exact ⟨s', run, ⟨r, result, stackIs⟩, kept⟩

theorem used_result_iff (escape : Nat) (row : RowOperands reg i op first second) (stack : Stack) :
    (∃ r, op.result (stack.st first) (stack.st second) = some r ∧
        op.result (usedFirst escape reg i first stack) (stack.st second) = some r) ↔
      op.Assigns (stack.st first) (stack.st second) ∧
        (NegatesRegister escape reg → i = 0 → (stack.st 0).mantissa < 4) := by
  by_cases negates : NegatesRegister escape reg ∧ i = 0
  · have subtracts : op = .subtract ∧ first = 0 ∧ second = 0 := by
      simp only [NegatesRegister, RowOperands] at negates row
      grind
    obtain ⟨rfl, rfl, rfl⟩ := subtracts
    rw [usedFirst, if_pos negates, ← fadd_negated_iff]
    simp [Operation.result, Operation.Assigns, negates]
  · rw [usedFirst, if_neg negates, ← Operation.assigns_iff, Option.isSome_iff_exists]
    grind

end ArithmeticIff

/-! ## Comparisons -/

@[simp] theorem stack_setSwd_ftst (s : Machine) (x : TempReal) :
    (s.setSwd (ftst x s.i387.swd)).stack = s.stack :=
  Machine.stack_setSwd (topOf_ftst x s.i387.swd)

@[simp] theorem stack_setSwd_fcom (s : Machine) (x y : TempReal) :
    (s.setSwd (fcom x y s.i387.swd)).stack = s.stack :=
  stack_setSwd_ftst s _

@[simp] theorem codes_setSwd_ftst (s t : Machine) (x : TempReal) :
    (s.setSwd (ftst x t.i387.swd)).codes = conditionCodes (ftst x 0) :=
  conditionCodes_ftst x t.i387.swd 0

@[simp] theorem codes_setSwd_fcom (s t : Machine) (x y : TempReal) :
    (s.setSwd (fcom x y t.i387.swd)).codes = comparison y x :=
  codes_setSwd_ftst s t _

@[simp] theorem codes_fpop (s : Machine) : s.fpop.codes = s.codes := conditionCodes_popTop s.i387.swd

section Comparisons

variable {s : Machine} {i : BitVec 3}

theorem not_carriesOut_of_overwritten {pops : Nat}
    (ends : ∀ tmp, Ends tmp s fun stack _ => stack = RegisterStack.pop^[pops] (s.stack.set 0 tmp)) :
    ¬CarriesOut (.compare i pops) s := by
  intro right
  obtain ⟨stack, codes, ⟨-, unchanged⟩, overwritten⟩ := (right _).both (ends (s.stack.st 0).negate)
  have same := RegisterStack.pop_injective.iterate pops (overwritten.symm.trans unchanged)
  have top := congrArg (RegisterStack.st · 0) same
  rw [RegisterStack.st_set] at top
  exact negate_ne_self _ top

theorem mantissa_flip (x : TempReal) :
    ({ x with b := x.b ^^^ 0x80000000 } : TempReal).mantissa / 4 ≠ x.mantissa / 4 := by
  have top : ({ x with b := x.b ^^^ 0x80000000 } : TempReal).b.msb = !x.b.msb := by
    show (x.b ^^^ 0x80000000).msb = _
    rw [BitVec.msb_xor]
    exact Bool.xor_true _
  have flipped := TempReal.msb_eq { x with b := x.b ^^^ 0x80000000 }
  rw [top, TempReal.msb_eq, eq_comm, ← decide_not, decide_eq_decide] at flipped
  omega

theorem fadd_negate_flip (x : TempReal) :
    (fadd ({ x with b := x.b ^^^ 0x80000000 } : TempReal).negate x).mantissa ≠ 0 := by
  have apart := mantissa_flip x
  have same : ({ x with b := x.b ^^^ 0x80000000 } : TempReal).negate.field = x.field := field_negate x
  have sum : alignedSum x ({ x with b := x.b ^^^ 0x80000000 } : TempReal).negate 0 =
      signed (x.exponent + 2).msb (x.mantissa / 4) + signed (!(x.exponent + 2).msb)
        (({ x with b := x.b ^^^ 0x80000000 } : TempReal).mantissa / 4) := by
    rw [← msb_add_two_xor]
    rfl
  generalize ({ x with b := x.b ^^^ 0x80000000 } : TempReal).mantissa / 4 = m at apart sum
  have nonzero : alignedSum x ({ x with b := x.b ^^^ 0x80000000 } : TempReal).negate 0 ≠ 0 := by
    rw [sum, signed_not]
    cases (x.exponent + 2).msb with
    | false => simp only [signed, Bool.false_eq_true, if_false]; omega
    | true => simp only [signed, if_true]; omega
  obtain ⟨k, -, -, mantissa, -⟩ := faddOrdered_spec (by decide) nonzero
  rw [fadd, if_neg (by rw [same]; exact lt_irrefl _), same, Nat.sub_self, mantissa]
  exact Nat.mul_ne_zero (Nat.two_pow_pos k).ne' (Int.natAbs_ne_zero.mpr nonzero)

theorem comparison_differs (x : TempReal) : ∃ y, comparison x y ≠ comparison x x := by
  refine ⟨{ x with b := x.b ^^^ 0x80000000 }, fun same => ?_⟩
  have equal := congrArg (·.2.2) same
  simp only [comparison, conditionCodes, (fcom_codes _ _ _).2.1, fadd_comm x.negate x, fadd_negate_self,
    decide_eq_decide] at equal
  exact fadd_negate_flip x (equal.mpr rfl)

theorem not_carriesOut_of_temporary (ends : ∀ tmp, Ends tmp s fun _ codes => codes = comparison (s.stack.st 0) tmp)
    (pops : Nat) : ¬CarriesOut (.compare i pops) s := by
  intro right
  have named (tmp : TempReal) : comparison (s.stack.st 0) tmp = comparison (s.stack.st 0) (s.stack.st i) := by
    obtain ⟨_, codes, ⟨codesAre, -⟩, rfl⟩ := (right tmp).both (ends tmp)
    exact codesAre
  obtain ⟨tmp, apart⟩ := comparison_differs (s.stack.st 0)
  exact apart ((named tmp).trans (named _).symm)

theorem controlSwitch_of_undefined : ∀ j < 8, j ≠ 1 → (controlSwitch (8 * 0xdb + j)).isNone = true := by
  decide

theorem execute_undefined {j : Nat} (small : j < 8) (other : j ≠ 1) (tmp : TempReal) :
    execute (8 * 0xdb + j) tmp = (do
      modifySwd (fcom tmp (← st 0))
      fpop) := by
  have row : (8 * 0xdb + j) >>> 3 = 0xdb := by
    rw [Nat.shiftRight_eq_div_pow]
    omega
  have format : (8 * 0xdb + j) >>> 9 = 3 := by
    rw [Nat.shiftRight_eq_div_pow]
    omega
  have transfer : transferSwitch (8 * 0xdb + j) = none := by
    unfold transferSwitch
    rw [row]
    rfl
  have operand : memoryOperand (8 * 0xdb + j) tmp = pure tmp := by
    unfold memoryOperand
    rw [format]
    rfl
  have last : arithmeticSwitch (8 * 0xdb + j) tmp = (do
      modifySwd (fcom tmp (← st 0))
      fpop) := by
    unfold arithmeticSwitch
    rw [row]
    rfl
  rw [execute_of_operand (Option.isNone_iff_eq_none.mp (controlSwitch_of_undefined j small other)) (by rw [row]; rfl)
    transfer, operand, pure_bind, last]

theorem undefined_ends (user : s.info.cs = 0x000f) (code : s.code.toNat = registerCode 6 3 i) (other : i ≠ 1)
    (tmp : TempReal) : Ends tmp s fun _ codes => codes = comparison (s.stack.st 0) tmp := by
  have number : i.toNat ≠ 1 := fun one => other (BitVec.eq_of_toNat_eq one)
  refine ⟨(s.fetched.setSwd (fcom tmp (s.fetched.st 0) s.fetched.i387.swd)).fpop, ?_, by simp, rfl, rfl⟩
  rw [doEmu_of_user user, code]
  exact congrFun (execute_undefined i.isLt number tmp) s.fetched

end Comparisons

/-! ## Every register form -/

def ComparesTemporary (escape reg : Nat) (i : BitVec 3) : Prop := escape = 0 ∨ escape = 6 ∧ reg = 3 ∧ i ≠ 1

instance (escape reg : Nat) (i : BitVec 3) : Decidable (ComparesTemporary escape reg i) :=
  inferInstanceAs (Decidable (_ ∨ _))

def RegisterFormRight (escape reg : Nat) (i : BitVec 3) (instr : RegisterInstruction) (stack : Stack) : Prop :=
  match instr with
  | .arithmetic op _ first second _ =>
    op.Assigns (stack.st first) (stack.st second) ∧
      (NegatesRegister escape reg → i = 0 → (stack.st 0).mantissa < 4)
  | .compare _ _ => ¬ComparesTemporary escape reg i
  | _ => True

theorem ends_of_control {tmp : TempReal} {post : Stack → Bool × Bool × Bool → Prop} {code : Nat}
    (user : s.info.cs = 0x000f) (is : s.code.toNat = code) {run : Emu Unit} {s' : Machine}
    (control : controlSwitch code = some run) (ran : run s.fetched = .ok () s') (holds : post s'.stack s'.codes)
    (memory : s'.memory = s.memory) (signal : s'.signal = s.signal) : Ends tmp s post := by
  refine ⟨s', ?_, holds, memory, signal⟩
  rw [doEmu_of_user user, is, execute, control]
  exact ran

theorem st_pushed (stack : Stack) (i : BitVec 3) : stack.turnBack.st (BitVec.ofNat 3 (i.toNat + 1)) = stack.st i := by
  rw [BitVec.ofNat_add, BitVec.ofNat_toNat, BitVec.setWidth_eq]
  exact RegisterStack.st_turnBack

theorem constant_form_iff {instr : RegisterInstruction} (user : s.info.cs = 0x000f)
    (code : s.code.toNat = registerCode 1 5 i) (is : constantRow i = some instr) :
    CarriesOut instr s ↔ RegisterFormRight 1 5 i instr s.stack := by
  unfold constantRow at is
  split at is
  case h_8 => cases is
  all_goals
    cases is
    exact iff_of_true (fun tmp => ends_of_control user code rfl rfl
      (by simp [RegisterInstruction.Effect, RegisterStack.push]) rfl rfl) trivial

section Forms

variable {s : Machine} {escape reg : Nat} {i : BitVec 3} {instr : RegisterInstruction}

theorem arithmetic_form_iff (dest : BitVec 3) (pops : Nat)
    (ends : ∀ {op first second}, RowOperands reg i op first second → ∀ tmp, Ends tmp s fun stack _ => stack =
      RegisterStack.pop^[pops] (s.stack.set dest
        ((op.result (usedFirst escape reg i first s.stack) (s.stack.st second)).getD tmp)))
    (is : arithmeticRow reg dest i pops = some instr) :
    CarriesOut instr s ↔ RegisterFormRight escape reg i instr s.stack := by
  obtain ⟨op, first, second, rfl, row⟩ := rowOperands_of_row is
  rw [carriesOut_arithmetic_iff (ends row), used_result_iff escape row]
  rfl

theorem register_form_iff (user : s.info.cs = 0x000f) (code : s.code.toNat = registerCode escape reg i)
    (is : registerInstruction escape reg i = some instr) :
    CarriesOut instr s ↔ RegisterFormRight escape reg i instr s.stack := by
  unfold registerInstruction at is
  split at is
  · cases is
    exact iff_of_false (not_carriesOut_of_overwritten fun tmp =>
      ends_of_row user 0x1a code (by decide) rfl rfl (by simp)) fun right => right (.inl rfl)
  · cases is
    exact iff_of_false (not_carriesOut_of_overwritten fun tmp =>
      ends_of_row user 0x1b code (by decide) rfl rfl (by simp)) fun right => right (.inl rfl)
  · exact arithmetic_form_iff 0 0 (fun row => intoTop_ends user code row) is
  · cases is
    exact iff_of_true (fun tmp => ends_of_row user 0x38 code (by decide) rfl rfl
      (by simp [RegisterInstruction.Effect, RegisterStack.push, st_pushed])) trivial
  · cases is
    exact iff_of_true (fun tmp => ends_of_row user 0x39 code (by decide) rfl rfl
      (by simp [RegisterInstruction.Effect, RegisterStack.exchange])) trivial
  · cases is
    exact iff_of_true (fun tmp => ends_of_row user 0x3b code (by decide) rfl rfl
      (by simp [RegisterInstruction.Effect])) trivial
  · split at is
    · rename_i four
      subst four
      cases is
      exact iff_of_true (fun tmp => ends_of_control user code rfl rfl (by simp [RegisterInstruction.Effect]) rfl rfl) trivial
    · cases is
  · exact constant_form_iff user code is
  · split at is
    · rename_i one
      subst one
      cases is
      exact iff_of_true (fun tmp => ends_of_control user code rfl rfl
        (by simp [RegisterInstruction.Effect, fucom]) rfl rfl) (show ¬ComparesTemporary 2 5 1 by decide)
    · cases is
  · cases is
    exact iff_of_true (fun tmp => ends_of_row user 0x9a code (by decide) rfl rfl
      (by simp [RegisterInstruction.Effect])) (by simp [RegisterFormRight, ComparesTemporary])
  · cases is
    exact iff_of_true (fun tmp => ends_of_row user 0x9b code (by decide) rfl rfl
      (by simp [RegisterInstruction.Effect])) (by simp [RegisterFormRight, ComparesTemporary])
  · exact arithmetic_form_iff i 0 (fun row => intoRegister_ends user code row) is
  · cases is
    exact iff_of_true (fun tmp => ends_of_row user 0xb9 code (by decide) rfl rfl
      (by simp [RegisterInstruction.Effect, RegisterStack.exchange])) trivial
  · cases is
    exact iff_of_true (fun tmp => ends_of_row user 0xba code (by decide) rfl rfl
      (by simp [RegisterInstruction.Effect])) trivial
  · cases is
    exact iff_of_true (fun tmp => ends_of_row user 0xbb code (by decide) rfl rfl
      (by simp [RegisterInstruction.Effect])) trivial
  · cases is
    exact iff_of_true (fun tmp => ends_of_row user 0xbc code (by decide) rfl rfl
      (by simp [RegisterInstruction.Effect, fucom])) (by simp [RegisterFormRight, ComparesTemporary])
  · cases is
    exact iff_of_true (fun tmp => ends_of_row user 0xbd code (by decide) rfl rfl
      (by simp [RegisterInstruction.Effect, fucom])) (by simp [RegisterFormRight, ComparesTemporary])
  · cases is
    exact iff_of_true (fun tmp => ends_of_row user 0xda code (by decide) rfl rfl
      (by simp [RegisterInstruction.Effect])) (by simp [RegisterFormRight, ComparesTemporary])
  · cases is
    split
    · rename_i one
      subst one
      exact iff_of_true (fun tmp => ends_of_control user code rfl rfl
        (by simp [RegisterInstruction.Effect]) rfl rfl) (show ¬ComparesTemporary 6 3 1 by decide)
    · rename_i other
      exact iff_of_false (not_carriesOut_of_temporary (undefined_ends user code other) 1)
        fun right => right (.inr ⟨rfl, rfl, other⟩)
  · exact arithmetic_form_iff i 1 (fun row => intoPopped_ends user code row) is
  · cases is
    exact iff_of_true (fun tmp => ends_of_row user 0xf9 code (by decide) rfl rfl
      (by simp [RegisterInstruction.Effect, RegisterStack.exchange])) trivial
  · cases is
    exact iff_of_true (fun tmp => ends_of_row user 0xfa code (by decide) rfl rfl
      (by simp [RegisterInstruction.Effect])) trivial
  · cases is
    exact iff_of_true (fun tmp => ends_of_row user 0xfb code (by decide) rfl rfl
      (by simp [RegisterInstruction.Effect])) trivial
  · cases is

end Forms

/-! ## The other register forms -/

/-- Those that do something else: nothing, `FCHS`, `FABS`, the control of the coprocessor and
`FSTSW` to AX. -/
def controlCodes : List Nat := [0x1d0, 0x1e0, 0x1e1, 0x3d0, 0x3d1, 0x3e2, 0x3e3, 0x3e4, 0x7e0]

def abortCodes : List Nat :=
  [0x1d1, 0x1d2, 0x1d3, 0x1d4, 0x1d5, 0x1d6, 0x1d7, 0x1e2, 0x1e3, 0x1e5, 0x1e6, 0x1e7, 0x1ef, 0x1f0, 0x1f1, 0x1f2,
    0x1f3, 0x1f4, 0x1f5, 0x1f6, 0x1f7, 0x1f8, 0x1f9, 0x1fa, 0x1fb, 0x1fc, 0x1fd, 0x1fe, 0x1ff]

/-- No case of the first two switches takes the code, and what is left begins with `ea`. -/
def LeftToAddress (code : Nat) : Prop :=
  (controlSwitch code).isNone ∧ code >>> 3 ∉ 0xb8 :: 0xf8 :: registerRows ∧
    (code >>> 9 < 3 ∨ (transferSwitch code).isSome)

instance (code : Nat) : Decidable (LeftToAddress code) := inferInstanceAs (Decidable (_ ∧ _ ∧ _))

def Refusable (code : Nat) : Prop :=
  code ∈ abortCodes ∨ (controlSwitch code).isNone ∧ (code >>> 3 = 0xb8 ∨ code >>> 3 = 0xf8) ∨ LeftToAddress code

instance (code : Nat) : Decidable (Refusable code) := inferInstanceAs (Decidable (_ ∨ _))

theorem register_form_classes : ∀ escape < 8, ∀ reg < 8, ∀ i < 8,
    (registerInstruction escape reg (BitVec.ofNat 3 i)).isSome ∨
      registerCode escape reg (BitVec.ofNat 3 i) ∈ controlCodes ∨
      Refusable (registerCode escape reg (BitVec.ofNat 3 i)) := by
  decide +kernel

section Refused

variable {code : Nat} {s : Machine}

theorem transfer_refused (register : code / 64 % 4 = 3) {run : Emu Unit} (is : transferSwitch code = some run) :
    ∃ s', run s = .error .aborted s' := by
  have refused (s : Machine) : ea code s = mathAbort (signalBit sigill) s := ea_of_register register s
  unfold transferSwitch at is
  split at is
  all_goals cases is
  all_goals
    exact ⟨_, by
      simp only [bind_apply, putShortReal, putLongReal, putTempReal, putShortInt, putLongInt, putLonglongInt, putBCD,
        getBCD, getLonglongInt, getTempReal, refused]
      rfl⟩

theorem operand_refused (register : code / 64 % 4 = 3) (format : code >>> 9 < 3) (tmp : TempReal) :
    ∃ s', memoryOperand code tmp s = .error .aborted s' := by
  have refused (s : Machine) : ea code s = mathAbort (signalBit sigill) s := ea_of_register register s
  unfold memoryOperand
  generalize code >>> 9 = format' at format
  obtain rfl | rfl | rfl : format' = 0 ∨ format' = 1 ∨ format' = 2 := by omega
  all_goals
    exact ⟨_, by
      simp only [bind_apply, getShortReal, getLongInt, getLongReal, refused]
      rfl⟩

theorem controlSwitch_of_abort : ∀ code ∈ abortCodes, controlSwitch code = some (mathAbort (signalBit sigill)) := by
  unfold abortCodes
  iterate 29 refine List.forall_mem_cons.mpr ⟨rfl, ?_⟩
  exact List.forall_mem_nil _

theorem registerSwitch_of_other {k : Nat} (other : k ∉ 0xb8 :: 0xf8 :: registerRows) (i : Nat) (tmp : TempReal) :
    registerSwitch k i tmp = none := by
  unfold registerSwitch
  split
  case h_37 => rfl
  all_goals exact absurd (by decide) other

theorem execute_refused (register : code / 64 % 4 = 3) (refusable : Refusable code) (tmp : TempReal) :
    ∃ s', execute code tmp s = .error .aborted s' := by
  obtain aborts | ⟨control, row⟩ | ⟨control, free, rest⟩ := refusable
  · rw [execute, controlSwitch_of_abort code aborts]
    exact ⟨_, rfl⟩
  · rw [execute, Option.isNone_iff_eq_none.mp control]
    obtain row | row := row
    · rw [row]
      exact ⟨_, rfl⟩
    · rw [row]
      exact ⟨_, rfl⟩
  · have free := registerSwitch_of_other free (code &&& 7) tmp
    cases transfer : transferSwitch code with
    | some run =>
      rw [execute, Option.isNone_iff_eq_none.mp control, free, transfer]
      exact transfer_refused register transfer
    | none =>
      rw [transfer] at rest
      obtain ⟨s', stops⟩ := operand_refused (s := s) register (rest.resolve_right Bool.false_ne_true) tmp
      rw [execute_of_operand (Option.isNone_iff_eq_none.mp control) free transfer]
      refine ⟨s', ?_⟩
      rw [bind_apply, stops]

end Refused

theorem register_form_refused {escape reg : Nat} (user : s.info.cs = 0x000f)
    (code : s.code.toNat = registerCode escape reg i) (escapeSmall : escape < 8) (regSmall : reg < 8)
    (none : registerInstruction escape reg i = none) (other : registerCode escape reg i ∉ controlCodes)
    (tmp : TempReal) : ∃ s', doEmu tmp s = .error .aborted s' := by
  have classes := register_form_classes escape escapeSmall reg regSmall i.toNat i.isLt
  rw [BitVec.ofNat_toNat, BitVec.setWidth_eq, none] at classes
  have refusable := (classes.resolve_left Bool.false_ne_true).resolve_left other
  rw [doEmu_of_user user, code]
  refine execute_refused ?_ refusable tmp
  have small := i.isLt
  rw [registerCode]
  omega

/-- Which register forms have the data flow of the coprocessor; no other form is accepted. -/
theorem register_forms {s : Machine} {escape reg : Nat} {i : BitVec 3} (user : s.info.cs = 0x000f)
    (code : s.code.toNat = registerCode escape reg i) (escapeSmall : escape < 8) (regSmall : reg < 8) :
    (∀ instr, registerInstruction escape reg i = some instr →
        (CarriesOut instr s ↔ RegisterFormRight escape reg i instr s.stack)) ∧
      (registerInstruction escape reg i = none → registerCode escape reg i ∉ controlCodes →
        ∀ tmp, ∃ s', doEmu tmp s = .error .aborted s') :=
  ⟨fun _ is => register_form_iff user code is,
    fun none other => register_form_refused user code escapeSmall regSmall none other⟩

theorem register_forms_fadd :
    (∀ instr, registerInstruction 0 0 1 = some instr →
        (CarriesOut instr (task [0xd8, 0xc1]) ↔ RegisterFormRight 0 0 1 instr (task [0xd8, 0xc1]).stack)) ∧
      (registerInstruction 0 0 1 = none → registerCode 0 0 1 ∉ controlCodes →
        ∀ tmp, ∃ s', doEmu tmp (task [0xd8, 0xc1]) = .error .aborted s') :=
  register_forms rfl (by decide) (by decide) (by decide)

/-- `FCOM ST(1)` puts the temporary into `ST(0)`. -/
theorem fcom_overwrites :
    (task [0xd8, 0xd1]).info.cs = 0x000f ∧ (task [0xd8, 0xd1]).code.toNat = registerCode 0 2 1 ∧
      registerInstruction 0 2 1 = some (.compare 1 0) ∧ ¬CarriesOut (.compare 1 0) (task [0xd8, 0xd1]) :=
  ⟨rfl, by decide, rfl, not_carriesOut_of_overwritten fun _ =>
    ends_of_row (i := 1) rfl 0x1a (by decide) (by decide) rfl rfl (by simp) rfl rfl⟩

end Linux012.Math

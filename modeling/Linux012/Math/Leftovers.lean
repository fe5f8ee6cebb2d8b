import Linux012.Math.MemoryForms

/-! What the arithmetic stores where a routine did not assign its result
(`kernel/math/math_emulate.c`). -/

set_option autoImplicit false

namespace Linux012.Math

/-! ## Destinations -/

/-- The register that was `ST(dest)` has one value behind all runs from these states, whatever the
temporary held. -/
def Determined (dest : BitVec 3) (states : Machine → Prop) : Prop :=
  ∃ r, ∀ s, states s → ∀ tmp, ∃ s', doEmu tmp s = .ok () s' ∧ s'.stack.registers (s.stack.top + dest) = r

structure SameInstruction (s t : Machine) : Prop where
  user : t.info.cs = 0x000f
  code : t.code = s.code
  control : t.i387.cwd = s.i387.cwd

structure SameRegisters (first second : BitVec 3) (s t : Machine) : Prop extends SameInstruction s t where
  first : t.stack.st first = s.stack.st first
  second : t.stack.st second = s.stack.st second

structure SameOperand (format : Format) (s t : Machine) : Prop extends SameInstruction s t where
  top : t.stack.st 0 = s.stack.st 0
  operand : format.operand t.memory t.operandAddress = format.operand s.memory s.operandAddress

theorem SameInstruction.refl {s : Machine} (user : s.info.cs = 0x000f) : SameInstruction s s := ⟨user, rfl, rfl⟩

theorem SameInstruction.forms {s t : Machine} (same : SameInstruction s t) : t.escape = s.escape ∧ t.reg = s.reg := by
  rw [Machine.escape, Machine.reg, same.code]
  exact ⟨rfl, rfl⟩

section Determined

variable {dest : BitVec 3} {states : Machine → Prop}

theorem determined_iff (pops : Nat) (leaves : TempReal → TempReal) {s : Machine} (here : states s)
    (ends : ∀ t, states t → ∀ tmp, Ends tmp t fun stack _ => stack =
      RegisterStack.pop^[pops] (t.stack.set dest (leaves tmp))) :
    Determined dest states ↔ ∀ tmp tmp', leaves tmp = leaves tmp' := by
  have written (t : Machine) (mem : states t) (tmp : TempReal) :
      ∃ t', doEmu tmp t = .ok () t' ∧ t'.stack.registers (t.stack.top + dest) = leaves tmp := by
    obtain ⟨t', ran, stack, -⟩ := ends t mem tmp
    refine ⟨t', ran, ?_⟩
    rw [stack, RegisterStack.registers_pops, RegisterStack.registers_set]
  constructor
  · rintro ⟨r, determined⟩
    have value (tmp : TempReal) : leaves tmp = r := by
      obtain ⟨t, ran, register⟩ := determined s here tmp
      obtain ⟨t', ran', register'⟩ := written s here tmp
      cases ran.symm.trans ran'
      rw [← register, register']
    intro tmp tmp'
    rw [value tmp, value tmp']
  · intro same
    refine ⟨leaves .zero, fun t mem tmp => ?_⟩
    obtain ⟨t', ran, register⟩ := written t mem tmp
    exact ⟨t', ran, register.trans (same tmp .zero)⟩

end Determined

/-! ## Register forms -/

theorem getD_const_iff {r : Option TempReal} : (∀ tmp tmp', r.getD tmp = r.getD tmp') ↔ r.isSome := by
  cases r with
  | none => exact iff_of_false (fun same => negate_ne_self .zero (same _ _)) Bool.false_ne_true
  | some r => exact iff_of_true (fun _ _ => rfl) rfl

section RegisterForms

variable {s t : Machine} {escape reg pops : Nat} {i dest first second : BitVec 3} {op : Operation}

theorem row_of_arithmetic (is : registerInstruction escape reg i = some (.arithmetic op dest first second pops)) :
    RowOperands reg i op first second ∧
      (escape = 0 ∧ dest = 0 ∧ pops = 0 ∨ escape = 4 ∧ dest = i ∧ pops = 0 ∨ escape = 6 ∧ dest = i ∧ pops = 1) := by
  have row {dest' : BitVec 3} {pops' : Nat} (is : arithmeticRow reg dest' i pops' =
      some (.arithmetic op dest first second pops)) : RowOperands reg i op first second ∧ dest = dest' ∧ pops = pops' := by
    obtain ⟨op', first', second', same, row⟩ := rowOperands_of_row is
    cases same
    exact ⟨row, rfl, rfl⟩
  have constant (is : constantRow i = some (.arithmetic op dest first second pops)) : False := by
    unfold constantRow at is
    split at is
    all_goals cases is
  unfold registerInstruction at is
  split at is
  case h_3 => exact (row is).imp_right fun rest => .inl ⟨rfl, rest⟩
  case h_12 => exact (row is).imp_right fun rest => .inr (.inl ⟨rfl, rest⟩)
  case h_20 => exact (row is).imp_right fun rest => .inr (.inr ⟨rfl, rest⟩)
  case h_8 => exact (constant is).elim
  all_goals first | cases is | (split at is; all_goals cases is)

theorem arithmetic_ends (user : s.info.cs = 0x000f) (code : s.code.toNat = registerCode escape reg i)
    (is : registerInstruction escape reg i = some (.arithmetic op dest first second pops)) (tmp : TempReal) :
    Ends tmp s fun stack _ => stack = RegisterStack.pop^[pops]
      (s.stack.set dest ((op.result (usedFirst escape reg i first s.stack) (s.stack.st second)).getD tmp)) := by
  obtain ⟨row, ⟨rfl, rfl, rfl⟩ | ⟨rfl, rfl, rfl⟩ | ⟨rfl, rfl, rfl⟩⟩ := row_of_arithmetic is
  · exact intoTop_ends user code row tmp
  · exact intoRegister_ends user code row tmp
  · exact intoPopped_ends user code row tmp

theorem usedFirst_eq (row : RowOperands reg i op first second) (stack : Stack) :
    usedFirst escape reg i first stack =
      if NegatesRegister escape reg ∧ i = 0 then (stack.st first).negate else stack.st first := by
  rw [usedFirst]
  split
  · rename_i negates
    have top : first = 0 := by
      simp only [RowOperands] at row
      grind
    rw [top]
  · rfl

theorem used_assigns_iff (row : RowOperands reg i op first second) (stack : Stack) :
    (op.result (usedFirst escape reg i first stack) (stack.st second)).isSome ↔
      op.Assigns (stack.st first) (stack.st second) := by
  rw [usedFirst]
  split
  · rename_i negates
    have subtracts : op = .subtract := by
      simp only [NegatesRegister, RowOperands] at negates row
      grind
    subst subtracts
    exact iff_of_true rfl trivial
  · exact Operation.assigns_iff

theorem register_determined_iff (user : s.info.cs = 0x000f) (code : s.code.toNat = registerCode escape reg i)
    (is : registerInstruction escape reg i = some (.arithmetic op dest first second pops)) :
    Determined dest (SameRegisters first second s) ↔ op.Assigns (s.stack.st first) (s.stack.st second) := by
  have row := (row_of_arithmetic is).1
  rw [determined_iff pops
    (fun tmp => (op.result (usedFirst escape reg i first s.stack) (s.stack.st second)).getD tmp) ⟨.refl user, rfl, rfl⟩, getD_const_iff, used_assigns_iff row]
  intro t same tmp
  have ends := arithmetic_ends same.user (same.code ▸ code) is tmp
  rw [usedFirst_eq row, same.first, same.second, ← usedFirst_eq row] at ends
  exact ends

end RegisterForms

/-! ## Memory forms -/

section MemoryForms

variable {s t : Machine} {op : Operation} {format : Format} {reversed : Bool}

theorem temporary_of_same (same : SameOperand format s t) (tmp : TempReal) :
    t.temporary format tmp = s.temporary format tmp := by
  rw [Machine.temporary, Machine.temporary, Format.temporary, Format.temporary, same.operand]

open MemoryInstruction in
theorem memory_determined_iff (user : s.info.cs = 0x000f) (memory : s.code.toNat / 64 % 4 ≠ 3)
    (is : memoryInstruction s.escape s.reg = some (.arithmetic op format reversed)) :
    Determined 0 (SameOperand format s) ↔ format ≠ .int16 := by
  rw [determined_iff 0
    (fun tmp => (resultOf op reversed (s.stack.st 0) (s.temporary format tmp)).getD (s.temporary format tmp)) ⟨.refl user, rfl, rfl⟩]
  · constructor
    · rintro same rfl
      obtain ⟨tmp, tmp', apart⟩ := leftovers_differ op reversed (s.stack.st 0)
      exact apart (same tmp tmp')
    · intro read tmp tmp'
      have temporary (tmp : TempReal) : s.temporary format tmp = format.operand s.memory s.operandAddress := if_neg read
      rw [temporary, temporary]
  · intro t same tmp
    obtain ⟨escape, reg⟩ := same.forms
    have ends := memory_ends same.user (by rw [same.code]; exact memory) (by rw [escape, reg]; exact is) tmp
    refine ends.imp fun stack codes leaves => ?_
    change stack = t.stack.set 0 ((resultOf op reversed (t.stack.st 0) (t.temporary format tmp)).getD
      (t.temporary format tmp)) at leaves
    rwa [temporary_of_same same, same.top] at leaves

end MemoryForms

/-! ## Every arithmetic instruction -/

/-- When `fmul` and `fdiv` assign their result, and whose destinations are a function of the
operands; `fadd` has a result for all operands. -/
theorem arithmetic_determined (x y : TempReal) (swd : BitVec 32) (s : Machine) (op : Operation)
    (user : s.info.cs = 0x000f) :
    ((fmul x y swd).result.isSome ↔ ProductFits x y) ∧
      ((fdiv x y swd).result.isSome ↔ y.mantissa ≠ 0 ∧ QuotientFits x y) ∧
      (∀ (escape reg pops : Nat) (i dest first second : BitVec 3), s.code.toNat = registerCode escape reg i →
        registerInstruction escape reg i = some (.arithmetic op dest first second pops) →
        (Determined dest (SameRegisters first second s) ↔ op.Assigns (s.stack.st first) (s.stack.st second))) ∧
      ∀ (format : Format) (reversed : Bool), s.code.toNat / 64 % 4 ≠ 3 →
        memoryInstruction s.escape s.reg = some (.arithmetic op format reversed) →
        (Determined 0 (SameOperand format s) ↔ format ≠ .int16) :=
  ⟨fmul_assigns_iff x y swd, fdiv_assigns_iff x y swd,
    fun _ _ _ _ _ _ _ code is => register_determined_iff user code is,
    fun _ _ memory is => memory_determined_iff user memory is⟩

theorem arithmetic_determined_fadd :
    (Determined 0 (SameRegisters 0 1 (task [0xd8, 0xc1])) ↔ True) ∧
      (Determined 0 (SameOperand .real32 (task [0xd8, 0x00])) ↔ Format.real32 ≠ .int16) :=
  ⟨(arithmetic_determined .one .one 0 (task [0xd8, 0xc1]) .add rfl).2.2.1 0 0 0 1 0 0 1 (by decide) rfl,
    (arithmetic_determined .one .one 0 (task [0xd8, 0x00]) .add rfl).2.2.2 .real32 false (by decide) (by decide)⟩

/-- `FDIV ST, ST(1)` with a zero in `ST(1)` stores what the stack held. -/
theorem fdiv_leftovers :
    (task [0xd8, 0xf1]).info.cs = 0x000f ∧ (task [0xd8, 0xf1]).code.toNat = registerCode 0 6 1 ∧
      registerInstruction 0 6 1 = some (.arithmetic .divide 0 0 1 0) ∧
      ¬Determined 0 (SameRegisters 0 1 (task [0xd8, 0xf1])) := by
  have code : (task [0xd8, 0xf1]).code.toNat = registerCode 0 6 1 := by decide
  have is : registerInstruction 0 6 1 = some (.arithmetic .divide 0 0 1 0) := rfl
  exact ⟨rfl, code, is, fun determined => ((register_determined_iff rfl code is).mp determined).1 rfl⟩

end Linux012.Math

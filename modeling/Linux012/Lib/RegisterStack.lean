import Mathlib.Algebra.Group.Basic
import Mathlib.Algebra.Group.Nat.Defs

/-! Register files that turn under a stack pointer: register `i` is the one `i` places behind the
top, and the places wrap around. -/

set_option autoImplicit false

structure RegisterStack (ι α : Type*) where
  top : ι
  registers : ι → α

namespace RegisterStack

open Function

variable {ι α : Type*} [AddCommGroup ι]

def st (s : RegisterStack ι α) (i : ι) : α := s.registers (s.top + i)

section Turn

variable [One ι]

def pop (s : RegisterStack ι α) : RegisterStack ι α := { s with top := s.top + 1 }

def turnBack (s : RegisterStack ι α) : RegisterStack ι α := { s with top := s.top - 1 }

theorem st_turnBack {s : RegisterStack ι α} {i : ι} : s.turnBack.st (i + 1) = s.st i := by
  have same : s.top - 1 + (i + 1) = s.top + i := by
    rw [add_comm i, ← add_assoc, sub_add_cancel]
  rw [st, turnBack, same]
  rfl

theorem pop_injective : Function.Injective (pop : RegisterStack ι α → RegisterStack ι α) := by
  rintro ⟨top, registers⟩ ⟨top', registers'⟩ same
  rw [pop, pop, mk.injEq] at same
  rw [mk.injEq]
  exact ⟨add_right_cancel same.1, same.2⟩

theorem registers_pops (n : Nat) (s : RegisterStack ι α) : (pop^[n] s).registers = s.registers := by
  induction n generalizing s with
  | zero => rfl
  | succ n ih => exact ih s.pop

end Turn

variable [DecidableEq ι]

def set (s : RegisterStack ι α) (i : ι) (value : α) : RegisterStack ι α :=
  { s with registers := update s.registers (s.top + i) value }

def push [One ι] (s : RegisterStack ι α) (value : α) : RegisterStack ι α := s.turnBack.set 0 value

def exchange (s : RegisterStack ι α) (i j : ι) : RegisterStack ι α := (s.set i (s.st j)).set j (s.st i)

variable {s : RegisterStack ι α} {i j : ι} {x y : α}

@[simp] theorem st_set : (s.set i x).st i = x := update_self ..

theorem registers_set : (s.set i x).registers (s.top + i) = x := update_self ..

theorem st_set_eq : (s.set i x).st j = if j = i then x else s.st j := by
  split
  · rename_i same
    rw [same, st_set]
  · rename_i apart
    exact update_of_ne (fun same => apart (add_left_cancel same)) ..

@[simp] theorem set_set : (s.set i x).set i y = s.set i y := by
  simp [set]

theorem set_eq_set_iff : s.set i x = s.set i y ↔ x = y := by
  refine ⟨fun same => ?_, congrArg _⟩
  have registers := congrArg (fun s => s.st i) same
  simpa using registers

end RegisterStack

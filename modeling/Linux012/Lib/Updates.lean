import Mathlib.Logic.Function.Basic

/-! Where an entry of a table comes from after one of them has been changed. -/

set_option autoImplicit false

namespace Updates

open Function

variable {ι α : Type*} [DecidableEq ι] {i j : ι} {a b : α}

theorem of_update {f : ι → α} (now : update f i a j = b) : j = i ∧ a = b ∨ j ≠ i ∧ f j = b := by
  by_cases same : j = i
  · subst same
    exact .inl ⟨rfl, (update_self ..).symm.trans now⟩
  · exact .inr ⟨same, (update_of_ne same ..).symm.trans now⟩

variable {f : ι → Option α}

theorem of_update_some (now : update f i (some a) j = some b) : j = i ∧ a = b ∨ j ≠ i ∧ f j = some b :=
  (of_update now).imp_left (And.imp_right Option.some.inj)

theorem of_update_none (now : update f i none j = some b) : j ≠ i ∧ f j = some b :=
  (of_update now).resolve_left fun gone => by cases gone.2

end Updates

import Mathlib.Data.Nat.Init

/-! Loops that end because a measure falls in each round. -/

set_option autoImplicit false

/-- The body may use that the guard holds, so that the states can carry an invariant. -/
structure WhileLoop (σ : Type*) where
  guard : σ → Bool
  body : (s : σ) → guard s = true → σ
  measure : σ → Nat
  decreases : ∀ s more, measure (body s more) < measure s

namespace WhileLoop

variable {σ : Type*}

def run (l : WhileLoop σ) (s : σ) : σ :=
  if more : l.guard s = true then l.run (l.body s more) else s
termination_by l.measure s
decreasing_by exact l.decreases s more

variable {l : WhileLoop σ} {s : σ}

theorem run_of_guard (more : l.guard s = true) : l.run s = l.run (l.body s more) := by
  rw [run, dif_pos more]

theorem run_of_not_guard (stop : l.guard s = false) : l.run s = s := by
  rw [run, dif_neg (by simp [stop])]

theorem guard_run (l : WhileLoop σ) (s : σ) : l.guard (l.run s) = false := by
  induction s using run.induct l with
  | case1 s more ih => rwa [run_of_guard more]
  | case2 s stop =>
    rw [run_of_not_guard (by simpa using stop)]
    simpa using stop

theorem run_keeps {motive : σ → Prop} (keeps : ∀ s more, motive s → motive (l.body s more))
    (start : motive s) : motive (l.run s) := by
  induction s using run.induct l with
  | case1 s more ih =>
    rw [run_of_guard more]
    exact ih (keeps s more start)
  | case2 s stop => rwa [run_of_not_guard (by simpa using stop)]

end WhileLoop

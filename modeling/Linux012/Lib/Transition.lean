import Mathlib.Tactic.Common

/-! Runs of a machine whose step is a partial function of a state and a move. -/

set_option autoImplicit false

namespace Transition

section Runs

variable {σ μ : Type*} (step : σ → μ → Option σ)

/-- The runs in which every move is made in a state where `cond` allows it. -/
inductive Run (cond : σ → μ → Prop) (start : σ) : σ → Prop where
  | start : Run cond start start
  | move {s s' : σ} {m : μ} :
      Run cond start s → cond s m → step s m = some s' → Run cond start s'

abbrev Reachable : σ → σ → Prop := Run step fun _ _ => True

def run : σ → List μ → Option σ
  | s, [] => some s
  | s, m :: moves => (step s m).bind fun s' => run s' moves

variable {step}

variable {s start : σ} {cond : σ → μ → Prop}

theorem Run.invariant {P : σ → Prop} (preserved : ∀ {s m s'}, P s → cond s m → step s m = some s' → P s')
    (initial : P start) (reached : Run step cond start s) : P s := by
  induction reached with
  | start => exact initial
  | move _ allowed moved ih => exact preserved ih allowed moved

theorem Run.weaken {cond' : σ → μ → Prop} (weaker : ∀ s m, cond s m → cond' s m)
    (reached : Run step cond start s) : Run step cond' start s := by
  induction reached with
  | start => exact .start
  | move _ allowed moved ih => exact .move ih (weaker _ _ allowed) moved

theorem Run.reachable (reached : Run step cond start s) : Reachable step start s :=
  reached.weaken fun _ _ _ => trivial

theorem Run.trans {t : σ} (first : Run step cond start s) (second : Run step cond s t) :
    Run step cond start t := by
  induction second with
  | start => exact first
  | move _ allowed moved ih => exact .move ih allowed moved

theorem Run.imp_of_invariant {cond' : σ → μ → Prop} {P : σ → Prop}
    (preserved : ∀ {s m s'}, P s → cond' s m → step s m = some s' → P s') (initial : P start)
    (implied : ∀ s m, P s → cond s m → cond' s m) (reached : Run step cond start s) : Run step cond' start s := by
  induction reached with
  | start => exact .start
  | move before allowed moved ih =>
    have holds := ih.invariant preserved initial
    exact .move ih (implied _ _ holds allowed) moved

theorem reachable_of_run {moves : List μ} (ran : run step start moves = some s) : Reachable step start s := by
  induction moves generalizing start with
  | nil =>
    cases ran
    exact .start
  | cons m moves ih =>
    rw [run, Option.bind_eq_some_iff] at ran
    obtain ⟨next, moved, later⟩ := ran
    exact (Run.move .start trivial moved).trans (ih later)

variable (step) in
theorem exists_of_run (start : σ) (moves : List μ) (P : σ → Prop) [DecidablePred P]
    (checked : (run step start moves).any (fun s => P s) = true) :
    ∃ s, run step start moves = some s ∧ P s := by
  rw [Option.any_eq_true] at checked
  obtain ⟨s, ran, holds⟩ := checked
  exact ⟨s, ran, of_decide_eq_true holds⟩

theorem exists_run {moves : List μ} {Q : σ → Prop} (P : σ → Prop) [DecidablePred P]
    (checked : (run step start moves).any (fun s => P s) = true)
    (follows : ∀ s, run step start moves = some s → P s → Q s) : ∃ s, run step start moves = some s ∧ Q s := by
  obtain ⟨s, ran, holds⟩ := exists_of_run step start moves P checked
  exact ⟨s, ran, follows s ran holds⟩

variable (step) in
/-- All moves of a list, as long as `allowed` holds before each. -/
def runIf (allowed : σ → μ → Bool) : σ → List μ → Option σ
  | s, [] => some s
  | s, m :: moves =>
    if allowed s m then (step s m).bind fun s' => runIf allowed s' moves else none

theorem run_of_runIf {allowed : σ → μ → Bool} {moves : List μ} (ran : runIf step allowed start moves = some s) :
    Run step (fun s m => allowed s m = true) start s := by
  induction moves generalizing start with
  | nil =>
    cases ran
    exact .start
  | cons m moves ih =>
    simp only [runIf, Option.ite_none_right_eq_some, Option.bind_eq_some_iff] at ran
    obtain ⟨ok, next, moved, later⟩ := ran
    have first : Run step (fun s m => allowed s m = true) start next := .move .start ok moved
    exact first.trans (ih later)

variable (step) in
theorem exists_of_runIf (allowed : σ → μ → Bool) (start : σ) (moves : List μ) (P : σ → Prop)
    [DecidablePred P] (checked : (runIf step allowed start moves).any (fun s => P s) = true) :
    ∃ s, Run step (fun s m => allowed s m = true) start s ∧ P s := by
  rw [Option.any_eq_true] at checked
  obtain ⟨s, ran, holds⟩ := checked
  exact ⟨s, run_of_runIf ran, of_decide_eq_true holds⟩

section Traces

variable (step)

def Always (P : σ → Prop) : σ → List μ → Prop
  | s, [] => P s
  | s, m :: moves => P s ∧ ∀ s', step s m = some s' → Always P s' moves

def Throughout (cond : σ → μ → Prop) : σ → List μ → Prop
  | _, [] => True
  | s, m :: moves => ∀ s', step s m = some s' → cond s m ∧ Throughout cond s' moves

variable {step}

variable {moves : List μ} {P : σ → Prop}

theorem always_head {s : σ} (always : Always step P s moves) : P s := by
  cases moves with
  | nil => exact always
  | cons m moves => exact always.1

theorem Always.of_run {s s' : σ} (always : Always step P s moves) (ran : run step s moves = some s') : P s' := by
  induction moves generalizing s with
  | nil =>
    cases ran
    exact always
  | cons m moves ih =>
    obtain ⟨next, moved, later⟩ := Option.bind_eq_some_iff.mp ran
    exact ih (always.2 next moved) later

theorem throughout_of_forall {allowed : μ → Prop} (all : ∀ m ∈ moves, allowed m) (s : σ) :
    Throughout step (fun _ => allowed) s moves := by
  induction moves generalizing s with
  | nil => trivial
  | cons m moves ih =>
    rw [List.forall_mem_cons] at all
    exact fun s' _ => ⟨all.1, ih all.2 s'⟩

variable {start : σ} {cond : σ → μ → Prop}

theorem always_iff_throughout {Q : σ → Prop} (kept : ∀ {s m s'}, Q s → step s m = some s' → Q s')
    (exactly : ∀ {s m s'}, Q s → P s → step s m = some s' → (P s' ↔ cond s m)) (invariant : Q start)
    (initial : P start) (moves : List μ) : Always step P start moves ↔ Throughout step cond start moves := by
  induction moves generalizing start with
  | nil => exact ⟨fun _ => trivial, fun _ => initial⟩
  | cons m moves ih =>
    constructor
    · intro ⟨_, later⟩ s' moved
      have holds : P s' := always_head (later s' moved)
      exact ⟨(exactly invariant initial moved).mp holds, (ih (kept invariant moved) holds).mp (later s' moved)⟩
    · intro throughout
      refine ⟨initial, fun s' moved => ?_⟩
      obtain ⟨allowed, later⟩ := throughout s' moved
      exact (ih (kept invariant moved) ((exactly invariant initial moved).mpr allowed)).mpr later

theorem always_iff_of_good {Good : σ → Prop} (holds : ∀ {s}, Good s → P s)
    (kept : ∀ {s m s'}, Good s → cond s m → step s m = some s' → Good s')
    (broken : ∀ {s m s'}, Good s → ¬cond s m → step s m = some s' → ¬P s') (initial : Good start)
    (moves : List μ) : Always step P start moves ↔ Throughout step cond start moves := by
  induction moves generalizing start with
  | nil => exact ⟨fun _ => trivial, fun _ => holds initial⟩
  | cons m moves ih =>
    constructor
    · intro ⟨_, later⟩ s' moved
      have allowed : cond start m := by
        by_contra violated
        exact broken initial violated moved (always_head (later s' moved))
      exact ⟨allowed, (ih (kept initial allowed moved)).mp (later s' moved)⟩
    · intro throughout
      refine ⟨holds initial, fun s' moved => ?_⟩
      obtain ⟨allowed, later⟩ := throughout s' moved
      exact (ih (kept initial allowed moved)).mpr later

theorem not_throughout_of_run {s s' : σ} {before after : List μ} {m : μ} (ran : run step start before = some s)
    (moved : step s m = some s') (broken : ¬cond s m) : ¬Throughout step cond start (before ++ m :: after) := by
  induction before generalizing start with
  | nil =>
    cases ran
    exact fun throughout => broken (throughout s' moved).1
  | cons first rest ih =>
    obtain ⟨next, moved', later⟩ := Option.bind_eq_some_iff.mp ran
    exact fun throughout => ih later (throughout next moved').2

theorem throughout_of_runIf {allowed : σ → μ → Bool} {s : σ} (ran : runIf step allowed start moves = some s) :
    Throughout step (fun s m => allowed s m = true) start moves := by
  induction moves generalizing start with
  | nil => trivial
  | cons m moves ih =>
    simp only [runIf, Option.ite_none_right_eq_some, Option.bind_eq_some_iff] at ran
    obtain ⟨ok, next, moved, later⟩ := ran
    intro s' moved'
    rw [moved, Option.some.injEq] at moved'
    exact ⟨ok, moved' ▸ ih later⟩

theorem throughout_congr {Q : σ → Prop} {cond' : σ → μ → Prop}
    (kept : ∀ {s m s'}, Q s → step s m = some s' → Q s')
    (agree : ∀ {s m s'}, Q s → step s m = some s' → (cond s m ↔ cond' s m)) (invariant : Q start)
    (moves : List μ) : Throughout step cond start moves ↔ Throughout step cond' start moves := by
  induction moves generalizing start with
  | nil => exact Iff.rfl
  | cons m moves ih =>
    refine forall_congr' fun s' => forall_congr' fun moved => ?_
    exact and_congr (agree invariant moved) (ih (kept invariant moved))

theorem throughout_of_checked [∀ s m, Decidable (cond s m)]
    (checked : (runIf step (fun s m => decide (cond s m)) start moves).isSome = true) :
    Throughout step cond start moves := by
  obtain ⟨s, ran⟩ := Option.isSome_iff_exists.mp checked
  have decided := throughout_of_runIf ran
  simp only [decide_eq_true_iff] at decided
  exact decided

theorem Throughout.imp {cond' : σ → μ → Prop} (Good : σ → Prop)
    (kept : ∀ {s m s'}, Good s → cond s m → step s m = some s' → Good s')
    (implied : ∀ {s m}, Good s → cond s m → cond' s m) (initial : Good start)
    (throughout : Throughout step cond start moves) : Throughout step cond' start moves := by
  induction moves generalizing start with
  | nil => trivial
  | cons m moves ih =>
    intro s' moved
    obtain ⟨allowed, later⟩ := throughout s' moved
    exact ⟨implied initial allowed, ih (kept initial allowed moved) later⟩

theorem good_or_bad {Good Bad : σ → Prop} (kept : ∀ {s m s'}, Good s → cond s m → step s m = some s' → Good s')
    (broken : ∀ {s m s'}, Good s → ¬cond s m → step s m = some s' → Bad s')
    (stays : ∀ {s m s'}, Bad s → step s m = some s' → Bad s') {s : σ} (initial : Good start)
    (ran : run step start moves = some s) :
    Throughout step cond start moves ∧ Good s ∨ ¬Throughout step cond start moves ∧ Bad s := by
  have ends {t : σ} {rest : List μ} (bad : Bad t) (ran : run step t rest = some s) : Bad s := by
    induction rest generalizing t with
    | nil =>
      cases ran
      exact bad
    | cons m rest ih =>
      obtain ⟨next, moved, later⟩ := Option.bind_eq_some_iff.mp ran
      exact ih (stays bad moved) later
  induction moves generalizing start with
  | nil =>
    cases ran
    exact .inl ⟨trivial, initial⟩
  | cons m moves ih =>
    obtain ⟨next, moved, later⟩ := Option.bind_eq_some_iff.mp ran
    by_cases allowed : cond start m
    · rcases ih (kept initial allowed moved) later with ⟨throughout, good⟩ | ⟨violated, bad⟩
      · refine .inl ⟨fun s' moved' => ?_, good⟩
        rw [moved, Option.some.injEq] at moved'
        subst moved'
        exact ⟨allowed, throughout⟩
      · exact .inr ⟨fun throughout => violated (throughout _ moved).2, bad⟩
    · exact .inr ⟨fun throughout => allowed (throughout _ moved).1, ends (broken initial allowed moved) later⟩

end Traces

end Runs

end Transition

import Linux012.Lib.Transition

/-! The coprocessor's registers: they are saved and restored when a task that does not
own them uses them (`math_state_restore`), copied by `copy_process`, given up by
`do_execve` and `do_exit`. -/

set_option autoImplicit false

namespace Linux012.Kernel.Coprocessor

open Function
open Option (bind_eq_some_iff ite_none_right_eq_some)

inductive Status where
  /-- `copy_process` has not come to its end -/
  | copying
  | running
  | zombie
deriving DecidableEq

structure Task (ρ : Type) where
  status : Status
  usedMath : Bool
  /-- `tss.i387` -/
  i387 : ρ
  /-- The task left the processor inside `switch_to`; a new task has not been there. -/
  inSwitch : Bool

/-- One coprocessor and the tasks; `own` and `seen` are the reference model: what each task
would find in a coprocessor of its own, and beside it what each instruction found. -/
structure State (ρ : Type) where
  ts : Bool
  fpu : ρ
  current : Nat
  lastTaskUsedMath : Option Nat
  task : Nat → Option (Task ρ)
  own : Nat → ρ
  seen : List (ρ × ρ)

inductive Move (ρ : Type) where
  /-- an instruction of the current task; it traps if TS is set, and is tried again later -/
  | instruction (f : ρ → ρ)
  | switchTo (n : Nat)
  /-- `copy_process` up to `copy_mem`, for the page of the new task -/
  | fork (p : Nat)
  | forkEnds (p : Nat) (copied : Bool)
  | exec
  | exit
  | release (p : Nat)

variable {ρ : Type} (fninit : ρ)

namespace State

def setTask (s : State ρ) (p : Nat) (t : Option (Task ρ)) : State ρ :=
  { s with task := update s.task p t }

def modifyTask (s : State ρ) (p : Nat) (f : Task ρ → Task ρ) : State ρ := s.setTask p ((s.task p).map f)

def fnsave (s : State ρ) (p : Nat) : State ρ :=
  { s.modifyTask p (fun t => { t with i387 := s.fpu }) with fpu := fninit }

def frstor (s : State ρ) (p : Nat) : State ρ := { s with fpu := (s.task p).elim s.fpu Task.i387 }

def saveLast (s : State ρ) : State ρ :=
  match s.lastTaskUsedMath with
  | some p => s.fnsave fninit p
  | none => s

def mathStateRestore (s : State ρ) : State ρ :=
  if s.lastTaskUsedMath = some s.current then s
  else
    let s := { s.saveLast fninit with lastTaskUsedMath := some s.current }
    match s.task s.current with
    | none => s
    | some t =>
      if t.usedMath then s.frstor s.current
      else { s.modifyTask s.current (fun t => { t with usedMath := true }) with fpu := fninit }

def switchTo (s : State ρ) (n : Nat) (t : Task ρ) : State ρ :=
  if n = s.current then s
  else
    let s := s.modifyTask s.current fun t => { t with inSwitch := true }
    -- the code behind the jump runs in a task that was there before
    { s with current := n, ts := !(t.inSwitch && s.lastTaskUsedMath = some n) }

def fork (s : State ρ) (p : Nat) (parent : Task ρ) : State ρ :=
  let child : Task ρ := { parent with status := .copying, inSwitch := false }
  let s : State ρ := { s.setTask p (some child) with own := update s.own p (s.own s.current) }
  if s.lastTaskUsedMath = some s.current then ({ s with ts := false }.fnsave fninit p).frstor p else s

def exec (s : State ρ) : State ρ :=
  let s : State ρ := if s.lastTaskUsedMath = some s.current then { s with lastTaskUsedMath := none } else s
  { s.modifyTask s.current (fun t => { t with usedMath := false }) with
    own := update s.own s.current fninit }

def exit (s : State ρ) : State ρ :=
  let s := s.modifyTask s.current fun t => { t with status := .zombie }
  if s.lastTaskUsedMath = some s.current then { s with lastTaskUsedMath := none } else s

def step (s : State ρ) (m : Move ρ) : Option (State ρ) :=
  (s.task s.current).bind fun me =>
    match m with
    | .instruction f =>
      if me.status ≠ .running then none
      else if s.ts then some ({ s with ts := false }.mathStateRestore fninit)
      else some { s with
        fpu := f s.fpu
        own := update s.own s.current (f (s.own s.current))
        seen := (s.fpu, s.own s.current) :: s.seen }
    | .switchTo n => (s.task n).bind fun t => if t.status = .running then some (s.switchTo n t) else none
    | .fork p => if me.status = .running ∧ (s.task p).isNone then some (s.fork fninit p me) else none
    | .forkEnds p copied => (s.task p).bind fun t =>
      if t.status ≠ .copying then none
      else some (s.setTask p (if copied then some { t with status := .running } else none))
    | .exec => if me.status = .running then some (s.exec fninit) else none
    | .exit => if me.status = .running then some s.exit else none
    | .release p => (s.task p).bind fun t =>
      if t.status = .zombie ∧ p ≠ s.current then some (s.setTask p none) else none

def boot : State ρ where
  ts := false
  fpu := fninit
  current := 0
  lastTaskUsedMath := none
  task := fun p => if p = 0 then some ⟨.running, false, fninit, false⟩ else none
  own := fun _ => fninit
  seen := []

def Private (s : State ρ) : Prop := ∀ pair ∈ s.seen, pair.1 = pair.2

def Guarded (s : State ρ) : Move ρ → Prop
  | .instruction _ => s.ts = true ∨ s.lastTaskUsedMath = some s.current
  | _ => True

instance guardedDecidable (s : State ρ) : (m : Move ρ) → Decidable (s.Guarded m)
  | .instruction _ => inferInstanceAs (Decidable (_ ∨ _))
  | .switchTo _ | .fork _ | .forkEnds _ _ | .exec | .exit | .release _ => isTrue trivial

structure Good (s : State ρ) : Prop where
  seen : s.Private
  owner : ∀ p, s.lastTaskUsedMath = some p →
    s.fpu = s.own p ∧ ∃ t, s.task p = some t ∧ t.usedMath = true ∧ t.status = .running
  saved : ∀ p t, s.task p = some t → t.status ≠ .zombie → t.usedMath = true → s.lastTaskUsedMath ≠ some p →
    t.i387 = s.own p
  unused : ∀ p t, s.task p = some t → t.usedMath = false → s.own p = fninit

variable {fninit} {s s' : State ρ}

theorem task_modifyTask_self {p : Nat} {t : Task ρ} (f : Task ρ → Task ρ) (isTask : s.task p = some t) :
    (s.modifyTask p f).task p = some (f t) := by
  rw [modifyTask, setTask, isTask]
  exact update_self ..

theorem task_setTask_of_ne {p q : Nat} (t : Option (Task ρ)) (differ : q ≠ p) : (s.setTask p t).task q = s.task q :=
  update_of_ne differ ..

theorem task_modifyTask_of_ne {p q : Nat} (f : Task ρ → Task ρ) (differ : q ≠ p) :
    (s.modifyTask p f).task q = s.task q :=
  task_setTask_of_ne _ differ

namespace Good

theorem ts (good : s.Good fninit) (ts : Bool) : { s with ts }.Good fninit := ⟨good.seen, good.owner, good.saved, good.unused⟩

variable {p : Nat} {t : Task ρ}

theorem setTask {t' : Task ρ} (good : s.Good fninit) (isTask : s.task p = some t)
    (usedMath : t'.usedMath = t.usedMath) (i387 : t'.i387 = t.i387)
    (status : t.status = .running → s.lastTaskUsedMath = some p → t'.status = .running)
    (zombie : t.status = .zombie → t'.status = .zombie) : (s.setTask p (some t')).Good fninit := by
  have self : (s.setTask p (some t')).task p = some t' := update_self ..
  refine ⟨good.seen, fun q isLast => ?_, fun q u isTask' alive used notLast => ?_, fun q u isTask' notUsed => ?_⟩
  · obtain ⟨same, u, isTask', used, running⟩ := good.owner q isLast
    by_cases now : q = p
    · subst now
      rw [isTask] at isTask'
      cases isTask'
      exact ⟨same, t', self, usedMath.trans used, status running isLast⟩
    · exact ⟨same, u, (task_setTask_of_ne _ now).trans isTask', used, running⟩
  · by_cases now : q = p
    · subst now
      rw [self] at isTask'
      cases isTask'
      exact i387.trans (good.saved q t isTask (fun dead => alive (zombie dead)) (usedMath.symm.trans used) notLast)
    · exact good.saved q u ((task_setTask_of_ne _ now).symm.trans isTask') alive used notLast
  · by_cases now : q = p
    · subst now
      rw [self] at isTask'
      cases isTask'
      exact good.unused q t isTask (usedMath.symm.trans notUsed)
    · exact good.unused q u ((task_setTask_of_ne _ now).symm.trans isTask') notUsed

theorem modifyTask {f : Task ρ → Task ρ} (good : s.Good fninit) (isTask : s.task p = some t)
    (usedMath : (f t).usedMath = t.usedMath) (i387 : (f t).i387 = t.i387)
    (status : t.status = .running → s.lastTaskUsedMath = some p → (f t).status = .running)
    (zombie : t.status = .zombie → (f t).status = .zombie) : (s.modifyTask p f).Good fninit := by
  rw [State.modifyTask, isTask]
  exact good.setTask isTask usedMath i387 status zombie

theorem saveLast (good : s.Good fninit) : { s.saveLast fninit with lastTaskUsedMath := none }.Good fninit := by
  rw [State.saveLast]
  cases isLast : s.lastTaskUsedMath with
  | none =>
    refine ⟨good.seen, by simp, fun q u isTask' alive used' _ => ?_, good.unused⟩
    exact good.saved q u isTask' alive used' (by simp [isLast])
  | some p =>
    obtain ⟨same, t, isTask, used, -⟩ := good.owner p isLast
    have self : (s.fnsave fninit p).task p = some { t with i387 := s.fpu } := task_modifyTask_self _ isTask
    have other {q : Nat} (differ : q ≠ p) : (s.fnsave fninit p).task q = s.task q := task_modifyTask_of_ne _ differ
    refine ⟨good.seen, by simp, fun q u isTask' alive used' _ => ?_, fun q u isTask' notUsed => ?_⟩
    · by_cases now : q = p
      · subst now
        rw [self] at isTask'
        cases isTask'
        exact same
      · have notLast : s.lastTaskUsedMath ≠ some q := by
          rw [isLast]
          exact fun eq => now (Option.some.inj eq).symm
        exact good.saved q u ((other now).symm.trans isTask') alive used' notLast
    · by_cases now : q = p
      · subst now
        rw [self] at isTask'
        cases isTask'
        exact absurd used (notUsed ▸ Bool.false_ne_true)
      · exact good.unused q u ((other now).symm.trans isTask') notUsed

theorem load {p : Nat} {t : Task ρ} (good : s.Good fninit) (noOwner : s.lastTaskUsedMath = none)
    (isTask : s.task p = some t) (used : t.usedMath = true) (running : t.status = .running) :
    { s with lastTaskUsedMath := some p, fpu := t.i387 }.Good fninit := by
  refine ⟨good.seen, fun q isLast => ?_, fun q u isTask' alive used' _ => ?_, good.unused⟩
  · cases isLast
    exact ⟨good.saved p t isTask (by simp [running]) used (by simp [noOwner]), t, isTask, used, running⟩
  · exact good.saved q u isTask' alive used' (by simp [noOwner])

theorem first (good : s.Good fninit) (noOwner : s.lastTaskUsedMath = none) (isTask : s.task p = some t)
    (unused : t.usedMath = false) (running : t.status = .running) :
    { s.modifyTask p (fun t => { t with usedMath := true }) with
      lastTaskUsedMath := some p, fpu := fninit }.Good fninit := by
  have self := task_modifyTask_self (fun t => { t with usedMath := true }) isTask
  refine ⟨good.seen, fun q isLast => ?_, fun q u isTask' alive used' notLast => ?_, fun q u isTask' notUsed => ?_⟩
  · cases isLast
    exact ⟨(good.unused p t isTask unused).symm, _, self, rfl, running⟩
  · have other : q ≠ p := fun eq => notLast (congrArg some eq.symm)
    exact good.saved q u ((task_modifyTask_of_ne _ other).symm.trans isTask') alive used' (by simp [noOwner])
  · by_cases now : q = p
    · subst now
      cases self.symm.trans isTask'
      exact absurd notUsed (by simp)
    · exact good.unused q u ((task_modifyTask_of_ne _ now).symm.trans isTask') notUsed

variable {me : Task ρ}

theorem mathStateRestore (good : s.Good fninit) (isMe : s.task s.current = some me)
    (running : me.status = .running) : (s.mathStateRestore fninit).Good fninit := by
  rw [State.mathStateRestore]
  by_cases owns : s.lastTaskUsedMath = some s.current
  · rw [if_pos owns]
    exact good
  · have saved := good.saveLast
    have current : (s.saveLast fninit).current = s.current := by
      rw [State.saveLast]
      cases s.lastTaskUsedMath <;> rfl
    have isMe' : (s.saveLast fninit).task s.current = some me := by
      rw [State.saveLast]
      cases isLast : s.lastTaskUsedMath with
      | none => exact isMe
      | some p =>
        have other : s.current ≠ p := fun eq => owns (isLast.trans (congrArg some eq.symm))
        exact (task_modifyTask_of_ne _ other).trans isMe
    rw [if_neg owns]
    rw [← current] at isMe' ⊢
    simp only [isMe']
    cases used : me.usedMath with
    | true =>
      rw [if_pos rfl]
      simp only [State.frstor, isMe']
      exact saved.load rfl isMe' used running
    | false =>
      rw [if_neg Bool.false_ne_true]
      exact saved.first rfl isMe' used running

theorem instruction (good : s.Good fninit) (owns : s.lastTaskUsedMath = some s.current) (f : ρ → ρ) :
    { s with
      fpu := f s.fpu
      own := update s.own s.current (f (s.own s.current))
      seen := (s.fpu, s.own s.current) :: s.seen }.Good fninit := by
  obtain ⟨same, t, isTask, used, running⟩ := good.owner s.current owns
  have mine : update s.own s.current (f (s.own s.current)) s.current = f (s.own s.current) := update_self ..
  refine ⟨fun pair isSeen => ?_, fun q isLast => ?_, fun q u isTask' alive used' notLast => ?_,
    fun q u isTask' notUsed => ?_⟩
  · rcases List.mem_cons.mp isSeen with rfl | before
    · exact same
    · exact good.seen pair before
  · have now : s.current = q := Option.some.inj (owns.symm.trans isLast)
    subst now
    exact ⟨(congrArg f same).trans mine.symm, t, isTask, used, running⟩
  · have other : q ≠ s.current := fun eq => notLast (eq ▸ owns)
    exact (good.saved q u isTask' alive used' notLast).trans (update_of_ne other ..).symm
  · have other : q ≠ s.current := by
      rintro rfl
      rw [isTask] at isTask'
      cases isTask'
      exact absurd used (notUsed ▸ Bool.false_ne_true)
    exact (update_of_ne other ..).trans (good.unused q u isTask' notUsed)

theorem fork (good : s.Good fninit) (isMe : s.task s.current = some me) (running : me.status = .running)
    (empty : s.task p = none) : (s.fork fninit p me).Good fninit := by
  have notMe : s.current ≠ p := by
    rintro rfl
    rw [isMe] at empty
    cases empty
  have notLast : s.lastTaskUsedMath ≠ some p := by
    intro isLast
    obtain ⟨-, t, isTask, -⟩ := good.owner p isLast
    rw [empty] at isTask
    cases isTask
  -- the child's image is good where it is its parent's, or the registers that are saved there
  have copied {t : Task ρ} (usedMath : t.usedMath = me.usedMath)
      (image : me.usedMath = true → t.i387 = s.own s.current) (ts : Bool) :
      { s.setTask p (some t) with ts, own := update s.own p (s.own s.current) }.Good fninit := by
    have self : (s.setTask p (some t)).task p = some t := update_self ..
    have own : update s.own p (s.own s.current) p = s.own s.current := update_self ..
    refine ⟨good.seen, fun q isLast => ?_, fun q u isTask' alive used' notLast => ?_, fun q u isTask' notUsed => ?_⟩
    · have other : q ≠ p := fun eq => notLast (eq ▸ isLast)
      obtain ⟨same, u, isTask', used, running⟩ := good.owner q isLast
      exact ⟨same.trans (update_of_ne other ..).symm, u, (task_setTask_of_ne _ other).trans isTask', used, running⟩
    · by_cases now : q = p
      · subst now
        cases self.symm.trans isTask'
        exact (image (usedMath.symm.trans used')).trans own.symm
      · have same := good.saved q u ((task_setTask_of_ne _ now).symm.trans isTask') alive used' notLast
        exact same.trans (update_of_ne now ..).symm
    · by_cases now : q = p
      · subst now
        cases self.symm.trans isTask'
        exact own.trans (good.unused s.current me isMe (usedMath.symm.trans notUsed))
      · exact (update_of_ne now ..).trans (good.unused q u ((task_setTask_of_ne _ now).symm.trans isTask') notUsed)
  rw [State.fork]
  by_cases owns : s.lastTaskUsedMath = some s.current
  · obtain ⟨same, -⟩ := good.owner s.current owns
    let child : Task ρ := { me with status := .copying, i387 := s.fpu, inSwitch := false }
    have saved : (({ s.setTask p (some { me with status := .copying, inSwitch := false }) with
        ts := false, own := update s.own p (s.own s.current) }).fnsave fninit p).frstor p =
        { s.setTask p (some child) with ts := false, own := update s.own p (s.own s.current) } := by
      simp [State.frstor, State.fnsave, State.modifyTask, State.setTask, child]
    have done := copied (t := child) rfl (fun _ => same) false
    rw [← saved] at done
    exact (if_pos owns).symm ▸ done
  · have done := copied (t := { me with status := .copying, inSwitch := false }) rfl
      (fun used => good.saved s.current me isMe (by simp [running]) used owns) s.ts
    exact (if_neg owns).symm ▸ done

/-- The current task changes, and the coprocessor is not its own any more. -/
theorem givenUp {t : State ρ} {mine : Task ρ} (good : s.Good fninit) (seen : t.seen = s.seen) (fpu : t.fpu = s.fpu)
    (last : t.lastTaskUsedMath = if s.lastTaskUsedMath = some s.current then none else s.lastTaskUsedMath)
    (self : t.task s.current = some mine) (other : ∀ q ≠ s.current, t.task q = s.task q)
    (own : ∀ q ≠ s.current, t.own q = s.own q) (idle : mine.status ≠ .zombie → mine.usedMath = false)
    (fresh : mine.usedMath = false → t.own s.current = fninit) : t.Good fninit := by
  have before (q : Nat) : t.lastTaskUsedMath = some q ↔ q ≠ s.current ∧ s.lastTaskUsedMath = some q := by
    rw [last]
    split
    next owns => simp [owns, eq_comm]
    next not => exact ⟨fun isLast => ⟨fun same => not (same ▸ isLast), isLast⟩, And.right⟩
  refine ⟨?_, fun q isLast => ?_, fun q u isTask alive used notLast => ?_, fun q u isTask notUsed => ?_⟩
  · rw [Private, seen]
    exact good.seen
  · obtain ⟨differ, isLast⟩ := (before q).mp isLast
    rw [fpu, own q differ, other q differ]
    exact good.owner q isLast
  · have differ : q ≠ s.current := by
      rintro rfl
      cases self.symm.trans isTask
      exact absurd used (by simp [idle alive])
    rw [own q differ]
    exact good.saved q u (other q differ ▸ isTask) alive used fun was => notLast ((before q).mpr ⟨differ, was⟩)
  · by_cases now : q = s.current
    · subst now
      cases self.symm.trans isTask
      exact fresh notUsed
    · rw [own q now]
      exact good.unused q u (other q now ▸ isTask) notUsed

theorem exec (good : s.Good fninit) (isMe : s.task s.current = some me) : (s.exec fninit).Good fninit := by
  rw [State.exec]
  split
  · next owns =>
    exact good.givenUp rfl rfl (if_pos owns).symm (task_modifyTask_self _ isMe) (fun _ => task_modifyTask_of_ne _)
      (fun _ differ => update_of_ne differ ..) (fun _ => rfl) fun _ => update_self ..
  · next not =>
    exact good.givenUp rfl rfl (if_neg not).symm (task_modifyTask_self _ isMe) (fun _ => task_modifyTask_of_ne _)
      (fun _ differ => update_of_ne differ ..) (fun _ => rfl) fun _ => update_self ..

theorem exit (good : s.Good fninit) (isMe : s.task s.current = some me) : s.exit.Good fninit := by
  have fresh (unused : me.usedMath = false) : s.own s.current = fninit := good.unused s.current me isMe unused
  rw [State.exit]
  split
  · next owns =>
    exact good.givenUp rfl rfl (if_pos owns).symm (task_modifyTask_self _ isMe) (fun _ => task_modifyTask_of_ne _)
      (fun _ _ => rfl) (fun alive => absurd rfl alive) fresh
  · next not =>
    exact good.givenUp rfl rfl (if_neg not).symm (task_modifyTask_self _ isMe) (fun _ => task_modifyTask_of_ne _)
      (fun _ _ => rfl) (fun alive => absurd rfl alive) fresh

theorem free {p : Nat} {t : Task ρ} (good : s.Good fninit) (isTask : s.task p = some t)
    (notRunning : t.status ≠ .running) : (s.setTask p none).Good fninit := by
  have self : (s.setTask p none).task p = none := update_self ..
  have exists' {q : Nat} {u : Task ρ} (isTask' : (s.setTask p none).task q = some u) : s.task q = some u := by
    by_cases now : q = p
    · subst now
      cases self.symm.trans isTask'
    · exact (task_setTask_of_ne _ now).symm.trans isTask'
  refine ⟨good.seen, fun q isLast => ?_, fun q u isTask' => good.saved q u (exists' isTask'),
    fun q u isTask' => good.unused q u (exists' isTask')⟩
  obtain ⟨same, u, isTask', used, running⟩ := good.owner q isLast
  have other : q ≠ p := by
    rintro rfl
    rw [isTask] at isTask'
    cases isTask'
    exact notRunning running
  exact ⟨same, u, (task_setTask_of_ne _ other).trans isTask', used, running⟩

theorem step {m : Move ρ} (good : s.Good fninit) (guarded : s.Guarded m) (moved : s.step fninit m = some s') :
    s'.Good fninit := by
  obtain ⟨me, isMe, moved⟩ := bind_eq_some_iff.mp moved
  cases m with
  | instruction f =>
    simp only [ne_eq, ite_not, ite_none_right_eq_some] at moved
    obtain ⟨running, moved⟩ := moved
    cases ts : s.ts with
    | true =>
      simp only [ts, if_true, Option.some.injEq] at moved
      exact moved ▸ (good.ts false).mathStateRestore isMe running
    | false =>
      have owns : s.lastTaskUsedMath = some s.current := guarded.resolve_left (by simp [ts])
      simp only [ts, Bool.false_eq_true, if_false, Option.some.injEq] at moved
      exact moved ▸ (good.instruction owns f).ts false
  | switchTo n =>
    obtain ⟨t, -, moved⟩ := bind_eq_some_iff.mp moved
    simp only [ite_none_right_eq_some, Option.some.injEq] at moved
    obtain ⟨-, rfl⟩ := moved
    rw [State.switchTo]
    by_cases same : n = s.current
    · rw [if_pos same]
      exact good
    · rw [if_neg same]
      have marked := good.modifyTask (f := fun t => { t with inSwitch := true }) isMe rfl rfl (fun r _ => r) id
      exact ⟨marked.seen, marked.owner, marked.saved, marked.unused⟩
  | fork p =>
    simp only [ite_none_right_eq_some, Option.some.injEq, Option.isNone_iff_eq_none] at moved
    obtain ⟨⟨running, empty⟩, rfl⟩ := moved
    exact good.fork isMe running empty
  | forkEnds p copied =>
    obtain ⟨t, isTask, moved⟩ := bind_eq_some_iff.mp moved
    simp only [ne_eq, ite_not, ite_none_right_eq_some, Option.some.injEq] at moved
    obtain ⟨copying, rfl⟩ := moved
    cases copied with
    | true => exact good.setTask isTask rfl rfl (fun _ _ => rfl) fun dead => by simp [copying] at dead
    | false => exact good.free isTask (by simp [copying])
  | exec =>
    simp only [ite_none_right_eq_some, Option.some.injEq] at moved
    obtain ⟨-, rfl⟩ := moved
    exact good.exec isMe
  | exit =>
    simp only [ite_none_right_eq_some, Option.some.injEq] at moved
    obtain ⟨-, rfl⟩ := moved
    exact good.exit isMe
  | release p =>
    obtain ⟨t, isTask, moved⟩ := bind_eq_some_iff.mp moved
    simp only [ite_none_right_eq_some, Option.some.injEq] at moved
    obtain ⟨⟨dead, -⟩, rfl⟩ := moved
    exact good.free isTask (by simp [dead])

end Good

theorem boot_good : (boot fninit).Good fninit := by
  refine ⟨fun _ isSeen => absurd isSeen (by simp [boot]), fun _ isLast => absurd isLast (by simp [boot]),
    fun p t isTask => ?_, fun _ _ _ _ => rfl⟩
  simp only [boot, ite_none_right_eq_some, Option.some.injEq] at isTask
  obtain ⟨-, rfl⟩ := isTask
  exact fun _ used => absurd used (by simp)

open Transition

theorem private_of_guarded (reached : Run (step fninit) Guarded (boot fninit) s) : s.Private :=
  (reached.invariant (fun good guarded moved => good.step guarded moved) boot_good).seen

def takingTurns : List (Move Nat) :=
  [.fork 1, .forkEnds 1 true, .switchTo 1, .instruction id, .instruction fun _ => 1, .switchTo 0, .instruction id,
    .instruction fun _ => 2, .switchTo 1, .instruction id, .instruction id]

theorem own_value_read_again :
    ∃ s : State Nat, Run (step 0) Guarded (boot 0) s ∧ s.seen.head? = some (1, 1) ∧ s.Private := by
  obtain ⟨s, reached, read⟩ := exists_of_runIf (step 0) (fun s m => decide (s.Guarded m)) (boot 0) takingTurns
    (fun s => s.seen.head? = some (1, 1)) (by decide)
  have guarded := reached.weaken fun _ _ => of_decide_eq_true
  exact ⟨s, guarded, read, private_of_guarded guarded⟩

def execWhileOwner : List (Move Nat) :=
  [.fork 1, .forkEnds 1 true, .switchTo 1, .instruction id, .instruction fun _ => 1, .exec, .instruction id]

theorem old_registers_seen : ∃ s, run (step 0) (boot 0) execWhileOwner = some s ∧ ¬s.Private := by
  refine ⟨_, rfl, fun isPrivate => ?_⟩
  exact absurd (isPrivate (1, 0) (by decide)) (by decide)

end State

end Linux012.Kernel.Coprocessor

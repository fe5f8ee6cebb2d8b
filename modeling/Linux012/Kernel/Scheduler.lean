import Linux012.Kernel.Kill
import Linux012.Lib.Selection
import Linux012.Lib.Updates

/-! `schedule`, `do_timer` and `sys_nice` of `kernel/sched.c`, with what `fork` and a task that
sleeps or is woken do to the fields that they use. -/

set_option autoImplicit false

namespace Linux012.Kernel.Scheduler

open Kill (slots mem_slots)
open Selection Transition Updates Function
open Option (bind_eq_some_iff map_eq_some_iff)

inductive TaskState where
  | running
  | interruptible
  | uninterruptible
  | zombie
  | stopped
deriving DecidableEq

structure Task where
  state : TaskState
  counter : Word
  priority : Word
  signal : Word
  blocked : Word
  timeout : Word
  alarm : Word

def SIGALRM : Nat := 14

def BLOCKABLE : Word := ~~~(bit SIGKILL ||| bit SIGSTOP)

structure State where
  task : Fin NR_TASKS → Option Task
  current : Fin NR_TASKS
  jiffies : Word

namespace Task

def expire (t : Task) (jiffies : Word) : Task :=
  if t.timeout ≠ 0 ∧ t.timeout < jiffies then
    { t with timeout := 0, state := if t.state = .interruptible then .running else t.state }
  else t

def ring (t : Task) (jiffies : Word) : Task :=
  if t.alarm ≠ 0 ∧ t.alarm < jiffies then { t with signal := t.signal ||| bit SIGALRM, alarm := 0 } else t

def interrupt (t : Task) : Task :=
  if t.signal &&& ~~~(BLOCKABLE &&& t.blocked) ≠ 0 ∧ t.state = .interruptible then { t with state := .running }
  else t

def awaken (t : Task) (jiffies : Word) : Task := ((t.expire jiffies).ring jiffies).interrupt

def recompute (t : Task) : Task := { t with counter := t.counter.sshiftRight 1 + t.priority }

def nice (t : Task) (increment : Word) : Task :=
  if 0 < (t.priority - increment).toInt then { t with priority := t.priority - increment } else t

end Task

inductive Move where
  /-- `do_timer`, with `cpl` -/
  | tick (user : Bool)
  | schedule
  | nice (increment : Word)
  /-- `copy_process`, until the child may be woken -/
  | fork (nr : Fin NR_TASKS)
  /-- the current task sets its state and calls `schedule` -/
  | sleep (state : TaskState)
  | wake (i : Fin NR_TASKS)
  /-- the end of a round of `truncate` -/
  | yield
  /-- whatever changes what the first loop of `schedule` looks at -/
  | post (i : Fin NR_TASKS) (signal blocked timeout alarm : Word)
  | release (i : Fin NR_TASKS)

namespace State

def mapTasks (s : State) (f : Task → Task) : State :=
  { s with task := fun i => if i.val = 0 then s.task i else (s.task i).map f }

def setTask (s : State) (i : Fin NR_TASKS) (t : Task) : State :=
  { s with task := update s.task i (some t) }

def ready (s : State) (i : Fin NR_TASKS) : Option Int :=
  (s.task i).bind fun t => if t.state = .running then some t.counter.toInt else none

def switchTo (s : State) (next : Fin NR_TASKS) : State := { s with current := next }

def pick (s : State) : Int × Fin NR_TASKS := best s.ready slots (-1) ⟨0, NR_TASKS_pos⟩

/-- The loop of `schedule`, unless it takes more than `rounds` rounds. -/
def scheduler : (rounds : Nat) → State → Option State
  | 0, _ => none
  | rounds + 1, s =>
    if s.pick.1 ≠ 0 then some (s.switchTo s.pick.2) else scheduler rounds (s.mapTasks Task.recompute)

def awaken (s : State) : State := s.mapTasks fun t => t.awaken s.jiffies

def schedule (rounds : Nat) (s : State) : Option State := scheduler rounds s.awaken

/-- What a move does up to its call of `schedule`, and whether it comes to one. -/
def prepare (s : State) : Move → Option (State × Bool)
  | .tick user =>
    let s := { s with jiffies := s.jiffies + 1 }
    (s.task s.current).map fun t =>
      if 0 < (t.counter - 1).toInt then (s.setTask s.current { t with counter := t.counter - 1 }, false)
      else (s.setTask s.current { t with counter := 0 }, user)
  | .schedule => some (s, true)
  | .nice increment => (s.task s.current).map fun t => (s.setTask s.current (t.nice increment), false)
  | .fork nr =>
    (s.task s.current).bind fun t =>
      if s.task nr = none then
        some (s.setTask nr { t with state := .uninterruptible, counter := t.priority, signal := 0, alarm := 0 }, false)
      else none
  | .sleep state => (s.task s.current).map fun t => (s.setTask s.current { t with state := state }, true)
  | .wake i => (s.task i).map fun t => (s.setTask i { t with state := .running }, false)
  | .yield => (s.task s.current).map fun t => (s.setTask s.current { t with counter := 0 }, true)
  | .post i signal blocked timeout alarm =>
    (s.task i).map fun t =>
      (s.setTask i { t with signal := signal, blocked := blocked, timeout := timeout, alarm := alarm }, false)
  | .release i =>
    if i.val ≠ 0 ∧ i ≠ s.current then some ({ s with task := update s.task i none }, false) else none

def step (rounds : Nat) (s : State) (m : Move) : Option State :=
  (s.prepare m).bind fun (s, calls) => if calls then s.schedule rounds else some s

def init : State where
  task := fun i =>
    if i.val = 0 then
      some { state := .running, counter := 15, priority := 15, signal := 0, blocked := 0, timeout := 0, alarm := 0 }
    else none
  current := ⟨0, NR_TASKS_pos⟩
  jiffies := 0

/-! ## What `schedule` is for -/

def Sound (s : State) : Prop := ∀ i t, s.task i = some t → 0 ≤ t.counter.toInt ∧ 0 < t.priority.toInt

def Runs (s : State) (i : Fin NR_TASKS) (t : Task) : Prop := i.val ≠ 0 ∧ s.task i = some t ∧ t.state = .running

/-- `task[0]` has been picked for want of others, or the picked task has the largest counter. -/
structure Fair (s : State) : Prop where
  idle : s.current.val = 0 → ∀ i t, ¬s.Runs i t
  picked : s.current.val ≠ 0 → ∃ t, s.Runs s.current t ∧ ∀ i u, s.Runs i u → u.counter.toInt ≤ t.counter.toInt

def Works (s : State) (m : Move) : Prop :=
  ∀ t, s.prepare m = some (t, true) → ∃ s', Fair s' ∧ ∀ rounds, 2 ≤ rounds → t.schedule rounds = some s'

def Spent (s : State) : Prop := (∃ i t, s.Runs i t) ∧ ∀ i t, s.Runs i t → t.counter.toInt = 0

def Fits (s : State) (m : Move) : Prop :=
  ∀ t, s.prepare m = some (t, true) → t.awaken.Spent →
    ∀ i u, i.val ≠ 0 → t.awaken.task i = some u → u.counter.toInt / 2 + u.priority.toInt < 2 ^ 31

/-! ## One round -/

variable {s s' : State} {i : Fin NR_TASKS} {t u : Task}

theorem ready_eq_some {c : Int} :
    s.ready i = some c ↔ ∃ t, s.task i = some t ∧ t.state = .running ∧ t.counter.toInt = c := by
  rw [ready, bind_eq_some_iff]
  simp only [Option.ite_none_right_eq_some, Option.some.injEq]

theorem Runs.ready (runs : s.Runs i t) : s.ready i = some t.counter.toInt :=
  ready_eq_some.mpr ⟨t, runs.2.1, runs.2.2, rfl⟩

theorem pick_cases (sound : s.Sound) :
    (s.pick = (-1, ⟨0, NR_TASKS_pos⟩) ∧ ∀ i t, ¬s.Runs i t) ∨
      ∃ t, s.Runs s.pick.2 t ∧ s.pick.1 = t.counter.toInt ∧ ∀ i u, s.Runs i u → u.counter.toInt ≤ t.counter.toInt := by
  have most {i : Fin NR_TASKS} {u : Task} (runs : s.Runs i u) : u.counter.toInt ≤ s.pick.1 :=
    value_le_best (mem_slots.mpr runs.1) runs.ready
  rcases best_cases s.ready slots (-1) ⟨0, NR_TASKS_pos⟩ with same | ⟨-, among, found⟩
  · refine .inl ⟨same, fun i t runs => ?_⟩
    have bounded : t.counter.toInt ≤ -1 := by
      have := most runs
      rwa [pick, same] at this
    have := (sound i t runs.2.1).1
    omega
  · obtain ⟨t, here, running, counter⟩ := ready_eq_some.mp found
    refine .inr ⟨t, ⟨mem_slots.mp among, here, running⟩, counter.symm, fun i u runs => ?_⟩
    rw [counter]
    exact most runs

theorem pick_eq_zero_iff (sound : s.Sound) : s.pick.1 = 0 ↔ s.Spent := by
  rcases pick_cases sound with ⟨nothing, idle⟩ | ⟨t, runs, counter, most⟩
  · rw [nothing]
    constructor
    · intro zero
      exact absurd zero (by decide)
    · rintro ⟨⟨i, t, runs⟩, -⟩
      exact absurd runs (idle i t)
  · rw [counter]
    constructor
    · intro zero
      refine ⟨⟨_, t, runs⟩, fun i u other => ?_⟩
      have := (sound i u other.2.1).1
      have := most i u other
      omega
    · intro spent
      exact spent.2 _ t runs

theorem fair_of_pick (sound : s.Sound) : (s.switchTo s.pick.2).Fair := by
  rcases pick_cases sound with ⟨nothing, idle⟩ | ⟨t, runs, counter, most⟩
  · refine ⟨fun _ => idle, fun nonzero => ?_⟩
    rw [nothing] at nonzero
    exact absurd rfl nonzero
  · exact ⟨fun zero => absurd zero runs.1, fun _ => ⟨t, runs, most⟩⟩

/-! ## Recomputing -/

theorem toInt_recompute (t : Task) :
    t.recompute.counter.toInt = (t.counter.toInt / 2 + t.priority.toInt).bmod (2 ^ 32) := by
  rw [Task.recompute, BitVec.toInt_add, BitVec.toInt_sshiftRight, Int.shiftRight_eq_div_pow]
  rfl

theorem recompute_of_fits (counter : 0 ≤ t.counter.toInt) (priority : 0 < t.priority.toInt)
    (fits : t.counter.toInt / 2 + t.priority.toInt < 2 ^ 31) :
    t.recompute.counter.toInt = t.counter.toInt / 2 + t.priority.toInt := by
  rw [toInt_recompute, Int.bmod_def]
  split <;> omega

theorem recompute_of_overflow (large : ¬t.counter.toInt / 2 + t.priority.toInt < 2 ^ 31) :
    t.recompute.counter.toInt < 0 := by
  have := t.counter.toInt_lt
  have := t.priority.toInt_lt
  rw [toInt_recompute, Int.bmod_def]
  split <;> omega

variable {f : Task → Task}

theorem mapTasks_task (nonzero : i.val ≠ 0) : (s.mapTasks f).task i = (s.task i).map f :=
  if_neg nonzero

theorem Sound.mapTasks (sound : s.Sound)
    (kept : ∀ i t, i.val ≠ 0 → s.task i = some t → 0 ≤ (f t).counter.toInt ∧ 0 < (f t).priority.toInt) :
    (s.mapTasks f).Sound := by
  intro i t here
  by_cases zero : i.val = 0
  · exact sound i t ((if_pos zero).symm.trans here)
  · rw [mapTasks_task zero, map_eq_some_iff] at here
    obtain ⟨u, was, rfl⟩ := here
    exact kept i u zero was

theorem awaken_fields (t : Task) (jiffies : Word) :
    (t.awaken jiffies).counter = t.counter ∧ (t.awaken jiffies).priority = t.priority := by
  have first : (t.expire jiffies).counter = t.counter ∧ (t.expire jiffies).priority = t.priority := by
    rw [Task.expire]
    split <;> exact ⟨rfl, rfl⟩
  have second : ((t.expire jiffies).ring jiffies).counter = t.counter ∧
      ((t.expire jiffies).ring jiffies).priority = t.priority := by
    rw [Task.ring]
    split <;> exact first
  rw [Task.awaken, Task.interrupt]
  split <;> exact second

theorem Sound.awaken (sound : s.Sound) : s.awaken.Sound := by
  refine sound.mapTasks fun i t _ here => ?_
  obtain ⟨counter, priority⟩ := awaken_fields t s.jiffies
  rw [counter, priority]
  exact sound i t here

theorem Sound.recompute (sound : s.Sound)
    (fits : ∀ i u, i.val ≠ 0 → s.task i = some u → u.counter.toInt / 2 + u.priority.toInt < 2 ^ 31) :
    (s.mapTasks Task.recompute).Sound := by
  refine sound.mapTasks fun i u nonzero here => ?_
  obtain ⟨counter, priority⟩ := sound i u here
  refine ⟨?_, priority⟩
  rw [recompute_of_fits counter priority (fits i u nonzero here)]
  omega

theorem pick_recompute (sound : s.Sound) (spent : s.Spent) : (s.mapTasks Task.recompute).pick.1 ≠ 0 := by
  obtain ⟨⟨i, t, runs⟩, zero⟩ := spent
  have priority := (sound i t runs.2.1).2
  have again : (s.mapTasks Task.recompute).Runs i t.recompute := by
    refine ⟨runs.1, ?_, runs.2.2⟩
    rw [mapTasks_task runs.1, runs.2.1]
    rfl
  have counter : t.recompute.counter.toInt = t.priority.toInt := by
    have used := zero i t runs
    have := t.priority.toInt_lt
    rw [recompute_of_fits (by omega) priority (by omega), used]
    omega
  have least : t.recompute.counter.toInt ≤ (s.mapTasks Task.recompute).pick.1 :=
    value_le_best (mem_slots.mpr runs.1) again.ready
  omega

theorem scheduler_of_not_spent (sound : s.Sound) (some_left : ¬s.Spent) (rounds : Nat) :
    scheduler (rounds + 1) s = some (s.switchTo s.pick.2) :=
  if_pos fun zero => some_left ((pick_eq_zero_iff sound).mp zero)

theorem scheduler_of_spent (sound : s.Sound) (spent : s.Spent) (rounds : Nat) :
    scheduler (rounds + 2) s = some ((s.mapTasks Task.recompute).switchTo (s.mapTasks Task.recompute).pick.2) := by
  have zero : s.pick.1 = 0 := (pick_eq_zero_iff sound).mpr spent
  rw [scheduler, if_neg (not_not.mpr zero), scheduler, if_pos (pick_recompute sound spent)]

theorem scheduler_fair (sound : s.Sound)
    (fits : s.Spent → ∀ i u, i.val ≠ 0 → s.task i = some u → u.counter.toInt / 2 + u.priority.toInt < 2 ^ 31) :
    ∃ s', Sound s' ∧ Fair s' ∧ ∀ rounds, 2 ≤ rounds → scheduler rounds s = some s' := by
  by_cases spent : s.Spent
  · have again := sound.recompute (fits spent)
    refine ⟨(s.mapTasks Task.recompute).switchTo (s.mapTasks Task.recompute).pick.2, again, fair_of_pick again,
      fun rounds enough => ?_⟩
    obtain ⟨more, rfl⟩ := Nat.exists_eq_add_of_le' enough
    exact scheduler_of_spent sound spent more
  · refine ⟨s.switchTo s.pick.2, sound, fair_of_pick sound, fun rounds enough => ?_⟩
    obtain ⟨more, rfl⟩ := Nat.exists_eq_add_of_le' enough
    exact scheduler_of_not_spent sound spent (more + 1)

variable {rounds : Nat}

theorem scheduler_overflows (sound : s.Sound) (spent : s.Spent) (nonzero : i.val ≠ 0) (here : s.task i = some t)
    (large : ¬t.counter.toInt / 2 + t.priority.toInt < 2 ^ 31) (enough : 2 ≤ rounds)
    (scheduled : scheduler rounds s = some s') : ¬s'.Sound := by
  obtain ⟨more, rfl⟩ := Nat.exists_eq_add_of_le' enough
  rw [scheduler_of_spent sound spent more] at scheduled
  cases scheduled
  intro still
  have after : (s.mapTasks Task.recompute).task i = some t.recompute := by
    rw [mapTasks_task nonzero, here]
    rfl
  exact absurd (still i _ after).1 (not_le.mpr (recompute_of_overflow large))

/-! ## Moves -/

theorem setTask_task {j : Fin NR_TASKS} (here : (s.setTask i t).task j = some u) : u = t ∨ s.task j = some u :=
  (of_update_some here).imp (fun new => new.2.symm) And.right

structure Derived (m : Move) (t u : Task) : Prop where
  counter : u.counter = t.counter ∨ 0 < u.counter.toInt ∨ u.counter = 0 ∨ u.counter = t.priority
  priority : u.priority = t.priority ∨
    ∃ increment, m = .nice increment ∧ u.priority = t.priority - increment ∧ 0 < u.priority.toInt

variable {m : Move}

theorem Derived.kept (counter : u.counter = t.counter) (priority : u.priority = t.priority) : Derived m t u :=
  ⟨.inl counter, .inl priority⟩

theorem derived_of_setTask {j k : Fin NR_TASKS} {v : Task} (here : (s.setTask i t).task j = some u)
    (was : s.task k = some v) (derived : Derived m v t) : ∃ j t, s.task j = some t ∧ Derived m t u := by
  rcases setTask_task here with rfl | same
  · exact ⟨k, v, was, derived⟩
  · exact ⟨j, u, same, .kept rfl rfl⟩

variable {calls : Bool}

theorem prepare_task (prepared : s.prepare m = some (s', calls)) (here : s'.task i = some u) :
    ∃ j t, s.task j = some t ∧ Derived m t u := by
  cases m with
  | tick user =>
    obtain ⟨t, was, done⟩ := map_eq_some_iff.mp prepared
    split at done
    · next left =>
      cases done
      exact derived_of_setTask here was ⟨.inr (.inl left), .inl rfl⟩
    · cases done
      exact derived_of_setTask here was ⟨.inr (.inr (.inl rfl)), .inl rfl⟩
  | schedule =>
    cases prepared
    exact ⟨i, u, here, .kept rfl rfl⟩
  | nice increment =>
    obtain ⟨t, was, done⟩ := map_eq_some_iff.mp prepared
    cases done
    refine derived_of_setTask here was ?_
    rw [Task.nice]
    split
    · next positive => exact ⟨.inl rfl, .inr ⟨increment, rfl, rfl, positive⟩⟩
    · exact .kept rfl rfl
  | fork nr =>
    obtain ⟨t, was, done⟩ := bind_eq_some_iff.mp prepared
    split at done
    · cases done
      exact derived_of_setTask here was ⟨.inr (.inr (.inr rfl)), .inl rfl⟩
    · cases done
  | sleep state | wake i | post i signal blocked timeout alarm =>
    obtain ⟨t, was, done⟩ := map_eq_some_iff.mp prepared
    cases done
    exact derived_of_setTask here was (.kept rfl rfl)
  | yield =>
    obtain ⟨t, was, done⟩ := map_eq_some_iff.mp prepared
    cases done
    exact derived_of_setTask here was ⟨.inr (.inr (.inl rfl)), .inl rfl⟩
  | release k =>
    rw [State.prepare] at prepared
    split at prepared
    · cases prepared
      exact ⟨i, u, (of_update_none here).2, .kept rfl rfl⟩
    · cases prepared

theorem Sound.prepare (sound : s.Sound) (prepared : s.prepare m = some (s', calls)) : s'.Sound := by
  intro i u here
  obtain ⟨j, t, was, derived⟩ := prepare_task prepared here
  obtain ⟨counter, priority⟩ := sound j t was
  constructor
  · rcases derived.counter with same | left | used | given
    · rw [same]
      exact counter
    · exact left.le
    · rw [used]
      exact le_rfl
    · rw [given]
      exact priority.le
  · rcases derived.priority with same | ⟨-, -, -, positive⟩
    · rw [same]
      exact priority
    · exact positive

theorem Fits.works (sound : s.Sound) (fits : s.Fits m) : s.Works m := by
  intro t prepared
  obtain ⟨s', -, fair, same⟩ := scheduler_fair (sound.prepare prepared).awaken (fits t prepared)
  exact ⟨s', fair, same⟩

theorem Fits.sound (enough : 2 ≤ rounds) (sound : s.Sound) (fits : s.Fits m) (moved : s.step rounds m = some s') :
    s'.Sound := by
  obtain ⟨⟨t, calls⟩, prepared, done⟩ := bind_eq_some_iff.mp moved
  cases calls with
  | false =>
    cases done
    exact sound.prepare prepared
  | true =>
    obtain ⟨t', kept, -, same⟩ := scheduler_fair (sound.prepare prepared).awaken (fits t prepared)
    have ends : schedule rounds t = some s' := done
    rw [schedule, same rounds enough, Option.some.injEq] at ends
    exact ends ▸ kept

theorem not_sound_of_not_fits (enough : 2 ≤ rounds) (sound : s.Sound) (large : ¬s.Fits m)
    (moved : s.step rounds m = some s') : ¬s'.Sound := by
  simp only [Fits, not_forall] at large
  obtain ⟨t, prepared, spent, i, u, nonzero, here, large⟩ := large
  have ends : schedule rounds t = some s' := by
    rw [step, prepared] at moved
    exact moved
  exact scheduler_overflows (sound.prepare prepared).awaken spent nonzero here large enough ends

/-- From sound counters, all counters stay sound and every call of `schedule` is fair just as
long as no recomputation overflows. -/
theorem schedules_fairly_iff {start : State} (sound : start.Sound) {rounds : Nat} (enough : 2 ≤ rounds)
    (moves : List Move) :
    Always (step rounds) Sound start moves ∧ Throughout (step rounds) Works start moves ↔
      Throughout (step rounds) Fits start moves := by
  have exactly : Always (step rounds) Sound start moves ↔ Throughout (step rounds) Fits start moves :=
    always_iff_of_good id (fun sound fits moved => fits.sound enough sound moved)
      (fun sound large moved => not_sound_of_not_fits enough sound large moved) sound moves
  constructor
  · intro ⟨always, _⟩
    exact exactly.mp always
  · intro throughout
    refine ⟨exactly.mpr throughout, ?_⟩
    exact throughout.imp Sound (fun sound fits moved => fits.sound enough sound moved)
      (fun sound fits => fits.works sound) sound

/-! ## Priorities that do no harm -/

def Modest (s : State) : Prop := ∀ i t, s.task i = some t → t.priority.toInt ≤ 2 ^ 30

def Lowers : Move → Prop
  | .nice increment => 0 ≤ increment.toInt
  | _ => True

theorem Modest.prepare (sound : s.Sound) (modest : s.Modest) (lowers : Lowers m)
    (prepared : s.prepare m = some (s', calls)) : s'.Modest := by
  intro i u here
  obtain ⟨j, t, was, derived⟩ := prepare_task prepared here
  have before := modest j t was
  rcases derived.priority with same | ⟨increment, rfl, less, -⟩
  · rw [same]
    exact before
  · have nonneg : 0 ≤ increment.toInt := lowers
    have positive := (sound j t was).2
    have := increment.toInt_lt
    have := t.priority.toInt_lt
    rw [less, BitVec.toInt_sub, Int.bmod_def]
    split <;> omega

theorem Modest.mapTasks (modest : s.Modest) (same : ∀ t, (f t).priority = t.priority) :
    (s.mapTasks f).Modest := by
  intro i t here
  by_cases zero : i.val = 0
  · exact modest i t ((if_pos zero).symm.trans here)
  · rw [mapTasks_task zero, map_eq_some_iff] at here
    obtain ⟨u, was, rfl⟩ := here
    rw [same]
    exact modest i u was

theorem Modest.awaken (modest : s.Modest) : s.awaken.Modest :=
  modest.mapTasks fun t => (awaken_fields t s.jiffies).2

theorem Modest.fits (sound : s.Sound) (modest : s.Modest) (lowers : Lowers m) : s.Fits m := by
  intro t prepared _ i u _ here
  have priority := (modest.prepare sound lowers prepared).awaken i u here
  have := u.counter.toInt_lt
  omega

theorem Modest.scheduler (modest : s.Modest) (scheduled : scheduler rounds s = some s') : s'.Modest := by
  induction rounds generalizing s with
  | zero => cases scheduled
  | succ rounds ih =>
    rw [State.scheduler] at scheduled
    split at scheduled
    · cases scheduled
      exact modest
    · exact ih (modest.mapTasks (f := Task.recompute) fun _ => rfl) scheduled

theorem Modest.step {m : Move} {rounds : Nat} (sound : s.Sound) (modest : s.Modest) (lowers : Lowers m)
    (moved : s.step rounds m = some s') : s'.Modest := by
  obtain ⟨⟨t, calls⟩, prepared, done⟩ := bind_eq_some_iff.mp moved
  have after := modest.prepare sound lowers prepared
  cases calls with
  | false =>
    cases done
    exact after
  | true => exact after.awaken.scheduler done

theorem fits_of_lowers {start : State} (sound : start.Sound) (modest : start.Modest) (enough : 2 ≤ rounds)
    {moves : List Move} (lowers : ∀ m ∈ moves, Lowers m) : Throughout (step rounds) Fits start moves :=
  (throughout_of_forall lowers start).imp (fun s => s.Sound ∧ s.Modest)
    (fun ⟨sound, modest⟩ lowers moved =>
      ⟨(modest.fits sound lowers).sound enough sound moved, modest.step sound lowers moved⟩)
    (fun ⟨sound, modest⟩ lowers => modest.fits sound lowers) ⟨sound, modest⟩

theorem sound_init : init.Sound ∧ init.Modest := by
  constructor <;>
  · intro i t here
    simp only [init, Option.ite_none_right_eq_some, Option.some.injEq] at here
    obtain ⟨-, rfl⟩ := here
    decide

end State

def slot (n : Nat) : Fin NR_TASKS := ⟨n % NR_TASKS, Nat.mod_lt _ NR_TASKS_pos⟩

def twoTasks : List Move :=
  [.fork (slot 1), .wake (slot 1), .schedule, .fork (slot 2), .wake (slot 2), .sleep .interruptible, .nice 5,
    .wake (slot 1), .yield, .yield]

theorem twoTasks_fair :
    Always (State.step 2) State.Sound State.init twoTasks ∧
      Throughout (State.step 2) State.Works State.init twoTasks := by
  have lowers : ∀ m ∈ twoTasks, State.Lowers m := by
    simp only [twoTasks, List.forall_mem_cons]
    simp [State.Lowers]
  exact (State.schedules_fairly_iff State.sound_init.1 le_rfl twoTasks).mpr
    (State.fits_of_lowers State.sound_init.1 State.sound_init.2 le_rfl lowers)

/-- Task 2 raises its priority to the largest `long` and sleeps while task 1 uses up its counter. -/
def raised : List Move :=
  [.fork (slot 1), .wake (slot 1), .schedule, .fork (slot 2), .wake (slot 2), .sleep .interruptible,
    .nice (-(2 ^ 31 - 16)), .wake (slot 1), .sleep .interruptible] ++ List.replicate 15 (.tick true) ++
    [.wake (slot 2), .sleep .interruptible]

theorem raised_idles :
    (∃ s, run (State.step 2) State.init raised = some s ∧ s.current.val = 0 ∧
      (s.task (slot 2)).map (fun t => (t.state, t.counter.toInt)) = some (.running, -(2 ^ 31) + 6)) ∧
      ¬(Always (State.step 2) State.Sound State.init raised ∧
        Throughout (State.step 2) State.Works State.init raised) := by
  obtain ⟨s, ran, idle, waits⟩ := exists_of_run (State.step 2) State.init raised
    (fun s => s.current.val = 0 ∧
      (s.task (slot 2)).map (fun t => (t.state, t.counter.toInt)) = some (.running, -(2 ^ 31) + 6)) (by decide +kernel)
  refine ⟨⟨s, ran, idle, waits⟩, fun ⟨always, _⟩ => ?_⟩
  obtain ⟨t, here, fields⟩ := map_eq_some_iff.mp waits
  have counter := (always.of_run ran (slot 2) t here).1
  rw [(Prod.mk.inj fields).2] at counter
  exact absurd counter (by decide)

end Linux012.Kernel.Scheduler

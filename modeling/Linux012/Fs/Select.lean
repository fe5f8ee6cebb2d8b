import Linux012.ChrDrv.TtyRings
import Linux012.Fs.Pipe

/-! `fs/select.c`: the checks of `do_select`, and its loop with the deadline that `schedule`
watches. -/

set_option autoImplicit false

namespace Linux012.Fs.Select

open ChrDrv (Tty)
open Transition

def NR_OPEN : Nat := 20

/-- `i_zone[0]` is the device number, or `PIPE_HEAD`, and `i_zone[1]` is `PIPE_TAIL`. -/
structure Inode where
  mode : BitVec 16
  pipe : Bool
  zone₀ : Nat
  zone₁ : Nat
  count : Nat

namespace Inode

variable (inode : Inode)

def isChr : Bool := inode.mode &&& 0o170000 = 0o020000
def isFifo : Bool := inode.mode &&& 0o170000 = 0o010000

def pipeSize : Nat := (inode.zone₀ + Pipe.PAGE_SIZE - inode.zone₁) % Pipe.PAGE_SIZE
def pipeEmpty : Bool := inode.zone₀ = inode.zone₁
def pipeFull : Bool := inode.pipeSize = Pipe.PAGE_SIZE - 1

end Inode

inductive Wait (ι : Type) where
  | secondary (t : UInt8)
  | writeQ (t : UInt8)
  | iWait (i : ι)
  | iWait2 (i : ι)
deriving DecidableEq

structure World (ι : Type) where
  inode : ι → Inode
  tty : UInt8 → Tty
  fgConsole : UInt8

structure Task (ι : Type) where
  tty : Int
  filp : Fin NR_OPEN → Option ι

def MAJOR (a : Nat) : Nat := a >>> 8
def MINOR (a : Nat) : Nat := a &&& 0xff

namespace World

variable {ι : Type} (w : World ι)

def ttyTable (nr : Nat) : UInt8 := if nr ≠ 0 then if nr < 64 then .ofNat (nr - 1) else .ofNat nr else w.fgConsole

def getTty (task : Task ι) (i : ι) : Option UInt8 :=
  let inode := w.inode i
  if inode.isChr = false then none
  else if MAJOR inode.zone₀ ≠ 5 ∧ MAJOR inode.zone₀ ≠ 4 then none
  else
    let minor : Int := if MAJOR inode.zone₀ = 5 then task.tty else MINOR inode.zone₀
    if minor < 0 then none else some (w.ttyTable minor.toNat)

/-- What is returned, and what is given to `add_wait`. -/
def checkIn (task : Task ι) (i : ι) : Bool × Option (Wait ι) :=
  match w.getTty task i with
  | some t => if (w.tty t).secondary.ring.empty = false then (true, none) else (false, some (.secondary t))
  | none =>
    if (w.inode i).pipe then
      if (w.inode i).pipeEmpty = false then (true, none) else (false, some (.iWait i))
    else (false, none)

def checkOut (task : Task ι) (i : ι) : Bool × Option (Wait ι) :=
  match w.getTty task i with
  | some t => if (w.tty t).writeQ.ring.full = false then (true, none) else (false, some (.writeQ t))
  | none =>
    if (w.inode i).pipe then
      if (w.inode i).pipeFull = false then (true, none) else (false, some (.iWait i))
    else (false, none)

def checkEx (task : Task ι) (i : ι) : Bool × Option (Wait ι) :=
  match w.getTty task i with
  | some t => if (w.tty t).writeQ.ring.full = false then (false, none) else (false, none)
  | none =>
    if (w.inode i).pipe then
      if (w.inode i).count < 2 then (true, none) else (false, some (.iWait i))
    else (false, none)

end World

inductive Kind where
  | input
  | output
  | exception
deriving DecidableEq

abbrev Sets := Fin NR_OPEN → Kind → Bool

def World.check {ι : Type} (w : World ι) (task : Task ι) (fd : Fin NR_OPEN) (kind : Kind) : Bool × Option (Wait ι) :=
  match task.filp fd with
  | none => (false, none)
  | some i =>
    match kind with
    | .input => w.checkIn task i
    | .output => w.checkOut task i
    | .exception => w.checkEx task i

def selected (sets : Sets) : List (Fin NR_OPEN × Kind) :=
  (List.finRange NR_OPEN).flatMap fun fd =>
    ([Kind.input, .output, .exception].filter fun kind => sets fd kind).map fun kind => (fd, kind)

def addWait {ι : Type} [DecidableEq ι] (table : List (Wait ι)) : Option (Wait ι) → List (Wait ι)
  | none => table
  | some address => if address ∈ table then table else table ++ [address]

section DoSelect

variable {ι : Type} [DecidableEq ι]

def World.ready (w : World ι) (task : Task ι) (sets : Sets) : Sets := fun fd kind =>
  sets fd kind && (w.check task fd kind).1

def World.count (w : World ι) (task : Task ι) (sets : Sets) : Nat :=
  ((selected sets).filter fun c => (w.check task c.1 c.2).1).length

def World.waitTable (w : World ι) (task : Task ι) (sets : Sets) : List (Wait ι) :=
  (selected sets).foldl (fun table c => addWait table (w.check task c.1 c.2).2) []

def World.valid (w : World ι) (task : Task ι) (sets : Sets) : Bool :=
  (selected sets).all fun c =>
    match task.filp c.1 with
    | none => false
    | some i => (w.inode i).pipe || (w.inode i).isChr || (w.inode i).isFifo

/-- Where the task is in `do_select`. In `freeing` and `leaving` it is in `free_wait`, which can
sleep. -/
inductive Phase where
  | entry
  | checking
  | asleep
  | runnable
  | freeing
  | leaving (ready : Sets)
  | returned (ready : Option Sets)

/-- The deadline has `passed` when `schedule` has cleared `current->timeout` since the call began. -/
structure State (ι : Type) where
  task : Task ι
  sets : Sets
  world : World ι
  jiffies : UInt32
  timeout : UInt32
  signal : Bool
  phase : Phase
  passed : Bool

inductive Move (ι : Type) where
  /-- the task runs on in `do_select` -/
  | run
  /-- a call of `schedule` by any task -/
  | schedule
  | wakeUp
  | tick
  | signal (pending : Bool)
  /-- what other tasks and the interrupts do to the pipes and the terminals -/
  | change (world : World ι)

namespace State

variable (s : State ι)

/-- The first loop of `schedule`, for this task. -/
def schedule : State ι :=
  let clears := s.timeout ≠ 0 ∧ s.timeout < s.jiffies
  { s with
    timeout := if clears then 0 else s.timeout
    passed := s.passed || decide clears
    phase :=
      match s.phase with
      | .asleep => if clears ∨ s.signal = true then .runnable else .asleep
      | phase => phase }

/-- The body of the loop from `repeat` on. -/
def check : State ι :=
  if s.signal = false ∧ (s.world.waitTable s.task s.sets ≠ [] ∨ s.timeout ≠ 0) ∧
      s.world.count s.task s.sets = 0 then
    { s with phase := .asleep }.schedule
  else { s with phase := .leaving (s.world.ready s.task s.sets) }

def run : Option (State ι) :=
  match s.phase with
  | .entry =>
    if s.world.valid s.task s.sets then some { s with phase := .checking }
    else some { s with phase := .returned none }
  | .checking => some s.check
  | .asleep => none
  | .runnable => some { s with phase := .freeing }
  | .freeing => some { s with phase := .checking }
  | .leaving ready => some { s with phase := .returned (some ready) }
  | .returned _ => none

def step : Move ι → Option (State ι)
  | .run => s.run
  | .schedule => some s.schedule
  | .wakeUp => some { s with phase := match s.phase with | .asleep => .runnable | phase => phase }
  | .tick => some { s with jiffies := s.jiffies + 1 }
  | .signal pending => some { s with signal := pending }
  | .change world => some { s with world := world }

def Honours : Move ι → Prop
  | .run => s.passed = true → ∀ s', s.phase = .checking → s.run = some s' →
      s'.phase = .leaving (s.world.ready s.task s.sets)
  | _ => True

/-- After the deadline there is a signal, or something is ready, or there is no queue that has been
joined. -/
def MayReturn : Move ι → Prop
  | .run => s.passed = true → s.phase = .checking →
      s.signal = true ∨ (∃ fd kind, s.sets fd kind = true ∧ (s.world.check s.task fd kind).1 = true) ∨
        ∀ fd kind, s.sets fd kind = true → (s.world.check s.task fd kind).2 = none
  | _ => True

end State

/-! ## One round of the loop -/

variable {sets : Sets}

omit [DecidableEq ι] in
theorem mem_selected {fd : Fin NR_OPEN} {kind : Kind} : (fd, kind) ∈ selected sets ↔ sets fd kind = true := by
  simp only [selected, List.mem_flatMap, List.mem_map, List.mem_filter, Prod.mk.injEq, List.mem_finRange, true_and]
  constructor
  · rintro ⟨fd', kind', ⟨-, chosen⟩, rfl, rfl⟩
    exact chosen
  · intro chosen
    exact ⟨fd, kind, ⟨by cases kind <;> simp, chosen⟩, rfl, rfl⟩

omit [DecidableEq ι] in
theorem count_eq_zero_iff {w : World ι} {task : Task ι} :
    w.count task sets = 0 ↔ ∀ fd kind, sets fd kind = true → (w.check task fd kind).1 = false := by
  rw [World.count, List.length_eq_zero_iff, List.filter_eq_nil_iff]
  constructor
  · intro none_ fd kind chosen
    exact Bool.eq_false_of_not_eq_true (none_ (fd, kind) (mem_selected.mpr chosen))
  · rintro none_ ⟨fd, kind⟩ member ready
    rw [none_ fd kind (mem_selected.mp member)] at ready
    cases ready

theorem addWait_eq_nil_iff {table : List (Wait ι)} {address : Option (Wait ι)} :
    addWait table address = [] ↔ table = [] ∧ address = none := by
  cases address with
  | none => simp [addWait]
  | some address =>
    rw [addWait]
    split
    case isTrue member => simp [List.ne_nil_of_mem member]
    case isFalse => simp

theorem foldl_addWait_eq_nil_iff {α : Type} {queue : α → Option (Wait ι)} {checks : List α} {table : List (Wait ι)} :
    checks.foldl (fun table c => addWait table (queue c)) table = [] ↔ table = [] ∧ ∀ c ∈ checks, queue c = none := by
  induction checks generalizing table with
  | nil => simp
  | cons c checks ih => rw [List.foldl_cons, ih, addWait_eq_nil_iff, List.forall_mem_cons, and_assoc]

theorem waitTable_eq_nil_iff {w : World ι} {task : Task ι} :
    w.waitTable task sets = [] ↔ ∀ fd kind, sets fd kind = true → (w.check task fd kind).2 = none := by
  rw [World.waitTable, foldl_addWait_eq_nil_iff]
  constructor
  · exact fun both fd kind chosen => both.2 (fd, kind) (mem_selected.mpr chosen)
  · exact fun none_ => ⟨rfl, fun c member => none_ c.1 c.2 (mem_selected.mp member)⟩

def State.Leaves (s : State ι) : Prop :=
  s.signal = true ∨ (∃ fd kind, s.sets fd kind = true ∧ (s.world.check s.task fd kind).1 = true) ∨
    (∀ fd kind, s.sets fd kind = true → (s.world.check s.task fd kind).2 = none) ∧ s.timeout = 0

variable {s : State ι}

theorem leaves_iff :
    s.Leaves ↔ ¬(s.signal = false ∧ (s.world.waitTable s.task s.sets ≠ [] ∨ s.timeout ≠ 0) ∧
      s.world.count s.task s.sets = 0) := by
  rw [State.Leaves, ← waitTable_eq_nil_iff, count_eq_zero_iff, not_and_or, not_and_or, not_or, not_not, not_not,
    Bool.not_eq_false]
  push Not
  simp only [ne_eq, Bool.not_eq_false]
  exact Iff.or Iff.rfl or_comm

omit [DecidableEq ι] in
theorem schedule_asleep (s : State ι) {ready : Sets} : ({ s with phase := .asleep }.schedule).phase ≠ .leaving ready := by
  simp only [State.schedule]
  split <;> simp

theorem check_leaves_iff : s.check.phase = .leaving (s.world.ready s.task s.sets) ↔ s.Leaves := by
  rw [leaves_iff, State.check]
  split
  case isTrue sleeps => exact iff_of_false (schedule_asleep s) fun wakes => wakes sleeps
  case isFalse goes => exact iff_of_true rfl goes

def State.Cleared (s : State ι) : Prop := s.passed = true → s.timeout = 0

omit [DecidableEq ι] in
theorem State.Cleared.schedule (cleared : s.Cleared) : s.schedule.Cleared := by
  intro passed
  rw [State.schedule] at passed ⊢
  dsimp only at passed ⊢
  split
  case isTrue => rfl
  case isFalse stays =>
    rw [decide_eq_false stays, Bool.or_false] at passed
    exact cleared passed

theorem State.Cleared.step {s s' : State ι} (cleared : s.Cleared) {m : Move ι} (moved : s.step m = some s') :
    s'.Cleared := by
  cases m with
  | run =>
    rw [State.step, State.run] at moved
    split at moved
    · split at moved <;> exact Option.some.inj moved ▸ cleared
    · obtain rfl := Option.some.inj moved
      rw [State.check]
      split
      · exact State.Cleared.schedule (s := { s with phase := .asleep }) cleared
      · exact cleared
    · cases moved
    · exact Option.some.inj moved ▸ cleared
    · exact Option.some.inj moved ▸ cleared
    · exact Option.some.inj moved ▸ cleared
    · cases moved
  | schedule => exact Option.some.inj moved ▸ cleared.schedule
  | wakeUp | tick | signal pending | change world => exact Option.some.inj moved ▸ cleared

theorem honours_iff (cleared : s.Cleared) (m : Move ι) : s.Honours m ↔ s.MayReturn m := by
  cases m with
  | run =>
    constructor
    · intro honours passed checking
      have ran : s.run = some s.check := by rw [State.run, checking]
      have leaves := check_leaves_iff.mp (honours passed s.check checking ran)
      exact leaves.imp_right (Or.imp_right And.left)
    · intro may passed s' checking ran
      have same : s.run = some s.check := by rw [State.run, checking]
      obtain rfl := Option.some.inj (same.symm.trans ran)
      exact check_leaves_iff.mpr ((may passed checking).imp_right (Or.imp_right fun none_ => ⟨none_, cleared passed⟩))
  | _ => exact Iff.rfl

end DoSelect

/-- A call returns when its deadline has passed, exactly if there is a signal, or something is ready,
or no queue that it has joined. -/
theorem honours_deadline_iff {ι : Type} [DecidableEq ι] {start : State ι} (fresh : start.passed = false)
    (moves : List (Move ι)) :
    Throughout State.step State.Honours start moves ↔ Throughout State.step State.MayReturn start moves := by
  refine throughout_congr (Q := State.Cleared) (fun cleared moved => cleared.step moved)
    (fun cleared _ => honours_iff cleared _) ?_ moves
  intro passed
  rw [fresh] at passed
  cases passed

def waiting (timeout : UInt32) : State Unit where
  task := { tty := 0, filp := fun fd => if fd.val = 0 then some () else none }
  sets := fun fd kind => fd.val = 0 && kind = .input
  world :=
    { inode := fun _ => { mode := 0, pipe := true, zone₀ := 0, zone₁ := 0, count := 2 }
      tty := (ChrDrv.colour.ttyInit fun _ => 0).ttys
      fgConsole := 0 }
  jiffies := 0
  timeout := timeout
  signal := false
  phase := .entry
  passed := false

theorem waiting_honours :
    Throughout State.step State.Honours (waiting 1) [.run, .run, .tick, .schedule] ↔
      Throughout State.step State.MayReturn (waiting 1) [.run, .run, .tick, .schedule] :=
  honours_deadline_iff rfl _

/-- The deadline of one tick passes, and the task goes to sleep again. -/
theorem waiting_oversleeps :
    ∃ s, run State.step (waiting 1) [.run, .run, .tick, .tick, .schedule, .run, .run] = some s ∧ s.passed = true ∧
      ¬Throughout State.step State.Honours (waiting 1)
        ([.run, .run, .tick, .tick, .schedule, .run, .run] ++ .run :: []) := by
  refine ⟨_, rfl, rfl, not_throughout_of_run rfl rfl fun honours => ?_⟩
  have leaves := honours rfl _ rfl rfl
  cases leaves

end Linux012.Fs.Select

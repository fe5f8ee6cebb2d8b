import Linux012.Lib.Links
import Linux012.Lib.Transition

/-! The wait queues of `kernel/sched.c` and `fs/select.c`. A queue is one pointer to the
task that came last; each task has what was there before it on its own stack. -/

set_option autoImplicit false

namespace Linux012.Kernel.WaitQueue

open Links Function

inductive TaskState where
  | running
  | interruptible
  | uninterruptible
deriving DecidableEq

structure WaitEntry (τ κ : Type) where
  oldTask : Option τ
  waitAddress : κ
deriving DecidableEq

/-- Where a task is. The entries of `free_wait` are those from `i` on, and `again` says
that `do_select` has slept and goes back to `repeat`. -/
inductive Activity (τ κ : Type) where
  | idle
  /-- in the `schedule` call of `__sleep_on`, with its local variable -/
  | sleeping (p : κ) (tmp : Option τ)
  /-- in `do_select` before its `schedule` call -/
  | checking (table : List (WaitEntry τ κ))
  | selecting (table : List (WaitEntry τ κ))
  | freeing (table : List (WaitEntry τ κ)) (again : Bool)
deriving DecidableEq

def Activity.saved {τ κ : Type} : Activity τ κ → List (WaitEntry τ κ)
  | .idle => []
  | .sleeping p tmp => [{ oldTask := tmp, waitAddress := p }]
  | .checking table => table
  | .selecting table => table
  | .freeing table _ => table

/-- The tasks but `task[0]`, which must not sleep. `warned` is set by the messages
about an empty queue; `since` is when a task came to a queue. -/
structure State (τ κ : Type) where
  head : κ → Option τ
  state : τ → TaskState
  activity : τ → Activity τ κ
  warned : Bool
  now : Nat
  since : τ → κ → Nat

inductive Move (τ κ : Type) where
  /-- `interruptible_sleep_on` or `sleep_on` -/
  | sleepOn (t : τ) (p : κ) (interruptible : Bool)
  /-- a call of `do_select` -/
  | select (t : τ)
  | addWait (t : τ) (p : κ)
  /-- `do_select` sleeps -/
  | selectSleep (t : τ)
  | selectReturn (t : τ)
  /-- a task that can run goes on, up to its next `schedule` call or queue -/
  | resume (t : τ)
  | wakeUp (p : κ)
  /-- `schedule` finds a signal or a timeout -/
  | interrupt (t : τ)

variable {τ κ : Type} [DecidableEq τ] [DecidableEq κ]

namespace State

def setHead (s : State τ κ) (p : κ) (task : Option τ) : State τ κ :=
  { s with head := update s.head p task }

def setState (s : State τ κ) (t : τ) (state : TaskState) : State τ κ :=
  { s with state := update s.state t state }

def setActivity (s : State τ κ) (t : τ) (activity : Activity τ κ) : State τ κ :=
  { s with activity := update s.activity t activity }

omit [DecidableEq κ] in
theorem setActivity_self (s : State τ κ) (t : τ) (activity : Activity τ κ) :
    (s.setActivity t activity).activity t = activity :=
  update_self ..

omit [DecidableEq κ] in
theorem setActivity_of_ne (s : State τ κ) {t u : τ} (activity : Activity τ κ) (differ : u ≠ t) :
    (s.setActivity t activity).activity u = s.activity u :=
  update_of_ne differ ..

def enter (s : State τ κ) (t : τ) (p : κ) : State τ κ :=
  { s.setHead p (some t) with
    now := s.now + 1
    since := update s.since t (update (s.since t) p s.now) }

def sleepOn (s : State τ κ) (t : τ) (p : κ) (state : TaskState) : State τ κ :=
  let tmp := s.head p
  ((s.enter t p).setState t state).setActivity t (.sleeping p tmp)

def addWait (s : State τ κ) (t : τ) (p : κ) (table : List (WaitEntry τ κ)) : State τ κ :=
  if table.any fun entry => entry.waitAddress = p then s
  else
    let entry := { oldTask := s.head p, waitAddress := p }
    (s.enter t p).setActivity t (.checking (table ++ [entry]))

/-- `if (*p = tmp) tmp->state=0` -/
def leave (s : State τ κ) (p : κ) (tmp : Option τ) : State τ κ :=
  match tmp with
  | none => s.setHead p none
  | some older => (s.setHead p (some older)).setState older .running

/-- A task that runs again looks at a queue, and lets the head run if it is another
task; else it leaves, with `after` to do. -/
def tryLeave (s : State τ κ) (t : τ) (p : κ) (tmp : Option τ) (after : Activity τ κ) : State τ κ :=
  match s.head p with
  | some other =>
    if other ≠ t then (s.setState other .running).setState t .uninterruptible
    else (s.leave p tmp).setActivity t after
  | none => ({ s with warned := true }.leave p tmp).setActivity t after

def resume (s : State τ κ) (t : τ) : Option (State τ κ) :=
  match s.activity t with
  | .idle => none
  | .checking _ => none
  | .sleeping p tmp => some (s.tryLeave t p tmp .idle)
  | .selecting table => some (s.setActivity t (.freeing table true))
  | .freeing [] again => some (s.setActivity t (if again then .checking [] else .idle))
  | .freeing (entry :: table) again =>
    some (s.tryLeave t entry.waitAddress entry.oldTask (.freeing table again))

def wakeUp (s : State τ κ) (p : κ) : State τ κ :=
  match s.head p with
  | some t => s.setState t .running
  | none => s

def step (s : State τ κ) : Move τ κ → Option (State τ κ)
  | .sleepOn t p interruptible =>
    if s.state t = .running ∧ s.activity t = .idle then
      some (s.sleepOn t p (if interruptible then .interruptible else .uninterruptible))
    else none
  | .select t =>
    if s.state t = .running ∧ s.activity t = .idle then some (s.setActivity t (.checking [])) else none
  | .addWait t p =>
    match s.activity t with
    | .checking table => if s.state t = .running then some (s.addWait t p table) else none
    | _ => none
  | .selectSleep t =>
    match s.activity t with
    | .checking table =>
      if s.state t = .running then some ((s.setState t .interruptible).setActivity t (.selecting table)) else none
    | _ => none
  | .selectReturn t =>
    match s.activity t with
    | .checking table =>
      if s.state t = .running then some (s.setActivity t (.freeing table false)) else none
    | _ => none
  | .resume t => if s.state t = .running then s.resume t else none
  | .wakeUp p => some (s.wakeUp p)
  | .interrupt t => if s.state t = .interruptible then some (s.setState t .running) else none

def init : State τ κ where
  head := fun _ => none
  state := fun _ => .running
  activity := fun _ => .idle
  warned := false
  now := 0
  since := fun _ _ => 0

def On (s : State τ κ) (p : κ) (t : τ) : Prop := p ∈ (s.activity t).saved.map WaitEntry.waitAddress

instance (s : State τ κ) (p : κ) (t : τ) : Decidable (s.On p t) :=
  inferInstanceAs (Decidable (p ∈ _))

def below (s : State τ κ) (p : κ) (t : τ) : Option τ :=
  ((s.activity t).saved.find? fun entry => entry.waitAddress = p).bind WaitEntry.oldTask

/-- The saved pointers behind each head lead through the tasks that are on the queue,
from the newest to the oldest. -/
structure Good (s : State τ κ) : Prop where
  chain : ∀ p, ∃ sleepers, Follows (s.below p) (s.head p) sleepers ∧ sleepers.Nodup ∧
    (∀ t, t ∈ sleepers ↔ s.On p t) ∧
    sleepers.Pairwise fun newer older => s.since older p < s.since newer p
  quiet : s.warned = false

/-- The task that leaves a queue is its head, and the one below it is the next head
and can run. -/
def LeavesWell (s s' : State τ κ) : Prop :=
  ∀ p t, s.On p t → ¬s'.On p t →
    s.head p = some t ∧ s'.head p = s.below p t ∧ ∀ older, s.below p t = some older → s'.state older = .running

end State

end Linux012.Kernel.WaitQueue

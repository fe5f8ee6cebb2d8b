import Linux012.Lib.Transition
import Mathlib.Data.BitVec

/-! Signals: the masks and handlers of tasks, as `kernel/signal.c` sets them, and
what `sys_waitpid`, `fork`, `exec` and `exit` do to them. -/

set_option autoImplicit false

namespace Linux012.Kernel

open Transition

def NR_TASKS : Nat := 64

theorem NR_TASKS_pos : 0 < NR_TASKS := by decide

theorem one_lt_NR_TASKS : 1 < NR_TASKS := by decide

abbrev Word := BitVec 32

def SIGQUIT : Nat := 3
def SIGILL : Nat := 4
def SIGTRAP : Nat := 5
def SIGIOT : Nat := 6
def SIGFPE : Nat := 8
def SIGKILL : Nat := 9
def SIGSEGV : Nat := 11
def SIGCHLD : Nat := 17
def SIGCONT : Nat := 18
def SIGSTOP : Nat := 19
def SIGTSTP : Nat := 20
def SIGTTIN : Nat := 21
def SIGTTOU : Nat := 22

def SA_NOCLDSTOP : Word := 1
def SA_INTERRUPT : Word := 0x20000000
def SA_NOMASK : Word := 0x40000000
def SA_ONESHOT : Word := 0x80000000

def ERESTARTSYS : Word := 512
def ERESTARTNOINTR : Word := 513
def EINTR : Word := 4

def bit (sig : Nat) : Word := 1#32 <<< (sig - 1)

structure Sigaction where
  handler : Word
  mask : Word
  flags : Word
  restorer : Word

inductive TaskState where
  | running
  | stopped
  | zombie
deriving DecidableEq

/-- `oldblocked` is the local variable of `sys_waitpid`, while the task sleeps
there. -/
structure Task where
  state : TaskState
  exitCode : Word
  signal : Word
  blocked : Word
  sigaction : Fin 32 → Sigaction
  parent : Fin NR_TASKS
  oldblocked : Option Word

namespace Task

def action (task : Task) (signum : Nat) : Sigaction := task.sigaction (Fin.ofNat 32 (signum - 1))

def setAction (task : Task) (signum : Nat) (action : Sigaction) : Task :=
  { task with sigaction := Function.update task.sigaction (Fin.ofNat 32 (signum - 1)) action }

def ssetmask (task : Task) (newmask : Word) : Task :=
  { task with blocked := newmask &&& ~~~bit SIGKILL &&& ~~~bit SIGSTOP }

/-- The mask is set before the task sleeps; `restart` and `old_mask` are
registers of the caller. -/
def sigsuspend (task : Task) (restart oldMask set : Word) : Task :=
  if restart ≠ 0 then { task with blocked := oldMask } else { task with blocked := set }

def invalid (signum : Int) : Prop := signum < 1 ∨ 32 < signum ∨ signum = SIGKILL ∨ signum = SIGSTOP

instance (signum : Int) : Decidable (invalid signum) :=
  inferInstanceAs (Decidable (_ ∨ _ ∨ _ ∨ _))

/-- `sys_signal` -/
def signalHandler (task : Task) (signum : Int) (handler restorer : Word) : Task :=
  if invalid signum then task
  else
    task.setAction signum.toNat
      { handler := handler, mask := 0, flags := SA_ONESHOT ||| SA_NOMASK, restorer := restorer }

/-- `sys_sigaction` -/
def setSigaction (task : Task) (signum : Int) (action : Sigaction) : Task :=
  if invalid signum then task
  else
    task.setAction signum.toNat
      { action with
        mask := if action.flags &&& SA_NOMASK ≠ 0 then 0 else action.mask ||| bit signum.toNat }

/-- The loop of `do_execve` over the actions. -/
def exec (task : Task) : Task :=
  { task with
    signal := 0
    sigaction := fun n =>
      { task.sigaction n with
        mask := 0
        flags := 0
        handler := if (task.sigaction n).handler ≠ 1 then 0 else (task.sigaction n).handler } }

def send (task : Task) (sig : Nat) : Task :=
  let task :=
    if sig = SIGKILL ∨ sig = SIGCONT then
      { task with
        state := if task.state = .stopped then .running else task.state
        exitCode := 0
        signal := task.signal &&& ~~~(bit SIGSTOP ||| bit SIGTSTP ||| bit SIGTTIN ||| bit SIGTTOU) }
    else task
  if (task.action sig).handler = 1 then task
  else
    let task :=
      if SIGSTOP ≤ sig ∧ sig ≤ SIGTTOU then { task with signal := task.signal &&& ~~~bit SIGCONT }
      else task
    { task with signal := task.signal ||| bit sig }

end Task

/-- The registers that `do_signal` finds on the stack; `stack` holds what is
pushed on the user's stack, last word first. -/
structure Regs where
  eax : Word
  ecx : Word
  edx : Word
  origEax : Word
  eip : Word
  eflags : Word
  stack : List Word

/-- What becomes of a signal: `do_signal` returns 1 or 0, or the task exits. -/
inductive Delivery where
  | ignored
  | stopped
  | handled
  | exit (code : Word)
deriving DecidableEq

/-- The part of `do_signal` that restarts a system call. -/
def restart (action : Sigaction) (signr : Nat) (regs : Regs) : Regs :=
  if regs.origEax ≠ -1 ∧ (regs.eax = -ERESTARTSYS ∨ regs.eax = -ERESTARTNOINTR) then
    if regs.eax = -ERESTARTSYS ∧
        (action.flags &&& SA_INTERRUPT ≠ 0 ∨ signr < SIGCONT ∨ SIGTTOU < signr) then
      { regs with eax := -EINTR }
    else { regs with eax := regs.origEax, eip := regs.eip - 2 }
  else regs

/-- `do_signal`; `core_dump` makes no dump. -/
def Task.doSignal (task : Task) (signr : Nat) (regs : Regs) : Task × Regs × Delivery :=
  let sa := task.action signr
  let regs' := restart sa signr regs
  if sa.handler = 1 then (task, regs', .ignored)
  else if sa.handler = 0 then
    if signr = SIGCONT ∨ signr = SIGCHLD then (task, regs', .ignored)
    else if SIGSTOP ≤ signr ∧ signr ≤ SIGTTOU then
      ({ task with state := .stopped, exitCode := BitVec.ofNat 32 signr }, regs', .stopped)
    else (task, regs', .exit (BitVec.ofNat 32 signr))
  else
    let disarmed := if sa.flags &&& SA_ONESHOT ≠ 0 then task.setAction signr { sa with handler := 0 } else task
    let saved := if sa.flags &&& SA_NOMASK = 0 then [task.blocked] else []
    let frame := [sa.restorer, BitVec.ofNat 32 signr] ++ saved ++
      [regs'.eax, regs'.ecx, regs'.edx, regs'.eflags, regs'.eip]
    ({ disarmed with blocked := disarmed.blocked ||| sa.mask },
      { regs' with eip := sa.handler, stack := frame ++ regs'.stack }, .handled)

/-- The lowest signal that is pending and not blocked, as `ret_from_sys_call`
finds it. -/
def Task.pending (task : Task) : Option Nat :=
  ((List.range 32).find? fun n => (task.signal &&& ~~~task.blocked).getLsbD n).map (· + 1)

abbrev Tasks := Fin NR_TASKS → Option Task

inductive Move where
  | ssetmask (p : Fin NR_TASKS) (newmask : Word)
  | sigsuspend (p : Fin NR_TASKS) (restart oldMask set : Word)
  | signal (p : Fin NR_TASKS) (signum : Int) (handler restorer : Word)
  | sigaction (p : Fin NR_TASKS) (signum : Int) (action : Sigaction)
  /-- one round of `ret_from_sys_call` with a signal to deliver -/
  | deliver (p : Fin NR_TASKS) (regs : Regs)
  /-- `sys_waitpid` goes to sleep -/
  | waitpid (p : Fin NR_TASKS)
  /-- it goes on after `schedule` -/
  | wake (p : Fin NR_TASKS)
  | fork (p q : Fin NR_TASKS)
  | exec (p : Fin NR_TASKS)
  | exit (p : Fin NR_TASKS) (code : Word)
  | release (q : Fin NR_TASKS)
  | send (q : Fin NR_TASKS) (sig : Nat)

namespace Tasks

def active (s : Tasks) (p : Fin NR_TASKS) : Option Task :=
  (s p).filter fun task => task.state = .running ∧ task.oldblocked = none

def set (s : Tasks) (p : Fin NR_TASKS) (task : Task) : Tasks := Function.update s p (some task)

def exit (s : Tasks) (p : Fin NR_TASKS) (task : Task) (code : Word) : Tasks :=
  let s := s.set p { task with state := .zombie, exitCode := code }
  match s task.parent with
  | some parent => s.set task.parent { parent with signal := parent.signal ||| bit SIGCHLD }
  | none => s

def tellParent (s : Tasks) (q : Fin NR_TASKS) : Tasks :=
  match s q with
  | some parent =>
    if (parent.action SIGCHLD).flags &&& SA_NOCLDSTOP = 0 then
      s.set q { parent with signal := parent.signal ||| bit SIGCHLD }
    else s
  | none => s

/-- `btrl` and the call of `do_signal`. -/
def deliver (s : Tasks) (p : Fin NR_TASKS) (task : Task) (regs : Regs) : Option Tasks :=
  task.pending.map fun signr =>
    let task := { task with signal := task.signal &&& ~~~bit signr }
    match task.doSignal signr regs with
    | (task, _, .ignored) | (task, _, .handled) => s.set p task
    | (task, _, .stopped) => (s.set p task).tellParent task.parent
    | (task, _, .exit code) => s.exit p task code

def step (s : Tasks) : Move → Option Tasks
  | .ssetmask p newmask => (s.active p).map fun task => s.set p (task.ssetmask newmask)
  | .sigsuspend p restart oldMask set =>
    (s.active p).map fun task => s.set p (task.sigsuspend restart oldMask set)
  | .signal p signum handler restorer =>
    (s.active p).map fun task => s.set p (task.signalHandler signum handler restorer)
  | .sigaction p signum action => (s.active p).map fun task => s.set p (task.setSigaction signum action)
  -- task 0 cannot have signals
  | .deliver p regs => if p.val = 0 then none else (s.active p).bind fun task => s.deliver p task regs
  | .waitpid p =>
    (s.active p).map fun task =>
      s.set p { task with oldblocked := some task.blocked, blocked := task.blocked &&& ~~~bit SIGCHLD }
  | .wake p =>
    (s p).bind fun task =>
      task.oldblocked.map fun old => s.set p { task with blocked := old, oldblocked := none }
  | .fork p q =>
    (s.active p).bind fun task =>
      if s q = none then some (s.set q { task with signal := 0, parent := p }) else none
  | .exec p => (s.active p).map fun task => s.set p task.exec
  | .exit p code => (s.active p).map fun task => s.exit p task code
  | .release q =>
    (s q).bind fun task => if task.state = .zombie then some (Function.update s q none) else none
  | .send q sig => (s q).bind fun task =>
    if 1 ≤ sig ∧ sig ≤ 32 then some (s.set q (task.send sig)) else none

def init : Tasks := fun p =>
  if p.val = 0 then
    some
      { state := .running
        exitCode := 0
        signal := 0
        blocked := 0
        sigaction := fun _ => ⟨0, 0, 0, 0⟩
        parent := ⟨0, by decide⟩
        oldblocked := none }
  else none

end Tasks

end Linux012.Kernel

import Linux012.Kernel.Scheduler

/-! How tasks are stopped and continued: `send_sig` of `kernel/exit.c` with the calls that lead to
it, the delivery of signals, and what else sets the state or the signals of a task. -/

set_option autoImplicit false

namespace Linux012.Kernel.JobControl

open Function

open Kill (slots)

def SIGPIPE : Nat := 13

/-- Whether a task is inside a sleep, or is a child that `copy_process` has not finished. -/
inductive Activity where
  | awake
  | asleep
  | forking
deriving DecidableEq

structure Task extends Scheduler.Task where
  exitCode : Word
  sigaction : Fin 32 → Sigaction
  parent : Fin NR_TASKS
  pid : Word
  pgrp : Word
  euid : Short
  activity : Activity

def stops : Word := bit SIGSTOP ||| bit SIGTSTP ||| bit SIGTTIN ||| bit SIGTTOU

def shifted (sig : Int) : Word := 1#32 <<< ((sig - 1) % 32).toNat

namespace Task

theorem signals_ne_zero : 32 ≠ 0 := by decide

def action (t : Task) (signum : Nat) : Sigaction := t.sigaction (@Fin.ofNat 32 ⟨signals_ne_zero⟩ (signum - 1))

def setAction (t : Task) (signum : Nat) (action : Sigaction) : Task :=
  { t with sigaction := update t.sigaction (@Fin.ofNat 32 ⟨signals_ne_zero⟩ (signum - 1)) action }

def add (t : Task) (set : Word) : Task := { t with signal := t.signal ||| set }

def remove (t : Task) (set : Word) : Task := { t with signal := t.signal &&& ~~~set }

def post (t : Task) (sig : Nat) : Task := t.add (bit sig)

def unstop (t : Task) : Task :=
  Task.remove { t with state := if t.state = .stopped then .running else t.state, exitCode := 0 } stops

/-- `send_sig` where it is allowed. For a number that is no signal the handler is read `beside`
the array. -/
def send (t : Task) (sig : Int) (beside : Word) : Task :=
  let t := if sig = SIGKILL ∨ sig = SIGCONT then t.unstop else t
  let handler := if 1 ≤ sig ∧ sig ≤ 32 then (t.action sig.toNat).handler else beside
  if handler = 1 then t
  else
    let t := if SIGSTOP ≤ sig ∧ sig ≤ SIGTTOU then t.remove (bit SIGCONT) else t
    t.add (shifted sig)

/-- The lowest signal that is pending and not blocked, as `ret_from_sys_call` finds it. -/
def pending (t : Task) : Option Nat :=
  ((List.range 32).find? fun n => (t.signal &&& ~~~t.blocked).getLsbD n).map (· + 1)

/-- `do_signal`, without what it does to the registers and the user's stack. -/
def doSignal (t : Task) (signr : Nat) : Task × Delivery :=
  let sa := t.action signr
  if sa.handler = 1 then (t, .ignored)
  else if sa.handler = 0 then
    if signr = SIGCONT ∨ signr = SIGCHLD then (t, .ignored)
    else if SIGSTOP ≤ signr ∧ signr ≤ SIGTTOU then
      ({ t with state := .stopped, exitCode := BitVec.ofNat 32 signr }, .stopped)
    else (t, .exit (BitVec.ofNat 32 signr))
  else
    let t := if sa.flags &&& SA_ONESHOT ≠ 0 then t.setAction signr { sa with handler := 0 } else t
    ({ t with blocked := t.blocked ||| sa.mask }, .handled)

/-- The loop of `do_execve` over the actions. -/
def exec (t : Task) : Task :=
  { t with
    signal := 0
    sigaction := fun n =>
      { t.sigaction n with
        mask := 0
        flags := 0
        handler := if (t.sigaction n).handler ≠ 1 then 0 else (t.sigaction n).handler } }

end Task

abbrev Tasks := Fin NR_TASKS → Option Task

/-- Which loop calls `send_sig`: those of `kill_pg` and `kill_proc`, which have checked the
number, or the one of `sys_kill` over all tasks. -/
inductive Caller where
  | killPg
  | killProc
  | killAll
deriving DecidableEq

inductive Move where
  /-- one call of `send_sig`; a privileged one has no sender -/
  | send (sender : Option (Fin NR_TASKS)) (q : Fin NR_TASKS) (sig : Int) (caller : Caller) (beside : Word)
  /-- one round of `ret_from_sys_call` with a signal to deliver -/
  | deliver (p : Fin NR_TASKS)
  /-- any call that sets `blocked` -/
  | setMask (p : Fin NR_TASKS) (mask : Word)
  /-- `sys_signal` or `sys_sigaction`, with the action as it is installed -/
  | setAction (p : Fin NR_TASKS) (signum : Int) (action : Sigaction)
  | setTimers (p : Fin NR_TASKS) (timeout alarm : Word)
  /-- a write to `signal` by the coprocessor code or by `write_pipe` -/
  | fault (q : Fin NR_TASKS) (sig : Nat)
  /-- the first loop of `schedule` -/
  | schedule (jiffies : Word)
  | sleep (p : Fin NR_TASKS) (state : Scheduler.TaskState)
  /-- `state = 0` for a task on a wait queue -/
  | wake (q : Fin NR_TASKS)
  | resume (p : Fin NR_TASKS)
  | fork (p q : Fin NR_TASKS) (pid : Word)
  /-- the end of `copy_process`, with or without enough memory -/
  | forked (q : Fin NR_TASKS) (ok : Bool)
  | exec (p : Fin NR_TASKS)
  | exit (p : Fin NR_TASKS) (code : Word)
  | release (q : Fin NR_TASKS)

def initTask : Fin NR_TASKS := ⟨1, one_lt_NR_TASKS⟩

namespace Tasks

def active (s : Tasks) (p : Fin NR_TASKS) : Option Task :=
  (s p).filter fun t => t.state = .running ∧ t.activity = .awake

def set (s : Tasks) (p : Fin NR_TASKS) (t : Task) : Tasks := update s p (some t)

def post (s : Tasks) (q : Fin NR_TASKS) (sig : Nat) : Tasks := update s q ((s q).map fun t => t.post sig)

/-- The check of `send_sig`. -/
def may (s : Tasks) (sender : Option (Fin NR_TASKS)) (t : Task) : Bool :=
  match sender with
  | none => true
  | some p => (s.active p).any fun current => current.euid = t.euid ∨ current.euid = 0

def tellParent (s : Tasks) (q : Fin NR_TASKS) : Tasks :=
  if (s q).any fun parent => (parent.action SIGCHLD).flags &&& SA_NOCLDSTOP = 0 then s.post q SIGCHLD else s

def adopt (s : Tasks) (p : Fin NR_TASKS) : Tasks :=
  fun i => (s i).map fun t => if t.parent = p then { t with parent := initTask } else t

def leavesZombie (s : Tasks) (p : Fin NR_TASKS) : Bool :=
  (List.finRange NR_TASKS).any fun i => (s i).any fun t => t.parent = p ∧ t.state = .zombie

/-- `do_exit`; its calls of `kill_pg` are moves of their own. -/
def exit (s : Tasks) (p : Fin NR_TASKS) (t : Task) (code : Word) : Tasks :=
  let s := s.set p { t with state := .zombie, exitCode := code }
  let s := s.post t.parent SIGCHLD
  let s := if s.leavesZombie p then s.post initTask SIGCHLD else s
  s.adopt p

/-- `btrl` and the call of `do_signal`. A handler whose mask would block `SIGKILL` is not run
here. -/
def deliver (s : Tasks) (p : Fin NR_TASKS) (t : Task) : Option Tasks :=
  t.pending.bind fun signr =>
    match (t.remove (bit signr)).doSignal signr with
    | (t, .ignored) => some (s.set p t)
    | (t, .handled) => if t.blocked &&& bit SIGKILL = 0 then some (s.set p t) else none
    | (t, .stopped) => some ((s.set p t).tellParent t.parent)
    | (t, .exit code) => some (s.exit p t code)

def step (s : Tasks) : Move → Option Tasks
  | .send sender q sig caller beside =>
    (s q).bind fun t =>
      if (caller = .killAll ∨ 1 ≤ sig ∧ sig ≤ 32) ∧ s.may sender t then some (s.set q (t.send sig beside)) else none
  -- task 0 cannot have signals
  | .deliver p => if p.val = 0 then none else (s.active p).bind fun t => s.deliver p t
  | .setMask p mask =>
    (s.active p).bind fun t => if mask &&& bit SIGKILL = 0 then some (s.set p { t with blocked := mask }) else none
  | .setAction p signum action =>
    (s.active p).map fun t =>
      if Kernel.Task.invalid signum then s else s.set p (t.setAction signum.toNat action)
  | .setTimers p timeout alarm => (s.active p).map fun t => s.set p { t with timeout := timeout, alarm := alarm }
  | .fault q sig =>
    (s q).bind fun _ => if sig ∈ [SIGILL, SIGFPE, SIGSEGV, SIGPIPE] then some (s.post q sig) else none
  | .schedule jiffies =>
    some fun i => if i.val = 0 then s i else (s i).map fun t => { t with toTask := t.toTask.awaken jiffies }
  | .sleep p state =>
    (s.active p).bind fun t =>
      if state = .interruptible ∨ state = .uninterruptible then
        some (s.set p { t with state := state, activity := .asleep })
      else none
  | .wake q =>
    (s q).bind fun t => if t.activity = .asleep then some (s.set q { t with state := .running }) else none
  | .resume p =>
    (s p).bind fun t =>
      if t.activity = .asleep ∧ t.state = .running then some (s.set p { t with activity := .awake }) else none
  | .fork p q pid =>
    (s.active p).bind fun t =>
      if s q = none then
        some (s.set q { t with
          state := .uninterruptible, signal := 0, alarm := 0, counter := t.priority, pid := pid, parent := p
          activity := .forking })
      else none
  | .forked q ok =>
    (s q).bind fun t =>
      if t.activity = .forking then
        some (if ok then s.set q { t with state := .running, activity := .awake } else update s q none)
      else none
  | .exec p => (s.active p).map fun t => s.set p t.exec
  | .exit p code => (s.active p).map fun t => s.exit p t code
  | .release q => (s q).bind fun t => if t.state = .zombie then some (update s q none) else none

def init : Tasks := fun p =>
  if p.val = 0 then
    some
      { state := .running, counter := 15, priority := 15, signal := 0, blocked := 0, timeout := 0, alarm := 0
        exitCode := 0
        sigaction := fun _ => ⟨0, 0, 0, 0⟩
        parent := ⟨0, NR_TASKS_pos⟩
        pid := 0
        pgrp := 0
        euid := 0
        activity := .awake }
  else none

/-! ## The calls that send signals -/

section Kill

variable (s : Tasks) (sender : Option (Fin NR_TASKS)) (sig : Int) (beside : Word)

/-- `kill_pg`, as the calls of `send_sig` that it makes. -/
def killPg (pgrp : Word) : List Move :=
  if sig < 1 ∨ 32 < sig ∨ pgrp.toInt ≤ 0 then []
  else
    (slots.filter fun i => (s i).any fun t => t.pgrp = pgrp).map fun i => .send sender i sig .killPg beside

def killProc (pid : Word) : List Move :=
  if sig < 1 ∨ 32 < sig then []
  else ((slots.find? fun i => (s i).any fun t => t.pid = pid).map fun i => .send sender i sig .killProc beside).toList

def sysKill (p : Fin NR_TASKS) (current : Task) (pid : Word) : List Move :=
  if pid = 0 then s.killPg (some p) sig beside current.pid
  else if pid = -1 then slots.map fun i => .send (some p) i sig .killAll beside
  else if pid.toInt < 0 then s.killPg (some p) sig beside (-pid)
  else s.killProc (some p) sig beside pid

end Kill

end Tasks

end Linux012.Kernel.JobControl

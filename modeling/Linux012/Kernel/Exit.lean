import Linux012.Kernel.Signal

/-! `kernel/exit.c`: `do_exit`, the signals that it and `sys_kill` send, and
`sys_waitpid`, whose `put_fs_long` may sleep in a page fault. -/

set_option autoImplicit false

namespace Linux012.Kernel.Exit

open Function

abbrev Slot := Fin NR_TASKS

def slot (n : Nat) : Slot := ⟨n % NR_TASKS, Nat.mod_lt _ (by decide)⟩

def SIGHUP : Nat := 1

/-- Where a task is in `sys_waitpid`: in `put_fs_long`, for a stopped child or for
a zombie. -/
inductive Waiting where
  | no
  | stopped (q : Slot)
  | zombie (q : Slot)
deriving DecidableEq

/-- The rest of a `task_struct`. The children are those that `p_cptr` and the
`p_osptr` links give, in this order; `id` counts the tasks that were ever made. -/
structure Process where
  task : Task
  pid : Nat
  pgrp : Nat
  session : Nat
  euid : Nat
  leader : Bool
  tty : Option Nat
  children : List Slot
  waiting : Waiting
  id : Nat

/-- A status that `sys_waitpid` stores for a zombie, with the task that called it
and `p_pptr` of the zombie. -/
structure Report where
  child : Nat
  status : Word
  reporter : Slot
  parent : Slot
deriving DecidableEq

/-- `ttyPgrp` is `pgrp` of the entries of the tty table; `exits` and `reports` are
the calls of `do_exit` and the answers of `sys_waitpid`. -/
structure System where
  proc : Slot → Option Process
  ttyPgrp : Nat → Nat
  nextId : Nat
  exits : List (Nat × Word)
  reports : List Report

inductive Move where
  | fork (p q : Slot) (pid : Nat)
  | exit (p : Slot) (code : Word)
  | kill (p : Slot) (pid : Int) (sig : Nat)
  /-- `do_signal` stops the current task -/
  | stop (p : Slot) (signr : Nat)
  /-- one pass of `sys_waitpid` over the children -/
  | waitpid (p : Slot) (pid : Int) (untraced : Bool)
  /-- it goes on after `put_fs_long` -/
  | stored (p : Slot)
  /-- `sys_setpgid` or `sys_setsid`, whatever group they give -/
  | regroup (q : Slot) (pgrp session : Nat) (leader : Bool)
  /-- a terminal is opened or gets a foreground group -/
  | terminal (q : Slot) (tty : Option Nat) (n pgrp : Nat)

namespace System

def set (s : System) (q : Slot) (process : Process) : System :=
  { s with proc := update s.proc q (some process) }

def modify (s : System) (q : Slot) (change : Process → Process) : System :=
  { s with proc := update s.proc q ((s.proc q).map change) }

def current (s : System) (p : Slot) : Option Process :=
  (s.proc p).filter fun me => me.task.state = .running ∧ me.waiting = .no

/-- `send_sig` to all tasks but `task[0]` that are meant. -/
def sendSig (s : System) (sig : Nat) (meant : Slot → Process → Bool) : System :=
  { s with
    proc := fun q => (s.proc q).map fun process =>
      if q.val ≠ 0 ∧ meant q process then { process with task := process.task.send sig } else process }

def killPg (s : System) (pgrp sig : Nat) : System :=
  if pgrp = 0 then s else s.sendSig sig fun _ process => process.pgrp == pgrp

def findPid (s : System) (pid : Int) : Option Slot :=
  (List.finRange NR_TASKS).reverse.find? fun q =>
    decide (q.val ≠ 0) && (s.proc q).any fun process => decide (process.pid = pid)

/-- Whom `sys_kill` means, and may send a signal to; for 0 it takes its own number as
the group. -/
def killed (s : System) (me : Process) (pid : Int) (q : Slot) (process : Process) : Bool :=
  (me.euid == process.euid || me.euid == 0) &&
    if pid = 0 then me.pid != 0 && process.pgrp == me.pid
    else if pid = -1 then true
    else if pid < 0 then decide ((process.pgrp : Int) = -pid)
    else s.findPid pid == some q

/-- `sys_kill`, for the numbers of signals; with -1 it does not check them. -/
def kill (s : System) (me : Process) (pid : Int) (sig : Nat) : System :=
  if 1 ≤ sig ∧ sig ≤ 32 then s.sendSig sig (s.killed me pid) else s

def isOrphanedPgrp (s : System) (pgrp : Nat) : Bool :=
  (List.finRange NR_TASKS).all fun q =>
    decide (q.val = 0) || (s.proc q).all fun process =>
      process.pgrp != pgrp || decide (process.task.state = .zombie) ||
        (s.proc process.task.parent).all fun parent =>
          parent.pid == 1 || parent.pgrp == pgrp || parent.session != process.session

def hasStoppedJobs (s : System) (pgrp : Nat) : Bool :=
  (List.finRange NR_TASKS).any fun q =>
    decide (q.val ≠ 0) && (s.proc q).any fun process =>
      process.pgrp == pgrp && decide (process.task.state = .stopped)

def forsaken (s : System) (pgrp : Nat) : Bool := s.isOrphanedPgrp pgrp && s.hasStoppedJobs pgrp

def hangUp (s : System) (pgrp : Nat) : System :=
  if s.forsaken pgrp then (s.killPg pgrp SIGHUP).killPg pgrp SIGCONT else s

def raise (s : System) (q : Slot) (sig : Nat) : System :=
  s.modify q fun process => { process with task := { process.task with signal := process.task.signal ||| bit sig } }

/-- Case i of `do_exit`: our own group, when our father is outside of it. -/
def hangUpOwn (s : System) (me : Process) : System :=
  match s.proc me.task.parent with
  | some father => if father.pgrp ≠ me.pgrp ∧ father.session = me.session then s.hangUp me.pgrp else s
  | none => s

def hangUpChild (s : System) (me : Process) (q : Slot) : System :=
  match s.proc q with
  | some child => if child.pgrp ≠ me.pgrp ∧ child.session = me.session then s.hangUp child.pgrp else s
  | none => s

def wantsStops (s : System) (q : Slot) : Bool :=
  (s.proc q).any fun process => (process.task.action SIGCHLD).flags &&& SA_NOCLDSTOP == 0

def setParent (s : System) (q parent : Slot) : System :=
  s.modify q fun child => { child with task := { child.task with parent := parent } }

def isZombie (s : System) (q : Slot) : Bool := (s.proc q).any fun process => decide (process.task.state = .zombie)

def adoptChild (s : System) (q : Slot) : System :=
  let s := s.setParent q (slot 1)
  if s.isZombie q then s.raise (slot 1) SIGCHLD else s

def adopt (me : Process) : List Slot → System → System
  | [], s => s
  | q :: rest, s => adopt me rest ((s.adoptChild q).hangUpChild me q)

def splice (s : System) (p : Slot) (children : List Slot) : System :=
  (s.modify (slot 1) fun init => { init with children := children ++ init.children }).modify p fun me =>
    { me with children := [] }

def leaveTty (s : System) (me : Process) : System :=
  if me.leader then
    let s := match me.tty with
      | some n => { s.killPg (s.ttyPgrp n) SIGHUP with ttyPgrp := update s.ttyPgrp n 0 }
      | none => s
    { s with
      proc := fun q => (s.proc q).map fun process =>
        if q.val ≠ 0 ∧ process.session = me.session then { process with tty := none } else process }
  else s

def becomeZombie (s : System) (p : Slot) (me : Process) (code : Word) : System :=
  { s.set p { me with task := { me.task with state := .zombie, exitCode := code } } with
    exits := s.exits ++ [(me.id, code)] }

/-- `do_exit`, once the memory and the files are given back. -/
def exit (s : System) (p : Slot) (me : Process) (code : Word) : System :=
  let s := (s.becomeZombie p me code).hangUpOwn me
  let s := s.raise me.task.parent SIGCHLD
  let s := if me.children = [] then s else (adopt me me.children s).splice p me.children
  s.leaveTty me

/-- Which children `sys_waitpid` looks at. -/
def matchesPid (me child : Process) (pid : Int) : Bool :=
  if 0 < pid then decide ((child.pid : Int) = pid)
  else if pid = 0 then child.pgrp == me.pgrp
  else if pid ≠ -1 then decide ((child.pgrp : Int) = -pid)
  else true

def reportable (s : System) (me : Process) (pid : Int) (untraced : Bool) (q : Slot) : Bool :=
  (s.proc q).any fun child =>
    matchesPid me child pid &&
      match child.task.state with
      | .stopped => untraced && child.task.exitCode != 0
      | .zombie => true
      | .running => false

/-- One pass over the children; without anything to report the task sleeps, or
returns. -/
def waitpid (s : System) (p : Slot) (me : Process) (pid : Int) (untraced : Bool) : System :=
  match me.children.find? (s.reportable me pid untraced) with
  | none => s
  | some q =>
    match s.proc q with
    | none => s
    | some child =>
      if child.task.state = .zombie then
        { s.set p { me with waiting := .zombie q } with
          reports := s.reports ++
            [{ child := child.id, status := child.task.exitCode, reporter := p, parent := child.task.parent }] }
      else s.set p { me with waiting := .stopped q }

def release (s : System) (q : Slot) (child : Process) : System :=
  let s := s.modify child.task.parent fun father => { father with children := father.children.filter (· ≠ q) }
  { s with proc := update s.proc q none }

/-- `copy_process` -/
def fork (s : System) (p q : Slot) (me : Process) (pid : Nat) : System :=
  let child : Process :=
    { me with
      task := { me.task with signal := 0, parent := p }
      pid := pid
      leader := false
      children := []
      id := s.nextId }
  { (s.set q child).set p { me with children := q :: me.children } with nextId := s.nextId + 1 }

/-- After `put_fs_long`. -/
def stored (s : System) (p : Slot) (me : Process) : Option System :=
  match me.waiting with
  | .no => none
  | .stopped q =>
    some ((s.modify q fun child => { child with task := { child.task with exitCode := 0 } }).modify p fun me =>
      { me with waiting := .no })
  | .zombie q =>
    (s.proc q).map fun child => (s.release q child).modify p fun me => { me with waiting := .no }

def step (s : System) : Move → Option System
  | .fork p q pid =>
    (s.current p).bind fun me =>
      if s.proc q = none then some (s.fork p q me pid) else none
  | .exit p code => (s.current p).map fun me => s.exit p me code
  | .kill p pid sig => (s.current p).map fun me => s.kill me pid sig
  | .stop p signr =>
    (s.current p).map fun me =>
      let s := s.set p { me with task := { me.task with state := .stopped, exitCode := BitVec.ofNat 32 signr } }
      if s.wantsStops me.task.parent then s.raise me.task.parent SIGCHLD else s
  | .waitpid p pid untraced => (s.current p).map fun me => s.waitpid p me pid untraced
  | .stored p => (s.proc p).bind fun me => s.stored p me
  | .regroup q pgrp session leader =>
    (s.proc q).map fun process => s.set q { process with pgrp := pgrp, session := session, leader := leader }
  | .terminal q tty n pgrp =>
    (s.proc q).map fun process =>
      { s.set q { process with tty := tty } with ttyPgrp := update s.ttyPgrp n pgrp }

def boot : System where
  proc := fun q => (Tasks.init q).map fun task =>
    { task := task
      pid := 0
      pgrp := 0
      session := 0
      euid := 0
      leader := false
      tty := none
      children := []
      waiting := .no
      id := 0 }
  ttyPgrp := fun _ => 0
  nextId := 1
  exits := []
  reports := []

/-- The statuses arrive as they were: each is the code of the exit it tells of, no
exit is told of twice, and only the father at that time is told. -/
structure Intact (s : System) : Prop where
  status : ∀ report ∈ s.reports, (report.child, report.status) ∈ s.exits
  exitOnce : (s.exits.map Prod.fst).Nodup
  reportOnce : (s.reports.map Report.child).Nodup
  toParent : ∀ report ∈ s.reports, report.reporter = report.parent

/-! ## Signals that spare the zombies -/

def noZombie (s : System) (meant : Slot → Process → Bool) : Bool :=
  (List.finRange NR_TASKS).all fun q =>
    (s.proc q).all fun process =>
      decide (q.val = 0) || !meant q process || !decide (process.task.state = .zombie)

def hangUpSpares (s : System) (pgrp : Nat) : Bool :=
  !s.forsaken pgrp || s.noZombie fun _ process => process.pgrp == pgrp

def ownSpares (s : System) (me : Process) : Bool :=
  match s.proc me.task.parent with
  | some father => if father.pgrp ≠ me.pgrp ∧ father.session = me.session then s.hangUpSpares me.pgrp else true
  | none => true

def childSpares (s : System) (me : Process) (q : Slot) : Bool :=
  match s.proc q with
  | some child =>
    if child.pgrp ≠ me.pgrp ∧ child.session = me.session then s.hangUpSpares child.pgrp else true
  | none => true

def adoptSpares (me : Process) : List Slot → System → Bool
  | [], _ => true
  | q :: rest, s =>
    (s.adoptChild q).childSpares me q && adoptSpares me rest ((s.adoptChild q).hangUpChild me q)

/-- The groups that `do_exit` continues have no zombie, the exiting task included. -/
def exitSpares (s : System) (p : Slot) (me : Process) (code : Word) : Bool :=
  let s := s.becomeZombie p me code
  s.ownSpares me && adoptSpares me me.children ((s.hangUpOwn me).raise me.task.parent SIGCHLD)

def storeSpares (s : System) (me : Process) : Bool :=
  match me.waiting with
  | .stopped q => !s.isZombie q
  | _ => true

/-- No SIGKILL and no SIGCONT reaches a zombie, and no child has exited when
`sys_waitpid` takes back that it was stopped. -/
def Spares (s : System) : Move → Prop
  | .exit p code => ∀ me ∈ s.current p, s.exitSpares p me code = true
  | .kill p pid sig => ∀ me ∈ s.current p, sig = SIGKILL ∨ sig = SIGCONT → s.noZombie (s.killed me pid) = true
  | .stored p => ∀ me ∈ s.proc p, s.storeSpares me = true
  | _ => True

instance (s : System) (m : Move) : Decidable (s.Spares m) := by
  cases m <;> unfold Spares <;> infer_instance

end System

end Linux012.Kernel.Exit

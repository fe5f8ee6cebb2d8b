import Linux012.Fs.Descriptors

/-! The counts of the file table: `sys_open` and `sys_close` of `fs/open.c`, `fs/fcntl.c`,
`sys_pipe`, and what `fork`, `exec` and `exit` do to the files of a task. The calls run
one after the other; what the rest of a call comes to is given. -/

set_option autoImplicit false

namespace Linux012.Fs.FileTable

open Function

open Descriptors (NR_OPEN NR_FILE)

/-- `count` is a `short`. The inode is a reference to one, which `iput` drops; the
references are numbered. -/
structure File where
  count : Nat
  inode : Nat
deriving DecidableEq

/-- The file table, the tasks with their `filp` and `close_on_exec`, the number of
references that were taken, and those that were dropped. -/
structure State where
  file : Fin NR_FILE → File
  live : Fin Descriptors.NR_TASKS → Bool
  filp : Fin Descriptors.NR_TASKS → Fin NR_OPEN → Option (Fin NR_FILE)
  closeOnExec : Fin Descriptors.NR_TASKS → Fin NR_OPEN → Bool
  taken : Nat
  dropped : List Nat
  panicked : Bool

inductive Opened where
  | failed
  | ttyBusy
  | done
deriving DecidableEq

inductive Move where
  /-- also `sys_creat` -/
  | open (p : Fin Descriptors.NR_TASKS) (opened : Opened)
  | close (p : Fin Descriptors.NR_TASKS) (fd : Nat)
  | dup (p : Fin Descriptors.NR_TASKS) (fildes : Nat)
  | dup2 (p : Fin Descriptors.NR_TASKS) (oldfd newfd : Nat)
  /-- `F_DUPFD` -/
  | dupFd (p : Fin Descriptors.NR_TASKS) (fd arg : Nat)
  /-- `F_SETFD` -/
  | setFd (p : Fin Descriptors.NR_TASKS) (fd : Nat) (close : Bool)
  /-- with or without an inode from `get_pipe_inode` -/
  | pipe (p : Fin Descriptors.NR_TASKS) (inode : Bool)
  | fork (p q : Fin Descriptors.NR_TASKS) (memory : Bool)
  /-- `do_execve`, up to or past the point of no return -/
  | exec (p : Fin Descriptors.NR_TASKS) (returns : Bool)
  | exit (p : Fin Descriptors.NR_TASKS)
deriving DecidableEq

namespace State

def setFilp (s : State) (p : Fin Descriptors.NR_TASKS) (fd : Fin NR_OPEN) (f : Option (Fin NR_FILE)) : State :=
  { s with filp := update s.filp p (update (s.filp p) fd f) }

def setClose (s : State) (p : Fin Descriptors.NR_TASKS) (fd : Fin NR_OPEN) (close : Bool) : State :=
  { s with closeOnExec := update s.closeOnExec p (update (s.closeOnExec p) fd close) }

def setCount (s : State) (f : Fin NR_FILE) (count : Nat) : State :=
  { s with file := update s.file f { s.file f with count := count } }

def increment (s : State) (f : Fin NR_FILE) : State := s.setCount f (((s.file f).count + 1) % 2 ^ 16)

def take (s : State) (f : Fin NR_FILE) : State :=
  { s with
    file := update s.file f { s.file f with inode := s.taken }
    taken := s.taken + 1 }

def iput (s : State) (inode : Nat) : State := { s with dropped := s.dropped ++ [inode] }

def freeFile (s : State) : Option (Fin NR_FILE) :=
  (List.finRange NR_FILE).find? fun f => decide ((s.file f).count = 0)

def freeFd (s : State) (p : Fin Descriptors.NR_TASKS) (arg : Nat) : Option (Fin NR_OPEN) :=
  (List.finRange NR_OPEN).find? fun fd => decide (arg ≤ fd.val ∧ s.filp p fd = none)

/-- The end of `sys_open`: `open_namei` has taken a reference if it did not fail, and
only a tty can be busy. -/
def finishOpen (s : State) (p : Fin Descriptors.NR_TASKS) (fd : Fin NR_OPEN) (f : Fin NR_FILE) : Opened → State
  | .failed => (s.setFilp p fd none).setCount f 0
  | .ttyBusy => (({ s with taken := s.taken + 1 }.iput s.taken).setFilp p fd none).setCount f 0
  | .done => (s.setCount f 1).take f

def sysOpen (s : State) (p : Fin Descriptors.NR_TASKS) (opened : Opened) : State :=
  match s.freeFd p 0 with
  | none => s
  | some fd =>
    let s := s.setClose p fd false
    match s.freeFile with
    | none => s
    | some f => ((s.setFilp p fd (some f)).increment f).finishOpen p fd f opened

/-- The end of `sys_close`: the inode is dropped with the last descriptor. -/
def closeFile (s : State) (f : Fin NR_FILE) : State :=
  if (s.file f).count = 0 then { s with panicked := true }
  else if (s.file f).count - 1 ≠ 0 then s.setCount f ((s.file f).count - 1)
  else (s.setCount f 0).iput (s.file f).inode

def closeFd (s : State) (p : Fin Descriptors.NR_TASKS) (fd : Fin NR_OPEN) : State :=
  let s := s.setClose p fd false
  match s.filp p fd with
  | none => s
  | some f => (s.setFilp p fd none).closeFile f

def descriptor (fd : Nat) : Option (Fin NR_OPEN) := if small : fd < NR_OPEN then some ⟨fd, small⟩ else none

def sysClose (s : State) (p : Fin Descriptors.NR_TASKS) (fd : Nat) : State :=
  match descriptor fd with
  | none => s
  | some fd => s.closeFd p fd

def dupfd (s : State) (p : Fin Descriptors.NR_TASKS) (fd arg : Nat) : State :=
  match (descriptor fd).bind (s.filp p) with
  | none => s
  | some f =>
    match s.freeFd p arg with
    | none => s
    | some arg => ((s.setClose p arg false).setFilp p arg (some f)).increment f

def setFd (s : State) (p : Fin Descriptors.NR_TASKS) (fd : Nat) (close : Bool) : State :=
  match descriptor fd with
  | none => s
  | some fd => if s.filp p fd = none then s else s.setClose p fd close

/-- The descriptors of `sys_pipe`, once it has two files. -/
def pipeFds (s : State) (p : Fin Descriptors.NR_TASKS) (f₀ f₁ : Fin NR_FILE) (inode : Bool) : State :=
  match s.freeFd p 0 with
  | none => (s.setCount f₀ 0).setCount f₁ 0
  | some fd₀ =>
    let s := s.setFilp p fd₀ (some f₀)
    match s.freeFd p 0 with
    | none => ((s.setFilp p fd₀ none).setCount f₀ 0).setCount f₁ 0
    | some fd₁ =>
      let s := s.setFilp p fd₁ (some f₁)
      if inode then (s.take f₀).take f₁
      else (((s.setFilp p fd₀ none).setFilp p fd₁ none).setCount f₀ 0).setCount f₁ 0

def sysPipe (s : State) (p : Fin Descriptors.NR_TASKS) (inode : Bool) : State :=
  match s.freeFile with
  | none => s
  | some f₀ =>
    let s := s.increment f₀
    match s.freeFile with
    | none => s.setCount f₀ 0
    | some f₁ => (s.increment f₁).pipeFds p f₀ f₁ inode

/-- The loop of `copy_process` over the files of the new task. -/
def countFiles (q : Fin Descriptors.NR_TASKS) : List (Fin NR_OPEN) → State → State
  | [], s => s
  | fd :: rest, s =>
    countFiles q rest (match s.filp q fd with
      | some f => s.increment f
      | none => s)

/-- `copy_process`: the new task is a copy of its father. -/
def fork (s : State) (p q : Fin Descriptors.NR_TASKS) : State :=
  countFiles q (List.finRange NR_OPEN)
    { s with
      live := update s.live q true
      filp := update s.filp q (s.filp p)
      closeOnExec := update s.closeOnExec q (s.closeOnExec p) }

def closeMarked (p : Fin Descriptors.NR_TASKS) : List (Fin NR_OPEN) → State → State
  | [], s => s
  | fd :: rest, s => closeMarked p rest (if s.closeOnExec p fd then s.closeFd p fd else s)

def exec (s : State) (p : Fin Descriptors.NR_TASKS) : State :=
  let s := closeMarked p (List.finRange NR_OPEN) s
  { s with closeOnExec := update s.closeOnExec p fun _ => false }

def closeOpen (p : Fin Descriptors.NR_TASKS) : List (Fin NR_OPEN) → State → State
  | [], s => s
  | fd :: rest, s => closeOpen p rest (if s.filp p fd ≠ none then s.closeFd p fd else s)

def exit (s : State) (p : Fin Descriptors.NR_TASKS) : State :=
  let s := closeOpen p (List.finRange NR_OPEN) s
  { s with live := update s.live p false }

def step (s : State) (m : Move) : Option State :=
  if s.panicked then none
  else
    match m with
    | .open p opened => if s.live p then some (s.sysOpen p opened) else none
    | .close p fd => if s.live p then some (s.sysClose p fd) else none
    | .dup p fildes => if s.live p then some (s.dupfd p fildes 0) else none
    | .dup2 p oldfd newfd => if s.live p then some ((s.sysClose p newfd).dupfd p oldfd newfd) else none
    | .dupFd p fd arg => if s.live p then some (s.dupfd p fd arg) else none
    | .setFd p fd close => if s.live p then some (s.setFd p fd close) else none
    | .pipe p inode => if s.live p then some (s.sysPipe p inode) else none
    | .fork p q memory =>
      if s.live p ∧ s.live q = false then some (if memory then s.fork p q else s) else none
    | .exec p returns => if s.live p then some (if returns then s else s.exec p) else none
    | .exit p => if s.live p then some (s.exit p) else none

def init : State where
  file := fun _ => { count := 0, inode := 0 }
  live := fun p => p.val == 0
  filp := fun _ _ => none
  closeOnExec := fun _ _ => false
  taken := 0
  dropped := []
  panicked := false

end State

end Linux012.Fs.FileTable

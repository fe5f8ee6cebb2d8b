import Linux012.Lib.Counting
import Linux012.Lib.Transition
import Mathlib.Data.BitVec

/-! File descriptors, the file table and the access checks of `open`: `fs/open.c`,
`fs/fcntl.c`, `fs/read_write.c` and `open_namei`. The walk along a path is left
out, its outcome is given. Each system call runs to its end. -/

set_option autoImplicit false

namespace Linux012.Fs.Descriptors

open Counting Transition Function

def NR_TASKS : Nat := 64
def NR_OPEN : Nat := 20
def NR_FILE : Nat := 64

abbrev Word := BitVec 32

def O_ACCMODE : Word := 0o3
def O_RDONLY : Word := 0o0
def O_WRONLY : Word := 0o1
def O_RDWR : Word := 0o2
def O_CREAT : Word := 0o100
def O_EXCL : Word := 0o200
def O_TRUNC : Word := 0o1000
def O_APPEND : Word := 0o2000
def O_NONBLOCK : Word := 0o4000

def S_IFMT : Word := 0o170000
def S_IFREG : Word := 0o100000
def S_IFBLK : Word := 0o060000
def S_IFDIR : Word := 0o040000
def S_IFCHR : Word := 0o020000

def MAY_WRITE : Word := 2
def MAY_READ : Word := 4

/-- `ACC_MODE(x)`; the last character of its string is `-1` as an `int`. -/
def accMode (flag : Word) : Word :=
  if flag &&& O_ACCMODE = O_RDONLY then 4
  else if flag &&& O_ACCMODE = O_WRONLY then 2
  else if flag &&& O_ACCMODE = O_RDWR then 6
  else -1

structure Inode where
  mode : Word
  uid : Nat
  gid : Nat
  dev : Nat
  nlinks : Nat
  size : Nat
  data : Nat → UInt8

def Inode.isReg (inode : Inode) : Bool := inode.mode &&& S_IFMT = S_IFREG
def Inode.isDir (inode : Inode) : Bool := inode.mode &&& S_IFMT = S_IFDIR
def Inode.isChr (inode : Inode) : Bool := inode.mode &&& S_IFMT = S_IFCHR

structure Task where
  euid : Nat
  egid : Nat
  groups : List Nat
  umask : Word

def Task.suser (task : Task) : Bool := task.euid = 0

def Task.inGroup (task : Task) (gid : Nat) : Bool := gid = task.egid || task.groups.contains gid

def permission (task : Task) (inode : Inode) (mask : Word) : Bool :=
  if inode.dev ≠ 0 ∧ inode.nlinks = 0 then false
  else
    let mode :=
      if task.euid = inode.uid then inode.mode >>> 6
      else if task.inGroup inode.gid then inode.mode >>> 3
      else inode.mode
    mode &&& mask &&& 7 = mask || task.suser

inductive Target where
  | inode (i : Nat)
  | pipe
deriving DecidableEq

structure File where
  mode : Word
  flags : Word
  count : Nat
  target : Target
  pos : Nat

inductive Found where
  /-- it was there, and its permissions were checked -/
  | existing
  | created
  | directory
deriving DecidableEq

/-- What the `open` that made a descriptor asked for, and what `permission` said
of its inode then. Not in the source. -/
structure Origin where
  flags : Word
  found : Found
  mayRead : Bool
  mayWrite : Bool
deriving DecidableEq

structure Descriptor where
  file : Fin NR_FILE
  origin : Option Origin
deriving DecidableEq

structure State where
  inode : Nat → Inode
  file : Fin NR_FILE → File
  filp : Fin NR_TASKS × Fin NR_OPEN → Option Descriptor
  task : Fin NR_TASKS → Option Task

inductive Lookup where
  | noDir
  | slash (dir : Nat)
  /-- no such entry; what `new_inode` would give, and whether `add_entry` works -/
  | missing (dir : Nat) (new : Option Nat) (added : Bool)
  /-- the inode behind the entry, if links lead to one -/
  | found (inode : Option Nat)

def Inode.truncate (inode : Inode) : Inode := { inode with size := 0, data := fun _ => 0 }

def State.unopened (s : State) (i : Nat) : Prop :=
  ∀ f, (s.file f).count ≠ 0 → (s.file f).target ≠ .inode i

instance (s : State) (i : Nat) : Decidable (s.unopened i) := inferInstanceAs (Decidable (∀ _, _))

def Lookup.fresh (s : State) : Lookup → Bool
  | .missing _ (some i) _ => s.unopened i
  | _ => true

/-- `open_namei`: the inode and how it was found. -/
def openNamei (s : State) (task : Task) (lookup : Lookup) (flag mode : Word) :
    State × Option (Nat × Found) :=
  let flag := if flag &&& O_TRUNC ≠ 0 ∧ flag &&& O_ACCMODE = 0 then flag ||| O_WRONLY else flag
  let mode := mode &&& (0o777 &&& ~~~task.umask) ||| S_IFREG
  match lookup with
  | .noDir => (s, none)
  | .slash dir =>
    if flag &&& (O_ACCMODE ||| O_CREAT ||| O_TRUNC) = 0 then (s, some (dir, .directory)) else (s, none)
  | .missing dir new added =>
    if flag &&& O_CREAT = 0 then (s, none)
    else if permission task (s.inode dir) MAY_WRITE = false then (s, none)
    else
      match new with
      | none => (s, none)
      | some i =>
        if added = false then (s, none)
        else
          let inode :=
            { mode := mode
              uid := task.euid
              gid := task.egid
              dev := (s.inode dir).dev
              nlinks := 1
              size := 0
              data := fun _ => 0 }
          ({ s with inode := update s.inode i inode }, some (i, .created))
  | .found inode =>
    if flag &&& O_EXCL ≠ 0 then (s, none)
    else
      match inode with
      | none => (s, none)
      | some i =>
        if (s.inode i).isDir ∧ flag &&& O_ACCMODE ≠ 0 then (s, none)
        else if permission task (s.inode i) (accMode flag) = false then (s, none)
        else if flag &&& O_TRUNC ≠ 0 then
          ({ s with inode := update s.inode i (s.inode i).truncate }, some (i, .existing))
        else (s, some (i, .existing))

def State.firstFree (s : State) (p : Fin NR_TASKS) (arg : Nat) : Option (Fin NR_OPEN) :=
  (List.finRange NR_OPEN).find? fun fd => arg ≤ fd.val ∧ s.filp (p, fd) = none

def State.freeFile (s : State) : Option (Fin NR_FILE) :=
  (List.finRange NR_FILE).find? fun f => (s.file f).count = 0

/-- `current->filp[fd] = f`, with the reference counted. -/
def State.attach (s : State) (x : Fin NR_TASKS × Fin NR_OPEN) (d : Descriptor) : State :=
  { s with
    filp := update s.filp x (some d)
    file := update s.file d.file
      { s.file d.file with count := (s.file d.file).count + 1 } }

/-- `sys_open`; `ttyBusy` is what `check_char_dev` says. -/
def sysOpen (s : State) (p : Fin NR_TASKS) (task : Task) (lookup : Lookup) (flag mode : Word)
    (ttyBusy : Bool) : State :=
  let mode := mode &&& (0o777 &&& ~~~task.umask)
  match s.firstFree p 0, s.freeFile with
  | some fd, some f =>
    match openNamei s task lookup flag mode with
    | (s, none) => s
    | (s, some (i, found)) =>
      let inode := s.inode i
      if inode.isChr ∧ ttyBusy then s
      else
        let file :=
          { mode := inode.mode, flags := flag, count := 0, target := .inode i, pos := 0 }
        let origin :=
          { flags := flag
            found := found
            mayRead := permission task inode MAY_READ
            mayWrite := permission task inode MAY_WRITE }
        { s with file := update s.file f file }.attach (p, fd) ⟨f, some origin⟩
  | _, _ => s

def sysClose (s : State) (p : Fin NR_TASKS) (fd : Fin NR_OPEN) : State :=
  match s.filp (p, fd) with
  | none => s
  | some d =>
    { s with
      filp := update s.filp (p, fd) none
      file := update s.file d.file
        { s.file d.file with count := (s.file d.file).count - 1 } }

def dupfd (s : State) (p : Fin NR_TASKS) (fd : Fin NR_OPEN) (arg : Nat) : State :=
  match s.filp (p, fd), s.firstFree p arg with
  | some d, some fd' => s.attach (p, fd') d
  | _, _ => s

/-- `F_SETFL` -/
def setFlags (s : State) (p : Fin NR_TASKS) (fd : Fin NR_OPEN) (arg : Word) : State :=
  match s.filp (p, fd) with
  | none => s
  | some d =>
    let flags := (s.file d.file).flags &&& ~~~(O_APPEND ||| O_NONBLOCK) ||| (arg &&& (O_APPEND ||| O_NONBLOCK))
    { s with file := update s.file d.file { s.file d.file with flags := flags } }

def State.setPos (s : State) (f : Fin NR_FILE) (pos : Nat) : State :=
  { s with file := update s.file f { s.file f with pos := pos } }

def State.pipeEnd (s : State) (p : Fin NR_TASKS) (mode : Word) : Option State :=
  match s.firstFree p 0, s.freeFile with
  | some fd, some f =>
    let file := { mode := mode, flags := (s.file f).flags, count := 0, target := .pipe, pos := 0 }
    some ({ s with file := update s.file f file }.attach (p, fd) ⟨f, none⟩)
  | _, _ => none

def sysPipe (s : State) (p : Fin NR_TASKS) : State :=
  ((s.pipeEnd p 1).bind fun s => s.pipeEnd p 2).getD s

/-- The loop of `copy_process` over the open files. -/
def copyFiles (p q : Fin NR_TASKS) : List (Fin NR_OPEN) → State → State
  | [], s => s
  | fd :: rest, s =>
    match s.filp (p, fd) with
    | none => copyFiles p q rest s
    | some d => copyFiles p q rest (s.attach (q, fd) d)

def closeFiles (p : Fin NR_TASKS) : List (Fin NR_OPEN) → State → State
  | [], s => s
  | fd :: rest, s => closeFiles p rest (sysClose s p fd)

/-- `sys_read`: the bytes it returns. `loaded` bounds what can be read before an
error of the disk. -/
def sysRead (s : State) (p : Fin NR_TASKS) (fd : Fin NR_OPEN) (count loaded : Nat) : State × List UInt8 :=
  match s.filp (p, fd) with
  | none => (s, [])
  | some d =>
    match (s.file d.file).target with
    | .pipe => (s, [])
    | .inode i =>
      if (s.inode i).isDir ∨ (s.inode i).isReg then
        let pos := (s.file d.file).pos
        let count := min (min count loaded) ((s.inode i).size - pos)
        (s.setPos d.file (pos + count), (List.range count).map fun k => (s.inode i).data (pos + k))
      else (s, [])

def Inode.store (inode : Inode) (pos : Nat) (buf : List UInt8) : Inode :=
  { inode with
    size := max inode.size (pos + buf.length)
    data := fun k => if pos ≤ k ∧ k < pos + buf.length then buf.getD (k - pos) 0 else inode.data k }

/-- `sys_write`; the disk has room for `room` of the bytes. -/
def sysWrite (s : State) (p : Fin NR_TASKS) (fd : Fin NR_OPEN) (buf : List UInt8) (room : Nat) : State :=
  match s.filp (p, fd) with
  | none => s
  | some d =>
    let file := s.file d.file
    match file.target with
    | .pipe => s
    | .inode i =>
      if (s.inode i).isReg then
        let written := buf.take room
        if written = [] then s
        else
          let append := file.flags &&& O_APPEND ≠ 0
          let pos := if append then (s.inode i).size else file.pos
          let s := { s with inode := update s.inode i ((s.inode i).store pos written) }
          if append then s else s.setPos d.file (pos + written.length)
      else s

inductive Move where
  | open (p : Fin NR_TASKS) (lookup : Lookup) (flag mode : Word) (ttyBusy : Bool)
  | close (p : Fin NR_TASKS) (fd : Fin NR_OPEN)
  | dup (p : Fin NR_TASKS) (fd : Fin NR_OPEN) (arg : Nat)
  | dup2 (p : Fin NR_TASKS) (oldfd newfd : Fin NR_OPEN)
  | setFlags (p : Fin NR_TASKS) (fd : Fin NR_OPEN) (arg : Word)
  | lseek (p : Fin NR_TASKS) (fd : Fin NR_OPEN) (pos : Nat)
  | pipe (p : Fin NR_TASKS)
  | fork (p q : Fin NR_TASKS)
  /-- the files that are closed on `exec` -/
  | exec (p : Fin NR_TASKS) (closed : List (Fin NR_OPEN))
  | exit (p : Fin NR_TASKS)
  | read (p : Fin NR_TASKS) (fd : Fin NR_OPEN) (count loaded : Nat)
  | write (p : Fin NR_TASKS) (fd : Fin NR_OPEN) (buf : List UInt8) (room : Nat)
  /-- `chmod`, `chown`, `link`, `unlink` and such: an inode keeps its type -/
  | change (i : Nat) (inode : Inode)
  | setCred (p : Fin NR_TASKS) (task : Task)

def State.step (s : State) : Move → Option State
  | .open p lookup flag mode ttyBusy =>
    (s.task p).bind fun task =>
      if lookup.fresh s then
        some (sysOpen s p task lookup flag mode ttyBusy)
      else none
  | .close p fd => some (sysClose s p fd)
  | .dup p fd arg => some (dupfd s p fd arg)
  | .dup2 p oldfd newfd => some (dupfd (sysClose s p newfd) p oldfd newfd.val)
  | .setFlags p fd arg => some (setFlags s p fd arg)
  | .lseek p fd pos => (s.filp (p, fd)).map fun d => s.setPos d.file pos
  | .pipe p => (s.task p).map fun _ => sysPipe s p
  | .fork p q =>
    (s.task p).bind fun task =>
      if s.task q = none then
        some { copyFiles p q (List.finRange NR_OPEN) s with task := update s.task q (some task) }
      else none
  | .exec p closed => some (closeFiles p closed s)
  | .exit p =>
    some { closeFiles p (List.finRange NR_OPEN) s with task := update s.task p none }
  | .read p fd count loaded => some (sysRead s p fd count loaded).1
  | .write p fd buf room => some (sysWrite s p fd buf room)
  | .change i inode =>
    if inode.mode &&& S_IFMT = (s.inode i).mode &&& S_IFMT then
      some { s with inode := update s.inode i inode }
    else none
  | .setCred p task => (s.task p).map fun _ => { s with task := update s.task p (some task) }

def State.init (inode : Nat → Inode) : State where
  inode := inode
  file := fun _ => { mode := 0, flags := 0, count := 0, target := .pipe, pos := 0 }
  filp := fun _ => none
  task := fun p => if p.val = 0 then some { euid := 0, egid := 0, groups := [], umask := 0 } else none

end Linux012.Fs.Descriptors

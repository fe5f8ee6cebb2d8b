import Linux012.Fs.NamingCalls
import Linux012.Fs.ReadWrite
import Linux012.Fs.Truncate

/-! The calls that create names, on one file system with its bitmaps, by one process and
without errors of the disk. Where paths lead is up to each call, and nothing is mounted on
the file system. -/

set_option autoImplicit false

namespace Linux012.Fs.Creation

open Bitmap ZoneTree Function
open EntryBlocks (Dir setInode)
open Truncate (Mode S_IFMT S_IFREG S_IFDIR S_IFLNK S_ISREG S_ISDIR S_ISLNK)
open Naming (EPERM ENOENT EACCES EEXIST EISDIR ENOSPC O_ACCMODE O_WRONLY O_CREAT O_EXCL O_TRUNC accMode)
open Namei (Byte permission MAY_EXEC MAY_WRITE)
open ReadWrite (setBytes)

def EAGAIN : Int := 11
def EINVAL : Int := 22

def S_IFBLK : Mode := 0o060000
def S_IFCHR : Mode := 0o020000

def S_ISBLK (m : Mode) : Bool := m &&& S_IFMT == S_IFBLK
def S_ISCHR (m : Mode) : Bool := m &&& S_IFMT == S_IFCHR

structure Inode where
  mode : Mode
  uid : Nat
  gid : Nat
  nlinks : Nat
  count : Nat
  size : Nat
  zone : Fin 9 → Nat
  atime : Nat
  mtime : Nat
  ctime : Nat
  dirt : Bool

def Inode.clear : Inode :=
  { mode := 0, uid := 0, gid := 0, nlinks := 0, count := 0, size := 0, zone := fun _ => 0, atime := 0, mtime := 0,
    ctime := 0, dirt := false }

structure System where
  dev : Nat
  volume : Volume Index
  inode : Nat → Inode
  /-- what the coming calls of `getblk` find on the free list -/
  free : Nat → Reuse Index
  time : Nat

inductive Stop where
  | panic (p : Panic)
  /-- `iput: trying to free free inode` -/
  | freeInode
  /-- `truncate` goes on, until somebody else releases a buffer -/
  | busy
deriving DecidableEq

abbrev Kernel := StateT System (Except Stop)

namespace System

def put (s : System) (n : Nat) (inode : Inode) : System := { s with inode := update s.inode n inode }

def dir (s : System) (n : Nat) : Dir where
  volume := s.volume
  zone := (s.inode n).zone
  dirt := (s.inode n).dirt
  ctime := (s.inode n).ctime
  free := s.free
  size := (s.inode n).size
  mtime := (s.inode n).mtime

def putDir (s : System) (n : Nat) (d : Dir) : System :=
  { s.put n { s.inode n with zone := d.zone, dirt := d.dirt, ctime := d.ctime, size := d.size, mtime := d.mtime } with
    volume := d.volume, free := d.free }

/-- The inode as `truncate` has it; nobody else uses its blocks. -/
def file (s : System) (n : Nat) : Truncate.State where
  volume := s.volume
  zone := (s.inode n).zone
  dirt := (s.inode n).dirt
  ctime := (s.inode n).ctime
  free := s.free
  mode := (s.inode n).mode
  size := (s.inode n).size
  mtime := (s.inode n).mtime
  holders := []
  printed := false

def putFile (s : System) (n : Nat) (t : Truncate.State) : System :=
  { s.put n { s.inode n with zone := t.zone, dirt := t.dirt, ctime := t.ctime, size := t.size, mtime := t.mtime } with
    volume := t.volume, free := t.free }

end System

def sync (v : Volume Index) : Volume Index where
  sb := v.sb
  cache := fun block => (v.cache block).map fun bh => { bh with dirt := false }
  disk := fun block => (v.cache block).elim (v.disk block) fun bh => if bh.dirt then bh.data else v.disk block

/-! ## Inodes -/

def inodeOf (n : Nat) : Kernel Inode := fun s => .ok (s.inode n, s)

def setInode (n : Nat) (f : Inode → Inode) : Kernel Unit := fun s => .ok ((), s.put n (f (s.inode n)))

def hold (n : Nat) : Kernel Unit := setInode n fun inode => { inode with count := inode.count + 1 }

def panicking {α β : Type} (x : Except Panic α) (f : α → β) : Except Stop β :=
  match x with
  | .ok a => .ok (f a)
  | .error p => .error (.panic p)

def truncate (n : Nat) : Kernel Unit := fun s =>
  match (s.file n).truncate s.time 1 with
  | .ok (some t) => .ok ((), s.putFile n t)
  | .ok none => .error .busy
  | .error p => .error (.panic p)

def freeInode (n : Nat) : Kernel Unit := fun s =>
  let inode := s.inode n
  panicking (s.volume.freeInode ⟨inode.count, inode.nlinks, s.dev, inode.uid, inode.gid, inode.dirt, n, inode.mtime⟩)
    fun freed => ((), { s.put n .clear with volume := freed.2 })

def iput (n : Nat) : Kernel Unit := do
  let inode ← inodeOf n
  if inode.count = 0 then throw .freeInode
  else do
    if S_ISBLK inode.mode then
      modify fun s => if inode.zone 0 = s.dev then { s with volume := sync s.volume } else s
    if 1 < inode.count then setInode n fun inode => { inode with count := inode.count - 1 }
    else if inode.nlinks = 0 then do
      truncate n
      freeInode n
    else setInode n fun inode => { inode with count := inode.count - 1, dirt := false }

def newInode (task : Namei.Task Nat) : Kernel (Option Nat) := fun s =>
  panicking (s.volume.newInode s.dev task.euid task.egid s.time) fun got =>
    match got.1 with
    | none => (none, { s with volume := got.2 })
    | some i =>
      let inode : Inode :=
        { Inode.clear with
          count := i.count, nlinks := i.nlinks, uid := i.uid, gid := i.gid, dirt := i.dirt
          mtime := i.time, atime := i.time, ctime := i.time }
      (some i.num, { s.put i.num inode with volume := got.2 })

/-! ## Blocks and entries -/

def newBlock : Kernel Nat := fun s =>
  panicking (s.volume.newBlock (s.free 0)) fun made =>
    (made.1, { s with volume := made.2, free := fun i => s.free (i + 1) })

def fillBlock (block : Nat) (f : Index → Index) : Kernel Unit := fun s =>
  .ok ((), { s with
    volume := ((s.volume.bread block (s.free 0)).2.store block f).brelse block, free := fun i => s.free (i + 1) })

def brelse (block : Nat) : Kernel Unit := fun s => .ok ((), { s with volume := s.volume.brelse block })

def findEntry (task : Namei.Task Nat) (dir : Nat) (name : List Byte) : Kernel (Option (Nat × Nat)) := fun s =>
  panicking ((s.dir dir).findEntry ⟨dir = task.root, none⟩ s.time name) fun got => (got.1, s.putDir dir got.2)

def addEntry (dir : Nat) (name : List Byte) : Kernel (Option (Nat × Nat)) := fun s =>
  panicking ((s.dir dir).addEntry s.time name) fun got => (got.1, s.putDir dir got.2)

def entryInode (dir : Nat) (place : Nat × Nat) : Kernel Nat := fun s =>
  .ok (((s.dir dir).load place.1 place.2).inode, s)

def enter (dir : Nat) (place : Nat × Nat) (num : Nat) : Kernel Unit := fun s =>
  .ok ((), s.putDir dir ((s.dir dir).fill place num))

def permit (task : Namei.Task Nat) (inode : Inode) (mask : Nat) : Bool :=
  permission task
    { data := { InodeTable.DInode.zero with
        mode := inode.mode.toNat, uid := inode.uid, gid := inode.gid, nlinks := inode.nlinks }
      dev := 1
      num := 0 } mask

/-! ## Calls -/

inductive Kind where
  /-- `sys_open`; `room` says whether a descriptor and a file are free, `linked` where a symbolic
  link leads, and `busy` what `check_char_dev` returns -/
  | creat (flag mode : Nat) (room : Bool) (linked : Option Nat) (busy : Bool)
  | mknod (mode dev : Nat)
  | mkdir (mode : Nat)
  | symlink (oldname : List Byte)
  /-- `old` is where the old name leads -/
  | link (old : Option Nat)

structure Call where
  kind : Kind
  task : Namei.Task Nat
  /-- where `dir_namei` leads, and the last component of the path -/
  dir : Option Nat
  name : List Byte

def reach : Option Nat → Kernel (Option Nat)
  | none => pure none
  | some n => do
    hold n
    pure (some n)

/-- The last step of `get_dir`, in the directory that it comes to. -/
def dirNamei (call : Call) : Kernel (Option Nat) := do
  match ← reach call.dir with
  | none => pure none
  | some dir => do
    let inode ← inodeOf dir
    if S_ISDIR inode.mode ∧ permit call.task inode MAY_EXEC then pure (some dir)
    else do
      iput dir
      pure none

def inDirectory (call : Call) (noDir noName noWrite : Int) (rest : Nat → Kernel Int) : Kernel Int := do
  match ← dirNamei call with
  | none => pure noDir
  | some dir =>
    if call.name = [] then do
      iput dir
      pure noName
    else do
      let inode ← inodeOf dir
      if permit call.task inode MAY_WRITE then rest dir
      else do
        iput dir
        pure noWrite

def setNlinks (n : Nat) (f : Nat → Nat) : Kernel Unit :=
  setInode n fun inode => { inode with nlinks := f inode.nlinks }

def increment (nlinks : Nat) : Nat := (nlinks + 1) % 256
def decrement (nlinks : Nat) : Nat := (nlinks + 255) % 256

def masked (task : Namei.Task Nat) (mode : Nat) : Mode :=
  BitVec.ofNat 16 mode &&& 0o777 &&& ~~~BitVec.ofNat 16 task.umask

def sysMknod (call : Call) (mode dev : Nat) : Kernel Int :=
  if call.task.euid ≠ 0 then pure (-EPERM)
  else inDirectory call (-ENOENT) (-ENOENT) (-EPERM) fun dir => do
    match ← findEntry call.task dir call.name with
    | some place => do
      brelse place.1
      iput dir
      pure (-EEXIST)
    | none =>
      match ← newInode call.task with
      | none => do
        iput dir
        pure (-ENOSPC)
      | some num => do
        let m := BitVec.ofNat 16 mode
        setInode num fun inode =>
          { inode with
            mode := m
            zone := if S_ISBLK m || S_ISCHR m then update inode.zone 0 (dev % 65536) else inode.zone
            dirt := true }
        match ← addEntry dir call.name with
        | none => do
          iput dir
          setNlinks num fun _ => 0
          iput num
          pure (-ENOSPC)
        | some place => do
          enter dir place num
          iput dir
          iput num
          pure 0

def dotEntries (num parent : Nat) (data : Index) : Index :=
  setBytes 18 3 (fun i => [46, 46, 0].getD i 0)
    (EntryBlocks.setInode 1 parent (setBytes 2 2 (fun i => [46, 0].getD i 0) (EntryBlocks.setInode 0 num data)))

def sysMkdir (call : Call) (mode : Nat) : Kernel Int :=
  inDirectory call (-ENOENT) (-ENOENT) (-EPERM) fun dir => do
    match ← findEntry call.task dir call.name with
    | some place => do
      brelse place.1
      iput dir
      pure (-EEXIST)
    | none =>
      match ← newInode call.task with
      | none => do
        iput dir
        pure (-ENOSPC)
      | some num => do
        setInode num fun inode => { inode with size := 32, dirt := true }
        let block ← newBlock
        setInode num fun inode => { inode with zone := update inode.zone 0 block }
        if block = 0 then do
          iput dir
          setNlinks num decrement
          iput num
          pure (-ENOSPC)
        else do
          fillBlock block (dotEntries num dir)
          setInode num fun inode =>
            { inode with nlinks := 2, mode := S_IFDIR ||| masked call.task mode, dirt := true }
          match ← addEntry dir call.name with
          | none => do
            iput dir
            setNlinks num fun _ => 0
            iput num
            pure (-ENOSPC)
          | some place => do
            enter dir place num
            setInode dir fun inode => { inode with nlinks := increment inode.nlinks, dirt := true }
            iput dir
            iput num
            pure 0

def linkText (oldname : List Byte) : List Byte := (oldname.takeWhile (· ≠ 0)).take 1023 ++ [0]

def sysSymlink (call : Call) (oldname : List Byte) : Kernel Int :=
  inDirectory call (-EACCES) (-EPERM) (-EACCES) fun dir => do
    match ← newInode call.task with
    | none => do
      iput dir
      pure (-ENOSPC)
    | some num => do
      setInode num fun inode => { inode with mode := S_IFLNK ||| masked call.task 0o777, dirt := true }
      let block ← newBlock
      setInode num fun inode => { inode with zone := update inode.zone 0 block }
      if block = 0 then do
        iput dir
        setNlinks num decrement
        iput num
        pure (-ENOSPC)
      else do
        let text := linkText oldname
        fillBlock block (setBytes 0 text.length fun i => text.getD i 0)
        setInode num fun inode => { inode with size := text.length - 1, dirt := true }
        match ← findEntry call.task dir call.name with
        | some place => do
          setNlinks num decrement
          iput num
          brelse place.1
          iput dir
          pure (-EEXIST)
        | none =>
          match ← addEntry dir call.name with
          | none => do
            setNlinks num decrement
            iput num
            iput dir
            pure (-ENOSPC)
          | some place => do
            enter dir place num
            iput dir
            iput num
            pure 0

def sysLink (call : Call) (old : Option Nat) : Kernel Int := do
  match ← reach old with
  | none => pure (-ENOENT)
  | some num => do
    let oldinode ← inodeOf num
    if S_ISDIR oldinode.mode then do
      iput num
      pure (-EPERM)
    else
      match ← dirNamei call with
      | none => do
        iput num
        pure (-EACCES)
      | some dir =>
        if call.name = [] then do
          iput num
          iput dir
          pure (-EPERM)
        else do
          let inode ← inodeOf dir
          if permit call.task inode MAY_WRITE then
            match ← findEntry call.task dir call.name with
            | some place => do
              brelse place.1
              iput dir
              iput num
              pure (-EEXIST)
            | none =>
              match ← addEntry dir call.name with
              | none => do
                iput dir
                iput num
                pure (-ENOSPC)
              | some place => do
                enter dir place num
                iput dir
                let time := (← get).time
                setInode num fun inode =>
                  { inode with nlinks := increment inode.nlinks, ctime := time, dirt := true }
                iput num
                pure 0
          else do
            iput dir
            iput num
            pure (-EACCES)

def followLink (dir num : Nat) (linked : Option Nat) : Kernel (Option Nat) := do
  let inode ← inodeOf num
  if S_ISLNK inode.mode then do
    iput num
    iput dir
    reach linked
  else do
    iput dir
    pure (some num)

def openNamei (call : Call) (flag mode : Nat) (linked : Option Nat) : Kernel (Except Int Nat) := do
  let flag := if flag &&& O_TRUNC ≠ 0 ∧ flag &&& O_ACCMODE = 0 then flag ||| O_WRONLY else flag
  match ← dirNamei call with
  | none => pure (.error (-ENOENT))
  | some dir =>
    if call.name = [] then
      if flag &&& (O_ACCMODE ||| O_CREAT ||| O_TRUNC) = 0 then pure (.ok dir)
      else do
        iput dir
        pure (.error (-EISDIR))
    else do
      match ← findEntry call.task dir call.name with
      | none =>
        if flag &&& O_CREAT = 0 then do
          iput dir
          pure (.error (-ENOENT))
        else do
          let inode ← inodeOf dir
          if permit call.task inode MAY_WRITE then
            match ← newInode call.task with
            | none => do
              iput dir
              pure (.error (-ENOSPC))
            | some num => do
              setInode num fun inode =>
                { inode with uid := call.task.euid, mode := S_IFREG ||| masked call.task mode, dirt := true }
              match ← addEntry dir call.name with
              | none => do
                setNlinks num decrement
                iput num
                iput dir
                pure (.error (-ENOSPC))
              | some place => do
                enter dir place num
                iput dir
                pure (.ok num)
          else do
            iput dir
            pure (.error (-EACCES))
      | some place => do
        let num ← entryInode dir place
        brelse place.1
        if flag &&& O_EXCL ≠ 0 then do
          iput dir
          pure (.error (-EEXIST))
        else do
          hold num
          match ← followLink dir num linked with
          | none => pure (.error (-EACCES))
          | some num => do
            let inode ← inodeOf num
            if S_ISDIR inode.mode ∧ flag &&& O_ACCMODE ≠ 0 ∨ permit call.task inode (accMode flag) = false then do
              iput num
              pure (.error (-EPERM))
            else do
              let time := (← get).time
              setInode num fun inode => { inode with atime := time }
              if flag &&& O_TRUNC ≠ 0 then truncate num
              pure (.ok num)

def sysOpen (call : Call) (flag mode : Nat) (room : Bool) (linked : Option Nat) (busy : Bool) : Kernel Int :=
  if room = false then pure (-EINVAL)
  else do
    match ← openNamei call flag mode linked with
    | .error ret => pure ret
    | .ok num => do
      let inode ← inodeOf num
      if S_ISCHR inode.mode && busy then do
        iput num
        pure (-EAGAIN)
      else pure 0

def Call.run (call : Call) : Kernel Int :=
  match call.kind with
  | .creat flag mode room linked busy => sysOpen call flag mode room linked busy
  | .mknod mode dev => sysMknod call mode dev
  | .mkdir mode => sysMkdir call mode
  | .symlink oldname => sysSymlink call oldname
  | .link old => sysLink call old

end Linux012.Fs.Creation

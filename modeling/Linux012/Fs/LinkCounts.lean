import Linux012.Fs.NamingCalls

/-! One file system at the level of its inodes and directory entries, with one process
at a time, and the system calls that change link counts. It is the root file system, and
nothing is mounted on it. Where paths lead, and which blocks can be read, is up to each
call. A program returns nothing after a panic. -/

set_option autoImplicit false

namespace Linux012.Fs.LinkCounts

open Namei
open InodeTable (DInode S_IFMT)
open Naming (EPERM ENOENT EACCES EEXIST ENOTDIR EISDIR ENOSPC ENOTEMPTY ERROR S_IFREG S_ISVTX O_ACCMODE
  O_WRONLY O_CREAT O_EXCL O_TRUNC accMode)

structure Inode where
  mode : Nat
  uid : Nat
  gid : Nat
  nlinks : Nat
  count : Nat
  /-- of a directory, up to its size; there are none without `i_zone[0]` -/
  entries : List DirEntry
deriving DecidableEq

def Inode.isDir (inode : Inode) : Bool := inode.mode &&& S_IFMT = S_IFDIR
def Inode.isLnk (inode : Inode) : Bool := inode.mode &&& S_IFMT = S_IFLNK

structure State where
  ninodes : Nat
  inodes : Nat → Option Inode

inductive Access where
  | there
  /-- `bread` fails -/
  | unreadable
  /-- `bmap` returns 0: an indirect block cannot be read, or there is no space for a block -/
  | missing
deriving DecidableEq

structure Disk where
  find : Nat → Access
  add : Nat → Access
  empty : Nat → Access
  /-- `new_block` succeeds -/
  space : Bool
  readable : Bool

abbrev Kernel := StateT State Option

def stuck {α : Type} : Kernel α := fun _ => none

/-! ## Inodes -/

def State.put (s : State) (n : Nat) (inode : Option Inode) : State :=
  { s with inodes := Function.update s.inodes n inode }

def inodeOf (n : Nat) : Kernel Inode := fun s => (s.inodes n).map fun inode => (inode, s)

def setInode (n : Nat) (f : Inode → Inode) : Kernel Unit := fun s =>
  (s.inodes n).map fun inode => ((), s.put n (some (f inode)))

def hold (n : Nat) : Kernel Unit := setInode n fun inode => { inode with count := inode.count + 1 }

/-- `iput`. What `truncate` and `free_inode` leave is an inode that is free. -/
def iput (n : Nat) : Kernel Unit := do
  let inode ← inodeOf n
  if inode.count = 0 then stuck
  else if inode.count > 1 then setInode n fun inode => { inode with count := inode.count - 1 }
  else if inode.nlinks = 0 then modify fun s => s.put n none
  else setInode n fun inode => { inode with count := inode.count - 1 }

def Inode.fresh (task : Namei.Task Nat) : Inode :=
  { mode := 0, uid := task.euid, gid := task.egid % 256, nlinks := 1, count := 1, entries := [] }

def newInode (task : Namei.Task Nat) : Kernel (Option Nat) := do
  let s ← get
  match (List.range' 1 s.ninodes).find? fun n => (s.inodes n).isNone with
  | none => pure none
  | some n => do
    set (s.put n (some (.fresh task)))
    pure (some n)

def permit (task : Namei.Task Nat) (inode : Inode) (mask : Nat) : Bool :=
  permission task
    { data := { DInode.zero with mode := inode.mode, uid := inode.uid, gid := inode.gid, nlinks := inode.nlinks }
      dev := 1
      num := 0 } mask

/-! ## Entries -/

def MAX_ENTRIES : Nat := (7 + 512 + 512 * 512) * DIR_ENTRIES_PER_BLOCK

def Inode.findEntry (inode : Inode) (access : Nat → Access) (name : List Byte) : Option Nat :=
  if inode.entries = [] ∨ access 0 ≠ .there then none
  else
    (List.range inode.entries.length).find? fun i =>
      access (i / DIR_ENTRIES_PER_BLOCK) = .there ∧ (inode.entries[i]?).any (matchName false name)

/-- The loop of `add_entry`, up to an entry that is free or behind the last one; it
fails when it needs a block and gets none. -/
def Inode.addEntry (inode : Inode) (access : Nat → Access) (name : List Byte) : Option (Option Nat) :=
  if name = [] ∨ inode.entries = [] ∨ access 0 ≠ .there then some none
  else
    ((List.range' 0 MAX_ENTRIES).find? fun i =>
      access (i / DIR_ENTRIES_PER_BLOCK) = .missing ∨
        access (i / DIR_ENTRIES_PER_BLOCK) = .there ∧ (inode.entries[i]?).all fun e => e.inode = 0).map
    fun i => if access (i / DIR_ENTRIES_PER_BLOCK) = .missing then none else some i

/-- `empty_dir`; it passes over the blocks that `bmap` does not find. -/
def Inode.emptyDir (inode : Inode) (num : Nat) (access : Nat → Access) : Bool :=
  match inode.entries with
  | dot :: dotdot :: _ =>
    access 0 = .there ∧ dot.inode = num ∧ dotdot.inode ≠ 0 ∧
      dot.name.take 2 = DOT ++ [0] ∧ dotdot.name.take 3 = DOTDOT ++ [0] ∧
      (List.range inode.entries.length).all fun i =>
        i < 2 ∨ access (i / DIR_ENTRIES_PER_BLOCK) = .missing ∨
          access (i / DIR_ENTRIES_PER_BLOCK) = .there ∧ (inode.entries[i]?).all fun e => e.inode = 0
  | _ => false

def entryOf (inode : Nat) (name : List Byte) : DirEntry :=
  { inode := inode, name := (List.range NAME_LEN).map fun j => (name.take NAME_LEN).getD j 0 }

def place (entries : List DirEntry) (j : Nat) (e : DirEntry) : List DirEntry :=
  if j < entries.length then entries.set j e
  else entries ++ List.replicate (j - entries.length) (entryOf 0 []) ++ [e]

/-- `find_entry`. The root of the file system is mounted on itself. -/
def findEntry (task : Namei.Task Nat) (access : Nat → Access) (dir : Nat) (name : List Byte) : Kernel (Option Nat) := do
  let inode ← inodeOf dir
  let name := name.take NAME_LEN
  pure (inode.findEntry access (if name = DOTDOT ∧ dir = task.root then DOT else name))

def addEntry (access : Nat → Access) (dir : Nat) (name : List Byte) : Kernel (Option Nat) := do
  let inode ← inodeOf dir
  fun s => (inode.addEntry access (name.take NAME_LEN)).map fun found => (found, s)

def enter (dir j num : Nat) (name : List Byte) : Kernel Unit :=
  setInode dir fun inode => { inode with entries := place inode.entries j (entryOf num name) }

def leave (dir j : Nat) : Kernel Unit :=
  setInode dir fun inode => { inode with entries := inode.entries.modify j fun e => { e with inode := 0 } }

def entryInode (dir j : Nat) : Kernel Nat := do
  let inode ← inodeOf dir
  pure ((inode.entries[j]?).elim 0 DirEntry.inode)

def setNlinks (n : Nat) (f : Nat → Nat) : Kernel Unit :=
  setInode n fun inode => { inode with nlinks := f inode.nlinks }

def increment (nlinks : Nat) : Nat := (nlinks + 1) % 256
def decrement (nlinks : Nat) : Nat := (nlinks + 255) % 256

/-! ## Calls -/

inductive Kind where
  /-- `open_namei`; `linked` is where a symbolic link leads -/
  | creat (flag mode : Nat) (linked : Option Nat)
  | mknod (mode : Nat)
  | mkdir (mode : Nat)
  | rmdir
  /-- `old` is where the old name leads -/
  | link (old : Option Nat)
  | unlink
  | symlink

structure Call where
  kind : Kind
  task : Namei.Task Nat
  /-- where `dir_namei` leads, and the last component of the path -/
  dir : Option Nat
  name : List Byte
  disk : Disk

def reach : Option Nat → Kernel (Option Nat)
  | none => pure none
  | some n => do
    hold n
    pure (some n)

/-- `dir_namei` ends in a directory that it may search. -/
def dirNamei (call : Call) : Kernel (Option Nat) :=
  match call.dir with
  | none => pure none
  | some dir => do
    let inode ← inodeOf dir
    if inode.isDir ∧ permit call.task inode MAY_EXEC then reach (some dir) else stuck

def inDirectory (call : Call) (noDir noName noWrite : Int) (rest : Nat → Kernel Int) : Kernel Int := do
  match ← dirNamei call with
  | none => pure noDir
  | some dir =>
    if call.name = [] then do
      iput dir
      pure noName
    else do
      let inode ← inodeOf dir
      if permit call.task inode MAY_WRITE then rest dir
      else do
        iput dir
        pure noWrite

def sysMknod (call : Call) (mode : Nat) : Kernel Int :=
  if call.task.euid ≠ 0 then pure (-EPERM)
  else inDirectory call (-ENOENT) (-ENOENT) (-EPERM) fun dir => do
    match ← findEntry call.task call.disk.find dir call.name with
    | some _ => do
      iput dir
      pure (-EEXIST)
    | none =>
      match ← newInode call.task with
      | none => do
        iput dir
        pure (-ENOSPC)
      | some num => do
        setInode num fun inode => { inode with mode := mode % 65536 }
        match ← addEntry call.disk.add dir call.name with
        | none => do
          iput dir
          setNlinks num fun _ => 0
          iput num
          pure (-ENOSPC)
        | some j => do
          enter dir j num call.name
          iput dir
          iput num
          pure 0

def discard (dir num : Nat) : Kernel Unit := do
  iput dir
  setNlinks num decrement
  iput num

def Inode.directory (inode : Inode) (num parent mode : Nat) : Inode :=
  { inode with entries := [entryOf num DOT, entryOf parent DOTDOT], nlinks := 2, mode := S_IFDIR ||| mode }

def sysMkdir (call : Call) (mode : Nat) : Kernel Int :=
  inDirectory call (-ENOENT) (-ENOENT) (-EPERM) fun dir => do
    match ← findEntry call.task call.disk.find dir call.name with
    | some _ => do
      iput dir
      pure (-EEXIST)
    | none =>
      match ← newInode call.task with
      | none => do
        iput dir
        pure (-ENOSPC)
      | some num =>
        if call.disk.space = false then do
          discard dir num
          pure (-ENOSPC)
        else if call.disk.readable = false then do
          discard dir num
          pure (-ERROR)
        else do
          setInode num fun inode =>
            inode.directory num dir (mode &&& 0o777 &&& (0o777 ^^^ (call.task.umask &&& 0o777)))
          match ← addEntry call.disk.add dir call.name with
          | none => do
            iput dir
            setNlinks num fun _ => 0
            iput num
            pure (-ENOSPC)
          | some j => do
            enter dir j num call.name
            setNlinks dir increment
            iput dir
            iput num
            pure 0

def sysSymlink (call : Call) : Kernel Int :=
  inDirectory call (-EACCES) (-EPERM) (-EACCES) fun dir => do
    match ← newInode call.task with
    | none => do
      iput dir
      pure (-ENOSPC)
    | some num => do
      setInode num fun inode =>
        { inode with mode := S_IFLNK ||| (0o777 &&& (0o777 ^^^ (call.task.umask &&& 0o777))) }
      if call.disk.space = false then do
        discard dir num
        pure (-ENOSPC)
      else if call.disk.readable = false then do
        discard dir num
        pure (-ERROR)
      else
        match ← findEntry call.task call.disk.find dir call.name with
        | some _ => do
          setNlinks num decrement
          iput num
          iput dir
          pure (-EEXIST)
        | none =>
          match ← addEntry call.disk.add dir call.name with
          | none => do
            setNlinks num decrement
            iput num
            iput dir
            pure (-ENOSPC)
          | some j => do
            enter dir j num call.name
            iput dir
            iput num
            pure 0

def sysLink (call : Call) (old : Option Nat) : Kernel Int := do
  match ← reach old with
  | none => pure (-ENOENT)
  | some num => do
    let oldinode ← inodeOf num
    if oldinode.isDir then do
      iput num
      pure (-EPERM)
    else
      match ← dirNamei call with
      | none => do
        iput num
        pure (-EACCES)
      | some dir =>
        if call.name = [] then do
          iput num
          iput dir
          pure (-EPERM)
        else do
          let inode ← inodeOf dir
          if permit call.task inode MAY_WRITE then
            match ← findEntry call.task call.disk.find dir call.name with
            | some _ => do
              iput dir
              iput num
              pure (-EEXIST)
            | none =>
              match ← addEntry call.disk.add dir call.name with
              | none => do
                iput dir
                iput num
                pure (-ENOSPC)
              | some j => do
                enter dir j num call.name
                iput dir
                setNlinks num increment
                iput num
                pure 0
          else do
            iput dir
            iput num
            pure (-EACCES)

def sysUnlink (call : Call) : Kernel Int :=
  inDirectory call (-ENOENT) (-ENOENT) (-EPERM) fun dir => do
    match ← findEntry call.task call.disk.find dir call.name with
    | none => do
      iput dir
      pure (-ENOENT)
    | some j => do
      let num ← entryInode dir j
      hold num
      let parent ← inodeOf dir
      let child ← inodeOf num
      if parent.mode &&& S_ISVTX ≠ 0 ∧ call.task.euid ≠ 0 ∧ call.task.euid ≠ child.uid ∧
          call.task.euid ≠ parent.uid then do
        iput dir
        iput num
        pure (-EPERM)
      else if child.isDir then do
        iput num
        iput dir
        pure (-EPERM)
      else do
        -- a file without links is taken for one with one link
        setNlinks num fun nlinks => if nlinks = 0 then 1 else nlinks
        leave dir j
        setNlinks num decrement
        iput num
        iput dir
        pure 0

def sysRmdir (call : Call) : Kernel Int :=
  inDirectory call (-ENOENT) (-ENOENT) (-EPERM) fun dir => do
    match ← findEntry call.task call.disk.find dir call.name with
    | none => do
      iput dir
      pure (-ENOENT)
    | some j => do
      let num ← entryInode dir j
      hold num
      let parent ← inodeOf dir
      let child ← inodeOf num
      if parent.mode &&& S_ISVTX ≠ 0 ∧ call.task.euid ≠ 0 ∧ child.uid ≠ call.task.euid then do
        iput dir
        iput num
        pure (-EPERM)
      else if child.count > 1 then do
        iput dir
        iput num
        pure (-EPERM)
      else if num = dir then do
        iput num
        iput dir
        pure (-EPERM)
      else if child.isDir = false then do
        iput num
        iput dir
        pure (-ENOTDIR)
      else if child.emptyDir num call.disk.empty then do
        leave dir j
        setNlinks num fun _ => 0
        setNlinks dir decrement
        iput dir
        iput num
        pure 0
      else do
        iput num
        iput dir
        pure (-ENOTEMPTY)

def followLink (dir num : Nat) (linked : Option Nat) : Kernel (Option Nat) := do
  let inode ← inodeOf num
  if inode.isLnk then do
    iput num
    iput dir
    reach linked
  else do
    iput dir
    pure (some num)

/-- `open_namei`; the inode stays in use. -/
def openNamei (call : Call) (flag mode : Nat) (linked : Option Nat) : Kernel Int := do
  let flag := if flag &&& O_TRUNC ≠ 0 ∧ flag &&& O_ACCMODE = 0 then flag ||| O_WRONLY else flag
  match ← dirNamei call with
  | none => pure (-ENOENT)
  | some dir =>
    if call.name = [] then
      if flag &&& (O_ACCMODE ||| O_CREAT ||| O_TRUNC) = 0 then pure 0
      else do
        iput dir
        pure (-EISDIR)
    else do
      match ← findEntry call.task call.disk.find dir call.name with
      | none =>
        if flag &&& O_CREAT = 0 then do
          iput dir
          pure (-ENOENT)
        else do
          let inode ← inodeOf dir
          if permit call.task inode MAY_WRITE then
            match ← newInode call.task with
            | none => do
              iput dir
              pure (-ENOSPC)
            | some num => do
              setInode num fun inode =>
                { inode with
                  uid := call.task.euid
                  mode := S_IFREG ||| (mode &&& 0o777 &&& (0o777 ^^^ (call.task.umask &&& 0o777))) }
              match ← addEntry call.disk.add dir call.name with
              | none => do
                setNlinks num decrement
                iput num
                iput dir
                pure (-ENOSPC)
              | some j => do
                enter dir j num call.name
                iput dir
                pure 0
          else do
            iput dir
            pure (-EACCES)
      | some j => do
        let num ← entryInode dir j
        if flag &&& O_EXCL ≠ 0 then do
          iput dir
          pure (-EEXIST)
        else do
          hold num
          match ← followLink dir num linked with
          | none => pure (-EACCES)
          | some num => do
            let inode ← inodeOf num
            if inode.isDir ∧ flag &&& O_ACCMODE ≠ 0 ∨ permit call.task inode (accMode flag) = false then do
              iput num
              pure (-EPERM)
            else pure 0

def Call.run (call : Call) : Kernel Int :=
  match call.kind with
  | .creat flag mode linked => openNamei call flag mode linked
  | .mknod mode => sysMknod call mode
  | .mkdir mode => sysMkdir call mode
  | .rmdir => sysRmdir call
  | .link old => sysLink call old
  | .unlink => sysUnlink call
  | .symlink => sysSymlink call

inductive Move where
  | call (call : Call)
  /-- a file that is open, or a directory that a process is in, is given up -/
  | close (num : Nat)

def State.step (s : State) : Move → Option State
  | .call call => (call.run s).map Prod.snd
  | .close num => (iput num s).map Prod.snd

end Linux012.Fs.LinkCounts

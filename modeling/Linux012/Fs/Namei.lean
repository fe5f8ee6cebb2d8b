import Linux012.Fs.InodeTable

/-! Path resolution of `fs/namei.c`, over any machine with inodes and buffers. The
`%fs` register is the parameter `nested`: it is there while names are read from
the memory of a user, and then it is what `follow_link` calls with a link's text. -/

set_option autoImplicit false

namespace Linux012.Fs.Namei

open InodeTable (DInode ROOT_INO S_IFMT)

def NAME_LEN : Nat := 14
def BLOCK_SIZE : Nat := 1024
def DIR_ENTRIES_PER_BLOCK : Nat := 64
def MAY_EXEC : Nat := 1
def MAY_WRITE : Nat := 2

def S_IFDIR : Nat := 0o040000
def S_IFLNK : Nat := 0o120000

abbrev Byte := UInt8
abbrev Block := Nat → Byte

def SLASH : Byte := 47
def DOT : List Byte := [46]
def DOTDOT : List Byte := [46, 46]

def Block.word (b : Block) (k : Nat) : Nat := (b (2 * k)).toNat + 256 * (b (2 * k + 1)).toNat

structure DirEntry where
  inode : Nat
  name : List Byte
deriving DecidableEq

def Block.entry (b : Block) (k : Nat) : DirEntry :=
  { inode := b.word (8 * k), name := (List.range NAME_LEN).map fun j => b (16 * k + 2 + j) }

def Block.ofEntries (entries : List (Nat × List Byte)) : Block := fun i =>
  let (inode, name) := entries.getD (i / 16) (0, [])
  if i % 16 = 0 then inode.toUInt8
  else if i % 16 = 1 then (inode / 256).toUInt8
  else name.getD (i % 16 - 2) 0

structure MInode where
  data : DInode
  dev : Nat
  num : Nat

def dirData (zone size : Nat) : DInode :=
  { DInode.zero with mode := 0o040755, nlinks := 2, size := size, zone := fun k => if k = 0 then zone else 0 }

def MInode.isDir (inode : MInode) : Bool := inode.data.mode &&& S_IFMT = S_IFDIR
def MInode.isLnk (inode : MInode) : Bool := inode.data.mode &&& S_IFMT = S_IFLNK
def MInode.entries (inode : MInode) : Nat := inode.data.size / 16

structure Task (ι : Type) where
  euid : Nat
  egid : Nat
  groups : List Nat
  umask : Nat
  root : ι
  pwd : ι

structure Ops (m : Type → Type) (ι β : Type) where
  /-- the flag that `repe cmpsb` finds, and leaves when there is nothing to compare -/
  zf : m Bool
  current : m (Task ι)
  inode : ι → m MInode
  /-- `get_super(dev)->s_imount` -/
  imount : Nat → m (Option ι)
  iget : Nat → Nat → m ι
  iput : ι → m Unit
  /-- `i_count++` -/
  hold : ι → m Unit
  /-- a new `i_atime`, and `i_dirt=1` -/
  touch : ι → m Unit
  bmap : ι → Nat → m Nat
  bread : Nat → Nat → m (Option β)
  brelse : β → m Unit
  data : β → m Block
  /-- the string at `b_data`, which may go on behind the block -/
  text : β → m (List Byte)

def inGroup {ι : Type} (task : Task ι) (grp : Nat) : Bool := grp = task.egid ∨ grp ∈ task.groups

def permission {ι : Type} (task : Task ι) (inode : MInode) (mask : Nat) : Bool :=
  if inode.dev ≠ 0 ∧ inode.data.nlinks = 0 then false
  else
    let mode :=
      if task.euid = inode.data.uid then inode.data.mode >>> 6
      else if inGroup task inode.data.gid then inode.data.mode >>> 3
      else inode.data.mode
    mode &&& mask &&& 7 = mask ∨ task.euid = 0

def matchName (zf : Bool) (name : List Byte) (de : DirEntry) : Bool :=
  if de.inode = 0 ∨ NAME_LEN < name.length then false
  else if name = [] ∧ de.name.take 2 = DOT ++ [0] then true
  else if name.length < NAME_LEN ∧ de.name.getD name.length 0 ≠ 0 then false
  else if name = [] then zf
  else name = de.name.take name.length

def basename : List Byte → List Byte → List Byte
  | base, [] => base
  | base, c :: path => if c = SLASH then basename path path else basename base path

section Lookup

variable {m : Type → Type} [Monad m] {ι β : Type} [DecidableEq ι] (ops : Ops m ι β)

def release : Option β → m Unit
  | none => pure ()
  | some bh => ops.brelse bh

/-- What `find_entry` does for `..`. -/
def dotDot (dir : ι) (name : List Byte) : m (ι × List Byte) := do
  if name = DOTDOT then
    let task ← ops.current
    let inode ← ops.inode dir
    if dir = task.root then pure (dir, DOT)
    else if inode.num = ROOT_INO then
      match ← ops.imount inode.dev with
      | none => pure (dir, name)
      | some covered => do
        ops.iput dir
        ops.hold covered
        pure (covered, name)
    else pure (dir, name)
  else pure (dir, name)

def nextBlock (dir : ι) (i : Nat) : m (Option (β × Nat)) := do
  let block ← ops.bmap dir (i / DIR_ENTRIES_PER_BLOCK)
  if block = 0 then pure none
  else
    let inode ← ops.inode dir
    let bh ← ops.bread inode.dev block
    pure (bh.map fun bh => (bh, 0))

/-- The buffer and the place of entry `i`. Without a buffer the source adds
`BLOCK_SIZE` to the word at address 0, which is the first entry of the page
directory and lies below all buffers. -/
def nextEntry (dir : ι) (i : Nat) (bh : Option β) (de : Nat) : m (Option (β × Nat)) :=
  match bh with
  | none => nextBlock ops dir i
  | some b => if de < DIR_ENTRIES_PER_BLOCK then pure (some (b, de)) else do
      ops.brelse b
      nextBlock ops dir i

/-- The loop of `find_entry`. A round passes at least one entry, so that `entries`
rounds are enough. -/
def findLoop (dir : ι) (name : List Byte) (entries : Nat) :
    Nat → Nat → Option β → Nat → m (Option (β × Nat))
  | 0, _, bh, _ => do
    release ops bh
    pure none
  | rounds + 1, i, bh, de =>
    if i < entries then do
      match ← nextEntry ops dir i bh de with
      | none => findLoop dir name entries rounds (i + DIR_ENTRIES_PER_BLOCK) none de
      | some (b, de) =>
        let block ← ops.data b
        let zf ← ops.zf
        if matchName zf name (block.entry de) then pure (some (b, de))
        else findLoop dir name entries rounds (i + 1) (some b) (de + 1)
    else do
      release ops bh
      pure none

/-- `find_entry`: the directory it ends in, and the buffer and the place of the entry. -/
def findEntry (dir : ι) (name : List Byte) : m (ι × Option (β × Nat)) := do
  let name := name.take NAME_LEN
  let first ← ops.inode dir
  let (dir, name) ← dotDot ops dir name
  let inode ← ops.inode dir
  if inode.data.zone 0 = 0 then pure (dir, none)
  else
    match ← ops.bread inode.dev (inode.data.zone 0) with
    | none => pure (dir, none)
    | some bh => do
      let found ← findLoop ops dir name first.entries first.entries 0 (some bh) 0
      pure (dir, found)

def giveUp (dir inode : ι) : m (Option ι) := do
  ops.iput dir
  ops.iput inode
  pure none

/-- `follow_link`, for an inode that `iget` has returned. -/
def followLink (nested : Option (List Byte → ι → m (Option ι))) (dir inode : ι) : m (Option ι) := do
  let data ← ops.inode inode
  if data.isLnk then
    match nested with
    | none => giveUp ops dir inode
    | some namei =>
      if data.data.zone 0 = 0 then giveUp ops dir inode
      else
        match ← ops.bread data.dev (data.data.zone 0) with
        | none => giveUp ops dir inode
        | some bh => do
          ops.iput inode
          let text ← ops.text bh
          let found ← namei text dir
          ops.brelse bh
          pure found
  else do
    ops.iput dir
    pure (some inode)

/-- The test that `get_dir` makes before each component. -/
def enterDir (inode : ι) : m (Option ι) := do
  let data ← ops.inode inode
  let task ← ops.current
  if data.isDir ∧ permission task data MAY_EXEC then pure (some inode)
  else do
    ops.iput inode
    pure none

variable (nested : Option (List Byte → ι → m (Option ι)))

/-- One component of `get_dir`. -/
def getDirStep (inode : ι) (thisname : List Byte) : m (Option ι) := do
  let (dir, found) ← findEntry ops inode thisname
  match found with
  | none => do
    ops.iput dir
    pure none
  | some (bh, de) => do
    let block ← ops.data bh
    ops.brelse bh
    let data ← ops.inode dir
    let inode ← ops.iget data.dev (block.entry de).inode
    followLink ops nested dir inode

/-- The loop of `get_dir`, with what it has read of a component. -/
def getDirLoop : List Byte → List Byte → ι → m (Option ι)
  | [], _, inode => pure (some inode)
  | c :: pathname, thisname, inode =>
    if c = SLASH then do
      match ← getDirStep ops nested inode thisname with
      | none => pure none
      | some inode =>
        match ← enterDir ops inode with
        | none => pure none
        | some inode => getDirLoop pathname [] inode
    else getDirLoop pathname (thisname ++ [c]) inode

def getDirFrom (pathname : List Byte) (inode : ι) : m (Option ι) := do
  match ← enterDir ops inode with
  | none => pure none
  | some inode => getDirLoop ops nested pathname [] inode

def getDir (pathname : List Byte) (base : Option ι) : m (Option ι) := do
  let task ← ops.current
  let inode ← match base with
    | some inode => pure inode
    | none => do
      ops.hold task.pwd
      pure task.pwd
  let (inode, pathname) ←
    if pathname.head? = some SLASH then do
      ops.iput inode
      ops.hold task.root
      pure (task.root, pathname.tail)
    else pure (inode, pathname)
  getDirFrom ops nested pathname inode

def dirNamei (pathname : List Byte) (base : Option ι) : m (Option (ι × List Byte)) := do
  match ← getDir ops nested pathname base with
  | none => pure none
  | some dir => pure (some (dir, basename pathname pathname))

/-- The end of `_namei`. Without an inode from `follow_link` it writes `i_atime` and
`i_dirt` into the page directory, at address 0, and returns NULL all the same. -/
def touched : Option ι → m (Option ι)
  | none => pure none
  | some inode => do
    ops.touch inode
    pure (some inode)

def _namei (pathname : List Byte) (base : Option ι) (followLinks : Bool) : m (Option ι) := do
  match ← dirNamei ops nested pathname base with
  | none => pure none
  | some (base, name) =>
    if name = [] then pure (some base)
    else
      let (base, found) ← findEntry ops base name
      match found with
      | none => do
        ops.iput base
        pure none
      | some (bh, de) => do
        let block ← ops.data bh
        ops.brelse bh
        let data ← ops.inode base
        let inode ← ops.iget data.dev (block.entry de).inode
        if followLinks then do
          let inode ← followLink ops nested base inode
          touched ops inode
        else do
          ops.iput base
          touched ops (some inode)

end Lookup

section Calls

variable {m : Type → Type} [Monad m] {ι β : Type} [DecidableEq ι] (ops : Ops m ι β)

/-- `_namei(bh->b_data,dir,0)` in `follow_link`, where `%fs` is that of the kernel. -/
def linkNamei (text : List Byte) (dir : ι) : m (Option ι) := _namei ops none text (some dir) false

def lnamei (pathname : List Byte) : m (Option ι) :=
  _namei ops (some (linkNamei ops)) pathname none false

def namei (pathname : List Byte) : m (Option ι) :=
  _namei ops (some (linkNamei ops)) pathname none true

end Calls

end Linux012.Fs.Namei

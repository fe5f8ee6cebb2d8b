import Linux012.Fs.Namei

/-! The buffers and the inode table under `namei.c`, with one process at a time:
`fs/inode.c`, `fs/bitmap.c`, `fs/truncate.c`, and `bread` and `brelse`, which may find
anything on the disk. A program returns nothing after a panic, and when it waits for
what only another process could do. -/

set_option autoImplicit false

namespace Linux012.Fs.Naming

open Namei Function
open InodeTable (DInode Slot NR_INODE NR_SUPER ROOT_INO S_IFMT S_IFBLK INODES_PER_BLOCK recordOf)

def S_IFREG : Nat := 0o100000

structure Buf where
  dev : Nat
  block : Nat
deriving DecidableEq

structure Inode extends MInode where
  count : Nat
  dirt : Bool
  mount : Bool
  pipe : Bool

def Inode.zero : Inode :=
  { data := .zero, dev := 0, num := 0, count := 0, dirt := false, mount := false, pipe := false }

structure Super where
  dev : Nat
  imount : Option Slot
  imapBlocks : Nat
  zmapBlocks : Nat
  ninodes : Nat
  nzones : Nat
  firstdatazone : Nat

structure State where
  task : Namei.Task Slot
  zf : Bool
  now : Nat
  table : Slot → Inode
  lastInode : Slot
  super : Fin NR_SUPER → Super
  imap : Nat → Nat → Bool
  zmap : Nat → Nat → Bool
  /-- `b_count` -/
  count : Buf → Nat
  data : Buf → Namei.Block
  /-- the blocks on the disk, which a buffer without `b_uptodate` is read from again -/
  disk : Buf → Namei.Block
  /-- what lies behind a buffer in memory, up to a zero -/
  behind : Buf → List Byte
  blkSize : Nat → Nat
  fails : Nat → Bool
  reads : Nat

abbrev Kernel := StateT State Option

def stuck {α : Type} : Kernel α := fun _ => none

/-! ## Buffers -/

def bread (dev block : Nat) : Kernel (Option Buf) := do
  let s ← get
  if s.fails s.reads then do
    set { s with reads := s.reads + 1 }
    pure none
  else do
    let bh : Buf := ⟨dev, block⟩
    set { s with reads := s.reads + 1, count := update s.count bh (s.count bh + 1) }
    pure (some bh)

def brelse (bh : Buf) : Kernel Unit := do
  let s ← get
  if s.count bh = 0 then stuck
  else set { s with count := update s.count bh (s.count bh - 1) }

def dataOf (bh : Buf) : Kernel Namei.Block := do
  let s ← get
  pure (s.data bh)

/-- `b_data` with other bytes from an offset on. -/
def poke (bh : Buf) (off : Nat) (bytes : List Byte) : Kernel Unit :=
  modify fun s =>
    { s with data := update s.data bh fun i =>
        if off ≤ i then (bytes[i - off]?).getD (s.data bh i) else s.data bh i }

def bytesOf (word : Nat) : List Byte := [word.toUInt8, (word / 256).toUInt8]

def setWord (bh : Buf) (k word : Nat) : Kernel Unit := poke bh (2 * k) (bytesOf word)

def setEntry (bh : Buf) (de inode : Nat) : Kernel Unit := poke bh (16 * de) (bytesOf inode)

/-! ## Inodes and blocks -/

def inodeOf (i : Slot) : Kernel Inode := do
  let s ← get
  pure (s.table i)

def setInode (i : Slot) (f : Inode → Inode) : Kernel Unit :=
  modify fun s =>
    { s with table := update s.table i { f (s.table i) with count := (s.table i).count } }

def setData (i : Slot) (f : DInode → DInode) : Kernel Unit :=
  setInode i fun inode => { inode with data := f inode.data }

def dirty (i : Slot) : Kernel Unit := setInode i fun inode => { inode with dirt := true }

def hold (i : Slot) : Kernel Unit :=
  modify fun s =>
    { s with table := update s.table i { s.table i with count := (s.table i).count + 1 } }

/-- `i_count--` -/
def drop (i : Slot) : Kernel Unit := do
  let s ← get
  if (s.table i).count = 0 then stuck
  else
    set { s with table := update s.table i { s.table i with count := (s.table i).count - 1 } }

def getSuper (dev : Nat) : Kernel Super := fun s =>
  if dev = 0 then none
  else ((List.finRange NR_SUPER).find? fun k => (s.super k).dev = dev).map fun k => (s.super k, s)

def firstZero (map : Nat → Bool) (blocks : Nat) : Option Nat :=
  (List.range (8192 * blocks)).find? fun j => map j = false

def setBit (map : Nat → Nat → Bool) (dev k : Nat) (bit : Bool) : Nat → Nat → Bool :=
  update map dev (update (map dev) k bit)

def newBlock (dev : Nat) : Kernel Nat := do
  let sb ← getSuper dev
  let s ← get
  match firstZero (s.zmap dev) sb.zmapBlocks with
  | none => pure 0
  | some j => do
    let block := j + sb.firstdatazone - 1
    modify fun s => { s with zmap := setBit s.zmap dev j true }
    if sb.nzones ≤ block then pure 0
    else if s.count ⟨dev, block⟩ ≠ 0 then stuck
    else do
      modify fun s => { s with data := update s.data ⟨dev, block⟩ fun _ => 0 }
      pure block

def freeBlock (dev block : Nat) : Kernel Bool := do
  let sb ← getSuper dev
  if block < sb.firstdatazone ∨ sb.nzones ≤ block then stuck
  else do
    let s ← get
    let bh : Buf := ⟨dev, block⟩
    if s.count bh ≠ 0 then pure false
    else do
      modify fun s =>
        { s with
          data := update s.data bh (s.disk bh)
          zmap := setBit s.zmap dev (block + 1 - sb.firstdatazone) false }
      pure true

/-- The words of an indirect block that can be freed are freed; some may be busy. -/
def freeWords (free : Nat → Kernel Bool) (bh : Buf) : List Nat → Kernel Bool
  | [] => pure false
  | k :: words => do
    let block ← dataOf bh
    if block.word k = 0 then freeWords free bh words
    else do
      let freed ← free (block.word k)
      if freed then do
        setWord bh k 0
        freeWords free bh words
      else do
        let _ ← freeWords free bh words
        pure true

/-- `free_ind` and `free_dind` -/
def freeIndirect (free : Nat → Kernel Bool) (dev block : Nat) : Kernel Bool := do
  if block = 0 then pure true
  else do
    let busy ← match ← bread dev block with
      | none => pure false
      | some bh => do
        let busy ← freeWords free bh (List.range 512)
        brelse bh
        pure busy
    if busy then pure false else freeBlock dev block

def freeInd (dev : Nat) : Nat → Kernel Bool := freeIndirect (freeBlock dev) dev

def freeDind (dev : Nat) : Nat → Kernel Bool := freeIndirect (freeInd dev) dev

def freeZone (i : Slot) (free : Nat → Kernel Bool) (k : Fin 9) : Kernel Bool := do
  let inode ← inodeOf i
  if inode.data.zone k = 0 then pure false
  else do
    let freed ← free (inode.data.zone k)
    if freed then do
      setData i fun data => { data with zone := update data.zone k 0 }
      pure false
    else pure true

def freeZones (i : Slot) (dev : Nat) : List (Fin 9) → Kernel Bool
  | [] => pure false
  | k :: zones => do
    let busy ← freeZone i (freeBlock dev) k
    let later ← freeZones i dev zones
    pure (busy || later)

/-- `truncate`. A busy block stays busy. -/
def truncate (i : Slot) : Kernel Unit := do
  let inode ← inodeOf i
  let type := inode.data.mode &&& S_IFMT
  if type = S_IFREG ∨ type = S_IFDIR ∨ type = S_IFLNK then do
    let now := (← get).now
    let direct ← freeZones i inode.dev [0, 1, 2, 3, 4, 5, 6]
    let single ← freeZone i (freeInd inode.dev) 7
    let double ← freeZone i (freeDind inode.dev) 8
    dirty i
    if direct ∨ single ∨ double then stuck
    else setData i fun data => { data with size := 0, mtime := now }
  else pure ()

/-- The zone of an inode, which `create` may allocate. -/
def zoneOf (i : Slot) (k : Fin 9) (create : Bool) : Kernel Nat := do
  let inode ← inodeOf i
  let zone := inode.data.zone k
  if create ∧ zone = 0 then do
    let block ← newBlock inode.dev
    if block = 0 then pure 0
    else do
      setData i fun data => { data with zone := update data.zone k block }
      dirty i
      pure block
  else pure zone

/-- The block in a word of an indirect block, which `create` may allocate. -/
def wordOf (dev zone k : Nat) (create : Bool) : Kernel Nat := do
  if zone = 0 then pure 0
  else
    match ← bread dev zone with
    | none => pure 0
    | some bh => do
      let block ← dataOf bh
      let word := block.word k
      if create ∧ word = 0 then do
        let fresh ← newBlock dev
        if fresh = 0 then do
          brelse bh
          pure 0
        else do
          setWord bh k fresh
          brelse bh
          pure fresh
      else do
        brelse bh
        pure word

def _bmap (i : Slot) (block : Nat) (create : Bool) : Kernel Nat := do
  let inode ← inodeOf i
  if low : block < 7 then zoneOf i ⟨block, by omega⟩ create
  else if block < 7 + 512 then do
    let zone ← zoneOf i 7 create
    wordOf inode.dev zone (block - 7) create
  else if block < 7 + 512 + 512 * 512 then do
    let k := block - 7 - 512
    let zone ← zoneOf i 8 create
    let single ← wordOf inode.dev zone (k >>> 9) create
    wordOf inode.dev single (k &&& 511) create
  else stuck

/-! ## The inode table -/

def recordAt (b : Namei.Block) (k : Nat) : DInode where
  mode := b.word (16 * k)
  uid := b.word (16 * k + 1)
  size := b.word (16 * k + 2) + 65536 * b.word (16 * k + 3)
  mtime := b.word (16 * k + 4) + 65536 * b.word (16 * k + 5)
  gid := (b (32 * k + 12)).toNat
  nlinks := (b (32 * k + 13)).toNat
  zone j := b.word (16 * k + 7 + j)

def recordBytes (data : DInode) : List Byte :=
  bytesOf data.mode ++ bytesOf data.uid ++ bytesOf data.size ++ bytesOf (data.size / 65536) ++
    bytesOf data.mtime ++ bytesOf (data.mtime / 65536) ++ [data.gid.toUInt8, data.nlinks.toUInt8] ++
    (List.finRange 9).flatMap fun k => bytesOf (data.zone k)

/-- The buffer of an inode block; `read_inode` and `write_inode` panic without it. -/
def inodeBlock (inode : Inode) : Kernel Buf := do
  let sb ← getSuper inode.dev
  match ← bread inode.dev (2 + sb.imapBlocks + sb.zmapBlocks + recordOf inode.num / INODES_PER_BLOCK) with
  | none => stuck
  | some bh => pure bh

def readInode (i : Slot) : Kernel Unit := do
  let inode ← inodeOf i
  let bh ← inodeBlock inode
  let block ← dataOf bh
  let s ← get
  let data := recordAt block (recordOf inode.num % INODES_PER_BLOCK)
  setData i fun _ => if data.isBlk then { data with size := s.blkSize (data.zone 0) } else data
  brelse bh

def writeInode (i : Slot) : Kernel Unit := do
  let inode ← inodeOf i
  if inode.dirt = false ∨ inode.dev = 0 then pure ()
  else do
    let bh ← inodeBlock inode
    poke bh (32 * (recordOf inode.num % INODES_PER_BLOCK)) (recordBytes inode.data)
    setInode i fun inode => { inode with dirt := false }
    brelse bh

/-- `sync_inodes`, which is what `sync_dev` does to the inodes. -/
def syncInodes : Kernel Unit :=
  (List.finRange NR_INODE).forM fun i => do
    let inode ← inodeOf i
    if inode.dirt ∧ inode.pipe = false then writeInode i else pure ()

def freeInode (i : Slot) : Kernel Unit := do
  let s ← get
  let inode := s.table i
  if inode.dev = 0 then set { s with table := update s.table i .zero }
  else if inode.count > 1 then stuck
  else if inode.data.nlinks ≠ 0 then stuck
  else do
    let sb ← getSuper inode.dev
    if inode.num < 1 ∨ sb.ninodes < inode.num ∨ sb.imapBlocks ≤ inode.num / 8192 then stuck
    else
      set { s with
        imap := setBit s.imap inode.dev inode.num false
        table := update s.table i .zero }

/-- `iput` from `repeat` on. The second pass after `write_inode` is the last one. -/
def iputTail (i : Slot) : Kernel Unit := do
  let inode ← inodeOf i
  if inode.count > 1 then drop i
  else if inode.data.nlinks = 0 then do
    truncate i
    freeInode i
  else if inode.dirt then do
    writeInode i
    drop i
  else drop i

def iput (i : Slot) : Kernel Unit := do
  let inode ← inodeOf i
  if inode.count = 0 then stuck
  else if inode.pipe then do
    if inode.count = 1 then setInode i fun inode => { inode with dirt := false, pipe := false }
    else pure ()
    drop i
  else if inode.dev = 0 then drop i
  else if inode.data.isBlk then do
    syncInodes
    iputTail i
  else iputTail i

def Slot.next (i : Slot) : Slot := if below : i.val + 1 < NR_INODE then ⟨i.val + 1, below⟩ else ⟨0, InodeTable.NR_INODE_pos⟩

/-- The loop of `get_empty_inode` over the table. -/
def pickLoop (table : Slot → Inode) : Nat → Slot → Option Slot → Slot × Option Slot
  | 0, last, inode => (last, inode)
  | n + 1, last, inode =>
    let last := Slot.next last
    if (table last).count = 0 then
      if (table last).dirt = false then (last, some last) else pickLoop table n last (some last)
    else pickLoop table n last inode

/-- The end of `get_empty_inode`, for an inode that nobody has taken. -/
def claim (i : Slot) : Kernel Unit := do
  let s ← get
  if (s.table i).count = 0 ∧ (s.table i).dirt = false then
    set { s with table := update s.table i { Inode.zero with count := 1 } }
  else stuck

def getEmptyInode : Kernel Slot := do
  let s ← get
  match pickLoop s.table NR_INODE s.lastInode none with
  | (_, none) => stuck
  | (last, some i) => do
    modify fun s => { s with lastInode := last }
    writeInode i
    claim i
    pure i

/-- The loop of `iget`. A round is over when it goes on with the root of a mounted file system. -/
def igetLoop (empty : Slot) : Nat → Nat → Nat → Kernel Slot
  | 0, _, _ => stuck
  | rounds + 1, dev, nr => do
    let s ← get
    match (List.finRange NR_INODE).find? fun i => (s.table i).dev = dev ∧ (s.table i).num = nr with
    | none => do
      setInode empty fun inode => { inode with dev := dev, num := nr }
      readInode empty
      pure empty
    | some i => do
      hold i
      if (s.table i).mount then
        match (List.finRange NR_SUPER).find? fun k => (s.super k).imount = some i with
        | none => do
          iput empty
          pure i
        | some k => do
          iput i
          igetLoop empty rounds (s.super k).dev ROOT_INO
      else do
        iput empty
        pure i

/-- `iget`. Mounted file systems in a circle are the only reason for more rounds. -/
def iget (dev nr : Nat) : Kernel Slot := do
  if dev = 0 then stuck
  else do
    let empty ← getEmptyInode
    igetLoop empty (NR_SUPER * (NR_INODE + 1)) dev nr

/-- `new_inode`; `get_empty_inode` has set the count. -/
def newInode (dev : Nat) : Kernel (Option Slot) := do
  let i ← getEmptyInode
  let sb ← getSuper dev
  let s ← get
  match (firstZero (s.imap dev) sb.imapBlocks).filter fun j => j ≤ sb.ninodes with
  | none => do
    iput i
    pure none
  | some j => do
    modify fun s => { s with imap := setBit s.imap dev j true }
    setInode i fun inode =>
      { inode with
        data := { inode.data with
          nlinks := 1, uid := s.task.euid, gid := s.task.egid % 256, mtime := s.now }
        dev := dev
        num := j
        dirt := true }
    pure (some i)

def textOf (bh : Buf) : Kernel (List Byte) := do
  let s ← get
  let bytes := (List.range Namei.BLOCK_SIZE).map (s.data bh)
  pure (if 0 ∈ bytes then bytes.takeWhile (· ≠ 0) else bytes ++ s.behind bh)

/-- `namei.c` on this machine. -/
def ops : Ops Kernel Slot Buf where
  zf := do
    let s ← get
    pure s.zf
  current := do
    let s ← get
    pure s.task
  inode i := do
    let inode ← inodeOf i
    pure inode.toMInode
  imount dev := do
    let sb ← getSuper dev
    pure sb.imount
  iget := iget
  iput := iput
  hold := hold
  touch := dirty
  bmap i block := _bmap i block false
  bread := bread
  brelse := brelse
  data := dataOf
  text := textOf

end Linux012.Fs.Naming

import Linux012.Fs.ExecHeader
import Linux012.Fs.ReadWrite
import Linux012.Mm.VerifyArea

/-! `do_no_page` of `mm/memory.c`, which loads a page of the executable or of the library at its
first use, with `share_page`, `put_page` and the `bread_page` of `fs/buffer.c`. -/

set_option autoImplicit false

namespace Linux012.Mm.DemandLoading

open Function

open VerifyArea (LOW_MEM MAP_NR getFreePage dirOf nrOf)
open Fs (Bitmap.Panic Bitmap.Volume Bitmap.Buffer Bitmap.Reuse)
open Fs.ZoneTree (Index)
open Fs.ZoneTree.State (blocks place)
open Fs.EntryBlocks (bytes)

def TASK_SIZE : UInt32 := 0x04000000
def LIBRARY_SIZE : UInt32 := 0x00400000
def LIBRARY_OFFSET : UInt32 := TASK_SIZE - LIBRARY_SIZE
def BLOCK_SIZE : UInt32 := 1024

abbrev Page := Nat → UInt8

structure Inode where
  count : Nat
  dev : Nat
  zone : Fin 9 → Nat
  size : UInt32

structure Task where
  startCode : UInt32
  endData : UInt32
  executable : Option Nat
  library : Option Nat
  startCode_aligned : startCode.toNat % TASK_SIZE.toNat = 0

structure System where
  memory : VerifyArea.Memory
  highMemory : UInt32
  inode : Nat → Inode
  volume : Nat → Bitmap.Volume Index
  /-- the blocks of a device that the disk fails to read -/
  bad : Nat → Nat → Bool
  /-- what the coming calls of `getblk` find on the free list -/
  free : Nat → Bitmap.Reuse Index
  current : Task
  /-- the other tasks, from `LAST_TASK` down to the one behind `FIRST_TASK` -/
  others : List Task

/-! ## Page tables -/

/-- `*page_table = tmp | 7`, for a page of zeros -/
def setTable (m : VerifyArea.Memory) (dir : Nat) (tmp : UInt32) : VerifyArea.Memory :=
  { m with
    pgDir := update m.pgDir dir (tmp ||| 7)
    table := update m.table dir fun _ => 0 }

def takeTable (m : VerifyArea.Memory) (dir : Nat) : Option VerifyArea.Memory :=
  if m.pgDir dir &&& 1 = 0 then
    match getFreePage m with
    | none => none
    | some (tmp, m) => some (setTable m dir tmp)
  else some m

def putPage (m : VerifyArea.Memory) (page address : UInt32) : Option VerifyArea.Memory :=
  match takeTable m (dirOf address) with
  | none => none
  | some m => some (m.setEntry (dirOf address) (nrOf address) (page ||| 7))

/-- `get_empty_page`, up to `oom` -/
def getEmptyPage (m : VerifyArea.Memory) (address : UInt32) : Option VerifyArea.Memory :=
  match getFreePage m with
  | none => none
  | some (tmp, m) => putPage m tmp address

/-! ## Sharing -/

inductive Shared where
  | no
  | yes (m : VerifyArea.Memory)
  | oom
  | panic

/-- `try_to_share`, with a task `p`. -/
def tryToShare (s : System) (address : UInt32) (p : Task) : Shared :=
  let m := s.memory
  let fromDir := dirOf address + dirOf p.startCode
  let toDir := dirOf address + dirOf s.current.startCode
  let nr := nrOf address
  let physAddr := m.table fromDir nr &&& 0xfffff000
  if m.pgDir fromDir &&& 1 = 0 then .no
  else if m.table fromDir nr &&& 0x41 ≠ 0x01 then .no
  else if s.highMemory ≤ physAddr ∨ physAddr < LOW_MEM then .no
  else
    match takeTable m toDir with
    | none => .oom
    | some m =>
      if m.table toDir nr &&& 1 ≠ 0 then .panic
      else
        let m := m.setEntry fromDir nr (m.table fromDir nr &&& ~~~2)
        let m := m.setEntry toDir nr (m.table fromDir nr)
        .yes (m.setCount (MAP_NR physAddr) (m.memMap (MAP_NR physAddr) + 1))

/-- The loop of `share_page`. -/
def shareLoop (s : System) (inode : Nat) (address : UInt32) : List Task → Shared
  | [] => .no
  | p :: rest =>
    if (if address < LIBRARY_OFFSET then p.executable else p.library) ≠ some inode then
      shareLoop s inode address rest
    else
      match tryToShare s address p with
      | .no => shareLoop s inode address rest
      | shared => shared

def sharePage (s : System) (inode : Nat) (address : UInt32) : Shared :=
  if (s.inode inode).count < 2 then .no else shareLoop s inode address s.others

/-! ## Reading -/

namespace System

/-- What `_bmap` reads of the inode and of its device. -/
def tree (s : System) (i : Nat) : Fs.ZoneTree.State where
  volume := s.volume (s.inode i).dev
  zone := (s.inode i).zone
  dirt := false
  ctime := 0
  free := s.free

def setVolume (s : System) (dev : Nat) (v : Bitmap.Volume Index) : System :=
  { s with volume := update s.volume dev v }

def bmap (s : System) (i : Nat) (block : Int) : Except Bitmap.Panic (Nat × System) :=
  (Fs.ReadWrite.State.mapBlock (s.bad (s.inode i).dev) false 0 block (s.tree i)).map fun got =>
    (got.1, { s.setVolume (s.inode i).dev got.2.volume with free := got.2.free })

/-- `nr[i] = bmap(inode,block)`, `n` times -/
def bmaps (i : Nat) : (n : Nat) → Int → System → Except Bitmap.Panic (List Nat × System)
  | 0, _, s => .ok ([], s)
  | n + 1, block, s =>
    (s.bmap i block).bind fun got =>
      (bmaps i n (block + 1) got.2).map fun rest => (got.1 :: rest.1, rest.2)

def request (s : System) (dev b : Nat) : System :=
  let v := s.volume dev
  let failed := s.bad dev b && !(v.cache b).any Bitmap.Buffer.uptodate
  let got := v.getblk b (s.free 0)
  { s.setVolume dev (if failed then got.2.put b (some got.1) else (v.bread b (s.free 0)).2) with
    free := fun i => s.free (i + 1) }

def requests (dev : Nat) : List Nat → System → System
  | [], s => s
  | b :: rest, s => requests dev rest (if b = 0 then s else s.request dev b)

def copyBlk (data : Index) (address : Nat) (page : Page) : Page := fun k =>
  if address ≤ k ∧ k < address + 1024 then bytes data (k - address) else page k

/-- The second loop of `bread_page`. -/
def copies (dev : Nat) : List Nat → Nat → Page → System → Page × System
  | [], _, page, s => (page, s)
  | b :: rest, address, page, s =>
    if b = 0 then copies dev rest (address + 1024) page s
    else
      let page :=
        match (s.volume dev).cache b with
        | some bh => if bh.uptodate then copyBlk bh.data address page else page
        | none => page
      copies dev rest (address + 1024) page (s.setVolume dev ((s.volume dev).brelse b))

def breadPage (s : System) (page : Page) (dev : Nat) (b : List Nat) : Page × System :=
  copies dev b 0 page (requests dev b s)

/-! ## `do_no_page` -/

/-- The inode that the page at `tmp` comes from, and its first block. -/
def source (s : System) (tmp : UInt32) : Option Nat × UInt32 :=
  if LIBRARY_OFFSET ≤ tmp then (s.current.library, 1 + (tmp - LIBRARY_OFFSET) / BLOCK_SIZE)
  else if tmp < s.current.endData then (s.current.executable, 1 + tmp / BLOCK_SIZE)
  else (none, 0)

def tail (s : System) (tmp : UInt32) : Int32 :=
  let i := (tmp + 4096 - s.current.endData).toInt32
  if 4095 < i then 0 else i

def zeroTail : (i : Nat) → (tmp : Nat) → Page → Page
  | 0, _, page => page
  | i + 1, tmp, page => zeroTail i (tmp - 1) (update page (tmp - 1) 0)

def loadPage (s : System) (i : Nat) (block tmp : UInt32) (page : Page) :
    Except Bitmap.Panic (Page × System) :=
  (bmaps i 4 (block.toNat : Int) s).map fun got =>
    let read := got.2.breadPage page (s.inode i).dev got.1
    (zeroTail (s.tail tmp).toInt.toNat 4096 read.1, read.2)

end System

inductive Outcome where
  /-- `do_exit(SIGSEGV)`, for an address that is not the task's or for want of memory -/
  | exit
  /-- the page is on the swap device, and `swap_in` reads it -/
  | swapIn
  | panic (p : Option Bitmap.Panic)
  | shared (s : System)
  | mapped (s : System)

def swapped (m : VerifyArea.Memory) (address : UInt32) : Bool :=
  m.pgDir (dirOf address) &&& 1 ≠ 0 &&
    (m.table (dirOf address) (nrOf address) ≠ 0 && 1 &&& m.table (dirOf address) (nrOf address) = 0)

def loadInto (s : System) (i : Nat) (block tmp address : UInt32) : Outcome :=
  match getFreePage s.memory with
  | none => .exit
  | some (page, m) =>
    match s.loadPage i block tmp (m.page page) with
    | .error p => .panic (some p)
    | .ok (loaded, s) =>
      match putPage (m.setPage page loaded) page address with
      | none => .exit
      | some m => .mapped { s with memory := m }

def doNoPage (s : System) (address : UInt32) : Outcome :=
  if TASK_SIZE < address - s.current.startCode then .exit
  else if swapped s.memory address then .swapIn
  else
    let address := address &&& 0xfffff000
    let tmp := address - s.current.startCode
    match s.source tmp with
    | (none, _) =>
      match getEmptyPage s.memory address with
      | none => .exit
      | some m => .mapped { s with memory := m }
    | (some i, block) =>
      match sharePage s i tmp with
      | .yes m => .shared { s with memory := m }
      | .oom => .exit
      | .panic => .panic none
      | .no => loadInto s i block tmp address

end Linux012.Mm.DemandLoading

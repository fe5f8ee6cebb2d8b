import Linux012.Lib.Transition
import Mathlib.Algebra.GroupWithZero.Nat

/-! The inode table: `iget`, `iput`, `get_empty_inode`, `sync_inodes`, `read_inode`
and `write_inode` of `fs/inode.c`, `new_inode` and `free_inode` of `fs/bitmap.c`.
A process is the list of the places where it waits and where its callers go on.
A step ends at the next sleep, or earlier. Pipes are left out. -/

set_option autoImplicit false

namespace Linux012.Fs.InodeTable

open Transition Function

def NR_INODE : Nat := 64
def NR_SUPER : Nat := 8
def NR_TASKS : Nat := 64
def ROOT_INO : Nat := 1
def INODES_PER_BLOCK : Nat := 32

def S_IFMT : Nat := 0o170000
def S_IFBLK : Nat := 0o060000

theorem NR_INODE_pos : 0 < NR_INODE := by decide

instance zonesNeZero : NeZero 9 := ⟨by decide⟩

theorem zone_lt {block : Nat} (direct : block < 7) : block < 9 := Nat.lt_trans direct (by decide)

abbrev Slot := Fin NR_INODE
abbrev Pid := Fin NR_TASKS

structure DInode where
  mode : Nat
  uid : Nat
  size : Nat
  mtime : Nat
  gid : Nat
  nlinks : Nat
  zone : Fin 9 → Nat

def DInode.zero : DInode :=
  { mode := 0, uid := 0, size := 0, mtime := 0, gid := 0, nlinks := 0, zone := fun _ => 0 }

def DInode.isBlk (d : DInode) : Bool := d.mode &&& S_IFMT = S_IFBLK

structure Inode where
  data : DInode
  dev : Nat
  num : Nat
  count : Nat
  lock : Bool
  dirt : Bool
  mount : Bool
  /-- the data are those of the inode of the slot; not in the source -/
  loaded : Bool

def Inode.zero : Inode :=
  { data := .zero, dev := 0, num := 0, count := 0, lock := false, dirt := false, mount := false
    loaded := false }

structure Super where
  dev : Nat
  imount : Option Slot
  isup : Option Slot
  imapBlocks : Nat
  zmapBlocks : Nat
  ninodes : Nat

structure Request where
  dev : Nat
  num : Nat
  asked : Nat × Nat
deriving DecidableEq

inductive Purpose where
  | iget (r : Request)
  | newInode (dev uid gid time : Nat)
deriving DecidableEq

inductive Frame where
  /-- in `wait_on_inode` of `get_empty_inode` -/
  | emptyWait (i : Slot) (purpose : Purpose)
  /-- before the scan of the table, with the empty inode -/
  | scan (r : Request) (empty : Slot)
  | scanWait (i : Slot) (r : Request) (empty : Slot)
  | readLock (i : Slot) (r : Request)
  /-- in `bread` of `read_inode` -/
  | reading (i : Slot) (r : Request) (dev block : Nat)
  /-- `iget` has returned the slot -/
  | got (i : Slot) (r : Request)
  /-- in `get_super` of `new_inode` -/
  | newBit (empty : Slot) (dev uid gid time : Nat)
  | iputWait (i : Slot)
  /-- before `repeat` in `iput` -/
  | iputRepeat (i : Slot)
  | truncating (i : Slot)
  | syncing (k : Nat)
  | writeLock (i : Slot) (entered : Nat × Nat)
  /-- in `bread` of `write_inode`, which was entered for this inode -/
  | writing (i : Slot) (entered : Nat × Nat) (dev block : Nat)
deriving DecidableEq

structure State where
  super : Fin NR_SUPER → Super
  blkSize : Nat → Nat
  table : Slot → Inode
  lastInode : Slot
  disk : Nat → Nat → Nat → DInode
  imap : Nat → Nat → Bool
  /-- the references in use, by files and other inodes -/
  held : Slot → Nat
  control : Pid → List Frame

def State.setSlot (s : State) (i : Slot) (inode : Inode) : State :=
  { s with table := update s.table i inode }

def State.setCount (s : State) (i : Slot) (count : Nat) : State :=
  s.setSlot i { s.table i with count := count }

def State.setLock (s : State) (i : Slot) (lock : Bool) : State :=
  s.setSlot i { s.table i with lock := lock }

def State.getSuper (s : State) (dev : Nat) : Option Super :=
  if dev = 0 then none
  else ((List.finRange NR_SUPER).find? fun k => (s.super k).dev = dev).map s.super

def State.superOn (s : State) (i : Slot) : Option Super :=
  ((List.finRange NR_SUPER).find? fun k => (s.super k).imount = some i).map s.super

def recordOf (num : Nat) : Nat := (num + (2 ^ 32 - 1)) % 2 ^ 32

def Super.blockOf (sb : Super) (num : Nat) : Nat :=
  2 + sb.imapBlocks + sb.zmapBlocks + recordOf num / INODES_PER_BLOCK

def Slot.next (i : Slot) : Slot :=
  if below : i.val + 1 < NR_INODE then ⟨i.val + 1, below⟩ else ⟨0, by decide⟩

/-- The loop of `get_empty_inode` over the table. -/
def pickLoop (table : Slot → Inode) : Nat → Slot → Option Slot → Slot × Option Slot
  | 0, last, inode => (last, inode)
  | n + 1, last, inode =>
    let last := Slot.next last
    if (table last).count = 0 then
      if (table last).dirt = false ∧ (table last).lock = false then (last, some last)
      else pickLoop table n last (some last)
    else pickLoop table n last inode

abbrev Ran := Option (State × List Frame)

def Ran.then (ran : Ran) (frame : Frame) : Ran := ran.map fun (s, frames) => (s, frames ++ [frame])

def State.getEmptyInode (s : State) (purpose : Purpose) : Ran :=
  match pickLoop s.table NR_INODE s.lastInode none with
  | (_, none) => none
  | (last, some i) => some ({ s with lastInode := last }, [.emptyWait i purpose])

def State.readInode (s : State) (i : Slot) (r : Request) : Ran :=
  if (s.table i).lock then some (s, [.readLock i r])
  else
    (s.getSuper (s.table i).dev).map fun sb =>
      (s.setLock i true, [.reading i r (s.table i).dev (sb.blockOf (s.table i).num)])

/-- `write_inode` once it has the lock. -/
def State.writeLocked (s : State) (i : Slot) (entered : Nat × Nat) : Ran :=
  if (s.table i).dirt = false ∨ (s.table i).dev = 0 then some (s, [])
  else
    (s.getSuper (s.table i).dev).map fun sb =>
      (s.setLock i true, [.writing i entered (s.table i).dev (sb.blockOf (s.table i).num)])

def State.writeInode (s : State) (i : Slot) : Ran :=
  let entered := ((s.table i).dev, (s.table i).num)
  if (s.table i).lock then some (s, [.writeLock i entered]) else s.writeLocked i entered

/-- `iput` from `repeat` on. -/
def State.iputTail (s : State) (i : Slot) : Ran :=
  let inode := s.table i
  if inode.count > 1 then some (s.setCount i (inode.count - 1), [])
  else if inode.data.nlinks = 0 then some (s, [.truncating i])
  else if inode.dirt then (s.writeInode i).then (.iputRepeat i)
  else some (s.setCount i (inode.count - 1), [])

/-- `iput` after its first `wait_on_inode`. -/
def State.iputBody (s : State) (i : Slot) : Ran :=
  let inode := s.table i
  if inode.count = 0 then none
  else if inode.dev = 0 then some (s.setCount i (inode.count - 1), [])
  else if inode.data.isBlk then some (s, [.syncing 0, .iputRepeat i])
  else s.iputTail i

def State.iput (s : State) (i : Slot) : Ran :=
  if (s.table i).lock then some (s, [.iputWait i]) else s.iputBody i

def State.findInode (s : State) (dev num : Nat) : Option Slot :=
  (List.finRange NR_INODE).find? fun i => (s.table i).dev = dev ∧ (s.table i).num = num

/-- `iget` has found the inode in the table. -/
def State.found (s : State) (i : Slot) (r : Request) (empty : Slot) : Ran :=
  let s := s.setCount i ((s.table i).count + 1)
  if (s.table i).mount then
    match s.superOn i with
    | none => (s.iput empty).then (.got i r)
    | some sb => (s.iput i).then (.scan { r with dev := sb.dev, num := ROOT_INO } empty)
  else (s.iput empty).then (.got i r)

def State.claim (s : State) (r : Request) (empty : Slot) : State :=
  s.setSlot empty { s.table empty with dev := r.dev, num := r.num }

def State.firstZero (s : State) (dev : Nat) (sb : Super) : Option Nat :=
  (List.range (8192 * sb.imapBlocks)).find? fun j => s.imap dev j = false

def State.setBit (s : State) (dev num : Nat) (bit : Bool) : State :=
  { s with imap := update s.imap dev (update (s.imap dev) num bit) }

/-- `new_inode` after `get_empty_inode`. -/
def State.newInode (s : State) (empty : Slot) (dev uid gid time : Nat) : Ran :=
  (s.getSuper dev).bind fun sb =>
    match (s.firstZero dev sb).filter fun j => j ≤ sb.ninodes with
    | none => s.iput empty
    | some j =>
      let inode := s.table empty
      let inode :=
        { inode with
          data := { inode.data with nlinks := 1, uid := uid, gid := gid, mtime := time }
          dev := dev
          num := j
          count := 1
          dirt := true
          loaded := true }
      let s := (s.setBit dev j true).setSlot empty inode
      some ({ s with held := update s.held empty (s.held empty + 1) }, [])

def State.freeInode (s : State) (i : Slot) : Ran :=
  let inode := s.table i
  if inode.dev = 0 then some (s.setSlot i .zero, [])
  else if inode.count > 1 then none
  else if inode.data.nlinks ≠ 0 then none
  else
    (s.getSuper inode.dev).bind fun sb =>
      if inode.num < 1 ∨ inode.num > sb.ninodes ∨ inode.num / 8192 ≥ sb.imapBlocks then none
      else some ((s.setBit inode.dev inode.num false).setSlot i .zero, [])

def State.load (s : State) (i : Slot) (dev block : Nat) : State :=
  let inode := s.table i
  let data := s.disk dev block (recordOf inode.num % INODES_PER_BLOCK)
  let data := if data.isBlk then { data with size := s.blkSize (data.zone 0) } else data
  s.setSlot i { inode with data := data, lock := false, loaded := true }

def State.save (s : State) (i : Slot) (dev block : Nat) : State :=
  let inode := s.table i
  let records := update (s.disk dev block) (recordOf inode.num % INODES_PER_BLOCK) inode.data
  { s.setSlot i { inode with dirt := false, lock := false } with
    disk := update s.disk dev (update (s.disk dev) block records) }

def Purpose.next (empty : Slot) : Purpose → Frame
  | .iget r => .scan r empty
  | .newInode dev uid gid time => .newBit empty dev uid gid time

/-- What becomes of a process at this place; nothing while it sleeps. -/
def State.run (s : State) : Frame → Ran
  | .emptyWait i purpose =>
    if (s.table i).lock then none
    else if (s.table i).dirt then (s.writeInode i).then (.emptyWait i purpose)
    else if (s.table i).count ≠ 0 then s.getEmptyInode purpose
    else some (s.setSlot i { Inode.zero with count := 1 }, [purpose.next i])
  | .scan r empty =>
    match s.findInode r.dev r.num with
    | none => (s.claim r empty).readInode empty r
    | some i => if (s.table i).lock then some (s, [.scanWait i r empty]) else s.found i r empty
  | .scanWait i r empty =>
    if (s.table i).lock then none
    else if (s.table i).dev ≠ r.dev ∨ (s.table i).num ≠ r.num then some (s, [.scan r empty])
    else s.found i r empty
  | .readLock i r => if (s.table i).lock then none else s.readInode i r
  | .reading i r dev block => some (s.load i dev block, [.got i r])
  | .got i _ => some ({ s with held := update s.held i (s.held i + 1) }, [])
  | .newBit empty dev uid gid time => s.newInode empty dev uid gid time
  | .iputWait i => if (s.table i).lock then none else s.iputBody i
  | .iputRepeat i => if (s.table i).lock then none else s.iputTail i
  | .truncating i => s.freeInode i
  | .syncing k =>
    if below : k < NR_INODE then
      let i : Slot := ⟨k, below⟩
      if (s.table i).lock then none
      else if (s.table i).dirt then (s.writeInode i).then (.syncing (k + 1))
      else some (s, [.syncing (k + 1)])
    else some (s, [])
  | .writeLock i entered => if (s.table i).lock then none else s.writeLocked i entered
  | .writing i _ dev block => some (s.save i dev block, [])

def State.resume (p : Pid) (rest : List Frame) (ran : Ran) : Option State :=
  ran.map fun (s, frames) => { s with control := update s.control p (frames ++ rest) }

inductive Move where
  | iget (p : Pid) (dev num : Nat)
  | iput (p : Pid) (i : Slot)
  | newInode (p : Pid) (dev uid gid time : Nat)
  | sync (p : Pid)
  | run (p : Pid)
  /-- `truncate` has freed a zone of the inode -/
  | cut (p : Pid) (k : Fin 9)
  /-- `truncate` has been through all zones -/
  | pass (p : Pid)
  | modify (i : Slot) (data : DInode)

def State.step (s : State) : Move → Option State
  | .iget p dev num =>
    if s.control p = [] ∧ dev ≠ 0 then
      State.resume p [] (s.getEmptyInode (.iget ⟨dev, num, (dev, num)⟩))
    else none
  | .iput p i =>
    if s.control p = [] ∧ s.held i ≠ 0 then
      State.resume p [] ({ s with held := update s.held i (s.held i - 1) }.iput i)
    else none
  | .newInode p dev uid gid time =>
    if s.control p = [] ∧ dev ≠ 0 then
      State.resume p [] (s.getEmptyInode (.newInode dev uid gid time))
    else none
  | .sync p => if s.control p = [] then State.resume p [] (some (s, [.syncing 0])) else none
  | .run p =>
    match s.control p with
    | [] => none
    | frame :: rest => State.resume p rest (s.run frame)
  | .cut p k =>
    match s.control p with
    | .truncating i :: _ =>
      let inode := s.table i
      some (s.setSlot i
        { inode with data := { inode.data with zone := update inode.data.zone k 0 } })
    | _ => none
  | .pass p =>
    match s.control p with
    | .truncating i :: _ => some (s.setSlot i { s.table i with dirt := true })
    | _ => none
  | .modify i data =>
    if s.held i ≠ 0 then some (s.setSlot i { s.table i with data := data, dirt := true }) else none

end Linux012.Fs.InodeTable

import Linux012.Fs.Descriptors
import Linux012.Fs.EntryBlocks

/-! Reading, writing and seeking in a regular file: `fs/read_write.c` and `fs/file_dev.c`. -/

set_option autoImplicit false

namespace Linux012.Fs.ReadWrite

open Bitmap ZoneTree
open ZoneTree.State (blocks place)
open Descriptors (Word NR_OPEN O_APPEND)
open EntryBlocks (bytes)
open Namei (Byte)

def EIO : Word := 5
def EBADF : Word := 9
def EINVAL : Word := 22
def ESPIPE : Word := 29
def ERROR : Word := 99

def BLOCK_SIZE : Int := 1024

def major (dev : Nat) : Nat := dev / 256

def isSeekable (x : Nat) : Bool := 1 ≤ x && x ≤ 3

structure File where
  flags : Word
  pos : Word

structure State extends ZoneTree.State where
  dev : Nat
  size : Word
  atime : Nat
  mtime : Nat
  file : Nat → File
  filp : Nat → Option Nat
  bad : Nat → Bool

def setBytes (c : Int) (n : Nat) (buf : Nat → Byte) (data : Index) : Index := fun k =>
  let byte (i : Nat) : Nat := (if c ≤ i ∧ i < c + n then buf (i - c).toNat else bytes data i).toNat
  byte (2 * k) + 256 * byte (2 * k + 1)

namespace State

def fails (bad : Nat → Bool) (s : ZoneTree.State) (block : Nat) : Bool :=
  bad block && !(s.volume.cache block).any Buffer.uptodate

def failRead (s : ZoneTree.State) (block : Nat) : ZoneTree.State :=
  let got := s.volume.getblk block (s.free 0)
  { s with volume := got.2.put block (some got.1.brelse), free := fun i => s.free (i + 1) }

/-- The way through the index blocks in `_bmap`. -/
def descend (bad : Nat → Bool) (create : Bool) :
    List (Fin 512) → Nat → ZoneTree.State → Except Panic (Nat × ZoneTree.State)
  | [], z, s => .ok (z, s)
  | j :: path, z, s =>
    if z = 0 then .ok (0, s)
    else if fails bad s z then .ok (0, failRead s z)
    else (s.takeEntry create z j).bind fun got => descend bad create path got.1 got.2

/-- `_bmap` on a disk with bad blocks. -/
def mapBlock (bad : Nat → Bool) (create : Bool) (now : Nat) (block : Int) (s : ZoneTree.State) :
    Except Panic (Nat × ZoneTree.State) :=
  if negative : block < 0 then .error .bmapNegative
  else if big : blocks ≤ block then .error .bmapTooBig
  else
    let at_ := place ⟨block.toNat, ZoneTree.State.toNat_lt_blocks negative big⟩
    (s.takeZone create now at_.1).bind fun s => descend bad create at_.2 (s.zone at_.1) s

def bread (s : State) (block : Nat) : State :=
  { s with volume := (s.volume.bread block (s.free 0)).2, free := fun i => s.free (i + 1) }

def brelse (s : State) (block : Nat) : State := { s with volume := s.volume.brelse block }

def store (s : State) (block : Nat) (f : Index → Index) : State := { s with volume := s.volume.store block f }

def load (s : State) (block : Nat) (nr : Int) (chars : Nat) : List Byte :=
  (List.range chars).map fun k => bytes ((s.volume.cache block).elim (fun _ => 0) Buffer.data) (nr + k).toNat

def setPos (s : State) (f : Nat) (pos : Word) : State :=
  { s with file := Function.update s.file f { s.file f with pos } }

def fileOf (s : State) (fd : Word) : Option Nat := if fd.toNat < NR_OPEN then s.filp fd.toNat else none

/-! ## `sys_lseek` -/

def target (s : State) (f : Nat) (offset origin : Word) : Option Word :=
  if origin = 0 then some offset
  else if origin = 1 then some ((s.file f).pos + offset)
  else if origin = 2 then some (s.size + offset)
  else none

def sysLseek (s : State) (fd offset origin : Word) : Word × State :=
  match s.fileOf fd with
  | none => (-EBADF, s)
  | some f =>
    if isSeekable (major s.dev) then
      match s.target f offset origin with
      | none => (-EINVAL, s)
      | some pos => if pos.toInt < 0 then (-EINVAL, s) else (pos, s.setPos f pos)
    else (-EBADF, s)

/-! ## `sys_read` -/

/-- The loop of `file_read`. Each round reads at least one byte, so that `left` rounds are
enough. -/
def readLoop (f : Nat) : (rounds : Nat) → Nat → List Byte → State → Except Panic (Nat × List Byte × State)
  | 0, left, out, s => .ok (left, out, s)
  | rounds + 1, left, out, s =>
    if left = 0 then .ok (left, out, s)
    else
      let pos := (s.file f).pos
      (mapBlock s.bad false 0 (pos.toInt.tdiv BLOCK_SIZE) s.toState).bind fun got =>
        let t := { s with toState := got.2 }
        let nr := pos.toInt.tmod BLOCK_SIZE
        let chars := min (BLOCK_SIZE - nr).toNat left
        let moved (s : State) := s.setPos f (pos + BitVec.ofNat 32 chars)
        if got.1 = 0 then readLoop f rounds (left - chars) (out ++ List.replicate chars 0) (moved t)
        else if fails s.bad t.toState got.1 then .ok (left, out, { t with toState := failRead t.toState got.1 })
        else
          let t := moved (t.bread got.1)
          readLoop f rounds (left - chars) (out ++ t.load got.1 nr chars) (t.brelse got.1)

def fileRead (s : State) (f : Nat) (count : Word) (now : Nat) : Except Panic (Word × List Byte × State) :=
  (readLoop f count.toNat count.toNat [] s).map fun got =>
    let read := count.toNat - got.1
    (if read ≠ 0 then BitVec.ofNat 32 read else -ERROR, got.2.1, { got.2.2 with atime := now })

def sysRead (s : State) (fd count : Word) (now : Nat) : Except Panic (Word × List Byte × State) :=
  match s.fileOf fd with
  | none => .ok (-EINVAL, [], s)
  | some f =>
    if count.toInt < 0 then .ok (-EINVAL, [], s)
    else if count = 0 then .ok (0, [], s)
    else
      -- the sum and the size are compared without a sign
      let pos := (s.file f).pos
      let count := if s.size < count + pos then s.size - pos else count
      if count.toInt ≤ 0 then .ok (0, [], s) else s.fileRead f count now

/-! ## `sys_write` -/

def grow (s : State) (pos : Word) : State := if s.size < pos then { s with size := pos, dirt := true } else s

/-- The loop of `file_write`. -/
def writeLoop (count : Nat) (buf : Nat → Byte) (now : Nat) :
    (rounds : Nat) → Word → Nat → State → Except Panic (Word × Nat × State)
  | 0, pos, i, s => .ok (pos, i, s)
  | rounds + 1, pos, i, s =>
    if i < count then
      (mapBlock s.bad true now (pos.toInt.tdiv BLOCK_SIZE) s.toState).bind fun got =>
        let t := { s with toState := got.2 }
        if got.1 = 0 then .ok (pos, i, t)
        else if fails s.bad t.toState got.1 then .ok (pos, i, { t with toState := failRead t.toState got.1 })
        else
          let offset := pos.toInt.tmod BLOCK_SIZE
          let c := min (BLOCK_SIZE - offset).toNat (count - i)
          let pos := pos + BitVec.ofNat 32 c
          let t := ((t.bread got.1).grow pos).store got.1 (setBytes offset c fun k => buf (i + k))
          writeLoop count buf now rounds pos (i + c) (t.brelse got.1)
    else .ok (pos, i, s)

def appends (s : State) (f : Nat) : Bool := (s.file f).flags &&& O_APPEND ≠ 0

def start (s : State) (f : Nat) : Word := if s.appends f then s.size else (s.file f).pos

def fileWrite (s : State) (f : Nat) (count : Word) (buf : Nat → Byte) (now : Nat) : Except Panic (Word × State) :=
  (writeLoop count.toNat buf now count.toNat (s.start f) 0 s).map fun got =>
    let t := { got.2.2 with mtime := now }
    (if got.2.1 ≠ 0 then BitVec.ofNat 32 got.2.1 else -1,
      if s.appends f then t else { t.setPos f got.1 with ctime := now })

def sysWrite (s : State) (fd count : Word) (buf : Nat → Byte) (now : Nat) : Except Panic (Word × State) :=
  match s.fileOf fd with
  | none => .ok (-EINVAL, s)
  | some f =>
    if count.toInt < 0 then .ok (-EINVAL, s)
    else if count = 0 then .ok (0, s)
    else s.fileWrite f count buf now

end State

inductive Call where
  | lseek (fd offset origin : Word)
  | read (fd count : Word) (now : Nat)
  | write (fd count : Word) (buf : Nat → Byte) (now : Nat)

def State.call (s : State) : Call → Except Panic State
  | .lseek fd offset origin => .ok (s.sysLseek fd offset origin).2
  | .read fd count now => (s.sysRead fd count now).map fun got => got.2.2
  | .write fd count buf now => (s.sysWrite fd count buf now).map Prod.snd

def step : Except Panic State → Call → Option (Except Panic State)
  | .ok s, c => some (s.call c)
  | .error _, _ => none

end Linux012.Fs.ReadWrite

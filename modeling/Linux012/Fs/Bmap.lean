import Linux012.Lib.Transition
import Mathlib.Algebra.GroupWithZero.Nat

/-! `_bmap` with `create` set, and `new_block` under it, by several processes on
one inode: `fs/inode.c` and `fs/bitmap.c`. A step runs from one sleep to the
next, and the calls sleep in `new_block` and in `bread`. -/

set_option autoImplicit false

namespace Linux012.Fs.Bmap

open Transition Function

instance zonesNeZero : NeZero 9 := ⟨by decide⟩

structure SuperBlock where
  zmapBlocks : Nat
  firstdatazone : Nat
  nzones : Nat
  data_pos : 1 < firstdatazone

/-- Where the number of a zone is kept: in `i_zone`, or in an index block. -/
inductive Slot where
  | zone (k : Fin 9)
  | entry (z : Nat) (k : Fin 512)
deriving DecidableEq

/-- The first slot of `_bmap` for a block, and the entries taken below it. -/
def path (block : Nat) : Option (Slot × List (Fin 512)) :=
  if below : block < 7 then some (.zone ⟨block, by omega⟩, [])
  else if below : block - 7 < 512 then some (.zone 7, [⟨block - 7, below⟩])
  else if below : block - 7 - 512 < 512 * 512 then
    some (.zone 8, [⟨(block - 7 - 512) / 512, by omega⟩, ⟨(block - 7 - 512) % 512, by omega⟩])
  else none

structure Call where
  block : Nat
  slot : Slot
  rest : List (Fin 512)
deriving DecidableEq

inductive Control where
  | idle
  /-- in `bread` of the index block with the slot -/
  | reading (call : Call)
  /-- the slot was empty; in `new_block`, before the search for a free bit -/
  | empty (call : Call)
  /-- in `new_block`, waiting for the buffer of its zone -/
  | taken (call : Call) (z : Nat)
deriving DecidableEq

structure State where
  sb : SuperBlock
  zone : Fin 9 → Nat
  index : Nat → Fin 512 → Nat
  zmap : Nat → Bool
  control : Nat → Control
  /-- the zones that `new_block` has returned -/
  given : List Nat
  /-- what the finished calls returned for their blocks -/
  results : List (Nat × Nat)

def State.value (s : State) : Slot → Nat
  | .zone k => s.zone k
  | .entry z k => s.index z k

def State.store (s : State) (slot : Slot) (z : Nat) : State :=
  match slot with
  | .zone k => { s with zone := update s.zone k z }
  | .entry y k => { s with index := update s.index y (update (s.index y) k z) }

def State.clearBlock (s : State) (z : Nat) : State :=
  { s with index := update s.index z fun _ => 0 }

def State.goto (s : State) (p : Nat) (c : Control) : State :=
  { s with control := update s.control p c }

def State.return (s : State) (p block z : Nat) : State :=
  { s.goto p .idle with results := (block, z) :: s.results }

def State.firstZero (s : State) : Option Nat :=
  (List.range (8192 * s.sb.zmapBlocks)).find? fun j => s.zmap j = false

def SuperBlock.zoneOf (sb : SuperBlock) (j : Nat) : Nat := j + sb.firstdatazone - 1

def State.freeZone (s : State) : Option Nat :=
  (s.firstZero.map s.sb.zoneOf).filter fun z => z < s.sb.nzones

/-- `set_bit`, also for a bit beyond the device. -/
def State.setBit (s : State) : State :=
  match s.firstZero with
  | some j => { s with zmap := update s.zmap j true }
  | none => s

def State.proceed (s : State) (p : Nat) (call : Call) (z : Nat) : State :=
  match call.rest with
  | [] => s.return p call.block z
  | k :: rest => s.goto p (.reading ⟨call.block, .entry z k, rest⟩)

def State.visit (s : State) (p : Nat) (call : Call) : State :=
  if s.value call.slot = 0 then s.goto p (.empty call) else s.proceed p call (s.value call.slot)

inductive Move where
  | call (p block : Nat)
  /-- `bread` comes back, with a buffer or without -/
  | read (p : Nat) (found : Bool)
  /-- `new_block` takes a bit -/
  | alloc (p : Nat)
  /-- `new_block` comes back, and the call assigns -/
  | assign (p : Nat)

def State.step (s : State) : Move → Option State
  | .call p block =>
    match s.control p, path block with
    | .idle, some (slot, rest) => some (s.visit p ⟨block, slot, rest⟩)
    | _, _ => none
  | .read p found =>
    match s.control p with
    | .reading call => some (if found then s.visit p call else s.return p call.block 0)
    | _ => none
  | .alloc p =>
    match s.control p with
    | .empty call =>
      match s.freeZone with
      | some z => some (s.setBit.goto p (.taken call z))
      | none =>
        -- `i_zone[block]=new_block(..)` stores the 0, in an index block it is not stored
        match call.slot with
        | .zone _ => some ((s.setBit.store call.slot 0).return p call.block 0)
        | .entry _ _ => some (s.setBit.return p call.block 0)
    | _ => none
  | .assign p =>
    match s.control p with
    | .taken call z =>
      some ({ (s.clearBlock z).store call.slot z with given := z :: s.given }.proceed p call z)
    | _ => none

end Linux012.Fs.Bmap

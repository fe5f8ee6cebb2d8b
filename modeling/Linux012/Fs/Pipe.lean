import Linux012.Lib.Tickets
import Linux012.Lib.Transition
import Mathlib.Data.Fintype.Basic

/-! `fs/pipe.c`: readers and writers of one pipe, which may sleep in
`interruptible_sleep_on` and `sleep_on`, and in a page fault of `put_fs_byte` and
`get_fs_byte`. -/

set_option autoImplicit false

namespace Linux012.Fs.Pipe

open Transition Function

def PAGE_SIZE : Nat := 4096

/-- A part of the page that a call has claimed: it goes on at the index `size`, with
`chars` bytes of this part to go and `count` bytes after it. The next byte is byte
number `pos` of all that were claimed so. -/
structure Chunk where
  size : Nat
  chars : Nat
  count : Nat
  pos : Nat
deriving DecidableEq

def Chunk.next (chunk : Chunk) : Chunk where
  size := chunk.size + 1
  chars := chunk.chars - 1
  count := chunk.count
  pos := chunk.pos + 1

/-- What a process does with the pipe. The calls are `reading` and `writing` at the
top of their loops, where they sleep when there is nothing to do. -/
inductive Activity where
  | idle
  | reading (count : Nat)
  | writing (count : Nat)
  /-- in `put_fs_byte`, with the byte in a register -/
  | delivering (chunk : Chunk) (byte : UInt8)
  /-- in `get_fs_byte` -/
  | fetching (chunk : Chunk)
deriving DecidableEq

namespace Activity

def reads : Activity → List Nat
  | .delivering chunk _ => List.range' chunk.pos chunk.chars
  | _ => []

def unread : Activity → List Nat
  | .delivering chunk _ => List.range' (chunk.pos + 1) (chunk.chars - 1)
  | _ => []

def writes : Activity → List Nat
  | .fetching chunk => List.range' chunk.pos chunk.chars
  | _ => []

def wantsBytes : Activity → Bool
  | .reading (_ + 1) => true
  | _ => false

end Activity

/-- The pipe inode and its processes; `readPos` and `writePos` count the bytes that
were claimed, `delivered` and `supplied` are the bytes that `put_fs_byte` and
`get_fs_byte` have moved, each with its number. -/
structure State (ρ : Type) where
  head : Nat
  tail : Nat
  page : Nat → UInt8
  proc : ρ → Activity
  readPos : Nat
  writePos : Nat
  delivered : List (Nat × UInt8)
  supplied : List (Nat × UInt8)

inductive Move (ρ : Type) where
  /-- a call of `read_pipe` -/
  | read (p : ρ) (count : Nat)
  /-- a call of `write_pipe` -/
  | write (p : ρ) (count : Nat)
  /-- one turn of the outer loop, up to the first byte, or the end of the call -/
  | claim (p : ρ)
  /-- the call ends at the empty or full pipe, as there are no others, or for a signal -/
  | giveUp (p : ρ)
  | putFsByte (p : ρ)
  | getFsByte (p : ρ) (byte : UInt8)

variable {ρ : Type} [DecidableEq ρ]

namespace State

/-- `PIPE_SIZE`: the difference of the two indices, in the bits of `PAGE_SIZE-1` -/
def pipeSize (s : State ρ) : Nat := (s.head + PAGE_SIZE - s.tail) % PAGE_SIZE

def setProc (s : State ρ) (p : ρ) (activity : Activity) : State ρ :=
  { s with proc := update s.proc p activity }

/-- `chars`, after the three comparisons -/
def chars (room count size : Nat) : Nat :=
  let chars := room
  let chars := if chars > count then count else chars
  if chars > size then size else chars

def claimRead (s : State ρ) (p : ρ) (count : Nat) : State ρ :=
  let n := chars (PAGE_SIZE - s.tail) count s.pipeSize
  { s with
    tail := (s.tail + n) &&& (PAGE_SIZE - 1)
    readPos := s.readPos + n
    proc := update s.proc p
      (.delivering { size := s.tail, chars := n, count := count - n, pos := s.readPos } (s.page s.tail)) }

def claimWrite (s : State ρ) (p : ρ) (count : Nat) : State ρ :=
  let n := chars (PAGE_SIZE - s.head) count (PAGE_SIZE - 1 - s.pipeSize)
  { s with
    head := (s.head + n) &&& (PAGE_SIZE - 1)
    writePos := s.writePos + n
    proc := update s.proc p
      (.fetching { size := s.head, chars := n, count := count - n, pos := s.writePos }) }

def claim (s : State ρ) (p : ρ) : Option (State ρ) :=
  match s.proc p with
  | .reading count =>
    if count = 0 then some (s.setProc p .idle)
    else if s.pipeSize = 0 then none
    else some (s.claimRead p count)
  | .writing count =>
    if count = 0 then some (s.setProc p .idle)
    else if PAGE_SIZE - 1 - s.pipeSize = 0 then none
    else some (s.claimWrite p count)
  | _ => none

def giveUp (s : State ρ) (p : ρ) : Option (State ρ) :=
  match s.proc p with
  | .reading count => if 0 < count ∧ s.pipeSize = 0 then some (s.setProc p .idle) else none
  | .writing count =>
    if 0 < count ∧ PAGE_SIZE - 1 - s.pipeSize = 0 then some (s.setProc p .idle) else none
  | _ => none

/-- The byte reaches the user; the next one is read from the page at once. -/
def putFsByte (s : State ρ) (p : ρ) : Option (State ρ) :=
  match s.proc p with
  | .delivering chunk byte =>
    some
      { s with
        delivered := s.delivered ++ [(chunk.pos, byte)]
        proc := update s.proc p
          (if chunk.chars = 1 then .reading chunk.count
            else .delivering chunk.next (s.page chunk.next.size)) }
  | _ => none

def getFsByte (s : State ρ) (p : ρ) (byte : UInt8) : Option (State ρ) :=
  match s.proc p with
  | .fetching chunk =>
    some
      { s with
        page := update s.page chunk.size byte
        supplied := s.supplied ++ [(chunk.pos, byte)]
        proc := update s.proc p
          (if chunk.chars = 1 then .writing chunk.count else .fetching chunk.next) }
  | _ => none

def step (s : State ρ) : Move ρ → Option (State ρ)
  | .read p count => if s.proc p = .idle then some (s.setProc p (.reading count)) else none
  | .write p count => if s.proc p = .idle then some (s.setProc p (.writing count)) else none
  | .claim p => s.claim p
  | .giveUp p => s.giveUp p
  | .putFsByte p => s.putFsByte p
  | .getFsByte p byte => s.getFsByte p byte

/-- What `get_pipe_inode` makes. -/
def init : State ρ where
  head := 0
  tail := 0
  page := fun _ => 0
  proc := fun _ => .idle
  readPos := 0
  writePos := 0
  delivered := []
  supplied := []

def stream (log : List (Nat × UInt8)) (claimed : Nat) : List UInt8 :=
  (List.range claimed).filterMap fun i => log.lookup i

/-- The pipe is a stream: every byte that is claimed is delivered once, and is the
one that was supplied with its number. -/
structure Fifo (s : State ρ) : Prop where
  sameByte : ∀ {i byte}, (i, byte) ∈ s.delivered → (i, byte) ∈ s.supplied
  deliveredOnce : (s.delivered.map Prod.fst).Nodup
  suppliedOnce : (s.supplied.map Prod.fst).Nodup
  noneLost : ∀ i, i < s.readPos ↔ i ∈ s.delivered.map Prod.fst ∨ ∃ p, i ∈ (s.proc p).reads
  noneMissing : ∀ i, i < s.writePos ↔ i ∈ s.supplied.map Prod.fst ∨ ∃ p, i ∈ (s.proc p).writes
  isPrefix : (∀ p, (s.proc p).reads = []) → stream s.delivered s.readPos <+: stream s.supplied s.writePos

def Stored (s : State ρ) (i : Nat) : Prop := ∀ p, i ∉ (s.proc p).writes

/-- No reader has claimed an older byte that is at the same place of the page, without
reading it. -/
def Drained (s : State ρ) (i : Nat) : Prop :=
  ∀ p, ∀ j ∈ (s.proc p).unread, j < i → j % PAGE_SIZE ≠ i % PAGE_SIZE

end State

instance [Fintype ρ] (s : State ρ) (i : Nat) : Decidable (s.Stored i) :=
  inferInstanceAs (Decidable (∀ _, _))

instance [Fintype ρ] (s : State ρ) (i : Nat) : Decidable (s.Drained i) :=
  inferInstanceAs (Decidable (∀ _, ∀ _ ∈ _, _ → _))

/-- The bytes are read from the page after they are stored, and stored after the
bytes that were there are read. -/
def InTurn (s : State ρ) : Move ρ → Prop
  | .claim p => (s.proc p).wantsBytes → s.Stored s.readPos
  | .putFsByte p => ∀ i ∈ (s.proc p).unread.head?, s.Stored i
  | .getFsByte p _ => ∀ i ∈ (s.proc p).writes.head?, s.Drained i
  | _ => True

instance [Fintype ρ] (s : State ρ) (m : Move ρ) : Decidable (InTurn s m) := by
  cases m <;> unfold InTurn <;> infer_instance

end Linux012.Fs.Pipe

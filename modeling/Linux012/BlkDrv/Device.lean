import Linux012.BlkDrv.Request
import Mathlib.Algebra.Group.Nat.Defs

/-! `end_request` and `INIT_REQUEST` of `kernel/blk_drv/blk.h`, which every block driver
compiles with its own `MAJOR_NR`. The queue is the list read from `CURRENT` along the
`next` links. Waking the sleepers touches no request and no buffer, and is left out. -/

set_option autoImplicit false

namespace Linux012.BlkDrv

open Function

structure BufferHead where
  bLock : Bool
  bUptodate : Bool
  bBlocknr : BitVec 32
deriving DecidableEq

/-- A queued entry of `request[]`, with the fields that the drivers use; `bh` is absent for
a swap request. -/
structure Entry where
  dev : BitVec 32
  cmd : Nat
  errors : Int
  sector : BitVec 32
  nrSectors : BitVec 32
  buffer : BitVec 32
  bh : Option Nat
deriving DecidableEq

def Entry.major (req : Entry) : Nat := req.dev.toNat / 2 ^ 8

def Entry.minor (req : Entry) : Nat := req.dev.toNat % 2 ^ 8

def Entry.countError (req : Entry) : Entry := { req with errors := req.errors + 1 }

def Entry.view (req : Entry) : Request where
  dev := req.dev.toInt
  cmd := req.cmd
  errors := req.errors.toNat
  sector := req.sector.toNat
  nrSectors := req.nrSectors.toNat
  waiting := none
  bh := req.bh

inductive Printed where
  | freeBufferUnlocked
  | ioError (dev block : BitVec 32)
  | hdTimeout
  | unexpectedInterrupt
  | writeProtected
deriving DecidableEq

inductive Fault where
  /-- a field of `CURRENT` is used, and there is no request -/
  | nullRequest
  /-- a field of `CURRENT->bh` is used, and there is no buffer -/
  | nullBuffer
  | divideError
  | listDestroyed
  | blockNotLocked
  | badSector
  /-- the panic "unknown hd-command" or "do_fd_request: unknown command" -/
  | unknownCommand
deriving DecidableEq

/-- The queue of a driver and the buffers, with the driver's own variables in `own`;
`finished` records the requests that `end_request` was called for, with its argument. -/
structure Device (σ : Type) where
  queue : List Entry
  buffers : Nat → BufferHead
  printed : List Printed
  finished : List (Entry × Bool)
  own : σ

abbrev Drive (σ : Type) := Except (Fault × Device σ)

namespace Device

variable {σ : Type}

/-- Follows the pointer `CURRENT`. -/
def withCurrent (s : Device σ) (use : Entry → Drive σ (Device σ)) : Drive σ (Device σ) :=
  match s.queue with
  | [] => .error (.nullRequest, s)
  | current :: _ => use current

def setCurrent (s : Device σ) (req : Entry) : Device σ := { s with queue := req :: s.queue.tail }

def setOwn (s : Device σ) (own : σ) : Device σ := { s with own := own }

def printk (s : Device σ) (text : Printed) : Device σ := { s with printed := text :: s.printed }

def unlockBuffer (s : Device σ) (bh : Nat) : Device σ :=
  let s := if (s.buffers bh).bLock then s else s.printk .freeBufferUnlocked
  { s with buffers := update s.buffers bh { s.buffers bh with bLock := false } }

def releaseBuffer (s : Device σ) (uptodate : Bool) : Option Nat → Device σ
  | none => s
  | some bh =>
    { s with buffers := update s.buffers bh { s.buffers bh with bUptodate := uptodate } }.unlockBuffer bh

/-- The second `printk` reads `CURRENT->bh->b_blocknr` whether or not there is a buffer. -/
def reportError (s : Device σ) (req : Entry) : Drive σ (Device σ) :=
  match req.bh with
  | none => .error (.nullBuffer, s)
  | some bh => .ok (s.printk (.ioError req.dev (s.buffers bh).bBlocknr))

def unlink (s : Device σ) (req : Entry) (uptodate : Bool) : Device σ :=
  { s with queue := s.queue.tail, finished := (req, uptodate) :: s.finished }

def endRequest (s : Device σ) (uptodate : Bool) : Drive σ (Device σ) :=
  s.withCurrent fun current => do
    let s := s.releaseBuffer uptodate current.bh
    let s ← if uptodate then pure s else s.reportError current
    pure (s.unlink current uptodate)

/-- The panics of `INIT_REQUEST`. -/
def initRequest (s : Device σ) (majorNr : Nat) (current : Entry) : Drive σ (Device σ) :=
  if current.major ≠ majorNr then .error (.listDestroyed, s)
  else if current.bh.any (fun bh => !(s.buffers bh).bLock) then .error (.blockNotLocked, s)
  else .ok s

def after : Drive σ (Device σ) → Device σ
  | .ok s => s
  | .error fault => fault.2

section Lemmas

variable {s : Device σ} {current : Entry} {rest : List Entry}

theorem withCurrent_cons (queue : s.queue = current :: rest) (use : Entry → Drive σ (Device σ)) :
    s.withCurrent use = use current := by
  simp only [withCurrent, queue]

theorem withCurrent_nil (queue : s.queue = []) (use : Entry → Drive σ (Device σ)) :
    s.withCurrent use = .error (.nullRequest, s) := by
  simp only [withCurrent, queue]

theorem setCurrent_queue (queue : s.queue = current :: rest) (req : Entry) :
    (s.setCurrent req).queue = req :: rest := by
  simp only [setCurrent, queue, List.tail_cons]

@[simp] theorem setOwn_queue (own : σ) : (s.setOwn own).queue = s.queue := rfl

@[simp] theorem setOwn_own (own : σ) : (s.setOwn own).own = own := rfl

@[simp] theorem printk_queue (text : Printed) : (s.printk text).queue = s.queue := rfl

@[simp] theorem setCurrent_own (req : Entry) : (s.setCurrent req).own = s.own := rfl

theorem unlockBuffer_keeps (bh : Nat) :
    (s.unlockBuffer bh).queue = s.queue ∧ (s.unlockBuffer bh).finished = s.finished ∧
      (s.unlockBuffer bh).own = s.own ∧
      (s.unlockBuffer bh).buffers = update s.buffers bh { s.buffers bh with bLock := false } := by
  simp only [unlockBuffer]
  split
  · exact ⟨rfl, rfl, rfl, rfl⟩
  · exact ⟨rfl, rfl, rfl, rfl⟩

theorem releaseBuffer_keeps (uptodate : Bool) (bh : Option Nat) :
    (s.releaseBuffer uptodate bh).queue = s.queue ∧ (s.releaseBuffer uptodate bh).finished = s.finished ∧
      (s.releaseBuffer uptodate bh).own = s.own := by
  cases bh with
  | none => exact ⟨rfl, rfl, rfl⟩
  | some bh =>
    obtain ⟨queue, finished, own, _⟩ := unlockBuffer_keeps
      (s := { s with buffers := update s.buffers bh { s.buffers bh with bUptodate := uptodate } }) bh
    exact ⟨queue, finished, own⟩

theorem releaseBuffer_buffers (uptodate : Bool) (bh : Nat) :
    (s.releaseBuffer uptodate (some bh)).buffers =
      update s.buffers bh { s.buffers bh with bLock := false, bUptodate := uptodate } := by
  have unlocked := (unlockBuffer_keeps
    (s := { s with buffers := update s.buffers bh { s.buffers bh with bUptodate := uptodate } }) bh).2.2.2
  simpa only [releaseBuffer, update_self, update_idem] using unlocked

theorem endRequest_true (queue : s.queue = current :: rest) :
    s.endRequest true = .ok ((s.releaseBuffer true current.bh).unlink current true) := by
  rw [endRequest, withCurrent_cons queue]
  rfl

theorem endRequest_swap (queue : s.queue = current :: rest) (swap : current.bh = none) :
    s.endRequest false = .error (.nullBuffer, s) := by
  rw [endRequest, withCurrent_cons queue, swap]
  simp only [releaseBuffer, reportError, swap]
  rfl

theorem endRequest_buffer {bh : Nat} (queue : s.queue = current :: rest) (buffer : current.bh = some bh) :
    ∃ s', s.endRequest false = .ok s' ∧ s'.queue = rest ∧ s'.own = s.own ∧
      s'.finished = (current, false) :: s.finished ∧
      s'.buffers = update s.buffers bh { s.buffers bh with bLock := false, bUptodate := false } := by
  obtain ⟨sameQueue, finished, own⟩ := releaseBuffer_keeps (s := s) false current.bh
  have buffers := releaseBuffer_buffers (s := s) false bh
  rw [buffer] at sameQueue finished own
  refine ⟨((s.releaseBuffer false (some bh)).printk
      (.ioError current.dev ((s.releaseBuffer false (some bh)).buffers bh).bBlocknr)).unlink current false,
    ?_, ?_, own, congrArg ((current, false) :: ·) finished, buffers⟩
  · rw [endRequest, withCurrent_cons queue, buffer]
    simp only [reportError, buffer]
    rfl
  · rw [unlink, printk_queue, sameQueue, queue, List.tail_cons]

end Lemmas

end Device

end Linux012.BlkDrv

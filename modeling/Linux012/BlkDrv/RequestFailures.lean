import Linux012.BlkDrv.Floppy
import Linux012.BlkDrv.HardDisk

/-! Giving up on the current request: the error counts of the hard disk and the floppy, the
timeout, the range checks and the write protection. -/

set_option autoImplicit false

namespace Linux012.BlkDrv

open HardDisk (firstBlock readingDisk oneDisk)

/-- A request is given up: it alone leaves the queue, its buffer is unlocked and not up to
date, and nothing else of the queue and the buffers changes. -/
structure Device.GivenUp {σ : Type} (s s' : Device σ) (current : Entry) (rest : List Entry) : Prop where
  queue : s'.queue = rest
  buffer : ∀ bh, current.bh = some bh → (s'.buffers bh).bLock = false ∧ (s'.buffers bh).bUptodate = false
  others : ∀ bh, current.bh ≠ some bh → s'.buffers bh = s.buffers bh
  finished : ∃ req, req.bh = current.bh ∧ s'.finished = (req, false) :: s.finished

def Device.GivesUp {σ : Type} (s : Device σ) (current : Entry) (rest : List Entry)
    (run : Drive σ (Device σ)) : Prop :=
  ∃ s', run = .ok s' ∧ s.GivenUp s' current rest

section Common

variable {σ : Type} (s : Device σ) {s₁ : Device σ} (current : Entry) {req : Entry} {rest : List Entry}

theorem Device.endRequest_givesUp (queue : s₁.queue = req :: rest) (buffers : s₁.buffers = s.buffers)
    (finished : s₁.finished = s.finished) (sameBh : req.bh = current.bh) :
    s.GivesUp current rest (s₁.endRequest false) ↔ current.bh.isSome := by
  cases bh : current.bh with
  | none =>
    rw [Device.endRequest_swap queue (sameBh.trans bh)]
    constructor
    · rintro ⟨_, run, _⟩
      cases run
    · intro buffer
      cases buffer
  | some number =>
    obtain ⟨s', run, after, _, ended, released⟩ := Device.endRequest_buffer queue (sameBh.trans bh)
    refine iff_of_true ⟨s', run, after, ?_, ?_, req, sameBh, by rw [ended, finished]⟩ rfl
    · intro other same
      obtain rfl : number = other := Option.some.inj (bh.symm.trans same)
      rw [released, Function.update_self]
      exact ⟨rfl, rfl⟩
    · intro other different
      have apart : other ≠ number := fun same => different (bh.trans (congrArg some same.symm))
      rw [released, Function.update_of_ne apart, buffers]

theorem Device.endRequest_then_current (queue : s₁.queue = req :: rest) (buffers : s₁.buffers = s.buffers)
    (finished : s₁.finished = s.finished) (sameBh : req.bh = current.bh)
    {look : Device σ → Entry → Device σ}
    (keeps : ∀ s next, (look s next).queue = s.queue ∧ (look s next).buffers = s.buffers ∧
      (look s next).finished = s.finished) :
    s.GivesUp current rest ((s₁.endRequest false).bind fun s => s.withCurrent fun next => .ok (look s next)) ↔
      current.bh.isSome ∧ rest ≠ [] := by
  have ends := Device.endRequest_givesUp s current queue buffers finished sameBh
  constructor
  · rintro ⟨s', run, gave⟩
    cases ended : s₁.endRequest false with
    | error fault =>
      rw [ended] at run
      cases run
    | ok s₂ =>
      rw [ended] at run
      have run : s₂.withCurrent (fun next => .ok (look s₂ next)) = .ok s' := run
      cases after : s₂.queue with
      | nil =>
        rw [Device.withCurrent_nil after] at run
        cases run
      | cons next others =>
        rw [Device.withCurrent_cons after] at run
        obtain rfl : look s₂ next = s' := Except.ok.inj run
        obtain ⟨sameQueue, sameBuffers, sameFinished⟩ := keeps s₂ next
        have left : s₂.queue = rest := sameQueue.symm.trans gave.queue
        refine ⟨ends.mp ⟨s₂, ended, left, ?_, ?_, ?_⟩, ?_⟩
        · exact sameBuffers ▸ gave.buffer
        · exact sameBuffers ▸ gave.others
        · exact sameFinished ▸ gave.finished
        · rw [← left, after]
          exact List.cons_ne_nil next others
  · rintro ⟨buffer, more⟩
    obtain ⟨s₂, ended, gave⟩ := ends.mpr buffer
    obtain ⟨next, others, behind⟩ := List.exists_cons_of_ne_nil more
    obtain ⟨sameQueue, sameBuffers, sameFinished⟩ := keeps s₂ next
    refine ⟨look s₂ next, ?_, sameQueue.trans gave.queue, ?_, ?_, ?_⟩
    · rw [ended]
      exact Device.withCurrent_cons (gave.queue.trans behind) _
    · exact sameBuffers ▸ gave.buffer
    · exact sameBuffers ▸ gave.others
    · exact sameFinished ▸ gave.finished

end Common

namespace HardDisk

inductive Path where
  | badRwIntr
  | hdTimesOut
  | outOfRange
deriving DecidableEq

def Hopeless (t : Drives) (s : Driver) (current : Entry) : Path → Prop
  | .badRwIntr => MAX_ERRORS ≤ current.errors + 1
  | .hdTimesOut => MAX_ERRORS ≤ current.errors + 1
  | .outOfRange => s.initRequest 3 current = .ok s ∧ accepts t current.minor current.sector = false

/-- The function that gives up, up to its call of `do_hd_request`. -/
def giveUp (s : Driver) : Path → Drive Hd Driver
  | .badRwIntr => badRwIntr s
  | .hdTimesOut => countTimeout s
  | .outOfRange => s.endRequest false

def calling (t : Drives) (s : Driver) : Path → Drive Hd Driver
  | .badRwIntr => readIntr t s true
  | .hdTimesOut => hdTimesOut t s
  | .outOfRange => doHdRequest t s

def goesOn (t : Drives) (s : Driver) : Path → Drive Hd Driver
  | .badRwIntr => doHdRequest t s
  | .hdTimesOut =>
    let s := setIntr s none
    doHdRequest t (s.setOwn { s.own with reset := true })
  | .outOfRange => requestLoop t s.queue s

theorem calling_eq {t : Drives} {s : Driver} {current : Entry} {rest : List Entry}
    (queue : s.queue = current :: rest) (path : Path) (hopeless : Hopeless t s current path) :
    calling t s path = (giveUp s path).bind fun s => goesOn t s path := by
  cases path with
  | badRwIntr => rfl
  | hdTimesOut =>
    simp only [calling, hdTimesOut, queue]
    rfl
  | outOfRange => exact doHdRequest_rejects queue hopeless.1 hopeless.2

theorem giveUp_iff {t : Drives} {s : Driver} {current : Entry} {rest : List Entry}
    (queue : s.queue = current :: rest) (path : Path) (hopeless : Hopeless t s current path) :
    s.GivesUp current rest (giveUp s path) ↔ current.bh.isSome ∧ (path = .badRwIntr → rest ≠ []) := by
  cases path with
  | badRwIntr =>
    have run : badRwIntr s = ((s.setCurrent current.countError).endRequest
        false).bind fun s => s.withCurrent fun next => .ok
          (if MAX_ERRORS / 2 < next.errors then s.setOwn { s.own with reset := true } else s) := by
      have tooMany : MAX_ERRORS ≤ current.countError.errors := hopeless
      rw [badRwIntr, Device.withCurrent_cons queue]
      simp only [if_pos tooMany]
      rfl
    rw [giveUp, run, forall_prop_of_true rfl]
    refine Device.endRequest_then_current s current (Device.setCurrent_queue queue _) rfl rfl ?_ ?_
    · rfl
    · intro s next
      split
      · exact ⟨rfl, rfl, rfl⟩
      · exact ⟨rfl, rfl, rfl⟩
  | hdTimesOut =>
    have run : countTimeout s = ((s.printk .hdTimeout).setCurrent
        current.countError).endRequest false := by
      have tooMany : MAX_ERRORS ≤ current.countError.errors := hopeless
      rw [countTimeout, Device.withCurrent_cons queue]
      exact if_pos tooMany
    rw [giveUp, run]
    simp only [reduceCtorEq, false_implies, and_true]
    exact Device.endRequest_givesUp s current (Device.setCurrent_queue (s := s.printk .hdTimeout) queue _) rfl rfl rfl
  | outOfRange =>
    rw [giveUp]
    simp only [reduceCtorEq, false_implies, and_true]
    exact Device.endRequest_givesUp s current queue rfl rfl rfl

end HardDisk

namespace Floppy

inductive Path where
  | badFlpIntr
  | writeProtected
  | outOfRange
deriving DecidableEq

def Hopeless (floppyType : Nat → FloppyStruct) (s : Driver) (current : Entry) : Path → Prop
  | .badFlpIntr => MAX_ERRORS < current.errors + 1
  | .writeProtected => True
  | .outOfRange => s.initRequest 2 current = .ok s ∧ accepts floppyType current = false

/-- The function that gives up, up to its call of `do_fd_request`. -/
def giveUp (s : Driver) (current : Entry) : Path → Drive Fd Driver
  | .badFlpIntr => badFlpIntr s
  | .writeProtected => writeProtected s
  | .outOfRange => (selectDrive s current).endRequest false

def calling (floppyType : Nat → FloppyStruct) (s : Driver) : Path → Drive Fd Driver
  | .badFlpIntr => rwInterrupt floppyType s .bad
  | .writeProtected => rwInterrupt floppyType s .writeProtected
  | .outOfRange => requestLoop floppyType s.queue s

def goesOn (floppyType : Nat → FloppyStruct) (s : Driver) : Path → Drive Fd Driver
  | .badFlpIntr => doFdRequest floppyType s
  | .writeProtected => doFdRequest floppyType s
  | .outOfRange => requestLoop floppyType s.queue s

variable {s : Driver} {current : Entry} {rest : List Entry} {floppyType : Nat → FloppyStruct}

theorem requestLoop_rejects (queue : s.queue = current :: rest) (sound : s.initRequest 2 current = .ok s)
    (rejected : accepts floppyType current = false) :
    requestLoop floppyType s.queue s =
      ((selectDrive s current).endRequest false).bind fun s => requestLoop floppyType s.queue s := by
  have loop : requestLoop floppyType s.queue s =
      ((selectDrive s current).endRequest false).bind (requestLoop floppyType rest) := by
    rw [queue, requestLoop, sound]
    change (if accepts floppyType current = true then
        startRequest (floppyType (selectDrive s current).own.floppy) (selectDrive s current) current
      else ((selectDrive s current).endRequest false).bind (requestLoop floppyType rest)) = _
    rw [rejected, if_neg Bool.false_ne_true]
  rw [loop]
  cases bh : current.bh with
  | none =>
    rw [Device.endRequest_swap (s := selectDrive s current) queue bh]
    rfl
  | some number =>
    obtain ⟨s', run, after, _⟩ := Device.endRequest_buffer (s := selectDrive s current) queue bh
    rw [run]
    change requestLoop floppyType rest s' = requestLoop floppyType s'.queue s'
    rw [after]

theorem calling_eq (queue : s.queue = current :: rest) (path : Path)
    (hopeless : Hopeless floppyType s current path) :
    calling floppyType s path = (giveUp s current path).bind fun s => goesOn floppyType s path := by
  cases path with
  | badFlpIntr | writeProtected => rfl
  | outOfRange => exact requestLoop_rejects queue hopeless.1 hopeless.2

theorem giveUp_iff (queue : s.queue = current :: rest) (path : Path)
    (hopeless : Hopeless floppyType s current path) :
    s.GivesUp current rest (giveUp s current path) ↔ current.bh.isSome ∧ (path = .badFlpIntr → rest ≠ []) := by
  cases path with
  | badFlpIntr =>
    have run : badFlpIntr s = ((floppyDeselect
        (s.setCurrent current.countError)).endRequest false).bind
          fun s => s.withCurrent fun next => .ok
            (if MAX_ERRORS / 2 < next.errors then s.setOwn { s.own with reset := true }
              else s.setOwn { s.own with recalibrate := true }) := by
      have tooMany : MAX_ERRORS < current.countError.errors := hopeless
      rw [badFlpIntr, Device.withCurrent_cons queue]
      simp only [if_pos tooMany]
      rfl
    have behind : (floppyDeselect (s.setCurrent current.countError)).queue = current.countError :: rest :=
      Device.setCurrent_queue queue _
    rw [giveUp, run, forall_prop_of_true rfl]
    refine Device.endRequest_then_current s current behind rfl rfl ?_ ?_
    · rfl
    · intro s next
      split
      · exact ⟨rfl, rfl, rfl⟩
      · exact ⟨rfl, rfl, rfl⟩
  | writeProtected =>
    rw [giveUp, writeProtected]
    simp only [reduceCtorEq, false_implies, and_true]
    exact Device.endRequest_givesUp s current queue rfl rfl rfl
  | outOfRange =>
    rw [giveUp]
    simp only [reduceCtorEq, false_implies, and_true]
    exact Device.endRequest_givesUp s current queue rfl rfl rfl

end Floppy

/-- Giving up goes well when the request has a buffer and, after too many errors, another
request is queued behind it. -/
theorem giving_up_safe_iff (t : HardDisk.Drives) (floppyType : Nat → Floppy.FloppyStruct) :
    (∀ (s : HardDisk.Driver) (current : Entry) (rest : List Entry) (path : HardDisk.Path),
      s.queue = current :: rest → HardDisk.Hopeless t s current path →
        HardDisk.calling t s path = (HardDisk.giveUp s path).bind (fun s => HardDisk.goesOn t s path) ∧
        (s.GivesUp current rest (HardDisk.giveUp s path) ↔ current.bh.isSome ∧ (path = .badRwIntr → rest ≠ []))) ∧
    (∀ (s : Floppy.Driver) (current : Entry) (rest : List Entry) (path : Floppy.Path),
      s.queue = current :: rest → Floppy.Hopeless floppyType s current path →
        Floppy.calling floppyType s path =
          (Floppy.giveUp s current path).bind (fun s => Floppy.goesOn floppyType s path) ∧
        (s.GivesUp current rest (Floppy.giveUp s current path) ↔
          current.bh.isSome ∧ (path = .badFlpIntr → rest ≠ []))) := by
  constructor
  · intro s current rest path queue hopeless
    exact ⟨HardDisk.calling_eq queue path hopeless, HardDisk.giveUp_iff queue path hopeless⟩
  · intro s current rest path queue hopeless
    exact ⟨Floppy.calling_eq queue path hopeless, Floppy.giveUp_iff queue path hopeless⟩

def floppyTypes (type : Nat) : Floppy.FloppyStruct :=
  if type = 7 then ⟨2880, 18, 2, 0⟩ else ⟨720, 9, 2, 0⟩

theorem seventh_error_given_up :
    (readingDisk [firstBlock 6 (some 0), firstBlock 0 (some 1)]).GivesUp (firstBlock 6 (some 0))
      [firstBlock 0 (some 1)]
      (HardDisk.giveUp (readingDisk [firstBlock 6 (some 0), firstBlock 0 (some 1)]) .badRwIntr) :=
  (((giving_up_safe_iff oneDisk floppyTypes).1 _ _ _ .badRwIntr rfl
    (by simp [HardDisk.Hopeless, HardDisk.MAX_ERRORS, firstBlock])).2).mpr (by simp [firstBlock])

/-- The seventh error of the only request makes `bad_rw_intr` look at a request that is not
there, and a swap request that times out for the seventh time has no block to report. -/
theorem seventh_error_null :
    HardDisk.badRwIntr (readingDisk [firstBlock 6 (some 0)]) =
        .error (.nullRequest, Device.after (HardDisk.badRwIntr (readingDisk [firstBlock 6 (some 0)]))) ∧
      ¬(readingDisk [firstBlock 6 (some 0)]).GivesUp (firstBlock 6 (some 0)) []
        (HardDisk.badRwIntr (readingDisk [firstBlock 6 (some 0)])) ∧
      ¬(readingDisk [firstBlock 6 none, firstBlock 0 (some 1)]).GivesUp (firstBlock 6 none)
        [firstBlock 0 (some 1)]
        (HardDisk.countTimeout (readingDisk [firstBlock 6 none, firstBlock 0 (some 1)])) := by
  refine ⟨rfl, ?_, ?_⟩
  · rintro ⟨s', run, _⟩
    cases run
  · rintro ⟨s', run, _⟩
    cases run

end Linux012.BlkDrv

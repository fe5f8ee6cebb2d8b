import Linux012.BlkDrv.Partitions
import Mathlib.Data.BitVec

/-! A request of the hard disk from its first dispatch to its end, through failures,
timeouts, resets and recalibrations. -/

set_option autoImplicit false

namespace Linux012.BlkDrv

def Entry.advance (req : Entry) (k : Nat) : Entry :=
  { req with
    sector := req.sector + .ofNat 32 k
    nrSectors := req.nrSectors - .ofNat 32 k
    buffer := req.buffer + 512 * .ofNat 32 k }

namespace Entry

variable (req : Entry) (k : Nat)

theorem ofNat_succ : BitVec.ofNat 32 (k + 1) = BitVec.ofNat 32 k + 1 := BitVec.ofNat_add k 1

theorem advance_zero : req.advance 0 = req := by
  simp [advance]

theorem advance_sector : (req.advance k).sector + 1 = (req.advance (k + 1)).sector := by
  simp only [advance, ofNat_succ]
  ring

theorem advance_nrSectors : (req.advance k).nrSectors - 1 = (req.advance (k + 1)).nrSectors := by
  simp only [advance, ofNat_succ]
  ring

theorem advance_buffer : (req.advance k).buffer + 512 = (req.advance (k + 1)).buffer := by
  simp only [advance, ofNat_succ]
  ring

theorem advance_left {k : Nat} (inside : k ≤ req.nrSectors.toNat) :
    (req.advance k).nrSectors.toNat = req.nrSectors.toNat - k := by
  have bound := req.nrSectors.isLt
  simp only [advance, BitVec.toNat_sub, BitVec.toNat_ofNat]
  omega

theorem advance_next (errors : Int) :
    ({ req.advance k with
      errors := errors, buffer := (req.advance k).buffer + 512,
      sector := (req.advance k).sector + 1, nrSectors := (req.advance k).nrSectors - 1 } : Entry) =
        { req.advance (k + 1) with errors := errors } := by
  rw [advance_buffer, advance_sector, advance_nrSectors]
  rfl

theorem advance_last {k : Nat} (inside : k < req.nrSectors.toNat) :
    (req.advance (k + 1)).nrSectors = 0 ↔ req.nrSectors.toNat = k + 1 := by
  have left := advance_left req (Nat.succ_le_of_lt inside)
  constructor
  · intro none
    rw [none] at left
    have zero : (0 : BitVec 32).toNat = 0 := rfl
    omega
  · intro last
    refine BitVec.eq_of_toNat_eq (left.trans ?_)
    rw [last, Nat.sub_self]
    rfl

theorem advance_lockstep :
    (req.advance k).sector + (req.advance k).nrSectors = req.sector + req.nrSectors ∧
      (req.advance k).buffer + 512 * (req.advance k).nrSectors = req.buffer + 512 * req.nrSectors := by
  constructor
  · simp only [advance]
    ring
  · simp only [advance]
    ring

end Entry

namespace HardDisk

open Device

/-- The `j`-th sector of a request has gone over, to or from its own 512 bytes: by a command
for the sectors from some earlier one on. -/
def OwnPlace (t : Drives) (req : Entry) (x : Transfer) (j : Nat) : Prop :=
  ∃ first ≤ j, CommandFor t (req.advance first) x.command ∧ x.offset = j - first ∧
    x.buffer = (req.advance j).buffer

def Moved (t : Drives) (req : Entry) (k : Nat) (transfers : List Transfer) : Prop :=
  List.Forall₂ (OwnPlace t req) transfers (List.range k).reverse

theorem Moved.next {t : Drives} {req : Entry} {k : Nat} {transfers : List Transfer} {x : Transfer}
    (moved : Moved t req k transfers) (own : OwnPlace t req x k) : Moved t req (k + 1) (x :: transfers) := by
  rw [Moved, List.range_succ, List.reverse_append, List.reverse_singleton, List.singleton_append]
  exact .cons own moved

/-- Which command the controller has been given for a request with `k` sectors done. -/
inductive Phase (t : Drives) (req : Entry) (k : Nat) (own : Hd) : Prop where
  | polling : own.polling = true → own.doHd = some .writeIntr → req.cmd = WRITE →
      CommandFor t (req.advance k) own.command → own.moved = 0 → Phase t req k own
  | reading (first : Nat) : own.polling = false → own.doHd = some .readIntr → first ≤ k →
      CommandFor t (req.advance first) own.command → own.moved = k - first → Phase t req k own
  | writing (first : Nat) : own.polling = false → own.doHd = some .writeIntr → first ≤ k →
      CommandFor t (req.advance first) own.command → own.moved = k - first →
      own.given = (req.advance k).buffer → Phase t req k own
  | recalibrating : own.polling = false → own.doHd = some .recalIntr → own.recalibrate = false →
      accepts t req.minor (req.advance k).sector = true → Phase t req k own
  | resetting : own.polling = false → own.doHd = some .resetHd → 0 ≤ own.i →
      accepts t req.minor (req.advance k).sector = true → Phase t req k own

/-- A request is the current one, and `k` of its sectors have gone over. -/
structure Serving (t : Drives) (req : Entry) (k : Nat) (s : Driver) : Prop where
  fresh : s.finished = []
  queue : ∃ errors rest, s.queue = { req.advance k with errors := errors } :: rest
  left : k < req.nrSectors.toNat
  locked : ∀ bh, req.bh = some bh → (s.buffers bh).bLock = true
  moved : Moved t req k s.own.transfers
  reset : s.own.reset = false
  phase : Phase t req k s.own

structure Between (t : Drives) (req : Entry) (k : Nat) (s : Driver) : Prop where
  fresh : s.finished = []
  queue : ∃ errors rest, s.queue = { req.advance k with errors := errors } :: rest
  left : k < req.nrSectors.toNat
  locked : ∀ bh, req.bh = some bh → (s.buffers bh).bLock = true
  moved : Moved t req k s.own.transfers
  polling : s.own.polling = false

structure Issued (t : Drives) (req : Entry) : Prop where
  cmd : req.cmd = READ ∨ req.cmd = WRITE
  major : req.major = 3
  count : req.nrSectors = 2 ∨ req.nrSectors = 8
  usable : ∀ drive < t.nrHd, 0 < (t.hdInfo drive).sect.toNat ∧ 0 < (t.hdInfo drive).head.toNat ∧
    (t.hdInfo drive).head.toNat ≤ 16

def weight (t : Drives) (own : Hd) : Nat :=
  match own.doHd with
  | some .resetHd => 4 + (t.nrHd - own.i.toNat)
  | some .recalIntr => 3
  | _ => if own.polling then 1 else 0

theorem hdOut_sends {s : Driver} {drive nsect sect head cyl : BitVec 32} {cmd : BitVec 8} {intr : Handler}
    (low : drive ≤ 1) (fits : head ≤ 15) :
    hdOut s drive nsect sect head cyl cmd intr = .ok (s.setOwn { s.own with
      doHd := some intr, hdTimeout := 200, command := commandBytes drive nsect sect head cyl cmd,
      moved := 0 }) := by
  have inRange : ¬(1 < drive ∨ 15 < head) := by
    rw [not_or, BitVec.not_lt, BitVec.not_lt]
    exact ⟨low, fits⟩
  rw [hdOut, if_neg inRange]
  rfl

section Dispatch

variable {t : Drives} {req : Entry} {k : Nat} {s : Driver}

theorem accepted_drive
    (accepted : accepts t req.minor (req.advance k).sector = true) :
    req.minor / 5 < t.nrHd ∧ req.minor / 5 < 2 := by
  simp only [accepts, Bool.and_eq_true, decide_eq_true_eq] at accepted
  have drives := t.nrHd_le
  simp only [MAX_HD] at drives
  have inside : req.minor / 5 < t.nrHd := by omega
  exact ⟨inside, by omega⟩

theorem place_usable {g : Geometry} (sect : 0 < g.sect.toNat) (head : 0 < g.head.toNat) (few : g.head.toNat ≤ 16)
    (block : BitVec 32) : ∃ p, place g block = some p ∧ p.head ≤ 15 := by
  have sectNe : g.sect ≠ 0 := fun zero => absurd (congrArg BitVec.toNat zero) sect.ne'
  have headNe : g.head ≠ 0 := fun zero => absurd (congrArg BitVec.toNat zero) head.ne'
  have unused : ¬(g.sect = 0 ∨ g.head = 0) := by
    rw [not_or]
    exact ⟨sectNe, headNe⟩
  cases placed : place g block with
  | none =>
    rw [place, if_neg unused] at placed
    cases placed
  | some p =>
    obtain ⟨_, headPos, _, headNr, _⟩ := place_some placed
    refine ⟨p, rfl, BitVec.le_def.mpr ?_⟩
    have below := Nat.mod_lt (block.toNat / g.sect.toNat) headPos
    change p.head.toNat ≤ 15
    omega

theorem specify_serving (issued : Issued t req) (between : Between t req k s)
    (accepted : accepts t req.minor (req.advance k).sector = true) (reset : s.own.reset = false)
    {drive : Nat} (inside : drive < t.nrHd) :
    ∃ s', specify t s drive = .ok s' ∧ Serving t req k s' ∧ weight t s'.own = 4 + (t.nrHd - drive) := by
  have small : drive < 2 := inside.trans_le t.nrHd_le
  obtain ⟨_, head, few⟩ := issued.usable drive inside
  have fits : (t.hdInfo drive).head.setWidth 32 - 1 ≤ 15 := by
    refine BitVec.le_def.mpr ?_
    have one : (1 : BitVec 32).toNat = 1 := rfl
    rw [BitVec.toNat_sub, BitVec.toNat_setWidth, one]
    change _ ≤ 15
    omega
  refine ⟨_, hdOut_sends (drive_ofNat small).2 fits, ⟨between.fresh, between.queue, between.left,
    between.locked, between.moved, reset, ?_⟩, rfl⟩
  exact .resetting between.polling rfl (Int.natCast_nonneg drive) accepted

theorem startRequest_serving (issued : Issued t req) (between : Between t req k s)
    (accepted : accepts t req.minor (req.advance k).sector = true) (errors : Int) :
    ∃ s', startRequest t s { req.advance k with errors := errors } = .ok s' ∧ Serving t req k s' ∧
      (s.own.reset = false → weight t s'.own ≤ 3 ∧ (s.own.recalibrate = false → weight t s'.own ≤ 1)) := by
  obtain ⟨inside, small⟩ := accepted_drive accepted
  obtain ⟨sect, head, few⟩ := issued.usable _ inside
  obtain ⟨p, placed, fits⟩ := place_usable sect head few ((req.advance k).sector + (t.hd req.minor).startSect)
  have command : ∀ cmd, CommandFor t (req.advance k)
      (commandBytes (.ofNat 32 (req.minor / 5)) (req.advance k).nrSectors p.sec p.head p.cyl cmd) :=
    fun cmd => ⟨accepted, p, cmd, placed, fits, rfl⟩
  have same : ({ req.advance k with errors := errors } : Entry).minor = req.minor := rfl
  simp only [startRequest, same, placed]
  cases reset : s.own.reset with
  | true =>
    have noReset : Between t req k (s.setOwn { s.own with reset := false, recalibrate := true }) :=
      ⟨between.fresh, between.queue, between.left, between.locked, between.moved, between.polling⟩
    obtain ⟨s', sent, serving, _⟩ := specify_serving issued noReset accepted rfl (Nat.zero_lt_of_lt inside)
    exact ⟨s', sent, serving, by simp⟩
  | false =>
    cases recalibrate : s.own.recalibrate with
    | true =>
      refine ⟨_, hdOut_sends (drive_ofNat small).2 (by decide), ⟨between.fresh, between.queue,
        between.left, between.locked, between.moved, rfl, ?_⟩, ?_⟩
      · exact .recalibrating between.polling rfl rfl accepted
      · simp [weight]
    | false =>
      have sent := fun cmd intr => @hdOut_sends s (.ofNat 32 (req.minor / 5)) (req.advance k).nrSectors
        p.sec p.head p.cyl cmd intr (drive_ofNat small).2 fits
      rcases issued.cmd with read | write
      · simp only [Bool.false_eq_true, if_false, Entry.advance, read, if_true]
        refine ⟨_, sent WIN_READ .readIntr, ⟨between.fresh, between.queue, between.left,
          between.locked, between.moved, reset, ?_⟩, ?_⟩
        · exact .reading k between.polling rfl le_rfl (command WIN_READ) (Nat.sub_self k).symm
        · simp [weight, between.polling]
      · simp only [Bool.false_eq_true, if_false, Entry.advance, write, if_true]
        refine ⟨_, congrArg (· >>= _) (sent WIN_WRITE .writeIntr), ⟨between.fresh, between.queue,
          between.left, between.locked, between.moved, reset, ?_⟩, ?_⟩
        · exact .polling rfl rfl write (command WIN_WRITE) rfl
        · simp [weight]

theorem Between.initRequest (issued : Issued t req) (between : Between t req k s) (errors : Int) :
    s.initRequest 3 { req.advance k with errors := errors } = .ok s := by
  have major : ({ req.advance k with errors := errors } : Entry).major = 3 := issued.major
  rw [Device.initRequest, if_neg (not_not.mpr major)]
  cases bh : req.bh with
  | none =>
    simp only [Entry.advance, bh]
    rfl
  | some number =>
    simp only [Entry.advance, bh, Option.any_some, between.locked number bh]
    rfl

theorem doHdRequest_serving (issued : Issued t req) (between : Between t req k s)
    (accepted : accepts t req.minor (req.advance k).sector = true) :
    ∃ s', doHdRequest t s = .ok s' ∧ Serving t req k s' ∧
      (s.own.reset = false → weight t s'.own ≤ 3 ∧ (s.own.recalibrate = false → weight t s'.own ≤ 1)) := by
  obtain ⟨errors, rest, queue⟩ := between.queue
  obtain ⟨s', started, serving⟩ := startRequest_serving issued between accepted errors
  refine ⟨s', ?_, serving⟩
  rw [doHdRequest, queue, requestLoop, between.initRequest issued]
  exact (if_pos accepted).trans started

/-- What is left of a request is rejected: it is reported as an error, or the driver has
no block to report. -/
def Spoiled (out : Drive Hd Driver) : Prop :=
  (∃ fault s, out = .error (fault, s) ∧ s.finished = []) ∨
    ∃ more r, (after out).finished = more ++ [(r, false)]

theorem startRequest_after (current : Entry) :
    (after (startRequest t s current)).finished = s.finished ∧
      (after (startRequest t s current)).own.transfers = s.own.transfers := by
  have hdOut_after : ∀ (s : Driver) (drive nsect sect head cyl : BitVec 32) (cmd : BitVec 8)
      (intr : Handler), (after (hdOut s drive nsect sect head cyl cmd intr)).finished = s.finished ∧
        (after (hdOut s drive nsect sect head cyl cmd intr)).own.transfers = s.own.transfers := by
    intro s drive nsect sect head cyl cmd intr
    unfold hdOut
    split
    · exact ⟨rfl, rfl⟩
    · exact ⟨rfl, rfl⟩
  cases placed : place (t.hdInfo (current.minor / 5)) (current.sector + (t.hd current.minor).startSect) with
  | none =>
    simp only [startRequest, placed]
    exact ⟨rfl, rfl⟩
  | some p =>
    simp only [startRequest, placed]
    split
    · exact hdOut_after ..
    split
    · exact hdOut_after ..
    split
    · have sent := hdOut_after s (.ofNat 32 (current.minor / 5)) current.nrSectors p.sec p.head p.cyl
        WIN_WRITE .writeIntr
      cases out : hdOut s (.ofNat 32 (current.minor / 5)) current.nrSectors p.sec p.head p.cyl
        WIN_WRITE .writeIntr with
      | error fault | ok s' =>
        rw [out] at sent
        exact sent
    split
    · exact hdOut_after ..
    · exact ⟨rfl, rfl⟩

theorem requestLoop_after (queue : List Entry) (s : Driver) (same : s.queue = queue) :
    (∃ more, (after (requestLoop t queue s)).finished = more ++ s.finished) ∧
      (after (requestLoop t queue s)).own.transfers = s.own.transfers := by
  induction queue generalizing s with
  | nil => exact ⟨⟨[], rfl⟩, rfl⟩
  | cons current rest ih =>
    rw [requestLoop]
    cases sound : s.initRequest 3 current with
    | error fault =>
      unfold initRequest at sound
      split at sound
      · obtain rfl := Except.error.inj sound
        exact ⟨⟨[], rfl⟩, rfl⟩
      split at sound
      · obtain rfl := Except.error.inj sound
        exact ⟨⟨[], rfl⟩, rfl⟩
      · cases sound
    | ok s₁ =>
      obtain rfl := initRequest_ok sound
      simp only [bind, Except.bind]
      split
      · obtain ⟨finished, transfers⟩ := startRequest_after (t := t) (s := s₁) current
        exact ⟨⟨[], finished⟩, transfers⟩
      · cases bh : current.bh with
        | none =>
          rw [endRequest_swap same bh]
          exact ⟨⟨[], rfl⟩, rfl⟩
        | some number =>
          obtain ⟨s', run, queue, own, finished, _⟩ := endRequest_buffer same bh
          obtain ⟨⟨more, later⟩, transfers⟩ := ih s' queue
          rw [run]
          refine ⟨⟨more ++ [(current, false)], ?_⟩, transfers.trans (by rw [own])⟩
          rw [later, finished, List.append_assoc, List.singleton_append]

theorem doHdRequest_spoiled (issued : Issued t req) (between : Between t req k s)
    (rejected : accepts t req.minor (req.advance k).sector = false) : Spoiled (doHdRequest t s) := by
  obtain ⟨errors, rest, queue⟩ := between.queue
  rw [doHdRequest_rejects queue (between.initRequest issued errors) rejected]
  cases bh : req.bh with
  | none =>
    rw [endRequest_swap queue bh]
    exact .inl ⟨_, s, rfl, between.fresh⟩
  | some number =>
    obtain ⟨s', run, _, _, finished, _⟩ := endRequest_buffer queue bh
    obtain ⟨⟨more, later⟩, _⟩ := requestLoop_after (t := t) s'.queue s' rfl
    rw [run]
    refine .inr ⟨more, { req.advance k with errors := errors }, ?_⟩
    rw [← between.fresh, ← finished]
    exact later

theorem badRwIntr_counts {current : Entry} {rest : List Entry} (queue : s.queue = current :: rest)
    (few : current.errors + 1 < MAX_ERRORS) :
    badRwIntr s = .ok (if MAX_ERRORS / 2 < current.errors + 1 then
      (s.setCurrent current.countError).setOwn { s.own with reset := true }
      else s.setCurrent current.countError) := by
  have notMany : ¬MAX_ERRORS ≤ current.countError.errors := Int.not_le.mpr few
  have behind : (s.setCurrent current.countError).queue = current.countError :: rest := setCurrent_queue queue _
  rw [badRwIntr, withCurrent_cons queue]
  simp only [if_neg notMany, pure_bind]
  rw [withCurrent_cons behind]
  rfl

def Retried (t : Drives) (req : Entry) (k : Nat) (out : Drive Hd Driver) : Prop :=
  accepts t req.minor (req.advance k).sector = true ∧ (∃ s', out = .ok s' ∧ Serving t req k s') ∨
    accepts t req.minor (req.advance k).sector = false ∧ Spoiled out

theorem doHdRequest_retried (issued : Issued t req) (between : Between t req k s) :
    Retried t req k (doHdRequest t s) := by
  cases accepted : accepts t req.minor (req.advance k).sector with
  | true =>
    obtain ⟨s', ran, serving, _⟩ := doHdRequest_serving issued between accepted
    exact .inl ⟨accepted, s', ran, serving⟩
  | false => exact .inr ⟨accepted, doHdRequest_spoiled issued between accepted⟩

def Spared (s : Driver) : Prop :=
  ∀ current rest, s.queue = current :: rest → current.errors + 1 < MAX_ERRORS

theorem Between.counted (between : Between t req k s) (spared : Spared s) :
    ∃ s', badRwIntr s = .ok s' ∧ Between t req k s' ∧ s'.own.i = s.own.i := by
  obtain ⟨errors, rest, queue⟩ := between.queue
  have counts := badRwIntr_counts queue (spared _ _ queue)
  have behind := setCurrent_queue queue (({ req.advance k with errors := errors } : Entry).countError)
  refine ⟨_, counts, ?_, ?_⟩
  · split
    · exact ⟨between.fresh, ⟨errors + 1, rest, behind⟩, between.left, between.locked, between.moved, between.polling⟩
    · exact ⟨between.fresh, ⟨errors + 1, rest, behind⟩, between.left, between.locked, between.moved, between.polling⟩
  · split
    · rfl
    · rfl

theorem counted_retried (issued : Issued t req) (between : Between t req k s) (spared : Spared s) :
    Retried t req k (badRwIntr s >>= doHdRequest t) := by
  obtain ⟨s', counts, after, _⟩ := between.counted spared
  rw [counts]
  exact doHdRequest_retried issued after

theorem timesOut_retried (issued : Issued t req) (between : Between t req k s) (spared : Spared s) :
    Retried t req k (hdTimesOut t s) := by
  obtain ⟨errors, rest, queue⟩ := between.queue
  obtain ⟨current, isCurrent⟩ : ∃ current, current = ({ req.advance k with errors := errors } : Entry) := ⟨_, rfl⟩
  rw [← isCurrent] at queue
  have few : ¬MAX_ERRORS ≤ current.countError.errors := Int.not_le.mpr (spared _ _ queue)
  have behind : ((s.printk .hdTimeout).setCurrent current.countError).queue = current.countError :: rest :=
    setCurrent_queue (s := s.printk .hdTimeout) queue _
  have counts : countTimeout s = .ok ((s.printk .hdTimeout).setCurrent current.countError) := by
    rw [countTimeout, withCurrent_cons queue]
    exact if_neg few
  have after : ∀ own : Hd, own.polling = false → own.transfers = s.own.transfers →
      Between t req k (((s.printk .hdTimeout).setCurrent current.countError).setOwn own) := by
    intro own idle same
    refine ⟨between.fresh, ⟨errors + 1, rest, ?_⟩, between.left, between.locked, same ▸ between.moved, idle⟩
    rw [setOwn_queue, behind, isCurrent]
    rfl
  simp only [hdTimesOut, queue, counts]
  exact doHdRequest_retried issued (after _ between.polling rfl)

theorem Serving.between (serving : Serving t req k s) (idle : s.own.polling = false) (intr : Option Handler)
    (timeout : Nat) : Between t req k (s.setOwn { s.own with doHd := intr, hdTimeout := timeout }) :=
  ⟨serving.fresh, serving.queue, serving.left, serving.locked, serving.moved, idle⟩

theorem nextDrive_serving (issued : Issued t req) (between : Between t req k s)
    (accepted : accepts t req.minor (req.advance k).sector = true) (reset : s.own.reset = false)
    {i : Int} (nonneg : 0 ≤ i) :
    ∃ s', nextDrive t s i = .ok s' ∧ Serving t req k s' ∧ weight t s'.own < 4 + (t.nrHd + 1 - i.toNat) := by
  by_cases more : i < t.nrHd
  · have inside : i.toNat < t.nrHd := by omega
    obtain ⟨s', sent, serving, heavy⟩ := specify_serving issued between accepted reset inside
    exact ⟨s', (if_pos more).trans sent, serving, by omega⟩
  · have moved : Between t req k (s.setOwn { s.own with i := i }) :=
      ⟨between.fresh, between.queue, between.left, between.locked, between.moved, between.polling⟩
    obtain ⟨s', ran, serving, light⟩ := doHdRequest_serving issued moved accepted
    have bound := (light reset).1
    exact ⟨s', (if_neg more).trans ran, serving, by omega⟩

theorem Serving.control (serving : Serving t req k s) (notRead : s.own.doHd ≠ some .readIntr)
    (notWrite : s.own.doHd ≠ some .writeIntr) :
    accepts t req.minor (req.advance k).sector = true ∧
      (s.own.doHd = some .recalIntr ∧ s.own.recalibrate = false ∨ s.own.doHd = some .resetHd ∧ 0 ≤ s.own.i) := by
  cases serving.phase with
  | polling _ intr | writing _ _ intr => exact absurd intr notWrite
  | reading _ _ intr => exact absurd intr notRead
  | recalibrating _ intr calibrated accepted => exact ⟨accepted, .inl ⟨intr, calibrated⟩⟩
  | resetting _ intr nonneg accepted => exact ⟨accepted, .inr ⟨intr, nonneg⟩⟩

def Failure : Event → Prop
  | .sector failed => failed = true
  | .control failed => failed = true
  | .dataRequest asked => asked = false
  | .timeout => True
  | .added _ => False

def Success : Event → Prop
  | .sector failed => failed = false
  | .control failed => failed = false
  | .dataRequest asked => asked = true
  | .timeout => False
  | .added _ => False

theorem resetHd_failed (issued : Issued t req) (between : Between t req k s) (spared : Spared s)
    (accepted : accepts t req.minor (req.advance k).sector = true) (reset : s.own.reset = false)
    (nonneg : 0 ≤ s.own.i) : ∃ s', resetHd t s true = .ok s' ∧ Serving t req k s' := by
  obtain ⟨s₁, counts, after, same⟩ := between.counted spared
  simp only [resetHd, reset, Bool.false_eq_true, if_false, if_true, counts, bind, Except.bind]
  cases again : s₁.own.reset with
  | true =>
    have begun : Between t req k (s₁.setOwn { s₁.own with reset := false }) :=
      ⟨after.fresh, after.queue, after.left, after.locked, after.moved, after.polling⟩
    obtain ⟨s', sent, serving, _⟩ := nextDrive_serving issued begun accepted rfl le_rfl
    exact ⟨s', sent, serving⟩
  | false =>
    obtain ⟨s', sent, serving, _⟩ := nextDrive_serving issued after accepted again (i := s₁.own.i + 1) (by omega)
    exact ⟨s', sent, serving⟩

theorem step_failed (issued : Issued t req) (serving : Serving t req k s) (spared : Spared s)
    {event : Event} (possible : Possible s event) (failure : Failure event) :
    Retried t req k (step t s event) := by
  cases event with
  | sector failed =>
    obtain rfl : failed = true := failure
    obtain ⟨idle, transfer⟩ := possible
    have between := serving.between idle none 0
    rcases transfer with intr | intr
    · simp only [step, hdInterrupt, intr]
      exact counted_retried issued between spared
    · simp only [step, hdInterrupt, intr]
      exact counted_retried issued between spared
  | control failed =>
    obtain rfl : failed = true := failure
    obtain ⟨idle, notRead, notWrite⟩ := possible
    have between := serving.between idle none 0
    obtain ⟨accepted, phase⟩ := serving.control notRead notWrite
    rcases phase with ⟨intr, _⟩ | ⟨intr, nonneg⟩
    · simp only [step, hdInterrupt, intr]
      exact counted_retried issued between spared
    · simp only [step, hdInterrupt, intr]
      exact .inl ⟨accepted, resetHd_failed issued between spared accepted serving.reset nonneg⟩
  | dataRequest asked =>
    obtain rfl : asked = false := failure
    have between : Between t req k (s.setOwn { s.own with polling := false }) :=
      ⟨serving.fresh, serving.queue, serving.left, serving.locked, serving.moved, rfl⟩
    exact counted_retried issued between spared
  | timeout =>
    have between : Between t req k (s.setOwn { s.own with hdTimeout := 0 }) := serving.between possible.1 s.own.doHd 0
    exact timesOut_retried issued between spared
  | added req => exact failure.elim

/-- The request was the first to end, with `end_request(1)`, and each of its sectors has
gone over. -/
def EndedWell (t : Drives) (req : Entry) (s : Driver) : Prop :=
  (∃ more r, s.finished = more ++ [(r, true)] ∧ r.dev = req.dev ∧ r.bh = req.bh) ∧
    Moved t req req.nrSectors.toNat s.own.transfers

theorem endRequest_endedWell {current : Entry} {rest : List Entry} (queue : s.queue = current :: rest)
    (fresh : s.finished = []) (dev : current.dev = req.dev) (bh : current.bh = req.bh)
    (moved : Moved t req req.nrSectors.toNat s.own.transfers) :
    EndedWell t req (after (s.endRequest true >>= doHdRequest t)) := by
  obtain ⟨_, finished, own⟩ := releaseBuffer_keeps (s := s) true current.bh
  obtain ⟨⟨more, later⟩, transfers⟩ := requestLoop_after (t := t) _
    ((s.releaseBuffer true current.bh).unlink current true) rfl
  rw [endRequest_true queue]
  refine ⟨⟨more, current, ?_, dev, bh⟩, ?_⟩
  · refine later.trans ?_
    rw [unlink, finished, fresh]
  · have same : (after (doHdRequest t ((s.releaseBuffer true current.bh).unlink current true))).own.transfers =
        s.own.transfers := transfers.trans (congrArg Hd.transfers own)
    exact same ▸ moved

def Progress (t : Drives) (req : Entry) (k next : Nat) (own : Hd) (out : Drive Hd Driver) : Prop :=
  (∃ s', out = .ok s' ∧ Serving t req next s' ∧ (next = k → weight t s'.own < weight t own)) ∨
    EndedWell t req (after out)

theorem readIntr_good (between : Between t req k s) (reset : s.own.reset = false) {first : Nat}
    (before : first ≤ k) (command : CommandFor t (req.advance first) s.own.command)
    (moved : s.own.moved = k - first) {own : Hd} :
    Progress t req k (k + 1) own (readIntr t s false) := by
  obtain ⟨errors, rest, queue⟩ := between.queue
  have gone : Moved t req (k + 1) (⟨s.own.command, s.own.moved, (req.advance k).buffer⟩ :: s.own.transfers) :=
    between.moved.next ⟨first, before, command, moved, rfl⟩
  rw [readIntr, if_neg Bool.false_ne_true, withCurrent_cons queue]
  simp only [Entry.advance_next]
  by_cases last : (req.advance (k + 1)).nrSectors = 0
  · have all : req.nrSectors.toNat = k + 1 := (req.advance_last between.left).mp last
    rw [Entry.advance_nrSectors, if_neg (not_not.mpr last)]
    exact .inr (endRequest_endedWell (setCurrent_queue (s := portRead s (req.advance k).buffer) queue _) between.fresh rfl rfl
      (all ▸ gone))
  · have more : k + 1 < req.nrSectors.toNat := by
      have notAll := mt (req.advance_last between.left).mpr last
      have inside := between.left
      omega
    rw [Entry.advance_nrSectors, if_pos last]
    refine .inl ⟨_, rfl, ⟨between.fresh, ⟨0, rest, setCurrent_queue (s := portRead s (req.advance k).buffer) queue _⟩, more,
      between.locked, gone, reset, ?_⟩, by omega⟩
    exact .reading first between.polling rfl (Nat.le_succ_of_le before) command (by
      change s.own.moved + 1 = _
      omega)

theorem writeIntr_good (between : Between t req k s) (reset : s.own.reset = false) {first : Nat}
    (before : first ≤ k) (command : CommandFor t (req.advance first) s.own.command)
    (moved : s.own.moved = k - first) (given : s.own.given = (req.advance k).buffer) {own : Hd} :
    Progress t req k (k + 1) own (writeIntr t s false) := by
  obtain ⟨errors, rest, queue⟩ := between.queue
  have gone : Moved t req (k + 1) (⟨s.own.command, s.own.moved, s.own.given⟩ :: s.own.transfers) :=
    between.moved.next ⟨first, before, command, moved, given⟩
  rw [writeIntr, if_neg Bool.false_ne_true, withCurrent_cons queue]
  by_cases last : (req.advance (k + 1)).nrSectors = 0
  · have all : req.nrSectors.toNat = k + 1 := (req.advance_last between.left).mp last
    simp only [Entry.advance_nrSectors, if_neg (not_not.mpr last)]
    exact .inr (endRequest_endedWell (setCurrent_queue (s := written s) queue _) between.fresh rfl rfl (all ▸ gone))
  · have more : k + 1 < req.nrSectors.toNat := by
      have notAll := mt (req.advance_last between.left).mpr last
      have inside := between.left
      omega
    have next := req.advance_next k errors
    rw [Entry.advance_nrSectors] at next
    simp only [Entry.advance_nrSectors, if_pos last]
    refine .inl ⟨_, rfl, ⟨between.fresh, ⟨errors, rest, ?_⟩, more, between.locked, gone, reset, ?_⟩, by omega⟩
    · exact (setCurrent_queue (s := written s) queue _).trans (congrArg (· :: rest) next)
    · refine .writing first between.polling rfl (Nat.le_succ_of_le before) command ?_ (req.advance_buffer k)
      change s.own.moved + 1 = _
      omega

def gained : Event → Nat
  | .sector false => 1
  | _ => 0

theorem resetHd_good (issued : Issued t req) (serving : Serving t req k s)
    (accepted : accepts t req.minor (req.advance k).sector = true) (idle : s.own.polling = false)
    (intr : s.own.doHd = some .resetHd) (nonneg : 0 ≤ s.own.i) :
    Progress t req k k s.own (resetHd t (s.setOwn { s.own with doHd := none, hdTimeout := 0 }) false) := by
  have heavy : weight t s.own = 4 + (t.nrHd - s.own.i.toNat) := by
    rw [weight, intr]
  have reset := serving.reset
  obtain ⟨s', sent, after, lighter⟩ := nextDrive_serving issued (serving.between idle none 0) accepted
    reset (i := s.own.i + 1) (by omega)
  refine .inl ⟨s', ?_, after, fun _ => by omega⟩
  simpa only [resetHd, setOwn_own, reset, Bool.false_eq_true, if_false] using sent

theorem recalIntr_good (issued : Issued t req) (serving : Serving t req k s)
    (accepted : accepts t req.minor (req.advance k).sector = true) (idle : s.own.polling = false)
    (intr : s.own.doHd = some .recalIntr) (calibrated : s.own.recalibrate = false) :
    Progress t req k k s.own (recalIntr t (s.setOwn { s.own with doHd := none, hdTimeout := 0 }) false) := by
  have heavy : weight t s.own = 3 := by
    rw [weight, intr]
  obtain ⟨s', ran, after, light⟩ := doHdRequest_serving issued (serving.between idle none 0) accepted
  have lighter := (light serving.reset).2 calibrated
  exact .inl ⟨s', ran, after, fun _ => by omega⟩

theorem dataRequest_good (serving : Serving t req k s) (polling : s.own.polling = true) :
    Progress t req k k s.own (dataRequest t s true) := by
  obtain ⟨errors, rest, queue⟩ := serving.queue
  have asked : dataRequest t s true = .ok (portWrite (s.setOwn { s.own with polling := false })
      (req.advance k).buffer) := by
    rw [dataRequest, if_pos rfl]
    exact withCurrent_cons (s := s.setOwn { s.own with polling := false }) queue _
  cases serving.phase with
  | polling _ intr _ command moved =>
    refine .inl ⟨_, asked, ⟨serving.fresh, ⟨errors, rest, queue⟩, serving.left, serving.locked,
      serving.moved, serving.reset, ?_⟩, ?_⟩
    · exact .writing k rfl intr le_rfl command (moved.trans (Nat.sub_self k).symm) rfl
    · simp [weight, portWrite, intr, polling]
  | reading _ idle | writing _ idle | recalibrating idle | resetting idle => simp [idle] at polling

theorem step_good (issued : Issued t req) (serving : Serving t req k s) {event : Event}
    (possible : Possible s event) (success : Success event) :
    Progress t req k (k + gained event) s.own (step t s event) := by
  cases event with
  | sector failed =>
    obtain rfl : failed = false := success
    obtain ⟨idle, transfer⟩ := possible
    have between := serving.between idle none 0
    cases serving.phase with
    | polling polling => simp [idle] at polling
    | reading first _ intr before command moved =>
      simp only [step, hdInterrupt, intr]
      exact readIntr_good between serving.reset before command moved
    | writing first _ intr before command moved given =>
      simp only [step, hdInterrupt, intr]
      exact writeIntr_good between serving.reset before command moved given
    | recalibrating _ intr | resetting _ intr => simp [intr] at transfer
  | control failed =>
    obtain rfl : failed = false := success
    obtain ⟨idle, notRead, notWrite⟩ := possible
    obtain ⟨accepted, phase⟩ := serving.control notRead notWrite
    rcases phase with ⟨intr, calibrated⟩ | ⟨intr, nonneg⟩
    · change Progress t req k k s.own (hdInterrupt t s false)
      simp only [hdInterrupt, intr]
      exact recalIntr_good issued serving accepted idle intr calibrated
    · change Progress t req k k s.own (hdInterrupt t s false)
      simp only [hdInterrupt, intr]
      exact resetHd_good issued serving accepted idle intr nonneg
  | dataRequest asked =>
    obtain rfl : asked = true := success
    exact dataRequest_good serving possible
  | timeout | added req => exact success.elim

theorem step_added (serving : Serving t req k s) (other : Entry) :
    ∃ s', step t s (.added other) = .ok s' ∧ Serving t req k s' := by
  obtain ⟨errors, rest, queue⟩ := serving.queue
  refine ⟨{ s with queue := addRequest Entry.view other s.queue }, ?_, serving.fresh, ?_, serving.left,
    serving.locked, serving.moved, serving.reset, serving.phase⟩
  · simp only [step, addEntry, queue]
    rfl
  · exact ⟨errors, _, congrArg (addRequest Entry.view other) queue⟩

end Dispatch

/-! ## Runs -/

inductive Run (t : Drives) (s₀ : Driver) : List Event → Drive Hd Driver → Prop where
  | dispatch : Run t s₀ [] (doHdRequest t s₀)
  | event {events : List Event} {s : Driver} {event : Event} :
      Run t s₀ events (.ok s) → s.finished = [] → Possible s event →
        Run t s₀ (events ++ [event]) (step t s event)

def sectorsDone (events : List Event) : Nat := (events.map gained).sum

def NeverWornOut (t : Drives) (s₀ : Driver) (events : List Event) : Prop :=
  ∀ done event later s, events = done ++ event :: later → Failure event → Run t s₀ done (.ok s) → Spared s

/-- After every failure, what is left of the request passes the check of `do_hd_request`. -/
def RemaindersPass (t : Drives) (req : Entry) (events : List Event) : Prop :=
  ∀ done event later, events = done ++ event :: later → Failure event →
    accepts t req.minor (req.sector + .ofNat 32 (sectorsDone done)) = true

/-- Sector, buffer and count of the current request have moved together, and each of the
sectors so far has gone to or come from its own place. -/
def InStep (t : Drives) (req : Entry) (events : List Event) (s : Driver) : Prop :=
  ∃ current rest, s.queue = current :: rest ∧ current.dev = req.dev ∧ current.bh = req.bh ∧
    current.sector + current.nrSectors = req.sector + req.nrSectors ∧
    current.buffer + 512 * current.nrSectors = req.buffer + 512 * req.nrSectors ∧
    Moved t req (sectorsDone events) s.own.transfers

/-- The request is in step and ends with `end_request(1)` once the failures are over, or it
has ended so. -/
def Survives (t : Drives) (s₀ : Driver) (req : Entry) (events : List Event) (out : Drive Hd Driver) : Prop :=
  (∃ s, out = .ok s ∧ s.finished = [] ∧ InStep t req events s ∧
    ∃ more out', (∀ event ∈ more, Success event) ∧ Run t s₀ (events ++ more) out' ∧ EndedWell t req (after out')) ∨
  EndedWell t req (after out)

section Runs

variable {t : Drives} {req : Entry} {s₀ : Driver}

theorem sectorsDone_append (events : List Event) (event : Event) :
    sectorsDone (events ++ [event]) = sectorsDone events + gained event := by
  simp [sectorsDone]

variable {s : Driver}

theorem EndedWell.not_fresh (ended : EndedWell t req s) : s.finished ≠ [] := by
  obtain ⟨⟨more, r, finished, _⟩, _⟩ := ended
  simp [finished]

variable {out : Drive Hd Driver}

theorem EndedWell.not_spoiled (ended : EndedWell t req (after out)) : ¬Spoiled out := by
  rintro (⟨fault, s, rfl, fresh⟩ | ⟨more, r, spoiled⟩)
  · exact ended.not_fresh fresh
  · obtain ⟨⟨well, r', finished, _⟩, _⟩ := ended
    have last := (List.append_inj' (finished.symm.trans spoiled) rfl).2
    simp at last

variable {events : List Event}

theorem RemaindersPass.append {event : Event} (passed : RemaindersPass t req events)
    (next : Failure event → accepts t req.minor (req.sector + .ofNat 32 (sectorsDone events)) = true) :
    RemaindersPass t req (events ++ [event]) := by
  intro done other later split failure
  rcases List.eq_nil_or_concat later with rfl | ⟨front, last, rfl⟩
  · obtain ⟨rfl, same⟩ := List.append_inj' split rfl
    obtain rfl : event = other := (List.cons.inj same).1
    exact next failure
  · have front : events = done ++ other :: front := by
      have shifted : events ++ [event] = (done ++ other :: front) ++ [last] := by
        rw [split]
        simp
      exact (List.append_inj' shifted rfl).1
    exact passed done other _ front failure

theorem Run.cases (issued : Issued t req) (start : Between t req 0 s₀)
    (accepted : accepts t req.minor req.sector = true) (run : Run t s₀ events out)
    (patient : NeverWornOut t s₀ events) :
    RemaindersPass t req events ∧
        ((∃ s, out = .ok s ∧ Serving t req (sectorsDone events) s) ∨ EndedWell t req (after out)) ∨
      ¬RemaindersPass t req events ∧ Spoiled out := by
  induction run with
  | dispatch =>
    have first : accepts t req.minor (req.advance 0).sector = true := by
      rw [Entry.advance_zero]
      exact accepted
    obtain ⟨s, ran, serving, _⟩ := doHdRequest_serving issued start first
    refine .inl ⟨?_, .inl ⟨s, ran, serving⟩⟩
    intro done event later split
    simp at split
  | @event events s event before fresh possible ih =>
    have earlier : NeverWornOut t s₀ events := fun done other later s split =>
      patient done other (later ++ [event]) s (by rw [split]; simp)
    rcases ih earlier with ⟨passed, still | ended⟩ | ⟨_, spoiled⟩
    · obtain ⟨s', same, serving⟩ := still
      obtain rfl := Except.ok.inj same
      rw [sectorsDone_append]
      by_cases failure : Failure event
      · have none : gained event = 0 := by
          cases event with
          | sector failed =>
            obtain rfl : failed = true := failure
            rfl
          | control failed | dataRequest asked | timeout | added other => rfl
        have spared := patient events event [] s rfl failure before
        rw [none, Nat.add_zero]
        rcases step_failed issued serving spared possible failure with ⟨again, after⟩ | ⟨rejected, spoiled⟩
        · exact .inl ⟨passed.append fun _ => again, .inl after⟩
        · refine .inr ⟨fun all => ?_, spoiled⟩
          have again := all events event [] rfl failure
          rw [Entry.advance] at rejected
          exact Bool.false_ne_true (rejected.symm.trans again)
      · have passes : RemaindersPass t req (events ++ [event]) :=
          passed.append fun failed => absurd failed failure
        by_cases success : Success event
        · rcases step_good issued serving possible success with ⟨s', ran, after, _⟩ | ended
          · exact .inl ⟨passes, .inl ⟨s', ran, after⟩⟩
          · exact .inl ⟨passes, .inr ended⟩
        · cases event with
          | sector failed | control failed => cases failed <;> simp [Failure, Success] at failure success
          | dataRequest asked => cases asked <;> simp [Failure, Success] at failure success
          | timeout => exact absurd trivial failure
          | added other => exact .inl ⟨passes, .inl (step_added serving other)⟩
    · exact absurd fresh ended.not_fresh
    · rcases spoiled with ⟨fault, s', wrong, _⟩ | ⟨more, r, finished⟩
      · cases wrong
      · have last : s.finished = more ++ [(r, false)] := finished
        simp [fresh] at last

theorem Serving.inStep (serving : Serving t req (sectorsDone events) s) : InStep t req events s := by
  obtain ⟨errors, rest, queue⟩ := serving.queue
  obtain ⟨sum, bytes⟩ := req.advance_lockstep (sectorsDone events)
  exact ⟨_, rest, queue, rfl, rfl, sum, bytes, serving.moved⟩

theorem Serving.success {k : Nat} (serving : Serving t req k s) : ∃ event, Possible s event ∧ Success event := by
  cases serving.phase with
  | polling polling => exact ⟨.dataRequest true, polling, rfl⟩
  | reading _ idle intr => exact ⟨.sector false, ⟨idle, .inl intr⟩, rfl⟩
  | writing _ idle intr => exact ⟨.sector false, ⟨idle, .inr intr⟩, rfl⟩
  | recalibrating idle intr | resetting idle intr =>
    exact ⟨.control false, ⟨idle, by simp [intr], by simp [intr]⟩, rfl⟩

theorem weight_lt (own : Hd) : weight t own < 8 := by
  have drives : t.nrHd ≤ 2 := t.nrHd_le
  rw [weight]
  split
  · omega
  · omega
  · split
    · omega
    · omega

theorem Serving.ends (issued : Issued t req) {bound : Nat} {events : List Event} {s : Driver}
    (run : Run t s₀ events (.ok s)) (serving : Serving t req (sectorsDone events) s)
    (measured : 8 * (req.nrSectors.toNat - sectorsDone events) + weight t s.own ≤ bound) :
    ∃ more out', (∀ event ∈ more, Success event) ∧ Run t s₀ (events ++ more) out' ∧ EndedWell t req (after out') := by
  induction bound generalizing events s with
  | zero =>
    have left := serving.left
    omega
  | succ bound ih =>
    obtain ⟨event, possible, success⟩ := serving.success
    have next : Run t s₀ (events ++ [event]) (step t s event) := .event run serving.fresh possible
    rcases step_good issued serving possible success with ⟨s', ran, after, lighter⟩ | ended
    · rw [ran] at next
      rw [← sectorsDone_append] at after lighter
      have left := serving.left
      have lower := weight_lt (t := t) s'.own
      have sum := sectorsDone_append events event
      obtain ⟨more, out', all, rest, ended⟩ := ih next after (by
        by_cases none : gained event = 0
        · have less := lighter (by omega)
          omega
        · omega)
      refine ⟨event :: more, out', ?_, ?_, ended⟩
      · intro other member
        rcases List.mem_cons.mp member with rfl | member
        · exact success
        · exact all other member
      · rw [List.append_cons]
        exact rest
    · refine ⟨[event], _, ?_, next, ended⟩
      intro other member
      obtain rfl := List.mem_singleton.mp member
      exact success

/-- A request that is first dispatched survives the failures of a run when every remainder
passes the check of `do_hd_request` after the failure that left it. -/
theorem request_survives_iff (t : Drives) (req : Entry) (issued : Issued t req) (s₀ : Driver)
    (rest : List Entry) (queue : s₀.queue = req :: rest) (fresh : s₀.finished = [])
    (record : s₀.own.transfers = []) (idle : s₀.own.polling = false)
    (locked : ∀ bh, req.bh = some bh → (s₀.buffers bh).bLock = true)
    (accepted : accepts t req.minor req.sector = true) (events : List Event) (out : Drive Hd Driver)
    (run : Run t s₀ events out) (patient : NeverWornOut t s₀ events) :
    Survives t s₀ req events out ↔ RemaindersPass t req events := by
  have count : 0 < req.nrSectors.toNat := by
    rcases issued.count with two | eight
    · rw [two]
      decide
    · rw [eight]
      decide
  have start : Between t req 0 s₀ := by
    refine ⟨fresh, ⟨req.errors, rest, ?_⟩, count, locked, ?_, idle⟩
    · rw [Entry.advance_zero]
      exact queue
    · rw [Moved, record]
      exact .nil
  rcases run.cases issued start accepted patient with ⟨passed, still | ended⟩ | ⟨failed, spoiled⟩
  · obtain ⟨s, rfl, serving⟩ := still
    exact iff_of_true (.inl ⟨s, rfl, serving.fresh, serving.inStep, serving.ends issued run le_rfl⟩) passed
  · exact iff_of_true (.inr ended) passed
  · refine iff_of_false ?_ failed
    rintro (⟨s, rfl, still, _⟩ | ended)
    · rcases spoiled with ⟨fault, s', wrong, _⟩ | ⟨more, r, finished⟩
      · cases wrong
      · have last : s.finished = more ++ [(r, false)] := finished
        simp [still] at last
    · exact ended.not_spoiled spoiled

theorem Run.unique {out' : Drive Hd Driver} (run : Run t s₀ events out) (other : Run t s₀ events out') :
    out = out' := by
  induction run generalizing out' with
  | dispatch =>
    generalize none : ([] : List Event) = events at other
    cases other with
    | dispatch => rfl
    | event => simp at none
  | @event events s event _ _ _ ih =>
    generalize same : events ++ [event] = all at other
    cases other with
    | dispatch => simp at same
    | event before _ _ =>
      obtain ⟨rfl, last⟩ := List.append_inj' same rfl
      obtain rfl := (List.cons.inj last).1
      obtain rfl := Except.ok.inj (ih before)
      rfl

theorem second_sector_run (s₀ s₁ s₂ : Driver) (first : doHdRequest t s₀ = .ok s₁)
    (fresh₁ : s₁.finished = []) (reading₁ : Possible s₁ (.sector false))
    (second : step t s₁ (.sector false) = .ok s₂) (fresh₂ : s₂.finished = [])
    (reading₂ : Possible s₂ (.sector true)) (spared : Spared s₂) :
    Run t s₀ [.sector false, .sector true] (step t s₂ (.sector true)) ∧
      NeverWornOut t s₀ [.sector false, .sector true] := by
  have one : Run t s₀ [.sector false] (.ok s₂) := by
    rw [← second]
    exact @Run.event t s₀ [] s₁ (.sector false) (first ▸ .dispatch) fresh₁ reading₁
  refine ⟨.event one fresh₂ reading₂, ?_⟩
  intro done event later s split failure before
  rcases done with _ | ⟨head, _ | ⟨next, tail⟩⟩
  · obtain rfl := (List.cons.inj split).1
    cases failure
  · obtain rfl := (List.cons.inj split).1
    obtain rfl := Except.ok.inj (one.unique before)
    exact spared
  · have short := congrArg List.length split
    simp at short

end Runs

theorem second_sector_read_again :
    ∃ out, Run oneDisk (readingDisk [firstBlock 0 (some 0)]) [.sector false, .sector true] out ∧
      Survives oneDisk (readingDisk [firstBlock 0 (some 0)]) (firstBlock 0 (some 0))
        [.sector false, .sector true] out := by
  obtain ⟨run, patient⟩ := second_sector_run (t := oneDisk) (readingDisk [firstBlock 0 (some 0)]) _ _ rfl rfl
    ⟨rfl, .inl rfl⟩ rfl rfl ⟨rfl, .inl rfl⟩ (by
      intro current rest queue
      obtain ⟨rfl, _⟩ := List.cons.inj queue
      decide)
  refine ⟨_, run, (request_survives_iff oneDisk (firstBlock 0 (some 0)) ⟨.inl rfl, rfl, .inl rfl, ?_⟩ _ [] rfl rfl
    rfl rfl ?_ rfl _ _ run patient).mpr ?_⟩
  · intro drive _
    simp [oneDisk]
  · intro bh _
    rfl
  · intro done event later split failure
    rcases done with _ | ⟨head, _ | ⟨next, tail⟩⟩
    · obtain rfl := (List.cons.inj split).1
      cases failure
    · obtain rfl := (List.cons.inj split).1
      rfl
    · have short := congrArg List.length split
      simp at short

/-- The same at the end of the partition: the remainder is one sector short of two, and the
request is reported as an error. -/
theorem last_sector_rejected :
    ∃ out, accepts oneDisk (firstBlock 0 (some 0)).minor 998 = true ∧
      Run oneDisk (readingDisk [{ firstBlock 0 (some 0) with sector := 998 }]) [.sector false, .sector true] out ∧
      NeverWornOut oneDisk (readingDisk [{ firstBlock 0 (some 0) with sector := 998 }])
        [.sector false, .sector true] ∧
      (∃ r, (after out).finished = [(r, false)]) ∧
      ¬Survives oneDisk (readingDisk [{ firstBlock 0 (some 0) with sector := 998 }])
        { firstBlock 0 (some 0) with sector := 998 } [.sector false, .sector true] out := by
  obtain ⟨run, patient⟩ := second_sector_run (t := oneDisk)
    (readingDisk [{ firstBlock 0 (some 0) with sector := 998 }]) _ _ rfl rfl
    ⟨rfl, .inl rfl⟩ rfl rfl ⟨rfl, .inl rfl⟩ (by
      intro current rest queue
      obtain ⟨rfl, _⟩ := List.cons.inj queue
      decide)
  refine ⟨_, rfl, run, patient, ⟨_, rfl⟩, ?_⟩
  rintro (⟨s, same, fresh, _⟩ | ended)
  · cases same
    cases fresh
  · exact ended.not_spoiled (.inr ⟨[], _, rfl⟩)

end HardDisk

end Linux012.BlkDrv

import Linux012.BlkDrv.HardDisk
import Mathlib.Tactic.NormNum
import Mathlib.Tactic.Ring

/-! The sectors that the commands of `do_hd_request` reach, and the partitions they are
meant for. -/

set_option autoImplicit false

namespace Linux012.BlkDrv.HardDisk

open Device
open BitVec (le_def toNat_setWidth)

/-! What the controller reads from the registers. -/

def Command.cylinder (c : Command) : Nat := c.hcyl.toNat * 2 ^ 8 + c.lcyl.toNat

def Command.headNr (c : Command) : Nat := c.current.toNat % 2 ^ 4

def Command.driveNr (c : Command) : Nat := c.current.toNat / 2 ^ 4 % 2

def Command.sectorNr (c : Command) : Nat := c.sect.toNat

def Geometry.sectorOf (g : Geometry) (c : Command) : Nat :=
  (c.cylinder * g.head.toNat + c.headNr) * g.sect.toNat + (c.sectorNr - 1)

def Geometry.size (g : Geometry) : Nat := g.cyl.toNat * g.head.toNat * g.sect.toNat

/-- `do_hd_request` starts the command `c` for a request, as the first dispatch or as a retry. -/
def Starts (t : Drives) (s : Driver) (current : Entry) (c : Command) : Prop :=
  ∃ s', doHdRequest t s = .ok s' ∧ s'.queue.head? = some current ∧ s'.own.command = c ∧
    (s'.own.doHd = some .readIntr ∨ s'.own.doHd = some .writeIntr)

structure CommandFor (t : Drives) (current : Entry) (c : Command) : Prop where
  accepted : accepts t current.minor current.sector = true
  built : ∃ p cmd, place (t.hdInfo (current.minor / 5)) (current.sector + (t.hd current.minor).startSect) = some p ∧
    p.head ≤ 15 ∧ c = commandBytes (.ofNat 32 (current.minor / 5)) current.nrSectors p.sec p.head p.cyl cmd

variable {s : Driver}

theorem hdOut_ok {s' : Driver} {drive nsect sect head cyl : BitVec 32} {cmd : BitVec 8} {intr : Handler}
    (sent : hdOut s drive nsect sect head cyl cmd intr = .ok s') :
    drive ≤ 1 ∧ head ≤ 15 ∧ s'.queue = s.queue ∧ s'.own.doHd = some intr ∧
      s'.own.command = commandBytes drive nsect sect head cyl cmd := by
  unfold hdOut at sent
  split at sent
  · cases sent
  case isFalse inRange =>
    obtain rfl := Except.ok.inj sent
    rw [not_or, BitVec.not_lt, BitVec.not_lt] at inRange
    exact ⟨inRange.1, inRange.2, rfl, rfl, rfl⟩

variable {t : Drives} {current : Entry}

theorem startRequest_starts {s' : Driver} (started : startRequest t s current = .ok s')
    (transfer : s'.own.doHd = some .readIntr ∨ s'.own.doHd = some .writeIntr) :
    s'.queue = s.queue ∧
      ∃ p cmd, place (t.hdInfo (current.minor / 5)) (current.sector + (t.hd current.minor).startSect) = some p ∧
        p.head ≤ 15 ∧
        s'.own.command = commandBytes (.ofNat 32 (current.minor / 5)) current.nrSectors p.sec p.head p.cyl cmd := by
  cases placed : place (t.hdInfo (current.minor / 5)) (current.sector + (t.hd current.minor).startSect) with
  | none =>
    simp only [startRequest, placed] at started
    cases started
  | some p =>
    simp only [startRequest, placed] at started
    split at started
    · obtain ⟨_, _, _, intr, _⟩ := hdOut_ok started
      simp [intr] at transfer
    split at started
    · obtain ⟨_, _, _, intr, _⟩ := hdOut_ok started
      simp [intr] at transfer
    split at started
    · simp only [bind, Except.bind] at started
      split at started
      · cases started
      case h_2 sent out =>
        obtain ⟨_, head, queue, _, command⟩ := hdOut_ok out
        obtain rfl := Except.ok.inj started
        exact ⟨queue, p, WIN_WRITE, rfl, head, command⟩
    split at started
    · obtain ⟨_, head, queue, _, command⟩ := hdOut_ok started
      exact ⟨queue, p, WIN_READ, rfl, head, command⟩
    · cases started

theorem initRequest_ok {σ : Type} {s s' : Device σ} {majorNr : Nat}
    (sound : s.initRequest majorNr current = .ok s') : s' = s := by
  unfold initRequest at sound
  split at sound
  · cases sound
  split at sound
  · cases sound
  · exact (Except.ok.inj sound).symm

theorem endRequest_queue {σ : Type} {s s' : Device σ} {rest : List Entry} (queue : s.queue = current :: rest)
    (ended : s.endRequest false = .ok s') : s'.queue = rest := by
  cases bh : current.bh with
  | none =>
    rw [endRequest_swap queue bh] at ended
    cases ended
  | some number =>
    obtain ⟨s₁, run, after, _⟩ := endRequest_buffer queue bh
    obtain rfl : s₁ = s' := Except.ok.inj (run.symm.trans ended)
    exact after

theorem requestLoop_starts (queue : List Entry) {s' : Driver} (same : s.queue = queue)
    (ran : requestLoop t queue s = .ok s')
    (transfer : s'.own.doHd = some .readIntr ∨ s'.own.doHd = some .writeIntr) :
    ∃ current, s'.queue.head? = some current ∧ CommandFor t current s'.own.command := by
  induction queue generalizing s with
  | nil =>
    obtain rfl := Except.ok.inj ran
    rcases transfer with idle | idle
    · cases idle
    · cases idle
  | cons current rest ih =>
    rw [requestLoop] at ran
    cases sound : s.initRequest 3 current with
    | error fault =>
      rw [sound] at ran
      cases ran
    | ok s₁ =>
      obtain rfl := initRequest_ok sound
      rw [sound] at ran
      simp only [bind, Except.bind] at ran
      split at ran
      case isTrue accepted =>
        obtain ⟨kept, built⟩ := startRequest_starts ran transfer
        exact ⟨current, by rw [kept, same]; rfl, accepted, built⟩
      case isFalse rejected =>
        cases ended : s₁.endRequest false with
        | error fault =>
          rw [ended] at ran
          cases ran
        | ok s₂ =>
          rw [ended] at ran
          exact ih (endRequest_queue same ended) ran

variable {c : Command}

theorem Starts.commandFor (starts : Starts t s current c) : CommandFor t current c := by
  obtain ⟨s', ran, head, rfl, transfer⟩ := starts
  obtain ⟨first, atHead, command⟩ := requestLoop_starts s.queue rfl ran transfer
  obtain rfl : current = first := Option.some.inj (head.symm.trans atHead)
  exact command

/-! The registers hold the head and the sector, and the low half of the cylinder. -/

theorem headByte (drive : BitVec 32) (head : BitVec 32) (low : drive ≤ 1) (fits : head ≤ 15) :
    ((0xA0 ||| drive <<< 4 ||| head).setWidth 8).toNat % 2 ^ 4 = head.toNat ∧
      ((0xA0 ||| drive <<< 4 ||| head).setWidth 8).toNat / 2 ^ 4 % 2 = drive.toNat := by
  have every : ∀ (d : Fin 2) (h : Fin 16),
      ((0xA0 ||| (BitVec.ofNat 32 d) <<< 4 ||| BitVec.ofNat 32 h).setWidth 8 : BitVec 8).toNat % 2 ^ 4 = h ∧
        ((0xA0 ||| (BitVec.ofNat 32 d) <<< 4 ||| BitVec.ofNat 32 h).setWidth 8 : BitVec 8).toNat / 2 ^ 4 % 2 = d := by
    decide
  have driveLt : drive.toNat < 2 := Nat.lt_succ_of_le (BitVec.le_def.mp low)
  have headLt : head.toNat < 16 := Nat.lt_succ_of_le (BitVec.le_def.mp fits)
  have both := every ⟨drive.toNat, driveLt⟩ ⟨head.toNat, headLt⟩
  simpa only [BitVec.ofNat_toNat, BitVec.setWidth_eq] using both

section Place

variable {g : Geometry} {block : BitVec 32} {p : Place}

theorem place_some (placed : place g block = some p) :
    0 < g.sect.toNat ∧ 0 < g.head.toNat ∧ p.cyl.toNat = block.toNat / g.sect.toNat / g.head.toNat ∧
      p.head.toNat = block.toNat / g.sect.toNat % g.head.toNat ∧
      p.sec.toNat = block.toNat % g.sect.toNat + 1 := by
  unfold place at placed
  split at placed
  · cases placed
  case isFalse usable =>
    obtain rfl := Option.some.inj placed
    rw [not_or] at usable
    have sect : (g.sect.setWidth 32).toNat = g.sect.toNat := by
      rw [toNat_setWidth]
      exact Nat.mod_eq_of_lt (g.sect.isLt.trans (by norm_num))
    have head : (g.head.setWidth 32).toNat = g.head.toNat := by
      rw [toNat_setWidth]
      exact Nat.mod_eq_of_lt (g.head.isLt.trans (by norm_num))
    have sectPos : 0 < g.sect.toNat := Nat.pos_of_ne_zero fun zero => usable.1 (BitVec.eq_of_toNat_eq zero)
    have headPos : 0 < g.head.toNat := Nat.pos_of_ne_zero fun zero => usable.2 (BitVec.eq_of_toNat_eq zero)
    refine ⟨sectPos, headPos, ?_, ?_, ?_⟩
    · simp only [BitVec.toNat_udiv, sect, head]
    · simp only [BitVec.toNat_umod, BitVec.toNat_udiv, sect, head]
    · have small : block.toNat % g.sect.toNat < g.sect.toNat := Nat.mod_lt _ sectPos
      have bound := g.sect.isLt
      have one : (1 : BitVec 32).toNat = 1 := rfl
      rw [BitVec.toNat_add, BitVec.toNat_umod, sect, one]
      exact Nat.mod_eq_of_lt (by omega)

theorem cylinder_commandBytes (drive nsect sect head cyl : BitVec 32) (cmd : BitVec 8) :
    (commandBytes drive nsect sect head cyl cmd).cylinder = cyl.toNat % 2 ^ 16 := by
  simp only [Command.cylinder, commandBytes, toNat_setWidth, BitVec.toNat_ushiftRight, Nat.shiftRight_eq_div_pow]
  omega

theorem sectorOf_add {drive : BitVec 32} (nsect : BitVec 32) (cmd : BitVec 8) (low : drive ≤ 1)
    (placed : place g block = some p) (fits : p.head ≤ 15) :
    g.sectorOf (commandBytes drive nsect p.sec p.head p.cyl cmd) +
      (p.cyl.toNat - p.cyl.toNat % 2 ^ 16) * g.head.toNat * g.sect.toNat = block.toNat := by
  obtain ⟨sectPos, headPos, cyl, head, sec⟩ := place_some placed
  have headNr : (commandBytes drive nsect p.sec p.head p.cyl cmd).headNr = p.head.toNat :=
    (headByte drive p.head low fits).1
  have sectorNr : (commandBytes drive nsect p.sec p.head p.cyl cmd).sectorNr = p.sec.toNat := by
    have bound := g.sect.isLt
    have small : block.toNat % g.sect.toNat < g.sect.toNat := Nat.mod_lt _ sectPos
    simp only [Command.sectorNr, commandBytes, toNat_setWidth]
    omega
  have whole : p.cyl.toNat % 2 ^ 16 + (p.cyl.toNat - p.cyl.toNat % 2 ^ 16) = p.cyl.toNat :=
    Nat.add_sub_of_le (Nat.mod_le _ _)
  rw [Geometry.sectorOf, cylinder_commandBytes, headNr, sectorNr, sec, Nat.add_sub_cancel]
  calc (p.cyl.toNat % 2 ^ 16 * g.head.toNat + p.head.toNat) * g.sect.toNat + block.toNat % g.sect.toNat +
        (p.cyl.toNat - p.cyl.toNat % 2 ^ 16) * g.head.toNat * g.sect.toNat
      = ((p.cyl.toNat % 2 ^ 16 + (p.cyl.toNat - p.cyl.toNat % 2 ^ 16)) * g.head.toNat + p.head.toNat) *
          g.sect.toNat + block.toNat % g.sect.toNat := by ring
    _ = (g.head.toNat * (block.toNat / g.sect.toNat / g.head.toNat) +
          block.toNat / g.sect.toNat % g.head.toNat) * g.sect.toNat + block.toNat % g.sect.toNat := by
        rw [whole, cyl, head, Nat.mul_comm (block.toNat / g.sect.toNat / g.head.toNat)]
    _ = block.toNat := by rw [Nat.div_add_mod, Nat.div_add_mod']

end Place

/-- The sectors of a command lie in the partition, and its first one is the sector asked for. -/
structure Isolated (t : Drives) (current : Entry) (c : Command) : Prop where
  drive : c.driveNr = current.minor / 5
  inside : ∀ j < current.nrSectors.toNat,
    (t.hd current.minor).startSect.toNat ≤ (t.hdInfo (current.minor / 5)).sectorOf c + j ∧
      (t.hdInfo (current.minor / 5)).sectorOf c + j <
        (t.hd current.minor).startSect.toNat + (t.hd current.minor).nrSects.toNat
  exact : (t.hdInfo (current.minor / 5)).sectorOf c =
    (t.hd current.minor).startSect.toNat + current.sector.toNat
  head : c.headNr < (t.hdInfo (current.minor / 5)).head.toNat
  sector : 1 ≤ c.sectorNr ∧ c.sectorNr ≤ (t.hdInfo (current.minor / 5)).sect.toNat
  count : c.nsect.toNat = current.nrSectors.toNat

/-- The remaining sectors end inside the partition, the absolute sector is a 32-bit number
and its cylinder a 16-bit one. -/
structure Reachable (t : Drives) (current : Entry) : Prop where
  inside : current.sector.toNat + current.nrSectors.toNat ≤ (t.hd current.minor).nrSects.toNat
  noWrap : (t.hd current.minor).startSect.toNat + current.sector.toNat < 2 ^ 32
  cylinder : ((t.hd current.minor).startSect.toNat + current.sector.toNat) /
    (t.hdInfo (current.minor / 5)).sect.toNat / (t.hdInfo (current.minor / 5)).head.toNat < 2 ^ 16

def absolute (t : Drives) (current : Entry) : BitVec 32 := current.sector + (t.hd current.minor).startSect

theorem CommandFor.drive_le (command : CommandFor t current c) : current.minor / 5 < 2 := by
  have accepted := command.accepted
  simp only [accepts, Bool.and_eq_true, decide_eq_true_eq] at accepted
  have drives := t.nrHd_le
  simp only [MAX_HD] at drives
  omega

theorem drive_ofNat {drive : Nat} (small : drive < 2) :
    (BitVec.ofNat 32 drive).toNat = drive ∧ BitVec.ofNat 32 drive ≤ 1 := by
  have value : (BitVec.ofNat 32 drive).toNat = drive := by
    rw [BitVec.toNat_ofNat]
    exact Nat.mod_eq_of_lt (small.trans (by norm_num))
  refine ⟨value, BitVec.le_def.mpr ?_⟩
  rw [value]
  exact Nat.le_of_lt_succ small

theorem CommandFor.registers (command : CommandFor t current c) :
    0 < (t.hdInfo (current.minor / 5)).sect.toNat ∧ 0 < (t.hdInfo (current.minor / 5)).head.toNat ∧
      c.driveNr = current.minor / 5 ∧
      c.headNr < (t.hdInfo (current.minor / 5)).head.toNat ∧
      1 ≤ c.sectorNr ∧ c.sectorNr ≤ (t.hdInfo (current.minor / 5)).sect.toNat ∧
      c.nsect.toNat = current.nrSectors.toNat % 2 ^ 8 := by
  obtain ⟨p, cmd, placed, fits, rfl⟩ := command.built
  obtain ⟨value, low⟩ := drive_ofNat command.drive_le
  obtain ⟨sectPos, headPos, _, head, sec⟩ := place_some placed
  obtain ⟨headNr, driveNr⟩ := headByte _ p.head low fits
  have small := Nat.mod_lt (absolute t current).toNat sectPos
  have bound := (t.hdInfo (current.minor / 5)).sect.isLt
  have sectorNr : p.sec.toNat % 2 ^ 8 = (absolute t current).toNat % (t.hdInfo (current.minor / 5)).sect.toNat + 1 := by
    rw [absolute] at small
    rw [absolute, sec]
    omega
  refine ⟨sectPos, headPos, driveNr.trans value, ?_, ?_, ?_, toNat_setWidth ..⟩
  · exact (headNr.trans head).trans_lt (Nat.mod_lt _ headPos)
  · simp only [Command.sectorNr, commandBytes, toNat_setWidth, sectorNr]
    exact Nat.le_add_left 1 _
  · simp only [Command.sectorNr, commandBytes, toNat_setWidth, sectorNr]
    exact small

theorem CommandFor.sectorOf (command : CommandFor t current c) :
    (t.hdInfo (current.minor / 5)).sectorOf c ≤ (absolute t current).toNat ∧
      ((t.hdInfo (current.minor / 5)).sectorOf c = (absolute t current).toNat ↔
        (absolute t current).toNat / (t.hdInfo (current.minor / 5)).sect.toNat /
          (t.hdInfo (current.minor / 5)).head.toNat < 2 ^ 16) := by
  obtain ⟨p, cmd, placed, fits, rfl⟩ := command.built
  obtain ⟨_, low⟩ := drive_ofNat command.drive_le
  obtain ⟨sectPos, headPos, cyl, _, _⟩ := place_some placed
  have whole := sectorOf_add current.nrSectors cmd low placed fits
  refine ⟨Nat.le.intro whole, ?_⟩
  rw [absolute, ← cyl, ← whole]
  constructor
  · intro same
    have missing : (p.cyl.toNat - p.cyl.toNat % 2 ^ 16) * (t.hdInfo (current.minor / 5)).head.toNat *
        (t.hdInfo (current.minor / 5)).sect.toNat = 0 := by omega
    rcases Nat.mul_eq_zero.mp missing with cylinders | none
    · rcases Nat.mul_eq_zero.mp cylinders with fitting | none
      · have remainder := Nat.mod_lt p.cyl.toNat (by norm_num : 0 < 2 ^ 16)
        omega
      · exact absurd none headPos.ne'
    · exact absurd none sectPos.ne'
  · intro fitting
    rw [Nat.mod_eq_of_lt fitting, Nat.sub_self, Nat.zero_mul, Nat.zero_mul, Nat.add_zero]

theorem CommandFor.isolated_iff (command : CommandFor t current c) (some : 1 ≤ current.nrSectors.toNat)
    (few : current.nrSectors.toNat ≤ 8) : Isolated t current c ↔ Reachable t current := by
  obtain ⟨sectPos, headPos, drive, head, sectorLow, sectorHigh, count⟩ := command.registers
  obtain ⟨below, same⟩ := command.sectorOf
  have sum : (absolute t current).toNat =
      (current.sector.toNat + (t.hd current.minor).startSect.toNat) % 2 ^ 32 := BitVec.toNat_add ..
  constructor
  · intro isolated
    have exact := isolated.exact
    have noWrap : (t.hd current.minor).startSect.toNat + current.sector.toNat < 2 ^ 32 := by omega
    have value : (absolute t current).toNat = (t.hd current.minor).startSect.toNat + current.sector.toNat := by omega
    refine ⟨?_, noWrap, ?_⟩
    · have last := (isolated.inside (current.nrSectors.toNat - 1) (by omega)).2
      omega
    · rw [← value]
      exact same.mp (exact.trans value.symm)
  · intro reachable
    have noWrap := reachable.noWrap
    have value : (absolute t current).toNat = (t.hd current.minor).startSect.toNat + current.sector.toNat := by omega
    have exact : (t.hdInfo (current.minor / 5)).sectorOf c =
        (t.hd current.minor).startSect.toNat + current.sector.toNat := by
      rw [← value]
      refine same.mpr ?_
      rw [value]
      exact reachable.cylinder
    refine ⟨drive, ?_, exact, head, ⟨sectorLow, sectorHigh⟩, by omega⟩
    intro j member
    have inside := reachable.inside
    omega

theorem CommandFor.sector_unique {one two : Entry} {d : Command} (first : CommandFor t one c)
    (second : CommandFor t two d) (drive : one.minor / 5 = two.minor / 5)
    (oneInside : (absolute t one).toNat < (t.hdInfo (one.minor / 5)).size)
    (twoInside : (absolute t two).toNat < (t.hdInfo (two.minor / 5)).size) (cylinder : c.cylinder = d.cylinder)
    (head : c.headNr = d.headNr) (sector : c.sectorNr = d.sectorNr) : absolute t one = absolute t two := by
  have fits : ∀ (g : Geometry) (a : Nat), a < g.size → a / g.sect.toNat / g.head.toNat < 2 ^ 16 := by
    intro g a inside
    have cylinders : a / g.sect.toNat / g.head.toNat < g.cyl.toNat := by
      rw [Nat.div_div_eq_div_mul]
      refine Nat.div_lt_of_lt_mul ?_
      calc a < g.size := inside
        _ = g.sect.toNat * g.head.toNat * g.cyl.toNat := by rw [Geometry.size]; ring
    exact cylinders.trans g.cyl.isLt
  refine BitVec.eq_of_toNat_eq ?_
  rw [← first.sectorOf.2.mpr (fits _ _ oneInside), ← second.sectorOf.2.mpr (fits _ _ twoInside)]
  rw [Geometry.sectorOf, Geometry.sectorOf, cylinder, head, sector, drive]

/-- The commands for what is left of a request of two or of eight sectors stay in the
partition when the request does, and no sum or cylinder number is too large. -/
theorem partition_isolated_iff (t : Drives) :
    (∀ (s : Driver) (current : Entry) (c : Command), Starts t s current c →
      1 ≤ current.nrSectors.toNat → current.nrSectors.toNat ≤ 8 → (Isolated t current c ↔ Reachable t current)) ∧
    (∀ (s s' : Driver) (one two : Entry) (c d : Command), Starts t s one c → Starts t s' two d →
      one.minor / 5 = two.minor / 5 →
      (absolute t one).toNat < (t.hdInfo (one.minor / 5)).size →
      (absolute t two).toNat < (t.hdInfo (two.minor / 5)).size →
      c.cylinder = d.cylinder → c.headNr = d.headNr → c.sectorNr = d.sectorNr → absolute t one = absolute t two) := by
  constructor
  · intro s current c starts some few
    exact starts.commandFor.isolated_iff some few
  · intro s s' one two c d first second drive oneInside twoInside cylinder head sector
    exact first.commandFor.sector_unique second.commandFor drive oneInside twoInside cylinder head sector

theorem first_block_isolated :
    Isolated oneDisk (firstBlock 0 (some 0)) (commandBytes 0 2 2 0 0 WIN_READ) :=
  ((partition_isolated_iff oneDisk).1 (readingDisk [firstBlock 0 (some 0)]) _ _
    ⟨_, rfl, rfl, rfl, .inl rfl⟩ (by decide) (by decide)).mpr ⟨by decide, by decide, by decide⟩

/-- A page that begins two sectors before the end of the partition, and a block whose
number wraps around. -/
theorem command_escapes :
    (∃ c, Starts oneDisk (readingDisk [{ firstBlock 0 none with sector := 998, nrSectors := 8 }])
        { firstBlock 0 none with sector := 998, nrSectors := 8 } c ∧
      ¬Isolated oneDisk { firstBlock 0 none with sector := 998, nrSectors := 8 } c) ∧
    (∃ c, Starts oneDisk (readingDisk [{ firstBlock 0 (some 0) with sector := 0xFFFFFFFE }])
        { firstBlock 0 (some 0) with sector := 0xFFFFFFFE } c ∧
      ¬Isolated oneDisk { firstBlock 0 (some 0) with sector := 0xFFFFFFFE } c) := by
  constructor
  · refine ⟨_, ⟨_, rfl, rfl, rfl, .inl rfl⟩, ?_⟩
    intro isolated
    have last := (isolated.inside 7 (by decide)).2
    revert last
    decide
  · refine ⟨_, ⟨_, rfl, rfl, rfl, .inl rfl⟩, ?_⟩
    intro isolated
    have first := isolated.exact
    revert first
    decide

end Linux012.BlkDrv.HardDisk

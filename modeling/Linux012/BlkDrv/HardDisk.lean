import Linux012.BlkDrv.Device

/-! The hard-disk driver, from `kernel/blk_drv/hd.c`, with the interrupt entry in
`kernel/sys_call.s`. The controller is ready whenever `hd_out` asks it. -/

set_option autoImplicit false

namespace Linux012.BlkDrv.HardDisk

open Device

def MAX_ERRORS : Int := 7
def MAX_HD : Nat := 2
def WIN_RESTORE : BitVec 8 := 0x10
def WIN_READ : BitVec 8 := 0x20
def WIN_WRITE : BitVec 8 := 0x30
def WIN_SPECIFY : BitVec 8 := 0x91

/-- `struct hd_i_struct`, in the widths that `sys_setup` takes it from the BIOS in. -/
structure Geometry where
  head : BitVec 8
  sect : BitVec 8
  cyl : BitVec 16

structure Partition where
  startSect : BitVec 32
  nrSects : BitVec 32

structure Drives where
  nrHd : Nat
  nrHd_le : nrHd ≤ MAX_HD
  hdInfo : Nat → Geometry
  hd : Nat → Partition

inductive Handler where
  | readIntr
  | writeIntr
  | recalIntr
  | resetHd
deriving DecidableEq

/-- What `hd_out` sends to the ports behind the precompensation. -/
structure Command where
  nsect : BitVec 8
  sect : BitVec 8
  lcyl : BitVec 8
  hcyl : BitVec 8
  current : BitVec 8
  cmd : BitVec 8
deriving DecidableEq

/-- A sector that went over: the `offset`-th of a command, and the 512 bytes it went to or
came from. -/
structure Transfer where
  command : Command
  offset : Nat
  buffer : BitVec 32
deriving DecidableEq

/-- The variables of the driver, and what the controller has been told: the last command,
the sectors it has moved since and the bytes it has been given for the next one. -/
structure Hd where
  doHd : Option Handler
  hdTimeout : Nat
  reset : Bool
  recalibrate : Bool
  i : Int
  /-- `do_hd_request` waits for the controller to ask for data -/
  polling : Bool
  command : Command
  moved : Nat
  given : BitVec 32
  transfers : List Transfer

abbrev Driver := Device Hd

def setIntr (s : Driver) (intr : Option Handler) : Driver :=
  s.setOwn { s.own with doHd := intr, hdTimeout := 200 }

def portRead (s : Driver) (buffer : BitVec 32) : Driver :=
  s.setOwn { s.own with
    transfers := ⟨s.own.command, s.own.moved, buffer⟩ :: s.own.transfers
    moved := s.own.moved + 1 }

def portWrite (s : Driver) (buffer : BitVec 32) : Driver :=
  s.setOwn { s.own with given := buffer }

def written (s : Driver) : Driver := portRead s s.own.given

def commandBytes (drive nsect sect head cyl : BitVec 32) (cmd : BitVec 8) : Command where
  nsect := nsect.setWidth 8
  sect := sect.setWidth 8
  lcyl := cyl.setWidth 8
  hcyl := (cyl >>> 8).setWidth 8
  current := (0xA0 ||| drive <<< 4 ||| head).setWidth 8
  cmd := cmd

def hdOut (s : Driver) (drive nsect sect head cyl : BitVec 32) (cmd : BitVec 8) (intr : Handler) :
    Drive Hd Driver :=
  if 1 < drive ∨ 15 < head then .error (.badSector, s)
  else
    let s := setIntr s (some intr)
    .ok (s.setOwn { s.own with command := commandBytes drive nsect sect head cyl cmd, moved := 0 })

/-- Both tests of `do_hd_request`; `block+2` and the comparison are unsigned. -/
def accepts (t : Drives) (dev : Nat) (block : BitVec 32) : Bool :=
  decide (dev < 5 * t.nrHd) && decide (block + 2 ≤ (t.hd dev).nrSects)

structure Place where
  cyl : BitVec 32
  head : BitVec 32
  sec : BitVec 32
deriving DecidableEq

/-- The two `divl` instructions. -/
def place (g : Geometry) (block : BitVec 32) : Option Place :=
  if g.sect = 0 ∨ g.head = 0 then none
  else
    let sect := g.sect.setWidth 32
    let head := g.head.setWidth 32
    some { cyl := block / sect / head, head := block / sect % head, sec := block % sect + 1 }

def specify (t : Drives) (s : Driver) (drive : Nat) : Drive Hd Driver :=
  let g := t.hdInfo drive
  hdOut (s.setOwn { s.own with i := drive }) (.ofNat 32 drive) (g.sect.setWidth 32) (g.sect.setWidth 32)
    (g.head.setWidth 32 - 1) (g.cyl.setWidth 32) WIN_SPECIFY .resetHd

/-- `reset_hd` when `reset` is set; there is a drive, as the request has been accepted. -/
def beginReset (t : Drives) (s : Driver) : Drive Hd Driver :=
  specify t (s.setOwn { s.own with reset := false }) 0

def startRequest (t : Drives) (s : Driver) (current : Entry) : Drive Hd Driver :=
  let dev := current.minor
  let drive := dev / 5
  match place (t.hdInfo drive) (current.sector + (t.hd dev).startSect) with
  | none => .error (.divideError, s)
  | some p =>
    if s.own.reset then beginReset t (s.setOwn { s.own with recalibrate := true })
    else if s.own.recalibrate then
      hdOut (s.setOwn { s.own with recalibrate := false }) (.ofNat 32 drive)
        ((t.hdInfo drive).sect.setWidth 32) 0 0 0 WIN_RESTORE .recalIntr
    else if current.cmd = WRITE then do
      let s ← hdOut s (.ofNat 32 drive) current.nrSectors p.sec p.head p.cyl WIN_WRITE .writeIntr
      pure (s.setOwn { s.own with polling := true })
    else if current.cmd = READ then
      hdOut s (.ofNat 32 drive) current.nrSectors p.sec p.head p.cyl WIN_READ .readIntr
    else .error (.unknownCommand, s)

def requestLoop (t : Drives) : List Entry → Driver → Drive Hd Driver
  | [], s => .ok (s.setOwn { s.own with doHd := none, hdTimeout := 0 })
  | current :: rest, s => do
    let s ← s.initRequest 3 current
    if accepts t current.minor current.sector then startRequest t s current
    else
      let s ← s.endRequest false
      requestLoop t rest s

def doHdRequest (t : Drives) (s : Driver) : Drive Hd Driver := requestLoop t s.queue s

def badRwIntr (s : Driver) : Drive Hd Driver :=
  s.withCurrent fun current => do
    let s := s.setCurrent current.countError
    let s ← if MAX_ERRORS ≤ current.countError.errors then s.endRequest false else pure s
    s.withCurrent fun current =>
      pure (if MAX_ERRORS / 2 < current.errors then s.setOwn { s.own with reset := true } else s)

def nextDrive (t : Drives) (s : Driver) (i : Int) : Drive Hd Driver :=
  if i < t.nrHd then specify t s i.toNat else doHdRequest t (s.setOwn { s.own with i := i })

def resetHd (t : Drives) (s : Driver) (failed : Bool) : Drive Hd Driver :=
  if s.own.reset then nextDrive t (s.setOwn { s.own with reset := false }) 0
  else if failed then do
    let s ← badRwIntr s
    if s.own.reset then nextDrive t (s.setOwn { s.own with reset := false }) 0
    else nextDrive t s (s.own.i + 1)
  else nextDrive t s (s.own.i + 1)

def readIntr (t : Drives) (s : Driver) (failed : Bool) : Drive Hd Driver :=
  if failed then do
    let s ← badRwIntr s
    doHdRequest t s
  else s.withCurrent fun current => do
    let left := current.nrSectors - 1
    let s := (portRead s current.buffer).setCurrent { current with
      errors := 0, buffer := current.buffer + 512, sector := current.sector + 1, nrSectors := left }
    if left ≠ 0 then pure (setIntr s (some .readIntr))
    else
      let s ← s.endRequest true
      doHdRequest t s

def writeIntr (t : Drives) (s : Driver) (failed : Bool) : Drive Hd Driver :=
  if failed then do
    let s ← badRwIntr s
    doHdRequest t s
  else s.withCurrent fun current => do
    let left := current.nrSectors - 1
    let s := written s
    if left ≠ 0 then
      let next := { current with
        nrSectors := left, sector := current.sector + 1, buffer := current.buffer + 512 }
      pure (portWrite (setIntr (s.setCurrent next) (some .writeIntr)) next.buffer)
    else
      let s ← (s.setCurrent { current with nrSectors := left }).endRequest true
      doHdRequest t s

def recalIntr (t : Drives) (s : Driver) (failed : Bool) : Drive Hd Driver := do
  let s ← if failed then badRwIntr s else pure s
  doHdRequest t s

def unexpectedHdInterrupt (t : Drives) (s : Driver) : Drive Hd Driver :=
  doHdRequest t ((s.printk .unexpectedInterrupt).setOwn { s.own with reset := true })

/-- The interrupt entry `_hd_interrupt`; `failed` is what `win_result` returns. -/
def hdInterrupt (t : Drives) (s : Driver) (failed : Bool) : Drive Hd Driver :=
  let intr := s.own.doHd
  let s := s.setOwn { s.own with doHd := none, hdTimeout := 0 }
  match intr with
  | none => unexpectedHdInterrupt t s
  | some .readIntr => readIntr t s failed
  | some .writeIntr => writeIntr t s failed
  | some .recalIntr => recalIntr t s failed
  | some .resetHd => resetHd t s failed

def countTimeout (s : Driver) : Drive Hd Driver :=
  s.withCurrent fun current =>
    let s := (s.printk .hdTimeout).setCurrent current.countError
    if MAX_ERRORS ≤ current.countError.errors then s.endRequest false else pure s

def hdTimesOut (t : Drives) (s : Driver) : Drive Hd Driver :=
  match s.queue with
  | [] => pure s
  | _ :: _ => do
    let s ← countTimeout s
    let s := setIntr s none
    doHdRequest t (s.setOwn { s.own with reset := true })

/-- The polling loop of `do_hd_request` ends, with or without DRQ_STAT. -/
def dataRequest (t : Drives) (s : Driver) (asked : Bool) : Drive Hd Driver :=
  let s := s.setOwn { s.own with polling := false }
  if asked then s.withCurrent fun current => pure (portWrite s current.buffer)
  else do
    let s ← badRwIntr s
    doHdRequest t s

/-- `add_request`, with the call of the driver when the queue was empty. -/
def addEntry (t : Drives) (s : Driver) (req : Entry) : Drive Hd Driver :=
  match s.queue with
  | [] => doHdRequest t { s with queue := [req] }
  | _ :: _ => pure { s with queue := addRequest Entry.view req s.queue }

inductive Event where
  | sector (failed : Bool)
  | control (failed : Bool)
  | dataRequest (asked : Bool)
  | timeout
  | added (req : Entry)

/-- Nothing else happens while `do_hd_request` polls, and `hd_times_out` needs a count to
run down. -/
def Possible (s : Driver) : Event → Prop
  | .sector _ => s.own.polling = false ∧ (s.own.doHd = some .readIntr ∨ s.own.doHd = some .writeIntr)
  | .control _ => s.own.polling = false ∧ s.own.doHd ≠ some .readIntr ∧ s.own.doHd ≠ some .writeIntr
  | .dataRequest _ => s.own.polling = true
  | .timeout => s.own.polling = false ∧ s.own.hdTimeout ≠ 0
  | .added _ => s.own.polling = false

def step (t : Drives) (s : Driver) : Event → Drive Hd Driver
  | .sector failed => hdInterrupt t s failed
  | .control failed => hdInterrupt t s failed
  | .dataRequest asked => dataRequest t s asked
  | .timeout => hdTimesOut t (s.setOwn { s.own with hdTimeout := 0 })
  | .added req => addEntry t s req

theorem doHdRequest_rejects {t : Drives} {s : Driver} {current : Entry} {rest : List Entry}
    (queue : s.queue = current :: rest) (sound : s.initRequest 3 current = .ok s)
    (rejected : accepts t current.minor current.sector = false) :
    doHdRequest t s = (s.endRequest false).bind (doHdRequest t) := by
  have loop : doHdRequest t s = (s.endRequest false).bind (requestLoop t rest) := by
    rw [doHdRequest, queue, requestLoop, sound]
    change (if accepts t current.minor current.sector = true then startRequest t s current
      else (s.endRequest false).bind (requestLoop t rest)) = _
    rw [rejected, if_neg Bool.false_ne_true]
  rw [loop]
  cases bh : current.bh with
  | none =>
    rw [Device.endRequest_swap queue bh]
    rfl
  | some number =>
    obtain ⟨s', run, after, _⟩ := Device.endRequest_buffer queue bh
    rw [run]
    change requestLoop t rest s' = requestLoop t s'.queue s'
    rw [after]

def firstBlock (errors : Int) (bh : Option Nat) : Entry where
  dev := 0x301
  cmd := READ
  errors := errors
  sector := 0
  nrSectors := 2
  buffer := 0x100000
  bh := bh

def readingDisk (queue : List Entry) : Driver where
  queue := queue
  buffers := fun number => ⟨true, false, .ofNat 32 number⟩
  printed := []
  finished := []
  own := {
    doHd := some .readIntr
    hdTimeout := 200
    reset := false
    recalibrate := false
    i := 0
    polling := false
    command := commandBytes 0 2 2 0 0 WIN_READ
    moved := 0
    given := 0
    transfers := [] }

def oneDisk : Drives where
  nrHd := 1
  nrHd_le := by decide
  hdInfo := fun _ => ⟨4, 17, 615⟩
  hd := fun _ => ⟨1, 1000⟩

end Linux012.BlkDrv.HardDisk

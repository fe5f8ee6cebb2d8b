import Linux012.BlkDrv.Device

/-! The requests of the floppy driver, from `kernel/blk_drv/floppy.c`. The controller takes
every byte it is sent. -/

set_option autoImplicit false

namespace Linux012.BlkDrv.Floppy

open Device

def MAX_ERRORS : Int := 8

structure FloppyStruct where
  size : BitVec 32
  sect : BitVec 32
  head : BitVec 32
  stretch : Nat

inductive Handler where
  | rwInterrupt
  | recalInterrupt
  | resetInterrupt
deriving DecidableEq

structure Fd where
  doFloppy : Option Handler
  reset : Bool
  recalibrate : Bool
  seek : Bool
  selected : Bool
  currentDor : BitVec 8
  currentDrive : BitVec 8
  floppy : Nat
  sector : BitVec 8
  head : BitVec 8
  track : BitVec 8
  seekTrack : BitVec 8
  currentTrack : BitVec 8
  command : Nat
  /-- `floppy_on_interrupt` is on the timer list -/
  motor : Bool

abbrev Driver := Device Fd

def floppyDeselect (s : Driver) : Driver := s.setOwn { s.own with selected := false }

def badFlpIntr (s : Driver) : Drive Fd Driver :=
  s.withCurrent fun current => do
    let s := s.setCurrent current.countError
    let s ← if MAX_ERRORS < current.countError.errors then (floppyDeselect s).endRequest false else pure s
    s.withCurrent fun current =>
      pure (if MAX_ERRORS / 2 < current.errors then s.setOwn { s.own with reset := true }
        else s.setOwn { s.own with recalibrate := true })

def resetFloppy (s : Driver) : Driver :=
  s.setOwn { s.own with reset := false, recalibrate := true, doFloppy := some .resetInterrupt }

def recalibrateFloppy (s : Driver) : Driver :=
  s.setOwn { s.own with recalibrate := false, currentTrack := 0, doFloppy := some .recalInterrupt }

/-- `do_fd_request` behind its loop, where `floppy` is the entry of `floppy_type`. -/
def startRequest (floppy : FloppyStruct) (s : Driver) (current : Entry) : Drive Fd Driver :=
  if floppy.sect = 0 ∨ floppy.head = 0 then .error (.divideError, s)
  else
    let block := current.sector
    let track := (block / floppy.sect / floppy.head).setWidth 8
    let seekTrack := track <<< floppy.stretch
    if current.cmd = READ ∨ current.cmd = WRITE then
      .ok (s.setOwn { s.own with
        sector := (block % floppy.sect).setWidth 8 + 1
        head := (block / floppy.sect % floppy.head).setWidth 8
        track := track
        seekTrack := seekTrack
        seek := s.own.seek || decide (seekTrack ≠ s.own.currentTrack)
        command := current.cmd
        motor := true })
    else .error (.unknownCommand, s)

def selectDrive (s : Driver) (current : Entry) : Driver :=
  let drive := BitVec.ofNat 8 (current.dev.toNat % 4)
  s.setOwn { s.own with
    floppy := current.minor / 4
    seek := s.own.seek || decide (s.own.currentDrive ≠ drive)
    currentDrive := drive }

def accepts (floppyType : Nat → FloppyStruct) (current : Entry) : Bool :=
  decide (current.sector + 2 ≤ (floppyType (current.minor / 4)).size)

def requestLoop (floppyType : Nat → FloppyStruct) : List Entry → Driver → Drive Fd Driver
  | [], s => .ok (s.setOwn { s.own with doFloppy := none })
  | current :: rest, s => do
    let s ← s.initRequest 2 current
    let s := selectDrive s current
    if accepts floppyType current then startRequest (floppyType s.own.floppy) s current
    else
      let s ← s.endRequest false
      requestLoop floppyType rest s

def doFdRequest (floppyType : Nat → FloppyStruct) (s : Driver) : Drive Fd Driver :=
  let s := s.setOwn { s.own with seek := false }
  if s.own.reset then .ok (resetFloppy s)
  else if s.own.recalibrate then .ok (recalibrateFloppy s)
  else requestLoop floppyType s.queue s

def writeProtected (s : Driver) : Drive Fd Driver :=
  (floppyDeselect (s.printk .writeProtected)).endRequest false

/-- How a transfer ended: the result bytes are in order, or bit 1 of ST1 is set, or
something else is wrong. -/
inductive Result where
  | good
  | writeProtected
  | bad

def rwInterrupt (floppyType : Nat → FloppyStruct) (s : Driver) (result : Result) : Drive Fd Driver := do
  let s ← match result with
    | .good => (floppyDeselect s).endRequest true
    | .writeProtected => writeProtected s
    | .bad => badFlpIntr s
  doFdRequest floppyType s

end Linux012.BlkDrv.Floppy

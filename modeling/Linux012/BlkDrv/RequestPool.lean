import Linux012.BlkDrv.Request
import Linux012.Lib.Links
import Linux012.Lib.Transition
import Mathlib.Algebra.Group.Int.Defs
import Mathlib.Algebra.Group.Nat.Defs

/-! The pool `request[]` and the queues in `blk_dev[]`, from
`kernel/blk_drv/ll_rw_blk.c` and `kernel/blk_drv/blk.h`. The queues are linked
through the entries. Other processes and interrupts may come in wherever a call
sleeps, and between two entries that a call looks at. -/

set_option autoImplicit false

namespace Linux012.BlkDrv.RequestPool

open Links Function

def majorOf (dev : Int) : Nat := major (dev % 2 ^ 32).toNat

inductive Message where
  | nonexistentDevice
  | badCommand
  | listDestroyed
  | blockNotLocked
  | bufferNotLocked
  | freeBufferUnlocked
  | ioError
deriving DecidableEq

/-- What the calls find: the drivers with a `request_fn`, and the block behind each
buffer head. -/
structure Devices where
  requestFn : Nat → Bool
  bDev : Nat → Nat
  bBlocknr : Nat → Nat

structure BlockCall where
  major : Nat
  rw : Nat
  rwAhead : Bool
  bh : Nat
deriving DecidableEq

inductive Call where
  | block (call : BlockCall)
  | page (rw : Nat) (dev : Int) (page : Nat)
deriving DecidableEq

inductive Phase where
  | idle
  /-- in `lock_buffer` -/
  | locking (call : BlockCall)
  /-- with the buffer locked, before the tests of `b_dirt` and `b_uptodate` -/
  | testing (call : BlockCall)
  /-- in the search for a free entry, with the entries below `req` to go -/
  | searching (call : Call) (req : Nat)
  /-- in the `schedule` call of `ll_rw_page` -/
  | transferring
deriving DecidableEq

structure State where
  request : Nat → Request
  next : Nat → Option Nat
  currentRequest : Nat → Option Nat
  bLock : Nat → Bool
  bDirt : Nat → Bool
  bUptodate : Nat → Bool
  phase : Nat → Phase
  printed : List Message
  halted : Bool

inductive Move where
  | llRwBlock (p rw bh : Nat)
  | llRwPage (p rw : Nat) (dev : Int) (page : Nat)
  /-- the process goes on; one that sleeps may run again at any time -/
  | resume (p : Nat)
  /-- the driver calls its `request_fn`, as after a timeout -/
  | requestFn (m : Nat)
  /-- the driver has moved one sector of its request -/
  | sector (m : Nat)
  | complete (m : Nat)
  | touch (bh : Nat) (dirt uptodate : Bool)

namespace State

def print (s : State) (text : Message) : State := { s with printed := text :: s.printed }

def panic (s : State) (text : Message) : State := { s.print text with halted := true }

def setPhase (s : State) (p : Nat) (phase : Phase) : State :=
  { s with phase := update s.phase p phase }

theorem setPhase_self (s : State) (p : Nat) (phase : Phase) : (s.setPhase p phase).phase p = phase :=
  update_self ..

theorem setPhase_of_ne (s : State) {p q : Nat} (phase : Phase) (differ : q ≠ p) :
    (s.setPhase p phase).phase q = s.phase q :=
  update_of_ne differ ..

def setLock (s : State) (bh : Nat) (lock : Bool) : State :=
  { s with bLock := update s.bLock bh lock }

theorem setLock_self (s : State) (bh : Nat) (lock : Bool) : (s.setLock bh lock).bLock bh = lock :=
  update_self ..

theorem setLock_of_ne (s : State) {bh other : Nat} (lock : Bool) (differ : other ≠ bh) :
    (s.setLock bh lock).bLock other = s.bLock other :=
  update_of_ne differ ..

/-- `unlock_buffer`, of which the drivers have a version with another warning -/
def unlockBuffer (s : State) (bh : Nat) (warning : Message) : State :=
  (if s.bLock bh then s else s.print warning).setLock bh false

/-- `INIT_REQUEST` of the driver for the devices with major number `m` -/
def initRequest (s : State) (m : Nat) : State :=
  match s.currentRequest m with
  | none => s
  | some req =>
    if majorOf (s.request req).dev ≠ m then s.panic .listDestroyed
    else match (s.request req).bh with
      | none => s
      | some bh => if s.bLock bh then s else s.panic .blockNotLocked

/-- The `for` loop of `add_request` from `tmp` on; its `fuel` is the number of
entries there are. -/
def insertionPoint (view : Nat → Request) (next : Nat → Option Nat) (req : Request) :
    Nat → Nat → Nat
  | 0, tmp => tmp
  | fuel + 1, tmp =>
    match next tmp with
    | none => tmp
    | some after =>
      if insertsBefore req (view tmp) (view after) then tmp
      else insertionPoint view next req fuel after

/-- `add_request`, up to the call of `request_fn` -/
def linkRequest (s : State) (m req : Nat) : State :=
  let next := update s.next req none
  let dirt := match (s.request req).bh with
    | none => s.bDirt
    | some bh => update s.bDirt bh false
  match s.currentRequest m with
  | none => { s with
      next := next
      bDirt := dirt
      currentRequest := update s.currentRequest m (some req) }
  | some tmp =>
    let tmp := insertionPoint s.request next (s.request req) NR_REQUEST tmp
    { s with
      next := insertAfter next tmp req
      bDirt := dirt }

def addRequest (s : State) (m req : Nat) : State :=
  match s.currentRequest m with
  | none => (s.linkRequest m req).initRequest m
  | some _ => s.linkRequest m req

/-- `wake_up(&CURRENT->waiting)` -/
def wakeUp (s : State) (waiting : Option Nat) : State :=
  match waiting with
  | none => s
  | some p => if s.phase p = .transferring then s.setPhase p .idle else s

def endRequest (s : State) (m : Nat) (uptodate : Bool) : Option State :=
  match s.currentRequest m with
  | none => none
  | some req =>
    let entry := s.request req
    let unlocked := match entry.bh with
      | none => s
      | some bh =>
        { s with bUptodate := update s.bUptodate bh uptodate }.unlockBuffer bh
          .freeBufferUnlocked
    let woken := (if uptodate then unlocked else unlocked.print .ioError).wakeUp entry.waiting
    some { woken with
      request := update woken.request req { entry with dev := -1 }
      currentRequest := update woken.currentRequest m (woken.next req) }

end State

namespace Call

def limit : Call → Nat
  | .block call => if call.rw = READ then NR_REQUEST else NR_REQUEST * 2 / 3
  | .page _ _ _ => NR_REQUEST

def rwAhead : Call → Bool
  | .block call => call.rwAhead
  | .page _ _ _ => false

def line : Call → Nat
  | .block call => call.major
  | .page _ dev _ => majorOf dev

def request (devices : Devices) (p : Nat) : Call → Request
  | .block call => {
      dev := devices.bDev call.bh
      cmd := call.rw
      errors := 0
      sector := (devices.bBlocknr call.bh <<< 1) % 2 ^ 32
      nrSectors := 2
      waiting := none
      bh := some call.bh }
  | .page rw dev slot => {
      dev := dev
      cmd := rw
      errors := 0
      sector := (slot <<< 3) % 2 ^ 32
      nrSectors := 8
      waiting := some p
      bh := none }

def after : Call → Phase
  | .block _ => .idle
  | .page _ _ _ => .transferring

end Call

namespace State

variable (devices : Devices)

/-- `make_request` up to the call of `lock_buffer` -/
def makeRequest (s : State) (p m rw bh : Nat) : State :=
  let rwAhead := rw = READA ∨ rw = WRITEA
  if rwAhead ∧ s.bLock bh = true then s
  else
    let rw := if rwAhead then (if rw = READA then READ else WRITE) else rw
    if rw ≠ READ ∧ rw ≠ WRITE then s.panic .badCommand
    else s.setPhase p (.locking { major := m, rw := rw, rwAhead := decide rwAhead, bh := bh })

def llRwBlock (s : State) (p rw bh : Nat) : State :=
  let m := majorOf (devices.bDev bh)
  if m ≥ NR_BLK_DEV ∨ devices.requestFn m = false then s.print .nonexistentDevice
  else s.makeRequest p m rw bh

/-- `ll_rw_page` up to the search -/
def llRwPage (s : State) (p rw : Nat) (dev : Int) (page : Nat) : State :=
  let m := majorOf dev
  if m ≥ NR_BLK_DEV ∨ devices.requestFn m = false then s.print .nonexistentDevice
  else if rw ≠ READ ∧ rw ≠ WRITE then s.panic .badCommand
  else s.setPhase p (.searching (.page rw dev page) NR_REQUEST)

def fillRequest (s : State) (p : Nat) (call : Call) (req : Nat) : State :=
  let filled := { s with request := update s.request req (call.request devices p) }
  (filled.setPhase p call.after).addRequest call.line req

/-- No entry is free: a read-ahead or write-ahead gives up, the others sleep on
`wait_for_request` and start again. -/
def noneFree (s : State) (p : Nat) (call : Call) : State :=
  match call with
  | .block block =>
    if block.rwAhead then (s.unlockBuffer block.bh .bufferNotLocked).setPhase p .idle
    else s.setPhase p (.searching call call.limit)
  | .page _ _ _ => s.setPhase p (.searching call call.limit)

def resume (s : State) (p : Nat) : Option State :=
  match s.phase p with
  | .idle => none
  | .locking call =>
    if s.bLock call.bh then some s
    else some ((s.setLock call.bh true).setPhase p (.testing call))
  | .testing call =>
    if call.rw = WRITE ∧ s.bDirt call.bh = false ∨ call.rw = READ ∧ s.bUptodate call.bh = true then
      some ((s.unlockBuffer call.bh .bufferNotLocked).setPhase p .idle)
    else some (s.setPhase p (.searching (.block call) (Call.block call).limit))
  | .searching call 0 => some (s.noneFree p call)
  | .searching call (req + 1) =>
    if (s.request req).dev < 0 then some (s.fillRequest devices p call req)
    else some (s.setPhase p (.searching call req))
  | .transferring => none

def moveSector (s : State) (m : Nat) : Option State :=
  match s.currentRequest m with
  | none => none
  | some req =>
    let entry := s.request req
    some { s with request := update s.request req { entry with
      errors := 0, sector := entry.sector + 1, nrSectors := entry.nrSectors - 1 } }

def touch (s : State) (bh : Nat) (dirt uptodate : Bool) : State :=
  { s with
    bDirt := update s.bDirt bh dirt
    bUptodate := update s.bUptodate bh uptodate }

def step (s : State) (move : Move) : Option State :=
  if s.halted then none
  else match move with
    | .llRwBlock p rw bh =>
      if s.phase p = .idle then some (s.llRwBlock devices p rw bh) else none
    | .llRwPage p rw dev page =>
      if s.phase p = .idle ∧ -2 ^ 31 ≤ dev ∧ dev < 2 ^ 31 then
        some (s.llRwPage devices p rw dev page)
      else none
    | .resume p => s.resume devices p
    | .requestFn m => some (s.initRequest m)
    | .sector m => s.moveSector m
    | .complete m => (s.endRequest m true).map fun ended => ended.initRequest m
    | .touch bh dirt uptodate => some (s.touch bh dirt uptodate)

/-- The state after `blk_dev_init` and `buffer_init`. -/
def boot (dirt uptodate : Nat → Bool) : State where
  request := fun _ => Request.empty
  next := fun _ => none
  currentRequest := fun _ => none
  bLock := fun _ => false
  bDirt := dirt
  bUptodate := uptodate
  phase := fun _ => .idle
  printed := []
  halted := false

def Busy (s : State) (req : Nat) : Prop := req < NR_REQUEST ∧ 0 ≤ (s.request req).dev

instance (s : State) (req : Nat) : Decidable (s.Busy req) := instDecidableAnd

/-- The pool and the queues agree, where `queue m` is read from the head for major
number `m`. -/
structure Agrees (s : State) (queue : Nat → List Nat) : Prop where
  reads : ∀ m < NR_BLK_DEV, Follows s.next (s.currentRequest m) (queue m)
  busy : ∀ req, s.Busy req ↔ ∃ m < NR_BLK_DEV, req ∈ queue m
  once : ∀ m < NR_BLK_DEV, (queue m).Nodup
  oneHead : ∀ m < NR_BLK_DEV, ∀ m' < NR_BLK_DEV, ∀ req ∈ queue m, req ∈ queue m' → m = m'
  locked : ∀ req bh, s.Busy req → (s.request req).bh = some bh → s.bLock bh = true
  oneName : ∀ req req' bh, s.Busy req → s.Busy req' → (s.request req).bh = some bh →
    (s.request req').bh = some bh → req = req'
  writes : ∀ req, s.Busy req → (s.request req).bh.isSome → (s.request req).cmd = WRITE → req < 21

def Calm (s : State) : Prop :=
  ∀ text ∈ s.printed, text = .nonexistentDevice ∨ text = .badCommand

end State

end Linux012.BlkDrv.RequestPool

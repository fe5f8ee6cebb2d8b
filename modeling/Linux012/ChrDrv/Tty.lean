import Linux012.ChrDrv.Console
import Linux012.Lib.RingBuffer

/-! Terminals, as `kernel/chr_drv/tty_io.c`, `tty_ioctl.c`, `pty.c`, `serial.c` and
`con_write` move bytes between their three queues. -/

set_option autoImplicit false

namespace Linux012.ChrDrv

open Transition

def NR_SERIALS : Nat := 2
def NR_PTYS : Nat := 4
def TTY_BUF_SIZE : Nat := 1024

theorem TTY_BUF_SIZE_ne_zero : TTY_BUF_SIZE ≠ 0 := by decide

instance ttyBufSizeNeZero : NeZero TTY_BUF_SIZE := ⟨TTY_BUF_SIZE_ne_zero⟩

abbrev Queue := RingBuffer.Watched UInt8 TTY_BUF_SIZE

/-- The indices of `c_cc` that are characters. -/
inductive Control where
  | intr
  | quit
  | erase
  | kill
  | eof
  | start
  | stop
  | susp
deriving DecidableEq

def INIT_C_CC : Control → UInt8
  | .intr => 0o003
  | .quit => 0o034
  | .erase => 0o177
  | .kill => 0o025
  | .eof => 0o004
  | .start => 0o021
  | .stop => 0o023
  | .susp => 0o032

/-- The flags of `c_iflag`, `c_oflag` and `c_lflag` that are looked at. -/
structure Termios where
  iuclc : Bool
  inlcr : Bool
  icrnl : Bool
  igncr : Bool
  ixon : Bool
  opost : Bool
  olcuc : Bool
  onlcr : Bool
  ocrnl : Bool
  onlret : Bool
  isig : Bool
  icanon : Bool
  echo : Bool
  echoctl : Bool
  cc : Control → UInt8

def DEF_TERMIOS : Termios where
  iuclc := false
  inlcr := false
  icrnl := true
  igncr := false
  ixon := true
  opost := true
  olcuc := false
  onlcr := true
  ocrnl := false
  onlret := false
  isig := true
  icanon := true
  echo := true
  echoctl := true
  cc := INIT_C_CC

/-- What does not change. `lower` and `upper` are `tolower` and `toupper`, which read
in front of `_ctype` for a `char` from 128 on. -/
structure Setup where
  display : Display
  nrConsoles : Nat
  lower : UInt8 → UInt8
  upper : UInt8 → UInt8

namespace Termios

variable (termios : Termios)

/-- `c==INTR_CHAR(tty)` and the like, with the test against `_POSIX_VDISABLE`. The
`char` is signed, the entry of `c_cc` is not. -/
def is (k : Control) (c : UInt8) : Bool := termios.cc k ≠ 0 && (c < 128 && c = termios.cc k)

def ends (c : UInt8) : Bool := c = 10 || termios.is .eof c

def mapped (c : UInt8) : Option UInt8 :=
  if c = 13 then if termios.icrnl then some 10 else if termios.igncr then none else some 13
  else if c = 10 ∧ termios.inlcr then some 13
  else some c

def control (c : UInt8) : Bool := c < 32 || 128 ≤ c

def echoed (c : UInt8) : List UInt8 :=
  if c = 10 then [10, 13]
  else if control c then if termios.echoctl then [char '^', c + 64] else []
  else [c]

def rubout (c : UInt8) : List UInt8 := if control c then [127, 127] else [127]

end Termios

/-- What `copy_to_cooked` does with a byte. -/
inductive Action where
  | ignore
  | kill
  | erase
  | stop
  | start
  | signal
  | store (c : UInt8)

def Termios.action (setup : Setup) (termios : Termios) (c : UInt8) : Action :=
  match termios.mapped c with
  | none => .ignore
  | some c =>
    let c := if termios.iuclc then setup.lower c else c
    if termios.icanon ∧ termios.is .kill c then .kill
    else if termios.icanon ∧ termios.is .erase c then .erase
    else if termios.ixon ∧ termios.is .stop c then .stop
    else if termios.ixon ∧ termios.is .start c then .start
    else if termios.isig ∧ (termios.is .intr c ∨ termios.is .quit c ∨ termios.is .susp c) then .signal
    else .store c

/-- A `tty_struct` with its queues; `data` is that of `secondary`, and `console` is
used where the driver is that of a console. -/
structure Tty where
  termios : Termios
  stopped : Bool
  readQ : Queue
  writeQ : Queue
  secondary : Queue
  data : UInt32
  console : Console

inductive Frame where
  /-- the loop of `copy_to_cooked` -/
  | cooked
  | killing
  /-- a character of the line was echoed as killed, or as erased -/
  | killed
  | erased
  | storing (c : UInt8)
  /-- `tty->write(tty)` -/
  | write
  /-- the loop of `con_write` -/
  | conWrite (nr : Nat)
  /-- the loop of `pty_copy` -/
  | ptyCopy

namespace Tty

variable (setup : Setup) (tty : Tty)

def erasable : Bool := !tty.secondary.ring.empty && !tty.termios.ends tty.secondary.ring.last

def rubOut : Tty × List Frame :=
  if tty.termios.echo then
    ({ tty with writeQ := tty.writeQ.putAll (Termios.rubout tty.secondary.ring.last) }, [.write])
  else (tty, [])

/-- A character that goes to `secondary` is counted and echoed first. -/
def accept (c : UInt8) : Tty × List Frame :=
  let tty := if tty.termios.ends c then { tty with data := tty.data + 1 } else tty
  if tty.termios.echo then ({ tty with writeQ := tty.writeQ.putAll (tty.termios.echoed c) }, [.write])
  else (tty, [])

/-- One round of `copy_to_cooked`. -/
def cooked : Tty × List Frame :=
  if tty.readQ.ring.empty || tty.secondary.ring.full then (tty, [])
  else
    let c := tty.readQ.ring.buf tty.readQ.ring.tail
    let tty := { tty with readQ := tty.readQ.get }
    match tty.termios.action setup c with
    | .ignore | .signal => (tty, [.cooked])
    | .kill => (tty, [.killing, .cooked])
    | .erase =>
      if tty.erasable then (tty.rubOut.1, tty.rubOut.2 ++ [.erased, .cooked]) else (tty, [.cooked])
    | .stop => ({ tty with stopped := true }, [.write, .cooked])
    | .start => ({ tty with stopped := false }, [.write, .cooked])
    | .store c => ((tty.accept c).1, (tty.accept c).2 ++ [.storing c, .cooked])

def killing : Tty × List Frame :=
  if tty.erasable then (tty.rubOut.1, tty.rubOut.2 ++ [.killed]) else (tty, [])

/-- One round of `con_write`. After an escape character, `Z` makes `respond` store its
answer and call `copy_to_cooked`, and `c` sets the flags back. -/
def conWrite (nr : Nat) : Tty × List Frame :=
  if nr = 0 ∨ tty.stopped then
    ({ tty with console := { tty.console with blankcount := tty.console.blankinterval } }, [])
  else
    let c := tty.writeQ.ring.buf tty.writeQ.ring.tail
    let tty' :=
      { tty with
        writeQ := tty.writeQ.get
        termios := if tty.console.state = .esc ∧ c = char 'c' then DEF_TERMIOS else tty.termios
        console := { tty.console with eraseChar := tty.termios.cc .erase }.conByte setup.display c }
    if tty.console.state = .esc ∧ c = char 'Z' then
      ({ tty' with readQ := tty'.readQ.putAll RESPONSE }, [.cooked, .conWrite (nr - 1)])
    else (tty', [.conWrite (nr - 1)])

def step : Frame → Option (Tty × List Frame)
  | .cooked => some (tty.cooked setup)
  | .killing => some tty.killing
  | .killed => some ({ tty with secondary := tty.secondary.back }, [.killing])
  | .erased => some ({ tty with secondary := tty.secondary.back }, [])
  | .storing c => some ({ tty with secondary := tty.secondary.put c }, [])
  | .conWrite nr => some (tty.conWrite setup nr)
  | .write => none
  | .ptyCopy => none

def post (c : UInt8) : UInt8 := if tty.termios.opost && tty.termios.olcuc then setup.upper c else c

def sent (b : UInt8) : UInt8 :=
  if tty.termios.opost then
    if b = 13 ∧ tty.termios.ocrnl then 10
    else if b = 10 ∧ tty.termios.onlret then 13
    else b
  else b

/-- The inner loop of `tty_write`, with the static `cr_flag`. -/
def fill : List UInt8 → Bool → Tty → Bool × Tty
  | [], crFlag, tty => (crFlag, tty)
  | b :: rest, crFlag, tty =>
    if tty.writeQ.ring.full then (crFlag, tty)
    else
      let c := tty.sent b
      if tty.termios.opost ∧ c = 10 ∧ ¬crFlag ∧ tty.termios.onlcr then
        let tty := { tty with writeQ := tty.writeQ.put 13 }
        -- the same byte again, with `cr_flag` set
        if tty.writeQ.ring.full then (true, tty)
        else fill rest false { tty with writeQ := tty.writeQ.put (tty.post setup c) }
      else fill rest false { tty with writeQ := tty.writeQ.put (tty.post setup c) }

/-- `GETCH` in `tty_read`, and the count of lines. -/
def getch : UInt8 × Tty :=
  let c := tty.secondary.ring.buf tty.secondary.ring.tail
  (c, { tty with
    secondary := tty.secondary.get
    data := if tty.termios.ends c then tty.data - 1 else tty.data })

end Tty

/-- The `write` function of a terminal; `other` is the other side of a pseudo terminal. -/
inductive Driver where
  | console
  | serial
  | pty (other : UInt8)

/-- The entries of `tty_table` that `tty_init` gives queues. -/
def Setup.driver (setup : Setup) (t : UInt8) : Option Driver :=
  if t.toNat < setup.nrConsoles then some .console
  else if 64 ≤ t.toNat ∧ t.toNat < 64 + NR_SERIALS then some .serial
  else if 128 ≤ t.toNat ∧ t.toNat < 128 + NR_PTYS then some (.pty (t + 64))
  else if 192 ≤ t.toNat ∧ t.toNat < 192 + NR_PTYS then some (.pty (t - 64))
  else none

/-- `tty_table`, `cr_flag` of `tty_write`, and the calls under way, last called first. -/
structure State where
  ttys : UInt8 → Tty
  crFlag : Bool
  stack : List (UInt8 × Frame)

inductive Flow where
  | tcooff
  | tcoon
  | tcioff
  | tcion

inductive Move where
  /-- a step of the calls under way; `pty_copy` looks for signals -/
  | run (signal : Bool)
  /-- `put_queue` or the serial `read_char`, and `do_tty_interrupt` -/
  | input (t : UInt8) (cs : List UInt8)
  /-- a round of the loop of `tty_write` -/
  | ttyWrite (t : UInt8) (cs : List UInt8)
  /-- `tty_read` takes a byte -/
  | ttyRead (t : UInt8)
  /-- `tty_read` calls `other_tty->write` -/
  | poke (t : UInt8)
  | tcxonc (t : UInt8) (arg : Flow)
  | tcflsh (t : UInt8) (readQ writeQ : Bool)
  /-- `TCSETS`, `TCSETA` and their variants -/
  | tcsets (t : UInt8) (termios : Termios) (flush : Bool)
  /-- the serial `write_char` -/
  | transmit (t : UInt8)

namespace State

variable (setup : Setup) (s : State)

def set (t : UInt8) (tty : Tty) : State := { s with ttys := Function.update s.ttys t tty }

/-- One round of `pty_copy` from a terminal to the other side. -/
def ptyCopy (signal : Bool) (t other : UInt8) (rest : List (UInt8 × Frame)) : State :=
  let from_ := s.ttys t
  if from_.stopped || from_.writeQ.ring.empty then { s with stack := (other, .cooked) :: rest }
  else if (s.ttys other).readQ.ring.full then
    if (s.ttys other).secondary.ring.full then { s with stack := (other, .cooked) :: rest }
    else { s with stack := (other, .cooked) :: (t, .ptyCopy) :: rest }
  else
    let c := from_.writeQ.ring.buf from_.writeQ.ring.tail
    let s := s.set t { from_ with writeQ := from_.writeQ.get }
    let s := s.set other { s.ttys other with readQ := (s.ttys other).readQ.put c }
    if signal then { s with stack := (other, .cooked) :: rest }
    else { s with stack := (t, .ptyCopy) :: rest }

def runFrame (signal : Bool) (t : UInt8) (frame : Frame) (rest : List (UInt8 × Frame)) : State :=
  match (s.ttys t).step setup frame with
  | some (tty, frames) => { s.set t tty with stack := frames.map (fun f => (t, f)) ++ rest }
  | none =>
    match frame, setup.driver t with
    | .write, some .console => { s with stack := (t, .conWrite (s.ttys t).writeQ.ring.chars) :: rest }
    | .write, some (.pty _) => { s with stack := (t, .ptyCopy) :: rest }
    | .ptyCopy, some (.pty other) => s.ptyCopy signal t other rest
    -- `rs_write` only enables the interrupt
    | _, _ => { s with stack := rest }

def call (t : UInt8) (tty : Tty) (frame : Frame) : Option State :=
  if s.stack = [] then some { s.set t tty with stack := [(t, frame)] } else none

def change (t : UInt8) (tty : Tty) : Option State := if s.stack = [] then some (s.set t tty) else none

def tcxonc (t : UInt8) : Flow → Option State
  | .tcooff => s.call t { s.ttys t with stopped := true } .write
  | .tcoon => s.call t { s.ttys t with stopped := false } .write
  | .tcioff =>
    let c := (s.ttys t).termios.cc .stop
    s.change t (if c ≠ 0 then { s.ttys t with writeQ := (s.ttys t).writeQ.put c } else s.ttys t)
  | .tcion =>
    let c := (s.ttys t).termios.cc .start
    s.change t (if c ≠ 0 then { s.ttys t with writeQ := (s.ttys t).writeQ.put c } else s.ttys t)

def step : Move → Option State
  | .run signal =>
    match s.stack with
    | [] => none
    | (t, frame) :: rest => some (s.runFrame setup signal t frame rest)
  | .input t cs =>
    match setup.driver t with
    | some .console => s.call t { s.ttys t with readQ := (s.ttys t).readQ.offer cs } .cooked
    | some .serial =>
      if cs.length = 1 then s.call t { s.ttys t with readQ := (s.ttys t).readQ.offer cs } .cooked else none
    | _ => none
  | .ttyWrite t cs =>
    if cs = [] then none
    else
      let filled := Tty.fill setup cs s.crFlag (s.ttys t)
      { s with crFlag := filled.1 }.call t filled.2 .write
  | .ttyRead t => if (s.ttys t).secondary.ring.empty then none else s.change t (s.ttys t).getch.2
  | .poke t =>
    match setup.driver t with
    | some (.pty other) => s.call other (s.ttys other) .write
    | _ => none
  | .tcxonc t arg => s.tcxonc t arg
  | .tcflsh t readQ writeQ =>
    s.change t
      { s.ttys t with
        readQ := if readQ then (s.ttys t).readQ.flush else (s.ttys t).readQ
        writeQ := if writeQ then (s.ttys t).writeQ.flush else (s.ttys t).writeQ }
  | .tcsets t termios flush =>
    s.change t
      { s.ttys t with
        termios := termios
        readQ := if flush then (s.ttys t).readQ.flush else (s.ttys t).readQ }
  | .transmit t =>
    match setup.driver t with
    | some .serial =>
      if (s.ttys t).writeQ.ring.empty then none
      else s.change t { s.ttys t with writeQ := (s.ttys t).writeQ.get }
    | _ => none

end State

/-! ## `tty_init` -/

def rawTermios : Termios where
  iuclc := false
  inlcr := false
  icrnl := false
  igncr := false
  ixon := false
  opost := false
  olcuc := false
  onlcr := false
  ocrnl := false
  onlret := false
  isig := false
  icanon := false
  echo := false
  echoctl := false
  cc := INIT_C_CC

def emptyQueue : Queue where
  ring := { buf := fun _ => 0, head := 0, tail := 0 }
  overruns := 0

namespace Boot

variable (boot : Boot) (lower upper : UInt8 → UInt8)

def setup : Setup where
  display := boot.display
  nrConsoles := boot.nrConsoles
  lower := lower
  upper := upper

def termios (t : UInt8) : Termios :=
  if t.toNat < boot.nrConsoles then DEF_TERMIOS
  else if 192 ≤ t.toNat then { rawTermios with ixon := true, isig := true, icanon := true }
  else rawTermios

def ttyInit (ram : ByteMemory.Memory) : State where
  ttys t :=
    { termios := boot.termios t
      stopped := false
      readQ := emptyQueue
      writeQ := emptyQueue
      secondary := emptyQueue
      data := 0
      console := (boot.conInit ram t.toNat).getD (boot.console ram t.toNat) }
  crFlag := false
  stack := []

end Boot

end Linux012.ChrDrv

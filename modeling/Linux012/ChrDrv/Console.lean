import Linux012.Lib.BlockStores
import Linux012.Lib.Transition
import Mathlib.Logic.Function.Iterate

/-! The console driver `kernel/chr_drv/console.c`: `con_init`, and `con_write` byte by
byte. The consoles share nothing but what `con_init` has found out about the display,
so the state is that of one console. The ports and the bell are left out. -/

set_option autoImplicit false

namespace Linux012.ChrDrv

open BlockStores Transition

def MAX_CONSOLES : Nat := 8
def NPAR : Nat := 16
def HZ : Nat := 100

def char (c : Char) : UInt8 := UInt8.ofNat c.toNat

def add32 (a b : Nat) : Nat := (a + b) % 2 ^ 32
def sub32 (a b : Nat) : Nat := (a + (2 ^ 32 - b % 2 ^ 32)) % 2 ^ 32

inductive VideoType where
  | mda
  | cga
  | egam
  | egac
deriving DecidableEq

structure Display where
  type : VideoType
  numColumns : Nat
  numLines : Nat
  memBase : Nat
  memTerm : Nat
  canDoColour : Bool

def Display.sizeRow (v : Display) : Nat := v.numColumns * 2

def Display.isEga (v : Display) : Bool := v.type = .egac || v.type = .egam

inductive EscState where
  | normal
  | esc
  | square
  | getpars
  | gotpars
  | funckey
  | setterm
  | setgraph
  /-- the state -1, after `ESC #` -/
  | other
deriving DecidableEq

def NORM_TRANS : List UInt8 := (List.range' 32 95).map UInt8.ofNat ++ [32]

def GRAF_TRANS : List UInt8 :=
  (List.range' 32 63).map UInt8.ofNat ++ [32,
    0o004, 0o261, 7, 7, 7, 7, 0o370, 0o361, 7, 7, 0o275, 0o267, 0o326, 0o323, 0o327, 0o304,
    0o304, 0o304, 0o304, 0o304, 0o307, 0o266, 0o320, 0o322, 0o272, 0o363, 0o362, 0o343, 92, 48, 48, 55, 0o234, 7, 32]

def RESPONSE : List UInt8 := [27, 91, 63, 49, 59, 50, 99]

/-- An entry of `vc_cons` with the video memory, the erase character of the terminal,
the blank interval and what `respond` has put into `read_q`. -/
structure Console where
  videoEraseChar : UInt16
  attr : UInt8
  defAttr : UInt8
  /-- an `int`; all ones mean that it is not set -/
  boldAttr : Nat
  ques : Bool
  state : EscState
  origin : Nat
  scrEnd : Nat
  pos : Nat
  x : Nat
  y : Nat
  top : Nat
  bottom : Nat
  npar : Nat
  par : Nat → Nat
  videoMemStart : Nat
  videoMemEnd : Nat
  savedX : Nat
  savedY : Nat
  iscolor : Bool
  translate : List UInt8
  ram : Ram
  eraseChar : UInt8
  blankinterval : Nat
  blankcount : Nat
  response : List UInt8

namespace Console

section Operations

variable (v : Display) (s : Console)

def gotoxy (newX newY : Nat) : Console :=
  if v.numColumns < newX ∨ v.numLines ≤ newY then s
  else { s with x := newX, y := newY, pos := add32 s.origin (newY * v.sizeRow + newX * 2) }

/-- The lines from `top` on move up. -/
def shiftUp : Console :=
  let count := (s.bottom - s.top - 1) * v.numColumns / 2
  let target := s.origin + v.sizeRow * s.top
  let moved := Ram.movsl count (s.origin + v.sizeRow * (s.top + 1)) target s.ram
  { s with ram := moved.stosw s.videoEraseChar v.numColumns (target + 4 * count) }

def scrup : Console :=
  if s.bottom ≤ s.top then s
  else if v.isEga ∧ s.top = 0 ∧ s.bottom = v.numLines then
    let origin := s.origin + v.sizeRow
    let pos := add32 s.pos v.sizeRow
    let scrEnd := s.scrEnd + v.sizeRow
    if s.videoMemEnd < scrEnd then
      let count := (v.numLines - 1) * v.numColumns / 2
      let moved := Ram.movsl count origin s.videoMemStart s.ram
      { s with
        ram := moved.stosw s.videoEraseChar v.numColumns (s.videoMemStart + 4 * count)
        scrEnd := scrEnd - (origin - s.videoMemStart)
        pos := sub32 pos (origin - s.videoMemStart)
        origin := s.videoMemStart }
    else
      { s with
        ram := s.ram.stosw s.videoEraseChar v.numColumns (scrEnd - v.sizeRow)
        origin := origin
        pos := pos
        scrEnd := scrEnd }
  else s.shiftUp v

/-- Both branches of the source are the same. The register is four bytes below the last
long after the move, and two are added to it. -/
def scrdown : Console :=
  if s.bottom ≤ s.top then s
  else
    let count := (s.bottom - s.top - 1) * v.numColumns / 2
    let target := s.origin + v.sizeRow * s.bottom - 4
    let moved := Ram.movslDown count (s.origin + v.sizeRow * (s.bottom - 1) - 4) target s.ram
    { s with ram := moved.stoswDown s.videoEraseChar v.numColumns (target + 2 - 4 * count) }

def lf : Console :=
  if add32 s.y 1 < s.bottom then { s with y := add32 s.y 1, pos := add32 s.pos v.sizeRow }
  else s.scrup v

def ri : Console :=
  if s.top < s.y then { s with y := s.y - 1, pos := sub32 s.pos v.sizeRow }
  else s.scrdown v

def cr : Console := { s with pos := sub32 s.pos (s.x * 2), x := 0 }

def back : Console := { s with pos := sub32 s.pos 2, x := s.x - 1 }

def del : Console :=
  if s.x = 0 then s
  else
    let s := s.back
    { s with ram := s.ram.putWord s.pos s.videoEraseChar }

def erase (start count : Nat) : Console :=
  { s with ram := s.ram.stosw s.videoEraseChar count start }

def csiJ (vpar : Nat) : Console :=
  match vpar with
  | 0 => s.erase s.pos (sub32 s.scrEnd s.pos / 2)
  | 1 => s.erase s.origin (sub32 s.pos s.origin / 2)
  | 2 => s.erase s.origin (v.numColumns * v.numLines)
  | _ => s

def csiK (vpar : Nat) : Console :=
  match vpar with
  | 0 => if v.numColumns ≤ s.x then s else s.erase s.pos (v.numColumns - s.x)
  | 1 => s.erase (sub32 s.pos (s.x * 2)) (if s.x < v.numColumns then s.x else v.numColumns)
  | 2 => s.erase (sub32 s.pos (s.x * 2)) v.numColumns
  | _ => s

def setAttr (n : Nat) : Console :=
  match n with
  | 0 => { s with attr := s.defAttr }
  | 1 => { s with attr := if s.iscolor then s.attr ||| 0x08 else s.attr ||| 0x0f }
  | 4 =>
    if s.iscolor = false then { s with attr := s.attr ||| 0x01 }
    else if s.boldAttr ≠ 2 ^ 32 - 1 then
      { s with attr := UInt8.ofNat (s.boldAttr % 16) ||| (0xf0 &&& s.attr) }
    else
      let newattr : UInt8 := (s.attr &&& 0xf0) ||| (0x0f &&& ~~~s.attr)
      { s with
        attr :=
          if newattr &&& (0x0f : UInt8) = (s.attr >>> 4) &&& (0x0f : UInt8) then
            (s.attr &&& (0xf0 : UInt8)) ||| (((s.attr &&& (0x0f : UInt8)) + 1) % 0x0f)
          else newattr }
  | 5 => { s with attr := s.attr ||| 0x80 }
  | 7 => { s with attr := (s.attr <<< 4) ||| (s.attr >>> 4) }
  | 22 => { s with attr := s.attr &&& 0xf7 }
  | 24 => { s with attr := s.attr &&& 0xfe }
  | 25 => { s with attr := s.attr &&& 0x7f }
  | 27 => { s with attr := s.defAttr }
  | 39 => { s with attr := (s.attr &&& 0xf0) ||| (s.defAttr &&& 0x0f) }
  | 49 => { s with attr := (s.attr &&& 0x0f) ||| (s.defAttr &&& 0xf0) }
  | _ =>
    if v.canDoColour = false then s
    else if 30 ≤ n ∧ n ≤ 38 then
      { s with iscolor := true, attr := (s.attr &&& 0xf0) ||| UInt8.ofNat (n - 30) }
    else if 40 ≤ n ∧ n ≤ 48 then
      { s with iscolor := true, attr := (s.attr &&& (0x0f : UInt8)) ||| (UInt8.ofNat (n - 40) <<< 4) }
    else { s with iscolor := true }

def csim : Console := (List.range (s.npar + 1)).foldl (fun s i => s.setAttr v (s.par i)) s

def pushRight (old : UInt16) : Nat → Nat → Ram → Ram
  | 0, _, ram => ram
  | count + 1, p, ram => pushRight (ram.getWord p) count (p + 2) (ram.putWord p old)

def insertChar : Console :=
  { s with ram := pushRight s.videoEraseChar (v.numColumns - s.x) s.pos s.ram }

def insertLine : Console :=
  { { s with top := s.y, bottom := v.numLines }.scrdown v with top := s.top, bottom := s.bottom }

def pullLeft : Nat → Nat → Ram → Ram
  | 0, _, ram => ram
  | count + 1, p, ram => pullLeft count (p + 2) (ram.putWord p (ram.getWord (p + 2)))

def deleteChar : Console :=
  if v.numColumns ≤ s.x then s
  else
    let count := v.numColumns - s.x - 1
    { s with ram := (pullLeft count s.pos s.ram).putWord (s.pos + 2 * count) s.videoEraseChar }

def deleteLine : Console :=
  { { s with top := s.y, bottom := v.numLines }.scrup v with top := s.top, bottom := s.bottom }

/-- The count of `csi_at` and its kin: one for none, and no more than `most`. -/
def repeats (nr most : Nat) : Nat := if most < nr then most else if nr = 0 then 1 else nr

def csiAt (nr : Nat) : Console := (fun s => s.insertChar v)^[repeats nr v.numColumns] s
def csiL (nr : Nat) : Console := (fun s => s.insertLine v)^[repeats nr v.numLines] s
def csiP (nr : Nat) : Console := (fun s => s.deleteChar v)^[repeats nr v.numColumns] s
def csiM (nr : Nat) : Console := (fun s => s.deleteLine v)^[repeats nr v.numLines] s

def saveCur : Console := { s with savedX := s.x, savedY := s.y }

def restoreCur : Console := s.gotoxy v s.savedX s.savedY

def respond : Console := { s with response := s.response ++ RESPONSE }

/-! ## `con_write` -/

def wrap : Console :=
  { s with x := s.x - v.numColumns, pos := sub32 s.pos v.sizeRow }.lf v

def put (c : UInt8) : Console :=
  let s := if v.numColumns ≤ s.x then s.wrap v else s
  let word := UInt16.ofNat ((s.translate.getD (c.toNat - 32) 0).toNat + 2 ^ 8 * s.attr.toNat)
  { s with ram := s.ram.putWord s.pos word, pos := add32 s.pos 2, x := add32 s.x 1 }

def tab : Console :=
  let c := 8 - s.x % 8
  let s := { s with x := add32 s.x c, pos := add32 s.pos (c * 2) }
  if v.numColumns < s.x then s.wrap v else s

/-- A `char` is signed, so one from 128 on is no character of any kind. -/
def esNormal (c : UInt8) : Console :=
  if 31 < c ∧ c < 127 then s.put v c
  else if c = 27 then { s with state := .esc }
  else if c = 10 ∨ c = 11 ∨ c = 12 then s.lf v
  else if c = 13 then s.cr
  else if c < 128 ∧ c = s.eraseChar then s.del
  else if c = 8 then (if s.x = 0 then s else s.back)
  else if c = 9 then s.tab v
  else if c = 14 then { s with translate := GRAF_TRANS }
  else if c = 15 then { s with translate := NORM_TRANS }
  else s

def esEsc (c : UInt8) : Console :=
  let s := { s with state := .normal }
  if c = char '[' then { s with state := .square }
  else if c = char 'E' then s.gotoxy v 0 (add32 s.y 1)
  else if c = char 'M' then s.ri v
  else if c = char 'D' then s.lf v
  else if c = char 'Z' then s.respond
  else if c = char '7' then s.saveCur
  else if c = char '8' then s.restoreCur v
  else if c = char '(' ∨ c = char ')' then { s with state := .setgraph }
  else if c = char 'P' then { s with state := .setterm }
  else if c = char '#' then { s with state := .other }
  else if c = char 'c' then { s with eraseChar := 127, top := 0, bottom := v.numLines }
  else s

def setPar (i n : Nat) : Console := { s with par := Function.update s.par i n }

def atLeastOne : Console := if s.par 0 = 0 then s.setPar 0 1 else s

def fromZero (i : Nat) : Console := s.setPar i (s.par i - 1)

/-- The `r` sequence. -/
def setRegion : Console :=
  let s := s.fromZero 0
  let s := if s.par 1 = 0 then s.setPar 1 v.numLines else s
  if s.par 0 < s.par 1 ∧ s.par 1 ≤ v.numLines then { s with top := s.par 0, bottom := s.par 1 } else s

/-- The `l` and `b` sequences, which a checksum of the first parameter guards. -/
def setGuarded (c : UInt8) : Console :=
  if ¬(2 ≤ s.npar ∧ sub32 (s.par 1) 13 = s.par 0 ∧ sub32 (s.par 2) 17 = s.par 0) then s
  else
    let s := if c = char 'l' ∧ s.par 0 ≤ 60 then
        { s with blankinterval := HZ * 60 * s.par 0, blankcount := HZ * 60 * s.par 0 }
      else s
    if c = char 'b' then { s with boldAttr := s.par 0 } else s

def esGotpars (c : UInt8) : Console :=
  let s := { s with state := .normal }
  if s.ques then { s with ques := false }
  else if c = char 'G' ∨ c = 96 then
    let s := s.fromZero 0
    s.gotoxy v (s.par 0) s.y
  else if c = char 'A' then
    let s := s.atLeastOne
    s.gotoxy v s.x (sub32 s.y (s.par 0))
  else if c = char 'B' ∨ c = char 'e' then
    let s := s.atLeastOne
    s.gotoxy v s.x (add32 s.y (s.par 0))
  else if c = char 'C' ∨ c = char 'a' then
    let s := s.atLeastOne
    s.gotoxy v (add32 s.x (s.par 0)) s.y
  else if c = char 'D' then
    let s := s.atLeastOne
    s.gotoxy v (sub32 s.x (s.par 0)) s.y
  else if c = char 'E' then
    let s := s.atLeastOne
    s.gotoxy v 0 (add32 s.y (s.par 0))
  else if c = char 'F' then
    let s := s.atLeastOne
    s.gotoxy v 0 (sub32 s.y (s.par 0))
  else if c = char 'd' then
    let s := s.fromZero 0
    s.gotoxy v s.x (s.par 0)
  else if c = char 'H' ∨ c = char 'f' then
    let s := (s.fromZero 0).fromZero 1
    s.gotoxy v (s.par 1) (s.par 0)
  else if c = char 'J' then s.csiJ v (s.par 0)
  else if c = char 'K' then s.csiK v (s.par 0)
  else if c = char 'L' then s.csiL v (s.par 0)
  else if c = char 'M' then s.csiM v (s.par 0)
  else if c = char 'P' then s.csiP v (s.par 0)
  else if c = char '@' then s.csiAt v (s.par 0)
  else if c = char 'm' then s.csim v
  else if c = char 'r' then s.setRegion v
  else if c = char 's' then s.saveCur
  else if c = char 'u' then s.restoreCur v
  else if c = char 'l' ∨ c = char 'b' then s.setGuarded c
  else s

def esGetpars (c : UInt8) : Console :=
  if c = char ';' ∧ s.npar < NPAR - 1 then { s with npar := s.npar + 1 }
  else if char '0' ≤ c ∧ c ≤ char '9' then
    s.setPar s.npar ((10 * s.par s.npar + (c.toNat - 48)) % 2 ^ 32)
  else s.esGotpars v c

def esSquare (c : UInt8) : Console :=
  let s := { s with par := fun i => if i < NPAR then 0 else s.par i, npar := 0, state := .getpars }
  if c = char '[' then { s with state := .funckey }
  else if c = char '?' then { s with ques := true }
  else { s with ques := false }.esGetpars v c

def esSetterm (c : UInt8) : Console :=
  let s := { s with state := .normal }
  if c = char 'S' then
    { s with
      defAttr := s.attr
      videoEraseChar := (s.videoEraseChar &&& (0x00ff : UInt16)) ||| (s.attr.toUInt16 <<< 8) }
  else s

def esSetgraph (c : UInt8) : Console :=
  let s := { s with state := .normal }
  if c = char '0' then { s with translate := GRAF_TRANS }
  else if c = char 'B' then { s with translate := NORM_TRANS }
  else s

/-- One round of the loop of `con_write`. -/
def conByte (c : UInt8) : Console :=
  let s := if c = 24 ∨ c = 26 then { s with state := .normal } else s
  match s.state with
  | .normal => s.esNormal v c
  | .esc => s.esEsc v c
  | .square => s.esSquare v c
  | .getpars => s.esGetpars v c
  | .gotpars => s.esGotpars v c
  | .funckey => { s with state := .normal }
  | .setterm => s.esSetterm c
  | .setgraph => s.esSetgraph c
  | .other => { s with state := .normal }

end Operations

inductive Move where
  /-- a byte from `write_q` -/
  | byte (c : UInt8)
  /-- a call of `con_write` is over -/
  | setCursor
  /-- `tcsetattr` -/
  | setErase (c : UInt8)

def step (v : Display) (s : Console) : Move → Option Console
  | .byte c => some (s.conByte v c)
  | .setCursor => some { s with blankcount := s.blankinterval }
  | .setErase c => some { s with eraseChar := c }

end Console

/-! ## `con_init` -/

structure Boot where
  origX : UInt8
  origY : UInt8
  videoMode : UInt8
  videoCols : UInt8
  videoLines : UInt8
  egaBx : UInt16

namespace Boot

def display (boot : Boot) : Display :=
  let ega := boot.egaBx &&& 0xff ≠ 0x10
  if boot.videoMode = 7 then
    { type := if ega then .egam else .mda
      numColumns := boot.videoCols.toNat
      numLines := boot.videoLines.toNat
      memBase := 0xb0000
      memTerm := if ega then 0xb8000 else 0xb2000
      canDoColour := false }
  else
    { type := if ega then .egac else .cga
      numColumns := boot.videoCols.toNat
      numLines := boot.videoLines.toNat
      memBase := 0xb8000
      memTerm := if ega then 0xc0000 else 0xba000
      canDoColour := true }

def screenSize (boot : Boot) : Nat := boot.display.numLines * boot.display.sizeRow

def nrConsoles (boot : Boot) : Nat :=
  let n := (boot.display.memTerm - boot.display.memBase) / boot.screenSize
  if MAX_CONSOLES < n then MAX_CONSOLES else if n = 0 then 1 else n

def videoMemory (boot : Boot) : Nat := (boot.display.memTerm - boot.display.memBase) / boot.nrConsoles

/-- The variables of the console `k` before its first `gotoxy` call. What is in the video
memory by then is not looked at. -/
def console (boot : Boot) (ram : ByteMemory.Memory) (k : Nat) : Console :=
  let v := boot.display
  let base := v.memBase + k * boot.videoMemory
  { videoEraseChar := 0x0720, attr := 7, defAttr := 7, boldAttr := 2 ^ 32 - 1, ques := false, state := .normal
    origin := base, scrEnd := base + v.numLines * v.sizeRow, pos := 0, x := 0, y := 0
    top := 0, bottom := v.numLines, npar := 0, par := fun _ => 0
    videoMemStart := base, videoMemEnd := base + boot.videoMemory, savedX := 0, savedY := 0
    iscolor := false, translate := NORM_TRANS, ram := { memory := ram, stored := [] }
    eraseChar := 127, blankinterval := 0, blankcount := 0, response := [] }

/-- The console `k` as `con_init` leaves it. A screen without room ends in a divide error. -/
def conInit (boot : Boot) (ram : ByteMemory.Memory) (k : Nat) : Option Console :=
  if boot.screenSize = 0 then none
  else if k = 0 then some ((boot.console ram k).gotoxy boot.display boot.origX.toNat boot.origY.toNat)
  else some ((boot.console ram k).gotoxy boot.display 0 0)

end Boot

end Linux012.ChrDrv

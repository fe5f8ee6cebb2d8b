import Linux012.Fs.Buffer
import Linux012.Lib.Counting

/-! The table of mounted file systems of `fs/super.c`, as `read_super` changes it. A
buffer is named by its device and block. `bread` answers from `readable`: a block is read
or fails alike each time within one call. A slot is locked only inside `read_super` and
`put_super`, so one process alone finds every slot unlocked. -/

set_option autoImplicit false

namespace Linux012.Fs.Mount

open Counting Function

def MAP_SLOTS : Nat := 8
def NR_SUPER : Nat := 8
def SUPER_MAGIC : Nat := 0x137F

abbrev Buffer := Nat × Nat

structure DSuperBlock where
  ninodes : Nat
  nzones : Nat
  imapBlocks : Nat
  zmapBlocks : Nat
  firstdatazone : Nat
  logZoneSize : Nat
  maxSize : Nat
  magic : Nat
deriving DecidableEq

/-- `I_MAP_SLOTS` and `Z_MAP_SLOTS` are both eight. -/
structure SuperBlock extends DSuperBlock where
  imap : Fin MAP_SLOTS → Option Buffer
  zmap : Fin MAP_SLOTS → Option Buffer
  dev : Nat
  isup : Option Nat
  imount : Option Nat
  time : Nat
  lock : Bool
  rdOnly : Nat
  dirt : Nat

structure State where
  superBlock : Fin NR_SUPER → SuperBlock
  count : Buffer → Nat
  data : Buffer → Block

structure Disks where
  rootDev : Nat
  readable : Buffer → Bool
  floppyChange : Nat → Bool

inductive Fault where
  /-- `s_imap[i]` or `s_zmap[i]` with `i` past its own array; that `s_imap[8]` is where
  `s_zmap[0]` lies makes it no less so -/
  | pastMap (i : Nat)
  /-- a field of a `NULL` buffer head -/
  | nullBuffer
  | freeBuffer
deriving DecidableEq

/-! ## Block 1 -/

def short (b : Block) (offset : Nat) (inside : offset + 1 < BLOCK_SIZE) : Nat :=
  (b ⟨offset, by omega⟩).toNat + 2 ^ 8 * (b ⟨offset + 1, inside⟩).toNat

/-- `*(struct d_super_block *) bh->b_data` -/
def dSuperBlock (b : Block) : DSuperBlock where
  ninodes := short b 0 (by decide)
  nzones := short b 2 (by decide)
  imapBlocks := short b 4 (by decide)
  zmapBlocks := short b 6 (by decide)
  firstdatazone := short b 8 (by decide)
  logZoneSize := short b 10 (by decide)
  maxSize := short b 12 (by decide) + 2 ^ 16 * short b 14 (by decide)
  magic := short b 16 (by decide)

/-! ## Buffers -/

/-- `bread(dev,block)`; a failed read has given its buffer back. -/
def bread (disks : Disks) (dev block : Nat) (st : State) : Option Buffer × State :=
  if disks.readable (dev, block) then
    (some (dev, block), { st with count := update st.count (dev, block) (st.count (dev, block) + 1) })
  else (none, st)

def brelse : Option Buffer → State → Except Fault State
  | none, st => .ok st
  | some bh, st =>
    if st.count bh = 0 then .error .freeBuffer
    else .ok { st with count := update st.count bh (st.count bh - 1) }

def brelseAll : List (Option Buffer) → State → Except Fault State
  | [], st => .ok st
  | bh :: rest, st => brelse bh st >>= brelseAll rest

/-! ## Slots -/

def MAJOR (dev : Nat) : Nat := dev >>> 8

namespace State

def setSuper (st : State) (s : Fin NR_SUPER) (sb : SuperBlock) : State :=
  { st with superBlock := update st.superBlock s sb }

def lockSuper (st : State) (s : Fin NR_SUPER) : State :=
  st.setSuper s { st.superBlock s with lock := true }

def freeSuper (st : State) (s : Fin NR_SUPER) : State :=
  st.setSuper s { st.superBlock s with lock := false }

def getSuper (st : State) (dev : Nat) : Option (Fin NR_SUPER) :=
  if dev = 0 then none
  else (List.finRange NR_SUPER).find? fun s => (st.superBlock s).dev = dev

def freeSlot (st : State) : Option (Fin NR_SUPER) :=
  (List.finRange NR_SUPER).find? fun s => (st.superBlock s).dev = 0

def clearDev (st : State) (s : Fin NR_SUPER) : State :=
  st.setSuper s { st.superBlock s with dev := 0 }

end State

def SuperBlock.maps (sb : SuperBlock) : List (Option Buffer) := List.ofFn sb.imap ++ List.ofFn sb.zmap

def putSuper (disks : Disks) (dev : Nat) (st : State) : Except Fault State :=
  if dev = disks.rootDev then .ok st
  else
    match st.getSuper dev with
    | none => .ok st
    | some s =>
      if (st.superBlock s).imount.isSome then .ok st
      else do
        let st := (st.lockSuper s).clearDev s
        let st ← brelseAll (st.superBlock s).maps st
        return st.freeSuper s

def changeLoop (disks : Disks) (dev : Nat) : List (Fin NR_SUPER) → State → Except Fault State
  | [], st => .ok st
  | s :: rest, st => do
    let st ← if (st.superBlock s).dev = dev then putSuper disks (st.superBlock s).dev st else .ok st
    changeLoop disks dev rest st

/-- The inodes and buffers of a changed floppy lose their contents too, so that `data` is
what its blocks hold after the change. -/
def checkDiskChange (disks : Disks) (dev : Nat) (st : State) : Except Fault State :=
  if MAJOR dev ≠ 2 then .ok st
  else if ¬disks.floppyChange (dev &&& 3) then .ok st
  else changeLoop disks dev (List.finRange NR_SUPER) st

/-! ## read_super -/

inductive MapKind where
  | imap
  | zmap
deriving DecidableEq

def SuperBlock.map (sb : SuperBlock) : MapKind → Fin MAP_SLOTS → Option Buffer
  | .imap => sb.imap
  | .zmap => sb.zmap

def SuperBlock.setMap (sb : SuperBlock) (kind : MapKind) (map : Fin MAP_SLOTS → Option Buffer) : SuperBlock :=
  match kind with
  | .imap => { sb with imap := map }
  | .zmap => { sb with zmap := map }

/-- `s->s_imap[i] = bh`, or `s->s_zmap[i] = bh`. -/
def State.storeMap (st : State) (s : Fin NR_SUPER) (kind : MapKind) (i : Nat) (bh : Option Buffer) :
    Except Fault State :=
  if inside : i < MAP_SLOTS then
    .ok (st.setSuper s ((st.superBlock s).setMap kind
      (update ((st.superBlock s).map kind) ⟨i, inside⟩ bh)))
  else .error (.pastMap i)

/-- The rounds of a loop `if (s->map[i]=bread(dev,block)) block++; else break;` from `i` on,
with the `block` that it ends at. -/
def readMap (disks : Disks) (s : Fin NR_SUPER) (kind : MapKind) (dev : Nat) :
    Nat → Nat → Nat → State → Except Fault (Nat × State)
  | 0, _, block, st => .ok (block, st)
  | rounds + 1, i, block, st => do
    let (bh, st) := bread disks dev block st
    let st ← st.storeMap s kind i bh
    if bh.isSome then readMap disks s kind dev rounds (i + 1) (block + 1) st else .ok (block, st)

def readImap (disks : Disks) (s : Fin NR_SUPER) (dev block : Nat) (st : State) : Except Fault (Nat × State) :=
  readMap disks s .imap dev (st.superBlock s).imapBlocks 0 block st

def readZmap (disks : Disks) (s : Fin NR_SUPER) (dev block : Nat) (st : State) : Except Fault (Nat × State) :=
  readMap disks s .zmap dev (st.superBlock s).zmapBlocks 0 block st

def State.setFirstBit (st : State) (bh : Buffer) : State :=
  { st with data := update st.data bh (update (st.data bh) 0 (st.data bh 0 ||| 1)) }

def State.markFirst (st : State) : Option Buffer → Except Fault State
  | none => .error .nullBuffer
  | some bh => .ok (st.setFirstBit bh)

def SuperBlock.claim (sb : SuperBlock) (dev : Nat) : SuperBlock :=
  { sb with dev := dev, isup := none, imount := none, time := 0, rdOnly := 0, dirt := 0 }

def SuperBlock.clearMaps (sb : SuperBlock) : SuperBlock :=
  { sb with imap := fun _ => none, zmap := fun _ => none }

def finishSuper (s : Fin NR_SUPER) (block : Nat) (st : State) : Except Fault (Option (Fin NR_SUPER) × State) :=
  if block ≠ 2 + (st.superBlock s).imapBlocks + (st.superBlock s).zmapBlocks then do
    let st ← brelseAll (st.superBlock s).maps st
    return (none, (st.clearDev s).freeSuper s)
  else do
    let st ← st.markFirst ((st.superBlock s).imap ⟨0, by decide⟩)
    let st ← st.markFirst ((st.superBlock s).zmap ⟨0, by decide⟩)
    return (some s, st.freeSuper s)

/-- From `bread(dev,1)` on. -/
def fillSuper (disks : Disks) (s : Fin NR_SUPER) (dev : Nat) (st : State) :
    Except Fault (Option (Fin NR_SUPER) × State) :=
  let (bh, st) := bread disks dev 1 st
  match bh with
  | none => .ok (none, (st.clearDev s).freeSuper s)
  | some bh => do
    let st := st.setSuper s { st.superBlock s with toDSuperBlock := dSuperBlock (st.data bh) }
    let st ← brelse (some bh) st
    if (st.superBlock s).magic ≠ SUPER_MAGIC then return (none, (st.clearDev s).freeSuper s)
    let st := st.setSuper s (st.superBlock s).clearMaps
    let (block, st) ← readImap disks s dev 2 st
    let (block, st) ← readZmap disks s dev block st
    finishSuper s block st

def readSuper (disks : Disks) (dev : Nat) (st : State) : Except Fault (Option (Fin NR_SUPER) × State) :=
  if dev = 0 then .ok (none, st)
  else do
    let st ← checkDiskChange disks dev st
    match st.getSuper dev with
    | some s => return (some s, st)
    | none =>
      match st.freeSlot with
      | none => return (none, st)
      | some s => fillSuper disks s dev ((st.setSuper s ((st.superBlock s).claim dev)).lockSuper s)

end Linux012.Fs.Mount

import Linux012.Fs.ZoneMapping

/-! `fs/truncate.c` -/

set_option autoImplicit false

namespace Linux012.Fs.Truncate

open BlockTree Bitmap

abbrev Mode := BitVec 16

def S_IFMT : Mode := 0o170000
def S_IFLNK : Mode := 0o120000
def S_IFREG : Mode := 0o100000
def S_IFDIR : Mode := 0o040000

def S_ISLNK (m : Mode) : Bool := m &&& S_IFMT == S_IFLNK
def S_ISREG (m : Mode) : Bool := m &&& S_IFMT == S_IFREG
def S_ISDIR (m : Mode) : Bool := m &&& S_IFMT == S_IFDIR

/-- An inode with its device, and what happens around `truncate`. -/
structure State extends ZoneTree.State where
  mode : Mode
  size : Nat
  mtime : Nat
  /-- for the coming calls of `free_block`: whether another process has the buffer -/
  holders : List Bool
  /-- `free_block: bit already cleared` -/
  printed : Bool

namespace State

def freeBlock (s : State) (block : Nat) : Except Panic (Nat × State) :=
  if s.holders.head? = some true then
    -- the other process has read the block, and lets go of it afterwards
    let got := s.volume.bread block (s.free 0)
    (got.2.freeBlock block).map fun freed =>
      (freed.1, { s with
        volume := freed.2.2.brelse block, free := fun i => s.free (i + 1)
        holders := s.holders.tail, printed := s.printed || freed.2.1 })
  else
    (s.volume.freeBlock block).map fun freed =>
      (freed.1, { s with volume := freed.2.2, holders := s.holders.tail, printed := s.printed || freed.2.1 })

/-- The loop over the entries of the index block, whose buffer `bh` is held; it ends with
`block_busy`. -/
def freeEntries (inner : State → Nat → Except Panic (Nat × State)) (block : Nat) :
    List (Fin 512) → Bool → State → Except Panic (Bool × State)
  | [], busy, s => .ok (busy, s)
  | j :: rest, busy, s =>
    let p := (s.volume.cache block).elim 0 fun bh => bh.data j
    if p = 0 then freeEntries inner block rest busy s
    else
      (inner s p).bind fun got =>
        if got.1 ≠ 0 then
          freeEntries inner block rest busy
            { got.2 with volume := got.2.volume.store block fun data => Function.update data j 0 }
        else freeEntries inner block rest true got.2

/-- `free_ind` and `free_dind` differ in what they call for the entries. -/
def freeVia (inner : State → Nat → Except Panic (Nat × State)) (s : State) (block : Nat) : Except Panic (Nat × State) :=
  if block = 0 then .ok (1, s)
  else
    let s := { s with volume := (s.volume.bread block (s.free 0)).2, free := fun i => s.free (i + 1) }
    (freeEntries inner block (List.finRange 512) false s).bind fun got =>
      let s := { got.2 with volume := got.2.volume.brelse block }
      if got.1 then .ok (0, s) else s.freeBlock block

def freeInd : State → Nat → Except Panic (Nat × State) := freeVia freeBlock

def freeDind : State → Nat → Except Panic (Nat × State) := freeVia freeInd

/-- What is called for an entry of `i_zone`. -/
def freeTree (k : Fin 9) (s : State) : Except Panic (Nat × State) :=
  if k.val < 7 then if s.zone k = 0 then .ok (1, s) else s.freeBlock (s.zone k)
  else if k.val = 7 then s.freeInd (s.zone k)
  else s.freeDind (s.zone k)

/-- One entry of `i_zone` after the other; an empty direct entry is cleared once more. -/
def freeZones : List (Fin 9) → Bool → State → Except Panic (Bool × State)
  | [], busy, s => .ok (busy, s)
  | k :: rest, busy, s =>
    (s.freeTree k).bind fun got =>
      if got.1 ≠ 0 then freeZones rest busy { got.2 with zone := Function.update got.2.zone k 0 }
      else freeZones rest true got.2

/-- `truncate` from `repeat` on, unless it takes more than `passes` rounds. -/
def truncateLoop (now : Nat) : (passes : Nat) → State → Except Panic (Option State)
  | 0, _ => .ok none
  | passes + 1, s =>
    (freeZones (List.finRange 9) false s).bind fun got =>
      let s := { got.2 with dirt := true }
      if got.1 then truncateLoop now passes s else .ok (some { s with size := 0, mtime := now, ctime := now })

def truncate (now passes : Nat) (s : State) : Except Panic (Option State) :=
  if S_ISREG s.mode || S_ISDIR s.mode || S_ISLNK s.mode then truncateLoop now passes s else .ok (some s)

end State

end Linux012.Fs.Truncate

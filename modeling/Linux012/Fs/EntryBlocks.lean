import Linux012.Fs.Directory
import Linux012.Fs.ZoneMapping

/-! `find_entry` and `add_entry` over the blocks of a directory. -/

set_option autoImplicit false

namespace Linux012.Fs.EntryBlocks

open Bitmap ZoneTree
open Namei (Byte DirEntry NAME_LEN DIR_ENTRIES_PER_BLOCK DOT DOTDOT matchName)

/-! ## The entries of a block -/

def bytes (data : Index) : Namei.Block := fun i => (data (Fin.ofNat 512 (i / 2)) / 256 ^ (i % 2)).toUInt8

def entry (data : Index) (de : Nat) : DirEntry := (bytes data).entry de

def setInode (de inode : Nat) (data : Index) : Index := fun k => if k.val = 8 * de then inode else data k

def setName (de : Nat) (name : List Byte) (data : Index) : Index := fun k =>
  if k.val / 8 = de ∧ k.val % 8 ≠ 0 then
    (name.getD (2 * (k.val % 8) - 2) 0).toNat + 256 * (name.getD (2 * (k.val % 8) - 1) 0).toNat
  else data k

/-! ## The two scans -/

structure Dir extends ZoneTree.State where
  size : Nat
  mtime : Nat

structure Around where
  isRoot : Bool
  /-- what the file system is mounted on, if this is its root -/
  covered : Option Dir

namespace Dir

def bread (s : Dir) (block : Nat) : Dir :=
  { s with volume := (s.volume.bread block (s.free 0)).2, free := fun i => s.free (i + 1) }

def brelse (s : Dir) (block : Nat) : Dir := { s with volume := s.volume.brelse block }

def store (s : Dir) (block : Nat) (f : Index → Index) : Dir := { s with volume := s.volume.store block f }

def load (s : Dir) (block de : Nat) : DirEntry := entry ((s.volume.cache block).elim (fun _ => 0) Buffer.data) de

def release (s : Dir) : Option Nat → Dir
  | some block => s.brelse block
  | none => s

def nextBlock (s : Dir) (now i : Nat) : Except Panic (Option (Nat × Nat) × Dir) :=
  (s.bmap now ((i / DIR_ENTRIES_PER_BLOCK : Nat) : Int)).map fun got =>
    let t := { s with toState := got.2 }
    if got.1 = 0 then (none, t) else (some (got.1, 0), t.bread got.1)

def nextEntry (s : Dir) (now i : Nat) (bh : Option Nat) (de : Nat) : Except Panic (Option (Nat × Nat) × Dir) :=
  match bh with
  | some block => if de < DIR_ENTRIES_PER_BLOCK then .ok (some (block, de), s) else (s.brelse block).nextBlock now i
  | none => s.nextBlock now i

/-- The loop of `find_entry`. A round passes at least one entry, so that `entries` rounds are
enough. -/
def findLoop (now : Nat) (name : List Byte) (entries : Nat) :
    (rounds : Nat) → Nat → Option Nat → Nat → Dir → Except Panic (Option (Nat × Nat) × Dir)
  | 0, _, bh, _, s => .ok (none, s.release bh)
  | rounds + 1, i, bh, de, s =>
    if i < entries then
      (s.nextEntry now i bh de).bind fun got =>
        match got.1 with
        | none => findLoop now name entries rounds (i + DIR_ENTRIES_PER_BLOCK) none de got.2
        | some place =>
          if matchName false name (got.2.load place.1 place.2) then .ok (some place, got.2)
          else findLoop now name entries rounds (i + 1) (some place.1) (place.2 + 1) got.2
    else .ok (none, s.release bh)

def findFrom (s : Dir) (now : Nat) (name : List Byte) (entries : Nat) : Except Panic (Option (Nat × Nat) × Dir) :=
  if s.zone 0 = 0 then .ok (none, s)
  else findLoop now name entries entries 0 (some (s.zone 0)) 0 (s.bread (s.zone 0))

def findEntry (s : Dir) (around : Around) (now : Nat) (name : List Byte) : Except Panic (Option (Nat × Nat) × Dir) :=
  let name := name.take NAME_LEN
  let entries := s.size / 16
  if name = DOTDOT then
    if around.isRoot then s.findFrom now DOT entries
    else (around.covered.getD s).findFrom now name entries
  else s.findFrom now name entries

def lookup (s : Dir) (around : Around) (now : Nat) (name : List Byte) : Except Panic (Option Nat) :=
  (s.findEntry around now name).map fun got => got.1.map fun place => (got.2.load place.1 place.2).inode

def extend (s : Dir) (now i block de : Nat) : Dir :=
  if s.size ≤ i * 16 then { s.store block (setInode de 0) with size := (i + 1) * 16, dirt := true, ctime := now } else s

/-- The buffer and the place of entry `i`, in a block that may have to be created. -/
def createEntry (s : Dir) (now i block de : Nat) : Except Panic (Option (Nat × Nat) × Dir) :=
  if de < DIR_ENTRIES_PER_BLOCK then .ok (some (block, de), s)
  else
    ((s.brelse block).createBlock now ((i / DIR_ENTRIES_PER_BLOCK : Nat) : Int)).map fun got =>
      let t := { s.brelse block with toState := got.2 }
      if got.1 = 0 then (none, t) else (some (got.1, 0), t.bread got.1)

/-- The loop of `add_entry`. The entry behind the last one ends it. -/
def addLoop (now : Nat) (name : List Byte) :
    (rounds : Nat) → Nat → Nat → Nat → Dir → Except Panic (Option (Nat × Nat) × Dir)
  | 0, _, block, _, s => .ok (none, s.brelse block)
  | rounds + 1, i, block, de, s =>
    (s.createEntry now i block de).bind fun got =>
      match got.1 with
      | none => .ok (none, got.2)
      | some place =>
        let t := got.2.extend now i place.1 place.2
        if (t.load place.1 place.2).inode = 0 then
          .ok (some place, { t.store place.1 (setName place.2 name) with mtime := now })
        else addLoop now name rounds (i + 1) place.1 (place.2 + 1) t

def addEntry (s : Dir) (now : Nat) (name : List Byte) : Except Panic (Option (Nat × Nat) × Dir) :=
  let name := name.take NAME_LEN
  if name = [] then .ok (none, s)
  else if s.zone 0 = 0 then .ok (none, s)
  else addLoop now name (s.size / 16 + 2) 0 (s.zone 0) 0 (s.bread (s.zone 0))

def fill (s : Dir) (place : Nat × Nat) (inode : Nat) : Dir := (s.store place.1 (setInode place.2 inode)).brelse place.1

end Dir

/-! ## Reading and writing an entry -/

theorem bytes_of_lt (data : Index) {m : Nat} (inside : m < 1024) :
    bytes data m = (data ⟨m / 2, by omega⟩ / 256 ^ (m % 2)).toUInt8 := by
  have place : Fin.ofNat 512 (m / 2) = ⟨m / 2, by omega⟩ := Fin.ext (Nat.mod_eq_of_lt (by omega))
  rw [bytes, place]

theorem entry_inode (data : Index) {de : Nat} (inside : de < 64) :
    (entry data de).inode = data ⟨8 * de, by omega⟩ % 65536 := by
  have half : 2 * (8 * de) / 2 = 8 * de := by omega
  have half' : (2 * (8 * de) + 1) / 2 = 8 * de := by omega
  have rest : 2 * (8 * de) % 2 = 0 := by omega
  have rest' : (2 * (8 * de) + 1) % 2 = 1 := by omega
  rw [entry, Namei.Block.entry, Namei.Block.word, bytes_of_lt data (by omega), bytes_of_lt data (by omega)]
  simp only [half, half', rest, rest', Nat.toUInt8, UInt8.toNat_ofNat', Nat.pow_zero, Nat.pow_one, Nat.div_one]
  omega

theorem entry_name (data : Index) (de : Nat) :
    (entry data de).name = (List.range NAME_LEN).map fun j => bytes data (16 * de + 2 + j) :=
  rfl

theorem length_entry_name (data : Index) (de : Nat) : (entry data de).name.length = NAME_LEN := by
  simp [entry, Namei.Block.entry]

theorem entry_ext {e f : DirEntry} (inode : e.inode = f.inode) (name : e.name = f.name) : e = f := by
  cases e
  cases f
  simp_all

theorem entry_setInode (data : Index) {de i inode : Nat} (here : de < 64) (inside : i < 64) (short : inode < 65536) :
    entry (setInode de inode data) i = if i = de then { entry data de with inode } else entry data i := by
  have name : (entry (setInode de inode data) i).name = (entry data i).name := by
    rw [entry_name, entry_name]
    refine List.map_congr_left fun j member => ?_
    have below : j < 14 := List.mem_range.mp member
    have other : ¬(16 * i + 2 + j) / 2 = 8 * de := by omega
    rw [bytes_of_lt _ (by omega), bytes_of_lt _ (by omega), setInode, if_neg other]
  split
  · next same =>
    subst same
    refine entry_ext ?_ name
    rw [entry_inode _ inside, setInode, if_pos rfl, Nat.mod_eq_of_lt short]
  · next other =>
    refine entry_ext ?_ name
    have differ : ¬8 * i = 8 * de := by omega
    rw [entry_inode _ inside, entry_inode _ inside, setInode, if_neg differ]

theorem low_byte (low high : Byte) : (low.toNat + 256 * high.toNat).toUInt8 = low := by
  have bound := low.toNat_lt
  refine UInt8.toNat_inj.mp ?_
  rw [Nat.toUInt8, UInt8.toNat_ofNat']
  omega

theorem high_byte (low high : Byte) : ((low.toNat + 256 * high.toNat) / 256).toUInt8 = high := by
  have bound := low.toNat_lt
  have bound' := high.toNat_lt
  refine UInt8.toNat_inj.mp ?_
  rw [Nat.toUInt8, UInt8.toNat_ofNat']
  omega

theorem entry_setName (data : Index) {de i : Nat} (name : List Byte) (here : de < 64) (inside : i < 64) :
    entry (setName de name data) i =
      if i = de then ⟨(entry data de).inode, (List.range NAME_LEN).map fun j => name.getD j 0⟩ else entry data i := by
  have inode : (entry (setName de name data) i).inode = (entry data i).inode := by
    have first : ¬(8 * i / 8 = de ∧ 8 * i % 8 ≠ 0) := by omega
    rw [entry_inode _ inside, entry_inode _ inside, setName, if_neg first]
  split
  · next same =>
    subst same
    refine entry_ext inode ?_
    rw [entry_name]
    dsimp only
    refine List.map_congr_left fun j member => ?_
    have below : j < 14 := List.mem_range.mp member
    have place : (16 * i + 2 + j) / 2 / 8 = i ∧ (16 * i + 2 + j) / 2 % 8 ≠ 0 := by omega
    rw [bytes_of_lt _ (by omega), setName, if_pos place]
    by_cases even : j % 2 = 0
    · have low : 2 * ((16 * i + 2 + j) / 2 % 8) - 2 = j := by omega
      have byte : (16 * i + 2 + j) % 2 = 0 := by omega
      simp only [low, byte, Nat.pow_zero, Nat.div_one]
      exact low_byte _ _
    · have high : 2 * ((16 * i + 2 + j) / 2 % 8) - 1 = j := by omega
      have byte : (16 * i + 2 + j) % 2 = 1 := by omega
      simp only [high, byte, Nat.pow_one]
      exact high_byte _ _
  · next other =>
    refine entry_ext inode ?_
    rw [entry_name, entry_name]
    refine List.map_congr_left fun j member => ?_
    have below : j < 14 := List.mem_range.mp member
    have elsewhere : ¬((16 * i + 2 + j) / 2 / 8 = de ∧ (16 * i + 2 + j) / 2 % 8 ≠ 0) := by omega
    rw [bytes_of_lt _ (by omega), bytes_of_lt _ (by omega), setName, if_neg elsewhere]

end Linux012.Fs.EntryBlocks

import Linux012.Lib.BitWords
import Mathlib.Algebra.Group.Pi.Basic
import Mathlib.Algebra.GroupWithZero.Nat

/-! The inode and zone bitmaps of a mounted device: `fs/bitmap.c`, over the buffers
of the device. -/

set_option autoImplicit false

namespace Linux012.Fs.Bitmap

open BitWords Function

structure MapBlock where
  data : Words 32
  dirt : Bool

abbrev MAP_SLOTS : Nat := 8

structure SuperBlock where
  ninodes : Nat
  nzones : Nat
  firstdatazone : Nat
  imap : Nat → Option MapBlock
  zmap : Nat → Option MapBlock

structure Buffer (α : Type) where
  count : Nat
  uptodate : Bool
  dirt : Bool
  data : α

/-- A mounted device: its super block, the buffers of its blocks, and the blocks on disk. -/
structure Volume (α : Type) where
  sb : SuperBlock
  cache : Nat → Option (Buffer α)
  disk : Nat → α

structure Inode where
  count : Nat
  nlinks : Nat
  dev : Nat
  uid : Nat
  gid : Nat
  dirt : Bool
  num : Nat
  time : Nat
deriving DecidableEq

inductive Panic where
  | notInDatazone
  | bitAlreadySet
  | countNotOne
  | freeInodeCount
  | freeInodeLinks
  | nonexistentInode
  | nonexistentMap
  | bmapNegative
  | bmapTooBig
deriving DecidableEq

/-- What `getblk` takes from the free list: the block that loses its buffer, if it is one of
this device, and what the buffer holds. -/
structure Reuse (α : Type) where
  victim : Option Nat
  data : α

def loadMap (blocks first : Nat) (disk : Nat → Words 32) (i : Nat) : Option MapBlock :=
  if i < blocks then some ⟨if i = 0 then setBit (disk first) 0 else disk (first + i), false⟩ else none

def findFirstZero (words : Words 32) : Nat := firstZero words (8192 / 32) 0

/-- The loop over the map slots from `i`. Without a result `!bh || j >= 8192` holds, whatever
the last slots were. -/
def scan (maps : Nat → Option MapBlock) : (more : Nat) → (i : Nat) → Option (Nat × Nat × MapBlock)
  | 0, _ => none
  | more + 1, i =>
    match maps i with
    | some bh =>
      if findFirstZero bh.data < 8192 then some (i, findFirstZero bh.data, bh) else scan maps more (i + 1)
    | none => scan maps more (i + 1)

namespace SuperBlock

def setZmap (sb : SuperBlock) (i : Nat) (bh : MapBlock) : SuperBlock :=
  { sb with zmap := update sb.zmap i (some bh) }

def setImap (sb : SuperBlock) (i : Nat) (bh : MapBlock) : SuperBlock :=
  { sb with imap := update sb.imap i (some bh) }

end SuperBlock

namespace Buffer

variable {α : Type}

def brelse (bh : Buffer α) : Buffer α := { bh with count := bh.count - 1 }

def clearBlock [Zero α] (bh : Buffer α) : Buffer α := { bh with uptodate := true, dirt := true, data := (0 : α) }

def invalidate (bh : Buffer α) : Buffer α := { bh with dirt := false, uptodate := false }

end Buffer

namespace Volume

variable {α : Type}

def put (v : Volume α) (block : Nat) (bh : Option (Buffer α)) : Volume α :=
  { v with cache := update v.cache block bh }

def evict (v : Volume α) (victim : Nat) : Volume α :=
  match v.cache victim with
  | none => v
  | some bh =>
    if bh.count ≠ 0 then v
    else if bh.dirt then { v.put victim none with disk := update v.disk victim bh.data }
    else v.put victim none

def getblk (v : Volume α) (block : Nat) (reuse : Reuse α) : Buffer α × Volume α :=
  match v.cache block with
  | some bh => ({ bh with count := bh.count + 1 }, v)
  | none => (⟨1, false, false, reuse.data⟩, reuse.victim.elim v v.evict)

def clearNew [Zero α] (v : Volume α) (block : Nat) (reuse : Reuse α) : Except Panic (Nat × Volume α) :=
  let got := v.getblk block reuse
  if got.1.count ≠ 1 then .error .countNotOne
  else .ok (block, got.2.put block (some got.1.clearBlock.brelse))

def newBlock [Zero α] (v : Volume α) (reuse : Reuse α) : Except Panic (Nat × Volume α) :=
  match scan v.sb.zmap MAP_SLOTS 0 with
  | none => .ok (0, v)
  | some (i, j, bh) =>
    if bit bh.data j then .error .bitAlreadySet
    else
      let v := { v with sb := v.sb.setZmap i ⟨setBit bh.data j, true⟩ }
      let block := j + i * 8192 + v.sb.firstdatazone - 1
      if v.sb.nzones ≤ block then .ok (0, v) else v.clearNew block reuse

/-- The start of `free_block`, unless somebody else holds the buffer. -/
def dropBuffer (v : Volume α) (block : Nat) : Option (Volume α) :=
  match v.cache block with
  | none => some v
  | some bh =>
    let bh := { bh with count := bh.count + 1 }
    if bh.count > 1 then none else some (v.put block (some bh.invalidate.brelse))

/-- What `free_block` returns, and whether it prints that the bit was clear. -/
def freeBlock (v : Volume α) (block : Nat) : Except Panic (Nat × Bool × Volume α) :=
  if block < v.sb.firstdatazone ∨ v.sb.nzones ≤ block then .error .notInDatazone
  else
    match v.dropBuffer block with
    | none => .ok (0, false, v)
    | some v =>
      let n := block + 1 - v.sb.firstdatazone
      match v.sb.zmap (n / 8192) with
      | none => .error .nonexistentMap
      | some bh =>
        .ok (1, !bit bh.data (n % 8192),
          { v with sb := v.sb.setZmap (n / 8192) ⟨clearBit bh.data (n % 8192), true⟩ })

def newInode (v : Volume α) (dev euid egid time : Nat) : Except Panic (Option Inode × Volume α) :=
  match scan v.sb.imap MAP_SLOTS 0 with
  | none => .ok (none, v)
  | some (i, j, bh) =>
    if v.sb.ninodes < j + i * 8192 then .ok (none, v)
    else if bit bh.data j then .error .bitAlreadySet
    else
      .ok (some ⟨1, 1, dev, euid, egid, true, j + i * 8192, time⟩,
        { v with sb := v.sb.setImap i ⟨setBit bh.data j, true⟩ })

/-- Whether `free_inode` prints that the bit was clear, of an inode of this device. -/
def freeInode (v : Volume α) (inode : Inode) : Except Panic (Bool × Volume α) :=
  if inode.dev = 0 then .ok (false, v)
  else if 1 < inode.count then .error .freeInodeCount
  else if inode.nlinks ≠ 0 then .error .freeInodeLinks
  else if inode.num < 1 ∨ v.sb.ninodes < inode.num then .error .nonexistentInode
  else
    match v.sb.imap (inode.num / 8192) with
    | none => .error .nonexistentMap
    | some bh =>
      .ok (!bit bh.data (inode.num % 8192),
        { v with sb := v.sb.setImap (inode.num / 8192) ⟨clearBit bh.data (inode.num % 8192), true⟩ })

end Volume

/-! ## Bits by number -/

def marked (maps : Nat → Option MapBlock) (n : Nat) : Bool :=
  (maps (n / 8192)).elim true fun bh => bit bh.data (n % 8192)

structure IsFirstClear (maps : Nat → Option MapBlock) (n : Nat) : Prop where
  inside : n < 8192 * MAP_SLOTS
  clear : marked maps n = false
  before : ∀ m < n, marked maps m = true

structure ChangesBit (maps : Nat → Option MapBlock) (n : Nat) (value : Bool) (maps' : Nat → Option MapBlock) :
    Prop where
  slots : ∀ i, (maps' i).isSome = (maps i).isSome
  bits : ∀ m, marked maps' m = if m = n then value else marked maps m

variable {maps maps' : Nat → Option MapBlock}

variable {bh : MapBlock}

theorem marked_of_slot {i j : Nat} (slot : maps i = some bh) (inside : j < 8192) :
    marked maps (8192 * i + j) = bit bh.data j := by
  rw [marked, Nat.mul_add_div (by decide), Nat.div_eq_of_lt inside, Nat.mul_add_mod_self_left,
    Nat.mod_eq_of_lt inside, Nat.add_zero, slot]
  rfl

variable {n : Nat}

theorem exists_slot (clear : marked maps n = false) :
    ∃ bh, maps (n / 8192) = some bh ∧ bit bh.data (n % 8192) = false := by
  rw [marked] at clear
  cases slot : maps (n / 8192) with
  | none => simp [slot] at clear
  | some bh => exact ⟨bh, rfl, by simpa [slot] using clear⟩

theorem ChangesBit.of_update {bh' : MapBlock} {value : Bool} (slot : maps (n / 8192) = some bh)
    (bits : ∀ k, bit bh'.data k = if k = n % 8192 then value else bit bh.data k) :
    ChangesBit maps n value (update maps (n / 8192) (some bh')) := by
  refine ⟨fun i => ?_, fun m => ?_⟩
  · by_cases now : i = n / 8192
    · subst now
      simp [slot]
    · rw [update_of_ne now]
  · by_cases now : m / 8192 = n / 8192
    · have place := same_place (w := 8192) now
      simp [marked, now, slot, bits, place]
    · have other : m ≠ n := fun same => now (same ▸ rfl)
      simp [marked, update_of_ne now, other]

theorem ChangesBit.set (slot : maps (n / 8192) = some bh) (dirt : Bool) :
    ChangesBit maps n true (update maps (n / 8192) (some ⟨setBit bh.data (n % 8192), dirt⟩)) := by
  refine .of_update slot fun k => ?_
  rw [bit_setBit (by decide)]
  by_cases same : k = n % 8192 <;> simp [same]

theorem ChangesBit.clear (slot : maps (n / 8192) = some bh) (dirt : Bool) :
    ChangesBit maps n false (update maps (n / 8192) (some ⟨clearBit bh.data (n % 8192), dirt⟩)) := by
  refine .of_update slot fun k => ?_
  rw [bit_clearBit (by decide)]
  by_cases same : k = n % 8192 <;> simp [same]

theorem bit_of_lt_findFirstZero {words : Words 32} {k : Nat} (before : k < findFirstZero words) :
    bit words k = true :=
  bit_of_lt_firstZero (by decide) (Nat.zero_le _) before

theorem bit_findFirstZero {words : Words 32} (found : findFirstZero words < 8192) :
    bit words (findFirstZero words) = false :=
  bit_firstZero (by decide) found

theorem slot_of_le {i : Nat} (after : 8192 * i ≤ n) : (∃ j < 8192, n = 8192 * i + j) ∨ 8192 * (i + 1) ≤ n :=
  place_of_le after

theorem scan_eq_some {more i k j : Nat} (found : scan maps more i = some (k, j, bh)) :
    k < i + more ∧ maps k = some bh ∧ j < 8192 ∧ bit bh.data j = false ∧
      ∀ n, 8192 * i ≤ n → n < 8192 * k + j → marked maps n = true := by
  induction more generalizing i with
  | zero => cases found
  | succ more ih =>
    rw [scan] at found
    split at found
    · next bh' slot =>
      split at found
      · next inside =>
        cases found
        refine ⟨by omega, slot, inside, bit_findFirstZero inside, fun n after before => ?_⟩
        obtain ⟨j, rfl⟩ := Nat.exists_eq_add_of_le after
        rw [marked_of_slot slot (by omega)]
        exact bit_of_lt_findFirstZero (by omega)
      · next full =>
        obtain ⟨below, found, inside, clear, before⟩ := ih found
        refine ⟨by omega, found, inside, clear, fun n after earlier => ?_⟩
        rcases slot_of_le after with ⟨j, place, rfl⟩ | later
        · rw [marked_of_slot slot place]
          exact bit_of_lt_findFirstZero (by omega)
        · exact before n later earlier
    · next slot =>
      obtain ⟨below, found, inside, clear, before⟩ := ih found
      refine ⟨by omega, found, inside, clear, fun n after earlier => ?_⟩
      rcases slot_of_le after with ⟨j, place, rfl⟩ | later
      · rw [marked, Nat.mul_add_div (by decide), Nat.div_eq_of_lt place, Nat.add_zero, slot]
        rfl
      · exact before n later earlier

theorem scan_eq_none {more i : Nat} (nothing : scan maps more i = none) (after : 8192 * i ≤ n)
    (inside : n < 8192 * (i + more)) : marked maps n = true := by
  induction more generalizing i with
  | zero => omega
  | succ more ih =>
    rw [scan] at nothing
    split at nothing
    · next bh slot =>
      split at nothing
      · cases nothing
      · next full =>
        rcases slot_of_le after with ⟨j, place, rfl⟩ | later
        · rw [marked_of_slot slot place]
          exact bit_of_lt_findFirstZero (by omega)
        · exact ih nothing later (by omega)
    · next slot =>
      rcases slot_of_le after with ⟨j, place, rfl⟩ | later
      · rw [marked, Nat.mul_add_div (by decide), Nat.div_eq_of_lt place, Nat.add_zero, slot]
        rfl
      · exact ih nothing later (by omega)

theorem IsFirstClear.unique {m : Nat} (first : IsFirstClear maps n) (other : IsFirstClear maps m) : m = n := by
  rcases Nat.lt_trichotomy m n with earlier | same | later
  · exact absurd ((first.before m earlier).symm.trans other.clear) (by simp)
  · exact same
  · exact absurd ((other.before n later).symm.trans first.clear) (by simp)

theorem IsFirstClear.scan (first : IsFirstClear maps n) :
    ∃ bh, maps (n / 8192) = some bh ∧ bit bh.data (n % 8192) = false ∧
      Bitmap.scan maps MAP_SLOTS 0 = some (n / 8192, n % 8192, bh) := by
  cases found : Bitmap.scan maps MAP_SLOTS 0 with
  | none =>
    have isSet := scan_eq_none found (Nat.zero_le n) (by simpa using first.inside)
    exact absurd (isSet.symm.trans first.clear) (by simp)
  | some place =>
    obtain ⟨k, j, bh⟩ := place
    obtain ⟨below, slot, inside, clear, before⟩ := scan_eq_some found
    have isClear : marked maps (8192 * k + j) = false := (marked_of_slot slot inside).trans clear
    have same : n = 8192 * k + j :=
      IsFirstClear.unique ⟨by omega, isClear, fun m earlier => before m (Nat.zero_le m) earlier⟩ first
    have quotient : n / 8192 = k := by omega
    have remainder : n % 8192 = j := by omega
    rw [quotient, remainder]
    exact ⟨bh, slot, clear, rfl⟩

theorem scan_of_full (full : ∀ n < 8192 * MAP_SLOTS, marked maps n = true) : scan maps MAP_SLOTS 0 = none := by
  cases found : scan maps MAP_SLOTS 0 with
  | none => rfl
  | some place =>
    obtain ⟨k, j, bh⟩ := place
    obtain ⟨below, slot, inside, clear, -⟩ := scan_eq_some found
    have isClear := (marked_of_slot slot inside).trans clear
    exact absurd ((full _ (by omega)).symm.trans isClear) (by simp)

theorem isFirstClear_or_full (maps : Nat → Option MapBlock) :
    (∃ n, IsFirstClear maps n) ∨ ∀ n < 8192 * MAP_SLOTS, marked maps n = true := by
  cases found : scan maps MAP_SLOTS 0 with
  | none => exact .inr fun n inside => scan_eq_none found (Nat.zero_le n) (by simpa using inside)
  | some place =>
    obtain ⟨k, j, bh⟩ := place
    obtain ⟨below, slot, inside, clear, before⟩ := scan_eq_some found
    exact .inl ⟨8192 * k + j, by omega, (marked_of_slot slot inside).trans clear,
      fun m earlier => before m (Nat.zero_le m) earlier⟩

end Linux012.Fs.Bitmap

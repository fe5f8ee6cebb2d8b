import Linux012.Fs.Bitmap
import Linux012.Lib.Transition
import Mathlib.Order.Bounds.Basic

/-! What the two allocators of a device do to its bitmaps and buffers. -/

set_option autoImplicit false

namespace Linux012.Fs.Bitmap

open Transition

namespace SuperBlock

def bitOf (sb : SuperBlock) (block : Nat) : Nat := block + 1 - sb.firstdatazone

def zoneOf (sb : SuperBlock) (n : Nat) : Nat := n + sb.firstdatazone - 1

structure Free (sb : SuperBlock) (block : Nat) : Prop where
  first : sb.firstdatazone ≤ block
  last : block < sb.nzones
  clear : marked sb.zmap (sb.bitOf block) = false

structure Formatted (sb : SuperBlock) (z : Nat) : Prop where
  slots : z ≤ MAP_SLOTS
  loaded : ∀ i, (sb.zmap i).isSome ↔ i < z
  first : marked sb.zmap 0 = true
  past : ∀ n < 8192 * z, sb.nzones ≤ sb.zoneOf n → marked sb.zmap n = true
  zones : sb.nzones + 1 ≤ sb.firstdatazone + 8192 * z

structure ChangesZone (sb : SuperBlock) (n : Nat) (value : Bool) (sb' : SuperBlock) : Prop where
  zmap : ChangesBit sb.zmap n value sb'.zmap
  rest : sb' = { sb with zmap := sb'.zmap }

end SuperBlock

namespace Volume

variable {α : Type} {v v' : Volume α} {block n : Nat} {reuse : Reuse α}

def Unheld (v : Volume α) (block : Nat) : Prop := ∀ bh, v.cache block = some bh → bh.count = 0

def Dropped (v : Volume α) (block : Nat) : Prop :=
  ∀ bh, v.cache block = some bh → bh.count = 0 ∧ bh.uptodate = false ∧ bh.dirt = false

@[simp] theorem cache_put_self (v : Volume α) (block : Nat) (bh : Option (Buffer α)) :
    (v.put block bh).cache block = bh :=
  Function.update_self ..

@[simp] theorem sb_put (v : Volume α) (block : Nat) (bh : Option (Buffer α)) : (v.put block bh).sb = v.sb := rfl

@[simp] theorem sb_evict (v : Volume α) (victim : Nat) : (v.evict victim).sb = v.sb := by
  rw [evict]
  split
  · rfl
  · split
    · rfl
    · split <;> rfl

theorem sb_getblk (v : Volume α) (block : Nat) (reuse : Reuse α) : (v.getblk block reuse).2.sb = v.sb := by
  rw [getblk]
  split
  · rfl
  · cases reuse.victim with
    | none => rfl
    | some victim => exact v.sb_evict victim

theorem count_getblk (v : Volume α) (block : Nat) (reuse : Reuse α) :
    (v.getblk block reuse).1.count = (v.cache block).elim 0 Buffer.count + 1 := by
  rw [getblk]
  split
  · next bh present => rw [present]; rfl
  · next absent => rw [absent]; rfl

theorem unheld_iff : v.Unheld block ↔ (v.cache block).elim 0 Buffer.count = 0 := by
  cases present : v.cache block <;> simp [Unheld, present]

section Allocation

variable [Zero α]

theorem clearNew_of_unheld (unheld : v.Unheld block) (reuse : Reuse α) : ∃ v',
    v.clearNew block reuse = .ok (block, v') ∧ v'.sb = v.sb ∧ v'.cache block = some ⟨0, true, true, 0⟩ := by
  have one : (v.getblk block reuse).1.count = 1 := by
    rw [count_getblk, unheld_iff.mp unheld]
  refine ⟨(v.getblk block reuse).2.put block (some (v.getblk block reuse).1.clearBlock.brelse), ?_, ?_, ?_⟩
  · simp [clearNew, one]
  · exact v.sb_getblk block reuse
  · simp [Buffer.clearBlock, Buffer.brelse, one]

theorem clearNew_of_held (held : ¬v.Unheld block) (reuse : Reuse α) :
    v.clearNew block reuse = .error .countNotOne := by
  have more : (v.getblk block reuse).1.count ≠ 1 := by
    rw [count_getblk]
    intro one
    exact held (unheld_iff.mpr (by omega))
  simp [clearNew, more]

theorem newBlock_of_first (first : IsFirstClear v.sb.zmap n) (reuse : Reuse α) : ∃ sb',
    v.sb.ChangesZone n true sb' ∧ v.newBlock reuse =
      if v.sb.nzones ≤ v.sb.zoneOf n then .ok (0, { v with sb := sb' })
      else { v with sb := sb' }.clearNew (v.sb.zoneOf n) reuse := by
  obtain ⟨bh, slot, clear, found⟩ := first.scan
  have number : n % 8192 + n / 8192 * 8192 = n := by omega
  refine ⟨v.sb.setZmap (n / 8192) ⟨BitWords.setBit bh.data (n % 8192), true⟩, ⟨.set slot true, rfl⟩, ?_⟩
  rw [newBlock, found]
  simp only [clear, SuperBlock.zoneOf, number, SuperBlock.setZmap, Bool.false_eq_true, ↓reduceIte]
  rfl

theorem newBlock_of_full (full : ∀ m < 8192 * MAP_SLOTS, marked v.sb.zmap m = true) (reuse : Reuse α) :
    v.newBlock reuse = .ok (0, v) := by
  rw [newBlock, scan_of_full full]

end Allocation

theorem dropBuffer_of_unheld (unheld : v.Unheld block) :
    ∃ v', v.dropBuffer block = some v' ∧ v'.sb = v.sb ∧ v'.Dropped block := by
  rw [dropBuffer]
  cases present : v.cache block with
  | none => exact ⟨v, rfl, rfl, fun bh found => absurd (present.symm.trans found) (by simp)⟩
  | some bh =>
    have zero := unheld bh present
    have few : ¬bh.count + 1 > 1 := by omega
    refine ⟨_, if_neg few, rfl, fun bh' found => ?_⟩
    rw [cache_put_self, Option.some.injEq] at found
    subst found
    exact ⟨zero, rfl, rfl⟩

theorem freeBlock_of_unheld (zone : v.sb.firstdatazone ≤ block ∧ block < v.sb.nzones) (unheld : v.Unheld block)
    (loaded : (v.sb.zmap (v.sb.bitOf block / 8192)).isSome) : ∃ v',
      v.freeBlock block = .ok (1, !marked v.sb.zmap (v.sb.bitOf block), v') ∧
      v.sb.ChangesZone (v.sb.bitOf block) false v'.sb ∧ v'.Dropped block := by
  obtain ⟨bh, slot⟩ := Option.isSome_iff_exists.mp loaded
  have inside : ¬(block < v.sb.firstdatazone ∨ v.sb.nzones ≤ block) := by omega
  have bits : marked v.sb.zmap (v.sb.bitOf block) = BitWords.bit bh.data (v.sb.bitOf block % 8192) := by
    rw [marked, slot]
    rfl
  obtain ⟨dropped, forgets, sameSb, isDropped⟩ := dropBuffer_of_unheld unheld
  let cleared : MapBlock := ⟨BitWords.clearBit bh.data (v.sb.bitOf block % 8192), true⟩
  refine ⟨{ dropped with sb := v.sb.setZmap (v.sb.bitOf block / 8192) cleared }, ?_, ⟨.clear slot true, rfl⟩, isDropped⟩
  have number : block + 1 - v.sb.firstdatazone = v.sb.bitOf block := rfl
  simp only [freeBlock, inside, forgets, sameSb, number, slot, bits, ↓reduceIte, cleared]

theorem freeBlock_of_held (zone : v.sb.firstdatazone ≤ block ∧ block < v.sb.nzones) (held : ¬v.Unheld block) :
    v.freeBlock block = .ok (0, false, v) := by
  have inside : ¬(block < v.sb.firstdatazone ∨ v.sb.nzones ≤ block) := by omega
  cases present : v.cache block with
  | none => exact absurd (unheld_iff.mpr (by rw [present]; rfl)) held
  | some bh =>
    have more : bh.count ≠ 0 := fun zero => held (unheld_iff.mpr (by rw [present]; exact zero))
    have refused : v.dropBuffer block = none := by
      simp only [dropBuffer, present, ite_eq_left_iff]
      intro few
      exact absurd few (by omega)
    simp only [freeBlock, inside, refused, ↓reduceIte]

end Volume

namespace SuperBlock.Formatted

variable {sb : SuperBlock} {z n block : Nat}

theorem loaded_bitOf (formatted : sb.Formatted z) (zone : sb.firstdatazone ≤ block ∧ block < sb.nzones) :
    (sb.zmap (sb.bitOf block / 8192)).isSome := by
  have room := formatted.zones
  exact (formatted.loaded _).mpr (by rw [bitOf]; omega)

theorem zoneOf_bitOf (zone : sb.firstdatazone ≤ block) : sb.zoneOf (sb.bitOf block) = block := by
  rw [zoneOf, bitOf]
  omega

theorem free_zoneOf (formatted : sb.Formatted z) (clear : marked sb.zmap n = false) :
    sb.Free (sb.zoneOf n) ∧ sb.bitOf (sb.zoneOf n) = n := by
  have notFirst : n ≠ 0 := by
    rintro rfl
    exact absurd (formatted.first.symm.trans clear) (by simp)
  obtain ⟨bh, slot, -⟩ := exists_slot clear
  have inside := (formatted.loaded (n / 8192)).mp (by rw [slot]; rfl)
  have same : sb.bitOf (sb.zoneOf n) = n := by
    rw [bitOf, zoneOf]
    omega
  refine ⟨⟨by rw [zoneOf]; omega, ?_, same.symm ▸ clear⟩, same⟩
  by_contra past
  exact absurd ((formatted.past n (by omega) (by omega)).symm.trans clear) (by simp)

theorem isFirstClear (formatted : sb.Formatted z) (least : IsLeast { b | sb.Free b } block) :
    IsFirstClear sb.zmap (sb.bitOf block) := by
  obtain ⟨free, lower⟩ := least
  refine ⟨?_, free.clear, fun m before => ?_⟩
  · have slots := formatted.slots
    have room := formatted.zones
    have last := free.last
    have first := free.first
    rw [bitOf]
    omega
  · by_contra unset
    have clear : marked sb.zmap m = false := by simpa using unset
    obtain ⟨isFree, same⟩ := formatted.free_zoneOf clear
    have notBefore : block ≤ sb.zoneOf m := lower isFree
    have first := free.first
    rw [bitOf] at before same
    omega

theorem full (formatted : sb.Formatted z) (nothing : ∀ b, ¬sb.Free b) (m : Nat) : marked sb.zmap m = true := by
  by_contra unset
  exact nothing _ (formatted.free_zoneOf (by simpa using unset)).1

end SuperBlock.Formatted

/-! ## The first free zone -/

namespace Volume

variable {α : Type} [Zero α] {v : Volume α} {z : Nat}

theorem newBlock_of_least (formatted : v.sb.Formatted z) {block : Nat} (least : IsLeast { b | v.sb.Free b } block)
    (reuse : Reuse α) : ∃ sb', v.sb.ChangesZone (v.sb.bitOf block) true sb' ∧
      v.newBlock reuse = { v with sb := sb' }.clearNew block reuse := by
  obtain ⟨sb', changes, result⟩ := newBlock_of_first (formatted.isFirstClear least) reuse
  have onDevice : ¬v.sb.nzones ≤ block := Nat.not_le.mpr least.1.last
  rw [SuperBlock.Formatted.zoneOf_bitOf least.1.first, if_neg onDevice] at result
  exact ⟨sb', changes, result⟩

/-- `new_block` gives away the first free zone, cleared, if nobody holds its buffer; and
`free_block` undoes that in the zone map. -/
theorem first_free_zone (v : Volume α) {z : Nat} (formatted : v.sb.Formatted z) (reuse : Reuse α) :
    (∀ block, IsLeast { b | v.sb.Free b } block → v.Unheld block → ∃ v',
      v.newBlock reuse = .ok (block, v') ∧ v.sb.ChangesZone (v.sb.bitOf block) true v'.sb ∧
      v'.cache block = some ⟨0, true, true, 0⟩) ∧
    (∀ block, IsLeast { b | v.sb.Free b } block → ¬v.Unheld block → v.newBlock reuse = .error .countNotOne) ∧
    ((∀ block, ¬v.sb.Free block) → v.newBlock reuse = .ok (0, v)) ∧
    ∀ block, v.sb.firstdatazone ≤ block → block < v.sb.nzones → marked v.sb.zmap (v.sb.bitOf block) = true →
      v.Unheld block → ∃ v',
        v.freeBlock block = .ok (1, false, v') ∧ v.sb.ChangesZone (v.sb.bitOf block) false v'.sb ∧
        v'.Dropped block := by
  refine ⟨fun block least unheld => ?_, fun block least held => ?_, fun nothing => ?_,
    fun block first last allocated unheld => ?_⟩
  · obtain ⟨sb', changes, result⟩ := newBlock_of_least formatted least reuse
    have unheld' : { v with sb := sb' }.Unheld block := unheld
    obtain ⟨v', cleared, sameSb, cached⟩ := clearNew_of_unheld unheld' reuse
    exact ⟨v', result.trans cleared, sameSb ▸ changes, cached⟩
  · obtain ⟨sb', -, result⟩ := newBlock_of_least formatted least reuse
    have held' : ¬{ v with sb := sb' }.Unheld block := held
    exact result.trans (clearNew_of_held held' reuse)
  · exact newBlock_of_full (fun m _ => formatted.full nothing m) reuse
  · obtain ⟨v', freed, changes, dropped⟩ := freeBlock_of_unheld ⟨first, last⟩ unheld
      (formatted.loaded_bitOf ⟨first, last⟩)
    rw [allocated] at freed
    exact ⟨v', freed, changes, dropped⟩

/-- A device with the zones 3 and 4, one clear bit and `count` references to the buffer of
zone 3. -/
def small (count free : Nat) : Volume Nat where
  sb :=
    { ninodes := 1
      nzones := 5
      firstdatazone := 3
      imap := fun _ => none
      zmap := fun i => if i = 0 then some ⟨BitWords.clearBit (fun _ => BitVec.allOnes 32) free, false⟩ else none }
  cache := fun block => if block = 3 then some ⟨count, true, false, 7⟩ else none
  disk := fun _ => 7

theorem marked_small (count free n : Nat) (inside : n < 8192) :
    marked (small count free).sb.zmap n = decide (n ≠ free) := by
  have slot : (small count free).sb.zmap 0 = some ⟨BitWords.clearBit (fun _ => BitVec.allOnes 32) free, false⟩ := rfl
  have bits := marked_of_slot slot inside
  have place : n % 32 < 32 := Nat.mod_lt n (by decide)
  have ones : BitWords.bit (fun _ => BitVec.allOnes 32) n = true := by
    rw [BitWords.bit, BitVec.getLsbD_allOnes, decide_eq_true place]
  rw [Nat.mul_zero, Nat.zero_add] at bits
  rw [bits, BitWords.bit_clearBit (by decide), ones, Bool.and_true, decide_not]

theorem small_formatted (count : Nat) : (small count 1).sb.Formatted 1 := by
  refine ⟨Nat.le_of_ble_eq_true rfl, fun i => ?_, ?_, fun n inside past => ?_, Nat.le_of_ble_eq_true rfl⟩
  · simp [small]
  · rw [marked_small count 1 0 (by decide)]
    rfl
  · rw [marked_small count 1 n (by omega)]
    have after : 5 ≤ n + 3 - 1 := past
    simp
    omega

theorem small_least (count : Nat) : IsLeast { b | (small count 1).sb.Free b } 3 := by
  refine ⟨⟨Nat.le_refl 3, Nat.lt_succ_of_lt (Nat.lt_succ_self 3), ?_⟩, fun b free => free.first⟩
  exact marked_small count 1 1 (by decide)

theorem first_free_zone_small :
    (∃ v', (small 0 1).newBlock ⟨none, 9⟩ = .ok (3, v') ∧ v'.cache 3 = some ⟨0, true, true, 0⟩) ∧
      ∃ v', (small 0 1).freeBlock 4 = .ok (1, false, v') := by
  obtain ⟨gives, -, -, frees⟩ := first_free_zone (small 0 1) (small_formatted 0) ⟨none, 9⟩
  have unheld (block : Nat) : (small 0 1).Unheld block := by
    intro bh present
    simp only [small, Option.ite_none_right_eq_some, Option.some.injEq] at present
    rw [← present.2]
  obtain ⟨v', given, -, cached⟩ := gives 3 (small_least 0) (unheld 3)
  obtain ⟨v'', freed, -⟩ := frees 4 (by decide) (by decide) (marked_small 0 1 2 (by decide)) (unheld 4)
  exact ⟨⟨v', given, cached⟩, v'', freed⟩

/-- Somebody reads a free zone through the block device. -/
theorem held_zone_panics :
    ¬∀ (v : Volume Nat) (z block : Nat) (reuse : Reuse Nat), v.sb.Formatted z → IsLeast { b | v.sb.Free b } block →
      ∃ v', v.newBlock reuse = .ok (block, v') := by
  intro returns
  obtain ⟨v', given⟩ := returns (small 1 1) 1 3 ⟨none, 9⟩ (small_formatted 1) (small_least 1)
  have held : ¬(small 1 1).Unheld 3 := fun unheld => absurd (unheld _ rfl) (by decide)
  obtain ⟨sb', -, result⟩ := newBlock_of_least (small_formatted 1) (small_least 1) ⟨none, 9⟩
  have held' : ¬{ small 1 1 with sb := sb' }.Unheld 3 := held
  cases given.symm.trans (result.trans (clearNew_of_held held' _))

end Volume

end Linux012.Fs.Bitmap

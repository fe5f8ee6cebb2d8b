import Linux012.Fs.BlockContents
import Linux012.Lib.BlockTree

/-! The zones of an inode as `_bmap` reads and extends them: `fs/inode.c`. -/

set_option autoImplicit false

namespace Linux012.Fs.ZoneTree

open BlockTree Bitmap

abbrev Index := Fin 512 → Nat

instance zonesNeZero : NeZero 9 := ⟨by decide⟩

structure State where
  volume : Volume Index
  zone : Fin 9 → Nat
  dirt : Bool
  ctime : Nat
  /-- what the coming calls of `getblk` find on the free list -/
  free : Nat → Reuse Index

namespace State

/-- `if (create && !i_zone[k]) if (i_zone[k]=new_block(..))` and what follows it. -/
def takeZone (s : State) (create : Bool) (now : Nat) (k : Fin 9) : Except Panic State :=
  if create && s.zone k = 0 then
    (s.volume.newBlock (s.free 0)).map fun made =>
      { volume := made.2
        zone := Function.update s.zone k made.1
        dirt := s.dirt || made.1 ≠ 0
        ctime := if made.1 ≠ 0 then now else s.ctime
        free := fun i => s.free (i + 1) }
  else .ok s

/-- An entry of the index block `z`, between `bread` and `brelse`. -/
def takeEntry (s : State) (create : Bool) (z : Nat) (j : Fin 512) : Except Panic (Nat × State) :=
  let got := s.volume.bread z (s.free 0)
  let i := got.1.data j
  if create && i = 0 then
    (got.2.newBlock (s.free 1)).map fun made =>
      let v := if made.1 ≠ 0 then made.2.store z fun data => Function.update data j made.1 else made.2
      (made.1, { s with volume := v.brelse z, free := fun i => s.free (i + 2) })
  else .ok (i, { s with volume := got.2.brelse z, free := fun i => s.free (i + 1) })

abbrev blocks : Nat := 7 + 512 + 512 * 512

theorem double_lt (block : Fin blocks) : (block.val - 7 - 512) / 512 < 512 := by
  have inside : block.val < 7 + 512 + 512 * 512 := block.isLt
  omega

/-- `_bmap`, for a block that it accepts. -/
def bmapAt (s : State) (create : Bool) (now : Nat) (block : Fin blocks) : Except Panic (Nat × State) :=
  if below : block.val < 7 then
    (s.takeZone create now ⟨block, by omega⟩).map fun s => (s.zone ⟨block, by omega⟩, s)
  else if below : block.val - 7 < 512 then
    (s.takeZone create now 7).bind fun s =>
      if s.zone 7 = 0 then .ok (0, s) else s.takeEntry create (s.zone 7) ⟨block - 7, below⟩
  else
    (s.takeZone create now 8).bind fun s =>
      if s.zone 8 = 0 then .ok (0, s)
      else
        (s.takeEntry create (s.zone 8) ⟨(block - 7 - 512) / 512, double_lt block⟩).bind fun got =>
          if got.1 = 0 then .ok (0, got.2)
          else got.2.takeEntry create got.1 ⟨(block - 7 - 512) % 512, Nat.mod_lt _ (by decide)⟩

theorem toNat_lt_blocks {block : Int} (nonneg : ¬block < 0) (small : ¬blocks ≤ block) : block.toNat < blocks := by
  omega

def bmapWith (s : State) (create : Bool) (now : Nat) (block : Int) : Except Panic (Nat × State) :=
  if negative : block < 0 then .error .bmapNegative
  else if big : blocks ≤ block then .error .bmapTooBig
  else s.bmapAt create now ⟨block.toNat, toNat_lt_blocks negative big⟩

def bmap (s : State) (now : Nat) (block : Int) : Except Panic (Nat × State) := s.bmapWith false now block

def createBlock (s : State) (now : Nat) (block : Int) : Except Panic (Nat × State) := s.bmapWith true now block

/-! ## The tree -/

def depth (k : Fin 9) : Nat := if k.val < 7 then 0 else k.val - 6

def place (block : Fin blocks) : Fin 9 × List (Fin 512) :=
  if below : block.val < 7 then (⟨block, by omega⟩, [])
  else if below : block.val - 7 < 512 then (7, [⟨block - 7, below⟩])
  else (8, [⟨(block - 7 - 512) / 512, double_lt block⟩, ⟨(block - 7 - 512) % 512, Nat.mod_lt _ (by decide)⟩])

def value (s : State) (k : Fin 9) (path : List (Fin 512)) : Nat := walk s.volume.contents (s.zone k) path

structure Sharing (s : State) : Prop where
  distinct : Distinct depth s.zone s.volume.contents
  marked : ∀ k path, path.length ≤ depth k → s.value k path ≠ 0 →
    marked s.volume.sb.zmap (s.volume.sb.bitOf (s.value k path)) = true

theorem length_place (block : Fin blocks) : (place block).2.length = depth (place block).1 := by
  unfold place
  split
  · next below => simp [depth, below]
  · split <;> rfl

theorem place_injective {a b : Fin blocks} (same : place a = place b) : a = b := by
  unfold place at same
  split at same
  · split at same
    · simp only [Prod.mk.injEq, Fin.mk.injEq, and_true] at same
      omega
    · split at same <;> simp at same
  · split at same
    · split at same
      · simp at same
      · split at same
        · simp only [Prod.mk.injEq, List.cons.injEq, Fin.mk.injEq, and_true, true_and] at same
          omega
        · simp at same
    · split at same
      · simp at same
      · split at same
        · simp at same
        · simp only [Prod.mk.injEq, List.cons.injEq, Fin.mk.injEq, and_true, true_and] at same
          omega

end State

end Linux012.Fs.ZoneTree

import Linux012.Fs.FilePositions
import Linux012.Mm.DemandLoading

/-! What a page contains after `do_no_page`. -/

set_option autoImplicit false

namespace Linux012.Mm.DemandLoading

open Function
open UInt32 (le_iff_toNat_le toNat_sub toNat_add not_lt not_le)

open VerifyArea (LOW_MEM PAGING_PAGES MAP_NR getFreePage lastFree dirOf nrOf)
open Fs (Bitmap.Panic Bitmap.Volume Bitmap.Buffer Bitmap.Reuse Exec.Header Exec.smallHeader)
open Fs.ZoneTree (Index)
open Fs.ZoneTree.State (blocks place)
open Fs.EntryBlocks (bytes)
open Fs.ReadWrite.State (descend mapBlock fails)

namespace System

/-! ## What it is for -/

def zoneOf (s : System) (i block : Nat) : Nat :=
  if inside : block < blocks then (s.tree i).value (place ⟨block, inside⟩).1 (place ⟨block, inside⟩).2 else 0

def blockByte (s : System) (i o : Nat) : UInt8 :=
  let z := s.zoneOf i (o / 1024)
  if z = 0 then 0 else bytes ((s.volume (s.inode i).dev).contents z) (o % 1024)

def fileByte (s : System) (i o : Nat) : Option UInt8 :=
  if o < (s.inode i).size.toNat then some (s.blockByte i o) else none

def Readable (s : System) (i block : Nat) : Prop :=
  ∀ inside : block < blocks, ∀ front, front <+: (place ⟨block, inside⟩).2 →
    (s.tree i).value (place ⟨block, inside⟩).1 front ≠ 0 →
    s.bad (s.inode i).dev ((s.tree i).value (place ⟨block, inside⟩).1 front) = false

def offset (s : System) (address : UInt32) : UInt32 := (address &&& 0xfffff000) - s.current.startCode

/-- A fault of the current task at an address whose entry is empty. There are free frames, no task
to share with and no read errors. -/
structure Faults (s : System) (address : UInt32) : Prop where
  inside : address - s.current.startCode ≤ TASK_SIZE
  empty : s.memory.pgDir (dirOf address) &&& 1 ≠ 0 → s.memory.table (dirOf address) (nrOf address) = 0
  frames : ∃ nr < PAGING_PAGES, s.memory.memMap nr = 0 ∧
    (s.memory.pgDir (dirOf address) &&& 1 = 0 → ∃ nr' < PAGING_PAGES, nr' ≠ nr ∧ s.memory.memMap nr' = 0)
  unshared : ∀ i block, s.source (s.offset address) = (some i, block) → sharePage s i (s.offset address) = .no
  readable : ∀ i block, s.source (s.offset address) = (some i, block) → ∀ k < 4, s.Readable i (block.toNat + k)
  coherent : ∀ dev, (s.volume dev).Coherent

/-- The executable passed the checks of `do_execve`, and its text and data are in the file. -/
structure Loaded (s : System) (ex : Exec.Header) (e : Nat) : Prop where
  executable : s.current.executable = some e
  accepted : ex.accepted (s.inode e).size = true
  inside : 1024 + ex.text.toNat + ex.data.toNat ≤ (s.inode e).size.toNat
  endData : s.current.endData = ex.sizes.endData

structure Shows (s : System) (e : Nat) (tmp : UInt32) (page : Page) : Prop where
  text : tmp < s.current.endData → ∀ k < 4096,
    if tmp.toNat + k < s.current.endData.toNat then s.fileByte e (1024 + tmp.toNat + k) = some (page k) else page k = 0
  library : LIBRARY_OFFSET ≤ tmp → ∀ l, s.current.library = some l → ∀ k < 4096, ∀ byte,
    s.fileByte l (1024 + (tmp.toNat - LIBRARY_OFFSET.toNat) + k) = some byte → page k = byte
  zeros : s.current.endData ≤ tmp → (tmp < LIBRARY_OFFSET ∨ s.current.library = none) → ∀ k < 4096, page k = 0

def libraryByte (s : System) (tmp : UInt32) (k : Nat) : UInt8 :=
  s.current.library.elim 0 fun l => s.blockByte l (1024 + (tmp.toNat - LIBRARY_OFFSET.toNat) + k)

/-- A page of text or data in the place of the library has what the library has there. -/
structure Agrees (s : System) (e : Nat) (tmp : UInt32) : Prop where
  text : LIBRARY_OFFSET ≤ tmp → ∀ k < 4096, tmp.toNat + k < s.current.endData.toNat →
    s.fileByte e (1024 + tmp.toNat + k) = some (s.libraryByte tmp k)
  rest : LIBRARY_OFFSET ≤ tmp → tmp < s.current.endData → ∀ l, s.current.library = some l → ∀ k < 4096,
    s.current.endData.toNat ≤ tmp.toNat + k → ∀ byte,
    s.fileByte l (1024 + (tmp.toNat - LIBRARY_OFFSET.toNat) + k) = some byte → byte = 0

/-! ## Reading -/

structure SameFiles (s s' : System) : Prop where
  inode : s'.inode = s.inode
  bad : s'.bad = s.bad
  current : s'.current = s.current
  contents : ∀ dev, (s'.volume dev).contents = (s.volume dev).contents
  coherent : ∀ dev, (s'.volume dev).Coherent

variable {s s' s'' : System} {i dev : Nat}

namespace SameFiles

theorem refl (coherent : ∀ dev, (s.volume dev).Coherent) : s.SameFiles s :=
  ⟨rfl, rfl, rfl, fun _ => rfl, coherent⟩

theorem trans (first : s.SameFiles s') (second : s'.SameFiles s'') : s.SameFiles s'' :=
  ⟨second.inode.trans first.inode, second.bad.trans first.bad, second.current.trans first.current,
    fun dev => (second.contents dev).trans (first.contents dev), second.coherent⟩

theorem setVolume (coherent : ∀ dev, (s.volume dev).Coherent) {v : Bitmap.Volume Index}
    (same : v.contents = (s.volume dev).contents) (suits : v.Coherent) (free : Nat → Bitmap.Reuse Index) :
    s.SameFiles { s.setVolume dev v with free := free } := by
  refine ⟨rfl, rfl, rfl, fun dev' => ?_, fun dev' => ?_⟩
  · by_cases here : dev' = dev
    · subst here
      simp only [System.setVolume, update_self, same]
    · simp only [System.setVolume, update_of_ne here]
  · by_cases here : dev' = dev
    · subst here
      simpa only [System.setVolume, update_self] using suits
    · simpa only [System.setVolume, update_of_ne here] using coherent dev'

theorem setMemory (same : s.SameFiles s') (m : VerifyArea.Memory) : s.SameFiles { s' with memory := m } :=
  ⟨same.inode, same.bad, same.current, same.contents, same.coherent⟩

theorem value (same : s.SameFiles s') (i : Nat) (k : Fin 9) (path : List (Fin 512)) :
    (s'.tree i).value k path = (s.tree i).value k path := by
  simp only [Fs.ZoneTree.State.value, tree, same.inode, same.contents]

theorem zoneOf (same : s.SameFiles s') (i block : Nat) : s'.zoneOf i block = s.zoneOf i block := by
  simp only [System.zoneOf, same.value]

theorem readable (same : s.SameFiles s') {block : Nat} (readable : s.Readable i block) : s'.Readable i block := by
  intro inside front isFront nonzero
  rw [same.value] at nonzero ⊢
  rw [same.bad, same.inode]
  exact readable inside front isFront nonzero

end SameFiles

theorem descend_reads {bad : Nat → Bool} {path : List (Fin 512)} {z : Nat} {t : Fs.ZoneTree.State}
    (coherent : t.volume.Coherent)
    (readable : ∀ front, front <+: path → BlockTree.walk t.volume.contents z front ≠ 0 →
      bad (BlockTree.walk t.volume.contents z front) = false) :
    ∃ t', descend bad false path z t = .ok (BlockTree.walk t.volume.contents z path, t') ∧
      t'.volume.Coherent ∧ t'.volume.contents = t.volume.contents := by
  induction path generalizing z t with
  | nil => exact ⟨t, rfl, coherent, rfl⟩
  | cons j path ih =>
    rw [descend]
    by_cases none : z = 0
    · refine ⟨t, ?_, coherent, rfl⟩
      rw [if_pos none, none, BlockTree.walk_zero]
    · have good : fails bad t z = false := by
        have isGood : bad z = false := readable [] List.nil_prefix none
        rw [fails, isGood, Bool.false_and]
      obtain ⟨read, -, data, -⟩ := Bitmap.Volume.bread_spec coherent z (t.free 0)
      have same : ((t.volume.bread z (t.free 0)).2.brelse z).contents = t.volume.contents := by
        funext b
        rw [Bitmap.Volume.contents_brelse, Bitmap.Volume.contents_bread coherent]
      have entry : t.takeEntry false z j = .ok (t.volume.contents z j,
          { t with volume := (t.volume.bread z (t.free 0)).2.brelse z, free := fun i => t.free (i + 1) }) := by
        rw [← data]
        rfl
      rw [if_neg none, good, if_neg Bool.false_ne_true, entry, BlockTree.walk_cons none]
      have later : ∀ front, front <+: path → BlockTree.walk t.volume.contents (t.volume.contents z j) front ≠ 0 →
          bad (BlockTree.walk t.volume.contents (t.volume.contents z j) front) = false := by
        intro front isFront
        have longer := readable (j :: front) (List.cons_prefix_cons.mpr ⟨rfl, isFront⟩)
        rwa [BlockTree.walk_cons none] at longer
      obtain ⟨t', done, coherent', contents⟩ := ih (t := { t with
          volume := (t.volume.bread z (t.free 0)).2.brelse z, free := fun i => t.free (i + 1) })
        (Bitmap.Volume.coherent_brelse read.coherent z) (by rwa [same])
      rw [same] at done contents
      exact ⟨t', done, coherent', contents⟩

theorem bmap_spec (coherent : ∀ dev, (s.volume dev).Coherent) {block : Nat} (inside : block < blocks)
    (readable : s.Readable i block) : ∃ s', s.bmap i block = .ok (s.zoneOf i block, s') ∧ s.SameFiles s' := by
  obtain ⟨t, done, coherent', contents⟩ := descend_reads (t := s.tree i) (coherent (s.inode i).dev) (readable inside)
  refine ⟨_, ?_, .setVolume coherent contents coherent' t.free⟩
  have mapped : mapBlock (s.bad (s.inode i).dev) false 0 block (s.tree i) = .ok (s.zoneOf i block, t) := by
    rw [mapBlock, dif_neg (by omega), dif_neg (by omega), zoneOf, dif_pos inside]
    exact done
  rw [bmap, mapped]
  rfl

theorem bmaps_spec (coherent : ∀ dev, (s.volume dev).Coherent) {n block : Nat} (inside : block + n ≤ blocks)
    (readable : ∀ k < n, s.Readable i (block + k)) :
    ∃ s', bmaps i n block s = .ok ((List.range n).map fun k => s.zoneOf i (block + k), s') ∧ s.SameFiles s' := by
  induction n generalizing block s with
  | zero => exact ⟨s, rfl, .refl coherent⟩
  | succ n ih =>
    have next (k : Nat) : block + 1 + k = block + (k + 1) := by omega
    have later : ∀ k < n, s.Readable i (block + 1 + k) := by
      intro k below
      rw [next]
      exact readable (k + 1) (by omega)
    obtain ⟨s₁, first, same⟩ := bmap_spec coherent (by omega) (readable 0 (by omega))
    obtain ⟨s₂, rest, same'⟩ := ih same.coherent (by omega) fun k below => same.readable (later k below)
    refine ⟨s₂, ?_, same.trans same'⟩
    rw [Nat.add_zero] at first
    rw [bmaps, first]
    change (bmaps i n ((block + 1 : Nat) : Int) s₁).map _ = _
    rw [rest, List.range_succ_eq_map, List.map_cons, List.map_map]
    simp only [next, same.zoneOf]
    rfl

/-! ## `bread_page` -/

def Held (s : System) (dev b : Nat) : Prop := ∃ bh, (s.volume dev).Holds b bh

theorem request_spec (coherent : ∀ dev, (s.volume dev).Coherent) {b : Nat} (good : s.bad dev b = false) :
    s.SameFiles (s.request dev b) ∧ (s.request dev b).Held dev b ∧
      ∀ b', s.Held dev b' → (s.request dev b).Held dev b' := by
  obtain ⟨keeps, holds, -⟩ := Bitmap.Volume.bread_spec (coherent dev) b (s.free 0)
  have isRead : s.request dev b =
      { s.setVolume dev ((s.volume dev).bread b (s.free 0)).2 with free := fun i => s.free (i + 1) } := by
    simp only [request, good, Bool.false_and, Bool.false_eq_true, ↓reduceIte]
  have volume : (s.request dev b).volume dev = ((s.volume dev).bread b (s.free 0)).2 := by
    rw [isRead]
    exact update_self ..
  refine ⟨?_, ⟨_, volume ▸ holds⟩, fun b' ⟨bh, held⟩ => ?_⟩
  · rw [isRead]
    exact .setVolume coherent (funext (Bitmap.Volume.contents_bread (coherent dev) b _)) keeps.coherent _
  · by_cases here : b' = b
    · subst here
      exact ⟨_, volume ▸ holds⟩
    · exact ⟨bh, volume ▸ ⟨keeps.held b' bh here held.cached held.held, held.held, held.uptodate⟩⟩

variable {bs : List Nat}

theorem requests_spec (coherent : ∀ dev, (s.volume dev).Coherent) (good : ∀ b ∈ bs, b ≠ 0 → s.bad dev b = false) :
    s.SameFiles (requests dev bs s) ∧ (∀ b, s.Held dev b → (requests dev bs s).Held dev b) ∧
      ∀ b ∈ bs, b ≠ 0 → (requests dev bs s).Held dev b := by
  induction bs generalizing s with
  | nil => exact ⟨.refl coherent, fun b held => held, fun b member => absurd member List.not_mem_nil⟩
  | cons b bs ih =>
    rw [requests]
    by_cases hole : b = 0
    · rw [if_pos hole]
      obtain ⟨same, kept, held⟩ := ih coherent fun b' member => good b' (List.mem_cons_of_mem b member)
      refine ⟨same, kept, fun b' member nonzero => ?_⟩
      rcases List.mem_cons.mp member with isHole | later
      · exact absurd (isHole.trans hole) nonzero
      · exact held b' later nonzero
    · rw [if_neg hole]
      obtain ⟨same, isHeld, kept⟩ := request_spec coherent (good b List.mem_cons_self hole)
      obtain ⟨same', kept', held⟩ := ih (s := s.request dev b) same.coherent fun b' member nonzero => by
        rw [same.bad]
        exact good b' (List.mem_cons_of_mem b member) nonzero
      refine ⟨same.trans same', fun b' before => kept' b' (kept b' before), fun b' member nonzero => ?_⟩
      rcases List.mem_cons.mp member with rfl | later
      · exact kept' b' isHeld
      · exact held b' later nonzero

theorem uptodate_brelse {v : Bitmap.Volume Index} {b : Nat} {bh : Bitmap.Buffer Index} (cached : v.cache b = some bh)
    (uptodate : bh.uptodate = true) (released : Nat) :
    ∃ bh', (v.brelse released).cache b = some bh' ∧ bh'.uptodate = true := by
  by_cases here : b = released
  · subst here
    refine ⟨bh.brelse, ?_, uptodate⟩
    rw [Bitmap.Volume.brelse, cached]
    exact v.cache_put_self ..
  · refine ⟨bh, ?_, uptodate⟩
    rw [Bitmap.Volume.brelse, v.cache_put_of_ne _ here, cached]

theorem copies_spec (coherent : ∀ dev, (s.volume dev).Coherent) (address : Nat) (page : Page)
    (ready : ∀ b ∈ bs, b ≠ 0 → ∃ bh, (s.volume dev).cache b = some bh ∧ bh.uptodate = true) (k : Nat) :
    (copies dev bs address page s).1 k =
      if k < address ∨ bs.getD ((k - address) / 1024) 0 = 0 then page k
      else bytes ((s.volume dev).contents (bs.getD ((k - address) / 1024) 0)) ((k - address) % 1024) := by
  induction bs generalizing s address page with
  | nil => exact (if_pos (.inr rfl)).symm
  | cons b bs ih =>
    have here (inside : ¬k < address) (near : k < address + 1024) : (k - address) / 1024 = 0 := by omega
    have there (far : ¬k < address + 1024) : (k - address) / 1024 = (k - (address + 1024)) / 1024 + 1 := by omega
    have mod (far : ¬k < address + 1024) : (k - address) % 1024 = (k - (address + 1024)) % 1024 := by omega
    rw [copies]
    by_cases hole : b = 0
    · rw [if_pos hole, ih coherent _ _ fun b' member => ready b' (List.mem_cons_of_mem b member)]
      by_cases near : k < address + 1024
      · rw [if_pos (.inl near), if_pos]
        by_cases inside : k < address
        · exact .inl inside
        · rw [here inside near]
          exact .inr hole
      · rw [there near, mod near, List.getD_cons_succ]
        have beyond : ¬k < address := by omega
        simp only [near, beyond, false_or]
    · obtain ⟨bh, cached, uptodate⟩ := ready b List.mem_cons_self hole
      have data : bh.data = (s.volume dev).contents b := (Bitmap.Volume.contents_of_cached cached uptodate).symm
      have same : s.SameFiles (s.setVolume dev ((s.volume dev).brelse b)) :=
        .setVolume coherent (funext (Bitmap.Volume.contents_brelse _ b)) (Bitmap.Volume.coherent_brelse (coherent dev) b)
          s.free
      rw [if_neg hole, cached]
      dsimp only
      rw [if_pos uptodate, ih same.coherent _ _ fun b' member nonzero => by
        obtain ⟨bh', cached', uptodate'⟩ := ready b' (List.mem_cons_of_mem b member) nonzero
        simpa only [setVolume, update_self] using uptodate_brelse cached' uptodate' b]
      rw [same.contents, data]
      by_cases near : k < address + 1024
      · rw [if_pos (.inl near), copyBlk]
        by_cases inside : k < address
        · rw [if_neg (by omega), if_pos (.inl inside)]
        · have isFirst := here inside near
          have rest : (k - address) % 1024 = k - address := by omega
          rw [if_pos ⟨by omega, near⟩, isFirst, List.getD_cons_zero, if_neg (by omega), rest]
      · rw [there near, mod near, List.getD_cons_succ]
        have beyond : ¬k < address := by omega
        have outside : copyBlk ((s.volume dev).contents b) address page k = page k :=
          if_neg fun inside => near inside.2
        simp only [near, beyond, false_or, outside]

theorem copies_sameFiles (coherent : ∀ dev, (s.volume dev).Coherent) (bs : List Nat) (address : Nat) (page : Page) :
    s.SameFiles (copies dev bs address page s).2 := by
  induction bs generalizing s address page with
  | nil => exact .refl coherent
  | cons b bs ih =>
    rw [copies]
    split
    · exact ih coherent _ _
    · have same : s.SameFiles (s.setVolume dev ((s.volume dev).brelse b)) :=
        .setVolume coherent (funext (Bitmap.Volume.contents_brelse _ b)) (Bitmap.Volume.coherent_brelse (coherent dev) b)
          s.free
      exact same.trans (ih same.coherent _ _)

theorem breadPage_spec (coherent : ∀ dev, (s.volume dev).Coherent) (page : Page)
    (good : ∀ b ∈ bs, b ≠ 0 → s.bad dev b = false) (k : Nat) :
    (s.breadPage page dev bs).1 k =
      if bs.getD (k / 1024) 0 = 0 then page k
      else bytes ((s.volume dev).contents (bs.getD (k / 1024) 0)) (k % 1024) := by
  obtain ⟨same, -, held⟩ := requests_spec coherent good
  rw [breadPage, copies_spec same.coherent 0 page fun b member nonzero => by
    obtain ⟨bh, holds⟩ := held b member nonzero
    exact ⟨bh, holds.cached, holds.uptodate⟩]
  simp only [Nat.not_lt_zero, false_or, Nat.sub_zero, same.contents]

theorem breadPage_sameFiles (coherent : ∀ dev, (s.volume dev).Coherent) (page : Page)
    (good : ∀ b ∈ bs, b ≠ 0 → s.bad dev b = false) : s.SameFiles (s.breadPage page dev bs).2 := by
  obtain ⟨same, -, -⟩ := requests_spec coherent good
  exact same.trans (copies_sameFiles same.coherent bs 0 page)

/-! ## The end of the page -/

theorem zeroTail_apply {n tmp : Nat} (enough : n ≤ tmp) (page : Page) (k : Nat) :
    zeroTail n tmp page k = if tmp ≤ k + n ∧ k < tmp then 0 else page k := by
  induction n generalizing tmp page with
  | zero =>
    rw [zeroTail, if_neg]
    omega
  | succ n ih =>
    rw [zeroTail, ih (by omega), update_apply]
    by_cases last : k = tmp - 1
    · rw [if_pos last, ite_self, if_pos]
      omega
    · rw [if_neg last]
      have same : tmp - 1 ≤ k + n ∧ k < tmp - 1 ↔ tmp ≤ k + (n + 1) ∧ k < tmp := by omega
      simp only [same]

theorem tail_spec {tmp : UInt32} (small : tmp ≤ TASK_SIZE) {k : Nat} (inside : k < 4096) :
    (s.tail tmp).toInt.toNat ≤ 4096 ∧
      (4096 ≤ k + (s.tail tmp).toInt.toNat ↔ tmp < s.current.endData ∧ s.current.endData.toNat ≤ tmp.toNat + k) := by
  have bound := s.current.endData.toNat_lt
  have small' : tmp.toNat ≤ 0x4000000 := UInt32.le_iff_toNat_le.mp small
  have signed (x : UInt32) : x.toInt32.toInt = if x.toNat < 2 ^ 31 then (x.toNat : Int) else x.toNat - 2 ^ 32 := by
    change x.toBitVec.toInt = _
    rw [BitVec.toInt_eq_toNat_cond]
    change (if 2 * x.toNat < 2 ^ 32 then (x.toNat : Int) else x.toNat - 2 ^ 32) = _
    split <;> split <;> omega
  have difference : (tmp + 4096 - s.current.endData).toNat =
      (2 ^ 32 - s.current.endData.toNat + (tmp.toNat + 4096)) % 2 ^ 32 := by
    rw [toNat_sub, toNat_add]
    change (2 ^ 32 - s.current.endData.toNat + (tmp.toNat + 4096) % 2 ^ 32) % 2 ^ 32 = _
    omega
  have number := signed (tmp + 4096 - s.current.endData)
  rw [difference] at number
  have isTail : (s.tail tmp).toInt =
      if 4095 < (tmp + 4096 - s.current.endData).toInt32.toInt then 0
      else (tmp + 4096 - s.current.endData).toInt32.toInt := by
    simp only [tail, apply_ite Int32.toInt, Int32.lt_iff_toInt_lt]
    rfl
  rw [isTail, UInt32.lt_iff_toNat_lt]
  generalize (tmp + 4096 - s.current.endData).toInt32.toInt = difference at number ⊢
  split at number <;> split <;> omega

theorem loadPage_spec (coherent : ∀ dev, (s.volume dev).Coherent) {block tmp : UInt32} (small : tmp ≤ TASK_SIZE)
    (inside : block.toNat + 4 ≤ blocks) (readable : ∀ k < 4, s.Readable i (block.toNat + k)) {page : Page}
    (zeros : ∀ k, page k = 0) :
    ∃ page' s', s.loadPage i block tmp page = .ok (page', s') ∧ s.SameFiles s' ∧ ∀ k < 4096, page' k =
      if tmp < s.current.endData ∧ s.current.endData.toNat ≤ tmp.toNat + k then 0
      else s.blockByte i (block.toNat * 1024 + k) := by
  obtain ⟨s₁, mapped, same⟩ := bmaps_spec coherent inside readable
  have good : ∀ b ∈ (List.range 4).map fun k => s.zoneOf i (block.toNat + k), b ≠ 0 →
      s₁.bad (s.inode i).dev b = false := by
    intro b member nonzero
    obtain ⟨j, isBelow, rfl⟩ := List.mem_map.mp member
    have small : j < 4 := List.mem_range.mp isBelow
    have within : block.toNat + j < blocks := by omega
    have isZone : s.zoneOf i (block.toNat + j) =
        (s.tree i).value (place ⟨_, within⟩).1 (place ⟨_, within⟩).2 := dif_pos within
    rw [isZone] at nonzero ⊢
    rw [same.bad]
    exact readable j small within _ (List.prefix_refl _) nonzero
  refine ⟨_, _, by rw [loadPage, mapped]; rfl, same.trans (breadPage_sameFiles same.coherent page good),
    fun k below => ?_⟩
  have zone : ((List.range 4).map fun k => s.zoneOf i (block.toNat + k)).getD (k / 1024) 0 =
      s.zoneOf i (block.toNat + k / 1024) := by
    have quarter : k / 1024 < 4 := by omega
    rw [List.getD_eq_getElem?_getD, List.getElem?_map, List.getElem?_range quarter]
    rfl
  obtain ⟨enough, iff⟩ := tail_spec (s := s) small below
  have cut : 4096 ≤ k + (s.tail tmp).toInt.toNat ∧ k < 4096 ↔
      tmp < s.current.endData ∧ s.current.endData.toNat ≤ tmp.toNat + k := by
    rw [iff, and_iff_left below]
  have block' : (block.toNat * 1024 + k) / 1024 = block.toNat + k / 1024 := by omega
  have rest : (block.toNat * 1024 + k) % 1024 = k % 1024 := by omega
  rw [zeroTail_apply enough, breadPage_spec same.coherent page good, zone, same.contents, zeros]
  simp only [cut, blockByte, block', rest]

end System

/-! ## Frames -/

def frame (nr : Nat) : UInt32 := (UInt32.ofNat nr <<< 12) + LOW_MEM

variable {nr : Nat}

theorem toNat_frame (inside : nr < PAGING_PAGES) : (frame nr).toNat = nr * 4096 + 0x100000 := by
  have bound : nr < 3840 := inside
  have number : (UInt32.ofNat nr).toNat = nr := UInt32.toNat_ofNat_of_lt' (by change nr < 2 ^ 32; omega)
  have shifted : (UInt32.ofNat nr <<< 12).toNat = nr * 4096 := by
    rw [UInt32.toNat_shiftLeft, number, Nat.shiftLeft_eq]
    change nr * 2 ^ 12 % 2 ^ 32 = _
    omega
  have low : LOW_MEM.toNat = 0x100000 := rfl
  rw [frame, toNat_add, shifted, low]
  omega

theorem frame_injective {nr' : Nat} (inside : nr < PAGING_PAGES) (inside' : nr' < PAGING_PAGES)
    (same : frame nr = frame nr') : nr = nr' := by
  have numbers := congrArg UInt32.toNat same
  rw [toNat_frame inside, toNat_frame inside'] at numbers
  omega

theorem frame_or_seven (inside : nr < PAGING_PAGES) : (frame nr ||| 7) &&& 0xfffff000 = frame nr := by
  have aligned (n : Nat) : n * 4096 + 0x100000 = 2 ^ 3 * (n * 512 + 0x20000) := by omega
  have page (n : Nat) : (n * 4096 + 0x100000 + 7) / 4096 * 4096 = n * 4096 + 0x100000 := by omega
  have entry : (frame nr ||| 7).toNat = nr * 4096 + 0x100000 + 7 := by
    rw [UInt32.toNat_or, toNat_frame inside, aligned]
    exact (Nat.two_pow_add_eq_or_of_lt (by decide : 7 < 2 ^ 3) _).symm
  rw [← UInt32.toNat_inj, VerifyArea.toNat_page, entry, page, toNat_frame inside]

theorem lastFree_spec {memMap : Nat → UInt8} {n : Nat} (free : ∃ nr < n, memMap nr = 0) :
    ∃ nr < n, lastFree memMap n = some nr ∧ memMap nr = 0 := by
  induction n with
  | zero =>
    obtain ⟨nr, below, -⟩ := free
    omega
  | succ n ih =>
    rw [lastFree]
    by_cases last : memMap n = 0
    · exact ⟨n, by omega, if_pos last, last⟩
    · obtain ⟨nr, below, zero⟩ := free
      have other : nr ≠ n := by
        rintro rfl
        exact last zero
      obtain ⟨nr', below', found, zero'⟩ := ih ⟨nr, by omega, zero⟩
      exact ⟨nr', by omega, (if_neg last).trans found, zero'⟩

variable {m : VerifyArea.Memory}

theorem getFreePage_spec (free : ∃ nr < PAGING_PAGES, m.memMap nr = 0) :
    ∃ nr < PAGING_PAGES, m.memMap nr = 0 ∧
      getFreePage m = some (frame nr, (m.setCount nr 1).setPage (frame nr) fun _ => 0) := by
  obtain ⟨nr, below, found, zero⟩ := lastFree_spec free
  refine ⟨nr, below, zero, ?_⟩
  rw [getFreePage, found]
  rfl

def pageAt (m : VerifyArea.Memory) (address : UInt32) : Page :=
  m.page (m.table (dirOf address) (nrOf address) &&& 0xfffff000)

theorem putPage_spec (inside : nr < PAGING_PAGES) (used : m.memMap nr ≠ 0) (address : UInt32)
    (free : m.pgDir (dirOf address) &&& 1 = 0 → ∃ nr < PAGING_PAGES, m.memMap nr = 0) :
    ∃ m', putPage m (frame nr) address = some m' ∧ m'.Present (address.toNat / 4096) ∧
      pageAt m' address = m.page (frame nr) := by
  obtain ⟨m₁, taken, directory, page⟩ : ∃ m₁, takeTable m (dirOf address) = some m₁ ∧
      m₁.pgDir (dirOf address) &&& 1 ≠ 0 ∧ m₁.page (frame nr) = m.page (frame nr) := by
    rw [takeTable]
    by_cases absent : m.pgDir (dirOf address) &&& 1 = 0
    · obtain ⟨nr', inside', zero, got⟩ := getFreePage_spec (free absent)
      have other : frame nr ≠ frame nr' := by
        intro same
        cases frame_injective inside inside' same
        exact used zero
      rw [if_pos absent, got]
      refine ⟨_, rfl, ?_, ?_⟩
      · simp only [setTable, update_self]
        rw [VerifyArea.and_one_eq, VerifyArea.and_three_or_seven]
        decide
      · simp only [setTable, VerifyArea.Memory.setPage, VerifyArea.Memory.setCount, update_of_ne other]
    · exact ⟨m, if_neg absent, absent, rfl⟩
  have entry : (m₁.setEntry (dirOf address) (nrOf address) (frame nr ||| 7)).table (dirOf address) (nrOf address) =
      frame nr ||| 7 := by
    simp only [VerifyArea.Memory.setEntry, update_self]
  refine ⟨_, by rw [putPage, taken], ⟨?_, ?_⟩, ?_⟩
  · rw [← VerifyArea.dirOf_eq]
    exact directory
  · rw [VerifyArea.Memory.entry, ← VerifyArea.dirOf_eq, ← VerifyArea.nrOf_eq, entry, VerifyArea.and_one_eq,
      VerifyArea.and_three_or_seven]
    decide
  · rw [pageAt, entry, frame_or_seven inside]
    exact page

theorem dirOf_page (address : UInt32) : dirOf (address &&& 0xfffff000) = dirOf address := by
  rw [VerifyArea.dirOf_eq, VerifyArea.dirOf_eq, VerifyArea.toNat_page, Nat.mul_div_cancel _ (by decide)]

theorem nrOf_page (address : UInt32) : nrOf (address &&& 0xfffff000) = nrOf address := by
  rw [VerifyArea.nrOf_eq, VerifyArea.nrOf_eq, VerifyArea.toNat_page, Nat.mul_div_cancel _ (by decide)]

theorem pageAt_page (m : VerifyArea.Memory) (address : UInt32) : pageAt m (address &&& 0xfffff000) = pageAt m address := by
  rw [pageAt, dirOf_page, nrOf_page]
  rfl

theorem putPage_fresh {address : UInt32} (frames : ∃ nr < PAGING_PAGES, m.memMap nr = 0 ∧
      (m.pgDir (dirOf address) &&& 1 = 0 → ∃ nr' < PAGING_PAGES, nr' ≠ nr ∧ m.memMap nr' = 0)) :
    ∃ (nr : Nat) (m₁ : VerifyArea.Memory), getFreePage m = some (frame nr, m₁.setPage (frame nr) fun _ => 0) ∧
      ∀ loaded, ∃ m', putPage (m₁.setPage (frame nr) loaded) (frame nr) (address &&& 0xfffff000) = some m' ∧
        m'.Present (address.toNat / 4096) ∧ pageAt m' address = loaded := by
  obtain ⟨first, below, zero, other⟩ := frames
  obtain ⟨nr, inside, -, got⟩ := getFreePage_spec ⟨first, below, zero⟩
  refine ⟨nr, m.setCount nr 1, got, fun loaded => ?_⟩
  have used : ((m.setCount nr 1).setPage (frame nr) loaded).memMap nr ≠ 0 := by
    simp only [VerifyArea.Memory.setPage, VerifyArea.Memory.setCount, update_self]
    decide
  have kept (nr' : Nat) (differ : nr' ≠ nr) (isFree : m.memMap nr' = 0) :
      ((m.setCount nr 1).setPage (frame nr) loaded).memMap nr' = 0 := by
    simp only [VerifyArea.Memory.setPage, VerifyArea.Memory.setCount, update_of_ne differ, isFree]
  have page : ((m.setCount nr 1).setPage (frame nr) loaded).page (frame nr) = loaded := by
    simp only [VerifyArea.Memory.setPage, update_self]
  have number : (address &&& 0xfffff000).toNat / 4096 = address.toNat / 4096 := by
    rw [VerifyArea.toNat_page, Nat.mul_div_cancel _ (by decide)]
  obtain ⟨m', put, present, shows⟩ := putPage_spec inside used (address &&& 0xfffff000) fun absent => by
    rw [dirOf_page] at absent
    by_cases same : first = nr
    · obtain ⟨second, below', differ, zero'⟩ := other absent
      exact ⟨second, below', kept second (same ▸ differ) zero'⟩
    · exact ⟨first, below, kept first same zero⟩
  rw [number] at present
  rw [pageAt_page, page] at shows
  exact ⟨m', put, present, shows⟩

namespace System

variable {s : System} {address tmp : UInt32} {ex : Exec.Header} {e : Nat}

theorem offset_spec (s : System) (inside : address - s.current.startCode ≤ TASK_SIZE) :
    s.offset address ≤ TASK_SIZE ∧ (s.offset address).toNat % 1024 = 0 := by
  have size : TASK_SIZE.toNat = 0x4000000 := rfl
  have aligned := s.current.startCode_aligned
  have start := s.current.startCode.toNat_lt
  have bound := address.toNat_lt
  rw [le_iff_toNat_le, toNat_sub] at inside
  rw [le_iff_toNat_le, offset, toNat_sub, VerifyArea.toNat_page]
  rw [size] at inside aligned ⊢
  constructor <;> omega

theorem source_blocks (small : tmp ≤ TASK_SIZE) {i : Nat} {block : UInt32} (isSource : s.source tmp = (some i, block)) :
    block.toNat + 4 ≤ blocks := by
  have size : TASK_SIZE.toNat = 0x4000000 := rfl
  have library : LIBRARY_OFFSET.toNat = 0x3c00000 := rfl
  have bound := Fs.ReadWrite.blocks_eq
  have next (x : UInt32) (below : x.toNat ≤ 0x4000000) : (1 + x / BLOCK_SIZE).toNat + 4 ≤ blocks := by
    rw [toNat_add, UInt32.toNat_div]
    change (1 + x.toNat / 1024) % 2 ^ 32 + 4 ≤ blocks
    omega
  rw [le_iff_toNat_le, size] at small
  unfold source at isSource
  split at isSource
  · next high =>
    obtain ⟨-, rfl⟩ := Prod.mk.inj isSource
    rw [le_iff_toNat_le] at high
    refine next _ ?_
    rw [UInt32.toNat_sub_of_le _ _ (UInt32.le_iff_toNat_le.mpr high)]
    omega
  · split at isSource
    · obtain ⟨-, rfl⟩ := Prod.mk.inj isSource
      exact next tmp small
    · cases (Prod.mk.inj isSource).1

/-! ## The page that is mapped -/

def shown (s : System) (tmp : UInt32) (k : Nat) : UInt8 :=
  match (s.source tmp).1 with
  | none => 0
  | some i =>
    if tmp < s.current.endData ∧ s.current.endData.toNat ≤ tmp.toNat + k then 0
    else s.blockByte i ((s.source tmp).2.toNat * 1024 + k)

theorem doNoPage_maps (faults : s.Faults address) : ∃ s', doNoPage s address = .mapped s' ∧ s.SameFiles s' ∧
    s'.memory.Present (address.toNat / 4096) ∧ ∀ k < 4096, pageAt s'.memory address k = s.shown (s.offset address) k := by
  obtain ⟨small, -⟩ := s.offset_spec faults.inside
  obtain ⟨nr, m, got, maps⟩ := putPage_fresh faults.frames
  have fits : ¬TASK_SIZE < address - s.current.startCode := UInt32.not_lt.mpr faults.inside
  have empty : swapped s.memory address = false := by
    unfold swapped
    by_cases present : s.memory.pgDir (dirOf address) &&& 1 = 0
    · simp [present]
    · simp [faults.empty present]
  rw [doNoPage, if_neg fits, empty, if_neg Bool.false_ne_true]
  dsimp only
  rw [← offset]
  cases isSource : s.source (s.offset address) with
  | mk source block =>
    cases source with
    | none =>
      obtain ⟨m', put, present, page⟩ := maps fun _ => 0
      refine ⟨{ s with memory := m' }, ?_, .setMemory (.refl faults.coherent) m', present, fun k _ => ?_⟩
      · dsimp only
        rw [getEmptyPage, got]
        dsimp only
        rw [put]
      · rw [page, shown, isSource]
    | some i =>
      dsimp only
      rw [faults.unshared i block isSource]
      dsimp only
      have zeros : ∀ k, (m.setPage (frame nr) fun _ => 0).page (frame nr) k = 0 := by
        intro k
        simp only [VerifyArea.Memory.setPage, update_self]
      obtain ⟨loaded, s₁, load, same, bytes⟩ := loadPage_spec faults.coherent small (source_blocks small isSource)
        (faults.readable i block isSource) zeros
      obtain ⟨m', put, present, page⟩ := maps loaded
      have twice : (m.setPage (frame nr) fun _ => 0).setPage (frame nr) loaded = m.setPage (frame nr) loaded := by
        simp only [VerifyArea.Memory.setPage, update_idem]
      refine ⟨{ s₁ with memory := m' }, ?_, same.setMemory m', present, fun k below => ?_⟩
      · rw [loadInto, got]
        dsimp only
        rw [load]
        dsimp only
        rw [twice, put]
      · rw [page, bytes k below, shown, isSource]

/-! ## Which page it is -/

theorem source_of_library (high : LIBRARY_OFFSET ≤ tmp) :
    s.source tmp = (s.current.library, 1 + (tmp - LIBRARY_OFFSET) / BLOCK_SIZE) := if_pos high

theorem source_of_text (low : tmp < LIBRARY_OFFSET) (text : tmp < s.current.endData) :
    s.source tmp = (s.current.executable, 1 + tmp / BLOCK_SIZE) := by
  rw [source, if_neg (UInt32.not_le.mpr low), if_pos text]

theorem source_of_rest (low : tmp < LIBRARY_OFFSET) (rest : s.current.endData ≤ tmp) : s.source tmp = (none, 0) := by
  rw [source, if_neg (UInt32.not_le.mpr low), if_neg (UInt32.not_lt.mpr rest)]

theorem block_start {x : UInt32} (small : x ≤ TASK_SIZE) (aligned : x.toNat % 1024 = 0) (k : Nat) :
    (1 + x / BLOCK_SIZE).toNat * 1024 + k = 1024 + x.toNat + k := by
  have small' : x.toNat ≤ 0x4000000 := UInt32.le_iff_toNat_le.mp small
  rw [toNat_add, UInt32.toNat_div]
  change (1 + x.toNat / 1024) % 2 ^ 32 * 1024 + k = _
  omega

theorem shown_of_text (executable : s.current.executable = some e) (aligned : tmp.toNat % 1024 = 0)
    (low : tmp < LIBRARY_OFFSET) (text : tmp < s.current.endData) (k : Nat) :
    s.shown tmp k = if tmp.toNat + k < s.current.endData.toNat then s.blockByte e (1024 + tmp.toNat + k) else 0 := by
  have small : tmp ≤ TASK_SIZE := UInt32.le_trans (UInt32.le_of_lt low) (by decide)
  rw [shown, source_of_text low text, executable]
  dsimp only
  rw [block_start small aligned]
  by_cases inside : tmp.toNat + k < s.current.endData.toNat
  · rw [if_pos inside, if_neg]
    omega
  · rw [if_neg inside, if_pos ⟨text, by omega⟩]

theorem shown_of_library (high : LIBRARY_OFFSET ≤ tmp) (small : tmp ≤ TASK_SIZE) (aligned : tmp.toNat % 1024 = 0)
    (k : Nat) : s.shown tmp k =
      if tmp < s.current.endData ∧ s.current.endData.toNat ≤ tmp.toNat + k then 0 else s.libraryByte tmp k := by
  have offset : (tmp - LIBRARY_OFFSET).toNat = tmp.toNat - LIBRARY_OFFSET.toNat := UInt32.toNat_sub_of_le _ _ high
  have isLibrary : LIBRARY_OFFSET.toNat = 0x3c00000 := rfl
  rw [shown, source_of_library high, libraryByte]
  cases s.current.library with
  | none =>
    dsimp only
    rw [Option.elim_none, ite_self]
  | some l =>
    dsimp only
    rw [Option.elim_some, block_start, offset]
    · rw [le_iff_toNat_le, offset]
      exact (Nat.sub_le ..).trans (UInt32.le_iff_toNat_le.mp small)
    · rw [offset, isLibrary]
      omega

theorem shown_of_rest (low : tmp < LIBRARY_OFFSET) (rest : s.current.endData ≤ tmp) (k : Nat) : s.shown tmp k = 0 := by
  rw [shown, source_of_rest low rest]

/-! ## The files -/

theorem Loaded.end_le (loaded : s.Loaded ex e) : 1024 + s.current.endData.toNat ≤ (s.inode e).size.toNat := by
  have inside := loaded.inside
  have sum : s.current.endData.toNat = (ex.data.toNat + ex.text.toNat) % 2 ^ 32 := by
    rw [loaded.endData]
    exact toNat_add ..
  omega

theorem Loaded.fileByte (loaded : s.Loaded ex e) {k : Nat} (inside : tmp.toNat + k < s.current.endData.toNat) :
    s.fileByte e (1024 + tmp.toNat + k) = some (s.blockByte e (1024 + tmp.toNat + k)) := by
  have last := loaded.end_le
  exact if_pos (by omega)

theorem libraryByte_of_file {l : Nat} (library : s.current.library = some l) {k : Nat} {byte : UInt8}
    (isByte : s.fileByte l (1024 + (tmp.toNat - LIBRARY_OFFSET.toNat) + k) = some byte) : s.libraryByte tmp k = byte := by
  unfold System.fileByte at isByte
  split at isByte
  · rw [libraryByte, library, Option.elim_some]
    exact Option.some.inj isByte
  · cases isByte

section Shows

variable {page : Page}

theorem Shows.agrees (shows : s.Shows e tmp page) (small : tmp ≤ TASK_SIZE) (aligned : tmp.toNat % 1024 = 0)
    (isPage : ∀ k < 4096, page k = s.shown tmp k) : s.Agrees e tmp := by
  constructor
  · intro high k below inside
    have text : tmp < s.current.endData := UInt32.lt_iff_toNat_lt.mpr (by omega)
    have same := shows.text text k below
    rw [if_pos inside, isPage k below, shown_of_library high small aligned] at same
    rwa [if_neg fun behind => by omega] at same
  · intro high text l library k below behind byte isByte
    have same := shows.library high l library k below byte isByte
    rw [isPage k below, shown_of_library high small aligned, if_pos ⟨text, behind⟩] at same
    exact same.symm

theorem Agrees.shows (agrees : s.Agrees e tmp) (loaded : s.Loaded ex e) (small : tmp ≤ TASK_SIZE)
    (aligned : tmp.toNat % 1024 = 0) (isPage : ∀ k < 4096, page k = s.shown tmp k) : s.Shows e tmp page := by
  constructor
  · intro text k below
    rw [isPage k below]
    by_cases high : LIBRARY_OFFSET ≤ tmp
    · rw [shown_of_library high small aligned]
      split
      · next inside => rw [if_neg fun behind => by omega, agrees.text high k below inside]
      · next behind => exact if_pos ⟨text, by omega⟩
    · rw [shown_of_text loaded.executable aligned (UInt32.not_le.mp high) text]
      split
      · next inside => exact loaded.fileByte inside
      · rfl
  · intro high l library k below byte isByte
    rw [isPage k below, shown_of_library high small aligned]
    split
    · next behind => exact (agrees.rest high behind.1 l library k below behind.2 byte isByte).symm
    · exact libraryByte_of_file library isByte
  · intro rest alone k below
    rw [isPage k below]
    by_cases high : LIBRARY_OFFSET ≤ tmp
    · have none := alone.resolve_left (UInt32.not_lt.mpr high)
      rw [shown_of_library high small aligned, libraryByte, none, Option.elim_none, ite_self]
    · exact shown_of_rest (UInt32.not_le.mp high) rest k

end Shows

/-- The page shows the files if and only if the text does not reach into a library with other
bytes. -/
theorem doNoPage_shows_iff (loaded : s.Loaded ex e) (faults : s.Faults address) :
    (∃ s', doNoPage s address = .mapped s' ∧ s'.memory.Present (address.toNat / 4096) ∧
      s.Shows e (s.offset address) (pageAt s'.memory address)) ↔ s.Agrees e (s.offset address) := by
  obtain ⟨small, aligned⟩ := s.offset_spec faults.inside
  obtain ⟨s', mapped, -, present, isPage⟩ := doNoPage_maps faults
  constructor
  · rintro ⟨s₁, mapped', -, shows⟩
    cases mapped.symm.trans mapped'
    exact shows.agrees small aligned isPage
  · intro agrees
    exact ⟨s', mapped, present, agrees.shows loaded small aligned isPage⟩

theorem Loaded.agrees (loaded : s.Loaded ex e) (fits : ex.memorySize < 2 ^ 32) (tmp : UInt32) : s.Agrees e tmp := by
  have small := (Exec.Header.memorySize_le_iff loaded.accepted).mpr fits
  have library : LIBRARY_OFFSET.toNat = 0x3c00000 := rfl
  have sum : s.current.endData.toNat = (ex.data.toNat + ex.text.toNat) % 2 ^ 32 := by
    rw [loaded.endData]
    exact toNat_add ..
  have below : s.current.endData.toNat < LIBRARY_OFFSET.toNat := by
    unfold Exec.Header.memorySize at small
    omega
  constructor
  · intro high k _ inside
    rw [le_iff_toNat_le] at high
    omega
  · intro high text
    rw [le_iff_toNat_le] at high
    rw [UInt32.lt_iff_toNat_lt] at text
    omega

end System

/-! ## Two executables -/

def deviceOf (disk : Nat → Index) : Bitmap.Volume Index where
  sb := { ninodes := 0, nzones := 0, firstdatazone := 0, imap := fun _ => none, zmap := fun _ => none }
  cache := fun _ => none
  disk := disk

/-- The first task after `init`, which has just started a program and uses no library. -/
def started (ex : Exec.Header) (size : UInt32) (disk : Nat → Index) : System where
  memory := { pgDir := fun _ => 0, table := fun _ _ => 0, memMap := fun _ => 0, page := fun _ _ => 0 }
  highMemory := 0x1000000
  inode := fun _ => { count := 1, dev := 0, zone := fun k => 100 + k.val, size := size }
  volume := fun _ => deviceOf disk
  bad := fun _ _ => false
  free := fun _ => { victim := none, data := fun _ => 0 }
  current := {
    startCode := 0x8000000
    endData := ex.sizes.endData
    executable := some 0
    library := none
    startCode_aligned := rfl }
  others := []

theorem started_faults (ex : Exec.Header) (size : UInt32) (disk : Nat → Index) (address : UInt32)
    (inside : address - 0x8000000 ≤ TASK_SIZE) : (started ex size disk).Faults address where
  inside := inside
  empty := fun _ => rfl
  frames := ⟨0, by decide, rfl, fun _ => ⟨1, by decide, by decide, rfl⟩⟩
  unshared := fun _ _ _ => rfl
  readable := fun _ _ _ _ _ _ _ _ _ => rfl
  coherent := fun _ _ _ cached => by cases cached

theorem smallHeader_shows :
    ∃ s', doNoPage (started Exec.smallHeader 21504 fun b _ => b) 0x8003abc = .mapped s' ∧
      s'.memory.Present ((0x8003abc : UInt32).toNat / 4096) ∧
      (started Exec.smallHeader 21504 fun b _ => b).Shows 0
        ((started Exec.smallHeader 21504 fun b _ => b).offset 0x8003abc) (pageAt s'.memory 0x8003abc) := by
  have loaded : (started Exec.smallHeader 21504 fun b _ => b).Loaded Exec.smallHeader 0 :=
    ⟨rfl, by decide, by decide, rfl⟩
  exact (System.doNoPage_shows_iff loaded (started_faults _ _ _ _ (by decide))).mpr (loaded.agrees (by decide) _)

/-- A header with `a_text` of 64 MB, and an `a_bss` that takes the sum back to 0. -/
def longHeader : Exec.Header where
  magic := 0o413
  text := 0x4000000
  data := 0
  bss := 0xfc000000
  syms := 0
  entry := 0
  trsize := 0
  drsize := 0

def longFile : Nat → Index := fun b j =>
  if b = 100 then [0x010B, 0, 0, 0x0400, 0, 0, 0, 0xFC00].getD j.val 0
  else if b = 108 then if j.val = 118 then 200 else 0
  else if b = 200 then if j.val = 506 then 201 else 0
  else if b = 201 then 0x0101
  else 0

/-- Its page has zeros where the file has ones. -/
theorem longHeader_hidden :
    Exec.Header.ofBlock ((started longHeader 0x4000400 longFile).blockByte 0) = longHeader ∧
      (started longHeader 0x4000400 longFile).Loaded longHeader 0 ∧
      (started longHeader 0x4000400 longFile).Faults 0xbc00000 ∧
      ¬∃ s', doNoPage (started longHeader 0x4000400 longFile) 0xbc00000 = .mapped s' ∧
        s'.memory.Present ((0xbc00000 : UInt32).toNat / 4096) ∧
        (started longHeader 0x4000400 longFile).Shows 0
          ((started longHeader 0x4000400 longFile).offset 0xbc00000) (pageAt s'.memory 0xbc00000) := by
  have loaded : (started longHeader 0x4000400 longFile).Loaded longHeader 0 := ⟨rfl, by decide, by decide, rfl⟩
  have faults := started_faults longHeader 0x4000400 longFile 0xbc00000 (by decide)
  refine ⟨?_, loaded, faults, ?_⟩
  · simp only [Exec.Header.ofBlock, longHeader, Exec.Header.mk.injEq]
    decide +kernel
  rintro ⟨s', mapped, -, shows⟩
  obtain ⟨small, aligned⟩ := System.offset_spec _ faults.inside
  obtain ⟨s₁, mapped', -, -, isPage⟩ := System.doNoPage_maps faults
  cases mapped.symm.trans mapped'
  have same := (shows.agrees small aligned isPage).text (by decide) 0 (by decide) (by decide)
  exact absurd same (by decide +kernel)

end Linux012.Mm.DemandLoading

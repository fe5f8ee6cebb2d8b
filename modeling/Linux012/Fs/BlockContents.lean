import Linux012.Fs.ZoneAllocation

/-! What the blocks of a device contain, whether in a buffer or on the disk. -/

set_option autoImplicit false

namespace Linux012.Fs.Bitmap.Volume

open Function

variable {α : Type} {v v' v'' : Volume α} {block : Nat}

def contents (v : Volume α) (block : Nat) : α :=
  match v.cache block with
  | some bh => if bh.uptodate then bh.data else v.disk block
  | none => v.disk block

structure BufferOf (v : Volume α) (block : Nat) (bh : Buffer α) : Prop where
  clean : bh.uptodate = true → bh.dirt = false → bh.data = v.disk block
  dirty : bh.dirt = true → bh.uptodate = true

def Coherent (v : Volume α) : Prop := ∀ block bh, v.cache block = some bh → v.BufferOf block bh

/-- Outside the blocks `touched` nothing changes for the readers and holders of buffers. -/
structure Keeps (touched : Set Nat) (v v' : Volume α) : Prop where
  coherent : v'.Coherent
  contents : ∀ b, b ∉ touched → v'.contents b = v.contents b
  held : ∀ b bh, b ∉ touched → v.cache b = some bh → bh.count ≠ 0 → v'.cache b = some bh
  unheld : ∀ b, b ∉ touched → v.Unheld b → v'.Unheld b

/-- `bread` of a block that can be read: its buffer, and the device with it. -/
def bread (v : Volume α) (block : Nat) (reuse : Reuse α) : Buffer α × Volume α :=
  let got := v.getblk block reuse
  let bh := if got.1.uptodate then got.1 else { got.1 with uptodate := true, data := got.2.disk block }
  (bh, got.2.put block (some bh))

/-- A store through the pointer to a buffer, with `b_dirt = 1`. -/
def store (v : Volume α) (block : Nat) (f : α → α) : Volume α :=
  match v.cache block with
  | some bh => v.put block (some { bh with data := f bh.data, dirt := true })
  | none => v

def brelse (v : Volume α) (block : Nat) : Volume α := v.put block ((v.cache block).map Buffer.brelse)

@[simp] theorem contents_put_self (v : Volume α) (block : Nat) (bh : Buffer α) :
    (v.put block (some bh)).contents block = if bh.uptodate then bh.data else v.disk block := by
  rw [contents, cache_put_self]
  rfl

theorem cache_put_of_ne (v : Volume α) (bh : Option (Buffer α)) {b : Nat} (other : b ≠ block) :
    (v.put block bh).cache b = v.cache b :=
  update_of_ne other ..

theorem contents_put_of_ne (v : Volume α) (bh : Option (Buffer α)) {b : Nat} (other : b ≠ block) :
    (v.put block bh).contents b = v.contents b := by
  simp only [contents, v.cache_put_of_ne bh other]
  rfl

variable {bh : Buffer α}

theorem contents_of_cached (cached : v.cache block = some bh) (uptodate : bh.uptodate = true) :
    v.contents block = bh.data := by
  simp [contents, cached, uptodate]

theorem contents_of_not_cached (absent : v.cache block = none) : v.contents block = v.disk block := by
  simp [contents, absent]

theorem Coherent.put (coherent : v.Coherent) (suits : v.BufferOf block bh) :
    (v.put block (some bh)).Coherent := by
  intro b bh' cached
  by_cases same : b = block
  · subst same
    rw [cache_put_self, Option.some.injEq] at cached
    exact ⟨cached ▸ suits.clean, cached ▸ suits.dirty⟩
  · rw [v.cache_put_of_ne _ same] at cached
    exact ⟨(coherent b bh' cached).clean, (coherent b bh' cached).dirty⟩

namespace Keeps

variable {touched touched' : Set Nat}

theorem refl (coherent : v.Coherent) : v.Keeps touched v :=
  ⟨coherent, fun _ _ => rfl, fun _ _ _ cached _ => cached, fun _ _ unheld => unheld⟩

theorem trans (first : v.Keeps touched v') (second : v'.Keeps touched v'') : v.Keeps touched v'' :=
  ⟨second.coherent, fun b outside => (second.contents b outside).trans (first.contents b outside),
    fun b bh outside cached held => second.held b bh outside (first.held b bh outside cached held) held,
    fun b outside unheld => second.unheld b outside (first.unheld b outside unheld)⟩

theorem mono (keeps : v.Keeps touched v') (wider : touched ⊆ touched') : v.Keeps touched' v' :=
  ⟨keeps.coherent, fun b outside => keeps.contents b fun inside => outside (wider inside),
    fun b bh outside => keeps.held b bh fun inside => outside (wider inside),
    fun b outside => keeps.unheld b fun inside => outside (wider inside)⟩

theorem put (coherent : v.Coherent) {bh : Buffer α} (suits : v.BufferOf block bh) :
    v.Keeps {block} (v.put block (some bh)) := by
  refine ⟨coherent.put suits, fun b other => v.contents_put_of_ne _ other, fun b bh' other cached _ => ?_,
    fun b other unheld bh' cached => ?_⟩
  · rw [v.cache_put_of_ne _ other, cached]
  · rw [v.cache_put_of_ne _ other] at cached
    exact unheld bh' cached

end Keeps

theorem keeps_evict (coherent : v.Coherent) (victim : Nat) : v.Keeps ∅ (v.evict victim) := by
  rw [evict]
  split
  · exact .refl coherent
  next bh cached =>
  split
  · exact .refl coherent
  next zero =>
  rw [not_not] at zero
  have suits := coherent victim bh cached
  have held (b : Nat) (bh' : Buffer α) (isCached : v.cache b = some bh') (nonzero : bh'.count ≠ 0) : b ≠ victim := by
    rintro rfl
    cases cached.symm.trans isCached
    exact nonzero zero
  have old {b : Nat} {bh' : Buffer α} (isCached : update v.cache victim none b = some bh') :
      b ≠ victim ∧ v.cache b = some bh' := by
    by_cases same : b = victim
    · rw [same, update_self] at isCached
      cases isCached
    · rw [update_of_ne same] at isCached
      exact ⟨same, isCached⟩
  split
  · next dirt =>
    refine ⟨fun b bh' isCached => ?_, fun b _ => ?_, fun b bh' _ isCached nonzero => ?_, fun b _ unheld bh' isCached => ?_⟩
    · obtain ⟨other, isOld⟩ := old isCached
      have suits' := coherent b bh' isOld
      refine ⟨fun uptodate clean => ?_, suits'.dirty⟩
      exact (suits'.clean uptodate clean).trans (update_of_ne other ..).symm
    · by_cases same : b = victim
      · subst same
        rw [contents_of_cached cached (suits.dirty dirt)]
        simp [contents, put]
      · simp [contents, put, update_of_ne same]
    · exact (update_of_ne (held b bh' isCached nonzero) ..).trans isCached
    · exact unheld bh' (old isCached).2
  · next clean =>
    refine ⟨fun b bh' isCached => ?_, fun b _ => ?_, fun b bh' _ isCached nonzero => ?_, fun b _ unheld bh' isCached => ?_⟩
    · obtain ⟨-, isOld⟩ := old isCached
      exact ⟨(coherent b bh' isOld).clean, (coherent b bh' isOld).dirty⟩
    · by_cases same : b = victim
      · subst same
        rw [contents_of_not_cached (v.cache_put_self b none), contents, cached]
        dsimp only
        split
        · next uptodate => exact (suits.clean uptodate (by simpa using clean)).symm
        · rfl
      · exact v.contents_put_of_ne none same
    · exact (update_of_ne (held b bh' isCached nonzero) ..).trans isCached
    · exact unheld bh' (old isCached).2

theorem cache_evict_none (absent : v.cache block = none) (victim : Nat) : (v.evict victim).cache block = none := by
  have gone : update v.cache victim none block = none := by
    by_cases same : block = victim
    · rw [same, update_self]
    · rw [update_of_ne same, absent]
  rw [evict]
  split
  · exact absent
  · split
    · exact absent
    · split <;> exact gone

theorem getblk_spec (coherent : v.Coherent) (block : Nat) (reuse : Reuse α) :
    v.Keeps ∅ (v.getblk block reuse).2 ∧
    (v.getblk block reuse).2.BufferOf block (v.getblk block reuse).1 ∧
    (if (v.getblk block reuse).1.uptodate then (v.getblk block reuse).1.data
      else (v.getblk block reuse).2.disk block) = v.contents block := by
  rw [getblk]
  split
  · next bh cached =>
    have suits := coherent block bh cached
    exact ⟨.refl coherent, ⟨suits.clean, suits.dirty⟩, by simp [contents, cached]⟩
  · next absent =>
    have keeps : v.Keeps ∅ (reuse.victim.elim v v.evict) := by
      cases reuse.victim with
      | none => exact .refl coherent
      | some victim => exact keeps_evict coherent victim
    have still : (reuse.victim.elim v v.evict).cache block = none := by
      cases reuse.victim with
      | none => exact absent
      | some victim => exact cache_evict_none absent victim
    refine ⟨keeps, ⟨by simp, by simp⟩, ?_⟩
    rw [if_neg (by simp), ← contents_of_not_cached still, keeps.contents block (Set.notMem_empty block)]

structure Holds (v : Volume α) (block : Nat) (bh : Buffer α) : Prop where
  cached : v.cache block = some bh
  held : bh.count ≠ 0
  uptodate : bh.uptodate = true

theorem Holds.contents (holds : v.Holds block bh) : v.contents block = bh.data :=
  contents_of_cached holds.cached holds.uptodate

theorem bread_spec (coherent : v.Coherent) (block : Nat) (reuse : Reuse α) :
    v.Keeps {block} (v.bread block reuse).2 ∧ (v.bread block reuse).2.Holds block (v.bread block reuse).1 ∧
    (v.bread block reuse).1.data = v.contents block ∧
    (v.bread block reuse).1.count = (v.cache block).elim 0 Buffer.count + 1 ∧
    (v.bread block reuse).2.sb = v.sb := by
  obtain ⟨keeps, suits, same⟩ := getblk_spec coherent block reuse
  have count := v.count_getblk block reuse
  have sameSb := v.sb_getblk block reuse
  rw [bread]
  dsimp only
  have keeps' {bh : Buffer α} (suits' : (v.getblk block reuse).2.BufferOf block bh) :
      v.Keeps {block} ((v.getblk block reuse).2.put block (some bh)) :=
    (keeps.mono (Set.empty_subset _)).trans (.put keeps.coherent suits')
  split
  · next uptodate =>
    rw [if_pos uptodate] at same
    exact ⟨keeps' suits, ⟨cache_put_self .., by omega, uptodate⟩, same, count, sameSb⟩
  · next old =>
    rw [if_neg old] at same
    refine ⟨keeps' ⟨fun _ _ => rfl, fun _ => rfl⟩, ⟨cache_put_self .., ?_, rfl⟩, same, count, sameSb⟩
    dsimp only
    omega

theorem store_spec (coherent : v.Coherent) (holds : v.Holds block bh) (f : α → α) :
    v.Keeps {block} (v.store block f) ∧ (v.store block f).Holds block { bh with data := f bh.data, dirt := true } ∧
    (v.store block f).sb = v.sb := by
  rw [store, holds.cached]
  refine ⟨.put coherent ⟨fun _ clean => ?_, fun _ => holds.uptodate⟩,
    ⟨cache_put_self .., holds.held, holds.uptodate⟩, rfl⟩
  cases clean

theorem brelse_spec (coherent : v.Coherent) (holds : v.Holds block bh) :
    v.Keeps {block} (v.brelse block) ∧ (v.brelse block).cache block = some bh.brelse ∧
    (v.brelse block).contents block = bh.data ∧ (v.brelse block).sb = v.sb := by
  have suits := coherent block bh holds.cached
  rw [brelse, holds.cached, Option.map_some]
  refine ⟨.put coherent ⟨suits.clean, suits.dirty⟩, cache_put_self .., ?_, rfl⟩
  rw [contents_put_self]
  exact if_pos holds.uptodate

theorem contents_bread (coherent : v.Coherent) (block : Nat) (reuse : Reuse α) (b : Nat) :
    (v.bread block reuse).2.contents b = v.contents b := by
  obtain ⟨read, holds, data, -⟩ := bread_spec coherent block reuse
  by_cases here : b = block
  · rw [here]
    exact holds.contents.trans data
  · exact read.contents b here

theorem contents_brelse (v : Volume α) (block b : Nat) : (v.brelse block).contents b = v.contents b := by
  by_cases here : b = block
  · subst here
    rw [brelse, contents, cache_put_self, contents]
    cases v.cache b <;> rfl
  · exact v.contents_put_of_ne _ here

theorem coherent_brelse (coherent : v.Coherent) (block : Nat) : (v.brelse block).Coherent := by
  intro b bh cached
  by_cases same : b = block
  · subst same
    rw [brelse, cache_put_self, Option.map_eq_some_iff] at cached
    obtain ⟨bh', isBuffer, rfl⟩ := cached
    have suits := coherent b bh' isBuffer
    exact ⟨suits.clean, suits.dirty⟩
  · rw [brelse, v.cache_put_of_ne _ same] at cached
    exact ⟨(coherent b bh cached).clean, (coherent b bh cached).dirty⟩

/-- The effect of `new_block` on the zone map, when it comes back with `n`. -/
structure Allocates (v : Volume α) (n : Nat) (v' : Volume α) : Prop where
  nzones : v'.sb.nzones = v.sb.nzones
  firstdatazone : v'.sb.firstdatazone = v.sb.firstdatazone
  bits : ∀ m, marked v.sb.zmap m = true → marked v'.sb.zmap m = true
  only : ∀ b ≠ 0, v.sb.firstdatazone ≤ b → b < v.sb.nzones → marked v'.sb.zmap (v.sb.bitOf b) = true →
    marked v.sb.zmap (v.sb.bitOf b) = true ∨ b = n
  clear : n ≠ 0 → marked v.sb.zmap (v.sb.bitOf n) = false
  set : n ≠ 0 → marked v'.sb.zmap (v.sb.bitOf n) = true

theorem Allocates.none (same : v'.sb = v.sb) : v.Allocates 0 v' :=
  ⟨by rw [same], by rw [same], fun _ isSet => same ▸ isSet, fun _ _ _ _ isSet => .inl (same ▸ isSet),
    fun nonzero => absurd rfl nonzero, fun nonzero => absurd rfl nonzero⟩

theorem Allocates.congr {w w' : Volume α} {n : Nat} (allocates : v.Allocates n v') (first : v.sb = w.sb)
    (last : v'.sb = w'.sb) : w.Allocates n w' :=
  ⟨first ▸ last ▸ allocates.nzones, first ▸ last ▸ allocates.firstdatazone, first ▸ last ▸ allocates.bits,
    first ▸ last ▸ allocates.only, first ▸ allocates.clear, first ▸ last ▸ allocates.set⟩

theorem Allocates.of_first {m : Nat} {sb' : SuperBlock} (first : IsFirstClear v.sb.zmap m)
    (changes : v.sb.ChangesZone m true sb') (sameSb : v'.sb = sb') {n : Nat}
    (result : n = v.sb.zoneOf m ∨ n = 0 ∧ v.sb.nzones ≤ v.sb.zoneOf m) : v.Allocates n v' := by
  have bits := changes.zmap.bits
  have rest := changes.rest
  subst sameSb
  have number : n ≠ 0 → v.sb.bitOf n = m := by
    rcases result with rfl | ⟨rfl, -⟩
    · rw [SuperBlock.bitOf, SuperBlock.zoneOf]
      omega
    · exact fun nonzero => absurd rfl nonzero
  refine ⟨by rw [rest], by rw [rest], fun k isSet => ?_, fun b nonzero inside last isSet => ?_, fun nonzero => ?_,
    fun nonzero => ?_⟩
  · rw [bits, isSet, ite_self]
  · rw [bits] at isSet
    split at isSet
    · next same =>
      have zone : v.sb.zoneOf m = b := same ▸ SuperBlock.Formatted.zoneOf_bitOf inside
      rcases result with rfl | ⟨-, beyond⟩
      · exact .inr zone.symm
      · omega
    · exact .inl isSet
  · rw [number nonzero]
    exact first.clear
  · rw [number nonzero, bits, if_pos rfl]

theorem Keeps.setSb (coherent : v.Coherent) (touched : Set Nat) (sb : SuperBlock) :
    v.Keeps touched { v with sb } :=
  ⟨fun b bh cached => ⟨(coherent b bh cached).clean, (coherent b bh cached).dirty⟩, fun _ _ => rfl,
    fun _ _ _ cached _ => cached, fun _ _ unheld => unheld⟩

section Allocation

variable [Zero α] {reuse : Reuse α} {n : Nat}

theorem clearNew_spec (coherent : v.Coherent) (cleared : v.clearNew block reuse = .ok (n, v')) :
    n = block ∧ v.Keeps {block} v' ∧ v'.contents block = 0 ∧ v'.sb = v.sb := by
  obtain ⟨keeps, -, -⟩ := getblk_spec coherent block reuse
  rw [clearNew] at cleared
  split at cleared
  · cases cleared
  · rw [Except.ok.injEq, Prod.mk.injEq] at cleared
    obtain ⟨rfl, rfl⟩ := cleared
    refine ⟨rfl, (keeps.mono (Set.empty_subset _)).trans (.put keeps.coherent ⟨fun _ clean => ?_, fun _ => rfl⟩), ?_,
      v.sb_getblk block reuse⟩
    · cases clean
    · rw [contents_put_self]
      rfl

theorem newBlock_spec (coherent : v.Coherent) (result : v.newBlock reuse = .ok (n, v')) :
    v.Keeps {n} v' ∧ v.Allocates n v' ∧ (n ≠ 0 → v'.contents n = 0) := by
  rcases isFirstClear_or_full v.sb.zmap with ⟨m, first⟩ | full
  · obtain ⟨sb', changes, outcome⟩ := newBlock_of_first first reuse
    rw [result] at outcome
    split at outcome
    · next beyond =>
      cases outcome
      exact ⟨.setSb coherent _ sb', .of_first first changes rfl (.inr ⟨rfl, beyond⟩), fun nonzero => absurd rfl nonzero⟩
    · have keeps : v.Keeps {n} { v with sb := sb' } := .setSb coherent _ sb'
      obtain ⟨rfl, later, zeros, sameSb⟩ := clearNew_spec keeps.coherent outcome.symm
      exact ⟨keeps.trans later, .of_first first changes sameSb (.inl rfl), fun _ => zeros⟩
  · rw [newBlock_of_full full, Except.ok.injEq, Prod.mk.injEq] at result
    obtain ⟨rfl, rfl⟩ := result
    exact ⟨.refl coherent, .none rfl, fun nonzero => absurd rfl nonzero⟩

end Allocation

theorem keeps_freeBlock (coherent : v.Coherent) {result : Nat × Bool × Volume α}
    (freed : v.freeBlock block = .ok result) : v.Keeps {block} result.2.2 := by
  rw [freeBlock] at freed
  split at freed
  · cases freed
  split at freed
  · cases freed
    exact .refl coherent
  next dropped forgets =>
  have keeps : v.Keeps {block} dropped := by
    rw [dropBuffer] at forgets
    split at forgets
    · cases forgets
      exact .refl coherent
    · next bh cached =>
      dsimp only at forgets
      split at forgets
      · cases forgets
      · cases forgets
        refine .put coherent ⟨fun stale => ?_, fun dirt => ?_⟩
        · cases stale
        · cases dirt
  dsimp only at freed
  split at freed
  · cases freed
  · cases freed
    exact keeps.trans (.setSb keeps.coherent _ _)

end Linux012.Fs.Bitmap.Volume

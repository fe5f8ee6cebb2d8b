import Linux012.Fs.Truncate

/-! `truncate` frees the zones of an inode, each once, whatever buffers are in use. -/

set_option autoImplicit false

namespace Linux012.Fs.Truncate

open BlockTree Bitmap Function

namespace State

variable {s s' s'' t : State} {d z b r : Nat} {F G : Set Nat}

abbrev contents (s : State) : Nat → Fin 512 → Nat := s.volume.contents

def waits (s : State) : Nat := s.holders.count true

structure InUse (s : State) (b : Nat) : Prop where
  first : s.volume.sb.firstdatazone ≤ b
  last : b < s.volume.sb.nzones
  slot : (s.volume.sb.zmap (s.volume.sb.bitOf b / 8192)).isSome
  bit : marked s.volume.sb.zmap (s.volume.sb.bitOf b) = true

/-- The bits of the zones `F` are cleared, and no others change. -/
structure Frees (s : State) (F : Set Nat) (s' : State) : Prop where
  nzones : s'.volume.sb.nzones = s.volume.sb.nzones
  firstdatazone : s'.volume.sb.firstdatazone = s.volume.sb.firstdatazone
  slots : ∀ i, (s'.volume.sb.zmap i).isSome = (s.volume.sb.zmap i).isSome
  bits : ∀ n, marked s'.volume.sb.zmap n = true ↔
    marked s.volume.sb.zmap n = true ∧ ∀ f ∈ F, s.volume.sb.bitOf f ≠ n
  printed : s'.printed = s.printed
  waits : s'.waits ≤ s.waits

theorem bitOf_frees (frees : s.Frees F s') (b : Nat) : s'.volume.sb.bitOf b = s.volume.sb.bitOf b := by
  rw [SuperBlock.bitOf, SuperBlock.bitOf, frees.firstdatazone]

theorem Frees.nothing (sb : s'.volume.sb = s.volume.sb) (printed : s'.printed = s.printed) (waits : s'.waits ≤ s.waits) :
    s.Frees ∅ s' :=
  ⟨by rw [sb], by rw [sb], fun i => by rw [sb], fun n => by simp [sb], printed, waits⟩

theorem Frees.trans (first : s.Frees F s') (second : s'.Frees G s'') : s.Frees (F ∪ G) s'' := by
  refine ⟨second.nzones.trans first.nzones, second.firstdatazone.trans first.firstdatazone,
    fun i => (second.slots i).trans (first.slots i), fun n => ?_, second.printed.trans first.printed,
    Nat.le_trans second.waits first.waits⟩
  rw [second.bits, first.bits]
  constructor
  · rintro ⟨⟨isSet, notF⟩, notG⟩
    refine ⟨isSet, ?_⟩
    rintro f (inF | inG)
    · exact notF f inF
    · exact bitOf_frees first f ▸ notG f inG
  · rintro ⟨isSet, others⟩
    exact ⟨⟨isSet, fun f inF => others f (.inl inF)⟩, fun f inG => (bitOf_frees first f).symm ▸ others f (.inr inG)⟩

theorem InUse.of_frees (inUse : s.InUse b) (frees : s.Frees F s') (freed : ∀ f ∈ F, s.InUse f) (notIn : b ∉ F) :
    s'.InUse b := by
  have number := bitOf_frees frees b
  refine ⟨frees.firstdatazone ▸ inUse.first, frees.nzones ▸ inUse.last, ?_, ?_⟩
  · rw [number, frees.slots]
    exact inUse.slot
  · rw [number, frees.bits]
    refine ⟨inUse.bit, fun f inF same => ?_⟩
    have first := inUse.first
    have first' := (freed f inF).first
    rw [SuperBlock.bitOf, SuperBlock.bitOf] at same
    have equal : f = b := by omega
    exact notIn (equal ▸ inF)

structure Ready (s : State) (d z : Nat) : Prop where
  distinct : DistinctBelow d s.contents z
  inUse : ∀ b ∈ treeBlocks d s.contents z, s.InUse b
  unheld : ∀ b ∈ treeBlocks d s.contents z, s.volume.Unheld b

structure Clears (s : State) (d z : Nat) (s' : State) : Prop where
  frees : s.Frees (treeBlocks d s.contents z) s'
  keeps : s.volume.Keeps (treeBlocks d s.contents z) s'.volume
  zone : s'.zone = s.zone

structure Shrinks (s : State) (d z : Nat) (F : Set Nat) (s' : State) : Prop where
  subset : F ⊆ treeBlocks d s.contents z
  left : treeBlocks d s'.contents z = treeBlocks d s.contents z \ F
  frees : s.Frees F s'
  keeps : s.volume.Keeps (treeBlocks d s.contents z) s'.volume
  zone : s'.zone = s.zone

theorem Shrinks.trans (first : s.Shrinks d z F s') (second : s'.Shrinks d z G s'') : s.Shrinks d z (F ∪ G) s'' := by
  have smaller : treeBlocks d s'.contents z ⊆ treeBlocks d s.contents z := first.left.subset.trans Set.sdiff_subset
  refine ⟨Set.union_subset first.subset (second.subset.trans smaller), ?_, first.frees.trans second.frees,
    first.keeps.trans (second.keeps.mono smaller), second.zone.trans first.zone⟩
  rw [second.left, first.left, Set.sdiff_sdiff]

theorem Shrinks.same (contents : s'.contents = s.contents) (frees : s.Frees ∅ s')
    (keeps : s.volume.Keeps (treeBlocks d s.contents z) s'.volume) (zone : s'.zone = s.zone) : s.Shrinks d z ∅ s' :=
  ⟨Set.empty_subset _, by rw [contents, Set.sdiff_empty], frees, keeps, zone⟩

def Spec (d : Nat) (inner : State → Nat → Except Panic (Nat × State)) : Prop :=
  ∀ s z, z ≠ 0 → s.volume.Coherent → s.Ready d z → ∃ r s', inner s z = .ok (r, s') ∧
    (r ≠ 0 ∧ s.Clears d z s' ∨ r = 0 ∧ s'.waits < s.waits ∧ s'.Ready d z ∧ ∃ F, s.Shrinks d z F s')

theorem freeBlock_spec (coherent : s.volume.Coherent) (inUse : s.InUse z) (unheld : s.volume.Unheld z) :
    ∃ r s', s.freeBlock z = .ok (r, s') ∧ s.volume.Keeps {z} s'.volume ∧ s'.zone = s.zone ∧
      (r = 1 ∧ s.Frees {z} s' ∨
        r = 0 ∧ s'.waits < s.waits ∧ s'.contents z = s.contents z ∧ s'.volume.Unheld z ∧
          s'.volume.sb = s.volume.sb ∧ s'.printed = s.printed) := by
  rw [freeBlock]
  split
  · next met =>
    obtain ⟨read, holds, data, count, readSb⟩ := Volume.bread_spec coherent z (s.free 0)
    rw [Volume.unheld_iff.mp unheld] at count
    have held : ¬(s.volume.bread z (s.free 0)).2.Unheld z := fun unheld' => holds.held (unheld' _ holds.cached)
    have refused := Volume.freeBlock_of_held (v := (s.volume.bread z (s.free 0)).2)
      (by rw [readSb]; exact ⟨inUse.first, inUse.last⟩) held
    obtain ⟨release, cached, contents, releaseSb⟩ := Volume.brelse_spec read.coherent holds
    dsimp only
    rw [refused]
    refine ⟨0, _, rfl, read.trans release, rfl, .inr ⟨rfl, ?_, contents.trans data, fun bh isCached => ?_,
      releaseSb.trans readSb, Bool.or_false _⟩⟩
    · obtain ⟨rest, isHolders⟩ := List.head?_eq_some_iff.mp met
      simp [waits, isHolders]
    · cases cached.symm.trans isCached
      rw [Buffer.brelse, count]
  · next free =>
    obtain ⟨v', freed, changes, -⟩ := Volume.freeBlock_of_unheld ⟨inUse.first, inUse.last⟩ unheld inUse.slot
    have keeps := Volume.keeps_freeBlock coherent freed
    rw [inUse.bit] at freed
    rw [freed]
    refine ⟨1, _, rfl, keeps, rfl, .inl ⟨rfl, ?_⟩⟩
    have rest := changes.rest
    refine ⟨by rw [rest], by rw [rest], changes.zmap.slots, fun n => ?_, Bool.or_false _, ?_⟩
    · rw [changes.zmap.bits]
      by_cases same : n = s.volume.sb.bitOf z
      · simp [same]
      · simp [same, Ne.symm same]
    · exact (List.tail_sublist _).count_le _

theorem freeBlock_frees : Spec 0 freeBlock := by
  intro s z block coherent ready
  have self := mem_treeBlocks_self block 0 s.contents
  have leaf (c : Nat → Fin 512 → Nat) := treeBlocks_leaf block c
  obtain ⟨r, s', freed, keeps, zone, outcome⟩ := freeBlock_spec coherent (ready.inUse z self) (ready.unheld z self)
  rcases outcome with ⟨rfl, frees⟩ | ⟨rfl, fewer, contents, unheld, sb, printed⟩
  · exact ⟨1, s', freed, .inl ⟨Nat.one_ne_zero, by rwa [leaf], by rwa [leaf], zone⟩⟩
  · have frees : s.Frees ∅ s' := .nothing sb printed (Nat.le_of_lt fewer)
    refine ⟨0, s', freed, .inr ⟨rfl, fewer, ⟨distinctBelow_leaf _ z, fun b inside => ?_, fun b inside => ?_⟩, ∅,
      Set.empty_subset _, by rw [leaf, leaf, Set.sdiff_empty], frees, by rwa [leaf], zone⟩⟩
    · rw [leaf] at inside
      obtain rfl := inside
      exact (ready.inUse b self).of_frees frees (fun f none => absurd none (Set.notMem_empty f)) (Set.notMem_empty b)
    · rw [leaf] at inside
      obtain rfl := inside
      exact unheld

/-! ## Index blocks -/

structure Opened (s : State) (d z : Nat) : Prop where
  holds : ∃ bh, s.volume.Holds z bh ∧ bh.count = 1
  distinct : DistinctBelow (d + 1) s.contents z
  inUse : ∀ b ∈ treeBlocks (d + 1) s.contents z, s.InUse b
  unheld : ∀ b ∈ treeBlocks (d + 1) s.contents z, b ≠ z → s.volume.Unheld b

variable {j : Fin 512}

theorem Opened.shrink (opened : s.Opened d z) (block : z ≠ 0) {e : Nat}
    (holds : ∃ bh, s'.volume.Holds z bh ∧ bh.count = 1) (entry : s'.contents z = update (s.contents z) j e)
    (subset : F ⊆ treeBlocks d s.contents (s.contents z j))
    (left : treeBlocks d s'.contents e = treeBlocks d s.contents (s.contents z j) \ F)
    (distinct : DistinctBelow d s'.contents e) (unheld : ∀ b ∈ treeBlocks d s'.contents e, s'.volume.Unheld b)
    (frees : s.Frees F s') (zone : s'.zone = s.zone)
    (keeps : s.volume.Keeps ({z} ∪ treeBlocks d s.contents (s.contents z j)) s'.volume) :
    s'.Opened d z ∧ s.Shrinks (d + 1) z F s' := by
  obtain ⟨forest, apart⟩ := (distinctBelow_succ block).mp opened.distinct
  have member {b : Nat} (i : Fin 512) (inside : b ∈ treeBlocks d s.contents (s.contents z i)) :
      b ∈ treeBlocks (d + 1) s.contents z := (mem_treeBlocks_succ block).mpr (.inr ⟨i, inside⟩)
  have untouched (i : Fin 512) (other : i ≠ j) (b : Nat) (inside : b ∈ treeBlocks d s.contents (s.contents z i)) :
      b ∉ {z} ∪ treeBlocks d s.contents (s.contents z j) := by
    rintro (rfl | shared)
    · exact apart i inside
    · exact other (forest.disjoint (k := i) (l := j) inside shared)
  have now : s'.contents z j = e := by rw [entry, update_self]
  have shrinks : treeBlocks d s'.contents (s'.contents z j) ⊆ treeBlocks d s.contents (s.contents z j) := by
    rw [now, left]
    exact Set.sdiff_subset
  have roots (i : Fin 512) (other : i ≠ j) : s'.contents z i = s.contents z i := by
    rw [entry, update_of_ne other]
  obtain ⟨forest', same⟩ := forest.shrink (k := j) roots
    (fun i other b inside => keeps.contents b (untouched i other b inside)) (now.symm ▸ distinct) shrinks
  have old (i : Fin 512) : treeBlocks d s'.contents (s'.contents z i) ⊆ treeBlocks d s.contents (s.contents z i) := by
    by_cases here : i = j
    · exact here ▸ shrinks
    · exact (same i here).subset
  have whole : treeBlocks (d + 1) s'.contents z = treeBlocks (d + 1) s.contents z \ F := by
    ext b
    rw [Set.mem_sdiff, mem_treeBlocks_succ block, mem_treeBlocks_succ block]
    constructor
    · rintro (rfl | ⟨i, inside⟩)
      · exact ⟨.inl rfl, fun freed => apart j (subset freed)⟩
      · refine ⟨.inr ⟨i, old i inside⟩, fun freed => ?_⟩
        by_cases here : i = j
        · subst here
          rw [now, left] at inside
          exact inside.2 freed
        · exact here (forest.disjoint (k := i) (l := j) (old i inside) (subset freed))
    · rintro ⟨rfl | ⟨i, inside⟩, remains⟩
      · exact .inl rfl
      · refine .inr ⟨i, ?_⟩
        by_cases here : i = j
        · subst here
          rw [now, left]
          exact ⟨inside, remains⟩
        · exact (same i here).symm.subset inside
  have touched : {z} ∪ treeBlocks d s.contents (s.contents z j) ⊆ treeBlocks (d + 1) s.contents z := by
    rintro b (rfl | inside)
    · exact mem_treeBlocks_self block _ _
    · exact member j inside
  refine ⟨⟨holds, (distinctBelow_succ block).mpr ⟨forest', fun i inside => apart i (old i inside)⟩,
    fun b inside => ?_, fun b inside other => ?_⟩,
    ⟨fun b freed => member j (subset freed), whole, frees, keeps.mono touched, zone⟩⟩
  · rw [whole] at inside
    exact (opened.inUse b inside.1).of_frees frees (fun f freed => opened.inUse f (member j (subset freed))) inside.2
  · rcases (mem_treeBlocks_succ block).mp inside with same' | ⟨i, inTree⟩
    · exact absurd same' other
    · by_cases here : i = j
      · subst here
        rw [now] at inTree
        exact unheld b inTree
      · exact keeps.unheld b (untouched i here b (old i inTree)) (opened.unheld b (member i (old i inTree)) other)

variable {inner : State → Nat → Except Panic (Nat × State)}

theorem Opened.entry (spec : Spec d inner) (opened : s.Opened d z) (block : z ≠ 0)
    (coherent : s.volume.Coherent) (used : s.contents z j ≠ 0) : ∃ r t, inner s (s.contents z j) = .ok (r, t) ∧
      ((r ≠ 0 ∧ ∃ s' F, s' = { t with volume := t.volume.store z fun data => update data j 0 } ∧
          s'.Opened d z ∧ s.Shrinks (d + 1) z F s' ∧ s'.contents z = update (s.contents z) j 0) ∨
        r = 0 ∧ t.waits < s.waits ∧ t.Opened d z ∧ t.contents z = s.contents z ∧ ∃ F, s.Shrinks (d + 1) z F t) := by
  obtain ⟨forest, apart⟩ := (distinctBelow_succ block).mp opened.distinct
  have member {b : Nat} (inside : b ∈ treeBlocks d s.contents (s.contents z j)) :
      b ∈ treeBlocks (d + 1) s.contents z := (mem_treeBlocks_succ block).mpr (.inr ⟨j, inside⟩)
  have ready : s.Ready d (s.contents z j) := by
    refine ⟨forest.below j, fun b inside => opened.inUse b (member inside), fun b inside =>
      opened.unheld b (member inside) ?_⟩
    rintro rfl
    exact apart j inside
  obtain ⟨bh, holds, one⟩ := opened.holds
  obtain ⟨r, t, freed, outcome⟩ := spec s _ used coherent ready
  refine ⟨r, t, freed, ?_⟩
  rcases outcome with ⟨success, clears⟩ | ⟨rfl, fewer, ready', F, shrinks⟩
  · have holds' : t.volume.Holds z bh :=
      ⟨clears.keeps.held z bh (apart j) holds.cached holds.held, holds.held, holds.uptodate⟩
    obtain ⟨stores, holds'', storeSb⟩ := Volume.store_spec clears.keeps.coherent holds' fun data => update data j 0
    have entry := holds''.contents
    rw [← holds.contents] at entry
    have frees : s.Frees (treeBlocks d s.contents (s.contents z j))
        { t with volume := t.volume.store z fun data => update data j 0 } := by
      have same : t.Frees ∅ { t with volume := t.volume.store z fun data => update data j 0 } :=
        .nothing storeSb rfl (Nat.le_refl _)
      have both := clears.frees.trans same
      rwa [Set.union_empty] at both
    have holding : ∃ bh, (t.volume.store z fun data => update data j 0).Holds z bh ∧ bh.count = 1 :=
      ⟨{ bh with data := update bh.data j 0, dirt := true }, holds'', one⟩
    obtain ⟨opened', shrinks⟩ := opened.shrink block (j := j) (e := 0) holding entry Set.Subset.rfl
      (by rw [treeBlocks_none, Set.sdiff_self]) (distinctBelow_none d _)
      (fun b none => absurd none (by simp [treeBlocks_none])) frees clears.zone
      ((clears.keeps.mono Set.subset_union_right).trans (stores.mono Set.subset_union_left))
    exact .inl ⟨success, _, _, rfl, opened', shrinks, entry⟩
  · have holds' : t.volume.Holds z bh :=
      ⟨shrinks.keeps.held z bh (apart j) holds.cached holds.held, holds.held, holds.uptodate⟩
    have contents : t.contents z = s.contents z := shrinks.keeps.contents z (apart j)
    have entry : t.contents z = update (s.contents z) j (s.contents z j) := by
      rw [update_eq_self, contents]
    obtain ⟨opened', shrinks'⟩ := opened.shrink block (j := j) (e := s.contents z j) ⟨bh, holds', one⟩ entry
      shrinks.subset shrinks.left ready'.distinct ready'.unheld shrinks.frees shrinks.zone
      (shrinks.keeps.mono Set.subset_union_right)
    exact .inr ⟨rfl, fewer, opened', contents, F, shrinks'⟩

theorem freeEntries_spec (spec : Spec d inner) (block : z ≠ 0) (entries : List (Fin 512)) (busy : Bool)
    (coherent : s.volume.Coherent) (opened : s.Opened d z) :
    ∃ busy' s' F, freeEntries inner z entries busy s = .ok (busy', s') ∧ s'.Opened d z ∧ s.Shrinks (d + 1) z F s' ∧
      (∀ j, s.contents z j = 0 → s'.contents z j = 0) ∧
      (busy' = false → busy = false ∧ ∀ j ∈ entries, s'.contents z j = 0) ∧
      (busy' = true → busy = true ∨ s'.waits < s.waits) := by
  induction entries generalizing s busy with
  | nil =>
    have none : s.Shrinks (d + 1) z ∅ s := .same rfl (.nothing rfl rfl (Nat.le_refl _)) (.refl coherent) rfl
    exact ⟨busy, s, ∅, rfl, opened, none, fun _ zero => zero, fun idle => ⟨idle, by simp⟩, fun isBusy => .inl isBusy⟩
  | cons j rest ih =>
    obtain ⟨bh, holds, -⟩ := opened.holds
    have loaded : (s.volume.cache z).elim 0 (fun bh => bh.data j) = s.contents z j := by
      rw [holds.cached, contents, holds.contents]
      rfl
    rw [freeEntries]
    dsimp only
    rw [loaded]
    by_cases used : s.contents z j = 0
    · rw [if_pos used]
      obtain ⟨busy', s', F, ran, opened', shrinks, zeros, idle, isBusy⟩ := ih busy coherent opened
      exact ⟨busy', s', F, ran, opened', shrinks, zeros,
        fun none => ⟨(idle none).1, List.forall_mem_cons.mpr ⟨zeros j used, (idle none).2⟩⟩, isBusy⟩
    rw [if_neg used]
    obtain ⟨r, t, freed, outcome⟩ := opened.entry spec block coherent used
    rw [freed]
    dsimp only [Except.bind]
    rcases outcome with ⟨success, s₁, G, isNext, opened₁, shrinks₁, entry⟩ | ⟨rfl, fewer, opened₁, contents, G, shrinks₁⟩
    · rw [if_pos success, ← isNext]
      obtain ⟨busy', s', F, ran, opened', shrinks, zeros, idle, isBusy⟩ := ih busy shrinks₁.keeps.coherent opened₁
      have cleared : s₁.contents z j = 0 := by rw [entry, update_self]
      have zeros' (i : Fin 512) (zero : s.contents z i = 0) : s'.contents z i = 0 := by
        refine zeros i ?_
        rw [entry]
        by_cases here : i = j
        · rw [here, update_self]
        · rw [update_of_ne here, zero]
      exact ⟨busy', s', G ∪ F, ran, opened', shrinks₁.trans shrinks, zeros',
        fun none => ⟨(idle none).1, List.forall_mem_cons.mpr ⟨zeros j cleared, (idle none).2⟩⟩,
        fun some_ => (isBusy some_).imp_right fun less => Nat.lt_of_lt_of_le less shrinks₁.frees.waits⟩
    · rw [if_neg (not_not_intro rfl)]
      obtain ⟨busy', s', F, ran, opened', shrinks, zeros, idle, isBusy⟩ := ih true shrinks₁.keeps.coherent opened₁
      refine ⟨busy', s', G ∪ F, ran, opened', shrinks₁.trans shrinks, fun i zero => zeros i ?_,
        fun none => absurd (idle none).1 (by simp),
        fun _ => .inr (Nat.lt_of_le_of_lt shrinks.frees.waits fewer)⟩
      rw [contents, zero]

theorem freeVia_frees (spec : Spec d inner) : Spec (d + 1) (freeVia inner) := by
  intro s z block coherent ready
  have self := mem_treeBlocks_self block (d + 1) s.contents
  obtain ⟨read, holds, data, count, readSb⟩ := Volume.bread_spec coherent z (s.free 0)
  rw [Volume.unheld_iff.mp (ready.unheld z self)] at count
  rw [freeVia, if_neg block]
  dsimp only
  generalize isOpen : ({ s with
    volume := (s.volume.bread z (s.free 0)).2, free := fun i => s.free (i + 1) } : State) = s₀
  have volume : s₀.volume = (s.volume.bread z (s.free 0)).2 := isOpen ▸ rfl
  have contents : s₀.contents = s.contents := by
    funext b
    rw [State.contents, volume]
    by_cases same : b = z
    · rw [same, holds.contents, data]
    · exact read.contents b same
  have first : s.Shrinks (d + 1) z ∅ s₀ := by
    refine .same contents (.nothing (volume ▸ readSb) (isOpen ▸ rfl) (isOpen ▸ Nat.le_refl _)) ?_ (isOpen ▸ rfl)
    rw [volume]
    exact read.mono (Set.singleton_subset_iff.mpr self)
  have opened : s₀.Opened d z := by
    refine ⟨⟨_, volume ▸ holds, count⟩, contents ▸ ready.distinct, fun b inside => ?_, fun b inside other => ?_⟩
    · rw [contents] at inside
      exact (ready.inUse b inside).of_frees first.frees (fun f none => absurd none (Set.notMem_empty f))
        (Set.notMem_empty b)
    · rw [contents] at inside
      rw [volume]
      exact read.unheld b other (ready.unheld b inside)
  obtain ⟨busy, s₁, F, ran, opened₁, shrinks, -, idle, isBusy⟩ :=
    freeEntries_spec spec block (List.finRange 512) false first.keeps.coherent opened
  rw [ran]
  dsimp only [Except.bind]
  obtain ⟨bh, holds₁, one⟩ := opened₁.holds
  obtain ⟨release, cached, released, releaseSb⟩ := Volume.brelse_spec shrinks.keeps.coherent holds₁
  generalize isClosed : ({ s₁ with volume := s₁.volume.brelse z } : State) = s₂
  have volume₂ : s₂.volume = s₁.volume.brelse z := isClosed ▸ rfl
  have contents₂ : s₂.contents = s₁.contents := by
    funext b
    rw [State.contents, volume₂]
    by_cases same : b = z
    · rw [same, released]
      exact holds₁.contents.symm
    · exact release.contents b same
  have self₁ := mem_treeBlocks_self block (d + 1) s₁.contents
  have close : s₁.Shrinks (d + 1) z ∅ s₂ := by
    refine .same contents₂ (.nothing (volume₂ ▸ releaseSb) (isClosed ▸ rfl) (isClosed ▸ Nat.le_refl _)) ?_ (isClosed ▸ rfl)
    rw [volume₂]
    exact release.mono (Set.singleton_subset_iff.mpr self₁)
  have all := (first.trans shrinks).trans close
  have ready₂ : s₂.Ready (d + 1) z := by
    refine ⟨contents₂ ▸ opened₁.distinct, fun b inside => ?_, fun b inside => ?_⟩
    · rw [contents₂] at inside
      exact (opened₁.inUse b inside).of_frees close.frees (fun f none => absurd none (Set.notMem_empty f))
        (Set.notMem_empty b)
    · rw [contents₂] at inside
      rw [volume₂]
      by_cases same : b = z
      · subst same
        intro bh' isCached
        cases cached.symm.trans isCached
        rw [Buffer.brelse, one]
      · exact release.unheld b same (opened₁.unheld b inside same)
  cases busy with
  | true =>
    have fewer : s₁.waits < s₀.waits := (isBusy rfl).resolve_left (by simp)
    refine ⟨0, s₂, rfl, .inr ⟨rfl, ?_, ready₂, _, all⟩⟩
    exact Nat.lt_of_le_of_lt close.frees.waits (Nat.lt_of_lt_of_le fewer first.frees.waits)
  | false =>
    have zeros (j : Fin 512) : s₂.contents z j = 0 := by
      rw [contents₂]
      exact (idle rfl).2 j (List.mem_finRange j)
    have alone : treeBlocks (d + 1) s₂.contents z = {z} := by
      ext b
      rw [mem_treeBlocks_succ block, Set.mem_singleton_iff, or_iff_left]
      rintro ⟨j, inside⟩
      rw [zeros, treeBlocks_none] at inside
      exact inside
    have self₂ := mem_treeBlocks_self block (d + 1) s₂.contents
    rw [if_neg (by simp)]
    obtain ⟨r, s₃, freed, keeps, zone, outcome⟩ :=
      freeBlock_spec all.keeps.coherent (ready₂.inUse z self₂) (ready₂.unheld z self₂)
    have within : s₂.volume.Keeps (treeBlocks (d + 1) s₂.contents z) s₃.volume := alone ▸ keeps
    rcases outcome with ⟨rfl, frees⟩ | ⟨rfl, fewer, same, unheld, sb, printed⟩
    · refine ⟨1, s₃, freed, .inl ⟨Nat.one_ne_zero, ?_, ?_, zone.trans all.zone⟩⟩
      · have both := all.frees.trans frees
        rw [← alone, all.left, Set.union_sdiff_cancel all.subset] at both
        exact both
      · exact all.keeps.trans (within.mono (all.left.subset.trans Set.sdiff_subset))
    · have contents₃ : s₃.contents = s₂.contents := by
        funext b
        by_cases here : b = z
        · rw [here, same]
        · exact keeps.contents b here
      have frees : s₂.Frees ∅ s₃ := .nothing sb printed (Nat.le_of_lt fewer)
      have still : s₂.Shrinks (d + 1) z ∅ s₃ := .same contents₃ frees within zone
      refine ⟨0, s₃, freed, .inr ⟨rfl, ?_, ⟨contents₃ ▸ ready₂.distinct, fun b inside => ?_, fun b inside => ?_⟩, _,
        all.trans still⟩⟩
      · exact Nat.lt_of_lt_of_le fewer all.frees.waits
      · rw [contents₃] at inside
        exact (ready₂.inUse b inside).of_frees frees (fun f none => absurd none (Set.notMem_empty f))
          (Set.notMem_empty b)
      · rw [contents₃, alone] at inside
        obtain rfl := inside
        exact unheld

/-! ## The zones of an inode -/

open ZoneTree.State in
def zones (s : State) : Set Nat := { b | ∃ k, b ∈ treeBlocks (depth k) s.contents (s.zone k) }

open ZoneTree.State in
/-- The zones are distinct, in use, and in no buffer that somebody holds on to. -/
structure Sound (s : State) : Prop where
  distinct : Distinct depth s.zone s.contents
  inUse : ∀ b ∈ s.zones, s.InUse b
  unheld : ∀ b ∈ s.zones, s.volume.Unheld b

structure Loses (s : State) (F : Set Nat) (s' : State) : Prop where
  subset : F ⊆ s.zones
  left : s'.zones = s.zones \ F
  frees : s.Frees F s'
  coherent : s'.volume.Coherent

theorem Loses.trans (first : s.Loses F s') (second : s'.Loses G s'') : s.Loses (F ∪ G) s'' := by
  refine ⟨Set.union_subset first.subset (second.subset.trans (first.left.subset.trans Set.sdiff_subset)), ?_,
    first.frees.trans second.frees, second.coherent⟩
  rw [second.left, first.left, Set.sdiff_sdiff]

variable {k : Fin 9} {e : Nat}

open ZoneTree.State in
theorem Sound.shrink (sound : s.Sound) (zone : s'.zone = update s.zone k e)
    (subset : F ⊆ treeBlocks (depth k) s.contents (s.zone k))
    (left : treeBlocks (depth k) s'.contents e = treeBlocks (depth k) s.contents (s.zone k) \ F)
    (distinct : DistinctBelow (depth k) s'.contents e)
    (unheld : ∀ b ∈ treeBlocks (depth k) s'.contents e, s'.volume.Unheld b) (frees : s.Frees F s')
    (keeps : s.volume.Keeps (treeBlocks (depth k) s.contents (s.zone k)) s'.volume) :
    s'.Sound ∧ s.Loses F s' := by
  have now : s'.zone k = e := by rw [zone, update_self]
  have untouched (l : Fin 9) (other : l ≠ k) (b : Nat) (inside : b ∈ treeBlocks (depth l) s.contents (s.zone l)) :
      b ∉ treeBlocks (depth k) s.contents (s.zone k) :=
    fun shared => other (sound.distinct.disjoint inside shared)
  have shrinks : treeBlocks (depth k) s'.contents (s'.zone k) ⊆ treeBlocks (depth k) s.contents (s.zone k) := by
    rw [now, left]
    exact Set.sdiff_subset
  obtain ⟨forest, same⟩ := sound.distinct.shrink (fun l other => by rw [zone, update_of_ne other])
    (fun l other b inside => keeps.contents b (untouched l other b inside)) (now.symm ▸ distinct) shrinks
  have whole : s'.zones = s.zones \ F := by
    ext b
    constructor
    · rintro ⟨l, inside⟩
      by_cases here : l = k
      · subst here
        rw [now, left] at inside
        exact ⟨⟨l, inside.1⟩, inside.2⟩
      · have old := (same l here).subset inside
        exact ⟨⟨l, old⟩, fun freed => untouched l here b old (subset freed)⟩
    · rintro ⟨⟨l, inside⟩, remains⟩
      refine ⟨l, ?_⟩
      by_cases here : l = k
      · subst here
        rw [now, left]
        exact ⟨inside, remains⟩
      · exact (same l here).symm.subset inside
  have member : F ⊆ s.zones := fun b freed => ⟨k, subset freed⟩
  refine ⟨⟨forest, fun b inside => ?_, ?_⟩, member, whole, frees, keeps.coherent⟩
  · rw [whole] at inside
    exact (sound.inUse b inside.1).of_frees frees (fun f freed => sound.inUse f (member freed)) inside.2
  · rintro b ⟨l, inside⟩
    by_cases here : l = k
    · subst here
      rw [now] at inside
      exact unheld b inside
    · have old := (same l here).subset inside
      exact keeps.unheld b (untouched l here b old) (sound.unheld b ⟨l, old⟩)

open ZoneTree.State in
theorem freeTree_spec (coherent : s.volume.Coherent) (sound : s.Sound) (k : Fin 9) :
    ∃ r s', s.freeTree k = .ok (r, s') ∧ (r ≠ 0 ∧ s.Clears (depth k) (s.zone k) s' ∨
      r = 0 ∧ s'.waits < s.waits ∧ s'.Ready (depth k) (s.zone k) ∧ ∃ F, s.Shrinks (depth k) (s.zone k) F s') := by
  by_cases none : s.zone k = 0
  · have nothing : s.freeTree k = .ok (1, s) := by
      rw [freeTree, freeInd, freeDind, freeVia, freeVia]
      simp [none]
    have clears : s.Clears (depth k) (s.zone k) s := by
      rw [none]
      refine ⟨?_, .refl coherent, rfl⟩
      rw [treeBlocks_none]
      exact .nothing rfl rfl (Nat.le_refl _)
    exact ⟨1, s, nothing, .inl ⟨Nat.one_ne_zero, clears⟩⟩
  · have ready : s.Ready (depth k) (s.zone k) :=
      ⟨sound.distinct.below k, fun b inside => sound.inUse b ⟨k, inside⟩, fun b inside => sound.unheld b ⟨k, inside⟩⟩
    rw [freeTree]
    split
    · next direct =>
      have leaf : depth k = 0 := if_pos direct
      rw [leaf] at ready ⊢
      exact freeBlock_frees s _ none coherent ready
    · next indirect =>
      split
      · next single =>
        have one : depth k = 1 := by rw [depth, if_neg indirect, single]
        rw [one] at ready ⊢
        exact freeVia_frees freeBlock_frees s _ none coherent ready
      · next double =>
        have two : depth k = 2 := by
          have inside := k.isLt
          have eight : k.val = 8 := by omega
          rw [depth, if_neg indirect, eight]
        rw [two] at ready ⊢
        exact freeVia_frees (freeVia_frees freeBlock_frees) s _ none coherent ready

theorem freeZones_spec (slots : List (Fin 9)) (busy : Bool) (coherent : s.volume.Coherent) (sound : s.Sound) :
    ∃ busy' s' F, freeZones slots busy s = .ok (busy', s') ∧ s'.Sound ∧ s.Loses F s' ∧
      (∀ k, s.zone k = 0 → s'.zone k = 0) ∧
      (busy' = false → busy = false ∧ ∀ k ∈ slots, s'.zone k = 0) ∧
      (busy' = true → busy = true ∨ s'.waits < s.waits) := by
  induction slots generalizing s busy with
  | nil =>
    have none : s.Loses ∅ s := ⟨Set.empty_subset _, Set.sdiff_empty.symm, .nothing rfl rfl (Nat.le_refl _), coherent⟩
    exact ⟨busy, s, ∅, rfl, sound, none, fun _ zero => zero, fun idle => ⟨idle, by simp⟩, fun isBusy => .inl isBusy⟩
  | cons k rest ih =>
    obtain ⟨r, t, freed, outcome⟩ := freeTree_spec coherent sound k
    rw [freeZones, freed]
    dsimp only [Except.bind]
    rcases outcome with ⟨success, clears⟩ | ⟨rfl, fewer, ready, G, shrinks⟩
    · rw [if_pos success]
      generalize isNext : ({ t with zone := update t.zone k 0 } : State) = s₁
      have zone : s₁.zone = update s.zone k 0 := by
        rw [← isNext, ← clears.zone]
      have volume : s₁.volume = t.volume := isNext ▸ rfl
      have keeps : s.volume.Keeps (treeBlocks (ZoneTree.State.depth k) s.contents (s.zone k)) s₁.volume := by
        rw [volume]
        exact clears.keeps
      have frees : s.Frees (treeBlocks (ZoneTree.State.depth k) s.contents (s.zone k)) s₁ := by
        have same : t.Frees ∅ s₁ := .nothing (by rw [volume]) (isNext ▸ rfl) (isNext ▸ Nat.le_refl _)
        have both := clears.frees.trans same
        rwa [Set.union_empty] at both
      obtain ⟨sound₁, loses₁⟩ := sound.shrink zone Set.Subset.rfl (by rw [treeBlocks_none, Set.sdiff_self])
        (distinctBelow_none _ _) (fun b none => absurd none (by simp [treeBlocks_none])) frees keeps
      obtain ⟨busy', s', F, ran, sound', loses, zeros, idle, isBusy⟩ := ih busy loses₁.coherent sound₁
      have cleared : s₁.zone k = 0 := by rw [zone, update_self]
      refine ⟨busy', s', _, ran, sound', loses₁.trans loses, fun l zero => zeros l ?_,
        fun none => ⟨(idle none).1, List.forall_mem_cons.mpr ⟨zeros k cleared, (idle none).2⟩⟩,
        fun some_ => (isBusy some_).imp_right fun less => Nat.lt_of_lt_of_le less loses₁.frees.waits⟩
      by_cases here : l = k
      · rw [here, cleared]
      · rw [zone, update_of_ne here, zero]
    · rw [if_neg (not_not_intro rfl)]
      have zone : t.zone = update s.zone k (s.zone k) := by
        rw [update_eq_self, shrinks.zone]
      obtain ⟨sound₁, loses₁⟩ :=
        sound.shrink zone shrinks.subset shrinks.left ready.distinct ready.unheld shrinks.frees shrinks.keeps
      obtain ⟨busy', s', F, ran, sound', loses, zeros, idle, isBusy⟩ := ih true loses₁.coherent sound₁
      refine ⟨busy', s', _, ran, sound', loses₁.trans loses, fun l zero => zeros l ?_,
        fun none => absurd (idle none).1 (by simp),
        fun _ => .inr (Nat.lt_of_le_of_lt loses.frees.waits fewer)⟩
      rw [shrinks.zone, zero]

theorem Sound.congr (sound : s.Sound) (volume : t.volume = s.volume) (zone : t.zone = s.zone) : t.Sound := by
  have zones : t.zones = s.zones := by
    rw [State.zones, State.zones, State.contents, State.contents, volume, zone]
  refine ⟨?_, fun b inside => ?_, fun b inside => ?_⟩
  · rw [State.contents, volume, zone]
    exact sound.distinct
  · have inUse := sound.inUse b (zones ▸ inside)
    exact ⟨volume ▸ inUse.first, volume ▸ inUse.last, volume ▸ inUse.slot, volume ▸ inUse.bit⟩
  · rw [volume]
    exact sound.unheld b (zones ▸ inside)

theorem Loses.congr (loses : s.Loses F s') (volume : t.volume = s'.volume) (zone : t.zone = s'.zone)
    (printed : t.printed = s'.printed) (waits : t.waits = s'.waits) : s.Loses F t := by
  have none : s'.Loses ∅ t := by
    refine ⟨Set.empty_subset _, ?_, .nothing (by rw [volume]) printed (Nat.le_of_eq waits), volume ▸ loses.coherent⟩
    rw [State.zones, State.zones, State.contents, State.contents, volume, zone, Set.sdiff_empty]
  have both := loses.trans none
  rwa [Set.union_empty] at both

theorem truncateLoop_spec (now : Nat) (coherent : s.volume.Coherent) (sound : s.Sound) :
    ∃ s', (∀ passes, s.waits < passes → truncateLoop now passes s = .ok (some s')) ∧ s'.size = 0 ∧
      (∀ k, s'.zone k = 0) ∧ s.Loses s.zones s' := by
  induction count : s.waits using Nat.strong_induction_on generalizing s with
  | _ count' ih =>
  subst count
  obtain ⟨busy, t, F, ran, sound', loses, -, idle, isBusy⟩ := freeZones_spec (List.finRange 9) false coherent sound
  have round (passes : Nat) : truncateLoop now (passes + 1) s =
      if busy then truncateLoop now passes { t with dirt := true }
      else .ok (some { t with dirt := true, size := 0, mtime := now, ctime := now }) := by
    rw [truncateLoop, ran]
    rfl
  cases busy with
  | false =>
    have zeros (k : Fin 9) : t.zone k = 0 := (idle rfl).2 k (List.mem_finRange k)
    have nothing : t.zones = ∅ := by
      refine Set.eq_empty_iff_forall_notMem.mpr ?_
      rintro b ⟨k, inside⟩
      rw [zeros, treeBlocks_none] at inside
      exact inside
    have everything : F = s.zones :=
      Set.Subset.antisymm loses.subset (Set.sdiff_eq_empty.mp (loses.left.symm.trans nothing))
    rw [everything] at loses
    refine ⟨{ t with dirt := true, size := 0, mtime := now, ctime := now }, fun passes enough => ?_, rfl, zeros,
      loses.congr rfl rfl rfl rfl⟩
    obtain ⟨more, rfl⟩ := Nat.exists_eq_add_of_lt enough
    exact round (s.waits + more)
  | true =>
    have fewer : t.waits < s.waits := (isBusy rfl).resolve_left (by simp)
    obtain ⟨s', ends, size, zeros, rest⟩ :=
      ih t.waits fewer (s := { t with dirt := true }) loses.coherent (sound'.congr rfl rfl) rfl
    have all := (loses.congr (t := { t with dirt := true }) rfl rfl rfl rfl).trans rest
    have everything : F ∪ ({ t with dirt := true } : State).zones = s.zones := by
      have zones : ({ t with dirt := true } : State).zones = t.zones := rfl
      rw [zones, loses.left, Set.union_sdiff_cancel loses.subset]
    rw [everything] at all
    refine ⟨s', fun passes enough => ?_, size, zeros, all⟩
    obtain ⟨more, rfl⟩ := Nat.exists_eq_add_of_lt enough
    exact (round (s.waits + more)).trans (ends _ (by omega))

open ZoneTree.State in
theorem truncate_frees_all (now : Nat) (mode : (S_ISREG s.mode || S_ISDIR s.mode || S_ISLNK s.mode) = true)
    (coherent : s.volume.Coherent) (sound : s.Sound) :
    ∃ s', (∀ passes, s.waits < passes → truncate now passes s = .ok (some s')) ∧ s'.printed = s.printed ∧ s'.size = 0 ∧
      (∀ block < blocks, s'.toState.Maps block 0) ∧
      ∀ n, marked s'.volume.sb.zmap n = true ↔
        marked s.volume.sb.zmap n = true ∧ ∀ z ∈ s.zones, s.volume.sb.bitOf z ≠ n := by
  obtain ⟨s', ends, size, zeros, loses⟩ := truncateLoop_spec now coherent sound
  have values (k : Fin 9) (path : List (Fin 512)) : s'.toState.value k path = 0 := by
    rw [value, zeros, walk_zero]
  have sharing : s'.toState.Sharing :=
    ⟨fun k path l path' _ _ nonzero => absurd (values k path) nonzero,
      fun k path _ nonzero => absurd (values k path) nonzero⟩
  refine ⟨s', fun passes enough => ?_, loses.frees.printed, size, fun block inside => ?_, loses.frees.bits⟩
  · rw [truncate, if_pos mode]
    exact ends passes enough
  · exact (maps_iff loses.coherent sharing inside).mpr (values _ _).symm

/-- A regular file whose block 7 is zone 4, with zone 3 as the index block; one call of
`free_block` meets another process. -/
def indirect : State where
  volume :=
    { sb := (Volume.small 0 7).sb, cache := fun _ => none, disk := fun b j => if b = 3 ∧ j.val = 0 then 4 else 0 }
  zone := fun k => if k = 7 then 3 else 0
  dirt := false
  ctime := 0
  free := fun _ => ⟨none, fun _ => 0⟩
  mode := S_IFREG
  size := 8192
  mtime := 0
  holders := [true]
  printed := false

theorem indirect_entries {b : Nat} (inside : b ∈ treeBlocks 0 indirect.contents (indirect.contents 3 j)) :
    b = 4 ∧ j = 0 := by
  have entry : indirect.contents 3 j = if j = 0 then 4 else 0 := by
    by_cases first : j = 0 <;> simp [indirect, Volume.contents, Fin.val_eq_zero_iff, first]
  rw [entry] at inside
  split at inside
  · next first =>
    rw [treeBlocks_leaf (by decide)] at inside
    exact ⟨inside, first⟩
  · rw [treeBlocks_none] at inside
    exact absurd inside (Set.notMem_empty b)

open ZoneTree.State in
theorem indirect_tree {b : Nat} {k : Fin 9} (inside : b ∈ treeBlocks (depth k) indirect.contents (indirect.zone k)) :
    k = 7 ∧ (b = 3 ∨ b = 4) := by
  have entry : indirect.zone k = if k = 7 then 3 else 0 := rfl
  rw [entry] at inside
  split at inside
  · next seventh =>
    subst seventh
    refine ⟨rfl, ?_⟩
    rcases (mem_treeBlocks_succ (by decide)).mp inside with isIndex | ⟨j, inEntry⟩
    · exact .inl isIndex
    · exact .inr (indirect_entries inEntry).1
  · rw [treeBlocks_none] at inside
    exact absurd inside (Set.notMem_empty b)

theorem indirect_sound : indirect.Sound := by
  refine ⟨distinct_of_trees (fun k => ?_) fun k l b first second => ?_, ?_, fun b _ bh cached => ?_⟩
  · by_cases seventh : k = 7
    · subst seventh
      refine (distinctBelow_succ (z := 3) (by decide)).mpr ⟨distinct_of_trees (fun j => distinctBelow_leaf _ _) ?_, ?_⟩
      · exact fun i j b first second => (indirect_entries first).2.trans (indirect_entries second).2.symm
      · exact fun j inside => absurd (indirect_entries inside).1 (by decide)
    · have none : indirect.zone k = 0 := if_neg seventh
      rw [none]
      exact distinctBelow_none _ _
  · exact (indirect_tree first).1.trans (indirect_tree second).1.symm
  · rintro b ⟨k, inside⟩
    have bits (n : Nat) (inside : n < 8192) := Volume.marked_small 0 7 n inside
    rcases (indirect_tree inside).2 with rfl | rfl
    · exact ⟨by decide, by decide, rfl, bits 1 (by decide)⟩
    · exact ⟨by decide, by decide, rfl, bits 2 (by decide)⟩
  · cases cached

theorem truncate_indirect : ∃ s', truncate 5 2 indirect = .ok (some s') ∧ s'.printed = false ∧ s'.size = 0 ∧
    marked s'.volume.sb.zmap 1 = false ∧ marked s'.volume.sb.zmap 2 = false := by
  have coherent : indirect.volume.Coherent := by
    intro block bh cached
    cases cached
  obtain ⟨s', ends, printed, size, -, bits⟩ := truncate_frees_all 5 rfl coherent indirect_sound
  have index : 3 ∈ indirect.zones := ⟨7, mem_treeBlocks_self (by decide) _ _⟩
  have entry : 4 ∈ indirect.zones := by
    refine ⟨7, (mem_treeBlocks_succ (z := 3) (by decide)).mpr (.inr ⟨0, ?_⟩)⟩
    exact mem_treeBlocks_self (z := 4) (by decide) _ _
  refine ⟨s', ends 2 (by decide), printed, size, ?_, ?_⟩
  · exact Bool.eq_false_iff.mpr fun isSet => ((bits 1).mp isSet).2 3 index rfl
  · exact Bool.eq_false_iff.mpr fun isSet => ((bits 2).mp isSet).2 4 entry rfl

end State

end Linux012.Fs.Truncate

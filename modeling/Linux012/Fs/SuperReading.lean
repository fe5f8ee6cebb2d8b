import Linux012.Fs.Mounting

/-! `read_super` on any block 1 and any set of unreadable blocks: the super blocks that it
reads in, those it turns down, and those at which it runs past a map or through `NULL`. -/

set_option autoImplicit false

namespace Linux012.Fs.Mount

open Function

/-! ## One map -/

@[simp]
theorem SuperBlock.setMap_dev (sb : SuperBlock) (kind : MapKind) (map : Fin MAP_SLOTS → Option Buffer) :
    (sb.setMap kind map).dev = sb.dev := by
  cases kind <;> rfl

@[simp]
theorem SuperBlock.map_setMap (sb : SuperBlock) (kind : MapKind) (map : Fin MAP_SLOTS → Option Buffer) :
    (sb.setMap kind map).map kind = map := by
  cases kind <;> rfl

@[simp]
theorem SuperBlock.setMap_setMap (sb : SuperBlock) (kind : MapKind) (first second : Fin MAP_SLOTS → Option Buffer) :
    (sb.setMap kind first).setMap kind second = sb.setMap kind second := by
  cases kind <;> rfl

theorem SuperBlock.setMap_map (sb : SuperBlock) (kind : MapKind) : sb.setMap kind (sb.map kind) = sb := by
  cases kind <;> rfl

def State.readOne (st : State) (s : Fin NR_SUPER) (kind : MapKind) (i : Fin MAP_SLOTS) (bh : Buffer) : State :=
  { st with count := update st.count bh (st.count bh + 1) }.setSuper s
    ((st.superBlock s).setMap kind (update ((st.superBlock s).map kind) i (some bh)))

structure Grown (others : Buffer → Nat) (s : Fin NR_SUPER) (kind : MapKind) (dev i block n : Nat)
    (st st' : State) : Prop where
  balanced : st'.Balanced others
  data : st'.data = st.data
  map : ∃ map, st'.superBlock = update st.superBlock s ((st.superBlock s).setMap kind map) ∧
    (∀ j : Fin MAP_SLOTS, j.val < i ∨ i + n ≤ j.val → map j = (st.superBlock s).map kind j) ∧
    ∀ k < n, ∃ inside : i + k < MAP_SLOTS, map ⟨i + k, inside⟩ = some (dev, block + k)

inductive MapRead (others : Buffer → Nat) (disks : Disks) (s : Fin NR_SUPER) (kind : MapKind)
    (dev rounds i block : Nat) (st : State) : Except Fault (Nat × State) → Prop where
  | complete (st' : State) (fits : i + rounds ≤ MAP_SLOTS)
      (readable : ∀ k < rounds, disks.readable (dev, block + k) = true)
      (grown : Grown others s kind dev i block rounds st st') :
      MapRead others disks s kind dev rounds i block st (.ok (block + rounds, st'))
  | stopped (n : Nat) (st' : State) (early : n < rounds) (inside : i + n < MAP_SLOTS)
      (unreadable : disks.readable (dev, block + n) = false)
      (grown : Grown others s kind dev i block n st st') :
      MapRead others disks s kind dev rounds i block st (.ok (block + n, st'))
  | past (fault : Fault) (tooMany : MAP_SLOTS < i + rounds)
      (readable : ∀ k, i + k < MAP_SLOTS → disks.readable (dev, block + k) = true) :
      MapRead others disks s kind dev rounds i block st (.error fault)

section Map

variable {others : Buffer → Nat} {disks : Disks} {dev rounds i block : Nat} {st st' : State}
  {s : Fin NR_SUPER} {kind : MapKind}

theorem Grown.none (balanced : st.Balanced others) : Grown others s kind dev i block 0 st st := by
  refine ⟨balanced, rfl, (st.superBlock s).map kind, ?_, fun _ _ => rfl, by simp⟩
  rw [SuperBlock.setMap_map, update_eq_self]

theorem Grown.cons {n : Nat} (inside : i < MAP_SLOTS)
    (grown : Grown others s kind dev (i + 1) (block + 1) n (st.readOne s kind ⟨i, inside⟩ (dev, block)) st') :
    Grown others s kind dev i block (n + 1) st st' := by
  obtain ⟨map, changed, outside, filled⟩ := grown.map
  have atSlot : (st.readOne s kind ⟨i, inside⟩ (dev, block)).superBlock s = (st.superBlock s).setMap kind
      (update ((st.superBlock s).map kind) ⟨i, inside⟩ (some (dev, block))) :=
    update_self ..
  rw [atSlot, SuperBlock.map_setMap] at outside
  refine ⟨grown.balanced, grown.data, map, ?_, ?_, ?_⟩
  · rw [changed, atSlot, SuperBlock.setMap_setMap, State.readOne, State.setSuper, update_idem]
  · intro j where_
    rw [outside j (by omega), update_of_ne]
    rintro rfl
    simp only at where_
    omega
  · intro k less
    cases k with
    | zero =>
      have first := outside ⟨i, inside⟩ (.inl (Nat.lt_succ_self i))
      rw [update_self] at first
      exact ⟨inside, first⟩
    | succ k =>
      obtain ⟨within, value⟩ := filled k (by omega)
      have sameIndex : i + 1 + k = i + (k + 1) := by omega
      have sameBlock : block + 1 + k = block + (k + 1) := by omega
      simp only [sameIndex, sameBlock] at within value
      exact ⟨within, value⟩

theorem MapRead.cons {outcome : Except Fault (Nat × State)} (inside : i < MAP_SLOTS)
    (readable : disks.readable (dev, block) = true)
    (rest : MapRead others disks s kind dev rounds (i + 1) (block + 1)
      (st.readOne s kind ⟨i, inside⟩ (dev, block)) outcome) :
    MapRead others disks s kind dev (rounds + 1) i block st outcome := by
  have shifted (k : Nat) : block + 1 + k = block + (k + 1) := by omega
  cases rest with
  | complete st' fits all grown =>
    rw [shifted]
    refine .complete st' (by omega) ?_ (grown.cons inside)
    intro k less
    cases k with
    | zero => exact readable
    | succ k => exact shifted k ▸ all k (by omega)
  | stopped n st' early within unreadable grown =>
    rw [shifted]
    exact .stopped (n + 1) st' (by omega) (by omega) (shifted n ▸ unreadable) (grown.cons inside)
  | past fault tooMany all =>
    refine .past fault (by omega) ?_
    intro k within
    cases k with
    | zero => exact readable
    | succ k => exact shifted k ▸ all k (by omega)

theorem State.Balanced.storeMap (balanced : st.Balanced others) (used : (st.superBlock s).dev ≠ 0)
    {j : Fin MAP_SLOTS} (null : (st.superBlock s).map kind j = none) {stored : Option Buffer}
    {count : Buffer → Nat} (counted : ∀ bh, count bh = st.count bh + (decide (stored = some bh)).toNat) :
    ({ st with count := count }.setSuper s ((st.superBlock s).setMap kind
      (update ((st.superBlock s).map kind) j stored))).Balanced others := by
  intro bh
  have changed := st.refs_setSuper s ((st.superBlock s).setMap kind (update ((st.superBlock s).map kind) j stored)) bh
  rw [SuperBlock.refs_setMap used kind null] at changed
  have before := balanced bh
  have here := counted bh
  simp only [State.setSuper, State.refs] at changed before ⊢
  omega

theorem readMap_readable (inside : i < MAP_SLOTS) (readable : disks.readable (dev, block) = true) :
    readMap disks s kind dev (rounds + 1) i block st =
      readMap disks s kind dev rounds (i + 1) (block + 1) (st.readOne s kind ⟨i, inside⟩ (dev, block)) := by
  rw [readMap, bread, if_pos readable]
  simp only [State.storeMap, dif_pos inside]
  rfl

theorem readMap_unreadable (inside : i < MAP_SLOTS) (null : (st.superBlock s).map kind ⟨i, inside⟩ = none)
    (unreadable : disks.readable (dev, block) = false) :
    readMap disks s kind dev (rounds + 1) i block st = .ok (block, st) := by
  have same : update ((st.superBlock s).map kind) ⟨i, inside⟩ none = (st.superBlock s).map kind := by
    rw [← null, update_eq_self]
  have stored : State.storeMap st s kind i none = .ok st := by
    rw [State.storeMap, dif_pos inside, same, SuperBlock.setMap_map, State.setSuper, update_eq_self]
  rw [readMap, bread, if_neg (by simp [unreadable])]
  simp only [stored]
  rfl

theorem readMap_past (outside : ¬i < MAP_SLOTS) :
    readMap disks s kind dev (rounds + 1) i block st = .error (.pastMap i) := by
  rw [readMap]
  simp only [State.storeMap, dif_neg outside]
  rfl

theorem readMap_cases (balanced : st.Balanced others) (used : (st.superBlock s).dev ≠ 0) (within : i ≤ MAP_SLOTS)
    (null : ∀ j : Fin MAP_SLOTS, i ≤ j.val → (st.superBlock s).map kind j = none) :
    MapRead others disks s kind dev rounds i block st (readMap disks s kind dev rounds i block st) := by
  induction rounds generalizing i block st with
  | zero => exact .complete st within (by simp) (.none balanced)
  | succ rounds ih =>
    by_cases inside : i < MAP_SLOTS
    · have here := null ⟨i, inside⟩ (Nat.le_refl i)
      cases readable : disks.readable (dev, block) with
      | true =>
        rw [readMap_readable inside readable]
        have stored : (st.readOne s kind ⟨i, inside⟩ (dev, block)).Balanced others := by
          apply balanced.storeMap used here
          intro bh
          by_cases same : bh = (dev, block)
          · simp [same]
          · simp [update_of_ne same, Ne.symm same]
        refine MapRead.cons inside readable (ih stored ?_ inside ?_)
        · simpa [State.readOne, State.setSuper] using used
        · intro j after
          simp only [State.readOne, State.setSuper, update_self, SuperBlock.map_setMap]
          rw [update_of_ne, null j (by omega)]
          rintro rfl
          exact absurd after (Nat.not_succ_le_self i)
      | false =>
        rw [readMap_unreadable inside here readable]
        exact .stopped 0 st (Nat.succ_pos rounds) inside readable (.none balanced)
    · rw [readMap_past inside]
      exact .past _ (by omega) (by intro k small; omega)

theorem readMap_stuck (null : (st.superBlock s).map kind ⟨0, by decide⟩ = none)
    (unreadable : disks.readable (dev, block) = false) :
    readMap disks s kind dev rounds 0 block st = .ok (block, st) := by
  cases rounds with
  | zero => rfl
  | succ rounds => exact readMap_unreadable (by decide) null unreadable

end Map

/-! ## The claimed slot -/

/-- What the code does with block 1 ends well: the fields of the maps are no more than the
array holds, or a block that cannot be read comes first; and no kind of map is empty, or
some block of the maps cannot be read. -/
structure MapsFit (disks : Disks) (dev : Nat) (d : DSuperBlock) : Prop where
  imap : d.imapBlocks ≤ MAP_SLOTS ∨ ∃ i < MAP_SLOTS, disks.readable (dev, 2 + i) = false
  zmap : d.zmapBlocks ≤ MAP_SLOTS ∨ (∃ i < d.imapBlocks, disks.readable (dev, 2 + i) = false) ∨
    ∃ i < MAP_SLOTS, disks.readable (dev, 2 + d.imapBlocks + i) = false
  both : 0 < d.imapBlocks ∧ 0 < d.zmapBlocks ∨
    ∃ i < d.imapBlocks + d.zmapBlocks, disks.readable (dev, 2 + i) = false

structure Filled (others : Buffer → Nat) (s : Fin NR_SUPER) (dev : Nat) (st st' : State)
    (found : Option (Fin NR_SUPER)) : Prop where
  sound : st'.Sound others
  others : ∀ t, t ≠ s → st'.superBlock t = st.superBlock t
  answer : found = some s ∧ (st'.superBlock s).dev = dev ∨ found = none ∧ (st'.superBlock s).dev = 0

section Fill

variable {others : Buffer → Nat} {disks : Disks} {dev block : Nat} {st st' : State} {s : Fin NR_SUPER}
  {sb : SuperBlock}

theorem Filled.abandoned (sound : st.Sound others) (balanced : st'.Balanced others)
    (changed : st'.superBlock = update st.superBlock s sb) (free : sb.dev = 0)
    (unlocked : sb.lock = false) : Filled others s dev st st' none := by
  refine ⟨sound.put balanced changed unlocked (absurd free), ?_, .inr ⟨rfl, ?_⟩⟩
  · intro t other
    rw [changed, update_of_ne other]
  · rw [changed, update_self, free]

theorem Filled.mounted (sound : st.Sound others) (balanced : st'.Balanced others)
    (changed : st'.superBlock = update st.superBlock s sb) (isDev : sb.dev = dev)
    (unlocked : sb.lock = false) (absent : ∀ t, (st.superBlock t).dev ≠ dev) (mapped : sb.Mapped) :
    Filled others s dev st st' (some s) := by
  refine ⟨sound.put balanced changed unlocked fun _ => ⟨fun t _ => ?_, mapped⟩, ?_, .inl ⟨rfl, ?_⟩⟩
  · rw [isDev]
    exact absent t
  · intro t other
    rw [changed, update_of_ne other]
  · rw [changed, update_self, isDev]

theorem State.Balanced.unreferenced (balanced : st.Balanced others) (free : (st.superBlock s).dev = 0)
    (none : ∀ bh, sb.refs bh = 0) : (st.setSuper s sb).Balanced others := by
  apply balanced.setSuper
  intro bh
  rw [none, SuperBlock.refs_of_dev_zero free]

theorem SuperBlock.refs_clearMaps (sb : SuperBlock) (bh : Buffer) : sb.clearMaps.refs bh = 0 := by
  have empty : sb.clearMaps.maps.count (some bh) = 0 := by
    rw [List.count_eq_zero]
    simp [SuperBlock.maps, SuperBlock.clearMaps]
  rw [SuperBlock.refs, empty, ite_self]

theorem bread_readable (readable : disks.readable (dev, block) = true) :
    bread disks dev block st = (some (dev, block),
      { st with count := update st.count (dev, block) (st.count (dev, block) + 1) }) :=
  if_pos readable

theorem fillSuper_unreadable (unreadable : disks.readable (dev, 1) = false) :
    fillSuper disks s dev (st.setSuper s sb) = .ok (none, st.setSuper s { sb with dev := 0, lock := false }) := by
  simp [fillSuper, bread, unreadable, State.clearDev, State.freeSuper, State.setSuper]

def SuperBlock.read (sb : SuperBlock) (b : Block) : SuperBlock := { sb with toDSuperBlock := dSuperBlock b }

theorem brelse_bread (st : State) (bh : Buffer) (table : Fin NR_SUPER → SuperBlock) :
    brelse (some bh) { st with superBlock := table, count := update st.count bh (st.count bh + 1) } =
      .ok { st with superBlock := table } := by
  simp [brelse]

theorem fillSuper_otherMagic (readable : disks.readable (dev, 1) = true)
    (other : (dSuperBlock (st.data (dev, 1))).magic ≠ SUPER_MAGIC) :
    fillSuper disks s dev (st.setSuper s sb) =
      .ok (none, st.setSuper s { sb.read (st.data (dev, 1)) with dev := 0, lock := false }) := by
  rw [fillSuper, bread_readable readable]
  simp only [State.setSuper, update_self, update_idem]
  rw [brelse_bread]
  change (if (update st.superBlock s _ s).magic ≠ SUPER_MAGIC then _ else _) = _
  simp [other, State.clearDev, State.freeSuper, State.setSuper, SuperBlock.read]
  rfl

theorem fillSuper_magic (readable : disks.readable (dev, 1) = true)
    (right : (dSuperBlock (st.data (dev, 1))).magic = SUPER_MAGIC) :
    fillSuper disks s dev (st.setSuper s sb) =
      readImap disks s dev 2 (st.setSuper s (sb.read (st.data (dev, 1))).clearMaps) >>= fun (block, st) =>
        readZmap disks s dev block st >>= fun (block, st) => finishSuper s block st := by
  rw [fillSuper, bread_readable readable]
  simp only [State.setSuper, update_self, update_idem]
  rw [brelse_bread]
  change (if (update st.superBlock s _ s).magic ≠ SUPER_MAGIC then _ else _) = _
  simp [right, SuperBlock.read]

theorem finishSuper_incomplete (sound : st.Sound others) (nonzero : dev ≠ 0) (balanced : st'.Balanced others)
    (changed : st'.superBlock = update st.superBlock s sb) (isDev : sb.dev = dev)
    (short : block ≠ 2 + sb.imapBlocks + sb.zmapBlocks) :
    ∃ st'', finishSuper s block st' = .ok (none, st'') ∧ Filled others s dev st st'' none := by
  have atSlot : st'.superBlock s = sb := by rw [changed, update_self]
  have used : (st'.superBlock s).dev ≠ 0 := by rwa [atSlot, isDev]
  let sb' : SuperBlock := { sb with dev := 0, lock := false }
  let st₁ : State := { st' with count := fun bh => st'.count bh - (st'.superBlock s).refs bh }.setSuper s sb'
  refine ⟨st₁, ?_, ?_⟩
  · have released := brelseAll_maps balanced used st'.superBlock
    rw [finishSuper, atSlot, if_pos short, ← atSlot, released]
    change Except.ok _ = _
    simp [State.clearDev, State.freeSuper, State.setSuper, st₁, sb', atSlot]
  · have ends : st₁.superBlock = update st.superBlock s sb' := by
      simp only [st₁, State.setSuper, changed, update_idem]
    exact .abandoned sound (balanced.released rfl) ends rfl rfl

theorem finishSuper_null (complete : block = 2 + (st.superBlock s).imapBlocks + (st.superBlock s).zmapBlocks)
    (empty : (st.superBlock s).imap ⟨0, by decide⟩ = none ∨ (st.superBlock s).zmap ⟨0, by decide⟩ = none) :
    finishSuper s block st = .error .nullBuffer := by
  rw [finishSuper, if_neg (by simpa using complete)]
  cases first : (st.superBlock s).imap ⟨0, by decide⟩ with
  | none => rfl
  | some bh =>
    have second : ((st.setFirstBit bh).superBlock s).zmap ⟨0, by decide⟩ = none := by
      simpa [first, State.setFirstBit] using empty
    change ((st.setFirstBit bh).markFirst _ >>= _) = _
    rw [second]
    rfl

theorem finishSuper_complete (complete : block = 2 + (st.superBlock s).imapBlocks + (st.superBlock s).zmapBlocks)
    {first second : Buffer} (imap : (st.superBlock s).imap ⟨0, by decide⟩ = some first)
    (zmap : (st.superBlock s).zmap ⟨0, by decide⟩ = some second) :
    finishSuper s block st = .ok (some s, ((st.setFirstBit first).setFirstBit second).freeSuper s) := by
  rw [finishSuper, if_neg (by simpa using complete), imap]
  change ((st.setFirstBit first).markFirst ((st.superBlock s).zmap ⟨0, by decide⟩) >>= _) = _
  rw [zmap]
  rfl

theorem finishSuper_cases (sound : st.Sound others) (balanced : st'.Balanced others)
    (absent : ∀ t, (st.superBlock t).dev ≠ dev)
    (changed : st'.superBlock = update st.superBlock s sb) (isDev : sb.dev = dev)
    (complete : block = 2 + sb.imapBlocks + sb.zmapBlocks) (mapped : sb.Mapped)
    (imapNull : sb.imapBlocks = 0 → sb.imap ⟨0, by decide⟩ = none)
    (zmapNull : sb.zmapBlocks = 0 → sb.zmap ⟨0, by decide⟩ = none) :
    (0 < sb.imapBlocks ∧ 0 < sb.zmapBlocks ∧
      ∃ st'', finishSuper s block st' = .ok (some s, st'') ∧ Filled others s dev st st'' (some s)) ∨
    (¬(0 < sb.imapBlocks ∧ 0 < sb.zmapBlocks) ∧ finishSuper s block st' = .error .nullBuffer) := by
  have atSlot : st'.superBlock s = sb := by rw [changed, update_self]
  rw [← atSlot] at complete
  by_cases some : 0 < sb.imapBlocks ∧ 0 < sb.zmapBlocks
  · obtain ⟨inode, zone⟩ := some
    obtain ⟨_, first⟩ := mapped.imap 0 inode
    obtain ⟨_, second⟩ := mapped.zmap 0 zone
    rw [← atSlot] at first second
    refine .inl ⟨inode, zone, _, finishSuper_complete complete first second, ?_⟩
    let st₁ := (st'.setFirstBit (sb.dev, 2 + 0)).setFirstBit (sb.dev, 2 + sb.imapBlocks + 0)
    have marked : st₁.Balanced others := balanced
    have ends : (st₁.freeSuper s).superBlock = update st.superBlock s { sb with lock := false } := by
      simp only [st₁, State.freeSuper, State.setSuper, State.setFirstBit, changed, update_self, update_idem]
    exact .mounted sound (marked.setSuper fun bh => rfl) ends isDev rfl absent ⟨mapped.imap, mapped.zmap⟩
  · refine .inr ⟨some, finishSuper_null complete ?_⟩
    rw [atSlot]
    by_cases inode : 0 < sb.imapBlocks
    · exact .inr (zmapNull (by omega))
    · exact .inl (imapNull (by omega))

theorem zmap_cases (sb : SuperBlock) (sound : st.Sound others) (nonzero : dev ≠ 0) (balanced : st'.Balanced others)
    (absent : ∀ t, (st.superBlock t).dev ≠ dev)
    (changed : st'.superBlock = update st.superBlock s sb) (isDev : sb.dev = dev)
    (imap : ∀ i, i < sb.imapBlocks → ∃ inside : i < MAP_SLOTS, sb.imap ⟨i, inside⟩ = some (dev, 2 + i))
    (imapNull : sb.imapBlocks = 0 → sb.imap ⟨0, by decide⟩ = none) (zmapNull : ∀ i, sb.zmap i = none)
    (fits : sb.imapBlocks ≤ MAP_SLOTS)
    (readable : ∀ i < sb.imapBlocks, disks.readable (dev, 2 + i) = true) :
    let outcome := readZmap disks s dev (2 + sb.imapBlocks) st' >>= fun (block, st) => finishSuper s block st
    (∃ found st'', outcome = .ok (found, st'') ∧ Filled others s dev st st'' found ∧
      MapsFit disks dev sb.toDSuperBlock) ∨
    (∃ fault, outcome = .error fault ∧ ¬MapsFit disks dev sb.toDSuperBlock) := by
  have atSlot : st'.superBlock s = sb := by rw [changed, update_self]
  have cases_ : MapRead others disks s .zmap dev sb.zmapBlocks 0 (2 + sb.imapBlocks) st'
      (readMap disks s .zmap dev sb.zmapBlocks 0 (2 + sb.imapBlocks) st') := by
    apply readMap_cases balanced (by rwa [atSlot, isDev]) (Nat.zero_le _)
    intro j _
    rw [atSlot]
    exact zmapNull j
  simp only [readZmap, atSlot]
  generalize readMap disks s .zmap dev sb.zmapBlocks 0 (2 + sb.imapBlocks) st' = outcome at cases_ ⊢
  cases cases_ with
  | complete st₂ within all grown =>
    obtain ⟨map, updated, outside, filled⟩ := grown.map
    rw [changed, update_idem, update_self] at updated
    rw [atSlot] at outside
    have ends := finishSuper_cases sound grown.balanced absent updated isDev rfl ?_ imapNull ?_
    · rcases ends with ⟨inode, zone, st'', done, mounted⟩ | ⟨empty, failed⟩
      · refine .inl ⟨_, st'', done, mounted, .inl fits, .inl (by omega), .inl ⟨inode, zone⟩⟩
      · refine .inr ⟨_, failed, fun fitting => ?_⟩
        rcases fitting.both with both | ⟨i, less, unreadable⟩
        · exact empty both
        · by_cases first : i < sb.imapBlocks
          · rw [readable i first] at unreadable
            cases unreadable
          · have here := all (i - sb.imapBlocks) (by omega)
            have same : 2 + sb.imapBlocks + (i - sb.imapBlocks) = 2 + i := by omega
            rw [same, unreadable] at here
            cases here
    · refine ⟨fun i less => ?_, fun i less => ?_⟩
      · obtain ⟨inside, value⟩ := imap i less
        exact ⟨inside, value.trans (by rw [← isDev]; rfl)⟩
      · obtain ⟨inside, value⟩ := filled i less
        simp only [Nat.zero_add] at inside value
        exact ⟨inside, value.trans (by rw [← isDev]; rfl)⟩
    · intro empty
      change sb.zmapBlocks = 0 at empty
      have none := outside ⟨0, by decide⟩ (.inr (by simp only [empty, Nat.add_zero, Nat.le_refl]))
      exact none.trans (zmapNull _)
  | stopped n st₂ early inside unreadable grown =>
    obtain ⟨map, updated, _, _⟩ := grown.map
    rw [changed, update_idem, update_self] at updated
    have short : 2 + sb.imapBlocks + n ≠ 2 + sb.imapBlocks + sb.zmapBlocks := by omega
    obtain ⟨st'', done, abandoned⟩ := finishSuper_incomplete sound nonzero grown.balanced updated isDev short
    refine .inl ⟨_, st'', done, abandoned, .inl fits, .inr (.inr ⟨n, by omega, unreadable⟩), .inr ?_⟩
    refine ⟨sb.imapBlocks + n, by omega, ?_⟩
    rwa [← Nat.add_assoc]
  | past fault tooMany all =>
    refine .inr ⟨fault, rfl, fun fitting => ?_⟩
    rcases fitting.zmap with few | ⟨i, less, unreadable⟩ | ⟨i, less, unreadable⟩
    · change sb.zmapBlocks ≤ MAP_SLOTS at few
      omega
    · rw [readable i less] at unreadable
      cases unreadable
    · have here := all i (by omega)
      rw [here] at unreadable
      cases unreadable

theorem maps_cases (disks : Disks) (sb : SuperBlock) (sound : st.Sound others) (nonzero : dev ≠ 0)
    (free : (st.superBlock s).dev = 0)
    (absent : ∀ t, (st.superBlock t).dev ≠ dev) (isDev : sb.dev = dev) :
    let outcome := readImap disks s dev 2 (st.setSuper s sb.clearMaps) >>= fun (block, st) =>
      readZmap disks s dev block st >>= fun (block, st) => finishSuper s block st
    (∃ found st', outcome = .ok (found, st') ∧ Filled others s dev st st' found ∧
      MapsFit disks dev sb.toDSuperBlock) ∨
    (∃ fault, outcome = .error fault ∧ ¬MapsFit disks dev sb.toDSuperBlock) := by
  have atSlot : (st.setSuper s sb.clearMaps).superBlock s = sb.clearMaps := update_self ..
  have cases_ : MapRead others disks s .imap dev sb.imapBlocks 0 2 (st.setSuper s sb.clearMaps)
      (readMap disks s .imap dev sb.imapBlocks 0 2 (st.setSuper s sb.clearMaps)) := by
    apply readMap_cases (sound.balanced.unreferenced free sb.refs_clearMaps) ?_ (Nat.zero_le _)
    · intro j _
      rw [atSlot]
      rfl
    · rw [atSlot]
      exact isDev.trans_ne nonzero
  have rounds : ((st.setSuper s sb.clearMaps).superBlock s).imapBlocks = sb.imapBlocks := by
    rw [atSlot]
    rfl
  simp only [readImap, rounds]
  generalize readMap disks s .imap dev sb.imapBlocks 0 2 (st.setSuper s sb.clearMaps) = outcome at cases_ ⊢
  cases cases_ with
  | complete st₁ within all grown =>
    obtain ⟨map, updated, outside, filled⟩ := grown.map
    rw [atSlot, State.setSuper, update_idem] at updated
    rw [atSlot] at outside
    refine zmap_cases (sb.clearMaps.setMap .imap map) sound nonzero grown.balanced absent updated isDev ?_ ?_ ?_ ?_ all
    · intro i less
      obtain ⟨inside, value⟩ := filled i less
      simp only [Nat.zero_add] at inside value
      exact ⟨inside, value⟩
    · intro empty
      change sb.imapBlocks = 0 at empty
      exact outside ⟨0, by decide⟩ (.inr (by simp only [empty, Nat.add_zero, Nat.le_refl]))
    · intro i
      rfl
    · change sb.imapBlocks ≤ MAP_SLOTS
      omega
  | stopped n st₁ early inside unreadable grown =>
    obtain ⟨map, updated, _, _⟩ := grown.map
    rw [atSlot, State.setSuper, update_idem] at updated
    have atSlot₁ : st₁.superBlock s = sb.clearMaps.setMap .imap map := by rw [updated, update_self]
    have stuck : readZmap disks s dev (2 + n) st₁ = .ok (2 + n, st₁) := by
      apply readMap_stuck ?_ unreadable
      rw [atSlot₁]
      rfl
    have short : 2 + n ≠ 2 + sb.imapBlocks + sb.zmapBlocks := by omega
    obtain ⟨st'', done, abandoned⟩ := finishSuper_incomplete sound nonzero grown.balanced updated isDev short
    refine .inl ⟨none, st'', ?_, abandoned, .inr ⟨n, by omega, unreadable⟩, .inr (.inl ⟨n, early, unreadable⟩),
      .inr ⟨n, by omega, unreadable⟩⟩
    change (readZmap disks s dev (2 + n) st₁ >>= _) = _
    rw [stuck]
    exact done
  | past fault tooMany all =>
    refine .inr ⟨fault, rfl, fun fitting => ?_⟩
    rcases fitting.imap with few | ⟨i, less, unreadable⟩
    · omega
    · rw [all i (by omega)] at unreadable
      cases unreadable

def Fits (disks : Disks) (dev : Nat) (data : Buffer → Block) : Prop :=
  disks.readable (dev, 1) = true → (dSuperBlock (data (dev, 1))).magic = SUPER_MAGIC →
    MapsFit disks dev (dSuperBlock (data (dev, 1)))

theorem fillSuper_cases (disks : Disks) (sound : st.Sound others) (nonzero : dev ≠ 0) (free : (st.superBlock s).dev = 0)
    (absent : ∀ t, (st.superBlock t).dev ≠ dev) (isDev : sb.dev = dev) :
    (∃ found st', fillSuper disks s dev (st.setSuper s sb) = .ok (found, st') ∧
      Filled others s dev st st' found ∧ Fits disks dev st.data) ∨
    (∃ fault, fillSuper disks s dev (st.setSuper s sb) = .error fault ∧ ¬Fits disks dev st.data) := by
  cases readable : disks.readable (dev, 1) with
  | false =>
    refine .inl ⟨_, _, fillSuper_unreadable readable, ?_, fun also => by rw [readable] at also; cases also⟩
    exact .abandoned sound (sound.balanced.unreferenced free fun bh => rfl) rfl rfl rfl
  | true =>
    by_cases right : (dSuperBlock (st.data (dev, 1))).magic = SUPER_MAGIC
    · rw [fillSuper_magic readable right]
      rcases maps_cases disks (sb.read (st.data (dev, 1))) sound nonzero free absent isDev with
        ⟨found, st', done, filled, fitting⟩ | ⟨fault, failed, unfit⟩
      · exact .inl ⟨found, st', done, filled, fun _ _ => fitting⟩
      · exact .inr ⟨fault, failed, fun fits => unfit (fits readable right)⟩
    · refine .inl ⟨_, _, fillSuper_otherMagic readable right, ?_, fun _ also => absurd also right⟩
      exact .abandoned sound (sound.balanced.unreferenced free fun bh => rfl) rfl rfl rfl

end Fill

/-! ## Any device -/

def Keeps (disks : Disks) (dev : Nat) (sb : SuperBlock) : Prop :=
  MAJOR dev ≠ 2 ∨ disks.floppyChange (dev &&& 3) = false ∨ dev = disks.rootDev ∨ sb.imount ≠ none

/-- `s_imap` and `s_zmap` name every block of the two bitmaps, and all of them are held. -/
structure State.HoldsMaps (st : State) (s : Fin NR_SUPER) : Prop where
  imap : ∀ i, i < (st.superBlock s).imapBlocks → ∃ inside : i < MAP_SLOTS, ∃ bh,
    (st.superBlock s).imap ⟨i, inside⟩ = some bh ∧ bh = ((st.superBlock s).dev, 2 + i) ∧ 0 < st.count bh
  zmap : ∀ i, i < (st.superBlock s).zmapBlocks → ∃ inside : i < MAP_SLOTS, ∃ bh,
    (st.superBlock s).zmap ⟨i, inside⟩ = some bh ∧
      bh = ((st.superBlock s).dev, 2 + (st.superBlock s).imapBlocks + i) ∧ 0 < st.count bh

/-- A super block of the device with its maps held, or `NULL` with no slot of the device
left; in both cases every lock is free and every buffer is held as often as the table and
`others` account for, no other mounted super block has changed, and no slot but one of
those that were free. -/
structure Answers (others : Buffer → Nat) (dev : Nat) (st st' : State) (found : Option (Fin NR_SUPER)) :
    Prop where
  sound : st'.Sound others
  mounted : ∀ t, (st.superBlock t).dev ≠ 0 → (st.superBlock t).dev ≠ dev → st'.superBlock t = st.superBlock t
  claimed : ∃ s, ∀ t, t ≠ s → (st.superBlock t).dev ≠ dev → st'.superBlock t = st.superBlock t
  some : ∀ s, found = some s → dev ≠ 0 ∧ (st'.superBlock s).dev = dev ∧ st'.HoldsMaps s
  none : found = none → dev = 0 ∧ st' = st ∨ dev ≠ 0 ∧ ∀ t, (st'.superBlock t).dev ≠ dev

def Tolerated (disks : Disks) (dev : Nat) (st : State) : Prop :=
  dev = 0 ∨ (∃ s, (st.superBlock s).dev = dev ∧ Keeps disks dev (st.superBlock s)) ∨
    (∀ s, (st.superBlock s).dev ≠ 0 ∧ (st.superBlock s).dev ≠ dev) ∨ Fits disks dev st.data

section Any

variable {others : Buffer → Nat} {disks : Disks} {dev : Nat} {st st' : State} {s : Fin NR_SUPER}

theorem State.Sound.count_pos (sound : st.Sound others) (used : (st.superBlock s).dev ≠ 0) {bh : Buffer}
    (member : some bh ∈ (st.superBlock s).maps) : 0 < st.count bh := by
  have here : 0 < (st.superBlock s).refs bh := by
    rw [SuperBlock.refs, if_neg used]
    exact List.count_pos_iff.mpr member
  have balanced := sound.balanced bh
  have part := st.refs_le s bh
  omega

theorem State.Sound.holdsMaps (sound : st.Sound others) (used : (st.superBlock s).dev ≠ 0) : st.HoldsMaps s := by
  constructor
  · intro i less
    obtain ⟨inside, value⟩ := (sound.mapped s used).imap i less
    refine ⟨inside, _, value, rfl, sound.count_pos used ?_⟩
    rw [← value]
    exact List.mem_append_left _ (List.mem_ofFn.mpr ⟨_, rfl⟩)
  · intro i less
    obtain ⟨inside, value⟩ := (sound.mapped s used).zmap i less
    refine ⟨inside, _, value, rfl, sound.count_pos used ?_⟩
    rw [← value]
    exact List.mem_append_right _ (List.mem_ofFn.mpr ⟨_, rfl⟩)

theorem checkDiskChange_cases (disks : Disks) (sound : st.Sound others) (nonzero : dev ≠ 0) :
    (checkDiskChange disks dev st = .ok st ∧ ∀ s, (st.superBlock s).dev = dev → Keeps disks dev (st.superBlock s)) ∨
    ∃ s st', checkDiskChange disks dev st = .ok st' ∧ Removed others disks dev s st st' ∧
      ¬Keeps disks dev (st.superBlock s) := by
  rw [checkDiskChange]
  by_cases floppy : MAJOR dev = 2
  · rw [if_neg (by simpa using floppy)]
    cases change : disks.floppyChange (dev &&& 3) with
    | false => exact .inl ⟨by simp, fun s _ => .inr (.inl change)⟩
    | true =>
      rw [if_neg (by simp)]
      rcases changeLoop_cases disks sound nonzero (List.finRange NR_SUPER) with
        ⟨unchanged, stays⟩ | ⟨s, st', done, removed⟩
      · exact .inl ⟨unchanged, fun s isDev => .inr (.inr (stays s (List.mem_finRange s) isDev))⟩
      · refine .inr ⟨s, st', done, removed, ?_⟩
        simp [Keeps, floppy, change, removed.notRoot, removed.notMounted]
  · exact .inl ⟨if_pos floppy, fun s _ => .inl floppy⟩

theorem readSuper_absent_cases (disks : Disks) (sound : st.Sound others) (nonzero : dev ≠ 0)
    (absent : ∀ t, (st.superBlock t).dev ≠ dev) :
    let outcome := (match st.freeSlot with
      | none => pure (none, st)
      | some s => fillSuper disks s dev ((st.setSuper s ((st.superBlock s).claim dev)).lockSuper s) :
        Except Fault (Option (Fin NR_SUPER) × State))
    (∃ found st', outcome = .ok (found, st') ∧ Answers others dev st st' found ∧
      ((∀ s, (st.superBlock s).dev ≠ 0) ∨ Fits disks dev st.data)) ∨
    ((∃ fault, outcome = .error fault) ∧ (∃ s, (st.superBlock s).dev = 0) ∧ ¬Fits disks dev st.data) := by
  cases slot : st.freeSlot with
  | none =>
    refine .inl ⟨none, st, rfl, ⟨sound, fun _ _ _ => rfl, ⟨⟨0, by decide⟩, fun _ _ _ => rfl⟩, ?_, ?_⟩,
      .inl (State.freeSlot_eq_none slot)⟩
    · intro s found
      cases found
    · intro _
      exact .inr ⟨nonzero, absent⟩
  | some s =>
    have free := State.freeSlot_eq_some slot
    have start : (st.setSuper s ((st.superBlock s).claim dev)).lockSuper s =
        st.setSuper s { (st.superBlock s).claim dev with lock := true } := by
      simp [State.lockSuper, State.setSuper]
    simp only [start]
    rcases fillSuper_cases disks sound nonzero free absent
        (rfl : SuperBlock.dev { (st.superBlock s).claim dev with lock := true } = dev) with
      ⟨found, st', done, filled, fits⟩ | ⟨fault, failed, unfit⟩
    · refine .inl ⟨found, st', done, ⟨filled.sound, ?_, ⟨s, fun t other _ => filled.others t other⟩, ?_, ?_⟩,
        .inr fits⟩
      · intro t used _
        apply filled.others t
        rintro rfl
        exact used free
      · rintro t rfl
        rcases filled.answer with ⟨same, isDev⟩ | ⟨null, _⟩
        · cases same
          exact ⟨nonzero, isDev, filled.sound.holdsMaps (isDev.trans_ne nonzero)⟩
        · cases null
      · rintro rfl
        refine .inr ⟨nonzero, fun t => ?_⟩
        rcases filled.answer with ⟨same, _⟩ | ⟨_, freed⟩
        · cases same
        · by_cases here : t = s
          · rw [here, freed]
            exact nonzero.symm
          · rw [filled.others t here]
            exact absent t
    · exact .inr ⟨⟨fault, failed⟩, ⟨s, free⟩, unfit⟩

theorem readSuper_of_absent (nonzero : dev ≠ 0) (changed : checkDiskChange disks dev st = .ok st')
    (absent : ∀ t, (st'.superBlock t).dev ≠ dev) :
    readSuper disks dev st = (match st'.freeSlot with
      | none => pure (none, st')
      | some s => fillSuper disks s dev ((st'.setSuper s ((st'.superBlock s).claim dev)).lockSuper s)) := by
  have missing : st'.getSuper dev = none := by
    cases found : st'.getSuper dev with
    | none => rfl
    | some s => exact absurd (State.getSuper_eq_some found).2 (absent s)
  rw [readSuper, if_neg nonzero, changed]
  change (pure st' >>= _) = _
  cases free : st'.freeSlot <;> simp only [pure_bind, missing, free]

theorem Answers.of_removed {found : Option (Fin NR_SUPER)} {st'' : State}
    (removed : Removed others disks dev s st st') (answers : Answers others dev st' st'' found)
    (nonzero : dev ≠ 0) : Answers others dev st st'' found := by
  have same {t : Fin NR_SUPER} (isOther : (st.superBlock t).dev ≠ dev) : st'.superBlock t = st.superBlock t := by
    apply removed.others
    rintro rfl
    exact isOther removed.here
  refine ⟨answers.sound, ?_, ?_, answers.some, ?_⟩
  · intro t used isOther
    rw [answers.mounted t (by rwa [same isOther]) (by rwa [same isOther]), same isOther]
  · obtain ⟨u, unchanged⟩ := answers.claimed
    refine ⟨u, fun t other isOther => ?_⟩
    rw [unchanged t other (by rwa [same isOther]), same isOther]
  · intro null
    rcases answers.none null with ⟨zero, _⟩ | left
    · exact absurd zero nonzero
    · exact .inr left

theorem readSuper_cases (disks : Disks) (dev : Nat) (sound : st.Sound others) :
    (∃ found st', readSuper disks dev st = .ok (found, st') ∧ Answers others dev st st' found ∧
      Tolerated disks dev st) ∨
    ((∃ fault, readSuper disks dev st = .error fault) ∧ ¬Tolerated disks dev st) := by
  by_cases zero : dev = 0
  · refine .inl ⟨none, st, if_pos zero, ⟨sound, fun _ _ _ => rfl, ⟨⟨0, by decide⟩, fun _ _ _ => rfl⟩, ?_, ?_⟩,
      .inl zero⟩
    · intro s found
      cases found
    · intro _
      exact .inl ⟨zero, rfl⟩
  · rcases checkDiskChange_cases disks sound zero with ⟨same, keeps⟩ | ⟨s, st', changed, removed, goes⟩
    · by_cases absent : ∀ t, (st.superBlock t).dev ≠ dev
      · rw [readSuper_of_absent zero same absent]
        rcases readSuper_absent_cases disks sound zero absent with
          ⟨found, st', done, answers, why⟩ | ⟨failed, ⟨s, free⟩, unfit⟩
        · refine .inl ⟨found, st', done, answers, .inr (.inr ?_)⟩
          rcases why with full | fits
          · exact .inl fun s => ⟨full s, absent s⟩
          · exact .inr fits
        · refine .inr ⟨failed, ?_⟩
          rintro (isZero | ⟨t, isDev, _⟩ | full | fits)
          · exact zero isZero
          · exact absent t isDev
          · exact (full s).1 free
          · exact unfit fits
      · push Not at absent
        obtain ⟨s, isDev⟩ := absent
        refine .inl ⟨some s, st, ?_, ⟨sound, fun _ _ _ => rfl, ⟨s, fun _ _ _ => rfl⟩, ?_, ?_⟩,
          .inr (.inl ⟨s, isDev, keeps s isDev⟩)⟩
        · rw [readSuper, if_neg zero, same]
          change (pure st >>= _) = _
          rw [pure_bind, sound.getSuper zero isDev]
          rfl
        · rintro t ⟨⟩
          exact ⟨zero, isDev, sound.holdsMaps (isDev.trans_ne zero)⟩
        · intro null
          cases null
    · have absent : ∀ t, (st'.superBlock t).dev ≠ dev := by
        intro t isDev
        by_cases here : t = s
        · rw [here, removed.free] at isDev
          exact zero isDev.symm
        · rw [removed.others t here] at isDev
          exact here (sound.distinct t s (isDev ▸ zero) (isDev.trans removed.here.symm))
      rw [readSuper_of_absent zero changed absent]
      rcases readSuper_absent_cases disks removed.sound zero absent with
        ⟨found, st'', done, answers, why⟩ | ⟨failed, _, unfit⟩
      · refine .inl ⟨found, st'', done, answers.of_removed removed zero, .inr (.inr (.inr ?_))⟩
        rcases why with full | fits
        · exact absurd removed.free (full s)
        · rwa [removed.data] at fits
      · refine .inr ⟨failed, ?_⟩
        rintro (isZero | ⟨t, isDev, kept⟩ | full | fits)
        · exact zero isZero
        · rw [sound.distinct t s (isDev ▸ zero) (isDev.trans removed.here.symm)] at kept
          exact goes kept
        · exact (full s).2 removed.here
        · rw [removed.data] at unfit
          exact unfit fits

/-- From a consistent table, `read_super` stays inside its arrays, finds no `NULL` buffer
and returns as it should exactly if the maps that it reads in fit. -/
theorem read_super_tolerates_iff (others : Buffer → Nat) (disks : Disks) (dev : Nat) (st : State)
    (sound : st.Sound others) :
    (∃ found st', readSuper disks dev st = .ok (found, st') ∧ Answers others dev st st' found) ↔
      Tolerated disks dev st := by
  constructor
  · rintro ⟨found, st', done, _⟩
    rcases readSuper_cases disks dev sound with ⟨_, _, _, _, tolerated⟩ | ⟨⟨fault, failed⟩, _⟩
    · exact tolerated
    · rw [failed] at done
      cases done
  · intro tolerated
    rcases readSuper_cases disks dev sound with ⟨found, st', done, answers, _⟩ | ⟨_, intolerable⟩
    · exact ⟨found, st', done, answers⟩
    · exact absurd tolerated intolerable

end Any

/-! ## Samples -/

def sampleBlock (imapBlocks zmapBlocks : UInt8) : Block := fun offset =>
  if offset.val = 4 then imapBlocks
  else if offset.val = 6 then zmapBlocks
  else if offset.val = 16 then 0x7F
  else if offset.val = 17 then 0x13
  else 0

def emptySlot : SuperBlock where
  ninodes := 0
  nzones := 0
  imapBlocks := 0
  zmapBlocks := 0
  firstdatazone := 0
  logZoneSize := 0
  maxSize := 0
  magic := 0
  imap := fun _ => none
  zmap := fun _ => none
  dev := 0
  isup := none
  imount := none
  time := 0
  lock := false
  rdOnly := 0
  dirt := 0

def emptyTable (block : Block) : State where
  superBlock := fun _ => emptySlot
  count := fun _ => 0
  data := fun _ => block

def allReadable : Disks where
  rootDev := 0x301
  readable := fun _ => true
  floppyChange := fun _ => false

theorem emptyTable_sound (block : Block) : (emptyTable block).Sound fun _ => 0 where
  balanced bh := by simp [emptyTable, emptySlot, State.refs]
  unlocked _ := rfl
  distinct _ _ used := absurd rfl used
  mapped _ used := absurd rfl used

theorem sampleBlock_maps (imapBlocks zmapBlocks : UInt8) :
    (dSuperBlock (sampleBlock imapBlocks zmapBlocks)).imapBlocks = imapBlocks.toNat ∧
      (dSuperBlock (sampleBlock imapBlocks zmapBlocks)).zmapBlocks = zmapBlocks.toNat ∧
      (dSuperBlock (sampleBlock imapBlocks zmapBlocks)).magic = SUPER_MAGIC := by
  simp [dSuperBlock, short, sampleBlock, SUPER_MAGIC]

theorem three_map_blocks_read : (emptyTable (sampleBlock 1 2)).Sound (fun _ => 0) ∧
    Tolerated allReadable 0x302 (emptyTable (sampleBlock 1 2)) ∧
    ∃ found st', readSuper allReadable 0x302 (emptyTable (sampleBlock 1 2)) = .ok (found, st') ∧
      Answers (fun _ => 0) 0x302 (emptyTable (sampleBlock 1 2)) st' found := by
  have fits : Tolerated allReadable 0x302 (emptyTable (sampleBlock 1 2)) := by
    obtain ⟨imap, zmap, _⟩ := sampleBlock_maps 1 2
    refine .inr (.inr (.inr fun _ _ => ⟨.inl ?_, .inl ?_, .inl ⟨?_, ?_⟩⟩))
    all_goals simp only [emptyTable, imap, zmap]
    all_goals decide
  exact ⟨emptyTable_sound _, fits, (read_super_tolerates_iff _ _ _ _ (emptyTable_sound _)).mpr fits⟩

/-- With no blocks in either bitmap both final stores go through `NULL`; with seventeen that
can all be read, the ninth is already past `s_imap`. -/
theorem hostile_counts_fault : (emptyTable (sampleBlock 0 0)).Sound (fun _ => 0) ∧
    readSuper allReadable 0x302 (emptyTable (sampleBlock 0 0)) = .error .nullBuffer ∧
    readSuper allReadable 0x302 (emptyTable (sampleBlock 17 1)) = .error (.pastMap 8) ∧
    ¬∃ found st', readSuper allReadable 0x302 (emptyTable (sampleBlock 0 0)) = .ok (found, st') ∧
      Answers (fun _ => 0) 0x302 (emptyTable (sampleBlock 0 0)) st' found := by
  have null : readSuper allReadable 0x302 (emptyTable (sampleBlock 0 0)) = .error .nullBuffer := by rfl
  refine ⟨emptyTable_sound _, null, by rfl, ?_⟩
  rintro ⟨found, st', done, _⟩
  rw [null] at done
  cases done

end Linux012.Fs.Mount

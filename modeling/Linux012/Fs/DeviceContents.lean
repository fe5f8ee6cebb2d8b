import Linux012.Fs.BufferCoherence

/-! What the blocks of one device contain, in the cache or on the disk, while nobody
stores to them. Only a read of a dirty buffer without valid contents loses some. -/

set_option autoImplicit false

namespace Linux012.Fs

open BlkDrv Transition Function

namespace Cache

structure Contains (c : Cache) (dev : Nat) (contents : Nat → Block) : Prop where
  absent : ∀ block, (∀ h < c.nrBuffers, ¬c.Names dev block h) → c.disk dev block = contents block
  valid : ∀ h < c.nrBuffers, c.dev h = dev → c.Valid h → ¬c.BeingRead h → c.data h = contents (c.blocknr h)
  saved : ∀ h < c.nrBuffers, c.dev h = dev → ¬c.Writing h → c.dirt h = false ∨ c.BeingRead h →
    c.disk dev (c.blocknr h) = contents (c.blocknr h)

def Calms (c c' : Cache) : Prop :=
  ∀ h, c'.dirt h = true → c.dirt h = true ∧ c'.dev h = c.dev h ∧ (c.uptodate h = true → c'.uptodate h = true)

variable {c c' : Cache} {dev : Nat} {contents : Nat → Block}

theorem Calms.refl (c : Cache) : c.Calms c := fun _ dirty => ⟨dirty, rfl, id⟩

theorem Contains.of_same (contains : c.Contains dev contents) (number : c'.nrBuffers = c.nrBuffers)
    (data : c'.data = c.data) (sameDev : c'.dev = c.dev) (blocknr : c'.blocknr = c.blocknr)
    (uptodate : c'.uptodate = c.uptodate) (dirt : c'.dirt = c.dirt) (request : c'.request = c.request)
    (queue : c'.queue = c.queue) (disk : c'.disk = c.disk) : c'.Contains dev contents := by
  have requested := @requested_of_same _ _ request queue
  obtain ⟨absent, valid, saved⟩ := contains
  refine ⟨?_, ?_, ?_⟩
  · simpa only [Names, number, sameDev, blocknr, disk] using absent
  · simpa only [Valid, Writing, BeingRead, requested, number, data, sameDev, blocknr, uptodate, dirt] using valid
  · simpa only [Writing, BeingRead, requested, number, sameDev, blocknr, dirt, disk] using saved

theorem Coherent.contains (coherent : c.Coherent) (isDev : dev ≠ 0) : c.Contains dev (c.stored dev) where
  absent block unnamed := coherent.absent dev block isDev unnamed
  valid h small named valid _ := by
    rw [← named]
    exact coherent.valid h small (named ▸ isDev) valid
  saved h small named notWriting settled := by
    rw [← named]
    exact coherent.clean h small (named ▸ isDev) (settled.elim id (coherent.unread h)) notWriting

theorem Contains.take (contains : c.Contains dev contents) (isDev : dev ≠ 0) (linked : c.WellLinked)
    (queued : c.WellQueued) {bh dev' block : Nat} (inside : bh < c.nrBuffers) (unlocked : c.lock bh = false)
    (clean : c.dirt bh = false) (absent : c.findBuffer dev' block = none) :
    (c.take bh dev' block).Contains dev contents := by
  have requested : ∀ {cmd slot h}, (c.take bh dev' block).Requested cmd slot h ↔ c.Requested cmd slot h := by
    simp [Requested]
  have unasked := queued.unasked unlocked
  refine ⟨?_, ?_, ?_⟩
  · intro b unnamed
    simp only [take_nrBuffers, take_disk] at unnamed ⊢
    by_cases before : ∃ h < c.nrBuffers, c.Names dev b h
    · obtain ⟨h, small, names⟩ := before
      by_cases same : h = bh
      · subst same
        obtain ⟨rfl, rfl⟩ := names
        exact contains.saved h inside rfl (fun writing => writing.elim (unasked _)) (.inl clean)
      · refine absurd ?_ (unnamed h small)
        simpa [Names, update_of_ne same] using names
    · exact contains.absent b (by simpa using before)
  · intro h small named valid unread
    by_cases same : h = bh
    · subst same
      rcases valid with uptodate | dirty | ⟨slot, asked⟩
      · simp at uptodate
      · simp at dirty
      · exact absurd (requested.mp asked) (unasked _ _)
    · simp only [Valid, Writing, BeingRead, requested, take_nrBuffers, take_data, take_dev, take_blocknr,
        take_uptodate, take_dirt, update_of_ne same] at small named valid unread ⊢
      exact contains.valid h small named valid unread
  · intro h small named notWriting settled
    by_cases same : h = bh
    · subst same
      simp only [take_disk, take_dev, take_blocknr, update_self] at named ⊢
      subst named
      exact contains.absent block fun h' small' names => linked.findBuffer_none isDev absent small' names
    · simp only [Writing, BeingRead, requested, take_nrBuffers, take_disk, take_dev, take_blocknr, take_dirt,
        update_of_ne same] at small named notWriting settled ⊢
      exact contains.saved h small named notWriting settled

theorem Contains.enqueue (contains : c.Contains dev contents) (queued : c.WellQueued) {slot rw bh : Nat}
    (free : (c.request slot).dev < 0) (single : ∀ cmd slot, ¬c.Requested cmd slot bh)
    (allowed : rw = WRITE ∧ c.dirt bh = true ∨ rw = READ ∧ (c.dev bh = dev → c.dirt bh = false)) :
    (c.enqueue slot rw bh).Contains dev contents := by
  have requested : ∀ {cmd slot' h}, (c.enqueue slot rw bh).Requested cmd slot' h ↔
      (slot' = slot ∧ cmd = rw ∧ h = bh) ∨ c.Requested cmd slot' h := queued.requested_enqueue free
  have different : (WRITE : Nat) ≠ READ := by decide
  have other {h : Nat} (same : h ≠ bh) :
      ((c.enqueue slot rw bh).Writing h ↔ c.Writing h) ∧ ((c.enqueue slot rw bh).BeingRead h ↔ c.BeingRead h) ∧
        (c.enqueue slot rw bh).dirt h = c.dirt h := by
    refine ⟨exists_congr fun slot' => ?_, exists_congr fun slot' => ?_, update_of_ne same ..⟩
    · rw [requested]
      simp [same]
    · rw [requested]
      simp [same]
  refine ⟨contains.absent, ?_, ?_⟩
  · intro h small named valid unread
    by_cases same : h = bh
    · subst same
      refine contains.valid h small named ?_ fun ⟨slot', asked⟩ => single _ _ asked
      rcases allowed with ⟨-, dirty⟩ | ⟨reads, -⟩
      · exact .inr (.inl dirty)
      · exact absurd ⟨slot, requested.mpr (.inl ⟨rfl, reads.symm, rfl⟩)⟩ unread
    · obtain ⟨writing, read, dirt⟩ := other same
      refine contains.valid h small named ?_ (read.not.mp unread)
      exact valid.imp id (.imp (fun dirty => dirt ▸ dirty) writing.mp)
  · intro h small named notWriting settled
    by_cases same : h = bh
    · subst same
      rcases allowed with ⟨rfl, -⟩ | ⟨rfl, clean⟩
      · exact absurd ⟨slot, requested.mpr (.inl ⟨rfl, rfl, rfl⟩)⟩ notWriting
      · exact contains.saved h small named (fun ⟨slot', asked⟩ => single _ _ asked) (.inl (clean named))
    · obtain ⟨writing, read, dirt⟩ := other same
      rw [dirt, read] at settled
      exact contains.saved h small named (writing.not.mp notWriting) settled

theorem Contains.read_complete (contains : c.Contains dev contents) (queued : c.WellQueued) {line slot bh : Nat}
    (first : (c.queue line).head? = some slot) (asked : c.Requested READ slot bh) :
    ((c.readBlock bh).finish line slot bh).Contains dev contents := by
  have readQueued := queued.readBlock bh
  have writing : ∀ {h}, ((c.readBlock bh).finish line slot bh).Writing h ↔ h ≠ bh ∧ c.Writing h :=
    readQueued.exists_requested_finish first asked
  have read : ∀ {h}, ((c.readBlock bh).finish line slot bh).BeingRead h ↔ h ≠ bh ∧ c.BeingRead h :=
    readQueued.exists_requested_finish first asked
  have notWriting : ¬c.Writing bh := fun ⟨_, asked'⟩ => absurd (queued.command asked asked') (by decide)
  refine ⟨contains.absent, ?_, ?_⟩
  · intro h small named valid unread
    change c.dev h = dev at named
    change update c.data bh _ h = contents (c.blocknr h)
    by_cases same : h = bh
    · subst same
      rw [update_self, named]
      exact contains.saved h small named notWriting (.inr ⟨slot, asked⟩)
    · rw [update_of_ne same]
      refine contains.valid h small named ?_ fun before => unread (read.mpr ⟨same, before⟩)
      rcases valid with uptodate | dirty | still
      · exact .inl (by simpa [finish, readBlock, update_of_ne same] using uptodate)
      · exact .inr (.inl dirty)
      · exact .inr (.inr (writing.mp still).2)
  · intro h small named still settled
    by_cases same : h = bh
    · subst same
      exact contains.saved h small named notWriting (.inr ⟨slot, asked⟩)
    · exact contains.saved h small named (fun before => still (writing.mpr ⟨same, before⟩))
        (settled.imp_right fun read' => (read.mp read').2)

theorem Contains.write_complete (contains : c.Contains dev contents) (isDev : dev ≠ 0) (linked : c.WellLinked)
    (queued : c.WellQueued) {line slot bh : Nat} (first : (c.queue line).head? = some slot)
    (asked : c.Requested WRITE slot bh) : ((c.writeBlock bh).finish line slot bh).Contains dev contents := by
  have writeQueued := queued.writeBlock bh
  have writing : ∀ {h}, ((c.writeBlock bh).finish line slot bh).Writing h ↔ h ≠ bh ∧ c.Writing h :=
    writeQueued.exists_requested_finish first asked
  have read : ∀ {h}, ((c.writeBlock bh).finish line slot bh).BeingRead h ↔ h ≠ bh ∧ c.BeingRead h :=
    writeQueued.exists_requested_finish first asked
  have unread : ¬c.BeingRead bh := fun ⟨_, asked'⟩ => absurd (queued.command asked asked') (by decide)
  have inside : bh < c.nrBuffers := (queued.entry asked).2.1
  have elsewhere : ∀ b, ¬c.Names dev b bh → (c.writeBlock bh).disk dev b = c.disk dev b := fun b => update_names
  refine ⟨?_, ?_, ?_⟩
  · intro b unnamed
    exact (elsewhere b (unnamed bh inside)).trans (contains.absent b unnamed)
  · intro h small named valid unread'
    refine contains.valid h small named ?_ ?_
    · by_cases same : h = bh
      · exact .inr (.inr ⟨slot, same ▸ asked⟩)
      · rcases valid with uptodate | dirty | still
        · exact .inl (by simpa [finish, writeBlock, update_of_ne same] using uptodate)
        · exact .inr (.inl dirty)
        · exact .inr (.inr (writing.mp still).2)
    · by_cases same : h = bh
      · exact same ▸ unread
      · exact fun before => unread' (read.mpr ⟨same, before⟩)
  · intro h small named still settled
    change c.dev h = dev at named
    change (c.writeBlock bh).disk dev (c.blocknr h) = contents (c.blocknr h)
    by_cases same : h = bh
    · subst same
      rw [← contains.valid h small named (.inr (.inr ⟨slot, asked⟩)) unread]
      simp [writeBlock, named]
    · have unnamed : ¬c.Names dev (c.blocknr h) bh := fun names =>
        same (linked.unique h bh small inside (named ▸ isDev) (named.trans names.1.symm) names.2.symm)
      rw [elsewhere _ unnamed]
      exact contains.saved h small named (fun before => still (writing.mpr ⟨same, before⟩))
        (settled.imp_right fun read' => (read.mp read').2)

theorem Contains.write (contains : c.Contains dev contents) (isDev : dev ≠ 0) (linked : c.WellLinked) {bh : Nat}
    (change : Block → Block) (inside : bh < c.nrBuffers) (valid : c.uptodate bh = true) (unread : ¬c.BeingRead bh) :
    ((c.write bh change).setDirt bh).Contains dev
      (if c.dev bh = dev then update contents (c.blocknr bh) (change (contents (c.blocknr bh)))
        else contents) := by
  have apart {h : Nat} (small : h < c.nrBuffers) (named : c.dev h = dev) (other : h ≠ bh)
      (mine : c.dev bh = dev) : c.blocknr h ≠ c.blocknr bh := fun same =>
    other (linked.unique h bh small inside (named ▸ isDev) (named.trans mine.symm) same)
  refine ⟨?_, ?_, ?_⟩
  · intro b unnamed
    change c.disk dev b = _
    rw [contains.absent b unnamed]
    split
    · next mine =>
      rw [update_of_ne]
      rintro rfl
      exact unnamed bh inside ⟨mine, rfl⟩
    · rfl
  · intro h small named valid' unread'
    change update c.data bh (change (c.data bh)) h = _
    by_cases same : h = bh
    · subst same
      have mine : c.dev h = dev := named
      change _ = (if c.dev h = dev then _ else contents) (c.blocknr h)
      rw [update_self, if_pos mine, update_self, contains.valid h small mine (.inl valid) unread]
    · have before : c.Valid h := by
        refine valid'.imp id (.imp (fun dirty => ?_) id)
        simpa [setDirt, update_of_ne same, Cache.write] using dirty
      have old := contains.valid h small named before unread'
      rw [update_of_ne same, old]
      change contents (c.blocknr h) = (if c.dev bh = dev then _ else contents) (c.blocknr h)
      split
      · next mine => rw [update_of_ne (apart small named same mine)]
      · rfl
  · intro h small named notWriting settled
    change c.disk dev (c.blocknr h) = (if c.dev bh = dev then _ else contents) (c.blocknr h)
    have other : h ≠ bh := by
      rintro rfl
      rcases settled with clean | reading
      · simp [setDirt] at clean
      · exact unread reading
    have old := contains.saved h small named notWriting
      (settled.imp_left fun clean => by simpa [setDirt, update_of_ne other, Cache.write] using clean)
    rw [old]
    split
    · next mine => rw [update_of_ne (apart small named other mine)]
    · rfl

theorem calms_take {bh dev' block : Nat} : c.Calms (c.take bh dev' block) := by
  intro h dirty
  by_cases same : h = bh
  · subst same
    simp at dirty
  · rw [take_dirt, update_of_ne same] at dirty
    rw [take_dev, take_uptodate, update_of_ne same, update_of_ne same]
    exact ⟨dirty, rfl, id⟩

theorem calms_enqueue {slot rw bh : Nat} : c.Calms (c.enqueue slot rw bh) := by
  intro h dirty
  by_cases same : h = bh
  · subst same
    simp [Cache.enqueue] at dirty
  · simp only [Cache.enqueue, update_of_ne same] at dirty
    exact ⟨dirty, rfl, id⟩

theorem calms_endRequest {line : Nat} : c.Calms (c.endRequest line) := by
  intro h dirty
  have same : (c.endRequest line).dirt = c.dirt := by
    unfold endRequest
    split
    · rfl
    · dsimp only
      split
      · rfl
      · unfold transfer
        dsimp only
        split <;> rfl
  rw [same] at dirty
  exact ⟨dirty, congrFun (c.endRequest_linkedAs line).dev h, endRequest_uptodate⟩

end Cache

/-! ## Steps that store nothing -/

def Control.Spares (c : Cache) (dev : Nat) : Control → Prop
  | .llRwBlock rw bh | .requestWait rw bh =>
    rw ≠ WRITE → c.dev bh = dev → c.uptodate bh = false → c.dirt bh = false
  | _ => True

def Act.stores : Act → Bool
  | .modify _ _ | .mark _ | .store _ _ _ | .clear _ => true
  | _ => false

section Steps

variable {driver : Nat → Bool} {c c' : Cache} {dev : Nat} {contents : Nat → Block}

variable {control : Control}

theorem Submits.contains {rw bh : Nat} (contains : c.Contains dev contents) (queued : c.WellQueued)
    (submitted : Submits driver c rw bh c' control) (spares : (Control.llRwBlock rw bh).Spares c dev) :
    c'.Contains dev contents := by
  cases submitted with
  | skip => exact contains
  | wait near served unlocked needed => exact contains.of_same rfl rfl rfl rfl rfl rfl rfl rfl rfl
  | queue near served unlocked needed free =>
    have lockedContains : (c.setLock bh true).Contains dev contents :=
      contains.of_same rfl rfl rfl rfl rfl rfl rfl rfl rfl
    refine lockedContains.enqueue (queued.setLock bh) free (queued.unasked unlocked) ?_
    rcases needed with ⟨reads, invalid, other⟩ | ⟨writes, dirty⟩
    · exact .inr ⟨reads, fun mine => spares other mine invalid⟩
    · exact .inl ⟨writes, dirty⟩

theorem Submits.calms {rw bh : Nat} (submitted : Submits driver c rw bh c' control) : c.Calms c' := by
  cases submitted with
  | skip => exact .refl c
  | wait near served unlocked needed => exact fun _ dirty => ⟨dirty, rfl, id⟩
  | queue near served unlocked needed free => exact fun h dirty => Cache.calms_enqueue (c := c.setLock bh true) h dirty

theorem Moves.contains {proc proc' : Process} (moved : Moves driver c proc c' proc')
    (contains : c.Contains dev contents) (isDev : dev ≠ 0) (linked : c.WellLinked) (queued : c.WellQueued)
    (within : ∀ held, proc.control ≠ .user held) (inside : ∀ h ∈ proc.heads, h < c.nrBuffers)
    (owned : ∀ rw bh, proc.control = .requestWait rw bh →
      (rw = READ ∧ c.uptodate bh = false ∨ rw = WRITE ∧ c.dirt bh = true) ∧ ∀ cmd slot, ¬c.Requested cmd slot bh)
    (spares : proc.control.Spares c dev) : c'.Contains dev contents ∧ c.Calms c' := by
  cases moved with
  | hit found | hashMiss | released used | tmpCached | aheadDone =>
    exact ⟨contains.of_same rfl rfl rfl rfl rfl rfl rfl rfl rfl, fun _ dirty => ⟨dirty, rfl, id⟩⟩
  | victimTake unlocked unused clean absent =>
    exact ⟨contains.take isDev linked queued (inside _ (List.mem_append_left _ (.head _))) unlocked clean absent,
      Cache.calms_take⟩
  | submit submitted => exact ⟨submitted.contains contains queued spares, submitted.calms⟩
  | syncDevWrite submitted | sysSyncWrite _ submitted =>
    exact ⟨submitted.contains contains queued fun other => absurd rfl other, submitted.calms⟩
  | requestFound free =>
    obtain ⟨known, single⟩ := owned _ _ rfl
    refine ⟨contains.enqueue queued free single ?_, Cache.calms_enqueue⟩
    rcases known with ⟨rfl, invalid⟩ | writes
    · exact .inr ⟨rfl, fun mine => spares (by decide) mine invalid⟩
    · exact .inl writes
  | modify holds | mark holds | store holds | clear holds => exact absurd rfl (within _)
  | _ => exact ⟨contains, .refl c⟩

theorem Act.same_of_not_stores {held : List Nat} {stack stack' : List Caller} {act : Act}
    (quiet : act.stores = false) (began : begin c held stack act = some (c', control, stack')) : c' = c := by
  cases act with
  | modify | mark | store | clear => cases quiet
  | brelse bh =>
    simp only [begin, Option.ite_none_right_eq_some] at began
    cases began.2
    rfl
  | returnInodes =>
    simp only [begin] at began
    split at began <;> cases began <;> rfl
  | _ =>
    cases began
    rfl

def System.Quiet (dev : Nat) (s : System) : Move → Prop
  | .advance p => (s.process p).control.Spares s.cache dev
  | .begin _ act => act.stores = false
  | .complete _ => True

theorem System.Invariant.quiet_step {n : Nat} {s s' : System} {m : Move} (invariant : s.Invariant n)
    (isDev : dev ≠ 0) (contains : s.cache.Contains dev contents) (quiet : s.Quiet dev m)
    (moved : s.step driver m = some s') : s'.cache.Contains dev contents ∧ s.cache.Calms s'.cache := by
  have linked := invariant.linked.wellLinked
  have queued : s.cache.WellQueued := invariant.wellLocked.queued
  cases m with
  | advance p =>
    obtain ⟨proc, moves, _⟩ := System.step_moves rfl moved
    refine moves.contains contains isDev linked queued (System.step_advance moved) (invariant.linked.inside p) ?_
      quiet
    intro rw bh control
    have waiting := System.waits_control control
    refine ⟨?_, invariant.wellLocked.unasked p rw bh waiting⟩
    rcases invariant.wellLocked.known p rw bh waiting with rfl | writes
    · exact .inl ⟨rfl, invariant.wellRead.invalid bh (.inr ⟨p, waiting⟩)⟩
    · exact .inr writes
  | begin p act =>
    obtain ⟨held, control, stack, outside, began, _⟩ := System.step_begin moved
    rw [Act.same_of_not_stores quiet began]
    exact ⟨contains, .refl _⟩
  | complete line =>
    obtain ⟨busy, rfl⟩ := System.step_complete moved
    refine ⟨?_, Cache.calms_endRequest⟩
    obtain ⟨slot, bh, -, first, ⟨asked, done⟩ | ⟨asked, done⟩⟩ := queued.endRequest busy
    · rw [done]
      exact contains.read_complete queued first asked
    · rw [done]
      exact contains.write_complete isDev linked queued first asked

end Steps

end Linux012.Fs

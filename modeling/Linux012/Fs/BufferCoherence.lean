import Linux012.Fs.BufferReading

/-! Where the contents of a block are: in its buffer while that is valid, and on
the disk as long as the buffer is neither dirty nor being written. A read that is
queued over a dirty buffer destroys what was stored there. -/

set_option autoImplicit false

namespace Linux012.Fs

open BlkDrv Transition Function

namespace Cache

def Writing (c : Cache) (h : Nat) : Prop := ∃ slot, c.Requested WRITE slot h

def BeingRead (c : Cache) (h : Nat) : Prop := ∃ slot, c.Requested READ slot h

def Valid (c : Cache) (h : Nat) : Prop := c.uptodate h = true ∨ c.dirt h = true ∨ c.Writing h

/-- Every block that is in use has its latest contents in a valid buffer or on
the disk. -/
structure Coherent (c : Cache) : Prop where
  absent : ∀ dev block, dev ≠ 0 → (∀ h < c.nrBuffers, ¬ c.Names dev block h) →
    c.disk dev block = c.stored dev block
  valid : ∀ h < c.nrBuffers, c.dev h ≠ 0 → c.Valid h →
    c.data h = c.stored (c.dev h) (c.blocknr h)
  clean : ∀ h < c.nrBuffers, c.dev h ≠ 0 → c.dirt h = false → ¬ c.Writing h →
    c.disk (c.dev h) (c.blocknr h) = c.stored (c.dev h) (c.blocknr h)
  unread : ∀ h, c.BeingRead h → c.dirt h = false
  sent : ∀ h, c.Writing h → c.dirt h = false → ∀ offset, c.unsent h offset = false

theorem coherent_init (n : Nat) (blocknr : Nat → Nat) (data : Nat → Block)
    (disk : Nat → Nat → Block) : (init n blocknr data disk).Coherent where
  absent := fun _ _ _ _ => rfl
  valid := fun _ _ used => absurd rfl used
  clean := fun _ _ used => absurd rfl used
  unread := fun _ _ => rfl
  sent := fun _ _ _ _ => rfl

variable {c : Cache}

theorem Coherent.of_same {c' : Cache} (coherent : c.Coherent) (number : c'.nrBuffers = c.nrBuffers)
    (data : c'.data = c.data) (dev : c'.dev = c.dev) (blocknr : c'.blocknr = c.blocknr)
    (uptodate : c'.uptodate = c.uptodate) (dirt : c'.dirt = c.dirt) (request : c'.request = c.request)
    (queue : c'.queue = c.queue) (disk : c'.disk = c.disk) (stored : c'.stored = c.stored)
    (unsent : c'.unsent = c.unsent) : c'.Coherent := by
  have requested := @requested_of_same _ _ request queue
  obtain ⟨absent, valid, clean, unread, sent⟩ := coherent
  refine ⟨?_, ?_, ?_, ?_, ?_⟩
  · simpa only [Names, number, dev, blocknr, disk, stored] using absent
  · simpa only [Valid, Writing, requested, number, data, dev, blocknr, uptodate, dirt, stored] using valid
  · simpa only [Writing, requested, number, dev, blocknr, dirt, disk, stored] using clean
  · simpa only [BeingRead, requested, dirt] using unread
  · simpa only [Writing, requested, dirt, unsent] using sent

theorem Coherent.take {c : Cache} (coherent : c.Coherent) (linked : c.WellLinked)
    (queued : c.WellQueued) {bh dev block : Nat} (inside : bh < c.nrBuffers)
    (unlocked : c.lock bh = false) (clean : c.dirt bh = false)
    (absent : c.findBuffer dev block = none) : (c.take bh dev block).Coherent := by
  have requested : ∀ {cmd slot h}, (c.take bh dev block).Requested cmd slot h ↔
      c.Requested cmd slot h := by simp [Requested]
  have unasked := queued.unasked unlocked
  refine ⟨?_, ?_, ?_, ?_, ?_⟩
  · intro d b used unnamed
    simp only [take_nrBuffers, take_disk, take_stored] at unnamed ⊢
    by_cases before : ∃ h < c.nrBuffers, c.Names d b h
    · obtain ⟨h, small, names⟩ := before
      by_cases same : h = bh
      · subst same
        obtain ⟨rfl, rfl⟩ := names
        exact coherent.clean h inside used clean fun writing => writing.elim (unasked _)
      · refine absurd ?_ (unnamed h small)
        simpa [Names, update_of_ne same] using names
    · exact coherent.absent d b used (by simpa using before)
  · intro h small used valid
    by_cases same : h = bh
    · subst same
      rcases valid with uptodate | dirty | ⟨slot, asked⟩
      · simp at uptodate
      · simp at dirty
      · exact absurd (requested.mp asked) (unasked _ _)
    · simp only [Valid, Writing, requested, take_nrBuffers, take_data, take_stored, take_dev,
        take_blocknr, take_uptodate, take_dirt, update_of_ne same] at small used valid ⊢
      exact coherent.valid h small used valid
  · intro h small used notDirty notWriting
    by_cases same : h = bh
    · subst same
      simp only [take_disk, take_stored, take_dev, take_blocknr, update_self] at used ⊢
      exact coherent.absent dev block used fun h' small' names =>
        linked.findBuffer_none used absent small' names
    · simp only [Writing, requested, take_nrBuffers, take_disk, take_stored, take_dev, take_blocknr,
        take_dirt, update_of_ne same] at small used notDirty notWriting ⊢
      exact coherent.clean h small used notDirty notWriting
  · rintro h ⟨slot, asked⟩
    have other : h ≠ bh := by
      rintro rfl
      exact unasked _ _ (requested.mp asked)
    simp only [take_dirt, update_of_ne other]
    exact coherent.unread h ⟨slot, requested.mp asked⟩
  · rintro h ⟨slot, asked⟩ notDirty
    have other : h ≠ bh := by
      rintro rfl
      exact unasked _ _ (requested.mp asked)
    simp only [take_dirt, take_unsent, update_of_ne other] at notDirty ⊢
    exact coherent.sent h ⟨slot, requested.mp asked⟩ notDirty

theorem Coherent.enqueue (coherent : c.Coherent) (queued : c.WellQueued) {slot rw bh : Nat}
    (free : (c.request slot).dev < 0) (single : ∀ cmd slot, ¬ c.Requested cmd slot bh)
    (allowed : rw = WRITE ∧ c.dirt bh = true ∨ rw = READ ∧
      (c.dirt bh = true → c.data bh = c.disk (c.dev bh) (c.blocknr bh))) : (c.enqueue slot rw bh).Coherent := by
  have requested : ∀ {cmd slot' h}, (c.enqueue slot rw bh).Requested cmd slot' h ↔
      (slot' = slot ∧ cmd = rw ∧ h = bh) ∨ c.Requested cmd slot' h := queued.requested_enqueue free
  have dirt : ∀ h, (c.enqueue slot rw bh).dirt h = true → c.dirt h = true := by
    intro h dirty
    simp only [Cache.enqueue, update_apply] at dirty
    split at dirty
    · cases dirty
    · exact dirty
  have different : (WRITE : Nat) ≠ READ := by decide
  refine ⟨coherent.absent, ?_, ?_, ?_, ?_⟩
  · intro h small used valid
    refine coherent.valid h small used ?_
    rcases valid with uptodate | dirty | ⟨slot', asked⟩
    · exact .inl uptodate
    · exact .inr (.inl (dirt h dirty))
    · rcases requested.mp asked with ⟨-, writes, rfl⟩ | already
      · rcases allowed with ⟨-, dirty⟩ | ⟨reads, -⟩
        · exact .inr (.inl dirty)
        · exact absurd (writes.trans reads) different
      · exact .inr (.inr ⟨slot', already⟩)
  · intro h small used notDirty notWriting
    have before : ¬ c.Writing h := fun writing =>
      notWriting (writing.imp fun _ asked => requested.mpr (.inr asked))
    by_cases same : h = bh
    · subst same
      rcases allowed with ⟨rfl, -⟩ | ⟨rfl, agrees⟩
      · exact absurd ⟨slot, requested.mpr (.inl ⟨rfl, rfl, rfl⟩)⟩ notWriting
      · cases dirty : c.dirt h with
        | false => exact coherent.clean h small used dirty before
        | true => exact (agrees dirty).symm.trans (coherent.valid h small used (.inr (.inl dirty)))
    · simp only [Cache.enqueue, update_of_ne same] at notDirty
      exact coherent.clean h small used notDirty before
  · rintro h ⟨slot', asked⟩
    rcases requested.mp asked with ⟨-, -, rfl⟩ | already
    · simp [Cache.enqueue]
    · exact Bool.eq_false_iff.mpr fun dirty =>
        absurd (dirt h dirty) (by simp [coherent.unread h ⟨slot', already⟩])
  · rintro h ⟨slot', asked⟩ notDirty offset
    rcases requested.mp asked with ⟨-, writes, rfl⟩ | already
    · simp [Cache.enqueue, ← writes]
    · have other : h ≠ bh := by
        rintro rfl
        exact single _ _ already
      simp only [Cache.enqueue, update_of_ne other] at notDirty
      have kept := coherent.sent h ⟨slot', already⟩ notDirty offset
      simp only [Cache.enqueue]
      split
      · rwa [update_of_ne other]
      · exact kept

theorem Coherent.write {c c' : Cache} (coherent : c.Coherent) (linked : c.WellLinked) {bh : Nat}
    (change : Block → Block) (inside : bh < c.nrBuffers) (unread : ¬ c.BeingRead bh)
    (whole : c.Valid bh ∨ ∀ x y, change x = change y)
    (number : c'.nrBuffers = c.nrBuffers) (dev : c'.dev = c.dev) (blocknr : c'.blocknr = c.blocknr)
    (request : c'.request = c.request) (queue : c'.queue = c.queue) (disk : c'.disk = c.disk)
    (dirty : c'.dirt bh = true) (data : c'.data = update c.data bh (change (c.data bh)))
    (stored : c'.stored = (c.write bh change).stored)
    (others : ∀ h ≠ bh, c'.uptodate h = c.uptodate h ∧ c'.dirt h = c.dirt h ∧ c'.unsent h = c.unsent h) :
    c'.Coherent := by
  have requested := @requested_of_same _ _ request queue
  have elsewhere : ∀ d b, ¬ c.Names d b bh → c'.stored d b = c.stored d b := by
    intro d b unnamed
    rw [stored]
    exact update_names unnamed
  have apart : ∀ h < c.nrBuffers, c.dev h ≠ 0 → h ≠ bh → ¬ c.Names (c.dev h) (c.blocknr h) bh := by
    intro h small used other names
    exact other (linked.unique h bh small inside used names.1.symm names.2.symm)
  refine ⟨?_, ?_, ?_, ?_, ?_⟩
  · intro d b used unnamed
    simp only [Names, number, dev, blocknr] at unnamed
    rw [disk, elsewhere d b (unnamed bh inside)]
    exact coherent.absent d b used unnamed
  · intro h small used valid
    rw [number] at small
    rw [dev] at used ⊢
    rw [blocknr]
    by_cases same : h = bh
    · subst same
      have target : c'.stored (c.dev h) (c.blocknr h) = change (c.stored (c.dev h) (c.blocknr h)) := by
        rw [stored]
        simp [Cache.write]
      rw [data, update_self, target]
      rcases whole with before | constant
      · rw [coherent.valid h small used before]
      · exact constant _ _
    · rw [data, update_of_ne same, elsewhere _ _ (apart h small used same)]
      refine coherent.valid h small used ?_
      simpa only [Valid, Writing, requested, others h same] using valid
  · intro h small used notDirty notWriting
    have other : h ≠ bh := by
      rintro rfl
      exact absurd dirty (by simp [notDirty])
    rw [number] at small
    rw [dev] at used ⊢
    rw [blocknr, disk, elsewhere _ _ (apart h small used other)]
    simp only [Writing, requested, others h other] at notDirty notWriting
    exact coherent.clean h small used notDirty notWriting
  · intro h reading
    simp only [BeingRead, requested] at reading
    have other : h ≠ bh := by
      rintro rfl
      exact unread reading
    rw [(others h other).2.1]
    exact coherent.unread h reading
  · intro h writing notDirty
    simp only [Writing, requested] at writing
    have other : h ≠ bh := by
      rintro rfl
      exact absurd dirty (by simp [notDirty])
    rw [(others h other).2.2]
    exact coherent.sent h writing ((others h other).2.1 ▸ notDirty)

theorem WellQueued.exists_requested_finish (queued : c.WellQueued) {line slot cmd bh : Nat}
    (first : (c.queue line).head? = some slot) (asked : c.Requested cmd slot bh) {cmd' h : Nat} :
    (∃ slot', (c.finish line slot bh).Requested cmd' slot' h) ↔ h ≠ bh ∧ ∃ slot', c.Requested cmd' slot' h := by
  constructor
  · rintro ⟨slot', asked'⟩
    obtain ⟨other, already⟩ := (queued.requested_finish first).mp asked'
    refine ⟨?_, slot', already⟩
    rintro rfl
    exact other (queued.alone already asked)
  · rintro ⟨other, slot', asked'⟩
    refine ⟨slot', (queued.requested_finish first).mpr ⟨?_, asked'⟩⟩
    rintro rfl
    exact other (Option.some.inj (asked'.2.2.symm.trans asked.2.2))

theorem Coherent.read_complete (coherent : c.Coherent) (queued : c.WellQueued) {line slot bh : Nat}
    (first : (c.queue line).head? = some slot) (asked : c.Requested READ slot bh) :
    ((c.readBlock bh).finish line slot bh).Coherent := by
  have readQueued := queued.readBlock bh
  have writing : ∀ {h}, ((c.readBlock bh).finish line slot bh).Writing h ↔ h ≠ bh ∧ c.Writing h :=
    readQueued.exists_requested_finish first asked
  have notWriting : ¬ c.Writing bh := fun ⟨_, asked'⟩ => absurd (queued.command asked asked') (by decide)
  refine ⟨coherent.absent, ?_, ?_, ?_, ?_⟩
  · intro h small used valid
    change c.dev h ≠ 0 at used
    change update c.data bh _ h = c.stored (c.dev h) (c.blocknr h)
    by_cases same : h = bh
    · subst same
      rw [update_self]
      exact coherent.clean h small used (coherent.unread h ⟨slot, asked⟩) notWriting
    · rw [update_of_ne same]
      refine coherent.valid h small used ?_
      rcases valid with uptodate | dirty | still
      · exact .inl (by simpa [finish, readBlock, update_of_ne same] using uptodate)
      · exact .inr (.inl dirty)
      · exact .inr (.inr (writing.mp still).2)
  · intro h small used notDirty still
    refine coherent.clean h small used notDirty ?_
    intro before
    by_cases same : h = bh
    · exact notWriting (same ▸ before)
    · exact still (writing.mpr ⟨same, before⟩)
  · rintro h ⟨slot', asked'⟩
    exact coherent.unread h ⟨slot', ((readQueued.requested_finish first).mp asked').2⟩
  · intro h still notDirty
    exact coherent.sent h (writing.mp still).2 notDirty

theorem Coherent.write_complete (coherent : c.Coherent) (linked : c.WellLinked) (queued : c.WellQueued)
    {line slot bh : Nat} (first : (c.queue line).head? = some slot) (asked : c.Requested WRITE slot bh) :
    ((c.writeBlock bh).finish line slot bh).Coherent := by
  have writeQueued := queued.writeBlock bh
  have writing : ∀ {h}, ((c.writeBlock bh).finish line slot bh).Writing h ↔ h ≠ bh ∧ c.Writing h :=
    writeQueued.exists_requested_finish first asked
  have inside : bh < c.nrBuffers := (queued.entry asked).2.1
  have elsewhere : ∀ d b, ¬ c.Names d b bh → (c.writeBlock bh).disk d b = c.disk d b := fun d b => update_names
  refine ⟨?_, ?_, ?_, ?_, ?_⟩
  · intro d b used unnamed
    exact (elsewhere d b (unnamed bh inside)).trans (coherent.absent d b used unnamed)
  · intro h small used valid
    refine coherent.valid h small used ?_
    by_cases same : h = bh
    · exact .inr (.inr ⟨slot, same ▸ asked⟩)
    · rcases valid with uptodate | dirty | still
      · exact .inl (by simpa [finish, writeBlock, update_of_ne same] using uptodate)
      · exact .inr (.inl dirty)
      · exact .inr (.inr (writing.mp still).2)
  · intro h small used notDirty still
    change c.dev h ≠ 0 at used
    change (c.writeBlock bh).disk (c.dev h) (c.blocknr h) = c.stored (c.dev h) (c.blocknr h)
    by_cases same : h = bh
    · subst same
      rw [← coherent.valid h small used (.inr (.inr ⟨slot, asked⟩))]
      simp [writeBlock]
    · have unnamed : ¬ c.Names (c.dev h) (c.blocknr h) bh := fun names =>
        same (linked.unique h bh small inside used names.1.symm names.2.symm)
      rw [elsewhere _ _ unnamed]
      exact coherent.clean h small used notDirty fun before => still (writing.mpr ⟨same, before⟩)
  · rintro h ⟨slot', asked'⟩
    exact coherent.unread h ⟨slot', ((writeQueued.requested_finish first).mp asked').2⟩
  · intro h still notDirty
    exact coherent.sent h (writing.mp still).2 notDirty

end Cache

/-! ## Careful runs -/

/-- Contents are stored where they will not be overwritten: in a buffer that is
valid or replaced as a whole, while no read of it is queued. -/
def Cache.Safe (c : Cache) (bh : Nat) (change : Block → Block) : Prop :=
  ¬ c.BeingRead bh ∧ (c.Valid bh ∨ ∀ x y, change x = change y)

def Cache.Agrees (c : Cache) (bh : Nat) : Prop :=
  c.dirt bh = true → c.data bh = c.disk (c.dev bh) (c.blocknr bh)

section Machine

variable (driver : Nat → Bool)

def Control.Careful (c : Cache) : Control → Prop
  | .llRwBlock rw bh => rw ≠ WRITE → driver (major (c.dev bh)) = true → c.lock bh = false →
      c.uptodate bh = false → c.Agrees bh
  | .requestWait rw bh => rw = READ → c.Agrees bh
  | _ => True

def Act.Careful (c : Cache) : Act → Prop
  | .modify bh change => c.Safe bh change
  | .mark bh => c.Safe bh id
  | .store bh _ _ => c.dirt bh = true
  | _ => True

def System.Careful (s : System) : Move → Prop
  | .advance p => (s.process p).control.Careful driver s.cache
  | .begin _ act => act.Careful s.cache
  | .complete _ => True

variable {driver}

theorem Submits.coherent {c c' : Cache} {rw bh : Nat} {control : Control} (coherent : c.Coherent)
    (queued : c.WellQueued) (submitted : Submits driver c rw bh c' control)
    (careful : (Control.llRwBlock rw bh).Careful driver c) : c'.Coherent := by
  cases submitted with
  | skip => exact coherent
  | wait near served unlocked needed => exact coherent.of_same rfl rfl rfl rfl rfl rfl rfl rfl rfl rfl rfl
  | queue near served unlocked needed free =>
    have lockedCoherent : (c.setLock bh true).Coherent := coherent.of_same rfl rfl rfl rfl rfl rfl rfl rfl rfl rfl rfl
    refine lockedCoherent.enqueue (queued.setLock bh) free (queued.unasked unlocked) ?_
    rcases needed with ⟨reads, invalid, other⟩ | ⟨writes, dirty⟩
    · exact .inr ⟨reads, careful other served unlocked invalid⟩
    · exact .inl ⟨writes, dirty⟩

theorem Moves.coherent {c c' : Cache} {proc proc' : Process} (moved : Moves driver c proc c' proc')
    (coherent : c.Coherent) (linked : c.WellLinked) (queued : c.WellQueued)
    (within : ∀ held, proc.control ≠ .user held) (inside : ∀ h ∈ proc.heads, h < c.nrBuffers)
    (owned : ∀ rw bh, proc.control = .requestWait rw bh →
      (rw = READ ∨ rw = WRITE ∧ c.dirt bh = true) ∧ ∀ cmd slot, ¬ c.Requested cmd slot bh)
    (careful : proc.control.Careful driver c) : c'.Coherent := by
  cases moved with
  | hit found | hashMiss | released used | tmpCached | aheadDone =>
    exact coherent.of_same rfl rfl rfl rfl rfl rfl rfl rfl rfl rfl rfl
  | victimTake unlocked unused clean absent =>
    exact coherent.take linked queued (inside _ (List.mem_append_left _ (.head _))) unlocked clean absent
  | submit submitted => exact submitted.coherent coherent queued careful
  | syncDevWrite submitted | sysSyncWrite _ submitted =>
    exact submitted.coherent coherent queued fun other => absurd rfl other
  | requestFound free =>
    obtain ⟨known, single⟩ := owned _ _ rfl
    refine coherent.enqueue queued free single ?_
    rcases known with reads | writes
    · exact .inr ⟨reads, careful reads⟩
    · exact .inl writes
  | modify holds | mark holds | store holds | clear holds => exact absurd rfl (within _)
  | _ => exact coherent

theorem Act.coherent {c c' : Cache} {held : List Nat} {stack stack' : List Caller} {act : Act}
    {control : Control} (coherent : c.Coherent) (linked : c.WellLinked) (inside : ∀ h ∈ held, h < c.nrBuffers)
    (unread : ∀ h ∈ held, c.count h = 1 → ¬ c.BeingRead h)
    (began : begin c held stack act = some (c', control, stack'))
    (careful : act.Careful c) : c'.Coherent := by
  cases act with
  | modify bh change =>
    simp only [begin, Option.ite_none_right_eq_some] at began
    obtain ⟨holds, same⟩ := began
    cases same
    refine coherent.write linked change (inside bh holds) careful.1 careful.2 rfl rfl rfl rfl rfl rfl
      (update_self _ _ _) rfl rfl fun h other => ⟨rfl, update_of_ne other _ _, update_of_ne other _ _⟩
  | mark bh =>
    simp only [begin, Option.ite_none_right_eq_some] at began
    obtain ⟨holds, same⟩ := began
    cases same
    refine coherent.write linked id (inside bh holds) careful.1 careful.2 rfl rfl rfl rfl rfl rfl
      (update_self _ _ _) (update_eq_self _ _).symm ?_
      fun h other => ⟨rfl, update_of_ne other _ _, rfl⟩
    simp [Cache.write, Cache.setDirt]
  | store bh offset byte =>
    simp only [begin, Option.ite_none_right_eq_some] at began
    obtain ⟨holds, same⟩ := began
    cases same
    have dirty : c.dirt bh = true := careful
    have quiet : ¬ c.BeingRead bh := fun reading =>
      absurd dirty (by simp [coherent.unread bh reading])
    exact coherent.write linked (fun old => update old offset byte) (inside bh holds) quiet
      (.inl (.inr (.inl dirty))) rfl rfl rfl rfl rfl rfl dirty rfl rfl fun h other =>
        ⟨rfl, rfl, update_of_ne other _ _⟩
  | clear bh =>
    simp only [begin, Option.ite_none_right_eq_some] at began
    obtain ⟨⟨holds, alone⟩, same⟩ := began
    cases same
    refine coherent.write linked (fun _ => Block.zero) (inside bh holds) (unread bh holds alone)
      (.inr fun _ _ => rfl) rfl rfl rfl rfl rfl rfl (update_self _ _ _) rfl rfl fun h other => ?_
    exact ⟨update_of_ne other _ _, update_of_ne other _ _, update_of_ne other _ _⟩
  | brelse bh =>
    simp only [begin, Option.ite_none_right_eq_some] at began
    cases began.2
    exact coherent
  | returnInodes =>
    simp only [begin] at began
    split at began <;> cases began <;> exact coherent
  | _ =>
    cases began
    exact coherent

variable {s : System}

theorem System.waits_control {p : Fin NR_TASKS} {rw bh : Nat}
    (control : (s.process p).control = .requestWait rw bh) : s.waits p = some (rw, bh) := by
  unfold System.waits Process.waits
  rw [control]

variable {n : Nat}

theorem System.Invariant.coherent_step {s' : System} {m : Move} (invariant : s.Invariant n)
    (coherent : s.cache.Coherent) (careful : s.Careful driver m) (moved : s.step driver m = some s') :
    s'.cache.Coherent := by
  have linked := invariant.linked.wellLinked
  have queued : s.cache.WellQueued := invariant.wellLocked.queued
  cases m with
  | advance p =>
    obtain ⟨proc, moves, _⟩ := System.step_moves rfl moved
    refine moves.coherent coherent linked queued (System.step_advance moved) (invariant.linked.inside p) ?_ careful
    intro rw bh control
    have waiting := System.waits_control control
    exact ⟨invariant.wellLocked.known p rw bh waiting, invariant.wellLocked.unasked p rw bh waiting⟩
  | begin p act =>
    obtain ⟨held, control, stack, outside, began, _⟩ := System.step_begin moved
    refine Act.coherent coherent linked ?_ ?_ began careful
    · intro h holds
      refine invariant.linked.inside p h (List.mem_append_left _ ?_)
      rw [outside]
      exact holds
    · intro h holds alone reading
      exact invariant.wellRead.not_reading invariant.referenced outside holds alone (.inl reading)
  | complete line =>
    obtain ⟨busy, rfl⟩ := System.step_complete moved
    obtain ⟨slot, bh, -, first, ⟨asked, done⟩ | ⟨asked, done⟩⟩ := queued.endRequest busy
    · rw [done]
      exact coherent.read_complete queued first asked
    · rw [done]
      exact coherent.write_complete linked queued first asked

/-! ## What `bread` returns, and which buffers `getblk` takes -/

/-- A buffer that `bread` returns is that of the block, with its latest contents. -/
def System.BreadCoherent (s : System) : Prop :=
  ∀ p dev block bh, dev ≠ 0 → (s.process p).control = .ret (.buffer dev block bh true) →
    s.cache.Names dev block bh ∧ s.cache.data bh = s.cache.stored dev block

/-- The next step gives no head another block while it is referenced, dirty,
locked or named by a queued request. -/
def System.RenamesUnused (driver : Nat → Bool) (s : System) : Prop :=
  ∀ m s' h, s.step driver m = some s' →
    s'.cache.dev h ≠ s.cache.dev h ∨ s'.cache.blocknr h ≠ s.cache.blocknr h →
    s.cache.count h = 0 ∧ (∀ p, h ∉ (s.process p).holds) ∧ s.cache.dirt h = false ∧
      s.cache.lock h = false ∧ ∀ line, ∀ slot ∈ s.cache.queue line, (s.cache.request slot).bh ≠ some h

theorem System.Invariant.renamesUnused (invariant : s.Invariant n) : s.RenamesUnused driver := by
  intro m s' h moved renamed
  obtain ⟨_, _, changed⟩ := System.step_changes invariant.linked.inside moved
  rcases changed.steady with all | ⟨bh, dev, block, unlocked, unused, clean, -, taken⟩
  · rcases renamed with dev | blocknr
    · exact absurd (all h).dev dev
    · exact absurd (all h).blocknr blocknr
  · have same : h = bh := by
      by_contra other
      have steady : s.cache.Steady (s.cache.take bh dev block) h := Cache.take_steady other
      rw [← taken] at steady
      rcases renamed with dev | blocknr
      · exact dev steady.dev
      · exact blocknr steady.blocknr
    subst same
    refine ⟨unused, ?_, clean, unlocked, ?_⟩
    · intro p held
      exact invariant.referenced.counted.ne_zero held unused
    · intro line slot member names
      obtain ⟨cmd, h', _, _, _, entry⟩ := invariant.wellLocked.queued.formed line slot member
      have asked := Cache.requested_of_mem member entry
      have locked := invariant.wellLocked.queued.locked ⟨asked.1, asked.2.1, names⟩
      exact absurd locked (by simp [unlocked])

theorem System.Invariant.breadCoherent (invariant : s.Invariant n) (coherent : s.cache.Coherent) :
    s.BreadCoherent := by
  intro p dev block bh used returns
  have named := (invariant.referenced.named p).1
  rw [returns] at named
  obtain ⟨⟨rfl, rfl⟩, valid⟩ := named
  have inside : bh < s.cache.nrBuffers := by
    refine invariant.linked.inside p bh (List.mem_append_left _ ?_)
    rw [returns]
    exact .head _
  exact ⟨⟨rfl, rfl⟩, coherent.valid bh inside used (.inl (valid rfl))⟩

theorem coherent_of_run (positive : 0 < n) {blocknr : Nat → Nat} {data : Nat → Block} {disk : Nat → Nat → Block}
    (reached : Run (System.step driver) (System.Careful driver)
      (.init (.init n blocknr data disk)) s) : s.Invariant n ∧ s.cache.Coherent :=
  reached.invariant (P := fun s => s.Invariant n ∧ s.cache.Coherent)
    (fun ⟨invariant, coherent⟩ careful moved =>
      ⟨invariant.step moved, invariant.coherent_step coherent careful moved⟩)
    ⟨System.invariant_init positive blocknr data disk, Cache.coherent_init n blocknr data disk⟩

/-- In runs of careful steps `bread` returns what was stored last, and `getblk`
takes only buffers that nothing else needs. -/
theorem coherent_of_careful {n : Nat} (positive : 0 < n) {blocknr : Nat → Nat}
    {data : Nat → Block} {disk : Nat → Nat → Block} {s : System}
    (reached : Run (System.step driver) (System.Careful driver) (.init (.init n blocknr data disk)) s) :
    s.BreadCoherent ∧ s.RenamesUnused driver := by
  obtain ⟨invariant, coherent⟩ := coherent_of_run positive reached
  exact ⟨invariant.breadCoherent coherent, invariant.renamesUnused⟩

/-! ## Stores to valid buffers -/

theorem System.Invariant.safe (invariant : s.Invariant n) {bh : Nat} {change : Block → Block}
    (valid : s.cache.uptodate bh = true) : s.cache.Safe bh change := by
  refine ⟨fun reading => ?_, .inl (.inl valid)⟩
  exact absurd valid (by simp [invariant.wellRead.invalid bh (.inl reading)])

def Act.careful (c : Cache) : Act → Bool
  | .modify bh _ | .mark bh => c.uptodate bh
  | .store bh _ _ => c.dirt bh
  | _ => true

def System.careful (s : System) : Move → Bool
  | .advance p =>
    match (s.process p).control with
    | .llRwBlock _ bh | .requestWait _ bh => s.cache.uptodate bh || !s.cache.dirt bh
    | _ => true
  | .begin _ act => act.careful s.cache
  | .complete _ => true

theorem System.Invariant.careful {m : Move} (invariant : s.Invariant n) (careful : s.careful m = true) :
    s.Careful driver m := by
  cases m with
  | advance p =>
    simp only [System.careful] at careful
    cases control : (s.process p).control with
    | llRwBlock rw bh =>
      simp only [System.Careful, control, Control.Careful]
      intro _ _ _ invalid dirty
      rw [control] at careful
      simp [invalid, dirty] at careful
    | requestWait rw bh =>
      simp only [System.Careful, control, Control.Careful]
      rintro rfl dirty
      have invalid := invariant.wellRead.invalid bh (.inr ⟨p, System.waits_control control⟩)
      rw [control] at careful
      simp [invalid, dirty] at careful
    | _ => simp [System.Careful, control, Control.Careful]
  | begin p act =>
    cases act with
    | modify bh change | mark bh => exact invariant.safe careful
    | store bh offset byte => exact careful
    | _ => trivial
  | complete line => trivial

end Machine

theorem coherent_of_careful_modify :
    ∃ s : System, ((s.process 0).control = .ret (.buffer 0x300 5 0 true) ∧ s.cache.data 0 0 = 1) ∧
      s.BreadCoherent ∧ s.RenamesUnused fun _ => true := by
  obtain ⟨s, reached, shape⟩ := exists_of_runIf (System.step fun _ => true) System.careful
    (.init (.init 1 (fun _ => 0) (fun _ => .zero) fun _ _ => .zero))
    ([.begin 0 (.bread 0x300 5)] ++ List.replicate 7 (.advance 0) ++ [.complete 3] ++
      List.replicate 2 (.advance 0) ++ [.begin 0 (.modify 0 fun _ _ => 1), .begin 0 (.brelse 0),
        .advance 0, .advance 0, .begin 0 (.bread 0x300 5)] ++ List.replicate 5 (.advance 0))
    (fun s => (s.process 0).control = .ret (.buffer 0x300 5 0 true) ∧ s.cache.data 0 0 = 1)
    (by decide +kernel)
  refine ⟨s, shape, coherent_of_careful (n := 1) (by decide) (reached.imp_of_invariant
    (fun invariant _ moved => invariant.step moved)
    (System.invariant_init (by decide) (fun _ => 0) (fun _ => .zero) fun _ _ => .zero)
    fun _ _ invariant careful => invariant.careful careful)⟩

/-- Storing to a block that was not read, and reading it back: the read throws
the store away. -/
theorem getblkStore_not_breadCoherent :
    ∃ s, run (System.step fun _ => true)
        (.init (.init 1 (fun _ => 0) (fun _ => .zero) fun _ _ => .zero))
        ([.begin 0 (.getblk 0x300 5)] ++ List.replicate 5 (.advance 0) ++
          [.begin 0 (.modify 0 fun _ _ => 1), .begin 0 (.brelse 0), .advance 0, .advance 0,
            .begin 0 (.bread 0x300 5)] ++ List.replicate 7 (.advance 0) ++ [.complete 3] ++
          [.advance 0]) = some s ∧ ¬ s.BreadCoherent := by
  refine exists_run (fun s => (s.process 0).control = .ret (.buffer 0x300 5 0 true) ∧
    s.cache.stored 0x300 5 0 = 1 ∧ s.cache.data 0 0 = 0) (by decide +kernel)
    fun s ran ⟨returns, stored, lost⟩ coherent => ?_
  have same := congrFun (coherent 0 0x300 5 0 (by decide) returns).2 0
  rw [stored, lost] at same
  exact absurd same (by decide)

end Linux012.Fs

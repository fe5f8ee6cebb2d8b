import Linux012.Fs.BufferReferences

/-! Requests and locks. A locked buffer has one owner: the request that is
queued for it, or the process that waits for a free request entry. -/

set_option autoImplicit false

namespace Linux012.Fs

open BlkDrv Transition Function

namespace Cache

/-- A request of kind `cmd` for the buffer `h` is queued in the entry `slot`. -/
def Requested (c : Cache) (cmd slot h : Nat) : Prop :=
  (∃ line, slot ∈ c.queue line) ∧ (c.request slot).cmd = cmd ∧ (c.request slot).bh = some h

structure WellQueued (c : Cache) : Prop where
  formed : ∀ line, ∀ slot ∈ c.queue line, ∃ cmd h, (cmd = READ ∨ cmd = WRITE) ∧ h < c.nrBuffers ∧
    line = major (c.dev h) ∧ c.request slot = c.requestFor cmd h
  distinct : ∀ line, (c.queue line).Nodup
  locked : ∀ {cmd slot h}, c.Requested cmd slot h → c.lock h = true
  alone : ∀ {cmd cmd' slot slot' h}, c.Requested cmd slot h → c.Requested cmd' slot' h → slot = slot'

variable {c : Cache} {cmd h line slot : Nat}

theorem requested_of_mem (queued : slot ∈ c.queue line) (entry : c.request slot = c.requestFor cmd h) :
    c.Requested cmd slot h :=
  ⟨⟨line, queued⟩, by rw [entry]; rfl, by rw [entry]; rfl⟩

theorem WellQueued.entry (queued : c.WellQueued) (requested : c.Requested cmd slot h) :
    (cmd = READ ∨ cmd = WRITE) ∧ h < c.nrBuffers ∧ slot ∈ c.queue (major (c.dev h)) ∧
      c.request slot = c.requestFor cmd h := by
  obtain ⟨⟨line, member⟩, sameCmd, sameBuffer⟩ := requested
  obtain ⟨cmd', h', known, inside, home, entry⟩ := queued.formed line slot member
  rw [entry] at sameCmd sameBuffer
  cases sameCmd
  cases sameBuffer
  exact ⟨known, inside, home ▸ member, entry⟩

theorem WellQueued.free {c : Cache} (queued : c.WellQueued) {slot : Nat}
    (free : (c.request slot).dev < 0) (line : Nat) : slot ∉ c.queue line := by
  intro member
  obtain ⟨cmd, h, _, _, _, entry⟩ := queued.formed line slot member
  rw [entry] at free
  exact absurd free (by simp [requestFor])

/-! ## Adding a request -/

theorem mem_enqueue {slot' rw bh : Nat} :
    slot' ∈ (c.enqueue slot rw bh).queue line ↔ (slot' = slot ∧ line = major (c.dev bh)) ∨ slot' ∈ c.queue line := by
  simp only [enqueue]
  by_cases home : line = major (c.dev bh)
  · rw [home, update_self, mem_addRequest]
    tauto
  · rw [update_of_ne home]
    tauto

theorem WellQueued.requested_enqueue (queued : c.WellQueued) {rw bh : Nat} (free : (c.request slot).dev < 0)
    {slot' : Nat} :
    (c.enqueue slot rw bh).Requested cmd slot' h ↔ (slot' = slot ∧ cmd = rw ∧ h = bh) ∨ c.Requested cmd slot' h := by
  have absent : ∀ line, slot ∉ c.queue line := queued.free free
  by_cases same : slot' = slot
  · subst same
    have entry : (c.enqueue slot' rw bh).request slot' = c.requestFor rw bh := update_self _ _ _
    constructor
    · rintro ⟨_, sameCmd, sameBuffer⟩
      rw [entry] at sameCmd sameBuffer
      exact .inl ⟨rfl, sameCmd.symm, (Option.some.inj sameBuffer).symm⟩
    · rintro (⟨_, rfl, rfl⟩ | ⟨⟨line, member⟩, _⟩)
      · exact ⟨⟨major (c.dev h), mem_enqueue.mpr (.inl ⟨rfl, rfl⟩)⟩, by rw [entry]; rfl, by rw [entry]; rfl⟩
      · exact absurd member (absent line)
  · have entry : (c.enqueue slot rw bh).request slot' = c.request slot' :=
      update_of_ne same _ _
    simp only [Requested, mem_enqueue, entry, same, false_and, false_or]

theorem requested_of_same {c c' : Cache} (request : c'.request = c.request) (queue : c'.queue = c.queue)
    {cmd slot h : Nat} : c'.Requested cmd slot h ↔ c.Requested cmd slot h := by
  unfold Requested
  rw [request, queue]

theorem WellQueued.unasked (queued : c.WellQueued) (unlocked : c.lock h = false) (cmd slot : Nat) :
    ¬ c.Requested cmd slot h := fun asked => absurd (queued.locked asked) (by simp [unlocked])

theorem WellQueued.command (queued : c.WellQueued) {cmd' slot' : Nat} (asked : c.Requested cmd slot h)
    (asked' : c.Requested cmd' slot' h) : cmd = cmd' := by
  rw [← asked.2.1, ← asked'.2.1, queued.alone asked asked']

theorem WellQueued.of_same {c' : Cache} (queued : c.WellQueued) (request : c'.request = c.request)
    (queue : c'.queue = c.queue) (number : c'.nrBuffers = c.nrBuffers)
    (lock : ∀ h, c.lock h = true → c'.lock h = true)
    (names : ∀ h, c.lock h = true → c'.dev h = c.dev h ∧ c'.blocknr h = c.blocknr h) : c'.WellQueued := by
  have requested := @requested_of_same _ _ request queue
  refine ⟨?_, by rw [queue]; exact queued.distinct, ?_, ?_⟩
  · intro line slot member
    rw [queue] at member
    obtain ⟨cmd, h, known, inside, home, entry⟩ := queued.formed line slot member
    obtain ⟨dev, blocknr⟩ := names h (queued.locked (requested_of_mem member entry))
    refine ⟨cmd, h, known, number ▸ inside, dev ▸ home, ?_⟩
    rw [request, entry]
    simp only [requestFor, dev, blocknr]
  · exact fun asked => lock _ (queued.locked (requested.mp asked))
  · exact fun asked asked' => queued.alone (requested.mp asked) (requested.mp asked')

theorem WellQueued.setLock (queued : c.WellQueued) (bh : Nat) : (c.setLock bh true).WellQueued :=
  queued.of_same rfl rfl rfl (fun h locked => by simp [Cache.setLock, update_apply, locked]) fun _ _ => ⟨rfl, rfl⟩

theorem WellQueued.enqueue (queued : c.WellQueued) {rw bh : Nat} (free : (c.request slot).dev < 0)
    (known : rw = READ ∨ rw = WRITE) (inside : bh < c.nrBuffers) (locked : c.lock bh = true)
    (single : ∀ cmd slot, ¬ c.Requested cmd slot bh) : (c.enqueue slot rw bh).WellQueued := by
  have absent : ∀ line, slot ∉ c.queue line := queued.free free
  refine ⟨?_, ?_, ?_, ?_⟩
  · intro line slot' member
    rcases mem_enqueue.mp member with ⟨rfl, home⟩ | already
    · exact ⟨rw, bh, known, inside, home, update_self _ _ _⟩
    · obtain ⟨cmd, h, known', inside', home, entry⟩ := queued.formed line slot' already
      have different : slot' ≠ slot := fun same => absent line (same ▸ already)
      exact ⟨cmd, h, known', inside', home, (update_of_ne different _ _).trans entry⟩
  · intro line
    simp only [Cache.enqueue]
    by_cases home : line = major (c.dev bh)
    · rw [home, update_self]
      refine (addRequest_perm _ slot (c.queue _)).nodup_iff.mpr ?_
      exact List.nodup_cons.mpr ⟨absent _, queued.distinct _⟩
    · rw [update_of_ne home]
      exact queued.distinct line
  · intro cmd slot' h asked
    rcases (queued.requested_enqueue free).mp asked with ⟨_, _, rfl⟩ | already
    · exact locked
    · exact queued.locked already
  · intro cmd cmd' slot₁ slot₂ h asked asked'
    rcases (queued.requested_enqueue free).mp asked with ⟨rfl, _, rfl⟩ | already <;>
      rcases (queued.requested_enqueue free).mp asked' with ⟨rfl, _, same⟩ | already'
    · rfl
    · exact absurd already' (single _ _)
    · exact absurd (same ▸ already) (single _ _)
    · exact queued.alone already already'

/-! ## Completing a request -/

/-- The request in the entry `slot` for the buffer `h` is done. -/
def finish (c : Cache) (line slot h : Nat) : Cache :=
  { c with
    uptodate := update c.uptodate h true
    lock := update c.lock h false
    request := update c.request slot { c.request slot with dev := -1 }
    queue := update c.queue line (c.queue line).tail }

def readBlock (c : Cache) (h : Nat) : Cache :=
  { c with data := update c.data h (c.disk (c.dev h) (c.blocknr h)) }

def writeBlock (c : Cache) (h : Nat) : Cache :=
  { c with
    disk := update c.disk (c.dev h)
      (update (c.disk (c.dev h)) (c.blocknr h) (c.data h)) }

theorem WellQueued.readBlock (queued : c.WellQueued) (bh : Nat) : (c.readBlock bh).WellQueued :=
  queued.of_same rfl rfl rfl (fun _ => id) fun _ _ => ⟨rfl, rfl⟩

theorem WellQueued.writeBlock (queued : c.WellQueued) (bh : Nat) : (c.writeBlock bh).WellQueued :=
  queued.of_same rfl rfl rfl (fun _ => id) fun _ _ => ⟨rfl, rfl⟩

theorem update_names {γ : Type} {f : Nat → Nat → γ} {d b : Nat} {x : γ} (unnamed : ¬ c.Names d b h) :
    update f (c.dev h) (update (f (c.dev h)) (c.blocknr h) x) d b = f d b := by
  by_cases sameDev : d = c.dev h
  · have otherBlock : b ≠ c.blocknr h := fun same => unnamed ⟨sameDev.symm, same.symm⟩
    simp [sameDev, otherBlock]
  · simp [sameDev]

theorem transfer_read (c : Cache) (h : Nat) : c.transfer (c.requestFor READ h) h = c.readBlock h := by
  have half : c.blocknr h <<< 1 >>> 1 = c.blocknr h := by omega
  simp only [transfer, requestFor, readBlock, Int.toNat_natCast, half, if_true]

theorem transfer_write (c : Cache) (h : Nat) :
    c.transfer (c.requestFor WRITE h) h = c.writeBlock h := by
  have half : c.blocknr h <<< 1 >>> 1 = c.blocknr h := by omega
  have other : WRITE ≠ READ := by decide
  simp only [transfer, requestFor, writeBlock, Int.toNat_natCast, half, if_neg other]

theorem endRequest_cons {rest : List Nat} (shape : c.queue line = slot :: rest)
    (buffer : (c.request slot).bh = some h) :
    c.endRequest line =
      { c.transfer (c.request slot) h with
        uptodate := update (c.transfer (c.request slot) h).uptodate h true
        lock := update (c.transfer (c.request slot) h).lock h false
        request := update (c.transfer (c.request slot) h).request slot { c.request slot with dev := -1 }
        queue := update (c.transfer (c.request slot) h).queue line rest } := by
  simp only [Cache.endRequest, shape]
  rw [buffer]
  rfl

theorem WellQueued.endRequest (queued : c.WellQueued) (busy : c.queue line ≠ []) :
    ∃ slot h, line = major (c.dev h) ∧ (c.queue line).head? = some slot ∧
      ((c.Requested READ slot h ∧ c.endRequest line = (c.readBlock h).finish line slot h) ∨
        (c.Requested WRITE slot h ∧ c.endRequest line = (c.writeBlock h).finish line slot h)) := by
  cases shape : c.queue line with
  | nil => exact absurd shape busy
  | cons slot rest =>
    have member : slot ∈ c.queue line := by rw [shape]; exact .head _
    obtain ⟨cmd, h, known, inside, home, entry⟩ := queued.formed line slot member
    refine ⟨slot, h, home, rfl, ?_⟩
    have asked := requested_of_mem member entry
    have single := endRequest_cons shape (show (c.request slot).bh = some h by rw [entry]; rfl)
    rcases known with rfl | rfl
    · refine .inl ⟨asked, single.trans ?_⟩
      rw [entry, transfer_read]
      simp only [Cache.finish, Cache.readBlock, shape, List.tail_cons, entry]
    · refine .inr ⟨asked, single.trans ?_⟩
      rw [entry, transfer_write]
      simp only [Cache.finish, Cache.writeBlock, shape, List.tail_cons, entry]

theorem WellQueued.mem_finish (queued : c.WellQueued) (first : (c.queue line).head? = some slot)
    {line' slot' : Nat} : slot' ∈ (c.finish line slot h).queue line' ↔ slot' ≠ slot ∧ slot' ∈ c.queue line' := by
  obtain ⟨rest, shape⟩ : ∃ rest, c.queue line = slot :: rest := by
    cases shape : c.queue line with
    | nil => simp [shape] at first
    | cons head rest =>
      rw [shape] at first
      cases first
      exact ⟨rest, rfl⟩
  have distinct := queued.distinct line
  rw [shape, List.nodup_cons] at distinct
  simp only [finish]
  by_cases same : line' = line
  · rw [same, update_self, shape, List.tail_cons, List.mem_cons]
    constructor
    · exact fun later => ⟨fun eq => distinct.1 (eq ▸ later), .inr later⟩
    · rintro ⟨other, eq | later⟩
      · exact absurd eq other
      · exact later
  · rw [update_of_ne same]
    refine ⟨fun member => ⟨?_, member⟩, And.right⟩
    rintro rfl
    obtain ⟨cmd, g, _, _, home, entry⟩ := queued.formed line' slot' member
    obtain ⟨cmd', g', _, _, home', entry'⟩ := queued.formed line slot' (by rw [shape]; exact .head _)
    have sameBuffer : some g = some g' := congrArg Request.bh (entry.symm.trans entry')
    cases sameBuffer
    exact same (home.trans home'.symm)

theorem WellQueued.requested_finish (queued : c.WellQueued) (first : (c.queue line).head? = some slot)
    {slot' h' : Nat} :
    (c.finish line slot h).Requested cmd slot' h' ↔ slot' ≠ slot ∧ c.Requested cmd slot' h' := by
  unfold Requested
  simp only [queued.mem_finish first]
  constructor
  · rintro ⟨⟨line', other, member⟩, sameCmd, sameBuffer⟩
    simp only [finish, update_of_ne other] at sameCmd sameBuffer
    exact ⟨other, ⟨line', member⟩, sameCmd, sameBuffer⟩
  · rintro ⟨other, ⟨line', member⟩, sameCmd, sameBuffer⟩
    simp only [finish, update_of_ne other]
    exact ⟨⟨line', other, member⟩, sameCmd, sameBuffer⟩

theorem WellQueued.requested_endRequest (queued : c.WellQueued) (busy : c.queue line ≠ [])
    (asked : (c.endRequest line).Requested cmd slot h) : c.Requested cmd slot h := by
  obtain ⟨slot', bh, -, first, ⟨-, done⟩ | ⟨-, done⟩⟩ := queued.endRequest busy
  · rw [done] at asked
    exact (((queued.readBlock bh).requested_finish first).mp asked).2
  · rw [done] at asked
    exact (((queued.writeBlock bh).requested_finish first).mp asked).2

theorem WellQueued.finish (queued : c.WellQueued) (first : (c.queue line).head? = some slot)
    (asked : c.Requested cmd slot h) : (c.finish line slot h).WellQueued := by
  refine ⟨?_, ?_, ?_, ?_⟩
  · intro line' slot' member
    obtain ⟨other, already⟩ := (queued.mem_finish first).mp member
    obtain ⟨cmd', h', known, inside, home, entry⟩ := queued.formed line' slot' already
    exact ⟨cmd', h', known, inside, home, (update_of_ne other _ _).trans entry⟩
  · intro line'
    simp only [Cache.finish]
    by_cases same : line' = line
    · rw [same, update_self]
      exact (queued.distinct line).tail
    · rw [update_of_ne same]
      exact queued.distinct line'
  · intro cmd' slot' h' asked'
    obtain ⟨other, already⟩ := (queued.requested_finish first).mp asked'
    have different : h' ≠ h := by
      rintro rfl
      exact other (queued.alone already asked)
    simp only [Cache.finish, update_of_ne different]
    exact queued.locked already
  · intro cmd₁ cmd₂ slot₁ slot₂ h' asked₁ asked₂
    exact queued.alone ((queued.requested_finish first).mp asked₁).2 ((queued.requested_finish first).mp asked₂).2

theorem wellQueued_init (n : Nat) (blocknr : Nat → Nat) (data : Nat → Block)
    (disk : Nat → Nat → Block) : (init n blocknr data disk).WellQueued where
  formed := fun line slot member => by simp [init] at member
  distinct := fun line => List.nodup_nil
  locked := fun ⟨⟨line, member⟩, _⟩ => by simp [init] at member
  alone := fun ⟨⟨line, member⟩, _⟩ => by simp [init] at member

end Cache

/-! ## Who owns a lock -/

section Owners

variable {task : Type}

/-- A process that waits for a request entry owns the lock of its buffer, and
nothing else does. -/
structure Cache.WellLocked (c : Cache) (waits : task → Option (Nat × Nat)) : Prop where
  queued : c.WellQueued
  known : ∀ p rw h, waits p = some (rw, h) → rw = READ ∨ rw = WRITE ∧ c.dirt h = true
  locked : ∀ p rw h, waits p = some (rw, h) → c.lock h = true
  unasked : ∀ p rw h, waits p = some (rw, h) → ∀ cmd slot, ¬ c.Requested cmd slot h
  lone : ∀ p q rw rw' h, waits p = some (rw, h) → waits q = some (rw', h) → p = q

variable {c : Cache} {waits : task → Option (Nat × Nat)}

theorem Cache.WellLocked.of_same {c' : Cache} (wellLocked : c.WellLocked waits)
    (request : c'.request = c.request) (queue : c'.queue = c.queue) (number : c'.nrBuffers = c.nrBuffers)
    (lock : c'.lock = c.lock) (kept : ∀ h, c.lock h = true → c'.dev h = c.dev h ∧ c'.blocknr h = c.blocknr h ∧
      (c.dirt h = true → c'.dirt h = true)) : c'.WellLocked waits where
  queued := wellLocked.queued.of_same request queue number (fun h => by rw [lock]; exact id)
    fun h locked => ⟨(kept h locked).1, (kept h locked).2.1⟩
  known := fun p rw h waiting => (wellLocked.known p rw h waiting).imp_right fun ⟨writes, dirty⟩ =>
    ⟨writes, (kept h (wellLocked.locked p rw h waiting)).2.2 dirty⟩
  locked := fun p rw h waiting => by rw [lock]; exact wellLocked.locked p rw h waiting
  unasked := fun p rw h waiting cmd slot => by
    unfold Requested
    rw [request, queue]
    exact wellLocked.unasked p rw h waiting cmd slot
  lone := wellLocked.lone

theorem Cache.WellLocked.finish (wellLocked : c.WellLocked waits) {line slot cmd h : Nat}
    (first : (c.queue line).head? = some slot) (asked : c.Requested cmd slot h) :
    (c.finish line slot h).WellLocked waits where
  queued := wellLocked.queued.finish first asked
  known := wellLocked.known
  locked := fun p rw h' waiting => by
    have different : h' ≠ h := by
      rintro rfl
      exact wellLocked.unasked p rw h' waiting cmd slot asked
    simp only [Cache.finish, update_of_ne different]
    exact wellLocked.locked p rw h' waiting
  unasked := fun p rw h' waiting cmd' slot' asked' =>
    wellLocked.unasked p rw h' waiting cmd' slot' ((wellLocked.queued.requested_finish first).mp asked').2
  lone := wellLocked.lone

theorem Cache.WellLocked.complete (wellLocked : c.WellLocked waits) {line : Nat} (busy : c.queue line ≠ []) :
    (c.endRequest line).WellLocked waits := by
  obtain ⟨slot, h, home, first, ⟨asked, done⟩ | ⟨asked, done⟩⟩ := wellLocked.queued.endRequest busy
  · rw [done]
    have read : (c.readBlock h).WellLocked waits := wellLocked.of_same rfl rfl rfl rfl fun _ _ => ⟨rfl, rfl, id⟩
    exact read.finish first asked
  · rw [done]
    have written : (c.writeBlock h).WellLocked waits := wellLocked.of_same rfl rfl rfl rfl fun _ _ => ⟨rfl, rfl, id⟩
    exact written.finish first asked

theorem Cache.WellLocked.unowned (wellLocked : c.WellLocked waits) {bh : Nat} (unlocked : c.lock bh = false) :
    (∀ cmd slot, ¬ c.Requested cmd slot bh) ∧ ∀ p rw, waits p ≠ some (rw, bh) := by
  constructor
  · exact wellLocked.queued.unasked unlocked
  · intro p rw waiting
    exact absurd (wellLocked.locked p rw bh waiting) (by simp [unlocked])

variable [DecidableEq task]

variable {p : task}

theorem Cache.WellLocked.lock (wellLocked : c.WellLocked waits) {rw cmd bh : Nat} (unlocked : c.lock bh = false)
    (needed : c.Needs rw cmd bh) : (c.setLock bh true).WellLocked (update waits p (some (cmd, bh))) := by
  obtain ⟨unasked, unwaited⟩ := wellLocked.unowned unlocked
  have cases : ∀ q rw h, update waits p (some (cmd, bh)) q = some (rw, h) →
      (q = p ∧ rw = cmd ∧ h = bh) ∨ waits q = some (rw, h) := by
    intro q rw h waiting
    by_cases same : q = p
    · rw [same, update_self] at waiting
      cases waiting
      exact .inl ⟨same, rfl, rfl⟩
    · rw [update_of_ne same] at waiting
      exact .inr waiting
  have still : ∀ h, c.lock h = true → (c.setLock bh true).lock h = true := by
    intro h locked
    simp [setLock, update_apply, locked]
  refine ⟨wellLocked.queued.of_same rfl rfl rfl still fun _ _ => ⟨rfl, rfl⟩, ?_, ?_, ?_, ?_⟩
  · intro q rw' h waiting
    rcases cases q rw' h waiting with ⟨-, rfl, rfl⟩ | before
    · rcases needed with ⟨reads, -, -⟩ | writes
      · exact .inl reads
      · exact .inr writes
    · exact wellLocked.known q rw' h before
  · intro q rw' h waiting
    rcases cases q rw' h waiting with ⟨-, -, rfl⟩ | before
    · exact update_self _ _ _
    · exact still h (wellLocked.locked q rw' h before)
  · intro q rw' h waiting
    rcases cases q rw' h waiting with ⟨-, -, rfl⟩ | before
    · exact unasked
    · exact wellLocked.unasked q rw' h before
  · intro q q' rw₁ rw₂ h waiting waiting'
    rcases cases q rw₁ h waiting with ⟨here, -, same⟩ | before <;>
      rcases cases q' rw₂ h waiting' with ⟨here', -, same'⟩ | before'
    · exact here.trans here'.symm
    · exact absurd (same ▸ before') (unwaited q' rw₂)
    · exact absurd (same' ▸ before) (unwaited q rw₁)
    · exact wellLocked.lone q q' rw₁ rw₂ h before before'

theorem Cache.WellLocked.enqueue (wellLocked : c.WellLocked waits) {slot rw bh : Nat}
    (inside : bh < c.nrBuffers) (waiting : waits p = some (rw, bh)) (free : (c.request slot).dev < 0) :
    (c.enqueue slot rw bh).WellLocked (update waits p none) := by
  have known : rw = READ ∨ rw = WRITE := (wellLocked.known p rw bh waiting).imp_right And.left
  have cases : ∀ q rw' h, update waits p none q = some (rw', h) →
      waits q = some (rw', h) ∧ h ≠ bh := by
    intro q rw' h after
    by_cases same : q = p
    · rw [same, update_self] at after
      cases after
    · rw [update_of_ne same] at after
      refine ⟨after, ?_⟩
      rintro rfl
      exact same (wellLocked.lone q p rw' rw h after waiting)
  refine ⟨wellLocked.queued.enqueue free known inside (wellLocked.locked p rw bh waiting)
    (wellLocked.unasked p rw bh waiting), ?_, ?_, ?_, ?_⟩
  · intro q rw' h after
    obtain ⟨before, other⟩ := cases q rw' h after
    simp only [Cache.enqueue, update_of_ne other]
    exact wellLocked.known q rw' h before
  · intro q rw' h after
    exact wellLocked.locked q rw' h (cases q rw' h after).1
  · intro q rw' h after cmd' slot' asked
    obtain ⟨before, other⟩ := cases q rw' h after
    rcases (wellLocked.queued.requested_enqueue free).mp asked with ⟨-, -, same⟩ | already
    · exact other same
    · exact wellLocked.unasked q rw' h before cmd' slot' already
  · intro q q' rw₁ rw₂ h after after'
    exact wellLocked.lone q q' rw₁ rw₂ h (cases q rw₁ h after).1 (cases q' rw₂ h after').1

theorem Changes.wellLocked {c' : Cache} {before after : Option (Nat × Nat)} (wellLocked : c.WellLocked waits)
    (now : waits p = before) (changed : Changes c before c' after) : c'.WellLocked (update waits p after) := by
  have idle : waits p = none → update waits p none = waits := by
    intro none
    rw [← none, update_eq_self]
  cases changed with
  | lock rw cmd bh inside unlocked needed => exact wellLocked.lock unlocked needed
  | queue rw slot cmd bh inside unlocked needed free =>
    have locked := wellLocked.lock (p := p) unlocked needed
    have handed := locked.enqueue inside (update_self _ _ _) free
    rwa [update_idem] at handed
  | enqueue slot rw bh inside free => exact wellLocked.enqueue inside now free
  | complete line busy =>
    rw [idle now]
    exact wellLocked.complete busy
  | take bh dev block inside unlocked unused clean absent =>
    rw [idle now]
    refine wellLocked.of_same (by simp) (by simp) (by simp) (by simp) ?_
    intro h locked
    have other : h ≠ bh := by
      rintro rfl
      exact absurd locked (by simp [unlocked])
    simp [update_of_ne other]
  | modify bh change inside =>
    rw [idle now]
    refine wellLocked.of_same rfl rfl rfl rfl fun h _ => ⟨rfl, rfl, fun dirty => ?_⟩
    simp [Cache.setDirt, Cache.write, update_apply, dirty]
  | mark bh inside =>
    rw [idle now]
    refine wellLocked.of_same rfl rfl rfl rfl fun h _ => ⟨rfl, rfl, fun dirty => ?_⟩
    simp [Cache.setDirt, update_apply, dirty]
  | clear bh inside =>
    rw [idle now]
    refine wellLocked.of_same rfl rfl rfl rfl fun h _ => ⟨rfl, rfl, fun dirty => ?_⟩
    simp [Cache.clearBlock, Cache.write, update_apply, dirty]
  | _ =>
    rw [idle now]
    exact wellLocked.of_same rfl rfl rfl rfl fun _ _ => ⟨rfl, rfl, id⟩

end Owners

def System.waits (s : System) (p : Fin NR_TASKS) : Option (Nat × Nat) := (s.process p).waits

theorem System.waits_update {s s' : System} {p : Fin NR_TASKS} {proc : Process}
    (moved : s'.process = update s.process p proc) :
    s'.waits = update s.waits p proc.waits := by
  funext q
  unfold System.waits
  rw [moved]
  by_cases same : q = p
  · rw [same, update_self, update_self]
  · rw [update_of_ne same, update_of_ne same]

def System.WellLocked (s : System) : Prop := s.cache.WellLocked s.waits

theorem System.wellLocked_init (n : Nat) (blocknr : Nat → Nat) (data : Nat → Block)
    (disk : Nat → Nat → Block) : (System.init (.init n blocknr data disk)).WellLocked where
  queued := Cache.wellQueued_init n blocknr data disk
  known := nofun
  locked := nofun
  unasked := nofun
  lone := nofun

theorem System.WellLocked.step {driver : Nat → Bool} {n : Nat} {s s' : System} {m : Move}
    (linked : s.Linked n) (wellLocked : s.WellLocked) (moved : s.step driver m = some s') :
    s'.WellLocked := by
  rcases System.step_cases moved with ⟨p, proc, moves, others⟩ | ⟨line, busy, rfl⟩
  · have after := (moves.changes (linked.inside p)).wellLocked wellLocked rfl
    rwa [← System.waits_update others] at after
  · exact wellLocked.complete busy

end Linux012.Fs

import Linux012.Fs.BufferRequests

/-! Reads in progress. Whoever asked for a read holds a reference until it is
done, so nobody else declares the contents of the buffer valid meanwhile. -/

set_option autoImplicit false

namespace Linux012.Fs

open BlkDrv Transition Function

def Control.asks : Control → List Nat
  | .llRwBlock rw bh | .requestWait rw bh => if rw = WRITE then [] else [bh]
  | _ => []

def Process.Asking (proc : Process) : Prop := ∀ h ∈ proc.control.asks, h ∈ stackReads proc.stack

def Cache.Reading {task : Type} (c : Cache) (waits : task → Option (Nat × Nat)) (h : Nat) : Prop :=
  (∃ slot, c.Requested READ slot h) ∨ ∃ p, waits p = some (READ, h)

section Machine

variable {driver : Nat → Bool}

variable {c c' : Cache}

theorem Submits.asks {rw bh : Nat} {control : Control} (submitted : Submits driver c rw bh c' control) :
    control.asks ⊆ (Control.llRwBlock rw bh).asks := by
  cases submitted with
  | skip | queue near served unlocked needed free => exact List.nil_subset _
  | wait near served unlocked needed =>
    rcases needed with ⟨rfl, -, reads⟩ | ⟨rfl, -⟩
    · simp [Control.asks, reads, show READ ≠ WRITE by decide]
    · simp [Control.asks]

theorem Moves.asking {c c' : Cache} {proc proc' : Process} (moved : Moves driver c proc c' proc')
    (asking : proc.Asking) : proc'.Asking := by
  unfold Process.Asking at asking ⊢
  cases moved with
  | submit submitted => exact fun h asks => asking h (submitted.asks asks)
  | syncDevWrite submitted | sysSyncWrite _ submitted =>
    intro h asks
    have := submitted.asks asks
    simp [Control.asks] at this
  | _ => simp [Control.asks, stackReads, Caller.reads]

variable {h : Nat}

theorem Moves.reads {proc proc' : Process} (moved : Moves driver c proc c' proc') (reads : h ∈ proc.reads)
    (locked : c.lock h = true) : h ∈ proc'.reads := by
  cases moved with
  | breadDone unlocked valid | breadFails unlocked =>
    simp only [Process.reads, Control.reads, List.mem_append, List.mem_singleton] at reads
    rcases reads with rfl | below
    · exact absurd locked (by simp [unlocked])
    · simp [Process.reads, stackReads, below]
  | submit submitted =>
    simp only [Process.reads, Control.reads, List.nil_append] at reads
    exact List.mem_append_right _ reads
  | syncDevWrite submitted | sysSyncWrite _ submitted =>
    simp only [Process.reads, Control.reads, List.nil_append] at reads
    exact List.mem_append_right _ (List.mem_append_right _ reads)
  | toNull why =>
    rcases why with rfl | ⟨⟨dev, block, rfl⟩ | ⟨dev, block, ahead, rfl⟩, -⟩ <;>
      simpa [Process.reads, Control.reads, stackReads, Caller.reads] using reads
  | toSyncDev why | toSysSync why =>
    rcases why with ⟨j, rfl⟩ | rfl <;>
      simpa [Process.reads, Control.reads, stackReads, Caller.reads] using reads
  | _ =>
    simp only [Process.reads, Control.reads, stackReads, Caller.reads, List.mem_append,
      List.mem_singleton, List.not_mem_nil, false_or] at reads ⊢
    tauto

theorem Cache.WellLocked.reading_finish {task : Type} {waits : task → Option (Nat × Nat)}
    (wellLocked : c.WellLocked waits) {line slot cmd bh : Nat} (first : (c.queue line).head? = some slot)
    (asked : c.Requested cmd slot bh) (reading : (c.finish line slot bh).Reading waits h) :
    c.Reading waits h ∧ (c.finish line slot bh).uptodate h = c.uptodate h := by
  have different : c.Reading waits h ∧ h ≠ bh := by
    rcases reading with ⟨slot', asked'⟩ | ⟨q, waiting⟩
    · obtain ⟨other, already⟩ := (wellLocked.queued.requested_finish first).mp asked'
      refine ⟨.inl ⟨slot', already⟩, ?_⟩
      rintro rfl
      exact other (wellLocked.queued.alone already asked)
    · refine ⟨.inr ⟨q, waiting⟩, ?_⟩
      rintro rfl
      exact wellLocked.unasked q READ h waiting cmd slot asked
  exact ⟨different.1, update_of_ne different.2 _ _⟩

theorem Cache.WellLocked.reading_complete {task : Type} {waits : task → Option (Nat × Nat)}
    (wellLocked : c.WellLocked waits) {line : Nat} (busy : c.queue line ≠ [])
    (reading : (c.endRequest line).Reading waits h) :
    c.Reading waits h ∧ (c.endRequest line).uptodate h = c.uptodate h := by
  obtain ⟨slot, bh, -, first, ⟨asked, done⟩ | ⟨asked, done⟩⟩ := wellLocked.queued.endRequest busy
  · rw [done] at reading ⊢
    have read : (c.readBlock bh).WellLocked waits := wellLocked.of_same rfl rfl rfl rfl fun _ _ => ⟨rfl, rfl, id⟩
    exact read.reading_finish first asked reading
  · rw [done] at reading ⊢
    have written : (c.writeBlock bh).WellLocked waits := wellLocked.of_same rfl rfl rfl rfl fun _ _ => ⟨rfl, rfl, id⟩
    exact written.reading_finish first asked reading

theorem Changes.reading {task : Type} [DecidableEq task] {c c' : Cache}
    {waits : task → Option (Nat × Nat)} {p : task} {before after : Option (Nat × Nat)}
    (wellLocked : c.WellLocked waits) (now : waits p = before) (changed : Changes c before c' after)
    {h : Nat} (reading : c'.Reading (update waits p after) h) :
    c'.uptodate h = false ∨ c.Reading waits h := by
  have idle : waits p = none → update waits p none = waits := by
    intro none
    rw [← none, update_eq_self]
  cases changed with
  | lock rw cmd bh inside unlocked needed =>
    rcases reading with asked | ⟨q, waiting⟩
    · exact .inr (.inl asked)
    · by_cases same : q = p
      · rw [same, update_self] at waiting
        cases waiting
        rcases needed with ⟨-, invalid, -⟩ | ⟨writes, -⟩
        · exact .inl invalid
        · exact absurd writes (by decide)
      · rw [update_of_ne same] at waiting
        exact .inr (.inr ⟨q, waiting⟩)
  | queue rw slot cmd bh inside unlocked needed free =>
    rw [idle now] at reading
    rcases reading with ⟨slot', asked⟩ | waiting
    · rcases ((wellLocked.queued.setLock bh).requested_enqueue free).mp asked with ⟨-, reads, rfl⟩ | already
      · rcases needed with ⟨-, invalid, -⟩ | ⟨writes, -⟩
        · exact .inl invalid
        · exact absurd (reads.trans writes) (by decide)
      · exact .inr (.inl ⟨slot', already⟩)
    · exact .inr (.inr waiting)
  | enqueue slot rw bh inside free =>
    rcases reading with ⟨slot', asked⟩ | ⟨q, waiting⟩
    · rcases (wellLocked.queued.requested_enqueue free).mp asked with ⟨-, rfl, rfl⟩ | already
      · exact .inr (.inr ⟨p, now⟩)
      · exact .inr (.inl ⟨slot', already⟩)
    · by_cases same : q = p
      · rw [same, update_self] at waiting
        cases waiting
      · rw [update_of_ne same] at waiting
        exact .inr (.inr ⟨q, waiting⟩)
  | complete line busy =>
    rw [idle now] at reading
    exact .inr (wellLocked.reading_complete busy reading).1
  | take bh dev block inside unlocked unused clean absent =>
    rw [idle now] at reading
    exact .inr (by simpa [Cache.Reading, Cache.Requested] using reading)
  | _ =>
    rw [idle now] at reading
    exact .inr reading

theorem Moves.uptodate {proc proc' : Process} (moved : Moves driver c proc c' proc') :
    (∀ h, c'.uptodate h = true → c.uptodate h = true) ∨
      ∃ held bh, proc.control = .user held ∧ bh ∈ held ∧ c.count bh = 1 ∧ c' = c.clearBlock bh := by
  cases moved with
  | clear holds alone => exact .inr ⟨_, _, rfl, holds, alone, rfl⟩
  | victimTake unlocked unused clean absent =>
    refine .inl fun h valid => ?_
    rw [Cache.take_uptodate, update_apply] at valid
    split at valid
    · cases valid
    · exact valid
  | submit submitted | syncDevWrite submitted | sysSyncWrite _ submitted =>
    cases submitted with
    | _ => exact .inl fun _ => id
  | _ => exact .inl fun _ => id

theorem Submits.requested {rw bh : Nat} {control : Control} (queued : c.WellQueued)
    (submitted : Submits driver c rw bh c' control) {slot : Nat} (asked : c'.Requested READ slot h) :
    c.Requested READ slot h ∨ rw ≠ WRITE ∧ h = bh := by
  cases submitted with
  | skip | wait near served unlocked needed => exact .inl asked
  | queue near served unlocked needed free =>
    rcases ((queued.setLock bh).requested_enqueue free).mp asked with ⟨-, reads, same⟩ | already
    · rcases needed with ⟨-, -, other⟩ | ⟨writes, -⟩
      · exact .inr ⟨other, same⟩
      · exact absurd (reads.trans writes) (by decide)
    · exact .inl already

theorem Moves.requested {proc proc' : Process} (queued : c.WellQueued) (moved : Moves driver c proc c' proc')
    (asking : proc.Asking) {slot : Nat} (asked : c'.Requested READ slot h) :
    c.Requested READ slot h ∨ h ∈ proc'.reads := by
  cases moved with
  | submit submitted =>
    refine (submitted.requested queued asked).imp_right fun ⟨other, same⟩ => ?_
    refine List.mem_append_right _ (asking h ?_)
    simp [Control.asks, other, same]
  | syncDevWrite submitted | sysSyncWrite _ submitted =>
    exact .inl ((submitted.requested queued asked).resolve_right fun ⟨other, _⟩ => other rfl)
  | requestFound free =>
    rcases (queued.requested_enqueue free).mp asked with ⟨-, reads, same⟩ | already
    · refine .inr (List.mem_append_right _ (asking h ?_))
      simp [Control.asks, ← reads, same, show READ ≠ WRITE by decide]
    · exact .inl already
  | victimTake unlocked unused clean absent =>
    exact .inl (by simpa [Cache.Requested] using asked)
  | _ => exact .inl asked

/-- Whoever asked for a read that is not done holds a reference, and the
contents of the buffer are not valid yet. -/
structure System.WellRead (s : System) : Prop where
  asking : ∀ p, (s.process p).Asking
  readers : ∀ slot h, s.cache.Requested READ slot h → ∃ p, h ∈ (s.process p).reads
  invalid : ∀ h, s.cache.Reading s.waits h → s.cache.uptodate h = false

theorem System.wellRead_init (n : Nat) (blocknr : Nat → Nat) (data : Nat → Block)
    (disk : Nat → Nat → Block) : (System.init (.init n blocknr data disk)).WellRead where
  asking := fun p h asks => by simp [System.init, Control.asks] at asks
  readers := fun slot h ⟨⟨line, member⟩, _⟩ => by simp [System.init, Cache.init] at member
  invalid := fun _ _ => rfl

theorem System.WellRead.reader {s : System} (wellRead : s.WellRead) (reading : s.cache.Reading s.waits h) :
    ∃ p, h ∈ (s.process p).reads := by
  rcases reading with ⟨slot, asked⟩ | ⟨p, waiting⟩
  · exact wellRead.readers slot h asked
  · refine ⟨p, List.mem_append_right _ (wellRead.asking p h ?_)⟩
    change (s.process p).waits = some (READ, h) at waiting
    unfold Process.waits at waiting
    split at waiting
    · next control =>
        cases waiting
        rw [control]
        exact .head _
    · cases waiting

theorem System.WellRead.not_reading {s : System} (wellRead : s.WellRead) (referenced : s.Referenced)
    {p : Fin NR_TASKS} {held : List Nat} (outside : (s.process p).control = .user held) (holds : h ∈ held)
    (alone : s.cache.count h = 1) : ¬ s.cache.Reading s.waits h := by
  intro reading
  obtain ⟨q, reads⟩ := wellRead.reader reading
  have mine : 0 < (s.process p).control.holds.count h := by
    rw [outside]
    exact List.count_pos_iff.mpr holds
  by_cases same : q = p
  · subst same
    have total := referenced.counted.le q h
    have below : h ∈ stackReads (s.process q).stack := by
      simpa [Process.reads, outside, Control.reads] using reads
    have := stackReads_count_le (s.process q).stack h
    have := List.count_pos_iff.mpr below
    simp only [Process.holds, List.count_append] at total
    omega
  · have total := referenced.counted.add_le same h
    have := List.count_pos_iff.mpr (Process.mem_holds reads)
    simp only [Process.holds, List.count_append] at total this
    omega

theorem System.WellRead.step {n : Nat} {s s' : System} {m : Move} (linked : s.Linked n)
    (referenced : s.Referenced) (wellLocked : s.WellLocked) (wellRead : s.WellRead)
    (moved : s.step driver m = some s') : s'.WellRead := by
  refine ⟨System.step_forall moved wellRead.asking fun p _ moves => moves.asking (wellRead.asking p), ?_, ?_⟩
  · intro slot h asked
    rcases System.step_cases moved with ⟨p, proc, moves, others⟩ | ⟨line, busy, rfl⟩
    · rw [others]
      rcases moves.requested wellLocked.queued (wellRead.asking p) asked with already | mine
      · obtain ⟨q, reads⟩ := wellRead.readers slot h already
        by_cases same : q = p
        · subst same
          exact ⟨q, by
            rw [update_self]
            exact moves.reads reads (wellLocked.queued.locked already)⟩
        · exact ⟨q, by rwa [update_of_ne same]⟩
      · exact ⟨p, by rwa [update_self]⟩
    · exact wellRead.readers slot h (wellLocked.queued.requested_endRequest busy asked)
  · intro h reading
    rcases System.step_cases moved with ⟨p, proc, moves, others⟩ | ⟨line, busy, rfl⟩
    · rw [System.waits_update others] at reading
      rcases (moves.changes (linked.inside p)).reading wellLocked rfl reading with done | before
      · exact done
      · have invalid := wellRead.invalid h before
        rcases moves.uptodate with kept | ⟨held, bh, outside, holds, alone, cleared⟩
        · exact Bool.eq_false_iff.mpr fun valid => absurd (kept h valid) (by simp [invalid])
        · have other : h ≠ bh := by
            rintro rfl
            exact wellRead.not_reading referenced outside holds alone before
          rw [cleared]
          exact (update_of_ne other _ _).trans invalid
    · obtain ⟨before, kept⟩ := wellLocked.reading_complete busy reading
      exact kept.trans (wellRead.invalid h before)

structure System.Invariant (n : Nat) (s : System) : Prop where
  linked : s.Linked n
  referenced : s.Referenced
  wellLocked : s.WellLocked
  wellRead : s.WellRead

theorem System.invariant_init {n : Nat} (positive : 0 < n) (blocknr : Nat → Nat) (data : Nat → Block)
    (disk : Nat → Nat → Block) : (System.init (.init n blocknr data disk)).Invariant n where
  linked := System.linked_init positive blocknr data disk
  referenced := System.referenced_init _
  wellLocked := System.wellLocked_init n blocknr data disk
  wellRead := System.wellRead_init n blocknr data disk

theorem System.Invariant.step {n : Nat} {s s' : System} {m : Move} (invariant : s.Invariant n)
    (moved : s.step driver m = some s') : s'.Invariant n where
  linked := invariant.linked.step moved
  referenced := invariant.referenced.step invariant.linked moved
  wellLocked := invariant.wellLocked.step invariant.linked moved
  wellRead := invariant.wellRead.step invariant.linked invariant.referenced invariant.wellLocked moved

end Machine

end Linux012.Fs

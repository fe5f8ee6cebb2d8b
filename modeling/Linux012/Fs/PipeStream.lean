import Linux012.Fs.Pipe

/-! A pipe carries a stream as long as the processes touch the page in the order in
which they have claimed their bytes. -/

set_option autoImplicit false

namespace Linux012.Fs.Pipe

open Transition Function List

theorem lookup_of_mem {log : List (Nat × UInt8)} {i : Nat} {byte : UInt8} (once : (log.map Prod.fst).Nodup)
    (logged : (i, byte) ∈ log) : log.lookup i = some byte := by
  obtain ⟨before, after, rfl⟩ := append_of_mem logged
  refine lookup_eq_some_iff.mpr ⟨before, after, rfl, fun other earlier => ?_⟩
  rw [map_append, map_cons, nodup_append] at once
  rw [bne_iff_ne]
  rintro rfl
  exact once.2.2 _ (mem_map_of_mem earlier) _ mem_cons_self rfl

theorem stream_prefix {log log' : List (Nat × UInt8)} {n n' : Nat} (fewer : n ≤ n')
    (agree : ∀ i < n, log.lookup i = log'.lookup i) : State.stream log n <+: State.stream log' n' := by
  obtain ⟨more, rfl⟩ := Nat.exists_eq_add_of_le fewer
  have same : State.stream log n = State.stream log' n :=
    filterMap_congr fun i listed => agree i (mem_range.mp listed)
  rw [same, State.stream, State.stream, range_add, filterMap_append]
  exact prefix_append _ _

variable {ρ : Type}

theorem unread_subset {activity : Activity} {i : Nat} (pending : i ∈ activity.unread) : i ∈ activity.reads := by
  cases activity with
  | delivering chunk byte =>
    simp only [Activity.unread, Activity.reads, mem_range'_1] at pending ⊢
    omega
  | idle | reading | writing | fetching => exact nomatch pending

namespace State

def Unread (s : State ρ) (i : Nat) : Prop := s.readPos ≤ i ∨ ∃ p, i ∈ (s.proc p).unread

/-- What the processes keep as long as they touch the page in turn. -/
structure Sound (s : State ρ) : Prop where
  headAt : s.head = s.writePos % PAGE_SIZE
  tailAt : s.tail = s.readPos % PAGE_SIZE
  behind : s.readPos ≤ s.writePos
  within : s.writePos < s.readPos + PAGE_SIZE
  chunkIn : ∀ {p chunk byte}, s.proc p = .delivering chunk byte →
    0 < chunk.chars ∧ chunk.size = chunk.pos % PAGE_SIZE ∧ chunk.size + chunk.chars ≤ PAGE_SIZE
  chunkOut : ∀ {p chunk}, s.proc p = .fetching chunk →
    0 < chunk.chars ∧ chunk.size = chunk.pos % PAGE_SIZE ∧ chunk.size + chunk.chars ≤ PAGE_SIZE
  readers : Tickets.Exact s.readPos (fun p i => i ∈ (s.proc p).reads) (s.delivered.map Prod.fst)
  writers : Tickets.Exact s.writePos (fun p i => i ∈ (s.proc p).writes) (s.supplied.map Prod.fst)
  loaded : ∀ {p chunk byte}, s.proc p = .delivering chunk byte → (chunk.pos, byte) ∈ s.supplied
  sameByte : ∀ {i byte}, (i, byte) ∈ s.delivered → (i, byte) ∈ s.supplied
  notRead : ∀ {p i}, i ∈ (s.proc p).writes → s.Unread i
  readBefore : ∀ {i j byte}, (j, byte) ∈ s.supplied → i < j → i % PAGE_SIZE = j % PAGE_SIZE → ¬s.Unread i
  onPage : ∀ {i byte}, (i, byte) ∈ s.supplied → s.Unread i → s.page (i % PAGE_SIZE) = byte

theorem Sound.initial : (init : State ρ).Sound where
  headAt := rfl
  tailAt := rfl
  behind := Nat.le_refl _
  within := Nat.zero_lt_succ 4095
  chunkIn := nofun
  chunkOut := nofun
  readers := Tickets.Exact.initial.congr fun _ _ => ⟨(nomatch ·), False.elim⟩
  writers := Tickets.Exact.initial.congr fun _ _ => ⟨(nomatch ·), False.elim⟩
  loaded := nofun
  sameByte := nofun
  notRead := nofun
  readBefore := nofun
  onPage := nofun

variable {s : State ρ}

theorem Sound.fifo (sound : s.Sound) : s.Fifo where
  sameByte := sound.sameByte
  deliveredOnce := sound.readers.once
  suppliedOnce := sound.writers.once
  noneLost := sound.readers.issued
  noneMissing := sound.writers.issued
  isPrefix := by
    intro atRest
    refine stream_prefix sound.behind fun i claimed => ?_
    rcases (sound.readers.issued i).mp claimed with delivered | ⟨p, pending⟩
    · obtain ⟨⟨_, byte⟩, logged, rfl⟩ := mem_map.mp delivered
      rw [lookup_of_mem sound.readers.once logged, lookup_of_mem sound.writers.once (sound.sameByte logged)]
    · rw [atRest p] at pending
      exact nomatch pending

theorem Sound.stored_on_page (sound : s.Sound) {i : Nat} (claimed : i < s.writePos) (stored : s.Stored i)
    (unread : s.Unread i) : (i, s.page (i % PAGE_SIZE)) ∈ s.supplied := by
  rcases (sound.writers.issued i).mp claimed with supplied | ⟨p, pending⟩
  · obtain ⟨⟨_, byte⟩, logged, rfl⟩ := mem_map.mp supplied
    rwa [sound.onPage logged unread]
  · exact absurd pending (stored p)

theorem pipeSize_eq (sound : s.Sound) : s.pipeSize = s.writePos - s.readPos := by
  have head := sound.headAt
  have tail := sound.tailAt
  have behind := sound.behind
  have within := sound.within
  unfold pipeSize
  unfold PAGE_SIZE at *
  omega

variable {count : Nat}

theorem chars_bounds (room : Nat) (size : Nat) (someRoom : 0 < room) (someCount : 0 < count)
    (someSize : 0 < size) :
    0 < chars room count size ∧ chars room count size ≤ room ∧ chars room count size ≤ size := by
  simp only [chars]
  split <;> split <;> omega

theorem and_pageMask (n : Nat) : n &&& (PAGE_SIZE - 1) = n % PAGE_SIZE :=
  Nat.and_two_pow_sub_one_eq_mod n 12

theorem next_index {index pos chars : Nat} (here : index = pos % PAGE_SIZE) (inPage : index + chars ≤ PAGE_SIZE)
    (more : 1 < chars) : index + 1 = (pos + 1) % PAGE_SIZE := by
  unfold PAGE_SIZE at *
  omega

theorem place_ne {first i j : Nat} (low : first ≤ i) (earlier : i < j) (high : j < first + PAGE_SIZE) :
    i % PAGE_SIZE ≠ j % PAGE_SIZE := by
  unfold PAGE_SIZE at *
  omega

theorem Sound.not_unread_of_drained (sound : s.Sound) {i j : Nat} (claimed : j < s.writePos)
    (drained : s.Drained j) (earlier : i < j) (place : i % PAGE_SIZE = j % PAGE_SIZE) : ¬s.Unread i := by
  rintro (later | ⟨p, pending⟩)
  · exact place_ne later earlier (claimed.trans sound.within) place
  · exact drained p i pending earlier place

/-! ## The calls -/

variable [DecidableEq ρ]

variable {p : ρ}

theorem Sound.rest (sound : s.Sound) {activity : Activity}
    (before : (s.proc p).reads = [] ∧ (s.proc p).unread = [] ∧ (s.proc p).writes = [])
    (after : ∀ chunk, (∀ byte, activity ≠ .delivering chunk byte) ∧ activity ≠ .fetching chunk) :
    (s.setProc p activity).Sound := by
  have none : activity.reads = [] ∧ activity.unread = [] ∧ activity.writes = [] := by
    cases activity with
    | delivering chunk byte => exact absurd rfl ((after chunk).1 byte)
    | fetching chunk => exact absurd rfl (after chunk).2
    | idle | reading | writing => exact ⟨rfl, rfl, rfl⟩
  have frame {α : Type} (view : Activity → α) (same : view activity = view (s.proc p)) (q : ρ) :
      view ((s.setProc p activity).proc q) = view (s.proc q) := by
    rw [setProc, Function.apply_update fun _ => view, same, update_eq_self]
  have reads : ∀ q, ((s.setProc p activity).proc q).reads = (s.proc q).reads :=
    frame Activity.reads (none.1.trans before.1.symm)
  have unread : ∀ q, ((s.setProc p activity).proc q).unread = (s.proc q).unread :=
    frame Activity.unread (none.2.1.trans before.2.1.symm)
  have writes : ∀ q, ((s.setProc p activity).proc q).writes = (s.proc q).writes :=
    frame Activity.writes (none.2.2.trans before.2.2.symm)
  have old {q : ρ} {busy : Activity} (now : (s.setProc p activity).proc q = busy) (other : activity ≠ busy) :
      s.proc q = busy := by
    by_cases same : q = p
    · simp only [setProc, same, update_self] at now
      exact absurd now other
    · simpa only [setProc, update_of_ne same] using now
  have left (i : Nat) : (s.setProc p activity).Unread i ↔ s.Unread i := by
    simp only [Unread, unread]
    rfl
  exact
    { headAt := sound.headAt
      tailAt := sound.tailAt
      behind := sound.behind
      within := sound.within
      chunkIn := fun now => sound.chunkIn (old now ((after _).1 _))
      chunkOut := fun now => sound.chunkOut (old now (after _).2)
      readers := sound.readers.congr fun q i => by rw [reads]
      writers := sound.writers.congr fun q i => by rw [writes]
      loaded := fun now => sound.loaded (old now ((after _).1 _))
      sameByte := sound.sameByte
      notRead := fun {q i} pending => (left i).mpr (sound.notRead (writes q ▸ pending))
      readBefore := fun supplied earlier place unread => sound.readBefore supplied earlier place ((left _).mp unread)
      onPage := fun supplied unread => sound.onPage supplied ((left _).mp unread) }

theorem Sound.claimRead (sound : s.Sound) (calls : s.proc p = .reading count) (someCount : 0 < count)
    (someBytes : s.pipeSize ≠ 0) (stored : s.Stored s.readPos) : (s.claimRead p count).Sound := by
  have size := pipeSize_eq sound
  have tail := sound.tailAt
  have behind := sound.behind
  have within := sound.within
  have small : s.readPos % PAGE_SIZE < PAGE_SIZE := Nat.mod_lt _ (by decide)
  obtain ⟨someChars, inPage, inPipe⟩ :=
    chars_bounds (PAGE_SIZE - s.tail) s.pipeSize (by omega) someCount (Nat.pos_of_ne_zero someBytes)
  generalize after : s.claimRead p count = s'
  simp only [State.claimRead] at after
  generalize chars (PAGE_SIZE - s.tail) count s.pipeSize = n at someChars inPage inPipe after
  have own : s'.proc p =
      .delivering { size := s.tail, chars := n, count := count - n, pos := s.readPos } (s.page s.tail) := by
    rw [← after]
    exact update_self ..
  have others {q : ρ} (other : q ≠ p) : s'.proc q = s.proc q := by
    rw [← after]
    exact update_of_ne other ..
  have writes (q : ρ) : (s'.proc q).writes = (s.proc q).writes := by
    by_cases same : q = p
    · rw [same, own, calls]
      rfl
    · rw [others same]
  have claimed : s'.readPos = s.readPos + n := by rw [← after]
  -- the first byte of the chunk is the only one that is read now
  have left (i : Nat) : s'.Unread i ↔ s.Unread i ∧ i ≠ s.readPos := by
    constructor
    · rintro (later | ⟨q, pending⟩)
      · exact ⟨.inl (by omega), by omega⟩
      · by_cases same : q = p
        · rw [same, own, Activity.unread, mem_range'_1] at pending
          exact ⟨.inl (by dsimp only at pending; omega), by dsimp only at pending; omega⟩
        · rw [others same] at pending
          have earlier := sound.readers.held_lt (unread_subset pending)
          exact ⟨.inr ⟨q, pending⟩, by omega⟩
    · rintro ⟨later | ⟨q, pending⟩, other⟩
      · by_cases beyond : s'.readPos ≤ i
        · exact .inl beyond
        · refine .inr ⟨p, ?_⟩
          rw [own, Activity.unread, mem_range'_1]
          dsimp only
          omega
      · refine .inr ⟨q, ?_⟩
        rwa [others]
        rintro rfl
        rw [calls] at pending
        exact nomatch pending
  have rest : s'.head = s.head ∧ s'.tail = (s.tail + n) &&& (PAGE_SIZE - 1) ∧ s'.page = s.page ∧
      s'.writePos = s.writePos ∧ s'.delivered = s.delivered ∧ s'.supplied = s.supplied := by
    rw [← after]
    exact ⟨rfl, rfl, rfl, rfl, rfl, rfl⟩
  obtain ⟨head', tail', page', write', delivered', supplied'⟩ := rest
  clear after
  constructor
  · rw [head', write', sound.headAt]
  · rw [tail', claimed, and_pageMask, tail, Nat.mod_add_mod]
  · omega
  · omega
  · intro q busy byte now
    by_cases same : q = p
    · rw [same, own] at now
      cases now
      exact ⟨someChars, tail, by dsimp only; omega⟩
    · rw [others same] at now
      exact sound.chunkIn now
  · intro q busy now
    by_cases same : q = p
    · rw [same, own] at now
      cases now
    · rw [others same] at now
      exact sound.chunkOut now
  · rw [delivered', claimed]
    refine sound.readers.take (p := p) (fun i => ?_) (Nat.le_add_right ..) (fun i => ?_) fun q i other => ?_
    · rw [calls]
      exact not_mem_nil
    · rw [own, Activity.reads, mem_range'_1]
    · rw [others other]
  · rw [supplied', write']
    exact sound.writers.congr fun q i => by rw [writes]
  · intro q busy byte now
    rw [supplied']
    by_cases same : q = p
    · rw [same, own] at now
      cases now
      rw [tail]
      exact sound.stored_on_page (i := s.readPos) (by omega) stored (.inl (Nat.le_refl _))
    · rw [others same] at now
      exact sound.loaded now
  · rw [delivered', supplied']
    exact sound.sameByte
  · intro q i pending
    rw [writes] at pending
    refine (left i).mpr ⟨sound.notRead pending, ?_⟩
    rintro rfl
    exact stored q pending
  · rw [supplied']
    exact fun supplied earlier place unread => sound.readBefore supplied earlier place ((left _).mp unread).1
  · rw [supplied', page']
    exact fun supplied unread => sound.onPage supplied ((left _).mp unread).1

theorem Sound.claimWrite (sound : s.Sound) (calls : s.proc p = .writing count) (someCount : 0 < count)
    (someRoom : PAGE_SIZE - 1 - s.pipeSize ≠ 0) : (s.claimWrite p count).Sound := by
  have size := pipeSize_eq sound
  have head := sound.headAt
  have behind := sound.behind
  have within := sound.within
  have small : s.writePos % PAGE_SIZE < PAGE_SIZE := Nat.mod_lt _ (by decide)
  obtain ⟨someChars, inPage, inPipe⟩ :=
    chars_bounds (PAGE_SIZE - s.head) (PAGE_SIZE - 1 - s.pipeSize) (by omega) someCount (Nat.pos_of_ne_zero someRoom)
  generalize after : s.claimWrite p count = s'
  simp only [State.claimWrite] at after
  generalize chars (PAGE_SIZE - s.head) count (PAGE_SIZE - 1 - s.pipeSize) = n at someChars inPage inPipe after
  have own : s'.proc p = .fetching { size := s.head, chars := n, count := count - n, pos := s.writePos } := by
    rw [← after]
    exact update_self ..
  have others {q : ρ} (other : q ≠ p) : s'.proc q = s.proc q := by
    rw [← after]
    exact update_of_ne other ..
  have reads (q : ρ) : (s'.proc q).reads = (s.proc q).reads := by
    by_cases same : q = p
    · rw [same, own, calls]
      rfl
    · rw [others same]
  have unread (q : ρ) : (s'.proc q).unread = (s.proc q).unread := by
    by_cases same : q = p
    · rw [same, own, calls]
      rfl
    · rw [others same]
  have rest : s'.head = (s.head + n) &&& (PAGE_SIZE - 1) ∧ s'.tail = s.tail ∧ s'.page = s.page ∧
      s'.readPos = s.readPos ∧ s'.writePos = s.writePos + n ∧ s'.delivered = s.delivered ∧
      s'.supplied = s.supplied := by
    rw [← after]
    exact ⟨rfl, rfl, rfl, rfl, rfl, rfl, rfl⟩
  obtain ⟨head', tail', page', read', claimed, delivered', supplied'⟩ := rest
  clear after
  have left (i : Nat) : s'.Unread i ↔ s.Unread i := by
    simp only [Unread, unread, read']
  constructor
  · rw [head', claimed, and_pageMask, head, Nat.mod_add_mod]
  · rw [tail', read', sound.tailAt]
  · omega
  · omega
  · intro q busy byte now
    by_cases same : q = p
    · rw [same, own] at now
      cases now
    · rw [others same] at now
      exact sound.chunkIn now
  · intro q busy now
    by_cases same : q = p
    · rw [same, own] at now
      cases now
      exact ⟨someChars, head, by dsimp only; omega⟩
    · rw [others same] at now
      exact sound.chunkOut now
  · rw [delivered', read']
    exact sound.readers.congr fun q i => by rw [reads]
  · rw [supplied', claimed]
    refine sound.writers.take (p := p) (fun i => ?_) (Nat.le_add_right ..) (fun i => ?_) fun q i other => ?_
    · rw [calls]
      exact not_mem_nil
    · rw [own, Activity.writes, mem_range'_1]
    · rw [others other]
  · intro q busy byte now
    rw [supplied']
    by_cases same : q = p
    · rw [same, own] at now
      cases now
    · rw [others same] at now
      exact sound.loaded now
  · rw [delivered', supplied']
    exact sound.sameByte
  · intro q i pending
    refine (left i).mpr ?_
    by_cases same : q = p
    · rw [same, own, Activity.writes, mem_range'_1] at pending
      exact .inl (behind.trans pending.1)
    · rw [others same] at pending
      exact sound.notRead pending
  · rw [supplied']
    exact fun supplied earlier place unread => sound.readBefore supplied earlier place ((left _).mp unread)
  · rw [supplied', page']
    exact fun supplied unread => sound.onPage supplied ((left _).mp unread)

theorem Sound.putFsByte {s' : State ρ} (sound : s.Sound) {chunk : Chunk} {byte : UInt8}
    (calls : s.proc p = .delivering chunk byte) (stored : chunk.chars ≠ 1 → s.Stored (chunk.pos + 1))
    (moved : s.putFsByte p = some s') : s'.Sound := by
  obtain ⟨someChars, index, inPage⟩ := sound.chunkIn calls
  have mine (i : Nat) : i ∈ (s.proc p).reads ↔ chunk.pos ≤ i ∧ i < chunk.pos + chunk.chars := by
    rw [calls, Activity.reads, mem_range'_1]
  have claimed : chunk.pos + chunk.chars ≤ s.readPos := by
    have last := sound.readers.held_lt ((mine (chunk.pos + chunk.chars - 1)).mpr (by omega))
    omega
  have behind := sound.behind
  simp only [State.putFsByte, calls, Option.some.injEq] at moved
  have own : s'.proc p =
      if chunk.chars = 1 then .reading chunk.count else .delivering chunk.next (s.page chunk.next.size) := by
    rw [← moved]
    exact update_self ..
  have others {q : ρ} (other : q ≠ p) : s'.proc q = s.proc q := by
    rw [← moved]
    exact update_of_ne other ..
  have rest : s'.head = s.head ∧ s'.tail = s.tail ∧ s'.page = s.page ∧ s'.readPos = s.readPos ∧
      s'.writePos = s.writePos ∧ s'.delivered = s.delivered ++ [(chunk.pos, byte)] ∧
      s'.supplied = s.supplied := by
    rw [← moved]
    exact ⟨rfl, rfl, rfl, rfl, rfl, rfl, rfl⟩
  obtain ⟨head', tail', page', read', write', delivered', supplied'⟩ := rest
  clear moved
  have writes (q : ρ) : (s'.proc q).writes = (s.proc q).writes := by
    by_cases same : q = p
    · rw [same, own, calls]
      split <;> rfl
    · rw [others same]
  have reads (q : ρ) (i : Nat) : i ∈ (s'.proc q).reads ↔ i ∈ (s.proc q).reads ∧ i ≠ chunk.pos := by
    by_cases same : q = p
    · rw [same, mine, own]
      split
      · simp only [Activity.reads, not_mem_nil, false_iff]
        omega
      · simp only [Activity.reads, Chunk.next, mem_range'_1]
        omega
    · rw [others same]
      refine ⟨fun pending => ⟨pending, ?_⟩, And.left⟩
      rintro rfl
      exact same (sound.readers.oneHolder pending ((mine _).mpr (by omega)))
  have unread (q : ρ) (i : Nat) :
      i ∈ (s'.proc q).unread ↔ i ∈ (s.proc q).unread ∧ (chunk.chars ≠ 1 → i ≠ chunk.pos + 1) := by
    by_cases same : q = p
    · rw [same, own, calls]
      split
      · simp only [Activity.unread, not_mem_nil, mem_range'_1, false_iff]
        omega
      · simp only [Activity.unread, Chunk.next, mem_range'_1]
        omega
    · rw [others same]
      refine ⟨fun pending => ⟨pending, fun more => ?_⟩, And.left⟩
      rintro rfl
      exact same (sound.readers.oneHolder (unread_subset pending) ((mine _).mpr (by omega)))
  have left (i : Nat) : s'.Unread i ↔ s.Unread i ∧ (chunk.chars ≠ 1 → i ≠ chunk.pos + 1) := by
    simp only [Unread, unread, read']
    constructor
    · rintro (later | ⟨q, pending, other⟩)
      · exact ⟨.inl later, by omega⟩
      · exact ⟨.inr ⟨q, pending⟩, other⟩
    · rintro ⟨later | ⟨q, pending⟩, other⟩
      · exact .inl later
      · exact .inr ⟨q, pending, other⟩
  constructor
  · rw [head', write', sound.headAt]
  · rw [tail', read', sound.tailAt]
  · omega
  · have within := sound.within
    omega
  · intro q busy held now
    by_cases same : q = p
    · rw [same, own] at now
      split at now
      · cases now
      · cases now
        have later := next_index index inPage (by omega)
        simp only [Chunk.next]
        omega
    · rw [others same] at now
      exact sound.chunkIn now
  · intro q busy now
    by_cases same : q = p
    · rw [same, own] at now
      split at now <;> cases now
    · rw [others same] at now
      exact sound.chunkOut now
  · rw [delivered', read', map_append]
    exact sound.readers.finish ((mine _).mpr (by omega)) reads
  · rw [supplied', write']
    exact sound.writers.congr fun q i => by rw [writes]
  · intro q busy held now
    rw [supplied']
    by_cases same : q = p
    · rw [same, own] at now
      split at now
      · cases now
      · next more =>
        cases now
        have next : chunk.next.size = (chunk.pos + 1) % PAGE_SIZE := next_index index inPage (by omega)
        have pending : chunk.pos + 1 ∈ (s.proc p).unread := by
          rw [calls, Activity.unread, mem_range'_1]
          omega
        rw [next]
        exact sound.stored_on_page (i := chunk.pos + 1) (by omega) (stored more) (.inr ⟨p, pending⟩)
    · rw [others same] at now
      exact sound.loaded now
  · intro i held logged
    rw [delivered', mem_append, mem_singleton, Prod.mk.injEq] at logged
    rw [supplied']
    rcases logged with before | ⟨rfl, rfl⟩
    · exact sound.sameByte before
    · exact sound.loaded calls
  · intro q i pending
    rw [writes] at pending
    refine (left i).mpr ⟨sound.notRead pending, fun more => ?_⟩
    rintro rfl
    exact stored more q pending
  · rw [supplied']
    exact fun supplied earlier place unread => sound.readBefore supplied earlier place ((left _).mp unread).1
  · rw [supplied', page']
    exact fun supplied unread => sound.onPage supplied ((left _).mp unread).1

theorem Sound.getFsByte {s' : State ρ} (sound : s.Sound) {chunk : Chunk} {byte : UInt8}
    (calls : s.proc p = .fetching chunk) (drained : s.Drained chunk.pos) (moved : s.getFsByte p byte = some s') :
    s'.Sound := by
  obtain ⟨someChars, index, inPage⟩ := sound.chunkOut calls
  have mine (i : Nat) : i ∈ (s.proc p).writes ↔ chunk.pos ≤ i ∧ i < chunk.pos + chunk.chars := by
    rw [calls, Activity.writes, mem_range'_1]
  have first : chunk.pos ∈ (s.proc p).writes := (mine _).mpr (by omega)
  have claimed : chunk.pos < s.writePos := sound.writers.held_lt first
  simp only [State.getFsByte, calls, Option.some.injEq] at moved
  have own : s'.proc p = if chunk.chars = 1 then .writing chunk.count else .fetching chunk.next := by
    rw [← moved]
    exact update_self ..
  have others {q : ρ} (other : q ≠ p) : s'.proc q = s.proc q := by
    rw [← moved]
    exact update_of_ne other ..
  have rest : s'.head = s.head ∧ s'.tail = s.tail ∧ s'.page = update s.page chunk.size byte ∧
      s'.readPos = s.readPos ∧ s'.writePos = s.writePos ∧ s'.delivered = s.delivered ∧
      s'.supplied = s.supplied ++ [(chunk.pos, byte)] := by
    rw [← moved]
    exact ⟨rfl, rfl, rfl, rfl, rfl, rfl, rfl⟩
  obtain ⟨head', tail', page', read', write', delivered', supplied'⟩ := rest
  clear moved
  have reads (q : ρ) : (s'.proc q).reads = (s.proc q).reads := by
    by_cases same : q = p
    · rw [same, own, calls]
      split <;> rfl
    · rw [others same]
  have unread (q : ρ) : (s'.proc q).unread = (s.proc q).unread := by
    by_cases same : q = p
    · rw [same, own, calls]
      split <;> rfl
    · rw [others same]
  have left (i : Nat) : s'.Unread i ↔ s.Unread i := by
    simp only [Unread, unread, read']
  have writes (q : ρ) (i : Nat) : i ∈ (s'.proc q).writes ↔ i ∈ (s.proc q).writes ∧ i ≠ chunk.pos := by
    by_cases same : q = p
    · rw [same, mine, own]
      split
      · simp only [Activity.writes, not_mem_nil, false_iff]
        omega
      · simp only [Activity.writes, Chunk.next, mem_range'_1]
        omega
    · rw [others same]
      refine ⟨fun pending => ⟨pending, ?_⟩, And.left⟩
      rintro rfl
      exact same (sound.writers.oneHolder pending first)
  have older {i : Nat} {held : UInt8} (logged : (i, held) ∈ s.supplied) : i ≠ chunk.pos := by
    rintro rfl
    exact sound.writers.notBoth first (mem_map_of_mem logged)
  constructor
  · rw [head', write', sound.headAt]
  · rw [tail', read', sound.tailAt]
  · rw [read', write']
    exact sound.behind
  · rw [read', write']
    exact sound.within
  · intro q busy held now
    by_cases same : q = p
    · rw [same, own] at now
      split at now <;> cases now
    · rw [others same] at now
      exact sound.chunkIn now
  · intro q busy now
    by_cases same : q = p
    · rw [same, own] at now
      split at now
      · cases now
      · cases now
        have later := next_index index inPage (by omega)
        simp only [Chunk.next]
        omega
    · rw [others same] at now
      exact sound.chunkOut now
  · rw [delivered', read']
    exact sound.readers.congr fun q i => by rw [reads]
  · rw [supplied', write', map_append]
    exact sound.writers.finish first writes
  · intro q busy held now
    rw [supplied']
    by_cases same : q = p
    · rw [same, own] at now
      split at now <;> cases now
    · rw [others same] at now
      exact mem_append_left _ (sound.loaded now)
  · intro i held logged
    rw [delivered'] at logged
    rw [supplied']
    exact mem_append_left _ (sound.sameByte logged)
  · intro q i pending
    exact (left i).mpr (sound.notRead ((writes q i).mp pending).1)
  · intro i j held logged earlier place unread
    rw [left] at unread
    rw [supplied', mem_append, mem_singleton, Prod.mk.injEq] at logged
    rcases logged with before | ⟨rfl, rfl⟩
    · exact sound.readBefore before earlier place unread
    · exact sound.not_unread_of_drained claimed drained earlier place unread
  · intro i held logged unread
    rw [left] at unread
    rw [supplied', mem_append, mem_singleton, Prod.mk.injEq] at logged
    rw [page']
    rcases logged with before | ⟨rfl, rfl⟩
    · have elsewhere : i % PAGE_SIZE ≠ chunk.size := by
        intro place
        rw [index] at place
        rcases Nat.lt_or_gt_of_ne (older before) with earlier | later
        · exact sound.not_unread_of_drained claimed drained earlier place unread
        · exact sound.readBefore before later place.symm (sound.notRead first)
      rw [update_of_ne elsewhere]
      exact sound.onPage before unread
    · rw [← index, update_self]

theorem Sound.step {s s' : State ρ} {m : Move ρ} (sound : s.Sound) (inTurn : InTurn s m)
    (moved : s.step m = some s') : s'.Sound := by
  cases m with
  | read p count | write p count =>
    simp only [State.step, Option.ite_none_right_eq_some, Option.some.injEq] at moved
    obtain ⟨idle, rfl⟩ := moved
    exact sound.rest (by rw [idle]; exact ⟨rfl, rfl, rfl⟩) fun _ => ⟨nofun, nofun⟩
  | claim p =>
    simp only [State.step, State.claim] at moved
    simp only [InTurn] at inTurn
    cases calls : s.proc p with
    | reading count =>
      simp only [calls] at moved inTurn
      split at moved
      · cases moved
        exact sound.rest (by rw [calls]; exact ⟨rfl, rfl, rfl⟩) fun _ => ⟨nofun, nofun⟩
      next someCount =>
      split at moved
      · cases moved
      next someBytes =>
      cases moved
      obtain ⟨more, rfl⟩ := Nat.exists_eq_succ_of_ne_zero someCount
      exact sound.claimRead calls (Nat.succ_pos more) someBytes (inTurn rfl)
    | writing count =>
      simp only [calls] at moved
      split at moved
      · cases moved
        exact sound.rest (by rw [calls]; exact ⟨rfl, rfl, rfl⟩) fun _ => ⟨nofun, nofun⟩
      next someCount =>
      split at moved
      · cases moved
      next someRoom =>
      cases moved
      exact sound.claimWrite calls (Nat.pos_of_ne_zero someCount) someRoom
    | idle | delivering | fetching => simp only [calls, reduceCtorEq] at moved
  | giveUp p =>
    simp only [State.step, State.giveUp] at moved
    cases calls : s.proc p with
    | reading count | writing count =>
      simp only [calls, Option.ite_none_right_eq_some, Option.some.injEq] at moved
      obtain ⟨-, rfl⟩ := moved
      exact sound.rest (by rw [calls]; exact ⟨rfl, rfl, rfl⟩) fun _ => ⟨nofun, nofun⟩
    | idle | delivering | fetching => simp only [calls, reduceCtorEq] at moved
  | putFsByte p =>
    simp only [InTurn] at inTurn
    cases calls : s.proc p with
    | delivering chunk byte =>
      rw [calls] at inTurn
      refine sound.putFsByte calls (fun more => inTurn _ ?_) moved
      have someChars := (sound.chunkIn calls).1
      rw [Activity.unread, head?_range', if_neg (by omega)]
      rfl
    | idle | reading | writing | fetching =>
      simp only [State.step, State.putFsByte, calls, reduceCtorEq] at moved
  | getFsByte p byte =>
    simp only [InTurn] at inTurn
    cases calls : s.proc p with
    | fetching chunk =>
      rw [calls] at inTurn
      refine sound.getFsByte calls (inTurn _ ?_) moved
      have someChars := (sound.chunkOut calls).1
      rw [Activity.writes, head?_range', if_neg (by omega)]
      rfl
    | idle | reading | writing | delivering =>
      simp only [State.step, State.getFsByte, calls, reduceCtorEq] at moved

end State

/-- A pipe whose page is touched in turn is a stream of bytes. -/
theorem fifo_of_inTurn [DecidableEq ρ] {s : State ρ} (reached : Run State.step InTurn State.init s) : s.Fifo :=
  (reached.invariant State.Sound.step State.Sound.initial).fifo

theorem fifo_between_bytes :
    ∃ s : State Bool, s.delivered = [(0, 65)] ∧ s.supplied = [(0, 65), (1, 66)] ∧ s.Fifo := by
  obtain ⟨s, ran, delivered, supplied⟩ := exists_of_runIf State.step
    (fun (s : State Bool) m => decide (InTurn s m)) State.init
    [.write true 2, .claim true, .getFsByte true 65, .read false 1, .claim false, .getFsByte true 66,
      .putFsByte false]
    (fun s => s.delivered = [(0, 65)] ∧ s.supplied = [(0, 65), (1, 66)]) (by decide +kernel)
  exact ⟨s, delivered, supplied, fifo_of_inTurn (ran.weaken fun _ _ inTurn => of_decide_eq_true inTurn)⟩

/-- A writer sleeps in `get_fs_byte` while its byte is counted in the pipe already. -/
theorem reads_before_stored :
    ∃ s : State Bool, Reachable State.step State.init s ∧ s.delivered = [(0, 0)] ∧ s.supplied = [(0, 65)] ∧
      ¬s.Fifo := by
  obtain ⟨s, ran, delivered, supplied⟩ := exists_of_run State.step State.init
    [.write true 1, .claim true, .read false 1, .claim false, .putFsByte false, .getFsByte true 65]
    (fun s => s.delivered = [(0, 0)] ∧ s.supplied = [(0, 65)]) (by decide +kernel)
  refine ⟨s, reachable_of_run ran, delivered, supplied, fun fifo => ?_⟩
  have same : (0, 0) ∈ s.supplied := fifo.sameByte (by rw [delivered]; exact mem_singleton_self _)
  rw [supplied] at same
  exact absurd same (by decide)

end Linux012.Fs.Pipe

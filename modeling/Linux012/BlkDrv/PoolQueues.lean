import Linux012.BlkDrv.RequestPool

/-! The invariant that the entries in use are the linked ones. -/

set_option autoImplicit false

namespace Linux012.BlkDrv.RequestPool

open Links Transition Function

theorem State.insertionPoint_splits (view : Nat → Request) {next : Nat → Option Nat} (req : Nat)
    {fuel tmp : Nat} {rest : List Nat} (follows : Follows next (next tmp) rest) (enough : rest.length ≤ fuel) :
    ∃ front back, tmp :: rest = front ++ insertionPoint view next (view req) fuel tmp :: back ∧
      tmp :: insertBehind view req tmp rest =
        front ++ insertionPoint view next (view req) fuel tmp :: req :: back := by
  induction rest generalizing fuel tmp with
  | nil =>
    have stays : insertionPoint view next (view req) fuel tmp = tmp := by
      cases fuel with
      | zero => rfl
      | succ fuel => simp only [insertionPoint, follows_nil.mp follows]
    exact ⟨[], [], by rw [stays]; rfl, by rw [stays]; rfl⟩
  | cons after rest ih =>
    obtain ⟨fuel, rfl⟩ : ∃ less, fuel = less + 1 := ⟨fuel - 1, by simp at enough; omega⟩
    simp only [insertionPoint, follows.1, insertBehind]
    by_cases fits : insertsBefore (view req) (view tmp) (view after) = true
    · rw [if_pos fits, if_pos fits]
      exact ⟨[], after :: rest, rfl, rfl⟩
    · rw [if_neg fits, if_neg fits]
      obtain ⟨front, back, split, inserted⟩ := ih follows.2 (Nat.le_of_succ_le_succ enough)
      exact ⟨tmp :: front, back, by rw [split]; rfl, by rw [inserted]; rfl⟩

def Phase.holds : Phase → Option Nat
  | .testing call => some call.bh
  | .searching (.block call) _ => some call.bh
  | _ => none

def Call.Valid (devices : Devices) (call : Call) : Prop :=
  call.line < NR_BLK_DEV ∧ ∀ p, majorOf (call.request devices p).dev = call.line ∧
    0 ≤ (call.request devices p).dev

def Phase.Valid (devices : Devices) : Phase → Prop
  | .locking call => (Call.block call).Valid devices
  | .testing call => (Call.block call).Valid devices
  | .searching call req => call.Valid devices ∧ req ≤ call.limit
  | _ => True

namespace State

variable {devices : Devices} {s : State} {queue : Nat → List Nat}

structure Sound (devices : Devices) (s : State) (queue : Nat → List Nat) : Prop where
  follows : ∀ m, Follows s.next (s.currentRequest m) (queue m)
  nodup : ∀ m, (queue m).Nodup
  inPool : ∀ m, ∀ req ∈ queue m, req < NR_REQUEST
  major : ∀ m, ∀ req ∈ queue m, m < NR_BLK_DEV ∧ majorOf (s.request req).dev = m
  busy : ∀ req, 0 ≤ (s.request req).dev ↔ ∃ m, req ∈ queue m
  locked : ∀ req bh, 0 ≤ (s.request req).dev → (s.request req).bh = some bh → s.bLock bh = true
  oneName : ∀ req req' bh, 0 ≤ (s.request req).dev → 0 ≤ (s.request req').dev →
    (s.request req).bh = some bh → (s.request req').bh = some bh → req = req'
  writes : ∀ req, 0 ≤ (s.request req).dev → (s.request req).bh.isSome → (s.request req).cmd = WRITE →
    req < NR_REQUEST * 2 / 3
  held : ∀ p bh, (s.phase p).holds = some bh → s.bLock bh = true
  unnamed : ∀ p bh req, (s.phase p).holds = some bh → 0 ≤ (s.request req).dev →
    (s.request req).bh ≠ some bh
  oneHolder : ∀ p q bh, (s.phase p).holds = some bh → (s.phase q).holds = some bh → p = q
  valid : ∀ p, (s.phase p).Valid devices
  calm : s.Calm

theorem Sound.boot (devices : Devices) (dirt uptodate : Nat → Bool) :
    (boot dirt uptodate).Sound devices fun _ => [] where
  follows := fun _ => rfl
  nodup := fun _ => .nil
  inPool := by simp
  major := by simp
  busy := by simp [State.boot, Request.empty]
  locked := fun _ _ busy => absurd busy (by simp [State.boot, Request.empty])
  oneName := fun _ _ _ busy => absurd busy (by simp [State.boot, Request.empty])
  writes := fun _ busy => absurd busy (by simp [State.boot, Request.empty])
  held := fun _ _ holds => nomatch holds
  unnamed := fun _ _ _ holds => nomatch holds
  oneHolder := fun _ _ _ holds => nomatch holds
  valid := fun _ => trivial
  calm := by simp [Calm, State.boot]

theorem Sound.agrees (sound : s.Sound devices queue) : s.Agrees queue where
  reads := fun m _ => sound.follows m
  busy := fun req => by
    constructor
    · intro busy
      obtain ⟨m, queued⟩ := (sound.busy req).mp busy.2
      exact ⟨m, (sound.major m req queued).1, queued⟩
    · rintro ⟨m, -, queued⟩
      exact ⟨sound.inPool m req queued, (sound.busy req).mpr ⟨m, queued⟩⟩
  once := fun m _ => sound.nodup m
  oneHead := fun m _ m' _ req queued queued' =>
    (sound.major m req queued).2.symm.trans (sound.major m' req queued').2
  locked := fun req bh busy => sound.locked req bh busy.2
  oneName := fun req req' bh busy busy' => sound.oneName req req' bh busy.2 busy'.2
  writes := fun req busy => sound.writes req busy.2

/-! ## Steps that leave the pool alone -/

variable {p : Nat} {phase : Phase}

theorem holds_setPhase {q bh : Nat} (now : ((s.setPhase p phase).phase q).holds = some bh) :
    q = p ∧ phase.holds = some bh ∨ q ≠ p ∧ (s.phase q).holds = some bh := by
  by_cases same : q = p
  · subst same
    rw [setPhase_self] at now
    exact .inl ⟨rfl, now⟩
  · rw [setPhase_of_ne s phase same] at now
    exact .inr ⟨same, now⟩

theorem valid_setPhase (before : ∀ q, (s.phase q).Valid devices) (valid : phase.Valid devices) (q : Nat) :
    ((s.setPhase p phase).phase q).Valid devices := by
  by_cases same : q = p
  · subst same
    rw [setPhase_self]
    exact valid
  · rw [setPhase_of_ne s phase same]
    exact before q

theorem Sound.setPhase (sound : s.Sound devices queue)
    (holds : phase.holds = none ∨ phase.holds = (s.phase p).holds) (valid : phase.Valid devices) :
    (s.setPhase p phase).Sound devices queue := by
  have before {q bh : Nat} (now : ((s.setPhase p phase).phase q).holds = some bh) :
      (s.phase q).holds = some bh := by
    rcases holds_setPhase now with ⟨rfl, held⟩ | ⟨-, held⟩
    · rcases holds with none | kept
      · exact absurd (none.symm.trans held) (by simp)
      · exact kept ▸ held
    · exact held
  exact {
    sound with
    held := fun q bh now => sound.held q bh (before now)
    unnamed := fun q bh req now => sound.unnamed q bh req (before now)
    oneHolder := fun q q' bh now now' => sound.oneHolder q q' bh (before now) (before now')
    valid := valid_setPhase sound.valid valid }

theorem Sound.print (sound : s.Sound devices queue) {text : Message}
    (refused : text = .nonexistentDevice ∨ text = .badCommand) : (s.print text).Sound devices queue :=
  { sound with
    calm := fun other printed => by
      rcases List.mem_cons.mp printed with rfl | earlier
      · exact refused
      · exact sound.calm other earlier }

theorem Sound.panic (sound : s.Sound devices queue) : (s.panic .badCommand).Sound devices queue :=
  { sound.print (.inr rfl) with }

theorem Sound.touch (sound : s.Sound devices queue) (bh : Nat) (dirt uptodate : Bool) :
    (s.touch bh dirt uptodate).Sound devices queue :=
  { sound with }

theorem Sound.initRequest (sound : s.Sound devices queue) (m : Nat) : s.initRequest m = s := by
  unfold State.initRequest
  have follows := sound.follows m
  cases first : s.currentRequest m with
  | none => rfl
  | some req =>
    have queued : req ∈ queue m := by
      cases list : queue m with
      | nil => simp [list, first] at follows
      | cons x rest =>
        rw [list, first] at follows
        rw [Option.some.inj follows.1]
        exact List.mem_cons_self
    have busy := (sound.busy req).mpr ⟨m, queued⟩
    dsimp only
    rw [if_neg fun differ => differ (sound.major m req queued).2]
    cases named : (s.request req).bh with
    | none => rfl
    | some bh =>
      dsimp only
      rw [if_pos (sound.locked req bh busy named)]

/-! ## Locks -/

theorem Sound.lock (sound : s.Sound devices queue) {call : BlockCall} (phase : s.phase p = .locking call)
    (free : s.bLock call.bh = false) :
    ((s.setLock call.bh true).setPhase p (.testing call)).Sound devices queue := by
  have kept {bh : Nat} (lock : s.bLock bh = true) : (s.setLock call.bh true).bLock bh = true := by
    by_cases same : bh = call.bh
    · rw [same, setLock_self]
    · rwa [setLock_of_ne s true same]
  have unlocked {bh : Nat} (lock : s.bLock bh = true) : bh ≠ call.bh := by
    rintro rfl
    rw [free] at lock
    cases lock
  have before {q bh : Nat}
      (now : (((s.setLock call.bh true).setPhase p (.testing call)).phase q).holds = some bh) :
      q = p ∧ bh = call.bh ∨ bh ≠ call.bh ∧ (s.phase q).holds = some bh := by
    rcases holds_setPhase now with ⟨same, held⟩ | ⟨-, held⟩
    · exact .inl ⟨same, (Option.some.inj held).symm⟩
    · exact .inr ⟨unlocked (sound.held q bh held), held⟩
  exact {
    sound with
    locked := fun req bh busy named => kept (sound.locked req bh busy named)
    held := fun q bh now => by
      rcases before now with ⟨-, rfl⟩ | ⟨-, held⟩
      · exact setLock_self ..
      · exact kept (sound.held q bh held)
    unnamed := fun q bh req now busy named => by
      rcases before now with ⟨-, rfl⟩ | ⟨-, held⟩
      · exact unlocked (sound.locked req _ busy named) rfl
      · exact sound.unnamed q bh req held busy named
    oneHolder := fun q q' bh now now' => by
      rcases before now with ⟨rfl, same⟩ | ⟨differ, held⟩ <;>
        rcases before now' with ⟨rfl, same'⟩ | ⟨differ', held'⟩
      · rfl
      · exact absurd same differ'
      · exact absurd same' differ
      · exact sound.oneHolder q q' bh held held'
    valid := by
      have valid := sound.valid p
      rw [phase] at valid
      exact valid_setPhase (s := s.setLock call.bh true) sound.valid valid }

theorem Sound.unlock (sound : s.Sound devices queue) {bh : Nat} (holds : (s.phase p).holds = some bh) :
    ((s.unlockBuffer bh .bufferNotLocked).setPhase p .idle).Sound devices queue := by
  rw [State.unlockBuffer, if_pos (sound.held p bh holds)]
  have before {q other : Nat} (now : (((s.setLock bh false).setPhase p .idle).phase q).holds = some other) :
      q ≠ p ∧ (s.phase q).holds = some other := by
    rcases holds_setPhase now with ⟨-, held⟩ | held
    · cases held
    · exact held
  have kept {other : Nat} (differ : other ≠ bh) (lock : s.bLock other = true) :
      (s.setLock bh false).bLock other = true := by
    rwa [setLock_of_ne s false differ]
  exact {
    sound with
    locked := fun req other busy named => by
      have differ : other ≠ bh := by
        rintro rfl
        exact sound.unnamed p other req holds busy named
      exact kept differ (sound.locked req other busy named)
    held := fun q other now => by
      obtain ⟨differ, held⟩ := before now
      refine kept ?_ (sound.held q other held)
      rintro rfl
      exact differ (sound.oneHolder q p other held holds)
    unnamed := fun q other req now => sound.unnamed q other req (before now).2
    oneHolder := fun q q' other now now' => sound.oneHolder q q' other (before now).2 (before now').2
    valid := valid_setPhase (s := s.setLock bh false) sound.valid trivial }

/-! ## Linking a request -/

@[simp] theorem linkRequest_request (s : State) (m req : Nat) : (s.linkRequest m req).request = s.request := by
  unfold linkRequest
  cases s.currentRequest m <;> rfl

@[simp] theorem linkRequest_bLock (s : State) (m req : Nat) : (s.linkRequest m req).bLock = s.bLock := by
  unfold linkRequest
  cases s.currentRequest m <;> rfl

@[simp] theorem linkRequest_phase (s : State) (m req : Nat) : (s.linkRequest m req).phase = s.phase := by
  unfold linkRequest
  cases s.currentRequest m <;> rfl

@[simp] theorem linkRequest_printed (s : State) (m req : Nat) : (s.linkRequest m req).printed = s.printed := by
  unfold linkRequest
  cases s.currentRequest m <;> rfl

theorem linkRequest_follows {m req : Nat} (follows : ∀ m, Follows s.next (s.currentRequest m) (queue m))
    (nodup : (queue m).Nodup) (short : (queue m).length ≤ NR_REQUEST) (new : ∀ m, req ∉ queue m)
    (apart : ∀ other, other ≠ m → ∀ x ∈ queue other, x ∉ queue m) (other : Nat) :
    Follows (s.linkRequest m req).next ((s.linkRequest m req).currentRequest other)
      (update queue m (BlkDrv.addRequest s.request req (queue m)) other) := by
  have clear (line : Nat) : Follows (update s.next req none) (s.currentRequest line) (queue line) :=
    (follows line).update (new line)
  cases list : queue m with
  | nil =>
    have head : s.currentRequest m = none := by
      have follows := follows m
      rwa [list] at follows
    simp only [linkRequest, head, BlkDrv.addRequest]
    by_cases same : other = m
    · subst same
      rw [update_self, update_self]
      exact ⟨rfl, update_self ..⟩
    · rw [update_of_ne same, update_of_ne same]
      exact clear other
  | cons tmp rest =>
    have here := clear m
    rw [list] at here nodup short
    obtain ⟨front, back, split, inserted⟩ := insertionPoint_splits s.request req here.2 (Nat.le_of_succ_le short)
    simp only [linkRequest, here.1, BlkDrv.addRequest]
    generalize insertionPoint s.request _ _ _ tmp = point at split inserted ⊢
    by_cases same : other = m
    · subst same
      rw [update_self, inserted]
      rw [split] at here nodup
      have unlinked : req ∉ front ++ point :: back := by
        rw [← split, ← list]
        exact new other
      exact here.insertAfter nodup unlinked
    · rw [update_of_ne same]
      refine (clear other).insertAfter_other (fun queued => ?_) (new other)
      refine apart other same point queued ?_
      rw [list, split]
      simp

theorem Sound.length_le (sound : s.Sound devices queue) (m : Nat) : (queue m).length ≤ NR_REQUEST := by
  have inRange : queue m ⊆ List.range NR_REQUEST := fun req queued =>
    List.mem_range.mpr (sound.inPool m req queued)
  have bound := (sound.nodup m).length_le_of_subset inRange
  rwa [List.length_range] at bound

end State

theorem Call.request_bh (devices : Devices) (call : Call) (p req : Nat) :
    (call.request devices p).bh = (Phase.searching call req).holds := by
  cases call <;> rfl

theorem Call.limit_of_write {devices : Devices} {call : Call} {p : Nat}
    (buffer : (call.request devices p).bh.isSome) (write : (call.request devices p).cmd = WRITE) :
    call.limit = NR_REQUEST * 2 / 3 := by
  cases call with
  | block call =>
    have rw : call.rw = WRITE := write
    rw [Call.limit, if_neg (by rw [rw]; decide)]
  | page rw dev number => cases buffer

theorem Call.limit_le (call : Call) : call.limit ≤ NR_REQUEST := by
  cases call with
  | block call =>
    simp only [Call.limit]
    split
    · exact Nat.le_refl _
    · decide
  | page rw dev number => exact Nat.le_refl _

theorem Call.after_holds (call : Call) : call.after.holds = none := by
  cases call <;> rfl

theorem Call.after_valid (devices : Devices) (call : Call) : call.after.Valid devices := by
  cases call <;> trivial

namespace State

variable {devices : Devices} {s : State} {queue : Nat → List Nat}

theorem Sound.fillRequest (sound : s.Sound devices queue) {p req : Nat} {call : Call}
    (phase : s.phase p = .searching call (req + 1)) (free : (s.request req).dev < 0) :
    ∃ queue, (s.fillRequest devices p call req).Sound devices queue := by
  obtain ⟨validCall, below⟩ : call.Valid devices ∧ req + 1 ≤ call.limit := by
    have valid := sound.valid p
    rwa [phase] at valid
  obtain ⟨lineLt, entryValid⟩ := validCall
  obtain ⟨major, used⟩ := entryValid p
  have new (m : Nat) : req ∉ queue m := fun queued =>
    absurd ((sound.busy req).mpr ⟨m, queued⟩) (by omega)
  have holds : (s.phase p).holds = (call.request devices p).bh := by
    rw [phase, Call.request_bh]
  generalize filled : update s.request req (call.request devices p) = request
  have own : request req = call.request devices p := by
    rw [← filled, update_self]
  have others {other : Nat} (differ : other ≠ req) : request other = s.request other := by
    rw [← filled, update_of_ne differ]
  have ofQueued {m other : Nat} (queued : other ∈ queue m) : request other = s.request other :=
    others fun same => new m (same ▸ queued)
  let marked := ({ s with request := request }).setPhase p call.after
  have entries (other : Nat) : other = req ∧ marked.request other = call.request devices p ∨
      other ≠ req ∧ marked.request other = s.request other := by
    by_cases same : other = req
    · exact .inl ⟨same, same ▸ own⟩
    · exact .inr ⟨same, others same⟩
  let lists := update queue call.line (BlkDrv.addRequest request req (queue call.line))
  have mem {m other : Nat} : other ∈ lists m ↔ m = call.line ∧ other = req ∨ other ∈ queue m := by
    by_cases same : m = call.line
    · simp only [lists, same, update_self, mem_addRequest, true_and]
    · simp only [lists, update_of_ne same, same, false_and, false_or]
  have before {q bh : Nat} (now : (marked.phase q).holds = some bh) : q ≠ p ∧ (s.phase q).holds = some bh := by
    rcases holds_setPhase now with ⟨-, held⟩ | held
    · rw [call.after_holds] at held
      cases held
    · exact held
  have apart (other : Nat) (differ : other ≠ call.line) : ∀ x ∈ queue other, x ∉ queue call.line :=
    fun x queued queued' => differ ((sound.major other x queued).2.symm.trans (sound.major call.line x queued').2)
  have linked : (marked.linkRequest call.line req).Sound devices lists := by
    refine ⟨?_, ?_, ?_, ?_, ?_, ?_, ?_, ?_, ?_, ?_, ?_, ?_, ?_⟩
    · exact linkRequest_follows (s := marked) sound.follows (sound.nodup _) (sound.length_le _) new apart
    · intro m
      by_cases same : m = call.line
      · simp only [lists, same, update_self]
        exact (addRequest_perm request req _).nodup_iff.mpr (List.nodup_cons.mpr ⟨new _, sound.nodup _⟩)
      · simp only [lists, update_of_ne same]
        exact sound.nodup m
    · intro m other queued
      rcases mem.mp queued with ⟨-, rfl⟩ | before
      · exact Nat.lt_of_lt_of_le (Nat.lt_of_succ_le below) call.limit_le
      · exact sound.inPool m other before
    · intro m other queued
      rw [linkRequest_request]
      rcases mem.mp queued with ⟨rfl, rfl⟩ | before
      · exact ⟨lineLt, by rw [← major, ← own]; rfl⟩
      · have entry : marked.request other = s.request other := ofQueued before
        rw [entry]
        exact sound.major m other before
    · intro other
      rw [linkRequest_request]
      obtain ⟨rfl, entry⟩ | ⟨same, entry⟩ := entries other
      · rw [entry]
        exact iff_of_true used ⟨call.line, mem.mpr (.inl ⟨rfl, rfl⟩)⟩
      · rw [entry, sound.busy other]
        exact exists_congr fun m => by rw [mem, or_iff_right fun both => same both.2]
    · intro other bh busy named
      rw [linkRequest_request] at busy named
      rw [linkRequest_bLock]
      obtain ⟨rfl, entry⟩ | ⟨same, entry⟩ := entries other
      · rw [entry] at named
        exact sound.held p bh (holds.trans named)
      · rw [entry] at busy named
        exact sound.locked other bh busy named
    · intro one other bh busy busy' named named'
      rw [linkRequest_request] at busy busy' named named'
      have clash {x : Nat} (differ : x ≠ req) (busy : 0 ≤ (marked.request x).dev)
          (named : (marked.request x).bh = some bh) : (marked.request req).bh ≠ some bh := by
        have entry : marked.request x = s.request x := others differ
        rw [entry] at busy named
        have entry' : marked.request req = call.request devices p := own
        rw [entry']
        exact fun named' => sound.unnamed p bh x (holds.trans named') busy named
      by_cases same : one = req
      · subst same
        by_contra differ
        exact clash (Ne.symm differ) busy' named' named
      · by_cases same' : other = req
        · subst same'
          exact absurd named' (clash same busy named)
        · have entry : marked.request one = s.request one := others same
          have entry' : marked.request other = s.request other := others same'
          rw [entry] at busy named
          rw [entry'] at busy' named'
          exact sound.oneName one other bh busy busy' named named'
    · intro other busy buffer write
      rw [linkRequest_request] at busy buffer write
      obtain ⟨rfl, entry⟩ | ⟨same, entry⟩ := entries other
      · rw [entry] at buffer write
        exact Call.limit_of_write buffer write ▸ below
      · rw [entry] at busy buffer write
        exact sound.writes other busy buffer write
    · intro q bh now
      rw [linkRequest_phase] at now
      rw [linkRequest_bLock]
      exact sound.held q bh (before now).2
    · intro q bh other now busy named
      rw [linkRequest_phase] at now
      rw [linkRequest_request] at busy named
      obtain ⟨differ, held⟩ := before now
      obtain ⟨rfl, entry⟩ | ⟨same, entry⟩ := entries other
      · rw [entry] at named
        exact differ (sound.oneHolder q p bh held (holds.trans named))
      · rw [entry] at busy named
        exact sound.unnamed q bh other held busy named
    · intro q q' bh now now'
      rw [linkRequest_phase] at now now'
      exact sound.oneHolder q q' bh (before now).2 (before now').2
    · intro q
      rw [linkRequest_phase]
      exact valid_setPhase (s := { s with request := request }) sound.valid (call.after_valid devices) q
    · intro text printed
      rw [linkRequest_printed] at printed
      exact sound.calm text printed
  have added : marked.addRequest call.line req = marked.linkRequest call.line req := by
    unfold State.addRequest
    cases marked.currentRequest call.line with
    | none => exact linked.initRequest call.line
    | some tmp => rfl
  refine ⟨lists, ?_⟩
  rw [State.fillRequest, filled]
  exact added ▸ linked

/-! ## Completion -/

variable {m : Nat}

theorem Sound.head (sound : s.Sound devices queue) {req : Nat} (current : s.currentRequest m = some req) :
    ∃ rest, queue m = req :: rest ∧ Follows s.next (s.next req) rest := by
  have follows := sound.follows m
  cases list : queue m with
  | nil =>
    rw [list, current] at follows
    cases follows
  | cons x rest =>
    rw [list, current] at follows
    obtain rfl := Option.some.inj follows.1
    exact ⟨rest, rfl, follows.2⟩

theorem Sound.wakeUp (sound : s.Sound devices queue) (waiting : Option Nat) :
    (s.wakeUp waiting).Sound devices queue := by
  unfold State.wakeUp
  cases waiting with
  | none => exact sound
  | some p =>
    dsimp only
    split
    · exact sound.setPhase (.inl rfl) trivial
    · exact sound

theorem Sound.release (sound : s.Sound devices queue) {req : Nat} (current : s.currentRequest m = some req)
    (bLock uptodate : Nat → Bool) (kept : ∀ bh, (s.request req).bh ≠ some bh → bLock bh = s.bLock bh) :
    ({ s with
      request := update s.request req { s.request req with dev := -1 }
      currentRequest := update s.currentRequest m (s.next req)
      bLock := bLock
      bUptodate := uptodate } : State).Sound devices (update queue m (queue m).tail) := by
  obtain ⟨rest, list, behind⟩ := sound.head current
  have used : 0 ≤ (s.request req).dev := (sound.busy req).mpr ⟨m, by rw [list]; exact List.mem_cons_self⟩
  have nodup := sound.nodup m
  rw [list] at nodup
  have mem {line other : Nat} :
      other ∈ update queue m (queue m).tail line ↔ other ∈ queue line ∧ other ≠ req := by
    by_cases same : line = m
    · subst same
      rw [update_self, list, List.tail_cons, List.mem_cons]
      constructor
      · intro queued
        refine ⟨.inr queued, ?_⟩
        rintro rfl
        exact (List.nodup_cons.mp nodup).1 queued
      · rintro ⟨rfl | queued, differ⟩
        · exact absurd rfl differ
        · exact queued
    · rw [update_of_ne same]
      refine ⟨fun queued => ⟨queued, ?_⟩, And.left⟩
      rintro rfl
      exact same ((sound.major line other queued).2.symm.trans
        (sound.major m other (by rw [list]; exact List.mem_cons_self)).2)
  generalize released : update s.request req { s.request req with dev := -1 } = request
  have own : ¬0 ≤ (request req).dev := by
    rw [← released, update_self]
    exact (by decide : ¬(0 : Int) ≤ -1)
  have others {other : Nat} (busy : 0 ≤ (request other).dev) : other ≠ req ∧ request other = s.request other := by
    have differ : other ≠ req := fun same => own (same ▸ busy)
    exact ⟨differ, by rw [← released, update_of_ne differ]⟩
  exact {
    sound with
    follows := fun line => by
      dsimp only
      by_cases same : line = m
      · subst same
        rw [update_self, update_self, list]
        exact behind
      · rw [update_of_ne same, update_of_ne same]
        exact sound.follows line
    nodup := fun line => by
      by_cases same : line = m
      · subst same
        rw [update_self]
        exact (sound.nodup line).tail
      · rw [update_of_ne same]
        exact sound.nodup line
    inPool := fun line other queued => sound.inPool line other (mem.mp queued).1
    major := fun line other queued => by
      obtain ⟨queued, differ⟩ := mem.mp queued
      have entry : request other = s.request other := by
        rw [← released, update_of_ne differ]
      dsimp only
      rw [entry]
      exact sound.major line other queued
    busy := fun other => by
      dsimp only
      by_cases same : other = req
      · subst same
        exact iff_of_false own fun ⟨line, queued⟩ => (mem.mp queued).2 rfl
      · have entry : request other = s.request other := by
          rw [← released, update_of_ne same]
        rw [entry, sound.busy other]
        exact exists_congr fun line => by rw [mem, and_iff_left same]
    locked := fun other bh busy named => by
      obtain ⟨differ, entry⟩ := others busy
      dsimp only at busy named ⊢
      rw [entry] at busy named
      rw [kept bh fun named' => differ (sound.oneName other req bh busy used named named')]
      exact sound.locked other bh busy named
    oneName := fun one other bh busy busy' named named' => by
      have entry := (others busy).2
      have entry' := (others busy').2
      dsimp only at busy named busy' named'
      rw [entry] at busy named
      rw [entry'] at busy' named'
      exact sound.oneName one other bh busy busy' named named'
    writes := fun other busy buffer write => by
      have entry := (others busy).2
      dsimp only at busy buffer write
      rw [entry] at busy buffer write
      exact sound.writes other busy buffer write
    held := fun p bh holds => by
      dsimp only
      rw [kept bh (sound.unnamed p bh req holds used)]
      exact sound.held p bh holds
    unnamed := fun p bh other holds busy named => by
      have entry := (others busy).2
      dsimp only at busy named
      rw [entry] at busy named
      exact sound.unnamed p bh other holds busy named }

theorem wakeUp_release (s : State) (waiting : Option Nat) (m req : Nat) (entry : Request) :
    ({ s.wakeUp waiting with
      request := update (s.wakeUp waiting).request req entry
      currentRequest := update (s.wakeUp waiting).currentRequest m ((s.wakeUp waiting).next req) } :
      State) =
    ({ s with
      request := update s.request req entry
      currentRequest := update s.currentRequest m (s.next req) } : State).wakeUp waiting := by
  unfold State.wakeUp
  cases waiting with
  | none => rfl
  | some p =>
    dsimp only
    split <;> rfl

variable {s' : State}

theorem Sound.endRequest (sound : s.Sound devices queue) (ended : s.endRequest m true = some s') :
    ∃ queue, s'.Sound devices queue := by
  refine ⟨update queue m (queue m).tail, ?_⟩
  unfold State.endRequest at ended
  cases current : s.currentRequest m with
  | none => simp only [current, reduceCtorEq] at ended
  | some req =>
    obtain ⟨rest, list, -⟩ := sound.head current
    have used : 0 ≤ (s.request req).dev := (sound.busy req).mpr ⟨m, by rw [list]; exact List.mem_cons_self⟩
    cases named : (s.request req).bh with
    | none =>
      simp only [current, named, if_true, Option.some.injEq] at ended
      rw [← ended, wakeUp_release]
      exact named ▸ (sound.release current _ s.bUptodate fun _ _ => rfl).wakeUp _
    | some bh =>
      have lock : s.bLock bh = true := sound.locked req bh used named
      simp only [current, named, if_true, Option.some.injEq, State.unlockBuffer, lock] at ended
      rw [← ended, wakeUp_release]
      refine named ▸ (sound.release current (update s.bLock bh false)
        (update s.bUptodate bh true) fun other differ => ?_).wakeUp _
      exact update_of_ne (fun same => differ (by rw [same, named])) _ _

theorem Sound.withEntries (sound : s.Sound devices queue) {request : Nat → Request}
    (dev : ∀ req, (request req).dev = (s.request req).dev) (cmd : ∀ req, (request req).cmd = (s.request req).cmd)
    (bh : ∀ req, (request req).bh = (s.request req).bh) :
    ({ s with request := request } : State).Sound devices queue :=
  { sound with
    major := by simpa only [dev] using sound.major
    busy := by simpa only [dev] using sound.busy
    locked := by simpa only [dev, bh] using sound.locked
    oneName := by simpa only [dev, bh] using sound.oneName
    writes := by simpa only [dev, bh, cmd] using sound.writes
    unnamed := by simpa only [dev, bh] using sound.unnamed }

theorem Sound.moveSector (sound : s.Sound devices queue) (moved : s.moveSector m = some s') :
    s'.Sound devices queue := by
  unfold State.moveSector at moved
  cases current : s.currentRequest m with
  | none => simp only [current, reduceCtorEq] at moved
  | some req =>
    simp only [current, Option.some.injEq] at moved
    rw [← moved]
    refine sound.withEntries (fun other => ?_) (fun other => ?_) fun other => ?_ <;>
      by_cases same : other = req
    all_goals
      first
        | rw [same, update_self]
        | rw [update_of_ne same]

/-! ## Calls -/

theorem Sound.llRwBlock (sound : s.Sound devices queue) (p rw bh : Nat) :
    (s.llRwBlock devices p rw bh).Sound devices queue := by
  unfold State.llRwBlock
  dsimp only
  split
  · exact sound.print (.inl rfl)
  next served =>
    unfold State.makeRequest
    dsimp only
    generalize (if rw = READA ∨ rw = WRITEA then if rw = READA then READ else WRITE else rw) = command
    split
    · exact sound
    · split
      · exact sound.panic
      · refine sound.setPhase (.inl rfl) ⟨?_, fun _ => ⟨rfl, ?_⟩⟩
        · exact Nat.lt_of_not_le fun large => served (.inl large)
        · exact Int.natCast_nonneg _

theorem Sound.llRwPage (sound : s.Sound devices queue) (p rw page : Nat) {dev : Int}
    (least : -2 ^ 31 ≤ dev) :
    (s.llRwPage devices p rw dev page).Sound devices queue := by
  unfold State.llRwPage
  dsimp only
  split
  · exact sound.print (.inl rfl)
  next served =>
    have line : majorOf dev < NR_BLK_DEV := Nat.lt_of_not_le fun large => served (.inl large)
    split
    · exact sound.panic
    · refine sound.setPhase (.inl rfl) ⟨⟨line, fun _ => ⟨rfl, ?_⟩⟩, Nat.le_refl _⟩
      -- a negative number has a major number out of range
      by_contra negative
      have wrapped : dev % 2 ^ 32 = dev + 2 ^ 32 := by
        change ¬0 ≤ dev at negative
        omega
      rw [majorOf, wrapped, BlkDrv.major, Nat.shiftRight_eq_div_pow] at line
      change ¬0 ≤ dev at negative
      have : NR_BLK_DEV = 7 := rfl
      omega

theorem Sound.resume (sound : s.Sound devices queue) {p : Nat} (resumed : s.resume devices p = some s') :
    ∃ queue, s'.Sound devices queue := by
  have valid := sound.valid p
  unfold State.resume at resumed
  split at resumed
  next => cases resumed
  next call phase =>
    split at resumed
    · cases resumed
      exact ⟨queue, sound⟩
    next free =>
      cases resumed
      exact ⟨queue, sound.lock phase (Bool.not_eq_true _ ▸ free)⟩
  next call phase =>
    rw [phase] at valid
    have holds : (s.phase p).holds = some call.bh := by rw [phase]; rfl
    split at resumed
    · cases resumed
      exact ⟨queue, sound.unlock holds⟩
    · cases resumed
      exact ⟨queue, sound.setPhase (.inr (by rw [phase]; rfl)) ⟨valid, Nat.le_refl _⟩⟩
  next call phase =>
    rw [phase] at valid
    cases resumed
    refine ⟨queue, ?_⟩
    unfold State.noneFree
    cases call with
    | block block =>
      have holds : (s.phase p).holds = some block.bh := by rw [phase]; rfl
      dsimp only
      split
      · exact sound.unlock holds
      · exact sound.setPhase (.inr (by rw [phase]; rfl)) ⟨valid.1, Nat.le_refl _⟩
    | page rw dev number => exact sound.setPhase (.inl rfl) ⟨valid.1, Nat.le_refl _⟩
  next call req phase =>
    rw [phase] at valid
    split at resumed
    next free =>
      cases resumed
      exact sound.fillRequest phase free
    · cases resumed
      refine ⟨queue, sound.setPhase (.inr ?_) ⟨valid.1, Nat.le_of_succ_le valid.2⟩⟩
      rw [phase]
      cases call <;> rfl
  next => cases resumed

theorem Sound.step (sound : s.Sound devices queue) {move : Move} {s' : State}
    (moved : s.step devices move = some s') : ∃ queue, s'.Sound devices queue := by
  unfold State.step at moved
  split at moved
  · cases moved
  · cases move with
    | llRwBlock p rw bh =>
      obtain ⟨-, same⟩ := Option.ite_none_right_eq_some.mp moved
      cases same
      exact ⟨queue, sound.llRwBlock p rw bh⟩
    | llRwPage p rw dev page =>
      obtain ⟨⟨-, least, -⟩, same⟩ := Option.ite_none_right_eq_some.mp moved
      cases same
      exact ⟨queue, sound.llRwPage p rw page least⟩
    | resume p => exact sound.resume moved
    | requestFn m =>
      cases moved
      exact ⟨queue, (sound.initRequest m).symm ▸ sound⟩
    | sector m => exact ⟨queue, sound.moveSector moved⟩
    | complete m =>
      obtain ⟨ended, completed, rfl⟩ := Option.map_eq_some_iff.mp moved
      obtain ⟨queue, after⟩ := sound.endRequest completed
      exact ⟨queue, (after.initRequest m).symm ▸ after⟩
    | touch bh dirt uptodate =>
      cases moved
      exact ⟨queue, sound.touch bh dirt uptodate⟩

/-- The entries in use are those that the heads lead to, each from one head and once;
their buffers are locked, and no check of a driver or warning about a lock fires. -/
theorem pool_matches_queues (devices : Devices) (dirt uptodate : Nat → Bool) {s : State}
    (reached : Reachable (State.step devices) (boot dirt uptodate) s) :
    (∃ queue, s.Agrees queue) ∧ s.Calm := by
  obtain ⟨queue, sound⟩ : ∃ queue, s.Sound devices queue := by
    refine Run.invariant (P := fun s => ∃ queue, s.Sound devices queue) (fun sound _ moved => ?_)
      ⟨_, Sound.boot devices dirt uptodate⟩ reached
    obtain ⟨queue, sound⟩ := sound
    exact sound.step moved
  exact ⟨⟨queue, sound.agrees⟩, sound.calm⟩

def hardDisk : Devices where
  requestFn := fun m => m == 3
  bDev := fun _ => 0x301
  bBlocknr := fun bh => bh

/-- Two blocks and a page to swap in, of which the first block is written. -/
theorem pool_matches_queues_after_write :
    ∃ s, run (State.step hardDisk) (boot (fun _ => true) fun _ => false)
        [.llRwBlock 0 WRITE 5, .resume 0, .resume 0, .resume 0,
          .llRwPage 1 READ 0x302 9, .resume 1,
          .llRwBlock 2 READ 6, .resume 2, .resume 2, .resume 2, .resume 2,
          .complete 3] = some s ∧
      s.currentRequest 3 = some 30 ∧ s.Busy 31 ∧ ¬s.Busy 20 ∧ (∃ queue, s.Agrees queue) ∧ s.Calm := by
  refine exists_run (fun s => s.currentRequest 3 = some 30 ∧ s.Busy 31 ∧ ¬s.Busy 20) (by decide +kernel)
    fun s ran ⟨first, second, free⟩ => ?_
  obtain ⟨agrees, calm⟩ := pool_matches_queues hardDisk _ _ (reachable_of_run ran)
  exact ⟨first, second, free, agrees, calm⟩

end State

end Linux012.BlkDrv.RequestPool

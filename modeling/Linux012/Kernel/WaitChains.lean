import Linux012.Kernel.WaitQueue

/-! The saved pointers of the sleepers form one list for each queue. -/

set_option autoImplicit false

namespace Linux012.Kernel.WaitQueue

open Links Transition List
open Function (update update_of_ne update_self)

variable {τ κ : Type} [DecidableEq τ] [DecidableEq κ]

omit [DecidableEq κ] in
theorem running_update {state : τ → TaskState} {u : τ} (t : τ) (running : state u = .running) :
    update state t .running u = .running := by
  by_cases same : u = t
  · subst same
    exact update_self ..
  · exact (update_of_ne same ..).trans running

namespace State

variable {t : τ}

omit [DecidableEq κ] in
theorem running_wakeUp {s : State τ κ} (p : κ) (running : s.state t = .running) :
    (s.wakeUp p).state t = .running := by
  rw [wakeUp]
  split
  · exact running_update _ running
  · exact running

omit [DecidableEq κ] in
theorem head_wakeUp (s : State τ κ) (p : κ) : (s.wakeUp p).head = s.head := by
  rw [wakeUp]
  split <;> rfl

variable {p : κ}

omit [DecidableEq κ] in
theorem woken_wakeUp {s : State τ κ} (head : s.head p = some t) : (s.wakeUp p).state t = .running := by
  rw [wakeUp, head]
  exact update_self ..

variable {s s' : State τ κ} {sleepers : κ → List τ}

structure Sound (s : State τ κ) (sleepers : κ → List τ) : Prop where
  follows : ∀ p, Follows (s.below p) (s.head p) (sleepers p)
  mem : ∀ p t, t ∈ sleepers p ↔ s.On p t
  newest : ∀ p, (sleepers p).Pairwise fun newer older => s.since older p < s.since newer p
  past : ∀ p t, s.On p t → s.since t p < s.now
  distinct : ∀ t, ((s.activity t).saved.map WaitEntry.waitAddress).Nodup
  quiet : s.warned = false

omit [DecidableEq τ] in
theorem Sound.init : (init : State τ κ).Sound fun _ => [] where
  follows := fun _ => rfl
  mem := fun _ _ => iff_of_false not_mem_nil not_mem_nil
  newest := fun _ => .nil
  past := fun _ _ on => absurd on not_mem_nil
  distinct := fun _ => .nil
  quiet := rfl

omit [DecidableEq τ] in
theorem Sound.nodup (sound : s.Sound sleepers) (p : κ) : (sleepers p).Nodup :=
  (sound.newest p).imp fun {newer older} later => by
    rintro rfl
    exact Nat.lt_irrefl _ later

omit [DecidableEq τ] in
theorem Sound.good (sound : s.Sound sleepers) : s.Good where
  chain := fun p => ⟨sleepers p, sound.follows p, sound.nodup p, sound.mem p, sound.newest p⟩
  quiet := sound.quiet

omit [DecidableEq τ] in
theorem Sound.on_of_head (sound : s.Sound sleepers) (head : s.head p = some t) : s.On p t := by
  have follows := sound.follows p
  rw [← sound.mem]
  cases list : sleepers p with
  | nil =>
    rw [list, follows_nil, head] at follows
    cases follows
  | cons first rest =>
    rw [list, follows_cons, head] at follows
    cases follows.1
    exact mem_cons_self

omit [DecidableEq τ] in
theorem Sound.not_on (sound : s.Sound sleepers) (empty : s.head p = none) (t : τ) : ¬s.On p t := by
  intro on
  have member := (sound.mem p t).mpr on
  have follows := sound.follows p
  cases list : sleepers p with
  | nil =>
    rw [list] at member
    cases member
  | cons first rest =>
    rw [list, empty] at follows
    cases follows.1

/-! ## Steps that leave the queues alone -/

structure SameQueues (s s' : State τ κ) : Prop where
  head : s'.head = s.head
  saved : ∀ t, (s'.activity t).saved = (s.activity t).saved
  since : s'.since = s.since
  now : s'.now = s.now
  warned : s'.warned = s.warned

omit [DecidableEq τ] [DecidableEq κ] in
theorem SameQueues.on (same : SameQueues s s') (p : κ) (t : τ) : s'.On p t ↔ s.On p t := by
  rw [On, On, same.saved]

omit [DecidableEq τ] in
theorem SameQueues.below (same : SameQueues s s') (p : κ) (t : τ) : s'.below p t = s.below p t := by
  rw [State.below, State.below, same.saved]

omit [DecidableEq τ] in
theorem Sound.same (sound : s.Sound sleepers) (same : SameQueues s s') : s'.Sound sleepers where
  follows := fun p => by
    rw [same.head]
    exact (sound.follows p).congr fun t _ => same.below p t
  mem := fun p t => (sound.mem p t).trans (same.on p t).symm
  newest := by
    rw [same.since]
    exact sound.newest
  past := fun p t on => by
    rw [same.since, same.now]
    exact sound.past p t ((same.on p t).mp on)
  distinct := fun t => by
    rw [same.saved]
    exact sound.distinct t
  quiet := same.warned.trans sound.quiet

omit [DecidableEq τ] in
theorem SameQueues.leavesWell (same : SameQueues s s') : s.LeavesWell s' :=
  fun p t on off => absurd ((same.on p t).mpr on) off

omit [DecidableEq κ] in
theorem SameQueues.setState (s : State τ κ) (t : τ) (state : TaskState) : SameQueues s (s.setState t state) :=
  ⟨rfl, fun _ => rfl, rfl, rfl, rfl⟩

omit [DecidableEq κ] in
theorem SameQueues.setActivity (s : State τ κ) {activity : Activity τ κ}
    (saved : activity.saved = (s.activity t).saved) : SameQueues s (s.setActivity t activity) := by
  refine ⟨rfl, fun other => ?_, rfl, rfl, rfl⟩
  by_cases isT : other = t
  · rw [isT, setActivity_self, saved]
  · rw [setActivity_of_ne s activity isT]

omit [DecidableEq τ] [DecidableEq κ] in
theorem SameQueues.trans {s'' : State τ κ} (first : SameQueues s s') (second : SameQueues s' s'') :
    SameQueues s s'' where
  head := second.head.trans first.head
  saved := fun t => (second.saved t).trans (first.saved t)
  since := second.since.trans first.since
  now := second.now.trans first.now
  warned := second.warned.trans first.warned

/-! ## Coming to a queue -/

structure Enters (s s' : State τ κ) (t : τ) (p : κ) : Prop where
  head : s'.head = update s.head p (some t)
  saved : (s'.activity t).saved = (s.activity t).saved ++ [{ oldTask := s.head p, waitAddress := p }]
  others : ∀ u, u ≠ t → s'.activity u = s.activity u
  since : s'.since = update s.since t (update (s.since t) p s.now)
  now : s'.now = s.now + 1
  warned : s'.warned = s.warned

theorem Enters.on (enters : Enters s s' t p) (q : κ) (u : τ) : s'.On q u ↔ (q = p ∧ u = t) ∨ s.On q u := by
  by_cases isT : u = t
  · subst isT
    rw [On, enters.saved, map_append, mem_append, On]
    simp [or_comm]
  · rw [On, enters.others u isT]
    simp [On, isT]

theorem Enters.below_of_ne {q : κ} {u : τ} (enters : Enters s s' t p) (differ : u ≠ t ∨ q ≠ p) :
    s'.below q u = s.below q u := by
  by_cases isT : u = t
  · subst isT
    have notP : p ≠ q := (differ.resolve_left (not_not_intro rfl)).symm
    rw [below, enters.saved, find?_append, below]
    simp [notP]
  · rw [below, enters.others u isT, below]

theorem Enters.below_self (enters : Enters s s' t p) (new : ¬s.On p t) : s'.below p t = s.head p := by
  have absent : (s.activity t).saved.find? (fun entry => decide (entry.waitAddress = p)) = none := by
    rw [find?_eq_none]
    intro entry member found
    exact new (mem_map.mpr ⟨entry, member, of_decide_eq_true found⟩)
  rw [below, enters.saved, find?_append, absent]
  simp

theorem Sound.enters (sound : s.Sound sleepers) (enters : Enters s s' t p) (new : ¬s.On p t) :
    s'.Sound (update sleepers p (t :: sleepers p)) := by
  have sinceOld {u : τ} {q : κ} (differ : u ≠ t ∨ q ≠ p) : s'.since u q = s.since u q := by
    rw [enters.since]
    by_cases isT : u = t
    · subst isT
      rw [update_self, update_of_ne (differ.resolve_left (not_not_intro rfl))]
    · rw [update_of_ne isT]
  have sinceNew : s'.since t p = s.now := by
    rw [enters.since, update_self, update_self]
  have notNew {u : τ} (member : u ∈ sleepers p) : u ≠ t := by
    rintro rfl
    exact new ((sound.mem p u).mp member)
  refine {
    follows := fun q => ?_
    mem := fun q u => ?_
    newest := fun q => ?_
    past := fun q u on => ?_
    distinct := fun u => ?_
    quiet := enters.warned.trans sound.quiet }
  · rw [enters.head]
    by_cases isP : q = p
    · subst isP
      rw [update_self, update_self]
      refine ⟨rfl, ?_⟩
      rw [enters.below_self new]
      exact (sound.follows q).congr fun u member => enters.below_of_ne (.inl (notNew member))
    · rw [update_of_ne isP, update_of_ne isP]
      exact (sound.follows q).congr fun u _ => enters.below_of_ne (.inr isP)
  · rw [enters.on]
    by_cases isP : q = p
    · subst isP
      rw [update_self, mem_cons, sound.mem, and_iff_right rfl]
    · rw [update_of_ne isP, sound.mem, or_iff_right fun both => isP both.1]
  · by_cases isP : q = p
    · subst isP
      rw [update_self, pairwise_cons]
      constructor
      · intro older member
        rw [sinceNew, sinceOld (.inl (notNew member))]
        exact sound.past q older ((sound.mem q older).mp member)
      · refine (sound.newest q).imp_of_mem fun {newer older} member member' later => ?_
        rwa [sinceOld (.inl (notNew member)), sinceOld (.inl (notNew member'))]
    · rw [update_of_ne isP]
      refine (sound.newest q).imp fun {newer older} later => ?_
      rwa [sinceOld (.inr isP), sinceOld (.inr isP)]
  · rw [enters.now]
    rcases (enters.on q u).mp on with ⟨rfl, rfl⟩ | before
    · rw [sinceNew]
      exact Nat.lt_succ_self _
    · by_cases both : u = t ∧ q = p
      · obtain ⟨rfl, rfl⟩ := both
        exact absurd before new
      · rw [sinceOld (by tauto)]
        exact Nat.lt_succ_of_lt (sound.past q u before)
  · by_cases isT : u = t
    · subst isT
      rw [enters.saved, map_append, nodup_append]
      refine ⟨sound.distinct u, nodup_singleton _, fun q member q' member' same => ?_⟩
      rw [map_singleton, mem_singleton] at member'
      rw [same, member'] at member
      exact new member
    · rw [enters.others u isT]
      exact sound.distinct u

theorem Enters.leavesWell (enters : Enters s s' t p) : s.LeavesWell s' :=
  fun q u on off => absurd ((enters.on q u).mpr (.inr on)) off

/-! ## Leaving a queue -/

/-- The head `t` of a queue gives the queue what it has saved of it. -/
structure Leaves (s s' : State τ κ) (t : τ) (entry : WaitEntry τ κ) (rest : List (WaitEntry τ κ)) : Prop where
  before : (s.activity t).saved = entry :: rest
  isHead : s.head entry.waitAddress = some t
  head : s'.head = update s.head entry.waitAddress entry.oldTask
  saved : (s'.activity t).saved = rest
  others : ∀ u, u ≠ t → s'.activity u = s.activity u
  runs : ∀ older, entry.oldTask = some older → s'.state older = .running
  since : s'.since = s.since
  now : s'.now = s.now
  warned : s'.warned = s.warned

section Leaves

variable {t : τ} {entry : WaitEntry τ κ} {rest : List (WaitEntry τ κ)}

theorem Leaves.on (leaves : Leaves s s' t entry rest) (sound : s.Sound sleepers) (q : κ) (u : τ) :
    s'.On q u ↔ s.On q u ∧ ¬(q = entry.waitAddress ∧ u = t) := by
  by_cases isT : u = t
  · subst isT
    have fresh : entry.waitAddress ∉ rest.map WaitEntry.waitAddress := by
      have distinct := sound.distinct u
      rw [leaves.before] at distinct
      exact (nodup_cons.mp distinct).1
    rw [On, leaves.saved, On, leaves.before, map_cons, mem_cons]
    constructor
    · intro member
      refine ⟨.inr member, ?_⟩
      rintro ⟨rfl, -⟩
      exact fresh member
    · rintro ⟨isP | member, differ⟩
      · exact absurd ⟨isP, rfl⟩ differ
      · exact member
  · rw [On, leaves.others u isT]
    simp [On, isT]

omit [DecidableEq τ] in
theorem Leaves.below_self (leaves : Leaves s s' t entry rest) :
    s.below entry.waitAddress t = entry.oldTask := by
  rw [below, leaves.before, find?_cons_of_pos (by simp)]
  rfl

theorem Leaves.below_of_ne {q : κ} {u : τ} (leaves : Leaves s s' t entry rest)
    (differ : u ≠ t ∨ q ≠ entry.waitAddress) : s'.below q u = s.below q u := by
  by_cases isT : u = t
  · subst isT
    have notP : entry.waitAddress ≠ q := (differ.resolve_left (not_not_intro rfl)).symm
    rw [below, leaves.saved, below, leaves.before, find?_cons_of_neg (by simpa using notP)]
  · rw [below, leaves.others u isT, below]

theorem Sound.leaves (sound : s.Sound sleepers) (leaves : Leaves s s' t entry rest) :
    s'.Sound (update sleepers entry.waitAddress (sleepers entry.waitAddress).tail) := by
  obtain ⟨others, list, behind⟩ : ∃ others, sleepers entry.waitAddress = t :: others ∧
      Follows (s.below entry.waitAddress) entry.oldTask others := by
    have follows := sound.follows entry.waitAddress
    rw [leaves.isHead] at follows
    cases list : sleepers entry.waitAddress with
    | nil =>
      rw [list] at follows
      cases follows
    | cons first others =>
      rw [list] at follows
      obtain rfl := Option.some.inj follows.1
      exact ⟨others, rfl, leaves.below_self ▸ follows.2⟩
  have fresh : t ∉ others := by
    have nodup := sound.nodup entry.waitAddress
    rw [list] at nodup
    exact (nodup_cons.mp nodup).1
  refine {
    follows := fun q => ?_
    mem := fun q u => ?_
    newest := fun q => ?_
    past := fun q u on => ?_
    distinct := fun u => ?_
    quiet := leaves.warned.trans sound.quiet }
  · rw [leaves.head]
    by_cases isP : q = entry.waitAddress
    · rw [isP, update_self, update_self, list]
      refine behind.congr fun u member => leaves.below_of_ne (.inl ?_)
      rintro rfl
      exact fresh member
    · rw [update_of_ne isP, update_of_ne isP]
      exact (sound.follows q).congr fun u _ => leaves.below_of_ne (.inr isP)
  · rw [leaves.on sound, ← sound.mem]
    by_cases isP : q = entry.waitAddress
    · rw [isP, update_self, list, tail_cons, mem_cons, and_iff_right rfl]
      constructor
      · intro member
        refine ⟨.inr member, ?_⟩
        rintro rfl
        exact fresh member
      · rintro ⟨same | member, differ⟩
        · exact absurd same differ
        · exact member
    · rw [update_of_ne isP, and_iff_left fun both => isP both.1]
  · rw [leaves.since]
    by_cases isP : q = entry.waitAddress
    · rw [isP, update_self]
      exact (sound.newest _).tail
    · rw [update_of_ne isP]
      exact sound.newest q
  · rw [leaves.since, leaves.now]
    exact sound.past q u ((leaves.on sound q u).mp on).1
  · by_cases isT : u = t
    · have distinct := sound.distinct u
      rw [isT, leaves.before] at distinct
      rw [isT, leaves.saved]
      exact (nodup_cons.mp distinct).2
    · rw [leaves.others u isT]
      exact sound.distinct u

theorem Leaves.leavesWell (leaves : Leaves s s' t entry rest) (sound : s.Sound sleepers) : s.LeavesWell s' := by
  intro q u on off
  have both : q = entry.waitAddress ∧ u = t := by
    by_contra neither
    exact off ((leaves.on sound q u).mpr ⟨on, neither⟩)
  obtain ⟨rfl, rfl⟩ := both
  rw [leaves.below_self, leaves.head, update_self]
  exact ⟨leaves.isHead, rfl, leaves.runs⟩

end Leaves

/-! ## The steps -/

theorem Leaves.of_leave {entry : WaitEntry τ κ} {rest : List (WaitEntry τ κ)} {after : Activity τ κ}
    (before : (s.activity t).saved = entry :: rest) (isHead : s.head entry.waitAddress = some t)
    (saved : after.saved = rest) :
    Leaves s ((s.leave entry.waitAddress entry.oldTask).setActivity t after) t entry rest := by
  have activity : (s.leave entry.waitAddress entry.oldTask).activity = s.activity := by
    unfold State.leave
    cases entry.oldTask <;> rfl
  refine ⟨before, isHead, ?_, ?_, fun u differ => ?_, fun older isOlder => ?_, ?_, ?_, ?_⟩
  · unfold State.leave
    cases entry.oldTask <;> rfl
  · rw [setActivity_self, saved]
  · rw [setActivity_of_ne _ after differ, activity]
  · rw [isOlder]
    exact update_self ..
  all_goals
    unfold State.leave
    cases entry.oldTask <;> rfl

inductive Effect (s s' : State τ κ) : Prop where
  | same (same : SameQueues s s')
  | enters (t : τ) (p : κ) (enters : Enters s s' t p) (new : ¬s.On p t)
  | leaves (t : τ) (entry : WaitEntry τ κ) (rest : List (WaitEntry τ κ)) (leaves : Leaves s s' t entry rest)

theorem Sound.tryLeave (sound : s.Sound sleepers) (entry : WaitEntry τ κ) {rest : List (WaitEntry τ κ)}
    {after : Activity τ κ} (before : (s.activity t).saved = entry :: rest) (saved : after.saved = rest) :
    Effect s (s.tryLeave t entry.waitAddress entry.oldTask after) := by
  have on : s.On entry.waitAddress t := by
    rw [On, before]
    exact .head _
  unfold State.tryLeave
  cases head : s.head entry.waitAddress with
  | none => exact absurd on (sound.not_on head t)
  | some other =>
    dsimp only
    by_cases isT : other = t
    · subst isT
      rw [if_neg (not_not_intro rfl)]
      exact .leaves other entry rest (.of_leave before head saved)
    · rw [if_pos isT]
      exact .same ((SameQueues.setState s other .running).trans (.setState _ t .uninterruptible))

theorem Sound.resume (sound : s.Sound sleepers) (resumed : s.resume t = some s') : Effect s s' := by
  unfold State.resume at resumed
  split at resumed
  next => cases resumed
  next => cases resumed
  next p tmp activity =>
    cases resumed
    exact sound.tryLeave { oldTask := tmp, waitAddress := p } (by rw [activity]; rfl) rfl
  next table activity =>
    cases resumed
    exact .same (.setActivity s (by rw [activity]; rfl))
  next again activity =>
    cases resumed
    refine .same (.setActivity s ?_)
    rw [activity]
    cases again <;> rfl
  next entry table again activity =>
    cases resumed
    exact sound.tryLeave entry (by rw [activity]; rfl) rfl

theorem effect_sleepOn {state : TaskState} (idle : s.activity t = .idle) : Effect s (s.sleepOn t p state) := by
  refine .enters t p ⟨rfl, ?_, fun u differ => ?_, rfl, rfl, rfl⟩ ?_
  · rw [State.sleepOn, setActivity_self, idle]
    rfl
  · exact setActivity_of_ne _ _ differ
  · rw [On, idle]
    exact not_mem_nil

theorem effect_addWait {table : List (WaitEntry τ κ)} (checking : s.activity t = .checking table) :
    Effect s (s.addWait t p table) := by
  unfold State.addWait
  split
  · exact .same ⟨rfl, fun _ => rfl, rfl, rfl, rfl⟩
  next new =>
    refine .enters t p ⟨rfl, ?_, fun u differ => setActivity_of_ne _ _ differ, rfl, rfl, rfl⟩ ?_
    · rw [setActivity_self, checking]
      rfl
    · rw [On, checking]
      intro member
      obtain ⟨entry, listed, same⟩ := mem_map.mp member
      exact new (any_eq_true.mpr ⟨entry, listed, decide_eq_true same⟩)

theorem Sound.effect (sound : s.Sound sleepers) {move : Move τ κ} (moved : s.step move = some s') : Effect s s' := by
  cases move with
  | sleepOn t p interruptible =>
    obtain ⟨⟨-, idle⟩, same⟩ := Option.ite_none_right_eq_some.mp moved
    cases same
    exact effect_sleepOn idle
  | select t =>
    obtain ⟨⟨-, idle⟩, same⟩ := Option.ite_none_right_eq_some.mp moved
    cases same
    exact .same (.setActivity s (by rw [idle]; rfl))
  | addWait t p =>
    simp only [State.step] at moved
    split at moved
    next table checking =>
      obtain ⟨-, same⟩ := Option.ite_none_right_eq_some.mp moved
      cases same
      exact effect_addWait checking
    next => cases moved
  | selectSleep t =>
    simp only [State.step] at moved
    split at moved
    next table checking =>
      obtain ⟨-, same⟩ := Option.ite_none_right_eq_some.mp moved
      cases same
      exact .same ((SameQueues.setState s t .interruptible).trans (.setActivity _ (by exact checking ▸ rfl)))
    next => cases moved
  | selectReturn t =>
    simp only [State.step] at moved
    split at moved
    next table checking =>
      obtain ⟨-, same⟩ := Option.ite_none_right_eq_some.mp moved
      cases same
      exact .same (.setActivity s (by rw [checking]; rfl))
    next => cases moved
  | resume t =>
    obtain ⟨-, resumed⟩ := Option.ite_none_right_eq_some.mp moved
    exact sound.resume resumed
  | wakeUp p =>
    cases moved
    unfold State.wakeUp
    cases s.head p with
    | none => exact .same ⟨rfl, fun _ => rfl, rfl, rfl, rfl⟩
    | some t => exact .same (.setState s t .running)
  | interrupt t =>
    obtain ⟨-, same⟩ := Option.ite_none_right_eq_some.mp moved
    cases same
    exact .same (.setState s t .running)

theorem Sound.step (sound : s.Sound sleepers) {move : Move τ κ} (moved : s.step move = some s') :
    (∃ sleepers, s'.Sound sleepers) ∧ s.LeavesWell s' := by
  rcases sound.effect moved with same | ⟨t, p, enters, new⟩ | ⟨t, entry, rest, leaves⟩
  · exact ⟨⟨_, sound.same same⟩, same.leavesWell⟩
  · exact ⟨⟨_, sound.enters enters new⟩, enters.leavesWell⟩
  · exact ⟨⟨_, sound.leaves leaves⟩, leaves.leavesWell sound⟩

/-- In every interleaving the queue behind a head is the list of the tasks that sleep on
it, and tasks leave it from the head, which lets the next one run. -/
theorem no_sleeper_lost {s : State τ κ} (reached : Reachable step init s) :
    s.Good ∧ ∀ move s', s.step move = some s' → s.LeavesWell s' := by
  obtain ⟨sleepers, sound⟩ : ∃ sleepers, s.Sound sleepers := by
    refine Run.invariant (P := fun s : State τ κ => ∃ sleepers, s.Sound sleepers) (fun before _ moved => ?_)
      ⟨_, Sound.init⟩ reached
    obtain ⟨sleepers, sound⟩ := before
    exact (sound.step moved).1
  exact ⟨sound.good, fun _ _ moved => (sound.step moved).2⟩

/-- A signal lets the older of two sleepers run, which has to wait for the other one;
a third task selects on the queue meanwhile. -/
theorem no_sleeper_lost_signal :
    ∃ s : State Nat Nat, run step init
        [.sleepOn 1 7 true, .sleepOn 2 7 false, .interrupt 1, .resume 1, .select 3, .addWait 3 8, .addWait 3 7,
          .selectSleep 3] = some s ∧
      s.head 7 = some 3 ∧ s.below 7 3 = some 2 ∧ s.below 7 2 = some 1 ∧
      s.Good ∧ ∀ move s', s.step move = some s' → s.LeavesWell s' := by
  exact exists_run (fun s => s.head 7 = some 3 ∧ s.below 7 3 = some 2 ∧ s.below 7 2 = some 1) (by decide +kernel)
    fun s ran ⟨head, second, third⟩ => ⟨head, second, third, no_sleeper_lost (reachable_of_run ran)⟩

end State

end Linux012.Kernel.WaitQueue

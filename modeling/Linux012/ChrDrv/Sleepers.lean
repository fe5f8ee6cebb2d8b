import Linux012.ChrDrv.Wakeups
import Linux012.Kernel.WaitChains

/-! The tasks that sleep in `sleep_if_full` until a `write_q` has room. -/

set_option autoImplicit false

namespace Linux012.ChrDrv.Sleepers

open Transition RingBuffer Kernel Function
open Wakeups (Call Pending Ptys)

structure State (ω : Type) where
  terminals : Wakeups.State
  waiting : WaitQueue.State ω UInt8

inductive Move (ω : Type) where
  /-- a step of the terminal code, by a task that is not asleep or by an interrupt -/
  | tty (m : ChrDrv.Move)
  /-- `sleep_if_full` finds less than 128 places -/
  | sleep (w : ω) (t : UInt8)
  /-- a task that was woken goes on in `interruptible_sleep_on` -/
  | resume (w : ω)
  /-- `schedule` finds a signal -/
  | signal (w : ω)

section Definitions

variable {ω : Type} [DecidableEq ω]

/-- `wake_up(&tty->write_q->proc_list)` for those of the queues that are a `write_q`. -/
def wakeWriters (waiting : WaitQueue.State ω UInt8) (wakes : List (UInt8 × Which)) : WaitQueue.State ω UInt8 :=
  wakes.foldl
    (fun waiting wake =>
      match wake.2 with
      | .write => waiting.wakeUp wake.1
      | _ => waiting)
    waiting

namespace State

variable (setup : Setup) (s : State ω)

def step : Move ω → Option (State ω)
  | .tty m =>
    match s.terminals.step setup m with
    | none => none
    | some (terminals, wakes) => some { terminals := terminals, waiting := wakeWriters s.waiting wakes }
  | .sleep w t =>
    if s.terminals.stack = [] ∧ (s.terminals.ttys t).writeQ.ring.left < 128 then
      (WaitQueue.State.step s.waiting (.sleepOn w t true)).map fun waiting => { s with waiting }
    else none
  | .resume w =>
    if s.terminals.stack = [] then
      (WaitQueue.State.step s.waiting (.resume w)).map fun waiting => { s with waiting }
    else none
  | .signal w => (WaitQueue.State.step s.waiting (.interrupt w)).map fun waiting => { s with waiting }

end State

/-- A task that is in `sleep_if_full` on the `write_q` of a terminal, and cannot run. -/
def Asleep (waiting : WaitQueue.State ω UInt8) (t : UInt8) (w : ω) : Prop :=
  (∃ tmp, waiting.activity w = .sleeping t tmp) ∧ waiting.state w ≠ .running

def NoneAsleep (waiting : WaitQueue.State ω UInt8) (t : UInt8) : Prop := ∀ w, ¬Asleep waiting t w

def HeadAsleep (waiting : WaitQueue.State ω UInt8) (t : UInt8) : Prop := ∀ w, Asleep waiting t w → waiting.head t = some w

namespace State

variable (setup : Setup) (s : State ω)

def empty (t : UInt8) : Bool := (s.terminals.ttys t).writeQ.ring.empty

def NoneStuck : Prop := s.terminals.stack = [] → ∀ t w, Asleep s.waiting t w → s.empty t = false

def WakesBehind : ChrDrv.Move → Prop
  | .transmit _ => True
  | .run _ => ∃ t rest, s.terminals.stack = (t, .frame .ptyCopy) :: rest
  | _ => False

/-- The last byte of a queue is not taken by `con_write`, nor flushed, while a task is asleep on the
queue; it is not taken by the other drivers while a task is asleep that is not the first one; a task
that is not the first one does not run on while the queue is empty; and what is put into a `write_q`
without looking finds room. -/
def Allowed : Move ω → Prop
  | .tty m => ∀ t, NoneAsleep s.waiting t ∨
      s.terminals.Room setup t m ∧
        (s.terminals.taken setup m = some t → (s.terminals.ttys t).writeQ.ring.chars = 1 →
          s.WakesBehind m ∧ HeadAsleep s.waiting t) ∧
        Wakeups.flushed m ≠ some t
  | .resume w => ∀ t tmp, s.waiting.activity w = .sleeping t tmp → s.waiting.head t ≠ some w → s.empty t = false
  | _ => True

end State

end Definitions

/-! ## The tasks asleep -/

section Sleeping

variable {ω : Type} [DecidableEq ω] {waiting : WaitQueue.State ω UInt8} {wakes : List (UInt8 × Which)} {t : UInt8}

def Fewer (t : UInt8) (before after : WaitQueue.State ω UInt8) : Prop :=
  after.head t = before.head t ∧ ∀ w, Asleep after t w → Asleep before t w

variable {after before : WaitQueue.State ω UInt8}

omit [DecidableEq ω] in
theorem Fewer.none (fewer : Fewer t before after) (none_ : NoneAsleep before t) : NoneAsleep after t :=
  fun w asleep => none_ w (fewer.2 w asleep)

omit [DecidableEq ω] in
theorem Fewer.head (fewer : Fewer t before after) (first : HeadAsleep before t) : HeadAsleep after t :=
  fun w asleep => fewer.1.trans (first w (fewer.2 w asleep))

omit [DecidableEq ω] in
theorem Fewer.trans {a b c : WaitQueue.State ω UInt8} (first : Fewer t a b) (second : Fewer t b c) : Fewer t a c :=
  ⟨second.1.trans first.1, fun w asleep => first.2 w (second.2 w asleep)⟩

theorem fewer_setState (w : ω) : Fewer t waiting (waiting.setState w .running) :=
  ⟨rfl, fun _ asleep => ⟨asleep.1, fun running => asleep.2 (WaitQueue.running_update w running)⟩⟩

theorem fewer_wakeUp (u : UInt8) : Fewer t waiting (waiting.wakeUp u) := by
  rw [WaitQueue.State.wakeUp]
  split
  case h_1 w _ => exact fewer_setState w
  case h_2 => exact ⟨rfl, fun _ asleep => asleep⟩

theorem none_of_wakeUp (first : HeadAsleep waiting t) : NoneAsleep (waiting.wakeUp t) t := by
  intro w asleep
  have head := first w ((fewer_wakeUp t).2 w asleep)
  apply asleep.2
  rw [WaitQueue.State.wakeUp, head]
  exact update_self ..

theorem fewer_wakeWriters : Fewer t waiting (wakeWriters waiting wakes) := by
  rw [wakeWriters]
  induction wakes generalizing waiting with
  | nil => exact ⟨rfl, fun _ asleep => asleep⟩
  | cons wake wakes ih =>
    rw [List.foldl_cons]
    split
    · exact (fewer_wakeUp wake.1).trans ih
    · exact ih

theorem none_of_wakeWriters (first : HeadAsleep waiting t) (wake : (t, Which.write) ∈ wakes) :
    NoneAsleep (wakeWriters waiting wakes) t := by
  induction wakes generalizing waiting with
  | nil => cases wake
  | cons next wakes ih =>
    rcases List.mem_cons.mp wake with rfl | later
    · have awake := none_of_wakeUp first
      rw [wakeWriters, List.foldl_cons]
      exact fewer_wakeWriters.none awake
    · rw [wakeWriters, List.foldl_cons]
      split
      · exact ih ((fewer_wakeUp next.1).head first) later
      · exact ih first later

omit [DecidableEq ω] in
theorem asleep_of_leaves {v w : ω} (asleep : Asleep after t v)
    (left : ∀ tmp, after.activity w ≠ .sleeping t tmp)
    (activity : ∀ v, v ≠ w → after.activity v = before.activity v)
    (state : ∀ v, before.state v = .running → after.state v = .running) : Asleep before t v := by
  obtain ⟨⟨tmp, sleeping⟩, halted⟩ := asleep
  have other : v ≠ w := by
    rintro rfl
    exact left tmp sleeping
  exact ⟨⟨tmp, (activity v other).symm.trans sleeping⟩, fun running => halted (state v running)⟩

theorem asleep_of_tryLeave {u : UInt8} {tmp : Option ω} {after : WaitQueue.Activity ω UInt8} {v w : ω}
    (left : ∀ tmp, after ≠ .sleeping t tmp) (asleep : Asleep (waiting.tryLeave w u tmp after) t v) :
    Asleep waiting t v ∨ v = w ∧ (∃ tmp, waiting.activity w = .sleeping t tmp) ∧ waiting.head u ≠ some w := by
  have leaves (warned : Bool) : ∀ v, waiting.state v = .running →
      (({ waiting with warned }.leave u tmp).setActivity w after).state v = .running := by
    intro v running
    cases tmp with
    | none => exact running
    | some older => exact WaitQueue.running_update older running
  have keeps (warned : Bool) : ∀ v, v ≠ w →
      (({ waiting with warned }.leave u tmp).setActivity w after).activity v = waiting.activity v := by
    intro v other
    rw [WaitQueue.State.setActivity_of_ne _ _ other]
    cases tmp with
    | none | some older => rfl
  rw [WaitQueue.State.tryLeave] at asleep
  split at asleep
  case h_1 other head =>
    split at asleep
    case isTrue differ =>
      obtain ⟨activity, halted⟩ := asleep
      by_cases same : v = w
      · subst same
        refine .inr ⟨rfl, activity, ?_⟩
        rw [head]
        exact fun same => differ (Option.some.inj same)
      · refine .inl ⟨activity, fun running => halted ?_⟩
        exact (update_of_ne same ..).trans (WaitQueue.running_update other running)
    case isFalse =>
      refine .inl (asleep_of_leaves asleep (fun tmp => ?_) (keeps waiting.warned) (leaves waiting.warned))
      rw [WaitQueue.State.setActivity_self]
      exact left tmp
  case h_2 =>
    refine .inl (asleep_of_leaves asleep (fun tmp => ?_) (keeps true) (leaves true))
    rw [WaitQueue.State.setActivity_self]
    exact left tmp

theorem asleep_of_resume {v w : ω} (ran : waiting.resume w = some after) (asleep : Asleep after t v) :
    Asleep waiting t v ∨ v = w ∧ (∃ tmp, waiting.activity w = .sleeping t tmp) ∧ waiting.head t ≠ some w := by
  have goesOn {activity : WaitQueue.Activity ω UInt8} (left : ∀ tmp, activity ≠ .sleeping t tmp)
      (asleep : Asleep (waiting.setActivity w activity) t v) : Asleep waiting t v := by
    refine asleep_of_leaves asleep (fun tmp => ?_) (fun v (other : v ≠ w) => ?_) (fun _ running => running)
    · rw [WaitQueue.State.setActivity_self]
      exact left tmp
    · exact WaitQueue.State.setActivity_of_ne _ _ other
  rw [WaitQueue.State.resume] at ran
  split at ran
  case h_1 => cases ran
  case h_2 => cases ran
  case h_3 p tmp sleeping =>
    obtain rfl := Option.some.inj ran
    refine (asleep_of_tryLeave (by simp) asleep).imp_right ?_
    rintro ⟨same, ⟨tmp', activity⟩, head⟩
    rw [sleeping] at activity
    injection activity with here
    exact ⟨same, ⟨tmp, here ▸ sleeping⟩, here ▸ head⟩
  case h_4 =>
    obtain rfl := Option.some.inj ran
    exact .inl (goesOn (by simp) asleep)
  case h_5 again _ =>
    obtain rfl := Option.some.inj ran
    exact .inl (goesOn (by cases again <;> simp) asleep)
  case h_6 entry table again freeing =>
    obtain rfl := Option.some.inj ran
    refine (asleep_of_tryLeave (by simp) asleep).imp_right ?_
    rintro ⟨-, ⟨tmp, activity⟩, -⟩
    rw [freeing] at activity
    cases activity

end Sleeping

/-! ## The empty queues -/

section Runs

variable {ω : Type} [DecidableEq ω] {setup : Setup} {s s' : State ω}

/-- On an empty queue nobody is asleep, or a call under way wakes the only task that is. -/
structure Guarded (setup : Setup) (s : State ω) : Prop where
  ptys : Ptys setup s.terminals.stack
  empty : ∀ t, s.empty t = true →
    NoneAsleep s.waiting t ∨ HeadAsleep s.waiting t ∧ Pending t s.terminals.stack

variable {t : UInt8}

omit [DecidableEq ω] in
theorem Guarded.none_of_quiet (guarded : Guarded setup s) (quiet : s.terminals.stack = [])
    (empty : s.empty t = true) : NoneAsleep s.waiting t := by
  rcases guarded.empty t empty with none_ | ⟨-, pending⟩
  · exact none_
  · rw [quiet] at pending
    rcases pending with wake | copy
    · cases wake
    · cases copy

omit [DecidableEq ω] in
theorem Guarded.noneStuck (guarded : Guarded setup s) : s.NoneStuck := by
  intro quiet t w asleep
  rw [← Bool.not_eq_true]
  exact fun empty => guarded.none_of_quiet quiet empty w asleep

omit [DecidableEq ω] in
theorem pending_of_taken {m : ChrDrv.Move} {terminals : Wakeups.State} {wakes : List (UInt8 × Which)}
    (behind : s.WakesBehind m) (taken : s.terminals.taken setup m = some t)
    (one : (s.terminals.ttys t).writeQ.ring.chars = 1)
    (ran : s.terminals.step setup m = some (terminals, wakes)) :
    Pending t s.terminals.stack ∨ (t, .write) ∈ wakes := by
  cases m with
  | transmit u =>
    rw [Wakeups.State.taken, Option.ite_none_left_eq_some] at taken
    obtain ⟨-, same⟩ := taken
    obtain rfl := Option.some.inj same
    rw [Wakeups.State.step] at ran
    split at ran
    case h_1 =>
      rw [Wakeups.State.transmit, one, if_neg Nat.one_ne_zero] at ran
      obtain rfl := congrArg Prod.snd (Option.some.inj ran)
      exact .inr (List.mem_append_right _ List.mem_cons_self)
    case h_2 => cases ran
  | run signal =>
    obtain ⟨u, rest, top⟩ := behind
    have same : u = t := by
      rw [Wakeups.State.taken, top] at taken
      dsimp only at taken
      split at taken
      case h_1 =>
        rw [Option.ite_none_left_eq_some] at taken
        exact Option.some.inj taken.2
      case h_2 => cases taken
    rw [top, same]
    exact .inl (.inr List.mem_cons_self)
  | _ => exact behind.elim

theorem guarded_tty {m : ChrDrv.Move} (guarded : Guarded setup s) (allowed : s.Allowed setup (.tty m))
    (moved : s.step setup (.tty m) = some s') : Guarded setup s' := by
  rw [State.step] at moved
  split at moved
  case h_1 => cases moved
  case h_2 terminals wakes ran =>
    obtain rfl := Option.some.inj moved
    refine ⟨Wakeups.ptys_step ran guarded.ptys, fun t empty => ?_⟩
    have later (first : HeadAsleep s.waiting t)
        (pending : Pending t terminals.stack ∨ (t, Which.write) ∈ wakes) :
        NoneAsleep (wakeWriters s.waiting wakes) t ∨
          HeadAsleep (wakeWriters s.waiting wakes) t ∧ Pending t terminals.stack :=
      pending.symm.imp (none_of_wakeWriters first) fun pending => ⟨fewer_wakeWriters.head first, pending⟩
    rcases allowed t with none_ | ⟨room, takes, flush⟩
    · exact .inl (fewer_wakeWriters.none none_)
    rcases Wakeups.empty_of_step ran room empty with before | ⟨taken, one⟩ | flushed
    · rcases guarded.empty t before with none_ | ⟨first, pending⟩
      · exact .inl (fewer_wakeWriters.none none_)
      · exact later first (Wakeups.pending_step ran guarded.ptys pending)
    · obtain ⟨behind, first⟩ := takes taken one
      rcases pending_of_taken behind taken one ran with pending | wake
      · exact later first (Wakeups.pending_step ran guarded.ptys pending)
      · exact later first (.inr wake)
    · exact absurd flushed flush

theorem guarded_sleep {w : ω} (guarded : Guarded setup s) (moved : s.step setup (.sleep w t) = some s') :
    Guarded setup s' := by
  rw [State.step, Option.ite_none_right_eq_some] at moved
  obtain ⟨⟨quiet, left⟩, moved⟩ := moved
  obtain ⟨waiting, ran, rfl⟩ := Option.map_eq_some_iff.mp moved
  rw [WaitQueue.State.step, Option.ite_none_right_eq_some] at ran
  obtain rfl := Option.some.inj ran.2
  refine ⟨guarded.ptys, fun u empty => ?_⟩
  have differ : u ≠ t := by
    rintro rfl
    have chars := Wakeups.empty_iff_chars.mp empty
    have places : (s.terminals.ttys u).writeQ.ring.left = _ := Ring.left_eq
    have size : TTY_BUF_SIZE = 1024 := rfl
    rw [chars] at places
    omega
  refine .inl fun v asleep => guarded.none_of_quiet quiet empty v ?_
  obtain ⟨⟨tmp, activity⟩, halted⟩ := asleep
  have other : v ≠ w := by
    rintro rfl
    rw [WaitQueue.State.sleepOn, WaitQueue.State.setActivity_self] at activity
    injection activity with same
    exact differ same.symm
  rw [WaitQueue.State.sleepOn, WaitQueue.State.setActivity_of_ne _ _ other] at activity
  refine ⟨⟨tmp, activity⟩, ?_⟩
  rw [← update_of_ne other .interruptible s.waiting.state]
  exact halted

theorem guarded_resume {w : ω} (guarded : Guarded setup s) (allowed : s.Allowed setup (.resume w))
    (moved : s.step setup (.resume w) = some s') : Guarded setup s' := by
  rw [State.step, Option.ite_none_right_eq_some] at moved
  obtain ⟨quiet, moved⟩ := moved
  obtain ⟨waiting, ran, rfl⟩ := Option.map_eq_some_iff.mp moved
  rw [WaitQueue.State.step, Option.ite_none_right_eq_some] at ran
  obtain ⟨running, ran⟩ := ran
  refine ⟨guarded.ptys, fun u empty => .inl fun v asleep => ?_⟩
  rcases asleep_of_resume ran asleep with before | ⟨-, ⟨tmp, sleeping⟩, head⟩
  · exact guarded.none_of_quiet quiet empty v before
  · have filled := allowed u tmp sleeping head
    exact Bool.false_ne_true (filled.symm.trans empty)

theorem guarded_step {m : Move ω} (guarded : Guarded setup s) (allowed : s.Allowed setup m)
    (moved : s.step setup m = some s') : Guarded setup s' := by
  have fewer {waiting : WaitQueue.State ω UInt8} (fewer : ∀ t, Fewer t s.waiting waiting) :
      Guarded setup { s with waiting } :=
    ⟨guarded.ptys, fun t empty => (guarded.empty t empty).imp (fewer t).none fun ⟨first, pending⟩ =>
      ⟨(fewer t).head first, pending⟩⟩
  cases m with
  | tty m => exact guarded_tty guarded allowed moved
  | sleep w t => exact guarded_sleep guarded moved
  | resume w => exact guarded_resume guarded allowed moved
  | signal w =>
    obtain ⟨waiting, ran, rfl⟩ := Option.map_eq_some_iff.mp moved
    rw [WaitQueue.State.step, Option.ite_none_right_eq_some] at ran
    obtain rfl := Option.some.inj ran.2
    exact fewer fun t => fewer_setState w

omit [DecidableEq ω] in
theorem guarded_of_quiet (quiet : s.terminals.stack = []) (idle : ∀ w, s.waiting.activity w = .idle) :
    Guarded setup s := by
  refine ⟨quiet ▸ Wakeups.ptys_nil, fun t _ => .inl fun w asleep => ?_⟩
  obtain ⟨⟨tmp, sleeping⟩, -⟩ := asleep
  rw [idle w] at sleeping
  cases sleeping

/-- As long as the last byte of a queue that somebody sleeps on is taken by a driver that wakes the only
sleeper, nobody sleeps on an empty queue. -/
theorem noneStuck_of_run {start : State ω} (quiet : start.terminals.stack = [])
    (idle : ∀ w, start.waiting.activity w = .idle)
    (ran : Run (State.step setup) (fun s m => s.Allowed setup m) start s) : s.NoneStuck :=
  (ran.invariant (fun guarded allowed moved => guarded_step guarded allowed moved)
    (guarded_of_quiet quiet idle)).noneStuck

end Runs

def atRest (ttys : UInt8 → Tty) : State Unit where
  terminals := { ttys, crFlag := false, stack := [] }
  waiting := WaitQueue.State.init

def letters : List UInt8 := List.replicate (TTY_BUF_SIZE - 1) 65

def lineFull : State Unit :=
  let line := (colour.ttyInit fun _ => 0).ttys 64
  atRest (update (colour.ttyInit fun _ => 0).ttys 64 { line with writeQ := line.writeQ.putAll letters })

theorem lineFull_noneStuck :
    ∃ s, Run (State.step (colour.setup id id)) (fun s m => s.Allowed (colour.setup id id) m) lineFull s ∧
      s.NoneStuck := by
  have chars : (lineFull.terminals.ttys 64).writeQ.ring.chars = 1023 := by decide +kernel
  have asleep : Run (State.step (colour.setup id id)) (fun s m => s.Allowed (colour.setup id id) m) lineFull
      { lineFull with waiting := lineFull.waiting.sleepOn () 64 .interruptible } := by
    refine .move (m := .sleep () 64) .start trivial ?_
    have places : (lineFull.terminals.ttys 64).writeQ.ring.left = _ := Ring.left_eq
    rw [State.step, if_pos ⟨rfl, by rw [places, chars]; decide⟩]
    rfl
  have sends : lineFull.terminals.step (colour.setup id id) (.transmit 64) =
      some ((lineFull.terminals.transmit 64).1, (lineFull.terminals.transmit 64).2) := Wakeups.step_transmit rfl
  have sent : Run (State.step (colour.setup id id)) (fun s m => s.Allowed (colour.setup id id) m) lineFull
      { terminals := (lineFull.terminals.transmit 64).1
        waiting := wakeWriters (lineFull.waiting.sleepOn () 64 .interruptible) (lineFull.terminals.transmit 64).2 } := by
    refine .move (m := .tty (.transmit 64)) asleep (fun t => .inr ⟨trivial, fun taken one => ?_, nofun⟩) ?_
    · rw [Wakeups.State.taken, Option.ite_none_left_eq_some] at taken
      obtain rfl := Option.some.inj taken.2
      exact absurd (chars.symm.trans one) (by decide)
    · rw [State.step, sends]
  exact ⟨_, sent, noneStuck_of_run rfl (fun _ => rfl) sent⟩

/-- A task waits for room on a console that is stopped, and the queue is flushed: nobody wakes the task. -/
theorem flush_sticks :
    ∃ s, Reachable (State.step (colour.setup id id)) (atRest (colour.ttyInit fun _ => 0).ttys) s ∧ ¬s.NoneStuck := by
  have moves : ∃ s, run (State.step (colour.setup id id)) (atRest (colour.ttyInit fun _ => 0).ttys)
      [.tty (.tcxonc 0 .tcooff), .tty (.run false), .tty (.run false), .tty (.ttyWrite 0 letters), .tty (.run false),
        .tty (.run false), .sleep () 0, .tty (.tcflsh 0 false true)] = some s ∧
      (s.terminals.stack.isEmpty = true ∧ s.waiting.activity () = .sleeping 0 none ∧ s.waiting.state () ≠ .running ∧
        s.empty 0 = true) :=
    exists_of_run _ _ _ _ (by decide +kernel)
  obtain ⟨s, ran, quiet, sleeping, halted, empty⟩ := moves
  refine ⟨s, reachable_of_run ran, fun noneStuck => ?_⟩
  have filled := noneStuck (List.isEmpty_iff.mp quiet) 0 () ⟨⟨none, sleeping⟩, halted⟩
  exact Bool.false_ne_true (filled.symm.trans empty)

end Linux012.ChrDrv.Sleepers

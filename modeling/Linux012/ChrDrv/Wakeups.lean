import Linux012.ChrDrv.ConsoleQueue

/-! The queues that the terminal code wakes: `copy_to_cooked`, `pty_copy` and the serial `write_char`
call `wake_up`, `con_write` and the ioctls do not. -/

set_option autoImplicit false

namespace Linux012.ChrDrv.Wakeups

open Transition RingBuffer Function List

inductive Call where
  | frame (frame : Frame)
  /-- the `wake_up` at the end of `pty_copy` -/
  | wakeWriters

/-- `tty_table` and `cr_flag` of `tty_write`; the calls under way are last called first. -/
structure State where
  ttys : UInt8 → Tty
  crFlag : Bool
  stack : List (UInt8 × Call)

/-- The state after a step, and the queues whose `proc_list` was given to `wake_up`. -/
abbrev Outcome := State × List (UInt8 × Which)

def STARTUP : Nat := 256

def ends (tty : Tty) : Frame → Bool
  | .cooked => tty.readQ.ring.empty || tty.secondary.ring.full
  | _ => false

def wakes (t : UInt8) (which : Which) (condition : Bool) : List (UInt8 × Which) := if condition then [(t, which)] else []

namespace State

variable (setup : Setup) (s : State)

def set (t : UInt8) (tty : Tty) : State := { s with ttys := update s.ttys t tty }

def ptyCopy (signal : Bool) (t other : UInt8) (rest : List (UInt8 × Call)) : State :=
  let from_ := s.ttys t
  let last := (other, .frame .cooked) :: (t, .wakeWriters) :: rest
  if from_.stopped || from_.writeQ.ring.empty then { s with stack := last }
  else if (s.ttys other).readQ.ring.full then
    if (s.ttys other).secondary.ring.full then { s with stack := last }
    else { s with stack := (other, .frame .cooked) :: (t, .frame .ptyCopy) :: rest }
  else
    let c := from_.writeQ.ring.buf from_.writeQ.ring.tail
    let s := s.set t { from_ with writeQ := from_.writeQ.get }
    let s := s.set other { s.ttys other with readQ := (s.ttys other).readQ.put c }
    if signal then { s with stack := last } else { s with stack := (t, .frame .ptyCopy) :: rest }

/-- A call of the `write` function of a terminal, or a step of `pty_copy`. -/
def drive (signal : Bool) (t : UInt8) (frame : Frame) (rest : List (UInt8 × Call)) : State :=
  match frame, setup.driver t with
  | .write, some .console => { s with stack := (t, .frame (.conWrite (s.ttys t).writeQ.ring.chars)) :: rest }
  | .write, some (.pty _) => { s with stack := (t, .frame .ptyCopy) :: rest }
  | .ptyCopy, some (.pty other) => s.ptyCopy signal t other rest
  -- `rs_write` only enables the interrupt
  | _, _ => { s with stack := rest }

def runCall (signal : Bool) (t : UInt8) (rest : List (UInt8 × Call)) : Call → Outcome
  | .wakeWriters => ({ s with stack := rest }, [(t, .write)])
  | .frame frame =>
    match (s.ttys t).step setup frame with
    | some (tty, frames) =>
      ({ s.set t tty with stack := frames.map (fun f => (t, .frame f)) ++ rest },
        wakes t .secondary (ends (s.ttys t) frame))
    | none => (s.drive setup signal t frame rest, [])

def call (t : UInt8) (tty : Tty) (frame : Frame) : Option Outcome :=
  if s.stack = [] then some ({ s.set t tty with stack := [(t, .frame frame)] }, []) else none

def change (t : UInt8) (tty : Tty) : Option Outcome := if s.stack = [] then some (s.set t tty, []) else none

def offer (t : UInt8) (cs : List UInt8) : Outcome :=
  ({ s.set t { s.ttys t with readQ := (s.ttys t).readQ.offer cs } with stack := (t, .frame .cooked) :: s.stack }, [])

def input (t : UInt8) (cs : List UInt8) : Option Outcome :=
  match setup.driver t with
  | some .console => some (s.offer t cs)
  | some .serial => if cs.length = 1 then some (s.offer t cs) else none
  | _ => none

def tcxonc (t : UInt8) : Flow → Option Outcome
  | .tcooff => s.call t { s.ttys t with stopped := true } .write
  | .tcoon => s.call t { s.ttys t with stopped := false } .write
  | .tcioff =>
    let c := (s.ttys t).termios.cc .stop
    s.change t (if c ≠ 0 then { s.ttys t with writeQ := (s.ttys t).writeQ.put c } else s.ttys t)
  | .tcion =>
    let c := (s.ttys t).termios.cc .start
    s.change t (if c ≠ 0 then { s.ttys t with writeQ := (s.ttys t).writeQ.put c } else s.ttys t)

/-- `write_char` of a serial line, and `write_buffer_empty` -/
def transmit (t : UInt8) : Outcome :=
  let tty := s.ttys t
  let chars := tty.writeQ.ring.chars
  if chars = 0 then (s, [(t, .write)])
  else (s.set t { tty with writeQ := tty.writeQ.get }, wakes t .write (chars ≤ STARTUP) ++ wakes t .write (chars = 1))

def step : Move → Option Outcome
  | .run signal =>
    match s.stack with
    | [] => none
    | (t, call) :: rest => some (s.runCall setup signal t rest call)
  | .input t cs => s.input setup t cs
  | .ttyWrite t cs =>
    if cs = [] then none
    else
      let filled := Tty.fill setup cs s.crFlag (s.ttys t)
      { s with crFlag := filled.1 }.call t filled.2 .write
  | .ttyRead t => if (s.ttys t).secondary.ring.empty then none else s.change t (s.ttys t).getch.2
  | .poke t =>
    match setup.driver t with
    | some (.pty other) => s.call other (s.ttys other) .write
    | _ => none
  | .tcxonc t arg => s.tcxonc t arg
  | .tcflsh t readQ writeQ =>
    s.change t
      { s.ttys t with
        readQ := if readQ then (s.ttys t).readQ.flush else (s.ttys t).readQ
        writeQ := if writeQ then (s.ttys t).writeQ.flush else (s.ttys t).writeQ }
  | .tcsets t termios flush =>
    s.change t
      { s.ttys t with
        termios := termios
        readQ := if flush then (s.ttys t).readQ.flush else (s.ttys t).readQ }
  | .transmit t =>
    match setup.driver t with
    | some .serial => some (s.transmit t)
    | _ => none

def taken : Move → Option UInt8
  | .run _ =>
    match s.stack with
    | (t, .frame (.conWrite nr)) :: _ => if nr ≠ 0 && !(s.ttys t).stopped then some t else none
    | (t, .frame .ptyCopy) :: _ =>
      match setup.driver t with
      | some (.pty other) =>
        if (s.ttys t).stopped || (s.ttys t).writeQ.ring.empty || (s.ttys other).readQ.ring.full then none
        else some t
      | _ => none
    | _ => none
  | .transmit t => if (s.ttys t).writeQ.ring.chars = 0 then none else some t
  | _ => none

/-- An echo, and the characters of `TCIOFF` and `TCION`, find room in the `write_q` of a terminal. -/
def Room (t : UInt8) : Move → Prop
  | .run _ => ∀ frame rest, s.stack = (t, .frame frame) :: rest →
      ((s.ttys t).echoes setup frame).length ≤ (s.ttys t).writeQ.ring.left
  | .tcxonc u .tcioff => u = t → (s.ttys t).termios.cc .stop ≠ 0 → (s.ttys t).writeQ.ring.full = false
  | .tcxonc u .tcion => u = t → (s.ttys t).termios.cc .start ≠ 0 → (s.ttys t).writeQ.ring.full = false
  | _ => True

end State

def flushed : Move → Option UInt8
  | .tcflsh t _ true => some t
  | _ => none

inductive Change (q q' : Queue) : Bool → Bool → Prop where
  | puts {taken flushed : Bool} (cs : List UInt8) (room : cs.length ≤ q.ring.left) (same : q' = q.putAll cs) :
      Change q q' taken flushed
  | get {flushed : Bool} (same : q' = q.get) : Change q q' true flushed
  | flush {taken : Bool} (same : q' = q.flush) : Change q q' taken true

/-! ## What a step does with the queues -/

section Steps

variable {setup : Setup} {s s' : State} {w : List (UInt8 × Which)} {m : Move} {u : UInt8}

theorem Change.same {q : Queue} {taken flushed : Bool} : Change q q taken flushed := .puts [] (Nat.zero_le _) rfl

theorem Change.put {q : Queue} {c : UInt8} {taken flushed : Bool} (room : q.ring.full = false) :
    Change q (q.put c) taken flushed := by
  refine .puts [c] ?_ rfl
  rw [Ring.full, decide_eq_false_iff_not] at room
  exact Nat.one_le_iff_ne_zero.mpr room

theorem exists_puts {q q' : Queue} {c : UInt8} (room : ¬q.ring.full = true)
    (later : ∃ ds, ds.length ≤ (q.put c).ring.left ∧ q' = (q.put c).putAll ds) :
    ∃ ds, ds.length ≤ q.ring.left ∧ q' = q.putAll ds := by
  obtain ⟨ds, fits, same⟩ := later
  have less := Watched.left_put (Bool.eq_false_of_not_eq_true room) (c := c)
  exact ⟨c :: ds, by rw [length_cons]; omega, same⟩

theorem fill_puts (setup : Setup) (cs : List UInt8) (crFlag : Bool) (tty : Tty) :
    ∃ ds, ds.length ≤ tty.writeQ.ring.left ∧ (Tty.fill setup cs crFlag tty).2.writeQ = tty.writeQ.putAll ds := by
  have nothing (q : Queue) : ∃ ds : List UInt8, ds.length ≤ q.ring.left ∧ q = q.putAll ds := ⟨[], Nat.zero_le _, rfl⟩
  induction cs generalizing crFlag tty with
  | nil => exact nothing _
  | cons b rest ih =>
    rw [Tty.fill]
    split
    case isTrue => exact nothing _
    case isFalse room =>
      dsimp only
      split
      case isTrue =>
        refine exists_puts (c := 13) room ?_
        split
        case isTrue => exact nothing _
        case isFalse room' =>
          have later := ih false
            { tty with
              writeQ := (tty.writeQ.put 13).put
                (Tty.post setup { tty with writeQ := tty.writeQ.put 13 } (tty.sent b)) }
          exact exists_puts room' later
      case isFalse =>
        have later := ih false { tty with writeQ := tty.writeQ.put (Tty.post setup tty (tty.sent b)) }
        exact exists_puts room later

theorem fill_only (setup : Setup) (cs : List UInt8) (crFlag : Bool) (tty : Tty) :
    (Tty.fill setup cs crFlag tty).2 = { tty with writeQ := (Tty.fill setup cs crFlag tty).2.writeQ } := by
  induction cs generalizing crFlag tty with
  | nil => rfl
  | cons b rest ih =>
    rw [Tty.fill]
    split
    case isTrue => rfl
    case isFalse =>
      dsimp only
      split
      case isTrue =>
        split
        case isTrue => rfl
        case isFalse => exact ih false _
      case isFalse => exact ih false _

theorem change_set {t : UInt8} {tty : Tty} {taken flushed : Bool}
    (here : u = t → Change (s.ttys u).writeQ tty.writeQ taken flushed) :
    Change (s.ttys u).writeQ ((s.set t tty).ttys u).writeQ taken flushed := by
  rw [State.set]
  by_cases same : u = t
  · subst same
    simp only [update_self]
    exact here rfl
  · simp only [update_of_ne same]
    exact .same

theorem call_change {t : UInt8} {tty : Tty} {frame : Frame} {taken flushed : Bool}
    (moved : s.call t tty frame = some (s', w)) (here : u = t → Change (s.ttys u).writeQ tty.writeQ taken flushed) :
    Change (s.ttys u).writeQ (s'.ttys u).writeQ taken flushed := by
  rw [State.call, Option.ite_none_right_eq_some] at moved
  obtain rfl := congrArg Prod.fst (Option.some.inj moved.2)
  exact change_set here

theorem change_change {t : UInt8} {tty : Tty} {taken flushed : Bool} (moved : s.change t tty = some (s', w))
    (here : u = t → Change (s.ttys u).writeQ tty.writeQ taken flushed) :
    Change (s.ttys u).writeQ (s'.ttys u).writeQ taken flushed := by
  rw [State.change, Option.ite_none_right_eq_some] at moved
  obtain rfl := congrArg Prod.fst (Option.some.inj moved.2)
  exact change_set here

theorem ptyCopy_change {signal flushed : Bool} {t other : UInt8} {rest : List (UInt8 × Call)} (differ : other ≠ t) :
    Change (s.ttys u).writeQ ((s.ptyCopy signal t other rest).ttys u).writeQ
      (!((s.ttys t).stopped || (s.ttys t).writeQ.ring.empty || (s.ttys other).readQ.ring.full) && u = t) flushed := by
  rw [State.ptyCopy]
  dsimp only
  split
  case isTrue => exact .same
  case isFalse goes =>
    split
    case isTrue => split <;> exact .same
    case isFalse room =>
      rw [Bool.not_eq_true] at goes room
      rw [goes, room]
      have copied : Change (s.ttys u).writeQ
          (update (update s.ttys t { s.ttys t with writeQ := (s.ttys t).writeQ.get }) other
            { (s.set t { s.ttys t with writeQ := (s.ttys t).writeQ.get }).ttys other with
              readQ := ((s.set t { s.ttys t with writeQ := (s.ttys t).writeQ.get }).ttys other).readQ.put
                ((s.ttys t).writeQ.ring.buf (s.ttys t).writeQ.ring.tail) } u).writeQ
          (!(false || false) && u = t) flushed := by
        by_cases here : u = t
        · subst here
          rw [update_of_ne differ.symm, update_self, decide_eq_true rfl]
          exact .get rfl
        · by_cases there : u = other
          · subst there
            rw [update_self, State.set]
            dsimp only
            rw [update_of_ne here]
            exact .same
          · rw [update_of_ne there, update_of_ne here]
            exact .same
      split <;> exact copied

theorem drive_change {signal flushed : Bool} {t : UInt8} {rest : List (UInt8 × Call)} {frame : Frame}
    (top : s.stack = (t, .frame frame) :: rest) :
    Change (s.ttys u).writeQ ((s.drive setup signal t frame rest).ttys u).writeQ
      (s.taken setup (.run signal) = some u) flushed := by
  unfold State.drive
  split
  case h_1 => exact .same
  case h_2 => exact .same
  case h_3 other driver =>
    have takes : s.taken setup (.run signal) =
        if (s.ttys t).stopped || (s.ttys t).writeQ.ring.empty || (s.ttys other).readQ.ring.full then none
        else some t := by
      rw [State.taken, top]
      dsimp only
      rw [driver]
    have same : (decide (s.taken setup (.run signal) = some u) : Bool) =
        (!((s.ttys t).stopped || (s.ttys t).writeQ.ring.empty || (s.ttys other).readQ.ring.full) && u = t) := by
      simp only [takes]
      split
      case isTrue waits => simp [waits]
      case isFalse goes => simp [goes, eq_comm]
    rw [same]
    exact ptyCopy_change (ChrDrv.State.driver_other driver)
  case h_4 => exact .same

theorem runCall_change {signal flushed : Bool} {t : UInt8} {rest : List (UInt8 × Call)} {call : Call}
    (top : s.stack = (t, call) :: rest) (room : s.Room setup u (.run signal)) :
    Change (s.ttys u).writeQ ((s.runCall setup signal t rest call).1.ttys u).writeQ
      (s.taken setup (.run signal) = some u) flushed := by
  cases call with
  | wakeWriters => exact .same
  | frame frame =>
    unfold State.runCall
    dsimp only
    split
    case h_1 tty frames ran =>
      refine change_set fun here => ?_
      subst here
      rcases ConsoleQueue.step_cases ran with ⟨-, cooks⟩ | ⟨nr, rfl, both⟩
      · exact .puts _ (room frame rest top) cooks.writeQ
      · obtain rfl : tty = ((s.ttys u).conWrite setup nr).1 := congrArg Prod.fst both
        by_cases over_ : nr = 0 ∨ (s.ttys u).stopped = true
        · rw [(ConsoleQueue.conWrite_ends setup over_).1]
          exact .same
        · obtain ⟨more, running⟩ := not_or.mp over_
          rw [Bool.not_eq_true] at running
          have takes : s.taken setup (.run signal) = some u := by
            rw [State.taken, top]
            simp [more, running]
          rw [decide_eq_true takes]
          exact .get (ConsoleQueue.conWrite_takes setup more running).1
    case h_2 => exact drive_change top

theorem step_change (moved : s.step setup m = some (s', w)) (room : s.Room setup u m) :
    Change (s.ttys u).writeQ (s'.ttys u).writeQ (s.taken setup m = some u) (flushed m = some u) := by
  cases m with
  | run signal =>
    rw [State.step] at moved
    split at moved
    case h_1 => cases moved
    case h_2 t call rest top =>
      obtain rfl := congrArg Prod.fst (Option.some.inj moved)
      exact runCall_change top room
  | input t cs =>
    rw [State.step, State.input] at moved
    split at moved
    · obtain rfl := congrArg Prod.fst (Option.some.inj moved)
      exact change_set fun here => here ▸ .same
    · rw [Option.ite_none_right_eq_some] at moved
      obtain rfl := congrArg Prod.fst (Option.some.inj moved.2)
      exact change_set fun here => here ▸ .same
    · cases moved
  | ttyWrite t cs =>
    rw [State.step, Option.ite_none_left_eq_some] at moved
    obtain ⟨ds, fits, same⟩ := fill_puts setup cs s.crFlag (s.ttys t)
    refine call_change (s := { s with crFlag := (Tty.fill setup cs s.crFlag (s.ttys t)).1 }) moved.2 fun here => ?_
    subst here
    exact .puts ds fits same
  | ttyRead t =>
    rw [State.step, Option.ite_none_left_eq_some] at moved
    exact change_change moved.2 fun here => here ▸ .same
  | poke t =>
    rw [State.step] at moved
    split at moved
    case h_1 => exact call_change moved fun here => here ▸ .same
    case h_2 => cases moved
  | tcxonc t arg =>
    cases arg with
    | tcooff | tcoon => exact call_change moved fun here => here ▸ .same
    | tcioff | tcion =>
      refine change_change moved fun here => ?_
      subst here
      split
      case isTrue given => exact .put (room rfl given)
      case isFalse => exact .same
  | tcflsh t readQ writeQ =>
    refine change_change moved fun here => ?_
    subst here
    cases writeQ with
    | true =>
      rw [flushed, decide_eq_true rfl]
      exact .flush rfl
    | false => exact .same
  | tcsets t termios flush => exact change_change moved fun here => here ▸ .same
  | transmit t =>
    rw [State.step] at moved
    split at moved
    case h_1 =>
      unfold State.transmit at moved
      dsimp only at moved
      split at moved
      case isTrue =>
        obtain rfl : s = s' := congrArg Prod.fst (Option.some.inj moved)
        exact .same
      case isFalse some_ =>
        obtain rfl := congrArg Prod.fst (Option.some.inj moved)
        refine change_set fun here => ?_
        subst here
        rw [State.taken, if_neg some_, decide_eq_true rfl]
        exact .get rfl
    case h_2 => cases moved

theorem chars_get {q : Queue} (some_ : q.ring.empty = false) : q.get.ring.chars + 1 = q.ring.chars := by
  have contents := congrArg List.length (Ring.contents_get some_)
  rw [length_cons, Ring.length_contents, Ring.length_contents] at contents
  exact contents.symm

theorem empty_iff_chars {q : Queue} : q.ring.empty = true ↔ q.ring.chars = 0 := by
  rw [Ring.empty_iff, ← length_eq_zero_iff, Ring.length_contents]

theorem empty_of_step (moved : s.step setup m = some (s', w)) (room : s.Room setup u m)
    (empty : (s'.ttys u).writeQ.ring.empty = true) :
    (s.ttys u).writeQ.ring.empty = true ∨ (s.taken setup m = some u ∧ (s.ttys u).writeQ.ring.chars = 1) ∨
      flushed m = some u := by
  by_cases before : (s.ttys u).writeQ.ring.empty = true
  · exact .inl before
  rw [Bool.not_eq_true] at before
  generalize takes : decide (s.taken setup m = some u) = taken
  generalize flushes : decide (flushed m = some u) = flush
  have change := step_change moved room
  rw [takes, flushes] at change
  cases change with
  | puts cs fits same =>
    rw [same, empty_iff_chars, ConsoleQueue.chars_putAll fits] at empty
    exact .inl (empty_iff_chars.mpr (by omega))
  | get same =>
    rw [same, empty_iff_chars] at empty
    have chars := chars_get before
    exact .inr (.inl ⟨of_decide_eq_true takes, by omega⟩)
  | flush => exact .inr (.inr (of_decide_eq_true flushes))

theorem full_of_step (moved : s.step setup m = some (s', w)) (room : s.Room setup u m)
    (full : (s.ttys u).writeQ.ring.full = true) :
    (s'.ttys u).writeQ.ring.full = true ∨ s.taken setup m = some u ∨ flushed m = some u := by
  generalize takes : decide (s.taken setup m = some u) = taken
  generalize flushes : decide (flushed m = some u) = flush
  have change := step_change moved room
  rw [takes, flushes] at change
  cases change with
  | puts cs fits same =>
    have none_ : cs = [] := by
      rw [Ring.full, decide_eq_true_eq] at full
      exact length_eq_zero_iff.mp (by omega)
    rw [same, none_]
    exact .inl full
  | get => exact .inr (.inl (of_decide_eq_true takes))
  | flush => exact .inr (.inr (of_decide_eq_true flushes))

end Steps

/-! ## The calls under way -/

section Calls

variable {setup : Setup} {s s' : State} {w : List (UInt8 × Which)} {t : UInt8}

def Pending (t : UInt8) (stack : List (UInt8 × Call)) : Prop :=
  (t, Call.wakeWriters) ∈ stack ∨ (t, Call.frame .ptyCopy) ∈ stack

def Ptys (setup : Setup) (stack : List (UInt8 × Call)) : Prop :=
  ∀ t, (t, Call.frame .ptyCopy) ∈ stack → ∃ other, setup.driver t = some (.pty other)

theorem Pending.append {front rest : List (UInt8 × Call)} (pending : Pending t rest) : Pending t (front ++ rest) :=
  pending.imp (mem_append_right _) (mem_append_right _)

theorem Ptys.append {front rest : List (UInt8 × Call)} (first : Ptys setup front) (second : Ptys setup rest) :
    Ptys setup (front ++ rest) := by
  intro t member
  rcases mem_append.mp member with new | old
  · exact first t new
  · exact second t old

theorem ptys_of_step {tty : Tty} {frame : Frame} {tty' : Tty} {frames : List Frame}
    (ran : tty.step setup frame = some (tty', frames)) (t : UInt8) :
    Ptys setup (frames.map fun f => (t, Call.frame f)) := by
  intro u member
  obtain ⟨f, inFrames, same⟩ := mem_map.mp member
  obtain rfl : f = .ptyCopy := Call.frame.inj (Prod.mk.inj same).2
  rcases ConsoleQueue.step_cases ran with ⟨-, cooks⟩ | ⟨nr, rfl, both⟩
  · obtain ⟨call, rest, rfl, -, cooking⟩ := cooks.frames
    rcases mem_append.mp inFrames with called | later
    · cases call <;> simp [ConsoleQueue.calls] at called
    · exact (cooking _ later).elim
  · obtain rfl : frames = (tty.conWrite setup nr).2 := congrArg Prod.snd both
    by_cases over_ : nr = 0 ∨ tty.stopped = true
    · rw [(ConsoleQueue.conWrite_ends setup over_).2.2] at inFrames
      cases inFrames
    · obtain ⟨more, running⟩ := not_or.mp over_
      rw [Bool.not_eq_true] at running
      rcases (ConsoleQueue.conWrite_takes setup more running).2.2 with loop | loop
      · simp [loop] at inFrames
      · simp [loop] at inFrames

theorem pending_of_other {front : List (UInt8 × Call)} {frame : Frame} (other : frame ≠ .ptyCopy) :
    Pending t [(t, .frame frame)] → Pending t front ∨ (t, Which.write) ∈ w := by
  rintro (wake | copy)
  · simp at wake
  · simp only [mem_singleton, Prod.mk.injEq, Call.frame.injEq, true_and] at copy
    exact absurd copy.symm other

theorem ptys_one {other : UInt8} (driver : setup.driver t = some (.pty other)) {call : Call} : Ptys setup [(t, call)] := by
  intro u member
  rw [mem_singleton] at member
  obtain rfl : u = t := congrArg Prod.fst member
  exact ⟨other, driver⟩

theorem ptys_cons {call : Call} {rest : List (UInt8 × Call)} (differ : call ≠ .frame .ptyCopy) (ptys : Ptys setup rest) :
    Ptys setup ((t, call) :: rest) := by
  intro u member
  rcases mem_cons.mp member with same | later
  · exact absurd (congrArg Prod.snd same).symm differ
  · exact ptys u later

theorem ptys_nil : Ptys setup [] := fun _ member => absurd member not_mem_nil

theorem ptyCopy_stack (signal : Bool) {other : UInt8} (rest : List (UInt8 × Call))
    (driver : setup.driver t = some (.pty other)) :
    ∃ front, (s.ptyCopy signal t other rest).stack = front ++ rest ∧ Ptys setup front ∧ Pending t front := by
  have ended : ∃ front : List (UInt8 × Call),
      (other, .frame .cooked) :: (t, .wakeWriters) :: rest = front ++ rest ∧ Ptys setup front ∧ Pending t front :=
    ⟨[(other, .frame .cooked), (t, .wakeWriters)], rfl, ptys_cons (by simp) (ptys_one driver), .inl (by simp)⟩
  rw [State.ptyCopy]
  dsimp only
  split
  case isTrue => exact ended
  case isFalse =>
    split
    case isTrue =>
      split
      case isTrue => exact ended
      case isFalse =>
        exact ⟨[(other, .frame .cooked), (t, .frame .ptyCopy)], rfl,
          ptys_cons (by simp) (ptys_one driver), .inr (by simp)⟩
    case isFalse =>
      split
      case isTrue => exact ended
      case isFalse => exact ⟨[(t, .frame .ptyCopy)], rfl, ptys_one driver, .inr (by simp)⟩

theorem runCall_stack (signal : Bool) {u : UInt8} (rest : List (UInt8 × Call)) {call : Call}
    (ptys : call = .frame .ptyCopy → ∃ other, setup.driver u = some (.pty other)) :
    ∃ front, (s.runCall setup signal u rest call).1.stack = front ++ rest ∧ Ptys setup front ∧
      (Pending u [(u, call)] → Pending u front ∨ (u, .write) ∈ (s.runCall setup signal u rest call).2) := by
  cases call with
  | wakeWriters => exact ⟨[], rfl, ptys_nil, fun _ => .inr mem_cons_self⟩
  | frame frame =>
    unfold State.runCall
    dsimp only
    split
    case h_1 tty frames ran =>
      refine ⟨_, rfl, ptys_of_step ran u, pending_of_other ?_⟩
      rintro rfl
      cases ran
    case h_2 =>
      unfold State.drive
      split
      case h_1 => exact ⟨[_], rfl, ptys_cons (by simp) ptys_nil, pending_of_other (by simp)⟩
      case h_2 other driver _ => exact ⟨[_], rfl, ptys_one driver, pending_of_other (by simp)⟩
      case h_3 other driver _ =>
        obtain ⟨front, stack, ptys', pending⟩ := ptyCopy_stack (s := s) signal rest driver
        exact ⟨front, stack, ptys', fun _ => .inl pending⟩
      case h_4 noPty =>
        refine ⟨[], rfl, ptys_nil, pending_of_other ?_⟩
        rintro rfl
        obtain ⟨other, driver⟩ := ptys rfl
        exact noPty other rfl driver

theorem step_transmit (serial : setup.driver t = some .serial) :
    s.step setup (.transmit t) = some ((s.transmit t).1, (s.transmit t).2) := by
  rw [State.step, serial]

structure Begins (s s' : State) : Prop where
  stack : ∃ front, s'.stack = front ++ s.stack ∧
    ∀ call ∈ front, call.2 = .frame .write ∨ call.2 = .frame .cooked
  secondary : ∀ u, (s.ttys u).secondary.ring.empty = true → (s'.ttys u).secondary = (s.ttys u).secondary

theorem set_related {R : Tty → Tty → Prop} (refl : ∀ tty, R tty tty) {s : State} {u : UInt8} {tty : Tty}
    (here : R (s.ttys u) tty) (t : UInt8) : R (s.ttys t) ((s.set u tty).ttys t) := by
  rw [State.set]
  dsimp only
  by_cases same : t = u
  · subst same
    rw [update_self]
    exact here
  · rw [update_of_ne same]
    exact refl (s.ttys t)

theorem secondary_set {s : State} {u : UInt8} {tty : Tty}
    (here : (s.ttys u).secondary.ring.empty = true → tty.secondary = (s.ttys u).secondary) (t : UInt8)
    (empty : (s.ttys t).secondary.ring.empty = true) : ((s.set u tty).ttys t).secondary = (s.ttys t).secondary :=
  set_related (R := fun before after => before.secondary.ring.empty = true → after.secondary = before.secondary)
    (fun _ _ => rfl) here t empty

theorem begins_call {u : UInt8} {tty : Tty} (moved : s.call u tty .write = some (s', w))
    (secondary : tty.secondary = (s.ttys u).secondary) : Begins s s' := by
  rw [State.call, Option.ite_none_right_eq_some] at moved
  obtain ⟨quiet, moved⟩ := moved
  obtain rfl := congrArg Prod.fst (Option.some.inj moved)
  refine ⟨⟨[_], by rw [quiet]; rfl, fun call member => ?_⟩, secondary_set fun _ => secondary⟩
  rw [mem_singleton.mp member]
  exact .inl rfl

theorem begins_change {u : UInt8} {tty : Tty} (moved : s.change u tty = some (s', w))
    (secondary : (s.ttys u).secondary.ring.empty = true → tty.secondary = (s.ttys u).secondary) : Begins s s' := by
  rw [State.change, Option.ite_none_right_eq_some] at moved
  obtain rfl := congrArg Prod.fst (Option.some.inj moved.2)
  exact ⟨⟨[], rfl, fun _ member => absurd member not_mem_nil⟩, secondary_set secondary⟩

theorem begins_offer {u : UInt8} {cs : List UInt8} (moved : some (s.offer u cs) = some (s', w)) : Begins s s' := by
  obtain rfl := congrArg Prod.fst (Option.some.inj moved)
  refine ⟨⟨[_], rfl, fun call member => ?_⟩, secondary_set fun _ => rfl⟩
  rw [mem_singleton.mp member]
  exact .inr rfl

theorem step_stack {m : ChrDrv.Move} (moved : s.step setup m = some (s', w)) :
    (∃ signal u call rest, m = .run signal ∧ s.stack = (u, call) :: rest ∧
        s.runCall setup signal u rest call = (s', w)) ∨ Begins s s' := by
  cases m with
  | run signal =>
    rw [State.step] at moved
    split at moved
    case h_1 => cases moved
    case h_2 u call rest top => exact .inl ⟨signal, u, call, rest, rfl, top, Option.some.inj moved⟩
  | input u cs =>
    rw [State.step, State.input] at moved
    split at moved
    · exact .inr (begins_offer moved)
    · rw [Option.ite_none_right_eq_some] at moved
      exact .inr (begins_offer moved.2)
    · cases moved
  | ttyWrite u cs =>
    rw [State.step, Option.ite_none_left_eq_some] at moved
    have secondary : (Tty.fill setup cs s.crFlag (s.ttys u)).2.secondary = (s.ttys u).secondary := by
      rw [fill_only]
    have begun := begins_call (s := { s with crFlag := (Tty.fill setup cs s.crFlag (s.ttys u)).1 }) moved.2 secondary
    exact .inr ⟨begun.stack, begun.secondary⟩
  | ttyRead u =>
    rw [State.step, Option.ite_none_left_eq_some] at moved
    exact .inr (begins_change moved.2 fun empty => absurd empty moved.1)
  | poke u =>
    rw [State.step] at moved
    split at moved
    case h_1 => exact .inr (begins_call moved rfl)
    case h_2 => cases moved
  | tcxonc u arg =>
    cases arg with
    | tcooff | tcoon => exact .inr (begins_call moved rfl)
    | tcioff | tcion => exact .inr (begins_change moved fun _ => by split <;> rfl)
  | tcflsh u readQ writeQ | tcsets u termios flush => exact .inr (begins_change moved fun _ => rfl)
  | transmit u =>
    rw [State.step] at moved
    split at moved
    case h_1 =>
      unfold State.transmit at moved
      dsimp only at moved
      split at moved
      case isTrue =>
        obtain rfl : s = s' := congrArg Prod.fst (Option.some.inj moved)
        exact .inr ⟨⟨[], rfl, fun _ member => absurd member not_mem_nil⟩, fun _ _ => rfl⟩
      case isFalse =>
        obtain rfl := congrArg Prod.fst (Option.some.inj moved)
        exact .inr ⟨⟨[], rfl, fun _ member => absurd member not_mem_nil⟩, secondary_set fun _ => rfl⟩
    case h_2 => cases moved

theorem ptys_begun {front : List (UInt8 × Call)}
    (begun : ∀ call ∈ front, call.2 = .frame .write ∨ call.2 = .frame .cooked) : Ptys setup front := by
  intro u member
  rcases begun _ member with write | cooked
  · cases write
  · cases cooked

theorem ptys_step {m : ChrDrv.Move} (moved : s.step setup m = some (s', w)) (ptys : Ptys setup s.stack) :
    Ptys setup s'.stack := by
  rcases step_stack moved with ⟨signal, u, call, rest, -, top, ran⟩ | ⟨⟨front, stack, new⟩, -⟩
  · rw [top] at ptys
    obtain ⟨front, stack, new, -⟩ := runCall_stack (s := s) signal rest
      (fun copy => ptys u (copy ▸ mem_cons_self) : call = .frame .ptyCopy → _)
    rw [ran] at stack
    rw [stack]
    exact new.append fun t member => ptys t (mem_cons_of_mem _ member)
  · rw [stack]
    exact (ptys_begun new).append ptys

theorem pending_step {m : ChrDrv.Move} (moved : s.step setup m = some (s', w)) (ptys : Ptys setup s.stack)
    (pending : Pending t s.stack) : Pending t s'.stack ∨ (t, .write) ∈ w := by
  rcases step_stack moved with ⟨signal, u, call, rest, -, top, ran⟩ | ⟨⟨front, stack, -⟩, -⟩
  · rw [top] at ptys pending
    obtain ⟨front, stack, -, here⟩ := runCall_stack (s := s) signal rest
      (fun copy => ptys u (copy ▸ mem_cons_self) : call = .frame .ptyCopy → _)
    rw [ran] at stack here
    rw [stack]
    have split : Pending t [(u, call)] ∨ Pending t rest :=
      pending.elim
        (fun wake => (mem_cons.mp wake).imp (fun same => .inl (mem_singleton.mpr same)) .inl)
        (fun copy => (mem_cons.mp copy).imp (fun same => .inr (mem_singleton.mpr same)) .inr)
    rcases split with last | below
    · obtain rfl : t = u := by
        rcases last with wake | copy
        · exact congrArg Prod.fst (mem_singleton.mp wake)
        · exact congrArg Prod.fst (mem_singleton.mp copy)
      exact (here last).imp_left fun pending =>
        pending.imp (mem_append_left _) (mem_append_left _)
    · exact .inl below.append
  · rw [stack]
    exact .inl pending.append

/-! ## The loop of `copy_to_cooked` -/

def inner : Call → Bool
  | .frame .killing => true
  | .frame .killed => true
  | .frame .erased => true
  | .frame (.storing _) => true
  | _ => false

def Nested : List (UInt8 × Call) → Prop
  | [] => True
  | (t, call) :: rest => (inner call = true → (t, Call.frame .cooked) ∈ rest) ∧ Nested rest

theorem Nested.outer {call : Call} {rest : List (UInt8 × Call)} (nested : Nested rest) (outside : inner call = false) :
    Nested ((t, call) :: rest) :=
  ⟨fun inside => absurd (outside.symm.trans inside) Bool.false_ne_true, nested⟩

theorem Nested.begun {front rest : List (UInt8 × Call)} (nested : Nested rest)
    (begun : ∀ call ∈ front, call.2 = .frame .write ∨ call.2 = .frame .cooked) : Nested (front ++ rest) := by
  induction front with
  | nil => exact nested
  | cons call front ih =>
    have below := ih fun other member => begun other (mem_cons_of_mem _ member)
    rcases begun call mem_cons_self with write | cooked
    · exact below.outer (by rw [write]; rfl)
    · exact below.outer (by rw [cooked]; rfl)

theorem nested_echo {echo : List Frame} (writes : echo = [] ∨ echo = [.write]) {frames : List (UInt8 × Call)}
    (nested : Nested frames) : Nested (echo.map (fun f => (t, Call.frame f)) ++ frames) := by
  rcases writes with rfl | rfl
  · exact nested
  · exact nested.outer rfl

theorem rubOut_echo (tty : Tty) : tty.rubOut.2 = [] ∨ tty.rubOut.2 = [.write] := by
  rw [Tty.rubOut]
  split
  · exact .inr rfl
  · exact .inl rfl

theorem accept_echo (tty : Tty) (c : UInt8) : (tty.accept c).2 = [] ∨ (tty.accept c).2 = [.write] := by
  unfold Tty.accept
  dsimp only
  generalize (if tty.termios.ends c = true then { tty with data := tty.data + 1 } else tty) = counted
  split
  · exact .inr rfl
  · exact .inl rfl

theorem cooked_nested {tty : Tty} {rest : List (UInt8 × Call)} (nested : Nested rest) :
    Nested ((tty.cooked setup).2.map (fun f => (t, Call.frame f)) ++ rest) ∧
      ((t, Call.frame .cooked) ∈ (tty.cooked setup).2.map (fun f => (t, Call.frame f)) ∨ ends tty .cooked = true) := by
  have loop : Nested ((t, Call.frame .cooked) :: rest) := nested.outer rfl
  have member {frames : List Frame} (goesOn : Frame.cooked ∈ frames) :
      (t, Call.frame .cooked) ∈ frames.map (fun f => (t, Call.frame f)) := mem_map.mpr ⟨.cooked, goesOn, rfl⟩
  by_cases idle : (tty.readQ.ring.empty || tty.secondary.ring.full) = true
  · rw [Tty.cooked, if_pos idle]
    exact ⟨nested, .inr idle⟩
  rw [Tty.cooked, if_neg idle]
  dsimp only
  split
  case h_1 => exact ⟨loop, .inl (member (by simp))⟩
  case h_2 => exact ⟨loop, .inl (member (by simp))⟩
  case h_3 => exact ⟨⟨fun _ => mem_cons_self, loop⟩, .inl (member (by simp))⟩
  case h_4 =>
    split
    case isTrue =>
      refine ⟨?_, .inl (member (by simp))⟩
      rw [map_append, append_assoc]
      exact nested_echo (rubOut_echo _) ⟨fun _ => mem_cons_self, loop⟩
    case isFalse => exact ⟨loop, .inl (member (by simp))⟩
  case h_5 => exact ⟨loop.outer rfl, .inl (member (by simp))⟩
  case h_6 => exact ⟨loop.outer rfl, .inl (member (by simp))⟩
  case h_7 c _ =>
    refine ⟨?_, .inl (member (by simp))⟩
    rw [map_append, append_assoc]
    exact nested_echo (accept_echo _ c) ⟨fun _ => mem_cons_self, loop⟩

theorem nested_step {tty tty' : Tty} {frame : Frame} {frames : List Frame} {rest : List (UInt8 × Call)}
    (ran : tty.step setup frame = some (tty', frames)) (nested : Nested ((t, .frame frame) :: rest)) :
    Nested (frames.map (fun f => (t, Call.frame f)) ++ rest) := by
  cases frame with
  | cooked =>
    obtain rfl := congrArg Prod.snd (Option.some.inj ran)
    exact (cooked_nested nested.2).1
  | killing =>
    obtain rfl := congrArg Prod.snd (Option.some.inj ran)
    rw [Tty.killing]
    split
    case isTrue =>
      rw [map_append, append_assoc]
      exact nested_echo (rubOut_echo _) ⟨fun _ => nested.1 rfl, nested.2⟩
    case isFalse => exact nested.2
  | killed =>
    obtain rfl := congrArg Prod.snd (Option.some.inj ran)
    exact ⟨fun _ => nested.1 rfl, nested.2⟩
  | erased | storing c =>
    obtain rfl := congrArg Prod.snd (Option.some.inj ran)
    exact nested.2
  | conWrite nr =>
    obtain rfl : (tty.conWrite setup nr).2 = frames := congrArg Prod.snd (Option.some.inj ran)
    by_cases over_ : nr = 0 ∨ tty.stopped = true
    · rw [(ConsoleQueue.conWrite_ends setup over_).2.2]
      exact nested.2
    · obtain ⟨more, running⟩ := not_or.mp over_
      rw [Bool.not_eq_true] at running
      rcases (ConsoleQueue.conWrite_takes setup more running).2.2 with loop | loop
      · rw [loop]
        exact nested.2.outer rfl
      · rw [loop]
        exact (nested.2.outer rfl).outer rfl
  | write | ptyCopy => cases ran

theorem nested_drive {signal : Bool} {u : UInt8} {frame : Frame} {rest : List (UInt8 × Call)} (nested : Nested rest) :
    Nested (s.drive setup signal u frame rest).stack := by
  unfold State.drive
  split
  case h_1 => exact nested.outer rfl
  case h_2 => exact nested.outer rfl
  case h_3 =>
    rw [State.ptyCopy]
    dsimp only
    split
    case isTrue => exact (nested.outer rfl).outer rfl
    case isFalse =>
      split
      case isTrue => split <;> exact (nested.outer rfl).outer rfl
      case isFalse =>
        split
        case isTrue => exact (nested.outer rfl).outer rfl
        case isFalse => exact nested.outer rfl
  case h_4 => exact nested

theorem nested_of_step {m : ChrDrv.Move} (moved : s.step setup m = some (s', w)) (nested : Nested s.stack) :
    Nested s'.stack := by
  rcases step_stack moved with ⟨signal, u, call, rest, -, top, ran⟩ | ⟨⟨front, stack, begun⟩, -⟩
  · rw [top] at nested
    cases call with
    | wakeWriters =>
      obtain rfl := congrArg Prod.fst ran
      exact nested.2
    | frame frame =>
      unfold State.runCall at ran
      dsimp only at ran
      split at ran
      case h_1 tty frames stepped =>
        obtain rfl := congrArg Prod.fst ran
        exact nested_step stepped nested
      case h_2 =>
        obtain rfl := congrArg Prod.fst ran
        exact nested_drive nested.2
  · rw [stack]
    exact nested.begun begun

theorem cooked_step {m : ChrDrv.Move} (moved : s.step setup m = some (s', w)) (nested : Nested s.stack)
    (ptys : Ptys setup s.stack) (cooks : (t, Call.frame .cooked) ∈ s.stack) :
    (t, Call.frame .cooked) ∈ s'.stack ∨ (t, .secondary) ∈ w := by
  rcases step_stack moved with ⟨signal, u, call, rest, -, top, ran⟩ | ⟨⟨front, stack, -⟩, -⟩
  · rw [top] at nested cooks ptys
    rcases mem_cons.mp cooks with same | below
    · obtain ⟨rfl, rfl⟩ := Prod.mk.inj same
      obtain rfl := congrArg Prod.fst ran
      obtain rfl := congrArg Prod.snd ran
      have round : (t, Call.frame .cooked) ∈ ((s.ttys t).cooked setup).2.map (fun f => (t, Call.frame f)) ∨
          ends (s.ttys t) .cooked = true := (cooked_nested nested.2).2
      rcases round with goesOn | ended
      · exact .inl (mem_append_left _ goesOn)
      · exact .inr (by
          show (t, Which.secondary) ∈ wakes t .secondary (ends (s.ttys t) .cooked)
          rw [ended]
          exact mem_cons_self)
    · obtain ⟨front, stack, -⟩ := runCall_stack (s := s) signal rest
        (fun copy => ptys u (copy ▸ mem_cons_self) : call = .frame .ptyCopy → _)
      rw [ran] at stack
      rw [stack]
      exact .inl (mem_append_right _ below)
  · rw [stack]
    exact .inl (mem_append_right _ cooks)

theorem accept_secondary (tty : Tty) (c : UInt8) : (tty.accept c).1.secondary = tty.secondary := by
  have counted : (if tty.termios.ends c then { tty with data := tty.data + 1 } else tty).secondary = tty.secondary := by
    split <;> rfl
  unfold Tty.accept
  dsimp only
  generalize (if tty.termios.ends c = true then { tty with data := tty.data + 1 } else tty) = tty' at counted ⊢
  split <;> exact counted

theorem rubOut_secondary (tty : Tty) : tty.rubOut.1.secondary = tty.secondary := by
  rw [Tty.rubOut]
  split <;> rfl

theorem cooked_secondary (tty : Tty) : (tty.cooked setup).1.secondary = tty.secondary := by
  rw [Tty.cooked]
  split
  case isTrue => rfl
  case isFalse =>
    dsimp only
    split
    case h_4 =>
      split
      case isTrue => exact rubOut_secondary { tty with readQ := tty.readQ.get }
      case isFalse => rfl
    case h_7 c _ => exact accept_secondary { tty with readQ := tty.readQ.get } c
    all_goals rfl

theorem secondary_step {tty tty' : Tty} {frame : Frame} {frames : List Frame}
    (ran : tty.step setup frame = some (tty', frames)) :
    inner (.frame frame) = true ∨ tty'.secondary = tty.secondary := by
  cases frame with
  | cooked =>
    obtain rfl := congrArg Prod.fst (Option.some.inj ran)
    exact .inr (cooked_secondary tty)
  | conWrite nr =>
    obtain rfl : (tty.conWrite setup nr).1 = tty' := congrArg Prod.fst (Option.some.inj ran)
    rw [Tty.conWrite]
    split
    case isTrue => exact .inr rfl
    case isFalse =>
      dsimp only
      split <;> exact .inr rfl
  | killing | killed | erased | storing c => exact .inl rfl
  | write | ptyCopy => cases ran

theorem set_secondary {s : State} {u : UInt8} {tty : Tty} (same : tty.secondary = (s.ttys u).secondary) (t : UInt8) :
    ((s.set u tty).ttys t).secondary = (s.ttys t).secondary :=
  set_related (R := fun before after => after.secondary = before.secondary) (fun _ => rfl) same t

theorem drive_secondary {signal : Bool} {u : UInt8} {frame : Frame} {rest : List (UInt8 × Call)} (t : UInt8) :
    ((s.drive setup signal u frame rest).ttys t).secondary = (s.ttys t).secondary := by
  unfold State.drive
  split
  case h_3 =>
    rw [State.ptyCopy]
    dsimp only
    split
    case isTrue => rfl
    case isFalse =>
      split
      case isTrue => split <;> rfl
      case isFalse =>
        split
        case isTrue =>
          refine (set_secondary ?_ t).trans (set_secondary ?_ t)
          · rfl
          · rfl
        case isFalse =>
          refine (set_secondary ?_ t).trans (set_secondary ?_ t)
          · rfl
          · rfl
  all_goals rfl

theorem filled_of_step {m : ChrDrv.Move} (moved : s.step setup m = some (s', w)) (nested : Nested s.stack)
    (empty : (s.ttys t).secondary.ring.empty = true) (filled : (s'.ttys t).secondary.ring.empty = false) :
    (t, Call.frame .cooked) ∈ s'.stack := by
  have changed : (s'.ttys t).secondary ≠ (s.ttys t).secondary := fun same => by
    rw [same, empty] at filled
    cases filled
  rcases step_stack moved with ⟨signal, u, call, rest, -, top, ran⟩ | ⟨-, secondary⟩
  · rw [top] at nested
    cases call with
    | wakeWriters =>
      obtain rfl := congrArg Prod.fst ran
      exact absurd rfl changed
    | frame frame =>
      unfold State.runCall at ran
      dsimp only at ran
      split at ran
      case h_1 tty frames stepped =>
        obtain rfl := congrArg Prod.fst ran
        by_cases here : t = u
        · subst here
          have same : ((s.set t tty).ttys t).secondary = tty.secondary := by
            rw [State.set]
            dsimp only
            rw [update_self]
          rcases secondary_step stepped with inside | kept
          · exact mem_append_right _ (nested.1 inside)
          · exact absurd (same.trans kept) changed
        · refine absurd ?_ changed
          rw [State.set]
          dsimp only
          rw [update_of_ne here]
      case h_2 =>
        obtain rfl := congrArg Prod.fst ran
        exact absurd (drive_secondary t) changed
  · exact absurd (secondary t empty) changed

end Calls

end Linux012.ChrDrv.Wakeups

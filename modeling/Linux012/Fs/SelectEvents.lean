import Linux012.ChrDrv.Wakeups
import Linux012.Fs.Select

/-! The events that make the conditions of `select` true, and the queues that they wake. -/

set_option autoImplicit false

namespace Linux012.Fs.Select

open Transition RingBuffer
open ChrDrv (Setup Which Flow)
open ChrDrv.Wakeups (Call)
open Function (update update_self update_of_ne)

namespace Events

/-- Where a process is in `read_pipe` or `write_pipe`: at the top of the loop with `count` bytes to go,
or in its `sleep_on`. -/
inductive PipeCall (ι : Type) where
  | idle
  | reading (i : ι) (count : Nat)
  | readAsleep (i : ι) (count : Nat)
  | writing (i : ι) (count : Nat)
  | writeAsleep (i : ι) (count : Nat)
deriving DecidableEq

structure System (ι π : Type) where
  terminals : ChrDrv.Wakeups.State
  inode : ι → Inode
  fgConsole : UInt8
  calls : π → PipeCall ι

inductive Event (ι π : Type) where
  | tty (m : ChrDrv.Move)
  /-- calls of `read_pipe` and `write_pipe` -/
  | read (p : π) (i : ι) (count : Nat)
  | write (p : π) (i : ι) (count : Nat)
  /-- a round of the loop of such a call -/
  | pipe (p : π) (signal : Bool)
  /-- `iput` of one end of a pipe -/
  | close (i : ι)
  | changeConsole (console : UInt8)

/-- The queue on whose `proc_list` the terminal code calls `wake_up`. -/
def address {ι : Type} : UInt8 × Which → Option (Wait ι)
  | (t, .secondary) => some (.secondary t)
  | (t, .write) => some (.writeQ t)
  | (_, .read) => none

namespace System

variable {ι π : Type} [DecidableEq ι] [DecidableEq π] (setup : Setup) (s : System ι π)

def world : World ι := { inode := s.inode, tty := s.terminals.ttys, fgConsole := s.fgConsole }

def setCall (p : π) (call : PipeCall ι) : System ι π := { s with calls := update s.calls p call }
def setInode (i : ι) (inode : Inode) : System ι π := { s with inode := update s.inode i inode }

/-- A round of `read_pipe` or `write_pipe`, with the queues that are woken. -/
def pipeCall (p : π) (signal : Bool) : Option (System ι π × List (Wait ι)) :=
  match s.calls p with
  | .idle => none
  | .reading i count =>
    let inode := s.inode i
    if count = 0 then some (s.setCall p .idle, [.iWait2 i])
    else if inode.pipeSize = 0 then
      let waits := inode.count = 2 ∧ signal = false
      some (s.setCall p (if waits then .readAsleep i count else .idle), [.iWait2 i])
    else
      let chars := Pipe.State.chars (Pipe.PAGE_SIZE - inode.zone₁) count inode.pipeSize
      let inode := { inode with zone₁ := (inode.zone₁ + chars) &&& (Pipe.PAGE_SIZE - 1) }
      some ((s.setInode i inode).setCall p (.reading i (count - chars)), [])
  | .readAsleep i count => some (s.setCall p (.reading i count), [])
  | .writing i count =>
    let inode := s.inode i
    if count = 0 then some (s.setCall p .idle, [.iWait i])
    else if Pipe.PAGE_SIZE - 1 - inode.pipeSize = 0 then
      some (s.setCall p (if inode.count = 2 then .writeAsleep i count else .idle), [.iWait i])
    else
      let chars := Pipe.State.chars (Pipe.PAGE_SIZE - inode.zone₀) count (Pipe.PAGE_SIZE - 1 - inode.pipeSize)
      let inode := { inode with zone₀ := (inode.zone₀ + chars) &&& (Pipe.PAGE_SIZE - 1) }
      some ((s.setInode i inode).setCall p (.writing i (count - chars)), [])
  | .writeAsleep i count => some (s.setCall p (.writing i count), [])

def begin (p : π) (i : ι) (call : PipeCall ι) : Option (System ι π × List (Wait ι)) :=
  match s.calls p with
  | .idle => if (s.inode i).pipe then some (s.setCall p call, []) else none
  | _ => none

def close (i : ι) : Option (System ι π × List (Wait ι)) :=
  let inode := s.inode i
  if inode.pipe ∧ inode.count ≠ 0 then
    let inode := { inode with count := inode.count - 1, pipe := inode.count - 1 ≠ 0 }
    some (s.setInode i inode, [.iWait i, .iWait2 i])
  else none

def step : Event ι π → Option (System ι π × List (Wait ι))
  | .tty m =>
    (s.terminals.step setup m).map fun outcome =>
      ({ s with terminals := outcome.1 }, outcome.2.filterMap address)
  | .read p i count => s.begin p i (.reading i count)
  | .write p i count => s.begin p i (.writing i count)
  | .pipe p signal => s.pipeCall p signal
  | .close i => s.close i
  | .changeConsole console =>
    if console.toNat < setup.nrConsoles then some ({ s with fgConsole := console }, []) else some (s, [])

end System

/-- The system, and the selecting task: whether it sleeps in `do_select`, and the queue that it has joined
for each condition. `owed` are the conditions that became true while it slept and whose queue was not
woken since. -/
structure State (ι π : Type) where
  system : System ι π
  asleep : Bool
  joined : Fin NR_OPEN → Kind → Option (Wait ι)
  owed : Fin NR_OPEN → Kind → Bool

inductive Move (ι π : Type) where
  | event (e : Event ι π)
  /-- `check_in`, `check_out` or `check_ex` -/
  | check (fd : Fin NR_OPEN) (kind : Kind)
  | sleep
  /-- a signal or the timeout -/
  | interrupt
  | freeWait

namespace State

variable {ι π : Type} [DecidableEq ι] [DecidableEq π] (setup : Setup) (task : Task ι) (sets : Sets) (s : State ι π)

def woken (wakes : List (Wait ι)) : Bool :=
  (List.finRange NR_OPEN).any fun fd => [Kind.input, .output, .exception].any fun kind =>
    (s.joined fd kind).any fun q => wakes.contains q

def event (after : System ι π) (wakes : List (Wait ι)) : State ι π where
  system := after
  asleep := s.asleep && !s.woken wakes
  joined := s.joined
  owed fd kind :=
    let turns := s.asleep && !(s.system.world.check task fd kind).1 && (after.world.check task fd kind).1
    (s.joined fd kind).any fun q => (s.owed fd kind || turns) && !wakes.contains q

def keeps : Event ι π → Bool
  | .close i => (List.finRange NR_OPEN).all fun fd => task.filp fd ≠ some i || 2 ≤ (s.system.inode i).count
  | _ => true

def step : Move ι π → Option (State ι π)
  | .event e =>
    if s.keeps task e then (s.system.step setup e).map fun outcome => s.event task outcome.1 outcome.2 else none
  | .check fd kind =>
    if s.asleep = false ∧ sets fd kind = true then
      some
        { s with
          joined := update s.joined fd
            (update (s.joined fd) kind (s.system.world.check task fd kind).2)
          owed := update s.owed fd (update (s.owed fd) kind false) }
    else none
  | .sleep => if s.asleep = false then some { s with asleep := true } else none
  | .interrupt => some { s with asleep := false }
  | .freeWait =>
    if s.asleep = false then some { s with joined := fun _ _ => none, owed := fun _ _ => false } else none

end State

/-! ## The conditions and their queues -/

section Conditions

variable {ι : Type} (w : World ι) (task : Task ι)

def target (fd : Fin NR_OPEN) (kind : Kind) : Option (Wait ι) :=
  match task.filp fd with
  | none => none
  | some i =>
    match w.getTty task i with
    | some t =>
      match kind with
      | .input => some (.secondary t)
      | .output => some (.writeQ t)
      | .exception => none
    | none => if (w.inode i).pipe then some (.iWait i) else none

def holds (kind : Kind) : Wait ι → Bool
  | .secondary t => !(w.tty t).secondary.ring.empty
  | .writeQ t => !(w.tty t).writeQ.ring.full
  | .iWait i =>
    match kind with
    | .input => !(w.inode i).pipeEmpty
    | .output => !(w.inode i).pipeFull
    | .exception => (w.inode i).count < 2
  | .iWait2 _ => false

variable {w task} {fd : Fin NR_OPEN} {kind : Kind} {q : Wait ι}

theorem check_of_target (joins : target w task fd kind = some q) :
    w.check task fd kind = if holds w kind q then (true, none) else (false, some q) := by
  rw [target] at joins
  split at joins
  case h_1 => cases joins
  case h_2 i open_ =>
    rw [World.check, open_]
    dsimp only
    split at joins
    case h_1 t tty =>
      cases kind with
      | input =>
        obtain rfl := Option.some.inj joins
        simp only [World.checkIn, tty, holds, Bool.not_eq_true']
      | output =>
        obtain rfl := Option.some.inj joins
        simp only [World.checkOut, tty, holds, Bool.not_eq_true']
      | exception => cases joins
    case h_2 tty =>
      rw [Option.ite_none_right_eq_some] at joins
      obtain ⟨pipe, same⟩ := joins
      obtain rfl := Option.some.inj same
      cases kind with
      | input => simp only [World.checkIn, tty, pipe, holds, if_true, Bool.not_eq_true']
      | output => simp only [World.checkOut, tty, pipe, holds, if_true, Bool.not_eq_true']
      | exception => simp only [World.checkEx, tty, pipe, holds, if_true, decide_eq_true_eq]

theorem check_eq_holds (joins : target w task fd kind = some q) : (w.check task fd kind).1 = holds w kind q := by
  rw [check_of_target joins]
  cases holds w kind q with
  | false | true => rfl

theorem target_of_check (joins : (w.check task fd kind).2 = some q) : target w task fd kind = some q := by
  cases found : target w task fd kind with
  | some q' =>
    rw [check_of_target found] at joins
    split at joins
    · cases joins
    · exact joins
  | none =>
    rw [target] at found
    split at found
    case h_1 closed =>
      rw [World.check, closed] at joins
      cases joins
    case h_2 i open_ =>
      rw [World.check, open_] at joins
      dsimp only at joins
      split at found
      case h_1 t tty =>
        cases kind with
        | input | output => cases found
        | exception =>
          simp only [World.checkEx, tty, ite_self] at joins
          cases joins
      case h_2 tty =>
        have noPipe : (w.inode i).pipe = false := by
          rw [← Bool.not_eq_true]
          intro pipe
          rw [if_pos pipe] at found
          cases found
        cases kind <;> simp [World.checkIn, World.checkOut, World.checkEx, tty, noPipe] at joins

theorem target_congr {w' : World ι} (console : w'.fgConsole = w.fgConsole)
    (same : ∀ i, task.filp fd = some i → w'.inode i = w.inode i ∨
      (w'.inode i).isChr = false ∧ (w.inode i).isChr = false ∧ (w'.inode i).pipe = (w.inode i).pipe) :
    target w' task fd kind = target w task fd kind := by
  rw [target, target]
  cases open_ : task.filp fd with
  | none => rfl
  | some i =>
    dsimp only
    rcases same i open_ with same | ⟨noChr', noChr, pipe⟩
    · have tty : w'.getTty task i = w.getTty task i := by
        simp only [World.getTty, World.ttyTable, same, console]
      rw [tty, same]
    · have none' : w'.getTty task i = none := by simp only [World.getTty, noChr', if_true]
      have none_ : w.getTty task i = none := by simp only [World.getTty, noChr, if_true]
      rw [none', none_, pipe]

end Conditions

/-! ## Calls that will wake a queue -/

section Waking

variable {ι π : Type}

/-- A call is under way that wakes the queue before it returns or sleeps. -/
def Pending (s : System ι π) : Wait ι → Prop
  | .secondary t => (t, Call.frame .cooked) ∈ s.terminals.stack
  | .writeQ t => ChrDrv.Wakeups.Pending t s.terminals.stack
  | .iWait i => ∃ p count, s.calls p = .writing i count
  | .iWait2 _ => False

/-- Each condition that became true while the task slept has its queue woken, or will have when the call
that made it true is over. -/
def NoneMissed (s : State ι π) : Prop :=
  ∀ fd kind, s.owed fd kind = true → ∃ q, s.joined fd kind = some q ∧ Pending s.system q

theorem NoneMissed.of_quiet {s : State ι π} (noneMissed : NoneMissed s) (quiet : s.system.terminals.stack = [])
    (atRest : ∀ p i count, s.system.calls p ≠ .writing i count) (fd : Fin NR_OPEN) (kind : Kind) :
    s.owed fd kind = false := by
  rw [← Bool.not_eq_true]
  intro owed
  obtain ⟨q, -, pending⟩ := noneMissed fd kind owed
  cases q with
  | secondary t =>
    rw [Pending, quiet] at pending
    cases pending
  | writeQ t =>
    rw [Pending, quiet] at pending
    rcases pending with wake | copy
    · cases wake
    · cases copy
  | iWait i =>
    obtain ⟨p, count, writing⟩ := pending
    exact atRest p i count writing
  | iWait2 i => exact pending

/-- While the task sleeps on a full `write_q`, its bytes are taken by `pty_copy` only, it is not flushed, and
what is put into it without looking finds room; while it sleeps on a full pipe to be written, nobody reads
it; and the foreground console does not change while the task waits for it. -/
def Allowed (setup : Setup) (task : Task ι) (s : State ι π) : Move ι π → Prop
  | .event (.tty m) => ∀ fd kind t, s.asleep = true → s.joined fd kind = some (.writeQ t) →
      (s.system.terminals.ttys t).writeQ.ring.full = true →
      s.system.terminals.Room setup t m ∧ ChrDrv.Wakeups.flushed m ≠ some t ∧
        (s.system.terminals.taken setup m = some t →
          ∃ rest, s.system.terminals.stack = (t, .frame .ptyCopy) :: rest)
  | .event (.pipe p _) => ∀ fd i, s.asleep = true → s.joined fd .output = some (.iWait i) →
      (s.system.inode i).pipeFull = true → ∀ count, s.system.calls p ≠ .reading i (count + 1)
  | .event (.changeConsole console) => ∀ fd kind, s.joined fd kind ≠ none →
      target { s.system.world with fgConsole := console } task fd kind = target s.system.world task fd kind
  | _ => True

structure IsPipe (inode : Inode) : Prop where
  noChr : inode.isChr = false
  head : inode.zone₀ < Pipe.PAGE_SIZE
  tail : inode.zone₁ < Pipe.PAGE_SIZE

def PipeCall.on : PipeCall ι → Option ι
  | .idle => none
  | .reading i _ => some i
  | .readAsleep i _ => some i
  | .writing i _ => some i
  | .writeAsleep i _ => some i

structure Proper (setup : Setup) (s : System ι π) : Prop where
  nested : ChrDrv.Wakeups.Nested s.terminals.stack
  ptys : ChrDrv.Wakeups.Ptys setup s.terminals.stack
  pipes : ∀ i, (s.inode i).pipe = true → IsPipe (s.inode i)
  calls : ∀ p i, (s.calls p).on = some i → IsPipe (s.inode i)

/-- How an event changes an inode: `read_pipe` takes from what is there, `write_pipe` puts where there is room
and has the readers still to wake, and `iput` wakes them. -/
inductive Changes (s after : System ι π) (wakes : List (Wait ι)) (i : ι) : Event ι π → Prop where
  | same {e : Event ι π} (same : after.inode i = s.inode i) : Changes s after wakes i e
  | takes {p : π} {signal : Bool} (count zone : Nat) (calls : s.calls p = .reading i (count + 1))
      (some_ : (s.inode i).pipeSize ≠ 0) (below : zone < Pipe.PAGE_SIZE)
      (same : after.inode i = { s.inode i with zone₁ := zone }) : Changes s after wakes i (.pipe p signal)
  | puts {p : π} {signal : Bool} (count rest zone : Nat) (calls : s.calls p = .writing i count)
      (goesOn : after.calls p = .writing i rest) (room : (s.inode i).pipeSize ≠ Pipe.PAGE_SIZE - 1)
      (below : zone < Pipe.PAGE_SIZE) (same : after.inode i = { s.inode i with zone₀ := zone }) :
      Changes s after wakes i (.pipe p signal)
  | closes (pipe : (s.inode i).pipe = true) (woken : Wait.iWait i ∈ wakes)
      (same : after.inode i =
        { s.inode i with count := (s.inode i).count - 1, pipe := (s.inode i).count - 1 ≠ 0 }) :
      Changes s after wakes i (.close i)

theorem and_page_lt (n : Nat) : n &&& (Pipe.PAGE_SIZE - 1) < Pipe.PAGE_SIZE :=
  lt_of_le_of_lt Nat.and_le_right (by decide)

theorem IsPipe.pipeEmpty_iff {inode : Inode} (isPipe : IsPipe inode) : inode.pipeEmpty = true ↔ inode.pipeSize = 0 := by
  have head := isPipe.head
  have tail := isPipe.tail
  rw [Inode.pipeEmpty, decide_eq_true_iff, Inode.pipeSize]
  rw [Pipe.PAGE_SIZE] at head tail ⊢
  omega

section Inodes

variable {setup : Setup} {s after : System ι π} {wakes : List (Wait ι)} {e : Event ι π} {i : ι}

theorem Changes.isPipe (changes : Changes s after wakes i e) (isPipe : IsPipe (s.inode i)) :
    IsPipe (after.inode i) := by
  cases changes with
  | same same => exact same ▸ isPipe
  | takes count zone _ _ below same => exact same ▸ ⟨isPipe.noChr, isPipe.head, below⟩
  | puts count rest zone _ _ _ below same => exact same ▸ ⟨isPipe.noChr, below, isPipe.tail⟩
  | closes _ _ same => exact same ▸ ⟨isPipe.noChr, isPipe.head, isPipe.tail⟩

theorem Changes.same_or_isPipe (changes : Changes s after wakes i e) (proper : Proper setup s) :
    after.inode i = s.inode i ∨ IsPipe (s.inode i) := by
  cases changes with
  | same same => exact .inl same
  | @takes p _ count zone calls | @puts p _ count rest zone calls =>
    exact .inr (proper.calls p i (by rw [calls]; rfl))
  | closes pipe => exact .inr (proper.pipes i pipe)

theorem Changes.pipe (changes : Changes s after wakes i e) (held : e = .close i → 2 ≤ (s.inode i).count) :
    (after.inode i).pipe = (s.inode i).pipe := by
  cases changes with
  | same same | takes count zone _ _ _ same | puts count rest zone _ _ _ _ same => rw [same]
  | closes pipe _ same =>
    have several := held rfl
    rw [same, pipe]
    exact decide_eq_true (by omega)

end Inodes

variable {setup : Setup} {s after : System ι π} {wakes : List (Wait ι)} {e : Event ι π}

theorem setInode_changes [DecidableEq ι] {i : ι} {inode : Inode}
    (here : after.inode i = inode → Changes s after wakes i e)
    (set : after.inode = update s.inode i inode) (j : ι) : Changes s after wakes j e := by
  by_cases same : j = i
  · subst same
    exact here (by rw [set, update_self])
  · exact .same (by rw [set, update_of_ne same])

section SetCall

variable [DecidableEq π] {p : π} {call : PipeCall ι}

@[simp] theorem setCall_self (s : System ι π) : (s.setCall p call).calls p = call := update_self ..

theorem setCall_of_ne {q : π} (differ : q ≠ p) : (s.setCall p call).calls q = s.calls q :=
  update_of_ne differ ..

theorem begin_cases {i : ι} (began : s.begin p i call = some (after, wakes)) :
    s.calls p = .idle ∧ (s.inode i).pipe = true ∧ after = s.setCall p call := by
  rw [System.begin] at began
  split at began
  case h_1 idle =>
    rw [Option.ite_none_right_eq_some] at began
    exact ⟨idle, began.1, (congrArg Prod.fst (Option.some.inj began.2)).symm⟩
  case h_2 => cases began

end SetCall

variable [DecidableEq ι] [DecidableEq π]

/-- What an event makes of the system. A round of a call on a pipe goes to sleep or ends, after it has woken the
readers if it is one of `write_pipe`; or it takes bytes; or it puts some. -/
inductive Outcome (setup : Setup) (s : System ι π) (wakes : List (Wait ι)) : Event ι π → System ι π → Prop where
  | tty {m : ChrDrv.Move} (terminals : ChrDrv.Wakeups.State) (woken : List (UInt8 × Which))
      (ran : s.terminals.step setup m = some (terminals, woken)) (woke : wakes = woken.filterMap address) :
      Outcome setup s wakes (.tty m) { s with terminals }
  | begins {e : Event ι π} (p : π) (i : ι) (call : PipeCall ι) (idle : s.calls p = .idle)
      (pipe : (s.inode i).pipe = true) (on : call.on = some i) : Outcome setup s wakes e (s.setCall p call)
  | ends {p : π} {signal : Bool} (call : PipeCall ι) (on : call.on = none ∨ call.on = (s.calls p).on)
      (woken : ∀ i count, s.calls p = .writing i count → Wait.iWait i ∈ wakes) :
      Outcome setup s wakes (.pipe p signal) (s.setCall p call)
  | takes {p : π} {signal : Bool} (i : ι) (count rest zone : Nat) (calls : s.calls p = .reading i (count + 1))
      (some_ : (s.inode i).pipeSize ≠ 0) (below : zone < Pipe.PAGE_SIZE) :
      Outcome setup s wakes (.pipe p signal)
        ((s.setInode i { s.inode i with zone₁ := zone }).setCall p (.reading i rest))
  | puts {p : π} {signal : Bool} (i : ι) (count rest zone : Nat) (calls : s.calls p = .writing i count)
      (room : (s.inode i).pipeSize ≠ Pipe.PAGE_SIZE - 1) (below : zone < Pipe.PAGE_SIZE) :
      Outcome setup s wakes (.pipe p signal)
        ((s.setInode i { s.inode i with zone₀ := zone }).setCall p (.writing i rest))
  | closes (i : ι) (pipe : (s.inode i).pipe = true) (woken : Wait.iWait i ∈ wakes) :
      Outcome setup s wakes (.close i)
        (s.setInode i { s.inode i with count := (s.inode i).count - 1, pipe := (s.inode i).count - 1 ≠ 0 })
  | console (console : UInt8) : Outcome setup s wakes (.changeConsole console) { s with fgConsole := console }
  | noConsole (console : UInt8) : Outcome setup s wakes (.changeConsole console) s

theorem pipeCall_outcome {p : π} {signal : Bool} (ran : s.pipeCall p signal = some (after, wakes)) :
    Outcome setup s wakes (.pipe p signal) after := by
  rw [System.pipeCall] at ran
  split at ran
  case h_1 => cases ran
  case h_2 i count calls =>
    have noWriter {P : Prop} (j : ι) (n : Nat) (writes : s.calls p = .writing j n) : P := by
      rw [calls] at writes
      cases writes
    dsimp only at ran
    split at ran
    case isTrue =>
      obtain ⟨rfl, rfl⟩ := Prod.mk.inj (Option.some.inj ran)
      exact .ends _ (.inl rfl) fun j n writes => noWriter j n writes
    case isFalse more =>
      split at ran
      case isTrue =>
        obtain ⟨rfl, rfl⟩ := Prod.mk.inj (Option.some.inj ran)
        refine .ends _ ?_ fun j n writes => noWriter j n writes
        split
        · exact .inr (by rw [calls]; rfl)
        · exact .inl rfl
      case isFalse some_ =>
        obtain ⟨rfl, rfl⟩ := Prod.mk.inj (Option.some.inj ran)
        obtain ⟨n, rfl⟩ := Nat.exists_eq_succ_of_ne_zero more
        exact .takes i n _ _ calls some_ (and_page_lt _)
  case h_3 i count calls =>
    obtain ⟨rfl, rfl⟩ := Prod.mk.inj (Option.some.inj ran)
    refine .ends _ (.inr (by rw [calls]; rfl)) fun j n writes => ?_
    rw [calls] at writes
    cases writes
  case h_4 i count calls =>
    have readers (j : ι) (n : Nat) (writes : s.calls p = .writing j n) : Wait.iWait j ∈ [Wait.iWait i] := by
      rw [calls] at writes
      cases writes
      exact List.mem_cons_self
    dsimp only at ran
    split at ran
    case isTrue =>
      obtain ⟨rfl, rfl⟩ := Prod.mk.inj (Option.some.inj ran)
      exact .ends _ (.inl rfl) readers
    case isFalse =>
      split at ran
      case isTrue =>
        obtain ⟨rfl, rfl⟩ := Prod.mk.inj (Option.some.inj ran)
        refine .ends _ ?_ readers
        split
        · exact .inr (by rw [calls]; rfl)
        · exact .inl rfl
      case isFalse free =>
        obtain ⟨rfl, rfl⟩ := Prod.mk.inj (Option.some.inj ran)
        refine .puts i count _ _ calls (fun full => free ?_) (and_page_lt _)
        rw [full, Nat.sub_self]
  case h_5 i count calls =>
    obtain ⟨rfl, rfl⟩ := Prod.mk.inj (Option.some.inj ran)
    refine .ends _ (.inr (by rw [calls]; rfl)) fun j n writes => ?_
    rw [calls] at writes
    cases writes

theorem step_outcome (moved : s.step setup e = some (after, wakes)) : Outcome setup s wakes e after := by
  cases e with
  | tty m =>
    obtain ⟨outcome, ran, same⟩ := Option.map_eq_some_iff.mp moved
    obtain ⟨rfl, rfl⟩ := Prod.mk.inj same
    exact .tty outcome.1 outcome.2 ran rfl
  | read p i count | write p i count =>
    obtain ⟨idle, pipe, rfl⟩ := begin_cases moved
    exact .begins p i _ idle pipe rfl
  | pipe p signal => exact pipeCall_outcome moved
  | close i =>
    rw [System.step, System.close, Option.ite_none_right_eq_some] at moved
    obtain ⟨⟨pipe, -⟩, moved⟩ := moved
    obtain ⟨rfl, rfl⟩ := Prod.mk.inj (Option.some.inj moved)
    exact .closes i pipe List.mem_cons_self
  | changeConsole console =>
    rw [System.step] at moved
    split at moved
    · obtain ⟨rfl, rfl⟩ := Prod.mk.inj (Option.some.inj moved)
      exact .console console
    · obtain ⟨rfl, rfl⟩ := Prod.mk.inj (Option.some.inj moved)
      exact .noConsole console

theorem inode_step (moved : s.step setup e = some (after, wakes)) (i : ι) : Changes s after wakes i e := by
  cases step_outcome moved with
  | takes j count rest zone calls some_ below =>
    exact setInode_changes (.takes count zone calls some_ below) rfl i
  | puts j count rest zone calls room below =>
    exact setInode_changes (.puts count rest zone calls (setCall_self _) room below) rfl i
  | closes j pipe woken => exact setInode_changes (.closes pipe woken) rfl i
  | _ => exact .same rfl

theorem devices_step (moved : s.step setup e = some (after, wakes)) :
    (∃ m woken, e = .tty m ∧ s.terminals.step setup m = some (after.terminals, woken) ∧
        wakes = woken.filterMap address ∧ after.fgConsole = s.fgConsole) ∨
      (∃ console, e = .changeConsole console ∧ after = { s with fgConsole := console }) ∨
      after.terminals = s.terminals ∧ after.fgConsole = s.fgConsole := by
  cases step_outcome moved with
  | tty terminals woken ran woke => exact .inl ⟨_, woken, rfl, ran, woke, rfl⟩
  | console console => exact .inr (.inl ⟨console, rfl, rfl⟩)
  | _ => exact .inr (.inr ⟨rfl, rfl⟩)

theorem terminals_step (moved : s.step setup e = some (after, wakes)) :
    (∃ m woken, e = .tty m ∧ s.terminals.step setup m = some (after.terminals, woken) ∧
        wakes = woken.filterMap address) ∨
      after.terminals = s.terminals := by
  rcases devices_step moved with ⟨m, woken, event, ran, woke, -⟩ | ⟨console, -, rfl⟩ | ⟨same, -⟩
  · exact .inl ⟨m, woken, event, ran, woke⟩
  · exact .inr rfl
  · exact .inr same

theorem calls_step (moved : s.step setup e = some (after, wakes)) (p : π) :
    after.calls p = s.calls p ∨
      (s.calls p = .idle ∧ ∃ i, (s.inode i).pipe = true ∧ (after.calls p).on = some i) ∨
      ((after.calls p).on = none ∨ (after.calls p).on = (s.calls p).on) ∧
        ∀ i count, s.calls p = .writing i count → Wait.iWait i ∈ wakes ∨ ∃ rest, after.calls p = .writing i rest := by
  cases step_outcome moved with
  | begins q i call idle pipe on =>
    by_cases same : p = q
    · subst same
      exact .inr (.inl ⟨idle, i, pipe, by rw [setCall_self]; exact on⟩)
    · exact .inl (setCall_of_ne same)
  | @ends q signal call on woken =>
    by_cases same : p = q
    · subst same
      rw [setCall_self]
      exact .inr (.inr ⟨on, fun i count writes => .inl (woken i count writes)⟩)
    · exact .inl (setCall_of_ne same)
  | @takes q signal i count rest zone calls =>
    by_cases same : p = q
    · subst same
      rw [setCall_self, calls]
      exact .inr (.inr ⟨.inr rfl, fun j n writes => by cases writes⟩)
    · exact .inl (setCall_of_ne same)
  | @puts q signal i count rest zone calls =>
    by_cases same : p = q
    · subst same
      rw [setCall_self, calls]
      refine .inr (.inr ⟨.inr rfl, fun j n writes => .inr ⟨rest, ?_⟩⟩)
      obtain ⟨rfl, -⟩ := PipeCall.writing.inj writes
      rfl
    · exact .inl (setCall_of_ne same)
  | _ => exact .inl rfl

theorem Proper.step (proper : Proper setup s) (moved : s.step setup e = some (after, wakes)) : Proper setup after where
  nested := by
    rcases terminals_step moved with ⟨m, woken, -, ran, -⟩ | same
    · exact ChrDrv.Wakeups.nested_of_step ran proper.nested
    · exact same ▸ proper.nested
  ptys := by
    rcases terminals_step moved with ⟨m, woken, -, ran, -⟩ | same
    · exact ChrDrv.Wakeups.ptys_step ran proper.ptys
    · exact same ▸ proper.ptys
  pipes i pipe := by
    have changes := inode_step moved i
    rcases changes.same_or_isPipe proper with same | isPipe
    · exact changes.isPipe (proper.pipes i (same ▸ pipe))
    · exact changes.isPipe isPipe
  calls p i on := by
    refine (inode_step moved i).isPipe ?_
    rcases calls_step moved p with same | ⟨-, j, pipe, began⟩ | ⟨none_ | same, -⟩
    · exact proper.calls p i (same ▸ on)
    · obtain rfl : j = i := Option.some.inj (began.symm.trans on)
      exact proper.pipes j pipe
    · rw [none_] at on
      cases on
    · exact proper.calls p i (same ▸ on)

theorem pending_step (proper : Proper setup s) (moved : s.step setup e = some (after, wakes)) {q : Wait ι}
    (pending : Pending s q) : q ∈ wakes ∨ Pending after q := by
  cases q with
  | secondary t =>
    rcases terminals_step moved with ⟨m, woken, -, ran, rfl⟩ | same
    · refine (ChrDrv.Wakeups.cooked_step ran proper.nested proper.ptys pending).symm.imp_left fun member => ?_
      exact List.mem_filterMap.mpr ⟨_, member, rfl⟩
    · rw [Pending, same]
      exact .inr pending
  | writeQ t =>
    rcases terminals_step moved with ⟨m, woken, -, ran, rfl⟩ | same
    · refine (ChrDrv.Wakeups.pending_step ran proper.ptys pending).symm.imp_left fun member => ?_
      exact List.mem_filterMap.mpr ⟨_, member, rfl⟩
    · rw [Pending, same]
      exact .inr pending
  | iWait i =>
    obtain ⟨p, count, writing⟩ := pending
    rcases calls_step moved p with same | ⟨idle, -⟩ | ⟨-, wakes⟩
    · exact .inr ⟨p, count, same.trans writing⟩
    · rw [idle] at writing
      cases writing
    · exact (wakes i count writing).imp_right fun ⟨rest, goesOn⟩ => ⟨p, rest, goesOn⟩
  | iWait2 i => exact pending.elim

variable {fd : Fin NR_OPEN} {kind : Kind} {task : Task ι}

theorem target_step {s : State ι π} (proper : Proper setup s.system) (kept : s.keeps task e = true)
    (moved : s.system.step setup e = some (after, wakes)) (allowed : Allowed setup task s (.event e))
    (joined : s.joined fd kind ≠ none) :
    target after.world task fd kind = target s.system.world task fd kind := by
  have inodes (i : ι) (held : task.filp fd = some i) : after.world.inode i = s.system.world.inode i ∨
      (after.world.inode i).isChr = false ∧ (s.system.world.inode i).isChr = false ∧
        (after.world.inode i).pipe = (s.system.world.inode i).pipe := by
    have changes := inode_step moved i
    refine (changes.same_or_isPipe proper).imp_right fun isPipe => ?_
    refine ⟨(changes.isPipe isPipe).noChr, isPipe.noChr, changes.pipe ?_⟩
    rintro rfl
    rw [State.keeps, List.all_eq_true] at kept
    have several := kept fd (List.mem_finRange fd)
    rw [Bool.or_eq_true, decide_eq_true_iff, decide_eq_true_iff] at several
    exact several.resolve_left fun other => other held
  rcases devices_step moved with ⟨-, -, -, -, -, console⟩ | ⟨console, rfl, rfl⟩ | ⟨-, console⟩
  · exact target_congr console inodes
  · exact allowed fd kind joined
  · exact target_congr console inodes

theorem holds_step {q : Wait ι} {s : State ι π} (proper : Proper setup s.system)
    (moved : s.system.step setup e = some (after, wakes)) (allowed : Allowed setup task s (.event e))
    (asleep : s.asleep = true) (joined : s.joined fd kind = some q)
    (before : holds s.system.world kind q = false) (now : holds after.world kind q = true) :
    q ∈ wakes ∨ Pending after q := by
  cases q with
  | secondary t =>
    rw [holds, Bool.not_eq_false'] at before
    rw [holds, Bool.not_eq_true'] at now
    rcases terminals_step moved with ⟨m, woken, rfl, ran, -⟩ | same
    · exact .inr (ChrDrv.Wakeups.filled_of_step ran proper.nested before now)
    · rw [System.world, same] at now
      exact absurd (before.symm.trans now) (by decide)
  | writeQ t =>
    rw [holds, Bool.not_eq_false'] at before
    rw [holds, Bool.not_eq_true'] at now
    rcases terminals_step moved with ⟨m, woken, rfl, ran, rfl⟩ | same
    · obtain ⟨room, noFlush, copies⟩ := allowed fd kind t asleep joined before
      rcases ChrDrv.Wakeups.full_of_step ran room before with full | taken | flushed
      · exact absurd (full.symm.trans now) (by decide)
      · obtain ⟨rest, top⟩ := copies taken
        have copying : Pending s.system (.writeQ t) := .inr (top ▸ List.mem_cons_self)
        exact pending_step proper moved copying
      · exact absurd flushed noFlush
    · rw [System.world, same] at now
      exact absurd (before.symm.trans now) (by decide)
  | iWait i =>
    have changes := inode_step moved i
    have unchanged (same : holds after.world kind (.iWait i) = holds s.system.world kind (.iWait i)) :
        Wait.iWait i ∈ wakes ∨ Pending after (.iWait i) := by
      rw [same, before] at now
      cases now
    cases changes with
    | same same =>
      have same : after.world.inode i = s.system.world.inode i := same
      exact unchanged (by cases kind <;> rw [holds, holds, same])
    | takes count zone calls some_ below same =>
      cases kind with
      | input =>
        rw [holds, Bool.not_eq_false'] at before
        have isPipe := proper.calls _ i (by rw [calls]; rfl)
        exact absurd (isPipe.pipeEmpty_iff.mp before) some_
      | output =>
        rw [holds, Bool.not_eq_false'] at before
        exact absurd calls (allowed fd i asleep joined before count)
      | exception =>
        have same : after.world.inode i = { s.system.world.inode i with zone₁ := zone } := same
        exact unchanged (by rw [holds, holds, same])
    | puts count rest zone calls goesOn => exact .inr ⟨_, rest, goesOn⟩
    | closes pipe woken => exact .inl woken
  | iWait2 i => cases now

theorem update_apply {α : Type} {f : Fin NR_OPEN → Kind → α} {fd' : Fin NR_OPEN} {kind' : Kind} {a : α} :
    update f fd (update (f fd) kind a) fd' kind' =
      if fd' = fd ∧ kind' = kind then a else f fd' kind' := by
  by_cases sameFd : fd' = fd
  · subst sameFd
    rw [update_self, Function.update_apply]
    simp only [true_and]
  · rw [update_of_ne sameFd, if_neg fun both => sameFd both.1]

/-- The state between two moves: the queues that are joined are those of the conditions. -/
structure Sound (setup : Setup) (task : Task ι) (s : State ι π) : Prop where
  proper : Proper setup s.system
  joined : ∀ fd kind q, s.joined fd kind = some q → target s.system.world task fd kind = some q
  noneMissed : NoneMissed s

theorem Sound.event {task : Task ι} {s : State ι π} (sound : Sound setup task s) (kept : s.keeps task e = true)
    (moved : s.system.step setup e = some (after, wakes)) (allowed : Allowed setup task s (.event e)) :
    Sound setup task (s.event task after wakes) where
  proper := sound.proper.step moved
  joined fd kind q (joined : s.joined fd kind = some q) := by
    have stays : target after.world task fd kind = target s.system.world task fd kind :=
      target_step sound.proper kept moved allowed (ne_of_eq_of_ne joined (Option.some_ne_none q))
    exact stays.trans (sound.joined fd kind q joined)
  noneMissed fd kind owed := by
    obtain ⟨q, joined, owes⟩ := (Option.any_eq_true _ _).mp owed
    rw [Bool.and_eq_true, Bool.or_eq_true, Bool.not_eq_true', ← Bool.not_eq_true, List.contains_iff_mem] at owes
    obtain ⟨owes, asleep⟩ := owes
    refine ⟨q, joined, Or.resolve_left ?_ asleep⟩
    rcases owes with before | turns
    · obtain ⟨q', joined', pending⟩ := sound.noneMissed fd kind before
      obtain rfl : q' = q := Option.some.inj (joined'.symm.trans joined)
      exact pending_step sound.proper moved pending
    · rw [Bool.and_eq_true, Bool.and_eq_true, Bool.not_eq_true'] at turns
      obtain ⟨⟨sleeps, before⟩, now⟩ := turns
      have queue := sound.joined fd kind q joined
      have stays : target after.world task fd kind = target s.system.world task fd kind :=
        target_step sound.proper kept moved allowed (ne_of_eq_of_ne joined (Option.some_ne_none q))
      rw [check_eq_holds queue] at before
      rw [check_eq_holds (stays.trans queue)] at now
      exact holds_step sound.proper moved allowed sleeps joined before now

omit [DecidableEq ι] [DecidableEq π] in
theorem Sound.check {s : State ι π} (sound : Sound setup task s) (fd : Fin NR_OPEN) (kind : Kind) :
    Sound setup task
      { s with
        joined := update s.joined fd
          (update (s.joined fd) kind (s.system.world.check task fd kind).2)
        owed := update s.owed fd (update (s.owed fd) kind false) } where
  proper := sound.proper
  joined fd' kind' q joined := by
    dsimp only at joined
    rw [update_apply] at joined
    split at joined
    case isTrue here =>
      obtain ⟨rfl, rfl⟩ := here
      exact target_of_check joined
    case isFalse => exact sound.joined fd' kind' q joined
  noneMissed fd' kind' owed := by
    dsimp only at owed ⊢
    rw [update_apply] at owed ⊢
    split at owed
    case isTrue => cases owed
    case isFalse other =>
      rw [if_neg other]
      exact sound.noneMissed fd' kind' owed

theorem Sound.step {task : Task ι} {sets : Sets} {s s' : State ι π} {m : Move ι π} (sound : Sound setup task s)
    (allowed : Allowed setup task s m) (moved : s.step setup task sets m = some s') : Sound setup task s' := by
  cases m with
  | event e =>
    rw [State.step, Option.ite_none_right_eq_some] at moved
    obtain ⟨kept, moved⟩ := moved
    obtain ⟨outcome, ran, rfl⟩ := Option.map_eq_some_iff.mp moved
    exact sound.event kept ran allowed
  | check fd kind =>
    rw [State.step, Option.ite_none_right_eq_some] at moved
    obtain rfl := Option.some.inj moved.2
    exact sound.check fd kind
  | sleep =>
    rw [State.step, Option.ite_none_right_eq_some] at moved
    obtain rfl := Option.some.inj moved.2
    exact ⟨sound.proper, sound.joined, sound.noneMissed⟩
  | interrupt =>
    obtain rfl := Option.some.inj moved
    exact ⟨sound.proper, sound.joined, sound.noneMissed⟩
  | freeWait =>
    rw [State.step, Option.ite_none_right_eq_some] at moved
    obtain rfl := Option.some.inj moved.2
    refine ⟨sound.proper, fun fd kind q joined => ?_, fun fd kind owed => ?_⟩
    · cases joined
    · cases owed

omit [DecidableEq ι] [DecidableEq π] in
theorem allowed_pipe {s : State ι π} {p : π} {signal : Bool} (none_ : ∀ fd, s.joined fd .output = none) :
    Allowed setup task s (.event (.pipe p signal)) := by
  intro fd i _ joined
  rw [none_ fd] at joined
  cases joined

structure AtRest (s : State ι π) : Prop where
  quiet : s.system.terminals.stack = []
  idle : ∀ p, s.system.calls p = .idle
  pipes : ∀ i, (s.system.inode i).pipe = true → IsPipe (s.system.inode i)
  joined : ∀ fd kind, s.joined fd kind = none
  owed : ∀ fd kind, s.owed fd kind = false

omit [DecidableEq ι] [DecidableEq π] in
theorem AtRest.sound {s : State ι π} (atRest : AtRest s) : Sound setup task s where
  proper :=
    { nested := atRest.quiet ▸ trivial
      ptys := atRest.quiet ▸ ChrDrv.Wakeups.ptys_nil
      pipes := atRest.pipes
      calls := fun p i on => by
        rw [atRest.idle p] at on
        cases on }
  joined fd kind q joined := by
    rw [atRest.joined fd kind] at joined
    cases joined
  noneMissed fd kind owed := by
    rw [atRest.owed fd kind] at owed
    cases owed

/-- As long as the task does not sleep on a full queue, or on a full pipe, that is emptied by whom does not wake
it, every condition that becomes true while it sleeps has its queue woken. -/
theorem noneMissed_of_run {task : Task ι} {sets : Sets} {start s : State ι π} (atRest : AtRest start)
    (ran : Run (State.step setup task sets) (fun s m => Allowed setup task s m) start s) : NoneMissed s :=
  (ran.invariant (fun sound allowed moved => sound.step allowed moved) atRest.sound).noneMissed

end Waking

def onPipe (bytes : Nat) : State Unit Unit where
  system :=
    { terminals := { ttys := (ChrDrv.colour.ttyInit fun _ => 0).ttys, crFlag := false, stack := [] }
      inode := fun _ => { mode := 0, pipe := true, zone₀ := bytes, zone₁ := 0, count := 2 }
      fgConsole := 0
      calls := fun _ => .idle }
  asleep := false
  joined := fun _ _ => none
  owed := fun _ _ => false

theorem first_lt : 0 < NR_OPEN := by decide

def first : Fin NR_OPEN := ⟨0, first_lt⟩

def oneEnd : Task Unit where
  tty := 0
  filp fd := if fd = first then some () else none

def only (kind : Kind) : Sets := fun fd k => fd = first && k = kind

theorem atRest_onPipe {bytes : Nat} (below : bytes < Pipe.PAGE_SIZE) : AtRest (onPipe bytes) where
  quiet := rfl
  idle _ := rfl
  pipes _ _ := { noChr := show decide ((0 : BitVec 16) &&& 0o170000 = 0o020000) = false by decide
                 head := below
                 tail := show 0 < Pipe.PAGE_SIZE by decide }
  joined _ _ := rfl
  owed _ _ := rfl

theorem written_noneMissed :
    ∃ s, Run (State.step (ChrDrv.colour.setup id id) oneEnd (only .input))
        (fun s m => Allowed (ChrDrv.colour.setup id id) oneEnd s m) (onPipe 0) s ∧
      s.asleep = false ∧ NoneMissed s := by
  have asleep : Run (State.step (ChrDrv.colour.setup id id) oneEnd (only .input))
      (fun s m => Allowed (ChrDrv.colour.setup id id) oneEnd s m) (onPipe 0) _ :=
    .move (m := .event (.write () () 1))
      (.move (m := .sleep) (.move (m := .check first .input) .start trivial rfl) trivial rfl) trivial rfl
  have written := Run.move (m := .event (.pipe () false)) asleep (allowed_pipe (by decide)) rfl
  have woken := Run.move (m := .event (.pipe () false)) written (allowed_pipe (by decide)) rfl
  exact ⟨_, woken, rfl, noneMissed_of_run (atRest_onPipe (by decide)) woken⟩

/-- The task waits for room in a full pipe, and a byte is read: only the queue of the writers is woken. -/
theorem read_missed :
    ∃ s, Reachable (State.step (ChrDrv.colour.setup id id) oneEnd (only .output)) (onPipe (Pipe.PAGE_SIZE - 1)) s ∧
      ¬NoneMissed s := by
  have moves : ∃ s, run (State.step (ChrDrv.colour.setup id id) oneEnd (only .output)) (onPipe (Pipe.PAGE_SIZE - 1))
      [.check first .output, .sleep, .event (.read () () 1), .event (.pipe () false), .event (.pipe () false)] = some s ∧
      (s.system.terminals.stack.isEmpty = true ∧ s.system.calls () = .idle ∧ s.owed first .output = true) :=
    exists_of_run _ _ _ _ (by decide +kernel)
  obtain ⟨s, ran, quiet, idle, owed⟩ := moves
  refine ⟨s, reachable_of_run ran, fun noneMissed => ?_⟩
  have woken := noneMissed.of_quiet (List.isEmpty_iff.mp quiet) (fun _ i count writing => ?_) first .output
  · exact Bool.false_ne_true (woken.symm.trans owed)
  · cases idle.symm.trans writing

end Events

end Linux012.Fs.Select

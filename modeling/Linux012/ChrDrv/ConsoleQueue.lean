import Linux012.ChrDrv.TtyRings

/-! `con_write` of `kernel/chr_drv/console.c`, which can be called again by `respond`, and by the
keyboard interrupt, before it has returned. -/

set_option autoImplicit false

namespace Linux012.ChrDrv

open Transition RingBuffer List

namespace Tty

variable (setup : Setup) (tty : Tty)

def echoes : Frame → List UInt8
  | .cooked =>
    if tty.readQ.ring.empty || tty.secondary.ring.full then []
    else if tty.termios.echo then
      match tty.termios.action setup (tty.readQ.ring.buf tty.readQ.ring.tail) with
      | .erase => if tty.erasable then Termios.rubout tty.secondary.ring.last else []
      | .store c => tty.termios.echoed c
      | _ => []
    else []
  | .killing => if tty.erasable && tty.termios.echo then Termios.rubout tty.secondary.ring.last else []
  | _ => []

end Tty

namespace ConsoleQueue

/-- A console with the calls under way, last called first. `put` and `taken` are the bytes that went
into `write_q` and out of it since the start, and `underrun` is set by a `GETCH` on an empty queue. -/
structure State where
  tty : Tty
  stack : List Frame
  put : List UInt8
  taken : List UInt8
  underrun : Bool

inductive Move where
  | run
  /-- `do_tty_interrupt`, after `put_queue` -/
  | interrupt (cs : List UInt8)
  /-- a round of the loop of `tty_write` -/
  | ttyWrite (crFlag : Bool) (cs : List UInt8)

namespace State

variable (setup : Setup) (s : State)

def takes : Frame → Bool
  | .conWrite nr => nr ≠ 0 && !s.tty.stopped
  | _ => false

def runFrame (frame : Frame) (rest : List Frame) : Option State :=
  match s.tty.step setup frame with
  | some (tty, frames) =>
    some
      { tty := tty
        stack := frames ++ rest
        put := s.put ++ s.tty.echoes setup frame
        taken := if s.takes frame then s.taken ++ [s.tty.writeQ.ring.buf s.tty.writeQ.ring.tail] else s.taken
        underrun := s.underrun || (s.takes frame && s.tty.writeQ.ring.empty) }
  | none =>
    match frame with
    | .write => some { s with stack := .conWrite s.tty.writeQ.ring.chars :: rest }
    | _ => none

/-- Interrupts come between two rounds of the loop of `con_write`, or when there is no call. -/
def interruptible : Bool :=
  match s.stack with
  | [] => true
  | .conWrite _ :: _ => true
  | _ => false

def step : Move → Option State
  | .run =>
    match s.stack with
    | [] => none
    | frame :: rest => s.runFrame setup frame rest
  | .interrupt cs =>
    if s.interruptible then
      some { s with tty := { s.tty with readQ := s.tty.readQ.offer cs }, stack := .cooked :: s.stack }
    else none
  | .ttyWrite crFlag cs =>
    if s.stack = [] then
      let filled := Tty.fill setup cs crFlag s.tty
      some
        { s with
          tty := filled.2
          stack := [.write]
          put := s.put ++ filled.2.writeQ.contents.drop s.tty.writeQ.ring.chars }
    else none

def InOrder (queued : List UInt8) : Prop :=
  queued ++ s.put = s.taken ++ s.tty.writeQ.contents ∧ s.underrun = false

/-- `con_write` is not called while a call of it that goes on has counted bytes, and an echo finds
room. -/
def FrameAllowed (rest : List Frame) : Frame → Prop
  | .write => s.tty.stopped = true ∨ ∀ nr, Frame.conWrite nr ∈ rest → nr = 0
  | frame => (s.tty.echoes setup frame).length ≤ s.tty.writeQ.ring.left

def Allowed : Move → Prop
  | .run => ∀ frame rest, s.stack = frame :: rest → s.FrameAllowed setup rest frame
  | _ => True

def called (tty : Tty) : State where
  tty := tty
  stack := [.write]
  put := []
  taken := []
  underrun := false

end State

/-! ## One step of a call -/

section Step

variable {setup : Setup} {tty tty' : Tty} {frame : Frame} {frames : List Frame}

def calls (echo : Bool) : List Frame := if echo then [.write] else []

theorem rubOut_spec (tty : Tty) :
    tty.rubOut.1.writeQ = tty.writeQ.putAll (if tty.termios.echo then Termios.rubout tty.secondary.ring.last else []) ∧
      tty.rubOut.1.stopped = tty.stopped ∧ tty.rubOut.2 = calls tty.termios.echo := by
  rw [Tty.rubOut, calls]
  split <;> exact ⟨rfl, rfl, rfl⟩

theorem accept_spec (tty : Tty) (c : UInt8) :
    (tty.accept c).1.writeQ = tty.writeQ.putAll (if tty.termios.echo then tty.termios.echoed c else []) ∧
      (tty.accept c).1.stopped = tty.stopped ∧ (tty.accept c).2 = calls tty.termios.echo := by
  rw [Tty.accept, calls]
  split <;> split <;> exact ⟨rfl, rfl, rfl⟩

/-- A frame of `copy_to_cooked`. -/
def Cooking : Frame → Prop
  | .write => False
  | .conWrite _ => False
  | .ptyCopy => False
  | _ => True

/-- A step of `copy_to_cooked`: the echo, and then perhaps a call of the driver. -/
structure Cooks (setup : Setup) (tty tty' : Tty) (frame : Frame) (frames : List Frame) : Prop where
  writeQ : tty'.writeQ = tty.writeQ.putAll (tty.echoes setup frame)
  frames : ∃ call rest, frames = calls call ++ rest ∧ (call = true ∨ tty'.stopped = tty.stopped) ∧ ∀ f ∈ rest, Cooking f

theorem Cooks.quiet (echoes : tty.echoes setup frame = []) (same : tty'.writeQ = tty.writeQ)
    (stopped : tty'.stopped = tty.stopped) (cooking : ∀ f ∈ frames, Cooking f) : Cooks setup tty tty' frame frames := by
  refine ⟨?_, false, frames, rfl, .inr stopped, cooking⟩
  rw [echoes, same]
  rfl

theorem cooked_cooks : Cooks setup tty (tty.cooked setup).1 .cooked (tty.cooked setup).2 := by
  by_cases idle : (tty.readQ.ring.empty || tty.secondary.ring.full) = true
  · rw [Tty.cooked, if_pos idle]
    exact .quiet (by rw [Tty.echoes, if_pos idle]) rfl rfl (by simp)
  · rw [Tty.cooked, if_neg idle]
    dsimp only
    have echoes : tty.echoes setup .cooked =
        if tty.termios.echo then
          match tty.termios.action setup (tty.readQ.ring.buf tty.readQ.ring.tail) with
          | .erase => if tty.erasable then Termios.rubout tty.secondary.ring.last else []
          | .store c => tty.termios.echoed c
          | _ => []
        else [] := by rw [Tty.echoes, if_neg idle]
    cases action : tty.termios.action setup (tty.readQ.ring.buf tty.readQ.ring.tail) with
    | ignore | signal | kill =>
      rw [action] at echoes
      exact .quiet (echoes.trans (ite_self _)) rfl rfl (by simp [Cooking])
    | stop | start =>
      rw [action] at echoes
      refine ⟨?_, true, [.cooked], rfl, .inl rfl, by simp [Cooking]⟩
      rw [echoes]
      dsimp only
      rw [ite_self]
      rfl
    | erase =>
      rw [action] at echoes
      dsimp only at echoes ⊢
      by_cases erasable : tty.erasable = true
      · have erasable' : ({ tty with readQ := tty.readQ.get } : Tty).erasable = true := erasable
        obtain ⟨writeQ, stopped, frames⟩ := rubOut_spec { tty with readQ := tty.readQ.get }
        rw [if_pos erasable', frames]
        rw [if_pos erasable] at echoes
        exact ⟨by rw [writeQ, echoes], _, [.erased, .cooked], rfl, .inr stopped, by simp [Cooking]⟩
      · have erasable' : ¬({ tty with readQ := tty.readQ.get } : Tty).erasable = true := erasable
        rw [if_neg erasable']
        rw [if_neg erasable, ite_self] at echoes
        exact .quiet echoes rfl rfl (by simp [Cooking])
    | store c =>
      rw [action] at echoes
      dsimp only at echoes ⊢
      obtain ⟨writeQ, stopped, frames⟩ := accept_spec { tty with readQ := tty.readQ.get } c
      rw [frames]
      exact ⟨by rw [writeQ, echoes], _, [.storing c, .cooked], rfl, .inr stopped, by simp [Cooking]⟩

theorem killing_cooks : Cooks setup tty tty.killing.1 .killing tty.killing.2 := by
  rw [Tty.killing]
  by_cases erasable : tty.erasable = true
  · obtain ⟨writeQ, stopped, frames⟩ := rubOut_spec tty
    rw [if_pos erasable, frames]
    refine ⟨?_, _, [.killed], rfl, .inr stopped, by simp [Cooking]⟩
    rw [writeQ, Tty.echoes, erasable, Bool.true_and]
  · rw [if_neg erasable]
    exact .quiet (by rw [Tty.echoes, Bool.eq_false_of_not_eq_true erasable]; rfl) rfl rfl (by simp)

theorem step_cases (ran : tty.step setup frame = some (tty', frames)) :
    Cooking frame ∧ Cooks setup tty tty' frame frames ∨
      ∃ nr, frame = .conWrite nr ∧ (tty', frames) = tty.conWrite setup nr := by
  cases frame with
  | cooked =>
    have both : tty.cooked setup = (tty', frames) := Option.some.inj ran
    have cooks : Cooks setup tty (tty.cooked setup).1 .cooked (tty.cooked setup).2 := cooked_cooks
    rw [both] at cooks
    exact .inl ⟨trivial, cooks⟩
  | killing =>
    have both : tty.killing = (tty', frames) := Option.some.inj ran
    have cooks : Cooks setup tty tty.killing.1 .killing tty.killing.2 := killing_cooks
    rw [both] at cooks
    exact .inl ⟨trivial, cooks⟩
  | killed =>
    obtain ⟨rfl, rfl⟩ := Prod.mk.inj (Option.some.inj ran)
    exact .inl ⟨trivial, .quiet rfl rfl rfl (by simp [Cooking])⟩
  | erased | storing c =>
    obtain ⟨rfl, rfl⟩ := Prod.mk.inj (Option.some.inj ran)
    exact .inl ⟨trivial, .quiet rfl rfl rfl (by simp)⟩
  | conWrite nr => exact .inr ⟨nr, rfl, (Option.some.inj ran).symm⟩
  | write | ptyCopy => cases ran

theorem conWrite_takes (setup : Setup) {nr : Nat} (more : nr ≠ 0) (running : tty.stopped = false) :
    (tty.conWrite setup nr).1.writeQ = tty.writeQ.get ∧ (tty.conWrite setup nr).1.stopped = false ∧
      ((tty.conWrite setup nr).2 = [.conWrite (nr - 1)] ∨
        (tty.conWrite setup nr).2 = [.cooked, .conWrite (nr - 1)]) := by
  rw [Tty.conWrite, if_neg (by simp [more, running])]
  dsimp only
  split
  · exact ⟨rfl, running, .inr rfl⟩
  · exact ⟨rfl, running, .inl rfl⟩

theorem conWrite_ends (setup : Setup) {nr : Nat} (ends : nr = 0 ∨ tty.stopped = true) :
    (tty.conWrite setup nr).1.writeQ = tty.writeQ ∧ (tty.conWrite setup nr).1.stopped = tty.stopped ∧
      (tty.conWrite setup nr).2 = [] := by
  rw [Tty.conWrite, if_pos ends]
  exact ⟨rfl, rfl, rfl⟩

end Step

/-! ## The calls under way -/

def counted : Frame → Nat
  | .conWrite nr => nr
  | _ => 0

theorem counted_of_cooking {frame : Frame} (cooking : Cooking frame) : counted frame = 0 := by
  cases frame with
  | conWrite nr => cases cooking
  | _ => rfl

theorem ne_write_of_cooking {frame : Frame} (cooking : Cooking frame) : frame ≠ .write := by
  rintro rfl
  exact cooking

def Apart (f g : Frame) : Prop := counted f = 0 ∨ counted g = 0

/-- What the calls have counted is there, and unless the console is stopped only one of them has
counted bytes, but for a call that is just being made. -/
structure Orderly (queued : List UInt8) (s : State) : Prop where
  inOrder : s.InOrder queued
  enough : ∀ f ∈ s.stack, counted f ≤ s.tty.writeQ.ring.chars
  writes : ∀ f ∈ s.stack.tail, f ≠ .write
  single : s.tty.stopped = true ∨ s.stack.head? = some .write ∨ s.stack.Pairwise Apart

section Invariant

variable {setup : Setup} {queued : List UInt8} {s s' : State} {rest : List Frame}

theorem chars_putAll {q : Queue} {cs : List UInt8} (room : cs.length ≤ q.ring.left) :
    (q.putAll cs).ring.chars = q.ring.chars + cs.length := by
  have contents := congrArg List.length (Watched.contents_putAll room)
  rw [length_append] at contents
  rwa [← Ring.length_contents, ← Ring.length_contents]

theorem pairwise_of_uncounted {frames : List Frame} (none_ : ∀ f ∈ frames, counted f = 0) : frames.Pairwise Apart :=
  pairwise_of_forall_mem_list fun f member _ _ => .inl (none_ f member)

variable {frame : Frame}

theorem Orderly.cooks (orderly : Orderly queued s) {frames : List Frame} {tty : Tty}
    (top : s.stack = frame :: rest) (cooking : Cooking frame) (cooks : Cooks setup s.tty tty frame frames)
    (room : (s.tty.echoes setup frame).length ≤ s.tty.writeQ.ring.left) :
    Orderly queued
      { tty := tty
        stack := frames ++ rest
        put := s.put ++ s.tty.echoes setup frame
        taken := s.taken
        underrun := s.underrun } := by
  obtain ⟨call, r, rfl, stopped, cookings⟩ := cooks.frames
  have contents : tty.writeQ.contents = s.tty.writeQ.contents ++ s.tty.echoes setup frame := by
    rw [cooks.writeQ, Watched.contents_putAll room]
  have chars : s.tty.writeQ.ring.chars ≤ tty.writeQ.ring.chars := by
    rw [cooks.writeQ, chars_putAll room]
    exact Nat.le_add_right ..
  have enough := orderly.enough
  have writes := orderly.writes
  have single := orderly.single
  rw [top] at enough writes single
  have below : ∀ f ∈ r ++ rest, f ≠ .write := by
    intro f member
    rcases mem_append.mp member with new | old
    · exact ne_write_of_cooking (cookings f new)
    · exact writes f old
  refine ⟨⟨?_, orderly.inOrder.2⟩, fun f member => ?_, fun f member => ?_, ?_⟩
  · rw [contents, ← append_assoc, ← append_assoc, orderly.inOrder.1]
  · rw [append_assoc] at member
    rcases mem_append.mp member with called | later
    · cases call with
      | true => rw [mem_singleton.mp called]; exact Nat.zero_le _
      | false => cases called
    · rcases mem_append.mp later with new | old
      · rw [counted_of_cooking (cookings f new)]
        exact Nat.zero_le _
      · exact (enough f (mem_cons_of_mem _ old)).trans chars
  · cases call with
    | true => exact below f member
    | false => exact below f (mem_of_mem_tail member)
  · cases call with
    | true => exact .inr (.inl rfl)
    | false =>
      have same := stopped.resolve_left Bool.false_ne_true
      rcases single with halted | written | apart
      · exact .inl (same.trans halted)
      · exact absurd (Option.some.inj written) (ne_write_of_cooking cooking)
      · refine .inr (.inr (pairwise_append.mpr ⟨?_, (pairwise_cons.mp apart).2, fun f new g _ => ?_⟩))
        · exact pairwise_of_uncounted fun f member => counted_of_cooking (cookings f member)
        · exact .inl (counted_of_cooking (cookings f new))

theorem Orderly.takes (orderly : Orderly queued s) {nr : Nat} {tty : Tty} {frames : List Frame}
    (top : s.stack = .conWrite nr :: rest) (more : nr ≠ 0) (running : s.tty.stopped = false)
    (writeQ : tty.writeQ = s.tty.writeQ.get)
    (loop : frames = [.conWrite (nr - 1)] ∨ frames = [.cooked, .conWrite (nr - 1)]) :
    s.tty.writeQ.ring.empty = false ∧
      Orderly queued
        { tty := tty
          stack := frames ++ rest
          put := s.put
          taken := s.taken ++ [s.tty.writeQ.ring.buf s.tty.writeQ.ring.tail]
          underrun := s.underrun } := by
  have enough := orderly.enough
  have writes := orderly.writes
  have single := orderly.single
  rw [top] at enough writes single
  have apart : (Frame.conWrite nr :: rest).Pairwise Apart := by
    rcases single with halted | written | apart
    · rw [running] at halted
      cases halted
    · cases written
    · exact apart
  have others : ∀ f ∈ rest, counted f = 0 := fun f member =>
    ((pairwise_cons.mp apart).1 f member).resolve_left more
  have there : nr ≤ s.tty.writeQ.ring.chars := enough _ mem_cons_self
  have some_ : s.tty.writeQ.ring.empty = false := by
    refine Bool.eq_false_iff.mpr fun empty => ?_
    have none_ := congrArg List.length (Ring.empty_iff.mp empty)
    rw [Ring.length_contents, length_nil] at none_
    omega
  have contents : s.tty.writeQ.contents = s.tty.writeQ.ring.buf s.tty.writeQ.ring.tail :: tty.writeQ.contents := by
    rw [writeQ]
    exact Ring.contents_get some_
  have chars : s.tty.writeQ.ring.chars = tty.writeQ.ring.chars + 1 := by
    have lengths := congrArg List.length contents
    rw [length_cons] at lengths
    rwa [← Ring.length_contents, ← Ring.length_contents]
  have frame : ∀ f ∈ frames, f = .conWrite (nr - 1) ∨ f = .cooked := by
    rcases loop with rfl | rfl
    · exact fun f member => .inl (mem_singleton.mp member)
    · intro f member
      rcases mem_cons.mp member with rfl | last
      · exact .inr rfl
      · exact .inl (mem_singleton.mp last)
  refine ⟨some_, ⟨?_, orderly.inOrder.2⟩, fun f member => ?_, fun f member => ?_, .inr (.inr ?_)⟩
  · rw [orderly.inOrder.1, contents, append_assoc]
    rfl
  · rcases mem_append.mp member with new | old
    · rcases frame f new with rfl | rfl
      · change nr - 1 ≤ tty.writeQ.ring.chars
        omega
      · exact Nat.zero_le _
    · rw [others f old]
      exact Nat.zero_le _
  · rcases mem_append.mp (mem_of_mem_tail member) with new | old
    · rcases frame f new with rfl | rfl <;> simp
    · exact writes f old
  · rcases loop with rfl | rfl
    · exact pairwise_cons.mpr ⟨fun f member => .inr (others f member), pairwise_of_uncounted others⟩
    · refine pairwise_cons.mpr ⟨fun f _ => .inl rfl, ?_⟩
      exact pairwise_cons.mpr ⟨fun f member => .inr (others f member), pairwise_of_uncounted others⟩

theorem Orderly.pop (orderly : Orderly queued s) {tty : Tty} (top : s.stack = frame :: rest)
    (notWrite : frame ≠ .write) (writeQ : tty.writeQ = s.tty.writeQ) (stopped : tty.stopped = s.tty.stopped) :
    Orderly queued { s with tty := tty, stack := rest } := by
  have enough := orderly.enough
  have writes := orderly.writes
  have single := orderly.single
  rw [top] at enough writes single
  refine ⟨⟨?_, orderly.inOrder.2⟩, fun f member => ?_, fun f member => writes f (mem_of_mem_tail member), ?_⟩
  · rw [writeQ]
    exact orderly.inOrder.1
  · rw [writeQ]
    exact enough f (mem_cons_of_mem _ member)
  · rcases single with halted | written | apart
    · exact .inl (stopped.trans halted)
    · exact absurd (Option.some.inj written) notWrite
    · exact .inr (.inr (pairwise_cons.mp apart).2)

theorem Orderly.count (orderly : Orderly queued s) (top : s.stack = .write :: rest)
    (allowed : s.tty.stopped = true ∨ ∀ nr, Frame.conWrite nr ∈ rest → nr = 0) :
    Orderly queued { s with stack := .conWrite s.tty.writeQ.ring.chars :: rest } := by
  have enough := orderly.enough
  have writes := orderly.writes
  rw [top] at enough writes
  refine ⟨orderly.inOrder, fun f member => ?_, writes, ?_⟩
  · rcases mem_cons.mp member with rfl | below
    · exact le_rfl
    · exact enough f (mem_cons_of_mem _ below)
  · rcases allowed with stopped | finished
    · exact .inl stopped
    · have none_ (f : Frame) (member : f ∈ rest) : counted f = 0 := by
        cases f with
        | conWrite nr => exact finished nr member
        | _ => rfl
      exact .inr (.inr (pairwise_cons.mpr ⟨fun f member => .inr (none_ f member), pairwise_of_uncounted none_⟩))

theorem Orderly.interrupt (orderly : Orderly queued s) (between : s.interruptible = true) (cs : List UInt8) :
    Orderly queued { s with tty := { s.tty with readQ := s.tty.readQ.offer cs }, stack := .cooked :: s.stack } := by
  have notWrite : s.stack.head? ≠ some .write := by
    intro head
    rw [State.interruptible] at between
    split at between
    case h_1 empty => rw [empty] at head; cases head
    case h_2 top => rw [top] at head; cases head
    case h_3 => cases between
  refine ⟨orderly.inOrder, fun f member => ?_, fun f member same => ?_, ?_⟩
  · rcases mem_cons.mp member with rfl | below
    · exact Nat.zero_le _
    · exact orderly.enough f below
  · subst same
    cases stack : s.stack with
    | nil =>
      rw [stack] at member
      cases member
    | cons head tail =>
      have writes := orderly.writes
      rw [stack] at member writes notWrite
      rcases mem_cons.mp member with first | below
      · exact notWrite (first ▸ rfl)
      · exact writes _ below rfl
  · rcases orderly.single with halted | written | apart
    · exact .inl halted
    · exact absurd written notWrite
    · exact .inr (.inr (pairwise_cons.mpr ⟨fun f _ => .inl rfl, apart⟩))

theorem Orderly.ttyWrite (orderly : Orderly queued s) (crFlag : Bool) (cs : List UInt8) :
    Orderly queued
      { s with
        tty := (Tty.fill setup cs crFlag s.tty).2
        stack := [.write]
        put := s.put ++ (Tty.fill setup cs crFlag s.tty).2.writeQ.contents.drop s.tty.writeQ.ring.chars } := by
  have keeps : Tty.Keeps (fun _ => .puts) s.tty (Tty.fill setup cs crFlag s.tty).2 := Tty.fill_keeps cs crFlag s.tty
  obtain ⟨more, contents⟩ := (keeps .write).bytes
  change s.tty.writeQ.contents ++ more = (Tty.fill setup cs crFlag s.tty).2.writeQ.contents at contents
  refine ⟨⟨?_, orderly.inOrder.2⟩, fun f member => ?_, fun f member => ?_, .inr (.inl rfl)⟩
  · have length : s.tty.writeQ.contents.length = s.tty.writeQ.ring.chars := Ring.length_contents
    change queued ++ (s.put ++ (Tty.fill setup cs crFlag s.tty).2.writeQ.contents.drop s.tty.writeQ.ring.chars) =
      s.taken ++ (Tty.fill setup cs crFlag s.tty).2.writeQ.contents
    rw [← contents, ← length, drop_left, ← append_assoc, orderly.inOrder.1, append_assoc]
  · rw [mem_singleton.mp member]
    exact Nat.zero_le _
  · cases member

theorem Orderly.runFrame (orderly : Orderly queued s) (top : s.stack = frame :: rest)
    (allowed : s.FrameAllowed setup rest frame) (moved : s.runFrame setup frame rest = some s') :
    Orderly queued s' := by
  unfold State.runFrame at moved
  split at moved
  case h_1 tty frames ran =>
    obtain rfl := Option.some.inj moved
    rcases step_cases ran with ⟨cooking, cooks⟩ | ⟨nr, rfl, both⟩
    · have room : (s.tty.echoes setup frame).length ≤ s.tty.writeQ.ring.left := by
        cases frame with
        | write => cases cooking
        | _ => exact allowed
      have noTake : s.takes frame = false := by
        cases frame with
        | conWrite => cases cooking
        | _ => rfl
      rw [noTake, Bool.false_and, Bool.or_false]
      exact orderly.cooks top cooking cooks room
    · obtain rfl : tty = (s.tty.conWrite setup nr).1 := congrArg Prod.fst both
      obtain rfl : frames = (s.tty.conWrite setup nr).2 := congrArg Prod.snd both
      have nothing : s.tty.echoes setup (.conWrite nr) = [] := rfl
      rw [nothing, append_nil]
      by_cases ends : nr = 0 ∨ s.tty.stopped = true
      · obtain ⟨writeQ, stopped, frames⟩ := conWrite_ends setup ends
        have noTake : s.takes (.conWrite nr) = false := by
          rcases ends with zero | stopped <;> simp [State.takes, *]
        rw [noTake, Bool.false_and, Bool.or_false, frames]
        exact orderly.pop top (by simp) writeQ stopped
      · obtain ⟨more, running⟩ := not_or.mp ends
        rw [Bool.not_eq_true] at running
        obtain ⟨writeQ, -, loop⟩ := conWrite_takes setup more running
        obtain ⟨some_, orderly'⟩ := orderly.takes top more running writeQ loop
        have takes : s.takes (.conWrite nr) = true := by simp [State.takes, more, running]
        rw [takes, some_, if_pos rfl, Bool.and_false, Bool.or_false]
        exact orderly'
  case h_2 =>
    split at moved
    case h_1 =>
      obtain rfl := Option.some.inj moved
      exact orderly.count top allowed
    case h_2 => cases moved

theorem Orderly.step (orderly : Orderly queued s) {m : Move} (allowed : s.Allowed setup m)
    (moved : s.step setup m = some s') : Orderly queued s' := by
  cases m with
  | run =>
    rw [State.step] at moved
    split at moved
    case h_1 => cases moved
    case h_2 frame rest top => exact orderly.runFrame top (allowed frame rest top) moved
  | interrupt cs =>
    rw [State.step] at moved
    split at moved
    case isTrue between =>
      obtain rfl := Option.some.inj moved
      exact orderly.interrupt between cs
    case isFalse => cases moved
  | ttyWrite crFlag cs =>
    rw [State.step] at moved
    split at moved
    case isTrue => exact Option.some.inj moved ▸ orderly.ttyWrite crFlag cs
    case isFalse => cases moved

theorem Orderly.called (tty : Tty) : Orderly tty.writeQ.contents (State.called tty) := by
  refine ⟨⟨append_nil _, rfl⟩, fun f member => ?_, fun f member => ?_, .inr (.inl rfl)⟩
  · rw [mem_singleton.mp member]
    exact Nat.zero_le _
  · cases member

end Invariant

/-- As long as no call of `con_write` cuts into another one that has counted bytes, each byte is taken
once. -/
theorem inOrder_of_run {setup : Setup} {tty : Tty} {s : State}
    (ran : Run (State.step setup) (fun s m => s.Allowed setup m) (State.called tty) s) :
    s.InOrder tty.writeQ.contents :=
  (ran.invariant (fun orderly allowed moved => orderly.step allowed moved) (Orderly.called tty)).inOrder

def letters : Tty :=
  let tty := (colour.ttyInit fun _ => 0).ttys 0
  { tty with writeQ := tty.writeQ.putAll [97, 98, 99] }

theorem letters_inOrder :
    ∃ s, Run (State.step (colour.setup id id)) (fun s m => s.Allowed (colour.setup id id) m) (State.called letters) s ∧
      s.InOrder letters.writeQ.contents := by
  have first : Run (State.step (colour.setup id id)) (fun s m => s.Allowed (colour.setup id id) m) (State.called letters)
      { State.called letters with stack := [.conWrite 3] } := by
    refine .move (m := .run) .start ?_ rfl
    rintro frame rest same
    obtain ⟨rfl, rfl⟩ := List.cons.inj same
    exact .inr fun nr member => by cases member
  exact ⟨_, first, inOrder_of_run first⟩

/-- After the first letter a key is pressed, and its echo takes the other two along. The call that
was cut into finds the queue empty. -/
theorem key_underruns :
    ∃ s, Reachable (State.step (colour.setup id id)) (State.called letters) s ∧ ¬s.InOrder letters.writeQ.contents := by
  have moves : ∃ s, run (State.step (colour.setup id id)) (State.called letters)
      ([.run, .run, .interrupt [100]] ++ List.replicate 9 .run) = some s ∧ s.underrun = true :=
    exists_of_run _ _ _ _ (by decide +kernel)
  obtain ⟨s, ran, underrun⟩ := moves
  refine ⟨s, reachable_of_run ran, fun inOrder => ?_⟩
  rw [inOrder.2] at underrun
  cases underrun

end ConsoleQueue

end Linux012.ChrDrv

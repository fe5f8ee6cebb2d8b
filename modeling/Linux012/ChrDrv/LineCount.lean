import Linux012.ChrDrv.Wakeups

/-! `data` of the queue `secondary`: `copy_to_cooked` counts the ends of lines that it stores, and
`tty_read` those that it takes. -/

set_option autoImplicit false

namespace Linux012.ChrDrv.LineCount

open Transition RingBuffer Function List
open Wakeups (Call)

/-- The byte that a call of `copy_to_cooked` has counted and not yet stored. -/
def byte : Frame → Option UInt8
  | .storing c => some c
  | _ => none

def byteOf (t : UInt8) : UInt8 × Call → Option UInt8
  | (u, .frame frame) => if u = t then byte frame else none
  | _ => none

def stored (t : UInt8) (stack : List (UInt8 × Call)) : List UInt8 := stack.filterMap (byteOf t)

/-- `data` counts the ends of lines in `secondary`, and of the bytes that are about to be stored. -/
def Counted (tty : Tty) (later : List UInt8) : Prop :=
  tty.data = UInt32.ofNat ((tty.secondary.contents ++ later).countP tty.termios.ends)

def sleeps (tty : Tty) : Bool :=
  tty.secondary.ring.empty || (tty.termios.icanon && !tty.readQ.ring.full && tty.data = 0)

/-- The counter never wraps, and a reader in canonical mode finds a line, or a full `read_q`. -/
structure CountsLines (s : Wakeups.State) : Prop where
  counted : ∀ t, Counted (s.ttys t) (stored t s.stack)
  lines : ∀ t, stored t s.stack = [] →
    (s.ttys t).data.toNat = (s.ttys t).secondary.contents.countP (s.ttys t).termios.ends
  noWrap : s.stack = [] → ∀ t c rest, (s.ttys t).secondary.contents = c :: rest →
    (s.ttys t).termios.ends c = true → 0 < (s.ttys t).data.toNat
  complete : s.stack = [] → ∀ t, (s.ttys t).termios.icanon = true → sleeps (s.ttys t) = false →
    (s.ttys t).readQ.ring.full = true ∨ ∃ c ∈ (s.ttys t).secondary.contents, (s.ttys t).termios.ends c = true

/-- `con_write` takes the `c` of an escape sequence, that sets the flags and characters back. -/
def resets (tty : Tty) (nr : Nat) : Bool :=
  nr ≠ 0 && !tty.stopped && tty.console.state = .esc && tty.writeQ.ring.buf tty.writeQ.ring.tail = char 'c'

def SameEnds (tty : Tty) (termios : Termios) (later : List UInt8) : Prop :=
  (tty.secondary.contents ++ later).countP termios.ends = (tty.secondary.contents ++ later).countP tty.termios.ends

def FrameAllowed (tty : Tty) (later : List UInt8) : Frame → Prop
  | .storing _ => tty.secondary.ring.full = false
  | .erased => tty.erasable = true
  | .killed => tty.erasable = true
  | .conWrite nr => resets tty nr = true → SameEnds tty DEF_TERMIOS later
  | _ => True

/-- When `copy_to_cooked` goes on after an echo, there is still room for the byte that it stores, and the
last byte in front is still one of the line that it erases; and a new `EOF` character ends as many of the
lines in `secondary` as the old one. -/
def Allowed (s : Wakeups.State) : Move → Prop
  | .run _ => ∀ t frame rest, s.stack = (t, .frame frame) :: rest →
      FrameAllowed (s.ttys t) (stored t rest) frame
  | .tcsets t termios _ => SameEnds (s.ttys t) termios []
  | _ => True

def move (setup : Setup) (s : Wakeups.State) (m : Move) : Option Wakeups.State := (s.step setup m).map Prod.fst

section Steps

variable {setup : Setup} {s s' : Wakeups.State} {w : List (UInt8 × Which)} {tty tty' : Tty} {later : List UInt8}

structure SameLines (tty tty' : Tty) : Prop where
  termios : tty'.termios = tty.termios
  secondary : tty'.secondary = tty.secondary
  data : tty'.data = tty.data

theorem Counted.of_same (counted : Counted tty later) (same : SameLines tty tty') : Counted tty' later := by
  rw [Counted, same.termios, same.secondary, same.data]
  exact counted

theorem Counted.of_sameEnds (counted : Counted tty later) {termios : Termios} (same : SameEnds tty termios later)
    (changed : tty'.termios = termios) (secondary : tty'.secondary = tty.secondary) (data : tty'.data = tty.data) :
    Counted tty' later := by
  rw [Counted, changed, secondary, data, same]
  exact counted

theorem ofNat_succ (n : Nat) : UInt32.ofNat (n + 1) = UInt32.ofNat n + 1 := UInt32.ofNat_add ..

theorem countP_snoc {p : UInt8 → Bool} {front : List UInt8} {c : UInt8} (inLine : p c = false) :
    (front ++ [c] ++ later).countP p = (front ++ later).countP p := by
  simp [inLine]

theorem rubOut_same (tty : Tty) : SameLines tty tty.rubOut.1 ∧ tty.rubOut.2.filterMap byte = [] := by
  rw [Tty.rubOut]
  split
  · exact ⟨⟨rfl, rfl, rfl⟩, rfl⟩
  · exact ⟨⟨rfl, rfl, rfl⟩, rfl⟩

theorem Counted.accept (counted : Counted tty later) (c : UInt8) :
    Counted (tty.accept c).1 (c :: later) ∧ (tty.accept c).2.filterMap byte = [] := by
  have more : Counted (if tty.termios.ends c then { tty with data := tty.data + 1 } else tty) (c :: later) := by
    rw [Counted, countP_append] at counted
    rw [Counted, countP_append]
    split
    case isTrue ends =>
      rw [countP_cons_of_pos ends, ← Nat.add_assoc, ofNat_succ, ← counted]
    case isFalse inLine =>
      rw [countP_cons_of_neg inLine]
      exact counted
  rw [Tty.accept]
  generalize (if tty.termios.ends c = true then { tty with data := tty.data + 1 } else tty) = tty' at more ⊢
  split
  · exact ⟨more.of_same ⟨rfl, rfl, rfl⟩, rfl⟩
  · exact ⟨more, rfl⟩

theorem counted_cooked (counted : Counted tty later) :
    Counted (tty.cooked setup).1 ((tty.cooked setup).2.filterMap byte ++ later) := by
  by_cases idle : (tty.readQ.ring.empty || tty.secondary.ring.full) = true
  · rw [Tty.cooked, if_pos idle]
    exact counted
  · rw [Tty.cooked, if_neg idle]
    have taken : Counted { tty with readQ := tty.readQ.get } later := counted.of_same ⟨rfl, rfl, rfl⟩
    dsimp only
    split
    case h_1 => exact taken
    case h_2 => exact taken
    case h_3 => exact taken
    case h_4 =>
      split
      case isTrue =>
        obtain ⟨same, nothing⟩ := rubOut_same { tty with readQ := tty.readQ.get }
        rw [filterMap_append, nothing]
        exact taken.of_same same
      case isFalse => exact taken
    case h_5 => exact taken.of_same ⟨rfl, rfl, rfl⟩
    case h_6 => exact taken.of_same ⟨rfl, rfl, rfl⟩
    case h_7 c _ =>
      obtain ⟨more, nothing⟩ := taken.accept c
      rw [filterMap_append, nothing]
      exact more

theorem counted_back (counted : Counted tty later) (erasable : tty.erasable = true) :
    Counted { tty with secondary := tty.secondary.back } later := by
  rw [Tty.erasable, Bool.and_eq_true, Bool.not_eq_true', Bool.not_eq_true'] at erasable
  rw [Counted, ← countP_snoc erasable.2]
  have contents : tty.secondary.contents = tty.secondary.back.contents ++ [tty.secondary.ring.last] :=
    Ring.contents_back erasable.1
  rw [Counted, contents] at counted
  exact counted

theorem counted_conWrite {nr : Nat} (counted : Counted tty later)
    (allowed : resets tty nr = true → SameEnds tty DEF_TERMIOS later) :
    Counted (tty.conWrite setup nr).1 ((tty.conWrite setup nr).2.filterMap byte ++ later) := by
  rw [Tty.conWrite]
  split
  case isTrue => exact counted.of_same ⟨rfl, rfl, rfl⟩
  case isFalse goes =>
    have taken {tty' : Tty} (secondary : tty'.secondary = tty.secondary) (data : tty'.data = tty.data)
        (termios : tty'.termios =
          if tty.console.state = .esc ∧ tty.writeQ.ring.buf tty.writeQ.ring.tail = char 'c' then DEF_TERMIOS
          else tty.termios) : Counted tty' later := by
      by_cases again : tty.console.state = .esc ∧ tty.writeQ.ring.buf tty.writeQ.ring.tail = char 'c'
      · rw [if_pos again] at termios
        refine counted.of_sameEnds (allowed ?_) termios secondary data
        rw [not_or] at goes
        simp [resets, goes, again]
      · rw [if_neg again] at termios
        exact counted.of_same ⟨termios, secondary, data⟩
    dsimp only
    split
    · exact taken rfl rfl rfl
    · exact taken rfl rfl rfl

variable {frame : Frame}

theorem counted_frame {frames : List Frame} (allowed : FrameAllowed tty later frame)
    (ran : tty.step setup frame = some (tty', frames)) (counted : Counted tty ((byte frame).toList ++ later)) :
    Counted tty' (frames.filterMap byte ++ later) := by
  cases frame with
  | cooked =>
    obtain rfl := congrArg Prod.fst (Option.some.inj ran)
    obtain rfl := congrArg Prod.snd (Option.some.inj ran)
    exact counted_cooked counted
  | killing =>
    obtain rfl := congrArg Prod.fst (Option.some.inj ran)
    obtain rfl := congrArg Prod.snd (Option.some.inj ran)
    rw [Tty.killing]
    split
    case isTrue =>
      rw [filterMap_append, (rubOut_same tty).2]
      exact counted.of_same (rubOut_same tty).1
    case isFalse => exact counted
  | killed | erased =>
    obtain ⟨rfl, rfl⟩ := Prod.mk.inj (Option.some.inj ran)
    exact counted_back counted allowed
  | storing c =>
    obtain ⟨rfl, rfl⟩ := Prod.mk.inj (Option.some.inj ran)
    have contents : (tty.secondary.put c).contents = tty.secondary.contents ++ [c] := Ring.contents_put allowed
    rw [Counted]
    dsimp only
    rw [contents, append_assoc]
    exact counted
  | conWrite nr =>
    obtain rfl := congrArg Prod.fst (Option.some.inj ran)
    obtain rfl := congrArg Prod.snd (Option.some.inj ran)
    exact counted_conWrite counted allowed
  | write | ptyCopy => cases ran

/-! ## The calls under way -/

variable {t u : UInt8} {rest : List (UInt8 × Call)}

theorem stored_self (frame : Frame) : stored t ((t, .frame frame) :: rest) = (byte frame).toList ++ stored t rest := by
  have one : byteOf t (t, .frame frame) = byte frame := if_pos rfl
  rw [stored, filterMap_cons, one]
  cases byte frame <;> rfl

theorem stored_other (differ : u ≠ t) (frame : Frame) : stored t ((u, .frame frame) :: rest) = stored t rest :=
  filterMap_cons_none (if_neg differ)

theorem stored_none (nothing : byte frame = none) : stored t ((u, .frame frame) :: rest) = stored t rest := by
  refine filterMap_cons_none ?_
  rw [byteOf, nothing, ite_self]

theorem stored_wake : stored t ((u, .wakeWriters) :: rest) = stored t rest := rfl

theorem stored_frames_self (frames : List Frame) :
    stored t (frames.map (fun f => (t, .frame f)) ++ rest) = frames.filterMap byte ++ stored t rest := by
  induction frames with
  | nil => rfl
  | cons f frames ih =>
    rw [map_cons, cons_append, stored_self, ih, filterMap_cons]
    cases byte f <;> rfl

theorem stored_frames_other (differ : u ≠ t) (frames : List Frame) :
    stored t (frames.map (fun f => (u, .frame f)) ++ rest) = stored t rest := by
  induction frames with
  | nil => rfl
  | cons f frames ih => rw [map_cons, cons_append, stored_other differ, ih]

def AllCounted (s : Wakeups.State) : Prop := ∀ t, Counted (s.ttys t) (stored t s.stack)

theorem AllCounted.of_same (all : AllCounted s) (same : ∀ t, SameLines (s.ttys t) (s'.ttys t))
    (stack : ∀ t, stored t s'.stack = stored t s.stack) : AllCounted s' := by
  intro t
  rw [stack]
  exact (all t).of_same (same t)

theorem SameLines.refl : SameLines tty tty := ⟨rfl, rfl, rfl⟩

theorem same_set (same : SameLines (s.ttys u) tty) (t : UInt8) : SameLines (s.ttys t) ((s.set u tty).ttys t) :=
  Wakeups.set_related (fun _ => .refl) same t

theorem SameLines.trans {a b c : Tty} (first : SameLines a b) (second : SameLines b c) : SameLines a c :=
  ⟨second.termios.trans first.termios, second.secondary.trans first.secondary, second.data.trans first.data⟩

theorem counted_ptyCopy {signal : Bool} {other : UInt8} (all : AllCounted s)
    (stack : ∀ t, stored t rest = stored t s.stack) : AllCounted (s.ptyCopy signal u other rest) := by
  have last (t : UInt8) :
      stored t ((other, .frame .cooked) :: (u, .wakeWriters) :: rest) = stored t s.stack := by
    rw [stored_none rfl, stored_wake, stack]
  have again (t : UInt8) : stored t ((u, .frame .ptyCopy) :: rest) = stored t s.stack := by
    rw [stored_none rfl, stack]
  rw [Wakeups.State.ptyCopy]
  dsimp only
  split
  case isTrue => exact all.of_same (fun _ => .refl) last
  case isFalse =>
    split
    case isTrue =>
      split
      case isTrue => exact all.of_same (fun _ => .refl) last
      case isFalse =>
        refine all.of_same (fun _ => .refl) fun t => ?_
        dsimp only
        rw [stored_none rfl, again]
    case isFalse =>
      have taken : ∀ t, SameLines (s.ttys t) ((s.set u { s.ttys u with writeQ := (s.ttys u).writeQ.get }).ttys t) :=
        same_set ⟨rfl, rfl, rfl⟩
      split
      case isTrue =>
        refine all.of_same (fun t => (taken t).trans (same_set ?_ t)) last
        exact ⟨rfl, rfl, rfl⟩
      case isFalse =>
        refine all.of_same (fun t => (taken t).trans (same_set ?_ t)) again
        exact ⟨rfl, rfl, rfl⟩

theorem counted_runCall {signal : Bool} {call : Call} (all : AllCounted s) (top : s.stack = (u, call) :: rest)
    (allowed : ∀ frame, call = .frame frame → FrameAllowed (s.ttys u) (stored u rest) frame) :
    AllCounted (s.runCall setup signal u rest call).1 := by
  cases call with
  | wakeWriters =>
    refine all.of_same (fun _ => .refl) fun t => ?_
    rw [top, stored_wake]
    rfl
  | frame frame =>
    unfold Wakeups.State.runCall
    dsimp only
    split
    case h_1 tty frames ran =>
      intro t
      have before := all t
      rw [top] at before
      rw [Wakeups.State.set]
      dsimp only
      by_cases here : u = t
      · subst here
        rw [stored_self] at before
        rw [stored_frames_self, update_self]
        exact counted_frame (allowed frame rfl) ran before
      · rw [stored_other here] at before
        rw [stored_frames_other here, update_of_ne (Ne.symm here)]
        exact before
    case h_2 ran =>
      have nothing : byte frame = none := by
        cases frame with
        | storing => cases ran
        | _ => rfl
      have rest_ (t : UInt8) : stored t rest = stored t s.stack := by rw [top, stored_none nothing]
      unfold Wakeups.State.drive
      split
      case h_1 =>
        refine all.of_same (fun _ => .refl) fun t => ?_
        dsimp only
        rw [stored_none rfl, rest_]
      case h_2 =>
        refine all.of_same (fun _ => .refl) fun t => ?_
        dsimp only
        rw [stored_none rfl, rest_]
      case h_3 => exact counted_ptyCopy all rest_
      case h_4 => exact all.of_same (fun _ => .refl) rest_

/-! ## The moves -/

theorem counted_call (moved : s.call u tty frame = some (s', w)) (all : AllCounted s)
    (nothing : byte frame = none) (same : SameLines (s.ttys u) tty) : AllCounted s' := by
  rw [Wakeups.State.call, Option.ite_none_right_eq_some] at moved
  obtain rfl := congrArg Prod.fst (Option.some.inj moved.2)
  refine all.of_same (same_set same) fun t => ?_
  dsimp only
  rw [stored_none nothing, moved.1]

theorem counted_change (moved : s.change u tty = some (s', w)) (all : AllCounted s)
    (counted : Counted (s.ttys u) [] → Counted tty []) : AllCounted s' := by
  rw [Wakeups.State.change, Option.ite_none_right_eq_some] at moved
  obtain ⟨quiet, moved⟩ := moved
  obtain rfl := congrArg Prod.fst (Option.some.inj moved)
  intro t
  have before := all t
  rw [quiet] at before
  rw [Wakeups.State.set]
  dsimp only
  rw [quiet]
  by_cases here : t = u
  · subst here
    rw [update_self]
    exact counted before
  · rw [update_of_ne here]
    exact before

theorem counted_offer {cs : List UInt8} (all : AllCounted s) : AllCounted (s.offer u cs).1 := by
  refine all.of_same (same_set ⟨rfl, rfl, rfl⟩) fun t => ?_
  rw [Wakeups.State.offer]
  dsimp only
  rw [stored_none rfl]

theorem counted_getch (counted : Counted tty []) (some_ : tty.secondary.ring.empty = false) :
    Counted tty.getch.2 [] := by
  have contents : tty.secondary.contents =
      tty.secondary.ring.buf tty.secondary.ring.tail :: tty.secondary.get.contents := Ring.contents_get some_
  rw [Counted, append_nil, contents] at counted
  rw [Counted, append_nil, Tty.getch]
  dsimp only
  split
  case isTrue ends =>
    rw [countP_cons_of_pos ends, ofNat_succ] at counted
    rw [counted, UInt32.add_sub_cancel]
  case isFalse inLine =>
    rw [countP_cons_of_neg inLine] at counted
    exact counted

theorem counted_step {m : Move} (all : AllCounted s) (allowed : Allowed s m)
    (moved : s.step setup m = some (s', w)) : AllCounted s' := by
  cases m with
  | run signal =>
    rw [Wakeups.State.step] at moved
    split at moved
    case h_1 => cases moved
    case h_2 u call rest top =>
      obtain rfl := congrArg Prod.fst (Option.some.inj moved)
      refine counted_runCall all top fun frame same => ?_
      subst same
      exact allowed u frame rest top
  | input u cs =>
    rw [Wakeups.State.step, Wakeups.State.input] at moved
    split at moved
    · obtain rfl := congrArg Prod.fst (Option.some.inj moved)
      exact counted_offer all
    · rw [Option.ite_none_right_eq_some] at moved
      obtain rfl := congrArg Prod.fst (Option.some.inj moved.2)
      exact counted_offer all
    · cases moved
  | ttyWrite u cs =>
    rw [Wakeups.State.step, Option.ite_none_left_eq_some] at moved
    have same : SameLines (s.ttys u) (Tty.fill setup cs s.crFlag (s.ttys u)).2 := by
      rw [Wakeups.fill_only]
      exact ⟨rfl, rfl, rfl⟩
    exact counted_call (s := { s with crFlag := (Tty.fill setup cs s.crFlag (s.ttys u)).1 }) moved.2 all rfl same
  | ttyRead u =>
    rw [Wakeups.State.step, Option.ite_none_left_eq_some] at moved
    exact counted_change moved.2 all fun counted => counted_getch counted (Bool.eq_false_of_not_eq_true moved.1)
  | poke u =>
    rw [Wakeups.State.step] at moved
    split at moved
    case h_1 => exact counted_call moved all rfl .refl
    case h_2 => cases moved
  | tcxonc u arg =>
    cases arg with
    | tcooff | tcoon => exact counted_call moved all rfl ⟨rfl, rfl, rfl⟩
    | tcioff | tcion =>
      refine counted_change moved all fun counted => counted.of_same ?_
      split <;> exact ⟨rfl, rfl, rfl⟩
  | tcflsh u readQ writeQ => exact counted_change moved all fun counted => counted.of_same ⟨rfl, rfl, rfl⟩
  | tcsets u termios flush =>
    exact counted_change moved all fun counted => counted.of_sameEnds allowed rfl rfl rfl
  | transmit u =>
    rw [Wakeups.State.step] at moved
    split at moved
    case h_1 =>
      unfold Wakeups.State.transmit at moved
      dsimp only at moved
      split at moved
      case isTrue =>
        obtain rfl : s = s' := congrArg Prod.fst (Option.some.inj moved)
        exact all
      case isFalse =>
        obtain rfl := congrArg Prod.fst (Option.some.inj moved)
        exact all.of_same (same_set ⟨rfl, rfl, rfl⟩) fun _ => rfl
    case h_2 => cases moved

theorem Counted.toNat (counted : Counted tty []) :
    tty.data.toNat = tty.secondary.contents.countP tty.termios.ends := by
  rw [Counted, append_nil] at counted
  have most : tty.secondary.contents.countP tty.termios.ends ≤ tty.secondary.contents.length := countP_le_length
  have length : tty.secondary.contents.length = tty.secondary.ring.chars := Ring.length_contents
  have chars : tty.secondary.ring.chars < 1024 := Ring.chars_lt
  rw [counted, UInt32.toNat_ofNat_of_lt']
  exact lt_trans (by omega) (by decide : 1024 < UInt32.size)

theorem AllCounted.countsLines (all : AllCounted s) : CountsLines s := by
  have lines (t : UInt8) (nothing : stored t s.stack = []) :
      (s.ttys t).data.toNat = (s.ttys t).secondary.contents.countP (s.ttys t).termios.ends := by
    have counted := all t
    rw [nothing] at counted
    exact counted.toNat
  have quiet (none_ : s.stack = []) (t : UInt8) : stored t s.stack = [] := by rw [none_]; rfl
  refine ⟨all, lines, fun none_ t c rest contents ends => ?_, fun none_ t canonical awake => ?_⟩
  · rw [lines t (quiet none_ t), contents, countP_cons_of_pos ends]
    exact Nat.succ_pos _
  · rw [sleeps, Bool.or_eq_false_iff, canonical, Bool.true_and] at awake
    by_cases full : (s.ttys t).readQ.ring.full = true
    · exact .inl full
    · rw [Bool.eq_false_of_not_eq_true full, Bool.not_false, Bool.true_and, decide_eq_false_iff_not] at awake
      have some_ : 0 < (s.ttys t).data.toNat := Nat.pos_of_ne_zero fun zero => awake.2 (UInt32.toNat_inj.mp zero)
      rw [lines t (quiet none_ t), countP_pos_iff] at some_
      exact .inr some_

/-- As long as a new `EOF` character leaves the lines in the queue as they are, and a nested call of
`copy_to_cooked` leaves the outer one its place and its line, the counter counts the lines. -/
theorem countsLines_of_run {start : Wakeups.State} (initial : AllCounted start)
    (ran : Run (move setup) Allowed start s) : CountsLines s := by
  refine (ran.invariant (fun all allowed moved => ?_) initial).countsLines
  obtain ⟨⟨next, wakes⟩, stepped, rfl⟩ := Option.map_eq_some_iff.mp moved
  exact counted_step all allowed stepped

end Steps

def booted : Wakeups.State where
  ttys := (colour.ttyInit fun _ => 0).ttys
  crFlag := false
  stack := []

theorem newline_countsLines : ∃ s, Run (move (colour.setup id id)) Allowed booted s ∧ CountsLines s := by
  let termios : Termios := { rawTermios with icanon := true }
  let line : Wakeups.State := booted.set 64 { booted.ttys 64 with termios }
  let tty : Tty := { line.ttys 64 with readQ := (line.ttys 64).readQ.offer [10] }
  let offered : Wakeups.State := { line.set 64 tty with stack := [(64, .frame .cooked)] }
  have canonical : Run (move (colour.setup id id)) Allowed booted line :=
    .move (m := .tcsets 64 termios false) .start rfl rfl
  have arrived : Run (move (colour.setup id id)) Allowed booted offered :=
    .move (m := .input 64 [10]) canonical trivial rfl
  have counted : Run (move (colour.setup id id)) Allowed booted
      (offered.runCall (colour.setup id id) false 64 [] (.frame .cooked)).1 := by
    refine .move (m := .run false) arrived (fun t frame rest same => ?_) rfl
    obtain rfl : Frame.cooked = frame := Call.frame.inj (congrArg Prod.snd (List.cons.inj same).1)
    trivial
  have initial : AllCounted booted := fun _ => rfl
  exact ⟨_, counted, countsLines_of_run initial counted⟩

/-- The letter in the queue becomes the `EOF` character and is then read: the counter wraps. -/
theorem eof_wraps :
    ∃ s, Reachable (move (colour.setup id id)) booted s ∧ ¬CountsLines s := by
  have moves : ∃ s, run (move (colour.setup id id)) booted
      [.input 64 [97], .run false, .run false, .run false,
        .tcsets 64 { rawTermios with cc := update INIT_C_CC .eof 97 } false, .ttyRead 64] = some s ∧
      (s.stack.isEmpty = true ∧ (s.ttys 64).secondary.contents = [] ∧ (s.ttys 64).data.toNat = 4294967295) :=
    exists_of_run _ _ _ _ (by decide +kernel)
  obtain ⟨s, ran, quiet, empty, wrapped⟩ := moves
  refine ⟨s, reachable_of_run ran, fun counts => ?_⟩
  have lines := counts.lines 64 (by rw [isEmpty_iff.mp quiet]; rfl)
  rw [empty, wrapped] at lines
  cases lines

end Linux012.ChrDrv.LineCount

import Linux012.ChrDrv.TtyRings
import Mathlib.Data.Nat.Find

/-! The two sides of a pseudo terminal write to each other: `pty_copy` calls `copy_to_cooked` for the
other side, whose echoes call `pty_copy` back. -/

set_option autoImplicit false

namespace Linux012.ChrDrv.PtyEchoes

open RingBuffer Function List

/-- All runs of the calls under way are over after some steps, and none gets deeper than a bound. -/
def EndsWithin (setup : Setup) (depth : Nat) : Nat → State → Prop
  | 0, s => s.stack = []
  | n + 1, s =>
    s.stack.length ≤ depth ∧ ∀ signal s', s.step setup (.run signal) = some s' → EndsWithin setup depth n s'

def called (t : UInt8) (s : State) : State := { s with stack := [(t, .write)] }

def Returns (setup : Setup) (s : State) : Prop := ∃ depth steps, EndsWithin setup depth steps s

/-! ## The bytes that one side brings to the other -/

section Bytes

variable (setup : Setup)

/-- What the other side gets when a byte is read: its echo, or the echoes of erased characters. -/
def answers (termios : Termios) (c : UInt8) : List UInt8 :=
  if termios.echo then
    match termios.action setup c with
    | .erase => [127]
    | .kill => [127]
    | .store c => termios.echoed c
    | _ => []
  else []

def rubs (termios : Termios) (c : UInt8) : Bool :=
  match termios.action setup c with
  | .erase => termios.echo
  | .kill => termios.echo
  | _ => false

def edits (termios : Termios) (c : UInt8) : Bool :=
  match termios.action setup c with
  | .erase => true
  | .kill => true
  | .store _ => true
  | _ => false

structure Pair (a b : UInt8) : Prop where
  first : setup.driver a = some (.pty b)
  second : setup.driver b = some (.pty a)

def other (a b t : UInt8) : UInt8 := if t = a then b else a

inductive Comes (a b : UInt8) (s : State) : UInt8 → UInt8 → Prop where
  | queued {t c : UInt8} (side : t = a ∨ t = b) (queued : c ∈ (s.ttys t).readQ.contents) : Comes a b s t c
  | written {t c : UInt8} (side : t = a ∨ t = b) (written : c ∈ (s.ttys t).writeQ.contents) :
      Comes a b s (other a b t) c
  | answered {t c e : UInt8} (comes : Comes a b s t c) (answered : e ∈ answers setup (s.ttys t).termios c) :
      Comes a b s (other a b t) e

def Rubs (a b : UInt8) (s : State) (t : UInt8) : Prop :=
  ∃ c, Comes setup a b s t c ∧ rubs setup (s.ttys t).termios c = true

def Brings (a b : UInt8) (s : State) (t c e : UInt8) : Prop :=
  e ∈ answers setup (s.ttys t).termios c ∨
    e = 127 ∧ edits setup (s.ttys t).termios c = true ∧ Rubs setup a b s t

def Dies (a b : UInt8) (s : State) : Nat → UInt8 → UInt8 → Prop
  | 0, _, _ => False
  | n + 1, t, c => ∀ e, Brings setup a b s t c e → Dies a b s n (other a b t) e

def DiesOut (a b : UInt8) (s : State) : Prop := ∀ t c, Comes setup a b s t c → ∃ n, Dies setup a b s n t c

end Bytes

/-! ## What the bytes, the lines and the calls can still cause -/

/-- The worth of a line: of its characters, when there is one; an empty line is worth as much as a full
one, for `DEC` makes it one. -/
def line (r chars : Nat) : Nat := if chars = 0 then 10240 * r else 10 * (r * chars)

section Worth

variable (a b : UInt8) (v : UInt8 → UInt8 → Nat) (r : UInt8 → Nat)

def queueWorth (worth : UInt8 → Nat) (q : Queue) : Nat := (q.contents.map worth).sum

def ttyWorth (t : UInt8) (tty : Tty) : Nat :=
  queueWorth (v t) tty.readQ + queueWorth (fun c => v (other a b t) c + 1) tty.writeQ +
    line (r t) tty.secondary.ring.chars

def weight (r : Nat) : Frame → Nat
  | .cooked => 2
  | .killing => 10232 * r + 10
  | .killed => 10230 * r + 3
  | .erased => 10230 * r + 2
  | .storing _ => 10 * r + 2
  | .write => 4
  | .conWrite _ => 2
  | .ptyCopy => 2

def headWeight (r : Nat) (tty : Tty) : Frame → Nat
  | .cooked => if tty.readQ.ring.empty || tty.secondary.ring.full then 2 else 0
  | .killing => if tty.secondary.ring.empty then 2 else weight r .killing
  | .ptyCopy => 3
  | frame => weight r frame

def restWeight (rest : List (UInt8 × Frame)) : Nat := (rest.map fun call => weight (r call.1) call.2).sum

def stackWeight (s : State) : Nat :=
  match s.stack with
  | [] => 0
  | (t, frame) :: rest => headWeight (r t) (s.ttys t) frame + restWeight r rest

def ttysWorth (ttys : UInt8 → Tty) : Nat := ttyWorth a b v r a (ttys a) + ttyWorth a b v r b (ttys b)

def worth (s : State) : Nat := ttysWorth a b v r s.ttys + stackWeight r s

end Worth

/-! ## Lines and calls -/

section Lines

variable {r : Nat} {tty : Tty}

theorem line_succ {k : Nat} (some_ : k ≠ 0) : line r (k + 1) = line r k + 10 * r := by
  rw [line, line, if_neg (Nat.succ_ne_zero k), if_neg some_, Nat.mul_succ, Nat.mul_add]

theorem line_zero : line r 0 = 10240 * r := if_pos rfl

theorem line_one : line r 1 = 10 * r := by
  rw [line, if_neg Nat.one_ne_zero, Nat.mul_one]

theorem line_full : line r 1023 = 10230 * r := by
  rw [line, if_neg (by decide), Nat.mul_comm r, ← Nat.mul_assoc]

theorem line_put (r : Nat) (tty : Tty) (c : UInt8) :
    line r (tty.secondary.put c).ring.chars ≤ line r tty.secondary.ring.chars + 10 * r := by
  by_cases full : tty.secondary.ring.full = true
  · have none_ : (tty.secondary.put c).ring.chars = 0 := Ring.chars_put_full full
    have many : tty.secondary.ring.chars = 1023 := Ring.full_iff.mp full
    rw [none_, many, line_zero, line_full]
    omega
  · have more : (tty.secondary.put c).ring.chars = tty.secondary.ring.chars + 1 :=
      Ring.chars_put (Bool.eq_false_of_not_eq_true full)
    rw [more]
    by_cases none_ : tty.secondary.ring.chars = 0
    · rw [none_, line_one, line_zero]
      omega
    · rw [line_succ none_]

theorem line_back (r : Nat) (tty : Tty) :
    (tty.secondary.back.ring.chars ≠ 0 ∧
        line r tty.secondary.back.ring.chars + 10 * r ≤ line r tty.secondary.ring.chars) ∨
      (tty.secondary.back.ring.chars = 0 ∧ line r tty.secondary.back.ring.chars = 10240 * r ∧
        line r tty.secondary.ring.chars = 10 * r) := by
  by_cases empty : tty.secondary.ring.empty = true
  · have none_ : tty.secondary.ring.chars = 0 := by
      rw [← Ring.length_contents, Ring.empty_iff.mp empty, length_nil]
    have many : tty.secondary.back.ring.chars = 1023 := Ring.chars_back_empty empty
    rw [none_, many, line_zero, line_full]
    omega
  · have less : tty.secondary.back.ring.chars + 1 = tty.secondary.ring.chars :=
      Ring.chars_back (Bool.eq_false_of_not_eq_true empty)
    rw [← less]
    by_cases last : tty.secondary.back.ring.chars = 0
    · rw [last]
      exact .inr ⟨rfl, line_zero, line_one⟩
    · exact .inl ⟨last, (line_succ last).ge⟩

theorem headWeight_le (r : Nat) (tty : Tty) (frame : Frame) : headWeight r tty frame ≤ weight r frame + 1 := by
  cases frame with
  | cooked =>
    rw [headWeight, weight]
    split <;> omega
  | killing =>
    rw [headWeight]
    split
    · rw [weight]
      omega
    · exact Nat.le_succ _
  | ptyCopy => exact Nat.le_refl _
  | killed | erased | storing c | write | conWrite nr => exact Nat.le_succ _

def frontWeight (r : Nat) (tty : Tty) : List Frame → Nat
  | [] => 1
  | frame :: frames => headWeight r tty frame + (frames.map (weight r)).sum

theorem frontWeight_le (r : Nat) (tty : Tty) (frames : List Frame) :
    frontWeight r tty frames ≤ (frames.map (weight r)).sum + 1 := by
  cases frames with
  | nil => exact Nat.le_refl _
  | cons frame frames =>
    have head := headWeight_le r tty frame
    rw [frontWeight, map_cons, sum_cons]
    omega

end Lines

/-! ## One side -/

structure Covers (setup : Setup) (a b : UInt8) (s₀ : State) (v : UInt8 → UInt8 → Nat) (r : UInt8 → Nat) : Prop where
  least (t : UInt8) : 1 ≤ r t
  any (t c : UInt8) : 100000 ≤ v t c
  edits {t c : UInt8} (comes : Comes setup a b s₀ t c) (edits : edits setup (s₀.ttys t).termios c = true) :
    100000 * r t ≤ v t c
  answers {t c e : UInt8} (comes : Comes setup a b s₀ t c) (answered : e ∈ answers setup (s₀.ttys t).termios c) :
    100000 * v (other a b t) e ≤ v t c
  rubs {t : UInt8} (rubs : Rubs setup a b s₀ t) : v (other a b t) 127 ≤ r t

structure TtySound (setup : Setup) (a b : UInt8) (s₀ : State) (t : UInt8) (tty : Tty) : Prop where
  termios : tty.termios = (s₀.ttys t).termios
  read : ∀ c ∈ tty.readQ.contents, Comes setup a b s₀ t c
  written : ∀ c ∈ tty.writeQ.contents, Comes setup a b s₀ (other a b t) c

def FrameSound (setup : Setup) (a b : UInt8) (s₀ : State) (t : UInt8) : Frame → Prop
  | .killing => (s₀.ttys t).termios.echo = true → Rubs setup a b s₀ t
  | .killed => (s₀.ttys t).termios.echo = true → Rubs setup a b s₀ t
  | .conWrite _ => False
  | _ => True

/-- A step keeps the bytes among those that may come, and takes from the worth. -/
structure Drops (setup : Setup) (a b : UInt8) (s₀ : State) (v : UInt8 → UInt8 → Nat) (r : UInt8 → Nat) (t : UInt8)
    (tty : Tty) (frame : Frame) (tty' : Tty) (frames : List Frame) : Prop where
  sound : TtySound setup a b s₀ t tty'
  calls : ∀ f ∈ frames, FrameSound setup a b s₀ t f
  less : ttyWorth a b v r t tty' + frontWeight (r t) tty' frames < ttyWorth a b v r t tty + headWeight (r t) tty frame

section Side

variable {setup : Setup} {a b t : UInt8} {s₀ : State} {v : UInt8 → UInt8 → Nat} {r : UInt8 → Nat} {tty : Tty}

theorem rub_comes (rubs : Rubs setup a b s₀ t) : Comes setup a b s₀ (other a b t) 127 := by
  obtain ⟨c, comes, rubs⟩ := rubs
  refine .answered comes ?_
  rw [PtyEchoes.rubs] at rubs
  rw [answers]
  split at rubs
  case h_1 action => rw [if_pos rubs, action]; exact mem_cons_self
  case h_2 action => rw [if_pos rubs, action]; exact mem_cons_self
  case h_3 => cases rubs

theorem TtySound.putAll (sound : TtySound setup a b s₀ t tty) {cs : List UInt8}
    (comes : ∀ c ∈ cs, Comes setup a b s₀ (other a b t) c) :
    TtySound setup a b s₀ t { tty with writeQ := tty.writeQ.putAll cs } := by
  refine ⟨sound.termios, sound.read, fun c member => ?_⟩
  rcases Watched.mem_contents_putAll member with before | new
  · exact sound.written c before
  · exact comes c new

theorem ttyWorth_putAll (tty : Tty) (cs : List UInt8) :
    ttyWorth a b v r t { tty with writeQ := tty.writeQ.putAll cs } ≤
    ttyWorth a b v r t tty + (cs.map fun c => v (other a b t) c + 1).sum := by
  have sum := Watched.sum_contents_putAll_le (q := tty.writeQ) (fun c => v (other a b t) c + 1) cs
  simp only [ttyWorth, queueWorth]
  omega

theorem rubOut_spec (covers : Covers setup a b s₀ v r) (sound : TtySound setup a b s₀ t tty)
    (rubs : (s₀.ttys t).termios.echo = true → Rubs setup a b s₀ t) :
    TtySound setup a b s₀ t tty.rubOut.1 ∧ (∀ f ∈ tty.rubOut.2, FrameSound setup a b s₀ t f) ∧
      tty.rubOut.1.secondary = tty.secondary ∧
      ttyWorth a b v r t tty.rubOut.1 + (tty.rubOut.2.map (weight (r t))).sum ≤ ttyWorth a b v r t tty + 2 * r t + 6 := by
  rw [Tty.rubOut]
  split
  case isTrue echo =>
    have rub := rubs (sound.termios ▸ echo)
    have cost := covers.rubs rub
    have worth := ttyWorth_putAll (a := a) (b := b) (v := v) (r := r) (t := t) tty
      (Termios.rubout tty.secondary.ring.last)
    have all : ∀ c ∈ Termios.rubout tty.secondary.ring.last, c = 127 := by
      intro c member
      rw [Termios.rubout] at member
      split at member <;> simpa using member
    have sum : ((Termios.rubout tty.secondary.ring.last).map fun c => v (other a b t) c + 1).sum ≤ 2 * r t + 2 := by
      rw [Termios.rubout]
      split <;> simp <;> omega
    refine ⟨sound.putAll fun c member => all c member ▸ rub_comes rub, fun f member => ?_, rfl, ?_⟩
    · rw [mem_singleton.mp member]
      trivial
    · simp only [map_cons, map_nil, sum_cons, sum_nil, weight]
      omega
  case isFalse =>
    refine ⟨sound, fun f member => absurd member not_mem_nil, rfl, ?_⟩
    simp only [map_nil, sum_nil]
    omega

theorem ttyWorth_get (some_ : tty.readQ.ring.empty = false) :
    ttyWorth a b v r t { tty with readQ := tty.readQ.get } + v t (tty.readQ.ring.buf tty.readQ.ring.tail) =
      ttyWorth a b v r t tty := by
  have contents : tty.readQ.contents = tty.readQ.ring.buf tty.readQ.ring.tail :: tty.readQ.get.contents :=
    Ring.contents_get some_
  simp only [ttyWorth, queueWorth, contents, map_cons, sum_cons]
  omega

theorem TtySound.get (sound : TtySound setup a b s₀ t tty) (some_ : tty.readQ.ring.empty = false) :
    TtySound setup a b s₀ t { tty with readQ := tty.readQ.get } ∧
      Comes setup a b s₀ t (tty.readQ.ring.buf tty.readQ.ring.tail) := by
  have contents : tty.readQ.contents = tty.readQ.ring.buf tty.readQ.ring.tail :: tty.readQ.get.contents :=
    Ring.contents_get some_
  refine ⟨⟨sound.termios, fun c member => sound.read c ?_, sound.written⟩, sound.read _ ?_⟩
  · rw [contents]
    exact mem_cons_of_mem _ member
  · rw [contents]
    exact mem_cons_self

theorem drops_of_cost {frames : List Frame} {tty' : Tty} (cost : Nat)
    (some_ : (tty.readQ.ring.empty || tty.secondary.ring.full) = false)
    (sound : TtySound setup a b s₀ t tty') (calls : ∀ f ∈ frames, FrameSound setup a b s₀ t f)
    (pays : cost + 3 < v t (tty.readQ.ring.buf tty.readQ.ring.tail))
    (worth : ttyWorth a b v r t tty' + (frames.map (weight (r t))).sum ≤
      ttyWorth a b v r t { tty with readQ := tty.readQ.get } + cost) :
    Drops setup a b s₀ v r t tty .cooked tty' frames := by
  refine ⟨sound, calls, ?_⟩
  have taken := ttyWorth_get (a := a) (b := b) (v := v) (r := r) (t := t) (Bool.or_eq_false_iff.mp some_).1
  have front := frontWeight_le (r t) tty' frames
  have head : headWeight (r t) tty .cooked = 0 := by rw [headWeight, some_]; rfl
  omega

theorem accept_spec (covers : Covers setup a b s₀ v r) (sound : TtySound setup a b s₀ t tty) {c d : UInt8}
    (comes : Comes setup a b s₀ t c) (stores : (s₀.ttys t).termios.action setup c = .store d) :
    TtySound setup a b s₀ t (tty.accept d).1 ∧ (∀ f ∈ (tty.accept d).2, FrameSound setup a b s₀ t f) ∧
      50000 * (ttyWorth a b v r t (tty.accept d).1 + ((tty.accept d).2.map (weight (r t))).sum) ≤
        50000 * (ttyWorth a b v r t tty + 6) + v t c := by
  have counted {tty' : Tty} (same : tty' = tty ∨ tty' = { tty with data := tty.data + 1 }) :
      TtySound setup a b s₀ t tty' ∧ ttyWorth a b v r t tty' = ttyWorth a b v r t tty ∧ tty'.termios = tty.termios := by
    rcases same with rfl | rfl
    · exact ⟨sound, rfl, rfl⟩
    · exact ⟨⟨sound.termios, sound.read, sound.written⟩, rfl, rfl⟩
  have same : (if tty.termios.ends d then { tty with data := tty.data + 1 } else tty) = tty ∨
      (if tty.termios.ends d then { tty with data := tty.data + 1 } else tty) = { tty with data := tty.data + 1 } := by
    split
    · exact .inr rfl
    · exact .inl rfl
  rw [Tty.accept]
  generalize (if tty.termios.ends d then { tty with data := tty.data + 1 } else tty) = tty' at same ⊢
  obtain ⟨sound', worth', termios⟩ := counted same
  split
  case isTrue echo =>
    have answered : answers setup (s₀.ttys t).termios c = tty'.termios.echoed d := by
      rw [answers, stores, ← sound'.termios, if_pos echo]
    have worth := ttyWorth_putAll (a := a) (b := b) (v := v) (r := r) (t := t) tty' (tty'.termios.echoed d)
    have pays (e : UInt8) (member : e ∈ tty'.termios.echoed d) : 100000 * v (other a b t) e ≤ v t c :=
      covers.answers comes (answered ▸ member)
    have sum : 100000 * ((tty'.termios.echoed d).map fun e => v (other a b t) e + 1).sum ≤ 2 * v t c + 200000 := by
      revert pays
      rw [Termios.echoed]
      split
      · simp
        omega
      · split
        · split
          · simp
            omega
          · simp
        · simp
          omega
    refine ⟨sound'.putAll fun e member => ?_, fun f member => ?_, ?_⟩
    · exact .answered comes (answered ▸ member)
    · rw [mem_singleton.mp member]
      trivial
    · simp only [map_cons, map_nil, sum_cons, sum_nil, weight]
      omega
  case isFalse =>
    refine ⟨sound', fun f member => absurd member not_mem_nil, ?_⟩
    simp only [map_nil, sum_nil]
    omega

theorem cooked_drops (covers : Covers setup a b s₀ v r) (sound : TtySound setup a b s₀ t tty) :
    Drops setup a b s₀ v r t tty .cooked (tty.cooked setup).1 (tty.cooked setup).2 := by
  by_cases idle : (tty.readQ.ring.empty || tty.secondary.ring.full) = true
  · rw [Tty.cooked, if_pos idle]
    refine ⟨sound, fun f member => absurd member not_mem_nil, ?_⟩
    rw [headWeight, if_pos idle, frontWeight]
    exact Nat.lt_succ_self _
  rw [Tty.cooked, if_neg idle]
  rw [Bool.not_eq_true] at idle
  obtain ⟨taken, comes⟩ := sound.get (Bool.or_eq_false_iff.mp idle).1
  have many := covers.any t (tty.readQ.ring.buf tty.readQ.ring.tail)
  have least := covers.least t
  have cooking (f : Frame) (member : f ∈ [Frame.cooked]) : FrameSound setup a b s₀ t f := by
    rw [mem_singleton.mp member]
    trivial
  have edited (changes : edits setup (s₀.ttys t).termios (tty.readQ.ring.buf tty.readQ.ring.tail) = true) :=
    covers.edits comes changes
  dsimp only
  split
  case h_1 => exact drops_of_cost 2 idle taken cooking (by omega) (Nat.le_refl _)
  case h_2 => exact drops_of_cost 2 idle taken cooking (by omega) (Nat.le_refl _)
  case h_3 kills =>
    rw [sound.termios] at kills
    have pays := edited (by rw [edits, kills])
    refine drops_of_cost (10232 * r t + 12) idle taken (fun f member => ?_) (by omega) ?_
    · rcases mem_cons.mp member with rfl | later
      · exact fun echo => ⟨_, comes, by rw [rubs, kills]; exact echo⟩
      · exact cooking f later
    · simp only [map_cons, map_nil, sum_cons, sum_nil, weight]
      omega
  case h_4 erases =>
    rw [sound.termios] at erases
    have pays := edited (by rw [edits, erases])
    split
    case isTrue =>
      obtain ⟨sound', calls, -, cost⟩ := rubOut_spec covers taken
        fun echo => ⟨_, comes, by rw [rubs, erases]; exact echo⟩
      refine drops_of_cost (10232 * r t + 10) idle sound' (fun f member => ?_) (by omega) ?_
      · rcases mem_append.mp member with first | later
        · exact calls f first
        · rcases mem_cons.mp later with rfl | last
          · trivial
          · exact cooking f last
      · rw [map_append, sum_append]
        simp only [map_cons, map_nil, sum_cons, sum_nil, weight]
        omega
    case isFalse => exact drops_of_cost 2 idle taken cooking (by omega) (Nat.le_refl _)
  case h_5 =>
    refine drops_of_cost 6 idle ⟨taken.termios, taken.read, taken.written⟩ (fun f member => ?_) (by omega)
      (Nat.le_refl (_ + 6))
    rcases mem_cons.mp member with rfl | later
    · trivial
    · exact cooking f later
  case h_6 =>
    refine drops_of_cost 6 idle ⟨taken.termios, taken.read, taken.written⟩ (fun f member => ?_) (by omega)
      (Nat.le_refl (_ + 6))
    rcases mem_cons.mp member with rfl | later
    · trivial
    · exact cooking f later
  case h_7 d stores =>
    rw [sound.termios] at stores
    have pays := edited (by rw [edits, stores])
    obtain ⟨sound', calls, cost⟩ := accept_spec covers taken comes stores
    refine drops_of_cost (v t (tty.readQ.ring.buf tty.readQ.ring.tail) / 50000 + 10 * r t + 10) idle sound'
      (fun f member => ?_) (by omega) ?_
    · rcases mem_append.mp member with first | later
      · exact calls f first
      · rcases mem_cons.mp later with rfl | last
        · trivial
        · exact cooking f last
    · rw [map_append, sum_append]
      simp only [map_cons, map_nil, sum_cons, sum_nil, weight]
      omega

theorem killing_drops (covers : Covers setup a b s₀ v r) (sound : TtySound setup a b s₀ t tty)
    (rub : FrameSound setup a b s₀ t .killing) :
    Drops setup a b s₀ v r t tty .killing tty.killing.1 tty.killing.2 := by
  rw [Tty.killing]
  split
  case isTrue erasable =>
    obtain ⟨sound', calls, secondary, cost⟩ := rubOut_spec covers sound rub
    refine ⟨sound', fun f member => ?_, ?_⟩
    · rcases mem_append.mp member with first | later
      · exact calls f first
      · rw [mem_singleton.mp later]
        exact rub
    · have some_ : tty.secondary.ring.empty = false := by
        rw [Tty.erasable, Bool.and_eq_true, Bool.not_eq_true'] at erasable
        exact erasable.1
      have front : frontWeight (r t) tty.rubOut.1 (tty.rubOut.2 ++ [Frame.killed]) =
          ((tty.rubOut.2 ++ [Frame.killed]).map (weight (r t))).sum := by
        rw [Tty.rubOut]
        split <;> rfl
      rw [map_append, sum_append] at front
      simp only [map_cons, map_nil, sum_cons, sum_nil, weight] at front
      dsimp only
      rw [headWeight, some_, if_neg Bool.false_ne_true, weight, front]
      omega
  case isFalse =>
    refine ⟨sound, fun f member => absurd member not_mem_nil, ?_⟩
    dsimp only
    rw [headWeight, frontWeight]
    split
    · omega
    · rw [weight]
      omega

theorem back_drops (covers : Covers setup a b s₀ v r) (sound : TtySound setup a b s₀ t tty) :
    Drops setup a b s₀ v r t tty .erased { tty with secondary := tty.secondary.back } [] := by
  refine ⟨⟨sound.termios, sound.read, sound.written⟩, fun f member => absurd member not_mem_nil, ?_⟩
  have least := covers.least t
  simp only [ttyWorth, frontWeight, headWeight, weight]
  rcases line_back (r t) tty with ⟨-, line⟩ | ⟨-, last, line⟩
  · omega
  · omega

theorem killed_drops (covers : Covers setup a b s₀ v r) (sound : TtySound setup a b s₀ t tty)
    (rub : FrameSound setup a b s₀ t .killed) :
    Drops setup a b s₀ v r t tty .killed { tty with secondary := tty.secondary.back } [.killing] := by
  refine ⟨⟨sound.termios, sound.read, sound.written⟩, fun f member => ?_, ?_⟩
  · rw [mem_singleton.mp member]
    exact rub
  have least := covers.least t
  simp only [ttyWorth, frontWeight, headWeight, weight, map_nil, sum_nil]
  rcases line_back (r t) tty with ⟨more, line⟩ | ⟨none_, last, line⟩
  · split <;> omega
  · have empty : tty.secondary.back.ring.empty = true := by
      rw [Ring.empty_iff, ← length_eq_zero_iff, Ring.length_contents]
      exact none_
    rw [if_pos empty]
    omega

theorem storing_drops (sound : TtySound setup a b s₀ t tty) (c : UInt8) :
    Drops setup a b s₀ v r t tty (.storing c) { tty with secondary := tty.secondary.put c } [] := by
  refine ⟨⟨sound.termios, sound.read, sound.written⟩, fun f member => absurd member not_mem_nil, ?_⟩
  have line := line_put (r t) tty c
  simp only [ttyWorth, frontWeight, headWeight, weight]
  omega

theorem step_drops (covers : Covers setup a b s₀ v r) (sound : TtySound setup a b s₀ t tty) {frame : Frame}
    (allowed : FrameSound setup a b s₀ t frame) {tty' : Tty} {frames : List Frame}
    (ran : tty.step setup frame = some (tty', frames)) : Drops setup a b s₀ v r t tty frame tty' frames := by
  cases frame with
  | cooked =>
    obtain rfl := congrArg Prod.fst (Option.some.inj ran)
    obtain rfl := congrArg Prod.snd (Option.some.inj ran)
    exact cooked_drops covers sound
  | killing =>
    obtain rfl := congrArg Prod.fst (Option.some.inj ran)
    obtain rfl := congrArg Prod.snd (Option.some.inj ran)
    exact killing_drops covers sound allowed
  | killed =>
    obtain ⟨rfl, rfl⟩ := Prod.mk.inj (Option.some.inj ran)
    exact killed_drops covers sound allowed
  | erased =>
    obtain ⟨rfl, rfl⟩ := Prod.mk.inj (Option.some.inj ran)
    exact back_drops covers sound
  | storing c =>
    obtain ⟨rfl, rfl⟩ := Prod.mk.inj (Option.some.inj ran)
    exact storing_drops sound c
  | conWrite nr => exact allowed.elim
  | write | ptyCopy => cases ran

end Side

/-! ## Both sides -/

structure Sound (setup : Setup) (a b : UInt8) (s₀ s : State) : Prop where
  ttys : ∀ t, t = a ∨ t = b → TtySound setup a b s₀ t (s.ttys t)
  calls : ∀ t frame, (t, frame) ∈ s.stack → (t = a ∨ t = b) ∧ FrameSound setup a b s₀ t frame

section Both

variable {setup : Setup} {a b : UInt8} {s₀ s s' : State} {v : UInt8 → UInt8 → Nat} {r : UInt8 → Nat}

theorem Pair.differ (pair : Pair setup a b) : b ≠ a := State.driver_other pair.first

variable {t : UInt8}

theorem Pair.driver (pair : Pair setup a b) (side : t = a ∨ t = b) :
    setup.driver t = some (.pty (other a b t)) := by
  rcases side with rfl | rfl
  · rw [other, if_pos rfl]
    exact pair.first
  · rw [other, if_neg pair.differ]
    exact pair.second

theorem Pair.other_side (pair : Pair setup a b) (side : t = a ∨ t = b) :
    (other a b t = a ∨ other a b t = b) ∧ other a b t ≠ t ∧ other a b (other a b t) = t := by
  have differ := pair.differ
  rcases side with rfl | rfl
  · rw [other, if_pos rfl, other, if_neg differ]
    exact ⟨.inr rfl, differ, rfl⟩
  · rw [other, if_neg differ, other, if_pos rfl]
    exact ⟨.inl rfl, differ.symm, rfl⟩

theorem Pair.cases (pair : Pair setup a b) {x : UInt8} (side : t = a ∨ t = b) (sideX : x = a ∨ x = b) :
    t = x ∨ t = other a b x := by
  rw [other]
  rcases sideX with rfl | rfl
  · exact side.imp_right fun second => second.trans (if_pos rfl).symm
  · exact side.symm.imp_right fun first => first.trans (if_neg pair.differ).symm

theorem ttysWorth_update (differ : b ≠ a) (side : t = a ∨ t = b) (ttys : UInt8 → Tty) (tty : Tty) :
    ttysWorth a b v r (update ttys t tty) + ttyWorth a b v r t (ttys t) =
      ttysWorth a b v r ttys + ttyWorth a b v r t tty := by
  rw [ttysWorth, ttysWorth]
  rcases side with rfl | rfl
  · rw [update_self, update_of_ne differ]
    omega
  · rw [update_self, update_of_ne differ.symm]
    omega

theorem stackWeight_le (rest : List (UInt8 × Frame)) :
    stackWeight r { s with stack := rest } ≤ restWeight r rest + 1 := by
  cases rest with
  | nil => exact Nat.zero_le _
  | cons call rest =>
    have head := headWeight_le (r call.1) (s.ttys call.1) call.2
    simp only [stackWeight, restWeight, map_cons, sum_cons]
    omega

theorem restWeight_cons (t : UInt8) (frame : Frame) (rest : List (UInt8 × Frame)) :
    restWeight r ((t, frame) :: rest) = weight (r t) frame + restWeight r rest := by
  rw [restWeight, map_cons, sum_cons, restWeight]

theorem stackWeight_front (frames : List Frame) (rest : List (UInt8 × Frame)) :
    stackWeight r { s with stack := frames.map (fun f => (t, f)) ++ rest } ≤
      frontWeight (r t) (s.ttys t) frames + restWeight r rest := by
  cases frames with
  | nil =>
    have top := stackWeight_le (r := r) (s := s) rest
    rw [frontWeight]
    exact top.trans_eq (Nat.add_comm _ _)
  | cons frame frames =>
    have later : restWeight r (frames.map (fun f => (t, f)) ++ rest) =
        (frames.map (weight (r t))).sum + restWeight r rest := by
      rw [restWeight, map_append, sum_append, map_map]
      rfl
    simp only [stackWeight, map_cons, cons_append, frontWeight, later]
    omega

variable {frame : Frame} {rest : List (UInt8 × Frame)}

theorem worth_top (top : s.stack = (t, frame) :: rest) :
    worth a b v r s = ttysWorth a b v r s.ttys + (headWeight (r t) (s.ttys t) frame + restWeight r rest) := by
  rw [worth, stackWeight, top]

variable {tty : Tty}

theorem Sound.update (sound : Sound setup a b s₀ s) {stack : List (UInt8 × Frame)}
    (changed : TtySound setup a b s₀ t tty)
    (calls : ∀ t frame, (t, frame) ∈ stack → (t = a ∨ t = b) ∧ FrameSound setup a b s₀ t frame) :
    Sound setup a b s₀ { s.set t tty with stack := stack } := by
  refine ⟨fun u side => ?_, calls⟩
  rw [State.set]
  dsimp only
  by_cases here : u = t
  · subst here
    rw [update_self]
    exact changed
  · rw [update_of_ne here]
    exact sound.ttys u side

theorem runTty_drops (pair : Pair setup a b) (covers : Covers setup a b s₀ v r) (sound : Sound setup a b s₀ s)
    (top : s.stack = (t, frame) :: rest) {frames : List Frame}
    (ran : (s.ttys t).step setup frame = some (tty, frames)) :
    Sound setup a b s₀ { s.set t tty with stack := frames.map (fun f => (t, f)) ++ rest } ∧
      worth a b v r { s.set t tty with stack := frames.map (fun f => (t, f)) ++ rest } < worth a b v r s := by
  obtain ⟨side, allowed⟩ := sound.calls t frame (top ▸ mem_cons_self)
  have drops := step_drops covers (sound.ttys t side) allowed ran
  refine ⟨sound.update drops.sound fun u f member => ?_, ?_⟩
  · rcases mem_append.mp member with new | old
    · obtain ⟨g, inFrames, same⟩ := mem_map.mp new
      obtain ⟨rfl, rfl⟩ := Prod.mk.inj same
      exact ⟨side, drops.calls _ inFrames⟩
    · exact sound.calls u f (top ▸ mem_cons_of_mem _ old)
  · have queues := ttysWorth_update (v := v) (r := r) pair.differ side s.ttys tty
    have front := stackWeight_front (r := r) (s := s.set t tty) (t := t) frames rest
    have less := drops.less
    have here : (s.set t tty).ttys t = tty := update_self ..
    rw [here] at front
    have after : worth a b v r { s.set t tty with stack := frames.map (fun f => (t, f)) ++ rest } ≤
        ttysWorth a b v r (update s.ttys t tty) + (frontWeight (r t) tty frames + restWeight r rest) :=
      Nat.add_le_add_left front _
    rw [worth_top top]
    omega

theorem worth_replace {stack : List (UInt8 × Frame)} (top : s.stack = (t, frame) :: rest)
    (less : stackWeight r { s with stack := stack } < headWeight (r t) (s.ttys t) frame + restWeight r rest) :
    worth a b v r { s with stack := stack } < worth a b v r s := by
  rw [worth_top top]
  exact Nat.add_lt_add_left less _

theorem worth_cooked {u : UInt8} (top : s.stack = (t, .ptyCopy) :: rest) :
    worth a b v r { s with stack := (u, .cooked) :: rest } < worth a b v r s := by
  refine worth_replace top ?_
  simp only [stackWeight, headWeight]
  split <;> omega

theorem cons_calls (frame' : Frame) {u : UInt8} (sound : Sound setup a b s₀ s)
    (top : s.stack = (t, frame) :: rest) (side : u = a ∨ u = b) (allowed : FrameSound setup a b s₀ u frame')
    (w : UInt8) (f : Frame) (member : (w, f) ∈ (u, frame') :: rest) :
    (w = a ∨ w = b) ∧ FrameSound setup a b s₀ w f := by
  rcases mem_cons.mp member with same | later
  · obtain ⟨rfl, rfl⟩ := Prod.mk.inj same
    exact ⟨side, allowed⟩
  · exact sound.calls w f (top ▸ mem_cons_of_mem _ later)

def copied (t u : UInt8) (s : State) : State :=
  let c := (s.ttys t).writeQ.ring.buf (s.ttys t).writeQ.ring.tail
  let s := s.set t { s.ttys t with writeQ := (s.ttys t).writeQ.get }
  s.set u { s.ttys u with readQ := (s.ttys u).readQ.put c }

theorem ptyCopy_copied {signal : Bool} {u : UInt8}
    (goes : ((s.ttys t).stopped || (s.ttys t).writeQ.ring.empty) = false)
    (room : (s.ttys u).readQ.ring.full = false) :
    s.ptyCopy signal t u rest =
      if signal then { copied t u s with stack := (u, .cooked) :: rest }
      else { copied t u s with stack := (t, .ptyCopy) :: rest } := by
  rw [State.ptyCopy, goes, room]
  rfl

theorem copied_ttys {u : UInt8} (differ : u ≠ t) : (copied t u s).ttys =
    update (update s.ttys t { s.ttys t with writeQ := (s.ttys t).writeQ.get }) u
      { s.ttys u with readQ := (s.ttys u).readQ.put ((s.ttys t).writeQ.ring.buf (s.ttys t).writeQ.ring.tail) } := by
  have same : (s.set t { s.ttys t with writeQ := (s.ttys t).writeQ.get }).ttys u = s.ttys u := update_of_ne differ ..
  rw [copied]
  dsimp only
  rw [State.set, same]
  rfl

theorem copied_spec (pair : Pair setup a b) (sound : Sound setup a b s₀ s) (side : t = a ∨ t = b)
    (some_ : (s.ttys t).writeQ.ring.empty = false) :
    (∀ u, u = a ∨ u = b → TtySound setup a b s₀ u ((copied t (other a b t) s).ttys u)) ∧
      ttysWorth a b v r (copied t (other a b t) s).ttys + 1 ≤ ttysWorth a b v r s.ttys := by
  obtain ⟨otherSide, differ, back⟩ := pair.other_side side
  let u := other a b t
  let c := (s.ttys t).writeQ.ring.buf (s.ttys t).writeQ.ring.tail
  let from_ : Tty := { s.ttys t with writeQ := (s.ttys t).writeQ.get }
  let to_ : Tty := { s.ttys u with readQ := (s.ttys u).readQ.put c }
  have contents : (s.ttys t).writeQ.contents = c :: (s.ttys t).writeQ.get.contents := Ring.contents_get some_
  have ttys : (copied t u s).ttys = update (update s.ttys t from_) u to_ := copied_ttys differ
  have comes : Comes setup a b s₀ u c := by
    refine (sound.ttys t side).written c ?_
    rw [contents]
    exact mem_cons_self
  have soundFrom : TtySound setup a b s₀ t from_ := by
    refine ⟨(sound.ttys t side).termios, (sound.ttys t side).read, fun d member => (sound.ttys t side).written d ?_⟩
    rw [contents]
    exact mem_cons_of_mem _ member
  have soundTo : TtySound setup a b s₀ u to_ := by
    refine ⟨(sound.ttys u otherSide).termios, fun d member => ?_, (sound.ttys u otherSide).written⟩
    rcases Ring.mem_contents_put member with before | rfl
    · exact (sound.ttys u otherSide).read d before
    · exact comes
  have worthFrom : ttyWorth a b v r t (s.ttys t) = ttyWorth a b v r t from_ + (v u c + 1) := by
    simp only [ttyWorth, queueWorth, contents, map_cons, sum_cons, from_, u]
    omega
  have worthTo : ttyWorth a b v r u to_ ≤ ttyWorth a b v r u (s.ttys u) + v u c := by
    have sum : queueWorth (v u) to_.readQ ≤ queueWorth (v u) (s.ttys u).readQ + v u c := Ring.sum_contents_put_le (v u)
    simp only [ttyWorth, to_] at sum ⊢
    omega
  refine ⟨fun w sideW => ?_, ?_⟩
  · show TtySound setup a b s₀ w ((copied t u s).ttys w)
    rw [ttys]
    rcases pair.cases sideW side with rfl | rfl
    · rw [update_of_ne differ.symm, update_self]
      exact soundFrom
    · rw [update_self]
      exact soundTo
  · have first := ttysWorth_update (v := v) (r := r) pair.differ side s.ttys from_
    have second := ttysWorth_update (v := v) (r := r) pair.differ otherSide (update s.ttys t from_) to_
    rw [update_of_ne differ] at second
    show ttysWorth a b v r (copied t u s).ttys + 1 ≤ _
    rw [ttys]
    simp only [u] at *
    omega

theorem ptyCopy_drops (pair : Pair setup a b) (sound : Sound setup a b s₀ s)
    (top : s.stack = (t, .ptyCopy) :: rest) (signal : Bool) :
    Sound setup a b s₀ (s.ptyCopy signal t (other a b t) rest) ∧
      worth a b v r (s.ptyCopy signal t (other a b t) rest) < worth a b v r s := by
  obtain ⟨side, -⟩ := sound.calls t .ptyCopy (top ▸ mem_cons_self)
  obtain ⟨otherSide, -⟩ := pair.other_side side
  have last := cons_calls .cooked sound top otherSide trivial
  have again := cons_calls .ptyCopy sound top side trivial
  by_cases goes : ((s.ttys t).stopped || (s.ttys t).writeQ.ring.empty) = true
  · rw [State.ptyCopy, if_pos goes]
    exact ⟨⟨sound.ttys, last⟩, worth_cooked top⟩
  by_cases full : (s.ttys (other a b t)).readQ.ring.full = true
  · rw [State.ptyCopy, if_neg goes, if_pos full]
    split
    case isTrue => exact ⟨⟨sound.ttys, last⟩, worth_cooked top⟩
    case isFalse room =>
      refine ⟨⟨sound.ttys, fun w f member => ?_⟩, worth_replace top ?_⟩
      · rcases mem_cons.mp member with same | later
        · exact last w f (same ▸ mem_cons_self)
        · exact again w f later
      · -- the call takes at least one byte
        have some_ : (s.ttys (other a b t)).readQ.ring.empty = false := by
          have many : (s.ttys (other a b t)).readQ.ring.chars = 1023 := Ring.full_iff.mp full
          rw [← Bool.not_eq_true, Ring.empty_iff, ← length_eq_zero_iff, Ring.length_contents, many]
          decide
        simp only [stackWeight, headWeight, some_, Bool.eq_false_of_not_eq_true room, restWeight, map_cons,
          sum_cons, weight, Bool.or_false, Bool.false_eq_true, if_false]
        omega
  · rw [Bool.not_eq_true] at goes full
    obtain ⟨ttys, less⟩ := copied_spec (v := v) (r := r) pair sound side (Bool.or_eq_false_iff.mp goes).2
    rw [ptyCopy_copied goes full]
    have before := worth_top (a := a) (b := b) (v := v) (r := r) top
    rw [headWeight] at before
    split
    case isTrue =>
      refine ⟨⟨ttys, last⟩, ?_⟩
      refine lt_of_le_of_lt (Nat.add_le_add_left (stackWeight_le _) _) ?_
      have cooked : restWeight r ((other a b t, .cooked) :: rest) = 2 + restWeight r rest := restWeight_cons ..
      show ttysWorth a b v r (copied t (other a b t) s).ttys + _ < _
      omega
    case isFalse =>
      refine ⟨⟨ttys, again⟩, ?_⟩
      show ttysWorth a b v r (copied t (other a b t) s).ttys + (3 + restWeight r rest) < _
      omega

theorem step_none (ran : tty.step setup frame = none) : frame = .write ∨ frame = .ptyCopy := by
  cases frame with
  | write => exact .inl rfl
  | ptyCopy => exact .inr rfl
  | _ => cases ran

theorem run_drops (pair : Pair setup a b) (covers : Covers setup a b s₀ v r) (sound : Sound setup a b s₀ s)
    {signal : Bool} (moved : s.step setup (.run signal) = some s') :
    Sound setup a b s₀ s' ∧ worth a b v r s' < worth a b v r s := by
  rw [State.step] at moved
  split at moved
  case h_1 => cases moved
  case h_2 t frame rest top =>
    obtain rfl := Option.some.inj moved
    obtain ⟨side, allowed⟩ := sound.calls t frame (top ▸ mem_cons_self)
    have driver := pair.driver side
    unfold State.runFrame
    split
    case h_1 tty frames ran => exact runTty_drops pair covers sound top ran
    case h_2 ran =>
      split
      case h_1 console =>
        rw [driver] at console
        cases console
      case h_2 =>
        refine ⟨⟨sound.ttys, cons_calls _ sound top side trivial⟩, worth_replace top ?_⟩
        simp only [stackWeight, headWeight, weight]
        omega
      case h_3 u copies =>
        obtain rfl : other a b t = u := Driver.pty.inj (Option.some.inj (driver.symm.trans copies))
        exact ptyCopy_drops pair sound top signal
      case h_4 noWrite noCopy =>
        rcases step_none ran with write | copy
        · exact (noWrite _ write driver).elim
        · exact (noCopy _ copy driver).elim

theorem length_le_worth (s : State) : s.stack.length ≤ worth a b v r s + 1 := by
  have each (rest : List (UInt8 × Frame)) : rest.length ≤ restWeight r rest := by
    induction rest with
    | nil => exact Nat.zero_le _
    | cons call rest ih =>
      have positive : 1 ≤ weight (r call.1) call.2 := by
        cases call.2 <;> simp [weight]
      have more : restWeight r (call :: rest) = weight (r call.1) call.2 + restWeight r rest := restWeight_cons ..
      rw [length_cons]
      omega
  cases stack : s.stack with
  | nil => exact Nat.zero_le _
  | cons call rest =>
    have below := each rest
    rw [worth_top stack, length_cons]
    omega

theorem endsWithin_of_worth (pair : Pair setup a b) (covers : Covers setup a b s₀ v r) {depth n : Nat}
    (sound : Sound setup a b s₀ s) (steps : worth a b v r s < n) (deep : worth a b v r s < depth) :
    EndsWithin setup depth n s := by
  induction n generalizing s with
  | zero => exact absurd steps (Nat.not_lt_zero _)
  | succ n ih =>
    refine ⟨(length_le_worth s).trans deep, fun signal s' moved => ?_⟩
    obtain ⟨sound', less⟩ := run_drops pair covers sound moved
    exact ih sound' (by omega) (by omega)

end Both

/-! ## Bytes that die out -/

section DyingOut

variable {setup : Setup} {a b : UInt8} {s : State}

theorem Brings.comes {t c e : UInt8} (comes : Comes setup a b s t c) (brings : Brings setup a b s t c e) :
    Comes setup a b s (other a b t) e := by
  rcases brings with answered | ⟨rfl, -, rubs⟩
  · exact .answered comes answered
  · exact rub_comes rubs

theorem exists_rank (dies : DiesOut setup a b s) : ∃ rank : UInt8 → UInt8 → Nat, ∀ t c e,
    Comes setup a b s t c → Brings setup a b s t c e → rank (other a b t) e < rank t c := by
  classical
  have least (t c : UInt8) : ∃ n, (∃ m, Dies setup a b s m t c) →
      Dies setup a b s n t c ∧ ∀ m, Dies setup a b s m t c → n ≤ m := by
    by_cases some_ : ∃ m, Dies setup a b s m t c
    · exact ⟨Nat.find some_, fun _ => ⟨Nat.find_spec some_, fun m dies => Nat.find_min' some_ dies⟩⟩
    · exact ⟨0, fun again => absurd again some_⟩
  choose rank spec using least
  refine ⟨rank, fun t c e comes brings => ?_⟩
  obtain ⟨here, -⟩ := spec t c (dies t c comes)
  obtain ⟨-, there⟩ := spec (other a b t) e (dies _ e (brings.comes comes))
  cases rounds : rank t c with
  | zero =>
    rw [rounds] at here
    exact here.elim
  | succ n =>
    rw [rounds] at here
    exact Nat.lt_succ_of_le (there n (here e brings))

theorem exists_covers (dies : DiesOut setup a b s) : ∃ v r, Covers setup a b s v r := by
  classical
  obtain ⟨rank, less⟩ := exists_rank dies
  let v (t c : UInt8) : Nat := 100000 ^ (rank t c + 1)
  let r (t : UInt8) : Nat := if Rubs setup a b s t then v (other a b t) 127 else 1
  have any (t c : UInt8) : 100000 ≤ v t c := Nat.le_self_pow (Nat.succ_ne_zero _) _
  have pays {t c e : UInt8} (comes : Comes setup a b s t c) (brings : Brings setup a b s t c e) :
      100000 * v (other a b t) e ≤ v t c := by
    have fewer := less t c e comes brings
    calc
      100000 * v (other a b t) e = 100000 ^ (rank (other a b t) e + 2) := (Nat.pow_succ' ..).symm
      _ ≤ v t c := Nat.pow_le_pow_right (by decide) (by omega)
  refine ⟨v, r, ⟨fun t => ?_, any, fun comes edits => ?_, fun comes answered => pays comes (.inl answered),
    fun rubs => ?_⟩⟩
  · dsimp only [r]
    split
    · exact le_trans (by decide) (any _ _)
    · exact Nat.le_refl _
  · dsimp only [r]
    split
    case isTrue rubs => exact pays comes (.inr ⟨rfl, edits, rubs⟩)
    case isFalse => exact any _ _
  · exact (if_pos rubs).ge

theorem Comes.side {t c : UInt8} (comes : Comes setup a b s t c) : t = a ∨ t = b := by
  have sides (t : UInt8) : other a b t = a ∨ other a b t = b := by
    rw [other]
    split
    · exact .inr rfl
    · exact .inl rfl
  cases comes with
  | queued side => exact side
  | written | answered => exact sides _

theorem diesOut_of_silent (pair : Pair setup a b) {t : UInt8} (side : t = a ∨ t = b)
    (silent : (s.ttys t).termios.echo = false) : DiesOut setup a b s := by
  have nothing (c e : UInt8) : ¬Brings setup a b s t c e := by
    rintro (answered | ⟨-, -, d, -, rubs⟩)
    · rw [answers, silent] at answered
      cases answered
    · rw [PtyEchoes.rubs, silent] at rubs
      split at rubs <;> cases rubs
  have here (c : UInt8) : Dies setup a b s 1 t c := fun e brings => absurd brings (nothing c e)
  intro u c comes
  by_cases same : u = t
  · exact ⟨1, same ▸ here c⟩
  · refine ⟨2, fun e _ => ?_⟩
    have there : other a b u = t := by
      rcases side with rfl | rfl
      · exact if_neg same
      · rcases comes.side with rfl | rfl
        · exact if_pos rfl
        · exact absurd rfl same
    exact there ▸ here e

end DyingOut

/-! ## A byte that both sides echo -/

section Bouncing

variable {setup : Setup} {a b c : UInt8} {s s' : State}

structure Loud (setup : Setup) (c : UInt8) (tty : Tty) : Prop where
  echo : tty.termios.echo = true
  stores : tty.termios.action setup c = .store c
  echoed : tty.termios.echoed c = [c]
  runs : tty.stopped = false
  room : tty.secondary.ring.full = false

structure Bounces (setup : Setup) (a b c x : UInt8) (s : State) : Prop where
  side : x = a ∨ x = b
  top : ∃ rest, s.stack = (x, .write) :: rest
  loud : ∀ t, t = a ∨ t = b → Loud setup c (s.ttys t)
  written : (s.ttys x).writeQ.contents = [c]
  others : (s.ttys (other a b x)).writeQ.contents = []
  read : ∀ t, t = a ∨ t = b → (s.ttys t).readQ.contents = []

variable {q : Queue}

theorem empty_of_contents (none_ : q.contents = []) : q.ring.empty = true := Ring.empty_iff.mpr none_

theorem some_of_contents {cs : List UInt8} (some_ : q.contents = c :: cs) :
    q.ring.empty = false ∧ q.ring.buf q.ring.tail = c ∧ q.get.contents = cs := by
  have notEmpty : q.ring.empty = false := by
    rw [← Bool.not_eq_true]
    intro empty
    have none_ : q.contents = [] := Ring.empty_iff.mp empty
    rw [none_] at some_
    cases some_
  have contents : q.contents = q.ring.buf q.ring.tail :: q.get.contents := Ring.contents_get notEmpty
  rw [some_] at contents
  obtain ⟨first, later⟩ := List.cons.inj contents
  exact ⟨notEmpty, first.symm, later.symm⟩

theorem put_of_empty (none_ : q.contents = []) : q.ring.full = false ∧ (q.put c).contents = [c] := by
  have zero : q.ring.chars = 0 := by
    rw [← Ring.length_contents]
    exact congrArg List.length none_
  have room : q.ring.full = false := by
    rw [← Bool.not_eq_true, Ring.full_iff, zero]
    decide
  refine ⟨room, ?_⟩
  have contents : (q.put c).contents = q.contents ++ [c] := Ring.contents_put room
  rw [contents, none_]
  rfl

theorem Loud.of_same {tty tty' : Tty} (loud : Loud setup c tty) (termios : tty'.termios = tty.termios)
    (stopped : tty'.stopped = tty.stopped) (secondary : tty'.secondary = tty.secondary) : Loud setup c tty' := by
  refine ⟨?_, ?_, ?_, stopped.trans loud.runs, ?_⟩
  · rw [termios]; exact loud.echo
  · rw [termios]; exact loud.stores
  · rw [termios]; exact loud.echoed
  · rw [secondary]; exact loud.room

theorem Loud.cooked {tty : Tty} (loud : Loud setup c tty) (read : tty.readQ.contents = [c])
    (written : tty.writeQ.contents = []) :
    ∃ tty', tty.cooked setup = (tty', [.write, .storing c, .cooked]) ∧ Loud setup c tty' ∧
      tty'.readQ.contents = [] ∧ tty'.writeQ.contents = [c] := by
  obtain ⟨some_, first, later⟩ := some_of_contents read
  let counted : Tty :=
    if tty.termios.ends c then { tty with readQ := tty.readQ.get, data := tty.data + 1 }
    else { tty with readQ := tty.readQ.get }
  have same : counted.termios = tty.termios ∧ counted.stopped = tty.stopped ∧ counted.secondary = tty.secondary ∧
      counted.readQ = tty.readQ.get ∧ counted.writeQ = tty.writeQ := by
    dsimp only [counted]
    split <;> exact ⟨rfl, rfl, rfl, rfl, rfl⟩
  obtain ⟨termios, stopped, secondary, readQ, writeQ⟩ := same
  refine ⟨{ counted with writeQ := counted.writeQ.put c }, ?_, loud.of_same termios stopped secondary, ?_, ?_⟩
  · have accepts : Tty.accept { tty with readQ := tty.readQ.get } c =
        ({ counted with writeQ := counted.writeQ.put c }, [.write]) := by
      have echo : counted.termios.echo = true := termios ▸ loud.echo
      have echoed : counted.termios.echoed c = [c] := termios ▸ loud.echoed
      show (if counted.termios.echo = true then
        ({ counted with writeQ := counted.writeQ.putAll (counted.termios.echoed c) }, [Frame.write])
        else (counted, [])) = _
      rw [if_pos echo, echoed]
      rfl
    rw [Tty.cooked, some_, loud.room, if_neg (by decide)]
    dsimp only
    rw [first, loud.stores]
    dsimp only
    rw [accepts]
    rfl
  · show counted.readQ.contents = []
    rw [readQ]
    exact later
  · show (counted.writeQ.put c).contents = [c]
    rw [writeQ]
    exact (put_of_empty written).2

variable {rest : List (UInt8 × Frame)}

theorem endsWithin_next {depth n : Nat} {t : UInt8} {frame : Frame} (top : s.stack = (t, frame) :: rest)
    (ends : EndsWithin setup depth n s) :
    ∃ m, m < n ∧ EndsWithin setup depth m (s.runFrame setup false t frame rest) := by
  cases n with
  | zero =>
    rw [EndsWithin, top] at ends
    cases ends
  | succ n =>
    refine ⟨n, Nat.lt_succ_self n, ends.2 false _ ?_⟩
    rw [State.step, top]

variable {x : UInt8}

theorem runFrame_write {y : UInt8} (driver : setup.driver x = some (.pty y)) :
    s.runFrame setup false x .write rest = { s with stack := (x, .ptyCopy) :: rest } := by
  unfold State.runFrame
  dsimp only [Tty.step]
  rw [driver]

theorem runFrame_ptyCopy {y : UInt8} (driver : setup.driver x = some (.pty y)) :
    s.runFrame setup false x .ptyCopy rest = s.ptyCopy false x y rest := by
  unfold State.runFrame
  dsimp only [Tty.step]
  rw [driver]

theorem bounce (pair : Pair setup a b) (bounces : Bounces setup a b c x s) {depth n : Nat}
    (ends : EndsWithin setup depth n s) :
    ∃ m s', m < n ∧ Bounces setup a b c (other a b x) s' ∧ EndsWithin setup depth m s' := by
  obtain ⟨rest, top⟩ := bounces.top
  obtain ⟨otherSide, differ, back⟩ := pair.other_side bounces.side
  have driver := pair.driver bounces.side
  generalize named : other a b x = y at otherSide differ back driver ⊢
  obtain ⟨some_, first, later⟩ := some_of_contents bounces.written
  have readY := bounces.read y otherSide
  have loudX := bounces.loud x bounces.side
  have loudY := bounces.loud y otherSide
  let from_ : Tty := { s.ttys x with writeQ := (s.ttys x).writeQ.get }
  let to_ : Tty := { s.ttys y with readQ := (s.ttys y).readQ.put c }
  have writtenY : (s.ttys y).writeQ.contents = [] := named ▸ bounces.others
  have loudTo : Loud setup c to_ := loudY.of_same rfl rfl rfl
  obtain ⟨tty', cooks, loud', read', written'⟩ := loudTo.cooked (put_of_empty readY).2 writtenY
  let s₁ : State := { s with stack := (x, .ptyCopy) :: rest }
  let s₂ : State := { s with ttys := update (update s.ttys x from_) y to_, stack := (x, .ptyCopy) :: rest }
  let s₃ : State := { s₂ with stack := (y, .cooked) :: rest }
  let s₄ : State := { s₃.set y tty' with stack := (y, .write) :: (y, .storing c) :: (y, .cooked) :: rest }
  have step₁ : s.runFrame setup false x .write rest = s₁ := runFrame_write driver
  have step₂ : s₁.runFrame setup false x .ptyCopy rest = s₂ := by
    have goes : ((s₁.ttys x).stopped || (s₁.ttys x).writeQ.ring.empty) = false := by
      rw [Bool.or_eq_false_iff]
      exact ⟨loudX.runs, some_⟩
    have ttys : (copied x y s₁).ttys = s₂.ttys := by
      rw [copied_ttys differ]
      dsimp only [s₁, s₂, from_, to_]
      rw [first]
    rw [runFrame_ptyCopy driver, ptyCopy_copied goes (put_of_empty (c := c) readY).1, if_neg Bool.false_ne_true]
    show State.mk (copied x y s₁).ttys s.crFlag ((x, .ptyCopy) :: rest) = s₂
    rw [ttys]
  have atX : s₂.ttys x = from_ := by
    show update (update s.ttys x from_) y to_ x = from_
    rw [update_of_ne differ.symm, update_self]
  have atY : s₂.ttys y = to_ := update_self ..
  have step₃ : s₂.runFrame setup false x .ptyCopy rest = s₃ := by
    have ended : from_.writeQ.ring.empty = true := empty_of_contents later
    rw [runFrame_ptyCopy driver, State.ptyCopy, atX, ended, Bool.or_true]
    rfl
  have step₄ : s₃.runFrame setup false y .cooked rest = s₄ := by
    have ran : (s₃.ttys y).step setup .cooked = some (tty', [.write, .storing c, .cooked]) := by
      show some ((s₂.ttys y).cooked setup) = _
      rw [atY, cooks]
    unfold State.runFrame
    rw [ran]
    rfl
  obtain ⟨n₁, less₁, ends₁⟩ := endsWithin_next top ends
  rw [step₁] at ends₁
  obtain ⟨n₂, less₂, ends₂⟩ := endsWithin_next (s := s₁) rfl ends₁
  rw [step₂] at ends₂
  obtain ⟨n₃, less₃, ends₃⟩ := endsWithin_next (s := s₂) rfl ends₂
  rw [step₃] at ends₃
  obtain ⟨n₄, less₄, ends₄⟩ := endsWithin_next (s := s₃) rfl ends₃
  rw [step₄] at ends₄
  have lastY : s₄.ttys y = tty' := update_self ..
  have lastX : s₄.ttys x = from_ := by
    show update s₂.ttys y tty' x = from_
    rw [update_of_ne differ.symm, atX]
  have sides {P : UInt8 → Prop} (ofX : P x) (ofY : P y) (t : UInt8) (side : t = a ∨ t = b) : P t := by
    rcases pair.cases side bounces.side with rfl | rfl
    · exact ofX
    · exact named ▸ ofY
  refine ⟨n₄, s₄, by omega, ⟨otherSide, ⟨_, rfl⟩, ?_, ?_, ?_, ?_⟩, ends₄⟩
  · refine sides ?_ ?_
    · rw [lastX]
      exact loudX.of_same rfl rfl rfl
    · rw [lastY]
      exact loud'
  · rw [lastY]
    exact written'
  · rw [back, lastX]
    exact later
  · refine sides ?_ ?_
    · rw [lastX]
      exact bounces.read x bounces.side
    · rw [lastY]
      exact read'

theorem not_endsWithin (pair : Pair setup a b) (bounces : Bounces setup a b c x s) {depth n : Nat} :
    ¬EndsWithin setup depth n s := by
  induction n using Nat.strong_induction_on generalizing s x with
  | _ n ih =>
    intro ends
    obtain ⟨m, s', less, bounces', ends'⟩ := bounce pair bounces ends
    exact ih m less bounces' ends'

theorem not_returns (pair : Pair setup a b) {t : UInt8} (side : t = a ∨ t = b)
    (loud : ∀ t, t = a ∨ t = b → Loud setup c (s.ttys t)) (written : (s.ttys t).writeQ.contents = [c])
    (others : (s.ttys (other a b t)).writeQ.contents = [])
    (read : ∀ t, t = a ∨ t = b → (s.ttys t).readQ.contents = []) : ¬Returns setup (called t s) := by
  rintro ⟨depth, n, ends⟩
  have bounces : Bounces setup a b c t (called t s) := ⟨side, ⟨[], rfl⟩, loud, written, others, read⟩
  exact not_endsWithin pair bounces ends

end Bouncing

def letter (master slave : Termios) : State :=
  let start := colour.ttyInit fun _ => 0
  let from_ : Tty := { start.ttys 128 with termios := master }
  (start.set 128 { from_ with writeQ := from_.writeQ.put 97 }).set 192 { start.ttys 192 with termios := slave }

theorem colour_pair : Pair (colour.setup id id) 128 192 := ⟨rfl, rfl⟩

end Linux012.ChrDrv.PtyEchoes

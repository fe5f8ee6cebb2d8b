import Linux012.ChrDrv.Tty
import Linux012.Lib.LineEditor

/-! Canonical input: `copy_to_cooked` edits lines backwards on the ring `secondary`, and
`tty_read` takes lines from its other end. -/

set_option autoImplicit false

namespace Linux012.ChrDrv

open Transition RingBuffer LineEditor List

/-- A call of `tty_read`: how much it was asked for, what it has taken from `secondary`
and what it has given to the user. -/
structure Read where
  nr : Nat
  taken : List UInt8
  returned : List UInt8

/-- A terminal in canonical mode with the call of `copy_to_cooked` and the call of
`tty_read` under way. The bytes taken from `read_q` and the finished calls of
`tty_read` are kept in lists. -/
structure Session where
  tty : Tty
  calls : List Frame
  reader : Option Read
  consumed : List UInt8
  reads : List Read

namespace Session

inductive Move where
  /-- a driver offers bytes to `read_q` -/
  | input (cs : List UInt8)
  /-- a call of `copy_to_cooked` -/
  | cook
  | run
  /-- `tty_read` finds that it need not sleep -/
  | read (nr : Nat)
  | getch

variable (setup : Setup) (s : Session)

def sleeps : Bool :=
  s.tty.secondary.ring.empty || (s.tty.termios.icanon && !s.tty.readQ.ring.full && s.tty.data = 0)

def next : List UInt8 :=
  if s.calls.head? matches some .cooked then
    if s.tty.readQ.ring.empty || s.tty.secondary.ring.full then [] else [s.tty.readQ.ring.buf s.tty.readQ.ring.tail]
  else []

/-- The inner loop of `tty_read` after `GETCH`. The loop around it ends as well, for
`L_CANON(tty)` holds. -/
def getch (r : Read) : Session :=
  let (c, tty) := s.tty.getch
  let taken := r.taken ++ [c]
  if tty.termios.is .eof c ∧ tty.termios.icanon then
    { s with tty := tty, reader := none, reads := s.reads ++ [{ r with taken := taken }] }
  else
    let r := { r with taken := taken, returned := r.returned ++ [c] }
    if r.returned.length = r.nr ∨ (c = 10 ∧ tty.termios.icanon) ∨ tty.secondary.ring.empty then
      { s with tty := tty, reader := none, reads := s.reads ++ [r] }
    else { s with tty := tty, reader := some r }

/-- `copy_to_cooked` is not left before it returns, and may cut into `tty_read` between
two bytes. -/
def step : Move → Option Session
  | .input cs => some { s with tty := { s.tty with readQ := s.tty.readQ.offer cs } }
  | .cook => if s.calls = [] then some { s with calls := [.cooked] } else none
  | .run =>
    match s.calls with
    | [] => none
    | frame :: rest =>
      (s.tty.step setup frame).map fun (tty, frames) =>
        { s with tty := tty, calls := frames ++ rest, consumed := s.consumed ++ s.next }
  | .read nr =>
    if s.calls = [] ∧ s.reader.isNone ∧ 0 < nr ∧ s.tty.termios.icanon ∧ ¬s.sleeps then
      some { s with reader := some { nr := nr, taken := [], returned := [] } }
    else none
  | .getch =>
    match s.calls, s.reader with
    | [], some r => some (s.getch r)
    | _, _ => none

def taken : List UInt8 := s.reads.flatMap Read.taken ++ (s.reader.elim [] Read.taken)

end Session

/-- The flags and control characters of canonical input without echo, signals and flow
control. -/
structure Canonical (termios : Termios) : Prop where
  icanon : termios.icanon = true
  isig : termios.isig = false
  ixon : termios.ixon = false
  echo : termios.echo = false
  iuclc : termios.iuclc = false
  cc : termios.cc = INIT_C_CC

/-! ## The reference editor. -/

def endsLine (c : UInt8) : Bool := c = 10 || c = 0o004

def key (c : UInt8) : Key UInt8 := if c = 0o025 then .kill else if c = 0o177 then .erase else .char c

def edited (termios : Termios) (consumed : List UInt8) : List UInt8 :=
  (consumed.filterMap termios.mapped).foldl (fun text c => edit endsLine text (key c)) []

/-- At most one line: up to `nr` bytes, up to the first newline, or before the first
`EOF` character, which is taken as well. -/
inductive Read.OneLine (r : Read) : Prop where
  | newline (line : List UInt8) (inLine : ∀ c ∈ line, endsLine c = false) (taken : r.taken = line ++ [10])
      (returned : r.returned = line ++ [10]) (most : r.returned.length ≤ r.nr)
  | eof (line : List UInt8) (inLine : ∀ c ∈ line, endsLine c = false) (taken : r.taken = line ++ [0o004])
      (returned : r.returned = line) (most : r.returned.length ≤ r.nr)
  | full (inLine : ∀ c ∈ r.taken, endsLine c = false) (returned : r.returned = r.taken)
      (all : r.returned.length = r.nr)

section Editor

variable {termios : Termios} {setup : Setup}

namespace Canonical

variable (canonical : Canonical termios)
include canonical

theorem is_eq (k : Control) (c : UInt8) : termios.is k c = decide (c = INIT_C_CC k) := by
  rw [Termios.is, canonical.cc]
  by_cases same : c = INIT_C_CC k
  · subst same
    cases k <;> rfl
  · simp [same]

theorem ends_eq (c : UInt8) : termios.ends c = endsLine c := by
  rw [Termios.ends, canonical.is_eq]
  rfl

theorem action_eq (c : UInt8) : termios.action setup c =
    match termios.mapped c with
    | none => .ignore
    | some c => match key c with
      | .kill => .kill
      | .erase => .erase
      | .char c => .store c := by
  rw [Termios.action]
  cases termios.mapped c with
  | none => rfl
  | some c =>
    simp only [canonical.icanon, canonical.isig, canonical.ixon, canonical.iuclc, canonical.is_eq, true_and,
      false_and, Bool.false_eq_true, ite_false, decide_eq_true_eq]
    rw [key]
    by_cases kills : c = 0o025
    · simp [kills, INIT_C_CC]
    · by_cases erases : c = 0o177
      · simp [erases, INIT_C_CC]
      · simp [kills, erases, INIT_C_CC]

end Canonical

theorem edited_snoc (termios : Termios) (consumed : List UInt8) (c : UInt8) : edited termios (consumed ++ [c]) =
    match termios.mapped c with
    | none => edited termios consumed
    | some c => edit endsLine (edited termios consumed) (key c) := by
  rw [edited, filterMap_append]
  cases mapped : termios.mapped c with
  | none => simp [mapped, edited]
  | some c' => simp [mapped, edited, foldl_append]

end Editor

/-! ## The invariant. -/

/-- What the calls of `copy_to_cooked` still have to do to the text, that `tty_read` has
taken from in front and that `secondary` holds the rest of. -/
inductive Progress (text taken line : List UInt8) (data : Nat) : List Frame → Prop where
  | idle (same : text = taken ++ line) (counted : data = line.countP endsLine) : Progress text taken line data []
  | cooked (same : text = taken ++ line) (counted : data = line.countP endsLine) :
      Progress text taken line data [.cooked]
  | storing (c : UInt8) (same : text = taken ++ line ++ [c]) (room : line.length < TTY_BUF_SIZE - 1)
      (counted : data = (line ++ [c]).countP endsLine) : Progress text taken line data [.storing c, .cooked]
  | erased (front : List UInt8) (c : UInt8) (last : line = front ++ [c]) (inLine : endsLine c = false)
      (same : text = taken ++ front) (counted : data = line.countP endsLine) :
      Progress text taken line data [.erased, .cooked]
  | killing (same : text = killed endsLine (taken ++ line)) (counted : data = line.countP endsLine) :
      Progress text taken line data [.killing, .cooked]
  | killed (front : List UInt8) (c : UInt8) (last : line = front ++ [c]) (inLine : endsLine c = false)
      (same : text = killed endsLine (taken ++ front)) (counted : data = line.countP endsLine) :
      Progress text taken line data [.killed, .cooked]

/-- A call of `tty_read` in its inner loop: the line that it reads goes on in `secondary`. -/
structure Read.Reading (r : Read) (line : List UInt8) : Prop where
  same : r.returned = r.taken
  inLine : ∀ c ∈ r.taken, endsLine c = false
  more : r.taken.length < r.nr
  ends : ∃ c ∈ line, endsLine c = true

structure Session.Inv (s : Session) : Prop where
  canonical : Canonical s.tty.termios
  progress : Progress (edited s.tty.termios s.consumed) s.taken s.tty.secondary.contents s.tty.data.toNat s.calls
  closed : (∀ c ∈ s.tty.secondary.contents, endsLine c = false) → Closed endsLine s.taken
  reader : ∀ r, s.reader = some r → r.Reading s.tty.secondary.contents
  reads : ∀ r ∈ s.reads, r.OneLine

section Steps

variable {setup : Setup} {tty : Tty}

theorem contents_snoc (some_ : tty.secondary.ring.empty = false) :
    tty.secondary.contents = tty.secondary.back.contents ++ [tty.secondary.ring.last] :=
  Ring.contents_back some_

theorem erasable_cases (canonical : Canonical tty.termios) :
    (tty.erasable = true ∧ tty.secondary.contents = tty.secondary.back.contents ++ [tty.secondary.ring.last] ∧
        endsLine tty.secondary.ring.last = false) ∨
      (tty.erasable = false ∧ (tty.secondary.contents = [] ∨
        ∃ front c, tty.secondary.contents = front ++ [c] ∧ endsLine c = true)) := by
  rw [Tty.erasable, canonical.ends_eq]
  by_cases empty : tty.secondary.ring.empty = true
  · exact .inr ⟨by simp [empty], .inl (Ring.empty_iff.mp empty)⟩
  · have snoc := contents_snoc (Bool.eq_false_iff.mpr empty)
    by_cases ended : endsLine tty.secondary.ring.last = true
    · exact .inr ⟨by simp [ended], .inr ⟨_, _, snoc, ended⟩⟩
    · exact .inl ⟨by simp [empty, ended], snoc, Bool.eq_false_iff.mpr ended⟩

theorem rubOut_silent (canonical : Canonical tty.termios) : tty.rubOut = (tty, []) := by
  rw [Tty.rubOut, canonical.echo]
  rfl

theorem accept_silent (canonical : Canonical tty.termios) (c : UInt8) :
    tty.accept c = (if endsLine c then { tty with data := tty.data + 1 } else tty, []) := by
  rw [Tty.accept, canonical.ends_eq]
  split
  · rw [if_neg (by simp [canonical.echo])]
  · rw [if_neg (by simp [canonical.echo])]

theorem closed_of_not_erasable {taken line : List UInt8}
    (closed : (∀ c ∈ line, endsLine c = false) → Closed endsLine taken)
    (stop : line = [] ∨ ∃ front c, line = front ++ [c] ∧ endsLine c = true) : Closed endsLine (taken ++ line) := by
  rcases stop with rfl | ⟨front, c, rfl, ended⟩
  · rw [append_nil]
    exact closed (by simp)
  · rw [← append_assoc]
    exact closed_snoc ended

theorem countP_snoc {line : List UInt8} {c : UInt8} (inLine : endsLine c = false) :
    (line ++ [c]).countP endsLine = line.countP endsLine := by
  simp [inLine]

end Steps

inductive LineChange (line : List UInt8) : List UInt8 → Prop where
  | same : LineChange line line
  | stored (c : UInt8) : LineChange line (line ++ [c])
  | dropped (front : List UInt8) (c : UInt8) (last : line = front ++ [c]) (inLine : endsLine c = false) :
      LineChange line front

theorem LineChange.end_kept {line line' : List UInt8} (change : LineChange line line')
    (some_ : ∃ c ∈ line, endsLine c = true) : ∃ c ∈ line', endsLine c = true := by
  cases change with
  | same => exact some_
  | stored c =>
    obtain ⟨e, member, ended⟩ := some_
    exact ⟨e, mem_append_left _ member, ended⟩
  | dropped _ c last inLine =>
    obtain ⟨e, member, ended⟩ := some_
    rw [last, mem_append, mem_singleton] at member
    rcases member with inFront | rfl
    · exact ⟨e, inFront, ended⟩
    · rw [inLine] at ended
      cases ended

namespace Session

variable {setup : Setup} {s s' : Session}

theorem Inv.change (inv : s.Inv) {tty : Tty} {calls : List Frame} {consumed : List UInt8}
    (termios : tty.termios = s.tty.termios) (change : LineChange s.tty.secondary.contents tty.secondary.contents)
    (progress : Progress (edited s.tty.termios consumed) s.taken tty.secondary.contents tty.data.toNat calls) :
    Inv { s with tty := tty, calls := calls, consumed := consumed } where
  canonical := termios ▸ inv.canonical
  progress := by
    dsimp only
    rw [termios]
    exact progress
  closed noEnd := by
    refine inv.closed fun c member => Bool.eq_false_iff.mpr fun ended => ?_
    obtain ⟨e, member', ended'⟩ := change.end_kept ⟨c, member, ended⟩
    rw [noEnd e member'] at ended'
    cases ended'
  reader r reading := { inv.reader r reading with ends := change.end_kept (inv.reader r reading).ends }
  reads := inv.reads

theorem cooked_inv (inv : s.Inv) (calls : s.calls = [.cooked])
    (same : edited s.tty.termios s.consumed = s.taken ++ s.tty.secondary.contents)
    (counted : s.tty.data.toNat = s.tty.secondary.contents.countP endsLine) :
    Inv { s with
      tty := (s.tty.cooked setup).1
      calls := (s.tty.cooked setup).2
      consumed := s.consumed ++ s.next } := by
  by_cases idle : (s.tty.readQ.ring.empty || s.tty.secondary.ring.full) = true
  · have none_ : s.next = [] := by simp [next, calls, idle]
    rw [Tty.cooked, if_pos idle, none_, append_nil]
    exact inv.change rfl .same (.idle same counted)
  · have one : s.next = [s.tty.readQ.ring.buf s.tty.readQ.ring.tail] := by
      simp only [next, calls, idle]
      rfl
    have room : s.tty.secondary.ring.full = false := by simp at idle; exact idle.2
    rw [Tty.cooked, if_neg idle, one]
    dsimp only
    rw [inv.canonical.action_eq]
    generalize s.tty.readQ.ring.buf s.tty.readQ.ring.tail = c
    have text := edited_snoc s.tty.termios s.consumed c
    cases mapped : s.tty.termios.mapped c with
    | none =>
      rw [mapped] at text
      exact inv.change rfl .same (.cooked (text.trans same) counted)
    | some c' =>
      rw [mapped] at text
      dsimp only at text
      cases pressed : key c' with
      | kill =>
        simp only [pressed]
        refine inv.change rfl .same (.killing ?_ counted)
        rw [text, pressed, same]
        rfl
      | erase =>
        rw [pressed, same] at text
        let taken : Tty := { s.tty with readQ := s.tty.readQ.get }
        have canonical : Canonical taken.termios := inv.canonical
        rcases erasable_cases canonical with ⟨can, last, inLine⟩ | ⟨cannot, stop⟩
        · simp only [pressed]
          rw [if_pos can, rubOut_silent canonical]
          refine inv.change rfl .same (.erased _ _ last inLine ?_ counted)
          have here : s.tty.secondary.contents = _ := last
          rw [text, here, ← append_assoc]
          exact erased_snoc inLine
        · simp only [pressed]
          rw [if_neg (by rw [cannot]; simp)]
          refine inv.change rfl .same (.cooked ?_ counted)
          rw [text]
          exact erased_closed (closed_of_not_erasable inv.closed stop)
      | char c'' =>
        rw [pressed, same] at text
        let taken : Tty := { s.tty with readQ := s.tty.readQ.get }
        have canonical : Canonical taken.termios := inv.canonical
        have space : s.tty.secondary.contents.length < TTY_BUF_SIZE - 1 := by
          have length : s.tty.secondary.contents.length = s.tty.secondary.ring.chars := Ring.length_contents
          have small := s.tty.secondary.ring.chars_lt
          have notFull : s.tty.secondary.ring.chars ≠ TTY_BUF_SIZE - 1 := fun many => by
            rw [Ring.full_iff.mpr many] at room
            cases room
          omega
        simp only [pressed]
        rw [accept_silent canonical]
        have stored : edited s.tty.termios (s.consumed ++ [c]) = s.taken ++ s.tty.secondary.contents ++ [c''] := text
        by_cases ended : endsLine c'' = true
        · rw [if_pos ended]
          refine inv.change rfl .same (.storing c'' stored space ?_)
          have most := countP_le_length (p := endsLine) (l := s.tty.secondary.contents)
          have size : TTY_BUF_SIZE = 1024 := rfl
          have one : (1 : UInt32).toNat = 1 := rfl
          show (s.tty.data + 1).toNat = _
          rw [UInt32.toNat_add, counted, one, Nat.mod_eq_of_lt (by omega)]
          simp [ended, taken]
        · rw [if_neg ended]
          refine inv.change rfl .same (.storing c'' stored space ?_)
          exact counted.trans (countP_snoc (Bool.eq_false_iff.mpr ended)).symm

theorem next_nil {frame : Frame} {rest : List Frame} (here : s.calls = frame :: rest) (other : frame ≠ .cooked) :
    s.next = [] := by
  rw [next, here]
  cases frame <;> first | rfl | exact absurd rfl other

theorem dropped_back {front : List UInt8} {c : UInt8} (last : s.tty.secondary.contents = front ++ [c]) :
    s.tty.secondary.back.contents = front := by
  have some_ : s.tty.secondary.ring.empty = false := by
    refine Bool.eq_false_iff.mpr fun empty => ?_
    have none_ : s.tty.secondary.contents = [] := Ring.empty_iff.mp empty
    simp [none_] at last
  exact (append_inj' ((contents_snoc some_).symm.trans last) rfl).1

theorem run_inv (inv : s.Inv) (moved : s.step setup .run = some s') : s'.Inv := by
  have progress := inv.progress
  generalize atCalls : s.calls = calls at progress
  rw [step, atCalls] at moved
  cases progress with
  | idle => cases moved
  | cooked same counted =>
    have ran : s' = { s with
        tty := (s.tty.cooked setup).1
        calls := (s.tty.cooked setup).2
        consumed := s.consumed ++ s.next } := by
      rw [← Option.some.inj moved]
      dsimp only
      rw [append_nil]
    rw [ran]
    exact cooked_inv inv atCalls same counted
  | storing c same room counted =>
    cases moved
    rw [next_nil atCalls (by simp), append_nil]
    have notFull : s.tty.secondary.ring.full = false := by
      refine Bool.eq_false_iff.mpr fun full => ?_
      have many := Ring.full_iff.mp full
      rw [← Ring.length_contents] at many
      exact absurd many room.ne
    have stored : (s.tty.secondary.put c).contents = s.tty.secondary.contents ++ [c] := Ring.contents_put notFull
    refine inv.change rfl (by rw [stored]; exact .stored c) ?_
    dsimp only
    rw [stored]
    exact .cooked (same.trans (append_assoc _ _ _)) counted
  | erased front c last inLine same counted =>
    cases moved
    rw [next_nil atCalls (by simp), append_nil]
    have back := dropped_back last
    refine inv.change rfl (by rw [back]; exact .dropped front c last inLine) ?_
    dsimp only
    rw [back]
    exact .cooked same (counted.trans (by rw [last, countP_snoc inLine]))
  | killing same counted =>
    rcases erasable_cases inv.canonical with ⟨can, last, inLine⟩ | ⟨cannot, stop⟩
    · have ran : s.tty.killing = (s.tty, [.killed]) := by
        rw [Tty.killing, if_pos can, rubOut_silent inv.canonical]
        rfl
      have stepped : s.tty.step setup .killing = some (s.tty, [.killed]) := congrArg some ran
      dsimp only at moved
      rw [stepped] at moved
      cases moved
      rw [next_nil atCalls (by simp), append_nil]
      refine inv.change rfl .same (.killed _ _ last inLine ?_ counted)
      rw [same, last, ← append_assoc]
      exact killed_snoc inLine
    · have ran : s.tty.killing = (s.tty, []) := by rw [Tty.killing, if_neg (by rw [cannot]; simp)]
      have stepped : s.tty.step setup .killing = some (s.tty, []) := congrArg some ran
      dsimp only at moved
      rw [stepped] at moved
      cases moved
      rw [next_nil atCalls (by simp), append_nil]
      exact inv.change rfl .same (.cooked (same.trans (closed_of_not_erasable inv.closed stop)) counted)
  | killed front c last inLine same counted =>
    cases moved
    rw [next_nil atCalls (by simp), append_nil]
    have back := dropped_back last
    refine inv.change rfl (by rw [back]; exact .dropped front c last inLine) ?_
    dsimp only
    rw [back]
    exact .killing same (counted.trans (by rw [last, countP_snoc inLine]))

theorem read_inv {nr : Nat} (inv : s.Inv) (notFull : s.tty.readQ.ring.full = false)
    (moved : s.step setup (.read nr) = some s') : s'.Inv := by
  rw [step] at moved
  split at moved
  case isFalse => cases moved
  case isTrue ready =>
    obtain ⟨atCalls, noReader, some_, canon, awake⟩ := ready
    cases moved
    have counted : s.tty.data.toNat = s.tty.secondary.contents.countP endsLine := by
      have progress := inv.progress
      rw [atCalls] at progress
      cases progress with
      | idle _ counted => exact counted
    have lines : s.tty.data ≠ 0 := by
      intro zero
      simp [sleeps, canon, notFull, zero] at awake
    have ends : ∃ c ∈ s.tty.secondary.contents, endsLine c = true := by
      refine countP_pos_iff.mp (Nat.pos_of_ne_zero fun none_ => lines ?_)
      exact UInt32.toNat_inj.mp (counted.trans none_)
    have none_ : s.reader = none := Option.isNone_iff_eq_none.mp noReader
    have same : ({ s with reader := some { nr := nr, taken := [], returned := [] } } : Session).taken = s.taken := by
      simp [taken, none_]
    refine ⟨inv.canonical, same ▸ inv.progress, same ▸ inv.closed, ?_, inv.reads⟩
    rintro r ⟨⟩
    exact ⟨rfl, by simp, some_, ends⟩

section Getch

variable {r : Read} {c : UInt8}

theorem Inv.took (inv : s.Inv) (atCalls : s.calls = []) (atReader : s.reader = some r)
    (first : s.tty.secondary.contents = s.tty.getch.1 :: s.tty.getch.2.secondary.contents)
    {reader : Option Read} {reads : List Read}
    (more : reads.flatMap Read.taken ++ reader.elim [] Read.taken = s.taken ++ [s.tty.getch.1])
    (goesOn : ∀ r', reader = some r' → r'.Reading s.tty.getch.2.secondary.contents)
    (lines : ∀ r' ∈ reads, r'.OneLine) :
    Inv { s with tty := s.tty.getch.2, reader := reader, reads := reads } := by
  have progress := inv.progress
  rw [atCalls] at progress
  cases progress with
  | idle same counted =>
    have counted' : s.tty.getch.2.data.toNat = s.tty.getch.2.secondary.contents.countP endsLine := by
      rw [first, countP_cons] at counted
      show (if s.tty.termios.ends s.tty.getch.1 then s.tty.data - 1 else s.tty.data).toNat = _
      rw [inv.canonical.ends_eq]
      by_cases ended : endsLine s.tty.getch.1 = true
      · rw [if_pos ended] at counted ⊢
        have one : (1 : UInt32).toNat = 1 := rfl
        rw [UInt32.toNat_sub_of_le _ _ (by rw [UInt32.le_iff_toNat_le, counted, one]; omega), counted, one]
        omega
      · rw [if_neg ended] at counted ⊢
        exact counted
    refine ⟨inv.canonical, ?_, ?_, goesOn, lines⟩
    · show Progress _ (reads.flatMap Read.taken ++ reader.elim [] Read.taken) _ _ s.calls
      rw [more, atCalls]
      refine .idle (same.trans ?_) counted'
      rw [first, append_assoc]
      rfl
    · intro noEnd
      show Closed endsLine (reads.flatMap Read.taken ++ reader.elim [] Read.taken)
      rw [more]
      obtain ⟨e, member, ended⟩ := (inv.reader r atReader).ends
      rw [first, mem_cons] at member
      rcases member with rfl | later
      · exact closed_snoc ended
      · rw [noEnd e later] at ended
        cases ended

theorem getch_inv (inv : s.Inv) (moved : s.step setup .getch = some s') : s'.Inv := by
  rw [step] at moved
  split at moved
  case h_2 => cases moved
  case h_1 r atCalls atReader =>
    have reading := inv.reader r atReader
    have some_ : s.tty.secondary.ring.empty = false := by
      refine Bool.eq_false_iff.mpr fun empty => ?_
      have none_ : s.tty.secondary.contents = [] := Ring.empty_iff.mp empty
      obtain ⟨c, member, _⟩ := reading.ends
      rw [none_] at member
      cases member
    have first : s.tty.secondary.contents = s.tty.getch.1 :: s.tty.getch.2.secondary.contents :=
      Ring.contents_get some_
    have before : s.taken = s.reads.flatMap Read.taken ++ r.taken := by rw [taken, atReader]; rfl
    have canonical : Canonical s.tty.getch.2.termios := inv.canonical
    cases moved
    have over_ {r' : Read} (took : r'.taken = r.taken ++ [s.tty.getch.1]) (line : r'.OneLine) :
        Inv { s with tty := s.tty.getch.2, reader := none, reads := s.reads ++ [r'] } := by
      refine inv.took atCalls atReader first ?_ (by simp) fun r'' member => ?_
      · rw [before, flatMap_append]
        simp [took]
      · rcases mem_append.mp member with old | new
        · exact inv.reads r'' old
        · exact mem_singleton.mp new ▸ line
    have onward {r' : Read} (took : r'.taken = r.taken ++ [s.tty.getch.1])
        (goesOn : r'.Reading s.tty.getch.2.secondary.contents) :
        Inv { s with tty := s.tty.getch.2, reader := some r' } := by
      refine inv.took atCalls atReader first (by simp [before, took]) ?_ inv.reads
      rintro r'' ⟨⟩
      exact goesOn
    rw [getch]
    dsimp only
    rw [canonical.is_eq, canonical.icanon]
    generalize s.tty.getch.1 = c at *
    have room : (r.returned ++ [c]).length ≤ r.nr := by
      rw [length_append, length_singleton, reading.same]
      exact reading.more
    split
    case isTrue eof =>
      have isEof : c = 0o004 := of_decide_eq_true eof.1
      refine over_ rfl (.eof r.taken reading.inLine (by rw [isEof]) reading.same ?_)
      rw [reading.same]
      exact reading.more.le
    case isFalse notEof =>
      have notEof : c ≠ 0o004 := fun isEof => notEof ⟨decide_eq_true isEof, rfl⟩
      by_cases newline : c = 10
      · rw [if_pos (.inr (.inl ⟨newline, rfl⟩))]
        refine over_ rfl (.newline r.taken reading.inLine (by rw [newline]) ?_ room)
        rw [reading.same, newline]
      · have inLine : endsLine c = false := by simp [endsLine, newline, notEof]
        have inLines : ∀ e ∈ r.taken ++ [c], endsLine e = false := by
          intro e member
          rcases mem_append.mp member with old | new
          · exact reading.inLine e old
          · exact mem_singleton.mp new ▸ inLine
        have ends : ∃ e ∈ s.tty.getch.2.secondary.contents, endsLine e = true := by
          obtain ⟨e, member, ended⟩ := reading.ends
          rw [first, mem_cons] at member
          rcases member with rfl | later
          · rw [inLine] at ended
            cases ended
          · exact ⟨e, later, ended⟩
        split
        case isTrue stops =>
          have all : (r.returned ++ [c]).length = r.nr := by
            rcases stops with all | line | empty
            · exact all
            · exact absurd line.1 newline
            · have none_ : s.tty.getch.2.secondary.contents = [] := Ring.empty_iff.mp empty
              obtain ⟨e, member, _⟩ := ends
              rw [none_] at member
              cases member
          exact over_ rfl (.full inLines (by rw [reading.same]) all)
        case isFalse goesOn =>
          refine onward rfl ⟨by rw [reading.same], inLines, ?_, ends⟩
          have notAll : (r.returned ++ [c]).length ≠ r.nr := fun all => goesOn (.inl all)
          rw [reading.same] at notAll room
          exact lt_of_le_of_ne room notAll

end Getch

theorem step_inv {m : Move} (inv : s.Inv) (notFull : ∀ nr, m = .read nr → s.tty.readQ.ring.full = false)
    (moved : s.step setup m = some s') : s'.Inv := by
  cases m with
  | input cs =>
    cases moved
    exact ⟨inv.canonical, inv.progress, inv.closed, inv.reader, inv.reads⟩
  | cook =>
    rw [step] at moved
    split at moved
    case isTrue atCalls =>
      cases moved
      have progress := inv.progress
      rw [atCalls] at progress
      cases progress with
      | idle same counted => exact ⟨inv.canonical, .cooked same counted, inv.closed, inv.reader, inv.reads⟩
    case isFalse => cases moved
  | run => exact run_inv inv moved
  | read nr => exact read_inv inv (notFull nr rfl) moved
  | getch => exact getch_inv inv moved

def start (tty : Tty) : Session where
  tty := tty
  calls := []
  reader := none
  consumed := []
  reads := []

theorem start_inv {tty : Tty} (canonical : Canonical tty.termios) (empty : tty.secondary.contents = [])
    (noLine : tty.data = 0) : (start tty).Inv where
  canonical := canonical
  progress := .idle (by rw [show (start tty).tty.secondary.contents = [] from empty]; rfl)
    (by rw [show (start tty).tty.secondary.contents = [] from empty, show (start tty).tty.data = 0 from noLine]; rfl)
  closed _ := closed_nil
  reader r reading := by cases reading
  reads r member := by cases member

/-- What was taken from `read_q`, mapped and edited, is what `tty_read` has taken and
what is left in `secondary`; each call of `tty_read` gives at most one line. -/
theorem edited_eq_taken {tty : Tty} (canonical : Canonical tty.termios) (empty : tty.secondary.contents = [])
    (noLine : tty.data = 0)
    (reached : Run (step setup) (fun s m => ∀ nr, m = .read nr → s.tty.readQ.ring.full = false) (start tty) s) :
    (s.calls = [] ∨ s.calls = [.cooked] → edited s.tty.termios s.consumed = s.taken ++ s.tty.secondary.contents) ∧
    ∀ r ∈ s.reads, r.OneLine := by
  have inv : s.Inv := reached.invariant (fun inv notFull moved => step_inv inv notFull moved)
    (start_inv canonical empty noLine)
  refine ⟨fun atCalls => ?_, inv.reads⟩
  have progress := inv.progress
  rcases atCalls with idle | cooked
  · rw [idle] at progress
    cases progress with
    | idle same _ => exact same
  · rw [cooked] at progress
    cases progress with
    | cooked same _ => exact same

def readable (s : Session) : Move → Bool
  | .read _ => !s.tty.readQ.ring.full
  | _ => true

theorem erased_letter_read :
    ∃ s : Session, s.taken = [98, 10] ∧
      ((s.calls = [] ∨ s.calls = [.cooked] → edited s.tty.termios s.consumed = s.taken ++ s.tty.secondary.contents) ∧
      ∀ r ∈ s.reads, r.OneLine) := by
  let boot : Boot := ⟨0, 24, 3, 80, 25, 3⟩
  let tty : Tty :=
    { (boot.ttyInit fun _ => 0).ttys 64 with termios := { rawTermios with icanon := true, icrnl := true } }
  obtain ⟨s, reached, read⟩ := exists_of_runIf (step (boot.setup id id)) readable (start tty)
    ([.input [97, 127, 98, 13], .cook] ++ List.replicate 9 .run ++ [.read 5, .getch, .getch])
    (fun s => s.taken = [98, 10]) (by decide +kernel)
  refine ⟨s, read, edited_eq_taken ⟨rfl, rfl, rfl, rfl, rfl, rfl⟩ rfl rfl (reached.weaken fun s m ok nr isRead => ?_)⟩
  subst isRead
  simpa [readable] using ok

end Session

end Linux012.ChrDrv

import Linux012.ChrDrv.Tty

/-! What the queues of terminals hold. `PUTCH` does not look whether a queue is full; the
bytes stay exactly as long as each caller that does not look either finds room. -/

set_option autoImplicit false

namespace Linux012.ChrDrv

open Transition RingBuffer Function

inductive Which where
  | read
  | write
  | secondary

def Tty.queue (tty : Tty) : Which → Queue
  | .read => tty.readQ
  | .write => tty.writeQ
  | .secondary => tty.secondary

inductive Use where
  | puts
  | getch
  | dec
  | flush

/-- The bytes before and after a step; `GETCH` and `DEC` may find nothing to take. -/
def Use.Allows (before after : List UInt8) : Use → Prop
  | .puts => before <+: after
  | .getch => before ≠ [] → after = before.tail
  | .dec => before ≠ [] → after = before.dropLast
  | .flush => after = []

/-- No byte is stored to a full queue, and only `GETCH`, `DEC` and `flush` remove bytes. -/
structure Use.Keeps (use : Use) (q q' : Queue) : Prop where
  room : q'.overruns = q.overruns
  bytes : use.Allows q.contents q'.contents

section Queues

variable {q : Queue}

theorem Use.Keeps.same : Use.puts.Keeps q q := ⟨rfl, List.prefix_rfl⟩

theorem keeps_putAll {cs : List UInt8} : Use.puts.Keeps q (q.putAll cs) ↔ cs.length ≤ q.ring.left := by
  constructor
  · exact fun keeps => Watched.overruns_putAll_iff.mp keeps.room
  · intro room
    refine ⟨Watched.overruns_putAll_iff.mpr room, ?_⟩
    rw [Use.Allows, Watched.contents_putAll room]
    exact List.prefix_append _ _

theorem keeps_put {c : UInt8} : Use.puts.Keeps q (q.put c) ↔ q.ring.full = false := by
  constructor
  · exact fun keeps => Watched.overruns_put_iff.mp keeps.room
  · intro room
    refine ⟨Watched.overruns_put_iff.mpr room, ?_⟩
    have contents : (q.put c).contents = q.contents ++ [c] := Ring.contents_put room
    rw [Use.Allows, contents]
    exact List.prefix_append _ _

theorem Use.Keeps.trans {q' q'' : Queue} (first : Use.puts.Keeps q q') (second : Use.puts.Keeps q' q'') :
    Use.puts.Keeps q q'' :=
  ⟨second.room.trans first.room, first.bytes.trans second.bytes⟩

theorem keeps_offer {cs : List UInt8} : Use.puts.Keeps q (q.offer cs) := by
  refine ⟨rfl, ?_⟩
  show q.ring.contents <+: (q.ring.offer cs).contents
  rcases Ring.contents_offer (q := q.ring) with stored | discarded
  · exact stored.symm ▸ List.prefix_append _ _
  · exact discarded.symm ▸ List.prefix_rfl

theorem empty_of_contents (some_ : q.contents ≠ []) : q.ring.empty = false :=
  Bool.eq_false_iff.mpr fun empty => some_ (Ring.empty_iff.mp empty)

theorem keeps_get : Use.getch.Keeps q q.get := by
  refine ⟨rfl, fun some_ => ?_⟩
  have first : q.contents = q.ring.buf q.ring.tail :: q.get.contents := Ring.contents_get (empty_of_contents some_)
  rw [first]
  rfl

theorem keeps_back : Use.dec.Keeps q q.back := by
  refine ⟨rfl, fun some_ => ?_⟩
  have last : q.contents = q.back.contents ++ [q.ring.last] := Ring.contents_back (empty_of_contents some_)
  rw [last, List.dropLast_concat]

theorem keeps_flushed {given : Bool} :
    (if given then Use.flush else .puts).Keeps q (if given then q.flush else q) := by
  cases given with
  | false => exact .same
  | true => exact ⟨rfl, Ring.contents_flush⟩

end Queues

def Tty.uses (tty : Tty) : Frame → Which → Use
  | .cooked, .read => if tty.readQ.ring.empty || tty.secondary.ring.full then .puts else .getch
  | .killed, .secondary => .dec
  | .erased, .secondary => .dec
  | .conWrite nr, .write => if nr = 0 ∨ tty.stopped then .puts else .getch
  | _, _ => .puts

def Tty.Keeps (use : Which → Use) (tty tty' : Tty) : Prop :=
  ∀ which, (use which).Keeps (tty.queue which) (tty'.queue which)

/-- There is room for what a step stores without looking: the echo of a byte, of an
erased or a killed character, a character that was echoed, and the answer to a query. -/
def Tty.Room (setup : Setup) (tty : Tty) : Frame → Prop
  | .cooked =>
    tty.readQ.ring.empty = false → tty.secondary.ring.full = false → tty.termios.echo = true →
      match tty.termios.action setup (tty.readQ.ring.buf tty.readQ.ring.tail) with
      | .erase =>
        tty.erasable = true → (Termios.rubout tty.secondary.ring.last).length ≤ tty.writeQ.ring.left
      | .store c => (tty.termios.echoed c).length ≤ tty.writeQ.ring.left
      | _ => True
  | .killing =>
    tty.erasable = true → tty.termios.echo = true →
      (Termios.rubout tty.secondary.ring.last).length ≤ tty.writeQ.ring.left
  | .storing _ => tty.secondary.ring.full = false
  | .conWrite nr =>
    nr ≠ 0 → tty.stopped = false → tty.console.state = .esc →
      tty.writeQ.ring.buf tty.writeQ.ring.tail = char 'Z' → RESPONSE.length ≤ tty.readQ.ring.left
  | _ => True

namespace Tty

variable {setup : Setup} {tty tty' : Tty}

theorem keeps_iff {use : Which → Use} :
    Keeps use tty tty' ↔ (use .read).Keeps tty.readQ tty'.readQ ∧ (use .write).Keeps tty.writeQ tty'.writeQ ∧
      (use .secondary).Keeps tty.secondary tty'.secondary := by
  constructor
  · exact fun keeps => ⟨keeps .read, keeps .write, keeps .secondary⟩
  · rintro ⟨read, write, secondary⟩ (_ | _ | _)
    · exact read
    · exact write
    · exact secondary

theorem rubOut_keeps : Keeps (fun _ => .puts) tty tty.rubOut.1 ↔
    (tty.termios.echo = true → (Termios.rubout tty.secondary.ring.last).length ≤ tty.writeQ.ring.left) := by
  rw [keeps_iff, rubOut]
  split
  case isTrue echo =>
    refine ⟨fun keeps _ => keeps_putAll.mp keeps.2.1, fun room => ?_⟩
    exact ⟨.same, keeps_putAll.mpr (room echo), .same⟩
  case isFalse silent => exact ⟨fun _ echo => absurd echo silent, fun _ => ⟨.same, .same, .same⟩⟩

theorem rubOut_readQ : tty.rubOut.1.readQ = tty.readQ := by
  rw [rubOut]
  split <;> rfl

theorem accept_readQ {c : UInt8} : (tty.accept c).1.readQ = tty.readQ := by
  rw [accept]
  split <;> split <;> rfl

theorem accept_keeps {c : UInt8} : Keeps (fun _ => .puts) tty (tty.accept c).1 ↔
    (tty.termios.echo = true → (tty.termios.echoed c).length ≤ tty.writeQ.ring.left) := by
  rw [keeps_iff, accept]
  split <;> split
  case isTrue.isTrue echo =>
    refine ⟨fun keeps _ => keeps_putAll.mp keeps.2.1, fun room => ?_⟩
    exact ⟨.same, keeps_putAll.mpr (room echo), .same⟩
  case isFalse.isTrue echo =>
    refine ⟨fun keeps _ => keeps_putAll.mp keeps.2.1, fun room => ?_⟩
    exact ⟨.same, keeps_putAll.mpr (room echo), .same⟩
  case isTrue.isFalse silent => exact ⟨fun _ echo => absurd echo silent, fun _ => ⟨.same, .same, .same⟩⟩
  case isFalse.isFalse silent => exact ⟨fun _ echo => absurd echo silent, fun _ => ⟨.same, .same, .same⟩⟩

theorem taken_keeps {use : Which → Use} (read : use .read = .getch) (write : use .write = .puts)
    (secondary : use .secondary = .puts) (same : tty'.readQ = tty.readQ.get) :
    Keeps use tty tty' ↔ Keeps (fun _ => .puts) { tty with readQ := tty.readQ.get } tty' := by
  rw [keeps_iff, keeps_iff, read, write, secondary, same]
  exact and_congr_left fun _ => iff_of_true keeps_get .same

theorem cooked_keeps : Keeps (tty.uses .cooked) tty (tty.cooked setup).1 ↔ tty.Room setup .cooked := by
  by_cases idle : (tty.readQ.ring.empty || tty.secondary.ring.full) = true
  · have stay : tty.cooked setup = (tty, []) := by rw [cooked, if_pos idle]
    have none_ : tty.uses .cooked .read = .puts := by rw [uses, if_pos idle]
    rw [stay, keeps_iff, none_]
    refine iff_of_true ⟨.same, .same, .same⟩ fun some_ room => ?_
    rw [some_, room] at idle
    cases idle
  · have taking : tty.uses .cooked .read = .getch := by rw [uses, if_neg idle]
    have some_ : tty.readQ.ring.empty = false ∧ tty.secondary.ring.full = false := by
      simpa using idle
    rw [Room, cooked, if_neg idle]
    simp only [some_, true_imp_iff]
    have taken {tty' : Tty} (same : tty'.readQ = tty.readQ.get) :
        Keeps (tty.uses .cooked) tty tty' ↔ Keeps (fun _ => .puts) { tty with readQ := tty.readQ.get } tty' :=
      taken_keeps taking rfl rfl same
    have unwatched {tty' : Tty} (read : tty'.readQ = tty.readQ.get) (write : tty'.writeQ = tty.writeQ)
        (secondary : tty'.secondary = tty.secondary) : Keeps (tty.uses .cooked) tty tty' := by
      rw [taken read, keeps_iff, read, write, secondary]
      exact ⟨.same, .same, .same⟩
    cases tty.termios.action setup (tty.readQ.ring.buf tty.readQ.ring.tail) with
    | ignore | signal | kill | stop | start => exact iff_of_true (unwatched rfl rfl rfl) fun _ => trivial
    | erase =>
      dsimp only
      by_cases erasable : ({ tty with readQ := tty.readQ.get } : Tty).erasable = true
      · have erasable' : tty.erasable = true := erasable
        rw [if_pos erasable, taken rubOut_readQ, rubOut_keeps]
        exact ⟨fun room echo _ => room echo, fun room echo => room echo erasable'⟩
      · rw [if_neg erasable]
        exact iff_of_true (unwatched rfl rfl rfl) fun _ erasable' => absurd erasable' erasable
    | store c => exact (taken accept_readQ).trans accept_keeps

theorem killing_keeps : Keeps (tty.uses .killing) tty tty.killing.1 ↔ tty.Room setup .killing := by
  have nothing : tty.uses .killing = fun _ => .puts := funext fun which => by cases which <;> rfl
  rw [nothing, killing, Room]
  by_cases erasable : tty.erasable = true
  · rw [if_pos erasable, rubOut_keeps]
    exact ⟨fun room _ echo => room echo, fun room echo => room erasable echo⟩
  · rw [if_neg erasable, keeps_iff]
    exact iff_of_true ⟨.same, .same, .same⟩ fun erasable' => absurd erasable' erasable

theorem conWrite_keeps {nr : Nat} :
    Keeps (tty.uses (.conWrite nr)) tty (tty.conWrite setup nr).1 ↔ tty.Room setup (.conWrite nr) := by
  rw [keeps_iff, conWrite, Room]
  by_cases over_ : nr = 0 ∨ tty.stopped = true
  · have none_ : tty.uses (.conWrite nr) .write = .puts := by rw [uses, if_pos over_]
    rw [if_pos over_, none_]
    refine iff_of_true ⟨.same, .same, .same⟩ fun more running => ?_
    rcases over_ with zero | stopped
    · exact absurd zero more
    · rw [running] at stopped
      cases stopped
  · have taking : tty.uses (.conWrite nr) .write = .getch := by rw [uses, if_neg over_]
    have more : nr ≠ 0 ∧ tty.stopped = false := by simpa using over_
    rw [if_neg over_, taking]
    dsimp only
    split
    case isTrue query =>
      constructor
      · exact fun keeps _ _ _ _ => keeps_putAll.mp keeps.1
      · exact fun room => ⟨keeps_putAll.mpr (room more.1 more.2 query.1 query.2), keeps_get, .same⟩
    case isFalse plain =>
      exact iff_of_true ⟨.same, keeps_get, .same⟩ fun _ _ escaped query => absurd ⟨escaped, query⟩ plain

theorem step_keeps {frame : Frame} {frames : List Frame} (ran : tty.step setup frame = some (tty', frames)) :
    Keeps (tty.uses frame) tty tty' ↔ tty.Room setup frame := by
  cases frame with
  | cooked =>
    have same : (tty.cooked setup).1 = tty' := congrArg Prod.fst (Option.some.inj ran)
    rw [← same]
    exact cooked_keeps
  | killing =>
    have same : tty.killing.1 = tty' := congrArg Prod.fst (Option.some.inj ran)
    rw [← same]
    exact killing_keeps
  | killed | erased =>
    cases ran
    exact iff_of_true (keeps_iff.mpr ⟨.same, .same, keeps_back⟩) trivial
  | storing c =>
    cases ran
    rw [keeps_iff]
    exact ⟨fun keeps => keeps_put.mp keeps.2.2, fun room => ⟨.same, .same, keeps_put.mpr room⟩⟩
  | conWrite nr =>
    have same : (tty.conWrite setup nr).1 = tty' := congrArg Prod.fst (Option.some.inj ran)
    rw [← same]
    exact conWrite_keeps
  | write | ptyCopy => cases ran

theorem fill_keeps (cs : List UInt8) (crFlag : Bool) (tty : Tty) :
    Keeps (fun _ => .puts) tty (fill setup cs crFlag tty).2 := by
  induction cs generalizing crFlag tty with
  | nil => exact keeps_iff.mpr ⟨.same, .same, .same⟩
  | cons b rest ih =>
    have stored {q : Queue} (keeps : Use.puts.Keeps tty.writeQ q) {tty' : Tty}
        (later : Keeps (fun _ => .puts) { tty with writeQ := q } tty') : Keeps (fun _ => .puts) tty tty' := by
      obtain ⟨read, write, secondary⟩ := keeps_iff.mp later
      exact keeps_iff.mpr ⟨read, keeps.trans write, secondary⟩
    rw [fill]
    split
    case isTrue => exact keeps_iff.mpr ⟨.same, .same, .same⟩
    case isFalse room =>
      have first (c : UInt8) := keeps_put (c := c) |>.mpr (Bool.eq_false_iff.mpr room)
      dsimp only
      split
      case isTrue =>
        split
        case isTrue => exact stored (first 13) (keeps_iff.mpr ⟨.same, .same, .same⟩)
        case isFalse room' =>
          have second (c : UInt8) := keeps_put (c := c) |>.mpr (Bool.eq_false_iff.mpr room')
          exact stored ((first 13).trans (second _)) (ih _ _)
      case isFalse => exact stored (first _) (ih _ _)

end Tty

namespace State

variable {setup : Setup} {s s' : State}

def uses (setup : Setup) (s : State) : Move → UInt8 → Which → Use
  | .run _, t, which =>
    match s.stack with
    | [] => .puts
    | (t', frame) :: _ =>
      if t ≠ t' then .puts
      else
        match frame, setup.driver t, which with
        | .ptyCopy, some (.pty other), .write =>
          if (s.ttys t).stopped || (s.ttys t).writeQ.ring.empty || (s.ttys other).readQ.ring.full then .puts
          else .getch
        | frame, _, which => (s.ttys t).uses frame which
  | .ttyRead t', t, .secondary => if t = t' then .getch else .puts
  | .transmit t', t, .write => if t = t' then .getch else .puts
  | .tcflsh t' true _, t, .read => if t = t' then .flush else .puts
  | .tcflsh t' _ true, t, .write => if t = t' then .flush else .puts
  | .tcsets t' _ true, t, .read => if t = t' then .flush else .puts
  | _, _, _ => .puts

def Keeps (setup : Setup) (s : State) (m : Move) (s' : State) : Prop :=
  ∀ t, Tty.Keeps (uses setup s m t) (s.ttys t) (s'.ttys t)

/-- There is room for all bytes that the move stores without looking: those of a call
under way, and the stop and start characters of `TCIOFF` and `TCION`. -/
def Room (setup : Setup) (s : State) : Move → Prop
  | .run _ =>
    match s.stack with
    | [] => True
    | (t, frame) :: _ => (s.ttys t).Room setup frame
  | .tcxonc t .tcioff => (s.ttys t).termios.cc .stop ≠ 0 → (s.ttys t).writeQ.ring.full = false
  | .tcxonc t .tcion => (s.ttys t).termios.cc .start ≠ 0 → (s.ttys t).writeQ.ring.full = false
  | _ => True

variable {tty : Tty} {t : UInt8}

theorem keeps_set {use : UInt8 → Which → Use} (here : s'.ttys = update s.ttys t tty)
    (others : ∀ t', t' ≠ t → use t' = fun _ => .puts) :
    (∀ t', Tty.Keeps (use t') (s.ttys t') (s'.ttys t')) ↔ Tty.Keeps (use t) (s.ttys t) tty := by
  rw [here]
  constructor
  · intro keeps
    have atT := keeps t
    rw [update_self] at atT
    exact atT
  · intro keeps t'
    by_cases same : t' = t
    · subst same
      rw [update_self]
      exact keeps
    · rw [update_of_ne same, others t' same, Tty.keeps_iff]
      exact ⟨.same, .same, .same⟩

theorem keeps_same {use : UInt8 → Which → Use} (here : s'.ttys = s.ttys) (none_ : ∀ t which, use t which = .puts) :
    ∀ t, Tty.Keeps (use t) (s.ttys t) (s'.ttys t) := by
  intro t which
  rw [here, none_]
  exact .same

theorem driver_other {other : UInt8} (pty : setup.driver t = some (.pty other)) : other ≠ t := by
  rintro rfl
  rw [Setup.driver] at pty
  have sixtyFour : (64 : UInt8).toNat = 64 := rfl
  split_ifs at pty
  · cases pty
  · cases pty
  · have same := congrArg UInt8.toNat (Driver.pty.inj (Option.some.inj pty))
    rw [UInt8.toNat_add] at same
    omega
  · have same := congrArg UInt8.toNat (Driver.pty.inj (Option.some.inj pty))
    rw [UInt8.toNat_sub] at same
    omega

theorem ptyCopy_keeps {signal : Bool} {other : UInt8} {rest : List (UInt8 × Frame)}
    (pty : setup.driver t = some (.pty other)) (top : s.stack = (t, .ptyCopy) :: rest) :
    Keeps setup s (.run signal) (s.ptyCopy signal t other rest) := by
  have differ := driver_other pty
  have elsewhere {t' : UInt8} (another : t' ≠ t) : uses setup s (.run signal) t' = fun _ => .puts := by
    funext which
    simp only [uses, top, another, ne_eq, not_false_eq_true, ite_true]
  have inputs : ∀ which, which ≠ .write → uses setup s (.run signal) t which = .puts := by
    rintro (_ | _ | _) input
    · simp [uses, top, pty, Tty.uses]
    · exact absurd rfl input
    · simp [uses, top, pty, Tty.uses]
  have output : uses setup s (.run signal) t .write =
      if (s.ttys t).stopped || (s.ttys t).writeQ.ring.empty || (s.ttys other).readQ.ring.full then .puts
      else .getch := by
    simp only [uses, top, pty, ne_eq, not_true_eq_false, ite_false]
  by_cases waits : ((s.ttys t).stopped || (s.ttys t).writeQ.ring.empty || (s.ttys other).readQ.ring.full) = true
  · have stay : (s.ptyCopy signal t other rest).ttys = s.ttys := by
      rw [ptyCopy]
      split_ifs with idle full stuck goesOn
      · rfl
      · rfl
      · rfl
      · simp [idle, full] at waits
      · simp [idle, full] at waits
    rw [if_pos waits] at output
    refine keeps_same stay fun t' which => ?_
    by_cases another : t' = t
    · subst another
      cases which with
      | read => exact inputs .read (by simp)
      | write => exact output
      | secondary => exact inputs .secondary (by simp)
    · rw [elsewhere another]
  · have copied : (s.ptyCopy signal t other rest).ttys =
        update (update s.ttys t { s.ttys t with writeQ := (s.ttys t).writeQ.get }) other
          { s.ttys other with
            readQ := (s.ttys other).readQ.put ((s.ttys t).writeQ.ring.buf (s.ttys t).writeQ.ring.tail) } := by
      have free : ((s.ttys t).stopped || (s.ttys t).writeQ.ring.empty) = false ∧
          (s.ttys other).readQ.ring.full = false := by simpa using waits
      rw [ptyCopy, free.1, free.2]
      simp only [set, update_of_ne differ, Bool.false_eq_true, ite_false]
      split <;> rfl
    have room : (s.ttys other).readQ.ring.full = false := by
      simp at waits
      exact waits.2
    rw [if_neg waits] at output
    intro t'
    rw [copied]
    by_cases side : t' = other
    · subst side
      rw [update_self, elsewhere differ, Tty.keeps_iff]
      exact ⟨keeps_put.mpr room, .same, .same⟩
    · rw [update_of_ne side]
      by_cases here : t' = t
      · subst here
        rw [update_self, Tty.keeps_iff, inputs .read (by simp), output, inputs .secondary (by simp)]
        exact ⟨.same, keeps_get, .same⟩
      · rw [update_of_ne here, elsewhere here, Tty.keeps_iff]
        exact ⟨.same, .same, .same⟩

theorem runFrame_keeps {signal : Bool} {frame : Frame} {rest : List (UInt8 × Frame)}
    (top : s.stack = (t, frame) :: rest) :
    Keeps setup s (.run signal) (s.runFrame setup signal t frame rest) ↔ Room setup s (.run signal) := by
  rw [Room, top]
  dsimp only
  have elsewhere : ∀ t', t' ≠ t → uses setup s (.run signal) t' = fun _ => .puts := by
    intro t' another
    funext which
    simp only [uses, top, another, ne_eq, not_false_eq_true, ite_true]
  cases stepped : (s.ttys t).step setup frame with
  | some result =>
    obtain ⟨tty, frames⟩ := result
    have local_ : uses setup s (.run signal) t = (s.ttys t).uses frame := by
      funext which
      cases frame with
      | ptyCopy => cases stepped
      | write => simp only [uses, top, ne_eq, not_true_eq_false, ite_false]
      | _ => simp only [uses, top, ne_eq, not_true_eq_false, ite_false]
    have ran : (s.runFrame setup signal t frame rest).ttys = update s.ttys t tty := by
      unfold runFrame
      rw [stepped]
      rfl
    rw [Keeps, keeps_set ran elsewhere, local_]
    exact Tty.step_keeps stepped
  | none =>
    have room : (s.ttys t).Room setup frame := by
      cases frame with
      | write | ptyCopy => trivial
      | _ => cases stepped
    refine iff_of_true ?_ room
    have quiet (stay : (s.runFrame setup signal t frame rest).ttys = s.ttys)
        (none_ : ∀ which, uses setup s (.run signal) t which = .puts) :
        Keeps setup s (.run signal) (s.runFrame setup signal t frame rest) := by
      refine keeps_same stay fun t' which => ?_
      by_cases another : t' = t
      · exact another ▸ none_ which
      · rw [elsewhere t' another]
    cases frame with
    | write =>
      refine quiet ?_ fun which => by simp [uses, top, Tty.uses]
      unfold runFrame
      rw [stepped]
      dsimp only
      split
      case h_3 impossible _ => cases impossible
      all_goals rfl
    | ptyCopy =>
      have unpaired (single : ∀ other, setup.driver t ≠ some (.pty other)) :
          Keeps setup s (.run signal) (s.runFrame setup signal t .ptyCopy rest) := by
        refine quiet ?_ fun which => ?_
        · unfold runFrame
          rw [stepped]
          dsimp only
          split
          case h_3 other _ pty => exact absurd pty (single other)
          all_goals rfl
        · simp only [uses, top, ne_eq, not_true_eq_false, ite_false]
          split
          case h_1 other _ pty => exact absurd pty (single other)
          case h_2 => rfl
      cases driven : setup.driver t with
      | none => exact unpaired fun other pty => by simp [driven] at pty
      | some driver =>
        cases driver with
        | console | serial => exact unpaired fun other pty => by simp [driven] at pty
        | pty other =>
          have same : s.runFrame setup signal t .ptyCopy rest = s.ptyCopy signal t other rest := by
            unfold runFrame
            rw [stepped, driven]
          rw [same]
          exact ptyCopy_keeps driven top
    | _ => cases stepped

theorem call_ttys {t : UInt8} {tty : Tty} {frame : Frame} (called : s.call t tty frame = some s') :
    s'.ttys = update s.ttys t tty := by
  rw [call] at called
  split at called
  · cases called
    rfl
  · cases called

theorem change_ttys (changed : s.change t tty = some s') : s'.ttys = update s.ttys t tty := by
  rw [change] at changed
  split at changed
  · cases changed
    rfl
  · cases changed

variable {m : Move}

theorem keeps_one (here : s'.ttys = update s.ttys t tty)
    (others : ∀ t', t' ≠ t → uses setup s m t' = fun _ => .puts)
    (keeps : Tty.Keeps (uses setup s m t) (s.ttys t) tty) : Keeps setup s m s' :=
  (keeps_set here others).mpr keeps

theorem change_put {c : UInt8} (none_ : ∀ t', uses setup s m t' = fun _ => .puts)
    (changed : s.change t (if c ≠ 0 then { s.ttys t with writeQ := (s.ttys t).writeQ.put c } else s.ttys t) =
      some s') : Keeps setup s m s' ↔ (c ≠ 0 → (s.ttys t).writeQ.ring.full = false) := by
  rw [Keeps, keeps_set (change_ttys changed) fun t' _ => none_ t', none_, Tty.keeps_iff]
  split
  case isTrue given =>
    refine ⟨fun keeps _ => keeps_put.mp keeps.2.1, fun room => ?_⟩
    exact ⟨.same, keeps_put.mpr (room given), .same⟩
  case isFalse zero => exact iff_of_true ⟨.same, .same, .same⟩ fun given => absurd given zero

theorem tcxonc_keeps {arg : Flow} (moved : s.tcxonc t arg = some s') :
    Keeps setup s (.tcxonc t arg) s' ↔ Room setup s (.tcxonc t arg) := by
  have none_ : ∀ t', uses setup s (.tcxonc t arg) t' = fun _ => .puts := fun _ => rfl
  cases arg with
  | tcooff | tcoon =>
    refine iff_of_true (keeps_one (call_ttys moved) (fun t' _ => none_ t') ?_) trivial
    exact Tty.keeps_iff.mpr ⟨.same, .same, .same⟩
  | tcioff | tcion => exact change_put none_ moved

theorem step_keeps (moved : s.step setup m = some s') : Keeps setup s m s' ↔ Room setup s m := by
  cases m with
  | run signal =>
    rw [step] at moved
    cases top : s.stack with
    | nil => simp [top] at moved
    | cons call rest =>
      obtain ⟨t, frame⟩ := call
      rw [top] at moved
      cases moved
      exact runFrame_keeps top
  | input t cs =>
    have none_ : ∀ t', uses setup s (.input t cs) t' = fun _ => .puts := fun _ => rfl
    have offered (called : s.call t { s.ttys t with readQ := (s.ttys t).readQ.offer cs } .cooked = some s') :
        Keeps setup s (.input t cs) s' := by
      refine keeps_one (call_ttys called) (fun t' _ => none_ t') ?_
      exact Tty.keeps_iff.mpr ⟨keeps_offer, .same, .same⟩
    refine iff_of_true ?_ trivial
    rw [step] at moved
    split at moved
    · exact offered moved
    · split at moved
      · exact offered moved
      · cases moved
    · cases moved
  | ttyWrite t cs =>
    refine iff_of_true ?_ trivial
    rw [step] at moved
    split at moved
    · cases moved
    · let filled := Tty.fill setup cs s.crFlag (s.ttys t)
      have written := @call_ttys { s with crFlag := filled.1 } s' t filled.2 .write moved
      exact keeps_one written (fun t' _ => rfl) (Tty.fill_keeps cs s.crFlag (s.ttys t))
  | ttyRead t =>
    refine iff_of_true ?_ trivial
    rw [step] at moved
    split at moved
    · cases moved
    · refine keeps_one (change_ttys moved) (fun t' another => ?_) ?_
      · funext which
        cases which <;> simp [uses, another]
      · refine Tty.keeps_iff.mpr ⟨.same, .same, ?_⟩
        simp only [uses, ite_true]
        exact keeps_get
  | poke t =>
    refine iff_of_true ?_ trivial
    rw [step] at moved
    split at moved
    · exact keeps_one (call_ttys moved) (fun t' _ => rfl) (Tty.keeps_iff.mpr ⟨.same, .same, .same⟩)
    · cases moved
  | tcxonc t arg => exact tcxonc_keeps moved
  | tcflsh t readQ writeQ =>
    refine iff_of_true ?_ trivial
    refine keeps_one (change_ttys moved) (fun t' another => ?_) ?_
    · funext which
      cases which <;> cases readQ <;> cases writeQ <;> simp [uses, another]
    · have read : uses setup s (.tcflsh t readQ writeQ) t .read = if readQ then .flush else .puts := by
        cases readQ <;> simp [uses]
      have write : uses setup s (.tcflsh t readQ writeQ) t .write = if writeQ then .flush else .puts := by
        cases readQ <;> cases writeQ <;> simp [uses]
      have secondary : uses setup s (.tcflsh t readQ writeQ) t .secondary = .puts := by
        cases readQ <;> cases writeQ <;> rfl
      rw [Tty.keeps_iff, read, write, secondary]
      exact ⟨keeps_flushed, keeps_flushed, .same⟩
  | tcsets t termios flush =>
    refine iff_of_true ?_ trivial
    refine keeps_one (change_ttys moved) (fun t' another => ?_) ?_
    · funext which
      cases which <;> cases flush <;> simp [uses, another]
    · have read : uses setup s (.tcsets t termios flush) t .read = if flush then .flush else .puts := by
        cases flush <;> simp [uses]
      have others : ∀ which, which ≠ .read → uses setup s (.tcsets t termios flush) t which = .puts := by
        rintro (_ | _ | _) other
        · exact absurd rfl other
        · cases flush <;> rfl
        · cases flush <;> rfl
      rw [Tty.keeps_iff, read, others .write (by simp), others .secondary (by simp)]
      exact ⟨keeps_flushed, .same, .same⟩
  | transmit t =>
    refine iff_of_true ?_ trivial
    rw [step] at moved
    split at moved
    · split at moved
      · cases moved
      · refine keeps_one (change_ttys moved) (fun t' another => ?_) ?_
        · funext which
          cases which <;> simp [uses, another]
        · refine Tty.keeps_iff.mpr ⟨.same, ?_, .same⟩
          simp only [uses, ite_true]
          exact keeps_get
    · cases moved

/-- The queues keep what they hold, but for what the moves take, throughout a run
exactly if each step of it finds room for what it stores without looking. -/
theorem kept_iff_room (setup : Setup) (start : State) (moves : List Move) :
    Throughout (step setup) (fun s m => ∀ s', step setup s m = some s' → Keeps setup s m s') start moves ↔
      Throughout (step setup) (Room setup) start moves := by
  refine throughout_congr (Q := fun _ => True) (fun _ _ => trivial) (fun {s m s'} _ moved => ?_) trivial moves
  rw [← step_keeps moved]
  constructor
  · exact fun keeps => keeps s' moved
  · intro keeps s'' moved'
    cases moved.symm.trans moved'
    exact keeps

end State

theorem Tty.fill_text (setup : Setup) (tty : Tty) (cs : List UInt8) (crFlag : Bool)
    (text : ∀ b ∈ cs, b ≠ 10 ∧ b ≠ 13) (caseKept : tty.termios.olcuc = false)
    (room : cs.length ≤ tty.writeQ.ring.left) :
    ∃ crFlag', fill setup cs crFlag tty = (crFlag', { tty with writeQ := tty.writeQ.putAll cs }) := by
  induction cs generalizing crFlag tty with
  | nil => exact ⟨crFlag, rfl⟩
  | cons b rest ih =>
    obtain ⟨noNewline, noReturn⟩ := text b List.mem_cons_self
    rw [List.length_cons] at room
    have notFull : tty.writeQ.ring.full = false := by
      rw [Ring.full, decide_eq_false_iff_not]
      omega
    have same : tty.sent b = b := by simp [sent, noNewline, noReturn]
    have kept : tty.post setup b = b := by simp [post, caseKept]
    have less := Watched.left_put notFull (c := b)
    obtain ⟨crFlag', filled⟩ := ih { tty with writeQ := tty.writeQ.put b } false
      (fun c member => text c (List.mem_cons_of_mem _ member)) caseKept (by dsimp only; omega)
    refine ⟨crFlag', ?_⟩
    rw [fill, notFull, same]
    simp only [kept, noNewline, false_and, and_false, Bool.false_eq_true, ite_false]
    exact filled

def echoing : Termios := { rawTermios with echo := true }

def colour : Boot where
  origX := 0
  origY := 24
  videoMode := 3
  videoCols := 80
  videoLines := 25
  egaBx := 3

theorem full_queue_not_kept {cs : List UInt8} (text : ∀ b ∈ cs, b ≠ 10 ∧ b ≠ 13)
    (length : cs.length = TTY_BUF_SIZE - 1) :
    ¬Throughout (State.step (colour.setup id id))
      (fun s m => ∀ s', s.step (colour.setup id id) m = some s' → s.Keeps (colour.setup id id) m s')
      (colour.ttyInit fun _ => 0)
      ([.tcsets 64 echoing false, .ttyWrite 64 cs, .run false, .input 64 [97]] ++ [.run false]) := by
  let setup := colour.setup id id
  let start := colour.ttyInit fun _ => 0
  let flagged : Tty := { start.ttys 64 with termios := echoing }
  let written : Tty := { flagged with writeQ := flagged.writeQ.putAll cs }
  let received : Tty := { written with readQ := written.readQ.offer [97] }
  have room : cs.length ≤ flagged.writeQ.ring.left := length.le
  obtain ⟨crFlag, filled⟩ := Tty.fill_text setup flagged cs false text rfl room
  have full : written.writeQ.ring.left = 0 := by
    have contents : written.writeQ.contents = cs := Watched.contents_putAll room
    have chars : written.writeQ.ring.chars = TTY_BUF_SIZE - 1 := by
      rw [← Ring.length_contents, ← length]
      exact congrArg List.length contents
    rw [Ring.left_eq, chars, Nat.sub_self]
  let s₁ := start.set 64 flagged
  let s₂ : State := { s₁.set 64 written with crFlag := crFlag, stack := [(64, .write)] }
  let s₃ : State := { s₂ with stack := [] }
  let s₄ : State := { s₃.set 64 received with stack := [(64, .cooked)] }
  have first : start.step setup (.tcsets 64 echoing false) = some s₁ := rfl
  have second : s₁.step setup (.ttyWrite 64 cs) = some s₂ := by
    have some_ : cs ≠ [] := List.ne_nil_of_length_eq_add_one length
    rw [State.step, if_neg some_]
    show State.call { s₁ with crFlag := (Tty.fill setup cs false flagged).1 } 64
      (Tty.fill setup cs false flagged).2 .write = _
    rw [filled]
    rfl
  have third : s₂.step setup (.run false) = some s₃ := rfl
  have fourth : s₃.step setup (.input 64 [97]) = some s₄ := rfl
  have ran : Transition.run (State.step setup) start
      [.tcsets 64 echoing false, .ttyWrite 64 cs, .run false, .input 64 [97]] = some s₄ := by
    rw [Transition.run, first, Option.bind_some, Transition.run, second, Option.bind_some, Transition.run, third,
      Option.bind_some, Transition.run, fourth]
    rfl
  refine not_throughout_of_run ran rfl fun keeps => ?_
  have found : State.Room setup s₄ (.run false) := (State.step_keeps rfl).mp (keeps _ rfl)
  have echo : 1 ≤ written.writeQ.ring.left := found rfl rfl rfl
  omega

theorem echo_not_kept :
    ¬Throughout (State.step (colour.setup id id))
      (fun s m => ∀ s', s.step (colour.setup id id) m = some s' → s.Keeps (colour.setup id id) m s')
      (colour.ttyInit fun _ => 0)
      ([.tcsets 64 echoing false, .ttyWrite 64 (List.replicate (TTY_BUF_SIZE - 1) 65), .run false,
        .input 64 [97]] ++ [.run false]) := by
  refine full_queue_not_kept (fun b member => ?_) List.length_replicate
  rw [List.eq_of_mem_replicate member]
  decide

end Linux012.ChrDrv

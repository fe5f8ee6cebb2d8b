import Linux012.ChrDrv.TtyRings

/-! `tty_write` of `kernel/chr_drv/tty_io.c`, character by character, by processes that write to
several terminals. -/

set_option autoImplicit false

namespace Linux012.ChrDrv.Output

open Transition Function

inductive Phase where
  /-- before `sleep_if_full`, or in `schedule` -/
  | outer
  /-- in `sleep_if_full` -/
  | asleep
  /-- in `get_fs_byte`, which can fault -/
  | fetching
deriving DecidableEq

structure Job where
  tty : UInt8
  rest : List UInt8
  phase : Phase

/-- `put` are the bytes that `tty_write` has put into `write_q`. The kernel has no `left`: it is what
the last character of a terminal has left in `cr_flag`. -/
structure State (ω : Type) where
  ttys : UInt8 → Tty
  crFlag : Bool
  job : ω → Option Job
  put : UInt8 → List UInt8
  left : UInt8 → Bool

inductive Move (ω : Type) where
  | call (w : ω) (t : UInt8) (buf : List UInt8)
  /-- the process runs on from `sleep_if_full` or `schedule` -/
  | resume (w : ω) (t : UInt8)
  | signal (w : ω) (t : UInt8)
  /-- `get_fs_byte` has returned -/
  | fetched (w : ω) (t : UInt8)
  /-- what the driver, the input and the ioctls make of the terminal -/
  | device (t : UInt8) (tty : Tty)

def Move.terminal {ω : Type} : Move ω → UInt8
  | .call _ t _ => t
  | .resume _ t => t
  | .signal _ t => t
  | .fetched _ t => t
  | .device t _ => t

/-- `beyond` is what stands in front of `_ctype`, for a `char` from 128 on. -/
def toupper (beyond : UInt8 → UInt8) (c : UInt8) : UInt8 :=
  if char 'a' ≤ c ∧ c ≤ char 'z' then c - 32 else if c < 128 then c else beyond c

def newline (tty : Tty) (b : UInt8) : Prop := tty.termios.opost = true ∧ tty.sent b = 10 ∧ tty.termios.onlcr = true

instance (tty : Tty) (b : UInt8) : Decidable (newline tty b) := inferInstanceAs (Decidable (_ ∧ _))

/-- The character that `OLCUC` is applied to if it is not a newline that gets a CR first. -/
def cased (beyond : UInt8 → UInt8) (tty : Tty) (c : UInt8) : UInt8 :=
  if tty.termios.opost && tty.termios.olcuc then toupper beyond c else c

namespace State

variable {ω : Type} [DecidableEq ω] (beyond : UInt8 → UInt8) (s : State ω)

def setJob (w : ω) (job : Option Job) : State ω := { s with job := update s.job w job }

/-- `PUTCH(c,tty->write_q)`, with `cr_flag` as it is then. -/
def putch (t : UInt8) (crFlag : Bool) (c : UInt8) : State ω :=
  { s with
    ttys := update s.ttys t { s.ttys t with writeQ := (s.ttys t).writeQ.put c }
    crFlag := crFlag
    put := update s.put t (s.put t ++ [c])
    left := update s.left t crFlag }

def onward (w : ω) (t : UInt8) (rest : List UInt8) : State ω :=
  if rest = [] then s.setJob w none
  else if (s.ttys t).writeQ.ring.full then s.setJob w (some ⟨t, rest, .outer⟩)
  else s.setJob w (some ⟨t, rest, .fetching⟩)

def character (w : ω) (t : UInt8) (b : UInt8) (rest : List UInt8) : State ω :=
  if newline (s.ttys t) b ∧ s.crFlag = false then (s.putch t true 13).onward w t (b :: rest)
  else (s.putch t false (cased beyond (s.ttys t) ((s.ttys t).sent b))).onward w t rest

/-- `sleep_if_full`, and the test of the inner loop. -/
def resume (w : ω) (job : Job) : Option (State ω) :=
  match job.phase with
  | .outer =>
    if (s.ttys job.tty).writeQ.ring.full then some (s.setJob w (some { job with phase := .asleep }))
    else some (s.setJob w (some { job with phase := .fetching }))
  | .asleep =>
    if (s.ttys job.tty).writeQ.ring.left < 128 then none
    else some (s.setJob w (some { job with phase := .fetching }))
  | .fetching => none

def work (w : ω) (job : Job) : Move ω → Option (State ω)
  | .resume _ _ => s.resume w job
  | .signal _ _ => if job.phase = .fetching then none else some (s.setJob w none)
  | .fetched _ _ =>
    match job.phase, job.rest with
    | .fetching, b :: rest => some (s.character beyond w job.tty b rest)
    | _, _ => none
  | _ => none

def act (w : ω) (t : UInt8) (m : Move ω) : Option (State ω) :=
  match s.job w with
  | none => none
  | some job => if job.tty = t then s.work beyond w job m else none

def step : Move ω → Option (State ω)
  | .call w t buf =>
    match s.job w with
    | none => some (s.setJob w (if buf = [] then none else some ⟨t, buf, .outer⟩))
    | some _ => none
  | .device t tty => some { s with ttys := update s.ttys t tty }
  | .resume w t => s.act beyond w t (.resume w t)
  | .signal w t => s.act beyond w t (.signal w t)
  | .fetched w t => s.act beyond w t (.fetched w t)

end State

section Alone

variable {ω : Type}

def movesOf (t : UInt8) (moves : List (Move ω)) : List (Move ω) := moves.filter fun m => m.terminal = t

variable {m : Move ω}

theorem movesOf_own {t : UInt8} (own : m.terminal = t) (moves : List (Move ω)) :
    movesOf t (m :: moves) = m :: movesOf t moves := by
  rw [movesOf, List.filter_cons, if_pos (decide_eq_true own)]
  rfl

theorem movesOf_other {t : UInt8} (other : m.terminal ≠ t) (moves : List (Move ω)) :
    movesOf t (m :: moves) = movesOf t moves := by
  rw [movesOf, List.filter_cons, if_neg (by rw [decide_eq_true_eq]; exact other)]
  rfl

structure Quiet (s : State ω) : Prop where
  job : ∀ w, s.job w = none
  left : ∀ t, s.left t = s.crFlag

/-- When a newline is looked at, `cr_flag` is what the last character of the terminal left. -/
def FlagOwn (s : State ω) : Move ω → Prop
  | .fetched w t => ∀ job b rest, s.job w = some job → job.rest = b :: rest → newline (s.ttys t) b → s.crFlag = s.left t
  | _ => True

variable [DecidableEq ω] in
/-- The run in which only the moves of the terminal `t` are made puts the same bytes into its
queue. -/
def SameAlone (beyond : UInt8 → UInt8) (s s' : State ω) (moves : List (Move ω)) (t : UInt8) : Prop :=
  ∃ a, run (State.step beyond) s (movesOf t moves) = some a ∧ a.put t = s'.put t

/-! ## The run of one terminal -/

structure Alone (t : UInt8) (s a : State ω) : Prop where
  tty : a.ttys t = s.ttys t
  put : a.put t = s.put t
  flag : a.crFlag = s.left t
  left : a.left t = s.left t
  job : ∀ w, a.job w = (s.job w).filter fun job => job.tty = t

variable {beyond : UInt8 → UInt8} {s s' a a' : State ω} {t u : UInt8}

theorem Alone.of_quiet (quiet : Quiet s) (t : UInt8) : Alone t s s where
  tty := rfl
  put := rfl
  flag := (quiet.left t).symm
  left := rfl
  job w := by rw [quiet.job w]; rfl

variable {job : Job} {w : ω}

theorem Alone.job_eq (alone : Alone t s a) (here : s.job w = some job) (own : job.tty = t) :
    a.job w = some job := by
  rw [alone.job w, here, Option.filter_some, decide_eq_true own, if_pos rfl]

theorem Alone.putch (alone : Alone t s a) (crFlag : Bool) (c : UInt8) :
    Alone t (s.putch t crFlag c) (a.putch t crFlag c) := by
  refine ⟨?_, ?_, ?_, ?_, alone.job⟩
  · simp only [State.putch, update_self, alone.tty]
  · simp only [State.putch, update_self, alone.put]
  · simp only [State.putch, update_self]
  · simp only [State.putch, update_self]

theorem Alone.putch_other (alone : Alone t s a) (differ : u ≠ t) (crFlag : Bool) (c : UInt8) :
    Alone t (s.putch u crFlag c) a := by
  refine ⟨?_, ?_, ?_, ?_, alone.job⟩
  · simp only [State.putch, update_of_ne differ.symm, alone.tty]
  · simp only [State.putch, update_of_ne differ.symm, alone.put]
  · simp only [State.putch, update_of_ne differ.symm, alone.flag]
  · simp only [State.putch, update_of_ne differ.symm, alone.left]

variable [DecidableEq ω]

theorem Alone.setJob (alone : Alone t s a) (w : ω) {job : Option Job} (own : ∀ j, job = some j → j.tty = t) :
    Alone t (s.setJob w job) (a.setJob w job) := by
  refine ⟨alone.tty, alone.put, alone.flag, alone.left, fun v => ?_⟩
  by_cases same : v = w
  · subst same
    simp only [State.setJob, update_self]
    cases job with
    | none => rfl
    | some j => rw [Option.filter_some, decide_eq_true (own j rfl), if_pos rfl]
  · simp only [State.setJob, update_of_ne same]
    exact alone.job v

theorem Alone.setJob_other (alone : Alone t s a) (w : ω) {job : Option Job} (before : ∀ j, s.job w = some j → j.tty ≠ t)
    (other : ∀ j, job = some j → j.tty ≠ t) : Alone t (s.setJob w job) a := by
  refine ⟨alone.tty, alone.put, alone.flag, alone.left, fun v => ?_⟩
  have none_ (job : Option Job) (other : ∀ j, job = some j → j.tty ≠ t) : job.filter (fun job => job.tty = t) = none := by
    cases job with
    | none => rfl
    | some j => rw [Option.filter_some, decide_eq_false (other j rfl), if_neg Bool.false_ne_true]
  by_cases same : v = w
  · subst same
    rw [alone.job v, none_ _ before]
    simp only [State.setJob, update_self]
    exact (none_ _ other).symm
  · simp only [State.setJob, update_of_ne same]
    exact alone.job v

theorem Alone.onward (alone : Alone t s a) (w : ω) (rest : List UInt8) :
    Alone t (s.onward w t rest) (a.onward w t rest) := by
  simp only [State.onward, alone.tty]
  split
  · exact alone.setJob w fun j absurd_ => by cases absurd_
  · split
    · exact alone.setJob w fun j same => by rw [← Option.some.inj same]
    · exact alone.setJob w fun j same => by rw [← Option.some.inj same]

theorem Alone.onward_other (alone : Alone t s a) (differ : u ≠ t) (rest : List UInt8)
    (before : ∀ j, s.job w = some j → j.tty ≠ t) : Alone t (s.onward w u rest) a := by
  rw [State.onward]
  split
  · exact alone.setJob_other w before fun j absurd_ => by cases absurd_
  · split
    · exact alone.setJob_other w before fun j same => by rw [← Option.some.inj same]; exact differ
    · exact alone.setJob_other w before fun j same => by rw [← Option.some.inj same]; exact differ

theorem Alone.character (alone : Alone t s a) (w : ω) (b : UInt8) (rest : List UInt8)
    (own : newline (s.ttys t) b → s.crFlag = s.left t) :
    Alone t (s.character beyond w t b rest) (a.character beyond w t b rest) := by
  have tests : (newline (a.ttys t) b ∧ a.crFlag = false) ↔ (newline (s.ttys t) b ∧ s.crFlag = false) := by
    rw [alone.tty, alone.flag]
    exact and_congr_right fun newline => by rw [own newline]
  by_cases first : newline (s.ttys t) b ∧ s.crFlag = false
  · rw [State.character, if_pos first, State.character, if_pos (tests.2 first)]
    exact (alone.putch true 13).onward w (b :: rest)
  · rw [State.character, if_neg first, State.character, if_neg (first ∘ tests.1), alone.tty]
    exact (alone.putch false _).onward w rest

theorem Alone.character_other (alone : Alone t s a) (differ : u ≠ t) (b : UInt8) (rest : List UInt8)
    (before : ∀ j, s.job w = some j → j.tty ≠ t) : Alone t (s.character beyond w u b rest) a := by
  rw [State.character]
  split
  · exact (alone.putch_other differ true 13).onward_other differ _ before
  · exact (alone.putch_other differ false _).onward_other differ _ before

/-! ## Steps -/

theorem Alone.resume (alone : Alone t s a) (own : job.tty = t) (moved : s.resume w job = some s') :
    ∃ a', a.resume w job = some a' ∧ Alone t s' a' := by
  have kept (phase : Phase) : Alone t (s.setJob w (some { job with phase })) (a.setJob w (some { job with phase })) :=
    alone.setJob w fun j same => by rw [← Option.some.inj same]; exact own
  subst own
  rw [State.resume] at moved ⊢
  rw [alone.tty]
  cases phase : job.phase with
  | outer =>
    rw [phase] at moved
    dsimp only at moved ⊢
    split at moved
    case isTrue full =>
      obtain rfl := Option.some.inj moved
      exact ⟨_, if_pos full, kept .asleep⟩
    case isFalse room =>
      obtain rfl := Option.some.inj moved
      exact ⟨_, if_neg room, kept .fetching⟩
  | asleep =>
    rw [phase] at moved
    dsimp only at moved ⊢
    split at moved
    case isTrue => cases moved
    case isFalse room =>
      obtain rfl := Option.some.inj moved
      exact ⟨_, if_neg room, kept .fetching⟩
  | fetching =>
    rw [phase] at moved
    cases moved

theorem Alone.resume_other (alone : Alone t s a) (here : s.job w = some job) (other : job.tty ≠ t)
    (moved : s.resume w job = some s') : Alone t s' a := by
  have kept (phase : Phase) : Alone t (s.setJob w (some { job with phase })) a := by
    refine alone.setJob_other w (fun j same => ?_) fun j same => ?_
    · rw [here] at same
      exact Option.some.inj same ▸ other
    · rw [← Option.some.inj same]
      exact other
  rw [State.resume] at moved
  split at moved
  · split at moved
    · exact Option.some.inj moved ▸ kept .asleep
    · exact Option.some.inj moved ▸ kept .fetching
  · split at moved
    · cases moved
    · exact Option.some.inj moved ▸ kept .fetching
  · cases moved

inductive Acts (w : ω) (t : UInt8) : Move ω → Prop where
  | resume : Acts w t (.resume w t)
  | signal : Acts w t (.signal w t)
  | fetched : Acts w t (.fetched w t)

theorem act_eq_some (moved : s.act beyond w t m = some s') :
    ∃ job, s.job w = some job ∧ job.tty = t ∧ s.work beyond w job m = some s' := by
  rw [State.act] at moved
  split at moved
  case h_1 => cases moved
  case h_2 job here =>
    split at moved
    case isTrue own => exact ⟨job, here, own, moved⟩
    case isFalse => cases moved

theorem act_of_job (here : s.job w = some job) (own : job.tty = t) :
    s.act beyond w t m = s.work beyond w job m := by
  rw [State.act, here]
  exact if_pos own

theorem Alone.act (alone : Alone t s a) (acts : Acts w t m) (flag : FlagOwn s m)
    (moved : s.act beyond w t m = some s') : ∃ a', a.act beyond w t m = some a' ∧ Alone t s' a' := by
  obtain ⟨job, here, own, worked⟩ := act_eq_some moved
  rw [act_of_job (alone.job_eq here own) own]
  cases acts with
  | resume => exact alone.resume own worked
  | signal =>
    rw [State.work] at worked ⊢
    split at worked
    case isTrue => cases worked
    case isFalse outside =>
      exact ⟨_, if_neg outside, Option.some.inj worked ▸ alone.setJob w fun j absurd_ => by cases absurd_⟩
  | fetched =>
    rw [State.work] at worked ⊢
    split at worked
    case h_1 b rest fetching bytes =>
      rw [own] at worked ⊢
      exact ⟨_, rfl, Option.some.inj worked ▸ alone.character w b rest (flag job b rest here bytes)⟩
    case h_2 => cases worked

theorem Alone.act_other (alone : Alone t s a) (differ : u ≠ t) (acts : Acts w u m)
    (moved : s.act beyond w u m = some s') : Alone t s' a := by
  obtain ⟨job, here, own, worked⟩ := act_eq_some moved
  have before (j : Job) (same : s.job w = some j) : j.tty ≠ t := by
    rw [here] at same
    rw [← Option.some.inj same, own]
    exact differ
  cases acts with
  | resume => exact alone.resume_other here (own ▸ differ) worked
  | signal =>
    rw [State.work] at worked
    split at worked
    case isTrue => cases worked
    case isFalse => exact Option.some.inj worked ▸ alone.setJob_other w before fun j absurd_ => by cases absurd_
  | fetched =>
    rw [State.work] at worked
    split at worked
    case h_1 b rest fetching bytes =>
      rw [own] at worked
      exact Option.some.inj worked ▸ alone.character_other differ b rest before
    case h_2 => cases worked

theorem Alone.step {m : Move ω} (alone : Alone t s a) (own : m.terminal = t) (flag : FlagOwn s m)
    (moved : s.step beyond m = some s') : ∃ a', a.step beyond m = some a' ∧ Alone t s' a' := by
  cases m with
  | call w u buf =>
    obtain rfl : u = t := own
    rw [State.step] at moved ⊢
    split at moved
    case h_1 idle =>
      have idle' : a.job w = none := by rw [alone.job w, idle]; rfl
      obtain rfl := Option.some.inj moved
      rw [idle']
      refine ⟨_, rfl, alone.setJob w fun j same => ?_⟩
      split at same
      case isTrue => cases same
      case isFalse => rw [← Option.some.inj same]
    case h_2 => cases moved
  | resume w u =>
    obtain rfl : u = t := own
    exact alone.act .resume flag moved
  | signal w u =>
    obtain rfl : u = t := own
    exact alone.act .signal flag moved
  | fetched w u =>
    obtain rfl : u = t := own
    exact alone.act .fetched flag moved
  | device u tty =>
    obtain rfl : u = t := own
    obtain rfl := Option.some.inj moved
    refine ⟨_, rfl, ?_, alone.put, alone.flag, alone.left, alone.job⟩
    simp only [update_self]

theorem Alone.step_other (alone : Alone t s a) (differ : m.terminal ≠ t) (moved : s.step beyond m = some s') :
    Alone t s' a := by
  cases m with
  | call w u buf =>
    rw [State.step] at moved
    split at moved
    case h_1 idle =>
      obtain rfl := Option.some.inj moved
      refine alone.setJob_other w (fun j same => by rw [idle] at same; cases same) fun j same => ?_
      split at same
      case isTrue => cases same
      case isFalse =>
        rw [← Option.some.inj same]
        exact differ
    case h_2 => cases moved
  | resume w u => exact alone.act_other differ .resume moved
  | signal w u => exact alone.act_other differ .signal moved
  | fetched w u => exact alone.act_other differ .fetched moved
  | device u tty =>
    obtain rfl := Option.some.inj moved
    refine ⟨?_, alone.put, alone.flag, alone.left, alone.job⟩
    exact alone.tty.trans (update_of_ne (Ne.symm differ) ..).symm

/-! ## What has been put into a queue -/

theorem onward_put (s : State ω) (w : ω) (t : UInt8) (rest : List UInt8) : (s.onward w t rest).put = s.put := by
  rw [State.onward]
  split
  · rfl
  · split <;> rfl

theorem character_put (s : State ω) (w : ω) (t : UInt8) (b : UInt8) (rest : List UInt8) :
    (s.character beyond w t b rest).put =
      update s.put t
        (s.put t ++ [if newline (s.ttys t) b ∧ s.crFlag = false then 13
          else cased beyond (s.ttys t) ((s.ttys t).sent b)]) := by
  rw [State.character]
  split <;> exact onward_put ..

theorem act_put (moved : s.act beyond w u m = some s') (t : UInt8) : s.put t <+: s'.put t := by
  obtain ⟨job, -, own, worked⟩ := act_eq_some moved
  unfold State.work at worked
  split at worked
  case h_1 =>
    rw [State.resume] at worked
    split at worked
    · split at worked
      · exact Option.some.inj worked ▸ List.prefix_rfl
      · exact Option.some.inj worked ▸ List.prefix_rfl
    · split at worked
      · cases worked
      · exact Option.some.inj worked ▸ List.prefix_rfl
    · cases worked
  case h_2 =>
    split at worked
    · cases worked
    · exact Option.some.inj worked ▸ List.prefix_rfl
  case h_3 =>
    split at worked
    case h_1 b rest _ _ =>
      obtain rfl := Option.some.inj worked
      rw [character_put, update_apply]
      split
      case isTrue same => exact same ▸ List.prefix_append ..
      case isFalse => exact List.prefix_rfl
    case h_2 => cases worked
  case h_4 => cases worked

theorem step_put (moved : s.step beyond m = some s') (t : UInt8) : s.put t <+: s'.put t := by
  cases m with
  | call w u buf =>
    rw [State.step] at moved
    split at moved
    case h_1 => exact Option.some.inj moved ▸ List.prefix_rfl
    case h_2 => cases moved
  | resume w u | signal w u | fetched w u => exact act_put moved t
  | device u tty => exact Option.some.inj moved ▸ List.prefix_rfl

variable {moves : List (Move ω)}

theorem run_put (ran : run (State.step beyond) s moves = some s') (t : UInt8) : s.put t <+: s'.put t := by
  induction moves generalizing s with
  | nil =>
    cases ran
    exact List.prefix_rfl
  | cons m moves ih =>
    obtain ⟨next, moved, later⟩ := Option.bind_eq_some_iff.mp ran
    exact (step_put moved t).trans (ih later)

theorem cased_newline {tty : Tty} {b : UInt8} (isNewline : newline tty b) : cased beyond tty (tty.sent b) = 10 := by
  rw [isNewline.2.1, cased]
  split
  · rfl
  · rfl

theorem fetched_newline {b : UInt8} {rest : List UInt8} (here : s.job w = some job)
    (bytes : job.rest = b :: rest) (isNewline : newline (s.ttys t) b)
    (moved : s.step beyond (.fetched w t) = some s') :
    s'.put t = s.put t ++ [if s.crFlag = false then 13 else 10] := by
  obtain ⟨job', here', own, worked⟩ := act_eq_some moved
  obtain rfl := Option.some.inj (here.symm.trans here')
  rw [State.work] at worked
  split at worked
  case h_1 b' rest' _ bytes' =>
    obtain ⟨rfl, rfl⟩ := List.cons.inj (bytes.symm.trans bytes')
    obtain rfl := Option.some.inj worked
    rw [own, character_put, update_self, cased_newline isNewline]
    simp only [isNewline, true_and]
  case h_2 => cases worked

theorem Alone.broken (alone : Alone t s a) (own : m.terminal = t) (violated : ¬FlagOwn s m)
    (moved : s.step beyond m = some s') (moved' : a.step beyond m = some a') :
    ∃ x y, x ≠ y ∧ s'.put t = s.put t ++ [x] ∧ a'.put t = s.put t ++ [y] := by
  cases m with
  | call | resume | signal | device => exact absurd trivial violated
  | fetched w u =>
    obtain rfl : u = t := own
    rw [FlagOwn] at violated
    push Not at violated
    obtain ⟨job, b, rest, here, bytes, isNewline, differ⟩ := violated
    obtain ⟨job', here', own, -⟩ := act_eq_some moved
    obtain rfl := Option.some.inj (here.symm.trans here')
    have put := fetched_newline here bytes isNewline moved
    have put' := fetched_newline (alone.job_eq here own) bytes (alone.tty ▸ isNewline) moved'
    rw [alone.put, alone.flag] at put'
    refine ⟨_, _, ?_, put, put'⟩
    cases flag : s.crFlag with
    | false =>
      rw [flag] at differ
      rw [Bool.eq_true_of_not_eq_false (Ne.symm differ)]
      decide
    | true =>
      rw [flag] at differ
      rw [Bool.eq_false_of_not_eq_true (Ne.symm differ)]
      decide

/-! ## Runs -/

theorem Alone.run (alone : Alone t s a) (flag : Throughout (State.step beyond) FlagOwn s moves)
    (ran : run (State.step beyond) s moves = some s') :
    ∃ a', Transition.run (State.step beyond) a (movesOf t moves) = some a' ∧ Alone t s' a' := by
  induction moves generalizing s a with
  | nil =>
    cases ran
    exact ⟨a, rfl, alone⟩
  | cons m moves ih =>
    obtain ⟨next, moved, later⟩ := Option.bind_eq_some_iff.mp ran
    obtain ⟨allowed, rest⟩ := flag next moved
    by_cases own : m.terminal = t
    · obtain ⟨a₁, moved', alone₁⟩ := alone.step own allowed moved
      obtain ⟨a', ran', alone'⟩ := ih alone₁ rest later
      rw [movesOf_own own, Transition.run, moved']
      exact ⟨a', ran', alone'⟩
    · rw [movesOf_other own]
      exact ih (alone.step_other own moved) rest later

theorem throughout_of_same {alone : UInt8 → State ω} (related : ∀ t, Alone t s (alone t))
    (ran : run (State.step beyond) s moves = some s')
    (same : ∀ t, ∃ a, Transition.run (State.step beyond) (alone t) (movesOf t moves) = some a ∧
      a.put t = s'.put t) : Throughout (State.step beyond) FlagOwn s moves := by
  induction moves generalizing s alone with
  | nil => trivial
  | cons m moves ih =>
    obtain ⟨next, moved, later⟩ := Option.bind_eq_some_iff.mp ran
    intro next' moved'
    obtain rfl := Option.some.inj (moved.symm.trans moved')
    obtain ⟨a, ran', equal⟩ := same m.terminal
    rw [movesOf_own rfl] at ran'
    obtain ⟨a₁, own, after⟩ := Option.bind_eq_some_iff.mp ran'
    have allowed : FlagOwn s m := by
      by_contra violated
      obtain ⟨x, y, differ, put, put'⟩ := (related m.terminal).broken rfl violated moved own
      have first := run_put later m.terminal
      have second := run_put after m.terminal
      rw [put] at first
      rw [put', equal] at second
      have equalEnds := (List.prefix_of_prefix_length_le first second (by simp)).eq_of_length (by simp)
      exact differ (List.singleton_inj.mp (List.append_cancel_left equalEnds))
    obtain ⟨a₂, own', kept⟩ := (related m.terminal).step rfl allowed moved
    obtain rfl := Option.some.inj (own.symm.trans own')
    have related' (t : UInt8) : Alone t next (update alone m.terminal a₁ t) := by
      rw [update_apply]
      split
      case isTrue here => exact here ▸ kept
      case isFalse other => exact (related t).step_other (Ne.symm other) moved
    refine ⟨allowed, ih related' later fun t => ?_⟩
    rw [update_apply]
    split
    case isTrue here => exact here ▸ ⟨a, after, equal⟩
    case isFalse other =>
      obtain ⟨b, ranOther, equalOther⟩ := same t
      rw [movesOf_other (Ne.symm other)] at ranOther
      exact ⟨b, ranOther, equalOther⟩

end Alone

/-- The terminals do not disturb each other in a run exactly if each newline finds the flag as the
last character of its own terminal left it. -/
theorem sameAlone_iff {ω : Type} [DecidableEq ω] {beyond : UInt8 → UInt8} {s s' : State ω} {moves : List (Move ω)}
    (quiet : Quiet s) (ran : run (State.step beyond) s moves = some s') :
    (∀ t, SameAlone beyond s s' moves t) ↔ Throughout (State.step beyond) FlagOwn s moves := by
  constructor
  · intro same
    exact throughout_of_same (fun t => .of_quiet quiet t) ran same
  · intro flag t
    obtain ⟨a, ran', alone⟩ := (Alone.of_quiet quiet t).run flag ran
    exact ⟨a, ran', alone.put⟩

def oneLeft : Tty :=
  { (colour.ttyInit fun _ => 0).ttys 64 with
    termios := DEF_TERMIOS
    writeQ := { emptyQueue with ring := { emptyQueue.ring with head := 1022 } } }

def started : State Bool where
  ttys _ := oneLeft
  crFlag := false
  job _ := none
  put _ := []
  left _ := false

theorem letter_sameAlone :
    ∃ s', run (State.step id) started [.call false 64 [97], .resume false 64, .fetched false 64] = some s' ∧
      ((∀ t, SameAlone id started s' [.call false 64 [97], .resume false 64, .fetched false 64] t) ↔
        Throughout (State.step id) FlagOwn started [.call false 64 [97], .resume false 64, .fetched false 64]) :=
  ⟨_, rfl, sameAlone_iff ⟨fun _ => rfl, fun _ => rfl⟩ rfl⟩

def crossing : List (Move Bool) :=
  [.call false 64 [10], .resume false 64, .fetched false 64, .call true 65 [10], .resume true 65, .fetched true 65]

theorem crossing_not_sameAlone :
    ∃ s', Quiet started ∧ run (State.step id) started crossing = some s' ∧ ¬SameAlone id started s' crossing 65 := by
  refine ⟨_, ⟨fun _ => rfl, fun _ => rfl⟩, rfl, ?_⟩
  rintro ⟨a, ran, same⟩
  obtain rfl := Option.some.inj ran
  have puts : ([13] : List UInt8) = [10] := same
  cases puts

end Linux012.ChrDrv.Output

import Linux012.Kernel.Signal
import Linux012.Lib.Updates

/-! `sys_fork`: `find_empty_process` chooses a process number and a slot, and
`copy_process` uses both after `get_free_page` and `copy_mem`, which let other
tasks run when memory is short. -/

set_option autoImplicit false

namespace Linux012.Kernel.Forks

open Transition Updates Function List

inductive Phase where
  | idle
  /-- in `get_free_page`, with the slot chosen -/
  | allocating (nr : Fin NR_TASKS)
  /-- in `copy_mem`, with the new task in the slot -/
  | copying (nr : Fin NR_TASKS) (p : Nat)
deriving DecidableEq

inductive TaskState where
  | running
  | uninterruptible
  | zombie
deriving DecidableEq

structure Task where
  pid : Nat
  pgrp : Nat
  state : TaskState
  fork : Phase
deriving DecidableEq

inductive Outcome where
  /-- a store into `task[nr]`, and what was there -/
  | stored (old : Option Nat)
  /-- what `copy_process` returns, and the number of the new task -/
  | returned (pid child : Nat)
deriving DecidableEq

/-- `task` holds pointers to pages, and `page` what is in them; `used` is
`mem_map`. -/
structure State where
  lastPid : Nat
  task : Fin NR_TASKS → Option Nat
  page : Nat → Task
  used : Nat → Bool
  log : List Outcome

inductive Move where
  | findEmptyProcess (p : Fin NR_TASKS)
  | getFreePage (p : Fin NR_TASKS) (page : Option Nat)
  | copyMem (p : Fin NR_TASKS) (copied : Bool)
  | exit (p : Fin NR_TASKS)
  | release (q : Fin NR_TASKS)
  /-- `sys_setpgid` or `sys_setsid` -/
  | setpgrp (q : Fin NR_TASKS) (pgrp : Nat)
deriving DecidableEq

namespace State

/-- The numbers that `find_empty_process` does not give away. -/
def taken (s : State) : List Nat :=
  (List.finRange NR_TASKS).flatMap fun i =>
    match s.task i with
    | some p => [(s.page p).pid, (s.page p).pgrp]
    | none => []

def nextPid (last : Nat) : Nat := if last + 1 < 2 ^ 31 then last + 1 else 1

/-- The loop over `last_pid`. -/
def freshPid (taken : List Nat) : Nat → Nat → Option Nat
  | 0, _ => none
  | tries + 1, last =>
    if nextPid last ∈ taken then freshPid taken tries (nextPid last) else some (nextPid last)

def emptySlot (s : State) : Option (Fin NR_TASKS) :=
  (List.finRange NR_TASKS).find? fun i => decide (i.val ≠ 0 ∧ s.task i = none)

def setTask (s : State) (p : Nat) (task : Task) : State :=
  { s with page := update s.page p task }

def current (s : State) (p : Fin NR_TASKS) : Option Nat :=
  (s.task p).filter fun me => (s.page me).state = .running

def findEmptyProcess (s : State) (me : Nat) : Option State :=
  (freshPid s.taken (2 * NR_TASKS + 1) s.lastPid).map fun pid =>
    let s := { s with lastPid := pid }
    match s.emptySlot with
    | some nr => s.setTask me { s.page me with fork := .allocating nr }
    | none => s

/-- `copy_process` from the return of `get_free_page` to the call of `copy_mem`. -/
def store (s : State) (me : Nat) (nr : Fin NR_TASKS) : Option Nat → Option State
  | none => some (s.setTask me { s.page me with fork := .idle })
  | some p =>
    if s.used p then none
    else
      let child : Task :=
        { pid := s.lastPid, pgrp := (s.page me).pgrp, state := .uninterruptible, fork := .idle }
      some
        { lastPid := s.lastPid
          task := update s.task nr (some p)
          page := update (update s.page p child) me
            { s.page me with fork := .copying nr p }
          used := update s.used p true
          log := s.log ++ [.stored (s.task nr)] }

/-- `copy_process` from the return of `copy_mem`. -/
def finish (s : State) (me : Nat) (nr : Fin NR_TASKS) (p : Nat) (copied : Bool) : State :=
  if copied then
    { s with
      page := update (update s.page p { s.page p with state := .running }) me
        { s.page me with fork := .idle }
      log := s.log ++ [.returned s.lastPid (s.page p).pid] }
  else
    { s with
      task := update s.task nr none
      page := update s.page me { s.page me with fork := .idle }
      used := update s.used p false }

def step (s : State) : Move → Option State
  | .findEmptyProcess p =>
    (s.current p).bind fun me => if (s.page me).fork = .idle then s.findEmptyProcess me else none
  | .getFreePage p page =>
    (s.current p).bind fun me =>
      match (s.page me).fork with
      | .allocating nr => s.store me nr page
      | _ => none
  | .copyMem p copied =>
    (s.current p).bind fun me =>
      match (s.page me).fork with
      | .copying nr child => some (s.finish me nr child copied)
      | _ => none
  | .exit p =>
    (s.current p).bind fun me =>
      if (s.page me).fork = .idle then some (s.setTask me { s.page me with state := .zombie }) else none
  | .release q =>
    (s.task q).bind fun p =>
      if q.val ≠ 0 ∧ (s.page p).state = .zombie then
        some { s with task := update s.task q none, used := update s.used p false }
      else none
  | .setpgrp q pgrp => (s.task q).map fun p => s.setTask p { s.page p with pgrp := pgrp }

def init : State where
  lastPid := 0
  task := fun i => if i.val = 0 then some 0 else none
  page := fun _ => { pid := 0, pgrp := 0, state := .running, fork := .idle }
  used := fun p => p == 0
  log := []

structure Apart (s : State) : Prop where
  pidsDiffer : ∀ {i j a b}, s.task i = some a → s.task j = some b → (s.page a).pid = (s.page b).pid → i = j
  intoFree : ∀ {old}, .stored old ∈ s.log → old = none
  ownChild : ∀ {pid child}, .returned pid child ∈ s.log → pid = child

end State

def Alone (s : State) : Move → Prop
  | .findEmptyProcess _ => ∀ q, ∀ other ∈ s.task q, (s.page other).fork = .idle
  | _ => True

instance (s : State) (m : Move) : Decidable (Alone s m) := by
  cases m <;> unfold Alone <;> infer_instance

/-! ## The loop over `last_pid` ends -/

def pidAfter (last k : Nat) : Nat := (last + k) % (2 ^ 31 - 1) + 1

variable {last : Nat}

theorem pidAfter_zero (small : last < 2 ^ 31) : pidAfter last 0 = State.nextPid last := by
  unfold pidAfter State.nextPid
  split <;> omega

theorem pidAfter_succ (small : last < 2 ^ 31) (k : Nat) :
    pidAfter last (k + 1) = pidAfter (State.nextPid last) k := by
  unfold pidAfter State.nextPid
  split <;> omega

theorem nextPid_lt (last : Nat) : State.nextPid last < 2 ^ 31 := by
  unfold State.nextPid
  split <;> omega

variable {taken : List Nat}

theorem taken_of_freshPid_eq_none {tries k : Nat} (small : last < 2 ^ 31)
    (failed : State.freshPid taken tries last = none) (within : k < tries) : pidAfter last k ∈ taken := by
  induction tries generalizing last k with
  | zero => omega
  | succ tries ih =>
    unfold State.freshPid at failed
    split at failed
    · next used =>
      cases k with
      | zero => rwa [pidAfter_zero small]
      | succ k =>
        rw [pidAfter_succ small]
        exact ih (nextPid_lt last) failed (by omega)
    · cases failed

theorem freshPid_isSome (taken : List Nat) (tries : Nat) (small : last < 2 ^ 31) (enough : taken.length < tries)
    (few : tries < 2 ^ 31) : (State.freshPid taken tries last).isSome := by
  rw [Option.isSome_iff_ne_none]
  intro failed
  have distinct : ((List.range tries).map (pidAfter last)).Nodup := by
    refine (nodup_map_iff_inj_on nodup_range).mpr fun k early l late same => ?_
    rw [mem_range] at early late
    unfold pidAfter at same
    omega
  have inside : (List.range tries).map (pidAfter last) ⊆ taken := by
    intro pid listed
    obtain ⟨k, within, rfl⟩ := mem_map.mp listed
    exact taken_of_freshPid_eq_none small failed (mem_range.mp within)
  have short := (distinct.subperm inside).length_le
  rw [length_map, length_range] at short
  omega

theorem freshPid_spec {tries pid : Nat} (found : State.freshPid taken tries last = some pid) :
    pid ∉ taken ∧ pid < 2 ^ 31 := by
  induction tries generalizing last with
  | zero => cases found
  | succ tries ih =>
    unfold State.freshPid at found
    split at found
    · exact ih found
    · next free =>
      cases found
      exact ⟨free, nextPid_lt last⟩

theorem length_taken (s : State) : s.taken.length ≤ 2 * NR_TASKS := by
  have each : ∀ (slots : List (Fin NR_TASKS)), (slots.flatMap fun i =>
      match s.task i with
      | some p => [(s.page p).pid, (s.page p).pgrp]
      | none => []).length ≤ 2 * slots.length := by
    intro slots
    induction slots with
    | nil => exact Nat.le_refl _
    | cons i slots ih =>
      rw [flatMap_cons, length_append, length_cons]
      cases s.task i with
      | none =>
        dsimp only [length_nil]
        omega
      | some p =>
        dsimp only [length_cons, length_nil]
        omega
  simpa [State.taken] using each (List.finRange NR_TASKS)

theorem findEmptyProcess_isSome {s : State} (small : s.lastPid < 2 ^ 31) (me : Nat) :
    (s.findEmptyProcess me).isSome := by
  have short := length_taken s
  have found := freshPid_isSome s.taken (2 * NR_TASKS + 1) small (by omega) (by decide)
  rw [State.findEmptyProcess, Option.isSome_map]
  exact found

theorem findEmptyProcess_isSome_init : (State.init.findEmptyProcess 0).isSome :=
  findEmptyProcess_isSome (by decide) 0

/-! ## Forks that do not overlap -/

namespace State

variable {s : State}

theorem pid_fresh_of_not_taken {pid : Nat} (fresh : pid ∉ s.taken) {i : Fin NR_TASKS} {a : Nat}
    (present : s.task i = some a) : (s.page a).pid ≠ pid := by
  intro same
  refine fresh (mem_flatMap.mpr ⟨i, mem_finRange i, ?_⟩)
  rw [present]
  exact mem_cons.mpr (.inl same.symm)

/-- What holds between forks that do not overlap: a fork under way owns the
number that `last_pid` still holds, and its slot. -/
structure Serial (s : State) : Prop extends s.Apart where
  pagesDiffer : ∀ {i j a}, s.task i = some a → s.task j = some a → i = j
  inUse : ∀ {i a}, s.task i = some a → s.used a = true
  oneFork : ∀ {i j a b}, s.task i = some a → s.task j = some b →
    (s.page a).fork ≠ .idle → (s.page b).fork ≠ .idle → i = j
  awake : ∀ {i a}, s.task i = some a → (s.page a).fork ≠ .idle → (s.page a).state = .running
  allocating : ∀ {i a nr}, s.task i = some a → (s.page a).fork = .allocating nr →
    s.task nr = none ∧ ∀ {j b}, s.task j = some b → (s.page b).pid ≠ s.lastPid
  copying : ∀ {i a nr p}, s.task i = some a → (s.page a).fork = .copying nr p →
    s.task nr = some p ∧ (s.page p).pid = s.lastPid ∧ (s.page p).state = .uninterruptible

variable {p : Fin NR_TASKS} {me : Nat}

theorem current_eq_some : s.current p = some me ↔ s.task p = some me ∧ (s.page me).state = .running := by
  rw [current, Option.filter_eq_some_iff, decide_eq_true_eq]

theorem Serial.init : init.Serial := by
  have only {i : Fin NR_TASKS} {a : Nat} (present : State.init.task i = some a) : i.val = 0 ∧ a = 0 := by
    simp only [State.init, Option.ite_none_right_eq_some, Option.some.injEq] at present
    exact ⟨present.1, present.2.symm⟩
  have same {i j : Fin NR_TASKS} {a b : Nat} (present : State.init.task i = some a)
      (other : State.init.task j = some b) : i = j :=
    Fin.ext ((only present).1.trans (only other).1.symm)
  exact
    { pidsDiffer := fun present other _ => same present other
      intoFree := fun logged => absurd logged not_mem_nil
      ownChild := fun logged => absurd logged not_mem_nil
      pagesDiffer := fun present other => same present other
      inUse := fun present => by rw [(only present).2]; rfl
      oneFork := fun present other _ _ => same present other
      awake := fun _ under => absurd rfl under
      allocating := fun _ under => nomatch under
      copying := fun _ under => nomatch under }

theorem field_update {α : Type} (field : Task → α) {page : Nat → Task} {p : Nat} {task : Task}
    (same : field task = field (page p)) (a : Nat) : field (update page p task a) = field (page a) := by
  by_cases changed : a = p
  · rw [changed, update_self, same]
  · rw [update_of_ne changed]

theorem setTask_page (q : Nat) (task : Task) : (s.setTask q task).page = update s.page q task := rfl

theorem Serial.setTask (serial : s.Serial) {q : Nat} {task : Task} (pid : task.pid = (s.page q).pid)
    (same : task.fork = .idle ∨ task.fork = (s.page q).fork ∧ task.state = (s.page q).state)
    (asleep : ∀ {i a nr}, s.task i = some a → (s.page a).fork = .copying nr q → task.state = .uninterruptible) :
    (s.setTask q task).Serial := by
  have pids : ∀ a, ((s.setTask q task).page a).pid = (s.page a).pid := field_update Task.pid pid
  have busy {a : Nat} (under : ((s.setTask q task).page a).fork ≠ .idle) :
      ((s.setTask q task).page a).fork = (s.page a).fork ∧ ((s.setTask q task).page a).state = (s.page a).state := by
    by_cases changed : a = q
    · subst changed
      rw [setTask_page, update_self] at under ⊢
      exact same.resolve_left under
    · rw [setTask_page, update_of_ne changed]
      exact ⟨rfl, rfl⟩
  refine ⟨⟨?_, serial.intoFree, serial.ownChild⟩, serial.pagesDiffer, serial.inUse, ?_, ?_, ?_, ?_⟩
  · intro i j a b present other samePid
    rw [pids, pids] at samePid
    exact serial.pidsDiffer present other samePid
  · intro i j a b present other under also
    rw [(busy under).1] at under
    rw [(busy also).1] at also
    exact serial.oneFork present other under also
  · intro i a present under
    obtain ⟨fork, state⟩ := busy under
    rw [state]
    exact serial.awake present (fork ▸ under)
  · intro i a nr present under
    have fork := (busy (by rw [under]; exact nofun)).1
    obtain ⟨empty, fresh⟩ := serial.allocating present (fork.symm.trans under)
    exact ⟨empty, fun other => by rw [pids]; exact fresh other⟩
  · intro i a nr child present under
    have fork := (busy (by rw [under]; exact nofun)).1
    obtain ⟨slot, number, waits⟩ := serial.copying present (fork.symm.trans under)
    refine ⟨slot, (pids child).trans number, ?_⟩
    by_cases changed : child = q
    · subst changed
      exact (congrArg Task.state (update_self ..)).trans (asleep present (fork.symm.trans under))
    · exact (congrArg Task.state (update_of_ne changed ..)).trans waits

theorem Serial.setPgrp (serial : s.Serial) (p pgrp : Nat) :
    (s.setTask p { s.page p with pgrp := pgrp }).Serial :=
  serial.setTask rfl (.inr ⟨rfl, rfl⟩) fun present under => (serial.copying present under).2.2

theorem Serial.retire (serial : s.Serial) (running : (s.page me).state = .running) (state : TaskState) :
    (s.setTask me { s.page me with state := state, fork := .idle }).Serial := by
  refine serial.setTask rfl (.inl rfl) fun present under => ?_
  have asleep := (serial.copying present under).2.2
  rw [running] at asleep
  cases asleep

theorem Serial.soleFork (serial : s.Serial) (current : s.task p = some me) (under : (s.page me).fork ≠ .idle)
    {i : Fin NR_TASKS} {a : Nat} (present : s.task i = some a) (other : a ≠ me) : (s.page a).fork = .idle := by
  by_contra also
  cases serial.oneFork present current also under
  rw [current, Option.some.injEq] at present
  exact other present.symm

theorem Serial.erase (serial : s.Serial) {q : Fin NR_TASKS} {p : Nat} (present : s.task q = some p)
    (unclaimed : ∀ {i a child}, s.task i = some a → (s.page a).fork ≠ .copying q child) :
    State.Serial { s with task := update s.task q none, used := update s.used p false } := by
  have slots {i : Fin NR_TASKS} {a : Nat} (stays : update s.task q none i = some a) :
      s.task i = some a ∧ a ≠ p := by
    obtain ⟨other, before⟩ := of_update_none stays
    exact ⟨before, fun old => other (serial.pagesDiffer (old ▸ before) present)⟩
  constructor
  · exact
      { pidsDiffer := fun stays other => serial.pidsDiffer (slots stays).1 (slots other).1
        intoFree := serial.intoFree
        ownChild := serial.ownChild }
  · exact fun stays other => serial.pagesDiffer (slots stays).1 (slots other).1
  · intro i a stays
    obtain ⟨before, old⟩ := slots stays
    exact (update_of_ne old ..).trans (serial.inUse before)
  · exact fun stays other => serial.oneFork (slots stays).1 (slots other).1
  · exact fun stays => serial.awake (slots stays).1
  · intro i a nr stays under
    obtain ⟨empty, fresh⟩ := serial.allocating (slots stays).1 under
    refine ⟨?_, fun other => fresh (slots other).1⟩
    by_cases same : nr = q
    · subst same
      exact update_self ..
    · exact (update_of_ne same ..).trans empty
  · intro i a nr child stays under
    obtain ⟨slot, number, asleep⟩ := serial.copying (slots stays).1 under
    have other : nr ≠ q := fun same => unclaimed (slots stays).1 (same ▸ under)
    exact ⟨(update_of_ne other ..).trans slot, number, asleep⟩

theorem Serial.findEmptyProcess {s' : State} (serial : s.Serial) (current : s.task p = some me)
    (running : (s.page me).state = .running) (alone : ∀ q, ∀ other ∈ s.task q, (s.page other).fork = .idle)
    (found : s.findEmptyProcess me = some s') : s'.Serial := by
  unfold State.findEmptyProcess at found
  obtain ⟨pid, fresh, rfl⟩ := Option.map_eq_some_iff.mp found
  have unused {i : Fin NR_TASKS} {a : Nat} (present : s.task i = some a) : (s.page a).pid ≠ pid :=
    pid_fresh_of_not_taken (freshPid_spec fresh).1 present
  have asBefore : ({ s with lastPid := pid } : State).Serial :=
    { serial with
      allocating := fun present under => absurd under (by rw [alone _ _ present]; exact nofun)
      copying := fun present under => absurd under (by rw [alone _ _ present]; exact nofun) }
  dsimp only
  split
  · next nr slot =>
    have empty : s.task nr = none := by
      have test := find?_some slot
      exact (of_decide_eq_true test).2
    have mine {i : Fin NR_TASKS} {a : Nat} (present : s.task i = some a)
        (under : (update s.page me { s.page me with fork := .allocating nr } a).fork ≠ .idle) :
        a = me := by
      by_contra other
      rw [update_of_ne other] at under
      exact under (alone i a present)
    have number : ∀ a,
        (update s.page me { s.page me with fork := .allocating nr } a).pid = (s.page a).pid :=
      field_update Task.pid rfl
    constructor
    · constructor
      · intro i j a b present other samePid
        simp only [State.setTask, number] at samePid
        exact serial.pidsDiffer present other samePid
      · exact serial.intoFree
      · exact serial.ownChild
    · exact serial.pagesDiffer
    · exact serial.inUse
    · intro i j a b present other under also
      cases mine present under
      cases mine other also
      exact serial.pagesDiffer present other
    · intro i a present under
      cases mine present under
      simp only [State.setTask, update_self]
      exact running
    · intro i a slot' present under
      have self := mine present (by rw [show (update s.page me _ a).fork = _ from under]; exact nofun)
      subst self
      simp only [State.setTask, update_self, Phase.allocating.injEq] at under
      subst under
      refine ⟨empty, fun other => ?_⟩
      simp only [State.setTask, number]
      exact unused other
    · intro i a slot' child present under
      have self := mine present (by rw [show (update s.page me _ a).fork = _ from under]; exact nofun)
      subst self
      simp [State.setTask] at under
  · exact asBefore

theorem Serial.store {s' : State} (serial : s.Serial) {nr : Fin NR_TASKS} (current : s.task p = some me)
    (running : (s.page me).state = .running) (under : (s.page me).fork = .allocating nr) {page : Option Nat}
    (stored : s.store me nr page = some s') : s'.Serial := by
  cases page with
  | none =>
    cases stored
    exact serial.retire running _
  | some child =>
    simp only [State.store] at stored
    split at stored
    · cases stored
    next free =>
    cases stored
    obtain ⟨empty, fresh⟩ := serial.allocating current under
    have childOther {i : Fin NR_TASKS} {a : Nat} (present : s.task i = some a) : a ≠ child := by
      rintro rfl
      exact free (serial.inUse present)
    have slotOther {i : Fin NR_TASKS} {a : Nat} (present : s.task i = some a) : i ≠ nr := by
      rintro rfl
      rw [empty] at present
      cases present
    have childNotMe : child ≠ me := (childOther current).symm
    -- a slot holds the new task, or what it held before
    have slots {i : Fin NR_TASKS} {a : Nat} (present : update s.task nr (some child) i = some a) :
        i = nr ∧ child = a ∨ i ≠ nr ∧ a ≠ child ∧ s.task i = some a :=
      (of_update_some present).imp_right fun ⟨slot, before⟩ => ⟨slot, childOther before, before⟩
    obtain ⟨pages, isPages⟩ : ∃ pages, update (update s.page child
        { pid := s.lastPid, pgrp := (s.page me).pgrp, state := .uninterruptible, fork := .idle }) me
        { s.page me with fork := .copying nr child } = pages := ⟨_, rfl⟩
    rw [isPages]
    have mine : pages me = { s.page me with fork := .copying nr child } := by rw [← isPages, update_self]
    have newTask : pages child =
        { pid := s.lastPid, pgrp := (s.page me).pgrp, state := .uninterruptible, fork := .idle } := by
      rw [← isPages, update_of_ne childNotMe, update_self]
    -- the only task in a fork is the current one
    have forking {i : Fin NR_TASKS} {a : Nat} (present : update s.task nr (some child) i = some a)
        (busy : (pages a).fork ≠ .idle) : a = me := by
      by_contra other
      rcases slots present with ⟨-, rfl⟩ | ⟨-, old, before⟩
      · exact busy (by rw [newTask])
      · rw [← isPages, update_of_ne other, update_of_ne old] at busy
        exact busy (serial.soleFork current (by rw [under]; exact nofun) before other)
    have oldPid {a : Nat} (old : a ≠ child) : (pages a).pid = (s.page a).pid := by
      by_cases same : a = me
      · rw [same, mine]
      · rw [← isPages, update_of_ne same, update_of_ne old]
    constructor
    · constructor
      · intro i j a b present other samePid
        dsimp only at present other samePid
        rcases slots present with ⟨rfl, rfl⟩ | ⟨-, oldA, beforeA⟩ <;>
          rcases slots other with ⟨rfl, rfl⟩ | ⟨-, oldB, beforeB⟩
        · rfl
        · rw [newTask, oldPid oldB] at samePid
          exact absurd samePid.symm (fresh beforeB)
        · rw [newTask, oldPid oldA] at samePid
          exact absurd samePid (fresh beforeA)
        · rw [oldPid oldA, oldPid oldB] at samePid
          exact serial.pidsDiffer beforeA beforeB samePid
      · intro old logged
        rcases mem_append.mp logged with before | now
        · exact serial.intoFree before
        · rw [mem_singleton, Outcome.stored.injEq] at now
          rw [now, empty]
      · intro pid own logged
        rcases mem_append.mp logged with before | now
        · exact serial.ownChild before
        · simp at now
    · intro i j a present other
      rcases slots present with ⟨rfl, rfl⟩ | ⟨-, oldA, beforeA⟩ <;>
        rcases slots other with ⟨rfl, new⟩ | ⟨-, oldB, beforeB⟩
      · rfl
      · exact absurd rfl oldB
      · exact absurd new.symm oldA
      · exact serial.pagesDiffer beforeA beforeB
    · intro i a present
      rcases slots present with ⟨-, rfl⟩ | ⟨-, old, before⟩
      · exact update_self ..
      · exact (update_of_ne old ..).trans (serial.inUse before)
    · intro i j a b present other busy also
      have first := forking present busy
      have second := forking other also
      subst first second
      rcases slots present with ⟨-, new⟩ | ⟨-, -, before⟩
      · exact absurd new childNotMe
      · rcases slots other with ⟨-, new⟩ | ⟨-, -, before'⟩
        · exact absurd new childNotMe
        · exact serial.pagesDiffer before before'
    · intro i a present busy
      have self := forking present busy
      subst self
      dsimp only
      rw [mine]
      exact running
    · intro i a slot present busy
      have self := forking present (by rw [busy]; exact nofun)
      subst self
      dsimp only at busy
      rw [mine] at busy
      cases busy
    · intro i a slot own present busy
      have self := forking present (by rw [busy]; exact nofun)
      subst self
      dsimp only at busy ⊢
      rw [mine, Phase.copying.injEq] at busy
      obtain ⟨rfl, rfl⟩ := busy
      rw [newTask]
      exact ⟨update_self .., rfl, rfl⟩

theorem Serial.finish (serial : s.Serial) {nr : Fin NR_TASKS} {child : Nat} (current : s.task p = some me)
    (running : (s.page me).state = .running) (under : (s.page me).fork = .copying nr child) (copied : Bool) :
    (s.finish me nr child copied).Serial := by
  obtain ⟨slot, number, asleep⟩ := serial.copying current under
  have notMe : child ≠ me := by
    rintro rfl
    rw [running] at asleep
    cases asleep
  have sole {i : Fin NR_TASKS} {a : Nat} (present : s.task i = some a) (other : a ≠ me) : (s.page a).fork = .idle :=
    serial.soleFork current (by rw [under]; exact nofun) present other
  have retired : (s.setTask me { s.page me with fork := .idle }).Serial := serial.retire running _
  have idle {i : Fin NR_TASKS} {a : Nat} (present : s.task i = some a) :
      ((s.setTask me { s.page me with fork := .idle }).page a).fork = .idle := by
    by_cases same : a = me
    · rw [same, setTask_page, update_self]
    · rw [setTask_page, update_of_ne same]
      exact sole present same
  cases copied with
  | true =>
    have woken : ((s.setTask me { s.page me with fork := .idle }).setTask child
        { s.page child with state := .running }).Serial := by
      refine retired.setTask ?_ (.inl (sole slot notMe)) fun present copies => ?_
      · rw [setTask_page, update_of_ne notMe]
      · rw [idle present] at copies
        cases copies
    rw [State.finish, if_pos rfl, update_comm notMe]
    refine { woken with intoFree := fun logged => ?_, ownChild := fun logged => ?_ }
    · rcases mem_append.mp logged with before | now
      · exact serial.intoFree before
      · simp at now
    · rcases mem_append.mp logged with before | now
      · exact serial.ownChild before
      · rw [mem_singleton, Outcome.returned.injEq] at now
        rw [now.1, now.2, number]
  | false =>
    exact retired.erase slot fun present copies => by rw [idle present] at copies; cases copies

theorem Serial.release (serial : s.Serial) {q : Fin NR_TASKS} {p : Nat} (present : s.task q = some p)
    (dead : (s.page p).state = .zombie) :
    State.Serial { s with task := update s.task q none, used := update s.used p false } := by
  refine serial.erase present fun parent under => ?_
  obtain ⟨slot, -, asleep⟩ := serial.copying parent under
  rw [present, Option.some.injEq] at slot
  rw [← slot, dead] at asleep
  cases asleep

theorem Serial.step {s s' : State} {m : Move} (serial : s.Serial) (alone : Alone s m)
    (moved : s.step m = some s') : s'.Serial := by
  cases m with
  | findEmptyProcess p =>
    obtain ⟨me, current, rest⟩ := Option.bind_eq_some_iff.mp moved
    obtain ⟨present, running⟩ := current_eq_some.mp current
    split at rest
    · exact serial.findEmptyProcess present running alone rest
    · cases rest
  | getFreePage p page =>
    obtain ⟨me, current, rest⟩ := Option.bind_eq_some_iff.mp moved
    obtain ⟨present, running⟩ := current_eq_some.mp current
    split at rest
    · next under => exact serial.store present running under rest
    · cases rest
  | copyMem p copied =>
    obtain ⟨me, current, rest⟩ := Option.bind_eq_some_iff.mp moved
    obtain ⟨present, running⟩ := current_eq_some.mp current
    split at rest
    · next under =>
      cases rest
      exact serial.finish present running under copied
    · cases rest
  | exit p =>
    obtain ⟨me, current, rest⟩ := Option.bind_eq_some_iff.mp moved
    obtain ⟨present, running⟩ := current_eq_some.mp current
    split at rest
    · next idle =>
      cases rest
      have gone := serial.retire running .zombie
      rwa [← idle] at gone
    · cases rest
  | release q =>
    obtain ⟨p, present, rest⟩ := Option.bind_eq_some_iff.mp moved
    split at rest
    · next dead =>
      cases rest
      exact serial.release present dead.2
    · cases rest
  | setpgrp q pgrp =>
    obtain ⟨p, present, rfl⟩ := Option.map_eq_some_iff.mp moved
    exact serial.setPgrp p pgrp

end State

/-- Forks that do not overlap give every new task a number and a slot of its own,
and tell the parent that number. -/
theorem forks_apart_of_alone {s : State} (reached : Run State.step Alone State.init s) : s.Apart :=
  (reached.invariant (fun serial alone moved => State.Serial.step serial alone moved) State.Serial.init).toApart

def slot (n : Nat) : Fin NR_TASKS := ⟨n % NR_TASKS, Nat.mod_lt _ NR_TASKS_pos⟩

def forkInto (n page : Nat) : List Move :=
  [.findEmptyProcess (slot n), .getFreePage (slot n) (some page), .copyMem (slot n) true]

/-- `task[1]` finds no page for its third fork. Meanwhile a slot is released, and
`task[2]` takes it afterwards. -/
theorem forks_apart_after_release :
    ∃ s : State, s.task (slot 3) = some 4 ∧ (s.page 4).pid = 5 ∧ s.Apart := by
  obtain ⟨s, ran, filled, number⟩ := exists_of_runIf State.step (fun s m => decide (Alone s m)) State.init
    (forkInto 0 1 ++ forkInto 1 2 ++ forkInto 1 3 ++
      [.exit (slot 3), .findEmptyProcess (slot 1), .release (slot 3), .getFreePage (slot 1) none] ++ forkInto 2 4)
    (fun s => s.task (slot 3) = some 4 ∧ (s.page 4).pid = 5) (by decide +kernel)
  exact ⟨s, filled, number, forks_apart_of_alone (ran.weaken fun _ _ alone => of_decide_eq_true alone)⟩

/-- Two forks that overlap give one number to the tasks in slots 3 and 4, the next
two store into slot 5 both, and one returns the number that was chosen meanwhile. -/
theorem forks_collide :
    ∃ s : State, Reachable State.step State.init s ∧ ¬s.Apart ∧
      (∃ a b, s.task (slot 3) = some a ∧ s.task (slot 4) = some b ∧ (s.page a).state = .running ∧
        (s.page b).state = .running ∧ (s.page a).pid = (s.page b).pid) ∧
      .stored (some 6) ∈ s.log ∧ .returned 8 7 ∈ s.log := by
  obtain ⟨s, ran, third, fourth, runsA, runsB, same, stored, returned⟩ := exists_of_run State.step State.init
    (forkInto 0 1 ++ forkInto 1 2 ++ forkInto 1 3 ++
      [.exit (slot 3), .findEmptyProcess (slot 1), .release (slot 3), .findEmptyProcess (slot 2),
        .getFreePage (slot 1) (some 4), .getFreePage (slot 2) (some 5), .copyMem (slot 1) true,
        .copyMem (slot 2) true, .findEmptyProcess (slot 1), .findEmptyProcess (slot 2),
        .getFreePage (slot 1) (some 6), .getFreePage (slot 2) (some 7), .copyMem (slot 1) true,
        .findEmptyProcess (slot 1), .copyMem (slot 2) true])
    (fun s => s.task (slot 3) = some 5 ∧ s.task (slot 4) = some 4 ∧ (s.page 5).state = .running ∧
      (s.page 4).state = .running ∧ (s.page 5).pid = (s.page 4).pid ∧ .stored (some 6) ∈ s.log ∧
      .returned 8 7 ∈ s.log) (by decide +kernel)
  have collide : ¬s.Apart := fun apart => absurd (apart.pidsDiffer third fourth same) (by decide)
  exact ⟨s, reachable_of_run ran, collide, ⟨5, 4, third, fourth, runsA, runsB, same⟩, stored, returned⟩

end Linux012.Kernel.Forks

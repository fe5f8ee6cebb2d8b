import Linux012.Kernel.Fork
import Linux012.Kernel.Kill

/-! Process groups and sessions: `sys_setpgid`, `sys_setsid`, and the numbers that
`find_empty_process` gives away. -/

set_option autoImplicit false

namespace Linux012.Kernel.Sessions

open Transition
open Option (map_eq_some_iff)

/-- What `task_struct` says of a process' group; `parent` is the slot of `p_pptr`. -/
structure Process where
  pid : Nat
  pgrp : Nat
  session : Nat
  leader : Bool
  euid : Short
  parent : Fin NR_TASKS
  zombie : Bool
deriving DecidableEq

structure State where
  lastPid : Nat
  task : Fin NR_TASKS → Option Process

inductive Move where
  | fork (q : Fin NR_TASKS) (copied : Bool)
  | setsid (q : Fin NR_TASKS)
  | setpgid (q : Fin NR_TASKS) (pid pgid : Int)
  | exit (q : Fin NR_TASKS)
  /-- by the parent's `sys_waitpid` -/
  | release (q : Fin NR_TASKS)
  | credentials (q : Fin NR_TASKS) (euid : Short)
deriving DecidableEq

namespace State

def set (s : State) (i : Fin NR_TASKS) (t : Option Process) : State :=
  { s with task := Function.update s.task i t }

def taken (s : State) : List Nat :=
  (List.finRange NR_TASKS).flatMap fun i => (s.task i).elim [] fun t => [t.pid, t.pgrp]

def emptySlot (s : State) : Option (Fin NR_TASKS) :=
  (List.finRange NR_TASKS).find? fun i => decide (i.val ≠ 0 ∧ s.task i = none)

def child (me : Process) (q : Fin NR_TASKS) (pid : Nat) : Process :=
  { me with pid, leader := false, parent := q, zombie := false }

/-- `find_empty_process` and `copy_process`. -/
def fork (s : State) (q : Fin NR_TASKS) (me : Process) (copied : Bool) : Option State :=
  (Forks.State.freshPid s.taken (2 * NR_TASKS + 1) s.lastPid).map fun pid =>
    let s := { s with lastPid := pid }
    match s.emptySlot with
    | some nr => if copied then s.set nr (some (child me q pid)) else s
    | none => s

def sessionOfPgrp (s : State) (pgrp : Int) : Int :=
  match (Kill.slots.filterMap s.task).find? fun t => decide ((t.pgrp : Int) = pgrp) with
  | some t => t.session
  | none => -1

def named (s : State) (q : Fin NR_TASKS) (pid : Int) : Option (Fin NR_TASKS × Process) :=
  (List.finRange NR_TASKS).findSome? fun i =>
    ((s.task i).filter fun t => decide ((t.pid : Int) = pid ∧ (t.parent = q ∨ i = q))).map fun t => (i, t)

def setpgid (s : State) (q : Fin NR_TASKS) (me : Process) (pid pgid : Int) : Int × State :=
  let pid : Int := if pid = 0 then me.pid else pid
  let pgid : Int := if pgid = 0 then me.pid else pgid
  if pgid < 0 then (-Kill.EINVAL, s)
  else
    match s.named q pid with
    | none => (-Kill.ESRCH, s)
    | some (i, t) =>
      if t.leader then (-EPERM, s)
      else if t.session ≠ me.session ∨ pgid ≠ pid ∧ s.sessionOfPgrp pgid ≠ me.session then (-EPERM, s)
      else (0, s.set i (some { t with pgrp := pgid.toNat }))

def refused (me : Process) : Bool := me.leader && me.euid ≠ 0

def setsid (s : State) (q : Fin NR_TASKS) (me : Process) : Int × State :=
  if refused me then (-EPERM, s)
  else (me.pid, s.set q (some { me with leader := true, session := me.pid, pgrp := me.pid }))

def exit (s : State) (q : Fin NR_TASKS) : State :=
  { s with task := fun i => (s.task i).map fun t =>
      { t with zombie := t.zombie || i = q, parent := if t.parent = q then ⟨1, one_lt_NR_TASKS⟩ else t.parent } }

def running (s : State) (q : Fin NR_TASKS) : Option Process := (s.task q).filter fun me => !me.zombie

def step (s : State) : Move → Option State
  | .fork q copied => (s.running q).bind fun me => s.fork q me copied
  | .setsid q => (s.running q).map fun me => (s.setsid q me).2
  | .setpgid q pid pgid => (s.running q).map fun me => (s.setpgid q me pid pgid).2
  | .exit q => (s.running q).map fun _ => s.exit q
  | .release q => (s.task q).bind fun t => if t.zombie then some (s.set q none) else none
  | .credentials q euid => (s.running q).map fun me => s.set q (some { me with euid })

def boot : State where
  lastPid := 0
  task := fun i => if i.val = 0 then some ⟨0, 0, 0, false, 0, i, false⟩ else none

def OneSession (s : State) : Prop :=
  ∀ {i j t u}, s.task i = some t → s.task j = some u → t.pgrp = u.pgrp → t.pgrp ≠ 0 → t.session = u.session

/-- A process that becomes the leader of a new session leaves nobody else in the group
that has its number. -/
def LeavesNobody (s : State) : Move → Prop
  | .setsid q => ∀ me, s.task q = some me → refused me = true ∨ me.session = me.pid ∨ me.pid = 0 ∨
      ∀ j u, j ≠ q → s.task j = some u → u.pgrp ≠ me.pid
  | _ => True

structure Good (s : State) : Prop where
  small : s.lastPid < 2 ^ 31
  oneSession : s.OneSession
  /-- the group with a process' number is in its session -/
  namesake : ∀ {i j t u}, s.task i = some t → s.task j = some u → t.pid = u.pgrp → u.pgrp ≠ 0 →
    t.session = u.session
  distinct : ∀ {i j t u}, s.task i = some t → s.task j = some u → t.pid = u.pid → i = j

variable {s s' : State} {i q : Fin NR_TASKS} {t me : Process}

@[simp] theorem task_set_self (s : State) (i : Fin NR_TASKS) (t : Option Process) : (s.set i t).task i = t :=
  Function.update_self ..

theorem task_set_of_ne (s : State) (t : Option Process) {j : Fin NR_TASKS} (other : j ≠ i) :
    (s.set i t).task j = s.task j :=
  Function.update_of_ne other ..

theorem running_eq_some : s.running q = some me ↔ s.task q = some me ∧ me.zombie = false := by
  simp [running, Option.filter_eq_some_iff]

theorem mem_taken {n : Nat} : n ∈ s.taken ↔ ∃ j u, s.task j = some u ∧ (n = u.pid ∨ n = u.pgrp) := by
  rw [taken, List.mem_flatMap]
  constructor
  · rintro ⟨j, -, listed⟩
    cases isTask : s.task j with
    | none => simp [isTask] at listed
    | some u => exact ⟨j, u, isTask, by simpa [isTask] using listed⟩
  · rintro ⟨j, u, isTask, same⟩
    exact ⟨j, List.mem_finRange j, by simpa [isTask] using same⟩

namespace Good

theorem put (good : s.Good)
    (group : ∀ j u, j ≠ i → s.task j = some u → u.pgrp = t.pgrp → t.pgrp ≠ 0 → u.session = t.session)
    (member : ∀ j u, j ≠ i → s.task j = some u → u.pid = t.pgrp → t.pgrp ≠ 0 → u.session = t.session)
    (namesake : ∀ j u, j ≠ i → s.task j = some u → t.pid = u.pgrp → u.pgrp ≠ 0 → t.session = u.session)
    (distinct : ∀ j u, j ≠ i → s.task j = some u → t.pid ≠ u.pid) : (s.set i (some t)).Good := by
  have self : (s.set i (some t)).task i = some t := s.task_set_self i (some t)
  have other {j : Fin NR_TASKS} {u : Process} (differ : j ≠ i) (isTask : (s.set i (some t)).task j = some u) :
      s.task j = some u := (s.task_set_of_ne (some t) differ).symm.trans isTask
  refine ⟨good.small, fun {j k u v} isU isV same nonzero => ?_, fun {j k u v} isU isV same nonzero => ?_,
    fun {j k u v} isU isV same => ?_⟩
  · by_cases first : j = i
    · subst first
      cases self.symm.trans isU
      by_cases second : k = j
      · subst second
        cases isU.symm.trans isV
        rfl
      · exact (group k v second (other second isV) same.symm nonzero).symm
    · by_cases second : k = i
      · subst second
        cases self.symm.trans isV
        exact group j u first (other first isU) same (same ▸ nonzero)
      · exact good.oneSession (other first isU) (other second isV) same nonzero
  · by_cases first : j = i
    · subst first
      cases self.symm.trans isU
      by_cases second : k = j
      · subst second
        cases isU.symm.trans isV
        rfl
      · exact namesake k v second (other second isV) same nonzero
    · by_cases second : k = i
      · subst second
        cases self.symm.trans isV
        exact member j u first (other first isU) same nonzero
      · exact good.namesake (other first isU) (other second isV) same nonzero
  · by_contra differ
    by_cases first : j = i
    · subst first
      cases self.symm.trans isU
      exact distinct k v (Ne.symm differ) (other (Ne.symm differ) isV) same
    · by_cases second : k = i
      · subst second
        cases self.symm.trans isV
        exact distinct j u first (other first isU) same.symm
      · exact differ (good.distinct (other first isU) (other second isV) same)

theorem keep (good : s.Good) {t' : Process} (isTask : s.task i = some t) (pid : t'.pid = t.pid)
    (pgrp : t'.pgrp = t.pgrp) (session : t'.session = t.session) : (s.set i (some t')).Good := by
  refine good.put ?_ ?_ ?_ ?_
  · rw [pgrp, session]
    exact fun j u _ isU same nonzero => good.oneSession isU isTask same (same ▸ nonzero)
  · rw [pgrp, session]
    exact fun j u _ isU same nonzero => good.namesake isU isTask same nonzero
  · rw [pid, session]
    exact fun j u _ isU same nonzero => good.namesake isTask isU same nonzero
  · rw [pid]
    exact fun j u other isU same => other (good.distinct isTask isU same).symm

theorem remove (good : s.Good) : (s.set i none).Good := by
  have old {j : Fin NR_TASKS} {u : Process} (isTask : (s.set i none).task j = some u) : s.task j = some u := by
    by_cases now : j = i
    · subst now
      cases (s.task_set_self j none).symm.trans isTask
    · exact (s.task_set_of_ne none now).symm.trans isTask
  exact ⟨good.small, fun isU isV => good.oneSession (old isU) (old isV),
    fun isU isV => good.namesake (old isU) (old isV), fun isU isV => good.distinct (old isU) (old isV)⟩

theorem exit (good : s.Good) : (s.exit q).Good := by
  have old {j : Fin NR_TASKS} {u : Process} (isTask : (s.exit q).task j = some u) :
      ∃ v, s.task j = some v ∧ u.pid = v.pid ∧ u.pgrp = v.pgrp ∧ u.session = v.session := by
    obtain ⟨v, isV, rfl⟩ := map_eq_some_iff.mp isTask
    exact ⟨v, isV, rfl, rfl, rfl⟩
  refine ⟨good.small, fun {j k u v} isU isV same nonzero => ?_, fun {j k u v} isU isV same nonzero => ?_,
    fun {j k u v} isU isV same => ?_⟩
  all_goals
    obtain ⟨u', isU', pid, pgrp, session⟩ := old isU
    obtain ⟨v', isV', pid', pgrp', session'⟩ := old isV
  · rw [pgrp, pgrp'] at same
    rw [session, session']
    exact good.oneSession isU' isV' same (pgrp ▸ nonzero)
  · rw [pid, pgrp'] at same
    rw [session, session']
    exact good.namesake isU' isV' same (pgrp' ▸ nonzero)
  · rw [pid, pid'] at same
    exact good.distinct isU' isV' same

theorem fork (good : s.Good) {copied : Bool} (isMe : s.task q = some me) (forked : s.fork q me copied = some s') :
    s'.Good := by
  obtain ⟨pid, found, rfl⟩ := map_eq_some_iff.mp forked
  obtain ⟨fresh, small⟩ := Forks.freshPid_spec found
  have next : { s with lastPid := pid }.Good :=
    ⟨small, good.oneSession, good.namesake, good.distinct⟩
  dsimp only
  split
  · split
    · refine next.put (fun j u _ isU same nonzero => ?_) (fun j u _ isU same nonzero => ?_) ?_ ?_
      · have group : u.pgrp = me.pgrp := same
        have session : u.session = me.session := good.oneSession isU isMe group (same ▸ nonzero)
        exact session
      · have session : u.session = me.session := good.namesake isU isMe same nonzero
        exact session
      · exact fun j u _ isU same _ => absurd (mem_taken.mpr ⟨j, u, isU, .inr same⟩) fresh
      · exact fun j u _ isU same => absurd (mem_taken.mpr ⟨j, u, isU, .inl same⟩) fresh
    · exact next
  · exact next

theorem named_eq_some {pid : Int} (found : s.named q pid = some (i, t)) : s.task i = some t ∧ (t.pid : Int) = pid := by
  obtain ⟨j, -, chosen⟩ := List.exists_of_findSome?_eq_some found
  simp only [map_eq_some_iff, Option.filter_eq_some_iff, decide_eq_true_eq, Prod.mk.injEq] at chosen
  obtain ⟨u, ⟨isU, same, -⟩, rfl, rfl⟩ := chosen
  exact ⟨isU, same⟩

theorem sessionOfPgrp_eq {pgrp : Int} {n : Nat} (found : s.sessionOfPgrp pgrp = n) :
    ∃ j u, s.task j = some u ∧ (u.pgrp : Int) = pgrp ∧ u.session = n := by
  rw [sessionOfPgrp] at found
  split at found
  · next u isFirst =>
    obtain ⟨j, -, isU⟩ := List.mem_filterMap.mp (List.mem_of_find?_eq_some isFirst)
    exact ⟨j, u, isU, by simpa using List.find?_some isFirst, by exact_mod_cast found⟩
  · omega

theorem setpgid (good : s.Good) (q : Fin NR_TASKS) (me : Process) (pid pgid : Int) : (s.setpgid q me pid pgid).2.Good := by
  rw [State.setpgid]
  generalize (if pid = 0 then (me.pid : Int) else pid) = pid
  generalize (if pgid = 0 then (me.pid : Int) else pgid) = pgid
  split
  · exact good
  next notNegative =>
  split
  · exact good
  next i t found =>
  obtain ⟨isTask, isPid⟩ := named_eq_some found
  split
  · exact good
  split
  · exact good
  next guarded =>
  rw [not_or, not_and_or, not_not, not_not, not_not] at guarded
  obtain ⟨session, known⟩ := guarded
  -- the group is the process' own, or one of its session
  have joins {j : Fin NR_TASKS} {u : Process} (isU : s.task j = some u) (same : u.pgrp = pgid.toNat)
      (nonzero : pgid.toNat ≠ 0) : u.session = t.session := by
    rcases known with own | inSession
    · exact (good.namesake isTask isU (by omega) (same ▸ nonzero)).symm
    · obtain ⟨k, v, isV, group, session'⟩ := sessionOfPgrp_eq inSession
      have sameGroup : u.pgrp = v.pgrp := by omega
      rw [good.oneSession isU isV sameGroup (same ▸ nonzero), session', session]
  refine good.put (fun j u _ isU => joins isU) (fun j u other isU same nonzero => ?_)
    (fun j u _ isU same nonzero => ?_) fun j u other isU same => other (good.distinct isTask isU same).symm
  case refine_2 =>
    have session' : t.session = u.session := good.namesake isTask isU same nonzero
    exact session'
  rcases known with own | inSession
  · have samePid : u.pid = t.pid := by
      have eq : u.pid = pgid.toNat := same
      omega
    exact absurd (good.distinct isU isTask samePid) other
  · obtain ⟨k, v, isV, group, session'⟩ := sessionOfPgrp_eq inSession
    have isName : u.pid = v.pgrp := by
      have eq : u.pid = pgid.toNat := same
      omega
    have positive : v.pgrp ≠ 0 := by
      have eq : pgid.toNat ≠ 0 := nonzero
      omega
    exact (good.namesake isU isV isName positive).trans (session'.trans session.symm)

theorem setsid (good : s.Good) (isMe : s.task q = some me) (leaves : s.LeavesNobody (.setsid q)) :
    (s.setsid q me).2.Good := by
  rw [State.setsid]
  cases isRefused : refused me with
  | true => exact good
  | false =>
    have others (j : Fin NR_TASKS) (u : Process) (other : j ≠ q) (isU : s.task j = some u) (same : u.pgrp = me.pid)
        (nonzero : me.pid ≠ 0) : u.session = me.pid := by
      rcases leaves me isMe with refusal | session | zero | nobody
      · exact absurd (isRefused.symm.trans refusal) (by simp)
      · exact (good.namesake isMe isU same.symm (same ▸ nonzero)).symm.trans session
      · exact absurd zero nonzero
      · exact absurd same (nobody j u other isU)
    refine good.put others (fun j u other isU same _ => ?_) (fun j u other isU same nonzero => ?_)
      fun j u other isU same => other (good.distinct isMe isU same).symm
    · exact absurd (good.distinct isU isMe same) other
    · exact (others j u other isU same.symm (same ▸ nonzero)).symm

theorem step {m : Move} (good : s.Good) (leaves : s.LeavesNobody m) (moved : s.step m = some s') : s'.Good := by
  cases m with
  | fork q copied =>
    obtain ⟨me, isRunning, forked⟩ := Option.bind_eq_some_iff.mp moved
    exact good.fork (running_eq_some.mp isRunning).1 forked
  | setsid q =>
    obtain ⟨me, isRunning, rfl⟩ := map_eq_some_iff.mp moved
    exact good.setsid (running_eq_some.mp isRunning).1 leaves
  | setpgid q pid pgid =>
    obtain ⟨me, -, rfl⟩ := map_eq_some_iff.mp moved
    exact good.setpgid q me pid pgid
  | exit q =>
    obtain ⟨me, -, rfl⟩ := map_eq_some_iff.mp moved
    exact good.exit
  | release q =>
    obtain ⟨t, -, released⟩ := Option.bind_eq_some_iff.mp moved
    simp only [Option.ite_none_right_eq_some, Option.some.injEq] at released
    obtain ⟨-, rfl⟩ := released
    exact good.remove
  | credentials q euid =>
    obtain ⟨me, isRunning, rfl⟩ := map_eq_some_iff.mp moved
    exact good.keep (running_eq_some.mp isRunning).1 rfl rfl rfl

theorem broken {m : Move} (good : s.Good) (leaves : ¬s.LeavesNobody m) (moved : s.step m = some s') :
    ¬s'.OneSession := by
  cases m with
  | setsid q =>
    obtain ⟨me, isRunning, rfl⟩ := map_eq_some_iff.mp moved
    have isMe := (running_eq_some.mp isRunning).1
    simp only [LeavesNobody, isMe, Option.some.injEq, forall_eq', not_or, not_forall, not_not] at leaves
    obtain ⟨accepted, session, nonzero, j, u, other, isU, same⟩ := leaves
    rw [State.setsid, if_neg accepted]
    intro oneSession
    have isU' := (s.task_set_of_ne (some { me with leader := true, session := me.pid, pgrp := me.pid }) other).trans isU
    have split := oneSession (s.task_set_self q _) isU' same.symm nonzero
    have before := good.namesake isMe isU same.symm (same ▸ nonzero)
    exact session (before.trans split.symm)
  | fork | setpgid | exit | release | credentials => exact absurd trivial leaves

end Good

theorem boot_good : boot.Good := by
  have only {i : Fin NR_TASKS} {t : Process} (isTask : boot.task i = some t) :
      i.val = 0 ∧ t.pid = 0 ∧ t.pgrp = 0 ∧ t.session = 0 := by
    simp only [boot, Option.ite_none_right_eq_some, Option.some.injEq] at isTask
    obtain ⟨first, rfl⟩ := isTask
    exact ⟨first, rfl, rfl, rfl⟩
  refine ⟨by decide, fun isT isU _ _ => ?_, fun isT isU _ _ => ?_, fun isT isU _ => ?_⟩
  · exact (only isT).2.2.2.trans (only isU).2.2.2.symm
  · exact (only isT).2.2.2.trans (only isU).2.2.2.symm
  · exact Fin.ext ((only isT).1.trans (only isU).1.symm)

theorem oneSession_iff_leavesNobody (moves : List Move) :
    Always step OneSession boot moves ↔ Throughout step LeavesNobody boot moves :=
  always_iff_of_good (fun good => good.oneSession) (fun good => good.step) (fun good => good.broken) boot_good moves

def leaderStartsSession : List Move :=
  [.fork ⟨0, NR_TASKS_pos⟩ true, .setpgid ⟨1, one_lt_NR_TASKS⟩ 0 0, .fork ⟨1, one_lt_NR_TASKS⟩ true, .setsid ⟨1, one_lt_NR_TASKS⟩]

theorem group_in_two_sessions : ∃ s, run step boot leaderStartsSession = some s ∧ ¬s.OneSession := by
  obtain ⟨s, ran, first, second⟩ := exists_of_run step boot leaderStartsSession
    (fun s => (s.task ⟨1, one_lt_NR_TASKS⟩).map (fun t => (t.pgrp, t.session)) = some (1, 1) ∧
      (s.task ⟨2, by decide⟩).map (fun t => (t.pgrp, t.session)) = some (1, 0)) (by decide +kernel)
  refine ⟨s, ran, fun oneSession => ?_⟩
  obtain ⟨t, isT, same⟩ := map_eq_some_iff.mp first
  obtain ⟨u, isU, same'⟩ := map_eq_some_iff.mp second
  rw [Prod.mk.injEq] at same same'
  have session := oneSession isT isU (same.1.trans same'.1.symm) (by omega)
  omega

end State

end Linux012.Kernel.Sessions

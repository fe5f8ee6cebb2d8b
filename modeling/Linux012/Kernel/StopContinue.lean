import Linux012.Kernel.JobControl
import Linux012.Lib.Updates

/-! Stop signals and `SIGCONT` cancel each other. -/

set_option autoImplicit false

namespace Linux012.Kernel.JobControl

open Transition Updates Function
open BitVec (getLsbD_and getLsbD_zero getLsbD_or)
open Option (map_eq_some_iff bind_eq_some_iff)

def Watched (n : Nat) : Prop := n = 8 ∨ n = 17 ∨ 18 ≤ n ∧ n ≤ 21

def Genuine (sig : Int) : Prop := 1 ≤ sig ∧ sig ≤ 32 ∨ ¬Watched ((sig - 1) % 32).toNat

def Calm (signal : Word) : Prop :=
  signal.getLsbD 17 = true → ∀ n, 18 ≤ n → n ≤ 21 → signal.getLsbD n = false

structure Task.Good (t : Task) : Prop where
  calm : Calm t.signal
  stopped : t.state = .stopped → t.signal.getLsbD 17 = false ∧ t.signal.getLsbD 8 = false
  mask : t.blocked.getLsbD 8 = false
  still : t.activity ≠ .awake → t.state ≠ .stopped

def Tasks.Good (s : Tasks) : Prop := ∀ p t, s p = some t → t.Good

/-! ## Sets of signals -/

variable {n : Nat}

theorem bit_getLsbD {sig : Nat} (small : n < 32) : (bit sig).getLsbD n = decide (n = sig - 1) := by
  by_cases same : n = sig - 1
  · rw [decide_eq_true same, same, Kill.bit_self (same ▸ small)]
  · rw [decide_eq_false same, Kill.bit_other (Ne.symm same)]

theorem shifted_getLsbD (sig : Int) (small : n < 32) :
    (shifted sig).getLsbD n = decide (n = ((sig - 1) % 32).toNat) := by
  have low : ((sig - 1) % 32).toNat < 32 := by omega
  have same : shifted sig = bit (((sig - 1) % 32).toNat + 1) := by
    rw [shifted, bit, Nat.add_sub_cancel]
  rw [same, bit_getLsbD small, Nat.add_sub_cancel]

theorem stops_getLsbD (small : n < 32) : stops.getLsbD n = decide (18 ≤ n ∧ n ≤ 21) := by
  have all : ∀ n : Fin 32, stops.getLsbD n.val = decide (18 ≤ n.val ∧ n.val ≤ 21) := by decide
  exact all ⟨n, small⟩

variable {a : Word}

theorem getLsbD_diff {b : Word} (small : n < 32) : (a &&& ~~~b).getLsbD n = (a.getLsbD n && !b.getLsbD n) := by
  rw [getLsbD_and, BitVec.getLsbD_not, decide_eq_true small, Bool.true_and]

theorem Calm.diff (calm : Calm a) (b : Word) : Calm (a &&& ~~~b) := by
  intro cont n low high
  rw [getLsbD_diff (by omega), Bool.and_eq_true] at cont
  rw [getLsbD_diff (by omega), calm cont.1 n low high, Bool.false_and]

theorem and_bit_eq_zero_iff {sig : Nat} (small : sig - 1 < 32) :
    a &&& bit sig = 0 ↔ a.getLsbD (sig - 1) = false := by
  constructor
  · intro clear
    have both : (a &&& bit sig).getLsbD (sig - 1) = false := by
      rw [clear]
      exact getLsbD_zero
    rwa [getLsbD_and, bit_getLsbD small, decide_eq_true rfl, Bool.and_true] at both
  · intro clear
    refine BitVec.eq_of_getLsbD_eq fun n below => ?_
    change (a &&& bit sig).getLsbD n = (0#32).getLsbD n
    rw [getLsbD_and, bit_getLsbD below, getLsbD_zero]
    by_cases same : n = sig - 1
    · rw [same, clear, Bool.false_and]
    · rw [decide_eq_false same, Bool.and_false]

theorem and_stops_eq_zero (clear : ∀ n, 18 ≤ n → n ≤ 21 → a.getLsbD n = false) : a &&& stops = 0 := by
  refine BitVec.eq_of_getLsbD_eq fun n below => ?_
  change (a &&& stops).getLsbD n = (0#32).getLsbD n
  rw [getLsbD_and, stops_getLsbD below, getLsbD_zero]
  by_cases stop : 18 ≤ n ∧ n ≤ 21
  · rw [clear n stop.1 stop.2, Bool.false_and]
  · rw [decide_eq_false stop, Bool.and_false]

/-! ## One task -/

section Task

variable {t : Task}

theorem Task.Good.of_signal {t' : Task} (good : t.Good) (calm : Calm t'.signal)
    (cont : t'.signal.getLsbD 17 = true → t.signal.getLsbD 17 = true)
    (kill : t'.signal.getLsbD 8 = true → t.signal.getLsbD 8 = true) (state : t'.state = .stopped → t.state = .stopped)
    (mask : t'.blocked = t.blocked) (activity : t'.activity = t.activity) : t'.Good := by
  refine ⟨calm, fun stopped => ?_, mask ▸ good.mask, fun busy stopped => good.still (activity ▸ busy) (state stopped)⟩
  obtain ⟨noCont, noKill⟩ := good.stopped (state stopped)
  exact ⟨Bool.eq_false_iff.mpr fun set => Bool.false_ne_true (noCont.symm.trans (cont set)),
    Bool.eq_false_iff.mpr fun set => Bool.false_ne_true (noKill.symm.trans (kill set))⟩

theorem Task.Good.congr {t' : Task} (good : t.Good) (state : t'.state = .stopped → t.state = .stopped)
    (signal : t'.signal = t.signal) (mask : t'.blocked = t.blocked) (activity : t'.activity = t.activity) : t'.Good :=
  good.of_signal (signal ▸ good.calm) (fun set => signal ▸ set) (fun set => signal ▸ set) state mask activity

theorem Task.Good.remove (good : t.Good) (set : Word) : (t.remove set).Good := by
  refine good.of_signal (good.calm.diff set) ?_ ?_ id rfl rfl
  · intro cont
    rw [Task.remove, getLsbD_diff (by decide), Bool.and_eq_true] at cont
    exact cont.1
  · intro kill
    rw [Task.remove, getLsbD_diff (by decide), Bool.and_eq_true] at kill
    exact kill.1

theorem Task.Good.add (good : t.Good) {set : Word} {k : Nat} (isBit : ∀ n, n < 32 → set.getLsbD n = decide (n = k))
    (other : ¬Watched k) : (t.add set).Good := by
  have same : ∀ n, n < 32 → Watched n → (t.add set).signal.getLsbD n = t.signal.getLsbD n := by
    intro n small watched
    have differ : n ≠ k := fun equal => other (equal ▸ watched)
    rw [Task.add, getLsbD_or, isBit n small, decide_eq_false differ, Bool.or_false]
  have cont := same 17 (by decide) (.inr (.inl rfl))
  have kill := same 8 (by decide) (.inl rfl)
  refine good.of_signal ?_ (fun set => cont ▸ set) (fun set => kill ▸ set) id rfl rfl
  intro set n low high
  rw [same n (by omega) (.inr (.inr ⟨low, high⟩))]
  exact good.calm (cont ▸ set) n low high

theorem Task.Good.post (good : t.Good) {sig : Nat} (other : ¬Watched (sig - 1)) : (t.post sig).Good :=
  good.add (fun _ small => bit_getLsbD small) other

theorem Task.unstop_state (t : Task) : t.unstop.state ≠ .stopped := by
  change (if t.state = .stopped then .running else t.state) ≠ _
  split
  · exact nofun
  next running => exact running

theorem Task.Good.unstop (good : t.Good) : t.unstop.Good :=
  ⟨good.calm.diff stops, fun stopped => absurd stopped t.unstop_state, good.mask, fun _ => t.unstop_state⟩

theorem Task.Good.unstop_add (good : t.Good) {set : Word} (others : ∀ n, 18 ≤ n → n ≤ 21 → set.getLsbD n = false) :
    (t.unstop.add set).Good := by
  refine ⟨fun _ n low high => ?_, fun stopped => absurd stopped t.unstop_state, good.mask, fun _ => t.unstop_state⟩
  have small : n < 32 := by omega
  change (t.signal &&& ~~~stops ||| set).getLsbD n = false
  rw [getLsbD_or, getLsbD_diff small, stops_getLsbD small, others n low high, decide_eq_true ⟨low, high⟩,
    Bool.not_true, Bool.and_false, Bool.or_false]

variable {sig : Int}

theorem Task.Good.stop (good : t.Good) (low : 19 ≤ sig) (high : sig ≤ 22) :
    ((t.remove (bit SIGCONT)).add (shifted sig)).Good := by
  have index : ∀ n : Nat, n < 18 → (shifted sig).getLsbD n = false := by
    intro n below
    rw [shifted_getLsbD sig (by omega), decide_eq_false_iff_not]
    omega
  have cont : ((t.remove (bit SIGCONT)).add (shifted sig)).signal.getLsbD 17 = false := by
    rw [Task.add, Task.remove, getLsbD_or, index 17 (by decide), getLsbD_diff (by decide),
      bit_getLsbD (by decide), decide_eq_true (by rfl), Bool.not_true, Bool.and_false, Bool.or_false]
  have none : ((t.remove (bit SIGCONT)).add (shifted sig)).signal.getLsbD 17 ≠ true := by
    rw [cont]
    exact Bool.false_ne_true
  refine good.of_signal (fun set => absurd set none) (fun set => absurd set none) (fun set => ?_) id rfl rfl
  rw [Task.add, Task.remove, getLsbD_or, index 8 (by decide), Bool.or_false, getLsbD_diff (by decide),
    Bool.and_eq_true] at set
  exact set.1

theorem Task.send_good (good : t.Good) (genuine : Genuine sig) (beside : Word) : (t.send sig beside).Good := by
  unfold Task.send
  by_cases continues : sig = SIGKILL ∨ sig = SIGCONT
  · rw [if_pos continues]
    dsimp only
    generalize (if 1 ≤ sig ∧ sig ≤ 32 then (t.unstop.action sig.toNat).handler else beside) = handler
    split
    · exact good.unstop
    · have notStop : ¬((SIGSTOP : Int) ≤ sig ∧ sig ≤ SIGTTOU) := by
        rcases continues with rfl | rfl <;> decide
      rw [if_neg notStop]
      refine good.unstop_add fun n low high => ?_
      rw [shifted_getLsbD sig (by omega), decide_eq_false_iff_not]
      rcases continues with rfl | rfl
      · change n ≠ 8
        omega
      · change n ≠ 17
        omega
  · rw [if_neg continues]
    dsimp only
    generalize (if 1 ≤ sig ∧ sig ≤ 32 then (t.action sig.toNat).handler else beside) = handler
    split
    · exact good
    · by_cases stop : (SIGSTOP : Int) ≤ sig ∧ sig ≤ SIGTTOU
      · rw [if_pos stop]
        exact good.stop stop.1 stop.2
      · rw [if_neg stop]
        refine good.add (fun n small => shifted_getLsbD sig small) ?_
        rcases genuine with signal | other
        · have numbers : sig ≠ 9 ∧ sig ≠ 18 ∧ ¬(19 ≤ sig ∧ sig ≤ 22) :=
            ⟨fun equal => continues (.inl equal), fun equal => continues (.inr equal), stop⟩
          unfold Watched
          omega
        · exact other

theorem Task.send_stopped (stopped : t.state = .stopped) (other : ¬(sig = SIGKILL ∨ sig = SIGCONT))
    (beside : Word) : (t.send sig beside).state = .stopped := by
  unfold Task.send
  rw [if_neg other]
  dsimp only
  generalize (if 1 ≤ sig ∧ sig ≤ 32 then (t.action sig.toNat).handler else beside) = handler
  split
  · exact stopped
  · split <;> exact stopped

theorem Task.pending_spec {signr : Nat} (found : t.pending = some signr) :
    1 ≤ signr ∧ signr ≤ 32 ∧ t.signal.getLsbD (signr - 1) = true ∧
      ∀ n, n + 1 < signr → t.signal.getLsbD n = true → t.blocked.getLsbD n = true := by
  unfold Task.pending at found
  obtain ⟨n, first, rfl⟩ := map_eq_some_iff.mp found
  have small := List.mem_range.mp (List.mem_of_find?_eq_some first)
  have here := List.find?_some first
  rw [getLsbD_diff small, Bool.and_eq_true] at here
  refine ⟨Nat.succ_le_succ (Nat.zero_le n), small, here.1, fun k below set => ?_⟩
  have low : k < n := Nat.lt_of_succ_lt_succ below
  have skipped : (t.signal &&& ~~~t.blocked).getLsbD k = false := by
    exact Bool.not_eq_true' _ |>.mp ((List.find?_range_eq_some.mp first).2.2 k low)
  rw [getLsbD_diff (low.trans small), set, Bool.true_and, Bool.not_eq_false'] at skipped
  exact skipped

theorem Task.awaken_stopped (u : Scheduler.Task) (jiffies : Word) :
    (u.awaken jiffies).state = .stopped ↔ u.state = .stopped := by
  have expired : (u.expire jiffies).state = .stopped ↔ u.state = .stopped := by
    unfold Scheduler.Task.expire
    split
    · dsimp only
      split
      next sleeping => simp [sleeping]
      next => exact Iff.rfl
    · exact Iff.rfl
  have rung : ((u.expire jiffies).ring jiffies).state = (u.expire jiffies).state := by
    unfold Scheduler.Task.ring
    split <;> rfl
  rw [Scheduler.Task.awaken, Scheduler.Task.interrupt, ← expired, ← rung]
  split
  next woken => simp [woken.2]
  next => exact Iff.rfl

theorem Task.awaken_signal (u : Scheduler.Task) (jiffies : Word) :
    (u.awaken jiffies).blocked = u.blocked ∧
      ((u.awaken jiffies).signal = u.signal ∨ (u.awaken jiffies).signal = u.signal ||| bit Scheduler.SIGALRM) := by
  have expired : (u.expire jiffies).blocked = u.blocked ∧ (u.expire jiffies).signal = u.signal := by
    unfold Scheduler.Task.expire
    split <;> exact ⟨rfl, rfl⟩
  have rung : ((u.expire jiffies).ring jiffies).blocked = u.blocked ∧
      (((u.expire jiffies).ring jiffies).signal = u.signal ∨
        ((u.expire jiffies).ring jiffies).signal = u.signal ||| bit Scheduler.SIGALRM) := by
    unfold Scheduler.Task.ring
    split
    · exact ⟨expired.1, .inr (by dsimp only; rw [expired.2])⟩
    · exact ⟨expired.1, .inl expired.2⟩
  unfold Scheduler.Task.awaken Scheduler.Task.interrupt
  split <;> exact rung

theorem Task.Good.awaken (good : t.Good) (jiffies : Word) : Task.Good { t with toTask := t.toTask.awaken jiffies } := by
  obtain ⟨mask, signal⟩ := Task.awaken_signal t.toTask jiffies
  have state := (Task.awaken_stopped t.toTask jiffies).mp
  rcases signal with same | more
  · exact good.congr state same mask rfl
  · have posted : (t.post Scheduler.SIGALRM).Good := good.post (by unfold Watched; decide)
    exact posted.congr state more mask rfl

end Task

/-! ## One step -/

structure Keeps (s s' : Tasks) : Prop where
  good : s'.Good
  stopped : ∀ p t, s p = some t → t.state = .stopped → ∃ t', s' p = some t' ∧ t'.state = .stopped

theorem Keeps.trans {s s' s'' : Tasks} (first : Keeps s s') (second : Keeps s' s'') : Keeps s s'' := by
  refine ⟨second.good, fun p t found stopped => ?_⟩
  obtain ⟨t', found', stopped'⟩ := first.stopped p t found stopped
  exact second.stopped p t' found' stopped'

namespace Tasks

variable {s s' : Tasks} {p q : Fin NR_TASKS} {t : Task}

theorem Good.keeps (good : s.Good) : Keeps s s := ⟨good, fun _ t found stopped => ⟨t, found, stopped⟩⟩

variable {new : Task}

theorem Good.set (good : s.Good) (good' : new.Good) : (s.set p new).Good := by
  intro i t found
  rcases of_update_some found with ⟨-, rfl⟩ | ⟨-, before⟩
  · exact good'
  · exact good i t before

theorem Good.set_keeps (good : s.Good) (good' : new.Good)
    (stays : ∀ t, s p = some t → t.state = .stopped → new.state = .stopped) : Keeps s (s.set p new) := by
  refine ⟨good.set good', fun i t found stopped => ?_⟩
  by_cases same : i = p
  · subst same
    exact ⟨new, update_self .., stays t found stopped⟩
  · exact ⟨t, (update_of_ne same ..).trans found, stopped⟩

theorem Good.remove_keeps (good : s.Good) (found : s p = some t) (other : t.state ≠ .stopped) :
    Keeps s (update s p none) := by
  constructor
  · intro i u here
    exact good i u (of_update_none here).2
  · intro i u here stopped
    by_cases same : i = p
    · subst same
      cases found.symm.trans here
      exact absurd stopped other
    · exact ⟨u, (update_of_ne same ..).trans here, stopped⟩

theorem Good.map_keeps (good : s.Good) (f : Fin NR_TASKS → Task → Task) (kept : ∀ i t, t.Good → (f i t).Good)
    (stays : ∀ i t, t.state = .stopped → (f i t).state = .stopped) : Keeps s fun i => (s i).map (f i) := by
  constructor
  · intro i t' found
    obtain ⟨t, before, rfl⟩ := map_eq_some_iff.mp found
    exact kept i t (good i t before)
  · intro i t found stopped
    exact ⟨f i t, by rw [found]; rfl, stays i t stopped⟩

theorem Good.post_keeps (good : s.Good) (q : Fin NR_TASKS) {sig : Nat} (other : ¬Watched (sig - 1)) :
    Keeps s (s.post q sig) := by
  have same : s.post q sig = fun i => (s i).map fun t => if i = q then t.post sig else t := by
    funext i
    by_cases equal : i = q
    · subst equal
      simp only [post, update_self, if_true]
    · simp only [post, update_of_ne equal, if_neg equal, Option.map_id']
  rw [same]
  refine good.map_keeps _ (fun i t goodT => ?_) (fun i t stopped => ?_)
  · split
    · exact goodT.post other
    · exact goodT
  · split <;> exact stopped

theorem childSignal : ¬Watched (SIGCHLD - 1) := by
  unfold Watched
  decide

theorem Good.tellParent_keeps (good : s.Good) (q : Fin NR_TASKS) : Keeps s (s.tellParent q) := by
  unfold tellParent
  split
  · exact good.post_keeps q childSignal
  · exact good.keeps

theorem Good.adopt_keeps (good : s.Good) (p : Fin NR_TASKS) : Keeps s (s.adopt p) := by
  refine good.map_keeps (fun _ t => if t.parent = p then { t with parent := initTask } else t)
    (fun i t goodT => ?_) (fun i t stopped => ?_)
  · split
    · exact goodT.congr id rfl rfl rfl
    · exact goodT
  · split <;> exact stopped

theorem active_spec (found : s.active p = some t) : s p = some t ∧ t.state = .running ∧ t.activity = .awake := by
  rw [active, Option.filter_eq_some_iff] at found
  simpa using found

theorem Good.active_keeps (good : s.Good) (found : s.active p = some t) (good' : new.Good) :
    Keeps s (s.set p new) := by
  obtain ⟨here, running, -⟩ := active_spec found
  refine good.set_keeps good' fun u other stopped => ?_
  cases here.symm.trans other
  cases running.symm.trans stopped

theorem Good.exit_keeps (good : s.Good) (found : s.active p = some t) (good' : new.Good) (code : Word) :
    Keeps s (s.exit p new code) := by
  have zombie : Keeps s (s.set p { new with state := .zombie, exitCode := code }) :=
    good.active_keeps found (good'.congr nofun rfl rfl rfl)
  have told := zombie.trans (zombie.good.post_keeps new.parent childSignal)
  unfold exit
  dsimp only
  split
  · have again := told.trans (told.good.post_keeps initTask childSignal)
    exact again.trans (again.good.adopt_keeps p)
  · exact told.trans (told.good.adopt_keeps p)

/-- A task that stops has neither `SIGCONT` nor `SIGKILL` pending: the first would clash with
the stop signal, and the second would have come first. -/
theorem Good.deliver_keeps (good : s.Good) (found : s.active p = some t) (delivered : s.deliver p t = some s') :
    Keeps s s' := by
  obtain ⟨here, running, awake⟩ := active_spec found
  have goodT := good p t here
  obtain ⟨signr, isPending, delivered⟩ := bind_eq_some_iff.mp delivered
  obtain ⟨low, high, set, before⟩ := Task.pending_spec isPending
  have goodU := goodT.remove (bit signr)
  generalize isU : t.remove (bit signr) = u at delivered goodU
  have signalU : u.signal = t.signal &&& ~~~bit signr := by
    rw [← isU]
    rfl
  have activityU : u.activity = .awake := by
    rw [← isU]
    exact awake
  have parentU : u.parent = t.parent := by
    rw [← isU]
    rfl
  unfold Task.doSignal at delivered
  dsimp only at delivered
  by_cases ignored : (u.action signr).handler = 1
  · rw [if_pos ignored] at delivered
    cases delivered
    exact good.active_keeps found goodU
  · rw [if_neg ignored] at delivered
    by_cases default : (u.action signr).handler = 0
    · rw [if_pos default] at delivered
      by_cases nothing : signr = SIGCONT ∨ signr = SIGCHLD
      · rw [if_pos nothing] at delivered
        cases delivered
        exact good.active_keeps found goodU
      · rw [if_neg nothing] at delivered
        by_cases stop : SIGSTOP ≤ signr ∧ signr ≤ SIGTTOU
        · rw [if_pos stop] at delivered
          cases delivered
          have range : 19 ≤ signr ∧ signr ≤ 22 := stop
          have stopsGood : Task.Good { u with state := .stopped, exitCode := BitVec.ofNat 32 signr } := by
            refine ⟨goodU.calm, fun _ => ?_, goodU.mask, fun busy => absurd activityU busy⟩
            change u.signal.getLsbD 17 = false ∧ u.signal.getLsbD 8 = false
            rw [signalU, getLsbD_diff (by decide), getLsbD_diff (by decide)]
            constructor
            · by_contra cont
              have both := goodT.calm (by simp at cont; exact cont.1) (signr - 1) (by omega) (by omega)
              exact Bool.false_ne_true (both.symm.trans set)
            · by_contra kill
              have blocked := before 8 (by omega) (by simp at kill; exact kill.1)
              exact Bool.false_ne_true (goodT.mask.symm.trans blocked)
          have stops := good.active_keeps found stopsGood
          exact stops.trans (stops.good.tellParent_keeps _)
        · rw [if_neg stop] at delivered
          cases delivered
          exact good.exit_keeps found goodU _
    · rw [if_neg default] at delivered
      dsimp only at delivered
      generalize isArmed : (if (u.action signr).flags &&& SA_ONESHOT ≠ 0 then
        u.setAction signr { u.action signr with handler := 0 } else u) = v at delivered
      have goodV : v.Good := by
        rw [← isArmed]
        split
        · exact goodU.congr id rfl rfl rfl
        · exact goodU
      split at delivered
      next clear =>
        cases delivered
        refine good.active_keeps found ⟨goodV.calm, goodV.stopped, ?_, goodV.still⟩
        exact (and_bit_eq_zero_iff (by decide)).mp clear
      next => cases delivered

theorem Good.step_keeps (good : s.Good) {m : Move} (moved : s.step m = some s')
    (other : ∀ sender q sig caller beside, m ≠ .send sender q sig caller beside) : Keeps s s' := by
  cases m with
  | send sender q sig caller beside => exact absurd rfl (other sender q sig caller beside)
  | deliver p =>
    simp only [step] at moved
    split at moved
    · cases moved
    · obtain ⟨t, found, delivered⟩ := bind_eq_some_iff.mp moved
      exact good.deliver_keeps found delivered
  | setMask p mask =>
    obtain ⟨t, found, moved⟩ := bind_eq_some_iff.mp moved
    split at moved
    next clear =>
      cases moved
      have goodT := good p t (active_spec found).1
      exact good.active_keeps found ⟨goodT.calm, goodT.stopped, (and_bit_eq_zero_iff (by decide)).mp clear, goodT.still⟩
    next => cases moved
  | setAction p signum action =>
    obtain ⟨t, found, rfl⟩ := map_eq_some_iff.mp moved
    split
    · exact good.keeps
    · exact good.active_keeps found ((good p t (active_spec found).1).congr id rfl rfl rfl)
  | setTimers p timeout alarm =>
    obtain ⟨t, found, rfl⟩ := map_eq_some_iff.mp moved
    exact good.active_keeps found ((good p t (active_spec found).1).congr id rfl rfl rfl)
  | fault q sig =>
    obtain ⟨t, found, moved⟩ := bind_eq_some_iff.mp moved
    split at moved
    next faults =>
      cases moved
      refine good.post_keeps q ?_
      unfold Watched
      simp only [List.mem_cons, List.not_mem_nil, or_false] at faults
      rcases faults with rfl | rfl | rfl | rfl <;> decide
    next => cases moved
  | schedule jiffies =>
    cases moved
    have same : (fun i => if i.val = 0 then s i else (s i).map fun t => { t with toTask := t.toTask.awaken jiffies }) =
        fun i => (s i).map fun t => if i.val = 0 then t else { t with toTask := t.toTask.awaken jiffies } := by
      funext i
      split
      · exact Option.map_id'.symm
      · rfl
    rw [same]
    refine good.map_keeps _ (fun i t goodT => ?_) (fun i t stopped => ?_)
    · split
      · exact goodT
      · exact goodT.awaken jiffies
    · split
      · exact stopped
      · exact (Task.awaken_stopped t.toTask jiffies).mpr stopped
  | sleep p state =>
    obtain ⟨t, found, moved⟩ := bind_eq_some_iff.mp moved
    split at moved
    next sleeps =>
      cases moved
      have goodT := good p t (active_spec found).1
      have awake : state ≠ .stopped := by
        rcases sleeps with rfl | rfl <;> exact nofun
      exact good.active_keeps found ⟨goodT.calm, fun stopped => absurd stopped awake, goodT.mask, fun _ => awake⟩
    next => cases moved
  | wake q =>
    obtain ⟨t, found, moved⟩ := bind_eq_some_iff.mp moved
    split at moved
    next asleep =>
      cases moved
      have goodT := good q t found
      refine good.set_keeps (goodT.congr nofun rfl rfl rfl) fun u here stopped => ?_
      cases found.symm.trans here
      exact absurd stopped (goodT.still (by rw [asleep]; exact nofun))
    next => cases moved
  | resume p =>
    obtain ⟨t, found, moved⟩ := bind_eq_some_iff.mp moved
    split at moved
    next ready =>
      cases moved
      have goodT := good p t found
      refine good.set_keeps ⟨goodT.calm, goodT.stopped, goodT.mask, fun busy => absurd rfl busy⟩ fun u here stopped => ?_
      cases found.symm.trans here
      exact stopped
    next => cases moved
  | fork p q pid =>
    obtain ⟨t, found, moved⟩ := bind_eq_some_iff.mp moved
    split at moved
    next empty =>
      cases moved
      have goodT := good p t (active_spec found).1
      refine good.set_keeps ⟨fun set => ?_, nofun, goodT.mask, fun _ => nofun⟩ fun u here => ?_
      · exact absurd (BitVec.getLsbD_zero.symm.trans set) Bool.false_ne_true
      · cases empty.symm.trans here
    next => cases moved
  | forked q ok =>
    obtain ⟨t, found, moved⟩ := bind_eq_some_iff.mp moved
    split at moved
    next forking =>
      cases moved
      have goodT := good q t found
      have running := goodT.still (by rw [forking]; exact nofun)
      split
      · refine good.set_keeps ⟨goodT.calm, nofun, goodT.mask, fun busy => absurd rfl busy⟩ fun u here stopped => ?_
        cases found.symm.trans here
        exact absurd stopped running
      · exact good.remove_keeps found running
    next => cases moved
  | exec p =>
    obtain ⟨t, found, rfl⟩ := map_eq_some_iff.mp moved
    have goodT := good p t (active_spec found).1
    refine good.active_keeps found ⟨fun set => ?_, fun _ => ⟨getLsbD_zero, getLsbD_zero⟩, goodT.mask, goodT.still⟩
    exact absurd (BitVec.getLsbD_zero.symm.trans set) Bool.false_ne_true
  | exit p code =>
    obtain ⟨t, found, rfl⟩ := map_eq_some_iff.mp moved
    exact good.exit_keeps found (good p t (active_spec found).1) code
  | release q =>
    obtain ⟨t, found, moved⟩ := bind_eq_some_iff.mp moved
    split at moved
    next zombie =>
      cases moved
      exact good.remove_keeps found (by rw [zombie]; exact nofun)
    next => cases moved

theorem step_send {sender : Option (Fin NR_TASKS)} {sig : Int} {caller : Caller} {beside : Word}
    (moved : s.step (.send sender q sig caller beside) = some s') :
    ∃ t, s q = some t ∧ s' = s.set q (t.send sig beside) := by
  obtain ⟨t, found, moved⟩ := bind_eq_some_iff.mp moved
  split at moved
  next allowed =>
    cases moved
    exact ⟨t, found, rfl⟩
  next => cases moved

/-- The numbers that `send_sig` gets are signals, or hit none of the watched ones. -/
def Allowed (_ : Tasks) : Move → Prop
  | .send _ _ sig _ _ => Genuine sig
  | _ => True

theorem Good.step (good : s.Good) {m : Move} (allowed : Allowed s m) (moved : s.step m = some s') : s'.Good := by
  by_cases sends : ∃ sender q sig caller beside, m = .send sender q sig caller beside
  · obtain ⟨sender, q, sig, caller, beside, rfl⟩ := sends
    obtain ⟨t, found, rfl⟩ := step_send moved
    exact good.set (Task.send_good (good q t found) allowed beside)
  · exact (good.step_keeps moved fun sender q sig caller beside equal =>
      sends ⟨sender, q, sig, caller, beside, equal⟩).good

theorem init_good : Good init := by
  intro p t found
  unfold init at found
  split at found
  · cases found
    exact ⟨fun set => absurd (BitVec.getLsbD_zero.symm.trans set) Bool.false_ne_true,
      fun stopped => (nomatch stopped), getLsbD_zero, fun busy => absurd rfl busy⟩
  · cases found

theorem Good.step_stopped (good : s.Good) {m : Move} (moved : s.step m = some s') (found : s p = some t)
    (stopped : t.state = .stopped) (left : ∀ t', s' p = some t' → t'.state ≠ .stopped) :
    ∃ sender sig caller beside, m = .send sender p sig caller beside ∧ (sig = SIGKILL ∨ sig = SIGCONT) := by
  by_cases sends : ∃ sender q sig caller beside, m = .send sender q sig caller beside
  · obtain ⟨sender, q, sig, caller, beside, rfl⟩ := sends
    obtain ⟨u, here, rfl⟩ := step_send moved
    by_cases same : p = q
    · subst same
      cases found.symm.trans here
      refine ⟨sender, sig, caller, beside, rfl, ?_⟩
      by_contra other
      exact left _ (update_self ..) (Task.send_stopped stopped other beside)
    · exact absurd stopped (left t ((update_of_ne same ..).trans found))
  · have keeps := good.step_keeps moved fun sender q sig caller beside equal =>
      sends ⟨sender, q, sig, caller, beside, equal⟩
    obtain ⟨t', found', stopped'⟩ := keeps.stopped p t found stopped
    exact absurd stopped' (left t' found')

/-! ## The callers of `send_sig` -/

theorem genuine_of_signal {sig : Int} (signal : ¬(sig < 1 ∨ 32 < sig)) : Genuine sig :=
  .inl (by omega)

theorem killPg_allowed (sender : Option (Fin NR_TASKS)) (sig : Int) (beside pgrp : Word) :
    ∀ m ∈ s.killPg sender sig beside pgrp, Allowed s m := by
  intro m member
  unfold killPg at member
  split at member
  · cases member
  next signal =>
    obtain ⟨i, -, rfl⟩ := List.mem_map.mp member
    exact genuine_of_signal fun wrong => signal (by omega)

theorem killProc_allowed (sender : Option (Fin NR_TASKS)) (sig : Int) (beside pid : Word) :
    ∀ m ∈ s.killProc sender sig beside pid, Allowed s m := by
  intro m member
  unfold killProc at member
  split at member
  · cases member
  next signal =>
    rw [Option.mem_toList, map_eq_some_iff] at member
    obtain ⟨i, -, rfl⟩ := member
    exact genuine_of_signal signal

/-- Stop signals and `SIGCONT` are not pending together, and a stopped task has neither `SIGCONT`
nor `SIGKILL` pending. -/
structure Separate (s : Tasks) : Prop where
  pending : ∀ p t, s p = some t → ¬(t.signal &&& bit SIGCONT ≠ 0 ∧ t.signal &&& stops ≠ 0)
  stopped : ∀ p t, s p = some t → t.state = .stopped →
    t.signal &&& bit SIGCONT = 0 ∧ t.signal &&& bit SIGKILL = 0

/-- No move takes a task out of `TASK_STOPPED` but a call of `send_sig` with `SIGCONT` or
`SIGKILL`. -/
def LeavesOnlyBySending (s : Tasks) : Prop :=
  ∀ m s' p t, s.step m = some s' → s p = some t → t.state = .stopped →
    (∀ t', s' p = some t' → t'.state ≠ .stopped) →
    ∃ sender sig caller beside, m = .send sender p sig caller beside ∧ (sig = SIGKILL ∨ sig = SIGCONT)

theorem Good.separate (good : s.Good) : s.Separate := by
  constructor
  · rintro p t found ⟨cont, stop⟩
    rw [ne_eq, and_bit_eq_zero_iff (by decide), Bool.not_eq_false] at cont
    exact stop (and_stops_eq_zero ((good p t found).calm cont))
  · intro p t found stopped
    rw [and_bit_eq_zero_iff (by decide), and_bit_eq_zero_iff (by decide)]
    exact (good p t found).stopped stopped

/-- Stopping and continuing work in every run in which no number that is no signal stands for
one of these signals. -/
theorem stop_continue_cancel {s : Tasks} (reached : Run step Allowed init s) : s.Separate ∧ s.LeavesOnlyBySending := by
  have good : s.Good := reached.invariant (fun good allowed moved => good.step allowed moved) init_good
  exact ⟨good.separate, fun m s' p t moved found stopped left => good.step_stopped moved found stopped left⟩

def stopMoves : List Move :=
  [.fork ⟨0, NR_TASKS_pos⟩ initTask 1, .forked initTask true,
    .send (some ⟨0, NR_TASKS_pos⟩) initTask SIGSTOP .killProc 0, .deliver initTask]

def isStopped (s : Tasks) : Prop := (s initTask).any fun t => t.state = .stopped

instance (s : Tasks) : Decidable s.isStopped := inferInstanceAs (Decidable (_ = true))

def mayMove (_ : Tasks) : Move → Bool
  | .send _ _ sig _ _ => 1 ≤ sig && sig ≤ 32
  | _ => true

theorem stopped_separate :
    ∃ s, Run step Allowed init s ∧ s.isStopped ∧ s.Separate ∧ s.LeavesOnlyBySending := by
  obtain ⟨s, reached, stopped⟩ := exists_of_runIf step mayMove init stopMoves isStopped (by decide +kernel)
  have allowed : Run step Allowed init s := by
    refine reached.weaken fun s m may => ?_
    cases m with
    | send sender q sig caller beside => exact .inl (by simpa [mayMove] using may)
    | _ => trivial
  exact ⟨s, allowed, stopped, stop_continue_cancel allowed⟩

/-- `kill(-1, 50)` posts `SIGCONT` to a stopped task, which stays stopped. -/
theorem kill_all_strands : ∃ s, run step init (stopMoves ++ [.send (some ⟨0, NR_TASKS_pos⟩) initTask 50 .killAll 0]) = some s ∧
    s.isStopped ∧ ¬s.Separate := by
  refine exists_run (fun s => (s initTask).any (fun t => t.state = .stopped ∧ t.signal &&& bit SIGCONT ≠ 0) = true)
    (by decide +kernel) fun s ran stopped => ?_
  rw [Option.any_eq_true] at stopped
  obtain ⟨t, found, both⟩ := stopped
  rw [decide_eq_true_iff] at both
  refine ⟨?_, fun separate => both.2 (separate.stopped initTask t found both.1).1⟩
  rw [isStopped, Option.any_eq_true]
  exact ⟨t, found, decide_eq_true both.1⟩

end Tasks

end Linux012.Kernel.JobControl

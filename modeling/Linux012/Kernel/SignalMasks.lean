import Linux012.Kernel.Signal
import Linux012.Lib.Updates

/-! Which signals a task blocks. The bits of `SIGKILL` and `SIGSTOP` stay clear in
all masks exactly as long as no unfiltered mask of the user's is installed. -/

set_option autoImplicit false

namespace Linux012.Kernel

open Transition Updates Function
open Option (map_eq_some_iff bind_eq_some_iff)

def Killable (mask : Word) : Prop := mask &&& (bit SIGKILL ||| bit SIGSTOP) = 0

instance (mask : Word) : Decidable (Killable mask) := inferInstanceAs (Decidable (_ = _))

theorem killable_or {a b : Word} : Killable (a ||| b) ↔ Killable a ∧ Killable b := by
  have split : (a ||| b) &&& (bit SIGKILL ||| bit SIGSTOP) =
      (a &&& (bit SIGKILL ||| bit SIGSTOP)) ||| (b &&& (bit SIGKILL ||| bit SIGSTOP)) :=
    BitVec.and_or_distrib_right
  rw [Killable, split]
  exact BitVec.or_eq_zero_iff

theorem killable_and {a c : Word} (keeps : c &&& (bit SIGKILL ||| bit SIGSTOP) = bit SIGKILL ||| bit SIGSTOP) :
    Killable (a &&& c) ↔ Killable a := by
  rw [Killable, Killable, BitVec.and_assoc, keeps]

theorem killable_ssetmask (task : Task) (newmask : Word) : Killable (task.ssetmask newmask).blocked := by
  have cleared : ~~~bit SIGKILL &&& ~~~bit SIGSTOP &&& (bit SIGKILL ||| bit SIGSTOP) = 0#32 := by decide
  rw [Killable, Task.ssetmask, BitVec.and_assoc newmask, BitVec.and_assoc newmask, cleared, BitVec.and_zero]
  rfl

namespace Tasks

def Unblocked (s : Tasks) : Prop := ∀ p task, s p = some task → Killable task.blocked

def Saved (s : Tasks) : Prop :=
  ∀ p task old, s p = some task → task.oldblocked = some old → task.blocked = old &&& ~~~bit SIGCHLD

/-- The masks that a step installs as the user gave them have neither bit: that
of `sys_sigsuspend`, and the `sa_mask` of a handler that is invoked. -/
def Harmless (s : Tasks) : Move → Prop
  | .sigsuspend p restart oldMask set =>
    s.active p ≠ none → Killable (if restart ≠ 0 then oldMask else set)
  | .deliver p _ => ∀ task signr, s p = some task → task.pending = some signr →
      (task.action signr).handler ≠ 0 → (task.action signr).handler ≠ 1 →
      Killable (task.action signr).mask
  | _ => True

section Tables

variable {s : Tasks} {p : Fin NR_TASKS} {task : Task}

theorem active_eq (isActive : s.active p = some task) :
    s p = some task ∧ task.state = .running ∧ task.oldblocked = none := by
  rw [active, Option.filter_eq_some_iff] at isActive
  simpa using isActive

variable {new : Task}

theorem forall_set {P : Task → Prop} :
    (∀ q t, (s.set p new) q = some t → P t) ↔ P new ∧ ∀ q t, q ≠ p → s q = some t → P t := by
  constructor
  · intro all
    refine ⟨all p new (update_self ..), fun q t other found => all q t ?_⟩
    rw [set, update_of_ne other]
    exact found
  · rintro ⟨atP, others⟩ q t found
    rcases of_update_some found with ⟨-, rfl⟩ | ⟨other, before⟩
    · exact atP
    · exact others q t other before

theorem unblocked_set_same (found : s p = some task) (same : new.blocked = task.blocked) :
    (s.set p new).Unblocked ↔ s.Unblocked := by
  refine forall_set.trans ⟨fun ⟨atP, others⟩ q t foundQ => ?_, fun all => ⟨?_, fun q t _ => all q t⟩⟩
  · by_cases eq : q = p
    · subst eq
      rw [found, Option.some.injEq] at foundQ
      rwa [← foundQ, ← same]
    · exact others q t eq foundQ
  · rw [same]
    exact all p task found

theorem unblocked_set (unblocked : s.Unblocked) : (s.set p new).Unblocked ↔ Killable new.blocked :=
  forall_set.trans ⟨And.left, fun atP => ⟨atP, fun q t _ => unblocked q t⟩⟩

theorem saved_set (saved : s.Saved)
    (atP : ∀ old, new.oldblocked = some old → new.blocked = old &&& ~~~bit SIGCHLD) : (s.set p new).Saved := by
  have all : ∀ q t, (s.set p new) q = some t →
      ∀ old, t.oldblocked = some old → t.blocked = old &&& ~~~bit SIGCHLD :=
    forall_set.mpr ⟨atP, fun q t _ found old => saved q t old found⟩
  exact fun q t old found => all q t found old

theorem saved_set_same (saved : s.Saved) (found : s p = some task) (blocked : new.blocked = task.blocked)
    (oldblocked : new.oldblocked = task.oldblocked) : (s.set p new).Saved := by
  refine saved_set saved fun old isSaved => ?_
  rw [blocked]
  exact saved p task old found (oldblocked ▸ isSaved)

end Tables

/-! ## Changes that leave the masks alone -/

def SameMasks (s s' : Tasks) : Prop :=
  ∀ p task', s' p = some task' → ∃ task, s p = some task ∧ task'.blocked = task.blocked ∧
    task'.oldblocked = task.oldblocked

variable {s : Tasks}

theorem SameMasks.set {p : Fin NR_TASKS} {task new : Task} (found : s p = some task)
    (blocked : new.blocked = task.blocked) (oldblocked : new.oldblocked = task.oldblocked) :
    SameMasks s (s.set p new) := by
  intro q t foundQ
  rcases of_update_some foundQ with ⟨rfl, rfl⟩ | ⟨-, before⟩
  · exact ⟨task, found, blocked, oldblocked⟩
  · exact ⟨t, before, rfl, rfl⟩

theorem SameMasks.trans {t u : Tasks} (first : SameMasks s t) (second : SameMasks t u) : SameMasks s u := by
  intro p task found
  obtain ⟨between, foundBetween, blocked, oldblocked⟩ := second p task found
  obtain ⟨before, foundBefore, blocked', oldblocked'⟩ := first p between foundBetween
  exact ⟨before, foundBefore, blocked.trans blocked', oldblocked.trans oldblocked'⟩

theorem SameMasks.unblocked {s' : Tasks} (same : SameMasks s s') (unblocked : s.Unblocked) : s'.Unblocked := by
  intro p task found
  obtain ⟨before, foundBefore, blocked, -⟩ := same p task found
  rw [blocked]
  exact unblocked p before foundBefore

theorem SameMasks.saved {s' : Tasks} (same : SameMasks s s') (saved : s.Saved) : s'.Saved := by
  intro p task old found isSaved
  obtain ⟨before, foundBefore, blocked, oldblocked⟩ := same p task found
  rw [blocked]
  exact saved p before old foundBefore (oldblocked ▸ isSaved)

theorem sameMasks_exit {p : Fin NR_TASKS} {task : Task} (found : s p = some task) (code : Word) :
    SameMasks s (s.exit p task code) := by
  have first : SameMasks s (s.set p { task with state := .zombie, exitCode := code }) := .set found rfl rfl
  unfold exit
  simp only
  cases foundParent : s.set p { task with state := .zombie, exitCode := code } task.parent with
  | none => exact first
  | some parent => exact first.trans (.set foundParent rfl rfl)

theorem sameMasks_tellParent (s : Tasks) (q : Fin NR_TASKS) : SameMasks s (s.tellParent q) := by
  have refl : SameMasks s s := fun p task found => ⟨task, found, rfl, rfl⟩
  unfold tellParent
  cases found : s q with
  | none => exact refl
  | some parent =>
    simp only
    split
    · exact .set found rfl rfl
    · exact refl

end Tasks

theorem Task.send_masks (task : Task) (sig : Nat) :
    (task.send sig).blocked = task.blocked ∧ (task.send sig).oldblocked = task.oldblocked := by
  unfold Task.send
  constructor <;> grind

theorem Task.doSignal_cases (task : Task) (signr : Nat) (regs : Regs) :
    ((task.doSignal signr regs).2.2 ≠ .handled ∧
        (task.doSignal signr regs).1.blocked = task.blocked ∧
        ¬((task.action signr).handler ≠ 0 ∧ (task.action signr).handler ≠ 1) ∨
      (task.doSignal signr regs).2.2 = .handled ∧
        (task.doSignal signr regs).1.blocked = task.blocked ||| (task.action signr).mask ∧
        (task.action signr).handler ≠ 0 ∧ (task.action signr).handler ≠ 1) ∧
      (task.doSignal signr regs).1.oldblocked = task.oldblocked := by
  unfold Task.doSignal
  simp only
  split
  · next ignored => exact ⟨.inl ⟨by simp, rfl, fun h => h.2 ignored⟩, rfl⟩
  · next notIgnored =>
    split
    · next default =>
      have none : ¬((task.action signr).handler ≠ 0 ∧ (task.action signr).handler ≠ 1) := fun h => h.1 default
      split
      · exact ⟨.inl ⟨by simp, rfl, none⟩, rfl⟩
      · split
        · exact ⟨.inl ⟨by simp, rfl, none⟩, rfl⟩
        · exact ⟨.inl ⟨by simp, rfl, none⟩, rfl⟩
    · next handler =>
      refine ⟨.inr ⟨rfl, ?_, handler, notIgnored⟩, ?_⟩
      · split <;> rfl
      · split <;> rfl

namespace Tasks

variable {s s' : Tasks} {p : Fin NR_TASKS} {task : Task}

theorem deliver_cases {regs : Regs} (found : s p = some task) (delivered : s.deliver p task regs = some s') :
    ∃ signr, task.pending = some signr ∧
      (SameMasks s s' ∧ ¬((task.action signr).handler ≠ 0 ∧ (task.action signr).handler ≠ 1) ∨
        ((task.action signr).handler ≠ 0 ∧ (task.action signr).handler ≠ 1) ∧
          ∃ new, s' = s.set p new ∧ new.blocked = task.blocked ||| (task.action signr).mask ∧
            new.oldblocked = task.oldblocked) := by
  unfold deliver at delivered
  obtain ⟨signr, isPending, rfl⟩ := map_eq_some_iff.mp delivered
  refine ⟨signr, isPending, ?_⟩
  have masks := Task.doSignal_cases { task with signal := task.signal &&& ~~~bit signr } signr regs
  rcases result : ({ task with signal := task.signal &&& ~~~bit signr } : Task).doSignal signr regs
    with ⟨new, regs', delivery⟩
  rw [result] at masks
  obtain ⟨kind, oldblocked⟩ := masks
  simp only [result] at kind oldblocked ⊢
  rcases kind with ⟨notHandled, blocked, none⟩ | ⟨rfl, blocked, handler⟩
  · refine .inl ⟨?_, none⟩
    have replaced : SameMasks s (s.set p new) := .set found blocked oldblocked
    cases delivery with
    | ignored => exact replaced
    | stopped => exact replaced.trans (sameMasks_tellParent _ _)
    | handled => exact absurd rfl notHandled
    | exit code =>
      have atP : (s.set p new) p = some new := update_self ..
      have exits : SameMasks (s.set p new) ((s.set p new).exit p new code) := sameMasks_exit atP code
      have again : (s.set p new).exit p new code = s.exit p new code := by
        simp only [exit, set, update_idem]
      rw [again] at exits
      exact replaced.trans exits
  · exact .inr ⟨handler, new, rfl, blocked, oldblocked⟩

theorem step_saved {m : Move} (saved : s.Saved) (moved : s.step m = some s') : s'.Saved := by
  cases m with
  | ssetmask p newmask | signal p signum handler restorer | sigaction p signum action | exec p =>
    obtain ⟨task, isActive, rfl⟩ := map_eq_some_iff.mp moved
    obtain ⟨found, -, awake⟩ := active_eq isActive
    refine saved_set saved fun old isSaved => ?_
    have same : task.oldblocked = some old := by
      simpa only [Task.ssetmask, Task.signalHandler, Task.setSigaction, Task.setAction, Task.exec,
        apply_ite Task.oldblocked, ite_self] using isSaved
    rw [awake] at same
    cases same
  | sigsuspend p restart oldMask set =>
    obtain ⟨task, isActive, rfl⟩ := map_eq_some_iff.mp moved
    obtain ⟨found, -, awake⟩ := active_eq isActive
    refine saved_set saved fun old isSaved => ?_
    have same : task.oldblocked = some old := by
      simpa only [Task.sigsuspend, apply_ite Task.oldblocked, ite_self] using isSaved
    rw [awake] at same
    cases same
  | deliver p regs =>
    simp only [step] at moved
    split at moved
    · cases moved
    · obtain ⟨task, isActive, delivered⟩ := bind_eq_some_iff.mp moved
      obtain ⟨found, -, awake⟩ := active_eq isActive
      obtain ⟨signr, -, ⟨same, -⟩ | ⟨-, new, rfl, -, oldblocked⟩⟩ := deliver_cases found delivered
      · exact same.saved saved
      · refine saved_set saved fun old isSaved => ?_
        rw [oldblocked, awake] at isSaved
        cases isSaved
  | waitpid p =>
    obtain ⟨task, isActive, rfl⟩ := map_eq_some_iff.mp moved
    refine saved_set saved fun old isSaved => ?_
    cases isSaved
    rfl
  | wake p =>
    obtain ⟨task, found, woken⟩ := bind_eq_some_iff.mp moved
    obtain ⟨old, isSaved, rfl⟩ := map_eq_some_iff.mp woken
    exact saved_set saved fun old isSaved => by cases isSaved
  | fork p q =>
    obtain ⟨task, isActive, forked⟩ := bind_eq_some_iff.mp moved
    obtain ⟨found, -, awake⟩ := active_eq isActive
    split at forked
    · cases forked
      refine saved_set saved fun old isSaved => ?_
      rw [awake] at isSaved
      cases isSaved
    · cases forked
  | exit p code =>
    obtain ⟨task, isActive, rfl⟩ := map_eq_some_iff.mp moved
    exact (sameMasks_exit (active_eq isActive).1 code).saved saved
  | release q =>
    obtain ⟨task, found, released⟩ := bind_eq_some_iff.mp moved
    split at released
    · cases released
      intro r t old foundR
      exact saved r t old (of_update_none foundR).2
    · cases released
  | send q sig =>
    obtain ⟨task, found, sent⟩ := bind_eq_some_iff.mp moved
    split at sent
    · cases sent
      exact saved_set_same saved found (task.send_masks sig).1 (task.send_masks sig).2
    · cases sent

theorem step_unblocked {m : Move} (saved : s.Saved) (unblocked : s.Unblocked)
    (moved : s.step m = some s') : s'.Unblocked ↔ s.Harmless m := by
  cases m with
  | ssetmask p newmask =>
    obtain ⟨task, isActive, rfl⟩ := map_eq_some_iff.mp moved
    exact iff_of_true ((unblocked_set unblocked).mpr (killable_ssetmask task newmask)) trivial
  | sigsuspend p restart oldMask set =>
    obtain ⟨task, isActive, rfl⟩ := map_eq_some_iff.mp moved
    have active : s.active p ≠ none := by simp [isActive]
    have installed : (task.sigsuspend restart oldMask set).blocked = if restart ≠ 0 then oldMask else set := by
      unfold Task.sigsuspend
      split <;> rfl
    rw [unblocked_set unblocked, installed]
    exact ⟨fun killable _ => killable, fun harmless => harmless active⟩
  | signal p signum handler restorer | sigaction p signum action | exec p =>
    obtain ⟨task, isActive, rfl⟩ := map_eq_some_iff.mp moved
    refine iff_of_true ((unblocked_set_same (active_eq isActive).1 ?_).mpr unblocked) trivial
    simp only [Task.signalHandler, Task.setSigaction, Task.setAction, Task.exec, apply_ite Task.blocked, ite_self]
  | deliver p regs =>
    simp only [step] at moved
    split at moved
    · cases moved
    · obtain ⟨task, isActive, delivered⟩ := bind_eq_some_iff.mp moved
      have found := (active_eq isActive).1
      obtain ⟨signr, isPending, ⟨same, none⟩ | ⟨handler, new, rfl, blocked, -⟩⟩ := deliver_cases found delivered
      · refine iff_of_true (same.unblocked unblocked) ?_
        intro task' signr' found' isPending' notDefault notIgnored
        rw [found, Option.some.injEq] at found'
        subst found'
        rw [isPending, Option.some.injEq] at isPending'
        subst isPending'
        exact absurd ⟨notDefault, notIgnored⟩ none
      · rw [unblocked_set unblocked, blocked, killable_or]
        constructor
        · intro killable task' signr' found' isPending' _ _
          rw [found, Option.some.injEq] at found'
          subst found'
          rw [isPending, Option.some.injEq] at isPending'
          subst isPending'
          exact killable.2
        · intro harmless
          exact ⟨unblocked p task found, harmless task signr found isPending handler.1 handler.2⟩
  | waitpid p =>
    obtain ⟨task, isActive, rfl⟩ := map_eq_some_iff.mp moved
    refine iff_of_true ((unblocked_set unblocked).mpr ?_) trivial
    exact (killable_and (by decide)).mpr (unblocked p task (active_eq isActive).1)
  | wake p =>
    obtain ⟨task, found, woken⟩ := bind_eq_some_iff.mp moved
    obtain ⟨old, isSaved, rfl⟩ := map_eq_some_iff.mp woken
    refine iff_of_true ((unblocked_set unblocked).mpr ?_) trivial
    have blocked := saved p task old found isSaved
    have killable := unblocked p task found
    rw [blocked] at killable
    exact (killable_and (by decide)).mp killable
  | fork p q =>
    obtain ⟨task, isActive, forked⟩ := bind_eq_some_iff.mp moved
    split at forked
    · cases forked
      exact iff_of_true ((unblocked_set unblocked).mpr (unblocked p task (active_eq isActive).1)) trivial
    · cases forked
  | exit p code =>
    obtain ⟨task, isActive, rfl⟩ := map_eq_some_iff.mp moved
    exact iff_of_true ((sameMasks_exit (active_eq isActive).1 code).unblocked unblocked) trivial
  | release q =>
    obtain ⟨task, found, released⟩ := bind_eq_some_iff.mp moved
    split at released
    · cases released
      refine iff_of_true (fun r t foundR => ?_) trivial
      exact unblocked r t (of_update_none foundR).2
    · cases released
  | send q sig =>
    obtain ⟨task, found, sent⟩ := bind_eq_some_iff.mp moved
    split at sent
    · cases sent
      exact iff_of_true ((unblocked_set_same found (task.send_masks sig).1).mpr unblocked) trivial
    · cases sent

theorem init_saved : init.Saved := by
  intro p task old found isSaved
  unfold init at found
  split at found
  · cases found
    cases isSaved
  · cases found

theorem init_unblocked : init.Unblocked := by
  intro p task found
  unfold init at found
  split at found
  · cases found
    exact (by decide : Killable 0)
  · cases found

/-- The tasks of a run block neither signal in any state exactly if all steps of
the run are harmless. -/
theorem unblocked_iff_harmless (moves : List Move) :
    Always step Unblocked init moves ↔ Throughout step Harmless init moves :=
  always_iff_throughout step_saved step_unblocked init_saved init_unblocked moves

theorem sigsuspend_blocks_sigkill :
    ∃ s, run step init [.fork ⟨0, by decide⟩ ⟨1, by decide⟩,
        .sigsuspend ⟨1, by decide⟩ 0 0 (BitVec.allOnes 32)] = some s ∧
      ∃ task ∈ s ⟨1, by decide⟩, task.blocked.getLsbD (SIGKILL - 1) = true ∧
        task.blocked.getLsbD (SIGSTOP - 1) = true := by
  refine ⟨_, rfl, _, rfl, ?_⟩
  decide

end Tasks

end Linux012.Kernel

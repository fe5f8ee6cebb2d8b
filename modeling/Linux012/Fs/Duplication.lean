import Linux012.Fs.FileCounts

/-! What `dupfd`, `sys_dup2` and `sys_close` return, and what is left of the descriptors when
they fail: `fs/fcntl.c` and `fs/open.c`. -/

set_option autoImplicit false

namespace Linux012.Fs.FileTable

open Descriptors (NR_OPEN NR_FILE)

def EBADF : Int := 9
def EINVAL : Int := 22
def EMFILE : Int := 24

namespace State

def opened (s : State) (p : Fin Descriptors.NR_TASKS) (fd : Nat) : Option (Fin NR_FILE) :=
  (descriptor fd).bind (s.filp p)

def dupfdCall (s : State) (p : Fin Descriptors.NR_TASKS) (fd arg : Nat) : Int × State :=
  match s.opened p fd with
  | none => (-EBADF, s)
  | some f =>
    if NR_OPEN ≤ arg then (-EINVAL, s)
    else
      match s.freeFd p arg with
      | none => (-EMFILE, s)
      | some arg => (arg.val, ((s.setClose p arg false).setFilp p arg (some f)).increment f)

def sysCloseCall (s : State) (p : Fin Descriptors.NR_TASKS) (fd : Nat) : Option (Int × State) :=
  match descriptor fd with
  | none => some (-EINVAL, s)
  | some fd =>
    let s := s.setClose p fd false
    match s.filp p fd with
    | none => some (-EINVAL, s)
    | some f => if (s.file f).count = 0 then none else some (0, (s.setFilp p fd none).closeFile f)

def sysDup2 (s : State) (p : Fin Descriptors.NR_TASKS) (oldfd newfd : Nat) : Option (Int × State) :=
  (s.sysCloseCall p newfd).map fun closed => closed.2.dupfdCall p oldfd newfd

/-! ## The calls of the file table -/

variable {s s' : State} {p : Fin Descriptors.NR_TASKS} {fd : Nat}

theorem dupfdCall_state (s : State) (p : Fin Descriptors.NR_TASKS) (fd arg : Nat) :
    (s.dupfdCall p fd arg).2 = s.dupfd p fd arg := by
  rw [dupfdCall, State.dupfd, ← opened]
  cases s.opened p fd with
  | none => rfl
  | some f =>
    by_cases big : NR_OPEN ≤ arg
    · have none_free : s.freeFd p arg = none := by
        rw [freeFd, List.find?_eq_none]
        intro fd _ found
        have := fd.isLt
        have := (of_decide_eq_true found).1
        omega
      simp only [if_pos big, none_free]
    · simp only [if_neg big]
      cases s.freeFd p arg <;> rfl

theorem sysCloseCall_state {value : Int} (returned : s.sysCloseCall p fd = some (value, s')) :
    s' = s.sysClose p fd := by
  rw [sysCloseCall] at returned
  rw [State.sysClose]
  cases found : descriptor fd with
  | none =>
    rw [found] at returned
    cases returned
    rfl
  | some d =>
    rw [found] at returned
    simp only [closeFd] at returned ⊢
    cases file : (s.setClose p d false).filp p d with
    | none =>
      rw [file] at returned
      cases returned
      rfl
    | some f =>
      simp only [file] at returned
      split at returned
      · cases returned
      · cases returned
        rfl

theorem sysDup2_step {oldfd newfd : Nat} {value : Int} (running : s.panicked = false) (live : s.live p = true)
    (returned : s.sysDup2 p oldfd newfd = some (value, s')) : s.step (.dup2 p oldfd newfd) = some s' := by
  obtain ⟨⟨closed, t⟩, isClosed, dup⟩ := Option.map_eq_some_iff.mp returned
  have same : t = s.sysClose p newfd := sysCloseCall_state isClosed
  have after : s' = t.dupfd p oldfd newfd := by
    rw [← dupfdCall_state]
    exact (congrArg Prod.snd dup).symm
  rw [State.step, if_neg (by simp [running]), after, same]
  exact if_pos live

/-! ## What a call leaves -/

structure Unchanged (s s' : State) : Prop where
  filp : s'.filp = s.filp
  closeOnExec : s'.closeOnExec = s.closeOnExec
  counts : ∀ f, (s'.file f).count = (s.file f).count

theorem Unchanged.refl (s : State) : Unchanged s s := ⟨rfl, rfl, fun _ => rfl⟩

/-- `newfd` refers to the entry to which `oldfd` refers before and after the call. -/
def Duplicated (s s' : State) (p : Fin Descriptors.NR_TASKS) (oldfd newfd : Nat) : Prop :=
  ∃ f, s.opened p oldfd = some f ∧ s'.opened p oldfd = some f ∧ s'.opened p newfd = some f

structure AtomicDup (s : State) (p : Fin Descriptors.NR_TASKS) (fd arg : Nat) : Prop where
  failure : (s.dupfdCall p fd arg).1 < 0 → Unchanged s (s.dupfdCall p fd arg).2
  success : 0 ≤ (s.dupfdCall p fd arg).1 →
    Duplicated s (s.dupfdCall p fd arg).2 p fd (s.dupfdCall p fd arg).1.toNat

structure AtomicDup2 (s : State) (p : Fin Descriptors.NR_TASKS) (oldfd newfd : Nat) : Prop where
  failure : ∀ {value s'}, s.sysDup2 p oldfd newfd = some (value, s') → value < 0 → Unchanged s s'
  success : ∀ {value s'}, s.sysDup2 p oldfd newfd = some (value, s') → 0 ≤ value →
    value = newfd ∧ Duplicated s s' p oldfd newfd
  itself : oldfd = newfd → s.opened p oldfd ≠ none →
    ∃ s', s.sysDup2 p oldfd newfd = some ((newfd : Int), s') ∧ s'.opened p newfd ≠ none

/-- What `sys_dup2` closes gets a new file, or it was not open and stays so. -/
def Harmless (s : State) (p : Fin Descriptors.NR_TASKS) (oldfd newfd : Nat) : Prop :=
  ∀ fd, descriptor newfd = some fd →
    match s.filp p fd with
    | none => s.opened p oldfd ≠ none ∨ s.closeOnExec p fd = false
    | some f => oldfd ≠ newfd ∧ (s.opened p oldfd ≠ none ∨ (s.file f).count = 0)

variable {d : Fin NR_OPEN}

theorem descriptor_eq_some : descriptor fd = some d ↔ fd = d.val := by
  rw [descriptor]
  constructor
  · intro found
    split at found
    · cases found
      rfl
    · cases found
  · rintro rfl
    exact dif_pos d.isLt

theorem opened_val (s : State) (p : Fin Descriptors.NR_TASKS) (d : Fin NR_OPEN) : s.opened p d.val = s.filp p d := by
  rw [opened, descriptor_eq_some.mpr rfl]
  rfl

theorem dupfdCall_cases (s : State) (p : Fin Descriptors.NR_TASKS) (fd arg : Nat) :
    (∃ error < 0, s.dupfdCall p fd arg = (error, s)) ∨
      ∃ f d, s.opened p fd = some f ∧ s.freeFd p arg = some d ∧
        s.dupfdCall p fd arg = ((d.val : Int), ((s.setClose p d false).setFilp p d (some f)).increment f) := by
  rw [dupfdCall]
  cases s.opened p fd with
  | none => exact .inl ⟨-EBADF, by decide, rfl⟩
  | some f =>
    by_cases big : NR_OPEN ≤ arg
    · exact .inl ⟨-EINVAL, by decide, if_pos big⟩
    · simp only [if_neg big]
      cases s.freeFd p arg with
      | none => exact .inl ⟨-EMFILE, by decide, rfl⟩
      | some d => exact .inr ⟨f, d, rfl, rfl, rfl⟩

theorem duplicated {f : Fin NR_FILE} (isOpen : s.opened p fd = some f) (free : s.filp p d = none) :
    Duplicated s (((s.setClose p d false).setFilp p d (some f)).increment f) p fd d.val := by
  refine ⟨f, isOpen, ?_, ?_⟩
  · obtain ⟨d', isD, filp⟩ := Option.bind_eq_some_iff.mp isOpen
    rw [descriptor_eq_some.mp isD, opened_val]
    change ((s.setClose p d false).setFilp p d (some f)).filp p d' = some f
    rw [setFilp_filp, if_neg]
    · exact filp
    · rintro ⟨-, rfl⟩
      rw [free] at filp
      cases filp
  · rw [opened_val]
    change ((s.setClose p d false).setFilp p d (some f)).filp p d = some f
    rw [setFilp_filp, if_pos ⟨rfl, rfl⟩]

theorem dupfd_atomic (s : State) (p : Fin Descriptors.NR_TASKS) (fd arg : Nat) : AtomicDup s p fd arg := by
  rcases dupfdCall_cases s p fd arg with ⟨error, negative, failed⟩ | ⟨f, d, isOpen, free, done⟩
  · refine ⟨fun _ => ?_, fun nonneg => ?_⟩
    · rw [failed]
      exact .refl s
    · rw [failed] at nonneg
      exact absurd negative (not_lt.mpr nonneg)
  · refine ⟨fun negative => ?_, fun _ => ?_⟩
    · rw [done] at negative
      exact absurd negative (not_lt.mpr (Int.natCast_nonneg _))
    · rw [done]
      exact duplicated isOpen (freeFd_filp free)

theorem freeFd_of_free (free : s.filp p d = none) : s.freeFd p d.val = some d := by
  rw [freeFd, List.find?_eq_some_iff_getElem]
  refine ⟨decide_eq_true ⟨le_rfl, free⟩, d.val, by simp, by simp, fun j before => ?_⟩
  have below : ¬d.val ≤ j := not_le.mpr before
  simp [below]

theorem dupfdCall_of_free {f : Fin NR_FILE} (isOpen : s.opened p fd = some f) (free : s.filp p d = none) :
    s.dupfdCall p fd d.val = ((d.val : Int), ((s.setClose p d false).setFilp p d (some f)).increment f) := by
  rw [dupfdCall, isOpen]
  simp only [if_neg (not_le.mpr d.isLt), freeFd_of_free free]

theorem dupfdCall_of_closed {arg : Nat} (closed : s.opened p fd = none) : s.dupfdCall p fd arg = (-EBADF, s) := by
  rw [dupfdCall, closed]

/-! ## sys_dup2 -/

section Dup2

variable {oldfd : Nat} {d : Fin NR_OPEN} {f : Fin NR_FILE} {value : Int} {t : State}

theorem atomic_of_open (closed : s.sysCloseCall p d.val = some (value, t)) (free : t.filp p d = none)
    (was : s.opened p oldfd = some f) (isOpen : t.opened p oldfd = some f) : AtomicDup2 s p oldfd d.val := by
  have done : s.sysDup2 p oldfd d.val =
      some ((d.val : Int), ((t.setClose p d false).setFilp p d (some f)).increment f) := by
    rw [sysDup2, closed, Option.map_some, dupfdCall_of_free isOpen free]
  obtain ⟨f', isF, before, after⟩ := duplicated isOpen free
  have same : f' = f := Option.some.inj (isF.symm.trans isOpen)
  subst same
  refine ⟨fun returned negative => ?_, fun returned _ => ?_, fun equal _ => ?_⟩
  · rw [done] at returned
    cases returned
    exact absurd negative (not_lt.mpr (Int.natCast_nonneg _))
  · rw [done] at returned
    cases returned
    exact ⟨rfl, f', was, before, after⟩
  · rw [equal, opened_val, free] at isOpen
    cases isOpen

theorem atomic_iff_of_closed {newfd : Nat} (closed : s.sysCloseCall p newfd = some (value, t))
    (isClosed : t.opened p oldfd = none) :
    AtomicDup2 s p oldfd newfd ↔ Unchanged s t ∧ (oldfd = newfd → s.opened p oldfd = none) := by
  have failed : s.sysDup2 p oldfd newfd = some (-EBADF, t) := by
    rw [sysDup2, closed, Option.map_some, dupfdCall_of_closed isClosed]
  constructor
  · intro atomic
    refine ⟨atomic.failure failed (by decide), fun equal => ?_⟩
    by_contra isOpen
    obtain ⟨t', done, -⟩ := atomic.itself equal isOpen
    rw [failed] at done
    have value : -EBADF = (newfd : Int) := (Prod.mk.inj (Option.some.inj done)).1
    exact absurd (Int.natCast_nonneg newfd) (by rw [← value]; decide)
  · rintro ⟨unchanged, notItself⟩
    refine ⟨fun returned _ => ?_, fun returned nonneg => ?_, fun equal isOpen => absurd (notItself equal) isOpen⟩
    · rw [failed] at returned
      cases returned
      exact unchanged
    · rw [failed] at returned
      cases returned
      exact absurd nonneg (by decide)

theorem atomic_beyond {newfd : Nat} (beyond : descriptor newfd = none) : AtomicDup2 s p oldfd newfd := by
  have closed : s.sysCloseCall p newfd = some (-EINVAL, s) := by
    rw [sysCloseCall, beyond]
  have unopened : s.opened p newfd = none := by
    rw [opened, beyond]
    rfl
  cases isOpen : s.opened p oldfd with
  | none => exact (atomic_iff_of_closed closed isOpen).mpr ⟨.refl s, fun _ => isOpen⟩
  | some f =>
    have big : NR_OPEN ≤ newfd := by
      rw [descriptor] at beyond
      split at beyond
      · cases beyond
      · next notBelow => exact not_lt.mp notBelow
    have failed : s.sysDup2 p oldfd newfd = some (-EINVAL, s) := by
      rw [sysDup2, closed, Option.map_some, dupfdCall, isOpen]
      simp only [if_pos big]
    refine ⟨fun returned _ => ?_, fun returned nonneg => ?_, fun equal _ => ?_⟩
    · rw [failed] at returned
      cases returned
      exact .refl s
    · rw [failed] at returned
      cases returned
      exact absurd nonneg (by decide)
    · rw [equal, unopened] at isOpen
      cases isOpen

theorem setClose_unchanged_iff : Unchanged s (s.setClose p d false) ↔ s.closeOnExec p d = false := by
  constructor
  · intro unchanged
    have bit := congrFun (congrFun unchanged.closeOnExec p) d
    rw [← bit]
    simp [setClose]
  · intro clear
    refine ⟨rfl, ?_, fun _ => rfl⟩
    rw [setClose, ← clear]
    simp only [Function.update_eq_self]

theorem atomic_iff_of_free (free : s.filp p d = none) :
    AtomicDup2 s p oldfd d.val ↔ s.opened p oldfd ≠ none ∨ s.closeOnExec p d = false := by
  have closed : s.sysCloseCall p d.val = some (-EINVAL, s.setClose p d false) := by
    rw [sysCloseCall, descriptor_eq_some.mpr rfl]
    simp only [show (s.setClose p d false).filp p d = none from free]
  cases isOpen : s.opened p oldfd with
  | none =>
    rw [atomic_iff_of_closed closed isOpen, setClose_unchanged_iff]
    simp [isOpen]
  | some f => simp [atomic_of_open closed free isOpen isOpen]

theorem closeFile_filp (t : State) (f : Fin NR_FILE) : (t.closeFile f).filp = t.filp := by
  rw [closeFile]
  split_ifs <;> rfl

theorem atomic_iff_of_used (used : s.filp p d = some f) :
    AtomicDup2 s p oldfd d.val ↔ oldfd ≠ d.val ∧ (s.opened p oldfd ≠ none ∨ (s.file f).count = 0) := by
  have isOpen : s.opened p d.val ≠ none := by
    rw [opened_val, used]
    exact Option.some_ne_none f
  have closing : s.sysCloseCall p d.val =
      if (s.file f).count = 0 then none
      else some (0, ((s.setClose p d false).setFilp p d none).closeFile f) := by
    rw [sysCloseCall, descriptor_eq_some.mpr rfl]
    simp only [show (s.setClose p d false).filp p d = some f from used]
    rfl
  by_cases zero : (s.file f).count = 0
  · -- the panic
    have panics : s.sysDup2 p oldfd d.val = none := by
      rw [sysDup2, closing, if_pos zero]
      rfl
    constructor
    · intro atomic
      refine ⟨fun equal => ?_, .inr zero⟩
      obtain ⟨t, returned, -⟩ := atomic.itself equal (equal ▸ isOpen)
      rw [panics] at returned
      cases returned
    · rintro ⟨other, -⟩
      refine ⟨fun returned => ?_, fun returned => ?_, fun equal => absurd equal other⟩ <;>
      · rw [panics] at returned
        cases returned
  · rw [if_neg zero] at closing
    have filp (d' : Fin NR_OPEN) :
        (((s.setClose p d false).setFilp p d none).closeFile f).filp p d' = if d' = d then none else s.filp p d' := by
      rw [closeFile_filp, setFilp_filp]
      simp only [true_and]
      rfl
    have free : (((s.setClose p d false).setFilp p d none).closeFile f).filp p d = none := by
      rw [filp, if_pos rfl]
    have opened_ (other : oldfd ≠ d.val) :
        (((s.setClose p d false).setFilp p d none).closeFile f).opened p oldfd = s.opened p oldfd := by
      rw [opened, opened]
      cases found : descriptor oldfd with
      | none => rfl
      | some d' =>
        rw [Option.bind_some, Option.bind_some, filp, if_neg]
        rintro rfl
        exact other (descriptor_eq_some.mp found)
    have changed : ¬Unchanged s (((s.setClose p d false).setFilp p d none).closeFile f) := by
      intro unchanged
      rw [unchanged.filp, used] at free
      cases free
    by_cases equal : oldfd = d.val
    · have closed : (((s.setClose p d false).setFilp p d none).closeFile f).opened p oldfd = none := by
        rw [equal, opened_val]
        exact free
      rw [atomic_iff_of_closed closing closed]
      simp [changed, equal]
    · cases was : s.opened p oldfd with
      | none =>
        rw [atomic_iff_of_closed closing ((opened_ equal).trans was)]
        simp [changed, was, zero]
      | some g => simp [atomic_of_open closing free was ((opened_ equal).trans was), equal]

theorem atomic_iff_harmless (s : State) (p : Fin Descriptors.NR_TASKS) (oldfd newfd : Nat) :
    AtomicDup2 s p oldfd newfd ↔ Harmless s p oldfd newfd := by
  rw [Harmless]
  cases found : descriptor newfd with
  | none => simp [atomic_beyond found]
  | some d =>
    rw [descriptor_eq_some.mp found]
    cases filp : s.filp p d with
    | none => simp [atomic_iff_of_free filp, filp]
    | some f => simp [atomic_iff_of_used filp, filp]

end Dup2

/-- `dupfd` changes nothing when it fails. `sys_dup2` closes `newfd` before it looks at `oldfd`. -/
theorem duplicating_atomic_iff (s : State) (p : Fin Descriptors.NR_TASKS) :
    (∀ fd arg, AtomicDup s p fd arg) ∧ ∀ oldfd newfd, AtomicDup2 s p oldfd newfd ↔ Harmless s p oldfd newfd :=
  ⟨dupfd_atomic s p, atomic_iff_harmless s p⟩

def oneOpen : State := init.sysOpen (task 0) .done

/-- `dup2(5, 0)` and `dup2(0, 0)` fail and close descriptor 0. -/
theorem dup2_closes : ¬AtomicDup2 oneOpen (task 0) 5 0 ∧ ¬AtomicDup2 oneOpen (task 0) 0 0 := by
  have isOpen : oneOpen.opened (task 0) 0 = some (entry 0) := by decide +kernel
  constructor
  · intro atomic
    have run : (oneOpen.sysDup2 (task 0) 5 0).map (fun r => (r.1, r.2.opened (task 0) 0)) = some (-EBADF, none) := by
      decide +kernel
    obtain ⟨⟨value, s⟩, returned, seen⟩ := Option.map_eq_some_iff.mp run
    obtain ⟨failed, closed⟩ := Prod.mk.inj seen
    have filp := (atomic.failure returned (failed.trans_lt (by decide))).filp
    rw [opened, filp, ← opened, isOpen] at closed
    cases closed
  · intro atomic
    have run : (oneOpen.sysDup2 (task 0) 0 0).map (fun r => r.1) = some (-EBADF) := by decide +kernel
    obtain ⟨s, returned, -⟩ := atomic.itself rfl (by rw [isOpen]; exact Option.some_ne_none _)
    rw [returned] at run
    exact absurd (Option.some.inj run) (show ((0 : Nat) : Int) ≠ -EBADF by decide)

end State

end Linux012.Fs.FileTable

import Linux012.Fs.FileTable
import Linux012.Lib.Tickets

/-! The counts of the file table are exact: an entry counts the descriptors that point
to it, and its inode is dropped with the last one. -/

set_option autoImplicit false

namespace Linux012.Fs.FileTable

open Counting Transition Function
open Descriptors (NR_OPEN NR_FILE)

namespace State

def references (s : State) (f : Fin NR_FILE) : Nat := ∑ p, number (fun filp => filp == some f) (s.filp p)

def Holds (s : State) (f : Fin NR_FILE) (inode : Nat) : Prop := (s.file f).count ≠ 0 ∧ (s.file f).inode = inode

structure Exact (s : State) : Prop where
  counted : ∀ f, (s.file f).count = s.references f
  marked : ∀ {p fd}, s.closeOnExec p fd = true → s.filp p fd ≠ none
  dead : ∀ {p}, s.live p = false → s.filp p = fun _ => none
  inodes : Tickets.Exact s.taken s.Holds s.dropped
  calm : s.panicked = false

theorem references_setFilp (s : State) (p : Fin Descriptors.NR_TASKS) (fd : Fin NR_OPEN)
    (new : Option (Fin NR_FILE))
    (f : Fin NR_FILE) :
    (s.setFilp p fd new).references f + (s.filp p fd == some f).toNat = s.references f +
    (new == some f).toNat := by
  have row := number_update (P := fun filp => filp == some f) (s.filp p) fd new
  have whole := sum_update (number fun filp => filp == some f) s.filp p (update (s.filp p) fd new)
  simp only [references, setFilp]
  omega

theorem references_le (s : State) (f : Fin NR_FILE) : s.references f ≤ Descriptors.NR_TASKS * NR_OPEN := by
  have row (p : Fin Descriptors.NR_TASKS) : number (fun filp => filp == some f) (s.filp p) ≤ NR_OPEN := by
    have small := number_le_card (P := fun filp => filp == some f) (f := s.filp p) (id : Fin NR_OPEN → Fin NR_OPEN)
      fun i j _ _ same => same
    rwa [Fintype.card_fin] at small
  have total := Finset.sum_le_card_nsmul Finset.univ
    (fun p => number (fun filp => filp == some f) (s.filp p)) NR_OPEN fun p _ => row p
  simpa [references] using total

variable {s : State}

theorem Exact.count_lt (exact : s.Exact) (f : Fin NR_FILE) : (s.file f).count < 2 ^ 16 - 1 := by
  rw [exact.counted]
  exact Nat.lt_of_le_of_lt (references_le s f) (by decide)

variable {p : Fin Descriptors.NR_TASKS} {f : Fin NR_FILE} {fd : Fin NR_OPEN}

theorem Exact.count_pos (exact : s.Exact) (points : s.filp p fd = some f) : 0 < (s.file f).count := by
  rw [exact.counted, references]
  have found : (s.filp p fd == some f) = true := by rw [points]; exact beq_self_eq_true _
  have row : 0 < number (fun filp => filp == some f) (s.filp p) := number_pos (i := fd) found
  exact Nat.lt_of_lt_of_le row
    (Finset.single_le_sum (f := fun p => number (fun filp => filp == some f) (s.filp p)) (fun _ _ => Nat.zero_le _)
      (Finset.mem_univ p))

theorem freeFile_count (found : s.freeFile = some f) : (s.file f).count = 0 := by
  have test := List.find?_some found
  exact of_decide_eq_true test

theorem freeFd_filp {arg : Nat} (found : s.freeFd p arg = some fd) : s.filp p fd = none := by
  have test := List.find?_some found
  exact (of_decide_eq_true test).2

/-! ## One entry and one descriptor -/

theorem Exact.setClose (exact : s.Exact) (p : Fin Descriptors.NR_TASKS) (fd : Fin NR_OPEN) (close : Bool)
    (isOpen : close = true → s.filp p fd ≠ none) : (s.setClose p fd close).Exact := by
  refine { exact with marked := fun {q fd'} mark => ?_ }
  simp only [State.setClose] at mark
  by_cases task : q = p
  · subst task
    rw [update_self] at mark
    by_cases same : fd' = fd
    · subst same
      rw [update_self] at mark
      exact isOpen mark
    · rw [update_of_ne same] at mark
      exact exact.marked mark
  · rw [update_of_ne task] at mark
    exact exact.marked mark

theorem setFilp_filp (s : State) (p q : Fin Descriptors.NR_TASKS) (fd fd' : Fin NR_OPEN)
    (new : Option (Fin NR_FILE)) :
    (s.setFilp p fd new).filp q fd' = if q = p ∧ fd' = fd then new else s.filp q fd' := by
  simp only [setFilp]
  by_cases task : q = p
  · subst task
    rw [update_self]
    by_cases same : fd' = fd
    · subst same
      rw [update_self, if_pos ⟨rfl, rfl⟩]
    · rw [update_of_ne same, if_neg fun both => same both.2]
  · rw [update_of_ne task, if_neg fun both => task both.1]

theorem Exact.attach {s' : State} (exact : s.Exact) (p : Fin Descriptors.NR_TASKS) (fd : Fin NR_OPEN)
    (f : Fin NR_FILE) (alive : s.live p = true) (free : s.filp p fd = none)
    (filp : s'.filp = (s.setFilp p fd (some f)).filp) (count : (s'.file f).count = (s.file f).count + 1)
    (others : ∀ g, g ≠ f → (s'.file g).count = (s.file g).count) (closeOnExec : s'.closeOnExec = s.closeOnExec)
    (live : s'.live = s.live) (panicked : s'.panicked = s.panicked)
    (inodes : Tickets.Exact s'.taken s'.Holds s'.dropped) : s'.Exact := by
  have points (q : Fin Descriptors.NR_TASKS) (fd' : Fin NR_OPEN) :
      s'.filp q fd' = if q = p ∧ fd' = fd then some f else s.filp q fd' := by
    rw [filp, setFilp_filp]
  constructor
  · intro g
    have moved := references_setFilp s p fd (some f) g
    have counted := exact.counted g
    have same : s'.references g = (s.setFilp p fd (some f)).references g := by rw [references, filp]; rfl
    rw [free] at moved
    by_cases here : g = f
    · subst here
      simp only [beq_self_eq_true, Bool.toNat_true] at moved
      have none : ((none : Option (Fin NR_FILE)) == some g).toNat = 0 := rfl
      omega
    · have other : (some f == some g) = false := by simpa using Ne.symm here
      have none : ((none : Option (Fin NR_FILE)) == some g).toNat = 0 := rfl
      rw [other, Bool.toNat_false] at moved
      rw [others g here]
      omega
  · intro q fd' mark
    rw [closeOnExec] at mark
    rw [points]
    split
    · exact nofun
    · exact exact.marked mark
  · intro q gone
    rw [live] at gone
    have other : q ≠ p := by
      rintro rfl
      rw [alive] at gone
      cases gone
    funext fd'
    rw [points, if_neg fun both => other both.1, exact.dead gone]
  · exact inodes
  · exact panicked.trans exact.calm

theorem closeFile_spec (used : 0 < (s.file f).count) :
    (s.closeFile f).filp = s.filp ∧ (s.closeFile f).closeOnExec = s.closeOnExec ∧ (s.closeFile f).live = s.live ∧
      (s.closeFile f).panicked = s.panicked ∧ (s.closeFile f).taken = s.taken ∧
      (s.closeFile f).file = update s.file f { s.file f with count := (s.file f).count - 1 } ∧
      (s.closeFile f).dropped =
        if (s.file f).count = 1 then s.dropped ++ [(s.file f).inode] else s.dropped := by
  unfold closeFile
  rw [if_neg (Nat.ne_of_gt used)]
  split
  · next more =>
    rw [if_neg (by omega)]
    exact ⟨rfl, rfl, rfl, rfl, rfl, rfl, rfl⟩
  · next last =>
    have one : (s.file f).count = 1 := by omega
    rw [if_pos one, one]
    exact ⟨rfl, rfl, rfl, rfl, rfl, rfl, rfl⟩

theorem inodes_closeFile (inodes : Tickets.Exact s.taken s.Holds s.dropped) (used : 0 < (s.file f).count) :
    Tickets.Exact (s.closeFile f).taken (s.closeFile f).Holds (s.closeFile f).dropped := by
  obtain ⟨-, -, -, -, taken, file, dropped⟩ := closeFile_spec used
  have holds (g : Fin NR_FILE) (inode : Nat) : (s.closeFile f).Holds g inode ↔
      if g = f then (s.file f).count - 1 ≠ 0 ∧ (s.file f).inode = inode else s.Holds g inode := by
    simp only [Holds, file]
    by_cases here : g = f
    · subst here
      rw [update_self, if_pos rfl]
    · rw [update_of_ne here, if_neg here]
  rw [taken, dropped]
  by_cases last : (s.file f).count = 1
  · rw [if_pos last]
    have held : s.Holds f (s.file f).inode := ⟨Nat.ne_of_gt used, rfl⟩
    refine inodes.finish held fun g inode => ?_
    rw [holds]
    split
    · next here =>
      subst here
      refine ⟨fun left => absurd (by omega) left.1, fun left => absurd left.1.2.symm left.2⟩
    · next other =>
      refine ⟨fun left => ⟨left, ?_⟩, And.left⟩
      rintro rfl
      exact other (inodes.oneHolder left held)
  · rw [if_neg last]
    refine inodes.congr fun g inode => ?_
    rw [holds]
    split
    · next here =>
      subst here
      exact and_congr_left fun _ => ⟨fun _ => Nat.ne_of_gt used, fun _ => by omega⟩
    · exact Iff.rfl

theorem Exact.closeFd (exact : s.Exact) (p : Fin Descriptors.NR_TASKS) (fd : Fin NR_OPEN) :
    (s.closeFd p fd).Exact := by
  have cleared := exact.setClose p fd false nofun
  unfold State.closeFd
  dsimp only
  split
  · exact cleared
  next f points =>
  have used : 0 < (s.file f).count := exact.count_pos points
  obtain ⟨filp, closeOnExec, live, panicked, taken, file, dropped⟩ :=
    closeFile_spec (s := (s.setClose p fd false).setFilp p fd none) (f := f) used
  have inodes := inodes_closeFile (s := (s.setClose p fd false).setFilp p fd none) (f := f) exact.inodes used
  generalize ((s.setClose p fd false).setFilp p fd none).closeFile f = s' at *
  have now (q : Fin Descriptors.NR_TASKS) (fd' : Fin NR_OPEN) :
      s'.filp q fd' = if q = p ∧ fd' = fd then none else s.filp q fd' := by
    rw [filp, setFilp_filp]
    rfl
  constructor
  · intro g
    have moved := references_setFilp s p fd none g
    have counted := exact.counted g
    have same : s'.references g = (s.setFilp p fd none).references g := by rw [references, filp]; rfl
    have nowhere : ((none : Option (Fin NR_FILE)) == some g).toNat = 0 := rfl
    rw [show s.filp p fd = some f from points] at moved
    rw [file]
    by_cases here : g = f
    · subst here
      rw [update_self]
      simp only [beq_self_eq_true, Bool.toNat_true] at moved
      change (s.file g).count - 1 = s'.references g
      omega
    · have other : (some f == some g) = false := by simpa using Ne.symm here
      rw [other, Bool.toNat_false] at moved
      rw [update_of_ne here]
      change (s.file g).count = s'.references g
      omega
  · intro q fd' mark
    rw [closeOnExec] at mark
    rw [now]
    split
    · next both =>
      rw [both.1, both.2] at mark
      simp [State.setClose, State.setFilp] at mark
    · exact cleared.marked mark
  · intro q gone
    rw [live] at gone
    funext fd'
    rw [now, exact.dead gone, ite_self]
  · exact inodes
  · exact panicked.trans exact.calm

theorem Exact.sysClose (exact : s.Exact) (p : Fin Descriptors.NR_TASKS) (fd : Nat) : (s.sysClose p fd).Exact := by
  unfold State.sysClose
  split
  · exact exact
  · exact exact.closeFd p _

theorem Exact.dupfd (exact : s.Exact) (alive : s.live p = true) (fd arg : Nat) : (s.dupfd p fd arg).Exact := by
  unfold State.dupfd
  split
  · exact exact
  next f source =>
  split
  · exact exact
  next new found =>
  obtain ⟨old, -, points⟩ := Option.bind_eq_some_iff.mp source
  have used := exact.count_pos points
  have small := exact.count_lt f
  have cleared := exact.setClose p new false nofun
  have count : (((s.file f).count + 1) % 2 ^ 16) = (s.file f).count + 1 := Nat.mod_eq_of_lt (by omega)
  refine cleared.attach p new f alive (freeFd_filp found) rfl ?_ (fun g other => ?_) rfl rfl rfl ?_
  · simp only [increment, setCount, update_self]
    exact count
  · simp only [increment, setCount, update_of_ne other]
    rfl
  · refine exact.inodes.congr fun g inode => ?_
    simp only [Holds, increment, setCount]
    by_cases here : g = f
    · subst here
      rw [update_self]
      refine and_congr_left fun _ => ⟨fun _ => Nat.ne_of_gt used, fun _ => ?_⟩
      change ((s.file g).count + 1) % 2 ^ 16 ≠ 0
      omega
    · rw [update_of_ne here]
      exact Iff.rfl

theorem Exact.setFd (exact : s.Exact) (p : Fin Descriptors.NR_TASKS) (fd : Nat) (close : Bool) :
    (s.setFd p fd close).Exact := by
  unfold State.setFd
  split
  · exact exact
  · split
    · exact exact
    · next isOpen => exact exact.setClose p _ _ fun _ => isOpen

/-! ## New entries -/

theorem setFilp_pair {fd₀ fd₁ : Fin NR_OPEN} (free₀ : s.filp p fd₀ = none) (free₁ : s.filp p fd₁ = none)
    (new₀ new₁ : Option (Fin NR_FILE)) :
    (((s.setFilp p fd₀ new₀).setFilp p fd₁ new₁).setFilp p fd₀ none).setFilp p fd₁ none = s := by
  have same : ((((s.setFilp p fd₀ new₀).setFilp p fd₁ new₁).setFilp p fd₀ none).setFilp p fd₁ none).filp = s.filp := by
    funext q fd
    simp only [setFilp_filp]
    split
    · next here => rw [here.1, here.2, free₁]
    · split
      · next here => rw [here.1, here.2, free₀]
      · rfl
  exact congrArg (fun filp => ({ s with filp := filp } : State)) same

def openEntry (s : State) (p : Fin Descriptors.NR_TASKS) (fd : Fin NR_OPEN) (f : Fin NR_FILE) : State :=
  { s.setFilp p fd (some f) with
    file := update s.file f { count := 1, inode := s.taken }
    taken := s.taken + 1 }

theorem Exact.openEntry (exact : s.Exact) (alive : s.live p = true) (freeFd : s.filp p fd = none)
    (freeFile : (s.file f).count = 0) : (s.openEntry p fd f).Exact := by
  refine exact.attach p fd f alive freeFd rfl ?_ (fun g other => ?_) rfl rfl rfl ?_
  · simp only [State.openEntry, update_self, freeFile]
  · simp only [State.openEntry, update_of_ne other]
  · refine exact.inodes.take (p := f) (fun inode held => held.1 freeFile) (Nat.le_succ _) (fun inode => ?_)
      fun g inode other => ?_
    · simp only [Holds, State.openEntry, update_self]
      omega
    · simp only [Holds, State.openEntry, update_of_ne other]

theorem setCount_increment (free : (s.file f).count = 0) : (s.increment f).setCount f 0 = s := by
  have same : { s.file f with count := 0 } = s.file f := by rw [← free]
  simp only [increment, setCount, update_self, update_idem, same, update_eq_self]

theorem setFilp_setFilp (free : s.filp p fd = none) (new : Option (Fin NR_FILE)) :
    (s.setFilp p fd new).setFilp p fd none = s := by
  simp only [setFilp, update_self, update_idem, ← free, update_eq_self]

theorem Exact.sysOpen (exact : s.Exact) (alive : s.live p = true) (opened : Opened) :
    (s.sysOpen p opened).Exact := by
  unfold State.sysOpen
  split
  · exact exact
  next fd foundFd =>
  have cleared := exact.setClose p fd false nofun
  have freeFd : s.filp p fd = none := freeFd_filp foundFd
  dsimp only
  split
  · exact cleared
  next f foundFile =>
  have freeFile : (s.file f).count = 0 := freeFile_count foundFile
  generalize clearedEq : s.setClose p fd false = t at cleared foundFile
  have freeFd' : t.filp p fd = none := by rw [← clearedEq]; exact freeFd
  have freeFile' : (t.file f).count = 0 := by rw [← clearedEq]; exact freeFile
  have alive' : t.live p = true := by rw [← clearedEq]; exact alive
  have undone : (((t.setFilp p fd (some f)).increment f).setFilp p fd none).setCount f 0 = t :=
    (congrArg (fun u : State => u.setFilp p fd none) (setCount_increment (s := t.setFilp p fd (some f)) freeFile')).trans
      (setFilp_setFilp freeFd' _)
  cases opened with
  | failed =>
    have same : ((t.setFilp p fd (some f)).increment f).finishOpen p fd f .failed = t := undone
    rw [same]
    exact cleared
  | ttyBusy =>
    -- the reference that `open_namei` took is dropped at once
    have dropped : ((t.setFilp p fd (some f)).increment f).finishOpen p fd f .ttyBusy =
        { t with taken := t.taken + 1, dropped := t.dropped ++ [t.taken] } :=
      congrArg (fun u : State => { u with taken := t.taken + 1, dropped := t.dropped ++ [t.taken] }) undone
    rw [dropped]
    refine { cleared with inodes := ?_ }
    have taken : Tickets.Exact (t.taken + 1) (fun g inode => t.Holds g inode ∨ g = f ∧ inode = t.taken) t.dropped := by
      refine cleared.inodes.take (p := f) (fun inode held => held.1 freeFile') (Nat.le_succ _) (fun inode => ?_)
        fun g inode other => ?_
      · have nothing : ¬t.Holds f inode := fun held => held.1 freeFile'
        simp only [nothing, false_or, true_and]
        omega
      · simp only [other, false_and, or_false]
    refine taken.finish (p := f) (.inr ⟨rfl, rfl⟩) fun g inode => ?_
    constructor
    · intro held
      exact ⟨.inl held, Nat.ne_of_lt (cleared.inodes.held_lt held)⟩
    · rintro ⟨held | ⟨-, same⟩, other⟩
      · exact held
      · exact absurd same other
  | done =>
    have entry : ((t.setFilp p fd (some f)).increment f).finishOpen p fd f .done = t.openEntry p fd f := by
      simp only [finishOpen, State.openEntry, State.take, increment, setCount, setFilp, update_self, update_idem]
    rw [entry]
    exact cleared.openEntry alive' freeFd' freeFile'

theorem Exact.sysPipe (exact : s.Exact) (alive : s.live p = true) (inode : Bool) : (s.sysPipe p inode).Exact := by
  unfold State.sysPipe
  split
  · exact exact
  next f₀ found₀ =>
  have free₀ : (s.file f₀).count = 0 := freeFile_count found₀
  dsimp only
  split
  · rw [setCount_increment free₀]
    exact exact
  next f₁ found₁ =>
  have free₁' := freeFile_count found₁
  have other : f₁ ≠ f₀ := by
    rintro rfl
    simp only [increment, setCount, update_self, free₀] at free₁'
    cases free₁'
  have free₁ : (s.file f₁).count = 0 := by
    simpa only [increment, setCount, update_of_ne other] using free₁'
  -- without descriptors or an inode both counts are reset
  have undone : (((s.increment f₀).increment f₁).setCount f₀ 0).setCount f₁ 0 = s := by
    have same₀ : { s.file f₀ with count := 0 } = s.file f₀ := by rw [← free₀]
    have same₁ : { s.file f₁ with count := 0 } = s.file f₁ := by rw [← free₁]
    simp only [increment, setCount, update_self, update_of_ne other,
      update_of_ne other.symm, update_idem, update_comm other, same₀, same₁,
      update_eq_self]
  unfold pipeFds
  split
  · rw [undone]
    exact exact
  next fd₀ foundFd₀ =>
  have freeFd₀ : s.filp p fd₀ = none := freeFd_filp foundFd₀
  dsimp only
  split
  · rw [setFilp_setFilp (s := (s.increment f₀).increment f₁) freeFd₀, undone]
    exact exact
  next fd₁ foundFd₁ =>
  have freeFd₁' := freeFd_filp foundFd₁
  rw [setFilp_filp] at freeFd₁'
  have otherFd : fd₁ ≠ fd₀ := by
    rintro rfl
    rw [if_pos ⟨rfl, rfl⟩] at freeFd₁'
    cases freeFd₁'
  have freeFd₁ : s.filp p fd₁ = none := by
    rw [if_neg fun both => otherFd both.2] at freeFd₁'
    exact freeFd₁'
  cases inode with
  | false =>
    have back := setFilp_pair (s := (s.increment f₀).increment f₁) freeFd₀ freeFd₁ (some f₀) (some f₁)
    simp only [Bool.false_eq_true, if_false]
    rw [back, undone]
    exact exact
  | true =>
    have entries : (((((s.increment f₀).increment f₁).setFilp p fd₀ (some f₀)).setFilp p fd₁ (some f₁)).take
        f₀).take f₁ = (s.openEntry p fd₀ f₀).openEntry p fd₁ f₁ := by
      simp only [State.openEntry, State.take, increment, setCount, setFilp, State.mk.injEq, and_true]
      funext g
      by_cases second : g = f₁
      · subst second
        simp [update_of_ne other, free₁]
      · by_cases first : g = f₀
        · subst first
          simp [update_of_ne second, free₀]
        · simp only [update_of_ne second, update_of_ne first]
    simp only [if_true]
    rw [entries]
    refine (exact.openEntry alive freeFd₀ free₀).openEntry alive ?_ ?_
    · exact (setFilp_filp ..).trans (by rw [if_neg fun both => otherFd both.2, freeFd₁])
    · exact (congrArg File.count (update_of_ne other ..)).trans free₁

/-! ## Whole tasks -/

theorem countFiles_spec (q : Fin Descriptors.NR_TASKS) (fds : List (Fin NR_OPEN))
    (small : ∀ f, (s.file f).count + fds.countP (fun fd => s.filp q fd == some f) < 2 ^ 16) :
    countFiles q fds s = { s with
      file := fun f => { s.file f with
        count := (s.file f).count + fds.countP fun fd => s.filp q fd == some f } } := by
  induction fds generalizing s with
  | nil => rfl
  | cons fd rest ih =>
    rw [countFiles]
    cases points : s.filp q fd with
    | none =>
      have less (f : Fin NR_FILE) : (fd :: rest).countP (fun fd => s.filp q fd == some f) =
          rest.countP fun fd => s.filp q fd == some f := by
        rw [List.countP_cons, points]
        rfl
      dsimp only
      rw [ih fun f => by rw [← less]; exact small f]
      simp only [less]
    | some f =>
      have more (g : Fin NR_FILE) : (fd :: rest).countP (fun fd => s.filp q fd == some g) =
          rest.countP (fun fd => s.filp q fd == some g) + if g = f then 1 else 0 := by
        rw [List.countP_cons, points]
        by_cases same : g = f
        · simp [same]
        · simp [same, Ne.symm same]
      have one : ((s.file f).count + 1) % 2 ^ 16 = (s.file f).count + 1 := by
        have bound := small f
        rw [more, if_pos rfl] at bound
        exact Nat.mod_eq_of_lt (by omega)
      have entry (g : Fin NR_FILE) : (s.increment f).file g =
          { s.file g with count := (s.file g).count + if g = f then 1 else 0 } := by
        simp only [increment, setCount, one]
        by_cases same : g = f
        · rw [same, update_self, if_pos rfl]
        · rw [update_of_ne same, if_neg same]
          rfl
      dsimp only
      rw [ih fun g => by
        have bound := small g
        rw [more] at bound
        rw [entry]
        change (s.file g).count + (if g = f then 1 else 0) + rest.countP (fun fd => s.filp q fd == some g) < _
        omega]
      simp only [more, entry]
      congr 1
      funext g
      congr 1
      change (s.file g).count + (if g = f then 1 else 0) + rest.countP (fun fd => s.filp q fd == some g) = _
      omega

theorem number_eq_countP {n : Nat} {α : Type} (P : α → Bool) (f : Fin n → α) :
    number P f = (List.finRange n).countP fun i => P (f i) := by
  have each (l : List (Fin n)) : (l.map fun i => (P (f i)).toNat).sum = l.countP fun i => P (f i) := by
    induction l with
    | nil => rfl
    | cons i rest ih =>
      rw [List.map_cons, List.sum_cons, ih, List.countP_cons]
      cases P (f i) <;> simp [Nat.add_comm]
  rw [number, Fin.sum_univ_def, each]

theorem Exact.fork (exact : s.Exact) {q : Fin Descriptors.NR_TASKS} (free : s.live q = false) :
    (s.fork p q).Exact := by
  have empty := exact.dead free
  have row (f : Fin NR_FILE) : ∑ r, number (fun filp => filp == some f) (update s.filp q (s.filp p) r) =
      s.references f + number (fun filp => filp == some f) (s.filp p) := by
    have whole := sum_update (number fun filp => filp == some f) s.filp q (s.filp p)
    have none : number (fun filp => filp == some f) (s.filp q) = 0 := by
      rw [number_eq_zero]
      intro fd
      rw [empty]
      rfl
    rw [none, Nat.add_zero] at whole
    exact whole
  have files (f : Fin NR_FILE) : (List.finRange NR_OPEN).countP (fun fd => s.filp p fd == some f) =
      number (fun filp => filp == some f) (s.filp p) :=
    (number_eq_countP (fun filp => filp == some f) (s.filp p)).symm
  have self : update s.filp q (s.filp p) q = s.filp p := update_self ..
  have small (f : Fin NR_FILE) : (s.file f).count + number (fun filp => filp == some f) (s.filp p) < 2 ^ 16 := by
    have bound := references_le { s with filp := update s.filp q (s.filp p) } f
    rw [references, row] at bound
    rw [exact.counted]
    exact Nat.lt_of_le_of_lt bound (by decide)
  unfold State.fork
  rw [countFiles_spec]
  case small =>
    intro f
    dsimp only
    rw [self, files]
    exact small f
  dsimp only
  rw [self]
  constructor
  · intro f
    dsimp only
    rw [files, exact.counted]
    exact (row f).symm
  · intro r fd mark
    dsimp only at mark ⊢
    by_cases new : r = q
    · subst new
      rw [update_self] at mark ⊢
      exact exact.marked mark
    · rw [update_of_ne new] at mark ⊢
      exact exact.marked mark
  · intro r gone
    dsimp only at gone ⊢
    have other : r ≠ q := by
      rintro rfl
      rw [update_self] at gone
      cases gone
    rw [update_of_ne other] at gone ⊢
    exact exact.dead gone
  · refine exact.inodes.congr fun f inode => ?_
    simp only [Holds, files]
    refine and_congr_left fun _ => ⟨fun more => ?_, fun used => by omega⟩
    intro unused
    have pointing : 0 < number (fun filp => filp == some f) (s.filp p) := by omega
    obtain ⟨fd, points⟩ : ∃ fd, (s.filp p fd == some f) = true := by
      by_contra nowhere
      have none : number (fun filp => filp == some f) (s.filp p) = 0 :=
        number_eq_zero.mpr fun fd => Bool.eq_false_iff.mpr fun points => nowhere ⟨fd, points⟩
      omega
    have used := exact.count_pos (beq_iff_eq.mp points)
    omega
  · exact exact.calm

theorem Exact.closeMarked (exact : s.Exact) (p : Fin Descriptors.NR_TASKS) (fds : List (Fin NR_OPEN)) :
    (closeMarked p fds s).Exact := by
  induction fds generalizing s with
  | nil => exact exact
  | cons fd rest ih =>
    rw [State.closeMarked]
    split
    · exact ih (exact.closeFd p fd)
    · exact ih exact

theorem Exact.exec (exact : s.Exact) (p : Fin Descriptors.NR_TASKS) : (s.exec p).Exact := by
  have closed := exact.closeMarked p (List.finRange NR_OPEN)
  refine { closed with marked := fun {q fd} mark => ?_ }
  simp only [State.exec] at mark
  by_cases self : q = p
  · subst self
    rw [update_self] at mark
    cases mark
  · rw [update_of_ne self] at mark
    exact closed.marked mark

theorem closeFd_live (exact : s.Exact) (p : Fin Descriptors.NR_TASKS) (fd : Fin NR_OPEN) :
    (s.closeFd p fd).live = s.live := by
  unfold closeFd
  dsimp only
  split
  · rfl
  · next f points =>
    have used : 0 < (s.file f).count := exact.count_pos points
    exact (closeFile_spec (s := (s.setClose p fd false).setFilp p fd none) (f := f) used).2.2.1

theorem sysClose_live (exact : s.Exact) (p : Fin Descriptors.NR_TASKS) (fd : Nat) :
    (s.sysClose p fd).live = s.live := by
  unfold sysClose
  split
  · rfl
  · exact closeFd_live exact p _

theorem closeFd_filp (exact : s.Exact) (p : Fin Descriptors.NR_TASKS) (fd : Fin NR_OPEN)
    (q : Fin Descriptors.NR_TASKS) (fd' : Fin NR_OPEN) :
    (s.closeFd p fd).filp q fd' = if q = p ∧ fd' = fd then none else s.filp q fd' := by
  unfold closeFd
  dsimp only
  split
  · next none =>
    split
    · next here =>
      rw [here.1, here.2]
      exact none
    · rfl
  · next f points =>
    have used : 0 < (s.file f).count := exact.count_pos points
    obtain ⟨filp, -⟩ := closeFile_spec (s := (s.setClose p fd false).setFilp p fd none) (f := f) used
    rw [filp, setFilp_filp]
    rfl

theorem Exact.closeOpen (exact : s.Exact) (p : Fin Descriptors.NR_TASKS) (fds : List (Fin NR_OPEN)) :
    (closeOpen p fds s).Exact ∧ (closeOpen p fds s).live = s.live ∧
      ∀ fd, (closeOpen p fds s).filp p fd = if fd ∈ fds then none else s.filp p fd := by
  induction fds generalizing s with
  | nil => exact ⟨exact, rfl, fun fd => rfl⟩
  | cons fd rest ih =>
    have closed : (if s.filp p fd ≠ none then s.closeFd p fd else s).Exact ∧
        (if s.filp p fd ≠ none then s.closeFd p fd else s).live = s.live ∧
        ∀ fd', (if s.filp p fd ≠ none then s.closeFd p fd else s).filp p fd' =
          if fd' = fd then none else s.filp p fd' := by
      split
      · refine ⟨exact.closeFd p fd, closeFd_live exact p fd, fun fd' => ?_⟩
        rw [closeFd_filp exact]
        simp only [true_and]
      · next none =>
        refine ⟨exact, rfl, fun fd' => ?_⟩
        split
        · next here => rw [here, not_not.mp none]
        · rfl
    obtain ⟨exact', live, filp⟩ := closed
    obtain ⟨exact'', live', filp'⟩ := ih exact'
    rw [State.closeOpen]
    refine ⟨exact'', live'.trans live, fun fd' => ?_⟩
    rw [filp', filp]
    by_cases later : fd' ∈ rest
    · rw [if_pos later, if_pos (List.mem_cons_of_mem _ later)]
    · rw [if_neg later]
      by_cases here : fd' = fd
      · rw [if_pos here, if_pos (List.mem_cons.mpr (.inl here))]
      · rw [if_neg here, if_neg fun listed => (List.mem_cons.mp listed).elim here later]

theorem Exact.exit (exact : s.Exact) (p : Fin Descriptors.NR_TASKS) : (s.exit p).Exact := by
  obtain ⟨closed, live, filp⟩ := exact.closeOpen p (List.finRange NR_OPEN)
  refine { closed with dead := fun {q} gone => ?_ }
  simp only [State.exit] at gone ⊢
  by_cases self : q = p
  · subst self
    funext fd
    rw [filp, if_pos (List.mem_finRange fd)]
  · rw [update_of_ne self] at gone
    exact closed.dead gone

theorem Exact.step {s s' : State} {m : Move} (exact : s.Exact) (moved : s.step m = some s') : s'.Exact := by
  unfold State.step at moved
  rw [exact.calm] at moved
  simp only [Bool.false_eq_true, if_false] at moved
  cases m <;> simp only [Option.ite_none_right_eq_some, Option.some.injEq] at moved
  case «open» p opened =>
    obtain ⟨alive, rfl⟩ := moved
    exact exact.sysOpen alive opened
  case close p fd =>
    obtain ⟨alive, rfl⟩ := moved
    exact exact.sysClose p fd
  case dup p fildes =>
    obtain ⟨alive, rfl⟩ := moved
    exact exact.dupfd alive fildes 0
  case dup2 p oldfd newfd =>
    obtain ⟨alive, rfl⟩ := moved
    exact (exact.sysClose p newfd).dupfd (by rw [sysClose_live exact, alive]) oldfd newfd
  case dupFd p fd arg =>
    obtain ⟨alive, rfl⟩ := moved
    exact exact.dupfd alive fd arg
  case setFd p fd close =>
    obtain ⟨alive, rfl⟩ := moved
    exact exact.setFd p fd close
  case pipe p inode =>
    obtain ⟨alive, rfl⟩ := moved
    exact exact.sysPipe alive inode
  case fork p q memory =>
    obtain ⟨⟨-, free⟩, rfl⟩ := moved
    split
    · exact exact.fork free
    · exact exact
  case exec p returns =>
    obtain ⟨alive, rfl⟩ := moved
    split
    · exact exact
    · exact exact.exec p
  case exit p =>
    obtain ⟨alive, rfl⟩ := moved
    exact exact.exit p

theorem Exact.initial : init.Exact where
  counted := fun f => by simp [references, init, number]
  marked := nofun
  dead := fun _ => rfl
  inodes := Tickets.Exact.initial.congr fun f inode => ⟨fun held => held.1 rfl, False.elim⟩
  calm := rfl

end State

/-- After any system calls the counts are the descriptors, a mark is on an open
descriptor only, every reference to an inode is held by one open entry or was dropped
once, and `sys_close` has not panicked. -/
theorem counts_exact {s : State} (reached : Reachable State.step State.init s) : s.Exact :=
  reached.invariant (fun exact _ moved => exact.step moved) State.Exact.initial

def entry (n : Nat) : Fin NR_FILE := ⟨n % NR_FILE, Nat.mod_lt _ (by decide)⟩

def task (n : Nat) : Fin Descriptors.NR_TASKS := ⟨n % Descriptors.NR_TASKS, Nat.mod_lt _ (by decide)⟩

theorem counts_exact_after_exit :
    ∃ s : State, (s.file (entry 0)).count = 1 ∧ s.dropped = [3, 1, 2] ∧ s.Exact := by
  obtain ⟨s, ran, count, dropped⟩ := exists_of_run State.step State.init
    [.open (task 0) .done, .dup (task 0) 0, .setFd (task 0) 1 true, .fork (task 0) (task 1) true,
      .pipe (task 1) true, .open (task 1) .ttyBusy, .exec (task 0) false, .exit (task 1)]
    (fun s => (s.file (entry 0)).count = 1 ∧ s.dropped = [3, 1, 2]) (by decide +kernel)
  exact ⟨s, count, dropped, counts_exact (reachable_of_run ran)⟩

end Linux012.Fs.FileTable

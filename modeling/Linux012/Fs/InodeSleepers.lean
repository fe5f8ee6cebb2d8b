import Linux012.Fs.InodeLocks
import Linux012.Kernel.WaitChains

/-! The processes that sleep in `wait_on_inode` and `lock_inode`, whose queue is in the
inode and is cleared with it. -/

set_option autoImplicit false

namespace Linux012.Fs.InodeSleepers

open Transition Links Function
open InodeTable (Slot Pid Frame NR_INODE)
open Kernel
open Option (map_eq_some_iff ite_none_right_eq_some)

def waitsFor : Frame → Option Slot
  | .emptyWait i _ | .scanWait i _ _ | .readLock i _ | .iputWait i | .iputRepeat i | .writeLock i _ => some i
  | .syncing k => if below : k < NR_INODE then some ⟨k, below⟩ else none
  | _ => none

/-- The slot that `memset` clears when a process goes on from this place. -/
def clearedSlot (s : InodeTable.State) : Frame → Option Slot
  | .emptyWait i _ =>
    if (s.table i).lock = false ∧ (s.table i).dirt = false ∧ (s.table i).count = 0 then some i else none
  | .truncating i => some i
  | _ => none

/-- The `i_wait` of the slots are the queues of `waiting`. A slot that is in use, and
cleared, makes the state `wiped`, which is not in the source. -/
structure State where
  inodes : InodeTable.State
  waiting : WaitQueue.State Pid Slot
  wiped : Bool

inductive Move where
  | inode (m : InodeTable.Move)
  /-- a process finds `i_lock` set -/
  | sleep (p : Pid)
  /-- a process that has been woken goes on in `sleep_on` -/
  | resume (p : Pid)
  /-- `unlock_inode` of a `write_inode` that has nothing to write -/
  | wakeUp (i : Slot)

def caller : InodeTable.Move → Option Pid
  | .iget p _ _ | .iput p _ | .newInode p _ _ _ _ | .sync p | .run p | .cut p _ | .pass p => some p
  | .modify _ _ => none

namespace State

variable (s : State)

def awake (m : InodeTable.Move) : Bool :=
  (caller m).all fun p => s.waiting.activity p = .idle ∧ s.waiting.state p = .running

def place : InodeTable.Move → Option Frame
  | .run p => (s.inodes.control p).head?
  | _ => none

def unlocks (m : InodeTable.Move) : Option Slot := (s.place m).bind Frame.locks

def clears (m : InodeTable.Move) : Option Slot := (s.place m).bind (clearedSlot s.inodes)

def inUse (i : Slot) : Bool :=
  (s.inodes.table i).lock || (List.finRange InodeTable.NR_TASKS).any fun p => s.waiting.On i p

def waitingAfter (m : InodeTable.Move) : WaitQueue.State Pid Slot :=
  match s.unlocks m with
  | some i => s.waiting.wakeUp i
  | none =>
    match s.clears m with
    | some i => s.waiting.setHead i none
    | none => s.waiting

def step : Move → Option State
  | .inode m =>
    if s.awake m then
      (s.inodes.step m).map fun inodes =>
        { inodes, waiting := s.waitingAfter m, wiped := s.wiped || (s.clears m).any s.inUse }
    else none
  | .sleep p =>
    match (s.inodes.control p).head?.bind waitsFor with
    | some i =>
      if (s.inodes.table i).lock then
        (WaitQueue.State.step s.waiting (.sleepOn p i false)).map fun waiting => { s with waiting }
      else none
    | none => none
  | .resume p =>
    match s.waiting.activity p with
    | .sleeping _ _ => (WaitQueue.State.step s.waiting (.resume p)).map fun waiting => { s with waiting }
    | _ => none
  | .wakeUp i => some { s with waiting := s.waiting.wakeUp i }

def Woken : Prop :=
  ∀ i, (s.inodes.table i).lock = false → ∀ p, s.waiting.head i = some p → s.waiting.state p = .running

/-- The queues list the processes that wait, and each that leaves lets the next one run. -/
structure NoneLost : Prop where
  unwiped : s.wiped = false
  chains : s.waiting.Good
  woken : s.Woken
  leaves : ∀ p s', s.step (.resume p) = some s' → s.waiting.LeavesWell s'.waiting

def Unwatched : Move → Prop
  | .inode m => ∀ i ∈ s.clears m, (s.inodes.table i).lock = false ∧ s.waiting.head i = none
  | _ => True

instance (m : Move) : Decidable (s.Unwatched m) := by
  cases m <;> unfold Unwatched <;> infer_instance

def Lost (i : Slot) (p : Pid) : Prop :=
  s.waiting.On i p ∧ s.waiting.state p = .uninterruptible ∧ s.waiting.head i = none ∧ (s.inodes.table i).lock = false

instance (i : Slot) (p : Pid) : Decidable (s.Lost i p) := inferInstanceAs (Decidable (_ ∧ _))

structure Initial : Prop where
  awake : s.waiting = WaitQueue.State.init
  unwiped : s.wiped = false

end State

/-! ## The locks -/

section Locks

variable {s t : InodeTable.State} {i : Slot} {frames : List Frame}

def KeepsLocks (s t : InodeTable.State) : Prop := ∀ j, (s.table j).lock = true → (t.table j).lock = true

theorem table_setSlot_of_ne {j : Slot} {inode : InodeTable.Inode} (other : j ≠ i) :
    (s.setSlot i inode).table j = s.table j :=
  update_of_ne other ..

theorem keepsLocks_setSlot {inode : InodeTable.Inode} (keeps : (s.table i).lock = true → inode.lock = true) :
    KeepsLocks s (s.setSlot i inode) := by
  intro j locked
  by_cases same : j = i
  · subst same
    have slot : (s.setSlot j inode).table j = inode := update_self ..
    rw [slot]
    exact keeps locked
  · rwa [table_setSlot_of_ne same]

theorem keepsLocks_setCount (count : Nat) : KeepsLocks s (s.setCount i count) := keepsLocks_setSlot id

theorem keepsLocks_setLock : KeepsLocks s (s.setLock i true) := keepsLocks_setSlot fun _ => rfl

theorem keepsLocks_of_write (go : InodeTable.WriteGo s i t frames) : KeepsLocks s t := by
  cases go with
  | clean => exact fun _ => id
  | write => exact keepsLocks_setLock

theorem keepsLocks_writeLocked {entered : Nat × Nat} (ran : s.writeLocked i entered = some (t, frames)) :
    KeepsLocks s t := by
  unfold InodeTable.State.writeLocked at ran
  split at ran
  · cases ran
    exact fun _ => id
  · obtain ⟨sb, -, same⟩ := map_eq_some_iff.mp ran
    cases same
    exact keepsLocks_setLock

theorem keepsLocks_of_tail {policy : InodeTable.Policy} (go : InodeTable.TailGo policy s i t frames) :
    KeepsLocks s t := by
  cases go with
  | drop => exact keepsLocks_setCount _
  | truncate => exact fun _ => id
  | write _ wrote => exact keepsLocks_of_write wrote

theorem keepsLocks_of_iput {policy : InodeTable.Policy} (go : InodeTable.IputGo policy s i t frames) :
    KeepsLocks s t := by
  cases go with
  | drop => exact keepsLocks_setCount _
  | sync => exact fun _ => id
  | tail _ tail => exact keepsLocks_of_tail tail

theorem keepsLocks_iputBody (unlocked : ¬(s.table i).lock = true) (ran : s.iputBody i = some (t, frames)) :
    KeepsLocks s t := by
  have go : InodeTable.IputGo .all s i t frames := InodeTable.iputBody_go trivial (Bool.eq_false_iff.mpr unlocked) ran
  exact keepsLocks_of_iput go

theorem keepsLocks_iput (ran : s.iput i = some (t, frames)) : KeepsLocks s t := by
  unfold InodeTable.State.iput at ran
  split at ran
  · cases ran
    exact fun _ => id
  next unlocked => exact keepsLocks_iputBody unlocked ran

theorem keepsLocks_found {r : InodeTable.Request} {empty : Slot} (ran : s.found i r empty = some (t, frames)) :
    KeepsLocks s t := by
  have counted : KeepsLocks s (s.setCount i ((s.table i).count + 1)) := keepsLocks_setCount _
  have put {j : Slot} {frame : Frame}
      (ran : ((s.setCount i ((s.table i).count + 1)).iput j).then frame = some (t, frames)) : KeepsLocks s t := by
    obtain ⟨before, iput, -⟩ := InodeTable.then_eq ran
    exact fun k locked => keepsLocks_iput iput k (counted k locked)
  unfold InodeTable.State.found at ran
  dsimp only at ran
  split at ran
  · split at ran
    · exact put ran
    · exact put ran
  · exact put ran

theorem keepsLocks_readInode {r : InodeTable.Request} (ran : s.readInode i r = some (t, frames)) :
    KeepsLocks s t := by
  unfold InodeTable.State.readInode at ran
  split at ran
  · cases ran
    exact fun _ => id
  · obtain ⟨sb, -, same⟩ := map_eq_some_iff.mp ran
    cases same
    exact keepsLocks_setLock

theorem keepsLocks_freeInode (ran : s.freeInode i = some (t, frames)) {j : Slot} (other : j ≠ i) :
    t.table j = s.table j := by
  unfold InodeTable.State.freeInode at ran
  dsimp only at ran
  split at ran
  · cases ran
    exact table_setSlot_of_ne other
  split at ran
  · cases ran
  split at ran
  · cases ran
  obtain ⟨sb, -, ran⟩ := Option.bind_eq_some_iff.mp ran
  split at ran
  · cases ran
  cases ran
  exact table_setSlot_of_ne other

theorem keepsLocks_newInode {dev uid gid time : Nat} (ran : s.newInode i dev uid gid time = some (t, frames)) :
    KeepsLocks s t := by
  obtain ⟨sb, -, ran⟩ := Option.bind_eq_some_iff.mp ran
  split at ran
  · exact keepsLocks_iput ran
  · cases ran
    exact keepsLocks_setSlot id

theorem keepsLocks_run {frame : Frame} (ran : s.run frame = some (t, frames)) {j : Slot} (kept : frame.locks ≠ some j)
    (uncleared : clearedSlot s frame ≠ some j) (locked : (s.table j).lock = true) : (t.table j).lock = true := by
  have writes {k : Slot} {place : Frame} (unlocked : ¬(s.table k).lock = true)
      (ran : (s.writeInode k).then place = some (t, frames)) : (t.table j).lock = true := by
    obtain ⟨before, wrote, -⟩ := InodeTable.then_eq ran
    exact keepsLocks_of_write (InodeTable.writeInode_go (Bool.eq_false_iff.mpr unlocked) wrote) j locked
  cases frame with
  | emptyWait i purpose =>
    simp only [InodeTable.State.run] at ran
    split at ran
    · cases ran
    next unlocked =>
    split at ran
    · exact writes unlocked ran
    next clean =>
    split at ran
    · obtain ⟨last, k, rfl, -⟩ := InodeTable.getEmptyInode_frames ran
      exact locked
    next free =>
    cases ran
    have other : j ≠ i := by
      rintro rfl
      exact unlocked locked
    rwa [table_setSlot_of_ne other]
  | scan r empty =>
    simp only [InodeTable.State.run] at ran
    split at ran
    · have claimed : KeepsLocks s (s.claim r empty) := keepsLocks_setSlot id
      exact keepsLocks_readInode ran j (claimed j locked)
    · split at ran
      · cases ran
        exact locked
      · exact keepsLocks_found ran j locked
  | scanWait i r empty =>
    simp only [InodeTable.State.run] at ran
    split at ran
    · cases ran
    split at ran
    · cases ran
      exact locked
    · exact keepsLocks_found ran j locked
  | readLock i r =>
    simp only [InodeTable.State.run] at ran
    split at ran
    · cases ran
    · exact keepsLocks_readInode ran j locked
  | reading i r dev block =>
    cases ran
    rw [InodeTable.State.load, table_setSlot_of_ne fun same => kept (congrArg some same.symm)]
    exact locked
  | got i r =>
    cases ran
    exact locked
  | newBit empty dev uid gid time => exact keepsLocks_newInode ran j locked
  | iputWait i =>
    simp only [InodeTable.State.run] at ran
    split at ran
    · cases ran
    next unlocked => exact keepsLocks_iputBody unlocked ran j locked
  | iputRepeat i =>
    simp only [InodeTable.State.run] at ran
    split at ran
    · cases ran
    next unlocked =>
    have go : InodeTable.TailGo .all s i t frames :=
      InodeTable.iputTail_go trivial (Bool.eq_false_iff.mpr unlocked) ran
    exact keepsLocks_of_tail go j locked
  | truncating i =>
    rwa [keepsLocks_freeInode ran fun same => uncleared (congrArg some same.symm)]
  | syncing k =>
    simp only [InodeTable.State.run] at ran
    split at ran
    · split at ran
      · cases ran
      next unlocked =>
      split at ran
      · exact writes unlocked ran
      · cases ran
        exact locked
    · cases ran
      exact locked
  | writeLock i entered =>
    simp only [InodeTable.State.run] at ran
    split at ran
    · cases ran
    · exact keepsLocks_writeLocked ran j locked
  | writing i entered dev block =>
    cases ran
    have other : j ≠ i := fun same => kept (congrArg some same.symm)
    exact (congrArg InodeTable.Inode.lock (update_of_ne other ..)).trans locked

end Locks

/-! ## The queues -/

variable {s s' : State} {sleepers : Slot → List Pid}

theorem step_inode {m : InodeTable.Move} (moved : s.step (.inode m) = some s') :
    s.inodes.step m = some s'.inodes ∧ s'.waiting = s.waitingAfter m ∧
      s'.wiped = (s.wiped || (s.clears m).any s.inUse) := by
  obtain ⟨-, moved⟩ := ite_none_right_eq_some.mp moved
  obtain ⟨inodes, isStep, rfl⟩ := map_eq_some_iff.mp moved
  exact ⟨isStep, rfl, rfl⟩

theorem keepsLocks_step {m : InodeTable.Move} {t : InodeTable.State} (moved : s.inodes.step m = some t) {j : Slot}
    (kept : s.unlocks m ≠ some j) (uncleared : s.clears m ≠ some j) (locked : (s.inodes.table j).lock = true) :
    (t.table j).lock = true := by
  cases m with
  | iget p dev num | newInode p dev uid gid time =>
    obtain ⟨-, moved⟩ := ite_none_right_eq_some.mp moved
    obtain ⟨t', frames, ran, rfl⟩ := InodeTable.resume_eq moved
    obtain ⟨last, k, rfl, -⟩ := InodeTable.getEmptyInode_frames ran
    exact locked
  | iput p i =>
    obtain ⟨-, moved⟩ := ite_none_right_eq_some.mp moved
    obtain ⟨t', frames, ran, rfl⟩ := InodeTable.resume_eq moved
    exact keepsLocks_iput ran j locked
  | sync p =>
    obtain ⟨-, moved⟩ := ite_none_right_eq_some.mp moved
    cases moved
    exact locked
  | run p =>
    simp only [InodeTable.State.step] at moved
    split at moved
    · cases moved
    next frame rest at_ =>
    obtain ⟨t', frames, ran, rfl⟩ := InodeTable.resume_eq moved
    simp only [State.unlocks, State.clears, State.place, at_, List.head?_cons, Option.bind_some] at kept uncleared
    exact keepsLocks_run ran kept uncleared locked
  | cut p k | pass p =>
    simp only [InodeTable.State.step] at moved
    split at moved
    · cases moved
      exact keepsLocks_setSlot (by exact id) j locked
    · cases moved
  | modify i data =>
    obtain ⟨-, moved⟩ := ite_none_right_eq_some.mp moved
    cases moved
    exact keepsLocks_setSlot (by exact id) j locked

structure State.Sound (s : State) (sleepers : Slot → List Pid) : Prop where
  unwiped : s.wiped = false
  waits : s.waiting.Sound sleepers
  woken : s.Woken

theorem State.Sound.resume {p : Pid} {i : Slot} {tmp : Option Pid} (sound : s.Sound sleepers)
    (sleeping : s.waiting.activity p = .sleeping i tmp) :
    State.Woken { s with waiting := s.waiting.tryLeave p i tmp .idle } := by
  have left {waiting : WaitQueue.State Pid Slot} (head : waiting.head = s.waiting.head)
      (state : waiting.state = s.waiting.state) :
      State.Woken { s with waiting := (waiting.leave i tmp).setActivity p .idle } := by
    intro j unlocked q first
    cases tmp with
    | none =>
      change update waiting.head i none j = some q at first
      rw [update_apply] at first
      split at first
      · cases first
      · rw [head] at first
        exact (congrFun state q).trans (sound.woken j unlocked q first)
    | some older =>
      change update waiting.head i (some older) j = some q at first
      show update waiting.state older .running q = .running
      rw [update_apply] at first
      split at first
      · cases first
        exact update_self ..
      · rw [head] at first
        exact WaitQueue.running_update _ ((congrFun state q).trans (sound.woken j unlocked q first))
  rw [WaitQueue.State.tryLeave]
  split
  next other isHead =>
    split
    next differ =>
      intro j unlocked q first
      have notP : q ≠ p := by
        rintro rfl
        have member := sound.waits.on_of_head (first : s.waiting.head j = some q)
        rw [WaitQueue.State.On, sleeping, WaitQueue.Activity.saved, List.map_singleton, List.mem_singleton] at member
        subst member
        exact differ (Option.some.inj (isHead.symm.trans first))
      exact (update_of_ne notP ..).trans (WaitQueue.running_update _ (sound.woken j unlocked q first))
    · exact left rfl rfl
  · exact left rfl rfl

theorem State.Sound.wakeUp (sound : s.Sound sleepers) (i : Slot) :
    ∃ sleepers, State.Sound { s with waiting := s.waiting.wakeUp i } sleepers := by
  obtain ⟨⟨after, waits⟩, -⟩ :=
    sound.waits.step (rfl : WaitQueue.State.step s.waiting (.wakeUp i) = some (s.waiting.wakeUp i))
  refine ⟨after, sound.unwiped, waits, fun j unlocked p first => ?_⟩
  rw [WaitQueue.State.head_wakeUp] at first
  exact WaitQueue.State.running_wakeUp i (sound.woken j unlocked p first)

theorem clears_of_unlocks {m : InodeTable.Move} {i : Slot} (unlocks : s.unlocks m = some i) : s.clears m = none := by
  rw [State.unlocks] at unlocks
  rw [State.clears]
  cases place : s.place m with
  | none => rfl
  | some frame =>
    rw [place] at unlocks
    cases frame with
    | reading | writing => rfl
    | _ => cases unlocks

theorem State.Sound.inode (sound : s.Sound sleepers) {m : InodeTable.Move} (unwatched : s.Unwatched (.inode m))
    (moved : s.step (.inode m) = some s') : ∃ sleepers, s'.Sound sleepers := by
  obtain ⟨inodes, waiting, wiped⟩ := step_inode moved
  have keeps {j : Slot} (kept : s.unlocks m ≠ some j) (uncleared : s.clears m ≠ some j)
      (unlocked : (s'.inodes.table j).lock = false) : (s.inodes.table j).lock = false := by
    by_contra locked
    rw [keepsLocks_step inodes kept uncleared (Bool.eq_true_of_not_eq_false locked)] at unlocked
    cases unlocked
  have unwiped : s'.wiped = false := by
    rw [wiped, sound.unwiped, Bool.false_or]
    cases clears : s.clears m with
    | none => rfl
    | some i =>
      obtain ⟨unlocked, empty⟩ := unwatched i clears
      rw [Option.any_some, State.inUse, unlocked, Bool.false_or, List.any_eq_false]
      exact fun p _ waits => sound.waits.not_on empty p (of_decide_eq_true waits)
  cases unlocks : s.unlocks m with
  | some i =>
    have none := clears_of_unlocks unlocks
    simp only [State.waitingAfter, unlocks] at waiting
    obtain ⟨after, -, waits, -⟩ := sound.wakeUp i
    refine ⟨after, unwiped, waiting ▸ waits, fun j unlocked p first => ?_⟩
    rw [waiting, WaitQueue.State.head_wakeUp] at first
    rw [waiting]
    by_cases same : j = i
    · subst same
      exact WaitQueue.State.woken_wakeUp first
    · have kept : s.unlocks m ≠ some j := by
        rw [unlocks]
        exact fun both => same (Option.some.inj both).symm
      exact WaitQueue.State.running_wakeUp i (sound.woken j (keeps kept (by rw [none]; exact nofun) unlocked) p first)
  | none =>
    have untouched : s'.waiting = s.waiting := by
      simp only [State.waitingAfter, unlocks] at waiting
      cases clears : s.clears m with
      | none => rwa [clears] at waiting
      | some i =>
        have empty := (unwatched i clears).2
        rw [waiting, clears]
        exact (congrArg (fun head => { s.waiting with head }) (update_eq_self_iff.mpr empty.symm)).trans rfl
    refine ⟨sleepers, unwiped, untouched ▸ sound.waits, fun j unlocked p first => ?_⟩
    rw [untouched] at first ⊢
    refine sound.woken j (keeps (by rw [unlocks]; exact nofun) (fun clears => ?_) unlocked) p first
    rw [(unwatched j clears).2] at first
    cases first

theorem State.Sound.step (sound : s.Sound sleepers) {m : Move} (unwatched : s.Unwatched m)
    (moved : s.step m = some s') : ∃ sleepers, s'.Sound sleepers := by
  cases m with
  | inode m => exact sound.inode unwatched moved
  | sleep p =>
    simp only [State.step] at moved
    split at moved
    next i place =>
      obtain ⟨locked, moved⟩ := ite_none_right_eq_some.mp moved
      obtain ⟨waiting, sleeps, rfl⟩ := map_eq_some_iff.mp moved
      obtain ⟨⟨after, waits⟩, -⟩ := sound.waits.step sleeps
      refine ⟨after, sound.unwiped, waits, fun j unlocked q first => ?_⟩
      obtain ⟨⟨-, idle⟩, same⟩ := ite_none_right_eq_some.mp sleeps
      cases same
      change update s.waiting.head i (some p) j = some q at first
      have other : j ≠ i := by
        rintro rfl
        rw [locked] at unlocked
        cases unlocked
      rw [update_of_ne other] at first
      have notP : q ≠ p := by
        rintro rfl
        have member := sound.waits.on_of_head first
        rw [WaitQueue.State.On, idle] at member
        cases member
      exact (update_of_ne notP ..).trans (sound.woken j unlocked q first)
    · cases moved
  | resume p =>
    simp only [State.step] at moved
    split at moved
    next i tmp sleeping =>
      obtain ⟨waiting, resumed, rfl⟩ := map_eq_some_iff.mp moved
      obtain ⟨⟨after, waits⟩, -⟩ := sound.waits.step resumed
      obtain ⟨-, resumed⟩ := ite_none_right_eq_some.mp resumed
      simp only [WaitQueue.State.resume, sleeping, Option.some.injEq] at resumed
      subst resumed
      exact ⟨after, sound.unwiped, waits, sound.resume sleeping⟩
    · cases moved
  | wakeUp i =>
    cases moved
    exact sound.wakeUp i

theorem State.Sound.noneLost (sound : s.Sound sleepers) : s.NoneLost where
  unwiped := sound.unwiped
  chains := sound.waits.good
  woken := sound.woken
  leaves p s' moved := by
    simp only [State.step] at moved
    split at moved
    · obtain ⟨waiting, resumed, rfl⟩ := map_eq_some_iff.mp moved
      exact (sound.waits.step resumed).2
    · cases moved

theorem State.Initial.sound (initial : s.Initial) : s.Sound fun _ => [] where
  unwiped := initial.unwiped
  waits := initial.awake ▸ WaitQueue.State.Sound.init
  woken := by
    intro i _ p first
    rw [initial.awake] at first
    cases first

theorem State.Sound.broken (sound : s.Sound sleepers) {m : Move} (watched : ¬s.Unwatched m)
    (moved : s.step m = some s') : ¬s'.NoneLost := by
  intro noneLost
  cases m with
  | inode m =>
    obtain ⟨-, -, wiped⟩ := step_inode moved
    rw [noneLost.unwiped] at wiped
    refine watched fun i clears => ?_
    have unused : s.inUse i = false := by
      rw [Option.mem_def.mp clears, sound.unwiped, Bool.false_or] at wiped
      exact wiped.symm
    obtain ⟨unlocked, none⟩ := Bool.or_eq_false_iff.mp unused
    refine ⟨unlocked, Option.eq_none_iff_forall_ne_some.mpr fun p first => ?_⟩
    have waits := List.any_eq_false.mp none p (List.mem_finRange p)
    exact waits (decide_eq_true (sound.waits.on_of_head first))
  | sleep | resume | wakeUp => exact watched trivial

theorem not_noneLost_of_lost {i : Slot} {p : Pid} (lost : s.Lost i p) : ¬s.NoneLost := by
  intro noneLost
  obtain ⟨waits, -, empty, -⟩ := lost
  obtain ⟨sleepers, follows, -, mem, -⟩ := noneLost.chains.chain i
  have member := (mem p).mpr waits
  cases sleepers with
  | nil => cases member
  | cons first rest =>
    rw [empty] at follows
    cases follows.1

def State.Safe (s : State) : Prop := ∃ sleepers, s.Sound sleepers

/-- Every process that waits for an inode is woken, as long as `get_empty_inode` and `free_inode` clear
only slots whose `i_lock` and `i_wait` are zero. -/
theorem noneLost_iff_unwatched {start : State} (initial : start.Initial) (moves : List Move) :
    Always State.step State.NoneLost start moves ↔ Throughout State.step State.Unwatched start moves := by
  have holds {s : State} : s.Safe → s.NoneLost := fun ⟨_, sound⟩ => sound.noneLost
  have kept {s : State} {m : Move} {s' : State} : s.Safe → s.Unwatched m → s.step m = some s' → s'.Safe :=
    fun ⟨_, sound⟩ => sound.step
  have broken {s : State} {m : Move} {s' : State} : s.Safe → ¬s.Unwatched m → s.step m = some s' → ¬s'.NoneLost :=
    fun ⟨_, sound⟩ => sound.broken
  exact always_iff_of_good holds kept broken ⟨_, initial.sound⟩ moves

def openFile : State where
  inodes := { InodeTable.sampleTable with lastInode := .ofNat 63 }
  waiting := .init
  wiped := false

theorem openFile_initial : openFile.Initial := ⟨rfl, rfl⟩

theorem noneLost_iff_unwatched_again :
    Always State.step State.NoneLost openFile
      [.inode (.modify (.ofNat 0) InodeTable.sampleData), .inode (.sync (.ofNat 1)), .inode (.run (.ofNat 1)),
        .inode (.iput (.ofNat 0) (.ofNat 0)), .sleep (.ofNat 0), .inode (.run (.ofNat 1)), .resume (.ofNat 0),
        .inode (.run (.ofNat 0)), .inode (.iget (.ofNat 0) 1 3), .inode (.run (.ofNat 0))] :=
  (noneLost_iff_unwatched openFile_initial _).mpr (throughout_of_checked (by decide +kernel))

/-- A `sync_inodes` writes the inode while `truncate` waits for a block. -/
def freed : List Move :=
  [.inode (.modify (.ofNat 0) { InodeTable.sampleData with nlinks := 0, zone := fun k => if k.val = 7 then 9 else 0 }),
    .inode (.iput (.ofNat 0) (.ofNat 0)), .inode (.sync (.ofNat 1)), .inode (.run (.ofNat 1)),
    .inode (.sync (.ofNat 2)), .sleep (.ofNat 2), .inode (.cut (.ofNat 0) (Fin.last 7).castSucc), .inode (.pass (.ofNat 0)),
    .inode (.run (.ofNat 0)), .inode (.run (.ofNat 1))]

/-- Processes that were woken after the write of the last `iput` go on only after `get_empty_inode` has
cleared the slot, and another one has gone to sleep there. -/
def recycled : List Move :=
  [.inode (.modify (.ofNat 0) InodeTable.sampleData), .inode (.iput (.ofNat 0) (.ofNat 0)),
    .inode (.sync (.ofNat 1)), .sleep (.ofNat 1), .inode (.sync (.ofNat 2)), .sleep (.ofNat 2),
    .inode (.run (.ofNat 0)), .inode (.run (.ofNat 0)), .inode (.iget (.ofNat 0) 1 3), .inode (.run (.ofNat 0)),
    .inode (.run (.ofNat 0)), .inode (.sync (.ofNat 3)), .sleep (.ofNat 3), .resume (.ofNat 2), .resume (.ofNat 3),
    .sleep (.ofNat 3), .inode (.run (.ofNat 0)), .resume (.ofNat 3)]

theorem sleepers_lost :
    (∃ s, run State.step openFile freed = some s ∧ s.Lost (.ofNat 0) (.ofNat 2) ∧ ¬s.NoneLost) ∧
      ∃ s, run State.step openFile recycled = some s ∧ s.Lost (.ofNat 0) (.ofNat 1) ∧
        s.Lost (.ofNat 0) (.ofNat 2) ∧ ¬s.NoneLost := by
  constructor
  · obtain ⟨s, ran, lost⟩ := exists_of_run State.step openFile freed
      (fun s => s.Lost (.ofNat 0) (.ofNat 2)) (by decide +kernel)
    exact ⟨s, ran, lost, not_noneLost_of_lost lost⟩
  · obtain ⟨s, ran, first, second⟩ := exists_of_run State.step openFile recycled
      (fun s => s.Lost (.ofNat 0) (.ofNat 1) ∧ s.Lost (.ofNat 0) (.ofNat 2)) (by decide +kernel)
    exact ⟨s, ran, first, second, not_noneLost_of_lost first⟩

end Linux012.Fs.InodeSleepers

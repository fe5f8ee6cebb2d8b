import Linux012.Fs.InodeIdentity

/-! The locks of the inode table. One process reads or writes an inode at a time,
as long as no locked slot is cleared. -/

set_option autoImplicit false

namespace Linux012.Fs.InodeTable

open Transition Relation Function List

def Frame.locks : Frame → Option Slot
  | .reading i _ _ _ | .writing i _ _ _ => some i
  | _ => none

@[simp] theorem Frame.locks_reading (i : Slot) (r : Request) (dev block : Nat) :
    (Frame.reading i r dev block).locks = some i := rfl

@[simp] theorem Frame.locks_writing (i : Slot) (entered : Nat × Nat) (dev block : Nat) :
    (Frame.writing i entered dev block).locks = some i := rfl

def Frame.Reads (i : Slot) : Frame → Prop
  | .reading j _ _ _ => j = i
  | _ => False

/-- A `write_inode` is on its way to the record of the inode it was entered for. -/
def Frame.Targets (s : State) : Frame → Prop
  | .writing i entered dev block =>
    entered = ((s.table i).dev, (s.table i).num) ∧ dev = entered.1 ∧ dev ≠ 0 ∧
      ∃ sb, s.getSuper dev = some sb ∧ block = sb.blockOf entered.2
  | _ => True

structure State.Locked (s : State) : Prop where
  counted : ∀ i, (s.table i).lock.toNat = s.marked Frame.locks i
  targets : ∀ p, ∀ f ∈ s.control p, f.Targets s
  loaded : ∀ i, (s.table i).dev ≠ 0 →
    (s.table i).loaded = true ∨ ∃ p, ∃ f ∈ s.control p, f.Reads i

section Locked

variable {policy : Policy} {s s' t : State} {p q : Pid} {f g : Frame} {gs fs rest : List Frame} {i j : Slot}

theorem State.Locked.locked_of_mem (locked : s.Locked) (member : f ∈ s.control p) (isLock : f.locks = some i) :
    (s.table i).lock = true := by
  have one : 1 ≤ s.marked Frame.locks i := one_marked member isLock
  have counted := locked.counted i
  cases isLocked : (s.table i).lock with
  | true => rfl
  | false =>
    rw [isLocked] at counted
    have zero : false.toNat = 0 := rfl
    omega

theorem Frame.Reads.locks (reads : f.Reads i) : f.locks = some i := by
  cases f with
  | reading => exact congrArg some reads
  | _ => exact reads.elim

theorem State.Locked.loaded_of_unlocked (locked : s.Locked) (isDev : (s.table i).dev ≠ 0)
    (unlocked : (s.table i).lock = false) : (s.table i).loaded = true := by
  rcases locked.loaded i isDev with loaded | ⟨p, f, member, reads⟩
  · exact loaded
  · rw [locked.locked_of_mem member reads.locks] at unlocked
    cases unlocked

theorem Frame.Targets.same (targets : f.Targets s) (super : s'.super = s.super)
    (same : ∀ i, f.locks = some i →
      (s'.table i).dev = (s.table i).dev ∧ (s'.table i).num = (s.table i).num) : f.Targets s' := by
  cases f with
  | writing i entered dev block =>
    obtain ⟨sameDev, sameNum⟩ := same i rfl
    obtain ⟨isEntered, isDev, some, sb, isSuper, isBlock⟩ := targets
    refine ⟨?_, isDev, some, sb, ?_, isBlock⟩
    · rw [sameDev, sameNum]
      exact isEntered
    · unfold State.getSuper at isSuper ⊢
      rw [super]
      exact isSuper
  | _ => trivial

theorem State.Locked.goes (locked : s.Locked) (at_ : s.control p = gs ++ rest)
    (control : s'.control = update s.control p (fs ++ rest)) (super : s'.super = s.super)
    (locks : ∀ i, (s'.table i).lock.toNat + marks Frame.locks gs i = (s.table i).lock.toNat + marks Frame.locks fs i)
    (same : ∀ f i, s.Elsewhere p rest f → f.locks = some i →
      (s'.table i).dev = (s.table i).dev ∧ (s'.table i).num = (s.table i).num)
    (new : ∀ f ∈ fs, f.Targets s')
    (loaded : ∀ i, (s'.table i).dev ≠ 0 → (s'.table i).loaded = true ∨ (∃ f ∈ fs, f.Reads i) ∨
      ((s.table i).dev ≠ 0 ∧ (s'.table i).loaded = (s.table i).loaded ∧ ∀ f ∈ gs, ¬f.Reads i)) :
    s'.Locked where
  counted i := by
    have moved := marked_goes Frame.locks at_ control i
    have before := locked.counted i
    have after := locks i
    omega
  targets q f member := by
    have old (elsewhere : s.Elsewhere p rest f) : f.Targets s' := by
      obtain ⟨r, was⟩ := elsewhere.mem _ at_
      exact (locked.targets r f was).same super fun i isLock => same f i elsewhere isLock
    rw [control] at member
    by_cases here : q = p
    · subst here
      rw [update_self] at member
      rcases mem_append.mp member with isNew | isOld
      · exact new f isNew
      · exact old (.inr isOld)
    · rw [update_of_ne here] at member
      exact old (.inl ⟨q, here, member⟩)
  loaded i isDev := by
    rcases loaded i isDev with isLoaded | ⟨f, member, reads⟩ | ⟨wasDev, sameLoaded, others⟩
    · exact .inl isLoaded
    · refine .inr ⟨p, f, ?_, reads⟩
      rw [control, update_self]
      exact mem_append_left rest member
    · rw [sameLoaded]
      refine (locked.loaded i wasDev).imp_right ?_
      rintro ⟨q, f, member, reads⟩
      refine ⟨q, f, ?_, reads⟩
      rw [control]
      by_cases here : q = p
      · subst here
        rw [update_self]
        rw [at_] at member
        rcases mem_append.mp member with isOld | isRest
        · exact absurd reads (others f isOld)
        · exact mem_append_right fs isRest
      · rwa [update_of_ne here]

variable (gs fs rest) in
theorem State.Locked.frame (locked : s.Locked) (at_ : s.control p = gs ++ rest)
    (control : s'.control = update s.control p (fs ++ rest)) (super : s'.super = s.super)
    (same : ∀ i, (s'.table i).dev = (s.table i).dev ∧ (s'.table i).num = (s.table i).num ∧
      (s'.table i).lock = (s.table i).lock ∧ (s'.table i).loaded = (s.table i).loaded)
    (free : ∀ f ∈ gs, f.locks = none) (new : ∀ f ∈ fs, f.locks = none) : s'.Locked := by
  have none {frames : List Frame} (free : ∀ f ∈ frames, f.locks = none) (i : Slot) :
      marks Frame.locks frames i = 0 := by
    unfold marks
    rw [countP_eq_zero]
    intro f member
    rw [free f member]
    simp
  refine locked.goes at_ control super (fun i => ?_) (fun f i _ _ => ⟨(same i).1, (same i).2.1⟩)
    (fun f member => ?_) fun i isDev => .inr (.inr ⟨?_, (same i).2.2.2, fun f member reads => ?_⟩)
  · rw [none free, none new, (same i).2.2.1]
  · have isFree := new f member
    cases f with
    | writing => cases isFree
    | _ => trivial
  · rwa [(same i).1] at isDev
  · have isLock := reads.locks
    rw [free f member] at isLock
    cases isLock

variable (gs fs rest) in
theorem State.Locked.slot {inode : Inode} (locked : s.Locked) (at_ : s.control p = gs ++ rest)
    (control : s'.control = update s.control p (fs ++ rest)) (super : s'.super = s.super)
    (table : s'.table = update s.table j inode)
    (lock : inode.lock.toNat + marks Frame.locks gs j = (s.table j).lock.toNat + marks Frame.locks fs j)
    (locks : ∀ i, i ≠ j → marks Frame.locks gs i = marks Frame.locks fs i)
    (same : (∃ f, s.Elsewhere p rest f ∧ f.locks = some j) →
      inode.dev = (s.table j).dev ∧ inode.num = (s.table j).num)
    (new : ∀ f ∈ fs, f.Targets s')
    (reads : ∀ i, i ≠ j → ∀ f ∈ gs, ¬f.Reads i)
    (loaded : inode.dev ≠ 0 → inode.loaded = true ∨ (∃ f ∈ fs, f.Reads j) ∨
      ((s.table j).dev ≠ 0 ∧ inode.loaded = (s.table j).loaded ∧ ∀ f ∈ gs, ¬f.Reads j)) :
    s'.Locked := by
  refine locked.goes at_ control super (fun i => ?_) (fun f i elsewhere isLock => ?_) new fun i => ?_
  · rw [table]
    by_cases here : i = j
    · subst here
      rwa [update_self]
    · rw [update_of_ne here, locks i here]
  · rw [table]
    by_cases here : i = j
    · subst here
      rw [update_self]
      exact same ⟨f, elsewhere, isLock⟩
    · rw [update_of_ne here]
      exact ⟨rfl, rfl⟩
  · rw [table]
    by_cases here : i = j
    · subst here
      rw [update_self]
      exact loaded
    · rw [update_of_ne here]
      exact fun isDev => .inr (.inr ⟨isDev, rfl, reads i here⟩)

variable (gs) in
theorem State.Locked.no_locks (locked : s.Locked) (at_ : s.control p = gs ++ rest)
    (unlocked : (s.table i).lock = false) : ¬∃ f, s.Elsewhere p rest f ∧ f.locks = some i := by
  rintro ⟨f, elsewhere, isLock⟩
  obtain ⟨q, was⟩ := elsewhere.mem _ at_
  rw [locked.locked_of_mem was isLock] at unlocked
  cases unlocked

theorem State.Locked.write (locked : s.Locked) (at_ : s.control p = g :: rest)
    (unlocked : (s.table i).lock = false) (go : WriteGo s i t fs) (freeG : g.locks = none)
    (freeF : f.locks = none) : (t.goto p (fs ++ f :: rest)).Locked := by
  have free (frame : Frame) (isFree : frame.locks = none) (j : Slot) : ¬frame.Reads j := by
    intro reads
    rw [reads.locks] at isFree
    cases isFree
  have targets (u : State) : f.Targets u := by
    cases f with
    | writing => cases freeF
    | _ => trivial
  cases go with
  | clean =>
    refine locked.frame [g] [f] _ at_ rfl rfl (fun _ => ⟨rfl, rfl, rfl, rfl⟩) ?_ ?_
    · intro frame member
      rwa [mem_singleton.mp member]
    · intro frame member
      rwa [mem_singleton.mp member]
  | @write sb dirty isDev isSuper =>
    refine locked.slot [g]
      [.writing i ((s.table i).dev, (s.table i).num) (s.table i).dev (sb.blockOf (s.table i).num), f] _
      at_ rfl rfl rfl ?_ (fun k other => ?_) (fun _ => ⟨rfl, rfl⟩) (fun frame member => ?_)
      (fun k _ frame member => ?_) fun _ => .inr (.inr ⟨isDev, rfl, fun frame member => ?_⟩)
    · simp [marks_cons, marks_nil, freeG, freeF, unlocked]
    · simp [marks_cons, marks_nil, freeG, freeF, other.symm]
    · simp only [mem_cons, not_mem_nil, or_false] at member
      rcases member with rfl | rfl
      · refine ⟨?_, rfl, isDev, sb, isSuper, rfl⟩
        simp only [State.goto, State.setLock, State.setSlot, update_self]
      · exact targets _
    · rw [mem_singleton.mp member]
      exact free g freeG k
    · rw [mem_singleton.mp member]
      exact free g freeG i

theorem State.Locked.tail (locked : s.Locked) (at_ : s.control p = g :: rest) (freeG : g.locks = none)
    (go : TailGo policy s i t fs) : (t.goto p (fs ++ rest)).Locked := by
  have only : ∀ f ∈ [g], f.locks = none := fun f member => by rwa [mem_singleton.mp member]
  cases go with
  | drop =>
    refine locked.frame [g] [] _ at_ rfl rfl (fun j => ?_) only (by simp)
    simp only [State.goto, State.setCount, State.setSlot, update_apply]
    split
    · next same =>
      subst same
      exact ⟨rfl, rfl, rfl, rfl⟩
    · exact ⟨rfl, rfl, rfl, rfl⟩
  | truncate =>
    exact locked.frame [g] [.truncating i] _ at_ rfl rfl (fun _ => ⟨rfl, rfl, rfl, rfl⟩) only (by simp [Frame.locks])
  | write unlocked wrote =>
    rw [append_assoc]
    exact locked.write at_ unlocked wrote freeG (f := .iputRepeat i) rfl

theorem Frame.not_reads (isFree : f.locks = none) (i : Slot) : ¬f.Reads i := by
  intro reads
  rw [reads.locks] at isFree
  cases isFree

theorem State.Locked.setSlot {i : Slot} {inode : Inode} (locked : s.Locked) (p : Pid)
    (dev : inode.dev = (s.table i).dev) (num : inode.num = (s.table i).num) (lock : inode.lock = (s.table i).lock)
    (loaded : inode.loaded = (s.table i).loaded) : (s.setSlot i inode).Locked := by
  refine locked.frame (p := p) [] [] (s.control p) rfl ?_ rfl (fun j => ?_) (by simp) (by simp)
  · rw [nil_append, update_eq_self]
    rfl
  · simp only [State.setSlot, update_apply]
    split
    · next same =>
      subst same
      exact ⟨dev, num, lock, loaded⟩
    · exact ⟨rfl, rfl, rfl, rfl⟩

theorem State.Locked.micro (locked : s.Locked) (kept : s.Kept) (micro : Micro policy s s')
    (frees : ∀ p i rest, s.control p = .truncating i :: rest → policy.free s i →
      (s.table i).lock = false) : s'.Locked := by
  cases micro with
  | @start p frame last idle begins =>
    refine locked.frame [] [frame] [] idle rfl rfl (fun _ => ⟨rfl, rfl, rfl, rfl⟩) (by simp) fun f member => ?_
    rw [mem_singleton.mp member]
    rcases begins with ⟨i, dev, num, -, rfl⟩ | ⟨-, i, dev, uid, gid, time, -, rfl⟩ | rfl <;> rfl
  | @iputStart p i idle isHeld =>
    exact locked.frame [] [.iputWait i] [] idle rfl rfl
      (fun _ => ⟨rfl, rfl, rfl, rfl⟩) (by simp) (by simp [Frame.locks])
  | @wait p frame frames rest last at_ waits =>
    refine locked.frame [frame] frames _ at_ rfl rfl (fun _ => ⟨rfl, rfl, rfl, rfl⟩) ?_ ?_
    · cases waits <;> simp [Frame.locks]
    · cases waits <;> simp [Frame.locks]
  | emptyWrite at_ unlocked wrote | syncWrite at_ unlocked wrote => exact locked.write at_ unlocked wrote rfl rfl
  | @fresh p i purpose rest at_ unlocked clean free =>
    refine locked.slot [.emptyWait i purpose] [purpose.next i] _ at_ rfl rfl rfl ?_
      (fun k _ => ?_) (fun taken => absurd taken (locked.no_locks [_] at_ unlocked)) (fun f member => ?_)
      (fun k _ f member => ?_) fun isDev => absurd rfl isDev
    · rw [unlocked]
      cases purpose <;> rfl
    · cases purpose <;> rfl
    · rw [mem_singleton.mp member]
      cases purpose <;> trivial
    · rw [mem_singleton.mp member]
      exact Frame.not_reads rfl k
  | @claim p r empty sb rest at_ missing allowed isSuper =>
    obtain ⟨isPrivate, isDev⟩ : (s.table empty).Private ∧ r.dev ≠ 0 := kept.fits_head at_
    have unlocked := isPrivate.2.1
    refine locked.slot [.scan r empty] [.reading empty r r.dev (sb.blockOf r.num)] _ at_ rfl rfl
      rfl ?_ (fun k other => ?_) (fun taken => absurd taken (locked.no_locks [_] at_ unlocked))
      (fun f member => ?_) (fun k _ f member => ?_) fun _ => .inr (.inl ⟨_, mem_singleton_self _, rfl⟩)
    · rw [unlocked]
      simp [marks_cons, marks_nil, Frame.locks]
    · simp [marks_cons, marks_nil, Frame.locks, other.symm]
    · rw [mem_singleton.mp member]
      trivial
    · rw [mem_singleton.mp member]
      exact Frame.not_reads rfl k
  | @take p i r empty frames rest finds allowed goes =>
    obtain ⟨place, unlocked, sameDev, sameNum⟩ := finds
    obtain ⟨g, at_, freeG⟩ : ∃ g, s.control p = g :: rest ∧ g.locks = none := by
      rcases place with ⟨at_, -⟩ | at_
      · exact ⟨_, at_, rfl⟩
      · exact ⟨_, at_, rfl⟩
    refine locked.frame [g] frames _ at_ rfl rfl (fun j => ?_) (fun f member => ?_) ?_
    · simp only [State.goto, State.setCount, State.setSlot, update_apply]
      split
      · next same =>
        subst same
        exact ⟨rfl, rfl, rfl, rfl⟩
      · exact ⟨rfl, rfl, rfl, rfl⟩
    · rwa [mem_singleton.mp member]
    · cases goes <;> simp [Frame.locks]
  | @load p i r dev block rest at_ =>
    have wasLocked : (s.table i).lock = true :=
      locked.locked_of_mem (p := p) (f := .reading i r dev block) (by rw [at_]; exact mem_cons_self) rfl
    refine locked.slot [.reading i r dev block] [.got i r] _ at_ rfl rfl rfl ?_
      (fun k other => ?_) (fun _ => ⟨rfl, rfl⟩) (fun f member => ?_) (fun k other f member => ?_)
      fun _ => .inl rfl
    · rw [wasLocked]
      simp [marks_cons, marks_nil, Frame.locks]
    · simp [marks_cons, marks_nil, Frame.locks, other.symm]
    · rw [mem_singleton.mp member]
      trivial
    · rw [mem_singleton.mp member]
      exact fun reads => other reads.symm
  | @got p i r rest at_ =>
    exact locked.frame [.got i r] [] _ at_ rfl rfl (fun _ => ⟨rfl, rfl, rfl, rfl⟩) (by simp [Frame.locks]) (by simp)
  | @newBit p empty dev uid gid time j sb rest at_ isSuper isFree =>
    obtain ⟨isPrivate, isDev⟩ : (s.table empty).Private ∧ dev ≠ 0 := kept.fits_head at_
    refine locked.slot [.newBit empty dev uid gid time] [] _ at_ rfl rfl rfl rfl (fun _ _ => rfl)
      (fun taken => absurd taken (locked.no_locks [_] at_ isPrivate.2.1)) (by simp)
      (fun k _ f member => ?_) fun _ => .inl rfl
    rw [mem_singleton.mp member]
    exact Frame.not_reads rfl k
  | @iput p i t frames rest at_ unlocked goes =>
    cases goes with
    | drop noDev =>
      exact locked.tail at_ rfl (.drop : TailGo policy _ _ _ _)
    | sync isDev =>
      exact locked.frame [.iputWait i] [.syncing 0, .iputRepeat i] _ at_ rfl rfl
        (fun _ => ⟨rfl, rfl, rfl, rfl⟩) (by simp [Frame.locks]) (by simp [Frame.locks])
    | tail isDev goes => exact locked.tail at_ rfl goes
  | iputRepeat at_ unlocked goes => exact locked.tail at_ rfl goes
  | @free p i rest at_ allowed isDev few =>
    have unlocked := frees p i rest at_ allowed
    refine locked.slot [.truncating i] [] _ at_ rfl rfl rfl ?_ (fun _ _ => rfl)
      (fun taken => absurd taken (locked.no_locks [_] at_ unlocked)) (by simp)
      (fun k _ f member => ?_) fun isDev => absurd rfl isDev
    · rw [unlocked]
      rfl
    · rw [mem_singleton.mp member]
      exact Frame.not_reads rfl k
  | @save p i entered dev block rest at_ =>
    have wasLocked : (s.table i).lock = true :=
      locked.locked_of_mem (p := p) (f := .writing i entered dev block) (by rw [at_]; exact mem_cons_self) rfl
    refine locked.slot [.writing i entered dev block] [] _ at_ rfl rfl rfl ?_
      (fun k other => ?_) (fun _ => ⟨rfl, rfl⟩) (by simp) (fun k other f member => ?_)
      fun isDev => .inr (.inr ⟨isDev, rfl, fun f member => ?_⟩)
    · rw [wasLocked]
      simp [marks_cons, marks_nil, Frame.locks]
    · simp [marks_cons, marks_nil, Frame.locks, other.symm]
    · rw [mem_singleton.mp member]
      exact id
    · rw [mem_singleton.mp member]
      exact id
  | @cut p i zone dirt rest at_ =>
    exact locked.setSlot p rfl rfl rfl rfl
  | @modify i data isHeld allowed =>
    have p : Pid := ⟨0, by decide⟩
    exact locked.setSlot p rfl rfl rfl rfl
  | stray at_ impossible => exact (kept.not_stray at_ impossible).elim

end Locked

end Linux012.Fs.InodeTable

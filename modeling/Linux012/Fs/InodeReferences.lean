import Linux012.Fs.InodeSteps
import Linux012.Lib.Counting

/-! The reference counts of the inode table are exact, in every run. -/

set_option autoImplicit false

namespace Linux012.Fs.InodeTable

open Transition Relation Counting Function List

def Frame.slot : Frame → Option Slot
  | .scan _ i | .scanWait _ _ i | .newBit i _ _ _ _ => some i
  | .readLock i _ | .reading i _ _ _ | .got i _ => some i
  | .iputWait i | .iputRepeat i | .truncating i => some i
  | .emptyWait _ _ | .syncing _ | .writeLock _ _ | .writing _ _ _ _ => none

def marks (mark : Frame → Option Slot) (frames : List Frame) (i : Slot) : Nat :=
  frames.countP fun f => mark f = some i

def State.marked (s : State) (mark : Frame → Option Slot) (i : Slot) : Nat := ∑ p, marks mark (s.control p) i

def holding : List Frame → Slot → Nat := marks Frame.slot

def State.references (s : State) : Slot → Nat := s.marked Frame.slot

def State.pins (s : State) (i : Slot) : Nat :=
  number (fun sb : Super => sb.imount = some i) s.super + number (fun sb : Super => sb.isup = some i) s.super

def Inode.Private (inode : Inode) : Prop :=
  inode.dev = 0 ∧ inode.lock = false ∧ inode.dirt = false ∧ inode.count = 1

def Frame.Fits (s : State) : Frame → Prop
  | .emptyWait _ (.iget r) => r.dev ≠ 0
  | .emptyWait _ (.newInode dev _ _ _) => dev ≠ 0
  | .scan r i | .scanWait _ r i => (s.table i).Private ∧ r.dev ≠ 0
  | .newBit i dev _ _ _ => (s.table i).Private ∧ dev ≠ 0
  | .readLock _ _ | .writeLock _ _ => False
  | .reading i r _ _ | .got i r => (s.table i).dev = r.dev ∧ (s.table i).num = r.num ∧ r.dev ≠ 0
  | .iputRepeat i | .truncating i => (s.table i).dev ≠ 0
  | .iputWait _ | .syncing _ | .writing _ _ _ _ => True

structure State.Kept (s : State) : Prop where
  counted : ∀ i, (s.table i).count = s.held i + s.references i + s.pins i
  fits : ∀ p, ∀ f ∈ s.control p, f.Fits s
  held_dev : ∀ i, s.held i ≠ 0 → (s.table i).dev ≠ 0
  mount_dev : ∀ k i, (s.super k).imount = some i → (s.super k).dev ≠ 0

section Kept

variable {policy : Policy} {s s' t : State} {p q : Pid} {f g : Frame} {gs fs rest : List Frame} {i j : Slot}

variable {mark : Frame → Option Slot}

theorem marks_nil (i : Slot) : marks mark [] i = 0 := rfl

theorem marks_cons (f : Frame) (fs : List Frame) (i : Slot) :
    marks mark (f :: fs) i = (if mark f = some i then 1 else 0) + marks mark fs i := by
  unfold marks
  rw [countP_cons]
  simp only [decide_eq_true_eq]
  omega

theorem marks_append (fs gs : List Frame) (i : Slot) :
    marks mark (fs ++ gs) i = marks mark fs i + marks mark gs i :=
  countP_append ..

theorem marks_pos (member : f ∈ fs) (isMarked : mark f = some i) : 1 ≤ marks mark fs i :=
  countP_pos_iff.mpr ⟨f, member, decide_eq_true isMarked⟩

variable (mark) in
theorem marks_le_marked (s : State) (p : Pid) (i : Slot) : marks mark (s.control p) i ≤ s.marked mark i :=
  Finset.single_le_sum (f := fun p => marks mark (s.control p) i) (fun _ _ => Nat.zero_le _) (Finset.mem_univ p)

variable (mark) in
theorem marked_goes (at_ : s.control p = gs ++ rest)
    (control : s'.control = update s.control p (fs ++ rest)) (i : Slot) :
    s'.marked mark i + marks mark gs i = s.marked mark i + marks mark fs i := by
  have moved := sum_update (fun frames => marks mark frames i) s.control p (fs ++ rest)
  unfold State.marked
  rw [control]
  rw [at_, marks_append, marks_append] at moved
  omega

def State.Elsewhere (s : State) (p : Pid) (rest : List Frame) (f : Frame) : Prop :=
  (∃ q, q ≠ p ∧ f ∈ s.control q) ∨ f ∈ rest

variable (mark) in
theorem two_marked (at_ : s.control p = g :: rest) (atG : mark g = some i)
    (elsewhere : s.Elsewhere p rest f) (atF : mark f = some i) : 2 ≤ s.marked mark i := by
  have here : marks mark (s.control p) i = 1 + marks mark rest i := by
    rw [at_, marks_cons, if_pos atG]
  rcases elsewhere with ⟨q, other, member⟩ | member
  · have there := marks_pos member atF
    have pair : ∑ r ∈ {p, q}, marks mark (s.control r) i ≤ s.marked mark i :=
      Finset.sum_le_sum_of_subset (Finset.subset_univ _)
    rw [Finset.sum_pair other.symm] at pair
    omega
  · have there := marks_pos member atF
    have all := marks_le_marked mark s p i
    omega

theorem one_marked (member : f ∈ s.control p) (atF : mark f = some i) : 1 ≤ s.marked mark i :=
  (marks_pos member atF).trans (marks_le_marked _ s p i)

@[simp] theorem holding_nil (i : Slot) : holding [] i = 0 := rfl

@[simp] theorem holding_cons (f : Frame) (fs : List Frame) (i : Slot) :
    holding (f :: fs) i = (if f.slot = some i then 1 else 0) + holding fs i := marks_cons f fs i

theorem references_goes (at_ : s.control p = gs ++ rest)
    (control : s'.control = update s.control p (fs ++ rest)) (i : Slot) :
    s'.references i + holding gs i = s.references i + holding fs i := marked_goes _ at_ control i

theorem two_references (at_ : s.control p = g :: rest) (atG : g.slot = some i)
    (elsewhere : s.Elsewhere p rest f) (atF : f.slot = some i) : 2 ≤ s.references i :=
  two_marked _ at_ atG elsewhere atF

theorem one_reference (member : f ∈ s.control p) (atF : f.slot = some i) : 1 ≤ s.references i :=
  one_marked member atF

variable (gs) in
theorem State.Elsewhere.mem (at_ : s.control p = gs ++ rest) (elsewhere : s.Elsewhere p rest f) :
    ∃ q, f ∈ s.control q := by
  rcases elsewhere with ⟨q, -, member⟩ | member
  · exact ⟨q, member⟩
  · exact ⟨p, by rw [at_]; exact mem_append_right gs member⟩

def Stays (old new : Inode) : Prop :=
  new.dev = old.dev ∧ new.num = old.num ∧ (old.Private → new.Private)

theorem Stays.refl (inode : Inode) : Stays inode inode := ⟨rfl, rfl, id⟩

theorem Frame.Fits.stays (fits : f.Fits s) (stays : ∀ i, f.slot = some i → Stays (s.table i) (s'.table i)) :
    f.Fits s' := by
  cases f with
  | emptyWait i purpose => cases purpose <;> exact fits
  | scan r i | scanWait j r i | newBit i dev uid gid time => exact ⟨(stays i rfl).2.2 fits.1, fits.2⟩
  | readLock | writeLock => exact fits.elim
  | reading i r dev block | got i r =>
    obtain ⟨sameDev, sameNum, -⟩ := stays i rfl
    exact ⟨sameDev.trans fits.1, sameNum.trans fits.2.1, fits.2.2⟩
  | iputRepeat i | truncating i =>
    have sameDev := (stays i rfl).1
    simp only [Frame.Fits] at fits ⊢
    rwa [sameDev]
  | iputWait | syncing | writing => trivial

variable (gs fs rest) in
theorem State.Kept.goes (kept : s.Kept) (at_ : s.control p = gs ++ rest)
    (control : s'.control = update s.control p (fs ++ rest)) (super : s'.super = s.super)
    (counts : ∀ i, (s'.table i).count + s.held i + holding gs i = (s.table i).count + s'.held i + holding fs i)
    (stays : ∀ f i, s.Elsewhere p rest f → f.slot = some i → Stays (s.table i) (s'.table i))
    (new : ∀ f ∈ fs, f.Fits s') (held : ∀ i, s'.held i ≠ 0 → (s'.table i).dev ≠ 0) : s'.Kept where
  counted i := by
    have moved := references_goes at_ control i
    have before := kept.counted i
    have after := counts i
    have samePins : s'.pins i = s.pins i := by
      unfold State.pins
      rw [super]
    omega
  fits q f member := by
    have old (elsewhere : s.Elsewhere p rest f) : f.Fits s' := by
      obtain ⟨r, was⟩ := elsewhere.mem _ at_
      exact (kept.fits r f was).stays fun i atSlot => stays f i elsewhere atSlot
    rw [control] at member
    by_cases same : q = p
    · subst same
      rw [update_self] at member
      rcases mem_append.mp member with isNew | isOld
      · exact new f isNew
      · exact old (.inr isOld)
    · rw [update_of_ne same] at member
      exact old (.inl ⟨q, same, member⟩)
  held_dev := held
  mount_dev k i := by
    rw [super]
    exact kept.mount_dev k i

variable (gs fs rest) in
theorem State.Kept.slot {inode : Inode} (kept : s.Kept) (at_ : s.control p = gs ++ rest)
    (control : s'.control = update s.control p (fs ++ rest)) (super : s'.super = s.super)
    (table : s'.table = update s.table j inode)
    (count : inode.count + s.held j + holding gs j = (s.table j).count + s'.held j + holding fs j)
    (counts : ∀ i, i ≠ j → s.held i + holding gs i = s'.held i + holding fs i)
    (stays : ∀ f, s.Elsewhere p rest f → f.slot = some j → Stays (s.table j) inode)
    (new : ∀ f ∈ fs, f.Fits s') (held : ∀ i, i ≠ j → s'.held i ≠ 0 → s.held i ≠ 0)
    (heldHere : s'.held j ≠ 0 → inode.dev ≠ 0) : s'.Kept := by
  refine kept.goes _ _ _ at_ control super (fun i => ?_) (fun f i elsewhere atSlot => ?_) new fun i isHeld => ?_
  · rw [table]
    by_cases same : i = j
    · subst same
      rwa [update_self]
    · rw [update_of_ne same]
      have here := counts i same
      omega
  · rw [table]
    by_cases same : i = j
    · subst same
      rw [update_self]
      exact stays f elsewhere atSlot
    · rw [update_of_ne same]
      exact .refl _
  · rw [table]
    by_cases same : i = j
    · subst same
      rw [update_self]
      exact heldHere isHeld
    · rw [update_of_ne same]
      exact kept.held_dev i (held i same isHeld)

theorem State.Kept.fits_head (kept : s.Kept) (at_ : s.control p = f :: rest) : f.Fits s :=
  kept.fits p f (by rw [at_]; exact mem_cons_self)

theorem State.Kept.count_pos (kept : s.Kept) (at_ : s.control p = f :: rest) (atF : f.slot = some i) :
    1 ≤ (s.table i).count := by
  have one := one_reference (s := s) (p := p) (f := f) (by rw [at_]; exact mem_cons_self) atF
  have counted := kept.counted i
  omega

theorem State.Kept.count_two (kept : s.Kept) (at_ : s.control p = g :: rest) (atG : g.slot = some i)
    (elsewhere : s.Elsewhere p rest f) (atF : f.slot = some i) : 2 ≤ (s.table i).count := by
  have two := two_references at_ atG elsewhere atF
  have counted := kept.counted i
  omega

theorem State.Kept.no_pins (kept : s.Kept) (at_ : s.control p = f :: rest) (atF : f.slot = some i)
    (few : (s.table i).count ≤ 1) : s.pins i = 0 := by
  have one := one_reference (s := s) (p := p) (f := f) (by rw [at_]; exact mem_cons_self) atF
  have counted := kept.counted i
  omega

theorem stays_of_dev {old new : Inode} (isDev : old.dev ≠ 0) (sameDev : new.dev = old.dev)
    (sameNum : new.num = old.num) : Stays old new :=
  ⟨sameDev, sameNum, fun isPrivate => absurd isPrivate.1 isDev⟩

theorem stays_of_count {old new : Inode} (count : old.count ≠ 1) (sameDev : new.dev = old.dev)
    (sameNum : new.num = old.num) : Stays old new :=
  ⟨sameDev, sameNum, fun isPrivate => absurd isPrivate.2.2.2 count⟩

theorem State.Kept.write (kept : s.Kept) (at_ : s.control p = g :: rest) (go : WriteGo s i t fs)
    (sameSlot : f.slot = g.slot) (fits : f.Fits s) : (t.goto p (fs ++ f :: rest)).Kept := by
  cases go with
  | clean =>
    refine kept.goes [g] [f] _ at_ rfl rfl (fun j => ?_) (fun f j _ _ => .refl _) ?_ kept.held_dev
    · simp only [holding_cons, sameSlot]
      rfl
    · intro f' member
      rw [mem_singleton.mp member]
      exact fits
  | write dirty isDev isSuper =>
    have stays : Stays (s.table i) { s.table i with lock := true } := stays_of_dev isDev rfl rfl
    have table : (s.setLock i true).table = update s.table i { s.table i with lock := true } := rfl
    refine kept.slot [g] [_, f] _ at_ rfl rfl table ?_ (fun j other => ?_)
      (fun f _ _ => stays) ?_ (fun _ _ isHeld => isHeld) fun _ => isDev
    · simp only [holding_cons, sameSlot]
      simp [Frame.slot, State.goto, State.setLock, State.setSlot]
    · simp only [holding_cons, sameSlot]
      simp [Frame.slot, State.goto, State.setLock, State.setSlot]
    · intro f' member
      rcases mem_cons.mp member with rfl | member
      · trivial
      · rw [mem_singleton.mp member]
        refine fits.stays fun j _ => ?_
        simp only [State.goto, table, update_apply]
        split
        · next same =>
          rw [same]
          exact stays
        · exact .refl _

theorem State.Kept.tail (kept : s.Kept) (at_ : s.control p = g :: rest) (atG : g.slot = some i)
    (isDev : (s.table i).dev ≠ 0) (go : TailGo policy s i t fs) : (t.goto p (fs ++ rest)).Kept := by
  cases go with
  | drop =>
    have held := kept.count_pos at_ atG
    refine kept.slot [g] [] _ at_ rfl rfl rfl ?_ (fun j other => ?_)
      (fun f _ _ => stays_of_dev isDev rfl rfl) (by simp) (fun _ _ isHeld => isHeld) fun _ => isDev
    · simp only [holding_cons, atG, holding_nil, if_true]
      simp only [State.goto, State.setCount, State.setSlot]
      omega
    · simp only [holding_cons, atG, Option.some.injEq, other.symm, if_false]
      rfl
  | truncate few noLinks allowed =>
    refine kept.goes [g] [.truncating i] _ at_ rfl rfl (fun j => ?_) (fun f j _ _ => .refl _) ?_ kept.held_dev
    · simp only [holding_cons, atG]
      rfl
    · intro f member
      rw [mem_singleton.mp member]
      exact isDev
  | write unlocked wrote =>
    rw [append_assoc]
    exact kept.write at_ wrote (f := .iputRepeat i) atG.symm isDev

variable (gs fs rest) in
theorem State.Kept.wait (last : Slot) (kept : s.Kept) (at_ : s.control p = gs ++ rest)
    (same : ∀ i, holding gs i = holding fs i) (fits : ∀ f ∈ fs, f.Fits s) :
    ({ s with lastInode := last }.goto p (fs ++ rest)).Kept := by
  refine kept.goes _ _ _ at_ rfl rfl (fun i => ?_) (fun f i _ _ => .refl _) (fun f member => ?_) kept.held_dev
  · rw [same i]
    rfl
  · exact (fits f member).stays fun i _ => .refl _

theorem State.Kept.alter {inode : Inode} (kept : s.Kept) (control : s'.control = s.control)
    (super : s'.super = s.super) (sameHeld : s'.held = s.held)
    (table : s'.table = update s.table i inode) (sameCount : inode.count = (s.table i).count)
    (stays : Stays (s.table i) inode) : s'.Kept := by
  have p : Pid := ⟨0, by decide⟩
  refine kept.slot (p := p) [] [] (s.control p) rfl ?_ super table ?_ (fun j _ => ?_)
    (fun f _ _ => stays) (by simp) (fun j _ isHeld => ?_) fun isHeld => ?_
  · rw [nil_append, update_eq_self, control]
  · rw [sameCount, sameHeld]
  · rw [sameHeld]
  · rwa [sameHeld] at isHeld
  · rw [sameHeld] at isHeld
    rw [stays.1]
    exact kept.held_dev i isHeld

theorem State.Kept.not_stray (kept : s.Kept) (at_ : s.control p = f :: rest)
    (impossible : (∃ i r, f = .readLock i r) ∨ (∃ i entered, f = .writeLock i entered) ∨
      (∃ r i, f = .scan r i ∧ (s.table i).lock = true) ∨
      ∃ i, f = .truncating i ∧ (s.table i).dev = 0) : False := by
  have fits := kept.fits_head at_
  rcases impossible with ⟨i, r, rfl⟩ | ⟨i, entered, rfl⟩ | ⟨r, i, rfl, locked⟩ | ⟨i, rfl, noDev⟩
  · exact fits
  · exact fits
  · rw [fits.1.2.1] at locked
    cases locked
  · exact fits noDev

theorem State.Kept.micro (kept : s.Kept) (micro : Micro policy s s') : s'.Kept := by
  cases micro with
  | @start p frame last idle begins =>
    refine kept.wait [] [frame] [] _ idle (fun i => ?_) fun f member => ?_
    · rcases begins with ⟨i, dev, num, -, rfl⟩ | ⟨-, i, dev, uid, gid, time, -, rfl⟩ | rfl <;> rfl
    · rw [mem_singleton.mp member]
      rcases begins with ⟨i, dev, num, isDev, rfl⟩ | ⟨-, i, dev, uid, gid, time, isDev, rfl⟩ | rfl
      · exact isDev
      · exact isDev
      · trivial
  | @iputStart p i idle isHeld =>
    refine kept.goes [] [.iputWait i] [] idle rfl rfl (fun j => ?_)
      (fun f j _ _ => .refl _) (fun f member => ?_) fun j isHeld' => ?_
    · simp only [State.goto, holding_cons, holding_nil, Frame.slot, Option.some.injEq]
      by_cases same : j = i
      · subst same
        rw [update_self, if_pos rfl]
        omega
      · rw [update_of_ne same, if_neg (Ne.symm same)]
    · rw [mem_singleton.mp member]
      trivial
    · refine kept.held_dev j ?_
      simp only [State.goto, update_apply] at isHeld'
      split at isHeld'
      · next same => rwa [same]
      · exact isHeld'
  | @wait p frame frames rest last at_ waits =>
    have fits := kept.fits_head at_
    refine kept.wait [frame] _ _ _ at_ (fun i => ?_) fun f member => ?_
    · cases waits <;> rfl
    · cases waits with
      | @emptyWait i j purpose =>
        rw [mem_singleton.mp member]
        cases purpose <;> exact fits
      | scan | scanWait =>
        rw [mem_singleton.mp member]
        exact fits
      | sync | noBit =>
        rw [mem_singleton.mp member]
        trivial
      | synced => cases member
  | @emptyWrite p i purpose t frames rest at_ unlocked wrote =>
    exact kept.write at_ wrote rfl (kept.fits_head at_)
  | syncWrite at_ unlocked wrote => exact kept.write at_ wrote rfl trivial
  | @fresh p i purpose rest at_ unlocked clean free =>
    have fits := kept.fits_head at_
    have isPrivate : ({ Inode.zero with count := 1 } : Inode).Private := ⟨rfl, rfl, rfl, rfl⟩
    have notHeld : s.held i = 0 := by
      have counted := kept.counted i
      omega
    refine kept.slot [.emptyWait i purpose] [purpose.next i] _ at_ rfl rfl rfl ?_
      (fun j other => ?_) (fun f elsewhere atSlot => ?_) (fun f member => ?_) (fun _ _ isHeld => isHeld)
      fun isHeld => absurd notHeld isHeld
    · cases purpose <;> simp [State.goto, State.setSlot, Frame.slot, Purpose.next, free] <;> omega
    · cases purpose <;> simp [State.goto, State.setSlot, Frame.slot, Purpose.next, other.symm]
    · obtain ⟨q, member⟩ := elsewhere.mem [.emptyWait i purpose] at_
      have one := one_reference member atSlot
      have counted := kept.counted i
      omega
    · rw [mem_singleton.mp member]
      cases purpose <;>
        simp only [Frame.Fits, Purpose.next, State.goto, State.setSlot, update_self] <;>
        exact ⟨isPrivate, fits⟩
  | @claim p r empty sb rest at_ missing allowed isSuper =>
    obtain ⟨isPrivate, isDev⟩ : (s.table empty).Private ∧ r.dev ≠ 0 := kept.fits_head at_
    refine kept.slot [.scan r empty] [.reading empty r r.dev (sb.blockOf r.num)] _ at_ rfl rfl
      rfl rfl (fun _ _ => rfl) (fun f elsewhere atSlot => ?_) (fun f member => ?_) (fun _ _ isHeld => isHeld)
      fun _ => isDev
    · have two := kept.count_two at_ rfl elsewhere atSlot
      have one := isPrivate.2.2.2
      omega
    · rw [mem_singleton.mp member]
      simp only [Frame.Fits, State.goto, State.setSlot, update_self]
      exact ⟨trivial, trivial, isDev⟩
  | @take p i r empty frames rest finds allowed goes =>
    obtain ⟨place, unlocked, sameDev, sameNum⟩ := finds
    obtain ⟨g, at_, atG, isPrivate, isDev⟩ : ∃ g, s.control p = g :: rest ∧ g.slot = some empty ∧
        (s.table empty).Private ∧ r.dev ≠ 0 := by
      rcases place with ⟨at_, -⟩ | at_
      · exact ⟨_, at_, rfl, kept.fits_head at_⟩
      · exact ⟨_, at_, rfl, kept.fits_head at_⟩
    rw [← sameDev] at isDev
    have other : i ≠ empty := by
      rintro rfl
      exact isDev isPrivate.1
    have slots (j : Slot) : holding frames j = (if empty = j then 1 else 0) + (if i = j then 1 else 0) := by
      cases goes <;> simp [Frame.slot, Nat.add_comm]
    refine kept.slot [g] frames _ at_ rfl rfl rfl ?_ (fun j away => ?_)
      (fun f _ _ => stays_of_dev isDev rfl rfl) (fun f member => ?_) (fun _ _ isHeld => isHeld) fun _ => isDev
    · rw [slots, holding_cons, atG, if_pos rfl]
      simp only [Option.some.injEq, holding_nil, State.goto, State.setCount, State.setSlot]
      omega
    · rw [slots, holding_cons, atG, if_neg away.symm]
      simp only [Option.some.injEq, holding_nil]
      rfl
    · have emptyStays : ((s.setCount i ((s.table i).count + 1)).goto p (frames ++ rest)).table empty =
          s.table empty := update_of_ne other.symm _ _
      have here : ((s.setCount i ((s.table i).count + 1)).goto p (frames ++ rest)).table i =
          { s.table i with count := (s.table i).count + 1 } := update_self ..
      cases goes with
      | got =>
        simp only [mem_cons, not_mem_nil, or_false] at member
        rcases member with rfl | rfl
        · trivial
        · simp only [Frame.Fits, here]
          exact ⟨sameDev, sameNum, sameDev ▸ isDev⟩
      | mounted isMount isSuper =>
        simp only [mem_cons, not_mem_nil, or_false] at member
        rcases member with rfl | rfl
        · trivial
        · simp only [Frame.Fits, emptyStays]
          obtain ⟨k, isOn, rfl⟩ := Option.map_eq_some_iff.mp isSuper
          have isOn := find?_some isOn
          exact ⟨isPrivate, kept.mount_dev k i (by simpa using isOn)⟩
  | @load p i r dev block rest at_ =>
    obtain ⟨sameDev, sameNum, isDev⟩ := kept.fits_head at_
    have isDev' : (s.table i).dev ≠ 0 := by rwa [sameDev]
    refine kept.slot [.reading i r dev block] [.got i r] _ at_ rfl rfl rfl rfl
      (fun _ _ => rfl) (fun f _ _ => stays_of_dev isDev' rfl rfl) (fun f member => ?_)
      (fun _ _ isHeld => isHeld) fun _ => isDev'
    rw [mem_singleton.mp member]
    simp only [Frame.Fits, State.goto, State.load, State.setSlot, update_self]
    exact ⟨sameDev, sameNum, isDev⟩
  | @got p i r rest at_ =>
    obtain ⟨sameDev, sameNum, isDev⟩ := kept.fits_head at_
    refine kept.goes [.got i r] [] _ at_ rfl rfl (fun j => ?_) (fun f j _ _ => .refl _) (by simp) fun j isHeld => ?_
    · simp only [State.goto, holding_cons, holding_nil, Frame.slot, Option.some.injEq]
      by_cases same : j = i
      · subst same
        rw [update_self, if_pos rfl]
        omega
      · rw [update_of_ne same, if_neg (Ne.symm same)]
    · simp only [State.goto, update_apply] at isHeld ⊢
      split at isHeld
      · next same =>
        rw [same, sameDev]
        exact isDev
      · exact kept.held_dev j isHeld
  | @newBit p empty dev uid gid time j sb rest at_ isSuper isFree =>
    obtain ⟨isPrivate, isDev⟩ : (s.table empty).Private ∧ dev ≠ 0 := kept.fits_head at_
    refine kept.slot [.newBit empty dev uid gid time] [] _ at_ rfl rfl rfl ?_
      (fun k other => ?_) (fun f elsewhere atSlot => ?_) (by simp) (fun k other isHeld => ?_) fun _ => isDev
    · simp only [State.goto, holding_cons, holding_nil, Frame.slot, update_self, if_true,
        isPrivate.2.2.2]
      omega
    · simp only [State.goto, holding_cons, holding_nil, Frame.slot, update_of_ne other,
        Option.some.injEq, other.symm, if_false]
    · have two := kept.count_two at_ rfl elsewhere atSlot
      have one := isPrivate.2.2.2
      omega
    · simpa only [State.goto, update_of_ne other] using isHeld
  | @iput p i t frames rest at_ unlocked goes =>
    have held := kept.count_pos at_ rfl
    cases goes with
    | drop noDev =>
      have notHeld : s.held i = 0 := by
        by_contra isHeld
        exact kept.held_dev i isHeld noDev
      refine kept.slot [.iputWait i] [] _ at_ rfl rfl rfl ?_ (fun j other => ?_)
        (fun f elsewhere atSlot => ?_) (by simp) (fun _ _ isHeld => isHeld)
        fun isHeld => absurd notHeld isHeld
      · simp only [holding_cons, holding_nil, Frame.slot, if_true, State.goto, State.setCount, State.setSlot]
        omega
      · simp only [holding_cons, holding_nil, Frame.slot, Option.some.injEq, other.symm, if_false]
        rfl
      · have two := kept.count_two at_ rfl elsewhere atSlot
        exact stays_of_count (by omega) rfl rfl
    | sync isDev =>
      refine kept.wait [.iputWait i] [.syncing 0, .iputRepeat i] _ s.lastInode at_ (fun j => ?_) fun f member => ?_
      · simp [Frame.slot]
      · simp only [mem_cons, not_mem_nil, or_false] at member
        rcases member with rfl | rfl
        · trivial
        · exact isDev
    | tail isDev goes => exact kept.tail at_ rfl isDev goes
  | iputRepeat at_ unlocked goes => exact kept.tail at_ rfl (kept.fits_head at_) goes
  | @free p i rest at_ allowed isDev few =>
    have held := kept.count_pos at_ rfl
    have counted := kept.counted i
    have one := one_reference (s := s) (p := p) (f := .truncating i) (by rw [at_]; exact mem_cons_self) rfl
    have notHeld : s.held i = 0 := by omega
    refine kept.slot [.truncating i] [] _ at_ rfl rfl rfl ?_ (fun j other => ?_)
      (fun f elsewhere atSlot => ?_) (by simp) (fun _ _ isHeld => isHeld) fun isHeld => absurd notHeld isHeld
    · simp only [holding_cons, holding_nil, Frame.slot, if_true, State.goto, State.setSlot, State.setBit,
        Inode.zero]
      omega
    · simp only [holding_cons, holding_nil, Frame.slot, Option.some.injEq, other.symm, if_false]
      rfl
    · have two := kept.count_two at_ rfl elsewhere atSlot
      omega
  | @save p i entered dev block rest at_ =>
    have stays : Stays (s.table i) { s.table i with dirt := false, lock := false } :=
      ⟨rfl, rfl, fun isPrivate => ⟨isPrivate.1, rfl, rfl, isPrivate.2.2.2⟩⟩
    exact kept.slot [.writing i entered dev block] [] _ at_ rfl rfl rfl rfl (fun _ _ => rfl)
      (fun f _ _ => stays) (by simp) (fun _ _ isHeld => isHeld) fun isHeld => kept.held_dev i isHeld
  | @cut p i zone dirt rest at_ =>
    exact kept.alter rfl rfl rfl rfl rfl (stays_of_dev (kept.fits_head at_) rfl rfl)
  | @modify i data isHeld allowed =>
    exact kept.alter rfl rfl rfl rfl rfl (stays_of_dev (kept.held_dev i isHeld) rfl rfl)
  | stray at_ impossible => exact (kept.not_stray at_ impossible).elim

theorem invariant_of_micro {P : State → Prop} {m : Move}
    (micro : ∀ {t t' : State}, P t → Micro policy t t' → P t') (allowed : policy.Allows s m)
    (moved : s.step m = some s') (holds : P s) : P s' := by
  have steps := step_micro allowed moved
  clear moved
  induction steps with
  | refl => exact holds
  | tail _ last ih => exact micro ih last

end Kept

structure State.Quiet (s : State) : Prop where
  idle : ∀ p, s.control p = []
  counted : ∀ i, (s.table i).count = s.held i + s.pins i
  held_dev : ∀ i, s.held i ≠ 0 → (s.table i).dev ≠ 0
  mount_dev : ∀ k i, (s.super k).imount = some i → (s.super k).dev ≠ 0

theorem State.Quiet.no_marks {s : State} (quiet : s.Quiet) (mark : Frame → Option Slot) (i : Slot) :
    s.marked mark i = 0 := by
  unfold State.marked
  refine Finset.sum_eq_zero fun p _ => ?_
  rw [quiet.idle p, marks_nil]

theorem State.Quiet.kept {s : State} (quiet : s.Quiet) : s.Kept where
  counted i := by
    have none : s.references i = 0 := quiet.no_marks _ i
    rw [quiet.counted i, none, Nat.add_zero]
  fits p f member := by
    rw [quiet.idle p] at member
    cases member
  held_dev := quiet.held_dev
  mount_dev := quiet.mount_dev

def Slot.ofNat (i : Nat) : Slot := ⟨i % NR_INODE, Nat.mod_lt i (by decide)⟩

def Pid.ofNat (p : Nat) : Pid := ⟨p % NR_TASKS, Nat.mod_lt p (by decide)⟩

def sampleData : DInode := { DInode.zero with mode := 0o100644, nlinks := 1 }

def sampleTable : State where
  super k :=
    { dev := if k.val = 0 then 1 else 0, imount := none, isup := none, imapBlocks := 1, zmapBlocks := 1
      ninodes := 100 }
  blkSize _ := 0
  table i :=
    if i.val = 0 then
      { Inode.zero with data := sampleData, dev := 1, num := 2, count := 1, loaded := true }
    else .zero
  lastInode := .ofNat 0
  disk _ _ _ := sampleData
  imap dev num := dev = 1 ∧ num ≤ 2
  held i := if i.val = 0 then 1 else 0
  control _ := []

theorem sampleTable_dev {i : Slot} (isDev : (sampleTable.table i).dev ≠ 0) : i.val = 0 := by
  by_contra notFirst
  simp [sampleTable, notFirst, Inode.zero] at isDev

theorem sampleTable_quiet : sampleTable.Quiet where
  idle _ := rfl
  counted i := by
    have noPins : sampleTable.pins i = 0 := by
      unfold State.pins
      rw [number_eq_zero.mpr fun _ => rfl, number_eq_zero.mpr fun _ => rfl]
    rw [noPins]
    simp only [sampleTable]
    split <;> rfl
  held_dev i isHeld := by
    simp only [sampleTable] at isHeld ⊢
    split at isHeld
    · next first => simp [first]
    · exact absurd rfl isHeld
  mount_dev k i isMount := by cases isMount

end Linux012.Fs.InodeTable

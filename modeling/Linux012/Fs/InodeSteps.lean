import Linux012.Fs.InodeTable
import Mathlib.Logic.Relation

/-! What the steps of the inode table do, in single changes of a slot. -/

set_option autoImplicit false

namespace Linux012.Fs.InodeTable

open Transition Relation Function

structure Policy where
  claim : State → Request → Prop
  take : State → Slot → Prop
  free : State → Slot → Prop
  truncate : Nat → Bool → DInode → Prop
  newInode : Prop
  modify : DInode → Prop

def Policy.all : Policy where
  claim _ _ := True
  take _ _ := True
  free _ _ := True
  truncate _ _ _ := True
  newInode := True
  modify _ := True

def State.Finds (s : State) (p : Pid) (i : Slot) (r : Request) (empty : Slot) (rest : List Frame) : Prop :=
  (s.control p = .scan r empty :: rest ∧ s.findInode r.dev r.num = some i ∨
      s.control p = .scanWait i r empty :: rest) ∧
    (s.table i).lock = false ∧ (s.table i).dev = r.dev ∧ (s.table i).num = r.num

structure Policy.Allows (policy : Policy) (s : State) (m : Move) : Prop where
  claim : ∀ p r empty rest, m = .run p → s.control p = .scan r empty :: rest →
    s.findInode r.dev r.num = none → policy.claim s r
  take : ∀ p i r empty rest, m = .run p → s.Finds p i r empty rest → policy.take s i
  free : ∀ p i rest, m = .run p → s.control p = .truncating i :: rest → policy.free s i
  truncate : ∀ i, policy.truncate (s.table i).dev (s.table i).loaded (s.table i).data
  newInode : ∀ p dev uid gid time, m = .newInode p dev uid gid time → policy.newInode
  modify : ∀ i data, m = .modify i data → policy.modify data

def State.goto (s : State) (p : Pid) (frames : List Frame) : State :=
  { s with control := update s.control p frames }

inductive WriteGo (s : State) (i : Slot) : State → List Frame → Prop where
  | clean : (s.table i).dirt = false ∨ (s.table i).dev = 0 → WriteGo s i s []
  | write {sb : Super} : (s.table i).dirt = true → (s.table i).dev ≠ 0 →
      s.getSuper (s.table i).dev = some sb →
      WriteGo s i (s.setLock i true)
        [.writing i ((s.table i).dev, (s.table i).num) (s.table i).dev (sb.blockOf (s.table i).num)]

inductive TailGo (policy : Policy) (s : State) (i : Slot) : State → List Frame → Prop where
  | drop : TailGo policy s i (s.setCount i ((s.table i).count - 1)) []
  | truncate : ¬(s.table i).count > 1 → (s.table i).data.nlinks = 0 →
      policy.truncate (s.table i).dev (s.table i).loaded (s.table i).data →
      TailGo policy s i s [.truncating i]
  | write {t : State} {frames : List Frame} : (s.table i).lock = false → WriteGo s i t frames →
      TailGo policy s i t (frames ++ [.iputRepeat i])

inductive IputGo (policy : Policy) (s : State) (i : Slot) : State → List Frame → Prop where
  | drop : (s.table i).dev = 0 → IputGo policy s i (s.setCount i ((s.table i).count - 1)) []
  | sync : (s.table i).dev ≠ 0 → IputGo policy s i s [.syncing 0, .iputRepeat i]
  | tail {t : State} {frames : List Frame} : (s.table i).dev ≠ 0 → TailGo policy s i t frames →
      IputGo policy s i t frames

inductive WaitGo (s : State) : Frame → List Frame → Prop where
  | emptyWait {i j : Slot} {purpose : Purpose} :
      WaitGo s (.emptyWait i purpose) [.emptyWait j purpose]
  | scan {i empty : Slot} {r : Request} : WaitGo s (.scan r empty) [.scanWait i r empty]
  | scanWait {i empty : Slot} {r : Request} : WaitGo s (.scanWait i r empty) [.scan r empty]
  | sync {k : Nat} : WaitGo s (.syncing k) [.syncing (k + 1)]
  | synced {k : Nat} : WaitGo s (.syncing k) []
  | noBit {empty : Slot} {dev uid gid time : Nat} :
      WaitGo s (.newBit empty dev uid gid time) [.iputWait empty]

inductive TakeGo (s : State) (i : Slot) (r : Request) (empty : Slot) : List Frame → Prop where
  | got : (s.table i).mount = false ∨ s.superOn i = none → TakeGo s i r empty [.iputWait empty, .got i r]
  | mounted {sb : Super} : (s.table i).mount = true → s.superOn i = some sb →
      TakeGo s i r empty [.iputWait i, .scan { r with dev := sb.dev, num := ROOT_INO } empty]

inductive Micro (policy : Policy) (s : State) : State → Prop where
  | start {p : Pid} {frame : Frame} {last : Slot} : s.control p = [] →
      ((∃ i dev num, dev ≠ 0 ∧ frame = .emptyWait i (.iget ⟨dev, num, (dev, num)⟩)) ∨
        (policy.newInode ∧ ∃ i dev uid gid time, dev ≠ 0 ∧
          frame = .emptyWait i (.newInode dev uid gid time)) ∨ frame = .syncing 0) →
      Micro policy s ({ s with lastInode := last }.goto p [frame])
  | iputStart {p : Pid} {i : Slot} : s.control p = [] → s.held i ≠ 0 →
      Micro policy s ({ s with held := update s.held i (s.held i - 1) }.goto p [.iputWait i])
  | wait {p : Pid} {frame : Frame} {frames rest : List Frame} {last : Slot} :
      s.control p = frame :: rest → WaitGo s frame frames →
      Micro policy s ({ s with lastInode := last }.goto p (frames ++ rest))
  | emptyWrite {p : Pid} {i : Slot} {purpose : Purpose} {t : State} {frames rest : List Frame} :
      s.control p = .emptyWait i purpose :: rest → (s.table i).lock = false → WriteGo s i t frames →
      Micro policy s (t.goto p (frames ++ .emptyWait i purpose :: rest))
  | syncWrite {p : Pid} {k : Nat} {i : Slot} {t : State} {frames rest : List Frame} :
      s.control p = .syncing k :: rest → (s.table i).lock = false → WriteGo s i t frames →
      Micro policy s (t.goto p (frames ++ .syncing (k + 1) :: rest))
  | fresh {p : Pid} {i : Slot} {purpose : Purpose} {rest : List Frame} :
      s.control p = .emptyWait i purpose :: rest → (s.table i).lock = false → (s.table i).dirt = false →
      (s.table i).count = 0 →
      Micro policy s ((s.setSlot i { Inode.zero with count := 1 }).goto p (purpose.next i :: rest))
  | claim {p : Pid} {r : Request} {empty : Slot} {sb : Super} {rest : List Frame} :
      s.control p = .scan r empty :: rest → s.findInode r.dev r.num = none → policy.claim s r →
      s.getSuper r.dev = some sb →
      Micro policy s ((s.setSlot empty { s.table empty with dev := r.dev, num := r.num, lock := true }).goto p
        (.reading empty r r.dev (sb.blockOf r.num) :: rest))
  | take {p : Pid} {i : Slot} {r : Request} {empty : Slot} {frames rest : List Frame} :
      s.Finds p i r empty rest → policy.take s i → TakeGo s i r empty frames →
      Micro policy s ((s.setCount i ((s.table i).count + 1)).goto p (frames ++ rest))
  | load {p : Pid} {i : Slot} {r : Request} {dev block : Nat} {rest : List Frame} :
      s.control p = .reading i r dev block :: rest →
      Micro policy s ((s.load i dev block).goto p (.got i r :: rest))
  | got {p : Pid} {i : Slot} {r : Request} {rest : List Frame} : s.control p = .got i r :: rest →
      Micro policy s ({ s with held := update s.held i (s.held i + 1) }.goto p rest)
  | newBit {p : Pid} {empty : Slot} {dev uid gid time j : Nat} {sb : Super} {rest : List Frame} :
      s.control p = .newBit empty dev uid gid time :: rest → s.getSuper dev = some sb →
      s.firstZero dev sb = some j →
      Micro policy s ({ (s.setBit dev j true).setSlot empty
          { s.table empty with
            data := { (s.table empty).data with nlinks := 1, uid := uid, gid := gid, mtime := time }
            dev := dev, num := j, count := 1, dirt := true, loaded := true } with
        held := update s.held empty (s.held empty + 1) }.goto p rest)
  | iput {p : Pid} {i : Slot} {t : State} {frames rest : List Frame} : s.control p = .iputWait i :: rest →
      (s.table i).lock = false → IputGo policy s i t frames → Micro policy s (t.goto p (frames ++ rest))
  | iputRepeat {p : Pid} {i : Slot} {t : State} {frames rest : List Frame} :
      s.control p = .iputRepeat i :: rest → (s.table i).lock = false → TailGo policy s i t frames →
      Micro policy s (t.goto p (frames ++ rest))
  | free {p : Pid} {i : Slot} {rest : List Frame} : s.control p = .truncating i :: rest → policy.free s i →
      (s.table i).dev ≠ 0 → ¬(s.table i).count > 1 →
      Micro policy s (((s.setBit (s.table i).dev (s.table i).num false).setSlot i .zero).goto p rest)
  | save {p : Pid} {i : Slot} {entered : Nat × Nat} {dev block : Nat} {rest : List Frame} :
      s.control p = .writing i entered dev block :: rest →
      Micro policy s ((s.save i dev block).goto p rest)
  | cut {p : Pid} {i : Slot} {zone : Fin 9 → Nat} {dirt : Bool} {rest : List Frame} :
      s.control p = .truncating i :: rest →
      Micro policy s (s.setSlot i
        { s.table i with data := { (s.table i).data with zone := zone }, dirt := dirt })
  | modify {i : Slot} {data : DInode} : s.held i ≠ 0 → policy.modify data →
      Micro policy s (s.setSlot i { s.table i with data := data, dirt := true })
  | stray {p : Pid} {frame : Frame} {rest : List Frame} {t : State} : s.control p = frame :: rest →
      ((∃ i r, frame = .readLock i r) ∨ (∃ i entered, frame = .writeLock i entered) ∨
        (∃ r i, frame = .scan r i ∧ (s.table i).lock = true) ∨
        ∃ i, frame = .truncating i ∧ (s.table i).dev = 0) →
      Micro policy s t

section Steps

variable {policy : Policy} {s s' t : State} {p : Pid} {i : Slot} {frames rest : List Frame} {m : Move}

variable {frame : Frame}

theorem Micro.stay (at_ : s.control p = frame :: rest) (go : WaitGo s frame frames) :
    Micro policy s (s.goto p (frames ++ rest)) :=
  @Micro.wait policy s p frame frames rest s.lastInode at_ go

theorem resume_eq {ran : Ran} (resumed : State.resume p rest ran = some s') :
    ∃ t frames, ran = some (t, frames) ∧ s' = t.goto p (frames ++ rest) := by
  obtain ⟨⟨t, frames⟩, isRan, rfl⟩ := Option.map_eq_some_iff.mp resumed
  exact ⟨t, frames, isRan, rfl⟩

theorem then_eq {ran : Ran} (isRan : ran.then frame = some (t, frames)) :
    ∃ before, ran = some (t, before) ∧ frames = before ++ [frame] := by
  obtain ⟨⟨u, before⟩, first, same⟩ := Option.map_eq_some_iff.mp isRan
  simp only [Prod.mk.injEq] at same
  obtain ⟨rfl, rfl⟩ := same
  exact ⟨before, first, rfl⟩

theorem goto_goto (s : State) (p : Pid) (frames frames' : List Frame) :
    (s.goto p frames).goto p frames' = s.goto p frames' := by
  simp only [State.goto, update_idem]

theorem goto_control (s : State) (p : Pid) (frames : List Frame) : (s.goto p frames).control p = frames :=
  update_self ..

theorem writeLocked_go {entered : Nat × Nat} (same : entered = ((s.table i).dev, (s.table i).num))
    (ran : s.writeLocked i entered = some (t, frames)) : WriteGo s i t frames := by
  subst same
  unfold State.writeLocked at ran
  split at ran
  · next clean =>
    cases ran
    exact .clean clean
  · next busy =>
    obtain ⟨sb, isSuper, same⟩ := Option.map_eq_some_iff.mp ran
    cases same
    rw [not_or, Bool.not_eq_false] at busy
    exact .write busy.1 busy.2 isSuper

theorem writeInode_go (unlocked : (s.table i).lock = false) (ran : s.writeInode i = some (t, frames)) :
    WriteGo s i t frames := by
  simp only [State.writeInode, unlocked, Bool.false_eq_true, if_false] at ran
  exact writeLocked_go rfl ran

theorem iputTail_go (allowed : policy.truncate (s.table i).dev (s.table i).loaded (s.table i).data)
    (unlocked : (s.table i).lock = false) (ran : s.iputTail i = some (t, frames)) :
    TailGo policy s i t frames := by
  unfold State.iputTail at ran
  simp only at ran
  split at ran
  · cases ran
    exact .drop
  · next few =>
    split at ran
    · next noLinks =>
      cases ran
      exact .truncate few noLinks allowed
    · split at ran
      · obtain ⟨before, wrote, rfl⟩ := then_eq ran
        exact .write unlocked (writeInode_go unlocked wrote)
      · cases ran
        exact .drop

theorem iputBody_go (allowed : policy.truncate (s.table i).dev (s.table i).loaded (s.table i).data)
    (unlocked : (s.table i).lock = false) (ran : s.iputBody i = some (t, frames)) :
    IputGo policy s i t frames := by
  unfold State.iputBody at ran
  simp only at ran
  split at ran
  · cases ran
  · split at ran
    · next noDev =>
      cases ran
      exact .drop noDev
    · next isDev =>
      split at ran
      · cases ran
        exact .sync isDev
      · exact .tail isDev (iputTail_go allowed unlocked ran)

theorem WriteGo.goto (go : WriteGo s i t frames) (p : Pid) (waits : List Frame) :
    WriteGo (s.goto p waits) i (t.goto p waits) frames := by
  cases go with
  | clean clean => exact .clean clean
  | write dirty isDev isSuper => exact .write dirty isDev isSuper

theorem TailGo.goto (go : TailGo policy s i t frames) (p : Pid) (waits : List Frame) :
    TailGo policy (s.goto p waits) i (t.goto p waits) frames := by
  cases go with
  | drop => exact .drop
  | truncate few noLinks allowed => exact .truncate few noLinks allowed
  | write unlocked wrote => exact .write unlocked (wrote.goto p waits)

theorem IputGo.goto (go : IputGo policy s i t frames) (p : Pid) (waits : List Frame) :
    IputGo policy (s.goto p waits) i (t.goto p waits) frames := by
  cases go with
  | drop noDev => exact .drop noDev
  | sync isDev => exact .sync isDev
  | tail isDev tail => exact .tail isDev (tail.goto p waits)

theorem iput_micro (allowed : policy.truncate (s.table i).dev (s.table i).loaded (s.table i).data)
    (ran : s.iput i = some (t, frames)) :
    ReflTransGen (Micro policy) (s.goto p (.iputWait i :: rest)) (t.goto p (frames ++ rest)) := by
  unfold State.iput at ran
  split at ran
  · cases ran
    exact .refl
  · next unlocked =>
    replace unlocked := Bool.eq_false_iff.mpr unlocked
    have go := (iputBody_go allowed unlocked ran).goto p (.iputWait i :: rest)
    have micro := Micro.iput (goto_control s p _) unlocked go
    rw [goto_goto] at micro
    exact .single micro

theorem found_micro {r : Request} {empty : Slot} (allowed : policy.Allows s (.run p))
    (finds : s.Finds p i r empty rest) (ran : s.found i r empty = some (t, frames)) :
    ReflTransGen (Micro policy) s (t.goto p (frames ++ rest)) := by
  have taken := allowed.take p i r empty rest rfl finds
  have truncates (j : Slot) : policy.truncate ((s.setCount i ((s.table i).count + 1)).table j).dev
      ((s.setCount i ((s.table i).count + 1)).table j).loaded
      ((s.setCount i ((s.table i).count + 1)).table j).data := by
    simp only [State.setCount, State.setSlot, update_apply]
    split
    · next same =>
      subst same
      exact allowed.truncate j
    · exact allowed.truncate j
  have sameMount : ((s.setCount i ((s.table i).count + 1)).table i).mount = (s.table i).mount := by
    simp only [State.setCount, State.setSlot, update_self]
  have sameSuper : (s.setCount i ((s.table i).count + 1)).superOn i = s.superOn i := rfl
  unfold State.found at ran
  simp only [sameMount, sameSuper] at ran
  have viaEmpty (go : TakeGo s i r empty [.iputWait empty, .got i r])
      (ran : Ran.then ((s.setCount i ((s.table i).count + 1)).iput empty) (.got i r) = some (t, frames)) :
      ReflTransGen (Micro policy) s (t.goto p (frames ++ rest)) := by
    obtain ⟨before, iput, rfl⟩ := then_eq ran
    rw [List.append_assoc]
    exact .head (.take finds taken go) (iput_micro (truncates empty) iput)
  split at ran
  · next isMount =>
    split at ran
    · next noSuper => exact viaEmpty (.got (.inr noSuper)) ran
    · next sb isSuper =>
      obtain ⟨before, iput, rfl⟩ := then_eq ran
      rw [List.append_assoc]
      exact .head (.take finds taken (.mounted isMount isSuper)) (iput_micro (truncates i) iput)
  · next notMount => exact viaEmpty (.got (.inl (Bool.eq_false_iff.mpr notMount))) ran

theorem getEmptyInode_frames {purpose : Purpose} (ran : s.getEmptyInode purpose = some (t, frames)) :
    ∃ last i, t = { s with lastInode := last } ∧ frames = [.emptyWait i purpose] := by
  unfold State.getEmptyInode at ran
  split at ran
  · cases ran
  · next last i picked =>
    cases ran
    exact ⟨last, i, rfl, rfl⟩

theorem findInode_eq {dev num : Nat} (found : s.findInode dev num = some i) :
    (s.table i).dev = dev ∧ (s.table i).num = num := by
  have holds := List.find?_some found
  simpa using holds

theorem findInode_none {dev num : Nat} (missing : s.findInode dev num = none) (i : Slot) :
    ¬((s.table i).dev = dev ∧ (s.table i).num = num) := by
  have misses := List.find?_eq_none.mp missing i (List.mem_finRange i)
  simpa using misses

theorem run_micro (allowed : policy.Allows s (.run p)) (at_ : s.control p = frame :: rest)
    (ran : s.run frame = some (t, frames)) : ReflTransGen (Micro policy) s (t.goto p (frames ++ rest)) := by
  cases frame with
  | emptyWait i purpose =>
    simp only [State.run] at ran
    split at ran
    · cases ran
    · next unlocked =>
      replace unlocked := Bool.eq_false_iff.mpr unlocked
      split at ran
      · obtain ⟨before, wrote, rfl⟩ := then_eq ran
        rw [List.append_assoc]
        exact .single (.emptyWrite at_ unlocked (writeInode_go unlocked wrote))
      · next clean =>
        split at ran
        · obtain ⟨last, j, rfl, rfl⟩ := getEmptyInode_frames ran
          exact .single (.wait at_ .emptyWait)
        · next free =>
          cases ran
          exact .single (.fresh at_ unlocked (Bool.eq_false_iff.mpr clean) (not_not.mp free))
  | scan r empty =>
    simp only [State.run] at ran
    split at ran
    · next missing =>
      unfold State.readInode at ran
      split at ran
      · next locked =>
        refine .single (.stray at_ (.inr (.inr (.inl ⟨r, empty, rfl, ?_⟩))))
        simpa only [State.claim, State.setSlot, update_self] using locked
      · obtain ⟨sb, isSuper, same⟩ := Option.map_eq_some_iff.mp ran
        cases same
        simp only [State.claim, State.setSlot, update_self] at isSuper
        have micro := Micro.claim at_ missing (allowed.claim p r empty rest rfl at_ missing) isSuper
        have same : (s.claim r empty).setLock empty true =
            s.setSlot empty { s.table empty with dev := r.dev, num := r.num, lock := true } := by
          simp only [State.claim, State.setLock, State.setSlot, update_self, update_idem]
        rw [same]
        simp only [State.claim, State.setSlot, update_self]
        exact .single micro
    · next i found =>
      split at ran
      · cases ran
        exact .single (.stay at_ .scan)
      · next unlocked =>
        obtain ⟨sameDev, sameNum⟩ := findInode_eq found
        exact found_micro allowed ⟨.inl ⟨at_, found⟩, Bool.eq_false_iff.mpr unlocked, sameDev, sameNum⟩ ran
  | scanWait i r empty =>
    simp only [State.run] at ran
    split at ran
    · cases ran
    · next unlocked =>
      split at ran
      · cases ran
        exact .single (.stay at_ .scanWait)
      · next same =>
        rw [not_or, not_not, not_not] at same
        exact found_micro allowed ⟨.inr at_, Bool.eq_false_iff.mpr unlocked, same.1, same.2⟩ ran
  | readLock i r => exact .single (.stray at_ (.inl ⟨i, r, rfl⟩))
  | reading i r dev block =>
    cases ran
    exact .single (.load at_)
  | got i r =>
    cases ran
    exact .single (.got at_)
  | newBit empty dev uid gid time =>
    obtain ⟨sb, isSuper, ran⟩ := Option.bind_eq_some_iff.mp ran
    split at ran
    · have wait : Micro policy s (s.goto p (.iputWait empty :: rest)) :=
        .stay at_ .noBit
      exact .head wait (iput_micro (allowed.truncate empty) ran)
    · next j isFree =>
      cases ran
      rw [Option.filter_eq_some_iff] at isFree
      exact .single (.newBit at_ isSuper isFree.1)
  | iputWait i =>
    simp only [State.run] at ran
    split at ran
    · cases ran
    · next unlocked =>
      replace unlocked := Bool.eq_false_iff.mpr unlocked
      exact .single (.iput at_ unlocked (iputBody_go (allowed.truncate i) unlocked ran))
  | iputRepeat i =>
    simp only [State.run] at ran
    split at ran
    · cases ran
    · next unlocked =>
      replace unlocked := Bool.eq_false_iff.mpr unlocked
      exact .single (.iputRepeat at_ unlocked (iputTail_go (allowed.truncate i) unlocked ran))
  | truncating i =>
    simp only [State.run, State.freeInode] at ran
    split at ran
    · next noDev => exact .single (.stray at_ (.inr (.inr (.inr ⟨i, rfl, noDev⟩))))
    · next isDev =>
      split at ran
      · cases ran
      · next few =>
        split at ran
        · cases ran
        · obtain ⟨sb, isSuper, ran⟩ := Option.bind_eq_some_iff.mp ran
          split at ran
          · cases ran
          · cases ran
            exact .single (.free at_ (allowed.free p i rest rfl at_) isDev few)
  | syncing k =>
    simp only [State.run] at ran
    split at ran
    · next below =>
      split at ran
      · cases ran
      · next unlocked =>
        have unlocked := Bool.eq_false_iff.mpr unlocked
        split at ran
        · obtain ⟨before, wrote, rfl⟩ := then_eq ran
          rw [List.append_assoc]
          exact .single (.syncWrite at_ unlocked (writeInode_go unlocked wrote))
        · cases ran
          exact .single (.stay at_ .sync)
    · cases ran
      exact .single (.stay at_ .synced)
  | writeLock i entered => exact .single (.stray at_ (.inr (.inl ⟨i, entered, rfl⟩)))
  | writing i entered dev block =>
    cases ran
    exact .single (.save at_)

theorem step_micro (allowed : policy.Allows s m) (moved : s.step m = some s') :
    ReflTransGen (Micro policy) s s' := by
  cases m with
  | iget p dev num =>
    simp only [State.step] at moved
    split at moved
    · next ready =>
      obtain ⟨t, frames, ran, rfl⟩ := resume_eq moved
      obtain ⟨last, i, rfl, rfl⟩ := getEmptyInode_frames ran
      exact .single (.start ready.1 (.inl ⟨i, dev, num, ready.2, rfl⟩))
    · cases moved
  | iput p i =>
    simp only [State.step] at moved
    split at moved
    · next ready =>
      obtain ⟨t, frames, ran, rfl⟩ := resume_eq moved
      exact .head (.iputStart ready.1 ready.2) (iput_micro (allowed.truncate i) ran)
    · cases moved
  | newInode p dev uid gid time =>
    simp only [State.step] at moved
    split at moved
    · next ready =>
      obtain ⟨t, frames, ran, rfl⟩ := resume_eq moved
      obtain ⟨last, i, rfl, rfl⟩ := getEmptyInode_frames ran
      have isAllowed := allowed.newInode p dev uid gid time rfl
      exact .single (.start ready.1 (.inr (.inl ⟨isAllowed, i, dev, uid, gid, time, ready.2, rfl⟩)))
    · cases moved
  | sync p =>
    simp only [State.step] at moved
    split at moved
    · next ready =>
      cases moved
      exact .single (@Micro.start policy s _ _ s.lastInode ready (.inr (.inr rfl)))
    · cases moved
  | run p =>
    simp only [State.step] at moved
    split at moved
    · cases moved
    · next frame rest at_ =>
      obtain ⟨t, frames, ran, rfl⟩ := resume_eq moved
      exact run_micro allowed at_ ran
  | cut p k =>
    simp only [State.step] at moved
    split at moved
    · next i rest at_ =>
      cases moved
      exact .single (.cut at_)
    · cases moved
  | pass p =>
    simp only [State.step] at moved
    split at moved
    · next i rest at_ =>
      cases moved
      exact .single (@Micro.cut policy s _ i (s.table i).data.zone _ rest at_)
    · cases moved
  | modify i data =>
    simp only [State.step] at moved
    split at moved
    · next isHeld =>
      cases moved
      exact .single (.modify isHeld (allowed.modify i data rfl))
    · cases moved

end Steps

end Linux012.Fs.InodeTable

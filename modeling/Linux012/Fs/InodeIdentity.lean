import Linux012.Fs.InodeReferences

/-! Which inode a slot of the table stands for: two slots never stand for the same
one, and its bit in the inode map is set, as long as `iget` claims slots for
allocated inodes only. -/

set_option autoImplicit false

namespace Linux012.Fs.InodeTable

open Transition Relation Function

def SameInode (old new : Inode) : Prop :=
  new.dev = old.dev ∧ new.num = old.num ∧ new.mount = old.mount ∧ new.data = old.data ∧
    new.loaded = old.loaded

theorem SameInode.refl (inode : Inode) : SameInode inode inode := ⟨rfl, rfl, rfl, rfl, rfl⟩

structure SameInodes (s t : State) : Prop where
  table : ∀ i, SameInode (s.table i) (t.table i)
  imap : t.imap = s.imap
  disk : t.disk = s.disk
  super : t.super = s.super
  control : t.control = s.control
  held : t.held = s.held

section Same

variable {policy : Policy} {s t : State} {i : Slot} {frames : List Frame}

theorem SameInodes.refl (s : State) : SameInodes s s := ⟨fun _ => .refl _, rfl, rfl, rfl, rfl, rfl⟩

theorem sameInodes_setSlot {inode : Inode} (same : SameInode (s.table i) inode) :
    SameInodes s (s.setSlot i inode) := by
  refine ⟨fun j => ?_, rfl, rfl, rfl, rfl, rfl⟩
  simp only [State.setSlot, update_apply]
  split
  · next here =>
    rw [here]
    exact same
  · exact .refl _

theorem WriteGo.same (go : WriteGo s i t frames) : SameInodes s t := by
  cases go with
  | clean => exact .refl s
  | write => exact sameInodes_setSlot ⟨rfl, rfl, rfl, rfl, rfl⟩

theorem TailGo.same (go : TailGo policy s i t frames) : SameInodes s t := by
  cases go with
  | drop => exact sameInodes_setSlot ⟨rfl, rfl, rfl, rfl, rfl⟩
  | truncate => exact .refl s
  | write unlocked wrote => exact wrote.same

theorem IputGo.same (go : IputGo policy s i t frames) : SameInodes s t := by
  cases go with
  | drop => exact sameInodes_setSlot ⟨rfl, rfl, rfl, rfl, rfl⟩
  | sync => exact .refl s
  | tail isDev goes => exact goes.same

end Same

inductive IdentGo (policy : Policy) (s s' : State) : Prop where
  | same : (∀ i, (s'.table i).dev = (s.table i).dev ∧ (s'.table i).num = (s.table i).num ∧
        (s'.table i).mount = (s.table i).mount) →
      s'.imap = s.imap → IdentGo policy s s'
  | cleared {i : Slot} : s.pins i = 0 → (s'.table i).dev = 0 → (∀ j, j ≠ i → s'.table j = s.table j) →
      (s'.imap = s.imap ∨ (s.table i).dev ≠ 0 ∧
        s'.imap = (s.setBit (s.table i).dev (s.table i).num false).imap) →
      IdentGo policy s s'
  | claimed {i : Slot} {r : Request} : s.pins i = 0 → s.findInode r.dev r.num = none → policy.claim s r →
      (s'.table i).dev = r.dev → (s'.table i).num = r.num → (∀ j, j ≠ i → s'.table j = s.table j) →
      s'.imap = s.imap → IdentGo policy s s'
  | created {i : Slot} {dev j : Nat} : s.pins i = 0 → (∃ p, ∃ f ∈ s.control p, ∃ uid gid time, f = .newBit i dev uid gid time) →
      s.imap dev j = false → (s'.table i).dev = dev →
      (s'.table i).num = j → (∀ k, k ≠ i → s'.table k = s.table k) → s'.imap = (s.setBit dev j true).imap →
      IdentGo policy s s'

section Identity

variable {policy : Policy} {s s' : State}

theorem identGo_of_same {t : State} {p : Pid} {frames : List Frame} (same : SameInodes s t) :
    IdentGo policy s (t.goto p frames) :=
  .same (fun i => ⟨(same.table i).1, (same.table i).2.1, (same.table i).2.2.1⟩) same.imap

theorem micro_ident (kept : s.Kept) (micro : Micro policy s s') : IdentGo policy s s' := by
  cases micro with
  | start | iputStart | wait | got => exact .same (fun _ => ⟨rfl, rfl, rfl⟩) rfl
  | emptyWrite at_ unlocked wrote | syncWrite at_ unlocked wrote => exact identGo_of_same wrote.same
  | iput at_ unlocked goes | iputRepeat at_ unlocked goes => exact identGo_of_same goes.same
  | take finds allowed goes => exact identGo_of_same (sameInodes_setSlot ⟨rfl, rfl, rfl, rfl, rfl⟩)
  | @fresh p i purpose rest at_ unlocked clean free =>
    have noPins : s.pins i = 0 := by
      have counted := kept.counted i
      omega
    refine .cleared (i := i) noPins ?_ (fun j other => update_of_ne other ..) (.inl rfl)
    simp only [State.goto, State.setSlot, update_self, Inode.zero]
  | @claim p r empty sb rest at_ missing allowed isSuper =>
    have noPins := kept.no_pins at_ rfl (kept.fits_head at_).1.2.2.2.le
    refine .claimed (i := empty) noPins missing allowed ?_ ?_ (fun j other => update_of_ne other ..) rfl <;>
      simp only [State.goto, State.setSlot, update_self]
  | @load p i r dev block rest at_ =>
    refine .same (fun j => ?_) rfl
    simp only [State.goto, State.load, State.setSlot, update_apply]
    split
    · next same =>
      subst same
      exact ⟨rfl, rfl, rfl⟩
    · exact ⟨rfl, rfl, rfl⟩
  | @newBit p empty dev uid gid time j sb rest at_ isSuper isFree =>
    have isClear : s.imap dev j = false := by simpa using List.find?_some isFree
    have place : ∃ p, ∃ f ∈ s.control p, ∃ uid gid time, f = .newBit empty dev uid gid time :=
      ⟨p, _, by rw [at_]; exact List.mem_cons_self, uid, gid, time, rfl⟩
    have noPins := kept.no_pins at_ rfl (kept.fits_head at_).1.2.2.2.le
    refine .created (i := empty) noPins place isClear ?_ ?_ (fun k other => update_of_ne other ..) rfl <;>
      simp only [State.goto, State.setSlot, update_self]
  | @free p i rest at_ allowed isDev few =>
    have noPins := kept.no_pins at_ rfl (Nat.not_lt.mp few)
    refine .cleared (i := i) noPins ?_ (fun j other => update_of_ne other ..) (.inr ⟨isDev, rfl⟩)
    simp only [State.goto, State.setSlot, update_self, Inode.zero]
  | @save p i entered dev block rest at_ =>
    refine .same (fun j => ?_) rfl
    simp only [State.goto, State.save, State.setSlot, update_apply]
    split
    · next same =>
      subst same
      exact ⟨rfl, rfl, rfl⟩
    · exact ⟨rfl, rfl, rfl⟩
  | @cut p i zone dirt rest at_ | @modify i data isHeld allowed =>
    refine .same (fun j => ?_) rfl
    simp only [State.setSlot, update_apply]
    split
    · next same =>
      subst same
      exact ⟨rfl, rfl, rfl⟩
    · exact ⟨rfl, rfl, rfl⟩
  | stray at_ impossible => exact (kept.not_stray at_ impossible).elim

def State.Distinct (s : State) : Prop :=
  ∀ i j, (s.table i).dev ≠ 0 → (s.table i).dev = (s.table j).dev → (s.table i).num = (s.table j).num → i = j

def State.Allocated (s : State) : Prop :=
  ∀ i, (s.table i).dev ≠ 0 → s.imap (s.table i).dev (s.table i).num = true

theorem State.Distinct.set {i : Slot} (distinct : s.Distinct)
    (others : ∀ j, j ≠ i → s'.table j = s.table j)
    (new : ∀ j, j ≠ i → ¬((s.table j).dev = (s'.table i).dev ∧ (s.table j).num = (s'.table i).num)) :
    s'.Distinct := by
  intro j k isDev sameDev sameNum
  by_cases atJ : j = i <;> by_cases atK : k = i
  · rw [atJ, atK]
  · subst atJ
    rw [others k atK] at sameDev sameNum
    exact absurd ⟨sameDev.symm, sameNum.symm⟩ (new k atK)
  · subst atK
    rw [others j atJ] at sameDev sameNum
    exact absurd ⟨sameDev, sameNum⟩ (new j atJ)
  · rw [others j atJ] at isDev sameDev sameNum
    rw [others k atK] at sameDev sameNum
    exact distinct j k isDev sameDev sameNum

theorem State.Distinct.ident (distinct : s.Distinct) (go : IdentGo policy s s')
    (unused : ∀ i dev j uid gid time, (∃ p, Frame.newBit i dev uid gid time ∈ s.control p) →
      s.imap dev j = false → ∀ k, k ≠ i → ¬((s.table k).dev = dev ∧ (s.table k).num = j)) : s'.Distinct := by
  cases go with
  | same same sameImap =>
    intro i j
    rw [(same i).1, (same i).2.1, (same j).1, (same j).2.1]
    exact distinct i j
  | @cleared i noPins noDev others imap =>
    intro j k isDev sameDev sameNum
    have atJ : j ≠ i := by
      rintro rfl
      exact isDev noDev
    have atK : k ≠ i := by
      rintro rfl
      exact isDev (sameDev.trans noDev)
    rw [others j atJ] at isDev sameDev sameNum
    rw [others k atK] at sameDev sameNum
    exact distinct j k isDev sameDev sameNum
  | @claimed i r noPins missing allowed sameDev sameNum others sameImap =>
    refine distinct.set others fun j _ => ?_
    rw [sameDev, sameNum]
    exact findInode_none missing j
  | @created i dev j noPins place isClear sameDev sameNum others imap =>
    obtain ⟨p, f, member, uid, gid, time, rfl⟩ := place
    refine distinct.set others fun k other => ?_
    rw [sameDev, sameNum]
    exact unused i dev j uid gid time ⟨p, member⟩ isClear k other

theorem setBit_self (s : State) (dev num : Nat) (bit : Bool) : (s.setBit dev num bit).imap dev num = bit := by
  simp only [State.setBit, update_self]

theorem setBit_of_ne {dev num dev' num' : Nat} (s : State) (bit : Bool) (other : ¬(dev' = dev ∧ num' = num)) :
    (s.setBit dev num bit).imap dev' num' = s.imap dev' num' := by
  simp only [State.setBit, update_apply]
  split
  · next same =>
    subst same
    exact update_of_ne (fun sameNum => other ⟨rfl, sameNum⟩) ..
  · rfl

theorem State.Allocated.ident (allocated : s.Allocated) (distinct : s.Distinct) (go : IdentGo policy s s')
    (claims : ∀ r, policy.claim s r → s.imap r.dev r.num = true) : s'.Allocated := by
  cases go with
  | same same sameImap =>
    intro i
    rw [(same i).1, (same i).2.1, sameImap]
    exact allocated i
  | @cleared i noPins noDev others imap =>
    intro j isDev
    have atJ : j ≠ i := by
      rintro rfl
      exact isDev noDev
    rw [others j atJ] at isDev ⊢
    rcases imap with sameImap | ⟨wasDev, freed⟩
    · rw [sameImap]
      exact allocated j isDev
    · rw [freed, setBit_of_ne]
      · exact allocated j isDev
      · rintro ⟨sameDev, sameNum⟩
        exact atJ (distinct j i isDev sameDev sameNum)
  | @claimed i r noPins missing allowed sameDev sameNum others sameImap =>
    intro j isDev
    rw [sameImap]
    by_cases atJ : j = i
    · subst atJ
      rw [sameDev, sameNum]
      exact claims r allowed
    · rw [others j atJ] at isDev ⊢
      exact allocated j isDev
  | @created i dev num noPins place isClear sameDev sameNum others imap =>
    intro j isDev
    rw [imap]
    by_cases atJ : j = i
    · subst atJ
      rw [sameDev, sameNum]
      exact setBit_self s dev num true
    · rw [others j atJ] at isDev ⊢
      rw [setBit_of_ne]
      · exact allocated j isDev
      · rintro ⟨dev', num'⟩
        have isSet := allocated j isDev
        rw [dev', num', isClear] at isSet
        cases isSet

theorem State.Allocated.unused {dev j : Nat} (allocated : s.Allocated) (isDev : dev ≠ 0)
    (isClear : s.imap dev j = false) (k : Slot) : ¬((s.table k).dev = dev ∧ (s.table k).num = j) := by
  rintro ⟨rfl, rfl⟩
  rw [allocated k isDev] at isClear
  cases isClear

end Identity

end Linux012.Fs.InodeTable

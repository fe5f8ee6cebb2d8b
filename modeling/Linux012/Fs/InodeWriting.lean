import Linux012.Fs.InodeLocks

/-! `write_inode` stores the inode that it was called for, into the record of that
inode, as long as `free_inode` does not clear a slot that is being written. -/

set_option autoImplicit false

namespace Linux012.Fs.InodeTable

open Transition Relation

def State.withRecord (s : State) (sb : Super) (inode : Nat × Nat) (data : DInode) :
    Nat → Nat → Nat → DInode :=
  fun dev block k =>
    if dev = inode.1 ∧ block = sb.blockOf inode.2 ∧ k = recordOf inode.2 % INODES_PER_BLOCK then data
    else s.disk dev block k

/-- What a `write_inode` is about to store is the data of the inode that it was
entered for, and goes into the record of that inode only. -/
def State.WritesOwn (s : State) : Prop :=
  ∀ p i entered dev block rest, s.control p = .writing i entered dev block :: rest →
    ∃ sb j, s.getSuper entered.1 = some sb ∧ ((s.table j).dev, (s.table j).num) = entered ∧
      (s.table j).loaded = true ∧ (s.save i dev block).disk = s.withRecord sb entered (s.table j).data

/-- `free_inode` is entered only while no `write_inode` has the slot. -/
def State.FreesUnlocked (s : State) : Move → Prop
  | .run p =>
    match s.control p with
    | .truncating i :: _ => (s.table i).lock = false
    | _ => True
  | _ => True

def Policy.unlockedFrees : Policy := { Policy.all with free := fun s i => (s.table i).lock = false }

section Writing

variable {s s' : State} {m : Move}

theorem State.FreesUnlocked.allows (frees : s.FreesUnlocked m) : Policy.unlockedFrees.Allows s m where
  claim _ _ _ _ _ _ _ := trivial
  take _ _ _ _ _ _ _ := trivial
  free p i rest isRun at_ := by
    subst isRun
    simp only [State.FreesUnlocked, at_] at frees
    exact frees
  truncate _ := trivial
  newInode _ _ _ _ _ _ := trivial
  modify _ _ _ := trivial

structure State.Settled (s : State) : Prop extends s.Quiet where
  unlocked : ∀ i, (s.table i).lock = false
  loaded : ∀ i, (s.table i).dev ≠ 0 → (s.table i).loaded = true

theorem State.Settled.locked (settled : s.Settled) : s.Locked where
  counted i := by
    rw [settled.unlocked i, settled.no_marks]
    rfl
  targets p f member := by
    rw [settled.idle p] at member
    cases member
  loaded i isDev := .inl (settled.loaded i isDev)

theorem State.Locked.loaded_of_writing {p : Pid} {i : Slot} {entered : Nat × Nat} {dev block : Nat}
    {rest : List Frame} (locked : s.Locked) (isDev : (s.table i).dev ≠ 0)
    (at_ : s.control p = .writing i entered dev block :: rest) : (s.table i).loaded = true := by
  rcases locked.loaded i isDev with loaded | ⟨q, f, member, reads⟩
  · exact loaded
  · have elsewhere : s.Elsewhere p rest f := by
      by_cases same : q = p
      · subst same
        rw [at_] at member
        rcases List.mem_cons.mp member with rfl | isRest
        · exact reads.elim
        · exact .inr isRest
      · exact .inl ⟨q, same, member⟩
    have two := two_marked Frame.locks at_ rfl elsewhere reads.locks
    have counted := locked.counted i
    have most := Bool.toNat_le (s.table i).lock
    omega

theorem State.Locked.writesOwn (locked : s.Locked) : s.WritesOwn := by
  intro p i entered dev block rest at_
  obtain ⟨rfl, rfl, isDev, sb, isSuper, rfl⟩ :=
    locked.targets p (.writing i entered dev block) (by rw [at_]; exact List.mem_cons_self)
  refine ⟨sb, i, isSuper, rfl, locked.loaded_of_writing isDev at_, ?_⟩
  funext dev block k
  simp only [State.save, State.setSlot, State.withRecord, Function.update_apply]
  by_cases sameDev : dev = (s.table i).dev
  · subst sameDev
    by_cases sameBlock : block = sb.blockOf (s.table i).num
    · subst sameBlock
      simp only [if_true, true_and, Function.update_apply]
    · simp [sameBlock]
  · simp [sameDev]

/-- Writing an inode touches only its own record, as long as no slot is cleared
while it is written. -/
theorem writesOwn_of_freesUnlocked {start : State} (settled : start.Settled)
    (reached : Run State.step State.FreesUnlocked start s) : s.WritesOwn := by
  have both : s.Kept ∧ s.Locked := by
    refine reached.invariant (P := fun s => s.Kept ∧ s.Locked) ?_ ⟨settled.kept, settled.locked⟩
    intro t m t' holds frees moved
    refine invariant_of_micro (P := fun s => s.Kept ∧ s.Locked) (fun {u u'} both micro => ?_) frees.allows moved holds
    exact ⟨both.1.micro micro, both.2.micro both.1 micro fun _ _ _ _ unlocked => unlocked⟩
  exact both.2.writesOwn

end Writing

theorem sampleTable_settled : sampleTable.Settled where
  toQuiet := sampleTable_quiet
  unlocked i := by
    simp only [sampleTable]
    split <;> rfl
  loaded i isDev := by
    have first := sampleTable_dev isDev
    simp [sampleTable, first]

def noFree (s : State) : Move → Bool
  | .run p =>
    match s.control p with
    | .truncating _ :: _ => false
    | _ => true
  | _ => true

theorem freesUnlocked_of_noFree {s : State} {m : Move} (none : noFree s m = true) : s.FreesUnlocked m := by
  cases m with
  | run p =>
    simp only [noFree] at none
    simp only [State.FreesUnlocked]
    split <;> simp_all
  | _ => trivial

theorem writesOwn_of_freesUnlocked_sync :
    ∃ s, Run State.step State.FreesUnlocked sampleTable s ∧
      s.control (.ofNat 1) = [.writing (.ofNat 0) (1, 2) 1 4, .syncing 1] ∧ s.WritesOwn := by
  obtain ⟨s, reached, writing⟩ := exists_of_runIf State.step noFree sampleTable
    [.modify (.ofNat 0) sampleData, .sync (.ofNat 1), .run (.ofNat 1)]
    (fun s => s.control (.ofNat 1) = [.writing (.ofNat 0) (1, 2) 1 4, .syncing 1]) (by decide +kernel)
  have frees := reached.weaken fun s m none => freesUnlocked_of_noFree none
  exact ⟨s, frees, writing, writesOwn_of_freesUnlocked sampleTable_settled frees⟩

/-- `sync` is at the record of a file when its last `iput` frees the inode; the
record of inode 32 is overwritten with zeroes. -/
theorem write_of_freed_inode :
    ∃ s, Reachable State.step sampleTable s ∧
      s.control (.ofNat 1) = [.writing (.ofNat 0) (1, 2) 1 4, .syncing 1] ∧
      (s.disk 1 4 31).nlinks = 1 ∧ ((s.save (.ofNat 0) 1 4).disk 1 4 31).nlinks = 0 ∧ ¬s.WritesOwn := by
  obtain ⟨s, ran, writing, before, after, gone⟩ := exists_of_run State.step sampleTable
    [.modify (.ofNat 0) { sampleData with nlinks := 0 }, .iput (.ofNat 0) (.ofNat 0), .sync (.ofNat 1),
      .run (.ofNat 1), .run (.ofNat 0)]
    (fun s => s.control (.ofNat 1) = [.writing (.ofNat 0) (1, 2) 1 4, .syncing 1] ∧
      (s.disk 1 4 31).nlinks = 1 ∧ ((s.save (.ofNat 0) 1 4).disk 1 4 31).nlinks = 0 ∧
      ∀ j, (s.table j).dev ≠ 1) (by decide +kernel)
  refine ⟨s, reachable_of_run ran, writing, before, after, fun own => ?_⟩
  obtain ⟨sb, j, -, isEntered, -⟩ := own _ _ _ _ _ _ writing
  exact gone j (Prod.mk.inj isEntered).1

end Linux012.Fs.InodeTable

import Linux012.Fs.InodeIdentity

/-! `free_inode` meets only inodes that nobody uses, as long as `iget` stays away
from inodes that are being truncated and from numbers that have been freed. -/

set_option autoImplicit false

namespace Linux012.Fs.InodeTable

open Transition Relation Function

/-- `iget` does not take an inode that an `iput` truncates, and what it reads from
the disk is allocated. -/
def Policy.careful : Policy where
  claim s r := s.imap r.dev r.num = true
  take s i := ∀ p, .truncating i ∉ s.control p
  free _ _ := True
  truncate _ _ _ := True
  newInode := True
  modify _ := True

def State.Alone (s : State) : Prop :=
  ∀ p i, .truncating i ∈ s.control p → (s.table i).count = 1 ∧ (s.table i).data.nlinks = 0

section Alone

variable {s s' t : State} {p : Pid} {g : Frame} {gs fs rest : List Frame} {i : Slot} {policy : Policy}

variable (gs fs rest) in
theorem State.Alone.goes (alone : s.Alone) (at_ : s.control p = gs ++ rest)
    (control : s'.control = update s.control p (fs ++ rest))
    (new : ∀ i, .truncating i ∈ fs → (s'.table i).count = 1 ∧ (s'.table i).data.nlinks = 0)
    (old : ∀ i, s.Elsewhere p rest (.truncating i) → (s.table i).count = 1 → (s.table i).data.nlinks = 0 →
      (s'.table i).count = 1 ∧ (s'.table i).data.nlinks = 0) : s'.Alone := by
  intro q i member
  have stays (elsewhere : s.Elsewhere p rest (.truncating i)) :
      (s'.table i).count = 1 ∧ (s'.table i).data.nlinks = 0 := by
    obtain ⟨r, was⟩ := elsewhere.mem _ at_
    obtain ⟨one, noLinks⟩ := alone r i was
    exact old i elsewhere one noLinks
  rw [control] at member
  by_cases same : q = p
  · subst same
    rw [update_self] at member
    rcases List.mem_append.mp member with isNew | isOld
    · exact new i isNew
    · exact stays (.inr isOld)
  · rw [update_of_ne same] at member
    exact stays (.inl ⟨q, same, member⟩)

variable (gs fs rest) in
theorem State.Alone.slot {j : Slot} {inode : Inode} (alone : s.Alone) (at_ : s.control p = gs ++ rest)
    (control : s'.control = update s.control p (fs ++ rest))
    (table : s'.table = update s.table j inode) (new : ∀ i, .truncating i ∉ fs)
    (away : ¬s.Elsewhere p rest (.truncating j)) : s'.Alone := by
  refine alone.goes _ _ _ at_ control (fun i member => absurd member (new i)) fun i elsewhere one noLinks => ?_
  rw [table]
  by_cases same : i = j
  · subst same
    exact absurd elsewhere away
  · rw [update_of_ne same]
    exact ⟨one, noLinks⟩

variable (gs fs rest) in
theorem State.Alone.frame (alone : s.Alone) (at_ : s.control p = gs ++ rest)
    (control : s'.control = update s.control p (fs ++ rest))
    (same : ∀ i, (s'.table i).count = (s.table i).count ∧
      (s'.table i).data.nlinks = (s.table i).data.nlinks) (new : ∀ i, .truncating i ∉ fs) : s'.Alone := by
  refine alone.goes _ _ _ at_ control (fun i member => absurd member (new i)) fun i _ one noLinks => ?_
  rw [(same i).1, (same i).2]
  exact ⟨one, noLinks⟩

theorem away_of_one (kept : s.Kept) (at_ : s.control p = g :: rest) (atG : g.slot = some i)
    (alone : s.Alone) : ¬s.Elsewhere p rest (.truncating i) := by
  intro elsewhere
  have two := kept.count_two at_ atG elsewhere rfl
  obtain ⟨q, was⟩ := elsewhere.mem [g] at_
  have one := (alone q i was).1
  omega

theorem WriteGo.frame (go : WriteGo s i t fs) (j : Slot) : (t.table j).count = (s.table j).count ∧
    (t.table j).data.nlinks = (s.table j).data.nlinks := by
  cases go with
  | clean => exact ⟨rfl, rfl⟩
  | write =>
    simp only [State.setLock, State.setSlot, update_apply]
    split
    · next same =>
      subst same
      exact ⟨rfl, rfl⟩
    · exact ⟨rfl, rfl⟩

theorem WriteGo.no_truncating (go : WriteGo s i t fs) (j : Slot) : .truncating j ∉ fs := by
  cases go <;> simp

theorem State.Alone.tail (alone : s.Alone) (kept : s.Kept) (at_ : s.control p = g :: rest)
    (atG : g.slot = some i) (go : TailGo policy s i t fs) : (t.goto p (fs ++ rest)).Alone := by
  have control : t.control = s.control := go.same.control
  cases go with
  | drop =>
    exact alone.slot [g] [] _ at_ rfl rfl (by simp) (away_of_one kept at_ atG alone)
  | truncate few noLinks allowed =>
    have held := kept.count_pos at_ atG
    refine alone.goes [g] [.truncating i] _ at_ rfl (fun j member => ?_) fun j _ one noLinks => ⟨one, noLinks⟩
    simp only [List.mem_singleton, Frame.truncating.injEq] at member
    subst member
    exact ⟨by simp only [State.goto]; omega, noLinks⟩
  | @write _ frames unlocked wrote =>
    refine alone.frame [g] (frames ++ [.iputRepeat i]) _ at_ ?_ wrote.frame fun j member => ?_
    · simp only [State.goto, control]
    · rcases List.mem_append.mp member with member | member
      · exact wrote.no_truncating j member
      · simp at member

theorem State.Alone.micro (alone : s.Alone) (kept : s.Kept) (micro : Micro Policy.careful s s') :
    s'.Alone := by
  cases micro with
  | @start p frame last idle begins =>
    refine alone.frame [] [frame] [] idle rfl (fun _ => ⟨rfl, rfl⟩) fun i member => ?_
    have same := List.mem_singleton.mp member
    rcases begins with ⟨j, dev, num, -, rfl⟩ | ⟨-, j, dev, uid, gid, time, -, rfl⟩ | rfl <;> cases same
  | @iputStart p i idle isHeld =>
    exact alone.frame [] [.iputWait i] [] idle rfl (fun _ => ⟨rfl, rfl⟩) (by simp)
  | @wait p frame frames rest last at_ waits =>
    refine alone.frame [frame] _ _ at_ rfl (fun _ => ⟨rfl, rfl⟩) fun i member => ?_
    cases waits <;> simp at member
  | @emptyWrite p i purpose t frames rest at_ unlocked wrote =>
    have control : t.control = s.control := wrote.same.control
    refine alone.frame [.emptyWait i purpose] (frames ++ [.emptyWait i purpose]) rest at_ ?_
      wrote.frame fun j member => ?_
    · simp only [State.goto, control, List.append_assoc, List.cons_append, List.nil_append]
    · rcases List.mem_append.mp member with member | member
      · exact wrote.no_truncating j member
      · simp at member
  | @syncWrite p k i t frames rest at_ unlocked wrote =>
    have control : t.control = s.control := wrote.same.control
    refine alone.frame [.syncing k] (frames ++ [.syncing (k + 1)]) rest at_ ?_ wrote.frame fun j member => ?_
    · simp only [State.goto, control, List.append_assoc, List.cons_append, List.nil_append]
    · rcases List.mem_append.mp member with member | member
      · exact wrote.no_truncating j member
      · simp at member
  | @fresh p i purpose rest at_ unlocked clean free =>
    refine alone.slot [.emptyWait i purpose] [purpose.next i] _ at_ rfl rfl (fun j member => ?_) fun elsewhere => ?_
    · cases purpose <;> simp [Purpose.next] at member
    · obtain ⟨q, was⟩ := elsewhere.mem [.emptyWait i purpose] at_
      have one := (alone q i was).1
      omega
  | @claim p r empty sb rest at_ missing allowed isSuper =>
    exact alone.slot [.scan r empty] [.reading empty r r.dev (sb.blockOf r.num)] _ at_ rfl rfl
      (by simp) (away_of_one kept at_ rfl alone)
  | @take p i r empty frames rest finds allowed goes =>
    obtain ⟨place, unlocked, sameDev, sameNum⟩ := finds
    obtain ⟨g, at_⟩ : ∃ g, s.control p = g :: rest := by
      rcases place with ⟨at_, -⟩ | at_
      · exact ⟨_, at_⟩
      · exact ⟨_, at_⟩
    refine alone.slot [g] _ _ at_ rfl rfl (fun j member => ?_) fun elsewhere => ?_
    · cases goes <;> simp at member
    · obtain ⟨q, was⟩ := elsewhere.mem [g] at_
      exact allowed q was
  | @load p i r dev block rest at_ =>
    exact alone.slot [.reading i r dev block] [.got i r] _ at_ rfl rfl (by simp) (away_of_one kept at_ rfl alone)
  | @got p i r rest at_ =>
    exact alone.frame [.got i r] [] _ at_ rfl (fun _ => ⟨rfl, rfl⟩) (by simp)
  | @newBit p empty dev uid gid time j sb rest at_ isSuper isFree =>
    exact alone.slot [.newBit empty dev uid gid time] [] _ at_ rfl rfl (by simp) (away_of_one kept at_ rfl alone)
  | @iput p i t frames rest at_ unlocked goes =>
    cases goes with
    | drop noDev =>
      exact alone.slot [.iputWait i] [] _ at_ rfl rfl (by simp) (away_of_one kept at_ rfl alone)
    | sync isDev =>
      exact alone.frame [.iputWait i] [.syncing 0, .iputRepeat i] _ at_ rfl (fun _ => ⟨rfl, rfl⟩) (by simp)
    | tail isDev goes => exact alone.tail kept at_ rfl goes
  | iputRepeat at_ unlocked goes => exact alone.tail kept at_ rfl goes
  | @free p i rest at_ allowed isDev few =>
    exact alone.slot [.truncating i] [] _ at_ rfl rfl (by simp) (away_of_one kept at_ rfl alone)
  | @save p i entered dev block rest at_ =>
    refine alone.frame [.writing i entered dev block] [] _ at_ rfl (fun j => ?_) (by simp)
    simp only [State.goto, State.save, State.setSlot, update_apply]
    split
    · next same =>
      subst same
      exact ⟨rfl, rfl⟩
    · exact ⟨rfl, rfl⟩
  | @cut p i zone dirt rest at_ =>
    refine alone.frame (p := p) [] [] (s.control p) rfl ?_ (fun j => ?_) (by simp)
    · rw [List.nil_append, update_eq_self]
      rfl
    · simp only [State.setSlot, update_apply]
      split
      · next same =>
        subst same
        exact ⟨rfl, rfl⟩
      · exact ⟨rfl, rfl⟩
  | @modify i data isHeld allowed =>
    intro q j was
    obtain ⟨one, noLinks⟩ := alone q j was
    have other : j ≠ i := by
      rintro rfl
      have counted := kept.counted j
      have reference := one_reference (s := s) was rfl
      omega
    simp only [State.setSlot, update_of_ne other]
    exact ⟨one, noLinks⟩
  | stray at_ impossible => exact (kept.not_stray at_ impossible).elim

end Alone

/-! ## Runs -/

structure State.Initial (s : State) : Prop extends s.Quiet where
  distinct : s.Distinct
  allocated : s.Allocated

/-- The inode that `iget` has found in the table is not being truncated, and the
number that it puts into an empty slot is marked in the inode map. -/
def State.Careful (s : State) : Move → Prop
  | .run p =>
    match s.control p with
    | .scan r _ :: _ =>
      match s.findInode r.dev r.num with
      | none => s.imap r.dev r.num = true
      | some i => ∀ q, .truncating i ∉ s.control q
    | .scanWait i r _ :: _ =>
      (s.table i).dev = r.dev ∧ (s.table i).num = r.num → ∀ q, .truncating i ∉ s.control q
    | _ => True
  | _ => True

/-- `free_inode` is called on inodes with one user and no name only, and the inodes
in use are allocated. -/
def State.FreesSafely (s : State) : Prop :=
  (∀ p i rest, s.control p = .truncating i :: rest →
      (s.table i).count ≤ 1 ∧ (s.table i).data.nlinks = 0) ∧
    ∀ i, 0 < (s.table i).count → (s.table i).dev ≠ 0 → s.imap (s.table i).dev (s.table i).num = true

variable {s : State}

theorem State.Careful.allows {m : Move} (careful : s.Careful m) : Policy.careful.Allows s m where
  claim p r empty rest isRun at_ missing := by
    subst isRun
    simp only [State.Careful, at_, missing] at careful
    exact careful
  take p i r empty rest isRun finds := by
    subst isRun
    rcases finds.1 with ⟨at_, found⟩ | at_
    · simp only [State.Careful, at_, found] at careful
      exact careful
    · simp only [State.Careful, at_] at careful
      exact careful finds.2.2
  free _ _ _ _ _ := trivial
  truncate _ := trivial
  newInode _ _ _ _ _ _ := trivial
  modify _ _ _ := trivial

structure State.Orderly (s : State) : Prop where
  kept : s.Kept
  distinct : s.Distinct
  allocated : s.Allocated
  alone : s.Alone

theorem State.Orderly.micro {s' : State} (orderly : s.Orderly) (micro : Micro Policy.careful s s') :
    s'.Orderly := by
  have go := micro_ident orderly.kept micro
  refine ⟨orderly.kept.micro micro, orderly.distinct.ident go ?_,
    orderly.allocated.ident orderly.distinct go fun r allowed => allowed,
    orderly.alone.micro orderly.kept micro⟩
  rintro i dev j uid gid time ⟨p, member⟩ isClear k -
  have isDev : dev ≠ 0 := (orderly.kept.fits p _ member).2
  exact orderly.allocated.unused isDev isClear k

theorem State.Orderly.freesSafely (orderly : s.Orderly) : s.FreesSafely := by
  constructor
  · intro p i rest at_
    obtain ⟨one, noLinks⟩ := orderly.alone p i (by rw [at_]; exact List.mem_cons_self)
    exact ⟨one.le, noLinks⟩
  · intro i _ isDev
    exact orderly.allocated i isDev

theorem State.Initial.orderly (initial : s.Initial) : s.Orderly where
  kept := initial.kept
  distinct := initial.distinct
  allocated := initial.allocated
  alone p i member := by
    rw [initial.idle p] at member
    cases member

/-- `free_inode` never panics and never frees an inode in use, as long as `iget`
keeps away from inodes on their way out. -/
theorem freesSafely_of_careful {start s : State} (initial : start.Initial)
    (reached : Run State.step State.Careful start s) : s.FreesSafely := by
  refine (reached.invariant (P := State.Orderly) ?_ initial.orderly).freesSafely
  intro t m t' orderly careful moved
  exact invariant_of_micro (fun orderly micro => orderly.micro micro) careful.allows moved orderly

theorem sampleTable_initial : sampleTable.Initial where
  toQuiet := sampleTable_quiet
  distinct i j isDev sameDev _ := by
    have first := sampleTable_dev isDev
    rw [sameDev] at isDev
    exact Fin.ext (first.trans (sampleTable_dev isDev).symm)
  allocated i isDev := by
    have first := sampleTable_dev isDev
    simp [sampleTable, first]

def noScan (s : State) : Move → Bool
  | .run p =>
    match s.control p with
    | .scan _ _ :: _ | .scanWait _ _ _ :: _ => false
    | _ => true
  | _ => true

theorem careful_of_noScan {m : Move} (none : noScan s m = true) : s.Careful m := by
  cases m with
  | run p =>
    simp only [noScan] at none
    simp only [State.Careful]
    split <;> simp_all
  | _ => trivial

theorem freesSafely_of_careful_sample :
    ∃ s, Run State.step State.Careful sampleTable s ∧ s.control (.ofNat 0) = [.truncating (.ofNat 1)] ∧
      s.FreesSafely := by
  obtain ⟨s, reached, truncating⟩ := exists_of_runIf State.step noScan sampleTable
    [.newInode (.ofNat 0) 1 0 0 0, .run (.ofNat 0), .run (.ofNat 0),
      .modify (.ofNat 1) { sampleData with nlinks := 0 }, .iput (.ofNat 0) (.ofNat 1)]
    (fun s => s.control (.ofNat 0) = [.truncating (.ofNat 1)]) (by decide +kernel)
  have careful := reached.weaken fun s m none => careful_of_noScan none
  exact ⟨s, careful, truncating, freesSafely_of_careful sampleTable_initial careful⟩

/-- The open file has lost its name. A process that has read its number from the
directory before looks it up in the table while `iput` truncates it. -/
theorem iget_of_truncating :
    ∃ s, Reachable State.step sampleTable s ∧ ¬s.FreesSafely := by
  obtain ⟨s, ran, truncating, two⟩ := exists_of_run State.step sampleTable
    [.iget (.ofNat 1) 1 2, .modify (.ofNat 0) { sampleData with nlinks := 0 }, .iput (.ofNat 0) (.ofNat 0),
      .run (.ofNat 1), .run (.ofNat 1)]
    (fun s => s.control (.ofNat 0) = [.truncating (.ofNat 0)] ∧ (s.table (.ofNat 0)).count = 2)
    (by decide +kernel)
  refine ⟨s, reachable_of_run ran, fun safe => ?_⟩
  have one := (safe.1 _ _ _ truncating).1
  rw [two] at one
  exact absurd one (by decide)

end Linux012.Fs.InodeTable

import Linux012.Fs.LinkChanges

/-! Link counts in runs of the calls. -/

set_option autoImplicit false

namespace Linux012.Fs.LinkCounts

open Namei Transition
open Ledger (bind_eq_some)
open InodeTable (S_IFMT)
open Naming (S_ISVTX O_ACCMODE O_WRONLY O_TRUNC)

section Parts

variable {s s' : State} {n dir j c : Nat} {inode : Inode} {access : Nat → Access} {name : List Byte} {α : Type}

/-! ## Programs that keep the file system consistent -/

def Keeps (x : Kernel α) : Prop := ∀ s a s', s.Consistent → x s = some (a, s') → s'.Consistent

theorem Keeps.pure (a : α) : Keeps (Pure.pure a) := by
  intro s b s' consistent returned
  cases returned
  exact consistent

theorem Keeps.bind {β : Type} {x : Kernel α} {f : α → Kernel β} (first : Keeps x) (rest : ∀ a, Keeps (f a)) :
    Keeps (x >>= f) := by
  intro s b s' consistent returned
  obtain ⟨a, t, one, two⟩ := bind_eq_some.mp returned
  exact rest a t b s' (first s a t consistent one) two

theorem keeps_iput (n : Nat) : Keeps (iput n) := by
  intro s a s' consistent returned
  obtain ⟨inode, isInode, -, rfl⟩ := iput_eq.mp returned
  exact consistent.drop isInode

theorem keeps_hold (n : Nat) : Keeps (hold n) := by
  intro s a s' consistent returned
  obtain ⟨inode, isInode, rfl⟩ := setInode_eq.mp returned
  exact consistent.update isInode rfl rfl rfl

theorem keeps_inodeOf (n : Nat) : Keeps (inodeOf n) := by
  intro s a s' consistent returned
  obtain ⟨-, rfl⟩ := inodeOf_eq.mp returned
  exact consistent

theorem keeps_fail (n : Nat) (a : α) : Keeps (do iput n; Pure.pure a) :=
  (keeps_iput n).bind fun _ => .pure a

theorem keeps_fail_two (m n : Nat) (a : α) : Keeps (do iput m; iput n; Pure.pure a) :=
  (keeps_iput m).bind fun _ => keeps_fail n a

theorem keeps_reach (n : Option Nat) : Keeps (reach n) := by
  cases n with
  | none => exact .pure none
  | some n => exact (keeps_hold n).bind fun _ => .pure (some n)

theorem keeps_followLink (dir num : Nat) (linked : Option Nat) : Keeps (followLink dir num linked) := by
  refine (keeps_inodeOf num).bind fun inode => ?_
  split
  · exact (keeps_iput num).bind fun _ => (keeps_iput dir).bind fun _ => keeps_reach linked
  · exact keeps_fail dir (some num)

/-! ## What the parts of the calls do -/

variable {found : Option Nat}

theorem findEntry_eq {task : Namei.Task Nat} (isInode : s.inodes dir = some inode)
    (returned : findEntry task access dir name s = some (found, s')) :
    s' = s ∧ found = inode.findEntry access
      (if name.take NAME_LEN = DOTDOT ∧ dir = task.root then DOT else name.take NAME_LEN) := by
  replace returned := inodeOf_later isInode returned
  cases returned
  exact ⟨rfl, rfl⟩

theorem Inode.findEntry_some (found : inode.findEntry access name = some j) : targetOf inode.entries j ≠ 0 := by
  unfold Inode.findEntry at found
  split at found
  · cases found
  · have matches_ := List.find?_some found
    obtain ⟨e, at_, isMatch⟩ := (Option.any_eq_true _ _).mp (of_decide_eq_true matches_).2
    rw [targetOf, at_]
    intro unused
    rw [matchName, if_pos (.inl unused)] at isMatch
    cases isMatch

theorem addEntry_eq (returned : addEntry access dir name s = some (found, s')) :
    s' = s ∧ ∃ inode, s.inodes dir = some inode ∧ inode.addEntry access (name.take NAME_LEN) = some found := by
  obtain ⟨inode, t, read, rest⟩ := bind_eq_some.mp returned
  obtain ⟨isInode, rfl⟩ := inodeOf_eq.mp read
  obtain ⟨_, added, same⟩ := Option.map_eq_some_iff.mp rest
  cases same
  exact ⟨rfl, inode, isInode, added⟩

theorem Inode.addEntry_some (added : inode.addEntry access name = some (some j)) :
    inode.entries ≠ [] ∧ targetOf inode.entries j = 0 := by
  unfold Inode.addEntry at added
  split at added
  · cases added
  · next some_ =>
    obtain ⟨i, found, isPlace⟩ := Option.map_eq_some_iff.mp added
    split at isPlace
    · cases isPlace
    · next there =>
      cases isPlace
      refine ⟨fun none_ => some_ (.inr (.inl none_)), ?_⟩
      have stops := List.find?_some found
      rw [decide_eq_true_eq] at stops
      obtain missing | ⟨-, free⟩ := stops
      · exact absurd missing there
      · unfold targetOf
        cases at_ : inode.entries[j]? with
        | none => rfl
        | some e =>
          rw [at_] at free
          exact of_decide_eq_true free

theorem entryInode_eq {num : Nat} (isInode : s.inodes dir = some inode)
    (returned : entryInode dir j s = some (num, s')) : s' = s ∧ num = targetOf inode.entries j := by
  replace returned := inodeOf_later isInode returned
  cases returned
  exact ⟨rfl, rfl⟩

theorem newInode_eq {task : Namei.Task Nat} (returned : newInode task s = some (found, s')) :
    found = none ∧ s' = s ∨
      ∃ n, found = some n ∧ s.inodes n = none ∧ n ≠ 0 ∧ n ≤ s.ninodes ∧ s' = s.put n (some (.fresh task)) := by
  unfold newInode at returned
  obtain ⟨_, t, read, rest⟩ := bind_eq_some.mp returned
  cases read
  cases isFirst : (List.range' 1 s.ninodes).find? fun n => (s.inodes n).isNone with
  | none =>
    rw [isFirst] at rest
    cases rest
    exact .inl ⟨rfl, rfl⟩
  | some n =>
    rw [isFirst] at rest
    obtain ⟨_, t, written, rest⟩ := bind_eq_some.mp rest
    cases written
    cases rest
    have free := List.find?_some isFirst
    obtain ⟨lower, upper⟩ := List.mem_range'_1.mp (List.mem_of_find?_eq_some isFirst)
    exact .inr ⟨n, rfl, Option.isNone_iff_eq_none.mp free, by omega, by omega, rfl⟩

theorem dirNamei_eq {call : Call} (returned : dirNamei call s = some (found, s')) :
    found = none ∧ s' = s ∨
      ∃ dir inode, call.dir = some dir ∧ found = some dir ∧ s.inodes dir = some inode ∧
        (inode.isDir = true ∧ permit call.task inode MAY_EXEC = true) ∧
        s' = s.put dir (some { inode with count := inode.count + 1 }) := by
  unfold dirNamei at returned
  cases isCall : call.dir with
  | none =>
    rw [isCall] at returned
    cases returned
    exact .inl ⟨rfl, rfl⟩
  | some dir =>
    rw [isCall] at returned
    obtain ⟨inode, t, read, rest⟩ := bind_eq_some.mp returned
    obtain ⟨isInode, rfl⟩ := inodeOf_eq.mp read
    split at rest
    · next allowed =>
      obtain ⟨_, t, held, rest⟩ := bind_eq_some.mp rest
      obtain ⟨_, same, rfl⟩ := setInode_eq.mp held
      rw [isInode, Option.some.injEq] at same
      subst same
      cases rest
      exact .inr ⟨dir, inode, rfl, rfl, isInode, allowed, rfl⟩
    · cases rest

end Parts

/-! ## Calls that meet the limits of the counts -/

/-- The call is to make a name that is not there, and `add_entry` finds a place for it. -/
structure Call.Enters (call : Call) (s : State) (dir : Nat) (parent : Inode) : Prop where
  isDir : call.dir = some dir
  isParent : s.inodes dir = some parent
  search : parent.isDir = true ∧ permit call.task parent MAY_EXEC = true
  write : permit call.task parent MAY_WRITE = true
  named : call.name ≠ []
  absent : parent.findEntry call.disk.find
    (if call.name.take NAME_LEN = DOTDOT ∧ dir = call.task.root then DOT else call.name.take NAME_LEN) = none
  place : ∃ j, parent.addEntry call.disk.add (call.name.take NAME_LEN) = some (some j)

/-- `sys_rmdir` finds a directory that `empty_dir` takes for empty. -/
structure Call.Empties (call : Call) (s : State) (dir num : Nat) (parent child : Inode) : Prop where
  isDir : call.dir = some dir
  isParent : s.inodes dir = some parent
  search : parent.isDir = true ∧ permit call.task parent MAY_EXEC = true
  write : permit call.task parent MAY_WRITE = true
  named : call.name ≠ []
  found : ∃ j, parent.findEntry call.disk.find
    (if call.name.take NAME_LEN = DOTDOT ∧ dir = call.task.root then DOT else call.name.take NAME_LEN) = some j ∧
    targetOf parent.entries j = num
  isChild : s.inodes num = some child
  other : num ≠ dir
  unused : child.count = 0
  owned : ¬(parent.mode &&& S_ISVTX ≠ 0 ∧ call.task.euid ≠ 0 ∧ child.uid ≠ call.task.euid)
  childIsDir : child.isDir = true
  empty : child.emptyDir num call.disk.empty = true

/-- No count of 255 is incremented, and `empty_dir` passes over no entry in use. -/
def State.Careful (s : State) : Move → Prop
  | .close _ => True
  | .call call =>
    match call.kind with
    | .mkdir _ => ∀ dir parent, call.Enters s dir parent → call.disk.space = true → call.disk.readable = true →
        (∃ n, n ≠ 0 ∧ n ≤ s.ninodes ∧ s.inodes n = none) → parent.nlinks ≠ 255
    | .link old => ∀ dir parent num inode, call.Enters s dir parent → old = some num →
        s.inodes num = some inode → inode.isDir = false → inode.nlinks ≠ 255
    | .rmdir => ∀ dir num parent child, call.Empties s dir num parent child →
        ∀ k, 2 ≤ k → targetOf child.entries k = 0
    | _ => True

/-! ## Calls -/

section Calls

variable {s s' : State} {call : Call} {result : Int}

theorem inDirectory_cases {noDir noName noWrite : Int} {rest : Nat → Kernel Int} (consistent : s.Consistent)
    (returned : inDirectory call noDir noName noWrite rest s = some (result, s')) :
    s'.Consistent ∨ ∃ dir parent, call.dir = some dir ∧ s.inodes dir = some parent ∧ call.name ≠ [] ∧
      (parent.isDir = true ∧ permit call.task parent MAY_EXEC = true) ∧
      permit call.task parent MAY_WRITE = true ∧
      (s.put dir (some { parent with count := parent.count + 1 })).Consistent ∧
      rest dir (s.put dir (some { parent with count := parent.count + 1 })) = some (result, s') := by
  obtain ⟨_, t, led, later⟩ := bind_eq_some.mp returned
  obtain ⟨rfl, rfl⟩ | ⟨dir, parent, isCall, rfl, isParent, search, rfl⟩ := dirNamei_eq led
  · cases later
    exact .inl consistent
  · have held : (s.put dir (some { parent with count := parent.count + 1 })).Consistent :=
      consistent.update isParent rfl rfl rfl
    dsimp only at later
    split at later
    · exact .inl (keeps_fail dir noName _ _ _ held later)
    · next named =>
      obtain ⟨inode, t, read, later⟩ := bind_eq_some.mp later
      obtain ⟨isInode, rfl⟩ := inodeOf_eq.mp read
      rw [put_inodes, Option.some.injEq] at isInode
      subst isInode
      split at later
      · next write => exact .inr ⟨dir, parent, isCall, isParent, named, search, write, held, later⟩
      · exact .inl (keeps_fail dir noWrite _ _ _ held later)

structure State.Apart (s : State) (c : Nat) (inode : Inode) : Prop where
  rest : (s.put c none).Consistent
  isInode : s.inodes c = some inode
  last : inode.count = 1

theorem State.Apart.iput {c dir : Nat} {inode : Inode} {nothing : Unit} (apart : s.Apart c inode) (other : dir ≠ c)
    (returned : iput dir s = some (nothing, s')) : s'.Apart c inode := by
  obtain ⟨parent, isParent, -, rfl⟩ := iput_eq.mp returned
  refine ⟨?_, (put_inodes_ne (Ne.symm other)).trans apart.isInode, apart.last⟩
  rw [put_comm (Ne.symm other)]
  exact apart.rest.drop ((put_inodes_ne other).trans isParent)

variable {inode : Inode} {c : Nat}

theorem State.Apart.discard {t : State} {one two : Unit} {f : Nat → Nat} (apart : s.Apart c inode)
    (unlinked : f inode.nlinks = 0) (first : setNlinks c f s = some (one, t))
    (second : LinkCounts.iput c t = some (two, s')) : s'.Consistent := by
  obtain ⟨_, same, rfl⟩ := setInode_eq.mp first
  rw [apart.isInode, Option.some.injEq] at same
  subst same
  obtain ⟨_, same, -, rfl⟩ := iput_eq.mp second
  rw [put_inodes, Option.some.injEq] at same
  subst same
  have freed : Inode.drop { inode with nlinks := f inode.nlinks } = none := Inode.drop_free apart.last unlinked
  rw [put_put, freed]
  exact apart.rest

theorem apart_of_new (consistent : s.Consistent) (free : s.inodes c = none) (last : inode.count = 1) :
    (s.put c (some inode)).Apart c inode := by
  refine ⟨?_, put_inodes, last⟩
  rwa [put_put, put_same free]

variable {dir : Nat}

theorem make_enter {t u : State} {j : Nat} {access : Nat → Access} {name : List Byte} {nothing : Unit}
    (consistent : s.Consistent) (inside : c ≠ 0 ∧ c ≤ s.ninodes) (free : s.inodes c = none)
    (noEntries : inode.entries = []) (one : inode.nlinks = 1)
    (added : addEntry access dir name (s.put c (some inode)) = some (some j, t))
    (entered : enter dir j c name t = some (nothing, u)) : u.Consistent := by
  obtain ⟨rfl, parent, isParent, place⟩ := addEntry_eq added
  obtain ⟨_, same, rfl⟩ := setInode_eq.mp entered
  rw [isParent, Option.some.injEq] at same
  subst same
  obtain ⟨some_, isFree⟩ := parent.addEntry_some place
  have other : dir ≠ c := by
    rintro rfl
    rw [put_inodes, Option.some.injEq] at isParent
    subst isParent
    exact some_ noEntries
  rw [put_inodes_ne other] at isParent
  refine consistent.make inside free noEntries one isParent ?_ ?_ name
  · rwa [entries_of_some isParent]
  · rwa [target_of_some isParent]

theorem other_of_free {parent : Inode} (free : (s.put dir (some parent)).inodes c = none) : dir ≠ c := by
  rintro rfl
  rw [put_inodes] at free
  cases free

variable {error : Int}

theorem State.Apart.keeps_discard (apart : s.Apart c inode) (one : inode.nlinks = 1) (other : dir ≠ c)
    (returned : (do LinkCounts.discard dir c; pure error : Kernel Int) s = some (result, s')) :
    s'.Consistent := by
  obtain ⟨_, t, discarded, later⟩ := bind_eq_some.mp returned
  cases later
  obtain ⟨_, t, released, discarded⟩ := bind_eq_some.mp discarded
  obtain ⟨_, u, cleared, freed⟩ := bind_eq_some.mp discarded
  exact (apart.iput other released).discard (by rw [one]; rfl) cleared freed

theorem State.Apart.keeps_free (apart : s.Apart c inode) (one : inode.nlinks = 1)
    (returned : (do setNlinks c decrement; LinkCounts.iput c; LinkCounts.iput dir; pure error : Kernel Int) s =
      some (result, s')) : s'.Consistent := by
  obtain ⟨_, t, cleared, later⟩ := bind_eq_some.mp returned
  obtain ⟨_, u, freed, later⟩ := bind_eq_some.mp later
  exact keeps_fail dir error _ _ _ (apart.discard (by rw [one]; rfl) cleared freed) later

theorem State.Apart.keeps_unlinked (apart : s.Apart c inode) (other : dir ≠ c)
    (returned : (do LinkCounts.iput dir; setNlinks c fun _ => 0; LinkCounts.iput c; pure error : Kernel Int) s =
      some (result, s')) : s'.Consistent := by
  obtain ⟨_, t, released, later⟩ := bind_eq_some.mp returned
  obtain ⟨_, u, cleared, later⟩ := bind_eq_some.mp later
  obtain ⟨_, v, freed, later⟩ := bind_eq_some.mp later
  cases later
  exact (apart.iput other released).discard rfl cleared freed

theorem keeps_sysMknod (call : Call) (mode : Nat) : Keeps (sysMknod call mode) := by
  intro s result s' consistent returned
  unfold sysMknod at returned
  split at returned
  · cases returned
    exact consistent
  · obtain done | ⟨dir, parent, -, isParent, -, -, -, held, later⟩ := inDirectory_cases consistent returned
    · exact done
    obtain ⟨found, t, looked, later⟩ := bind_eq_some.mp later
    obtain ⟨rfl, -⟩ := findEntry_eq put_inodes looked
    cases found with
    | some _ => exact keeps_fail dir _ _ _ _ held later
    | none =>
      obtain ⟨new, t, allocated, later⟩ := bind_eq_some.mp later
      obtain ⟨rfl, rfl⟩ | ⟨c, rfl, free, nonzero, below, rfl⟩ := newInode_eq allocated
      · exact keeps_fail dir _ _ _ _ held later
      replace later := setInode_later put_inodes later
      rw [put_put] at later
      obtain ⟨place, t, added, later⟩ := bind_eq_some.mp later
      cases place with
      | none =>
        obtain ⟨rfl, -⟩ := addEntry_eq added
        exact (apart_of_new held free rfl).keeps_unlinked (other_of_free free) later
      | some j =>
        obtain ⟨_, t, entered, later⟩ := bind_eq_some.mp later
        exact keeps_fail_two dir c 0 _ _ _ (make_enter held ⟨nonzero, below⟩ free rfl rfl added entered) later

theorem keeps_sysSymlink (call : Call) : Keeps (sysSymlink call) := by
  intro s result s' consistent returned
  obtain done | ⟨dir, parent, -, isParent, -, -, -, held, later⟩ := inDirectory_cases consistent returned
  · exact done
  obtain ⟨new, t, allocated, later⟩ := bind_eq_some.mp later
  obtain ⟨rfl, rfl⟩ | ⟨c, rfl, free, nonzero, below, rfl⟩ := newInode_eq allocated
  · exact keeps_fail dir _ _ _ _ held later
  replace later := setInode_later put_inodes later
  rw [put_put] at later
  have other := other_of_free free
  split at later
  · exact (apart_of_new held free rfl).keeps_discard rfl other later
  split at later
  · exact (apart_of_new held free rfl).keeps_discard rfl other later
  obtain ⟨found, t, looked, later⟩ := bind_eq_some.mp later
  obtain ⟨rfl, -⟩ := findEntry_eq ((put_inodes_ne other).trans put_inodes) looked
  cases found with
  | some _ => exact (apart_of_new held free rfl).keeps_free rfl later
  | none =>
    obtain ⟨place, t, added, later⟩ := bind_eq_some.mp later
    cases place with
    | none =>
      obtain ⟨rfl, -⟩ := addEntry_eq added
      exact (apart_of_new held free rfl).keeps_free rfl later
    | some j =>
      obtain ⟨_, t, entered, later⟩ := bind_eq_some.mp later
      exact keeps_fail_two dir c 0 _ _ _ (make_enter held ⟨nonzero, below⟩ free rfl rfl added entered) later

theorem keeps_openNamei (call : Call) (flag mode : Nat) (linked : Option Nat) :
    Keeps (openNamei call flag mode linked) := by
  intro s result s' consistent returned
  unfold openNamei at returned
  generalize (if flag &&& O_TRUNC ≠ 0 ∧ flag &&& O_ACCMODE = 0 then flag ||| O_WRONLY else flag) = how at returned
  obtain ⟨_, t, led, later⟩ := bind_eq_some.mp returned
  obtain ⟨rfl, rfl⟩ | ⟨dir, parent, -, rfl, isParent, -, rfl⟩ := dirNamei_eq led
  · cases later
    exact consistent
  have held : (s.put dir (some { parent with count := parent.count + 1 })).Consistent :=
    consistent.update isParent rfl rfl rfl
  dsimp only at later
  split at later
  · split at later
    · cases later
      exact held
    · exact keeps_fail dir _ _ _ _ held later
  obtain ⟨found, t, looked, later⟩ := bind_eq_some.mp later
  obtain ⟨rfl, -⟩ := findEntry_eq put_inodes looked
  cases found with
  | none =>
    dsimp only at later
    split at later
    · exact keeps_fail dir _ _ _ _ held later
    obtain ⟨inode, t, read, later⟩ := bind_eq_some.mp later
    obtain ⟨-, rfl⟩ := inodeOf_eq.mp read
    split at later
    · obtain ⟨new, t, allocated, later⟩ := bind_eq_some.mp later
      obtain ⟨rfl, rfl⟩ | ⟨c, rfl, free, nonzero, below, rfl⟩ := newInode_eq allocated
      · exact keeps_fail dir _ _ _ _ held later
      replace later := setInode_later put_inodes later
      rw [put_put] at later
      obtain ⟨place, t, added, later⟩ := bind_eq_some.mp later
      cases place with
      | none =>
        obtain ⟨rfl, -⟩ := addEntry_eq added
        exact (apart_of_new held free rfl).keeps_free rfl later
      | some j =>
        obtain ⟨_, t, entered, later⟩ := bind_eq_some.mp later
        exact keeps_fail dir 0 _ _ _ (make_enter held ⟨nonzero, below⟩ free rfl rfl added entered) later
    · exact keeps_fail dir _ _ _ _ held later
  | some j =>
    obtain ⟨num, t, read, later⟩ := bind_eq_some.mp later
    obtain rfl := (entryInode_eq put_inodes read).1
    split at later
    · exact keeps_fail dir _ _ _ _ held later
    obtain ⟨_, t, took, later⟩ := bind_eq_some.mp later
    have both := keeps_hold num _ _ _ held took
    obtain ⟨target, t, followed, later⟩ := bind_eq_some.mp later
    have kept := keeps_followLink dir num linked _ _ _ both followed
    cases target with
    | none =>
      cases later
      exact kept
    | some target =>
      obtain ⟨inode, u, read, finish⟩ := bind_eq_some.mp later
      obtain ⟨-, rfl⟩ := inodeOf_eq.mp read
      split at finish
      · exact keeps_fail target _ _ _ _ kept finish
      · cases finish
        exact kept

theorem directory_isDir (inode : Inode) (num parent mode mask : Nat) :
    (inode.directory num parent (mode &&& 0o777 &&& mask)).isDir = true := by
  have noType : mode &&& 0o777 &&& mask &&& S_IFMT = 0 := by
    rw [Nat.and_assoc (mode &&& 0o777), Nat.and_comm mask, ← Nat.and_assoc, Nat.and_assoc mode]
    simp [S_IFMT]
  unfold Inode.isDir Inode.directory
  rw [decide_eq_true_eq, Nat.and_or_distrib_right, noType]
  rfl

theorem consistent_sysMkdir {mode : Nat} (consistent : s.Consistent)
    (below : ∀ dir parent, call.Enters s dir parent → call.disk.space = true → call.disk.readable = true →
      (∃ n, n ≠ 0 ∧ n ≤ s.ninodes ∧ s.inodes n = none) → parent.nlinks ≠ 255)
    (returned : sysMkdir call mode s = some (result, s')) : s'.Consistent := by
  obtain done | ⟨dir, parent, isCall, isParent, named, search, write, held, later⟩ := inDirectory_cases consistent returned
  · exact done
  obtain ⟨found, t, looked, later⟩ := bind_eq_some.mp later
  obtain ⟨rfl, absent⟩ := findEntry_eq put_inodes looked
  cases found with
  | some _ => exact keeps_fail dir _ _ _ _ held later
  | none =>
    obtain ⟨new, t, allocated, later⟩ := bind_eq_some.mp later
    obtain ⟨rfl, rfl⟩ | ⟨c, rfl, free, nonzero, inside, rfl⟩ := newInode_eq allocated
    · exact keeps_fail dir _ _ _ _ held later
    have other := other_of_free free
    dsimp only at later
    split at later
    · exact (apart_of_new held free rfl).keeps_discard rfl other later
    next space =>
    split at later
    · exact (apart_of_new held free rfl).keeps_discard rfl other later
    next readable =>
    replace later := setInode_later put_inodes later
    rw [put_put] at later
    obtain ⟨place, t, added, later⟩ := bind_eq_some.mp later
    obtain ⟨rfl, _, same, isPlace⟩ := addEntry_eq added
    rw [put_inodes_ne other, put_inodes, Option.some.injEq] at same
    subst same
    cases place with
    | none => exact (apart_of_new held free rfl).keeps_unlinked other later
    | some j =>
      have limit : parent.nlinks ≠ 255 :=
        below dir parent ⟨isCall, isParent, search, write, named, absent.symm, j, isPlace⟩
          (Bool.of_not_eq_false space) (Bool.of_not_eq_false readable)
          ⟨c, nonzero, inside, by rwa [put_inodes_ne (Ne.symm other)] at free⟩
      have byte := consistent.tree.byte dir
      rw [nlinks_of_some isParent] at byte
      have lower : parent.nlinks < 255 := by omega
      obtain ⟨some_, isFree⟩ := Inode.addEntry_some isPlace
      replace later := setInode_later ((put_inodes_ne other).trans put_inodes) later
      replace later := setInode_later put_inodes later
      rw [put_put] at later
      refine keeps_fail_two dir c 0 _ _ _ ?_ later
      exact held.mkdir ⟨nonzero, inside⟩ free rfl rfl (directory_isDir _ _ _ _ _) put_inodes
        (by rwa [entries_of_some put_inodes]) (by rwa [target_of_some put_inodes]) lower call.name

theorem consistent_sysLink {old : Option Nat} (consistent : s.Consistent)
    (below : ∀ dir parent num inode, call.Enters s dir parent → old = some num →
      s.inodes num = some inode → inode.isDir = false → inode.nlinks ≠ 255)
    (returned : sysLink call old s = some (result, s')) : s'.Consistent := by
  obtain ⟨_, t, reached, later⟩ := bind_eq_some.mp returned
  cases old with
  | none =>
    cases reached
    cases later
    exact consistent
  | some num =>
    obtain ⟨_, t, took, reached⟩ := bind_eq_some.mp reached
    cases reached
    obtain ⟨oldinode, isOld, rfl⟩ := setInode_eq.mp took
    have kept : (s.put num (some { oldinode with count := oldinode.count + 1 })).Consistent :=
      consistent.update isOld rfl rfl rfl
    dsimp only at later
    replace later := inodeOf_later put_inodes later
    split at later
    · exact keeps_fail num _ _ _ _ kept later
    next notDir =>
    obtain ⟨_, t, led, later⟩ := bind_eq_some.mp later
    obtain ⟨rfl, rfl⟩ | ⟨dir, parent, isCall, rfl, isParent, search, rfl⟩ := dirNamei_eq led
    · exact keeps_fail num _ _ _ _ kept later
    have held : ((s.put num (some { oldinode with count := oldinode.count + 1 })).put dir
        (some { parent with count := parent.count + 1 })).Consistent := kept.update isParent rfl rfl rfl
    have other : num ≠ dir := by
      rintro rfl
      rw [put_inodes, Option.some.injEq] at isParent
      subst isParent
      exact notDir search.1
    dsimp only at later
    split at later
    · exact keeps_fail_two num dir _ _ _ _ held later
    next named =>
    replace later := inodeOf_later put_inodes later
    split at later
    · next write =>
      obtain ⟨found, t, looked, later⟩ := bind_eq_some.mp later
      obtain ⟨rfl, absent⟩ := findEntry_eq put_inodes looked
      cases found with
      | some _ => exact keeps_fail_two dir num _ _ _ _ held later
      | none =>
        obtain ⟨place, t, added, later⟩ := bind_eq_some.mp later
        obtain ⟨rfl, _, same, isPlace⟩ := addEntry_eq added
        rw [put_inodes, Option.some.injEq] at same
        subst same
        cases place with
        | none => exact keeps_fail_two dir num _ _ _ _ held later
        | some j =>
          have isParent' : s.inodes dir = some parent := by
            rwa [put_inodes_ne (Ne.symm other)] at isParent
          have limit : oldinode.nlinks ≠ 255 :=
            below dir parent num oldinode ⟨isCall, isParent', search, write, named, absent.symm, j, isPlace⟩
              rfl isOld (Bool.of_not_eq_true notDir)
          have byte := consistent.tree.byte num
          rw [nlinks_of_some isOld] at byte
          have lower : oldinode.nlinks < 255 := by omega
          obtain ⟨some_, isFree⟩ := Inode.addEntry_some isPlace
          have linked : parent.nlinks ≠ 0 := by
            have pos := consistent.nlinks_pos (d := dir) (by rwa [entries_of_some isParent'])
            rw [nlinks_of_some isParent'] at pos
            omega
          replace later := setInode_later put_inodes later
          obtain ⟨_, t, released, later⟩ := bind_eq_some.mp later
          obtain ⟨_, same, -, rfl⟩ := iput_eq.mp released
          rw [put_inodes, Option.some.injEq] at same
          subst same
          rw [Inode.drop_linked (by exact linked), put_put, put_put] at later
          replace later := setInode_later ((put_inodes_ne other).trans put_inodes) later
          refine keeps_fail num 0 _ _ _ ?_ later
          have single : ((s.put num (some { oldinode with count := oldinode.count + 1 })).put dir
              (some { parent with count := parent.count + 1 - 1 })).Consistent :=
            kept.update isParent rfl rfl rfl
          have named_ := single.link ((put_inodes_ne other).trans put_inodes) (Bool.of_not_eq_true notDir)
            put_inodes (by rwa [entries_of_some put_inodes]) (by rwa [target_of_some put_inodes]) lower call.name
          rw [put_put] at named_
          exact named_
    · exact keeps_fail_two dir num _ _ _ _ held later

theorem keeps_sysUnlink (call : Call) : Keeps (sysUnlink call) := by
  intro s result s' consistent returned
  obtain done | ⟨dir, parent, -, isParent, -, search, -, held, later⟩ := inDirectory_cases consistent returned
  · exact done
  obtain ⟨found, t, looked, later⟩ := bind_eq_some.mp later
  obtain ⟨rfl, isFound⟩ := findEntry_eq put_inodes looked
  cases found with
  | none => exact keeps_fail dir _ _ _ _ held later
  | some j =>
    have used := Inode.findEntry_some isFound.symm
    obtain ⟨num, t, read, later⟩ := bind_eq_some.mp later
    obtain ⟨rfl, isTarget⟩ := entryInode_eq put_inodes read
    obtain ⟨_, t, took, later⟩ := bind_eq_some.mp later
    obtain ⟨child, isChild, rfl⟩ := setInode_eq.mp took
    have both : ((s.put dir (some { parent with count := parent.count + 1 })).put num
        (some { child with count := child.count + 1 })).Consistent := held.update isChild rfl rfl rfl
    obtain ⟨mother, t, read, later⟩ := bind_eq_some.mp later
    obtain ⟨isMother, rfl⟩ := inodeOf_eq.mp read
    replace later := inodeOf_later put_inodes later
    split at later
    · exact keeps_fail_two dir num _ _ _ _ both later
    split at later
    · exact keeps_fail_two num dir _ _ _ _ both later
    next notDir =>
    have other : num ≠ dir := by
      rintro rfl
      rw [put_inodes, Option.some.injEq] at isChild
      subst isChild
      exact notDir search.1
    have isTarget' : ((s.put dir (some { parent with count := parent.count + 1 })).put num
        (some { child with count := child.count + 1 })).target dir j = num := by
      rw [target_of_some ((put_inodes_ne (Ne.symm other)).trans put_inodes), isTarget]
    have linked : child.nlinks ≠ 0 := by
      have pos := (both.links_pos (both.tree.inside put_inodes).1).mpr ⟨dir, j, isTarget'⟩
      rw [nlinks_of_some put_inodes] at pos
      exact Nat.pos_iff_ne_zero.mp pos
    have unlinked := both.unlink put_inodes (Bool.of_not_eq_true notDir) isMother isTarget'
    replace later := setInode_later put_inodes later
    rw [put_put] at later
    obtain ⟨_, t, left, later⟩ := bind_eq_some.mp later
    obtain ⟨_, same, rfl⟩ := setInode_eq.mp left
    rw [put_inodes_ne (Ne.symm other)] at same isMother
    rw [isMother, Option.some.injEq] at same
    subst same
    replace later := setInode_later ((put_inodes_ne other).trans put_inodes) later
    refine keeps_fail_two num dir 0 _ _ _ ?_ later
    dsimp only
    rw [if_neg linked, put_comm other, put_put]
    rw [put_comm other, put_put] at unlinked
    exact unlinked

theorem Inode.emptyDir_entries {num : Nat} {access : Nat → Access} (empty : inode.emptyDir num access = true) :
    inode.entries ≠ [] := by
  intro none_
  rw [Inode.emptyDir, none_] at empty
  cases empty

theorem put_alternating {m n : Nat} (other : m ≠ n) (first last mid fourth second : Option Inode) :
    ((((s.put m first).put n second).put m mid).put m fourth).put n last =
      ((s.put m mid).put n last).put m fourth := by
  rw [put_put mid, put_comm (Ne.symm other) fourth, put_put second, put_comm (Ne.symm other) first, put_put first,
    put_comm (Ne.symm other) mid, put_put mid]

theorem consistent_sysRmdir (consistent : s.Consistent)
    (nothing : ∀ dir num parent child, call.Empties s dir num parent child →
      ∀ k, 2 ≤ k → targetOf child.entries k = 0)
    (returned : sysRmdir call s = some (result, s')) : s'.Consistent := by
  obtain done | ⟨dir, parent, isCall, isParent, named, search, write, held, later⟩ := inDirectory_cases consistent returned
  · exact done
  obtain ⟨found, t, looked, later⟩ := bind_eq_some.mp later
  obtain ⟨rfl, isFound⟩ := findEntry_eq put_inodes looked
  cases found with
  | none => exact keeps_fail dir _ _ _ _ held later
  | some j =>
    obtain ⟨num, t, read, later⟩ := bind_eq_some.mp later
    obtain ⟨rfl, isTarget⟩ := entryInode_eq put_inodes read
    obtain ⟨_, t, took, later⟩ := bind_eq_some.mp later
    obtain ⟨child, isChild, rfl⟩ := setInode_eq.mp took
    have both : ((s.put dir (some { parent with count := parent.count + 1 })).put num
        (some { child with count := child.count + 1 })).Consistent := held.update isChild rfl rfl rfl
    obtain ⟨mother, t, read, later⟩ := bind_eq_some.mp later
    obtain ⟨isMother, rfl⟩ := inodeOf_eq.mp read
    replace later := inodeOf_later put_inodes later
    split at later
    · exact keeps_fail_two dir num _ _ _ _ both later
    next owned =>
    split at later
    · exact keeps_fail_two dir num _ _ _ _ both later
    next unused =>
    split at later
    · exact keeps_fail_two num dir _ _ _ _ both later
    next other =>
    split at later
    · exact keeps_fail_two num dir _ _ _ _ both later
    next isDir =>
    split at later
    · next empty =>
      obtain ⟨_, t, left, rest⟩ := bind_eq_some.mp later
      obtain ⟨_, same, rfl⟩ := setInode_eq.mp left
      have isMother' := isMother
      rw [put_inodes_ne (Ne.symm other), put_inodes, Option.some.injEq] at isMother'
      subst isMother'
      have isChild' : s.inodes num = some child := by rwa [put_inodes_ne other] at isChild
      have none_ : ∀ k, 2 ≤ k → targetOf child.entries k = 0 :=
        nothing dir num parent child
          { isDir := isCall, isParent := isParent, search := search, write := write, named := named
            found := ⟨j, isFound.symm, isTarget.symm⟩, isChild := isChild', other := other
            unused := by dsimp only at unused; omega
            owned := owned, childIsDir := Bool.of_not_eq_false isDir, empty := empty }
      have removed := both.rmdir (j := j) put_inodes (Bool.of_not_eq_false isDir)
        (by rw [entries_of_some put_inodes]; exact Inode.emptyDir_entries empty)
        (fun k beyond => by rw [target_of_some put_inodes]; exact none_ k beyond) isMother other
        (by rw [target_of_some isMother, isTarget])
      rw [isMother, Option.some.injEq] at same
      subst same
      replace rest := setInode_later ((put_inodes_ne other).trans put_inodes) rest
      replace rest := setInode_later ((put_inodes_ne (Ne.symm other)).trans put_inodes) rest
      obtain ⟨_, t, released, rest⟩ := bind_eq_some.mp rest
      obtain ⟨_, same, -, rfl⟩ := iput_eq.mp released
      rw [put_inodes, Option.some.injEq] at same
      subst same
      obtain ⟨_, t, freed, rest⟩ := bind_eq_some.mp rest
      obtain ⟨_, same, count, rfl⟩ := iput_eq.mp freed
      rw [put_inodes_ne other, put_inodes_ne other, put_inodes, Option.some.injEq] at same
      subst same
      cases rest
      have gone : Inode.drop { child with count := child.count + 1, nlinks := 0 } = none :=
        Inode.drop_free (by dsimp only at unused ⊢; omega) rfl
      rw [gone]
      have dropped := removed.drop ((put_inodes_ne (Ne.symm other)).trans put_inodes)
      rw [put_alternating (Ne.symm other)]
      exact dropped
    · exact keeps_fail_two num dir _ _ _ _ both later

theorem State.Consistent.step {m : Move} (consistent : s.Consistent) (careful : s.Careful m)
    (moved : s.step m = some s') : s'.Consistent := by
  cases m with
  | close num =>
    obtain ⟨⟨_, t⟩, returned, same⟩ := Option.map_eq_some_iff.mp moved
    cases same
    exact keeps_iput num _ _ _ consistent returned
  | call call =>
    obtain ⟨⟨result, t⟩, returned, same⟩ := Option.map_eq_some_iff.mp moved
    cases same
    unfold Call.run at returned
    dsimp only [State.Careful] at careful
    cases isKind : call.kind with
    | creat flag mode linked =>
      rw [isKind] at returned
      exact keeps_openNamei call flag mode linked _ _ _ consistent returned
    | mknod mode =>
      rw [isKind] at returned
      exact keeps_sysMknod call mode _ _ _ consistent returned
    | mkdir mode =>
      rw [isKind] at returned careful
      exact consistent_sysMkdir consistent careful returned
    | rmdir =>
      rw [isKind] at returned careful
      exact consistent_sysRmdir consistent careful returned
    | link old =>
      rw [isKind] at returned careful
      exact consistent_sysLink consistent careful returned
    | unlink =>
      rw [isKind] at returned
      exact keeps_sysUnlink call _ _ _ consistent returned
    | symlink =>
      rw [isKind] at returned
      exact keeps_sysSymlink call _ _ _ consistent returned

end Calls

/-- Counts are the numbers of entries that name the inodes, and an inode that an entry
names is not free. A directory is named by its own first entry, by the second ones of
others, and by an entry of its parent. -/
structure State.LinksExact (s : State) : Prop where
  exact : ∀ n inode, s.inodes n = some inode → inode.nlinks = s.links n
  kept : ∀ d j, s.target d j ≠ 0 → s.inodes (s.target d j) ≠ none
  directories : ∀ n d j, s.entries n ≠ [] → s.target d j = n → d = n ∧ j = 0 ∨ j = 1 ∨ s.target n 1 = d

theorem State.Consistent.linksExact {s : State} (consistent : s.Consistent) : s.LinksExact where
  exact n inode isInode := by
    rw [← consistent.exact n (consistent.tree.inside isInode).1, nlinks_of_some isInode]
  kept d j used := consistent.allocated used
  directories n d j some_ isTarget := by
    have used : n ≠ 0 := by
      rintro rfl
      exact some_ consistent.tree.entries_zero
    have more : s.entries d ≠ [] := State.Tree.has_entries (isTarget.trans_ne used)
    match j with
    | 0 => exact .inl ⟨(consistent.tree.heads d more).2.1.symm.trans isTarget, rfl⟩
    | 1 => exact .inr (.inl rfl)
    | j + 2 =>
      have below := consistent.tree.below d (j + 2) (by omega)
      rw [isTarget] at below
      exact .inr (.inr (below (consistent.tree.heads n some_).1 some_))

/-- Link counts stay exact as long as no count of 255 is incremented, and no directory is
removed while `empty_dir` does not see all of its entries. -/
theorem links_exact_of_careful {start s : State} (consistent : start.Consistent)
    (reached : Run State.step State.Careful start s) : s.LinksExact :=
  (reached.invariant (P := State.Consistent) (fun consistent careful moved => consistent.step careful moved)
    consistent).linksExact

/-! ## A file with many names -/

def nameAt (i : Nat) : List Byte := [97 + (i / 16).toUInt8, 97 + (i % 16).toUInt8]

def linkedEntries (k : Nat) : List DirEntry :=
  entryOf 1 DOT :: entryOf 1 DOTDOT :: (List.range k).map fun i => entryOf 2 (nameAt i)

def linkedState (k : Nat) : State where
  ninodes := 20
  inodes n :=
    if n = 1 then
      some { mode := 0o040755, uid := 0, gid := 0, nlinks := 2, count := 1, entries := linkedEntries k }
    else if n = 2 then some { mode := 0o100644, uid := 0, gid := 0, nlinks := k, count := 0, entries := [] }
    else none

theorem linked_target (k d j : Nat) :
    (linkedState k).target d j = if d = 1 then if j < 2 then 1 else if j < k + 2 then 2 else 0 else 0 := by
  by_cases isRoot : d = 1
  · subst isRoot
    rw [if_pos rfl, target_of_some (s := linkedState k) (d := 1) rfl]
    match j with
    | 0 | 1 => rfl
    | j + 2 =>
      have plain : targetOf (linkedEntries k) (j + 2) = if j < k then 2 else 0 := by
        unfold targetOf linkedEntries
        rw [List.getElem?_cons_succ, List.getElem?_cons_succ, List.getElem?_map]
        by_cases inside : j < k
        · rw [List.getElem?_range inside, if_pos inside]
          rfl
        · rw [List.getElem?_eq_none (by simpa using inside), if_neg inside]
          rfl
      simpa using plain
  · rw [if_neg isRoot]
    by_cases isFile : d = 2
    · subst isFile
      rfl
    · simp [State.target, State.entries, linkedState, isRoot, isFile, targetOf]

theorem linked_links (k : Nat) {n : Nat} (used : n ≠ 0) :
    (linkedState k).links n = if n = 1 then 2 else if n = 2 then k else 0 := by
  have others : ∀ d, d ≠ 1 → named ((linkedState k).entries d) n = 0 := by
    intro d other
    by_contra some_
    obtain ⟨j, isTarget⟩ := (named_pos used).mp (Nat.pos_of_ne_zero some_)
    have plain := linked_target k d j
    rw [if_neg other] at plain
    exact used (isTarget.symm.trans plain)
  have root : named ((linkedState k).entries 1) n = if n = 1 then 2 else if n = 2 then k else 0 := by
    change (linkedEntries k).countP (fun e => e.inode = n) = _
    unfold linkedEntries
    rw [List.countP_cons, List.countP_cons, List.countP_map]
    by_cases isRoot : n = 1
    · subst isRoot
      simp [entryOf, Function.comp_def]
    by_cases isFile : n = 2
    · subst isFile
      simp [entryOf, Function.comp_def]
    · simp [entryOf, Function.comp_def, isRoot, isFile, Ne.symm isRoot, Ne.symm isFile]
  unfold State.links
  rw [Finset.sum_eq_single 1 (fun d _ other => others d other) (fun outside => ?_), root]
  exact absurd (Finset.mem_range.mpr (by simp [linkedState])) outside

theorem linked_consistent {k : Nat} (byte : k < 256) : (linkedState k).Consistent := by
  have rootIsDir : (linkedState k).isDir 1 = true := by
    rw [isDir_of_some (s := linkedState k) (n := 1) rfl, Inode.isDir]
    exact decide_eq_true (show 0o040755 &&& S_IFMT = S_IFDIR by decide)
  have isDir (n : Nat) : (linkedState k).isDir n = true → n = 1 := by
    intro isTrue
    by_contra other
    by_cases isFile : n = 2
    · subst isFile
      rw [isDir_of_some (s := linkedState k) (n := 2) rfl, Inode.isDir] at isTrue
      exact absurd (of_decide_eq_true isTrue) (show 0o100644 &&& S_IFMT ≠ S_IFDIR by decide)
    · simp [State.isDir, linkedState, other, isFile] at isTrue
  have entries (n : Nat) : (linkedState k).entries n ≠ [] → n = 1 := by
    intro some_
    by_contra other
    by_cases isFile : n = 2
    · subst isFile
      exact some_ rfl
    · simp [State.entries, linkedState, other, isFile] at some_
  have notBehind {d j : Nat} (behind : 2 ≤ j) : (linkedState k).target d j ≠ 1 := by
    rw [linked_target]
    repeat' split
    all_goals omega
  refine ⟨⟨?_, ?_, ?_, ?_, ?_, ?_⟩, ?_⟩
  · intro n isSome
    simp only [linkedState] at isSome ⊢
    split at isSome
    · omega
    · split at isSome
      · omega
      · exact absurd rfl isSome
  · intro n
    unfold State.nlinks linkedState
    dsimp only
    repeat' split
    all_goals simp [byte]
  · intro d some_
    rw [entries d some_]
    exact ⟨rootIsDir, by simp [linked_target], by simp [linked_target]⟩
  · intro d some_
    rw [entries d some_]
    exact .inr (.inl (by simp [linked_target]))
  · intro d j behind isTrue
    exact absurd (isDir _ isTrue) (notBehind behind)
  · intro d j e i behind _ isTrue
    exact absurd (isDir _ isTrue) (notBehind behind)
  · intro n used
    rw [linked_links k used]
    unfold State.nlinks linkedState
    dsimp only
    repeat' split
    all_goals rfl

/-- What can be evaluated of `State.Careful`. -/
def checkCareful (s : State) : Move → Bool
  | .close _ => true
  | .call call =>
    match call.kind with
    | .mkdir _ => (call.dir.bind s.inodes).all fun parent => parent.nlinks ≠ 255
    | .link old => (old.bind s.inodes).all fun inode => inode.nlinks ≠ 255
    | .rmdir => false
    | _ => true

theorem careful_of_check (s : State) (m : Move) (checked : checkCareful s m = true) : s.Careful m := by
  cases m with
  | close num => trivial
  | call call =>
    unfold checkCareful at checked
    dsimp only [State.Careful] at checked ⊢
    cases isKind : call.kind with
    | mkdir mode =>
      rw [isKind] at checked
      intro dir parent enters _ _ _
      dsimp only at checked
      rw [enters.isDir, Option.bind_some, enters.isParent] at checked
      simpa using checked
    | link old =>
      rw [isKind] at checked
      intro dir parent num inode _ isOld isInode _
      dsimp only at checked
      rw [isOld, Option.bind_some, isInode] at checked
      simpa using checked
    | rmdir =>
      rw [isKind] at checked
      cases checked
    | creat _ _ _ | mknod _ | unlink | symlink => trivial

def superuser : Namei.Task Nat := { euid := 0, egid := 0, groups := [], umask := 0, root := 1, pwd := 1 }

def goodDisk : Disk where
  find _ := .there
  add _ := .there
  empty _ := .there
  space := true
  readable := true

def callOf (kind : Kind) (dir : Nat) (letter : Byte) : Move :=
  .call { kind := kind, task := superuser, dir := some dir, name := [letter], disk := goodDisk }

theorem links_exact_of_careful_tree :
    ∃ s, Run State.step State.Careful (linkedState 1) s ∧ (s.nlinks 1 = 3 ∧ s.nlinks 2 = 2 ∧ s.nlinks 3 = 2) ∧
      s.LinksExact := by
  obtain ⟨s, reached, counts⟩ := exists_of_runIf State.step checkCareful (linkedState 1)
    [callOf (.mkdir 0o755) 1 97, callOf (.link (some 2)) 3 98, callOf (.mknod 0o100644) 3 99, callOf .unlink 3 99]
    (fun s => s.nlinks 1 = 3 ∧ s.nlinks 2 = 2 ∧ s.nlinks 3 = 2) (by decide +kernel)
  have careful := reached.weaken careful_of_check
  exact ⟨s, careful, counts, links_exact_of_careful (linked_consistent (by decide)) careful⟩

/-- One more link to a file with 255 frees the file. -/
theorem link_frees_named :
    (linkedState 255).Consistent ∧ ∃ s, Reachable State.step (linkedState 255) s ∧
      s.target 1 257 = 2 ∧ s.inodes 2 = none ∧ ¬s.LinksExact := by
  obtain ⟨s, ran, isTarget, isFree⟩ := exists_of_run State.step (linkedState 255) [callOf (.link (some 2)) 1 98]
    (fun s => s.target 1 257 = 2 ∧ s.inodes 2 = none) (by decide +kernel)
  refine ⟨linked_consistent (by decide), s, reachable_of_run ran, isTarget, isFree, fun linksExact => ?_⟩
  have kept := linksExact.kept 1 257
  rw [isTarget] at kept
  exact kept (by decide) isFree

end Linux012.Fs.LinkCounts

import Linux012.Fs.CreationSteps

/-! A call that cannot create a name takes back what it has done. -/

set_option autoImplicit false

namespace Linux012.Fs.Creation

open Bitmap ZoneTree BlockTree Function
open ZoneTree.State (depth)
open EntryBlocks (Dir entryAt zoneOf)
open Namei (Byte DirEntry permission MAY_EXEC MAY_WRITE)
open Truncate (Mode S_ISREG S_ISDIR S_ISLNK S_IFREG S_IFDIR S_IFLNK S_IFMT)
open Naming (EPERM ENOENT EACCES EEXIST EISDIR ENOSPC O_ACCMODE O_WRONLY O_CREAT O_EXCL O_TRUNC accMode)

variable {s t u : System} {parent : Option Nat} {held : List Nat} {n dir num : Nat} {call : Call}

/-! ## What has not changed -/

/-- The file system is as it was, up to index blocks of the directory `parent`. -/
structure Unchanged (s t : System) (parent : Option Nat) : Prop where
  imap : ∀ n, marked t.volume.sb.imap n = marked s.volume.sb.imap n
  mode : ∀ n, s.live n = true → (t.inode n).mode = (s.inode n).mode
  nlinks : ∀ n, s.live n = true → (t.inode n).nlinks = (s.inode n).nlinks
  entries : ∀ n, s.live n = true → S_ISDIR (s.inode n).mode = true → t.entries n = s.entries n
  zmap : ∀ m, marked t.volume.sb.zmap m = true → marked s.volume.sb.zmap m = true ∨
    ∃ dir, parent = some dir ∧ ∃ l q, q.length < depth l ∧ (t.dir dir).value l q ≠ 0 ∧
      t.volume.sb.bitOf ((t.dir dir).value l q) = m

namespace Left

theorem contents_of_dir (consistent : s.Consistent) (left : Left s t parent held none 0) (live : s.live n = true)
    (isDir : S_ISDIR (s.inode n).mode = true) (parents : ∀ dir, parent = some dir → S_ISDIR (s.inode dir).mode = true)
    {l : Fin 9} {q : List (Fin 512)} (inside : q.length ≤ depth l) (used : (s.dir n).value l q ≠ 0)
    (full : parent = some n → q.length = depth l) :
    t.volume.contents ((s.dir n).value l q) = s.volume.contents ((s.dir n).value l q) := by
  have inUse := consistent.inUse (n, l) q inside
  rw [System.Consistent.root_of_dir live isDir] at inUse
  refine left.contents _ used (inUse used) fun l' q' inner same => ?_
  cases parent with
  | none => exact used (same.symm.trans (s.tree_none l' q'))
  | some dir =>
    have distinct := consistent.distinct (k := (n, l)) (l := (dir, l')) inside (Nat.le_of_lt inner)
    rw [System.Consistent.root_of_dir live isDir,
      System.Consistent.root_of_dir (left.dir dir rfl) (parents dir rfl)] at distinct
    obtain ⟨here, there⟩ := distinct used same.symm
    rw [Prod.mk.injEq] at here
    obtain ⟨rfl, rfl⟩ := here
    subst there
    exact absurd (full rfl) (Nat.ne_of_lt inner)

theorem value_of_dir (consistent : s.Consistent) (left : Left s t parent held none 0) (live : s.live n = true)
    (isDir : S_ISDIR (s.inode n).mode = true) (parents : ∀ dir, parent = some dir → S_ISDIR (s.inode dir).mode = true)
    {l : Fin 9} {q : List (Fin 512)} (full : q.length = depth l) : (t.dir n).value l q = (s.dir n).value l q := by
  by_cases here : parent = some n
  · subst here
    exact left.leaves l q full
  · have zone : (t.dir n).zone = (s.dir n).zone := left.zones n live here
    rw [State.value, State.value, zone]
    exact walk_congr fun front shorter nonzero =>
      left.contents_of_dir consistent live isDir parents (by omega) nonzero fun same => absurd same here

theorem entries (consistent : s.Consistent) (left : Left s t parent held none 0) (live : s.live n = true)
    (isDir : S_ISDIR (s.inode n).mode = true) (parents : ∀ dir, parent = some dir → S_ISDIR (s.inode dir).mode = true) :
    t.entries n = s.entries n := by
  have zone (k : Nat) : zoneOf (t.dir n).toState k = zoneOf (s.dir n).toState k := by
    by_cases inside : k < State.blocks
    · rw [EntryBlocks.zoneOf_of_lt inside, EntryBlocks.zoneOf_of_lt inside]
      exact left.value_of_dir consistent live isDir parents (State.length_place _)
    · rw [zoneOf, zoneOf, dif_neg inside, dif_neg inside]
  have entry {j : Nat} (used : zoneOf (s.dir n).toState (j / 64) ≠ 0) :
      entryAt (t.dir n).toState j = entryAt (s.dir n).toState j := by
    have inside := EntryBlocks.lt_of_zoneOf used
    rw [entryAt, entryAt, zone]
    rw [EntryBlocks.zoneOf_of_lt inside] at used ⊢
    have full := State.length_place ⟨j / 64, inside⟩
    exact congrArg (EntryBlocks.entry · (j % 64))
      (left.contents_of_dir consistent live isDir parents (Nat.le_of_eq full) used fun _ => full)
  ext e
  rw [System.entries, System.entries, Set.mem_ofPred_eq, Set.mem_ofPred_eq, left.size n live, zone]
  refine and_congr_right fun _ => and_congr_right fun used => ?_
  rw [entry used]

theorem unchanged (consistent : s.Consistent) (left : Left s t parent held none 0)
    (parents : ∀ dir, parent = some dir → S_ISDIR (s.inode dir).mode = true) : Unchanged s t parent := by
  refine ⟨fun n => ?_, left.mode, left.nlinks, fun n live isDir => left.entries consistent live isDir parents,
    fun m isSet => ?_⟩
  · rw [Bool.eq_iff_iff]
    simpa using left.imap n
  · rcases left.zmap m isSet with old | ⟨zero, -⟩ | ⟨l, q, inner, used, number⟩
    · exact .inl old
    · exact absurd rfl zero
    · cases parent with
      | none => exact absurd (t.tree_none l q) used
      | some dir => exact .inr ⟨dir, rfl, l, q, inner, used, (left.bitOf _).trans number⟩

end Left

/-! ## The calls -/

def Undone (s : System) (call : Call) (t : System) : Prop :=
  ∃ parent held, Left s t parent held none 0 ∧
    ∀ dir, parent = some dir → call.dir = some dir ∧ S_ISDIR (s.inode dir).mode = true

structure Entered (s : System) (call : Call) (dir : Nat) : Prop where
  isCall : call.dir = some dir
  isDir : S_ISDIR (s.inode dir).mode = true
  live : s.live dir = true

theorem Left.undone (left : Left s t none held none 0) : Undone s call t :=
  ⟨none, held, left, fun _ isNone => by cases isNone⟩

theorem Left.undone_in (left : Left s t (some dir) held none 0) (entered : Entered s call dir) : Undone s call t := by
  refine ⟨some dir, held, left, fun dir' same => ?_⟩
  cases same
  exact ⟨entered.isCall, entered.isDir⟩

def Fails (s : System) (call : Call) (ret : Int) (t : System) : Prop := ret < 0 → Undone s call t

theorem fails_not : Ends (pure 0 : Kernel Int) t (Fails s call) := .pure fun negative => absurd negative (by decide)

theorem Left.leave (consistent : s.Consistent) (left : Left s t none (dir :: held) none 0) (live : s.live dir = true)
    (ret : Int) : Ends (iput dir >>= fun _ => (pure ret : Kernel Int)) t (Fails s call) :=
  .bind (left.iput_left consistent live) fun _ _ left => .pure fun _ => left.undone

theorem Left.reach_left {path : Option Nat} (left : Left s t none held none 0)
    (leads : ∀ n, path = some n → s.live n = true) :
    Ends (reach path) t fun found u => (found = none → Left s u none held none 0) ∧
      ∀ n, found = some n → Left s u none (n :: held) none 0 ∧ path = some n := by
  cases path with
  | none => exact .pure ⟨fun _ => left, fun n isSome => by cases isSome⟩
  | some n =>
    refine .bind (left.hold_left (leads n rfl)) fun _ u left => .pure ⟨fun isNone => (by cases isNone), ?_⟩
    rintro m ⟨⟩
    exact ⟨left, rfl⟩

theorem dirNamei_ends (consistent : s.Consistent) (leads : ∀ dir, call.dir = some dir → s.live dir = true)
    (left : Left s t none held none 0) :
    Ends (dirNamei call) t fun found u => (found = none → Left s u none held none 0) ∧
      ∀ dir, found = some dir → Left s u none (dir :: held) none 0 ∧ Entered s call dir := by
  rw [dirNamei]
  refine .bind (left.reach_left leads) fun found u arrived => ?_
  cases found with
  | none => exact .pure ⟨arrived.1, fun dir isSome => by cases isSome⟩
  | some dir =>
    obtain ⟨left, isCall⟩ := arrived.2 dir rfl
    have live := leads dir isCall
    refine inodeOf_bind (.ite (fun isDir => .pure ⟨fun isNone => (by cases isNone), ?_⟩) fun _ => ?_)
    · rintro dir' ⟨⟩
      exact ⟨left, isCall, left.mode dir live ▸ isDir.1, live⟩
    · refine .bind (left.iput_left consistent live) fun _ v left => .pure ⟨fun _ => left, fun dir isSome => ?_⟩
      cases isSome

theorem inDirectory_ends (consistent : s.Consistent) (leads : ∀ dir, call.dir = some dir → s.live dir = true)
    {noDir noName noWrite : Int} {rest : Nat → Kernel Int}
    (goesOn : ∀ dir t, Entered s call dir → Left s t none [dir] none 0 → Ends (rest dir) t (Fails s call)) :
    Ends (inDirectory call noDir noName noWrite rest) s (Fails s call) := by
  rw [inDirectory]
  refine .bind (dirNamei_ends consistent leads (.start consistent)) fun found t arrived => ?_
  cases found with
  | none => exact .pure fun _ => (arrived.1 rfl).undone
  | some dir =>
    obtain ⟨left, entered⟩ := arrived.2 dir rfl
    refine .ite (fun _ => left.leave consistent entered.live noName) fun _ => ?_
    exact inodeOf_bind (.ite (fun _ => goesOn dir t entered left) fun _ => left.leave consistent entered.live noWrite)

theorem owns_nothing {i : Inode} (zone : hasZones i.mode = true → i.zone = fun _ => 0) : Owns i 0 := by
  rw [Owns]
  split
  · next mode => rw [zone mode, update_eq_self_iff.mpr rfl]
  · rfl

theorem not_device_of_file {mode : Mode} (file : hasZones mode = true) :
    (S_ISBLK mode || S_ISCHR mode) = false := by
  simp only [hasZones, S_ISREG, S_ISDIR, S_ISLNK, Bool.or_eq_true, beq_iff_eq] at file
  rw [S_ISBLK, S_ISCHR]
  rcases file with (same | same) | same
  · rw [same]; decide
  · rw [same]; decide
  · rw [same]; decide

theorem sysMknod_fails (consistent : s.Consistent) (leads : ∀ dir, call.dir = some dir → s.live dir = true)
    (mode dev : Nat) : Ends (sysMknod call mode dev) s (Fails s call) := by
  rw [sysMknod]
  refine .ite (fun _ => .pure fun _ => (Left.start consistent).undone) fun _ => ?_
  refine inDirectory_ends consistent leads fun dir t entered left => ?_
  have live := entered.live
  have isDir := entered.isDir
  refine .bind (left.findEntry_left consistent live isDir call.task call.name) ?_
  rintro found t ⟨left, -⟩
  cases found with
  | some place => exact .bind (left.brelse_left place.1) fun _ t left => left.leave consistent live _
  | none =>
    refine .bind (left.newInode_left consistent call.task) ?_
    rintro found t ⟨full, made⟩
    cases found with
    | none => exact (full rfl).leave consistent live _
    | some num =>
      obtain ⟨i, left, one, -, -, zone⟩ := made num rfl
      refine .bind (left.setNew_left _) fun _ t left => ?_
      refine .bind (left.addEntry_left consistent live isDir call.name) fun place t failed => ?_
      cases place with
      | some place => exact .skip fun _ _ => .skip fun _ _ => .skip fun _ _ => fails_not
      | none =>
        refine .bind ((failed rfl).iput_left consistent live) fun _ t left => ?_
        refine .bind (left.setNew_left _) fun _ t left => ?_
        refine .bind (left.iput_new consistent one rfl (owns_nothing fun file => ?_)) fun _ t left =>
          .pure fun _ => left.undone_in entered
        exact (if_neg (by simpa using not_device_of_file file)).trans zone

theorem type_masked (task : Namei.Task Nat) (type : Mode) (mode : Nat) :
    (type ||| masked task mode) &&& S_IFMT = type &&& S_IFMT := by
  have permissions : (0o777 : Mode) &&& S_IFMT = 0#16 := by decide
  have none : masked task mode &&& S_IFMT = 0#16 := by
    calc BitVec.ofNat 16 mode &&& 0o777 &&& ~~~BitVec.ofNat 16 task.umask &&& S_IFMT
        = BitVec.ofNat 16 mode &&& ~~~BitVec.ofNat 16 task.umask &&& (0o777 &&& S_IFMT) := by ac_rfl
      _ = 0#16 := by rw [permissions, BitVec.and_zero]
  rw [BitVec.and_or_distrib_right, none, BitVec.or_zero]

theorem hasZones_masked {type : Mode} (file : hasZones type = true) (task : Namei.Task Nat) (mode : Nat) :
    hasZones (type ||| masked task mode) = true := by
  rw [hasZones, S_ISREG, S_ISDIR, S_ISLNK] at file ⊢
  rw [type_masked]
  exact file

theorem owns_of_file {i : Inode} {z : Nat} (zone : i.zone = update (fun _ => 0) 0 z)
    (file : hasZones i.mode = true) : Owns i z := by
  rw [Owns, if_pos file]
  exact zone

theorem sysMkdir_fails (consistent : s.Consistent) (leads : ∀ dir, call.dir = some dir → s.live dir = true) (mode : Nat) :
    Ends (sysMkdir call mode) s (Fails s call) := by
  rw [sysMkdir]
  refine inDirectory_ends consistent leads fun dir t entered left => ?_
  have live := entered.live
  have isDir := entered.isDir
  refine .bind (left.findEntry_left consistent live isDir call.task call.name) ?_
  rintro found t ⟨left, -⟩
  cases found with
  | some place => exact .bind (left.brelse_left place.1) fun _ t left => left.leave consistent live _
  | none =>
    refine .bind (left.newInode_left consistent call.task) ?_
    rintro found t ⟨full, made⟩
    cases found with
    | none => exact (full rfl).leave consistent live _
    | some num =>
      obtain ⟨i, left, one, linked, noMode, zone⟩ := made num rfl
      refine .bind (left.setNew_left _) fun _ t left => ?_
      refine .bind (left.newBlock_left consistent) fun block t left => ?_
      refine .bind (left.setNew_left _) fun _ t left => .ite (fun none => ?_) fun _ => ?_
      · -- the inode has no mode yet, and no zone
        subst none
        refine .bind (left.iput_left consistent live) fun _ t left => ?_
        refine .bind (left.setNew_left _) fun _ t left => ?_
        refine .bind (left.iput_new consistent one ?_ (owns_nothing fun file => ?_)) fun _ t left =>
          .pure fun _ => left.undone
        · exact (congrArg decrement linked).trans (by decide)
        · exact absurd (noMode ▸ file) (by decide)
      · refine .bind (left.fillBlock_left _) fun _ t left => ?_
        refine .bind (left.setNew_left _) fun _ t left => ?_
        refine .bind (left.addEntry_left consistent live isDir call.name) fun place t failed => ?_
        cases place with
        | some place => exact .skip fun _ _ => .skip fun _ _ => .skip fun _ _ => .skip fun _ _ => fails_not
        | none =>
          refine .bind ((failed rfl).iput_left consistent live) fun _ t left => ?_
          refine .bind (left.setNew_left _) fun _ t left => ?_
          refine .bind (left.iput_new consistent one rfl (owns_of_file ?_ ?_)) fun _ t left =>
            .pure fun _ => left.undone_in entered
          · exact congrArg (update · 0 block) zone
          · exact hasZones_masked (by decide) call.task mode

theorem sysSymlink_fails (consistent : s.Consistent) (leads : ∀ dir, call.dir = some dir → s.live dir = true)
    (oldname : List Byte) : Ends (sysSymlink call oldname) s (Fails s call) := by
  rw [sysSymlink]
  refine inDirectory_ends consistent leads fun dir t entered left => ?_
  have live := entered.live
  have isDir := entered.isDir
  refine .bind (left.newInode_left consistent call.task) ?_
  rintro found t ⟨full, made⟩
  cases found with
  | none => exact (full rfl).leave consistent live _
  | some num =>
    obtain ⟨i, left, one, linked, noMode, zone⟩ := made num rfl
    have isLink : hasZones S_IFLNK = true := by decide
    have isFile := hasZones_masked isLink call.task 0o777
    have unlinked : decrement i.nlinks = 0 := (congrArg decrement linked).trans (by decide)
    refine .bind (left.setNew_left _) fun _ t left => ?_
    refine .bind (left.newBlock_left consistent) fun block t left => ?_
    refine .bind (left.setNew_left _) fun _ t left => .ite (fun none => ?_) fun _ => ?_
    · subst none
      refine .bind (left.iput_left consistent live) fun _ t left => ?_
      refine .bind (left.setNew_left _) fun _ t left => ?_
      refine .bind (left.iput_new consistent one unlinked (owns_of_file ?_ isFile)) fun _ t left =>
        .pure fun _ => left.undone
      exact congrArg (update · 0 0) zone
    · refine .bind (left.fillBlock_left _) fun _ t left => ?_
      refine .bind (left.setNew_left _) fun _ t left => ?_
      have isZone := congrArg (update · 0 block) zone
      refine .bind (left.findEntry_left consistent live isDir call.task call.name) ?_
      rintro found t ⟨left, -⟩
      cases found with
      | some place =>
        refine .bind (left.setNew_left _) fun _ t left => ?_
        refine .bind (left.iput_new consistent one unlinked (owns_of_file isZone isFile)) fun _ t left => ?_
        exact .bind (left.brelse_left place.1) fun _ t left => left.leave consistent live _
      | none =>
        refine .bind (left.addEntry_left consistent live isDir call.name) fun place t failed => ?_
        cases place with
        | some place => exact .skip fun _ _ => .skip fun _ _ => .skip fun _ _ => fails_not
        | none =>
          refine .bind ((failed rfl).setNew_left _) fun _ t left => ?_
          refine .bind (left.iput_new consistent one unlinked (owns_of_file isZone isFile)) fun _ t left => ?_
          exact .bind (left.iput_left consistent live) fun _ t left => .pure fun _ => left.undone_in entered

theorem sysLink_fails (consistent : s.Consistent) (leads : ∀ dir, call.dir = some dir → s.live dir = true)
    {old : Option Nat} (leadsOld : ∀ n, old = some n → s.live n = true) : Ends (sysLink call old) s (Fails s call) := by
  rw [sysLink]
  refine .bind ((Left.start consistent).reach_left leadsOld) fun found t reached => ?_
  cases found with
  | none => exact .pure fun _ => (reached.1 rfl).undone
  | some num =>
    obtain ⟨left, isOld⟩ := reached.2 num rfl
    have liveOld := leadsOld num isOld
    -- the two references go in either order
    have both {t : System} {dir : Nat} (left : Left s t none [dir, num] none 0) (live : s.live dir = true) (ret : Int) :
        Ends (iput dir >>= fun _ => iput num >>= fun _ => (pure ret : Kernel Int)) t (Fails s call) :=
      .bind (left.iput_left consistent live) fun _ t left => left.leave consistent liveOld ret
    refine inodeOf_bind (.ite (fun _ => left.leave consistent liveOld _) fun _ => ?_)
    refine .bind (dirNamei_ends consistent leads left) fun found t arrived => ?_
    cases found with
    | none => exact (arrived.1 rfl).leave consistent liveOld _
    | some dir =>
      obtain ⟨left, entered⟩ := arrived.2 dir rfl
      have live := entered.live
      have isDir := entered.isDir
      refine .ite (fun _ => ?_) fun _ => inodeOf_bind (.ite (fun _ => ?_) fun _ => both left live _)
      · exact .bind (left.swap.iput_left consistent liveOld) fun _ t left => left.leave consistent live _
      · refine .bind (left.findEntry_left consistent live isDir call.task call.name) ?_
        rintro found t ⟨left, -⟩
        cases found with
        | some place => exact .bind (left.brelse_left place.1) fun _ t left => both left live _
        | none =>
          refine .bind (left.addEntry_left consistent live isDir call.name) fun place t failed => ?_
          cases place with
          | none =>
            refine .bind ((failed rfl).iput_left consistent live) fun _ t left => ?_
            exact .bind (left.iput_left consistent liveOld) fun _ t left => .pure fun _ => left.undone_in entered
          | some place =>
            exact .skip fun _ _ => .skip fun _ _ => .skip fun _ _ => .skip fun _ _ => .skip fun _ _ => fails_not

/-! ## `open` -/

theorem get_bind {β : Type} {f : System → Kernel β} {post : β → System → Prop} (rest : Ends (f t) t post) :
    Ends (get >>= f) t post := by
  have same : Ends (get : Kernel System) t fun a u => t = a ∧ t = u := by
    intro a u ran
    cases ran
    exact ⟨rfl, rfl⟩
  refine .bind same ?_
  rintro a u ⟨rfl, rfl⟩
  exact rest

theorem mode_putDir (t : System) (dir : Nat) (d : Dir) (n : Nat) : ((t.putDir dir d).inode n).mode = (t.inode n).mode := by
  by_cases here : n = dir
  · subst here
    have self : (t.putDir n d).inode n = { t.inode n with
        zone := d.zone, dirt := d.dirt, ctime := d.ctime, size := d.size, mtime := d.mtime } := update_self ..
    rw [self]
  · exact congrArg Inode.mode (update_of_ne here ..)

theorem addEntry_mode (dir : Nat) (name : List Byte) (n : Nat) :
    Ends (addEntry dir name) t fun _ u => (u.inode n).mode = (t.inode n).mode := by
  intro place u ran
  obtain ⟨got, -, next⟩ := panicking_eq_ok ran
  cases next
  exact mode_putDir t dir got.2 n

theorem enter_mode (dir : Nat) (place : Nat × Nat) (num n : Nat) :
    Ends (enter dir place num) t fun _ u => (u.inode n).mode = (t.inode n).mode := by
  intro _ u ran
  cases ran
  exact mode_putDir t dir _ n

theorem setInode_other {m : Nat} (other : m ≠ n) (f : Inode → Inode) :
    Ends (setInode n f) t fun _ u => (u.inode m).mode = (t.inode m).mode := by
  intro _ u ran
  cases ran
  exact congrArg Inode.mode (update_of_ne other ..)

theorem iput_mode {m : Nat} (other : m ≠ n) : Ends (iput n) t fun _ u => (u.inode m).mode = (t.inode m).mode := by
  have same {u : System} (synced : Synced t u) : (u.inode m).mode = (t.inode m).mode := by
    rcases synced with rfl | rfl <;> rfl
  refine iput_ends (fun u synced _ => ?_) (fun u synced _ _ => ?_) fun u synced _ _ => ?_
  · exact (setInode_other other _).mono fun _ _ kept => kept.trans (same synced)
  · exact (setInode_other other _).mono fun _ _ kept => kept.trans (same synced)
  · have truncated : Ends (truncate n) u fun _ v => (v.inode m).mode = (u.inode m).mode := by
      intro _ v ran
      rw [truncate] at ran
      split at ran
      · cases ran
        exact congrArg Inode.mode (update_of_ne other ..)
      · cases ran
      · cases ran
    refine .bind truncated fun _ v kept w u' ran => ?_
    obtain ⟨got, -, next⟩ := panicking_eq_ok ran
    cases next
    exact (congrArg Inode.mode (update_of_ne other ..)).trans (kept.trans (same synced))

def Opens (s : System) (call : Call) (result : Except Int Nat) (t : System) : Prop :=
  (∀ ret, result = .error ret → Undone s call t) ∧ ∀ num, result = .ok num → S_ISCHR (t.inode num).mode = true →
    Left s t none [num] none 0 ∧ s.live num = true

theorem Undone.opens (undone : Undone s call t) (ret : Int) :
    Ends (pure (.error ret) : Kernel (Except Int Nat)) t (Opens s call) :=
  .pure ⟨fun _ _ => undone, fun num isOk => by cases isOk⟩

theorem Left.opens (left : Left s t none [num] none 0) (live : s.live num = true) :
    Ends (pure (.ok num) : Kernel (Except Int Nat)) t (Opens s call) := by
  refine .pure ⟨fun ret isError => (by cases isError), fun num' isOk _ => ?_⟩
  cases isOk
  exact ⟨left, live⟩

theorem opens_of_mode (mode : S_ISCHR (t.inode num).mode = false) :
    Ends (pure (.ok num) : Kernel (Except Int Nat)) t (Opens s call) := by
  refine .pure ⟨fun ret isError => (by cases isError), fun num' isOk isDevice => ?_⟩
  cases isOk
  rw [mode] at isDevice
  cases isDevice

theorem Left.truncate_device (left : Left s t none held none 0) (live : s.live num = true) :
    Ends (truncate num) t fun _ u => S_ISCHR (u.inode num).mode = true → Left s u none held none 0 := by
  intro _ u ran isDevice
  rw [truncate] at ran
  split at ran
  · next f truncated =>
    cases ran
    have self : (t.putFile num f).inode num = { t.inode num with
        zone := f.zone, dirt := f.dirt, ctime := f.ctime, size := f.size, mtime := f.mtime } := update_self ..
    rw [self] at isDevice
    have notFile : ¬hasZones (t.inode num).mode = true := by
      intro file
      have noDevice := not_device_of_file file
      rw [isDevice, Bool.or_true] at noDevice
      cases noDevice
    have nothing : (t.file num).truncate t.time 1 = .ok (some (t.file num)) := if_neg notFile
    rw [nothing] at truncated
    cases truncated
    have rewritten : Left s (t.put num (t.inode num)) none held none 0 :=
      left.of_put live rfl rfl rfl rfl (left.count num live) fun _ _ => rfl
    exact rewritten.of_volume rfl left.coherent rfl rfl (fun _ _ _ => rfl) fun zero => absurd rfl zero
  · cases ran
  · cases ran

variable {linked : Option Nat}

theorem Left.followLink_left (consistent : s.Consistent) (left : Left s t none [num, dir] none 0)
    (live : s.live num = true) (liveDir : s.live dir = true) (leads : ∀ n, linked = some n → s.live n = true) :
    Ends (followLink dir num linked) t fun got u => (got = none → Left s u none [] none 0) ∧
      ∀ n, got = some n → Left s u none [n] none 0 ∧ s.live n = true := by
  rw [followLink]
  refine inodeOf_bind (.ite (fun _ => ?_) fun _ => ?_)
  · refine .bind (left.iput_left consistent live) fun _ t left => ?_
    refine .bind (left.iput_left consistent liveDir) fun _ t left => ?_
    exact (left.reach_left leads).mono fun got u reached =>
      ⟨reached.1, fun n isSome => ⟨(reached.2 n isSome).1, leads n (reached.2 n isSome).2⟩⟩
  · refine .bind (left.swap.iput_left consistent liveDir) fun _ t left =>
      .pure ⟨fun isNone => (by cases isNone), fun n isSome => ?_⟩
    cases isSome
    exact ⟨left, live⟩

theorem openNamei_opens (consistent : s.Consistent) (leads : ∀ dir, call.dir = some dir → s.live dir = true)
    (leadsLink : ∀ n, linked = some n → s.live n = true) (flag mode : Nat) :
    Ends (openNamei call flag mode linked) s (Opens s call) := by
  rw [openNamei]
  refine .bind (dirNamei_ends consistent leads (.start consistent)) fun found t arrived => ?_
  cases found with
  | none => exact (arrived.1 rfl).undone.opens _
  | some dir =>
    obtain ⟨left, entered⟩ := arrived.2 dir rfl
    have live := entered.live
    have isDir := entered.isDir
    have leave {t : System} (left : Left s t none [dir] none 0) (ret : Int) :
        Ends (iput dir >>= fun _ => (pure (.error ret) : Kernel (Except Int Nat))) t (Opens s call) :=
      .bind (left.iput_left consistent live) fun _ _ left => left.undone.opens ret
    refine .ite (fun _ => .ite (fun _ => left.opens live) fun _ => leave left _) fun _ => ?_
    refine .bind (left.findEntry_left consistent live isDir call.task call.name) ?_
    rintro found t ⟨left, leadsEntry⟩
    cases found with
    | none =>
      refine .ite (fun _ => leave left _) fun _ => inodeOf_bind (.ite (fun _ => ?_) fun _ => leave left _)
      refine .bind (left.newInode_left consistent call.task) ?_
      rintro found t ⟨full, made⟩
      cases found with
      | none => exact leave (full rfl) _
      | some num =>
        obtain ⟨i, left, one, linked, -, zone⟩ := made num rfl
        refine .bind (left.setNew_left _) fun _ t left => ?_
        refine .bind ((left.addEntry_left consistent live isDir call.name).and (addEntry_mode dir call.name num)) ?_
        rintro place u ⟨failed, kept⟩
        cases place with
        | none =>
          refine .bind ((failed rfl).setNew_left _) fun _ t left => ?_
          refine .bind (left.iput_new consistent one ?_ (owns_nothing fun _ => zone)) fun _ t left => ?_
          · exact (congrArg decrement linked).trans (by decide)
          · exact .bind (left.iput_left consistent live) fun _ t left => (left.undone_in entered).opens _
        | some place =>
          refine .bind (enter_mode dir place num num) fun _ v kept' => ?_
          refine .bind (iput_mode (left.other live rfl).symm) fun _ w kept'' => opens_of_mode ?_
          rw [kept'', kept', kept, (left.isNew num _ rfl).1, S_ISCHR, type_masked]
          decide
    | some place =>
      have liveEntry := leadsEntry place rfl
      have entry : Ends (entryInode dir place) t fun num u => s.live num = true ∧ Left s u none [dir] none 0 := by
        intro num u ran
        cases ran
        exact ⟨liveEntry, left⟩
      refine .bind entry ?_
      rintro num t ⟨liveEntry, left⟩
      refine .bind (left.brelse_left place.1) fun _ t left => .ite (fun _ => leave left _) fun _ => ?_
      refine .bind (left.hold_left liveEntry) fun _ t left => ?_
      refine .bind (left.followLink_left consistent liveEntry live leadsLink) ?_
      rintro got t ⟨none_, some_⟩
      cases got with
      | none => exact (none_ rfl).undone.opens _
      | some num =>
        obtain ⟨left, liveFile⟩ := some_ num rfl
        refine inodeOf_bind (.ite (fun _ => ?_) fun _ => get_bind ?_)
        · exact .bind (left.iput_left consistent liveFile) fun _ t left => left.undone.opens _
        · refine .bind (left.setOld_left liveFile _) fun _ t left => .ite (fun _ => ?_) fun _ => left.opens liveFile
          refine .bind (left.truncate_device liveFile) fun _ t kept =>
            .pure ⟨fun ret isError => (by cases isError), ?_⟩
          rintro num' ⟨⟩ isDevice
          exact ⟨kept isDevice, liveFile⟩

theorem sysOpen_fails (consistent : s.Consistent) (leads : ∀ dir, call.dir = some dir → s.live dir = true)
    (leadsLink : ∀ n, linked = some n → s.live n = true) (flag mode : Nat) (room busy : Bool) :
    Ends (sysOpen call flag mode room linked busy) s (Fails s call) := by
  rw [sysOpen]
  refine .ite (fun _ => .pure fun _ => (Left.start consistent).undone) fun _ => ?_
  refine .bind (openNamei_opens consistent leads leadsLink flag mode) ?_
  rintro result t ⟨failed, opened⟩
  cases result with
  | error ret => exact .pure fun _ => failed ret rfl
  | ok num =>
    refine inodeOf_bind (.ite (fun isBusy => ?_) fun _ => fails_not)
    rw [Bool.and_eq_true] at isBusy
    obtain ⟨left, live⟩ := opened num rfl isBusy.1
    exact left.leave consistent live _

/-! ## All calls -/

def Call.leads (call : Call) : List Nat :=
  call.dir.toList ++ match call.kind with
    | .creat _ _ _ linked _ => linked.toList
    | .link old => old.toList
    | _ => []

theorem run_fails (consistent : s.Consistent) (leads : ∀ n ∈ call.leads, s.live n = true) :
    Ends call.run s (Fails s call) := by
  have path (dir : Nat) (isDir : call.dir = some dir) : s.live dir = true :=
    leads dir (List.mem_append_left _ (by rw [isDir]; exact List.mem_singleton_self dir))
  rw [Call.run]
  cases kind : call.kind with
  | creat flag mode room linked busy =>
    refine sysOpen_fails consistent path (fun n isLinked => leads n (List.mem_append_right _ ?_)) flag mode room busy
    rw [kind, isLinked]
    exact List.mem_singleton_self n
  | mknod mode dev => exact sysMknod_fails consistent path mode dev
  | mkdir mode => exact sysMkdir_fails consistent path mode
  | symlink oldname => exact sysSymlink_fails consistent path oldname
  | link old =>
    refine sysLink_fails consistent path fun n isOld => leads n (List.mem_append_right _ ?_)
    rw [kind, isOld]
    exact List.mem_singleton_self n

theorem failed_creation_leaves_nothing (consistent : s.Consistent) (leads : ∀ n ∈ call.leads, s.live n = true)
    {ret : Int} (returned : call.run s = .ok (ret, t)) (error : ret < 0) : Unchanged s t call.dir := by
  obtain ⟨parent, held, left, isCall⟩ := run_fails consistent leads ret t returned error
  have unchanged := left.unchanged consistent fun dir isParent => (isCall dir isParent).2
  refine { unchanged with zmap := fun m isSet => (unchanged.zmap m isSet).imp_right ?_ }
  rintro ⟨dir, isParent, rest⟩
  exact ⟨dir, (isCall dir isParent).1, rest⟩

def crowded : System where
  dev := 1
  volume :=
    { sb :=
        { ninodes := 2
          nzones := 4
          firstdatazone := 3
          imap := fun i => if i = 0 then some ⟨BitWords.clearBit (fun _ => BitVec.allOnes 32) 2, false⟩ else none
          zmap := fun i => if i = 0 then some ⟨fun _ => BitVec.allOnes 32, false⟩ else none }
      cache := fun _ => none
      disk := fun b => if b = 3 then dotEntries 1 1 fun _ => 0 else fun _ => 0 }
  inode := fun n =>
    if n = 1 then
      { Inode.clear with mode := S_IFDIR ||| 0o777, nlinks := 2, size := 32, zone := fun k => if k = 0 then 3 else 0 }
    else .clear
  free := fun _ => ⟨none, fun _ => 0⟩
  time := 7

def makeDirectory : Call where
  kind := .mkdir 0o777
  task := { euid := 0, egid := 0, groups := [], umask := 0o22, root := 1, pwd := 1 }
  dir := some 1
  name := [97]

theorem live_crowded (live : crowded.live n = true) : n = 1 := by
  have inside : 1 ≤ n ∧ n ≤ 2 := by
    simp only [System.live, Bool.and_eq_true, decide_eq_true_eq] at live
    exact ⟨live.1.2, live.2⟩
  have clear : crowded.live 2 = false := by decide
  by_contra other
  have second : n = 2 := by omega
  rw [second, clear] at live
  cases live

theorem root_crowded {p : Nat × Fin 9} (used : crowded.root p ≠ 0) : p = (1, 0) ∧ crowded.root p = 3 := by
  rw [System.root] at used ⊢
  split at used
  · next owner =>
    rw [if_pos owner]
    rw [Bool.and_eq_true] at owner
    have one := live_crowded owner.1
    rw [one] at used ⊢
    have zone : (crowded.inode 1).zone p.2 = if p.2 = 0 then 3 else 0 := rfl
    rw [zone] at used ⊢
    split at used
    · next first => exact ⟨Prod.ext one first, if_pos first⟩
    · exact absurd rfl used
  · exact absurd rfl used

theorem walk_crowded {p : Nat × Fin 9} {path : List (Fin 512)} (inside : path.length ≤ depth p.2)
    (used : walk crowded.volume.contents (crowded.root p) path ≠ 0) :
    p = (1, 0) ∧ path = [] ∧ walk crowded.volume.contents (crowded.root p) path = 3 := by
  have block : crowded.root p ≠ 0 := by
    intro zero
    rw [zero, walk_zero] at used
    exact used rfl
  obtain ⟨rfl, three⟩ := root_crowded block
  have none : path = [] := List.length_eq_zero_iff.mp (Nat.le_zero.mp inside)
  subst none
  exact ⟨rfl, rfl, three⟩

theorem crowded_consistent : crowded.Consistent where
  dev := by decide
  coherent := fun b bh cached => by cases cached
  formatted := by
    have ones (n : Nat) (inside : n < 8192) : marked crowded.volume.sb.zmap n = true := by
      have place : n % 32 < 32 := Nat.mod_lt n (by decide)
      have bit : BitWords.bit (fun _ => BitVec.allOnes 32) n = true := by
        rw [BitWords.bit, BitVec.getLsbD_allOnes, decide_eq_true place]
      have slot : crowded.volume.sb.zmap 0 = some ⟨fun _ => BitVec.allOnes 32, false⟩ := rfl
      have marks := marked_of_slot slot inside
      rwa [Nat.mul_zero, Nat.zero_add, bit] at marks
    refine ⟨1, by decide, fun i => ?_, ones 0 (by decide), fun n inside _ => ones n (by omega), by decide⟩
    by_cases first : i = 0 <;> simp [crowded, first]
  first := by decide
  reserved := by decide
  distinct := by
    intro p path l path' inside inside' used same
    obtain ⟨rfl, rfl, -⟩ := walk_crowded inside used
    obtain ⟨rfl, rfl, -⟩ := walk_crowded inside' (same ▸ used)
    exact ⟨rfl, rfl⟩
  inUse := by
    intro p path inside used
    obtain ⟨-, -, three⟩ := walk_crowded inside used
    rw [three]
    decide
  counted := by
    intro n live unlinked
    rw [live_crowded live] at unlinked
    cases unlinked
  named := by
    rintro n live - e ⟨inside, -, isEntry, -⟩
    obtain rfl := live_crowded live
    have few : e.1 < 2 := inside
    have number : e.2.inode = 1 := by
      rw [← isEntry]
      rcases Nat.lt_succ_iff_lt_or_eq.mp few with first | second
      · rw [Nat.lt_one_iff.mp first]
        decide +kernel
      · rw [second]
        decide +kernel
    rw [number]
    exact live

/-- `mkdir` finds a free inode but no zone, and gives the inode back. -/
theorem mkdir_crowded : ∃ t, makeDirectory.run crowded = .ok (-ENOSPC, t) ∧ Unchanged crowded t (some 1) := by
  have ended : (makeDirectory.run crowded).toOption.map Prod.fst = some (-ENOSPC) := by decide +kernel
  cases run : makeDirectory.run crowded with
  | error stop =>
    rw [run] at ended
    cases ended
  | ok got =>
    obtain ⟨ret, t⟩ := got
    rw [run] at ended
    cases ended
    refine ⟨t, rfl, failed_creation_leaves_nothing crowded_consistent (fun n isLead => ?_) run (by decide)⟩
    have one : n = 1 := List.mem_singleton.mp isLead
    rw [one]
    decide

end Linux012.Fs.Creation

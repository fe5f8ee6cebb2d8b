import Linux012.Fs.Creation
import Linux012.Fs.FailedEntries
import Linux012.Lib.Ends

/-! What the parts of a call leave behind, as long as the call can still fail. -/

set_option autoImplicit false

/-! ## Zones and inodes of the bitmaps -/

namespace Linux012.Fs.Bitmap

open Function

theorem SuperBlock.Formatted.free {sb sb' : SuperBlock} {z block : Nat} (formatted : sb.Formatted z)
    (inside : sb.firstdatazone ≤ block ∧ block < sb.nzones)
    (changes : sb.ChangesZone (sb.bitOf block) false sb') : sb'.Formatted z := by
  have rest := changes.rest
  have zoneOf (m : Nat) : sb'.zoneOf m = sb.zoneOf m := by rw [rest]; rfl
  have stays {m : Nat} (isSet : marked sb.zmap m = true) (other : m ≠ sb.bitOf block) : marked sb'.zmap m = true := by
    rw [changes.zmap.bits, if_neg other]
    exact isSet
  refine ⟨formatted.slots, fun i => ?_, stays formatted.first ?_, fun m isInside past => ?_, ?_⟩
  · rw [changes.zmap.slots]
    exact formatted.loaded i
  · rw [SuperBlock.bitOf]
    omega
  · rw [zoneOf, rest] at past
    refine stays (formatted.past m isInside past) ?_
    rintro rfl
    rw [zoneOf_bitOf inside.1] at past
    exact absurd inside.2 (Nat.not_lt.mpr past)
  · rw [rest]
    exact formatted.zones

namespace Volume

section Allocation

variable {α : Type} [Zero α] {v v' : Volume α} {n z : Nat} {reuse : Reuse α}

theorem newBlock_zone (formatted : v.sb.Formatted z) (result : v.newBlock reuse = .ok (n, v')) (nonzero : n ≠ 0) :
    v.sb.Free n ∧ v.refs n = 0 := by
  rcases isFirstClear_or_full v.sb.zmap with ⟨m, first⟩ | full
  · obtain ⟨free, -⟩ := formatted.free_zoneOf first.clear
    obtain ⟨sb', -, outcome⟩ := newBlock_of_first first reuse
    rw [result, if_neg (Nat.not_le.mpr free.last)] at outcome
    have count := { v with sb := sb' }.count_getblk (v.sb.zoneOf m) reuse
    rw [clearNew] at outcome
    split at outcome
    · cases outcome
    · next one =>
      rw [not_not] at one
      cases outcome
      exact ⟨free, (Nat.succ_inj.mp (one.symm.trans count)).symm⟩
  · rw [newBlock_of_full full] at result
    cases result
    exact absurd rfl nonzero

end Allocation

variable {α : Type} {v v' : Volume α} {dev euid egid time : Nat} {found : Option Inode}

theorem newInode_spec (result : v.newInode dev euid egid time = .ok (found, v')) :
    (found = none → v' = v) ∧ ∀ i, found = some i →
      i = ⟨1, 1, dev, euid, egid, true, i.num, time⟩ ∧ marked v.sb.imap i.num = false ∧ i.num ≤ v.sb.ninodes ∧
        ∃ imap, v' = { v with sb := { v.sb with imap } } ∧
          ∀ n, marked imap n = true ↔ marked v.sb.imap n = true ∨ n = i.num := by
  rcases isFirstClear_or_full v.sb.imap with ⟨m, first⟩ | full
  · obtain ⟨bh, slot, clear, scanned⟩ := first.scan
    have number : m % 8192 + m / 8192 * 8192 = m := by omega
    rw [newInode, scanned] at result
    simp only [clear, number, Bool.false_eq_true, if_false] at result
    split at result
    · cases result
      exact ⟨fun _ => rfl, fun i isSome => by cases isSome⟩
    · next inside =>
      cases result
      refine ⟨fun isNone => (by cases isNone), fun i isSome => ?_⟩
      cases isSome
      refine ⟨rfl, first.clear, Nat.not_lt.mp inside, _, rfl, fun n => ?_⟩
      rw [(ChangesBit.set slot true).bits]
      by_cases here : n = m <;> simp [here]
  · rw [newInode, scan_of_full full] at result
    cases result
    exact ⟨fun _ => rfl, fun i isSome => by cases isSome⟩

theorem freeInode_spec {inode : Inode} {printed : Bool} (dev : inode.dev ≠ 0)
    (result : v.freeInode inode = .ok (printed, v')) :
    ∃ imap, v' = { v with sb := { v.sb with imap } } ∧
      ∀ n, marked imap n = true ↔ marked v.sb.imap n = true ∧ n ≠ inode.num := by
  rw [freeInode, if_neg dev] at result
  split at result
  · cases result
  split at result
  · cases result
  split at result
  · cases result
  split at result
  · cases result
  next bh slot =>
  cases result
  refine ⟨_, rfl, fun n => ?_⟩
  rw [(ChangesBit.clear slot true).bits]
  by_cases here : n = inode.num <;> simp [here]

end Volume

end Linux012.Fs.Bitmap

/-! ## A file of at most one block -/

namespace Linux012.Fs.Truncate.State

open Function

variable {s t : State} {z : Nat}

theorem freeZones_of_zero {slots : List (Fin 9)} (zeros : ∀ k ∈ slots, s.zone k = 0) (busy : Bool) :
    freeZones slots busy s = .ok (busy, s) := by
  induction slots with
  | nil => rfl
  | cons k rest ih =>
    have zero : s.zone k = 0 := zeros k List.mem_cons_self
    have nothing : s.freeTree k = .ok (1, s) := by
      rw [freeTree, freeInd, freeDind, freeVia, freeVia]
      simp [zero]
    have same : update s.zone k 0 = s.zone := by
      rw [← zero]
      exact update_eq_self ..
    rw [freeZones, nothing]
    simp only [Except.bind, ne_eq, one_ne_zero, not_false_eq_true, if_true, same]
    exact ih fun l inside => zeros l (List.mem_cons_of_mem k inside)

theorem truncate_single {now : Nat} (mode : (S_ISREG s.mode || S_ISDIR s.mode || S_ISLNK s.mode) = true)
    (zone : s.zone = update (fun _ => 0) 0 z) (alone : s.holders = [])
    (ran : s.truncate now 1 = .ok (some t)) :
    z = 0 ∧ t.volume = s.volume ∨ z ≠ 0 ∧ ∃ r, s.volume.freeBlock z = .ok r ∧ r.1 ≠ 0 ∧ t.volume = r.2.2 := by
  have first : s.zone 0 = z := by rw [zone, update_self]
  have others {k : Fin 9} (isSucc : k ∈ (List.finRange 8).map Fin.succ) : s.zone k = 0 := by
    obtain ⟨j, -, rfl⟩ := List.mem_map.mp isSucc
    rw [zone, update_of_ne (Fin.succ_ne_zero j)]
  rw [truncate, if_pos mode, truncateLoop] at ran
  by_cases none : z = 0
  · have zeros (k : Fin 9) : s.zone k = 0 := by
      rw [zone, none, update_eq_self_iff.mpr rfl]
    rw [freeZones_of_zero fun k _ => zeros k] at ran
    cases ran
    exact .inl ⟨none, rfl⟩
  · refine .inr ⟨none, ?_⟩
    have tree : s.freeTree 0 = s.freeBlock z := by
      rw [freeTree, if_pos (by decide), first, if_neg none]
    have free : s.freeBlock z = (s.volume.freeBlock z).map fun freed =>
        (freed.1, { s with volume := freed.2.2, holders := s.holders.tail, printed := s.printed || freed.2.1 }) := by
      rw [freeBlock, alone]
      exact if_neg (by simp)
    rw [List.finRange_succ, freeZones, tree, free] at ran
    cases result : s.volume.freeBlock z with
    | error p =>
      rw [result] at ran
      cases ran
    | ok r =>
      refine ⟨r, rfl, ?_⟩
      rw [result] at ran
      by_cases success : r.1 ≠ 0
      · simp only [Except.map, Except.bind, if_pos success] at ran
        rw [freeZones_of_zero fun k inside => ?_] at ran
        · cases ran
          exact ⟨success, rfl⟩
        · obtain ⟨j, -, isSucc⟩ := List.mem_map.mp inside
          exact (update_of_ne (isSucc ▸ Fin.succ_ne_zero j) ..).trans (others inside)
      · simp only [Except.map, Except.bind, if_neg success] at ran
        rw [freeZones_of_zero fun k inside => ?_] at ran
        · cases ran
        · exact others inside

end Linux012.Fs.Truncate.State

namespace Linux012.Fs.Creation

open Bitmap ZoneTree BlockTree Function
open ZoneTree.State (depth)
open EntryBlocks (Dir entryAt)
open Namei (Byte DirEntry)
open Truncate (Mode S_ISREG S_ISDIR S_ISLNK)

def hasZones (mode : Mode) : Bool := S_ISREG mode || S_ISDIR mode || S_ISLNK mode

namespace System

def live (s : System) (n : Nat) : Bool :=
  marked s.volume.sb.imap n && decide (1 ≤ n) && decide (n ≤ s.volume.sb.ninodes)

def root (s : System) (p : Nat × Fin 9) : Nat :=
  if s.live p.1 && hasZones (s.inode p.1).mode then (s.inode p.1).zone p.2 else 0

def entries (s : System) (n : Nat) : Set (Nat × DirEntry) :=
  { e | e.1 < (s.inode n).size / 16 ∧ EntryBlocks.zoneOf (s.dir n).toState (e.1 / 64) ≠ 0 ∧
    entryAt (s.dir n).toState e.1 = e.2 ∧ e.2.inode ≠ 0 }

structure Consistent (s : System) : Prop where
  dev : s.dev ≠ 0
  coherent : s.volume.Coherent
  formatted : ∃ z, s.volume.sb.Formatted z
  first : 0 < s.volume.sb.firstdatazone
  reserved : marked s.volume.sb.imap 0 = true
  distinct : Distinct (fun p => depth p.2) s.root s.volume.contents
  inUse : ∀ p path, path.length ≤ depth p.2 → walk s.volume.contents (s.root p) path ≠ 0 →
    marked s.volume.sb.zmap (s.volume.sb.bitOf (walk s.volume.contents (s.root p) path)) = true
  /-- without a link an inode is in use only while it is open -/
  counted : ∀ n, s.live n = true → (s.inode n).nlinks = 0 → (s.inode n).count ≠ 0
  named : ∀ n, s.live n = true → S_ISDIR (s.inode n).mode = true → ∀ e ∈ s.entries n, s.live e.2.inode = true

def tree (s : System) (parent : Option Nat) : ZoneTree.State where
  volume := s.volume
  zone := parent.elim (fun _ => 0) fun n => (s.inode n).zone
  dirt := false
  ctime := 0
  free := s.free

end System

variable {s t u : System} {parent : Option Nat} {held : List Nat} {new : Option (Nat × Inode)} {z n dir num : Nat}
  {i inode : Inode} {call : Call}

/-- Since `s`, the call has taken the references `held`, the inode `new` and the zone `z` for
it, and index blocks for the directory `parent`. -/
structure Left (s t : System) (parent : Option Nat) (held : List Nat) (new : Option (Nat × Inode)) (z : Nat) :
    Prop where
  dev : t.dev = s.dev
  coherent : t.volume.Coherent
  formatted : ∃ z, t.volume.sb.Formatted z
  dir : ∀ n, parent = some n → s.live n = true
  rest : t.volume.sb = { s.volume.sb with imap := t.volume.sb.imap, zmap := t.volume.sb.zmap }
  keeps : ∀ m, marked s.volume.sb.zmap m = true → marked t.volume.sb.zmap m = true
  zmap : ∀ m, marked t.volume.sb.zmap m = true → marked s.volume.sb.zmap m = true ∨
    z ≠ 0 ∧ s.volume.sb.bitOf z = m ∨ ∃ l q, q.length < depth l ∧ (t.tree parent).value l q ≠ 0 ∧
      s.volume.sb.bitOf ((t.tree parent).value l q) = m
  leaves : ∀ l q, q.length = depth l → (t.tree parent).value l q = (s.tree parent).value l q
  contents : ∀ b ≠ 0, marked s.volume.sb.zmap (s.volume.sb.bitOf b) = true →
    (∀ l q, q.length < depth l → (s.tree parent).value l q ≠ b) → t.volume.contents b = s.volume.contents b
  imap : ∀ n, marked t.volume.sb.imap n = true ↔ marked s.volume.sb.imap n = true ∨ new.map Prod.fst = some n
  mode : ∀ n, s.live n = true → (t.inode n).mode = (s.inode n).mode
  nlinks : ∀ n, s.live n = true → (t.inode n).nlinks = (s.inode n).nlinks
  size : ∀ n, s.live n = true → (t.inode n).size = (s.inode n).size
  zones : ∀ n, s.live n = true → parent ≠ some n → (t.inode n).zone = (s.inode n).zone
  count : ∀ n, s.live n = true → (t.inode n).count = (s.inode n).count + held.count n
  isNew : ∀ num i, new = some (num, i) → t.inode num = i ∧ marked s.volume.sb.imap num = false ∧ 1 ≤ num ∧
    num ≤ s.volume.sb.ninodes
  zone : z ≠ 0 → s.volume.sb.Free z ∧ marked t.volume.sb.zmap (s.volume.sb.bitOf z) = true ∧ t.volume.refs z = 0
  index : ∀ l q, q.length < depth l → (t.tree parent).value l q ≠ 0 → (t.tree parent).value l q ≠ z

theorem System.tree_none (s : System) (l : Fin 9) (q : List (Fin 512)) : (s.tree none).value l q = 0 := walk_zero _ q

theorem live_marked (live : s.live n = true) : marked s.volume.sb.imap n = true := by
  rw [System.live, Bool.and_eq_true, Bool.and_eq_true] at live
  exact live.1.1

theorem System.Consistent.root_of_dir (live : s.live n = true) (isDir : S_ISDIR (s.inode n).mode = true)
    (k : Fin 9) : s.root (n, k) = (s.inode n).zone k := by
  rw [System.root, live, hasZones, isDir]
  simp

theorem panicking_eq_ok {α β : Type} {x : Except Panic α} {f : α → β} {b : β} (ran : panicking x f = .ok b) :
    ∃ a, x = .ok a ∧ f a = b := by
  cases x with
  | error p => cases ran
  | ok a =>
    cases ran
    exact ⟨a, rfl, rfl⟩

namespace Left

theorem start (consistent : s.Consistent) : Left s s none [] none 0 := by
  refine ⟨rfl, consistent.coherent, consistent.formatted, fun _ isNone => (by cases isNone), rfl,
    fun _ isSet => isSet, fun _ isSet => .inl isSet,
    fun _ _ _ => rfl, fun _ _ _ _ => rfl, fun n => by simp, fun _ _ => rfl, fun _ _ => rfl, fun _ _ => rfl,
    fun _ _ _ => rfl, fun n _ => by simp, fun _ _ isNone => (by cases isNone), fun zero => absurd rfl zero,
    fun _ _ _ used => used⟩

theorem bitOf (left : Left s t parent held new z) (b : Nat) : t.volume.sb.bitOf b = s.volume.sb.bitOf b := by
  rw [SuperBlock.bitOf, SuperBlock.bitOf, left.rest]

theorem other (left : Left s t parent held new z) (live : s.live n = true) (isNew : new = some (num, i)) : n ≠ num := by
  rintro rfl
  have clear := (left.isNew n i isNew).2.1
  exact absurd ((live_marked live).symm.trans clear) (by simp)

theorem values (left : Left s t parent held new z) (zone : (u.tree parent).zone = (t.tree parent).zone)
    (contents : ∀ b ≠ 0, b ≠ z → u.volume.contents b = t.volume.contents b) {l : Fin 9} {q : List (Fin 512)}
    (inside : q.length ≤ depth l) : (u.tree parent).value l q = (t.tree parent).value l q := by
  rw [State.value, State.value, zone]
  exact walk_congr fun front shorter nonzero =>
    contents _ nonzero (left.index l front (Nat.lt_of_lt_of_le shorter inside) nonzero)

theorem of_volume (left : Left s t parent held new z) (dev : u.dev = t.dev) (coherent : u.volume.Coherent)
    (sb : u.volume.sb = t.volume.sb) (inode : u.inode = t.inode)
    (contents : ∀ b ≠ 0, b ≠ z → u.volume.contents b = t.volume.contents b)
    (refs : z ≠ 0 → t.volume.refs z = 0 → u.volume.refs z = 0) : Left s u parent held new z := by
  have values {l : Fin 9} {q : List (Fin 512)} (inside : q.length ≤ depth l) :
      (u.tree parent).value l q = (t.tree parent).value l q :=
    left.values (by rw [System.tree, System.tree, inode]) contents inside
  refine ⟨dev.trans left.dev, coherent, sb.symm ▸ left.formatted, left.dir, by rw [sb]; exact left.rest, ?_,
    fun m isSet => ?_, fun l q full => ?_, fun b block isSet outside => ?_, ?_, ?_, ?_, ?_, ?_, ?_, ?_,
    fun nonzero => ?_, fun l q inner => ?_⟩
  · rw [sb]
    exact left.keeps
  · refine (left.zmap m (sb ▸ isSet)).imp_right (Or.imp_right ?_)
    rintro ⟨l, q, inner, used, number⟩
    rw [← values (Nat.le_of_lt inner)] at used number
    exact ⟨l, q, inner, used, number⟩
  · rw [values (Nat.le_of_eq full)]
    exact left.leaves l q full
  · refine (contents b block ?_).trans (left.contents b block isSet outside)
    rintro rfl
    exact absurd (isSet.symm.trans (left.zone block).1.clear) (by simp)
  · rw [sb]
    exact left.imap
  · rw [inode]
    exact left.mode
  · rw [inode]
    exact left.nlinks
  · rw [inode]
    exact left.size
  · rw [inode]
    exact left.zones
  · rw [inode]
    exact left.count
  · rw [inode]
    exact left.isNew
  · obtain ⟨free, isSet, unheld⟩ := left.zone nonzero
    exact ⟨free, sb.symm ▸ isSet, refs nonzero unheld⟩
  · rw [values (Nat.le_of_lt inner)]
    exact left.index l q inner

theorem of_put {held' : List Nat} (left : Left s t parent held new z) (live : s.live n = true)
    (mode : inode.mode = (t.inode n).mode) (nlinks : inode.nlinks = (t.inode n).nlinks)
    (size : inode.size = (t.inode n).size) (zone : inode.zone = (t.inode n).zone)
    (count : inode.count = (s.inode n).count + held'.count n) (others : ∀ m ≠ n, held'.count m = held.count m) :
    Left s (t.put n inode) parent held' new z := by
  have self : (t.put n inode).inode n = inode := update_self ..
  have rest {m : Nat} (other : m ≠ n) : (t.put n inode).inode m = t.inode m := update_of_ne other ..
  have field {β : Type} {f : Inode → β} (same : f inode = f (t.inode n)) (m : Nat) :
      f ((t.put n inode).inode m) = f (t.inode m) := by
    by_cases here : m = n
    · rw [here, self, same]
    · rw [rest here]
  have tree : (t.put n inode).tree parent = t.tree parent := by
    cases parent with
    | none => rfl
    | some dir =>
      rw [System.tree, System.tree, Option.elim_some, Option.elim_some, field (f := Inode.zone) zone]
      rfl
  refine ⟨left.dev, left.coherent, left.formatted, left.dir, left.rest, left.keeps, fun m isSet => ?_, ?_, left.contents,
    left.imap, fun m isLive => (field mode m).trans (left.mode m isLive),
    fun m isLive => (field nlinks m).trans (left.nlinks m isLive),
    fun m isLive => (field size m).trans (left.size m isLive),
    fun m isLive elsewhere => (field zone m).trans (left.zones m isLive elsewhere), fun m isLive => ?_,
    fun num i isNew => ?_, left.zone, ?_⟩
  · rw [tree]
    exact left.zmap m isSet
  · rw [tree]
    exact left.leaves
  · by_cases here : m = n
    · subst here
      rw [self, count]
    · rw [rest here, others m here]
      exact left.count m isLive
  · rw [rest (left.other live isNew).symm]
    exact left.isNew num i isNew
  · rw [tree]
    exact left.index

theorem setNew (left : Left s t parent held (some (num, i)) z) (i' : Inode) :
    Left s (t.put num i') parent held (some (num, i')) z := by
  obtain ⟨-, clear, isNumber⟩ := left.isNew num i rfl
  have rest {m : Nat} (isLive : s.live m = true) : (t.put num i').inode m = t.inode m :=
    update_of_ne (left.other isLive rfl) ..
  have tree : (t.put num i').tree parent = t.tree parent := by
    cases parent with
    | none => rfl
    | some dir =>
      rw [System.tree, System.tree, Option.elim_some, Option.elim_some, rest (left.dir dir rfl)]
      rfl
  refine ⟨left.dev, left.coherent, left.formatted, left.dir, left.rest, left.keeps, fun m isSet => ?_, ?_, left.contents,
    left.imap, fun m isLive => ?_, fun m isLive => ?_, fun m isLive => ?_, fun m isLive => ?_, fun m isLive => ?_,
    fun num' i'' isNew => ?_, left.zone, ?_⟩
  · rw [tree]
    exact left.zmap m isSet
  · rw [tree]
    exact left.leaves
  · rw [rest isLive, left.mode m isLive]
  · rw [rest isLive, left.nlinks m isLive]
  · rw [rest isLive, left.size m isLive]
  · rw [rest isLive]
    exact left.zones m isLive
  · rw [rest isLive, left.count m isLive]
  · cases isNew
    exact ⟨update_self .., clear, isNumber⟩
  · rw [tree]
    exact left.index

/-! ### Directories -/

section Directories

variable (consistent : s.Consistent) (live : s.live dir = true) (isDir : S_ISDIR (s.inode dir).mode = true)

include consistent live isDir

theorem contents_of_none (left : Left s t none held new z) {l : Fin 9} {q : List (Fin 512)} (inside : q.length ≤ depth l)
    (used : (s.dir dir).value l q ≠ 0) :
    t.volume.contents ((s.dir dir).value l q) = s.volume.contents ((s.dir dir).value l q) := by
  have isRoot := System.Consistent.root_of_dir live isDir l
  have inUse := consistent.inUse (dir, l) q inside
  rw [isRoot] at inUse
  exact left.contents _ used (inUse used) fun l' q' _ same => used (same.symm.trans (s.tree_none l' q'))

theorem value_of_none (left : Left s t none held new z) (l : Fin 9) (q : List (Fin 512)) (inside : q.length ≤ depth l) :
    (t.dir dir).value l q = (s.dir dir).value l q := by
  have zone : (t.dir dir).zone = (s.dir dir).zone := left.zones dir live fun isNone => by cases isNone
  rw [State.value, State.value, zone]
  exact walk_congr fun front shorter nonzero =>
    left.contents_of_none consistent live isDir (Nat.le_trans (Nat.le_of_lt shorter) inside) nonzero

theorem sharing_of_none (left : Left s t none held new z) : (t.dir dir).Sharing := by
  have isRoot := System.Consistent.root_of_dir live isDir
  have values := left.value_of_none consistent live isDir
  refine ⟨fun k path l path' inside inside' used same => ?_, fun l q inside used => ?_⟩
  · have first := values k path inside
    have second := values l path' inside'
    rw [State.value, State.value] at first second
    rw [first] at used same
    rw [second] at same
    have distinct := consistent.distinct (k := (dir, k)) (l := (dir, l)) inside inside'
    rw [isRoot, isRoot] at distinct
    obtain ⟨here, there⟩ := distinct used same
    exact ⟨(Prod.mk.injEq .. ▸ here).2, there⟩
  · have inUse := consistent.inUse (dir, l) q inside
    rw [isRoot] at inUse
    rw [values l q inside] at used ⊢
    refine left.keeps _ ?_
    have number := left.bitOf ((s.dir dir).value l q)
    exact number ▸ inUse used

theorem value_ne_zone (left : Left s t none held new z) {l : Fin 9} {q : List (Fin 512)} (inside : q.length ≤ depth l)
    (used : (t.dir dir).value l q ≠ 0) : (t.dir dir).value l q ≠ z := by
  rw [left.value_of_none consistent live isDir l q inside] at used ⊢
  have inUse := consistent.inUse (dir, l) q inside
  rw [System.Consistent.root_of_dir live isDir] at inUse
  rintro rfl
  exact absurd ((inUse used).symm.trans (left.zone used).1.clear) (by simp)

theorem zoneOf_of_none (left : Left s t none held new z) (k : Nat) :
    EntryBlocks.zoneOf (t.dir dir).toState k = EntryBlocks.zoneOf (s.dir dir).toState k := by
  by_cases inside : k < State.blocks
  · rw [EntryBlocks.zoneOf_of_lt inside, EntryBlocks.zoneOf_of_lt inside]
    exact left.value_of_none consistent live isDir _ _ (Nat.le_of_eq (State.length_place _))
  · rw [EntryBlocks.zoneOf, EntryBlocks.zoneOf, dif_neg inside, dif_neg inside]

theorem of_looks {d : Dir} {p : Option Nat} (left : Left s t none held new z) (looks : EntryBlocks.Looks (t.dir dir) d p) :
    Left s (t.putDir dir d) none held new z := by
  have same := looks.reads.rest
  have zone : d.zone = (t.inode dir).zone := by rw [same]; rfl
  have updated : Left s (t.put dir { t.inode dir with
      zone := d.zone, dirt := d.dirt, ctime := d.ctime, size := d.size, mtime := d.mtime }) none held new z :=
    left.of_put live rfl rfl looks.size zone (left.count dir live) fun _ _ => rfl
  refine updated.of_volume rfl looks.reads.coherent looks.reads.sb rfl (fun b _ _ => looks.reads.contents b)
    fun nonzero unheld => ?_
  refine (looks.reads.refs z).trans ?_
  have elsewhere : State.heldRefs p z = 0 := by
    cases p with
    | none => rfl
    | some b =>
      refine if_neg ?_
      rintro rfl
      obtain ⟨block, k, isZone⟩ := looks.place z rfl
      have inside : k < State.blocks := EntryBlocks.lt_of_zoneOf (isZone.symm ▸ block)
      rw [EntryBlocks.zoneOf_of_lt inside] at isZone
      exact left.value_ne_zone consistent live isDir (Nat.le_of_eq (State.length_place _)) (isZone.symm ▸ block) isZone
  rw [elsewhere]
  exact unheld

theorem of_passes {d : Dir} (left : Left s t none held new z) (passes : EntryBlocks.Passes (t.dir dir) d none) :
    Left s (t.putDir dir d) (some dir) held new z := by
  have allots := passes.allots
  have values := left.value_of_none consistent live isDir
  have leaf (l : Fin 9) (q : List (Fin 512)) (full : q.length = depth l) : d.value l q = (s.dir dir).value l q :=
    (passes.leaves l q full).trans (values l q (Nat.le_of_eq full))
  have self : (t.putDir dir d).inode dir = { t.inode dir with
      zone := d.zone, dirt := d.dirt, ctime := d.ctime, size := d.size, mtime := d.mtime } := update_self ..
  have value (l : Fin 9) (q : List (Fin 512)) : ((t.putDir dir d).tree (some dir)).value l q = d.value l q :=
    congrArg (fun inode : Inode => walk d.volume.contents (inode.zone l) q) self
  have rest {m : Nat} (other : m ≠ dir) : (t.putDir dir d).inode m = t.inode m := update_of_ne other ..
  have field {β : Type} {f : Inode → β} (same : f ((t.putDir dir d).inode dir) = f (t.inode dir)) (m : Nat) :
      f ((t.putDir dir d).inode m) = f (t.inode m) := by
    by_cases here : m = dir
    · rw [here, same]
    · rw [rest here]
  have mode := field (f := Inode.mode) (by rw [self])
  have nlinks := field (f := Inode.nlinks) (by rw [self])
  have count := field (f := Inode.count) (by rw [self])
  have size := field (f := Inode.size) (by rw [self]; exact passes.size)
  have imap : d.volume.sb.imap = t.volume.sb.imap := by rw [allots.rest]; rfl
  refine ⟨left.dev, allots.coherent, allots.formatted, fun n same => ?_, ?_, fun m isSet => ?_, fun m isSet => ?_,
    fun l q full => (value l q).trans (leaf l q full), fun b block isSet outside => ?_, fun n => ?_,
    fun n isLive => (mode n).trans (left.mode n isLive), fun n isLive => (nlinks n).trans (left.nlinks n isLive),
    fun n isLive => (size n).trans (left.size n isLive), fun n isLive elsewhere => ?_,
    fun n isLive => (count n).trans (left.count n isLive), fun num i isNew => ?_, fun nonzero => ?_,
    fun l q inner used => ?_⟩
  · cases same
    exact live
  · have first : d.volume.sb = { t.volume.sb with zmap := d.volume.sb.zmap } := allots.rest
    calc d.volume.sb = { t.volume.sb with zmap := d.volume.sb.zmap } := first
      _ = { s.volume.sb with imap := d.volume.sb.imap, zmap := d.volume.sb.zmap } := by rw [imap, left.rest]
  · exact allots.mono (left.keeps m isSet)
  · rcases (allots.bits m).mp isSet with before | ⟨l, q, inside, used, number⟩
    · rcases left.zmap m before with old | isZone | ⟨l, q, -, used, -⟩
      · exact .inl old
      · exact .inr (.inl isZone)
      · exact absurd (t.tree_none l q) used
    · have number' : s.volume.sb.bitOf (d.value l q) = m := (left.bitOf _).symm.trans number
      rcases Nat.lt_or_eq_of_le inside with inner | full
      · refine .inr (.inr ⟨l, q, inner, ?_, ?_⟩)
        · rw [value]
          exact used
        · rw [value]
          exact number'
      · have inUse := consistent.inUse (dir, l) q inside
        rw [System.Consistent.root_of_dir live isDir] at inUse
        rw [leaf l q full] at used number'
        exact .inl (number' ▸ inUse used)
  · have nowSet := left.keeps _ isSet
    rw [← left.bitOf b] at nowSet
    refine (allots.contents b block nowSet fun l q inner same => ?_).trans
      (left.contents b block isSet fun l q _ same => block (same.symm.trans (s.tree_none l q)))
    by_cases empty : (t.dir dir).value l q = 0
    · have clear := allots.new l q (Nat.le_of_lt inner) empty (same.symm ▸ block)
      rw [same] at clear
      exact absurd (nowSet.symm.trans clear) (by simp)
    · have grows := allots.grows l q (Nat.le_of_lt inner) empty
      exact outside l q inner ((values l q (Nat.le_of_lt inner)).symm.trans (grows.symm.trans same))
  · have map : (t.putDir dir d).volume.sb.imap = t.volume.sb.imap := imap
    rw [map]
    exact left.imap n
  · rw [rest fun here => elsewhere (here ▸ rfl)]
    exact left.zones n isLive fun isNone => by cases isNone
  · rw [rest (left.other live isNew).symm]
    exact left.isNew num i isNew
  · obtain ⟨free, isSet, unheld⟩ := left.zone nonzero
    exact ⟨free, allots.mono isSet, (allots.refs z).trans unheld⟩
  · rw [value] at used ⊢
    by_cases empty : (t.dir dir).value l q = 0
    · rintro rfl
      have clear := allots.new l q (Nat.le_of_lt inner) empty used
      have isSet := (left.zone used).2.1
      rw [← left.bitOf] at isSet
      exact absurd (isSet.symm.trans clear) (by simp)
    · rw [allots.grows l q (Nat.le_of_lt inner) empty]
      exact left.value_ne_zone consistent live isDir (Nat.le_of_lt inner) empty

theorem findEntry_left (left : Left s t none held new z) (task : Namei.Task Nat) (name : List Byte) :
    Ends (findEntry task dir name) t fun found u => Left s u none held new z ∧
      ∀ p, found = some p → s.live ((u.dir dir).load p.1 p.2).inode = true := by
  intro found u ran
  obtain ⟨⟨found, d⟩, result, next⟩ := panicking_eq_ok ran
  cases next
  have sharing := left.sharing_of_none consistent live isDir
  refine ⟨left.of_looks consistent live isDir (EntryBlocks.findEntry_looks left.coherent sharing result),
    fun p isPlace => ?_⟩
  cases isPlace
  have looks := EntryBlocks.findEntry_looks left.coherent sharing result
  obtain ⟨j, inside, places, used⟩ := EntryBlocks.findEntry_finds left.coherent sharing result
  have zone := left.zoneOf_of_none consistent live isDir (j / 64)
  have same : entryAt (t.dir dir).toState j = entryAt (s.dir dir).toState j := by
    have block := places.block
    rw [places.zone, zone] at block
    have isInside := EntryBlocks.lt_of_zoneOf block
    rw [entryAt, entryAt, zone]
    rw [EntryBlocks.zoneOf_of_lt isInside] at block ⊢
    exact congrArg (EntryBlocks.entry · (j % 64))
      (left.contents_of_none consistent live isDir (Nat.le_of_eq (State.length_place _)) block)
  have loaded : ((t.putDir dir d).dir dir).load p.1 p.2 = d.load p.1 p.2 := rfl
  rw [loaded, places.load looks, same]
  rw [same] at used
  have size : (t.dir dir).size = (s.inode dir).size := left.size dir live
  refine consistent.named dir live isDir (j, _) ⟨size ▸ inside, ?_, rfl, used⟩
  exact zone ▸ places.zone ▸ places.block

theorem addEntry_left (left : Left s t none held new z) (name : List Byte) :
    Ends (addEntry dir name) t fun found u => found = none → Left s u (some dir) held new z := by
  intro found u ran isNone
  subst isNone
  obtain ⟨⟨found, d⟩, result, next⟩ := panicking_eq_ok ran
  cases next
  have sharing := left.sharing_of_none consistent live isDir
  have first : 0 < (t.dir dir).volume.sb.firstdatazone := by
    have same : (t.dir dir).volume.sb = t.volume.sb := rfl
    rw [same, left.rest]
    exact consistent.first
  exact left.of_passes consistent live isDir (EntryBlocks.addEntry_fails left.coherent sharing left.formatted first result)

end Directories

end Left

/-! ## The parts of a call -/

theorem contents_sync {v : Volume Index} (coherent : v.Coherent) (b : Nat) : (sync v).contents b = v.contents b := by
  cases cached : v.cache b with
  | none => simp [Volume.contents, sync, cached]
  | some bh =>
    have suits := coherent b bh cached
    simp only [Volume.contents, sync, cached, Option.map_some, Option.elim_some]
    split
    · rfl
    · next stale =>
      rw [if_neg fun dirt => stale (suits.dirty dirt)]

theorem coherent_sync {v : Volume Index} (coherent : v.Coherent) : (sync v).Coherent := by
  intro b bh cached
  simp only [sync, Option.map_eq_some_iff] at cached
  obtain ⟨bh', isBuffer, rfl⟩ := cached
  have suits := coherent b bh' isBuffer
  refine ⟨fun uptodate _ => ?_, fun dirt => by cases dirt⟩
  simp only [sync, isBuffer, Option.elim_some]
  split
  · rfl
  · next clean => exact suits.clean uptodate (by simpa using clean)

theorem refs_sync (v : Volume Index) (b : Nat) : (sync v).refs b = v.refs b := by
  simp only [Volume.refs, sync]
  cases v.cache b <;> rfl

theorem inodeOf_bind {β : Type} {f : Inode → Kernel β} {post : β → System → Prop} (rest : Ends (f (t.inode n)) t post) :
    Ends (inodeOf n >>= f) t post := by
  have same : Ends (inodeOf n) t fun i u => t.inode n = i ∧ t = u := by
    intro i u ran
    cases ran
    exact ⟨rfl, rfl⟩
  refine .bind same ?_
  rintro i u ⟨rfl, rfl⟩
  exact rest

def Synced (t u : System) : Prop := u = t ∨ u = { t with volume := sync t.volume }

theorem iput_ends {post : Unit → System → Prop}
    (more : ∀ u, Synced t u → 1 < (t.inode n).count →
      Ends (setInode n fun inode => { inode with count := inode.count - 1 }) u post)
    (last : ∀ u, Synced t u → (t.inode n).count = 1 → (t.inode n).nlinks ≠ 0 →
      Ends (setInode n fun inode => { inode with count := inode.count - 1, dirt := false }) u post)
    (gone : ∀ u, Synced t u → (t.inode n).count = 1 → (t.inode n).nlinks = 0 →
      Ends (truncate n >>= fun _ => freeInode n) u post) : Ends (iput n) t post := by
  have rest (u : System) (synced : Synced t u) (used : (t.inode n).count ≠ 0) :
      Ends (if 1 < (t.inode n).count then setInode n fun inode => { inode with count := inode.count - 1 }
        else if (t.inode n).nlinks = 0 then truncate n >>= fun _ => freeInode n
        else setInode n fun inode => { inode with count := inode.count - 1, dirt := false }) u post := by
    refine .ite (more u synced) fun few => ?_
    have one : (t.inode n).count = 1 := by omega
    exact .ite (gone u synced one) (last u synced one)
  have written {zone : Nat} :
      Ends (modify fun s => if zone = s.dev then { s with volume := sync s.volume } else s : Kernel Unit) t
        fun _ u => Synced t u := by
    intro _ u ran
    cases ran
    dsimp only
    split
    · exact .inr rfl
    · exact .inl rfl
  rw [iput]
  refine inodeOf_bind ?_
  refine .ite (fun _ i u ran => by cases ran) fun used => ?_
  exact .ite (fun _ => .bind written fun _ u synced => rest u synced used) fun _ => rest t (.inl rfl) used

namespace Left

theorem synced (left : Left s t parent held new z) (synced : Synced t u) : Left s u parent held new z := by
  rcases synced with rfl | rfl
  · exact left
  · exact left.of_volume rfl (coherent_sync left.coherent) rfl rfl (fun b _ _ => contents_sync left.coherent b)
      fun _ unheld => (refs_sync t.volume z).trans unheld

theorem hold_left (left : Left s t parent held new z) (live : s.live n = true) :
    Ends (hold n) t fun _ u => Left s u parent (n :: held) new z := by
  intro _ u ran
  cases ran
  refine left.of_put live rfl rfl rfl rfl ?_ fun m other => List.count_cons_of_ne (Ne.symm other)
  rw [List.count_cons_self, ← Nat.add_assoc]
  exact congrArg (· + 1) (left.count n live)

theorem setOld_left (left : Left s t parent held new z) (live : s.live n = true) (time : Nat) :
    Ends (setInode n fun inode => { inode with atime := time }) t fun _ u => Left s u parent held new z := by
  intro _ u ran
  cases ran
  exact left.of_put live rfl rfl rfl rfl (left.count n live) fun _ _ => rfl

theorem setNew_left (left : Left s t parent held (some (num, i)) z) (f : Inode → Inode) :
    Ends (setInode num f) t fun _ u => Left s u parent held (some (num, f i)) z := by
  intro _ u ran
  cases ran
  rw [(left.isNew num i rfl).1]
  exact left.setNew (f i)

theorem iput_left (consistent : s.Consistent) (left : Left s t parent (n :: held) new z) (live : s.live n = true) :
    Ends (iput n) t fun _ u => Left s u parent held new z := by
  have count := left.count n live
  rw [List.count_cons_self] at count
  have released {u : System} (synced : Synced t u) (dirt : Bool) :
      Left s (u.put n { u.inode n with count := (u.inode n).count - 1, dirt }) parent held new z := by
    have before := left.synced synced
    refine before.of_put live rfl rfl rfl rfl ?_ fun m other => (List.count_cons_of_ne (Ne.symm other)).symm
    have same := before.count n live
    rw [List.count_cons_self] at same
    dsimp only
    omega
  refine iput_ends (fun u synced _ _ v ran => ?_) (fun u synced _ _ _ v ran => ?_) fun u _ one none => ?_
  · cases ran
    exact released synced (u.inode n).dirt
  · cases ran
    exact released synced false
  · have closed : (s.inode n).count = 0 := by omega
    exact absurd closed (consistent.counted n live ((left.nlinks n live).symm.trans none))

theorem brelse_left (left : Left s t parent held new z) (block : Nat) :
    Ends (brelse block) t fun _ u => Left s u parent held new z := by
  intro _ u ran
  cases ran
  refine left.of_volume rfl (Volume.coherent_brelse left.coherent block) rfl rfl
    (fun b _ _ => t.volume.contents_brelse block b) fun _ unheld => ?_
  refine (t.volume.refs_brelse block z).trans ?_
  rw [unheld, Nat.zero_sub]

theorem fillBlock_left (left : Left s t parent held new z) (f : Index → Index) :
    Ends (fillBlock z f) t fun _ u => Left s u parent held new z := by
  intro _ u ran
  cases ran
  obtain ⟨read, holds, -, -, readSb⟩ := Volume.bread_spec left.coherent z (t.free 0)
  obtain ⟨write, holds', writeSb⟩ := Volume.store_spec read.coherent holds f
  obtain ⟨release, -, -, releaseSb⟩ := Volume.brelse_spec write.coherent holds'
  refine left.of_volume rfl release.coherent (releaseSb.trans (writeSb.trans readSb)) rfl (fun b _ other => ?_)
    fun _ unheld => ?_
  · exact (release.contents b other).trans ((write.contents b other).trans (read.contents b other))
  · refine (Volume.refs_brelse ..).trans ?_
    rw [Volume.refs_store, Volume.refs_bread, if_pos rfl, Nat.add_sub_cancel]
    exact unheld

theorem newBlock_left (consistent : s.Consistent) (left : Left s t none held new 0) :
    Ends newBlock t fun block u => Left s u none held new block := by
  intro block u ran
  obtain ⟨⟨n, v⟩, result, next⟩ := panicking_eq_ok ran
  cases next
  have rest := left.rest
  have first : 0 < t.volume.sb.firstdatazone := by
    rw [rest]
    exact consistent.first
  have gives := Volume.newBlock_gives left.coherent left.formatted first result
  obtain ⟨keeps, allocates, -⟩ := Volume.newBlock_spec left.coherent result
  have imap : v.sb.imap = t.volume.sb.imap := by rw [gives.rest]
  refine ⟨left.dev, keeps.coherent, gives.formatted, left.dir, ?_, fun m isSet => ?_, fun m isSet => ?_,
    fun l q _ => (System.tree_none _ l q).trans (s.tree_none l q).symm, fun b block isSet outside => ?_, fun m => ?_,
    left.mode, left.nlinks, left.size, left.zones, left.count, left.isNew, fun nonzero => ?_,
    fun l q _ used => absurd (System.tree_none _ l q) used⟩
  · calc v.sb = { t.volume.sb with zmap := v.sb.zmap } := gives.rest
      _ = { s.volume.sb with imap := v.sb.imap, zmap := v.sb.zmap } := by rw [imap, rest]
  · exact (gives.bits m).mpr (.inl (left.keeps m isSet))
  · rcases (gives.bits m).mp isSet with before | ⟨nonzero, number⟩
    · rcases left.zmap m before with old | ⟨zero, -⟩ | ⟨l, q, -, used, -⟩
      · exact .inl old
      · exact absurd rfl zero
      · exact absurd (t.tree_none l q) used
    · exact .inr (.inl ⟨nonzero, (left.bitOf n).symm.trans number⟩)
  · refine (keeps.contents b ?_).trans (left.contents b block isSet outside)
    rintro rfl
    have nowSet := left.keeps _ isSet
    rw [← left.bitOf] at nowSet
    exact absurd (nowSet.symm.trans (allocates.clear block)) (by simp)
  · have map : ({ t with volume := v, free := fun i => t.free (i + 1) } : System).volume.sb.imap =
        t.volume.sb.imap := imap
    rw [map]
    exact left.imap m
  · obtain ⟨z, formatted⟩ := left.formatted
    obtain ⟨free, unheld⟩ := Volume.newBlock_zone formatted result nonzero
    have clear := free.clear
    rw [left.bitOf] at clear
    refine ⟨⟨?_, ?_, ?_⟩, (gives.bits _).mpr (.inr ⟨nonzero, left.bitOf n⟩), (gives.refs n).trans unheld⟩
    · have isFirst := free.first
      rwa [rest] at isFirst
    · have isLast := free.last
      rwa [rest] at isLast
    · rw [Bool.eq_false_iff] at clear ⊢
      exact fun isSet => clear (left.keeps _ isSet)

end Left

def Fresh (i : Inode) : Prop := i.count = 1 ∧ i.nlinks = 1 ∧ i.mode = 0 ∧ i.zone = fun _ => 0

namespace Left

theorem newInode_left (consistent : s.Consistent) (left : Left s t none held none 0) (task : Namei.Task Nat) :
    Ends (newInode task) t fun found u => (found = none → Left s u none held none 0) ∧
      ∀ num, found = some num → ∃ i, Left s u none held (some (num, i)) 0 ∧ Fresh i := by
  intro found u ran
  obtain ⟨⟨got, v⟩, result, next⟩ := panicking_eq_ok ran
  obtain ⟨none_, some_⟩ := Volume.newInode_spec result
  cases got with
  | none =>
    cases next
    have same := none_ rfl
    subst same
    exact ⟨fun _ => left, fun num isSome => by cases isSome⟩
  | some got =>
    cases next
    refine ⟨fun isNone => (by cases isNone), fun num isSome => ?_⟩
    cases isSome
    obtain ⟨isInode, clear, last, imap, isVolume, bits⟩ := some_ got rfl
    subst isVolume
    have clear' : marked s.volume.sb.imap got.num = false := by
      rw [Bool.eq_false_iff] at clear ⊢
      exact fun isSet => clear ((left.imap _).mpr (.inl isSet))
    have positive : 1 ≤ got.num := by
      refine Nat.one_le_iff_ne_zero.mpr fun zero => ?_
      rw [zero] at clear'
      exact absurd (consistent.reserved.symm.trans clear') (by simp)
    have rest {β : Type} (f : Inode → β) (i : Inode) {m : Nat} (isLive : s.live m = true) :
        f ((t.put got.num i).inode m) = f (t.inode m) := by
      refine congrArg f (update_of_ne ?_ ..)
      rintro rfl
      exact absurd ((live_marked isLive).symm.trans clear') (by simp)
    obtain ⟨z, formatted⟩ := left.formatted
    let inode : Inode :=
      { Inode.clear with
        count := got.count, nlinks := got.nlinks, uid := got.uid, gid := got.gid, dirt := got.dirt
        mtime := got.time, atime := got.time, ctime := got.time }
    refine ⟨inode, ⟨left.dev, (Volume.Keeps.setSb left.coherent ∅ _).coherent,
      ⟨z, formatted.slots, formatted.loaded, formatted.first, formatted.past, formatted.zones⟩, left.dir, ?_, left.keeps,
      fun m isSet => ?_, fun l q _ => (System.tree_none _ l q).trans (s.tree_none l q).symm, left.contents, fun m => ?_,
      fun m isLive => (rest Inode.mode _ isLive).trans (left.mode m isLive),
      fun m isLive => (rest Inode.nlinks _ isLive).trans (left.nlinks m isLive),
      fun m isLive => (rest Inode.size _ isLive).trans (left.size m isLive),
      fun m isLive elsewhere => (rest Inode.zone _ isLive).trans (left.zones m isLive elsewhere),
      fun m isLive => (rest Inode.count _ isLive).trans (left.count m isLive), fun num i isNew => ?_,
      fun zero => absurd rfl zero,
      fun _ _ _ used => used⟩, congrArg Bitmap.Inode.count isInode, congrArg Bitmap.Inode.nlinks isInode, rfl, rfl⟩
    · have map := left.rest
      dsimp only
      rw [map]
    · rcases left.zmap m isSet with old | ⟨zero, -⟩ | ⟨l, q, -, used, -⟩
      · exact .inl old
      · exact absurd rfl zero
      · exact absurd (t.tree_none l q) used
    · refine (bits m).trans (or_congr ?_ ?_)
      · simpa using left.imap m
      · simp [eq_comm]
    · cases isNew
      have same := left.rest
      rw [same] at last
      exact ⟨update_self .., clear', positive, last⟩

theorem of_freed (left : Left s t parent held new z) (dev : u.dev = t.dev) (inode : u.inode = t.inode) (nonzero : z ≠ 0)
    (keeps : t.volume.Keeps {z} u.volume)
    (changes : t.volume.sb.ChangesZone (t.volume.sb.bitOf z) false u.volume.sb) : Left s u parent held new 0 := by
  have values {l : Fin 9} {q : List (Fin 512)} (inside : q.length ≤ depth l) :
      (u.tree parent).value l q = (t.tree parent).value l q :=
    left.values (by rw [System.tree, System.tree, inode]) (fun b _ other => keeps.contents b other) inside
  obtain ⟨free, -, -⟩ := left.zone nonzero
  have bits := changes.zmap.bits
  have rest := changes.rest
  have imap : u.volume.sb.imap = t.volume.sb.imap := by rw [rest]
  rw [left.bitOf] at bits
  obtain ⟨k, formatted⟩ := left.formatted
  have inside : t.volume.sb.firstdatazone ≤ z ∧ z < t.volume.sb.nzones := by
    rw [left.rest]
    exact ⟨free.first, free.last⟩
  refine ⟨dev.trans left.dev, keeps.coherent, ⟨k, formatted.free inside changes⟩, left.dir, ?_, fun m isSet => ?_,
    fun m isSet => ?_, fun l q full => ?_, fun b block isSet outside => ?_, ?_, ?_, ?_, ?_, ?_, ?_, ?_,
    fun zero => absurd rfl zero, fun _ _ _ used => used⟩
  · calc u.volume.sb = { t.volume.sb with zmap := u.volume.sb.zmap } := rest
      _ = { s.volume.sb with imap := u.volume.sb.imap, zmap := u.volume.sb.zmap } := by rw [imap, left.rest]
  · rw [bits, if_neg ?_]
    · exact left.keeps m isSet
    · rintro rfl
      exact absurd (isSet.symm.trans free.clear) (by simp)
  · rw [bits] at isSet
    split at isSet
    · cases isSet
    · next other =>
      rcases left.zmap m isSet with old | ⟨-, here⟩ | ⟨l, q, inner, used, number⟩
      · exact .inl old
      · exact absurd here.symm other
      · rw [← values (Nat.le_of_lt inner)] at used number
        exact .inr (.inr ⟨l, q, inner, used, number⟩)
  · rw [values (Nat.le_of_eq full)]
    exact left.leaves l q full
  · refine (keeps.contents b ?_).trans (left.contents b block isSet outside)
    rintro rfl
    exact absurd (isSet.symm.trans free.clear) (by simp)
  · rw [imap]
    exact left.imap
  · rw [inode]
    exact left.mode
  · rw [inode]
    exact left.nlinks
  · rw [inode]
    exact left.size
  · rw [inode]
    exact left.zones
  · rw [inode]
    exact left.count
  · rw [inode]
    exact left.isNew

end Left

/-- Where a zone was taken, `i_zone` has it, and the mode lets `truncate` look there. -/
def Owns (i : Inode) (z : Nat) : Prop :=
  if hasZones i.mode = true then i.zone = update (fun _ => 0) 0 z else z = 0

namespace Left

theorem truncate_left (left : Left s t parent held (some (num, i)) z) (owns : Owns i z) :
    Ends (truncate num) t fun _ u => ∃ i', Left s u parent held (some (num, i')) 0 := by
  intro _ u ran
  have self := (left.isNew num i rfl).1
  rw [truncate] at ran
  split at ran
  · next f truncated =>
    cases ran
    have rewritten := left.setNew { t.inode num with
      zone := f.zone, dirt := f.dirt, ctime := f.ctime, size := f.size, mtime := f.mtime }
    rw [Owns] at owns
    split at owns
    · next mode =>
      rw [← self] at mode owns
      have isFile : (S_ISREG (t.file num).mode || S_ISDIR (t.file num).mode || S_ISLNK (t.file num).mode) = true := mode
      rcases Truncate.State.truncate_single isFile owns rfl truncated with ⟨rfl, same⟩ | ⟨nonzero, r, freed, success, same⟩
      · have same' : (t.putFile num f).volume = t.volume := same
        exact ⟨_, rewritten.of_volume rfl (same'.symm ▸ left.coherent) (congrArg Volume.sb same') rfl
          (fun b _ _ => congrArg (Volume.contents · b) same') fun zero => absurd rfl zero⟩
      · have same' : (t.putFile num f).volume = r.2.2 := same
        obtain ⟨free, -, unheld⟩ := left.zone nonzero
        obtain ⟨k, formatted⟩ := left.formatted
        have inside : t.volume.sb.firstdatazone ≤ z ∧ z < t.volume.sb.nzones := by
          rw [left.rest]
          exact ⟨free.first, free.last⟩
        obtain ⟨v, freed', changes, -⟩ :=
          Volume.freeBlock_of_unheld inside (Volume.unheld_iff_refs.mpr unheld) (formatted.loaded_bitOf inside)
        have isVolume : t.volume.freeBlock z = .ok r := freed
        rw [freed'] at isVolume
        cases isVolume
        have keeps := Volume.keeps_freeBlock left.coherent freed'
        exact ⟨_, rewritten.of_freed (u := t.putFile num f) rfl rfl nonzero (same'.symm ▸ keeps) (same'.symm ▸ changes)⟩
    · next mode =>
      subst owns
      rw [← self] at mode
      have nothing : (t.file num).truncate t.time 1 = .ok (some (t.file num)) := if_neg mode
      rw [nothing] at truncated
      cases truncated
      exact ⟨_, rewritten.of_volume rfl left.coherent rfl rfl (fun _ _ _ => rfl) fun zero => absurd rfl zero⟩
  · cases ran
  · cases ran

theorem freeInode_left (consistent : s.Consistent) (left : Left s t parent held (some (num, i)) 0) :
    Ends (freeInode num) t fun _ u => Left s u parent held none 0 := by
  intro _ u ran
  obtain ⟨⟨printed, v⟩, result, next⟩ := panicking_eq_ok ran
  cases next
  have dev : t.dev ≠ 0 := left.dev.symm ▸ consistent.dev
  obtain ⟨imap, isVolume, bits⟩ := Volume.freeInode_spec dev result
  dsimp only at isVolume bits
  subst isVolume
  obtain ⟨-, clear, -⟩ := left.isNew num i rfl
  have wiped := left.setNew .clear
  obtain ⟨k, formatted⟩ := left.formatted
  refine ⟨left.dev, (Volume.Keeps.setSb left.coherent ∅ _).coherent,
    ⟨k, formatted.slots, formatted.loaded, formatted.first, formatted.past, formatted.zones⟩, left.dir, ?_, left.keeps,
    wiped.zmap, wiped.leaves, left.contents, fun m => ?_, wiped.mode, wiped.nlinks, wiped.size, wiped.zones, wiped.count,
    fun num i isNone => (by cases isNone), fun zero => absurd rfl zero, fun _ _ _ used => used⟩
  · have map := left.rest
    rw [map]
  · refine (bits m).trans ?_
    rw [left.imap]
    by_cases here : m = num
    · subst here
      simp [clear]
    · simp [here, Ne.symm here]

theorem swap {m : Nat} (left : Left s t parent (m :: n :: held) new z) : Left s t parent (n :: m :: held) new z := by
  refine { left with count := fun k live => ?_ }
  rw [(List.Perm.swap m n held).count_eq]
  exact left.count k live

theorem iput_new (consistent : s.Consistent) (left : Left s t parent held (some (num, i)) z) (one : i.count = 1)
    (unlinked : i.nlinks = 0) (owns : Owns i z) : Ends (iput num) t fun _ u => Left s u parent held none 0 := by
  have self := (left.isNew num i rfl).1
  have count : (t.inode num).count = 1 := self.symm ▸ one
  have nlinks : (t.inode num).nlinks = 0 := self.symm ▸ unlinked
  refine iput_ends (fun u _ more => ?_) (fun u _ _ linked => absurd nlinks linked) fun u synced _ _ => ?_
  · omega
  · refine .bind ((left.synced synced).truncate_left owns) ?_
    rintro - v ⟨i', after⟩
    exact after.freeInode_left consistent

end Left

end Linux012.Fs.Creation

import Linux012.Fs.LinkCounts
import Mathlib.Algebra.Order.BigOperators.Group.Finset

/-! The tree of directories, and the entries that name an inode. -/

set_option autoImplicit false

namespace Linux012.Fs.LinkCounts

open Namei List
open scoped BigOperators

/-! ## Entries -/

def targetOf (entries : List DirEntry) (j : Nat) : Nat := (entries[j]?).elim 0 DirEntry.inode

def named (entries : List DirEntry) (n : Nat) : Nat := entries.countP fun e => e.inode = n

section Entries

variable {entries : List DirEntry} {j k n : Nat} {e : DirEntry}

theorem targetOf_beyond (beyond : entries.length ≤ j) : targetOf entries j = 0 := by
  rw [targetOf, getElem?_eq_none beyond]
  rfl

theorem inside_of_target (used : targetOf entries j ≠ 0) : j < entries.length := by
  by_contra beyond
  exact used (targetOf_beyond (Nat.le_of_not_lt beyond))

theorem targetOf_place (k : Nat) :
    targetOf (place entries j e) k = if k = j then e.inode else targetOf entries k := by
  unfold place targetOf
  split
  · next inside =>
    rw [getElem?_set]
    by_cases same : j = k
    · rw [if_pos same, if_pos same.symm, if_pos inside]
      rfl
    · rw [if_neg same, if_neg (Ne.symm same)]
  · next outside =>
    rw [append_assoc, getElem?_append]
    split
    · next inside => rw [if_neg (by omega)]
    · next beyond =>
      rw [getElem?_append, getElem?_eq_none (Nat.le_of_not_lt beyond)]
      split
      · next between =>
        rw [length_replicate] at between
        rw [getElem?_replicate, if_pos between, if_neg (by omega)]
        rfl
      · next behind =>
        rw [length_replicate] at behind ⊢
        by_cases same : k = j
        · subst same
          simp
        · rw [if_neg same, getElem?_eq_none (by simp; omega)]

theorem targetOf_leave (k : Nat) :
    targetOf (entries.modify j fun e => { e with inode := 0 }) k = if k = j then 0 else targetOf entries k := by
  unfold targetOf
  rw [getElem?_modify]
  by_cases same : j = k
  · rw [if_pos same.symm]
    cases entries[k]? <;> simp [same]
  · rw [if_neg (Ne.symm same)]
    cases entries[k]? <;> simp [same]

theorem named_place (used : n ≠ 0) (free : targetOf entries j = 0) :
    named (place entries j e) n = named entries n + if e.inode = n then 1 else 0 := by
  unfold named place
  split
  · next inside =>
    have isFree : entries[j].inode = 0 := by
      rw [targetOf, getElem?_eq_getElem inside] at free
      exact free
    rw [countP_set inside, isFree]
    simp [Ne.symm used]
  · have none_ : (List.replicate (j - entries.length) (entryOf 0 [])).countP (fun e => e.inode = n) = 0 := by
      rw [countP_eq_zero]
      intro f member
      rw [eq_of_mem_replicate member]
      simpa [entryOf] using Ne.symm used
    rw [countP_append, countP_append, none_, countP_singleton]
    simp

theorem named_leave (used : n ≠ 0) :
    named (entries.modify j fun e => { e with inode := 0 }) n + (if targetOf entries j = n then 1 else 0) =
      named entries n := by
  induction entries generalizing j with
  | nil => simp [named, targetOf, Ne.symm used]
  | cons e entries ih =>
    cases j with
    | zero =>
      simp [named, targetOf, Ne.symm used, countP_cons]
    | succ j =>
      have later := ih (j := j)
      unfold named targetOf at later ⊢
      rw [modify_succ_cons, countP_cons, countP_cons, getElem?_cons_succ]
      omega

theorem named_pos (used : n ≠ 0) : 0 < named entries n ↔ ∃ j, targetOf entries j = n := by
  rw [named, countP_pos_iff]
  constructor
  · rintro ⟨e, member, names⟩
    obtain ⟨j, at_⟩ := mem_iff_getElem?.mp member
    refine ⟨j, ?_⟩
    rw [targetOf, at_]
    exact of_decide_eq_true names
  · rintro ⟨j, isTarget⟩
    have inside : j < entries.length := inside_of_target (isTarget ▸ used)
    refine ⟨entries[j], getElem_mem inside, decide_eq_true ?_⟩
    rw [targetOf, getElem?_eq_getElem inside] at isTarget
    exact isTarget

theorem named_two {first second : Nat} (used : n ≠ 0) (isFirst : targetOf entries 0 = first) (one : first ≠ 0)
    (isSecond : targetOf entries 1 = second) (two : second ≠ 0) (rest : ∀ j, 2 ≤ j → targetOf entries j = 0) :
    named entries n = (if first = n then 1 else 0) + if second = n then 1 else 0 := by
  match entries, isFirst, isSecond, rest with
  | [], isFirst, _, _ => exact absurd isFirst.symm one
  | [_], _, isSecond, _ => exact absurd isSecond.symm two
  | e :: f :: others, isFirst, isSecond, rest =>
    have isE : e.inode = first := isFirst
    have isF : f.inode = second := isSecond
    have none_ : others.countP (fun e => e.inode = n) = 0 := by
      by_contra some_
      obtain ⟨j, isTarget⟩ := (named_pos used).mp (Nat.pos_of_ne_zero some_)
      exact used (isTarget.symm.trans (rest (j + 2) (by omega)))
    rw [named, countP_cons, countP_cons, none_, isE, isF]
    simp only [decide_eq_true_eq]
    omega

end Entries

/-! ## Links -/

def State.entries (s : State) (d : Nat) : List DirEntry := (s.inodes d).elim [] Inode.entries

def State.nlinks (s : State) (n : Nat) : Nat := (s.inodes n).elim 0 Inode.nlinks

def State.isDir (s : State) (n : Nat) : Bool := (s.inodes n).any Inode.isDir

def State.target (s : State) (d j : Nat) : Nat := targetOf (s.entries d) j

def State.links (s : State) (n : Nat) : Nat := ∑ d ∈ Finset.range (s.ninodes + 1), named (s.entries d) n

/-- The directories hang together. The first two entries of a directory are its own and
that of its parent; the parent has an entry for it, if it is not the directory itself or
the directory hangs loose. No other entry names a directory. -/
structure State.Tree (s : State) (loose : Nat) : Prop where
  numbered : ∀ n, s.inodes n ≠ none → n ≠ 0 ∧ n ≤ s.ninodes
  byte : ∀ n, s.nlinks n < 256
  heads : ∀ d, s.entries d ≠ [] → s.isDir d = true ∧ s.target d 0 = d ∧ s.target d 1 ≠ 0
  above : ∀ d, s.entries d ≠ [] →
    d = loose ∨ s.target d 1 = d ∨ ∃ j, 2 ≤ j ∧ s.target (s.target d 1) j = d
  below : ∀ d j, 2 ≤ j → s.isDir (s.target d j) = true → s.entries (s.target d j) ≠ [] →
    s.target (s.target d j) 1 = d
  only : ∀ d j e k, 2 ≤ j → 2 ≤ k → s.isDir (s.target d j) = true → s.target e k = s.target d j →
    e = d ∧ k = j

structure State.Consistent (s : State) : Prop where
  tree : s.Tree 0
  exact : ∀ n, n ≠ 0 → s.nlinks n = s.links n

section Put

variable {s : State} {d n m j : Nat} {inode inode' : Inode} {new : Option Inode}

theorem entries_of_some (isInode : s.inodes d = some inode) : s.entries d = inode.entries := by
  rw [State.entries, isInode]
  rfl

theorem nlinks_of_some (isInode : s.inodes n = some inode) : s.nlinks n = inode.nlinks := by
  rw [State.nlinks, isInode]
  rfl

theorem isDir_of_some (isInode : s.inodes n = some inode) : s.isDir n = inode.isDir := by
  rw [State.isDir, isInode]
  rfl

theorem target_of_some (isInode : s.inodes d = some inode) : s.target d j = targetOf inode.entries j := by
  rw [State.target, entries_of_some isInode]

@[simp] theorem put_ninodes : (s.put n new).ninodes = s.ninodes := rfl

@[simp] theorem put_inodes : (s.put n new).inodes n = new := by
  simp [State.put]

theorem put_inodes_ne (other : m ≠ n) : (s.put n new).inodes m = s.inodes m := by
  simp [State.put, other]

theorem put_entries_ne (other : m ≠ n) : (s.put n new).entries m = s.entries m := by
  rw [State.entries, put_inodes_ne other, State.entries]

theorem put_nlinks_ne (other : m ≠ n) : (s.put n new).nlinks m = s.nlinks m := by
  rw [State.nlinks, put_inodes_ne other, State.nlinks]

theorem put_isDir_ne (other : m ≠ n) : (s.put n new).isDir m = s.isDir m := by
  rw [State.isDir, put_inodes_ne other, State.isDir]

theorem put_target_ne (other : m ≠ n) : (s.put n new).target m j = s.target m j := by
  rw [State.target, put_entries_ne other, State.target]

theorem put_put (first second : Option Inode) : (s.put n first).put n second = s.put n second := by
  simp [State.put]

theorem put_same (isInode : s.inodes n = new) : s.put n new = s := by
  subst isInode
  simp [State.put]

theorem put_comm (other : m ≠ n) (first second : Option Inode) :
    (s.put n first).put m second = (s.put m second).put n first := by
  simp [State.put, Function.update_comm other]

theorem put_links (inside : d ≤ s.ninodes) (new : Option Inode) (n : Nat) :
    (s.put d new).links n + named (s.entries d) n = s.links n + named (new.elim [] Inode.entries) n := by
  have member : d ∈ Finset.range (s.ninodes + 1) := Finset.mem_range.mpr (by omega)
  have others : ∑ e ∈ (Finset.range (s.ninodes + 1)).erase d, named ((s.put d new).entries e) n =
      ∑ e ∈ (Finset.range (s.ninodes + 1)).erase d, named (s.entries e) n := by
    refine Finset.sum_congr rfl fun e member => ?_
    rw [put_entries_ne (Finset.ne_of_mem_erase member)]
  have changed : (s.put d new).entries d = new.elim [] Inode.entries := by
    rw [State.entries, put_inodes]
  unfold State.links
  rw [put_ninodes, ← Finset.add_sum_erase _ _ member, ← Finset.add_sum_erase _ (fun e => named (s.entries e) n) member,
    others, changed]
  omega

end Put

namespace State.Tree

variable {s : State} {loose loose' d n c j k : Nat} {inode inode' : Inode} {new : Option Inode}

theorem inside (tree : s.Tree loose) (isInode : s.inodes n = some inode) : n ≠ 0 ∧ n ≤ s.ninodes :=
  tree.numbered n (by simp [isInode])

theorem not_dir_zero (tree : s.Tree loose) : s.isDir 0 = false := by
  rw [State.isDir, Option.any_eq_false]
  intro inode isInode
  exact absurd rfl (tree.inside isInode).1

theorem entries_zero (tree : s.Tree loose) : s.entries 0 = [] := by
  by_contra some_
  have isDir := (tree.heads 0 some_).1
  rw [tree.not_dir_zero] at isDir
  cases isDir

theorem has_entries (used : s.target d j ≠ 0) : s.entries d ≠ [] := by
  intro empty
  rw [State.target, empty] at used
  exact used rfl

theorem entries_inside (some_ : s.entries d ≠ []) : ∃ inode, s.inodes d = some inode := by
  cases isInode : s.inodes d with
  | none =>
    rw [State.entries, isInode] at some_
    exact absurd rfl some_
  | some inode => exact ⟨inode, rfl⟩

theorem links_pos (tree : s.Tree loose) (used : n ≠ 0) : 0 < s.links n ↔ ∃ d j, s.target d j = n := by
  rw [State.links, Finset.sum_pos_iff]
  constructor
  · rintro ⟨d, -, some_⟩
    exact ⟨d, (named_pos used).mp some_⟩
  · rintro ⟨d, j, isTarget⟩
    obtain ⟨inode, isInode⟩ := entries_inside (has_entries (isTarget ▸ used : s.target d j ≠ 0))
    exact ⟨d, Finset.mem_range.mpr (Nat.lt_succ_of_le (tree.inside isInode).2), (named_pos used).mpr ⟨j, isTarget⟩⟩

theorem free_index (tree : s.Tree loose) (some_ : s.entries d ≠ []) (free : s.target d j = 0) : 2 ≤ j := by
  obtain ⟨-, dot, dotdot⟩ := tree.heads d some_
  have used : d ≠ 0 := by
    rintro rfl
    exact some_ tree.entries_zero
  match j with
  | 0 => exact absurd (dot.symm.trans free) used
  | 1 => exact absurd free dotdot
  | j + 2 => omega

theorem behind_of (tree : s.Tree 0) (some_ : s.entries d ≠ []) (isTarget : s.target d j = n) (other : n ≠ d)
    (notBelow : ∀ k, 2 ≤ k → s.target n k ≠ d) : 2 ≤ j := by
  by_contra front
  obtain rfl | rfl : j = 0 ∨ j = 1 := by omega
  · exact other (isTarget.symm.trans (tree.heads d some_).2.1)
  · rcases tree.above d some_ with zero | isRoot | ⟨k, beyond, hangs⟩
    · exact some_ (zero ▸ tree.entries_zero)
    · exact other (isTarget.symm.trans isRoot)
    · rw [isTarget] at hangs
      exact notBelow k beyond hangs

/-! ### Changes -/

theorem update (tree : s.Tree loose) (isInode : s.inodes n = some inode)
    (sameEntries : inode'.entries = inode.entries) (sameDir : inode'.isDir = inode.isDir)
    (byte : inode'.nlinks < 256) : (s.put n (some inode')).Tree loose := by
  have entries (m : Nat) : (s.put n (some inode')).entries m = s.entries m := by
    by_cases same : m = n
    · subst same
      rw [entries_of_some put_inodes, entries_of_some isInode, sameEntries]
    · exact put_entries_ne same
  have isDir (m : Nat) : (s.put n (some inode')).isDir m = s.isDir m := by
    by_cases same : m = n
    · subst same
      rw [isDir_of_some put_inodes, isDir_of_some isInode, sameDir]
    · exact put_isDir_ne same
  have target (m k : Nat) : (s.put n (some inode')).target m k = s.target m k := by
    rw [State.target, entries, State.target]
  constructor
  case numbered =>
    intro m isSome
    by_cases same : m = n
    · subst same
      exact tree.inside isInode
    · rw [put_inodes_ne same] at isSome
      exact tree.numbered m isSome
  case byte =>
    intro m
    by_cases same : m = n
    · subst same
      rw [nlinks_of_some put_inodes]
      exact byte
    · rw [put_nlinks_ne same]
      exact tree.byte m
  all_goals simp only [entries, isDir, target]
  case heads => exact tree.heads
  case above => exact tree.above
  case below => exact tree.below
  case only => exact tree.only

variable (loose') in
theorem settle (tree : s.Tree loose) (none_ : s.entries loose = []) : s.Tree loose' where
  numbered := tree.numbered
  byte := tree.byte
  heads := tree.heads
  above d some_ := by
    rcases tree.above d some_ with rfl | hangs
    · exact absurd none_ some_
    · exact .inr hangs
  below := tree.below
  only := tree.only

theorem replace (tree : s.Tree loose) (settled : loose = 0 ∨ loose = c ∨ loose = loose')
    (numbered : new ≠ none → c ≠ 0 ∧ c ≤ s.ninodes) (byte : new.elim 0 Inode.nlinks < 256)
    (heads : new.elim [] Inode.entries ≠ [] → loose' = c ∧ new.any Inode.isDir = true ∧
      targetOf (new.elim [] Inode.entries) 0 = c ∧ targetOf (new.elim [] Inode.entries) 1 ≠ 0)
    (rest : ∀ j, 2 ≤ j → targetOf (new.elim [] Inode.entries) j = 0)
    (unnamed : ∀ d j, d ≠ c → s.target d j ≠ c) : (s.put c new).Tree loose' := by
  have entries : (s.put c new).entries c = new.elim [] Inode.entries := by
    rw [State.entries, put_inodes]
  have target (k : Nat) : (s.put c new).target c k = targetOf (new.elim [] Inode.entries) k := by
    rw [State.target, entries]
  have notDir : (s.put c new).isDir 0 = false := by
    by_cases zero : c = 0
    · subst zero
      rw [State.isDir, put_inodes]
      cases isNew : new with
      | none => rfl
      | some inode => exact absurd rfl (numbered (by simp [isNew])).1
    · rw [put_isDir_ne (Ne.symm zero)]
      exact tree.not_dir_zero
  have otherDir {d j : Nat} (behind : 2 ≤ j)
      (isDir : (s.put c new).isDir ((s.put c new).target d j) = true) : d ≠ c := by
    rintro rfl
    rw [target, rest j behind, notDir] at isDir
    cases isDir
  constructor
  case numbered =>
    intro m isSome
    by_cases same : m = c
    · subst same
      rw [put_inodes] at isSome
      exact numbered isSome
    · rw [put_inodes_ne same] at isSome
      exact tree.numbered m isSome
  case byte =>
    intro m
    by_cases same : m = c
    · subst same
      rw [State.nlinks, put_inodes]
      exact byte
    · rw [put_nlinks_ne same]
      exact tree.byte m
  case heads =>
    intro d some_
    by_cases same : d = c
    · subst same
      rw [entries] at some_
      obtain ⟨-, isDir, self_, parent⟩ := heads some_
      refine ⟨?_, (target 0).trans self_, (target 1).trans_ne parent⟩
      rw [State.isDir, put_inodes]
      exact isDir
    · rw [put_entries_ne same] at some_
      rw [put_isDir_ne same, put_target_ne same, put_target_ne same]
      exact tree.heads d some_
  case above =>
    intro d some_
    by_cases same : d = c
    · rw [same, entries] at some_
      exact .inl (same.trans (heads some_).1.symm)
    · rw [put_entries_ne same] at some_
      simp only [put_target_ne same, put_target_ne (unnamed d 1 same)]
      rcases tree.above d some_ with isLoose | hangs
      · rcases settled with zero | isC | isLoose'
        · rw [isLoose, zero] at some_
          exact absurd tree.entries_zero some_
        · exact absurd (isLoose.trans isC) same
        · exact .inl (isLoose.trans isLoose')
      · exact .inr hangs
  case below =>
    intro d j behind isDir some_
    have notC := otherDir behind isDir
    rw [put_target_ne notC] at isDir some_ ⊢
    have notTarget := unnamed d j notC
    rw [put_isDir_ne notTarget] at isDir
    rw [put_entries_ne notTarget] at some_
    rw [put_target_ne notTarget]
    exact tree.below d j behind isDir some_
  case only =>
    intro d j e k behind behind' isDir same
    have notC := otherDir behind isDir
    rw [put_target_ne notC] at isDir same
    rw [put_isDir_ne (unnamed d j notC)] at isDir
    by_cases isC : e = c
    · subst isC
      rw [target, rest k behind'] at same
      rw [← same, tree.not_dir_zero] at isDir
      cases isDir
    · rw [put_target_ne isC] at same
      exact tree.only d j e k behind behind' isDir same

theorem put_entries_isDir {entries : List DirEntry} (isInode : s.inodes d = some inode) (m : Nat) :
    (s.put d (some { inode with entries := entries })).isDir m = s.isDir m := by
  by_cases same : m = d
  · subst same
    rw [isDir_of_some put_inodes, isDir_of_some isInode]
    rfl
  · exact put_isDir_ne same

theorem put_entries_nlinks {entries : List DirEntry} (isInode : s.inodes d = some inode) (m : Nat) :
    (s.put d (some { inode with entries := entries })).nlinks m = s.nlinks m := by
  by_cases same : m = d
  · subst same
    rw [nlinks_of_some put_inodes, nlinks_of_some isInode]
  · exact put_nlinks_ne same

theorem put_numbered {new : Option Inode} (tree : s.Tree loose) (isInode : s.inodes d = some inode) (m : Nat)
    (isSome : (s.put d new).inodes m ≠ none) : m ≠ 0 ∧ m ≤ s.ninodes := by
  by_cases same : m = d
  · subst same
    exact tree.inside isInode
  · rw [put_inodes_ne same] at isSome
    exact tree.numbered m isSome

theorem set_entry {t : State} {entries : List DirEntry} {x loose' : Nat} (tree : s.Tree loose)
    (isInode : s.inodes d = some inode) (put : s.put d (some { inode with entries := entries }) = t) (behind : 2 ≤ j)
    (target : ∀ m k, t.target m k = if m = d ∧ k = j then x else s.target m k)
    (kept : ∀ m, t.entries m ≠ [] → s.entries m ≠ [])
    (unnamed : s.isDir x = true → ∀ e k, 2 ≤ k → s.target e k ≠ x)
    (parent : s.isDir x = true → s.entries x ≠ [] → s.target x 1 = d)
    (above : ∀ m, s.entries m ≠ [] →
      m = loose' ∨ s.target m 1 = m ∨ ∃ k, 2 ≤ k ∧ t.target (s.target m 1) k = m) : t.Tree loose' := by
  have isDir (m : Nat) : t.isDir m = s.isDir m := put ▸ put_entries_isDir isInode m
  have head (m k : Nat) (low : k < 2) : t.target m k = s.target m k := by
    rw [target, if_neg fun both => absurd both.2 (by omega)]
  constructor
  case numbered =>
    subst put
    exact fun m => tree.put_numbered isInode m
  case byte =>
    intro m
    rw [← put, put_entries_nlinks isInode]
    exact tree.byte m
  case heads =>
    intro m more
    rw [isDir, head m 0 (by omega), head m 1 (by omega)]
    exact tree.heads m (kept m more)
  case above =>
    intro m more
    rw [head m 1 (by omega)]
    exact above m (kept m more)
  case below =>
    intro m k beyond isDir_ more
    rw [isDir] at isDir_
    rw [head _ 1 (by omega)]
    have before := kept _ more
    rw [target] at isDir_ before ⊢
    split at isDir_
    · next isNew =>
      rw [if_pos isNew] at before ⊢
      rw [parent isDir_ before, isNew.1]
    · next isOld =>
      rw [if_neg isOld] at before ⊢
      exact tree.below m k beyond isDir_ before
  case only =>
    intro m k e i beyond beyond' isDir_ same
    rw [isDir] at isDir_
    rw [target] at isDir_ same
    rw [target m k] at same
    split at isDir_
    · next isNew =>
      rw [if_pos isNew] at same
      split at same
      · next also => exact ⟨also.1.trans isNew.1.symm, also.2.trans isNew.2.symm⟩
      · exact absurd same (unnamed isDir_ e i beyond')
    · next isOld =>
      rw [if_neg isOld] at same
      split at same
      · rw [← same] at isDir_
        exact absurd same.symm (unnamed isDir_ m k beyond)
      · exact tree.only m k e i beyond beyond' isDir_ same

theorem enter (tree : s.Tree loose) (settled : loose = 0 ∨ loose = n) (isInode : s.inodes d = some inode)
    (some_ : s.entries d ≠ []) (free : s.target d j = 0) (name : List Byte)
    (unnamed : s.isDir n = true → ∀ e k, 2 ≤ k → s.target e k ≠ n)
    (parent : s.entries n ≠ [] → s.target n 1 = d) :
    (s.put d (some { inode with entries := place inode.entries j (entryOf n name) })).Tree 0 := by
  have behind : 2 ≤ j := tree.free_index some_ free
  have target (m k : Nat) : (s.put d (some { inode with entries := place inode.entries j (entryOf n name) })).target m k =
      if m = d ∧ k = j then n else s.target m k := by
    by_cases same : m = d
    · subst same
      rw [target_of_some put_inodes, target_of_some isInode, targetOf_place]
      simp [entryOf]
    · rw [put_target_ne same, if_neg fun both => same both.1]
  refine tree.set_entry isInode rfl behind target (fun m more => ?_) unnamed (fun _ => parent) fun m more => ?_
  · by_cases same : m = d
    · exact same ▸ some_
    · rwa [put_entries_ne same] at more
  · have used : m ≠ 0 := by
      rintro rfl
      exact more tree.entries_zero
    rcases tree.above m more with isLoose | isRoot | ⟨k, beyond, hangs⟩
    · rcases settled with zero | isN
      · exact absurd (isLoose.trans zero) used
      · have isNew : m = n := isLoose.trans isN
        subst isNew
        refine .inr (.inr ⟨j, behind, ?_⟩)
        rw [target, if_pos ⟨parent more, rfl⟩]
    · exact .inr (.inl isRoot)
    · refine .inr (.inr ⟨k, beyond, ?_⟩)
      rw [target, if_neg, hangs]
      rintro ⟨isD, rfl⟩
      exact used (hangs.symm.trans (isD ▸ free))

theorem leave (tree : s.Tree loose) (settled : s.entries loose = []) (isInode : s.inodes d = some inode)
    (behind : 2 ≤ j) (isTarget : s.target d j = n) :
    (s.put d (some { inode with entries := inode.entries.modify j fun e => { e with inode := 0 } })).Tree n := by
  have target (m k : Nat) : (s.put d (some { inode with
      entries := inode.entries.modify j fun e => { e with inode := 0 } })).target m k =
        if m = d ∧ k = j then 0 else s.target m k := by
    by_cases same : m = d
    · subst same
      rw [target_of_some put_inodes, target_of_some isInode, targetOf_leave]
      simp
    · rw [put_target_ne same, if_neg fun both => same both.1]
  have zero (isDir : s.isDir 0 = true) : False := Bool.false_ne_true (tree.not_dir_zero.symm.trans isDir)
  refine tree.set_entry isInode rfl behind target (fun m more => ?_) (fun isDir => (zero isDir).elim)
    (fun isDir => (zero isDir).elim) fun m more => ?_
  · by_cases same : m = d
    · subst same
      intro none_
      rw [entries_of_some isInode] at none_
      rw [entries_of_some put_inodes, none_] at more
      exact more (modify_nil _ _)
    · rwa [put_entries_ne same] at more
  · rcases tree.above m more with isLoose | isRoot | ⟨k, beyond, hangs⟩
    · exact absurd (isLoose ▸ settled) more
    · exact .inr (.inl isRoot)
    · by_cases cleared : s.target m 1 = d ∧ k = j
      · refine .inl ?_
        rw [← hangs, cleared.1, cleared.2, isTarget]
      · refine .inr (.inr ⟨k, beyond, ?_⟩)
        rw [target, if_neg cleared, hangs]

end State.Tree

end Linux012.Fs.LinkCounts

import Linux012.Fs.LinkTree
import Linux012.Lib.Ledger

/-! What the changes of the calls make of a consistent file system. -/

set_option autoImplicit false

namespace Linux012.Fs.LinkCounts

open Namei

/-! ## Programs -/

section Programs

variable {s s' : State} {n c : Nat} {inode : Inode} {result : Unit}

theorem inodeOf_eq : inodeOf n s = some (inode, s') ↔ s.inodes n = some inode ∧ s' = s := by
  unfold inodeOf
  rw [Option.map_eq_some_iff]
  constructor
  · rintro ⟨_, isInode, same⟩
    cases same
    exact ⟨isInode, rfl⟩
  · rintro ⟨isInode, rfl⟩
    exact ⟨inode, isInode, rfl⟩

theorem setInode_eq {f : Inode → Inode} :
    setInode n f s = some (result, s') ↔ ∃ inode, s.inodes n = some inode ∧ s' = s.put n (some (f inode)) := by
  unfold setInode
  rw [Option.map_eq_some_iff]
  constructor
  · rintro ⟨inode, isInode, same⟩
    cases same
    exact ⟨inode, isInode, rfl⟩
  · rintro ⟨inode, isInode, rfl⟩
    exact ⟨inode, isInode, rfl⟩

theorem inodeOf_later {α : Type} {rest : Inode → Kernel α} {out : α × State} (isInode : s.inodes n = some inode)
    (later : (inodeOf n >>= rest) s = some out) : rest inode s = some out := by
  obtain ⟨_, t, read, later⟩ := Ledger.bind_eq_some.mp later
  obtain ⟨same, rfl⟩ := inodeOf_eq.mp read
  rw [isInode, Option.some.injEq] at same
  subst same
  exact later

theorem setInode_later {α : Type} {f : Inode → Inode} {rest : Unit → Kernel α} {out : α × State}
    (isInode : s.inodes n = some inode) (later : (setInode n f >>= rest) s = some out) :
    rest () (s.put n (some (f inode))) = some out := by
  obtain ⟨_, t, set, later⟩ := Ledger.bind_eq_some.mp later
  obtain ⟨_, same, rfl⟩ := setInode_eq.mp set
  rw [isInode, Option.some.injEq] at same
  subst same
  exact later

def Inode.drop (inode : Inode) : Option Inode :=
  if inode.count ≤ 1 ∧ inode.nlinks = 0 then none else some { inode with count := inode.count - 1 }

theorem Inode.drop_free (last : inode.count = 1) (unlinked : inode.nlinks = 0) : inode.drop = none := by
  rw [Inode.drop, if_pos ⟨by omega, unlinked⟩]

theorem Inode.drop_linked (linked : inode.nlinks ≠ 0) : inode.drop = some { inode with count := inode.count - 1 } := by
  rw [Inode.drop, if_neg fun both => linked both.2]

theorem iput_eq :
    iput n s = some (result, s') ↔ ∃ inode, s.inodes n = some inode ∧ inode.count ≠ 0 ∧ s' = s.put n inode.drop := by
  unfold iput
  rw [Ledger.bind_eq_some]
  constructor
  · rintro ⟨inode, t, read, rest⟩
    obtain ⟨isInode, rfl⟩ := inodeOf_eq.mp read
    refine ⟨inode, isInode, ?_⟩
    unfold Inode.drop
    split at rest
    · cases rest
    · next used =>
      refine ⟨used, ?_⟩
      split at rest
      · next more =>
        obtain ⟨_, same, rfl⟩ := setInode_eq.mp rest
        rw [isInode, Option.some.injEq] at same
        subst same
        rw [if_neg (by omega)]
      · next last =>
        split at rest
        · next unlinked =>
          cases rest
          rw [if_pos ⟨by omega, unlinked⟩]
        · next linked =>
          obtain ⟨_, same, rfl⟩ := setInode_eq.mp rest
          rw [isInode, Option.some.injEq] at same
          subst same
          rw [if_neg (fun both => linked both.2)]
  · rintro ⟨inode, isInode, used, rfl⟩
    refine ⟨inode, s, inodeOf_eq.mpr ⟨isInode, rfl⟩, ?_⟩
    unfold Inode.drop
    rw [if_neg used]
    by_cases more : inode.count > 1
    · rw [if_pos more, if_neg (by omega)]
      exact setInode_eq.mpr ⟨inode, isInode, rfl⟩
    · rw [if_neg more]
      by_cases unlinked : inode.nlinks = 0
      · rw [if_pos unlinked, if_pos ⟨by omega, unlinked⟩]
        rfl
      · rw [if_neg unlinked, if_neg (fun both => unlinked both.2)]
        exact setInode_eq.mpr ⟨inode, isInode, rfl⟩

end Programs

/-! ## Links -/

section Links

variable {s : State} {loose d n m c j : Nat} {inode inode' : Inode} {new : Option Inode}

theorem put_nlinks (m : Nat) : (s.put n new).nlinks m = if m = n then new.elim 0 Inode.nlinks else s.nlinks m := by
  split
  · next same =>
    subst same
    rw [State.nlinks, put_inodes]
  · next other => exact put_nlinks_ne other

theorem links_update (inside : n ≤ s.ninodes) (same : (s.put n new).entries n = s.entries n) (m : Nat) :
    (s.put n new).links m = s.links m := by
  have change := put_links inside new m
  rw [State.entries, put_inodes] at same
  rw [same] at change
  omega

theorem links_keep (inside : n ≤ s.ninodes) (isInode : s.inodes n = some inode)
    (same : inode'.entries = inode.entries) (m : Nat) : (s.put n (some inode')).links m = s.links m := by
  refine links_update inside ?_ m
  rw [entries_of_some put_inodes, entries_of_some isInode, same]

theorem links_nlinks (inside : n ≤ s.ninodes) (isInode : s.inodes n = some inode) (k m : Nat) :
    (s.put n (some { inode with nlinks := k })).links m = s.links m := by
  refine links_keep inside isInode ?_ m
  rfl

theorem links_enter (inside : d ≤ s.ninodes) (isInode : s.inodes d = some inode) (free : s.target d j = 0)
    (name : List Byte) {m : Nat} (used : m ≠ 0) :
    (s.put d (some { inode with entries := place inode.entries j (entryOf n name) })).links m =
      s.links m + if n = m then 1 else 0 := by
  have change := put_links inside (some { inode with entries := place inode.entries j (entryOf n name) }) m
  have more := named_place (e := entryOf n name) used ((target_of_some isInode).symm.trans free)
  rw [entries_of_some isInode] at change
  change _ = _ + named (place inode.entries j (entryOf n name)) m at change
  change _ = _ + if n = m then 1 else 0 at more
  omega

theorem links_leave (inside : d ≤ s.ninodes) (isInode : s.inodes d = some inode) {m : Nat} (used : m ≠ 0) :
    (s.put d (some { inode with entries := inode.entries.modify j fun e => { e with inode := 0 } })).links m +
      (if s.target d j = m then 1 else 0) = s.links m := by
  have change := put_links inside
    (some { inode with entries := inode.entries.modify j fun e => { e with inode := 0 } }) m
  have less : named (inode.entries.modify j fun e => { e with inode := 0 }) m +
      (if targetOf inode.entries j = m then 1 else 0) = named inode.entries m := named_leave used
  rw [entries_of_some isInode] at change
  rw [target_of_some isInode]
  change _ = _ + named (inode.entries.modify j fun e => { e with inode := 0 }) m at change
  omega

namespace State.Consistent

theorem links_pos (consistent : s.Consistent) (used : n ≠ 0) : 0 < s.nlinks n ↔ ∃ d j, s.target d j = n := by
  rw [consistent.exact n used, consistent.tree.links_pos used]

theorem unnamed (consistent : s.Consistent) (used : n ≠ 0) (unlinked : s.nlinks n = 0) (d j : Nat) :
    s.target d j ≠ n := by
  intro isTarget
  have linked := (consistent.links_pos used).mpr ⟨d, j, isTarget⟩
  omega

theorem no_entries (consistent : s.Consistent) (unlinked : s.nlinks n = 0) : s.entries n = [] := by
  by_contra some_
  by_cases zero : n = 0
  · exact some_ (zero ▸ consistent.tree.entries_zero)
  · exact consistent.unnamed zero unlinked n 0 (consistent.tree.heads n some_).2.1

theorem allocated (consistent : s.Consistent) (used : s.target d j ≠ 0) : s.inodes (s.target d j) ≠ none := by
  intro free
  refine consistent.unnamed used ?_ d j rfl
  rw [State.nlinks, free]
  rfl

theorem nlinks_pos (consistent : s.Consistent) (some_ : s.entries d ≠ []) : 0 < s.nlinks d := by
  have used : d ≠ 0 := by
    rintro rfl
    exact some_ consistent.tree.entries_zero
  exact (consistent.links_pos used).mpr ⟨d, 0, (consistent.tree.heads d some_).2.1⟩

theorem update (consistent : s.Consistent) (isInode : s.inodes n = some inode)
    (sameEntries : inode'.entries = inode.entries) (sameDir : inode'.isDir = inode.isDir)
    (sameLinks : inode'.nlinks = inode.nlinks) : (s.put n (some inode')).Consistent := by
  have inside := consistent.tree.inside isInode
  have byte := consistent.tree.byte n
  rw [nlinks_of_some isInode, ← sameLinks] at byte
  refine ⟨consistent.tree.update isInode sameEntries sameDir byte, fun m used => ?_⟩
  rw [links_keep inside.2 isInode sameEntries, put_nlinks, ← consistent.exact m used]
  split
  · next same =>
    subst same
    rw [nlinks_of_some isInode]
    exact sameLinks
  · rfl

theorem replace (consistent : s.Consistent) (inside : c ≠ 0 ∧ c ≤ s.ninodes) (unlinked : s.nlinks c = 0)
    (noEntries : new.elim [] Inode.entries = []) (noLinks : new.elim 0 Inode.nlinks = 0) :
    (s.put c new).Consistent := by
  have none_ := consistent.no_entries unlinked
  refine ⟨consistent.tree.replace (.inl rfl) (fun _ => inside) (by omega) (fun some_ => absurd noEntries some_)
    (fun j _ => by rw [noEntries]; rfl) (fun d j _ => consistent.unnamed inside.1 unlinked d j), fun m used => ?_⟩
  have entries : (s.put c new).entries c = s.entries c := by
    rw [State.entries, put_inodes, noEntries, none_]
  rw [links_update inside.2 entries, put_nlinks, ← consistent.exact m used]
  split
  · next same => rw [noLinks, same, unlinked]
  · rfl

theorem drop (consistent : s.Consistent) (isInode : s.inodes n = some inode) : (s.put n inode.drop).Consistent := by
  unfold Inode.drop
  split
  · next unlinked =>
    exact consistent.replace (consistent.tree.inside isInode) ((nlinks_of_some isInode).trans unlinked.2) rfl rfl
  · exact consistent.update isInode rfl rfl rfl

variable {parent : Inode}

theorem make (consistent : s.Consistent) (inside : c ≠ 0 ∧ c ≤ s.ninodes) (isFree : s.inodes c = none)
    (noEntries : inode.entries = []) (one : inode.nlinks = 1) (isParent : s.inodes d = some parent)
    (some_ : s.entries d ≠ []) (free : s.target d j = 0) (name : List Byte) :
    ((s.put c (some inode)).put d
      (some { parent with entries := place parent.entries j (entryOf c name) })).Consistent := by
  have unlinked : s.nlinks c = 0 := by
    rw [State.nlinks, isFree]
    rfl
  have unnamed := consistent.unnamed inside.1 unlinked
  have other : d ≠ c := by
    rintro rfl
    exact some_ (consistent.no_entries unlinked)
  have isParent' : (s.put c (some inode)).inodes d = some parent := (put_inodes_ne other).trans isParent
  have insideParent : d ≤ (s.put c (some inode)).ninodes := (consistent.tree.inside isParent).2
  have isNew : (s.put c (some inode)).entries c = [] := (entries_of_some put_inodes).trans noEntries
  have tree : (s.put c (some inode)).Tree 0 :=
    consistent.tree.replace (.inl rfl) (fun _ => inside) (by simp [one]) (fun some_ => absurd noEntries some_)
      (fun j _ => by simp [noEntries, targetOf]) (fun d j _ => unnamed d j)
  have free' : (s.put c (some inode)).target d j = 0 := (put_target_ne other).trans free
  refine ⟨tree.enter (.inl rfl) isParent' (by rwa [put_entries_ne other]) free' name (fun _ e k _ => ?_)
    (fun more => absurd isNew more), fun m used => ?_⟩
  · by_cases same : e = c
    · subst same
      rw [State.target, isNew]
      exact Ne.symm inside.1
    · rw [put_target_ne same]
      exact unnamed e k
  · rw [links_enter insideParent isParent' free' name used, put_nlinks]
    rw [links_update inside.2 (isNew.trans (consistent.no_entries unlinked).symm), ← consistent.exact m used]
    by_cases same : m = d
    · subst same
      rw [if_pos rfl, if_neg (Ne.symm other), nlinks_of_some isParent]
      rfl
    · rw [if_neg same, put_nlinks]
      by_cases isC : m = c
      · subst isC
        rw [if_pos rfl, if_pos rfl, unlinked]
        exact one
      · rw [if_neg isC, if_neg (Ne.symm isC), Nat.add_zero]

theorem mkdir (consistent : s.Consistent) (inside : c ≠ 0 ∧ c ≤ s.ninodes) (isFree : s.inodes c = none)
    (entries : inode.entries = [entryOf c DOT, entryOf d DOTDOT]) (two : inode.nlinks = 2)
    (isDir : inode.isDir = true) (isParent : s.inodes d = some parent) (some_ : s.entries d ≠ [])
    (free : s.target d j = 0) (below : parent.nlinks < 255) (name : List Byte) :
    ((s.put c (some inode)).put d
      (some { parent with
        entries := place parent.entries j (entryOf c name)
        nlinks := increment parent.nlinks })).Consistent := by
  have unlinked : s.nlinks c = 0 := by
    rw [State.nlinks, isFree]
    rfl
  have unnamed := consistent.unnamed inside.1 unlinked
  have noEntries := consistent.no_entries unlinked
  have other : d ≠ c := by
    rintro rfl
    exact some_ noEntries
  have isParent' : (s.put c (some inode)).inodes d = some parent := (put_inodes_ne other).trans isParent
  have insideParent := consistent.tree.inside isParent
  have target (k : Nat) : (s.put c (some inode)).target c k = targetOf [entryOf c DOT, entryOf d DOTDOT] k := by
    rw [target_of_some put_inodes, entries]
  have incremented : increment parent.nlinks = parent.nlinks + 1 := Nat.mod_eq_of_lt (by omega)
  have tree : (s.put c (some inode)).Tree c := by
    refine consistent.tree.replace (.inl rfl) (fun _ => inside) (by simp [two]) (fun _ => ?_) (fun k beyond => ?_)
      (fun d j _ => unnamed d j)
    · refine ⟨rfl, isDir, ?_, ?_⟩
      · simp [entries, targetOf, entryOf]
      · simpa [entries, targetOf, entryOf] using insideParent.1
    · exact targetOf_beyond (by simpa [entries] using beyond)
  have free' : (s.put c (some inode)).target d j = 0 := (put_target_ne other).trans free
  have entered := tree.enter (.inr rfl) isParent' (by rwa [put_entries_ne other]) free' name
    (fun _ e k beyond => ?_) (fun _ => (target 1).trans rfl)
  · rw [← put_put (some { parent with entries := place parent.entries j (entryOf c name) })]
    have isEntered :
        ((s.put c (some inode)).put d (some { parent with entries := place parent.entries j (entryOf c name) })).inodes d =
          some { parent with entries := place parent.entries j (entryOf c name) } := put_inodes
    refine ⟨entered.update isEntered rfl rfl (by simp only [incremented]; omega), fun m used => ?_⟩
    have links := links_nlinks (entered.inside isEntered).2 isEntered (increment parent.nlinks) m
    refine Eq.trans ?_ links.symm
    rw [put_nlinks, links_enter (tree.inside isParent').2 isParent' free' name used]
    have change := put_links inside.2 (some inode) m
    have names : named (inode.entries) m = (if c = m then 1 else 0) + if d = m then 1 else 0 := by
      rw [entries]
      simp [named, entryOf, List.countP_cons, Nat.add_comm]
    rw [noEntries] at change
    change _ + 0 = _ + named inode.entries m at change
    rw [names, ← consistent.exact m used] at change
    by_cases same : m = d
    · subst same
      rw [if_neg (Ne.symm other), if_pos rfl, nlinks_of_some isParent] at change
      rw [if_pos rfl, if_neg (Ne.symm other)]
      change increment parent.nlinks = _
      omega
    · rw [if_neg (Ne.symm same)] at change
      rw [if_neg same, put_nlinks_ne same, put_nlinks]
      by_cases isC : m = c
      · subst isC
        rw [if_pos rfl, unlinked] at change
        rw [if_pos rfl, if_pos rfl]
        change inode.nlinks = _
        omega
      · rw [if_neg (Ne.symm isC)] at change
        rw [if_neg isC, if_neg (Ne.symm isC)]
        omega
  · by_cases same : e = c
    · subst same
      rw [target, targetOf_beyond (by simpa using beyond)]
      exact Ne.symm inside.1
    · rw [put_target_ne same]
      exact unnamed e k

theorem link (consistent : s.Consistent) (isInode : s.inodes n = some inode) (notDir : inode.isDir = false)
    (isParent : s.inodes d = some parent) (some_ : s.entries d ≠ []) (free : s.target d j = 0)
    (below : inode.nlinks < 255) (name : List Byte) :
    ((s.put d (some { parent with entries := place parent.entries j (entryOf n name) })).put n
      (some { inode with nlinks := increment inode.nlinks })).Consistent := by
  have isDir : s.isDir n = false := (isDir_of_some isInode).trans notDir
  have noEntries : s.entries n = [] := by
    by_contra more
    rw [(consistent.tree.heads n more).1] at isDir
    cases isDir
  have other : n ≠ d := by
    rintro rfl
    exact some_ noEntries
  have insideParent := (consistent.tree.inside isParent).2
  have inside := consistent.tree.inside isInode
  have incremented : increment inode.nlinks = inode.nlinks + 1 := Nat.mod_eq_of_lt (by omega)
  have entered := consistent.tree.enter (.inl rfl) isParent some_ free name
    (fun isTrue => by rw [isDir] at isTrue; cases isTrue) (fun more => absurd noEntries more)
  set parent' : Inode := { parent with entries := place parent.entries j (entryOf n name) }
  have isInode' : (s.put d (some parent')).inodes n = some inode := (put_inodes_ne other).trans isInode
  refine ⟨entered.update isInode' rfl rfl (by simp only [incremented]; omega), fun m used => ?_⟩
  rw [links_nlinks (entered.inside isInode').2 isInode', put_nlinks,
    links_enter insideParent isParent free name used, ← consistent.exact m used]
  by_cases same : m = n
  · subst same
    rw [if_pos rfl, if_pos rfl, nlinks_of_some isInode]
    exact incremented
  · rw [if_neg same, if_neg (Ne.symm same), put_nlinks, Nat.add_zero]
    split
    · next isD =>
      subst isD
      rw [nlinks_of_some isParent]
      rfl
    · rfl

theorem decrement_pos {nlinks : Nat} (byte : nlinks < 256) (some_ : 0 < nlinks) : decrement nlinks = nlinks - 1 := by
  unfold decrement
  omega

theorem unlink (consistent : s.Consistent) (isInode : s.inodes n = some inode) (notDir : inode.isDir = false)
    (isParent : s.inodes d = some parent) (isTarget : s.target d j = n) :
    ((s.put d (some { parent with entries := parent.entries.modify j fun e => { e with inode := 0 } })).put n
      (some { inode with nlinks := decrement inode.nlinks })).Consistent := by
  have isDir : s.isDir n = false := (isDir_of_some isInode).trans notDir
  have noEntries : s.entries n = [] := by
    by_contra more
    rw [(consistent.tree.heads n more).1] at isDir
    cases isDir
  have inside := consistent.tree.inside isInode
  have some_ : s.entries d ≠ [] := State.Tree.has_entries (isTarget.trans_ne inside.1)
  have other : n ≠ d := by
    rintro rfl
    exact some_ noEntries
  have behind : 2 ≤ j := by
    refine consistent.tree.behind_of some_ isTarget other fun k _ => ?_
    rw [State.target, noEntries]
    exact Ne.symm (consistent.tree.inside isParent).1
  have left := (consistent.tree.leave consistent.tree.entries_zero isParent behind isTarget).settle 0
    (by rwa [put_entries_ne other])
  have links (m : Nat) (used : m ≠ 0) := links_leave (j := j) (consistent.tree.inside isParent).2 isParent used
  set parent' : Inode := { parent with entries := parent.entries.modify j fun e => { e with inode := 0 } }
  have isInode' : (s.put d (some parent')).inodes n = some inode := (put_inodes_ne other).trans isInode
  have decremented : decrement inode.nlinks = inode.nlinks - 1 := by
    refine decrement_pos ?_ ?_
    · rw [← nlinks_of_some isInode]
      exact consistent.tree.byte n
    · rw [← nlinks_of_some isInode]
      exact (consistent.links_pos inside.1).mpr ⟨d, j, isTarget⟩
  have byte := consistent.tree.byte n
  rw [nlinks_of_some isInode] at byte
  refine ⟨left.update isInode' rfl rfl (by simp only [decremented]; omega), fun m used => ?_⟩
  have links := links m used
  rw [isTarget, ← consistent.exact m used] at links
  rw [links_nlinks (left.inside isInode').2 isInode', put_nlinks]
  by_cases same : m = n
  · subst same
    rw [if_pos rfl, nlinks_of_some isInode] at links
    rw [if_pos rfl]
    change decrement inode.nlinks = _
    omega
  · rw [if_neg (Ne.symm same), Nat.add_zero] at links
    rw [if_neg same, put_nlinks, links]
    split
    · next isD =>
      subst isD
      rw [nlinks_of_some isParent]
      rfl
    · rfl

theorem rmdir (consistent : s.Consistent) (isInode : s.inodes c = some inode) (isDir : inode.isDir = true)
    (entries : s.entries c ≠ []) (empty : ∀ k, 2 ≤ k → s.target c k = 0) (isParent : s.inodes d = some parent)
    (other : c ≠ d) (isTarget : s.target d j = c) :
    ((s.put d (some { parent with
      entries := parent.entries.modify j fun e => { e with inode := 0 }
      nlinks := decrement parent.nlinks })).put c none).Consistent := by
  have inside := consistent.tree.inside isInode
  have insideParent := consistent.tree.inside isParent
  have some_ : s.entries d ≠ [] := State.Tree.has_entries (isTarget.trans_ne inside.1)
  -- no other directory has `c` for its parent, since that would have an entry in `c`
  have notParent (e : Nat) (isEntry : e ≠ 0) (notC : e ≠ c) (above : s.target e 1 = c) : False := by
    have more : s.entries e ≠ [] := State.Tree.has_entries (above.trans_ne inside.1)
    rcases consistent.tree.above e more with zero | isRoot | ⟨k, beyond, hangs⟩
    · exact isEntry zero
    · exact notC (isRoot.symm.trans above)
    · rw [above, empty k beyond] at hangs
      exact isEntry hangs.symm
  have behind : 2 ≤ j := by
    refine consistent.tree.behind_of some_ isTarget other fun k beyond => ?_
    rw [empty k beyond]
    exact Ne.symm insideParent.1
  have childIsDir : s.isDir (s.target d j) = true := by
    rw [isTarget, isDir_of_some isInode, isDir]
  have dotdot : s.target c 1 = d := by
    have below := consistent.tree.below d j behind childIsDir
    rw [isTarget] at below
    exact below entries
  have dot := (consistent.tree.heads c entries).2.1
  have only (e k : Nat) (notC : e ≠ c) (names : s.target e k = c) : e = d ∧ k = j := by
    have isEntry : e ≠ 0 := by
      rintro rfl
      rw [State.target, consistent.tree.entries_zero] at names
      exact inside.1 names.symm
    cases k with
    | zero =>
      have more : s.entries e ≠ [] := State.Tree.has_entries (names.trans_ne inside.1)
      exact absurd ((consistent.tree.heads e more).2.1.symm.trans names) notC
    | succ k =>
      cases k with
      | zero => exact (notParent e isEntry notC names).elim
      | succ k => exact consistent.tree.only d j e (k + 2) behind (by omega) childIsDir (names.trans isTarget.symm)
  have left := consistent.tree.leave consistent.tree.entries_zero isParent behind isTarget
  have target (e k : Nat) (notC : e ≠ c) : (s.put d (some { parent with
      entries := parent.entries.modify j fun e => { e with inode := 0 } })).target e k ≠ c := by
    intro names
    by_cases same : e = d
    · subst same
      rw [target_of_some put_inodes, targetOf_leave, ← target_of_some isParent] at names
      split at names
      · exact inside.1 names.symm
      · next elsewhere => exact elsewhere (only e k notC names).2
    · rw [put_target_ne same] at names
      exact same (only e k notC names).1
  have links (m : Nat) (used : m ≠ 0) := links_leave (j := j) insideParent.2 isParent used
  set parent' : Inode := { parent with entries := parent.entries.modify j fun e => { e with inode := 0 } }
  have isLeft : (s.put d (some parent')).inodes d = some parent' := put_inodes
  have byte := consistent.tree.byte d
  have linked := consistent.nlinks_pos some_
  rw [nlinks_of_some isParent] at byte linked
  have decremented : decrement parent.nlinks = parent.nlinks - 1 := decrement_pos byte linked
  have lessTree : ((s.put d (some parent')).put d (some { parent' with nlinks := decrement parent.nlinks })).Tree c :=
    left.update isLeft rfl rfl (by simp only [decremented]; omega)
  have less := links_nlinks (left.inside isLeft).2 isLeft (decrement parent.nlinks)
  set t : State := (s.put d (some parent')).put d (some { parent' with nlinks := decrement parent.nlinks }) with isT
  have isT' : t = s.put d (some { parent' with nlinks := decrement parent.nlinks }) := put_put _ _
  have unnamed (e k : Nat) (notC : e ≠ c) : t.target e k ≠ c := by
    by_cases same : e = d
    · subst same
      rw [isT', target_of_some put_inodes, ← target_of_some isLeft]
      exact target e k notC
    · have left : (s.put d (some parent')).target e k = s.target e k := put_target_ne same
      rw [isT', put_target_ne same, ← left]
      exact target e k notC
  have tree : (t.put c none).Tree 0 :=
    lessTree.replace (.inr (.inl rfl)) (fun some_ => absurd rfl some_) (by decide)
      (fun some_ => absurd rfl some_) (fun _ _ => rfl) unnamed
  change ((s.put d (some { parent' with nlinks := decrement parent.nlinks })).put c none).Consistent
  rw [← isT']
  refine ⟨tree, fun m used => ?_⟩
  have change := put_links (s := t) (d := c) inside.2 none m
  have two : named (s.entries c) m = (if c = m then 1 else 0) + if d = m then 1 else 0 :=
    named_two used dot inside.1 dotdot insideParent.1 empty
  have childEntries : t.entries c = s.entries c := by
    rw [isT', put_entries_ne other]
  have links := links m used
  rw [isTarget, ← consistent.exact m used] at links
  rw [less m, childEntries, two] at change
  change _ = _ + 0 at change
  rw [put_nlinks]
  by_cases isC : m = c
  · rw [if_pos isC, isC]
    refine (Nat.eq_zero_of_not_pos fun some_ => ?_).symm
    obtain ⟨e, k, names⟩ := (tree.links_pos inside.1).mp some_
    by_cases same : e = c
    · rw [same, State.target, State.entries, put_inodes] at names
      exact inside.1 names.symm
    · rw [put_target_ne same] at names
      exact unnamed e k same names
  · have count : t.nlinks m = if m = d then decrement parent.nlinks else s.nlinks m := by
      rw [isT', put_nlinks]
      rfl
    rw [if_neg isC, count]
    rw [if_neg (Ne.symm isC)] at links change
    by_cases same : m = d
    · subst same
      rw [if_pos rfl] at change
      rw [nlinks_of_some isParent] at links
      rw [if_pos rfl]
      omega
    · rw [if_neg (Ne.symm same)] at change
      rw [if_neg same]
      omega

end State.Consistent

end Links

end Linux012.Fs.LinkCounts

import Linux012.Fs.Buffer
import Mathlib.Data.Finset.Card

/-! The two intrusive structures of the buffer cache: the circular free list and
the hash chains. Only `take` edits them. -/

set_option autoImplicit false

namespace Linux012.Fs.Cache

open IntrusiveList List
open Function (update update_of_ne update_self update_eq_self update_idem)

/-- The free list from `free_list` is one circle through every head, once. -/
def FreeLinked (c : Cache) : Prop :=
  ∃ order : List Nat, Ring c.nextFree c.prevFree order ∧ order.Nodup ∧
    order.head? = some c.freeList ∧ ∀ h, h ∈ order ↔ h < c.nrBuffers

/-- The heads of `on` are each on exactly one hash chain, that of their device
and block; the chains hold nothing else, end in `NULL` and their two links agree. -/
def Hashed (c : Cache) (on : Nat → Prop) : Prop :=
  ∃ chain : Nat → List Nat,
    (∀ k, Chain c.next c.prev (c.hashTable k) none (chain k)) ∧ (∀ k, (chain k).Nodup) ∧
      ∀ k h, h ∈ chain k ↔ on h ∧ hashfn (c.dev h) (c.blocknr h) = k

structure WellLinked (c : Cache) : Prop where
  free : c.FreeLinked
  hashed : c.Hashed fun h => h < c.nrBuffers ∧ c.dev h ≠ 0
  unhashed : ∀ h, h < c.nrBuffers → c.dev h = 0 → c.next h = none ∧ c.prev h = none
  unique : ∀ h h', h < c.nrBuffers → h' < c.nrBuffers → c.dev h ≠ 0 →
    c.dev h = c.dev h' → c.blocknr h = c.blocknr h' → h = h'

/-! ## The free list -/

variable {n : Nat}

private theorem isChain_range' {next prev : Nat → Nat} (nextEq : ∀ h, h + 1 < n → next h = h + 1)
    (prevEq : ∀ h, h + 1 < n → prev (h + 1) = h) (first m : Nat) (total : first + m = n) :
    List.IsChain (Adjacent next prev) (List.range' first m) := by
  induction m generalizing first with
  | zero => exact .nil
  | succ m ih =>
    rw [range'_succ, isChain_cons]
    refine ⟨?_, ih (first + 1) (by omega)⟩
    intro y isHead
    cases m with
    | zero => cases isHead
    | succ m =>
      rw [range'_succ] at isHead
      cases isHead
      exact ⟨nextEq first (by omega), prevEq first (by omega)⟩

theorem freeLinked_init (positive : 0 < n) (blocknr : Nat → Nat) (data : Nat → Block) (disk : Nat → Nat → Block) :
    (init n blocknr data disk).FreeLinked := by
  refine ⟨List.range' 0 n, ?_, nodup_range', ?_, ?_⟩
  · obtain ⟨m, rfl⟩ : ∃ m, n = m + 1 := ⟨n - 1, by omega⟩
    have straight : List.IsChain (Adjacent (init (m + 1) blocknr data disk).nextFree
        (init (m + 1) blocknr data disk).prevFree) (List.range' 0 (m + 1)) := by
      refine isChain_range' (n := m + 1) ?_ ?_ 0 (m + 1) (by omega)
      · intro h inside
        have notLast : h ≠ m + 1 - 1 := by omega
        exact if_neg notLast
      · intro h inside
        simp [init]
    have closing : Adjacent (init (m + 1) blocknr data disk).nextFree
        (init (m + 1) blocknr data disk).prevFree m 0 := by
      simp [Adjacent, init]
    have whole : List.range' 0 (m + 1) = 0 :: List.range' 1 m := range'_succ
    rw [whole] at straight ⊢
    simp only [IntrusiveList.Ring]
    rw [← cons_append, isChain_append]
    refine ⟨straight, .singleton _, ?_⟩
    intro last isLast head isHead
    rw [← whole, getLast?_range'] at isLast
    have lastEq : last = m := by simpa using isLast.symm
    have headEq : head = 0 := by simpa using isHead.symm
    rw [lastEq, headEq]
    exact closing
  · obtain ⟨m, rfl⟩ : ∃ m, n = m + 1 := ⟨n - 1, by omega⟩
    rw [range'_succ]
    rfl
  · intro h
    simp [init, mem_range'_1]

variable {c : Cache} {bh : Nat}

private theorem ring_removeFromFree {front back : List Nat}
    (ring : Ring c.nextFree c.prevFree (front ++ bh :: back)) (distinct : (front ++ bh :: back).Nodup)
    (isFirst : (front ++ bh :: back).head? = some c.freeList) (others : front ++ back ≠ []) :
    Ring (c.removeFromFree bh).nextFree (c.removeFromFree bh).prevFree (front ++ back) ∧
      (front ++ back).head? = some (c.removeFromFree bh).freeList := by
  have turned : Ring c.nextFree c.prevFree (bh :: (back ++ front)) := by
    simpa using ring.rotate_append
  have rotated : (front ++ bh :: back).Perm (bh :: back ++ front) := perm_append_comm
  have turnedDistinct : (bh :: (back ++ front)).Nodup := rotated.nodup_iff.mp distinct
  obtain ⟨y, rest, shape⟩ : ∃ y rest, back ++ front = y :: rest := by
    refine exists_cons_of_ne_nil fun empty => others ?_
    have both := append_eq_nil_iff.mp empty
    simp [both.1, both.2]
  rw [shape] at turned turnedDistinct
  have fresh : bh ∉ y :: rest := (nodup_cons.mp turnedDistinct).1
  have prevOther : c.prevFree bh ≠ bh := by
    obtain ⟨m, z, ends⟩ : ∃ m z, y :: rest = m ++ [z] := ⟨_, _, (dropLast_concat_getLast (cons_ne_nil y rest)).symm⟩
    rw [ends] at turned fresh
    rw [turned.edges.1]
    rintro rfl
    exact fresh (by simp)
  have nextKept : (update c.nextFree (c.prevFree bh) (c.nextFree bh)) bh = c.nextFree bh :=
    update_of_ne prevOther.symm _ _
  have nextFree : (c.removeFromFree bh).nextFree =
      update c.nextFree (c.prevFree bh) (c.nextFree bh) := by
    simp only [removeFromFree]
    split <;> rfl
  have prevFree : (c.removeFromFree bh).prevFree =
      update c.prevFree (c.nextFree bh) (c.prevFree bh) := by
    simp only [removeFromFree, nextKept]
    split <;> rfl
  have freeList : (c.removeFromFree bh).freeList =
      if c.freeList = bh then c.nextFree bh else c.freeList := by
    simp only [removeFromFree, nextKept]
    split <;> rfl
  have relinked : Ring (c.removeFromFree bh).nextFree (c.removeFromFree bh).prevFree (back ++ front) := by
    rw [nextFree, prevFree, shape]
    exact turned.unlink (nodup_cons.mp turnedDistinct).2
  refine ⟨relinked.rotate_append, ?_⟩
  rw [freeList]
  cases front with
  | nil =>
    have same : bh = c.freeList := by simpa using isFirst
    rw [if_pos same.symm]
    have follows : c.nextFree bh = y := by
      simp only [IntrusiveList.Ring, cons_append, isChain_cons_cons] at turned
      exact turned.1.1
    rw [follows]
    have backShape : back = y :: rest := by simpa using shape
    rw [backShape]
    rfl
  | cons f front =>
    have same : f = c.freeList := by simpa using isFirst
    have notFirst : c.freeList ≠ bh := by
      rintro rfl
      rw [same] at distinct
      exact (nodup_cons.mp distinct).1 (by simp)
    rw [if_neg notFirst, ← same]
    rfl

private theorem ring_insertIntoFree {order : List Nat} (ring : Ring c.nextFree c.prevFree order)
    (distinct : order.Nodup) (isFirst : order.head? = some c.freeList) (fresh : bh ∉ order) :
    Ring (c.insertIntoFree bh).nextFree (c.insertIntoFree bh).prevFree (order ++ [bh]) := by
  cases order with
  | nil => cases isFirst
  | cons h rest =>
    have same : h = c.freeList := by simpa using isFirst
    have other : c.freeList ≠ bh := by
      rintro rfl
      exact fresh (same ▸ .head _)
    have prevKept : (update c.prevFree bh (c.prevFree c.freeList)) c.freeList =
        c.prevFree c.freeList := update_of_ne other _ _
    have linked := ring.linkLast distinct fresh
    rw [same] at linked ⊢
    simpa only [insertIntoFree, prevKept] using linked

theorem FreeLinked.move (linked : c.FreeLinked) (inside : bh < c.nrBuffers) :
    ((c.removeFromFree bh).insertIntoFree bh).FreeLinked := by
  obtain ⟨order, ring, distinct, isFirst, members⟩ := linked
  obtain ⟨front, back, rfl⟩ := append_of_mem ((members bh).mpr inside)
  have number : ((c.removeFromFree bh).insertIntoFree bh).nrBuffers = c.nrBuffers := by
    simp only [removeFromFree, insertIntoFree]
    split <;> rfl
  have permuted : (front ++ back ++ [bh]).Perm (front ++ bh :: back) := by
    rw [append_assoc]
    have swapped : (back ++ [bh]).Perm ([bh] ++ back) := perm_append_comm
    exact swapped.append_left front
  have newMembers : ∀ h, h ∈ front ++ back ++ [bh] ↔
      h < ((c.removeFromFree bh).insertIntoFree bh).nrBuffers := by
    intro h
    rw [number, permuted.mem_iff, members h]
  by_cases alone : front ++ back = []
  · -- a single head stays linked to itself
    have empty := append_eq_nil_iff.mp alone
    rw [empty.1, empty.2] at ring isFirst
    have same : bh = c.freeList := by simpa using isFirst
    have self := Ring.singleton.mp ring
    refine ⟨front ++ back ++ [bh], ?_, permuted.nodup_iff.mpr distinct, ?_, newMembers⟩
    · rw [alone]
      refine Ring.singleton.mpr ?_
      simp [removeFromFree, insertIntoFree, ← same, self]
    · rw [alone]
      simp [removeFromFree, insertIntoFree, ← same, self]
  · obtain ⟨shorter, isFirst'⟩ := ring_removeFromFree ring distinct isFirst alone
    have fresh : bh ∉ front ++ back := by
      have separate := (permuted.nodup_iff.mpr distinct)
      rw [nodup_append] at separate
      exact fun member => separate.2.2 bh member bh (.head _) rfl
    have shorterDistinct : (front ++ back).Nodup := (nodup_append.mp (permuted.nodup_iff.mpr distinct)).1
    refine ⟨front ++ back ++ [bh], ring_insertIntoFree shorter shorterDistinct isFirst' fresh,
      permuted.nodup_iff.mpr distinct, ?_, newMembers⟩
    rw [head?_append, isFirst']
    rfl

/-! ## The hash chains -/

theorem removeFromHash_eq (c : Cache) (bh : Nat) :
    c.removeFromHash bh =
      { c with
        prev := unlinkPrev c.next c.prev bh
        next := unlinkNext c.next c.prev bh
        hashTable := update c.hashTable (hashfn (c.dev bh) (c.blocknr bh))
          (unlinkFirst c.next (c.hashTable (hashfn (c.dev bh) (c.blocknr bh))) bh) } := by
  simp only [removeFromHash, unlinkPrev, unlinkNext, unlinkFirst, storeAt_same]
  split
  · rfl
  · rw [update_eq_self]

variable {on : Nat → Prop}

theorem Hashed.remove (hashed : c.Hashed on) (linked : on bh ∨ (c.next bh = none ∧ c.prev bh = none)) :
    (c.removeFromHash bh).Hashed fun h => on h ∧ h ≠ bh := by
  obtain ⟨chain, chains, distinct, members⟩ := hashed
  rw [removeFromHash_eq]
  refine ⟨fun k => (chain k).erase bh, ?_, fun k => (distinct k).erase bh, ?_⟩
  · intro k
    change Chain (unlinkNext c.next c.prev bh) (unlinkPrev c.next c.prev bh)
      (update c.hashTable (hashfn (c.dev bh) (c.blocknr bh))
        (unlinkFirst c.next (c.hashTable (hashfn (c.dev bh) (c.blocknr bh))) bh) k)
      none ((chain k).erase bh)
    by_cases own : on bh ∧ hashfn (c.dev bh) (c.blocknr bh) = k
    · have shortened := (chains k).unlink (distinct k) (by simp) ((members k bh).mpr own)
      rw [← own.2] at shortened ⊢
      simpa using shortened
    · have absent : bh ∉ chain k := fun member => own ((members k bh).mp member)
      have foreign : ∀ h, h ∈ chain k → ∀ k', bh ∈ chain k' → h ∉ chain k' := by
        intro h inside k' home also
        have sameKey : k' = k := by
          rw [← ((members k' h).mp also).2, ((members k h).mp inside).2]
        exact absent (sameKey ▸ home)
      have notFirst : c.hashTable k ≠ some bh := fun first => absent ((chains k).first_mem first)
      have kept := (chains k).unlink_other (x := bh) ?_ ?_ notFirst
      · rw [erase_of_not_mem absent]
        rw [unlinkFirst, if_neg notFirst] at kept
        by_cases key : k = hashfn (c.dev bh) (c.blocknr bh)
        · rw [← key]
          simpa [unlinkFirst, notFirst] using kept
        · simpa [update_of_ne key] using kept
      · intro n after inside
        rcases linked with isOn | bare
        · have home := (members _ bh).mpr ⟨isOn, rfl⟩
          exact foreign n inside _ home ((chains _).next_mem home after)
        · rw [bare.1] at after
          cases after
      · intro p before inside
        rcases linked with isOn | bare
        · have home := (members _ bh).mpr ⟨isOn, rfl⟩
          rcases (chains _).prev_mem home before with also | ⟨-, none⟩
          · exact foreign p inside _ home also
          · cases none
        · rw [bare.2] at before
          cases before
  · intro k h
    simp only [(distinct k).mem_erase_iff, members k h]
    tauto

theorem Hashed.rename (hashed : c.Hashed on) (absent : ¬ on bh) (dev block : Nat) :
    ({ c with
        dev := update c.dev bh dev
        blocknr := update c.blocknr bh block } : Cache).Hashed on := by
  obtain ⟨chain, chains, distinct, members⟩ := hashed
  refine ⟨chain, chains, distinct, ?_⟩
  intro k h
  rw [members k h]
  by_cases same : h = bh
  · rw [same]
    simp [absent]
  · simp [update_of_ne same]

theorem insertIntoHash_of_dev_zero (free : c.dev bh = 0) :
    c.insertIntoHash bh =
      { c with
        prev := update c.prev bh none
        next := update c.next bh none } := by
  simp [insertIntoHash, free]

theorem insertIntoHash_of_dev (used : c.dev bh ≠ 0) :
    c.insertIntoHash bh =
      { c with
        prev := storeAt (update c.prev bh none) (c.hashTable (hashfn (c.dev bh) (c.blocknr bh))) (some bh)
        next := update c.next bh (c.hashTable (hashfn (c.dev bh) (c.blocknr bh)))
        hashTable := update c.hashTable (hashfn (c.dev bh) (c.blocknr bh)) (some bh) } := by
  simp only [insertIntoHash, if_neg used, update_idem, update_self]

theorem Hashed.insert (hashed : c.Hashed on) (absent : ¬ on bh) :
    (c.insertIntoHash bh).Hashed fun h => on h ∨ (h = bh ∧ c.dev bh ≠ 0) := by
  obtain ⟨chain, chains, distinct, members⟩ := hashed
  have fresh : ∀ k, bh ∉ chain k := fun k member => absent ((members k bh).mp member).1
  by_cases used : c.dev bh = 0
  · rw [insertIntoHash_of_dev_zero used]
    refine ⟨chain, ?_, distinct, ?_⟩
    · intro k
      have notBh : ∀ h ∈ chain k, h ≠ bh := fun h inside same => fresh k (same ▸ inside)
      exact (chains k).congr (fun h inside => update_of_ne (notBh h inside) _ _)
        (fun h inside => update_of_ne (notBh h inside) _ _)
    · intro k h
      rw [members k h]
      simp [used]
  · rw [insertIntoHash_of_dev used]
    refine ⟨update chain (hashfn (c.dev bh) (c.blocknr bh))
      (bh :: chain (hashfn (c.dev bh) (c.blocknr bh))), ?_, ?_, ?_⟩
    · intro k
      by_cases key : k = hashfn (c.dev bh) (c.blocknr bh)
      · rw [key]
        simpa using (chains _).linkFirst (distinct _) (fresh _)
      · simp only [update_of_ne key]
        refine (chains k).congr ?_ ?_
        · intro h inside
          have notBh : h ≠ bh := fun same => fresh k (same ▸ inside)
          exact update_of_ne notBh _ _
        · intro h inside
          have notBh : h ≠ bh := fun same => fresh k (same ▸ inside)
          have notFirst : c.hashTable (hashfn (c.dev bh) (c.blocknr bh)) ≠ some h := by
            intro first
            have home := ((members _ h).mp ((chains _).first_mem first)).2
            exact key (((members k h).mp inside).2.symm.trans home)
          rw [storeAt_of_ne notFirst, update_of_ne notBh]
    · intro k
      by_cases key : k = hashfn (c.dev bh) (c.blocknr bh)
      · rw [key, update_self]
        exact nodup_cons.mpr ⟨fresh _, distinct _⟩
      · rw [update_of_ne key]
        exact distinct k
    · intro k h
      by_cases key : k = hashfn (c.dev bh) (c.blocknr bh)
      · rw [key, update_self, mem_cons, members]
        constructor
        · rintro (rfl | inside)
          · exact ⟨.inr ⟨rfl, used⟩, rfl⟩
          · exact ⟨.inl inside.1, inside.2⟩
        · rintro ⟨inside | ⟨rfl, -⟩, hash⟩
          · exact .inr ⟨inside, hash⟩
          · exact .inl rfl
      · rw [update_of_ne key, members]
        constructor
        · rintro ⟨inside, hash⟩
          exact ⟨.inl inside, hash⟩
        · rintro ⟨inside | ⟨rfl, -⟩, hash⟩
          · exact ⟨inside, hash⟩
          · exact absurd hash.symm key

theorem Hashed.remove_outside (hashed : c.Hashed on) (linked : on bh ∨ (c.next bh = none ∧ c.prev bh = none))
    {h : Nat} (outside : ¬ on h) :
    (c.removeFromHash bh).next h = c.next h ∧ (c.removeFromHash bh).prev h = c.prev h := by
  obtain ⟨chain, chains, distinct, members⟩ := hashed
  rw [removeFromHash_eq]
  have notBefore : c.prev bh ≠ some h := by
    intro before
    rcases linked with isOn | bare
    · rcases (chains _).prev_mem ((members _ bh).mpr ⟨isOn, rfl⟩) before with inside | ⟨-, none⟩
      · exact outside ((members _ h).mp inside).1
      · cases none
    · rw [bare.2] at before
      cases before
  have notAfter : c.next bh ≠ some h := by
    intro after
    rcases linked with isOn | bare
    · have inside := (chains _).next_mem ((members _ bh).mpr ⟨isOn, rfl⟩) after
      exact outside ((members _ h).mp inside).1
    · rw [bare.1] at after
      cases after
  exact ⟨storeAt_of_ne notBefore, storeAt_of_ne notAfter⟩

theorem Hashed.insert_outside (hashed : c.Hashed on) {h : Nat} (other : h ≠ bh) (outside : ¬ on h) :
    (c.insertIntoHash bh).next h = c.next h ∧ (c.insertIntoHash bh).prev h = c.prev h := by
  obtain ⟨chain, chains, distinct, members⟩ := hashed
  by_cases used : c.dev bh = 0
  · rw [insertIntoHash_of_dev_zero used]
    exact ⟨update_of_ne other _ _, update_of_ne other _ _⟩
  · rw [insertIntoHash_of_dev used]
    have notFirst : c.hashTable (hashfn (c.dev bh) (c.blocknr bh)) ≠ some h := by
      intro first
      exact outside ((members _ h).mp ((chains _).first_mem first)).1
    refine ⟨update_of_ne other _ _, ?_⟩
    change storeAt (update c.prev bh none) _ (some bh) h = c.prev h
    rw [storeAt_of_ne notFirst, update_of_ne other]

private theorem findFrom_chain {dev block : Nat} {l : List Nat} {first back : Option Nat}
    (chain : Chain c.next c.prev first back l) {rounds : Nat} (enough : l.length < rounds) :
    (∀ bh, c.findFrom dev block rounds first = some bh → bh ∈ l ∧ c.dev bh = dev ∧ c.blocknr bh = block) ∧
    (c.findFrom dev block rounds first = none → ∀ bh ∈ l, ¬ (c.dev bh = dev ∧ c.blocknr bh = block)) := by
  induction l generalizing first back rounds with
  | nil =>
    obtain ⟨rounds, rfl⟩ : ∃ n, rounds = n + 1 := ⟨rounds - 1, by omega⟩
    rw [chain]
    simp [findFrom]
  | cons x rest ih =>
    obtain ⟨isFirst, -, tail⟩ := chain
    obtain ⟨rounds, rfl⟩ : ∃ n, rounds = n + 1 := ⟨rounds - 1, by omega⟩
    simp only [length_cons] at enough
    have less : rest.length < rounds := by omega
    obtain ⟨found, missed⟩ := ih tail less
    rw [isFirst]
    by_cases hit : c.dev x = dev ∧ c.blocknr x = block
    · simp only [findFrom, if_pos hit]
      exact ⟨fun bh same => by cases same; exact ⟨.head _, hit⟩, fun absent => by cases absent⟩
    · simp only [findFrom, if_neg hit]
      refine ⟨fun bh same => ?_, fun absent bh member => ?_⟩
      · obtain ⟨member, named⟩ := found bh same
        exact ⟨.tail _ member, named⟩
      · rcases mem_cons.mp member with rfl | later
        · exact hit
        · exact missed absent bh later

private theorem length_le_of_nodup {l : List Nat} (distinct : l.Nodup) (bounded : ∀ x ∈ l, x < n) :
    l.length ≤ n := by
  have inside : l.toFinset ⊆ Finset.range n := by
    intro x member
    exact Finset.mem_range.mpr (bounded x (mem_toFinset.mp member))
  have size := Finset.card_le_card inside
  rwa [toFinset_card_of_nodup distinct, Finset.card_range] at size

theorem WellLinked.findBuffer_some (linked : c.WellLinked) {dev block : Nat}
    (found : c.findBuffer dev block = some bh) : bh < c.nrBuffers ∧ c.dev bh = dev ∧ c.blocknr bh = block := by
  obtain ⟨chain, chains, distinct, members⟩ := linked.hashed
  have bounded := length_le_of_nodup (distinct (hashfn dev block)) fun x member => ((members _ x).mp member).1.1
  obtain ⟨member, named⟩ := (findFrom_chain (chains _) (Nat.lt_succ_of_le bounded)).1 bh found
  exact ⟨((members _ bh).mp member).1.1, named⟩

theorem WellLinked.findBuffer_none (linked : c.WellLinked) {dev block : Nat} (used : dev ≠ 0)
    (absent : c.findBuffer dev block = none) (inside : bh < c.nrBuffers) :
    ¬ (c.dev bh = dev ∧ c.blocknr bh = block) := by
  rintro ⟨rfl, rfl⟩
  obtain ⟨chain, chains, distinct, members⟩ := linked.hashed
  have bounded := length_le_of_nodup (distinct (hashfn (c.dev bh) (c.blocknr bh)))
    fun x member => ((members _ x).mp member).1.1
  exact (findFrom_chain (chains _) (Nat.lt_succ_of_le bounded)).2 absent bh
    ((members _ bh).mpr ⟨⟨inside, used⟩, rfl⟩) ⟨rfl, rfl⟩

/-! ## What `take` does -/

section Fields

variable (c : Cache) (bh dev block : Nat)

theorem take_eq : ∃ prev next prevFree nextFree hashTable freeList, c.take bh dev block =
    { c with
      count := update c.count bh 1
      dirt := update c.dirt bh false
      uptodate := update c.uptodate bh false
      dev := update c.dev bh dev
      blocknr := update c.blocknr bh block
      prev, next, prevFree, nextFree, hashTable, freeList } := by
  simp only [take, removeFromQueues, removeFromHash_eq, removeFromFree, insertIntoQueues,
    insertIntoFree, insertIntoHash]
  split <;> split <;> exact ⟨_, _, _, _, _, _, rfl⟩

@[simp] theorem take_nrBuffers : (c.take bh dev block).nrBuffers = c.nrBuffers := by
  obtain ⟨_, _, _, _, _, _, shape⟩ := c.take_eq bh dev block
  rw [shape]

@[simp] theorem take_data : (c.take bh dev block).data = c.data := by
  obtain ⟨_, _, _, _, _, _, shape⟩ := c.take_eq bh dev block
  rw [shape]

@[simp] theorem take_lock : (c.take bh dev block).lock = c.lock := by
  obtain ⟨_, _, _, _, _, _, shape⟩ := c.take_eq bh dev block
  rw [shape]

@[simp] theorem take_request : (c.take bh dev block).request = c.request := by
  obtain ⟨_, _, _, _, _, _, shape⟩ := c.take_eq bh dev block
  rw [shape]

@[simp] theorem take_queue : (c.take bh dev block).queue = c.queue := by
  obtain ⟨_, _, _, _, _, _, shape⟩ := c.take_eq bh dev block
  rw [shape]

@[simp] theorem take_disk : (c.take bh dev block).disk = c.disk := by
  obtain ⟨_, _, _, _, _, _, shape⟩ := c.take_eq bh dev block
  rw [shape]

@[simp] theorem take_stored : (c.take bh dev block).stored = c.stored := by
  obtain ⟨_, _, _, _, _, _, shape⟩ := c.take_eq bh dev block
  rw [shape]

@[simp] theorem take_unsent : (c.take bh dev block).unsent = c.unsent := by
  obtain ⟨_, _, _, _, _, _, shape⟩ := c.take_eq bh dev block
  rw [shape]

@[simp] theorem take_count : (c.take bh dev block).count = update c.count bh 1 := by
  obtain ⟨_, _, _, _, _, _, shape⟩ := c.take_eq bh dev block
  rw [shape]

@[simp] theorem take_dirt : (c.take bh dev block).dirt = update c.dirt bh false := by
  obtain ⟨_, _, _, _, _, _, shape⟩ := c.take_eq bh dev block
  rw [shape]

@[simp] theorem take_uptodate : (c.take bh dev block).uptodate = update c.uptodate bh false := by
  obtain ⟨_, _, _, _, _, _, shape⟩ := c.take_eq bh dev block
  rw [shape]

@[simp] theorem take_dev : (c.take bh dev block).dev = update c.dev bh dev := by
  obtain ⟨_, _, _, _, _, _, shape⟩ := c.take_eq bh dev block
  rw [shape]

@[simp] theorem take_blocknr : (c.take bh dev block).blocknr = update c.blocknr bh block := by
  obtain ⟨_, _, _, _, _, _, shape⟩ := c.take_eq bh dev block
  rw [shape]

end Fields

theorem FreeLinked.of_same {c' : Cache} (linked : c.FreeLinked) (next : c'.nextFree = c.nextFree)
    (prev : c'.prevFree = c.prevFree) (first : c'.freeList = c.freeList) (number : c'.nrBuffers = c.nrBuffers) :
    c'.FreeLinked := by
  unfold FreeLinked
  rw [next, prev, first, number]
  exact linked

theorem Hashed.of_same {c' : Cache} (hashed : c.Hashed on) (next : c'.next = c.next) (prev : c'.prev = c.prev)
    (table : c'.hashTable = c.hashTable) (dev : c'.dev = c.dev) (blocknr : c'.blocknr = c.blocknr) :
    c'.Hashed on := by
  unfold Hashed
  rw [next, prev, table, dev, blocknr]
  exact hashed

/-- The cache that the end of `getblk` leaves just before the head goes on a hash chain. -/
def filed (c : Cache) (bh dev block : Nat) : Cache :=
  let c := { c with count := update c.count bh 1 }
  let c := { c with dirt := update c.dirt bh false }
  let c := { c with uptodate := update c.uptodate bh false }
  let c := c.removeFromQueues bh
  let c := { c with dev := update c.dev bh dev }
  let c := { c with blocknr := update c.blocknr bh block }
  c.insertIntoFree bh

theorem take_eq_insertIntoHash (c : Cache) (bh dev block : Nat) :
    c.take bh dev block = (c.filed bh dev block).insertIntoHash bh := rfl

theorem WellLinked.linkedOrBare (linked : c.WellLinked) (inside : bh < c.nrBuffers) :
    (bh < c.nrBuffers ∧ c.dev bh ≠ 0) ∨ (c.next bh = none ∧ c.prev bh = none) := by
  by_cases used : c.dev bh = 0
  · exact .inr (linked.unhashed bh inside used)
  · exact .inl ⟨inside, used⟩

theorem WellLinked.filed_hashed (linked : c.WellLinked) (inside : bh < c.nrBuffers) (dev block : Nat) :
    (c.filed bh dev block).Hashed fun h => (h < c.nrBuffers ∧ c.dev h ≠ 0) ∧ h ≠ bh := by
  let bare : Cache :=
    { c with
      count := update c.count bh 1
      dirt := update c.dirt bh false
      uptodate := update c.uptodate bh false }
  have bareHashed : bare.Hashed fun h => h < c.nrBuffers ∧ c.dev h ≠ 0 := linked.hashed.of_same rfl rfl rfl rfl rfl
  have removedHashed :
      (bare.removeFromQueues bh).Hashed fun h => (h < c.nrBuffers ∧ c.dev h ≠ 0) ∧ h ≠ bh := by
    refine (bareHashed.remove (linked.linkedOrBare inside)).of_same ?_ ?_ ?_ ?_ ?_
    all_goals
      simp only [removeFromQueues, removeFromFree]
      split <;> rfl
  exact (removedHashed.rename (fun member => member.2 rfl) dev block).of_same rfl rfl rfl rfl rfl

/-- Giving an unused head a new name keeps both structures. Nothing sleeps
between the search that found the name free and the insertion. -/
theorem WellLinked.take {c : Cache} (linked : c.WellLinked) {bh dev block : Nat}
    (inside : bh < c.nrBuffers) (absent : c.findBuffer dev block = none) :
    (c.take bh dev block).WellLinked := by
  let on : Nat → Prop := fun h => h < c.nrBuffers ∧ c.dev h ≠ 0
  let bare : Cache :=
    { c with
      count := update c.count bh 1
      dirt := update c.dirt bh false
      uptodate := update c.uptodate bh false }
  let removed := bare.removeFromQueues bh
  let renamed : Cache :=
    { removed with
      dev := update removed.dev bh dev
      blocknr := update removed.blocknr bh block }
  have linkedOrBare : on bh ∨ (bare.next bh = none ∧ bare.prev bh = none) := linked.linkedOrBare inside
  have bareHashed : bare.Hashed on := linked.hashed.of_same rfl rfl rfl rfl rfl
  have filedHashed : (renamed.insertIntoFree bh).Hashed fun h => on h ∧ h ≠ bh := linked.filed_hashed inside dev block
  have notOn : ¬(on bh ∧ bh ≠ bh) := fun member => member.2 rfl
  have wholeHashed := filedHashed.insert notOn
  have newDev : (renamed.insertIntoFree bh).dev bh = dev := update_self _ _ _
  refine ⟨?_, ?_, ?_, ?_⟩
  · -- the free list is edited by its own halves of the two functions
    have moved : (((bare.removeFromHash bh).removeFromFree bh).insertIntoFree bh).FreeLinked := by
      refine FreeLinked.move ?_ ?_
      · rw [removeFromHash_eq]
        exact linked.free.of_same rfl rfl rfl rfl
      · rw [removeFromHash_eq]
        exact inside
    have filed : (renamed.insertIntoFree bh).FreeLinked := moved.of_same rfl rfl rfl rfl
    refine filed.of_same ?_ ?_ ?_ ?_
    all_goals
      simp only [Cache.take, insertIntoQueues, insertIntoHash]
      split <;> rfl
  · obtain ⟨chain, chains, distinct, members⟩ := wholeHashed
    refine ⟨chain, chains, distinct, ?_⟩
    intro k h
    refine (members k h).trans (and_congr_left fun _ => ?_)
    simp only [take_nrBuffers, take_dev]
    by_cases same : h = bh
    · subst same
      simp [newDev, inside]
    · simp [same, on]
  · intro h small free
    simp only [take_nrBuffers] at small
    by_cases same : h = bh
    · subst same
      have free' : (renamed.insertIntoFree h).dev h = 0 := by
        simpa [newDev] using free
      change ((renamed.insertIntoFree h).insertIntoHash h).next h = none ∧
        ((renamed.insertIntoFree h).insertIntoHash h).prev h = none
      rw [insertIntoHash_of_dev_zero free']
      exact ⟨update_self _ _ _, update_self _ _ _⟩
    · have free' : c.dev h = 0 := by simpa [update_of_ne same] using free
      have outside : ¬ on h := fun member => member.2 free'
      obtain ⟨nextIn, prevIn⟩ := filedHashed.insert_outside same fun member => outside member.1
      obtain ⟨nextOut, prevOut⟩ := bareHashed.remove_outside linkedOrBare outside
      have nextFiled : (renamed.insertIntoFree bh).next = (bare.removeFromHash bh).next := by
        simp only [renamed, removed, insertIntoFree, removeFromQueues, removeFromFree]
        split <;> rfl
      have prevFiled : (renamed.insertIntoFree bh).prev = (bare.removeFromHash bh).prev := by
        simp only [renamed, removed, insertIntoFree, removeFromQueues, removeFromFree]
        split <;> rfl
      obtain ⟨nextNone, prevNone⟩ := linked.unhashed h small free'
      refine ⟨?_, ?_⟩
      · exact nextIn.trans ((congrFun nextFiled h).trans (nextOut.trans nextNone))
      · exact prevIn.trans ((congrFun prevFiled h).trans (prevOut.trans prevNone))
  · intro h h' small small' used sameDev sameBlock
    simp only [take_nrBuffers, take_dev, take_blocknr] at small small' used sameDev sameBlock
    by_cases isBh : h = bh <;> by_cases isBh' : h' = bh
    · rw [isBh, isBh']
    · subst isBh
      simp only [update_self, update_of_ne isBh'] at used sameDev sameBlock
      exact absurd ⟨sameDev.symm, sameBlock.symm⟩ (linked.findBuffer_none used absent small')
    · subst isBh'
      simp only [update_self, update_of_ne isBh] at used sameDev sameBlock
      rw [sameDev] at used
      exact absurd ⟨sameDev, sameBlock⟩ (linked.findBuffer_none used absent small)
    · simp only [update_of_ne isBh, update_of_ne isBh'] at used sameDev sameBlock
      exact linked.unique h h' small small' used sameDev sameBlock

theorem wellLinked_init (positive : 0 < n) (blocknr : Nat → Nat) (data : Nat → Block) (disk : Nat → Nat → Block) :
    (init n blocknr data disk).WellLinked where
  free := freeLinked_init positive blocknr data disk
  hashed := ⟨fun _ => [], fun _ => rfl, fun _ => nodup_nil, by simp [init]⟩
  unhashed := fun _ _ _ => ⟨rfl, rfl⟩
  unique := fun _ _ _ _ used => absurd rfl used

end Linux012.Fs.Cache

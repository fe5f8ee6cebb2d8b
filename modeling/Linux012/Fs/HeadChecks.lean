import Linux012.Fs.BufferInvariant

/-! `getblk` with every use of a buffer-head pointer checked. Pointers of the free list are
never `NULL`; those of the hash chains are where a chain ends. -/

set_option autoImplicit false

namespace Linux012.Fs

open IntrusiveList
open Function (update update_of_ne update_self)

inductive HeadFault where
  /-- a field of a buffer head is used through `NULL` -/
  | null
  | panic
deriving DecidableEq

def deref {α : Type} : Option α → Except HeadFault α
  | none => .error .null
  | some head => .ok head

theorem deref_bind {α β : Type} (head : α) (f : α → Except HeadFault β) : (deref (some head) >>= f) = f head := rfl

namespace Cache

/-! ## The two lists -/

/-- `if (p) p->b_prev = value` -/
def setPrev (c : Cache) (p value : Option Nat) : Except HeadFault Cache :=
  if p.isSome then do
    let head ← deref p
    pure { c with prev := update c.prev head value }
  else pure c

/-- `if (p) p->b_next = value` -/
def setNext (c : Cache) (p value : Option Nat) : Except HeadFault Cache :=
  if p.isSome then do
    let head ← deref p
    pure { c with next := update c.next head value }
  else pure c

def removeFromHashChecked (c : Cache) (bh : Nat) : Except HeadFault Cache := do
  let c ← c.setPrev (c.next bh) (c.prev bh)
  let c ← c.setNext (c.prev bh) (c.next bh)
  let hash := hashfn (c.dev bh) (c.blocknr bh)
  if c.hashTable hash = some bh then
    pure { c with hashTable := update c.hashTable hash (c.next bh) }
  else pure c

def insertIntoHashChecked (c : Cache) (bh : Nat) : Except HeadFault Cache := do
  let c := { c with prev := update c.prev bh none }
  let c := { c with next := update c.next bh none }
  if c.dev bh = 0 then pure c
  else
    let hash := hashfn (c.dev bh) (c.blocknr bh)
    let c := { c with next := update c.next bh (c.hashTable hash) }
    let c := { c with hashTable := update c.hashTable hash (some bh) }
    let next ← deref (c.next bh)
    pure { c with prev := update c.prev next (some bh) }

def takeChecked (c : Cache) (bh dev block : Nat) : Except HeadFault Cache := do
  let c := { c with count := update c.count bh 1 }
  let c := { c with dirt := update c.dirt bh false }
  let c := { c with uptodate := update c.uptodate bh false }
  let c ← c.removeFromHashChecked bh
  let c := c.removeFromFree bh
  let c := { c with dev := update c.dev bh dev }
  let c := { c with blocknr := update c.blocknr bh block }
  (c.insertIntoFree bh).insertIntoHashChecked bh

def findFromChecked (c : Cache) (dev block : Nat) : Nat → Option Nat → Except HeadFault (Option Nat)
  | 0, _ => pure none
  | rounds + 1, tmp =>
    if tmp = none then pure none
    else do
      let head ← deref tmp
      if c.dev head = dev ∧ c.blocknr head = block then pure (some head)
      else findFromChecked c dev block rounds (c.next head)

def findBufferChecked (c : Cache) (dev block : Nat) : Except HeadFault (Option Nat) :=
  c.findFromChecked dev block (c.nrBuffers + 1) (c.hashTable (hashfn dev block))

structure Ready (c : Cache) (bh dev block : Nat) : Prop where
  unlocked : c.lock bh = false
  unused : c.count bh = 0
  clean : c.dirt bh = false
  absent : c.findBuffer dev block = none

def Shares (c : Cache) (bh dev block : Nat) : Prop :=
  ∃ h, h < c.nrBuffers ∧ h ≠ bh ∧ c.dev h ≠ 0 ∧ hashfn (c.dev h) (c.blocknr h) = hashfn dev block

end Cache

def advanceChecked (driver : Nat → Bool) (c : Cache) :
    Control → Except HeadFault (Option (Cache × Control × List Caller))
  | .getHashTable dev block => do
    match ← c.findBufferChecked dev block with
    | some bh => pure (some (c.incCount bh, .hashWait dev block bh, []))
    | none => pure (some (c, .ret .null, []))
  | .victimWait dev block bh => do
    if c.lock bh then pure none
    else if c.count bh ≠ 0 then pure (some (c, .getblk dev block, []))
    else if c.dirt bh then
      pure (some (c, .syncDev (c.dev bh) false 0, [.getblkSync dev block bh]))
    else if (← c.findBufferChecked dev block).isSome then pure (some (c, .getblk dev block, []))
    else
      let c ← c.takeChecked bh dev block
      pure (some (c, .ret (.buffer dev block bh false), []))
  | control => pure (advance driver c control)

namespace Cache

section Checks

variable {c : Cache} {bh dev block : Nat}

theorem setPrev_eq (c : Cache) (p value : Option Nat) :
    c.setPrev p value = .ok { c with prev := storeAt c.prev p value } := by
  cases p <;> rfl

theorem setNext_eq (c : Cache) (p value : Option Nat) :
    c.setNext p value = .ok { c with next := storeAt c.next p value } := by
  cases p <;> rfl

theorem removeFromHashChecked_eq (c : Cache) (bh : Nat) : c.removeFromHashChecked bh = .ok (c.removeFromHash bh) := by
  rw [removeFromHashChecked, setPrev_eq]
  change (setNext _ _ _ >>= _) = _
  rw [setNext_eq, removeFromHash]
  change (if _ then _ else _) = _
  split <;> rfl

theorem findFromChecked_eq (rounds : Nat) (tmp : Option Nat) :
    c.findFromChecked dev block rounds tmp = .ok (c.findFrom dev block rounds tmp) := by
  induction rounds generalizing tmp with
  | zero => rfl
  | succ rounds ih =>
    cases tmp with
    | none => rfl
    | some head =>
      simp only [findFromChecked, findFrom, reduceCtorEq, if_false, deref_bind]
      split
      · rfl
      · exact ih (c.next head)

theorem findBufferChecked_eq : c.findBufferChecked dev block = .ok (c.findBuffer dev block) :=
  findFromChecked_eq _ _

theorem insertIntoHashChecked_eq (shared : c.dev bh = 0 ∨ c.hashTable (hashfn (c.dev bh) (c.blocknr bh)) ≠ none) :
    c.insertIntoHashChecked bh = .ok (c.insertIntoHash bh) := by
  by_cases free : c.dev bh = 0
  · simp only [insertIntoHashChecked, insertIntoHash, if_pos free]
    rfl
  · obtain ⟨first, isFirst⟩ := Option.ne_none_iff_exists'.mp (shared.resolve_left free)
    simp only [insertIntoHashChecked, insertIntoHash, if_neg free, isFirst, update_self, deref_bind]
    rfl

theorem insertIntoHashChecked_null (used : c.dev bh ≠ 0)
    (empty : c.hashTable (hashfn (c.dev bh) (c.blocknr bh)) = none) :
    c.insertIntoHashChecked bh = .error .null := by
  simp only [insertIntoHashChecked, if_neg used, empty, update_self]
  rfl

theorem takeChecked_eq (c : Cache) (bh dev block : Nat) :
    c.takeChecked bh dev block = (c.filed bh dev block).insertIntoHashChecked bh := by
  rw [takeChecked, removeFromHashChecked_eq]
  rfl

theorem Hashed.hashTable_eq_none_iff {on : Nat → Prop} (hashed : c.Hashed on) (k : Nat) :
    c.hashTable k = none ↔ ∀ h, on h → hashfn (c.dev h) (c.blocknr h) ≠ k := by
  obtain ⟨chain, chains, _, members⟩ := hashed
  have chained := chains k
  cases elements : chain k with
  | nil =>
    rw [elements] at chained
    refine ⟨fun _ h isOn key => ?_, fun _ => chained⟩
    have member := (members k h).mpr ⟨isOn, key⟩
    rw [elements] at member
    cases member
  | cons x rest =>
    rw [elements] at chained
    have inside := (members k x).mp (by rw [elements]; exact List.mem_cons_self)
    constructor
    · intro empty
      rw [chained.1] at empty
      cases empty
    · intro others
      exact absurd inside.2 (others x inside.1)

theorem filed_name (c : Cache) (bh dev block : Nat) :
    (c.filed bh dev block).dev = update c.dev bh dev ∧
      (c.filed bh dev block).blocknr = update c.blocknr bh block := by
  have same : ∀ d : Cache, (d.insertIntoHash bh).dev = d.dev ∧ (d.insertIntoHash bh).blocknr = d.blocknr := by
    intro d
    rw [insertIntoHash]
    split <;> exact ⟨rfl, rfl⟩
  rw [← (same _).1, ← (same (c.filed bh dev block)).2, ← take_eq_insertIntoHash]
  exact ⟨take_dev c bh dev block, take_blocknr c bh dev block⟩

theorem WellLinked.chain_empty_iff (linked : c.WellLinked) (inside : bh < c.nrBuffers) :
    (c.filed bh dev block).hashTable (hashfn dev block) = none ↔ ¬c.Shares bh dev block := by
  obtain ⟨named, numbered⟩ := c.filed_name bh dev block
  rw [(linked.filed_hashed inside dev block).hashTable_eq_none_iff, named, numbered]
  constructor
  · rintro empty ⟨h, small, other, used, key⟩
    apply empty h ⟨⟨small, used⟩, other⟩
    rw [update_of_ne other, update_of_ne other, key]
  · rintro alone h ⟨⟨small, used⟩, other⟩ key
    rw [update_of_ne other, update_of_ne other] at key
    exact alone ⟨h, small, other, used, key⟩

theorem WellLinked.takeChecked_ok (linked : c.WellLinked) (inside : bh < c.nrBuffers)
    (shared : dev = 0 ∨ c.Shares bh dev block) : c.takeChecked bh dev block = .ok (c.take bh dev block) := by
  obtain ⟨named, numbered⟩ := c.filed_name bh dev block
  rw [takeChecked_eq, take_eq_insertIntoHash]
  apply insertIntoHashChecked_eq
  rw [named, numbered, update_self, update_self, Ne, linked.chain_empty_iff inside, not_not]
  exact shared

theorem WellLinked.takeChecked_null (linked : c.WellLinked) (inside : bh < c.nrBuffers) (used : dev ≠ 0)
    (alone : ¬c.Shares bh dev block) : c.takeChecked bh dev block = .error .null := by
  obtain ⟨named, numbered⟩ := c.filed_name bh dev block
  rw [takeChecked_eq]
  apply insertIntoHashChecked_null
  · rw [named, update_self]
    exact used
  · rw [named, numbered, update_self, update_self, linked.chain_empty_iff inside]
    exact alone

end Checks

end Cache

section Machine

variable {driver : Nat → Bool} {c : Cache} {control : Control}

theorem advanceChecked_eq (shared : ∀ dev block bh, control = .victimWait dev block bh → c.Ready bh dev block →
      c.takeChecked bh dev block = .ok (c.take bh dev block)) :
    advanceChecked driver c control = .ok (advance driver c control) := by
  cases control with
  | getHashTable dev block =>
    simp only [advanceChecked, Cache.findBufferChecked_eq, advance]
    change (match c.findBuffer dev block with | some bh => _ | none => _) = _
    cases c.findBuffer dev block <;> rfl
  | victimWait dev block bh =>
    simp only [advanceChecked, Cache.findBufferChecked_eq, advance]
    by_cases locked : c.lock bh = true
    · simp only [if_pos locked]
      rfl
    by_cases busy : c.count bh ≠ 0
    · simp only [if_neg locked, if_pos busy]
      rfl
    by_cases dirty : c.dirt bh = true
    · simp only [if_neg locked, if_neg busy, if_pos dirty]
      rfl
    simp only [if_neg locked, if_neg busy, if_neg dirty]
    change (if _ then _ else _) = _
    by_cases present : (c.findBuffer dev block).isSome = true
    · simp only [if_pos present]
      rfl
    · simp only [if_neg present]
      rw [shared dev block bh rfl ⟨by simpa using locked, by simpa using busy, by simpa using dirty,
        by simpa using present⟩]
      rfl
  | _ => rfl

theorem advanceChecked_ready {dev block bh : Nat} (ready : c.Ready bh dev block)
    (null : c.takeChecked bh dev block = .error .null) :
    advanceChecked driver c (.victimWait dev block bh) = .error .null := by
  simp only [advanceChecked, Cache.findBufferChecked_eq, ready.unlocked, ready.unused, ready.clean]
  change (if (c.findBuffer dev block).isSome then _ else _) = _
  rw [ready.absent, null]
  rfl

/-- `getblk` puts a buffer at the head of a chain through the buffer that was there; it
finds one exactly if the chain holds another buffer. -/
theorem getblk_heads_iff (linked : c.WellLinked) (inside : ∀ h ∈ control.heads, h < c.nrBuffers) :
    advanceChecked driver c control ≠ .error .null ↔
      ∀ dev block bh, control = .victimWait dev block bh → c.Ready bh dev block →
        dev = 0 ∨ c.Shares bh dev block := by
  constructor
  · rintro tested dev block bh rfl ready
    by_contra alone
    rw [not_or] at alone
    exact tested (advanceChecked_ready ready
      (linked.takeChecked_null (inside bh (List.mem_singleton_self bh)) alone.1 alone.2))
  · intro shared
    rw [advanceChecked_eq]
    · intro failed
      cases failed
    · rintro dev block bh rfl ready
      exact linked.takeChecked_ok (inside bh (List.mem_singleton_self bh)) (shared dev block bh rfl ready)

end Machine

end Linux012.Fs

import Linux012.Fs.BufferLists
import Linux012.Fs.BufferSteps
import Linux012.Lib.Transition

/-! The lists of the buffer cache are well formed in every reachable state:
only the end of `getblk` edits them, and it runs without sleeping from the last
`find_buffer` to the insertion. -/

set_option autoImplicit false

namespace Linux012.Fs

open BlkDrv IntrusiveList Transition

/-! ## The heads a process is about -/

variable {c : Cache}

theorem Cache.scanFree_mem {order : List Nat} (ring : Ring c.nextFree c.prevFree order) {rounds tmp : Nat}
    {candidate : Option Nat} (here : tmp ∈ order) (known : ∀ bh ∈ candidate, bh ∈ order) :
    ∀ bh ∈ c.scanFree rounds tmp candidate, bh ∈ order := by
  induction rounds generalizing tmp candidate with
  | zero => exact known
  | succ rounds ih =>
    have next : ∀ {better : Prop} [Decidable better],
        ∀ bh ∈ (if better then some tmp else candidate), bh ∈ order := by
      intro better _ bh chosen
      split at chosen
      · cases chosen
        exact here
      · exact known bh chosen
    intro bh found
    simp only [scanFree] at found
    split at found
    · exact next bh found
    · split at found
      · exact next bh found
      · exact ih (ring.next_mem here) next bh found

theorem Cache.WellLinked.scanFree_inside (linked : c.WellLinked) {rounds bh : Nat}
    (found : c.scanFree rounds c.freeList none = some bh) : bh < c.nrBuffers := by
  obtain ⟨order, ring, _, first, members⟩ := linked.free
  have here : c.freeList ∈ order := List.mem_of_head? first
  exact (members bh).mp (Cache.scanFree_mem ring here (by simp) bh found)

/-! ## What the steps leave alone -/

/-- The lists of `c'` are those of `c`. -/
structure Cache.LinkedAs (c c' : Cache) : Prop where
  nrBuffers : c'.nrBuffers = c.nrBuffers
  dev : c'.dev = c.dev
  blocknr : c'.blocknr = c.blocknr
  prev : c'.prev = c.prev
  next : c'.next = c.next
  prevFree : c'.prevFree = c.prevFree
  nextFree : c'.nextFree = c.nextFree
  hashTable : c'.hashTable = c.hashTable
  freeList : c'.freeList = c.freeList

theorem Cache.LinkedAs.refl (c : Cache) : c.LinkedAs c :=
  ⟨rfl, rfl, rfl, rfl, rfl, rfl, rfl, rfl, rfl⟩

theorem Cache.WellLinked.of_linkedAs {c' : Cache} (linked : c.WellLinked) (same : c.LinkedAs c') :
    c'.WellLinked where
  free := linked.free.of_same same.nextFree same.prevFree same.freeList same.nrBuffers
  hashed := by
    rw [same.nrBuffers, same.dev]
    exact linked.hashed.of_same same.next same.prev same.hashTable same.dev same.blocknr
  unhashed := by
    rw [same.nrBuffers, same.dev, same.next, same.prev]
    exact linked.unhashed
  unique := by
    rw [same.nrBuffers, same.dev, same.blocknr]
    exact linked.unique

theorem Cache.transfer_linkedAs (c : Cache) (req : Request) (bh : Nat) :
    c.LinkedAs (c.transfer req bh) := by
  unfold Cache.transfer
  simp only
  split <;> exact ⟨rfl, rfl, rfl, rfl, rfl, rfl, rfl, rfl, rfl⟩

theorem Cache.endRequest_linkedAs (c : Cache) (line : Nat) : c.LinkedAs (c.endRequest line) := by
  unfold Cache.endRequest
  cases c.queue line with
  | nil => exact .refl c
  | cons slot rest =>
    simp only
    cases (c.request slot).bh with
    | none => exact ⟨rfl, rfl, rfl, rfl, rfl, rfl, rfl, rfl, rfl⟩
    | some bh =>
      have moved := c.transfer_linkedAs (c.request slot) bh
      exact ⟨moved.nrBuffers, moved.dev, moved.blocknr, moved.prev, moved.next, moved.prevFree,
        moved.nextFree, moved.hashTable, moved.freeList⟩

theorem Submits.linkedAs {driver : Nat → Bool} {c' : Cache} {rw bh : Nat} {control : Control}
    (submitted : Submits driver c rw bh c' control) : c.LinkedAs c' := by
  cases submitted with
  | _ => exact ⟨rfl, rfl, rfl, rfl, rfl, rfl, rfl, rfl, rfl⟩

theorem Changes.linkedAs {c' : Cache} {waits waits' : Option (Nat × Nat)} (changed : Changes c waits c' waits') :
    c.LinkedAs c' ∨ ∃ bh dev block, c.lock bh = false ∧ c.count bh = 0 ∧ c.dirt bh = false ∧
      c.findBuffer dev block = none ∧ c' = c.take bh dev block := by
  cases changed with
  | take bh dev block _ unlocked unused clean absent =>
    exact .inr ⟨bh, dev, block, unlocked, unused, clean, absent, rfl⟩
  | complete line => exact .inl (c.endRequest_linkedAs line)
  | _ => exact .inl ⟨rfl, rfl, rfl, rfl, rfl, rfl, rfl, rfl, rfl⟩

theorem Changes.nrBuffers {c' : Cache} {waits waits' : Option (Nat × Nat)} (changed : Changes c waits c' waits') :
    c'.nrBuffers = c.nrBuffers := by
  rcases changed.linkedAs with same | ⟨bh, dev, block, -, -, -, -, rfl⟩
  · exact same.nrBuffers
  · exact c.take_nrBuffers bh dev block

section Machine

variable {driver : Nat → Bool}

theorem Moves.heads_inside {c c' : Cache} {proc proc' : Process} (linked : c.WellLinked)
    (moved : Moves driver c proc c' proc') (inside : ∀ h ∈ proc.heads, h < c.nrBuffers) :
    ∀ h ∈ proc'.heads, h < c.nrBuffers := by
  have ofStack : ∀ {control : Control} {stack : List Caller},
      (∀ h ∈ (⟨control, stack⟩ : Process).heads, h < c.nrBuffers) →
      ∀ h ∈ stackHeads stack, h < c.nrBuffers :=
    fun all h member => all h (List.mem_append_right _ member)
  cases moved with
  | hit found =>
    have := (linked.findBuffer_some found).1
    simp_all [Process.heads, Control.heads]
  | pick missing found =>
    have := linked.scanFree_inside found
    simp_all [Process.heads, Control.heads, stackHeads, Caller.heads]
  | submit submitted | syncDevWrite submitted =>
    intro h member
    rcases List.mem_append.mp member with here | below
    · exact inside h (List.mem_append_left _ (submitted.heads here))
    · exact ofStack inside h below
  | sysSyncWrite here submitted =>
    intro h member
    rcases List.mem_append.mp member with top | below
    · rw [List.mem_singleton.mp (submitted.heads top)]
      exact here
    · exact ofStack inside h below
  | callBrelse holds =>
    intro h member
    simp only [Process.heads, Control.heads, stackHeads, Caller.heads, List.mem_append,
      List.mem_singleton] at member inside
    rcases member with rfl | held | below
    · exact inside h (.inl holds)
    · exact inside h (.inl (List.mem_of_mem_erase held))
    · exact inside h (.inr below)
  | toNull why =>
    simp_all [Process.heads, Control.heads, stackHeads, Caller.heads, Value.heads]
  | syncDevVisit below =>
    intro h member
    rcases List.mem_cons.mp member with rfl | held
    · exact below
    · exact ofStack inside h held
  | _ =>
    -- what is held has been held before
    intro h member
    refine inside h ?_
    simp only [Process.heads, Control.heads, stackHeads, Caller.heads, Value.heads, List.mem_append, List.mem_cons,
      List.nil_append, List.not_mem_nil, or_false] at member ⊢
    try tauto

theorem Moves.wellLinked {c c' : Cache} {proc proc' : Process} (linked : c.WellLinked)
    (moved : Moves driver c proc c' proc') (inside : ∀ h ∈ proc.heads, h < c.nrBuffers) :
    c'.WellLinked := by
  cases moved with
  | victimTake unlocked unused clean absent =>
    exact linked.take (inside _ (by simp [Process.heads, Control.heads])) absent
  | submit submitted | syncDevWrite submitted | sysSyncWrite here submitted =>
    exact linked.of_linkedAs submitted.linkedAs
  | _ => exact linked.of_linkedAs ⟨rfl, rfl, rfl, rfl, rfl, rfl, rfl, rfl, rfl⟩

structure System.Linked (n : Nat) (s : System) : Prop where
  nrBuffers : s.cache.nrBuffers = n
  wellLinked : s.cache.WellLinked
  inside : ∀ p, ∀ h ∈ (s.process p).heads, h < s.cache.nrBuffers

theorem System.linked_init {n : Nat} (positive : 0 < n) (blocknr : Nat → Nat) (data : Nat → Block)
    (disk : Nat → Nat → Block) : (System.init (.init n blocknr data disk)).Linked n where
  nrBuffers := rfl
  wellLinked := Cache.wellLinked_init positive blocknr data disk
  inside := fun p h member => by
    simp [System.init, Process.heads, Control.heads, stackHeads] at member

theorem System.Linked.step {n : Nat} {s s' : System} {m : Move} (linked : s.Linked n)
    (moved : s.step driver m = some s') : s'.Linked n := by
  have inside := linked.inside
  obtain ⟨_, _, changed⟩ := step_changes inside moved
  refine ⟨changed.nrBuffers.trans linked.nrBuffers, ?_, ?_⟩
  · rcases System.step_cases moved with ⟨p, proc, moves, _⟩ | ⟨line, _, rfl⟩
    · exact moves.wellLinked linked.wellLinked (inside p)
    · exact linked.wellLinked.of_linkedAs (Cache.endRequest_linkedAs _ _)
  · rw [changed.nrBuffers]
    exact System.step_forall moved inside fun p proc moves =>
      moves.heads_inside linked.wellLinked (inside p)

theorem System.linked_of_reachable {n : Nat} (positive : 0 < n) {blocknr : Nat → Nat}
    {data : Nat → Block} {disk : Nat → Nat → Block} {s : System}
    (reached : Reachable (System.step driver) (.init (.init n blocknr data disk)) s) : s.Linked n :=
  reached.invariant (fun linked _ moved => linked.step moved) (System.linked_init positive _ _ _)

/-- In every state that any interleaving reaches from `buffer_init` on, the
free list is a circle of all heads, the hash chains hold exactly the heads with
a device, and no two of these have the same device and block. -/
theorem wellLinked_of_reachable {n : Nat} (positive : 0 < n) {blocknr : Nat → Nat}
    {data : Nat → Block} {disk : Nat → Nat → Block} {s : System}
    (reached : Reachable (System.step driver) (.init (.init n blocknr data disk)) s) :
    s.cache.WellLinked ∧ s.cache.nrBuffers = n :=
  ⟨(System.linked_of_reachable positive reached).wellLinked, (System.linked_of_reachable positive reached).nrBuffers⟩

end Machine

theorem wellLinked_of_reachable_getblk :
    ∃ s, run (System.step fun _ => true)
        (.init (.init 2 (fun _ => 0) (fun _ => .zero) fun _ _ => .zero))
        (.begin 0 (.getblk 0x300 5) :: List.replicate 5 (.advance 0)) = some s ∧
      (s.cache.dev 0 = 0x300 ∧ (s.process 0).control = .user [0]) ∧ s.cache.WellLinked := by
  exact exists_run (fun s => s.cache.dev 0 = 0x300 ∧ (s.process 0).control = .user [0]) (by decide +kernel)
    fun s ran shape => ⟨shape, (wellLinked_of_reachable (by decide) (reachable_of_run ran)).1⟩

end Linux012.Fs

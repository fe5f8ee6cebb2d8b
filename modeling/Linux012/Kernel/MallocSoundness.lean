import Linux012.Kernel.MallocPages

/-! The allocator never fails while frames are left: its objects lie apart, its
descriptors count them, and a page is returned with its last object. -/

set_option autoImplicit false

namespace Linux012.Kernel.Malloc

open ByteMemory Links Slots Transition List

structure Good (h : Heap) (live : List Object) (used spare : List Nat) : Prop where
  layout : Layout h live used spare
  occupied : ∀ d ∈ used, (h.desc d).refcnt ≠ 0

section Calls

variable {h h' : Heap} {live : List Object} {used spare : List Nat}

theorem Good.take (layout : Layout h live used spare) {d len : Nat} (member : d ∈ used)
    (occupied : ∀ x ∈ used, x ≠ d → (h.desc x).refcnt ≠ 0)
    (free : (h.desc d).freeptr.isSome) (fits : bucketSizes.find? (len ≤ ·) = some (h.desc d).bucketSize) :
    ∃ a h', h.takeObject d = .ok (a, h') ∧ Good h' (⟨a, len⟩ :: live) used spare ∧ h'.freed = h.freed := by
  obtain ⟨a, isFree⟩ := Option.isSome_iff_exists.mp free
  obtain ⟨h', took, layout', freed, others, counted⟩ := layout.take member isFree fits
  refine ⟨a, h', took, ⟨layout', fun x isUsed => ?_⟩, freed⟩
  by_cases now : x = d
  · exact now ▸ counted
  · rw [others x now]
    exact occupied x isUsed now

theorem Good.malloc (good : Good h live used spare) {len : Nat} {supply : List Nat} (small : len ≤ PAGE_SIZE)
    (unused : Unused h supply) :
    ∃ a h' used' spare', { h with supply }.malloc len = .ok (a, h') ∧
      Good h' (⟨a, len⟩ :: live) used' spare' ∧ h'.freed = h.freed := by
  let start : Heap := { h with supply }
  have layout : Layout start live used spare := good.layout.supply supply
  obtain ⟨size, fits⟩ : ∃ size, bucketSizes.find? (len ≤ ·) = some size :=
    Option.isSome_iff_exists.mp (find?_isSome.mpr ⟨4096, by decide, decide_eq_true small⟩)
  have sized : size ∈ bucketSizes := mem_of_find?_eq_some fits
  obtain ⟨found, search, spec⟩ := findFree_total (layout.chains size) (layout.chain_length size)
  simp only [Heap.malloc, fits]
  rw [search]
  cases found with
  | some d =>
    obtain ⟨onChain, free⟩ := spec d rfl
    obtain ⟨isUsed, bucketSize⟩ : d ∈ used ∧ (start.desc d).bucketSize = size := by simpa using onChain
    obtain ⟨a, h', took, good', freed⟩ := Good.take layout isUsed
      (fun x isUsed _ => good.occupied x isUsed) free (bucketSize ▸ fits)
    exact ⟨a, h', used, spare, took, good', freed⟩
  | none =>
    obtain ⟨d, h₁, spare', opened, layout₁, free, bucketSize, freed₁, same⟩ := good.layout.newBucket sized unused
    have occupied : ∀ x ∈ d :: used, x ≠ d → (h₁.desc x).refcnt ≠ 0 := by
      intro x isUsed other
      have before := (mem_cons.mp isUsed).resolve_left other
      rw [same x before]
      exact good.occupied x before
    obtain ⟨a, h', took, good', freed⟩ := Good.take layout₁ mem_cons_self occupied free (bucketSize ▸ fits)
    refine ⟨a, h', d :: used, spare', ?_, good', freed.trans freed₁⟩
    have afterwards (opened' : Nat × Heap) : Except.ok opened' >>= (fun opened : Nat × Heap =>
        opened.2.takeObject opened.1) = opened'.2.takeObject opened'.1 := rfl
    show (Heap.newBucket _ size >>= fun opened => opened.2.takeObject opened.1) = _
    rw [opened, afterwards]
    exact took

theorem Good.freeS (good : Good h live used spare) {o : Object} {size : Nat} (isLive : o ∈ live)
    (known : size = 0 ∨ size = o.len) :
    ∃ h' used' spare', h.freeS o.address size = .ok h' ∧ Good h' (live.erase o) used' spare' ∧
      h'.freed = if objectsOn (live.erase o) (pageOf o.address) = [] then pageOf o.address :: h.freed
        else h.freed := by
  have layout := good.layout.objects_perm (perm_cons_erase isLive)
  obtain ⟨d, member, home⟩ := layout.home o mem_cons_self
  have on : o ∈ objectsOn (o :: live.erase o) (h.desc d).page := mem_objectsOn.mpr ⟨mem_cons_self, home.symm⟩
  have room : o.len ≤ (h.desc d).bucketSize := by
    simpa using find?_some ((layout.bucket d member).fits o on)
  have notSkipped : size ≤ (h.desc d).bucketSize := by omega
  obtain ⟨front, back, split⟩ :
      ∃ front back, used.filter (fun x => (h.desc x).bucketSize = (h.desc d).bucketSize) = front ++ d :: back :=
    append_of_mem (mem_filter.mpr ⟨member, decide_eq_true rfl⟩)
  have found := layout.searchBuckets member notSkipped split (layout.bucket d member).sized
  obtain ⟨given, count⟩ := layout.give member home.symm
  have shape := sameShape_giveBack h d o.address
  rw [← home]
  simp only [Heap.freeS]
  rw [← home, found]
  by_cases last : objectsOn (live.erase o) (h.desc d).page = []
  · rw [last] at count
    have empty : objectsOn (live.erase o) ((h.giveBack d o.address).desc d).page = [] := by
      rw [shape.page]
      exact last
    have split' : used.filter (fun x => ((h.giveBack d o.address).desc x).bucketSize =
        ((h.giveBack d o.address).desc d).bucketSize) = front ++ d :: back := by
      simp only [shape.bucketSize]
      exact split
    obtain ⟨h', unlinked, layout', freed, counts⟩ := given.retire member empty split'
    refine ⟨h'.retire d, _, _, ?_, ⟨layout', fun x isUsed => ?_⟩, ?_⟩
    · rw [shape.bucketSize] at unlinked
      have zero : ((h.giveBack d o.address).desc d).refcnt = 0 := count
      show (if ((h.giveBack d o.address).desc d).refcnt = 0 then _ else _) = _
      rw [if_pos zero, unlinked]
      rfl
    · obtain ⟨isUsed', other⟩ : x ∈ used ∧ x ≠ d := by simpa using isUsed
      rw [counts, h.giveBack_of_ne o.address other]
      exact good.occupied x isUsed'
    · rw [if_pos last, freed, shape.page]
      rfl
  · refine ⟨h.giveBack d o.address, used, spare, ?_, ⟨given, fun x isUsed => ?_⟩, ?_⟩
    · have nonzero : ((h.giveBack d o.address).desc d).refcnt ≠ 0 := by
        rw [count]
        exact fun zero => last (length_eq_zero_iff.mp zero)
      exact if_neg nonzero
    · by_cases now : x = d
      · subst now
        rw [count]
        exact fun zero => last (length_eq_zero_iff.mp zero)
      · rw [h.giveBack_of_ne o.address now]
        exact good.occupied x isUsed
    · rw [if_neg last]
      rfl

end Calls

/-! ## Soundness -/

def Object.room (o : Object) : Nat := (bucketSizes.find? (o.len ≤ ·)).getD 0

def Object.Apart (o o' : Object) : Prop := o.address + o.room ≤ o'.address ∨ o'.address + o'.room ≤ o.address

def Chained (h : Heap) (link : Option Nat) (d : Nat) : Prop := ∃ l, Follows h.next link l ∧ l.Nodup ∧ d ∈ l

inductive Place where
  | bucket (size : Nat)
  | free

def Heap.At (h : Heap) (d : Nat) : Place → Prop
  | .bucket size => size ∈ bucketSizes ∧ Chained h (h.chain size) d
  | .free => Chained h h.freeBucketDesc d

structure Sound (s : State) : Prop where
  apart : s.live.Pairwise Object.Apart
  roomy : ∀ o ∈ s.live, o.len ≤ o.room ∧ o.address + o.room ≤ pageOf o.address + PAGE_SIZE
  owned : ∀ o ∈ s.live, pageOf o.address ∈ s.heap.held ∧ pageOf o.address ∉ s.heap.descPages
  counted : ∀ size d, s.heap.At d (.bucket size) →
    (s.heap.desc d).refcnt = (objectsOn s.live (s.heap.desc d).page).length
  free : ∀ size d, s.heap.At d (.bucket size) →
    ∃ free, Follows (nextObject s.heap.memory) (s.heap.desc d).freeptr free ∧ free.Nodup ∧
      ∀ a, a ∈ free ↔ a ∈ objectSlots (s.heap.desc d).page size ∧ ∀ o ∈ s.live, o.address ≠ a
  located : ∀ d ∈ descriptors s.heap.descPages, ∃! place, s.heap.At d place
  known : ∀ d place, s.heap.At d place → d ∈ descriptors s.heap.descPages
  kept : ∀ page ∈ s.heap.held, page ∈ s.heap.descPages ∨ ∃ o ∈ s.live, pageOf o.address = page

/-- `free_page` gets the page of an object that was the last one on it, and no other. -/
def Returned (s : State) (m : Move) (s' : State) : Prop :=
  s'.heap.freed = match m with
    | .freeS o _ =>
      if objectsOn (s.live.erase o) (pageOf o.address) = [] then pageOf o.address :: s.heap.freed
      else s.heap.freed
    | .malloc .. | .store .. => s.heap.freed

section Sound

variable {h : Heap} {live : List Object} {used spare : List Nat} {d size : Nat} {o o' : Object}

namespace Layout

theorem room_eq (layout : Layout h live used spare) (member : d ∈ used)
    (on : o ∈ objectsOn live (h.desc d).page) : o.room = (h.desc d).bucketSize ∧ o.len ≤ o.room := by
  have fits := (layout.bucket d member).fits o on
  have room : o.room = (h.desc d).bucketSize := by rw [Object.room, fits, Option.getD_some]
  exact ⟨room, by simpa [room] using find?_some fits⟩

theorem place (layout : Layout h live used spare) (isLive : o ∈ live) :
    ∃ d ∈ used, (h.desc d).page = pageOf o.address ∧ o ∈ objectsOn live (h.desc d).page ∧
      IsSlot (h.desc d).page o.room o.address := by
  obtain ⟨d, member, home⟩ := layout.home o isLive
  have on : o ∈ objectsOn live (h.desc d).page := mem_objectsOn.mpr ⟨isLive, home.symm⟩
  refine ⟨d, member, home, on, ?_⟩
  rw [(layout.room_eq member on).1]
  exact isSlot (layout.page_frame member) (isSize (layout.bucket d member).sized) (layout.slot_of_live member on)

theorem apart (layout : Layout h live used spare) : live.Pairwise Object.Apart := by
  refine pairwise_iff_forall_sublist.mpr fun {o o'} both => ?_
  have isLive : o ∈ live := both.subset mem_cons_self
  have isLive' : o' ∈ live := both.subset (mem_cons_of_mem o mem_cons_self)
  obtain ⟨d, member, home, on, slot⟩ := layout.place isLive
  obtain ⟨d', member', home', on', slot'⟩ := layout.place isLive'
  by_cases same : d' = d
  · subst same
    have pair : [o, o'].Sublist (objectsOn live (h.desc d').page) := by
      have kept := both.filter fun o => pageOf o.address = (h.desc d').page
      rwa [filter_eq_self.mpr (by simp [(mem_objectsOn.mp on).2, (mem_objectsOn.mp on').2])] at kept
    obtain ⟨free, -, places⟩ := (layout.bucket d' member').free
    have sized := isSize (layout.bucket d' member').sized
    have nodup := (nodup_append.mp (places.nodup_iff.mpr (objectSlots_nodup sized))).2.1
    have differ : o.address ≠ o'.address := by
      have distinct := (pair.map Object.address).nodup nodup
      simpa using distinct
    have apart := slots_apart (layout.slot_of_live member' on) (layout.slot_of_live member' on') differ
    rw [Object.Apart, (layout.room_eq member' on).1, (layout.room_eq member' on').1]
    exact apart
  · have differ : (h.desc d).page ≠ (h.desc d').page := fun eq => same (layout.page_inj member' member eq.symm)
    have frame := (layout.page_frame member).2.1
    have frame' := (layout.page_frame member').2.1
    have first := slot.above
    have last := slot.below
    have first' := slot'.above
    have last' := slot'.below
    unfold PAGE_SIZE at *
    rw [Object.Apart]
    omega

theorem bucket_of_at (layout : Layout h live used spare) (isAt : h.At d (.bucket size)) :
    d ∈ used ∧ (h.desc d).bucketSize = size := by
  obtain ⟨-, chain, follows, -, member⟩ := isAt
  rw [follows.unique (layout.chains size)] at member
  simpa using member

theorem spare_of_at (layout : Layout h live used spare) (isAt : h.At d .free) : d ∈ spare := by
  obtain ⟨chain, follows, -, member⟩ := isAt
  rwa [follows.unique layout.spareChain] at member

theorem located (layout : Layout h live used spare) (known : d ∈ Malloc.descriptors h.descPages) :
    ∃! place, h.At d place := by
  have distinct := nodup_append.mp layout.nodup_descriptors
  rcases mem_append.mp (layout.descriptors.mem_iff.mpr known) with isUsed | isSpare
  · have onChain : d ∈ used.filter fun x => (h.desc x).bucketSize = (h.desc d).bucketSize :=
      mem_filter.mpr ⟨isUsed, decide_eq_true rfl⟩
    refine ⟨.bucket (h.desc d).bucketSize, ⟨(layout.bucket d isUsed).sized, _, layout.chains _,
      distinct.1.filter _, onChain⟩, fun place isAt => ?_⟩
    cases place with
    | bucket size => rw [(layout.bucket_of_at isAt).2]
    | free => exact absurd rfl (distinct.2.2 d isUsed d (layout.spare_of_at isAt))
  · refine ⟨.free, ⟨spare, layout.spareChain, distinct.2.1, isSpare⟩, fun place isAt => ?_⟩
    cases place with
    | bucket size => exact absurd rfl (distinct.2.2 d (layout.bucket_of_at isAt).1 d isSpare)
    | free => rfl

theorem known (layout : Layout h live used spare) {place : Place} (isAt : h.At d place) :
    d ∈ Malloc.descriptors h.descPages := by
  refine layout.descriptors.mem_iff.mp ?_
  cases place with
  | bucket size => exact mem_append_left spare (layout.bucket_of_at isAt).1
  | free => exact mem_append_right used (layout.spare_of_at isAt)

theorem free (layout : Layout h live used spare) (member : d ∈ used) :
    ∃ free, Follows (nextObject h.memory) (h.desc d).freeptr free ∧ free.Nodup ∧
      ∀ a, a ∈ free ↔ a ∈ objectSlots (h.desc d).page (h.desc d).bucketSize ∧ ∀ o ∈ live, o.address ≠ a := by
  have sized := isSize (layout.bucket d member).sized
  obtain ⟨free, follows, places⟩ := (layout.bucket d member).free
  have nodup := nodup_append.mp (places.nodup_iff.mpr (objectSlots_nodup sized))
  refine ⟨free, follows, nodup.1, fun a => ⟨fun isFree => ?_, fun ⟨isPlace, notLive⟩ => ?_⟩⟩
  · have isPlace := places.mem_iff.mp (mem_append_left _ isFree)
    refine ⟨isPlace, fun o isLive same => ?_⟩
    have slot := isSlot (layout.page_frame member) sized isPlace
    have onPage : pageOf a = (h.desc d).page :=
      slot.page_eq sized (layout.page_frame member) (Nat.le_refl a) (by omega)
    have on : o ∈ objectsOn live (h.desc d).page := mem_objectsOn.mpr ⟨isLive, same ▸ onPage⟩
    exact nodup.2.2 a isFree o.address (mem_map_of_mem on) same.symm
  · rcases mem_append.mp (places.mem_iff.mpr isPlace) with isFree | isObject
    · exact isFree
    · obtain ⟨o, on, same⟩ := mem_map.mp isObject
      exact absurd same (notLive o (mem_objectsOn.mp on).1)

end Layout

theorem Good.sound (good : Good h live used spare) : Sound ⟨h, live⟩ := by
  have layout := good.layout
  have pagesNodup := nodup_append.mp (layout.pages.nodup_iff.mpr layout.nodup)
  refine
    { apart := layout.apart
      roomy := fun o isLive => ?_
      owned := fun o isLive => ?_
      counted := fun size d isAt => ?_
      free := fun size d isAt => ?_
      located := fun d => layout.located
      known := fun d place => layout.known
      kept := fun page isHeld => ?_ }
  · obtain ⟨d, member, home, on, slot⟩ := layout.place isLive
    exact ⟨(layout.room_eq member on).2, home ▸ slot.below⟩
  · obtain ⟨d, member, home, -, -⟩ := layout.place isLive
    rw [← home]
    exact ⟨layout.page_mem member, fun isDesc =>
      pagesNodup.2.2 _ (mem_map_of_mem member) _ isDesc rfl⟩
  · exact (layout.bucket d (layout.bucket_of_at isAt).1).refcnt
  · obtain ⟨member, bucketSize⟩ := layout.bucket_of_at isAt
    exact bucketSize ▸ layout.free member
  · rcases mem_append.mp (layout.pages.mem_iff.mpr isHeld) with isUsed | isDesc
    · obtain ⟨d, member, rfl⟩ := mem_map.mp isUsed
      obtain ⟨o, on⟩ : ∃ o, o ∈ objectsOn live (h.desc d).page := by
        refine exists_mem_of_length_pos (Nat.pos_of_ne_zero ?_)
        rw [← (layout.bucket d member).refcnt]
        exact good.occupied d member
      exact .inr ⟨o, (mem_objectsOn.mp on).1, (mem_objectsOn.mp on).2⟩
    · exact .inl isDesc

end Sound

/-! ## Runs -/

theorem Good.step {s : State} {used spare : List Nat} (good : Good s.heap s.live used spare) {m : Move}
    (allowed : Allowed s m) :
    ∃ s' used' spare', step s m = .ok s' ∧ Good s'.heap s'.live used' spare' ∧ Returned s m s' := by
  cases m with
  | malloc len supply =>
    obtain ⟨a, h', used', spare', done, good', freed⟩ := good.malloc allowed.1 allowed.2
    refine ⟨⟨h', ⟨a, len⟩ :: s.live⟩, used', spare', ?_, good', freed⟩
    rw [Malloc.step, done]
    rfl
  | freeS o size =>
    obtain ⟨h', used', spare', done, good', freed⟩ := good.freeS allowed.1 allowed.2
    refine ⟨⟨h', s.live.erase o⟩, used', spare', ?_, good', freed⟩
    rw [Malloc.step, done]
    rfl
  | store a byte => exact ⟨_, used, spare, rfl, ⟨good.layout.store allowed, good.occupied⟩, rfl⟩

theorem boot_good (memory : Memory) : Good (boot memory).heap (boot memory).live [] [] :=
  { layout :=
      { chains := fun _ => rfl
        spareChain := rfl
        bucket := by simp
        home := by simp [boot]
        descriptors := by simp [boot, descriptors]
        pages := by simp [boot]
        nodup := by simp [boot]
        frames := by simp [boot] }
    occupied := by simp }

def State.Good (s : State) : Prop := ∃ used spare, Malloc.Good s.heap s.live used spare

theorem Reached.good {memory : Memory} {s : State} (reached : Reached memory s) : s.Good := by
  refine Run.invariant (fun holds allowed moved => ?_) ⟨[], [], boot_good memory⟩ reached
  obtain ⟨used, spare, good⟩ := holds
  obtain ⟨next, used', spare', stepped, good', -⟩ := good.step allowed
  rw [stepped] at moved
  cases moved
  exact ⟨used', spare', good'⟩

theorem allocator_sound {memory : Memory} {s : State} (reached : Reached memory s) :
    Sound s ∧ ∀ m, Allowed s m → ∃ s', step s m = .ok s' ∧ Returned s m s' := by
  obtain ⟨used, spare, good⟩ := reached.good
  refine ⟨good.sound, fun m allowed => ?_⟩
  obtain ⟨s', -, -, stepped, -, returned⟩ := good.step allowed
  exact ⟨s', stepped, returned⟩

theorem first_object_sound :
    ∃ s, step (boot fun _ => 0) (.malloc 100 [4096, 8192]) = .ok s ∧ Sound s := by
  have unused : Unused (boot fun _ => 0).heap [4096, 8192] :=
    { enough := by simp
      nodup := by simp
      frame := by simp [IsFrame, PAGE_SIZE]
      unused := by simp [boot] }
  have allowed : Allowed (boot fun _ => 0) (.malloc 100 [4096, 8192]) := ⟨by decide, unused⟩
  obtain ⟨s, stepped, -⟩ := (allocator_sound (.start : Reached (fun _ => 0) _)).2 _ allowed
  have moved : (step (boot fun _ => 0) (.malloc 100 [4096, 8192])).toOption = some s := by
    rw [stepped]
    rfl
  have reached : Reached (fun _ => 0) s := .move .start allowed moved
  exact ⟨s, stepped, (allocator_sound reached).1⟩

end Linux012.Kernel.Malloc

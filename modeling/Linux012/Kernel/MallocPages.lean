import Linux012.Kernel.MallocLayout

/-! How the allocator finds the descriptor of a page, and how pages come and go. -/

set_option autoImplicit false

namespace Linux012.Kernel.Malloc

open ByteMemory Links Slots List
open Function (update update_of_ne update_self)

variable {h h' : Heap} {live : List Object} {used spare front back : List Nat} {d page size a : Nat}
  {link : Option Nat}

/-! ## Searching -/

variable {fuel : Nat}

theorem findFree_total {l : List Nat} (follows : Follows h.next link l) (enough : l.length ≤ fuel) :
    ∃ found, h.findFree fuel link = .ok found ∧ ∀ d, found = some d → d ∈ l ∧ (h.desc d).freeptr.isSome := by
  induction l generalizing link fuel with
  | nil =>
    refine ⟨none, ?_, fun d found => absurd found (by simp)⟩
    rw [follows_nil.mp follows]
    cases fuel <;> rfl
  | cons x rest ih =>
    obtain ⟨fuel, rfl⟩ : ∃ less, fuel = less + 1 := ⟨fuel - 1, by simp at enough; omega⟩
    rw [follows.1, Heap.findFree]
    by_cases free : (h.desc x).freeptr.isSome = true
    · refine ⟨some x, if_pos free, fun d found => ?_⟩
      cases found
      exact ⟨mem_cons_self, free⟩
    · obtain ⟨found, eq, spec⟩ := ih follows.2 (Nat.le_of_succ_le_succ enough)
      refine ⟨found, (if_neg free).trans eq, fun d isFound => ?_⟩
      exact ⟨mem_cons_of_mem x (spec d isFound).1, (spec d isFound).2⟩

theorem searchChain_absent {l : List Nat} {prev : Option Nat} (follows : Follows h.next link l)
    (absent : ∀ x ∈ l, (h.desc x).page ≠ page) (enough : l.length ≤ fuel) :
    h.searchChain page fuel prev link = .ok none := by
  induction l generalizing link fuel prev with
  | nil =>
    rw [follows_nil.mp follows]
    cases fuel <;> rfl
  | cons x rest ih =>
    obtain ⟨fuel, rfl⟩ : ∃ less, fuel = less + 1 := ⟨fuel - 1, by simp at enough; omega⟩
    rw [follows.1, Heap.searchChain, if_neg (absent x mem_cons_self)]
    exact ih follows.2 (fun y member => absent y (mem_cons_of_mem x member)) (Nat.le_of_succ_le_succ enough)

theorem searchChain_found {prev : Option Nat} (follows : Follows h.next link (front ++ d :: back))
    (found : (h.desc d).page = page) (before : ∀ x ∈ front, (h.desc x).page ≠ page)
    (enough : (front ++ d :: back).length ≤ fuel) :
    h.searchChain page fuel prev link = .ok (some (front.getLast?.or prev, d)) := by
  induction front generalizing link fuel prev with
  | nil =>
    obtain ⟨fuel, rfl⟩ : ∃ less, fuel = less + 1 := ⟨fuel - 1, by simp at enough; omega⟩
    rw [follows.1, Heap.searchChain, if_pos found]
    rfl
  | cons x front ih =>
    obtain ⟨fuel, rfl⟩ : ∃ less, fuel = less + 1 := ⟨fuel - 1, by simp at enough; omega⟩
    have last : (x :: front).getLast?.or prev = front.getLast?.or (some x) := by
      rw [getLast?_cons]
      cases front.getLast? <;> rfl
    rw [follows.1, Heap.searchChain, if_neg (before x mem_cons_self), last]
    exact ih follows.2 (fun y member => before y (mem_cons_of_mem x member)) (Nat.le_of_succ_le_succ enough)

theorem Layout.searchBuckets (layout : Layout h live used spare) (member : d ∈ used)
    (notSkipped : size ≤ (h.desc d).bucketSize)
    (split : used.filter (fun x => (h.desc x).bucketSize = (h.desc d).bucketSize) = front ++ d :: back)
    {dirs : List Nat} (among : (h.desc d).bucketSize ∈ dirs) :
    h.searchBuckets (h.desc d).page size dirs = .ok ((h.desc d).bucketSize, front.getLast?, d) := by
  have inUsed {bdir x : Nat} (on : x ∈ used.filter fun x => (h.desc x).bucketSize = bdir) :
      x ∈ used ∧ (h.desc x).bucketSize = bdir := by simpa using on
  induction dirs with
  | nil => cases among
  | cons bdir rest ih =>
    rw [Heap.searchBuckets]
    by_cases here : bdir = (h.desc d).bucketSize
    · subst here
      have follows := layout.chains (h.desc d).bucketSize
      have enough := layout.chain_length (h.desc d).bucketSize
      have nodup : (front ++ d :: back).Nodup := split ▸ ((nodup_append.mp layout.nodup_descriptors).1).filter _
      rw [split] at follows enough
      have before : ∀ x ∈ front, (h.desc x).page ≠ (h.desc d).page := by
        intro x isBefore same
        have on : x ∈ used.filter fun y => (h.desc y).bucketSize = (h.desc d).bucketSize :=
          split ▸ mem_append_left _ isBefore
        have eq := layout.page_inj (inUsed on).1 member same
        exact (nodup_append.mp nodup).2.2 x isBefore d mem_cons_self eq
      rw [if_neg (Nat.not_lt.mpr notSkipped), searchChain_found follows rfl before enough, Option.or_none]
      rfl
    · have later : (h.desc d).bucketSize ∈ rest := by
        rcases mem_cons.mp among with same | later
        · exact absurd same.symm here
        · exact later
      by_cases skipped : bdir < size
      · rw [if_pos skipped]
        exact ih later
      · have absent : ∀ x ∈ used.filter (fun x => (h.desc x).bucketSize = bdir),
            (h.desc x).page ≠ (h.desc d).page := by
          intro x on same
          have eq := layout.page_inj (inUsed on).1 member same
          exact here ((inUsed on).2.symm.trans (by rw [eq]))
        rw [if_neg skipped, searchChain_absent (layout.chains bdir) absent (layout.chain_length bdir)]
        exact ih later

/-! ## A page goes -/

namespace Layout

theorem unlink (layout : Layout h live used spare)
    (split : used.filter (fun x => (h.desc x).bucketSize = (h.desc d).bucketSize) = front ++ d :: back) :
    ∃ next chain, h.unlink (h.desc d).bucketSize front.getLast? d = .ok (h.relink next chain) ∧
      (∀ size, Follows next (chain size) ((used.filter (· ≠ d)).filter fun x => (h.desc x).bucketSize = size)) ∧
      Follows next h.freeBucketDesc spare := by
  have follows := layout.chains (h.desc d).bucketSize
  have nodup : (front ++ d :: back).Nodup := split ▸ ((nodup_append.mp layout.nodup_descriptors).1).filter _
  have notSpare {x : Nat} (isUsed : x ∈ used) : x ∉ spare := fun isSpare =>
    (nodup_append.mp layout.nodup_descriptors).2.2 x isUsed x isSpare rfl
  have inUsed {x : Nat} (on : x ∈ front ++ d :: back) :
      x ∈ used ∧ (h.desc x).bucketSize = (h.desc d).bucketSize := by
    rw [← split] at on
    simpa using on
  -- the chains without the descriptor
  have same : (used.filter (· ≠ d)).filter (fun x => (h.desc x).bucketSize = (h.desc d).bucketSize) =
      front ++ back := by
    rw [filter_comm, split]
    have notFront : d ∉ front := fun isFront => (nodup_append.mp nodup).2.2 d isFront d mem_cons_self rfl
    have notBack : d ∉ back := (nodup_cons.mp (nodup_append.mp nodup).2.1).1
    rw [filter_append, filter_cons_of_neg (by simp), filter_eq_self.mpr, filter_eq_self.mpr]
    · exact fun x isBack => decide_eq_true fun eq : x = d => notBack (eq ▸ isBack)
    · exact fun x isFront => decide_eq_true fun eq : x = d => notFront (eq ▸ isFront)
  have other {size : Nat} (differ : size ≠ (h.desc d).bucketSize) :
      (used.filter (· ≠ d)).filter (fun x => (h.desc x).bucketSize = size) =
        used.filter fun x => (h.desc x).bucketSize = size := by
    rw [filter_comm]
    refine filter_eq_self.mpr fun x on => ?_
    have sized : (h.desc x).bucketSize = size := by simpa using (mem_filter.mp on).2
    simpa using fun eq : x = d => differ (sized.symm.trans (by rw [eq]))
  rw [split] at follows
  have leads : h.linkBehind (h.desc d).bucketSize front.getLast? = some d := follows.link_before
  rcases eq_nil_or_concat front with rfl | ⟨front, prev, rfl⟩
  · refine ⟨h.next, update h.chain (h.desc d).bucketSize (h.next d), ?_, fun size => ?_, layout.spareChain⟩
    · have first : h.chain (h.desc d).bucketSize = some d := follows.1
      simp only [Heap.unlink, leads, ne_eq, not_true_eq_false, if_false]
      exact if_neg (by simp [first])
    · by_cases here : size = (h.desc d).bucketSize
      · subst here
        rw [same, update_self]
        exact follows.2
      · rw [other here, update_of_ne here]
        exact layout.chains size
  · have isPrev := inUsed (x := prev) (by simp)
    refine ⟨update h.next prev (h.next d), h.chain, ?_, fun size => ?_, ?_⟩
    · rw [← Heap.setNext_eq_relink]
      rw [concat_eq_append, getLast?_append] at leads ⊢
      simp only [Heap.unlink, leads, ne_eq, not_true_eq_false, if_false]
      rfl
    · by_cases here : size = (h.desc d).bucketSize
      · subst here
        rw [same]
        rw [concat_eq_append, append_assoc] at follows nodup ⊢
        exact follows.unlink nodup
      · rw [other here]
        refine (layout.chains size).update fun on => here ?_
        have sized : (h.desc prev).bucketSize = size := by simpa using (mem_filter.mp on).2
        exact sized.symm.trans isPrev.2
    · exact layout.spareChain.update (notSpare isPrev.1)

theorem retire (layout : Layout h live used spare) (member : d ∈ used)
    (empty : objectsOn live (h.desc d).page = [])
    (split : used.filter (fun x => (h.desc x).bucketSize = (h.desc d).bucketSize) = front ++ d :: back) :
    ∃ h', h.unlink (h.desc d).bucketSize front.getLast? d = .ok h' ∧
      Layout (h'.retire d) live (used.filter (· ≠ d)) (d :: spare) ∧
      (h'.retire d).freed = (h.desc d).page :: h.freed ∧
      ∀ d', ((h'.retire d).desc d').refcnt = (h.desc d').refcnt := by
  obtain ⟨next, chain, unlinked, chains, spareChain⟩ := layout.unlink split
  have distinct := layout.nodup_descriptors
  have nodupUsed := (nodup_append.mp distinct).1
  have notSpare : d ∉ spare := fun isSpare => (nodup_append.mp distinct).2.2 d member d isSpare rfl
  have notLeft : d ∉ used.filter (· ≠ d) := by simp
  have rest {x : Nat} (left : x ∈ used.filter (· ≠ d)) : x ∈ used ∧ x ≠ d := by simpa using left
  have taken : used.Perm (d :: used.filter (· ≠ d)) := by
    have left : used.erase d = used.filter (· ≠ d) :=
      (nodupUsed.erase_eq_filter d).trans (filter_congr fun x _ => by rw [Bool.eq_iff_iff]; simp)
    exact left ▸ perm_cons_erase member
  have pages : (((used.filter (· ≠ d)).map fun x => (h.desc x).page) ++ h.descPages).Perm
      (h.held.erase (h.desc d).page) := by
    have all := ((taken.map fun x => (h.desc x).page).append_right h.descPages).symm.trans layout.pages
    have fewer := all.erase (h.desc d).page
    rw [map_cons, cons_append, erase_cons_head] at fewer
    exact fewer
  let links := update next d h.freeBucketDesc
  have retired : (h.relink next chain).retire d =
      { h.relink links chain with
        held := h.held.erase (h.desc d).page
        freed := (h.desc d).page :: h.freed
        freeBucketDesc := some d } := by
    rw [Heap.retire, Heap.setNext_eq_relink]
    rfl
  refine ⟨_, unlinked, ?_, ?_, ?_⟩
  · rw [retired]
    refine
      { chains := fun size => (chains size).update fun on => notLeft (mem_filter.mp on).1
        spareChain := ⟨rfl, ?_⟩
        bucket := fun x left => ?_
        home := fun o isLive => ?_
        descriptors := ?_
        pages := pages
        nodup := layout.nodup.erase _
        frames := fun page isHeld => layout.frames page (mem_of_mem_erase isHeld) }
    · have toSpare : links d = h.freeBucketDesc := update_self ..
      have spareChain' : Follows links (links d) spare := by
        rw [toSpare]
        exact spareChain.update notSpare
      exact spareChain'
    · have bucket := layout.bucket x (rest left).1
      exact ⟨bucket.sized, bucket.refcnt, bucket.free, bucket.fits⟩
    · obtain ⟨x, isUsed, home⟩ := layout.home o isLive
      have differ : x ≠ d := by
        rintro rfl
        have on : o ∈ objectsOn live (h.desc x).page := mem_objectsOn.mpr ⟨isLive, home.symm⟩
        exact absurd (empty ▸ on) not_mem_nil
      exact ⟨x, mem_filter.mpr ⟨isUsed, decide_eq_true differ⟩, home⟩
    · exact (perm_middle.trans (taken.symm.append_right spare)).trans layout.descriptors
  · rw [retired]
  · rw [retired]
    exact fun _ => rfl

end Layout

/-! ## A page comes -/

theorem linkDescriptors_eq (h : Heap) (last : Option Nat) (more bdesc : Nat) :
    h.linkDescriptors last more bdesc = h.relink (chainUp DESC_SIZE last more bdesc h.next) h.chain := by
  induction more generalizing bdesc h with
  | zero => exact h.setNext_eq_relink bdesc last
  | succ more ih =>
    rw [Heap.linkDescriptors, ih, Heap.setNext_eq_relink]
    rfl

variable {memory : Memory}

theorem linkObjects_of_outside {more cp x : Nat} (outside : x < cp ∨ cp + size * (more + 1) ≤ x)
    (word : 4 ≤ size) : Heap.linkObjects size more cp memory x = memory x := by
  induction more generalizing cp memory with
  | zero => exact putLong_of_outside memory (by omega)
  | succ more ih =>
    rw [Nat.mul_succ] at outside
    rw [Heap.linkObjects, ih (by omega)]
    exact putLong_of_outside memory (by rw [Nat.mul_succ] at outside; omega)

theorem nextObject_putLong {cp value : Nat} (unit : 16 ∣ a) (unit' : 16 ∣ cp) (fits : value < 2 ^ 32) :
    nextObject (putLong memory cp value) a = update (nextObject memory) cp (pointer value) a := by
  by_cases now : a = cp
  · subst now
    rw [nextObject, getLong_putLong_self memory a fits, update_self]
  · rw [update_of_ne now]
    refine nextObject_congr fun x above below => putLong_of_outside memory ?_
    omega

theorem nextObject_linkObjects {more cp : Nat} (unit : 16 ∣ a) (unit' : 16 ∣ cp) (sized : IsSize size)
    (positive : 0 < cp) (fits : cp + size * (more + 1) ≤ 2 ^ 32) :
    nextObject (Heap.linkObjects size more cp memory) a = chainUp size none more cp (nextObject memory) a := by
  induction more generalizing cp memory with
  | zero => exact nextObject_putLong unit unit' (by decide)
  | succ more ih =>
    rw [Nat.mul_succ, Nat.mul_succ] at fits
    have later : cp + size + size * (more + 1) ≤ 2 ^ 32 := by
      rw [Nat.mul_succ]
      omega
    rw [Heap.linkObjects, ih (Nat.dvd_add unit' sized.unit) (by omega) later, chainUp]
    refine chainUp_congr ?_
    have link : pointer (cp + size) = some (cp + size) := if_neg (by omega)
    rw [← link]
    have below := sized.positive
    exact nextObject_putLong unit unit' (by omega)

namespace Layout

theorem notMem_of_fresh (layout : Layout h live used spare) (frame : IsFrame page) (fresh : page ∉ h.held) {x : Nat}
    (member : x ∈ used ++ spare) : x ∉ slots page (PAGE_SIZE / DESC_SIZE) DESC_SIZE ∧
      ¬(page ≤ x ∧ x < page + PAGE_SIZE) := by
  have whole : DESC_SIZE * (PAGE_SIZE / DESC_SIZE) = PAGE_SIZE := by decide
  have unit : 0 < DESC_SIZE := by decide
  have outside : ¬(page ≤ x ∧ x < page + PAGE_SIZE) := by
    intro ⟨above, below⟩
    obtain ⟨page', isDescPage, isSlot⟩ := mem_flatMap.mp (layout.descriptors.mem_iff.mp member)
    have isHeld : page' ∈ h.held := layout.pages.mem_iff.mp (mem_append_right _ isDescPage)
    have within := slot_within isSlot
    rw [whole] at within
    have one := pageOf_eq (layout.frames page' isHeld) within.1 (by omega)
    have other := pageOf_eq frame above below
    exact fresh (other.symm.trans one ▸ isHeld)
  refine ⟨fun isSlot => outside ?_, outside⟩
  have within := slot_within isSlot
  rw [whole] at within
  exact ⟨within.1, by omega⟩

theorem page_ne_of_fresh (layout : Layout h live used spare) (fresh : page ∉ h.held) (member : d ∈ used) :
    (h.desc d).page ≠ page :=
  fun same => fresh (same ▸ layout.page_mem member)

theorem clearPage_of_page_ne {memory : Memory} (frame : IsFrame page) {x : Nat} (other : pageOf x ≠ page) :
    clearPage memory page x = memory x :=
  if_neg fun within => other (pageOf_eq frame within.1 within.2)

theorem objectsOn_of_fresh (layout : Layout h live used spare) (fresh : page ∉ h.held) :
    objectsOn live page = [] := by
  refine filter_eq_nil_iff.mpr fun o isLive onPage => ?_
  obtain ⟨x, isUsed, home⟩ := layout.home o isLive
  exact layout.page_ne_of_fresh fresh isUsed (home.trans (of_decide_eq_true onPage))

theorem initBucketDesc (layout : Layout h live used []) {rest : List Nat} (supply : h.supply = page :: rest)
    (frame : IsFrame page) (fresh : page ∉ h.held) :
    ∃ h' spare, h.initBucketDesc = .ok (page, h') ∧ Layout h' live used (page :: spare) ∧ h'.supply = rest ∧
      h'.held = page :: h.held ∧ h'.freed = h.freed ∧ ∀ d ∈ used, h'.desc d = h.desc d := by
  have noSpare : h.freeBucketDesc = none := layout.spareChain
  let cleared : Heap := Heap.clearDescriptors
    { h with supply := rest, held := page :: h.held, memory := clearPage h.memory page } page
  obtain ⟨more, count⟩ : ∃ more, PAGE_SIZE / DESC_SIZE = more + 1 := ⟨255, by decide⟩
  let links := chainUp DESC_SIZE none more page cleared.next
  let h' : Heap := { cleared.relink links h.chain with freeBucketDesc := some page, descPages := page :: h.descPages }
  have done : h.initBucketDesc = .ok (page, h') := by
    simp only [Heap.initBucketDesc, Heap.getFreePage, supply, linkDescriptors_eq, count, Nat.add_sub_cancel]
    rw [noSpare]
    rfl
  have old {x : Nat} (isUsed : x ∈ used) := layout.notMem_of_fresh frame fresh (mem_append_left [] isUsed)
  have desc {x : Nat} (isUsed : x ∈ used) : cleared.desc x = h.desc x := if_neg (old isUsed).2
  have link {x : Nat} (isUsed : x ∈ used) : links x = h.next x := by
    have same : links x = cleared.next x := chainUp_of_notMem (count ▸ (old isUsed).1)
    rw [same, Heap.next, desc isUsed, Heap.next]
  have same {x : Nat} (isUsed : x ∈ used) : h'.desc x = h.desc x := by
    have relinked : h'.desc x = { cleared.desc x with next := links x } := rfl
    rw [relinked, desc isUsed, link isUsed]
    rfl
  have slots' : slots page (PAGE_SIZE / DESC_SIZE) DESC_SIZE =
      page :: slots (page + DESC_SIZE) more DESC_SIZE := by
    rw [count, slots_succ]
  refine ⟨h', slots (page + DESC_SIZE) more DESC_SIZE, done, ?_, rfl, rfl, rfl, fun _ => same⟩
  refine
    { chains := fun size => ?_
      spareChain := ?_
      bucket := fun x isUsed => ?_
      home := fun o isLive => ?_
      descriptors := ?_
      pages := ?_
      nodup := nodup_cons.mpr ⟨fresh, layout.nodup⟩
      frames := ?_ }
  · have sameSize : used.filter (fun x => (h'.desc x).bucketSize = size) =
        used.filter fun x => (h.desc x).bucketSize = size :=
      filter_congr fun x isUsed => by rw [same isUsed]
    rw [sameSize]
    exact (layout.chains size).congr fun x on => link (mem_filter.mp on).1
  · have all : Follows links (some page) (slots page (more + 1) DESC_SIZE ++ []) :=
      follows_chainUp (by decide) (follows_nil.mpr rfl) (by simp)
    rw [append_nil, slots_succ] at all
    exact all
  · rw [same isUsed]
    refine (layout.bucket x isUsed).congr (layout.page_frame isUsed) (same isUsed) fun a onPage => ?_
    exact clearPage_of_page_ne frame fun isNew => layout.page_ne_of_fresh fresh isUsed (onPage.symm.trans isNew)
  · obtain ⟨x, isUsed, home⟩ := layout.home o isLive
    exact ⟨x, isUsed, by rw [same isUsed]; exact home⟩
  · have before := layout.descriptors
    rw [append_nil] at before
    rw [← slots']
    exact perm_append_comm.trans (before.append_left _)
  · have sameMap : used.map (fun x => (h'.desc x).page) = used.map fun x => (h.desc x).page :=
      map_congr_left fun x isUsed => by rw [same isUsed]
    rw [sameMap]
    exact perm_middle.trans (layout.pages.cons page)
  · intro other isHeld
    rcases mem_cons.mp isHeld with rfl | before
    · exact frame
    · exact layout.frames other before

theorem openBucket (layout : Layout h live used (d :: spare)) (sized : size ∈ bucketSizes) {rest : List Nat}
    (supply : h.supply = page :: rest) (frame : IsFrame page) (fresh : page ∉ h.held) :
    ∃ h', h.openBucket size d = .ok (d, h') ∧ Layout h' live (d :: used) spare ∧
      (h'.desc d).freeptr = some page ∧ (h'.desc d).bucketSize = size ∧ h'.freed = h.freed ∧
      ∀ x ∈ used, h'.desc x = h.desc x := by
  have isSized := isSize sized
  have distinct := layout.nodup_descriptors
  have notUsed : d ∉ used := fun isUsed =>
    (nodup_append.mp distinct).2.2 d isUsed d mem_cons_self rfl
  have notSpare : d ∉ spare := (nodup_cons.mp (nodup_append.mp distinct).2.1).1
  have noObjects := layout.objectsOn_of_fresh fresh
  obtain ⟨more, count⟩ : ∃ more, PAGE_SIZE / size = more + 1 := by
    refine Nat.exists_eq_succ_of_ne_zero fun zero => ?_
    have whole := isSized.whole
    rw [zero, Nat.mul_zero] at whole
    exact absurd whole (by decide)
  have whole : size * (more + 1) = PAGE_SIZE := count ▸ isSized.whole
  let opened : BucketDesc := { page, next := h.chain size, freeptr := some page, refcnt := 0, bucketSize := size }
  let h' : Heap :=
    { memory := Heap.linkObjects size more page (clearPage h.memory page)
      desc := update h.desc d opened
      chain := update h.chain size (some d)
      freeBucketDesc := h.next d
      supply := rest
      held := page :: h.held
      freed := h.freed
      descPages := h.descPages }
  have done : h.openBucket size d = .ok (d, h') := by
    simp only [Heap.openBucket, Heap.getFreePage, supply, count, Nat.add_sub_cancel]
    rfl
  have desc : h'.desc d = opened := update_self ..
  have same {x : Nat} (isUsed : x ∈ used) : h'.desc x = h.desc x :=
    update_of_ne (fun eq : x = d => notUsed (eq ▸ isUsed)) ..
  have next {x : Nat} (differ : x ≠ d) : h'.next x = h.next x := by
    have other : h'.desc x = h.desc x := update_of_ne differ ..
    rw [Heap.next, Heap.next, other]
  have atLeast : 16 ≤ size := Nat.le_of_dvd isSized.positive isSized.unit
  have memory {x : Nat} (other : pageOf x ≠ page) : h'.memory x = h.memory x := by
    refine (linkObjects_of_outside ?_ (by omega)).trans (clearPage_of_page_ne frame other)
    rw [whole]
    by_contra within
    exact other (pageOf_eq frame (by omega) (by omega))
  refine ⟨h', done, ?_, by rw [desc], by rw [desc], rfl, fun _ => same⟩
  refine
    { chains := fun bdir => ?_
      spareChain := ?_
      bucket := fun x isUsed => ?_
      home := fun o isLive => ?_
      descriptors := perm_middle.symm.trans layout.descriptors
      pages := ?_
      nodup := nodup_cons.mpr ⟨fresh, layout.nodup⟩
      frames := ?_ }
  · have sameSize : used.filter (fun x => (h'.desc x).bucketSize = bdir) =
        used.filter fun x => (h.desc x).bucketSize = bdir :=
      filter_congr fun x isUsed => by rw [same isUsed]
    have before : Follows h'.next (h.chain bdir) (used.filter fun x => (h.desc x).bucketSize = bdir) :=
      (layout.chains bdir).congr fun x on => next fun eq : x = d => notUsed (eq ▸ (mem_filter.mp on).1)
    have link : h'.next d = h.chain size := by rw [Heap.next, desc]
    by_cases here : bdir = size
    · subst here
      rw [filter_cons_of_pos (by simp [desc, opened]), sameSize]
      exact ⟨update_self .., link ▸ before⟩
    · rw [filter_cons_of_neg (by simpa [desc, opened] using Ne.symm here), sameSize]
      have other : h'.chain bdir = h.chain bdir := update_of_ne here ..
      exact other ▸ before
  · exact layout.spareChain.2.congr fun x isSpare => next fun eq : x = d => notSpare (eq ▸ isSpare)
  · rcases mem_cons.mp isUsed with rfl | before
    · rw [desc, noObjects]
      refine ⟨by rw [desc]; exact sized, by rw [desc]; rfl, ⟨objectSlots page size, ?_, ?_⟩, by simp⟩
      · have all : Follows (chainUp size none more page (nextObject (clearPage h.memory page))) (some page)
            (slots page (more + 1) size ++ []) :=
          follows_chainUp isSized.positive (follows_nil.mpr rfl) (by simp)
        rw [append_nil, ← count] at all
        rw [desc]
        refine all.congr fun a isPlace => ?_
        have unit' : 16 ∣ page := Nat.dvd_trans (by decide) frame.2.1
        have positive := frame.1
        refine nextObject_linkObjects (isSlot frame isSized isPlace).aligned unit' isSized (by omega) ?_
        rw [whole]
        exact frame.2.2
      · rw [desc, map_nil, append_nil]
    · rw [same before]
      refine (layout.bucket x before).congr (layout.page_frame before) (same before) fun a onPage => memory ?_
      exact fun isNew => layout.page_ne_of_fresh fresh before (onPage.symm.trans isNew)
  · obtain ⟨x, isUsed, home⟩ := layout.home o isLive
    exact ⟨x, mem_cons_of_mem d isUsed, by rw [same isUsed]; exact home⟩
  · have sameMap : used.map (fun x => (h'.desc x).page) = used.map fun x => (h.desc x).page :=
      map_congr_left fun x isUsed => by rw [same isUsed]
    rw [map_cons, desc, sameMap]
    exact layout.pages.cons page
  · intro other isHeld
    rcases mem_cons.mp isHeld with rfl | before
    · exact frame
    · exact layout.frames other before

theorem newBucket (layout : Layout h live used spare) (sized : size ∈ bucketSizes) {supply : List Nat}
    (unused : Unused h supply) :
    ∃ d h' spare', { h with supply }.newBucket size = .ok (d, h') ∧ Layout h' live (d :: used) spare' ∧
      (h'.desc d).freeptr.isSome ∧ (h'.desc d).bucketSize = size ∧ h'.freed = h.freed ∧
      ∀ x ∈ used, h'.desc x = h.desc x := by
  obtain ⟨first, second, rest, rfl⟩ : ∃ first second rest, supply = first :: second :: rest := by
    rcases supply with _ | ⟨first, _ | ⟨second, rest⟩⟩
    · exact absurd unused.enough (by simp)
    · exact absurd unused.enough (by simp)
    · exact ⟨first, second, rest, rfl⟩
  let start : Heap := { h with supply := first :: second :: rest }
  have ready : Layout start live used spare := layout.supply _
  have fresh : first ∉ start.held := unused.unused first (by simp)
  cases spare with
  | cons d spare =>
    have isFirst : start.freeBucketDesc = some d := ready.spareChain.1
    obtain ⟨h', opened, layout', free, bucketSize, freed, same⟩ :=
      ready.openBucket sized rfl (unused.frame first (by simp)) fresh
    refine ⟨d, h', spare, ?_, layout', by rw [free]; rfl, bucketSize, freed, same⟩
    rw [start.newBucket_of_some isFirst]
    exact opened
  | nil =>
    have noSpare : start.freeBucketDesc = none := ready.spareChain
    obtain ⟨middle, spare', init, layout', supply', held, freed, same⟩ :=
      ready.initBucketDesc rfl (unused.frame first (by simp)) fresh
    have fresh' : second ∉ middle.held := by
      rw [held, mem_cons, not_or]
      refine ⟨fun eq => ?_, unused.unused second (by simp)⟩
      exact (nodup_cons.mp unused.nodup).1 (by simp [eq])
    obtain ⟨h', opened, layout'', free, bucketSize, freed', same'⟩ :=
      layout'.openBucket sized supply' (unused.frame second (by simp)) fresh'
    refine ⟨first, h', spare', ?_, layout'', by rw [free]; rfl, bucketSize, freed'.trans freed,
      fun x isUsed => (same' x isUsed).trans (same x isUsed)⟩
    rw [start.newBucket_of_none noSpare, init]
    exact opened

end Layout

end Linux012.Kernel.Malloc

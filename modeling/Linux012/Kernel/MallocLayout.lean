import Linux012.Kernel.Malloc
import Mathlib.Data.List.Perm.Basic

/-! How the descriptors, the pages and the free objects of the allocator lie, and that
each of its operations keeps them so. -/

set_option autoImplicit false

namespace Linux012.Kernel.Malloc

open ByteMemory Links Slots List
open Function (update update_of_ne)

/-! ## Sizes and pages -/

structure IsSize (size : Nat) : Prop where
  unit : 16 ∣ size
  positive : 0 < size
  whole : size * (PAGE_SIZE / size) = PAGE_SIZE
  few : PAGE_SIZE / size ≤ 256

theorem isSize {size : Nat} (member : size ∈ bucketSizes) : IsSize size := by
  have all : ∀ size ∈ bucketSizes, 16 ∣ size ∧ 0 < size ∧ size * (PAGE_SIZE / size) = PAGE_SIZE ∧
      PAGE_SIZE / size ≤ 256 := by decide
  obtain ⟨unit, positive, whole, few⟩ := all size member
  exact ⟨unit, positive, whole, few⟩

def objectSlots (page size : Nat) : List Nat := slots page (PAGE_SIZE / size) size

theorem pageOf_eq {page a : Nat} (frame : IsFrame page) (above : page ≤ a) (below : a < page + PAGE_SIZE) :
    pageOf a = page := by
  obtain ⟨-, aligned, -⟩ := frame
  unfold PAGE_SIZE at *
  simp only [pageOf, PAGE_SIZE]
  omega

structure IsSlot (page size a : Nat) : Prop where
  aligned : 16 ∣ a
  above : page ≤ a
  below : a + size ≤ page + PAGE_SIZE

variable {page size a b : Nat}

theorem isSlot (frame : IsFrame page) (sized : IsSize size) (member : a ∈ objectSlots page size) :
    IsSlot page size a := by
  have pageUnit : 16 ∣ page := Nat.dvd_trans (by decide) frame.2.1
  obtain ⟨above, below⟩ := slot_within member
  rw [sized.whole] at below
  exact ⟨slot_dvd member pageUnit sized.unit, above, below⟩

namespace IsSlot

theorem word (slot : IsSlot page size a) (sized : IsSize size) : a + 16 ≤ page + PAGE_SIZE := by
  have atLeast : 16 ≤ size := Nat.le_of_dvd sized.positive sized.unit
  have below := slot.below
  omega

theorem page_eq (slot : IsSlot page size a) (sized : IsSize size) (frame : IsFrame page) {x : Nat}
    (above : a ≤ x) (below : x < a + 16) : pageOf x = page := by
  have word := slot.word sized
  exact pageOf_eq frame (Nat.le_trans slot.above above) (by omega)

theorem pointer_eq (slot : IsSlot page size a) (sized : IsSize size) (frame : IsFrame page) :
    pointer a = some a ∧ a < 2 ^ 32 := by
  have word := slot.word sized
  have above := slot.above
  obtain ⟨positive, -, low⟩ := frame
  exact ⟨if_neg (by omega), by omega⟩

end IsSlot

theorem objectSlots_nodup (sized : IsSize size) : (objectSlots page size).Nodup := slots_nodup sized.positive

theorem nextObject_congr {memory memory' : Memory} (same : ∀ x, a ≤ x → x < a + 4 → memory' x = memory x) :
    nextObject memory' a = nextObject memory a := by
  rw [nextObject, nextObject, getLong_congr same]

/-! ## The layout -/

def objectsOn (live : List Object) (page : Nat) : List Object := live.filter fun o => pageOf o.address = page

structure Bucket (h : Heap) (objects : List Object) (bdesc : Nat) : Prop where
  sized : (h.desc bdesc).bucketSize ∈ bucketSizes
  refcnt : (h.desc bdesc).refcnt = objects.length
  free : ∃ free, Follows (nextObject h.memory) (h.desc bdesc).freeptr free ∧
    (free ++ objects.map Object.address).Perm (objectSlots (h.desc bdesc).page (h.desc bdesc).bucketSize)
  fits : ∀ o ∈ objects, bucketSizes.find? (o.len ≤ ·) = some (h.desc bdesc).bucketSize

def descriptors (pages : List Nat) : List Nat :=
  pages.flatMap fun page => slots page (PAGE_SIZE / DESC_SIZE) DESC_SIZE

/-- The descriptors in use, the latest first, and the spare ones in the order of their chain. -/
structure Layout (h : Heap) (live : List Object) (used spare : List Nat) : Prop where
  chains : ∀ size, Follows h.next (h.chain size) (used.filter fun bdesc => (h.desc bdesc).bucketSize = size)
  spareChain : Follows h.next h.freeBucketDesc spare
  bucket : ∀ bdesc ∈ used, Bucket h (objectsOn live (h.desc bdesc).page) bdesc
  home : ∀ o ∈ live, ∃ bdesc ∈ used, (h.desc bdesc).page = pageOf o.address
  descriptors : (used ++ spare).Perm (descriptors h.descPages)
  pages : ((used.map fun bdesc => (h.desc bdesc).page) ++ h.descPages).Perm h.held
  nodup : h.held.Nodup
  frames : ∀ page ∈ h.held, IsFrame page

theorem descriptors_nodup {pages : List Nat} (nodup : pages.Nodup) (frames : ∀ page ∈ pages, IsFrame page) :
    (descriptors pages).Nodup := by
  refine nodup_flatMap.mpr ⟨fun page _ => slots_nodup (by decide), ?_⟩
  refine nodup.imp_of_mem fun {page page'} member member' differ => ?_
  intro d first second
  have inFirst := slot_within first
  have inSecond := slot_within second
  have whole : DESC_SIZE * (PAGE_SIZE / DESC_SIZE) = PAGE_SIZE := by decide
  rw [whole] at inFirst inSecond
  have unit : 0 < DESC_SIZE := by decide
  have one := pageOf_eq (frames page member) inFirst.1 (by omega)
  have other := pageOf_eq (frames page' member') inSecond.1 (by omega)
  exact differ (one.symm.trans other)

namespace Layout

variable {h h' : Heap} {live live' : List Object} {used spare : List Nat} {d d' : Nat}

theorem nodup_descriptors (layout : Layout h live used spare) : (used ++ spare).Nodup := by
  have frames : ∀ page ∈ h.descPages, IsFrame page := fun page member =>
    layout.frames page (layout.pages.mem_iff.mp (mem_append_right _ member))
  have distinct := (nodup_append.mp (layout.pages.nodup_iff.mpr layout.nodup)).2.1
  exact layout.descriptors.nodup_iff.mpr (descriptors_nodup distinct frames)

theorem page_mem (layout : Layout h live used spare) (member : d ∈ used) : (h.desc d).page ∈ h.held :=
  layout.pages.mem_iff.mp (mem_append_left _ (mem_map_of_mem member))

theorem page_frame (layout : Layout h live used spare) (member : d ∈ used) : IsFrame (h.desc d).page :=
  layout.frames _ (layout.page_mem member)

theorem page_inj (layout : Layout h live used spare) (member : d ∈ used) (member' : d' ∈ used)
    (same : (h.desc d).page = (h.desc d').page) : d = d' := by
  have nodup := (nodup_append.mp (layout.pages.nodup_iff.mpr layout.nodup)).1
  exact inj_on_of_nodup_map nodup member member' same

theorem chain_length (layout : Layout h live used spare) (size : Nat) :
    (used.filter fun bdesc => (h.desc bdesc).bucketSize = size).length ≤ h.held.length := by
  have pages := layout.pages.length_eq
  rw [length_append, length_map] at pages
  have filtered := length_filter_le (fun bdesc => (h.desc bdesc).bucketSize = size) used
  omega

end Layout

/-! ## Objects -/

section Objects

variable {live : List Object} {o o' : Object}

theorem objectsOn_cons : objectsOn (o :: live) page =
    if pageOf o.address = page then o :: objectsOn live page else objectsOn live page := by
  simp [objectsOn, filter_cons]

theorem mem_objectsOn : o ∈ objectsOn live page ↔ o ∈ live ∧ pageOf o.address = page := by
  simp [objectsOn]

theorem Bucket.objects_perm {h : Heap} {objects objects' : List Object} {d : Nat} (bucket : Bucket h objects d)
    (perm : objects.Perm objects') : Bucket h objects' d := by
  obtain ⟨free, follows, places⟩ := bucket.free
  exact
    { sized := bucket.sized
      refcnt := bucket.refcnt.trans perm.length_eq
      free := ⟨free, follows, (List.Perm.append_left free (perm.symm.map _)).trans places⟩
      fits := fun o member => bucket.fits o (perm.mem_iff.mpr member) }

theorem Bucket.congr {h h' : Heap} {objects : List Object} {d : Nat} (bucket : Bucket h objects d)
    (frame : IsFrame (h.desc d).page) (desc : h'.desc d = h.desc d)
    (memory : ∀ x, pageOf x = (h.desc d).page → h'.memory x = h.memory x) : Bucket h' objects d := by
  have sized := isSize bucket.sized
  obtain ⟨free, follows, places⟩ := bucket.free
  have follows' : Follows (nextObject h'.memory) (h.desc d).freeptr free := by
    refine follows.congr fun a member => nextObject_congr fun x above below => memory x ?_
    have slot := isSlot frame sized (places.mem_iff.mp (mem_append_left _ member))
    exact slot.page_eq sized frame above (by omega)
  exact
    { sized := desc ▸ bucket.sized
      refcnt := desc ▸ bucket.refcnt
      free := desc ▸ ⟨free, follows', places⟩
      fits := desc ▸ bucket.fits }

end Objects

def Heap.relink (h : Heap) (next chain : Nat → Option Nat) : Heap :=
  { h with desc := fun d => { h.desc d with next := next d }, chain }

theorem Heap.setNext_eq_relink (h : Heap) (d : Nat) (link : Option Nat) :
    h.setNext d link = h.relink (update h.next d link) h.chain := by
  have desc : (h.setNext d link).desc = (h.relink (update h.next d link) h.chain).desc := by
    funext x
    by_cases now : x = d
    · subst now
      simp [setNext, relink]
    · simp [setNext, relink, setDesc_of_ne h _ now, update_of_ne now, next]
  simp only [setNext, setDesc, relink] at desc ⊢
  rw [desc]

/-- The descriptors are on the same chains and of the same pages. -/
structure SameShape (h h' : Heap) : Prop where
  next : ∀ d, (h'.desc d).next = (h.desc d).next
  page : ∀ d, (h'.desc d).page = (h.desc d).page
  bucketSize : ∀ d, (h'.desc d).bucketSize = (h.desc d).bucketSize
  chain : h'.chain = h.chain
  freeBucketDesc : h'.freeBucketDesc = h.freeBucketDesc
  held : h'.held = h.held
  descPages : h'.descPages = h.descPages

theorem sameShape_setDesc {h : Heap} {d : Nat} {desc : BucketDesc} (next : desc.next = (h.desc d).next)
    (page : desc.page = (h.desc d).page) (bucketSize : desc.bucketSize = (h.desc d).bucketSize) :
    SameShape h (h.setDesc d desc) := by
  have same (d' : Nat) : ((h.setDesc d desc).desc d').next = (h.desc d').next ∧
      ((h.setDesc d desc).desc d').page = (h.desc d').page ∧
      ((h.setDesc d desc).desc d').bucketSize = (h.desc d').bucketSize := by
    by_cases now : d' = d
    · subst now
      rw [Heap.setDesc_self]
      exact ⟨next, page, bucketSize⟩
    · rw [Heap.setDesc_of_ne h desc now]
      exact ⟨rfl, rfl, rfl⟩
  exact
    { next := fun d' => (same d').1
      page := fun d' => (same d').2.1
      bucketSize := fun d' => (same d').2.2
      chain := rfl
      freeBucketDesc := rfl
      held := rfl
      descPages := rfl }

theorem sameShape_giveBack (h : Heap) (d obj : Nat) : SameShape h (h.giveBack d obj) := by
  have shape : SameShape h (h.setDesc d { h.desc d with
      freeptr := some obj
      refcnt := ((h.desc d).refcnt + (2 ^ 16 - 1)) % 2 ^ 16 }) := sameShape_setDesc rfl rfl rfl
  exact ⟨shape.next, shape.page, shape.bucketSize, rfl, rfl, rfl, rfl⟩

namespace Layout

variable {h h' : Heap} {live live' : List Object} {used spare : List Nat} {d d' : Nat}

theorem rebucket (layout : Layout h live used spare) (shape : SameShape h h')
    (bucket : ∀ d ∈ used, Bucket h' (objectsOn live' (h.desc d).page) d)
    (home : ∀ o ∈ live', ∃ d ∈ used, (h.desc d).page = pageOf o.address) : Layout h' live' used spare := by
  have next : h'.next = h.next := funext shape.next
  refine
    { chains := fun size => ?_
      spareChain := ?_
      bucket := fun d member => ?_
      home := ?_
      descriptors := ?_
      pages := ?_
      nodup := ?_
      frames := ?_ }
  · simp only [shape.bucketSize, shape.chain, next]
    exact layout.chains size
  · rw [next, shape.freeBucketDesc]
    exact layout.spareChain
  · rw [shape.page]
    exact bucket d member
  · simp only [shape.page]
    exact home
  · rw [shape.descPages]
    exact layout.descriptors
  · simp only [shape.page, shape.descPages, shape.held]
    exact layout.pages
  · rw [shape.held]
    exact layout.nodup
  · rw [shape.held]
    exact layout.frames

theorem supply (layout : Layout h live used spare) (supply : List Nat) :
    Layout { h with supply } live used spare :=
  { layout with
    bucket := fun d member =>
      have bucket := layout.bucket d member
      ⟨bucket.sized, bucket.refcnt, bucket.free, bucket.fits⟩ }

theorem objects_perm (layout : Layout h live used spare) (perm : live.Perm live') :
    Layout h live' used spare := by
  have shape : SameShape h h := ⟨fun _ => rfl, fun _ => rfl, fun _ => rfl, rfl, rfl, rfl, rfl⟩
  refine layout.rebucket shape (fun d member => ?_) fun o member => layout.home o (perm.mem_iff.mpr member)
  exact (layout.bucket d member).objects_perm (perm.filter _)

theorem slot_of_live (layout : Layout h live used spare) (member : d ∈ used) {o : Object}
    (on : o ∈ objectsOn live (h.desc d).page) :
    o.address ∈ objectSlots (h.desc d).page (h.desc d).bucketSize := by
  obtain ⟨free, -, places⟩ := (layout.bucket d member).free
  exact places.mem_iff.mp (mem_append_right _ (mem_map_of_mem on))

theorem objects_few (layout : Layout h live used spare) (member : d ∈ used) {free : List Nat}
    (places : (free ++ (objectsOn live (h.desc d).page).map Object.address).Perm
      (objectSlots (h.desc d).page (h.desc d).bucketSize)) :
    free.length + (objectsOn live (h.desc d).page).length ≤ 256 := by
  have few := (isSize (layout.bucket d member).sized).few
  have count := places.length_eq
  rw [length_append, length_map, objectSlots, slots, length_range'] at count
  omega

/-! ### `malloc` takes an object -/

theorem take (layout : Layout h live used spare) (member : d ∈ used) {a len : Nat}
    (free : (h.desc d).freeptr = some a)
    (fits : bucketSizes.find? (len ≤ ·) = some (h.desc d).bucketSize) :
    ∃ h', h.takeObject d = .ok (a, h') ∧ Layout h' (⟨a, len⟩ :: live) used spare ∧ h'.freed = h.freed ∧
      (∀ d' ≠ d, h'.desc d' = h.desc d') ∧ (h'.desc d).refcnt ≠ 0 := by
  have bucket := layout.bucket d member
  have sized := isSize bucket.sized
  have frame := layout.page_frame member
  obtain ⟨frees, follows, places⟩ := bucket.free
  rw [free] at follows
  obtain ⟨rest, rfl⟩ : ∃ rest, frees = a :: rest := by
    cases frees with
    | nil => cases follows
    | cons first rest =>
      cases follows.1
      exact ⟨rest, rfl⟩
  have slot := isSlot frame sized (places.mem_iff.mp (mem_append_left _ mem_cons_self))
  have onPage : pageOf a = (h.desc d).page := slot.page_eq sized frame (Nat.le_refl a) (by omega)
  have few := layout.objects_few member places
  rw [length_cons] at few
  have count : ((h.desc d).refcnt + 1) % 2 ^ 16 = (objectsOn live (h.desc d).page).length + 1 := by
    rw [bucket.refcnt]
    omega
  let taken : BucketDesc := { h.desc d with
    freeptr := nextObject h.memory a
    refcnt := ((h.desc d).refcnt + 1) % 2 ^ 16 }
  have shape : SameShape h (h.setDesc d taken) := sameShape_setDesc rfl rfl rfl
  have desc : (h.setDesc d taken).desc d = taken := h.setDesc_self d taken
  have others : ∀ d' ≠ d, (h.setDesc d taken).desc d' = h.desc d' := fun d' => h.setDesc_of_ne taken
  refine ⟨h.setDesc d taken, by simp only [Heap.takeObject, free]; rfl, ?_, rfl, others, ?_⟩
  · refine layout.rebucket shape (fun d' member' => ?_) fun o isLive => ?_
    · rw [objectsOn_cons, onPage]
      by_cases now : d' = d
      · subst now
        rw [if_pos rfl]
        refine ⟨?_, ?_, ⟨rest, ?_, ?_⟩, ?_⟩
        · rw [desc]
          exact bucket.sized
        · rw [desc]
          exact count
        · rw [desc]
          exact follows.2
        · rw [desc, map_cons]
          exact perm_middle.trans places
        · intro o on
          rw [desc]
          rcases mem_cons.mp on with rfl | before
          · exact fits
          · exact bucket.fits o before
      · have differ : (h.desc d).page ≠ (h.desc d').page := fun same =>
          now (layout.page_inj member' member same.symm)
        rw [if_neg differ]
        exact (layout.bucket d' member').congr (layout.page_frame member') (others d' now) fun _ _ => rfl
    · rcases mem_cons.mp isLive with rfl | before
      · exact ⟨d, member, onPage.symm⟩
      · exact layout.home o before
  · have positive : taken.refcnt = _ := count
    rw [desc, positive]
    exact Nat.succ_ne_zero _

/-! ### `free_s` gives it back -/

theorem give {o : Object} (layout : Layout h (o :: live) used spare) (member : d ∈ used)
    (onPage : pageOf o.address = (h.desc d).page) :
    Layout (h.giveBack d o.address) live used spare ∧
      ((h.giveBack d o.address).desc d).refcnt = (objectsOn live (h.desc d).page).length := by
  have bucket := layout.bucket d member
  have sized := isSize bucket.sized
  have frame := layout.page_frame member
  obtain ⟨frees, follows, places⟩ := bucket.free
  have few := layout.objects_few member places
  rw [objectsOn_cons, if_pos onPage] at places few
  rw [length_cons] at few
  rw [map_cons] at places
  have slot {a : Nat} (isPlace : a ∈ frees ++ o.address :: (objectsOn live (h.desc d).page).map Object.address) :
      IsSlot (h.desc d).page (h.desc d).bucketSize a :=
    isSlot frame sized (places.mem_iff.mp isPlace)
  have given := slot (mem_append_right frees mem_cons_self)
  have notFree : o.address ∉ frees := fun isFree =>
    (nodup_append.mp (places.nodup_iff.mpr (objectSlots_nodup sized))).2.2 _ isFree _ mem_cons_self rfl
  have count : ((h.desc d).refcnt + (2 ^ 16 - 1)) % 2 ^ 16 = (objectsOn live (h.desc d).page).length := by
    rw [bucket.refcnt, objectsOn_cons, if_pos onPage, length_cons]
    omega
  -- the link that is stored in the object
  have stored : nextObject (putLong h.memory o.address (address (h.desc d).freeptr)) o.address =
      (h.desc d).freeptr := by
    cases frees with
    | nil =>
      rw [follows_nil.mp follows]
      simp only [nextObject, address, Option.getD_none, getLong_putLong_self h.memory o.address
        (show 0 < 2 ^ 32 by decide)]
      rfl
    | cons first rest =>
      have atFirst := (slot (mem_append_left _ mem_cons_self)).pointer_eq sized frame
      rw [follows.1, nextObject, address, Option.getD_some, getLong_putLong_self _ _ atFirst.2]
      exact atFirst.1
  have kept : ∀ a ∈ frees, nextObject (putLong h.memory o.address (address (h.desc d).freeptr)) a =
      nextObject h.memory a := by
    intro a isFree
    have differ : a ≠ o.address := fun same => notFree (same ▸ isFree)
    have unit := (slot (mem_append_left _ isFree)).aligned
    have unit' := given.aligned
    refine nextObject_congr fun x above below => putLong_of_outside h.memory ?_
    omega
  let given' : BucketDesc := { h.desc d with
    freeptr := some o.address
    refcnt := ((h.desc d).refcnt + (2 ^ 16 - 1)) % 2 ^ 16 }
  have desc : (h.giveBack d o.address).desc d = given' := h.setDesc_self d given'
  have others : ∀ d' ≠ d, (h.giveBack d o.address).desc d' = h.desc d' := fun d' => h.setDesc_of_ne given'
  have shape := sameShape_giveBack h d o.address
  refine ⟨layout.rebucket shape (fun d' member' => ?_) fun o' isLive => ?_, ?_⟩
  · by_cases now : d' = d
    · subst now
      refine ⟨?_, ?_, ⟨o.address :: frees, ⟨?_, ?_⟩, ?_⟩, ?_⟩
      · rw [desc]
        exact bucket.sized
      · rw [desc]
        exact count
      · rw [desc]
      · have links : Follows (nextObject h.memory) (h.desc d').freeptr frees := follows
        exact stored.symm ▸ links.congr kept
      · rw [desc]
        exact perm_middle.symm.trans places
      · intro o' on
        rw [desc]
        refine bucket.fits o' ?_
        rw [objectsOn_cons, if_pos onPage]
        exact mem_cons_of_mem o on
    · have differ : (h.desc d').page ≠ (h.desc d).page := fun same => now (layout.page_inj member' member same)
      have bucket' := layout.bucket d' member'
      rw [objectsOn_cons, if_neg fun same => differ (same.symm.trans onPage)] at bucket'
      refine bucket'.congr (layout.page_frame member') (others d' now) fun x onPage' => ?_
      refine putLong_of_outside h.memory ?_
      by_contra within
      have same := given.page_eq sized frame (x := x) (by omega) (by omega)
      exact differ (onPage'.symm.trans same)
  · exact layout.home o' (mem_cons_of_mem o isLive)
  · rw [desc]
    exact count

/-! ### Stores -/

theorem store (layout : Layout h live used spare) {x : Nat} {byte : UInt8}
    (allowed : (∃ o ∈ live, o.Owns x) ∨ pageOf x ∉ h.held) :
    Layout { h with memory := update h.memory x byte } live used spare := by
  refine layout.rebucket ⟨fun _ => rfl, fun _ => rfl, fun _ => rfl, rfl, rfl, rfl, rfl⟩ (fun d member => ?_)
    layout.home
  have bucket := layout.bucket d member
  have sized := isSize bucket.sized
  have frame := layout.page_frame member
  obtain ⟨frees, follows, places⟩ := bucket.free
  refine ⟨bucket.sized, bucket.refcnt, ⟨frees, follows.congr fun a isFree => ?_, places⟩, bucket.fits⟩
  have isPlace := places.mem_iff.mp (mem_append_left _ isFree)
  have slot := isSlot frame sized isPlace
  refine nextObject_congr fun y above below => update_of_ne ?_ _ _
  rintro rfl
  have onPage : pageOf y = (h.desc d).page := slot.page_eq sized frame above (by omega)
  rcases allowed with ⟨o, isLive, owns⟩ | free
  · obtain ⟨d', member', home⟩ := layout.home o isLive
    have bucket' := layout.bucket d' member'
    have on : o ∈ objectsOn live (h.desc d').page := mem_objectsOn.mpr ⟨isLive, home.symm⟩
    have sized' := isSize bucket'.sized
    have isPlace' := layout.slot_of_live member' on
    have slot' := isSlot (layout.page_frame member') sized' isPlace'
    have room : o.len ≤ (h.desc d').bucketSize := by simpa using find?_some (bucket'.fits o on)
    have bound := slot'.below
    have start := slot'.above
    obtain ⟨from_, upTo⟩ := owns
    have same : pageOf y = (h.desc d').page := pageOf_eq (layout.page_frame member') (by omega) (by omega)
    have one := layout.page_inj member member' (onPage.symm.trans same)
    subst one
    have differ : a ≠ o.address := by
      rintro rfl
      have nodup := places.nodup_iff.mpr (objectSlots_nodup sized)
      exact (nodup_append.mp nodup).2.2 _ isFree _ (mem_map_of_mem on) rfl
    have atLeast : 16 ≤ (h.desc d).bucketSize := Nat.le_of_dvd sized.positive sized.unit
    have apart := slots_apart isPlace isPlace' differ
    omega
  · exact free (onPage ▸ layout.page_mem member)

end Layout

end Linux012.Kernel.Malloc

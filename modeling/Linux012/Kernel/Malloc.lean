import Linux012.Lib.ByteMemory
import Linux012.Lib.Slots
import Linux012.Lib.Transition

/-! The kernel's allocator, `lib/malloc.c`: pages that are cut into objects of one size
each, the bucket descriptors of the pages, and the free objects chained inside themselves. -/

set_option autoImplicit false

namespace Linux012.Kernel.Malloc

open ByteMemory Links Slots Function

def PAGE_SIZE : Nat := 4096

def DESC_SIZE : Nat := 16

structure BucketDesc where
  page : Nat
  next : Option Nat
  freeptr : Option Nat
  /-- an `unsigned short` -/
  refcnt : Nat
  bucketSize : Nat

def bucketSizes : List Nat := [16, 32, 64, 128, 256, 512, 1024, 2048, 4096]

inductive Failure where
  | badArgument
  | outOfMemory
  | badAddress
  | corrupted
  | nullDereference
  /-- A loop along a chain that comes back to where it was. -/
  | endless

/-- The memory of the objects, the descriptors at their addresses, the chains of
`bucket_dir` by their sizes, and the frames of `get_free_page` and `free_page`. -/
structure Heap where
  memory : Memory
  desc : Nat → BucketDesc
  chain : Nat → Option Nat
  freeBucketDesc : Option Nat
  /-- what `get_free_page` will return -/
  supply : List Nat
  held : List Nat
  /-- the calls of `free_page`, the last one first -/
  freed : List Nat
  /-- the pages from `init_bucket_desc` -/
  descPages : List Nat

def pointer (word : Nat) : Option Nat := if word = 0 then none else some word

def address (ptr : Option Nat) : Nat := ptr.getD 0

def nextObject (memory : Memory) (obj : Nat) : Option Nat := pointer (getLong memory obj)

def clearPage (memory : Memory) (page : Nat) : Memory := fun a =>
  if page ≤ a ∧ a < page + PAGE_SIZE then 0 else memory a

def pageOf (obj : Nat) : Nat := obj / PAGE_SIZE * PAGE_SIZE

namespace Heap

variable (h : Heap)

def setDesc (bdesc : Nat) (d : BucketDesc) : Heap := { h with desc := update h.desc bdesc d }

@[simp] theorem setDesc_self (bdesc : Nat) (d : BucketDesc) : (h.setDesc bdesc d).desc bdesc = d :=
  update_self ..

theorem setDesc_of_ne {bdesc other : Nat} (d : BucketDesc) (differ : other ≠ bdesc) :
    (h.setDesc bdesc d).desc other = h.desc other :=
  update_of_ne differ ..

def setNext (bdesc : Nat) (next : Option Nat) : Heap := h.setDesc bdesc { h.desc bdesc with next }

def next (bdesc : Nat) : Option Nat := (h.desc bdesc).next

def getFreePage : Option (Nat × Heap) :=
  match h.supply with
  | [] => none
  | page :: supply => some (page, { h with
      supply
      held := page :: h.held
      memory := clearPage h.memory page })

def freePage (page : Nat) : Heap := { h with held := h.held.erase page, freed := page :: h.freed }

def clearDescriptors (page : Nat) : Heap := { h with desc := fun bdesc =>
  if page ≤ bdesc ∧ bdesc < page + PAGE_SIZE then ⟨0, none, none, 0, 0⟩ else h.desc bdesc }

/-- The loop of `init_bucket_desc`, and the link of the last descriptor. -/
def linkDescriptors (last : Option Nat) : (more : Nat) → (bdesc : Nat) → Heap → Heap
  | 0, bdesc, h => h.setNext bdesc last
  | more + 1, bdesc, h =>
    linkDescriptors last more (bdesc + DESC_SIZE) (h.setNext bdesc (some (bdesc + DESC_SIZE)))

/-- The new `free_bucket_desc`, and the heap. -/
def initBucketDesc : Except Failure (Nat × Heap) :=
  match h.getFreePage with
  | none => .error .outOfMemory
  | some (first, h) =>
    let h := (h.clearDescriptors first).linkDescriptors h.freeBucketDesc (PAGE_SIZE / DESC_SIZE - 1) first
    .ok (first, { h with freeBucketDesc := some first, descPages := first :: h.descPages })

def findFree : (fuel : Nat) → (bdesc : Option Nat) → Except Failure (Option Nat)
  | _, none => .ok none
  | 0, some _ => .error .endless
  | fuel + 1, some bdesc =>
    if (h.desc bdesc).freeptr.isSome then .ok (some bdesc) else findFree fuel (h.next bdesc)

def linkObjects (size : Nat) : (more : Nat) → (cp : Nat) → Memory → Memory
  | 0, cp, memory => putLong memory cp 0
  | more + 1, cp, memory => linkObjects size more (cp + size) (putLong memory cp (cp + size))

def openBucket (size bdesc : Nat) : Except Failure (Nat × Heap) :=
  let h := { h with freeBucketDesc := h.next bdesc }
  match h.getFreePage with
  | none => .error .outOfMemory
  | some (cp, h) =>
    let d : BucketDesc :=
      { page := cp, next := h.chain size, freeptr := some cp, refcnt := 0, bucketSize := size }
    .ok (bdesc, { h.setDesc bdesc d with
      memory := linkObjects size (PAGE_SIZE / size - 1) cp h.memory
      chain := update h.chain size (some bdesc) })

def newBucket (size : Nat) : Except Failure (Nat × Heap) := do
  let (bdesc, h) ←
    match h.freeBucketDesc with
    | some bdesc => pure (bdesc, h)
    | none => h.initBucketDesc
  h.openBucket size bdesc

theorem newBucket_of_some {size bdesc : Nat} (spare : h.freeBucketDesc = some bdesc) :
    h.newBucket size = h.openBucket size bdesc := by
  rw [newBucket, spare]
  rfl

theorem newBucket_of_none {size : Nat} (noSpare : h.freeBucketDesc = none) :
    h.newBucket size = h.initBucketDesc >>= fun first => first.2.openBucket size first.1 := by
  rw [newBucket]
  simp only [noSpare]

def takeObject (bdesc : Nat) : Except Failure (Nat × Heap) :=
  let d := h.desc bdesc
  match d.freeptr with
  | none => .error .nullDereference
  | some retval => .ok (retval, h.setDesc bdesc { d with
      freeptr := nextObject h.memory retval
      refcnt := (d.refcnt + 1) % 2 ^ 16 })

def malloc (len : Nat) : Except Failure (Nat × Heap) :=
  match bucketSizes.find? (len ≤ ·) with
  | none => .error .badArgument
  | some size => do
    let found ← h.findFree h.held.length (h.chain size)
    let (bdesc, h) ←
      match found with
      | some bdesc => pure (bdesc, h)
      | none => h.newBucket size
    h.takeObject bdesc

/-- The loop of `free_s` along one chain: the descriptor of a page, and the one before it. -/
def searchChain (page : Nat) : (fuel : Nat) → (prev bdesc : Option Nat) →
    Except Failure (Option (Option Nat × Nat))
  | _, _, none => .ok none
  | 0, _, some _ => .error .endless
  | fuel + 1, prev, some bdesc =>
    if (h.desc bdesc).page = page then .ok (some (prev, bdesc))
    else searchChain page fuel (some bdesc) (h.next bdesc)

/-- The loop of `free_s` over `bucket_dir`; no bucket is passed over if the size is not known. -/
def searchBuckets (page size : Nat) : List Nat → Except Failure (Nat × Option Nat × Nat)
  | [] => .error .badAddress
  | bdir :: rest =>
    if bdir < size then searchBuckets page size rest
    else do
      match ← h.searchChain page h.held.length none (h.chain bdir) with
      | some (prev, bdesc) => .ok (bdir, prev, bdesc)
      | none => searchBuckets page size rest

def linkBehind (bdir : Nat) (prev : Option Nat) : Option Nat := prev.elim (h.chain bdir) h.next

/-- The loop that looks for the descriptor before `bdesc` once more. -/
def findPrev (bdesc : Nat) : (fuel : Nat) → (prev : Option Nat) → Except Failure (Option Nat)
  | _, none => .ok none
  | 0, some _ => .error .endless
  | fuel + 1, some prev =>
    if h.next prev = some bdesc then .ok (some prev) else findPrev bdesc fuel (h.next prev)

def unlink (bdir : Nat) (prev : Option Nat) (bdesc : Nat) : Except Failure Heap := do
  let prev ←
    if h.linkBehind bdir prev ≠ some bdesc then h.findPrev bdesc h.held.length (h.chain bdir)
    else pure prev
  match prev with
  | some prev => .ok (h.setNext prev (h.next bdesc))
  | none =>
    if h.chain bdir ≠ some bdesc then .error .corrupted
    else .ok { h with chain := update h.chain bdir (h.next bdesc) }

def giveBack (bdesc obj : Nat) : Heap :=
  let d := h.desc bdesc
  { h.setDesc bdesc { d with freeptr := some obj, refcnt := (d.refcnt + (2 ^ 16 - 1)) % 2 ^ 16 } with
    memory := putLong h.memory obj (address d.freeptr) }

theorem giveBack_of_ne (obj : Nat) {bdesc other : Nat} (differ : other ≠ bdesc) :
    (h.giveBack bdesc obj).desc other = h.desc other :=
  h.setDesc_of_ne _ differ

def retire (bdesc : Nat) : Heap :=
  let h := (h.freePage (h.desc bdesc).page).setNext bdesc h.freeBucketDesc
  { h with freeBucketDesc := some bdesc }

def freeS (obj size : Nat) : Except Failure Heap := do
  let (bdir, prev, bdesc) ← h.searchBuckets (pageOf obj) size bucketSizes
  let h := h.giveBack bdesc obj
  if (h.desc bdesc).refcnt = 0 then
    let h ← h.unlink bdir prev bdesc
    .ok (h.retire bdesc)
  else .ok h

end Heap

/-! ## Runs -/

structure Object where
  address : Nat
  len : Nat
  deriving DecidableEq

structure State where
  heap : Heap
  live : List Object

inductive Move where
  /-- `get_free_page` returns the frames of the supply -/
  | malloc (len : Nat) (supply : List Nat)
  | freeS (o : Object) (size : Nat)
  /-- a byte is stored, by the owner of an object or anywhere else -/
  | store (a : Nat) (byte : UInt8)

def step (s : State) : Move → Except Failure State
  | .malloc len supply => do
    let (obj, heap) ← { s.heap with supply }.malloc len
    .ok ⟨heap, ⟨obj, len⟩ :: s.live⟩
  | .freeS o size => do
    let heap ← s.heap.freeS o.address size
    .ok ⟨heap, s.live.erase o⟩
  | .store a byte => .ok { s with heap := { s.heap with memory := update s.heap.memory a byte } }

def boot (memory : Memory) : State where
  heap :=
    { memory
      desc := fun _ => ⟨0, none, none, 0, 0⟩
      chain := fun _ => none
      freeBucketDesc := none
      supply := []
      held := []
      freed := []
      descPages := [] }
  live := []

def IsFrame (page : Nat) : Prop := page ≠ 0 ∧ PAGE_SIZE ∣ page ∧ page + PAGE_SIZE ≤ 2 ^ 32

/-- Frames that nobody uses: enough for the two calls that one `malloc` may make. -/
structure Unused (h : Heap) (supply : List Nat) : Prop where
  enough : 2 ≤ supply.length
  nodup : supply.Nodup
  frame : ∀ page ∈ supply, IsFrame page
  unused : ∀ page ∈ supply, page ∉ h.held

def Object.Owns (o : Object) (a : Nat) : Prop := o.address ≤ a ∧ a < o.address + o.len

def Allowed (s : State) : Move → Prop
  | .malloc len supply => len ≤ PAGE_SIZE ∧ Unused s.heap supply
  | .freeS o size => o ∈ s.live ∧ (size = 0 ∨ size = o.len)
  | .store a _ => (∃ o ∈ s.live, o.Owns a) ∨ pageOf a ∉ s.heap.held

def Reached (memory : Memory) : State → Prop :=
  Transition.Run (fun s m => (step s m).toOption) Allowed (boot memory)

end Linux012.Kernel.Malloc

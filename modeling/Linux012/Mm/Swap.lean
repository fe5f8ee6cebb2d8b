import Linux012.Lib.Ownership
import Linux012.Lib.Transition

/-! Swapping, from `mm/swap.c` and `mm/memory.c`. A page is given by its number, which is
its address without the 12 low bits; the words of page tables and page directories are
those of the source. -/

set_option autoImplicit false

namespace Linux012.Mm.Swap

open Ownership Transition Function

def lowMem : Nat := 0x100000
def pagingMemory : Nat := 15 * 1024 * 1024
def pageDirty : Nat := 0x40
def swapBits : Nat := 4096 <<< 3

def present (word : Nat) : Bool := word % 2 = 1

def dirty (word : Nat) : Bool := word / 64 % 2 = 1

def writable (word : Nat) : Bool := word / 2 % 2 = 1

def clearRw (word : Nat) : Nat := if writable word then word - 2 else word

def setDirty (word : Nat) : Nat := if dirty word then word else word + pageDirty

def slotOf (word : Nat) : Option Nat := if word = 0 ∨ present word then none else some (word >>> 1)

def pageOf (word : Nat) : Option Nat := if present word then some (word >>> 12) else none

section Bitmap

def byteAt (swapBitmap : Nat → Bool) (byte : Nat) : Nat :=
  (List.range 8).foldl (fun value i => value + if swapBitmap (8 * byte + i) then 2 ^ i else 0) 0

def signed (swapBitmap : Nat → Bool) : Bool :=
  (List.range 10).map (fun i => byteAt swapBitmap (4086 + i)) = "SWAP-SPACE".toList.map Char.toNat

def unsign (swapBitmap : Nat → Bool) : Nat → Bool :=
  fun nr => if 8 * 4086 ≤ nr ∧ nr < 8 * 4096 then false else swapBitmap nr

/-- The bits that must be clear: bit 0, and those from `swap_size` on. The loop looks at bit
`swap_size` also when that is the first bit behind the page. -/
def badBitmap (swapBitmap : Nat → Bool) (swapSize : Nat) : Bool :=
  swapBitmap 0 || swapBitmap swapSize ||
    (List.range' (swapSize + 1) (swapBits - (swapSize + 1))).any swapBitmap

/-- `init_swapping`, with the number of blocks of the device if it has one, and the page
that was read from slot 0 together with what is behind it in memory. Returns `swap_size`
and the bit-map. -/
def initSwapping (swapDev : Nat) (blkSize : Option Nat) (page : Option (Nat → Bool)) :
    Option (Nat × (Nat → Bool)) :=
  if swapDev = 0 then none
  else
    match blkSize, page with
    | some blocks, some page =>
      if blocks < 100 then none
      else
        let swapSize := min (blocks >>> 2) swapBits
        if signed page = false then none
        else
          let swapBitmap := unsign page
          if badBitmap swapBitmap swapSize then none
          else if (List.range' 1 (swapSize - 1)).any swapBitmap then some (swapSize, swapBitmap)
          else none
    | _, _ => none

def getSwapPage (swapBitmap : Nat → Bool) : Nat × (Nat → Bool) :=
  match (List.range' 1 (swapBits - 1)).find? swapBitmap with
  | some nr => (nr, update swapBitmap nr false)
  | none => (0, swapBitmap)

def swapFree (swapBitmap : Nat → Bool) (swapNr : Nat) : Nat → Bool :=
  if swapNr ≠ 0 ∧ swapNr < swapBits then update swapBitmap swapNr true else swapBitmap

end Bitmap

abbrev Index (dirs ptrs : Nat) := Fin dirs × Fin ptrs

/-- What `copy_page_tables` has still to do; the first list is the rest of the outer loop. -/
structure Copying (τ : Type) (dirs ptrs : Nat) where
  child : τ
  size : Nat
  dirsLeft : List (Fin dirs)
  entriesLeft : List (Index dirs ptrs)

/-- What a page from `get_free_page` is for. -/
inductive Purpose (τ : Type) (dirs ptrs : Nat) where
  | swapIn (i : Index dirs ptrs) (swapNr : Nat)
  /-- `get_empty_page`, in a table that is there -/
  | emptyPage (i : Index dirs ptrs)
  | pageTable (d : Fin dirs)
  | copyTable (d : Fin dirs) (c : Copying τ dirs ptrs)
  | copyEntry (i : Index dirs ptrs) (thisPage : Nat) (c : Copying τ dirs ptrs)

/-- Where a task is. The request of a disk transfer is waiting until `served` is set,
or `data` is there. -/
inductive Activity (τ δ : Type) (dirs ptrs : Nat) where
  | free
  | unborn
  | user
  | copying (c : Copying τ dirs ptrs)
  /-- at `repeat` in `get_free_page` -/
  | allocating (purpose : Purpose τ dirs ptrs)
  /-- in `try_to_swap_out`, called from there -/
  | writing (purpose : Purpose τ dirs ptrs) (swapNr page : Nat) (served : Bool)
  | reading (purpose : Purpose τ dirs ptrs) (swapNr page : Nat) (data : Option δ)

def Activity.page {τ δ : Type} {dirs ptrs : Nat} : Activity τ δ dirs ptrs → Option Nat
  | .writing _ _ page _ => some page
  | .reading _ _ page _ => some page
  | _ => none

def Purpose.copying {τ : Type} {dirs ptrs : Nat} : Purpose τ dirs ptrs → Option (Copying τ dirs ptrs)
  | .copyTable _ c => some c
  | .copyEntry _ _ c => some c
  | _ => none

def Activity.copy {τ δ : Type} {dirs ptrs : Nat} : Activity τ δ dirs ptrs → Option (Copying τ dirs ptrs)
  | .copying c => some c
  | .allocating purpose => purpose.copying
  | .writing purpose _ _ _ => purpose.copying
  | .reading purpose _ _ _ => purpose.copying
  | _ => none

/-- `δ` is what a page can hold. -/
structure State (τ δ : Type) (dirs ptrs : Nat) where
  swapBitmap : Nat → Bool
  memMap : Nat → Nat
  highMemory : Nat
  memory : Nat → δ
  slot : Nat → δ
  dir : τ × Fin dirs → Nat
  table : τ × Index dirs ptrs → Nat
  activity : τ → Activity τ δ dirs ptrs
  panicked : Bool

inductive Move (τ δ : Type) (dirs ptrs : Nat) where
  | write (t : τ) (i : Index dirs ptrs) (data : δ)
  /-- a page fault, up to `get_free_page` -/
  | fault (t : τ) (i : Index dirs ptrs)
  /-- `get_free_page` finds a page -/
  | allocate (t : τ) (page : Nat)
  /-- or calls `swap_out`, which comes to an entry -/
  | swapOut (t : τ) (entry : τ × Index dirs ptrs)
  /-- and fails if all entries have failed; the sizes are the limits that `do_exit` reads -/
  | outOfMemory (t : τ) (codeSize dataSize : Nat)
  | serve (t : τ)
  /-- a task goes on, after its request or to the next entry that it copies -/
  | resume (t : τ)
  /-- `copy_mem` calls `copy_page_tables`; `task[0]` has forked before swapping is on -/
  | fork (t child : τ) (size : Nat)
  /-- `free_page_tables` in `do_execve` and for a library -/
  | freeTables (t : τ) (first size : Nat)
  | exit (t : τ) (codeSize dataSize : Nat)

variable {τ δ : Type} [DecidableEq τ] {dirs ptrs : Nat}

namespace State

def setTable (s : State τ δ dirs ptrs) (p : τ × Index dirs ptrs) (word : Nat) : State τ δ dirs ptrs :=
  { s with table := update s.table p word }

def setDir (s : State τ δ dirs ptrs) (d : τ × Fin dirs) (word : Nat) : State τ δ dirs ptrs :=
  { s with dir := update s.dir d word }

def setActivity (s : State τ δ dirs ptrs) (t : τ) (activity : Activity τ δ dirs ptrs) : State τ δ dirs ptrs :=
  { s with activity := update s.activity t activity }

theorem setActivity_self (s : State τ δ dirs ptrs) (t : τ) (activity : Activity τ δ dirs ptrs) :
    (s.setActivity t activity).activity t = activity :=
  update_self ..

theorem setActivity_of_ne (s : State τ δ dirs ptrs) {t u : τ} (activity : Activity τ δ dirs ptrs) (differ : u ≠ t) :
    (s.setActivity t activity).activity u = s.activity u :=
  update_of_ne differ ..

def setCount (s : State τ δ dirs ptrs) (page count : Nat) : State τ δ dirs ptrs :=
  { s with memMap := update s.memMap page count }

def setPage (s : State τ δ dirs ptrs) (page : Nat) (data : δ) : State τ δ dirs ptrs :=
  { s with memory := update s.memory page data }

def freePage (s : State τ δ dirs ptrs) (page : Nat) : State τ δ dirs ptrs :=
  if page < lowMem >>> 12 then s
  else if s.highMemory ≤ page ∨ s.memMap page = 0 then { s with panicked := true }
  else s.setCount page (s.memMap page - 1)

/-- The body of the inner loop of `free_page_tables` -/
def freeEntry (s : State τ δ dirs ptrs) (p : τ × Index dirs ptrs) : State τ δ dirs ptrs :=
  if s.table p = 0 then s
  else if present (s.table p) then (s.freePage (s.table p >>> 12)).setTable p 0
  else { s with swapBitmap := swapFree s.swapBitmap (s.table p >>> 1) }.setTable p 0

def freeTable (s : State τ δ dirs ptrs) (t : τ) (d : Fin dirs) : State τ δ dirs ptrs :=
  if present (s.dir (t, d)) then
    let s := (List.finRange ptrs).foldl (fun s nr => s.freeEntry (t, d, nr)) s
    (s.freePage (s.dir (t, d) >>> 12)).setDir (t, d) 0
  else s

def freePageTables (s : State τ δ dirs ptrs) (t : τ) (first size : Nat) : State τ δ dirs ptrs :=
  (((List.finRange dirs).drop first).take size).foldl (fun s d => s.freeTable t d) s

def exit (s : State τ δ dirs ptrs) (t : τ) (codeSize dataSize : Nat) : State τ δ dirs ptrs :=
  ((s.freePageTables t 0 codeSize).freePageTables t 0 dataSize).setActivity t .free

/-- `try_to_swap_out` for the task `t`, up to `write_swap_page` -/
def tryToSwapOut (s : State τ δ dirs ptrs) (t : τ) (purpose : Purpose τ dirs ptrs) (p : τ × Index dirs ptrs) :
    State τ δ dirs ptrs :=
  let page := s.table p
  if present page = false then s
  else if page < lowMem ∨ pagingMemory < page - lowMem then s
  else if dirty page then
    if s.memMap (page >>> 12) ≠ 1 then s
    else
      let (swapNr, swapBitmap) := getSwapPage s.swapBitmap
      if swapNr = 0 then s
      else
        ({ s with swapBitmap := swapBitmap }.setTable p (swapNr <<< 1)).setActivity t
          (.writing purpose swapNr (page >>> 12) false)
  else (s.freePage (page >>> 12)).setTable p 0

/-- `get_free_page` has found a page, and its caller goes on to where it sleeps. -/
def gotPage [Inhabited δ] (s : State τ δ dirs ptrs) (t : τ) (page : Nat) (purpose : Purpose τ dirs ptrs) :
    State τ δ dirs ptrs :=
  let s := (s.setCount page 1).setPage page default
  match purpose with
  | .swapIn _ swapNr => s.setActivity t (.reading purpose swapNr page none)
  | .emptyPage i => (s.setTable (t, i) (page <<< 12 ||| 7)).setActivity t .user
  | .pageTable d => (s.setDir (t, d) (page <<< 12 ||| 7)).setActivity t .user
  | .copyTable d c =>
    (s.setDir (c.child, d) (page <<< 12 ||| 7)).setActivity t
      (.copying { c with entriesLeft := (List.finRange ptrs).map fun nr => (d, nr) })
  | .copyEntry _ thisPage _ => s.setActivity t (.reading purpose (thisPage >>> 1) page none)

/-- `get_free_page` has returned 0: `fork` fails, the others call `oom`. -/
def noPage (s : State τ δ dirs ptrs) (t : τ) (codeSize dataSize : Nat) (purpose : Purpose τ dirs ptrs) :
    State τ δ dirs ptrs :=
  match purpose.copying with
  | some c => ((s.freePageTables c.child 0 c.size).setActivity c.child .free).setActivity t .user
  | none => s.exit t codeSize dataSize

/-- One entry or one directory entry of `copy_page_tables` -/
def copyNext (s : State τ δ dirs ptrs) (t : τ) (c : Copying τ dirs ptrs) : State τ δ dirs ptrs :=
  match c.entriesLeft, c.dirsLeft with
  | i :: entriesLeft, _ =>
    let thisPage := s.table (t, i)
    let c := { c with entriesLeft := entriesLeft }
    if thisPage = 0 then s.setActivity t (.copying c)
    else if present thisPage = false then s.setActivity t (.allocating (.copyEntry i thisPage c))
    else
      let thisPage := clearRw thisPage
      let s := s.setTable (c.child, i) thisPage
      if lowMem < thisPage then
        ((s.setTable (t, i) thisPage).setCount (thisPage >>> 12) (s.memMap (thisPage >>> 12) + 1)).setActivity t
          (.copying c)
      else s.setActivity t (.copying c)
  | [], d :: dirsLeft =>
    let c := { c with dirsLeft := dirsLeft }
    if present (s.dir (c.child, d)) then { s with panicked := true }
    else if present (s.dir (t, d)) = false then s.setActivity t (.copying c)
    else s.setActivity t (.allocating (.copyTable d c))
  | [], [] => (s.setActivity c.child .user).setActivity t .user

def serve (s : State τ δ dirs ptrs) (t : τ) : Option (State τ δ dirs ptrs) :=
  match s.activity t with
  | .writing purpose swapNr page false =>
    some ({ s with slot := update s.slot swapNr (s.memory page) }.setActivity t
      (.writing purpose swapNr page true))
  | .reading purpose swapNr page none =>
    some ((s.setPage page (s.slot swapNr)).setActivity t (.reading purpose swapNr page (some (s.slot swapNr))))
  | _ => none

def resume (s : State τ δ dirs ptrs) (t : τ) : Option (State τ δ dirs ptrs) :=
  match s.activity t with
  | .copying c => some (s.copyNext t c)
  | .writing purpose _ page true => some ((s.freePage page).setActivity t (.allocating purpose))
  | .reading (.swapIn i swapNr) _ page (some _) =>
    some (({ s with swapBitmap := update s.swapBitmap swapNr true }.setTable (t, i)
      (page <<< 12 ||| (pageDirty ||| 7))).setActivity t .user)
  | .reading (.copyEntry i thisPage c) _ page (some _) =>
    some (((s.setTable (c.child, i) thisPage).setTable (t, i) (page <<< 12 ||| (pageDirty ||| 7))).setActivity t
      (.copying c))
  | _ => none

/-- `swap_in` or `get_empty_page`, up to `get_free_page` -/
def fault (s : State τ δ dirs ptrs) (t : τ) (i : Index dirs ptrs) : Option (State τ δ dirs ptrs) :=
  if s.table (t, i) = 0 then
    if present (s.dir (t, i.1)) then some (s.setActivity t (.allocating (.emptyPage i)))
    else some (s.setActivity t (.allocating (.pageTable i.1)))
  else if present (s.table (t, i)) then none
  else some (s.setActivity t (.allocating (.swapIn i (s.table (t, i) >>> 1))))

def step [Inhabited δ] (s : State τ δ dirs ptrs) (m : Move τ δ dirs ptrs) : Option (State τ δ dirs ptrs) :=
  if s.panicked then none
  else
    match m with
    | .write t i data =>
      match s.activity t with
      | .user =>
        if present (s.table (t, i)) ∧ writable (s.table (t, i)) then
          some ((s.setPage (s.table (t, i) >>> 12) data).setTable (t, i) (setDirty (s.table (t, i))))
        else none
      | _ => none
    | .fault t i =>
      match s.activity t with
      | .user => s.fault t i
      | _ => none
    | .allocate t page =>
      match s.activity t with
      | .allocating purpose =>
        if lowMem >>> 12 ≤ page ∧ page < s.highMemory ∧ s.memMap page = 0 then some (s.gotPage t page purpose)
        else none
      | _ => none
    | .swapOut t p =>
      match s.activity t with
      | .allocating purpose =>
        if present (s.dir (p.1, p.2.1)) then some (s.tryToSwapOut t purpose p) else none
      | _ => none
    | .outOfMemory t codeSize dataSize =>
      match s.activity t with
      | .allocating purpose => some (s.noPage t codeSize dataSize purpose)
      | _ => none
    | .serve t => s.serve t
    | .resume t => s.resume t
    | .fork t child size =>
      match s.activity t, s.activity child with
      | .user, .free =>
        some ((s.setActivity child .unborn).setActivity t
          (.copying { child := child, size := size, dirsLeft := (List.finRange dirs).take size, entriesLeft := [] }))
      | _, _ => none
    | .freeTables t first size =>
      match s.activity t with
      | .user => some (s.freePageTables t first size)
      | _ => none
    | .exit t codeSize dataSize =>
      match s.activity t with
      | .user => some (s.exit t codeSize dataSize)
      | _ => none

def freeSlots (s : State τ δ dirs ptrs) (nr : Nat) : Bool := decide (nr < swapBits) && s.swapBitmap nr

def slotHeld (s : State τ δ dirs ptrs) (p : τ × Index dirs ptrs) : Option Nat := slotOf (s.table p)

def pageHeld (s : State τ δ dirs ptrs) : (τ × Index dirs ptrs) ⊕ ((τ × Fin dirs) ⊕ τ) → Option Nat :=
  Sum.elim (fun p => pageOf (s.table p)) (Sum.elim (fun d => pageOf (s.dir d)) fun t => (s.activity t).page)

def InMemory (highMemory page : Nat) : Prop := lowMem >>> 12 ≤ page ∧ page < highMemory

/-- The books of the memory manager: each slot that was `usable` is free or in one entry,
`mem_map` counts the users of a page, and there are no entries without a table. -/
structure Accounts [Fintype τ] (usable : Nat → Bool) (s : State τ δ dirs ptrs) : Prop where
  inBitmap : ∀ nr, usable nr = true → nr < swapBits
  slots : Exclusive usable s.freeSlots s.slotHeld
  pages : Counted (InMemory s.highMemory) s.memMap s.pageHeld
  hollow : ∀ t i, present (s.dir (t, i.1)) = false → s.table (t, i) = 0

/-- A state in which `init_swapping` has returned: nothing is swapped out, and no task is
inside the memory manager. -/
structure Booted [Fintype τ] (swapBitmap : Nat → Bool) (s : State τ δ dirs ptrs) : Prop where
  bitmap : s.swapBitmap = swapBitmap
  resident : ∀ p, s.table p = 0 ∨ present (s.table p) = true
  counted : Counted (InMemory s.highMemory) s.memMap s.pageHeld
  hollow : ∀ t i, present (s.dir (t, i.1)) = false → s.table (t, i) = 0
  quiet : ∀ t, s.activity t = .free ∨ s.activity t = .user

/-- Among the slots from 1 on and below `swap_size`, those that were not usable stay taken, a
usable one is taken exactly when one entry has it, and no entry has another slot. -/
structure SlotsOwned (usable : Nat → Bool) (swapSize : Nat) (s : State τ δ dirs ptrs) : Prop where
  clear_iff : ∀ n, 1 ≤ n → n < swapSize →
    (s.swapBitmap n = false ↔ usable n = false ∨ ∃! p, s.table p = n <<< 1)
  inside : ∀ p, s.table p ≠ 0 → present (s.table p) = false →
    ∃ n, 1 ≤ n ∧ n < swapSize ∧ usable n = true ∧ s.table p = n <<< 1

/-- A step by which a parent that has read a slot gives its entry to the child. The parent
gets the page that the slot was read to, and nobody else has that page. -/
def HandsOver (s s' : State τ δ dirs ptrs) (t : τ) : Prop :=
  ∀ i thisPage c swapNr page data,
    s.activity t = .reading (.copyEntry i thisPage c) swapNr page (some data) →
    s.table (t, i) = swapNr <<< 1 ∧ s'.table (c.child, i) = swapNr <<< 1 ∧
    s'.table (t, i) = page <<< 12 ||| (pageDirty ||| 7) ∧ s'.memory page = data ∧
    ∀ p, pageOf (s'.table p) = some page → p = (t, i)

def InOrder (s : State τ δ dirs ptrs) : Move τ δ dirs ptrs → Prop
  | .serve t => ∀ purpose swapNr page, s.activity t = .reading purpose swapNr page none →
      ∀ u purpose' page', s.activity u ≠ .writing purpose' swapNr page' false
  | _ => True

end State

end Linux012.Mm.Swap

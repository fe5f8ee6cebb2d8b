import Linux012.BlkDrv.Request
import Linux012.Lib.IntrusiveList
import Mathlib.Algebra.GroupWithZero.Nat

/-! The buffer cache of `fs/buffer.c` and the part of `ll_rw_blk.c` that turns a
buffer into a queued request. Each definition is the effect of a piece of code
that runs without sleeping; where processes sleep is the matter of
`Linux012.Fs.BufferProcess`. -/

set_option autoImplicit false

namespace Linux012.Fs

open BlkDrv IntrusiveList Function

def BLOCK_SIZE : Nat := 1024
def NR_HASH : Nat := 307

instance : NeZero BLOCK_SIZE := ⟨by decide⟩

abbrev Block := Fin BLOCK_SIZE → UInt8

def Block.zero : Block := fun _ => 0

/-- The buffer heads `start_buffer[0..NR_BUFFERS-1]`, field by field, with the
two lists they are on, the request pool and the disks. Head pointers are
indices; `prev` and `next` may be `NULL`, the free-list links never are.
`count` is a byte in the source, far above the references that 64 processes
hold to one buffer. `stored` and `unsent` are not in the source: they record the
contents most recently stored to each block, and the bytes stored to a buffer
since its last write request was issued. -/
structure Cache where
  nrBuffers : Nat
  data : Nat → Block
  blocknr : Nat → Nat
  dev : Nat → Nat
  uptodate : Nat → Bool
  dirt : Nat → Bool
  count : Nat → Nat
  lock : Nat → Bool
  prev : Nat → Option Nat
  next : Nat → Option Nat
  prevFree : Nat → Nat
  nextFree : Nat → Nat
  hashTable : Nat → Option Nat
  freeList : Nat
  request : Nat → Request
  queue : Nat → List Nat
  disk : Nat → Nat → Block
  stored : Nat → Nat → Block
  unsent : Nat → Fin BLOCK_SIZE → Bool

def hashfn (dev block : Nat) : Nat := (dev ^^^ block) % NR_HASH

namespace Cache

/-! ## Lists of buffer heads -/

/-- The hash-queue half of `remove_from_queues`. -/
def removeFromHash (c : Cache) (bh : Nat) : Cache :=
  let c := { c with prev := storeAt c.prev (c.next bh) (c.prev bh) }
  let c := { c with next := storeAt c.next (c.prev bh) (c.next bh) }
  let hash := hashfn (c.dev bh) (c.blocknr bh)
  if c.hashTable hash = some bh then
    { c with hashTable := update c.hashTable hash (c.next bh) }
  else c

/-- The free-list half of `remove_from_queues`. -/
def removeFromFree (c : Cache) (bh : Nat) : Cache :=
  let c := { c with nextFree := update c.nextFree (c.prevFree bh) (c.nextFree bh) }
  let c := { c with prevFree := update c.prevFree (c.nextFree bh) (c.prevFree bh) }
  if c.freeList = bh then { c with freeList := c.nextFree bh } else c

def removeFromQueues (c : Cache) (bh : Nat) : Cache := (c.removeFromHash bh).removeFromFree bh

def insertIntoFree (c : Cache) (bh : Nat) : Cache :=
  let c := { c with nextFree := update c.nextFree bh c.freeList }
  let c := { c with prevFree := update c.prevFree bh (c.prevFree c.freeList) }
  let c := { c with nextFree := update c.nextFree (c.prevFree c.freeList) bh }
  { c with prevFree := update c.prevFree c.freeList bh }

def insertIntoHash (c : Cache) (bh : Nat) : Cache :=
  let c := { c with prev := update c.prev bh none }
  let c := { c with next := update c.next bh none }
  if c.dev bh = 0 then c
  else
    let hash := hashfn (c.dev bh) (c.blocknr bh)
    let c := { c with next := update c.next bh (c.hashTable hash) }
    let c := { c with hashTable := update c.hashTable hash (some bh) }
    -- the source stores through b_next even when it is NULL
    { c with prev := storeAt c.prev (c.next bh) (some bh) }

def insertIntoQueues (c : Cache) (bh : Nat) : Cache := (c.insertIntoFree bh).insertIntoHash bh

/-- The loop of `find_buffer` from `tmp` on; a chain holds no head twice, so
`nrBuffers + 1` rounds reach its end. -/
def findFrom (c : Cache) (dev block : Nat) : Nat → Option Nat → Option Nat
  | 0, _ => none
  | _ + 1, none => none
  | rounds + 1, some tmp =>
    if c.dev tmp = dev ∧ c.blocknr tmp = block then some tmp
    else findFrom c dev block rounds (c.next tmp)

def findBuffer (c : Cache) (dev block : Nat) : Option Nat :=
  c.findFrom dev block (c.nrBuffers + 1) (c.hashTable (hashfn dev block))

def badness (c : Cache) (bh : Nat) : Nat := (c.dirt bh).toNat <<< 1 + (c.lock bh).toNat

/-- The `do ... while` loop of `getblk` over the free list, at `tmp` with the
best candidate so far; the free list is a circle of `nrBuffers` heads. -/
def scanFree (c : Cache) : Nat → Nat → Option Nat → Option Nat
  | 0, _, bh => bh
  | rounds + 1, tmp, bh =>
    let better := c.count tmp = 0 ∧ (bh = none ∨ ∃ b ∈ bh, c.badness tmp < c.badness b)
    let bh' := if better then some tmp else bh
    if better ∧ c.badness tmp = 0 then bh'
    else if c.nextFree tmp = c.freeList then bh'
    else scanFree c rounds (c.nextFree tmp) bh'

/-- The end of `getblk`: the unused buffer `bh` becomes that of `(dev, block)`. -/
def take (c : Cache) (bh dev block : Nat) : Cache :=
  let c := { c with count := update c.count bh 1 }
  let c := { c with dirt := update c.dirt bh false }
  let c := { c with uptodate := update c.uptodate bh false }
  let c := c.removeFromQueues bh
  let c := { c with dev := update c.dev bh dev }
  let c := { c with blocknr := update c.blocknr bh block }
  c.insertIntoQueues bh

/-! ## References, locks and contents -/

def incCount (c : Cache) (bh : Nat) : Cache :=
  { c with count := update c.count bh (c.count bh + 1) }

def decCount (c : Cache) (bh : Nat) : Cache :=
  { c with count := update c.count bh (c.count bh - 1) }

def setLock (c : Cache) (bh : Nat) (locked : Bool) : Cache :=
  { c with lock := update c.lock bh locked }

def setDirt (c : Cache) (bh : Nat) : Cache :=
  { c with dirt := update c.dirt bh true }

def write (c : Cache) (bh : Nat) (change : Block → Block) : Cache :=
  { c with
    data := update c.data bh (change (c.data bh))
    stored := update c.stored (c.dev bh)
      (update (c.stored (c.dev bh)) (c.blocknr bh)
        (change (c.stored (c.dev bh) (c.blocknr bh))))
    unsent := update c.unsent bh fun _ => true }

/-- One `*(p++) = ...` into the data of a buffer. -/
def writeByte (c : Cache) (bh : Nat) (offset : Fin BLOCK_SIZE) (byte : UInt8) : Cache :=
  { c with
    data := update c.data bh (update (c.data bh) offset byte)
    stored := update c.stored (c.dev bh)
      (update (c.stored (c.dev bh)) (c.blocknr bh)
        (update (c.stored (c.dev bh) (c.blocknr bh)) offset byte))
    unsent := update c.unsent bh (update (c.unsent bh) offset true) }

/-- What `new_block` does to the buffer of a fresh block. -/
def clearBlock (c : Cache) (bh : Nat) : Cache :=
  let c := c.write bh fun _ => Block.zero
  { c with
    uptodate := update c.uptodate bh true
    dirt := update c.dirt bh true }

/-! ## Requests -/

def findRequest (c : Cache) : Nat → Option Nat
  | 0 => none
  | req + 1 => if (c.request req).dev < 0 then some req else c.findRequest req

def requestLimit (rw : Nat) : Nat := if rw = READ then NR_REQUEST else NR_REQUEST * 2 / 3

/-- The request that `make_request` fills in for a buffer. -/
def requestFor (c : Cache) (rw bh : Nat) : Request where
  dev := c.dev bh
  cmd := rw
  errors := 0
  sector := c.blocknr bh <<< 1
  nrSectors := 2
  waiting := none
  bh := some bh

/-- The end of `make_request` with the call of `add_request`. -/
def enqueue (c : Cache) (slot rw bh : Nat) : Cache :=
  let request := update c.request slot (c.requestFor rw bh)
  let line := major (c.dev bh)
  { c with
    request := request
    dirt := update c.dirt bh false
    queue := update c.queue line (addRequest request slot (c.queue line))
    unsent := if rw = WRITE then update c.unsent bh (fun _ => false) else c.unsent }

def transfer (c : Cache) (req : Request) (bh : Nat) : Cache :=
  let dev := req.dev.toNat
  let block := req.sector >>> 1
  if req.cmd = READ then { c with data := update c.data bh (c.disk dev block) }
  else
    { c with
      disk := update c.disk dev (update (c.disk dev) block (c.data bh)) }

/-- The request in progress on `line` succeeds: its data moves and
`end_request(1)` takes it off the queue. -/
def endRequest (c : Cache) (line : Nat) : Cache :=
  match c.queue line with
  | [] => c
  | slot :: rest =>
    let req := c.request slot
    let c := match req.bh with
      | none => c
      | some bh =>
        let c := c.transfer req bh
        let c := { c with uptodate := update c.uptodate bh true }
        c.setLock bh false
    { c with
      request := update c.request slot { req with dev := -1 }
      queue := update c.queue line rest }

/-- The cache as `buffer_init` and `blk_dev_init` leave it over `n` heads, whose
block numbers and data are whatever was in memory. -/
def init (n : Nat) (blocknr : Nat → Nat) (data : Nat → Block) (disk : Nat → Nat → Block) : Cache where
  nrBuffers := n
  data := data
  blocknr := blocknr
  dev := fun _ => 0
  uptodate := fun _ => false
  dirt := fun _ => false
  count := fun _ => 0
  lock := fun _ => false
  prev := fun _ => none
  next := fun _ => none
  prevFree := fun h => if h = 0 then n - 1 else h - 1
  nextFree := fun h => if h = n - 1 then 0 else h + 1
  hashTable := fun _ => none
  freeList := 0
  request := fun _ => .empty
  queue := fun _ => []
  disk := disk
  stored := disk
  unsent := fun _ _ => false

end Cache

end Linux012.Fs

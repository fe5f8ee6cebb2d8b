import Linux012.Fs.Buffer

/-! Processes inside the buffer cache. A process is the function it is in, at
one of the places where it may sleep or has just been called, and the stack of
its callers. One `advance` runs from such a place to the next; between two of
them any other process may run. The kernel switches at fewer places, since it
does so only where a process really sleeps. -/

set_option autoImplicit false

namespace Linux012.Fs

open BlkDrv

def NR_TASKS : Nat := 64

instance : NeZero NR_TASKS := ⟨by decide⟩

/-- What a function returns: nothing, `NULL`, or the buffer of `(dev, block)`,
with a mark when the caller is told that it was read. -/
inductive Value where
  | unit
  | null
  | buffer (dev block bh : Nat) (wasRead : Bool)
deriving DecidableEq

inductive Control where
  /-- outside the cache, holding references to buffers -/
  | user (held : List Nat)
  /-- the `for (;;)` of `get_hash_table` -/
  | getHashTable (dev block : Nat)
  /-- `wait_on_buffer` of `get_hash_table` -/
  | hashWait (dev block bh : Nat)
  /-- `repeat:` of `getblk` -/
  | getblk (dev block : Nat)
  /-- `sleep_on(&buffer_wait)` -/
  | starved (dev block : Nat)
  /-- `wait_on_buffer(bh)` of `getblk` -/
  | victimWait (dev block bh : Nat)
  /-- entry of `ll_rw_block`, up to `lock_buffer` -/
  | llRwBlock (rw bh : Nat)
  /-- `sleep_on(&wait_for_request)`, with the buffer locked -/
  | requestWait (rw bh : Nat)
  /-- the last `wait_on_buffer` of `bread` and `breada` -/
  | breadWait (dev block bh : Nat)
  /-- the `while` loop of `breada`, with the blocks still to look at -/
  | breadaLoop (dev block bh : Nat) (ahead : List Nat)
  | brelse (bh : Nat)
  /-- the first or second loop of `sync_dev` at buffer `i` -/
  | syncDev (dev : Nat) (again : Bool) (i : Nat)
  | syncDevWait (dev : Nat) (again : Bool) (i : Nat)
  | sysSync (i : Nat)
  | ret (value : Value)
deriving DecidableEq

/-- A caller waiting for the function above it. -/
inductive Caller where
  | user (held : List Nat)
  /-- `get_hash_table` in `getblk` -/
  | getblk (dev block : Nat)
  /-- `sync_dev` in `getblk` -/
  | getblkSync (dev block bh : Nat)
  /-- `getblk` in `bread` -/
  | bread (dev block : Nat)
  | breadRead (dev block bh : Nat)
  | breadFail
  /-- `getblk` in `breada` -/
  | breada (dev block : Nat) (ahead : List Nat)
  | breadaRead (dev block bh : Nat) (ahead : List Nat)
  | breadaTmp (dev block bh : Nat) (ahead : List Nat)
  | breadaAhead (dev block bh tmp : Nat) (ahead : List Nat)
  | syncDevNext (dev : Nat) (again : Bool) (i : Nat)
  | sysSyncNext (i : Nat)
  /-- `sync_dev` inside `sync_inodes` -/
  | inodesSyncDev (dev : Nat)
  | inodesSysSync
deriving DecidableEq

structure Process where
  control : Control
  stack : List Caller
deriving DecidableEq

/-- What a process outside the cache may do next. `sync_inodes` is a process
that does some of this and then `returnInodes`. -/
inductive Act where
  | getHashTable (dev block : Nat)
  | getblk (dev block : Nat)
  | bread (dev block : Nat)
  | breada (dev block : Nat) (ahead : List Nat)
  | brelse (bh : Nat)
  | modify (bh : Nat) (change : Block → Block)
  | mark (bh : Nat)
  | store (bh : Nat) (offset : Fin BLOCK_SIZE) (byte : UInt8)
  | clear (bh : Nat)
  | sysSync
  | syncDev (dev : Nat)
  | returnInodes

section Machine

/- `driver m` says that `blk_dev[m].request_fn` is set. -/
variable (driver : Nat → Bool)

/-- `make_request` from `repeat:` on, with the buffer locked. -/
def makeRequest (c : Cache) (rw bh : Nat) (ahead : Bool) : Cache × Control :=
  match c.findRequest (Cache.requestLimit rw) with
  | some slot => (c.enqueue slot rw bh, .ret .unit)
  | none => if ahead then (c.setLock bh false, .ret .unit) else (c, .requestWait rw bh)

/-- `ll_rw_block(rw, bh)`; nothing when it panics or sleeps in `lock_buffer`. -/
def llRwBlock (c : Cache) (rw bh : Nat) : Option (Cache × Control) :=
  let ahead := rw = READA ∨ rw = WRITEA
  let cmd := if rw = READA then READ else if rw = WRITEA then WRITE else rw
  if NR_BLK_DEV ≤ major (c.dev bh) ∨ ¬ driver (major (c.dev bh)) then some (c, .ret .unit)
  else if ahead ∧ c.lock bh then some (c, .ret .unit)
  else if cmd ≠ READ ∧ cmd ≠ WRITE then none
  else if c.lock bh then none
  else if (cmd = WRITE ∧ ¬ c.dirt bh) ∨ (cmd = READ ∧ c.uptodate bh) then some (c, .ret .unit)
  else some (makeRequest (c.setLock bh true) cmd bh ahead)

/-- `getblk` after `get_hash_table` has found nothing. -/
def pickVictim (c : Cache) (dev block : Nat) : Control :=
  match c.scanFree c.nrBuffers c.freeList none with
  | none => .starved dev block
  | some bh => .victimWait dev block bh

def resume (c : Cache) (value : Value) : Caller → Cache × Control × List Caller
  | .user held =>
    match value with
    | .buffer _ _ bh _ => (c, .user (bh :: held), [])
    | _ => (c, .user held, [])
  | .getblk dev block =>
    match value with
    | .buffer _ _ bh _ => (c, .ret (.buffer dev block bh false), [])
    | _ => (c, pickVictim c dev block, [])
  | .getblkSync dev block bh => (c, .victimWait dev block bh, [])
  | .bread dev block =>
    match value with
    | .buffer _ _ bh _ =>
      if c.uptodate bh then (c, .ret (.buffer dev block bh true), [])
      else (c, .llRwBlock READ bh, [.breadRead dev block bh])
    | _ => (c, .ret .null, [])
  | .breadRead dev block bh => (c, .breadWait dev block bh, [])
  | .breadFail => (c, .ret .null, [])
  | .breada dev block ahead =>
    match value with
    | .buffer _ _ bh _ =>
      if c.uptodate bh then (c, .breadaLoop dev block bh ahead, [])
      else (c, .llRwBlock READ bh, [.breadaRead dev block bh ahead])
    | _ => (c, .ret .null, [])
  | .breadaRead dev block bh ahead => (c, .breadaLoop dev block bh ahead, [])
  | .breadaTmp dev block bh ahead =>
    match value with
    | .buffer _ _ tmp _ =>
      if c.uptodate tmp then (c.decCount tmp, .breadaLoop dev block bh ahead, [])
      -- the source hands bh and not tmp to ll_rw_block
      else (c, .llRwBlock READA bh, [.breadaAhead dev block bh tmp ahead])
    | _ => (c, .breadaLoop dev block bh ahead, [])
  | .breadaAhead dev block bh tmp ahead =>
    (c.decCount tmp, .breadaLoop dev block bh ahead, [])
  | .syncDevNext dev again i => (c, .syncDev dev again (i + 1), [])
  | .sysSyncNext i => (c, .sysSync (i + 1), [])
  | .inodesSyncDev dev => (c, .syncDev dev true 0, [])
  | .inodesSysSync => (c, .sysSync 0, [])

/-- Run one process from the place it is at to the next; nothing when it sleeps
there, has no step of its own or panics. The callers it adds go on the stack. -/
def advance (c : Cache) : Control → Option (Cache × Control × List Caller)
  | .user _ => none
  | .getHashTable dev block =>
    match c.findBuffer dev block with
    | some bh => some (c.incCount bh, .hashWait dev block bh, [])
    | none => some (c, .ret .null, [])
  | .hashWait dev block bh =>
    if c.lock bh then none
    else if c.dev bh = dev ∧ c.blocknr bh = block then
      some (c, .ret (.buffer dev block bh false), [])
    else some (c.decCount bh, .getHashTable dev block, [])
  | .getblk dev block => some (c, .getHashTable dev block, [.getblk dev block])
  | .starved dev block => some (c, .getblk dev block, [])
  | .victimWait dev block bh =>
    if c.lock bh then none
    else if c.count bh ≠ 0 then some (c, .getblk dev block, [])
    else if c.dirt bh then
      some (c, .syncDev (c.dev bh) false 0, [.getblkSync dev block bh])
    else if (c.findBuffer dev block).isSome then some (c, .getblk dev block, [])
    else some (c.take bh dev block, .ret (.buffer dev block bh false), [])
  | .llRwBlock rw bh => (llRwBlock driver c rw bh).map fun (c, control) => (c, control, [])
  | .requestWait rw bh =>
    match makeRequest c rw bh false with
    | (_, .requestWait _ _) => none
    | (c, control) => some (c, control, [])
  | .breadWait dev block bh =>
    if c.lock bh then none
    else if c.uptodate bh then some (c, .ret (.buffer dev block bh true), [])
    else some (c, .brelse bh, [.breadFail])
  | .breadaLoop dev block bh ahead =>
    match ahead with
    | [] => some (c, .breadWait dev block bh, [])
    | first :: rest => some (c, .getblk dev first, [.breadaTmp dev block bh rest])
  | .brelse bh =>
    if c.lock bh then none
    else if c.count bh = 0 then none
    else some (c.decCount bh, .ret .unit, [])
  | .syncDev dev again i =>
    if i < c.nrBuffers then
      if c.dev i = dev then some (c, .syncDevWait dev again i, [])
      else some (c, .syncDev dev again (i + 1), [])
    else if again then some (c, .ret .unit, [])
    else some (c, .user [], [.inodesSyncDev dev])
  | .syncDevWait dev again i =>
    if c.lock i then none
    else if c.dev i = dev ∧ c.dirt i then
      (llRwBlock driver c WRITE i).map fun (c, control) => (c, control, [.syncDevNext dev again i])
    else some (c, .syncDev dev again (i + 1), [])
  | .sysSync i =>
    if i < c.nrBuffers then
      if c.lock i then none
      else if c.dirt i then
        (llRwBlock driver c WRITE i).map fun (c, control) => (c, control, [.sysSyncNext i])
      else some (c, .sysSync (i + 1), [])
    else some (c, .ret .unit, [])
  | .ret _ => none

def begin (c : Cache) (held : List Nat) (stack : List Caller) :
    Act → Option (Cache × Control × List Caller)
  | .getHashTable dev block => some (c, .getHashTable dev block, .user held :: stack)
  | .getblk dev block => some (c, .getblk dev block, .user held :: stack)
  | .bread dev block => some (c, .getblk dev block, .bread dev block :: .user held :: stack)
  | .breada dev block ahead =>
    some (c, .getblk dev block, .breada dev block ahead :: .user held :: stack)
  | .brelse bh =>
    if bh ∈ held then some (c, .brelse bh, .user (held.erase bh) :: stack) else none
  | .modify bh change =>
    if bh ∈ held then some ((c.write bh change).setDirt bh, .user held, stack) else none
  | .mark bh => if bh ∈ held then some (c.setDirt bh, .user held, stack) else none
  | .store bh offset byte =>
    if bh ∈ held then some (c.writeByte bh offset byte, .user held, stack) else none
  | .clear bh =>
    -- new_block panics when it is not alone with the buffer
    if bh ∈ held ∧ c.count bh = 1 then some (c.clearBlock bh, .user held, stack) else none
  | .sysSync => some (c, .user [], .inodesSysSync :: .user held :: stack)
  | .syncDev dev => some (c, .syncDev dev false 0, .user held :: stack)
  | .returnInodes =>
    match held, stack with
    | [], .inodesSyncDev dev :: stack => some (c, .syncDev dev true 0, stack)
    | [], .inodesSysSync :: stack => some (c, .sysSync 0, stack)
    | _, _ => none

structure System where
  cache : Cache
  process : Fin NR_TASKS → Process

/-- Who moves: a process goes on, a process outside the cache begins something,
or the request in progress on a device line completes. -/
inductive Move where
  | advance (p : Fin NR_TASKS)
  | begin (p : Fin NR_TASKS) (act : Act)
  | complete (line : Nat)

def System.setProcess (s : System) (p : Fin NR_TASKS) (c : Cache) (control : Control)
    (stack : List Caller) : System where
  cache := c
  process := Function.update s.process p ⟨control, stack⟩

def System.step (s : System) : Move → Option System
  | .advance p =>
    match (s.process p).control, (s.process p).stack with
    | .ret value, caller :: stack =>
      let (c, control, callers) := resume s.cache value caller
      some (s.setProcess p c control (callers ++ stack))
    | control, stack =>
      (advance driver s.cache control).map fun (c, control, callers) =>
        s.setProcess p c control (callers ++ stack)
  | .begin p act =>
    match (s.process p).control with
    | .user held =>
      (begin s.cache held (s.process p).stack act).map fun (c, control, stack) =>
        s.setProcess p c control stack
    | _ => none
  | .complete line => if s.cache.queue line = [] then none else some { s with cache := s.cache.endRequest line }

def System.init (c : Cache) : System where
  cache := c
  process := fun _ => ⟨.user [], []⟩

end Machine

end Linux012.Fs

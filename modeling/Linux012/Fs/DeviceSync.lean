import Linux012.Fs.DeviceContents
import Linux012.Fs.InodeTable
import Linux012.Fs.ReadAhead

/-! `sync_dev` with its pass over the inode table, among processes that read buffers
and requests that complete. -/

set_option autoImplicit false

namespace Linux012.Fs.DeviceSync

open BlkDrv Transition Function
open InodeTable (DInode Super recordOf NR_INODE NR_SUPER INODES_PER_BLOCK)
open Option (map_eq_some_iff)

def byteOf (n k : Nat) : UInt8 := (n >>> (8 * k)).toUInt8

def recordByte (d : DInode) (k : Nat) : UInt8 :=
  if k < 2 then byteOf d.mode k
  else if k < 4 then byteOf d.uid (k - 2)
  else if k < 8 then byteOf d.size (k - 4)
  else if k < 12 then byteOf d.mtime (k - 8)
  else if k < 13 then byteOf d.gid 0
  else if k < 14 then byteOf d.nlinks 0
  else byteOf (d.zone (.ofNat 9 ((k - 14) / 2))) ((k - 14) % 2)

def storeRecord (k : Nat) (d : DInode) (b : Block) : Block := fun j =>
  if j / 32 = k then recordByte d (j % 32) else b j

structure Inode where
  data : DInode
  dev : Nat
  num : Nat
  lock : Bool
  dirt : Bool
  pipe : Bool

inductive Pass where
  | scan (i : Nat)
  /-- in `bread` of `write_inode` -/
  | reading (i : Fin NR_INODE)
  /-- in `brelse` of `write_inode` -/
  | releasing (i : Fin NR_INODE)

structure State where
  system : System
  inode : Fin NR_INODE → Inode
  pass : Pass

def getSuper (super : Fin NR_SUPER → Super) (dev : Nat) : Option Super :=
  if dev = 0 then none
  else ((List.finRange NR_SUPER).find? fun k => (super k).dev = dev).map super

inductive Move where
  /-- the process that has called `sync_dev` goes on -/
  | run
  | advance (q : Fin NR_TASKS)
  | begin (q : Fin NR_TASKS) (act : Act)
  | complete (line : Nat)

section Machine

variable (driver : Nat → Bool) (super : Fin NR_SUPER → Super) (p : Fin NR_TASKS) (base : List Caller)

/-- `write_inode` of an inode that is not locked, up to `bread`. -/
def State.writeInode (s : State) (i : Fin NR_INODE) : Option State :=
  let inode := s.inode i
  if inode.dirt = false ∨ inode.dev = 0 then some { s with pass := .scan (i + 1) }
  else
    (getSuper super inode.dev).bind fun sb =>
      (s.system.step driver (.begin p (.bread inode.dev (sb.blockOf inode.num)))).map fun system =>
        { system, inode := update s.inode i { inode with lock := true }, pass := .reading i }

def State.syncInodes (s : State) (i : Nat) : Option State :=
  if below : i < NR_INODE then
    let inode := s.inode ⟨i, below⟩
    if inode.lock then none
    else if inode.dirt ∧ ¬inode.pipe then s.writeInode driver super p ⟨i, below⟩
    else some { s with pass := .scan (i + 1) }
  else (s.system.step driver (.begin p .returnInodes)).map fun system => { s with system }

/-- `write_inode` goes on after a call; nothing when it panics. -/
def State.returned (s : State) (value : Value) : Option State :=
  match s.pass, value with
  | .reading i, .buffer _ _ bh _ =>
    let inode := s.inode i
    let store := storeRecord (recordOf inode.num % INODES_PER_BLOCK) inode.data
    (s.system.step driver (.advance p)).bind fun system =>
      (system.step driver (.begin p (.modify bh store))).bind fun system =>
        (system.step driver (.begin p (.brelse bh))).map fun system =>
          { system, inode := update s.inode i { inode with dirt := false }, pass := .releasing i }
  | .releasing i, .unit =>
    (s.system.step driver (.advance p)).map fun system =>
      { system, inode := update s.inode i { s.inode i with lock := false }, pass := .scan (i + 1) }
  | _, _ => none

/-- The process goes on, until `sync_dev` returns to `base`. A `sync_dev` that
`getblk` has called while an inode is being written gets as far as this inode, which is locked. -/
def State.run (s : State) : Option State :=
  match (s.system.process p).control, (s.system.process p).stack, s.pass with
  | .user _, .inodesSyncDev _ :: _, .scan i => s.syncInodes driver super p i
  | .user _, _, _ => none
  | .ret value, stack, _ =>
    if stack = base then none
    else
      match stack with
      | .user _ :: _ => s.returned driver p value
      | _ => (s.system.step driver (.advance p)).map fun system => { s with system }
  | _, _, _ => (s.system.step driver (.advance p)).map fun system => { s with system }

def State.step (s : State) : Move → Option State
  | .run => s.run driver super p base
  | .advance q =>
    if q = p then none else (s.system.step driver (.advance q)).map fun system => { s with system }
  | .begin q act =>
    if q = p then none else (s.system.step driver (.begin q act)).map fun system => { s with system }
  | .complete line => (s.system.step driver (.complete line)).map fun system => { s with system }

end Machine

def State.Quiet (dev : Nat) (s : State) : Move → Prop
  | .advance q => s.system.Quiet dev (.advance q)
  | .begin q act => s.system.Quiet dev (.begin q act)
  | _ => True

/-! ## The scans of the cache -/

def Scanned (c : Cache) (dev i : Nat) : Prop := ∀ h < i, c.dev h = dev → c.dirt h = false

def ValidDirt (c : Cache) (dev n : Nat) : Prop :=
  ∀ h < n, c.dev h = dev → c.dirt h = true → c.uptodate h = true

inductive Scanning (c : Cache) (dev : Nat) (base : List Caller) (again : Bool) : Process → Prop where
  | visit {i : Nat} (scanned : Scanned c dev i) : Scanning c dev base again ⟨.syncDev dev again i, base⟩
  | wait {i : Nat} (scanned : Scanned c dev i) : Scanning c dev base again ⟨.syncDevWait dev again i, base⟩
  | asking {i : Nat} (scanned : Scanned c dev i) :
      Scanning c dev base again ⟨.requestWait WRITE i, .syncDevNext dev again i :: base⟩
  | asked {i : Nat} (scanned : Scanned c dev (i + 1)) :
      Scanning c dev base again ⟨.ret .unit, .syncDevNext dev again i :: base⟩

section Scans

variable {driver : Nat → Bool} {c c' : Cache} {dev : Nat} {base : List Caller} {again : Bool}

theorem Scanned.calm {i : Nat} (scanned : Scanned c dev i) (calms : c.Calms c') : Scanned c' dev i := by
  intro h below mine
  by_contra dirty
  rw [Bool.not_eq_false] at dirty
  obtain ⟨before, sameDev, -⟩ := calms h dirty
  exact absurd before (by simp [scanned h below (sameDev ▸ mine)])

theorem Scanned.succ {i : Nat} (scanned : Scanned c dev i) (here : c.dev i = dev → c.dirt i = false) :
    Scanned c dev (i + 1) := by
  intro h below mine
  rcases Nat.lt_succ_iff_lt_or_eq.mp below with earlier | rfl
  · exact scanned h earlier mine
  · exact here mine

theorem ValidDirt.calm {n : Nat} (valid : ValidDirt c dev n) (calms : c.Calms c') : ValidDirt c' dev n := by
  intro h inside mine dirty
  obtain ⟨before, sameDev, kept⟩ := calms h dirty
  exact kept (valid h inside (sameDev ▸ mine) before)

theorem ValidDirt.spares {n : Nat} {control : Control} (valid : ValidDirt c dev n)
    (inside : ∀ h ∈ control.heads, h < n) : control.Spares c dev := by
  have clean (h : Nat) (below : h < n) (mine : c.dev h = dev) (invalid : c.uptodate h = false) :
      c.dirt h = false := by
    by_contra dirty
    exact absurd (valid h below mine (by simpa using dirty)) (by simp [invalid])
  cases control with
  | llRwBlock rw h | requestWait rw h => exact fun _ => clean h (inside h (.head _))
  | _ => trivial

theorem Scanned.validDirt {n : Nat} (scanned : Scanned c dev n) : ValidDirt c dev n := by
  intro h inside mine dirty
  exact absurd dirty (by simp [scanned h inside mine])

theorem Scanning.calm {proc : Process} (scanning : Scanning c dev base again proc) (calms : c.Calms c') :
    Scanning c' dev base again proc := by
  cases scanning with
  | visit scanned => exact .visit (scanned.calm calms)
  | wait scanned => exact .wait (scanned.calm calms)
  | asking scanned => exact .asking (scanned.calm calms)
  | asked scanned => exact .asked (scanned.calm calms)

theorem Scanning.spares {proc : Process} (scanning : Scanning c dev base again proc) :
    proc.control.Spares c dev := by
  cases scanning with
  | asking scanned => exact fun other => absurd rfl other
  | _ => trivial

theorem llRwBlock_write {h : Nat} (near : major (c.dev h) < NR_BLK_DEV) (served : driver (major (c.dev h)) = true)
    (unlocked : c.lock h = false) (dirty : c.dirt h = true) :
    llRwBlock driver c WRITE h = some (makeRequest (c.setLock h true) WRITE h false) := by
  have far : ¬(NR_BLK_DEV ≤ major (c.dev h) ∨ ¬driver (major (c.dev h)) = true) := by
    rw [not_or, not_not]
    exact ⟨Nat.not_le.mpr near, served⟩
  simp only [llRwBlock, if_neg far, unlocked, dirty]
  simp [WRITE, READ, READA, WRITEA]

theorem dirt_enqueue (c : Cache) (slot rw h : Nat) : (c.enqueue slot rw h).dirt h = false := update_self ..

theorem makeRequest_write (c : Cache) (h : Nat) :
    (∃ slot, makeRequest c WRITE h false = (c.enqueue slot WRITE h, .ret .unit)) ∨
      makeRequest c WRITE h false = (c, .requestWait WRITE h) := by
  unfold makeRequest
  cases c.findRequest (Cache.requestLimit WRITE) with
  | none => exact .inr rfl
  | some slot => exact .inl ⟨slot, rfl⟩

theorem setProcess_self (s : System) (p : Fin NR_TASKS) (c : Cache) (control : Control) (stack : List Caller) :
    (s.setProcess p c control stack).process p = ⟨control, stack⟩ := update_self ..

theorem Scanning.step {n : Nat} {s s' : System} {p : Fin NR_TASKS} (near : major dev < NR_BLK_DEV)
    (served : driver (major dev) = true) (size : s.cache.nrBuffers = n)
    (scanning : Scanning s.cache dev base again (s.process p)) (moved : s.step driver (.advance p) = some s')
    (calms : s.cache.Calms s'.cache) :
    Scanning s'.cache dev base again (s'.process p) ∨
      Scanned s'.cache dev n ∧
        s'.process p = if again then ⟨.ret .unit, base⟩ else ⟨.user [], .inodesSyncDev dev :: base⟩ := by
  generalize here : s.process p = proc at scanning
  cases scanning with
  | @visit i scanned =>
    simp only [System.step, here, advance] at moved
    split at moved
    · split at moved
      · cases moved
        rw [setProcess_self]
        exact .inl (.wait scanned)
      · next other =>
        cases moved
        rw [setProcess_self]
        exact .inl (.visit (scanned.succ fun mine => absurd mine other))
    · next beyond =>
      have all : Scanned s.cache dev n := fun h below => scanned h (by omega)
      split at moved
      · next second =>
        cases moved
        rw [setProcess_self, if_pos second]
        exact .inr ⟨all, rfl⟩
      · next first =>
        cases moved
        rw [setProcess_self, if_neg first]
        exact .inr ⟨all, rfl⟩
  | @wait i scanned =>
    have scanned' := scanned.calm calms
    simp only [System.step, here, advance] at moved
    split at moved
    · cases moved
    · next unlocked =>
      split at moved
      · next needed =>
        obtain ⟨mine, dirty⟩ := needed
        rw [llRwBlock_write (mine ▸ near) (mine ▸ served) (by simpa using unlocked) dirty] at moved
        rcases makeRequest_write (s.cache.setLock i true) i with ⟨slot, queued⟩ | full
        · rw [queued] at moved
          cases moved
          rw [setProcess_self]
          exact .inl (.asked (scanned'.succ fun _ => dirt_enqueue _ _ _ _))
        · rw [full] at moved
          cases moved
          rw [setProcess_self]
          exact .inl (.asking scanned')
      · next other =>
        cases moved
        rw [setProcess_self]
        exact .inl (.visit (scanned.succ fun mine => by simpa [mine] using other))
  | @asking i scanned =>
    have scanned' := scanned.calm calms
    simp only [System.step, here, advance] at moved
    rcases makeRequest_write s.cache i with ⟨slot, queued⟩ | full
    · rw [queued] at moved
      cases moved
      rw [setProcess_self]
      exact .inl (.asked (scanned'.succ fun _ => dirt_enqueue _ _ _ _))
    · rw [full] at moved
      cases moved
  | @asked i scanned =>
    simp only [System.step, here, resume] at moved
    cases moved
    rw [setProcess_self]
    exact .inl (.visit scanned)

end Scans

/-! ## The pass over the inodes -/

def writer (dev : Nat) (base : List Caller) : List Caller := .user [] :: .inodesSyncDev dev :: base

def isUser : Caller → Bool
  | .user _ => true
  | _ => false

/-- The places in `sync_inodes`; `block` is that of the inode being written. -/
inductive Writing (dev : Nat) (base : List Caller) (block : Nat × Nat) : Process → Pass → Prop where
  | scan {k : Nat} (more : k ≤ NR_INODE) : Writing dev base block ⟨.user [], .inodesSyncDev dev :: base⟩ (.scan k)
  | getting {i : Fin NR_INODE} {control : Control} (inner : List Caller) (inside : inner.countP isUser = 0) :
      Writing dev base block ⟨control, inner ++ .bread block.1 block.2 :: writer dev base⟩ (.reading i)
  | requesting {i : Fin NR_INODE} {control : Control} {bh : Nat} (inner : List Caller)
      (inside : inner.countP isUser = 0) :
      Writing dev base block ⟨control, inner ++ .breadRead block.1 block.2 bh :: writer dev base⟩ (.reading i)
  | waiting {i : Fin NR_INODE} {bh : Nat} :
      Writing dev base block ⟨.breadWait block.1 block.2 bh, writer dev base⟩ (.reading i)
  | failing {i : Fin NR_INODE} {control : Control} (inner : List Caller) (inside : inner.countP isUser = 0) :
      Writing dev base block ⟨control, inner ++ .breadFail :: writer dev base⟩ (.reading i)
  | failed {i : Fin NR_INODE} : Writing dev base block ⟨.ret .null, writer dev base⟩ (.reading i)
  | read {i : Fin NR_INODE} {bh : Nat} :
      Writing dev base block ⟨.ret (.buffer block.1 block.2 bh true), writer dev base⟩ (.reading i)
  | releasing {i : Fin NR_INODE} {bh : Nat} : Writing dev base block ⟨.brelse bh, writer dev base⟩ (.releasing i)
  | released {i : Fin NR_INODE} : Writing dev base block ⟨.ret .unit, writer dev base⟩ (.releasing i)

section Inodes

variable {driver : Nat → Bool} {c c' : Cache} {dev : Nat} {base : List Caller} {block : Nat × Nat} {pass : Pass}

theorem Writing.of_scan {proc : Process} {k : Nat} (writing : Writing dev base block proc (.scan k)) :
    proc = ⟨.user [], .inodesSyncDev dev :: base⟩ ∧ k ≤ NR_INODE := by
  cases writing with
  | scan more => exact ⟨rfl, more⟩

theorem Writing.of_return {proc : Process} {value : Value} {held : List Nat} {stack : List Caller}
    (writing : Writing dev base block proc pass) (here : proc = ⟨.ret value, .user held :: stack⟩) :
    proc.stack = writer dev base ∧
      ((∃ i, pass = .reading i ∧ (value = .null ∨ ∃ bh, value = .buffer block.1 block.2 bh true)) ∨
        ∃ i, pass = .releasing i ∧ value = .unit) := by
  have top {inner below : List Caller} {caller : Caller} (same : inner ++ caller :: below = .user held :: stack)
      (inside : inner.countP isUser = 0) : caller = .user held := by
    cases inner with
    | nil => exact (List.cons.inj same).1
    | cons first inner =>
      obtain ⟨rfl, -⟩ := List.cons.inj same
      simp [List.countP_cons, isUser] at inside
  cases writing with
  | scan more | waiting | releasing => cases here
  | getting inner inside | requesting inner inside | failing inner inside =>
    cases top (Process.mk.inj here).2 inside
  | @failed i =>
    cases here
    exact ⟨rfl, .inl ⟨i, rfl, .inl rfl⟩⟩
  | @read i bh =>
    cases here
    exact ⟨rfl, .inl ⟨i, rfl, .inr ⟨bh, rfl⟩⟩⟩
  | @released i =>
    cases here
    exact ⟨rfl, .inr ⟨i, rfl, rfl⟩⟩

theorem Writing.stack {proc : Process} (writing : Writing dev base block proc pass) :
    ∃ front, proc.stack = front ++ .inodesSyncDev dev :: base := by
  cases writing with
  | scan more => exact ⟨[], rfl⟩
  | getting inner inside => exact ⟨inner ++ [.bread block.1 block.2, .user []], by simp [writer]⟩
  | @requesting i control bh inner inside =>
    exact ⟨inner ++ [.breadRead block.1 block.2 bh, .user []], by simp [writer]⟩
  | failing inner inside => exact ⟨inner ++ [.breadFail, .user []], by simp [writer]⟩
  | _ => exact ⟨[.user []], rfl⟩

theorem users_le {proc proc' : Process} (moved : Moves driver c proc c' proc')
    (within : ∀ held, proc.control ≠ .user held) : proc'.stack.countP isUser ≤ proc.stack.countP isUser := by
  cases moved with
  | callGetHashTable | callGetblk | callBread | callBreada | callSysSync | callSyncDev => exact absurd rfl (within _)
  | callBrelse holds | modify holds | mark holds | store holds | clear holds alone => exact absurd rfl (within _)
  | inodesEndDev | inodesEnd => exact absurd rfl (within [])
  | _ => simp [List.countP_cons, isUser]

theorem moves_under {control : Control} {inner below : List Caller} {frame : Caller} {proc' : Process}
    (moved : Moves driver c ⟨control, inner ++ frame :: below⟩ c' proc')
    (plain : (∀ dev, frame ≠ .inodesSyncDev dev) ∧ frame ≠ .inodesSysSync)
    (within : ∀ held, control ≠ .user held) (inside : inner.countP isUser = 0) :
    (inner = [] ∧ ∃ value, control = .ret value) ∨
      ∃ control' inner', proc' = ⟨control', inner' ++ frame :: below⟩ ∧ inner'.countP isUser = 0 := by
  by_cases returns : inner = [] ∧ ∃ value, control = .ret value
  · exact .inl returns
  · obtain ⟨inner', stack, -⟩ := moved.keeps plain fun empty value isRet => returns ⟨empty, value, isRet⟩
    have few := users_le moved within
    rw [stack] at few
    simp only [List.countP_append] at few
    exact .inr ⟨proc'.control, inner', by rw [← stack], by omega⟩

theorem Writing.moves {proc proc' : Process} (writing : Writing dev base block proc pass)
    (moved : Moves driver c proc c' proc') (within : ∀ held, proc.control ≠ .user held)
    (working : ∀ value held rest, proc.control = .ret value → proc.stack ≠ .user held :: rest) :
    Writing dev base block proc' pass := by
  cases writing with
  | scan more => exact absurd rfl (within [])
  | getting inner inside =>
    rcases moves_under moved (by simp) within inside with ⟨rfl, value, rfl⟩ | ⟨control', inner', rfl, inside'⟩
    · cases moved with
      | toBreadCached valid => exact .read
      | toBreadRead => exact .requesting [] rfl
      | toNull why => exact .failed
      | toSyncDev why | toSysSync why => simp at why
    · exact .getting inner' inside'
  | requesting inner inside =>
    rcases moves_under moved (by simp) within inside with ⟨rfl, value, rfl⟩ | ⟨control', inner', rfl, inside'⟩
    · cases moved with
      | toBreadWait => exact .waiting
      | toNull why | toSyncDev why | toSysSync why => simp at why
    · exact .requesting inner' inside'
  | waiting =>
    cases moved with
    | breadDone unlocked valid => exact .read
    | breadFails unlocked => exact .failing [] rfl
  | failing inner inside =>
    rcases moves_under moved (by simp) within inside with ⟨rfl, value, rfl⟩ | ⟨control', inner', rfl, inside'⟩
    · cases moved with
      | toNull why => exact .failed
      | toSyncDev why | toSysSync why => simp at why
    · exact .failing inner' inside'
  | failed => exact absurd rfl (working .null [] _ rfl)
  | read | released => exact absurd rfl (working _ [] _ rfl)
  | releasing =>
    cases moved with
    | released used => exact .released

end Inodes

/-! ## The whole call -/

def putInode (super : Fin NR_SUPER → Super) (inode : Inode) (dev : Nat) (contents : Nat → Block) : Nat → Block :=
  if inode.dirt = true ∧ inode.pipe = false ∧ inode.dev = dev then
    match getSuper super dev with
    | none => contents
    | some sb =>
      let block := sb.blockOf inode.num
      update contents block
        (storeRecord (recordOf inode.num % INODES_PER_BLOCK) inode.data (contents block))
  else contents

/-- The blocks of a device with the first `k` inodes of the table written. -/
def synced (super : Fin NR_SUPER → Super) (inode : Fin NR_INODE → Inode) (dev : Nat) (contents : Nat → Block) :
    Nat → Nat → Block
  | 0 => contents
  | k + 1 =>
    if below : k < NR_INODE then putInode super (inode ⟨k, below⟩) dev (synced super inode dev contents k)
    else synced super inode dev contents k

def Pass.done : Pass → Nat
  | .scan k => k
  | .reading i => i
  | .releasing i => i + 1

section Call

variable {driver : Nat → Bool} {super : Fin NR_SUPER → Super} {p : Fin NR_TASKS} {base : List Caller} {n dev : Nat}
  {contents : Nat → Block} {start s s' : State}

structure Progress (super : Fin NR_SUPER → Super) (n dev : Nat) (contents : Nat → Block) (start s : State)
    (k : Nat) : Prop where
  invariant : s.system.Invariant n
  contains : s.system.cache.Contains dev (synced super start.inode dev contents k)
  same : ∀ i, (s.inode i).data = (start.inode i).data ∧ (s.inode i).dev = (start.inode i).dev ∧
    (s.inode i).num = (start.inode i).num ∧ (s.inode i).pipe = (start.inode i).pipe
  todo : ∀ i : Fin NR_INODE, k ≤ i → (s.inode i).dirt = (start.inode i).dirt
  done : ∀ i : Fin NR_INODE, i < k → (s.inode i).pipe = false → (s.inode i).dev = dev → (s.inode i).dirt = false

def Target (super : Fin NR_SUPER → Super) (s : State) (block : Nat × Nat) : Prop :=
  ∀ i, s.pass = .reading i → (s.inode i).dirt = true ∧ (s.inode i).pipe = false ∧
    ∃ sb, getSuper super (s.inode i).dev = some sb ∧ block = ((s.inode i).dev, sb.blockOf (s.inode i).num)

inductive Stage (super : Fin NR_SUPER → Super) (p : Fin NR_TASKS) (base : List Caller) (n dev : Nat) (s : State) :
    Nat → Prop where
  | first (atStart : s.pass = .scan 0) (scanning : Scanning s.system.cache dev base false (s.system.process p)) :
      Stage super p base n dev s 0
  | inodes (block : Nat × Nat) (valid : ValidDirt s.system.cache dev n)
      (writing : Writing dev base block (s.system.process p) s.pass) (target : Target super s block) :
      Stage super p base n dev s s.pass.done
  | second (scanning : Scanning s.system.cache dev base true (s.system.process p)) :
      Stage super p base n dev s NR_INODE
  | returned (here : s.system.process p = ⟨.ret .unit, base⟩) (scanned : Scanned s.system.cache dev n) :
      Stage super p base n dev s NR_INODE

theorem run_cases (ran : s.run driver super p base = some s') :
    (∃ held dev' stack i, s.system.process p = ⟨.user held, .inodesSyncDev dev' :: stack⟩ ∧ s.pass = .scan i ∧
      s.syncInodes driver super p i = some s') ∨
    (∃ value held stack, s.system.process p = ⟨.ret value, .user held :: stack⟩ ∧
      .user held :: stack ≠ base ∧ s.returned driver p value = some s') ∨
    ((∀ held, (s.system.process p).control ≠ .user held) ∧
      (∀ value held rest, (s.system.process p).control = .ret value →
        (s.system.process p).stack ≠ .user held :: rest) ∧
      (∀ value, (s.system.process p).control = .ret value → (s.system.process p).stack ≠ base) ∧
      ∃ system, s.system.step driver (.advance p) = some system ∧ s' = { s with system }) := by
  unfold State.run at ran
  generalize s.system.process p = proc at ran ⊢
  obtain ⟨control, stack⟩ := proc
  have advanced (ran : ((s.system.step driver (.advance p)).map fun system => { s with system }) = some s') :
      ∃ system, s.system.step driver (.advance p) = some system ∧ s' = { s with system } := by
    obtain ⟨system, moved, same⟩ := map_eq_some_iff.mp ran
    exact ⟨system, moved, same.symm⟩
  cases control with
  | user held =>
    cases stack with
    | nil => cases ran
    | cons caller stack =>
      cases caller with
      | inodesSyncDev dev' =>
        cases pass : s.pass with
        | scan i =>
          rw [pass] at ran
          exact .inl ⟨_, _, _, _, rfl, rfl, ran⟩
        | reading i | releasing i =>
          rw [pass] at ran
          cases ran
      | _ => cases ran
  | ret value =>
    by_cases back : stack = base
    · simp [back] at ran
    · simp only [if_neg back] at ran
      cases stack with
      | nil => exact .inr (.inr ⟨by simp, by simp, fun _ _ => back, advanced ran⟩)
      | cons caller stack =>
        cases caller with
        | user held => exact .inr (.inl ⟨_, _, _, rfl, back, ran⟩)
        | _ => exact .inr (.inr ⟨by simp, by simp, fun _ _ => back, advanced ran⟩)
  | _ => exact .inr (.inr ⟨by simp, by simp, by simp, advanced ran⟩)

theorem Progress.system {k : Nat} {m : Fs.Move} {system : System} (progress : Progress super n dev contents start s k)
    (isDev : dev ≠ 0) (quiet : s.system.Quiet dev m) (moved : s.system.step driver m = some system) :
    Progress super n dev contents start { s with system } k ∧ s.system.cache.Calms system.cache := by
  obtain ⟨contains, calms⟩ := progress.invariant.quiet_step isDev progress.contains quiet moved
  exact ⟨⟨progress.invariant.step moved, contains, progress.same, progress.todo, progress.done⟩, calms⟩

theorem Progress.of_locked {k : Nat} (progress : Progress super n dev contents start s k)
    (cache : s'.system.cache = s.system.cache) (invariant : s'.system.Invariant n)
    (inode : ∀ i, (s'.inode i).data = (s.inode i).data ∧ (s'.inode i).dev = (s.inode i).dev ∧
      (s'.inode i).num = (s.inode i).num ∧ (s'.inode i).pipe = (s.inode i).pipe ∧
      (s'.inode i).dirt = (s.inode i).dirt) : Progress super n dev contents start s' k := by
  refine ⟨invariant, cache ▸ progress.contains, fun i => ?_, fun i later => ?_, fun i earlier => ?_⟩
  · obtain ⟨data, device, num, pipe, -⟩ := inode i
    rw [data, device, num, pipe]
    exact progress.same i
  · rw [(inode i).2.2.2.2]
    exact progress.todo i later
  · rw [(inode i).2.2.2.1, (inode i).2.1, (inode i).2.2.2.2]
    exact progress.done i earlier

theorem Progress.skip {i : Fin NR_INODE} (progress : Progress super n dev contents start s i)
    (skipped : ¬((s.inode i).dirt = true ∧ (s.inode i).pipe = false ∧ (s.inode i).dev = dev)) {pass : Pass} :
    Progress super n dev contents start { s with pass } (i + 1) := by
  refine ⟨progress.invariant, ?_, progress.same, fun j later => progress.todo j (by omega), fun j earlier => ?_⟩
  · obtain ⟨-, device, -, pipe⟩ := progress.same i
    rw [progress.todo i (Nat.le_refl _), pipe, device] at skipped
    rw [synced, dif_pos i.isLt, putInode, if_neg skipped]
    exact progress.contains
  · intro notPipe mine
    rcases Nat.lt_succ_iff_lt_or_eq.mp earlier with before | here
    · exact progress.done j before notPipe mine
    · rw [Fin.ext here] at notPipe mine ⊢
      by_contra dirty
      exact skipped ⟨by simpa using dirty, notPipe, mine⟩

theorem Stage.calm {k : Nat} {system : System} (stage : Stage super p base n dev s k)
    (calms : s.system.cache.Calms system.cache) (idle : system.process p = s.system.process p) :
    Stage super p base n dev { s with system } k := by
  cases stage with
  | first atStart scanning =>
    exact .first atStart (by rw [idle]; exact scanning.calm calms)
  | inodes block valid writing target =>
    exact .inodes block (valid.calm calms) (by rw [idle]; exact writing) target
  | second scanning => exact .second (by rw [idle]; exact scanning.calm calms)
  | returned here scanned => exact .returned (idle.trans here) (scanned.calm calms)

theorem process_of_other {m : Fs.Move} {system system' : System} (other : m.actor ≠ some p)
    (moved : system.step driver m = some system') : system'.process p = system.process p := by
  rcases actor : m.actor with _ | q
  · cases m with
    | complete line =>
      obtain ⟨-, rfl⟩ := System.step_complete moved
      rfl
    | advance q | begin q act => cases actor
  · obtain ⟨proc, -, after⟩ := System.step_moves actor moved
    rw [after, update_of_ne]
    rintro rfl
    exact other actor

theorem step_call {system system' : System} {held : List Nat} {stack stack' : List Caller} {control : Control}
    {act : Act} {c : Cache} (outside : system.process p = ⟨.user held, stack⟩)
    (began : Fs.begin system.cache held stack act = some (c, control, stack'))
    (moved : system.step driver (.begin p act) = some system') :
    system'.cache = c ∧ system'.process p = ⟨control, stack'⟩ := by
  simp only [System.step, outside, began, Option.map_some] at moved
  cases moved
  exact ⟨rfl, setProcess_self ..⟩

theorem Progress.syncInodes {i : Nat} (isDev : dev ≠ 0)
    (progress : Progress super n dev contents start s i) (valid : ValidDirt s.system.cache dev n)
    (here : s.system.process p = ⟨.user [], .inodesSyncDev dev :: base⟩) (more : i ≤ NR_INODE)
    (ran : s.syncInodes driver super p i = some s') :
    ∃ k, Progress super n dev contents start s' k ∧ Stage super p base n dev s' k := by
  unfold State.syncInodes at ran
  split at ran
  · next below =>
    have skipped (clean : ¬((s.inode ⟨i, below⟩).dirt = true ∧ (s.inode ⟨i, below⟩).pipe = false ∧
        (s.inode ⟨i, below⟩).dev = dev)) (same : s' = { s with pass := .scan (i + 1) }) :
        ∃ k, Progress super n dev contents start s' k ∧ Stage super p base n dev s' k := by
      subst same
      refine ⟨i + 1, progress.skip (i := ⟨i, below⟩) clean, .inodes (0, 0) valid ?_ fun j reading => by cases reading⟩
      rw [here]
      exact .scan below
    dsimp only at ran
    split at ran
    · cases ran
    · split at ran
      · next needed =>
        unfold State.writeInode at ran
        dsimp only at ran
        split at ran
        · next nowhere =>
          cases ran
          refine skipped (fun ⟨_, _, mine⟩ => ?_) rfl
          rcases nowhere with clean | zero
          · exact absurd needed.1 (by simp [clean])
          · exact isDev (mine.symm.trans zero)
        · obtain ⟨sb, isSuper, ran⟩ := Option.bind_eq_some_iff.mp ran
          obtain ⟨system, moved, rfl⟩ := map_eq_some_iff.mp ran
          obtain ⟨cache, process⟩ := step_call here rfl moved
          refine ⟨i, progress.of_locked cache (progress.invariant.step moved) fun j => ?_,
            .inodes ((s.inode ⟨i, below⟩).dev, sb.blockOf (s.inode ⟨i, below⟩).num) (cache ▸ valid) ?_ ?_⟩
          · by_cases same : j = ⟨i, below⟩
            · subst same
              dsimp only
              rw [update_self]
              exact ⟨rfl, rfl, rfl, rfl, rfl⟩
            · dsimp only
              rw [update_of_ne same]
              exact ⟨rfl, rfl, rfl, rfl, rfl⟩
          · dsimp only
            rw [process]
            exact .getting [] rfl
          · intro j reading
            cases reading
            dsimp only
            rw [update_self]
            exact ⟨needed.1, by simpa using needed.2, sb, isSuper, rfl⟩
      · next clean =>
        cases ran
        exact skipped (fun ⟨dirty, notPipe, _⟩ => clean ⟨dirty, by simp [notPipe]⟩) rfl
  · next beyond =>
    obtain ⟨system, moved, rfl⟩ := map_eq_some_iff.mp ran
    obtain ⟨cache, process⟩ := step_call here rfl moved
    obtain rfl : i = NR_INODE := by omega
    refine ⟨NR_INODE, progress.of_locked cache (progress.invariant.step moved) fun _ => ⟨rfl, rfl, rfl, rfl, rfl⟩,
      .second ?_⟩
    rw [process]
    exact .visit fun h below => absurd below (Nat.not_lt_zero h)

theorem store_system {system₀ system₁ system₂ system₃ : System} {d b bh : Nat} {stack : List Caller}
    {change : Block → Block} (here : system₀.process p = ⟨.ret (.buffer d b bh true), .user [] :: stack⟩)
    (returned : system₀.step driver (.advance p) = some system₁)
    (stored : system₁.step driver (.begin p (.modify bh change)) = some system₂)
    (called : system₂.step driver (.begin p (.brelse bh)) = some system₃) :
    system₃.cache = (system₀.cache.write bh change).setDirt bh ∧
      system₃.process p = ⟨.brelse bh, .user [] :: stack⟩ := by
  have first : system₁.cache = system₀.cache ∧ system₁.process p = ⟨.user [bh], stack⟩ := by
    simp only [System.step, here, resume] at returned
    cases returned
    exact ⟨rfl, setProcess_self ..⟩
  have changes (c : Cache) : Fs.begin c [bh] stack (.modify bh change) =
      some ((c.write bh change).setDirt bh, .user [bh], stack) := if_pos (List.mem_singleton.mpr rfl)
  have releases (c : Cache) : Fs.begin c [bh] stack (.brelse bh) = some (c, .brelse bh, .user [] :: stack) := by
    simp [Fs.begin]
  obtain ⟨cache₂, process₂⟩ := step_call first.2 (changes _) stored
  obtain ⟨cache₃, process₃⟩ := step_call process₂ (releases _) called
  exact ⟨by rw [cache₃, cache₂, first.1], process₃⟩

theorem putInode_eq {i : Fin NR_INODE} {bh : Nat} {block : Nat × Nat} {sb : Super}
    (progress : Progress super n dev contents start s i) (names : s.system.cache.Names block.1 block.2 bh)
    (dirty : (s.inode i).dirt = true) (notPipe : (s.inode i).pipe = false)
    (isSuper : getSuper super (s.inode i).dev = some sb)
    (isBlock : block = ((s.inode i).dev, sb.blockOf (s.inode i).num)) :
    (if s.system.cache.dev bh = dev then
      update (synced super start.inode dev contents i) (s.system.cache.blocknr bh)
        (storeRecord (recordOf (s.inode i).num % INODES_PER_BLOCK) (s.inode i).data
          (synced super start.inode dev contents i (s.system.cache.blocknr bh)))
      else synced super start.inode dev contents i) = synced super start.inode dev contents (i + 1) := by
  obtain ⟨data, device, num, pipe⟩ := progress.same i
  rw [names.1, names.2, isBlock, synced, dif_pos i.isLt, putInode]
  rw [progress.todo i (Nat.le_refl _)] at dirty
  rw [pipe] at notPipe
  by_cases mine : (s.inode i).dev = dev
  · rw [if_pos mine, if_pos ⟨dirty, notPipe, device ▸ mine⟩, ← mine, isSuper, data, num]
  · rw [if_neg mine, if_neg fun ⟨_, _, same⟩ => mine (device.trans same)]

theorem Progress.store {i : Fin NR_INODE} {bh : Nat} {block : Nat × Nat} (isDev : dev ≠ 0)
    (progress : Progress super n dev contents start s i) (valid : ValidDirt s.system.cache dev n)
    (target : Target super s block) (pass : s.pass = .reading i)
    (here : s.system.process p = ⟨.ret (.buffer block.1 block.2 bh true), writer dev base⟩)
    (ran : s.returned driver p (.buffer block.1 block.2 bh true) = some s') :
    ∃ k, Progress super n dev contents start s' k ∧ Stage super p base n dev s' k := by
  simp only [State.returned, pass] at ran
  obtain ⟨system₁, returned, ran⟩ := Option.bind_eq_some_iff.mp ran
  obtain ⟨system₂, stored, ran⟩ := Option.bind_eq_some_iff.mp ran
  obtain ⟨system₃, called, rfl⟩ := map_eq_some_iff.mp ran
  obtain ⟨cache, process⟩ := store_system here returned stored called
  have invariant := progress.invariant
  have named := (invariant.referenced.named p).1
  rw [here] at named
  obtain ⟨names, valid'⟩ := named
  have uptodate : s.system.cache.uptodate bh = true := valid' rfl
  have inside : bh < s.system.cache.nrBuffers := by
    refine invariant.linked.inside p bh (List.mem_append_left _ ?_)
    rw [here]
    exact .head _
  have unread : ¬s.system.cache.BeingRead bh := fun reading =>
    absurd uptodate (by simp [invariant.wellRead.invalid bh (.inl reading)])
  obtain ⟨dirty, notPipe, sb, isSuper, isBlock⟩ := target i pass
  have contains := progress.contains.write isDev invariant.linked.wellLinked
    (storeRecord (recordOf (s.inode i).num % INODES_PER_BLOCK) (s.inode i).data) inside uptodate unread
  refine ⟨i + 1, ⟨((invariant.step returned).step stored).step called, ?_, fun j => ?_, fun j later => ?_,
    fun j earlier => ?_⟩, .inodes block ?_ ?_ fun j reading => by cases reading⟩
  · have written : (if s.system.cache.dev bh = dev then _ else _) = synced super start.inode dev contents (i + 1) :=
      putInode_eq progress names dirty notPipe isSuper isBlock
    rw [← written]
    exact cache ▸ contains
  · by_cases same : j = i
    · subst same
      dsimp only
      rw [update_self]
      exact progress.same j
    · dsimp only
      rw [update_of_ne same]
      exact progress.same j
  · dsimp only
    rw [update_of_ne (by rintro rfl; omega)]
    exact progress.todo j (by omega)
  · dsimp only
    by_cases same : j = i
    · subst same
      rw [update_self]
      exact fun _ _ => rfl
    · rw [update_of_ne same]
      exact progress.done j (by omega)
  · rw [cache]
    intro h below mine isDirt
    change s.system.cache.uptodate h = true
    by_cases same : h = bh
    · exact same ▸ uptodate
    · refine valid h below mine ?_
      simpa [Cache.setDirt, Cache.write, update_of_ne same] using isDirt
  · rw [process]
    exact .releasing

theorem Progress.release {i : Fin NR_INODE} (progress : Progress super n dev contents start s (i + 1))
    (valid : ValidDirt s.system.cache dev n) (pass : s.pass = .releasing i)
    (here : s.system.process p = ⟨.ret .unit, writer dev base⟩) (ran : s.returned driver p .unit = some s') :
    ∃ k, Progress super n dev contents start s' k ∧ Stage super p base n dev s' k := by
  simp only [State.returned, pass] at ran
  obtain ⟨system, moved, rfl⟩ := map_eq_some_iff.mp ran
  have back : system.cache = s.system.cache ∧ system.process p = ⟨.user [], .inodesSyncDev dev :: base⟩ := by
    have same := moved
    simp only [System.step, here, writer, resume] at same
    cases same
    exact ⟨rfl, setProcess_self ..⟩
  refine ⟨i + 1, progress.of_locked back.1 (progress.invariant.step moved) fun j => ?_,
    .inodes (0, 0) (back.1 ▸ valid) ?_ fun j reading => by cases reading⟩
  · by_cases same : j = i
    · subst same
      dsimp only
      rw [update_self]
      exact ⟨rfl, rfl, rfl, rfl, rfl⟩
    · dsimp only
      rw [update_of_ne same]
      exact ⟨rfl, rfl, rfl, rfl, rfl⟩
  · rw [back.2]
    exact .scan i.isLt

theorem Progress.scanning {k : Nat} {again : Bool} (isDev : dev ≠ 0) (near : major dev < NR_BLK_DEV)
    (served : driver (major dev) = true) (progress : Progress super n dev contents start s k)
    (scanning : Scanning s.system.cache dev base again (s.system.process p))
    (ran : s.run driver super p base = some s') :
    ∃ system, s' = { s with system } ∧ Progress super n dev contents start s' k ∧
      (Scanning system.cache dev base again (system.process p) ∨
        Scanned system.cache dev n ∧
          system.process p = if again then ⟨.ret .unit, base⟩ else ⟨.user [], .inodesSyncDev dev :: base⟩) := by
  rcases run_cases ran with ⟨held, dev', stack, i, here, -⟩ | ⟨value, held, stack, here, -⟩ |
    ⟨-, -, -, system, moved, rfl⟩
  · rw [here] at scanning
    cases scanning
  · rw [here] at scanning
    cases scanning
  · obtain ⟨later, calms⟩ := progress.system (m := .advance p) isDev scanning.spares moved
    exact ⟨system, rfl, later, scanning.step near served progress.invariant.linked.nrBuffers moved calms⟩

theorem Progress.run {k : Nat} (isDev : dev ≠ 0) (near : major dev < NR_BLK_DEV)
    (served : driver (major dev) = true) (progress : Progress super n dev contents start s k)
    (stage : Stage super p base n dev s k) (ran : s.run driver super p base = some s') :
    ∃ k, Progress super n dev contents start s' k ∧ Stage super p base n dev s' k := by
  cases stage with
  | first atStart scanning =>
    obtain ⟨system, rfl, later, going | ⟨scanned, back⟩⟩ := progress.scanning isDev near served scanning ran
    · exact ⟨0, later, .first atStart going⟩
    · refine ⟨0, later, ?_⟩
      have writing : Writing dev base (0, 0) (system.process p) s.pass := by
        rw [back, atStart]
        exact .scan (Nat.zero_le _)
      have isDone : s.pass.done = 0 := by rw [atStart]; rfl
      have inodes : Stage super p base n dev { s with system } s.pass.done :=
        .inodes (0, 0) scanned.validDirt writing fun j reading => by cases atStart.symm.trans reading
      exact isDone ▸ inodes
  | @inodes block valid writing target =>
    rcases run_cases ran with ⟨held, dev', stack, i, here, pass, ran⟩ | ⟨value, held, stack, here, other, ran⟩ |
      ⟨within, working, -, system, moved, rfl⟩
    · rw [pass] at writing
      obtain ⟨place, more⟩ := writing.of_scan
      have isDone : s.pass.done = i := by rw [pass]; rfl
      exact (isDone ▸ progress).syncInodes isDev valid place more ran
    · obtain ⟨whole, ⟨i, pass, rfl | ⟨bh, rfl⟩⟩ | ⟨i, pass, rfl⟩⟩ := writing.of_return here
      · simp [State.returned, pass] at ran
      · have isDone : s.pass.done = i := by rw [pass]; rfl
        exact (isDone ▸ progress).store isDev valid target pass (by rw [← whole, here]) ran
      · have isDone : s.pass.done = i + 1 := by rw [pass]; rfl
        exact (isDone ▸ progress).release valid pass (by rw [← whole, here]) ran
    · have inside : ∀ h ∈ (s.system.process p).control.heads, h < n := fun h member =>
        progress.invariant.linked.nrBuffers ▸ progress.invariant.linked.inside p h (List.mem_append_left _ member)
      obtain ⟨later, calms⟩ := progress.system (m := .advance p) isDev (valid.spares inside) moved
      obtain ⟨proc, moves, after⟩ := System.step_moves (p := p) rfl moved
      refine ⟨_, later, .inodes block (valid.calm calms) ?_ target⟩
      have place := writing.moves moves within working
      simpa only [after, update_self] using place
  | second scanning =>
    obtain ⟨system, rfl, later, going | ⟨scanned, back⟩⟩ := progress.scanning isDev near served scanning ran
    · exact ⟨NR_INODE, later, .second going⟩
    · exact ⟨NR_INODE, later, .returned back scanned⟩
  | returned here scanned =>
    rcases run_cases ran with ⟨held, dev', stack, i, here', -⟩ | ⟨value, held, stack, here', other, -⟩ |
      ⟨-, -, other, -⟩
    · cases here.symm.trans here'
    · cases here.symm.trans here'
      exact absurd rfl other
    · rw [here] at other
      exact absurd rfl (other .unit rfl)

theorem Progress.step {k : Nat} {m : Move} (isDev : dev ≠ 0) (near : major dev < NR_BLK_DEV)
    (served : driver (major dev) = true) (progress : Progress super n dev contents start s k)
    (stage : Stage super p base n dev s k) (quiet : s.Quiet dev m)
    (moved : s.step driver super p base m = some s') :
    ∃ k, Progress super n dev contents start s' k ∧ Stage super p base n dev s' k := by
  have others {m : Fs.Move} {system : System} (other : m.actor ≠ some p) (quiet : s.system.Quiet dev m)
      (moved : s.system.step driver m = some system) :
      ∃ k, Progress super n dev contents start { s with system } k ∧
        Stage super p base n dev { s with system } k := by
    obtain ⟨later, calms⟩ := progress.system isDev quiet moved
    exact ⟨k, later, stage.calm calms (process_of_other other moved)⟩
  cases m with
  | advance q =>
    obtain ⟨other, moved⟩ := Option.ite_none_left_eq_some.mp moved
    obtain ⟨system, stepped, rfl⟩ := map_eq_some_iff.mp moved
    exact others (m := .advance q) (fun same => other (Option.some.inj same)) quiet stepped
  | begin q act =>
    obtain ⟨other, moved⟩ := Option.ite_none_left_eq_some.mp moved
    obtain ⟨system, stepped, rfl⟩ := map_eq_some_iff.mp moved
    exact others (m := .begin q act) (fun same => other (Option.some.inj same)) quiet stepped
  | complete line =>
    obtain ⟨system, stepped, rfl⟩ := map_eq_some_iff.mp moved
    exact others (m := .complete line) (by simp [Fs.Move.actor]) trivial stepped
  | run => exact progress.run isDev near served stage moved

theorem Stage.of_returned {k : Nat} (stage : Stage super p base n dev s k)
    (here : s.system.process p = ⟨.ret .unit, base⟩) : k = NR_INODE ∧ Scanned s.system.cache dev n := by
  have longer (front : List Caller) (caller : Caller) : front ++ caller :: base ≠ base := by
    intro same
    have lengths := congrArg List.length same
    simp only [List.length_append, List.length_cons] at lengths
    omega
  have notScanning {again : Bool} (scanning : Scanning s.system.cache dev base again (s.system.process p)) : False := by
    generalize s.system.process p = proc at here scanning
    cases scanning with
    | visit scanned | wait scanned | asking scanned => cases here
    | asked scanned => exact longer [] _ (Process.mk.inj here).2
  cases stage with
  | first atStart scanning | second scanning => exact (notScanning scanning).elim
  | returned here scanned => exact ⟨rfl, scanned⟩
  | inodes block valid writing target =>
    obtain ⟨front, stack⟩ := writing.stack
    rw [here] at stack
    exact absurd stack.symm (longer front _)

end Call

structure Starts (p : Fin NR_TASKS) (base : List Caller) (n dev : Nat) (s : State) : Prop where
  invariant : s.system.Invariant n
  called : s.system.process p = ⟨.syncDev dev false 0, base⟩
  pass : s.pass = .scan 0

def Completed (c : Cache) (dev : Nat) : Prop :=
  ∀ slot ∈ c.queue (major dev), (c.request slot).cmd = WRITE → ∀ h ∈ (c.request slot).bh, c.dev h ≠ dev

theorem Completed.not_writing {c : Cache} {dev h : Nat} (completed : Completed c dev) (queued : c.WellQueued)
    (mine : c.dev h = dev) : ¬c.Writing h := by
  rintro ⟨slot, asked⟩
  obtain ⟨-, -, member, -⟩ := queued.entry asked
  exact completed slot (mine ▸ member) asked.2.1 h asked.2.2 mine

/-- When `sync_dev` returns, everything of the device is on the disk. -/
theorem synced_of_returned {driver : Nat → Bool} {super : Fin NR_SUPER → Super} {p : Fin NR_TASKS}
    {base : List Caller} {n dev : Nat} {contents : Nat → Block} {start s : State} (isDev : dev ≠ 0)
    (near : major dev < NR_BLK_DEV) (served : driver (major dev) = true) (starts : Starts p base n dev start)
    (contains : start.system.cache.Contains dev contents)
    (reached : Run (State.step driver super p base) (State.Quiet dev) start s)
    (returned : s.system.process p = ⟨.ret .unit, base⟩) (completed : Completed s.system.cache dev) :
    (∀ h < n, s.system.cache.dev h = dev → s.system.cache.dirt h = false) ∧
      (∀ i, (s.inode i).dev = dev → (s.inode i).pipe = false → (s.inode i).dirt = false) ∧
      (∀ h < n, s.system.cache.dev h = dev → s.system.cache.uptodate h = true →
        s.system.cache.disk dev (s.system.cache.blocknr h) = s.system.cache.data h) ∧
      ∀ block, s.system.cache.disk dev block = synced super start.inode dev contents NR_INODE block := by
  obtain ⟨k, progress, stage⟩ : ∃ k, Progress super n dev contents start s k ∧ Stage super p base n dev s k := by
    refine reached.invariant
      (P := fun s => ∃ k, Progress super n dev contents start s k ∧ Stage super p base n dev s k)
      (fun ⟨k, progress, stage⟩ quiet moved => progress.step isDev near served stage quiet moved)
      ⟨0, ⟨starts.invariant, contains, fun _ => ⟨rfl, rfl, rfl, rfl⟩, fun _ _ => rfl, nofun⟩, .first starts.pass ?_⟩
    rw [starts.called]
    exact .visit nofun
  obtain ⟨rfl, scanned⟩ := stage.of_returned returned
  have number : s.system.cache.nrBuffers = n := progress.invariant.linked.nrBuffers
  have saved (h : Nat) (inside : h < n) (mine : s.system.cache.dev h = dev) :=
    progress.contains.saved h (number ▸ inside) mine
      (completed.not_writing progress.invariant.wellLocked.queued mine) (.inl (scanned h inside mine))
  refine ⟨scanned, fun i mine notPipe => progress.done i i.isLt notPipe mine, fun h inside mine valid => ?_,
    fun block => ?_⟩
  · have unread : ¬s.system.cache.BeingRead h := fun reading =>
      absurd valid (by simp [progress.invariant.wellRead.invalid h (.inl reading)])
    rw [saved h inside mine, progress.contains.valid h (number ▸ inside) mine (.inl valid) unread]
  · by_cases named : ∃ h < n, s.system.cache.Names dev block h
    · obtain ⟨h, inside, mine, rfl⟩ := named
      exact saved h inside mine
    · exact progress.contains.absent block fun h inside names => named ⟨h, number ▸ inside, names⟩

/-! ## Calls of `sync_dev` -/

def emptyInode : Inode := { data := .zero, dev := 0, num := 0, lock := false, dirt := false, pipe := false }

def changedInode : Inode :=
  { emptyInode with data := { DInode.zero with nlinks := 7 }, dev := 0x300, num := 1, dirt := true }

def oneInode (i : Fin NR_INODE) : Inode := if i.val = 0 then changedInode else emptyInode

def sampleSuper (k : Fin NR_SUPER) : Super :=
  { dev := if k.val = 0 then 0x300 else 0, imount := none, isup := none, imapBlocks := 1, zmapBlocks := 1
    ninodes := 32 }

def atCall (inode : Fin NR_INODE → Inode) (system : System) : State := { system, inode, pass := .scan 0 }

def alone (_ : State) : Move → Bool
  | .run | .complete _ => true
  | _ => false

theorem quiet_of_alone (dev : Nat) {s : State} {m : Move} (isAlone : alone s m = true) : s.Quiet dev m := by
  cases m with
  | run | complete line => trivial
  | advance q | begin q act => cases isAlone

def Back (line : Nat) (s : State) : Prop :=
  s.system.process 0 = ⟨.ret .unit, [.user []]⟩ ∧ s.system.cache.queue line = []

instance (line : Nat) : DecidablePred (Back line) := fun _ => inferInstanceAs (Decidable (_ ∧ _))

theorem Back.completed {s : State} (dev : Nat) (back : Back (major dev) s) : Completed s.system.cache dev := by
  intro slot member
  rw [back.2] at member
  cases member

theorem synced_of_returned_changed :
    ∃ start s, Run (State.step (fun _ => true) sampleSuper 0 [.user []]) (State.Quiet 0x300) start s ∧
      (start.inode = oneInode ∧ Starts 0 [.user []] 2 0x300 start) ∧
      (∀ i, (s.inode i).dev = 0x300 → (s.inode i).pipe = false → (s.inode i).dirt = false) ∧
      ∀ block, s.system.cache.disk 0x300 block =
        synced sampleSuper oneInode 0x300 (start.system.cache.stored 0x300) NR_INODE block := by
  obtain ⟨system, reached, called, ran⟩ := exists_of_runIf (System.step fun _ => true) System.careful
    (.init (.init 2 (fun _ => 0) (fun _ => .zero) fun _ _ => .zero))
    ([.begin 0 (.bread 0x300 5)] ++ List.replicate 7 (.advance 0) ++ [.complete 3] ++ List.replicate 2 (.advance 0) ++
      [.begin 0 (.modify 0 fun _ _ => 1), .begin 0 (.brelse 0), .advance 0, .advance 0, .begin 0 (.syncDev 0x300)])
    (fun system => system.process 0 = ⟨.syncDev 0x300 false 0, [.user []]⟩ ∧
      (runIf (State.step (fun _ => true) sampleSuper 0 [.user []]) alone (atCall oneInode system)
        (List.replicate 13 .run ++ List.replicate 2 (.complete 3) ++ List.replicate 74 .run ++ [.complete 3])).any
          (fun s => Back 3 s) = true) (by decide +kernel)
  obtain ⟨s, reached', back⟩ := exists_of_runIf (State.step (fun _ => true) sampleSuper 0 [.user []]) alone
    (atCall oneInode system) _ (Back 3) ran
  obtain ⟨invariant, coherent⟩ := coherent_of_run (n := 2) (by decide) (reached.imp_of_invariant
    (fun invariant _ moved => invariant.step moved)
    (System.invariant_init (by decide) (fun _ => 0) (fun _ => .zero) fun _ _ => .zero)
    fun _ _ invariant careful => invariant.careful careful)
  have quiet := reached'.weaken fun _ _ => quiet_of_alone 0x300
  have starts : Starts 0 [.user []] 2 0x300 (atCall oneInode system) := ⟨invariant, called, rfl⟩
  obtain ⟨-, inodes, -, disk⟩ := synced_of_returned (by decide) (by decide) rfl starts
    (coherent.contains (by decide)) quiet back.1 (Back.completed 0x300 back)
  exact ⟨_, s, quiet, ⟨rfl, starts⟩, inodes, disk⟩

theorem exists_call (n dev : Nat) (acts : List Fs.Move) (count : Nat) (positive : 0 < n) (P : State → Prop)
    [DecidablePred P]
    (checked : ((run (System.step fun _ => true) (.init (.init n (fun _ => 0) (fun _ => .zero) fun _ _ => .zero))
      acts).any fun system => system.process 0 = ⟨.syncDev dev false 0, [.user []]⟩ ∧
        (runIf (State.step (fun _ => true) sampleSuper 0 [.user []]) alone (atCall (fun _ => emptyInode) system)
          (List.replicate count .run)).any (fun s => Back (major dev) s ∧ P s) = true) = true) :
    ∃ start s, Starts 0 [.user []] n dev start ∧ (∀ i, (start.inode i).lock = false) ∧
      Run (State.step (fun _ => true) sampleSuper 0 [.user []]) (State.Quiet dev) start s ∧
      s.system.process 0 = ⟨.ret .unit, [.user []]⟩ ∧ Completed s.system.cache dev ∧ P s := by
  obtain ⟨system, ran, called, checked'⟩ := exists_of_run _ _ _ _ checked
  obtain ⟨s, reached, back, holds⟩ := exists_of_runIf _ alone _ _ _ checked'
  have invariant : system.Invariant n := (reachable_of_run ran).invariant
    (fun invariant _ moved => invariant.step moved)
    (System.invariant_init positive (fun _ => 0) (fun _ => .zero) fun _ _ => .zero)
  exact ⟨_, s, ⟨invariant, called, rfl⟩, fun _ => rfl, reached.weaken fun _ _ => quiet_of_alone dev, back.1,
    Back.completed dev back, holds⟩

/-- A buffer of a device without a driver stays dirty, and a clean one that does not agree
with the disk is not written. -/
theorem sync_dev_misses :
    (∃ start s, Starts 0 [.user []] 1 0x700 start ∧ (∀ i, (start.inode i).lock = false) ∧
      Run (State.step (fun _ => true) sampleSuper 0 [.user []]) (State.Quiet 0x700) start s ∧
      s.system.process 0 = ⟨.ret .unit, [.user []]⟩ ∧ Completed s.system.cache 0x700 ∧
      s.system.cache.dev 0 = 0x700 ∧ s.system.cache.dirt 0 = true) ∧
    ∃ start s, Starts 0 [.user []] 1 0x300 start ∧ (∀ i, (start.inode i).lock = false) ∧
      Run (State.step (fun _ => true) sampleSuper 0 [.user []]) (State.Quiet 0x300) start s ∧
      s.system.process 0 = ⟨.ret .unit, [.user []]⟩ ∧ Completed s.system.cache 0x300 ∧
      s.system.cache.dev 0 = 0x300 ∧ s.system.cache.uptodate 0 = true ∧
      s.system.cache.disk 0x300 (s.system.cache.blocknr 0) 0 ≠ s.system.cache.data 0 0 := by
  constructor
  · exact exists_call 1 0x700
      ([.begin 0 (.getblk 0x700 5)] ++ List.replicate 5 (.advance 0) ++
        [.begin 0 (.mark 0), .begin 0 (.brelse 0), .advance 0, .advance 0, .begin 0 (.syncDev 0x700)]) 73 (by decide)
      (fun s => s.system.cache.dev 0 = 0x700 ∧ s.system.cache.dirt 0 = true) (by decide +kernel)
  · exact exists_call 1 0x300
      ([.begin 0 (.bread 0x300 5)] ++ List.replicate 7 (.advance 0) ++ [.complete 3] ++ List.replicate 2 (.advance 0) ++
        [.begin 0 (.store 0 0 1), .begin 0 (.brelse 0), .advance 0, .advance 0, .begin 0 (.syncDev 0x300)]) 71
      (by decide)
      (fun s => s.system.cache.dev 0 = 0x300 ∧ s.system.cache.uptodate 0 = true ∧
        s.system.cache.disk 0x300 (s.system.cache.blocknr 0) 0 ≠ s.system.cache.data 0 0) (by decide +kernel)

end Linux012.Fs.DeviceSync

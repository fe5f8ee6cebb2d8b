import Linux012.Fs.BufferCoherence

/-! `file_write` as the buffer cache sees it. The function marks a buffer dirty
before it copies the user's bytes into it, and each `get_fs_byte` may fault and
let other processes run. -/

set_option autoImplicit false

namespace Linux012.Fs

open BlkDrv Transition Function

/-- The variables of `file_write(inode, filp, buf, count)`; `dev` is the device of
the inode. -/
structure WriteCall where
  dev : Nat
  pos : Nat
  i : Nat
  count : Nat
deriving DecidableEq

/-- How far a process is in `file_write`. -/
inductive Writer where
  | outside
  /-- inside `create_block` -/
  | creating (call : WriteCall)
  /-- inside `bread` -/
  | reading (call : WriteCall)
  /-- before the copy of the byte at `p`, with `c` bytes to go -/
  | copying (call : WriteCall) (bh p c : Nat) (fits : p + c ≤ BLOCK_SIZE)
  /-- inside `brelse` -/
  | releasing (call : WriteCall)
deriving DecidableEq

structure Writers where
  system : System
  writer : Fin NR_TASKS → Writer

inductive WriterMove where
  | complete (line : Nat)
  | advance (p : Fin NR_TASKS)
  /-- a process uses the cache, in `create_block`, in a page fault or elsewhere -/
  | use (p : Fin NR_TASKS) (act : Act)
  /-- a process calls `file_write` -/
  | call (p : Fin NR_TASKS) (dev pos count : Nat)
  /-- `create_block` returns -/
  | created (p : Fin NR_TASKS) (block : Nat)
  /-- `get_fs_byte` returns -/
  | getFsByte (p : Fin NR_TASKS) (byte : UInt8)
  /-- the loop over `c` is done -/
  | copied (p : Fin NR_TASKS)

/-- What a process may do to the cache apart from `file_write` itself: it changes
only buffers it has read, and those of new blocks. -/
def Act.uses (c : Cache) : Act → Bool
  | .modify bh _ => c.uptodate bh
  | .mark _ | .store _ _ _ => false
  | _ => true

section Machine

variable (driver : Nat → Bool)

def Writers.set (w : Writers) (p : Fin NR_TASKS) (writer : Writer) (system : System) : Writers where
  system := system
  writer := update w.writer p writer

def WriteCall.next (call : WriteCall) : Writer :=
  if call.i < call.count then .creating call else .outside

/-- `bread` returns: on success the buffer is marked dirty and the lengths are
computed before the first byte is copied. -/
def Writers.breadReturns (w : Writers) (p : Fin NR_TASKS) (call : WriteCall) (value : Value) :
    Option Writers :=
  match value with
  | .buffer _ _ bh true => do
    let s ← w.system.step driver (.advance p)
    let s ← s.step driver (.begin p (.mark bh))
    let offset := call.pos % BLOCK_SIZE
    let c := min (BLOCK_SIZE - offset) (call.count - call.i)
    have fits : offset + c ≤ BLOCK_SIZE := by
      have := Nat.mod_lt call.pos (NeZero.pos BLOCK_SIZE)
      omega
    some (w.set p (.copying { call with pos := call.pos + c, i := call.i + c } bh offset c fits) s)
  | _ => (w.system.step driver (.advance p)).map fun s => w.set p .outside s

def Writers.step (w : Writers) : WriterMove → Option Writers
  | .complete line => (w.system.step driver (.complete line)).map fun s => { w with system := s }
  | .advance p =>
    match w.writer p, w.system.process p with
    | .reading call, ⟨.ret value, [.user _]⟩ => w.breadReturns driver p call value
    | .releasing call, ⟨.ret _, [.user _]⟩ =>
      (w.system.step driver (.advance p)).map fun s => w.set p call.next s
    | _, _ => (w.system.step driver (.advance p)).map fun s => { w with system := s }
  | .use p act =>
    if act.uses w.system.cache then
      (w.system.step driver (.begin p act)).map fun s => { w with system := s }
    else none
  | .call p dev pos count =>
    match w.writer p, w.system.process p with
    | .outside, ⟨.user _, []⟩ => some (w.set p (WriteCall.next ⟨dev, pos, 0, count⟩) w.system)
    | _, _ => none
  | .created p block =>
    match w.writer p, w.system.process p with
    | .creating call, ⟨.user _, []⟩ =>
      if block = 0 then some (w.set p .outside w.system)
      else (w.system.step driver (.begin p (.bread call.dev block))).map fun s =>
        w.set p (.reading call) s
    | _, _ => none
  | .getFsByte p byte =>
    match w.writer p, w.system.process p with
    | .copying call bh offset (c + 1) fits, ⟨.user _, []⟩ =>
      (w.system.step driver (.begin p (.store bh ⟨offset, by omega⟩ byte))).map fun s =>
        w.set p (.copying call bh (offset + 1) c (by omega)) s
    | _, _ => none
  | .copied p =>
    match w.writer p, w.system.process p with
    | .copying call bh _ 0 _, ⟨.user _, []⟩ =>
      (w.system.step driver (.begin p (.brelse bh))).map fun s => w.set p (.releasing call) s
    | _, _ => none

def Writers.init (c : Cache) : Writers where
  system := .init c
  writer := fun _ => .outside

/-- At every byte `file_write` copies, the buffer is still marked dirty. -/
def Writers.StillDirty (w : Writers) : WriterMove → Prop
  | .getFsByte p _ =>
    match w.writer p with
    | .copying _ bh _ _ _ => w.system.cache.dirt bh = true
    | _ => True
  | _ => True

/-- The byte stored last at an offset of a block is on the disk, or in a buffer
of the block that is dirty or whose queued write request was issued after the
store. -/
def Cache.Kept (c : Cache) (dev block : Nat) (offset : Fin BLOCK_SIZE) : Prop :=
  c.disk dev block offset = c.stored dev block offset ∨
    ∃ h < c.nrBuffers, c.Names dev block h ∧ c.data h offset = c.stored dev block offset ∧
      (c.dirt h = true ∨ c.Writing h ∧ c.unsent h offset = false)

variable {c : Cache}

theorem Cache.Coherent.kept (coherent : c.Coherent) {dev : Nat} (used : dev ≠ 0) (block : Nat)
    (offset : Fin BLOCK_SIZE) : c.Kept dev block offset := by
  by_cases cached : ∃ h < c.nrBuffers, c.Names dev block h
  · obtain ⟨h, small, rfl, rfl⟩ := cached
    cases dirty : c.dirt h with
    | true =>
      have same := coherent.valid h small used (.inr (.inl dirty))
      exact .inr ⟨h, small, ⟨rfl, rfl⟩, congrFun same offset, .inl dirty⟩
    | false =>
      by_cases writing : c.Writing h
      · have same := coherent.valid h small used (.inr (.inr writing))
        exact .inr ⟨h, small, ⟨rfl, rfl⟩, congrFun same offset, .inr ⟨writing, coherent.sent h writing dirty offset⟩⟩
      · exact .inl (congrFun (coherent.clean h small used dirty writing) offset)
  · exact .inl (congrFun (coherent.absent dev block used (by simpa using cached)) offset)

/-! ## Dirty buffers are valid -/

def Cache.DirtyValid (c : Cache) : Prop := ∀ h, c.dirt h = true → c.uptodate h = true

variable {driver}

theorem Submits.dirt {c' : Cache} {rw bh : Nat} {control : Control}
    (submitted : Submits driver c rw bh c' control) {h : Nat} (dirty : c'.dirt h = true) :
    c.dirt h = true ∧ c'.uptodate h = c.uptodate h := by
  cases submitted with
  | skip | wait near served unlocked needed => exact ⟨dirty, rfl⟩
  | queue near served unlocked needed free =>
    simp only [Cache.enqueue, Cache.setLock, update_apply] at dirty
    split at dirty
    · cases dirty
    · exact ⟨dirty, rfl⟩

theorem Moves.dirt {c' : Cache} {proc proc' : Process} (moved : Moves driver c proc c' proc')
    (within : ∀ held, proc.control ≠ .user held) {h : Nat} (dirty : c'.dirt h = true) :
    c.dirt h = true ∧ c'.uptodate h = c.uptodate h := by
  cases moved with
  | victimTake unlocked unused clean absent =>
    rw [Cache.take_dirt, update_apply] at dirty
    rw [Cache.take_uptodate, update_apply]
    split at dirty
    · cases dirty
    · next other => exact ⟨dirty, if_neg other⟩
  | submit submitted | syncDevWrite submitted | sysSyncWrite _ submitted => exact submitted.dirt dirty
  | requestFound free =>
    simp only [Cache.enqueue, update_apply] at dirty
    split at dirty
    · cases dirty
    · exact ⟨dirty, rfl⟩
  | modify holds | mark holds | store holds | clear holds alone => exact absurd rfl (within _)
  | _ => exact ⟨dirty, rfl⟩

theorem Act.dirtyValid {c' : Cache} {held : List Nat} {stack stack' : List Caller} {act : Act}
    {control : Control} (dirtyValid : c.DirtyValid) (careful : act.careful c = true)
    (began : begin c held stack act = some (c', control, stack')) : c'.DirtyValid := by
  intro h dirty
  cases act with
  | modify bh change =>
    simp only [begin, Option.ite_none_right_eq_some] at began
    cases began.2
    simp only [Cache.setDirt, Cache.write, update_apply] at dirty ⊢
    split at dirty
    · next same =>
        rw [same]
        exact careful
    · exact dirtyValid h dirty
  | mark bh =>
    simp only [begin, Option.ite_none_right_eq_some] at began
    cases began.2
    simp only [Cache.setDirt, update_apply] at dirty ⊢
    split at dirty
    · next same =>
        rw [same]
        exact careful
    · exact dirtyValid h dirty
  | store bh offset byte | brelse bh =>
    simp only [begin, Option.ite_none_right_eq_some] at began
    cases began.2
    exact dirtyValid h dirty
  | clear bh =>
    simp only [begin, Option.ite_none_right_eq_some] at began
    cases began.2
    simp only [Cache.clearBlock, Cache.write, update_apply] at dirty ⊢
    split at dirty
    · next same => exact if_pos same
    · next other => exact (if_neg other).trans (dirtyValid h dirty)
  | returnInodes =>
    simp only [begin] at began
    split at began <;> cases began <;> exact dirtyValid h dirty
  | _ =>
    cases began
    exact dirtyValid h dirty

variable {n : Nat}

theorem System.Invariant.dirtyValid_step {s s' : System} {m : Move} (invariant : s.Invariant n)
    (dirtyValid : s.cache.DirtyValid) (careful : s.careful m = true) (moved : s.step driver m = some s') :
    s'.cache.DirtyValid := by
  intro h dirty
  cases m with
  | advance p =>
    obtain ⟨proc, moves, _⟩ := System.step_moves rfl moved
    obtain ⟨before, same⟩ := moves.dirt (System.step_advance moved) dirty
    exact same.trans (dirtyValid h before)
  | complete line =>
    obtain ⟨busy, rfl⟩ := System.step_complete moved
    have queued : s.cache.WellQueued := invariant.wellLocked.queued
    refine Cache.endRequest_uptodate (dirtyValid h ?_)
    obtain ⟨slot, bh, -, -, ⟨-, done⟩ | ⟨-, done⟩⟩ := queued.endRequest busy
    · rw [done] at dirty
      exact dirty
    · rw [done] at dirty
      exact dirty
  | begin p act =>
    obtain ⟨held, control, stack, outside, began, _⟩ := System.step_begin moved
    exact Act.dirtyValid dirtyValid careful began h dirty

structure System.Settled (n : Nat) (s : System) : Prop where
  invariant : s.Invariant n
  coherent : s.cache.Coherent
  dirtyValid : s.cache.DirtyValid

theorem System.Settled.step {n : Nat} {s s' : System} {m : Move} (settled : s.Settled n)
    (careful : s.careful m = true) (moved : s.step driver m = some s') : s'.Settled n where
  invariant := settled.invariant.step moved
  coherent := settled.invariant.coherent_step settled.coherent (settled.invariant.careful careful) moved
  dirtyValid := settled.invariant.dirtyValid_step settled.dirtyValid careful moved

theorem System.Settled.careful_advance {s : System} (settled : s.Settled n) (p : Fin NR_TASKS) :
    s.careful (.advance p) = true := by
  have clean : ∀ bh, (s.cache.uptodate bh || !s.cache.dirt bh) = true := by
    intro bh
    cases dirty : s.cache.dirt bh with
    | false => simp
    | true => simp [settled.dirtyValid bh dirty]
  simp only [System.careful]
  split
  · exact clean _
  · exact clean _
  · rfl

theorem Writers.settled_map {w w' : Writers} {m : Move} {f : System → Writers} (settled : w.system.Settled n)
    (keeps : ∀ s, (f s).system = s) (careful : w.system.careful m = true)
    (moved : (w.system.step driver m).map f = some w') : w'.system.Settled n := by
  obtain ⟨s, stepped, rfl⟩ := Option.map_eq_some_iff.mp moved
  rw [keeps]
  exact settled.step careful stepped

theorem Writers.settled_breadReturns {w w' : Writers} {p : Fin NR_TASKS} {call : WriteCall} {value : Value}
    {held : List Nat} (settled : w.system.Settled n) (here : w.system.process p = ⟨.ret value, [.user held]⟩)
    (returned : w.breadReturns driver p call value = some w') : w'.system.Settled n := by
  have careful := settled.careful_advance p
  unfold Writers.breadReturns at returned
  split at returned
  · next dev block bh =>
      simp only [Option.bind_eq_bind, Option.bind_eq_some_iff] at returned
      obtain ⟨s, moved, s', marked, done⟩ := returned
      cases done
      have named := (settled.invariant.referenced.named p).1
      rw [here] at named
      have valid : s.cache.uptodate bh = true := by
        rw [(System.step_return here moved).1]
        exact named.2 rfl
      exact (settled.step careful moved).step (m := .begin p (.mark bh)) valid marked
  · exact settled_map settled (fun _ => rfl) careful returned

theorem Act.careful_of_uses {act : Act} (uses : act.uses c = true) : act.careful c = true := by
  cases act with
  | modify bh change => exact uses
  | mark bh | store bh offset byte => cases uses
  | _ => rfl

theorem Writers.settled_step {w w' : Writers} {m : WriterMove} (settled : w.system.Settled n)
    (still : w.StillDirty m) (moved : w.step driver m = some w') : w'.system.Settled n := by
  cases m with
  | complete line => exact settled_map settled (fun _ => rfl) rfl moved
  | advance p =>
    have careful := settled.careful_advance p
    simp only [Writers.step] at moved
    split at moved
    · next here => exact settled_breadReturns settled here moved
    · exact settled_map settled (fun _ => rfl) careful moved
    · exact settled_map settled (fun _ => rfl) careful moved
  | use p act =>
    simp only [Writers.step, Option.ite_none_right_eq_some] at moved
    obtain ⟨uses, moved⟩ := moved
    exact settled_map (m := .begin p act) settled (fun _ => rfl) (Act.careful_of_uses uses) moved
  | call p dev pos count =>
    simp only [Writers.step] at moved
    split at moved
    · cases moved
      exact settled
    · cases moved
  | created p block =>
    simp only [Writers.step] at moved
    split at moved
    · split at moved
      · cases moved
        exact settled
      · exact settled_map settled (fun _ => rfl) rfl moved
    · cases moved
  | getFsByte p byte =>
    simp only [Writers.step] at moved
    split at moved
    · next call bh offset c fits held writing here =>
        have dirty : w.system.careful (.begin p (.store bh ⟨offset, by omega⟩ byte)) = true := by
          simp only [Writers.StillDirty, writing] at still
          exact still
        exact settled_map settled (fun _ => rfl) dirty moved
    · cases moved
  | copied p =>
    simp only [Writers.step] at moved
    split at moved
    · exact settled_map settled (fun _ => rfl) rfl moved
    · cases moved

/-- As long as `file_write` finds its buffer dirty at every byte it copies, no
byte that was stored is ever forgotten, in whatever order the processes run. -/
theorem kept_of_stillDirty {n : Nat} (positive : 0 < n) {blocknr : Nat → Nat} {data : Nat → Block}
    {disk : Nat → Nat → Block} {w : Writers}
    (reached : Run (Writers.step driver) Writers.StillDirty
      (.init (.init n blocknr data disk)) w) (dev block : Nat) (offset : Fin BLOCK_SIZE)
    (used : dev ≠ 0) : w.system.cache.Kept dev block offset := by
  have settled : w.system.Settled n :=
    reached.invariant (P := fun w => w.system.Settled n)
      (fun settled still moved => Writers.settled_step settled still moved)
      { invariant := System.invariant_init positive blocknr data disk
        coherent := Cache.coherent_init n blocknr data disk
        dirtyValid := nofun }
  exact settled.coherent.kept used block offset

end Machine

/-- `file_write` writes two bytes to block 5 of the hard disk, up to the fault
before the second one. -/
def untilFault : List WriterMove :=
  [.call 0 0x300 0 2, .created 0 5] ++ List.replicate 7 (.advance 0) ++ [.complete 3] ++
    List.replicate 2 (.advance 0) ++ [.getFsByte 0 65]

def syncMeanwhile : List WriterMove :=
  [.use 1 .sysSync, .use 1 .returnInodes, .advance 1, .complete 3] ++ List.replicate 3 (.advance 1)

def finishWrite : List WriterMove :=
  [.getFsByte 0 66, .copied 0] ++ List.replicate 2 (.advance 0)

theorem kept_of_stillDirty_write :
    ∃ w : Writers, (w.writer 0 = .outside ∧ w.system.cache.stored 0x300 5 1 = 66) ∧
      w.system.cache.Kept 0x300 5 1 := by
  obtain ⟨w, reached, shape⟩ := exists_of_runIf (Writers.step fun _ => true)
    (fun w m =>
      match m with
      | .getFsByte p _ => match w.writer p with
        | .copying _ bh _ _ _ => w.system.cache.dirt bh
        | _ => true
      | _ => true)
    (.init (.init 1 (fun _ => 0) (fun _ => .zero) fun _ _ => .zero)) (untilFault ++ finishWrite)
    (fun w => w.writer 0 = .outside ∧ w.system.cache.stored 0x300 5 1 = 66) (by decide +kernel)
  refine ⟨w, shape, kept_of_stillDirty (n := 1) (by decide) (reached.weaken ?_) 0x300 5 1 (by decide)⟩
  intro w m still
  cases m with
  | getFsByte p byte =>
    simp only [Writers.StillDirty]
    split
    · next writing => simpa [writing] using still
    · trivial
  | _ => trivial

/-- A sync while `file_write` faults: the byte copied after it is neither on the
disk nor in a dirty buffer when `file_write` has returned. -/
theorem faultingWrite_not_kept :
    ∃ w, run (Writers.step fun _ => true)
        (.init (.init 1 (fun _ => 0) (fun _ => .zero) fun _ _ => .zero))
        (untilFault ++ syncMeanwhile ++ finishWrite) = some w ∧
      w.writer 0 = .outside ∧ ¬ w.system.cache.Kept 0x300 5 1 := by
  refine exists_run (fun w => w.writer 0 = .outside ∧
    w.system.cache.disk 0x300 5 1 ≠ w.system.cache.stored 0x300 5 1 ∧ w.system.cache.nrBuffers = 1 ∧
    w.system.cache.dirt 0 = false ∧ w.system.cache.unsent 0 1 = true) (by decide +kernel)
    fun w ran ⟨outside, lost, number, clean, idle⟩ => ⟨outside, ?_⟩
  rintro (done | ⟨h, small, -, -, cached⟩)
  · exact lost done
  · obtain rfl : h = 0 := by omega
    rcases cached with dirty | ⟨-, sent⟩
    · exact absurd dirty (by simp [clean])
    · exact absurd sent (by simp [idle])

end Linux012.Fs

import Linux012.Fs.BufferCoherence

/-! `block_write` and `block_read` on one device, by one process, over the buffer
cache. A block that is written as a whole is not read first. -/

set_option autoImplicit false

namespace Linux012.Fs

open BlkDrv Transition Function

/-- The variables of `block_write` and `block_read`; the user's bytes from `buf`
on are those still to be written. -/
structure BlockCall where
  write : Bool
  block : Nat
  offset : Nat
  count : Nat
  buf : Nat → UInt8
  inBlock : offset < BLOCK_SIZE

namespace BlockCall

def chars (call : BlockCall) : Nat := min (BLOCK_SIZE - call.offset) call.count

def start (call : BlockCall) : Nat := call.block * BLOCK_SIZE + call.offset

def Whole (call : BlockCall) : Prop := call.write = true ∧ call.chars = BLOCK_SIZE

instance (call : BlockCall) : Decidable call.Whole := inferInstanceAs (Decidable (_ ∧ _))

def fetch (dev : Nat) (call : BlockCall) : Act :=
  if call.Whole then .getblk dev call.block
  else .breada dev call.block [call.block + 1, call.block + 2]

def rest (call : BlockCall) : BlockCall where
  write := call.write
  block := call.block + 1
  offset := 0
  count := call.count - call.chars
  buf := fun k => call.buf (call.chars + k)
  inBlock := by decide

def copyIn (call : BlockCall) (old : Block) : Block := fun o =>
  if call.offset ≤ o.val ∧ o.val < call.offset + call.chars then call.buf (o.val - call.offset)
  else old o

def store (call : BlockCall) (array : Nat → UInt8) : Nat → UInt8 := fun pos =>
  if call.start ≤ pos ∧ pos < call.start + call.chars then call.buf (pos - call.start)
  else array pos

end BlockCall

inductive Stage where
  | idle
  /-- inside `getblk` or `breada` -/
  | fetching (call : BlockCall)
  /-- inside `brelse` -/
  | releasing (call : BlockCall)

/-- A byte that `block_read` gave to the user, with the one written there last. -/
structure Delivery where
  pos : Nat
  byte : UInt8
  written : UInt8
deriving DecidableEq

/-- The cache, the process that uses the device, and the array of bytes that the
device is meant to be. -/
structure BlockDevice where
  system : System
  stage : Stage
  array : Nat → UInt8
  output : List Delivery

inductive DeviceMove where
  /-- a request completes, or the cache is used for something else -/
  | other (m : Move)
  | blockWrite (pos count : Nat) (buf : Nat → UInt8)
  | blockRead (pos count : Nat)
  | advance

def Act.elsewhere (c : Cache) (dev : Nat) : Act → Bool
  | .modify bh _ | .mark bh | .store bh _ _ | .clear bh => c.dev bh != dev
  | _ => true

section Machine

variable (driver : Nat → Bool) (dev size : Nat) (me : Fin NR_TASKS)

/-- Others do what they like except for storing to the device; the process itself
may write out inodes while it is inside the cache. -/
def System.allows (s : System) : Move → Bool
  | .complete _ => true
  | .advance q => q != me
  | .begin q act => (q != me || (s.process q).stack != []) && act.elsewhere s.cache dev

namespace BlockDevice

/-- The head of the loop: `count>0`, and the block lies on the device. -/
def next (d : BlockDevice) (call : BlockCall) : Option BlockDevice :=
  if call.count = 0 ∨ size ≤ call.block then some { d with stage := .idle }
  else (d.system.step driver (.begin me (call.fetch dev))).map fun s =>
    { d with system := s, stage := .fetching call }

/-- The rest of the loop body, up to `brelse`. -/
def fetched (d : BlockDevice) (call : BlockCall) (value : Value) : Option BlockDevice :=
  match value with
  | .buffer _ _ bh _ => do
    let s ← d.system.step driver (.advance me)
    if call.write then
      let s ← s.step driver (.begin me (.modify bh call.copyIn))
      let s ← s.step driver (.begin me (.brelse bh))
      some { d with system := s, stage := .releasing call.rest, array := call.store d.array }
    else
      let output := (List.range call.chars).map fun k =>
        { pos := call.start + k
          byte := s.cache.data bh (Fin.ofNat BLOCK_SIZE (call.offset + k))
          written := d.array (call.start + k) }
      let s ← s.step driver (.begin me (.brelse bh))
      some { d with system := s, stage := .releasing call.rest, output := d.output ++ output }
  | _ => (d.system.step driver (.advance me)).map fun s => { d with system := s, stage := .idle }

def call (d : BlockDevice) (write : Bool) (pos count : Nat) (buf : Nat → UInt8) : Option BlockDevice :=
  match d.stage, d.system.process me with
  | .idle, ⟨.user _, []⟩ =>
    d.next driver dev size me
      { write := write
        block := pos / BLOCK_SIZE
        offset := pos % BLOCK_SIZE
        count := count
        buf := buf
        inBlock := Nat.mod_lt _ (NeZero.pos _) }
  | _, _ => none

def step (d : BlockDevice) : DeviceMove → Option BlockDevice
  | .other m =>
    if d.system.allows dev me m then
      (d.system.step driver m).map fun s => { d with system := s }
    else none
  | .blockWrite pos count buf => d.call driver dev size me true pos count buf
  | .blockRead pos count => d.call driver dev size me false pos count fun _ => 0
  | .advance =>
    match d.stage, d.system.process me with
    | .fetching call, ⟨.ret value, [.user _]⟩ => d.fetched driver me call value
    | .releasing call, ⟨.ret _, [.user _]⟩ =>
      (d.system.step driver (.advance me)).bind fun s =>
        { d with system := s }.next driver dev size me call
    | .idle, _ => none
    | _, _ => (d.system.step driver (.advance me)).map fun s => { d with system := s }

end BlockDevice

end Machine

/-! ## What leaves the device alone -/

section Frame

variable {driver : Nat → Bool}

theorem Submits.stored {c c' : Cache} {rw bh : Nat} {control : Control}
    (submitted : Submits driver c rw bh c' control) : c'.stored = c.stored := by
  cases submitted with
  | _ => rfl

theorem Moves.stored {c c' : Cache} {proc proc' : Process} (moved : Moves driver c proc c' proc')
    (within : ∀ held, proc.control ≠ .user held) : c'.stored = c.stored := by
  cases moved with
  | victimTake unlocked unused clean absent => exact c.take_stored _ _ _
  | submit submitted | syncDevWrite submitted | sysSyncWrite _ submitted => exact submitted.stored
  | modify holds | mark holds | store holds | clear holds alone => exact absurd rfl (within _)
  | _ => rfl

theorem Act.stored {c c' : Cache} {held : List Nat} {stack stack' : List Caller} {act : Act}
    {control : Control} {dev : Nat} (elsewhere : act.elsewhere c dev = true)
    (began : begin c held stack act = some (c', control, stack')) : c'.stored dev = c.stored dev := by
  cases act with
  | modify bh change | store bh offset byte | clear bh =>
    have other : dev ≠ c.dev bh := by
      rintro rfl
      simp [Act.elsewhere] at elsewhere
    simp only [begin, Option.ite_none_right_eq_some] at began
    cases began.2
    exact update_of_ne other _ _
  | mark bh | brelse bh =>
    simp only [begin, Option.ite_none_right_eq_some] at began
    cases began.2
    rfl
  | returnInodes =>
    simp only [begin] at began
    split at began <;> cases began <;> rfl
  | _ =>
    cases began
    rfl

theorem System.Invariant.stored_same {n : Nat} {s s' : System} {m : Move} {dev : Nat}
    (invariant : s.Invariant n)
    (elsewhere : ∀ p act, m = .begin p act → act.elsewhere s.cache dev = true)
    (moved : s.step driver m = some s') : s'.cache.stored dev = s.cache.stored dev := by
  cases m with
  | advance p =>
    obtain ⟨proc, moves, _⟩ := System.step_moves rfl moved
    rw [moves.stored (System.step_advance moved)]
  | begin p act =>
    obtain ⟨held, control, stack, outside, began, _⟩ := System.step_begin moved
    exact Act.stored (elsewhere p act rfl) began
  | complete line =>
    obtain ⟨busy, rfl⟩ := System.step_complete moved
    have queued : s.cache.WellQueued := invariant.wellLocked.queued
    obtain ⟨slot, bh, -, -, ⟨-, done⟩ | ⟨-, done⟩⟩ := queued.endRequest busy
    · rw [done]
      rfl
    · rw [done]
      rfl

end Frame

/-! ## What a call into the cache returns -/

/-- What the outermost call returns, if it is a buffer, is as `asked`. -/
def StackReturns (asked : Nat × Nat × Bool → Prop) : Option (Nat × Nat × Bool) → List Caller → Prop
  | _, [] => False
  | label, caller :: stack =>
    (stack = [] ∧ (∃ held, caller = .user held) ∧ ∀ l ∈ label, asked l) ∨
      StackReturns asked caller.label stack

def Process.Returns (asked : Nat × Nat × Bool → Prop) (proc : Process) : Prop :=
  StackReturns asked proc.control.label proc.stack

theorem StackReturns.none {asked : Nat × Nat × Bool → Prop} {label : Option (Nat × Nat × Bool)}
    {stack : List Caller} (returns : StackReturns asked label stack) :
    StackReturns asked none stack := by
  cases stack with
  | nil => exact returns
  | cons caller stack =>
    rcases returns with ⟨last, user, -⟩ | below
    · exact .inl ⟨last, user, by simp⟩
    · exact .inr below

theorem Moves.returns {driver : Nat → Bool} {c c' : Cache} {proc proc' : Process}
    (moved : Moves driver c proc c' proc') {asked : Nat × Nat × Bool → Prop}
    (returns : proc.Returns asked) (inside : ∀ value held, proc ≠ ⟨.ret value, [.user held]⟩) :
    proc'.Returns asked := by
  unfold Process.Returns at returns ⊢
  cases moved with
  | submit submitted =>
    rw [submitted.label]
    exact returns.none
  | syncDevWrite submitted | sysSyncWrite _ submitted =>
    rw [submitted.label]
    exact .inr returns
  | toUserBuffer | toUser missing =>
    rcases returns with ⟨rfl, -, -⟩ | below
    · exact absurd rfl (inside _ _)
    · exact below
  | toNull why | toSyncDev why | toSysSync why =>
    rcases returns with ⟨-, ⟨held, rfl⟩, -⟩ | below
    · simp at why
    · exact below.none
  | breadFails unlocked => exact .inr returns.none
  | _ =>
    simp only [Control.label, StackReturns, Caller.label] at returns ⊢
    grind [StackReturns.none]

/-! ## The device as an array of bytes -/

section Machine

variable (driver : Nat → Bool) (dev size : Nat) (me : Fin NR_TASKS)

def Cache.byteAt (c : Cache) (pos : Nat) : UInt8 :=
  c.stored dev (pos / BLOCK_SIZE) (Fin.ofNat BLOCK_SIZE pos)

/-- No read is asked for over a dirty buffer the disk disagrees with, and none is
queued for a buffer that is filled as a whole. -/
def BlockDevice.Careful (d : BlockDevice) : DeviceMove → Prop
  | .other m => d.system.Careful driver m
  | .blockWrite _ _ _ | .blockRead _ _ => True
  | .advance => d.system.Careful driver (.advance me) ∧
      ∀ call b b' bh wasRead held, d.stage = .fetching call →
        d.system.process me = ⟨.ret (.buffer b b' bh wasRead), [.user held]⟩ →
        call.Whole → ¬ d.system.cache.BeingRead bh

structure BlockDevice.Tracks (n : Nat) (d : BlockDevice) : Prop where
  invariant : d.system.Invariant n
  coherent : d.system.cache.Coherent
  array : ∀ pos, d.array pos = d.system.cache.byteAt dev pos
  output : ∀ delivery ∈ d.output, delivery.byte = delivery.written

def BlockCall.Asked (call : BlockCall) (label : Nat × Nat × Bool) : Prop :=
  label.1 = dev ∧ label.2.1 = call.block ∧ (call.Whole ∨ label.2.2 = true)

def BlockDevice.Fetching (d : BlockDevice) : Prop :=
  ∀ call, d.stage = .fetching call → (d.system.process me).Returns (call.Asked dev)

variable {driver dev size me}

variable {d : BlockDevice} {n : Nat} {s : System}

theorem BlockDevice.Tracks.machine {m : Move} {stage : Stage} (tracks : d.Tracks dev n)
    (careful : d.system.Careful driver m)
    (elsewhere : ∀ p act, m = .begin p act → act.elsewhere d.system.cache dev = true)
    (moved : d.system.step driver m = some s) :
    ({ d with system := s, stage := stage } : BlockDevice).Tracks dev n := by
  have same : s.cache.stored dev = d.system.cache.stored dev := tracks.invariant.stored_same elsewhere moved
  refine ⟨tracks.invariant.step moved, tracks.invariant.coherent_step tracks.coherent careful moved,
    ?_, tracks.output⟩
  intro pos
  rw [tracks.array, Cache.byteAt, Cache.byteAt, same]

theorem BlockDevice.Fetching.other {m : Move} (fetching : d.Fetching dev me)
    (allowed : d.system.allows dev me m = true) (moved : d.system.step driver m = some s) :
    ({ d with system := s } : BlockDevice).Fetching dev me := by
  intro call stage
  have before := fetching call stage
  cases m with
  | complete line =>
    obtain ⟨_, rfl⟩ := System.step_complete moved
    exact before
  | advance q =>
    obtain ⟨proc, _, others⟩ := System.step_moves rfl moved
    have other : me ≠ q := by
      rintro rfl
      simp [System.allows] at allowed
    rw [others, update_of_ne other]
    exact before
  | begin q act =>
    obtain ⟨proc, moves, others⟩ := System.step_moves rfl moved
    obtain ⟨held, _, _, outside, -, -⟩ := System.step_begin moved
    rw [others]
    by_cases mine : me = q
    · subst mine
      rw [update_self]
      refine moves.returns before ?_
      intro value held' same
      rw [same] at outside
      cases outside
    · rw [update_of_ne mine]
      exact before

variable {d' : BlockDevice}

theorem BlockDevice.next_agrees {call : BlockCall} {held : List Nat} (tracks : d.Tracks dev n)
    (here : d.system.process me = ⟨.user held, []⟩) (moved : d.next driver dev size me call = some d') :
    d'.Tracks dev n ∧ d'.Fetching dev me := by
  unfold BlockDevice.next at moved
  split at moved
  · cases moved
    exact ⟨⟨tracks.invariant, tracks.coherent, tracks.array, tracks.output⟩, nofun⟩
  · obtain ⟨s, began, rfl⟩ := Option.map_eq_some_iff.mp moved
    have plain : (call.fetch dev).Careful d.system.cache ∧
        (call.fetch dev).elsewhere d.system.cache dev = true := by
      unfold BlockCall.fetch
      split <;> exact ⟨trivial, rfl⟩
    refine ⟨tracks.machine (m := .begin me (call.fetch dev)) plain.1 ?_ began, ?_⟩
    · rintro p act same
      cases same
      exact plain.2
    · intro call' stage
      cases stage
      obtain ⟨held', control, stack, outside, acted, after⟩ := System.step_begin began
      rw [here] at acted
      rw [after, update_self]
      unfold BlockCall.fetch at acted
      split at acted
      · next whole =>
          simp only [begin, Option.some.injEq, Prod.mk.injEq] at acted
          obtain ⟨-, rfl, rfl⟩ := acted
          refine .inl ⟨rfl, ⟨_, rfl⟩, ?_⟩
          rintro l ⟨⟩
          exact ⟨rfl, rfl, .inl whole⟩
      · simp only [begin, Option.some.injEq, Prod.mk.injEq] at acted
        obtain ⟨-, rfl, rfl⟩ := acted
        refine .inr (.inl ⟨rfl, ⟨_, rfl⟩, ?_⟩)
        rintro l ⟨⟩
        exact ⟨rfl, rfl, .inr rfl⟩

theorem BlockCall.chars_le (call : BlockCall) : call.offset + call.chars ≤ BLOCK_SIZE := by
  have := call.inBlock
  unfold BlockCall.chars
  omega

theorem BlockCall.byteAt_store (call : BlockCall) {c c' : Cache}
    (stored : c'.stored dev = update (c.stored dev) call.block
      (call.copyIn (c.stored dev call.block))) (array : Nat → UInt8)
    (before : ∀ pos, array pos = c.byteAt dev pos) (pos : Nat) :
    call.store array pos = c'.byteAt dev pos := by
  have fits := call.chars_le
  have size : BLOCK_SIZE = 1024 := rfl
  rw [size] at fits
  simp only [BlockCall.store, Cache.byteAt, stored, BlockCall.start, size]
  by_cases same : pos / 1024 = call.block
  · rw [same, update_self]
    simp only [BlockCall.copyIn, Fin.val_ofNat, size]
    have inside : (call.offset ≤ pos % 1024 ∧ pos % 1024 < call.offset + call.chars) ↔
        (call.block * 1024 + call.offset ≤ pos ∧ pos < call.block * 1024 + call.offset + call.chars) := by
      omega
    have index : pos % 1024 - call.offset = pos - (call.block * 1024 + call.offset) := by omega
    simp only [inside, index]
    split
    · rfl
    · rw [before, Cache.byteAt, show pos / BLOCK_SIZE = call.block from same]
  · have outside : ¬ (call.block * 1024 + call.offset ≤ pos ∧
        pos < call.block * 1024 + call.offset + call.chars) := by omega
    rw [if_neg outside, update_of_ne same, before]
    rfl

theorem BlockCall.byteAt_read (call : BlockCall) {c : Cache} {bh k : Nat} (within : k < call.chars)
    (data : c.data bh = c.stored dev call.block) :
    c.data bh (Fin.ofNat BLOCK_SIZE (call.offset + k)) = c.byteAt dev (call.start + k) := by
  have fits := call.chars_le
  rw [show BLOCK_SIZE = 1024 from rfl] at fits
  have block : (call.start + k) / BLOCK_SIZE = call.block := by
    change (call.block * 1024 + call.offset + k) / 1024 = call.block
    omega
  have offset : Fin.ofNat BLOCK_SIZE (call.start + k) = Fin.ofNat BLOCK_SIZE (call.offset + k) := by
    apply Fin.ext
    change (call.block * 1024 + call.offset + k) % 1024 = (call.offset + k) % 1024
    omega
  rw [data, Cache.byteAt, block, offset]

theorem BlockCall.copyIn_whole (call : BlockCall) (whole : call.chars = BLOCK_SIZE) (x y : Block) :
    call.copyIn x = call.copyIn y := by
  have fits := call.chars_le
  funext o
  have inside : call.offset ≤ o.val ∧ o.val < call.offset + call.chars := by omega
  simp only [BlockCall.copyIn, if_pos inside]

theorem BlockDevice.fetched_agrees {call : BlockCall} {value : Value} {held : List Nat} (used : dev ≠ 0)
    (tracks : d.Tracks dev n) (fetching : d.Fetching dev me) (stage : d.stage = .fetching call)
    (here : d.system.process me = ⟨.ret value, [.user held]⟩) (careful : d.Careful driver me .advance)
    (moved : d.fetched driver me call value = some d') : d'.Tracks dev n ∧ d'.Fetching dev me := by
  unfold BlockDevice.fetched at moved
  split at moved
  · next b b' bh wasRead =>
      simp only [Option.bind_eq_bind, Option.bind_eq_some_iff] at moved
      obtain ⟨s, advanced, moved⟩ := moved
      have same : s.cache = d.system.cache := (System.step_return here advanced).1
      have after : ({ d with system := s } : BlockDevice).Tracks dev n :=
        tracks.machine careful.1 (fun _ _ begins => by cases begins) advanced
      -- the buffer is that of the block this round of the loop is about
      have label : call.Asked dev (b, b', wasRead) := by
        have returns := fetching call stage
        unfold Process.Returns at returns
        rw [here] at returns
        rcases returns with ⟨-, -, asked⟩ | none
        · exact asked _ rfl
        · exact none.elim
      obtain ⟨askedDev, askedBlock, read⟩ := label
      have named := (tracks.invariant.referenced.named me).1
      rw [here] at named
      obtain ⟨⟨isDev, isBlock⟩, valid⟩ := named
      have sameDev : s.cache.dev bh = dev := same ▸ isDev.trans askedDev
      have sameBlock : s.cache.blocknr bh = call.block := same ▸ isBlock.trans askedBlock
      split at moved
      · next writes =>
          simp only [Option.bind_eq_some_iff] at moved
          obtain ⟨s₁, modified, s₂, released, done⟩ := moved
          cases done
          have safe : s.cache.Safe bh call.copyIn := by
            rw [same]
            rcases read with whole | wasRead'
            · exact ⟨careful.2 call b b' bh wasRead held stage here whole, .inr (call.copyIn_whole whole.2)⟩
            · exact tracks.invariant.safe (valid wasRead')
          obtain ⟨held', _, _, -, acted, -⟩ := System.step_begin modified
          simp only [begin, Option.ite_none_right_eq_some, Option.some.injEq, Prod.mk.injEq] at acted
          have stored : s₁.cache.stored dev = update (s.cache.stored dev) call.block
              (call.copyIn (s.cache.stored dev call.block)) := by
            rw [← acted.2.1]
            simp [Cache.setDirt, Cache.write, sameDev, sameBlock]
          have filled : ({ d with system := s₁, array := call.store d.array } : BlockDevice).Tracks dev n :=
            { invariant := after.invariant.step modified
              coherent := after.invariant.coherent_step (m := .begin me (.modify bh call.copyIn))
                after.coherent safe modified
              array := call.byteAt_store stored d.array after.array
              output := tracks.output }
          refine ⟨filled.machine (m := .begin me (.brelse bh)) trivial ?_ released, fun _ fetching => by cases fetching⟩
          rintro p act ⟨⟩
          rfl
      · next reads =>
          simp only [Option.bind_eq_some_iff] at moved
          obtain ⟨s₁, released, done⟩ := moved
          cases done
          have inside : bh < s.cache.nrBuffers := by
            rw [same]
            refine tracks.invariant.linked.inside me bh (List.mem_append_left _ ?_)
            rw [here]
            exact .head _
          have data : s.cache.data bh = s.cache.stored dev call.block := by
            have uptodate : s.cache.uptodate bh = true := by
              rw [same]
              exact valid (read.resolve_left fun whole => reads whole.1)
            have latest := after.coherent.valid bh inside (sameDev ▸ used) (.inl uptodate)
            rwa [sameDev, sameBlock] at latest
          have kept : ({ d with system := s₁, stage := .releasing call.rest } : BlockDevice).Tracks dev n := by
            refine after.machine (m := .begin me (.brelse bh)) trivial ?_ released
            rintro p act ⟨⟩
            rfl
          refine ⟨⟨kept.invariant, kept.coherent, kept.array, ?_⟩, fun _ fetching => by cases fetching⟩
          intro delivery member
          rcases List.mem_append.mp member with old | new
          · exact tracks.output delivery old
          · obtain ⟨k, within, rfl⟩ := List.mem_map.mp new
            exact (call.byteAt_read (List.mem_range.mp within) data).trans (after.array _).symm
  · obtain ⟨s, advanced, rfl⟩ := Option.map_eq_some_iff.mp moved
    exact ⟨tracks.machine careful.1 (fun _ _ begins => by cases begins) advanced, fun _ fetching => by cases fetching⟩

theorem BlockDevice.call_agrees {write : Bool} {pos count : Nat} {buf : Nat → UInt8} (tracks : d.Tracks dev n)
    (moved : d.call driver dev size me write pos count buf = some d') : d'.Tracks dev n ∧ d'.Fetching dev me := by
  unfold BlockDevice.call at moved
  split at moved
  · next here => exact next_agrees tracks here moved
  · cases moved

theorem BlockDevice.step_agrees {m : DeviceMove} (used : dev ≠ 0) (tracks : d.Tracks dev n)
    (fetching : d.Fetching dev me) (careful : d.Careful driver me m)
    (moved : d.step driver dev size me m = some d') : d'.Tracks dev n ∧ d'.Fetching dev me := by
  cases m with
  | other m =>
    simp only [BlockDevice.step, Option.ite_none_right_eq_some] at moved
    obtain ⟨allowed, moved⟩ := moved
    obtain ⟨s, stepped, rfl⟩ := Option.map_eq_some_iff.mp moved
    refine ⟨tracks.machine careful ?_ stepped, fetching.other allowed stepped⟩
    rintro p act rfl
    simp only [System.allows, Bool.and_eq_true] at allowed
    exact allowed.2
  | blockWrite pos count buf | blockRead pos count => exact call_agrees tracks moved
  | advance =>
    simp only [BlockDevice.step] at moved
    split at moved
    · next stage here => exact fetched_agrees used tracks fetching stage here careful moved
    · next call value held stage here =>
        rw [Option.bind_eq_some_iff] at moved
        obtain ⟨s, advanced, moved⟩ := moved
        obtain ⟨held', outside⟩ := (System.step_return here advanced).2
        have after : ({ d with system := s } : BlockDevice).Tracks dev n := tracks.machine careful.1 nofun advanced
        exact next_agrees after outside moved
    · cases moved
    · next _ notFetched _ =>
      obtain ⟨s, stepped, rfl⟩ := Option.map_eq_some_iff.mp moved
      refine ⟨tracks.machine careful.1 nofun stepped, ?_⟩
      intro call stage
      obtain ⟨proc, moves, others⟩ := System.step_moves rfl stepped
      change (s.process me).Returns _
      rw [others, update_self]
      exact moves.returns (fetching call stage) fun value held here => notFetched call value held stage here

variable (dev) in
def BlockDevice.start (s : System) : BlockDevice where
  system := s
  stage := .idle
  array := s.cache.byteAt dev
  output := []

theorem BlockDevice.start_agrees (positive : 0 < n) {blocknr : Nat → Nat} {data : Nat → Block}
    {disk : Nat → Nat → Block}
    (before : Run (System.step driver) (System.Careful driver) (.init (.init n blocknr data disk)) s) :
    (start dev s).Tracks dev n ∧ (start dev s).Fetching dev me := by
  obtain ⟨invariant, coherent⟩ := coherent_of_run positive before
  refine ⟨⟨invariant, coherent, fun _ => rfl, ?_⟩, ?_⟩
  · intro delivery member
    cases member
  · intro call stage
    cases stage

/-- From any state of the cache that careful use leads to, every byte that
`block_read` gives to the user is the one written last at its position. -/
theorem blockRead_delivers_written {n : Nat} (positive : 0 < n) (used : dev ≠ 0)
    {blocknr : Nat → Nat} {data : Nat → Block} {disk : Nat → Nat → Block} {s : System}
    (before : Run (System.step driver) (System.Careful driver) (.init (.init n blocknr data disk)) s)
    {d : BlockDevice} (reached : Run (BlockDevice.step driver dev size me)
      (BlockDevice.Careful driver me) (.start dev s) d) :
    ∀ delivery ∈ d.output, delivery.byte = delivery.written := by
  have holds : d.Tracks dev n ∧ d.Fetching dev me :=
    reached.invariant (P := fun d => d.Tracks dev n ∧ d.Fetching dev me)
      (fun ⟨tracks, fetching⟩ careful moved =>
        BlockDevice.step_agrees used tracks fetching careful moved)
      (BlockDevice.start_agrees positive before)
  exact holds.1.output

end Machine

theorem blockRead_delivers_written_part :
    ∃ d : BlockDevice, d.output = [⟨0, 7, 7⟩] ∧ ∀ delivery ∈ d.output, delivery.byte = delivery.written := by
  let s : System := .init (.init 2 (fun _ => 0) (fun _ => .zero) fun _ _ => .zero)
  have before : Run (System.step fun _ => true) (System.Careful fun _ => true) s s := .start
  obtain ⟨d, reached, shape⟩ := exists_of_runIf (BlockDevice.step (fun _ => true) 0x300 100 0)
    (fun d m =>
      match m with
      | .other m => d.system.careful m
      | .advance => d.system.careful (.advance 0) &&
          match d.stage with
          | .fetching call => !decide call.Whole
          | _ => true
      | _ => true)
    (.start 0x300 s)
    (.blockWrite 0 1 (fun _ => 7) :: List.replicate 24 .advance ++ [.other (.complete 3)] ++
      List.replicate 4 .advance ++ .blockRead 0 1 :: List.replicate 26 .advance)
    (fun d => d.output = [⟨0, 7, 7⟩]) (by decide +kernel)
  have careful : Run (BlockDevice.step (fun _ => true) 0x300 100 0)
      (BlockDevice.Careful (fun _ => true) 0) (.start 0x300 s) d := by
    refine reached.imp_of_invariant (P := fun d => d.Tracks 0x300 2 ∧ d.Fetching 0x300 0)
      (fun ⟨tracks, fetching⟩ careful moved =>
        BlockDevice.step_agrees (by decide) tracks fetching careful moved)
      (BlockDevice.start_agrees (by decide) before) ?_
    intro d m ⟨tracks, _⟩ allowed
    cases m with
    | other m => exact tracks.invariant.careful allowed
    | blockWrite pos count buf | blockRead pos count => trivial
    | advance =>
      simp only [Bool.and_eq_true] at allowed
      refine ⟨tracks.invariant.careful allowed.1, ?_⟩
      intro call b b' bh wasRead held stage _ whole
      have partly := allowed.2
      rw [stage] at partly
      simp [whole] at partly
  exact ⟨d, shape, blockRead_delivers_written (by decide : 0 < 2) (by decide) before careful⟩

/-- A block is written as a whole while it is not cached, and read back: the
byte read is the old one. -/
theorem wholeWrite_not_delivered :
    ∃ d, run (BlockDevice.step (fun _ => true) 0x300 100 0)
        (.start 0x300 (.init (.init 2 (fun _ => 0) (fun _ => .zero) fun _ _ => .zero)))
        (.blockWrite 0 1024 (fun _ => 1) :: List.replicate 7 .advance ++ .blockRead 0 1 ::
          List.replicate 24 .advance ++ [.other (.complete 3)] ++ List.replicate 4 .advance) = some d ∧
      d.output = [⟨0, 0, 1⟩] := by
  apply exists_of_run
  decide +kernel

end Linux012.Fs

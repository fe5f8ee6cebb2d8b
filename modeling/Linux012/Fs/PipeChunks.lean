import Linux012.Fs.Pipe
import Mathlib.Algebra.BigOperators.Group.List.Basic
import Mathlib.Algebra.Ring.Int.Defs

/-! `read_pipe` and `write_pipe` with their locals, as `sys_read` and `sys_write` call
them: what every pass of the outer loop copies, and what the calls return. -/

set_option autoImplicit false

namespace Linux012.Fs.PipeChunks

open Pipe (PAGE_SIZE)
open Transition Function

def EINVAL : Int := 22
def ERESTARTSYS : Int := 512
def SIGPIPE : Nat := 13

structure Chunk where
  offset : Int
  chars : Int
deriving DecidableEq

/-- The locals of a call. It was made with the count `asked`, has claimed the `chunks`
and has moved the `bytes`, so that `buf` is their number above its first value. -/
structure Call where
  asked : Int
  count : Int
  /-- `read` and `written` -/
  moved : Int
  chunks : List Chunk
  bytes : List UInt8
deriving DecidableEq

structure Return extends Call where
  result : Int
deriving DecidableEq

inductive Activity where
  | idle
  /-- at the top of the loops of `read_pipe`, where it sleeps too -/
  | reading (call : Call)
  | writing (call : Call)
  /-- in `put_fs_byte`, with the byte at `size` in a register -/
  | delivering (call : Call) (size chars : Int) (byte : UInt8)
  /-- in `get_fs_byte`, for the byte at `size` -/
  | fetching (call : Call) (size chars : Int)
deriving DecidableEq

structure State (ρ : Type) where
  head : BitVec 16
  tail : BitVec 16
  iCount : BitVec 16
  page : Int → UInt8
  signal : ρ → BitVec 32
  blocked : ρ → BitVec 32
  proc : ρ → Activity
  returned : List Return

inductive Move (ρ : Type) where
  | sysRead (p : ρ) (count : Int)
  | sysWrite (p : ρ) (count : Int)
  /-- the loops, up to the next sleep, the first byte or the end of the call -/
  | turn (p : ρ)
  | putFsByte (p : ρ)
  | getFsByte (p : ρ) (byte : UInt8)
  | exit (p : ρ)
  | others (iCount : BitVec 16) (signal blocked : ρ → BitVec 32)

namespace Call

def start (count : Int) : Call where
  asked := count
  count := count
  moved := 0
  chunks := []
  bytes := []

def claim (call : Call) (offset chars : Int) : Call :=
  { call with
    count := call.count - chars
    moved := call.moved + chars
    chunks := call.chunks ++ [⟨offset, chars⟩] }

def move (call : Call) (byte : UInt8) : Call := { call with bytes := call.bytes ++ [byte] }

end Call

/-- `chars`, after the three comparisons -/
def chars (room count size : Int) : Int :=
  let chars := room
  let chars := if chars > count then count else chars
  if chars > size then size else chars

namespace State

variable {ρ : Type} [DecidableEq ρ]

def pipeSize (s : State ρ) : Int :=
  ((s.head.setWidth 32 - s.tail.setWidth 32) &&& BitVec.ofNat 32 (PAGE_SIZE - 1)).toNat

def setProc (s : State ρ) (p : ρ) (activity : Activity) : State ρ :=
  { s with proc := update s.proc p activity }

def finish (s : State ρ) (p : ρ) (call : Call) (result : Int) : State ρ :=
  { s with
    proc := update s.proc p .idle
    returned := s.returned ++ [{ call with result }] }

def deliver (s : State ρ) (call : Call) (size chars : Int) : Activity :=
  if chars > 0 then .delivering call size chars (s.page size) else .reading call

def fetch (call : Call) (size chars : Int) : Activity :=
  if chars > 0 then .fetching call size chars else .writing call

def advance (index : BitVec 16) (chars : Int) : BitVec 16 :=
  (index + BitVec.ofInt 16 chars) &&& BitVec.ofNat 16 (PAGE_SIZE - 1)

def claimRead (s : State ρ) (p : ρ) (call : Call) : State ρ :=
  let chars := chars (PAGE_SIZE - s.tail.toNat) call.count s.pipeSize
  { s with
    tail := advance s.tail chars
    proc := update s.proc p (s.deliver (call.claim s.tail.toNat chars) s.tail.toNat chars) }

def claimWrite (s : State ρ) (p : ρ) (call : Call) : State ρ :=
  let chars := chars (PAGE_SIZE - s.head.toNat) call.count ((PAGE_SIZE - 1) - s.pipeSize)
  { s with
    head := advance s.head chars
    proc := update s.proc p (fetch (call.claim s.head.toNat chars) s.head.toNat chars) }

def readTurn (s : State ρ) (p : ρ) (call : Call) : State ρ :=
  if call.count > 0 then
    if s.pipeSize = 0 then
      if s.iCount ≠ 2 then s.finish p call call.moved
      else if s.signal p &&& ~~~s.blocked p ≠ 0 then
        s.finish p call (if call.moved ≠ 0 then call.moved else -ERESTARTSYS)
      else s
    else s.claimRead p call
  else s.finish p call call.moved

def writeTurn (s : State ρ) (p : ρ) (call : Call) : State ρ :=
  if call.count > 0 then
    if (PAGE_SIZE - 1) - s.pipeSize = 0 then
      if s.iCount ≠ 2 then
        State.finish { s with signal := update s.signal p (s.signal p ||| 1#32 <<< (SIGPIPE - 1)) } p call
          (if call.moved ≠ 0 then call.moved else -1)
      else s
    else s.claimWrite p call
  else s.finish p call call.moved

/-- What `sys_read` and `sys_write` do with a count before they call the pipe. -/
def sysCall (s : State ρ) (p : ρ) (count : Int) (call : Call → Activity) : State ρ :=
  if count < 0 then s.finish p (.start count) (-EINVAL)
  else if count = 0 then s.finish p (.start count) 0
  else s.setProc p (call (.start count))

def step (s : State ρ) : Move ρ → Option (State ρ)
  | .sysRead p count => if s.proc p = .idle then some (s.sysCall p count .reading) else none
  | .sysWrite p count => if s.proc p = .idle then some (s.sysCall p count .writing) else none
  | .turn p =>
    match s.proc p with
    | .reading call => some (s.readTurn p call)
    | .writing call => some (s.writeTurn p call)
    | _ => none
  | .putFsByte p =>
    match s.proc p with
    | .delivering call size chars byte => some (s.setProc p (s.deliver (call.move byte) (size + 1) (chars - 1)))
    | _ => none
  | .getFsByte p byte =>
    match s.proc p with
    | .fetching call size chars =>
      some
        { s with
          page := update s.page size byte
          proc := update s.proc p (fetch (call.move byte) (size + 1) (chars - 1)) }
    | _ => none
  | .exit p => some (s.setProc p .idle)
  | .others iCount signal blocked => some { s with iCount, signal, blocked }

/-- What `get_pipe_inode` makes. -/
def init (page : Int → UInt8) : State ρ where
  head := 0
  tail := 0
  iCount := 2
  page := page
  signal := fun _ => 0
  blocked := fun _ => 0
  proc := fun _ => .idle
  returned := []

end State

def Chunk.InPage (chunk : Chunk) : Prop := 0 ≤ chunk.offset ∧ 0 < chunk.chars ∧ chunk.offset + chunk.chars ≤ PAGE_SIZE

/-- The chunks of a call are parts of the page, and their sizes are what it has counted. -/
structure Call.Sound (call : Call) (left : Int) : Prop where
  inPage : ∀ chunk ∈ call.chunks, chunk.InPage
  counted : call.moved = (call.chunks.map Chunk.chars).sum
  copied : call.bytes.length + left = call.moved
  rest : call.moved + call.count = call.asked
  nonnegative : 0 ≤ call.count

def Activity.Sound : Activity → Prop
  | .idle => True
  | .reading call | .writing call => call.Sound 0
  | .delivering call size chars _ | .fetching call size chars => call.Sound chars ∧ Chunk.InPage ⟨size, chars⟩

structure Return.Sound (ret : Return) : Prop where
  inPage : ∀ chunk ∈ ret.chunks, chunk.InPage
  result : 0 ≤ ret.result → ret.result = (ret.chunks.map Chunk.chars).sum ∧ ret.result = ret.bytes.length ∧
    ret.result ≤ ret.asked

structure State.InPage {ρ : Type} (s : State ρ) : Prop where
  head : s.head.toNat < PAGE_SIZE
  tail : s.tail.toNat < PAGE_SIZE
  proc : ∀ p, (s.proc p).Sound
  returned : ∀ ret ∈ s.returned, ret.Sound

/-! ## One pass -/

theorem chars_bounds {room count size : Int} (someRoom : 0 < room) (someCount : 0 < count) (someSize : 0 < size) :
    0 < chars room count size ∧ chars room count size ≤ room ∧ chars room count size ≤ count := by
  simp only [chars]
  split <;> split <;> omega

theorem Call.Sound.claim {call : Call} (sound : call.Sound 0) {offset n : Int} (inPage : Chunk.InPage ⟨offset, n⟩)
    (fits : n ≤ call.count) : (call.claim offset n).Sound n where
  inPage := by
    intro chunk member
    rcases List.mem_append.mp member with earlier | last
    · exact sound.inPage chunk earlier
    · rwa [List.mem_singleton.mp last]
  counted := by
    have counted := sound.counted
    simp only [Call.claim, List.map_append, List.map_cons, List.map_nil, List.sum_append, List.sum_singleton]
    omega
  copied := by
    have copied := sound.copied
    simp only [Call.claim]
    omega
  rest := by
    have rest := sound.rest
    simp only [Call.claim]
    omega
  nonnegative := by
    simp only [Call.claim]
    omega

theorem Call.Sound.move {call : Call} {left : Int} (sound : call.Sound left) (byte : UInt8) :
    (call.move byte).Sound (left - 1) where
  inPage := sound.inPage
  counted := sound.counted
  copied := by
    have copied := sound.copied
    simp only [Call.move, List.length_append, List.length_singleton]
    omega
  rest := sound.rest
  nonnegative := sound.nonnegative

theorem Chunk.InPage.next {size chars : Int} (inPage : Chunk.InPage ⟨size, chars⟩) (more : chars - 1 > 0) :
    Chunk.InPage ⟨size + 1, chars - 1⟩ := by
  simp only [Chunk.InPage] at inPage ⊢
  omega

theorem Call.Sound.returns {call : Call} (sound : call.Sound 0) {result : Int}
    (is : 0 ≤ result → result = call.moved) : Return.Sound { call with result } where
  inPage := sound.inPage
  result := by
    intro nonnegative
    have counted := sound.counted
    have copied := sound.copied
    have rest := sound.rest
    have left := sound.nonnegative
    have same := is nonnegative
    dsimp only
    omega

theorem Call.sound_start {count : Int} (nonnegative : 0 ≤ count) : (Call.start count).Sound 0 where
  inPage := nofun
  counted := rfl
  copied := rfl
  rest := Int.zero_add count
  nonnegative := nonnegative

namespace State

variable {ρ : Type} {s : State ρ}

theorem pipeSize_bounds (s : State ρ) : 0 ≤ s.pipeSize ∧ s.pipeSize < PAGE_SIZE := by
  have small := Nat.mod_lt (s.head.setWidth 32 - s.tail.setWidth 32).toNat (by decide : 0 < 2 ^ 12)
  rw [← Nat.and_two_pow_sub_one_eq_mod] at small
  refine ⟨Int.natCast_nonneg _, Int.ofNat_lt.mpr ?_⟩
  rw [BitVec.toNat_and]
  exact small

theorem advance_lt (index : BitVec 16) (chars : Int) : (advance index chars).toNat < PAGE_SIZE := by
  have small := Nat.mod_lt (index + BitVec.ofInt 16 chars).toNat (by decide : 0 < 2 ^ 12)
  rw [← Nat.and_two_pow_sub_one_eq_mod] at small
  rw [advance, BitVec.toNat_and]
  exact small

variable {call : Call}

theorem ite_sound {busy rest : Activity} {size chars : Int}
    (isBusy : busy.Sound = (call.Sound chars ∧ Chunk.InPage ⟨size, chars⟩)) (isRest : rest.Sound = call.Sound 0)
    (sound : call.Sound chars) (whole : 0 ≤ chars) (inPage : chars > 0 → Chunk.InPage ⟨size, chars⟩) :
    (if chars > 0 then busy else rest).Sound := by
  by_cases more : chars > 0
  · rw [if_pos more, isBusy]
    exact ⟨sound, inPage more⟩
  · have done : chars = 0 := by omega
    rw [done] at sound
    rwa [if_neg more, isRest]

theorem claim_sound {index : BitVec 16} {most : Int} (sound : call.Sound 0) (inside : index.toNat < PAGE_SIZE)
    (someCount : call.count > 0) (some : 0 < most) {n : Int} (is : n = chars (PAGE_SIZE - index.toNat) call.count most) :
    (call.claim index.toNat n).Sound n ∧ 0 ≤ n ∧ Chunk.InPage ⟨index.toNat, n⟩ := by
  obtain ⟨positive, inRoom, fits⟩ := chars_bounds (by omega : 0 < (PAGE_SIZE : Int) - index.toNat) someCount some
  rw [← is] at positive inRoom fits
  have chunk : Chunk.InPage ⟨index.toNat, n⟩ := ⟨Int.natCast_nonneg _, positive, by dsimp only; omega⟩
  exact ⟨sound.claim chunk fits, positive.le, chunk⟩

theorem InPage.initial (page : Int → UInt8) : (init page : State ρ).InPage where
  head := (by decide : (0 : BitVec 16).toNat < PAGE_SIZE)
  tail := (by decide : (0 : BitVec 16).toNat < PAGE_SIZE)
  proc _ := trivial
  returned := nofun

variable [DecidableEq ρ]

variable {p : ρ}

theorem proc_update {activity : Activity} (sound : activity.Sound) (inPage : s.InPage) (q : ρ) :
    (update s.proc p activity q).Sound := by
  rw [update_apply]
  split
  · exact sound
  · exact inPage.proc q

theorem InPage.setProc (inPage : s.InPage) {activity : Activity} (sound : activity.Sound) :
    (s.setProc p activity).InPage :=
  { inPage with proc := proc_update sound inPage }

theorem InPage.finish (inPage : s.InPage) {result : Int} (sound : Return.Sound { call with result }) :
    (s.finish p call result).InPage :=
  { inPage with
    proc := proc_update trivial inPage
    returned := by
      intro ret member
      rcases List.mem_append.mp member with earlier | last
      · exact inPage.returned ret earlier
      · rwa [List.mem_singleton.mp last] }

/-! ## The calls -/

theorem InPage.sysCall (inPage : s.InPage) {count : Int} {activity : Call → Activity}
    (sound : ∀ call : Call, call.Sound 0 → (activity call).Sound) : (s.sysCall p count activity).InPage := by
  rw [State.sysCall]
  split
  · exact inPage.finish ⟨nofun, fun nonnegative => absurd nonnegative (by decide : ¬0 ≤ -EINVAL)⟩
  next enough =>
  have start := Call.sound_start (Int.not_lt.mp enough)
  split
  · exact inPage.finish (start.returns fun _ => rfl)
  · exact inPage.setProc (sound _ start)

theorem InPage.claimRead (inPage : s.InPage) (sound : call.Sound 0) (someCount : call.count > 0)
    (someBytes : s.pipeSize ≠ 0) : (s.claimRead p call).InPage := by
  have size := s.pipeSize_bounds
  obtain ⟨claimed, whole, chunk⟩ := claim_sound sound inPage.tail someCount (by omega : 0 < s.pipeSize) rfl
  exact { inPage with tail := advance_lt .., proc := proc_update (ite_sound rfl rfl claimed whole fun _ => chunk) inPage }

theorem InPage.claimWrite (inPage : s.InPage) (sound : call.Sound 0) (someCount : call.count > 0)
    (someRoom : (PAGE_SIZE - 1) - s.pipeSize ≠ 0) : (s.claimWrite p call).InPage := by
  have size := s.pipeSize_bounds
  obtain ⟨claimed, whole, chunk⟩ :=
    claim_sound sound inPage.head someCount (by omega : 0 < (PAGE_SIZE - 1) - s.pipeSize) rfl
  exact { inPage with head := advance_lt .., proc := proc_update (ite_sound rfl rfl claimed whole fun _ => chunk) inPage }

theorem InPage.readTurn (inPage : s.InPage) (sound : call.Sound 0) : (s.readTurn p call).InPage := by
  rw [State.readTurn]
  split
  next someCount =>
    split
    · split
      · exact inPage.finish (sound.returns fun _ => rfl)
      · split
        · refine inPage.finish (sound.returns fun nonnegative => ?_)
          split at nonnegative
          next some => rw [if_pos some]
          · exact absurd nonnegative (by decide)
        · exact inPage
    next someBytes => exact inPage.claimRead sound someCount someBytes
  · exact inPage.finish (sound.returns fun _ => rfl)

theorem InPage.writeTurn (inPage : s.InPage) (sound : call.Sound 0) : (s.writeTurn p call).InPage := by
  rw [State.writeTurn]
  split
  next someCount =>
    split
    · split
      · have posted : State.InPage { s with signal := update s.signal p (s.signal p ||| 1#32 <<< (SIGPIPE - 1)) } :=
          { inPage with }
        refine posted.finish (sound.returns fun nonnegative => ?_)
        split at nonnegative
        next some => rw [if_pos some]
        · exact absurd nonnegative (by decide)
      · exact inPage
    next someRoom => exact inPage.claimWrite sound someCount someRoom
  · exact inPage.finish (sound.returns fun _ => rfl)

theorem InPage.step {s' : State ρ} {m : Move ρ} (inPage : s.InPage) (moved : s.step m = some s') : s'.InPage := by
  cases m with
  | sysRead p count | sysWrite p count =>
    simp only [State.step, Option.ite_none_right_eq_some, Option.some.injEq] at moved
    obtain ⟨-, rfl⟩ := moved
    exact inPage.sysCall fun _ sound => sound
  | turn p =>
    have sound := inPage.proc p
    cases calls : s.proc p with
    | reading call | writing call =>
      simp only [State.step, calls, Option.some.injEq] at moved
      rw [calls] at sound
      subst moved
      first
        | exact inPage.readTurn sound
        | exact inPage.writeTurn sound
    | idle | delivering | fetching => simp only [State.step, calls, reduceCtorEq] at moved
  | putFsByte p =>
    have sound := inPage.proc p
    cases calls : s.proc p with
    | delivering call size chars byte =>
      simp only [State.step, calls, Option.some.injEq] at moved
      rw [calls] at sound
      subst moved
      exact inPage.setProc (ite_sound rfl rfl (sound.1.move byte) (Int.sub_nonneg_of_le sound.2.2.1) sound.2.next)
    | idle | reading | writing | fetching => simp only [State.step, calls, reduceCtorEq] at moved
  | getFsByte p byte =>
    have sound := inPage.proc p
    cases calls : s.proc p with
    | fetching call size chars =>
      simp only [State.step, calls, Option.some.injEq] at moved
      rw [calls] at sound
      subst moved
      have whole := Int.sub_nonneg_of_le sound.2.2.1
      exact { inPage with proc := proc_update (ite_sound rfl rfl (sound.1.move byte) whole sound.2.next) inPage }
    | idle | reading | writing | delivering => simp only [State.step, calls, reduceCtorEq] at moved
  | exit p =>
    cases moved
    exact inPage.setProc trivial
  | others iCount signal blocked =>
    cases moved
    exact { inPage with }

end State

/-- Every byte that is touched is in the page, every chunk has one, and a count that is returned is
the number of bytes in the chunks. -/
theorem inPage_of_reachable {ρ : Type} [DecidableEq ρ] {page : Int → UInt8} {s : State ρ}
    (reached : Reachable State.step (State.init page) s) : s.InPage :=
  reached.invariant (fun inPage _ moved => State.InPage.step inPage moved) (State.InPage.initial page)

theorem inPage_same_chunk :
    ∃ s : State Bool, s.returned.map Return.result = [2, 2] ∧ s.returned.map Return.toCall =
      [⟨2, 0, 2, [⟨0, 2⟩], [65, 0]⟩, ⟨2, 0, 2, [⟨0, 2⟩], [65, 66]⟩] ∧ s.InPage := by
  obtain ⟨s, ran, results, calls⟩ := exists_of_run State.step (State.init fun _ => 0)
    [.sysWrite true 2, .turn true, .sysRead false 2, .getFsByte true 65, .turn false, .putFsByte false,
      .putFsByte false, .getFsByte true 66, .turn false, .turn true]
    (fun s : State Bool => s.returned.map Return.result = [2, 2] ∧ s.returned.map Return.toCall =
      [⟨2, 0, 2, [⟨0, 2⟩], [65, 0]⟩, ⟨2, 0, 2, [⟨0, 2⟩], [65, 66]⟩]) (by decide +kernel)
  exact ⟨s, results, calls, inPage_of_reachable (reachable_of_run ran)⟩

end Linux012.Fs.PipeChunks

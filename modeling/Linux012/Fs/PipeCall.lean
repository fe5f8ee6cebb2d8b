import Linux012.Fs.Descriptors
import Linux012.Fs.InodeTable
import Linux012.Mm.FreePage

/-! `sys_pipe` of `fs/pipe.c`, with the `get_empty_inode` and the `get_pipe_inode` of
`fs/inode.c`, in a run that no other process gets into. -/

set_option autoImplicit false

namespace Linux012.Fs.PipeCall

open Function

open Descriptors (NR_OPEN NR_FILE)
open InodeTable (Slot NR_INODE)
open Mm.SwapScan (Memory Position)
open Mm.FreePage (getFreePage NoneTaken Taken)

abbrev Word := BitVec 32

structure File where
  mode : Word
  flags : Word
  count : Nat
  inode : Option Slot
  pos : Nat

/-- An inode in memory. `size` is the address of the page of a pipe, and `i_zone` has its `head`
and its `tail`. -/
structure Inode where
  dev : Nat
  num : Nat
  mode : Word
  size : Nat
  zone : Fin 9 → Nat
  count : Nat
  lock : Bool
  dirt : Bool
  pipe : Bool

def Inode.zero : Inode where
  dev := 0
  num := 0
  mode := 0
  size := 0
  zone := fun _ => 0
  count := 0
  lock := false
  dirt := false
  pipe := false

namespace Inode

theorem head_lt : 0 < 9 := by decide

theorem tail_lt : 1 < 9 := by decide

def head (inode : Inode) : Nat := inode.zone ⟨0, head_lt⟩

def tail (inode : Inode) : Nat := inode.zone ⟨1, tail_lt⟩

end Inode

/-- The tables, with the `filp` of the current process and the place of the swapper. -/
structure State where
  file : Fin NR_FILE → File
  filp : Fin NR_OPEN → Option (Fin NR_FILE)
  inode : Slot → Inode
  lastInode : Slot
  memory : Memory
  position : Position

inductive Halt where
  | running
  | panic

namespace State

def setCount (s : State) (f : Fin NR_FILE) (count : Nat) : State :=
  { s with file := update s.file f { s.file f with count := count } }

def increment (s : State) (f : Fin NR_FILE) : State := s.setCount f (((s.file f).count + 1) % 2 ^ 16)

def setFilp (s : State) (fd : Fin NR_OPEN) (f : Option (Fin NR_FILE)) : State :=
  { s with filp := update s.filp fd f }

def setInode (s : State) (i : Slot) (inode : Inode) : State :=
  { s with inode := update s.inode i inode }

/-- The loop of `get_empty_inode` over the table. -/
def pickLoop (inode : Slot → Inode) : Nat → Slot → Option Slot → Slot × Option Slot
  | 0, last, found => (last, found)
  | n + 1, last, found =>
    let last := Slot.next last
    if (inode last).count = 0 then
      if (inode last).dirt = false ∧ (inode last).lock = false then (last, some last)
      else pickLoop inode n last (some last)
    else pickLoop inode n last found

/-- "No free inodes in mem" is a panic. Whoever has locked the inode unlocks it, `write_inode` clears
`i_dirt`, and nobody else takes it in the meantime. -/
def getEmptyInode (s : State) : Except Halt (Slot × State) :=
  match pickLoop s.inode NR_INODE s.lastInode none with
  | (_, none) => .error .panic
  | (last, some i) => .ok (i, { s with lastInode := last }.setInode i { Inode.zero with count := 1 })

def getPipeInode (s : State) (fuel : Nat) : Except Halt (Option Slot × State) :=
  match s.getEmptyInode with
  | .error halt => .error halt
  | .ok (i, s) =>
    match getFreePage s.memory s.position fuel with
    | .running => .error .running
    | .panic => .error .panic
    | .none memory position =>
      .ok (none, { s with memory, position }.setInode i { s.inode i with size := 0, count := 0 })
    | .page page memory position =>
      .ok (some i, { s with memory, position }.setInode i
        { s.inode i with
          size := page
          count := 2
          zone := fun k => if k.val < 2 then 0 else (s.inode i).zone k
          pipe := true })

end State

/-- The loops for two free places, `j` of which are still to be found. -/
def freePlaces {α : Type} (free : α → Bool) : (j : Nat) → List α → List α
  | 0, _ => []
  | _ + 1, [] => []
  | j + 1, i :: rest => if free i then i :: freePlaces free j rest else freePlaces free (j + 1) rest

inductive Outcome where
  /-- `return -1` -/
  | failed (s : State)
  /-- `return 0`, with the two numbers that the user gets -/
  | made (read write : Fin NR_OPEN) (s : State)

namespace State

/-- The end of `sys_pipe`. -/
def openEnds (s : State) (f₀ f₁ : Fin NR_FILE) (i : Slot) : State :=
  { s with
    file := fun f =>
      if f = f₀ then { s.file f with inode := some i, pos := 0, mode := 1 }
      else if f = f₁ then { s.file f with inode := some i, pos := 0, mode := 2 }
      else s.file f }

/-- `sys_pipe` when it has two files and two descriptors. -/
def pipeInode (s : State) (f₀ f₁ : Fin NR_FILE) (fd₀ fd₁ : Fin NR_OPEN) (fuel : Nat) : Except Halt Outcome :=
  match s.getPipeInode fuel with
  | .error halt => .error halt
  | .ok (none, s) => .ok (.failed ((((s.setFilp fd₁ none).setFilp fd₀ none).setCount f₁ 0).setCount f₀ 0))
  | .ok (some i, s) => .ok (.made fd₀ fd₁ (s.openEnds f₀ f₁ i))

/-- `sys_pipe` when it has two files. -/
def pipeFds (s : State) (f₀ f₁ : Fin NR_FILE) (fuel : Nat) : Except Halt Outcome :=
  match freePlaces (fun fd => s.filp fd = none) 2 (List.finRange NR_OPEN) with
  | [fd₀, fd₁] => ((s.setFilp fd₀ (some f₀)).setFilp fd₁ (some f₁)).pipeInode f₀ f₁ fd₀ fd₁ fuel
  | [fd₀] => .ok (.failed ((((s.setFilp fd₀ (some f₀)).setFilp fd₀ none).setCount f₁ 0).setCount f₀ 0))
  | _ => .ok (.failed ((s.setCount f₁ 0).setCount f₀ 0))

/-- The count of a file goes up where the loop finds it, which does not matter to the rest of the
loop. -/
def sysPipe (s : State) (fuel : Nat) : Except Halt Outcome :=
  match freePlaces (fun f => (s.file f).count = 0) 2 (List.finRange NR_FILE) with
  | [f₀, f₁] => ((s.increment f₀).increment f₁).pipeFds f₀ f₁ fuel
  | [f₀] => .ok (.failed ((s.increment f₀).setCount f₀ 0))
  | _ => .ok (.failed s)

end State

/-! ## What a call leaves -/

structure Unchanged (s s' : State) : Prop where
  counts : ∀ f, (s'.file f).count = (s.file f).count
  filp : s'.filp = s.filp
  inodes : ∀ i, (s'.inode i).count = (s.inode i).count
  memory : NoneTaken s.memory s'.memory

/-- Two files, two descriptors and an inode were free, and are the ends and the inode of a pipe
with a new page. -/
structure Added (s s' : State) (read write : Fin NR_OPEN) (f₀ f₁ : Fin NR_FILE) (i : Slot) (page : Nat) : Prop where
  files : f₀ ≠ f₁ ∧ (s.file f₀).count = 0 ∧ (s.file f₁).count = 0
  readFile : s'.file f₀ = { s.file f₀ with mode := 1, count := 1, inode := some i, pos := 0 }
  writeFile : s'.file f₁ = { s.file f₁ with mode := 2, count := 1, inode := some i, pos := 0 }
  otherFiles : ∀ f, f ≠ f₀ → f ≠ f₁ → s'.file f = s.file f
  descriptors : read < write ∧ s.filp read = none ∧ s.filp write = none
  filp : s'.filp = update (update s.filp read (some f₀)) write (some f₁)
  free : (s.inode i).count = 0
  inode : s'.inode i = { Inode.zero with size := page, count := 2, pipe := true }
  empty : (s'.inode i).head = (s'.inode i).tail
  otherInodes : ∀ j, j ≠ i → s'.inode j = s.inode j
  page : Taken s.memory s'.memory page

/-- The call returns if it makes no panic; an error changes nothing, and a success makes the
pipe. -/
structure AtomicPipe (s : State) : Prop where
  returns : ∃ n, ∀ fuel ≥ n, s.sysPipe fuel ≠ .error .running
  failure : ∀ fuel s', s.sysPipe fuel = .ok (.failed s') → Unchanged s s'
  success : ∀ fuel read write s', s.sysPipe fuel = .ok (.made read write s') →
    ∃ f₀ f₁ i page, Added s s' read write f₀ f₁ i page

/-! ## Free places -/

section FreePlaces

variable {n : Nat} {free : Fin n → Bool} {a b : Fin n}

theorem freePlaces_sublist (j : Nat) (places : List (Fin n)) : (freePlaces free j places).Sublist places := by
  fun_induction freePlaces free j places with
  | case1 => exact List.nil_sublist _
  | case2 => exact .slnil
  | case3 j i rest found ih => exact ih.cons_cons i
  | case4 j i rest taken ih => exact ih.cons i

theorem freePlaces_free {j : Nat} {places : List (Fin n)} (found : a ∈ freePlaces free j places) : free a = true := by
  fun_induction freePlaces free j places with
  | case1 | case2 => cases found
  | case3 j i rest isFree ih =>
    rcases List.mem_cons.1 found with rfl | later
    · exact isFree
    · exact ih later
  | case4 j i rest taken ih => exact ih found

theorem freePlaces_two (both : freePlaces free 2 (List.finRange n) = [a, b]) :
    free a = true ∧ free b = true ∧ a < b := by
  have ascending : (freePlaces free 2 (List.finRange n)).Pairwise (· < ·) :=
    List.Pairwise.sublist (freePlaces_sublist 2 _) (List.pairwise_lt_finRange n)
  refine ⟨freePlaces_free (both ▸ List.mem_cons_self),
    freePlaces_free (both ▸ List.mem_cons_of_mem _ List.mem_cons_self), ?_⟩
  rw [both] at ascending
  exact (List.pairwise_cons.1 ascending).1 b List.mem_cons_self

end FreePlaces

/-! ## The inode -/

section PipeInode

variable {s s' : State} {i : Slot} {fuel : Nat}

theorem pickLoop_free {inode : Slot → Inode} {n : Nat} {last last' : Slot} {found : Option Slot}
    (before : ∀ j, found = some j → (inode j).count = 0)
    (picked : State.pickLoop inode n last found = (last', some i)) : (inode i).count = 0 := by
  induction n generalizing last found with
  | zero => exact before i (congrArg Prod.snd picked)
  | succ n ih =>
    dsimp only [State.pickLoop] at picked
    split at picked
    case isTrue unused =>
      split at picked
      case isTrue =>
        obtain rfl := Option.some.inj (congrArg Prod.snd picked)
        exact unused
      case isFalse =>
        refine ih (fun j same => ?_) picked
        obtain rfl := Option.some.inj same
        exact unused
    case isFalse => exact ih before picked

theorem getEmptyInode_spec (got : s.getEmptyInode = .ok (i, s')) :
    (s.inode i).count = 0 ∧ ∃ last, s' = { s with lastInode := last }.setInode i { Inode.zero with count := 1 } := by
  rw [State.getEmptyInode] at got
  split at got
  case h_1 => cases got
  case h_2 last j picked =>
    obtain ⟨rfl, rfl⟩ := Prod.mk.inj (Except.ok.inj got)
    exact ⟨pickLoop_free (fun k absurd_ => by cases absurd_) picked, last, rfl⟩

/-- A call of `get_pipe_inode` leaves the files and the descriptors alone. -/
structure PipeInode (s s' : State) (i : Slot) (inode : Inode) : Prop where
  file : s'.file = s.file
  filp : s'.filp = s.filp
  free : (s.inode i).count = 0
  inode : s'.inode = update s.inode i inode

theorem getPipeInode_none (failed : s.getPipeInode fuel = .ok (none, s')) :
    (∃ i, PipeInode s s' i Inode.zero) ∧ NoneTaken s.memory s'.memory := by
  rw [State.getPipeInode] at failed
  split at failed
  case h_1 => cases failed
  case h_2 i s₁ got =>
    obtain ⟨free, last, rfl⟩ := getEmptyInode_spec got
    split at failed
    case h_1 => cases failed
    case h_2 => cases failed
    case h_3 memory position noPage =>
      obtain ⟨-, rfl⟩ := Prod.mk.inj (Except.ok.inj failed)
      refine ⟨⟨i, rfl, rfl, free, ?_⟩, Mm.FreePage.getFreePage_none noPage⟩
      simp only [State.setInode, update_self, update_idem]
      rfl
    case h_4 => cases failed

theorem getPipeInode_some (got : s.getPipeInode fuel = .ok (some i, s')) :
    ∃ page, PipeInode s s' i { Inode.zero with size := page, count := 2, pipe := true } ∧
      Taken s.memory s'.memory page := by
  rw [State.getPipeInode] at got
  split at got
  case h_1 => cases got
  case h_2 j s₁ empty =>
    obtain ⟨free, last, rfl⟩ := getEmptyInode_spec empty
    split at got
    case h_1 => cases got
    case h_2 => cases got
    case h_3 => cases got
    case h_4 page memory position gotPage =>
      obtain ⟨same, rfl⟩ := Prod.mk.inj (Except.ok.inj got)
      obtain rfl := Option.some.inj same
      refine ⟨page, ⟨rfl, rfl, free, ?_⟩, Mm.FreePage.getFreePage_page gotPage⟩
      have zone : (fun k : Fin 9 => if k.val < 2 then 0 else Inode.zero.zone k) = Inode.zero.zone := by
        funext k
        exact ite_self 0
      simp only [State.setInode, update_self, update_idem]
      rw [zone]

theorem getPipeInode_ends (enough : Mm.FreePage.work s.memory < fuel) : s.getPipeInode fuel ≠ .error .running := by
  rw [State.getPipeInode]
  split
  case h_1 halt empty =>
    rw [State.getEmptyInode] at empty
    split at empty
    · obtain rfl := Except.error.inj empty
      simp
    · cases empty
  case h_2 i s₁ empty =>
    obtain ⟨-, last, rfl⟩ := getEmptyInode_spec empty
    split
    case h_1 running => exact absurd running (Mm.FreePage.getFreePage_ends enough)
    case h_2 => simp
    case h_3 => simp
    case h_4 => simp

end PipeInode

/-! ## The call -/

section Call

variable {s s' : State}

theorem setCount_count (s : State) (f g : Fin NR_FILE) (count : Nat) :
    ((s.setCount f count).file g).count = if g = f then count else (s.file g).count := by
  by_cases same : g = f
  · simp only [State.setCount, same, update_self, if_true]
  · simp only [State.setCount, update_of_ne same, if_neg same]

theorem increment_free {f : Fin NR_FILE} (free : (s.file f).count = 0) : s.increment f = s.setCount f 1 := by
  rw [State.increment, free, Nat.zero_add, Nat.mod_eq_of_lt (Nat.one_lt_two_pow (by omega))]

theorem counts_restored {f₀ f₁ : Fin NR_FILE} (free₀ : (s.file f₀).count = 0) (free₁ : (s.file f₁).count = 0)
    (same : s'.file = ((s.setCount f₀ 1).setCount f₁ 1).file) (f : Fin NR_FILE) :
    (((s'.setCount f₁ 0).setCount f₀ 0).file f).count = (s.file f).count := by
  rw [setCount_count, setCount_count, same, setCount_count, setCount_count]
  split
  case isTrue first => rw [first, free₀]
  case isFalse =>
    split
    case isTrue second => rw [second, free₁]
    case isFalse => rfl

theorem filp_restored {fd₀ fd₁ : Fin NR_OPEN} {f₀ f₁ : Option (Fin NR_FILE)} (free₀ : s.filp fd₀ = none)
    (free₁ : s.filp fd₁ = none) (same : s'.filp = ((s.setFilp fd₀ f₀).setFilp fd₁ f₁).filp) :
    ((s'.setFilp fd₁ none).setFilp fd₀ none).filp = s.filp := by
  funext fd
  simp only [State.setFilp, update_apply, same]
  split_ifs <;> simp_all

def reserved (s : State) (f₀ f₁ : Fin NR_FILE) (fd₀ fd₁ : Fin NR_OPEN) : State :=
  (((s.setCount f₀ 1).setCount f₁ 1).setFilp fd₀ (some f₀)).setFilp fd₁ (some f₁)

variable {f₀ f₁ : Fin NR_FILE} {fd₀ fd₁ : Fin NR_OPEN} {fuel : Nat}

theorem pipeInode_failed (files : (s.file f₀).count = 0 ∧ (s.file f₁).count = 0)
    (descriptors : s.filp fd₀ = none ∧ s.filp fd₁ = none)
    (failed : (reserved s f₀ f₁ fd₀ fd₁).pipeInode f₀ f₁ fd₀ fd₁ fuel = .ok (.failed s')) : Unchanged s s' := by
  rw [State.pipeInode] at failed
  split at failed
  case h_1 => cases failed
  case h_2 s₁ none_ =>
    obtain rfl := Outcome.failed.inj (Except.ok.inj failed)
    obtain ⟨⟨i, pipe⟩, memory⟩ := getPipeInode_none none_
    refine ⟨fun f => ?_, ?_, fun j => ?_, memory⟩
    · have same : ((s₁.setFilp fd₁ none).setFilp fd₀ none).file = ((s.setCount f₀ 1).setCount f₁ 1).file := pipe.file
      exact counts_restored files.1 files.2 same f
    · exact filp_restored descriptors.1 descriptors.2 pipe.filp
    · change (s₁.inode j).count = (s.inode j).count
      rw [pipe.inode, update_apply]
      split
      case isTrue same =>
        rw [same]
        exact pipe.free.symm
      case isFalse => rfl
  case h_3 => cases failed

theorem pipeInode_made (differ : f₀ ≠ f₁) (files : (s.file f₀).count = 0 ∧ (s.file f₁).count = 0)
    (descriptors : fd₀ < fd₁ ∧ s.filp fd₀ = none ∧ s.filp fd₁ = none) {read write : Fin NR_OPEN}
    (made : (reserved s f₀ f₁ fd₀ fd₁).pipeInode f₀ f₁ fd₀ fd₁ fuel = .ok (.made read write s')) :
    ∃ i page, Added s s' read write f₀ f₁ i page := by
  rw [State.pipeInode] at made
  split at made
  case h_1 => cases made
  case h_2 => cases made
  case h_3 i s₁ got =>
    obtain ⟨rfl, rfl, rfl⟩ := Outcome.made.inj (Except.ok.inj made)
    obtain ⟨page, pipe, taken⟩ := getPipeInode_some got
    have file (f : Fin NR_FILE) : s₁.file f = (((s.setCount f₀ 1).setCount f₁ 1).file f) := congrFun pipe.file f
    have inode : (s₁.openEnds f₀ f₁ i).inode i = { Inode.zero with size := page, count := 2, pipe := true } := by
      change s₁.inode i = _
      rw [pipe.inode, update_self]
    refine ⟨i, page, ⟨differ, files⟩, ?_, ?_, fun f other₀ other₁ => ?_, descriptors, pipe.filp, pipe.free, inode, ?_,
      fun j other => ?_, taken⟩
    · simp only [State.openEnds, if_true, file, State.setCount, update_self, update_of_ne differ]
    · simp only [State.openEnds, if_true, if_neg differ.symm, file, State.setCount, update_self,
        update_of_ne differ.symm]
    · simp only [State.openEnds, if_neg other₀, if_neg other₁, file, State.setCount, update_of_ne other₀,
        update_of_ne other₁]
    · rw [inode]
      rfl
    · change s₁.inode j = _
      rw [pipe.inode, update_of_ne other]
      rfl

theorem pipeInode_ends (enough : Mm.FreePage.work s.memory < fuel) :
    s.pipeInode f₀ f₁ fd₀ fd₁ fuel ≠ .error .running := by
  rw [State.pipeInode]
  split
  case h_1 halt stopped =>
    intro running
    obtain rfl := Except.error.inj running
    exact getPipeInode_ends enough stopped
  case h_2 => simp
  case h_3 => simp

end Call

theorem sysPipe_cases (s : State) (fuel : Nat) :
    (∃ f₀ f₁, f₀ ≠ f₁ ∧ ((s.file f₀).count = 0 ∧ (s.file f₁).count = 0) ∧
        s.sysPipe fuel = ((s.setCount f₀ 1).setCount f₁ 1).pipeFds f₀ f₁ fuel) ∨
      (∃ s', Unchanged s s' ∧ s.sysPipe fuel = .ok (.failed s')) := by
  rw [State.sysPipe]
  split
  case h_1 f₀ f₁ found =>
    obtain ⟨free₀, free₁, less⟩ := freePlaces_two found
    rw [decide_eq_true_eq] at free₀ free₁
    have later : ((s.setCount f₀ 1).file f₁).count = 0 := by
      rw [setCount_count, if_neg less.ne', free₁]
    rw [increment_free free₀, increment_free later]
    exact .inl ⟨f₀, f₁, less.ne, ⟨free₀, free₁⟩, rfl⟩
  case h_2 f₀ found =>
    have free := freePlaces_free (a := f₀) (found ▸ List.mem_cons_self)
    rw [decide_eq_true_eq] at free
    refine .inr ⟨_, ?_, rfl⟩
    refine ⟨fun f => ?_, rfl, fun _ => rfl, .refl _⟩
    rw [increment_free free, setCount_count, setCount_count]
    split
    case isTrue same => rw [same, free]
    case isFalse => rfl
  case h_3 => exact .inr ⟨s, ⟨fun _ => rfl, rfl, fun _ => rfl, .refl _⟩, rfl⟩

theorem pipeFds_cases {s : State} {f₀ f₁ : Fin NR_FILE} (files : (s.file f₀).count = 0 ∧ (s.file f₁).count = 0)
    (fuel : Nat) :
    (∃ fd₀ fd₁, (fd₀ < fd₁ ∧ s.filp fd₀ = none ∧ s.filp fd₁ = none) ∧
        ((s.setCount f₀ 1).setCount f₁ 1).pipeFds f₀ f₁ fuel =
          (reserved s f₀ f₁ fd₀ fd₁).pipeInode f₀ f₁ fd₀ fd₁ fuel) ∨
      (∃ s', Unchanged s s' ∧ ((s.setCount f₀ 1).setCount f₁ 1).pipeFds f₀ f₁ fuel = .ok (.failed s')) := by
  rw [State.pipeFds]
  split
  case h_1 fd₀ fd₁ found =>
    obtain ⟨free₀, free₁, less⟩ := freePlaces_two found
    rw [decide_eq_true_eq] at free₀ free₁
    exact .inl ⟨fd₀, fd₁, ⟨less, free₀, free₁⟩, rfl⟩
  case h_2 fd₀ found =>
    have free := freePlaces_free (a := fd₀) (found ▸ List.mem_cons_self)
    rw [decide_eq_true_eq] at free
    refine .inr ⟨_, ?_, rfl⟩
    refine ⟨fun f => ?_, ?_, fun _ => rfl, .refl _⟩
    · exact counts_restored files.1 files.2 rfl f
    · funext fd
      simp only [State.setCount, State.setFilp, update_apply]
      split
      case isTrue same => rw [same]; exact free.symm
      case isFalse => rfl
  case h_3 =>
    refine .inr ⟨_, ?_, rfl⟩
    refine ⟨fun f => ?_, rfl, fun _ => rfl, .refl _⟩
    exact counts_restored files.1 files.2 rfl f

end Linux012.Fs.PipeCall

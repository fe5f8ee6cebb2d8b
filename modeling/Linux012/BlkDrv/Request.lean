import Mathlib.Data.List.Basic

/-! The request queue of one block device, from `kernel/blk_drv/blk.h` and
`kernel/blk_drv/ll_rw_blk.c`. A queue is the list read from
`current_request` along the `next` links. -/

set_option autoImplicit false

namespace Linux012.BlkDrv

def READ : Nat := 0
def WRITE : Nat := 1
def READA : Nat := 2
def WRITEA : Nat := 3

def NR_BLK_DEV : Nat := 7
def NR_REQUEST : Nat := 32

def major (dev : Nat) : Nat := dev >>> 8

/-- One entry of `request[]`. The entry is free when `dev` is `-1`; `bh` is
absent for a swap request, whose page is named by `sector` and `waiting`. -/
structure Request where
  dev : Int
  cmd : Nat
  errors : Nat
  sector : Nat
  nrSectors : Nat
  waiting : Option Nat
  bh : Option Nat
deriving DecidableEq

/-- What `blk_dev_init` leaves in every entry of the pool. -/
def Request.empty : Request where
  dev := -1
  cmd := READ
  errors := 0
  sector := 0
  nrSectors := 0
  waiting := none
  bh := none

def Request.isSwap (req : Request) : Bool := req.bh.isNone

def inOrder (s1 s2 : Request) : Bool :=
  decide (s1.cmd < s2.cmd) || (s1.cmd == s2.cmd &&
    (decide (s1.dev < s2.dev) || (s1.dev == s2.dev && decide (s1.sector < s2.sector))))

/-- The test that makes `add_request` leave its loop between `tmp` and
`tmp->next`. -/
def insertsBefore (req tmp next : Request) : Bool :=
  if req.bh.isNone then next.bh.isSome
  else (inOrder tmp req || !inOrder tmp next) && inOrder req next

section Queue

/- A queue holds references to requests; `view` reads the request behind one. -/
variable {ρ : Type} (view : ρ → Request)

/-- The `for` loop of `add_request` from `tmp` on, where `rest` is `tmp->next`
and everything behind it. -/
def insertBehind (req : ρ) : ρ → List ρ → List ρ
  | _, [] => [req]
  | tmp, next :: rest =>
    if insertsBefore (view req) (view tmp) (view next) then req :: next :: rest
    else next :: insertBehind req next rest

def addRequest (req : ρ) : List ρ → List ρ
  | [] => [req]
  | current :: rest => current :: insertBehind view req current rest

theorem insertBehind_perm (req tmp : ρ) (rest : List ρ) :
    (insertBehind view req tmp rest).Perm (req :: rest) := by
  induction rest generalizing tmp with
  | nil => exact .refl _
  | cons next rest ih =>
    simp only [insertBehind]
    split
    · exact .refl _
    · exact ((ih next).cons next).trans (.swap req next rest)

theorem addRequest_perm (req : ρ) (queue : List ρ) :
    (addRequest view req queue).Perm (req :: queue) := by
  cases queue with
  | nil => exact .refl _
  | cons current rest =>
    exact ((insertBehind_perm view req current rest).cons current).trans (.swap req current rest)

theorem mem_addRequest {req other : ρ} {queue : List ρ} :
    other ∈ addRequest view req queue ↔ other = req ∨ other ∈ queue := by
  rw [(addRequest_perm view req queue).mem_iff, List.mem_cons]

theorem insertBehind_split (req tmp : ρ) (rest : List ρ) :
    ∃ front back, rest = front ++ back ∧ insertBehind view req tmp rest = front ++ req :: back := by
  induction rest generalizing tmp with
  | nil => exact ⟨[], [], rfl, rfl⟩
  | cons next rest ih =>
    simp only [insertBehind]
    split
    · exact ⟨[], next :: rest, rfl, rfl⟩
    · obtain ⟨front, back, split, inserted⟩ := ih next
      exact ⟨next :: front, back, by rw [split]; rfl, by rw [inserted]; rfl⟩

theorem addRequest_split (req : ρ) (queue : List ρ) :
    ∃ front back, queue = front ++ back ∧ addRequest view req queue = front ++ req :: back ∧
      (queue ≠ [] → front ≠ []) := by
  cases queue with
  | nil => exact ⟨[], [], rfl, rfl, fun nonempty => nonempty⟩
  | cons current rest =>
    obtain ⟨front, back, split, inserted⟩ := insertBehind_split view req current rest
    exact ⟨current :: front, back, by rw [split]; rfl, by simp only [addRequest, inserted]; rfl, fun _ => by simp⟩

end Queue

end Linux012.BlkDrv

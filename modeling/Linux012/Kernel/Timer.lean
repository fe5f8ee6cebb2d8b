import Linux012.Lib.DeltaList
import Linux012.Lib.Links
import Linux012.Lib.Transition

/-! The timers of `kernel/sched.c`: `add_timer` and what `do_timer` does with them. A
timer function runs inside `do_timer` and may add timers itself, so the loop stops in
it and goes on when it returns. -/

set_option autoImplicit false

namespace Linux012.Kernel.Timer

open DeltaList Links Transition Function

def TIME_REQUESTS : Nat := 64

abbrev Slot := Fin TIME_REQUESTS

structure TimerList (φ : Type) where
  jiffies : Int
  fn : Option φ
  next : Option Slot
deriving DecidableEq

variable {φ : Type}

/-- The timer in `p` is due later than the one behind it, and they change places. -/
def swapWith (list : Slot → TimerList φ) (p next : Slot) : Slot → TimerList φ :=
  let jiffies := (list p).jiffies - (list next).jiffies
  let swapped := update list p
    { list p with jiffies := (list next).jiffies, fn := (list next).fn }
  update swapped next { swapped next with jiffies := jiffies, fn := (list p).fn }

/-- The loop of `add_timer`, with the new timer in `p`. There are no more than
`TIME_REQUESTS` entries behind it. -/
def sortIn : Nat → (Slot → TimerList φ) → Slot → Slot → TimerList φ
  | 0, list, _ => list
  | fuel + 1, list, p =>
    match (list p).next with
    | none => list
    | some next =>
      if (list next).jiffies < (list p).jiffies then sortIn fuel (swapWith list p next) next
      else list

/-- The table, the head of the list and whether a function of a timer is running. The
ticks are counted; `requested` holds the tick on which every function is due, and
`called` the one on which it was called. -/
structure State (φ : Type) where
  timerList : Slot → TimerList φ
  nextTimer : Option Slot
  running : Bool
  ticks : Int
  requested : List (Int × φ)
  called : List (Int × φ)

def State.init : State φ where
  timerList := fun _ => { jiffies := 0, fn := none, next := none }
  nextTimer := none
  running := false
  ticks := 0
  requested := []
  called := []

inductive Move (φ : Type) where
  | addTimer (jiffies : Int) (fn : Option φ)
  /-- a call of `do_timer`, up to the first function that it calls -/
  | doTimer
  | goOn

namespace State

def free (s : State φ) : Option Slot :=
  (List.finRange TIME_REQUESTS).find? fun p => (s.timerList p).fn.isNone

def addTimer (s : State φ) (jiffies : Int) (fn : φ) : Option (State φ) :=
  let s := { s with requested := s.requested ++ [(s.ticks + max jiffies 0, fn)] }
  if jiffies ≤ 0 then some { s with called := s.called ++ [(s.ticks, fn)] }
  else s.free.map fun p =>
    let list := update s.timerList p { jiffies := jiffies, fn := some fn, next := s.nextTimer }
    { s with timerList := sortIn TIME_REQUESTS list p, nextTimer := some p }

/-- The loop of `do_timer`, up to the next function that it calls. -/
def callDue (s : State φ) : State φ :=
  match s.nextTimer with
  | none => { s with running := false }
  | some p =>
    if (s.timerList p).jiffies ≤ 0 then
      { s with
        timerList := update s.timerList p { s.timerList p with fn := none }
        nextTimer := (s.timerList p).next
        running := true
        called := s.called ++ (s.timerList p).fn.toList.map fun fn => (s.ticks, fn) }
    else { s with running := false }

def doTimer (s : State φ) : State φ :=
  let s := { s with ticks := s.ticks + 1 }
  match s.nextTimer with
  | none => s
  | some p =>
    { s with
      timerList := update s.timerList p
        { s.timerList p with jiffies := (s.timerList p).jiffies - 1 } }.callDue

def step (s : State φ) : Move φ → Option (State φ)
  | .addTimer _ none => some s
  | .addTimer jiffies (some fn) => s.addTimer jiffies fn
  | .doTimer => if s.running then none else some s.doTimer
  | .goOn => if s.running then some s.callDue else none

/-- The functions are called on the ticks on which they are due: one after the other as
time goes on, none that was not asked for, and between two ticks all that were due. -/
structure OnTime (s : State φ) : Prop where
  ordered : s.called.Pairwise fun call call' => call.1 ≤ call'.1
  asked : s.called.Subperm s.requested
  due : s.running = false → s.called.Perm (s.requested.filter fun request => request.1 ≤ s.ticks)

def InTurn (s : State φ) : Move φ → Prop
  | .addTimer jiffies (some _) => 0 < jiffies → ∀ request ∈ s.requested, request.1 < s.ticks + jiffies
  | _ => True

end State

end Linux012.Kernel.Timer

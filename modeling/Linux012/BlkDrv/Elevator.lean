import Linux012.BlkDrv.RequestProperties
import Linux012.Lib.Ascents
import Linux012.Lib.Transition
import Mathlib.Data.Prod.Lex

/-! The elevator. Buffer requests with different keys are queued in at most two
ascending runs: the sweep that is under way and the next one. -/

set_option autoImplicit false

namespace Linux012.BlkDrv

def Request.key (req : Request) : Nat ×ₗ Int ×ₗ Nat := toLex (req.cmd, toLex (req.dev, req.sector))

theorem inOrder_iff_key_lt (s1 s2 : Request) : inOrder s1 s2 = true ↔ s1.key < s2.key := by
  simp only [inOrder, Request.key, Prod.Lex.toLex_lt_toLex, Bool.or_eq_true, Bool.and_eq_true,
    decide_eq_true_eq, beq_iff_eq]

section Queue

variable {ρ : Type} (view : ρ → Request)

/-- The adjacent pairs of a queue that are out of `IN_ORDER`. -/
def outOfOrder : List ρ → Nat
  | current :: next :: rest =>
    (if inOrder (view current) (view next) then 0 else 1) + outOfOrder (next :: rest)
  | _ => 0

theorem outOfOrder_eq_turns (queue : List ρ) :
    outOfOrder view queue = Ascents.turns (queue.map fun req => (view req).key) := by
  induction queue with
  | nil => rfl
  | cons current queue ih =>
    cases queue with
    | nil => rfl
    | cons next rest =>
      rw [outOfOrder, ih]
      simp only [List.map_cons, Ascents.turns_cons_cons, inOrder_iff_key_lt]

theorem insertsBefore_iff_key {req : Request} (buffer : req.bh.isSome) (tmp next : Request) :
    insertsBefore req tmp next = true ↔ (tmp.key < req.key ∨ ¬tmp.key < next.key) ∧ req.key < next.key := by
  have notSwap : req.bh.isNone = false := by
    rw [← Option.not_isSome, buffer]
    rfl
  rw [insertsBefore, notSwap]
  simp only [Bool.false_eq_true, if_false, Bool.and_eq_true, Bool.or_eq_true, Bool.not_eq_true',
    ← Bool.not_eq_true, inOrder_iff_key_lt]

theorem map_key_insertBehind {req : ρ} (buffer : (view req).bh.isSome) (tmp : ρ) (rest : List ρ) :
    (insertBehind view req tmp rest).map (fun other => (view other).key) =
      Ascents.insertBehind (view req).key (view tmp).key (rest.map fun other => (view other).key) := by
  induction rest generalizing tmp with
  | nil => rfl
  | cons next rest ih =>
    rw [List.map_cons, Ascents.insertBehind, insertBehind]
    by_cases fits : insertsBefore (view req) (view tmp) (view next) = true
    · rw [if_pos fits, if_pos ((insertsBefore_iff_key buffer _ _).mp fits)]
      rfl
    · rw [if_neg fits, if_neg (mt (insertsBefore_iff_key buffer _ _).mpr fits), List.map_cons, ih]

theorem outOfOrder_addRequest {req : ρ} {queue : List ρ} (buffer : (view req).bh.isSome)
    (new : ∀ other ∈ queue, (view other).key ≠ (view req).key) (few : outOfOrder view queue ≤ 1) :
    outOfOrder view (addRequest view req queue) ≤ 1 := by
  rw [outOfOrder_eq_turns] at few ⊢
  cases queue with
  | nil => exact Nat.zero_le _
  | cons current rest =>
    have unseen : (view req).key ∉ (current :: rest).map fun other => (view other).key := by
      intro seen
      obtain ⟨other, queued, same⟩ := List.mem_map.mp seen
      exact new other queued same
    rw [addRequest, List.map_cons, map_key_insertBehind view buffer]
    exact Ascents.turns_insert few unseen

theorem outOfOrder_tail (current : ρ) (rest : List ρ) :
    outOfOrder view rest ≤ outOfOrder view (current :: rest) := by
  rw [outOfOrder_eq_turns, outOfOrder_eq_turns]
  exact Ascents.turns_tail_le _ _

end Queue

/-! ## Runs of one device -/

/-- The next `add_request` call brings a buffer request whose key is not queued. -/
def Service.BringsNew (request : Nat → Request) (device : Service) : Event → Prop
  | .addRequest =>
    (request device.added).bh.isSome ∧
      ∀ other ∈ device.queue, (request other).key ≠ (request device.added).key
  | .endRequest => True

instance (request : Nat → Request) (device : Service) (event : Event) :
    Decidable (device.BringsNew request event) := by
  cases event <;> unfold Service.BringsNew <;> infer_instance

def Service.next (request : Nat → Request) (device : Service) (event : Event) : Option Service :=
  some (device.step request event)

structure Service.Sweeping (request : Nat → Request) (device : Service) : Prop where
  fewTurns : outOfOrder request device.queue ≤ 1
  named : ∀ req ∈ device.queue, req < device.added

theorem Service.Sweeping.initial (request : Nat → Request) : Service.initial.Sweeping request where
  fewTurns := Nat.zero_le _
  named := fun _ queued => absurd queued List.not_mem_nil

theorem Service.Sweeping.step {request : Nat → Request} {device : Service} {event : Event}
    (sweeping : device.Sweeping request) (brings : device.BringsNew request event) :
    (device.step request event).Sweeping request := by
  cases event with
  | addRequest =>
    refine ⟨outOfOrder_addRequest request brings.1 brings.2 sweeping.fewTurns, fun req queued => ?_⟩
    rcases (mem_addRequest request).mp queued with rfl | before
    · exact Nat.lt_succ_self _
    · exact Nat.lt_succ_of_lt (sweeping.named req before)
  | endRequest =>
    obtain ⟨queue, added, served⟩ := device
    cases queue with
    | nil => exact sweeping
    | cons current rest =>
      exact ⟨(outOfOrder_tail request current rest).trans sweeping.fewTurns,
        fun req queued => sweeping.named req (List.mem_cons_of_mem _ queued)⟩

theorem Service.sweeping_of_run {request : Nat → Request} {device : Service}
    (reached : Transition.Run (Service.next request) (Service.BringsNew request) .initial device) :
    device.Sweeping request := by
  refine reached.invariant (fun {before event after} sweeping brings moved => ?_) (.initial request)
  cases moved
  exact sweeping.step brings

/-- A queue of buffer requests with different keys turns at most once, and a new
request is put in once, behind the head, without moving the others. -/
theorem Service.elevator_sweeps (request : Nat → Request) {device : Service}
    (reached : Transition.Run (Service.next request) (Service.BringsNew request) .initial device) :
    outOfOrder request device.queue ≤ 1 ∧
      ∃ front back, device.queue = front ++ back ∧
        (device.step request .addRequest).queue = front ++ device.added :: back ∧
        (device.queue ≠ [] → front ≠ []) ∧ device.added ∉ device.queue := by
  have sweeping := Service.sweeping_of_run reached
  obtain ⟨front, back, split, inserted, behind⟩ := addRequest_split request device.added device.queue
  exact ⟨sweeping.fewTurns, front, back, split, inserted, behind,
    fun queued => Nat.lt_irrefl _ (sweeping.named _ queued)⟩

def sweepRequests (n : Nat) : Request :=
  { Request.empty with dev := 0x301, sector := [6, 8, 2, 7].getD n 0, nrSectors := 2, bh := some n }

theorem Service.elevator_sweeps_twice :
    ∃ device : Service, device.queue = [0, 3, 1, 2] ∧ outOfOrder sweepRequests device.queue ≤ 1 ∧
      ∃ front back, device.queue = front ++ back ∧
        (device.step sweepRequests .addRequest).queue = front ++ device.added :: back ∧
        (device.queue ≠ [] → front ≠ []) ∧ device.added ∉ device.queue := by
  obtain ⟨device, ran, queued⟩ := Transition.exists_of_runIf (Service.next sweepRequests)
    (fun device event => decide (device.BringsNew sweepRequests event)) .initial
    [.addRequest, .addRequest, .addRequest, .addRequest] (fun device => device.queue = [0, 3, 1, 2])
    (by decide +kernel)
  exact ⟨device, queued, Service.elevator_sweeps sweepRequests
    (ran.weaken fun _ _ allowed => of_decide_eq_true allowed)⟩

end Linux012.BlkDrv

import Linux012.BlkDrv.Request

/-! The order in which one device serves its requests. `add_request` promises
that swapping requests go before other requests and are done in the order they
appear; the elevator comparison keeps that promise only while no buffer request
is let in before a queued swap request. -/

set_option autoImplicit false

namespace Linux012.BlkDrv

open List

/-- A device queue together with its history. Requests are named by the number
of `add_request` calls made before theirs. -/
structure Service where
  queue : List Nat
  added : Nat
  served : List Nat
deriving DecidableEq

def Service.initial : Service where
  queue := []
  added := 0
  served := []

inductive Event where
  | addRequest
  | endRequest
deriving DecidableEq

/-- One `add_request` call or one completion; the request added as number `n`
is `request n`. -/
def Service.step (request : Nat → Request) (device : Service) : Event → Service
  | .addRequest =>
    { device with
      queue := BlkDrv.addRequest request device.added device.queue
      added := device.added + 1 }
  | .endRequest =>
    match device.queue with
    | [] => device
    | current :: rest => { device with queue := rest, served := device.served ++ [current] }

def Service.run (request : Nat → Request) (device : Service) (events : List Event) : Service :=
  events.foldl (Service.step request) device

def Service.order (device : Service) : List Nat := device.served ++ device.queue

/-- The promise made above `add_request`, read off the order of service. -/
structure Service.SwapsFirst (request : Nat → Request) (device : Service) : Prop where
  swapsInOrder : device.order.Pairwise fun first second =>
    (request first).isSwap → (request second).isSwap → first < second
  noBufferOvertakes : device.order.Pairwise fun first second =>
    ¬ (request first).isSwap → (request second).isSwap → first < second
  readAfterWrite : device.order.Pairwise fun first second =>
    (request first).isSwap → (request first).cmd = READ →
    (request second).isSwap → (request second).cmd = WRITE →
    (request first).dev = (request second).dev →
    (request first).sector = (request second).sector → first < second

def Service.Punctual (request : Nat → Request) (device : Service) : Prop :=
  device.order.Pairwise fun first second => (request second).isSwap → first < second

theorem Service.swapsFirst_iff_punctual (request : Nat → Request) (device : Service) :
    device.SwapsFirst request ↔ device.Punctual request := by
  constructor
  · intro promise
    refine (promise.swapsInOrder.and promise.noBufferOvertakes).imp ?_
    intro first second both swap
    by_cases kind : (request first).isSwap
    · exact both.1 kind swap
    · exact both.2 kind swap
  · intro punctual
    refine ⟨?_, ?_, ?_⟩
    · exact punctual.imp fun before _ swap => before swap
    · exact punctual.imp fun before _ swap => before swap
    · exact punctual.imp fun before _ _ swap _ _ _ => before swap

/-! ## The condition on one insertion -/

section Queue

variable {ρ : Type} (view : ρ → Request)

/-- Somewhere behind `tmp` the elevator lets `req` in although a swap request
is still queued from there on. -/
def LetInBefore (req : ρ) : ρ → List ρ → Prop
  | _, [] => False
  | tmp, next :: rest =>
    (insertsBefore (view req) (view tmp) (view next) ∧
      ∃ other ∈ next :: rest, (view other).isSwap) ∨ LetInBefore req next rest

/-- A buffer request would be placed before a swap request that is queued
behind the request in progress. -/
def Overtakes (req : ρ) : List ρ → Prop
  | [] => False
  | current :: rest => (view req).isSwap = false ∧ LetInBefore view req current rest

variable {rest : List ρ}

theorem letInBefore_swap {req tmp : ρ} (overtaken : LetInBefore view req tmp rest) :
    ∃ other ∈ rest, (view other).isSwap := by
  induction rest generalizing tmp with
  | nil => exact overtaken.elim
  | cons next rest ih =>
    rcases overtaken with ⟨_, found⟩ | later
    · exact found
    · obtain ⟨other, member, swap⟩ := ih later
      exact ⟨other, .tail _ member, swap⟩

theorem insertBehind_of_letInBefore {req tmp : ρ} (overtaken : LetInBefore view req tmp rest) :
    ∃ front back, rest = front ++ back ∧ insertBehind view req tmp rest = front ++ req :: back ∧
      ∃ other ∈ back, (view other).isSwap := by
  induction rest generalizing tmp with
  | nil => exact overtaken.elim
  | cons next rest ih =>
    by_cases stop : insertsBefore (view req) (view tmp) (view next)
    · have found : ∃ other ∈ next :: rest, (view other).isSwap := letInBefore_swap view overtaken
      exact ⟨[], next :: rest, rfl, by simp [insertBehind, stop], found⟩
    · have later : LetInBefore view req next rest := by
        rcases overtaken with ⟨stopped, _⟩ | later
        · exact absurd stopped stop
        · exact later
      obtain ⟨front, back, split, inserted, found⟩ := ih later
      exact ⟨next :: front, back, by rw [split]; rfl, by simp [insertBehind, stop, inserted], found⟩

theorem insertBehind_of_not_letInBefore {req tmp : ρ} (clear : ¬ LetInBefore view req tmp rest) :
    ∃ front back, rest = front ++ back ∧ insertBehind view req tmp rest = front ++ req :: back ∧
      ∀ other ∈ back, (view other).isSwap = false := by
  induction rest generalizing tmp with
  | nil => exact ⟨[], [], rfl, rfl, by simp⟩
  | cons next rest ih =>
    simp only [LetInBefore, not_or, not_and] at clear
    by_cases stop : insertsBefore (view req) (view tmp) (view next)
    · refine ⟨[], next :: rest, rfl, by simp [insertBehind, stop], ?_⟩
      intro other member
      by_contra swap
      exact clear.1 stop ⟨other, member, by simpa using swap⟩
    · obtain ⟨front, back, split, inserted, buffers⟩ := ih clear.2
      exact ⟨next :: front, back, by rw [split]; rfl, by simp [insertBehind, stop, inserted], buffers⟩

theorem insertBehind_swap {req tmp : ρ} {rest : List ρ} (swap : (view req).isSwap)
    (leading : rest.Pairwise fun first second => (view second).isSwap → (view first).isSwap) :
    ∃ front back, rest = front ++ back ∧ insertBehind view req tmp rest = front ++ req :: back ∧
      (∀ other ∈ front, (view other).isSwap) ∧ ∀ other ∈ back, (view other).isSwap = false := by
  induction rest generalizing tmp with
  | nil => exact ⟨[], [], rfl, rfl, by simp, by simp⟩
  | cons next rest ih =>
    have absent : (view req).bh = none := by simpa [Request.isSwap] using swap
    rw [pairwise_cons] at leading
    by_cases kind : (view next).isSwap
    · have stop : insertsBefore (view req) (view tmp) (view next) = false := by
        have named : (view next).bh = none := by simpa [Request.isSwap] using kind
        simp [insertsBefore, absent, named]
      obtain ⟨front, back, split, inserted, swaps, buffers⟩ := @ih next leading.2
      refine ⟨next :: front, back, by rw [split]; rfl, by simp [insertBehind, stop, inserted], ?_, buffers⟩
      intro other member
      rcases mem_cons.mp member with rfl | passed
      · exact kind
      · exact swaps other passed
    · have stop : insertsBefore (view req) (view tmp) (view next) = true := by
        have named : (view next).bh.isSome := by
          simpa [Request.isSwap, Option.isSome_iff_ne_none] using kind
        simp [insertsBefore, absent, named]
      refine ⟨[], next :: rest, rfl, by simp [insertBehind, stop], by simp, ?_⟩
      intro other member
      rcases mem_cons.mp member with rfl | behind
      · simpa using kind
      · by_contra swapBehind
        exact kind (leading.1 other behind (by simpa using swapBehind))

end Queue

/-! ## Runs -/

/-- Every buffer request of the run is added in a state in which the elevator
does not let it in before a queued swap request. -/
def Undisturbed (request : Nat → Request) : Service → List Event → Prop
  | _, [] => True
  | device, event :: events =>
    (event = .addRequest → ¬ Overtakes request device.added device.queue) ∧
      Undisturbed request (device.step request event) events

/-- What holds of a device between two events of an undisturbed run: the
history is punctual, and behind the request in progress the swap requests lead. -/
structure Service.Orderly (request : Nat → Request) (device : Service) : Prop where
  numbered : ∀ n ∈ device.order, n < device.added
  punctual : device.Punctual request
  leading : device.queue.tail.Pairwise fun first second =>
    (request second).isSwap → (request first).isSwap

theorem Service.orderly_initial (request : Nat → Request) : Service.initial.Orderly request :=
  ⟨by simp [order, initial], by simp [Punctual, order, initial], by simp [initial]⟩

variable {request : Nat → Request}

private theorem pairwise_insert_newest {front back : List Nat} {n : Nat} (numbered : ∀ m ∈ front ++ back, m < n)
    (punctual : (front ++ back).Pairwise fun first second => (request second).isSwap → first < second)
    (buffers : ∀ m ∈ back, (request m).isSwap = false) :
    (front ++ n :: back).Pairwise fun first second => (request second).isSwap → first < second := by
  rw [pairwise_append] at punctual ⊢
  obtain ⟨frontOrder, backOrder, across⟩ := punctual
  refine ⟨frontOrder, ?_, ?_⟩
  · rw [pairwise_cons]
    refine ⟨?_, backOrder⟩
    intro m member swap
    rw [buffers m member] at swap
    cases swap
  · intro m member other otherMember
    rcases mem_cons.mp otherMember with rfl | behind
    · intro _
      exact numbered m (mem_append_left _ member)
    · exact across m member other behind

private theorem leading_insert {front back : List Nat} {n : Nat}
    (leading : (front ++ back).Pairwise fun first second =>
      (request second).isSwap → (request first).isSwap)
    (passed : (request n).isSwap → ∀ m ∈ front, (request m).isSwap)
    (buffers : ∀ m ∈ back, (request m).isSwap = false) :
    (front ++ n :: back).Pairwise fun first second =>
      (request second).isSwap → (request first).isSwap := by
  rw [pairwise_append] at leading ⊢
  obtain ⟨frontOrder, backOrder, across⟩ := leading
  refine ⟨frontOrder, ?_, ?_⟩
  · rw [pairwise_cons]
    refine ⟨?_, backOrder⟩
    intro m member swap
    rw [buffers m member] at swap
    cases swap
  · intro m member other otherMember
    rcases mem_cons.mp otherMember with rfl | behind
    · intro swap
      exact passed swap m member
    · exact across m member other behind

@[simp] theorem Service.order_endRequest (request : Nat → Request) (device : Service) :
    (device.step request .endRequest).order = device.order := by
  rcases device with ⟨queue, added, served⟩
  cases queue <;> simp [Service.step, Service.order]

variable {device : Service}

theorem Service.Orderly.endRequest (orderly : device.Orderly request) :
    (device.step request .endRequest).Orderly request := by
  have same := Service.order_endRequest request device
  refine ⟨?_, ?_, ?_⟩
  · rw [same]
    intro n member
    have bound := orderly.numbered n member
    rcases device with ⟨queue, added, served⟩
    cases queue <;> exact bound
  · rw [Service.Punctual, same]
    exact orderly.punctual
  · have leading := orderly.leading
    rcases device with ⟨queue, added, served⟩
    cases queue with
    | nil => exact leading
    | cons current rest => exact leading.tail

private theorem addRequest_of_not_overtakes {n : Nat} {queue : List Nat}
    (leading : queue.tail.Pairwise fun first second =>
      (request second).isSwap → (request first).isSwap) (clear : ¬ Overtakes request n queue) :
    ∃ front back, queue = front ++ back ∧ addRequest request n queue = front ++ n :: back ∧
      (∀ m ∈ back, (request m).isSwap = false) ∧
      (addRequest request n queue).tail.Pairwise fun first second =>
        (request second).isSwap → (request first).isSwap := by
  cases queue with
  | nil => exact ⟨[], [], rfl, rfl, by simp, by simp [addRequest]⟩
  | cons current rest =>
    simp only [tail_cons] at leading
    by_cases kind : (request n).isSwap
    · obtain ⟨front, back, split, inserted, swaps, buffers⟩ :=
        @insertBehind_swap _ request n current rest kind leading
      rw [split] at leading
      refine ⟨current :: front, back, by rw [split]; rfl, by simp [addRequest, inserted], buffers, ?_⟩
      simp only [addRequest, tail_cons, inserted]
      exact leading_insert leading (fun _ => swaps) buffers
    · have behind : ¬ LetInBefore request n current rest := by
        intro overtaken
        exact clear ⟨by simpa using kind, overtaken⟩
      obtain ⟨front, back, split, inserted, buffers⟩ := insertBehind_of_not_letInBefore request behind
      rw [split] at leading
      refine ⟨current :: front, back, by rw [split]; rfl, by simp [addRequest, inserted], buffers, ?_⟩
      simp only [addRequest, tail_cons, inserted]
      exact leading_insert leading (fun swap => absurd swap kind) buffers

theorem Service.Orderly.addRequest (orderly : device.Orderly request)
    (clear : ¬ Overtakes request device.added device.queue) :
    (device.step request .addRequest).Orderly request := by
  obtain ⟨front, back, split, inserted, buffers, leading⟩ := addRequest_of_not_overtakes orderly.leading clear
  have history : device.order = (device.served ++ front) ++ back := by
    rw [Service.order, split, append_assoc]
  have order : (device.step request .addRequest).order =
      (device.served ++ front) ++ device.added :: back := by
    simp [Service.order, Service.step, inserted]
  have numbered : ∀ n ∈ (device.served ++ front) ++ back, n < device.added := by
    rw [← history]
    exact orderly.numbered
  refine ⟨?_, ?_, leading⟩
  · intro n member
    rw [order, mem_append, mem_cons] at member
    have next : (device.step request .addRequest).added = device.added + 1 := rfl
    rw [next]
    rcases member with before | rfl | behind
    · exact Nat.lt_succ_of_lt (numbered n (mem_append_left _ before))
    · exact Nat.lt_succ_self _
    · exact Nat.lt_succ_of_lt (numbered n (mem_append_right _ behind))
  · rw [Service.Punctual, order]
    have punctual := orderly.punctual
    rw [Service.Punctual, history] at punctual
    exact pairwise_insert_newest numbered punctual buffers

theorem Service.not_punctual_of_overtakes (numbered : ∀ n ∈ device.order, n < device.added)
    (overtaken : Overtakes request device.added device.queue) :
    ¬ (device.step request .addRequest).Punctual request := by
  intro punctual
  cases shape : device.queue with
  | nil =>
    rw [shape] at overtaken
    exact overtaken
  | cons current rest =>
    rw [shape] at overtaken
    obtain ⟨front, back, split, inserted, other, member, swap⟩ := insertBehind_of_letInBefore request overtaken.2
    have order : (device.step request .addRequest).order =
        (device.served ++ current :: front) ++ device.added :: back := by
      simp [Service.order, Service.step, shape, BlkDrv.addRequest, inserted]
    rw [Service.Punctual, order, pairwise_append, pairwise_cons] at punctual
    have later : device.added < other := punctual.2.1.1 other member swap
    have earlier : other < device.added := by
      apply numbered
      simp [Service.order, shape, split, member]
    exact absurd earlier (Nat.lt_asymm later)

theorem Service.punctual_of_step {event : Event} (punctual : (device.step request event).Punctual request) :
    device.Punctual request := by
  cases event with
  | endRequest => simpa [Service.Punctual] using punctual
  | addRequest =>
    obtain ⟨front, back, split, inserted, _⟩ := addRequest_split request device.added device.queue
    have order : (device.step request .addRequest).order =
        device.served ++ (front ++ device.added :: back) := by
      simp [Service.order, Service.step, inserted]
    rw [Service.Punctual, order] at punctual
    rw [Service.Punctual, Service.order, split]
    refine punctual.sublist (List.Sublist.append (.refl _) (List.Sublist.append (.refl _) ?_))
    exact sublist_cons_self _ _

variable {events : List Event}

theorem Service.punctual_of_run (punctual : (device.run request events).Punctual request) :
    device.Punctual request := by
  induction events generalizing device with
  | nil => exact punctual
  | cons event events ih => exact Service.punctual_of_step (ih punctual)

theorem Service.numbered_step (numbered : ∀ n ∈ device.order, n < device.added) (event : Event) :
    ∀ n ∈ (device.step request event).order, n < (device.step request event).added := by
  intro n member
  cases event with
  | endRequest =>
    rw [Service.order_endRequest] at member
    have bound := numbered n member
    rcases device with ⟨queue, added, served⟩
    cases queue <;> exact bound
  | addRequest =>
    simp only [Service.order, Service.step, mem_append, mem_addRequest] at member ⊢
    rcases member with done | rfl | queued
    · exact Nat.lt_succ_of_lt (numbered n (mem_append_left _ done))
    · exact Nat.lt_succ_self _
    · exact Nat.lt_succ_of_lt (numbered n (mem_append_right _ queued))

theorem Service.Orderly.run (orderly : device.Orderly request) (undisturbed : Undisturbed request device events) :
    (device.run request events).Orderly request := by
  induction events generalizing device with
  | nil => exact orderly
  | cons event events ih =>
    obtain ⟨clear, rest⟩ := undisturbed
    refine ih ?_ rest
    cases event with
    | addRequest => exact orderly.addRequest (clear rfl)
    | endRequest => exact orderly.endRequest

theorem Service.undisturbed_of_punctual (numbered : ∀ n ∈ device.order, n < device.added)
    (punctual : (device.run request events).Punctual request) : Undisturbed request device events := by
  induction events generalizing device with
  | nil => trivial
  | cons event events ih =>
    refine ⟨?_, ih (Service.numbered_step numbered event) punctual⟩
    rintro rfl overtaken
    exact Service.not_punctual_of_overtakes numbered overtaken (Service.punctual_of_run punctual)

/-- A device serves its swap requests first and in order exactly in the runs in
which no buffer request is let in before a queued swap request. -/
theorem swapsFirst_iff_undisturbed (request : Nat → Request) (events : List Event) :
    (Service.initial.run request events).SwapsFirst request ↔ Undisturbed request Service.initial events := by
  rw [Service.swapsFirst_iff_punctual]
  constructor
  · intro punctual
    exact Service.undisturbed_of_punctual (by simp [Service.order, Service.initial]) punctual
  · intro undisturbed
    exact ((Service.orderly_initial request).run undisturbed).punctual

/-- A buffer read, a swap-out of slot 10, another buffer read and the swap-in
of the same slot, all on `/dev/hd0`. -/
def overtakingRequests : Nat → Request
  | 0 => { dev := 0x300, cmd := READ, errors := 0, sector := 100, nrSectors := 2,
           waiting := none, bh := some 0 }
  | 1 => { dev := 0x300, cmd := WRITE, errors := 0, sector := 80, nrSectors := 8,
           waiting := some 2, bh := none }
  | 2 => { dev := 0x300, cmd := READ, errors := 0, sector := 200, nrSectors := 2,
           waiting := none, bh := some 1 }
  | _ => { dev := 0x300, cmd := READ, errors := 0, sector := 80, nrSectors := 8,
           waiting := some 3, bh := none }

/-- The second buffer read is let in before the queued swap-out, and the
swap-in of the slot then goes before that read: it is served first. -/
theorem overtakingRequests_not_swapsFirst :
    ¬ (Service.initial.run overtakingRequests
      [.addRequest, .addRequest, .addRequest, .addRequest]).SwapsFirst overtakingRequests := by
  intro promise
  have order : (Service.initial.run overtakingRequests
      [.addRequest, .addRequest, .addRequest, .addRequest]).order = [0, 3, 2, 1] := by decide
  have inOrder := promise.readAfterWrite
  rw [order] at inOrder
  simp [overtakingRequests, Request.isSwap] at inOrder

end Linux012.BlkDrv

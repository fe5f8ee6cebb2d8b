import Mathlib.Algebra.BigOperators.Group.List.Basic
import Mathlib.Tactic.Ring

/-! Events in the order of their times, each stored with its distance from the one before. -/

set_option autoImplicit false

namespace DeltaList

variable {β : Type*}

def times (now : Int) : List (Int × β) → List (Int × β)
  | [] => []
  | (delta, event) :: rest => (now + delta, event) :: times (now + delta) rest

def putIn (n : Int) (event : β) : List (Int × β) → List (Int × β)
  | [] => [(n, event)]
  | (delta, other) :: rest =>
    if delta < n then (delta, other) :: putIn (n - delta) event rest
    else (n, event) :: (delta, other) :: rest

def total (events : List (Int × β)) : Int := (events.map Prod.fst).sum

@[simp] theorem times_nil (now : Int) : times now ([] : List (Int × β)) = [] := rfl

@[simp] theorem times_cons (now delta : Int) (event : β) (rest : List (Int × β)) :
    times now ((delta, event) :: rest) = (now + delta, event) :: times (now + delta) rest := rfl

@[simp] theorem total_nil : total ([] : List (Int × β)) = 0 := rfl

@[simp] theorem total_cons (event : Int × β) (rest : List (Int × β)) :
    total (event :: rest) = event.1 + total rest := rfl

@[simp] theorem total_append (events rest : List (Int × β)) :
    total (events ++ rest) = total events + total rest := by
  simp [total]

theorem total_perm {events events' : List (Int × β)} (same : events.Perm events') :
    total events = total events' :=
  (same.map Prod.fst).sum_eq

theorem times_tick (now delta : Int) (event : β) (rest : List (Int × β)) :
    times (now + 1) ((delta - 1, event) :: rest) = times now ((delta, event) :: rest) := by
  have same : now + 1 + (delta - 1) = now + delta := by omega
  rw [times_cons, times_cons, same]

@[simp] theorem length_times (now : Int) (deltas : List (Int × β)) :
    (times now deltas).length = deltas.length := by
  induction deltas generalizing now with
  | nil => rfl
  | cons head rest ih => rw [times, List.length_cons, ih, List.length_cons]

theorem length_putIn (n : Int) (event : β) (deltas : List (Int × β)) :
    (putIn n event deltas).length = deltas.length + 1 := by
  induction deltas generalizing n with
  | nil => rfl
  | cons head rest ih =>
    rw [putIn]
    split
    · rw [List.length_cons, ih, List.length_cons]
    · rfl

variable {deltas : List (Int × β)}

theorem times_later {now : Int} (positive : ∀ e ∈ deltas, 0 < e.1) : ∀ e ∈ times now deltas, now < e.1 := by
  induction deltas generalizing now with
  | nil => exact fun e member => absurd member List.not_mem_nil
  | cons head rest ih =>
    obtain ⟨delta, event⟩ := head
    have first : 0 < delta := positive (delta, event) List.mem_cons_self
    intro e member
    rw [times_cons, List.mem_cons] at member
    rcases member with rfl | behind
    · show now < now + delta
      omega
    · have later : now + delta < e.1 :=
        ih (fun e member => positive e (List.mem_cons_of_mem _ member)) e behind
      omega

theorem total_times_shift (now k : Int) (deltas : List (Int × β)) :
    total (times (now + k) deltas) = total (times now deltas) + k * deltas.length := by
  induction deltas generalizing now with
  | nil => simp
  | cons head rest ih =>
    obtain ⟨delta, event⟩ := head
    have same : now + k + delta = now + delta + k := by omega
    rw [times_cons, times_cons, total_cons, total_cons, same, ih, List.length_cons]
    push_cast
    ring

variable {n : Int}

theorem putIn_positive {event : β} (isPositive : 0 < n) (positive : ∀ e ∈ deltas, 0 < e.1) :
    ∀ e ∈ putIn n event deltas, 0 < e.1 := by
  induction deltas generalizing n with
  | nil =>
    intro e member
    rw [putIn, List.mem_singleton] at member
    rw [member]
    exact isPositive
  | cons head rest ih =>
    obtain ⟨delta, other⟩ := head
    rw [putIn]
    split
    · next earlier =>
        rw [List.forall_mem_cons] at positive ⊢
        exact ⟨positive.1, ih (by omega) positive.2⟩
    · rw [List.forall_mem_cons]
      exact ⟨isPositive, positive⟩

theorem times_putIn_of_latest {now : Int} {event : β} (latest : ∀ e ∈ times now deltas, e.1 < now + n) :
    times now (putIn n event deltas) = times now deltas ++ [(now + n, event)] := by
  induction deltas generalizing now n with
  | nil => rfl
  | cons head rest ih =>
    obtain ⟨delta, other⟩ := head
    rw [times_cons, List.forall_mem_cons] at latest
    have earlier : delta < n := by
      have first : now + delta < now + n := latest.1
      omega
    have same : now + delta + (n - delta) = now + n := by omega
    have behind : times (now + delta) (putIn (n - delta) event rest) =
        times (now + delta) rest ++ [(now + delta + (n - delta), event)] := ih (by rw [same]; exact latest.2)
    rw [putIn, if_pos earlier, times_cons, times_cons, behind, same, List.cons_append]

def delay (n : Int) : List (Int × β) → Int
  | [] => 0
  | (delta, _) :: rest =>
    if delta < n then delay (n - delta) rest else n * (rest.length + 1)

theorem total_times_putIn (now n : Int) (event : β) (deltas : List (Int × β)) :
    total (times now (putIn n event deltas)) = total (times now deltas) + (now + n) + delay n deltas := by
  induction deltas generalizing now n with
  | nil => simp [putIn, delay]
  | cons head rest ih =>
    obtain ⟨delta, other⟩ := head
    rw [putIn, delay]
    split
    · rw [times_cons, times_cons, total_cons, total_cons, ih]
      ring
    · have shift : now + n + delta = now + delta + n := by omega
      rw [times_cons, total_cons, times_cons, times_cons, total_cons, total_cons, shift, total_times_shift]
      ring

theorem delay_nonneg (isPositive : 0 < n) (deltas : List (Int × β)) : 0 ≤ delay n deltas := by
  induction deltas generalizing n with
  | nil => exact Int.le_refl 0
  | cons head rest ih =>
    obtain ⟨delta, other⟩ := head
    rw [delay]
    split
    · exact ih (by omega)
    · exact Int.mul_nonneg (by omega) (by omega)

theorem delay_pos {now : Int} (isPositive : 0 < n) (notLatest : ∃ e ∈ times now deltas, now + n ≤ e.1) :
    0 < delay n deltas := by
  induction deltas generalizing now n with
  | nil =>
    obtain ⟨e, member, -⟩ := notLatest
    exact absurd member List.not_mem_nil
  | cons head rest ih =>
    obtain ⟨delta, other⟩ := head
    rw [delay]
    split
    · next earlier =>
        obtain ⟨e, member, later⟩ := notLatest
        rw [times_cons, List.mem_cons] at member
        rcases member with rfl | behind
        · have notEarlier : now + n ≤ now + delta := later
          omega
        · have same : now + n = now + delta + (n - delta) := by omega
          exact ih (by omega) ⟨e, behind, same ▸ later⟩
    · exact Int.mul_pos isPositive (by omega)

end DeltaList

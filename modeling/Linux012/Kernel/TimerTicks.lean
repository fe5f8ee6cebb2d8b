import Linux012.Kernel.Timer
import Mathlib.Data.Fintype.Card

/-! The ticks on which the timer functions are called. The list of `add_timer` holds the
distances between the timers, but a timer that is put before another one is not taken off
its distance, so the timers behind are late. -/

set_option autoImplicit false

namespace Linux012.Kernel.Timer

open DeltaList Links Transition Function List

variable {φ : Type}

/-! ## The list -/

section Lists

variable {list : Slot → TimerList φ} {p next : Slot}

def Stores (list : Slot → TimerList φ) (p : Slot) (timer : Int × φ) : Prop :=
  (list p).jiffies = timer.1 ∧ (list p).fn = some timer.2

theorem Stores.congr {list' : Slot → TimerList φ} {timer : Int × φ} (stores : Stores list p timer)
    (same : list' p = list p) : Stores list' p timer := by
  rw [Stores, same]
  exact stores

theorem stores_congr {list' : Slot → TimerList φ} {slots : List Slot} {timers : List (Int × φ)}
    (stored : List.Forall₂ (Stores list) slots timers) (same : ∀ q ∈ slots, list' q = list q) :
    List.Forall₂ (Stores list') slots timers := by
  induction stored with
  | nil => exact .nil
  | cons stores _ ih =>
    rw [forall_mem_cons] at same
    exact .cons (stores.congr same.1) (ih same.2)

theorem swapWith_next (q : Slot) : (swapWith list p next q).next = (list q).next := by
  unfold swapWith
  simp only [update_apply]
  split
  · next isNext =>
      subst isNext
      split
      · next same => rw [same]
      · rfl
  · split
    · next same => rw [same]
    · rfl

theorem swapWith_stores_next {fn : φ} (holds : (list p).fn = some fn) :
    Stores (swapWith list p next) next ((list p).jiffies - (list next).jiffies, fn) := by
  unfold swapWith
  rw [Stores, update_self]
  exact ⟨rfl, holds⟩

theorem swapWith_stores_self {timer : Int × φ} (differ : p ≠ next) (stores : Stores list next timer) :
    Stores (swapWith list p next) p timer := by
  unfold swapWith
  rw [Stores, update_of_ne differ, update_self]
  exact stores

theorem swapWith_of_ne {q : Slot} (notSelf : q ≠ p) (notNext : q ≠ next) :
    swapWith list p next q = list q := by
  unfold swapWith
  rw [update_of_ne notNext, update_of_ne notSelf]

theorem sortIn_spec {fuel : Nat} {slots : List Slot} {n : Int} {fn : φ} {timers : List (Int × φ)}
    (linked : Follows (fun q => (list q).next) (list p).next slots) (nodup : (p :: slots).Nodup)
    (stored : List.Forall₂ (Stores list) slots timers) (new : Stores list p (n, fn))
    (enough : slots.length ≤ fuel) :
    List.Forall₂ (Stores (sortIn fuel list p)) (p :: slots) (putIn n fn timers) ∧
      (∀ q, (sortIn fuel list p q).next = (list q).next) ∧
      ∀ q ∉ p :: slots, sortIn fuel list p q = list q := by
  induction slots generalizing fuel list p n timers with
  | nil =>
    cases stored
    have same : sortIn fuel list p = list := by
      cases fuel with
      | zero => rfl
      | succ fuel =>
        have ends : (list p).next = none := linked
        rw [sortIn, ends]
    rw [same]
    exact ⟨.cons new .nil, fun _ => rfl, fun _ _ => rfl⟩
  | cons next rest ih =>
    obtain ⟨isNext, linked⟩ := linked
    cases stored with
    | @cons _ timer _ timers stores stored =>
    obtain ⟨delta, other⟩ := timer
    cases fuel with
    | zero => exact absurd enough (Nat.not_succ_le_zero _)
    | succ fuel =>
      have isDelta : (list next).jiffies = delta := stores.1
      have isNew : (list p).jiffies = n := new.1
      rw [sortIn, putIn, isNext]
      simp only [isDelta, isNew]
      by_cases later : delta < n
      · rw [if_pos later, if_pos later]
        have notSelf : p ∉ next :: rest := (nodup_cons.mp nodup).1
        have differ : p ≠ next := fun same => notSelf (same ▸ mem_cons_self)
        have behind : next ∉ rest := (nodup_cons.mp (nodup_cons.mp nodup).2).1
        have others (q : Slot) (member : q ∈ rest) : swapWith list p next q = list q :=
          swapWith_of_ne (fun same => notSelf (same ▸ mem_cons_of_mem _ member)) (fun same => behind (same ▸ member))
        have moved : Stores (swapWith list p next) next (n - delta, fn) := by
          rw [← isNew, ← isDelta]
          exact swapWith_stores_next new.2
        have linked' : Follows (fun q => (swapWith list p next q).next) (swapWith list p next next).next rest := by
          simp only [swapWith_next]
          exact linked
        obtain ⟨sorted, links, frame⟩ := ih linked' (nodup_cons.mp nodup).2
          (stores_congr stored others) moved (Nat.le_of_succ_le_succ enough)
        refine ⟨.cons ?_ sorted, fun q => (links q).trans (swapWith_next q), fun q outside => ?_⟩
        · exact (swapWith_stores_self differ stores).congr (frame p notSelf)
        · rw [mem_cons, not_or] at outside
          have notNext : q ≠ next := fun same => outside.2 (same ▸ mem_cons_self)
          rw [frame q outside.2, swapWith_of_ne outside.1 notNext]
      · rw [if_neg later, if_neg later]
        exact ⟨.cons new (.cons stores stored), fun _ => rfl, fun _ _ => rfl⟩

end Lists

namespace State

structure Pending (s : State φ) (slots : List Slot) (timers : List (Int × φ)) : Prop where
  linked : Follows (fun p => (s.timerList p).next) s.nextTimer slots
  nodup : slots.Nodup
  stored : List.Forall₂ (Stores s.timerList) slots timers
  free : ∀ p ∉ slots, (s.timerList p).fn = none
  positive : ∀ timer ∈ timers, 0 < timer.1

variable {s s' : State φ} {slots : List Slot} {timers timers' : List (Int × φ)} {m : Move φ}

theorem stores_of_mem {list : Slot → TimerList φ} {p : Slot} (stored : List.Forall₂ (Stores list) slots timers)
    (member : p ∈ slots) : ∃ timer, Stores list p timer := by
  induction stored with
  | nil => exact absurd member not_mem_nil
  | cons stores _ ih =>
    rcases mem_cons.mp member with rfl | behind
    · exact ⟨_, stores⟩
    · exact ih behind

theorem Pending.init : (init : State φ).Pending [] [] where
  linked := rfl
  nodup := .nil
  stored := .nil
  free _ _ := rfl
  positive _ member := absurd member not_mem_nil

theorem Pending.mem_iff (pending : s.Pending slots timers) {p : Slot} :
    p ∈ slots ↔ (s.timerList p).fn ≠ none := by
  constructor
  · intro member isNone
    obtain ⟨timer, stores⟩ := stores_of_mem pending.stored member
    exact absurd (stores.2.symm.trans isNone) (Option.some_ne_none _)
  · exact fun used => Classical.byContradiction fun outside => used (pending.free p outside)

inductive Changed (s : State φ) (timers : List (Int × φ)) (s' : State φ) : List (Int × φ) → Move φ → Prop
  /-- `add_timer` calls the function itself -/
  | atOnce {jiffies : Int} {fn : φ} (passed : jiffies ≤ 0) (ticks : s'.ticks = s.ticks)
      (requested : s'.requested = s.requested ++ [(s.ticks, fn)])
      (called : s'.called = s.called ++ [(s.ticks, fn)]) : Changed s timers s' timers (.addTimer jiffies (some fn))
  | later {jiffies : Int} {fn : φ} (isPositive : 0 < jiffies) (ticks : s'.ticks = s.ticks)
      (requested : s'.requested = s.requested ++ [(s.ticks + jiffies, fn)])
      (called : s'.called = s.called) :
      Changed s timers s' (putIn jiffies fn timers) (.addTimer jiffies (some fn))
  | onward {timers' : List (Int × φ)} {m : Move φ} (calls : List (Int × φ)) (inTurn : s.InTurn m)
      (ticks : s.ticks ≤ s'.ticks) (requested : s'.requested = s.requested)
      (called : s'.called = s.called ++ calls) (onTick : ∀ call ∈ calls, call.1 = s'.ticks)
      (same : calls ++ times s'.ticks timers' = times s.ticks timers) : Changed s timers s' timers' m

theorem Pending.addTimer {jiffies : Int} {fn : φ} (pending : s.Pending slots timers)
    (added : s.addTimer jiffies fn = some s') :
    ∃ slots' timers', s'.Pending slots' timers' ∧ s.Changed timers s' timers' (.addTimer jiffies (some fn)) := by
  unfold State.addTimer at added
  by_cases now : jiffies ≤ 0
  · simp only [if_pos now, Option.some.injEq, max_eq_right now, Int.add_zero] at added
    subst added
    exact ⟨slots, timers, ⟨pending.linked, pending.nodup, pending.stored, pending.free, pending.positive⟩,
      .atOnce now rfl rfl rfl⟩
  · have isPositive : 0 < jiffies := Int.not_le.mp now
    simp only [if_neg now, Option.map_eq_some_iff, max_eq_left isPositive.le] at added
    obtain ⟨p, isFree, rfl⟩ := added
    have unused : (s.timerList p).fn = none := by
      unfold State.free at isFree
      exact Option.isNone_iff_eq_none.mp (find?_some (p := fun q => (s.timerList q).fn.isNone) isFree)
    have outside : p ∉ slots := fun member => pending.mem_iff.mp member unused
    set list := update s.timerList p { jiffies := jiffies, fn := some fn, next := s.nextTimer } with isList
    have self : list p = { jiffies := jiffies, fn := some fn, next := s.nextTimer } := update_self ..
    have others (q : Slot) (member : q ∈ slots) : list q = s.timerList q := by
      have differ : q ≠ p := fun same => outside (same ▸ member)
      exact update_of_ne differ ..
    have nodup : (p :: slots).Nodup := nodup_cons.mpr ⟨outside, pending.nodup⟩
    have linked : Follows (fun q => (list q).next) (list p).next slots := by
      rw [self]
      exact pending.linked.congr fun q member => by rw [others q member]
    have enough : slots.length ≤ TIME_REQUESTS := by
      have few := List.Nodup.length_le_card pending.nodup
      rwa [Fintype.card_fin] at few
    obtain ⟨sorted, links, frame⟩ := sortIn_spec linked nodup (stores_congr pending.stored others)
      (show Stores list p (jiffies, fn) by rw [Stores, self]; exact ⟨rfl, rfl⟩) enough
    refine ⟨p :: slots, putIn jiffies fn timers, ⟨⟨rfl, ?_⟩, nodup, sorted, fun q notIn => ?_,
      putIn_positive isPositive pending.positive⟩, .later isPositive rfl rfl rfl⟩
    · simp only [links]
      exact linked
    · rw [mem_cons, not_or] at notIn
      have kept : list q = s.timerList q := update_of_ne notIn.1 ..
      show (sortIn TIME_REQUESTS list p q).fn = none
      rw [frame q (by rw [mem_cons, not_or]; exact notIn), kept]
      exact pending.free q notIn.2

theorem Pending.callDue (pending : s.Pending slots timers) : s.callDue = { s with running := false } := by
  cases slots with
  | nil =>
    have ends : s.nextTimer = none := pending.linked
    rw [State.callDue, ends]
  | cons p slots =>
    cases pending with
    | mk linked _ stored _ positive =>
    cases stored with
    | @cons _ timer _ timers stores _ =>
    have later : 0 < timer.1 := positive timer mem_cons_self
    have isHead : s.nextTimer = some p := linked.1
    rw [State.callDue, isHead]
    exact if_neg (by rw [stores.1]; omega)

theorem Pending.doTimer (pending : s.Pending slots timers) :
    ∃ slots' timers', s.doTimer.Pending slots' timers' ∧ s.Changed timers s.doTimer timers' .doTimer := by
  cases slots with
  | nil =>
    have ends : s.nextTimer = none := pending.linked
    have noTimers : timers = [] := forall₂_nil_left_iff.mp pending.stored
    have same : s.doTimer = { s with ticks := s.ticks + 1 } := by
      rw [State.doTimer]
      simp only [ends]
    rw [same]
    refine ⟨[], timers, ⟨pending.linked, pending.nodup, pending.stored, pending.free, pending.positive⟩,
      .onward [] trivial ?_ rfl (append_nil _).symm (fun _ member => absurd member not_mem_nil) ?_⟩
    · show s.ticks ≤ s.ticks + 1
      omega
    · rw [noTimers]
      rfl
  | cons p slots =>
    have isHead : s.nextTimer = some p := pending.linked.1
    have linked := pending.linked.2
    have notBehind : p ∉ slots := (nodup_cons.mp pending.nodup).1
    have nodup : slots.Nodup := (nodup_cons.mp pending.nodup).2
    obtain ⟨timer, rest, stores, stored, rfl⟩ := forall₂_cons_left_iff.mp pending.stored
    obtain ⟨delta, fn⟩ := timer
    have positive := forall_mem_cons.mp pending.positive
    have first : 0 < delta := positive.1
    have isDelta : (s.timerList p).jiffies = delta := stores.1
    have isFn : (s.timerList p).fn = some fn := stores.2
    set list := update s.timerList p { s.timerList p with jiffies := (s.timerList p).jiffies - 1 } with isList
    have counted : s.doTimer = { s with ticks := s.ticks + 1, timerList := list }.callDue := by
      rw [State.doTimer]
      simp only [isHead, isList]
    have self : list p = { s.timerList p with jiffies := delta - 1 } := by
      rw [isList, update_self, isDelta]
    have others (q : Slot) (differ : q ≠ p) : list q = s.timerList q := update_of_ne differ ..
    have behind (q : Slot) (member : q ∈ slots) : q ≠ p := fun same => notBehind (same ▸ member)
    rw [counted, State.callDue]
    simp only [isHead]
    rw [self]
    by_cases isDue : delta - 1 ≤ 0
    · -- the function is called, and what is left of the list comes later
      rw [if_pos isDue]
      have isOne : delta = 1 := by omega
      have kept (q : Slot) (differ : q ≠ p) (entry : TimerList φ) :
          update list p entry q = s.timerList q :=
        (update_of_ne differ ..).trans (others q differ)
      refine ⟨slots, rest, ⟨?_, nodup, ?_, fun q outside => ?_, positive.2⟩,
        .onward [(s.ticks + 1, fn)] trivial ?_ rfl ?_ ?_ ?_⟩
      · exact linked.congr fun q member => congrArg TimerList.next (kept q (behind q member) _)
      · exact stores_congr stored fun q member => kept q (behind q member) _
      · by_cases same : q = p
        · show (update list p _ q).fn = none
          rw [same, update_self]
        · show (update list p _ q).fn = none
          rw [kept q same]
          refine pending.free q fun member => ?_
          rcases mem_cons.mp member with isSelf | inRest
          · exact same isSelf
          · exact outside inRest
      · show s.ticks ≤ s.ticks + 1
        omega
      · show s.called ++ (s.timerList p).fn.toList.map (fun fn => (s.ticks + 1, fn)) = _
        rw [isFn]
        rfl
      · intro call member
        rw [mem_singleton] at member
        rw [member]
      · rw [isOne, times_cons]
        rfl
    · rw [if_neg isDue]
      have linked' : Follows (fun q => (list q).next) (list p).next slots := by
        rw [self]
        exact linked.congr fun q member => by rw [others q (behind q member)]
      have stores' : Stores list p (delta - 1, fn) := by
        rw [Stores, self]
        exact ⟨rfl, isFn⟩
      have stored' := stores_congr stored fun q member => others q (behind q member)
      refine ⟨p :: slots, (delta - 1, fn) :: rest, ⟨⟨rfl, linked'⟩, pending.nodup, .cons stores' stored',
        fun q outside => ?_, ?_⟩, .onward [] trivial ?_ rfl (append_nil _).symm
          (fun _ member => absurd member not_mem_nil) ?_⟩
      · have differ : q ≠ p := fun same => outside (same ▸ mem_cons_self)
        show (list q).fn = none
        rw [others q differ]
        exact pending.free q outside
      · rw [forall_mem_cons]
        exact ⟨Int.not_le.mp isDue, positive.2⟩
      · show s.ticks ≤ s.ticks + 1
        omega
      · exact times_tick s.ticks delta fn rest

theorem Pending.step (pending : s.Pending slots timers) (moved : s.step m = some s') :
    ∃ slots' timers', s'.Pending slots' timers' ∧ s.Changed timers s' timers' m := by
  have unchanged {s' : State φ} (list : s'.timerList = s.timerList) (head : s'.nextTimer = s.nextTimer)
      (ticks : s'.ticks = s.ticks) (requested : s'.requested = s.requested) (called : s'.called = s.called)
      (inTurn : s.InTurn m) : ∃ slots' timers', s'.Pending slots' timers' ∧ s.Changed timers s' timers' m := by
    refine ⟨slots, timers, ⟨?_, pending.nodup, ?_, ?_, pending.positive⟩, .onward [] inTurn ticks.ge
      requested (by rw [called, append_nil]) (fun _ member => absurd member not_mem_nil) (by rw [ticks]; rfl)⟩
    · rw [list, head]
      exact pending.linked
    · rw [list]
      exact pending.stored
    · rw [list]
      exact pending.free
  cases m with
  | addTimer jiffies fn =>
    cases fn with
    | none =>
      cases moved
      exact unchanged rfl rfl rfl rfl rfl trivial
    | some fn => exact pending.addTimer moved
  | doTimer =>
    simp only [State.step, Option.ite_none_left_eq_some, Option.some.injEq] at moved
    obtain ⟨-, rfl⟩ := moved
    exact pending.doTimer
  | goOn =>
    simp only [State.step, Option.ite_none_right_eq_some, Option.some.injEq, pending.callDue] at moved
    obtain ⟨-, rfl⟩ := moved
    exact unchanged rfl rfl rfl rfl rfl trivial

/-! ## Punctual and late runs -/

structure Punctual (s : State φ) (timers : List (Int × φ)) : Prop where
  ordered : s.called.Pairwise fun call call' => call.1 ≤ call'.1
  past : ∀ call ∈ s.called, call.1 ≤ s.ticks
  all : (s.called ++ times s.ticks timers).Perm s.requested

structure Late (s : State φ) (timers : List (Int × φ)) : Prop where
  all : (s.called ++ times s.ticks timers).length = s.requested.length
  late : total s.requested < total (s.called ++ times s.ticks timers)

theorem Punctual.init : (init : State φ).Punctual [] := ⟨.nil, fun _ member => absurd member not_mem_nil, .nil⟩

theorem Punctual.call {s s' : State φ} (punctual : s.Punctual timers) {calls : List (Int × φ)}
    (ticks : s.ticks ≤ s'.ticks) (called : s'.called = s.called ++ calls)
    (onTick : ∀ call ∈ calls, call.1 = s'.ticks) :
    (s'.called.Pairwise fun call call' => call.1 ≤ call'.1) ∧ ∀ call ∈ s'.called, call.1 ≤ s'.ticks := by
  have past (call : Int × φ) (member : call ∈ s.called) : call.1 ≤ s'.ticks := (punctual.past call member).trans ticks
  have new : calls.Pairwise fun call call' => call.1 ≤ call'.1 :=
    pairwise_of_forall_mem_list fun call member call' member' => by
      rw [onTick call member, onTick call' member']
  rw [called]
  refine ⟨pairwise_append.mpr ⟨punctual.ordered, new, fun call member call' member' => ?_⟩, fun call member => ?_⟩
  · rw [onTick call' member']
    exact past call member
  · rcases mem_append.mp member with before | now
    · exact past call before
    · exact (onTick call now).le

theorem Punctual.changed (punctual : s.Punctual timers) (inTurn : s.InTurn m)
    (changed : s.Changed timers s' timers' m) : s'.Punctual timers' := by
  cases changed with
  | @atOnce jiffies fn passed ticks requested called =>
    have onTick (call : Int × φ) (member : call ∈ [(s.ticks, fn)]) : call.1 = s'.ticks := by
      rw [mem_singleton] at member
      rw [member, ticks]
    obtain ⟨ordered, past⟩ := punctual.call ticks.ge called onTick
    refine ⟨ordered, past, ?_⟩
    rw [called, requested, ticks, append_assoc]
    exact ((perm_append_comm).append_left _).trans (by rw [← append_assoc]; exact punctual.all.append_right _)
  | @later jiffies fn isPositive ticks requested called =>
    refine ⟨by rw [called]; exact punctual.ordered, by rw [called, ticks]; exact punctual.past, ?_⟩
    have latest (e : Int × φ) (member : e ∈ times s.ticks timers) : e.1 < s.ticks + jiffies :=
      inTurn isPositive e (punctual.all.subset (mem_append_right _ member))
    rw [called, requested, ticks, times_putIn_of_latest latest, ← append_assoc]
    exact punctual.all.append_right _
  | onward calls _ ticks requested called onTick same =>
    obtain ⟨ordered, past⟩ := punctual.call ticks called onTick
    refine ⟨ordered, past, ?_⟩
    rw [called, requested, append_assoc, same]
    exact punctual.all

theorem Late.changed (late : s.Late timers) (changed : s.Changed timers s' timers' m) : s'.Late timers' := by
  obtain ⟨all, late⟩ := late
  rw [length_append, length_times] at all
  rw [total_append] at late
  cases changed with
  | @atOnce jiffies fn passed ticks requested called =>
    constructor
    · simp only [called, requested, length_append, length_times, length_singleton]
      omega
    · simp only [called, requested, ticks, total_append, total_cons, total_nil]
      omega
  | @later jiffies fn isPositive ticks requested called =>
    constructor
    · simp only [called, requested, length_append, length_times, length_putIn, length_singleton]
      omega
    · have more := delay_nonneg isPositive timers
      simp only [called, requested, ticks, total_append, total_cons, total_nil, total_times_putIn]
      omega
  | onward calls _ ticks requested called onTick same =>
    constructor
    · rw [called, requested, append_assoc, same, length_append, length_times]
      exact all
    · rw [called, requested, append_assoc, same, total_append]
      exact late

theorem Punctual.broken (punctual : s.Punctual timers) (outOfTurn : ¬s.InTurn m)
    (changed : s.Changed timers s' timers' m) : s'.Late timers' := by
  cases changed with
  | atOnce passed => exact absurd (fun isPositive => absurd passed (Int.not_le.mpr isPositive)) outOfTurn
  | @later jiffies fn isPositive ticks requested called =>
    have notLatest : ∃ e ∈ times s.ticks timers, s.ticks + jiffies ≤ e.1 := by
      simp only [InTurn, not_forall, Int.not_lt, exists_prop] at outOfTurn
      obtain ⟨-, request, asked, notBefore⟩ := outOfTurn
      rcases mem_append.mp (punctual.all.mem_iff.mpr asked) with called | pending
      · have past := punctual.past request called
        omega
      · exact ⟨request, pending, notBefore⟩
    have more := delay_pos isPositive notLatest
    have same := total_perm punctual.all
    have length := punctual.all.length_eq
    rw [length_append, length_times] at length
    rw [total_append] at same
    constructor
    · simp only [called, requested, length_append, length_times, length_putIn, length_singleton]
      omega
    · simp only [called, requested, ticks, total_append, total_cons, total_nil, total_times_putIn]
      omega
  | onward _ inTurn => exact absurd inTurn outOfTurn

theorem Punctual.onTime (pending : s.Pending slots timers) (punctual : s.Punctual timers) : s.OnTime where
  ordered := punctual.ordered
  asked := (sublist_append_left _ _).subperm.trans punctual.all.subperm
  due _ := by
    have made : s.called.filter (fun call => call.1 ≤ s.ticks) = s.called :=
      filter_eq_self.mpr fun call member => decide_eq_true (punctual.past call member)
    have toCome : (times s.ticks timers).filter (fun call => call.1 ≤ s.ticks) = [] := by
      refine filter_eq_nil_iff.mpr fun call member => ?_
      have later := times_later pending.positive call member
      simpa using later
    have same := punctual.all.filter fun call => decide (call.1 ≤ s.ticks)
    rwa [filter_append, made, toCome, append_nil] at same

theorem Late.not_onTime (pending : s.Pending slots timers) (late : s.Late timers) (ended : s.nextTimer = none) :
    ¬s.OnTime := by
  intro onTime
  have noSlots : slots = [] := by
    cases slots with
    | nil => rfl
    | cons p slots => exact absurd (ended.symm.trans pending.linked.1) nofun
  subst noSlots
  cases pending.stored
  obtain ⟨all, late⟩ := late
  rw [times_nil, append_nil] at all late
  have same := total_perm (onTime.asked.perm_of_length_le all.ge)
  omega

def Prompt (s : State φ) : Prop := ∃ slots timers, s.Pending slots timers ∧ s.Punctual timers
def Overdue (s : State φ) : Prop := ∃ slots timers, s.Pending slots timers ∧ s.Late timers

theorem Prompt.step (prompt : s.Prompt) (inTurn : s.InTurn m) (moved : s.step m = some s') : s'.Prompt := by
  obtain ⟨slots, timers, pending, punctual⟩ := prompt
  obtain ⟨slots', timers', pending', changed⟩ := pending.step moved
  exact ⟨slots', timers', pending', punctual.changed inTurn changed⟩

theorem Prompt.broken (prompt : s.Prompt) (outOfTurn : ¬s.InTurn m) (moved : s.step m = some s') : s'.Overdue := by
  obtain ⟨slots, timers, pending, punctual⟩ := prompt
  obtain ⟨slots', timers', pending', changed⟩ := pending.step moved
  exact ⟨slots', timers', pending', punctual.broken outOfTurn changed⟩

theorem Overdue.step (overdue : s.Overdue) (moved : s.step m = some s') : s'.Overdue := by
  obtain ⟨slots, timers, pending, late⟩ := overdue
  obtain ⟨slots', timers', pending', changed⟩ := pending.step moved
  exact ⟨slots', timers', pending', late.changed changed⟩

/-- The functions are called on time while every timer is added behind all others. One
that is not makes others late, which shows when all of them have been called. -/
theorem onTime_iff_inTurn {moves : List (Move φ)} (ran : run State.step State.init moves = some s) :
    (Throughout State.step InTurn State.init moves → s.OnTime) ∧
      (s.nextTimer = none → s.OnTime → Throughout State.step InTurn State.init moves) := by
  rcases good_or_bad (fun prompt inTurn moved => Prompt.step prompt inTurn moved)
    (fun prompt outOfTurn moved => Prompt.broken prompt outOfTurn moved)
    (fun overdue moved => Overdue.step overdue moved) ⟨[], [], Pending.init, Punctual.init⟩ ran
    with ⟨inTurn, slots, timers, pending, punctual⟩ | ⟨outOfTurn, slots, timers, pending, late⟩
  · exact ⟨fun _ => punctual.onTime pending, fun _ _ => inTurn⟩
  · exact ⟨fun inTurn => absurd inTurn outOfTurn, fun ended onTime => absurd onTime (late.not_onTime pending ended)⟩

theorem onTime_inOrder :
    ∃ s : State Bool, s.called = [(1, true), (3, false)] ∧
      (Throughout State.step InTurn State.init
        [.addTimer 1 (some true), .addTimer 3 (some false), .doTimer, .goOn, .doTimer, .doTimer] → s.OnTime) ∧
      (s.nextTimer = none → s.OnTime → Throughout State.step InTurn State.init
        [.addTimer 1 (some true), .addTimer 3 (some false), .doTimer, .goOn, .doTimer, .doTimer]) := by
  obtain ⟨s, ran, called⟩ := exists_of_run State.step (State.init : State Bool)
    [.addTimer 1 (some true), .addTimer 3 (some false), .doTimer, .goOn, .doTimer, .doTimer]
    (fun s => s.called = [(1, true), (3, false)]) (by decide +kernel)
  exact ⟨s, called, onTime_iff_inTurn ran⟩

/-- A timer for the second tick, and then one for the first: on the second tick nothing is called. -/
theorem secondTimer_late :
    ∃ s : State Bool, run State.step State.init
      [.addTimer 2 (some false), .addTimer 1 (some true), .doTimer, .goOn, .doTimer] = some s ∧ ¬s.OnTime := by
  refine exists_run (fun s => s.running = false ∧ s.called = [(1, true)] ∧
    s.requested = [(2, false), (1, true)] ∧ s.ticks = 2) (by decide +kernel)
    fun s ran ⟨idle, called, requested, ticks⟩ onTime => ?_
  have length := (onTime.due idle).length_eq
  rw [called, requested, ticks] at length
  exact absurd length (by decide)

end State

end Linux012.Kernel.Timer

import Mathlib.Algebra.Group.Fin.Basic
import Mathlib.Tactic.Abel

/-! Ring buffers with indices that wrap around. One place stays free, so that a full ring
differs from an empty one; nothing stops a caller that stores to a full ring. -/

set_option autoImplicit false

namespace RingBuffer

open Function List

structure Ring (α : Type*) (n : Nat) where
  buf : Fin n → α
  head : Fin n
  tail : Fin n

variable {α : Type*} {n : Nat} [NeZero n]

namespace Ring

def chars (q : Ring α n) : Nat := (q.head - q.tail).val

def left (q : Ring α n) : Nat := (q.tail - q.head - 1).val

def empty (q : Ring α n) : Bool := q.head = q.tail

def full (q : Ring α n) : Bool := q.left = 0

def last (q : Ring α n) : α := q.buf (q.head - 1)

def put (c : α) (q : Ring α n) : Ring α n :=
  { q with buf := update q.buf q.head c, head := q.head + 1 }

def get (q : Ring α n) : Ring α n := { q with tail := q.tail + 1 }

def back (q : Ring α n) : Ring α n := { q with head := q.head - 1 }

def flush (q : Ring α n) : Ring α n := { q with head := q.tail }

def from_ (buf : Fin n → α) : Nat → Fin n → List α
  | 0, _ => []
  | k + 1, i => buf i :: from_ buf k (i + 1)

def contents (q : Ring α n) : List α := from_ q.buf q.chars q.tail

variable {q : Ring α n}

theorem length_from (buf : Fin n → α) (k : Nat) (i : Fin n) : (from_ buf k i).length = k := by
  induction k generalizing i with
  | zero => rfl
  | succ k ih => rw [from_, length_cons, ih]

@[simp] theorem length_contents : q.contents.length = q.chars := length_from _ _ _

omit [NeZero n] in
theorem chars_lt : q.chars < n := (q.head - q.tail).isLt

theorem val_succ {i : Fin n} (below : i.val + 1 < n) : (i + 1).val = i.val + 1 := by
  rw [Fin.val_add, Fin.val_one', Nat.add_mod_mod]
  exact Nat.mod_eq_of_lt below

theorem val_pred {i : Fin n} (positive : i.val ≠ 0) : (i - 1).val + 1 = i.val := by
  have some_ : i ≠ 0 := fun same => positive (congrArg Fin.val same)
  have less := Fin.val_sub_one_of_ne_zero some_
  omega

theorem left_eq : q.left = n - 1 - q.chars := by
  have opposite : q.tail - q.head - 1 = -(q.head - q.tail + 1) := by abel
  have positive : 0 < n := Nat.pos_of_ne_zero (NeZero.ne n)
  have small := q.chars_lt
  rw [left, opposite, Fin.val_neg']
  unfold chars at small ⊢
  by_cases below : (q.head - q.tail).val + 1 < n
  · rw [val_succ below, Nat.mod_eq_of_lt (by omega)]
    omega
  · have wraps : (q.head - q.tail + 1).val = 0 := by
      have whole : (q.head - q.tail).val + 1 = n := by omega
      rw [Fin.val_add, Fin.val_one', Nat.add_mod_mod, whole, Nat.mod_self]
    rw [wraps, Nat.sub_zero, Nat.mod_self]
    omega

theorem full_iff : q.full = true ↔ q.chars = n - 1 := by
  have small := q.chars_lt
  rw [full, decide_eq_true_eq, left_eq]
  omega

theorem empty_iff : q.empty = true ↔ q.contents = [] := by
  rw [empty, decide_eq_true_eq, ← length_eq_zero_iff, length_contents, chars, ← sub_eq_zero]
  exact Fin.val_eq_zero_iff.symm

theorem from_update {buf : Fin n → α} {k : Nat} {i j : Fin n} (c : α) (beyond : k ≤ (j - i).val) :
    from_ (update buf j c) k i = from_ buf k i := by
  induction k generalizing i with
  | zero => rfl
  | succ k ih =>
    have differ : i ≠ j := by
      rintro rfl
      rw [sub_self] at beyond
      exact absurd beyond (Nat.not_succ_le_zero _)
    have behind : (j - (i + 1)).val + 1 = (j - i).val := by
      rw [← sub_sub]
      exact val_pred (by omega)
    rw [from_, from_, update_of_ne differ, ih (by omega)]

theorem from_snoc {buf : Fin n → α} {k : Nat} {i j : Fin n} (behind : (j - i).val = k) :
    from_ buf (k + 1) i = from_ buf k i ++ [buf j] := by
  induction k generalizing i with
  | zero =>
    have same : i = j := by
      have zero : j - i = 0 := Fin.val_eq_zero_iff.mp behind
      exact (sub_eq_zero.mp zero).symm
    rw [same]
    rfl
  | succ k ih =>
    have next : (j - (i + 1)).val + 1 = (j - i).val := by
      rw [← sub_sub]
      exact val_pred (by omega)
    rw [from_, ih (by omega), from_, cons_append]

variable {c : α}

theorem contents_put (room : q.full = false) : (q.put c).contents = q.contents ++ [c] := by
  have small := q.chars_lt
  have notFull : q.chars ≠ n - 1 := fun many => by
    rw [full_iff.mpr many] at room
    cases room
  have same : q.head + 1 - q.tail = q.head - q.tail + 1 := by abel
  have chars : (q.put c).chars = q.chars + 1 := by
    unfold chars at small notFull ⊢
    show (q.head + 1 - q.tail).val = _
    rw [same]
    exact val_succ (by omega)
  rw [contents, chars]
  show from_ (update q.buf q.head c) (q.chars + 1) q.tail = _
  have snoc := @from_snoc _ _ _ (update q.buf q.head c) q.chars q.tail q.head rfl
  have kept : from_ (update q.buf q.head c) q.chars q.tail = q.contents := from_update c (Nat.le_refl _)
  rw [snoc, kept, update_self]

theorem contents_get (some_ : q.empty = false) : q.contents = q.buf q.tail :: q.get.contents := by
  have positive : (q.head - q.tail).val ≠ 0 := fun zero => by
    have same : q.head = q.tail := sub_eq_zero.mp (Fin.val_eq_zero_iff.mp zero)
    rw [empty, same] at some_
    simp at some_
  have less : q.chars = q.get.chars + 1 := by
    show (q.head - q.tail).val = (q.head - (q.tail + 1)).val + 1
    rw [← sub_sub]
    exact (val_pred positive).symm
  rw [contents, less]
  rfl

theorem contents_back (some_ : q.empty = false) : q.contents = q.back.contents ++ [q.last] := by
  have positive : (q.head - q.tail).val ≠ 0 := fun zero => by
    have same : q.head = q.tail := sub_eq_zero.mp (Fin.val_eq_zero_iff.mp zero)
    rw [empty, same] at some_
    simp at some_
  have swap : q.head - 1 - q.tail = q.head - q.tail - 1 := by abel
  have less : q.chars = q.back.chars + 1 := by
    show (q.head - q.tail).val = (q.head - 1 - q.tail).val + 1
    rw [swap]
    exact (val_pred positive).symm
  rw [contents, less]
  exact from_snoc rfl

theorem chars_put (room : q.full = false) : (q.put c).chars = q.chars + 1 := by
  rw [← length_contents, contents_put room, length_append, length_contents, length_singleton]

theorem chars_put_full (full : q.full = true) : (q.put c).chars = 0 := by
  rw [Ring.full, decide_eq_true_eq, left, Fin.val_eq_zero_iff] at full
  have same : q.head + 1 - q.tail = -(q.tail - q.head - 1) := by abel
  show (q.head + 1 - q.tail).val = 0
  rw [same, full, neg_zero, Fin.val_zero]

theorem contents_put_full (full : q.full = true) : (q.put c).contents = [] := by
  rw [contents, chars_put_full full]
  rfl

theorem chars_back (some_ : q.empty = false) : q.back.chars + 1 = q.chars := by
  have contents := congrArg List.length (contents_back some_)
  rw [length_append, length_contents, length_contents, length_singleton] at contents
  exact contents.symm

theorem chars_back_empty (empty : q.empty = true) : q.back.chars = n - 1 := by
  rw [Ring.empty, decide_eq_true_eq] at empty
  have same : q.tail - (q.tail - 1) - 1 = 0 := by abel
  rw [← full_iff, full, decide_eq_true_eq]
  show (q.tail - (q.head - 1) - 1).val = 0
  rw [empty, same, Fin.val_zero]

theorem mem_contents_put {d : α} (member : d ∈ (q.put c).contents) : d ∈ q.contents ∨ d = c := by
  by_cases room : q.full = true
  · rw [contents_put_full room] at member
    cases member
  · rw [contents_put (Bool.eq_false_of_not_eq_true room), mem_append, mem_singleton] at member
    exact member

theorem sum_contents_put_le (f : α → Nat) : ((q.put c).contents.map f).sum ≤ (q.contents.map f).sum + f c := by
  by_cases room : q.full = true
  · rw [contents_put_full room]
    exact Nat.zero_le _
  · rw [contents_put (Bool.eq_false_of_not_eq_true room)]
    simp

theorem contents_flush : q.flush.contents = [] := by
  have none : q.flush.chars = 0 := by
    show (q.tail - q.tail).val = 0
    rw [sub_self]
    rfl
  rw [contents, none]
  rfl

/-- The elements are stored from the head on; the head only moves to their end when
there is room for all of them. -/
def storeFrom (tail : Fin n) : List α → (Fin n → α) → Fin n → (Fin n → α) × Option (Fin n)
  | [], buf, place => (buf, some place)
  | c :: rest, buf, place =>
    let buf := update buf place c
    if place + 1 = tail then (buf, none) else storeFrom tail rest buf (place + 1)

def offer (cs : List α) (q : Ring α n) : Ring α n :=
  match storeFrom q.tail cs q.buf q.head with
  | (buf, some head) => { q with buf := buf, head := head }
  | (buf, none) => { q with buf := buf }

section Offer

variable {tail : Fin n}

theorem from_take {buf : Fin n → α} {k : Nat} {i : Fin n} : (from_ buf (k + 1) i).take k = from_ buf k i := by
  induction k generalizing i with
  | zero => rfl
  | succ k ih => rw [from_, take_succ_cons, ih, from_]

theorem storeFrom_keeps (cs : List α) (buf : Fin n → α) {place : Fin n} {k : Nat}
    (behind : (place - tail).val = k) :
    from_ (storeFrom tail cs buf place).1 k tail = from_ buf k tail ∧
      ∀ head, (storeFrom tail cs buf place).2 = some head →
        from_ (storeFrom tail cs buf place).1 (head - tail).val tail = from_ buf k tail ++ cs := by
  induction cs generalizing buf place k with
  | nil =>
    refine ⟨rfl, ?_⟩
    rintro head ⟨⟩
    rw [storeFrom, behind, append_nil]
  | cons c rest ih =>
    have kept : from_ (update buf place c) k tail = from_ buf k tail := from_update c (Nat.le_of_eq behind.symm)
    by_cases wraps : place + 1 = tail
    · simp only [storeFrom, wraps, ite_true]
      exact ⟨kept, by simp⟩
    · simp only [storeFrom, wraps, ite_false]
      have more : (place + 1 - tail).val = k + 1 := by
        have apart : place - tail + 1 ≠ 0 := by
          intro zero
          refine wraps (sub_eq_zero.mp ?_)
          rw [← zero]
          abel
        have swap : place + 1 - tail = place - tail + 1 := by abel
        have small := (place - tail).isLt
        rw [swap, val_succ, behind]
        by_contra last
        refine apart (Fin.val_eq_zero_iff.mp ?_)
        have whole : (place - tail).val + 1 = n := by omega
        rw [Fin.val_add, Fin.val_one', Nat.add_mod_mod, whole, Nat.mod_self]
      have snoc : from_ (update buf place c) (k + 1) tail = from_ buf k tail ++ [c] := by
        rw [@from_snoc _ _ _ (update buf place c) k tail place behind, kept, update_self]
      obtain ⟨same, stored⟩ := ih (update buf place c) more
      refine ⟨?_, fun head found => ?_⟩
      · rw [← from_take, same, snoc]
        have length := length_from buf k tail
        rw [take_append_of_le_length (Nat.le_of_eq length.symm), take_of_length_le (Nat.le_of_eq length)]
      · rw [stored head found, snoc, append_assoc]
        rfl

theorem contents_offer {cs : List α} :
    (q.offer cs).contents = q.contents ++ cs ∨ (q.offer cs).contents = q.contents := by
  have kept := storeFrom_keeps cs q.buf (show (q.head - q.tail).val = q.chars from rfl)
  rw [offer]
  split
  next buf head result =>
    rw [result] at kept
    exact .inl (kept.2 head rfl)
  next buf result =>
    rw [result] at kept
    exact .inr kept.1

end Offer

end Ring

structure Watched (α : Type*) (n : Nat) where
  ring : Ring α n
  overruns : Nat

namespace Watched

def contents (q : Watched α n) : List α := q.ring.contents

def put (c : α) (q : Watched α n) : Watched α n where
  ring := q.ring.put c
  overruns := if q.ring.full then q.overruns + 1 else q.overruns

def putAll (cs : List α) (q : Watched α n) : Watched α n := cs.foldl (fun q c => q.put c) q

def get (q : Watched α n) : Watched α n := { q with ring := q.ring.get }
def back (q : Watched α n) : Watched α n := { q with ring := q.ring.back }
def flush (q : Watched α n) : Watched α n := { q with ring := q.ring.flush }
def offer (cs : List α) (q : Watched α n) : Watched α n := { q with ring := q.ring.offer cs }

variable {q : Watched α n}

theorem overruns_put_iff {c : α} : (q.put c).overruns = q.overruns ↔ q.ring.full = false := by
  rw [put]
  by_cases full : q.ring.full = true
  · simp [full]
  · simp [full]

theorem overruns_le_put {c : α} : q.overruns ≤ (q.put c).overruns := by
  rw [put]
  dsimp only
  split
  · exact Nat.le_succ _
  · exact Nat.le_refl _

theorem overruns_le_putAll (cs : List α) : q.overruns ≤ (q.putAll cs).overruns := by
  induction cs generalizing q with
  | nil => exact Nat.le_refl _
  | cons c rest ih => exact overruns_le_put.trans ih

theorem left_put {c : α} (room : q.ring.full = false) : (q.put c).ring.left + 1 = q.ring.left := by
  have more := congrArg List.length (Ring.contents_put (c := c) room)
  rw [length_append, Ring.length_contents, Ring.length_contents, length_singleton] at more
  have notFull : q.ring.chars ≠ n - 1 := fun many => by
    rw [Ring.full_iff.mpr many] at room
    cases room
  have small := q.ring.chars_lt
  have less : (q.put c).ring.chars = q.ring.chars + 1 := more
  rw [Ring.left_eq, Ring.left_eq, less]
  omega

variable {cs : List α}

theorem mem_contents_putAll {d : α} (member : d ∈ (q.putAll cs).contents) : d ∈ q.contents ∨ d ∈ cs := by
  induction cs generalizing q with
  | nil => exact .inl member
  | cons c rest ih =>
    rcases ih (q := q.put c) member with before | later
    · rcases Ring.mem_contents_put before with old | rfl
      · exact .inl old
      · exact .inr mem_cons_self
    · exact .inr (mem_cons_of_mem _ later)

theorem sum_contents_putAll_le (f : α → Nat) (cs : List α) :
    ((q.putAll cs).contents.map f).sum ≤ (q.contents.map f).sum + (cs.map f).sum := by
  induction cs generalizing q with
  | nil => exact Nat.le_refl _
  | cons c rest ih =>
    have first : ((q.put c).contents.map f).sum ≤ (q.contents.map f).sum + f c := Ring.sum_contents_put_le f
    have later : ((q.putAll (c :: rest)).contents.map f).sum ≤ _ := ih (q := q.put c)
    rw [map_cons, sum_cons]
    omega

theorem overruns_putAll_iff : (q.putAll cs).overruns = q.overruns ↔ cs.length ≤ q.ring.left := by
  induction cs generalizing q with
  | nil => exact iff_of_true rfl (Nat.zero_le _)
  | cons c rest ih =>
    have later := overruns_le_putAll (q := q.put c) rest
    have first := overruns_le_put (q := q) (c := c)
    show ((q.put c).putAll rest).overruns = q.overruns ↔ rest.length + 1 ≤ q.ring.left
    by_cases room : q.ring.full = false
    · have same : (q.put c).overruns = q.overruns := overruns_put_iff.mpr room
      have less := left_put room (c := c)
      rw [← same, ih]
      omega
    · have full : q.ring.left = 0 := by simpa [Ring.full] using room
      have differ : (q.put c).overruns ≠ q.overruns := fun same => room (overruns_put_iff.mp same)
      omega

theorem contents_putAll (room : cs.length ≤ q.ring.left) : (q.putAll cs).contents = q.contents ++ cs := by
  induction cs generalizing q with
  | nil => exact (append_nil _).symm
  | cons c rest ih =>
    have notFull : q.ring.full = false := by
      rw [Ring.full, decide_eq_false_iff_not]
      rw [length_cons] at room
      omega
    have less := left_put notFull (c := c)
    have later := ih (q := q.put c) (by rw [length_cons] at room; omega)
    show ((q.put c).putAll rest).contents = _
    rw [later]
    show (q.ring.put c).contents ++ rest = _
    rw [Ring.contents_put notFull, append_assoc]
    rfl

end Watched

end RingBuffer

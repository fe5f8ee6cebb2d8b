import Mathlib.Data.Nat.Init
import Mathlib.Logic.Function.Basic

/-! A bitmap kept in words of one width, and the search for its first clear bit. -/

set_option autoImplicit false

namespace BitWords

open Function

variable {w : Nat}

abbrev Words (w : Nat) := Nat → BitVec w

def bit (words : Words w) (n : Nat) : Bool := (words (n / w)).getLsbD (n % w)

def setBit (words : Words w) (n : Nat) : Words w :=
  update words (n / w) (words (n / w) ||| BitVec.twoPow w (n % w))

def clearBit (words : Words w) (n : Nat) : Words w :=
  update words (n / w) (words (n / w) &&& ~~~BitVec.twoPow w (n % w))

def lowest (word : BitVec w) : Option Nat := (List.range w).find? fun i => word.getLsbD i

/-- The loop over `more` words from word `next`: the first clear bit, or the number of bits. -/
def firstZero (words : Words w) : (more : Nat) → (next : Nat) → Nat
  | 0, next => w * next
  | more + 1, next =>
    match lowest (~~~words next) with
    | some i => w * next + i
    | none => firstZero words more (next + 1)

theorem same_place {n k : Nat} (word : k / w = n / w) : k % w = n % w ↔ k = n := by
  constructor
  · intro place
    rw [← Nat.div_add_mod k w, ← Nat.div_add_mod n w, word, place]
  · rintro rfl
    rfl

@[simp] theorem bit_setBit (positive : 0 < w) (words : Words w) (n k : Nat) :
    bit (setBit words n) k = (decide (k = n) || bit words k) := by
  have inside : n % w < w := Nat.mod_lt n positive
  by_cases word : k / w = n / w
  · have place := same_place word
    simp only [bit, setBit, word, update_self, BitVec.getLsbD_or, BitVec.getLsbD_twoPow, inside,
      decide_true, Bool.true_and, eq_comm (a := n % w), place, Bool.or_comm]
  · have other : k ≠ n := fun same => word (same ▸ rfl)
    simp [bit, setBit, update_of_ne word, other]

@[simp] theorem bit_clearBit (positive : 0 < w) (words : Words w) (n k : Nat) :
    bit (clearBit words n) k = (!decide (k = n) && bit words k) := by
  have inside : n % w < w := Nat.mod_lt n positive
  by_cases word : k / w = n / w
  · have place := same_place word
    have inside' : k % w < w := Nat.mod_lt k positive
    simp only [bit, clearBit, word, update_self, BitVec.getLsbD_and, BitVec.getLsbD_not,
      BitVec.getLsbD_twoPow, inside, inside', decide_true, Bool.true_and, eq_comm (a := n % w), place, Bool.and_comm]
  · have other : k ≠ n := fun same => word (same ▸ rfl)
    simp [bit, clearBit, update_of_ne word, other]

theorem lowest_eq_some {word : BitVec w} {i : Nat} (found : lowest word = some i) :
    i < w ∧ word.getLsbD i = true ∧ ∀ j < i, word.getLsbD j = false := by
  obtain ⟨isSet, inside, below⟩ := List.find?_range_eq_some.mp found
  exact ⟨List.mem_range.mp inside, isSet, fun j earlier => by simpa using below j earlier⟩

theorem lowest_eq_none {word : BitVec w} (nothing : lowest word = none) {i : Nat} (inside : i < w) :
    word.getLsbD i = false := by
  simpa using List.find?_range_eq_none.mp nothing i inside

theorem bit_of_word (positive : 0 < w) (words : Words w) (next : Nat) {i : Nat} (inside : i < w) :
    bit words (w * next + i) = (words next).getLsbD i := by
  rw [bit, Nat.mul_add_div positive, Nat.div_eq_of_lt inside, Nat.mul_add_mod_self_left,
    Nat.mod_eq_of_lt inside, Nat.add_zero]

theorem place_of_le {next k : Nat} (after : w * next ≤ k) :
    (∃ i < w, k = w * next + i) ∨ w * (next + 1) ≤ k := by
  rw [Nat.mul_succ]
  by_cases inside : k - w * next < w
  · exact .inl ⟨k - w * next, inside, by omega⟩
  · exact .inr (by omega)

theorem bit_of_lt_firstZero (positive : 0 < w) {words : Words w} {more next k : Nat} (after : w * next ≤ k)
    (before : k < firstZero words more next) : bit words k = true := by
  induction more generalizing next with
  | zero =>
    rw [firstZero] at before
    omega
  | succ more ih =>
    rw [firstZero] at before
    split at before
    · next i found =>
      obtain ⟨inside, -, below⟩ := lowest_eq_some found
      have clear := below (k - w * next) (by omega)
      rw [BitVec.getLsbD_not, decide_eq_true (by omega), Bool.true_and, Bool.not_eq_false'] at clear
      have place := bit_of_word positive words next (i := k - w * next) (by omega)
      rw [← clear, ← place, Nat.add_sub_of_le after]
    · next nothing =>
      rcases place_of_le after with ⟨i, inside, rfl⟩ | later
      · have clear := lowest_eq_none nothing inside
        rw [BitVec.getLsbD_not, decide_eq_true inside, Bool.true_and, Bool.not_eq_false'] at clear
        rw [bit_of_word positive words _ inside, clear]
      · exact ih later before

theorem bit_firstZero (positive : 0 < w) {words : Words w} {more next : Nat}
    (found : firstZero words more next < w * (next + more)) :
    bit words (firstZero words more next) = false := by
  induction more generalizing next with
  | zero =>
    rw [firstZero] at found
    exact absurd found (Nat.lt_irrefl _)
  | succ more ih =>
    rw [firstZero] at found ⊢
    split
    · next i isLowest =>
      obtain ⟨inside, isSet, -⟩ := lowest_eq_some isLowest
      rw [BitVec.getLsbD_not, decide_eq_true inside, Bool.true_and, Bool.not_eq_true'] at isSet
      rw [bit_of_word positive words _ inside, isSet]
    · next nothing =>
      rw [nothing] at found
      exact ih (by rwa [Nat.add_assoc, Nat.add_comm 1 more])

end BitWords

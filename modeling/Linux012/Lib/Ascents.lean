import Mathlib.Order.Lattice
import Mathlib.Tactic.Common

/-! Lists that ascend, but for some turns, and an insertion that goes for the first place
where the new value fits between its neighbours. -/

set_option autoImplicit false

namespace Ascents

variable {κ : Type*} [LinearOrder κ]

def turns : List κ → Nat
  | [] | [_] => 0
  | a :: b :: rest => (if a < b then 0 else 1) + turns (b :: rest)

/-- Behind `t`, `x` is put before the first value that it fits before: inside of an ascent,
or at the foot of a turn. -/
def insertBehind (x : κ) : κ → List κ → List κ
  | _, [] => [x]
  | t, n :: rest => if (t < x ∨ ¬t < n) ∧ x < n then x :: n :: rest else n :: insertBehind x n rest

@[simp] theorem turns_cons_cons (a b : κ) (rest : List κ) :
    turns (a :: b :: rest) = (if a < b then 0 else 1) + turns (b :: rest) := rfl

theorem turns_tail_le (a : κ) (rest : List κ) : turns rest ≤ turns (a :: rest) := by
  cases rest with
  | nil => exact Nat.le_refl _
  | cons b rest =>
    rw [turns_cons_cons]
    omega

variable {rest : List κ}

theorem turns_insert_of_above {x t : κ} (new : x ∉ rest) (above : t < x) :
    turns (t :: insertBehind x t rest) ≤ turns (t :: rest) := by
  induction rest generalizing t with
  | nil => simp [insertBehind, turns, above]
  | cons n rest ih =>
    obtain ⟨notSame, newLater⟩ := not_or.mp (mt List.mem_cons.mpr new)
    unfold insertBehind
    split
    · next fits =>
      rw [turns_cons_cons, turns_cons_cons, turns_cons_cons, if_pos above, if_pos fits.2]
      omega
    · next misses =>
      have larger : n < x := lt_of_le_of_ne (not_lt.mp fun below => misses ⟨.inl above, below⟩) (Ne.symm notSame)
      rw [turns_cons_cons, turns_cons_cons]
      exact Nat.add_le_add_left (ih newLater larger) _

theorem turns_insert_of_below {x t : κ} (few : turns (t :: rest) ≤ 1) (new : x ∉ rest) (below : x < t) :
    turns (t :: insertBehind x t rest) ≤ 1 := by
  induction rest generalizing t with
  | nil => simp [insertBehind, turns, not_lt_of_gt below]
  | cons n rest ih =>
    rw [turns_cons_cons] at few
    obtain ⟨notSame, newLater⟩ := not_or.mp (mt List.mem_cons.mpr new)
    unfold insertBehind
    by_cases next : t < n
    · -- inside of an ascent that starts above `x` there is no place for it
      rw [if_neg fun fits => fits.1.elim (not_lt_of_gt below) fun turn => turn next, turns_cons_cons, if_pos next,
        Nat.zero_add]
      exact ih (by omega) newLater (lt_trans below next)
    · rw [if_neg next] at few
      split
      · next fits =>
        rw [turns_cons_cons, turns_cons_cons, if_neg (not_lt_of_gt below), if_pos fits.2]
        omega
      · next misses =>
        have larger : n < x := lt_of_le_of_ne (not_lt.mp fun low => misses ⟨.inr next, low⟩) (Ne.symm notSame)
        have fewer := turns_insert_of_above newLater larger
        rw [turns_cons_cons, if_neg next]
        omega

theorem turns_insert {x t : κ} (few : turns (t :: rest) ≤ 1) (new : x ∉ t :: rest) :
    turns (t :: insertBehind x t rest) ≤ 1 := by
  obtain ⟨notSame, newLater⟩ := not_or.mp (mt List.mem_cons.mpr new)
  rcases lt_or_gt_of_ne notSame with below | above
  · exact turns_insert_of_below few newLater below
  · exact (turns_insert_of_above newLater above).trans few

end Ascents

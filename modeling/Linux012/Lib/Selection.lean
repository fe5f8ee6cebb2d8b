import Mathlib.Order.Lattice
import Mathlib.Tactic.Common

/-! The search for the greatest value in a list, among the places that have one. -/

set_option autoImplicit false

namespace Selection

variable {ι α : Type*} [LinearOrder α] (value : ι → Option α)

/-- `c` is the greatest value so far, or a bound that a value has to exceed; it is that of `next`. -/
def best : List ι → α → ι → α × ι
  | [], c, next => (c, next)
  | i :: rest, c, next =>
    match value i with
    | some v => if c < v then best rest v i else best rest c next
    | none => best rest c next

variable {value} {places : List ι} {c : α} {next : ι}

theorem le_best : c ≤ (best value places c next).1 := by
  induction places generalizing c next with
  | nil => exact le_rfl
  | cons i rest ih =>
    rw [best]
    cases value i with
    | none => exact ih
    | some v =>
      by_cases greater : c < v
      · simp only [if_pos greater]
        exact greater.le.trans ih
      · simp only [if_neg greater]
        exact ih

theorem value_le_best {i : ι} {v : α} (among : i ∈ places) (has : value i = some v) :
    v ≤ (best value places c next).1 := by
  induction places generalizing c next with
  | nil => cases among
  | cons j rest ih =>
    rw [best]
    cases among with
    | head =>
      rw [has]
      by_cases greater : c < v
      · simp only [if_pos greater]
        exact le_best
      · simp only [if_neg greater]
        exact (not_lt.mp greater).trans le_best
    | tail _ later =>
      cases value j with
      | none => exact ih later
      | some w =>
        by_cases greater : c < w
        · simp only [if_pos greater]
          exact ih later
        · simp only [if_neg greater]
          exact ih later

theorem best_cases (value : ι → Option α) (places : List ι) (c : α) (next : ι) :
    best value places c next = (c, next) ∨
      c < (best value places c next).1 ∧ (best value places c next).2 ∈ places ∧
        value (best value places c next).2 = some (best value places c next).1 := by
  induction places generalizing c next with
  | nil => exact .inl rfl
  | cons i rest ih =>
    rw [best]
    cases has : value i with
    | none => exact (ih c next).imp_right fun ⟨above, among, found⟩ => ⟨above, .tail _ among, found⟩
    | some v =>
      by_cases greater : c < v
      · simp only [if_pos greater]
        rcases ih v i with same | ⟨above, among, found⟩
        · rw [same]
          exact .inr ⟨greater, .head _, has⟩
        · exact .inr ⟨greater.trans above, .tail _ among, found⟩
      · simp only [if_neg greater]
        exact (ih c next).imp_right fun ⟨above, among, found⟩ => ⟨above, .tail _ among, found⟩

end Selection

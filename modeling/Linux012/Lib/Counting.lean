import Mathlib.Algebra.BigOperators.Fin
import Mathlib.Algebra.Order.BigOperators.Group.Finset

/-! Sums over a finite index set while one member of the family changes, and
the number of indices whose value has a property. -/

set_option autoImplicit false

namespace Counting

open Function

section Sums

variable {ι α : Type*} [Fintype ι] [DecidableEq ι]

theorem sum_update (weight : α → Nat) (f : ι → α) (i : ι) (x : α) :
    ∑ j, weight (update f i x j) + weight (f i) = ∑ j, weight (f j) + weight x := by
  have others : ∑ j ∈ Finset.univ.erase i, weight (update f i x j) =
      ∑ j ∈ Finset.univ.erase i, weight (f j) :=
    Finset.sum_congr rfl fun j member => by
      rw [update_of_ne (Finset.ne_of_mem_erase member)]
  have before := Finset.add_sum_erase Finset.univ (fun j => weight (f j)) (Finset.mem_univ i)
  have after := Finset.add_sum_erase Finset.univ (fun j => weight (update f i x j)) (Finset.mem_univ i)
  simp only [update_self] at before after
  omega

variable (P : α → Bool)

def number (f : ι → α) : Nat := ∑ j, (P (f j)).toNat

variable {P}

theorem number_update (f : ι → α) (i : ι) (x : α) :
    number P (update f i x) + (P (f i)).toNat = number P f + (P x).toNat :=
  sum_update (fun x => (P x).toNat) f i x

variable {f : ι → α}

omit [DecidableEq ι] in
theorem number_eq_zero : number P f = 0 ↔ ∀ i, P (f i) = false := by
  simp [number]

omit [DecidableEq ι] in
theorem number_pos {i : ι} (holds : P (f i) = true) : 0 < number P f := by
  rw [Nat.pos_iff_ne_zero, Ne, number_eq_zero]
  intro none
  rw [none i] at holds
  cases holds

theorem eq_of_number_le_one (few : number P f ≤ 1) {i j : ι} (atI : P (f i) = true) (atJ : P (f j) = true) :
    i = j := by
  by_contra distinct
  have members : ({i, j} : Finset ι) ⊆ Finset.univ := Finset.subset_univ _
  have part : ∑ k ∈ {i, j}, (P (f k)).toNat ≤ number P f := Finset.sum_le_sum_of_subset members
  rw [Finset.sum_pair distinct, atI, atJ] at part
  have two : true.toNat + true.toNat = 2 := rfl
  omega

omit [DecidableEq ι] in
theorem number_le_card {κ : Type*} [Fintype κ] [DecidableEq κ] (key : ι → κ)
    (injective : ∀ i j, P (f i) = true → P (f j) = true → key i = key j → i = j) :
    number P f ≤ Fintype.card κ := by
  classical
  have asCard : number P f = (Finset.univ.filter fun i => P (f i) = true).card := by
    rw [Finset.card_filter]
    refine Finset.sum_congr rfl fun i _ => ?_
    cases P (f i) <;> rfl
  rw [asCard]
  refine Finset.card_le_card_of_injOn key (fun i _ => Finset.mem_coe.mpr (Finset.mem_univ _)) ?_
  intro i atI j atJ same
  simp only [Finset.coe_filter, Finset.mem_univ, true_and, Set.mem_ofPred_eq] at atI atJ
  exact injective i j atI atJ same

theorem count_ofFn {α : Type*} [BEq α] [LawfulBEq α] [DecidableEq α] {n : Nat} (f : Fin n → α) (a : α) :
    (List.ofFn f).count a = number (fun x => decide (x = a)) f := by
  induction n with
  | zero => rfl
  | succ n ih =>
    rw [List.ofFn_succ, List.count_cons, ih, number, number, Fin.sum_univ_succ, Nat.add_comm]
    by_cases same : f 0 = a <;> simp [same]

end Sums

end Counting

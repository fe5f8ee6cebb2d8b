import Linux012.Lib.Counting
import Linux012.Lib.Updates

/-! Resources and their holders: resources with at most one holder, each marked as
free or taken, and resources that are shared and counted. -/

set_option autoImplicit false

namespace Ownership

open Counting Updates
open Function (update_self update_of_ne)

section Exclusive

variable {ι κ : Type*}

/-- A resource that can be had is free or has one holder; the others are never free. -/
structure Exclusive (usable free : κ → Bool) (holder : ι → Option κ) : Prop where
  usable_of_free : ∀ r, free r = true → usable r = true
  taken : ∀ i r, holder i = some r → usable r = true ∧ free r = false
  unique : ∀ i j r, holder i = some r → holder j = some r → i = j
  held : ∀ r, usable r = true → free r = false → ∃ i, holder i = some r

variable {usable free : κ → Bool} {holder : ι → Option κ}

theorem Exclusive.free_eq_false_iff (exclusive : Exclusive usable free holder) (r : κ) :
    free r = false ↔ usable r = false ∨ ∃! i, holder i = some r := by
  constructor
  · intro taken
    cases possible : usable r with
    | false => exact .inl rfl
    | true =>
      obtain ⟨i, holds⟩ := exclusive.held r possible taken
      exact .inr ⟨i, holds, fun j also => exclusive.unique j i r also holds⟩
  · rintro (impossible | ⟨i, holds, _⟩)
    · cases isFree : free r with
      | false => rfl
      | true => rw [exclusive.usable_of_free r isFree] at impossible; cases impossible
    · exact (exclusive.taken i r holds).2

variable [DecidableEq ι] [DecidableEq κ]

theorem Exclusive.take (exclusive : Exclusive usable free holder) {i : ι} {r : κ} (isFree : free r = true)
    (idle : holder i = none) :
    Exclusive usable (Function.update free r false) (Function.update holder i (some r)) := by
  have others {j : ι} {q : κ} (holds : holder j = some q) : j ≠ i ∧ q ≠ r := by
    constructor
    · rintro rfl
      rw [idle] at holds
      cases holds
    · rintro rfl
      rw [(exclusive.taken j q holds).2] at isFree
      cases isFree
  have after {j : ι} {q : κ} (holds : Function.update holder i (some r) j = some q) :
      j = i ∧ r = q ∨ j ≠ i ∧ q ≠ r ∧ holder j = some q :=
    (of_update_some holds).imp_right fun ⟨other, before⟩ => ⟨other, (others before).2, before⟩
  constructor
  · intro q stillFree
    rcases of_update stillFree with ⟨-, taken⟩ | ⟨-, before⟩
    · cases taken
    · exact exclusive.usable_of_free q before
  · intro j q holds
    rcases after holds with ⟨rfl, rfl⟩ | ⟨_, different, before⟩
    · exact ⟨exclusive.usable_of_free r isFree, update_self ..⟩
    · rw [update_of_ne different]
      exact exclusive.taken j q before
  · intro j k q first second
    rcases after first with ⟨rfl, rfl⟩ | ⟨_, different, before⟩
    · rcases after second with ⟨rfl, _⟩ | ⟨_, different, _⟩
      · rfl
      · exact absurd rfl different
    · rcases after second with ⟨_, same⟩ | ⟨_, _, also⟩
      · exact absurd same.symm different
      · exact exclusive.unique j k q before also
  · intro q possible notFree
    rcases of_update notFree with ⟨rfl, -⟩ | ⟨-, before⟩
    · exact ⟨i, update_self ..⟩
    · obtain ⟨j, holds⟩ := exclusive.held q possible before
      exact ⟨j, by rw [update_of_ne (others holds).1, holds]⟩

theorem Exclusive.release (exclusive : Exclusive usable free holder) {i : ι} {r : κ} (holds : holder i = some r) :
    Exclusive usable (Function.update free r true) (Function.update holder i none) := by
  have after {j : ι} {q : κ} (also : Function.update holder i none j = some q) :
      j ≠ i ∧ q ≠ r ∧ holder j = some q := by
    obtain ⟨different, before⟩ := of_update_none also
    refine ⟨different, ?_, before⟩
    rintro rfl
    exact different (exclusive.unique j i q before holds)
  constructor
  · intro q isFree
    rcases of_update isFree with ⟨rfl, -⟩ | ⟨-, before⟩
    · exact (exclusive.taken i q holds).1
    · exact exclusive.usable_of_free q before
  · intro j q also
    obtain ⟨_, different, before⟩ := after also
    rw [update_of_ne different]
    exact exclusive.taken j q before
  · intro j k q first second
    exact exclusive.unique j k q (after first).2.2 (after second).2.2
  · intro q possible notFree
    obtain ⟨different, before⟩ : q ≠ r ∧ free q = false :=
      (of_update notFree).resolve_left fun freed => by cases freed.2
    obtain ⟨j, also⟩ := exclusive.held q possible before
    refine ⟨j, ?_⟩
    rw [update_of_ne, also]
    rintro rfl
    exact different (Option.some.inj (also.symm.trans holds))

omit [DecidableEq κ] in
theorem Exclusive.transfer (exclusive : Exclusive usable free holder) {i j : ι} {r : κ} (holds : holder i = some r)
    (idle : holder j = none) :
    Exclusive usable free (Function.update (Function.update holder j (some r)) i none) := by
  have distinct : i ≠ j := by
    rintro rfl
    rw [idle] at holds
    cases holds
  have before {k : ι} {q : κ} (also : Function.update (Function.update holder j (some r)) i none k = some q) :
      k = j ∧ r = q ∨ k ≠ i ∧ k ≠ j ∧ holder k = some q := by
    obtain ⟨different, after⟩ := of_update_none also
    exact (of_update_some after).imp_right fun old => ⟨different, old⟩
  refine ⟨exclusive.usable_of_free, ?_, ?_, ?_⟩
  · intro k q also
    rcases before also with ⟨_, rfl⟩ | ⟨_, _, held⟩
    · exact exclusive.taken i r holds
    · exact exclusive.taken k q held
  · intro k l q first second
    rcases before first with ⟨rfl, rfl⟩ | ⟨notI, _, held⟩
    · rcases before second with ⟨rfl, _⟩ | ⟨notI, _, held⟩
      · rfl
      · exact absurd (exclusive.unique l i r held holds) notI
    · rcases before second with ⟨_, rfl⟩ | ⟨_, _, also⟩
      · exact absurd (exclusive.unique k i r held holds) notI
      · exact exclusive.unique k l q held also
  · intro q possible notFree
    obtain ⟨k, also⟩ := exclusive.held q possible notFree
    by_cases same : k = i
    · refine ⟨j, ?_⟩
      rw [update_of_ne distinct.symm, update_self, ← also, same, holds]
    · refine ⟨k, ?_⟩
      rw [update_of_ne same, update_of_ne, also]
      rintro rfl
      rw [idle] at also
      cases also

end Exclusive

section Counted

variable {ι κ : Type*} [Fintype ι] [DecidableEq ι] [DecidableEq κ]

/-- The counts of the resources in `tracked` are the numbers of their holders. -/
def Counted (tracked : κ → Prop) (count : κ → Nat) (held : ι → Option κ) : Prop :=
  ∀ r, tracked r → count r = number (fun holding => holding = some r) held

variable {tracked : κ → Prop} {count count' : κ → Nat} {held : ι → Option κ}

theorem Counted.update (counted : Counted tracked count held) (i : ι) (holding : Option κ)
    (agree : ∀ r, tracked r → 
      count' r + (decide (held i = some r)).toNat = count r + (decide (holding = some r)).toNat) :
    Counted tracked count' (Function.update held i holding) := by
  intro r inside
  have after := number_update (P := fun holding => decide (holding = some r)) held i holding
  have before := counted r inside
  have changed := agree r inside
  omega

theorem Counted.share (counted : Counted tracked count held) {i : ι} {r : κ} (idle : held i = none) :
    Counted tracked (Function.update count r (count r + 1)) (Function.update held i (some r)) := by
  refine counted.update i (some r) fun q _ => ?_
  by_cases same : q = r
  · subst same
    simp [idle]
  · simp [idle, update_of_ne same, Ne.symm same]

theorem Counted.release (counted : Counted tracked count held) {i : ι} {r : κ} (holds : held i = some r) :
    Counted tracked (Function.update count r (count r - 1)) (Function.update held i none) := by
  refine counted.update i none fun q inside => ?_
  by_cases same : q = r
  · subst same
    have positive : 0 < count q := by
      rw [counted q inside]
      exact number_pos (i := i) (by simpa using holds)
    simp only [update_self, holds, decide_true, Bool.toNat_true, reduceCtorEq, decide_false, Bool.toNat_false]
    omega
  · simp [holds, update_of_ne same, Ne.symm same]

theorem Counted.forget (counted : Counted tracked count held) {i : ι}
    (untracked : ∀ r, held i = some r → ¬tracked r) :
    Counted tracked count (Function.update held i none) := by
  refine counted.update i none fun q inside => ?_
  have notHeld : held i ≠ some q := fun holds => untracked q holds inside
  simp [notHeld]

theorem Counted.note (counted : Counted tracked count held) {i : ι} {r : κ} (idle : held i = none)
    (untracked : ¬tracked r) : Counted tracked count (Function.update held i (some r)) := by
  refine counted.update i (some r) fun q inside => ?_
  have different : r ≠ q := fun same => untracked (same ▸ inside)
  simp [idle, different]

theorem Counted.transfer (counted : Counted tracked count held) {i j : ι} {r : κ} (holds : held i = some r)
    (idle : held j = none) :
    Counted tracked count (Function.update (Function.update held j (some r)) i none) := by
  have distinct : i ≠ j := by
    rintro rfl
    rw [idle] at holds
    cases holds
  intro q inside
  have first := number_update (P := fun holding => decide (holding = some q)) held j (some r)
  have second := number_update (P := fun holding => decide (holding = some q))
    (Function.update held j (some r)) i none
  rw [update_of_ne distinct, holds] at second
  rw [idle] at first
  have before := counted q inside
  simp only [reduceCtorEq, decide_false, Bool.toNat_false] at first second
  omega

omit [DecidableEq ι] in
theorem Counted.not_held (counted : Counted tracked count held) {r : κ} (inside : tracked r)
    (unused : count r = 0) (i : ι) : held i ≠ some r := by
  intro holds
  have positive := number_pos (P := fun holding => decide (holding = some r)) (i := i) (by simpa using holds)
  rw [← counted r inside] at positive
  omega

theorem Counted.alone (counted : Counted tracked count held) {r : κ} (inside : tracked r) (one : count r = 1)
    {i j : ι} (first : held i = some r) (second : held j = some r) : i = j := by
  have few : number (fun holding => decide (holding = some r)) held ≤ 1 := by
    rw [← counted r inside, one]
  exact eq_of_number_le_one few (by simpa using first) (by simpa using second)

end Counted

end Ownership

import Mathlib.Data.List.Induction
import Mathlib.Data.Set.Basic

/-! Trees whose nodes are numbered blocks: a block holds the numbers of the blocks
below it, and 0 stands for none. -/

set_option autoImplicit false

namespace BlockTree

open Function

variable {κ ι : Type*} {c c' : Nat → ι → Nat} {z n : Nat}

def walk (c : Nat → ι → Nat) : Nat → List ι → Nat
  | z, [] => z
  | z, j :: rest => if z = 0 then 0 else walk c (c z j) rest

def Distinct (depth root : κ → Nat) (c : Nat → ι → Nat) : Prop :=
  ∀ ⦃k path l path'⦄, path.length ≤ depth k → path'.length ≤ depth l → walk c (root k) path ≠ 0 →
    walk c (root k) path = walk c (root l) path' → k = l ∧ path = path'

@[simp] theorem walk_nil (c : Nat → ι → Nat) (z : Nat) : walk c z [] = z := rfl

@[simp] theorem walk_zero (c : Nat → ι → Nat) (path : List ι) : walk c 0 path = 0 := by
  cases path <;> rfl

theorem walk_cons (nonzero : z ≠ 0) (j : ι) (rest : List ι) : walk c z (j :: rest) = walk c (c z j) rest :=
  if_neg nonzero

theorem walk_append (front back : List ι) : walk c z (front ++ back) = walk c (walk c z front) back := by
  induction front generalizing z with
  | nil => rfl
  | cons j front ih =>
    by_cases none : z = 0
    · simp [none]
    · rw [List.cons_append, walk_cons none, walk_cons none, ih]

theorem walk_concat (front : List ι) (j : ι) (nonzero : walk c z front ≠ 0) :
    walk c z (front ++ [j]) = c (walk c z front) j := by
  rw [walk_append, walk_cons nonzero, walk_nil]

theorem walk_of_prefix_zero {front : List ι} (none : walk c z front = 0) (back : List ι) :
    walk c z (front ++ back) = 0 := by
  rw [walk_append, none, walk_zero]

theorem walk_congr {path : List ι} (agree : ∀ front : List ι, front.length < path.length → walk c z front ≠ 0 →
    c' (walk c z front) = c (walk c z front)) : walk c' z path = walk c z path := by
  induction path using List.reverseRecOn with
  | nil => rfl
  | append_singleton path j ih =>
    rw [List.length_append, List.length_singleton] at agree
    have same : walk c' z path = walk c z path := ih fun front shorter => agree front (by omega)
    by_cases none : walk c z path = 0
    · rw [walk_of_prefix_zero none, walk_of_prefix_zero (same.trans none)]
    · have none' : walk c' z path ≠ 0 := same.symm ▸ none
      rw [walk_concat path j none, walk_concat path j none', same, agree path (by omega) none]

section Forest

variable [DecidableEq κ] [DecidableEq ι] {depth root : κ → Nat} {k : κ}

theorem walk_store (distinct : Distinct depth root c) {front : List ι} {j : ι} (inner : front.length < depth k)
    (at_ : walk c (root k) front = z) (block : z ≠ 0) (empty : c z j = 0) (positive : n ≠ 0)
    (unused : ∀ l path, path.length ≤ depth l → walk c (root l) path ≠ n)
    (stored : c' z = update (c z) j n) (zeros : c' n = fun _ => 0)
    (others : ∀ b, b ≠ z → b ≠ n → c' b = c b) (l : κ) (path : List ι) (inside : path.length ≤ depth l) :
    walk c' (root l) path = if l = k ∧ path = front ++ [j] then n else walk c (root l) path := by
  induction path using List.reverseRecOn with
  | nil => simp
  | append_singleton path i ih =>
    rw [List.length_append, List.length_singleton] at inside
    have before := ih (by omega)
    by_cases new : l = k ∧ path = front ++ [j]
    · obtain ⟨rfl, rfl⟩ := new
      have wasEmpty : walk c (root l) (front ++ [j]) = 0 := by
        rw [walk_concat front j (at_.symm ▸ block), at_, empty]
      have longer : front ++ [j] ++ [i] ≠ front ++ [j] := by simp
      rw [if_pos ⟨rfl, rfl⟩] at before
      rw [walk_concat _ i (before.symm ▸ positive), before, zeros, if_neg fun same => longer same.2,
        walk_of_prefix_zero wasEmpty]
    · rw [if_neg new] at before
      by_cases none : walk c (root l) path = 0
      · have elsewhere : ¬(l = k ∧ path ++ [i] = front ++ [j]) := by
          rintro ⟨rfl, same⟩
          obtain ⟨rfl, -⟩ := List.append_inj' same rfl
          exact block (at_.symm.trans none)
        rw [if_neg elsewhere, walk_of_prefix_zero none, walk_of_prefix_zero (before.trans none)]
      · rw [walk_concat path i (before.symm ▸ none), walk_concat path i none, before]
        by_cases parent : walk c (root l) path = z
        · obtain ⟨rfl, rfl⟩ := distinct (by omega) (by omega) none (parent.trans at_.symm)
          rw [parent, stored, update_apply]
          simp
        · have elsewhere : ¬(l = k ∧ path ++ [i] = front ++ [j]) := by
            rintro ⟨rfl, same⟩
            obtain ⟨rfl, -⟩ := List.append_inj' same rfl
            exact parent at_
          rw [if_neg elsewhere, others _ parent (unused l path (by omega))]

omit [DecidableEq ι] in
theorem walk_root {root' : κ → Nat} (empty : root k = 0)
    (unused : ∀ l path, path.length ≤ depth l → walk c (root l) path ≠ n)
    (positive : n ≠ 0) (stored : root' = update root k n) (zeros : c' n = fun _ => 0)
    (others : ∀ b, b ≠ n → c' b = c b) (l : κ) (path : List ι) (inside : path.length ≤ depth l) :
    walk c' (root' l) path = if l = k ∧ path = [] then n else walk c (root l) path := by
  by_cases now : l = k
  · subst now
    rw [stored, update_self]
    cases path with
    | nil => simp
    | cons j rest => simp [walk_cons positive, zeros, empty]
  · rw [stored, update_of_ne now, if_neg fun same => now same.1]
    exact walk_congr fun front shorter _ => others _ (unused l front (by omega))

theorem Distinct.add {root' : κ → Nat} (distinct : Distinct depth root c) {place : List ι}
    (unused : ∀ l path, path.length ≤ depth l → walk c (root l) path ≠ n)
    (added : ∀ l path, path.length ≤ depth l →
      walk c' (root' l) path = if l = k ∧ path = place then n else walk c (root l) path) :
    Distinct depth root' c' := by
  intro l path m path' inside inside' nonzero same
  rw [added l path inside] at nonzero same
  rw [added m path' inside'] at same
  split at same
  · next first =>
    split at same
    · next second => exact ⟨first.1.trans second.1.symm, first.2.trans second.2.symm⟩
    · exact absurd same.symm (unused m path' inside')
  · next first =>
    rw [if_neg first] at nonzero
    split at same
    · exact absurd same (unused l path inside)
    · exact distinct inside inside' nonzero same

end Forest

/-! ## The blocks of a tree -/

def treeBlocks (d : Nat) (c : Nat → ι → Nat) (z : Nat) : Set Nat :=
  { b | b ≠ 0 ∧ ∃ path : List ι, path.length ≤ d ∧ walk c z path = b }

def DistinctBelow (d : Nat) (c : Nat → ι → Nat) (z : Nat) : Prop :=
  ∀ ⦃path path'⦄, path.length ≤ d → path'.length ≤ d → walk c z path ≠ 0 → walk c z path = walk c z path' →
    path = path'

section Trees

variable {d b : Nat}

theorem mem_treeBlocks_self (block : z ≠ 0) (d : Nat) (c : Nat → ι → Nat) : z ∈ treeBlocks d c z :=
  ⟨block, [], Nat.zero_le d, rfl⟩

theorem treeBlocks_none (d : Nat) (c : Nat → ι → Nat) : treeBlocks d c 0 = ∅ := by
  refine Set.eq_empty_iff_forall_notMem.mpr ?_
  rintro b ⟨block, path, -, rfl⟩
  exact block (walk_zero c path)

theorem distinctBelow_none (d : Nat) (c : Nat → ι → Nat) : DistinctBelow d c 0 :=
  fun path _ _ _ block => absurd (walk_zero c path) block

theorem treeBlocks_leaf (block : z ≠ 0) (c : Nat → ι → Nat) : treeBlocks 0 c z = {z} := by
  ext b
  constructor
  · rintro ⟨-, path, short, rfl⟩
    rw [List.length_eq_zero_iff.mp (Nat.le_zero.mp short)]
    rfl
  · rintro rfl
    exact mem_treeBlocks_self block 0 c

theorem distinctBelow_leaf (c : Nat → ι → Nat) (z : Nat) : DistinctBelow 0 c z := by
  intro path path' short short' _ _
  rw [List.length_eq_zero_iff.mp (Nat.le_zero.mp short), List.length_eq_zero_iff.mp (Nat.le_zero.mp short')]

theorem mem_treeBlocks_succ (block : z ≠ 0) : b ∈ treeBlocks (d + 1) c z ↔ b = z ∨ ∃ j, b ∈ treeBlocks d c (c z j) := by
  constructor
  · rintro ⟨nonzero, path, short, rfl⟩
    cases path with
    | nil => exact .inl rfl
    | cons j rest =>
      rw [walk_cons block] at nonzero ⊢
      exact .inr ⟨j, nonzero, rest, Nat.le_of_succ_le_succ short, rfl⟩
  · rintro (rfl | ⟨j, nonzero, path, short, rfl⟩)
    · exact mem_treeBlocks_self block _ c
    · exact ⟨nonzero, j :: path, Nat.succ_le_succ short, walk_cons block j path⟩

theorem walk_eq_of_agree (agree : ∀ b ∈ treeBlocks d c z, c' b = c b) {path : List ι} (short : path.length ≤ d + 1) :
    walk c' z path = walk c z path :=
  walk_congr fun front shorter nonzero => agree _ ⟨nonzero, front, by omega, rfl⟩

theorem treeBlocks_congr (agree : ∀ b ∈ treeBlocks d c z, c' b = c b) : treeBlocks d c' z = treeBlocks d c z := by
  ext b
  constructor
  · rintro ⟨block, path, short, rfl⟩
    exact ⟨block, path, short, (walk_eq_of_agree agree (by omega)).symm⟩
  · rintro ⟨block, path, short, rfl⟩
    exact ⟨block, path, short, walk_eq_of_agree agree (by omega)⟩

theorem DistinctBelow.congr (distinct : DistinctBelow d c z) (agree : ∀ b ∈ treeBlocks d c z, c' b = c b) :
    DistinctBelow d c' z := by
  intro path path' short short' block same
  rw [walk_eq_of_agree agree (by omega)] at block same
  rw [walk_eq_of_agree agree (by omega)] at same
  exact distinct short short' block same

variable {depth root root' : κ → Nat} {k l : κ}

theorem Distinct.below (distinct : Distinct depth root c) (k : κ) : DistinctBelow (depth k) c (root k) :=
  fun _ _ short short' block same => (distinct short short' block same).2

theorem Distinct.disjoint (distinct : Distinct depth root c) (first : b ∈ treeBlocks (depth k) c (root k))
    (second : b ∈ treeBlocks (depth l) c (root l)) : k = l := by
  obtain ⟨block, path, short, rfl⟩ := first
  obtain ⟨-, path', short', same⟩ := second
  exact (distinct short short' block same.symm).1

theorem distinct_of_trees (below : ∀ k, DistinctBelow (depth k) c (root k))
    (disjoint : ∀ k l b, b ∈ treeBlocks (depth k) c (root k) → b ∈ treeBlocks (depth l) c (root l) → k = l) :
    Distinct depth root c := by
  intro k path l path' short short' block same
  have here : k = l := disjoint k l _ ⟨block, path, short, rfl⟩ ⟨block, path', short', same.symm⟩
  subst here
  exact ⟨rfl, below k short short' block same⟩

theorem distinctBelow_succ (block : z ≠ 0) : DistinctBelow (d + 1) c z ↔
    Distinct (fun _ => d) (c z) c ∧ ∀ j, z ∉ treeBlocks d c (c z j) := by
  constructor
  · intro distinct
    refine ⟨fun k path l path' short short' nonzero same => ?_, ?_⟩
    · have here := @distinct (k :: path) (l :: path') (Nat.succ_le_succ short) (Nat.succ_le_succ short')
        (by rwa [walk_cons block]) (by rwa [walk_cons block, walk_cons block])
      exact List.cons.inj here
    · rintro j ⟨-, path, short, same⟩
      have here := @distinct [] (j :: path) (Nat.zero_le _) (Nat.succ_le_succ short) block
        (by rw [walk_cons block, same]; rfl)
      cases here
  · rintro ⟨distinct, apart⟩ path path' short short' nonzero same
    cases path with
    | nil =>
      cases path' with
      | nil => rfl
      | cons j rest =>
        rw [walk_cons block] at same
        exact absurd ⟨block, rest, Nat.le_of_succ_le_succ short', same.symm⟩ (apart j)
    | cons i rest =>
      rw [walk_cons block] at nonzero same
      cases path' with
      | nil => exact absurd ⟨block, rest, Nat.le_of_succ_le_succ short, same⟩ (apart i)
      | cons j rest' =>
        rw [walk_cons block] at same
        obtain ⟨rfl, rfl⟩ := distinct (Nat.le_of_succ_le_succ short) (Nat.le_of_succ_le_succ short') nonzero same
        rfl

theorem Distinct.shrink (distinct : Distinct depth root c)
    (roots : ∀ l, l ≠ k → root' l = root l)
    (agree : ∀ l, l ≠ k → ∀ b ∈ treeBlocks (depth l) c (root l), c' b = c b)
    (below : DistinctBelow (depth k) c' (root' k))
    (shrinks : treeBlocks (depth k) c' (root' k) ⊆ treeBlocks (depth k) c (root k)) :
    Distinct depth root' c' ∧ ∀ l, l ≠ k → treeBlocks (depth l) c' (root' l) = treeBlocks (depth l) c (root l) := by
  have same (l : κ) (other : l ≠ k) : treeBlocks (depth l) c' (root' l) = treeBlocks (depth l) c (root l) := by
    rw [roots l other, treeBlocks_congr (agree l other)]
  have old (l : κ) : treeBlocks (depth l) c' (root' l) ⊆ treeBlocks (depth l) c (root l) := by
    by_cases now : l = k
    · exact now ▸ shrinks
    · exact (same l now).subset
  refine ⟨distinct_of_trees (fun l => ?_) fun l m b first second => distinct.disjoint (old l first) (old m second), same⟩
  by_cases now : l = k
  · exact now ▸ below
  · rw [roots l now]
    exact (distinct.below l).congr (agree l now)

end Trees

end BlockTree

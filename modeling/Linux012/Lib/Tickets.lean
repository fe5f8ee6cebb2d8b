import Mathlib.Data.List.Nodup

/-! Numbers that are given out in order, in ranges, to holders that work them off one by one. -/

set_option autoImplicit false

namespace Tickets

variable {ρ : Type*}

structure Exact (next : Nat) (held : ρ → Nat → Prop) (done : List Nat) : Prop where
  issued : ∀ i, i < next ↔ i ∈ done ∨ ∃ p, held p i
  once : done.Nodup
  notBoth : ∀ {p i}, held p i → i ∉ done
  oneHolder : ∀ {p q i}, held p i → held q i → p = q

variable {done : List Nat} {next : Nat} {held : ρ → Nat → Prop}

theorem Exact.held_lt (exact : Exact next held done) {p : ρ} {i : Nat} (holds : held p i) : i < next :=
  (exact.issued i).mpr (.inr ⟨p, holds⟩)

theorem Exact.done_lt (exact : Exact next held done) {i : Nat} (finished : i ∈ done) : i < next :=
  (exact.issued i).mpr (.inl finished)

theorem Exact.initial : Exact 0 (fun (_ : ρ) _ => False) [] where
  issued := fun i => by simp
  once := List.nodup_nil
  notBoth := fun holds => holds.elim
  oneHolder := fun holds => holds.elim

theorem Exact.take {next next' : Nat} {held held' : ρ → Nat → Prop} {done : List Nat}
    (exact : Exact next held done) {p : ρ} (free : ∀ i, ¬held p i) (later : next ≤ next')
    (taken : ∀ i, held' p i ↔ next ≤ i ∧ i < next') (others : ∀ q i, q ≠ p → (held' q i ↔ held q i)) :
    Exact next' held' done := by
  have heldCases {q : ρ} {i : Nat} (holds : held' q i) : q = p ∧ next ≤ i ∧ i < next' ∨ held q i := by
    by_cases same : q = p
    · subst same
      exact .inl ⟨rfl, (taken i).mp holds⟩
    · exact .inr ((others q i same).mp holds)
  have keeps {q : ρ} {i : Nat} (holds : held q i) : held' q i := by
    refine (others q i ?_).mpr holds
    rintro rfl
    exact free i holds
  constructor
  · intro i
    constructor
    · intro small
      by_cases before : i < next
      · rcases (exact.issued i).mp before with finished | ⟨q, holds⟩
        · exact .inl finished
        · exact .inr ⟨q, keeps holds⟩
      · exact .inr ⟨p, (taken i).mpr ⟨Nat.le_of_not_lt before, small⟩⟩
    · rintro (finished | ⟨q, holds⟩)
      · exact Nat.lt_of_lt_of_le (exact.done_lt finished) later
      · rcases heldCases holds with ⟨-, -, small⟩ | before
        · exact small
        · exact Nat.lt_of_lt_of_le (exact.held_lt before) later
  · exact exact.once
  · intro q i holds finished
    rcases heldCases holds with ⟨-, large, -⟩ | before
    · exact absurd (exact.done_lt finished) (Nat.not_lt_of_le large)
    · exact exact.notBoth before finished
  · intro q r i holds also
    rcases heldCases holds with ⟨rfl, large, -⟩ | before <;>
      rcases heldCases also with ⟨rfl, large', -⟩ | before'
    · rfl
    · exact absurd (exact.held_lt before') (Nat.not_lt_of_le large)
    · exact absurd (exact.held_lt before) (Nat.not_lt_of_le large')
    · exact exact.oneHolder before before'

theorem Exact.finish {held' : ρ → Nat → Prop} (exact : Exact next held done) {p : ρ} {n : Nat}
    (holds : held p n) (left : ∀ q i, held' q i ↔ held q i ∧ i ≠ n) : Exact next held' (done ++ [n]) := by
  constructor
  · intro i
    rw [exact.issued i, List.mem_append, List.mem_singleton]
    constructor
    · rintro (finished | ⟨q, pending⟩)
      · exact .inl (.inl finished)
      · by_cases same : i = n
        · exact .inl (.inr same)
        · exact .inr ⟨q, (left q i).mpr ⟨pending, same⟩⟩
    · rintro ((finished | rfl) | ⟨q, pending⟩)
      · exact .inl finished
      · exact .inr ⟨p, holds⟩
      · exact .inr ⟨q, ((left q i).mp pending).1⟩
  · rw [List.nodup_append]
    refine ⟨exact.once, List.nodup_singleton n, fun i finished j only => ?_⟩
    rw [List.mem_singleton] at only
    rintro rfl
    exact exact.notBoth holds (only ▸ finished)
  · intro q i pending finished
    obtain ⟨before, other⟩ := (left q i).mp pending
    rcases List.mem_append.mp finished with done | now
    · exact exact.notBoth before done
    · exact other (List.mem_singleton.mp now)
  · intro q r i pending also
    exact exact.oneHolder ((left q i).mp pending).1 ((left r i).mp also).1

theorem Exact.congr {held' : ρ → Nat → Prop} (exact : Exact next held done) (same : ∀ p i, held' p i ↔ held p i) :
    Exact next held' done := by
  rwa [show held' = held from funext fun p => funext fun i => propext (same p i)]

end Tickets

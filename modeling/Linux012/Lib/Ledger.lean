import Mathlib.Tactic.Abel

/-! What programs over a state add to an amount that the state determines. A
program that does not return adds nothing. -/

set_option autoImplicit false

namespace Ledger

variable {σ α β G : Type} [AddCommGroup G] {amount : σ → G}

variable (amount) in
def Adds (x : StateT σ Option α) (change : α → G) : Prop :=
  ∀ s a s', x s = some (a, s') → amount s' = amount s + change a

variable {x : StateT σ Option α} {f : α → StateT σ Option β}

theorem bind_eq_some {s : σ} {result : β × σ} :
    (x >>= f) s = some result ↔ ∃ a t, x s = some (a, t) ∧ f a t = some result := by
  change (x s).bind (fun both => f both.1 both.2) = some result ↔ _
  rw [Option.bind_eq_some_iff]
  exact ⟨fun ⟨both, first, second⟩ => ⟨both.1, both.2, first, second⟩,
    fun ⟨a, t, first, second⟩ => ⟨(a, t), first, second⟩⟩

variable {change : α → G}

theorem Adds.pure {a : α} (nothing : change a = 0) : Adds amount (Pure.pure a : StateT σ Option α) change := by
  intro s b s' returned
  cases returned
  rw [nothing, add_zero]

theorem Adds.of_none (stuck : ∀ s, x s = none) : Adds amount x change := by
  intro s a s' returned
  rw [stuck] at returned
  cases returned

theorem Adds.bind {first : α → G} {change : β → G} (spec : Adds amount x first)
    (rest : ∀ a, Adds amount (f a) fun b => change b - first a) : Adds amount (x >>= f) change := by
  intro s b s' returned
  obtain ⟨a, t, one, two⟩ := bind_eq_some.mp returned
  rw [rest a t b s' two, spec s a t one, add_assoc, add_sub_cancel]

theorem Adds.andThen {change : β → G} (spec : Adds amount x fun _ => 0) (rest : ∀ a, Adds amount (f a) change) :
    Adds amount (x >>= f) change := by
  refine spec.bind fun a => ?_
  simpa only [sub_zero] using rest a

theorem Adds.ite {p : Prop} [Decidable p] {y : StateT σ Option α} (yes : p → Adds amount x change)
    (no : ¬p → Adds amount y change) : Adds amount (if p then x else y) change := by
  split
  · next holds => exact yes holds
  · next fails => exact no fails

theorem Adds.of_eq {change' : α → G} (adds : Adds amount x change) (same : ∀ a, change a = change' a) :
    Adds amount x change' := by
  intro s a s' returned
  rw [adds s a s' returned, same]

theorem map_eq_some {f : α → β} {s : σ} {result : β × σ} :
    (f <$> x) s = some result ↔ ∃ a t, x s = some (a, t) ∧ result = (f a, t) := by
  change (x s).bind (fun both => some (f both.1, both.2)) = some result ↔ _
  rw [Option.bind_eq_some_iff]
  exact ⟨fun ⟨both, first, second⟩ => ⟨both.1, both.2, first, (Option.some.inj second).symm⟩,
    fun ⟨a, t, first, second⟩ => ⟨(a, t), first, congrArg some second.symm⟩⟩

theorem Adds.map {f : α → β} {change : β → G} (spec : Adds amount x fun a => change (f a)) :
    Adds amount (f <$> x) change := by
  intro s b s' returned
  obtain ⟨a, t, first, same⟩ := map_eq_some.mp returned
  cases same
  exact spec s a _ first

theorem adds_modify {f : σ → σ} {change : PUnit → G} (added : ∀ s, amount (f s) = amount s + change ⟨⟩) :
    Adds amount (modify f : StateT σ Option PUnit) change := by
  intro s a s' returned
  cases returned
  exact added s

theorem adds_get : Adds amount (get : StateT σ Option σ) fun _ => 0 := by
  intro s a s' returned
  cases returned
  rw [add_zero]

theorem adds_forM {f : α → StateT σ Option PUnit} (each : ∀ a, Adds amount (f a) fun _ => 0) (list : List α) :
    Adds amount (list.forM f) fun _ => 0 := by
  induction list with
  | nil => exact .pure rfl
  | cons a list ih => exact (each a).andThen fun _ => ih

end Ledger

import Mathlib.Control.Basic

/-! What holds when a program with a state comes to its end; it may also stop before. -/

set_option autoImplicit false

variable {σ ε α β : Type}

def Ends (m : StateT σ (Except ε) α) (s : σ) (post : α → σ → Prop) : Prop := ∀ a t, m s = .ok (a, t) → post a t

namespace Ends

variable {m : StateT σ (Except ε) α} {f : α → StateT σ (Except ε) β} {s : σ} {mid : α → σ → Prop}
  {post : β → σ → Prop}

theorem pure {b : β} (holds : post b s) : Ends (Pure.pure b : StateT σ (Except ε) β) s post := by
  intro b' t ran
  cases ran
  exact holds

theorem bind (first : Ends m s mid) (rest : ∀ a t, mid a t → Ends (f a) t post) : Ends (m >>= f) s post := by
  intro b u ran
  have both : (m >>= f) s = (m s).bind fun got => f got.1 got.2 := rfl
  rw [both] at ran
  cases result : m s with
  | error e =>
    rw [result] at ran
    cases ran
  | ok got =>
    rw [result] at ran
    exact rest got.1 got.2 (first got.1 got.2 result) b u ran

variable {n : StateT σ (Except ε) β}

theorem mono {post' : β → σ → Prop} (ends : Ends n s post') (weaker : ∀ b t, post' b t → post b t) :
    Ends n s post :=
  fun b t ran => weaker b t (ends b t ran)

theorem and {post' : β → σ → Prop} (first : Ends n s post) (second : Ends n s post') :
    Ends n s fun b t => post b t ∧ post' b t :=
  fun b t ran => ⟨first b t ran, second b t ran⟩

theorem any (m : StateT σ (Except ε) α) (s : σ) : Ends m s fun _ _ => True := fun _ _ _ => trivial

theorem skip (rest : ∀ a t, Ends (f a) t post) : Ends (m >>= f) s post :=
  (any m s).bind fun a t _ => rest a t

theorem ite {c : Prop} [Decidable c] {n' : StateT σ (Except ε) β} (holds : c → Ends n s post)
    (fails : ¬c → Ends n' s post) : Ends (if c then n else n') s post := by
  split
  · next isTrue => exact holds isTrue
  · next isFalse => exact fails isFalse

end Ends

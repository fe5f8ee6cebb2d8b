import Mathlib.Data.List.Nodup
import Mathlib.Logic.Function.Basic
import Mathlib.Tactic.Common

/-! Singly linked lists whose links are stored in the nodes themselves and which
end in an absent link. -/

set_option autoImplicit false

namespace Links

open Function (update_of_ne update_self)

variable {α : Type*}

def Follows (next : α → Option α) : Option α → List α → Prop
  | link, [] => link = none
  | link, x :: rest => link = some x ∧ Follows next (next x) rest

variable {next : α → Option α} {link : Option α}

@[simp] theorem follows_nil : Follows next link [] ↔ link = none := Iff.rfl

variable {x : α}

@[simp] theorem follows_cons {rest : List α} :
    Follows next link (x :: rest) ↔ link = some x ∧ Follows next (next x) rest := Iff.rfl

variable {l : List α}

theorem Follows.congr {next' : α → Option α} (follows : Follows next link l) (same : ∀ x ∈ l, next' x = next x) :
    Follows next' link l := by
  induction l generalizing link with
  | nil => exact follows
  | cons x rest ih =>
    have link' := same x List.mem_cons_self
    refine ⟨follows.1, link' ▸ ih follows.2 fun y member => ?_⟩
    exact same y (List.mem_cons_of_mem x member)

theorem Follows.unique {l' : List α} (follows : Follows next link l) (follows' : Follows next link l') :
    l = l' := by
  induction l generalizing link l' with
  | nil =>
    cases l' with
    | nil => rfl
    | cons y rest' => exact absurd (follows.symm.trans follows'.1) (by simp)
  | cons x rest ih =>
    cases l' with
    | nil => exact absurd (follows'.symm.trans follows.1) (by simp)
    | cons y rest' =>
      have same : x = y := Option.some.inj (follows.1.symm.trans follows'.1)
      subst same
      rw [ih follows.2 follows'.2]

variable {back front : List α}

theorem Follows.link_before (follows : Follows next link (front ++ x :: back)) :
    front.getLast?.elim link next = some x := by
  induction front generalizing link with
  | nil => exact follows.1
  | cons y front ih =>
    have rest := ih follows.2
    cases front with
    | nil | cons z front => exact rest

variable [DecidableEq α]

theorem Follows.update {value : Option α} (follows : Follows next link l) (other : x ∉ l) :
    Follows (Function.update next x value) link l := by
  refine follows.congr fun y member => ?_
  have differ : y ≠ x := fun same => other (same ▸ member)
  exact update_of_ne differ _ _

/-- `y->next = x->next; x->next = y` for a node `y` that is not in the list. -/
def insertAfter (next : α → Option α) (x y : α) : α → Option α :=
  Function.update (Function.update next y (next x)) x (some y)

theorem insertAfter_of_ne {y z : α} (notX : z ≠ x) (notY : z ≠ y) : insertAfter next x y z = next z := by
  rw [insertAfter, update_of_ne notX, update_of_ne notY]

theorem Follows.insertAfter_other {y : α} (follows : Follows next link l) (notX : x ∉ l) (notY : y ∉ l) :
    Follows (insertAfter next x y) link l :=
  (follows.update notY).update notX

theorem Follows.insertAfter {y : α} (follows : Follows next link (front ++ x :: back))
    (nodup : (front ++ x :: back).Nodup) (new : y ∉ front ++ x :: back) :
    Follows (insertAfter next x y) link (front ++ x :: y :: back) := by
  induction front generalizing link with
  | nil =>
    have differ : y ≠ x := fun same => new (by simp [same])
    have notIn : x ∉ back := (List.nodup_cons.mp nodup).1
    have behind : Follows (Links.insertAfter next x y) (next x) back :=
      follows.2.insertAfter_other notIn fun member => new (List.mem_cons_of_mem x member)
    refine ⟨follows.1, ?_, ?_⟩
    · rw [Links.insertAfter, update_self]
    · rw [Links.insertAfter, update_of_ne differ, update_self]
      exact behind
  | cons z front ih =>
    have notX : z ≠ x := by
      rintro rfl
      exact (List.nodup_cons.mp nodup).1 (by simp)
    have notY : z ≠ y := fun same => new (by simp [same])
    refine ⟨follows.1, ?_⟩
    rw [insertAfter_of_ne notX notY]
    exact ih follows.2 (List.nodup_cons.mp nodup).2 fun member => new (List.mem_cons_of_mem z member)

theorem Follows.unlink {p : α} (follows : Follows next link (front ++ p :: x :: back))
    (nodup : (front ++ p :: x :: back).Nodup) :
    Follows (Function.update next p (next x)) link (front ++ p :: back) := by
  induction front generalizing link with
  | nil =>
    have notIn : p ∉ back := fun member => (List.nodup_cons.mp nodup).1 (List.mem_cons_of_mem x member)
    refine ⟨follows.1, ?_⟩
    rw [update_self]
    exact follows.2.2.update notIn
  | cons z front ih =>
    have differ : z ≠ p := by
      rintro rfl
      exact (List.nodup_cons.mp nodup).1 (by simp)
    refine ⟨follows.1, ?_⟩
    rw [update_of_ne differ]
    exact ih follows.2 (List.nodup_cons.mp nodup).2

end Links

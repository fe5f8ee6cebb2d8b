import Linux012.Lib.Links
import Mathlib.Algebra.Order.Group.Nat

/-! A region that is cut into slots of one width, and the chain that runs through
all of them. -/

set_option autoImplicit false

namespace Slots

open Function

def slots (start count width : Nat) : List Nat := List.range' start count width

variable {start count width a b : Nat}

theorem slots_nodup (positive : 0 < width) : (slots start count width).Nodup :=
  List.nodup_range' width positive

theorem mem_slots : a ∈ slots start count width ↔ ∃ i < count, a = start + width * i :=
  List.mem_range'

theorem slots_succ : slots start (count + 1) width = start :: slots (start + width) count width :=
  List.range'_succ

theorem slot_within (member : a ∈ slots start count width) :
    start ≤ a ∧ a + width ≤ start + width * count := by
  obtain ⟨i, below, rfl⟩ := mem_slots.mp member
  have room : width * (i + 1) ≤ width * count := Nat.mul_le_mul_left width below
  rw [Nat.mul_succ] at room
  omega

theorem slot_dvd {unit : Nat} (member : a ∈ slots start count width) (startDvd : unit ∣ start)
    (widthDvd : unit ∣ width) : unit ∣ a := by
  obtain ⟨i, -, rfl⟩ := mem_slots.mp member
  exact Nat.dvd_add startDvd (Nat.dvd_mul_right_of_dvd widthDvd i)

theorem slots_apart (first : a ∈ slots start count width) (second : b ∈ slots start count width)
    (differ : a ≠ b) : a + width ≤ b ∨ b + width ≤ a := by
  obtain ⟨i, -, rfl⟩ := mem_slots.mp first
  obtain ⟨j, -, rfl⟩ := mem_slots.mp second
  rcases Nat.lt_trichotomy i j with below | rfl | above
  · have room : width * (i + 1) ≤ width * j := Nat.mul_le_mul_left width below
    rw [Nat.mul_succ] at room
    omega
  · exact absurd rfl differ
  · have room : width * (j + 1) ≤ width * i := Nat.mul_le_mul_left width above
    rw [Nat.mul_succ] at room
    omega

/-! ## Chaining the slots -/

open Links

/-- The loop that lets each of `more + 1` slots point at the one behind it, and the last
at `last`. -/
def chainUp (width : Nat) (last : Option Nat) : (more : Nat) → (slot : Nat) → (Nat → Option Nat) →
    Nat → Option Nat
  | 0, slot, next => update next slot last
  | more + 1, slot, next =>
    chainUp width last more (slot + width) (update next slot (some (slot + width)))

variable {more slot : Nat} {next : Nat → Option Nat} {last : Option Nat}

theorem chainUp_of_lt (before : a < slot) : chainUp width last more slot next a = next a := by
  induction more generalizing slot next with
  | zero => exact update_of_ne (by omega) _ _
  | succ more ih =>
    rw [chainUp, ih (by omega)]
    exact update_of_ne (by omega) _ _

theorem chainUp_congr {next' : Nat → Option Nat} (same : next' a = next a) :
    chainUp width last more slot next' a = chainUp width last more slot next a := by
  have updated (link : Option Nat) : update next' slot link a = update next slot link a := by
    simp only [update_apply, same]
  induction more generalizing slot next next' with
  | zero => exact updated last
  | succ more ih =>
    refine ih (updated _) fun link => ?_
    simp only [update_apply, same]

theorem chainUp_of_notMem (other : a ∉ slots slot (more + 1) width) :
    chainUp width last more slot next a = next a := by
  induction more generalizing slot next with
  | zero =>
    rw [slots_succ, List.mem_cons, not_or] at other
    exact update_of_ne other.1 _ _
  | succ more ih =>
    rw [slots_succ, List.mem_cons, not_or] at other
    rw [chainUp, ih other.2]
    exact update_of_ne other.1 _ _

theorem follows_chainUp {behind : List Nat} (positive : 0 < width) (follows : Follows next last behind)
    (new : ∀ x ∈ behind, x ∉ slots slot (more + 1) width) :
    Follows (chainUp width last more slot next) (some slot) (slots slot (more + 1) width ++ behind) := by
  induction more generalizing slot next with
  | zero =>
    have notIn : slot ∉ behind := fun member => new slot member (by simp [slots_succ])
    refine ⟨rfl, ?_⟩
    rw [chainUp, update_self]
    exact follows.update notIn
  | succ more ih =>
    have notIn : slot ∉ behind := fun member => new slot member (by simp [slots_succ])
    rw [slots_succ]
    refine ⟨rfl, ?_⟩
    rw [chainUp, chainUp_of_lt (by omega), update_self]
    refine ih (follows.update notIn) fun x member later => new x member ?_
    rw [slots_succ]
    exact List.mem_cons_of_mem slot later

end Slots

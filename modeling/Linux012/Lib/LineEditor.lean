import Mathlib.Data.List.DropRight

/-! An editor of lines: a character is appended, the last character of the current line
is erased, or the current line is killed. A line that has ended cannot be changed. -/

set_option autoImplicit false

namespace LineEditor

variable {α : Type*} (ends : α → Bool)

inductive Key (α : Type*) where
  | erase
  | kill
  | char (c : α)

def killed (text : List α) : List α := text.rdropWhile fun c => !ends c

def erased (text : List α) : List α :=
  match text.getLast? with
  | some c => if ends c then text else text.dropLast
  | none => []

def edit (text : List α) : Key α → List α
  | .erase => erased ends text
  | .kill => killed ends text
  | .char c => text ++ [c]

def Closed (text : List α) : Prop := killed ends text = text

variable {ends} {text : List α} {c : α}

theorem killed_snoc (inLine : ends c = false) : killed ends (text ++ [c]) = killed ends text :=
  List.rdropWhile_concat_pos _ _ c (by simp [inLine])

theorem closed_snoc (ended : ends c = true) : Closed ends (text ++ [c]) :=
  List.rdropWhile_concat_neg _ _ c (by simp [ended])

theorem closed_nil : Closed ends ([] : List α) := List.rdropWhile_nil _

theorem erased_snoc (inLine : ends c = false) : erased ends (text ++ [c]) = text := by
  simp [erased, inLine]

theorem erased_snoc_end (ended : ends c = true) : erased ends (text ++ [c]) = text ++ [c] := by
  simp [erased, ended]

theorem erased_closed (closed : Closed ends text) : erased ends text = text := by
  rcases List.eq_nil_or_concat text with rfl | ⟨front, c, rfl⟩
  · rfl
  · rw [List.concat_eq_append] at closed ⊢
    by_cases ended : ends c = true
    · exact erased_snoc_end ended
    · rw [Closed, killed_snoc (Bool.eq_false_iff.mpr ended)] at closed
      have shorter := (List.rdropWhile_prefix (fun c => !ends c) front).length_le
      rw [← killed, closed, List.length_append, List.length_singleton] at shorter
      omega

end LineEditor

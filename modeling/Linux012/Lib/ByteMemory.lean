import Mathlib.Algebra.Group.Nat.Defs
import Mathlib.Data.List.Basic

/-! Bytes and little-endian words in a flat memory, with the byte strings and the
tables of pointers that are built of them. -/

set_option autoImplicit false

namespace ByteMemory

abbrev Memory := Nat → UInt8

def getLong (mem : Memory) (a : Nat) : Nat :=
  (mem a).toNat + 2 ^ 8 * (mem (a + 1)).toNat + 2 ^ 16 * (mem (a + 2)).toNat + 2 ^ 24 * (mem (a + 3)).toNat

def putLong (mem : Memory) (a v : Nat) : Memory := fun x =>
  if x = a then .ofNat v
  else if x = a + 1 then .ofNat (v / 2 ^ 8)
  else if x = a + 2 then .ofNat (v / 2 ^ 16)
  else if x = a + 3 then .ofNat (v / 2 ^ 24)
  else mem x

theorem getLong_putLong_self (mem : Memory) (a : Nat) {v : Nat} (fits : v < 2 ^ 32) :
    getLong (putLong mem a v) a = v := by
  have first : putLong mem a v a = .ofNat v := if_pos rfl
  have second : putLong mem a v (a + 1) = .ofNat (v / 2 ^ 8) := by
    rw [putLong, if_neg (by omega), if_pos rfl]
  have third : putLong mem a v (a + 2) = .ofNat (v / 2 ^ 16) := by
    rw [putLong, if_neg (by omega), if_neg (by omega), if_pos rfl]
  have fourth : putLong mem a v (a + 3) = .ofNat (v / 2 ^ 24) := by
    rw [putLong, if_neg (by omega), if_neg (by omega), if_neg (by omega), if_pos rfl]
  simp only [getLong, first, second, third, fourth, UInt8.toNat_ofNat', Nat.reducePow]
  omega

theorem putLong_of_outside (mem : Memory) {a v x : Nat} (outside : x < a ∨ a + 4 ≤ x) :
    putLong mem a v x = mem x := by
  simp only [putLong]
  rw [if_neg (by omega), if_neg (by omega), if_neg (by omega), if_neg (by omega)]

theorem getLong_congr {mem mem' : Memory} {a : Nat} (same : ∀ x, a ≤ x → x < a + 4 → mem' x = mem x) :
    getLong mem' a = getLong mem a := by
  rw [getLong, getLong, same a (by omega) (by omega), same (a + 1) (by omega) (by omega),
    same (a + 2) (by omega) (by omega), same (a + 3) (by omega) (by omega)]

def Loaded (mem : Memory) : Nat → List UInt8 → Prop
  | _, [] => True
  | a, byte :: rest => mem a = byte ∧ Loaded mem (a + 1) rest

variable {mem mem' : Memory} {a : Nat}

theorem loaded_append {front back : List UInt8} :
    Loaded mem a (front ++ back) ↔ Loaded mem a front ∧ Loaded mem (a + front.length) back := by
  induction front generalizing a with
  | nil => simp [Loaded]
  | cons byte front ih =>
    simp only [List.cons_append, Loaded, ih, List.length_cons, and_assoc]
    rw [Nat.add_assoc, Nat.add_comm 1]

theorem Loaded.congr {bytes : List UInt8} (loaded : Loaded mem a bytes)
    (same : ∀ x, a ≤ x → x < a + bytes.length → mem' x = mem x) : Loaded mem' a bytes := by
  induction bytes generalizing a with
  | nil => trivial
  | cons byte rest ih =>
    rw [List.length_cons] at same
    refine ⟨(same a (Nat.le_refl _) (by omega)).trans loaded.1, ih loaded.2 fun x above below => ?_⟩
    exact same x (by omega) (by omega)

/-! ## Strings -/

def terminated (s : List UInt8) : List UInt8 := s ++ [0]

def StringAt (mem : Memory) (a : Nat) (s : List UInt8) : Prop := Loaded mem a (terminated s)

/-- The address behind the NUL that is found from `a` on, in at most `fuel` bytes. -/
def skipString (mem : Memory) : Nat → Nat → Nat
  | 0, a => a
  | fuel + 1, a => if mem a = 0 then a + 1 else skipString mem fuel (a + 1)

theorem skipString_eq {s : List UInt8} {fuel : Nat} (string : StringAt mem a s) (noNul : 0 ∉ s)
    (enough : s.length < fuel) : skipString mem fuel a = a + s.length + 1 := by
  induction s generalizing a fuel with
  | nil =>
    obtain ⟨fuel, rfl⟩ : ∃ less, fuel = less + 1 := ⟨fuel - 1, by simp at enough; omega⟩
    rw [skipString, if_pos string.1]
    rfl
  | cons byte s ih =>
    obtain ⟨fuel, rfl⟩ : ∃ less, fuel = less + 1 := ⟨fuel - 1, by simp at enough; omega⟩
    have nonzero : mem a ≠ 0 := by
      rw [string.1]
      exact fun zero => noNul (zero ▸ List.mem_cons_self)
    rw [skipString, if_neg nonzero,
      ih string.2 (fun later => noNul (List.mem_cons_of_mem _ later)) (Nat.lt_of_succ_lt_succ enough),
      List.length_cons]
    omega

/-! ## Tables of pointers -/

def Pointers (mem : Memory) : Nat → List (List UInt8) → Prop
  | a, [] => getLong mem a = 0
  | a, s :: rest => StringAt mem (getLong mem a) s ∧ Pointers mem (a + 4) rest

end ByteMemory

import Linux012.Lib.ByteMemory

/-! The string instructions of the processor, with a record of the bytes they store to. -/

set_option autoImplicit false

namespace BlockStores

open ByteMemory

structure Ram where
  memory : Memory
  stored : List Nat

namespace Ram

def getWord (ram : Ram) (a : Nat) : UInt16 :=
  .ofNat ((ram.memory a).toNat + 2 ^ 8 * (ram.memory (a + 1)).toNat)

def putWord (ram : Ram) (a : Nat) (w : UInt16) : Ram where
  memory := fun b =>
    if b = a then .ofNat w.toNat
    else if b = a + 1 then .ofNat (w.toNat / 2 ^ 8)
    else ram.memory b
  stored := [a, a + 1] ++ ram.stored

def putLong (ram : Ram) (a v : Nat) : Ram where
  memory := ByteMemory.putLong ram.memory a v
  stored := [a, a + 1, a + 2, a + 3] ++ ram.stored

def stosw (w : UInt16) : Nat → Nat → Ram → Ram
  | 0, _, ram => ram
  | count + 1, a, ram => stosw w count (a + 2) (ram.putWord a w)

def stoswDown (w : UInt16) : Nat → Nat → Ram → Ram
  | 0, _, ram => ram
  | count + 1, a, ram => stoswDown w count (a - 2) (ram.putWord a w)

/-- `rep movsl` from `source` on -/
def movsl : Nat → Nat → Nat → Ram → Ram
  | 0, _, _, ram => ram
  | count + 1, source, a, ram =>
    movsl count (source + 4) (a + 4) (ram.putLong a (getLong ram.memory source))

/-- `rep movsl` from `source` down -/
def movslDown : Nat → Nat → Nat → Ram → Ram
  | 0, _, _, ram => ram
  | count + 1, source, a, ram =>
    movslDown count (source - 4) (a - 4) (ram.putLong a (getLong ram.memory source))

def Within (first last : Nat) (ram : Ram) : Prop := ∀ a ∈ ram.stored, first ≤ a ∧ a < last

variable {first last : Nat} {ram : Ram}

variable {a : Nat}

theorem Within.putWord (within : ram.Within first last) (w : UInt16) (above : first ≤ a) (below : a + 2 ≤ last) :
    (ram.putWord a w).Within first last := by
  intro b stored
  rcases List.mem_append.mp stored with new | old
  · simp only [List.mem_cons, List.not_mem_nil, or_false] at new
    omega
  · exact within b old

theorem Within.putLong (within : ram.Within first last) (v : Nat) (above : first ≤ a) (below : a + 4 ≤ last) :
    (ram.putLong a v).Within first last := by
  intro b stored
  rcases List.mem_append.mp stored with new | old
  · simp only [List.mem_cons, List.not_mem_nil, or_false] at new
    omega
  · exact within b old

variable {count : Nat}

theorem Within.stosw (within : ram.Within first last) (w : UInt16) (above : first ≤ a)
    (below : a + 2 * count ≤ last) : (Ram.stosw w count a ram).Within first last := by
  induction count generalizing a ram with
  | zero => exact within
  | succ count ih => exact ih (within.putWord w above (by omega)) (by omega) (by omega)

theorem Within.stoswDown (within : ram.Within first last) (w : UInt16) (above : first + 2 * count ≤ a + 2)
    (below : a + 2 ≤ last) : (Ram.stoswDown w count a ram).Within first last := by
  induction count generalizing a ram with
  | zero => exact within
  | succ count ih =>
    have stored := within.putWord w (by omega) below
    cases count with
    | zero => exact stored
    | succ count => exact ih stored (by omega) (by omega)

variable {source : Nat}

theorem Within.movsl (within : ram.Within first last) (above : first ≤ a) (below : a + 4 * count ≤ last) :
    (Ram.movsl count source a ram).Within first last := by
  induction count generalizing source a ram with
  | zero => exact within
  | succ count ih => exact ih (within.putLong _ above (by omega)) (by omega) (by omega)

theorem Within.movslDown (within : ram.Within first last) (above : first + 4 * count ≤ a + 4)
    (below : a + 4 ≤ last) : (Ram.movslDown count source a ram).Within first last := by
  induction count generalizing source a ram with
  | zero => exact within
  | succ count ih =>
    have stored := within.putLong (getLong ram.memory source) (by omega) below
    cases count with
    | zero => exact stored
    | succ count => exact ih stored (by omega) (by omega)

/-! ## What is read back -/

variable {b : Nat}

theorem getWord_congr {ram' : Ram} (first : ram'.memory a = ram.memory b)
    (second : ram'.memory (a + 1) = ram.memory (b + 1)) : ram'.getWord a = ram.getWord b := by
  rw [getWord, getWord, first, second]

theorem putWord_memory_of_outside (w : UInt16) (outside : b < a ∨ a + 2 ≤ b) :
    (ram.putWord a w).memory b = ram.memory b := by
  simp only [putWord]
  rw [if_neg (by omega), if_neg (by omega)]

theorem putWord_getWord (w : UInt16) (a : Nat) : (ram.putWord a w).getWord a = w := by
  have first : (ram.putWord a w).memory a = .ofNat w.toNat := if_pos rfl
  have second : (ram.putWord a w).memory (a + 1) = .ofNat (w.toNat / 2 ^ 8) := by
    simp only [putWord]
    rw [if_neg (by omega), if_true]
  have fits := w.toNat_lt
  apply UInt16.toNat_inj.mp
  rw [getWord, first, second, UInt16.toNat_ofNat', UInt8.toNat_ofNat', UInt8.toNat_ofNat']
  omega

theorem stosw_memory_of_outside (w : UInt16) (outside : b < a ∨ a + 2 * count ≤ b) :
    (stosw w count a ram).memory b = ram.memory b := by
  induction count generalizing a ram with
  | zero => rfl
  | succ count ih => rw [stosw, ih (by omega), putWord_memory_of_outside w (by omega)]

theorem stosw_getWord_of_outside (w : UInt16) (outside : b + 2 ≤ a ∨ a + 2 * count ≤ b) :
    (stosw w count a ram).getWord b = ram.getWord b :=
  getWord_congr (stosw_memory_of_outside w (by omega)) (stosw_memory_of_outside w (by omega))

theorem stosw_getWord (w : UInt16) {k : Nat} (inside : k < count) :
    (stosw w count a ram).getWord (a + 2 * k) = w := by
  induction count generalizing a k ram with
  | zero => omega
  | succ count ih =>
    rw [stosw]
    cases k with
    | zero => exact (stosw_getWord_of_outside w (by omega)).trans (putWord_getWord w a)
    | succ k =>
      rw [show a + 2 * (k + 1) = a + 2 + 2 * k by omega]
      exact ih (by omega)

theorem putLong_getLong (mem : Memory) (source a : Nat) {k : Nat} (inside : k < 4) :
    ByteMemory.putLong mem a (getLong mem source) (a + k) = mem (source + k) := by
  have fits (i : Nat) := (mem i).toNat_lt
  have bounds := And.intro (And.intro (fits source) (fits (source + 1))) (And.intro (fits (source + 2)) (fits (source + 3)))
  apply UInt8.toNat_inj.mp
  obtain rfl | rfl | rfl | rfl : k = 0 ∨ k = 1 ∨ k = 2 ∨ k = 3 := by omega
  · rw [Nat.add_zero, Nat.add_zero, ByteMemory.putLong, if_pos rfl, UInt8.toNat_ofNat', getLong]
    omega
  · rw [ByteMemory.putLong, if_neg (by omega), if_pos rfl, UInt8.toNat_ofNat', getLong]
    omega
  · rw [ByteMemory.putLong, if_neg (by omega), if_neg (by omega), if_pos rfl, UInt8.toNat_ofNat', getLong]
    omega
  · rw [ByteMemory.putLong, if_neg (by omega), if_neg (by omega), if_neg (by omega), if_pos rfl, UInt8.toNat_ofNat',
      getLong]
    omega

theorem movsl_memory_below (below : b < a) : (movsl count source a ram).memory b = ram.memory b := by
  induction count generalizing source a ram with
  | zero => rfl
  | succ count ih =>
    rw [movsl, ih (by omega)]
    exact putLong_of_outside _ (.inl below)

theorem movsl_memory (down : a ≤ source) (above : a ≤ b) (below : b < a + 4 * count) :
    (movsl count source a ram).memory b = ram.memory (source + (b - a)) := by
  induction count generalizing source a ram with
  | zero => omega
  | succ count ih =>
    rw [movsl]
    by_cases first : b < a + 4
    · rw [movsl_memory_below first]
      obtain ⟨k, rfl⟩ := Nat.exists_eq_add_of_le above
      rw [Nat.add_sub_cancel_left]
      exact putLong_getLong ram.memory source a (by omega)
    · rw [ih (by omega) (by omega) (by omega)]
      have unchanged : (ram.putLong a (getLong ram.memory source)).memory (source + 4 + (b - (a + 4))) =
          ram.memory (source + 4 + (b - (a + 4))) := putLong_of_outside _ (.inr (by omega))
      rw [unchanged]
      congr 1
      omega

theorem movsl_getWord (down : a ≤ source) (above : a ≤ b) (below : b + 2 ≤ a + 4 * count) :
    (movsl count source a ram).getWord b = ram.getWord (source + (b - a)) := by
  refine getWord_congr (movsl_memory down above (by omega)) ?_
  rw [movsl_memory down (by omega) (by omega)]
  congr 1
  omega

end Ram

end BlockStores

import Linux012.Mm.SwapScan

/-! `get_free_page` of `mm/swap.c`, which swaps pages out until there is a free one. -/

set_option autoImplicit false

namespace Linux012.Mm.FreePage

open Function

open Swap (lowMem pagingMemory)
open SwapScan (Memory Position swapOut)

def PAGING_PAGES : Nat := pagingMemory >>> 12

def lastFree (memMap : Nat → Nat) : Nat → Option Nat
  | 0 => none
  | n + 1 => if memMap (lowMem >>> 12 + n) = 0 then some (lowMem >>> 12 + n) else lastFree memMap n

/-- `movb $1`, and `stosl` over the page -/
def takePage (m : Memory) (nr : Nat) : Memory :=
  { m with
    memMap := update m.memMap nr 1
    word := fun addr => if addr >>> 12 = nr then 0 else m.word addr }

inductive Answer where
  | running
  | panic
  | none (m : Memory) (pos : Position)
  | page (addr : Nat) (m : Memory) (pos : Position)

def getFreePage (m : Memory) (pos : Position) : (fuel : Nat) → Answer
  | 0 => .running
  | fuel + 1 =>
    match lastFree m.memMap PAGING_PAGES with
    | some nr =>
      if m.highMemory ≤ nr <<< 12 then getFreePage (takePage m nr) pos fuel
      else .page (nr <<< 12) (takePage m nr) pos
    | none =>
      match swapOut m pos with
      | (none, pos) => .none m pos
      | (some m, pos) => if m.panicked then .panic else getFreePage m pos fuel

structure NoneTaken (m m' : Memory) : Prop where
  highMemory : m'.highMemory = m.highMemory
  counts : ∀ nr, nr <<< 12 < m.highMemory → m'.memMap nr ≤ m.memMap nr

/-- The page at `addr`, free by then, is the only one that has been taken. -/
def Taken (m m' : Memory) (addr : Nat) : Prop :=
  ∃ nr m₁, addr = nr <<< 12 ∧ addr < m.highMemory ∧ NoneTaken m m₁ ∧ m₁.memMap nr = 0 ∧ m' = takePage m₁ nr

namespace NoneTaken

variable {m m' m'' : Memory}

theorem refl (m : Memory) : NoneTaken m m := ⟨rfl, fun _ _ => le_rfl⟩

theorem trans (first : NoneTaken m m') (second : NoneTaken m' m'') : NoneTaken m m'' :=
  ⟨second.highMemory.trans first.highMemory, fun nr inside =>
    (second.counts nr (first.highMemory ▸ inside)).trans (first.counts nr inside)⟩

end NoneTaken

/-! ## What one round of the loop does -/

section Round

variable {m m' : Memory} {pos : Position}

theorem lastFree_some {memMap : Nat → Nat} {n nr : Nat} (found : lastFree memMap n = some nr) :
    memMap nr = 0 ∧ lowMem >>> 12 ≤ nr ∧ nr < lowMem >>> 12 + n := by
  induction n with
  | zero => cases found
  | succ n ih =>
    rw [lastFree] at found
    split at found
    case isTrue free =>
      obtain rfl := Option.some.inj found
      exact ⟨free, by omega, by omega⟩
    case isFalse used =>
      obtain ⟨free, lower, upper⟩ := ih found
      exact ⟨free, lower, by omega⟩

theorem takePage_noneTaken {nr : Nat} (above : m.highMemory ≤ nr <<< 12) : NoneTaken m (takePage m nr) := by
  refine ⟨rfl, fun k inside => ?_⟩
  have differ : k ≠ nr := fun same => absurd inside (same ▸ not_lt.2 above)
  exact (update_of_ne differ 1 m.memMap).le

theorem takeSlot_same (m : Memory) :
    m.takeSlot.2.highMemory = m.highMemory ∧ m.takeSlot.2.memMap = m.memMap := by
  rw [Memory.takeSlot]
  split <;> exact ⟨rfl, rfl⟩

def Freed (m m' : Memory) : Prop :=
  m'.panicked = true ∨
    ∃ nr ≤ lowMem >>> 12 + PAGING_PAGES, lowMem >>> 12 ≤ nr ∧ nr <<< 12 < m.highMemory ∧ m.memMap nr ≠ 0 ∧
      m'.highMemory = m.highMemory ∧ m'.memMap = update m.memMap nr (m.memMap nr - 1)

theorem freePage_freed {addr : Nat} (lower : lowMem ≤ addr) (upper : addr - lowMem ≤ pagingMemory) :
    Freed m (m.freePage addr) := by
  rw [Memory.freePage, if_neg (not_lt.2 lower)]
  split
  case isTrue => exact .inl rfl
  case isFalse inside =>
    obtain ⟨below, used⟩ := not_or.1 inside
    refine .inr ⟨addr >>> 12, ?_, ?_, ?_, used, rfl, rfl⟩
    · rw [Nat.shiftRight_eq_div_pow, lowMem, PAGING_PAGES]
      rw [lowMem] at lower upper
      rw [pagingMemory] at upper ⊢
      omega
    · rw [Nat.shiftRight_eq_div_pow, Nat.shiftRight_eq_div_pow]
      exact Nat.div_le_div_right lower
    · rw [Nat.shiftRight_eq_div_pow, Nat.shiftLeft_eq]
      omega

theorem Freed.of_same {m₁ : Memory} (freed : Freed m₁ m') (high : m₁.highMemory = m.highMemory)
    (counts : m₁.memMap = m.memMap) : Freed m m' := by
  rwa [Freed, high, counts] at freed

theorem tryToSwapOut_freed {tablePtr : Nat} (swapped : m.tryToSwapOut tablePtr = some m') : Freed m m' := by
  dsimp only [Memory.tryToSwapOut] at swapped
  split at swapped
  case isTrue => cases swapped
  split at swapped
  case isTrue => cases swapped
  case isFalse inside =>
    obtain ⟨lower, upper⟩ := not_or.1 inside
    split at swapped
    case isTrue =>
      split at swapped
      case isTrue => cases swapped
      split at swapped
      case isTrue => cases swapped
      obtain rfl := Option.some.inj swapped
      obtain ⟨high, counts⟩ := takeSlot_same m
      refine (freePage_freed ?_ ?_).of_same high counts
      · rw [lowMem] at lower ⊢
        omega
      · rw [lowMem] at upper ⊢
        omega
    case isFalse =>
      obtain rfl := Option.some.inj swapped
      exact (freePage_freed (not_lt.1 lower) (not_lt.1 upper)).of_same rfl rfl

theorem swapOut_freed (swapped : (swapOut m pos).1 = some m') : Freed m m' := by
  obtain ⟨e, q, attempted⟩ := RingScan.scan_some swapped
  exact tryToSwapOut_freed attempted

theorem Freed.noneTaken (freed : Freed m m') (running : m'.panicked ≠ true) : NoneTaken m m' := by
  obtain ⟨nr, -, -, -, -, high, counts⟩ := freed.resolve_left running
  refine ⟨high, fun k inside => ?_⟩
  rw [counts, update_apply]
  split
  case isTrue same =>
    subst same
    exact Nat.sub_le ..
  case isFalse => exact le_rfl

end Round

/-! ## Whole calls -/

section Call

variable {m m' : Memory} {pos pos' : Position} {fuel : Nat}

theorem getFreePage_none (failed : getFreePage m pos fuel = .none m' pos') : NoneTaken m m' := by
  fun_induction getFreePage m pos fuel with
  | case1 | case3 | case5 => cases failed
  | case2 m pos fuel nr found above ih => exact (takePage_noneTaken above).trans (ih failed)
  | case4 m pos fuel used pos₁ swapped =>
    obtain ⟨rfl, rfl⟩ := Answer.none.inj failed
    exact .refl m
  | case6 m pos fuel used m₁ pos₁ swapped running ih =>
    have freed : Freed m m₁ := swapOut_freed (congrArg Prod.fst swapped)
    exact (freed.noneTaken running).trans (ih failed)

theorem getFreePage_page {addr : Nat} (got : getFreePage m pos fuel = .page addr m' pos') : Taken m m' addr := by
  fun_induction getFreePage m pos fuel with
  | case1 | case4 | case5 => cases got
  | case2 m pos fuel nr found above ih =>
    obtain ⟨k, m₁, place, inside, same, free, rest⟩ := ih got
    exact ⟨k, m₁, place, inside, (takePage_noneTaken above).trans same, free, rest⟩
  | case3 m pos fuel nr found inside =>
    obtain ⟨rfl, rfl, rfl⟩ := Answer.page.inj got
    exact ⟨nr, m, rfl, not_le.1 inside, .refl m, (lastFree_some found).1, rfl⟩
  | case6 m pos fuel used m₁ pos₁ swapped running ih =>
    have freed : Freed m m₁ := swapOut_freed (congrArg Prod.fst swapped)
    obtain ⟨k, m₂, place, inside, same, free, rest⟩ := ih got
    have first := freed.noneTaken running
    exact ⟨k, m₂, place, first.highMemory ▸ inside, first.trans same, free, rest⟩

/-- What a round makes less: the counts of the pages that there are, and the free ones of those
that there are not. -/
def weight (m : Memory) (i : Nat) : Nat :=
  if (lowMem >>> 12 + i) <<< 12 < m.highMemory then m.memMap (lowMem >>> 12 + i)
  else if m.memMap (lowMem >>> 12 + i) = 0 then 1 else 0

def work (m : Memory) : Nat := ∑ i ∈ Finset.range (PAGING_PAGES + 1), weight m i

theorem work_lt {i : Nat} (small : i ≤ PAGING_PAGES) (less : weight m' i < weight m i)
    (same : ∀ j, j ≠ i → weight m' j = weight m j) : work m' < work m := by
  refine Finset.sum_lt_sum (fun j _ => ?_) ⟨i, Finset.mem_range.2 (by omega), less⟩
  rcases eq_or_ne j i with rfl | differ
  · exact less.le
  · exact (same j differ).le

theorem takePage_work {nr : Nat} (found : lastFree m.memMap PAGING_PAGES = some nr) (above : m.highMemory ≤ nr <<< 12) :
    work (takePage m nr) < work m := by
  obtain ⟨free, lower, upper⟩ := lastFree_some found
  obtain ⟨i, rfl⟩ := Nat.exists_eq_add_of_le lower
  refine work_lt (i := i) (by omega) ?_ fun j differ => ?_
  · have taken : (takePage m (lowMem >>> 12 + i)).memMap (lowMem >>> 12 + i) = 1 := update_self ..
    rw [weight, weight, if_neg (not_lt.2 above), if_pos free]
    change (if _ < m.highMemory then _ else _) < 1
    rw [if_neg (not_lt.2 above), taken]
    exact one_pos
  · have other : (takePage m (lowMem >>> 12 + i)).memMap (lowMem >>> 12 + j) = m.memMap (lowMem >>> 12 + j) :=
      update_of_ne (by omega) ..
    rw [weight, weight, other]
    rfl

theorem Freed.work_lt (freed : Freed m m') (running : m'.panicked ≠ true) : work m' < work m := by
  obtain ⟨nr, upper, lower, inside, used, high, counts⟩ := freed.resolve_left running
  obtain ⟨i, rfl⟩ := Nat.exists_eq_add_of_le lower
  refine FreePage.work_lt (i := i) (by omega) ?_ fun j differ => ?_
  · rw [weight, weight, high, if_pos inside, if_pos inside, counts, update_self]
    omega
  · rw [weight, weight, high, counts, update_of_ne (by omega)]

theorem getFreePage_ends (enough : work m < fuel) : getFreePage m pos fuel ≠ .running := by
  fun_induction getFreePage m pos fuel with
  | case1 => omega
  | case2 m pos fuel nr found above ih =>
    have := takePage_work found above
    exact ih (by omega)
  | case3 | case4 | case5 => simp
  | case6 m pos fuel used m₁ pos₁ swapped running ih =>
    have freed : Freed m m₁ := swapOut_freed (congrArg Prod.fst swapped)
    have := freed.work_lt running
    exact ih (by omega)

end Call

end Linux012.Mm.FreePage

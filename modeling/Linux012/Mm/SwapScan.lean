import Linux012.Lib.RingScan
import Linux012.Mm.Swap

/-! `swap_out` and `try_to_swap_out` of `mm/swap.c`: the scan of all page tables, and the place
where it goes on in the next call. -/

set_option autoImplicit false

namespace Linux012.Mm.SwapScan

open RingScan
open Swap (present dirty getSwapPage lowMem pagingMemory)

def PTRS : Nat := 1024

theorem PTRS_pos : 0 < PTRS := by decide

def firstVmPage : Nat := 0x04000000 >>> 12
def lastVmPage : Nat := 1024 * 1024
def vmPages : Nat := lastVmPage - firstVmPage

def firstDir : Nat := firstVmPage >>> 10

structure Memory where
  pgDir : Nat → Nat
  word : Nat → Nat
  memMap : Nat → Nat
  highMemory : Nat
  swapBitmap : Option (Nat → Bool)
  panicked : Bool

namespace Memory

def store (m : Memory) (tablePtr word : Nat) : Memory := { m with word := Function.update m.word tablePtr word }

def freePage (m : Memory) (addr : Nat) : Memory :=
  if addr < lowMem then m
  else if m.highMemory ≤ addr ∨ m.memMap (addr >>> 12) = 0 then { m with panicked := true }
  else { m with memMap := Function.update m.memMap (addr >>> 12) (m.memMap (addr >>> 12) - 1) }

def takeSlot (m : Memory) : Nat × Memory :=
  match m.swapBitmap with
  | none => (0, m)
  | some swapBitmap => ((getSwapPage swapBitmap).1, { m with swapBitmap := some (getSwapPage swapBitmap).2 })

/-- The memory after `try_to_swap_out` has returned 1; where it returns 0 it has changed nothing. -/
def tryToSwapOut (m : Memory) (tablePtr : Nat) : Option Memory :=
  let page := m.word tablePtr
  if present page = false then none
  -- the difference is unsigned
  else if page < lowMem ∨ pagingMemory < page - lowMem then none
  else if dirty page then
    let page := page / 4096 * 4096
    if m.memMap (page >>> 12) ≠ 1 then none
    else
      let (swapNr, m) := m.takeSlot
      if swapNr = 0 then none else some ((m.store tablePtr (swapNr <<< 1)).freePage page)
  else some ((m.store tablePtr 0).freePage page)

def hasTable (m : Memory) (dirEntry : Nat) : Bool := present (m.pgDir dirEntry)

def attempt (m : Memory) (dirEntry pageEntry : Nat) : Option Memory :=
  m.tryToSwapOut (m.pgDir dirEntry / 4096 * 4096 + 4 * pageEntry)

end Memory

def nextDir (dirEntry : Nat) : Nat := if 1024 ≤ dirEntry + 1 then firstDir else dirEntry + 1

def InRing (dirEntry : Nat) : Prop := firstDir ≤ dirEntry ∧ dirEntry < 1024

instance (dirEntry : Nat) : Decidable (InRing dirEntry) := inferInstanceAs (Decidable (_ ∧ _))

structure Position where
  dirEntry : Nat
  pageEntry : Int
  inRing : InRing dirEntry
  lower : -1 ≤ pageEntry
  upper : pageEntry < PTRS

def Position.boot : Position where
  dirEntry := firstDir
  pageEntry := -1
  inRing := by decide
  lower := by decide
  upper := by decide

/-! ## The ring of directory entries -/

variable {d : Nat}

theorem iterate_nextDir (inRing : InRing d) (j : Nat) : nextDir^[j] d = firstDir + (d - firstDir + j) % 1008 := by
  have first : firstDir = 16 := rfl
  rw [InRing, first] at inRing
  rw [first]
  induction j with
  | zero =>
    rw [Function.iterate_zero, id, Nat.add_zero, Nat.mod_eq_of_lt (by omega)]
    omega
  | succ j ih =>
    rw [Function.iterate_succ_apply', ih, nextDir, first]
    split <;> omega

theorem inRing_iterate (inRing : InRing d) (j : Nat) : InRing (nextDir^[j] d) := by
  rw [iterate_nextDir inRing j, InRing]
  have first : firstDir = 16 := rfl
  omega

theorem exists_iterate {e : Nat} (inRing : InRing d) (other : InRing e) : ∃ j < 1008, nextDir^[j] d = e := by
  have first : firstDir = 16 := rfl
  rw [InRing, first] at other
  refine ⟨(e - firstDir + 1008 - (d - firstDir)) % 1008, Nat.mod_lt _ (by decide), ?_⟩
  rw [InRing, first] at inRing
  rw [iterate_nextDir (by rw [InRing, first]; exact inRing), first]
  omega

/-! ## swap_out -/

def firstLoop (m : Memory) (pos : Position) : Int × Nat := firstTable PTRS_pos nextDir m.hasTable vmPages pos.dirEntry

theorem inRing_firstLoop (m : Memory) (pos : Position) : InRing (firstLoop m pos).2 := by
  obtain ⟨a, same, -⟩ := firstTable_spec PTRS_pos nextDir m.hasTable vmPages pos.dirEntry
  rw [firstLoop, same]
  exact inRing_iterate pos.inRing a

def secondLoop (m : Memory) (pos : Position) : (Nat × Int) × Option Memory :=
  scan PTRS_pos nextDir m.hasTable m.attempt (firstLoop m pos).1 (firstLoop m pos).2 pos.pageEntry

theorem secondLoop_place (m : Memory) (pos : Position) :
    InRing (secondLoop m pos).1.1 ∧ -1 ≤ (secondLoop m pos).1.2 ∧ (secondLoop m pos).1.2 < PTRS := by
  obtain ⟨⟨j, place⟩, lower, upper⟩ :=
    scan_place PTRS_pos nextDir m.hasTable m.attempt (firstLoop m pos).1 (firstLoop m pos).2 pos.pageEntry pos.lower
      pos.upper
  refine ⟨?_, lower, upper⟩
  rw [secondLoop, place]
  exact inRing_iterate (inRing_firstLoop m pos) j

/-- `swap_out`: the memory if it has returned 1, and where the next call goes on. -/
def swapOut (m : Memory) (pos : Position) : Option Memory × Position :=
  ((secondLoop m pos).2,
    { dirEntry := (secondLoop m pos).1.1
      pageEntry := (secondLoop m pos).1.2
      inRing := (secondLoop_place m pos).1
      lower := (secondLoop_place m pos).2.1
      upper := (secondLoop_place m pos).2.2 })

structure Swappable (m : Memory) (dirEntry pageEntry : Nat) : Prop where
  inRing : InRing dirEntry
  inTable : pageEntry < PTRS
  hasTable : m.hasTable dirEntry = true
  goes : m.attempt dirEntry pageEntry ≠ none

/-- The entries at the start of the first table that the turn does not come back to: all up to
`page_entry` if absent tables were passed before that table, and else entry 0 behind an absent
table, if that is where `page_entry` is. -/
def LeftOut (m : Memory) (pos : Position) (dirEntry pageEntry : Nat) : Prop :=
  (pageEntry : Int) ≤ pos.pageEntry ∧
    ((m.hasTable pos.dirEntry = true ∧ dirEntry = pos.dirEntry ∧ pos.pageEntry = 0 ∧
        m.hasTable (nextDir^[1007] dirEntry) = false) ∨
      ∃ a, 0 < a ∧ dirEntry = nextDir^[a] pos.dirEntry ∧ m.hasTable dirEntry = true ∧
        ∀ i < a, m.hasTable (nextDir^[i] pos.dirEntry) = false)

section Turn

variable {m : Memory} {pos : Position} {d q : Nat}

theorem swapOut_empty {a : Nat} (gap : ∀ i < a, m.hasTable (nextDir^[i] pos.dirEntry) = false) (whole : 1008 ≤ a) :
    ¬Swappable m d q := by
  intro goes
  obtain ⟨j, inTurn, rfl⟩ := exists_iterate pos.inRing goes.inRing
  have absent := gap j (by omega)
  rw [goes.hasTable] at absent
  cases absent

theorem iterate_turn {e : Nat} (inRing : InRing e) (j : Nat) : nextDir^[j + 1008] e = nextDir^[j] e := by
  rw [iterate_nextDir inRing, iterate_nextDir inRing]
  omega

theorem eq_of_iterate {e j : Nat} (inRing : InRing e) (same : nextDir^[j] e = e) : j = 0 ∨ 1008 ≤ j := by
  have first : firstDir = 16 := rfl
  rw [iterate_nextDir inRing, first] at same
  rw [InRing, first] at inRing
  omega

theorem before_gap {a j : Nat} (gap : ∀ i < a, m.hasTable (nextDir^[i] pos.dirEntry) = false) (inTurn : j < 1008)
    (there : m.hasTable (nextDir^[j] (nextDir^[a] pos.dirEntry)) = true) : j + a < 1008 := by
  by_contra beyond
  obtain ⟨i, past⟩ : ∃ i, j + a = i + 1008 := ⟨j + a - 1008, by omega⟩
  rw [← Function.iterate_add_apply, past, iterate_turn pos.inRing, gap i (by omega)] at there
  cases there

theorem tried_iff {a : Nat} (gap : ∀ i < a, m.hasTable (nextDir^[i] pos.dirEntry) = false) (small : a < 1008)
    (there : m.hasTable (nextDir^[a] pos.dirEntry) = true) (goes : Swappable m d q) :
    (∃ j, nextDir^[j] (nextDir^[a] pos.dirEntry) = d ∧
      Tried PTRS nextDir m.hasTable (vmPages - PTRS * a) (nextDir^[a] pos.dirEntry) pos.pageEntry j q) ↔
      ¬LeftOut m pos d q := by
  have inRing := inRing_iterate pos.inRing a
  have size : (vmPages : Int) = 1024 * 1008 ∧ PTRS = 1024 := ⟨rfl, rfl⟩
  have lower := pos.lower
  have upper := pos.upper
  have inTable := goes.inTable
  rw [size.2] at upper inTable
  constructor
  · rintro ⟨j, rfl, n, ⟨-, distance⟩, positive, enough, -, notLast⟩ ⟨before, why⟩
    rw [size.1, size.2] at enough
    rw [size.2] at distance
    rcases why with ⟨here, same, zero, behind⟩ | ⟨b, passed, same, present_, absent⟩
    · have none_passed : a = 0 := by
        by_contra nonzero
        have := gap 0 (by omega)
        rw [Function.iterate_zero, id, here] at this
        cases this
      subst none_passed
      rcases eq_of_iterate pos.inRing same with rfl | turn
      · omega
      · obtain rfl : j = 1008 := by omega
        obtain rfl : q = 0 := by omega
        refine notLast ⟨by rw [size.1]; omega, rfl, 1007, rfl, ?_⟩
        rw [← behind, same]
        rfl
    · have first : b = a := by
        rcases Nat.lt_trichotomy b a with less | equal | more
        · rw [same, gap b less] at present_
          cases present_
        · exact equal
        · rw [absent a more] at there
          cases there
      subst first
      rcases eq_of_iterate inRing same with rfl | turn
      · omega
      · omega
  · intro kept
    obtain ⟨j, inTurn, rfl⟩ := exists_iterate inRing goes.inRing
    have room := before_gap gap inTurn goes.hasTable
    by_cases positive : 0 < 1024 * (j : Int) + q - pos.pageEntry
    · refine ⟨j, rfl, _, ⟨goes.inTable, rfl⟩, by rw [size.2]; exact positive, ?_, goes.hasTable, ?_⟩
      · rw [size.1, size.2]
        push_cast
        omega
      · rintro ⟨last, rfl, -⟩
        rw [size.1, size.2] at last
        push_cast at last
        omega
    · obtain rfl : j = 0 := by omega
      rw [Function.iterate_zero, id] at kept goes ⊢
      have before : (q : Int) ≤ pos.pageEntry := by omega
      have none_passed : a = 0 := by
        by_contra nonzero
        exact kept ⟨before, .inr ⟨a, Nat.pos_of_ne_zero nonzero, rfl, there, gap⟩⟩
      subst none_passed
      refine ⟨1008, iterate_turn inRing 0, 1024 * 1008 + q - pos.pageEntry, ⟨goes.inTable, by rw [size.2]; rfl⟩,
        by omega, by rw [size.1]; omega, ?_, ?_⟩
      · rw [iterate_turn inRing 0]
        exact there
      · rintro ⟨last, rfl, i, next_, absent⟩
        obtain rfl : i = 1007 := by omega
        rw [size.1] at last
        exact kept ⟨before, .inl ⟨there, rfl, by omega, absent⟩⟩

theorem swapOut_eq_none_iff : (swapOut m pos).1 = none ↔ ∀ d q, Swappable m d q → LeftOut m pos d q := by
  obtain ⟨a, start, gap, ends⟩ := firstTable_spec PTRS_pos nextDir m.hasTable vmPages pos.dirEntry
  have size : (vmPages : Int) = 1024 * 1008 ∧ PTRS = 1024 := ⟨rfl, rfl⟩
  change (scan PTRS_pos nextDir m.hasTable m.attempt (firstLoop m pos).1 (firstLoop m pos).2 pos.pageEntry).2 = none ↔ _
  rw [firstLoop, start]
  rcases ends with ⟨there, left⟩ | used
  · rw [size.1, size.2] at left
    have small : a < 1008 := by omega
    rw [scan_eq_none_iff _ _ _ _ _ _ _ pos.lower pos.upper there]
    constructor
    · intro fails d q goes
      by_contra kept
      obtain ⟨j, rfl, tried⟩ := (tried_iff gap small there goes).mpr kept
      exact goes.goes (fails j q tried)
    · intro left j q tried
      by_contra succeeds
      have inTable : q < PTRS := by
        obtain ⟨n, ⟨inside, -⟩, -⟩ := tried
        exact inside
      have present_ : m.hasTable (nextDir^[j] (nextDir^[a] pos.dirEntry)) = true := by
        obtain ⟨n, -, -, -, present_, -⟩ := tried
        exact present_
      have goes : Swappable m (nextDir^[j] (nextDir^[a] pos.dirEntry)) q :=
        ⟨inRing_iterate (inRing_iterate pos.inRing a) j, inTable, present_, succeeds⟩
      exact (tried_iff gap small there goes).mp ⟨j, rfl, tried⟩ (left _ _ goes)
  · rw [size.1, size.2] at used
    have ended : (scan PTRS_pos nextDir m.hasTable m.attempt (vmPages - PTRS * a) (nextDir^[a] pos.dirEntry)
        pos.pageEntry).2 = none := by
      rw [scan, if_neg (by rw [size.1, size.2]; omega)]
    exact iff_of_true ended fun d q goes => absurd goes (swapOut_empty gap (by omega))

/-- The swapper gives up with pages left to swap exactly if all of them are among those that its
turn leaves out. -/
theorem gives_up_iff (m : Memory) (pos : Position) :
    ((swapOut m pos).1 = none → ∀ d q, InRing d → q < PTRS → m.hasTable d = true → m.attempt d q = none) ↔
      ((∃ d q, Swappable m d q) → ∃ d q, Swappable m d q ∧ ¬LeftOut m pos d q) := by
  rw [swapOut_eq_none_iff]
  constructor
  · rintro complete ⟨d, q, goes⟩
    by_contra leftOut
    push Not at leftOut
    exact goes.goes (complete leftOut d q goes.inRing goes.inTable goes.hasTable)
  · intro condition leftOut d q inRing inTable hasTable
    by_contra goes
    obtain ⟨d', q', goes', kept⟩ := condition ⟨d, q, inRing, inTable, hasTable, goes⟩
    exact kept (leftOut d' q' goes')

end Turn

/-! ## A page that is left out -/

def oneTable (dirEntry : Nat) : Memory where
  pgDir := fun d => if d = dirEntry then 0x200007 else 0
  word := fun addr => if addr = 0x200000 then 0x300005 else 0
  memMap := fun page => if page = 0x200 ∨ page = 0x300 then 1 else 0
  highMemory := 0x1000000
  swapBitmap := none
  panicked := false

theorem oneTable_hasTable {dirEntry : Nat} : (oneTable dirEntry).hasTable d = true ↔ d = dirEntry := by
  by_cases same : d = dirEntry <;> simp [Memory.hasTable, oneTable, same, present]

theorem oneTable_attempt {dirEntry q : Nat} :
    (oneTable dirEntry).attempt dirEntry q ≠ none ↔ q = 0 := by
  have table : (oneTable dirEntry).pgDir dirEntry / 4096 * 4096 + 4 * q = 0x200000 + 4 * q := by
    simp [oneTable]
  rw [Memory.attempt, table]
  cases q with
  | zero =>
    have page : (oneTable dirEntry).word (0x200000 + 4 * 0) = 0x300005 := rfl
    have cases_ : present 0x300005 = true ∧ ¬(0x300005 < lowMem ∨ pagingMemory < 0x300005 - lowMem) ∧
      dirty 0x300005 = false := by decide
    simp [Memory.tryToSwapOut, page, cases_.1, cases_.2.1, cases_.2.2]
  | succ q =>
    have page : (oneTable dirEntry).word (0x200000 + 4 * (q + 1)) = 0 := if_neg (by omega)
    simp [Memory.tryToSwapOut, page, present]

/-- The first call swaps out entry 0 of table 16; after that table 17 is the only one. -/
theorem second_call_gives_up :
    (swapOut (oneTable 16) .boot).1 ≠ none ∧
      (swapOut (oneTable 17) (swapOut (oneTable 16) .boot).2).1 = none ∧ (oneTable 17).attempt 17 0 ≠ none := by
  have here : (oneTable 16).hasTable 16 = true := oneTable_hasTable.mpr rfl
  have first : (oneTable 16).attempt 16 0 ≠ none := oneTable_attempt.mpr rfl
  obtain ⟨after, goes⟩ := Option.ne_none_iff_exists'.mp first
  have start : firstLoop (oneTable 16) .boot = ((vmPages : Int), 16) := by
    rw [firstLoop, firstTable, if_pos (by decide)]
    exact if_pos here
  have ended : secondLoop (oneTable 16) .boot = ((16, 0), some after) := by
    have tries : (oneTable 16).attempt 16 (Position.boot.pageEntry + 1).toNat = some after := goes
    rw [secondLoop, start, scan, if_pos (by decide), if_neg (by decide)]
    simp only [tries]
    rfl
  have place : (swapOut (oneTable 16) .boot).2.dirEntry = 16 ∧ (swapOut (oneTable 16) .boot).2.pageEntry = 0 := by
    rw [swapOut]
    simp only [ended]
    exact ⟨trivial, trivial⟩
  refine ⟨?_, swapOut_eq_none_iff.mpr fun d q swappable => ?_, oneTable_attempt.mpr rfl⟩
  · rw [swapOut]
    simp only [ended]
    exact Option.some_ne_none after
  · obtain rfl := oneTable_hasTable.mp swappable.hasTable
    obtain rfl := oneTable_attempt.mp swappable.goes
    refine ⟨by rw [place.2]; exact le_rfl, .inr ⟨1, one_pos, ?_, swappable.hasTable, fun i below => ?_⟩⟩
    · rw [place.1]
      rfl
    · obtain rfl : i = 0 := by omega
      rw [place.1, Bool.eq_false_iff]
      exact fun present_ => absurd (oneTable_hasTable.mp present_) (by decide)

end Linux012.Mm.SwapScan

import Mathlib.Algebra.Group.Int.Defs
import Mathlib.Algebra.Group.Nat.Defs
import Mathlib.Tactic.Common

/-! `verify_area` of `kernel/fork.c`, which makes pages writable before the kernel writes to them,
with `write_verify` and `un_wp_page` of `mm/memory.c`. -/

set_option autoImplicit false

namespace Linux012.Mm.VerifyArea

open Function

def LOW_MEM : UInt32 := 0x100000
def PAGING_PAGES : Nat := (15 * 1024 * 1024) >>> 12

/-- `table d` is the page table that entry `d` of the directory points to; no two entries have
the same one. -/
structure Memory where
  pgDir : Nat → UInt32
  table : Nat → Nat → UInt32
  memMap : Nat → UInt8
  page : UInt32 → Nat → UInt8

def MAP_NR (addr : UInt32) : Nat := ((addr - LOW_MEM) >>> 12).toNat

namespace Memory

def setEntry (m : Memory) (dir nr : Nat) (entry : UInt32) : Memory :=
  { m with table := update m.table dir (update (m.table dir) nr entry) }

def setCount (m : Memory) (nr : Nat) (count : UInt8) : Memory :=
  { m with memMap := update m.memMap nr count }

def setPage (m : Memory) (page : UInt32) (bytes : Nat → UInt8) : Memory :=
  { m with page := update m.page page bytes }

end Memory

def lastFree (memMap : Nat → UInt8) : Nat → Option Nat
  | 0 => none
  | n + 1 => if memMap n = 0 then some n else lastFree memMap n

/-- `get_free_page`, which would have to swap a page out if there is none. -/
def getFreePage (m : Memory) : Option (UInt32 × Memory) :=
  match lastFree m.memMap PAGING_PAGES with
  | none => none
  | some nr =>
    let page := (UInt32.ofNat nr <<< 12) + LOW_MEM
    some (page, (m.setCount nr 1).setPage page fun _ => 0)

/-- `un_wp_page`, for entry `nr` of table `dir` -/
def unWpPage (m : Memory) (dir nr : Nat) : Option Memory :=
  let oldPage := 0xfffff000 &&& m.table dir nr
  if LOW_MEM ≤ oldPage ∧ m.memMap (MAP_NR oldPage) = 1 then
    some (m.setEntry dir nr (m.table dir nr ||| 2))
  else
    match getFreePage m with
    | none => none
    | some (newPage, m) =>
      let m := if LOW_MEM ≤ oldPage then m.setCount (MAP_NR oldPage) (m.memMap (MAP_NR oldPage) - 1) else m
      let m := m.setPage newPage (m.page oldPage)
      some (m.setEntry dir nr (newPage ||| 7))

def dirOf (address : UInt32) : Nat := ((address >>> 20) &&& 0xffc).toNat / 4

def nrOf (address : UInt32) : Nat := ((address >>> 10) &&& 0xffc).toNat / 4

def writeVerify (m : Memory) (address : UInt32) : Option Memory :=
  if m.pgDir (dirOf address) &&& 1 = 0 then some m
  else if 3 &&& m.table (dirOf address) (nrOf address) = 1 then unWpPage m (dirOf address) (nrOf address)
  else some m

def verifyLoop : (rounds : Nat) → (size : Int32) → (start : UInt32) → Memory → Option Memory
  | 0, _, _, m => some m
  | rounds + 1, size, start, m =>
    if 0 < size then
      match writeVerify m start with
      | none => none
      | some m => verifyLoop rounds (size - 4096) (start + 4096) m
    else some m

structure Segment where
  base : UInt32
  limit : Nat
  base_aligned : base.toNat % 4096 = 0
  limit_aligned : limit % 4096 = 0
  fits : base.toNat + limit ≤ 2 ^ 32

def verifyArea (seg : Segment) (m : Memory) (addr : UInt32) (size : Int32) : Option Memory :=
  let start := addr
  let size := size + (start &&& 0xfff).toInt32
  let start := start &&& 0xfffff000
  let start := start + seg.base
  -- each round takes 4096 from `size`
  verifyLoop ((size.toInt.toNat + 4095) / 4096) size start m

/-! ## What it is for -/

namespace Memory

def entry (m : Memory) (q : Nat) : UInt32 := m.table (q / 1024) (q % 1024)

def Present (m : Memory) (q : Nat) : Prop := m.pgDir (q / 1024) &&& 1 ≠ 0 ∧ m.entry q &&& 1 ≠ 0

def Writable (m : Memory) (q : Nat) : Prop := m.entry q &&& 2 ≠ 0

def ReadOnly (m : Memory) (q : Nat) : Prop := m.pgDir (q / 1024) &&& 1 ≠ 0 ∧ 3 &&& m.entry q = 1

end Memory

def Overlaps (seg : Segment) (addr : UInt32) (size : Int32) (q : Nat) : Prop :=
  ∃ x : Nat, addr.toNat ≤ x ∧ (x : Int) < addr.toNat + size.toInt ∧ x < seg.limit ∧ (seg.base.toNat + x) / 4096 = q

/-- The pages of the range are writable if they are present, and nothing else has changed. -/
structure Protects (seg : Segment) (addr : UInt32) (size : Int32) (m m' : Memory) : Prop where
  writable : ∀ q, Overlaps seg addr size q → m'.Present q → m'.Writable q
  pgDir : m'.pgDir = m.pgDir
  others : ∀ q, ¬Overlaps seg addr size q → m'.entry q = m.entry q

/-- No page is read-only at an address that the loop takes in or leaves out by mistake: the one
page of an empty range, those behind the segment, and all of them if the size overflows. -/
structure Clear (seg : Segment) (addr : UInt32) (size : Int32) (m : Memory) : Prop where
  empty : size = 0 → addr.toNat % 4096 ≠ 0 → ¬m.ReadOnly ((seg.base.toNat + addr.toNat) / 4096)
  behind : ((addr.toNat % 4096 : Nat) : Int) + size.toInt < 2 ^ 31 → ∀ p : Nat, seg.limit ≤ p * 4096 →
    ((p * 4096 : Nat) : Int) < addr.toNat + size.toInt → ¬m.ReadOnly ((seg.base.toNat / 4096 + p) % 2 ^ 20)
  overflow : 2 ^ 31 ≤ ((addr.toNat % 4096 : Nat) : Int) + size.toInt → ∀ p : Nat, addr.toNat / 4096 ≤ p →
    p * 4096 < seg.limit → ((p * 4096 : Nat) : Int) < addr.toNat + size.toInt →
    ¬m.ReadOnly (seg.base.toNat / 4096 + p)

/-! ## One page -/

structure Unprotects (V : Nat → Prop) (m m' : Memory) : Prop where
  pgDir : m'.pgDir = m.pgDir
  cleared : ∀ q, V q → m.ReadOnly q → 3 &&& m'.entry q = 3
  kept : ∀ q, ¬(V q ∧ m.ReadOnly q) → m'.entry q = m.entry q

variable {m : Memory}

theorem Unprotects.refl {V : Nat → Prop} (none : ∀ q, V q → ¬m.ReadOnly q) : Unprotects V m m :=
  ⟨rfl, fun q member readOnly => absurd readOnly (none q member), fun _ _ => rfl⟩

variable {m' : Memory}

theorem Unprotects.congr {V V' : Nat → Prop} (unprotects : Unprotects V m m') (same : ∀ q, V q ↔ V' q) :
    Unprotects V' m m' :=
  ⟨unprotects.pgDir, fun q member => unprotects.cleared q ((same q).mpr member),
    fun q outside => unprotects.kept q fun both => outside ⟨(same q).mp both.1, both.2⟩⟩

theorem Unprotects.trans {V V' : Nat → Prop} {m'' : Memory} (first : Unprotects V m m')
    (second : Unprotects V' m' m'') : Unprotects (fun q => V q ∨ V' q) m m'' := by
  have done : ∀ q, 3 &&& m'.entry q = 3 → ¬m'.ReadOnly q := by
    intro q three readOnly
    cases three.symm.trans readOnly.2
  refine ⟨second.pgDir.trans first.pgDir, ?_, ?_⟩
  · intro q member readOnly
    by_cases here : V q
    · have three := first.cleared q here readOnly
      rwa [second.kept q fun both => done q three both.2]
    · have same := first.kept q fun both => here both.1
      have readOnly' : m'.ReadOnly q := by
        rw [Memory.ReadOnly, first.pgDir, same]
        exact readOnly
      exact second.cleared q (member.resolve_left here) readOnly'
  · intro q outside
    have same := first.kept q fun both => outside ⟨.inl both.1, both.2⟩
    rw [← same]
    refine second.kept q fun ⟨member, readOnly⟩ => outside ⟨.inr member, ?_⟩
    rw [Memory.ReadOnly, first.pgDir, same] at readOnly
    exact readOnly

theorem low_bits (x : UInt32) : 3 &&& x = 0 ∨ 3 &&& x = 1 ∨ 3 &&& x = 2 ∨ 3 &&& x = 3 := by
  have small : (3 &&& x).toNat ≤ 3 := by
    rw [UInt32.toNat_and]
    exact Nat.and_le_left
  simp only [← UInt32.toNat_inj]
  change (3 &&& x).toNat = 0 ∨ (3 &&& x).toNat = 1 ∨ (3 &&& x).toNat = 2 ∨ (3 &&& x).toNat = 3
  omega

theorem and_three_or (x y : UInt32) : 3 &&& (x ||| y) = (3 &&& x) ||| (3 &&& y) :=
  UInt32.toBitVec_inj.mp BitVec.and_or_distrib_left

theorem and_three_or_seven (x : UInt32) : 3 &&& (x ||| 7) = 3 := by
  rw [and_three_or]
  rcases low_bits x with low | low | low | low <;> rw [low] <;> rfl

theorem and_one_eq (x : UInt32) : x &&& 1 = (3 &&& x) &&& 1 := by
  rw [UInt32.and_comm 3 x, UInt32.and_assoc]
  rfl

theorem and_two_eq (x : UInt32) : x &&& 2 = (3 &&& x) &&& 2 := by
  rw [UInt32.and_comm 3 x, UInt32.and_assoc]
  rfl

theorem entryOf_eq (n s : Nat) : (n >>> s &&& 0x3ff <<< 2) / 2 ^ 2 = n / 2 ^ (s + 2) % 2 ^ 10 := by
  rw [← Nat.shiftRight_eq_div_pow, Nat.shiftRight_and_distrib, ← Nat.shiftRight_add, Nat.shiftRight_eq_div_pow]
  exact Nat.and_two_pow_sub_one_eq_mod _ 10

theorem dirOf_eq (address : UInt32) : dirOf address = address.toNat / 4096 / 1024 := by
  have bound := address.toNat_lt
  rw [dirOf, UInt32.toNat_and, UInt32.toNat_shiftRight]
  refine (entryOf_eq address.toNat 20).trans ?_
  omega

theorem nrOf_eq (address : UInt32) : nrOf address = address.toNat / 4096 % 1024 := by
  rw [nrOf, UInt32.toNat_and, UInt32.toNat_shiftRight]
  exact entryOf_eq address.toNat 10

theorem Memory.setEntry_same (m : Memory) (q : Nat) (entry : UInt32) :
    (m.setEntry (q / 1024) (q % 1024) entry).entry q = entry := by
  simp only [setEntry, Memory.entry, update_self]

theorem Memory.setEntry_other (m : Memory) {q q' : Nat} (differ : q' ≠ q) (entry : UInt32) :
    (m.setEntry (q / 1024) (q % 1024) entry).entry q' = m.entry q' := by
  simp only [setEntry, Memory.entry]
  by_cases dir : q' / 1024 = q / 1024
  · have nr : q' % 1024 ≠ q % 1024 := by omega
    rw [dir, update_self, update_of_ne nr]
  · rw [update_of_ne dir]

theorem getFreePage_tables {page : UInt32} (got : getFreePage m = some (page, m')) :
    m'.pgDir = m.pgDir ∧ m'.table = m.table := by
  unfold getFreePage at got
  generalize lastFree m.memMap PAGING_PAGES = free at got
  cases free with
  | none => cases got
  | some nr =>
    obtain ⟨-, rfl⟩ := Prod.mk.inj (Option.some.inj got)
    exact ⟨rfl, rfl⟩

theorem unWpPage_unprotects {q : Nat} (readOnly : m.ReadOnly q)
    (done : unWpPage m (q / 1024) (q % 1024) = some m') : Unprotects (fun q' => q' = q) m m' := by
  unfold unWpPage at done
  dsimp only at done
  split at done
  · cases done
    refine ⟨rfl, ?_, ?_⟩
    · intro q' same _
      have one : 3 &&& m.table (q / 1024) (q % 1024) = 1 := readOnly.2
      rw [same, Memory.setEntry_same, and_three_or, one]
      rfl
    · intro q' other
      exact Memory.setEntry_other m (fun same => other ⟨same, same ▸ readOnly⟩) _
  · split at done
    · cases done
    next newPage m₁ got =>
      obtain ⟨pgDir, table⟩ := getFreePage_tables got
      generalize isCounted : (if LOW_MEM ≤ 0xfffff000 &&& m.table (q / 1024) (q % 1024) then
        m₁.setCount (MAP_NR (0xfffff000 &&& m.table (q / 1024) (q % 1024)))
          (m₁.memMap (MAP_NR (0xfffff000 &&& m.table (q / 1024) (q % 1024))) - 1) else m₁) = m₂ at done
      have same : m₂.pgDir = m.pgDir ∧ m₂.table = m.table := by
        rw [← isCounted]
        split <;> exact ⟨pgDir, table⟩
      obtain rfl := Option.some.inj done
      refine ⟨same.1, ?_, ?_⟩
      · intro q' isQ _
        rw [isQ, Memory.setEntry_same, and_three_or_seven]
      · intro q' other
        rw [Memory.setEntry_other _ fun isQ => other ⟨isQ, isQ ▸ readOnly⟩]
        exact congrFun (congrFun same.2 _) _

theorem writeVerify_unprotects {address : UInt32} (done : writeVerify m address = some m') :
    Unprotects (fun q => q = address.toNat / 4096) m m' := by
  unfold writeVerify at done
  rw [dirOf_eq, nrOf_eq] at done
  split at done
  next absent =>
    cases done
    exact .refl fun q here readOnly => readOnly.1 (here ▸ absent)
  next present =>
    split at done
    next low => exact unWpPage_unprotects ⟨present, low⟩ done
    next other =>
      cases done
      exact .refl fun q here readOnly => other (here ▸ readOnly.2)

/-! ## The loop -/

variable {size : Int32}

theorem toInt_sub_page (positive : 0 < size) : (size - 4096).toInt = size.toInt - 4096 := by
  have low := Int32.lt_iff_toInt_lt.mp positive
  have high := size.toInt_lt
  rw [Int32.toInt_sub]
  change (size.toInt - 4096).bmod (2 ^ 32) = size.toInt - 4096
  change 0 < size.toInt at low
  exact Int.bmod_eq_of_le (by omega) (by omega)

theorem verifyLoop_unprotects {rounds : Nat} {start : UInt32} (enough : size.toInt ≤ rounds * 4096)
    (done : verifyLoop rounds size start m = some m') :
    Unprotects (fun q => ∃ k : Nat, (k : Int) * 4096 < size.toInt ∧ q = (start.toNat / 4096 + k) % 2 ^ 20) m m' := by
  induction rounds generalizing size start m with
  | zero =>
    cases done
    refine .refl fun q ⟨k, inside, _⟩ => ?_
    omega
  | succ rounds ih =>
    rw [verifyLoop] at done
    by_cases positive : 0 < size
    · rw [if_pos positive] at done
      split at done
      · cases done
      next m₁ verified =>
        have left := toInt_sub_page positive
        have high := Int32.lt_iff_toInt_lt.mp positive
        change 0 < size.toInt at high
        have bound := start.toNat_lt
        have next : (start + 4096).toNat = (start.toNat + 4096) % 2 ^ 32 := UInt32.toNat_add ..
        have all := (writeVerify_unprotects verified).trans (ih (by omega) done)
        refine all.congr fun q => ⟨?_, ?_⟩
        · rintro (here | ⟨k, inside, later⟩)
          · exact ⟨0, by omega, by omega⟩
          · exact ⟨k + 1, by omega, by omega⟩
        · rintro ⟨k, inside, here⟩
          cases k with
          | zero => exact .inl (by omega)
          | succ k => exact .inr ⟨k, by omega, by omega⟩
    · rw [if_neg positive] at done
      cases done
      refine .refl fun q ⟨k, inside, _⟩ => ?_
      rw [Int32.lt_iff_toInt_lt] at positive
      change ¬0 < size.toInt at positive
      omega

theorem verifyLoop_enough {rounds : Nat} (extra : Nat) (start : UInt32) (m : Memory)
    (enough : size.toInt ≤ rounds * 4096) :
    verifyLoop (rounds + extra) size start m = verifyLoop rounds size start m := by
  induction rounds generalizing size start m with
  | zero =>
    have stops : ¬0 < size := by
      rw [Int32.lt_iff_toInt_lt]
      change ¬0 < size.toInt
      omega
    cases extra with
    | zero => rfl
    | succ extra =>
      rw [Nat.zero_add]
      exact if_neg stops
  | succ rounds ih =>
    rw [Nat.add_right_comm, verifyLoop, verifyLoop]
    by_cases positive : 0 < size
    · have left := toInt_sub_page positive
      rw [if_pos positive, if_pos positive]
      cases writeVerify m start with
      | none => rfl
      | some m => exact ih (start + 4096) m (by omega)
    · rw [if_neg positive, if_neg positive]

/-! ## The whole range -/

theorem toNat_offset (addr : UInt32) : (addr &&& 0xfff).toNat = addr.toNat % 4096 :=
  (UInt32.toNat_and ..).trans (Nat.and_two_pow_sub_one_eq_mod addr.toNat 12)

theorem toNat_page (addr : UInt32) : (addr &&& 0xfffff000).toNat = addr.toNat / 4096 * 4096 := by
  have bound := addr.toNat_lt
  have masked : addr.toNat &&& 0xfffff <<< 12 = (addr.toNat >>> 12 &&& 0xfffff) <<< 12 := by
    refine Nat.eq_of_testBit_eq fun i => ?_
    rw [Nat.testBit_and, Nat.testBit_shiftLeft, Nat.testBit_shiftLeft, Nat.testBit_and, Nat.testBit_shiftRight]
    by_cases high : 12 ≤ i
    · rw [Nat.add_sub_cancel' high, Bool.and_left_comm]
    · simp [high]
  have low : addr.toNat >>> 12 &&& 0xfffff = addr.toNat >>> 12 % 2 ^ 20 := Nat.and_two_pow_sub_one_eq_mod _ 20
  rw [UInt32.toNat_and]
  change addr.toNat &&& 0xfffff <<< 12 = _
  rw [masked, low, Nat.shiftLeft_eq, Nat.shiftRight_eq_div_pow]
  omega

/-- The pages that `verify_area` comes to. -/
def Reaches (seg : Segment) (addr : UInt32) (size : Int32) (q : Nat) : Prop :=
  ((addr.toNat % 4096 : Nat) : Int) + size.toInt < 2 ^ 31 ∧
    ∃ k : Nat, (k : Int) * 4096 < ((addr.toNat % 4096 : Nat) : Int) + size.toInt ∧
      q = (seg.base.toNat / 4096 + addr.toNat / 4096 + k) % 2 ^ 20

section Range

variable {seg : Segment} {addr : UInt32} {size : Int32} {m m' : Memory}

theorem verifyArea_unprotects (nonneg : 0 ≤ size) (below : addr.toNat < seg.limit)
    (run : verifyArea seg m addr size = some m') : Unprotects (Reaches seg addr size) m m' := by
  have positive := Int32.le_iff_toInt_le.mp nonneg
  change 0 ≤ size.toInt at positive
  have small := size.toInt_lt
  have aligned := seg.base_aligned
  have fits := seg.fits
  have offset : (addr &&& 0xfff).toInt32.toInt = ((addr.toNat % 4096 : Nat) : Int) := by
    change (addr &&& 0xfff).toBitVec.toInt = _
    have bound : 2 * (addr &&& 0xfff).toNat < 2 ^ 32 := by
      rw [toNat_offset]
      omega
    rw [BitVec.toInt_eq_toNat_of_lt bound, ← toNat_offset]
    rfl
  have start : ((addr &&& 0xfffff000) + seg.base).toNat = addr.toNat / 4096 * 4096 + seg.base.toNat := by
    rw [UInt32.toNat_add, toNat_page]
    omega
  unfold verifyArea at run
  dsimp only at run
  have total : (size + (addr &&& 0xfff).toInt32).toInt =
      (size.toInt + ((addr.toNat % 4096 : Nat) : Int)).bmod (2 ^ 32) := by
    rw [Int32.toInt_add, offset]
  refine (verifyLoop_unprotects (by omega) run).congr fun q => ?_
  rw [start, total]
  by_cases overflow : ((addr.toNat % 4096 : Nat) : Int) + size.toInt < 2 ^ 31
  · rw [Int.bmod_eq_of_le (by omega) (by omega)]
    constructor
    · rintro ⟨k, inside, here⟩
      exact ⟨overflow, k, by omega, by omega⟩
    · rintro ⟨-, k, inside, here⟩
      exact ⟨k, by omega, by omega⟩
  · have negative : (size.toInt + ((addr.toNat % 4096 : Nat) : Int)).bmod (2 ^ 32) < 0 := by
      rw [Int.bmod_def]
      omega
    refine iff_of_false ?_ fun reaches => overflow reaches.1
    rintro ⟨k, inside, -⟩
    omega

theorem clear_iff (nonneg : 0 ≤ size) (below : addr.toNat < seg.limit) :
    Clear seg addr size m ↔ ∀ q, m.ReadOnly q → (Reaches seg addr size q ↔ Overlaps seg addr size q) := by
  have positive := Int32.le_iff_toInt_le.mp nonneg
  change 0 ≤ size.toInt at positive
  have aligned := seg.base_aligned
  have whole := seg.limit_aligned
  have fits := seg.fits
  constructor
  · intro clear q readOnly
    constructor
    · rintro ⟨small, k, inside, here⟩
      by_cases last : seg.limit ≤ (addr.toNat / 4096 + k) * 4096
      · refine absurd readOnly ?_
        rw [here, Nat.add_assoc]
        exact clear.behind small _ last (by omega)
      · by_cases empty : size = 0
        · have none : size.toInt = 0 := by
            rw [empty]
            rfl
          refine absurd readOnly ?_
          have first : q = (seg.base.toNat + addr.toNat) / 4096 := by omega
          rw [first]
          exact clear.empty empty (by omega)
        · have some : size.toInt ≠ 0 := fun zero => empty (Int32.toInt_inj.mp zero)
          refine ⟨max addr.toNat ((addr.toNat / 4096 + k) * 4096), ?_, ?_, ?_, ?_⟩ <;> omega
    · rintro ⟨x, low, high, inside, here⟩
      by_cases small : ((addr.toNat % 4096 : Nat) : Int) + size.toInt < 2 ^ 31
      · exact ⟨small, x / 4096 - addr.toNat / 4096, by omega, by omega⟩
      · refine absurd readOnly ?_
        have page : q = seg.base.toNat / 4096 + x / 4096 := by omega
        rw [page]
        exact clear.overflow (by omega) _ (by omega) (by omega) (by omega)
  · intro same
    refine ⟨?_, ?_, ?_⟩
    · intro empty offset readOnly
      have none : size.toInt = 0 := by
        rw [empty]
        rfl
      obtain ⟨x, low, high, -⟩ := (same _ readOnly).mp ⟨by omega, 0, by omega, by omega⟩
      omega
    · intro small p last inside readOnly
      obtain ⟨x, low, high, inside', here⟩ := (same _ readOnly).mp
        ⟨small, p - addr.toNat / 4096, by omega, by congr 1; omega⟩
      omega
    · intro large p low inside high readOnly
      obtain ⟨small, -⟩ := (same _ readOnly).mpr ⟨max addr.toNat (p * 4096), by omega, by omega, by omega, by omega⟩
      omega

theorem Memory.readOnly_iff (m : Memory) (q : Nat) : m.ReadOnly q ↔ m.Present q ∧ ¬m.Writable q := by
  unfold ReadOnly Present Writable
  rw [and_one_eq (m.entry q), and_two_eq (m.entry q)]
  rcases low_bits (m.entry q) with low | low | low | low <;> rw [low] <;> simp +decide

/-- A range is protected as it should be, unless a read-only page is taken in or left out. -/
theorem verifyArea_protects_iff (nonneg : 0 ≤ size) (below : addr.toNat < seg.limit)
    (run : verifyArea seg m addr size = some m') : Protects seg addr size m m' ↔ Clear seg addr size m := by
  have unprotects := verifyArea_unprotects nonneg below run
  rw [clear_iff nonneg below]
  -- a page that has been left alone is as read-only as it was
  have stays : ∀ q, m'.entry q = m.entry q → (m'.ReadOnly q ↔ m.ReadOnly q) := by
    intro q same
    rw [Memory.ReadOnly, Memory.ReadOnly, unprotects.pgDir, same]
  constructor
  · rintro ⟨writable, -, others⟩ q readOnly
    constructor
    · intro reached
      by_contra outside
      have three := unprotects.cleared q reached readOnly
      rw [others q outside] at three
      cases three.symm.trans readOnly.2
    · intro overlaps
      by_contra missed
      have same := unprotects.kept q fun both => missed both.1
      have still := (m'.readOnly_iff q).mp ((stays q same).mpr readOnly)
      exact still.2 (writable q overlaps still.1)
  · intro same
    refine ⟨fun q overlaps present => ?_, unprotects.pgDir, fun q outside => ?_⟩
    · by_contra fixed
      have readOnly' := (m'.readOnly_iff q).mpr ⟨present, fixed⟩
      have alone : ¬(Reaches seg addr size q ∧ m.ReadOnly q) := by
        rintro ⟨reached, readOnly⟩
        cases (unprotects.cleared q reached readOnly).symm.trans readOnly'.2
      have readOnly := (stays q (unprotects.kept q alone)).mp readOnly'
      exact alone ⟨(same q readOnly).mpr overlaps, readOnly⟩
    · exact unprotects.kept q fun both => outside ((same q both.2).mp both.1)

end Range

/-! ## A task with one shared page -/

theorem taskSegment_fits : (0x4000000 : UInt32).toNat + 0x4000000 ≤ 2 ^ 32 := by decide

def taskSegment : Segment where
  base := 0x4000000
  limit := 0x4000000
  base_aligned := rfl
  limit_aligned := rfl
  fits := taskSegment_fits

def sharedPage : Memory where
  pgDir := fun d => if d = 16 then 0x3ff007 else 0
  table := fun d nr => if d = 16 ∧ nr = 0 then 0x200005 else 0
  memMap := fun nr => if nr = 0x100 then 2 else 0
  page := fun _ _ => 0

theorem sharedPage_protected :
    ∃ m', verifyArea taskSegment sharedPage 0x10 100 = some m' ∧ Protects taskSegment 0x10 100 sharedPage m' := by
  obtain ⟨m', run⟩ := Option.isSome_iff_exists.mp (show (verifyArea taskSegment sharedPage 0x10 100).isSome by decide)
  have sizes : (0x10 : UInt32).toNat = 16 ∧ (100 : Int32).toInt = 100 ∧ taskSegment.limit = 67108864 := by decide
  refine ⟨m', run, (verifyArea_protects_iff (by decide) (by decide) run).mpr ⟨fun empty => ?_, ?_, ?_⟩⟩
  · cases empty
  · intro _ p last inside
    omega
  · intro large
    omega

/-- The size and the offset of the address add up to -2147483648. -/
theorem large_size_unprotected :
    verifyArea taskSegment sharedPage 1 0x7fffffff = some sharedPage ∧
      ¬Protects taskSegment 1 0x7fffffff sharedPage sharedPage := by
  refine ⟨rfl, fun protects => ?_⟩
  have first : Overlaps taskSegment 1 0x7fffffff 16384 := ⟨1, by decide, by decide, by decide, rfl⟩
  exact protects.writable 16384 first ⟨by decide, by decide⟩ rfl

end Linux012.Mm.VerifyArea

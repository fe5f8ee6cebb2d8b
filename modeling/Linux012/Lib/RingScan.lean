import Mathlib.Tactic.Positivity
import Mathlib.Tactic.Ring

/-! A scan of tables of `width` entries, taken one after the other in a ring, some of which are
absent. An entry costs one of the counter and an absent table `width`. -/

set_option autoImplicit false

namespace RingScan

variable {δ ρ : Type*} {width : Nat}

/-- From a table to the next one that is present, with what is left of the counter; a table that
is absent ends the scan when nothing is left. -/
def skip (wide : 0 < width) (next : δ → δ) (present : δ → Bool) (counter : Int) (d : δ) : Int × δ × Bool :=
  if present (next d) then (counter, next d, true)
  else if 0 < counter - width then skip wide next present (counter - width) (next d)
  else (counter - width, next d, false)
termination_by counter.toNat
decreasing_by omega

theorem skip_le (wide : 0 < width) (next : δ → δ) (present : δ → Bool) (counter : Int) (d : δ) :
    (skip wide next present counter d).1 ≤ counter := by
  fun_induction skip wide next present counter d with
  | case1 => exact le_rfl
  | case2 counter d absent left ih =>
    refine ih.trans ?_
    omega
  | case3 =>
    dsimp only
    omega

/-- The scan behind entry `p` of table `d`: where it ends, and what an attempt has come to. -/
def scan (wide : 0 < width) (next : δ → δ) (present : δ → Bool) (attempt : δ → Nat → Option ρ) (counter : Int) (d : δ)
    (p : Int) : (δ × Int) × Option ρ :=
  if 0 < counter then
    if width ≤ p + 1 then
      if (skip wide next present (counter - 1) d).2.2 then
        match attempt (skip wide next present (counter - 1) d).2.1 0 with
        | some r => (((skip wide next present (counter - 1) d).2.1, 0), some r)
        | none =>
          scan wide next present attempt (skip wide next present (counter - 1) d).1
            (skip wide next present (counter - 1) d).2.1 0
      else (((skip wide next present (counter - 1) d).2.1, 0), none)
    else
      match attempt d (p + 1).toNat with
      | some r => ((d, p + 1), some r)
      | none => scan wide next present attempt (counter - 1) d (p + 1)
  else ((d, p), none)
termination_by counter.toNat
decreasing_by
  · have := skip_le wide next present (counter - 1) d
    omega
  · omega

/-- The first table from `d` on that is present, unless the counter runs out before. -/
def firstTable (wide : 0 < width) (next : δ → δ) (present : δ → Bool) (counter : Int) (d : δ) : Int × δ :=
  if 0 < counter then
    if present d then (counter, d) else firstTable wide next present (counter - width) (next d)
  else (counter, d)
termination_by counter.toNat
decreasing_by omega

/-! ## What a scan comes to -/

/-- Entry `q` of the table after `j` others, `n` behind entry `p` of table `d`. -/
def Behind (width : Nat) (p : Int) (j q : Nat) (n : Int) : Prop := q < width ∧ n = width * j + q - p

/-- The scan tries the entries up to `counter`, but for the first entry of a table that comes
after an absent one when there is nothing left for another. -/
def Tried (width : Nat) (next : δ → δ) (present : δ → Bool) (counter : Int) (d : δ) (p : Int) (j q : Nat) : Prop :=
  ∃ n, Behind width p j q n ∧ 0 < n ∧ n ≤ counter ∧ present (next^[j] d) = true ∧
    ¬(n = counter ∧ q = 0 ∧ ∃ i, j = i + 1 ∧ present (next^[i] d) = false)

variable {wide : 0 < width} {next : δ → δ} {present : δ → Bool} {attempt : δ → Nat → Option ρ}

theorem skip_spec (wide : 0 < width) (next : δ → δ) (present : δ → Bool) (counter : Int) (d : δ) :
    ∃ k : Nat, (skip wide next present counter d).1 = counter - width * k ∧
      (∀ i, 1 ≤ i → i ≤ k → present (next^[i] d) = false) ∧
      (((skip wide next present counter d).2 = (next^[k + 1] d, true) ∧ present (next^[k + 1] d) = true ∧
          (k = 0 ∨ 0 < counter - width * k)) ∨
        ((skip wide next present counter d).2 = (next^[k] d, false) ∧ 1 ≤ k ∧ counter - width * k ≤ 0)) := by
  fun_induction skip wide next present counter d with
  | case1 counter d there =>
    exact ⟨0, by simp, fun i above below => by omega, .inl ⟨rfl, there, .inl rfl⟩⟩
  | case2 counter d absent left ih =>
    obtain ⟨k, counted, gap, ends⟩ := ih
    refine ⟨k + 1, ?_, ?_, ?_⟩
    · rw [counted]
      push_cast
      ring
    · rintro (_ | i) above below
      · omega
      · rcases Nat.eq_zero_or_pos i with rfl | positive
        · exact Bool.eq_false_of_not_eq_true absent
        · exact gap i positive (by omega)
    · have same : counter - width * (k + 1 : Nat) = counter - width - width * k := by
        push_cast
        ring
      rw [same]
      rcases ends with ⟨place, there, enough⟩ | ⟨place, one, used⟩
      · refine .inl ⟨place, there, .inr ?_⟩
        rcases enough with rfl | more
        · simpa using left
        · exact more
      · exact .inr ⟨place, by omega, used⟩
  | case3 counter d absent used =>
    refine ⟨1, by simp, ?_, .inr ⟨rfl, le_rfl, ?_⟩⟩
    · intro i above below
      obtain rfl : i = 1 := by omega
      exact Bool.eq_false_of_not_eq_true absent
    · push_cast
      omega

theorem firstTable_spec (wide : 0 < width) (next : δ → δ) (present : δ → Bool) (counter : Int) (d : δ) :
    ∃ a : Nat, firstTable wide next present counter d = (counter - width * a, next^[a] d) ∧
      (∀ i < a, present (next^[i] d) = false) ∧ (present (next^[a] d) = true ∧ 0 < counter - width * a ∨
        counter - width * a ≤ 0) := by
  fun_induction firstTable wide next present counter d with
  | case1 counter d left there => exact ⟨0, by simp, by simp, .inl ⟨there, by simpa using left⟩⟩
  | case2 counter d left absent ih =>
    obtain ⟨a, same, gap, ends⟩ := ih
    have counted : counter - width * (a + 1 : Nat) = counter - width - width * a := by
      push_cast
      ring
    refine ⟨a + 1, by rw [same, counted]; rfl, ?_, by rw [counted]; exact ends⟩
    rintro (_ | i) below
    · exact Bool.eq_false_of_not_eq_true absent
    · exact gap i (by omega)
  | case3 counter d used => exact ⟨0, by simp, by simp, .inr (by simpa using used)⟩

section Tries

variable {counter p : Int} {d : δ}

theorem forall_tried_step (inside : p + 1 < width) (lower : -1 ≤ p) (left : 0 < counter) (there : present d = true)
    (P : δ → Nat → Prop) :
    (∀ j q, Tried width next present counter d p j q → P (next^[j] d) q) ↔
      P d (p + 1).toNat ∧ ∀ j q, Tried width next present (counter - 1) d (p + 1) j q → P (next^[j] d) q := by
  constructor
  · intro all
    refine ⟨all 0 (p + 1).toNat ⟨1, ⟨by omega, ?_⟩, one_pos, left, there, ?_⟩, ?_⟩
    · push_cast
      omega
    · rintro ⟨-, -, i, zero, -⟩
      omega
    · rintro j q ⟨n, ⟨small, distance⟩, positive, enough, present_, notLast⟩
      refine all j q ⟨n + 1, ⟨small, by omega⟩, by omega, by omega, present_, ?_⟩
      rintro ⟨last, rest⟩
      exact notLast ⟨by omega, rest⟩
  · rintro ⟨first, rest⟩ j q ⟨n, ⟨small, distance⟩, positive, enough, present_, notLast⟩
    by_cases one : n = 1
    · have same : (width : Int) * j + q = p + 1 := by omega
      obtain rfl : j = 0 := by
        by_contra nonzero
        have : (width : Int) * 1 ≤ width * j := mul_le_mul_of_nonneg_left (by omega) (by omega)
        omega
      obtain rfl : q = (p + 1).toNat := by
        push_cast at same
        omega
      exact first
    · refine rest j q ⟨n - 1, ⟨small, by omega⟩, by omega, by omega, present_, ?_⟩
      rintro ⟨last, rest⟩
      exact notLast ⟨by omega, rest⟩

theorem tried_behind {j q : Nat} {k : Nat} (gap : ∀ i, 1 ≤ i → i ≤ k → present (next^[i] d) = false)
    (tried : Tried width next present counter d (width - 1) j q) :
    ∃ m, j = m + (k + 1) ∧ q < width ∧ (width : Int) * m + q + width * k + 1 ≤ counter ∧
      present (next^[m + (k + 1)] d) = true ∧
      ¬((width : Int) * m + q + width * k + 1 = counter ∧ q = 0 ∧ present (next^[m + k] d) = false) := by
  obtain ⟨n, ⟨small, distance⟩, positive, enough, there, notLast⟩ := tried
  have one : 1 ≤ j := by
    by_contra zero
    obtain rfl : j = 0 := by omega
    push_cast at distance
    omega
  have beyond : k < j := by
    by_contra within
    rw [gap j one (not_lt.mp within)] at there
    cases there
  obtain ⟨m, rfl⟩ : ∃ m, j = m + (k + 1) := ⟨j - (k + 1), by omega⟩
  have expand : (width : Int) * (m + (k + 1) : Nat) = width * m + width * k + width := by
    push_cast
    ring
  rw [expand] at distance
  refine ⟨m, rfl, small, by omega, there, ?_⟩
  rintro ⟨last, zero, absent⟩
  exact notLast ⟨by omega, zero, m + k, rfl, absent⟩

theorem tried_of_behind {m q k : Nat} (small : q < width) (enough : (width : Int) * m + q + width * k + 1 ≤ counter)
    (there : present (next^[m + (k + 1)] d) = true)
    (notLast : ¬((width : Int) * m + q + width * k + 1 = counter ∧ q = 0 ∧ present (next^[m + k] d) = false)) :
    Tried width next present counter d (width - 1) (m + (k + 1)) q := by
  have expand : (width : Int) * (m + (k + 1) : Nat) = width * m + width * k + width := by
    push_cast
    ring
  have nonneg : (0 : Int) ≤ width * m ∧ (0 : Int) ≤ width * k := ⟨by positivity, by positivity⟩
  refine ⟨width * m + q + width * k + 1, ⟨small, ?_⟩, by omega, enough, there, ?_⟩
  · rw [expand]
    omega
  · rintro ⟨last, zero, i, next_, absent⟩
    obtain rfl : i = m + k := by omega
    exact notLast ⟨last, zero, absent⟩

theorem forall_tried_next {k : Nat} (wide : 0 < width) (there : present d = true)
    (gap : ∀ i, 1 ≤ i → i ≤ k → present (next^[i] d) = false) (present_ : present (next^[k + 1] d) = true)
    (left : 0 < counter) (enough : k = 0 ∨ 0 < counter - 1 - width * k) (P : δ → Nat → Prop) :
    (∀ j q, Tried width next present counter d (width - 1) j q → P (next^[j] d) q) ↔
      P (next^[k + 1] d) 0 ∧
        ∀ j q, Tried width next present (counter - 1 - width * k) (next^[k + 1] d) 0 j q →
          P (next^[j] (next^[k + 1] d)) q := by
  have iterates (m : Nat) : next^[m] (next^[k + 1] d) = next^[m + (k + 1)] d := (Function.iterate_add_apply ..).symm
  constructor
  · intro all
    have first : Tried width next present counter d (width - 1) (0 + (k + 1)) 0 := by
      refine tried_of_behind wide ?_ (by rwa [Nat.zero_add]) ?_
      · rcases enough with rfl | more
        · push_cast
          omega
        · push_cast
          omega
      · rintro ⟨last, -, absent⟩
        rcases enough with rfl | more
        · rw [Nat.zero_add, Function.iterate_zero, id, there] at absent
          cases absent
        · push_cast at last
          omega
    refine ⟨?_, ?_⟩
    · have := all _ _ first
      rwa [Nat.zero_add] at this
    · rintro j q ⟨n, ⟨small, distance⟩, positive, within, there', notLast⟩
      rw [iterates] at there' ⊢
      refine all _ _ (tried_of_behind small (by omega) there' ?_)
      rintro ⟨last, rfl, absent⟩
      have later : j ≠ 0 := by
        rintro rfl
        push_cast at distance
        omega
      obtain ⟨i, rfl⟩ := Nat.exists_eq_succ_of_ne_zero later
      refine notLast ⟨by omega, rfl, i, rfl, ?_⟩
      rw [iterates, ← absent]
      congr 2
      omega
  · rintro ⟨first, rest⟩ j q tried
    obtain ⟨m, rfl, small, within, there', notLast⟩ := tried_behind gap tried
    by_cases start : m = 0 ∧ q = 0
    · obtain ⟨rfl, rfl⟩ := start
      rwa [Nat.zero_add]
    · have later := rest m q
      rw [iterates] at later
      refine later ⟨width * m + q, ⟨small, by omega⟩, ?_, by omega, by rwa [iterates], ?_⟩
      · have nonneg : (0 : Int) ≤ width * m := by positivity
        rcases Nat.eq_zero_or_pos q with rfl | positive
        · have nonzero : 0 < m := by omega
          have : (0 : Int) < width * m := by positivity
          omega
        · omega
      · rintro ⟨last, zero, i, rfl, absent⟩
        refine notLast ⟨by omega, zero, ?_⟩
        rw [iterates] at absent
        rw [← absent]
        congr 2
        omega

theorem not_tried {k j q : Nat} (wide : 0 < width) (gap : ∀ i, 1 ≤ i → i ≤ k → present (next^[i] d) = false)
    (one : 1 ≤ k) (used : counter - 1 - width * k ≤ 0) : ¬Tried width next present counter d (width - 1) j q := by
  intro tried
  obtain ⟨m, -, small, enough, there, notLast⟩ := tried_behind gap tried
  have nonneg : (0 : Int) ≤ width * m := by positivity
  obtain rfl : m = 0 := by
    by_contra nonzero
    have : (width : Int) * 1 ≤ width * m := mul_le_mul_of_nonneg_left (by omega) (by omega)
    omega
  push_cast at enough notLast
  rw [Nat.zero_add] at notLast
  exact notLast ⟨by omega, by omega, gap k one le_rfl⟩

theorem skip_found {c : Int} (found : (skip wide next present c d).2.2 = true) :
    ∃ k : Nat, (skip wide next present c d).1 = c - width * k ∧ (skip wide next present c d).2.1 = next^[k + 1] d ∧
      (∀ i, 1 ≤ i → i ≤ k → present (next^[i] d) = false) ∧ present (next^[k + 1] d) = true ∧
      (k = 0 ∨ 0 < c - width * k) := by
  obtain ⟨k, counted, gap, ⟨place, there, enough⟩ | ⟨place, -, -⟩⟩ := skip_spec wide next present c d
  · exact ⟨k, counted, congrArg Prod.fst place, gap, there, enough⟩
  · rw [place] at found
    cases found

theorem skip_ended {c : Int} (ended : ¬(skip wide next present c d).2.2 = true) :
    ∃ k : Nat, 1 ≤ k ∧ (∀ i, 1 ≤ i → i ≤ k → present (next^[i] d) = false) ∧ c - width * k ≤ 0 := by
  obtain ⟨k, -, gap, ⟨place, -, -⟩ | ⟨-, one, used⟩⟩ := skip_spec wide next present c d
  · rw [place] at ended
    exact absurd rfl ended
  · exact ⟨k, one, gap, used⟩

theorem scan_eq_none_iff (wide : 0 < width) (next : δ → δ) (present : δ → Bool) (attempt : δ → Nat → Option ρ)
    (counter : Int) (d : δ) (p : Int) (lower : -1 ≤ p) (upper : p < width) (there : present d = true) :
    (scan wide next present attempt counter d p).2 = none ↔
      ∀ j q, Tried width next present counter d p j q → attempt (next^[j] d) q = none := by
  fun_induction scan wide next present attempt counter d p with
  | case1 counter d p left last gone r found =>
    obtain rfl : p = width - 1 := by omega
    obtain ⟨k, -, place, gap, present_, enough⟩ := skip_found gone
    have tries := (forall_tried_next wide there gap present_ left enough) fun d q => attempt d q = none
    refine iff_of_false (Option.some_ne_none r) fun all => ?_
    rw [place, (tries.mp all).1] at found
    cases found
  | case2 counter d p left last gone failed ih =>
    obtain rfl : p = width - 1 := by omega
    obtain ⟨k, counted, place, gap, present_, enough⟩ := skip_found gone
    rw [counted, place] at ih ⊢
    rw [place] at failed
    rw [ih (by omega) (by omega) present_,
      forall_tried_next wide there gap present_ left enough fun d q => attempt d q = none]
    exact ⟨fun rest => ⟨failed, rest⟩, fun both => both.2⟩
  | case3 counter d p left last gone =>
    obtain rfl : p = width - 1 := by omega
    obtain ⟨k, one, gap, used⟩ := skip_ended gone
    exact iff_of_true rfl fun j q tried => absurd tried (not_tried wide gap one used)
  | case4 counter d p left inside r found =>
    refine iff_of_false (Option.some_ne_none r) fun all => ?_
    rw [forall_tried_step (not_le.mp inside) lower left there fun d q => attempt d q = none] at all
    rw [all.1] at found
    cases found
  | case5 counter d p left inside failed ih =>
    rw [ih (by omega) (not_le.mp inside) there,
      forall_tried_step (not_le.mp inside) lower left there fun d q => attempt d q = none]
    exact ⟨fun rest => ⟨failed, rest⟩, fun both => both.2⟩
  | case6 counter d p used =>
    refine iff_of_true rfl ?_
    rintro j q ⟨n, -, positive, enough, -⟩
    omega

theorem scan_some {wide : 0 < width} {next : δ → δ} {present : δ → Bool} {attempt : δ → Nat → Option ρ} {counter : Int}
    {d : δ} {p : Int} {r : ρ} (found : (scan wide next present attempt counter d p).2 = some r) :
    ∃ e q, attempt e q = some r := by
  fun_induction scan wide next present attempt counter d p with
  | case1 counter d p left last gone r' attempted | case4 counter d p left inside r' attempted =>
    exact ⟨_, _, attempted.trans found⟩
  | case2 counter d p left last gone failed ih | case5 counter d p left inside failed ih => exact ih found
  | case3 counter d p left last gone | case6 counter d p used => cases found

theorem scan_place (wide : 0 < width) (next : δ → δ) (present : δ → Bool) (attempt : δ → Nat → Option ρ)
    (counter : Int) (d : δ) (p : Int) (lower : -1 ≤ p) (upper : p < width) :
    (∃ j, (scan wide next present attempt counter d p).1.1 = next^[j] d) ∧
      -1 ≤ (scan wide next present attempt counter d p).1.2 ∧
      (scan wide next present attempt counter d p).1.2 < width := by
  have skipped (counter : Int) (d : δ) : ∃ j, (skip wide next present counter d).2.1 = next^[j] d := by
    obtain ⟨k, -, -, ⟨place, -, -⟩ | ⟨place, -, -⟩⟩ := skip_spec wide next present counter d
    · exact ⟨k + 1, congrArg Prod.fst place⟩
    · exact ⟨k, congrArg Prod.fst place⟩
  fun_induction scan wide next present attempt counter d p with
  | case1 counter d | case3 counter d => exact ⟨skipped _ _, by dsimp only; omega, by dsimp only; omega⟩
  | case2 counter d p left last gone failed ih =>
    obtain ⟨⟨j, place⟩, bounds⟩ := ih (by decide) (by omega)
    obtain ⟨i, start⟩ := skipped (counter - 1) d
    exact ⟨⟨j + i, by rw [place, start, ← Function.iterate_add_apply]⟩, bounds⟩
  | case4 counter d p left inside r found => exact ⟨⟨0, rfl⟩, by dsimp only; omega, by dsimp only; omega⟩
  | case5 counter d p left inside failed ih => exact ih (by omega) (by omega)
  | case6 counter d p used => exact ⟨⟨0, rfl⟩, lower, upper⟩

end Tries

end RingScan

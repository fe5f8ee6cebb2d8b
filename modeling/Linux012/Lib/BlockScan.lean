import Mathlib.Data.Nat.Find
import Mathlib.Tactic.Common

/-! Scans of a table that lies in blocks of `width` entries, where a block may be missing.
The scan holds a block, and after one that is missing it holds none. -/

set_option autoImplicit false

namespace BlockScan

inductive Fetch (β : Type) where
  | ends
  | panics
  | missing
  | block (b : β)

inductive Outcome where
  | ends
  | panics
  /-- the scan goes on and uses the block that it does not hold -/
  | null
deriving DecidableEq

section Scan

variable {β : Type} (width : Nat) (more : Nat → Bool) (stop : Nat → β → Nat → Bool) (fetch : Nat → Fetch β)
  (last : Outcome)

/-- `last` is what the scan comes to when its rounds are over. -/
def scan : Nat → Nat → Option β → Nat → Outcome
  | 0, _, _, _ => last
  | rounds + 1, i, held, at_ =>
    if more i then
      match held with
      | none => .null
      | some b =>
        if at_ < width then if stop i b at_ then .ends else scan rounds (i + 1) (some b) (at_ + 1)
        else
          match fetch (i / width) with
          | .ends => .ends
          | .panics => .panics
          | .missing => scan rounds (i + width) none at_
          | .block b => if stop i b 0 then .ends else scan rounds (i + 1) (some b) 1
    else .ends

theorem scan_succ (rounds i : Nat) (held : Option β) (at_ : Nat) :
    scan width more stop fetch last (rounds + 1) i held at_ =
      if more i then
        match held with
        | none => .null
        | some b =>
          if at_ < width then
            if stop i b at_ then .ends else scan width more stop fetch last rounds (i + 1) (some b) (at_ + 1)
          else
            match fetch (i / width) with
            | .ends => .ends
            | .panics => .panics
            | .missing => scan width more stop fetch last rounds (i + width) none at_
            | .block b =>
              if stop i b 0 then .ends else scan width more stop fetch last rounds (i + 1) (some b) 1
      else .ends :=
  rfl

def blockAt (first : β) (k : Nat) : Option β :=
  if k = 0 then some first
  else
    match fetch k with
    | .block b => some b
    | _ => none

structure Gap (k : Nat) : Prop where
  later : k ≠ 0
  missing : fetch k = .missing
  here : more (k * width) = true
  behind : more ((k + 1) * width) = true

def Passed (first : β) (j : Nat) : Prop :=
  more j = true ∧ ∃ b, blockAt fetch first (j / width) = some b ∧ stop j b (j % width) = false

def RunsInto (first : β) (i : Nat) : Prop :=
  ∃ k, Gap width more fetch k ∧ i ≤ k * width ∧
    ∀ j, i ≤ j → j < k * width → Passed width more stop fetch first j

def Halts (first : β) (j : Nat) : Prop :=
  (j / width ≠ 0 ∧ (fetch (j / width) = .ends ∨ fetch (j / width) = .panics)) ∨
    ∃ b, blockAt fetch first (j / width) = some b ∧ stop j b (j % width) = true

variable {width more stop fetch last}

variable {first : β}

theorem blockAt_of_ne {k : Nat} (later : k ≠ 0) {b : β} :
    blockAt fetch first k = some b ↔ fetch k = .block b := by
  rw [blockAt, if_neg later]
  cases fetch k <;> simp

theorem not_runsInto {i : Nat} (done : more i = false) : ¬RunsInto width more stop fetch first i := by
  rintro ⟨k, gap, before, passed⟩
  rcases Nat.eq_or_lt_of_le before with rfl | less
  · rw [gap.here] at done
    cases done
  · have also := (passed i (Nat.le_refl i) less).1
    rw [done] at also
    cases also

theorem runsInto_step {k at_ : Nat} {b : β} (block : blockAt fetch first k = some b) (inside : at_ < width)
    (here : more (k * width + at_) = true) :
    RunsInto width more stop fetch first (k * width + at_) ↔
      stop (k * width + at_) b at_ = false ∧ RunsInto width more stop fetch first (k * width + at_ + 1) := by
  have wide : 0 < width := by omega
  have quotient : (k * width + at_) / width = k := by
    rw [Nat.mul_comm, Nat.mul_add_div wide, Nat.div_eq_of_lt inside, Nat.add_zero]
  have rest : (k * width + at_) % width = at_ := by
    rw [Nat.mul_comm, Nat.mul_add_mod, Nat.mod_eq_of_lt inside]
  have passed_iff : Passed width more stop fetch first (k * width + at_) ↔ stop (k * width + at_) b at_ = false := by
    rw [Passed, quotient, rest, block]
    simp [here]
  constructor
  · rintro ⟨k', gap, before, passed⟩
    have other : k' ≠ k := by
      rintro rfl
      rw [blockAt_of_ne gap.later, gap.missing] at block
      cases block
    have notBefore : k ≤ k' := Nat.le_of_mul_le_mul_right (Nat.le_of_add_right_le before) wide
    have beyond : k * width + at_ + 1 ≤ k' * width := by
      have scaled := Nat.mul_le_mul_right width (show k + 1 ≤ k' by omega)
      rw [Nat.add_mul] at scaled
      omega
    exact ⟨passed_iff.mp (passed _ (Nat.le_refl _) beyond), k', gap, beyond, fun j from_ => passed j (by omega)⟩
  · rintro ⟨goesOn, k', gap, before, passed⟩
    refine ⟨k', gap, by omega, fun j from_ below => ?_⟩
    rcases Nat.eq_or_lt_of_le from_ with rfl | after
    · exact passed_iff.mpr goesOn
    · exact passed j after below

theorem scan_null_iff (wide : 0 < width) (notNull : last ≠ .null) {rounds k at_ : Nat} {b : β}
    (block : blockAt fetch first k = some b) (within : at_ ≤ width)
    (enough : ∀ k', Gap width more fetch k' → (k' + 1) * width < k * width + at_ + rounds) :
    scan width more stop fetch last rounds (k * width + at_) (some b) at_ = .null ↔
      RunsInto width more stop fetch first (k * width + at_) := by
  induction rounds generalizing k at_ b with
  | zero =>
    refine iff_of_false notNull ?_
    rintro ⟨k', gap, before, _⟩
    have bounded := enough k' gap
    rw [Nat.add_mul] at bounded
    omega
  | succ rounds ih =>
    by_cases here : more (k * width + at_) = true
    · -- an entry of a block that is held decides, or the scan goes on behind it
      have entry {k at_ : Nat} {b : β} (block : blockAt fetch first k = some b) (inside : at_ < width)
          (enough : ∀ k', Gap width more fetch k' → (k' + 1) * width < k * width + at_ + (rounds + 1))
          (here : more (k * width + at_) = true) :
          (if stop (k * width + at_) b at_ then Outcome.ends
            else scan width more stop fetch last rounds (k * width + at_ + 1) (some b) (at_ + 1)) = .null ↔
            RunsInto width more stop fetch first (k * width + at_) := by
        have later := ih block inside (fun k' gap => by have bounded := enough k' gap; omega)
        rw [Nat.add_succ] at later
        rw [runsInto_step block inside here]
        cases stop (k * width + at_) b at_ with
        | true => simp
        | false => simpa using later
      rcases Nat.lt_or_eq_of_le within with inside | atEnd
      · rw [scan, if_pos here]
        simp only [if_pos inside]
        exact entry block inside enough here
      · have next : k * width + at_ = (k + 1) * width := by rw [atEnd, Nat.add_mul, Nat.one_mul]
        rw [next] at here enough ⊢
        have index : (k + 1) * width / width = k + 1 := Nat.mul_div_left _ wide
        rw [scan, if_pos here]
        simp only [atEnd, Nat.lt_irrefl, if_false, index]
        have only (none : ∀ b, fetch (k + 1) ≠ .block b)
            (runs : RunsInto width more stop fetch first ((k + 1) * width)) : Gap width more fetch (k + 1) := by
          obtain ⟨k', gap, before, passed⟩ := runs
          have notBefore : k + 1 ≤ k' := Nat.le_of_mul_le_mul_right before wide
          rcases Nat.eq_or_lt_of_le notBefore with rfl | less
          · exact gap
          · obtain ⟨_, b, there, _⟩ := passed ((k + 1) * width) (Nat.le_refl _)
              (Nat.mul_lt_mul_of_pos_right less wide)
            rw [index, blockAt_of_ne (Nat.succ_ne_zero k)] at there
            exact absurd there (none b)
        cases fetched : fetch (k + 1) with
        | ends | panics =>
          refine iff_of_false (by simp) fun runs => ?_
          have missing := (only (by simp [fetched]) runs).missing
          rw [fetched] at missing
          cases missing
        | block b' =>
          have following : blockAt fetch first (k + 1) = some b' := (blockAt_of_ne (Nat.succ_ne_zero k)).mpr fetched
          exact entry following wide enough here
        | missing =>
          have after : (k + 1) * width + width = (k + 1 + 1) * width := by rw [← Nat.succ_mul]
          simp only [after]
          by_cases behind : more ((k + 1 + 1) * width) = true
          · have gap : Gap width more fetch (k + 1) := ⟨Nat.succ_ne_zero k, fetched, here, behind⟩
            have bounded := enough (k + 1) gap
            obtain ⟨left, rfl⟩ := Nat.exists_eq_succ_of_ne_zero (show rounds ≠ 0 by omega)
            rw [scan, if_pos behind]
            refine iff_of_true rfl ⟨k + 1, gap, Nat.le_refl _, fun j from_ below => ?_⟩
            exact absurd below (Nat.not_lt.mpr from_)
          · refine iff_of_false ?_ fun runs => behind (only (by simp [fetched]) runs).behind
            cases rounds with
            | zero => exact notNull
            | succ rounds =>
              rw [scan, if_neg behind]
              simp
    · rw [scan, if_neg here]
      exact iff_of_false (by simp) (not_runsInto (by simpa using here))

theorem scan_ne_null_iff (wide : 0 < width) (notNull : last ≠ .null)
    (decreasing : ∀ i j, i ≤ j → more j = true → more i = true) {rounds : Nat}
    (enough : ∀ k, Gap width more fetch k → (k + 1) * width < rounds) :
    scan width more stop fetch last rounds 0 (some first) 0 ≠ .null ↔
      ∀ k, Gap width more fetch k → ∃ j < k * width, Halts width stop fetch first j := by
  have runs : scan width more stop fetch last rounds (0 * width + 0) (some first) 0 = .null ↔
      RunsInto width more stop fetch first (0 * width + 0) :=
    scan_null_iff wide notNull rfl (Nat.zero_le width) (by simpa using enough)
  simp only [Nat.zero_mul, Nat.zero_add] at runs
  rw [Ne, runs]
  constructor
  · intro not k gap
    by_contra never
    push Not at never
    -- the first gap is where the scan would have come to
    classical
    have some : ∃ k, Gap width more fetch k := ⟨k, gap⟩
    have least := Nat.find_spec some
    have first_le : Nat.find some ≤ k := Nat.find_min' some gap
    refine not ⟨Nat.find some, least, Nat.zero_le _, fun j _ below => ⟨?_, ?_⟩⟩
    · exact decreasing j _ (Nat.le_of_lt below) least.here
    · have goesOn := never j (Nat.lt_of_lt_of_le below (Nat.mul_le_mul_right width first_le))
      have index : j / width < Nat.find some := Nat.div_lt_of_lt_mul (by rwa [Nat.mul_comm])
      cases block : blockAt fetch first (j / width) with
      | some b =>
        refine ⟨b, rfl, ?_⟩
        cases stops : stop j b (j % width) with
        | false => rfl
        | true => exact absurd (.inr ⟨b, block, stops⟩) goesOn
      | none =>
        have later : j / width ≠ 0 := by
          intro zero
          rw [zero] at block
          cases block
        rw [blockAt, if_neg later] at block
        cases fetched : fetch (j / width) with
        | block b =>
          rw [fetched] at block
          cases block
        | ends => exact absurd (.inl ⟨later, .inl fetched⟩) goesOn
        | panics => exact absurd (.inl ⟨later, .inr fetched⟩) goesOn
        | missing =>
          have scaled := Nat.mul_le_mul_right width (Nat.succ_le_of_lt index)
          have earlier : Gap width more fetch (j / width) :=
            ⟨later, fetched, decreasing _ _ (Nat.mul_le_mul_right width (Nat.le_of_lt index)) least.here,
              decreasing _ _ scaled least.here⟩
          exact absurd earlier (Nat.find_min some index)
  · rintro halts ⟨k, gap, _, passed⟩
    obtain ⟨j, below, halt⟩ := halts k gap
    obtain ⟨_, b, block, goesOn⟩ := passed j (Nat.zero_le j) below
    rcases halt with ⟨later, ends⟩ | ⟨b', also, stops⟩
    · rw [blockAt_of_ne later] at block
      rw [block] at ends
      rcases ends with ends | ends <;> cases ends
    · rw [block] at also
      cases also
      rw [goesOn] at stops
      cases stops

end Scan

end BlockScan

import Linux012.Fs.ZoneAllocation

/-! Calls of the allocators that come back with nothing. -/

set_option autoImplicit false

namespace Linux012.Fs.Bitmap

open Transition

/-- The calls that the bitmaps see; `others` is whatever happens to the buffers in between. -/
inductive Call (α : Type) where
  | newBlock (reuse : Reuse α)
  | freeBlock (block : Nat)
  | newInode (dev euid egid time : Nat)
  | freeInode (inode : Inode)
  | others (cache : Nat → Option (Buffer α)) (disk : Nat → α)

def SuperBlock.zonesLeft (sb : SuperBlock) : Nat :=
  (List.range sb.nzones).countP fun block => decide (sb.firstdatazone ≤ block) && !marked sb.zmap (sb.bitOf block)

def SuperBlock.inodesLeft (sb : SuperBlock) : Nat :=
  (List.range (sb.ninodes + 1)).countP fun n => !marked sb.imap n

namespace Volume

variable {α : Type} [Zero α]

def step (v : Volume α) : Call α → Option (Volume α)
  | .newBlock reuse => (v.newBlock reuse).toOption.map Prod.snd
  | .freeBlock block => (v.freeBlock block).toOption.map fun freed => freed.2.2
  | .newInode dev euid egid time => (v.newInode dev euid egid time).toOption.map Prod.snd
  | .freeInode inode => (v.freeInode inode).toOption.map Prod.snd
  | .others cache disk => some { v with cache, disk }

def ReportsFailure (v : Volume α) : Call α → Prop
  | .newBlock reuse => ∃ v', v.newBlock reuse = .ok (0, v')
  | .newInode dev euid egid time => ∃ v', v.newInode dev euid egid time = .ok (none, v')
  | _ => False

structure SameMaps (v v' : Volume α) : Prop where
  zmap : ∀ n, marked v'.sb.zmap n = marked v.sb.zmap n
  imap : ∀ n, marked v'.sb.imap n = marked v.sb.imap n
  zonesLeft : v'.sb.zonesLeft = v.sb.zonesLeft
  inodesLeft : v'.sb.inodesLeft = v.sb.inodesLeft

def FailsQuietly (v : Volume α) (c : Call α) : Prop :=
  v.ReportsFailure c → ∀ v', v.step c = some v' → v.SameMaps v'

/-- `new_block` is not called while the first clear bit of the zone map is beyond the last
zone, or is the one of a zone 0. -/
def OnDevice (v : Volume α) : Call α → Prop
  | .newBlock _ => ∀ n, IsFirstClear v.sb.zmap n → 0 < v.sb.zoneOf n ∧ v.sb.zoneOf n < v.sb.nzones
  | _ => True

variable {v v' : Volume α} {c : Call α} {n : Nat}

omit [Zero α] in
theorem SameMaps.refl (v : Volume α) : v.SameMaps v := ⟨fun _ => rfl, fun _ => rfl, rfl, rfl⟩

variable {reuse : Reuse α}

theorem loud_of_first (first : IsFirstClear v.sb.zmap n)
    (outside : ¬(0 < v.sb.zoneOf n ∧ v.sb.zoneOf n < v.sb.nzones)) (moved : v.step (.newBlock reuse) = some v') :
    ¬v.FailsQuietly (.newBlock reuse) := by
  obtain ⟨sb', changes, result⟩ := newBlock_of_first first reuse
  obtain ⟨failed, isSb⟩ : v.newBlock reuse = .ok (0, v') ∧ v'.sb = sb' := by
    simp only [step, Option.map_eq_some_iff] at moved
    obtain ⟨outcome, isOutcome, rfl⟩ := moved
    split at result
    · rw [result] at isOutcome ⊢
      cases isOutcome
      exact ⟨rfl, rfl⟩
    · next onDevice =>
      have zero : v.sb.zoneOf n = 0 := by omega
      rw [zero] at result
      by_cases unheld : { v with sb := sb' }.Unheld 0
      · obtain ⟨v'', cleared, sameSb, -⟩ := clearNew_of_unheld unheld reuse
        rw [result, cleared] at isOutcome
        cases isOutcome
        exact ⟨result.trans cleared, sameSb⟩
      · rw [result, clearNew_of_held unheld] at isOutcome
        cases isOutcome
  intro quiet
  have same := (quiet ⟨v', failed⟩ v' moved).zmap n
  rw [isSb, changes.zmap.bits n, if_pos rfl, first.clear] at same
  cases same

theorem quiet_of_first (first : IsFirstClear v.sb.zmap n)
    (onDevice : 0 < v.sb.zoneOf n ∧ v.sb.zoneOf n < v.sb.nzones) : v.FailsQuietly (.newBlock reuse) := by
  obtain ⟨sb', -, result⟩ := newBlock_of_first first reuse
  rw [if_neg (Nat.not_le.mpr onDevice.2)] at result
  rintro ⟨v', failed⟩
  by_cases unheld : { v with sb := sb' }.Unheld (v.sb.zoneOf n)
  · obtain ⟨v'', cleared, -⟩ := clearNew_of_unheld unheld reuse
    rw [result, cleared, Except.ok.injEq, Prod.mk.injEq] at failed
    omega
  · rw [result, clearNew_of_held unheld] at failed
    cases failed

theorem quiet_of_full (full : ∀ m < 8192 * MAP_SLOTS, marked v.sb.zmap m = true) :
    v.FailsQuietly (.newBlock reuse) := by
  rintro - v' moved
  simp only [step, newBlock_of_full full, Except.toOption, Option.map_some, Option.some.injEq] at moved
  exact moved ▸ .refl v

theorem newInode_quiet (v : Volume α) (dev euid egid time : Nat) : v.FailsQuietly (.newInode dev euid egid time) := by
  rintro ⟨failed, result⟩ v' moved
  simp only [step, result, Except.toOption, Option.map_some, Option.some.injEq] at moved
  subst moved
  rw [newInode] at result
  split at result
  · cases result
    exact .refl v
  · split at result
    · cases result
      exact .refl v
    · split at result <;> cases result

theorem quiet_iff_onDevice (moved : v.step c = some v') : v.FailsQuietly c ↔ v.OnDevice c := by
  cases c with
  | newBlock reuse =>
    rcases isFirstClear_or_full v.sb.zmap with ⟨n, first⟩ | full
    · constructor
      · intro quiet m other
        obtain rfl := first.unique other
        by_contra outside
        exact loud_of_first first outside moved quiet
      · exact fun onDevice => quiet_of_first first (onDevice n first)
    · exact ⟨fun _ n first => absurd ((full n first.inside).symm.trans first.clear) (by simp),
        fun _ => quiet_of_full full⟩
  | newInode dev euid egid time => exact ⟨fun _ => trivial, fun _ => v.newInode_quiet dev euid egid time⟩
  | freeBlock block | freeInode inode | others cache disk => exact ⟨fun _ => trivial, fun _ failed => failed.elim⟩

/-- In every sequence of calls, the ones that fail leave the bitmaps alone exactly if none
takes a bit that belongs to no zone. -/
theorem failures_quiet_iff_onDevice (v : Volume α) (calls : List (Call α)) :
    Throughout step FailsQuietly v calls ↔ Throughout step OnDevice v calls :=
  throughout_congr (Q := fun _ => True) (fun _ _ => trivial) (fun _ moved => quiet_iff_onDevice moved) trivial calls

theorem new_block_marks_beyond :
    ¬∀ (v : Volume Nat) (calls : List (Call Nat)), marked v.sb.zmap 0 = true → Throughout step FailsQuietly v calls := by
  intro quiet
  have first : IsFirstClear (small 0 3).sb.zmap 3 := by
    refine ⟨by decide, marked_small 0 3 3 (by decide), fun m before => ?_⟩
    rw [marked_small 0 3 m (by omega)]
    exact decide_eq_true (Nat.ne_of_lt before)
  obtain ⟨sb', -, result⟩ := newBlock_of_first first (⟨none, 0⟩ : Reuse Nat)
  have beyond : (small 0 3).sb.nzones ≤ (small 0 3).sb.zoneOf 3 := Nat.le_refl 5
  rw [if_pos beyond] at result
  have moved : (small 0 3).step (.newBlock ⟨none, 0⟩) = some { small 0 3 with sb := sb' } := by
    rw [step, result]
    rfl
  have throughout := quiet (small 0 3) [.newBlock ⟨none, 0⟩] (marked_small 0 3 0 (by decide))
  exact loud_of_first first (fun onDevice => absurd beyond (Nat.not_le.mpr onDevice.2)) moved (throughout _ moved).1

end Volume

end Linux012.Fs.Bitmap

import Linux012.Fs.SuperBlock

/-! The references that the super blocks have to the buffers of their maps, through
`put_super` and `read_super`, and the super blocks that `read_super` can take. -/

set_option autoImplicit false

namespace Linux012.Fs.Mount

open Counting Function

/-! ## References -/

def SuperBlock.refs (sb : SuperBlock) (bh : Buffer) : Nat :=
  if sb.dev = 0 then 0 else sb.maps.count (some bh)

def State.refs (st : State) (bh : Buffer) : Nat := ∑ s, (st.superBlock s).refs bh

/-- Every buffer is held by `others` and once more by each map field that names it. -/
def State.Balanced (others : Buffer → Nat) (st : State) : Prop :=
  ∀ bh, st.count bh = others bh + st.refs bh

variable {sb : SuperBlock}

@[simp]
theorem SuperBlock.refs_of_dev_zero (free : sb.dev = 0) (bh : Buffer) : sb.refs bh = 0 :=
  if_pos free

theorem SuperBlock.refs_eq_number (used : sb.dev ≠ 0) (bh : Buffer) :
    sb.refs bh = number (fun x => decide (x = some bh)) sb.imap + number (fun x => decide (x = some bh)) sb.zmap := by
  rw [SuperBlock.refs, if_neg used, SuperBlock.maps, List.count_append, count_ofFn, count_ofFn]

theorem SuperBlock.refs_setMap (used : sb.dev ≠ 0) (kind : MapKind) {i : Fin MAP_SLOTS}
    (null : sb.map kind i = none) (stored : Option Buffer) (bh : Buffer) :
    (sb.setMap kind (update (sb.map kind) i stored)).refs bh = sb.refs bh + (decide (stored = some bh)).toNat := by
  have changed := number_update (P := fun x => decide (x = some bh)) (sb.map kind) i stored
  rw [null] at changed
  simp only [reduceCtorEq, decide_false, Bool.toNat_false, Nat.add_zero] at changed
  cases kind with
  | imap | zmap =>
    rw [refs_eq_number (by exact used), refs_eq_number used]
    simp only [SuperBlock.setMap, SuperBlock.map] at changed ⊢
    omega

namespace State

variable {others : Buffer → Nat} {st : State} {s : Fin NR_SUPER}

theorem refs_le (st : State) (s : Fin NR_SUPER) (bh : Buffer) : (st.superBlock s).refs bh ≤ st.refs bh :=
  Finset.single_le_sum (f := fun t => (st.superBlock t).refs bh) (fun _ _ => Nat.zero_le _) (Finset.mem_univ s)

theorem refs_setSuper (st : State) (s : Fin NR_SUPER) (sb : SuperBlock) (bh : Buffer) :
    (st.setSuper s sb).refs bh + (st.superBlock s).refs bh = st.refs bh + sb.refs bh :=
  sum_update (fun sb => sb.refs bh) st.superBlock s sb

theorem Balanced.setSuper (balanced : st.Balanced others) {sb : SuperBlock}
    (same : ∀ bh, sb.refs bh = (st.superBlock s).refs bh) : (st.setSuper s sb).Balanced others := by
  intro bh
  have changed := refs_setSuper st s sb bh
  have before := balanced bh
  have equal := same bh
  simp only [State.setSuper] at changed ⊢
  omega

end State

/-! ## Releasing -/

theorem brelseAll_ok {buffers : List (Option Buffer)} {st : State}
    (enough : ∀ bh, buffers.count (some bh) ≤ st.count bh) :
    brelseAll buffers st = .ok { st with count := fun bh => st.count bh - buffers.count (some bh) } := by
  induction buffers generalizing st with
  | nil => rfl
  | cons bh rest ih =>
    cases bh with
    | none =>
      simp only [List.count_cons, reduceCtorEq, beq_iff_eq, if_false, Nat.add_zero] at enough ⊢
      exact ih enough
    | some bh =>
      have here := enough bh
      rw [List.count_cons_self] at here
      have positive : st.count bh ≠ 0 := by omega
      simp only [brelseAll, brelse, if_neg positive]
      have left : ∀ b, rest.count (some b) ≤ (update st.count bh (st.count bh - 1)) b := by
        intro b
        by_cases same : b = bh
        · subst same
          rw [update_self]
          omega
        · have some := enough b
          rw [List.count_cons_of_ne (by simpa using Ne.symm same)] at some
          rwa [update_of_ne same]
      refine (ih left).trans ?_
      simp only [Except.ok.injEq, State.mk.injEq, and_true, true_and]
      funext b
      by_cases same : b = bh
      · subst same
        rw [update_self, List.count_cons_self]
        omega
      · rw [update_of_ne same, List.count_cons_of_ne (by simpa using Ne.symm same)]

theorem State.Balanced.released {others : Buffer → Nat} {st : State} (balanced : st.Balanced others)
    {s : Fin NR_SUPER} {sb : SuperBlock} (free : sb.dev = 0) :
    ({ st with count := fun bh => st.count bh - (st.superBlock s).refs bh }.setSuper s sb).Balanced others := by
  intro bh
  have changed := State.refs_setSuper st s sb bh
  rw [SuperBlock.refs_of_dev_zero free] at changed
  have before := balanced bh
  have part := st.refs_le s bh
  simp only [State.setSuper, State.refs] at changed before part ⊢
  omega

theorem brelseAll_maps {others : Buffer → Nat} {st : State} (balanced : st.Balanced others) {s : Fin NR_SUPER}
    (used : (st.superBlock s).dev ≠ 0) (table : Fin NR_SUPER → SuperBlock) :
    brelseAll (st.superBlock s).maps { st with superBlock := table } =
      .ok { st with superBlock := table, count := fun bh => st.count bh - (st.superBlock s).refs bh } := by
  have refs bh : (st.superBlock s).refs bh = (st.superBlock s).maps.count (some bh) := if_neg used
  simp only [refs]
  apply brelseAll_ok
  intro bh
  rw [← refs]
  exact (st.refs_le s bh).trans ((Nat.le_add_left ..).trans (balanced bh).ge)

/-! ## The table between two calls -/

structure SuperBlock.Mapped (sb : SuperBlock) : Prop where
  imap : ∀ i, i < sb.imapBlocks → ∃ inside : i < MAP_SLOTS, sb.imap ⟨i, inside⟩ = some (sb.dev, 2 + i)
  zmap : ∀ i, i < sb.zmapBlocks →
    ∃ inside : i < MAP_SLOTS, sb.zmap ⟨i, inside⟩ = some (sb.dev, 2 + sb.imapBlocks + i)

structure State.Sound (others : Buffer → Nat) (st : State) : Prop where
  balanced : st.Balanced others
  unlocked : ∀ s, (st.superBlock s).lock = false
  distinct : ∀ s t, (st.superBlock s).dev ≠ 0 → (st.superBlock s).dev = (st.superBlock t).dev → s = t
  mapped : ∀ s, (st.superBlock s).dev ≠ 0 → (st.superBlock s).Mapped

section Table

variable {others : Buffer → Nat} {disks : Disks} {dev : Nat} {st st' : State} {s : Fin NR_SUPER}

theorem State.getSuper_eq_some (found : st.getSuper dev = some s) : dev ≠ 0 ∧ (st.superBlock s).dev = dev := by
  by_cases zero : dev = 0
  · rw [State.getSuper, if_pos zero] at found
    cases found
  · rw [State.getSuper, if_neg zero] at found
    have here := List.find?_some found
    exact ⟨zero, of_decide_eq_true here⟩

theorem State.getSuper_eq_none (missing : st.getSuper dev = none) (nonzero : dev ≠ 0) (s : Fin NR_SUPER) :
    (st.superBlock s).dev ≠ dev := by
  rw [State.getSuper, if_neg nonzero, List.find?_eq_none] at missing
  have here := missing s (List.mem_finRange s)
  simpa using here

theorem State.freeSlot_eq_some (found : st.freeSlot = some s) : (st.superBlock s).dev = 0 := by
  have here := List.find?_some found
  exact of_decide_eq_true here

theorem State.freeSlot_eq_none (full : st.freeSlot = none) (s : Fin NR_SUPER) : (st.superBlock s).dev ≠ 0 := by
  rw [State.freeSlot, List.find?_eq_none] at full
  have here := full s (List.mem_finRange s)
  simpa using here

theorem State.Sound.getSuper (sound : st.Sound others) (nonzero : dev ≠ 0) (here : (st.superBlock s).dev = dev) :
    st.getSuper dev = some s := by
  cases found : st.getSuper dev with
  | none => exact absurd here (State.getSuper_eq_none found nonzero s)
  | some t =>
    have there := (State.getSuper_eq_some found).2
    rw [sound.distinct t s (there ▸ nonzero) (there.trans here.symm)]

theorem State.Sound.put (sound : st.Sound others) {sb : SuperBlock} (balanced : st'.Balanced others)
    (changed : st'.superBlock = update st.superBlock s sb) (unlocked : sb.lock = false)
    (kept : sb.dev ≠ 0 → (∀ t, t ≠ s → (st.superBlock t).dev ≠ sb.dev) ∧ sb.Mapped) : st'.Sound others := by
  have at_ : st'.superBlock s = sb := by rw [changed, update_self]
  have elsewhere {t : Fin NR_SUPER} (other : t ≠ s) : st'.superBlock t = st.superBlock t := by
    rw [changed, update_of_ne other]
  refine ⟨balanced, ?_, ?_, ?_⟩
  · intro t
    by_cases here : t = s
    · rw [here, at_, unlocked]
    · rw [elsewhere here, sound.unlocked t]
  · intro t u used same
    by_cases first : t = s <;> by_cases second : u = s
    · rw [first, second]
    · rw [first, at_] at used same
      rw [elsewhere second] at same
      exact absurd same.symm ((kept used).1 u second)
    · rw [elsewhere first] at used same
      rw [second, at_] at same
      exact absurd same ((kept (same ▸ used)).1 t first)
    · rw [elsewhere first] at used same
      rw [elsewhere second] at same
      exact sound.distinct t u used same
  · intro t used
    by_cases here : t = s
    · rw [here, at_] at used ⊢
      exact (kept used).2
    · rw [elsewhere here] at used ⊢
      exact sound.mapped t used

/-! ## put_super -/

/-- The slot of a device that can be given up is free again. -/
structure Removed (others : Buffer → Nat) (disks : Disks) (dev : Nat) (s : Fin NR_SUPER) (st st' : State) :
    Prop where
  here : (st.superBlock s).dev = dev
  notRoot : dev ≠ disks.rootDev
  notMounted : (st.superBlock s).imount = none
  sound : st'.Sound others
  free : (st'.superBlock s).dev = 0
  others : ∀ t, t ≠ s → st'.superBlock t = st.superBlock t
  data : st'.data = st.data

def Stays (disks : Disks) (dev : Nat) (st : State) (slots : List (Fin NR_SUPER)) : Prop :=
  ∀ s ∈ slots, (st.superBlock s).dev = dev → dev = disks.rootDev ∨ (st.superBlock s).imount ≠ none

theorem putSuper_cases (disks : Disks) (sound : st.Sound others) (nonzero : dev ≠ 0) (here : (st.superBlock s).dev = dev) :
    (putSuper disks dev st = .ok st ∧ (dev = disks.rootDev ∨ (st.superBlock s).imount ≠ none)) ∨
      ∃ st', putSuper disks dev st = .ok st' ∧ Removed others disks dev s st st' := by
  by_cases isRoot : dev = disks.rootDev
  · exact .inl ⟨if_pos isRoot, .inl isRoot⟩
  · rw [putSuper, if_neg isRoot, sound.getSuper nonzero here]
    by_cases mounted : (st.superBlock s).imount = none
    · right
      have used : (st.superBlock s).dev ≠ 0 := here ▸ nonzero
      let sb : SuperBlock := { st.superBlock s with lock := true, dev := 0 }
      let st₁ : State := { st with count := fun bh => st.count bh - (st.superBlock s).refs bh }.setSuper s sb
      have claimed : (st.lockSuper s).clearDev s = st.setSuper s sb := by
        simp [State.lockSuper, State.clearDev, State.setSuper, sb]
      have released : brelseAll sb.maps (st.setSuper s sb) = .ok st₁ := brelseAll_maps sound.balanced used _
      have atSlot : (st.setSuper s sb).superBlock s = sb := update_self ..
      refine ⟨st₁.freeSuper s, ?_, ?_⟩
      · simp only [mounted, Option.isSome_none, Bool.false_eq_true, if_false, claimed, atSlot, released]
        rfl
      · have ends : (st₁.freeSuper s).superBlock = update st.superBlock s { sb with lock := false } := by
          simp [State.freeSuper, st₁, State.setSuper]
        refine ⟨here, isRoot, mounted, ?_, ?_, ?_, rfl⟩
        · apply sound.put ?_ ends rfl (fun used => absurd rfl used)
          have freed : st₁.Balanced others := sound.balanced.released rfl
          exact freed.setSuper fun bh => rfl
        · rw [ends, update_self]
        · intro t other
          rw [ends, update_of_ne other]
    · left
      refine ⟨?_, .inr mounted⟩
      simp only [Option.isSome_iff_ne_none.mpr mounted, if_true]

/-! ## check_disk_change -/

theorem changeLoop_of_absent (absent : ∀ s, (st.superBlock s).dev ≠ dev) (slots : List (Fin NR_SUPER)) :
    changeLoop disks dev slots st = .ok st := by
  induction slots with
  | nil => rfl
  | cons s rest ih =>
    rw [changeLoop, if_neg (absent s)]
    exact ih

theorem changeLoop_cases (disks : Disks) (sound : st.Sound others) (nonzero : dev ≠ 0) (slots : List (Fin NR_SUPER)) :
    (changeLoop disks dev slots st = .ok st ∧ Stays disks dev st slots) ∨
      ∃ s st', changeLoop disks dev slots st = .ok st' ∧ Removed others disks dev s st st' := by
  induction slots with
  | nil => exact .inl ⟨rfl, by simp [Stays]⟩
  | cons s rest ih =>
    by_cases here : (st.superBlock s).dev = dev
    · rw [changeLoop, if_pos here, here]
      rcases putSuper_cases disks sound nonzero here with ⟨same, why⟩ | ⟨st', done, removed⟩
      · rw [same]
        rcases ih with ⟨unchanged, stays⟩ | gone
        · refine .inl ⟨unchanged, ?_⟩
          intro t member isDev
          rcases List.mem_cons.mp member with rfl | isRest
          · exact why
          · exact stays t isRest isDev
        · exact .inr gone
      · right
        refine ⟨s, st', ?_, removed⟩
        rw [done]
        apply changeLoop_of_absent
        intro t isDev
        by_cases same : t = s
        · rw [same, removed.free] at isDev
          exact nonzero isDev.symm
        · rw [removed.others t same] at isDev
          exact same (sound.distinct t s (isDev ▸ nonzero) (isDev.trans here.symm))
    · rw [changeLoop, if_neg here]
      rcases ih with ⟨unchanged, stays⟩ | gone
      · refine .inl ⟨unchanged, ?_⟩
        intro t member isDev
        rcases List.mem_cons.mp member with rfl | isRest
        · exact absurd isDev here
        · exact stays t isRest isDev
      · exact .inr gone

end Table

end Linux012.Fs.Mount

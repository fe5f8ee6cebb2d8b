import Linux012.Mm.Swap

/-! What each piece of the memory manager does to its books. -/

set_option autoImplicit false

namespace Linux012.Mm.Swap

open Ownership Transition Function

section Words

theorem present_shift (nr : Nat) : present (nr <<< 1) = false := by
  simp [present, Nat.shiftLeft_eq]

variable {word : Nat}

theorem slotOf_eq_some {nr : Nat} : slotOf word = some nr ↔ nr ≠ 0 ∧ word = nr <<< 1 := by
  rw [slotOf, Nat.shiftLeft_eq]
  constructor
  · intro slot
    split at slot
    · cases slot
    · next swapped =>
        rw [not_or, present, decide_eq_true_eq] at swapped
        rw [Option.some.injEq, Nat.shiftRight_eq_div_pow] at slot
        omega
  · rintro ⟨positive, rfl⟩
    rw [if_neg, Nat.shiftRight_eq_div_pow]
    · simp
    · rw [not_or, present, decide_eq_true_eq]
      omega

theorem slotOf_zero : slotOf 0 = none := rfl

theorem pageOf_zero : pageOf 0 = none := rfl

theorem slotOf_present (here : present word = true) : slotOf word = none := by
  rw [slotOf, if_pos (.inr here)]

theorem pageOf_present (here : present word = true) : pageOf word = some (word >>> 12) := by
  rw [pageOf, if_pos here]

theorem ne_zero_of_present (here : present word = true) : word ≠ 0 := by
  rintro rfl
  cases here

theorem pageOf_absent (absent : present word = false) : pageOf word = none := by
  rw [pageOf, absent]
  rfl

theorem ne_zero_of_slot {nr : Nat} (slot : slotOf word = some nr) : word ≠ 0 := by
  rintro rfl
  cases slot

theorem slotOf_swapped (used : word ≠ 0) (absent : present word = false) : slotOf word = some (word >>> 1) := by
  rw [slotOf, absent, if_neg]
  simpa using used

theorem pageWord_eq (page : Nat) {flags : Nat} (few : flags < 4096) :
    page <<< 12 ||| flags = page * 4096 + flags := by
  rw [← Nat.shiftLeft_add_eq_or_of_lt (i := 12) few, Nat.shiftLeft_eq]

theorem present_pageWord (page : Nat) : present (page <<< 12 ||| 7) = true := by
  rw [pageWord_eq page (by decide), present, decide_eq_true_eq]
  omega

theorem present_dirtyWord (page : Nat) : present (page <<< 12 ||| (pageDirty ||| 7)) = true := by
  rw [pageWord_eq page (by decide), present, decide_eq_true_eq, show pageDirty ||| 7 = 71 from rfl]
  omega

theorem pageOf_pageWord (page : Nat) : pageOf (page <<< 12 ||| 7) = some page := by
  rw [pageOf_present (present_pageWord page), pageWord_eq page (by decide), Nat.shiftRight_eq_div_pow,
    Option.some.injEq]
  omega

theorem pageOf_dirtyWord (page : Nat) : pageOf (page <<< 12 ||| (pageDirty ||| 7)) = some page := by
  rw [pageOf_present (present_dirtyWord page), pageWord_eq page (by decide), Nat.shiftRight_eq_div_pow,
    Option.some.injEq, show pageDirty ||| 7 = 71 from rfl]
  omega

theorem present_clearRw (here : present word = true) :
    present (clearRw word) = true ∧ clearRw word >>> 12 = word >>> 12 := by
  rw [present, decide_eq_true_eq] at here
  simp only [clearRw, writable, present, decide_eq_true_eq, Nat.shiftRight_eq_div_pow]
  split <;> omega

theorem present_setDirty (here : present word = true) :
    present (setDirty word) = true ∧ setDirty word >>> 12 = word >>> 12 := by
  rw [present, decide_eq_true_eq] at here
  simp only [setDirty, dirty, pageDirty, present, decide_eq_true_eq, Nat.shiftRight_eq_div_pow]
  split <;> omega

end Words

variable {τ δ : Type} [DecidableEq τ] {dirs ptrs : Nat}

namespace State

section Fields

variable (s : State τ δ dirs ptrs)

omit [DecidableEq τ] in
theorem freePage_eq (page : Nat) :
    s.freePage page = { s with memMap := (s.freePage page).memMap, panicked := (s.freePage page).panicked } := by
  unfold freePage setCount
  split
  · rfl
  · split <;> rfl

theorem slotHeld_setTable (p : τ × Index dirs ptrs) (word : Nat) :
    (s.setTable p word).slotHeld = update s.slotHeld p (slotOf word) :=
  Function.comp_update slotOf s.table p word

theorem pageHeld_setTable (p : τ × Index dirs ptrs) (word : Nat) :
    (s.setTable p word).pageHeld = update s.pageHeld (.inl p) (pageOf word) := by
  rw [pageHeld, pageHeld, Sum.update_elim_inl]
  exact congrArg (fun f => Sum.elim f _) (Function.comp_update pageOf s.table p word)

variable {s} in
theorem slotHeld_setTable_of_eq {p : τ × Index dirs ptrs} {word : Nat} (same : slotOf word = s.slotHeld p) :
    (s.setTable p word).slotHeld = s.slotHeld := by
  rw [slotHeld_setTable, same, update_eq_self]

variable {s} in
theorem pageHeld_setTable_of_eq {p : τ × Index dirs ptrs} {word : Nat} (same : pageOf word = s.pageHeld (.inl p)) :
    (s.setTable p word).pageHeld = s.pageHeld := by
  rw [pageHeld_setTable, same, update_eq_self]

theorem pageHeld_setDir (d : τ × Fin dirs) (word : Nat) :
    (s.setDir d word).pageHeld = update s.pageHeld (.inr (.inl d)) (pageOf word) := by
  rw [pageHeld, pageHeld, Sum.update_elim_inr, Sum.update_elim_inl]
  exact congrArg (fun f => Sum.elim _ (Sum.elim f _)) (Function.comp_update pageOf s.dir d word)

theorem pageHeld_setActivity (t : τ) (activity : Activity τ δ dirs ptrs) :
    (s.setActivity t activity).pageHeld = update s.pageHeld (.inr (.inr t)) activity.page := by
  rw [pageHeld, pageHeld, Sum.update_elim_inr, Sum.update_elim_inr]
  exact congrArg (fun f => Sum.elim _ (Sum.elim _ f)) (Function.comp_update Activity.page s.activity t activity)

variable {s} in
theorem pageHeld_setActivity_of_eq {t : τ} {activity : Activity τ δ dirs ptrs}
    (same : activity.page = (s.activity t).page) : (s.setActivity t activity).pageHeld = s.pageHeld := by
  rw [pageHeld_setActivity, same]
  exact update_eq_self (.inr (.inr t)) s.pageHeld

end Fields

section Pages

variable [Fintype τ] {s : State τ δ dirs ptrs}

variable {page : Nat}

theorem counted_freePage {i : (τ × Index dirs ptrs) ⊕ ((τ × Fin dirs) ⊕ τ)}
    (counted : Counted (InMemory s.highMemory) s.memMap s.pageHeld) (holds : s.pageHeld i = some page) :
    Counted (InMemory s.highMemory) (s.freePage page).memMap (update s.pageHeld i none) := by
  have only {r : Nat} (also : s.pageHeld i = some r) : r = page := Option.some.inj (also.symm.trans holds)
  unfold freePage
  split
  · next low =>
      refine counted.forget fun r also tracked => ?_
      rw [only also] at tracked
      exact absurd tracked.1 (Nat.not_le.mpr low)
  · next high =>
      split
      · next outside =>
          refine counted.forget fun r also tracked => ?_
          rw [only also] at tracked
          rcases outside with above | unused
          · exact absurd tracked.2 (Nat.not_lt.mpr above)
          · exact counted.not_held tracked unused i holds
      · exact counted.release holds

/-- Nothing that the tasks outside `who` rely on inside the memory manager is changed. -/
structure Touches (who : τ → Prop) (s s' : State τ δ dirs ptrs) : Prop where
  highMemory : s'.highMemory = s.highMemory
  activity : ∀ u, ¬who u → s'.activity u = s.activity u
  dir : ∀ u d, ¬who u → s'.dir (u, d) = s.dir (u, d)
  table : ∀ u i, ¬who u → present (s.table (u, i)) = false → s'.table (u, i) = s.table (u, i)
  page : ∀ u page, ¬who u → (s.activity u).page = some page → InMemory s.highMemory page → s.memMap page = 1 →
    s'.memMap page = 1 ∧ s'.memory page = s.memory page

variable {who : τ → Prop}

omit [DecidableEq τ] [Fintype τ] in
theorem Touches.refl : Touches who s s :=
  ⟨rfl, fun _ _ => rfl, fun _ _ _ => rfl, fun _ _ _ _ => rfl, fun _ _ _ _ _ one => ⟨one, rfl⟩⟩

omit [DecidableEq τ] [Fintype τ] in
theorem Touches.trans {s' s'' : State τ δ dirs ptrs} (first : Touches who s s') (second : Touches who s' s'') :
    Touches who s s'' where
  highMemory := second.highMemory.trans first.highMemory
  activity u other := (second.activity u other).trans (first.activity u other)
  dir u d other := (second.dir u d other).trans (first.dir u d other)
  table u i other absent := by
    have same := first.table u i other absent
    rw [second.table u i other (by rw [same, absent]), same]
  page u page other mine tracked one := by
    obtain ⟨still, same⟩ := first.page u page other mine tracked one
    have later := second.page u page other (by rw [first.activity u other, mine])
      (by rw [first.highMemory]; exact tracked) still
    exact ⟨later.1, later.2.trans same⟩

omit [Fintype τ] in
theorem touches_setActivity {t : τ} (activity : Activity τ δ dirs ptrs) (inside : who t) :
    Touches who s (s.setActivity t activity) :=
  ⟨rfl, fun _ other => update_of_ne (by rintro rfl; exact other inside) .., fun _ _ _ => rfl,
    fun _ _ _ _ => rfl, fun _ _ _ _ _ one => ⟨one, rfl⟩⟩

omit [Fintype τ] in
theorem touches_setTable {p : τ × Index dirs ptrs} (word : Nat) (inside : who p.1 ∨ present (s.table p) = true) :
    Touches who s (s.setTable p word) := by
  refine ⟨rfl, fun _ _ => rfl, fun _ _ _ => rfl, fun u i other absent => ?_, fun _ _ _ _ _ one => ⟨one, rfl⟩⟩
  refine update_of_ne ?_ ..
  rintro rfl
  rcases inside with own | here
  · exact other own
  · rw [here] at absent
    cases absent

omit [Fintype τ] in
theorem touches_setDir {d : τ × Fin dirs} (word : Nat) (inside : who d.1) : Touches who s (s.setDir d word) := by
  refine ⟨rfl, fun _ _ => rfl, fun u i other => ?_, fun _ _ _ _ => rfl, fun _ _ _ _ _ one => ⟨one, rfl⟩⟩
  refine update_of_ne ?_ ..
  rintro rfl
  exact other inside

omit [DecidableEq τ] [Fintype τ] in
theorem touches_swapBitmap (swapBitmap : Nat → Bool) : Touches who s { s with swapBitmap := swapBitmap } :=
  ⟨rfl, fun _ _ => rfl, fun _ _ _ => rfl, fun _ _ _ _ => rfl, fun _ _ _ _ _ one => ⟨one, rfl⟩⟩

omit [DecidableEq τ] [Fintype τ] in
theorem touches_panic : Touches who s { s with panicked := true } :=
  ⟨rfl, fun _ _ => rfl, fun _ _ _ => rfl, fun _ _ _ _ => rfl, fun _ _ _ _ _ one => ⟨one, rfl⟩⟩

def Shared (who : τ → Prop) (s : State τ δ dirs ptrs) (page : Nat) : Prop :=
  ∀ u, ¬who u → (s.activity u).page = some page → InMemory s.highMemory page → s.memMap page ≠ 1

omit [DecidableEq τ] [Fintype τ] in
theorem touches_counts (count : Nat) (data : δ) (shared : Shared who s page) :
    Touches who s ((s.setCount page count).setPage page data) := by
  refine ⟨rfl, fun _ _ => rfl, fun _ _ _ => rfl, fun _ _ _ _ => rfl, fun u other outside mine tracked one => ?_⟩
  have different : other ≠ page := by
    rintro rfl
    exact shared u outside mine tracked one
  exact ⟨(update_of_ne different ..).trans one, update_of_ne different ..⟩

omit [DecidableEq τ] [Fintype τ] in
theorem setPage_self (page : Nat) : s.setPage page (s.memory page) = s := by
  rw [setPage, update_eq_self]

omit [DecidableEq τ] [Fintype τ] in
theorem setCount_self (page : Nat) : s.setCount page (s.memMap page) = s := by
  rw [setCount, update_eq_self]

omit [DecidableEq τ] [Fintype τ] in
theorem touches_setCount (count : Nat) (shared : Shared who s page) : Touches who s (s.setCount page count) := by
  have both := touches_counts count (s.memory page) shared
  rwa [show (s.setCount page count).setPage page (s.memory page) = s.setCount page count from setPage_self page]
    at both

omit [DecidableEq τ] [Fintype τ] in
theorem touches_setPage (data : δ) (shared : Shared who s page) : Touches who s (s.setPage page data) := by
  have both := touches_counts (s.memMap page) data shared
  rwa [setCount_self] at both

omit [DecidableEq τ] [Fintype τ] in
theorem touches_freePage (shared : Shared who s page) : Touches who s (s.freePage page) := by
  unfold freePage
  split
  · exact .refl
  · split
    · exact touches_panic
    · exact touches_setCount _ shared

theorem shared_of_held (counted : Counted (InMemory s.highMemory) s.memMap s.pageHeld)
    {i : (τ × Index dirs ptrs) ⊕ ((τ × Fin dirs) ⊕ τ)} (holds : s.pageHeld i = some page)
    (inside : ∀ u, i = .inr (.inr u) → who u) : Shared who s page := by
  intro u outside mine tracked one
  have same : i = .inr (.inr u) := counted.alone tracked one holds mine
  exact outside (inside u same)

omit [DecidableEq τ] [Fintype τ] in
theorem shared_of_not_one (some : s.memMap page ≠ 1) : Shared who s page :=
  fun _ _ _ _ => some

end Pages

section Freeing

variable [Fintype τ] {s : State τ δ dirs ptrs} {who : τ → Prop} {usable : Nat → Bool}

omit [DecidableEq τ] [Fintype τ] in
theorem freeSlots_update {nr : Nat} (isFree : Bool) (inBitmap : nr < swapBits) :
    { s with swapBitmap := update s.swapBitmap nr isFree }.freeSlots = update s.freeSlots nr isFree := by
  funext other
  by_cases same : other = nr
  · subst same
    simp [freeSlots, inBitmap]
  · simp [freeSlots, update_of_ne same]

variable {p : τ × Index dirs ptrs}

omit [Fintype τ] in
theorem hollow_setTable (hollow : ∀ t i, present (s.dir (t, i.1)) = false → s.table (t, i) = 0) (word : Nat)
    (based : word = 0 ∨ present (s.dir (p.1, p.2.1)) = true) (t : τ) (i : Index dirs ptrs)
    (absent : present (s.dir (t, i.1)) = false) : (s.setTable p word).table (t, i) = 0 := by
  by_cases same : (t, i) = p
  · subst same
    refine (update_self ..).trans ?_
    rcases based with zero | here
    · exact zero
    · rw [here] at absent
      cases absent
  · exact (update_of_ne same ..).trans (hollow t i absent)

omit [DecidableEq τ] in
theorem Accounts.based (accounts : s.Accounts usable) {t : τ} {i : Index dirs ptrs} (used : s.table (t, i) ≠ 0) :
    present (s.dir (t, i.1)) = true := by
  cases here : present (s.dir (t, i.1)) with
  | true => rfl
  | false => exact absurd (accounts.hollow t i here) used

structure Keeps (usable : Nat → Bool) (who : τ → Prop) (s s' : State τ δ dirs ptrs) : Prop where
  accounts : s'.Accounts usable
  touches : Touches who s s'

omit [DecidableEq τ] in
theorem Keeps.refl (accounts : s.Accounts usable) : Keeps usable who s s := ⟨accounts, .refl⟩

omit [DecidableEq τ] in
theorem Keeps.trans {s' s'' : State τ δ dirs ptrs} (first : Keeps usable who s s')
    (second : Keeps usable who s' s'') : Keeps usable who s s'' :=
  ⟨second.accounts, first.touches.trans second.touches⟩

omit [DecidableEq τ] in
theorem keeps_foldl {α : Type} {f : State τ δ dirs ptrs → α → State τ δ dirs ptrs}
    (each : ∀ s a, s.Accounts usable → Keeps usable who s (f s a)) (list : List α) (s : State τ δ dirs ptrs)
    (accounts : s.Accounts usable) : Keeps usable who s (list.foldl f s) := by
  induction list generalizing s with
  | nil => exact .refl accounts
  | cons a list ih => exact (each s a accounts).trans (ih (f s a) (each s a accounts).accounts)

theorem keeps_drop (accounts : s.Accounts usable) (here : present (s.table p) = true) :
    Keeps usable who s ((s.freePage (s.table p >>> 12)).setTable p 0) := by
  have freed := s.freePage_eq (s.table p >>> 12)
  have holds : s.pageHeld (.inl p) = some (s.table p >>> 12) := pageOf_present here
  have before : (s.freePage (s.table p >>> 12)).table p = s.table p := by rw [freed]
  refine ⟨⟨accounts.inBitmap, ?_, ?_, ?_⟩,
    (touches_freePage (shared_of_held accounts.pages holds (by simp))).trans
      (touches_setTable 0 (.inr (by rw [before, here])))⟩
  · have slots := accounts.slots
    rw [← slotHeld_setTable_of_eq (slotOf_zero.trans (slotOf_present here).symm)] at slots
    rw [freed]
    exact slots
  · have counted := counted_freePage accounts.pages holds
    rw [pageHeld_setTable, pageOf_zero]
    rw [freed] at counted ⊢
    exact counted
  · rw [freed]
    exact hollow_setTable accounts.hollow _ (.inl rfl)

theorem keeps_freeEntry (accounts : s.Accounts usable) (inside : who p.1) :
    Keeps usable who s (s.freeEntry p) := by
  unfold freeEntry
  split
  · exact .refl accounts
  · next used =>
      split
      · next here => exact keeps_drop accounts here
      · next absent =>
          have holds : s.slotHeld p = some (s.table p >>> 1) := slotOf_swapped used (by simpa using absent)
          have noPage : s.pageHeld (.inl p) = none := pageOf_absent (by simpa using absent)
          have inBitmap := accounts.inBitmap _ (accounts.slots.taken p _ holds).1
          have bitmap : swapFree s.swapBitmap (s.table p >>> 1) =
              update s.swapBitmap (s.table p >>> 1) true :=
            if_pos ⟨(slotOf_eq_some.mp holds).1, inBitmap⟩
          refine ⟨⟨accounts.inBitmap, ?_, ?_, hollow_setTable accounts.hollow _ (.inl rfl)⟩,
            (touches_swapBitmap _).trans (touches_setTable 0 (.inl inside))⟩
          · have released := accounts.slots.release holds
            rw [← freeSlots_update true inBitmap] at released
            rw [slotHeld_setTable, slotOf_zero, bitmap]
            exact released
          · have pages := accounts.pages
            rw [← pageHeld_setTable_of_eq (pageOf_zero.trans noPage.symm)] at pages
            exact pages

omit [Fintype τ] in
theorem freeEntry_table (s : State τ δ dirs ptrs) (p : τ × Index dirs ptrs) :
    (s.freeEntry p).table = update s.table p 0 := by
  unfold freeEntry
  split
  · next unused => rw [← unused, update_eq_self]
  · split
    · rw [freePage_eq]
      rfl
    · rfl

omit [DecidableEq τ] [Fintype τ] in
theorem foldl_same {α β : Type} {f : State τ δ dirs ptrs → α → State τ δ dirs ptrs}
    {view : State τ δ dirs ptrs → β} (each : ∀ s a, view (f s a) = view s) (list : List α)
    (s : State τ δ dirs ptrs) : view (list.foldl f s) = view s := by
  induction list generalizing s with
  | nil => rfl
  | cons a list ih => exact (ih _).trans (each s a)

omit [Fintype τ] in
theorem freeEntry_others (s : State τ δ dirs ptrs) (p : τ × Index dirs ptrs) :
    (s.freeEntry p).dir = s.dir ∧ (s.freeEntry p).activity = s.activity ∧ (s.freeEntry p).slot = s.slot := by
  unfold freeEntry
  split
  · exact ⟨rfl, rfl, rfl⟩
  · split
    · rw [freePage_eq]
      exact ⟨rfl, rfl, rfl⟩
    · exact ⟨rfl, rfl, rfl⟩

omit [Fintype τ] in
theorem freeEntries_table (t : τ) (d : Fin dirs) (list : List (Fin ptrs)) (s : State τ δ dirs ptrs) {nr : Fin ptrs}
    (freed : nr ∈ list ∨ s.table (t, d, nr) = 0) :
    (list.foldl (fun s nr => s.freeEntry (t, d, nr)) s).table (t, d, nr) = 0 := by
  induction list generalizing s with
  | nil =>
    rcases freed with member | zero
    · cases member
    · exact zero
  | cons first list ih =>
    refine ih _ ?_
    rw [freeEntry_table]
    by_cases same : nr = first
    · exact .inr (by rw [same, update_self])
    · have different : (t, d, nr) ≠ (t, d, first) := by simpa using same
      rw [update_of_ne different]
      exact freed.imp_left fun member => (List.mem_cons.mp member).resolve_left same

theorem keeps_freeTable (accounts : s.Accounts usable) {t : τ} (d : Fin dirs) (inside : who t) :
    Keeps usable who s (s.freeTable t d) := by
  unfold freeTable
  split
  · next here =>
      have emptied (nr : Fin ptrs) := freeEntries_table t d (List.finRange ptrs) s (.inl (List.mem_finRange nr))
      have sameDirs : ((List.finRange ptrs).foldl (fun s nr => s.freeEntry (t, d, nr)) s).dir = s.dir :=
        foldl_same (fun s nr => (freeEntry_others s (t, d, nr)).1) (List.finRange ptrs) s
      have looped : Keeps usable who s ((List.finRange ptrs).foldl (fun s nr => s.freeEntry (t, d, nr)) s) :=
        keeps_foldl (fun _ _ kept => keeps_freeEntry kept inside) _ s accounts
      generalize (List.finRange ptrs).foldl (fun s nr => s.freeEntry (t, d, nr)) s = s' at emptied sameDirs looped ⊢
      refine looped.trans ?_
      simp only
      have holds : s'.pageHeld (.inr (.inl (t, d))) = some (s'.dir (t, d) >>> 12) := by
        refine pageOf_present ?_
        rw [sameDirs, here]
      have freed := s'.freePage_eq (s'.dir (t, d) >>> 12)
      refine ⟨⟨looped.accounts.inBitmap, ?_, ?_, ?_⟩, ?_⟩
      · rw [freed]
        exact looped.accounts.slots
      · have counted := counted_freePage looped.accounts.pages holds
        rw [pageHeld_setDir, pageOf_zero]
        rw [freed] at counted ⊢
        exact counted
      · rw [freed]
        intro u i absent
        by_cases same : (u, i.1) = (t, d)
        · obtain ⟨rfl, rfl⟩ := Prod.mk.inj same
          exact emptied i.2
        · exact looped.accounts.hollow u i (by rw [← absent]; exact congrArg present (update_of_ne same ..).symm)
      · exact (touches_freePage (shared_of_held looped.accounts.pages holds (by simp))).trans
          (touches_setDir 0 inside)
  · exact .refl accounts

variable (who) in
theorem keeps_freePageTables (accounts : s.Accounts usable) {t : τ} (first size : Nat) (inside : who t) :
    Keeps usable who s (s.freePageTables t first size) :=
  keeps_foldl (fun _ d kept => keeps_freeTable kept d inside) _ s accounts

omit [Fintype τ] in
theorem freePageTables_others (s : State τ δ dirs ptrs) (t : τ) (first size : Nat) :
    (s.freePageTables t first size).activity = s.activity ∧ (s.freePageTables t first size).slot = s.slot := by
  have each (s : State τ δ dirs ptrs) (d : Fin dirs) :
      (s.freeTable t d).activity = s.activity ∧ (s.freeTable t d).slot = s.slot := by
    unfold freeTable
    split
    · simp only
      rw [freePage_eq]
      exact ⟨foldl_same (fun s nr => (freeEntry_others s (t, d, nr)).2.1) (List.finRange ptrs) s,
        foldl_same (fun s nr => (freeEntry_others s (t, d, nr)).2.2) (List.finRange ptrs) s⟩
    · exact ⟨rfl, rfl⟩
  exact ⟨foldl_same (fun s d => (each s d).1) _ s, foldl_same (fun s d => (each s d).2) _ s⟩

end Freeing

section Taking

variable [Fintype τ] {s : State τ δ dirs ptrs} {who : τ → Prop} {usable : Nat → Bool}

variable {activity : Activity τ δ dirs ptrs} {t : τ}

theorem keeps_setActivity (accounts : s.Accounts usable) (same : activity.page = (s.activity t).page)
    (inside : who t) : Keeps usable who s (s.setActivity t activity) := by
  refine ⟨⟨accounts.inBitmap, accounts.slots, ?_, accounts.hollow⟩, touches_setActivity activity inside⟩
  rw [pageHeld_setActivity_of_eq same]
  exact accounts.pages

variable {page : Nat}

theorem counted_take (accounts : s.Accounts usable) {i : (τ × Index dirs ptrs) ⊕ ((τ × Fin dirs) ⊕ τ)}
    (idle : s.pageHeld i = none) (unused : s.memMap page = 0) :
    Counted (InMemory s.highMemory) (update s.memMap page 1) (update s.pageHeld i (some page)) := by
  have shared := accounts.pages.share (r := page) idle
  rwa [unused] at shared

omit [DecidableEq τ] [Fintype τ] in
theorem touches_taken [Inhabited δ] (unused : s.memMap page = 0) :
    Touches who s ((s.setCount page 1).setPage page default) :=
  touches_counts 1 default (shared_of_not_one (by rw [unused]; decide))

theorem keeps_takeForTask [Inhabited δ] (accounts : s.Accounts usable) (idle : (s.activity t).page = none)
    (has : activity.page = some page) (unused : s.memMap page = 0) (inside : who t) :
    Keeps usable who s (((s.setCount page 1).setPage page default).setActivity t activity) := by
  refine ⟨⟨accounts.inBitmap, accounts.slots, ?_, accounts.hollow⟩,
    (touches_taken unused).trans (touches_setActivity activity inside)⟩
  rw [pageHeld_setActivity, has]
  exact counted_take (i := .inr (.inr t)) accounts idle unused

variable {i : Index dirs ptrs}

theorem keeps_takeForEntry [Inhabited δ] (accounts : s.Accounts usable)
    (idle : (s.activity t).page = activity.page) (empty : s.table (t, i) = 0)
    (based : present (s.dir (t, i.1)) = true) (unused : s.memMap page = 0) (inside : who t) :
    Keeps usable who s
      ((((s.setCount page 1).setPage page default).setTable (t, i) (page <<< 12 ||| 7)).setActivity t activity) := by
  have noSlot : slotOf (page <<< 12 ||| 7) = s.slotHeld (t, i) := by
    rw [slotOf_present (present_pageWord page), slotHeld, empty, slotOf_zero]
  have noPage : s.pageHeld (.inl (t, i)) = none := by
    change pageOf (s.table (t, i)) = none
    rw [empty, pageOf_zero]
  refine ⟨⟨accounts.inBitmap, ?_, ?_, ?_⟩,
    ((touches_taken unused).trans (touches_setTable _ (.inl inside))).trans (touches_setActivity activity inside)⟩
  · have slots := accounts.slots
    rw [← slotHeld_setTable_of_eq noSlot] at slots
    exact slots
  · rw [pageHeld_setActivity_of_eq, pageHeld_setTable, pageOf_pageWord]
    · exact counted_take accounts noPage unused
    · exact idle.symm
  · exact hollow_setTable accounts.hollow _ (.inr based)

theorem keeps_takeForTable [Inhabited δ] (accounts : s.Accounts usable) {u : τ} {d : Fin dirs}
    (idle : (s.activity t).page = activity.page) (absent : present (s.dir (u, d)) = false)
    (unused : s.memMap page = 0) (inside : who t) (also : who u) :
    Keeps usable who s
      ((((s.setCount page 1).setPage page default).setDir (u, d) (page <<< 12 ||| 7)).setActivity t activity) := by
  refine ⟨⟨accounts.inBitmap, accounts.slots, ?_, ?_⟩,
    ((touches_taken unused).trans (touches_setDir _ also)).trans (touches_setActivity activity inside)⟩
  · rw [pageHeld_setActivity_of_eq, pageHeld_setDir, pageOf_pageWord]
    · exact counted_take (i := .inr (.inl (u, d))) accounts (pageOf_absent absent) unused
    · exact idle.symm
  · intro v i absentAfter
    change present (update s.dir (u, d) (page <<< 12 ||| 7) (v, i.1)) = false at absentAfter
    by_cases same : (v, i.1) = (u, d)
    · rw [same, update_self, present_pageWord] at absentAfter
      cases absentAfter
    · rw [update_of_ne same] at absentAfter
      exact accounts.hollow v i absentAfter

theorem counted_place (counted : Counted (InMemory s.highMemory) s.memMap s.pageHeld) {p : τ × Index dirs ptrs}
    (mine : (s.activity t).page = some page) (absent : present (s.table p) = false)
    (idle : activity.page = none) :
    Counted (InMemory s.highMemory) s.memMap
      ((s.setTable p (page <<< 12 ||| (pageDirty ||| 7))).setActivity t activity).pageHeld := by
  rw [pageHeld_setActivity, pageHeld_setTable, pageOf_dirtyWord, idle]
  exact counted.transfer (i := .inr (.inr t)) mine (pageOf_absent absent)

theorem keeps_swapIn (accounts : s.Accounts usable) {swapNr : Nat}
    (slot : slotOf (s.table (t, i)) = some swapNr) (mine : (s.activity t).page = some page) (inside : who t) :
    Keeps usable who s
      (({ s with swapBitmap := update s.swapBitmap swapNr true }.setTable (t, i)
        (page <<< 12 ||| (pageDirty ||| 7))).setActivity t .user) := by
  have inBitmap := accounts.inBitmap _ (accounts.slots.taken (t, i) _ slot).1
  have absent : present (s.table (t, i)) = false := by rw [(slotOf_eq_some.mp slot).2, present_shift]
  refine ⟨⟨accounts.inBitmap, ?_, ?_, ?_⟩,
    ((touches_swapBitmap _).trans (touches_setTable _ (.inl inside))).trans (touches_setActivity _ inside)⟩
  · have released := accounts.slots.release slot
    rw [← freeSlots_update true inBitmap, ← slotOf_present (present_dirtyWord page), ← slotHeld_setTable] at released
    exact released
  · exact counted_place accounts.pages mine absent rfl
  · exact hollow_setTable accounts.hollow _ (.inr (accounts.based (ne_zero_of_slot slot)))

variable (who) in
theorem keeps_handOver (accounts : s.Accounts usable) {child : τ} {swapNr : Nat}
    (activity : Activity τ δ dirs ptrs) (slot : slotOf (s.table (t, i)) = some swapNr)
    (blank : s.table (child, i) = 0) (based : present (s.dir (child, i.1)) = true)
    (mine : (s.activity t).page = some page) (idle : activity.page = none) (inside : who t) (also : who child) :
    Keeps usable who s
      (((s.setTable (child, i) (s.table (t, i))).setTable (t, i)
        (page <<< 12 ||| (pageDirty ||| 7))).setActivity t activity) := by
  have absent : present (s.table (t, i)) = false := by rw [(slotOf_eq_some.mp slot).2, present_shift]
  have distinct : (t, i) ≠ (child, i) := by
    intro same
    rw [same, blank, slotOf_zero] at slot
    cases slot
  have parent : (s.setTable (child, i) (s.table (t, i))).table (t, i) = s.table (t, i) := update_of_ne distinct ..
  refine ⟨⟨accounts.inBitmap, ?_, ?_, ?_⟩,
    ((touches_setTable _ (.inl also)).trans (touches_setTable _ (.inl inside))).trans (touches_setActivity _ inside)⟩
  · have moved := accounts.slots.transfer (j := (child, i)) slot (by rw [slotHeld, blank, slotOf_zero])
    rw [← slot, ← slotHeld_setTable, ← slotOf_present (present_dirtyWord page), ← slotHeld_setTable] at moved
    exact moved
  · have counted : Counted (InMemory s.highMemory) s.memMap (s.setTable (child, i) (s.table (t, i))).pageHeld := by
      rw [pageHeld_setTable_of_eq]
      · exact accounts.pages
      · rw [pageOf_absent absent]
        exact pageOf_zero.symm.trans (congrArg pageOf blank.symm)
    have absentAfter : present ((s.setTable (child, i) (s.table (t, i))).table (t, i)) = false := by
      rw [parent, absent]
    exact counted_place (s := s.setTable (child, i) (s.table (t, i))) counted mine absentAfter idle
  · have first := hollow_setTable accounts.hollow (p := (child, i)) (s.table (t, i)) (.inr based)
    have based := accounts.based (ne_zero_of_slot slot)
    exact hollow_setTable (s := s.setTable (child, i) (s.table (t, i))) first _ (.inr based)

theorem keeps_giveBack (accounts : s.Accounts usable) (mine : (s.activity t).page = some page)
    (idle : activity.page = none) (inside : who t) :
    Keeps usable who s ((s.freePage page).setActivity t activity) := by
  have freed := s.freePage_eq page
  have shared : Shared who s page :=
    shared_of_held (i := .inr (.inr t)) accounts.pages mine fun u same => by
      cases same
      exact inside
  refine ⟨⟨accounts.inBitmap, ?_, ?_, ?_⟩, (touches_freePage shared).trans (touches_setActivity _ inside)⟩
  · rw [freed]
    exact accounts.slots
  · have counted := counted_freePage (i := .inr (.inr t)) accounts.pages mine
    rw [pageHeld_setActivity, idle]
    rw [freed] at counted ⊢
    exact counted
  · rw [freed]
    exact accounts.hollow

omit [DecidableEq τ] [Fintype τ] in
theorem getSwapPage_spec {swapBitmap : Nat → Bool} (found : (getSwapPage swapBitmap).1 ≠ 0) :
    (getSwapPage swapBitmap).1 < swapBits ∧ swapBitmap (getSwapPage swapBitmap).1 = true ∧
      (getSwapPage swapBitmap).2 = update swapBitmap (getSwapPage swapBitmap).1 false := by
  unfold getSwapPage at found ⊢
  split
  · next nr first =>
      have member := List.mem_of_find?_eq_some first
      rw [List.mem_range'_1] at member
      refine ⟨?_, List.find?_some first, rfl⟩
      rw [swapBits] at member ⊢
      omega
  · next nothing =>
      rw [nothing] at found
      exact absurd rfl found

theorem keeps_writeOut (accounts : s.Accounts usable) {p : τ × Index dirs ptrs} {purpose : Purpose τ dirs ptrs}
    (here : present (s.table p) = true) (idle : (s.activity t).page = none)
    (found : (getSwapPage s.swapBitmap).1 ≠ 0) (inside : who t) :
    Keeps usable who s
      (({ s with swapBitmap := (getSwapPage s.swapBitmap).2 }.setTable p
        ((getSwapPage s.swapBitmap).1 <<< 1)).setActivity t
          (.writing purpose (getSwapPage s.swapBitmap).1 (s.table p >>> 12) false)) := by
  obtain ⟨inBitmap, isFree, bitmap⟩ := getSwapPage_spec found
  rw [bitmap]
  have free : s.freeSlots (getSwapPage s.swapBitmap).1 = true := by
    rw [freeSlots, isFree, decide_eq_true inBitmap]
    rfl
  refine ⟨⟨accounts.inBitmap, ?_, ?_, ?_⟩,
    ((touches_swapBitmap _).trans (touches_setTable _ (.inr (by exact here)))).trans (touches_setActivity _ inside)⟩
  · have taken := accounts.slots.take free (slotOf_present here)
    have slot : slotOf ((getSwapPage s.swapBitmap).1 <<< 1) = some (getSwapPage s.swapBitmap).1 :=
      slotOf_eq_some.mpr ⟨found, rfl⟩
    rw [← freeSlots_update false inBitmap, ← slot, ← slotHeld_setTable] at taken
    exact taken
  · have moved := accounts.pages.transfer (i := .inl p) (j := .inr (.inr t)) (pageOf_present here) idle
    rw [pageHeld_setActivity, pageHeld_setTable, pageOf_absent (present_shift _)]
    rw [update_comm (by simp)] at moved
    exact moved
  · exact hollow_setTable accounts.hollow _ (.inr (accounts.based (ne_zero_of_present here)))

variable (who) in
theorem keeps_share (accounts : s.Accounts usable) {child : τ} (activity : Activity τ δ dirs ptrs)
    (idle : (s.activity t).page = activity.page) (here : present (s.table (t, i)) = true)
    (blank : s.table (child, i) = 0) (based : present (s.dir (child, i.1)) = true) (inside : who t)
    (also : who child) :
    Keeps usable who s
      ((if lowMem < clearRw (s.table (t, i)) then
        ((s.setTable (child, i) (clearRw (s.table (t, i)))).setTable (t, i) (clearRw (s.table (t, i)))).setCount
          (clearRw (s.table (t, i)) >>> 12) (s.memMap (clearRw (s.table (t, i)) >>> 12) + 1)
      else s.setTable (child, i) (clearRw (s.table (t, i)))).setActivity t activity) := by
  obtain ⟨still, same⟩ := present_clearRw here
  have holds : s.pageHeld (.inl (t, i)) = some (s.table (t, i) >>> 12) := pageOf_present here
  have noPage : s.pageHeld (.inl (child, i)) = none := (congrArg pageOf blank).trans pageOf_zero
  have noSlot : s.slotHeld (child, i) = none := (congrArg slotOf blank).trans slotOf_zero
  have distinct : (t, i) ≠ (child, i) := by
    intro equal
    rw [equal, noPage] at holds
    cases holds
  generalize clearRw (s.table (t, i)) = word at still same ⊢
  have pages : (s.setTable (child, i) word).pageHeld =
      update s.pageHeld (.inl (child, i)) (some (word >>> 12)) := by
    rw [pageHeld_setTable, pageOf_present still]
  have slots : Exclusive usable s.freeSlots (s.setTable (child, i) word).slotHeld := by
    rw [slotHeld_setTable_of_eq ((slotOf_present still).trans noSlot.symm)]
    exact accounts.slots
  have hollow := hollow_setTable accounts.hollow (p := (child, i)) word (.inr based)
  have touched : Touches who s (s.setTable (child, i) word) := touches_setTable _ (.inl also)
  split
  · next counts =>
      have parent : (s.setTable (child, i) word).table (t, i) = s.table (t, i) := update_of_ne distinct ..
      have parentSlot : slotOf word = (s.setTable (child, i) word).slotHeld (t, i) := by
        rw [slotHeld, parent, slotOf_present here, slotOf_present still]
      have parentPage : pageOf word = (s.setTable (child, i) word).pageHeld (.inl (t, i)) := by
        rw [pageOf_present still, same, ← holds]
        exact congrArg pageOf parent.symm
      have shared : Shared who s (word >>> 12) := by
        rw [same]
        exact shared_of_held accounts.pages holds (by simp)
      refine ⟨⟨accounts.inBitmap, ?_, ?_, ?_⟩,
        ((touched.trans (touches_setTable _ (.inl inside))).trans (touches_setCount _ (by exact shared))).trans
          (touches_setActivity _ inside)⟩
      · rw [← slotHeld_setTable_of_eq parentSlot] at slots
        exact slots
      · have counted := accounts.pages.share (r := word >>> 12) noPage
        rw [pageHeld_setActivity_of_eq]
        · rw [← pages, ← pageHeld_setTable_of_eq parentPage] at counted
          exact counted
        · exact idle.symm
      · exact hollow_setTable (s := s.setTable (child, i) word) hollow _
          (.inr (accounts.based (ne_zero_of_present here)))
  · next low =>
      have untracked : ¬InMemory s.highMemory (word >>> 12) := by
        intro tracked
        have above := tracked.1
        rw [present, decide_eq_true_eq] at still
        rw [lowMem] at low above
        simp only [Nat.shiftRight_eq_div_pow] at above
        omega
      refine ⟨⟨accounts.inBitmap, slots, ?_, hollow⟩, touched.trans (touches_setActivity _ inside)⟩
      rw [pageHeld_setActivity_of_eq, pages]
      · exact accounts.pages.note noPage untracked
      · exact idle.symm

theorem keeps_write (accounts : s.Accounts usable) (data : δ) (here : present (s.table (t, i)) = true) :
    Keeps usable who s ((s.setPage (s.table (t, i) >>> 12) data).setTable (t, i) (setDirty (s.table (t, i)))) := by
  obtain ⟨still, same⟩ := present_setDirty here
  have holds : s.pageHeld (.inl (t, i)) = some (s.table (t, i) >>> 12) := pageOf_present here
  have slot : slotOf (setDirty (s.table (t, i))) = s.slotHeld (t, i) := by
    rw [slotHeld, slotOf_present here, slotOf_present still]
  have page : pageOf (setDirty (s.table (t, i))) = s.pageHeld (.inl (t, i)) := by
    rw [holds, pageOf_present still, same]
  refine ⟨⟨accounts.inBitmap, ?_, ?_, ?_⟩,
    (touches_setPage data (shared_of_held accounts.pages holds (by simp))).trans
      (touches_setTable _ (.inr (by exact here)))⟩
  · have slots := accounts.slots
    rw [← slotHeld_setTable_of_eq slot] at slots
    exact slots
  · have pages := accounts.pages
    rw [← pageHeld_setTable_of_eq page] at pages
    exact pages
  · exact hollow_setTable accounts.hollow _ (.inr (accounts.based (ne_zero_of_present here)))

theorem keeps_readIn (accounts : s.Accounts usable) (data : δ) (mine : (s.activity t).page = some page)
    (still : activity.page = some page) (inside : who t) :
    Keeps usable who s ((s.setPage page data).setActivity t activity) := by
  have shared : Shared who s page :=
    shared_of_held (i := .inr (.inr t)) accounts.pages mine fun u same => by
      cases same
      exact inside
  refine ⟨⟨accounts.inBitmap, accounts.slots, ?_, accounts.hollow⟩,
    (touches_setPage data shared).trans (touches_setActivity _ inside)⟩
  rw [pageHeld_setActivity_of_eq]
  · exact accounts.pages
  · exact still.trans mine.symm

variable (who) in
omit [DecidableEq τ] in
theorem keeps_saved (accounts : s.Accounts usable) (slot : Nat → δ) :
    Keeps usable who s { s with slot := slot } :=
  ⟨⟨accounts.inBitmap, accounts.slots, accounts.pages, accounts.hollow⟩, rfl, fun _ _ => rfl, fun _ _ _ => rfl,
    fun _ _ _ _ => rfl, fun _ _ _ _ _ one => ⟨one, rfl⟩⟩

end Taking

end State

end Linux012.Mm.Swap

import Linux012.Mm.SwapAccounts

/-! Each swap slot has one owner, in all runs of the memory manager. -/

set_option autoImplicit false

namespace Linux012.Mm.Swap

open Ownership Transition Function

variable {τ δ : Type} [DecidableEq τ] {dirs ptrs : Nat}

def Purpose.slot : Purpose τ dirs ptrs → Option Nat
  | .swapIn _ swapNr => some swapNr
  | .copyEntry _ thisPage _ => some (thisPage >>> 1)
  | _ => none

namespace State

section Sound

structure CopySound (s : State τ δ dirs ptrs) (c : Copying τ dirs ptrs) : Prop where
  unborn : s.activity c.child = .unborn
  nodup : c.entriesLeft.Nodup
  blank : ∀ i ∈ c.entriesLeft, s.table (c.child, i) = 0 ∧ present (s.dir (c.child, i.1)) = true

def PurposeSound (s : State τ δ dirs ptrs) (t : τ) : Purpose τ dirs ptrs → Prop
  | .swapIn i swapNr => slotOf (s.table (t, i)) = some swapNr
  | .emptyPage i => s.table (t, i) = 0 ∧ present (s.dir (t, i.1)) = true
  | .pageTable d => present (s.dir (t, d)) = false
  | .copyTable d c => present (s.dir (c.child, d)) = false ∧ s.CopySound c
  | .copyEntry i thisPage c =>
    s.table (t, i) = thisPage ∧ slotOf thisPage = some (thisPage >>> 1) ∧
      s.CopySound { c with entriesLeft := i :: c.entriesLeft }

def ActivitySound (s : State τ δ dirs ptrs) (t : τ) : Activity τ δ dirs ptrs → Prop
  | .copying c => s.CopySound c
  | .allocating purpose => s.PurposeSound t purpose
  | .writing purpose _ _ _ => s.PurposeSound t purpose
  | .reading purpose swapNr page data =>
    s.PurposeSound t purpose ∧ purpose.slot = some swapNr ∧ InMemory s.highMemory page ∧ s.memMap page = 1 ∧
      ∀ x, data = some x → s.memory page = x
  | _ => True

structure Good [Fintype τ] (usable : Nat → Bool) (s : State τ δ dirs ptrs) : Prop where
  accounts : s.Accounts usable
  sound : ∀ t, s.ActivitySound t (s.activity t)
  parents : ∀ t u c d, (s.activity t).copy = some c → (s.activity u).copy = some d → c.child = d.child → t = u

variable {s s' : State τ δ dirs ptrs} {who : τ → Prop}

/-- The directory of the task and its entries that are not present are as they were. -/
structure Still (u : τ) (s s' : State τ δ dirs ptrs) : Prop where
  dir : ∀ d, s'.dir (u, d) = s.dir (u, d)
  table : ∀ i, present (s.table (u, i)) = false → s'.table (u, i) = s.table (u, i)

omit [DecidableEq τ] in
theorem Touches.still (touches : Touches who s s') {u : τ} (other : ¬who u) : Still u s s' :=
  ⟨fun d => touches.dir u d other, fun i absent => touches.table u i other absent⟩

omit [DecidableEq τ] in
theorem CopySound.of_still {c : Copying τ dirs ptrs} (sound : s.CopySound c) (still : Still c.child s s')
    (same : s'.activity c.child = s.activity c.child) : s'.CopySound c where
  unborn := same.trans sound.unborn
  nodup := sound.nodup
  blank i member := by
    obtain ⟨zero, based⟩ := sound.blank i member
    rw [still.table i (by rw [zero]; rfl), still.dir i.1]
    exact ⟨zero, based⟩

omit [DecidableEq τ] in
theorem PurposeSound.of_still {t : τ} {purpose : Purpose τ dirs ptrs} (sound : s.PurposeSound t purpose)
    (own : Still t s s')
    (child : ∀ c, purpose.copying = some c → Still c.child s s' ∧ s'.activity c.child = s.activity c.child) :
    s'.PurposeSound t purpose := by
  cases purpose with
  | swapIn i swapNr =>
    have entry := (slotOf_eq_some.mp sound).2
    rw [PurposeSound, own.table i (by rw [entry, present_shift])]
    exact sound
  | emptyPage i =>
    rw [PurposeSound, own.table i (by rw [sound.1]; rfl), own.dir i.1]
    exact sound
  | pageTable d =>
    rw [PurposeSound, own.dir d]
    exact sound
  | copyTable d c =>
    obtain ⟨still, same⟩ := child c rfl
    rw [PurposeSound, still.dir d]
    exact ⟨sound.1, sound.2.of_still still same⟩
  | copyEntry i thisPage c =>
    obtain ⟨entry, slot, copies⟩ := sound
    obtain ⟨still, same⟩ := child c rfl
    rw [PurposeSound, own.table i (by rw [entry, (slotOf_eq_some.mp slot).2, present_shift])]
    exact ⟨entry, slot, copies.of_still still same⟩

omit [DecidableEq τ] in
theorem ActivitySound.of_touches {t : τ} (sound : s.ActivitySound t (s.activity t)) (touches : Touches who s s')
    (other : ¬who t) (apart : ∀ c, (s.activity t).copy = some c → ¬who c.child) :
    s'.ActivitySound t (s'.activity t) := by
  have child (c : Copying τ dirs ptrs) (copies : (s.activity t).copy = some c) :
      Still c.child s s' ∧ s'.activity c.child = s.activity c.child :=
    ⟨touches.still (apart c copies), touches.activity _ (apart c copies)⟩
  rw [touches.activity t other]
  cases now : s.activity t with
  | free | unborn | user => trivial
  | copying c =>
    rw [now] at sound child
    exact CopySound.of_still sound (child c rfl).1 (child c rfl).2
  | allocating purpose | writing purpose swapNr page served =>
    rw [now] at sound child
    exact PurposeSound.of_still sound (touches.still other) child
  | reading purpose swapNr page data =>
    have mine : (s.activity t).page = some page := by rw [now]; rfl
    rw [now] at sound child
    obtain ⟨knows, slot, tracked, one, holds⟩ := sound
    obtain ⟨still, same⟩ := touches.page t page other mine tracked one
    refine ⟨knows.of_still (touches.still other) child, slot, by rwa [touches.highMemory], still, fun x read => ?_⟩
    rw [same, holds x read]

omit [DecidableEq τ] in
theorem ActivitySound.unborn {t : τ} {activity : Activity τ δ dirs ptrs} (sound : s.ActivitySound t activity)
    {c : Copying τ dirs ptrs} (copies : activity.copy = some c) : s.activity c.child = .unborn := by
  have ofPurpose {purpose : Purpose τ dirs ptrs} (knows : s.PurposeSound t purpose)
      (copies : purpose.copying = some c) : s.activity c.child = .unborn := by
    cases purpose with
    | swapIn i swapNr | emptyPage i | pageTable d => cases copies
    | copyTable d other =>
      cases copies
      exact knows.2.unborn
    | copyEntry i thisPage other =>
      cases copies
      exact knows.2.2.unborn
  cases activity with
  | free | unborn | user => cases copies
  | copying other =>
    cases copies
    exact CopySound.unborn sound
  | allocating purpose | writing purpose swapNr page served => exact ofPurpose sound copies
  | reading purpose swapNr page data => exact ofPurpose sound.1 copies

end Sound

section Steps

variable [Fintype τ] {s s' : State τ δ dirs ptrs} {usable : Nat → Bool}

def Resting : Activity τ δ dirs ptrs → Prop
  | .free => True
  | .unborn => True
  | .user => True
  | _ => False

variable {activity : Activity τ δ dirs ptrs}

omit [DecidableEq τ] [Fintype τ] in
theorem Resting.sound (resting : Resting activity) (s : State τ δ dirs ptrs) (t : τ) :
    s.ActivitySound t activity ∧ activity.copy = none := by
  cases activity <;> first | exact ⟨trivial, rfl⟩ | cases resting

variable {t : τ}

omit [DecidableEq τ] in
/-- What a step has to do: it keeps the books and touches only the task and a child that no
other task is copying to, and the task knows its tables afterwards. -/
theorem Good.next (good : s.Good usable) (child : Option τ) (active : s.activity t ≠ .unborn)
    (apart : ∀ u d, u ≠ t → (s.activity u).copy = some d → child ≠ some d.child)
    (kept : Keeps usable (fun u => u = t ∨ child = some u) s s') (own : s'.ActivitySound t (s'.activity t))
    (inherits : ∀ c, (s'.activity t).copy = some c → child = some c.child)
    (resting : ∀ c, child = some c → c ≠ t → Resting (s'.activity c)) : s'.Good usable := by
  have others {u : τ} (other : u ≠ t) :
      (s'.activity u).copy = none ∧ s'.ActivitySound u (s'.activity u) ∨
        ¬(u = t ∨ child = some u) ∧ s'.activity u = s.activity u := by
    by_cases isChild : child = some u
    · have rests := (resting u isChild other).sound s' u
      exact .inl ⟨rests.2, rests.1⟩
    · have outside : ¬(u = t ∨ child = some u) := fun either => either.elim other isChild
      exact .inr ⟨outside, kept.touches.activity u outside⟩
  refine ⟨kept.accounts, fun u => ?_, ?_⟩
  · by_cases same : u = t
    · rw [same]
      exact own
    · rcases others same with ⟨_, sound⟩ | ⟨outside, _⟩
      · exact sound
      · refine (good.sound u).of_touches kept.touches outside fun c copies either => ?_
        have unborn := (good.sound u).unborn copies
        rcases either with rfl | isChild
        · exact active unborn
        · exact apart u c same copies isChild
  · have ofOther {u : τ} {c d : Copying τ dirs ptrs} (other : u ≠ t) (mine : (s'.activity t).copy = some c)
        (copies : (s'.activity u).copy = some d) : c.child ≠ d.child := by
      intro same
      rcases others other with ⟨none, _⟩ | ⟨_, before⟩
      · rw [none] at copies
        cases copies
      · rw [before] at copies
        exact apart u d other copies (same ▸ inherits c mine)
    intro u v c d first second same
    by_cases uIsT : u = t
    · subst uIsT
      by_contra different
      exact ofOther (Ne.symm different) first second same
    · by_cases vIsT : v = t
      · subst vIsT
        exact absurd same.symm (ofOther uIsT second first)
      · rcases others uIsT with ⟨none, _⟩ | ⟨_, before⟩
        · rw [none] at first
          cases first
        · rcases others vIsT with ⟨none, _⟩ | ⟨_, also⟩
          · rw [none] at second
            cases second
          · rw [before] at first
            rw [also] at second
            exact good.parents u v c d first second same

def kin (s : State τ δ dirs ptrs) (t : τ) : Option τ := (s.activity t).copy.map Copying.child

omit [DecidableEq τ] in
theorem Good.apart (good : s.Good usable) (u : τ) (d : Copying τ dirs ptrs) (other : u ≠ t)
    (copies : (s.activity u).copy = some d) : s.kin t ≠ some d.child := by
  intro same
  obtain ⟨c, mine, child⟩ := Option.map_eq_some_iff.mp same
  exact other (good.parents u t d c copies mine child.symm)

theorem Good.nextOwn (good : s.Good usable) (active : s.activity t ≠ .unborn) (same : s'.activity = s.activity)
    (kept : Keeps usable (fun u => u = t ∨ s.kin t = some u) s (s'.setActivity t activity))
    (own : (s'.setActivity t activity).ActivitySound t activity)
    (inherits : ∀ c, activity.copy = some c → s.kin t = some c.child) :
    (s'.setActivity t activity).Good usable := by
  have now : (s'.setActivity t activity).activity t = activity := update_self ..
  refine good.next (s.kin t) active good.apart kept ?_ ?_ ?_
  · rw [now]
    exact own
  · rw [now]
    exact inherits
  · intro c child other
    obtain ⟨copying, copies, rfl⟩ := Option.map_eq_some_iff.mp child
    have unchanged : (s'.setActivity t activity).activity copying.child = s.activity copying.child := by
      rw [← same]
      exact update_of_ne other ..
    rw [unchanged, (good.sound t).unborn copies]
    trivial

omit [DecidableEq τ] in
theorem Good.calm (good : s.Good usable) (same : s'.activity = s.activity)
    (kept : Keeps usable (fun _ => False) s s') : s'.Good usable := by
  refine ⟨kept.accounts, fun u => ?_, ?_⟩
  · exact (good.sound u).of_touches kept.touches id fun _ _ => id
  · rw [same]
    exact good.parents

variable {purpose : Purpose τ dirs ptrs}

variable (s') in
omit [Fintype τ] in
theorem PurposeSound.setActivity (sound : s.PurposeSound t purpose) (active : s.activity t ≠ .unborn)
    (activity : Activity τ δ dirs ptrs) (same : s'.activity = s.activity) (still : ∀ u, Still u s s') :
    (s'.setActivity t activity).PurposeSound t purpose := by
  have stays (u : τ) : Still u s (s'.setActivity t activity) := ⟨(still u).dir, (still u).table⟩
  refine sound.of_still (stays t) fun c copies => ⟨stays c.child, ?_⟩
  have waiting : s.ActivitySound t (.allocating purpose) := sound
  have unborn : s.activity c.child = .unborn := waiting.unborn copies
  have different : c.child ≠ t := by
    rintro rfl
    exact active unborn
  rw [← same]
  exact update_of_ne different ..

omit [DecidableEq τ] [Fintype τ] in
theorem Still.of_eq {u : τ} (tables : s'.table = s.table) (sameDirs : s'.dir = s.dir) : Still u s s' :=
  ⟨fun d => congrFun sameDirs (u, d), fun i _ => congrFun tables (u, i)⟩

theorem good_fault {i : Index dirs ptrs} (good : s.Good usable) (now : s.activity t = .user)
    (moved : s.fault t i = some s') : s'.Good usable := by
  have goes (purpose : Purpose τ dirs ptrs) (knows : s.PurposeSound t purpose) (noCopy : purpose.copying = none) :
      (s.setActivity t (.allocating purpose)).Good usable := by
    have active : s.activity t ≠ .unborn := by
      rw [now]
      nofun
    refine good.nextOwn active rfl (keeps_setActivity good.accounts (by rw [now]; rfl) (.inl rfl)) ?_ ?_
    · exact knows.setActivity _ active _ rfl fun u => .of_eq rfl rfl
    · intro c copies
      rw [Activity.copy, noCopy] at copies
      cases copies
  unfold fault at moved
  split at moved
  · next empty =>
      split at moved
      · next based =>
          cases moved
          exact goes (.emptyPage i) ⟨empty, based⟩ rfl
      · next absent =>
          cases moved
          exact goes (.pageTable i.1) (by simpa [PurposeSound] using absent) rfl
  · next used =>
      split at moved
      · cases moved
      · next absent =>
          cases moved
          exact goes (.swapIn i _) (slotOf_swapped used (by simpa using absent)) rfl

variable {c : Copying τ dirs ptrs}

omit [DecidableEq τ] [Fintype τ] in
theorem kin_of_copy (now : s.activity t = activity) (copies : activity.copy = some c) :
    s.kin t = some c.child := by
  rw [kin, now, copies]
  rfl

theorem good_gotPage [Inhabited δ] {page : Nat} (good : s.Good usable)
    (now : s.activity t = .allocating purpose) (inside : InMemory s.highMemory page)
    (unused : s.memMap page = 0) : (s.gotPage t page purpose).Good usable := by
  have active : s.activity t ≠ .unborn := by
    rw [now]
    nofun
  have idle : (s.activity t).page = none := by
    rw [now]
    rfl
  have knows : s.PurposeSound t purpose := by
    have sound := good.sound t
    rwa [now] at sound
  have reads {swapNr : Nat} (slot : purpose.slot = some swapNr) :
      (((s.setCount page 1).setPage page default).setActivity t (.reading purpose swapNr page none)).Good usable := by
    refine good.nextOwn active rfl (keeps_takeForTask good.accounts idle rfl unused (.inl rfl)) ?_ ?_
    · refine ⟨?_, slot, inside, update_self .., nofun⟩
      exact knows.setActivity ((s.setCount page 1).setPage page default) active _ rfl fun u => .of_eq rfl rfl
    · exact fun c copies => kin_of_copy now copies
  cases purpose with
  | swapIn i swapNr | copyEntry i thisPage c => exact reads rfl
  | emptyPage i =>
    exact good.nextOwn active rfl (keeps_takeForEntry good.accounts idle knows.1 knows.2 unused (.inl rfl)) trivial nofun
  | pageTable d =>
    exact good.nextOwn active rfl (keeps_takeForTable good.accounts idle knows unused (.inl rfl) (.inl rfl)) trivial nofun
  | copyTable d c =>
    obtain ⟨absent, copies⟩ := knows
    have kin : s.kin t = some c.child := kin_of_copy now rfl
    refine good.nextOwn active rfl (keeps_takeForTable good.accounts idle absent unused (.inl rfl) (.inr kin)) ?_ ?_
    · have different : c.child ≠ t := by
        rintro rfl
        exact active copies.unborn
      refine ⟨(update_of_ne different ..).trans copies.unborn, ?_, fun i member => ?_⟩
      · exact (List.nodup_finRange ptrs).map fun _ _ same => (Prod.mk.inj same).2
      · obtain ⟨nr, _, rfl⟩ := List.mem_map.mp member
        refine ⟨good.accounts.hollow c.child (d, nr) absent, ?_⟩
        have placed : (s.setDir (c.child, d) (page <<< 12 ||| 7)).dir (c.child, d) = page <<< 12 ||| 7 :=
          update_self ..
        exact (congrArg present placed).trans (present_pageWord page)
    · intro other same
      cases same
      exact kin

theorem good_tryToSwapOut (good : s.Good usable) (now : s.activity t = .allocating purpose)
    (p : τ × Index dirs ptrs) : (s.tryToSwapOut t purpose p).Good usable := by
  have active : s.activity t ≠ .unborn := by
    rw [now]
    nofun
  have idle : (s.activity t).page = none := by
    rw [now]
    rfl
  have knows : s.PurposeSound t purpose := by
    have sound := good.sound t
    rwa [now] at sound
  unfold tryToSwapOut
  simp only
  split
  · exact good
  · next some =>
      have here : present (s.table p) = true := by simpa using some
      split
      · exact good
      · split
        · split
          · exact good
          · split
            · exact good
            · next found =>
                refine good.nextOwn active rfl (keeps_writeOut good.accounts here idle found (.inl rfl)) ?_ ?_
                · refine knows.setActivity _ active _ rfl fun u => (?_ : Touches (fun _ => False) s _).still id
                  exact (touches_swapBitmap _).trans (touches_setTable _ (.inr (by exact here)))
                · exact fun c copies => kin_of_copy now copies
        · refine good.calm ?_ (keeps_drop good.accounts here)
          rw [freePage_eq]
          rfl

theorem good_exit (good : s.Good usable) (active : s.activity t ≠ .unborn) (idle : (s.activity t).page = none)
    (codeSize dataSize : Nat) : (s.exit t codeSize dataSize).Good usable := by
  have first := keeps_freePageTables (fun u => u = t ∨ s.kin t = some u) good.accounts 0 codeSize (.inl rfl)
  have second := keeps_freePageTables (fun u => u = t ∨ s.kin t = some u) first.accounts 0 dataSize (.inl rfl)
  have same : ((s.freePageTables t 0 codeSize).freePageTables t 0 dataSize).activity = s.activity :=
    (freePageTables_others _ t 0 dataSize).1.trans (freePageTables_others s t 0 codeSize).1
  refine good.nextOwn active same ((first.trans second).trans (keeps_setActivity second.accounts ?_ (.inl rfl)))
    trivial nofun
  rw [same, idle]
  rfl

theorem good_leaveChild {child : τ} (good : s.Good usable) (active : s.activity t ≠ .unborn)
    (idle : (s.activity t).page = none) (kin : s.kin t = some child) (unborn : s.activity child = .unborn)
    (same : s'.activity = s.activity) (kept : Keeps usable (fun u => u = t ∨ s.kin t = some u) s s')
    (rests : Resting activity) (noPage : activity.page = none) :
    ((s'.setActivity child activity).setActivity t .user).Good usable := by
  have gone : Keeps usable (fun u => u = t ∨ s.kin t = some u) s (s'.setActivity child activity) :=
    kept.trans (keeps_setActivity kept.accounts (by rw [same, unborn, noPage]; rfl) (.inr kin))
  have different : t ≠ child := by
    rintro rfl
    exact active unborn
  have before : (s'.setActivity child activity).activity t = s.activity t := by
    rw [setActivity_of_ne _ _ different, same]
  refine good.next (s.kin t) active good.apart
    (gone.trans (keeps_setActivity gone.accounts (by rw [before, idle]; rfl) (.inl rfl))) ?_ ?_ ?_
  · rw [setActivity_self]
    trivial
  · rw [setActivity_self]
    nofun
  · intro other isChild differs
    rw [kin, Option.some.injEq] at isChild
    rw [setActivity_of_ne _ _ differs, ← isChild, setActivity_self]
    exact rests

theorem good_noPage (good : s.Good usable) (now : s.activity t = .allocating purpose) (codeSize dataSize : Nat) :
    (s.noPage t codeSize dataSize purpose).Good usable := by
  have active : s.activity t ≠ .unborn := by
    rw [now]
    nofun
  have idle : (s.activity t).page = none := by
    rw [now]
    rfl
  unfold noPage
  split
  · next c copies =>
      have kin : s.kin t = some c.child := kin_of_copy now copies
      have unborn : s.activity c.child = .unborn := (good.sound t).unborn (by rw [now]; exact copies)
      exact good_leaveChild good active idle kin unborn (freePageTables_others s c.child 0 c.size).1
        (keeps_freePageTables _ good.accounts 0 c.size (.inr kin)) trivial rfl
  · exact good_exit good active idle codeSize dataSize

theorem good_serve (good : s.Good usable) (moved : s.serve t = some s') : s'.Good usable := by
  have sound := good.sound t
  unfold serve at moved
  split at moved
  · next purpose swapNr page now =>
      cases moved
      have active : s.activity t ≠ .unborn := by
        rw [now]
        nofun
      rw [now] at sound
      have saved := keeps_saved (fun u => u = t ∨ s.kin t = some u) good.accounts
        (update s.slot swapNr (s.memory page))
      refine good.nextOwn active rfl (saved.trans (keeps_setActivity saved.accounts ?_ (.inl rfl))) ?_ ?_
      · exact (congrArg Activity.page now).symm
      · exact PurposeSound.setActivity _ sound active _ rfl fun u => .of_eq rfl rfl
      · exact fun c copies => kin_of_copy now copies
  · next purpose swapNr page now =>
      cases moved
      have active : s.activity t ≠ .unborn := by
        rw [now]
        nofun
      rw [now] at sound
      obtain ⟨knows, slot, tracked, one, _⟩ := sound
      refine good.nextOwn active rfl (keeps_readIn good.accounts _ (congrArg Activity.page now) rfl (.inl rfl)) ?_ ?_
      · refine ⟨?_, slot, tracked, one, fun x read => ?_⟩
        · exact knows.setActivity (s.setPage page (s.slot swapNr)) active _ rfl fun u => .of_eq rfl rfl
        · cases read
          exact update_self ..
      · exact fun c copies => kin_of_copy now copies
  · cases moved

omit [Fintype τ] in
theorem CopySound.setActivity (sound : s.CopySound c) (active : s.activity t ≠ .unborn)
    (activity : Activity τ δ dirs ptrs) (dirsLeft : List (Fin dirs)) (entriesLeft : List (Index dirs ptrs))
    (fewer : entriesLeft.Sublist c.entriesLeft) :
    (s.setActivity t activity).CopySound { c with dirsLeft := dirsLeft, entriesLeft := entriesLeft } where
  unborn := by
    refine (setActivity_of_ne s activity ?_).trans sound.unborn
    rintro rfl
    exact active sound.unborn
  nodup := sound.nodup.sublist fewer
  blank i member := sound.blank i (fewer.subset member)

omit [Fintype τ] in
theorem CopySound.next {i : Index dirs ptrs} (sound : s.CopySound { c with entriesLeft := i :: c.entriesLeft })
    (active : s.activity t ≠ .unborn) (same : s'.activity = s.activity) (sameDirs : s'.dir = s.dir)
    (others : ∀ j, j ≠ i → s'.table (c.child, j) = s.table (c.child, j)) (activity : Activity τ δ dirs ptrs) :
    (s'.setActivity t activity).CopySound c where
  unborn := by
    refine (setActivity_of_ne s' activity ?_).trans ((congrFun same c.child).trans sound.unborn)
    rintro rfl
    exact active sound.unborn
  nodup := (List.nodup_cons.mp sound.nodup).2
  blank j member := by
    have different : j ≠ i := by
      rintro rfl
      exact (List.nodup_cons.mp sound.nodup).1 member
    obtain ⟨zero, based⟩ := sound.blank j (List.mem_cons_of_mem _ member)
    refine ⟨(others j different).trans zero, ?_⟩
    exact (congrArg present (congrFun sameDirs (c.child, j.1))).trans based

theorem good_copyNext (good : s.Good usable) (now : s.activity t = .copying c) :
    (s.copyNext t c).Good usable := by
  have active : s.activity t ≠ .unborn := by
    rw [now]
    nofun
  have idle : (s.activity t).page = none := by
    rw [now]
    rfl
  have copies : s.CopySound c := by
    have sound := good.sound t
    rwa [now] at sound
  have kin : s.kin t = some c.child := kin_of_copy now rfl
  have goes {activity : Activity τ δ dirs ptrs} (noPage : activity.page = none)
      (own : (s.setActivity t activity).ActivitySound t activity)
      (child : ∀ d, activity.copy = some d → d.child = c.child) : (s.setActivity t activity).Good usable :=
    good.nextOwn active rfl (keeps_setActivity good.accounts (idle.symm ▸ noPage) (.inl rfl)) own
      fun d same => by rw [kin, child d same]
  unfold copyNext
  split
  · next i entriesLeft entries =>
      have blank := copies.blank i (by rw [entries]; exact List.mem_cons_self)
      have rest : entriesLeft.Sublist c.entriesLeft := by
        rw [entries]
        exact List.sublist_cons_self ..
      simp only
      split
      · exact goes rfl (copies.setActivity active _ c.dirsLeft entriesLeft rest) fun d same => by
          cases same
          rfl
      · next used =>
          split
          · next absent =>
              refine goes rfl ⟨rfl, slotOf_swapped used (by simpa using absent), ?_⟩ fun d same => by
                cases same
                rfl
              have whole : i :: entriesLeft = c.entriesLeft := entries.symm
              rw [whole]
              exact copies.setActivity active _ c.dirsLeft c.entriesLeft (List.Sublist.refl _)
          · next some =>
              have here : present (s.table (t, i)) = true := by simpa using some
              have whole : s.CopySound { c with entriesLeft := i :: entriesLeft } := by
                rw [← entries]
                exact copies
              have kept := keeps_share (fun u => u = t ∨ s.kin t = Option.some u) good.accounts
                (.copying { c with entriesLeft := entriesLeft }) idle here blank.1 blank.2 (.inl rfl) (.inr kin)
              split
              · next counts =>
                  rw [if_pos counts] at kept
                  refine good.nextOwn active rfl kept ?_ fun d same => by cases same; exact kin
                  refine CopySound.next (c := { c with entriesLeft := entriesLeft }) whole active ?_ ?_ ?_ _
                  · rfl
                  · rfl
                  intro j others
                  refine (update_of_ne (fun equal => ?_) ..).trans (update_of_ne ?_ ..)
                  · exact active ((congrArg s.activity (Prod.mk.inj equal).1).symm.trans copies.unborn)
                  · exact fun equal => others (Prod.mk.inj equal).2
              · next low =>
                  rw [if_neg low] at kept
                  refine good.nextOwn active rfl kept ?_ fun d same => by cases same; exact kin
                  refine CopySound.next (c := { c with entriesLeft := entriesLeft }) whole active ?_ ?_ ?_ _
                  · rfl
                  · rfl
                  intro j others
                  exact update_of_ne (fun equal => others (Prod.mk.inj equal).2) ..
  · next d dirsLeft noEntries _ =>
      simp only
      split
      · exact good.calm rfl ⟨⟨good.accounts.inBitmap, good.accounts.slots, good.accounts.pages, good.accounts.hollow⟩,
          touches_panic⟩
      · next fresh =>
          have waits {activity : Activity τ δ dirs ptrs} :
              (s.setActivity t activity).CopySound { c with dirsLeft := dirsLeft } :=
            copies.setActivity active activity dirsLeft c.entriesLeft (List.Sublist.refl _)
          split
          · exact goes rfl waits fun d same => by
              cases same
              rfl
          · refine goes rfl ⟨(Bool.not_eq_true _).mp fresh, waits⟩ fun d same => by
              cases same
              rfl
  · exact good_leaveChild good active idle kin copies.unborn rfl (.refl good.accounts) trivial rfl

theorem good_resume (good : s.Good usable) (moved : s.resume t = some s') : s'.Good usable := by
  have sound := good.sound t
  unfold resume at moved
  split at moved
  · next c now =>
      cases moved
      exact good_copyNext good now
  · next purpose swapNr page now =>
      cases moved
      have active : s.activity t ≠ .unborn := by
        rw [now]
        nofun
      rw [now] at sound
      have freed := s.freePage_eq page
      refine good.nextOwn active ?_ (keeps_giveBack good.accounts (congrArg Activity.page now) rfl (.inl rfl)) ?_
        fun c copies => kin_of_copy now copies
      · rw [freed]
      · exact PurposeSound.setActivity _ sound active _ (by rw [freed]) fun u => .of_eq (by rw [freed]) (by rw [freed])
  · next i swapNr nr page data now =>
      cases moved
      have active : s.activity t ≠ .unborn := by
        rw [now]
        nofun
      rw [now] at sound
      exact good.nextOwn active rfl
        (keeps_swapIn good.accounts sound.1 (congrArg Activity.page now) (.inl rfl)) trivial nofun
  · next i thisPage c nr page data now =>
      cases moved
      have active : s.activity t ≠ .unborn := by
        rw [now]
        nofun
      rw [now] at sound
      obtain ⟨⟨entry, slot, copies⟩, _⟩ := sound
      have blank := copies.blank i List.mem_cons_self
      have kin : s.kin t = some c.child := kin_of_copy now rfl
      have kept := keeps_handOver (fun u => u = t ∨ s.kin t = some u) good.accounts (.copying c)
        (by rw [entry, slot]) blank.1 blank.2 (congrArg Activity.page now) rfl (.inl rfl) (.inr kin)
      rw [entry] at kept
      refine good.nextOwn active rfl kept ?_ fun d same => by cases same; exact kin
      refine CopySound.next copies active ?_ ?_ ?_ _
      · rfl
      · rfl
      intro j others
      refine (update_of_ne (fun equal => ?_) ..).trans (update_of_ne ?_ ..)
      · exact others (Prod.mk.inj equal).2
      · exact fun equal => others (Prod.mk.inj equal).2
  · cases moved

theorem good_fork {child : τ} (good : s.Good usable) (now : s.activity t = .user)
    (free : s.activity child = .free) (c : Copying τ dirs ptrs) (isChild : c.child = child)
    (noEntries : c.entriesLeft = []) :
    ((s.setActivity child .unborn).setActivity t (.copying c)).Good usable := by
  have different : child ≠ t := by
    rintro rfl
    rw [now] at free
    cases free
  have active : s.activity t ≠ .unborn := by
    rw [now]
    nofun
  have before : (s.setActivity child .unborn).activity t = s.activity t := setActivity_of_ne _ _ different.symm
  have first : Keeps usable (fun u => u = t ∨ some child = some u) s (s.setActivity child .unborn) :=
    keeps_setActivity good.accounts (by rw [free]; rfl) (.inr rfl)
  have unborn : ((s.setActivity child .unborn).setActivity t (.copying c)).activity child = .unborn := by
    rw [setActivity_of_ne _ _ different, setActivity_self]
  refine good.next (some child) active ?_
    (first.trans (keeps_setActivity first.accounts (by rw [before, now]; rfl) (.inl rfl))) ?_ ?_ ?_
  · intro u d _ copies same
    have taken := (good.sound u).unborn copies
    rw [← Option.some.inj same, free] at taken
    cases taken
  · rw [setActivity_self]
    refine ⟨by rw [isChild]; exact unborn, by rw [noEntries]; exact List.nodup_nil, fun i member => ?_⟩
    rw [noEntries] at member
    cases member
  · rw [setActivity_self]
    intro d same
    cases same
    rw [isChild]
  · intro u same _
    cases same
    rw [unborn]
    trivial

theorem good_freeTables (good : s.Good usable) (now : s.activity t = .user) (first size : Nat) :
    (s.freePageTables t first size).Good usable := by
  have same := (freePageTables_others s t first size).1
  refine good.next none (by rw [now]; nofun) nofun (keeps_freePageTables _ good.accounts first size (.inl rfl)) ?_ ?_ nofun
  · rw [same, now]
    trivial
  · rw [same, now]
    nofun

theorem good_step [Inhabited δ] {m : Move τ δ dirs ptrs} (good : s.Good usable) (moved : s.step m = some s') :
    s'.Good usable := by
  unfold step at moved
  split at moved
  · cases moved
  cases m with
  | write t i data =>
    simp only at moved
    split at moved
    · split at moved
      · next allowed =>
          cases moved
          exact good.calm rfl (keeps_write good.accounts data allowed.1)
      · cases moved
    · cases moved
  | fault t i =>
    simp only at moved
    split at moved
    · next now => exact good_fault good now moved
    · cases moved
  | allocate t page =>
    simp only at moved
    split at moved
    · next purpose now =>
        split at moved
        · next found =>
            cases moved
            exact good_gotPage good now ⟨found.1, found.2.1⟩ found.2.2
        · cases moved
    · cases moved
  | swapOut t p =>
    simp only at moved
    split at moved
    · next purpose now =>
        split at moved
        · cases moved
          exact good_tryToSwapOut good now p
        · cases moved
    · cases moved
  | outOfMemory t codeSize dataSize =>
    simp only at moved
    split at moved
    · next purpose now =>
        cases moved
        exact good_noPage good now codeSize dataSize
    · cases moved
  | serve t => exact good_serve good moved
  | resume t => exact good_resume good moved
  | fork t child size =>
    simp only at moved
    split at moved
    · next now free =>
        cases moved
        exact good_fork good now free _ rfl rfl
    · cases moved
  | freeTables t first size =>
    simp only at moved
    split at moved
    · next now =>
        cases moved
        exact good_freeTables good now first size
    · cases moved
  | exit t codeSize dataSize =>
    simp only at moved
    split at moved
    · next now =>
        cases moved
        exact good_exit good (by rw [now]; nofun) (by rw [now]; rfl) codeSize dataSize
    · cases moved

end Steps

section Order

variable {s s' : State τ δ dirs ptrs}

def Fresh (s : State τ δ dirs ptrs) : Prop :=
  ∀ t purpose swapNr page data, s.activity t = .reading purpose swapNr page (some data) →
    s.slot swapNr = data ∧ ∀ u purpose' page', s.activity u ≠ .writing purpose' swapNr page' false

def Settled : Activity τ δ dirs ptrs → Prop
  | .reading _ _ _ (some _) => False
  | .writing _ _ _ false => False
  | _ => True

/-- No slot is written, and no task comes to a write or to the end of a read. -/
structure Calms (s s' : State τ δ dirs ptrs) : Prop where
  slot : s'.slot = s.slot
  activity : ∀ u, s'.activity u = s.activity u ∨ Settled (s'.activity u)

omit [DecidableEq τ] in
theorem Calms.of_eq (activity : s'.activity = s.activity) (slot : s'.slot = s.slot) : Calms s s' :=
  ⟨slot, fun u => .inl (congrFun activity u)⟩

variable {t : τ}

theorem Calms.setActivity {activity : Activity τ δ dirs ptrs} (calms : Calms s s') (settled : Settled activity) :
    Calms s (s'.setActivity t activity) := by
  refine ⟨calms.slot, fun u => ?_⟩
  by_cases same : u = t
  · right
    rw [same, setActivity_self]
    exact settled
  · rw [setActivity_of_ne _ _ same]
    exact calms.activity u

omit [DecidableEq τ] in
theorem Fresh.of_calms (fresh : s.Fresh) (calms : Calms s s') : s'.Fresh := by
  intro t purpose swapNr page data now
  have before : s.activity t = .reading purpose swapNr page (some data) := by
    rcases calms.activity t with same | settled
    · rw [← same, now]
    · rw [now] at settled
      cases settled
  obtain ⟨holds, none⟩ := fresh t purpose swapNr page data before
  refine ⟨by rw [calms.slot, holds], fun u purpose' page' waits => ?_⟩
  rcases calms.activity u with same | settled
  · exact none u purpose' page' (by rw [← same, waits])
  · rw [waits] at settled
    cases settled

theorem calms_freePageTables (t : τ) (first size : Nat) : Calms s (s.freePageTables t first size) :=
  .of_eq (freePageTables_others s t first size).1 (freePageTables_others s t first size).2

theorem calms_exit (t : τ) (codeSize dataSize : Nat) : Calms s (s.exit t codeSize dataSize) := by
  refine Calms.setActivity (.of_eq ?_ ?_) trivial
  · exact (freePageTables_others _ t 0 dataSize).1.trans (freePageTables_others s t 0 codeSize).1
  · exact (freePageTables_others _ t 0 dataSize).2.trans (freePageTables_others s t 0 codeSize).2

theorem calms_gotPage [Inhabited δ] (t : τ) (page : Nat) (purpose : Purpose τ dirs ptrs) :
    Calms s (s.gotPage t page purpose) := by
  cases purpose <;> exact Calms.setActivity (.of_eq rfl rfl) trivial

theorem calms_noPage (t : τ) (codeSize dataSize : Nat) (purpose : Purpose τ dirs ptrs) :
    Calms s (s.noPage t codeSize dataSize purpose) := by
  unfold noPage
  split
  · next c _ =>
      refine Calms.setActivity (Calms.setActivity (calms_freePageTables c.child 0 c.size) ?_) trivial
      trivial
  · exact calms_exit t codeSize dataSize

theorem calms_copyNext (t : τ) (c : Copying τ dirs ptrs) : Calms s (s.copyNext t c) := by
  unfold copyNext
  split
  · simp only
    split
    · exact Calms.setActivity (.of_eq rfl rfl) trivial
    · split
      · exact Calms.setActivity (.of_eq rfl rfl) trivial
      · split <;> exact Calms.setActivity (.of_eq rfl rfl) trivial
  · simp only
    split
    · exact .of_eq rfl rfl
    · split <;> exact Calms.setActivity (.of_eq rfl rfl) trivial
  · refine Calms.setActivity (Calms.setActivity (.of_eq rfl rfl) ?_) trivial
    trivial

theorem calms_resume (moved : s.resume t = some s') : Calms s s' := by
  unfold resume at moved
  split at moved
  · cases moved
    exact calms_copyNext t _
  · cases moved
    refine Calms.setActivity ?_ trivial
    rw [freePage_eq]
    exact .of_eq rfl rfl
  · cases moved
    exact Calms.setActivity (.of_eq rfl rfl) trivial
  · cases moved
    exact Calms.setActivity (.of_eq rfl rfl) trivial
  · cases moved

theorem calms_fault {i : Index dirs ptrs} (moved : s.fault t i = some s') : Calms s s' := by
  unfold fault at moved
  split at moved
  · split at moved <;> cases moved <;> exact Calms.setActivity (.of_eq rfl rfl) trivial
  · split at moved
    · cases moved
    · cases moved
      exact Calms.setActivity (.of_eq rfl rfl) trivial

omit [DecidableEq τ] in
theorem Good.taken [Fintype τ] {usable : Nat → Bool} (good : s.Good usable) {t : τ}
    {purpose : Purpose τ dirs ptrs} {swapNr page : Nat} {data : Option δ}
    (now : s.activity t = .reading purpose swapNr page data) : s.freeSlots swapNr = false := by
  have sound := good.sound t
  rw [now] at sound
  obtain ⟨knows, slot, _⟩ := sound
  cases purpose with
  | swapIn i nr =>
    cases slot
    exact (good.accounts.slots.taken (t, i) _ knows).2
  | emptyPage i | pageTable d | copyTable d c => cases slot
  | copyEntry i thisPage c =>
    cases slot
    obtain ⟨entry, held, _⟩ := knows
    exact (good.accounts.slots.taken (t, i) _ (by rw [slotHeld, entry, held])).2

theorem fresh_tryToSwapOut [Fintype τ] {usable : Nat → Bool} (good : s.Good usable) (fresh : s.Fresh) (t : τ)
    (purpose : Purpose τ dirs ptrs) (p : τ × Index dirs ptrs) : (s.tryToSwapOut t purpose p).Fresh := by
  unfold tryToSwapOut
  simp only
  split
  · exact fresh
  · split
    · exact fresh
    · split
      · split
        · exact fresh
        · split
          · exact fresh
          · next found =>
              intro u reason swapNr page data now
              have other : u ≠ t := by
                rintro rfl
                rw [setActivity_self] at now
                cases now
              rw [setActivity_of_ne _ _ other] at now
              obtain ⟨holds, none⟩ := fresh u reason swapNr page data now
              refine ⟨holds, fun v reason' page' waits => ?_⟩
              by_cases writes : v = t
              · rw [writes, setActivity_self] at waits
                cases waits
                obtain ⟨inBitmap, isFree, _⟩ := getSwapPage_spec found
                have taken := good.taken now
                rw [freeSlots, isFree, decide_eq_true inBitmap] at taken
                cases taken
              · rw [setActivity_of_ne _ _ writes] at waits
                exact none v reason' page' waits
      · refine fresh.of_calms ?_
        rw [freePage_eq]
        exact .of_eq rfl rfl

theorem fresh_serve (fresh : s.Fresh) (ordered : s.InOrder (.serve t)) (moved : s.serve t = some s') :
    s'.Fresh := by
  unfold serve at moved
  split at moved
  · next purpose swapNr page now =>
      cases moved
      intro u reason nr frame data reads
      have other : u ≠ t := by
        rintro rfl
        rw [setActivity_self] at reads
        cases reads
      rw [setActivity_of_ne _ _ other] at reads
      obtain ⟨holds, none⟩ := fresh u reason nr frame data reads
      have different : nr ≠ swapNr := by
        rintro rfl
        exact none t purpose page now
      refine ⟨(update_of_ne different ..).trans holds, fun v reason' page' waits => ?_⟩
      by_cases same : v = t
      · rw [same, setActivity_self] at waits
        cases waits
      · rw [setActivity_of_ne _ _ same] at waits
        exact none v reason' page' waits
  · next purpose swapNr page now =>
      cases moved
      have unwritten {nr : Nat} (none : ∀ u reason page, s.activity u ≠ .writing reason nr page false) (v : τ)
          (reason : Purpose τ dirs ptrs) (frame : Nat) :
          ((s.setPage page (s.slot swapNr)).setActivity t (.reading purpose swapNr page (some (s.slot swapNr)))).activity v ≠
            .writing reason nr frame false := by
        intro waits
        by_cases same : v = t
        · rw [same, setActivity_self] at waits
          cases waits
        · rw [setActivity_of_ne _ _ same] at waits
          exact none v reason frame waits
      intro u reason nr frame data reads
      by_cases same : u = t
      · rw [same, setActivity_self] at reads
        cases reads
        exact ⟨rfl, unwritten (ordered _ _ _ now)⟩
      · rw [setActivity_of_ne _ _ same] at reads
        obtain ⟨holds, none⟩ := fresh u reason nr frame data reads
        exact ⟨holds, unwritten none⟩
  · cases moved

theorem fresh_step [Fintype τ] [Inhabited δ] {usable : Nat → Bool} {m : Move τ δ dirs ptrs} (good : s.Good usable)
    (fresh : s.Fresh) (ordered : s.InOrder m) (moved : s.step m = some s') : s'.Fresh := by
  unfold step at moved
  split at moved
  · cases moved
  cases m with
  | write t i data =>
    simp only at moved
    split at moved
    · split at moved
      · cases moved
        exact fresh.of_calms (.of_eq rfl rfl)
      · cases moved
    · cases moved
  | fault t i =>
    simp only at moved
    split at moved
    · exact fresh.of_calms (calms_fault moved)
    · cases moved
  | allocate t page =>
    simp only at moved
    split at moved
    · split at moved
      · cases moved
        exact fresh.of_calms (calms_gotPage t page _)
      · cases moved
    · cases moved
  | swapOut t p =>
    simp only at moved
    split at moved
    · split at moved
      · cases moved
        exact fresh_tryToSwapOut good fresh t _ p
      · cases moved
    · cases moved
  | outOfMemory t codeSize dataSize =>
    simp only at moved
    split at moved
    · cases moved
      exact fresh.of_calms (calms_noPage t codeSize dataSize _)
    · cases moved
  | serve t => exact fresh_serve fresh ordered moved
  | resume t => exact fresh.of_calms (calms_resume moved)
  | fork t child size =>
    simp only at moved
    split at moved
    · cases moved
      refine fresh.of_calms (Calms.setActivity (Calms.setActivity (.of_eq rfl rfl) ?_) trivial)
      trivial
    · cases moved
  | freeTables t first size =>
    simp only at moved
    split at moved
    · cases moved
      exact fresh.of_calms (calms_freePageTables t first size)
    · cases moved
  | exit t codeSize dataSize =>
    simp only at moved
    split at moved
    · cases moved
      exact fresh.of_calms (calms_exit t codeSize dataSize)
    · cases moved

end Order

section Owners

variable [Fintype τ] {s s' start : State τ δ dirs ptrs}

variable {swapBitmap : Nat → Bool}

omit [DecidableEq τ] in
theorem initSwapping_spec {swapDev : Nat} {blkSize : Option Nat} {page : Option (Nat → Bool)} {swapSize : Nat}
    (accepted : initSwapping swapDev blkSize page = some (swapSize, swapBitmap)) :
    swapSize ≤ swapBits ∧ ∀ nr, nr < swapBits → swapBitmap nr = true → 1 ≤ nr ∧ nr < swapSize := by
  unfold initSwapping at accepted
  split at accepted
  · cases accepted
  split at accepted
  · next blocks page =>
      simp only [Option.ite_none_left_eq_some, Option.ite_none_right_eq_some, Option.some.injEq,
        Prod.mk.injEq] at accepted
      obtain ⟨_, _, sound, _, rfl, rfl⟩ := accepted
      refine ⟨min_le_right _ _, fun nr inBitmap set => ?_⟩
      generalize min (blocks >>> 2) swapBits = swapSize at sound
      simp only [badBitmap, Bool.or_eq_true, not_or, Bool.not_eq_true] at sound
      obtain ⟨⟨first, limit⟩, rest⟩ := sound
      constructor
      · refine Nat.pos_of_ne_zero ?_
        rintro rfl
        rw [first] at set
        cases set
      · by_contra above
        rcases Nat.eq_or_lt_of_not_lt above with rfl | behind
        · rw [limit] at set
          cases set
        · have member : nr ∈ List.range' (swapSize + 1) (swapBits - (swapSize + 1)) := by
            rw [List.mem_range'_1]
            omega
          have clear := List.any_eq_false.mp rest nr member
          exact clear set
  · cases accepted

omit [DecidableEq τ] in
theorem good_booted (booted : start.Booted swapBitmap) : start.Good start.freeSlots ∧ start.Fresh := by
  have noSlot (p : τ × Index dirs ptrs) : start.slotHeld p = none := by
    rcases booted.resident p with zero | here
    · rw [slotHeld, zero, slotOf_zero]
    · exact slotOf_present here
  have rests (t : τ) : Resting (start.activity t) := by
    rcases booted.quiet t with now | now
    · rw [now]
      trivial
    · rw [now]
      trivial
  refine ⟨⟨⟨?_, ⟨fun _ => id, ?_, ?_, ?_⟩, booted.counted, booted.hollow⟩, ?_, ?_⟩, ?_⟩
  · intro nr usable
    rw [freeSlots, Bool.and_eq_true, decide_eq_true_eq] at usable
    exact usable.1
  · intro p nr holds
    rw [noSlot] at holds
    cases holds
  · intro p q nr holds
    rw [noSlot] at holds
    cases holds
  · intro nr usable notFree
    rw [usable] at notFree
    cases notFree
  · exact fun t => ((rests t).sound start t).1
  · intro t u c d copies
    rw [((rests t).sound start t).2] at copies
    cases copies
  · intro t purpose swapNr page data now
    have resting := rests t
    rw [now] at resting
    cases resting

omit [DecidableEq τ] in
theorem Good.slotsOwned {swapSize : Nat} (good : s.Good start.freeSlots)
    (bitmap : start.swapBitmap = swapBitmap) (fits : swapSize ≤ swapBits)
    (checked : ∀ nr, nr < swapBits → swapBitmap nr = true → 1 ≤ nr ∧ nr < swapSize) :
    s.SlotsOwned swapBitmap swapSize := by
  have slots := good.accounts.slots
  refine ⟨fun n positive below => ?_, fun p used absent => ?_⟩
  · have inBitmap : n < swapBits := Nat.lt_of_lt_of_le below fits
    have exactly := slots.free_eq_false_iff n
    have here (b : State τ δ dirs ptrs) : b.freeSlots n = b.swapBitmap n := by
      rw [freeSlots, decide_eq_true inBitmap, Bool.true_and]
    have entries (p : τ × Index dirs ptrs) : s.slotHeld p = some n ↔ s.table p = n <<< 1 := by
      rw [slotHeld, slotOf_eq_some]
      exact and_iff_right (Nat.pos_iff_ne_zero.mp positive)
    rw [here, here, bitmap] at exactly
    simpa only [entries] using exactly
  · have holds : s.slotHeld p = some (s.table p >>> 1) := slotOf_swapped used absent
    have usable := (slots.taken p _ holds).1
    rw [freeSlots, Bool.and_eq_true, decide_eq_true_eq, bitmap] at usable
    obtain ⟨positive, below⟩ := checked _ usable.1 usable.2
    exact ⟨_, positive, below, usable.2, (slotOf_eq_some.mp holds).2⟩

theorem Good.handsOver [Inhabited δ] {usable : Nat → Bool} {t : τ} (good : s.Good usable)
    (moved : s.step (.resume t) = some s') : s.HandsOver s' t := by
  intro i thisPage c swapNr page data now
  have sound := good.sound t
  rw [now] at sound
  obtain ⟨⟨entry, slot, copies⟩, reads, tracked, one, holds⟩ := sound
  have resumed : s.resume t = some s' := by
    unfold step at moved
    split at moved
    · cases moved
    · exact moved
  unfold resume at resumed
  rw [now] at resumed
  cases reads
  cases resumed
  have word := (slotOf_eq_some.mp slot).2
  have distinct : (c.child, i) ≠ (t, i) := by
    intro equal
    have unborn := copies.unborn
    rw [(Prod.mk.inj equal).1, now] at unborn
    cases unborn
  have mine : s.pageHeld (.inr (.inr t)) = some page := congrArg Activity.page now
  refine ⟨entry.trans word, ?_, update_self .., holds data rfl, fun p has => ?_⟩
  · exact ((update_of_ne distinct ..).trans (update_self ..)).trans word
  · by_contra other
    change pageOf (update (update s.table (c.child, i) thisPage) (t, i) _ p) = some page at has
    rw [update_of_ne other] at has
    by_cases child : p = (c.child, i)
    · rw [child, update_self, word, pageOf_absent (present_shift _)] at has
      cases has
    · rw [update_of_ne child] at has
      cases good.accounts.pages.alone (i := .inl p) tracked one has mine

end Owners

section Machine

def signedPage (usable : List Nat) (nr : Nat) : Bool :=
  if nr < 8 * 4086 then decide (nr ∈ usable)
  else (("SWAP-SPACE".toList.map Char.toNat).getD (nr / 8 - 4086) 0).testBit (nr % 8)

theorem initSwapping_signedPage :
    initSwapping 0x306 (some 400) (some (signedPage [1])) = some (100, unsign (signedPage [1])) := by
  have marked : signed (signedPage [1]) = true := by decide
  have clear (nr : Nat) (above : 100 ≤ nr) (inBitmap : nr < 8 * 4096) : unsign (signedPage [1]) nr = false := by
    unfold unsign
    split
    · rfl
    · next outside =>
        rw [signedPage, if_pos (by omega)]
        refine decide_eq_false fun member => ?_
        rw [List.mem_singleton] at member
        omega
  have sound : badBitmap (unsign (signedPage [1])) 100 = false := by
    rw [badBitmap, clear 100 (by decide) (by decide), Bool.or_false, Bool.or_eq_false_iff]
    refine ⟨by decide, List.any_eq_false.mpr fun nr member => ?_⟩
    rw [List.mem_range'_1, swapBits] at member
    rw [clear nr (by omega) (by omega)]
    exact Bool.false_ne_true
  have size : min (400 >>> 2) swapBits = 100 := by decide
  rw [initSwapping, if_neg (by decide)]
  simp only [size, marked, sound]
  rfl

def oneTask : State (Fin 2) Nat 1 2 where
  swapBitmap := unsign (signedPage [1])
  memMap := fun _ => 0
  highMemory := 260
  memory := fun _ => 0
  slot := fun _ => 0
  dir := fun _ => 0
  table := fun _ => 0
  activity := fun t => if t = 0 then .user else .free
  panicked := false

theorem booted_oneTask : oneTask.Booted (unsign (signedPage [1])) where
  bitmap := rfl
  resident _ := .inl rfl
  counted := by
    intro page _
    refine (Counting.number_eq_zero.mpr ?_).symm
    rintro (p | d | t)
    · rfl
    · rfl
    · change decide ((if t = 0 then Activity.user else Activity.free : Activity (Fin 2) Nat 1 2).page = some page) = false
      split <;> rfl
  hollow _ _ _ := rfl
  quiet t := by
    change (if t = 0 then Activity.user else Activity.free) = Activity.free ∨ _
    split
    · next zero => exact .inr (if_pos zero)
    · exact .inl rfl

def swapAndFork : List (Move (Fin 2) Nat 1 2) :=
  [.fault 0 (0, 0), .allocate 0 256, .fault 0 (0, 0), .allocate 0 257, .write 0 (0, 0) 7, .fault 0 (0, 1),
    .swapOut 0 (0, (0, 0)), .serve 0, .resume 0, .allocate 0 257, .fork 0 1 1, .resume 0, .allocate 0 258,
    .resume 0, .allocate 0 259, .serve 0]

end Machine

end State

end Linux012.Mm.Swap

import Linux012.Fs.Directory

/-! Several processes that make and remove names in one directory. `find_entry` and
`add_entry` sleep before each block of the directory, and the calls sleep between a
lookup and what they do after it. Blocks can always be read. -/

set_option autoImplicit false

namespace Linux012.Fs.DirectoryRaces

open Namei Transition Function
open InodeTable (Pid)

inductive Kind where
  /-- `open` with `O_CREAT` -/
  | create (excl : Bool)
  | mknod
  | mkdir
  | link (num : Nat)
  | symlink
  | unlink
  | rmdir
deriving DecidableEq

def Kind.makes : Kind → Bool
  | .unlink | .rmdir => false
  | _ => true

structure Call where
  kind : Kind
  name : Name
deriving DecidableEq

inductive Phase where
  | idle
  /-- in `find_entry`, before the block at `start`, with the number of entries that it
  has found in `i_size`, and with the inode of `sys_symlink` -/
  | looking (call : Call) (num : Option Nat) (start entries : Nat)
  /-- in `new_inode`, or in what the call does with a new inode -/
  | allocating (call : Call)
  /-- in `add_entry`, before the block at `start` -/
  | adding (call : Call) (num start : Nat)
  /-- from `iget` to the end of the checks, with the entry and its inode -/
  | removing (call : Call) (slot num : Nat)
deriving DecidableEq

inductive Event where
  | made (name : Name) (num : Nat)
  | found (name : Name) (num : Nat)
  | removed (name : Name) (num : Nat)

structure State where
  entries : List DirEntry
  control : Pid → Phase
  log : List Event

inductive Move where
  | call (p : Pid) (call : Call)
  /-- `find_entry` or `add_entry` goes through its next block -/
  | run (p : Pid)
  | allocated (p : Pid) (num : Nat)
  | fail (p : Pid)
  /-- `de->inode=0` -/
  | clear (p : Pid)

def State.goto (s : State) (p : Pid) (phase : Phase) : State :=
  { s with control := update s.control p phase }

def State.record (s : State) (event : Event) : State := { s with log := s.log ++ [event] }

def State.hit (s : State) (p : Pid) (call : Call) (slot : Nat) : State :=
  let num := (s.entries[slot]?).elim 0 DirEntry.inode
  match call.kind with
  | .unlink | .rmdir => s.goto p (.removing call slot num)
  | .create false => (s.goto p .idle).record (.found call.name num)
  | _ => s.goto p .idle

def State.miss (s : State) (p : Pid) (call : Call) (num : Option Nat) : State :=
  match call.kind, num with
  | .unlink, _ | .rmdir, _ => s.goto p .idle
  | .link num, _ => s.goto p (.adding call num 0)
  | _, some num => s.goto p (.adding call num 0)
  | _, none => s.goto p (.allocating call)

def State.look (s : State) (p : Pid) (call : Call) (num : Option Nat) (start entries : Nat) : State :=
  match search s.entries call.name start (min (start + DIR_ENTRIES_PER_BLOCK) entries) with
  | some slot => s.hit p call slot
  | none =>
    if entries ≤ start + DIR_ENTRIES_PER_BLOCK then s.miss p call num
    else s.goto p (.looking call num (start + DIR_ENTRIES_PER_BLOCK) entries)

def State.add (s : State) (p : Pid) (call : Call) (num start : Nat) : State :=
  match freeSlot s.entries start (start + DIR_ENTRIES_PER_BLOCK) with
  | some slot =>
    { (s.goto p .idle).record (.made call.name num) with entries := put s.entries slot (.new num call.name) }
  | none => s.goto p (.adding call num (start + DIR_ENTRIES_PER_BLOCK))

def State.step (s : State) : Move → Option State
  | .call p call =>
    match s.control p, call.kind with
    | .idle, .symlink => some (s.goto p (.allocating call))
    | .idle, .link num =>
      if num = 0 then none else some (s.goto p (.looking call none 0 s.entries.length))
    | .idle, _ => some (s.goto p (.looking call none 0 s.entries.length))
    | _, _ => none
  | .run p =>
    match s.control p with
    | .looking call num start entries => some (s.look p call num start entries)
    | .adding call num start => some (s.add p call num start)
    | _ => none
  | .allocated p num =>
    match s.control p with
    | .allocating call =>
      if num = 0 then none
      else if call.kind = .symlink then some (s.goto p (.looking call (some num) 0 s.entries.length))
      else some (s.goto p (.adding call num 0))
    | _ => none
  | .fail p =>
    match s.control p with
    | .allocating _ | .adding _ _ _ | .removing _ _ _ => some (s.goto p .idle)
    | _ => none
  | .clear p =>
    match s.control p with
    | .removing call slot num =>
      some { (s.goto p .idle).record (.removed call.name num) with entries := Namei.clear s.entries slot }
    | _ => none

/-! ## Calls one after the other -/

abbrev Names := Name → Option Nat

def Event.apply (names : Names) : Event → Option Names
  | .made name num => if names name = none then some (update names name (some num)) else none
  | .found name num => if names name = some num then some names else none
  | .removed name num => if names name = some num then some (update names name none) else none

def replay (names : Names) (log : List Event) : Option Names := log.foldlM Event.apply names

theorem replay_record {names after : Names} {log : List Event} {event : Event}
    (before : replay names log = some after) : replay names (log ++ [event]) = event.apply after := by
  unfold replay at before ⊢
  rw [List.foldlM_append, before]
  exact bind_pure (event.apply after)

/-! ## Races -/

/-- The call has looked for the name and would not see it at `slot`. -/
def Phase.Misses (name : Name) (slot : Nat) : Phase → Prop
  | .looking call _ start entries => call.kind.makes ∧ call.name = name ∧ (slot < start ∨ entries ≤ slot)
  | .allocating call => call.kind ≠ .symlink ∧ call.name = name
  | .adding call _ _ => call.name = name
  | _ => False

instance (name : Name) (slot : Nat) : (phase : Phase) → Decidable (phase.Misses name slot)
  | .looking _ _ _ _ => inferInstanceAs (Decidable (_ ∧ _ ∧ _))
  | .allocating _ => inferInstanceAs (Decidable (_ ∧ _))
  | .adding _ _ _ => inferInstanceAs (Decidable (_ = _))
  | .idle | .removing _ _ _ => inferInstanceAs (Decidable False)

def Phase.makes (entries : List DirEntry) : Phase → Option (Name × Nat)
  | .adding call _ start =>
    (freeSlot entries start (start + DIR_ENTRIES_PER_BLOCK)).map fun slot => (call.name, slot)
  | _ => none

def Phase.removes : Phase → Option Nat
  | .removing _ slot _ => some slot
  | _ => none

def State.Careful (s : State) : Move → Prop
  | .run p => ∀ q, q ≠ p → ∀ place ∈ (s.control p).makes s.entries, ¬(s.control q).Misses place.1 place.2
  | .clear p => ∀ q, q ≠ p → ∀ slot ∈ (s.control p).removes, (s.control q).removes ≠ some slot
  | _ => True

instance (s : State) : (m : Move) → Decidable (s.Careful m)
  | .run p =>
    inferInstanceAs (Decidable (∀ q, q ≠ p → ∀ place ∈ (s.control p).makes s.entries,
      ¬(s.control q).Misses place.1 place.2))
  | .clear p =>
    inferInstanceAs (Decidable (∀ q, q ≠ p → ∀ slot ∈ (s.control p).removes, (s.control q).removes ≠ some slot))
  | .call _ _ | .allocated _ _ | .fail _ => inferInstanceAs (Decidable True)

/-! ## Invariant -/

def Phase.Knows (entries : List DirEntry) : Phase → Prop
  | .idle => True
  | .looking call num start length =>
    length ≤ entries.length ∧ num ≠ some 0 ∧ (∀ num, call.kind = .link num → num ≠ 0) ∧
      (call.kind.makes → ∀ (j : Nat) (e : DirEntry), entries[j]? = some e → e.Names call.name → start ≤ j ∧ j < length)
  | .allocating call => call.kind.makes ∧
      (call.kind = .symlink ∨ ∀ (j : Nat) (e : DirEntry), entries[j]? = some e → ¬e.Names call.name) ∧
      ∀ num, call.kind ≠ .link num
  | .adding call num start => num ≠ 0 ∧ start ≤ entries.length ∧
      ∀ (j : Nat) (e : DirEntry), entries[j]? = some e → ¬e.Names call.name
  | .removing call slot num => ∃ e, entries[slot]? = some e ∧ e.Names call.name ∧ e.inode = num

structure State.Sound (s : State) (initial : Names) : Prop where
  padded : Padded s.entries
  distinct : Distinct s.entries
  replayed : replay initial s.log = some (content s.entries)
  knows : ∀ p, (s.control p).Knows s.entries

section Steps

variable {s s' : State} {initial : Names} {p : Pid} {phase : Phase} {entries : List DirEntry} {name : Name}
  {slot num : Nat}

theorem put_length (j : Nat) (e : DirEntry) : entries.length ≤ (put entries j e).length := by
  unfold put
  split
  · simp
  · simp

theorem Phase.Knows.put (knows : phase.Knows entries) (fits : slot ≤ entries.length) (used : num ≠ 0)
    (free : ∀ e, entries[slot]? = some e → e.inode = 0) (sees : ¬phase.Misses name slot) :
    phase.Knows (put entries slot (.new num name)) := by
  have cases_ {j : Nat} {e : DirEntry} (at_ : (Namei.put entries slot (.new num name))[j]? = some e) :
      j = slot ∧ e = .new num name ∨ entries[j]? = some e := by
    rw [put_get fits] at at_
    split at at_
    · next here =>
      cases at_
      exact .inl ⟨here, rfl⟩
    · exact .inr at_
  have isNew := DirEntry.new_names used name
  cases phase with
  | idle => trivial
  | looking call known start length =>
    obtain ⟨inside, some_, link, unseen⟩ := knows
    refine ⟨Nat.le_trans inside (put_length _ _), some_, link, fun makes j e at_ names => ?_⟩
    rcases cases_ at_ with ⟨rfl, rfl⟩ | old
    · have same := names.unique isNew
      by_contra outside
      exact sees ⟨makes, same, by omega⟩
    · exact unseen makes j e old names
  | allocating call =>
    obtain ⟨makes, absent, link⟩ := knows
    refine ⟨makes, ?_, link⟩
    rcases absent with isSymlink | absent
    · exact .inl isSymlink
    · by_cases isSymlink : call.kind = .symlink
      · exact .inl isSymlink
      · refine .inr fun j e at_ names => ?_
        rcases cases_ at_ with ⟨rfl, rfl⟩ | old
        · exact sees ⟨isSymlink, names.unique isNew⟩
        · exact absent j e old names
  | adding call known start =>
    obtain ⟨knownUsed, inside, absent⟩ := knows
    refine ⟨knownUsed, Nat.le_trans inside (put_length _ _), fun j e at_ names => ?_⟩
    rcases cases_ at_ with ⟨rfl, rfl⟩ | old
    · exact sees (names.unique isNew)
    · exact absent j e old names
  | removing call place known =>
    obtain ⟨e, at_, names, isNum⟩ := knows
    refine ⟨e, ?_, names, isNum⟩
    rw [put_get fits, if_neg, at_]
    rintro rfl
    exact names.1 (free e at_)

theorem Phase.Knows.clear (knows : phase.Knows entries)
    (other : phase.removes ≠ some slot) : phase.Knows (clear entries slot) := by
  have old {j : Nat} {e : DirEntry} {name : Name} (at_ : (Namei.clear entries slot)[j]? = some e)
      (names : e.Names name) : entries[j]? = some e := by
    rw [clear_get, Option.map_eq_some_iff] at at_
    obtain ⟨f, isF, rfl⟩ := at_
    split at names
    · exact absurd rfl names.1
    · next notHere => rw [isF, if_neg notHere]
  have length : (Namei.clear entries slot).length = entries.length := List.length_modify ..
  cases phase with
  | idle => trivial
  | looking call known start count =>
    obtain ⟨inside, some_, link, unseen⟩ := knows
    exact ⟨Nat.le_trans inside (Nat.le_of_eq length.symm), some_, link,
      fun makes j e at_ names => unseen makes j e (old at_ names) names⟩
  | allocating call =>
    obtain ⟨makes, absent, link⟩ := knows
    exact ⟨makes, absent.imp_right fun absent j e at_ names => absent j e (old at_ names) names, link⟩
  | adding call known start =>
    obtain ⟨used, inside, absent⟩ := knows
    exact ⟨used, Nat.le_trans inside (Nat.le_of_eq length.symm), fun j e at_ names => absent j e (old at_ names) names⟩
  | removing call place known =>
    obtain ⟨e, at_, names, isNum⟩ := knows
    have notHere : place ≠ slot := by
      rintro rfl
      exact other rfl
    refine ⟨e, ?_, names, isNum⟩
    rw [clear_get, at_, Option.map_some, if_neg notHere]

theorem State.Sound.goto (sound : s.Sound initial) (knows : phase.Knows s.entries) :
    (s.goto p phase).Sound initial where
  padded := sound.padded
  distinct := sound.distinct
  replayed := sound.replayed
  knows q := by
    change Phase.Knows s.entries (update s.control p phase q)
    by_cases same : q = p
    · subst same
      rwa [update_self]
    · rw [update_of_ne same]
      exact sound.knows q

theorem State.Sound.record {event : Event} (sound : s.Sound initial)
    (legal : event.apply (content s.entries) = some (content s.entries)) : (s.record event).Sound initial where
  padded := sound.padded
  distinct := sound.distinct
  replayed := (replay_record sound.replayed).trans legal
  knows := sound.knows

theorem Phase.knows_idle : Phase.idle.Knows entries := trivial

variable {call : Call}

theorem State.Sound.hit (sound : s.Sound initial) {e : DirEntry} (at_ : s.entries[slot]? = some e)
    (names : e.Names call.name) : (s.hit p call slot).Sound initial := by
  have num : (s.entries[slot]?).elim 0 DirEntry.inode = e.inode := by rw [at_, Option.elim_some]
  have removing : (Phase.removing call slot e.inode).Knows s.entries := ⟨e, at_, names, rfl⟩
  unfold State.hit
  rw [num]
  split
  · exact sound.goto removing
  · exact sound.goto removing
  · refine (sound.goto Phase.knows_idle).record ?_
    exact if_pos (sound.distinct.content_eq_some.mpr ⟨slot, e, at_, names, rfl⟩)
  · exact sound.goto Phase.knows_idle

theorem State.Sound.miss {known : Option Nat} (sound : s.Sound initial) (some_ : known ≠ some 0)
    (link : ∀ num, call.kind = .link num → num ≠ 0)
    (absent : call.kind.makes → ∀ (j : Nat) (e : DirEntry), s.entries[j]? = some e → ¬e.Names call.name) :
    (s.miss p call known).Sound initial := by
  have adds {num : Nat} (used : num ≠ 0) (makes : call.kind.makes) :
      (Phase.adding call num 0).Knows s.entries := ⟨used, Nat.zero_le _, absent makes⟩
  unfold State.miss
  split
  · exact sound.goto Phase.knows_idle
  · exact sound.goto Phase.knows_idle
  · next num isLink => exact sound.goto (adds (link num isLink) (by rw [isLink]; rfl))
  · next num notUnlink notRmdir notLink =>
    refine sound.goto (adds (fun zero => some_ (by rw [zero])) ?_)
    cases isKind : call.kind <;> simp_all [Kind.makes]
  · next notUnlink notRmdir notLink =>
    have makes : call.kind.makes := by
      cases isKind : call.kind <;> simp_all [Kind.makes]
    exact sound.goto ⟨makes, .inr (absent makes), notLink⟩

theorem State.Sound.look {known : Option Nat} {start length : Nat} (sound : s.Sound initial)
    (at_ : s.control p = .looking call known start length) :
    (s.look p call known start length).Sound initial := by
  have knows := sound.knows p
  rw [at_] at knows
  obtain ⟨inside, some_, link, unseen⟩ := knows
  unfold State.look
  split
  · next slot found =>
    obtain ⟨-, -, e, isEntry, names⟩ := sound.padded.search_some found
    exact sound.hit isEntry names
  · next nothing =>
    have passed (makes : call.kind.makes) (j : Nat) (e : DirEntry) (isEntry : s.entries[j]? = some e)
        (names : e.Names call.name) : start + DIR_ENTRIES_PER_BLOCK ≤ j ∧ j < length := by
      obtain ⟨lower, upper⟩ := unseen makes j e isEntry names
      refine ⟨?_, upper⟩
      by_contra before
      exact sound.padded.search_none nothing lower (by omega) isEntry names
    split
    · refine sound.miss some_ link fun makes j e isEntry names => ?_
      have := passed makes j e isEntry names
      omega
    · exact sound.goto ⟨inside, some_, link, passed⟩

theorem State.Sound.add {known start : Nat} (sound : s.Sound initial)
    (at_ : s.control p = .adding call known start) (careful : s.Careful (.run p)) :
    (s.add p call known start).Sound initial := by
  have knows := sound.knows p
  rw [at_] at knows
  obtain ⟨used, inside, absent⟩ := knows
  simp only [State.Careful, at_, Phase.makes] at careful
  unfold State.add
  split
  · next slot found =>
    have fits := freeSlot_fits inside found
    have free := (freeSlot_some found).2.2
    have none_ := content_eq_none.mpr absent
    obtain ⟨distinct, contents⟩ := sound.distinct.put fits used none_ free
    exact
      { padded := sound.padded.put (DirEntry.new_length _ _)
        distinct := distinct
        replayed := by
          rw [contents]
          exact (replay_record sound.replayed).trans (if_pos none_)
        knows := fun q => by
          change Phase.Knows _ (update s.control p .idle q)
          by_cases same : q = p
          · subst same
            rw [update_self]
            trivial
          · rw [update_of_ne same]
            exact (sound.knows q).put fits used free (careful q same (call.name, slot) (by rw [found]; rfl)) }
  · next nothing =>
    exact sound.goto ⟨used, freeSlot_none inside nothing, absent⟩

theorem State.Sound.clear {known : Nat} (sound : s.Sound initial)
    (at_ : s.control p = .removing call slot known) (careful : s.Careful (.clear p)) :
    State.Sound { (s.goto p .idle).record (.removed call.name known) with entries := Namei.clear s.entries slot }
      initial := by
  have knows := sound.knows p
  rw [at_] at knows
  obtain ⟨e, isEntry, names, isNum⟩ := knows
  simp only [State.Careful, at_, Phase.removes] at careful
  obtain ⟨distinct, contents⟩ := sound.distinct.clear isEntry names
  exact
    { padded := sound.padded.clear
      distinct := distinct
      replayed := by
        rw [contents]
        refine (replay_record sound.replayed).trans (if_pos ?_)
        exact sound.distinct.content_eq_some.mpr ⟨slot, e, isEntry, names, isNum⟩
      knows := fun q => by
        change Phase.Knows _ (update s.control p .idle q)
        by_cases same : q = p
        · subst same
          rw [update_self]
          trivial
        · rw [update_of_ne same]
          exact (sound.knows q).clear (careful q same slot rfl) }

theorem State.Sound.step {m : Move} (sound : s.Sound initial) (careful : s.Careful m) (moved : s.step m = some s') :
    s'.Sound initial := by
  have starts (call : Call) (link : ∀ num, call.kind = .link num → num ≠ 0) (known : Option Nat)
      (some_ : known ≠ some 0) : (Phase.looking call known 0 s.entries.length).Knows s.entries :=
    ⟨Nat.le_refl _, some_, link, fun _ j e isEntry _ => ⟨Nat.zero_le j, (List.getElem?_eq_some_iff.mp isEntry).1⟩⟩
  cases m with
  | call p call =>
    simp only [State.step] at moved
    split at moved
    · next isSymlink =>
      cases moved
      refine sound.goto ⟨by rw [isSymlink]; rfl, .inl isSymlink, fun num isLink => ?_⟩
      rw [isSymlink] at isLink
      cases isLink
    · next n isLink =>
      split at moved
      · cases moved
      · next used =>
        cases moved
        refine sound.goto (starts call (fun num isLink' => ?_) none (by simp))
        rw [isLink] at isLink'
        cases isLink'
        exact used
    · next notLink =>
      cases moved
      exact sound.goto (starts call (fun num isLink => absurd isLink (notLink num)) none (by simp))
    · cases moved
  | run p =>
    simp only [State.step] at moved
    split at moved
    · next at_ =>
      cases moved
      exact sound.look at_
    · next at_ =>
      cases moved
      exact sound.add at_ careful
    · cases moved
  | allocated p num =>
    simp only [State.step] at moved
    split at moved
    · next call at_ =>
      have knows := sound.knows p
      rw [at_] at knows
      obtain ⟨makes, absent, link⟩ := knows
      split at moved
      · cases moved
      · next used =>
        split at moved
        · cases moved
          exact sound.goto (starts call (fun n isLink => absurd isLink (link n)) (some num)
            (fun zero => used (Option.some.inj zero)))
        · next notSymlink =>
          cases moved
          exact sound.goto ⟨used, Nat.zero_le _, absent.resolve_left notSymlink⟩
    · cases moved
  | fail p =>
    simp only [State.step] at moved
    split at moved
    · cases moved
      exact sound.goto Phase.knows_idle
    · cases moved
      exact sound.goto Phase.knows_idle
    · cases moved
      exact sound.goto Phase.knows_idle
    · cases moved
  | clear p =>
    simp only [State.step] at moved
    split at moved
    · next at_ =>
      cases moved
      exact sound.clear at_ careful
    · cases moved

end Steps

/-- The calls that have succeeded, one after the other, make the names of the directory;
no name is there twice, and calls that are to clear an entry find their name there. -/
structure State.Linearizable (s : State) (initial : Names) : Prop where
  ordered : replay initial s.log = some (content s.entries)
  distinct : Distinct s.entries
  clears : ∀ p call slot num, s.control p = .removing call slot num →
    ∃ e, s.entries[slot]? = some e ∧ e.Names call.name ∧ e.inode = num

structure State.Initial (s : State) : Prop where
  idle : ∀ p, s.control p = .idle
  empty : s.log = []
  padded : Padded s.entries
  distinct : Distinct s.entries

theorem State.Initial.sound {s : State} (initial : s.Initial) : s.Sound (content s.entries) where
  padded := initial.padded
  distinct := initial.distinct
  replayed := by
    rw [initial.empty]
    rfl
  knows p := by
    rw [initial.idle p]
    exact Phase.knows_idle

/-- In a run in which no call makes a name that another one misses, or clears an entry
that another one is to clear, the directory is that of the successful calls one after
the other. -/
theorem linearizable_of_careful {start s : State} (initial : start.Initial)
    (reached : Run State.step State.Careful start s) : s.Linearizable (content start.entries) := by
  have sound : s.Sound (content start.entries) :=
    reached.invariant (P := fun s => s.Sound (content start.entries))
      (fun sound careful moved => sound.step careful moved) initial.sound
  refine ⟨sound.replayed, sound.distinct, fun p call slot num at_ => ?_⟩
  have knows := sound.knows p
  rw [at_] at knows
  exact knows

def first : Pid := ⟨0, by decide⟩

def second : Pid := ⟨1, by decide⟩

def nameOf (letter : Byte) (nonzero : letter ≠ 0) : Name where
  text := [letter]
  nonempty := by simp
  short := by simp [NAME_LEN]
  nonzero c member := by rwa [List.mem_singleton.mp member]

def nameA : Name := nameOf 97 (by decide)

def nameB : Name := nameOf 98 (by decide)

def emptyState : State where
  entries := []
  control _ := .idle
  log := []

theorem emptyState_initial : emptyState.Initial where
  idle _ := rfl
  empty := rfl
  padded e member := by cases member
  distinct i j e f name isE := by cases isE

theorem linearizable_of_careful_two :
    ∃ s, Run State.step State.Careful emptyState s ∧
      s.entries = [{ DirEntry.new 5 nameA with inode := 0 }, .new 6 nameB] ∧
      s.Linearizable (content emptyState.entries) := by
  obtain ⟨s, reached, isEntries⟩ := exists_of_runIf State.step (fun s m => decide (s.Careful m)) emptyState
    [.call first ⟨.mknod, nameA⟩, .call second ⟨.mkdir, nameB⟩, .run first, .run second,
      .allocated first 5, .run first, .call first ⟨.unlink, nameA⟩, .allocated second 6,
      .run first, .run second, .clear first]
    (fun s => s.entries = [{ DirEntry.new 5 nameA with inode := 0 }, .new 6 nameB]) (by decide +kernel)
  have careful := reached.weaken fun s m careful => of_decide_eq_true careful
  exact ⟨s, careful, isEntries, linearizable_of_careful emptyState_initial careful⟩

/-- Two processes look for `a` before either makes it. And one removes `a` while another
has found its entry for removal; the entry is taken for `b`, and cleared. -/
theorem twice_made_and_other_cleared :
    (∃ s, Reachable State.step emptyState s ∧ s.entries = [.new 5 nameA, .new 6 nameA] ∧
      ¬s.Linearizable (content emptyState.entries)) ∧
    ∃ s, Reachable State.step emptyState s ∧ s.control first = .removing ⟨.unlink, nameA⟩ 0 5 ∧
      s.entries = [.new 6 nameB] ∧ ¬s.Linearizable (content emptyState.entries) := by
  constructor
  · obtain ⟨s, ran, isEntries⟩ := exists_of_run State.step emptyState
      [.call first ⟨.mknod, nameA⟩, .call second ⟨.mknod, nameA⟩, .run first, .run second,
        .allocated first 5, .run first, .allocated second 6, .run second]
      (fun s => s.entries = [.new 5 nameA, .new 6 nameA]) (by decide +kernel)
    refine ⟨s, reachable_of_run ran, isEntries, fun linearizable => ?_⟩
    have same := linearizable.distinct 0 1 (.new 5 nameA) (.new 6 nameA) nameA
      (by rw [isEntries]; rfl) (by rw [isEntries]; rfl)
      (DirEntry.new_names (by decide) nameA) (DirEntry.new_names (by decide) nameA)
    cases same
  · obtain ⟨s, ran, at_, isEntries⟩ := exists_of_run State.step emptyState
      [.call first ⟨.mknod, nameA⟩, .run first, .allocated first 5, .run first,
        .call first ⟨.unlink, nameA⟩, .run first, .call second ⟨.unlink, nameA⟩, .run second, .clear second,
        .call second ⟨.mknod, nameB⟩, .run second, .allocated second 6, .run second]
      (fun s => s.control first = .removing ⟨.unlink, nameA⟩ 0 5 ∧ s.entries = [.new 6 nameB]) (by decide +kernel)
    refine ⟨s, reachable_of_run ran, at_, isEntries, fun linearizable => ?_⟩
    obtain ⟨e, isEntry, names, -⟩ := linearizable.clears first _ _ _ at_
    rw [isEntries] at isEntry
    cases isEntry
    exact absurd (names.unique (DirEntry.new_names (by decide) nameB)) (by decide)

end Linux012.Fs.DirectoryRaces

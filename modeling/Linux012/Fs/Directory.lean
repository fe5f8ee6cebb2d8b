import Linux012.Fs.PathResolution

/-! The entries of a directory, as a list that grows at its end. -/

set_option autoImplicit false

namespace Linux012.Fs.Namei

open Function List

/-- A component as `find_entry` and `add_entry` take it: not empty, and cut to `NAME_LEN`. -/
structure Name where
  text : List Byte
  nonempty : text ≠ []
  short : text.length ≤ NAME_LEN
  nonzero : ∀ c ∈ text, c ≠ 0
deriving DecidableEq

def DirEntry.Names (e : DirEntry) (name : Name) : Prop := e.inode ≠ 0 ∧ e.text = name.text

instance (e : DirEntry) (name : Name) : Decidable (e.Names name) := inferInstanceAs (Decidable (_ ∧ _))

theorem DirEntry.Names.unique {e : DirEntry} {name other : Name} (names : e.Names name)
    (also : e.Names other) : name = other := by
  obtain ⟨text, _, _, _⟩ := name
  obtain ⟨otherText, _, _, _⟩ := other
  have same : text = otherText := names.2.symm.trans also.2
  subst same
  rfl

def DirEntry.new (inode : Nat) (name : Name) : DirEntry :=
  { inode := inode, name := (List.range NAME_LEN).map fun j => name.text.getD j 0 }

theorem DirEntry.new_length (inode : Nat) (name : Name) : (DirEntry.new inode name).name.length = NAME_LEN := by
  simp [DirEntry.new]

theorem DirEntry.new_text (inode : Nat) (name : Name) : (DirEntry.new inode name).text = name.text := by
  have short := name.short
  refine (takeWhile_eq_iff _ name.nonzero (by simpa [DirEntry.new] using short)).mpr ⟨?_, fun below => ?_⟩
  · refine ext_getElem (by simp [DirEntry.new, short]) fun i inside _ => ?_
    simp [DirEntry.new, getElem?_eq_getElem inside]
  · have inside : name.text.length < NAME_LEN := by simpa [DirEntry.new] using below
    simp [DirEntry.new, inside]

theorem DirEntry.new_names {inode : Nat} (used : inode ≠ 0) (name : Name) : (DirEntry.new inode name).Names name :=
  ⟨used, DirEntry.new_text inode name⟩

def Padded (entries : List DirEntry) : Prop := ∀ e ∈ entries, e.name.length = NAME_LEN

def Distinct (entries : List DirEntry) : Prop :=
  ∀ (i j : Nat) (e f : DirEntry) (name : Name),
    entries[i]? = some e → entries[j]? = some f → e.Names name → f.Names name → i = j

def content (entries : List DirEntry) (name : Name) : Option Nat :=
  (entries.find? fun e => e.Names name).map DirEntry.inode

def search (entries : List DirEntry) (name : Name) (start stop : Nat) : Option Nat :=
  (List.range' start (stop - start)).find? fun j => (entries[j]?).any fun e => matchName false name.text e

def freeSlot (entries : List DirEntry) (start stop : Nat) : Option Nat :=
  (List.range' start (stop - start)).find? fun j => (entries[j]?).all fun e => e.inode = 0

def put (entries : List DirEntry) (j : Nat) (e : DirEntry) : List DirEntry :=
  if j < entries.length then entries.set j e else entries ++ [e]

def clear (entries : List DirEntry) (j : Nat) : List DirEntry := entries.modify j fun e => { e with inode := 0 }

section Entries

variable {entries : List DirEntry} {name : Name} {start stop j : Nat} {e : DirEntry}

theorem Padded.match_iff (padded : Padded entries) (at_ : entries[j]? = some e) :
    matchName false name.text e = true ↔ e.Names name :=
  matchName_iff name.nonzero name.nonempty name.short (padded e (mem_of_getElem? at_))

theorem Padded.search_some (padded : Padded entries) (found : search entries name start stop = some j) :
    start ≤ j ∧ j < stop ∧ ∃ e, entries[j]? = some e ∧ e.Names name := by
  have matches_ := find?_some found
  obtain ⟨lower, upper⟩ := mem_range'_1.mp (mem_of_find?_eq_some found)
  obtain ⟨e, at_, isMatch⟩ := (Option.any_eq_true _ _).mp matches_
  exact ⟨lower, by omega, e, at_, (padded.match_iff at_).mp isMatch⟩

theorem Padded.search_none (padded : Padded entries) (none_ : search entries name start stop = none)
    (lower : start ≤ j) (upper : j < stop) (at_ : entries[j]? = some e) : ¬e.Names name := by
  intro names
  have no := find?_eq_none.mp none_ j (mem_range'_1.mpr ⟨lower, by omega⟩)
  rw [at_] at no
  exact no ((padded.match_iff at_).mpr names)

theorem freeSlot_some (found : freeSlot entries start stop = some j) :
    start ≤ j ∧ j < stop ∧ ∀ e, entries[j]? = some e → e.inode = 0 := by
  have free := find?_some found
  obtain ⟨lower, upper⟩ := mem_range'_1.mp (mem_of_find?_eq_some found)
  refine ⟨lower, by omega, fun e at_ => ?_⟩
  rw [at_] at free
  exact of_decide_eq_true free

theorem freeSlot_fits (inside : start ≤ entries.length) (found : freeSlot entries start stop = some j) :
    j ≤ entries.length := by
  obtain ⟨-, -, earlier⟩ := find?_range'_eq_some.mp found
  by_contra beyond
  have taken := earlier entries.length inside (by omega)
  simp at taken

theorem freeSlot_none (inside : start ≤ entries.length) (nothing : freeSlot entries start stop = none) :
    stop ≤ entries.length := by
  by_contra beyond
  have taken := find?_eq_none.mp nothing entries.length (mem_range'_1.mpr ⟨inside, by omega⟩)
  simp at taken

theorem Distinct.content_eq_some (distinct : Distinct entries) {num : Nat} :
    content entries name = some num ↔ ∃ (i : Nat) (e : DirEntry), entries[i]? = some e ∧ e.Names name ∧ e.inode = num := by
  unfold content
  rw [Option.map_eq_some_iff]
  constructor
  · rintro ⟨e, found, rfl⟩
    obtain ⟨i, at_⟩ := mem_iff_getElem?.mp (mem_of_find?_eq_some found)
    have names := find?_some found
    exact ⟨i, e, at_, of_decide_eq_true names, rfl⟩
  · rintro ⟨i, e, at_, names, rfl⟩
    have some_ : (entries.find? fun e => e.Names name).isSome = true := by
      rw [find?_isSome]
      exact ⟨e, mem_of_getElem? at_, decide_eq_true names⟩
    obtain ⟨f, found⟩ := Option.isSome_iff_exists.mp some_
    obtain ⟨k, place⟩ := mem_iff_getElem?.mp (mem_of_find?_eq_some found)
    have namesF := find?_some found
    have same := distinct k i f e name place at_ (of_decide_eq_true namesF) names
    subst same
    rw [place, Option.some.injEq] at at_
    exact ⟨f, found, congrArg DirEntry.inode at_⟩

theorem content_eq_none :
    content entries name = none ↔ ∀ (i : Nat) (e : DirEntry), entries[i]? = some e → ¬e.Names name := by
  unfold content
  rw [Option.map_eq_none_iff, find?_eq_none]
  constructor
  · intro none_ i e at_ names
    exact none_ e (mem_of_getElem? at_) (decide_eq_true names)
  · intro none_ e member names
    obtain ⟨i, at_⟩ := mem_iff_getElem?.mp member
    exact none_ i e at_ (of_decide_eq_true names)

theorem put_get (fits : j ≤ entries.length) (i : Nat) :
    (put entries j e)[i]? = if i = j then some e else entries[i]? := by
  unfold put
  split
  · next inside =>
    rw [getElem?_set, if_pos inside]
    by_cases same : j = i
    · rw [if_pos same, if_pos same.symm]
    · rw [if_neg same, if_neg (Ne.symm same)]
  · have isEnd : j = entries.length := by omega
    subst isEnd
    rw [getElem?_append]
    split
    · next inside => rw [if_neg (by omega)]
    · next outside =>
      by_cases same : i = entries.length
      · subst same
        simp
      · rw [if_neg same, getElem?_eq_none (by simp; omega), getElem?_eq_none (by omega)]

theorem clear_get (i : Nat) :
    (clear entries j)[i]? = entries[i]?.map fun e => if i = j then { e with inode := 0 } else e := by
  unfold clear
  rw [getElem?_modify]
  by_cases same : j = i
  · simp [same]
  · simp [same, Ne.symm same]

theorem Padded.put (padded : Padded entries) (length : e.name.length = NAME_LEN) : Padded (put entries j e) := by
  intro f member
  unfold Namei.put at member
  split at member
  · rcases mem_or_eq_of_mem_set member with old | rfl
    · exact padded f old
    · exact length
  · rcases mem_append.mp member with old | new
    · exact padded f old
    · rw [mem_singleton.mp new]
      exact length

theorem Padded.clear (padded : Padded entries) : Padded (clear entries j) := by
  intro f member
  obtain ⟨i, at_⟩ := mem_iff_getElem?.mp member
  rw [clear_get, Option.map_eq_some_iff] at at_
  obtain ⟨e, old, rfl⟩ := at_
  have length := padded e (mem_of_getElem? old)
  split
  · exact length
  · exact length

theorem Distinct.put {num : Nat} (distinct : Distinct entries) (fits : j ≤ entries.length) (used : num ≠ 0)
    (absent : content entries name = none) (free : ∀ e, entries[j]? = some e → e.inode = 0) :
    Distinct (put entries j (.new num name)) ∧
      content (Namei.put entries j (.new num name)) = update (content entries) name (some num) := by
  have no := content_eq_none.mp absent
  have isDistinct : Distinct (Namei.put entries j (.new num name)) := by
    intro i k e f other isE isF namesE namesF
    rw [put_get fits] at isE isF
    split at isE
    · next first =>
      cases isE
      have same := (DirEntry.new_names used name).unique namesE
      subst same
      split at isF
      · next second => exact first.trans second.symm
      · exact absurd namesF (no k f isF)
    · split at isF
      · next second =>
        cases isF
        have same := (DirEntry.new_names used name).unique namesF
        subst same
        exact absurd namesE (no i e isE)
      · exact distinct i k e f other isE isF namesE namesF
  refine ⟨isDistinct, funext fun other => Option.ext fun m => ?_⟩
  rw [isDistinct.content_eq_some]
  by_cases same : other = name
  · subst same
    rw [update_self, Option.some.injEq]
    constructor
    · rintro ⟨i, e, at_, names, rfl⟩
      rw [put_get fits] at at_
      split at at_
      · cases at_
        rfl
      · exact absurd names (no i e at_)
    · rintro rfl
      exact ⟨j, _, by rw [put_get fits, if_pos rfl], DirEntry.new_names used other, rfl⟩
  · rw [update_of_ne same, distinct.content_eq_some]
    constructor
    · rintro ⟨i, e, at_, names, rfl⟩
      rw [put_get fits] at at_
      split at at_
      · cases at_
        exact absurd (names.unique (DirEntry.new_names used name)) same
      · exact ⟨i, e, at_, names, rfl⟩
    · rintro ⟨i, e, at_, names, rfl⟩
      have other_ : i ≠ j := by
        rintro rfl
        exact names.1 (free e at_)
      exact ⟨i, e, by rw [put_get fits, if_neg other_, at_], names, rfl⟩

theorem Distinct.clear (distinct : Distinct entries) (at_ : entries[j]? = some e) (names : e.Names name) :
    Distinct (clear entries j) ∧ content (Namei.clear entries j) = update (content entries) name none := by
  have old {i : Nat} {f : DirEntry} {other : Name} (isF : (Namei.clear entries j)[i]? = some f)
      (namesF : f.Names other) : i ≠ j ∧ entries[i]? = some f := by
    rw [clear_get, Option.map_eq_some_iff] at isF
    obtain ⟨g, isG, rfl⟩ := isF
    split at namesF
    · exact absurd rfl namesF.1
    · next notHere => exact ⟨notHere, by rw [isG, if_neg notHere]⟩
  have isDistinct : Distinct (Namei.clear entries j) := by
    intro i k f g other isF isG namesF namesG
    exact distinct i k f g other (old isF namesF).2 (old isG namesG).2 namesF namesG
  refine ⟨isDistinct, funext fun other => Option.ext fun m => ?_⟩
  rw [isDistinct.content_eq_some]
  by_cases same : other = name
  · subst same
    rw [update_self]
    constructor
    · rintro ⟨i, f, isF, namesF, -⟩
      obtain ⟨notHere, isOld⟩ := old isF namesF
      exact absurd (distinct i j f e other isOld at_ namesF names) notHere
    · intro isSome
      cases isSome
  · rw [update_of_ne same, distinct.content_eq_some]
    constructor
    · rintro ⟨i, f, isF, namesF, rfl⟩
      exact ⟨i, f, (old isF namesF).2, namesF, rfl⟩
    · rintro ⟨i, f, isF, namesF, rfl⟩
      have notHere : i ≠ j := by
        rintro rfl
        rw [at_, Option.some.injEq] at isF
        subst isF
        exact same (namesF.unique names)
      refine ⟨i, f, ?_, namesF, rfl⟩
      rw [clear_get, isF, Option.map_some, if_neg notHere]

end Entries

end Linux012.Fs.Namei

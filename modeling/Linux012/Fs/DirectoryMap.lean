import Linux012.Fs.EntryBlocks

/-! A directory as a finite map from names. -/

set_option autoImplicit false

namespace Linux012.Fs.EntryBlocks

open Bitmap ZoneTree BlockTree
open ZoneTree.State (place depth blocks length_place place_injective)
open Namei (Byte DirEntry NAME_LEN DIR_ENTRIES_PER_BLOCK DOT DOTDOT matchName Name)

def zoneOf (s : State) (block : Nat) : Nat :=
  if inside : block < blocks then s.value (place ⟨block, inside⟩).1 (place ⟨block, inside⟩).2 else 0

/-- The same zones in the places of blocks, and the same contents in them. -/
structure Same (s t : State) : Prop where
  coherent : t.volume.Coherent
  sharing : t.Sharing
  value : ∀ l q, q.length = depth l → s.value l q ≠ 0 → t.value l q = s.value l q
  data : ∀ l q, q.length = depth l → s.value l q ≠ 0 → t.volume.contents (s.value l q) = s.volume.contents (s.value l q)

variable {s t u : State} {block z : Nat}

theorem Same.refl (coherent : s.volume.Coherent) (sharing : s.Sharing) : Same s s :=
  ⟨coherent, sharing, fun _ _ _ _ => rfl, fun _ _ _ _ => rfl⟩

theorem Same.trans (first : Same s t) (second : Same t u) : Same s u := by
  refine ⟨second.coherent, second.sharing, fun l q full used => ?_, fun l q full used => ?_⟩
  · have same := first.value l q full used
    rw [second.value l q full (same.symm ▸ used), same]
  · have same := first.value l q full used
    have later := second.data l q full (same.symm ▸ used)
    rw [same] at later
    exact later.trans (first.data l q full used)

theorem Same.of_contents (sharing : s.Sharing) (coherent : t.volume.Coherent) (zone : t.zone = s.zone)
    (sb : t.volume.sb = s.volume.sb) (contents : ∀ b, t.volume.contents b = s.volume.contents b) : Same s t := by
  have values (l : Fin 9) (q : List (Fin 512)) : t.value l q = s.value l q :=
    State.value_congr zone (fun b _ => contents b) l q
  refine ⟨coherent, ⟨fun k path l path' inside inside' used same => ?_, fun l q inside used => ?_⟩,
    fun l q _ _ => values l q, fun l q _ _ => contents _⟩
  · have first := values k path
    have second := values l path'
    exact sharing.distinct inside inside' (fun zero => used (first.trans zero)) (first.symm.trans (same.trans second))
  · rw [values] at used ⊢
    rw [sb]
    exact sharing.marked l q inside used

theorem zoneOf_of_lt (inside : block < blocks) :
    zoneOf s block = s.value (place ⟨block, inside⟩).1 (place ⟨block, inside⟩).2 :=
  dif_pos inside

theorem lt_of_zoneOf (used : zoneOf s block ≠ 0) : block < blocks := by
  by_contra outside
  exact used (dif_neg outside)

theorem zoneOf_zero (s : State) : zoneOf s 0 = s.zone 0 := rfl

theorem Same.zoneOf (same : Same s t) (used : zoneOf s block ≠ 0) :
    EntryBlocks.zoneOf t block = EntryBlocks.zoneOf s block := by
  have inside := lt_of_zoneOf used
  rw [zoneOf_of_lt inside] at used ⊢
  rw [zoneOf_of_lt inside]
  exact same.value _ _ (length_place _) used

theorem Same.contents (same : Same s t) (used : EntryBlocks.zoneOf s block ≠ 0) :
    t.volume.contents (EntryBlocks.zoneOf s block) = s.volume.contents (EntryBlocks.zoneOf s block) := by
  have inside := lt_of_zoneOf used
  rw [zoneOf_of_lt inside] at used ⊢
  exact same.data _ _ (length_place _) used

theorem zoneOf_injective (sharing : s.Sharing) {other : Nat} (used : zoneOf s block ≠ 0)
    (same : zoneOf s block = zoneOf s other) : block = other := by
  have inside := lt_of_zoneOf used
  have inside' : other < blocks := lt_of_zoneOf (same ▸ used)
  rw [zoneOf_of_lt inside] at used same
  rw [zoneOf_of_lt inside'] at same
  have here := sharing.distinct (Nat.le_of_eq (length_place _)) (Nat.le_of_eq (length_place _)) used same
  exact congrArg Fin.val (place_injective (Prod.ext here.1 here.2))

theorem lt_of_mapped {create : Bool} {now : Nat} {got : Nat × State}
    (mapped : s.bmapWith create now block = .ok got) : block < blocks := by
  by_contra outside
  have negative : ¬(block : Int) < 0 := by omega
  have big : (blocks : Int) ≤ block := by omega
  rw [State.bmapWith, dif_neg negative, dif_pos big] at mapped
  cases mapped

theorem bmapWith_spec (coherent : s.volume.Coherent) (sharing : s.Sharing) {create : Bool} {now r : Nat}
    (mapped : s.bmapWith create now block = .ok (r, t)) :
    Same s t ∧ zoneOf t block = r ∧ (zoneOf s block ≠ 0 ∨ create = false → r = zoneOf s block) := by
  have inside := lt_of_mapped mapped
  rw [State.bmapWith_of_lt inside] at mapped
  have descends := State.bmapAt_spec coherent sharing mapped
  have full := length_place ⟨block, inside⟩
  rw [zoneOf_of_lt inside, zoneOf_of_lt inside]
  refine ⟨⟨descends.coherent, descends.sharing, fun l q isFull used => descends.grows l q (Nat.le_of_eq isFull) used,
    descends.data⟩, descends.leaf, ?_⟩
  rintro (used | readOnly)
  · exact descends.leaf.symm.trans (descends.grows _ _ (Nat.le_of_eq full) used)
  · exact descends.leaf.symm.trans (descends.readOnly readOnly _ _ (Nat.le_of_eq full))

theorem Same.bread (same : Same s t) (block : Nat) (free : Nat → Reuse Index) :
    Same s { t with volume := (t.volume.bread block (t.free 0)).2, free } ∧
      ∃ bh, (t.volume.bread block (t.free 0)).2.Holds block bh := by
  obtain ⟨read, holds, -, -, readSb⟩ := Volume.bread_spec same.coherent block (t.free 0)
  have contents := Volume.contents_bread same.coherent block (t.free 0)
  exact ⟨same.trans (.of_contents same.sharing read.coherent rfl readSb contents), _, holds⟩

variable {bh : Buffer Index}

theorem Same.brelse (same : Same s t) (holds : t.volume.Holds block bh) :
    Same s { t with volume := t.volume.brelse block } := by
  obtain ⟨release, -, -, releaseSb⟩ := Volume.brelse_spec same.coherent holds
  have contents := t.volume.contents_brelse block
  exact same.trans (.of_contents same.sharing release.coherent rfl releaseSb contents)

/-! ## Entries -/

def entryAt (s : State) (i : Nat) : DirEntry := entry (s.volume.contents (zoneOf s (i / 64))) (i % 64)

structure Whole (s : Dir) (n : Nat) : Prop where
  coherent : s.volume.Coherent
  sharing : s.Sharing
  size : s.size = 16 * n
  first : s.zone 0 ≠ 0
  filled : ∀ i < n, zoneOf s.toState (i / 64) ≠ 0

def entries (s : Dir) (n : Nat) : List DirEntry := (List.range n).map (entryAt s.toState)

theorem Same.entryAt (same : Same s t) {i : Nat} (used : EntryBlocks.zoneOf s (i / 64) ≠ 0) :
    EntryBlocks.entryAt t i = EntryBlocks.entryAt s i := by
  rw [EntryBlocks.entryAt, EntryBlocks.entryAt, same.zoneOf used, same.contents used]

variable {e : DirEntry}

theorem getElem_entries {d : Dir} {n i : Nat} : (entries d n)[i]? = some e ↔ i < n ∧ e = entryAt d.toState i := by
  rw [entries, List.getElem?_map, Option.map_eq_some_iff]
  constructor
  · rintro ⟨k, at_, rfl⟩
    obtain ⟨inside, rfl⟩ := List.getElem?_eq_some_iff.mp at_
    rw [List.length_range] at inside
    rw [List.getElem_range]
    exact ⟨inside, rfl⟩
  · rintro ⟨inside, rfl⟩
    exact ⟨i, List.getElem?_range inside, rfl⟩

theorem entries_padded (d : Dir) (n : Nat) : Namei.Padded (entries d n) := by
  intro e member
  obtain ⟨i, -, rfl⟩ := List.mem_map.mp member
  exact length_entry_name _ _

theorem load_of_holds {d : Dir} (holds : d.volume.Holds block bh) (de : Nat) :
    d.load block de = entry (d.volume.contents block) de := by
  rw [Dir.load, holds.cached, holds.contents]
  rfl

/-- A buffer and a place in it, for entry `i`; at the end of a block the next one comes. -/
def At (d : Dir) (i block de : Nat) : Prop :=
  (∃ bh, d.volume.Holds block bh) ∧ (de < 64 ∧ de = i % 64 ∧ block = zoneOf d.toState (i / 64) ∧ block ≠ 0 ∨
    de = 64 ∧ i % 64 = 0)

/-! ## `find_entry` -/

variable {d d' : Dir} {now i n de : Nat} {name : List Byte}

theorem At.next {i block de : Nat} (holds : ∃ bh, d.volume.Holds block bh) (here : de = i % 64)
    (isZone : block = zoneOf d.toState (i / 64)) (used : block ≠ 0) : At d (i + 1) block (de + 1) := by
  refine ⟨holds, ?_⟩
  by_cases last : de = 63
  · exact .inr ⟨by omega, by omega⟩
  · have block' : (i + 1) / 64 = i / 64 := by omega
    exact .inl ⟨by omega, by omega, block' ▸ isZone, used⟩

theorem nextEntry_spec (now : Nat) (same : Same s d.toState) (at_ : At d i block de) (used : zoneOf s (i / 64) ≠ 0) :
    ∃ d', d.nextEntry now i (some block) de = .ok (some (zoneOf s (i / 64), i % 64), d') ∧ Same s d'.toState ∧
      ∃ bh, d'.volume.Holds (zoneOf s (i / 64)) bh := by
  obtain ⟨⟨bh, holds⟩, ⟨within, rfl, rfl, -⟩ | ⟨rfl, boundary⟩⟩ := at_
  · rw [same.zoneOf used] at holds ⊢
    rw [Dir.nextEntry, if_pos (show i % 64 < DIR_ENTRIES_PER_BLOCK from within)]
    exact ⟨d, rfl, same, bh, holds⟩
  · have released := same.brelse holds
    have inside := lt_of_zoneOf used
    obtain ⟨⟨r, t⟩, mapped⟩ := State.bmapAt_false (d.brelse block).toState now ⟨i / 64, inside⟩
    have mapped' : (d.brelse block).bmap now ((i / DIR_ENTRIES_PER_BLOCK : Nat) : Int) = .ok (r, t) :=
      (State.bmapWith_of_lt inside _ false now).trans mapped
    obtain ⟨same', -, returns⟩ := bmapWith_spec released.coherent released.sharing mapped'
    have isZone : r = zoneOf s (i / 64) := (returns (.inr rfl)).trans (released.zoneOf used)
    subst isZone
    obtain ⟨same'', holds'⟩ := (released.trans same').bread (zoneOf s (i / 64)) fun i => t.free (i + 1)
    rw [Dir.nextEntry, if_neg (show ¬64 < DIR_ENTRIES_PER_BLOCK from Nat.lt_irrefl _), Dir.nextBlock, mapped', Except.map]
    simp only [if_neg used, boundary]
    exact ⟨_, rfl, same'', holds'⟩

theorem findLoop_spec (now : Nat) (name : List Byte) (same : Same s d.toState) (at_ : At d i block de) (inside : i ≤ n)
    (filled : ∀ i < n, zoneOf s (i / 64) ≠ 0) (rounds : Nat) (enough : n ≤ i + rounds) :
    ∃ found d', Dir.findLoop now name n rounds i (some block) de d = .ok (found, d') ∧
      (found = none → ∀ j, i ≤ j → j < n → matchName false name (entryAt s j) = false) ∧
      ∀ p, found = some p → ∃ j, j < n ∧ d'.load p.1 p.2 = entryAt s j ∧ matchName false name (entryAt s j) = true := by
  induction rounds generalizing i d block de with
  | zero =>
    refine ⟨none, _, rfl, fun _ j after before => ?_, fun p found => by cases found⟩
    omega
  | succ rounds ih =>
    rw [Dir.findLoop]
    by_cases more : i < n
    · rw [if_pos more]
      obtain ⟨d', moved, same', bh, holds⟩ := nextEntry_spec now same at_ (filled i more)
      have loaded : d'.load (zoneOf s (i / 64)) (i % 64) = entryAt s i := by
        rw [load_of_holds holds, same'.contents (filled i more), entryAt]
      rw [moved, Except.bind]
      dsimp only
      rw [loaded]
      by_cases isMatch : matchName false name (entryAt s i) = true
      · rw [if_pos isMatch]
        refine ⟨_, d', rfl, fun isNone => absurd isNone (by simp), fun p found => ?_⟩
        cases found
        exact ⟨i, more, loaded, isMatch⟩
      · rw [if_neg isMatch]
        have after : At d' (i + 1) (zoneOf s (i / 64)) (i % 64 + 1) :=
          .next ⟨bh, holds⟩ rfl (same'.zoneOf (filled i more)).symm (filled i more)
        obtain ⟨found, d'', ran, nothing, some_⟩ := ih same' after more (by omega)
        refine ⟨found, d'', ran, fun isNone j later before => ?_, some_⟩
        by_cases here : j = i
        · rw [here]
          exact Bool.eq_false_iff.mpr isMatch
        · exact nothing isNone j (by omega) before
    · rw [if_neg more]
      refine ⟨none, _, rfl, fun _ j after before => ?_, fun p found => by cases found⟩
      omega

variable {text : List Byte}

theorem lookup_spec (whole : Whole d n) (distinct : Namei.Distinct (entries d n)) (around : Around) (now : Nat)
    {name : Name} (isName : text.take NAME_LEN = name.text) (notParent : text ≠ DOTDOT) :
    d.lookup around now text = .ok (Namei.content (entries d n) name) := by
  have notDots : name.text ≠ DOTDOT := by
    rintro dots
    have short : (text.take NAME_LEN).length = 2 := by rw [isName, dots]; rfl
    rw [List.length_take] at short
    have all : text.take NAME_LEN = text := List.take_of_length_le (by unfold NAME_LEN at *; omega)
    exact notParent (all.symm.trans (isName.trans dots))
  have size : d.size / 16 = n := by
    rw [whole.size]
    omega
  obtain ⟨same, holds⟩ := (Same.refl whole.coherent whole.sharing).bread (d.zone 0) fun i => d.free (i + 1)
  have at_ : At (d.bread (d.zone 0)) 0 (d.zone 0) 0 := ⟨holds, .inl ⟨by decide, rfl, rfl, whole.first⟩⟩
  obtain ⟨found, d', ran, nothing, some_⟩ := findLoop_spec now name.text same at_ (Nat.zero_le n)
    whole.filled n (by omega)
  have result : d.lookup around now text = .ok (found.map fun p => (d'.load p.1 p.2).inode) := by
    rw [Dir.lookup, Dir.findEntry]
    simp only [isName, notDots, if_false, size]
    rw [Dir.findFrom, if_neg whole.first, ran]
    rfl
  rw [result]
  cases found with
  | none =>
    have none_ : Namei.content (entries d n) name = none := by
      refine Namei.content_eq_none.mpr fun i e isEntry names => ?_
      have isMatch := ((entries_padded d n).match_iff isEntry).mpr names
      obtain ⟨inside, rfl⟩ := getElem_entries.mp isEntry
      exact absurd ((nothing rfl i (Nat.zero_le i) inside).symm.trans isMatch) (by simp)
    rw [none_]
    rfl
  | some p =>
    obtain ⟨j, inside, loaded, isMatch⟩ := some_ p rfl
    have isEntry : (entries d n)[j]? = some (entryAt d.toState j) := getElem_entries.mpr ⟨inside, rfl⟩
    have names := ((entries_padded d n).match_iff isEntry).mp isMatch
    have content : Namei.content (entries d n) name = some (entryAt d.toState j).inode :=
      distinct.content_eq_some.mpr ⟨j, _, isEntry, names, rfl⟩
    rw [content, Option.map_some, loaded]

/-! ## `add_entry` -/

structure Writes (s : State) (block : Nat) (f : Index → Index) (t : State) : Prop where
  coherent : t.volume.Coherent
  sharing : t.Sharing
  zone : ∀ b, zoneOf t b = zoneOf s b
  here : t.volume.contents (zoneOf s block) = f (s.volume.contents (zoneOf s block))
  others : ∀ b, zoneOf s b ≠ 0 → b ≠ block → t.volume.contents (zoneOf s b) = s.volume.contents (zoneOf s b)
  holds : ∃ bh, t.volume.Holds (zoneOf s block) bh

theorem writes_store (coherent : s.volume.Coherent) (sharing : s.Sharing)
    (holds : s.volume.Holds (zoneOf s block) bh) (used : zoneOf s block ≠ 0) {f : Index → Index}
    (volume : t.volume = s.volume.store (zoneOf s block) f) (zone : t.zone = s.zone) : Writes s block f t := by
  have inside := lt_of_zoneOf used
  obtain ⟨stores, holds', storeSb⟩ := Volume.store_spec coherent holds f
  rw [← volume] at stores holds' storeSb
  -- the index blocks of the tree are other zones
  have values (l : Fin 9) (q : List (Fin 512)) (within : q.length ≤ depth l) : t.value l q = s.value l q := by
    rw [State.value, State.value, zone]
    refine walk_congr fun front shorter nonzero => stores.contents _ fun isLeaf => ?_
    have same : walk s.volume.contents (s.zone l) front = zoneOf s block := isLeaf
    rw [zoneOf_of_lt inside] at same
    obtain ⟨rfl, rfl⟩ := sharing.distinct (by omega) (Nat.le_of_eq (length_place _)) nonzero same
    have full := length_place ⟨block, inside⟩
    omega
  have zones (b : Nat) : zoneOf t b = zoneOf s b := by
    by_cases within : b < blocks
    · rw [zoneOf_of_lt within, zoneOf_of_lt within, values _ _ (Nat.le_of_eq (length_place _))]
    · rw [zoneOf, zoneOf, dif_neg within, dif_neg within]
  refine ⟨stores.coherent, ⟨fun k path l path' within within' nonzero same => ?_, fun l q within nonzero => ?_⟩, zones, ?_,
    fun b used' other => stores.contents _ fun same => other (zoneOf_injective sharing used' same), _, holds'⟩
  · have first := values k path within
    have second := values l path' within'
    exact sharing.distinct within within' (fun zero => nonzero (first.trans zero)) (first.symm.trans (same.trans second))
  · rw [values l q within] at nonzero ⊢
    rw [storeSb]
    exact sharing.marked l q within nonzero
  · rw [holds'.contents, ← holds.contents]

variable {j : Nat}

theorem Writes.entryAt {f : Index → Index} (writes : Writes s (j / 64) f t)
    (stored : ∀ i < 64, entry (f (s.volume.contents (EntryBlocks.zoneOf s (j / 64)))) i =
      if i = j % 64 then e else entry (s.volume.contents (EntryBlocks.zoneOf s (j / 64))) i) (i : Nat)
    (used : EntryBlocks.zoneOf s (i / 64) ≠ 0) :
    EntryBlocks.entryAt t i = if i = j then e else EntryBlocks.entryAt s i := by
  rw [EntryBlocks.entryAt, EntryBlocks.entryAt, writes.zone]
  by_cases same : i / 64 = j / 64
  · rw [same, writes.here, stored _ (Nat.mod_lt i (by decide))]
    have place : i % 64 = j % 64 ↔ i = j := by omega
    simp only [place]
  · have other : i ≠ j := fun equal => same (equal ▸ rfl)
    rw [writes.others _ used same, if_neg other]

theorem createEntry_spec (same : Same s d.toState) (at_ : At d i block de) {found : Option (Nat × Nat)}
    (moved : d.createEntry now i block de = .ok (found, d')) :
    Same s d'.toState ∧ d'.size = d.size ∧ ∀ p, found = some p →
      p = (zoneOf d'.toState (i / 64), i % 64) ∧ zoneOf d'.toState (i / 64) ≠ 0 ∧ ∃ bh, d'.volume.Holds p.1 bh := by
  obtain ⟨⟨bh, holds⟩, ⟨within, rfl, isZone, used⟩ | ⟨rfl, boundary⟩⟩ := at_
  · rw [Dir.createEntry, if_pos (show i % 64 < DIR_ENTRIES_PER_BLOCK from within)] at moved
    cases moved
    refine ⟨same, rfl, fun p isPlace => ?_⟩
    cases isPlace
    exact ⟨by rw [isZone], isZone ▸ used, bh, holds⟩
  · rw [Dir.createEntry, if_neg (show ¬64 < DIR_ENTRIES_PER_BLOCK from Nat.lt_irrefl _)] at moved
    obtain ⟨⟨r, t⟩, created, next⟩ := State.map_eq_ok.mp moved
    have released := same.brelse holds
    obtain ⟨same', isZone, -⟩ := bmapWith_spec released.coherent released.sharing created
    dsimp only at next
    split at next
    · next none =>
      rw [Prod.mk.injEq] at next
      obtain ⟨rfl, rfl⟩ := next
      exact ⟨released.trans same', rfl, fun p isPlace => by cases isPlace⟩
    · next used =>
      rw [Prod.mk.injEq] at next
      obtain ⟨rfl, rfl⟩ := next
      obtain ⟨same'', holds'⟩ := (released.trans same').bread r fun i => t.free (i + 1)
      refine ⟨same'', rfl, fun p isPlace => ?_⟩
      cases isPlace
      have isZone : zoneOf t (i / 64) = r := isZone
      have unread := ((Same.refl same'.coherent same'.sharing).bread r fun i => t.free (i + 1)).1
      have still := unread.zoneOf (isZone.symm ▸ used)
      rw [isZone] at still
      exact ⟨by rw [boundary]; exact congrArg (·, 0) still.symm, still.symm ▸ used, holds'⟩

theorem createEntry_of_used (now : Nat) (same : Same s d.toState) (at_ : At d i block de) (used : zoneOf s (i / 64) ≠ 0) :
    ∃ p d', d.createEntry now i block de = .ok (some p, d') := by
  obtain ⟨⟨bh, holds⟩, ⟨within, -⟩ | ⟨rfl, boundary⟩⟩ := at_
  · exact ⟨_, d, if_pos within⟩
  · have released := same.brelse holds
    have inside := lt_of_zoneOf used
    have still := released.zoneOf used
    have leaf : (d.brelse block).toState.value (place ⟨i / 64, inside⟩).1 (place ⟨i / 64, inside⟩).2 ≠ 0 :=
      fun none => used (still.symm.trans ((zoneOf_of_lt inside).trans none))
    obtain ⟨⟨r, t⟩, mapped⟩ := State.bmapAt_of_used released.coherent released.sharing leaf true now
    have created : (d.brelse block).createBlock now ((i / DIR_ENTRIES_PER_BLOCK : Nat) : Int) = .ok (r, t) :=
      (State.bmapWith_of_lt inside _ true now).trans mapped
    obtain ⟨-, -, returns⟩ := bmapWith_spec released.coherent released.sharing created
    have isZone := returns (.inl (still.symm ▸ used))
    have nonzero : r ≠ 0 := fun none => used (still.symm.trans (isZone.symm.trans none))
    rw [Dir.createEntry, if_neg (show ¬64 < DIR_ENTRIES_PER_BLOCK from Nat.lt_irrefl _), created, Except.map]
    simp only [if_neg nonzero]
    exact ⟨_, _, rfl⟩

/-- Entry `j` is the first one that is free, or the one behind the last, and now has the name. -/
structure Added (s : State) (n : Nat) (name : List Byte) (j : Nat) (p : Nat × Nat) (d' : Dir) : Prop where
  fits : j ≤ n
  size : d'.size = 16 * max n (j + 1)
  free : j < n → (entryAt s j).inode = 0
  earlier : ∀ i < j, (entryAt s i).inode ≠ 0
  coherent : d'.volume.Coherent
  sharing : d'.Sharing
  zones : ∀ b, zoneOf s b ≠ 0 → zoneOf d'.toState b = zoneOf s b
  isPlace : p = (zoneOf d'.toState (j / 64), j % 64)
  used : zoneOf d'.toState (j / 64) ≠ 0
  holds : ∃ bh, d'.volume.Holds p.1 bh
  entry : entryAt d'.toState j = ⟨0, (List.range NAME_LEN).map fun k => name.getD k 0⟩
  others : ∀ i < n, i ≠ j → entryAt d'.toState i = entryAt s i

theorem extend_of_end (atEnd : d.size ≤ i * 16) (block de : Nat) : d.extend now i block de =
    { d.store block (setInode de 0) with size := (i + 1) * 16, dirt := true, ctime := now } :=
  if_pos atEnd

theorem extend_of_lt (inside : i * 16 < d.size) (block de : Nat) : d.extend now i block de = d :=
  if_neg (Nat.not_le.mpr inside)

theorem Added.of_free {t : Dir} (coherent : t.volume.Coherent) (sharing : t.Sharing)
    (holds : ∃ bh, t.volume.Holds (zoneOf t.toState (i / 64)) bh) (used : zoneOf t.toState (i / 64) ≠ 0)
    (isFree : (entryAt t.toState i).inode = 0) (fits : i ≤ n) (size : t.size = 16 * max n (i + 1))
    (free : i < n → (entryAt s i).inode = 0) (earlier : ∀ k < i, (entryAt s k).inode ≠ 0)
    (filled : ∀ k < n, zoneOf s (k / 64) ≠ 0)
    (zones : ∀ b, zoneOf s b ≠ 0 → zoneOf t.toState b = zoneOf s b)
    (others : ∀ k < n, k ≠ i → entryAt t.toState k = entryAt s k) :
    Added s n name i (zoneOf t.toState (i / 64), i % 64)
      { t.store (zoneOf t.toState (i / 64)) (setName (i % 64) name) with mtime := now } := by
  obtain ⟨bh, holds⟩ := holds
  generalize isLast : ({ t.store (zoneOf t.toState (i / 64)) (setName (i % 64) name) with mtime := now } : Dir) = d'
  have writes : Writes t.toState (i / 64) (setName (i % 64) name) d'.toState :=
    writes_store coherent sharing holds used (isLast ▸ rfl) (isLast ▸ rfl)
  have entries (k : Nat) (inUse : zoneOf t.toState (k / 64) ≠ 0) := writes.entryAt
    (fun m inside => entry_setName _ name (Nat.mod_lt i (by decide)) inside) k inUse
  have here := entries i used
  rw [if_pos rfl] at here
  refine ⟨fits, isLast ▸ size, free, earlier, writes.coherent, writes.sharing,
    fun b inUse => (writes.zone b).trans (zones b inUse), by rw [writes.zone], writes.zone _ ▸ used, writes.holds, ?_,
    fun k inside other => ?_⟩
  · rw [here, ← isFree]
    rfl
  · have inUse := (zones _ (filled k inside)).symm ▸ filled k inside
    rw [entries k inUse, if_neg other, others k inside other]

variable {p : Nat × Nat}

theorem addLoop_spec (same : Same s d.toState) (size : d.size = 16 * n) (at_ : At d i block de) (fits : i ≤ n)
    (filled : ∀ k < n, zoneOf s (k / 64) ≠ 0) (earlier : ∀ k < i, (entryAt s k).inode ≠ 0) {rounds : Nat}
    (added : Dir.addLoop now name rounds i block de d = .ok (some p, d')) : ∃ j, Added s n name j p d' := by
  induction rounds generalizing i d block de with
  | zero => cases added
  | succ rounds ih =>
    rw [Dir.addLoop] at added
    obtain ⟨⟨found, t⟩, moved, added⟩ := State.bind_eq_ok.mp added
    obtain ⟨same', size', place⟩ := createEntry_spec same at_ moved
    rw [size] at size'
    cases found with
    | none => cases added
    | some place' =>
      obtain ⟨rfl, used, bh, holds⟩ := place place' rfl
      dsimp only at added holds
      by_cases last : i = n
      · -- the entry behind the last one is cleared first
        subst last
        rw [extend_of_end (by omega)] at added
        generalize isNext : ({ t.store (zoneOf t.toState (i / 64)) (setInode (i % 64) 0) with
          size := (i + 1) * 16, dirt := true, ctime := now } : Dir) = u at added
        have writes : Writes t.toState (i / 64) (setInode (i % 64) 0) u.toState :=
          writes_store same'.coherent same'.sharing holds used (isNext ▸ rfl) (isNext ▸ rfl)
        have entries (k : Nat) (inUse : zoneOf t.toState (k / 64) ≠ 0) := writes.entryAt
          (fun m inside => entry_setInode _ (Nat.mod_lt i (by decide)) inside (Nat.zero_lt_succ _)) k inUse
        have cleared : (entryAt u.toState i).inode = 0 := by
          rw [entries i used, if_pos rfl]
        obtain ⟨bh', holds'⟩ := writes.holds
        have loaded : u.load (zoneOf t.toState (i / 64)) (i % 64) = entryAt u.toState i := by
          rw [load_of_holds holds', entryAt, writes.zone]
        rw [if_pos (by rw [loaded, cleared]), Except.ok.injEq, Prod.mk.injEq, Option.some.injEq] at added
        obtain ⟨rfl, rfl⟩ := added
        rw [← writes.zone] at holds' used ⊢
        refine ⟨i, .of_free writes.coherent writes.sharing ⟨bh', holds'⟩ used cleared (Nat.le_refl i) ?_
          (fun inside => absurd inside (Nat.lt_irrefl i)) earlier filled ?_ fun k inside other => ?_⟩
        · rw [← isNext]
          have larger : max i (i + 1) = i + 1 := by omega
          rw [larger]
          exact Nat.mul_comm _ _
        · exact fun b inUse => (writes.zone b).trans (same'.zoneOf inUse)
        · have inUse : zoneOf t.toState (k / 64) ≠ 0 := (same'.zoneOf (filled k inside)).symm ▸ filled k inside
          rw [entries k inUse, if_neg other, same'.entryAt (filled k inside)]
      · have inside : i < n := by omega
        rw [extend_of_lt (by omega)] at added
        have loaded : t.load (zoneOf t.toState (i / 64)) (i % 64) = entryAt s i := by
          rw [load_of_holds holds, ← same'.entryAt (filled i inside)]
          rfl
        rw [loaded] at added
        by_cases isFree : (entryAt s i).inode = 0
        · rw [if_pos isFree, Except.ok.injEq, Prod.mk.injEq, Option.some.injEq] at added
          obtain ⟨rfl, rfl⟩ := added
          refine ⟨i, .of_free same'.coherent same'.sharing ⟨bh, holds⟩ used ?_ fits ?_ (fun _ => isFree) earlier filled
            (fun b inUse => same'.zoneOf inUse) fun k within _ => same'.entryAt (filled k within)⟩
          · rw [same'.entryAt (filled i inside), isFree]
          · have larger : max n (i + 1) = n := by omega
            rw [larger, size']
        · rw [if_neg isFree] at added
          refine ih same' size' (.next ⟨bh, holds⟩ rfl rfl used) inside (fun k before => ?_) added
          by_cases here : k = i
          · rw [here]
            exact isFree
          · exact earlier k (by omega)

theorem addLoop_of_free (same : Same s d.toState) (size : d.size = 16 * n) (at_ : At d i block de)
    (filled : ∀ k < n, zoneOf s (k / 64) ≠ 0) (after : i ≤ j) (inside : j < n) (free : (entryAt s j).inode = 0)
    {rounds : Nat} (enough : j < i + rounds) :
    ∃ p d', Dir.addLoop now name rounds i block de d = .ok (some p, d') := by
  induction rounds generalizing i d block de with
  | zero => omega
  | succ rounds ih =>
    have more : i < n := by omega
    obtain ⟨place', t, moved⟩ := createEntry_of_used now same at_ (filled i more)
    obtain ⟨same', size', place⟩ := createEntry_spec same at_ moved
    rw [size] at size'
    obtain ⟨rfl, used, bh, holds⟩ := place place' rfl
    have loaded : t.load (zoneOf t.toState (i / 64)) (i % 64) = entryAt s i := by
      rw [load_of_holds holds, ← same'.entryAt (filled i more)]
      rfl
    rw [Dir.addLoop, moved, Except.bind]
    dsimp only
    rw [extend_of_lt (by omega), loaded]
    by_cases isFree : (entryAt s i).inode = 0
    · rw [if_pos isFree]
      exact ⟨_, _, rfl⟩
    · rw [if_neg isFree]
      have other : j ≠ i := fun here => isFree (here ▸ free)
      exact ih same' size' (.next ⟨bh, holds⟩ rfl rfl used) (by omega) (by omega)

theorem Added.fill {num : Nat} (added : Added s n name j p d') (first : s.zone 0 ≠ 0)
    (filled : ∀ k < n, zoneOf s (k / 64) ≠ 0) (short : num < 65536) :
    Whole (d'.fill p num) (max n (j + 1)) ∧
      entryAt (d'.fill p num).toState j = ⟨num, (List.range NAME_LEN).map fun k => name.getD k 0⟩ ∧
      ∀ i < n, i ≠ j → entryAt (d'.fill p num).toState i = entryAt s i := by
  obtain ⟨bh, holds⟩ := added.holds
  obtain rfl := added.isPlace
  dsimp only at holds
  generalize isStored : d'.store (zoneOf d'.toState (j / 64)) (setInode (j % 64) num) = t
  have writes : Writes d'.toState (j / 64) (setInode (j % 64) num) t.toState :=
    writes_store added.coherent added.sharing holds added.used (isStored ▸ rfl) (isStored ▸ rfl)
  have entries (k : Nat) (inUse : zoneOf d'.toState (k / 64) ≠ 0) := writes.entryAt
    (fun m inside => entry_setInode _ (Nat.mod_lt j (by decide)) inside short) k inUse
  obtain ⟨bh', holds'⟩ := writes.holds
  have released := (Same.refl writes.coherent writes.sharing).brelse holds'
  have isFilled : d'.fill (zoneOf d'.toState (j / 64), j % 64) num = t.brelse (zoneOf d'.toState (j / 64)) := by
    rw [← isStored]
    rfl
  rw [isFilled]
  have zones (b : Nat) (inUse : zoneOf d'.toState b ≠ 0) :
      zoneOf (t.brelse (zoneOf d'.toState (j / 64))).toState b = zoneOf d'.toState b := by
    rw [← writes.zone] at inUse
    exact (released.zoneOf inUse).trans (writes.zone b)
  have entries' (k : Nat) (inUse : zoneOf d'.toState (k / 64) ≠ 0) :
      entryAt (t.brelse (zoneOf d'.toState (j / 64))).toState k = entryAt t.toState k := by
    rw [← writes.zone] at inUse
    exact released.entryAt inUse
  have old (k : Nat) (inside : k < n) : zoneOf d'.toState (k / 64) ≠ 0 :=
    (added.zones _ (filled k inside)).symm ▸ filled k inside
  refine ⟨⟨released.coherent, released.sharing, ?_, ?_, fun i inside => ?_⟩, ?_, fun i inside other => ?_⟩
  · have size : t.size = d'.size := isStored ▸ rfl
    exact size.trans added.size
  · have zone := added.zones 0 first
    have still := zones 0 (zone.symm ▸ first)
    exact fun none => first (zone.symm.trans (still.symm.trans none))
  · by_cases inside' : i < n
    · rw [zones _ (old i inside')]
      exact old i inside'
    · have same : i = j := by
        have fits := added.fits
        omega
      rw [same, zones _ added.used]
      exact added.used
  · have here : (EntryBlocks.entryAt d'.toState j).name = (List.range NAME_LEN).map fun k => name.getD k 0 := by
      rw [added.entry]
    rw [entries' j added.used, entries j added.used, if_pos rfl, ← here]
    rfl
  · rw [entries' i (old i inside), entries i (old i inside), if_neg other, added.others i inside other]

def cut (text : List Byte) (nonempty : text ≠ []) (nonzero : ∀ c ∈ text, c ≠ 0) : Name where
  text := text.take NAME_LEN
  nonempty := by simp [NAME_LEN, nonempty]
  short := List.length_take_le ..
  nonzero := fun c member => nonzero c (List.mem_of_mem_take member)

theorem addEntry_spec (whole : Whole d n) (added : d.addEntry now text = .ok (some p, d')) :
    ∃ j, Added d.toState n (text.take NAME_LEN) j p d' := by
  obtain ⟨same, holds⟩ := (Same.refl whole.coherent whole.sharing).bread (d.zone 0) fun i => d.free (i + 1)
  have at_ : At (d.bread (d.zone 0)) 0 (d.zone 0) 0 := ⟨holds, .inl ⟨by decide, rfl, rfl, whole.first⟩⟩
  rw [Dir.addEntry] at added
  split at added
  · cases added
  · rw [if_neg whole.first] at added
    exact addLoop_spec (d := d.bread (d.zone 0)) same whole.size at_ (Nat.zero_le n) whole.filled
      (fun k before => absurd before (Nat.not_lt_zero k)) added

theorem addEntry_of_free (whole : Whole d n) (nonempty : text ≠ []) (inside : j < n)
    (free : (entryAt d.toState j).inode = 0) (now : Nat) : ∃ p d', d.addEntry now text = .ok (some p, d') := by
  obtain ⟨same, holds⟩ := (Same.refl whole.coherent whole.sharing).bread (d.zone 0) fun i => d.free (i + 1)
  have at_ : At (d.bread (d.zone 0)) 0 (d.zone 0) 0 := ⟨holds, .inl ⟨by decide, rfl, rfl, whole.first⟩⟩
  have isName : text.take NAME_LEN ≠ [] := by simp [NAME_LEN, nonempty]
  have size := whole.size
  rw [Dir.addEntry]
  rw [if_neg isName, if_neg whole.first]
  exact addLoop_of_free (d := d.bread (d.zone 0)) same whole.size at_ whole.filled (Nat.zero_le j) inside free (by omega)

/-- After `add_entry` and the store of its caller, `find_entry` gives the new number for the
new name and what it gave before for all others. -/
theorem directory_is_map (whole : Whole d n) (distinct : Namei.Distinct (entries d n)) {text : List Byte}
    (nonempty : text ≠ []) (nonzero : ∀ c ∈ text, c ≠ 0)
    (absent : ∀ i < n, (entryAt d.toState i).inode ≠ 0 → (entryAt d.toState i).text ≠ text.take NAME_LEN) (now : Nat) :
    (∀ p d', d.addEntry now text = .ok (some p, d') → ∀ num, num ≠ 0 → num < 65536 →
      (∀ around now' other, other ≠ [] → (∀ c ∈ other, c ≠ 0) → other ≠ DOTDOT → ∃ before,
        d.lookup around now' other = .ok before ∧ (d'.fill p num).lookup around now' other =
          .ok (if other.take NAME_LEN = text.take NAME_LEN then some num else before)) ∧
      (∀ i < n, (entryAt d.toState i).inode ≠ 0 → entryAt (d'.fill p num).toState i = entryAt d.toState i) ∧
      ((∃ j < n, (entryAt d.toState j).inode = 0) → (d'.fill p num).size = d.size) ∧
      ((∀ j < n, (entryAt d.toState j).inode ≠ 0) → (d'.fill p num).size = d.size + 16)) ∧
    ((∃ j < n, (entryAt d.toState j).inode = 0) → ∃ p d', d.addEntry now text = .ok (some p, d')) := by
  refine ⟨fun p d' added num used short => ?_, fun ⟨j, inside, free⟩ => addEntry_of_free whole nonempty inside free now⟩
  obtain ⟨j, isAdded⟩ := addEntry_spec whole added
  obtain ⟨whole', here, others⟩ := isAdded.fill whole.first whole.filled short
  generalize d'.fill p num = d'' at whole' here others
  have fits := isAdded.fits
  -- the list of entries
  have isNew : entryAt d''.toState j = .new num (cut text nonempty nonzero) := here
  have length : (entries d n).length = n := by simp [entries]
  have isPut : entries d'' (max n (j + 1)) = Namei.put (entries d n) j (.new num (cut text nonempty nonzero)) := by
    refine List.ext_getElem? fun i => Option.ext fun e => ?_
    rw [Namei.put_get (length.symm ▸ fits), getElem_entries]
    by_cases same : i = j
    · rw [if_pos same, same, isNew, Option.some.injEq, and_iff_right (by omega), eq_comm]
    · rw [if_neg same, getElem_entries]
      have bound : i < max n (j + 1) ↔ i < n := by omega
      rw [bound]
      exact and_congr_right fun inside => by rw [others i inside same]
  have none_ : Namei.content (entries d n) (cut text nonempty nonzero) = none := by
    refine Namei.content_eq_none.mpr fun i e isEntry names => ?_
    obtain ⟨inside, rfl⟩ := getElem_entries.mp isEntry
    exact absent i inside names.1 names.2
  have free : ∀ e, (entries d n)[j]? = some e → e.inode = 0 := by
    intro e isEntry
    obtain ⟨inside, rfl⟩ := getElem_entries.mp isEntry
    exact isAdded.free inside
  obtain ⟨distinct', content⟩ := distinct.put (length.symm ▸ fits) used none_ free
  rw [← isPut] at distinct' content
  refine ⟨fun around now' other otherNonempty otherNonzero notParent => ?_, fun i inside live => ?_, ?_, fun full => ?_⟩
  · have isName : other.take NAME_LEN = (cut other otherNonempty otherNonzero).text := rfl
    refine ⟨_, lookup_spec whole distinct around now' isName notParent, ?_⟩
    rw [lookup_spec whole' distinct' around now' isName notParent, content, Function.update_apply]
    have same : cut other otherNonempty otherNonzero = cut text nonempty nonzero ↔
        other.take NAME_LEN = text.take NAME_LEN := by
      constructor
      · exact congrArg Name.text
      · intro equal
        simp only [cut, equal]
    simp only [same]
  · refine others i inside ?_
    rintro rfl
    exact live (isAdded.free inside)
  · rintro ⟨k, inside, isFree⟩
    have bound : j ≤ k := by
      by_contra later
      exact isAdded.earlier k (by omega) isFree
    rw [whole'.size, whole.size]
    omega
  · have atEnd : j = n := by
      by_contra other
      exact full j (by omega) (isAdded.free (by omega))
    rw [whole'.size, whole.size]
    omega

def single : Dir where
  volume :=
    { sb := (Volume.small 0 7).sb
      cache := fun _ => none
      disk := fun b j => if b = 3 then [5, 97].getD j.val 0 else 0 }
  zone := fun k => if k = 0 then 3 else 0
  dirt := false
  ctime := 0
  free := fun _ => ⟨none, fun _ => 0⟩
  size := 16
  mtime := 0

theorem value_single (k : Fin 9) (path : List (Fin 512)) (inside : path.length ≤ depth k)
    (used : single.value k path ≠ 0) : k = 0 ∧ path = [] := by
  by_cases first : k = 0
  · subst first
    exact ⟨rfl, List.length_eq_zero_iff.mp (Nat.le_zero.mp inside)⟩
  · have none : single.zone k = 0 := if_neg first
    have zero : single.value k path = 0 := by rw [State.value, none, walk_zero]
    exact absurd zero used

theorem single_whole : Whole single 1 where
  coherent := by
    intro block bh cached
    cases cached
  sharing := by
    refine ⟨fun k path l path' inside inside' used same => ?_, fun k path inside used => ?_⟩
    · have first := value_single k path inside used
      have second := value_single l path' inside' fun zero => used (same.trans zero)
      exact ⟨first.1.trans second.1.symm, first.2.trans second.2.symm⟩
    · obtain ⟨rfl, rfl⟩ := value_single k path inside used
      exact Volume.marked_small 0 7 1 (by decide)
  size := rfl
  first := by decide
  filled := by
    intro i inside
    obtain rfl := Nat.lt_one_iff.mp inside
    decide

theorem single_entry {i : Nat} (isEntry : (entries single 1)[i]? = some e) :
    i = 0 ∧ e = entryAt single.toState 0 := by
  obtain ⟨inside, rfl⟩ := getElem_entries.mp isEntry
  obtain rfl := Nat.lt_one_iff.mp inside
  exact ⟨rfl, rfl⟩

theorem single_distinct : Namei.Distinct (entries single 1) :=
  fun _ _ _ _ _ first second _ _ => (single_entry first).1.trans (single_entry second).1.symm

theorem add_single : ∃ p d', single.addEntry 1 [98] = .ok (some p, d') ∧ (d'.fill p 7).size = 32 ∧
    (∀ around, (d'.fill p 7).lookup around 2 [98] = .ok (some 7)) ∧
    ∀ around, (d'.fill p 7).lookup around 2 [97] = single.lookup around 2 [97] := by
  have absent : ∀ i < 1, (entryAt single.toState i).inode ≠ 0 → (entryAt single.toState i).text ≠ [98].take NAME_LEN := by
    intro i inside _
    obtain rfl := Nat.lt_one_iff.mp inside
    decide
  obtain ⟨p, d', added⟩ : ∃ p d', single.addEntry 1 [98] = .ok (some p, d') := ⟨_, _, rfl⟩
  obtain ⟨found, -, -, grows⟩ := (directory_is_map single_whole single_distinct (by simp) (by decide +kernel) absent 1).1
    p d' added 7 (by decide) (by decide)
  refine ⟨p, d', added, grows fun j inside => ?_, fun around => ?_, fun around => ?_⟩
  · obtain rfl := Nat.lt_one_iff.mp inside
    decide
  · obtain ⟨before, -, after⟩ := found around 2 [98] (by simp) (by decide +kernel) (by decide +kernel)
    exact after
  · obtain ⟨before, now, after⟩ := found around 2 [97] (by simp) (by decide +kernel) (by decide +kernel)
    rw [now]
    exact after

/-- A second entry for the name `a` is never found. -/
theorem added_twice_is_hidden : ∃ d n now text p d' num, Whole d n ∧ Namei.Distinct (entries d n) ∧ text ≠ [] ∧
    (∀ c ∈ text, c ≠ 0) ∧ text ≠ DOTDOT ∧ num ≠ 0 ∧ num < 65536 ∧ d.addEntry now text = .ok (some p, d') ∧
    ∀ around now', (d'.fill p num).lookup around now' text ≠ .ok (some num) := by
  refine ⟨single, 1, 1, [97], _, _, 7, single_whole, single_distinct, by simp, by decide +kernel, by decide +kernel,
    by decide,
    by decide, rfl, fun around now' => ?_⟩
  change (Except.ok (some 5) : Except Panic (Option Nat)) ≠ .ok (some 7)
  simp

end Linux012.Fs.EntryBlocks

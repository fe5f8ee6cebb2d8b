import Linux012.Fs.DirectoryMap

/-! What `find_entry`, and an `add_entry` that comes back with nothing, leave behind. -/

set_option autoImplicit false

/-! ## References to buffers -/

namespace Linux012.Fs.Bitmap.Volume

variable {α : Type} {v v' : Volume α} {block n : Nat} {reuse : Reuse α}

def refs (v : Volume α) (block : Nat) : Nat := (v.cache block).elim 0 Buffer.count

theorem unheld_iff_refs : v.Unheld block ↔ v.refs block = 0 := unheld_iff

theorem refs_put (v : Volume α) (bh : Option (Buffer α)) (b : Nat) :
    (v.put block bh).refs b = if b = block then bh.elim 0 Buffer.count else v.refs b := by
  split
  · next same => rw [refs, same, cache_put_self]
  · next other => rw [refs, v.cache_put_of_ne bh other, refs]

theorem refs_evict (v : Volume α) (victim b : Nat) : (v.evict victim).refs b = v.refs b := by
  have dropped (unheld : v.refs victim = 0) : (v.put victim none).refs b = v.refs b := by
    rw [refs_put]
    split
    · next same => rw [same, unheld]; rfl
    · rfl
  rw [evict]
  split
  · rfl
  · next bh cached =>
    split
    · rfl
    · next zero =>
      have unheld : v.refs victim = 0 := by
        rw [refs, cached]
        exact not_not.mp zero
      split
      · exact dropped unheld
      · exact dropped unheld

theorem refs_getblk (v : Volume α) (block : Nat) (reuse : Reuse α) (b : Nat) :
    (v.getblk block reuse).2.refs b = v.refs b := by
  rw [getblk]
  split
  · rfl
  · cases reuse.victim with
    | none => rfl
    | some victim => exact v.refs_evict victim b

theorem refs_bread (v : Volume α) (block : Nat) (reuse : Reuse α) (b : Nat) :
    (v.bread block reuse).2.refs b = v.refs b + if b = block then 1 else 0 := by
  have count := v.count_getblk block reuse
  have counted : (v.bread block reuse).1.count = v.refs block + 1 := by
    rw [bread]
    dsimp only
    split
    · exact count
    · exact count
  have put : (v.bread block reuse).2 = (v.getblk block reuse).2.put block (some (v.bread block reuse).1) := rfl
  rw [put, refs_put, refs_getblk]
  split
  · next same =>
    subst same
    exact counted
  · rfl

theorem refs_store (v : Volume α) (block : Nat) (f : α → α) (b : Nat) : (v.store block f).refs b = v.refs b := by
  rw [store]
  split
  · next bh cached =>
    rw [refs_put]
    split
    · next same => rw [refs, same, cached]; rfl
    · rfl
  · rfl

theorem refs_brelse (v : Volume α) (block b : Nat) :
    (v.brelse block).refs b = v.refs b - if b = block then 1 else 0 := by
  rw [brelse, refs_put]
  split
  · next same =>
    rw [refs, same]
    cases v.cache block <;> rfl
  · rfl

section Allocation

variable [Zero α]

theorem refs_clearNew (cleared : v.clearNew block reuse = .ok (n, v')) (b : Nat) : v'.refs b = v.refs b := by
  have count := v.count_getblk block reuse
  rw [clearNew] at cleared
  split at cleared
  · cases cleared
  · next one =>
    rw [not_not] at one
    rw [Except.ok.injEq, Prod.mk.injEq] at cleared
    obtain ⟨rfl, rfl⟩ := cleared
    rw [refs_put, refs_getblk]
    split
    · next same =>
      subst same
      have unheld : v.refs b = 0 := by
        rw [one] at count
        exact (Nat.succ_inj.mp count).symm
      rw [unheld]
      exact congrArg (· - 1) one
    · rfl

end Allocation

/-- The bits of the zone map after `new_block`, on a device whose map ends with set bits. -/
structure Gives (v : Volume α) (n : Nat) (v' : Volume α) : Prop where
  refs : ∀ b, v'.refs b = v.refs b
  bits : ∀ m, marked v'.sb.zmap m = true ↔ marked v.sb.zmap m = true ∨ n ≠ 0 ∧ v.sb.bitOf n = m
  rest : v'.sb = { v.sb with zmap := v'.sb.zmap }
  formatted : ∃ z, v'.sb.Formatted z

end Linux012.Fs.Bitmap.Volume

namespace Linux012.Fs.Bitmap

theorem SuperBlock.Formatted.change {sb sb' : SuperBlock} {z n : Nat} (formatted : sb.Formatted z)
    (changes : sb.ChangesZone n true sb') : sb'.Formatted z := by
  have rest := changes.rest
  have zoneOf (m : Nat) : sb'.zoneOf m = sb.zoneOf m := by rw [rest]; rfl
  have set {m : Nat} (isSet : marked sb.zmap m = true) : marked sb'.zmap m = true := by
    rw [changes.zmap.bits, isSet, ite_self]
  refine ⟨formatted.slots, fun i => ?_, set formatted.first, fun m inside past => ?_, ?_⟩
  · rw [changes.zmap.slots]
    exact formatted.loaded i
  · rw [zoneOf, rest] at past
    exact set (formatted.past m inside past)
  · rw [rest]
    exact formatted.zones

namespace Volume

variable {α : Type} [Zero α] {v v' : Volume α} {n : Nat} {reuse : Reuse α}

theorem newBlock_gives (coherent : v.Coherent) (formatted : ∃ z, v.sb.Formatted z) (positive : 0 < v.sb.firstdatazone)
    (result : v.newBlock reuse = .ok (n, v')) : v.Gives n v' := by
  obtain ⟨z, formatted⟩ := formatted
  rcases isFirstClear_or_full v.sb.zmap with ⟨m, first⟩ | full
  · obtain ⟨free, number⟩ := formatted.free_zoneOf first.clear
    obtain ⟨sb', changes, outcome⟩ := newBlock_of_first first reuse
    rw [result, if_neg (Nat.not_le.mpr free.last)] at outcome
    have marking : v.Keeps ∅ { v with sb := sb' } := .setSb coherent ∅ sb'
    obtain ⟨rfl, -, -, sameSb⟩ := clearNew_spec marking.coherent outcome.symm
    have zone : v.sb.zoneOf m ≠ 0 := Nat.ne_of_gt (Nat.lt_of_lt_of_le positive free.first)
    refine ⟨fun b => refs_clearNew outcome.symm b, fun k => ?_, ?_, ?_⟩
    · rw [sameSb, changes.zmap.bits, number, and_iff_right zone]
      by_cases same : k = m
      · simp [same]
      · simp [same, Ne.symm same]
    · rw [sameSb]
      exact changes.rest
    · rw [sameSb]
      exact ⟨z, formatted.change changes⟩
  · rw [newBlock_of_full full, Except.ok.injEq, Prod.mk.injEq] at result
    obtain ⟨rfl, rfl⟩ := result
    exact ⟨fun _ => rfl, fun m => by simp, rfl, z, formatted⟩

end Volume

end Linux012.Fs.Bitmap

/-! ## Zones for the blocks of a directory -/

namespace Linux012.Fs.ZoneTree.State

open BlockTree Bitmap

variable {s t u : State} {create : Bool} {now r z : Nat} {k : Fin 9} {path : List (Fin 512)} {j : Fin 512}
  {held : Option Nat}

/-- The references to the buffer of `b` when only the buffer `held` is held. -/
def heldRefs (held : Option Nat) (b : Nat) : Nat := held.elim 0 fun block => if b = block then 1 else 0

/-- Places of the tree get zones that were free, and otherwise only a buffer may be held. -/
structure Allots (s t : State) (held : Option Nat) : Prop where
  coherent : t.volume.Coherent
  sharing : t.Sharing
  formatted : ∃ z, t.volume.sb.Formatted z
  rest : t.volume.sb = { s.volume.sb with zmap := t.volume.sb.zmap }
  grows : ∀ l q, q.length ≤ depth l → s.value l q ≠ 0 → t.value l q = s.value l q
  new : ∀ l q, q.length ≤ depth l → s.value l q = 0 → t.value l q ≠ 0 →
    marked s.volume.sb.zmap (s.volume.sb.bitOf (t.value l q)) = false
  bits : ∀ m, marked t.volume.sb.zmap m = true ↔ marked s.volume.sb.zmap m = true ∨
    ∃ l q, q.length ≤ depth l ∧ t.value l q ≠ 0 ∧ s.volume.sb.bitOf (t.value l q) = m
  contents : ∀ b ≠ 0, marked s.volume.sb.zmap (s.volume.sb.bitOf b) = true →
    (∀ l q, q.length < depth l → t.value l q ≠ b) → t.volume.contents b = s.volume.contents b
  refs : ∀ b, t.volume.refs b = s.volume.refs b + heldRefs held b

namespace Allots

theorem bitOf (allots : s.Allots t held) (b : Nat) : t.volume.sb.bitOf b = s.volume.sb.bitOf b := by
  rw [SuperBlock.bitOf, SuperBlock.bitOf, allots.rest]

theorem refl (coherent : s.volume.Coherent) (sharing : s.Sharing) (formatted : ∃ z, s.volume.sb.Formatted z) :
    s.Allots s none := by
  refine ⟨coherent, sharing, formatted, rfl, fun _ _ _ _ => rfl, fun l q _ zero used => absurd zero used, fun m => ?_,
    fun _ _ _ _ => rfl, fun _ => rfl⟩
  refine ⟨.inl, ?_⟩
  rintro (isSet | ⟨l, q, inside, used, rfl⟩)
  · exact isSet
  · exact sharing.marked l q inside used

theorem mono (allots : s.Allots t held) {m : Nat} (isSet : marked s.volume.sb.zmap m = true) :
    marked t.volume.sb.zmap m = true :=
  (allots.bits m).mpr (.inl isSet)

theorem trans (first : s.Allots t none) (second : t.Allots u held) : s.Allots u held := by
  have stays {l : Fin 9} {q : List (Fin 512)} (inside : q.length ≤ depth l) (used : t.value l q ≠ 0) :=
    second.grows l q inside used
  refine ⟨second.coherent, second.sharing, second.formatted, ?_, fun l q inside used => ?_,
    fun l q inside empty used => ?_, fun m => ?_, fun b block isSet outside => ?_, fun b => ?_⟩
  · rw [second.rest, first.rest]
  · have same := first.grows l q inside used
    rw [second.grows l q inside (same.symm ▸ used), same]
  · by_cases now : t.value l q = 0
    · have clear := second.new l q inside now used
      rw [first.bitOf] at clear
      rw [Bool.eq_false_iff] at clear ⊢
      exact fun isSet => clear (first.mono isSet)
    · have same := stays inside now
      rw [same]
      exact first.new l q inside empty now
  · rw [second.bits, first.bits, or_assoc]
    refine or_congr_right ⟨?_, fun ⟨l, q, inside, used, number⟩ => .inr ⟨l, q, inside, used, ?_⟩⟩
    · rintro (⟨l, q, inside, used, number⟩ | ⟨l, q, inside, used, number⟩)
      · have same := stays inside used
        exact ⟨l, q, inside, same.symm ▸ used, same.symm ▸ number⟩
      · exact ⟨l, q, inside, used, (first.bitOf _).symm.trans number⟩
    · exact (first.bitOf _).trans number
  · have outside' (l : Fin 9) (q : List (Fin 512)) (inner : q.length < depth l) : t.value l q ≠ b := by
      intro same
      have used : t.value l q ≠ 0 := same.symm ▸ block
      exact outside l q inner ((stays (Nat.le_of_lt inner) used).trans same)
    rw [second.contents b block ((first.bitOf b).symm ▸ first.mono isSet) outside,
      first.contents b block isSet outside']
  · rw [second.refs, first.refs]
    rfl

end Allots

theorem Takes.allots (takes : s.Takes k path r t) (sharing : s.Sharing) (inside : path.length ≤ depth k) {n : Nat}
    (gives : s.volume.Gives n t.volume) (isNew : n ≠ 0 → n = r ∧ s.value k path = 0)
    (isOld : n = 0 → r = s.value k path)
    (clear : n ≠ 0 → marked s.volume.sb.zmap (s.volume.sb.bitOf n) = false)
    (contents : ∀ b ≠ 0, b ≠ n → (∀ l q, q.length < depth l → t.value l q ≠ b) →
      t.volume.contents b = s.volume.contents b) : s.Allots t none := by
  refine ⟨takes.coherent, takes.sharing, gives.formatted, gives.rest, takes.grows, fun l q within empty used => ?_,
    fun m => ?_, fun b block isSet outside => contents b block ?_ outside, fun b => gives.refs b⟩
  · have value := takes.value l q within
    split at value
    · next here =>
      obtain ⟨rfl, rfl⟩ := here
      have positive : n ≠ 0 := fun zero => used (value.trans ((isOld zero).trans empty))
      rw [value, ← (isNew positive).1]
      exact clear positive
    · exact absurd (value.trans empty) used
  · rw [gives.bits]
    constructor
    · rintro (isSet | ⟨positive, rfl⟩)
      · exact .inl isSet
      · have here := takes.self inside
        rw [← (isNew positive).1] at here
        exact .inr ⟨k, path, inside, here.symm ▸ positive, by rw [here]⟩
    · rintro (isSet | ⟨l, q, within, used, rfl⟩)
      · exact .inl isSet
      · by_cases empty : s.value l q = 0
        · have value := takes.value l q within
          split at value
          · next here =>
            obtain ⟨rfl, rfl⟩ := here
            have positive : n ≠ 0 := fun zero => used (value.trans ((isOld zero).trans empty))
            exact .inr ⟨positive, by rw [value, (isNew positive).1]⟩
          · exact absurd (value.trans empty) used
        · rw [takes.grows l q within empty]
          exact .inl (sharing.marked l q within empty)
  · rintro rfl
    exact absurd (isSet.symm.trans (clear block)) (by simp)

theorem takeZone_allots (coherent : s.volume.Coherent) (sharing : s.Sharing) (formatted : ∃ z, s.volume.sb.Formatted z)
    (positive : 0 < s.volume.sb.firstdatazone) (taken : s.takeZone create now k = .ok t) : s.Allots t none := by
  obtain ⟨takes, -⟩ := takeZone_spec coherent sharing taken
  rw [takeZone] at taken
  split at taken
  · next needed =>
    rw [Bool.and_eq_true, decide_eq_true_eq] at needed
    obtain ⟨⟨n, v'⟩, made, next⟩ := map_eq_ok.mp taken
    have volume : t.volume = v' := next ▸ rfl
    have zone : t.zone k = n := by
      rw [← next]
      exact Function.update_self ..
    rw [← volume] at made
    obtain ⟨keeps, allocates, -⟩ := Volume.newBlock_spec coherent made
    refine takes.allots sharing (Nat.zero_le _) (Volume.newBlock_gives coherent formatted positive made)
      (fun _ => ⟨zone.symm, needed.2⟩) (fun zero => ?_) allocates.clear fun b _ other _ => keeps.contents b other
    exact zone.trans (zero.trans needed.2.symm)
  · cases taken
    exact .refl coherent sharing formatted

theorem takeEntry_gives (coherent : s.volume.Coherent) (formatted : ∃ z, s.volume.sb.Formatted z)
    (positive : 0 < s.volume.sb.firstdatazone) (taken : s.takeEntry create z j = .ok (r, t)) :
    ∃ n, s.volume.Gives n t.volume ∧
      (n = 0 ∧ r = s.volume.contents z j ∨ n ≠ 0 ∧ r = n ∧ s.volume.contents z j = 0) := by
  obtain ⟨read, -, data, -, readSb⟩ := Volume.bread_spec coherent z (s.free 0)
  have readRefs := s.volume.refs_bread z (s.free 0)
  rw [takeEntry] at taken
  dsimp only at taken
  split at taken
  · next needed =>
    rw [Bool.and_eq_true, decide_eq_true_eq, data] at needed
    obtain ⟨⟨n, v⟩, made, next⟩ := map_eq_ok.mp taken
    rw [Prod.mk.injEq] at next
    obtain ⟨rfl, next⟩ := next
    have gives := Volume.newBlock_gives read.coherent (readSb.symm ▸ formatted) (readSb.symm ▸ positive) made
    have sb : t.volume.sb = v.sb := by
      rw [← next]
      dsimp only
      split
      · rw [Volume.brelse, Volume.sb_put, Volume.store]
        split <;> rfl
      · rfl
    refine ⟨n, ⟨fun b => ?_, fun m => ?_, ?_, sb.symm ▸ gives.formatted⟩, ?_⟩
    · rw [← next]
      dsimp only
      split
      · rw [Volume.refs_brelse, Volume.refs_store, gives.refs, readRefs]
        omega
      · rw [Volume.refs_brelse, gives.refs, readRefs]
        omega
    · rw [sb, gives.bits, readSb]
    · rw [sb, gives.rest, readSb]
    · by_cases zero : n = 0
      · exact .inl ⟨zero, zero.trans needed.2.symm⟩
      · exact .inr ⟨zero, rfl, needed.2⟩
  · rw [Except.ok.injEq, Prod.mk.injEq] at taken
    obtain ⟨rfl, next⟩ := taken
    have sb : t.volume.sb = s.volume.sb := next ▸ readSb
    refine ⟨0, ⟨fun b => ?_, fun m => by simp [sb], by rw [sb], sb.symm ▸ formatted⟩, .inl ⟨rfl, congrFun data j⟩⟩
    rw [← next]
    dsimp only
    rw [Volume.refs_brelse, readRefs]
    omega

theorem takeEntry_allots (coherent : s.volume.Coherent) (sharing : s.Sharing) (formatted : ∃ z, s.volume.sb.Formatted z)
    (positive : 0 < s.volume.sb.firstdatazone) (inner : path.length < depth k) (parent : s.value k path = z)
    (block : z ≠ 0) (taken : s.takeEntry create z j = .ok (r, t)) : s.Allots t none := by
  obtain ⟨takes, -⟩ := takeEntry_spec coherent sharing inner parent block taken
  obtain ⟨n, gives, outcome⟩ := takeEntry_gives coherent formatted positive taken
  have isSet := sharing.marked k path (Nat.le_of_lt inner) (parent ▸ block)
  rw [parent] at isSet
  obtain ⟨-, -, n', allocates, outcome'⟩ := takeEntry_contents coherent block isSet taken
  have entry : s.value k (path ++ [j]) = s.volume.contents z j := by
    rw [value, walk_concat path j fun zero => block (parent.symm.trans zero)]
    exact congrFun (congrArg _ parent) j
  have still : t.value k path = z := by
    rw [takes.grows k path (Nat.le_of_lt inner) (parent.symm ▸ block), parent]
  have full : (path ++ [j]).length ≤ depth k := by
    rw [List.length_append, List.length_singleton]
    exact inner
  refine takes.allots sharing full gives (fun nonzero => ?_) (fun zero => ?_) (fun nonzero => ?_)
    fun b notZero notNew outside => ?_
  · rcases outcome with ⟨zero, -⟩ | ⟨-, isNew, empty⟩
    · exact absurd zero nonzero
    · exact ⟨isNew.symm, entry.trans empty⟩
  · rcases outcome with ⟨-, isOld⟩ | ⟨nonzero, -⟩
    · exact isOld.trans entry.symm
    · exact absurd zero nonzero
  · rcases outcome with ⟨zero, -⟩ | ⟨-, isNew, empty⟩
    · exact absurd zero nonzero
    · rcases outcome' with ⟨-, isOld, -⟩ | ⟨nonzero', -, isNew', -⟩
      · exact absurd (isNew.symm.trans (isOld.trans empty)) nonzero
      · rw [← isNew, isNew']
        exact allocates.clear nonzero'
  · rcases outcome' with ⟨-, -, same⟩ | ⟨nonzero', -, isNew', empty, -, -, others⟩
    · exact same b notZero
    · refine others b (fun isParent => outside k path inner (still.trans isParent.symm)) ?_
      rcases outcome with ⟨-, isOld⟩ | ⟨-, isNew, -⟩
      · exact absurd (isNew'.symm.trans (isOld.trans empty)) nonzero'
      · rw [← isNew', isNew]
        exact notNew

theorem bmapAt_allots (coherent : s.volume.Coherent) (sharing : s.Sharing) (formatted : ∃ z, s.volume.sb.Formatted z)
    (positive : 0 < s.volume.sb.firstdatazone) {block : Fin blocks} (mapped : s.bmapAt create now block = .ok (r, t)) :
    s.Allots t none := by
  have first {u : State} {l : Fin 9} (taken : s.takeZone create now l = .ok u) : s.Allots u none :=
    takeZone_allots coherent sharing formatted positive taken
  have later {u : State} (allots : s.Allots u none) : 0 < u.volume.sb.firstdatazone := by
    rw [allots.rest]
    exact positive
  rw [bmapAt] at mapped
  split at mapped
  · obtain ⟨u, taken, next⟩ := map_eq_ok.mp mapped
    rw [Prod.mk.injEq] at next
    obtain ⟨-, rfl⟩ := next
    exact first taken
  · split at mapped
    · obtain ⟨u, taken, mapped⟩ := bind_eq_ok.mp mapped
      have allots := first taken
      split at mapped
      · cases mapped
        exact allots
      · next block' =>
        have inner : ([] : List (Fin 512)).length < depth 7 := by decide
        exact allots.trans
          (takeEntry_allots allots.coherent allots.sharing allots.formatted (later allots) inner rfl block' mapped)
    · obtain ⟨u, taken, mapped⟩ := bind_eq_ok.mp mapped
      have allots := first taken
      split at mapped
      · cases mapped
        exact allots
      · next block' =>
        obtain ⟨⟨i, w⟩, entered, mapped⟩ := bind_eq_ok.mp mapped
        have inner : ([] : List (Fin 512)).length < depth 8 := by decide
        have allots' := allots.trans
          (takeEntry_allots allots.coherent allots.sharing allots.formatted (later allots) inner rfl block' entered)
        obtain ⟨takes, -⟩ := takeEntry_spec allots.coherent allots.sharing inner rfl block' entered
        split at mapped
        · cases mapped
          exact allots'
        · next block'' =>
          have inner' : ([] ++ [⟨(block - 7 - 512) / 512, double_lt block⟩] : List (Fin 512)).length < depth 8 :=
            Nat.lt_succ_self 1
          have parent := takes.self (Nat.le_of_lt inner')
          exact allots'.trans
            (takeEntry_allots allots'.coherent allots'.sharing allots'.formatted (later allots') inner' parent block'' mapped)

namespace Allots

theorem of_contents {held' : Option Nat} (allots : s.Allots t held) (coherent : u.volume.Coherent)
    (zone : u.zone = t.zone) (sb : u.volume.sb = t.volume.sb)
    (contents : ∀ b, u.volume.contents b = t.volume.contents b)
    (refs : ∀ b, u.volume.refs b = s.volume.refs b + heldRefs held' b) : s.Allots u held' := by
  have values (l : Fin 9) (q : List (Fin 512)) : u.value l q = t.value l q :=
    value_congr zone (fun b _ => contents b) l q
  have sharing := (EntryBlocks.Same.of_contents allots.sharing coherent zone sb contents).sharing
  refine ⟨coherent, sharing, sb.symm ▸ allots.formatted, by rw [sb]; exact allots.rest, fun l q inside used => ?_,
    fun l q inside empty used => ?_, fun m => ?_, fun b block isSet outside => ?_, refs⟩
  · rw [values]
    exact allots.grows l q inside used
  · rw [values] at used ⊢
    exact allots.new l q inside empty used
  · simp only [sb, values]
    exact allots.bits m
  · rw [contents]
    exact allots.contents b block isSet fun l q inner same => outside l q inner ((values l q).trans same)

theorem bread (allots : s.Allots t none) (block : Nat) (free : Nat → Reuse Index) :
    s.Allots { t with volume := (t.volume.bread block (t.free 0)).2, free } (some block) := by
  obtain ⟨read, -, -, -, readSb⟩ := Volume.bread_spec allots.coherent block (t.free 0)
  have contents := Volume.contents_bread allots.coherent block (t.free 0)
  refine allots.of_contents read.coherent rfl readSb contents fun b => ?_
  exact (Volume.refs_bread ..).trans (congrArg (· + _) (allots.refs b))

theorem brelse {block : Nat} (allots : s.Allots t (some block)) {bh : Buffer Index} (holds : t.volume.Holds block bh) :
    s.Allots { t with volume := t.volume.brelse block } none := by
  obtain ⟨release, -, -, releaseSb⟩ := Volume.brelse_spec allots.coherent holds
  have contents := t.volume.contents_brelse block
  refine allots.of_contents release.coherent rfl releaseSb contents fun b => ?_
  have counted : t.volume.refs b = s.volume.refs b + if b = block then 1 else 0 := allots.refs b
  exact (Volume.refs_brelse ..).trans (by rw [counted]; exact Nat.add_sub_cancel ..)

end Allots

end Linux012.Fs.ZoneTree.State

/-! ## `add_entry` without a result -/

namespace Linux012.Fs.EntryBlocks

open Bitmap ZoneTree BlockTree
open ZoneTree.State (place depth blocks length_place place_injective heldRefs)
open Namei (Byte NAME_LEN DIR_ENTRIES_PER_BLOCK)

variable {s t : State} {d d' : Dir} {now i block de : Nat} {name : List Byte} {held : Option Nat}

structure Passes (s : Dir) (d : Dir) (held : Option Nat) : Prop where
  allots : s.Allots d.toState held
  leaves : ∀ l q, q.length = depth l → d.value l q = s.value l q
  size : d.size = s.size
  mtime : d.mtime = s.mtime

variable {s : Dir}

theorem Passes.bread (passes : Passes s d none) (block : Nat) :
    Passes s (d.bread block) (some block) ∧ ∃ bh, (d.bread block).volume.Holds block bh := by
  obtain ⟨-, holds, -⟩ := Volume.bread_spec passes.allots.coherent block (d.free 0)
  have contents := Volume.contents_bread passes.allots.coherent block (d.free 0)
  have zone : (d.bread block).zone = d.zone := rfl
  refine ⟨⟨passes.allots.bread block _, fun l q full => ?_, passes.size, passes.mtime⟩, _, holds⟩
  exact (State.value_congr zone (fun b _ => contents b) l q).trans (passes.leaves l q full)

theorem Passes.brelse {bh : Buffer Index} (passes : Passes s d (some block)) (holds : d.volume.Holds block bh) :
    Passes s (d.brelse block) none := by
  have contents := d.volume.contents_brelse block
  have zone : (d.brelse block).zone = d.zone := rfl
  refine ⟨passes.allots.brelse holds, fun l q full => ?_, passes.size, passes.mtime⟩
  exact (State.value_congr zone (fun b _ => contents b) l q).trans (passes.leaves l q full)

variable {found : Option (Nat × Nat)}

theorem createEntry_passes (positive : 0 < s.volume.sb.firstdatazone) (passes : Passes s d (some block))
    (at_ : At d i block de) (moved : d.createEntry now i block de = .ok (found, d')) :
    (found = none → Passes s d' none) ∧ ∀ p, found = some p →
      p = (zoneOf d'.toState (i / 64), i % 64) ∧ p.1 ≠ 0 ∧ d'.volume.Coherent ∧ (∃ bh, d'.volume.Holds p.1 bh) ∧
        (Passes s d' (some p.1) ∨ d'.volume.contents p.1 = 0) := by
  obtain ⟨⟨bh, holds⟩, ⟨within, rfl, isZone, used⟩ | ⟨rfl, boundary⟩⟩ := at_
  · rw [Dir.createEntry, if_pos (show i % 64 < DIR_ENTRIES_PER_BLOCK from within)] at moved
    cases moved
    refine ⟨fun isNone => (by cases isNone), fun p isPlace => ?_⟩
    cases isPlace
    exact ⟨by rw [isZone], used, passes.allots.coherent, ⟨bh, holds⟩, .inl passes⟩
  · rw [Dir.createEntry, if_neg (show ¬64 < DIR_ENTRIES_PER_BLOCK from Nat.lt_irrefl _)] at moved
    obtain ⟨⟨r, t⟩, created, next⟩ := State.map_eq_ok.mp moved
    have released := passes.brelse holds
    have inside : i / 64 < blocks := lt_of_mapped created
    have mapped := (State.bmapWith_of_lt inside _ true now).symm.trans created
    have first : 0 < (d.brelse block).volume.sb.firstdatazone := by
      rw [released.allots.rest]
      exact positive
    have descends := State.bmapAt_spec released.allots.coherent released.allots.sharing mapped
    have allots := released.allots.trans
      (State.bmapAt_allots released.allots.coherent released.allots.sharing released.allots.formatted first mapped)
    have full := length_place ⟨i / 64, inside⟩
    -- the place of the block keeps its zone, or gets one that has just been cleared
    generalize isPlace : place ⟨i / 64, inside⟩ = at_ at descends full
    have kept (same : r = (d.brelse block).value at_.1 at_.2) (l : Fin 9) (q : List (Fin 512))
        (isFull : q.length = depth l) : t.value l q = s.value l q := by
      rw [← released.leaves l q isFull]
      by_cases here : l = at_.1 ∧ q = at_.2
      · rw [here.1, here.2, descends.leaf, same]
      · exact descends.others l q isFull here
    dsimp only at next
    split at next
    · next none =>
      rw [Prod.mk.injEq] at next
      obtain ⟨rfl, rfl⟩ := next
      refine ⟨fun _ => ⟨allots, kept ?_, passes.size, passes.mtime⟩, fun p isPlace => by cases isPlace⟩
      by_contra other
      have grows := descends.grows _ _ (Nat.le_of_eq full) fun zero => other (none.trans zero.symm)
      exact other (descends.leaf.symm.trans grows)
    · next used =>
      rw [Prod.mk.injEq] at next
      obtain ⟨rfl, rfl⟩ := next
      refine ⟨fun isNone => (by cases isNone), fun p isPlace' => ?_⟩
      cases isPlace'
      obtain ⟨-, holds', -⟩ := Volume.bread_spec allots.coherent r (t.free 0)
      have contents := Volume.contents_bread allots.coherent r (t.free 0)
      have allots' := allots.bread r fun i => t.free (i + 1)
      have zone : zoneOf t (i / 64) = r := by
        rw [zoneOf_of_lt inside, isPlace]
        exact descends.leaf
      generalize isRead : ({ t with volume := (t.volume.bread r (t.free 0)).2, free := fun i => t.free (i + 1) } : State) = u
        at allots'
      have volume : u.volume = (t.volume.bread r (t.free 0)).2 := isRead ▸ rfl
      have zones : u.zone = t.zone := isRead ▸ rfl
      have values := State.value_congr zones fun b _ => (volume ▸ contents b)
      have still : zoneOf u (i / 64) = r := by
        rw [← zone, zoneOf_of_lt inside, zoneOf_of_lt inside]
        exact values _ _
      have isNext : Dir.bread ⟨t, (d.brelse block).size, (d.brelse block).mtime⟩ r =
          ⟨u, (d.brelse block).size, (d.brelse block).mtime⟩ := isRead ▸ rfl
      rw [isNext]
      dsimp only
      refine ⟨?_, used, allots'.coherent, ⟨_, volume ▸ holds'⟩, ?_⟩
      · rw [boundary, still]
      · by_cases empty : (d.brelse block).value at_.1 at_.2 = 0
        · exact .inr (volume ▸ (contents r).trans (descends.fresh empty used))
        · have grows := descends.grows _ _ (Nat.le_of_eq full) empty
          refine .inl ⟨allots', fun l q isFull => ?_, passes.size, passes.mtime⟩
          exact (values l q).trans (kept (descends.leaf.symm.trans grows) l q isFull)

theorem extend_of_used {bh : Buffer Index} (coherent : d.volume.Coherent) (holds : d.volume.Holds block bh)
    (inside : de < 64) (used : ((d.extend now i block de).load block de).inode ≠ 0) : d.extend now i block de = d := by
  by_cases atEnd : d.size ≤ i * 16
  · obtain ⟨-, holds', -⟩ := Volume.store_spec coherent holds (setInode de 0)
    have loaded : (d.extend now i block de).load block de = entry (setInode de 0 bh.data) de := by
      rw [extend_of_end atEnd]
      exact (load_of_holds holds' de).trans (congrArg (entry · de) holds'.contents)
    rw [loaded, entry_setInode _ inside inside (by decide), if_pos rfl] at used
    exact absurd rfl used
  · exact extend_of_lt (Nat.not_le.mp atEnd) block de

variable {rounds : Nat}

theorem addLoop_fails (positive : 0 < s.volume.sb.firstdatazone) (passes : Passes s d (some block))
    (at_ : At d i block de) (failed : Dir.addLoop now name rounds i block de d = .ok (none, d')) :
    Passes s d' none := by
  induction rounds generalizing i d block de with
  | zero =>
    obtain ⟨⟨bh, holds⟩, -⟩ := at_
    cases failed
    exact passes.brelse holds
  | succ rounds ih =>
    rw [Dir.addLoop] at failed
    obtain ⟨⟨found, t⟩, moved, failed⟩ := State.bind_eq_ok.mp failed
    obtain ⟨none_, some_⟩ := createEntry_passes positive passes at_ moved
    cases found with
    | none =>
      cases failed
      exact none_ rfl
    | some p =>
      obtain ⟨isPlace, block', coherent, ⟨bh, holds⟩, outcome⟩ := some_ p rfl
      have inside : p.2 < 64 := by
        rw [isPlace]
        exact Nat.mod_lt i (by decide)
      dsimp only at failed
      split at failed
      · cases failed
      · next inUse =>
        have still := extend_of_used coherent holds inside inUse
        rw [still] at failed inUse
        rcases outcome with passes' | cleared
        · refine ih passes' (.next ⟨bh, holds⟩ ?_ ?_ block') failed
          · rw [isPlace]
          · rw [isPlace]
        · -- the entries of a new block are free
          rw [load_of_holds holds, cleared, entry_inode _ inside] at inUse
          exact absurd rfl inUse

theorem addEntry_fails (coherent : d.volume.Coherent) (sharing : d.Sharing) (formatted : ∃ z, d.volume.sb.Formatted z)
    (positive : 0 < d.volume.sb.firstdatazone) (failed : d.addEntry now name = .ok (none, d')) : Passes d d' none := by
  have start : Passes d d none := ⟨.refl coherent sharing formatted, fun _ _ _ => rfl, rfl, rfl⟩
  rw [Dir.addEntry] at failed
  split at failed
  · cases failed
    exact start
  · split at failed
    · cases failed
      exact start
    · next first =>
      obtain ⟨passes, holds⟩ := start.bread (d.zone 0)
      refine addLoop_fails positive passes ⟨holds, .inl ⟨by decide, rfl, ?_, first⟩⟩ failed
      exact (zoneOf_zero (d.bread (d.zone 0)).toState).symm

/-! ## `find_entry` -/

structure Reads (s t : State) (held : Option Nat) : Prop where
  coherent : t.volume.Coherent
  contents : ∀ b, t.volume.contents b = s.volume.contents b
  sb : t.volume.sb = s.volume.sb
  refs : ∀ b, t.volume.refs b = s.volume.refs b + heldRefs held b
  rest : t = { s with volume := t.volume, free := t.free }
  holds : ∀ block, held = some block → ∃ bh, t.volume.Holds block bh

namespace Reads

variable {s t u : State} {r : Nat}

theorem refl (coherent : s.volume.Coherent) : Reads s s none :=
  ⟨coherent, fun _ => rfl, rfl, fun _ => rfl, rfl, fun _ isNone => by cases isNone⟩

theorem bread (reads : Reads s t none) (block : Nat) (free : Nat → Reuse Index) :
    Reads s { t with volume := (t.volume.bread block (t.free 0)).2, free } (some block) := by
  obtain ⟨read, holds, -, -, readSb⟩ := Volume.bread_spec reads.coherent block (t.free 0)
  refine ⟨read.coherent, fun b => ?_, readSb.trans reads.sb, fun b => ?_, ?_, fun _ same => ?_⟩
  · exact (Volume.contents_bread reads.coherent block (t.free 0) b).trans (reads.contents b)
  · exact (Volume.refs_bread ..).trans (congrArg (· + _) (reads.refs b))
  · rw [reads.rest]
  · cases same
    exact ⟨_, holds⟩

theorem brelse {block : Nat} (reads : Reads s t (some block)) :
    Reads s { t with volume := t.volume.brelse block } none := by
  obtain ⟨bh, holds⟩ := reads.holds block rfl
  obtain ⟨release, -, -, releaseSb⟩ := Volume.brelse_spec reads.coherent holds
  refine ⟨release.coherent, fun b => ?_, releaseSb.trans reads.sb, fun b => ?_, ?_, fun _ isNone => by cases isNone⟩
  · exact (t.volume.contents_brelse block b).trans (reads.contents b)
  · have counted : t.volume.refs b = s.volume.refs b + if b = block then 1 else 0 := reads.refs b
    exact (Volume.refs_brelse ..).trans (by rw [counted]; exact Nat.add_sub_cancel ..)
  · rw [reads.rest]

theorem takeEntry (reads : Reads s t none) {z : Nat} {j : Fin 512} (taken : t.takeEntry false z j = .ok (r, u)) :
    Reads s u none := by
  cases taken
  exact (reads.bread z fun i => t.free (i + 1)).brelse

theorem bmapAt (reads : Reads s t none) {block : Fin blocks} (mapped : t.bmapAt false now block = .ok (r, u)) :
    Reads s u none := by
  rw [State.bmapAt] at mapped
  split at mapped
  · obtain ⟨v, taken, next⟩ := State.map_eq_ok.mp mapped
    cases taken
    cases next
    exact reads
  · split at mapped
    · obtain ⟨v, taken, mapped⟩ := State.bind_eq_ok.mp mapped
      cases taken
      split at mapped
      · cases mapped
        exact reads
      · exact reads.takeEntry mapped
    · obtain ⟨v, taken, mapped⟩ := State.bind_eq_ok.mp mapped
      cases taken
      split at mapped
      · cases mapped
        exact reads
      · obtain ⟨⟨i, w⟩, entered, mapped⟩ := State.bind_eq_ok.mp mapped
        have reads' := reads.takeEntry entered
        split at mapped
        · cases mapped
          exact reads'
        · exact reads'.takeEntry mapped

end Reads

theorem Reads.sharing {s t : State} (reads : Reads s t held) (sharing : s.Sharing) : t.Sharing :=
  (Same.of_contents sharing reads.coherent (by rw [reads.rest]) reads.sb reads.contents).sharing

theorem Reads.zoneOf {s t : State} (reads : Reads s t held) (block : Nat) :
    EntryBlocks.zoneOf t block = EntryBlocks.zoneOf s block := by
  have zone : t.zone = s.zone := by rw [reads.rest]
  have values := State.value_congr zone fun b _ => reads.contents b
  by_cases inside : block < blocks
  · rw [zoneOf_of_lt inside, zoneOf_of_lt inside, values]
  · rw [EntryBlocks.zoneOf, EntryBlocks.zoneOf, dif_neg inside, dif_neg inside]

structure Looks (s d : Dir) (held : Option Nat) : Prop where
  reads : Reads s.toState d.toState held
  size : d.size = s.size
  mtime : d.mtime = s.mtime
  place : ∀ b, held = some b → b ≠ 0 ∧ ∃ k, zoneOf s.toState k = b

theorem Looks.brelse (looks : Looks s d (some block)) : Looks s (d.brelse block) none :=
  ⟨looks.reads.brelse, looks.size, looks.mtime, fun _ isNone => by cases isNone⟩

theorem Looks.bread (looks : Looks s d none) (block' : block ≠ 0) (isZone : ∃ k, zoneOf s.toState k = block) :
    Looks s (d.bread block) (some block) := by
  refine ⟨looks.reads.bread block _, looks.size, looks.mtime, fun b same => ?_⟩
  cases same
  exact ⟨block', isZone⟩

theorem Looks.nextBlock (sharing : s.Sharing) (looks : Looks s d none)
    (moved : d.nextBlock now i = .ok (found, d')) : Looks s d' (found.map Prod.fst) := by
  obtain ⟨⟨r, t⟩, mapped, next⟩ := State.map_eq_ok.mp moved
  have inside : i / DIR_ENTRIES_PER_BLOCK < blocks := lt_of_mapped mapped
  have mapped' := (State.bmapWith_of_lt inside _ false now).symm.trans mapped
  obtain ⟨-, -, returns⟩ := bmapWith_spec looks.reads.coherent (looks.reads.sharing sharing) mapped
  have isZone := (returns (.inr rfl)).trans (looks.reads.zoneOf _)
  have after : Looks s { d with toState := t } none :=
    ⟨looks.reads.bmapAt mapped', looks.size, looks.mtime, fun _ isNone => by cases isNone⟩
  dsimp only at next
  split at next
  · cases next
    exact after
  · next block' =>
    cases next
    exact after.bread block' ⟨_, isZone.symm⟩

variable {bh : Option Nat}

theorem Looks.nextEntry (sharing : s.Sharing) (looks : Looks s d bh)
    (moved : d.nextEntry now i bh de = .ok (found, d')) : Looks s d' (found.map Prod.fst) := by
  cases bh with
  | none => exact looks.nextBlock sharing moved
  | some block =>
    rw [Dir.nextEntry] at moved
    split at moved
    · cases moved
      exact looks
    · exact looks.brelse.nextBlock sharing moved

theorem Looks.release (looks : Looks s d bh) : Looks s (d.release bh) none := by
  cases bh with
  | none => exact looks
  | some block => exact looks.brelse

theorem findLoop_looks (sharing : s.Sharing) (looks : Looks s d bh) {n : Nat}
    (ran : Dir.findLoop now name n rounds i bh de d = .ok (found, d')) : Looks s d' (found.map Prod.fst) := by
  induction rounds generalizing i bh d de with
  | zero =>
    cases ran
    exact looks.release
  | succ rounds ih =>
    rw [Dir.findLoop] at ran
    split at ran
    · obtain ⟨⟨place, t⟩, moved, ran⟩ := State.bind_eq_ok.mp ran
      have after := looks.nextEntry sharing moved
      cases place with
      | none => exact ih after ran
      | some place =>
        dsimp only at ran
        split at ran
        · cases ran
          exact after
        · exact ih after ran
    · cases ran
      exact looks.release

theorem findEntry_looks (coherent : d.volume.Coherent) (sharing : d.Sharing) {isRoot : Bool}
    (ran : d.findEntry ⟨isRoot, none⟩ now name = .ok (found, d')) : Looks d d' (found.map Prod.fst) := by
  have start : Looks d d none := ⟨.refl coherent, rfl, rfl, fun _ isNone => by cases isNone⟩
  have findFrom {text : List Byte} {n : Nat} (ran : d.findFrom now text n = .ok (found, d')) :
      Looks d d' (found.map Prod.fst) := by
    rw [Dir.findFrom] at ran
    split at ran
    · cases ran
      exact start
    · next first => exact findLoop_looks sharing (start.bread first ⟨0, zoneOf_zero _⟩) ran
  rw [Dir.findEntry] at ran
  split at ran
  · split at ran
    · exact findFrom ran
    · exact findFrom ran
  · exact findFrom ran

variable {p : Nat × Nat}

/-- A buffer and a place in it for entry `i`; after a hole there is no buffer. -/
def Stands (d : Dir) (i : Nat) (bh : Option Nat) (de : Nat) : Prop := bh.elim (i % 64 = 0) fun block => At d i block de

structure Places (s d : Dir) (i : Nat) (p : Nat × Nat) : Prop where
  zone : p.1 = zoneOf s.toState (i / 64)
  block : p.1 ≠ 0
  de : p.2 = i % 64
  holds : ∃ bh, d.volume.Holds p.1 bh

theorem Places.load (places : Places s d i p) (looks : Looks s d held) : d.load p.1 p.2 = entryAt s.toState i := by
  obtain ⟨bh, holds⟩ := places.holds
  rw [load_of_holds holds, looks.reads.contents, places.zone, places.de, entryAt]

theorem Looks.nextBlock_places (sharing : s.Sharing) (looks : Looks s d none) (boundary : i % 64 = 0)
    (moved : d.nextBlock now i = .ok (some p, d')) : Places s d' i p := by
  have after := looks.nextBlock sharing moved
  obtain ⟨⟨r, t⟩, mapped, next⟩ := State.map_eq_ok.mp moved
  obtain ⟨-, -, returns⟩ := bmapWith_spec looks.reads.coherent (looks.reads.sharing sharing) mapped
  have isZone := (returns (.inr rfl)).trans (looks.reads.zoneOf _)
  dsimp only at next
  split at next
  · cases next
  · next block' =>
    cases next
    exact ⟨isZone, block', boundary.symm, after.reads.holds _ rfl⟩

theorem Looks.nextEntry_places (sharing : s.Sharing) (looks : Looks s d bh) (stands : Stands d i bh de)
    (moved : d.nextEntry now i bh de = .ok (found, d')) :
    (found = none → i % 64 = 0) ∧ ∀ p, found = some p → Places s d' i p := by
  cases bh with
  | none =>
    refine ⟨fun _ => stands, fun p isPlace => ?_⟩
    subst isPlace
    exact looks.nextBlock_places sharing stands moved
  | some block =>
    obtain ⟨holds, ⟨within, here, isZone, used⟩ | ⟨rfl, boundary⟩⟩ := stands
    · rw [Dir.nextEntry, if_pos (show de < DIR_ENTRIES_PER_BLOCK from within)] at moved
      cases moved
      refine ⟨fun isNone => (by cases isNone), fun p isPlace => ?_⟩
      cases isPlace
      exact ⟨isZone.trans (looks.reads.zoneOf _), used, here, holds⟩
    · rw [Dir.nextEntry, if_neg (show ¬64 < DIR_ENTRIES_PER_BLOCK from Nat.lt_irrefl _)] at moved
      refine ⟨fun _ => boundary, fun p isPlace => ?_⟩
      subst isPlace
      exact looks.brelse.nextBlock_places sharing boundary moved

theorem findLoop_finds (sharing : s.Sharing) (looks : Looks s d bh) (stands : Stands d i bh de) {n : Nat}
    (ran : Dir.findLoop now name n rounds i bh de d = .ok (some p, d')) :
    ∃ j < n, Places s d' j p ∧ (entryAt s.toState j).inode ≠ 0 := by
  induction rounds generalizing i bh d de with
  | zero => cases ran
  | succ rounds ih =>
    rw [Dir.findLoop] at ran
    split at ran
    · next inside =>
      obtain ⟨⟨found, t⟩, moved, ran⟩ := State.bind_eq_ok.mp ran
      have after := looks.nextEntry sharing moved
      obtain ⟨none_, some_⟩ := looks.nextEntry_places sharing stands moved
      cases found with
      | none =>
        have boundary := none_ rfl
        have stands' : Stands t (i + DIR_ENTRIES_PER_BLOCK) none de := by
          rw [Stands, Option.elim_none, show DIR_ENTRIES_PER_BLOCK = 64 from rfl]
          omega
        exact ih after stands' ran
      | some place =>
        have places := some_ place rfl
        dsimp only at ran
        split at ran
        · next isMatch =>
          cases ran
          refine ⟨i, inside, places, fun free => ?_⟩
          rw [places.load after, Namei.matchName, if_pos (.inl free)] at isMatch
          cases isMatch
        · exact ih after (.next places.holds places.de (places.zone.trans (after.reads.zoneOf _).symm) places.block)
            ran
    · cases ran

theorem findEntry_finds (coherent : d.volume.Coherent) (sharing : d.Sharing) {isRoot : Bool}
    (ran : d.findEntry ⟨isRoot, none⟩ now name = .ok (some p, d')) :
    ∃ j < d.size / 16, Places d d' j p ∧ (entryAt d.toState j).inode ≠ 0 := by
  have start : Looks d d none := ⟨.refl coherent, rfl, rfl, fun _ isNone => by cases isNone⟩
  have findFrom {text : List Byte} {n : Nat} (ran : d.findFrom now text n = .ok (some p, d')) :
      ∃ j < n, Places d d' j p ∧ (entryAt d.toState j).inode ≠ 0 := by
    rw [Dir.findFrom] at ran
    split at ran
    · cases ran
    · next first =>
      have looks := start.bread first ⟨0, zoneOf_zero _⟩
      refine findLoop_finds sharing looks ⟨looks.reads.holds _ rfl, .inl ⟨by decide, rfl, ?_, first⟩⟩ ran
      exact (zoneOf_zero _).symm.trans (looks.reads.zoneOf 0).symm
  rw [Dir.findEntry] at ran
  split at ran
  · split at ran
    · exact findFrom ran
    · exact findFrom ran
  · exact findFrom ran

end Linux012.Fs.EntryBlocks

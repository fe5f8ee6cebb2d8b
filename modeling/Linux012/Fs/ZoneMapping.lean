import Linux012.Fs.ZoneTree

/-! `bmap` and `create_block` as a map from blocks to zones. -/

set_option autoImplicit false

namespace Linux012.Fs.ZoneTree.State

open BlockTree Bitmap Function

variable {s s' s'' : State} {create : Bool} {now r z n : Nat} {k : Fin 9} {path : List (Fin 512)} {j : Fin 512}

theorem map_eq_ok {ε α β : Type} {f : α → β} {x : Except ε α} {b : β} :
    x.map f = .ok b ↔ ∃ a, x = .ok a ∧ f a = b := by
  cases x <;> simp [Except.map]

theorem bind_eq_ok {ε α β : Type} {f : α → Except ε β} {x : Except ε α} {b : β} :
    x.bind f = .ok b ↔ ∃ a, x = .ok a ∧ f a = .ok b := by
  cases x <;> simp [Except.bind]

/-- One place of the tree may get a zone, and holds `r` afterwards. -/
structure Takes (s : State) (k : Fin 9) (path : List (Fin 512)) (r : Nat) (s' : State) : Prop where
  coherent : s'.volume.Coherent
  sharing : s'.Sharing
  value : ∀ l q, q.length ≤ depth l → s'.value l q = if l = k ∧ q = path then r else s.value l q
  kept : s.value k path ≠ 0 → r = s.value k path
  nzones : s'.volume.sb.nzones = s.volume.sb.nzones
  firstdatazone : s'.volume.sb.firstdatazone = s.volume.sb.firstdatazone
  only : ∀ b ≠ 0, s.volume.sb.firstdatazone ≤ b → b < s.volume.sb.nzones →
    marked s'.volume.sb.zmap (s.volume.sb.bitOf b) = true → marked s.volume.sb.zmap (s.volume.sb.bitOf b) = true ∨ b = r
  data : ∀ l q, q.length = depth l → s.value l q ≠ 0 →
    s'.volume.contents (s.value l q) = s.volume.contents (s.value l q)
  fresh : s.value k path = 0 → r ≠ 0 → s'.volume.contents r = 0

theorem bitOf_eq (same : s'.volume.sb.firstdatazone = s.volume.sb.firstdatazone) (b : Nat) :
    s'.volume.sb.bitOf b = s.volume.sb.bitOf b := by
  rw [SuperBlock.bitOf, SuperBlock.bitOf, same]

theorem value_congr (zone : s'.zone = s.zone)
    (agree : ∀ b ≠ 0, s'.volume.contents b = s.volume.contents b) (l : Fin 9) (q : List (Fin 512)) :
    s'.value l q = s.value l q := by
  rw [value, value, zone]
  exact walk_congr fun front _ nonzero => agree _ nonzero

theorem Takes.same (sharing : s.Sharing) (coherent : s'.volume.Coherent) (allocates : s.volume.Allocates 0 s'.volume)
    (zone : s'.zone = s.zone) (agree : ∀ b ≠ 0, s'.volume.contents b = s.volume.contents b) :
    s.Takes k path (s.value k path) s' := by
  have values (l : Fin 9) (q : List (Fin 512)) (_ : q.length ≤ depth l) := value_congr zone agree l q
  refine ⟨coherent, ⟨fun k path l path' inside inside' nonzero same => ?_, fun l q inside nonzero => ?_⟩,
    fun l q inside => ?_, fun _ => rfl, allocates.nzones, allocates.firstdatazone, fun b nonzero first last isSet => ?_,
    fun l q _ nonzero => agree _ nonzero, fun empty used => absurd empty used⟩
  · have value := values k path inside
    have value' := values l path' inside'
    exact sharing.distinct inside inside' (fun zero => nonzero (value.trans zero)) (value.symm.trans (same.trans value'))
  · rw [values l q inside] at nonzero ⊢
    rw [bitOf_eq allocates.firstdatazone]
    exact allocates.bits _ (sharing.marked l q inside nonzero)
  · rw [values l q inside]
    split
    · next here => rw [here.1, here.2]
    · rfl
  · rcases allocates.only b nonzero first last isSet with before | now
    · exact .inl before
    · exact absurd now nonzero

theorem Takes.new (sharing : s.Sharing) (coherent : s'.volume.Coherent) (allocates : s.volume.Allocates n s'.volume)
    (positive : n ≠ 0) (unused : ∀ l q, q.length ≤ depth l → s.value l q ≠ n) (empty : s.value k path = 0)
    (values : ∀ l q, q.length ≤ depth l → s'.value l q = if l = k ∧ q = path then n else s.value l q)
    (data : ∀ l q, q.length = depth l → s.value l q ≠ 0 →
      s'.volume.contents (s.value l q) = s.volume.contents (s.value l q)) (fresh : s'.volume.contents n = 0) :
    s.Takes k path n s' := by
  refine ⟨coherent, ⟨sharing.distinct.add unused values, fun l q inside nonzero => ?_⟩, values,
    fun nonzero => absurd empty nonzero, allocates.nzones, allocates.firstdatazone, allocates.only, data,
    fun _ _ => fresh⟩
  rw [values l q inside] at nonzero ⊢
  rw [bitOf_eq allocates.firstdatazone]
  split
  · exact allocates.set positive
  · next old =>
    rw [if_neg old] at nonzero
    exact allocates.bits _ (sharing.marked l q inside nonzero)

theorem unused_of_clear (sharing : s.Sharing) (clear : marked s.volume.sb.zmap (s.volume.sb.bitOf n) = false)
    (positive : n ≠ 0) (l : Fin 9) (q : List (Fin 512)) (inside : q.length ≤ depth l) : s.value l q ≠ n := by
  rintro rfl
  exact absurd ((sharing.marked l q inside positive).symm.trans clear) (by simp)

theorem takeZone_spec (coherent : s.volume.Coherent) (sharing : s.Sharing)
    (taken : s.takeZone create now k = .ok s') : s.Takes k [] (s'.zone k) s' ∧ (create = false → s' = s) := by
  rw [takeZone] at taken
  split at taken
  · next needed =>
    rw [Bool.and_eq_true, decide_eq_true_eq] at needed
    obtain ⟨isCreate, empty⟩ := needed
    refine ⟨?_, fun readOnly => absurd (isCreate.symm.trans readOnly) (by simp)⟩
    obtain ⟨⟨n, v'⟩, made, next⟩ := map_eq_ok.mp taken
    have volume : s'.volume = v' := next ▸ rfl
    have zone : s'.zone = update s.zone k n := next ▸ rfl
    rw [← volume] at made
    obtain ⟨keeps, allocates, zeros⟩ := Volume.newBlock_spec coherent made
    rw [zone, update_self]
    by_cases positive : n = 0
    · subst positive
      have same : s'.zone = s.zone := by
        rw [zone, ← empty, update_eq_self]
      have isZero : s.value k [] = 0 := empty
      have takes : s.Takes k [] (s.value k []) s' :=
        .same sharing keeps.coherent allocates same fun b nonzero => keeps.contents b nonzero
      rwa [isZero] at takes
    · have unused := unused_of_clear sharing (allocates.clear positive) positive
      exact .new sharing keeps.coherent allocates positive unused empty
        (walk_root empty unused positive zone (zeros positive) keeps.contents)
        (fun l q full _ => keeps.contents _ (unused l q (Nat.le_of_eq full))) (zeros positive)
  · next notNeeded =>
    cases taken
    exact ⟨.same sharing coherent (.none rfl) rfl fun _ _ => rfl, fun _ => rfl⟩

theorem takeEntry_contents (coherent : s.volume.Coherent) (block : z ≠ 0)
    (isSet : marked s.volume.sb.zmap (s.volume.sb.bitOf z) = true) (taken : s.takeEntry create z j = .ok (r, s')) :
    s'.zone = s.zone ∧ s'.volume.Coherent ∧ ∃ n, s.volume.Allocates n s'.volume ∧
      ((n = 0 ∧ r = s.volume.contents z j ∧ ∀ b ≠ 0, s'.volume.contents b = s.volume.contents b) ∨
        n ≠ 0 ∧ create = true ∧ r = n ∧ s.volume.contents z j = 0 ∧
        s'.volume.contents z = update (s.volume.contents z) j n ∧ s'.volume.contents n = 0 ∧
        ∀ b, b ≠ z → b ≠ n → s'.volume.contents b = s.volume.contents b) := by
  obtain ⟨read, holds, data, -, readSb⟩ := Volume.bread_spec coherent z (s.free 0)
  have readContents := Volume.contents_bread coherent z (s.free 0)
  rw [takeEntry] at taken
  dsimp only at taken
  split at taken
  · next needed =>
    rw [Bool.and_eq_true, decide_eq_true_eq, data] at needed
    obtain ⟨isCreate, empty⟩ := needed
    obtain ⟨⟨n, v⟩, made, next⟩ := map_eq_ok.mp taken
    rw [Prod.mk.injEq] at next
    obtain ⟨rfl, next⟩ := next
    obtain ⟨keeps, allocates, zeros⟩ := Volume.newBlock_spec read.coherent made
    have zone : s'.zone = s.zone := next ▸ rfl
    by_cases positive : n = 0
    · subst positive
      have holds' : v.Holds z (s.volume.bread z (s.free 0)).1 :=
        ⟨keeps.held z _ block holds.cached holds.held, holds.held, holds.uptodate⟩
      obtain ⟨release, -, -, releaseSb⟩ := Volume.brelse_spec keeps.coherent holds'
      have volume : s'.volume = v.brelse z := next ▸ rfl
      rw [volume]
      refine ⟨zone, release.coherent, 0, allocates.congr readSb releaseSb.symm, .inl ⟨rfl, empty.symm, fun b nonzero => ?_⟩⟩
      rw [Volume.contents_brelse, keeps.contents b nonzero, readContents]
    · have other : z ≠ n := by
        rintro rfl
        have clear := allocates.clear positive
        rw [readSb] at clear
        exact absurd (isSet.symm.trans clear) (by simp)
      have holds' : v.Holds z (s.volume.bread z (s.free 0)).1 :=
        ⟨keeps.held z _ other holds.cached holds.held, holds.held, holds.uptodate⟩
      obtain ⟨stores, holds'', storeSb⟩ := Volume.store_spec keeps.coherent holds' fun data => update data j n
      obtain ⟨release, -, released, releaseSb⟩ := Volume.brelse_spec stores.coherent holds''
      have volume : s'.volume = (v.store z fun data => update data j n).brelse z := by
        rw [← next]
        dsimp only
        rw [if_pos positive]
      rw [volume]
      refine ⟨zone, release.coherent, n, allocates.congr readSb (releaseSb.trans storeSb).symm,
        .inr ⟨positive, isCreate, rfl, empty, ?_, ?_, fun b notParent notNew => ?_⟩⟩
      · rw [released, data]
      · rw [release.contents n other.symm, stores.contents n other.symm, zeros positive]
      · rw [release.contents b notParent, stores.contents b notParent, keeps.contents b notNew, readContents]
  · next notNeeded =>
    rw [Except.ok.injEq, Prod.mk.injEq] at taken
    obtain ⟨rfl, next⟩ := taken
    obtain ⟨release, -, -, releaseSb⟩ := Volume.brelse_spec read.coherent holds
    have volume : s'.volume = (s.volume.bread z (s.free 0)).2.brelse z := next ▸ rfl
    have zone : s'.zone = s.zone := next ▸ rfl
    rw [volume]
    refine ⟨zone, release.coherent, 0, .none (releaseSb.trans readSb), .inl ⟨rfl, congrFun data j, fun b _ => ?_⟩⟩
    rw [Volume.contents_brelse, readContents]

theorem takeEntry_spec (coherent : s.volume.Coherent) (sharing : s.Sharing) (inner : path.length < depth k)
    (parent : s.value k path = z) (block : z ≠ 0) (taken : s.takeEntry create z j = .ok (r, s')) :
    s.Takes k (path ++ [j]) r s' ∧ (create = false → ∀ l q, s'.value l q = s.value l q) := by
  have isSet := sharing.marked k path (Nat.le_of_lt inner) (parent ▸ block)
  rw [parent] at isSet
  have entry : s.value k (path ++ [j]) = s.volume.contents z j := by
    rw [value, walk_concat path j fun zero => block (parent.symm.trans zero)]
    exact congrFun (congrArg _ parent) j
  obtain ⟨zone, coherent', n, allocates, outcome⟩ := takeEntry_contents coherent block isSet taken
  rcases outcome with ⟨rfl, rfl, contents⟩ | ⟨positive, isCreate, rfl, empty, stored, zeros, others⟩
  · have values := value_congr zone contents
    rw [← entry]
    exact ⟨.same sharing coherent' allocates zone contents, fun _ => values⟩
  · have unused := unused_of_clear sharing (allocates.clear positive) positive
    refine ⟨.new sharing coherent' allocates positive unused (entry.trans empty) (fun l q inside => ?_)
      (fun l q full nonzero => ?_) zeros, fun readOnly => absurd (isCreate.symm.trans readOnly) (by simp)⟩
    · rw [value, zone]
      exact walk_store sharing.distinct inner parent block empty positive unused stored zeros others l q inside
    · refine others _ (fun isIndex => ?_) (unused l q (Nat.le_of_eq full))
      obtain ⟨rfl, rfl⟩ := sharing.distinct (Nat.le_of_eq full) (Nat.le_of_lt inner) nonzero (isIndex.trans parent.symm)
      omega

/-- A call of `_bmap` for the block whose number stands at `path`. -/
structure Descends (s : State) (create : Bool) (k : Fin 9) (path : List (Fin 512)) (r : Nat) (s' : State) : Prop where
  coherent : s'.volume.Coherent
  sharing : s'.Sharing
  leaf : s'.value k path = r
  grows : ∀ l q, q.length ≤ depth l → s.value l q ≠ 0 → s'.value l q = s.value l q
  others : ∀ l q, q.length = depth l → ¬(l = k ∧ q = path) → s'.value l q = s.value l q
  readOnly : create = false → ∀ l q, q.length ≤ depth l → s'.value l q = s.value l q
  nzones : s'.volume.sb.nzones = s.volume.sb.nzones
  firstdatazone : s'.volume.sb.firstdatazone = s.volume.sb.firstdatazone
  reached : ∀ b ≠ 0, s.volume.sb.firstdatazone ≤ b → b < s.volume.sb.nzones →
    marked s'.volume.sb.zmap (s.volume.sb.bitOf b) = true →
    marked s.volume.sb.zmap (s.volume.sb.bitOf b) = true ∨ ∃ l q, q.length ≤ depth l ∧ s'.value l q = b
  data : ∀ l q, q.length = depth l → s.value l q ≠ 0 →
    s'.volume.contents (s.value l q) = s.volume.contents (s.value l q)
  fresh : s.value k path = 0 → r ≠ 0 → s'.volume.contents r = 0

namespace Takes

theorem grows (takes : s.Takes k path r s') (l : Fin 9) (q : List (Fin 512)) (inside : q.length ≤ depth l)
    (nonzero : s.value l q ≠ 0) : s'.value l q = s.value l q := by
  rw [takes.value l q inside]
  split
  · next here =>
    obtain ⟨rfl, rfl⟩ := here
    exact takes.kept nonzero
  · rfl

theorem self (takes : s.Takes k path r s') (inside : path.length ≤ depth k) : s'.value k path = r := by
  rw [takes.value k path inside, if_pos ⟨rfl, rfl⟩]

theorem descends (takes : s.Takes k path r s') (inside : path.length ≤ depth k) (rest : List (Fin 512))
    (last : rest = [] ∧ path.length = depth k ∨ path.length < depth k ∧ r = 0)
    (readOnly : create = false → ∀ l q, s'.value l q = s.value l q) : s.Descends create k (path ++ rest) r s' := by
  refine ⟨takes.coherent, takes.sharing, ?_, takes.grows, fun l q full other => ?_,
    fun isRead l q _ => readOnly isRead l q, takes.nzones, takes.firstdatazone, fun b nonzero first below isSet => ?_,
    takes.data, fun empty nonzero => ?_⟩
  · rcases last with ⟨rfl, -⟩ | ⟨-, rfl⟩
    · rw [List.append_nil]
      exact takes.self inside
    · exact walk_of_prefix_zero (takes.self inside) rest
  · rw [takes.value l q (Nat.le_of_eq full)]
    refine if_neg ?_
    rintro ⟨rfl, rfl⟩
    rcases last with ⟨rfl, -⟩ | ⟨shorter, -⟩
    · exact other ⟨rfl, (List.append_nil q).symm⟩
    · omega
  · exact (takes.only b nonzero first below isSet).imp_right fun same =>
      ⟨k, path, inside, (takes.self inside).trans same.symm⟩
  · rcases last with ⟨rfl, -⟩ | ⟨-, none⟩
    · rw [List.append_nil] at empty
      exact takes.fresh empty nonzero
    · exact absurd none nonzero

theorem andThen {full : List (Fin 512)} (takes : s.Takes k path r s') (inside : path.length < depth k)
    (isFull : full.length = depth k)
    (readOnly : create = false → ∀ l q, s'.value l q = s.value l q) {z : Nat}
    (descends : s'.Descends create k full z s'') : s.Descends create k full z s'' := by
  have bits := bitOf_eq takes.firstdatazone
  refine ⟨descends.coherent, descends.sharing, descends.leaf, fun l q within nonzero => ?_, fun l q isFull other => ?_,
    fun isRead l q within => (descends.readOnly isRead l q within).trans (readOnly isRead l q),
    descends.nzones.trans takes.nzones, descends.firstdatazone.trans takes.firstdatazone,
    fun b nonzero first below isSet => ?_, fun l q isFull nonzero => ?_, fun empty nonzero => descends.fresh ?_ nonzero⟩
  · have same := takes.grows l q within nonzero
    rw [descends.grows l q within (same.symm ▸ nonzero), same]
  · rw [descends.others l q isFull other, takes.value l q (Nat.le_of_eq isFull)]
    refine if_neg ?_
    rintro ⟨rfl, rfl⟩
    omega
  · rw [← bits] at isSet
    rcases descends.reached b nonzero (takes.firstdatazone ▸ first) (takes.nzones ▸ below) isSet with before | reached
    · rw [bits] at before
      refine (takes.only b nonzero first below before).imp_right fun same => ⟨k, path, Nat.le_of_lt inside, ?_⟩
      have here := (takes.self (Nat.le_of_lt inside)).trans same.symm
      rw [descends.grows k path (Nat.le_of_lt inside) (here.symm ▸ nonzero), here]
    · exact .inr reached
  · have same := takes.grows l q (Nat.le_of_eq isFull) nonzero
    have later := descends.data l q isFull (same.symm ▸ nonzero)
    rw [same] at later
    exact later.trans (takes.data l q isFull nonzero)
  · rw [takes.value k full (Nat.le_of_eq isFull), if_neg, empty]
    rintro ⟨-, rfl⟩
    omega

end Takes

theorem bmapAt_spec (coherent : s.volume.Coherent) (sharing : s.Sharing) {block : Fin blocks}
    (mapped : s.bmapAt create now block = .ok (r, s')) :
    s.Descends create (place block).1 (place block).2 r s' := by
  have same {t : State} (isSame : create = false → t = s) (isRead : create = false) (l : Fin 9) (q : List (Fin 512)) :
      t.value l q = s.value l q := by
    rw [isSame isRead]
  rw [bmapAt] at mapped
  rw [place]
  split at mapped
  · next below =>
    rw [dif_pos below]
    obtain ⟨t, taken, next⟩ := map_eq_ok.mp mapped
    rw [Prod.mk.injEq] at next
    obtain ⟨rfl, rfl⟩ := next
    obtain ⟨takes, isSame⟩ := takeZone_spec coherent sharing taken
    have leaf : depth ⟨block, by omega⟩ = 0 := by simp [depth, below]
    exact takes.descends (Nat.zero_le _) [] (.inl ⟨rfl, leaf.symm⟩) (same isSame)
  next notDirect =>
  rw [dif_neg notDirect]
  split at mapped
  · next below =>
    rw [dif_pos below]
    obtain ⟨t, taken, mapped⟩ := bind_eq_ok.mp mapped
    obtain ⟨takes, isSame⟩ := takeZone_spec coherent sharing taken
    have inner : ([] : List (Fin 512)).length < depth 7 := by decide
    split at mapped
    · next none =>
      cases mapped
      rw [none] at takes
      exact takes.descends (Nat.zero_le _) _ (.inr ⟨inner, rfl⟩) (same isSame)
    · next block' =>
      obtain ⟨takes', readOnly⟩ := takeEntry_spec takes.coherent takes.sharing inner rfl block' mapped
      exact takes.andThen inner rfl (same isSame) (takes'.descends (Nat.le_refl 1) [] (.inl ⟨rfl, rfl⟩) readOnly)
  · next notSingle =>
    rw [dif_neg notSingle]
    obtain ⟨t, taken, mapped⟩ := bind_eq_ok.mp mapped
    obtain ⟨takes, isSame⟩ := takeZone_spec coherent sharing taken
    have inner : ([] : List (Fin 512)).length < depth 8 := by decide
    split at mapped
    · next none =>
      cases mapped
      rw [none] at takes
      exact takes.descends (Nat.zero_le _) _ (.inr ⟨inner, rfl⟩) (same isSame)
    · next block' =>
      obtain ⟨⟨i, u⟩, entered, mapped⟩ := bind_eq_ok.mp mapped
      obtain ⟨takes', readOnly⟩ := takeEntry_spec takes.coherent takes.sharing inner rfl block' entered
      have inner' : ([] ++ [⟨(block - 7 - 512) / 512, double_lt block⟩] : List (Fin 512)).length < depth 8 :=
        Nat.lt_succ_self 1
      refine takes.andThen inner rfl (same isSame) ?_
      split at mapped
      · next none =>
        cases mapped
        dsimp only at none
        subst none
        exact takes'.descends (Nat.le_of_lt inner') _ (.inr ⟨inner', rfl⟩) readOnly
      · next block'' =>
        have parent := takes'.self (Nat.le_of_lt inner')
        obtain ⟨takes'', readOnly'⟩ := takeEntry_spec takes'.coherent takes'.sharing inner' parent block'' mapped
        exact takes'.andThen inner' rfl readOnly (takes''.descends (Nat.le_refl 2) [] (.inl ⟨rfl, rfl⟩) readOnly')

/-! ## The map from blocks to zones -/

def Maps (s : State) (block z : Nat) : Prop := ∃ now t, s.bmap now block = .ok (z, t)

def Reachable (s : State) (z : Nat) : Prop := ∃ k path, path.length ≤ depth k ∧ s.value k path = z

theorem bmapAt_false (s : State) (now : Nat) (block : Fin blocks) : ∃ got, s.bmapAt false now block = .ok got := by
  have taken (k : Fin 9) : s.takeZone false now k = .ok s := rfl
  have entered (s : State) (z : Nat) (j : Fin 512) : ∃ got, s.takeEntry false z j = .ok got := ⟨_, rfl⟩
  simp only [bmapAt, taken, Except.map, Except.bind]
  split
  · exact ⟨_, rfl⟩
  · split
    · split
      · exact ⟨_, rfl⟩
      · exact entered ..
    · split
      · exact ⟨_, rfl⟩
      · obtain ⟨got, isGot⟩ := entered s (s.zone 8) ⟨(block - 7 - 512) / 512, double_lt block⟩
        rw [isGot]
        dsimp only
        split
        · exact ⟨_, rfl⟩
        · exact entered ..

theorem takeEntry_of_used (coherent : s.volume.Coherent) (used : s.volume.contents z j ≠ 0) (create : Bool) :
    ∃ t, s.takeEntry create z j = .ok (s.volume.contents z j, t) := by
  obtain ⟨-, -, data, -, -⟩ := Volume.bread_spec coherent z (s.free 0)
  have idle : ¬(create && decide (s.volume.contents z j = 0)) = true := by simp [used]
  rw [takeEntry]
  simp only [data]
  rw [if_neg idle]
  exact ⟨_, rfl⟩

theorem takeEntries_of_used (coherent : s.volume.Coherent) (sharing : s.Sharing) {i j : Fin 512}
    (used : s.value 8 [i, j] ≠ 0) (create : Bool) : s.zone 8 ≠ 0 ∧ s.volume.contents (s.zone 8) i ≠ 0 ∧
      ∃ t got, s.takeEntry create (s.zone 8) i = .ok (s.volume.contents (s.zone 8) i, t) ∧
        t.takeEntry create (s.volume.contents (s.zone 8) i) j = .ok got := by
  have root : s.zone 8 ≠ 0 := by
    intro none
    have isZero : s.value 8 [i, j] = walk s.volume.contents 0 [i, j] := congrArg (walk _ · [i, j]) none
    exact used (isZero.trans (walk_zero _ _))
  have first : s.volume.contents (s.zone 8) i ≠ 0 := by
    intro none
    have index : s.value 8 [i] = 0 := (walk_cons root i []).trans none
    exact used (walk_of_prefix_zero index [j])
  obtain ⟨t, entered⟩ := takeEntry_of_used coherent first create
  have inner : ([] : List (Fin 512)).length < depth 8 := Nat.zero_lt_succ 1
  obtain ⟨takes, -⟩ := takeEntry_spec coherent sharing inner rfl root entered
  have index : t.value 8 [i] = s.volume.contents (s.zone 8) i := takes.self (Nat.le_succ 1)
  have entry : t.volume.contents (s.volume.contents (s.zone 8) i) j ≠ 0 := by
    have leaf : t.value 8 ([i] ++ [j]) = s.value 8 ([i] ++ [j]) := takes.grows 8 [i, j] (Nat.le_refl 2) used
    have last : t.value 8 ([i] ++ [j]) = t.volume.contents (t.value 8 [i]) j :=
      walk_concat [i] j fun none => first (index.symm.trans none)
    rw [index] at last
    exact fun none => used (leaf.symm.trans (last.trans none))
  obtain ⟨u, entered'⟩ := takeEntry_of_used takes.coherent entry create
  exact ⟨root, first, t, _, entered, entered'⟩

theorem bmapAt_of_used (coherent : s.volume.Coherent) (sharing : s.Sharing) {block : Fin blocks}
    (used : s.value (place block).1 (place block).2 ≠ 0) (create : Bool) (now : Nat) :
    ∃ got, s.bmapAt create now block = .ok got := by
  have taken (k : Fin 9) (root : s.zone k ≠ 0) : s.takeZone create now k = .ok s := by
    simp [takeZone, root]
  rw [place] at used
  rw [bmapAt]
  split
  · next direct =>
    rw [dif_pos direct] at used
    have root : s.zone ⟨block, by omega⟩ ≠ 0 := used
    rw [taken _ root]
    exact ⟨_, rfl⟩
  next notDirect =>
  rw [dif_neg notDirect] at used
  split
  · next single =>
    rw [dif_pos single] at used
    have root : s.zone 7 ≠ 0 := by
      intro none
      exact used ((congrArg (walk _ · _) none).trans (walk_zero _ _))
    have entry : s.volume.contents (s.zone 7) ⟨block - 7, single⟩ ≠ 0 :=
      fun none => used ((walk_cons root _ []).trans none)
    obtain ⟨t, entered⟩ := takeEntry_of_used coherent entry create
    rw [taken 7 root, Except.bind, if_neg root, entered]
    exact ⟨_, rfl⟩
  · next notSingle =>
    rw [dif_neg notSingle] at used
    obtain ⟨root, first, t, got, entered, entered'⟩ := takeEntries_of_used coherent sharing used create
    rw [taken 8 root, Except.bind, if_neg root, entered]
    dsimp only [Except.bind]
    rw [if_neg first, entered']
    exact ⟨_, rfl⟩

theorem bmapWith_of_lt {block : Nat} (inside : block < blocks) (s : State) (create : Bool) (now : Nat) :
    s.bmapWith create now block = s.bmapAt create now ⟨block, inside⟩ := by
  have notNegative : ¬(block : Int) < 0 := by omega
  have small : ¬(blocks : Int) ≤ block := by omega
  rw [bmapWith, dif_neg notNegative, dif_neg small]
  rfl

theorem maps_iff (coherent : s.volume.Coherent) (sharing : s.Sharing) {block : Nat} (inside : block < blocks) :
    s.Maps block z ↔ z = s.value (place ⟨block, inside⟩).1 (place ⟨block, inside⟩).2 := by
  have returns {now y : Nat} {t : State} (mapped : s.bmap now block = .ok (y, t)) :
      y = s.value (place ⟨block, inside⟩).1 (place ⟨block, inside⟩).2 := by
    rw [bmap, bmapWith_of_lt inside] at mapped
    have descends := bmapAt_spec coherent sharing mapped
    exact descends.leaf.symm.trans (descends.readOnly rfl _ _ (Nat.le_of_eq (length_place _)))
  constructor
  · rintro ⟨now, t, mapped⟩
    exact returns mapped
  · rintro rfl
    obtain ⟨⟨y, t⟩, mapped⟩ := s.bmapAt_false 0 ⟨block, inside⟩
    have mapped' : s.bmap 0 block = .ok (y, t) := (bmapWith_of_lt inside s false 0).trans mapped
    exact ⟨0, t, returns mapped' ▸ mapped'⟩

theorem create_block_extends_map (coherent : s.volume.Coherent) (sharing : s.Sharing) {block : Nat}
    (inside : block < blocks) (created : s.createBlock now block = .ok (z, s')) :
    (z ≠ 0 → s'.Maps block z) ∧
    (∀ j < blocks, (z ≠ 0 → j ≠ block) → ∀ y, s'.Maps j y ↔ s.Maps j y) ∧
    (∀ i < blocks, ∀ j < blocks, ∀ y ≠ 0, s'.Maps i y → s'.Maps j y → i = j) ∧
    ∀ b ≠ 0, s.volume.sb.firstdatazone ≤ b → b < s.volume.sb.nzones →
      marked s'.volume.sb.zmap (s.volume.sb.bitOf b) = true →
      marked s.volume.sb.zmap (s.volume.sb.bitOf b) = true ∨ s'.Reachable b := by
  rw [createBlock, bmapWith_of_lt inside] at created
  have descends := bmapAt_spec coherent sharing created
  refine ⟨fun _ => ?_, fun j within other y => ?_, fun i within j within' y nonzero first second => ?_, descends.reached⟩
  · exact (maps_iff descends.coherent descends.sharing inside).mpr descends.leaf.symm
  · rw [maps_iff descends.coherent descends.sharing within, maps_iff coherent sharing within]
    suffices same : s'.value (place ⟨j, within⟩).1 (place ⟨j, within⟩).2 =
        s.value (place ⟨j, within⟩).1 (place ⟨j, within⟩).2 by rw [same]
    by_cases now : j = block
    · subst now
      have failed : z = 0 := by
        by_contra found
        exact other found rfl
      by_contra changed
      have before : s.value (place ⟨j, within⟩).1 (place ⟨j, within⟩).2 ≠ 0 := fun zero =>
        changed (descends.leaf.trans (failed.trans zero.symm))
      exact changed (descends.grows _ _ (Nat.le_of_eq (length_place _)) before)
    · refine descends.others _ _ (length_place _) fun here => now ?_
      exact congrArg Fin.val (place_injective (Prod.ext here.1 here.2))
  · rw [maps_iff descends.coherent descends.sharing within] at first
    rw [maps_iff descends.coherent descends.sharing within'] at second
    have here := descends.sharing.distinct (Nat.le_of_eq (length_place _)) (Nat.le_of_eq (length_place _))
      (fun zero => nonzero (first.trans zero)) (first.symm.trans second)
    exact congrArg Fin.val (place_injective (Prod.ext here.1 here.2))

def empty : State where
  volume := { sb := (Volume.small 0 1).sb, cache := fun _ => none, disk := fun _ _ => 0 }
  zone := fun _ => 0
  dirt := false
  ctime := 0
  free := fun _ => ⟨none, fun _ => 0⟩

theorem create_block_empty : ∃ s', empty.createBlock 1 7 = .ok (0, s') ∧ s'.zone 7 = 3 ∧
    ∀ j < blocks, ∀ y, s'.Maps j y ↔ empty.Maps j y := by
  have coherent : empty.volume.Coherent := by
    intro block bh cached
    cases cached
  have values (k : Fin 9) (path : List (Fin 512)) : empty.value k path = 0 := walk_zero _ path
  have sharing : empty.Sharing :=
    ⟨fun k path l path' _ _ nonzero => absurd (values k path) nonzero,
      fun k path _ nonzero => absurd (values k path) nonzero⟩
  obtain ⟨s', created, zone⟩ : ∃ s', empty.createBlock 1 ((7 : Nat) : Int) = .ok (0, s') ∧ s'.zone 7 = 3 := ⟨_, rfl, rfl⟩
  obtain ⟨-, unchanged, -⟩ := create_block_extends_map coherent sharing (by decide) created
  exact ⟨s', created, zone, fun j within => unchanged j within fun nonzero => absurd rfl nonzero⟩

end Linux012.Fs.ZoneTree.State

import Linux012.Fs.ReadWrite

/-! Which file positions reach the panics of `_bmap`. -/

set_option autoImplicit false

namespace Linux012.Fs.ReadWrite

open Bitmap ZoneTree Transition
open ZoneTree.State (blocks place map_eq_ok bind_eq_ok)
open Descriptors (Word)
open Namei (Byte)

def limit : Nat := 1024 * blocks

theorem limit_eq : limit = 268966912 := rfl

theorem blocks_eq : blocks = 262663 := rfl

def Leads {α : Type} (r : Except Panic α) (post : α → Prop) : Prop :=
  (∀ e, r = .error e → e ≠ .bmapNegative ∧ e ≠ .bmapTooBig) ∧ ∀ a, r = .ok a → post a

namespace Leads

variable {α β : Type} {x : Except Panic α} {post : α → Prop} {post' : β → Prop}

theorem ok {a : α} (holds : post a) : Leads (.ok a) post := by
  constructor
  · rintro e ⟨⟩
  · rintro b ⟨⟩
    exact holds

theorem bind (first : Leads x post) {f : α → Except Panic β} (next : ∀ a, post a → Leads (f a) post') :
    Leads (x.bind f) post' := by
  cases x with
  | error e =>
    constructor
    · rintro e' ⟨⟩
      exact first.1 e rfl
    · rintro b ⟨⟩
  | ok a => exact next a (first.2 a rfl)

theorem map (first : Leads x post) {f : α → β} (next : ∀ a, post a → post' (f a)) : Leads (x.map f) post' := by
  cases x with
  | error e =>
    constructor
    · rintro e' ⟨⟩
      exact first.1 e rfl
    · rintro b ⟨⟩
  | ok a => exact ok (next a (first.2 a rfl))

theorem weaken {post' : α → Prop} (first : Leads x post) (weaker : ∀ a, post a → post' a) : Leads x post' :=
  ⟨first.1, fun a returned => weaker a (first.2 a returned)⟩

end Leads

/-! ## `_bmap` -/

theorem newBlock_leads {α : Type} [Zero α] (v : Volume α) (reuse : Reuse α) :
    Leads (v.newBlock reuse) fun _ => True := by
  refine ⟨fun e failed => ?_, fun _ _ => trivial⟩
  unfold Volume.newBlock Volume.clearNew at failed
  split at failed
  · cases failed
  · split at failed
    · cases failed
      simp
    · dsimp only at failed
      split at failed
      · cases failed
      · split at failed
        · cases failed
          simp
        · cases failed

theorem takeZone_leads (s : ZoneTree.State) (create : Bool) (now : Nat) (k : Fin 9) :
    Leads (s.takeZone create now k) fun _ => True := by
  rw [ZoneTree.State.takeZone]
  split
  · exact (newBlock_leads ..).map fun _ _ => trivial
  · exact .ok trivial

theorem takeEntry_leads (s : ZoneTree.State) (create : Bool) (z : Nat) (j : Fin 512) :
    Leads (s.takeEntry create z j) fun _ => True := by
  rw [ZoneTree.State.takeEntry]
  dsimp only
  split
  · exact (newBlock_leads ..).map fun _ _ => trivial
  · exact .ok trivial

theorem descend_leads (bad : Nat → Bool) (create : Bool) (path : List (Fin 512)) (z : Nat) (s : ZoneTree.State) :
    Leads (State.descend bad create path z s) fun _ => True := by
  induction path generalizing z s with
  | nil => exact .ok trivial
  | cons j path ih =>
    rw [State.descend]
    split
    · exact .ok trivial
    · split
      · exact .ok trivial
      · exact (takeEntry_leads s create z j).bind fun got _ => ih got.1 got.2

theorem toInt_eq_toNat {pos : Word} (small : pos.toNat < 2 ^ 31) : pos.toInt = pos.toNat := by
  rw [BitVec.toInt_eq_toNat_cond, if_pos (by omega)]

theorem nonneg_iff {pos : Word} : 0 ≤ pos.toInt ↔ pos.toNat < 2 ^ 31 := by
  have bound := pos.isLt
  rw [BitVec.toInt_eq_toNat_cond]
  split <;> omega

theorem div_eq {pos : Word} (small : pos.toNat < 2 ^ 31) : pos.toInt.tdiv BLOCK_SIZE = ((pos.toNat / 1024 : Nat) : Int) := by
  rw [toInt_eq_toNat small]
  rfl

theorem mod_eq {pos : Word} (small : pos.toNat < 2 ^ 31) : pos.toInt.tmod BLOCK_SIZE = ((pos.toNat % 1024 : Nat) : Int) := by
  rw [toInt_eq_toNat small]
  rfl

theorem mapBlock_leads {pos : Word} (inside : pos.toNat < limit) (bad : Nat → Bool) (create : Bool) (now : Nat)
    (s : ZoneTree.State) : Leads (State.mapBlock bad create now (pos.toInt.tdiv BLOCK_SIZE) s) fun _ => True := by
  have bound := limit_eq
  have number := blocks_eq
  rw [div_eq (by omega), State.mapBlock, dif_neg (by omega), dif_neg (by omega)]
  exact (takeZone_leads ..).bind fun _ _ => descend_leads ..

theorem mapBlock_of_beyond {pos : Word} (beyond : limit ≤ pos.toNat) (small : pos.toNat < 2 ^ 31) (bad : Nat → Bool)
    (create : Bool) (now : Nat) (s : ZoneTree.State) :
    State.mapBlock bad create now (pos.toInt.tdiv BLOCK_SIZE) s = .error .bmapTooBig := by
  have bound := limit_eq
  have number := blocks_eq
  rw [div_eq small, State.mapBlock, dif_neg (by omega), dif_pos (by omega)]

theorem fails_never (s : ZoneTree.State) (z : Nat) : State.fails (fun _ => false) s z = false := rfl

theorem bind_ok {ε α β : Type} (x : Except ε (α × β)) : (x.bind fun got => .ok (got.1, got.2)) = x := by
  cases x <;> rfl

theorem descend_place (create : Bool) (now : Nat) (block : Fin blocks) (s : ZoneTree.State) :
    ((s.takeZone create now (place block).1).bind fun t =>
      State.descend (fun _ => false) create (place block).2 (t.zone (place block).1) t) = s.bmapAt create now block := by
  unfold place ZoneTree.State.bmapAt
  split
  · cases s.takeZone create now _ <;> rfl
  · split
    · simp only [State.descend, fails_never, Bool.false_eq_true, ↓reduceIte, bind_ok]
    · simp only [State.descend, fails_never, Bool.false_eq_true, ↓reduceIte, bind_ok]

theorem mapBlock_eq (create : Bool) (now : Nat) (block : Int) (s : ZoneTree.State) :
    State.mapBlock (fun _ => false) create now block s = s.bmapWith create now block := by
  rw [State.mapBlock, ZoneTree.State.bmapWith]
  split
  · rfl
  · split
    · rfl
    · exact descend_place create now _ s

/-! ## The calls -/

structure State.Regular (s : State) : Prop where
  size : s.size.toNat ≤ limit
  pos : ∀ f, 0 ≤ (s.file f).pos.toInt

variable {s : State} {f : Nat} {pos : Word} {left count i : Nat} {buf : Nat → Byte}

theorem toNat_advance (pos : Word) (c : Nat) (fits : pos.toNat + c ≤ limit) :
    (pos + BitVec.ofNat 32 c).toNat = pos.toNat + c := by
  have bound := limit_eq
  rw [BitVec.toNat_add, BitVec.toNat_ofNat, Nat.mod_eq_of_lt (a := c) (by omega), Nat.mod_eq_of_lt (by omega)]

@[simp] theorem pos_setPos_self (s : State) (f : Nat) (pos : Word) : ((s.setPos f pos).file f).pos = pos := by
  simp [State.setPos]

theorem file_setPos_of_ne (s : State) {f g : Nat} (other : g ≠ f) (pos : Word) : (s.setPos f pos).file g = s.file g :=
  Function.update_of_ne other ..

theorem State.Regular.setPos (regular : s.Regular) (f : Nat) (nonneg : 0 ≤ pos.toInt) : (s.setPos f pos).Regular := by
  refine ⟨regular.size, fun g => ?_⟩
  by_cases same : g = f
  · subst same
    rw [pos_setPos_self]
    exact nonneg
  · rw [file_setPos_of_ne s same]
    exact regular.pos g

theorem readLoop_leads (regular : s.Regular) (inside : (s.file f).pos.toNat + left ≤ limit) (out : List Byte)
    (rounds : Nat) : Leads (State.readLoop f rounds left out s) fun got => got.2.2.Regular := by
  induction rounds generalizing left out s with
  | zero => exact .ok regular
  | succ rounds ih =>
    have bound := limit_eq
    rw [State.readLoop]
    split
    · exact .ok regular
    · next more =>
      dsimp only
      refine (mapBlock_leads (by omega) ..).bind fun got _ => ?_
      rw [mod_eq (by omega)]
      generalize isChars : min (BLOCK_SIZE - (((s.file f).pos.toNat % 1024 : Nat) : Int)).toNat left = chars
      have fits : chars ≤ left := isChars ▸ Nat.min_le_right ..
      have next := toNat_advance (s.file f).pos chars (by omega)
      have moved {t : State} (isRegular : t.Regular) :
          (t.setPos f ((s.file f).pos + BitVec.ofNat 32 chars)).Regular :=
        isRegular.setPos f (nonneg_iff.mpr (by omega))
      have here (t : State) : (((t.setPos f ((s.file f).pos + BitVec.ofNat 32 chars)).file f).pos).toNat +
          (left - chars) ≤ limit := by
        rw [pos_setPos_self, next]
        omega
      have read : State.Regular { s with toState := got.2 } := ⟨regular.size, regular.pos⟩
      split
      · exact ih (moved read) (here { s with toState := got.2 }) _
      · split
        · exact .ok ⟨read.size, read.pos⟩
        · have held : (State.bread { s with toState := got.2 } got.1).Regular := ⟨read.size, read.pos⟩
          have released {t : State} (isRegular : t.Regular) : (t.brelse got.1).Regular :=
            ⟨isRegular.size, isRegular.pos⟩
          exact ih (released (moved held)) (here (State.bread { s with toState := got.2 } got.1)) _

theorem sysLseek_regular (regular : s.Regular) (fd offset origin : Word) : (s.sysLseek fd offset origin).2.Regular := by
  unfold State.sysLseek
  split
  · exact regular
  · split
    · split
      · exact regular
      · split
        · exact regular
        · next nonneg => exact regular.setPos _ (Int.not_lt.mp nonneg)
    · exact regular

theorem sysRead_leads (regular : s.Regular) (fd count : Word) (now : Nat) :
    Leads (s.sysRead fd count now) fun got => got.2.2.Regular := by
  unfold State.sysRead
  split
  · exact .ok regular
  · next f isFile =>
    split
    · exact .ok regular
    · next counted =>
      split
      · exact .ok regular
      · dsimp only
        generalize isRest : (if s.size < count + (s.file f).pos then s.size - (s.file f).pos else count) = rest
        split
        · exact .ok regular
        · next positive =>
          have bound := limit_eq
          have size := regular.size
          have here := nonneg_iff.mp (regular.pos f)
          have asked := nonneg_iff.mp (Int.not_lt.mp counted)
          have small := nonneg_iff.mp (show 0 ≤ rest.toInt by omega)
          -- the sum of two numbers below `2^31` does not wrap around
          have inside : (s.file f).pos.toNat + rest.toNat ≤ s.size.toNat := by
            split at isRest
            · subst isRest
              rw [BitVec.toNat_sub] at small ⊢
              omega
            · next fits =>
              subst isRest
              rw [BitVec.lt_def, BitVec.toNat_add] at fits
              omega
          exact (readLoop_leads regular (by omega) [] _).map fun got after => ⟨after.size, after.pos⟩

theorem writeLoop_leads (size : s.size.toNat ≤ limit) (inside : pos.toNat + (count - i) ≤ limit) (now rounds : Nat) :
    Leads (State.writeLoop count buf now rounds pos i s) fun got =>
      got.1.toNat ≤ limit ∧ got.2.2.size.toNat ≤ limit ∧ got.2.2.file = s.file := by
  have here : pos.toNat ≤ limit := by omega
  induction rounds generalizing pos i s with
  | zero => exact .ok ⟨here, size, rfl⟩
  | succ rounds ih =>
    have bound := limit_eq
    rw [State.writeLoop]
    split
    · next more =>
      refine (mapBlock_leads (by omega) ..).bind fun got _ => ?_
      dsimp only
      split
      · exact .ok ⟨here, size, rfl⟩
      · split
        · exact .ok ⟨here, size, rfl⟩
        · rw [mod_eq (by omega)]
          generalize isC : min (BLOCK_SIZE - ((pos.toNat % 1024 : Nat) : Int)).toNat (count - i) = c
          have fits : c ≤ count - i := isC ▸ Nat.min_le_right ..
          have next := toNat_advance pos c (by omega)
          generalize pos + BitVec.ofNat 32 c = pos' at next
          have grown (t : State) (before : t.size.toNat ≤ limit) : (t.grow pos').size.toNat ≤ limit := by
            unfold State.grow
            split
            · exact Nat.le_trans (Nat.le_of_eq next) (by omega)
            · exact before
          have files (t : State) : (t.grow pos').file = t.file := by
            unfold State.grow
            split <;> rfl
          generalize isNext : State.bread { s with toState := got.2 } got.1 = t
          have same : t.file = s.file := by
            subst isNext
            rfl
          have sized : t.size.toNat ≤ limit := by
            subst isNext
            exact size
          refine (ih (s := ((t.grow pos').store got.1 _).brelse got.1) (grown t sized) (by omega) (by omega)).weaken
            fun got' after => ⟨after.1, after.2.1, ?_⟩
          exact after.2.2.trans ((files t).trans same)
    · exact .ok ⟨here, size, rfl⟩

def State.Within (s : State) : Call → Prop
  | .write fd count _ _ =>
    ∀ f, s.fileOf fd = some f → 0 < count.toInt → (s.start f).toNat + count.toNat ≤ limit
  | _ => True

theorem sysWrite_leads (regular : s.Regular) {fd count : Word} {now : Nat} (within : s.Within (.write fd count buf now)) :
    Leads (s.sysWrite fd count buf now) fun got => got.2.Regular := by
  unfold State.sysWrite
  split
  · exact .ok regular
  · next f isFile =>
    split
    · exact .ok regular
    · next nonneg =>
      split
      · exact .ok regular
      · next nonzero =>
        have positive : 0 < count.toInt := by
          have other : count.toInt ≠ 0 := fun zero => nonzero (BitVec.eq_of_toInt_eq zero)
          omega
        have bound := limit_eq
        refine (writeLoop_leads regular.size (within f isFile positive) now _).map fun got after => ?_
        obtain ⟨here, size, files⟩ := after
        have next : State.Regular { got.2.2 with mtime := now } := ⟨size, files.symm ▸ regular.pos⟩
        dsimp only
        split
        · exact next
        · have after := next.setPos f (nonneg_iff.mpr (by omega : got.1.toNat < 2 ^ 31))
          exact ⟨after.size, after.pos⟩

theorem call_leads (regular : s.Regular) {c : Call} (within : s.Within c) : Leads (s.call c) State.Regular := by
  cases c with
  | lseek fd offset origin => exact .ok (sysLseek_regular regular fd offset origin)
  | read fd count now => exact (sysRead_leads regular fd count now).map fun _ after => after
  | write fd count buf now => exact (sysWrite_leads regular within).map fun _ after => after

def Good (r : Except Panic State) : Prop := Leads r State.Regular

def Within : Except Panic State → Call → Prop
  | .ok s, c => s.Within c
  | .error _, _ => True

/-- As long as no write goes beyond the last block of an inode, no position reaches a panic
of `_bmap`. -/
theorem positions_never_panic (regular : s.Regular) {t : Except Panic State} (reached : Run step Within (.ok s) t) :
    t ≠ .error .bmapNegative ∧ t ≠ .error .bmapTooBig := by
  have good : Good t := by
    refine reached.invariant (P := Good) (fun {r c r'} holds within moved => ?_) (.ok regular)
    cases r with
    | error e => cases moved
    | ok r =>
      cases moved
      exact call_leads (holds.2 r rfl) within
  exact ⟨fun failed => (good.1 _ failed).1 rfl, fun failed => (good.1 _ failed).2 rfl⟩

/-! ## Beyond the limit -/

theorem writeLoop_short {now rounds : Nat} (small : pos.toNat < 2 ^ 31) (more : i < count) (enough : count - i ≤ rounds)
    (beyond : limit < pos.toNat + (count - i)) {got : Word × Nat × State}
    (returned : State.writeLoop count buf now rounds pos i s = .ok got) :
    i ≤ got.2.1 ∧ pos.toNat + (got.2.1 - i) < limit := by
  induction rounds generalizing pos i s with
  | zero => omega
  | succ rounds ih =>
    have bound := limit_eq
    rw [State.writeLoop, if_pos more] at returned
    obtain ⟨⟨block, t⟩, mapped, returned⟩ := bind_eq_ok.mp returned
    have inside : pos.toNat < limit := by
      by_contra outside
      rw [mapBlock_of_beyond (by omega) small] at mapped
      cases mapped
    have here : i ≤ i ∧ pos.toNat + (i - i) < limit := ⟨Nat.le_refl i, by omega⟩
    dsimp only at returned
    split at returned
    · cases returned
      exact here
    · split at returned
      · cases returned
        exact here
      · rw [mod_eq small] at returned
        generalize isC : min (BLOCK_SIZE - ((pos.toNat % 1024 : Nat) : Int)).toNat (count - i) = c at returned
        have size : BLOCK_SIZE = 1024 := rfl
        -- the bytes up to the end of the block are below the limit
        have rest : pos.toNat + c ≤ limit := by omega
        have next := toNat_advance _ _ rest
        obtain ⟨later, short⟩ := ih (by omega) (by omega) (by omega) (by omega) returned
        omega

theorem State.Regular.start (regular : s.Regular) (f : Nat) : (s.start f).toNat < 2 ^ 31 := by
  have bound := limit_eq
  have size := regular.size
  rw [State.start]
  split
  · omega
  · exact nonneg_iff.mp (regular.pos f)

theorem sysWrite_of_positive {fd count : Word} (isFile : s.fileOf fd = some f) (positive : 0 < count.toInt) (now : Nat) :
    s.sysWrite fd count buf now = s.fileWrite f count buf now := by
  have nonzero : count ≠ 0 := by
    rintro rfl
    cases positive
  rw [State.sysWrite, isFile]
  dsimp only
  rw [if_neg (Int.not_lt.mpr (Int.le_of_lt positive)), if_neg nonzero]

theorem write_beyond (regular : s.Regular) {fd count : Word} (isFile : s.fileOf fd = some f) (positive : 0 < count.toInt)
    (beyond : limit < (s.start f).toNat + count.toNat) (now : Nat) :
    (limit ≤ (s.start f).toNat → s.sysWrite fd count buf now = .error .bmapTooBig) ∧
      ∀ got, s.sysWrite fd count buf now = .ok got → (s.start f).toNat + got.1.toInt < limit := by
  have small := regular.start f
  have counted := nonneg_iff.mp (Int.le_of_lt positive)
  have more : 0 < count.toNat := by
    rw [toInt_eq_toNat counted] at positive
    omega
  rw [sysWrite_of_positive isFile positive, State.fileWrite]
  constructor
  · intro outside
    obtain ⟨rounds, isCount⟩ := Nat.exists_eq_succ_of_ne_zero (Nat.ne_of_gt more)
    have failed : State.writeLoop count.toNat buf now count.toNat (s.start f) 0 s = .error .bmapTooBig := by
      rw [isCount, State.writeLoop, if_pos (Nat.succ_pos _), mapBlock_of_beyond outside small]
      rfl
    rw [failed]
    rfl
  · intro got returned
    obtain ⟨after, ran, rfl⟩ := map_eq_ok.mp returned
    obtain ⟨-, short⟩ := writeLoop_short small more (Nat.le_refl _) beyond ran
    have bound := limit_eq
    dsimp only
    split
    · rw [toInt_eq_toNat (by rw [BitVec.toNat_ofNat]; omega), BitVec.toNat_ofNat]
      omega
    · have minus : (-1 : Word).toInt = -1 := rfl
      rw [minus]
      omega

def opened : State where
  toState := ZoneTree.State.empty
  dev := 0x301
  size := 0
  atime := 0
  mtime := 0
  file := fun _ => ⟨0, 0⟩
  filp := fun fd => if fd = 0 then some 0 else none
  bad := fun _ => false

theorem opened_regular : opened.Regular := ⟨Nat.zero_le _, fun _ => Int.le_refl 0⟩

theorem write_beyond_opened :
    (limit ≤ (opened.start 0).toNat → opened.sysWrite 0 0x7fffffff (fun _ => 65) 1 = .error .bmapTooBig) ∧
      ∀ got, opened.sysWrite 0 0x7fffffff (fun _ => 65) 1 = .ok got → (opened.start 0).toNat + got.1.toInt < limit :=
  write_beyond opened_regular rfl (by decide) (by decide) 1

theorem write_last_byte : ∃ t,
    run step (.ok opened) [.lseek 0 268966911 0, .write 0 1 (fun _ => 65) 1] = some t ∧
      t ≠ .error .bmapNegative ∧ t ≠ .error .bmapTooBig := by
  obtain ⟨s, moved, isFile, start⟩ : ∃ s, step (.ok opened) (.lseek 0 268966911 0) = some (.ok s) ∧
      s.fileOf 0 = some 0 ∧ s.start 0 = 268966911 := ⟨_, rfl, rfl, rfl⟩
  have seeks : Within (.ok opened) (.lseek 0 268966911 0) := trivial
  have within : Within (.ok s) (.write 0 1 (fun _ => 65) 1) := by
    intro f isFile' _
    obtain rfl := Option.some.inj (isFile.symm.trans isFile')
    rw [start]
    exact Nat.le_refl limit
  have reached : Run step Within (.ok opened) (s.call (.write 0 1 (fun _ => 65) 1)) :=
    .move (.move .start seeks moved) within rfl
  refine ⟨_, ?_, positions_never_panic opened_regular reached⟩
  rw [run, moved]
  rfl

theorem write_behind_last_block : ¬∀ (s : State), s.Regular → ∀ t, Reachable step (.ok s) t →
    t ≠ .error .bmapNegative ∧ t ≠ .error .bmapTooBig := by
  intro never
  have ran : run step (.ok opened) [.lseek 0 268966912 0, .write 0 1 (fun _ => 65) 1] = some (.error .bmapTooBig) := rfl
  exact (never opened opened_regular _ (reachable_of_run ran)).2 rfl

end Linux012.Fs.ReadWrite

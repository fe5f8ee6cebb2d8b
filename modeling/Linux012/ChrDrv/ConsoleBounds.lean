import Linux012.ChrDrv.Console
import Mathlib.Tactic.Ring

/-! The console driver stores to its own video memory only, whatever is written to it,
if the BIOS has left the cursor on the screen. -/

set_option autoImplicit false

namespace Linux012.ChrDrv

open BlockStores Transition

theorem add32_eq {a b : Nat} (fits : a + b < 2 ^ 32) : add32 a b = a + b := Nat.mod_eq_of_lt fits

theorem sub32_eq {a b : Nat} (le : b ≤ a) (fits : a < 2 ^ 32) : sub32 a b = a - b := by
  unfold sub32
  omega

namespace Console

/-- The cursor, the screen and the scrolling region are where they should be, and all
stores were inside the memory of the console. -/
structure Sound (v : Display) (s : Console) : Prop where
  x : s.x ≤ v.numColumns
  y : s.y < v.numLines
  pos : s.pos = s.origin + s.y * v.sizeRow + 2 * s.x
  scrEnd : s.scrEnd = s.origin + v.numLines * v.sizeRow
  start : s.videoMemStart ≤ s.origin
  last : s.scrEnd ≤ s.videoMemEnd
  region : s.top < s.bottom
  bottom : s.bottom ≤ v.numLines
  npar : s.npar < NPAR
  stores : s.ram.Within s.videoMemStart s.videoMemEnd

structure Good (v : Display) (s : Console) : Prop extends s.Sound v where
  columns : 8 ≤ v.numColumns
  room : s.videoMemStart + v.numLines * v.sizeRow ≤ s.videoMemEnd
  limit : s.videoMemEnd + v.sizeRow < 2 ^ 32

def geometry (s : Console) :=
  (s.x, s.y, s.pos, s.origin, s.scrEnd, s.top, s.bottom, s.npar, s.videoMemStart, s.videoMemEnd, s.ram)

variable {v : Display} {s s' : Console}

theorem Good.congr (good : s.Good v) (same : s'.geometry = s.geometry) : s'.Good v := by
  simp only [geometry, Prod.mk.injEq] at same
  obtain ⟨x, y, pos, origin, scrEnd, top, bottom, npar, first, last, ram⟩ := same
  exact
    { x := by rw [x]; exact good.x
      y := by rw [y]; exact good.y
      pos := by rw [pos, origin, y, x]; exact good.pos
      scrEnd := by rw [scrEnd, origin]; exact good.scrEnd
      start := by rw [first, origin]; exact good.start
      last := by rw [scrEnd, last]; exact good.last
      region := by rw [top, bottom]; exact good.region
      bottom := by rw [bottom]; exact good.bottom
      npar := by rw [npar]; exact good.npar
      stores := by rw [ram, first, last]; exact good.stores
      columns := good.columns
      room := by rw [first, last]; exact good.room
      limit := by rw [last]; exact good.limit }

theorem Good.ite {p : Prop} [Decidable p] {t : Console} (yes : p → s.Good v) (no : ¬p → t.Good v) :
    (if p then s else t).Good v := by
  split
  · next holds => exact yes holds
  · next fails => exact no fails

variable {ram : Ram}

theorem Good.setRam (good : s.Good v) (within : ram.Within s.videoMemStart s.videoMemEnd) :
    { s with ram := ram }.Good v :=
  { good with stores := within }

theorem Good.setCursor (good : s.Good v) {x y pos : Nat} (column : x ≤ v.numColumns) (line : y < v.numLines)
    (isPos : pos = s.origin + y * v.sizeRow + 2 * x) : { s with x := x, y := y, pos := pos }.Good v :=
  { good with x := column, y := line, pos := isPos }

theorem Good.setRegion_ (good : s.Good v) {top bottom : Nat} (region : top < bottom)
    (inside : bottom ≤ v.numLines) : { s with top := top, bottom := bottom }.Good v :=
  { good with region := region, bottom := inside }

theorem Good.iterate (good : s.Good v) {f : Console → Console} (keeps : ∀ {s : Console}, s.Good v → (f s).Good v)
    (n : Nat) : (f^[n] s).Good v := by
  induction n generalizing s with
  | zero => exact good
  | succ n ih => exact ih (keeps good)

/-! ## The screen -/

theorem row_le {i n : Nat} (below : i < n) (row : Nat) : i * row + row ≤ n * row := by
  rw [← Nat.succ_mul]
  exact Nat.mul_le_mul_right row below

theorem Good.row (good : s.Good v) : s.origin + s.y * v.sizeRow + v.sizeRow ≤ s.scrEnd := by
  have line := row_le good.y v.sizeRow
  have scrEnd := good.scrEnd
  omega

theorem Good.column (good : s.Good v) : s.pos + 2 * (v.numColumns - s.x) = s.origin + s.y * v.sizeRow + v.sizeRow := by
  have pos := good.pos
  have x := good.x
  have row : v.sizeRow = v.numColumns * 2 := rfl
  omega

theorem Good.pos_le (good : s.Good v) : s.pos ≤ s.scrEnd := by
  have row := good.row
  have column := good.column
  omega

theorem Good.origin_le (good : s.Good v) : s.origin ≤ s.pos := by
  have pos := good.pos
  omega

theorem Good.lines (good : s.Good v) :
    ∃ n, n = s.bottom - s.top - 1 ∧ v.sizeRow * s.bottom = v.sizeRow * s.top + v.sizeRow * n + v.sizeRow ∧
      4 * (n * v.numColumns / 2) ≤ v.sizeRow * n ∧ s.origin + v.sizeRow * s.bottom ≤ s.scrEnd := by
  refine ⟨s.bottom - s.top - 1, rfl, ?_, ?_, ?_⟩
  · have region := good.region
    have split : s.bottom = s.top + (s.bottom - s.top - 1) + 1 := by omega
    calc v.sizeRow * s.bottom = v.sizeRow * (s.top + (s.bottom - s.top - 1) + 1) := by rw [← split]
      _ = _ := by ring
  · have row : v.sizeRow * (s.bottom - s.top - 1) = 2 * ((s.bottom - s.top - 1) * v.numColumns) := by
      rw [Display.sizeRow]
      ring
    omega
  · have inside := Nat.mul_le_mul_left v.sizeRow good.bottom
    have scrEnd := good.scrEnd
    rw [Nat.mul_comm v.numLines] at scrEnd
    omega

theorem Good.shiftUp (good : s.Good v) : (s.shiftUp v).Good v := by
  obtain ⟨n, isLines, whole, moved, inside⟩ := good.lines
  have start := good.start
  have last := good.last
  have row : v.sizeRow = v.numColumns * 2 := rfl
  unfold Console.shiftUp
  rw [← isLines]
  refine good.setRam (Ram.Within.stosw (Ram.Within.movsl good.stores ?_ ?_) _ ?_ ?_)
  · omega
  · omega
  · omega
  · omega

theorem Good.scrdown (good : s.Good v) : (s.scrdown v).Good v := by
  obtain ⟨n, isLines, whole, moved, inside⟩ := good.lines
  have start := good.start
  have last := good.last
  have columns := good.columns
  have row : v.sizeRow = v.numColumns * 2 := rfl
  unfold Console.scrdown
  rw [← isLines]
  refine .ite (fun _ => good) fun _ => good.setRam (Ram.Within.stoswDown (Ram.Within.movslDown good.stores ?_ ?_) _ ?_ ?_)
  · omega
  · omega
  · omega
  · omega

theorem Good.scrup (good : s.Good v) : (s.scrup v).Good v := by
  have row : v.sizeRow = v.numColumns * 2 := rfl
  have start := good.start
  have last := good.last
  have room := good.room
  have limit := good.limit
  have pos := good.pos
  have line := good.row
  have column := good.column
  have scrEnd := good.scrEnd
  have lines : 1 ≤ v.numLines := Nat.lt_of_le_of_lt (Nat.zero_le _) good.y
  have screen : (v.numLines - 1) * v.sizeRow + v.sizeRow = v.numLines * v.sizeRow := by
    rw [← Nat.succ_mul, Nat.succ_eq_add_one, Nat.sub_add_cancel lines]
  have copied : 4 * ((v.numLines - 1) * v.numColumns / 2) ≤ (v.numLines - 1) * v.sizeRow := by
    have same : (v.numLines - 1) * v.sizeRow = 2 * ((v.numLines - 1) * v.numColumns) := by
      rw [Display.sizeRow]
      ring
    omega
  unfold Console.scrup
  refine .ite (fun _ => good) fun _ => .ite (fun whole => ?_) fun _ => good.shiftUp
  rw [add32_eq (by omega)]
  refine .ite (fun full => ?_) fun fits => ?_
  · refine { good with pos := ?_, scrEnd := ?_, start := Nat.le_refl _, last := ?_, stores := ?_ }
    · show sub32 (s.pos + v.sizeRow) (s.origin + v.sizeRow - s.videoMemStart) =
        s.videoMemStart + s.y * v.sizeRow + 2 * s.x
      rw [sub32_eq (by omega) (by omega)]
      omega
    · show s.scrEnd + v.sizeRow - (s.origin + v.sizeRow - s.videoMemStart) = s.videoMemStart + v.numLines * v.sizeRow
      omega
    · show s.scrEnd + v.sizeRow - (s.origin + v.sizeRow - s.videoMemStart) ≤ s.videoMemEnd
      omega
    · refine Ram.Within.stosw (Ram.Within.movsl good.stores ?_ ?_) _ ?_ ?_
      · exact Nat.le_refl _
      · omega
      · omega
      · omega
  · refine { good with pos := ?_, scrEnd := ?_, start := ?_, last := ?_, stores := ?_ }
    · show s.pos + v.sizeRow = s.origin + v.sizeRow + s.y * v.sizeRow + 2 * s.x
      omega
    · show s.scrEnd + v.sizeRow = s.origin + v.sizeRow + v.numLines * v.sizeRow
      omega
    · show s.videoMemStart ≤ s.origin + v.sizeRow
      omega
    · show s.scrEnd + v.sizeRow ≤ s.videoMemEnd
      omega
    · refine Ram.Within.stosw good.stores _ ?_ ?_
      · omega
      · omega

/-! ## The cursor -/

theorem Good.gotoxy (good : s.Good v) (newX newY : Nat) : (s.gotoxy v newX newY).Good v := by
  have start := good.start
  have last := good.last
  have limit := good.limit
  have scrEnd := good.scrEnd
  have row : v.sizeRow = v.numColumns * 2 := rfl
  unfold Console.gotoxy
  refine .ite (fun _ => good) fun inside => ?_
  rw [not_or, Nat.not_lt, Nat.not_le] at inside
  have line := row_le inside.2 v.sizeRow
  rw [add32_eq (by omega)]
  exact good.setCursor inside.1 inside.2 (by omega)

theorem Good.line (good : s.Good v) : s.y < 2 ^ 32 - 1 := by
  have line := good.row
  have last := good.last
  have limit := good.limit
  have columns := good.columns
  have row : v.sizeRow = v.numColumns * 2 := rfl
  have some_ : s.y ≤ s.y * v.sizeRow := Nat.le_mul_of_pos_right _ (by omega)
  omega

theorem Good.lf (good : s.Good v) : (s.lf v).Good v := by
  have line := good.line
  have below := good.row
  have column := good.column
  have last := good.last
  have limit := good.limit
  have pos := good.pos
  have bottom := good.bottom
  unfold Console.lf
  rw [add32_eq (by omega), add32_eq (by omega)]
  refine .ite (fun inside => ?_) fun _ => good.scrup
  refine good.setCursor good.x (by omega) ?_
  rw [Nat.succ_mul]
  omega

theorem lf_x : (s.lf v).x = s.x := by
  unfold Console.lf Console.scrup Console.shiftUp
  simp only [apply_ite Console.x, ite_self]

theorem Good.ri (good : s.Good v) : (s.ri v).Good v := by
  have last := good.last
  have limit := good.limit
  have pos_le := good.pos_le
  have pos := good.pos
  have y := good.y
  unfold Console.ri
  refine .ite (fun above => ?_) fun _ => good.scrdown
  have split : s.y * v.sizeRow = (s.y - 1) * v.sizeRow + v.sizeRow := by
    rw [← Nat.succ_mul, Nat.succ_eq_add_one, Nat.sub_add_cancel (by omega)]
  rw [sub32_eq (by omega) (by omega)]
  exact good.setCursor good.x (by omega) (by omega)

theorem Good.cr (good : s.Good v) : s.cr.Good v := by
  have last := good.last
  have limit := good.limit
  have pos_le := good.pos_le
  have pos := good.pos
  unfold Console.cr
  rw [sub32_eq (by omega) (by omega)]
  exact good.setCursor (Nat.zero_le _) good.y (by omega)

theorem Good.back (good : s.Good v) (some_ : s.x ≠ 0) : s.back.Good v := by
  have last := good.last
  have limit := good.limit
  have pos_le := good.pos_le
  have pos := good.pos
  have x := good.x
  unfold Console.back
  rw [sub32_eq (by omega) (by omega)]
  exact good.setCursor (by omega) good.y (by omega)

theorem Good.store (good : s.Good v) (inside : s.x < v.numColumns) (w : UInt16) :
    (s.ram.putWord s.pos w).Within s.videoMemStart s.videoMemEnd := by
  have start := good.start
  have last := good.last
  have column := good.column
  have row := good.row
  have origin := good.origin_le
  exact good.stores.putWord w (by omega) (by omega)

theorem Good.del (good : s.Good v) : s.del.Good v := by
  unfold Console.del
  refine .ite (fun _ => good) fun some_ => ?_
  have x := good.x
  have inside : s.back.x < v.numColumns := by
    show s.x - 1 < v.numColumns
    omega
  exact (good.back some_).setRam ((good.back some_).store inside _)

/-! ## Erasing, inserting and deleting -/

theorem Good.erase (good : s.Good v) {start count : Nat} (above : s.origin ≤ start)
    (below : start + 2 * count ≤ s.scrEnd) : (s.erase start count).Good v := by
  have first := good.start
  have last := good.last
  exact good.setRam (good.stores.stosw _ (by omega) (by omega))

theorem Good.csiJ (good : s.Good v) (vpar : Nat) : (s.csiJ v vpar).Good v := by
  have last := good.last
  have limit := good.limit
  have pos_le := good.pos_le
  have origin_le := good.origin_le
  unfold Console.csiJ
  split
  · rw [sub32_eq pos_le (by omega)]
    exact good.erase origin_le (by omega)
  · rw [sub32_eq origin_le (by omega)]
    exact good.erase (Nat.le_refl _) (by omega)
  · have scrEnd := good.scrEnd
    have screen : v.numLines * v.sizeRow = 2 * (v.numColumns * v.numLines) := by
      rw [Display.sizeRow]
      ring
    exact good.erase (Nat.le_refl _) (by omega)
  · exact good

theorem Good.csiK (good : s.Good v) (vpar : Nat) : (s.csiK v vpar).Good v := by
  have last := good.last
  have limit := good.limit
  have pos_le := good.pos_le
  have pos := good.pos
  have column := good.column
  have row := good.row
  have x := good.x
  have startOfLine : sub32 s.pos (s.x * 2) = s.origin + s.y * v.sizeRow := by
    rw [sub32_eq (by omega) (by omega)]
    omega
  have isRow : v.sizeRow = v.numColumns * 2 := rfl
  unfold Console.csiK
  rw [startOfLine]
  split
  · exact .ite (fun _ => good) fun _ => good.erase good.origin_le (by omega)
  · refine good.erase (Nat.le_add_right _ _) ?_
    split
    · omega
    · omega
  · exact good.erase (Nat.le_add_right _ _) (by omega)
  · exact good

theorem within_pushRight {first last count p : Nat} {old : UInt16} (within : ram.Within first last)
    (above : first ≤ p) (below : p + 2 * count ≤ last) : (pushRight old count p ram).Within first last := by
  induction count generalizing old p ram with
  | zero => exact within
  | succ count ih => exact ih (within.putWord old above (by omega)) (by omega) (by omega)

theorem within_pullLeft {first last count p : Nat} (within : ram.Within first last) (above : first ≤ p)
    (below : p + 2 * count ≤ last) : (pullLeft count p ram).Within first last := by
  induction count generalizing p ram with
  | zero => exact within
  | succ count ih => exact ih (within.putWord _ above (by omega)) (by omega) (by omega)

theorem Good.insertChar (good : s.Good v) : (s.insertChar v).Good v := by
  have start := good.start
  have last := good.last
  have origin := good.origin_le
  have column := good.column
  have row := good.row
  exact good.setRam (within_pushRight good.stores (by omega) (by omega))

theorem Good.deleteChar (good : s.Good v) : (s.deleteChar v).Good v := by
  have start := good.start
  have last := good.last
  have origin := good.origin_le
  have column := good.column
  have row := good.row
  unfold Console.deleteChar
  refine .ite (fun _ => good) fun inside => ?_
  exact good.setRam ((within_pullLeft good.stores (by omega) (by omega)).putWord _ (by omega) (by omega))

theorem Good.fromCursor (good : s.Good v) : { s with top := s.y, bottom := v.numLines }.Good v :=
  good.setRegion_ good.y (Nat.le_refl _)

theorem Good.insertLine (good : s.Good v) : (s.insertLine v).Good v :=
  good.fromCursor.scrdown.setRegion_ good.region good.bottom

theorem Good.deleteLine (good : s.Good v) : (s.deleteLine v).Good v :=
  good.fromCursor.scrup.setRegion_ good.region good.bottom

/-! ## `con_write` -/

theorem Good.state (good : s.Good v) (state : EscState) : { s with state := state }.Good v := good.congr rfl

theorem Good.wrap (good : s.Good v) (full : s.x = v.numColumns) : (s.wrap v).Good v ∧ (s.wrap v).x = 0 := by
  have last := good.last
  have limit := good.limit
  have pos_le := good.pos_le
  have pos := good.pos
  have row : v.sizeRow = v.numColumns * 2 := rfl
  refine ⟨?_, lf_x.trans (by show s.x - v.numColumns = 0; omega)⟩
  unfold Console.wrap
  rw [sub32_eq (by omega) (by omega)]
  exact (good.setCursor (by omega) good.y (by omega)).lf

theorem Good.putAt (good : s.Good v) (inside : s.x < v.numColumns) (w : UInt16) :
    { s with ram := s.ram.putWord s.pos w, pos := add32 s.pos 2, x := add32 s.x 1 }.Good v := by
  have last := good.last
  have limit := good.limit
  have column := good.column
  have line := good.row
  have pos := good.pos
  have isRow : v.sizeRow = v.numColumns * 2 := rfl
  rw [add32_eq (by omega), add32_eq (by omega)]
  have pos : s.pos + 2 = s.origin + s.y * v.sizeRow + 2 * (s.x + 1) := by omega
  exact (good.setRam (good.store inside w)).setCursor inside good.y pos

theorem Good.put (good : s.Good v) (c : UInt8) : (s.put v c).Good v := by
  have columns := good.columns
  unfold Console.put
  by_cases full : v.numColumns ≤ s.x
  · obtain ⟨wrapped, first⟩ := good.wrap (Nat.le_antisymm good.x full)
    simp only [if_pos full]
    exact wrapped.putAt (by omega) _
  · simp only [if_neg full]
    exact good.putAt (Nat.not_le.mp full) _

theorem Good.tab (good : s.Good v) : (s.tab v).Good v := by
  have columns := good.columns
  have last := good.last
  have limit := good.limit
  have column := good.column
  have line := good.row
  have pos := good.pos
  have x := good.x
  have isRow : v.sizeRow = v.numColumns * 2 := rfl
  unfold Console.tab
  simp only []
  rw [add32_eq (by omega), add32_eq (by omega)]
  refine .ite (fun beyond => ?_) fun inside => ?_
  · unfold Console.wrap
    simp only []
    rw [sub32_eq (by omega) (by omega)]
    exact (good.setCursor (by omega) good.y (by omega)).lf
  · exact good.setCursor (by omega) good.y (by omega)

theorem Good.esNormal (good : s.Good v) (c : UInt8) : (s.esNormal v c).Good v := by
  unfold Console.esNormal
  refine .ite (fun _ => good.put c) fun _ => .ite (fun _ => good.state _) fun _ => .ite (fun _ => good.lf) fun _ =>
    .ite (fun _ => good.cr) fun _ => .ite (fun _ => good.del) fun _ => .ite (fun _ => ?_) fun _ =>
    .ite (fun _ => good.tab) fun _ => .ite (fun _ => good.congr rfl) fun _ => .ite (fun _ => good.congr rfl) fun _ => good
  exact .ite (fun _ => good) fun some_ => good.back some_

theorem Good.saveCur (good : s.Good v) : s.saveCur.Good v := good.congr rfl

theorem Good.lines_pos (good : s.Good v) : 0 < v.numLines := Nat.lt_of_le_of_lt (Nat.zero_le _) good.y

theorem Good.esEsc (good : s.Good v) (c : UInt8) : (s.esEsc v c).Good v := by
  have normal := good.state .normal
  unfold Console.esEsc
  exact .ite (fun _ => good.state _) fun _ => .ite (fun _ => normal.gotoxy _ _) fun _ => .ite (fun _ => normal.ri) fun _ =>
    .ite (fun _ => normal.lf) fun _ => .ite (fun _ => normal.congr rfl) fun _ => .ite (fun _ => normal.saveCur) fun _ =>
    .ite (fun _ => normal.gotoxy _ _) fun _ => .ite (fun _ => good.state _) fun _ => .ite (fun _ => good.state _) fun _ =>
    .ite (fun _ => good.state _) fun _ =>
    .ite (fun _ => (normal.setRegion_ good.lines_pos (Nat.le_refl _)).congr rfl) fun _ => normal

theorem Good.setPar (good : s.Good v) (i n : Nat) : (s.setPar i n).Good v := good.congr rfl

theorem Good.fromZero (good : s.Good v) (i : Nat) : (s.fromZero i).Good v := good.setPar _ _

theorem Good.atLeastOne (good : s.Good v) : s.atLeastOne.Good v := .ite (fun _ => good.setPar _ _) fun _ => good

theorem Good.setRegion (good : s.Good v) : (s.setRegion v).Good v := by
  have first := good.fromZero 0
  have second : (if (s.fromZero 0).par 1 = 0 then (s.fromZero 0).setPar 1 v.numLines else s.fromZero 0).Good v :=
    .ite (fun _ => first.setPar _ _) fun _ => first
  exact .ite (fun region => second.setRegion_ region.1 region.2) fun _ => second

theorem Good.setAttr (good : s.Good v) (n : Nat) : (s.setAttr v n).Good v := by
  unfold Console.setAttr
  split
  case h_3 =>
    exact .ite (fun _ => good.congr rfl) fun _ => .ite (fun _ => good.congr rfl) fun _ => good.congr rfl
  case h_12 =>
    exact .ite (fun _ => good) fun _ => .ite (fun _ => good.congr rfl) fun _ =>
      .ite (fun _ => good.congr rfl) fun _ => good.congr rfl
  all_goals exact good.congr rfl

theorem Good.foldl (good : s.Good v) {f : Console → Nat → Console}
    (keeps : ∀ (t : Console) (i : Nat), t.Good v → (f t i).Good v) (l : List Nat) : (l.foldl f s).Good v := by
  induction l generalizing s with
  | nil => exact good
  | cons i l ih => exact ih (keeps s i good)

theorem Good.csim (good : s.Good v) : (s.csim v).Good v := by
  unfold Console.csim
  exact good.foldl (fun t i good => good.setAttr (t.par i)) _

theorem Good.setGuarded (good : s.Good v) (c : UInt8) : (s.setGuarded c).Good v := by
  unfold Console.setGuarded
  refine .ite (fun _ => good) fun _ => ?_
  have first : (if c = char 'l' ∧ s.par 0 ≤ 60 then
      { s with blankinterval := HZ * 60 * s.par 0, blankcount := HZ * 60 * s.par 0 } else s).Good v :=
    .ite (fun _ => good.congr rfl) fun _ => good
  exact .ite (fun _ => first.congr rfl) fun _ => first

theorem Good.esGotpars (good : s.Good v) (c : UInt8) : (s.esGotpars v c).Good v := by
  have normal := good.state .normal
  have counted := normal.atLeastOne
  have zeroBased := normal.fromZero 0
  unfold Console.esGotpars
  exact .ite (fun _ => normal.congr rfl) fun _ => .ite (fun _ => zeroBased.gotoxy _ _) fun _ =>
    .ite (fun _ => counted.gotoxy _ _) fun _ => .ite (fun _ => counted.gotoxy _ _) fun _ =>
    .ite (fun _ => counted.gotoxy _ _) fun _ => .ite (fun _ => counted.gotoxy _ _) fun _ =>
    .ite (fun _ => counted.gotoxy _ _) fun _ => .ite (fun _ => counted.gotoxy _ _) fun _ =>
    .ite (fun _ => zeroBased.gotoxy _ _) fun _ => .ite (fun _ => (zeroBased.fromZero 1).gotoxy _ _) fun _ =>
    .ite (fun _ => normal.csiJ _) fun _ => .ite (fun _ => normal.csiK _) fun _ =>
    .ite (fun _ => normal.iterate (fun good => good.insertLine) _) fun _ =>
    .ite (fun _ => normal.iterate (fun good => good.deleteLine) _) fun _ =>
    .ite (fun _ => normal.iterate (fun good => good.deleteChar) _) fun _ =>
    .ite (fun _ => normal.iterate (fun good => good.insertChar) _) fun _ =>
    .ite (fun _ => normal.csim) fun _ => .ite (fun _ => normal.setRegion) fun _ => .ite (fun _ => normal.saveCur) fun _ =>
    .ite (fun _ => normal.gotoxy _ _) fun _ => .ite (fun _ => normal.setGuarded c) fun _ => normal

theorem Good.setNpar (good : s.Good v) {npar : Nat} (small : npar < NPAR) : { s with npar := npar }.Good v :=
  { good with npar := small }

theorem Good.esGetpars (good : s.Good v) (c : UInt8) : (s.esGetpars v c).Good v := by
  unfold Console.esGetpars
  exact .ite (fun next => good.setNpar (Nat.add_lt_of_lt_sub next.2)) fun _ => .ite (fun _ => good.setPar _ _) fun _ =>
    good.esGotpars c

theorem Good.esSquare (good : s.Good v) (c : UInt8) : (s.esSquare v c).Good v := by
  have cleared := good.setNpar (show 0 < NPAR by decide)
  unfold Console.esSquare
  refine .ite (fun _ => cleared.congr rfl) fun _ => .ite (fun _ => cleared.congr rfl) fun _ => ?_
  refine esGetpars ?_ c
  exact cleared.congr rfl

theorem Good.conByte (good : s.Good v) (c : UInt8) : (s.conByte v c).Good v := by
  have start : (if c = 24 ∨ c = 26 then { s with state := .normal } else s).Good v :=
    .ite (fun _ => good.state _) fun _ => good
  unfold Console.conByte
  simp only []
  split
  · exact start.esNormal c
  · exact start.esEsc c
  · exact start.esSquare c
  · exact start.esGetpars c
  · exact start.esGotpars c
  · exact start.state _
  · exact .ite (fun _ => start.congr rfl) fun _ => start.state _
  · exact .ite (fun _ => start.congr rfl) fun _ => .ite (fun _ => start.congr rfl) fun _ => start.state _
  · exact start.state _

theorem Good.step {m : Move} (good : s.Good v) (moved : s.step v m = some s') : s'.Good v := by
  cases m <;> cases moved
  case byte c => exact good.conByte c
  case setCursor => exact good.congr rfl
  case setErase c => exact good.congr rfl

/-! ## `con_init` -/

theorem gotoxy_of_inside {newX newY : Nat} (column : newX ≤ v.numColumns) (line : newY < v.numLines) :
    s.gotoxy v newX newY = { s with x := newX, y := newY, pos := add32 s.origin (newY * v.sizeRow + newX * 2) } :=
  if_neg (by omega)

theorem gotoxy_of_outside {newX newY : Nat} (outside : ¬(newX ≤ v.numColumns ∧ newY < v.numLines)) :
    s.gotoxy v newX newY = s :=
  if_pos (by omega)

theorem display_bounds (boot : Boot) :
    0 < boot.display.memBase ∧ boot.display.memBase ≤ boot.display.memTerm ∧ boot.display.memTerm ≤ 0xc0000 ∧
      boot.display.numColumns < 256 := by
  have columns := boot.videoCols.toNat_lt
  unfold Boot.display
  simp only []
  split
  · refine ⟨Nat.succ_pos _, ?_, ?_, columns⟩
    · show 0xb0000 ≤ if boot.egaBx &&& 0xff ≠ 0x10 then 0xb8000 else 0xb2000
      split <;> decide
    · show (if boot.egaBx &&& 0xff ≠ 0x10 then 0xb8000 else 0xb2000) ≤ 0xc0000
      split <;> decide
  · refine ⟨Nat.succ_pos _, ?_, ?_, columns⟩
    · show 0xb8000 ≤ if boot.egaBx &&& 0xff ≠ 0x10 then 0xc0000 else 0xba000
      split <;> decide
    · show (if boot.egaBx &&& 0xff ≠ 0x10 then 0xc0000 else 0xba000) ≤ 0xc0000
      split <;> decide

variable {boot : Boot}

theorem memory_end {k : Nat} (isConsole : k < boot.nrConsoles) :
    boot.display.memBase + k * boot.videoMemory + boot.videoMemory ≤ boot.display.memTerm := by
  have inside := row_le isConsole boot.videoMemory
  have whole : boot.nrConsoles * boot.videoMemory ≤ boot.display.memTerm - boot.display.memBase := Nat.mul_div_le _ _
  have bounds := display_bounds boot
  omega

theorem Good.console {k : Nat} (ram : ByteMemory.Memory) {newX newY : Nat}
    (columns : 8 ≤ boot.display.numColumns) (fits : boot.screenSize ≤ boot.videoMemory)
    (isConsole : k < boot.nrConsoles) (column : newX ≤ boot.display.numColumns)
    (line : newY < boot.display.numLines) :
    ((boot.console ram k).gotoxy boot.display newX newY).Good boot.display := by
  obtain ⟨-, -, below, narrow⟩ := display_bounds boot
  have memory := memory_end isConsole
  have row : boot.display.sizeRow = boot.display.numColumns * 2 := rfl
  have screen : boot.screenSize = boot.display.numLines * boot.display.sizeRow := rfl
  have bottom := row_le line boot.display.sizeRow
  have origin : (boot.console ram k).origin = boot.display.memBase + k * boot.videoMemory := rfl
  rw [gotoxy_of_inside column line, add32_eq (by omega)]
  exact
    { x := column
      y := line
      pos := by simp only []; omega
      scrEnd := rfl
      start := Nat.le_refl _
      last := Nat.add_le_add_left fits _
      region := Nat.lt_of_le_of_lt (Nat.zero_le _) line
      bottom := Nat.le_refl _
      npar := by show 0 < NPAR; decide
      stores := fun _ stored => absurd stored List.not_mem_nil
      columns := columns
      room := Nat.add_le_add_left fits _
      limit := by
        show boot.display.memBase + k * boot.videoMemory + boot.videoMemory + boot.display.sizeRow < 2 ^ 32
        omega }

theorem Good.ofBoot {ram : ByteMemory.Memory} {k : Nat} (started : boot.conInit ram k = some s)
    (columns : 8 ≤ boot.display.numColumns) (fits : boot.screenSize ≤ boot.videoMemory)
    (isConsole : k < boot.nrConsoles)
    (onScreen : k = 0 → boot.origX.toNat ≤ boot.display.numColumns ∧ boot.origY.toNat < boot.display.numLines) :
    s.Good boot.display := by
  unfold Boot.conInit at started
  simp only [Option.ite_none_left_eq_some] at started
  obtain ⟨notEmpty, started⟩ := started
  have lines : 0 < boot.display.numLines := by
    refine Nat.pos_of_ne_zero fun none => notEmpty ?_
    rw [Boot.screenSize, none, Nat.zero_mul]
  split at started
  · next isFirst =>
      cases started
      exact Good.console ram columns fits isConsole (onScreen isFirst).1 (onScreen isFirst).2
  · cases started
    exact Good.console ram columns fits isConsole (Nat.zero_le _) lines

theorem not_sound_of_outside {ram : ByteMemory.Memory} (started : boot.conInit ram 0 = some s)
    (outside : ¬(boot.origX.toNat ≤ boot.display.numColumns ∧ boot.origY.toNat < boot.display.numLines)) :
    ¬(s.conByte boot.display 7).Sound boot.display := by
  obtain ⟨above, -⟩ := display_bounds boot
  unfold Boot.conInit at started
  simp only [Option.ite_none_left_eq_some, if_true, gotoxy_of_outside outside, Option.some.injEq] at started
  obtain ⟨-, rfl⟩ := started
  have bell : (boot.console ram 0).conByte boot.display 7 = boot.console ram 0 := rfl
  intro sound
  have pos := sound.pos
  rw [bell] at pos
  have origin : (boot.console ram 0).origin = boot.display.memBase + 0 * boot.videoMemory := rfl
  have zero : (boot.console ram 0).pos = 0 := rfl
  omega

/-- Nothing that is written to a console makes it store outside its memory, exactly if
the BIOS has left the cursor on the screen of the first one. -/
theorem sound_iff_onScreen {boot : Boot} {ram : ByteMemory.Memory} {k : Nat}
    (started : boot.conInit ram k = some s) (columns : 8 ≤ boot.display.numColumns)
    (fits : boot.screenSize ≤ boot.videoMemory) (isConsole : k < boot.nrConsoles) :
    (∀ s', Reachable (step boot.display) s s' → ∀ c, (s'.conByte boot.display c).Sound boot.display) ↔
      (k = 0 → boot.origX.toNat ≤ boot.display.numColumns ∧ boot.origY.toNat < boot.display.numLines) := by
  constructor
  · intro sound isFirst
    subst isFirst
    by_contra outside
    exact not_sound_of_outside started outside (sound s .start 7)
  · intro onScreen s' reached c
    have good : s'.Good boot.display :=
      reached.invariant (fun good _ moved => good.step moved) (.ofBoot started columns fits isConsole onScreen)
    exact (good.conByte c).toSound

def textMode (line : UInt8) : Boot where
  origX := 0
  origY := line
  videoMode := 3
  videoCols := 80
  videoLines := 25
  egaBx := 3

theorem lastLine_sound :
    ∃ s, (textMode 24).conInit (fun _ => 0) 0 = some s ∧
      ((∀ s', Reachable (step (textMode 24).display) s s' → ∀ c,
          (s'.conByte (textMode 24).display c).Sound (textMode 24).display) ↔
        (0 = 0 → (textMode 24).origX.toNat ≤ (textMode 24).display.numColumns ∧
          (textMode 24).origY.toNat < (textMode 24).display.numLines)) :=
  ⟨_, rfl, sound_iff_onScreen rfl (by decide) (by decide) (by decide)⟩

/-- The BIOS has the cursor on line 30 of a screen with 50 lines, which `setup.S` takes for
one with 25. The first letter goes to the address zero. -/
theorem line30_unsound :
    ∃ s, (textMode 30).conInit (fun _ => 0) 0 = some s ∧ 8 ≤ (textMode 30).display.numColumns ∧
      (textMode 30).screenSize ≤ (textMode 30).videoMemory ∧ 0 < (textMode 30).nrConsoles ∧
      0 ∈ (s.conByte (textMode 30).display (char 'A')).ram.stored ∧
      ¬(s.conByte (textMode 30).display (char 'A')).Sound (textMode 30).display := by
  refine ⟨_, rfl, by decide, by decide, by decide, by decide +kernel, fun sound => ?_⟩
  have first := (sound.stores 0 (by decide +kernel)).1
  exact absurd first (by decide +kernel)

end Console

end Linux012.ChrDrv

import Linux012.ChrDrv.ConsoleBounds

/-! Scrolling the full screen up, by moving the origin and by copying. -/

set_option autoImplicit false

namespace Linux012.ChrDrv

open BlockStores

namespace Console

def cell (v : Display) (s : Console) (row column : Nat) : UInt16 := s.ram.getWord (s.origin + row * v.sizeRow + 2 * column)

structure FullScreen (v : Display) (s : Console) : Prop extends s.Sound v where
  top_eq : s.top = 0
  bottom_eq : s.bottom = v.numLines
  limit : s.videoMemEnd + v.sizeRow < 2 ^ 32

def scrups (v : Display) (s : Console) (words : List UInt16) : Console :=
  words.foldl (fun s word => { s with videoEraseChar := word }.scrup v) s

structure SameScreen (v : Display) (s t : Console) : Prop where
  cells : ∀ row column, row < v.numLines → column < v.numColumns → s.cell v row column = t.cell v row column
  x : s.x = t.x
  y : s.y = t.y
  cursor : s.pos - s.origin = t.pos - t.origin

structure Scrolled (v : Display) (s t : Console) : Prop where
  cells : ∀ row column, row < v.numLines → column < v.numColumns →
    t.cell v row column = if row + 1 < v.numLines then s.cell v (row + 1) column else s.videoEraseChar
  x : t.x = s.x
  y : t.y = s.y
  first : t.videoMemStart = s.videoMemStart
  last : t.videoMemEnd = s.videoMemEnd

section Branches

variable {v : Display} {s : Console}

theorem getWord_moved {ram : Ram} {source target : Nat} (w : UInt16) (even : 2 ∣ v.numColumns) (lines : 0 < v.numLines)
    (down : target ≤ source) {row column : Nat} (inside : row < v.numLines) (inRow : column < v.numColumns) :
    ((Ram.movsl ((v.numLines - 1) * v.numColumns / 2) source target ram).stosw w v.numColumns
        (target + 4 * ((v.numLines - 1) * v.numColumns / 2))).getWord (target + row * v.sizeRow + 2 * column) =
      if row + 1 < v.numLines then ram.getWord (source + row * v.sizeRow + 2 * column) else w := by
  have copied : 4 * ((v.numLines - 1) * v.numColumns / 2) = (v.numLines - 1) * v.sizeRow := by
    obtain ⟨half, columns⟩ := even
    rw [Display.sizeRow, columns, Nat.mul_left_comm, Nat.mul_div_cancel_left _ two_pos]
    ring
  have size : v.sizeRow = 2 * v.numColumns := Nat.mul_comm ..
  rw [copied]
  split
  case isTrue more =>
    have row_le : row * v.sizeRow + v.sizeRow ≤ (v.numLines - 1) * v.sizeRow := by
      rw [← Nat.succ_mul]
      exact Nat.mul_le_mul_right _ (by omega)
    rw [Ram.stosw_getWord_of_outside w (by omega), Ram.movsl_getWord down (by omega) (by omega)]
    congr 1
    omega
  case isFalse bottom =>
    obtain rfl : row = v.numLines - 1 := by omega
    exact Ram.stosw_getWord w inRow

theorem cell_succ (row column : Nat) :
    s.cell v (row + 1) column = s.ram.getWord (s.origin + v.sizeRow + row * v.sizeRow + 2 * column) := by
  rw [cell, Nat.add_mul, Nat.one_mul]
  congr 1
  omega

theorem FullScreen.lines (full : s.FullScreen v) : 0 < v.numLines := Nat.lt_of_le_of_lt (Nat.zero_le _) full.y

theorem FullScreen.rows (full : s.FullScreen v) : (v.numLines - 1) * v.sizeRow + v.sizeRow = v.numLines * v.sizeRow := by
  rw [← Nat.succ_mul, Nat.succ_eq_add_one, Nat.sub_add_cancel full.lines]

theorem FullScreen.cursor_le (full : s.FullScreen v) : s.pos ≤ s.scrEnd := by
  have row_le : s.y * v.sizeRow + v.sizeRow ≤ v.numLines * v.sizeRow := by
    rw [← Nat.succ_mul]
    exact Nat.mul_le_mul_right _ full.y
  have size : v.sizeRow = v.numColumns * 2 := rfl
  have x := full.x
  rw [full.pos, full.scrEnd]
  omega

theorem copied_le (v : Display) : 4 * ((v.numLines - 1) * v.numColumns / 2) ≤ (v.numLines - 1) * v.sizeRow := by
  have same : (v.numLines - 1) * v.sizeRow = 2 * ((v.numLines - 1) * v.numColumns) := by
    rw [Display.sizeRow]
    ring
  omega

theorem FullScreen.shiftUp (full : s.FullScreen v) (even : 2 ∣ v.numColumns) :
    (s.shiftUp v).FullScreen v ∧ Scrolled v s (s.shiftUp v) := by
  have size : v.sizeRow = v.numColumns * 2 := rfl
  have rows := full.rows
  have copied := copied_le v
  have start := full.start
  have last := full.last
  have scrEnd := full.scrEnd
  have ram : (s.shiftUp v).ram =
      (Ram.movsl ((v.numLines - 1) * v.numColumns / 2) (s.origin + v.sizeRow) s.origin s.ram).stosw s.videoEraseChar
        v.numColumns (s.origin + 4 * ((v.numLines - 1) * v.numColumns / 2)) := by
    simp only [Console.shiftUp, full.top_eq, full.bottom_eq, Nat.sub_zero, Nat.zero_add, Nat.mul_one, Nat.mul_zero,
      Nat.add_zero]
  refine ⟨{ full with stores := ?_ }, ⟨fun row column inside inRow => ?_, rfl, rfl, rfl, rfl⟩⟩
  · rw [ram]
    refine Ram.Within.stosw (Ram.Within.movsl full.stores start ?_) _ ?_ ?_
    · omega
    · omega
    · omega
  · rw [cell, ram, cell_succ]
    exact getWord_moved s.videoEraseChar even full.lines (Nat.le_add_right s.origin v.sizeRow) inside inRow

theorem FullScreen.copyBack (full : s.FullScreen v) (even : 2 ∣ v.numColumns) (ega : v.isEga = true)
    (beyond : s.videoMemEnd < s.scrEnd + v.sizeRow) : (s.scrup v).FullScreen v ∧ Scrolled v s (s.scrup v) := by
  have size : v.sizeRow = v.numColumns * 2 := rfl
  have rows := full.rows
  have copied := copied_le v
  have start := full.start
  have last := full.last
  have pos := full.pos
  have scrEnd := full.scrEnd
  have limit := full.limit
  have cursor := full.cursor_le
  have scrup : s.scrup v =
      { s with
        ram := (Ram.movsl ((v.numLines - 1) * v.numColumns / 2) (s.origin + v.sizeRow) s.videoMemStart s.ram).stosw
          s.videoEraseChar v.numColumns (s.videoMemStart + 4 * ((v.numLines - 1) * v.numColumns / 2))
        scrEnd := s.scrEnd + v.sizeRow - (s.origin + v.sizeRow - s.videoMemStart)
        pos := sub32 (add32 s.pos v.sizeRow) (s.origin + v.sizeRow - s.videoMemStart)
        origin := s.videoMemStart } := by
    rw [Console.scrup, if_neg (not_le.2 full.region), if_pos ⟨ega, full.top_eq, full.bottom_eq⟩, if_pos beyond]
  rw [add32_eq (by omega), sub32_eq (by omega) (by omega)] at scrup
  rw [scrup]
  refine ⟨{ full with pos := ?_, scrEnd := ?_, start := le_rfl, last := ?_, stores := ?_ },
    ⟨fun row column inside inRow => ?_, rfl, rfl, rfl, rfl⟩⟩
  · show s.pos + v.sizeRow - (s.origin + v.sizeRow - s.videoMemStart) = s.videoMemStart + s.y * v.sizeRow + 2 * s.x
    omega
  · show s.scrEnd + v.sizeRow - (s.origin + v.sizeRow - s.videoMemStart) = s.videoMemStart + v.numLines * v.sizeRow
    omega
  · show s.scrEnd + v.sizeRow - (s.origin + v.sizeRow - s.videoMemStart) ≤ s.videoMemEnd
    omega
  · refine Ram.Within.stosw (Ram.Within.movsl full.stores le_rfl ?_) _ ?_ ?_
    · omega
    · omega
    · omega
  · rw [cell_succ]
    exact getWord_moved s.videoEraseChar even full.lines (by omega) inside inRow

theorem FullScreen.moveOrigin (full : s.FullScreen v) (ega : v.isEga = true)
    (fits : s.scrEnd + v.sizeRow ≤ s.videoMemEnd) : (s.scrup v).FullScreen v ∧ Scrolled v s (s.scrup v) := by
  have size : v.sizeRow = v.numColumns * 2 := rfl
  have rows := full.rows
  have start := full.start
  have pos := full.pos
  have scrEnd := full.scrEnd
  have limit := full.limit
  have cursor := full.cursor_le
  have scrup : s.scrup v =
      { s with
        ram := s.ram.stosw s.videoEraseChar v.numColumns (s.scrEnd + v.sizeRow - v.sizeRow)
        origin := s.origin + v.sizeRow
        pos := add32 s.pos v.sizeRow
        scrEnd := s.scrEnd + v.sizeRow } := by
    rw [Console.scrup, if_neg (not_le.2 full.region), if_pos ⟨ega, full.top_eq, full.bottom_eq⟩, if_neg (not_lt.2 fits)]
  rw [add32_eq (by omega)] at scrup
  rw [scrup]
  refine ⟨{ full with pos := ?_, scrEnd := ?_, start := ?_, last := fits, stores := ?_ },
    ⟨fun row column inside inRow => ?_, rfl, rfl, rfl, rfl⟩⟩
  · show s.pos + v.sizeRow = s.origin + v.sizeRow + s.y * v.sizeRow + 2 * s.x
    omega
  · show s.scrEnd + v.sizeRow = s.origin + v.sizeRow + v.numLines * v.sizeRow
    omega
  · show s.videoMemStart ≤ s.origin + v.sizeRow
    omega
  · refine Ram.Within.stosw full.stores _ ?_ ?_
    · omega
    · omega
  · rw [Nat.add_sub_cancel, cell]
    split
    case isTrue more =>
      have row_le : (row + 1) * v.sizeRow + v.sizeRow ≤ v.numLines * v.sizeRow := by
        rw [← Nat.succ_mul]
        exact Nat.mul_le_mul_right _ more
      rw [Nat.succ_mul] at row_le
      refine (Ram.stosw_getWord_of_outside s.videoEraseChar ?_).trans ?_
      · left
        change s.origin + v.sizeRow + row * v.sizeRow + 2 * column + 2 ≤ s.scrEnd
        omega
      · rw [cell_succ]
    case isFalse bottom =>
      obtain rfl : row = v.numLines - 1 := by omega
      have place : s.origin + v.sizeRow + (v.numLines - 1) * v.sizeRow + 2 * column = s.scrEnd + 2 * column := by omega
      change (Ram.stosw _ _ _ _).getWord (s.origin + v.sizeRow + (v.numLines - 1) * v.sizeRow + 2 * column) = _
      rw [place]
      exact Ram.stosw_getWord s.videoEraseChar inRow

end Branches

/-! ## The simulation -/

section Simulation

variable {v v' : Display} {s t : Console}

theorem FullScreen.scrup (full : s.FullScreen v) (even : 2 ∣ v.numColumns) :
    (s.scrup v).FullScreen v ∧ Scrolled v s (s.scrup v) := by
  by_cases ega : v.isEga = true
  · rcases lt_or_ge s.videoMemEnd (s.scrEnd + v.sizeRow) with beyond | fits
    · exact full.copyBack even ega beyond
    · exact full.moveOrigin ega fits
  · have plain : s.scrup v = s.shiftUp v := by
      rw [Console.scrup, if_neg (not_le.2 full.region), if_neg fun both => ega both.1]
    rw [plain]
    exact full.shiftUp even

theorem FullScreen.congr (full : s.FullScreen v) (columns : v'.numColumns = v.numColumns)
    (lines : v'.numLines = v.numLines) : s.FullScreen v' := by
  have size : v'.sizeRow = v.sizeRow := by rw [Display.sizeRow, columns, Display.sizeRow]
  obtain ⟨⟨x, y, pos, scrEnd, start, last, region, bottom, npar, stores⟩, top_eq, bottom_eq, limit⟩ := full
  rw [← columns] at x
  rw [← lines] at y bottom bottom_eq
  rw [← size] at pos limit
  rw [← size, ← lines] at scrEnd
  exact ⟨⟨x, y, pos, scrEnd, start, last, region, bottom, npar, stores⟩, top_eq, bottom_eq, limit⟩

theorem FullScreen.erase (full : s.FullScreen v) (word : UInt16) : { s with videoEraseChar := word }.FullScreen v :=
  { full with }

theorem SameScreen.of_scrolled {s' t' : Console} (same : SameScreen v s t) (left : Scrolled v s s')
    (right : Scrolled v t t')
    (erase : s.videoEraseChar = t.videoEraseChar) (full : s'.FullScreen v) (full' : t'.FullScreen v) :
    SameScreen v s' t' := by
  have x : s'.x = t'.x := left.x.trans (same.x.trans right.x.symm)
  have y : s'.y = t'.y := left.y.trans (same.y.trans right.y.symm)
  refine ⟨fun row column inside inRow => ?_, x, y, ?_⟩
  · rw [left.cells row column inside inRow, right.cells row column inside inRow, erase]
    split
    case isTrue more => exact same.cells (row + 1) column more inRow
    case isFalse => rfl
  · rw [full.pos, full'.pos, x, y]
    omega

theorem FullScreen.scrups (full : s.FullScreen v) (even : 2 ∣ v.numColumns) (words : List UInt16) :
    (s.scrups v words).FullScreen v ∧ (s.scrups v words).videoMemStart = s.videoMemStart ∧
      (s.scrups v words).videoMemEnd = s.videoMemEnd := by
  induction words generalizing s with
  | nil => exact ⟨full, rfl, rfl⟩
  | cons word words ih =>
    obtain ⟨next, scrolled⟩ := (full.erase word).scrup even
    obtain ⟨last, first_eq, last_eq⟩ := ih next
    exact ⟨last, first_eq.trans scrolled.first, last_eq.trans scrolled.last⟩

theorem FullScreen.scrups_within (full : s.FullScreen v) (even : 2 ∣ v.numColumns) (words : List UInt16) :
    (s.scrups v words).ram.Within s.videoMemStart s.videoMemEnd := by
  obtain ⟨last, first_eq, last_eq⟩ := full.scrups even words
  have stores := last.stores
  rwa [first_eq, last_eq] at stores

theorem SameScreen.scrups (columns : v'.numColumns = v.numColumns) (lines : v'.numLines = v.numLines)
    (even : 2 ∣ v.numColumns) (same : SameScreen v s t) (full : s.FullScreen v) (full' : t.FullScreen v)
    (words : List UInt16) : SameScreen v (s.scrups v words) (t.scrups v' words) := by
  have size : v'.sizeRow = v.sizeRow := by rw [Display.sizeRow, columns, Display.sizeRow]
  induction words generalizing s t with
  | nil => exact same
  | cons word words ih =>
    obtain ⟨next, scrolled⟩ := (full.erase word).scrup even
    have other := (full'.erase word).congr columns lines
    obtain ⟨next', scrolled'⟩ := other.scrup (columns ▸ even)
    have back := next'.congr columns.symm lines.symm
    refine ih ?_ next back
    have cells : Scrolled v { t with videoEraseChar := word } ({ t with videoEraseChar := word }.scrup v') := by
      refine { scrolled' with cells := fun row column inside inRow => ?_ }
      have cell_eq (s : Console) (row column : Nat) : s.cell v' row column = s.cell v row column := by
        rw [cell, cell, size]
      have scrolledCell := scrolled'.cells row column (lines ▸ inside) (columns ▸ inRow)
      rwa [cell_eq, cell_eq, lines] at scrolledCell
    have erased : SameScreen v { s with videoEraseChar := word } { t with videoEraseChar := word } :=
      ⟨same.cells, same.x, same.y, same.cursor⟩
    exact erased.of_scrolled scrolled cells rfl next back

theorem SameScreen.refl (v : Display) (s : Console) : SameScreen v s s := ⟨fun _ _ _ _ => rfl, rfl, rfl, rfl⟩

end Simulation

/-- A display that moves its origin shows what one that copies each time does, and so do any two. -/
theorem scrups_refine {v v' : Display} (columns : v'.numColumns = v.numColumns) (lines : v'.numLines = v.numLines)
    (even : 2 ∣ v.numColumns) {s : Console} (full : s.FullScreen v) (words : List UInt16) :
    SameScreen v (s.scrups v words) (s.scrups v' words) ∧
      (s.scrups v words).ram.Within s.videoMemStart s.videoMemEnd ∧
      (s.scrups v' words).ram.Within s.videoMemStart s.videoMemEnd := by
  have full' := full.congr columns lines
  refine ⟨(SameScreen.refl v s).scrups columns lines even full full words, full.scrups_within even words, ?_⟩
  exact full'.scrups_within (columns ▸ even) words

theorem colour_refines :
    ∃ s, (textMode 24).conInit (fun _ => 0) 0 = some s ∧
      SameScreen (textMode 24).display (s.scrups (textMode 24).display [0x0720, 0x0720])
        (s.scrups { (textMode 24).display with type := .mda } [0x0720, 0x0720]) := by
  refine ⟨_, rfl, ?_⟩
  have started : (textMode 24).conInit (fun _ => 0) 0 = some _ := rfl
  have good := Good.ofBoot started (by decide) (by decide) (by decide) fun _ => by decide
  exact (scrups_refine rfl rfl (by decide) ⟨good.toSound, rfl, rfl, good.limit⟩ [0x0720, 0x0720]).1

end Console

end Linux012.ChrDrv

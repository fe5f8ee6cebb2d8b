import Linux012.Mm.Swap

/-! `init_swapping` of `mm/swap.c` with the bits that it looks at and the page that it keeps
or gives back. -/

set_option autoImplicit false

namespace Linux012.Mm.SwapStart

open Swap (swapBits signed unsign badBitmap)

inductive Refusal where
  | noDevice
  | noSize
  | emptyDevice
  | tooSmall
  /-- "Unable to start swapping: out of memory :-)" -/
  | outOfMemory
  | noSignature
  | badBitmap
  | noPages
deriving DecidableEq

inductive Verdict where
  | refused (why : Refusal)
  /-- "Swap device ok: %d pages (%d bytes) swap-space" -/
  | accepted (pages : Nat)
deriving DecidableEq

/-- `swapBitmap` is what the pointer points at when `init_swapping` returns; `examined` are the
arguments of `bit`. -/
structure Outcome where
  swapBitmap : Option (Nat → Bool)
  allocated : Option Nat
  freed : List Nat
  examined : List Nat
  verdict : Verdict

/-- The rounds of the first loop: the bits that are looked at, and whether the last one is set. -/
def checkMap (swapBitmap : Nat → Bool) (swapSize : Nat) : (rounds : Nat) → (i : Nat) → List Nat × Bool
  | 0, _ => ([], false)
  | rounds + 1, i =>
    if i < swapBits then
      let i := if i = 1 then swapSize else i
      if swapBitmap i then ([i], true)
      else
        let rest := checkMap swapBitmap swapSize rounds (i + 1)
        (i :: rest.1, rest.2)
    else ([], false)

def usable (swapSize : Nat) : List Nat := List.range' 1 (swapSize - 1)

/-- `init_swapping` from `read_swap_page` on, where `page` has come from `get_free_page`. `content`
are the bits of slot 0, and those that lie behind the page in memory. -/
def readMap (swapSize page : Nat) (content : Nat → Bool) : Outcome :=
  if signed content = false then
    { swapBitmap := none, allocated := some page, freed := [page], examined := [], verdict := .refused .noSignature }
  else
    let swapBitmap := unsign content
    -- `i` grows in each round, so these are enough
    let checked := checkMap swapBitmap swapSize (swapBits + 1) 0
    if checked.2 then
      { swapBitmap := none, allocated := some page, freed := [page], examined := checked.1
        verdict := .refused .badBitmap }
    else
      let examined := checked.1 ++ usable swapSize
      let j := (usable swapSize).countP swapBitmap
      if j = 0 then
        { swapBitmap := none, allocated := some page, freed := [page], examined := examined
          verdict := .refused .noPages }
      else
        { swapBitmap := some swapBitmap, allocated := some page, freed := [], examined := examined
          verdict := .accepted j }

def refuse (why : Refusal) : Outcome where
  swapBitmap := none
  allocated := none
  freed := []
  examined := []
  verdict := .refused why

/-- `init_swapping`; `blkSize` is the entry of the device, if its driver has a table. -/
def initSwapping (swapDev : Nat) (blkSize : Option Int) (freePage : Option Nat) (content : Nat → Bool) : Outcome :=
  if swapDev = 0 then refuse .noDevice
  else
    match blkSize with
    | none => refuse .noSize
    | some swapSize =>
      if swapSize = 0 then refuse .emptyDevice
      else if swapSize < 100 then refuse .tooSmall
      else
        match freePage with
        | none => refuse .outOfMemory
        | some page => readMap (min (swapSize.toNat >>> 2) swapBits) page content

/-! ## What is accepted -/

def usablePages (swapSize : Int) : Nat := min (swapSize.toNat / 4) swapBits

def signatureBit : Nat := 8 * 4086

structure Good (swapSize : Int) (content : Nat → Bool) : Prop where
  large : 100 ≤ swapSize
  signed : signed content = true
  first : content 0 = false
  beyond : ∀ nr, usablePages swapSize ≤ nr → nr < signatureBit → content nr = false
  some_usable : ∃ nr, 1 ≤ nr ∧ nr < usablePages swapSize ∧ nr < signatureBit ∧ content nr = true

structure Exact (swapSize : Int) (content : Nat → Bool) (outcome : Outcome) : Prop where
  enables : outcome.swapBitmap ≠ none ↔ Good swapSize content
  inside : ∀ nr ∈ outcome.examined, nr < 8 * 4096
  refuses : outcome.swapBitmap = none → outcome.freed = outcome.allocated.toList

def LooksBehind (swapSize : Int) (content : Nat → Bool) : Prop :=
  131072 ≤ swapSize ∧ signed content = true ∧ content 0 = false

/-! ## The loops -/

section Loops

variable {swapBitmap content : Nat → Bool} {swapSize : Nat}

theorem checkMap_from (swapBitmap : Nat → Bool) (swapSize : Nat) {rounds i : Nat} (later : 2 ≤ i)
    (enough : swapBits ≤ i + rounds) :
    ((checkMap swapBitmap swapSize rounds i).2 = true ↔ ∃ nr, i ≤ nr ∧ nr < swapBits ∧ swapBitmap nr = true) ∧
      ∀ nr ∈ (checkMap swapBitmap swapSize rounds i).1, nr < swapBits := by
  induction rounds generalizing i with
  | zero =>
    constructor
    · constructor
      · exact nofun
      · rintro ⟨nr, above, below, -⟩
        omega
    · exact nofun
  | succ rounds ih =>
    obtain ⟨found, inside⟩ := ih (i := i + 1) (by omega) (by omega)
    by_cases more : i < swapBits
    · have same : (if i = 1 then swapSize else i) = i := if_neg (by omega)
      simp only [checkMap, if_pos more, same]
      by_cases set : swapBitmap i = true
      · simp only [if_pos set, List.mem_singleton]
        exact ⟨⟨fun _ => ⟨i, le_rfl, more, set⟩, fun _ => trivial⟩, fun nr here => here ▸ more⟩
      · simp only [if_neg set, found, List.mem_cons]
        constructor
        · constructor
          · rintro ⟨nr, above, rest⟩
            exact ⟨nr, by omega, rest⟩
          · rintro ⟨nr, above, below, isSet⟩
            refine ⟨nr, ?_, below, isSet⟩
            rcases Nat.eq_or_lt_of_le above with rfl | less
            · exact absurd isSet set
            · exact less
        · rintro nr (rfl | later)
          · exact more
          · exact inside nr later
    · simp only [checkMap, if_neg more]
      constructor
      · constructor
        · exact nofun
        · rintro ⟨nr, above, below, -⟩
          omega
      · exact nofun

theorem checkMap_start (rounds : Nat) :
    checkMap swapBitmap swapSize (rounds + 2) 0 =
      if swapBitmap 0 then ([0], true)
      else if swapBitmap swapSize then ([0, swapSize], true)
      else
        let rest := checkMap swapBitmap swapSize rounds (swapSize + 1)
        (0 :: swapSize :: rest.1, rest.2) := by
  have inMap : 0 < swapBits ∧ 0 + 1 < swapBits := by decide
  simp only [checkMap, if_pos inMap.1, if_pos inMap.2, if_neg (show ¬0 = 1 by decide), if_pos]
  by_cases first : swapBitmap 0 = true
  · simp only [if_pos first]
  · simp only [if_neg first]
    by_cases last : swapBitmap swapSize = true
    · simp only [if_pos last]
    · simp only [if_neg last]

theorem checkMap_spec (size : 2 ≤ swapSize) :
    ((checkMap swapBitmap swapSize (swapBits + 1) 0).2 = true ↔
      swapBitmap 0 = true ∨ swapBitmap swapSize = true ∨ ∃ nr, swapSize < nr ∧ nr < swapBits ∧ swapBitmap nr = true) ∧
      ((∀ nr ∈ (checkMap swapBitmap swapSize (swapBits + 1) 0).1, nr < swapBits) ↔
        swapBitmap 0 = true ∨ swapSize < swapBits) := by
  obtain ⟨found, inside⟩ :
      _ ∧ ∀ nr ∈ (checkMap swapBitmap swapSize (swapBits - 1) (swapSize + 1)).1, nr < swapBits :=
    checkMap_from swapBitmap swapSize (by omega) (by omega)
  have rounds : swapBits + 1 = (swapBits - 1) + 2 := rfl
  have zero : 0 < swapBits := by decide
  rw [rounds, checkMap_start]
  by_cases first : swapBitmap 0 = true
  · simp [first, zero]
  · by_cases last : swapBitmap swapSize = true
    · simp [first, last, zero]
    · rw [if_neg first, if_neg last]
      simp only [found, first, last, Bool.false_eq_true, false_or, List.forall_mem_cons, zero, true_and]
      exact ⟨Iff.rfl, fun both => both.1, fun below => ⟨below, inside⟩⟩

variable {nr : Nat}

theorem unsign_before (before : nr < signatureBit) : unsign content nr = content nr := by
  rw [signatureBit] at before
  exact if_neg (by omega)

theorem unsign_signature (inside : signatureBit ≤ nr) (inMap : nr < swapBits) : unsign content nr = false :=
  if_pos ⟨inside, inMap⟩

theorem unsign_eq_true (inMap : nr < swapBits) :
    unsign content nr = true ↔ nr < signatureBit ∧ content nr = true := by
  by_cases before : nr < signatureBit
  · simp [unsign_before before, before]
  · simp [unsign_signature (not_lt.mp before) inMap, before]

theorem checkMap_unsign (size : 2 ≤ swapSize) (room : swapSize < swapBits) :
    (checkMap (unsign content) swapSize (swapBits + 1) 0).2 = true ↔
      ¬(content 0 = false ∧ ∀ nr, swapSize ≤ nr → nr < signatureBit → content nr = false) := by
  have first : unsign content 0 = content 0 := unsign_before (by decide)
  have same : signatureBit ≤ swapBits := by decide
  rw [(checkMap_spec size).1, first, not_and_or, Bool.not_eq_false]
  refine or_congr Iff.rfl ?_
  simp only [not_forall, Bool.not_eq_false]
  constructor
  · rintro (set | ⟨nr, above, below, set⟩)
    · obtain ⟨before, set⟩ := (unsign_eq_true room).mp set
      exact ⟨swapSize, le_rfl, before, set⟩
    · obtain ⟨before, set⟩ := (unsign_eq_true below).mp set
      exact ⟨nr, above.le, before, set⟩
  · rintro ⟨nr, above, before, set⟩
    have set' := (unsign_eq_true (before.trans_le same)).mpr ⟨before, set⟩
    rcases Nat.eq_or_lt_of_le above with rfl | less
    · exact .inl set'
    · exact .inr ⟨nr, less, before.trans_le same, set'⟩

theorem countP_usable (size : swapSize ≤ swapBits) :
    (usable swapSize).countP (unsign content) ≠ 0 ↔
      ∃ nr, 1 ≤ nr ∧ nr < swapSize ∧ nr < signatureBit ∧ content nr = true := by
  rw [← Nat.pos_iff_ne_zero, List.countP_pos_iff]
  simp only [usable, List.mem_range'_1]
  constructor
  · rintro ⟨nr, ⟨above, below⟩, set⟩
    have inSize : nr < swapSize := by omega
    exact ⟨nr, above, inSize, (unsign_eq_true (inSize.trans_le size)).mp set⟩
  · rintro ⟨nr, above, inSize, set⟩
    exact ⟨nr, ⟨above, by omega⟩, (unsign_eq_true (inSize.trans_le size)).mpr set⟩

end Loops

/-! ## init_swapping -/

section Start

variable {swapDev page : Nat} {swapSize : Int} {content : Nat → Bool}

theorem usablePages_bounds (large : 100 ≤ swapSize) :
    2 ≤ usablePages swapSize ∧ usablePages swapSize ≤ swapBits ∧
      (usablePages swapSize < swapBits ↔ swapSize < 131072) := by
  have bits : swapBits = 32768 := rfl
  rw [usablePages, bits]
  omega

theorem initSwapping_of_large (device : swapDev ≠ 0) (large : 100 ≤ swapSize) (content : Nat → Bool) :
    initSwapping swapDev (some swapSize) (some page) content = readMap (usablePages swapSize) page content := by
  rw [initSwapping, if_neg device]
  simp only [if_neg (show ¬swapSize = 0 by omega), if_neg (show ¬swapSize < 100 by omega)]
  rw [usablePages, Nat.shiftRight_eq_div_pow]

theorem initSwapping_of_small (device : swapDev ≠ 0) (small : swapSize < 100) (freePage : Option Nat)
    (content : Nat → Bool) : ∃ why, initSwapping swapDev (some swapSize) freePage content = refuse why := by
  by_cases zero : swapSize = 0
  · exact ⟨.emptyDevice, by simp only [initSwapping, if_neg device, if_pos zero]⟩
  · exact ⟨.tooSmall, by simp only [initSwapping, if_neg device, if_neg zero, if_pos small]⟩

theorem exact_refuse (small : swapSize < 100) (why : Refusal) : Exact swapSize content (refuse why) where
  enables := ⟨fun enabled => absurd rfl enabled, fun good => absurd good.large (not_le.mpr small)⟩
  inside := nofun
  refuses _ := rfl

theorem readMap_exact (large : 100 ≤ swapSize) (notBehind : ¬LooksBehind swapSize content) :
    Exact swapSize content (readMap (usablePages swapSize) page content) := by
  obtain ⟨two, capped, room⟩ := usablePages_bounds large
  rw [readMap]
  by_cases marked : signed content = false
  · rw [if_pos marked]
    refine ⟨⟨fun enabled => absurd rfl enabled, fun good => ?_⟩, nofun, fun _ => rfl⟩
    rw [good.signed] at marked
    cases marked
  · rw [if_neg marked]
    have isSigned : signed content = true := Bool.eq_true_of_not_eq_false marked
    have first : unsign content 0 = content 0 := unsign_before (by decide)
    have inside : ∀ nr ∈ (checkMap (unsign content) (usablePages swapSize) (swapBits + 1) 0).1, nr < swapBits := by
      rw [(checkMap_spec two).2, first, room]
      by_contra outside
      rw [not_or, not_lt, Bool.not_eq_true] at outside
      exact notBehind ⟨outside.2, isSigned, outside.1⟩
    by_cases bad : (checkMap (unsign content) (usablePages swapSize) (swapBits + 1) 0).2 = true
    · simp only [if_pos bad]
      refine ⟨⟨fun enabled => absurd rfl enabled, fun good => ?_⟩, inside, fun _ => rfl⟩
      by_cases below : usablePages swapSize < swapBits
      · exact absurd ⟨good.first, good.beyond⟩ ((checkMap_unsign two below).mp bad)
      · exact absurd ⟨not_lt.mp fun small => below (room.mpr small), isSigned, good.first⟩ notBehind
    · have sound : content 0 = false ∧
          ∀ nr, usablePages swapSize ≤ nr → nr < signatureBit → content nr = false := by
        by_cases below : usablePages swapSize < swapBits
        · exact not_not.mp fun unsound => bad ((checkMap_unsign two below).mpr unsound)
        · -- a first bit that is clear would have been looked behind
          have zero : content 0 = false := by
            by_contra set
            rw [Bool.not_eq_false, ← first] at set
            exact bad ((checkMap_spec two).1.mpr (.inl set))
          exact absurd ⟨not_lt.mp fun small => below (room.mpr small), isSigned, zero⟩ notBehind
      have usableInside : ∀ nr ∈ usable (usablePages swapSize), nr < swapBits := by
        intro nr member
        rw [usable, List.mem_range'_1] at member
        omega
      simp only [if_neg bad]
      by_cases none_ : (usable (usablePages swapSize)).countP (unsign content) = 0
      · simp only [if_pos none_]
        refine ⟨⟨fun enabled => absurd rfl enabled, fun good => ?_⟩, ?_, fun _ => rfl⟩
        · exact absurd none_ ((countP_usable capped).mpr good.some_usable)
        · exact fun nr member => (List.mem_append.mp member).elim (inside nr) (usableInside nr)
      · simp only [if_neg none_]
        refine ⟨⟨fun _ => ⟨large, isSigned, sound.1, sound.2, (countP_usable capped).mp none_⟩,
          fun _ => Option.some_ne_none _⟩, ?_, nofun⟩
        exact fun nr member => (List.mem_append.mp member).elim (inside nr) (usableInside nr)

/-- With a device and a free page. -/
theorem initSwapping_exact_iff (device : swapDev ≠ 0) (swapSize : Int) (page : Nat) (content : Nat → Bool) :
    Exact swapSize content (initSwapping swapDev (some swapSize) (some page) content) ↔
      ¬LooksBehind swapSize content := by
  by_cases small : swapSize < 100
  · obtain ⟨why, refused⟩ := initSwapping_of_small device small (some page) content
    rw [refused]
    refine iff_of_true (exact_refuse small why) fun behind => ?_
    have := behind.1
    omega
  · have large : 100 ≤ swapSize := not_lt.mp small
    rw [initSwapping_of_large device large]
    refine ⟨fun exact behind => ?_, readMap_exact large⟩
    obtain ⟨huge, marked, clear⟩ := behind
    obtain ⟨two, -, room⟩ := usablePages_bounds large
    have inside : ∀ nr ∈ (checkMap (unsign content) (usablePages swapSize) (swapBits + 1) 0).1, nr < swapBits := by
      intro nr member
      refine exact.inside nr ?_
      rw [readMap, if_neg (by rw [marked]; decide)]
      dsimp only
      split
      · exact member
      · split
        · exact List.mem_append_left _ member
        · exact List.mem_append_left _ member
    have first : unsign content 0 = content 0 := unsign_before (by decide)
    rcases (checkMap_spec two).2.mp inside with set | below
    · rw [first, clear] at set
      cases set
    · exact absurd (room.mp below) (not_lt.mpr huge)

theorem checkMap_eq_badBitmap {size : Nat} (two : 2 ≤ size) (swapBitmap : Nat → Bool) :
    (checkMap swapBitmap size (swapBits + 1) 0).2 = badBitmap swapBitmap size := by
  rw [Bool.eq_iff_iff, (checkMap_spec two).1]
  simp only [badBitmap, Bool.or_eq_true, List.any_eq_true, List.mem_range'_1, or_assoc]
  refine or_congr Iff.rfl (or_congr Iff.rfl (exists_congr fun nr => ?_))
  constructor
  · rintro ⟨above, below, set⟩
    exact ⟨⟨above, by omega⟩, set⟩
  · rintro ⟨⟨above, below⟩, set⟩
    exact ⟨above, by omega, set⟩

theorem initSwapping_swapBitmap (swapDev page : Nat) (blocks : Option Int) (content : Nat → Bool) :
    (initSwapping swapDev blocks (some page) content).swapBitmap =
      (Swap.initSwapping swapDev (blocks.map Int.toNat) (some content)).map Prod.snd := by
  by_cases device : swapDev = 0
  · simp [initSwapping, Swap.initSwapping, device, refuse]
  · cases blocks with
    | none => simp [initSwapping, Swap.initSwapping, device, refuse]
    | some swapSize =>
      by_cases small : swapSize < 100
      · obtain ⟨why, refused⟩ := initSwapping_of_small device small (some page) content
        rw [refused]
        simp [Swap.initSwapping, device, refuse, show swapSize.toNat < 100 by omega]
      · obtain ⟨two, -, -⟩ := usablePages_bounds (not_lt.mp small)
        rw [initSwapping_of_large device (not_lt.mp small)]
        have pages : min (swapSize.toNat >>> 2) swapBits = usablePages swapSize := by
          rw [usablePages, Nat.shiftRight_eq_div_pow]
        simp only [readMap, checkMap_eq_badBitmap two, Swap.initSwapping, if_neg device, Option.map_some,
          if_neg (show ¬swapSize.toNat < 100 by omega), pages]
        by_cases marked : signed content = false
        · simp only [if_pos marked, Option.map_none]
        · simp only [if_neg marked]
          by_cases bad : badBitmap (unsign content) (usablePages swapSize) = true
          · simp only [if_pos bad, Option.map_none]
          · simp only [if_neg bad]
            rw [usable]
            by_cases none_ : (List.range' 1 (usablePages swapSize - 1)).countP (unsign content) = 0
            · have nothing : ¬(List.range' 1 (usablePages swapSize - 1)).any (unsign content) = true := by
                rw [List.countP_eq_zero] at none_
                simpa using none_
              simp only [if_pos none_, if_neg nothing, Option.map_none]
            · have something : (List.range' 1 (usablePages swapSize - 1)).any (unsign content) = true := by
                have positive := Nat.pos_of_ne_zero none_
                rw [List.countP_pos_iff] at positive
                exact List.any_eq_true.mpr positive
              simp only [if_neg none_, if_pos something, Option.map_some]

end Start

def followedPage (nr : Nat) : Bool :=
  if nr < signatureBit then nr = 1
  else if nr < swapBits then (("SWAP-SPACE".toList.map Char.toNat).getD (nr / 8 - 4086) 0).testBit (nr % 8)
  else nr = swapBits

/-- A device of 128 MB with a good map is refused for a bit that is not in the map. -/
theorem large_device_refused :
    Good 131072 followedPage ∧ (initSwapping 0x306 (some 131072) (some 512) followedPage).swapBitmap = none ∧
      swapBits ∈ (initSwapping 0x306 (some 131072) (some 512) followedPage).examined ∧
      ¬Exact 131072 followedPage (initSwapping 0x306 (some 131072) (some 512) followedPage) := by
  have pages : usablePages 131072 = swapBits := by decide
  have marked : ¬signed followedPage = false := by decide
  have good : Good 131072 followedPage := by
    refine ⟨by decide, Bool.eq_true_of_not_eq_false marked, by decide, fun nr above before => ?_, 1, by decide⟩
    rw [pages] at above
    exact absurd before (not_lt.mpr (show signatureBit ≤ nr from le_trans (by decide) above))
  have first : unsign followedPage 0 = false := by decide
  have behind : unsign followedPage swapBits = true := by decide
  have checked : checkMap (unsign followedPage) swapBits (swapBits + 1) 0 = ([0, swapBits], true) := by
    refine (checkMap_start (swapBits - 1)).trans ?_
    simp only [first, behind, Bool.false_eq_true, if_false, if_true]
  have outcome : (initSwapping 0x306 (some 131072) (some 512) followedPage).swapBitmap = none ∧
      swapBits ∈ (initSwapping 0x306 (some 131072) (some 512) followedPage).examined := by
    rw [initSwapping_of_large (by decide) (by decide), readMap, if_neg marked, pages]
    simp only [checked, if_true]
    exact ⟨trivial, .tail _ (.head _)⟩
  exact ⟨good, outcome.1, outcome.2, fun exact => exact.enables.mpr good outcome.1⟩

theorem smaller_device_exact :
    Exact 131071 followedPage (initSwapping 0x306 (some 131071) (some 512) followedPage) :=
  (initSwapping_exact_iff (by decide) 131071 512 followedPage).mpr fun behind => absurd behind.1 (by decide)

end Linux012.Mm.SwapStart

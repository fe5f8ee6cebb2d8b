import Linux012.Lib.BitFields

/-! How the kernel writes the base and the limit of a segment into a descriptor
(`include/linux/sched.h`), and how `experiment/segment_descriptor_parser.cc` reads them. -/

set_option autoImplicit false

namespace Linux012.Kernel.Segments

open Function BitFields

abbrev DescStruct := Fin 8 → BitVec 8

/-! ## Register halves -/

section Registers

variable (edx : BitVec 32)

def dl : BitVec 8 := edx.extractLsb' 0 8

def dh : BitVec 8 := edx.extractLsb' 8 8

def dx : BitVec 16 := edx.extractLsb' 0 16

def setDl (v : BitVec 8) : BitVec 32 := edx.extractLsb' 8 24 ++ v

def setDh (v : BitVec 8) : BitVec 32 := edx.extractLsb' 16 16 ++ v ++ edx.extractLsb' 0 8

def setDx (v : BitVec 16) : BitVec 32 := edx.extractLsb' 16 16 ++ v

@[simp] theorem dl_setDl (v : BitVec 8) : dl (setDl edx v) = v := BitVec.extractLsb'_append_eq_right

@[simp] theorem dh_setDl (v : BitVec 8) : dh (setDl edx v) = dh edx :=
  (BitVec.extractLsb'_append_eq_of_le (Nat.le_refl 8)).trans (extractLsb'_extractLsb' edx (by decide))

@[simp] theorem dl_setDh (v : BitVec 8) : dl (setDh edx v) = dl edx := BitVec.extractLsb'_append_eq_right

@[simp] theorem dh_setDh (v : BitVec 8) : dh (setDh edx v) = v :=
  (BitVec.extractLsb'_append_eq_of_le (Nat.le_refl 8)).trans BitVec.extractLsb'_append_eq_right

@[simp] theorem dl_rotateRight : dl (edx.rotateRight 16) = edx.extractLsb' 16 8 :=
  extractLsb'_rotateRight edx (by decide) (by decide)

@[simp] theorem dh_rotateRight : dh (edx.rotateRight 16) = edx.extractLsb' 24 8 :=
  extractLsb'_rotateRight edx (by decide) (by decide)

theorem dx_halves : (dx edx).extractLsb' 8 8 ++ (dx edx).extractLsb' 0 8 = edx.extractLsb' 0 16 :=
  BitVec.extractLsb'_append_extractLsb'

theorem dh_append_dl : dh edx ++ dl edx = edx.extractLsb' 0 16 :=
  BitVec.extractLsb'_append_extractLsb'_eq_extractLsb' rfl

end Registers

def movb (addr : DescStruct) (k : Fin 8) (v : BitVec 8) : DescStruct := update addr k v

def movw (addr : DescStruct) (k : Fin 8) (v : BitVec 16) : DescStruct :=
  update (update addr k (v.extractLsb' 0 8)) (k + 1) (v.extractLsb' 8 8)

def word (addr : DescStruct) (k : Fin 8) : BitVec 16 := addr (k + 1) ++ addr k

/-! ## The macros -/

/-- `set_base`; the base is in `edx`. -/
def setBase (addr : DescStruct) (edx : BitVec 32) : DescStruct :=
  let addr := movw addr 2 (dx edx)
  let edx := edx.rotateRight 16
  let addr := movb addr 4 (dl edx)
  movb addr 7 (dh edx)

/-- `_set_limit`; the limit is in `edx`. -/
def setLimitField (addr : DescStruct) (edx : BitVec 32) : DescStruct :=
  let addr := movw addr 0 (dx edx)
  let edx := edx.rotateRight 16
  let edx := setDh edx (addr 6)
  let edx := setDh edx (dh edx &&& 0xf0)
  let edx := setDl edx (dl edx ||| dh edx)
  movb addr 6 (dl edx)

def setLimit (ldt : DescStruct) (limit : BitVec 32) : DescStruct := setLimitField ldt ((limit - 1) >>> 12)

/-- `get_base`; what `edx` holds before does not matter. -/
def getBase (addr : DescStruct) (edx : BitVec 32) : BitVec 32 :=
  let edx := setDh edx (addr 7)
  let edx := setDl edx (addr 4)
  let edx := edx <<< 16
  setDx edx (word addr 2)

/-! ## The parser -/

structure DescriptorLowDWord where
  limit_0_15 : BitVec 16
  base_0_15 : BitVec 16

structure DescriptorHighDWord where
  base_16_23 : BitVec 8
  type : BitVec 4
  s : BitVec 1
  dpl : BitVec 2
  p : BitVec 1
  limit_16_19 : BitVec 4
  avl : BitVec 1
  l : BitVec 1
  d_b : BitVec 1
  g : BitVec 1
  base_24_31 : BitVec 8

structure Descriptor where
  l_dw : DescriptorLowDWord
  h_dw : DescriptorHighDWord

/-- Bit fields are laid out from the lowest bit of a byte on. -/
def Descriptor.ofBytes (d : DescStruct) : Descriptor where
  l_dw :=
    { limit_0_15 := word d 0
      base_0_15 := word d 2 }
  h_dw :=
    { base_16_23 := d 4
      type := (d 5).extractLsb' 0 4
      s := (d 5).extractLsb' 4 1
      dpl := (d 5).extractLsb' 5 2
      p := (d 5).extractLsb' 7 1
      limit_16_19 := (d 6).extractLsb' 0 4
      avl := (d 6).extractLsb' 4 1
      l := (d 6).extractLsb' 5 1
      d_b := (d 6).extractLsb' 6 1
      g := (d 6).extractLsb' 7 1
      base_24_31 := d 7 }

def segmentBase (d : Descriptor) : BitVec 32 :=
  (d.h_dw.base_24_31.setWidth 32 <<< 24) ||| (d.h_dw.base_16_23.setWidth 32 <<< 16) |||
    d.l_dw.base_0_15.setWidth 32

def segmentLimit (d : Descriptor) : BitVec 32 :=
  (((d.h_dw.limit_16_19.setWidth 32 <<< 16) ||| d.l_dw.limit_0_15.setWidth 32) + 1) <<<
    (if d.h_dw.g ≠ 0 then 12 else 0) - 1

/-! ## What is written and read -/

namespace Descriptor

def setBase (d : Descriptor) (base : BitVec 32) : Descriptor :=
  { l_dw := { d.l_dw with base_0_15 := base.extractLsb' 0 16 }
    h_dw := { d.h_dw with base_16_23 := base.extractLsb' 16 8, base_24_31 := base.extractLsb' 24 8 } }

def setLimit (d : Descriptor) (limit : BitVec 20) : Descriptor :=
  { l_dw := { d.l_dw with limit_0_15 := limit.extractLsb' 0 16 }
    h_dw := { d.h_dw with limit_16_19 := limit.extractLsb' 16 4 } }

end Descriptor

theorem getBase_eq (d : DescStruct) (edx : BitVec 32) : getBase d edx = d 7 ++ d 4 ++ word d 2 := by
  have shifted (x : BitVec 32) : (x <<< 16).extractLsb' 16 16 = x.extractLsb' 0 16 := by
    apply BitVec.eq_of_getLsbD_eq
    intro i below
    simp only [BitVec.getLsbD_extractLsb', BitVec.getLsbD_shiftLeft]
    grind
  rw [getBase, setDx, shifted, ← dh_append_dl, dh_setDl, dh_setDh, dl_setDl]

theorem getBase_setBase (d : DescStruct) (base edx : BitVec 32) : getBase (setBase d base) edx = base := by
  have high : base.extractLsb' 24 8 ++ base.extractLsb' 16 8 = base.extractLsb' 16 16 :=
    BitVec.extractLsb'_append_extractLsb'_eq_extractLsb' rfl
  have bytes : (setBase d base) 7 = base.extractLsb' 24 8 ∧ (setBase d base) 4 = base.extractLsb' 16 8 ∧
      word (setBase d base) 2 = base.extractLsb' 0 16 := by
    simp [setBase, movw, movb, word, dx_halves]
  obtain ⟨seven, four, low⟩ := bytes
  rw [getBase_eq, seven, four, low, high]
  exact BitVec.extractLsb'_append_extractLsb'

theorem segmentBase_ofBytes (d : DescStruct) (edx : BitVec 32) : segmentBase (.ofBytes d) = getBase d edx := by
  have whole : (d 7 ++ d 4 ++ word d 2).setWidth 32 = d 7 ++ d 4 ++ word d 2 := BitVec.setWidth_eq _
  rw [getBase_eq, ← whole, BitVec.setWidth_append_append_eq_shiftLeft_setWidth_or]
  rfl

theorem ofBytes_setBase (d : DescStruct) (base : BitVec 32) :
    Descriptor.ofBytes (setBase d base) = (Descriptor.ofBytes d).setBase base := by
  simp [Descriptor.ofBytes, Descriptor.setBase, setBase, movw, movb, word, dx_halves]

theorem ofBytes_setLimitField (d : DescStruct) {limit : BitVec 32} (fits : limit.toNat < 2 ^ 20) :
    Descriptor.ofBytes (setLimitField d limit) = (Descriptor.ofBytes d).setLimit (limit.extractLsb' 0 20) := by
  have small : (limit.extractLsb' 16 8).toNat < 2 ^ 4 := by
    rw [BitVec.extractLsb'_toNat, Nat.shiftRight_eq_div_pow]
    omega
  obtain ⟨nibble, flags⟩ := nibbles_of_or (d 6) small
  simp [Descriptor.ofBytes, Descriptor.setLimit, setLimitField, movw, movb, word, dx_halves, nibble,
    flags, extractLsb'_extractLsb']

theorem ofBytes_setLimit (d : DescStruct) (limit : BitVec 32) :
    Descriptor.ofBytes (setLimit d limit) = (Descriptor.ofBytes d).setLimit ((limit - 1).extractLsb' 12 20) := by
  have fits : ((limit - 1) >>> 12).toNat < 2 ^ 20 := by
    have bound := (limit - 1).isLt
    rw [BitVec.toNat_ushiftRight, Nat.shiftRight_eq_div_pow]
    omega
  have shifted : ((limit - 1) >>> 12).extractLsb' 0 20 = (limit - 1).extractLsb' 12 20 := by
    apply BitVec.eq_of_getLsbD_eq
    intro i below
    rw [BitVec.getLsbD_extractLsb', BitVec.getLsbD_extractLsb', BitVec.getLsbD_ushiftRight, Nat.zero_add]
  rw [setLimit, ofBytes_setLimitField d fits, shifted]

theorem segmentLimit_setLimit {d : Descriptor} {limit : BitVec 20} (granular : d.h_dw.g = 1) :
    segmentLimit (d.setLimit limit) = (limit.setWidth 32 + 1) <<< 12 - 1 := by
  have whole : limit.extractLsb' 16 4 ++ limit.extractLsb' 0 16 = limit := BitVec.extractLsb'_append_extractLsb'
  have isSet : (1 : BitVec 1) ≠ 0 := by decide
  rw [segmentLimit, Descriptor.setLimit]
  dsimp only
  rw [granular, if_pos isSet, ← BitVec.setWidth_append_eq_shiftLeft_setWidth_or, whole]

theorem granular_limit {length : BitVec 32} (multiple : 4096 ∣ length.toNat) (positive : length ≠ 0) :
    (((length - 1).extractLsb' 12 20).setWidth 32 + 1) <<< 12 = length := by
  apply BitVec.eq_of_toNat_eq
  have bound := length.isLt
  have nonzero : length.toNat ≠ 0 := fun zero => positive (BitVec.eq_of_toNat_eq zero)
  have one : (1 : BitVec 32).toNat = 1 := rfl
  have before : (length - 1).toNat = length.toNat - 1 := by
    rw [BitVec.toNat_sub, one]
    omega
  rw [BitVec.toNat_shiftLeft, BitVec.toNat_add, BitVec.toNat_setWidth, BitVec.extractLsb'_toNat, before, one,
    Nat.shiftRight_eq_div_pow, Nat.shiftLeft_eq]
  obtain ⟨pages, isPages⟩ := multiple
  omega

/-- Base and limit come back as they were written, and nothing else of the descriptor changes. -/
theorem descriptors_agree (d : DescStruct) (base length edx : BitVec 32) :
    getBase (setBase d base) edx = base ∧
      segmentBase (.ofBytes d) = getBase d edx ∧
      Descriptor.ofBytes (setBase d base) = (Descriptor.ofBytes d).setBase base ∧
      Descriptor.ofBytes (setLimit d length) = (Descriptor.ofBytes d).setLimit ((length - 1).extractLsb' 12 20) ∧
      (4096 ∣ length.toNat → 4096 ≤ length.toNat → (Descriptor.ofBytes (setLimit d length)).h_dw.g = 1 →
        segmentLimit (.ofBytes (setLimit d length)) = length - 1) := by
  refine ⟨getBase_setBase d base edx, segmentBase_ofBytes d edx, ofBytes_setBase d base, ofBytes_setLimit d length, ?_⟩
  intro multiple large granular
  rw [ofBytes_setLimit] at granular ⊢
  have pages : (Descriptor.ofBytes d).h_dw.g = 1 := granular
  have positive : length ≠ 0 := by
    rintro rfl
    exact absurd large (by decide)
  rw [segmentLimit_setLimit pages, granular_limit multiple positive]

theorem descriptors_agree_two_gigabytes :
    segmentLimit (.ofBytes (setLimit (fun _ => 0xff) 0x80000000)) = 0x7fffffff :=
  (descriptors_agree (fun _ => 0xff) 0 0x80000000 0).2.2.2.2 (by decide) (by decide) (by decide)

end Linux012.Kernel.Segments

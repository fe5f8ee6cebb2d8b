import Linux012.Math.Machine

/-! The effective address of a memory operand (`kernel/math/ea.c`). -/

set_option autoImplicit false

namespace Linux012.Math

open CarryWords

/-! ## The decoder -/

namespace Machine

def advance (s : Machine) (n : Nat) : Machine :=
  { s with info := { s.info with eip := s.info.eip + BitVec.ofNat 32 n } }

def setOperand (s : Machine) (offset : BitVec 32) : Machine :=
  s.setI387 { s.i387 with foo := offset, fos := 0x17 }

end Machine

/-- `get_fs_byte((char *) EIP)`, and `EIP++` -/
def nextByte : Emu (BitVec 8) := do
  let byte ← getFsByte (← get).info.eip
  modify fun s => s.advance 1
  return byte

def nextLong : Emu (BitVec 32) := do
  let long ← getFsLong (← get).info.eip
  modify fun s => s.advance 4
  return long

def nextSignedByte : Emu (BitVec 32) := do
  return (← nextByte).signExtend 32

/-- The sum of `sib` without the displacement. -/
def sibOffset (info : Info) (mod ss : Nat) (index base : BitVec 3) : BitVec 32 :=
  let offset := if index = 4 then 0 else info.reg index
  let offset := offset <<< ss
  if mod ≠ 0 ∨ base ≠ 5 then offset + info.reg base else offset

def sibDisplacement (mod : Nat) (base : BitVec 3) : Emu (BitVec 32) :=
  if mod = 1 then nextSignedByte
  else if mod = 2 ∨ base = 5 then nextLong
  else pure 0

def sib (mod : Nat) : Emu (BitVec 32) := do
  let byte ← nextByte
  let ss := (byte >>> 6).toNat
  let index := ((byte >>> 3) &&& 7).setWidth 3
  let base := (byte &&& 7).setWidth 3
  let offset := sibOffset (← get).info mod ss index base
  let offset := offset + (← sibDisplacement mod base)
  modify fun s => s.setOperand offset
  return offset

def eaDisplacement (mod : Nat) : Emu (BitVec 32) :=
  match mod with
  | 0 => pure 0
  | 1 => nextSignedByte
  | 2 => nextLong
  | _ => mathAbort (signalBit sigill)

def ea (code : Nat) : Emu (BitVec 32) := do
  let mod := code >>> 6 &&& 3
  let rm := BitVec.ofNat 3 (code &&& 7)
  if rm = 4 ∧ mod ≠ 3 then sib mod
  else if rm = 5 ∧ mod = 0 then do
    let offset ← nextLong
    modify fun s => s.setOperand offset
    return offset
  else do
    let tmp := (← get).info.reg rm
    let offset ← eaDisplacement mod
    modify fun s => s.setOperand offset
    return offset + tmp

/-! ## The addresses of the processor -/

inductive Displacement where
  | none
  | byte
  | long
deriving DecidableEq

namespace Displacement

/-- Register 5 as base without a displacement stands for a 32-bit displacement without a base. -/
def decode (mod : Nat) (base : BitVec 3) : Displacement :=
  if mod = 1 then byte else if mod = 2 ∨ mod = 0 ∧ base = 5 then long else none

def size : Displacement → Nat
  | none => 0
  | byte => 1
  | long => 4

def value (d : Displacement) (mem : Memory) (addr : BitVec 32) : BitVec 32 :=
  match d with
  | none => 0
  | byte => (mem addr).signExtend 32
  | long => mem.long addr

end Displacement

/-- What is added up to an address; `sibBytes` is 1 when a SIB byte follows the ModRM byte. -/
structure Addressing where
  base : Option (BitVec 3)
  index : Option (BitVec 3)
  scale : Nat
  sibBytes : Nat
  displacement : Displacement

namespace Addressing

def plain (mod : Nat) (rm : BitVec 3) : Addressing where
  base := if mod = 0 ∧ rm = 5 then none else some rm
  index := none
  scale := 0
  sibBytes := 0
  displacement := .decode mod rm

def scaled (mod : Nat) (sib : BitVec 8) : Addressing where
  base := if mod = 0 ∧ sib.extractLsb' 0 3 = 5 then none else some (sib.extractLsb' 0 3)
  index := if sib.extractLsb' 3 3 = 4 then none else some (sib.extractLsb' 3 3)
  scale := (sib.extractLsb' 6 2).toNat
  sibBytes := 1
  displacement := .decode mod (sib.extractLsb' 0 3)

def length (a : Addressing) : Nat := a.sibBytes + a.displacement.size

def address (a : Addressing) (s : Machine) : BitVec 32 :=
  a.base.elim 0 s.info.reg + a.index.elim 0 (fun r => s.info.reg r <<< a.scale) +
    a.displacement.value s.memory (s.info.eip + BitVec.ofNat 32 a.sibBytes)

end Addressing

def addressing (code : Nat) (s : Machine) : Addressing :=
  if BitVec.ofNat 3 code = 4 then .scaled (code / 64 % 4) (s.memory s.info.eip)
  else .plain (code / 64 % 4) (BitVec.ofNat 3 code)

def effectiveAddress (code : Nat) (s : Machine) : BitVec 32 := (addressing code s).address s

/-! ## The decoder finds them -/

theorem advance_zero (s : Machine) : s.advance 0 = s := by
  have same : s.info.eip + BitVec.ofNat 32 0 = s.info.eip := BitVec.add_zero _
  rw [Machine.advance, same]

theorem advance_advance (s : Machine) (m n : Nat) : (s.advance m).advance n = s.advance (m + n) := by
  have sum : s.info.eip + BitVec.ofNat 32 m + BitVec.ofNat 32 n = s.info.eip + BitVec.ofNat 32 (m + n) := by
    rw [BitVec.ofNat_add, BitVec.add_assoc]
  rw [Machine.advance, Machine.advance, Machine.advance, ← sum]

theorem nextByte_apply (s : Machine) : nextByte s = .ok (s.memory s.info.eip) (s.advance 1) := rfl

theorem nextSignedByte_apply (s : Machine) :
    nextSignedByte s = .ok (Displacement.byte.value s.memory s.info.eip) (s.advance Displacement.byte.size) := rfl

theorem nextLong_apply (s : Machine) :
    nextLong s = .ok (Displacement.long.value s.memory s.info.eip) (s.advance Displacement.long.size) := rfl

theorem sib_fields (byte : BitVec 8) :
    (byte >>> 6).toNat = (byte.extractLsb' 6 2).toNat ∧
      ((byte >>> 3) &&& 7).setWidth 3 = byte.extractLsb' 3 3 ∧ (byte &&& 7).setWidth 3 = byte.extractLsb' 0 3 := by
  have small := byte.isLt
  refine ⟨?_, BitVec.eq_of_toNat_eq ?_, BitVec.eq_of_toNat_eq ?_⟩
  · rw [BitVec.toNat_ushiftRight, BitVec.extractLsb'_toNat, Nat.shiftRight_eq_div_pow]
    omega
  · rw [BitVec.toNat_setWidth, toNat_and_mask (n := 0) (k := 3) rfl, BitVec.toNat_ushiftRight,
      BitVec.extractLsb'_toNat, Nat.shiftRight_eq_div_pow]
    omega
  · rw [BitVec.toNat_setWidth, toNat_and_mask (n := 0) (k := 3) rfl, BitVec.extractLsb'_toNat,
      Nat.shiftRight_eq_div_pow]
    omega

section Decode

variable {mod : Nat}

theorem sibDisplacement_apply (memory : mod < 3) (base : BitVec 3) (s : Machine) :
    sibDisplacement mod base s =
      .ok ((Displacement.decode mod base).value s.memory s.info.eip) (s.advance (Displacement.decode mod base).size) := by
  by_cases one : mod = 1
  · rw [sibDisplacement, Displacement.decode, if_pos one, if_pos one, nextSignedByte_apply]
  · by_cases long : mod = 2 ∨ base = 5
    · have absolute : mod = 2 ∨ mod = 0 ∧ base = 5 := by
        by_cases two : mod = 2
        · exact .inl two
        · exact .inr ⟨by omega, long.resolve_left two⟩
      rw [sibDisplacement, Displacement.decode, if_neg one, if_neg one, if_pos long, if_pos absolute, nextLong_apply]
    · rw [sibDisplacement, Displacement.decode, if_neg one, if_neg one, if_neg long,
        if_neg fun is => long (is.imp id And.right), pure_apply]
      exact congrArg (EStateM.Result.ok _) (advance_zero s).symm

theorem sibOffset_eq (byte : BitVec 8) (s : Machine) :
    sibOffset s.info mod (byte.extractLsb' 6 2).toNat (byte.extractLsb' 3 3) (byte.extractLsb' 0 3) =
      (Addressing.scaled mod byte).base.elim 0 s.info.reg +
        (Addressing.scaled mod byte).index.elim 0 (fun r => s.info.reg r <<< (Addressing.scaled mod byte).scale) := by
  have shifted : (if byte.extractLsb' 3 3 = 4 then 0 else s.info.reg (byte.extractLsb' 3 3)) <<<
      (byte.extractLsb' 6 2).toNat = (Addressing.scaled mod byte).index.elim 0
        (fun r => s.info.reg r <<< (Addressing.scaled mod byte).scale) := by
    dsimp only [Addressing.scaled]
    split
    · exact BitVec.zero_shiftLeft ..
    · rfl
  dsimp only [sibOffset]
  rw [shifted]
  by_cases absolute : mod = 0 ∧ byte.extractLsb' 0 3 = 5
  · have none : (Addressing.scaled mod byte).base = none := if_pos absolute
    rw [if_neg (by tauto), none]
    exact (BitVec.zero_add _).symm
  · have some : (Addressing.scaled mod byte).base = some (byte.extractLsb' 0 3) := if_neg absolute
    rw [if_pos (by tauto), some]
    exact BitVec.add_comm ..

theorem sib_apply (memory : mod < 3) (s : Machine) :
    sib mod s = .ok ((Addressing.scaled mod (s.memory s.info.eip)).address s)
      ((s.advance (Addressing.scaled mod (s.memory s.info.eip)).length).setOperand
        ((Addressing.scaled mod (s.memory s.info.eip)).address s)) := by
  obtain ⟨ss, index, base⟩ := sib_fields (s.memory s.info.eip)
  simp only [sib, bind_apply, nextByte_apply, get_apply, modify_apply, pure_apply, ss, index, base,
    sibDisplacement_apply memory, sibOffset_eq, advance_advance]
  rfl

theorem eaDisplacement_apply (memory : mod < 3) {rm : BitVec 3} (based : ¬(rm = 5 ∧ mod = 0)) (s : Machine) :
    eaDisplacement mod s =
      .ok ((Displacement.decode mod rm).value s.memory s.info.eip) (s.advance (Displacement.decode mod rm).size) := by
  obtain rfl | rfl | rfl : mod = 0 ∨ mod = 1 ∨ mod = 2 := by omega
  · have none : Displacement.decode 0 rm = .none := by
      rw [Displacement.decode, if_neg (by decide), if_neg (by simpa using based)]
    rw [none, eaDisplacement, pure_apply]
    exact congrArg (EStateM.Result.ok _) (advance_zero s).symm
  · rfl
  · rfl

theorem plain_address (rm : BitVec 3) (s : Machine) :
    (Addressing.plain mod rm).address s =
      (Addressing.plain mod rm).base.elim 0 s.info.reg + (Displacement.decode mod rm).value s.memory s.info.eip := by
  have here : s.info.eip + BitVec.ofNat 32 (Addressing.plain mod rm).sibBytes = s.info.eip := BitVec.add_zero _
  rw [Addressing.address, here]
  exact congrArg (· + _) (BitVec.add_zero _)

end Decode

theorem mod_of_code (code : Nat) : code >>> 6 &&& 3 = code / 64 % 4 := by
  rw [Nat.shiftRight_eq_div_pow]
  exact Nat.and_two_pow_sub_one_eq_mod _ 2

theorem ea_apply {code : Nat} (memory : code / 64 % 4 ≠ 3) (s : Machine) :
    ∃ offset, ea code s = .ok (effectiveAddress code s) ((s.advance (addressing code s).length).setOperand offset) := by
  have rmIs : BitVec.ofNat 3 (code &&& 7) = BitVec.ofNat 3 code := by
    apply BitVec.eq_of_toNat_eq
    rw [BitVec.toNat_ofNat, BitVec.toNat_ofNat, show code &&& 7 = code % 8 from Nat.and_two_pow_sub_one_eq_mod _ 3]
    omega
  have small : code / 64 % 4 < 3 := by omega
  rw [ea, effectiveAddress, addressing]
  dsimp only
  rw [mod_of_code, rmIs]
  generalize code / 64 % 4 = mod at memory small ⊢
  generalize BitVec.ofNat 3 code = rm
  by_cases scaled : rm = 4
  · rw [if_pos ⟨scaled, memory⟩, if_pos scaled]
    exact ⟨_, sib_apply small s⟩
  · have length : (Addressing.plain mod rm).length = (Displacement.decode mod rm).size := Nat.zero_add _
    rw [if_neg fun both => scaled both.1, if_neg scaled, plain_address, length]
    by_cases absolute : rm = 5 ∧ mod = 0
    · obtain ⟨rfl, rfl⟩ := absolute
      refine ⟨s.memory.long s.info.eip, ?_⟩
      have none : (Addressing.plain 0 5).base = none := rfl
      have long : Displacement.decode 0 5 = .long := rfl
      rw [if_pos ⟨rfl, rfl⟩, none, long, Option.elim_none, zero_add]
      rfl
    · have based : (Addressing.plain mod rm).base = some rm := if_neg fun both => absolute both.symm
      refine ⟨(Displacement.decode mod rm).value s.memory s.info.eip, ?_⟩
      rw [if_neg absolute, based, Option.elim_some, add_comm]
      simp only [bind_apply, get_apply, eaDisplacement_apply small absolute, modify_apply, pure_apply]

theorem ea_of_register {code : Nat} (register : code / 64 % 4 = 3) (s : Machine) :
    ea code s = mathAbort (signalBit sigill) s := by
  rw [ea]
  dsimp only
  rw [mod_of_code, register, if_neg fun both => both.2 rfl, if_neg fun both => absurd both.2 (by decide)]
  rfl

/-- `ea` abandons a register form, and leaves EIP behind the SIB byte and the displacement of the others. -/
theorem ea_addresses (code : Nat) (s : Machine) :
    if code / 64 % 4 = 3 then
      ea code s = .error .aborted
        { s with
          info := { s.info with eip := s.info.origEip }
          signal := s.signal ||| signalBit sigill }
    else
      ∃ foo, ea code s = .ok (effectiveAddress code s)
        { s with
          info := { s.info with eip := s.info.eip + BitVec.ofNat 32 (addressing code s).length }
          i387 := { s.i387 with foo, fos := 0x17 } } := by
  split
  next register => exact ea_of_register register s
  next memory => exact ea_apply memory s

end Linux012.Math

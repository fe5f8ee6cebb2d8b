import Linux012.Lib.ByteMemory
import Mathlib.Data.BitVec
import Mathlib.Data.Nat.Digits.Lemmas

/-! The text of a number (`kernel/vsprintf.c`). -/

set_option autoImplicit false

namespace Linux012.Kernel.Vsprintf

open ByteMemory Function List

def ZEROPAD : BitVec 32 := 1
def SIGN : BitVec 32 := 2
def PLUS : BitVec 32 := 4
def SPACE : BitVec 32 := 8
def LEFT : BitVec 32 := 16
def SPECIAL : BitVec 32 := 32
def SMALL : BitVec 32 := 64

def int (x : Int) : Int := x.bmod (2 ^ 32)

def char (c : Char) : UInt8 := c.toUInt8

def digits (type : BitVec 32) : List UInt8 :=
  (if type &&& SMALL ≠ 0 then "0123456789abcdefghijklmnopqrstuvwxyz".toList
    else "0123456789ABCDEFGHIJKLMNOPQRSTUVWXYZ".toList).map char

structure Out where
  mem : Memory
  str : Nat

def Out.put (o : Out) (c : UInt8) : Out where
  mem := update o.mem o.str c
  str := o.str + 1

theorem int_of_fits {x : Int} (low : -2 ^ 31 ≤ x) (high : x < 2 ^ 31) : int x = x :=
  Int.bmod_eq_of_le low high

theorem int_le {x : Int} (positive : 0 ≤ x) : int x ≤ x := by
  have remainder : x % ((2 ^ 32 : Nat) : Int) ≤ x := by omega
  rw [int, Int.bmod_def]
  split <;> omega

/-- `while (size-- > 0) *str++ = c` -/
def pad (c : UInt8) (size : Int) (o : Out) : Int × Out :=
  if 0 < size then pad c (int (size - 1)) (o.put c) else (int (size - 1), o)
termination_by size.toNat
decreasing_by
  have smaller := @int_le (size - 1) (by omega)
  omega

def zeros (i : Nat) (precision : Int) (o : Out) : Out :=
  if i < precision then zeros i (int (precision - 1)) (o.put (char '0')) else o
termination_by precision.toNat
decreasing_by
  have smaller := @int_le (precision - 1) (by omega)
  omega

/-- `while (num != 0) tmp[i++] = digits[do_div(num, base)]`; nothing is stored outside of `tmp`. -/
def digitLoop (digits : List UInt8) (base num : BitVec 32) (tmp : Nat → UInt8) (i : Nat) :
    Option ((Nat → UInt8) × Nat) :=
  if num = 0 then some (tmp, i)
  else if i < 36 then
    digits[(num % base).toNat]?.bind fun digit =>
      digitLoop digits base (num / base) (update tmp i digit) (i + 1)
  else none
termination_by 36 - i

def copyDigits (tmp : Nat → UInt8) : Nat → Out → Option Out
  | 0, o => some o
  | i + 1, o => if i < 36 then copyDigits tmp i (o.put (tmp i)) else none

def layout (type : BitVec 32) : BitVec 32 := if type &&& LEFT ≠ 0 then type &&& ~~~ZEROPAD else type

def numSign (type num : BitVec 32) : BitVec 32 × UInt8 :=
  if type &&& SIGN ≠ 0 ∧ num.toInt < 0 then (-num, char '-')
  else (num, if type &&& PLUS ≠ 0 then char '+' else if type &&& SPACE ≠ 0 then char ' ' else 0)

def numDigits (digits : List UInt8) (base num : BitVec 32) (tmp : Nat → UInt8) : Option ((Nat → UInt8) × Nat) :=
  if num = 0 then some (update tmp 0 (char '0'), 1) else digitLoop digits base num tmp 0

def putPrefix (type base : BitVec 32) (o : Out) : Option Out :=
  if type &&& SPECIAL = 0 then some o
  else if base = 8 then some (o.put (char '0'))
  else if base = 16 then (digits type)[33]?.map fun x => (o.put (char '0')).put x
  else some o

/-- The part of `number` behind the loop that stores `i` digits in `tmp`. -/
def putNumber (tmp : Nat → UInt8) (i : Nat) (sign : UInt8) (o : Out) (base : BitVec 32) (size precision : Int)
    (type : BitVec 32) : Option Out :=
  let c := if type &&& ZEROPAD ≠ 0 then char '0' else char ' '
  let precision := if precision < i then (i : Int) else precision
  let size := int (size - precision)
  let before := if type &&& (ZEROPAD + LEFT) = 0 then pad (char ' ') size o else (size, o)
  let o := if sign ≠ 0 then before.2.put sign else before.2
  (putPrefix type base o).bind fun o =>
    let between := if type &&& LEFT = 0 then pad c before.1 o else (before.1, o)
    (copyDigits tmp i (zeros i precision between.2)).map fun o => (pad (char ' ') between.1 o).2

/-- `tmp` holds what was on the stack; an access outside of it or of the digits gives `none`. -/
def number (tmp : Nat → UInt8) (o : Out) (num base : BitVec 32) (size precision : Int) (type : BitVec 32) :
    Option Out :=
  let type := layout type
  if base.toInt < 2 ∨ 36 < base.toInt then some { o with str := 0 }
  else
    let (num, sign) := numSign type num
    let size := if sign ≠ 0 then int (size - 1) else size
    let size :=
      if type &&& SPECIAL = 0 then size
      else if base = 16 then int (size - 2)
      else if base = 8 then int (size - 1)
      else size
    (numDigits (digits type) base num tmp).bind fun (tmp, i) => putNumber tmp i sign o base size precision type

/-! ## What is to be written -/

section Spec

variable (type num : BitVec 32)

def magnitude : Nat := if type &&& SIGN ≠ 0 ∧ num.toInt < 0 then num.toInt.natAbs % 2 ^ 32 else num.toNat

def signText : List UInt8 :=
  if type &&& SIGN ≠ 0 ∧ num.toInt < 0 then [char '-']
  else if type &&& PLUS ≠ 0 then [char '+']
  else if type &&& SPACE ≠ 0 then [char ' ']
  else []

def prefixText (base : Nat) : List UInt8 :=
  if type &&& SPECIAL = 0 then []
  else if base = 8 then [char '0']
  else if base = 16 then [char '0', if type &&& SMALL ≠ 0 then char 'x' else char 'X']
  else []

def digitText (base n : Nat) : List UInt8 :=
  if n = 0 then [char '0'] else ((Nat.digits base n).map fun k => (digits type).getD k 0).reverse

def preciseText (base n : Nat) (precision : Int) : List UInt8 :=
  List.replicate (precision.toNat - (digitText type base n).length) (char '0') ++ digitText type base n

def unpadded (base : Nat) (precision : Int) : List UInt8 :=
  signText type num ++ prefixText type base ++ preciseText type base (magnitude type num) precision

/-- The unpadded text is filled up to the width: behind it, with zeros after the prefix, or before it. -/
def text (base : Nat) (size precision : Int) : List UInt8 :=
  let missing := size.toNat - (unpadded type num base precision).length
  if type &&& LEFT ≠ 0 then unpadded type num base precision ++ List.replicate missing (char ' ')
  else if type &&& ZEROPAD ≠ 0 then
    signText type num ++ prefixText type base ++ List.replicate missing (char '0') ++
      preciseText type base (magnitude type num) precision
  else List.replicate missing (char ' ') ++ unpadded type num base precision

end Spec

/-! ## The loops -/

def Out.write (o : Out) (text : List UInt8) : Out := text.foldl Out.put o

theorem write_append (o : Out) (front back : List UInt8) : o.write (front ++ back) = (o.write front).write back :=
  foldl_append

variable {size : Int}

theorem pad_eq (c : UInt8) (o : Out) (low : -2 ^ 31 < size) (high : size < 2 ^ 31) :
    pad c size o = (min size 0 - 1, o.write (List.replicate size.toNat c)) := by
  induction size, o using pad.induct c with
  | case1 size o more ih =>
    have fits : int (size - 1) = size - 1 := int_of_fits (by omega) (by omega)
    rw [fits] at ih
    have count : size.toNat = (size - 1).toNat + 1 := by omega
    rw [pad, if_pos more, fits, ih (by omega) (by omega), count, replicate_succ]
    exact Prod.ext (by dsimp only; omega) rfl
  | case2 size o stop =>
    have fits : int (size - 1) = size - 1 := int_of_fits (by omega) (by omega)
    have none : size.toNat = 0 := by omega
    rw [pad, if_neg stop, fits, none]
    exact Prod.ext (by dsimp only; omega) rfl

theorem pad_none (c : UInt8) (o : Out) (low : -2 ^ 31 < size) (none : size ≤ 0) :
    pad c size o = (size - 1, o) := by
  have count : size.toNat = 0 := by omega
  rw [pad_eq c o low (by omega), count, min_eq_left none]
  rfl

theorem zeros_eq {i : Nat} {precision : Int} (o : Out) (low : -2 ^ 31 < precision) (high : precision < 2 ^ 31) :
    zeros i precision o = o.write (List.replicate (precision - i).toNat (char '0')) := by
  induction precision, o using zeros.induct i with
  | case1 precision o more ih =>
    have fits : int (precision - 1) = precision - 1 := int_of_fits (by omega) (by omega)
    rw [fits] at ih
    have count : (precision - i).toNat = (precision - 1 - i).toNat + 1 := by omega
    rw [zeros, if_pos more, fits, ih (by omega) (by omega), count, replicate_succ]
    rfl
  | case2 precision o stop =>
    have none : (precision - i).toNat = 0 := by omega
    rw [zeros, if_neg stop, none]
    rfl

theorem copyDigits_eq (tmp : Nat → UInt8) {i : Nat} (o : Out) (inside : i ≤ 36) :
    copyDigits tmp i o = some (o.write ((List.range i).map tmp).reverse) := by
  induction i generalizing o with
  | zero => rfl
  | succ i ih =>
    rw [copyDigits, if_pos (by omega), ih _ (by omega), range_succ, map_append, reverse_append]
    rfl

theorem length_digits (type : BitVec 32) : (digits type).length = 36 := by
  rw [digits, length_map]
  split <;> decide

theorem range_map_update (tmp : Nat → UInt8) (i : Nat) (digit : UInt8) :
    (List.range (i + 1)).map (update tmp i digit) = (List.range i).map tmp ++ [digit] := by
  have others : (List.range i).map (update tmp i digit) = (List.range i).map tmp :=
    map_congr_left fun j earlier => update_of_ne (mem_range.mp earlier).ne digit tmp
  rw [range_succ, map_append, others, map_singleton, update_self]

theorem digitLoop_eq (type : BitVec 32) {base : BitVec 32} (large : 2 ≤ base.toNat) (small : base.toNat ≤ 36) (num : BitVec 32)
    (tmp : Nat → UInt8) (i : Nat) (room : i + (Nat.digits base.toNat num.toNat).length ≤ 36) :
    ∃ tmp', digitLoop (digits type) base num tmp i = some (tmp', i + (Nat.digits base.toNat num.toNat).length) ∧
      (List.range (i + (Nat.digits base.toNat num.toNat).length)).map tmp' =
        (List.range i).map tmp ++ (Nat.digits base.toNat num.toNat).map fun k => (digits type).getD k 0 := by
  induction num, tmp, i using digitLoop.induct base with
  | case1 tmp i =>
    have none : Nat.digits base.toNat (0 : BitVec 32).toNat = [] := Nat.digits_zero _
    rw [digitLoop, if_pos rfl, none]
    exact ⟨tmp, rfl, (append_nil _).symm⟩
  | case2 num tmp i nonzero inside ih =>
    have positive : 0 < num.toNat := Nat.pos_of_ne_zero fun zero => nonzero (BitVec.eq_of_toNat_eq zero)
    have more : Nat.digits base.toNat num.toNat =
        (num % base).toNat :: Nat.digits base.toNat (num / base).toNat := by
      rw [Nat.digits_def' large positive, BitVec.toNat_umod, BitVec.toNat_udiv]
    have below : (num % base).toNat < (digits type).length := by
      rw [length_digits, BitVec.toNat_umod]
      exact (Nat.mod_lt _ (by omega)).trans_le small
    have isDigit : (digits type)[(num % base).toNat]? = some ((digits type).getD (num % base).toNat 0) := by
      rw [getD_eq_getElem?_getD, getElem?_eq_getElem below]
      rfl
    rw [more, length_cons] at room ⊢
    obtain ⟨tmp', ran, stored⟩ := ih ((digits type).getD (num % base).toNat 0) (by omega)
    have sum : i + ((Nat.digits base.toNat (num / base).toNat).length + 1) =
        i + 1 + (Nat.digits base.toNat (num / base).toNat).length := by omega
    refine ⟨tmp', ?_, ?_⟩
    · rw [digitLoop, if_neg nonzero, if_pos inside, isDigit, Option.bind_some, sum, ran]
    · rw [sum, stored, range_map_update, map_cons, append_assoc]
      rfl
  | case3 num tmp i nonzero outside =>
    have positive : num.toNat ≠ 0 := fun zero => nonzero (BitVec.eq_of_toNat_eq zero)
    have some_ := length_pos_iff.mpr (@Nat.digits_ne_nil_iff_ne_zero base.toNat _ |>.mpr positive)
    omega

theorem numDigits_eq (type : BitVec 32) {base : BitVec 32} (large : 2 ≤ base.toNat) (small : base.toNat ≤ 36) (num : BitVec 32)
    (tmp : Nat → UInt8) :
    ∃ tmp', numDigits (digits type) base num tmp = some (tmp', (digitText type base.toNat num.toNat).length) ∧
      (digitText type base.toNat num.toNat).length ≤ 32 ∧
      ((List.range (digitText type base.toNat num.toNat).length).map tmp').reverse =
        digitText type base.toNat num.toNat := by
  by_cases zero : num = 0
  · subst zero
    exact ⟨update tmp 0 (char '0'), rfl, (by decide : 1 ≤ 32), rfl⟩
  · have nonzero : num.toNat ≠ 0 := fun none => zero (BitVec.eq_of_toNat_eq none)
    have few : (Nat.digits base.toNat num.toNat).length ≤ 32 :=
      (Nat.digits_length_le_iff large _).mpr (num.isLt.trans_le (Nat.pow_le_pow_left large 32))
    obtain ⟨tmp', ran, stored⟩ := digitLoop_eq type large small num tmp 0 (by omega)
    rw [Nat.zero_add] at ran stored
    rw [numDigits, if_neg zero, digitText, if_neg nonzero, length_reverse, length_map]
    exact ⟨tmp', ran, few, congrArg List.reverse stored⟩

/-! ## The parts of the text -/

theorem numSign_eq (type num : BitVec 32) :
    (numSign type num).1.toNat = magnitude type num ∧
      signText type num = if (numSign type num).2 ≠ 0 then [(numSign type num).2] else [] := by
  rw [numSign, magnitude, signText]
  by_cases minus : type &&& SIGN ≠ 0 ∧ num.toInt < 0
  · rw [if_pos minus, if_pos minus, if_pos minus]
    refine ⟨?_, rfl⟩
    have bound := num.isLt
    have value := BitVec.toInt_eq_toNat_cond num
    dsimp only
    rw [BitVec.toNat_neg]
    split at value <;> omega
  · rw [if_neg minus, if_neg minus, if_neg minus]
    refine ⟨rfl, ?_⟩
    dsimp only
    split
    · rfl
    · split <;> rfl

theorem prefixText_eq (type base : BitVec 32) :
    prefixText type base.toNat =
      if type &&& SPECIAL = 0 then []
      else if base = 8 then [char '0']
      else if base = 16 then [char '0', if type &&& SMALL ≠ 0 then char 'x' else char 'X']
      else [] := by
  have eight : base.toNat = 8 ↔ base = 8 := @BitVec.toNat_inj 32 base 8
  have sixteen : base.toNat = 16 ↔ base = 16 := @BitVec.toNat_inj 32 base 16
  simp only [prefixText, eight, sixteen]

theorem putPrefix_eq (type base : BitVec 32) (o : Out) :
    putPrefix type base o = some (o.write (prefixText type base.toNat)) := by
  have x : (digits type)[33]? = some (if type &&& SMALL ≠ 0 then char 'x' else char 'X') := by
    rw [digits]
    split <;> decide
  rw [putPrefix, prefixText_eq, x]
  split
  · rfl
  · split
    · rfl
    · split <;> rfl

theorem size_behind_prefix (type base : BitVec 32) (low : -2 ^ 30 ≤ size) (high : size < 2 ^ 31) :
    (if type &&& SPECIAL = 0 then size
      else if base = 16 then int (size - 2) else if base = 8 then int (size - 1) else size) =
      size - (prefixText type base.toNat).length := by
  rw [prefixText_eq]
  by_cases plain : type &&& SPECIAL = 0
  · rw [if_pos plain, if_pos plain]
    exact (sub_zero size).symm
  · rw [if_neg plain, if_neg plain]
    by_cases octal : base = 8
    · subst octal
      exact int_of_fits (by omega) (by omega)
    · by_cases hex : base = 16
      · subst hex
        exact int_of_fits (by omega) (by omega)
      · rw [if_neg hex, if_neg octal, if_neg octal, if_neg hex]
        exact (sub_zero size).symm

theorem length_preciseText (type : BitVec 32) (base n : Nat) (precision : Int) :
    (preciseText type base n precision).length = max precision.toNat (digitText type base n).length := by
  rw [preciseText, length_append, length_replicate]
  omega

theorem unpadded_flags (type : BitVec 32) :
    type &&& (ZEROPAD + LEFT) = 0 ↔ type &&& ZEROPAD = 0 ∧ type &&& LEFT = 0 := by
  have union : ZEROPAD + LEFT = ZEROPAD ||| LEFT := by decide
  rw [union, BitVec.and_or_distrib_left]
  exact BitVec.or_eq_zero_iff

section Put

variable {tmp : Nat → UInt8} {i : Nat} {num base type : BitVec 32} {size precision : Int} {n : Nat}

theorem putNumber_eq (o : Out) (few : i ≤ 32)
    (stored : ((List.range i).map tmp).reverse = digitText type base.toNat n)
    (wide : -4 ≤ size) (width : size ≤ 2 ^ 30) (least : -1 ≤ precision) (most : precision ≤ 2 ^ 30) :
    putNumber tmp i (numSign type num).2 o base size precision type =
      some (o.write
        (let missing := (size - max precision i).toNat
        if type &&& LEFT ≠ 0 then
          signText type num ++ prefixText type base.toNat ++ preciseText type base.toNat n precision ++
            List.replicate missing (char ' ')
        else if type &&& ZEROPAD ≠ 0 then
          signText type num ++ prefixText type base.toNat ++ List.replicate missing (char '0') ++
            preciseText type base.toNat n precision
        else
          List.replicate missing (char ' ') ++ (signText type num ++ prefixText type base.toNat ++
            preciseText type base.toNat n precision))) := by
  have larger : (if precision < i then (i : Int) else precision) = max precision i := by
    split <;> omega
  have fits : int (size - max precision i) = size - max precision i := int_of_fits (by omega) (by omega)
  have putSign (o : Out) : (if (numSign type num).2 ≠ 0 then o.put (numSign type num).2 else o) =
      o.write (signText type num) := by
    rw [(numSign_eq type num).2]
    split <;> rfl
  have count : i = (digitText type base.toNat n).length := by
    rw [← stored, length_reverse, length_map, length_range]
  have putDigits (o : Out) : copyDigits tmp i (zeros i (max precision i) o) =
      some (o.write (preciseText type base.toNat n precision)) := by
    have zeroCount : (max precision i - i).toNat = precision.toNat - i := by omega
    rw [zeros_eq o (by omega) (by omega), copyDigits_eq tmp _ (by omega), stored, ← write_append, zeroCount, preciseText,
      ← count]
  rw [putNumber]
  dsimp only
  simp only [larger, fits, putSign, putPrefix_eq, Option.bind_some, putDigits, Option.map_some]
  generalize missing : size - max precision i = room
  have spaces (c : UInt8) (o : Out) : pad c room o = (min room 0 - 1, o.write (List.replicate room.toNat c)) :=
    pad_eq c o (by omega) (by omega)
  -- A loop that has come to its end leaves a negative size to the next ones.
  have second (c : UInt8) (o : Out) : pad c (min room 0 - 1) o = (min room 0 - 1 - 1, o) :=
    pad_none c o (by omega) (by omega)
  have third (c : UInt8) (o : Out) : pad c (min room 0 - 1 - 1) o = (min room 0 - 1 - 1 - 1, o) :=
    pad_none c o (by omega) (by omega)
  by_cases left : type &&& LEFT = 0
  · by_cases blank : type &&& ZEROPAD = 0
    · have both := (unpadded_flags type).mpr ⟨blank, left⟩
      simp only [if_pos both, if_pos left, if_neg (not_not.mpr left), if_neg (not_not.mpr blank), spaces, second, third,
        write_append]
    · have zeroPadded : ¬type &&& (ZEROPAD + LEFT) = 0 := fun none => blank ((unpadded_flags type).mp none).1
      simp only [if_neg zeroPadded, if_pos left, if_neg (not_not.mpr left), if_pos blank, spaces, second, write_append]
  · have leftPadded : ¬type &&& (ZEROPAD + LEFT) = 0 := fun none => left ((unpadded_flags type).mp none).2
    simp only [if_neg leftPadded, if_neg left, if_pos left, spaces, write_append]

theorem layout_and (flag type : BitVec 32) (other : ~~~ZEROPAD &&& flag = flag) :
    layout type &&& flag = type &&& flag := by
  rw [layout]
  split
  · rw [BitVec.and_assoc, other]
  · rfl

theorem unpadded_layout (base : Nat) : unpadded (layout type) num base precision = unpadded type num base precision := by
  rw [unpadded, signText, prefixText, preciseText, digitText, digits, magnitude, layout_and SIGN type (by decide),
    layout_and PLUS type (by decide), layout_and SPACE type (by decide), layout_and SPECIAL type (by decide),
    layout_and SMALL type (by decide)]
  rfl

theorem text_layout (base : Nat) : text (layout type) num base size precision = text type num base size precision := by
  by_cases left : type &&& LEFT = 0
  · rw [layout, if_neg (not_not.mpr left)]
  · simp only [text, unpadded_layout, layout_and LEFT type (by decide), ne_eq, left, not_false_eq_true, if_true]

theorem length_unpadded (type num : BitVec 32) (base : Nat) (precision : Int) :
    (unpadded type num base precision).length =
      (signText type num).length + (prefixText type base).length +
        max precision.toNat (digitText type base (magnitude type num)).length := by
  rw [unpadded, length_append, length_append, length_preciseText]

theorem length_text (type num : BitVec 32) (base : Nat) (size precision : Int) :
    (text type num base size precision).length = max size.toNat (unpadded type num base precision).length := by
  have parts : (unpadded type num base precision).length = (signText type num).length + (prefixText type base).length +
      (preciseText type base (magnitude type num) precision).length := by
    rw [unpadded, length_append, length_append]
  rw [text]
  split
  · rw [length_append, length_replicate]
    omega
  · split
    · rw [length_append, length_append, length_append, length_replicate]
      omega
    · rw [length_append, length_replicate]
      omega

theorem number_eq (tmp : Nat → UInt8) (o : Out) (large : 2 ≤ base.toNat) (small : base.toNat ≤ 36)
    (wide : -1 ≤ size) (width : size ≤ 2 ^ 30) (least : -1 ≤ precision) (most : precision ≤ 2 ^ 30) :
    number tmp o num base size precision type = some (o.write (text type num base.toNat size precision)) := by
  have isBase : ¬(base.toInt < 2 ∨ 36 < base.toInt) := by
    rw [BitVec.toInt_eq_toNat_of_lt (by omega)]
    omega
  rw [← text_layout, number]
  dsimp only
  rw [if_neg isBase]
  generalize layout type = type
  obtain ⟨isNum, isSign⟩ := numSign_eq type num
  have signSize : (if (numSign type num).2 ≠ 0 then int (size - 1) else size) = size - (signText type num).length := by
    rw [isSign]
    split
    · exact int_of_fits (by omega) (by omega)
    · exact (sub_zero size).symm
  have short : (signText type num).length ≤ 1 := by
    rw [isSign]
    split
    · exact Nat.le_refl 1
    · exact Nat.zero_le 1
  have prefixShort : (prefixText type base.toNat).length ≤ 2 := by
    rw [prefixText]
    split
    · exact Nat.zero_le 2
    · split
      · exact Nat.le_succ 1
      · split
        · exact Nat.le_refl 2
        · exact Nat.zero_le 2
  obtain ⟨stack, ran, few, stored⟩ := numDigits_eq type large small (numSign type num).1 tmp
  rw [signSize, size_behind_prefix type base (by omega) (by omega), ran, Option.bind_some,
    putNumber_eq o few stored (by omega) (by omega) least most, isNum, text]
  have missing : (size - (signText type num).length - (prefixText type base.toNat).length -
      max precision (digitText type base.toNat (magnitude type num)).length).toNat =
        size.toNat - (unpadded type num base.toNat precision).length := by
    rw [length_unpadded]
    omega
  rw [missing]
  rfl

end Put

/-! ## The text in memory -/

theorem str_write (o : Out) (text : List UInt8) : (o.write text).str = o.str + text.length := by
  induction text generalizing o with
  | nil => rfl
  | cons c text ih =>
    show ((o.put c).write text).str = _
    rw [ih, length_cons]
    show o.str + 1 + text.length = _
    omega

theorem write_outside (o : Out) (text : List UInt8) {x : Nat} (outside : x < o.str ∨ o.str + text.length ≤ x) :
    (o.write text).mem x = o.mem x := by
  induction text generalizing o with
  | nil => rfl
  | cons c text ih =>
    rw [length_cons] at outside
    have elsewhere : x < (o.put c).str ∨ (o.put c).str + text.length ≤ x := by
      show x < o.str + 1 ∨ o.str + 1 + text.length ≤ x
      omega
    have other : x ≠ o.str := by omega
    have kept : (o.put c).mem x = o.mem x := update_of_ne other ..
    exact (ih (o.put c) elsewhere).trans kept

theorem write_loaded (o : Out) (text : List UInt8) : Loaded (o.write text).mem o.str text := by
  induction text generalizing o with
  | nil => trivial
  | cons c text ih =>
    refine ⟨?_, ih (o.put c)⟩
    exact (write_outside (o.put c) text (.inl (Nat.lt_succ_self _))).trans (update_self ..)

/-- The text is in memory from the place that `str` points to, nothing else is changed, and what is returned is the
address behind it. -/
theorem number_writes (tmp : Nat → UInt8) (o : Out) {num base type : BitVec 32} {size precision : Int}
    (large : 2 ≤ base.toNat) (small : base.toNat ≤ 36) (wide : -1 ≤ size) (width : size ≤ 2 ^ 30)
    (least : -1 ≤ precision) (most : precision ≤ 2 ^ 30) :
    ∃ o', number tmp o num base size precision type = some o' ∧
      Loaded o'.mem o.str (text type num base.toNat size precision) ∧
      (∀ x, x < o.str ∨ o'.str ≤ x → o'.mem x = o.mem x) ∧
      o'.str = o.str + max size.toNat (unpadded type num base.toNat precision).length := by
  refine ⟨_, number_eq tmp o large small wide width least most, write_loaded o _, fun x outside => ?_, ?_⟩
  · rw [str_write] at outside
    exact write_outside o _ outside
  · rw [str_write, length_text]

theorem number_writes_octal :
    ∃ o', number (fun _ => 0) ⟨fun _ => 0, 100⟩ 0x80000000 8 20 (-1) (SIGN + SPECIAL) = some o' ∧ o'.str = 120 := by
  obtain ⟨o', ran, -, -, isEnd⟩ := @number_writes (fun _ => 0) ⟨fun _ => 0, 100⟩ 0x80000000 8 (SIGN + SPECIAL) 20 (-1)
    (by decide) (by decide) (by decide) (by decide) (by decide) (by decide)
  exact ⟨o', ran, isEnd.trans (by simp [unpadded, length_preciseText]; decide)⟩

end Linux012.Kernel.Vsprintf

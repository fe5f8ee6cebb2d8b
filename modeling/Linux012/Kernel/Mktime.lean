import Mathlib.Data.BitVec
import Mathlib.Logic.Function.Iterate
import Mathlib.Tactic.FinCases

/-! `kernel_mktime`, the calendar in which it counts, and the time of day. -/

set_option autoImplicit false

namespace Linux012.Kernel.Mktime

open BitVec (ofNat eq_of_toNat_eq toNat_ofNat ofNat_mul ofNat_add)

structure Date where
  tmMday : Int
  tmMon : Fin 12
  tmYear : Int

structure Tm extends Date where
  tmSec : Int
  tmMin : Int
  tmHour : Int

def MINUTE : Int := 60
def HOUR : Int := 60 * MINUTE
def DAY : Int := 24 * HOUR
def YEAR : Int := 365 * DAY

def month (mon : Fin 12) : Int :=
  DAY * [0, 31, 31 + 29, 31 + 29 + 31, 31 + 29 + 31 + 30, 31 + 29 + 31 + 30 + 31, 31 + 29 + 31 + 30 + 31 + 30,
    31 + 29 + 31 + 30 + 31 + 30 + 31, 31 + 29 + 31 + 30 + 31 + 30 + 31 + 31,
    31 + 29 + 31 + 30 + 31 + 30 + 31 + 31 + 30, 31 + 29 + 31 + 30 + 31 + 30 + 31 + 31 + 30 + 31,
    31 + 29 + 31 + 30 + 31 + 30 + 31 + 31 + 30 + 31 + 30].getD mon 0

/-- `res` up to the day. -/
def Date.res (date : Date) : Int :=
  let year := date.tmYear - 70
  let res := YEAR * year + DAY * (year + 1).tdiv 4
  let res := res + month date.tmMon
  let res := if 1 < date.tmMon.val ∧ (year + 2).tmod 4 ≠ 0 then res - DAY else res
  res + DAY * (date.tmMday - 1)

/-- The sum is made in a `long`, which wraps. -/
def kernelMktime (tm : Tm) : BitVec 32 :=
  .ofInt 32 (tm.res + HOUR * tm.tmHour + MINUTE * tm.tmMin + tm.tmSec)

/-! ## The calendar -/

def Leap (year : Int) : Prop := year % 4 = 0 ∧ (year % 100 ≠ 0 ∨ year % 400 = 0)

instance (year : Int) : Decidable (Leap year) := inferInstanceAs (Decidable (_ ∧ _))

def monthLength (year : Int) (mon : Fin 12) : Int :=
  match mon.val with
  | 1 => if Leap year then 29 else 28
  | 3 | 5 | 8 | 10 => 30
  | _ => 31

theorem month_next (mon : Fin 12) (more : mon.val < 11) :
    (mon + 1).val = mon.val + 1 ∧ month (mon + 1) = month mon + 86400 * monthLength 0 mon := by
  revert mon
  decide

theorem month_room (mon : Fin 12) : 0 ≤ month mon ∧ (1 < mon.val → 86400 ≤ month mon) := by
  revert mon
  decide

theorem monthLength_pos (year : Int) (mon : Fin 12) : 1 ≤ monthLength year mon := by
  by_cases leap : Leap year <;> fin_cases mon <;> simp [monthLength, leap]

/-- Until 2099 every fourth year is a leap year. -/
theorem monthLength_eq {year : Int} (recent : 70 ≤ year) (soon : year < 200) (mon : Fin 12) :
    monthLength (1900 + year) mon =
      if mon.val = 1 ∧ (year - 68) % 4 ≠ 0 then monthLength 0 mon - 1 else monthLength 0 mon := by
  have rule : (year - 68) % 4 = 0 ↔ Leap (1900 + year) := by
    rw [Leap]
    omega
  by_cases leap : Leap (1900 + year) <;> fin_cases mon <;> simp [monthLength, rule, leap] <;> decide

namespace Date

variable {date : Date}

def next (date : Date) : Date :=
  if date.tmMday < monthLength (1900 + date.tmYear) date.tmMon then { date with tmMday := date.tmMday + 1 }
  else if date.tmMon.val < 11 then ⟨1, date.tmMon + 1, date.tmYear⟩
  else ⟨1, 0, date.tmYear + 1⟩

def Valid (date : Date) : Prop :=
  70 ≤ date.tmYear ∧ 1 ≤ date.tmMday ∧ date.tmMday ≤ monthLength (1900 + date.tmYear) date.tmMon

theorem res_eq (recent : 70 ≤ date.tmYear) : date.res = 31536000 * (date.tmYear - 70) +
    86400 * ((date.tmYear - 69) / 4) + month date.tmMon -
    (if 1 < date.tmMon.val ∧ (date.tmYear - 68) % 4 ≠ 0 then 86400 else 0) + 86400 * (date.tmMday - 1) := by
  rw [res, Int.tdiv_eq_ediv_of_nonneg (by omega), Int.tmod_eq_emod_of_nonneg (by omega),
    show date.tmYear - 70 + 1 = date.tmYear - 69 by omega, show date.tmYear - 70 + 2 = date.tmYear - 68 by omega]
  simp only [YEAR, DAY, HOUR, MINUTE]
  split <;> omega

theorem Valid.year_le (valid : date.Valid) : 31536000 * (date.tmYear - 70) ≤ date.res := by
  obtain ⟨recent, first, -⟩ := valid
  have room := month_room date.tmMon
  rw [res_eq recent]
  split <;> omega

theorem Valid.next (valid : date.Valid) : date.next.Valid := by
  obtain ⟨recent, first, last⟩ := valid
  unfold Date.next
  split
  · exact ⟨recent, by dsimp only; omega, by dsimp only; omega⟩
  · split
    · exact ⟨recent, Int.le_refl 1, monthLength_pos _ _⟩
    · exact ⟨by dsimp only; omega, Int.le_refl 1, monthLength_pos _ _⟩

theorem Valid.res_next (valid : date.Valid) (soon : date.tmYear < 200) : date.next.res = date.res + 86400 := by
  rw [res_eq valid.next.1, res_eq valid.1]
  obtain ⟨recent, first, last⟩ := valid
  have length := monthLength_eq recent soon date.tmMon
  unfold Date.next
  split
  · dsimp only
    omega
  split
  next more =>
    obtain ⟨next, days⟩ := month_next date.tmMon more
    dsimp only
    rw [next, days]
    split_ifs at length ⊢ <;> omega
  next more =>
    have december : date.tmMon = 11 := by omega
    have days : month 0 = 0 ∧ month date.tmMon + 86400 * monthLength 0 date.tmMon = 86400 * 366 := by
      rw [december]
      decide
    dsimp only
    rw [days.1]
    split_ifs at length ⊢ <;> simp only [Fin.val_zero] at * <;> omega

theorem res_iterate (n : Nat) (small : 86400 * n < 2 ^ 31) :
    (next^[n] ⟨1, 0, 70⟩).Valid ∧ (next^[n] ⟨1, 0, 70⟩).res = 86400 * n := by
  induction n with
  | zero => exact ⟨⟨by decide, by decide, by decide⟩, by decide⟩
  | succ n ih =>
    obtain ⟨valid, counted⟩ := ih (by omega)
    have bound := valid.year_le
    rw [Function.iterate_succ_apply']
    exact ⟨valid.next, (valid.res_next (by omega)).trans (by omega)⟩

end Date

/-- `n` days after the first of January 1970, for every moment that a `long` has room for. -/
theorem kernelMktime_counts (n : Nat) (sec min hour : Int) (start : 0 ≤ HOUR * hour + MINUTE * min + sec)
    (small : DAY * n + HOUR * hour + MINUTE * min + sec < 2 ^ 31) :
    (kernelMktime ⟨Date.next^[n] ⟨1, 0, 70⟩, sec, min, hour⟩).toInt = DAY * n + HOUR * hour + MINUTE * min + sec := by
  simp only [DAY, HOUR, MINUTE] at start small ⊢
  rw [kernelMktime, (Date.res_iterate n (by omega)).2, BitVec.toInt_ofInt]
  simp only [HOUR, MINUTE]
  exact Int.bmod_eq_of_le (by omega) (by omega)

theorem kernelMktime_counts_last :
    (kernelMktime ⟨Date.next^[24855] ⟨1, 0, 70⟩, 7, 14, 3⟩).toInt = DAY * 24855 + HOUR * 3 + MINUTE * 14 + 7 :=
  kernelMktime_counts 24855 7 14 3 (by decide) (by decide)

/-! ## The time of day -/

abbrev Word := BitVec 32

def HZ : Word := 100

structure Clock where
  jiffies : Word
  jiffiesOffset : Word
  startupTime : Word
  minuteswest : Word
  dsttime : Word
  firsttime : Bool

namespace Clock

variable (clock : Clock)

def wait (ticks : Nat) : Clock := { clock with jiffies := clock.jiffies + .ofNat 32 ticks }

def ticks : Word := clock.jiffies + clock.jiffiesOffset

/-- `later` ticks come between the two results. -/
def sysGettimeofday (later : Nat) : Word × Word :=
  (clock.startupTime + clock.ticks / HZ, (clock.wait later).ticks % HZ * 1000000 / HZ)

def adjustClock : Clock := { clock with startupTime := clock.startupTime + clock.minuteswest * 60 }

def setZone (alone : Bool) : Word × Word → Clock
  | (minuteswest, dsttime) =>
    let zoned := { clock with minuteswest, dsttime, firsttime := false }
    if clock.firsttime && alone then zoned.adjustClock else zoned

/-- `between` ticks come between the two assignments. -/
def setTime (between : Nat) : Word × Word → Clock
  | (sec, usec) =>
    let late := { clock with startupTime := sec - clock.jiffies / HZ }.wait between
    { late with jiffiesOffset := (usec * HZ).sdiv 1000000 - late.jiffies % HZ }

def sysSettimeofday (suser : Bool) (tv tz : Option (Word × Word)) (between : Nat) : Int × Clock :=
  if suser then
    let zoned := tz.elim clock (clock.setZone tv.isNone)
    (0, tv.elim (zoned.wait between) (zoned.setTime between))
  else (-1, clock.wait between)

theorem ofNat_div {n : Nat} (small : n < 2 ^ 32) : ofNat 32 n / HZ = .ofNat 32 (n / 100) := by
  apply eq_of_toNat_eq
  rw [BitVec.toNat_udiv, toNat_ofNat, toNat_ofNat, Nat.mod_eq_of_lt small, Nat.mod_eq_of_lt (by omega)]
  rfl

theorem ofNat_mod {n : Nat} (small : n < 2 ^ 32) : ofNat 32 n % HZ = .ofNat 32 (n % 100) := by
  apply eq_of_toNat_eq
  rw [BitVec.toNat_umod, toNat_ofNat, toNat_ofNat, Nat.mod_eq_of_lt small]
  change n % 100 = _
  omega

theorem hundredths_eq {n : Nat} (small : n < 1000000) :
    (ofNat 32 n * HZ).sdiv 1000000 = .ofNat 32 (n / 10000) := by
  have product : ofNat 32 n * HZ = .ofNat 32 (n * 100) := (ofNat_mul n 100).symm
  have whole : (ofNat 32 (n * 100)).toNat = n * 100 := by
    rw [toNat_ofNat]
    exact Nat.mod_eq_of_lt (by omega)
  have positive : (ofNat 32 (n * 100)).msb = false := by
    rw [BitVec.msb_eq_decide, whole]
    exact decide_eq_false (by omega)
  apply eq_of_toNat_eq
  rw [product, BitVec.sdiv_eq, positive, show (1000000 : Word).msb = false from rfl]
  change (ofNat 32 (n * 100)).toNat / 1000000 = _
  rw [whole, toNat_ofNat]
  omega

theorem gettimeofday_eq {clock : Clock} {n later : Nat} (is : clock.ticks = .ofNat 32 n) (short : n + later < 2 ^ 32) :
    clock.sysGettimeofday later =
      (clock.startupTime + .ofNat 32 (n / 100), .ofNat 32 ((n + later) % 100 * 10000)) := by
  have afterwards : (clock.wait later).ticks = .ofNat 32 (n + later) := by
    rw [ofNat_add, ← is, ticks, ticks, wait, add_right_comm]
  rw [sysGettimeofday, is, afterwards, ofNat_div (by omega), ofNat_mod short,
    show (1000000 : Word) = .ofNat 32 1000000 from rfl, ← ofNat_mul, ofNat_div (by omega)]
  congr 2
  omega

/-- What is read is the time that was set and the ticks since then; a second that ends between the two
assignments counts twice. -/
theorem time_kept (clock : Clock) {sec usec : Nat} (tidy : usec < 1000000) (tz : Option (Word × Word))
    {between n later : Nat} (short : clock.jiffies.toNat + between + n + later < 2 ^ 32 - 100) :
    let set := (clock.sysSettimeofday true (some (.ofNat 32 sec, .ofNat 32 usec)) tz between).2
    let ended := (clock.jiffies.toNat + between) / 100 - clock.jiffies.toNat / 100
    let now := 100 * (sec + ended) + usec / 10000 + n
    (set.wait n).sysGettimeofday later = (.ofNat 32 (now / 100), .ofNat 32 ((now + later) % 100 * 10000)) := by
  intro set
  obtain ⟨zoned, same, isSet⟩ : ∃ zoned : Clock, zoned.jiffies = .ofNat 32 clock.jiffies.toNat ∧
      set = zoned.setTime between (.ofNat 32 sec, .ofNat 32 usec) := by
    cases tz with
    | none => exact ⟨clock, by simp, rfl⟩
    | some tz => exact ⟨clock.setZone false tz, by simp [setZone], rfl⟩
  generalize clock.jiffies.toNat = up at *
  intro ended now
  have ticks : (set.wait n).ticks = .ofNat 32 (100 * ((up + between) / 100) + usec / 10000 + n) := by
    rw [isSet]
    change zoned.jiffies + .ofNat 32 between + .ofNat 32 n + ((ofNat 32 usec * HZ).sdiv 1000000 -
      (zoned.jiffies + .ofNat 32 between) % HZ) = _
    rw [same, ← ofNat_add, ofNat_mod (by omega), hundredths_eq tidy, ← add_sub_assoc, sub_eq_iff_eq_add]
    simp only [← ofNat_add]
    congr 1
    omega
  have startup : (set.wait n).startupTime = .ofNat 32 sec - .ofNat 32 (up / 100) := by
    rw [isSet, ← ofNat_div (by omega), ← same]
    rfl
  rw [gettimeofday_eq ticks (by omega), startup, sub_add_eq_add_sub, ← ofNat_add,
    show sec + (100 * ((up + between) / 100) + usec / 10000 + n) / 100 = now / 100 + up / 100 by omega, ofNat_add,
    add_sub_cancel_right, show (100 * ((up + between) / 100) + usec / 10000 + n + later) % 100 = (now + later) % 100 by omega]

/-- Half a second past 1000, and a second and a half later. -/
theorem time_kept_late :
    let set := ((⟨199, 0, 0, 0, 0, true⟩ : Clock).sysSettimeofday true (some (.ofNat 32 1000, .ofNat 32 500000)) none 1).2
    (set.wait 150).sysGettimeofday 0 = (.ofNat 32 1003, .ofNat 32 0) :=
  time_kept ⟨199, 0, 0, 0, 0, true⟩ (by decide) none (by decide)

end Clock

end Linux012.Kernel.Mktime

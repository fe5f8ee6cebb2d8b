import Linux012.Lib.ByteMemory
import Mathlib.Data.BitVec

/-! `sys_getrlimit` and `sys_setrlimit` of `kernel/sys.c`, over the bytes of the kernel's segment. -/

set_option autoImplicit false

namespace Linux012.Kernel.ResourceLimits

open ByteMemory

abbrev Word := BitVec 32

def EPERM : Int := 1
def EINVAL : Int := 22

def RLIM_NLIMITS : Nat := 6

def SEGMENT : Nat := 2 ^ 24

/-- `current->euid` and `current->rlim`, as offsets in `struct task_struct`. -/
def EUID : Nat := 718
def RLIM : Nat := 756

structure RLimit where
  cur : Word
  max : Word
deriving DecidableEq

structure Current where
  address : Nat
  inside : address + RLIM + 8 * RLIM_NLIMITS ≤ SEGMENT

inductive Outcome where
  | returns (value : Int)
  | faults
deriving DecidableEq

def readLong (mem : Memory) (a : Nat) : Option Word :=
  if a + 4 ≤ SEGMENT then some (.ofNat 32 (getLong mem a)) else none

def writeLong (mem : Memory) (a : Nat) (value : Word) : Option Memory :=
  if a + 4 ≤ SEGMENT then some (putLong mem a value.toNat) else none

namespace Current

def suser (current : Current) (mem : Memory) : Bool :=
  mem (current.address + EUID) = 0 ∧ mem (current.address + EUID + 1) = 0

def rlim (current : Current) (resource : Word) (field : Nat) : Nat :=
  (current.address + RLIM + 8 * resource.toNat + field) % 2 ^ 32

/-- With what is put into the user's `struct rlimit`. -/
def sysGetrlimit (current : Current) (mem : Memory) (resource : Word) : Outcome × List Word :=
  if RLIM_NLIMITS ≤ resource.toInt then (.returns (-EINVAL), [])
  else
    match readLong mem (current.rlim resource 0) with
    | none => (.faults, [])
    | some cur =>
      match readLong mem (current.rlim resource 4) with
      | none => (.faults, [cur])
      | some max => (.returns 0, [cur, max])

/-- `new` is what the user's `struct rlimit` holds. -/
def sysSetrlimit (current : Current) (mem : Memory) (resource : Word) (new : RLimit) : Outcome × Memory :=
  if RLIM_NLIMITS ≤ resource.toInt then (.returns (-EINVAL), mem)
  else
    match readLong mem (current.rlim resource 4) with
    | none => (.faults, mem)
    | some max =>
      if (max.toInt < new.cur.toInt ∨ max.toInt < new.max.toInt) ∧ current.suser mem = false then
        (.returns (-EPERM), mem)
      else
        match writeLong mem (current.rlim resource 0) new.cur with
        | none => (.faults, mem)
        | some mem =>
          match writeLong mem (current.rlim resource 4) new.max with
          | none => (.faults, mem)
          | some mem => (.returns 0, mem)

def InRange (resource : Word) : Prop := 0 ≤ resource.toInt ∧ resource.toInt < RLIM_NLIMITS

def InLimit (current : Current) (resource : Word) (x : Nat) : Prop :=
  current.address + RLIM + 8 * resource.toNat ≤ x ∧ x < current.address + RLIM + 8 * resource.toNat + 8

structure Confined (current : Current) (resource : Word) : Prop where
  changes : ∀ mem new x, (current.sysSetrlimit mem resource new).2 x ≠ mem x →
    InRange resource ∧ current.InLimit resource x
  reveals : ∀ mem mem', (InRange resource → ∀ x, current.InLimit resource x → mem x = mem' x) →
    current.sysGetrlimit mem resource = current.sysGetrlimit mem' resource
  refuses : ¬InRange resource → ∀ mem new,
    current.sysSetrlimit mem resource new = (.returns (-EINVAL), mem) ∧
      current.sysGetrlimit mem resource = (.returns (-EINVAL), [])

inductive Call where
  | get (resource : Word)
  | set (resource : Word) (new : RLimit)

def Call.resource : Call → Word
  | .get resource => resource
  | .set resource _ => resource

def run (current : Current) (mem : Memory) : List Call → Memory
  | [] => mem
  | .get resource :: calls =>
    match (current.sysGetrlimit mem resource).1 with
    | .faults => mem
    | .returns _ => current.run mem calls
  | .set resource new :: calls =>
    match current.sysSetrlimit mem resource new with
    | (.faults, mem) => mem
    | (.returns _, mem) => current.run mem calls

def rlimMax (current : Current) (mem : Memory) (i : Nat) : Word :=
  .ofNat 32 (getLong mem (current.address + RLIM + 8 * i + 4))

/-! ## One call -/

variable {current : Current} {mem mem' : Memory} {resource : Word} {new : RLimit}

theorem toNat_of_nonneg (nonneg : 0 ≤ resource.toInt) : (resource.toNat : Int) = resource.toInt := by
  rw [BitVec.toInt_eq_toNat_cond] at nonneg ⊢
  have := resource.isLt
  split at nonneg <;> omega

theorem rlim_of_inRange (inRange : InRange resource) {field : Nat} (small : field < 8) :
    current.rlim resource field = current.address + RLIM + 8 * resource.toNat + field := by
  have same := toNat_of_nonneg inRange.1
  have below := inRange.2
  have inside := current.inside
  rw [rlim, Nat.mod_eq_of_lt]
  simp only [RLIM_NLIMITS, SEGMENT] at below inside
  omega

theorem rlim_inside (inRange : InRange resource) {field : Nat} (small : field ≤ 4) :
    current.rlim resource field + 4 ≤ SEGMENT := by
  have same := toNat_of_nonneg inRange.1
  have below := inRange.2
  have inside := current.inside
  rw [rlim_of_inRange inRange (by omega)]
  simp only [RLIM_NLIMITS] at below inside
  omega

theorem sysGetrlimit_of_inRange (inRange : InRange resource) :
    current.sysGetrlimit mem resource =
      (.returns 0, [.ofNat 32 (getLong mem (current.address + RLIM + 8 * resource.toNat)),
        .ofNat 32 (getLong mem (current.address + RLIM + 8 * resource.toNat + 4))]) := by
  rw [sysGetrlimit, if_neg (not_le.mpr inRange.2), readLong, readLong, if_pos (rlim_inside inRange (by decide)),
    if_pos (rlim_inside inRange (by decide)), rlim_of_inRange inRange (by decide), rlim_of_inRange inRange (by decide)]
  rfl

def putLimit (current : Current) (mem : Memory) (resource : Word) (new : RLimit) : Memory :=
  putLong (putLong mem (current.address + RLIM + 8 * resource.toNat) new.cur.toNat)
    (current.address + RLIM + 8 * resource.toNat + 4) new.max.toNat

theorem sysSetrlimit_of_inRange (inRange : InRange resource) :
    current.sysSetrlimit mem resource new =
      let max : Word := .ofNat 32 (getLong mem (current.address + RLIM + 8 * resource.toNat + 4))
      if (max.toInt < new.cur.toInt ∨ max.toInt < new.max.toInt) ∧ current.suser mem = false then
        (.returns (-EPERM), mem)
      else (.returns 0, current.putLimit mem resource new) := by
  have first : current.rlim resource 0 + 4 ≤ SEGMENT := rlim_inside inRange (by decide)
  have second : current.rlim resource 4 + 4 ≤ SEGMENT := rlim_inside inRange (by decide)
  simp only [sysSetrlimit, if_neg (not_le.mpr inRange.2), readLong, writeLong, if_pos first, if_pos second]
  rw [rlim_of_inRange inRange (by decide), rlim_of_inRange inRange (by decide)]
  rfl

theorem putLimit_of_not_inLimit {x : Nat} (outside : ¬current.InLimit resource x) :
    current.putLimit mem resource new x = mem x := by
  rw [InLimit] at outside
  rw [putLimit, putLong_of_outside _ (by omega), putLong_of_outside _ (by omega)]

theorem sysSetrlimit_frame (nonneg : 0 ≤ resource.toInt) {x : Nat}
    (changed : (current.sysSetrlimit mem resource new).2 x ≠ mem x) :
    InRange resource ∧ current.InLimit resource x := by
  by_cases big : RLIM_NLIMITS ≤ resource.toInt
  · rw [sysSetrlimit, if_pos big] at changed
    exact absurd rfl changed
  · have inRange : InRange resource := ⟨nonneg, not_le.mp big⟩
    refine ⟨inRange, ?_⟩
    by_contra outside
    rw [sysSetrlimit_of_inRange inRange] at changed
    dsimp only at changed
    split at changed
    · exact changed rfl
    · exact changed (putLimit_of_not_inLimit outside)

theorem sysSetrlimit_of_neg (negative : resource.toInt < 0) (new : RLimit) :
    (current.sysSetrlimit mem resource new).1 ≠ .returns (-EINVAL) := by
  have small : ¬RLIM_NLIMITS ≤ resource.toInt := by
    simp only [RLIM_NLIMITS]
    omega
  rw [sysSetrlimit, if_neg small]
  have other : Outcome.returns (-EPERM) ≠ .returns (-EINVAL) ∧ Outcome.returns 0 ≠ .returns (-EINVAL) := by decide
  split
  · exact nofun
  · split
    · exact other.1
    · split
      · exact nofun
      · split
        · exact nofun
        · exact other.2

theorem confined_of_nonneg (nonneg : 0 ≤ resource.toInt) : current.Confined resource := by
  refine ⟨fun mem new x changed => sysSetrlimit_frame nonneg changed, fun mem mem' agree => ?_, fun outside => ?_⟩
  · by_cases big : RLIM_NLIMITS ≤ resource.toInt
    · rw [sysGetrlimit, sysGetrlimit, if_pos big, if_pos big]
    · have inRange : InRange resource := ⟨nonneg, not_le.mp big⟩
      have same (x : Nat) (above : current.address + RLIM + 8 * resource.toNat ≤ x)
          (below : x < current.address + RLIM + 8 * resource.toNat + 8) : mem x = mem' x :=
        agree inRange x ⟨above, below⟩
      rw [sysGetrlimit_of_inRange inRange, sysGetrlimit_of_inRange inRange,
        getLong_congr fun x above below => same x above (by omega),
        getLong_congr fun x above below => same x (by omega) (by omega)]
  · have big : RLIM_NLIMITS ≤ resource.toInt := by
      by_contra below
      exact outside ⟨nonneg, not_le.mp below⟩
    exact fun mem new => ⟨if_pos big, if_pos big⟩

theorem confined_iff : current.Confined resource ↔ 0 ≤ resource.toInt := by
  refine ⟨fun confined => ?_, confined_of_nonneg⟩
  by_contra negative
  have refused := (confined.refuses (fun inRange => negative inRange.1) (fun _ => 0) ⟨0, 0⟩).1
  exact sysSetrlimit_of_neg (not_le.mp negative) _ (congrArg Prod.fst refused)

/-! ## Many calls -/

structure Lowered (current : Current) (mem mem' : Memory) : Prop where
  plain : current.suser mem' = false
  max : ∀ i < RLIM_NLIMITS, (current.rlimMax mem' i).toInt ≤ (current.rlimMax mem i).toInt

theorem Lowered.refl (plain : current.suser mem = false) : current.Lowered mem mem := ⟨plain, fun _ _ => le_rfl⟩

theorem Lowered.trans {mem'' : Memory} (first : current.Lowered mem mem') (second : current.Lowered mem' mem'') :
    current.Lowered mem mem'' :=
  ⟨second.plain, fun i inside => (second.max i inside).trans (first.max i inside)⟩

theorem suser_putLimit : current.suser (current.putLimit mem resource new) = current.suser mem := by
  have kept (x : Nat) (before : x < current.address + RLIM) : current.putLimit mem resource new x = mem x := by
    apply putLimit_of_not_inLimit
    rintro ⟨above, -⟩
    omega
  rw [suser, suser, kept _ (by simp only [EUID, RLIM]; omega), kept _ (by simp only [EUID, RLIM]; omega)]

theorem rlimMax_putLimit (i : Nat) :
    current.rlimMax (current.putLimit mem resource new) i =
      if i = resource.toNat then new.max else current.rlimMax mem i := by
  rw [rlimMax, putLimit]
  by_cases same : i = resource.toNat
  · rw [if_pos same, same, getLong_putLong_self _ _ new.max.isLt, BitVec.ofNat_toNat, BitVec.setWidth_eq]
  · rw [if_neg same, rlimMax]
    congr 1
    exact getLong_congr fun x above below => by
      rw [putLong_of_outside _ (by omega), putLong_of_outside _ (by omega)]

theorem sysSetrlimit_lowered (new : RLimit) (nonneg : 0 ≤ resource.toInt) (plain : current.suser mem = false) :
    current.Lowered mem (current.sysSetrlimit mem resource new).2 := by
  by_cases big : RLIM_NLIMITS ≤ resource.toInt
  · rw [sysSetrlimit, if_pos big]
    exact .refl plain
  · have inRange : InRange resource := ⟨nonneg, not_le.mp big⟩
    rw [sysSetrlimit_of_inRange inRange]
    dsimp only
    split
    · exact .refl plain
    · next allowed =>
      refine ⟨suser_putLimit.trans plain, fun i _ => ?_⟩
      rw [rlimMax_putLimit]
      split
      · next same =>
        simp only [plain, and_true, not_or, not_lt, ← same] at allowed
        exact allowed.2
      · exact le_rfl

theorem run_lowered (calls : List Call) (nonneg : ∀ c ∈ calls, 0 ≤ c.resource.toInt)
    (plain : current.suser mem = false) : current.Lowered mem (current.run mem calls) := by
  induction calls generalizing mem with
  | nil => exact .refl plain
  | cons c calls ih =>
    have later : ∀ c ∈ calls, 0 ≤ c.resource.toInt := fun c among => nonneg c (.tail _ among)
    cases c with
    | get resource =>
      rw [run]
      split
      · exact .refl plain
      · exact ih later plain
    | set resource new =>
      have first : current.Lowered mem (current.sysSetrlimit mem resource new).2 :=
        sysSetrlimit_lowered new (nonneg (.set resource new) (.head _)) plain
      rw [run]
      split
      · next outcome =>
        rw [outcome] at first
        exact first
      · next outcome =>
        rw [outcome] at first
        exact first.trans (ih later first.plain)

/-- No index is tested for being negative. -/
theorem limits_confined_iff (current : Current) :
    (∀ resource, current.Confined resource ↔ 0 ≤ resource.toInt) ∧
      ∀ mem calls, current.suser mem = false → (∀ c ∈ calls, 0 ≤ (Call.resource c).toInt) →
        current.Lowered mem (current.run mem calls) :=
  ⟨fun _ => confined_iff, fun _ calls plain nonneg => run_lowered calls nonneg plain⟩

end Current

/-! ## A process that becomes the super user -/

def userTask : Current := ⟨0x100000, by decide⟩

def userMemory : Memory := fun x =>
  if userTask.address + 716 ≤ x ∧ x < userTask.address + 728 ∧ x % 2 = 0 then 5
  else if userTask.address + RLIM ≤ x ∧ x < userTask.address + RLIM + 48 ∧ x % 4 = 0 then 100
  else 0

theorem userTask_confined :
    userTask.Confined 6 ∧
      userTask.Lowered userMemory
        (userTask.run userMemory [.set 0 ⟨50, 60⟩, .get 0, .set 0 ⟨50, 100⟩, .set 6 ⟨0, 0⟩]) :=
  ⟨((Current.limits_confined_iff userTask).1 6).mpr (by decide),
    (Current.limits_confined_iff userTask).2 _ _ (by decide +kernel) (by decide)⟩

/-- The index -5 names `uid`, `euid`, `suid` and `gid`. -/
theorem negative_index_escapes :
    userTask.suser userMemory = false ∧ ¬userTask.Confined (-5) ∧
      (userTask.sysSetrlimit userMemory (-5) ⟨0, 5⟩).1 = .returns 0 ∧
      userTask.suser (userTask.sysSetrlimit userMemory (-5) ⟨0, 5⟩).2 = true ∧
      userTask.rlimMax userMemory 0 = 100 ∧
      userTask.rlimMax (userTask.run userMemory [.set (-5) ⟨0, 5⟩, .set 0 ⟨1000, 1000⟩]) 0 = 1000 := by
  refine ⟨by decide +kernel, ?_, by decide +kernel, by decide +kernel, by decide +kernel, by decide +kernel⟩
  intro confined
  have refused := (confined.refuses (fun inRange => absurd inRange.1 (by decide)) userMemory ⟨0, 5⟩).1
  have returned : (userTask.sysSetrlimit userMemory (-5) ⟨0, 5⟩).1 = .returns 0 := by decide +kernel
  rw [refused] at returned
  exact absurd returned (by decide)

end Linux012.Kernel.ResourceLimits

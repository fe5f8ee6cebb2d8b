import Mathlib.Data.BitVec

/-! The identities of a process, and the calls of `kernel/sys.c` that set them. -/

set_option autoImplicit false

namespace Linux012.Kernel

abbrev Short := BitVec 16

abbrev Argument := BitVec 32

def EPERM : Int := 1

structure Identity where
  uid : Short
  euid : Short
  suid : Short
  gid : Short
  egid : Short
  sgid : Short
deriving DecidableEq

namespace Identity

def suser (ids : Identity) : Bool := ids.euid = 0

def equal (field : Short) (arg : Argument) : Bool := field.setWidth 32 = arg

def short (arg : Argument) : Short := arg.setWidth 16

def positive (arg : Argument) : Bool := 0 < arg.toInt

def setregid (ids : Identity) (rgid egid : Argument) : Int × Identity :=
  if positive rgid && !(equal ids.gid rgid || ids.suser) then (-EPERM, ids)
  else
    let ids := if positive rgid then { ids with gid := short rgid } else ids
    if positive egid then
      if equal ids.gid egid || equal ids.egid egid || ids.suser then
        (0, { ids with egid := short egid, sgid := short egid })
      else (-EPERM, ids)
    else (0, ids)

def setgid (ids : Identity) (gid : Argument) : Int × Identity :=
  if ids.suser then (0, { ids with gid := short gid, egid := short gid, sgid := short gid })
  else if equal ids.gid gid || equal ids.sgid gid then (0, { ids with egid := short gid })
  else (-EPERM, ids)

def setreuid (ids : Identity) (ruid euid : Argument) : Int × Identity :=
  let oldRuid := ids.uid
  if positive ruid && !(equal ids.euid ruid || equal oldRuid ruid || ids.suser) then (-EPERM, ids)
  else
    let ids := if positive ruid then { ids with uid := short ruid } else ids
    if positive euid then
      if equal oldRuid euid || equal ids.euid euid || ids.suser then
        (0, { ids with euid := short euid, suid := short euid })
      else (-EPERM, { ids with uid := oldRuid })
    else (0, ids)

def setuid (ids : Identity) (uid : Argument) : Int × Identity :=
  if ids.suser then (0, { ids with uid := short uid, euid := short uid, suid := short uid })
  else if equal ids.uid uid || equal ids.suid uid then (0, { ids with euid := short uid })
  else (-EPERM, ids)

inductive Call where
  | setregid (rgid egid : Argument)
  | setgid (gid : Argument)
  | setreuid (ruid euid : Argument)
  | setuid (uid : Argument)

def call (ids : Identity) : Call → Int × Identity
  | .setregid rgid egid => ids.setregid rgid egid
  | .setgid gid => ids.setgid gid
  | .setreuid ruid euid => ids.setreuid ruid euid
  | .setuid uid => ids.setuid uid

def run (ids : Identity) : List Call → Identity
  | [] => ids
  | c :: calls => (ids.call c).2.run calls

def users (ids : Identity) : Set Short := {ids.uid, ids.euid, ids.suid}

def groups (ids : Identity) : Set Short := {ids.gid, ids.egid, ids.sgid}

structure Confined (ids ids' : Identity) : Prop where
  users : ids'.users ⊆ ids.users
  groups : ids'.groups ⊆ ids.groups

structure Allowed (ids : Identity) (outcome : Int × Identity) : Prop where
  confined : Confined ids outcome.2
  refused : outcome.1 = -EPERM → outcome.2 = ids

section Users

variable {ids ids' : Identity}

theorem Confined.refl (ids : Identity) : Confined ids ids := ⟨subset_rfl, subset_rfl⟩

theorem Confined.trans {ids'' : Identity} (first : Confined ids ids') (second : Confined ids' ids'') :
    Confined ids ids'' :=
  ⟨second.users.trans first.users, second.groups.trans first.groups⟩

theorem short_eq {field : Short} {arg : Argument} (same : equal field arg = true) : short arg = field := by
  rw [equal, decide_eq_true_eq] at same
  rw [short, ← same]
  exact BitVec.setWidth_setWidth_of_le field (by decide)

theorem Allowed.refusal (ids : Identity) : Allowed ids (-EPERM, ids) := ⟨.refl ids, fun _ => rfl⟩

theorem Allowed.success (confined : Confined ids ids') : Allowed ids (0, ids') :=
  ⟨confined, fun refused => absurd (show (0 : Int) = -EPERM from refused) (by decide)⟩

theorem Confined.ofUsers {uid euid suid : Short} (uidOld : uid ∈ ids.users) (euidOld : euid ∈ ids.users)
    (suidOld : suid ∈ ids.users) : Confined ids { ids with uid := uid, euid := euid, suid := suid } := by
  refine ⟨?_, subset_rfl⟩
  rintro value (rfl | rfl | rfl)
  · exact uidOld
  · exact euidOld
  · exact suidOld

theorem Confined.ofGroups {gid egid sgid : Short} (gidOld : gid ∈ ids.groups) (egidOld : egid ∈ ids.groups)
    (sgidOld : sgid ∈ ids.groups) : Confined ids { ids with gid := gid, egid := egid, sgid := sgid } := by
  refine ⟨subset_rfl, ?_⟩
  rintro value (rfl | rfl | rfl)
  · exact gidOld
  · exact egidOld
  · exact sgidOld

theorem uid_mem : ids.uid ∈ ids.users := .inl rfl
theorem euid_mem : ids.euid ∈ ids.users := .inr (.inl rfl)
theorem suid_mem : ids.suid ∈ ids.users := .inr (.inr rfl)
theorem gid_mem : ids.gid ∈ ids.groups := .inl rfl
theorem egid_mem : ids.egid ∈ ids.groups := .inr (.inl rfl)
theorem sgid_mem : ids.sgid ∈ ids.groups := .inr (.inr rfl)

variable (plain : ids.suser = false)
include plain

theorem setuid_allowed (uid : Argument) : Allowed ids (ids.setuid uid) := by
  rw [setuid, if_neg (by simp [plain])]
  split
  case isTrue known =>
    refine .success (.ofUsers uid_mem ?_ suid_mem)
    rcases Bool.or_eq_true_iff.mp known with same | same
    · rw [short_eq same]
      exact uid_mem
    · rw [short_eq same]
      exact suid_mem
  case isFalse => exact .refusal ids

theorem setgid_allowed (gid : Argument) : Allowed ids (ids.setgid gid) := by
  rw [setgid, if_neg (by simp [plain])]
  split
  case isTrue known =>
    refine .success (.ofGroups gid_mem ?_ sgid_mem)
    rcases Bool.or_eq_true_iff.mp known with same | same
    · rw [short_eq same]
      exact gid_mem
    · rw [short_eq same]
      exact sgid_mem
  case isFalse => exact .refusal ids

theorem setreuid_allowed (ruid euid : Argument) : Allowed ids (ids.setreuid ruid euid) := by
  have real : (if positive ruid then { ids with uid := short ruid } else ids) =
      { ids with uid := if positive ruid then short ruid else ids.uid } := by
    split <;> rfl
  rw [setreuid]
  simp only [plain, Bool.or_false, real]
  split
  case isTrue => exact .refusal ids
  case isFalse accepted =>
    have uidOld : (if positive ruid then short ruid else ids.uid) ∈ ids.users := by
      split
      case isTrue given =>
        rw [given, Bool.true_and, Bool.not_eq_true', Bool.not_eq_false] at accepted
        rcases Bool.or_eq_true_iff.mp accepted with same | same
        · exact short_eq same ▸ euid_mem
        · exact short_eq same ▸ uid_mem
      case isFalse => exact uid_mem
    generalize (if positive ruid then short ruid else ids.uid) = uid at uidOld
    have unchanged : ({ ids with uid := uid } : Identity).suser = false := plain
    simp only [unchanged, Bool.or_false]
    split
    case isTrue =>
      split
      case isTrue known =>
        have euidOld : short euid ∈ ids.users := by
          rcases Bool.or_eq_true_iff.mp known with same | same
          · exact short_eq same ▸ uid_mem
          · exact short_eq same ▸ euid_mem
        exact .success (.ofUsers uidOld euidOld euidOld)
      case isFalse => exact .refusal ids
    case isFalse => exact .success (.ofUsers uidOld euid_mem suid_mem)

theorem setregid_allowed (rgid egid : Argument) : Allowed ids (ids.setregid rgid egid) := by
  rw [setregid]
  split
  case isTrue => exact .refusal ids
  case isFalse accepted =>
    have same : (if positive rgid then { ids with gid := short rgid } else ids) = ids := by
      split
      case isTrue given =>
        rw [given, plain, Bool.or_false, Bool.true_and, Bool.not_eq_true', Bool.not_eq_false] at accepted
        rw [short_eq accepted]
      case isFalse => rfl
    simp only [same, plain, Bool.or_false]
    split
    case isTrue =>
      split
      case isTrue known =>
        have egidOld : short egid ∈ ids.groups := by
          rcases Bool.or_eq_true_iff.mp known with same | same
          · exact short_eq same ▸ gid_mem
          · exact short_eq same ▸ egid_mem
        exact .success (.ofGroups gid_mem egidOld egidOld)
      case isFalse => exact .refusal ids
    case isFalse => exact .success (.refl ids)

theorem call_allowed (c : Call) : Allowed ids (ids.call c) := by
  cases c with
  | setregid rgid egid => exact setregid_allowed plain rgid egid
  | setgid gid => exact setgid_allowed plain gid
  | setreuid ruid euid => exact setreuid_allowed plain ruid euid
  | setuid uid => exact setuid_allowed plain uid

omit plain in
theorem suser_of_not_mem (noRoot : 0 ∉ ids.users) : ids.suser = false := by
  rw [suser, decide_eq_false_iff_not]
  exact fun root => noRoot (root ▸ euid_mem)

omit plain in
theorem run_confined (noRoot : 0 ∉ ids.users) (calls : List Call) : Confined ids (ids.run calls) := by
  induction calls generalizing ids with
  | nil => exact .refl ids
  | cons c calls ih =>
    have first := (call_allowed (suser_of_not_mem noRoot) c).confined
    exact first.trans (ih fun root => noRoot (first.users root))

omit plain in
/-- Without the super user among its identities, a process gets no identity that
it did not have, whatever calls it makes; a call that is refused changes none. -/
theorem identities_kept (nonzero : ids.uid ≠ 0 ∧ ids.euid ≠ 0 ∧ ids.suid ≠ 0) (calls : List Call) :
    (ids.run calls).users ⊆ ids.users ∧ (ids.run calls).groups ⊆ ids.groups ∧
      ∀ c, ((ids.run calls).call c).1 = -EPERM → ((ids.run calls).call c).2 = ids.run calls := by
  have noRoot : 0 ∉ ids.users := by
    rintro (root | root | root)
    · exact nonzero.1 root.symm
    · exact nonzero.2.1 root.symm
    · exact nonzero.2.2 root.symm
  have confined := run_confined noRoot calls
  have plain := suser_of_not_mem fun root => noRoot (confined.users root)
  exact ⟨confined.users, confined.groups, fun c => (call_allowed plain c).refused⟩

end Users

/-- A program of user 7 that user 5 runs, and a call whose argument is 0 in the
low half. -/
theorem setuidProgram_kept :
    let ids : Identity := ⟨5, 7, 7, 5, 5, 5⟩
    let calls := [Call.setreuid 7 5, .setuid 0x10000, .setregid 5 0xffffffff]
    (ids.run calls).users ⊆ ids.users ∧ (ids.run calls).groups ⊆ ids.groups ∧
      ∀ c, ((ids.run calls).call c).1 = -EPERM → ((ids.run calls).call c).2 = ids.run calls :=
  identities_kept (by decide) _

end Identity

end Linux012.Kernel

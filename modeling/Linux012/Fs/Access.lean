import Linux012.Fs.Descriptors

/-! `sys_access` of `fs/open.c`, which checks an access for the real ids, beside the `permission`
that the kernel asks before it lets a file be used. -/

set_option autoImplicit false

namespace Linux012.Fs.Descriptors

def EACCES : Int := 13

structure Credentials extends Task where
  uid : Nat
  gid : Nat

/-- `found` is what `namei` gives. -/
def sysAccess (current : Credentials) (found : Option Inode) (mode : Word) : Int :=
  let mode := mode &&& 7
  match found with
  | none => -EACCES
  | some inode =>
    let iMode := inode.mode &&& 0o777
    let res :=
      if current.uid = inode.uid then iMode >>> 6
      else if current.gid = inode.gid then iMode >>> 6
      else iMode
    if res &&& 7 &&& mode = mode then 0
    else if current.uid = 0 ∧ (mode &&& 1 = 0 ∨ iMode &&& 0o111 ≠ 0) then 0
    else -EACCES

structure Credentials.Plain (current : Credentials) : Prop where
  user : current.uid ≠ 0
  uid : current.euid = current.uid
  gid : current.egid = current.gid
  groups : current.groups = []

def Grants (bits mask : Word) : Prop := bits &&& 7 &&& mask = mask

instance (bits mask : Word) : Decidable (Grants bits mask) := inferInstanceAs (Decidable (_ = _))

/-- For a member of the file's group that is not its owner, the bits of the owner say the same as
those of the group. -/
def ClassesAgree (current : Credentials) (inode : Inode) (mask : Word) : Prop :=
  current.uid ≠ inode.uid → current.gid = inode.gid →
    (Grants (inode.mode >>> 6) (mask &&& 7) ↔ Grants (inode.mode >>> 3) (mask &&& 7))

/-! ## The bits that are selected -/

theorem low_bits_shift (mode : Word) {k : Nat} (small : k ≤ 6) :
    (mode &&& 0o777) >>> k &&& 7 = mode >>> k &&& 7 := by
  have three (i : Nat) : (7 : Word).getLsbD i = decide (i < 3) := by
    refine (BitVec.getLsbD_ofNat ..).trans ?_
    rw [Nat.testBit_two_pow_sub_one 3]
    by_cases low : i < 3
    · simp [low, Nat.lt_trans low]
    · simp [low]
  have nine (i : Nat) : (0o777 : Word).getLsbD i = decide (i < 9) := by
    refine (BitVec.getLsbD_ofNat ..).trans ?_
    rw [Nat.testBit_two_pow_sub_one 9]
    by_cases low : i < 9
    · simp [low, Nat.lt_trans low]
    · simp [low]
  refine BitVec.eq_of_getLsbD_eq fun i _ => ?_
  rw [BitVec.getLsbD_and, BitVec.getLsbD_and, BitVec.getLsbD_ushiftRight, BitVec.getLsbD_ushiftRight,
    BitVec.getLsbD_and, three, nine]
  by_cases low : i < 3
  · have inside : k + i < 9 := by omega
    simp [low, inside]
  · simp [low]

theorem low_bits (mode : Word) : mode &&& 0o777 &&& 7 = mode &&& 7 := low_bits_shift mode (Nat.zero_le 6)

theorem sysAccess_eq_zero_iff {current : Credentials} (plain : current.Plain) {inode : Inode} {mask : Word} :
    sysAccess current (some inode) mask = 0 ↔
      if current.uid = inode.uid ∨ current.gid = inode.gid then Grants (inode.mode >>> 6) (mask &&& 7)
      else Grants inode.mode (mask &&& 7) := by
  have decided (p q : Prop) [Decidable p] [Decidable q] (no : ¬q) :
      (if p then 0 else if q then 0 else -EACCES) = 0 ↔ p := by
    by_cases granted : p
    · simp [granted]
    · simp [granted, no, EACCES]
  have root : ¬(current.uid = 0 ∧ (mask &&& 7 &&& 1 = 0 ∨ inode.mode &&& 0o777 &&& 0o111 ≠ 0)) :=
    fun both => plain.user both.1
  rw [sysAccess, decided _ _ root]
  by_cases owner : current.uid = inode.uid
  · rw [if_pos owner, if_pos (.inl owner), low_bits_shift _ (Nat.le_refl 6), Grants]
  · rw [if_neg owner]
    by_cases member : current.gid = inode.gid
    · rw [if_pos member, if_pos (.inr member), low_bits_shift _ (Nat.le_refl 6), Grants]
    · rw [if_neg member, if_neg fun either => either.elim owner member, low_bits, Grants]

theorem permission_iff {current : Credentials} (plain : current.Plain) {inode : Inode} (linked : inode.nlinks ≠ 0)
    {mask : Word} : permission current.toTask inode (mask &&& 7) = true ↔
      if current.uid = inode.uid then Grants (inode.mode >>> 6) (mask &&& 7)
      else if current.gid = inode.gid then Grants (inode.mode >>> 3) (mask &&& 7)
      else Grants inode.mode (mask &&& 7) := by
  have swapped (bits : Word) : bits &&& (mask &&& 7) &&& 7 = bits &&& 7 &&& (mask &&& 7) := by
    rw [BitVec.and_assoc, BitVec.and_comm (mask &&& 7) 7, ← BitVec.and_assoc]
  have user : current.suser = false := by
    rw [Task.suser, plain.uid]
    exact decide_eq_false plain.user
  have group : current.inGroup inode.gid = decide (current.gid = inode.gid) := by
    rw [Task.inGroup, plain.groups, plain.gid, List.contains_nil, Bool.or_false]
    exact decide_eq_decide.mpr eq_comm
  rw [permission, if_neg fun both => linked both.2, user, Bool.or_false, decide_eq_true_iff, swapped, plain.uid, group]
  by_cases owner : current.uid = inode.uid
  · rw [if_pos owner, if_pos owner, Grants]
  · rw [if_neg owner, if_neg owner]
    by_cases member : current.gid = inode.gid
    · rw [if_pos member, if_pos (decide_eq_true member), Grants]
    · rw [if_neg member, if_neg (by simp [member]), Grants]

/-- `sys_access` looks at the bits of the owner for a member of the group. -/
theorem sysAccess_permission_iff {current : Credentials} (plain : current.Plain) {inode : Inode}
    (linked : inode.nlinks ≠ 0) (mask : Word) :
    (sysAccess current (some inode) mask = 0 ↔ permission current.toTask inode (mask &&& 7) = true) ↔
      ClassesAgree current inode mask := by
  rw [sysAccess_eq_zero_iff plain, permission_iff plain linked, ClassesAgree]
  by_cases owner : current.uid = inode.uid
  · rw [if_pos (.inl owner), if_pos owner]
    exact iff_of_true Iff.rfl fun other => absurd owner other
  · rw [if_neg owner]
    by_cases member : current.gid = inode.gid
    · rw [if_pos (.inr member), if_pos member]
      exact ⟨fun agree _ _ => agree, fun agree => agree owner member⟩
    · rw [if_neg fun either => either.elim owner member, if_neg member]
      exact iff_of_true Iff.rfl fun _ same => absurd same member

def someUser : Credentials where
  euid := 5
  egid := 7
  groups := []
  umask := 0o022
  uid := 5
  gid := 7

theorem someUser_plain : someUser.Plain := ⟨by decide, rfl, rfl, rfl⟩

def groupFile (mode : Word) : Inode where
  mode := mode
  uid := 3
  gid := 7
  dev := 0x301
  nlinks := 1
  size := 0
  data := fun _ => 0

theorem groupFile_readable :
    sysAccess someUser (some (groupFile 0o100664)) 4 = 0 ↔
      permission someUser.toTask (groupFile 0o100664) (4 &&& 7) = true :=
  (sysAccess_permission_iff someUser_plain (by decide) 4).mpr fun _ _ => by decide

theorem groupFile_refused :
    someUser.Plain ∧ (groupFile 0o100644).nlinks ≠ 0 ∧ sysAccess someUser (some (groupFile 0o100644)) 2 = 0 ∧
      permission someUser.toTask (groupFile 0o100644) 2 = false :=
  ⟨someUser_plain, by decide, by decide, by decide⟩

end Linux012.Fs.Descriptors

import Linux012.Fs.ArgumentBounds

/-! The calls of `copy_strings` that `do_execve` makes, and what becomes of the pages when the
arguments do not fit. -/

set_option autoImplicit false

namespace Linux012.Fs.ArgumentPages

open List

open ByteMemory (terminated)
open Exec (CString Inode Current Script PAGE_SIZE MAX_ARG_PAGES ENOENT ENOEXEC ENOMEM EACCES mayExecute isExecutable
  isScript parseScript count)

/-! ## A run of calls -/

structure Call where
  argc : Int
  argv : StringArray
  fromKmem : Nat

structure Call.Right (call : Call) : Prop where
  argc : call.argc.toNat = call.argv.list.length
  segments : call.argv.Right call.fromKmem .user .kernel

def Call.bytes (call : Call) : List UInt8 := joined call.argv.list

def copyCalls : List Call → ArgPages → Except Fault ArgPages
  | [], a => .ok a
  | call :: rest, a => do
    let a ← copyStrings call.argc call.argv call.fromKmem a
    copyCalls rest a

def contents : List Call → List UInt8 → List UInt8
  | [], bytes => bytes
  | call :: rest, bytes => contents rest (call.bytes ++ bytes)

def overruns : Nat → List Nat → Bool
  | _, [] => false
  | room, size :: rest => if room = 0 then false else if room < size then true else overruns (room - size) rest

/-- Between the calls; a `p` of 0 means that some of the strings may be missing. -/
structure Progress (init : List Nat) (bytes : List UInt8) (a : ArgPages) : Prop where
  held : ∃ stored, stored <:+ bytes ∧ a.Held init stored
  whole : a.p ≠ 0 → a.Filled init bytes
  fs : a.fs = .user

theorem contents_suffix (calls : List Call) (bytes : List UInt8) : bytes <:+ contents calls bytes := by
  induction calls generalizing bytes with
  | nil => exact suffix_refl bytes
  | cons call rest ih => exact (suffix_append call.bytes bytes).trans (ih _)

variable {a : ArgPages}

theorem copyStrings_zero {call : Call} (zero : a.p = 0) :
    copyStrings call.argc call.argv call.fromKmem a = .ok a := if_pos zero

theorem copyCalls_zero (zero : a.p = 0) (calls : List Call) : copyCalls calls a = .ok a := by
  induction calls with
  | nil => rfl
  | cons call rest ih =>
    rw [copyCalls, copyStrings_zero zero]
    exact ih

theorem overruns_zero (sizes : List Nat) : overruns 0 sizes = false := by
  cases sizes with
  | nil => rfl
  | cons size rest => exact if_pos rfl

variable {init : List Nat} {bytes : List UInt8}

theorem Progress.zero {bytes' : List UInt8} (progress : Progress init bytes a) (zero : a.p = 0)
    (more : bytes <:+ bytes') : Progress init bytes' a := by
  obtain ⟨stored, suffix, held⟩ := progress.held
  exact ⟨⟨stored, suffix.trans more, held⟩, fun positive => absurd zero positive, progress.fs⟩

theorem ArgPages.Filled.progress (filled : a.Filled init bytes) (fs : a.fs = .user) : Progress init bytes a :=
  ⟨⟨bytes, suffix_refl bytes, filled.toHeld⟩, fun _ => filled, fs⟩

/-- Whether a run of calls leaves the pages, and what there is afterwards when it does not. -/
structure Ends (init : List Nat) (bytes : List UInt8) (tooLong : Bool) (x : Except Fault ArgPages) : Prop where
  fault : (∃ fault, x = .error fault) ↔ MAX_ARG_PAGES ≤ init.length ∧ tooLong = true
  progress : ∀ a, x = .ok a → Progress init bytes a

theorem copyCalls_ends {calls : List Call} (right : ∀ call ∈ calls, call.Right)
    (progress : Progress init bytes a) :
    Ends init (contents calls bytes) (overruns a.p.toNat (calls.map fun call => call.bytes.length))
      (copyCalls calls a) := by
  induction calls generalizing bytes a with
  | nil =>
    refine ⟨iff_of_false (fun ⟨_, equal⟩ => nomatch equal) (fun both => nomatch both.2), ?_⟩
    intro a' equal
    exact Except.ok.inj equal ▸ progress
  | cons call rest ih =>
    have rights := forall_mem_cons.mp right
    by_cases zero : a.p = 0
    · rw [copyCalls_zero zero, zero]
      refine ⟨iff_of_false (fun ⟨_, equal⟩ => nomatch equal) ?_, ?_⟩
      · rintro ⟨-, tooLong⟩
        cases (overruns_zero _).symm.trans tooLong
      · intro a' equal
        exact Except.ok.inj equal ▸ progress.zero zero (contents_suffix _ bytes)
    · have filled := progress.whole zero
      have positive : a.p.toNat ≠ 0 := fun none => zero (UInt32.toNat_inj.mp none)
      have place := filled.place
      have copies : Copies init (call.bytes ++ bytes) .user (copyStrings call.argc call.argv call.fromKmem a) := by
        have segments := rights.1.segments
        rw [← progress.fs] at segments ⊢
        exact copyStrings_copies segments rights.1.argc filled zero
      rw [copyCalls, map_cons, overruns, if_neg positive]
      generalize copyStrings call.argc call.argv call.fromKmem a = x at copies
      cases copies with
      | done filled' fs =>
        have place' := filled'.place
        rw [length_append] at place'
        have fits : ¬a.p.toNat < call.bytes.length := by omega
        rename_i a'
        have left : a.p.toNat - call.bytes.length = a'.p.toNat := by omega
        rw [if_neg fits, left]
        exact ih rights.2 (filled'.progress fs)
      | full stored held back fs few =>
        rename_i a' stored'
        change Ends _ _ _ (copyCalls rest a')
        rw [copyCalls_zero back]
        refine ⟨iff_of_false (fun ⟨_, equal⟩ => nomatch equal) (fun both => absurd both.1 (by omega)), ?_⟩
        intro a'' equal
        have stays : Progress init (call.bytes ++ bytes) a' :=
          ⟨⟨stored', stored, held⟩, fun positive => absurd back positive, fs⟩
        exact Except.ok.inj equal ▸ stays.zero back (contents_suffix rest _)
      | outside long enough =>
        rw [length_append] at long
        have tooLong : a.p.toNat < call.bytes.length := by omega
        rw [if_pos tooLong]
        exact ⟨iff_of_true ⟨_, rfl⟩ ⟨enough, rfl⟩, fun _ equal => nomatch equal⟩

/-! ## The calls of `do_execve` -/

def userCall (list : List CString) : Call where
  argc := list.length
  argv := userArray list
  fromKmem := 0

def tailCall (argv : List CString) : Call where
  argc := (argv.length : Int) - 1
  argv := userArray argv.tail
  fromKmem := 0

def pointerCall (s : CString) : Call where
  argc := 1
  argv := kernelPointer s
  fromKmem := 1

def kernelCall (s : CString) : Call where
  argc := 1
  argv := kernelString s
  fromKmem := 2

def scriptCalls (filename : CString) (argv envp : List CString) (script : Script) : List Call :=
  [userCall envp, tailCall argv, pointerCall filename] ++ script.iArg.toList.map kernelCall ++
    [kernelCall script.iName]

def binaryCalls (argv envp : List CString) : List Call := [userCall envp, userCall argv]

theorem userCall_right (list : List CString) : (userCall list).Right := ⟨Int.toNat_natCast _, rfl, rfl⟩

theorem tailCall_right (argv : List CString) : (tailCall argv).Right := by
  refine ⟨?_, rfl, rfl⟩
  change ((argv.length : Int) - 1).toNat = argv.tail.length
  rw [length_tail]
  omega

theorem pointerCall_right (s : CString) : (pointerCall s).Right := ⟨rfl, rfl, rfl⟩

theorem kernelCall_right (s : CString) : (kernelCall s).Right := ⟨rfl, rfl, rfl⟩

theorem binaryCalls_right (argv envp : List CString) : ∀ call ∈ binaryCalls argv envp, call.Right := by
  intro call member
  rw [binaryCalls, mem_cons, mem_singleton] at member
  rcases member with rfl | rfl
  · exact userCall_right envp
  · exact userCall_right argv

theorem scriptCalls_right (filename : CString) (argv envp : List CString) (script : Script) :
    ∀ call ∈ scriptCalls filename argv envp script, call.Right := by
  intro call member
  rw [scriptCalls, mem_append, mem_append, mem_singleton, mem_map] at member
  rcases member with (member | ⟨s, -, rfl⟩) | rfl
  · simp only [mem_cons, not_mem_nil, or_false] at member
    rcases member with rfl | rfl | rfl
    · exact userCall_right envp
    · exact tailCall_right argv
    · exact pointerCall_right filename
  · exact kernelCall_right s
  · exact kernelCall_right script.iName

theorem copyCalls_append (front back : List Call) (a : ArgPages) :
    copyCalls (front ++ back) a = copyCalls front a >>= copyCalls back := by
  induction front generalizing a with
  | nil => rfl
  | cons call rest ih =>
    rw [cons_append, copyCalls, copyCalls]
    cases copyStrings call.argc call.argv call.fromKmem a with
    | error fault => rfl
    | ok a => exact ih a

theorem copyCalls_singleton (call : Call) (a : ArgPages) :
    copyCalls [call] a = copyStrings call.argc call.argv call.fromKmem a := by
  rw [copyCalls]
  cases copyStrings call.argc call.argv call.fromKmem a <;> rfl

theorem spliceArg_eq (iArg : Option CString) (argc : Int) (a : ArgPages) :
    spliceArg iArg argc a =
      copyCalls (iArg.toList.map kernelCall) a >>= fun a => .ok (a, argc + iArg.toList.length) := by
  cases iArg with
  | none => exact congrArg (fun n => Except.ok (a, n)) (Int.add_zero argc).symm
  | some s =>
    change (copyStrings 1 (kernelString s) 2 a).map _ = copyCalls [kernelCall s] a >>= _
    rw [copyCalls_singleton]
    rfl

theorem spliceScript_eq (free : List Nat) (filename : CString) (argv envp : List CString) (script : Script) :
    spliceScript free filename argv envp script =
      copyCalls (scriptCalls filename argv envp script) (emptyPages free) >>= fun a =>
        .ok (a, count argv - 1 + 1 + script.iArg.toList.length + 1) := by
  rw [scriptCalls, copyCalls_append, copyCalls_append, spliceScript]
  simp only [spliceArg_eq, bind_assoc, copyCalls]
  rfl

theorem execBinary_eq (free : List Nat) (argv envp : List CString) :
    execBinary free argv envp = copyCalls (binaryCalls argv envp) (emptyPages free) >>= fun a =>
      if a.p = 0 then .ok (execError a ENOMEM)
      else .ok { pages := a, free := a.free, ending := .started (count argv) (count envp) } := by
  rw [binaryCalls, execBinary]
  simp only [copyCalls, bind_assoc]
  rfl

/-! ## What becomes of the pages -/

/-- The bytes that have been stored are the last ones of the strings. A program that starts has
them all; if they do not fit the call fails with `ENOMEM`, and a call that fails gives all frames
back. -/
structure Kept (init : List Nat) (bytes : List UInt8) (result : Result) : Prop where
  stored : ∃ stored, stored <:+ bytes ∧
    Recorded result.pages.page (capacity - stored.length) result.pages.stores stored
  started : ∀ argc envc, result.ending = .started argc envc →
    Recorded result.pages.page (capacity - bytes.length) result.pages.stores bytes
  full : capacity < bytes.length ∨ init.length < pagesFor bytes.length → result.ending = .failed ENOMEM
  freed : ∀ errno, result.ending = .failed errno → result.free.Perm init

def Confined (init : List Nat) (bytes : List UInt8) : Except Fault Result → Prop
  | .error _ => False
  | .ok result => Kept init bytes result

section Kept

variable {init : List Nat} {bytes : List UInt8} {a : ArgPages}

theorem Progress.kept_error (progress : Progress init bytes a) {errno : Nat} (full : a.p = 0 → errno = ENOMEM) :
    Kept init bytes (execError a errno) := by
  obtain ⟨stored, suffix, held⟩ := progress.held
  refine ⟨⟨stored, suffix, held.recorded⟩, fun _ _ equal => (nomatch equal), ?_, fun _ _ => held.frames.freePages_perm⟩
  intro tooLong
  by_cases zero : a.p = 0
  · exact congrArg Ending.failed (full zero)
  · have filled := progress.whole zero
    have place := filled.place
    have enough := filled.frames.le_init
    omega

theorem Progress.kept_started (progress : Progress init bytes a) (positive : a.p ≠ 0) (argc envc : Int) :
    Kept init bytes { pages := a, free := a.free, ending := .started argc envc } := by
  have filled := progress.whole positive
  have place := filled.place
  have enough := filled.frames.le_init
  refine ⟨⟨bytes, suffix_refl bytes, filled.recorded⟩, fun _ _ _ => filled.recorded, fun tooLong => ?_,
    fun _ equal => (nomatch equal)⟩
  omega

theorem emptyPages_progress (init : List Nat) : Progress init [] (emptyPages init) := by
  refine ArgPages.Filled.progress ⟨⟨⟨[], ?_, rfl, rfl, Nat.zero_le _⟩, trivial⟩, rfl⟩ rfl
  rw [map_nil, append_nil]
  rfl

theorem Ends.confined_iff {tooLong : Bool} {x : Except Fault ArgPages} {f : ArgPages → Except Fault Result}
    (ends : Ends init bytes tooLong x)
    (next : ∀ a, Progress init bytes a → ∃ result, f a = .ok result ∧ Kept init bytes result) :
    Confined init bytes (x >>= f) ↔ init.length < MAX_ARG_PAGES ∨ tooLong = false := by
  cases x with
  | error fault =>
    obtain ⟨enough, long⟩ := ends.fault.mp ⟨fault, rfl⟩
    refine iff_of_false id ?_
    rw [long]
    rintro (few | short)
    · omega
    · cases short
  | ok a =>
    obtain ⟨result, done, kept⟩ := next a (ends.progress a rfl)
    have none : ¬(MAX_ARG_PAGES ≤ init.length ∧ tooLong = true) := by
      rw [← ends.fault]
      exact fun ⟨_, equal⟩ => nomatch equal
    refine iff_of_true ?_ ?_
    · change Confined init bytes (f a)
      rw [done]
      exact kept
    · rwa [not_and_or, Nat.not_le, Bool.not_eq_true] at none

end Kept

section Execve

variable (namei : CString → Option Inode) (current : Current) (init : List Nat)
  (filename : CString) (argv envp : List CString)

/-- The calls of `copy_strings`, up to the first one that leaves its pages. -/
def copyingCalls : List Call :=
  match namei filename with
  | none => []
  | some inode =>
    match readHeader current inode with
    | .error _ => []
    | .ok block =>
      if isScript block then
        match parseScript block with
        | none => []
        | some script => scriptCalls filename argv envp script
      else if isExecutable inode block then binaryCalls argv envp
      else []

theorem emptyPages_ends {calls : List Call} (right : ∀ call ∈ calls, call.Right) :
    Ends init (contents calls []) (overruns capacity (calls.map fun call => call.bytes.length))
      (copyCalls calls (emptyPages init)) :=
  copyCalls_ends right (emptyPages_progress init)

theorem restartInterp_kept {bytes : List UInt8} {a : ArgPages} (progress : Progress init bytes a) (positive : a.p ≠ 0)
    (script : Script) (argc : Int) : Kept init bytes (restartInterp namei current envp script a argc) := by
  have failed : ∀ errno, Kept init bytes (execError a errno) :=
    fun errno => progress.kept_error fun zero => absurd zero positive
  unfold restartInterp
  split
  · exact failed ENOENT
  · split
    · exact failed _
    · split
      · exact progress.kept_started positive argc (count envp)
      · exact failed ENOEXEC

theorem execBinary_confined_iff :
    Confined init (contents (binaryCalls argv envp) []) (execBinary init argv envp) ↔
      init.length < MAX_ARG_PAGES ∨
        overruns capacity ((binaryCalls argv envp).map fun call => call.bytes.length) = false := by
  rw [execBinary_eq]
  refine (emptyPages_ends init (binaryCalls_right argv envp)).confined_iff fun a progress => ?_
  by_cases zero : a.p = 0
  · rw [if_pos zero]
    exact ⟨_, rfl, progress.kept_error fun _ => rfl⟩
  · rw [if_neg zero]
    exact ⟨_, rfl, progress.kept_started zero _ _⟩

theorem execScript_confined_iff (script : Script) :
    Confined init (contents (scriptCalls filename argv envp script) [])
        (execScript namei current init filename argv envp script) ↔
      init.length < MAX_ARG_PAGES ∨
        overruns capacity ((scriptCalls filename argv envp script).map fun call => call.bytes.length) = false := by
  rw [execScript, spliceScript_eq, bind_assoc]
  refine (emptyPages_ends init (scriptCalls_right filename argv envp script)).confined_iff fun a progress => ?_
  by_cases zero : a.p = 0
  · refine ⟨execError a ENOMEM, ?_, progress.kept_error fun _ => rfl⟩
    exact if_pos zero
  · refine ⟨restartInterp namei current envp script a _, ?_,
      restartInterp_kept namei current init envp progress zero script (count argv - 1 + 1 + script.iArg.toList.length + 1)⟩
    exact if_neg zero

/-- Arguments that do not fit are refused as they should be, unless a single call of
`copy_strings` runs out of the pages while there are frames for all of them. -/
theorem arguments_confined_iff :
    Confined init (contents (copyingCalls namei current filename argv envp) [])
        (doExecve namei current init filename argv envp) ↔
      init.length < MAX_ARG_PAGES ∨
        overruns capacity ((copyingCalls namei current filename argv envp).map fun call => call.bytes.length) = false := by
  have refused : ∀ errno, Confined init (contents [] []) (.ok (execError (emptyPages init) errno)) ↔
      init.length < MAX_ARG_PAGES ∨ overruns capacity [] = false := by
    intro errno
    refine iff_of_true ((emptyPages_progress init).kept_error fun zero => ?_) (.inr rfl)
    cases zero
  unfold doExecve copyingCalls
  cases namei filename with
  | none => exact refused ENOENT
  | some inode =>
    dsimp only
    cases readHeader current inode with
    | error errno => exact refused errno
    | ok block =>
      dsimp only
      by_cases marked : isScript block = true
      · rw [if_pos marked, if_pos marked]
        cases parseScript block with
        | none => exact refused ENOEXEC
        | some script => exact execScript_confined_iff namei current init filename argv envp script
      · rw [if_neg marked, if_neg marked]
        by_cases passed : isExecutable inode block = true
        · rw [if_pos passed, if_pos passed]
          exact execBinary_confined_iff init argv envp
        · rw [if_neg passed, if_neg passed]
          exact refused ENOEXEC

end Execve

/-! ## An argument that is too long -/

def shortProgram : Inode where
  mode := 0o100755
  uid := 0
  gid := 0
  size := 1024
  block := some fun i => [0x0B, 0x01].getD i 0

def superUser : Current where
  euid := 0
  egid := 0
  groups := []

theorem zero_notMem_replicate (n : Nat) : (0 : UInt8) ∉ List.replicate n 120 :=
  fun member => nomatch eq_of_mem_replicate member

def xString (n : Nat) : CString := ⟨List.replicate n 120, zero_notMem_replicate n⟩

theorem joined_xString (n : Nat) : (joined [xString n]).length = n + 1 := by
  change (terminated (List.replicate n 120) ++ []).length = n + 1
  rw [append_nil, terminated, length_append, length_replicate]
  rfl

/-- With one character more than there is room for, only the terminator does not fit. -/
theorem long_argument_escapes :
    ¬Confined (List.range 32)
        (contents (copyingCalls (fun _ => some shortProgram) superUser (xString 1) [xString 131068] []) [])
        (doExecve (fun _ => some shortProgram) superUser (List.range 32) (xString 1) [xString 131068] []) := by
  have read : readHeader superUser shortProgram = .ok fun i => [0x0B, 0x01].getD i 0 := rfl
  have unmarked : isScript (fun i => [0x0B, 0x01].getD i 0) = false := by decide
  have passed : isExecutable shortProgram (fun i => [0x0B, 0x01].getD i 0) = true := by decide
  have calls : copyingCalls (fun _ => some shortProgram) superUser (xString 1) [xString 131068] [] =
      binaryCalls [xString 131068] [] := by
    simp only [copyingCalls, read, unmarked, passed, Bool.false_eq_true, if_false, if_true]
  have run : doExecve (fun _ => some shortProgram) superUser (List.range 32) (xString 1) [xString 131068] [] =
      execBinary (List.range 32) [xString 131068] [] := by
    simp only [doExecve, read, unmarked, passed, Bool.false_eq_true, if_false, if_true]
  rw [calls, run, execBinary_confined_iff]
  have lengths : ((binaryCalls [xString 131068] []).map fun call => call.bytes.length) = [0, 131069] :=
    congrArg (fun n => [0, n]) (joined_xString 131068)
  rw [lengths, length_range]
  decide

end Linux012.Fs.ArgumentPages

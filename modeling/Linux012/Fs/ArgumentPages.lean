import Linux012.Fs.Exec

/-! `copy_strings` of `fs/exec.c` with its machine words, the segment that `fs` selects, and the
page frames that it takes, and what `do_execve` does with them. -/

set_option autoImplicit false

namespace Linux012.Fs.ArgumentPages

open ByteMemory (terminated)
open Exec (CString Inode Current Script PAGE_SIZE MAX_ARG_PAGES ENOENT ENOEXEC ENOMEM EACCES mayExecute isExecutable
  isScript parseScript count)

inductive Segment where
  | user
  | kernel
deriving DecidableEq

/-- What the code does not expect: an index out of the bounds of `page[]`, a read through the
wrong segment, and "argc is wrong". -/
inductive Fault where
  | outside (index : UInt32)
  | segment
  | argcWrong
deriving DecidableEq

structure StringArray where
  pointers : Segment
  contents : Segment
  list : List CString

structure Store where
  p : UInt32
  pag : Nat
  offset : Int
  byte : UInt8

/-- `page[]` holds the addresses of frames; `get_free_page` takes the first one of `free`. The last
store comes first. -/
structure ArgPages where
  page : List (Option Nat)
  free : List Nat
  stores : List Store
  p : UInt32
  fs : Segment

structure Cursor extends ArgPages where
  offset : Int
  pag : Nat

inductive Stop where
  | fault (fault : Fault)
  /-- `return 0` -/
  | full (a : ArgPages)

/-- `pag = page[p/PAGE_SIZE]`, with a new frame if there is none. -/
def Cursor.findPage (c : Cursor) : Except Stop Cursor :=
  let index := c.p / UInt32.ofNat PAGE_SIZE
  match c.page[index.toNat]? with
  | none => .error (.fault (.outside index))
  | some (some pag) => .ok { c with pag := pag }
  | some none =>
    match c.free with
    | [] => .error (.full c.toArgPages)
    | pag :: free => .ok { c with page := c.page.set index.toNat (some pag), free := free, pag := pag }

def Cursor.setFs (c : Cursor) (fs : Segment) : Cursor := { c with fs := fs }

/-- `*(pag + offset) = get_fs_byte(tmp)` -/
def Cursor.store (contents : Segment) (byte : UInt8) (c : Cursor) : Except Stop Cursor :=
  if c.fs = contents then
    .ok { c with stores := { p := c.p, pag := c.pag, offset := c.offset, byte := byte } :: c.stores }
  else .error (.fault .segment)

section Loops

variable (fromKmem : Nat) (oldFs newFs : Segment)

def Cursor.putByte (contents : Segment) (byte : UInt8) (c : Cursor) : Except Stop Cursor :=
  let c := { c with p := c.p - 1, offset := c.offset - 1 }
  if c.offset < 0 then do
    let c := { c with offset := ((c.p % UInt32.ofNat PAGE_SIZE).toNat : Int) }
    let c := if fromKmem = 2 then c.setFs oldFs else c
    let c ← c.findPage
    let c := if fromKmem = 2 then c.setFs newFs else c
    c.store contents byte
  else c.store contents byte

def Cursor.putBytes (contents : Segment) : List UInt8 → Cursor → Except Stop Cursor
  | [], c => .ok c
  | byte :: rest, c => do
    let c ← c.putByte fromKmem oldFs newFs contents byte
    c.putBytes contents rest

/-- The body of the outer loop, for the pointer with the number `argc`. -/
def Cursor.putString (argv : StringArray) (argc : Nat) (c : Cursor) : Except Stop Cursor :=
  let c := if fromKmem = 1 then c.setFs newFs else c
  if c.fs ≠ argv.pointers then .error (.fault .segment)
  else
    match argv.list[argc]? with
    | none => .error (.fault .argcWrong)
    | some tmp =>
      let c := if fromKmem = 1 then c.setFs oldFs else c
      if c.fs ≠ argv.contents then .error (.fault .segment)
      else
        let len := (terminated tmp.bytes).length
        if c.p - UInt32.ofNat len < 0 then .error (.full (c.setFs oldFs).toArgPages)
        else c.putBytes fromKmem oldFs newFs argv.contents (terminated tmp.bytes).reverse

def Cursor.putStrings (argv : StringArray) : Nat → Cursor → Except Stop Cursor
  | 0, c => .ok c
  | argc + 1, c => do
    let c ← c.putString fromKmem oldFs newFs argv argc
    c.putStrings argv argc

end Loops

/-- `copy_strings`, whose result is the `p` that it leaves. -/
def copyStrings (argc : Int) (argv : StringArray) (fromKmem : Nat) (a : ArgPages) : Except Fault ArgPages :=
  if a.p = 0 then .ok a
  else
    let newFs := .kernel
    let oldFs := a.fs
    let c : Cursor := { a with offset := 0, pag := 0 }
    let c := if fromKmem = 2 then c.setFs newFs else c
    match c.putStrings fromKmem oldFs newFs argv argc.toNat with
    | .ok c => .ok (if fromKmem = 2 then c.setFs oldFs else c).toArgPages
    | .error (.full a) => .ok { a with p := 0 }
    | .error (.fault fault) => .error fault

def freePages : List (Option Nat) → List Nat → List Nat
  | [], free => free
  | none :: page, free => freePages page free
  | some pag :: page, free => freePages page (pag :: free)

inductive Ending where
  | failed (errno : Nat)
  | started (argc envc : Int)
deriving DecidableEq

/-- The pages as the last call of `copy_strings` leaves them, and what is free at the end. -/
structure Result where
  pages : ArgPages
  free : List Nat
  ending : Ending

def execError (a : ArgPages) (errno : Nat) : Result where
  pages := a
  free := freePages a.page a.free
  ending := .failed errno

def emptyPages (free : List Nat) : ArgPages where
  page := List.replicate MAX_ARG_PAGES none
  free := free
  stores := []
  p := .ofNat (PAGE_SIZE * MAX_ARG_PAGES - 4)
  fs := .user

def userArray (list : List CString) : StringArray where
  pointers := .user
  contents := .user
  list := list

def kernelPointer (s : CString) : StringArray where
  pointers := .kernel
  contents := .user
  list := [s]

def kernelString (s : CString) : StringArray where
  pointers := .kernel
  contents := .kernel
  list := [s]

section Execve

variable (namei : CString → Option Inode) (current : Current) (free : List Nat)
  (filename : CString) (argv envp : List CString)

/-- From `restart_interp` to `bread`: the first block, or the error. -/
def readHeader (inode : Inode) : Except Nat (Nat → UInt8) :=
  if inode.mode &&& 0o170000 ≠ 0o100000 then .error EACCES
  else if mayExecute current inode = false then .error ENOEXEC
  else match inode.block with
    | none => .error EACCES
    | some block => .ok block

/-- `if (i_arg)` -/
def spliceArg (iArg : Option CString) (argc : Int) (a : ArgPages) : Except Fault (ArgPages × Int) :=
  match iArg with
  | none => .ok (a, argc)
  | some iArg => (copyStrings 1 (kernelString iArg) 2 a).map fun a => (a, argc + 1)

/-- The copying of the `#!` interpretation, with `argc`. -/
def spliceScript (script : Script) : Except Fault (ArgPages × Int) := do
  let argc := count argv
  let a ← copyStrings (count envp) (userArray envp) 0 (emptyPages free)
  let argc := argc - 1
  let a ← copyStrings argc (userArray argv.tail) 0 a
  let a ← copyStrings 1 (kernelPointer filename) 1 a
  let argc := argc + 1
  let (a, argc) ← spliceArg script.iArg argc a
  let a ← copyStrings 1 (kernelString script.iName) 2 a
  let argc := argc + 1
  pure (a, argc)

/-- From `restart_interp` on for an interpreter, which is not looked at for another one. -/
def restartInterp (script : Script) (a : ArgPages) (argc : Int) : Result :=
  match namei script.interp with
  | none => execError a ENOENT
  | some inode =>
    match readHeader current inode with
    | .error errno => execError a errno
    | .ok block =>
      if isExecutable inode block then
        { pages := a, free := a.free, ending := .started argc (count envp) }
      else execError a ENOEXEC

def execScript (script : Script) : Except Fault Result := do
  let (a, argc) ← spliceScript free filename argv envp script
  if a.p = 0 then pure (execError a ENOMEM) else pure (restartInterp namei current envp script a argc)

def execBinary : Except Fault Result := do
  let a ← copyStrings (count envp) (userArray envp) 0 (emptyPages free)
  let a ← copyStrings (count argv) (userArray argv) 0 a
  if a.p = 0 then pure (execError a ENOMEM)
  else pure { pages := a, free := a.free, ending := .started (count argv) (count envp) }

/-- `do_execve` up to "the point of no return". -/
def doExecve : Except Fault Result :=
  match namei filename with
  | none => .ok (execError (emptyPages free) ENOENT)
  | some inode =>
    match readHeader current inode with
    | .error errno => .ok (execError (emptyPages free) errno)
    | .ok block =>
      if isScript block then
        match parseScript block with
        | none => .ok (execError (emptyPages free) ENOEXEC)
        | some script => execScript namei current free filename argv envp script
      else if isExecutable inode block then execBinary free argv envp
      else .ok (execError (emptyPages free) ENOEXEC)

end Execve

end Linux012.Fs.ArgumentPages

import Linux012.Lib.ByteMemory
import Mathlib.Data.List.TakeWhile

/-! `do_execve` of `fs/exec.c`: the arguments and the environment on their way through
the argument pages to the stack of the new program. -/

set_option autoImplicit false

namespace Linux012.Fs.Exec

open ByteMemory

def PAGE_SIZE : Nat := 4096
def MAX_ARG_PAGES : Nat := 32
def TASK_SIZE : Nat := 0x04000000
def LIBRARY_SIZE : Nat := 0x00400000

def ENOENT : Nat := 2
def ENOEXEC : Nat := 8
def ENOMEM : Nat := 12
def EACCES : Nat := 13

def ZMAGIC : Nat := 0o413

def SLASH : UInt8 := 47
def NEWLINE : UInt8 := 10

def CString := { s : List UInt8 // 0 ∉ s }

def CString.bytes (s : CString) : List UInt8 := s.val

def CString.ofBytes (bytes : List UInt8) : CString :=
  ⟨bytes.takeWhile (· ≠ 0), fun member => by simpa using List.mem_takeWhile_imp member⟩

/-- The end of a call that does not succeed: an error, or a store below the argument
pages, which `copy_strings` does not notice. -/
inductive Failure where
  | error (errno : Nat)
  | overrun
deriving DecidableEq

/-! ## Copying strings -/

structure ArgPages where
  page : Nat → Option (Nat → UInt8)
  free : Nat
  p : Nat

/-- With the local variables of `copy_strings`; `pag` is an index into `page[]`. -/
structure Cursor extends ArgPages where
  offset : Int
  pag : Nat

def Cursor.store (c : Cursor) (byte : UInt8) : Cursor :=
  { c with
    page := Function.update c.page c.pag
      ((c.page c.pag).map fun pag => Function.update pag c.offset.toNat byte) }

def Cursor.putByte (c : Cursor) (byte : UInt8) : Except Failure Cursor :=
  if c.p = 0 then .error .overrun
  else
    let c := { c with p := c.p - 1, offset := c.offset - 1 }
    if c.offset < 0 then
      let c := { c with offset := (c.p % PAGE_SIZE : Nat), pag := c.p / PAGE_SIZE }
      match c.page c.pag with
      | some _ => .ok (c.store byte)
      | none =>
        if c.free = 0 then .error (.error ENOMEM)
        else
          let c := { c with page := Function.update c.page c.pag (some fun _ => 0), free := c.free - 1 }
          .ok (c.store byte)
    else .ok (c.store byte)

def Cursor.putBytes (c : Cursor) : List UInt8 → Except Failure Cursor
  | [] => .ok c
  | byte :: rest =>
    match c.putByte byte with
    | .ok c => c.putBytes rest
    | .error failure => .error failure

def Cursor.putStrings (c : Cursor) : List CString → Except Failure Cursor
  | [] => .ok c
  | s :: rest =>
    match c.putBytes (terminated s.bytes).reverse with
    | .ok c => c.putStrings rest
    | .error failure => .error failure

/-- `copy_strings`. A result of 0 makes the next calls return 0 and `do_execve` return
`-ENOMEM`, so that it is an error here. -/
def copyStrings (argc : Int) (argv : List CString) (a : ArgPages) : Except Failure ArgPages :=
  if a.p = 0 then .error (.error ENOMEM)
  else
    match ({ a with offset := 0, pag := 0 } : Cursor).putStrings (argv.take argc.toNat).reverse with
    | .ok c => .ok c.toArgPages
    | .error failure => .error failure

/-! ## The new memory -/

def putDirtyPage (mem : Memory) (pag : Nat → UInt8) (address : Nat) : Memory := fun x =>
  if address ≤ x ∧ x < address + PAGE_SIZE then pag (x - address) else mem x

/-- The loop of `change_ldt`. -/
def putPages (page : Nat → Option (Nat → UInt8)) : Nat → Nat → Memory → Memory
  | 0, _, mem => mem
  | i + 1, dataBase, mem =>
    let dataBase := dataBase - PAGE_SIZE
    putPages page i dataBase
      (match page i with
        | some pag => putDirtyPage mem pag dataBase
        | none => mem)

/-- `change_ldt`: the pages come right below the library, over what the program has
there else. -/
def changeLdt (page : Nat → Option (Nat → UInt8)) (image : Memory) : Memory :=
  putPages page MAX_ARG_PAGES (TASK_SIZE - LIBRARY_SIZE) image

/-- A `while` loop of `create_tables`: the memory, and where the table and the strings
go on. -/
def putPointers : Nat → Nat → Nat → Memory → Memory × Nat × Nat
  | 0, table, p, mem => (mem, table, p)
  | n + 1, table, p, mem =>
    let mem := putLong mem table p
    putPointers n (table + 4) (skipString mem TASK_SIZE p) mem

def createTables (mem : Memory) (p argc envc : Nat) : Nat × Memory :=
  let sp := p / 4 * 4
  let envp := sp - 4 * (envc + 1)
  let argv := envp - 4 * (argc + 1)
  let mem := putLong mem (argv - 4) envp
  let mem := putLong mem (argv - 8) argv
  let mem := putLong mem (argv - 12) argc
  let (mem, table, p) := putPointers argc argv p mem
  let mem := putLong mem table 0
  let (mem, table, _) := putPointers envc envp p mem
  (argv - 12, putLong mem table 0)

/-! ## The file -/

/-- What `do_execve` reads of an inode, with its first block, if that can be read. -/
structure Inode where
  mode : Nat
  uid : Nat
  gid : Nat
  size : Nat
  block : Option (Nat → UInt8)

structure Current where
  euid : Nat
  egid : Nat
  groups : List Nat

def inGroup (current : Current) (grp : Nat) : Bool := grp = current.egid ∨ grp ∈ current.groups

def mayExecute (current : Current) (inode : Inode) : Bool :=
  let i :=
    if current.euid = inode.uid then inode.mode >>> 6
    else if inGroup current inode.gid then inode.mode >>> 3
    else inode.mode
  i &&& 1 ≠ 0 ∨ (inode.mode &&& 0o111 ≠ 0 ∧ current.euid = 0)

def readHeader (current : Current) (inode : Inode) : Except Failure (Nat → UInt8) :=
  if inode.mode &&& 0o170000 ≠ 0o100000 then .error (.error EACCES)
  else if mayExecute current inode = false then .error (.error ENOEXEC)
  else match inode.block with
    | none => .error (.error EACCES)
    | some block => .ok block

def header (block : Nat → UInt8) (k : Nat) : Nat := getLong block (4 * k)

/-- The checks of the header; with `ZMAGIC` the text is always at `BLOCK_SIZE`. -/
def isExecutable (inode : Inode) (block : Nat → UInt8) : Bool :=
  let text := header block 1
  let data := header block 2
  let bss := header block 3
  let syms := header block 4
  header block 0 = ZMAGIC ∧ header block 6 = 0 ∧ header block 7 = 0 ∧
    (text + data + bss) % 2 ^ 32 ≤ 0x3000000 ∧ (text + data + syms + 1024) % 2 ^ 32 ≤ inode.size

def isScript (block : Nat → UInt8) : Bool := block 0 = 35 ∧ block 1 = 33

def isBlank (c : UInt8) : Bool := c = 32 ∨ c = 9

structure Script where
  interp : CString
  iName : CString
  iArg : Option CString

def lastName (iName : List UInt8) : List UInt8 → List UInt8
  | [] => iName
  | c :: cp => lastName (if c = SLASH then cp else iName) cp

def lineBuffer (block : Nat → UInt8) : List UInt8 :=
  ((List.range 127).map fun i => block (i + 2)).takeWhile (· ≠ 0)

def scriptLine (block : Nat → UInt8) : List UInt8 :=
  ((lineBuffer block).takeWhile (· ≠ NEWLINE)).dropWhile isBlank

def parseScript (block : Nat → UInt8) : Option Script :=
  if NEWLINE ∈ lineBuffer block then
    let cp := scriptLine block
    if cp = [] then none
    else
      let interp := cp.takeWhile (!isBlank ·)
      let rest := cp.dropWhile (!isBlank ·)
      some {
        interp := .ofBytes interp
        iName := .ofBytes (lastName interp interp)
        iArg := if rest = [] then none else some (.ofBytes rest.tail) }
  else none

/-! ## The call -/

def count (argv : List CString) : Int := argv.length

/-- What is there at the return to user mode: the memory, and `eip[0]` and `eip[3]`. -/
structure Image where
  mem : Memory
  eip : Nat
  sp : Nat

def loadProgram (image : Memory) (block : Nat → UInt8) (a : ArgPages) (argc envc : Int) : Image :=
  let mem := changeLdt a.page image
  let p := a.p + TASK_SIZE - (LIBRARY_SIZE + MAX_ARG_PAGES * PAGE_SIZE)
  let (sp, mem) := createTables mem p argc.toNat envc.toNat
  { mem := mem, eip := header block 5, sp := sp }

def emptyPages (free : Nat) : ArgPages where
  page := fun _ => none
  free := free
  p := PAGE_SIZE * MAX_ARG_PAGES - 4

section Execve

/- What the calling task sees: the files, its own rights and strings, and the memory that
the new program has from its file. -/
variable (namei : CString → Option Inode) (current : Current) (image : Memory) (free : Nat)
  (filename : CString) (argv envp : List CString)

/-- `if (i_arg)` -/
def spliceArg (iArg : Option CString) (a : ArgPages) (argc : Int) : Except Failure (ArgPages × Int) :=
  match iArg with
  | none => .ok (a, argc)
  | some iArg => (copyStrings 1 [iArg] a).map fun a => (a, argc + 1)

/-- The section "that does the #! interpretation", from the splicing on: the pages and
`argc`. -/
def spliceScript (script : Script) : Except Failure (ArgPages × Int) := do
  let argc := count argv
  let a ← copyStrings (count envp) envp (emptyPages free)
  let argc := argc - 1
  let a ← copyStrings argc argv.tail a
  let a ← copyStrings 1 [filename] a
  let argc := argc + 1
  let (a, argc) ← spliceArg script.iArg a argc
  let a ← copyStrings 1 [script.iName] a
  let argc := argc + 1
  if a.p = 0 then .error (.error ENOMEM) else pure (a, argc)

def execScript (script : Script) : Except Failure Image := do
  let (a, argc) ← spliceScript free filename argv envp script
  match namei script.interp with
  | none => .error (.error ENOENT)
  | some inode =>
    let block ← readHeader current inode
    if isExecutable inode block then pure (loadProgram image block a argc (count envp))
    else .error (.error ENOEXEC)

def execBinary (inode : Inode) (block : Nat → UInt8) : Except Failure Image := do
  if isExecutable inode block then
    let a ← copyStrings (count envp) envp (emptyPages free)
    let a ← copyStrings (count argv) argv a
    if a.p = 0 then .error (.error ENOMEM) else pure (loadProgram image block a (count argv) (count envp))
  else .error (.error ENOEXEC)

def doExecve : Except Failure Image :=
  match namei filename with
  | none => .error (.error ENOENT)
  | some inode => do
    let block ← readHeader current inode
    if isScript block then
      match parseScript block with
      | none => .error (.error ENOEXEC)
      | some script => execScript namei current image free filename argv envp script
    else execBinary image free argv envp inode block

end Execve

/-! ## What the program is to receive -/

def baseName (path : List UInt8) : List UInt8 := (path.reverse.takeWhile (· ≠ SLASH)).reverse

def firstBlock (namei : CString → Option Inode) (filename : CString) : Option (Nat → UInt8) :=
  (namei filename).bind Inode.block

def namesScript (namei : CString → Option Inode) (filename : CString) : Bool :=
  (firstBlock namei filename).any isScript

/-- The given arguments, for a script behind the base name of its interpreter, the
argument on its line and the name of its file. -/
def expectedArgs (namei : CString → Option Inode) (filename : CString) (argv : List CString) :
    List (List UInt8) :=
  match (firstBlock namei filename).filter isScript with
  | none => argv.map CString.bytes
  | some block =>
    match parseScript block with
    | none => []
    | some script =>
      baseName script.interp.bytes :: (script.iArg.map CString.bytes).toList ++ filename.bytes ::
        argv.tail.map CString.bytes

/-- At the stack pointer are `argc`, the pointers to the two tables, and the tables, whose
strings are these. -/
structure Receives (image : Image) (args envs : List (List UInt8)) : Prop where
  argc : getLong image.mem image.sp = args.length
  argv : getLong image.mem (image.sp + 4) = image.sp + 12
  envp : getLong image.mem (image.sp + 8) = image.sp + 12 + 4 * (args.length + 1)
  argTable : Pointers image.mem (image.sp + 12) args
  envTable : Pointers image.mem (image.sp + 12 + 4 * (args.length + 1)) envs

end Linux012.Fs.Exec

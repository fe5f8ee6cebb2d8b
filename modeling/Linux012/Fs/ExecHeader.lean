import Linux012.Fs.ExecArguments

/-! The header that `do_execve` checks, and the sizes that it puts into the task. -/

set_option autoImplicit false

namespace Linux012.Fs.Exec

open ByteMemory

def BLOCK_SIZE : UInt32 := 1024
def SEGMENT_SIZE : UInt32 := 1024

/-- `struct exec` -/
structure Header where
  magic : UInt32
  text : UInt32
  data : UInt32
  bss : UInt32
  syms : UInt32
  entry : UInt32
  trsize : UInt32
  drsize : UInt32

namespace Header

variable (ex : Header)

def txtOff : UInt32 := if ex.magic = .ofNat ZMAGIC then (SEGMENT_SIZE - 32) + 32 else 32

def badFormat (size : UInt32) : Bool :=
  ex.magic ≠ .ofNat ZMAGIC ∨ ex.trsize ≠ 0 ∨ ex.drsize ≠ 0 ∨ 0x3000000 < ex.text + ex.data + ex.bss ∨
    size < ex.text + ex.data + ex.syms + ex.txtOff

def accepted (size : UInt32) : Bool := !ex.badFormat size && ex.txtOff == BLOCK_SIZE

/-- `ex = *((struct exec *) bh->b_data)` -/
def ofBlock (block : Nat → UInt8) : Header where
  magic := .ofNat (header block 0)
  text := .ofNat (header block 1)
  data := .ofNat (header block 2)
  bss := .ofNat (header block 3)
  syms := .ofNat (header block 4)
  entry := .ofNat (header block 5)
  trsize := .ofNat (header block 6)
  drsize := .ofNat (header block 7)

/-- `end_code`, `end_data` and `brk` of the task after the point of no return. -/
structure Sizes where
  endCode : UInt32
  endData : UInt32
  brk : UInt32

def sizes : Sizes :=
  let endCode := ex.text
  let endData := ex.data + endCode
  { endCode := endCode, endData := endData, brk := ex.bss + endData }

/-! ## What the checks are for -/

def memorySize : Nat := ex.text.toNat + ex.data.toNat + ex.bss.toNat

def fileSize : Nat := 1024 + ex.text.toNat + ex.data.toNat + ex.syms.toNat

/-- The sizes are in order, below the argument pages and below the tables on the stack. -/
structure Sizes.Ordered (sizes : Sizes) (sp : Nat) : Prop where
  code : sizes.endCode ≤ sizes.endData
  data : sizes.endData ≤ sizes.brk
  pages : sizes.brk.toNat < argBase
  tables : sizes.brk.toNat < sp

end Header

def loadedFile (namei : CString → Option Inode) (filename : CString) : Option Inode :=
  match namei filename with
  | none => none
  | some inode =>
    match inode.block.filter isScript with
    | none => some inode
    | some block => (parseScript block).bind fun script => namei script.interp

/-- Some call of `do_execve` gets to its end with a file of this header and size, and leaves
this image. -/
def Starts (ex : Header) (size : UInt32) (result : Image) : Prop :=
  ∃ (namei : CString → Option Inode) (current : Current) (image : Memory) (free : Nat) (filename : CString)
    (argv envp : List CString) (inode : Inode) (block : Nat → UInt8),
    doExecve namei current image free filename argv envp = .ok result ∧
      loadedFile namei filename = some inode ∧ inode.block = some block ∧ Header.ofBlock block = ex ∧
      inode.size = size.toNat

/-! ## The sums -/

theorem header_lt (block : Nat → UInt8) (k : Nat) : header block k < 2 ^ 32 := by
  have first := (block (4 * k)).toNat_lt
  have second := (block (4 * k + 1)).toNat_lt
  have third := (block (4 * k + 2)).toNat_lt
  have fourth := (block (4 * k + 3)).toNat_lt
  unfold header getLong
  omega

theorem toNat_header (block : Nat → UInt8) (k : Nat) : (UInt32.ofNat (header block k)).toNat = header block k :=
  UInt32.toNat_ofNat_of_lt' (header_lt block k)

theorem ofNat_eq_iff {m n : Nat} (left : m < 2 ^ 32) (right : n < 2 ^ 32) : UInt32.ofNat m = .ofNat n ↔ m = n := by
  rw [← UInt32.toNat_inj, UInt32.toNat_ofNat_of_lt' left, UInt32.toNat_ofNat_of_lt' right]

namespace Header

variable {ex : Header} {size : UInt32}

theorem accepted_iff : ex.accepted size = true ↔
    ex.magic = .ofNat ZMAGIC ∧ ex.trsize = 0 ∧ ex.drsize = 0 ∧ ex.text + ex.data + ex.bss ≤ 0x3000000 ∧
      ex.text + ex.data + ex.syms + 1024 ≤ size := by
  unfold accepted badFormat
  constructor
  · intro passed
    by_cases magic : ex.magic = .ofNat ZMAGIC
    · have txtOff : ex.txtOff = 1024 := if_pos magic
      simpa [magic, txtOff, BLOCK_SIZE] using passed
    · simp [magic] at passed
  · rintro ⟨magic, trsize, drsize, memory, file⟩
    have txtOff : ex.txtOff = 1024 := if_pos magic
    simp [magic, txtOff, trsize, drsize, memory, file, BLOCK_SIZE]

theorem toNat_memorySum : (ex.text + ex.data + ex.bss).toNat = ex.memorySize % 2 ^ 32 := by
  simp [memorySize, UInt32.toNat_add]

theorem toNat_fileSum : (ex.text + ex.data + ex.syms + 1024).toNat = ex.fileSize % 2 ^ 32 := by
  simp [fileSize, UInt32.toNat_add]
  omega

theorem memorySize_le_iff (accepted : ex.accepted size = true) :
    ex.memorySize ≤ 0x3000000 ↔ ex.memorySize < 2 ^ 32 := by
  obtain ⟨-, -, -, memory, -⟩ := accepted_iff.mp accepted
  rw [UInt32.le_iff_toNat_le, toNat_memorySum] at memory
  constructor
  · intro small
    omega
  · intro fits
    rwa [Nat.mod_eq_of_lt fits] at memory

theorem fileSize_le_iff (accepted : ex.accepted size = true) :
    ex.fileSize ≤ size.toNat ↔ ex.fileSize < 2 ^ 32 := by
  obtain ⟨-, -, -, -, file⟩ := accepted_iff.mp accepted
  rw [UInt32.le_iff_toNat_le, toNat_fileSum] at file
  constructor
  · intro small
    exact small.trans_lt size.toNat_lt
  · intro fits
    rwa [Nat.mod_eq_of_lt fits] at file

theorem sizes_ordered {sp : Nat} (small : ex.memorySize ≤ 0x3000000) (above : 0x3000000 < sp) :
    ex.sizes.Ordered sp := by
  have endData : (ex.data + ex.text).toNat = ex.data.toNat + ex.text.toNat := by
    rw [UInt32.toNat_add]
    unfold memorySize at small
    omega
  have brk : (ex.bss + (ex.data + ex.text)).toNat = ex.memorySize := by
    rw [UInt32.toNat_add, endData]
    unfold memorySize at small ⊢
    omega
  have high : 0x3000000 < argBase := by decide
  refine ⟨?_, ?_, ?_, ?_⟩
  · rw [UInt32.le_iff_toNat_le]
    change ex.text.toNat ≤ (ex.data + ex.text).toNat
    omega
  · rw [UInt32.le_iff_toNat_le]
    change (ex.data + ex.text).toNat ≤ (ex.bss + (ex.data + ex.text)).toNat
    rw [brk, endData, memorySize]
    omega
  · exact brk ▸ small.trans_lt high
  · exact brk ▸ small.trans_lt above

theorem isExecutable_eq {inode : Inode} {block : Nat → UInt8} (word : inode.size = size.toNat) :
    isExecutable inode block = (ofBlock block).accepted size := by
  rw [Bool.eq_iff_iff, accepted_iff, isExecutable, decide_eq_true_iff]
  simp only [UInt32.le_iff_toNat_le, toNat_memorySum, toNat_fileSum, ← word]
  have magic : header block 0 = ZMAGIC ↔ (ofBlock block).magic = .ofNat ZMAGIC :=
    (ofNat_eq_iff (header_lt block 0) (by decide)).symm
  have trsize : header block 6 = 0 ↔ (ofBlock block).trsize = 0 := (ofNat_eq_iff (header_lt block 6) (by decide)).symm
  have drsize : header block 7 = 0 ↔ (ofBlock block).drsize = 0 := (ofNat_eq_iff (header_lt block 7) (by decide)).symm
  have memory : (ofBlock block).memorySize = header block 1 + header block 2 + header block 3 := by
    simp only [memorySize, ofBlock, toNat_header]
  have file : (ofBlock block).fileSize = header block 1 + header block 2 + header block 4 + 1024 := by
    simp only [fileSize, ofBlock, toNat_header]
    omega
  rw [magic, trsize, drsize, memory, file]
  rfl

end Header

/-! ## Where the stack begins -/

/-- The checks let the file through, it is loaded, and the strings in the argument pages are
enough for the counts. -/
structure Loads (image : Memory) (result : Image) (inode : Inode) (block : Nat → UInt8)
    (strings : List CString) : Prop where
  read : inode.block = some block
  passed : isExecutable inode block = true
  built : ∃ (a : ArgPages) (argc envc : Int), result = loadProgram image block a argc envc ∧
    a.Filled (joined (strings.map CString.bytes)) ∧ argc.toNat + envc.toNat ≤ strings.length

theorem loadProgram_sp (image : Memory) (block : Nat → UInt8) (a : ArgPages) (argc envc : Int) :
    (loadProgram image block a argc envc).sp =
      (a.p + TASK_SIZE - (LIBRARY_SIZE + MAX_ARG_PAGES * PAGE_SIZE)) / 4 * 4 - 4 * (envc.toNat + 1) -
        4 * (argc.toNat + 1) - 12 := rfl

variable {result : Image}

theorem Loads.stack_high {image : Memory} {inode : Inode} {block : Nat → UInt8} {strings : List CString}
    (loads : Loads image result inode block strings) : 0x3000000 < result.sp := by
  obtain ⟨a, argc, envc, rfl, ⟨length, -⟩, enough⟩ := loads.built
  have few := length_le_joined (strings.map CString.bytes)
  rw [List.length_map] at few
  rw [loadProgram_sp]
  have sizes : PAGE_SIZE * MAX_ARG_PAGES - 4 = 131068 ∧ TASK_SIZE = 67108864 ∧
      LIBRARY_SIZE + MAX_ARG_PAGES * PAGE_SIZE = 4325376 := by decide
  omega

section Execve

variable {namei : CString → Option Inode} {current : Current} {image : Memory} {free : Nat}
  {filename : CString} {argv envp : List CString} {result : Image}

theorem execBinary_loads {inode : Inode} {block : Nat → UInt8} (read : inode.block = some block)
    (done : execBinary image free argv envp inode block = .ok result) :
    Loads image result inode block (argv ++ envp) := by
  unfold execBinary at done
  split at done
  next passed =>
    obtain ⟨a₁, copied₁, done⟩ := bind_ok done
    obtain ⟨a₂, copied₂, done⟩ := bind_ok done
    have filled₁ := copyStrings_filled copied₁ (by rw [count, Int.toNat_natCast]) (emptyPages_filled free)
    have filled₂ := copyStrings_filled copied₂ (by rw [count, Int.toNat_natCast]) filled₁
    split at done
    · cases done
    · cases done
      refine ⟨read, passed, a₂, count argv, count envp, rfl, ?_, ?_⟩
      · simpa [joined] using filled₂
      · rw [count, count, Int.toNat_natCast, Int.toNat_natCast, List.length_append]
  next => cases done

theorem execScript_loads {script : Script}
    (done : execScript namei current image free filename argv envp script = .ok result) :
    ∃ inode block, namei script.interp = some inode ∧
      Loads image result inode block (scriptArgs script filename argv ++ envp) := by
  unfold execScript at done
  obtain ⟨⟨a, argc⟩, spliced, done⟩ := bind_ok done
  obtain ⟨filled, isArgc⟩ := spliceScript_spec spliced
  dsimp only at done
  split at done
  · cases done
  next inode found =>
    obtain ⟨block, read, done⟩ := bind_ok done
    split at done
    next passed =>
      cases done
      refine ⟨inode, block, found, readHeader_block read, passed, a, argc, count envp, rfl, filled, ?_⟩
      rw [isArgc, count, List.length_append, scriptArgs_length, List.length_tail]
      omega
    next => cases done

theorem doExecve_loads (done : doExecve namei current image free filename argv envp = .ok result) :
    ∃ inode block strings, loadedFile namei filename = some inode ∧ Loads image result inode block strings := by
  unfold doExecve at done
  cases file : namei filename with
  | none =>
    rw [file] at done
    cases done
  | some inode =>
    simp only [file] at done
    obtain ⟨block, read, done⟩ := bind_ok done
    have isBlock := readHeader_block read
    by_cases marked : isScript block = true
    · rw [if_pos marked] at done
      cases parsed : parseScript block with
      | none =>
        rw [parsed] at done
        cases done
      | some script =>
        simp only [parsed] at done
        obtain ⟨interpreter, first, found, loads⟩ := execScript_loads done
        refine ⟨interpreter, first, _, ?_, loads⟩
        have kept : (some block).filter isScript = some block := if_pos marked
        simp only [loadedFile, file, isBlock, kept, parsed, Option.bind_some, found]
    · rw [if_neg marked] at done
      refine ⟨inode, block, _, ?_, execBinary_loads isBlock done⟩
      have refused : (some block).filter isScript = none := if_neg marked
      simp only [loadedFile, file, isBlock, refused]

end Execve

theorem Starts.stack_high {ex : Header} {size : UInt32} (starts : Starts ex size result) :
    0x3000000 < result.sp := by
  obtain ⟨namei, current, image, free, filename, argv, envp, -, -, done, -⟩ := starts
  obtain ⟨inode, block, strings, -, loads⟩ := doExecve_loads done
  exact loads.stack_high

/-- The checks of the header do what they are for as long as their sums do not overflow. -/
theorem header_numbers_iff {ex : Header} {size : UInt32} (accepted : ex.accepted size = true) :
    (ex.memorySize ≤ 0x3000000 ∧ ex.fileSize ≤ size.toNat ∧
        ∀ result, Starts ex size result → ex.sizes.Ordered result.sp) ↔
      ex.memorySize < 2 ^ 32 ∧ ex.fileSize < 2 ^ 32 := by
  rw [Header.memorySize_le_iff accepted, Header.fileSize_le_iff accepted]
  constructor
  · rintro ⟨memory, file, -⟩
    exact ⟨memory, file⟩
  · rintro ⟨memory, file⟩
    refine ⟨memory, file, fun result starts => ?_⟩
    exact Header.sizes_ordered ((Header.memorySize_le_iff accepted).mpr memory) starts.stack_high

def smallHeader : Header where
  magic := 0o413
  text := 16384
  data := 4096
  bss := 8192
  syms := 0
  entry := 0
  trsize := 0
  drsize := 0

theorem smallHeader_numbers :
    smallHeader.memorySize ≤ 0x3000000 ∧ smallHeader.fileSize ≤ (21504 : UInt32).toNat ∧
      ∀ result, Starts smallHeader 21504 result → smallHeader.sizes.Ordered result.sp :=
  (header_numbers_iff (by decide)).mpr (by decide)

/-! ## A header whose sums overflow -/

def overflowHeader : Header where
  magic := 0o413
  text := 0xfffff000
  data := 0x1800
  bss := 0
  syms := 0
  entry := 0
  trsize := 0
  drsize := 0

def overflowFile : Inode where
  mode := 0o100755
  uid := 0
  gid := 0
  size := 4096
  block := some fun i => [0x0B, 0x01, 0, 0, 0x00, 0xF0, 0xFF, 0xFF, 0x00, 0x18, 0, 0].getD i 0

theorem overflowHeader_starts :
    overflowHeader.accepted 4096 = true ∧ ¬overflowHeader.memorySize ≤ 0x3000000 ∧
      ¬overflowHeader.fileSize ≤ (4096 : UInt32).toNat ∧
      ∃ result, Starts overflowHeader 4096 result ∧ ¬overflowHeader.sizes.Ordered result.sp := by
  refine ⟨by decide, by decide, by decide, ?_⟩
  obtain ⟨result, done, -⟩ := exists_ok
    (x := doExecve (fun _ => some overflowFile) superUser (fun _ => 0) 32 scriptName [] []) (fun _ => True)
    (by decide +kernel)
  refine ⟨result, ⟨_, _, _, _, _, _, _, overflowFile, _, done, ?_, rfl, ?_, rfl⟩, fun ordered => ?_⟩
  · rfl
  · rfl
  · exact absurd ordered.code (by decide)

end Linux012.Fs.Exec

import Linux012.Fs.NamingMachine

/-! The system calls of `fs/namei.c`. -/

set_option autoImplicit false

namespace Linux012.Fs.Naming

open Namei
open InodeTable (Slot S_IFMT S_IFBLK)

def EPERM : Int := 1
def ENOENT : Int := 2
def EACCES : Int := 13
def EEXIST : Int := 17
def EXDEV : Int := 18
def ENOTDIR : Int := 20
def EISDIR : Int := 21
def ENOSPC : Int := 28
def ENOTEMPTY : Int := 39
def ERROR : Int := 99

def S_IFCHR : Nat := 0o020000
def S_ISVTX : Nat := 0o001000

def O_ACCMODE : Nat := 3
def O_WRONLY : Nat := 1
def O_CREAT : Nat := 0o100
def O_EXCL : Nat := 0o200
def O_TRUNC : Nat := 0o1000

def accMode (flag : Nat) : Nat := [4, 2, 6, 255].getD (flag &&& O_ACCMODE) 0

def permit (i : Slot) (mask : Nat) : Kernel Bool := do
  let s ← get
  pure (permission s.task (s.table i).toMInode mask)

def userNested : Option (List Byte → Slot → Kernel (Option Slot)) := some (linkNamei ops)

/-! ## New entries -/

/-- The next block in the loop of `add_entry`; nothing if there is no space for it, and
no entry if it cannot be read. -/
def addBlock (dir : Slot) (i : Nat) : Kernel (Option (Option (Buf × Nat))) := do
  let block ← _bmap dir (i / DIR_ENTRIES_PER_BLOCK) true
  if block = 0 then pure none
  else do
    let inode ← inodeOf dir
    let bh ← bread inode.dev block
    pure (some (bh.map fun bh => (bh, 0)))

def addPlace (dir : Slot) (i : Nat) (bh : Option Buf) (de : Nat) : Kernel (Option (Option (Buf × Nat))) :=
  match bh with
  | none => addBlock dir i
  | some b => if de < DIR_ENTRIES_PER_BLOCK then pure (some (some (b, de))) else do
      brelse b
      addBlock dir i

def nameEntry (dir : Slot) (name : List Byte) (bh : Buf) (de : Nat) : Kernel Bool := do
  let s ← get
  if ((s.data bh).entry de).inode = 0 then do
    setData dir fun data => { data with mtime := s.now }
    poke bh (16 * de + 2) ((List.range NAME_LEN).map fun j => name.getD j 0)
    pure true
  else pure false

/-- Entry `i` in `add_entry`; behind the last one the directory grows. -/
def tryEntry (dir : Slot) (name : List Byte) (i : Nat) (bh : Buf) (de : Nat) : Kernel Bool := do
  let inode ← inodeOf dir
  if inode.data.size ≤ i * 16 then do
    setEntry bh de 0
    setData dir fun data => { data with size := (i + 1) * 16 }
    dirty dir
    nameEntry dir name bh de
  else nameEntry dir name bh de

/-- The loop of `add_entry`. `_bmap` panics before the rounds are over. -/
def addLoop (dir : Slot) (name : List Byte) : Nat → Nat → Option Buf → Nat → Kernel (Option (Buf × Nat))
  | 0, _, _, _ => stuck
  | rounds + 1, i, bh, de => do
    match ← addPlace dir i bh de with
    | none => pure none
    | some none => addLoop dir name rounds (i + DIR_ENTRIES_PER_BLOCK) none de
    | some (some (b, de)) => do
      let added ← tryEntry dir name i b de
      if added then pure (some (b, de)) else addLoop dir name rounds (i + 1) (some b) (de + 1)

def addEntry (dir : Slot) (name : List Byte) : Kernel (Option (Buf × Nat)) := do
  let name := name.take NAME_LEN
  let inode ← inodeOf dir
  if name = [] ∨ inode.data.zone 0 = 0 then pure none
  else
    match ← bread inode.dev (inode.data.zone 0) with
    | none => pure none
    | some bh =>
      addLoop dir name ((7 + 512 + 512 * 512) * DIR_ENTRIES_PER_BLOCK + 1) 0 (some bh) 0

/-! ## Calls that make a name -/

/-- How `sys_mknod`, `sys_mkdir`, `sys_rmdir`, `sys_unlink` and `sys_symlink` begin,
with their errors. -/
def inDirectory {α : Type} (pathname : List Byte) (noDir noName noWrite : α)
    (call : Slot → List Byte → Kernel α) : Kernel α := do
  match ← dirNamei ops userNested pathname none with
  | none => pure noDir
  | some (dir, basename) =>
    if basename = [] then do
      iput dir
      pure noName
    else do
      let ok ← permit dir MAY_WRITE
      if ok then call dir basename
      else do
        iput dir
        pure noWrite

def discard (dir inode : Slot) : Kernel Unit := do
  iput dir
  setData inode fun data => { data with nlinks := (data.nlinks + 255) % 256 }
  iput inode

def sysMknod (filename : List Byte) (mode dev : Nat) : Kernel Int := do
  let s ← get
  if s.task.euid ≠ 0 then pure (-EPERM)
  else inDirectory filename (-ENOENT) (-ENOENT) (-EPERM) fun dir basename => do
    let (dir, found) ← findEntry ops dir basename
    match found with
    | some (bh, _) => do
      brelse bh
      iput dir
      pure (-EEXIST)
    | none => do
      let parent ← inodeOf dir
      match ← newInode parent.dev with
      | none => do
        iput dir
        pure (-ENOSPC)
      | some inode => do
        let type := mode &&& S_IFMT
        setData inode fun data =>
          { data with
            mode := mode
            zone := if type = S_IFBLK ∨ type = S_IFCHR then Function.update data.zone 0 dev
              else data.zone
            mtime := s.now }
        dirty inode
        match ← addEntry dir basename with
        | none => do
          iput dir
          setData inode fun data => { data with nlinks := 0 }
          iput inode
          pure (-ENOSPC)
        | some (bh, de) => do
          let child ← inodeOf inode
          setEntry bh de child.num
          iput dir
          iput inode
          brelse bh
          pure 0

def sysMkdir (pathname : List Byte) (mode : Nat) : Kernel Int := do
  let s ← get
  inDirectory pathname (-ENOENT) (-ENOENT) (-EPERM) fun dir basename => do
    let (dir, found) ← findEntry ops dir basename
    match found with
    | some (bh, _) => do
      brelse bh
      iput dir
      pure (-EEXIST)
    | none => do
      let parent ← inodeOf dir
      match ← newInode parent.dev with
      | none => do
        iput dir
        pure (-ENOSPC)
      | some inode => do
        setData inode fun data => { data with size := 32, mtime := s.now }
        dirty inode
        let child ← inodeOf inode
        let block ← newBlock child.dev
        setData inode fun data => { data with zone := Function.update data.zone 0 block }
        if block = 0 then do
          discard dir inode
          pure (-ENOSPC)
        else do
          dirty inode
          match ← bread child.dev block with
          | none => do
            discard dir inode
            pure (-ERROR)
          | some dirBlock => do
            setEntry dirBlock 0 child.num
            poke dirBlock 2 (DOT ++ [0])
            setEntry dirBlock 1 parent.num
            poke dirBlock 18 (DOTDOT ++ [0])
            brelse dirBlock
            setData inode fun data =>
              { data with nlinks := 2, mode := S_IFDIR ||| (mode &&& 0o777 &&& (0o777 ^^^ (s.task.umask &&& 0o777))) }
            dirty inode
            match ← addEntry dir basename with
            | none => do
              iput dir
              setData inode fun data => { data with nlinks := 0 }
              iput inode
              pure (-ENOSPC)
            | some (bh, de) => do
              setEntry bh de child.num
              setData dir fun data => { data with nlinks := (data.nlinks + 1) % 256 }
              dirty dir
              iput dir
              iput inode
              brelse bh
              pure 0

def sysSymlink (oldname newname : List Byte) : Kernel Int := do
  let s ← get
  inDirectory newname (-EACCES) (-EPERM) (-EACCES) fun dir basename => do
    let parent ← inodeOf dir
    match ← newInode parent.dev with
    | none => do
      iput dir
      pure (-ENOSPC)
    | some inode => do
      setData inode fun data =>
        { data with mode := S_IFLNK ||| (0o777 &&& (0o777 ^^^ (s.task.umask &&& 0o777))) }
      dirty inode
      let child ← inodeOf inode
      let block ← newBlock child.dev
      setData inode fun data => { data with zone := Function.update data.zone 0 block }
      if block = 0 then do
        discard dir inode
        pure (-ENOSPC)
      else do
        dirty inode
        match ← bread child.dev block with
        | none => do
          discard dir inode
          pure (-ERROR)
        | some nameBlock => do
          let text := oldname.take (Namei.BLOCK_SIZE - 1)
          poke nameBlock 0 (text ++ [0])
          brelse nameBlock
          setData inode fun data => { data with size := text.length }
          dirty inode
          let (dir, found) ← findEntry ops dir basename
          match found with
          | some (bh, _) => do
            setData inode fun data => { data with nlinks := (data.nlinks + 255) % 256 }
            iput inode
            brelse bh
            iput dir
            pure (-EEXIST)
          | none =>
            match ← addEntry dir basename with
            | none => do
              setData inode fun data => { data with nlinks := (data.nlinks + 255) % 256 }
              iput inode
              iput dir
              pure (-ENOSPC)
            | some (bh, de) => do
              setEntry bh de child.num
              brelse bh
              iput dir
              iput inode
              pure 0

def sysLink (oldname newname : List Byte) : Kernel Int := do
  match ← namei ops oldname with
  | none => pure (-ENOENT)
  | some oldinode => do
    let old ← inodeOf oldinode
    if old.isDir then do
      iput oldinode
      pure (-EPERM)
    else
      match ← dirNamei ops userNested newname none with
      | none => do
        iput oldinode
        pure (-EACCES)
      | some (dir, basename) =>
        if basename = [] then do
          iput oldinode
          iput dir
          pure (-EPERM)
        else do
          let parent ← inodeOf dir
          if parent.dev ≠ old.dev then do
            iput dir
            iput oldinode
            pure (-EXDEV)
          else do
            let ok ← permit dir MAY_WRITE
            if ok then do
              let (dir, found) ← findEntry ops dir basename
              match found with
              | some (bh, _) => do
                brelse bh
                iput dir
                iput oldinode
                pure (-EEXIST)
              | none =>
                match ← addEntry dir basename with
                | none => do
                  iput dir
                  iput oldinode
                  pure (-ENOSPC)
                | some (bh, de) => do
                  setEntry bh de old.num
                  brelse bh
                  iput dir
                  setData oldinode fun data => { data with nlinks := (data.nlinks + 1) % 256 }
                  dirty oldinode
                  iput oldinode
                  pure 0
            else do
              iput dir
              iput oldinode
              pure (-EACCES)

/-! ## Calls that remove a name -/

def sysUnlink (name : List Byte) : Kernel Int :=
  inDirectory name (-ENOENT) (-ENOENT) (-EPERM) fun dir basename => do
    let (dir, found) ← findEntry ops dir basename
    match found with
    | none => do
      iput dir
      pure (-ENOENT)
    | some (bh, de) => do
      let parent ← inodeOf dir
      let block ← dataOf bh
      let inode ← iget parent.dev (block.entry de).inode
      let s ← get
      let child := s.table inode
      if parent.data.mode &&& S_ISVTX ≠ 0 ∧ s.task.euid ≠ 0 ∧ s.task.euid ≠ child.data.uid ∧
          s.task.euid ≠ parent.data.uid then do
        iput dir
        iput inode
        brelse bh
        pure (-EPERM)
      else if child.isDir then do
        iput inode
        iput dir
        brelse bh
        pure (-EPERM)
      else do
        -- a file without links is taken for one with one link
        setData inode fun data => { data with nlinks := if data.nlinks = 0 then 1 else data.nlinks }
        setEntry bh de 0
        brelse bh
        setData inode fun data => { data with nlinks := (data.nlinks + 255) % 256 }
        dirty inode
        iput inode
        iput dir
        pure 0

/-- The loop of `empty_dir`. After a hole the buffer is released although it is released
already; the list of such buffers is not in the source. -/
def emptyLoop (inode : Slot) (len : Nat) :
    Nat → Nat → Buf → Nat → Bool → List Buf → Kernel (Bool × List Buf)
  | 0, _, bh, _, held, again => do
    brelse bh
    pure (true, if held then again else bh :: again)
  | rounds + 1, nr, bh, de, held, again =>
    if nr < len then do
      if de < DIR_ENTRIES_PER_BLOCK then do
        let block ← dataOf bh
        if (block.entry de).inode ≠ 0 then do
          brelse bh
          pure (false, again)
        else emptyLoop inode len rounds (nr + 1) bh (de + 1) held again
      else do
        brelse bh
        let again := if held then again else bh :: again
        let zone ← _bmap inode (nr / DIR_ENTRIES_PER_BLOCK) false
        if zone = 0 then emptyLoop inode len rounds (nr + DIR_ENTRIES_PER_BLOCK) bh de false again
        else do
          let data ← inodeOf inode
          match ← bread data.dev zone with
          | none => pure (false, again)
          | some bh => do
            let block ← dataOf bh
            if (block.entry 0).inode ≠ 0 then do
              brelse bh
              pure (false, again)
            else emptyLoop inode len rounds (nr + 1) bh 1 true again
    else do
      brelse bh
      pure (true, if held then again else bh :: again)

def goodHeads (inode : Inode) (block : Namei.Block) : Bool :=
  (block.entry 0).inode = inode.num ∧ (block.entry 1).inode ≠ 0 ∧
    (block.entry 0).name.take 2 = DOT ++ [0] ∧ (block.entry 1).name.take 3 = DOTDOT ++ [0]

/-- `empty_dir`, with the buffer that it keeps and those that it releases again. -/
def emptyDirLog (inode : Slot) : Kernel (Bool × Option Buf × List Buf) := do
  let data ← inodeOf inode
  let len := data.entries
  if len < 2 ∨ data.data.zone 0 = 0 then pure (false, none, [])
  else
    match ← bread data.dev (data.data.zone 0) with
    | none => pure (false, none, [])
    | some bh => do
      let block ← dataOf bh
      if goodHeads data block then do
        let (empty, again) ← emptyLoop inode len len 2 bh 2 true []
        pure (empty, none, again)
      else pure (false, some bh, [])

def emptyDir (inode : Slot) : Kernel Bool := do
  let (empty, _) ← emptyDirLog inode
  pure empty

/-- `sys_rmdir` up to `empty_dir`: an error, or the directory, the inode, and the entry. -/
def rmdirFind (name : List Byte) : Kernel (Except Int (Slot × Slot × Buf × Nat)) :=
  inDirectory name (.error (-ENOENT)) (.error (-ENOENT)) (.error (-EPERM)) fun dir basename => do
    let (dir, found) ← findEntry ops dir basename
    match found with
    | none => do
      iput dir
      pure (.error (-ENOENT))
    | some (bh, de) => do
      let parent ← inodeOf dir
      let block ← dataOf bh
      let inode ← iget parent.dev (block.entry de).inode
      let s ← get
      let child := s.table inode
      if parent.data.mode &&& S_ISVTX ≠ 0 ∧ s.task.euid ≠ 0 ∧ child.data.uid ≠ s.task.euid then do
        iput dir
        iput inode
        brelse bh
        pure (.error (-EPERM))
      else if child.dev ≠ parent.dev ∨ child.count > 1 then do
        iput dir
        iput inode
        brelse bh
        pure (.error (-EPERM))
      else if inode = dir then do
        iput inode
        iput dir
        brelse bh
        pure (.error (-EPERM))
      else if child.isDir then pure (.ok (dir, inode, bh, de))
      else do
        iput inode
        iput dir
        brelse bh
        pure (.error (-ENOTDIR))

def rmdirEnd (dir inode : Slot) (bh : Buf) (de : Nat) (empty : Bool) : Kernel Int := do
  if empty then do
    let s ← get
    setEntry bh de 0
    brelse bh
    setData inode fun data => { data with nlinks := 0 }
    dirty inode
    setData dir fun data => { data with nlinks := (data.nlinks + 255) % 256, mtime := s.now }
    dirty dir
    iput dir
    iput inode
    pure 0
  else do
    iput inode
    iput dir
    brelse bh
    pure (-ENOTEMPTY)

def sysRmdir (name : List Byte) : Kernel Int := do
  match ← rmdirFind name with
  | .error error => pure error
  | .ok (dir, inode, bh, de) => do
    let empty ← emptyDir inode
    rmdirEnd dir inode bh de empty

/-! ## `open_namei` -/

/-- An error, or the inode in `*res_inode`. -/
def openNamei (pathname : List Byte) (flag mode : Nat) : Kernel (Except Int Slot) := do
  let s ← get
  let flag := if flag &&& O_TRUNC ≠ 0 ∧ flag &&& O_ACCMODE = 0 then flag ||| O_WRONLY else flag
  let mode := S_IFREG ||| (mode &&& 0o777 &&& (0o777 ^^^ (s.task.umask &&& 0o777)))
  match ← dirNamei ops userNested pathname none with
  | none => pure (.error (-ENOENT))
  | some (dir, basename) =>
    if basename = [] then
      if flag &&& (O_ACCMODE ||| O_CREAT ||| O_TRUNC) = 0 then pure (.ok dir)
      else do
        iput dir
        pure (.error (-EISDIR))
    else do
      let (dir, found) ← findEntry ops dir basename
      match found with
      | none =>
        if flag &&& O_CREAT = 0 then do
          iput dir
          pure (.error (-ENOENT))
        else do
          let ok ← permit dir MAY_WRITE
          if ok then do
            let parent ← inodeOf dir
            match ← newInode parent.dev with
            | none => do
              iput dir
              pure (.error (-ENOSPC))
            | some inode => do
              setData inode fun data => { data with uid := s.task.euid, mode := mode }
              dirty inode
              match ← addEntry dir basename with
              | none => do
                setData inode fun data => { data with nlinks := (data.nlinks + 255) % 256 }
                iput inode
                iput dir
                pure (.error (-ENOSPC))
              | some (bh, de) => do
                let child ← inodeOf inode
                setEntry bh de child.num
                brelse bh
                iput dir
                pure (.ok inode)
          else do
            iput dir
            pure (.error (-EACCES))
      | some (bh, de) => do
        let block ← dataOf bh
        let parent ← inodeOf dir
        brelse bh
        if flag &&& O_EXCL ≠ 0 then do
          iput dir
          pure (.error (-EEXIST))
        else do
          let target ← iget parent.dev (block.entry de).inode
          match ← followLink ops userNested dir target with
          | none => pure (.error (-EACCES))
          | some inode => do
            let child ← inodeOf inode
            let ok ← permit inode (accMode flag)
            if child.isDir ∧ flag &&& O_ACCMODE ≠ 0 ∨ ok = false then do
              iput inode
              pure (.error (-EPERM))
            else do
              if flag &&& O_TRUNC ≠ 0 then truncate inode else pure ()
              pure (.ok inode)

end Linux012.Fs.Naming

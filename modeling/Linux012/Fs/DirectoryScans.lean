import Linux012.Fs.HeadChecks
import Linux012.Fs.Namei
import Linux012.Lib.BlockScan

/-! The scans of a directory in `find_entry`, `add_entry` and `empty_dir`, stopped where
they use a buffer head that is `NULL`. Zones may be missing and blocks unreadable anywhere. -/

set_option autoImplicit false

namespace Linux012.Fs.Namei

open InodeTable (ROOT_INO)
open BlockScan (Fetch Outcome scan)

/-! ## find_entry over any machine -/

section Lookup

variable {m : Type → Type} [Monad m] {ι β : Type} [DecidableEq ι] (ops : Ops m ι β) (null : m Unit)

/-- `nextEntry`, with `null` where the comparison `de >= BLOCK_SIZE+bh->b_data` has no buffer. -/
def nextEntryChecked (dir : ι) (i : Nat) (bh : Option β) (de : Nat) : m (Option (β × Nat)) :=
  match bh with
  | none => do
    null
    nextEntry ops dir i none de
  | some b => nextEntry ops dir i (some b) de

def findLoopChecked (dir : ι) (name : List Byte) (entries : Nat) :
    Nat → Nat → Option β → Nat → m (Option (β × Nat))
  | 0, _, bh, _ => do
    release ops bh
    pure none
  | rounds + 1, i, bh, de =>
    if i < entries then do
      match ← nextEntryChecked ops null dir i bh de with
      | none => findLoopChecked dir name entries rounds (i + DIR_ENTRIES_PER_BLOCK) none de
      | some (b, de) =>
        let block ← ops.data b
        let zf ← ops.zf
        if matchName zf name (block.entry de) then pure (some (b, de))
        else findLoopChecked dir name entries rounds (i + 1) (some b) (de + 1)
    else do
      release ops bh
      pure none

def findEntryChecked (dir : ι) (name : List Byte) : m (ι × Option (β × Nat)) := do
  let name := name.take NAME_LEN
  let first ← ops.inode dir
  let (dir, name) ← dotDot ops dir name
  let inode ← ops.inode dir
  if inode.data.zone 0 = 0 then pure (dir, none)
  else
    match ← ops.bread inode.dev (inode.data.zone 0) with
    | none => pure (dir, none)
    | some bh => do
      let found ← findLoopChecked ops null dir name first.entries first.entries 0 (some bh) 0
      pure (dir, found)

theorem findEntryChecked_pure [LawfulMonad m] (dir : ι) (name : List Byte) :
    findEntryChecked ops (pure ()) dir name = findEntry ops dir name := by
  have loop (dir : ι) (name : List Byte) (entries rounds i : Nat) (bh : Option β) (de : Nat) :
      findLoopChecked ops (pure ()) dir name entries rounds i bh de = findLoop ops dir name entries rounds i bh de := by
    have entry (i : Nat) (bh : Option β) (de : Nat) :
        nextEntryChecked ops (pure ()) dir i bh de = nextEntry ops dir i bh de := by
      cases bh with
      | none => exact pure_bind _ _
      | some b => rfl
    induction rounds generalizing i bh de with
    | zero => rfl
    | succ rounds ih =>
      refine ite_congr rfl (fun _ => ?_) fun _ => rfl
      rw [entry]
      refine bind_congr fun next => ?_
      cases next with
      | none => exact ih _ _ _
      | some next =>
        exact bind_congr fun block => bind_congr fun zf => ite_congr rfl (fun _ => rfl) fun _ => ih _ _ _
  rw [findEntryChecked, findEntry]
  refine bind_congr fun first => bind_congr fun named => bind_congr fun inode => ?_
  obtain ⟨dir, name⟩ := named
  refine ite_congr rfl (fun _ => rfl) fun _ => ?_
  refine bind_congr fun bh => ?_
  cases bh with
  | none => rfl
  | some bh => exact congrArg (fun scanned => scanned >>= fun found => pure (dir, found)) (loop ..)

end Lookup

/-! ## Directories on a disk -/

def blocks : Nat := 7 + 512 + 512 * 512

/-- The directories that a process finds, with the zones `bmap` gives for their blocks and
the blocks that can be read. -/
structure Directories where
  task : Task Nat
  zf : Bool
  inode : Nat → MInode
  imount : Nat → Option Nat
  zone : Nat → Nat → Nat
  read : Nat → Nat → Option Block

abbrev Scan := Except HeadFault

namespace Directories

variable (dirs : Directories)

def bmap (dir k : Nat) : Scan Nat := if k < blocks then .ok (dirs.zone dir k) else .error .panic

def ops : Ops Scan Nat Block where
  zf := .ok dirs.zf
  current := .ok dirs.task
  inode i := .ok (dirs.inode i)
  imount dev := .ok (dirs.imount dev)
  iget _ _ := .error .panic
  iput _ := .ok ()
  hold _ := .ok ()
  touch _ := .ok ()
  bmap := dirs.bmap
  bread dev block := .ok (dirs.read dev block)
  brelse _ := .ok ()
  data := .ok
  text _ := .ok []

def findEntry (dir : Nat) (name : List Byte) : Scan (Nat × Option (Block × Nat)) :=
  findEntryChecked dirs.ops (.error .null) dir name

def blockAt (dir k : Nat) : Option Block :=
  let zone := if k = 0 then (dirs.inode dir).data.zone 0 else dirs.zone dir k
  if zone = 0 then none else dirs.read (dirs.inode dir).dev zone

def Matches (dir : Nat) (name : List Byte) (j : Nat) : Prop :=
  ∃ b, dirs.blockAt dir (j / DIR_ENTRIES_PER_BLOCK) = some b ∧
    matchName dirs.zf name (b.entry (j % DIR_ENTRIES_PER_BLOCK)) = true

def Gap (dir entries k : Nat) : Prop :=
  k ≠ 0 ∧ k < blocks ∧ (k + 1) * DIR_ENTRIES_PER_BLOCK < entries ∧ dirs.blockAt dir k = none

def target (dir : Nat) (name : List Byte) : Nat × List Byte :=
  if name = DOTDOT then
    if dir = dirs.task.root then (dir, DOT)
    else if (dirs.inode dir).num = ROOT_INO then
      match dirs.imount (dirs.inode dir).dev with
      | none => (dir, name)
      | some covered => (covered, name)
    else (dir, name)
  else (dir, name)

/-! ## find_entry as a scan -/

def fetch (dir k : Nat) : Fetch Block :=
  if k < blocks then
    if dirs.zone dir k = 0 then .missing else (dirs.read (dirs.inode dir).dev (dirs.zone dir k)).elim .missing .block
  else .panics

end Directories

def outcome {α : Type} : Scan α → Outcome
  | .ok _ => .ends
  | .error .null => .null
  | .error .panic => .panics

theorem outcome_eq_null {α : Type} {x : Scan α} : outcome x = .null ↔ x = .error .null := by
  rcases x with (_ | _) | _ <;> simp [outcome]

namespace Directories

section FindEntry

variable (dirs : Directories) (dir : Nat) (name : List Byte)

theorem fetch_ne_ends (k : Nat) : dirs.fetch dir k ≠ .ends := by
  rw [fetch]
  split
  · split
    · simp
    · cases dirs.read (dirs.inode dir).dev (dirs.zone dir k) <;> simp
  · simp

theorem nextBlock_eq (i : Nat) : nextBlock dirs.ops dir i =
    match dirs.fetch dir (i / DIR_ENTRIES_PER_BLOCK) with
    | .block b => .ok (some (b, 0))
    | .panics => .error .panic
    | _ => .ok none := by
  simp only [nextBlock, fetch, ops, bmap]
  by_cases inside : i / DIR_ENTRIES_PER_BLOCK < blocks
  · simp only [if_pos inside]
    change (if _ then _ else _) = _
    by_cases hole : dirs.zone dir (i / DIR_ENTRIES_PER_BLOCK) = 0
    · simp only [if_pos hole]
      rfl
    · simp only [if_neg hole]
      change Except.ok (Option.map _ (dirs.read _ _)) = _
      cases dirs.read (dirs.inode dir).dev (dirs.zone dir (i / DIR_ENTRIES_PER_BLOCK)) <;> rfl
  · simp only [if_neg inside]
    rfl

theorem findLoop_scan (entries rounds i : Nat) (bh : Option Block) (de : Nat) :
    outcome (findLoopChecked dirs.ops (.error .null) dir name entries rounds i bh de) =
      scan DIR_ENTRIES_PER_BLOCK (fun i => i < entries) (fun _ b de => matchName dirs.zf name (b.entry de))
        (dirs.fetch dir) .ends rounds i bh de := by
  induction rounds generalizing i bh de with
  | zero => cases bh <;> rfl
  | succ rounds ih =>
    rw [findLoopChecked, BlockScan.scan_succ]
    by_cases more : i < entries
    · simp only [if_pos more, decide_eq_true more, if_true]
      cases bh with
      | none => rfl
      | some b =>
        have entry (b : Block) (de : Nat) :
            outcome (if matchName dirs.zf name (b.entry de) then (.ok (some (b, de)) : Scan _)
              else findLoopChecked dirs.ops (.error .null) dir name entries rounds (i + 1) (some b) (de + 1)) =
            if matchName dirs.zf name (b.entry de) then Outcome.ends
            else scan DIR_ENTRIES_PER_BLOCK (fun i => i < entries)
              (fun _ b de => matchName dirs.zf name (b.entry de)) (dirs.fetch dir) .ends rounds (i + 1)
              (some b) (de + 1) := by
          rw [← ih]
          split <;> rfl
        simp only [nextEntryChecked, nextEntry]
        by_cases inside : de < DIR_ENTRIES_PER_BLOCK
        · simp only [if_pos inside]
          exact entry b de
        · simp only [if_neg inside]
          change outcome (nextBlock dirs.ops dir i >>= _) = _
          rw [nextBlock_eq]
          cases fetched : dirs.fetch dir (i / DIR_ENTRIES_PER_BLOCK) with
          | ends => exact absurd fetched (dirs.fetch_ne_ends dir _)
          | panics => rfl
          | missing => exact ih _ none de
          | block b => exact entry b 0
    · simp only [if_neg more, decide_eq_false more, Bool.false_eq_true, if_false]
      cases bh <;> rfl

theorem blockAt_scan {first : Block} (isFirst : dirs.blockAt dir 0 = some first) {k : Nat} (inside : k < blocks) :
    BlockScan.blockAt (dirs.fetch dir) first k = dirs.blockAt dir k := by
  by_cases zero : k = 0
  · rw [zero, isFirst]
    rfl
  · rw [BlockScan.blockAt, if_neg zero, fetch, if_pos inside, blockAt, if_neg zero]
    by_cases hole : dirs.zone dir k = 0
    · simp only [if_pos hole]
    · simp only [if_neg hole]
      cases dirs.read (dirs.inode dir).dev (dirs.zone dir k) <;> rfl

theorem gap_iff (entries k : Nat) :
    BlockScan.Gap DIR_ENTRIES_PER_BLOCK (fun i => decide (i < entries)) (dirs.fetch dir) k ↔ dirs.Gap dir entries k := by
  have missing_iff (later : k ≠ 0) : dirs.fetch dir k = .missing ↔ k < blocks ∧ dirs.blockAt dir k = none := by
    rw [fetch, blockAt, if_neg later]
    by_cases inside : k < blocks
    · by_cases hole : dirs.zone dir k = 0
      · simp [inside, hole]
      · simp only [inside, hole, if_true, if_false, true_and]
        cases dirs.read (dirs.inode dir).dev (dirs.zone dir k) <;> simp
    · simp [inside]
  constructor
  · rintro ⟨later, missing, _, behind⟩
    obtain ⟨inside, none_⟩ := (missing_iff later).mp missing
    exact ⟨later, inside, of_decide_eq_true behind, none_⟩
  · rintro ⟨later, inside, behind, none_⟩
    refine ⟨later, (missing_iff later).mpr ⟨inside, none_⟩, decide_eq_true ?_, decide_eq_true behind⟩
    rw [Nat.add_mul] at behind
    omega

theorem findLoop_heads_iff {first : Block} (isFirst : dirs.blockAt dir 0 = some first) (entries : Nat) :
    findLoopChecked dirs.ops (.error .null) dir name entries entries 0 (some first) 0 ≠ .error .null ↔
      ∀ k, dirs.Gap dir entries k → ∃ j < k * DIR_ENTRIES_PER_BLOCK, dirs.Matches dir name j := by
  have wide : 0 < DIR_ENTRIES_PER_BLOCK := by decide
  rw [Ne, ← outcome_eq_null, findLoop_scan, ← Ne, BlockScan.scan_ne_null_iff wide (by simp)]
  · refine forall_congr' fun k => ?_
    rw [gap_iff]
    refine forall_congr' fun gap => exists_congr fun j => and_congr_right fun below => ?_
    have small : j / DIR_ENTRIES_PER_BLOCK < blocks :=
      Nat.lt_trans (Nat.div_lt_of_lt_mul (by rwa [Nat.mul_comm])) gap.2.1
    rw [BlockScan.Halts, dirs.blockAt_scan dir isFirst small, Matches]
    have fetched : dirs.fetch dir (j / DIR_ENTRIES_PER_BLOCK) ≠ .panics := by
      rw [fetch, if_pos small]
      split
      · simp
      · cases dirs.read (dirs.inode dir).dev _ <;> simp
    simp [fetched, fetch_ne_ends]
  · intro i j le more
    simp only [decide_eq_true_eq] at more ⊢
    omega
  · rintro k ⟨_, _, _, behind⟩
    exact of_decide_eq_true behind

theorem dotDot_eq : dotDot dirs.ops dir name = .ok (dirs.target dir name) := by
  simp only [dotDot, target]
  by_cases up : name = DOTDOT
  · simp only [if_pos up]
    change (if dir = dirs.task.root then _ else _) = _
    by_cases atRoot : dir = dirs.task.root
    · simp only [if_pos atRoot]
      rfl
    · simp only [if_neg atRoot]
      by_cases top : (dirs.inode dir).num = ROOT_INO
      · simp only [if_pos top]
        have mounted : dirs.ops.imount (dirs.inode dir).dev = .ok (dirs.imount (dirs.inode dir).dev) := rfl
        rw [mounted]
        cases dirs.imount (dirs.inode dir).dev <;> rfl
      · simp only [if_neg top]
        rfl
  · simp only [if_neg up]
    rfl

/-- `find_entry` uses no `NULL` exactly if it has found the name before every block that is
missing with entries behind it. The number of entries is that of the directory it started in. -/
theorem findEntry_heads_iff :
    dirs.findEntry dir name ≠ .error .null ↔
      dirs.blockAt (dirs.target dir (name.take NAME_LEN)).1 0 = none ∨
        ∀ k, dirs.Gap (dirs.target dir (name.take NAME_LEN)).1 (dirs.inode dir).entries k →
          ∃ j < k * DIR_ENTRIES_PER_BLOCK,
            dirs.Matches (dirs.target dir (name.take NAME_LEN)).1 (dirs.target dir (name.take NAME_LEN)).2 j := by
  generalize reached : dirs.target dir (name.take NAME_LEN) = target
  obtain ⟨dir', name'⟩ := target
  have begun : dirs.findEntry dir name =
      match dirs.blockAt dir' 0 with
      | none => .ok (dir', none)
      | some bh => findLoopChecked dirs.ops (.error .null) dir' name' (dirs.inode dir).entries
          (dirs.inode dir).entries 0 (some bh) 0 >>= fun found => .ok (dir', found) := by
    rw [findEntry, findEntryChecked]
    change (dotDot dirs.ops dir (name.take NAME_LEN) >>= _) = _
    rw [dotDot_eq, reached]
    change (if (dirs.inode dir').data.zone 0 = 0 then _ else _) = _
    rw [blockAt, if_pos rfl]
    by_cases hole : (dirs.inode dir').data.zone 0 = 0
    · simp only [if_pos hole]
      rfl
    · simp only [if_neg hole]
      have answered : dirs.ops.bread (dirs.inode dir').dev ((dirs.inode dir').data.zone 0) =
          .ok (dirs.read (dirs.inode dir').dev ((dirs.inode dir').data.zone 0)) := rfl
      rw [answered]
      cases dirs.read (dirs.inode dir').dev ((dirs.inode dir').data.zone 0) <;> rfl
  rw [begun]
  cases isFirst : dirs.blockAt dir' 0 with
  | none => simp
  | some first =>
    simp only [reduceCtorEq, false_or]
    rw [← dirs.findLoop_heads_iff dir' name' isFirst]
    cases findLoopChecked dirs.ops (.error .null) dir' name' (dirs.inode dir).entries (dirs.inode dir).entries 0
      (some first) 0 with
    | error fault | ok found => simp [bind, Except.bind]

end FindEntry

end Directories

/-! ## add_entry -/

/-- What `create_block` and then `bread` come to for one block of a directory. -/
inductive Room where
  | full
  | unreadable
  | block (b : Block)

/-- A directory that gets a name. The first block is the one of `i_zone[0]`, if it can be
read; the room for the others is what there is when the loop comes to them. -/
structure Growing where
  first : Option Block
  room : Nat → Room
  size : Nat
  mtime : Nat
  ctime : Nat
  dirt : Bool

def Block.clearInode (b : Block) (de : Nat) : Block := fun i => if i / 2 = 8 * de then 0 else b i

def Block.setName (b : Block) (de : Nat) (name : List Byte) : Block := fun i =>
  if 16 * de + 2 ≤ i ∧ i < 16 * de + 2 + NAME_LEN then name.getD (i - (16 * de + 2)) 0 else b i

namespace Growing

def addBlock (g : Growing) (k : Nat) : Scan (Option (Option (Block × Nat))) :=
  if k < blocks then
    match g.room k with
    | .full => .ok none
    | .unreadable => .ok (some none)
    | .block b => .ok (some (some (b, 0)))
  else .error .panic

/-- The buffer and the place of entry `i`, if there is room for it and it can be read. -/
def addPlace (g : Growing) (i : Nat) (bh : Option Block) (de : Nat) : Scan (Option (Option (Block × Nat))) := do
  let b ← deref bh
  if de < DIR_ENTRIES_PER_BLOCK then pure (some (some (b, de))) else g.addBlock (i / DIR_ENTRIES_PER_BLOCK)

def extend (g : Growing) (now i : Nat) (b : Block) (de : Nat) : Block × Growing :=
  if g.size ≤ i * 16 then (b.clearInode de, { g with size := (i + 1) * 16, dirt := true, ctime := now })
  else (b, g)

def tryEntry (g : Growing) (now : Nat) (name : List Byte) (i : Nat) (b : Block) (de : Nat) :
    Option Block × Growing :=
  let (b, g) := g.extend now i b de
  if (b.entry de).inode = 0 then (some (b.setName de name), { g with mtime := now }) else (none, g)

/-- The loop of `add_entry`. `bmap` panics before the rounds are over. -/
def addLoop (now : Nat) (name : List Byte) :
    Nat → Nat → Option Block → Nat → Growing → Scan (Option (Block × Nat) × Growing)
  | 0, _, _, _, _ => .error .panic
  | rounds + 1, i, bh, de, g => do
    match ← g.addPlace i bh de with
    | none => pure (none, g)
    | some none => addLoop now name rounds (i + DIR_ENTRIES_PER_BLOCK) none de g
    | some (some (b, de)) =>
      match g.tryEntry now name i b de with
      | (some b, g) => pure (some (b, de), g)
      | (none, g) => addLoop now name rounds (i + 1) (some b) (de + 1) g

def addEntry (g : Growing) (now : Nat) (name : List Byte) : Scan (Option (Block × Nat) × Growing) :=
  let name := name.take NAME_LEN
  if name = [] then .ok (none, g)
  else
    match g.first with
    | none => .ok (none, g)
    | some bh => addLoop now name (blocks * DIR_ENTRIES_PER_BLOCK + 1) 0 (some bh) 0 g

def Free (g : Growing) (j : Nat) (b : Block) : Prop :=
  g.size ≤ j * 16 ∨ (b.entry (j % DIR_ENTRIES_PER_BLOCK)).inode = 0

/-- The scan of `add_entry` is over at entry `j`, if it comes that far. -/
def Ends (g : Growing) (j : Nat) : Prop :=
  if j / DIR_ENTRIES_PER_BLOCK = 0 then ∃ b, g.first = some b ∧ g.Free j b
  else g.room (j / DIR_ENTRIES_PER_BLOCK) = .full ∨
    ∃ b, g.room (j / DIR_ENTRIES_PER_BLOCK) = .block b ∧ g.Free j b

def fetch (g : Growing) (k : Nat) : Fetch Block :=
  if k < blocks then
    match g.room k with
    | .full => .ends
    | .unreadable => .missing
    | .block b => .block b
  else .panics

section AddEntry

variable (g : Growing) (now : Nat) (name : List Byte)

theorem entry_clearInode (b : Block) (de : Nat) : ((b.clearInode de).entry de).inode = 0 := by
  have low : 2 * (8 * de) / 2 = 8 * de := by omega
  have high : (2 * (8 * de) + 1) / 2 = 8 * de := by omega
  simp [Block.entry, Block.word, Block.clearInode, low, high]

theorem tryEntry_eq (i : Nat) (b : Block) (de : Nat) :
    (∃ b' g', g.tryEntry now name i b de = (some b', g') ∧ (g.size ≤ i * 16 ∨ (b.entry de).inode = 0)) ∨
      g.tryEntry now name i b de = (none, g) ∧ ¬(g.size ≤ i * 16 ∨ (b.entry de).inode = 0) := by
  rw [tryEntry, extend]
  by_cases behind : g.size ≤ i * 16
  · rw [if_pos behind]
    simp only [entry_clearInode, if_true]
    exact .inl ⟨_, _, rfl, .inl behind⟩
  · rw [if_neg behind]
    by_cases free : (b.entry de).inode = 0
    · simp only [if_pos free]
      exact .inl ⟨_, _, rfl, .inr free⟩
    · simp only [if_neg free]
      exact .inr ⟨trivial, by simp [behind, free]⟩

theorem addLoop_scan (rounds i : Nat) (bh : Option Block) (de : Nat) :
    outcome (addLoop now name rounds i bh de g) =
      scan DIR_ENTRIES_PER_BLOCK (fun _ => true) (fun i b de => g.size ≤ i * 16 ∨ (b.entry de).inode = 0)
        g.fetch .panics rounds i bh de := by
  induction rounds generalizing i bh de with
  | zero => rfl
  | succ rounds ih =>
    rw [addLoop, BlockScan.scan_succ]
    cases bh with
    | none => rfl
    | some b =>
      have entry (b : Block) (de : Nat) :
          outcome (match g.tryEntry now name i b de with
            | (some b, g) => (.ok (some (b, de), g) : Scan _)
            | (none, g) => addLoop now name rounds (i + 1) (some b) (de + 1) g) =
          if decide (g.size ≤ i * 16 ∨ (b.entry de).inode = 0) then Outcome.ends
          else scan DIR_ENTRIES_PER_BLOCK (fun _ => true)
            (fun i b de => g.size ≤ i * 16 ∨ (b.entry de).inode = 0) g.fetch .panics rounds (i + 1)
            (some b) (de + 1) := by
        rcases g.tryEntry_eq now name i b de with ⟨b', g', tried, free⟩ | ⟨tried, used⟩
        · rw [tried, decide_eq_true free, if_pos rfl]
          rfl
        · rw [tried, decide_eq_false used, if_neg Bool.false_ne_true]
          exact ih _ _ _
      simp only [addPlace, deref_bind, if_true]
      by_cases inside : de < DIR_ENTRIES_PER_BLOCK
      · simp only [if_pos inside]
        exact entry b de
      · simp only [if_neg inside, addBlock, fetch]
        by_cases small : i / DIR_ENTRIES_PER_BLOCK < blocks
        · simp only [if_pos small]
          cases g.room (i / DIR_ENTRIES_PER_BLOCK) with
          | full => rfl
          | unreadable => exact ih _ none de
          | block b => exact entry b 0
        · simp only [if_neg small]
          rfl

theorem halts_iff {first : Block} (isFirst : g.first = some first) {j : Nat} (small : j / DIR_ENTRIES_PER_BLOCK < blocks) :
    BlockScan.Halts DIR_ENTRIES_PER_BLOCK (fun i b de => decide (g.size ≤ i * 16 ∨ (b.entry de).inode = 0))
      g.fetch first j ↔ g.Ends j := by
  rw [BlockScan.Halts, BlockScan.blockAt, Ends, fetch, if_pos small]
  by_cases zero : j / DIR_ENTRIES_PER_BLOCK = 0
  · simp [zero, isFirst, Free]
  · generalize j / DIR_ENTRIES_PER_BLOCK = k at zero ⊢
    simp only [zero, if_false]
    cases g.room k <;> simp [Free, zero]

theorem addEntry_heads_iff :
    g.addEntry now name ≠ .error .null ↔
      name.take NAME_LEN = [] ∨ g.first = none ∨
        ∀ k, k ≠ 0 → k < blocks → g.room k = .unreadable → ∃ j < k * DIR_ENTRIES_PER_BLOCK, g.Ends j := by
  rw [addEntry]
  by_cases empty : name.take NAME_LEN = []
  · simp [empty]
  · rw [if_neg empty]
    simp only [empty, false_or]
    cases isFirst : g.first with
    | none => simp
    | some first =>
      have wide : 0 < DIR_ENTRIES_PER_BLOCK := by decide
      simp only [reduceCtorEq, false_or]
      have missing_iff (k : Nat) : g.fetch k = .missing ↔ k < blocks ∧ g.room k = .unreadable := by
        rw [fetch]
        by_cases small : k < blocks
        · simp only [small, if_true, true_and]
          cases g.room k <;> simp
        · simp [small]
      rw [Ne, ← outcome_eq_null, addLoop_scan, ← Ne, BlockScan.scan_ne_null_iff wide (by simp)]
      · refine forall_congr' fun k => ⟨?_, ?_⟩
        · intro halts later small unreadable
          obtain ⟨j, below, halt⟩ := halts ⟨later, (missing_iff k).mpr ⟨small, unreadable⟩, rfl, rfl⟩
          have before : j / DIR_ENTRIES_PER_BLOCK < blocks :=
            Nat.lt_trans (Nat.div_lt_of_lt_mul (by rwa [Nat.mul_comm])) small
          exact ⟨j, below, (g.halts_iff isFirst before).mp halt⟩
        · rintro ends ⟨later, missing, _, _⟩
          obtain ⟨small, unreadable⟩ := (missing_iff k).mp missing
          obtain ⟨j, below, isEnd⟩ := ends later small unreadable
          have before : j / DIR_ENTRIES_PER_BLOCK < blocks :=
            Nat.lt_trans (Nat.div_lt_of_lt_mul (by rwa [Nat.mul_comm])) small
          exact ⟨j, below, (g.halts_iff isFirst before).mpr isEnd⟩
      · exact fun _ _ _ _ => rfl
      · rintro k ⟨_, missing, _, _⟩
        have scaled := Nat.mul_le_mul_right DIR_ENTRIES_PER_BLOCK ((missing_iff k).mp missing).1
        exact Nat.lt_succ_of_le scaled

end AddEntry

end Growing

/-! ## empty_dir -/

namespace Directories

variable (dirs : Directories)

/-- The loop of `empty_dir`. Behind a hole `bh` is still the buffer that has been released. -/
def emptyLoop (dir len : Nat) : Nat → Nat → Option Block → Nat → Scan Bool
  | 0, _, _, _ => .ok true
  | rounds + 1, nr, bh, de =>
    if nr < len then do
      let b ← deref bh
      if de < DIR_ENTRIES_PER_BLOCK then
        if (b.entry de).inode ≠ 0 then pure false else emptyLoop dir len rounds (nr + 1) (some b) (de + 1)
      else do
        let block ← dirs.bmap dir (nr / DIR_ENTRIES_PER_BLOCK)
        if block = 0 then emptyLoop dir len rounds (nr + DIR_ENTRIES_PER_BLOCK) (some b) de
        else
          match dirs.read (dirs.inode dir).dev block with
          | none => pure false
          | some b =>
            if (b.entry 0).inode ≠ 0 then pure false else emptyLoop dir len rounds (nr + 1) (some b) 1
    else pure true

def goodHeads (inode : MInode) (b : Block) : Bool :=
  (b.entry 0).inode = inode.num ∧ (b.entry 1).inode ≠ 0 ∧
    (b.entry 0).name.take 2 = DOT ++ [0] ∧ (b.entry 1).name.take 3 = DOTDOT ++ [0]

def emptyDir (dir : Nat) : Scan Bool :=
  let inode := dirs.inode dir
  if inode.entries < 2 ∨ inode.data.zone 0 = 0 then .ok false
  else
    match dirs.read inode.dev (inode.data.zone 0) with
    | none => .ok false
    | some b => if goodHeads inode b then dirs.emptyLoop dir inode.entries inode.entries 2 (some b) 2 else .ok false

theorem ok_ne_null {α : Type} (a : α) : (.ok a : Scan α) ≠ .error .null := by simp

theorem panic_ne_null {α : Type} : (.error .panic : Scan α) ≠ .error .null := by simp

theorem emptyLoop_ne_null (dir len rounds nr : Nat) (b : Block) (de : Nat) :
    dirs.emptyLoop dir len rounds nr (some b) de ≠ .error .null := by
  induction rounds generalizing nr b de with
  | zero => exact ok_ne_null _
  | succ rounds ih =>
    rw [emptyLoop, deref_bind]
    split
    · split
      · split
        · exact ok_ne_null _
        · exact ih _ _ _
      · rw [bmap]
        split
        · -- a hole leaves the old buffer in bh, a failed read ends the loop
          change (if dirs.zone dir _ = 0 then _ else _) ≠ _
          split
          · exact ih _ _ _
          · split
            · exact ok_ne_null _
            · split
              · exact ok_ne_null _
              · exact ih _ _ _
        · exact panic_ne_null
    · exact ok_ne_null _

theorem emptyDir_ne_null (dir : Nat) : dirs.emptyDir dir ≠ .error .null := by
  rw [emptyDir]
  split
  · exact ok_ne_null _
  · split
    · exact ok_ne_null _
    · split
      · exact dirs.emptyLoop_ne_null _ _ _ _ _ _
      · exact ok_ne_null _

end Directories

/-! ## All of them -/

/-- `getblk` needs another buffer on the hash chain, `find_entry` the name before every gap,
and `add_entry` the end of its scan before every unreadable block; `empty_dir` needs nothing. -/
theorem buffer_heads_tested_iff (driver : Nat → Bool) {c : Cache} (linked : c.WellLinked) (control : Control)
    (inside : ∀ h ∈ control.heads, h < c.nrBuffers) (dirs : Directories) (dir : Nat) (g : Growing) (now : Nat)
    (name : List Byte) :
    (advanceChecked driver c control ≠ .error .null ↔
      ∀ dev block bh, control = .victimWait dev block bh → c.Ready bh dev block → dev = 0 ∨ c.Shares bh dev block) ∧
    (dirs.findEntry dir name ≠ .error .null ↔
      dirs.blockAt (dirs.target dir (name.take NAME_LEN)).1 0 = none ∨
        ∀ k, dirs.Gap (dirs.target dir (name.take NAME_LEN)).1 (dirs.inode dir).entries k →
          ∃ j < k * DIR_ENTRIES_PER_BLOCK,
            dirs.Matches (dirs.target dir (name.take NAME_LEN)).1 (dirs.target dir (name.take NAME_LEN)).2 j) ∧
    (g.addEntry now name ≠ .error .null ↔
      name.take NAME_LEN = [] ∨ g.first = none ∨
        ∀ k, k ≠ 0 → k < blocks → g.room k = .unreadable → ∃ j < k * DIR_ENTRIES_PER_BLOCK, g.Ends j) ∧
    dirs.emptyDir dir ≠ .error .null :=
  ⟨getblk_heads_iff linked inside, dirs.findEntry_heads_iff dir name, g.addEntry_heads_iff now name,
    dirs.emptyDir_ne_null dir⟩

def holed : Directories where
  task := { euid := 0, egid := 0, groups := [], umask := 0, root := 1, pwd := 1 }
  zf := false
  inode _ := { data := dirData 9 3200, dev := 0x301, num := 2 }
  imount _ := none
  zone _ k := if k = 1 then 0 else 9 + k
  read _ _ := some fun _ => 0

def crowded : Growing where
  first := some fun _ => 1
  room _ := .unreadable
  size := 65 * 16
  mtime := 0
  ctime := 0
  dirt := false

def started : Cache := .init 2 (fun _ => 0) (fun _ => .zero) fun _ _ => .zero

theorem started_linked : started.WellLinked := Cache.wellLinked_init (by decide) _ _ _

theorem heads_tested_started :
    (advanceChecked (fun _ => true) started (.getblk 0x301 9) ≠ .error .null ↔
      ∀ dev block bh, Control.getblk 0x301 9 = .victimWait dev block bh → started.Ready bh dev block →
        dev = 0 ∨ started.Shares bh dev block) ∧
    holed.emptyDir 0 ≠ .error .null := by
  have all := buffer_heads_tested_iff (fun _ => true) started_linked (.getblk 0x301 9) (by simp [Control.heads])
    holed 0 crowded 0 [97]
  exact ⟨all.1, all.2.2.2⟩

/-- The first buffer of all goes on an empty hash chain; a name is looked up behind a hole;
and a name is added behind a block that cannot be read. -/
theorem null_heads_used : started.WellLinked ∧
    advanceChecked (fun _ => true) started (.victimWait 0x301 9 0) = .error .null ∧
    holed.findEntry 0 [97] = .error .null ∧ crowded.addEntry 0 [97] = .error .null := by
  refine ⟨started_linked, ?_, ?_, ?_⟩
  · apply advanceChecked_ready ⟨rfl, rfl, rfl, by decide +kernel⟩
    apply started_linked.takeChecked_null (by decide) (by decide)
    rintro ⟨h, _, _, used, _⟩
    exact used rfl
  · exact outcome_eq_null.mp (by decide +kernel)
  · exact outcome_eq_null.mp (by decide +kernel)

end Linux012.Fs.Namei

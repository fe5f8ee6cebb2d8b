import Linux012.Fs.Namei
import Mathlib.Data.List.Basic

/-! `_namei` looks up one component after the other in a forest of file systems. -/

set_option autoImplicit false

namespace Linux012.Fs.Namei

open List
open Option (bind_eq_bind bind_some)

open InodeTable (DInode ROOT_INO NR_SUPER)

/-! ## Lookup of components -/

inductive Component where
  | here
  | up
  | name (text : List Byte)
deriving DecidableEq

def Component.of (text : List Byte) : Component :=
  let text := text.take NAME_LEN
  if text = [] ∨ text = DOT then .here
  else if text = DOTDOT then .up
  else .name text

structure Namespace (N : Type) where
  isDir : N → Bool
  child : N → List Byte → Option N
  parent : N → N
  /-- from a covered directory to the root that is mounted on it -/
  enter : N → N
  /-- from a mounted root to the directory that it covers -/
  leave : N → N
  root : N
  pwd : N

namespace Namespace

variable {N : Type} [DecidableEq N] (ns : Namespace N)

def lookup (dir : N) (text : List Byte) : Option N :=
  if ns.isDir dir then
    match Component.of text with
    | .here => some dir
    | .up => some (if dir = ns.root then dir else ns.enter (ns.parent (ns.leave dir)))
    | .name text => (ns.child dir text).map ns.enter
  else none

def walk (dir : N) (components : List (List Byte)) : Option N := components.foldlM ns.lookup dir

def start (path : List Byte) : N := if path.head? = some SLASH then ns.root else ns.pwd

def components (path : List Byte) : List (List Byte) :=
  (if path.head? = some SLASH then path.tail else path).splitOn SLASH

def resolve (path : List Byte) : Option N := ns.walk (ns.start path) (components path)

end Namespace

/-! ## File systems -/

structure Node where
  dev : Nat
  num : Nat
deriving DecidableEq

structure SuperBlock where
  dev : Nat
  imount : Option Node

structure Volumes where
  zf : Bool
  task : Task Node
  super : List SuperBlock
  inode : Node → DInode
  /-- `i_mount` -/
  mount : Node → Bool
  block : Nat → Nat → Option Block

namespace Volumes

variable (v : Volumes)

def minode (n : Node) : MInode := { data := v.inode n, dev := n.dev, num := n.num }

def imount (dev : Nat) : Option (Option Node) :=
  if dev = 0 then none else (v.super.find? fun sb => sb.dev = dev).map SuperBlock.imount

/-- The loop of `iget`, without the table: it goes on with the root of the file system
that is mounted on the inode. -/
def igetLoop : Nat → Node → Option Node
  | 0, _ => none
  | rounds + 1, n =>
    if v.mount n then
      match v.super.find? fun sb => sb.imount = some n with
      | none => some n
      | some sb => igetLoop rounds ⟨sb.dev, ROOT_INO⟩
    else some n

def iget (dev nr : Nat) : Option Node := if dev = 0 then none else v.igetLoop (NR_SUPER + 1) ⟨dev, nr⟩

def indirect (dev zone k : Nat) : Nat :=
  if zone = 0 then 0 else (v.block dev zone).elim 0 fun b => b.word k

def bmap (n : Node) (block : Nat) : Option Nat :=
  if low : block < 7 then some ((v.inode n).zone ⟨block, InodeTable.zone_lt low⟩)
  else if block < 7 + 512 then some (v.indirect n.dev ((v.inode n).zone 7) (block - 7))
  else if block < 7 + 512 + 512 * 512 then
    let k := block - 7 - 512
    some (v.indirect n.dev (v.indirect n.dev ((v.inode n).zone 8) (k >>> 9)) (k &&& 511))
  else none

def ops : Ops Option Node Block where
  zf := some v.zf
  current := some v.task
  inode n := some (v.minode n)
  imount := v.imount
  iget := v.iget
  iput _ := some ()
  hold _ := some ()
  touch _ := some ()
  bmap := v.bmap
  bread dev block := some (v.block dev block)
  brelse _ := some ()
  data b := some b
  text b := some (((List.range BLOCK_SIZE).map b).takeWhile (· ≠ 0))

def slot (n : Node) (i : Nat) : Option (Block × Nat) :=
  ((v.bmap n (i / DIR_ENTRIES_PER_BLOCK)).bind fun block =>
    if block = 0 then none else v.block n.dev block).map fun b => (b, i % DIR_ENTRIES_PER_BLOCK)

def listing (n : Node) : List DirEntry :=
  ((List.range (v.minode n).entries).filterMap (v.slot n)).map fun (b, k) => b.entry k

end Volumes

def DirEntry.text (de : DirEntry) : List Byte := de.name.takeWhile (· ≠ 0)

namespace Volumes

variable (v : Volumes)

def child (n : Node) (text : List Byte) : Option Node :=
  ((v.listing n).find? fun de => de.inode ≠ 0 ∧ de.text = text).map fun de => ⟨n.dev, de.inode⟩

def tree (parent : Node → Node) : Namespace Node where
  isDir n := (v.minode n).isDir
  child := v.child
  parent := parent
  enter n :=
    if v.mount n then
      match v.super.find? fun sb => sb.imount = some n with
      | none => n
      | some sb => ⟨sb.dev, ROOT_INO⟩
    else n
  leave n := if n.num = ROOT_INO then ((v.imount n.dev).join).getD n else n
  root := v.task.root
  pwd := v.task.pwd

/-- A forest of file systems without symbolic links, in which a process may search
all directories. `.` and `..` are correct in the sense of `empty_dir`. -/
structure Forest (parent : Node → Node) : Prop where
  dev : ∀ n, (v.minode n).isDir → n.dev ≠ 0 ∧ n.num ≠ 0
  noLinks : ∀ n, (v.minode n).isLnk = false
  search : ∀ n, (v.minode n).isDir → permission v.task (v.minode n) MAY_EXEC
  /-- `_bmap` can reach all entries -/
  size : ∀ n, (v.minode n).isDir →
    (v.minode n).entries ≤ (7 + 512 + 512 * 512) * DIR_ENTRIES_PER_BLOCK
  dots : ∀ n, (v.minode n).isDir → 2 ≤ (v.minode n).entries ∧ (v.inode n).zone 0 ≠ 0 ∧
    ∃ b, v.block n.dev ((v.inode n).zone 0) = some b ∧
      (b.entry 0).inode = n.num ∧ (b.entry 0).text = DOT ∧
      (b.entry 1).inode = (parent n).num ∧ (b.entry 1).text = DOTDOT
  parentDir : ∀ n, (v.minode n).isDir → (parent n).dev = n.dev ∧ (v.minode (parent n)).isDir
  parent : ∀ n, (v.minode n).isDir →
    if n.num = ROOT_INO then parent n = n
    else ∃ text, Component.of text = .name text ∧ v.child (parent n) text = some n
  /-- something is mounted on a mount point, and a mount point is no root -/
  mount : ∀ n, v.mount n → n.num ≠ ROOT_INO ∧ ∃ sb ∈ v.super, sb.imount = some n
  notCovered : v.mount v.task.root = false ∧ v.mount v.task.pwd = false
  /-- all file systems are mounted, the root file system on itself -/
  mounted : ∀ n, (v.minode n).isDir → n.num = ROOT_INO →
    ∃ covered, v.imount n.dev = some (some covered) ∧ (v.minode covered).isDir ∧
      (v.mount covered ∨ covered = n)

end Volumes

/-! ## Names -/

theorem Block.entry_name_length (b : Block) (k : Nat) : (b.entry k).name.length = NAME_LEN := by
  simp [Block.entry]

theorem takeWhile_eq_iff {name : List Byte} (list : List Byte) (nonzero : ∀ c ∈ name, c ≠ 0)
    (short : name.length ≤ list.length) :
    list.takeWhile (· ≠ 0) = name ↔
      name = list.take name.length ∧ (name.length < list.length → list.getD name.length 0 = 0) := by
  induction name generalizing list with
  | nil =>
    cases list with
    | nil => simp
    | cons c list => simp [takeWhile_cons]
  | cons c name ih =>
    cases list with
    | nil => simp at short
    | cons d list =>
      have inner := ih list (fun c member => nonzero c (mem_cons_of_mem _ member)) (by simpa using short)
      have isNonzero : c ≠ 0 := nonzero c mem_cons_self
      by_cases same : c = d
      · subst same
        simp only [takeWhile_cons, decide_eq_true isNonzero, if_true, List.cons.injEq, true_and,
          length_cons, take_succ_cons, getD_cons_succ, Nat.add_lt_add_iff_right]
        exact inner
      · constructor
        · intro equal
          rw [takeWhile_cons] at equal
          split at equal
          · cases equal
            exact absurd rfl same
          · cases equal
        · rintro ⟨equal, -⟩
          simp only [length_cons, take_succ_cons, List.cons.injEq] at equal
          exact absurd equal.1 same

theorem matchName_iff {zf : Bool} {name : List Byte} {de : DirEntry} (nonzero : ∀ c ∈ name, c ≠ 0)
    (nonempty : name ≠ []) (short : name.length ≤ NAME_LEN) (length : de.name.length = NAME_LEN) :
    matchName zf name de = true ↔ de.inode ≠ 0 ∧ de.text = name := by
  have text := takeWhile_eq_iff de.name nonzero (Nat.le_trans short (Nat.le_of_eq length.symm))
  rw [length] at text
  unfold matchName DirEntry.text
  rw [text]
  simp only [nonempty, false_and, if_false]
  by_cases isFree : de.inode = 0
  · simp [isFree]
  · have fits : ¬(de.inode = 0 ∨ NAME_LEN < name.length) := by
      rw [not_or]
      exact ⟨isFree, Nat.not_lt.mpr short⟩
    rw [if_neg fits]
    by_cases ends : name.length < NAME_LEN ∧ de.name.getD name.length 0 ≠ 0
    · rw [if_pos ends]
      simp only [Bool.false_eq_true, false_iff]
      exact fun ⟨_, _, zero⟩ => ends.2 (zero ends.1)
    · rw [if_neg ends, decide_eq_true_iff]
      refine ⟨fun same => ⟨isFree, same, fun below => ?_⟩, fun ⟨_, same, _⟩ => same⟩
      by_contra isNonzero
      exact ends ⟨below, isNonzero⟩

theorem matchName_empty {zf : Bool} {de : DirEntry} (length : de.name.length = NAME_LEN)
    (live : de.inode ≠ 0) (isDot : de.text = DOT) : matchName zf [] de = true := by
  obtain ⟨first, second⟩ := (takeWhile_eq_iff de.name (by simp [DOT]) (by rw [length]; decide)).mp isDot
  have zero := second (by rw [length]; decide)
  have starts : de.name.take 2 = DOT ++ [0] := by
    match de.name, first, zero, length with
    | [], _, _, length => cases length
    | [_], _, _, length => cases length
    | _ :: _ :: _, first, zero, _ =>
      cases first
      cases zero
      rfl
  have isLive : ¬(de.inode = 0 ∨ NAME_LEN < ([] : List Byte).length) := by simp [live]
  rw [matchName, if_neg isLive, if_pos ⟨rfl, starts⟩]

/-! ## The entries of a directory -/

section Search

variable (v : Volumes)

/-- The first entry with the name among `count` entries from the `i`-th on. -/
def Volumes.findSlot (n : Node) (name : List Byte) (i count : Nat) : Option (Block × Nat) :=
  ((List.range' i count).filterMap (v.slot n)).find? fun place => matchName v.zf name (place.1.entry place.2)

variable {v}

variable {i : Nat} {n : Node}

theorem Volumes.findSlot_none {count : Nat} (name : List Byte)
    (hole : ∀ j, i ≤ j → j < i + DIR_ENTRIES_PER_BLOCK → v.slot n j = none) :
    v.findSlot n name i count = v.findSlot n name (i + DIR_ENTRIES_PER_BLOCK) (count - DIR_ENTRIES_PER_BLOCK) := by
  unfold findSlot
  have nothing {k : Nat} (below : k ≤ DIR_ENTRIES_PER_BLOCK) :
      (List.range' i k).filterMap (v.slot n) = [] := by
    rw [filterMap_eq_nil_iff]
    intro j member
    obtain ⟨lower, upper⟩ := mem_range'_1.mp member
    exact hole j lower (by omega)
  by_cases long : DIR_ENTRIES_PER_BLOCK ≤ count
  · have split : count = DIR_ENTRIES_PER_BLOCK + (count - DIR_ENTRIES_PER_BLOCK) := by omega
    conv_lhs => rw [split]
    rw [← range'_append_1, filterMap_append, nothing (Nat.le_refl _), nil_append]
  · have empty : count - DIR_ENTRIES_PER_BLOCK = 0 := by omega
    rw [nothing (by omega), empty]
    rfl

theorem Volumes.findSlot_some {count : Nat} {place : Block × Nat} (name : List Byte)
    (at_ : v.slot n i = some place) :
    v.findSlot n name i (count + 1) =
      if matchName v.zf name (place.1.entry place.2) then some place
      else v.findSlot n name (i + 1) count := by
  unfold findSlot
  rw [range'_succ, filterMap_cons_some at_, find?_cons]
  cases matchName v.zf name (place.1.entry place.2) <;> rfl

/-- `bh` and `de` are what the loop of `find_entry` has at entry `i`. -/
def Volumes.At (v : Volumes) (n : Node) (i : Nat) : Option Block → Nat → Prop
  | none, _ => i % DIR_ENTRIES_PER_BLOCK = 0
  | some b, de =>
    if de < DIR_ENTRIES_PER_BLOCK then v.slot n i = some (b, de) ∧ i % DIR_ENTRIES_PER_BLOCK = de
    else i % DIR_ENTRIES_PER_BLOCK = 0

theorem Volumes.At.next {bh : Option Block} {de : Nat} (at_ : v.At n i bh de)
    (fits : i < (7 + 512 + 512 * 512) * DIR_ENTRIES_PER_BLOCK) :
    nextEntry v.ops n i bh de = some (v.slot n i) ∧ (v.slot n i = none → i % DIR_ENTRIES_PER_BLOCK = 0) := by
  have read (start : i % DIR_ENTRIES_PER_BLOCK = 0) : nextBlock v.ops n i = some (v.slot n i) := by
    have inner : i / DIR_ENTRIES_PER_BLOCK < 7 + 512 + 512 * 512 := (Nat.div_lt_iff_lt_mul (by decide)).mpr fits
    obtain ⟨block, isBlock⟩ : ∃ block, v.bmap n (i / DIR_ENTRIES_PER_BLOCK) = some block := by
      unfold bmap
      split_ifs <;> exact ⟨_, rfl⟩
    simp only [nextBlock, ops, slot, isBlock, start, bind_eq_bind, bind_some, Option.pure_def]
    by_cases hole : block = 0
    · simp [hole]
    · simp [hole, minode]
  cases bh with
  | none => exact ⟨read at_, fun _ => at_⟩
  | some b =>
    by_cases below : de < DIR_ENTRIES_PER_BLOCK
    · simp only [At, if_pos below] at at_
      simp only [nextEntry, if_pos below, at_.1]
      exact ⟨rfl, fun isNone => by cases isNone⟩
    · simp only [At, if_neg below] at at_
      simp only [nextEntry, if_neg below]
      exact ⟨read at_, fun _ => at_⟩

theorem Volumes.slot_place {b : Block} {k : Nat} (at_ : v.slot n i = some (b, k)) :
    k = i % DIR_ENTRIES_PER_BLOCK := by
  simp only [slot, Option.map_eq_some_iff, Prod.mk.injEq] at at_
  obtain ⟨-, -, -, rfl⟩ := at_
  rfl

theorem Volumes.slot_same {j : Nat} (same : j / DIR_ENTRIES_PER_BLOCK = i / DIR_ENTRIES_PER_BLOCK) :
    v.slot n j = (v.slot n i).map fun place => (place.1, j % DIR_ENTRIES_PER_BLOCK) := by
  unfold slot
  rw [same, Option.map_map]
  rfl

theorem Volumes.findLoop_eq (name : List Byte) {entries : Nat}
    (fits : entries ≤ (7 + 512 + 512 * 512) * DIR_ENTRIES_PER_BLOCK) (rounds : Nat) :
    ∀ i bh de, entries ≤ i + rounds → v.At n i bh de →
      findLoop v.ops n name entries rounds i bh de = some (v.findSlot n name i (entries - i)) := by
  have finished (bh : Option Block) : release v.ops bh = some () := by cases bh <;> rfl
  induction rounds with
  | zero =>
    intro i bh de enough _
    have none : entries - i = 0 := by omega
    simp only [findLoop, finished, none]
    rfl
  | succ rounds ih =>
    intro i bh de enough at_
    rw [findLoop]
    by_cases more : i < entries
    · obtain ⟨next, start⟩ := at_.next (by omega)
      rw [if_pos more, next]
      cases place : v.slot n i with
      | none =>
        have hole : ∀ j, i ≤ j → j < i + DIR_ENTRIES_PER_BLOCK → v.slot n j = none := by
          intro j lower upper
          have isStart := start place
          rw [slot_same (i := i) (by unfold DIR_ENTRIES_PER_BLOCK at *; omega), place]
          rfl
        rw [findSlot_none name hole]
        have later := ih (i + DIR_ENTRIES_PER_BLOCK) none de (by omega)
          (by simpa only [At, Nat.add_mod_right] using start place)
        rw [show entries - i - DIR_ENTRIES_PER_BLOCK = entries - (i + DIR_ENTRIES_PER_BLOCK) by omega]
        exact later
      | some found =>
        obtain ⟨b, k⟩ := found
        have count : entries - i = entries - (i + 1) + 1 := by omega
        rw [count, findSlot_some name place]
        have later := ih (i + 1) (some b) (k + 1) (by omega) ?_
        · change (if matchName v.zf name (b.entry k) = true then some (some (b, k))
            else findLoop v.ops n name entries rounds (i + 1) (some b) (k + 1)) = _
          rw [later]
          split <;> rfl
        · have isPlace := slot_place place
          by_cases below : k + 1 < DIR_ENTRIES_PER_BLOCK
          · have same := slot_same (v := v) (n := n) (i := i) (j := i + 1)
              (by unfold DIR_ENTRIES_PER_BLOCK at *; omega)
            rw [place] at same
            have isNext : (i + 1) % DIR_ENTRIES_PER_BLOCK = k + 1 := by
              unfold DIR_ENTRIES_PER_BLOCK at *
              omega
            simp only [At, if_pos below, same, isNext, Option.map_some, and_self]
          · simp only [At, if_neg below]
            unfold DIR_ENTRIES_PER_BLOCK at *
            omega
    · have none : entries - i = 0 := by omega
      rw [if_neg more, finished, none]
      rfl

end Search

/-! ## One component -/

section Lookup

variable {v : Volumes} {parent : Node → Node}

theorem Volumes.Forest.slots (forest : v.Forest parent) {n : Node} (dir : (v.minode n).isDir) :
    ∃ b, (v.inode n).zone 0 ≠ 0 ∧ v.block n.dev ((v.inode n).zone 0) = some b ∧
      v.slot n 0 = some (b, 0) ∧ v.slot n 1 = some (b, 1) ∧
      (b.entry 0).inode = n.num ∧ (b.entry 0).text = DOT ∧
      (b.entry 1).inode = (parent n).num ∧ (b.entry 1).text = DOTDOT := by
  obtain ⟨-, isZone, b, read, dots⟩ := forest.dots n dir
  have zero : v.slot n 0 = some (b, 0) := by
    simp [Volumes.slot, Volumes.bmap, DIR_ENTRIES_PER_BLOCK, isZone, read]
  have one : v.slot n 1 = some (b, 1) := by
    simp [Volumes.slot, Volumes.bmap, DIR_ENTRIES_PER_BLOCK, isZone, read]
  exact ⟨b, isZone, read, zero, one, dots⟩

theorem Volumes.Forest.iget (forest : v.Forest parent) {dev : Nat} (isDev : dev ≠ 0) (nr : Nat) :
    v.iget dev nr = some ((v.tree parent).enter ⟨dev, nr⟩) := by
  have uncovered (d : Nat) : ¬v.mount ⟨d, ROOT_INO⟩ = true := fun mounted => (forest.mount _ mounted).1 rfl
  simp only [Volumes.iget, if_neg isDev, NR_SUPER, Volumes.igetLoop, Volumes.tree]
  split
  · split
    · rfl
    · next sb _ => simp only [if_neg (uncovered sb.dev)]
  · rfl

theorem Volumes.Forest.enter_uncovered (forest : v.Forest parent) (n : Node) :
    v.mount ((v.tree parent).enter n) = false := by
  simp only [Volumes.tree]
  split
  · next mounted =>
    obtain ⟨sb, member, isMount⟩ := (forest.mount n mounted).2
    split
    · next none =>
      rw [find?_eq_none] at none
      exact absurd (decide_eq_true isMount) (none sb member)
    · next sb _ =>
      by_contra covered
      rw [Bool.not_eq_false] at covered
      exact (forest.mount _ covered).1 rfl
  · next unmounted => simpa using unmounted

theorem Volumes.Forest.leave (forest : v.Forest parent) {n : Node} (dir : (v.minode n).isDir) :
    (v.minode ((v.tree parent).leave n)).isDir ∧
      (n.num = ROOT_INO → v.imount n.dev = some (some ((v.tree parent).leave n))) := by
  simp only [Volumes.tree]
  by_cases isRoot : n.num = ROOT_INO
  · obtain ⟨covered, isMount, isDir, -⟩ := forest.mounted n dir isRoot
    simp [isRoot, isMount, isDir]
  · simp [isRoot, dir]

theorem Volumes.Forest.dotDot_eq (forest : v.Forest parent) {n : Node} (dir : (v.minode n).isDir)
    (name : List Byte) :
    dotDot v.ops n name =
      some (if name = DOTDOT then
          if n = v.task.root then (n, DOT) else ((v.tree parent).leave n, DOTDOT)
        else (n, name)) := by
  unfold dotDot
  by_cases isUp : name = DOTDOT
  · subst isUp
    by_cases atRoot : n = v.task.root
    · simp [Volumes.ops, atRoot]
    · by_cases isRoot : n.num = ROOT_INO
      · have isMount := (forest.leave dir).2 isRoot
        simp [Volumes.ops, atRoot, isRoot, isMount, Volumes.minode]
      · simp [Volumes.ops, atRoot, isRoot, Volumes.minode, Volumes.tree]
  · simp [isUp]

theorem Volumes.Forest.findEntry_eq (forest : v.Forest parent) {n d : Node} {text name : List Byte}
    (dir : (v.minode n).isDir) (searched : (v.minode d).isDir)
    (magic : dotDot v.ops n (text.take NAME_LEN) = some (d, name)) :
    findEntry v.ops n text = some (d, v.findSlot d name 0 (v.minode n).entries) := by
  obtain ⟨b, isZone, read, zero, -⟩ := forest.slots searched
  have loop := Volumes.findLoop_eq name (v := v) (n := d) (forest.size n dir)
    (v.minode n).entries 0 (some b) 0 (by omega) (by simp [Volumes.At, zero, DIR_ENTRIES_PER_BLOCK])
  simp only [findEntry, magic, bind_eq_bind]
  simp [Volumes.ops, Volumes.minode, isZone, read] at loop ⊢
  rw [loop]
  rfl

theorem Volumes.findSlot_head {n : Node} {b : Block} {k i count : Nat} {name : List Byte}
    (some_ : 1 ≤ count) (at_ : v.slot n i = some (b, k)) (matches_ : matchName v.zf name (b.entry k) = true) :
    v.findSlot n name i count = some (b, k) := by
  obtain ⟨count, rfl⟩ := Nat.exists_eq_add_of_le' some_
  rw [findSlot_some name at_, if_pos matches_]

theorem Volumes.findSlot_child {n : Node} {text : List Byte} (nonzero : ∀ c ∈ text, c ≠ 0)
    (nonempty : text ≠ []) (short : text.length ≤ NAME_LEN) :
    (v.findSlot n text 0 (v.minode n).entries).map (fun place => (⟨n.dev, (place.1.entry place.2).inode⟩ : Node)) =
      v.child n text := by
  have same (place : Block × Nat) : matchName v.zf text (place.1.entry place.2) =
      decide ((place.1.entry place.2).inode ≠ 0 ∧ (place.1.entry place.2).text = text) := by
    rw [Bool.eq_iff_iff, decide_eq_true_iff]
    exact matchName_iff nonzero nonempty short (Block.entry_name_length _ _)
  unfold child listing findSlot
  rw [find?_map, Option.map_map, range_eq_range']
  simp only [same]
  rfl

theorem Component.of_cases (text : List Byte) :
    (text.take NAME_LEN = [] ∨ text.take NAME_LEN = DOT) ∧ Component.of text = .here ∨
      text.take NAME_LEN = DOTDOT ∧ Component.of text = .up ∨
      text.take NAME_LEN ≠ [] ∧ text.take NAME_LEN ≠ DOTDOT ∧ Component.of text = .name (text.take NAME_LEN) := by
  unfold Component.of
  by_cases isHere : text.take NAME_LEN = [] ∨ text.take NAME_LEN = DOT
  · exact .inl ⟨isHere, if_pos isHere⟩
  · by_cases isUp : text.take NAME_LEN = DOTDOT
    · exact .inr (.inl ⟨isUp, (if_neg isHere).trans (if_pos isUp)⟩)
    · exact .inr (.inr ⟨(not_or.mp isHere).1, isUp, (if_neg isHere).trans (if_neg isUp)⟩)

def Volumes.Finds (v : Volumes) (n : Node) (text : List Byte) (result : Option Node) : Prop :=
  ∃ d found, findEntry v.ops n text = some (d, found) ∧ d.dev ≠ 0 ∧
    found.map (fun place => (⟨d.dev, (place.1.entry place.2).inode⟩ : Node)) = result

variable {n : Node} {text : List Byte}

theorem Volumes.Forest.finds_here (forest : v.Forest parent) (dir : (v.minode n).isDir)
    (isHere : text.take NAME_LEN = [] ∨ text.take NAME_LEN = DOT) : v.Finds n text (some n) := by
  have notUp : text.take NAME_LEN ≠ DOTDOT := by
    rcases isHere with empty | dot
    · rw [empty]
      decide
    · rw [dot]
      decide
  have magic := forest.dotDot_eq dir (text.take NAME_LEN)
  rw [if_neg notUp] at magic
  obtain ⟨b, -, -, zero, -, selfNum, self, -, -⟩ := forest.slots dir
  have live : (b.entry 0).inode ≠ 0 := by
    rw [selfNum]
    exact (forest.dev n dir).2
  have isMatch : matchName v.zf (text.take NAME_LEN) (b.entry 0) = true := by
    rcases isHere with empty | dot
    · rw [empty]
      exact matchName_empty (Block.entry_name_length b 0) live self
    · rw [dot]
      exact (matchName_iff (by simp [DOT]) (by decide) (by decide) (Block.entry_name_length b 0)).mpr ⟨live, self⟩
  have many := (forest.dots n dir).1
  refine ⟨n, _, forest.findEntry_eq dir dir magic, (forest.dev n dir).1, ?_⟩
  rw [Volumes.findSlot_head (by omega) zero isMatch, Option.map_some, selfNum]

theorem Volumes.Forest.finds_up (forest : v.Forest parent) (dir : (v.minode n).isDir)
    (isUp : text.take NAME_LEN = DOTDOT) :
    v.Finds n text (some (if n = v.task.root then n else parent ((v.tree parent).leave n))) := by
  have magic := forest.dotDot_eq dir (text.take NAME_LEN)
  have many := (forest.dots n dir).1
  rw [if_pos isUp] at magic
  by_cases atRoot : n = v.task.root
  · rw [if_pos atRoot] at magic
    obtain ⟨b, -, -, zero, -, selfNum, self, -, -⟩ := forest.slots dir
    have live : (b.entry 0).inode ≠ 0 := by
      rw [selfNum]
      exact (forest.dev n dir).2
    have isMatch : matchName v.zf DOT (b.entry 0) = true :=
      (matchName_iff (by simp [DOT]) (by decide) (by decide) (Block.entry_name_length b 0)).mpr ⟨live, self⟩
    refine ⟨n, _, forest.findEntry_eq dir dir magic, (forest.dev n dir).1, ?_⟩
    rw [Volumes.findSlot_head (by omega) zero isMatch, Option.map_some, selfNum, if_pos atRoot]
  · rw [if_neg atRoot] at magic
    have searched := (forest.leave dir).1
    obtain ⟨b, -, -, zero, one, -, self, parentNum, up⟩ := forest.slots searched
    obtain ⟨sameDev, parentDir⟩ := forest.parentDir _ searched
    have live : (b.entry 1).inode ≠ 0 := by
      rw [parentNum]
      exact (forest.dev _ parentDir).2
    have isMatch : matchName v.zf DOTDOT (b.entry 1) = true :=
      (matchName_iff (by simp [DOTDOT]) (by decide) (by decide) (Block.entry_name_length b 1)).mpr ⟨live, up⟩
    have noMatch : ¬matchName v.zf DOTDOT (b.entry 0) = true := by
      rw [matchName_iff (by simp [DOTDOT]) (by decide) (by decide) (Block.entry_name_length b 0), self]
      exact fun both => absurd both.2 (by decide)
    refine ⟨_, _, forest.findEntry_eq dir searched magic, (forest.dev _ searched).1, ?_⟩
    -- the entries are counted in the directory that `..` leaves
    obtain ⟨count, isCount⟩ := Nat.exists_eq_add_of_le' many
    rw [isCount, Volumes.findSlot_some _ zero, if_neg noMatch, Volumes.findSlot_head (by omega) one isMatch,
      Option.map_some, parentNum, ← sameDev, if_neg atRoot]

theorem Volumes.Forest.finds_name (forest : v.Forest parent) (dir : (v.minode n).isDir)
    (nonzero : ∀ c ∈ text, c ≠ 0) (nonempty : text.take NAME_LEN ≠ []) (notUp : text.take NAME_LEN ≠ DOTDOT) :
    v.Finds n text (v.child n (text.take NAME_LEN)) := by
  have magic := forest.dotDot_eq dir (text.take NAME_LEN)
  rw [if_neg notUp] at magic
  refine ⟨n, _, forest.findEntry_eq dir dir magic, (forest.dev n dir).1, ?_⟩
  exact Volumes.findSlot_child (fun c member => nonzero c (mem_of_mem_take member)) nonempty (length_take_le _ _)

theorem Volumes.Forest.lookup (forest : v.Forest parent) (dir : (v.minode n).isDir)
    (notCovered : v.mount n = false) (nonzero : ∀ c ∈ text, c ≠ 0) :
    ∃ result, v.Finds n text result ∧ (v.tree parent).lookup n text = result.map (v.tree parent).enter := by
  have isDir : (v.tree parent).isDir n = true := dir
  have stays : (v.tree parent).enter n = n := by simp [Volumes.tree, notCovered]
  unfold Namespace.lookup
  rw [if_pos isDir]
  rcases Component.of_cases text with ⟨isHere, component⟩ | ⟨isUp, component⟩ | ⟨nonempty, notUp, component⟩
  · refine ⟨_, forest.finds_here dir isHere, ?_⟩
    rw [component, Option.map_some, stays]
  · refine ⟨_, forest.finds_up dir isUp, ?_⟩
    rw [component, Option.map_some, apply_ite (v.tree parent).enter, stays]
    rfl
  · refine ⟨_, forest.finds_name dir nonzero nonempty notUp, ?_⟩
    rw [component]
    rfl

theorem Volumes.Forest.lookup_uncovered (forest : v.Forest parent) {d : Node}
    (notCovered : v.mount n = false) (found : (v.tree parent).lookup n text = some d) :
    v.mount d = false := by
  unfold Namespace.lookup at found
  split at found
  · split at found
    · cases found
      exact notCovered
    · cases found
      split
      · exact notCovered
      · exact forest.enter_uncovered _
    · obtain ⟨child, -, rfl⟩ := Option.map_eq_some_iff.mp found
      exact forest.enter_uncovered _
  · cases found

theorem Volumes.Finds.iget (forest : v.Forest parent) {result : Option Node} (finds : v.Finds n text result) :
    ∃ d found, findEntry v.ops n text = some (d, found) ∧
      (found = none ∧ result = none ∨
        ∃ b k m, found = some (b, k) ∧ result = some m ∧
          v.iget d.dev (b.entry k).inode = some ((v.tree parent).enter m)) := by
  obtain ⟨d, found, entry, isDev, rfl⟩ := finds
  refine ⟨d, found, entry, ?_⟩
  cases found with
  | none => exact .inl ⟨rfl, rfl⟩
  | some place => exact .inr ⟨place.1, place.2, _, rfl, rfl, forest.iget isDev _⟩

variable (nested : Option (List Byte → Node → Option (Option Node)))

theorem Volumes.Forest.getDirStep_eq (forest : v.Forest parent) (dir : (v.minode n).isDir)
    (notCovered : v.mount n = false) (nonzero : ∀ c ∈ text, c ≠ 0) :
    getDirStep v.ops nested n text = some ((v.tree parent).lookup n text) := by
  obtain ⟨result, finds, lookup⟩ := forest.lookup dir notCovered nonzero
  obtain ⟨d, found, entry, cases_⟩ := finds.iget forest
  rw [lookup, getDirStep, entry]
  rcases cases_ with ⟨rfl, rfl⟩ | ⟨b, k, m, rfl, rfl, got⟩
  · rfl
  · have noLink := forest.noLinks ((v.tree parent).enter m)
    simp [Volumes.ops, Volumes.minode, got, followLink] at noLink ⊢
    simp [noLink]

theorem Volumes.Forest.enterDir_dir (forest : v.Forest parent) (dir : (v.minode n).isDir = true) :
    enterDir v.ops n = some (some n) := by
  have search := forest.search n dir
  simp [enterDir, Volumes.ops, Volumes.minode] at dir search ⊢
  simp [dir, search]

theorem Volumes.enterDir_not_dir (dir : (v.minode n).isDir = false) : enterDir v.ops n = some none := by
  simp [enterDir, Volumes.ops, Volumes.minode] at dir ⊢
  simp [dir]

theorem Namespace.walk_cons (ns : Namespace Node) (n : Node) (text : List Byte) (texts : List (List Byte)) :
    ns.walk n (text :: texts) = (ns.lookup n text).bind fun d => ns.walk d texts := rfl

theorem Namespace.walk_concat (ns : Namespace Node) (n : Node) (texts : List (List Byte)) (text : List Byte) :
    ns.walk n (texts ++ [text]) = (ns.walk n texts).bind fun d => ns.lookup d text := by
  unfold walk
  rw [foldlM_append]
  congr 1
  funext d
  simp

theorem Namespace.lookup_of_not_dir {ns : Namespace Node} (dir : ns.isDir n = false) : ns.lookup n text = none := by
  simp [lookup, dir]

theorem Namespace.walk_of_not_dir {ns : Namespace Node} (dir : ns.isDir n = false) (texts : List (List Byte)) :
    (ns.walk n texts).filter ns.isDir = none := by
  cases texts with
  | nil => simp [walk, dir]
  | cons text texts => rw [walk_cons, lookup_of_not_dir dir, Option.bind_none, Option.filter_none]

theorem splitOn_slash (path : List Byte) : (SLASH :: path).splitOn SLASH = [] :: path.splitOn SLASH := by
  rw [splitOn_cons_eq_if_modifyHead]
  rfl

theorem splitOn_letter {c : Byte} (letter : c ≠ SLASH) (name path : List Byte) :
    ((c :: path).splitOn SLASH).modifyHead (name ++ ·) = (path.splitOn SLASH).modifyHead (name ++ [c] ++ ·) := by
  rw [splitOn_cons_eq_if_modifyHead, if_neg (by simpa using letter), modifyHead_modifyHead]
  congr 1
  funext rest
  simp

theorem Volumes.Forest.getDirLoop_eq (forest : v.Forest parent) (path : List Byte) :
    ∀ name n, (v.minode n).isDir = true → v.mount n = false → (∀ c ∈ name ++ path, c ≠ 0) →
      getDirLoop v.ops nested path name n =
        some (((v.tree parent).walk n ((path.splitOn SLASH).modifyHead (name ++ ·)).dropLast).filter
          (v.tree parent).isDir) := by
  induction path with
  | nil =>
    intro name n dir _ _
    have isDir : (v.tree parent).isDir n = true := dir
    simp [getDirLoop, Namespace.walk, isDir, Option.filter_some]
  | cons c path ih =>
    intro name n dir notCovered nonzero
    by_cases letter : c = SLASH
    · subst letter
      have nameNonzero : ∀ c ∈ name, c ≠ 0 := fun c member => nonzero c (mem_append_left _ member)
      have pathNonzero : ∀ c ∈ path, c ≠ 0 := fun c member =>
        nonzero c (mem_append_right _ (mem_cons_of_mem _ member))
      have step := forest.getDirStep_eq nested dir notCovered nameNonzero
      obtain ⟨head, tail, rest⟩ := exists_cons_of_ne_nil (splitOn_ne_nil SLASH path)
      rw [getDirLoop, if_pos rfl, step, splitOn_slash, modifyHead_cons, append_nil, rest,
        dropLast_cons_cons, Namespace.walk_cons]
      cases found : (v.tree parent).lookup n name with
      | none => rfl
      | some d =>
        rw [bind_some, ← rest]
        by_cases isDir : (v.minode d).isDir = true
        · have later := ih [] d isDir (forest.lookup_uncovered notCovered found) (by simpa using pathNonzero)
          rw [rest, modifyHead_cons, nil_append, ← rest] at later
          rw [← later]
          simp only [bind_eq_bind, bind_some, forest.enterDir_dir isDir]
        · rw [Bool.not_eq_true] at isDir
          have notDir : (v.tree parent).isDir d = false := isDir
          rw [Namespace.walk_of_not_dir notDir]
          simp only [bind_eq_bind, bind_some, Volumes.enterDir_not_dir isDir, Option.pure_def]
    · rw [getDirLoop, if_neg letter, splitOn_letter letter]
      exact ih (name ++ [c]) n dir notCovered (by simpa using nonzero)

theorem splitOn_last (path : List Byte) :
    ((path.splitOn SLASH).modifyHead fun _ => path).getLast? = (path.splitOn SLASH).getLast? := by
  have whole : [SLASH].intercalate (path.splitOn SLASH) = path := intercalate_splitOn SLASH
  match parts : path.splitOn SLASH with
  | [] => rfl
  | [only] =>
    rw [parts] at whole
    have same : only = path := by simpa using whole
    rw [same]
    rfl
  | _ :: _ :: _ => rfl

theorem basename_eq (path : List Byte) :
    ∀ base, some (basename base path) = ((path.splitOn SLASH).modifyHead fun _ => base).getLast? := by
  induction path with
  | nil => intro base; rfl
  | cons c path ih =>
    intro base
    rw [basename, splitOn_cons_eq_if_modifyHead]
    by_cases letter : c = SLASH
    · obtain ⟨head, tail, rest⟩ := exists_cons_of_ne_nil (splitOn_ne_nil SLASH path)
      rw [if_pos letter, if_pos (by simpa using letter), ih, splitOn_last, modifyHead_cons, rest]
      rfl
    · rw [if_neg letter, if_neg (by simpa using letter), ih, modifyHead_modifyHead]
      rfl

theorem mem_basename {c : Byte} (path : List Byte) :
    ∀ base, c ∈ basename base path → c ∈ base ∨ c ∈ path := by
  induction path with
  | nil => intro base member; exact .inl member
  | cons d path ih =>
    intro base member
    rw [basename] at member
    split at member
    · rcases ih path member with inPath | inPath
      · exact .inr (mem_cons_of_mem _ inPath)
      · exact .inr (mem_cons_of_mem _ inPath)
    · exact (ih base member).imp_right (mem_cons_of_mem _)

theorem components_last (path : List Byte) :
    some (basename path path) = (Namespace.components path).getLast? := by
  unfold Namespace.components
  cases path with
  | nil => rfl
  | cons c path =>
    by_cases letter : c = SLASH
    · rw [if_pos (by simp [letter]), basename, if_pos letter, basename_eq, splitOn_last, tail_cons]
    · rw [if_neg (by simp [letter]), basename_eq, splitOn_last]

theorem Volumes.Forest.start_uncovered (forest : v.Forest parent) (path : List Byte) :
    v.mount ((v.tree parent).start path) = false := by
  unfold Namespace.start
  split
  · exact forest.notCovered.1
  · exact forest.notCovered.2

theorem Volumes.Forest.walk_uncovered (forest : v.Forest parent) {texts : List (List Byte)} :
    ∀ {n d : Node}, v.mount n = false → (v.tree parent).walk n texts = some d → v.mount d = false := by
  induction texts with
  | nil =>
    intro n d notCovered walked
    cases walked
    exact notCovered
  | cons text texts ih =>
    intro n d notCovered walked
    rw [Namespace.walk_cons, Option.bind_eq_some_iff] at walked
    obtain ⟨e, found, later⟩ := walked
    exact ih (forest.lookup_uncovered notCovered found) later

theorem Volumes.Forest.getDirFrom_eq (forest : v.Forest parent) {path : List Byte}
    (nonzero : ∀ c ∈ path, c ≠ 0) (notCovered : v.mount n = false) :
    getDirFrom v.ops nested path n =
      some (((v.tree parent).walk n (path.splitOn SLASH).dropLast).filter (v.tree parent).isDir) := by
  unfold getDirFrom
  by_cases dir : (v.minode n).isDir = true
  · have walked := forest.getDirLoop_eq nested path [] n dir notCovered (by simpa using nonzero)
    obtain ⟨head, tail, parts⟩ := exists_cons_of_ne_nil (splitOn_ne_nil SLASH path)
    rw [parts, modifyHead_cons, nil_append, ← parts] at walked
    rw [forest.enterDir_dir dir]
    exact walked
  · rw [Bool.not_eq_true] at dir
    have notDir : (v.tree parent).isDir n = false := dir
    rw [Volumes.enterDir_not_dir dir, Namespace.walk_of_not_dir notDir]
    rfl

theorem Volumes.Forest.getDir_eq (forest : v.Forest parent) {path : List Byte} (nonzero : ∀ c ∈ path, c ≠ 0) :
    getDir v.ops nested path none =
      some (((v.tree parent).walk ((v.tree parent).start path) (Namespace.components path).dropLast).filter
        (v.tree parent).isDir) := by
  unfold getDir Namespace.components Namespace.start
  by_cases absolute : path.head? = some SLASH
  · simp only [if_pos absolute]
    exact forest.getDirFrom_eq nested (fun c member => nonzero c (mem_of_mem_tail member)) forest.notCovered.1
  · simp only [if_neg absolute]
    exact forest.getDirFrom_eq nested nonzero forest.notCovered.2

end Lookup

structure CString where
  bytes : List Byte
  nonzero : ∀ c ∈ bytes, c ≠ 0

/-- `_namei` looks up the components of the path, one after the other, and returns
NULL if that fails. -/
theorem namei_resolves {v : Volumes} {parent : Node → Node} (forest : v.Forest parent)
    (nested : Option (List Byte → Node → Option (Option Node))) (path : CString) (followLinks : Bool) :
    _namei v.ops nested path.bytes none followLinks = some ((v.tree parent).resolve path.bytes) := by
  obtain ⟨init, parts⟩ := getLast?_eq_some_iff.mp (components_last path.bytes).symm
  have dir := forest.getDir_eq nested path.nonzero
  have nonzero : ∀ c ∈ basename path.bytes path.bytes, c ≠ 0 := fun c member =>
    path.nonzero c ((mem_basename path.bytes path.bytes member).elim id id)
  rw [parts, dropLast_concat] at dir
  unfold Namespace.resolve
  rw [parts, Namespace.walk_concat]
  unfold _namei dirNamei
  rw [dir]
  cases walked : (v.tree parent).walk ((v.tree parent).start path.bytes) init with
  | none => rfl
  | some d =>
    have notCovered := forest.walk_uncovered (forest.start_uncovered path.bytes) walked
    by_cases isDir : (v.tree parent).isDir d = true
    · rw [Option.filter_some, if_pos isDir, bind_some]
      generalize basename path.bytes path.bytes = name at nonzero
      by_cases empty : name = []
      · subst empty
        have stays : (v.tree parent).lookup d [] = some d := by
          unfold Namespace.lookup
          rw [if_pos isDir]
          rfl
        simp [stays]
      · obtain ⟨result, finds, lookup⟩ := forest.lookup isDir notCovered nonzero
        obtain ⟨e, found, entry, cases_⟩ := finds.iget forest
        simp only [bind_eq_bind, bind_some, Option.pure_def, if_neg empty, entry, lookup]
        rcases cases_ with ⟨rfl, rfl⟩ | ⟨b, k, m, rfl, rfl, got⟩
        · rfl
        · have noLink := forest.noLinks ((v.tree parent).enter m)
          simp [Volumes.ops, Volumes.minode, got, followLink, touched] at noLink ⊢
          simp [noLink]
    · rw [Bool.not_eq_true] at isDir
      rw [Option.filter_some, isDir, bind_some, Namespace.lookup_of_not_dir isDir]
      rfl

/-! ## A mounted file system -/

def rootNode : Node := ⟨1, 1⟩
def mountPoint : Node := ⟨1, 2⟩
def mountedRoot : Node := ⟨2, 1⟩

/-- The root file system has a directory `d`, and another file system is mounted there. -/
def sampleVolumes : Volumes where
  zf := true
  task := { euid := 0, egid := 0, groups := [], umask := 0, root := rootNode, pwd := rootNode }
  super := [⟨1, some rootNode⟩, ⟨2, some mountPoint⟩]
  inode n :=
    if n = rootNode then dirData 1 48
    else if n = mountPoint then dirData 2 32
    else if n = mountedRoot then dirData 1 32
    else .zero
  mount n := n = mountPoint
  block dev zone :=
    if dev = 1 ∧ zone = 1 then some (.ofEntries [(1, DOT), (1, DOTDOT), (2, [100])])
    else if dev = 1 ∧ zone = 2 then some (.ofEntries [(2, DOT), (1, DOTDOT)])
    else if dev = 2 ∧ zone = 1 then some (.ofEntries [(1, DOT), (1, DOTDOT)])
    else none

def sampleParent (n : Node) : Node := if n = mountPoint then rootNode else n

theorem sampleVolumes_dir {n : Node} (dir : (sampleVolumes.minode n).isDir = true) :
    n = rootNode ∨ n = mountPoint ∨ n = mountedRoot := by
  by_contra other
  simp only [not_or] at other
  simp [Volumes.minode, sampleVolumes, other, MInode.isDir, DInode.zero, S_IFDIR] at dir

theorem sampleVolumes_other {n : Node} (file : (sampleVolumes.minode n).isDir = false) :
    (sampleVolumes.minode n).data = .zero := by
  by_cases isRoot : n = rootNode
  · subst isRoot
    cases file
  · by_cases isPoint : n = mountPoint
    · subst isPoint
      cases file
    · by_cases isMounted : n = mountedRoot
      · subst isMounted
        cases file
      · simp [Volumes.minode, sampleVolumes, isRoot, isPoint, isMounted]

theorem sampleVolumes_forest : sampleVolumes.Forest sampleParent where
  dev n dir := by rcases sampleVolumes_dir dir with rfl | rfl | rfl <;> decide
  noLinks n := by
    by_cases dir : (sampleVolumes.minode n).isDir = true
    · rcases sampleVolumes_dir dir with rfl | rfl | rfl <;> rfl
    · rw [Bool.not_eq_true] at dir
      rw [MInode.isLnk, sampleVolumes_other dir]
      rfl
  search n dir := by rcases sampleVolumes_dir dir with rfl | rfl | rfl <;> decide
  size n dir := by rcases sampleVolumes_dir dir with rfl | rfl | rfl <;> decide
  dots n dir := by
    rcases sampleVolumes_dir dir with rfl | rfl | rfl
    · exact ⟨by decide, by decide, _, rfl, by decide⟩
    · exact ⟨by decide, by decide, _, rfl, by decide⟩
    · exact ⟨by decide, by decide, _, rfl, by decide⟩
  parentDir n dir := by rcases sampleVolumes_dir dir with rfl | rfl | rfl <;> decide
  parent n dir := by
    rcases sampleVolumes_dir dir with rfl | rfl | rfl
    · rfl
    · exact ⟨[100], by decide, by decide +kernel⟩
    · rfl
  mount n mounted := by
    have isPoint : n = mountPoint := of_decide_eq_true mounted
    subst isPoint
    exact ⟨by decide, _, mem_cons_of_mem _ mem_cons_self, rfl⟩
  notCovered := by decide
  mounted n dir isRoot := by
    rcases sampleVolumes_dir dir with rfl | rfl | rfl
    · exact ⟨rootNode, rfl, by decide, .inr rfl⟩
    · cases isRoot
    · exact ⟨mountPoint, rfl, by decide, .inl rfl⟩

def samplePath : CString where
  bytes := [47, 100, 47, 46, 46]
  nonzero := by simp

theorem namei_resolves_dotdot :
    _namei sampleVolumes.ops none [47, 100] none true = some (some mountedRoot) ∧
      _namei sampleVolumes.ops none samplePath.bytes none true = some (some rootNode) :=
  ⟨by decide +kernel, (namei_resolves sampleVolumes_forest none samplePath true).trans (by decide +kernel)⟩

end Linux012.Fs.Namei

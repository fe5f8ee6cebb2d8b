import Linux012.Fs.NamingCalls
import Linux012.Lib.Ledger
import Mathlib.Algebra.Group.Pi.Lemmas

/-! The calls of `fs/namei.c` give back the inodes and the buffers that they take. -/

set_option autoImplicit false

namespace Linux012.Fs.Naming

open Namei Ledger Function
open InodeTable (Slot NR_INODE NR_SUPER ROOT_INO DInode)

/-! ## References -/

abbrev Counter := Slot ⊕ Buf

def State.refs (s : State) : Counter → ℤ
  | .inl i => (s.table i).count
  | .inr bh => s.count bh

def inodeRef (i : Slot) : Counter → ℤ := Pi.single (.inl i) 1

def bufRef (bh : Buf) : Counter → ℤ := Pi.single (.inr bh) 1

abbrev Takes {α : Type} (x : Kernel α) (change : α → Counter → ℤ) : Prop := Adds State.refs x change

abbrev Keeps {α : Type} (x : Kernel α) : Prop := Takes x fun _ => 0

theorem stuck_takes {α : Type} {change : α → Counter → ℤ} : Takes stuck change := .of_none fun _ => rfl

theorem get_keeps : Keeps (get : Kernel State) := adds_get

theorem modify_keeps {f : State → State} (counts : ∀ s, (f s).refs = s.refs) :
    Keeps (modify f : Kernel Unit) :=
  adds_modify fun s => by rw [counts, add_zero]

theorem refs_table (s : State) (i : Slot) (inode : Inode) :
    { s with table := update s.table i inode }.refs =
      s.refs + Pi.single (.inl i) ((inode.count : ℤ) - (s.table i).count) := by
  funext k
  rcases k with j | bh
  · by_cases same : j = i
    · subst same
      simp [State.refs]
    · simp [State.refs, same]
  · simp [State.refs]

theorem refs_count (s : State) (bh : Buf) (count : Nat) :
    { s with count := update s.count bh count }.refs = s.refs + Pi.single (.inr bh) ((count : ℤ) - s.count bh) := by
  funext k
  rcases k with j | b
  · simp [State.refs]
  · by_cases same : b = bh
    · subst same
      simp [State.refs]
    · simp [State.refs, same]

theorem setInode_keeps (i : Slot) (f : Inode → Inode) : Keeps (setInode i f) :=
  modify_keeps fun s => by simp [refs_table]

theorem setData_keeps (i : Slot) (f : DInode → DInode) : Keeps (setData i f) := setInode_keeps i _

theorem dirty_keeps (i : Slot) : Keeps (dirty i) := setInode_keeps i _

theorem poke_keeps (bh : Buf) (off : Nat) (bytes : List Byte) : Keeps (poke bh off bytes) :=
  modify_keeps fun _ => rfl

theorem setWord_keeps (bh : Buf) (k word : Nat) : Keeps (setWord bh k word) := poke_keeps bh _ _

theorem setEntry_keeps (bh : Buf) (de inode : Nat) : Keeps (setEntry bh de inode) := poke_keeps bh _ _

theorem dataOf_keeps (bh : Buf) : Keeps (dataOf bh) := get_keeps.andThen fun _ => .pure rfl

theorem inodeOf_keeps (i : Slot) : Keeps (inodeOf i) := get_keeps.andThen fun _ => .pure rfl

theorem getSuper_keeps (dev : Nat) : Keeps (getSuper dev) := by
  intro s sb s' returned
  unfold getSuper at returned
  split at returned
  · cases returned
  · obtain ⟨k, -, isBoth⟩ := Option.map_eq_some_iff.mp returned
    cases isBoth
    rw [add_zero]

theorem bread_takes (dev block : Nat) : Takes (bread dev block) fun bh => bh.elim 0 bufRef := by
  intro s bh s' returned
  simp only [bread, bind_eq_some] at returned
  obtain ⟨t, u, same, returned⟩ := returned
  cases same
  split at returned
  · cases returned
    exact (add_zero _).symm
  · cases returned
    exact (refs_count { s with reads := s.reads + 1 } _ _).trans (by simp [bufRef]; rfl)

theorem brelse_takes (bh : Buf) : Takes (brelse bh) fun _ => -bufRef bh := by
  intro s a s' returned
  simp only [brelse, bind_eq_some] at returned
  obtain ⟨t, u, same, returned⟩ := returned
  cases same
  split at returned
  · cases returned
  · next held =>
    cases returned
    rw [refs_count, Nat.cast_sub (by omega), bufRef, ← Pi.single_neg]
    simp

theorem hold_takes (i : Slot) : Takes (hold i) fun _ => inodeRef i :=
  adds_modify fun s => by simp [refs_table, inodeRef]

theorem drop_takes (i : Slot) : Takes (drop i) fun _ => -inodeRef i := by
  intro s a s' returned
  simp only [drop, bind_eq_some] at returned
  obtain ⟨t, u, same, returned⟩ := returned
  cases same
  split at returned
  · cases returned
  · next held =>
    cases returned
    rw [refs_table, Nat.cast_sub (by omega), inodeRef, ← Pi.single_neg]
    simp

theorem claim_takes (i : Slot) : Takes (claim i) fun _ => inodeRef i := by
  intro s a s' returned
  simp only [claim, bind_eq_some] at returned
  obtain ⟨t, u, same, returned⟩ := returned
  cases same
  split at returned
  · next empty =>
    cases returned
    rw [refs_table, empty.1, inodeRef]
    rfl
  · cases returned

/-! ## Blocks -/

theorem newBlock_keeps (dev : Nat) : Keeps (newBlock dev) := by
  unfold newBlock
  refine (getSuper_keeps dev).andThen fun sb => get_keeps.andThen fun s => ?_
  split
  · exact .pure rfl
  · refine (modify_keeps fun _ => by rfl).andThen fun _ => ?_
    refine .ite (fun _ => .pure rfl) fun _ => .ite (fun _ => stuck_takes) fun _ => ?_
    exact (modify_keeps fun _ => by rfl).andThen fun _ => .pure rfl

theorem freeBlock_keeps (dev block : Nat) : Keeps (freeBlock dev block) := by
  unfold freeBlock
  refine (getSuper_keeps dev).andThen fun sb => ?_
  refine .ite (fun _ => stuck_takes) fun _ => get_keeps.andThen fun s => ?_
  refine .ite (fun _ => .pure rfl) fun _ => ?_
  exact (modify_keeps fun _ => by rfl).andThen fun _ => .pure rfl

section Free

variable {free : Nat → Kernel Bool} (freeKeeps : ∀ block, Keeps (free block))
include freeKeeps

theorem freeWords_keeps (bh : Buf) (words : List Nat) : Keeps (freeWords free bh words) := by
  induction words with
  | nil => exact .pure rfl
  | cons k words ih =>
    unfold freeWords
    refine (dataOf_keeps bh).andThen fun block => ?_
    refine .ite (fun _ => ih) fun _ => (freeKeeps _).andThen fun freed => ?_
    refine .ite (fun _ => ?_) fun _ => ?_
    · exact (setWord_keeps bh k 0).andThen fun _ => ih
    · exact ih.andThen fun _ => .pure rfl

theorem freeIndirect_keeps (dev block : Nat) : Keeps (freeIndirect free dev block) := by
  unfold freeIndirect
  refine .ite (fun _ => .pure rfl) fun _ => (bread_takes dev block).bind fun bh => ?_
  have finish (busy : Bool) : Keeps (if busy then pure false else freeBlock dev block) :=
    .ite (fun _ => .pure rfl) fun _ => freeBlock_keeps dev block
  cases bh with
  | none => exact (finish false).of_eq fun _ => by simp
  | some bh =>
    refine (freeWords_keeps freeKeeps bh _).andThen fun busy => (brelse_takes bh).bind fun _ => ?_
    exact (finish busy).of_eq fun _ => by simp

theorem freeZone_keeps (i : Slot) (k : Fin 9) : Keeps (freeZone i free k) := by
  unfold freeZone
  refine (inodeOf_keeps i).andThen fun inode => ?_
  refine .ite (fun _ => .pure rfl) fun _ => (freeKeeps _).andThen fun freed => ?_
  exact .ite (fun _ => (setData_keeps i _).andThen fun _ => .pure rfl) fun _ => .pure rfl

end Free

theorem freeZones_keeps (i : Slot) (dev : Nat) (zones : List (Fin 9)) : Keeps (freeZones i dev zones) := by
  induction zones with
  | nil => exact .pure rfl
  | cons k zones ih =>
    exact (freeZone_keeps (freeBlock_keeps dev) i k).andThen fun _ => ih.andThen fun _ => .pure rfl

theorem truncate_keeps (i : Slot) : Keeps (truncate i) := by
  unfold truncate
  refine (inodeOf_keeps i).andThen fun inode => .ite (fun _ => ?_) fun _ => .pure rfl
  have single := freeIndirect_keeps (freeBlock_keeps inode.dev) inode.dev
  have double := freeIndirect_keeps single inode.dev
  refine get_keeps.andThen fun s => (freeZones_keeps i _ _).andThen fun _ => ?_
  refine (freeZone_keeps single i 7).andThen fun _ => (freeZone_keeps double i 8).andThen fun _ => ?_
  refine (dirty_keeps i).andThen fun _ => .ite (fun _ => stuck_takes) fun _ => setData_keeps i _

theorem zoneOf_keeps (i : Slot) (k : Fin 9) (create : Bool) : Keeps (zoneOf i k create) := by
  unfold zoneOf
  refine (inodeOf_keeps i).andThen fun inode => .ite (fun _ => ?_) fun _ => .pure rfl
  refine (newBlock_keeps _).andThen fun block => .ite (fun _ => .pure rfl) fun _ => ?_
  exact (setData_keeps i _).andThen fun _ => (dirty_keeps i).andThen fun _ => .pure rfl

theorem wordOf_keeps (dev zone k : Nat) (create : Bool) : Keeps (wordOf dev zone k create) := by
  unfold wordOf
  refine .ite (fun _ => .pure rfl) fun _ => (bread_takes dev zone).bind fun bh => ?_
  cases bh with
  | none => exact .pure (by simp)
  | some bh =>
    have finish (word : Nat) : Takes (do brelse bh; pure word) fun _ => (0 : Counter → ℤ) - bufRef bh :=
      (brelse_takes bh).bind fun _ => .pure (by simp)
    refine (dataOf_keeps bh).andThen fun block => .ite (fun _ => ?_) fun _ => finish _
    refine (newBlock_keeps dev).andThen fun fresh => .ite (fun _ => finish 0) fun _ => ?_
    exact (setWord_keeps bh k fresh).andThen fun _ => finish fresh

theorem _bmap_keeps (i : Slot) (block : Nat) (create : Bool) : Keeps (_bmap i block create) := by
  unfold _bmap
  refine (inodeOf_keeps i).andThen fun inode => ?_
  split
  · exact zoneOf_keeps i _ create
  · refine .ite (fun _ => ?_) fun _ => .ite (fun _ => ?_) fun _ => stuck_takes
    · exact (zoneOf_keeps i 7 create).andThen fun zone => wordOf_keeps _ _ _ create
    · exact (zoneOf_keeps i 8 create).andThen fun zone =>
        (wordOf_keeps _ _ _ create).andThen fun single => wordOf_keeps _ _ _ create

/-! ## The inode table -/

theorem inodeBlock_takes (inode : Inode) : Takes (inodeBlock inode) bufRef := by
  unfold inodeBlock
  refine (getSuper_keeps _).andThen fun sb => (bread_takes _ _).bind fun bh => ?_
  cases bh with
  | none => exact stuck_takes
  | some bh => exact .pure (by simp)

theorem readInode_keeps (i : Slot) : Keeps (readInode i) := by
  unfold readInode
  refine (inodeOf_keeps i).andThen fun inode => (inodeBlock_takes inode).bind fun bh => ?_
  refine (dataOf_keeps bh).andThen fun block => get_keeps.andThen fun s => ?_
  exact (setData_keeps i _).andThen fun _ => (brelse_takes bh).of_eq fun _ => by simp

theorem writeInode_keeps (i : Slot) : Keeps (writeInode i) := by
  unfold writeInode
  refine (inodeOf_keeps i).andThen fun inode => .ite (fun _ => .pure rfl) fun _ => ?_
  refine (inodeBlock_takes inode).bind fun bh => (poke_keeps bh _ _).andThen fun _ => ?_
  exact (setInode_keeps i _).andThen fun _ => (brelse_takes bh).of_eq fun _ => by simp

theorem syncInodes_keeps : Keeps syncInodes := by
  refine adds_forM (fun i => ?_) _
  exact (inodeOf_keeps i).andThen fun inode => .ite (fun _ => writeInode_keeps i) fun _ => .pure rfl

variable {s s' : State}

theorem freeInode_last {i : Slot} {a : Unit} (last : (s.table i).count = 1)
    (returned : freeInode i s = some (a, s')) : s'.refs = s.refs + -inodeRef i := by
  have cleared (imap : Nat → Nat → Bool) :
      { s with imap := imap, table := update s.table i .zero }.refs = s.refs + -inodeRef i := by
    refine (refs_table { s with imap := imap } i .zero).trans ?_
    rw [last, inodeRef, ← Pi.single_neg]
    rfl
  simp only [freeInode, bind_eq_some] at returned
  obtain ⟨t, u, same, returned⟩ := returned
  cases same
  split at returned
  · cases returned
    exact cleared s.imap
  · split at returned
    · cases returned
    · split at returned
      · cases returned
      · obtain ⟨sb, t, super, returned⟩ := bind_eq_some.mp returned
        split at returned
        · cases returned
        · cases returned
          exact cleared _

theorem count_of_refs (same : s'.refs = s.refs + 0) (i : Slot) : (s'.table i).count = (s.table i).count := by
  have at_ := congrFun same (.inl i)
  rw [add_zero] at at_
  exact Int.ofNat_inj.mp at_

theorem iputTail_used {i : Slot} {a : Unit} (used : (s.table i).count ≠ 0)
    (returned : iputTail i s = some (a, s')) : s'.refs = s.refs + -inodeRef i := by
  obtain ⟨inode, t, read, returned⟩ := bind_eq_some.mp returned
  cases read
  split at returned
  · exact drop_takes i _ _ _ returned
  · next few =>
    split at returned
    · obtain ⟨b, t, truncated, freed⟩ := bind_eq_some.mp returned
      have same := truncate_keeps i _ _ _ truncated
      have last : (t.table i).count = 1 := by
        rw [count_of_refs same]
        omega
      rw [freeInode_last last freed, same, add_zero]
    · split at returned
      · have both : Takes (do writeInode i; drop i) fun _ => -inodeRef i :=
          (writeInode_keeps i).andThen fun _ => drop_takes i
        exact both _ _ _ returned
      · exact drop_takes i _ _ _ returned

theorem iput_takes (i : Slot) : Takes (iput i) fun _ => -inodeRef i := by
  intro s a s' returned
  obtain ⟨inode, t, read, returned⟩ := bind_eq_some.mp returned
  cases read
  split at returned
  · cases returned
  · next used =>
    split at returned
    · have closed : Takes (do
          if (s.table i).count = 1 then setInode i fun inode => { inode with dirt := false, pipe := false }
          else pure ()
          drop i) fun _ => -inodeRef i := by
        exact .ite (fun _ => (setInode_keeps i _).andThen fun _ => drop_takes i) fun _ => drop_takes i
      exact closed _ _ _ returned
    · split at returned
      · exact drop_takes i _ _ _ returned
      · split at returned
        · obtain ⟨b, t, synced, returned⟩ := bind_eq_some.mp returned
          have same := syncInodes_keeps _ _ _ synced
          rw [iputTail_used (by rwa [count_of_refs same]) returned, same, add_zero]
        · exact iputTail_used used returned

theorem getEmptyInode_takes : Takes getEmptyInode inodeRef := by
  unfold getEmptyInode
  refine get_keeps.andThen fun s => ?_
  split
  · exact stuck_takes
  · next last i _ =>
    refine (modify_keeps fun _ => by rfl).andThen fun _ => (writeInode_keeps i).andThen fun _ => ?_
    exact (claim_takes i).bind fun _ => .pure (by simp)

theorem igetLoop_takes (empty : Slot) (rounds : Nat) :
    ∀ dev nr, Takes (igetLoop empty rounds dev nr) fun i => inodeRef i - inodeRef empty := by
  induction rounds with
  | zero => exact fun _ _ => stuck_takes
  | succ rounds ih =>
    intro dev nr
    unfold igetLoop
    refine get_keeps.andThen fun s => ?_
    split
    · refine (setInode_keeps empty _).andThen fun _ => (readInode_keeps empty).andThen fun _ => ?_
      exact .pure (by simp)
    · next i _ =>
      have found : Takes (do iput empty; pure i) fun j => inodeRef j - inodeRef empty - inodeRef i :=
        (iput_takes empty).bind fun _ => .pure (by abel)
      refine (hold_takes i).bind fun _ => .ite (fun _ => ?_) fun _ => found
      split
      · exact found
      · exact (iput_takes i).bind fun _ => (ih _ _).of_eq fun j => by abel

theorem iget_takes (dev nr : Nat) : Takes (iget dev nr) inodeRef := by
  unfold iget
  refine .ite (fun _ => stuck_takes) fun _ => getEmptyInode_takes.bind fun empty => ?_
  exact igetLoop_takes empty _ dev nr

theorem newInode_takes (dev : Nat) : Takes (newInode dev) fun i => i.elim 0 inodeRef := by
  unfold newInode
  refine getEmptyInode_takes.bind fun i => (getSuper_keeps dev).andThen fun sb => get_keeps.andThen fun s => ?_
  split
  · exact (iput_takes i).bind fun _ => .pure (by simp)
  · refine (modify_keeps fun _ => by rfl).andThen fun _ => (setInode_keeps i _).andThen fun _ => ?_
    exact .pure (by simp)

/-! ## Path resolution -/

def slotRef (i : Option Slot) : Counter → ℤ := i.elim 0 inodeRef

def entryRef (found : Option (Buf × Nat)) : Counter → ℤ := found.elim 0 fun place => bufRef place.1

@[simp] theorem slotRef_none : slotRef none = 0 := rfl
@[simp] theorem slotRef_some (i : Slot) : slotRef (some i) = inodeRef i := rfl
@[simp] theorem entryRef_none : entryRef none = 0 := rfl
@[simp] theorem entryRef_some (bh : Buf) (de : Nat) : entryRef (some (bh, de)) = bufRef bh := rfl

theorem release_takes (bh : Option Buf) : Takes (release ops bh) fun _ => -bh.elim 0 bufRef := by
  cases bh with
  | none => exact .pure (by simp)
  | some bh => exact brelse_takes bh

theorem ops_inode_keeps (i : Slot) : Keeps (ops.inode i) := (inodeOf_keeps i).andThen fun _ => .pure rfl

theorem ops_current_keeps : Keeps ops.current := get_keeps.andThen fun _ => .pure rfl

theorem ops_zf_keeps : Keeps ops.zf := get_keeps.andThen fun _ => .pure rfl

theorem ops_imount_keeps (dev : Nat) : Keeps (ops.imount dev) :=
  (getSuper_keeps dev).andThen fun _ => .pure rfl

theorem ops_text_keeps (bh : Buf) : Keeps (ops.text bh) := get_keeps.andThen fun _ => .pure rfl

theorem dotDot_takes (dir : Slot) (name : List Byte) :
    Takes (dotDot ops dir name) fun result => inodeRef result.1 - inodeRef dir := by
  have stays (name : List Byte) : Takes (pure (dir, name)) fun result : Slot × List Byte =>
      inodeRef result.1 - inodeRef dir := .pure (by simp)
  unfold dotDot
  refine .ite (fun _ => ?_) fun _ => stays name
  refine ops_current_keeps.andThen fun task => (ops_inode_keeps dir).andThen fun inode => ?_
  refine .ite (fun _ => stays DOT) fun _ => .ite (fun _ => ?_) fun _ => stays name
  refine (ops_imount_keeps _).andThen fun covered => ?_
  cases covered with
  | none => exact stays name
  | some covered =>
    exact (iput_takes dir).bind fun _ => (hold_takes covered).bind fun _ => .pure (by simp)

theorem nextBlock_takes (dir : Slot) (i : Nat) : Takes (nextBlock ops dir i) entryRef := by
  unfold nextBlock
  refine (_bmap_keeps dir _ false).andThen fun block => .ite (fun _ => .pure rfl) fun _ => ?_
  refine (ops_inode_keeps dir).andThen fun inode => (bread_takes _ _).bind fun bh => .pure ?_
  cases bh <;> simp

theorem nextEntry_takes (dir : Slot) (i : Nat) (bh : Option Buf) (de : Nat) :
    Takes (nextEntry ops dir i bh de) fun found => entryRef found - bh.elim 0 bufRef := by
  unfold nextEntry
  cases bh with
  | none => exact (nextBlock_takes dir i).of_eq fun _ => by simp
  | some bh =>
    refine .ite (fun _ => .pure (by simp)) fun _ => (brelse_takes bh).bind fun _ => ?_
    exact (nextBlock_takes dir i).of_eq fun _ => by simp

theorem findLoop_takes (dir : Slot) (name : List Byte) (entries rounds : Nat) :
    ∀ i bh de, Takes (findLoop ops dir name entries rounds i bh de)
      fun found => entryRef found - bh.elim 0 bufRef := by
  have nothing (bh : Option Buf) : Takes (do release ops bh; pure none) fun found =>
      entryRef found - bh.elim 0 bufRef := (release_takes bh).bind fun _ => .pure (by simp)
  induction rounds with
  | zero => exact fun _ bh _ => nothing bh
  | succ rounds ih =>
    intro i bh de
    unfold findLoop
    refine .ite (fun _ => ?_) fun _ => nothing bh
    refine (nextEntry_takes dir i bh de).bind fun place => ?_
    cases place with
    | none => exact (ih _ none de).of_eq fun _ => by simp
    | some place =>
      refine (dataOf_keeps place.1).andThen fun block => ops_zf_keeps.andThen fun zf => ?_
      refine .ite (fun _ => .pure (by simp [entryRef])) fun _ => ?_
      exact (ih _ (some place.1) _).of_eq fun _ => by simp [entryRef]

theorem findEntry_takes (dir : Slot) (name : List Byte) :
    Takes (findEntry ops dir name) fun result => entryRef result.2 + inodeRef result.1 - inodeRef dir := by
  unfold findEntry
  refine (ops_inode_keeps dir).andThen fun first => (dotDot_takes dir _).bind fun result => ?_
  obtain ⟨dir', name⟩ := result
  refine (ops_inode_keeps dir').andThen fun inode => .ite (fun _ => .pure (by simp)) fun _ => ?_
  refine (bread_takes _ _).bind fun bh => ?_
  cases bh with
  | none => exact .pure (by simp)
  | some bh => exact (findLoop_takes dir' name _ _ 0 (some bh) 0).bind fun found => .pure (by simp)

section Nested

variable {nested : Option (List Byte → Slot → Kernel (Option Slot))}

def NestedTakes (nested : Option (List Byte → Slot → Kernel (Option Slot))) : Prop :=
  ∀ namei ∈ nested, ∀ text dir, Takes (namei text dir) fun found => slotRef found - inodeRef dir

variable (inner : NestedTakes nested)
include inner

theorem followLink_takes (dir inode : Slot) :
    Takes (followLink ops nested dir inode) fun found => slotRef found - inodeRef dir - inodeRef inode := by
  have fails : Takes (giveUp ops dir inode) fun found => slotRef found - inodeRef dir - inodeRef inode :=
    (iput_takes dir).bind fun _ => (iput_takes inode).bind fun _ => .pure (by simp; abel)
  unfold followLink
  refine (ops_inode_keeps inode).andThen fun data => .ite (fun _ => ?_) fun _ => ?_
  · cases nested with
    | none => exact fails
    | some namei =>
      refine .ite (fun _ => fails) fun _ => (bread_takes _ _).bind fun bh => ?_
      cases bh with
      | none => exact fails.of_eq fun _ => by simp
      | some bh =>
        refine (iput_takes inode).bind fun _ => (ops_text_keeps bh).andThen fun text => ?_
        refine (inner namei rfl text dir).bind fun found => (brelse_takes bh).bind fun _ => .pure ?_
        simp
        abel
  · exact (iput_takes dir).bind fun _ => .pure (by simp)

omit inner in
theorem enterDir_takes (inode : Slot) :
    Takes (enterDir ops inode) fun found => slotRef found - inodeRef inode := by
  unfold enterDir
  refine (ops_inode_keeps inode).andThen fun data => ops_current_keeps.andThen fun task => ?_
  refine .ite (fun _ => .pure (by simp)) fun _ => ?_
  exact (iput_takes inode).bind fun _ => .pure (by simp)

theorem getDirStep_takes (inode : Slot) (thisname : List Byte) :
    Takes (getDirStep ops nested inode thisname) fun found => slotRef found - inodeRef inode := by
  unfold getDirStep
  refine (findEntry_takes inode thisname).bind fun result => ?_
  obtain ⟨dir, found⟩ := result
  cases found with
  | none => exact (iput_takes dir).bind fun _ => .pure (by simp; abel)
  | some place =>
    refine (dataOf_keeps place.1).andThen fun block => (brelse_takes place.1).bind fun _ => ?_
    refine (ops_inode_keeps dir).andThen fun data => (iget_takes _ _).bind fun child => ?_
    exact (followLink_takes inner dir child).of_eq fun found => by simp [entryRef]; abel

theorem getDirLoop_takes (pathname : List Byte) :
    ∀ thisname inode, Takes (getDirLoop ops nested pathname thisname inode)
      fun found => slotRef found - inodeRef inode := by
  induction pathname with
  | nil => exact fun _ inode => .pure (by simp)
  | cons c pathname ih =>
    intro thisname inode
    unfold getDirLoop
    refine .ite (fun _ => ?_) fun _ => ih _ inode
    refine (getDirStep_takes inner inode thisname).bind fun found => ?_
    cases found with
    | none => exact .pure (by simp)
    | some next =>
      refine (enterDir_takes next).bind fun found => ?_
      cases found with
      | none => exact .pure (by simp; abel)
      | some dir => exact (ih [] dir).of_eq fun _ => by simp

theorem getDir_takes (pathname : List Byte) (base : Option Slot) :
    Takes (getDir ops nested pathname base) fun found => slotRef found - slotRef base := by
  have entered (path : List Byte) (inode : Slot) :
      Takes (getDirFrom ops nested path inode) fun found => slotRef found - inodeRef inode := by
    unfold getDirFrom
    refine (enterDir_takes inode).bind fun found => ?_
    cases found with
    | none => exact .pure (by simp)
    | some dir => exact (getDirLoop_takes inner path [] dir).of_eq fun _ => by simp
  unfold getDir
  refine ops_current_keeps.andThen fun task => ?_
  have fromBase (inode : Slot) : Takes (do
      let (inode, pathname) ←
        if pathname.head? = some SLASH then do
          ops.iput inode
          ops.hold task.root
          pure (task.root, pathname.tail)
        else pure (inode, pathname)
      getDirFrom ops nested pathname inode) fun found => slotRef found - inodeRef inode := by
    refine .ite (fun _ => ?_) fun _ => ?_
    · refine (iput_takes inode).bind fun _ => (hold_takes task.root).bind fun _ => ?_
      exact (entered _ task.root).of_eq fun _ => by abel
    · exact entered pathname inode
  cases base with
  | none =>
    refine (hold_takes task.pwd).bind fun _ => ?_
    exact (fromBase task.pwd).of_eq fun _ => by simp
  | some inode => exact fromBase inode

theorem dirNamei_takes (pathname : List Byte) (base : Option Slot) :
    Takes (dirNamei ops nested pathname base) fun found => slotRef (found.map Prod.fst) - slotRef base := by
  unfold dirNamei
  refine (getDir_takes inner pathname base).bind fun dir => ?_
  cases dir with
  | none | some dir => exact .pure (by simp)

omit inner in
theorem touched_takes (found : Option Slot) :
    Takes (touched ops found) fun result => slotRef result - slotRef found := by
  cases found with
  | none => exact .pure (by simp)
  | some inode => exact (dirty_keeps inode).andThen fun _ => .pure (by simp)

theorem _namei_takes (pathname : List Byte) (base : Option Slot) (followLinks : Bool) :
    Takes (_namei ops nested pathname base followLinks) fun found => slotRef found - slotRef base := by
  unfold _namei
  refine (dirNamei_takes inner pathname base).bind fun found => ?_
  cases found with
  | none => exact .pure (by simp)
  | some found =>
    obtain ⟨dir, name⟩ := found
    refine .ite (fun _ => .pure (by simp)) fun _ => (findEntry_takes dir name).bind fun result => ?_
    obtain ⟨last, found⟩ := result
    cases found with
    | none => exact (iput_takes last).bind fun _ => .pure (by simp; abel)
    | some place =>
      refine (dataOf_keeps place.1).andThen fun block => (brelse_takes place.1).bind fun _ => ?_
      refine (ops_inode_keeps last).andThen fun data => (iget_takes _ _).bind fun child => ?_
      refine .ite (fun _ => ?_) fun _ => ?_
      · refine (followLink_takes inner last child).bind fun found => ?_
        refine (touched_takes found).of_eq fun result => ?_
        simp [entryRef]
        abel
      · refine (iput_takes last).bind fun _ => (touched_takes (some child)).of_eq fun result => ?_
        simp [entryRef]
        abel

end Nested

theorem userNested_takes : NestedTakes userNested := by
  intro namei isNamei text dir
  cases isNamei
  exact _namei_takes (fun _ isNone => by cases isNone) text (some dir) false

/-! ## New entries -/

theorem permit_keeps (i : Slot) (mask : Nat) : Keeps (permit i mask) := get_keeps.andThen fun _ => .pure rfl

theorem addBlock_takes (dir : Slot) (i : Nat) : Takes (addBlock dir i) fun place => entryRef place.join := by
  unfold addBlock
  refine (_bmap_keeps dir _ true).andThen fun block => .ite (fun _ => .pure rfl) fun _ => ?_
  refine (inodeOf_keeps dir).andThen fun inode => (bread_takes _ _).bind fun bh => .pure ?_
  cases bh <;> simp

theorem addPlace_takes (dir : Slot) (i : Nat) (bh : Option Buf) (de : Nat) :
    Takes (addPlace dir i bh de) fun place => entryRef place.join - bh.elim 0 bufRef := by
  unfold addPlace
  cases bh with
  | none => exact (addBlock_takes dir i).of_eq fun _ => by simp
  | some b =>
    refine .ite (fun _ => .pure (by simp)) fun _ => (brelse_takes b).bind fun _ => ?_
    exact (addBlock_takes dir i).of_eq fun _ => by simp

theorem nameEntry_keeps (dir : Slot) (name : List Byte) (bh : Buf) (de : Nat) :
    Keeps (nameEntry dir name bh de) := by
  unfold nameEntry
  refine get_keeps.andThen fun s => .ite (fun _ => ?_) fun _ => .pure rfl
  exact (setData_keeps dir _).andThen fun _ => (poke_keeps bh _ _).andThen fun _ => .pure rfl

theorem tryEntry_keeps (dir : Slot) (name : List Byte) (i : Nat) (bh : Buf) (de : Nat) :
    Keeps (tryEntry dir name i bh de) := by
  have named := nameEntry_keeps dir name bh de
  unfold tryEntry
  refine (inodeOf_keeps dir).andThen fun inode => .ite (fun _ => ?_) fun _ => named
  refine (setEntry_keeps bh de 0).andThen fun _ => (setData_keeps dir _).andThen fun _ => ?_
  exact (dirty_keeps dir).andThen fun _ => named

theorem addLoop_takes (dir : Slot) (name : List Byte) (rounds : Nat) :
    ∀ i bh de, Takes (addLoop dir name rounds i bh de) fun found => entryRef found - bh.elim 0 bufRef := by
  induction rounds with
  | zero => exact fun _ _ _ => stuck_takes
  | succ rounds ih =>
    intro i bh de
    unfold addLoop
    refine (addPlace_takes dir i bh de).bind fun place => ?_
    match place with
    | none => exact .pure (by simp)
    | some none => exact (ih _ none de).of_eq fun _ => by simp
    | some (some (b, de)) =>
      refine (tryEntry_keeps dir name i b de).andThen fun added => ?_
      exact .ite (fun _ => .pure (by simp)) fun _ => (ih _ (some b) _).of_eq fun _ => by simp

theorem addEntry_takes (dir : Slot) (name : List Byte) : Takes (addEntry dir name) entryRef := by
  unfold addEntry
  refine (inodeOf_keeps dir).andThen fun inode => .ite (fun _ => .pure rfl) fun _ => ?_
  refine (bread_takes _ _).bind fun bh => ?_
  cases bh with
  | none => exact .pure (by simp)
  | some bh => exact (addLoop_takes dir _ _ 0 (some bh) 0).of_eq fun _ => by simp

/-! ## The calls -/

theorem inDirectory_takes {α : Type} {pathname : List Byte} {noDir noName noWrite : α}
    {call : Slot → List Byte → Kernel α} (change : α → Counter → ℤ)
    (errors : change noDir = 0 ∧ change noName = 0 ∧ change noWrite = 0)
    (body : ∀ dir name, Takes (call dir name) fun result => change result - inodeRef dir) :
    Takes (inDirectory pathname noDir noName noWrite call) change := by
  unfold inDirectory
  refine (dirNamei_takes userNested_takes pathname none).bind fun found => ?_
  cases found with
  | none => exact .pure (by simp [errors])
  | some found =>
    obtain ⟨dir, name⟩ := found
    refine .ite (fun _ => ?_) fun _ => (permit_keeps dir MAY_WRITE).andThen fun ok => ?_
    · exact (iput_takes dir).bind fun _ => .pure (by simp [errors])
    · refine .ite (fun _ => (body dir name).of_eq fun _ => by simp) fun _ => ?_
      exact (iput_takes dir).bind fun _ => .pure (by simp [errors])

theorem changed_takes {inode : Slot} {f : DInode → DInode} {α : Type} {rest : Kernel α} {change : α → Counter → ℤ}
    (spec : Takes rest change) : Takes (setData inode f >>= fun _ => dirty inode >>= fun _ => rest) change :=
  (setData_keeps inode _).andThen fun _ => (dirty_keeps inode).andThen fun _ => spec

theorem discard_takes (dir inode : Slot) : Takes (discard dir inode) fun _ => -inodeRef dir - inodeRef inode := by
  unfold discard
  refine (iput_takes dir).bind fun _ => (setData_keeps inode _).andThen fun _ => ?_
  exact (iput_takes inode).of_eq fun _ => by abel

theorem sysMknod_keeps (filename : List Byte) (mode dev : Nat) : Keeps (sysMknod filename mode dev) := by
  unfold sysMknod
  refine get_keeps.andThen fun s => .ite (fun _ => .pure rfl) fun _ => ?_
  refine inDirectory_takes (fun _ => 0) ⟨rfl, rfl, rfl⟩ fun dir name => ?_
  refine (findEntry_takes dir name).bind fun result => ?_
  obtain ⟨dir', found⟩ := result
  cases found with
  | some place =>
    refine (brelse_takes place.1).bind fun _ => (iput_takes dir').bind fun _ => .pure ?_
    simp [entryRef]
    abel
  | none =>
    refine (inodeOf_keeps dir').andThen fun parent => (newInode_takes _).bind fun inode => ?_
    cases inode with
    | none => exact (iput_takes dir').bind fun _ => .pure (by simp; abel)
    | some inode =>
      refine changed_takes ?_
      refine (addEntry_takes dir' name).bind fun added => ?_
      cases added with
      | none =>
        refine (iput_takes dir').bind fun _ => (setData_keeps inode _).andThen fun _ => ?_
        exact (iput_takes inode).bind fun _ => .pure (by simp; abel)
      | some place =>
        refine (inodeOf_keeps inode).andThen fun child => (setEntry_keeps _ _ _).andThen fun _ => ?_
        refine (iput_takes dir').bind fun _ => (iput_takes inode).bind fun _ => ?_
        exact (brelse_takes place.1).bind fun _ => .pure (by simp [entryRef]; abel)

theorem sysMkdir_keeps (pathname : List Byte) (mode : Nat) : Keeps (sysMkdir pathname mode) := by
  unfold sysMkdir
  refine get_keeps.andThen fun s => ?_
  refine inDirectory_takes (fun _ => 0) ⟨rfl, rfl, rfl⟩ fun dir name => ?_
  refine (findEntry_takes dir name).bind fun result => ?_
  obtain ⟨dir', found⟩ := result
  cases found with
  | some place =>
    refine (brelse_takes place.1).bind fun _ => (iput_takes dir').bind fun _ => .pure ?_
    simp [entryRef]
    abel
  | none =>
    refine (inodeOf_keeps dir').andThen fun parent => (newInode_takes _).bind fun inode => ?_
    cases inode with
    | none => exact (iput_takes dir').bind fun _ => .pure (by simp; abel)
    | some inode =>
      refine changed_takes ?_
      refine (inodeOf_keeps inode).andThen fun child => (newBlock_keeps _).andThen fun block => ?_
      refine (setData_keeps inode _).andThen fun _ => .ite (fun _ => ?_) fun _ => ?_
      · exact (discard_takes dir' inode).bind fun _ => .pure (by simp; abel)
      refine (dirty_keeps inode).andThen fun _ => (bread_takes _ _).bind fun dirBlock => ?_
      cases dirBlock with
      | none => exact (discard_takes dir' inode).bind fun _ => .pure (by simp; abel)
      | some dirBlock =>
        refine (setEntry_keeps _ _ _).andThen fun _ => (poke_keeps _ _ _).andThen fun _ => ?_
        refine (setEntry_keeps _ _ _).andThen fun _ => (poke_keeps _ _ _).andThen fun _ => ?_
        refine (brelse_takes dirBlock).bind fun _ => (setData_keeps inode _).andThen fun _ => ?_
        refine (dirty_keeps inode).andThen fun _ => (addEntry_takes dir' name).bind fun added => ?_
        cases added with
        | none =>
          refine (iput_takes dir').bind fun _ => (setData_keeps inode _).andThen fun _ => ?_
          exact (iput_takes inode).bind fun _ => .pure (by simp; abel)
        | some place =>
          refine (setEntry_keeps _ _ _).andThen fun _ => (setData_keeps dir' _).andThen fun _ => ?_
          refine (dirty_keeps dir').andThen fun _ => (iput_takes dir').bind fun _ => ?_
          refine (iput_takes inode).bind fun _ => (brelse_takes place.1).bind fun _ => .pure ?_
          simp [entryRef]
          abel

theorem sysSymlink_keeps (oldname newname : List Byte) : Keeps (sysSymlink oldname newname) := by
  unfold sysSymlink
  refine get_keeps.andThen fun s => ?_
  refine inDirectory_takes (fun _ => 0) ⟨rfl, rfl, rfl⟩ fun dir name => ?_
  refine (inodeOf_keeps dir).andThen fun parent => (newInode_takes _).bind fun inode => ?_
  cases inode with
  | none => exact (iput_takes dir).bind fun _ => .pure (by simp)
  | some inode =>
    refine changed_takes ?_
    refine (inodeOf_keeps inode).andThen fun child => (newBlock_keeps _).andThen fun block => ?_
    refine (setData_keeps inode _).andThen fun _ => .ite (fun _ => ?_) fun _ => ?_
    · exact (discard_takes dir inode).bind fun _ => .pure (by simp)
    refine (dirty_keeps inode).andThen fun _ => (bread_takes _ _).bind fun nameBlock => ?_
    cases nameBlock with
    | none => exact (discard_takes dir inode).bind fun _ => .pure (by simp)
    | some nameBlock =>
      refine (poke_keeps _ _ _).andThen fun _ => (brelse_takes nameBlock).bind fun _ => ?_
      refine changed_takes ?_
      refine (findEntry_takes dir name).bind fun result => ?_
      obtain ⟨dir', found⟩ := result
      cases found with
      | some place =>
        refine (setData_keeps inode _).andThen fun _ => (iput_takes inode).bind fun _ => ?_
        refine (brelse_takes place.1).bind fun _ => (iput_takes dir').bind fun _ => .pure ?_
        simp [entryRef]
        abel
      | none =>
        refine (addEntry_takes dir' name).bind fun added => ?_
        cases added with
        | none =>
          refine (setData_keeps inode _).andThen fun _ => (iput_takes inode).bind fun _ => ?_
          exact (iput_takes dir').bind fun _ => .pure (by simp; abel)
        | some place =>
          refine (setEntry_keeps _ _ _).andThen fun _ => (brelse_takes place.1).bind fun _ => ?_
          refine (iput_takes dir').bind fun _ => (iput_takes inode).bind fun _ => .pure ?_
          simp [entryRef]
          abel

theorem namei_takes (pathname : List Byte) : Takes (namei ops pathname) slotRef :=
  (_namei_takes userNested_takes pathname none true).of_eq fun _ => by simp

theorem lnamei_takes (pathname : List Byte) : Takes (lnamei ops pathname) slotRef :=
  (_namei_takes userNested_takes pathname none false).of_eq fun _ => by simp

theorem sysLink_keeps (oldname newname : List Byte) : Keeps (sysLink oldname newname) := by
  unfold sysLink
  refine (namei_takes oldname).bind fun old => ?_
  cases old with
  | none => exact .pure (by simp)
  | some old =>
    refine (inodeOf_keeps old).andThen fun data => .ite (fun _ => ?_) fun _ => ?_
    · exact (iput_takes old).bind fun _ => .pure (by simp)
    refine (dirNamei_takes userNested_takes newname none).bind fun found => ?_
    cases found with
    | none => exact (iput_takes old).bind fun _ => .pure (by simp)
    | some found =>
      obtain ⟨dir, name⟩ := found
      have both (error : Int) : Takes (do iput dir; iput old; pure error : Kernel Int) fun _ =>
          -inodeRef dir - inodeRef old :=
        (iput_takes dir).bind fun _ => (iput_takes old).bind fun _ => .pure (by simp; abel)
      refine .ite (fun _ => ?_) fun _ => (inodeOf_keeps dir).andThen fun parent => ?_
      · exact (iput_takes old).bind fun _ => (iput_takes dir).bind fun _ => .pure (by simp; abel)
      refine .ite (fun _ => (both _).of_eq fun _ => by simp; abel) fun _ => ?_
      refine (permit_keeps dir _).andThen fun ok => .ite (fun _ => ?_) fun _ => ?_
      swap
      · exact (both _).of_eq fun _ => by simp; abel
      refine (findEntry_takes dir name).bind fun result => ?_
      obtain ⟨dir', found⟩ := result
      cases found with
      | some place =>
        refine (brelse_takes place.1).bind fun _ => (iput_takes dir').bind fun _ => ?_
        exact (iput_takes old).bind fun _ => .pure (by simp [entryRef]; abel)
      | none =>
        refine (addEntry_takes dir' name).bind fun added => ?_
        cases added with
        | none =>
          exact (iput_takes dir').bind fun _ => (iput_takes old).bind fun _ => .pure (by simp)
        | some place =>
          refine (setEntry_keeps _ _ _).andThen fun _ => (brelse_takes place.1).bind fun _ => ?_
          refine (iput_takes dir').bind fun _ => (setData_keeps old _).andThen fun _ => ?_
          refine (dirty_keeps old).andThen fun _ => (iput_takes old).bind fun _ => .pure ?_
          simp [entryRef]

theorem sysUnlink_keeps (name : List Byte) : Keeps (sysUnlink name) := by
  unfold sysUnlink
  refine inDirectory_takes (fun _ => 0) ⟨rfl, rfl, rfl⟩ fun dir name => ?_
  refine (findEntry_takes dir name).bind fun result => ?_
  obtain ⟨dir', found⟩ := result
  cases found with
  | none => exact (iput_takes dir').bind fun _ => .pure (by simp; abel)
  | some place =>
    refine (inodeOf_keeps dir').andThen fun parent => (dataOf_keeps place.1).andThen fun block => ?_
    refine (iget_takes _ _).bind fun inode => get_keeps.andThen fun s => .ite (fun _ => ?_) fun _ => ?_
    · refine (iput_takes dir').bind fun _ => (iput_takes inode).bind fun _ => ?_
      exact (brelse_takes place.1).bind fun _ => .pure (by simp [entryRef]; abel)
    refine .ite (fun _ => ?_) fun _ => ?_
    · refine (iput_takes inode).bind fun _ => (iput_takes dir').bind fun _ => ?_
      exact (brelse_takes place.1).bind fun _ => .pure (by simp [entryRef]; abel)
    refine (setData_keeps inode _).andThen fun _ => (setEntry_keeps _ _ _).andThen fun _ => ?_
    refine (brelse_takes place.1).bind fun _ => (setData_keeps inode _).andThen fun _ => ?_
    refine (dirty_keeps inode).andThen fun _ => (iput_takes inode).bind fun _ => ?_
    exact (iput_takes dir').bind fun _ => .pure (by simp [entryRef]; abel)

def openRef : Except Int Slot → Counter → ℤ
  | .ok inode => inodeRef inode
  | .error _ => 0

theorem openNamei_takes (pathname : List Byte) (flag mode : Nat) :
    Takes (openNamei pathname flag mode) openRef := by
  unfold openNamei
  refine get_keeps.andThen fun s => (dirNamei_takes userNested_takes pathname none).bind fun found => ?_
  cases found with
  | none => exact .pure (by simp [openRef])
  | some found =>
    obtain ⟨dir, name⟩ := found
    refine .ite (fun _ => ?_) fun _ => (findEntry_takes dir name).bind fun result => ?_
    · exact .ite (fun _ => .pure (by simp [openRef])) fun _ => (iput_takes dir).bind fun _ => .pure (by simp [openRef])
    obtain ⟨dir', found⟩ := result
    have fails (error : Int) : Takes (do iput dir'; pure (.error error) : Kernel (Except Int Slot))
        fun result => openRef result - inodeRef dir' :=
      (iput_takes dir').bind fun _ => .pure (by simp [openRef])
    cases found with
    | none =>
      refine .ite (fun _ => (fails _).of_eq fun _ => by simp [openRef]) fun _ => ?_
      refine (permit_keeps dir' _).andThen fun ok => .ite (fun _ => ?_) fun _ => ?_
      swap
      · exact (fails _).of_eq fun _ => by simp [openRef]
      refine (inodeOf_keeps dir').andThen fun parent => (newInode_takes _).bind fun inode => ?_
      cases inode with
      | none => exact (fails _).of_eq fun _ => by simp [openRef]
      | some inode =>
        refine changed_takes ?_
        refine (addEntry_takes dir' name).bind fun added => ?_
        cases added with
        | none =>
          refine (setData_keeps inode _).andThen fun _ => (iput_takes inode).bind fun _ => ?_
          exact (fails _).of_eq fun _ => by simp [openRef]
        | some place =>
          refine (inodeOf_keeps inode).andThen fun child => (setEntry_keeps _ _ _).andThen fun _ => ?_
          refine (brelse_takes place.1).bind fun _ => (iput_takes dir').bind fun _ => .pure ?_
          simp [entryRef, openRef]
    | some place =>
      refine (dataOf_keeps place.1).andThen fun block => (inodeOf_keeps dir').andThen fun parent => ?_
      refine (brelse_takes place.1).bind fun _ => .ite (fun _ => ?_) fun _ => ?_
      · exact (fails _).of_eq fun _ => by simp [entryRef, openRef]; abel
      refine (iget_takes _ _).bind fun target => ?_
      refine (followLink_takes userNested_takes dir' target).bind fun inode => ?_
      cases inode with
      | none => exact .pure (by simp [entryRef, openRef]; abel)
      | some inode =>
        refine (inodeOf_keeps inode).andThen fun child => (permit_keeps inode _).andThen fun ok => ?_
        refine .ite (fun _ => (iput_takes inode).bind fun _ => .pure ?_) fun _ => .ite (fun _ => ?_) fun _ => ?_
        · simp [entryRef, openRef]
          abel
        · exact (truncate_keeps inode).andThen fun _ => .pure (by simp [entryRef, openRef]; abel)
        · exact .pure (by simp [entryRef, openRef]; abel)

/-! ## `sys_rmdir` -/

def againRef (again : List Buf) : Counter → ℤ := (again.map bufRef).sum

@[simp] theorem againRef_nil : againRef [] = 0 := rfl

@[simp] theorem againRef_cons (bh : Buf) (again : List Buf) :
    againRef (bh :: again) = bufRef bh + againRef again := List.sum_cons

theorem emptyLoop_takes (inode : Slot) (len rounds : Nat) :
    ∀ nr bh de held again, held = true ∨ DIR_ENTRIES_PER_BLOCK ≤ de →
      Takes (emptyLoop inode len rounds nr bh de held again) fun result =>
        againRef again - againRef result.2 - if held then bufRef bh else 0 := by
  have finish (bh : Buf) (held : Bool) (again : List Buf) :
      Takes (do brelse bh; pure (true, if held then again else bh :: again)) fun result =>
        againRef again - againRef result.2 - if held then bufRef bh else 0 := by
    refine (brelse_takes bh).bind fun _ => .pure ?_
    cases held
    · simp
    · simp
  have found (bh : Buf) (again : List Buf) : Takes (do brelse bh; pure (false, again)) fun result =>
      againRef again - againRef result.2 - bufRef bh :=
    (brelse_takes bh).bind fun _ => .pure (by simp)
  induction rounds with
  | zero => exact fun _ bh _ held again _ => finish bh held again
  | succ rounds ih =>
    intro nr bh de held again place
    unfold emptyLoop
    refine .ite (fun _ => .ite (fun below => ?_) fun _ => ?_) fun _ => finish bh held again
    · have isHeld : held = true := place.resolve_right (by omega)
      subst isHeld
      refine (dataOf_keeps bh).andThen fun block => .ite (fun _ => ?_) fun _ => ?_
      · exact found bh again
      · exact ih (nr + 1) bh (de + 1) true again (.inl rfl)
    · refine (brelse_takes bh).bind fun _ => (_bmap_keeps inode _ false).andThen fun zone => ?_
      have logged (result : Bool × List Buf) :
          againRef (if held then again else bh :: again) - againRef result.2 =
            againRef again - againRef result.2 - (if held then bufRef bh else 0) - -bufRef bh := by
        cases held
        · simp
          abel
        · simp
      generalize (if held then again else bh :: again) = logs at logged ⊢
      refine (?_ : Takes _ fun result : Bool × List Buf => againRef logs - againRef result.2).of_eq logged
      refine .ite (fun _ => ?_) fun _ => (inodeOf_keeps inode).andThen fun data => ?_
      · exact (ih _ bh de false logs (.inr (by omega))).of_eq fun _ => by simp
      refine (bread_takes _ _).bind fun next => ?_
      cases next with
      | none => exact .pure (by simp)
      | some next =>
        refine (dataOf_keeps next).andThen fun block => .ite (fun _ => ?_) fun _ => ?_
        · exact (found next logs).of_eq fun _ => by simp
        · exact (ih (nr + 1) next 1 true logs (.inl rfl)).of_eq fun _ => by simp

def logRef (log : Bool × Option Buf × List Buf) : Counter → ℤ := log.2.1.elim 0 bufRef - againRef log.2.2

theorem emptyDirLog_takes (inode : Slot) : Takes (emptyDirLog inode) logRef := by
  unfold emptyDirLog
  refine (inodeOf_keeps inode).andThen fun data => .ite (fun _ => .pure (by simp [logRef])) fun _ => ?_
  refine (bread_takes _ _).bind fun bh => ?_
  cases bh with
  | none => exact .pure (by simp [logRef])
  | some bh =>
    refine (dataOf_keeps bh).andThen fun block => .ite (fun _ => ?_) fun _ => .pure (by simp [logRef])
    exact (emptyLoop_takes inode _ _ 2 bh 2 true [] (.inl rfl)).bind fun result => .pure (by simp [logRef])

theorem emptyDirLog_one {inode : Slot} {log : Bool × Option Buf × List Buf}
    (returned : emptyDirLog inode s = some (log, s')) : log.2.1 = none ∨ log.2.2 = [] := by
  obtain ⟨data, t, -, returned⟩ := bind_eq_some.mp returned
  split at returned
  · cases returned
    exact .inl rfl
  · obtain ⟨bh, u, -, returned⟩ := bind_eq_some.mp returned
    cases bh with
    | none =>
      cases returned
      exact .inl rfl
    | some bh =>
      obtain ⟨block, w, -, returned⟩ := bind_eq_some.mp returned
      split at returned
      · obtain ⟨result, x, -, returned⟩ := bind_eq_some.mp returned
        cases returned
        exact .inl rfl
      · cases returned
        exact .inr rfl

theorem againRef_nonneg (again : List Buf) (k : Counter) : 0 ≤ againRef again k := by
  induction again with
  | nil => simp
  | cons bh again ih =>
    have here : 0 ≤ bufRef bh k := by
      rw [bufRef, Pi.single_apply]
      split
      · exact Int.one_nonneg
      · exact Int.le_refl 0
    rw [againRef_cons, Pi.add_apply]
    exact Int.add_nonneg here ih

theorem logRef_eq_zero {log : Bool × Option Buf × List Buf} (one : log.2.1 = none ∨ log.2.2 = []) :
    logRef log = 0 ↔ log.2.1 = none ∧ log.2.2 = [] := by
  obtain ⟨empty, kept, again⟩ := log
  constructor
  · intro balanced
    cases kept with
    | some bh =>
      have nothing : again = [] := one.resolve_left (by simp)
      have at_ := congrFun balanced (.inr bh)
      simp [logRef, nothing, bufRef] at at_
    | none =>
      cases again with
      | nil => exact ⟨rfl, rfl⟩
      | cons bh again =>
        have at_ := congrFun balanced (.inr bh)
        have rest := againRef_nonneg again (.inr bh)
        simp [logRef, bufRef] at at_
        omega
  · rintro ⟨rfl, rfl⟩
    simp [logRef]

def foundRef : Except Int (Slot × Slot × Buf × Nat) → Counter → ℤ
  | .error _ => 0
  | .ok (dir, inode, bh, _) => inodeRef dir + inodeRef inode + bufRef bh

theorem rmdirFind_takes (name : List Byte) : Takes (rmdirFind name) foundRef := by
  unfold rmdirFind
  refine inDirectory_takes _ ⟨rfl, rfl, rfl⟩ fun dir name => ?_
  refine (findEntry_takes dir name).bind fun result => ?_
  obtain ⟨dir', found⟩ := result
  cases found with
  | none => exact (iput_takes dir').bind fun _ => .pure (by simp [foundRef]; abel)
  | some place =>
    refine (inodeOf_keeps dir').andThen fun parent => (dataOf_keeps place.1).andThen fun block => ?_
    refine (iget_takes _ _).bind fun inode => get_keeps.andThen fun s => .ite (fun _ => ?_) fun _ => ?_
    · refine (iput_takes dir').bind fun _ => (iput_takes inode).bind fun _ => ?_
      exact (brelse_takes place.1).bind fun _ => .pure (by simp [entryRef, foundRef]; abel)
    refine .ite (fun _ => ?_) fun _ => .ite (fun _ => ?_) fun _ => .ite (fun _ => ?_) fun _ => ?_
    · refine (iput_takes dir').bind fun _ => (iput_takes inode).bind fun _ => ?_
      exact (brelse_takes place.1).bind fun _ => .pure (by simp [entryRef, foundRef]; abel)
    · refine (iput_takes inode).bind fun _ => (iput_takes dir').bind fun _ => ?_
      exact (brelse_takes place.1).bind fun _ => .pure (by simp [entryRef, foundRef]; abel)
    · exact .pure (by simp [entryRef, foundRef]; abel)
    · refine (iput_takes inode).bind fun _ => (iput_takes dir').bind fun _ => ?_
      exact (brelse_takes place.1).bind fun _ => .pure (by simp [entryRef, foundRef]; abel)

/-- `empty_dir` keeps no buffer, and releases none that it has released already. -/
def State.Tidy (s : State) (inode : Slot) : Prop :=
  ∀ log t, emptyDirLog inode s = some (log, t) → log.2.1 = none ∧ log.2.2 = []

theorem rmdirEnd_takes (dir inode : Slot) (bh : Buf) (de : Nat) (empty : Bool) :
    Takes (rmdirEnd dir inode bh de empty) fun _ => -inodeRef dir - inodeRef inode - bufRef bh := by
  unfold rmdirEnd
  refine .ite (fun _ => ?_) fun _ => ?_
  · refine get_keeps.andThen fun s => (setEntry_keeps bh de 0).andThen fun _ => (brelse_takes bh).bind fun _ => ?_
    refine changed_takes ?_
    refine (setData_keeps dir _).andThen fun _ => (dirty_keeps dir).andThen fun _ => ?_
    exact (iput_takes dir).bind fun _ => (iput_takes inode).bind fun _ => .pure (by simp; abel)
  · refine (iput_takes inode).bind fun _ => (iput_takes dir).bind fun _ => ?_
    exact (brelse_takes bh).bind fun _ => .pure (by simp; abel)

theorem sysRmdir_keeps_iff {name : List Byte} {result : Int} (returned : sysRmdir name s = some (result, s')) :
    s'.refs = s.refs ↔ ∀ dir inode bh de t, rmdirFind name s = some (.ok (dir, inode, bh, de), t) → t.Tidy inode := by
  obtain ⟨found, t, first, returned⟩ := bind_eq_some.mp returned
  have foundRefs := rmdirFind_takes name _ _ _ first
  rw [first]
  cases found with
  | error error =>
    cases returned
    refine ⟨fun _ dir inode bh de t isOk => (by cases isOk), fun _ => ?_⟩
    rw [foundRefs, foundRef, add_zero]
  | ok found =>
    obtain ⟨dir, inode, bh, de⟩ := found
    obtain ⟨empty, u, emptied, ended⟩ := bind_eq_some.mp returned
    obtain ⟨log, w, logged, same⟩ := bind_eq_some.mp emptied
    cases same
    have total : s'.refs = s.refs + logRef log := by
      have endRefs : s'.refs = u.refs + (-inodeRef dir - inodeRef inode - bufRef bh) :=
        rmdirEnd_takes dir inode bh de _ _ _ _ ended
      rw [endRefs, emptyDirLog_takes inode _ _ _ logged, foundRefs, foundRef]
      abel
    rw [total, add_eq_left, logRef_eq_zero (emptyDirLog_one logged)]
    constructor
    · intro clean dir' inode' bh' de' t' isOk log' u' logged'
      cases isOk
      rw [logged] at logged'
      cases logged'
      exact clean
    · intro tidy
      exact tidy dir inode bh de t rfl log _ logged

/-! ## All calls -/

inductive Call where
  | namei (pathname : List Byte)
  | lnamei (pathname : List Byte)
  | openNamei (pathname : List Byte) (flag mode : Nat)
  | mknod (filename : List Byte) (mode dev : Nat)
  | mkdir (pathname : List Byte) (mode : Nat)
  | rmdir (name : List Byte)
  | unlink (name : List Byte)
  | symlink (oldname newname : List Byte)
  | link (oldname newname : List Byte)

def Call.run : Call → Kernel (Option Slot)
  | .namei pathname => Namei.namei ops pathname
  | .lnamei pathname => Namei.lnamei ops pathname
  | .openNamei pathname flag mode => Except.toOption <$> Naming.openNamei pathname flag mode
  | .mknod filename mode dev => (fun _ => none) <$> sysMknod filename mode dev
  | .mkdir pathname mode => (fun _ => none) <$> sysMkdir pathname mode
  | .rmdir name => (fun _ => none) <$> sysRmdir name
  | .unlink name => (fun _ => none) <$> sysUnlink name
  | .symlink oldname newname => (fun _ => none) <$> sysSymlink oldname newname
  | .link oldname newname => (fun _ => none) <$> sysLink oldname newname

/-- If the call is `sys_rmdir` and comes to `empty_dir`, the directory is tidy. -/
def Call.Tidy (s : State) : Call → Prop
  | .rmdir name => ∀ dir inode bh de t, rmdirFind name s = some (.ok (dir, inode, bh, de), t) → t.Tidy inode
  | _ => True

/-- The root directory has a directory `d`, whose first two entries are `heads`. -/
def sampleState (heads : List (Nat × List Byte)) : State where
  task :=
    { euid := 0
      egid := 0
      groups := []
      umask := 0
      root := ⟨0, InodeTable.NR_INODE_pos⟩
      pwd := ⟨0, InodeTable.NR_INODE_pos⟩ }
  zf := true
  now := 0
  table i :=
    if i.val = 0 then
      { Inode.zero with data := dirData 5 48, dev := 1, num := 1, count := 2 }
    else .zero
  lastInode := ⟨0, InodeTable.NR_INODE_pos⟩
  super k :=
    { dev := if k.val = 0 then 1 else 0, imount := if k.val = 0 then some ⟨0, InodeTable.NR_INODE_pos⟩ else none
      imapBlocks := 1, zmapBlocks := 1, ninodes := 10, nzones := 20, firstdatazone := 5 }
  imap _ num := num ≤ 2
  zmap _ k := k ≤ 2
  count _ := 0
  data bh :=
    if bh.block = 4 then fun i => if 32 ≤ i then ((recordBytes (dirData 6 32))[i - 32]?).getD 0 else 0
    else if bh.block = 5 then Namei.Block.ofEntries [(1, DOT), (1, DOTDOT), (2, [100])]
    else Namei.Block.ofEntries heads
  disk _ _ := 0
  behind _ := []
  blkSize _ := 0
  fails _ := false
  reads := 0

end Linux012.Fs.Naming

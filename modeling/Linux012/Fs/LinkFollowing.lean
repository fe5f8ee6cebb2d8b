import Linux012.Fs.PathResolution

/-! `_namei` with every use of an inode pointer checked: which links make it write through
the `NULL` that `follow_link` has returned. -/

set_option autoImplicit false

namespace Linux012.Fs.Namei

open Option (isNone_some bind_eq_bind bind_eq_some_iff bind_some)

/-! ## The calls with their pointers -/

inductive NullInode where
  | null
deriving DecidableEq

abbrev Checked (m : Type → Type) := ExceptT NullInode m

section Lookup

variable {m : Type → Type} [Monad m] {ι β : Type} [DecidableEq ι] (ops : Ops m ι β)

def use : Option ι → Checked m ι
  | none => throw .null
  | some inode => pure inode

def iputPointer : Option ι → Checked m Unit
  | none => pure ()
  | some inode => liftM (ops.iput inode)

def giveUpChecked (dir inode : Option ι) : Checked m (Option ι) := do
  iputPointer ops dir
  iputPointer ops inode
  pure none

def followLinkChecked (nested : Option (List Byte → Option ι → Checked m (Option ι))) (dir inode : Option ι) :
    Checked m (Option ι) := do
  let dir ← if dir.isNone then do
      let task ← ops.current
      ops.hold task.root
      pure (some task.root)
    else pure dir
  if inode.isNone then do
    iputPointer ops dir
    pure none
  else do
    let i ← use inode
    let data ← ops.inode i
    if data.isLnk then
      match nested with
      | none => giveUpChecked ops dir inode
      | some namei =>
        if data.data.zone 0 = 0 then giveUpChecked ops dir inode
        else
          match ← ops.bread data.dev (data.data.zone 0) with
          | none => giveUpChecked ops dir inode
          | some bh => do
            iputPointer ops inode
            let text ← ops.text bh
            let found ← namei text dir
            ops.brelse bh
            pure found
    else do
      iputPointer ops dir
      pure inode

variable (nested : Option (List Byte → Option ι → Checked m (Option ι)))

def enterDirChecked (inode : Option ι) : Checked m (Option ι) := do
  let i ← use inode
  liftM (enterDir ops i)

def getDirStepChecked (inode : Option ι) (thisname : List Byte) : Checked m (Option ι) := do
  let i ← use inode
  let (dir, found) ← liftM (findEntry ops i thisname)
  match found with
  | none => do
    iputPointer ops (some dir)
    pure none
  | some (bh, de) => do
    let block ← ops.data bh
    ops.brelse bh
    let data ← ops.inode dir
    let inode ← ops.iget data.dev (block.entry de).inode
    followLinkChecked ops nested (some dir) (some inode)

def getDirLoopChecked : List Byte → List Byte → Option ι → Checked m (Option ι)
  | [], _, inode => pure inode
  | c :: pathname, thisname, inode =>
    if c = SLASH then do
      let inode ← getDirStepChecked ops nested inode thisname
      if inode.isNone then pure none
      else do
        let inode ← enterDirChecked ops inode
        if inode.isNone then pure none else getDirLoopChecked pathname [] inode
    else getDirLoopChecked pathname (thisname ++ [c]) inode

def getDirFromChecked (pathname : List Byte) (inode : Option ι) : Checked m (Option ι) := do
  let inode ← enterDirChecked ops inode
  if inode.isNone then pure none else getDirLoopChecked ops nested pathname [] inode

def getDirChecked (pathname : List Byte) (base : Option ι) : Checked m (Option ι) := do
  let task ← ops.current
  let inode ← if base.isNone then do
      ops.hold task.pwd
      pure (some task.pwd)
    else pure base
  let (inode, pathname) ←
    if pathname.head? = some SLASH then do
      iputPointer ops inode
      ops.hold task.root
      pure (some task.root, pathname.tail)
    else pure (inode, pathname)
  getDirFromChecked ops nested pathname inode

def dirNameiChecked (pathname : List Byte) (base : Option ι) : Checked m (Option ι × List Byte) := do
  let dir ← getDirChecked ops nested pathname base
  pure (dir, basename pathname pathname)

def _nameiChecked (pathname : List Byte) (base : Option ι) (followLinks : Bool) : Checked m (Option ι) := do
  let (base, name) ← dirNameiChecked ops nested pathname base
  if base.isNone then pure none
  else if name = [] then pure base
  else do
    let i ← use base
    let (dir, found) ← liftM (findEntry ops i name)
    match found with
    | none => do
      iputPointer ops (some dir)
      pure none
    | some (bh, de) => do
      let block ← ops.data bh
      ops.brelse bh
      let data ← ops.inode dir
      let inode ← ops.iget data.dev (block.entry de).inode
      let inode ← if followLinks then followLinkChecked ops nested (some dir) (some inode)
        else do
          iputPointer ops (some dir)
          pure (some inode)
      -- i_atime and i_dirt, with no test of the pointer
      let i ← use inode
      ops.touch i
      pure inode

/-! ## What the callees do -/

section Callees

omit [DecidableEq ι] in
@[simp]
theorem use_some (inode : ι) : (use (some inode) : Checked m ι) = pure inode := rfl

omit [DecidableEq ι] in
@[simp]
theorem iputPointer_some (inode : ι) : iputPointer ops (some inode) = liftM (ops.iput inode) := rfl

inductive Agrees : Option (List Byte → Option ι → Checked m (Option ι)) →
    Option (List Byte → ι → m (Option ι)) → Prop where
  | none : Agrees none none
  | some {checked : List Byte → Option ι → Checked m (Option ι)} {plain : List Byte → ι → m (Option ι)}
      (same : ∀ text dir, checked text (some dir) = liftM (plain text dir)) : Agrees (some checked) (some plain)

variable [LawfulMonad m] {nested} {plain : Option (List Byte → ι → m (Option ι))}

omit [DecidableEq ι] in
theorem followLinkChecked_eq (agrees : Agrees nested plain) (dir inode : ι) :
    followLinkChecked ops nested (some dir) (some inode) = liftM (followLink ops plain dir inode) := by
  simp only [followLinkChecked, followLink, giveUpChecked, giveUp, isNone_some, Bool.false_eq_true, if_false,
    pure_bind, use_some, iputPointer_some, liftM_bind]
  refine bind_congr fun data => ?_
  split
  · cases agrees with
    | none => simp
    | some same =>
      simp only
      split
      · simp
      · simp only [liftM_bind]
        refine bind_congr fun bh => ?_
        cases bh with
        | none => simp
        | some bh => simp [same]
  · simp

theorem getDirStepChecked_eq (agrees : Agrees nested plain) (inode : ι) (thisname : List Byte) :
    getDirStepChecked ops nested (some inode) thisname = liftM (getDirStep ops plain inode thisname) := by
  simp only [getDirStepChecked, getDirStep, use_some, pure_bind, iputPointer_some, liftM_bind,
    followLinkChecked_eq ops agrees]
  refine bind_congr fun entry => ?_
  obtain ⟨dir, found⟩ := entry
  cases found with
  | none | some place => simp

omit [DecidableEq ι] in
theorem enterDirChecked_eq (inode : ι) : enterDirChecked ops (some inode) = liftM (enterDir ops inode) := by
  simp [enterDirChecked]

theorem getDirLoopChecked_eq (agrees : Agrees nested plain) (pathname thisname : List Byte) (inode : ι) :
    getDirLoopChecked ops nested pathname thisname (some inode) =
      liftM (getDirLoop ops plain pathname thisname inode) := by
  induction pathname generalizing thisname inode with
  | nil => simp [getDirLoopChecked, getDirLoop]
  | cons c pathname ih =>
    rw [getDirLoopChecked, getDirLoop]
    split
    · simp only [getDirStepChecked_eq ops agrees, liftM_bind]
      refine bind_congr fun next => ?_
      cases next with
      | none => simp
      | some next =>
        simp only [isNone_some, Bool.false_eq_true, if_false, enterDirChecked_eq, liftM_bind]
        refine bind_congr fun entered => ?_
        cases entered with
        | none => simp
        | some entered => simpa using ih [] entered
    · exact ih _ inode

theorem getDirFromChecked_eq (agrees : Agrees nested plain) (pathname : List Byte) (inode : ι) :
    getDirFromChecked ops nested pathname (some inode) = liftM (getDirFrom ops plain pathname inode) := by
  simp only [getDirFromChecked, enterDirChecked_eq, getDirFrom, liftM_bind]
  refine bind_congr fun entered => ?_
  cases entered with
  | none => simp
  | some entered => simpa using getDirLoopChecked_eq ops agrees pathname [] entered

theorem getDirChecked_eq (agrees : Agrees nested plain) (pathname : List Byte) (base : Option ι) :
    getDirChecked ops nested pathname base = liftM (getDir ops plain pathname base) := by
  simp only [getDirChecked, getDir, liftM_bind]
  refine bind_congr fun task => ?_
  cases base with
  | none =>
    simp only [Option.isNone_none, if_true, liftM_bind, pure_bind]
    refine bind_congr fun _ => ?_
    split
    · simp [getDirFromChecked_eq ops agrees]
    · simp [getDirFromChecked_eq ops agrees]
  | some inode =>
    simp only [isNone_some, Bool.false_eq_true, if_false, pure_bind]
    split
    · simp [getDirFromChecked_eq ops agrees]
    · simp [getDirFromChecked_eq ops agrees]

/-- `_namei` up to the inode whose fields it sets: nothing if it returns before that. -/
def nameiFound (plain : Option (List Byte → ι → m (Option ι))) (pathname : List Byte) (base : Option ι) :
    m (Option ι ⊕ ι × ι) := do
  match ← dirNamei ops plain pathname base with
  | none => pure (.inl none)
  | some (base, name) =>
    if name = [] then pure (.inl (some base))
    else
      let (dir, found) ← findEntry ops base name
      match found with
      | none => do
        ops.iput dir
        pure (.inl none)
      | some (bh, de) => do
        let block ← ops.data bh
        ops.brelse bh
        let data ← ops.inode dir
        let inode ← ops.iget data.dev (block.entry de).inode
        pure (.inr (dir, inode))

/-- The end of `_namei`, which has got an inode from a directory. -/
def nameiEnd (plain : Option (List Byte → ι → m (Option ι))) (followLinks : Bool) :
    Option ι ⊕ ι × ι → Checked m (Option ι)
  | .inl returned => pure returned
  | .inr (dir, inode) => do
    let inode ← if followLinks then liftM (followLink ops plain dir inode)
      else do
        iputPointer ops (some dir)
        pure (some inode)
    let i ← use inode
    ops.touch i
    pure inode

theorem _nameiChecked_eq (agrees : Agrees nested plain) (pathname : List Byte) (base : Option ι)
    (followLinks : Bool) :
    _nameiChecked ops nested pathname base followLinks =
      liftM (nameiFound ops plain pathname base) >>= nameiEnd ops plain followLinks := by
  simp only [_nameiChecked, dirNameiChecked, getDirChecked_eq ops agrees, nameiFound, dirNamei, liftM_bind,
    bind_assoc, pure_bind]
  refine bind_congr fun dir => ?_
  cases dir with
  | none => simp [nameiEnd]
  | some dir =>
    simp only [isNone_some, Bool.false_eq_true, if_false, use_some, pure_bind]
    by_cases empty : basename pathname pathname = []
    · simp [empty, nameiEnd]
    · simp only [if_neg empty, liftM_pure, pure_bind, liftM_bind, bind_assoc]
      refine bind_congr fun entry => ?_
      obtain ⟨dir, found⟩ := entry
      cases found with
      | none => simp [nameiEnd]
      | some place => simp [nameiEnd, followLinkChecked_eq ops agrees]

end Callees

end Lookup

section Calls

variable {m : Type → Type} [Monad m] {ι β : Type} [DecidableEq ι] (ops : Ops m ι β)

def linkNameiChecked (text : List Byte) (dir : Option ι) : Checked m (Option ι) :=
  _nameiChecked ops none text dir false

variable [LawfulMonad m]

/-- The end of `_namei` for a link that is not followed. -/
def linkEnd : Option ι ⊕ ι × ι → m (Option ι)
  | .inl returned => pure returned
  | .inr (dir, inode) => do
    ops.iput dir
    touched ops (some inode)

theorem linkNamei_eq (text : List Byte) (dir : ι) :
    linkNamei ops text dir = nameiFound ops none text (some dir) >>= linkEnd ops := by
  rw [linkNamei, _namei, nameiFound, bind_assoc]
  refine bind_congr fun found => ?_
  cases found with
  | none => simp [linkEnd]
  | some place =>
    by_cases empty : place.2 = []
    · simp [empty, linkEnd]
    · simp only [if_neg empty, bind_assoc]
      refine bind_congr fun entry => ?_
      obtain ⟨dir, found⟩ := entry
      cases found with
      | none | some place => simp [linkEnd]

omit [DecidableEq ι] in
theorem nameiEnd_unfollowed (e : Option ι ⊕ ι × ι) : nameiEnd ops none false e = liftM (linkEnd ops e) := by
  cases e with
  | inl returned => simp [nameiEnd, linkEnd]
  | inr place => simp [nameiEnd, linkEnd, touched]

theorem linkNameiChecked_eq (text : List Byte) (dir : ι) :
    linkNameiChecked ops text (some dir) = liftM (linkNamei ops text dir) := by
  rw [linkNameiChecked, _nameiChecked_eq ops .none, linkNamei_eq, liftM_bind]
  exact bind_congr fun e => nameiEnd_unfollowed ops e

def linkCalls (user : Bool) : Option (List Byte → Option ι → Checked m (Option ι)) :=
  if user then some (linkNameiChecked ops) else none

theorem linkCalls_agrees (user : Bool) :
    Agrees (linkCalls ops user) (if user then some (linkNamei ops) else none) := by
  cases user with
  | false => exact .none
  | true => exact .some (linkNameiChecked_eq ops)

end Calls

/-! ## A file system with links -/

structure FileTree extends Volumes where
  behind : Block → List Byte

namespace FileTree

variable (t : FileTree)

def text (b : Block) : List Byte := ((List.range BLOCK_SIZE).map b ++ t.behind b).takeWhile (· ≠ 0)

def ops : Ops Option Node Block := { t.toVolumes.ops with text := fun b => some (t.text b) }

@[simp] theorem ops_inode (n : Node) : t.ops.inode n = some (t.minode n) := rfl
@[simp] theorem ops_current : t.ops.current = some t.task := rfl
@[simp] theorem ops_iput (n : Node) : t.ops.iput n = some () := rfl
@[simp] theorem ops_bread (dev block : Nat) : t.ops.bread dev block = some (t.block dev block) := rfl
@[simp] theorem ops_brelse (b : Block) : t.ops.brelse b = some () := rfl
@[simp] theorem ops_text (b : Block) : t.ops.text b = some (t.text b) := rfl

def Searched (n : Node) : Prop := (t.minode n).isDir = true ∧ permission t.task (t.minode n) MAY_EXEC = true

def Missing (n : Node) (name : List Byte) : Prop := ∃ dir, findEntry t.ops n name = some (dir, none)

def Found (n : Node) (name : List Byte) (dir child : Node) : Prop :=
  ∃ b k, findEntry t.ops n name = some (dir, some (b, k)) ∧ t.iget dir.dev (b.entry k).inode = some child

abbrev Crossing := Node → Node → Option Node → Prop

variable (cross : Crossing)

inductive Steps (n : Node) (name : List Byte) : Option Node → Prop where
  | missing (missing : t.Missing n name) : Steps n name none
  | child {dir child : Node} (found : t.Found n name dir child) (plain : (t.minode child).isLnk = false) :
      Steps n name (some child)
  | link {dir link : Node} {r : Option Node} (found : t.Found n name dir link)
      (isLink : (t.minode link).isLnk = true) (crossed : cross dir link r) : Steps n name r

inductive Walks : Node → List (List Byte) → Option Node → Prop where
  | refused {n : Node} {names : List (List Byte)} (barred : ¬t.Searched n) : Walks n names none
  | arrived {n : Node} (searched : t.Searched n) : Walks n [] (some n)
  | lost {n : Node} {name : List Byte} {names : List (List Byte)} (searched : t.Searched n)
      (step : t.Steps cross n name none) : Walks n (name :: names) none
  | step {n next : Node} {name : List Byte} {names : List (List Byte)} {r : Option Node}
      (searched : t.Searched n) (step : t.Steps cross n name (some next)) (later : Walks next names r) :
      Walks n (name :: names) r

def start (path : List Byte) (base : Option Node) : Node :=
  if path.head? = some SLASH then t.task.root else base.getD t.task.pwd

/-- What `_namei` has got when a link could be at the end of the path: an inode in a
directory, or a result. -/
inductive Reaches (path : List Byte) (base : Option Node) : Option Node ⊕ Node × Node → Prop where
  | lost (walked : t.Walks cross (t.start path base) (Namespace.components path).dropLast none) :
      Reaches path base (.inl none)
  | dir {d : Node} (walked : t.Walks cross (t.start path base) (Namespace.components path).dropLast (some d))
      (empty : basename path path = []) : Reaches path base (.inl (some d))
  | missing {d : Node} (walked : t.Walks cross (t.start path base) (Namespace.components path).dropLast (some d))
      (named : basename path path ≠ []) (missing : t.Missing d (basename path path)) :
      Reaches path base (.inl none)
  | found {d dir child : Node}
      (walked : t.Walks cross (t.start path base) (Namespace.components path).dropLast (some d))
      (named : basename path path ≠ []) (found : t.Found d (basename path path) dir child) :
      Reaches path base (.inr (dir, child))

def kernelCrossing : Crossing := fun _ _ r => r = none

inductive UserCrossing (dir link : Node) : Option Node → Prop where
  | empty (noBlock : (t.inode link).zone 0 = 0) : UserCrossing dir link none
  | unreadable (isBlock : (t.inode link).zone 0 ≠ 0) (bad : t.block link.dev ((t.inode link).zone 0) = none) :
      UserCrossing dir link none
  | result {b : Block} {r : Option Node} (isBlock : (t.inode link).zone 0 ≠ 0)
      (read : t.block link.dev ((t.inode link).zone 0) = some b)
      (reached : t.Reaches kernelCrossing (t.text b) (some dir) (.inl r)) : UserCrossing dir link r
  | found {b : Block} {last child : Node} (isBlock : (t.inode link).zone 0 ≠ 0)
      (read : t.block link.dev ((t.inode link).zone 0) = some b)
      (reached : t.Reaches kernelCrossing (t.text b) (some dir) (.inr (last, child))) :
      UserCrossing dir link (some child)

def crossing (user : Bool) : Crossing := if user then t.UserCrossing else kernelCrossing

/-! ## Lookup with links -/

section Walks

variable {t cross} {plain : Option (List Byte → Node → Option (Option Node))}

def Crosses (t : FileTree) (plain : Option (List Byte → Node → Option (Option Node))) (cross : Crossing) : Prop :=
  ∀ dir link r, (t.minode link).isLnk = true → (followLink t.ops plain dir link = some r ↔ cross dir link r)

theorem followLink_file {dir child : Node} (file : (t.minode child).isLnk = false) :
    followLink t.ops plain dir child = some (some child) := by
  simp [followLink, file]

variable {n : Node}

theorem getDirStep_found {dir child : Node} {name : List Byte} (found : t.Found n name dir child) :
    getDirStep t.ops plain n name = followLink t.ops plain dir child := by
  obtain ⟨b, k, entry, got⟩ := found
  rw [getDirStep, entry]
  change (t.iget dir.dev (b.entry k).inode >>= fun child => followLink t.ops plain dir child) = _
  rw [got]
  rfl

variable {r : Option Node}

theorem getDirStep_iff (crosses : t.Crosses plain cross) {name : List Byte} :
    getDirStep t.ops plain n name = some r ↔ t.Steps cross n name r := by
  constructor
  · intro ran
    rw [getDirStep, bind_eq_bind, bind_eq_some_iff] at ran
    obtain ⟨⟨dir, found⟩, entry, ran⟩ := ran
    cases found with
    | none =>
      cases ran
      exact .missing ⟨dir, entry⟩
    | some place =>
      obtain ⟨b, k⟩ := place
      change (t.iget dir.dev (b.entry k).inode >>= fun child => followLink t.ops plain dir child) = some r at ran
      rw [bind_eq_bind, bind_eq_some_iff] at ran
      obtain ⟨child, got, ran⟩ := ran
      have found : t.Found n name dir child := ⟨b, k, entry, got⟩
      cases kind : (t.minode child).isLnk with
      | false =>
        rw [followLink_file kind] at ran
        cases ran
        exact .child found kind
      | true => exact .link found kind ((crosses dir child r kind).mp ran)
  · intro step
    cases step with
    | missing missing =>
      obtain ⟨dir, entry⟩ := missing
      rw [getDirStep, entry]
      rfl
    | child found kind => exact (getDirStep_found found).trans (followLink_file kind)
    | link found kind crossed => exact (getDirStep_found found).trans ((crosses _ _ r kind).mpr crossed)

theorem enterDir_searched (searched : t.Searched n) : enterDir t.ops n = some (some n) := by
  simp [enterDir, searched.1, searched.2]

theorem enterDir_barred (barred : ¬t.Searched n) : enterDir t.ops n = some none := by
  simp only [enterDir, ops_inode, ops_current, ops_iput, bind_eq_bind, bind_some]
  exact if_neg barred

theorem Walks.of_searched (searched : t.Searched n) (walked : t.Walks cross n [] r) : r = some n := by
  cases walked with
  | refused barred => exact absurd searched barred
  | arrived => rfl

theorem Walks.of_barred {names : List (List Byte)} (barred : ¬t.Searched n) :
    t.Walks cross n names r ↔ r = none := by
  constructor
  · intro walked
    cases walked with
    | refused => rfl
    | arrived searched | lost searched | step searched => exact absurd searched barred
  · rintro rfl
    exact .refused barred

theorem getDirLoop_iff (crosses : t.Crosses plain cross) (path : List Byte) :
    ∀ name n, t.Searched n →
      (getDirLoop t.ops plain path name n = some r ↔
        t.Walks cross n ((path.splitOn SLASH).modifyHead (name ++ ·)).dropLast r) := by
  induction path with
  | nil =>
    intro name n searched
    constructor
    · intro ran
      cases ran
      exact .arrived searched
    · intro walked
      rw [Walks.of_searched searched walked]
      rfl
  | cons c path ih =>
    intro name n searched
    by_cases letter : c = SLASH
    · subst letter
      obtain ⟨head, tail, parts⟩ := List.exists_cons_of_ne_nil (List.splitOn_ne_nil SLASH path)
      rw [getDirLoop, if_pos rfl, splitOn_slash, List.modifyHead_cons, List.append_nil, parts,
        List.dropLast_cons_cons]
      have later {next : Node} (searched : t.Searched next) :
          getDirLoop t.ops plain path [] next = some r ↔ t.Walks cross next (head :: tail).dropLast r := by
        rw [ih [] next searched, parts, List.modifyHead_cons, List.nil_append]
      constructor
      · intro ran
        rw [bind_eq_bind, bind_eq_some_iff] at ran
        obtain ⟨next, step, ran⟩ := ran
        rw [getDirStep_iff crosses] at step
        cases next with
        | none =>
          cases ran
          exact .lost searched step
        | some next =>
          refine .step searched step ?_
          by_cases inner : t.Searched next
          · simp only [enterDir_searched inner] at ran
            exact (later inner).mp ran
          · simp only [enterDir_barred inner] at ran
            cases ran
            exact .refused inner
      · intro walked
        cases walked with
        | refused barred => exact absurd searched barred
        | lost _ step =>
          rw [(getDirStep_iff crosses).mpr step]
          rfl
        | @step _ next _ _ _ _ step walked =>
          rw [(getDirStep_iff crosses).mpr step]
          by_cases inner : t.Searched next
          · simp only [bind_eq_bind, bind_some, enterDir_searched inner]
            exact (later inner).mpr walked
          · rw [(Walks.of_barred inner).mp walked]
            simp only [bind_eq_bind, bind_some, enterDir_barred inner]
            rfl
    · rw [getDirLoop, if_neg letter, splitOn_letter letter]
      exact ih (name ++ [c]) n searched

theorem getDir_iff (crosses : t.Crosses plain cross) (path : List Byte) (base : Option Node) :
    getDir t.ops plain path base = some r ↔
      t.Walks cross (t.start path base) (Namespace.components path).dropLast r := by
  have from_ (text : List Byte) (n : Node) :
      getDirFrom t.ops plain text n = some r ↔ t.Walks cross n (text.splitOn SLASH).dropLast r := by
    unfold getDirFrom
    by_cases searched : t.Searched n
    · have loop := getDirLoop_iff crosses text (r := r) [] n searched
      obtain ⟨head, tail, parts⟩ := List.exists_cons_of_ne_nil (List.splitOn_ne_nil SLASH text)
      rw [parts, List.modifyHead_cons, List.nil_append, ← parts] at loop
      rw [enterDir_searched searched]
      exact loop
    · rw [enterDir_barred searched, Walks.of_barred searched]
      exact ⟨fun ran => by cases ran; rfl, fun same => by rw [same]; rfl⟩
  unfold getDir Namespace.components start
  cases base with
  | none =>
    by_cases absolute : path.head? = some SLASH
    · simp only [if_pos absolute]
      exact from_ path.tail t.task.root
    · simp only [if_neg absolute]
      exact from_ path t.task.pwd
  | some inode =>
    by_cases absolute : path.head? = some SLASH
    · simp only [if_pos absolute]
      exact from_ path.tail t.task.root
    · simp only [if_neg absolute]
      exact from_ path inode

theorem nameiFound_iff (crosses : t.Crosses plain cross) (path : List Byte) (base : Option Node)
    {e : Option Node ⊕ Node × Node} :
    nameiFound t.ops plain path base = some e ↔ t.Reaches cross path base e := by
  constructor
  · intro ran
    rw [nameiFound, dirNamei, bind_eq_bind, bind_eq_some_iff] at ran
    obtain ⟨place, ended, ran⟩ := ran
    rw [bind_eq_bind, bind_eq_some_iff] at ended
    obtain ⟨d, got, ended⟩ := ended
    have walked := (getDir_iff crosses path base).mp got
    cases d with
    | none =>
      cases ended
      cases ran
      exact .lost walked
    | some d =>
      cases ended
      by_cases empty : basename path path = []
      · simp only [if_pos empty] at ran
        cases ran
        exact .dir walked empty
      · simp only [if_neg empty] at ran
        rw [bind_eq_bind, bind_eq_some_iff] at ran
        obtain ⟨⟨dir, found⟩, entry, ran⟩ := ran
        cases found with
        | none =>
          cases ran
          exact .missing walked empty ⟨dir, entry⟩
        | some place =>
          obtain ⟨b, k⟩ := place
          change (t.iget dir.dev (b.entry k).inode >>= fun child => some (.inr (dir, child))) = some e at ran
          rw [bind_eq_bind, bind_eq_some_iff] at ran
          obtain ⟨child, got, ran⟩ := ran
          cases ran
          exact .found walked empty ⟨b, k, entry, got⟩
  · intro reached
    cases reached with
    | lost walked =>
      rw [nameiFound, dirNamei, (getDir_iff crosses path base).mpr walked]
      rfl
    | dir walked empty =>
      rw [nameiFound, dirNamei, (getDir_iff crosses path base).mpr walked]
      exact if_pos empty
    | missing walked named missing =>
      obtain ⟨dir, entry⟩ := missing
      rw [nameiFound, dirNamei, (getDir_iff crosses path base).mpr walked]
      refine (if_neg named).trans ?_
      rw [entry]
      rfl
    | @found d dir child walked named found =>
      obtain ⟨b, k, entry, got⟩ := found
      rw [nameiFound, dirNamei, (getDir_iff crosses path base).mpr walked]
      refine (if_neg named).trans ?_
      rw [entry]
      change (t.iget dir.dev (b.entry k).inode >>= fun child => some (Sum.inr (dir, child))) = _
      rw [got]
      rfl

theorem kernel_crosses : t.Crosses none kernelCrossing := by
  intro dir link r isLink
  simp only [followLink, giveUp, ops_inode, ops_iput, bind_eq_bind, bind_some, Option.pure_def, isLink,
    if_true, Option.some.injEq, kernelCrossing]
  exact eq_comm

theorem linkNamei_iff (text : List Byte) (dir : Node) :
    linkNamei t.ops text dir = some r ↔
      t.Reaches kernelCrossing text (some dir) (.inl r) ∨
        ∃ last child, t.Reaches kernelCrossing text (some dir) (.inr (last, child)) ∧ r = some child := by
  rw [linkNamei_eq, bind_eq_bind, bind_eq_some_iff]
  simp only [nameiFound_iff kernel_crosses]
  constructor
  · rintro ⟨e, reached, ended⟩
    cases e with
    | inl returned =>
      cases ended
      exact .inl reached
    | inr place =>
      cases ended
      exact .inr ⟨place.1, place.2, reached, rfl⟩
  · rintro (reached | ⟨last, child, reached, rfl⟩)
    · exact ⟨_, reached, rfl⟩
    · exact ⟨_, reached, rfl⟩

theorem user_crosses : t.Crosses (some (linkNamei t.ops)) t.UserCrossing := by
  intro dir link r isLink
  have zone : (t.minode link).data.zone 0 = (t.inode link).zone 0 := rfl
  have dev : (t.minode link).dev = link.dev := rfl
  simp only [followLink, giveUp, ops_inode, ops_bread, ops_iput, ops_text, ops_brelse, zone, dev, bind_eq_bind,
    bind_some, Option.pure_def, isLink, if_true]
  by_cases noBlock : (t.inode link).zone 0 = 0
  · rw [if_pos noBlock]
    constructor
    · intro ran
      cases ran
      exact .empty noBlock
    · intro crossed
      cases crossed with
      | empty => rfl
      | unreadable isBlock | result isBlock | found isBlock => exact absurd noBlock isBlock
  · rw [if_neg noBlock]
    cases block : t.block link.dev ((t.inode link).zone 0) with
    | none =>
      constructor
      · intro ran
        cases ran
        exact .unreadable noBlock block
      · intro crossed
        cases crossed with
        | empty isNone => exact absurd isNone noBlock
        | unreadable => rfl
        | result _ isSome | found _ isSome => cases block.symm.trans isSome
    | some b =>
      simp only [Option.bind_fun_some, linkNamei_iff]
      constructor
      · rintro (reached | ⟨last, child, reached, rfl⟩)
        · exact .result noBlock block reached
        · exact .found noBlock block reached
      · intro crossed
        cases crossed with
        | empty isNone => exact absurd isNone noBlock
        | unreadable _ isNone => cases block.symm.trans isNone
        | result _ isSome reached =>
          cases block.symm.trans isSome
          exact .inl reached
        | found _ isSome reached =>
          cases block.symm.trans isSome
          exact .inr ⟨_, _, reached, rfl⟩

theorem crossing_crosses (user : Bool) :
    t.Crosses (if user then some (linkNamei t.ops) else none) (t.crossing user) := by
  cases user with
  | false => exact kernel_crosses
  | true => exact user_crosses

end Walks

end FileTree

section Null

variable {t : FileTree} {plain : Option (List Byte → Node → Option (Option Node))}

theorem nameiEnd_null_iff {cross : FileTree.Crossing} (crosses : t.Crosses plain cross) {followLinks : Bool}
    {e : Option Node ⊕ Node × Node} :
    (nameiEnd t.ops plain followLinks e).run = some (.error .null) ↔
      followLinks = true ∧ ∃ dir link, e = .inr (dir, link) ∧ (t.minode link).isLnk = true ∧ cross dir link none := by
  cases e with
  | inl returned => simp [nameiEnd]
  | inr place =>
    obtain ⟨dir, link⟩ := place
    have ended : (nameiEnd t.ops plain followLinks (.inr (dir, link))).run =
        (if followLinks then followLink t.ops plain dir link else some (some link)).map
          fun found => found.elim (.error .null) fun inode => .ok (some inode) := by
      cases followLinks with
      | false => rfl
      | true =>
        simp only [nameiEnd, if_true]
        rcases followLink t.ops plain dir link with _ | _ | inode
        · rfl
        · rfl
        · rfl
    rw [ended]
    constructor
    · intro null
      obtain ⟨found, ran, isNull⟩ := Option.map_eq_some_iff.mp null
      cases found with
      | some inode => cases isNull
      | none =>
        cases followLinks with
        | false => cases ran
        | true =>
          cases kind : (t.minode link).isLnk with
          | false => cases ran.symm.trans (FileTree.followLink_file kind)
          | true => exact ⟨rfl, dir, link, rfl, kind, (crosses dir link none kind).mp ran⟩
    · rintro ⟨isSet, _, _, same, isLink, lost⟩
      cases same
      rw [if_pos isSet, (crosses dir link none isLink).mpr lost]
      rfl

end Null

/-- `_namei` uses an inode pointer that is `NULL` just when it follows a link at the end of
the path that leads to no inode. -/
theorem namei_null_iff (t : FileTree) (user followLinks : Bool) (path : List Byte) (base : Option Node) :
    (_nameiChecked t.ops (linkCalls t.ops user) path base followLinks).run ≠ some (.error .null) ↔
      (followLinks = true → ∀ dir link, t.Reaches (t.crossing user) path base (.inr (dir, link)) →
        (t.minode link).isLnk = true → ¬t.crossing user dir link none) := by
  have crosses := FileTree.crossing_crosses (t := t) user
  have ran : (_nameiChecked t.ops (linkCalls t.ops user) path base followLinks).run =
    (nameiFound t.ops (if user then some (linkNamei t.ops) else none) path base).bind fun e =>
      (nameiEnd t.ops (if user then some (linkNamei t.ops) else none) followLinks e).run := by
    rw [_nameiChecked_eq t.ops (linkCalls_agrees t.ops user)]
    generalize nameiFound t.ops (if user then some (linkNamei t.ops) else none) path base = found
    cases found with
    | none | some e => rfl
  rw [ne_eq, ran, bind_eq_some_iff]
  simp only [FileTree.nameiFound_iff crosses, nameiEnd_null_iff crosses]
  constructor
  · intro safe isSet dir link reached isLink lost
    exact safe ⟨_, reached, isSet, dir, link, rfl, isLink, lost⟩
  · rintro safe ⟨e, reached, isSet, dir, link, rfl, isLink, lost⟩
    exact safe isSet dir link reached isLink lost

/-! ## A link to nothing -/

def danglingTree : FileTree where
  zf := true
  task := { euid := 0, egid := 0, groups := [], umask := 0, root := rootNode, pwd := rootNode }
  super := [⟨1, some rootNode⟩]
  inode n :=
    if n = rootNode then dirData 1 48
    else { dirData 2 1 with mode := 0o120777, nlinks := 1 }
  mount _ := false
  block _ zone :=
    if zone = 1 then some (.ofEntries [(1, DOT), (1, DOTDOT), (2, [108])])
    else some fun i => if i = 0 then 120 else 0
  behind _ := []

theorem dangling_link_null :
    ¬∀ (t : FileTree) (user followLinks : Bool) (path : List Byte) (base : Option Node),
      (_nameiChecked t.ops (linkCalls t.ops user) path base followLinks).run ≠ some (.error .null) :=
  fun safe => safe danglingTree true true [108] none (by decide +kernel)

end Linux012.Fs.Namei

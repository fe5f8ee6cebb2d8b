import Linux012.Kernel.Signal
import Linux012.Lib.IntrusiveList

/-! The links between a task and its relatives, which `copy_process`, `do_exit` and
`release` keep and `audit_ptree` checks. A task is named by the address of its
page. -/

set_option autoImplicit false

namespace Linux012.Kernel.ProcessTree

open IntrusiveList Function

abbrev Slot := Fin NR_TASKS

def initSlot : Slot := ⟨1, by decide⟩

def initTask : Nat := 0

/-- `reaping` is the zombie that a task has found in `sys_waitpid`, as long as it is in
`put_fs_long`; `fault` is set when a NULL pointer is followed, or by the panic of
`release`. -/
structure Tree where
  task : Slot → Option Nat
  pptr : Nat → Option Nat
  cptr : Nat → Option Nat
  ysptr : Nat → Option Nat
  osptr : Nat → Option Nat
  zombie : Nat → Bool
  reaping : Nat → Option Nat
  fault : Bool

inductive Move where
  /-- the task `p` makes one on the free page `a`, in the slot `q` -/
  | fork (p : Nat) (q : Slot) (a : Nat)
  | exit (p : Nat)
  /-- `sys_waitpid` of `p` finds the zombie `q` -/
  | waitpid (p q : Nat)
  | release (p : Nat)

/-- The texts of `audit_ptree`. -/
inductive Warning where
  | parentBad
  | childBad
  | ysBad
  | osBad
  | parentSelf
  | childSelf
  | ysSelf
  | osSelf
  | osParent
  | osMismatched
  | ysParent
  | ysMismatched
  | childMismatched
  | childNotYoungest
deriving DecidableEq

namespace Tree

def InTask (t : Tree) (p : Nat) : Prop := ∃ i, t.task i = some p

instance (t : Tree) (p : Nat) : Decidable (t.InTask p) := inferInstanceAs (Decidable (∃ i, t.task i = some p))

def Running (t : Tree) (p : Nat) : Prop := t.InTask p ∧ t.zombie p = false ∧ t.reaping p = none

instance (t : Tree) (p : Nat) : Decidable (t.Running p) := instDecidableAnd

/-- The links that `copy_process` sets. -/
def fork (t : Tree) (p : Nat) (q : Slot) (a : Nat) : Tree :=
  { t with
    task := update t.task q (some a)
    pptr := update t.pptr a (some p)
    cptr := update (update t.cptr a none) p (some a)
    ysptr := storeAt (update t.ysptr a none) (t.cptr p) (some a)
    osptr := update t.osptr a (t.cptr p)
    zombie := update t.zombie a false
    reaping := update t.reaping a none }

/-- The end of the loop in `do_exit`, at the oldest child. -/
def linkToInit (t : Tree) (current p : Nat) : Tree :=
  match t.task initSlot with
  | none => { t with fault := true }
  | some init =>
    match t.cptr init with
    | none => { t with fault := true }
    | some first =>
      { t with
        osptr := update t.osptr p (some first)
        ysptr := update t.ysptr first (some p)
        cptr := update (update t.cptr init (t.cptr current)) current none }

/-- The loop over the children from `p` on; there are no more than `fuel`. -/
def adopt (current : Nat) : Nat → Nat → Tree → Tree
  | 0, _, t => t
  | fuel + 1, p, t =>
    let t := { t with pptr := update t.pptr p (t.task initSlot) }
    match t.osptr p with
    | some older => adopt current fuel older t
    | none => t.linkToInit current p

def exit (t : Tree) (p : Nat) : Tree :=
  let t := { t with
    zombie := update t.zombie p true
    reaping := update t.reaping p none }
  match t.cptr p with
  | some child => adopt p NR_TASKS child t
  | none => t

/-- The children that `sys_waitpid` looks at, from a link on. -/
def childrenFrom (t : Tree) : Nat → Option Nat → List Nat
  | 0, _ => []
  | _ + 1, none => []
  | fuel + 1, some p => p :: t.childrenFrom fuel (t.osptr p)

def children (t : Tree) (p : Nat) : List Nat := t.childrenFrom NR_TASKS (t.cptr p)

def unlinkOlder (t : Tree) (p : Nat) : Tree :=
  match t.osptr p with
  | some older => { t with ysptr := update t.ysptr older (t.ysptr p) }
  | none => t

def unlinkYounger (t : Tree) (p : Nat) : Tree :=
  match t.ysptr p with
  | some younger => { t with osptr := update t.osptr younger (t.osptr p) }
  | none =>
    match t.pptr p with
    | some parent => { t with cptr := update t.cptr parent (t.osptr p) }
    | none => { t with fault := true }

def unlink (t : Tree) (p : Nat) : Tree := (t.unlinkOlder p).unlinkYounger p

def findTask (t : Tree) (p : Nat) : Option Slot :=
  (List.finRange NR_TASKS).find? fun i => decide (i.val ≠ 0) && t.task i == some p

def release (t : Tree) (current p : Nat) : Tree :=
  if p = current then t
  else match t.findTask p with
    | some i => { t with task := update t.task i none }.unlink p
    | none => { t with fault := true }

/-- `main` makes one task, which is the first and does not exit. -/
def step (t : Tree) : Move → Option Tree
  | .fork p q a =>
    if t.Running p ∧ q.val ≠ 0 ∧ t.task q = none ∧ ¬t.InTask a ∧ (p = initTask → q = initSlot) then
      some (t.fork p q a)
    else none
  | .exit p =>
    if t.InTask p ∧ t.zombie p = false ∧ p ≠ initTask ∧ t.task initSlot ≠ some p then some (t.exit p)
    else none
  | .waitpid p q =>
    if t.Running p ∧ q ∈ t.children p ∧ t.zombie q = true then
      some { t with reaping := update t.reaping p (some q) }
    else none
  | .release p =>
    if t.InTask p then
      (t.reaping p).map fun q => { t with reaping := update t.reaping p none }.release p q
    else none

def boot : Tree where
  task := fun i => if i.val = 0 then some initTask else none
  pptr := fun _ => some initTask
  cptr := fun _ => none
  ysptr := fun _ => none
  osptr := fun _ => none
  zombie := fun _ => false
  reaping := fun _ => none
  fault := false

/-! ## The audit -/

def badTaskPtr (t : Tree) (p : Option Nat) : Bool :=
  match p with
  | none => false
  | some p => decide (¬t.InTask p)

def warnIf (bad : Prop) [Decidable bad] (text : Warning) : List Warning := if bad then [text] else []

@[simp] theorem warnIf_eq_nil (bad : Prop) [Decidable bad] (text : Warning) : warnIf bad text = [] ↔ ¬bad := by
  simp [warnIf]

def auditLinks (t : Tree) (p : Nat) : List Warning :=
  warnIf (t.badTaskPtr (t.pptr p)) .parentBad ++
  warnIf (t.badTaskPtr (t.cptr p)) .childBad ++
  warnIf (t.badTaskPtr (t.ysptr p)) .ysBad ++
  warnIf (t.badTaskPtr (t.osptr p)) .osBad ++
  warnIf (t.pptr p = some p) .parentSelf ++
  warnIf (t.cptr p = some p) .childSelf ++
  warnIf (t.ysptr p = some p) .ysSelf ++
  warnIf (t.osptr p = some p) .osSelf

def auditOlder (t : Tree) (p : Nat) : List Warning :=
  match t.osptr p with
  | none => []
  | some older =>
    warnIf (t.pptr p ≠ t.pptr older) .osParent ++
    warnIf (t.ysptr older ≠ some p) .osMismatched

def auditYounger (t : Tree) (p : Nat) : List Warning :=
  match t.ysptr p with
  | none => []
  | some younger =>
    warnIf (t.pptr p ≠ t.pptr younger) .ysParent ++
    warnIf (t.osptr younger ≠ some p) .ysMismatched

def auditChild (t : Tree) (p : Nat) : List Warning :=
  match t.cptr p with
  | none => []
  | some child =>
    warnIf (t.pptr child ≠ some p) .childMismatched ++
    warnIf (t.ysptr child ≠ none) .childNotYoungest

def auditPtree (t : Tree) : List Warning :=
  (List.finRange NR_TASKS).flatMap fun i =>
    if i.val = 0 then []
    else match t.task i with
      | none => []
      | some p => t.auditLinks p ++ t.auditOlder p ++ t.auditYounger p ++ t.auditChild p

/-- A list of tasks is what `p_cptr` leads to along `p_osptr`, and back along
`p_ysptr`. -/
def Lists (t : Tree) (parent : Nat) (kids : List Nat) : Prop :=
  Chain t.osptr t.ysptr (t.cptr parent) none kids ∧ kids.Nodup

structure Good (t : Tree) : Prop where
  silent : t.auditPtree = []
  lists : ∀ a, t.InTask a →
    ∃ kids, t.Lists a kids ∧ ∀ b, b ∈ kids ↔ t.InTask b ∧ b ≠ initTask ∧ t.pptr b = some a
  inTask : ∀ a b, t.InTask a →
    t.pptr a = some b ∨ t.cptr a = some b ∨ t.ysptr a = some b ∨ t.osptr a = some b → t.InTask b
  noZombieParent : ∀ a b, t.InTask a → t.zombie a = false → t.pptr a = some b → t.zombie b = false
  noFault : t.fault = false

end Tree

end Linux012.Kernel.ProcessTree

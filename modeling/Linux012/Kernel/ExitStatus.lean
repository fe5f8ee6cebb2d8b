import Linux012.Kernel.Exit
import Linux012.Lib.Updates

/-! Exit statuses: what a zombie keeps for its father, and what the signals do to it. -/

set_option autoImplicit false

namespace Linux012.Kernel.Exit

open Transition Updates Function List
open Option (map_eq_some_iff bind_eq_some_iff)

/-! ## What the statuses depend on -/

structure Core where
  id : Nat
  parent : Slot
  children : List Slot
  waiting : Waiting
  dead : Bool

structure View where
  core : Slot → Option Core
  exits : List (Nat × Word)
  reports : List Report
  nextId : Nat

def Process.core (process : Process) : Core where
  id := process.id
  parent := process.task.parent
  children := process.children
  waiting := process.waiting
  dead := decide (process.task.state = .zombie)

namespace System

def view (s : System) : View where
  core := fun q => (s.proc q).map Process.core
  exits := s.exits
  reports := s.reports
  nextId := s.nextId

def told (s : System) (q : Slot) : Option (Nat × Word) :=
  (s.proc q).bind fun process =>
    if process.task.state = .zombie then some (process.id, process.task.exitCode) else none

end System

theorem send_parent (task : Task) (sig : Nat) : (task.send sig).parent = task.parent := by
  simp only [Task.send, apply_ite Task.parent, ite_self]

theorem send_state (task : Task) (sig : Nat) :
    (task.send sig).state =
      if sig = SIGKILL ∨ sig = SIGCONT then if task.state = .stopped then .running else task.state
      else task.state := by
  simp only [Task.send, apply_ite Task.state, ite_self]

theorem send_zombie (task : Task) (sig : Nat) : (task.send sig).state = .zombie ↔ task.state = .zombie := by
  rw [send_state]
  split
  · cases task.state <;> decide
  · exact Iff.rfl

theorem send_exitCode {task : Task} {sig : Nat} (harmless : ¬(sig = SIGKILL ∨ sig = SIGCONT)) :
    (task.send sig).exitCode = task.exitCode := by
  simp only [Task.send, apply_ite Task.exitCode, ite_self, if_neg harmless]

theorem core_send (process : Process) (sig : Nat) :
    Process.core { process with task := process.task.send sig } = process.core := by
  simp only [Process.core, send_parent, send_zombie]

namespace System

theorem view_eq {s s' : System} (core : ∀ q, (s'.proc q).map Process.core = (s.proc q).map Process.core)
    (exits : s'.exits = s.exits) (reports : s'.reports = s.reports) (nextId : s'.nextId = s.nextId) :
    s'.view = s.view := by
  simp only [view, exits, reports, nextId, View.mk.injEq, and_true]
  exact funext core

theorem view_modify (s : System) (q : Slot) {change : Process → Process} (changed : Core → Core)
    (same : ∀ process, (change process).core = changed process.core) :
    (s.modify q change).view = { s.view with core := update s.view.core q ((s.view.core q).map changed) } := by
  simp only [view, modify, View.mk.injEq, and_true]
  funext r
  by_cases here : r = q
  · subst here
    rw [update_self, update_self, Option.map_map, Option.map_map]
    congr 1
    exact funext same
  · rw [update_of_ne here, update_of_ne here]

theorem view_modify_eq (s : System) (q : Slot) {change : Process → Process}
    (same : ∀ process, (change process).core = process.core) : (s.modify q change).view = s.view := by
  rw [view_modify s q id same, Option.map_id_fun, id_eq, update_eq_self]

theorem view_sendSig (s : System) (sig : Nat) (meant : Slot → Process → Bool) :
    (s.sendSig sig meant).view = s.view := by
  refine view_eq (fun q => ?_) rfl rfl rfl
  rw [sendSig, Option.map_map]
  congr 1
  funext process
  rw [Function.comp_apply]
  split
  · exact core_send process sig
  · rfl

theorem view_killPg (s : System) (pgrp sig : Nat) : (s.killPg pgrp sig).view = s.view := by
  unfold killPg
  split
  · rfl
  · exact view_sendSig ..

theorem view_hangUp (s : System) (pgrp : Nat) : (s.hangUp pgrp).view = s.view := by
  unfold hangUp
  split
  · rw [view_killPg, view_killPg]
  · rfl

theorem view_raise (s : System) (q : Slot) (sig : Nat) : (s.raise q sig).view = s.view :=
  view_modify_eq s q fun _ => rfl

theorem view_hangUpOwn (s : System) (me : Process) : (s.hangUpOwn me).view = s.view := by
  unfold hangUpOwn
  split
  · split
    · exact view_hangUp ..
    · rfl
  · rfl

theorem view_hangUpChild (s : System) (me : Process) (q : Slot) : (s.hangUpChild me q).view = s.view := by
  unfold hangUpChild
  split
  · split
    · exact view_hangUp ..
    · rfl
  · rfl

end System

def Core.adopted (core : Core) : Core := { core with parent := slot 1 }

namespace System

theorem view_adoptChild (s : System) (q : Slot) :
    (s.adoptChild q).view = { s.view with core := update s.view.core q ((s.view.core q).map Core.adopted) } := by
  have moved : (s.modify q fun child => { child with task := { child.task with parent := slot 1 } }).view =
      { s.view with core := update s.view.core q ((s.view.core q).map Core.adopted) } :=
    view_modify s q Core.adopted fun _ => rfl
  unfold adoptChild
  dsimp only
  split
  · rw [view_raise]
    exact moved
  · exact moved

theorem view_adopt (me : Process) (children : List Slot) (s : System) :
    (adopt me children s).view =
      { s.view with core := fun r => if r ∈ children then (s.view.core r).map Core.adopted else s.view.core r } := by
  induction children generalizing s with
  | nil => simp [adopt]
  | cons q rest ih =>
    rw [adopt, ih, view_hangUpChild, view_adoptChild]
    simp only [View.mk.injEq, and_true]
    funext r
    by_cases here : r = q
    · subst here
      have twice (core : Option Core) : (core.map Core.adopted).map Core.adopted = core.map Core.adopted := by
        rw [Option.map_map]
        rfl
      rw [update_self, twice, ite_self, if_pos mem_cons_self]
    · rw [update_of_ne here]
      simp only [mem_cons, here, false_or]

theorem view_leaveTty (s : System) (me : Process) : (s.leaveTty me).view = s.view := by
  have forget (s : System) : System.view { s with
      proc := fun q => (s.proc q).map fun process =>
        if q.val ≠ 0 ∧ process.session = me.session then { process with tty := none } else process } = s.view := by
    refine view_eq (fun q => ?_) rfl rfl rfl
    rw [Option.map_map]
    congr 1
    funext process
    rw [Function.comp_apply]
    split <;> rfl
  unfold leaveTty
  split
  · dsimp only
    split
    · next n _ =>
      exact (forget _).trans (view_killPg s _ _)
    · exact forget s
  · rfl

end System

/-- What `do_exit` does to the tasks. -/
def View.exit (v : View) (p : Slot) (me : Core) (code : Word) : View :=
  { v with
    core := fun r => (v.core r).map fun core =>
      { core with
        parent := if r ∈ me.children then slot 1 else core.parent
        children := if r = p then [] else if r = slot 1 then me.children ++ core.children else core.children
        dead := core.dead || decide (r = p) }
    exits := v.exits ++ [(me.id, code)] }

namespace System

theorem view_splice (s : System) (p : Slot) (children : List Slot) :
    (s.splice p children).view =
      { s.view with
        core := fun r => (s.view.core r).map fun core =>
          { core with
            children := if r = p then [] else if r = slot 1 then children ++ core.children else core.children } } := by
  rw [splice, view_modify _ p (fun core => { core with children := [] }) fun _ => rfl,
    view_modify s (slot 1) (fun core => { core with children := children ++ core.children }) fun _ => rfl]
  simp only [View.mk.injEq, and_true]
  funext r
  by_cases self : r = p
  · subst self
    rw [update_self]
    by_cases first : r = slot 1
    · subst first
      rw [update_self, Option.map_map]
      simp only [if_true]
      rfl
    · rw [update_of_ne first]
      simp only [if_true]
  · rw [update_of_ne self]
    by_cases first : r = slot 1
    · subst first
      rw [update_self]
      simp only [if_neg self, if_true]
    · rw [update_of_ne first]
      simp only [if_neg self, if_neg first]
      cases s.view.core r <;> rfl

theorem view_becomeZombie {s : System} {p : Slot} {me : Process} (present : s.proc p = some me) (code : Word) :
    (s.becomeZombie p me code).view =
      { s.view with
        core := fun r => (s.view.core r).map fun core => { core with dead := core.dead || decide (r = p) }
        exits := s.exits ++ [(me.id, code)] } := by
  simp only [view, becomeZombie, set, View.mk.injEq, and_true]
  funext r
  by_cases self : r = p
  · subst self
    rw [update_self, present]
    simp [Process.core]
  · rw [update_of_ne self]
    simp only [self, decide_false, Bool.or_false]
    cases s.proc r <;> rfl

theorem view_exit {s : System} {p : Slot} {me : Process} (present : s.proc p = some me) (code : Word) :
    (s.exit p me code).view = s.view.exit p me.core code := by
  have children : me.core.children = me.children := rfl
  unfold exit
  dsimp only
  rw [view_leaveTty]
  split
  · next none =>
    rw [view_raise, view_hangUpOwn, view_becomeZombie present]
    simp only [View.exit, View.mk.injEq, and_true]
    refine ⟨funext fun r => ?_, rfl⟩
    cases present' : s.view.core r with
    | none => rfl
    | some core =>
      by_cases self : r = p
      · subst self
        simp only [view, present, Option.map_some, Option.some.injEq] at present'
        subst present'
        simp [none, Process.core]
      · simp [children, none, self]
  · rw [view_splice, view_adopt, view_raise, view_hangUpOwn, view_becomeZombie present]
    simp only [View.exit, View.mk.injEq, and_true, children]
    refine ⟨funext fun r => ?_, rfl⟩
    cases s.view.core r with
    | none => simp only [Option.map_none, ite_self]
    | some core =>
      by_cases adopted : r ∈ me.children
      · simp only [if_pos adopted, Option.map_some, Core.adopted]
      · simp only [if_neg adopted, Option.map_some]

end System

/-! ## The tree of tasks and the reports -/

structure View.Ordered (v : View) : Prop where
  idsDiffer : ∀ {q r a b}, v.core q = some a → v.core r = some b → a.id = b.id → q = r
  idLt : ∀ {q a}, v.core q = some a → a.id < v.nextId
  child : ∀ {p q a}, v.core p = some a → q ∈ a.children → ∃ b, v.core q = some b ∧ b.parent = p
  exited : ∀ {q a}, v.core q = some a → (a.dead = true ↔ a.id ∈ v.exits.map Prod.fst)
  exitLt : ∀ i ∈ v.exits.map Prod.fst, i < v.nextId
  exitOnce : (v.exits.map Prod.fst).Nodup
  reportOnce : (v.reports.map Report.child).Nodup
  reportedDead : ∀ i ∈ v.reports.map Report.child, i ∈ v.exits.map Prod.fst
  toParent : ∀ report ∈ v.reports, report.reporter = report.parent
  reported : ∀ {q b}, v.core q = some b → b.id ∈ v.reports.map Report.child →
    ∃ a, v.core b.parent = some a ∧ a.waiting = .zombie q
  reporting : ∀ {p q a}, v.core p = some a → a.waiting = .zombie q →
    ∃ b, v.core q = some b ∧ b.dead = true ∧ b.parent = p ∧ b.id ∈ v.reports.map Report.child
  awake : ∀ {p a}, v.core p = some a → a.waiting ≠ .no → a.dead = false

namespace View

variable {me : Core} {p : Slot} {v : View}

theorem Ordered.exit (ordered : v.Ordered) (present : v.core p = some me) (alive : me.dead = false)
    (free : me.waiting = .no) (code : Word) : (v.exit p me code).Ordered := by
  have before {r : Slot} {a : Core} (after : (v.exit p me code).core r = some a) :
      ∃ b, v.core r = some b ∧ a.id = b.id ∧ a.waiting = b.waiting ∧
        a.parent = (if r ∈ me.children then slot 1 else b.parent) ∧
        a.children = (if r = p then [] else if r = slot 1 then me.children ++ b.children else b.children) ∧
        a.dead = (b.dead || decide (r = p)) := by
    obtain ⟨b, old, rfl⟩ := map_eq_some_iff.mp after
    exact ⟨b, old, rfl, rfl, rfl, rfl, rfl⟩
  have after {r : Slot} {b : Core} (old : v.core r = some b) :
      ∃ a, (v.exit p me code).core r = some a ∧ a.id = b.id ∧ a.waiting = b.waiting ∧
        a.parent = (if r ∈ me.children then slot 1 else b.parent) ∧ a.dead = (b.dead || decide (r = p)) := by
    refine ⟨{ b with
        parent := if r ∈ me.children then slot 1 else b.parent
        children := if r = p then [] else if r = slot 1 then me.children ++ b.children else b.children
        dead := b.dead || decide (r = p) }, ?_, rfl, rfl, rfl, rfl⟩
    simp only [View.exit, old, Option.map_some]
  have fresh : me.id ∉ v.exits.map Prod.fst := by
    intro gone
    rw [(ordered.exited present).mpr gone] at alive
    cases alive
  -- the children of the exiting task have no other father
  have ours {q : Slot} {b : Core} (old : v.core q = some b) (mine : q ∈ me.children) : b.parent = p := by
    obtain ⟨c, child, parent⟩ := ordered.child present mine
    rw [old, Option.some.injEq] at child
    rw [child, parent]
  have exits : (v.exit p me code).exits.map Prod.fst = v.exits.map Prod.fst ++ [me.id] := by
    simp [View.exit]
  constructor
  · intro q r a b left right same
    obtain ⟨a', old, id, -⟩ := before left
    obtain ⟨b', old', id', -⟩ := before right
    exact ordered.idsDiffer old old' (by rw [← id, ← id', same])
  · intro q a now
    obtain ⟨b, old, id, -⟩ := before now
    rw [id]
    exact ordered.idLt old
  · intro r q a now listed
    obtain ⟨b, old, -, -, -, children, -⟩ := before now
    rw [children] at listed
    have keeps {c : Core} (there : v.core q = some c) (parent : (if q ∈ me.children then slot 1 else c.parent) = r) :
        ∃ d, (v.exit p me code).core q = some d ∧ d.parent = r := by
      obtain ⟨d, new, -, -, parent', -⟩ := after there
      exact ⟨d, new, parent'.trans parent⟩
    by_cases self : r = p
    · rw [if_pos self] at listed
      exact nomatch listed
    rw [if_neg self] at listed
    by_cases adopted : q ∈ me.children
    · obtain ⟨c, there, -⟩ := ordered.child present adopted
      refine keeps there ?_
      rw [if_pos adopted]
      split at listed
      · next first => exact first.symm
      · obtain ⟨d, there', parent⟩ := ordered.child old listed
        exact absurd (parent.symm.trans (ours there' adopted)) self
    · have listed' : q ∈ b.children := by
        split at listed
        · exact (mem_append.mp listed).resolve_left adopted
        · exact listed
      obtain ⟨c, there, parent⟩ := ordered.child old listed'
      exact keeps there (by rw [if_neg adopted, parent])
  · intro r a now
    obtain ⟨b, old, id, -, -, -, dead⟩ := before now
    rw [exits, mem_append, mem_singleton, id, dead, Bool.or_eq_true, decide_eq_true_eq, ordered.exited old]
    constructor
    · rintro (gone | rfl)
      · exact .inl gone
      · rw [present, Option.some.injEq] at old
        exact .inr (by rw [old])
    · rintro (gone | same)
      · exact .inl gone
      · exact .inr (ordered.idsDiffer old present same)
  · intro i gone
    rw [exits, mem_append, mem_singleton] at gone
    rcases gone with before' | rfl
    · exact ordered.exitLt i before'
    · exact ordered.idLt present
  · rw [exits, nodup_append]
    refine ⟨ordered.exitOnce, nodup_singleton _, fun i gone j only same => ?_⟩
    rw [mem_singleton] at only
    exact fresh (only ▸ same ▸ gone)
  · exact ordered.reportOnce
  · intro i told
    rw [exits]
    exact mem_append_left _ (ordered.reportedDead i told)
  · exact ordered.toParent
  · intro q b now told
    obtain ⟨b', old, id, -, parent, -, -⟩ := before now
    rw [id] at told
    obtain ⟨a, father, waits⟩ := ordered.reported old told
    have notOurs : q ∉ me.children := by
      intro mine
      rw [ours old mine, present, Option.some.injEq] at father
      rw [father, waits] at free
      cases free
    rw [if_neg notOurs] at parent
    obtain ⟨a', new, -, waiting, -⟩ := after father
    exact ⟨a', parent ▸ new, waiting.trans waits⟩
  · intro r q a now waits
    obtain ⟨b, old, -, waiting, -⟩ := before now
    obtain ⟨c, there, dead, parent, told⟩ := ordered.reporting old (waiting.symm.trans waits)
    have notOurs : q ∉ me.children := by
      intro mine
      rw [ours there mine] at parent
      rw [← parent, present, Option.some.injEq] at old
      rw [waiting, ← old, free] at waits
      cases waits
    obtain ⟨c', new, id, -, parent', dead'⟩ := after there
    rw [if_neg notOurs] at parent'
    exact ⟨c', new, by rw [dead', dead]; rfl, parent'.trans parent, id ▸ told⟩
  · intro r a now busy
    obtain ⟨b, old, -, waiting, -, -, dead⟩ := before now
    rw [waiting] at busy
    have other : r ≠ p := by
      rintro rfl
      rw [present, Option.some.injEq] at old
      exact busy (old ▸ free)
    rw [dead, ordered.awake old busy]
    simp [other]

def set (v : View) (q : Slot) (core : Core) : View := { v with core := update v.core q (some core) }

variable {r : Slot}

theorem ne_of_dead {q : Slot} {child : Core} (present : v.core p = some me) (there : v.core q = some child)
    (alive : me.dead = false) (dead : child.dead = true) : q ≠ p := by
  rintro rfl
  cases present.symm.trans there
  exact Bool.false_ne_true (alive.symm.trans dead)

theorem set_self (v : View) (q : Slot) (core : Core) : (v.set q core).core q = some core :=
  update_self ..

theorem set_other {q : Slot} (other : r ≠ q) (core : Core) : (v.set q core).core r = v.core r :=
  update_of_ne other ..

theorem setWaiting_before (present : v.core p = some me) {waiting : Waiting} {a : Core}
    (now : (v.set p { me with waiting := waiting }).core r = some a) :
    ∃ b, v.core r = some b ∧ a.id = b.id ∧ a.parent = b.parent ∧ a.children = b.children ∧ a.dead = b.dead := by
  rcases of_update_some now with ⟨rfl, rfl⟩ | ⟨-, old⟩
  · exact ⟨me, present, rfl, rfl, rfl, rfl⟩
  · exact ⟨a, old, rfl, rfl, rfl, rfl⟩

theorem setWaiting_after (present : v.core p = some me) (silent : ∀ q, me.waiting ≠ .zombie q)
    (waiting : Waiting) {b : Core} (old : v.core r = some b) :
    ∃ a, (v.set p { me with waiting := waiting }).core r = some a ∧ a.id = b.id ∧ a.parent = b.parent ∧
      a.dead = b.dead ∧ ∀ q, b.waiting = .zombie q → a.waiting = .zombie q := by
  by_cases same : r = p
  · subst same
    rw [present, Option.some.injEq] at old
    subst old
    exact ⟨_, set_self .., rfl, rfl, rfl, fun q told => absurd told (silent q)⟩
  · exact ⟨b, (set_other same _).trans old, rfl, rfl, rfl, fun _ => id⟩

theorem Ordered.setReports (ordered : v.Ordered) (present : v.core p = some me) (alive : me.dead = false)
    (silent : ∀ q, me.waiting ≠ .zombie q) {waiting : Waiting} {reports : List Report}
    (reportOnce : (reports.map Report.child).Nodup)
    (reportedDead : ∀ i ∈ reports.map Report.child, i ∈ v.exits.map Prod.fst)
    (toParent : ∀ report ∈ reports, report.reporter = report.parent)
    (earlier : ∀ i ∈ v.reports.map Report.child, i ∈ reports.map Report.child)
    (reported : ∀ {q b}, v.core q = some b → b.id ∈ reports.map Report.child →
      b.id ∈ v.reports.map Report.child ∨ b.parent = p ∧ waiting = .zombie q)
    (reporting : ∀ q, waiting = .zombie q → q ≠ p ∧
      ∃ b, v.core q = some b ∧ b.dead = true ∧ b.parent = p ∧ b.id ∈ reports.map Report.child) :
    View.Ordered { v.set p { me with waiting := waiting } with reports := reports } := by
  constructor
  · intro r r' a b left right same
    obtain ⟨a', old, id, -⟩ := setWaiting_before present left
    obtain ⟨b', old', id', -⟩ := setWaiting_before present right
    exact ordered.idsDiffer old old' (by rw [← id, ← id', same])
  · intro r a now
    obtain ⟨b, old, id, -⟩ := setWaiting_before present now
    rw [id]
    exact ordered.idLt old
  · intro r r' a now listed
    obtain ⟨b, old, -, -, children, -⟩ := setWaiting_before present now
    obtain ⟨c, there, parent⟩ := ordered.child old (children ▸ listed)
    obtain ⟨c', new, -, parent', -⟩ := setWaiting_after present silent _ there
    exact ⟨c', new, parent'.trans parent⟩
  · intro r a now
    obtain ⟨b, old, id, -, -, dead⟩ := setWaiting_before present now
    rw [id, dead]
    exact ordered.exited old
  · exact ordered.exitLt
  · exact ordered.exitOnce
  · exact reportOnce
  · exact reportedDead
  · exact toParent
  · intro r b now told
    obtain ⟨b', old, id, parent, -, -⟩ := setWaiting_before present now
    rcases reported old (id ▸ told) with told | ⟨mine, waits⟩
    · obtain ⟨a, father, waits⟩ := ordered.reported old told
      obtain ⟨a', new, -, -, -, same⟩ := setWaiting_after present silent _ father
      exact ⟨a', parent ▸ new, same r waits⟩
    · rw [parent, mine]
      exact ⟨_, set_self .., waits⟩
  · intro r r' a now waits
    rcases of_update_some now with ⟨rfl, rfl⟩ | ⟨-, old⟩
    · obtain ⟨other, c, there, facts⟩ := reporting r' waits
      exact ⟨c, (set_other other _).trans there, facts⟩
    · obtain ⟨c, there, dead, parent, told⟩ := ordered.reporting old waits
      obtain ⟨c', new, id, parent', dead', -⟩ := setWaiting_after present silent _ there
      exact ⟨c', new, dead'.trans dead, parent'.trans parent, earlier _ (id ▸ told)⟩
  · intro r a now busy
    rcases of_update_some now with ⟨rfl, rfl⟩ | ⟨-, old⟩
    · exact alive
    · exact ordered.awake old busy

theorem Ordered.setWaiting (ordered : v.Ordered) (present : v.core p = some me) (alive : me.dead = false)
    (silent : ∀ q, me.waiting ≠ .zombie q) {waiting : Waiting} (silent' : ∀ q, waiting ≠ .zombie q) :
    (v.set p { me with waiting := waiting }).Ordered :=
  ordered.setReports present alive silent ordered.reportOnce ordered.reportedDead ordered.toParent (fun _ => id)
    (fun _ => .inl) fun q waits => absurd waits (silent' q)

theorem Ordered.report (ordered : v.Ordered) {q : Slot} {child : Core} (present : v.core p = some me)
    (alive : me.dead = false) (free : me.waiting = .no) (mine : q ∈ me.children) (there : v.core q = some child)
    (dead : child.dead = true) (status : Word) : View.Ordered { v.set p { me with waiting := .zombie q } with
      reports := v.reports ++ [{ child := child.id, status := status, reporter := p, parent := child.parent }] } := by
  have parent : child.parent = p := by
    obtain ⟨c, there', parent⟩ := ordered.child present mine
    cases there.symm.trans there'
    exact parent
  have untold : child.id ∉ v.reports.map Report.child := by
    intro told
    obtain ⟨a, father, waits⟩ := ordered.reported there told
    rw [parent] at father
    cases present.symm.trans father
    rw [free] at waits
    cases waits
  have listed {i : Nat} {report : Report} : i ∈ (v.reports ++ [report]).map Report.child ↔
      i ∈ v.reports.map Report.child ∨ i = report.child := by
    rw [map_append, mem_append, map_singleton, mem_singleton]
  refine ordered.setReports present alive (by rw [free]; exact fun _ => nofun) ?_ ?_ ?_ (fun i => listed.mpr ∘ .inl)
    ?_ ?_
  · rw [map_append, nodup_append]
    refine ⟨ordered.reportOnce, nodup_singleton _, fun i told j only same => ?_⟩
    have this : j = child.id := mem_singleton.mp only
    exact untold (this ▸ same ▸ told)
  · intro i told
    rcases listed.mp told with told | rfl
    · exact ordered.reportedDead i told
    · exact (ordered.exited there).mp dead
  · intro report told
    rcases mem_append.mp told with told | now
    · exact ordered.toParent report told
    · rw [mem_singleton.mp now]
      exact parent.symm
  · intro r b old told
    refine (listed.mp told).imp_right fun same => ?_
    cases ordered.idsDiffer old there same
    cases old.symm.trans there
    exact ⟨parent, rfl⟩
  · rintro r waits
    cases waits
    exact ⟨ne_of_dead present there alive dead, child, there, dead, parent, listed.mpr (.inr rfl)⟩

theorem Ordered.release (ordered : v.Ordered) {q : Slot} (present : v.core p = some me)
    (waits : me.waiting = .zombie q) :
    View.Ordered { v with
      core := update (update v.core q none) p
        (some { me with waiting := .no, children := me.children.filter (· ≠ q) }) } := by
  obtain ⟨child, there, dead, parent, told⟩ := ordered.reporting present waits
  have alive : me.dead = false := ordered.awake present (by rw [waits]; exact nofun)
  have notMe := ne_of_dead present there alive dead
  obtain ⟨cores, isCores⟩ : ∃ cores, update (update v.core q none) p
      (some { me with waiting := .no, children := me.children.filter (· ≠ q) }) = cores := ⟨_, rfl⟩
  rw [isCores]
  have before {r : Slot} {a : Core} (now : cores r = some a) :
      r ≠ q ∧ ∃ b, v.core r = some b ∧ a.id = b.id ∧ a.parent = b.parent ∧ a.dead = b.dead ∧
        (r = p ∧ a.waiting = .no ∧ a.children = me.children.filter (· ≠ q) ∨
          r ≠ p ∧ a.waiting = b.waiting ∧ a.children = b.children) := by
    rw [← isCores] at now
    rcases of_update_some now with ⟨rfl, rfl⟩ | ⟨same, now⟩
    · exact ⟨notMe.symm, me, present, rfl, rfl, rfl, .inl ⟨rfl, rfl, rfl⟩⟩
    · obtain ⟨gone, now⟩ := of_update_none now
      exact ⟨gone, a, now, rfl, rfl, rfl, .inr ⟨same, rfl, rfl⟩⟩
  have after {r : Slot} {b : Core} (old : v.core r = some b) (stays : r ≠ q) :
      ∃ a, cores r = some a ∧
        a.id = b.id ∧ a.parent = b.parent ∧ a.dead = b.dead ∧ (r ≠ p → a.waiting = b.waiting) := by
    rw [← isCores]
    by_cases same : r = p
    · subst same
      cases present.symm.trans old
      exact ⟨_, update_self .., rfl, rfl, rfl, fun other => absurd rfl other⟩
    · exact ⟨b, (update_of_ne same ..).trans ((update_of_ne stays ..).trans old), rfl, rfl, rfl, fun _ => rfl⟩
  constructor
  · intro r r' a b left right same
    obtain ⟨-, a', old, id, -⟩ := before left
    obtain ⟨-, b', old', id', -⟩ := before right
    exact ordered.idsDiffer old old' (by rw [← id, ← id', same])
  · intro r a now
    obtain ⟨-, b, old, id, -⟩ := before now
    rw [id]
    exact ordered.idLt old
  · intro r r' a now listed
    obtain ⟨-, b, old, -, -, -, children⟩ := before now
    have listed' : r' ∈ b.children ∧ r' ≠ q := by
      rcases children with ⟨rfl, -, children⟩ | ⟨other, -, children⟩
      · rw [present, Option.some.injEq] at old
        subst old
        rw [children, mem_filter] at listed
        exact ⟨listed.1, of_decide_eq_true listed.2⟩
      · rw [children] at listed
        refine ⟨listed, ?_⟩
        rintro rfl
        obtain ⟨c, there', parent'⟩ := ordered.child old listed
        rw [there, Option.some.injEq] at there'
        exact other (by rw [← parent', ← there', parent])
    obtain ⟨c, there', parent'⟩ := ordered.child old listed'.1
    obtain ⟨c', new, -, parent'', -⟩ := after there' listed'.2
    exact ⟨c', new, parent''.trans parent'⟩
  · intro r a now
    obtain ⟨-, b, old, id, -, dead, -⟩ := before now
    rw [id, dead]
    exact ordered.exited old
  · exact ordered.exitLt
  · exact ordered.exitOnce
  · exact ordered.reportOnce
  · exact ordered.reportedDead
  · exact ordered.toParent
  · intro r b now told'
    obtain ⟨stays, b', old, id, parent', -, -⟩ := before now
    obtain ⟨a, father, waits'⟩ := ordered.reported old (id ▸ told')
    have otherFather : b'.parent ≠ p := by
      intro same
      rw [same, present, Option.some.injEq] at father
      rw [← father, waits] at waits'
      cases waits'
      exact stays rfl
    have fatherStays : b'.parent ≠ q := by
      rintro same
      rw [same, there, Option.some.injEq] at father
      have awake := ordered.awake there (by rw [father, waits']; exact nofun)
      rw [dead] at awake
      cases awake
    obtain ⟨a', new, -, -, -, waiting⟩ := after father fatherStays
    exact ⟨a', parent' ▸ new, (waiting otherFather).trans waits'⟩
  · intro r r' a now waits'
    obtain ⟨-, b, old, -, -, -, kind⟩ := before now
    rcases kind with ⟨-, no, -⟩ | ⟨other, waiting, -⟩
    · rw [no] at waits'
      cases waits'
    · obtain ⟨c, there', dead', parent', told'⟩ := ordered.reporting old (waiting.symm.trans waits')
      have stays : r' ≠ q := by
        rintro rfl
        rw [there, Option.some.injEq] at there'
        exact other (by rw [← parent', ← there', parent])
      obtain ⟨c', new, id, parent'', dead'', -⟩ := after there' stays
      exact ⟨c', new, dead''.trans dead', parent''.trans parent', id ▸ told'⟩
  · intro r a now busy
    obtain ⟨-, b, old, -, -, dead', kind⟩ := before now
    rcases kind with ⟨-, no, -⟩ | ⟨-, waiting, -⟩
    · exact absurd no busy
    · exact dead'.trans (ordered.awake old (waiting ▸ busy))

theorem Ordered.fork (ordered : v.Ordered) {q : Slot} (present : v.core p = some me) (empty : v.core q = none) :
    View.Ordered { v with
      core := update
        (update v.core q (some { id := v.nextId, parent := p, children := [], waiting := .no, dead := false }))
        p (some { me with children := q :: me.children })
      nextId := v.nextId + 1 } := by
  have other : q ≠ p := by
    rintro rfl
    rw [present] at empty
    cases empty
  obtain ⟨new, isNew⟩ : ∃ new : Core,
      { id := v.nextId, parent := p, children := [], waiting := .no, dead := false } = new := ⟨_, rfl⟩
  obtain ⟨cores, isCores⟩ : ∃ cores, update (update v.core q (some new)) p
      (some { me with children := q :: me.children }) = cores := ⟨_, rfl⟩
  rw [isNew, isCores]
  have before {r : Slot} {a : Core} (now : cores r = some a) :
      r = q ∧ new = a ∨
        r ≠ q ∧ ∃ b, v.core r = some b ∧ a.id = b.id ∧ a.parent = b.parent ∧ a.dead = b.dead ∧
          a.waiting = b.waiting ∧ (r = p ∧ a.children = q :: b.children ∨ a.children = b.children) := by
    rw [← isCores] at now
    rcases of_update_some now with ⟨rfl, rfl⟩ | ⟨-, now⟩
    · exact .inr ⟨other.symm, me, present, rfl, rfl, rfl, rfl, .inl ⟨rfl, rfl⟩⟩
    · exact (of_update_some now).imp_right fun ⟨old, now⟩ => ⟨old, a, now, rfl, rfl, rfl, rfl, .inr rfl⟩
  have after {r : Slot} {b : Core} (old : v.core r = some b) :
      ∃ a, cores r = some a ∧ a.id = b.id ∧ a.parent = b.parent ∧ a.dead = b.dead ∧ a.waiting = b.waiting := by
    rw [← isCores]
    by_cases mine : r = p
    · subst mine
      cases present.symm.trans old
      exact ⟨_, update_self .., rfl, rfl, rfl, rfl⟩
    · have new : r ≠ q := by
        rintro rfl
        rw [empty] at old
        cases old
      exact ⟨b, (update_of_ne mine ..).trans ((update_of_ne new ..).trans old), rfl, rfl, rfl, rfl⟩
  have newSlot : cores q = some new := by rw [← isCores, update_of_ne other, update_self]
  subst isNew
  constructor
  · intro r r' a b left right same
    rcases before left with ⟨rfl, rfl⟩ | ⟨-, a', old, id, -⟩ <;>
      rcases before right with ⟨rfl, rfl⟩ | ⟨-, b', old', id', -⟩
    · rfl
    · exact absurd (same.trans id') (Nat.ne_of_gt (ordered.idLt old'))
    · exact absurd (id.symm.trans same) (Nat.ne_of_lt (ordered.idLt old))
    · exact ordered.idsDiffer old old' (by rw [← id, ← id', same])
  · intro r a now
    rcases before now with ⟨-, rfl⟩ | ⟨-, b, old, id, -⟩
    · exact Nat.lt_succ_self _
    · exact id ▸ Nat.lt_succ_of_lt (ordered.idLt old)
  · intro r r' a now listed
    have keeps {b : Core} (old : v.core r = some b) (listed : r' ∈ b.children) :
        ∃ c, cores r' = some c ∧ c.parent = r := by
      obtain ⟨c, there, parent⟩ := ordered.child old listed
      obtain ⟨c', new, -, parent', -⟩ := after there
      exact ⟨c', new, parent'.trans parent⟩
    rcases before now with ⟨-, rfl⟩ | ⟨-, b, old, -, -, -, -, ⟨rfl, children⟩ | children⟩
    · exact nomatch listed
    · rw [children] at listed
      rcases mem_cons.mp listed with rfl | earlier
      · exact ⟨_, newSlot, rfl⟩
      · exact keeps old earlier
    · exact keeps old (children ▸ listed)
  · intro r a now
    rcases before now with ⟨-, rfl⟩ | ⟨-, b, old, id, -, dead, -⟩
    · exact ⟨nofun, fun gone => absurd (ordered.exitLt _ gone) (Nat.lt_irrefl _)⟩
    · rw [id, dead]
      exact ordered.exited old
  · exact fun i gone => Nat.lt_succ_of_lt (ordered.exitLt i gone)
  · exact ordered.exitOnce
  · exact ordered.reportOnce
  · exact ordered.reportedDead
  · exact ordered.toParent
  · intro r b now told
    rcases before now with ⟨-, rfl⟩ | ⟨-, b', old, id, parent, -, -, -⟩
    · exact absurd (ordered.exitLt _ (ordered.reportedDead _ told)) (Nat.lt_irrefl _)
    · obtain ⟨a, father, waits⟩ := ordered.reported old (id ▸ told)
      obtain ⟨a', new, -, -, -, waiting⟩ := after father
      exact ⟨a', parent ▸ new, waiting.trans waits⟩
  · intro r r' a now waits
    rcases before now with ⟨-, rfl⟩ | ⟨-, b, old, -, -, -, waiting, -⟩
    · cases waits
    · obtain ⟨c, there, dead, parent, told⟩ := ordered.reporting old (waiting ▸ waits)
      obtain ⟨c', new, id, parent', dead', -⟩ := after there
      exact ⟨c', new, dead'.trans dead, parent'.trans parent, id ▸ told⟩
  · intro r a now busy
    rcases before now with ⟨-, rfl⟩ | ⟨-, b, old, -, -, dead, waiting, -⟩
    · rfl
    · exact dead.trans (ordered.awake old (waiting ▸ busy))

end View

/-! ## What the zombies keep -/

namespace System

variable {q : Slot} {s : System}

theorem told_eq {s' : System} {change : Process → Process} (changed : s'.proc q = (s.proc q).map change)
    (same : ∀ process, s.proc q = some process → (change process).id = process.id ∧
      ((change process).task.state = .zombie ↔ process.task.state = .zombie) ∧
      (process.task.state = .zombie → (change process).task.exitCode = process.task.exitCode)) :
    s'.told q = s.told q := by
  rw [told, told, changed]
  cases present : s.proc q with
  | none => rfl
  | some process =>
    obtain ⟨id, zombie, code⟩ := same process present
    rw [Option.map_some, Option.bind_some, Option.bind_some]
    by_cases dead : process.task.state = .zombie
    · rw [if_pos (zombie.mpr dead), if_pos dead, id, code dead]
    · rw [if_neg (mt zombie.mp dead), if_neg dead]

theorem told_modify {change : Process → Process}
    (same : ∀ process, s.proc q = some process → (change process).id = process.id ∧
      ((change process).task.state = .zombie ↔ process.task.state = .zombie) ∧
      (process.task.state = .zombie → (change process).task.exitCode = process.task.exitCode)) (r : Slot) :
    (s.modify q change).told r = s.told r := by
  by_cases here : r = q
  · subst here
    exact told_eq (update_self ..) same
  · simp only [told, modify, update_of_ne here]

theorem told_sendSig {sig : Nat} {meant : Slot → Process → Bool}
    (spared : sig = SIGKILL ∨ sig = SIGCONT → ∀ {q process}, s.proc q = some process → q.val ≠ 0 →
      meant q process = true → process.task.state ≠ .zombie) (q : Slot) :
    (s.sendSig sig meant).told q = s.told q := by
  refine told_eq rfl fun process present => ?_
  by_cases sent : q.val ≠ 0 ∧ meant q process = true
  · rw [if_pos sent]
    refine ⟨rfl, send_zombie .., fun dead => send_exitCode fun resets => ?_⟩
    exact spared resets present sent.1 sent.2 dead
  · rw [if_neg sent]
    exact ⟨rfl, Iff.rfl, fun _ => rfl⟩

theorem noZombie_iff {meant : Slot → Process → Bool} : s.noZombie meant = true ↔
    ∀ {q process}, s.proc q = some process → q.val ≠ 0 → meant q process = true → process.task.state ≠ .zombie := by
  simp only [noZombie, all_eq_true, mem_finRange, true_implies, Option.all_eq_true, Bool.or_eq_true,
    Bool.not_eq_true', decide_eq_true_eq, decide_eq_false_iff_not]
  constructor
  · intro spared q process present other meant
    rcases spared q process present with (first | not) | alive
    · exact absurd first other
    · rw [meant] at not
      cases not
    · exact alive
  · intro spared q process present
    by_cases first : q.val = 0
    · exact .inl (.inl first)
    · by_cases means : meant q process = true
      · exact .inr (spared present first means)
      · exact .inl (.inr (Bool.eq_false_iff.mpr means))

theorem told_killPg {pgrp sig : Nat}
    (spared : sig = SIGKILL ∨ sig = SIGCONT → s.noZombie (fun _ process => process.pgrp == pgrp) = true)
    (q : Slot) : (s.killPg pgrp sig).told q = s.told q := by
  unfold killPg
  split
  · rfl
  · exact told_sendSig (fun resets => noZombie_iff.mp (spared resets)) q

theorem noZombie_killPg (pgrp sig : Nat) (spared : s.noZombie (fun _ process => process.pgrp == pgrp) = true) :
    (s.killPg pgrp sig).noZombie (fun _ process => process.pgrp == pgrp) = true := by
  unfold killPg
  split
  · exact spared
  · refine noZombie_iff.mpr fun {q process} present other group => ?_
    obtain ⟨old, there, rfl⟩ := map_eq_some_iff.mp present
    split at group
    · next sent =>
      rw [if_pos sent]
      exact mt (send_zombie _ _).mp (noZombie_iff.mp spared there other group)
    · next untouched =>
      rw [if_neg untouched]
      exact noZombie_iff.mp spared there other group

theorem told_hangUp {pgrp : Nat} (spares : s.hangUpSpares pgrp = true) (q : Slot) :
    (s.hangUp pgrp).told q = s.told q := by
  unfold hangUp
  split
  · next forsaken =>
    rw [hangUpSpares, forsaken, Bool.not_true, Bool.false_or] at spares
    rw [told_killPg (fun _ => noZombie_killPg pgrp SIGHUP spares), told_killPg (fun resets => absurd resets (by decide))]
  · rfl

theorem told_raise (s : System) (q : Slot) (sig : Nat) (r : Slot) : (s.raise q sig).told r = s.told r :=
  told_modify (by exact fun _ _ => ⟨rfl, Iff.rfl, fun _ => rfl⟩) r

variable {me : Process}

theorem told_hangUpOwn (spares : s.ownSpares me = true) (q : Slot) : (s.hangUpOwn me).told q = s.told q := by
  unfold ownSpares at spares
  unfold hangUpOwn
  split
  · next father present =>
    rw [present] at spares
    dsimp only at spares
    split
    · next outside =>
      rw [if_pos outside] at spares
      exact told_hangUp spares q
    · rfl
  · rfl

theorem told_hangUpChild {r : Slot} (spares : s.childSpares me r = true) (q : Slot) :
    (s.hangUpChild me r).told q = s.told q := by
  unfold childSpares at spares
  unfold hangUpChild
  split
  · next child present =>
    rw [present] at spares
    dsimp only at spares
    split
    · next outside =>
      rw [if_pos outside] at spares
      exact told_hangUp spares q
    · rfl
  · rfl

theorem told_adoptChild (s : System) (q r : Slot) : (s.adoptChild q).told r = s.told r := by
  have moved : (s.setParent q (slot 1)).told r = s.told r :=
    told_modify (by exact fun _ _ => ⟨rfl, Iff.rfl, fun _ => rfl⟩) r
  unfold adoptChild
  dsimp only
  split
  · exact (told_raise ..).trans moved
  · exact moved

theorem told_adopt {children : List Slot} (spares : adoptSpares me children s = true) (q : Slot) :
    (adopt me children s).told q = s.told q := by
  induction children generalizing s with
  | nil => rfl
  | cons child rest ih =>
    rw [adoptSpares, Bool.and_eq_true] at spares
    rw [adopt, ih spares.2, told_hangUpChild spares.1, told_adoptChild]

theorem told_splice (s : System) (p : Slot) (children : List Slot) (q : Slot) :
    (s.splice p children).told q = s.told q := by
  refine (told_modify (by exact fun _ _ => ⟨rfl, Iff.rfl, fun _ => rfl⟩) q).trans ?_
  exact told_modify (by exact fun _ _ => ⟨rfl, Iff.rfl, fun _ => rfl⟩) q

theorem told_leaveTty (s : System) (me : Process) (q : Slot) : (s.leaveTty me).told q = s.told q := by
  have forget (s : System) (ttyPgrp : Nat → Nat) : System.told { s with
      ttyPgrp := ttyPgrp
      proc := fun q => (s.proc q).map fun process =>
        if q.val ≠ 0 ∧ process.session = me.session then { process with tty := none } else process } q =
      s.told q := by
    refine told_eq rfl fun process _ => ?_
    split <;> exact ⟨rfl, Iff.rfl, fun _ => rfl⟩
  unfold leaveTty
  split
  · dsimp only
    split
    · next n _ =>
      exact (forget _ _).trans (told_killPg (fun resets => absurd resets (by decide)) q)
    · exact forget s _
  · rfl

theorem told_set (s : System) (q : Slot) (process : Process) :
    (s.set q process).told = update s.told q
      (if process.task.state = .zombie then some (process.id, process.task.exitCode) else none) :=
  funext (apply_update (fun _ there => Option.bind there fun process : Process =>
    if process.task.state = .zombie then some (process.id, process.task.exitCode) else none) s.proc q (some process))

theorem told_becomeZombie (s : System) (p : Slot) (me : Process) (code : Word) :
    (s.becomeZombie p me code).told = update s.told p (some (me.id, code)) :=
  (told_set s p _).trans (by rw [if_pos rfl])

variable {p : Slot}

theorem told_exit {code : Word} (spares : s.exitSpares p me code = true) :
    (s.exit p me code).told = update s.told p (some (me.id, code)) := by
  rw [exitSpares, Bool.and_eq_true] at spares
  funext q
  rw [← told_becomeZombie]
  unfold exit
  dsimp only
  rw [told_leaveTty]
  split
  · rw [told_raise, told_hangUpOwn spares.1]
  · rw [told_splice, told_adopt spares.2, told_raise, told_hangUpOwn spares.1]

/-! ## Steps -/

theorem current_eq_some (current : s.current p = some me) :
    s.proc p = some me ∧ me.task.state = .running ∧ me.waiting = .no := by
  rw [System.current, Option.filter_eq_some_iff, decide_eq_true_eq] at current
  exact current

theorem view_core {process : Process} (present : s.proc q = some process) :
    s.view.core q = some process.core := by
  simp only [view, present, Option.map_some]

theorem proc_of_view {core : Core} (present : s.view.core q = some core) :
    ∃ process, s.proc q = some process ∧ process.core = core :=
  map_eq_some_iff.mp present

theorem view_set (s : System) (q : Slot) (process : Process) : (s.set q process).view = s.view.set q process.core := by
  simp only [view, set, View.set, View.mk.injEq, and_true]
  exact funext (apply_update (fun _ => Option.map Process.core) s.proc q (some process))

theorem view_set_eq {old : Process} (new : Process) (present : s.proc q = some old) (same : new.core = old.core) :
    (s.set q new).view = s.view := by
  rw [view_set, same, View.set, ← view_core present, update_eq_self]

theorem alive_of_running {process : Process} (running : process.task.state = .running) :
    process.core.dead = false := by
  simp [Process.core, running]

theorem view_fork (present : s.proc p = some me) (running : me.task.state = .running) (free : me.waiting = .no)
    (pid : Nat) :
    (s.fork p q me pid).view =
      { s.view with
        core := update
          (update s.view.core q
            (some { id := s.view.nextId, parent := p, children := [], waiting := .no, dead := false }))
          p (some { me.core with children := q :: me.core.children })
        nextId := s.view.nextId + 1 } := by
  simp only [view, fork, set, View.mk.injEq, and_true]
  funext r
  by_cases self : r = p
  · subst self
    rw [update_self, update_self]
    rfl
  · rw [update_of_ne self, update_of_ne self]
    by_cases new : r = q
    · subst new
      rw [update_self, update_self]
      simp [Process.core, running, free]
    · rw [update_of_ne new, update_of_ne new]

theorem view_report (s : System) (p : Slot) (me : Process) (report : Report) :
    System.view { s.set p me with reports := s.reports ++ [report] } =
      { s.view.set p me.core with reports := s.view.reports ++ [report] } := by
  have core : (s.set p me).view.core = (s.view.set p me.core).core := congrArg View.core (view_set s p me)
  exact congrArg (fun core => View.mk core s.exits (s.reports ++ [report]) s.nextId) core

theorem view_release {child : Process} (present : s.proc p = some me) (parent : child.task.parent = p)
    (other : q ≠ p) : ((s.release q child).modify p fun me => { me with waiting := .no }).view =
      { s.view with
        core := update (update s.view.core q none) p
          (some { me.core with waiting := .no, children := me.core.children.filter (· ≠ q) }) } := by
  rw [view_modify _ p (fun core => { core with waiting := .no }) fun _ => rfl]
  simp only [view, release, modify, parent, View.mk.injEq, and_true]
  funext r
  by_cases self : r = p
  · subst self
    rw [update_self, update_self, update_of_ne other.symm, update_self, present]
    rfl
  · rw [update_of_ne self, update_of_ne self]
    by_cases gone : r = q
    · subst gone
      rw [update_self, update_self]
      rfl
    · rw [update_of_ne gone, update_of_ne gone, update_of_ne self]

theorem waitpid_cases (s : System) (p : Slot) (me : Process) (pid : Int) (untraced : Bool) :
    s.waitpid p me pid untraced = s ∨
      ∃ q child, q ∈ me.children ∧ s.proc q = some child ∧
        (child.task.state ≠ .zombie ∧ s.waitpid p me pid untraced = s.set p { me with waiting := .stopped q } ∨
          child.task.state = .zombie ∧ s.waitpid p me pid untraced =
            { s.set p { me with waiting := .zombie q } with
              reports := s.reports ++ [{
                child := child.id, status := child.task.exitCode, reporter := p, parent := child.task.parent }] }) := by
  unfold waitpid
  cases found : me.children.find? (s.reportable me pid untraced) with
  | none => exact .inl rfl
  | some q =>
    have mine := mem_of_find?_eq_some found
    dsimp only
    cases present : s.proc q with
    | none => exact .inl rfl
    | some child =>
      refine .inr ⟨q, child, mine, present, ?_⟩
      by_cases dead : child.task.state = .zombie
      · exact .inr ⟨dead, if_pos dead⟩
      · exact .inl ⟨dead, if_neg dead⟩

theorem ordered_step {s' : System} {m : Move} (ordered : s.view.Ordered) (moved : s.step m = some s') :
    s'.view.Ordered := by
  cases m with
  | fork p q pid =>
    obtain ⟨me, current, rest⟩ := bind_eq_some_iff.mp moved
    obtain ⟨present, running, free⟩ := current_eq_some current
    split at rest
    case isFalse => cases rest
    next empty =>
    cases rest
    rw [view_fork present running free]
    exact ordered.fork (view_core present) (by simp only [view, empty, Option.map_none])
  | exit p code =>
    obtain ⟨me, current, rfl⟩ := map_eq_some_iff.mp moved
    obtain ⟨present, running, free⟩ := current_eq_some current
    rw [view_exit present]
    exact ordered.exit (view_core present) (alive_of_running running) free code
  | kill p pid sig =>
    obtain ⟨me, current, rfl⟩ := map_eq_some_iff.mp moved
    unfold kill
    split
    · rwa [view_sendSig]
    · exact ordered
  | stop p signr =>
    obtain ⟨me, current, rfl⟩ := map_eq_some_iff.mp moved
    obtain ⟨present, running, free⟩ := current_eq_some current
    have same := view_set_eq { me with
      task := { me.task with state := .stopped, exitCode := BitVec.ofNat 32 signr } } present
      (by simp [Process.core, running])
    dsimp only
    split
    · rwa [view_raise, same]
    · rwa [same]
  | waitpid p pid untraced =>
    obtain ⟨me, current, rfl⟩ := map_eq_some_iff.mp moved
    obtain ⟨present, running, free⟩ := current_eq_some current
    have silent (q : Slot) : me.core.waiting ≠ .zombie q := by
      rw [show me.core.waiting = .no from free]
      exact nofun
    rcases waitpid_cases s p me pid untraced with same | ⟨q, child, mine, there, ⟨-, stops⟩ | ⟨dead, tells⟩⟩
    · rwa [same]
    · rw [stops, view_set]
      exact ordered.setWaiting (view_core present) (alive_of_running running) silent fun _ => nofun
    · have reported := ordered.report (view_core present) (alive_of_running running) free mine (view_core there)
        (by simp [Process.core, dead]) child.task.exitCode
      rw [tells, view_report]
      exact reported
  | stored p =>
    obtain ⟨me, present, rest⟩ := bind_eq_some_iff.mp moved
    unfold stored at rest
    cases waits : me.waiting with
    | no =>
      rw [waits] at rest
      cases rest
    | stopped q =>
      rw [waits] at rest
      cases rest
      rw [view_modify _ p (fun core => { core with waiting := .no }) fun _ => rfl,
        view_modify_eq s q (by exact fun _ => rfl), view_core present]
      refine ordered.setWaiting (view_core present) (ordered.awake (view_core present) ?_) ?_ fun _ => nofun
      · rw [show me.core.waiting = .stopped q from waits]
        exact nofun
      · rw [show me.core.waiting = .stopped q from waits]
        exact fun _ => nofun
    | zombie q =>
      rw [waits] at rest
      obtain ⟨child, there, rfl⟩ := map_eq_some_iff.mp rest
      obtain ⟨core, there', dead, parent, -⟩ := ordered.reporting (view_core present) waits
      rw [view_core there, Option.some.injEq] at there'
      subst there'
      have awake := ordered.awake (view_core present) (by rw [show me.core.waiting = _ from waits]; exact nofun)
      have other := View.ne_of_dead (view_core present) (view_core there) awake dead
      rw [view_release present parent other]
      exact ordered.release (view_core present) waits
  | regroup q pgrp session leader =>
    obtain ⟨process, present, rfl⟩ := map_eq_some_iff.mp moved
    rwa [view_set_eq _ present]
    rfl
  | terminal q tty n pgrp =>
    obtain ⟨process, present, rfl⟩ := map_eq_some_iff.mp moved
    have same := view_set_eq { process with tty := tty } present rfl
    exact same.symm ▸ ordered

structure Faithful (s : System) : Prop where
  kept : ∀ {q x}, s.told q = some x → x ∈ s.exits
  reported : ∀ report ∈ s.reports, (report.child, report.status) ∈ s.exits

theorem told_set_alive (process : Process) (alive : process.task.state ≠ .zombie) :
    (s.set q process).told = update s.told q none := by
  rw [told_set, if_neg alive]

theorem Faithful.congr {s' : System} (faithful : s.Faithful)
    (told : ∀ q x, s'.told q = some x → s.told q = some x) (exits : s'.exits = s.exits)
    (reports : s'.reports = s.reports) : s'.Faithful where
  kept := fun {q x} now => exits ▸ faithful.kept (told q x now)
  reported := by
    rw [exits, reports]
    exact faithful.reported

theorem told_set_same {old new : Process} (present : s.proc q = some old)
    (same : new.id = old.id ∧ new.task = old.task) : (s.set q new).told = s.told := by
  have before : s.told q =
      if old.task.state = .zombie then some (old.id, old.task.exitCode) else none := by rw [told, present]; rfl
  rw [told_set, same.1, same.2, ← before, update_eq_self]

theorem told_release (s : System) (q : Slot) (child : Process) :
    (s.release q child).told = update s.told q none := by
  funext r
  by_cases here : r = q
  · subst here
    simp only [told, release, update_self, Option.bind_none]
  · have kept : (s.modify child.task.parent fun father =>
        { father with children := father.children.filter (· ≠ q) }).told r = s.told r :=
      told_modify (by exact fun _ _ => ⟨rfl, Iff.rfl, fun _ => rfl⟩) r
    rw [update_of_ne here, ← kept]
    simp only [told, release, update_of_ne here]

theorem Faithful.step {s s' : System} {m : Move} (faithful : s.Faithful) (spares : s.Spares m)
    (moved : s.step m = some s') : s'.Faithful := by
  cases m with
  | fork p q pid =>
    obtain ⟨me, current, rest⟩ := bind_eq_some_iff.mp moved
    obtain ⟨present, running, free⟩ := current_eq_some current
    split at rest
    case isFalse => cases rest
    cases rest
    have alive : me.task.state ≠ .zombie := by rw [running]; exact nofun
    refine faithful.congr (fun r x now => ?_) rfl rfl
    change System.told (System.set (System.set s q _) p _) r = some x at now
    rw [told_set_alive _ (by exact alive), told_set_alive _ (by exact alive)] at now
    exact (of_update_none (of_update_none now).2).2
  | exit p code =>
    obtain ⟨me, current, rfl⟩ := map_eq_some_iff.mp moved
    obtain ⟨present, running, free⟩ := current_eq_some current
    have told := told_exit (spares me current)
    have view := view_exit present code
    have exits : (s.exit p me code).exits = s.exits ++ [(me.id, code)] := congrArg View.exits view
    have reports : (s.exit p me code).reports = s.reports := congrArg View.reports view
    constructor
    · intro q x now
      rw [exits]
      rw [told] at now
      rcases of_update_some now with ⟨-, rfl⟩ | ⟨-, before⟩
      · exact mem_append_right _ (mem_singleton_self _)
      · exact mem_append_left _ (faithful.kept before)
    · rw [exits, reports]
      exact fun report listed => mem_append_left _ (faithful.reported report listed)
  | kill p pid sig =>
    obtain ⟨me, current, rfl⟩ := map_eq_some_iff.mp moved
    have told (q : Slot) : (s.kill me pid sig).told q = s.told q := by
      unfold kill
      split
      · exact told_sendSig (fun resets => noZombie_iff.mp (spares me current resets)) q
      · rfl
    have view : (s.kill me pid sig).view = s.view := by
      unfold kill
      split
      · exact view_sendSig ..
      · rfl
    exact faithful.congr (fun q x => by rw [told]; exact id) (congrArg View.exits view) (congrArg View.reports view)
  | stop p signr =>
    obtain ⟨me, current, rfl⟩ := map_eq_some_iff.mp moved
    have told := told_set_alive (s := s) (q := p) { me with
      task := { me.task with state := .stopped, exitCode := BitVec.ofNat 32 signr } } nofun
    dsimp only
    split
    · refine faithful.congr (fun q x now => ?_) rfl rfl
      rw [told_raise, told] at now
      exact (of_update_none now).2
    · refine faithful.congr (fun q x now => ?_) rfl rfl
      rw [told] at now
      exact (of_update_none now).2
  | waitpid p pid untraced =>
    obtain ⟨me, current, rfl⟩ := map_eq_some_iff.mp moved
    obtain ⟨present, running, free⟩ := current_eq_some current
    have alive : me.task.state ≠ .zombie := by rw [running]; exact nofun
    rcases waitpid_cases s p me pid untraced with same | ⟨q, child, mine, there, ⟨-, stops⟩ | ⟨dead, tells⟩⟩
    · rwa [same]
    · rw [stops]
      refine faithful.congr (fun r x now => ?_) rfl rfl
      rw [told_set_alive _ (by exact alive)] at now
      exact (of_update_none now).2
    · rw [tells]
      have kept : (child.id, child.task.exitCode) ∈ s.exits := by
        refine faithful.kept (q := q) ?_
        rw [told, there, Option.bind_some, if_pos dead]
      constructor
      · intro r x now
        have now' : (s.set p { me with waiting := .zombie q }).told r = some x := now
        rw [told_set_alive _ (by exact alive)] at now'
        exact faithful.kept (of_update_none now').2
      · intro report listed
        rcases mem_append.mp listed with before | now
        · exact faithful.reported report before
        · rw [mem_singleton.mp now]
          exact kept
  | stored p =>
    obtain ⟨me, present, rest⟩ := bind_eq_some_iff.mp moved
    have spares := spares me present
    unfold stored at rest
    unfold storeSpares at spares
    cases waits : me.waiting with
    | no =>
      rw [waits] at rest
      cases rest
    | stopped q =>
      rw [waits] at rest spares
      cases rest
      dsimp only at spares
      have alive {child : Process} (there : s.proc q = some child) : child.task.state ≠ .zombie := by
        rw [isZombie, there, Option.any_some, Bool.not_eq_true'] at spares
        exact of_decide_eq_false spares
      refine faithful.congr (fun r x now => ?_) rfl rfl
      rw [told_modify (by exact fun _ _ => ⟨rfl, Iff.rfl, fun _ => rfl⟩),
        told_modify (by exact fun _ there => ⟨rfl, Iff.rfl, fun dead => absurd dead (alive there)⟩)] at now
      exact now
    | zombie q =>
      rw [waits] at rest
      obtain ⟨child, there, rfl⟩ := map_eq_some_iff.mp rest
      refine faithful.congr (fun r x now => ?_) rfl rfl
      rw [told_modify (by exact fun _ _ => ⟨rfl, Iff.rfl, fun _ => rfl⟩), told_release] at now
      exact (of_update_none now).2
  | regroup q pgrp session leader =>
    obtain ⟨process, present, rfl⟩ := map_eq_some_iff.mp moved
    refine faithful.congr (fun r x now => ?_) rfl rfl
    rwa [told_set_same present (by exact ⟨rfl, rfl⟩)] at now
  | terminal q tty n pgrp =>
    obtain ⟨process, present, rfl⟩ := map_eq_some_iff.mp moved
    refine faithful.congr (fun r x now => ?_) rfl rfl
    change System.told (System.set s q _) r = some x at now
    rwa [told_set_same present (by exact ⟨rfl, rfl⟩)] at now

theorem boot_core {a : Core} (present : boot.view.core q = some a) :
    q.val = 0 ∧ a = { id := 0, parent := ⟨0, by decide⟩, children := [], waiting := .no, dead := false } := by
  obtain ⟨process, there, rfl⟩ := proc_of_view present
  obtain ⟨task, first, rfl⟩ := map_eq_some_iff.mp there
  unfold Tasks.init at first
  split at first
  · next zero =>
    cases first
    exact ⟨zero, rfl⟩
  · cases first

theorem ordered_boot : boot.view.Ordered where
  idsDiffer := fun left right _ => Fin.ext ((boot_core left).1.trans (boot_core right).1.symm)
  idLt := fun present => by
    rw [(boot_core present).2]
    exact Nat.zero_lt_one
  child := fun present listed => by
    rw [(boot_core present).2] at listed
    exact nomatch listed
  exited := fun present => by
    rw [(boot_core present).2]
    exact ⟨nofun, nofun⟩
  exitLt := nofun
  exitOnce := nodup_nil
  reportOnce := nodup_nil
  reportedDead := nofun
  toParent := nofun
  reported := nofun
  reporting := fun present waits => by
    rw [(boot_core present).2] at waits
    cases waits
  awake := fun present busy => by
    rw [(boot_core present).2] at busy
    exact absurd rfl busy

theorem faithful_boot : boot.Faithful where
  kept := fun {q x} tells => by
    obtain ⟨process, there, dead⟩ := bind_eq_some_iff.mp tells
    have core := (boot_core (view_core there)).2
    have alive : process.core.dead = false := by rw [core]
    simp only [Process.core, decide_eq_false_iff_not] at alive
    rw [if_neg alive] at dead
    cases dead
  reported := nofun

end System

theorem reports_in_order {s : System} (reached : Reachable System.step System.boot s) : s.view.Ordered :=
  reached.invariant (P := fun s => s.view.Ordered) (fun ordered _ moved => System.ordered_step ordered moved)
    System.ordered_boot

/-- As long as the zombies are spared, the statuses arrive as they were. -/
theorem intact_of_spared {s : System} (reached : Run System.step System.Spares System.boot s) : s.Intact := by
  have ordered := reports_in_order reached.reachable
  have faithful : s.Faithful :=
    reached.invariant (fun faithful spares moved => faithful.step spares moved) System.faithful_boot
  exact
    { status := faithful.reported
      exitOnce := ordered.exitOnce
      reportOnce := ordered.reportOnce
      toParent := ordered.toParent }

theorem intact_with_orphan : ∃ s : System,
    s.reports = [⟨2, 0x100, slot 1, slot 1⟩, ⟨3, 0x700, slot 1, slot 1⟩] ∧ s.Intact := by
  obtain ⟨s, ran, reports⟩ := exists_of_runIf System.step (fun s m => decide (s.Spares m)) System.boot
    [.fork (slot 0) (slot 1) 1, .fork (slot 1) (slot 2) 2, .fork (slot 2) (slot 3) 3, .exit (slot 3) 0x700,
      .fork (slot 2) (slot 4) 4, .stop (slot 4) SIGTSTP, .exit (slot 2) 0x100, .kill (slot 1) 4 SIGCONT,
      .waitpid (slot 1) 2 false, .stored (slot 1), .waitpid (slot 1) (-1) true, .stored (slot 1)]
    (fun s => s.reports = [⟨2, 0x100, slot 1, slot 1⟩, ⟨3, 0x700, slot 1, slot 1⟩]) (by decide +kernel)
  exact ⟨s, reports, intact_of_spared (ran.weaken fun _ _ spares => of_decide_eq_true spares)⟩

/-- A zombie gets SIGCONT, and its father is told of status 0. -/
theorem continued_zombie_loses_status : ∃ s : System, Reachable System.step System.boot s ∧
    s.exits = [(2, 0x500)] ∧ s.reports = [⟨2, 0, slot 1, slot 1⟩] ∧ ¬s.Intact := by
  obtain ⟨s, ran, exits, reports⟩ := exists_of_run System.step System.boot
    [.fork (slot 0) (slot 1) 1, .fork (slot 1) (slot 2) 2, .exit (slot 2) 0x500, .kill (slot 1) 2 SIGCONT,
      .waitpid (slot 1) (-1) false]
    (fun s => s.exits = [(2, 0x500)] ∧ s.reports = [⟨2, 0, slot 1, slot 1⟩]) (by decide +kernel)
  refine ⟨s, reachable_of_run ran, exits, reports, fun intact => ?_⟩
  have told := intact.status ⟨2, 0, slot 1, slot 1⟩ (by rw [reports]; exact mem_singleton_self _)
  rw [exits] at told
  exact absurd told (by decide)

end Linux012.Kernel.Exit

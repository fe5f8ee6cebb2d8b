import Linux012.Kernel.ProcessTree

/-! The invariant of the process tree: one list of children for each task, and fathers
that are older than their children. -/

set_option autoImplicit false

namespace Linux012.Kernel.ProcessTree

open IntrusiveList Transition Function List

namespace Tree

variable {t : Tree} {kids : Nat → List Nat} {born : Nat → Nat} {now : Nat}

/-- What every step keeps, where `born` orders the tasks by age. -/
structure Shape (t : Tree) (kids : Nat → List Nat) (born : Nat → Nat) (now : Nat) : Prop where
  distinct : ∀ i j a, t.task i = some a → t.task j = some a → i = j
  root : ∀ i, t.task i = some initTask ↔ i.val = 0
  rootLinks : t.pptr initTask = some initTask ∧ t.ysptr initTask = none ∧ t.osptr initTask = none
  rootAlive : t.zombie initTask = false
  chain : ∀ a, t.InTask a → Chain t.osptr t.ysptr (t.cptr a) none (kids a)
  nodup : ∀ a, (kids a).Nodup
  mem : ∀ a, t.InTask a → ∀ b, b ∈ kids a ↔ t.InTask b ∧ b ≠ initTask ∧ t.pptr b = some a
  parent : ∀ b, t.InTask b → ∃ a, t.InTask a ∧ t.pptr b = some a
  childless : ∀ a, t.InTask a → t.zombie a = true → kids a = []
  alone : t.task initSlot = none → ∀ a, t.InTask a → a = initTask
  init : ∀ i, t.task initSlot = some i → t.zombie i = false ∧ kids initTask = [i]
  older : ∀ a b, t.InTask b → b ≠ initTask → t.pptr b = some a → born a < born b
  initOldest : ∀ i b, t.task initSlot = some i → t.InTask b → b ≠ initTask → b ≠ i → born i < born b
  past : ∀ b, t.InTask b → born b < now
  reaped : ∀ p q, t.InTask p → t.reaping p = some q →
    t.zombie p = false ∧ t.InTask q ∧ t.zombie q = true ∧ t.pptr q = some p
  noFault : t.fault = false

theorem Shape.boot : boot.Shape (fun _ => []) (fun _ => 0) 1 := by
  have only {a : Nat} (inTask : Tree.boot.InTask a) : a = initTask := by
    obtain ⟨i, found⟩ := inTask
    simp only [Tree.boot, Option.ite_none_right_eq_some, Option.some.injEq] at found
    exact found.2.symm
  refine {
    distinct := fun i j a found found' => ?_
    root := by simp [Tree.boot]
    rootLinks := ⟨rfl, rfl, rfl⟩
    rootAlive := rfl
    chain := fun _ _ => rfl
    nodup := fun _ => .nil
    mem := fun a _ b => ?_
    parent := fun b _ => ⟨initTask, ⟨⟨0, by decide⟩, rfl⟩, rfl⟩
    childless := fun _ _ _ => rfl
    alone := fun _ a inTask => only inTask
    init := fun i found => ?_
    older := fun a b inTask differ => absurd (only inTask) differ
    initOldest := fun i b _ inTask differ => absurd (only inTask) differ
    past := fun _ _ => Nat.one_pos
    reaped := fun p q _ reaping => nomatch reaping
    noFault := rfl }
  · simp only [Tree.boot, Option.ite_none_right_eq_some] at found found'
    exact Fin.ext (found.1.trans found'.1.symm)
  · simp only [not_mem_nil, false_iff]
    exact fun both => both.2.1 (only both.1)
  · simp [Tree.boot, initSlot] at found

/-! ## What holds in a tree of this shape -/

theorem Shape.rootInTask (shape : t.Shape kids born now) : t.InTask initTask :=
  ⟨⟨0, by decide⟩, (shape.root _).mpr rfl⟩

variable {a b : Nat}

theorem Shape.apart (shape : t.Shape kids born now) {a' : Nat} (inTask : t.InTask a) (inTask' : t.InTask a')
    (member : b ∈ kids a) (member' : b ∈ kids a') : a = a' := by
  have up := ((shape.mem a inTask b).mp member).2.2
  have up' := ((shape.mem a' inTask' b).mp member').2.2
  exact Option.some.inj (up.symm.trans up')

theorem Shape.length_le (shape : t.Shape kids born now) (inTask : t.InTask a) : (kids a).length ≤ NR_TASKS := by
  have slots : kids a ⊆ (List.finRange NR_TASKS).filterMap t.task := by
    intro b member
    obtain ⟨i, found⟩ := ((shape.mem a inTask b).mp member).1
    exact mem_filterMap.mpr ⟨i, mem_finRange i, found⟩
  have bound := (shape.nodup a).length_le_of_subset slots
  exact bound.trans ((length_filterMap_le _ _).trans (le_of_eq (length_finRange)))

theorem Shape.initBusy (shape : t.Shape kids born now) {i : Nat} (init : t.task initSlot = some i)
    (inTask : t.InTask b) (notRoot : b ≠ initTask) (notInit : b ≠ i) : kids i ≠ [] := by
  generalize age : born b = n
  induction n using Nat.strong_induction_on generalizing b with
  | _ n ih =>
    obtain ⟨a, inTaskA, up⟩ := shape.parent b inTask
    have member : b ∈ kids a := (shape.mem a inTaskA b).mpr ⟨inTask, notRoot, up⟩
    by_cases isRoot : a = initTask
    · rw [isRoot, (shape.init i init).2, mem_singleton] at member
      exact absurd member notInit
    · by_cases isInit : a = i
      · rw [← isInit]
        exact ne_nil_of_mem member
      · have younger := shape.older a b inTask notRoot up
        exact ih (born a) (age ▸ younger) inTaskA isRoot isInit rfl

theorem Shape.cptr_spec (shape : t.Shape kids born now) {child : Nat} (inTask : t.InTask a)
    (first : t.cptr a = some child) : child ∈ kids a ∧ t.ysptr child = none := by
  have chain := shape.chain a inTask
  rw [first] at chain
  cases list : kids a with
  | nil =>
    rw [list] at chain
    cases chain
  | cons x rest =>
    rw [list] at chain
    obtain rfl := Option.some.inj chain.1
    exact ⟨.head _, chain.2.1⟩

theorem Shape.osptr_spec (shape : t.Shape kids born now) {older : Nat} (inTask : t.InTask a)
    (member : b ∈ kids a) (next : t.osptr b = some older) : older ∈ kids a ∧ t.ysptr older = some b :=
  ⟨(shape.chain a inTask).next_mem member next, (shape.chain a inTask).prev_of_next member next⟩

theorem Shape.ysptr_spec (shape : t.Shape kids born now) {younger : Nat} (inTask : t.InTask a)
    (member : b ∈ kids a) (prev : t.ysptr b = some younger) : younger ∈ kids a ∧ t.osptr younger = some b := by
  rcases (shape.chain a inTask).next_of_prev member prev with ⟨-, absent⟩ | found
  · cases absent
  · exact found

theorem Shape.isKid (shape : t.Shape kids born now) (inTask : t.InTask b) (notRoot : b ≠ initTask) :
    ∃ a, t.InTask a ∧ t.pptr b = some a ∧ b ∈ kids a := by
  obtain ⟨a, inTaskA, up⟩ := shape.parent b inTask
  exact ⟨a, inTaskA, up, (shape.mem a inTaskA b).mpr ⟨inTask, notRoot, up⟩⟩

theorem Shape.linked (shape : t.Shape kids born now) (inTask : t.InTask a)
    (link : t.pptr a = some b ∨ t.cptr a = some b ∨ t.ysptr a = some b ∨ t.osptr a = some b) : t.InTask b := by
  rcases link with up | first | prev | next
  · obtain ⟨father, found, up'⟩ := shape.parent a inTask
    exact Option.some.inj (up'.symm.trans up) ▸ found
  · exact ((shape.mem a inTask b).mp (shape.cptr_spec inTask first).1).1
  · have notRoot : a ≠ initTask := by
      rintro rfl
      rw [shape.rootLinks.2.1] at prev
      cases prev
    obtain ⟨father, found, -, member⟩ := shape.isKid inTask notRoot
    exact ((shape.mem father found b).mp (shape.ysptr_spec found member prev).1).1
  · have notRoot : a ≠ initTask := by
      rintro rfl
      rw [shape.rootLinks.2.2] at next
      cases next
    obtain ⟨father, found, -, member⟩ := shape.isKid inTask notRoot
    exact ((shape.mem father found b).mp (shape.osptr_spec found member next).1).1

theorem Shape.noZombieParent (shape : t.Shape kids born now) (inTask : t.InTask a) (up : t.pptr a = some b) :
    t.zombie b = false := by
  by_cases isRoot : a = initTask
  · rw [isRoot, shape.rootLinks.1] at up
    cases up
    exact shape.rootAlive
  · obtain ⟨father, found, up', member⟩ := shape.isKid inTask isRoot
    cases up'.symm.trans up
    cases dead : t.zombie b with
    | false => rfl
    | true =>
      rw [shape.childless b found dead] at member
      cases member

/-! ## The audit -/

variable {p : Nat}

theorem Shape.auditLinks (shape : t.Shape kids born now) (inTask : t.InTask p) (notRoot : p ≠ initTask) :
    t.auditLinks p = [] := by
  obtain ⟨father, found, up, member⟩ := shape.isKid inTask notRoot
  have fine {link : Option Nat} (target : ∀ b, link = some b → t.InTask b) : t.badTaskPtr link = false := by
    cases link with
    | none => rfl
    | some b => simpa [badTaskPtr] using target b rfl
  have notFather : t.pptr p ≠ some p := fun self => absurd (shape.older p p inTask notRoot self) (by omega)
  have notChild : t.cptr p ≠ some p := fun self =>
    notFather ((shape.mem p inTask p).mp (shape.cptr_spec inTask self).1).2.2
  have notOlder : t.osptr p ≠ some p := (shape.chain father found).next_ne_self (shape.nodup father) member
  have notYounger : t.ysptr p ≠ some p := fun self => notOlder (shape.ysptr_spec found member self).2
  simp only [Tree.auditLinks, append_eq_nil_iff, warnIf_eq_nil, notFather, notChild, notOlder, notYounger,
    fine fun b link => shape.linked inTask (.inl link),
    fine fun b link => shape.linked inTask (.inr (.inl link)),
    fine fun b link => shape.linked inTask (.inr (.inr (.inl link))),
    fine fun b link => shape.linked inTask (.inr (.inr (.inr link)))]
  decide

theorem Shape.auditSiblings (shape : t.Shape kids born now) (inTask : t.InTask p) (notRoot : p ≠ initTask) :
    t.auditOlder p = [] ∧ t.auditYounger p = [] := by
  obtain ⟨father, found, up, member⟩ := shape.isKid inTask notRoot
  constructor
  · unfold auditOlder
    cases next : t.osptr p with
    | none => rfl
    | some older =>
      obtain ⟨sibling, back⟩ := shape.osptr_spec found member next
      have sameFather : t.pptr p = t.pptr older := up.trans ((shape.mem father found older).mp sibling).2.2.symm
      simp [sameFather, back]
  · unfold auditYounger
    cases prev : t.ysptr p with
    | none => rfl
    | some younger =>
      obtain ⟨sibling, back⟩ := shape.ysptr_spec found member prev
      have sameFather : t.pptr p = t.pptr younger := up.trans ((shape.mem father found younger).mp sibling).2.2.symm
      simp [sameFather, back]

theorem Shape.auditChild (shape : t.Shape kids born now) (inTask : t.InTask p) : t.auditChild p = [] := by
  unfold Tree.auditChild
  cases first : t.cptr p with
  | none => rfl
  | some child =>
    obtain ⟨member, youngest⟩ := shape.cptr_spec inTask first
    have up := ((shape.mem p inTask child).mp member).2.2
    simp [up, youngest]

theorem Shape.auditPtree (shape : t.Shape kids born now) : t.auditPtree = [] := by
  rw [Tree.auditPtree, flatMap_eq_nil_iff]
  intro i _
  split
  · rfl
  next notZero =>
    cases found : t.task i with
    | none => rfl
    | some p =>
      have inTask : t.InTask p := ⟨i, found⟩
      have notRoot : p ≠ initTask := by
        rintro rfl
        exact notZero ((shape.root i).mp found)
      obtain ⟨older, younger⟩ := shape.auditSiblings inTask notRoot
      simp only [shape.auditLinks inTask notRoot, older, younger, shape.auditChild inTask, append_nil]

theorem Shape.good (shape : t.Shape kids born now) : t.Good where
  silent := shape.auditPtree
  lists := fun a inTask => ⟨kids a, ⟨shape.chain a inTask, shape.nodup a⟩, shape.mem a inTask⟩
  inTask := fun _ _ inTask => shape.linked inTask
  noZombieParent := fun _ _ inTask _ => shape.noZombieParent inTask
  noFault := shape.noFault

/-! ## Fork -/

variable {q : Slot}

theorem task_fork {i : Slot} (found : (t.fork p q a).task i = some b) :
    i = q ∧ b = a ∨ i ≠ q ∧ t.task i = some b := by
  by_cases same : i = q
  · subst same
    have stored : (t.fork p i a).task i = some a := update_self ..
    exact .inl ⟨rfl, Option.some.inj (found.symm.trans stored)⟩
  · have kept : (t.fork p q a).task i = t.task i := update_of_ne same ..
    exact .inr ⟨same, kept.symm.trans found⟩

theorem inTask_fork (free : t.task q = none) (b : Nat) : (t.fork p q a).InTask b ↔ b = a ∨ t.InTask b := by
  constructor
  · rintro ⟨i, found⟩
    rcases task_fork found with ⟨-, same⟩ | ⟨-, old⟩
    · exact .inl same
    · exact .inr ⟨i, old⟩
  · rintro (rfl | ⟨i, found⟩)
    · exact ⟨q, update_self ..⟩
    · have differ : i ≠ q := by
        rintro rfl
        rw [free] at found
        cases found
      exact ⟨i, (update_of_ne differ ..).trans found⟩

theorem Shape.fork_init (shape : t.Shape kids born now) (inTask : t.InTask p) (free : t.task q = none)
    (onlyInit : p = initTask → q = initSlot) : p = initTask ↔ q = initSlot := by
  refine ⟨onlyInit, fun same => ?_⟩
  rw [same] at free
  exact shape.alone free p inTask

theorem Shape.fork (shape : t.Shape kids born now) (running : t.Running p) (notZero : q.val ≠ 0)
    (free : t.task q = none) (new : ¬t.InTask a) (onlyInit : p = initTask → q = initSlot) :
    (t.fork p q a).Shape (update (update kids a []) p (a :: kids p)) (update born a now) (now + 1) := by
  obtain ⟨inTask, alive, -⟩ := running
  have aNotP : a ≠ p := fun same => new (same ▸ inTask)
  have ofOld {b : Nat} (old : t.InTask b) : b ≠ a := fun same => new (same ▸ old)
  have aNotRoot : a ≠ initTask := (ofOld shape.rootInTask).symm
  have aNotKid {x : Nat} (found : t.InTask x) : a ∉ kids x := fun member =>
    new ((shape.mem x found a).mp member).1
  have kidsP : update (update kids a []) p (a :: kids p) p = a :: kids p := update_self ..
  have kidsA : update (update kids a []) p (a :: kids p) a = [] := by
    rw [update_of_ne aNotP, update_self]
  have kidsOld {x : Nat} (notP : x ≠ p) (notA : x ≠ a) :
      update (update kids a []) p (a :: kids p) x = kids x := by
    rw [update_of_ne notP, update_of_ne notA]
  have pptrA : (t.fork p q a).pptr a = some p := update_self ..
  have pptrOld {b : Nat} (notA : b ≠ a) : (t.fork p q a).pptr b = t.pptr b := update_of_ne notA ..
  have taskOld {i : Slot} (other : i ≠ q) : (t.fork p q a).task i = t.task i := update_of_ne other ..
  have taskNew : (t.fork p q a).task q = some a := update_self ..
  have osptrOld {b : Nat} (notA : b ≠ a) : (t.fork p q a).osptr b = t.osptr b := update_of_ne notA ..
  have ysptrOld {b : Nat} (notA : b ≠ a) (notFirst : t.cptr p ≠ some b) :
      (t.fork p q a).ysptr b = t.ysptr b :=
    (storeAt_of_ne notFirst).trans (update_of_ne notA ..)
  refine {
    distinct := fun i j b found found' => ?_
    root := fun i => ?_
    rootLinks := ?_
    rootAlive := ?_
    chain := fun x found => ?_
    nodup := fun x => ?_
    mem := fun x found b => ?_
    parent := fun b found => ?_
    childless := fun x found dead => ?_
    alone := fun empty => ?_
    init := fun i found => ?_
    older := fun x b found notRoot up => ?_
    initOldest := fun i b init found notRoot notInit => ?_
    past := fun b found => ?_
    reaped := fun x y found reaping => ?_
    noFault := shape.noFault }
  · rcases task_fork found with ⟨isQ, rfl⟩ | ⟨other, old⟩ <;>
      rcases task_fork found' with ⟨isQ', same⟩ | ⟨other', old'⟩
    · exact isQ.trans isQ'.symm
    · exact absurd ⟨j, old'⟩ new
    · exact absurd ⟨i, same ▸ old⟩ new
    · exact shape.distinct i j b old old'
  · by_cases same : i = q
    · subst same
      rw [taskNew]
      exact iff_of_false (fun root => aNotRoot (Option.some.inj root)) notZero
    · rw [taskOld same]
      exact shape.root i
  · obtain ⟨up, prev, next⟩ := shape.rootLinks
    refine ⟨(pptrOld aNotRoot.symm).trans up, ?_, (osptrOld aNotRoot.symm).trans next⟩
    refine (ysptrOld aNotRoot.symm fun first => ?_).trans prev
    exact ((shape.mem p inTask _).mp (shape.cptr_spec inTask first).1).2.1 rfl
  · exact (update_of_ne aNotRoot.symm ..).trans shape.rootAlive
  · by_cases isP : x = p
    · subst isP
      rw [kidsP]
      have first : (t.fork x q a).cptr x = some a := update_self ..
      rw [first]
      exact (shape.chain x inTask).linkFirst (shape.nodup x) (aNotKid inTask)
    · by_cases isA : x = a
      · subst isA
        rw [kidsA]
        exact (update_of_ne isP ..).trans (update_self ..)
      · have old : t.InTask x := ((inTask_fork free x).mp found).resolve_left isA
        rw [kidsOld isP isA]
        have first : (t.fork p q a).cptr x = t.cptr x := (update_of_ne isP ..).trans (update_of_ne isA ..)
        rw [first]
        refine (shape.chain x old).congr (fun y member => ?_) fun y member => ?_
        · exact osptrOld fun same => aNotKid old (same ▸ member)
        · refine ysptrOld (fun same => aNotKid old (same ▸ member)) fun isFirst => isP ?_
          exact shape.apart old inTask member (shape.cptr_spec inTask isFirst).1
  · by_cases isP : x = p
    · subst isP
      rw [kidsP]
      exact nodup_cons.mpr ⟨aNotKid inTask, shape.nodup x⟩
    · by_cases isA : x = a
      · subst isA
        rw [kidsA]
        exact .nil
      · rw [kidsOld isP isA]
        exact shape.nodup x
  · rw [inTask_fork free]
    by_cases isA : x = a
    · subst isA
      rw [kidsA]
      refine iff_of_false not_mem_nil fun ⟨inTaskB, _, up⟩ => ?_
      by_cases same : b = x
      · rw [same, pptrA] at up
        exact aNotP (Option.some.inj up).symm
      · rw [pptrOld same] at up
        exact new (shape.linked (inTaskB.resolve_left same) (.inl up))
    · have old : t.InTask x := ((inTask_fork free x).mp found).resolve_left isA
      by_cases same : b = a
      · subst same
        rw [pptrA]
        by_cases isP : x = p
        · subst isP
          rw [kidsP]
          exact iff_of_true (.head _) ⟨.inl rfl, aNotRoot, rfl⟩
        · rw [kidsOld isP isA]
          exact iff_of_false (aNotKid old) fun ⟨_, _, up⟩ => isP (Option.some.inj up).symm
      · rw [pptrOld same, or_iff_right same, ← shape.mem x old b]
        by_cases isP : x = p
        · subst isP
          rw [kidsP, mem_cons, or_iff_right same]
        · rw [kidsOld isP isA]
  · rw [inTask_fork free] at found
    rcases found with rfl | old
    · exact ⟨p, (inTask_fork free p).mpr (.inr inTask), pptrA⟩
    · obtain ⟨father, inTaskF, up⟩ := shape.parent b old
      exact ⟨father, (inTask_fork free father).mpr (.inr inTaskF), (pptrOld (ofOld old)).trans up⟩
  · by_cases isA : x = a
    · rw [isA]
      exact kidsA
    · have old : t.InTask x := ((inTask_fork free x).mp found).resolve_left isA
      have dead' : t.zombie x = true := (update_of_ne isA ..).symm.trans dead
      have notP : x ≠ p := by
        rintro rfl
        rw [alive] at dead'
        cases dead'
      rw [kidsOld notP isA]
      exact shape.childless x old dead'
  · have other : initSlot ≠ q := by
      rintro rfl
      rw [taskNew] at empty
      cases empty
    rw [taskOld other] at empty
    have isRoot := shape.alone empty p inTask
    exact absurd (onlyInit isRoot).symm other
  · rcases task_fork found with ⟨isInit, rfl⟩ | ⟨other, found⟩
    · have isRoot : p = initTask := (shape.fork_init inTask free onlyInit).mpr isInit.symm
      subst isRoot
      refine ⟨update_self .., ?_⟩
      rw [kidsP]
      have none : kids initTask = [] := by
        rw [eq_nil_iff_forall_not_mem]
        intro b member
        obtain ⟨inTaskB, notRoot, -⟩ := (shape.mem initTask inTask b).mp member
        exact notRoot (shape.alone (isInit ▸ free) b inTaskB)
      rw [none]
    · have notRoot : initTask ≠ p := fun same => other (onlyInit same.symm).symm
      obtain ⟨initAlive, rootKids⟩ := shape.init i found
      have notA : i ≠ a := ofOld ⟨_, found⟩
      rw [kidsOld notRoot aNotRoot.symm]
      exact ⟨(update_of_ne notA ..).trans initAlive, rootKids⟩
  · rw [inTask_fork free] at found
    rcases found with rfl | old
    · cases pptrA.symm.trans up
      rw [update_self, update_of_ne aNotP.symm]
      exact shape.past p inTask
    · rw [pptrOld (ofOld old)] at up
      have notA : x ≠ a := ofOld (shape.linked old (.inl up))
      rw [update_of_ne (ofOld old), update_of_ne notA]
      exact shape.older x b old notRoot up
  · rw [inTask_fork free] at found
    rcases task_fork init with ⟨isInit, rfl⟩ | ⟨other, oldInit⟩
    · have old : t.InTask b := found.resolve_left notInit
      exact absurd (shape.alone (isInit ▸ free) b old) notRoot
    · rw [update_of_ne (ofOld ⟨_, oldInit⟩)]
      rcases found with rfl | old
      · rw [update_self]
        exact shape.past i ⟨_, oldInit⟩
      · rw [update_of_ne (ofOld old)]
        exact shape.initOldest i b oldInit old notRoot notInit
  · rw [inTask_fork free] at found
    rcases found with rfl | old
    · rw [update_self]
      exact Nat.lt_succ_self now
    · rw [update_of_ne (ofOld old)]
      exact Nat.lt_succ_of_lt (shape.past b old)
  · rw [inTask_fork free] at found
    rcases found with rfl | old
    · have none : (t.fork p q x).reaping x = none := update_self ..
      cases none.symm.trans reaping
    · have before : t.reaping x = some y := (update_of_ne (ofOld old) ..).symm.trans reaping
      obtain ⟨aliveX, inTaskY, dead, up⟩ := shape.reaped x y old before
      have notA := ofOld inTaskY
      exact ⟨(update_of_ne (ofOld old) ..).trans aliveX, (inTask_fork free y).mpr (.inr inTaskY),
        (update_of_ne notA ..).trans dead, (pptrOld notA).trans up⟩

/-! ## Exit -/

theorem adopt_eq {current fuel z : Nat} {front : List Nat} {back : Option Nat}
    (chain : Chain t.osptr t.ysptr (some p) back (front ++ [z])) (short : front.length < fuel) :
    adopt current fuel p t =
      { t with pptr := fun b => if b ∈ front ++ [z] then t.task initSlot else t.pptr b }.linkToInit current z := by
  induction front generalizing p back fuel t with
  | nil =>
    obtain ⟨fuel, rfl⟩ : ∃ less, fuel = less + 1 := ⟨fuel - 1, by simp at short; omega⟩
    obtain ⟨isFirst, -, last⟩ := chain
    obtain rfl : p = z := Option.some.inj isFirst
    have next : t.osptr p = none := last
    have moved : update t.pptr p (t.task initSlot) =
        fun b => if b ∈ [] ++ [p] then t.task initSlot else t.pptr b := by
      funext b
      rw [update_apply, nil_append]
      simp only [mem_singleton]
    simp only [adopt, next, moved]
  | cons y front ih =>
    obtain ⟨fuel, rfl⟩ : ∃ less, fuel = less + 1 := ⟨fuel - 1, by simp at short; omega⟩
    obtain ⟨isFirst, -, tail⟩ := chain
    obtain rfl : p = y := Option.some.inj isFirst
    obtain ⟨older, next⟩ : ∃ older, t.osptr p = some older := by
      cases front with
      | nil => exact ⟨z, tail.1⟩
      | cons x front => exact ⟨x, tail.1⟩
    rw [next] at tail
    simp only [adopt, next]
    rw [ih (t := { t with pptr := update t.pptr p (t.task initSlot) }) tail (Nat.lt_of_succ_lt_succ short)]
    congr 2
    funext b
    dsimp only
    rw [update_apply, cons_append]
    by_cases later : b ∈ front ++ [z] <;> by_cases same : b = p <;> simp [later, same]

theorem Shape.stopReaping (shape : t.Shape kids born now) (p : Nat) :
    ({ t with reaping := update t.reaping p none } : Tree).Shape kids born now := by
  refine { shape with reaped := fun x y inTask reaping => ?_ }
  have differ : x ≠ p := by
    rintro rfl
    simp only [update_self, reduceCtorEq] at reaping
  exact shape.reaped x y inTask ((update_of_ne differ ..).symm.trans reaping)

theorem Shape.die (shape : t.Shape kids born now) (notRoot : p ≠ initTask) (notInit : t.task initSlot ≠ some p)
    (idle : t.reaping p = none) (childless : kids p = []) :
    ({ t with zombie := update t.zombie p true } : Tree).Shape kids born now := by
  refine { shape with
    rootAlive := (update_of_ne notRoot.symm ..).trans shape.rootAlive
    childless := fun a inTask dead => ?_
    init := fun i init => ?_
    reaped := fun x y inTask reaping => ?_ }
  · by_cases same : a = p
    · rw [same]
      exact childless
    · exact shape.childless a inTask ((update_of_ne same ..).symm.trans dead)
  · have differ : i ≠ p := fun same => notInit (same ▸ init)
    exact ⟨(update_of_ne differ ..).trans (shape.init i init).1, (shape.init i init).2⟩
  · have before : t.reaping x = some y := reaping
    have differ : x ≠ p := by
      rintro rfl
      cases idle.symm.trans before
    obtain ⟨alive, found, dead, up⟩ := shape.reaped x y inTask before
    refine ⟨(update_of_ne differ ..).trans alive, found, ?_, up⟩
    by_cases same : y = p
    · rw [same]
      exact update_self ..
    · exact (update_of_ne same ..).trans dead

theorem Shape.inherit (shape : t.Shape kids born now) {init z h : Nat} {front behind : List Nat}
    (inTask : t.InTask p) (idle : t.reaping p = none) (notRoot : p ≠ initTask) (differ : init ≠ p)
    (isInit : t.task initSlot = some init) (own : kids p = front ++ [z]) (others : kids init = h :: behind) :
    ({ t with
      pptr := fun b => if b ∈ front ++ [z] then some init else t.pptr b
      osptr := update t.osptr z (some h)
      ysptr := update t.ysptr h (some z)
      cptr := update (update t.cptr init (t.cptr p)) p none } : Tree).Shape
      (update (update kids init (front ++ z :: h :: behind)) p []) born now := by
  have inTaskInit : t.InTask init := ⟨_, isInit⟩
  have initNotRoot : init ≠ initTask := by
    rintro rfl
    have := (shape.root initSlot).mp isInit
    cases this
  have ownMem {b : Nat} : b ∈ front ++ [z] ↔ b ∈ kids p := by rw [own]
  have zOwn : z ∈ kids p := by simp [own]
  have hInit : h ∈ kids init := by simp [others]
  have joined : front ++ z :: h :: behind = kids p ++ kids init := by simp [own, others]
  have kidsP : update (update kids init (front ++ z :: h :: behind)) p [] p = [] := update_self ..
  have kidsInit : update (update kids init (front ++ z :: h :: behind)) p [] init =
      kids p ++ kids init := by
    rw [update_of_ne differ, update_self, joined]
  have kidsOther {x : Nat} (notP : x ≠ p) (notInit : x ≠ init) :
      update (update kids init (front ++ z :: h :: behind)) p [] x = kids x := by
    rw [update_of_ne notP, update_of_ne notInit]
  have distinct : (kids p ++ kids init).Nodup := by
    refine nodup_append.mpr ⟨shape.nodup p, shape.nodup init, fun b member c member' same => ?_⟩
    exact differ (shape.apart inTaskInit inTask (same ▸ member') member)
  have ofKid {b : Nat} (member : b ∈ kids p) : t.InTask b ∧ b ≠ initTask ∧ t.pptr b = some p :=
    (shape.mem p inTask b).mp member
  have initNotOwn : init ∉ kids p := by
    intro member
    have rootKid : init ∈ kids initTask := by simp [(shape.init init isInit).2]
    exact notRoot (shape.apart inTask shape.rootInTask member rootKid)
  refine { shape with
    rootLinks := ?_
    chain := fun x found => ?_
    nodup := fun x => ?_
    mem := fun x found b => ?_
    parent := fun b found => ?_
    childless := fun x found dead => ?_
    init := fun i found => ?_
    older := fun x b found notRoot' up => ?_
    reaped := fun x y found reaping => ?_ }
  · obtain ⟨up, prev, next⟩ := shape.rootLinks
    refine ⟨?_, ?_, ?_⟩
    · exact (if_neg fun member => (ofKid (ownMem.mp member)).2.1 rfl).trans up
    · refine (update_of_ne ?_ ..).trans prev
      rintro rfl
      exact ((shape.mem init inTaskInit _).mp hInit).2.1 rfl
    · refine (update_of_ne ?_ ..).trans next
      rintro rfl
      exact (ofKid zOwn).2.1 rfl
  · by_cases isP : x = p
    · subst isP
      rw [kidsP]
      exact update_self ..
    · by_cases same : x = init
      · subst same
        have first : update (update t.cptr x (t.cptr p)) p none x = t.cptr p := by
          rw [update_of_ne differ, update_self]
        dsimp only
        rw [first, kidsInit, ← joined]
        have chainP := shape.chain p inTask
        have chainInit := shape.chain x inTaskInit
        rw [own] at chainP
        rw [others] at chainInit
        rw [chainInit.1] at chainInit
        exact chainP.splice chainInit (joined ▸ distinct)
      · have old : t.InTask x := found
        rw [kidsOther isP same]
        have first : update (update t.cptr init (t.cptr p)) p none x = t.cptr x := by
          rw [update_of_ne isP, update_of_ne same]
        dsimp only
        rw [first]
        refine (shape.chain x old).congr (fun y member => ?_) fun y member => ?_
        · have notZ : y ≠ z := by
            rintro rfl
            exact isP (shape.apart old inTask member zOwn)
          exact update_of_ne notZ ..
        · have notH : y ≠ h := by
            rintro rfl
            exact same (shape.apart old inTaskInit member hInit)
          exact update_of_ne notH ..
  · by_cases isP : x = p
    · rw [isP, kidsP]
      exact .nil
    · by_cases same : x = init
      · rw [same, kidsInit]
        exact distinct
      · rw [kidsOther isP same]
        exact shape.nodup x
  · have old : t.InTask x := found
    change b ∈ _ ↔ t.InTask b ∧ b ≠ initTask ∧ (if b ∈ front ++ [z] then some init else t.pptr b) = some x
    by_cases mine : b ∈ kids p
    · rw [if_pos (ownMem.mpr mine)]
      by_cases isP : x = p
      · rw [isP, kidsP]
        exact iff_of_false not_mem_nil fun both => differ (Option.some.inj both.2.2)
      · by_cases same : x = init
        · subst same
          rw [kidsInit]
          exact iff_of_true (mem_append_left _ mine) ⟨(ofKid mine).1, (ofKid mine).2.1, rfl⟩
        · rw [kidsOther isP same]
          exact iff_of_false (fun member => isP (shape.apart old inTask member mine)) fun both =>
            same (Option.some.inj both.2.2).symm
    · rw [if_neg fun member => mine (ownMem.mp member), ← shape.mem x old b]
      by_cases isP : x = p
      · rw [isP, kidsP]
        exact iff_of_false not_mem_nil mine
      · by_cases same : x = init
        · rw [same, kidsInit, mem_append, or_iff_right mine]
        · rw [kidsOther isP same]
  · have old : t.InTask b := found
    change ∃ a, t.InTask a ∧ (if b ∈ front ++ [z] then some init else t.pptr b) = some a
    split
    · exact ⟨init, inTaskInit, rfl⟩
    · exact shape.parent b old
  · have old : t.InTask x := found
    have dead' : t.zombie x = true := dead
    by_cases isP : x = p
    · rw [isP, kidsP]
    · have notInit : x ≠ init := by
        rintro rfl
        rw [(shape.init x isInit).1] at dead'
        cases dead'
      rw [kidsOther isP notInit]
      exact shape.childless x old dead'
  · obtain ⟨initAlive, rootKids⟩ := shape.init i found
    refine ⟨initAlive, ?_⟩
    rw [kidsOther notRoot.symm initNotRoot.symm]
    exact rootKids
  · have old : t.InTask b := found
    change (if b ∈ front ++ [z] then some init else t.pptr b) = some x at up
    split at up
    next member =>
      cases up
      have notInit : b ≠ init := fun same => initNotOwn (same ▸ ownMem.mp member)
      exact shape.initOldest init b isInit old notRoot' notInit
    · exact shape.older x b old notRoot' up
  · obtain ⟨aliveX, inTaskY, dead, up⟩ := shape.reaped x y found reaping
    refine ⟨aliveX, inTaskY, dead, (if_neg fun member => ?_).trans up⟩
    cases up.symm.trans (ofKid (ownMem.mp member)).2.2
    cases idle.symm.trans reaping

theorem Shape.exit (shape : t.Shape kids born now) (inTask : t.InTask p) (notRoot : p ≠ initTask)
    (notInit : t.task initSlot ≠ some p) : ∃ kids, (t.exit p).Shape kids born now := by
  obtain ⟨init, isInit⟩ : ∃ init, t.task initSlot = some init := by
    cases empty : t.task initSlot with
    | none => exact absurd (shape.alone empty p inTask) notRoot
    | some init => exact ⟨init, rfl⟩
  have differ : init ≠ p := fun same => notInit (same ▸ isInit)
  have idle := shape.stopReaping p
  have cleared : update t.reaping p none p = none := update_self ..
  have chain := shape.chain p inTask
  cases first : t.cptr p with
  | none =>
    have childless : kids p = [] := by
      rw [first] at chain
      cases list : kids p with
      | nil => rfl
      | cons x rest =>
        rw [list] at chain
        cases chain.1
    refine ⟨kids, ?_⟩
    simp only [Tree.exit, first]
    exact idle.die notRoot notInit cleared childless
  | some child =>
    obtain ⟨front, z, own⟩ : ∃ front z, kids p = front ++ [z] := by
      have nonempty := ne_nil_of_mem (shape.cptr_spec inTask first).1
      exact ⟨_, _, (dropLast_append_getLast nonempty).symm⟩
    obtain ⟨h, behind, others⟩ := exists_cons_of_ne_nil (shape.initBusy isInit inTask notRoot differ.symm)
    have firstInit : t.cptr init = some h := by
      have chainInit := shape.chain init ⟨_, isInit⟩
      rw [others] at chainInit
      exact chainInit.1
    have short : front.length < NR_TASKS := by
      have bound := shape.length_le inTask
      rw [own, length_append] at bound
      exact Nat.lt_of_succ_le bound
    refine ⟨update (update kids init (front ++ z :: h :: behind)) p [], ?_⟩
    rw [first, own] at chain
    simp only [Tree.exit, first]
    rw [adopt_eq (by exact chain) short]
    simp only [linkToInit, isInit, firstInit]
    exact (idle.inherit inTask cleared notRoot differ isInit own others).die notRoot notInit cleared (update_self ..)

/-! ## Reaping -/

theorem mem_childrenFrom {fuel : Nat} {link back : Option Nat} {list : List Nat}
    (chain : Chain t.osptr t.ysptr link back list) (found : p ∈ t.childrenFrom fuel link) : p ∈ list := by
  induction fuel generalizing link back list with
  | zero => cases found
  | succ fuel ih =>
    cases list with
    | nil =>
      obtain rfl : link = none := chain
      cases found
    | cons x rest =>
      obtain ⟨rfl, -, tail⟩ := chain
      rcases mem_cons.mp found with rfl | later
      · exact .head _
      · exact .tail _ (ih tail later)

theorem Shape.waitpid (shape : t.Shape kids born now) {q : Nat} (running : t.Running p)
    (child : q ∈ t.children p) (dead : t.zombie q = true) :
    ({ t with reaping := update t.reaping p (some q) } : Tree).Shape kids born now := by
  obtain ⟨inTask, alive, -⟩ := running
  refine { shape with reaped := fun x y found reaping => ?_ }
  by_cases same : x = p
  · subst same
    simp only [update_self, Option.some.injEq] at reaping
    subst reaping
    obtain ⟨inTaskQ, -, up⟩ := (shape.mem x inTask q).mp (mem_childrenFrom (shape.chain x inTask) child)
    exact ⟨alive, inTaskQ, dead, up⟩
  · exact shape.reaped x y found ((update_of_ne same ..).symm.trans reaping)

theorem unlink_eq {father : Nat} {list : List Nat} (chain : Chain t.osptr t.ysptr (t.cptr father) none list)
    (member : p ∈ list) (up : t.pptr p = some father) :
    t.unlink p =
      { t with
        osptr := unlinkNext t.osptr t.ysptr p
        ysptr := unlinkPrev t.osptr t.ysptr p
        cptr := update t.cptr father (unlinkFirst t.osptr (t.cptr father) p) } := by
  have older : t.unlinkOlder p = { t with ysptr := unlinkPrev t.osptr t.ysptr p } := by
    rw [unlinkOlder, unlinkPrev]
    cases t.osptr p <;> rfl
  have kept : unlinkPrev t.osptr t.ysptr p p = t.ysptr p := storeAt_same ..
  simp only [Tree.unlink, older, unlinkYounger, kept]
  cases prev : t.ysptr p with
  | none =>
    have first := (chain.first_of_prev member prev).1
    simp only [unlinkNext, prev, storeAt, up, unlinkFirst, first, if_true]
  | some younger =>
    have notFirst : t.cptr father ≠ some p := by
      intro first
      have isFirst := chain.prev_of_first first
      cases isFirst.symm.trans prev
    simp only [unlinkNext, prev, storeAt, unlinkFirst, if_neg notFirst, update_eq_self]

theorem Shape.remove (shape : t.Shape kids born now) {q : Nat} {i : Slot} (inTask : t.InTask p)
    (idle : t.reaping p = none) (slot : t.task i = some q) (dead : t.zombie q = true) (member : q ∈ kids p) :
    ({ t with
      task := update t.task i none
      osptr := unlinkNext t.osptr t.ysptr q
      ysptr := unlinkPrev t.osptr t.ysptr q
      cptr := update t.cptr p (unlinkFirst t.osptr (t.cptr p) q) } : Tree).Shape
      (update kids p ((kids p).erase q)) born now := by
  obtain ⟨inTaskQ, notRoot, up⟩ := (shape.mem p inTask q).mp member
  have childless := shape.childless q inTaskQ dead
  have notInit : i ≠ initSlot := by
    rintro rfl
    cases (shape.init q slot).1.symm.trans dead
  have notFirst : i.val ≠ 0 := fun zero => notRoot (Option.some.inj (slot.symm.trans ((shape.root i).mpr zero)))
  have taskOld {j : Slot} (other : j ≠ i) : update t.task i none j = t.task j := update_of_ne other ..
  have found_iff {j : Slot} {b : Nat} :
      update t.task i none j = some b ↔ t.task j = some b ∧ b ≠ q := by
    by_cases same : j = i
    · subst same
      rw [update_self, slot]
      refine iff_of_false (by simp) fun both => both.2 (Option.some.inj both.1).symm
    · rw [taskOld same]
      refine ⟨fun found => ⟨found, ?_⟩, And.left⟩
      rintro rfl
      exact same (shape.distinct j i b found slot)
  have inTask_iff {b : Nat} : (∃ j, update t.task i none j = some b) ↔ t.InTask b ∧ b ≠ q := by
    constructor
    · rintro ⟨j, found⟩
      exact ⟨⟨j, (found_iff.mp found).1⟩, (found_iff.mp found).2⟩
    · rintro ⟨⟨j, found⟩, differ⟩
      exact ⟨j, found_iff.mpr ⟨found, differ⟩⟩
  have kidsP : update kids p ((kids p).erase q) p = (kids p).erase q := update_self ..
  have kidsOther {x : Nat} (notP : x ≠ p) : update kids p ((kids p).erase q) x = kids x := update_of_ne notP ..
  have notFather {b : Nat} (upB : t.pptr b = some q) (inTaskB : t.InTask b) (notRootB : b ≠ initTask) : False := by
    have memberB := (shape.mem q inTaskQ b).mpr ⟨inTaskB, notRootB, upB⟩
    rw [childless] at memberB
    cases memberB
  refine { shape with
    distinct := fun j j' a found found' => ?_
    root := fun j => ?_
    rootLinks := ?_
    chain := fun x found => ?_
    nodup := fun x => ?_
    mem := fun x found b => ?_
    parent := fun b found => ?_
    childless := fun x found deadX => ?_
    alone := fun empty x found => ?_
    init := fun j found => ?_
    older := fun x b found => ?_
    initOldest := fun j b init found => ?_
    past := fun b found => ?_
    reaped := fun x y found reaping => ?_ }
  · exact shape.distinct j j' a (found_iff.mp found).1 (found_iff.mp found').1
  · refine found_iff.trans ?_
    rw [and_iff_left notRoot.symm]
    exact shape.root j
  · obtain ⟨rootUp, rootPrev, rootNext⟩ := shape.rootLinks
    refine ⟨rootUp, (storeAt_of_ne fun next => ?_).trans rootPrev, (storeAt_of_ne fun prev => ?_).trans rootNext⟩
    · exact ((shape.mem p inTask _).mp (shape.osptr_spec inTask member next).1).2.1 rfl
    · exact ((shape.mem p inTask _).mp (shape.ysptr_spec inTask member prev).1).2.1 rfl
  · obtain ⟨old, notQ⟩ := inTask_iff.mp found
    by_cases isP : x = p
    · subst isP
      dsimp only
      rw [kidsP, update_self]
      exact (shape.chain x inTask).unlink (shape.nodup x) (fun _ absent => nomatch absent) member
    · have apart {y : Nat} (sibling : y ∈ kids p) : y ∉ kids x := fun other =>
        isP (shape.apart old inTask other sibling)
      dsimp only
      rw [kidsOther isP, update_of_ne isP]
      refine (shape.chain x old).congr (fun y other => ?_) fun y other => ?_
      · exact storeAt_of_ne fun prev => apart (shape.ysptr_spec inTask member prev).1 other
      · exact storeAt_of_ne fun next => apart (shape.osptr_spec inTask member next).1 other
  · by_cases isP : x = p
    · rw [isP, kidsP]
      exact (shape.nodup p).erase q
    · rw [kidsOther isP]
      exact shape.nodup x
  · obtain ⟨old, notQ⟩ := inTask_iff.mp found
    have same : (b ∈ update kids p ((kids p).erase q) x) ↔ b ≠ q ∧ b ∈ kids x := by
      by_cases isP : x = p
      · rw [isP, kidsP, (shape.nodup p).mem_erase_iff]
      · rw [kidsOther isP]
        refine ⟨fun other => ⟨?_, other⟩, And.right⟩
        rintro rfl
        exact isP (shape.apart old inTask other member)
    rw [same, shape.mem x old b]
    constructor
    · rintro ⟨differ, inTaskB, rest⟩
      exact ⟨inTask_iff.mpr ⟨inTaskB, differ⟩, rest⟩
    · rintro ⟨inTaskB, rest⟩
      obtain ⟨inTaskB, differ⟩ := inTask_iff.mp inTaskB
      exact ⟨differ, inTaskB, rest⟩
  · obtain ⟨old, notQ⟩ := inTask_iff.mp found
    obtain ⟨father, inTaskF, upB⟩ := shape.parent b old
    refine ⟨father, inTask_iff.mpr ⟨inTaskF, ?_⟩, upB⟩
    rintro rfl
    by_cases isRoot : b = initTask
    · rw [isRoot, shape.rootLinks.1] at upB
      exact notRoot (Option.some.inj upB).symm
    · exact notFather upB old isRoot
  · obtain ⟨old, notQ⟩ := inTask_iff.mp found
    have none := shape.childless x old deadX
    by_cases isP : x = p
    · rw [← isP, none] at member
      cases member
    · rw [kidsOther isP]
      exact none
  · exact shape.alone ((taskOld notInit.symm).symm.trans empty) x (inTask_iff.mp found).1
  · obtain ⟨initAlive, rootKids⟩ := shape.init j (found_iff.mp found).1
    refine ⟨initAlive, ?_⟩
    by_cases isP : initTask = p
    · rw [← isP, rootKids, mem_singleton] at member
      exact absurd member.symm (found_iff.mp found).2
    · rw [kidsOther isP]
      exact rootKids
  · exact shape.older x b (inTask_iff.mp found).1
  · exact shape.initOldest j b (found_iff.mp init).1 (inTask_iff.mp found).1
  · exact shape.past b (inTask_iff.mp found).1
  · obtain ⟨aliveX, inTaskY, deadY, upY⟩ := shape.reaped x y (inTask_iff.mp found).1 reaping
    refine ⟨aliveX, inTask_iff.mpr ⟨inTaskY, ?_⟩, deadY, upY⟩
    rintro rfl
    cases upY.symm.trans up
    cases idle.symm.trans reaping

theorem Shape.release (shape : t.Shape kids born now) {q : Nat} (inTask : t.InTask p)
    (reaping : t.reaping p = some q) : ({ t with reaping := update t.reaping p none }.release p q).Shape
      (update kids p ((kids p).erase q)) born now := by
  obtain ⟨alive, inTaskQ, dead, up⟩ := shape.reaped p q inTask reaping
  have notRoot : q ≠ initTask := by
    rintro rfl
    cases shape.rootAlive.symm.trans dead
  have differ : q ≠ p := by
    rintro rfl
    cases alive.symm.trans dead
  have member : q ∈ kids p := (shape.mem p inTask q).mpr ⟨inTaskQ, notRoot, up⟩
  obtain ⟨i, search, slot⟩ : ∃ i, t.findTask q = some i ∧ t.task i = some q := by
    obtain ⟨i, found⟩ := inTaskQ
    have notZero : i.val ≠ 0 := fun zero =>
      notRoot (Option.some.inj (found.symm.trans ((shape.root i).mpr zero)))
    cases search : t.findTask q with
    | none =>
      have missed := find?_eq_none.mp search i (mem_finRange i)
      simp [found, notZero] at missed
    | some j =>
      have fits := find?_some search
      simp only [Bool.and_eq_true, beq_iff_eq] at fits
      exact ⟨j, rfl, fits.2⟩
  have idle := shape.stopReaping p
  have search' : ({ t with reaping := update t.reaping p none } : Tree).findTask q = some i := search
  simp only [Tree.release, if_neg differ, search']
  rw [unlink_eq (by exact idle.chain p inTask) member (by exact up)]
  exact idle.remove inTask (update_self ..) slot dead member

/-! ## Runs -/

theorem Shape.step (shape : t.Shape kids born now) {move : Move} {t' : Tree} (moved : t.step move = some t') :
    ∃ kids born now, t'.Shape kids born now := by
  cases move with
  | fork p q a =>
    obtain ⟨⟨running, notZero, free, new, onlyInit⟩, same⟩ := Option.ite_none_right_eq_some.mp moved
    cases same
    exact ⟨_, _, _, shape.fork running notZero free new onlyInit⟩
  | exit p =>
    obtain ⟨⟨inTask, -, notRoot, notInit⟩, same⟩ := Option.ite_none_right_eq_some.mp moved
    cases same
    obtain ⟨kids, after⟩ := shape.exit inTask notRoot notInit
    exact ⟨kids, _, _, after⟩
  | waitpid p q =>
    obtain ⟨⟨running, child, dead⟩, same⟩ := Option.ite_none_right_eq_some.mp moved
    cases same
    exact ⟨_, _, _, shape.waitpid running child dead⟩
  | release p =>
    obtain ⟨inTask, found⟩ := Option.ite_none_right_eq_some.mp moved
    obtain ⟨q, reaping, rfl⟩ := Option.map_eq_some_iff.mp found
    exact ⟨_, _, _, shape.release inTask reaping⟩

/-- At all times the children of a task are on one list, the links lead to tasks, and
no father is a zombie; `audit_ptree` finds nothing to report. -/
theorem tree_well_formed {t : Tree} (reached : Reachable step boot t) : t.Good := by
  obtain ⟨kids, born, now, shape⟩ : ∃ kids born now, t.Shape kids born now := by
    refine Run.invariant (P := fun t : Tree => ∃ kids born now, t.Shape kids born now)
      (fun before _ moved => ?_) ⟨_, _, _, Shape.boot⟩ reached
    obtain ⟨kids, born, now, shape⟩ := before
    exact shape.step moved
  exact shape.good

theorem tree_well_formed_orphan :
    ∃ t, run step boot [.fork 0 initSlot 1, .fork 1 ⟨2, by decide⟩ 2, .fork 2 ⟨3, by decide⟩ 3, .exit 2, .waitpid 1 2, .exit 3,
        .release 1] = some t ∧ t.children 1 = [3] ∧ ¬t.InTask 2 ∧ t.Good := by
  exact exists_run (fun t => t.children 1 = [3] ∧ ¬t.InTask 2) (by decide +kernel)
    fun t ran ⟨orphan, gone⟩ => ⟨orphan, gone, tree_well_formed (reachable_of_run ran)⟩

/-- `task[0]` is its own father and on no list. -/
theorem root_on_no_list :
    ¬∀ t, Reachable step boot t → ∀ a, t.InTask a →
      ∃ kids, t.Lists a kids ∧ ∀ b, b ∈ kids ↔ t.InTask b ∧ t.pptr b = some a := by
  intro claimed
  have inTask : boot.InTask initTask := ⟨⟨0, by decide⟩, rfl⟩
  obtain ⟨kids, ⟨chain, -⟩, mem⟩ := claimed boot .start initTask inTask
  have own : initTask ∈ kids := (mem initTask).mpr ⟨inTask, rfl⟩
  cases kids with
  | nil => cases own
  | cons x rest => cases chain.1

end Tree

end Linux012.Kernel.ProcessTree

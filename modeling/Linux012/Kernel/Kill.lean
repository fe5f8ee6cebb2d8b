import Linux012.Kernel.Signal
import Linux012.Kernel.Sys

/-! `sys_kill`, as `kernel/exit.c` has it: which processes a signal reaches. -/

set_option autoImplicit false

namespace Linux012.Kernel.Kill

open Function List

def ESRCH : Int := 3
def EINVAL : Int := 22

structure Process where
  task : Task
  pid : Word
  pgrp : Word
  euid : Short

abbrev Table := Fin NR_TASKS → Option Process

inductive Fault where
  | nullDereference
  | outOfBounds

def isSignal (sig : Int) : Prop := 1 ≤ sig ∧ sig ≤ 32

instance (sig : Int) : Decidable (isSignal sig) := inferInstanceAs (Decidable (_ ∧ _))

def may (current p : Process) : Bool := current.euid = p.euid || current.euid = 0

namespace Process

def receive (p : Process) (sig : Int) : Process := { p with task := p.task.send sig.toNat }

def ignores (p : Process) (sig : Int) : Prop := (p.task.action sig.toNat).handler = 1

def pending (p : Process) (sig : Int) : Prop := p.task.signal.getLsbD (sig.toNat - 1) = true

end Process

def sendSig (current : Process) (sig : Int) (i : Fin NR_TASKS) (priv : Bool) (table : Table) :
    Except Fault (Int × Table) :=
  match table i with
  | none => .ok (-EINVAL, table)
  | some p =>
    if !priv && !may current p then .ok (-EPERM, table)
    -- `sigaction[sig-1]`
    else if ¬isSignal sig then .error .outOfBounds
    else .ok (0, update table i (some (p.receive sig)))

def slots : List (Fin NR_TASKS) := (List.finRange NR_TASKS).tail.reverse

def signalGroup (current : Process) (pgrp : Word) (sig : Int) (priv : Bool) :
    List (Fin NR_TASKS) → (found : Nat) → (retval : Int) → Table → Except Fault (Int × Table)
  | [], found, retval, table => .ok (if found ≠ 0 then 0 else retval, table)
  | i :: rest, found, retval, table =>
    match table i with
    | none => .error .nullDereference
    | some p =>
      if p.pgrp = pgrp then do
        let (err, table) ← if sig ≠ 0 then sendSig current sig i priv table else pure (0, table)
        if err ≠ 0 then signalGroup current pgrp sig priv rest found err table
        else signalGroup current pgrp sig priv rest (found + 1) retval table
      else signalGroup current pgrp sig priv rest found retval table

def killPg (current : Process) (pgrp : Word) (sig : Int) (priv : Bool) (table : Table) :
    Except Fault (Int × Table) :=
  if sig < 1 ∨ 32 < sig ∨ pgrp.toInt ≤ 0 then .ok (-EINVAL, table)
  else signalGroup current pgrp sig priv slots 0 (-ESRCH) table

def signalProcess (current : Process) (pid : Word) (sig : Int) (priv : Bool) (table : Table) :
    List (Fin NR_TASKS) → Except Fault (Int × Table)
  | [] => .ok (-ESRCH, table)
  | i :: rest =>
    match table i with
    | none => .error .nullDereference
    | some p =>
      if p.pid = pid then if sig ≠ 0 then sendSig current sig i priv table else .ok (0, table)
      else signalProcess current pid sig priv table rest

def killProc (current : Process) (pid : Word) (sig : Int) (priv : Bool) (table : Table) :
    Except Fault (Int × Table) :=
  if sig < 1 ∨ 32 < sig then .ok (-EINVAL, table)
  else signalProcess current pid sig priv table slots

/-- The loop of `sys_kill` over all tasks. -/
def signalAll (current : Process) (sig : Int) :
    List (Fin NR_TASKS) → (retval : Int) → Table → Except Fault (Int × Table)
  | [], retval, table => .ok (retval, table)
  | i :: rest, retval, table => do
    let (err, table) ← sendSig current sig i false table
    signalAll current sig rest (if err ≠ 0 then err else retval) table

def sysKill (current : Process) (pid : Word) (sig : Int) (table : Table) : Except Fault (Int × Table) :=
  if pid = 0 then killPg current current.pid sig false table
  else if pid = -1 then signalAll current sig slots 0 table
  else if pid.toInt < 0 then killPg current (-pid) sig false table
  else killProc current pid sig false table

/-- The processes that `pid` names. -/
def Addressed (current : Process) (pid : Word) (p : Process) : Prop :=
  if pid = 0 then p.pgrp = current.pgrp
  else if pid = -1 then True
  else if pid.toInt < 0 then p.pgrp.toInt = -pid.toInt
  else p.pid = pid

def Target (table : Table) (current : Process) (pid : Word) (sig : Int) (i : Fin NR_TASKS) : Prop :=
  i.val ≠ 0 ∧ ∃ p, table i = some p ∧ Addressed current pid p ∧ may current p = true ∧ ¬p.ignores sig

structure Adds (sig : Int) (targets : Fin NR_TASKS → Prop) (table table' : Table) : Prop where
  empty : ∀ i, table i = none → table' i = none
  pending : ∀ i p, table i = some p →
    ∃ p', table' i = some p' ∧ (p'.pending sig ↔ p.pending sig ∨ targets i)

/-- `sys_kill` reaches the processes that it names, and no other. -/
def Exact (table : Table) (current : Process) (pid : Word) (sig : Int) : Prop :=
  if isSignal sig then
    ∃ ret table', sysKill current pid sig table = .ok (ret, table') ∧
      Adds sig (Target table current pid sig) table table' ∧
      ((∃ i, Target table current pid sig i) → ret = 0)
  else sysKill current pid sig table = .ok (-EINVAL, table)

def Full (table : Table) : Prop := ∀ i : Fin NR_TASKS, i.val ≠ 0 → table i ≠ none

def Last (table : Table) (pid : Word) (j : Fin NR_TASKS) (p : Process) : Prop :=
  j.val ≠ 0 ∧ table j = some p ∧ p.pid = pid ∧ ∀ i q, j < i → table i = some q → q.pid ≠ pid

/-- When `sys_kill` reaches the processes that it names. -/
def Sound (table : Table) (current : Process) (pid : Word) (sig : Int) : Prop :=
  if ¬isSignal sig then
    -- only `kill(-1, sig)` does not check the signal
    pid = -1 → (∀ i : Fin NR_TASKS, i.val = 1 → table i = none) ∧
      ∀ (i : Fin NR_TASKS) p, i.val ≠ 0 → table i = some p → may current p = false
  else if pid = 0 then
    if current.pid.toInt ≤ 0 then ∀ i, ¬Target table current pid sig i
    else
      -- the group that the caller leads stands for the group that it is in
      Full table ∧
        (∀ (i : Fin NR_TASKS) p, i.val ≠ 0 → table i = some p → may current p = true → ¬p.ignores sig →
          ¬p.pending sig → (p.pgrp = current.pid ↔ p.pgrp = current.pgrp)) ∧
        ((∃ i, Target table current pid sig i) →
          ∃ (i : Fin NR_TASKS) (p : Process), i.val ≠ 0 ∧ table i = some p ∧ p.pgrp = current.pid ∧
            may current p = true)
  else if pid = -1 then
    (∃ i, Target table current pid sig i) →
      ∀ i : Fin NR_TASKS, i.val ≠ 0 → ∃ p, table i = some p ∧ may current p = true
  else if pid.toInt < 0 then pid = BitVec.intMin 32 ∨ Full table
  else
    -- an empty slot comes after the process in the search
    (∀ i : Fin NR_TASKS, i.val ≠ 0 → table i = none → ∃ j p, i < j ∧ table j = some p ∧ p.pid = pid) ∧
      ∀ i, Target table current pid sig i → ∃ j p, Last table pid j p ∧ may current p = true ∧
        (i = j ∨ ∃ q, table i = some q ∧ q.pending sig)

section Slots

theorem mem_tail_finRange {n : Nat} {i : Fin (n + 1)} : i ∈ (List.finRange (n + 1)).tail ↔ i.val ≠ 0 := by
  rw [finRange_succ, tail_cons, mem_map]
  constructor
  · rintro ⟨j, _, rfl⟩
    exact Nat.succ_ne_zero _
  · intro nonzero
    have other : i ≠ 0 := fun zero => nonzero (congrArg Fin.val zero)
    exact ⟨i.pred other, mem_finRange _, Fin.succ_pred i other⟩

theorem mem_slots {i : Fin NR_TASKS} : i ∈ slots ↔ i.val ≠ 0 := mem_reverse.trans (@mem_tail_finRange 63 i)

theorem slots_descend : slots.Pairwise (· > ·) := by
  rw [slots, pairwise_reverse]
  exact (pairwise_lt_finRange NR_TASKS).tail

theorem slots_nodup : slots.Nodup := slots_descend.imp fun less => less.ne'

theorem slots_snoc : ∃ front one, slots = front ++ [one] ∧ one.val = 1 := by
  have general (n : Nat) : ∃ front one, (List.finRange (n + 2)).tail.reverse = front ++ [one] ∧ one.val = 1 := by
    rw [finRange_succ, tail_cons, finRange_succ, map_cons, reverse_cons]
    exact ⟨_, _, rfl, rfl⟩
  exact general 62

end Slots

section Pending

variable {sig : Nat}

theorem bit_self (small : sig - 1 < 32) : (bit sig).getLsbD (sig - 1) = true := by
  simp [bit, small]

theorem bit_other {n : Nat} (differ : sig - 1 ≠ n) : (bit sig).getLsbD n = false := by
  rw [bit, BitVec.getLsbD_shiftLeft, BitVec.getLsbD_one]
  by_cases below : n < sig - 1
  · simp [below]
  · have some_ : n - (sig - 1) ≠ 0 := by omega
    simp [some_]

theorem getLsbD_without {set other : Word} {n : Nat} (small : n < 32) (clear : other.getLsbD n = false) :
    (set &&& ~~~other).getLsbD n = set.getLsbD n := by
  rw [BitVec.getLsbD_and, BitVec.getLsbD_not, clear]
  simp [small]

theorem getLsbD_with {set : Word} (small : sig - 1 < 32) : (set ||| bit sig).getLsbD (sig - 1) = true := by
  rw [BitVec.getLsbD_or, bit_self small, Bool.or_true]

theorem send_pending {task : Task} (low : 1 ≤ sig) (high : sig ≤ 32) :
    (task.send sig).signal.getLsbD (sig - 1) = true ↔
      task.signal.getLsbD (sig - 1) = true ∨ (task.action sig).handler ≠ 1 := by
  have small : sig - 1 < 32 := by omega
  by_cases ignored : (task.action sig).handler = 1
  · simp only [ignored, ne_eq, not_true_eq_false, or_false]
    rw [Task.send]
    split
    case isTrue continues =>
      have other : (bit SIGSTOP ||| bit SIGTSTP ||| bit SIGTTIN ||| bit SIGTTOU).getLsbD (sig - 1) = false := by
        rcases continues with rfl | rfl <;> decide
      rw [if_pos (by exact ignored), getLsbD_without small other]
    case isFalse => exact Iff.rfl
  · simp only [ignored, ne_eq, not_false_eq_true, or_true, iff_true]
    rw [Task.send]
    split
    case isTrue => rw [if_neg (by exact ignored), getLsbD_with small]
    case isFalse => exact getLsbD_with small

theorem receive_pending {p : Process} {sig : Int} (signal : isSignal sig) :
    (p.receive sig).pending sig ↔ p.pending sig ∨ ¬p.ignores sig :=
  send_pending (by have := signal.1; omega) (by have := signal.2; omega)

end Pending

section Delivery

/-- The table with the signal delivered to the processes that `reach` selects. -/
def delivered (reach : Fin NR_TASKS → Process → Bool) (sig : Int) (table : Table) : Table :=
  fun i => (table i).map fun p => if reach i p then p.receive sig else p

variable {current p : Process} {sig : Int} {i : Fin NR_TASKS} {table : Table}

theorem sendSig_none (empty : table i = none) : sendSig current sig i false table = .ok (-EINVAL, table) := by
  rw [sendSig, empty]

theorem sendSig_refused (found : table i = some p) (refused : may current p = false) :
    sendSig current sig i false table = .ok (-EPERM, table) := by
  rw [sendSig, found]
  simp [refused]

theorem sendSig_ok (signal : isSignal sig) (found : table i = some p) (permitted : may current p = true) :
    sendSig current sig i false table = .ok (0, update table i (some (p.receive sig))) := by
  rw [sendSig, found]
  simp [permitted, signal]

theorem sendSig_outOfBounds (noSignal : ¬isSignal sig) (found : table i = some p)
    (permitted : may current p = true) : sendSig current sig i false table = .error .outOfBounds := by
  rw [sendSig, found]
  simp [permitted, noSignal]

theorem adds_delivered (signal : isSignal sig) {reach : Fin NR_TASKS → Process → Bool}
    {targets : Fin NR_TASKS → Prop} :
    Adds sig targets table (delivered reach sig table) ↔
      ∀ i p, table i = some p → ¬p.pending sig → (reach i p = true ∧ ¬p.ignores sig ↔ targets i) := by
  have after {i p} (found : table i = some p) : ∃ p', delivered reach sig table i = some p' ∧
      (p'.pending sig ↔ p.pending sig ∨ reach i p = true ∧ ¬p.ignores sig) := by
    rw [delivered, found]
    refine ⟨_, rfl, ?_⟩
    by_cases reached : reach i p = true
    · simp [reached, receive_pending signal]
    · simp [reached]
  constructor
  · intro adds i p found fresh
    obtain ⟨p', found', pending'⟩ := after found
    obtain ⟨p'', found'', pending''⟩ := adds.pending i p found
    cases found'.symm.trans found''
    rw [pending'] at pending''
    simpa [fresh] using pending''
  · intro exactly
    refine ⟨fun i empty => by rw [delivered, empty]; rfl, fun i p found => ?_⟩
    obtain ⟨p', found', pending'⟩ := after found
    refine ⟨p', found', pending'.trans ?_⟩
    by_cases fresh : p.pending sig
    · simp [fresh]
    · rw [exactly i p found fresh]

variable {select : Process → Bool}

theorem delivered_update {rest : List (Fin NR_TASKS)} (other : i ∉ rest) (found : table i = some p)
    (selected : select p = true) :
    delivered (fun j q => decide (j ∈ rest) && select q) sig (update table i (some (p.receive sig))) =
      delivered (fun j q => decide (j ∈ i :: rest) && select q) sig table := by
  funext j
  by_cases same : j = i
  · subst same
    simp [delivered, found, selected, other]
  · simp [delivered, same]

theorem delivered_skip {rest : List (Fin NR_TASKS)} (other : i ∉ rest)
    (skipped : ∀ p, table i = some p → select p = false) :
    delivered (fun j q => decide (j ∈ rest) && select q) sig table =
      delivered (fun j q => decide (j ∈ i :: rest) && select q) sig table := by
  funext j
  by_cases same : j = i
  · subst same
    cases found : table j with
    | none => simp [delivered, found]
    | some p => simp [delivered, found, skipped p found]
  · simp [delivered, same]

theorem delivered_nil :
    delivered (fun j q => decide (j ∈ ([] : List (Fin NR_TASKS))) && select q) sig table = table := by
  funext j
  cases found : table j with
  | none | some p => simp [delivered, found]

end Delivery

section Loops

variable {current : Process} {sig : Int} {table : Table}

variable {is : List (Fin NR_TASKS)}

theorem signalGroup_ok (current : Process) (table : Table) (pgrp : Word) (found : Nat) (retval : Int)
    (signal : isSignal sig) (nodup : is.Nodup) (full : ∀ i ∈ is, table i ≠ none) :
    ∃ ret, signalGroup current pgrp sig false is found retval table =
        .ok (ret, delivered (fun i p => decide (i ∈ is) && (decide (p.pgrp = pgrp) && may current p)) sig table) ∧
      (retval ≠ 0 → (ret = 0 ↔ found ≠ 0 ∨
        ∃ i ∈ is, ∃ p, table i = some p ∧ p.pgrp = pgrp ∧ may current p = true)) := by
  have real : sig ≠ 0 := by
    have low := signal.1
    omega
  induction is generalizing found retval table with
  | nil =>
    refine ⟨_, by rw [signalGroup, delivered_nil], fun failed => ?_⟩
    by_cases some_ : found = 0
    · simp [some_, failed]
    · simp [some_]
  | cons i rest ih =>
    obtain ⟨other, nodup⟩ := nodup_cons.mp nodup
    cases here : table i with
    | none => exact absurd here (full i mem_cons_self)
    | some p =>
      have later : ∀ j ∈ rest, table j ≠ none := fun j member => full j (mem_cons_of_mem _ member)
      rw [signalGroup, here]
      simp only [real, ne_eq, not_false_eq_true, ite_true]
      by_cases member : p.pgrp = pgrp
      · simp only [member, ite_true]
        by_cases permitted : may current p = true
        · rw [sendSig_ok signal here permitted]
          have later : ∀ j ∈ rest, update table i (some (p.receive sig)) j ≠ none := by
            intro j inRest
            have differ : j ≠ i := fun same => other (same ▸ inRest)
            rw [update_of_ne differ]
            exact later j inRest
          obtain ⟨ret, ran, answer⟩ := ih _ (found + 1) retval nodup later
          refine ⟨ret, ?_, fun failed => ?_⟩
          · rw [← delivered_update other here (by simp [member, permitted])]
            exact ran
          · simp [answer failed, here, member, permitted]
        · rw [sendSig_refused here (Bool.eq_false_iff.mpr permitted)]
          obtain ⟨ret, ran, answer⟩ := ih table found (-EPERM) nodup later
          refine ⟨ret, ?_, fun _ => ?_⟩
          · rw [← delivered_skip other fun q same => ?_]
            · exact ran
            · cases here.symm.trans same
              simp [permitted]
          · simp [answer (by decide), here, permitted]
      · simp only [member, ite_false]
        obtain ⟨ret, ran, answer⟩ := ih table found retval nodup later
        refine ⟨ret, ?_, fun failed => ?_⟩
        · rw [← delivered_skip other fun q same => ?_]
          · exact ran
          · cases here.symm.trans same
            simp [member]
        · simp [answer failed, here, member]

variable {retval : Int}

theorem signalGroup_fault {pgrp : Word} {found : Nat} (signal : isSignal sig) (nodup : is.Nodup)
    (empty : ∃ i ∈ is, table i = none) :
    signalGroup current pgrp sig false is found retval table = .error .nullDereference := by
  have real : sig ≠ 0 := by
    have low := signal.1
    omega
  induction is generalizing found retval table with
  | nil => simp at empty
  | cons i rest ih =>
    obtain ⟨other, nodup⟩ := nodup_cons.mp nodup
    cases here : table i with
    | none => rw [signalGroup, here]
    | some p =>
      have later : ∃ j ∈ rest, table j = none := by simpa [here] using empty
      rw [signalGroup, here]
      simp only [real, ne_eq, not_false_eq_true, ite_true]
      by_cases member : p.pgrp = pgrp
      · simp only [member, ite_true]
        by_cases permitted : may current p = true
        · rw [sendSig_ok signal here permitted]
          obtain ⟨j, inRest, gone⟩ := later
          have differ : j ≠ i := fun same => other (same ▸ inRest)
          exact ih nodup ⟨j, inRest, (update_of_ne differ _ _).trans gone⟩
        · rw [sendSig_refused here (Bool.eq_false_iff.mpr permitted)]
          exact ih nodup later
      · simp only [member, ite_false]
        exact ih nodup later

theorem signalProcess_eq (current : Process) (table : Table) (pid : Word) (signal : isSignal sig)
    (descend : is.Pairwise (· > ·)) :
    (∃ j ∈ is, ∃ p, table j = some p ∧ p.pid = pid ∧
        (∀ i ∈ is, j < i → ∃ q, table i = some q ∧ q.pid ≠ pid) ∧
        signalProcess current pid sig false table is = sendSig current sig j false table) ∨
      ((∀ i ∈ is, ∃ q, table i = some q ∧ q.pid ≠ pid) ∧
        signalProcess current pid sig false table is = .ok (-ESRCH, table)) ∨
      ((∃ j ∈ is, table j = none ∧ ∀ i ∈ is, j < i → ∃ q, table i = some q ∧ q.pid ≠ pid) ∧
        signalProcess current pid sig false table is = .error .nullDereference) := by
  have real : sig ≠ 0 := by
    have low := signal.1
    omega
  induction is with
  | nil => exact .inr (.inl ⟨by simp, rfl⟩)
  | cons i rest ih =>
    obtain ⟨lower, descend⟩ := pairwise_cons.mp descend
    have top {P : Fin NR_TASKS → Prop} : ∀ k ∈ i :: rest, i < k → P k := by
      rintro k member above
      rcases mem_cons.mp member with rfl | inRest
      · exact absurd above (lt_irrefl _)
      · exact absurd (lower k inRest) (lt_asymm above)
    rw [signalProcess]
    cases here : table i with
    | none => exact .inr (.inr ⟨⟨i, mem_cons_self, here, top⟩, rfl⟩)
    | some p =>
      by_cases same : p.pid = pid
      · refine .inl ⟨i, mem_cons_self, p, here, same, top, ?_⟩
        simp only [same, real, ne_eq, not_false_eq_true, ite_true]
      · have passed {j : Fin NR_TASKS}
            (others : ∀ k ∈ rest, j < k → ∃ q, table k = some q ∧ q.pid ≠ pid) :
            ∀ k ∈ i :: rest, j < k → ∃ q, table k = some q ∧ q.pid ≠ pid := by
          rintro k member above
          rcases mem_cons.mp member with rfl | inRest
          · exact ⟨p, here, same⟩
          · exact others k inRest above
        simp only [same, ite_false]
        rcases ih descend with ⟨j, member, q, found, named, others, ran⟩ | ⟨none_, ran⟩ |
          ⟨⟨j, member, empty, others⟩, ran⟩
        · exact .inl ⟨j, mem_cons_of_mem _ member, q, found, named, passed others, ran⟩
        · refine .inr (.inl ⟨?_, ran⟩)
          rintro k member
          rcases mem_cons.mp member with rfl | inRest
          · exact ⟨p, here, same⟩
          · exact none_ k inRest
        · exact .inr (.inr ⟨⟨j, mem_cons_of_mem _ member, empty, passed others⟩, ran⟩)

theorem signalAll_ok (current : Process) (table : Table) (retval : Int) (signal : isSignal sig)
    (nodup : is.Nodup) :
    ∃ ret, signalAll current sig is retval table =
        .ok (ret, delivered (fun i p => decide (i ∈ is) && may current p) sig table) ∧
      (ret = 0 ↔ retval = 0 ∧ ∀ i ∈ is, ∃ p, table i = some p ∧ may current p = true) := by
  induction is generalizing retval table with
  | nil => exact ⟨retval, by rw [signalAll, delivered_nil], by simp⟩
  | cons i rest ih =>
    obtain ⟨other, nodup⟩ := nodup_cons.mp nodup
    rw [signalAll]
    cases here : table i with
    | none =>
      rw [sendSig_none here]
      obtain ⟨ret, ran, answer⟩ := ih table (-EINVAL) nodup
      refine ⟨ret, ?_, ?_⟩
      · rw [← delivered_skip other fun q same => by cases here.symm.trans same]
        exact ran
      · have refused : ret ≠ 0 := fun zero => absurd (answer.mp zero).1 (by decide)
        simp [refused, here]
    | some p =>
      by_cases permitted : may current p = true
      · rw [sendSig_ok signal here permitted]
        obtain ⟨ret, ran, answer⟩ := ih (update table i (some (p.receive sig))) retval nodup
        refine ⟨ret, ?_, ?_⟩
        · rw [← delivered_update other here permitted]
          exact ran
        · rw [answer, forall_mem_cons]
          have kept : ∀ j ∈ rest, update table i (some (p.receive sig)) j = table j := by
            intro j inRest
            have differ : j ≠ i := fun same => other (same ▸ inRest)
            exact update_of_ne differ _ _
          have same : (∀ j ∈ rest, ∃ q, update table i (some (p.receive sig)) j = some q ∧
              may current q = true) ↔ ∀ j ∈ rest, ∃ q, table j = some q ∧ may current q = true :=
            forall₂_congr fun j inRest => by rw [kept j inRest]
          rw [same]
          simp [here, permitted]
      · rw [sendSig_refused here (Bool.eq_false_iff.mpr permitted)]
        obtain ⟨ret, ran, answer⟩ := ih table (-EPERM) nodup
        refine ⟨ret, ?_, ?_⟩
        · rw [← delivered_skip other fun q same => ?_]
          · exact ran
          · cases here.symm.trans same
            exact Bool.eq_false_iff.mpr permitted
        · have refused : ret ≠ 0 := fun zero => absurd (answer.mp zero).1 (by decide)
          simp [refused, here, permitted]

theorem signalAll_outOfBounds (noSignal : ¬isSignal sig)
    (reached : ∃ i ∈ is, ∃ p, table i = some p ∧ may current p = true) :
    signalAll current sig is retval table = .error .outOfBounds := by
  induction is generalizing retval with
  | nil => simp at reached
  | cons i rest ih =>
    rw [signalAll]
    cases here : table i with
    | none =>
      rw [sendSig_none here]
      exact ih (by simpa [here] using reached)
    | some p =>
      by_cases permitted : may current p = true
      · rw [sendSig_outOfBounds noSignal here permitted]
        rfl
      · rw [sendSig_refused here (Bool.eq_false_iff.mpr permitted)]
        exact ih (by simpa [here, permitted] using reached)

theorem signalAll_refused {front : List (Fin NR_TASKS)} {last : Fin NR_TASKS}
    (refused : ∀ i ∈ front ++ [last], ∀ p, table i = some p → may current p = false) :
    signalAll current sig (front ++ [last]) retval table =
      .ok (if table last = none then -EINVAL else -EPERM, table) := by
  induction front generalizing retval with
  | nil =>
    rw [nil_append, signalAll]
    cases here : table last with
    | none =>
      rw [sendSig_none here]
      rfl
    | some p =>
      rw [sendSig_refused here (refused last (by simp) p here)]
      rfl
  | cons i rest ih =>
    have later : ∀ j ∈ rest ++ [last], ∀ p, table j = some p → may current p = false :=
      fun j member => refused j (mem_cons_of_mem _ member)
    rw [cons_append, signalAll]
    cases here : table i with
    | none =>
      rw [sendSig_none here]
      exact ih later
    | some p =>
      rw [sendSig_refused here (refused i (by simp) p here)]
      exact ih later

end Loops

section Calls

variable {current : Process} {pid : Word} {sig : Int} {table : Table}

theorem invalid_iff : ¬isSignal sig ↔ sig < 1 ∨ 32 < sig := by
  rw [isSignal]
  omega

theorem sysKill_invalid (noSignal : ¬isSignal sig) (single : pid ≠ -1) :
    sysKill current pid sig table = .ok (-EINVAL, table) := by
  have invalid := invalid_iff.mp noSignal
  have group (pgrp : Word) : killPg current pgrp sig false table = .ok (-EINVAL, table) := by
    rw [killPg, if_pos (invalid.elim .inl fun high => .inr (.inl high))]
  rw [sysKill, if_neg single]
  split
  case isTrue => exact group _
  case isFalse =>
    split
    case isTrue => exact group _
    case isFalse => rw [killProc, if_pos invalid]

theorem killAll_invalid (noSignal : ¬isSignal sig) :
    signalAll current sig slots 0 table = .ok (-EINVAL, table) ↔
      (∀ i : Fin NR_TASKS, i.val = 1 → table i = none) ∧
        ∀ (i : Fin NR_TASKS) p, i.val ≠ 0 → table i = some p → may current p = false := by
  obtain ⟨front, one, split, first⟩ := slots_snoc
  by_cases reached : ∃ i ∈ slots, ∃ p, table i = some p ∧ may current p = true
  · rw [signalAll_outOfBounds noSignal reached]
    obtain ⟨i, member, p, found, permitted⟩ := reached
    refine ⟨fun fault => (by cases fault), fun ⟨_, refused⟩ => ?_⟩
    rw [refused i p (mem_slots.mp member) found] at permitted
    cases permitted
  · have refused : ∀ i ∈ slots, ∀ p, table i = some p → may current p = false :=
      fun i member p found => Bool.eq_false_iff.mpr fun permitted => reached ⟨i, member, p, found, permitted⟩
    rw [split, signalAll_refused (split ▸ refused)]
    constructor
    · intro answer
      refine ⟨fun i second => ?_, fun i p nonzero found => refused i (mem_slots.mpr nonzero) p found⟩
      have same : i = one := Fin.ext (second.trans first.symm)
      by_contra occupied
      rw [← same, if_neg occupied] at answer
      cases answer
    · rintro ⟨empty, _⟩
      rw [if_pos (empty one first)]

theorem target_iff {i : Fin NR_TASKS} {p : Process} (found : table i = some p) :
    Target table current pid sig i ↔ i.val ≠ 0 ∧ Addressed current pid p ∧ may current p = true ∧ ¬p.ignores sig := by
  rw [Target, found]
  simp

theorem adds_slots (signal : isSignal sig) {select : Process → Bool} :
    Adds sig (Target table current pid sig) table
        (delivered (fun i p => decide (i ∈ slots) && select p) sig table) ↔
      ∀ (i : Fin NR_TASKS) p, i.val ≠ 0 → table i = some p → ¬p.ignores sig → ¬p.pending sig →
        (select p = true ↔ Addressed current pid p ∧ may current p = true) := by
  rw [adds_delivered signal]
  refine forall₂_congr fun i p => ?_
  constructor
  · intro same nonzero found heard fresh
    have exactly := same found fresh
    rw [target_iff found] at exactly
    simpa [mem_slots, nonzero, heard] using exactly
  · intro same found fresh
    rw [target_iff found]
    by_cases nonzero : i.val = 0
    · simp [mem_slots, nonzero]
    · by_cases heard : p.ignores sig
      · simp [heard]
      · have exactly := same nonzero found heard fresh
        simpa [mem_slots, nonzero, heard] using exactly

theorem killPg_exact {pgrp : Word} (signal : isSignal sig) (positive : 0 < pgrp.toInt) :
    (∃ ret table', killPg current pgrp sig false table = .ok (ret, table') ∧
        Adds sig (Target table current pid sig) table table' ∧ ((∃ i, Target table current pid sig i) → ret = 0)) ↔
      Full table ∧
        (∀ (i : Fin NR_TASKS) p, i.val ≠ 0 → table i = some p → may current p = true → ¬p.ignores sig →
          ¬p.pending sig → (p.pgrp = pgrp ↔ Addressed current pid p)) ∧
        ((∃ i, Target table current pid sig i) →
          ∃ (i : Fin NR_TASKS) (p : Process), i.val ≠ 0 ∧ table i = some p ∧ p.pgrp = pgrp ∧
            may current p = true) := by
  have valid : ¬(sig < 1 ∨ 32 < sig ∨ pgrp.toInt ≤ 0) := by
    have low := signal.1
    have high := signal.2
    omega
  rw [killPg, if_neg valid]
  by_cases full : Full table
  · obtain ⟨ret, ran, answer⟩ := signalGroup_ok current table pgrp 0 (-ESRCH) signal slots_nodup
      fun i member => full i (mem_slots.mp member)
    have zero := answer (by decide)
    simp only [ne_eq, not_true_eq_false, false_or, mem_slots] at zero
    have selected (p : Process) : (decide (p.pgrp = pgrp) && may current p) = true ↔
        p.pgrp = pgrp ∧ may current p = true := by simp
    have members : Adds sig (Target table current pid sig) table
          (delivered (fun i p => decide (i ∈ slots) && (decide (p.pgrp = pgrp) && may current p)) sig table) ↔
        ∀ (i : Fin NR_TASKS) p, i.val ≠ 0 → table i = some p → may current p = true → ¬p.ignores sig →
          ¬p.pending sig → (p.pgrp = pgrp ↔ Addressed current pid p) := by
      rw [adds_slots signal]
      refine forall₂_congr fun i p => forall₂_congr fun nonzero found => ?_
      rw [selected]
      constructor
      · intro same permitted heard fresh
        simpa [permitted] using same heard fresh
      · intro same heard fresh
        exact and_congr_left fun permitted => same permitted heard fresh
    rw [ran]
    constructor
    · rintro ⟨ret', table', same, adds, success⟩
      cases same
      refine ⟨full, members.mp adds, fun target => ?_⟩
      obtain ⟨i, nonzero, p, found⟩ := zero.mp (success target)
      exact ⟨i, p, nonzero, found⟩
    · rintro ⟨_, same, success⟩
      refine ⟨_, _, rfl, members.mpr same, fun target => zero.mpr ?_⟩
      obtain ⟨i, p, nonzero, found⟩ := success target
      exact ⟨i, nonzero, p, found⟩
  · have empty : ∃ i ∈ slots, table i = none := by
      simpa [Full, mem_slots] using full
    rw [signalGroup_fault signal slots_nodup empty]
    constructor
    · rintro ⟨ret, table', fault, _⟩
      cases fault
    · rintro ⟨all, _⟩
      exact absurd all full

theorem killAll_exact (signal : isSignal sig) :
    (∃ ret table', signalAll current sig slots 0 table = .ok (ret, table') ∧
        Adds sig (Target table current (-1) sig) table table' ∧
        ((∃ i, Target table current (-1) sig i) → ret = 0)) ↔
      ((∃ i, Target table current (-1) sig i) →
        ∀ i : Fin NR_TASKS, i.val ≠ 0 → ∃ p, table i = some p ∧ may current p = true) := by
  obtain ⟨ret, ran, answer⟩ := signalAll_ok current table 0 signal slots_nodup
  have all (p : Process) : Addressed current (-1) p := by
    rw [Addressed, if_neg (by decide), if_pos rfl]
    trivial
  simp only [true_and, mem_slots] at answer
  rw [ran]
  constructor
  · rintro ⟨ret', table', same, _, success⟩ target
    cases same
    exact answer.mp (success target)
  · intro success
    refine ⟨_, _, rfl, (adds_slots signal).mpr fun i p _ _ _ _ => ?_, fun target => answer.mpr (success target)⟩
    exact ⟨fun permitted => ⟨all p, permitted⟩, fun ⟨_, permitted⟩ => permitted⟩

theorem unchanged_exact {answer : Int} (failed : answer ≠ 0) :
    (∃ ret table', (Except.ok (answer, table) : Except Fault (Int × Table)) = .ok (ret, table') ∧
        Adds sig (Target table current pid sig) table table' ∧ ((∃ i, Target table current pid sig i) → ret = 0)) ↔
      ∀ i, ¬Target table current pid sig i := by
  constructor
  · rintro ⟨ret, table', same, _, success⟩ i target
    cases same
    exact failed (success ⟨i, target⟩)
  · intro none_
    refine ⟨_, _, rfl, ⟨fun i empty => empty, fun i p found => ⟨p, found, ?_⟩⟩, fun ⟨i, target⟩ => ?_⟩
    · simp [none_ i]
    · exact absurd target (none_ i)

theorem Last.unique {j k : Fin NR_TASKS} {p q : Process} (last : Last table pid j p)
    (last' : Last table pid k q) : j = k := by
  rcases lt_trichotomy j k with less | same | greater
  · exact absurd last'.2.2.1 (last.2.2.2 k q less last'.2.1)
  · exact same
  · exact absurd last.2.2.1 (last'.2.2.2 j p greater last.2.1)

theorem killProc_exact (signal : isSignal sig) (single : ∀ p, Addressed current pid p ↔ p.pid = pid) :
    (∃ ret table', killProc current pid sig false table = .ok (ret, table') ∧
        Adds sig (Target table current pid sig) table table' ∧ ((∃ i, Target table current pid sig i) → ret = 0)) ↔
      (∀ i : Fin NR_TASKS, i.val ≠ 0 → table i = none → ∃ j p, i < j ∧ table j = some p ∧ p.pid = pid) ∧
        ∀ i, Target table current pid sig i → ∃ j p, Last table pid j p ∧ may current p = true ∧
          (i = j ∨ ∃ q, table i = some q ∧ q.pending sig) := by
  have valid : ¬(sig < 1 ∨ 32 < sig) := fun invalid => invalid_iff.mpr invalid signal
  rw [killProc, if_neg valid]
  rcases signalProcess_eq current table pid signal slots_descend with
    ⟨j, member, p, found, named, others, ran⟩ | ⟨none_, ran⟩ | ⟨⟨j, member, empty, others⟩, ran⟩
  · have nonzero := mem_slots.mp member
    have last : Last table pid j p := by
      refine ⟨nonzero, found, named, fun i q above here => ?_⟩
      obtain ⟨q', here', differ⟩ := others i (mem_slots.mpr (by omega)) above
      cases here.symm.trans here'
      exact differ
    have passed : ∀ i : Fin NR_TASKS, i.val ≠ 0 → table i = none →
        ∃ j p, i < j ∧ table j = some p ∧ p.pid = pid := by
      intro i inTable empty
      refine ⟨j, p, ?_, found, named⟩
      by_contra notBelow
      rcases lt_or_eq_of_le (not_lt.mp notBelow) with above | same
      · obtain ⟨q, here, _⟩ := others i (mem_slots.mpr inTable) above
        cases here.symm.trans empty
      · cases found.symm.trans (same ▸ empty)
    rw [ran]
    by_cases permitted : may current p = true
    · have one : update table j (some (p.receive sig)) = delivered (fun i _ => decide (i = j)) sig table := by
        funext i
        by_cases same : i = j
        · subst same
          simp [delivered, found]
        · simp [delivered, same]
      rw [sendSig_ok signal found permitted, one]
      constructor
      · rintro ⟨ret, table', same, adds, _⟩
        cases same
        refine ⟨passed, fun i target => ⟨j, p, last, permitted, ?_⟩⟩
        obtain ⟨q, here, _⟩ := target.2
        by_cases fresh : q.pending sig
        · exact .inr ⟨q, here, fresh⟩
        · have exactly := (adds_delivered signal).mp adds i q here fresh
          exact .inl (of_decide_eq_true (exactly.mpr target).1)
      · rintro ⟨_, all⟩
        refine ⟨_, _, rfl, (adds_delivered signal).mpr fun i q here fresh => ?_, fun _ => rfl⟩
        rw [decide_eq_true_eq]
        constructor
        · rintro ⟨rfl, heard⟩
          cases found.symm.trans here
          exact (target_iff found).mpr ⟨nonzero, (single p).mpr named, permitted, heard⟩
        · intro target
          obtain ⟨k, q', last', _, reached⟩ := all i target
          rcases reached with rfl | ⟨q', here', pending⟩
          · exact ⟨last'.unique last, ((target_iff here).mp target).2.2.2⟩
          · cases here.symm.trans here'
            exact absurd pending fresh
    · rw [sendSig_refused found (Bool.eq_false_iff.mpr permitted), unchanged_exact (by decide)]
      refine ⟨fun noTarget => ⟨passed, fun i target => absurd target (noTarget i)⟩, fun ⟨_, all⟩ i target => ?_⟩
      obtain ⟨k, q, last', permitted', _⟩ := all i target
      have same := last'.unique last
      subst same
      cases found.symm.trans last'.2.1
      exact permitted permitted'
  · have noTarget : ∀ i, ¬Target table current pid sig i := by
      rintro i ⟨nonzero, q, here, addressed, _⟩
      obtain ⟨q', here', differ⟩ := none_ i (mem_slots.mpr nonzero)
      cases here.symm.trans here'
      exact differ ((single q).mp addressed)
    rw [ran, unchanged_exact (by decide)]
    refine ⟨fun _ => ⟨fun i nonzero empty => ?_, fun i target => absurd target (noTarget i)⟩, fun _ => noTarget⟩
    obtain ⟨q, here, _⟩ := none_ i (mem_slots.mpr nonzero)
    cases here.symm.trans empty
  · rw [ran]
    constructor
    · rintro ⟨ret, table', fault, _⟩
      cases fault
    · rintro ⟨passed, _⟩
      obtain ⟨k, q, above, here, named⟩ := passed j (mem_slots.mp member) empty
      obtain ⟨q', here', differ⟩ := others k (mem_slots.mpr (by omega)) above
      cases here.symm.trans here'
      exact absurd named differ

/-- The signal reaches exactly the processes that `pid` names, if the search
passes no empty slot and the caller leads its group; for all processes, if there
is no empty slot and each of them may be signalled. -/
theorem exact_iff_sound (table : Table) (current : Process) (pid : Word) (sig : Int) :
    Exact table current pid sig ↔ Sound table current pid sig := by
  rw [Exact, Sound]
  by_cases signal : isSignal sig
  · rw [if_pos signal, if_neg (not_not.mpr signal), sysKill]
    by_cases own : pid = 0
    · have addressed (p : Process) : Addressed current pid p ↔ p.pgrp = current.pgrp := by
        rw [Addressed, if_pos own]
      rw [if_pos own, if_pos own]
      split
      case isTrue noGroup => rw [killPg, if_pos (.inr (.inr noGroup)), unchanged_exact (by decide)]
      case isFalse group =>
        rw [killPg_exact signal (not_le.mp group)]
        simp only [addressed]
    · rw [if_neg own, if_neg own]
      by_cases all : pid = -1
      · subst all
        rw [if_pos rfl, if_pos rfl, killAll_exact signal]
      · rw [if_neg all, if_neg all]
        by_cases negative : pid.toInt < 0
        · have addressed (p : Process) : Addressed current pid p ↔ p.pgrp.toInt = -pid.toInt := by
            rw [Addressed, if_neg own, if_neg all, if_pos negative]
          rw [if_pos negative, if_pos negative]
          by_cases lowest : pid = BitVec.intMin 32
          · -- `-pid` overflows
            have noTarget : ∀ i, ¬Target table current pid sig i := by
              rintro i ⟨_, p, _, member, _⟩
              have bound : p.pgrp.toInt < 2 ^ 31 := BitVec.toInt_lt
              rw [addressed, lowest] at member
              have lowest : (BitVec.intMin 32).toInt = -2 ^ 31 := by decide
              omega
            subst lowest
            rw [killPg, if_pos (.inr (.inr (by decide))), unchanged_exact (by decide)]
            exact iff_of_true noTarget (.inl rfl)
          · have opposite : (-pid).toInt = -pid.toInt := BitVec.toInt_neg_of_ne_intMin lowest
            have same (p : Process) : p.pgrp = -pid ↔ Addressed current pid p := by
              rw [addressed, ← opposite, BitVec.toInt_inj]
            rw [killPg_exact signal (by omega)]
            constructor
            · exact fun ⟨full, _⟩ => .inr full
            · intro full
              refine ⟨full.resolve_left lowest, fun _ p _ _ _ _ _ => same p, fun ⟨i, target⟩ => ?_⟩
              obtain ⟨nonzero, p, found, member, permitted, _⟩ := target
              exact ⟨i, p, nonzero, found, (same p).mpr member, permitted⟩
        · have single (p : Process) : Addressed current pid p ↔ p.pid = pid := by
            rw [Addressed, if_neg own, if_neg all, if_neg negative]
          rw [if_neg negative, if_neg negative, killProc_exact signal single]
  · rw [if_neg signal, if_pos signal]
    by_cases all : pid = -1
    · subst all
      rw [sysKill, if_neg (by decide), if_pos rfl, killAll_invalid signal]
      exact ⟨fun answer _ => answer, fun answer => answer rfl⟩
    · exact iff_of_true (sysKill_invalid signal all) fun same => absurd same all

end Calls

def plain (pid : Word) (euid : Short) : Process where
  task :=
    { state := .running
      exitCode := 0
      signal := 0
      blocked := 0
      sigaction := fun _ => ⟨0, 0, 0, 0⟩
      parent := ⟨0, NR_TASKS_pos⟩
      oldblocked := none }
  pid := pid
  pgrp := pid
  euid := euid

def few : Table := fun i =>
  if i.val = 0 then some (plain 0 0)
  else if i.val = 1 then some (plain 1 5)
  else if i.val = 2 then some (plain 2 5)
  else none

/-- The search for process 2 starts with the empty slots. -/
theorem empty_slot_inexact : ¬Exact few (plain 1 5) 2 15 := by
  have passed : sysKill (plain 1 5) 2 15 few = .error .nullDereference := rfl
  rw [Exact, if_pos (by decide)]
  rintro ⟨ret, table', ran, _⟩
  cases passed.symm.trans ran

end Linux012.Kernel.Kill

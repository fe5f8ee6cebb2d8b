import Linux012.Fs.BufferInvariant
import Linux012.Lib.Counting

/-! References to buffers. Every reference a process holds is counted in
`b_count`, and a buffer that is referenced keeps its device and block. -/

set_option autoImplicit false

namespace Linux012.Fs

open BlkDrv Transition Counting Function List

/-! ## The references of a process -/

def Value.holds : Value → List Nat
  | .unit | .null => []
  | .buffer _ _ bh _ => [bh]

def Control.reads : Control → List Nat
  | .breadWait _ _ bh | .breadaLoop _ _ bh _ => [bh]
  | _ => []

def Control.holds : Control → List Nat
  | .user held => held
  | .hashWait _ _ bh | .brelse bh | .breadWait _ _ bh | .breadaLoop _ _ bh _ => [bh]
  | .ret value => value.holds
  | _ => []

def Caller.reads : Caller → List Nat
  | .breadRead _ _ bh | .breadaRead _ _ bh _ | .breadaTmp _ _ bh _ | .breadaAhead _ _ bh _ _ => [bh]
  | _ => []

def Caller.holds : Caller → List Nat
  | .user held => held
  | .breadRead _ _ bh | .breadaRead _ _ bh _ | .breadaTmp _ _ bh _ => [bh]
  | .breadaAhead _ _ bh tmp _ => [bh, tmp]
  | _ => []

def stackReads : List Caller → List Nat
  | [] => []
  | caller :: stack => caller.reads ++ stackReads stack

def stackHolds : List Caller → List Nat
  | [] => []
  | caller :: stack => caller.holds ++ stackHolds stack

def Process.reads (proc : Process) : List Nat := proc.control.reads ++ stackReads proc.stack

def Process.holds (proc : Process) : List Nat := proc.control.holds ++ stackHolds proc.stack

theorem Caller.reads_count_le (caller : Caller) (h : Nat) :
    caller.reads.count h ≤ caller.holds.count h := by
  cases caller <;> simp [Caller.reads, Caller.holds, count_cons]

theorem stackReads_count_le (stack : List Caller) (h : Nat) :
    (stackReads stack).count h ≤ (stackHolds stack).count h := by
  induction stack with
  | nil => exact Nat.le_refl _
  | cons caller stack ih =>
    simp only [stackReads, stackHolds, count_append]
    exact Nat.add_le_add (caller.reads_count_le h) ih

theorem Process.mem_holds {proc : Process} {h : Nat} (reads : h ∈ proc.reads) : h ∈ proc.holds := by
  rcases mem_append.mp reads with top | below
  · refine mem_append_left _ ?_
    cases proc with
    | mk control stack => cases control <;> simp_all [Control.reads, Control.holds]
  · have := stackReads_count_le proc.stack h
    have := count_pos_iff.mpr below
    exact mem_append_right _ (count_pos_iff.mp (by omega))

section Machine

variable {driver : Nat → Bool}

variable {c c' : Cache} {control : Control}

theorem Submits.holds {rw bh : Nat} (submitted : Submits driver c rw bh c' control) :
    control.holds = [] ∧ c'.count = c.count := by
  cases submitted with
  | _ => exact ⟨rfl, rfl⟩

variable {proc proc' : Process}

/-! ## The block a process has asked for -/

/-- The device and block whose buffer a function will return, and whether it
will have been read. -/
def Control.label : Control → Option (Nat × Nat × Bool)
  | .getHashTable dev block | .hashWait dev block _ | .getblk dev block => some (dev, block, false)
  | .starved dev block | .victimWait dev block _ => some (dev, block, false)
  | .breadWait dev block _ | .breadaLoop dev block _ _ => some (dev, block, true)
  | .ret (.buffer dev block _ wasRead) => some (dev, block, wasRead)
  | _ => none

def Caller.label : Caller → Option (Nat × Nat × Bool)
  | .getblk dev block | .getblkSync dev block _ => some (dev, block, false)
  | .bread dev block | .breadRead dev block _ => some (dev, block, true)
  | .breada dev block _ | .breadaRead dev block _ _ => some (dev, block, true)
  | .breadaTmp dev block _ _ | .breadaAhead dev block _ _ _ => some (dev, block, true)
  | _ => none

def Caller.Accepts (label : Option (Nat × Nat × Bool)) : Caller → Prop
  | .getblk dev block | .bread dev block | .breada dev block _ =>
    ∀ l ∈ label, l.1 = dev ∧ l.2.1 = block
  | _ => True

def Stacked : Option (Nat × Nat × Bool) → List Caller → Prop
  | _, [] => True
  | label, caller :: stack => caller.Accepts label ∧ Stacked caller.label stack

theorem Stacked.none {label : Option (Nat × Nat × Bool)} {stack : List Caller}
    (stacked : Stacked label stack) : Stacked none stack := by
  cases stack with
  | nil => trivial
  | cons caller stack =>
    refine ⟨?_, stacked.2⟩
    cases caller <;> simp [Caller.Accepts]

def Process.Labelled (proc : Process) : Prop := Stacked proc.control.label proc.stack

theorem Submits.label {rw bh : Nat} (submitted : Submits driver c rw bh c' control) : control.label = .none := by
  cases submitted with
  | _ => rfl

theorem Moves.labelled (moved : Moves driver c proc c' proc') (labelled : proc.Labelled) : proc'.Labelled := by
  unfold Process.Labelled at labelled ⊢
  cases moved with
  | submit submitted =>
    rw [submitted.label]
    exact labelled.none
  | syncDevWrite submitted | sysSyncWrite inside submitted =>
    rw [submitted.label]
    exact ⟨trivial, labelled⟩
  | toNull why | toSyncDev why | toSysSync why => exact labelled.2.none
  | breadFails unlocked => exact ⟨trivial, labelled.none⟩
  | _ =>
    simp only [Control.label, Stacked, Caller.Accepts, Caller.label] at labelled ⊢
    grind [Stacked.none]

/-! ## References that are lost -/

def Caller.Dry (label : Option (Nat × Nat × Bool)) : Caller → Prop
  | .getblkSync _ _ _ | .breadRead _ _ _ | .breadFail | .breadaRead _ _ _ _ => label = none
  | .breadaAhead _ _ _ _ _ | .syncDevNext _ _ _ | .sysSyncNext _ => label = none
  | .inodesSyncDev _ | .inodesSysSync => label = none
  | _ => True

def StackDry : Option (Nat × Nat × Bool) → List Caller → Prop
  | _, [] => True
  | label, caller :: stack => caller.Dry label ∧ StackDry caller.label stack

theorem StackDry.none {label : Option (Nat × Nat × Bool)} {stack : List Caller} (dry : StackDry label stack) :
    StackDry none stack := by
  cases stack with
  | nil => trivial
  | cons caller stack =>
    refine ⟨?_, dry.2⟩
    cases caller <;> simp [Caller.Dry]

def Process.Dry (proc : Process) : Prop := StackDry proc.control.label proc.stack

variable {value : Value}

theorem Value.holds_of_not_buffer (other : ∀ dev block bh wasRead, value ≠ .buffer dev block bh wasRead) :
    value.holds = [] := by
  cases value with
  | unit | null => rfl
  | buffer dev block bh wasRead => exact absurd rfl (other dev block bh wasRead)

theorem Value.holds_of_label (none : (Control.ret value).label = none) : value.holds = [] := by
  cases value with
  | unit | null => rfl
  | buffer dev block bh wasRead => cases none

theorem Process.holds_ret (none : value.holds = []) (stack : List Caller) :
    Process.holds ⟨.ret value, stack⟩ = stackHolds stack := by
  simp only [Process.holds, Control.holds, none, nil_append]

theorem Moves.dry (moved : Moves driver c proc c' proc') (dry : proc.Dry) :
    proc'.Dry := by
  unfold Process.Dry at dry ⊢
  cases moved with
  | submit submitted =>
    rw [submitted.label]
    exact dry.none
  | syncDevWrite submitted | sysSyncWrite inside submitted =>
    rw [submitted.label]
    exact ⟨rfl, dry⟩
  | toNull why | toSyncDev why | toSysSync why => exact dry.2.none
  | breadFails unlocked => exact ⟨rfl, dry.none⟩
  | _ =>
    simp only [Control.label, StackDry, Caller.Dry, Caller.label] at dry ⊢
    grind [StackDry.none]

theorem Moves.account (moved : Moves driver c proc c' proc') (counted : ∀ h, proc.holds.count h ≤ c.count h) :
    ∃ lost : List Nat, (proc.Dry → lost = []) ∧
      ∀ h, c.count h + proc'.holds.count h + lost.count h = c'.count h + proc.holds.count h := by
  have keeps (exact : ∀ h, c.count h + proc'.holds.count h = c'.count h + proc.holds.count h) :
      ∃ lost : List Nat, (proc.Dry → lost = []) ∧
        ∀ h, c.count h + proc'.holds.count h + lost.count h = c'.count h + proc.holds.count h :=
    ⟨[], fun _ => rfl, exact⟩
  cases moved with
  | hit found =>
    refine keeps fun h => ?_
    have here := counted h
    simp only [Process.holds, Control.holds, Cache.incCount, update_apply,
      count_append, count_cons, count_nil, beq_iff_eq] at here ⊢
    grind
  | hashMiss | released used | tmpCached =>
    refine keeps fun h => ?_
    have here := counted h
    simp only [Process.holds, Control.holds, Caller.holds, stackHolds, Value.holds, Cache.decCount,
      update_apply, count_append, count_cons, count_nil, beq_iff_eq] at here ⊢
    grind
  | aheadDone =>
    refine ⟨_, fun dry => Value.holds_of_label dry.1, fun h => ?_⟩
    have here := counted h
    simp only [Process.holds, Control.holds, Caller.holds, stackHolds, Value.holds, Cache.decCount,
      update_apply, count_append, count_cons, count_nil, beq_iff_eq] at here ⊢
    grind
  | victimTake unlocked unused clean absent =>
    refine keeps fun h => ?_
    have here := counted h
    simp only [Process.holds, Control.holds, Value.holds, Cache.take_count, update_apply,
      count_append, count_cons, count_nil, beq_iff_eq] at here ⊢
    grind
  | submit submitted | syncDevWrite submitted | sysSyncWrite inside submitted =>
    obtain ⟨none, same⟩ := submitted.holds
    refine keeps fun h => ?_
    rw [same]
    simp only [Process.holds, none]
    simp [Control.holds, Caller.holds, stackHolds]
  | requestFound free | modify holds | mark holds | store holds | clear holds alone => exact keeps fun _ => rfl
  | callBrelse holds =>
    refine keeps fun h => ?_
    have := count_pos_iff.mpr holds
    simp only [Process.holds, Control.holds, Caller.holds, stackHolds, count_append,
      count_cons, count_nil, count_erase, beq_iff_eq]
    grind
  | toUser other | starve other | pick other | tmpNone other =>
    refine keeps fun h => ?_
    rw [Process.holds_ret (Value.holds_of_not_buffer other)]
    rfl
  | toGetblkSynced | toBreadWait | toBreadaLoop =>
    refine ⟨_, fun dry => Value.holds_of_label dry.1, fun h => ?_⟩
    simp only [Process.holds, Control.holds, Caller.holds, stackHolds, count_append]
    omega
  | toNull why =>
    rcases why with rfl | ⟨⟨dev, block, rfl⟩ | ⟨dev, block, ahead, rfl⟩, other⟩
    · refine ⟨_, fun dry => Value.holds_of_label dry.1, fun h => ?_⟩
      simp only [Process.holds, Control.holds, Caller.holds, Value.holds, stackHolds, nil_append, count_append]
      omega
    all_goals
      refine keeps fun h => ?_
      rw [Process.holds_ret (Value.holds_of_not_buffer other)]
      rfl
  | toSyncDev why | toSysSync why =>
    rcases why with ⟨j, rfl⟩ | rfl <;>
    · refine ⟨_, fun dry => Value.holds_of_label dry.1, fun h => ?_⟩
      simp only [Process.holds, Control.holds, Caller.holds, stackHolds, nil_append, count_append]
      omega
  | _ =>
    refine keeps fun h => ?_
    simp [Process.holds, Control.holds, Caller.holds, Value.holds, stackHolds, count_cons,
      Nat.add_comm, Nat.add_left_comm]

theorem Moves.balance (moved : Moves driver c proc c' proc') (counted : ∀ h, proc.holds.count h ≤ c.count h)
    (h : Nat) : c.count h + proc'.holds.count h ≤ c'.count h + proc.holds.count h := by
  obtain ⟨lost, -, exact⟩ := moved.account counted
  have := exact h
  omega

theorem Moves.exact (moved : Moves driver c proc c' proc') (dry : proc.Dry)
    (counted : ∀ h, proc.holds.count h ≤ c.count h) (h : Nat) :
    c.count h + proc'.holds.count h = c'.count h + proc.holds.count h := by
  obtain ⟨lost, none, exact⟩ := moved.account counted
  have := exact h
  rwa [none dry] at this

theorem Cache.endRequest_count (c : Cache) (line : Nat) : (c.endRequest line).count = c.count := by
  unfold Cache.endRequest
  cases c.queue line with
  | nil => rfl
  | cons slot rest =>
    simp only
    cases (c.request slot).bh with
    | none => rfl
    | some bh =>
      simp only [Cache.transfer]
      split <;> rfl

def System.Counted (s : System) : Prop :=
  ∀ h, ∑ p, (s.process p).holds.count h ≤ s.cache.count h

variable {s : System}

theorem System.Counted.le (counted : s.Counted) (p : Fin NR_TASKS) (h : Nat) :
    (s.process p).holds.count h ≤ s.cache.count h :=
  (Finset.single_le_sum (f := fun q => (s.process q).holds.count h) (fun _ _ => Nat.zero_le _)
    (Finset.mem_univ p)).trans (counted h)

theorem System.Counted.add_le (counted : s.Counted) {p q : Fin NR_TASKS} (different : p ≠ q) (h : Nat) :
    (s.process p).holds.count h + (s.process q).holds.count h ≤ s.cache.count h := by
  have pair := Finset.sum_le_sum_of_subset (f := fun q => (s.process q).holds.count h) (Finset.subset_univ {p, q})
  rw [Finset.sum_pair different] at pair
  exact pair.trans (counted h)

theorem System.Counted.ne_zero (counted : s.Counted) {p : Fin NR_TASKS} {h : Nat}
    (holds : h ∈ (s.process p).holds) : s.cache.count h ≠ 0 := by
  have held := count_pos_iff.mpr holds
  have := counted.le p h
  omega

theorem System.counted_init (c : Cache) : (System.init c).Counted := by
  intro h
  simp [System.init, Process.holds, Control.holds, stackHolds]

theorem System.Counted.step {s s' : System} {m : Move} (counted : s.Counted)
    (moved : s.step driver m = some s') : s'.Counted := by
  intro h
  rcases System.step_cases moved with ⟨p, proc, moves, others⟩ | ⟨line, _, rfl⟩
  · have balance := moves.balance (counted.le p) h
    have total := sum_update (fun proc : Process => proc.holds.count h) s.process p proc
    have before := counted h
    rw [others]
    omega
  · rw [Cache.endRequest_count]
    exact counted h

/-! ## The buffer a process has got -/

def Cache.Names (c : Cache) (dev block bh : Nat) : Prop := c.dev bh = dev ∧ c.blocknr bh = block

def Value.Named (c : Cache) : Value → Prop
  | .buffer dev block bh wasRead => c.Names dev block bh ∧ (wasRead = true → c.uptodate bh = true)
  | _ => True

def Control.Named (c : Cache) : Control → Prop
  | .breadWait dev block bh | .breadaLoop dev block bh _ => c.Names dev block bh
  | .ret value => value.Named c
  | _ => True

def Caller.Named (c : Cache) : Caller → Prop
  | .breadRead dev block bh | .breadaRead dev block bh _ => c.Names dev block bh
  | .breadaTmp dev block bh _ | .breadaAhead dev block bh _ _ => c.Names dev block bh
  | _ => True

def StackNamed (c : Cache) : List Caller → Prop
  | [] => True
  | caller :: stack => caller.Named c ∧ StackNamed c stack

def Process.Named (c : Cache) (proc : Process) : Prop :=
  proc.control.Named c ∧ StackNamed c proc.stack

/-- The head `h` stays the buffer of its block, and its contents stay valid. -/
structure Cache.Steady (c c' : Cache) (h : Nat) : Prop where
  dev : c'.dev h = c.dev h
  blocknr : c'.blocknr h = c.blocknr h
  uptodate : c.uptodate h = true → c'.uptodate h = true

theorem Cache.Steady.names {dev block bh : Nat} (steady : c.Steady c' bh) (names : c.Names dev block bh) :
    c'.Names dev block bh :=
  ⟨steady.dev.trans names.1, steady.blocknr.trans names.2⟩

theorem Cache.endRequest_uptodate {line h : Nat} (valid : c.uptodate h = true) :
    (c.endRequest line).uptodate h = true := by
  unfold Cache.endRequest
  cases c.queue line with
  | nil => exact valid
  | cons slot rest =>
    simp only
    cases (c.request slot).bh with
    | none => exact valid
    | some bh =>
      simp only [Cache.setLock, Cache.transfer]
      split <;> simp [update_apply, valid]

theorem Changes.steady {waits waits' : Option (Nat × Nat)} (changed : Changes c waits c' waits') :
    (∀ h, c.Steady c' h) ∨ ∃ bh dev block, c.lock bh = false ∧ c.count bh = 0 ∧ c.dirt bh = false ∧
      c.findBuffer dev block = none ∧ c' = c.take bh dev block := by
  cases changed with
  | take bh dev block _ unlocked unused clean absent =>
    exact .inr ⟨bh, dev, block, unlocked, unused, clean, absent, rfl⟩
  | clear bh _ =>
    refine .inl fun h => ⟨rfl, rfl, fun valid => ?_⟩
    simp [Cache.clearBlock, Cache.write, update_apply, valid]
  | complete line _ =>
    have same := c.endRequest_linkedAs line
    exact .inl fun h => ⟨congrFun same.dev h, congrFun same.blocknr h, Cache.endRequest_uptodate⟩
  | _ => exact .inl fun h => ⟨rfl, rfl, id⟩

theorem Cache.take_steady {bh dev block h : Nat} (other : h ≠ bh) :
    c.Steady (c.take bh dev block) h where
  dev := by rw [take_dev, update_of_ne other]
  blocknr := by rw [take_blocknr, update_of_ne other]
  uptodate := fun valid => by rw [take_uptodate, update_of_ne other, valid]

theorem Changes.steady_of_count {waits waits' : Option (Nat × Nat)} (changed : Changes c waits c' waits')
    {h : Nat} (used : c.count h ≠ 0) : c.Steady c' h := by
  rcases changed.steady with all | ⟨bh, dev, block, -, unused, -, -, rfl⟩
  · exact all h
  · exact Cache.take_steady fun same => used (same ▸ unused)

theorem Value.Named.steady {value : Value} (named : value.Named c) (steady : ∀ h ∈ value.holds, c.Steady c' h) :
    value.Named c' := by
  cases value with
  | unit | null => trivial
  | buffer dev block bh wasRead =>
    have here := steady bh (.head _)
    exact ⟨here.names named.1, fun read => here.uptodate (named.2 read)⟩

theorem Control.Named.steady (named : control.Named c) (steady : ∀ h ∈ control.holds, c.Steady c' h) :
    control.Named c' := by
  cases control with
  | breadWait dev block bh | breadaLoop dev block bh ahead => exact (steady bh (.head _)).names named
  | ret value => exact Value.Named.steady named steady
  | _ => trivial

theorem Caller.Named.steady {caller : Caller} (named : caller.Named c)
    (steady : ∀ h ∈ caller.holds, c.Steady c' h) : caller.Named c' := by
  cases caller with
  | breadRead dev block bh => exact (steady bh (.head _)).names named
  | breadaRead dev block bh ahead | breadaTmp dev block bh ahead | breadaAhead dev block bh tmp ahead =>
    exact (steady bh (.head _)).names named
  | _ => trivial

theorem StackNamed.steady {stack : List Caller} (named : StackNamed c stack)
    (steady : ∀ h ∈ stackHolds stack, c.Steady c' h) : StackNamed c' stack := by
  induction stack with
  | nil => trivial
  | cons caller stack ih =>
    simp only [stackHolds, mem_append] at steady
    exact ⟨named.1.steady fun h held => steady h (.inl held), ih named.2 fun h held => steady h (.inr held)⟩

theorem Process.Named.steady (named : proc.Named c) (steady : ∀ h ∈ proc.holds, c.Steady c' h) :
    proc.Named c' := by
  simp only [Process.holds, mem_append] at steady
  exact ⟨named.1.steady fun h held => steady h (.inl held), named.2.steady fun h held => steady h (.inr held)⟩

theorem Submits.steady {rw bh : Nat} (submitted : Submits driver c rw bh c' control) (h : Nat) :
    control.Named c ∧ c.Steady c' h := by
  cases submitted with
  | _ => exact ⟨trivial, rfl, rfl, id⟩

theorem Moves.steady (moved : Moves driver c proc c' proc') :
    (∀ h, c.Steady c' h) ∨ ∃ dev block bh stack, proc = ⟨.victimWait dev block bh, stack⟩ ∧
      c.count bh = 0 ∧ c' = c.take bh dev block ∧
      proc' = ⟨.ret (.buffer dev block bh false), stack⟩ := by
  cases moved with
  | victimTake unlocked unused clean absent => exact .inr ⟨_, _, _, _, rfl, unused, rfl, rfl⟩
  | submit submitted | syncDevWrite submitted | sysSyncWrite inside submitted =>
    exact .inl fun h => (submitted.steady h).2
  | clear holds alone =>
    refine .inl fun h => ⟨rfl, rfl, fun valid => ?_⟩
    simp [Cache.clearBlock, Cache.write, update_apply, valid]
  | _ => exact .inl fun h => ⟨rfl, rfl, id⟩

theorem Moves.named_before (moved : Moves driver c proc c' proc') (steady : ∀ h, c.Steady c' h)
    (labelled : proc.Labelled) (named : proc.Named c) : proc'.Named c := by
  unfold Process.Labelled at labelled
  cases moved with
  | victimTake unlocked unused clean absent =>
    refine ⟨⟨⟨?_, ?_⟩, nofun⟩, named.2⟩
    · rw [← (steady _).dev, Cache.take_dev, update_self]
    · rw [← (steady _).blocknr, Cache.take_blocknr, update_self]
  | submit submitted => exact ⟨(submitted.steady 0).1, named.2⟩
  | syncDevWrite submitted | sysSyncWrite inside submitted => exact ⟨(submitted.steady 0).1, trivial, named.2⟩
  | _ =>
    simp only [Process.Named, Control.Named, Caller.Named, StackNamed, Value.Named, Control.label,
      Caller.label, Stacked, Caller.Accepts, Cache.Names, Option.mem_def, Option.some.injEq,
      forall_eq'] at labelled named ⊢
    grind

theorem Moves.named (moved : Moves driver c proc c' proc') (labelled : proc.Labelled)
    (counted : ∀ h ∈ proc.holds, c.count h ≠ 0) (named : proc.Named c) : proc'.Named c' := by
  rcases moved.steady with all | ⟨dev, block, bh, stack, rfl, unused, rfl, rfl⟩
  · exact (moved.named_before all labelled named).steady fun h _ => all h
  · refine ⟨⟨⟨?_, ?_⟩, nofun⟩, ?_⟩
    · rw [Cache.take_dev, update_self]
    · rw [Cache.take_blocknr, update_self]
    · refine named.2.steady fun h held => Cache.take_steady ?_
      rintro rfl
      exact counted h (mem_append_right _ held) unused

structure System.Referenced (s : System) : Prop where
  counted : s.Counted
  labelled : ∀ p, (s.process p).Labelled
  named : ∀ p, (s.process p).Named s.cache

theorem System.referenced_init (c : Cache) : (System.init c).Referenced where
  counted := System.counted_init c
  labelled := fun _ => trivial
  named := fun _ => ⟨trivial, trivial⟩

theorem System.Referenced.step {n : Nat} {s s' : System} {m : Move} (linked : s.Linked n)
    (referenced : s.Referenced) (moved : s.step driver m = some s') : s'.Referenced := by
  obtain ⟨_, _, changed⟩ := System.step_changes linked.inside moved
  have used : ∀ p, ∀ h ∈ (s.process p).holds, s.cache.count h ≠ 0 := fun p h held => referenced.counted.ne_zero held
  have stays : ∀ p, (s.process p).Named s'.cache := fun p =>
    (referenced.named p).steady fun h held => changed.steady_of_count (used p h held)
  exact
    { counted := referenced.counted.step moved
      labelled := System.step_forall moved referenced.labelled fun p _ moves =>
        moves.labelled (referenced.labelled p)
      named := System.step_forall moved stays fun p _ moves =>
        moves.named (referenced.labelled p) (used p) (referenced.named p) }

end Machine

end Linux012.Fs

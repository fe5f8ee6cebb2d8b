import Linux012.Fs.Bmap

/-! What becomes of the zones when several processes extend a file. A zone is
lost exactly when a call assigns to a slot that somebody else has filled since
it was found empty. -/

set_option autoImplicit false

namespace Linux012.Fs.Bmap

open Transition Function

/-! ## The zones under an inode -/

section Leads

inductive State.Leads (s : State) (start : Slot → List (Fin 512) → Prop) :
    Slot → List (Fin 512) → Prop where
  | start {slot : Slot} {rest : List (Fin 512)} : start slot rest → Leads s start slot rest
  | down {slot : Slot} {k : Fin 512} {rest : List (Fin 512)} :
      Leads s start slot (k :: rest) → s.value slot ≠ 0 →
        Leads s start (.entry (s.value slot) k) rest

def State.Touches (s : State) (start : Slot → List (Fin 512) → Prop) (z : Nat) : Prop :=
  ∃ slot rest, s.Leads start slot rest ∧ (z ≠ 0 ∧ s.value slot = z ∨ ∃ k, slot = .entry z k)

def State.fill (s : State) (slot : Slot) (z : Nat) : State := (s.clearBlock z).store slot z

variable {s s' : State} {start start' : Slot → List (Fin 512) → Prop} {slot σ : Slot}
  {rest : List (Fin 512)} {z : Nat}

theorem store_value (s : State) (σ slot : Slot) (z : Nat) :
    (s.store σ z).value slot = if slot = σ then z else s.value slot := by
  cases σ <;> cases slot <;> simp only [State.store, State.value, update_apply, Slot.zone.injEq,
    Slot.entry.injEq, reduceCtorEq, if_false]
  next y k z' k' =>
    by_cases same : z' = y
    · subst same
      simp [update_apply]
    · simp [same]

theorem clearBlock_value (s : State) (slot : Slot) (z : Nat) [Decidable (∃ k, slot = .entry z k)] :
    (s.clearBlock z).value slot = if ∃ k, slot = .entry z k then 0 else s.value slot := by
  cases slot with
  | zone k => simp [State.clearBlock, State.value]
  | entry y k =>
    by_cases same : y = z <;> simp [State.clearBlock, State.value, same]

theorem fill_value_self (s : State) (σ : Slot) (z : Nat) : (s.fill σ z).value σ = z := by
  rw [State.fill, store_value, if_pos rfl]

theorem fill_value_new {k : Fin 512} (other : .entry z k ≠ σ) : (s.fill σ z).value (.entry z k) = 0 := by
  classical
  rw [State.fill, store_value, if_neg other, clearBlock_value, if_pos ⟨k, rfl⟩]

theorem fill_value_of_ne (other : slot ≠ σ) (outside : ∀ k, slot ≠ .entry z k) :
    (s.fill σ z).value slot = s.value slot := by
  classical
  rw [State.fill, store_value, if_neg other, clearBlock_value, if_neg (by simpa using outside)]

theorem leads_value_congr (same : s'.value = s.value) : s'.Leads start slot rest ↔ s.Leads start slot rest := by
  constructor <;> intro leads <;> induction leads with
  | start isStart => exact .start isStart
  | down _ filled ih =>
    first
    | rw [same] at filled ⊢
      exact ih.down filled
    | rw [← same] at filled ⊢
      exact ih.down filled

theorem State.Leads.trans (within : ∀ slot rest, start' slot rest → s.Leads start slot rest)
    (leads : s.Leads start' slot rest) : s.Leads start slot rest := by
  induction leads with
  | start isStart => exact within _ _ isStart
  | down _ filled ih => exact ih.down filled

theorem State.Touches.trans (within : ∀ slot rest, start' slot rest → s.Leads start slot rest)
    (touches : s.Touches start' z) : s.Touches start z := by
  obtain ⟨slot, rest, leads, here⟩ := touches
  exact ⟨slot, rest, leads.trans within, here⟩

theorem State.Leads.of_shrink (shrinks : ∀ slot, s'.value slot = s.value slot ∨ s'.value slot = 0)
    (leads : s'.Leads start slot rest) : s.Leads start slot rest := by
  induction leads with
  | start isStart => exact .start isStart
  | @down slot k rest _ filled ih =>
    rcases shrinks slot with same | emptied
    · rw [same] at filled ⊢
      exact ih.down filled
    · exact absurd emptied filled

theorem State.Touches.of_shrink (shrinks : ∀ slot, s'.value slot = s.value slot ∨ s'.value slot = 0)
    (touches : s'.Touches start z) : s.Touches start z := by
  obtain ⟨slot, rest, leads, here⟩ := touches
  refine ⟨slot, rest, leads.of_shrink shrinks, here.imp_left ?_⟩
  rintro ⟨some, holds⟩
  rcases shrinks slot with same | emptied
  · exact ⟨some, same.symm.trans holds⟩
  · exact absurd (holds.symm.trans emptied) some

theorem State.Leads.touches_block {k : Fin 512} (leads : s.Leads start (.entry z k) rest) :
    s.Touches start z := ⟨_, _, leads, .inr ⟨k, rfl⟩⟩

theorem leads_of_fill (untouched : ¬s.Touches start z) (outside : ∀ k, σ ≠ .entry z k)
    (leads : (s.fill σ z).Leads start slot rest) :
    s.Leads start slot rest ∨ ∃ k, slot = .entry z k := by
  induction leads with
  | start isStart => exact .inl (.start isStart)
  | @down slot k rest _ filled ih =>
    by_cases isNew : slot = σ
    · subst isNew
      rw [fill_value_self]
      exact .inr ⟨k, rfl⟩
    · rcases ih with old | ⟨k', rfl⟩
      · have elsewhere (k' : Fin 512) : slot ≠ .entry z k' := by
          rintro rfl
          exact untouched old.touches_block
        rw [fill_value_of_ne isNew elsewhere] at filled ⊢
        exact .inl (old.down filled)
      · exact absurd (fill_value_new isNew) filled

theorem touches_of_fill {y : Nat} (untouched : ¬s.Touches start z) (outside : ∀ k, σ ≠ .entry z k)
    (other : y ≠ z) (touches : (s.fill σ z).Touches start y) : s.Touches start y := by
  obtain ⟨slot, rest, leads, here⟩ := touches
  rcases leads_of_fill untouched outside leads with old | ⟨k, rfl⟩
  · refine ⟨slot, rest, old, here.imp_left ?_⟩
    rintro ⟨some, holds⟩
    refine ⟨some, ?_⟩
    by_cases isNew : slot = σ
    · subst isNew
      rw [fill_value_self] at holds
      exact absurd holds.symm other
    · rwa [fill_value_of_ne isNew] at holds
      rintro k rfl
      exact untouched old.touches_block
  · rcases here with ⟨some, holds⟩ | ⟨k', same⟩
    · rw [fill_value_new (outside k).symm] at holds
      exact absurd holds.symm some
    · cases same
      exact absurd rfl other

theorem fill_value_kept (untouched : ¬s.Touches start z) (free : s.value σ = 0)
    (leads : s.Leads start slot rest) (filled : s.value slot ≠ 0) :
    (s.fill σ z).value slot = s.value slot := by
  refine fill_value_of_ne ?_ ?_
  · rintro rfl
    exact filled free
  · rintro k rfl
    exact untouched leads.touches_block

theorem State.Leads.fill (untouched : ¬s.Touches start z) (free : s.value σ = 0)
    (leads : s.Leads start slot rest) : (s.fill σ z).Leads start slot rest := by
  induction leads with
  | start isStart => exact .start isStart
  | down before filled ih =>
    have kept := fill_value_kept untouched free before filled
    rw [← kept] at filled ⊢
    exact ih.down filled

end Leads

/-! ## Zones in use and zones in hand -/

def State.InUse (s : State) (z : Nat) : Prop := ∃ j, s.zmap j = true ∧ z + 1 = j + s.sb.firstdatazone

def Control.call : Control → Option Call
  | .idle => none
  | .reading call | .empty call | .taken call _ => some call

def Control.fills : Control → Option Call
  | .idle | .reading _ => none
  | .empty call | .taken call _ => some call

def Control.hand : Control → Option Nat
  | .taken _ z => some z
  | _ => none

def Root (block : Nat) (slot : Slot) (rest : List (Fin 512)) : Prop := path block = some (slot, rest)

def AnyRoot (slot : Slot) (rest : List (Fin 512)) : Prop := ∃ block, Root block slot rest

def State.Known (s : State) (slot : Slot) (rest : List (Fin 512)) : Prop :=
  AnyRoot slot rest ∨ ∃ p call, (s.control p).call = some call ∧ call.slot = slot ∧ call.rest = rest

def State.Reaches (s : State) (z : Nat) : Prop :=
  z ≠ 0 ∧ ∃ slot rest, s.Leads AnyRoot slot rest ∧ s.value slot = z

structure State.Separate (s : State) : Prop where
  touched_used : ∀ z, s.Touches s.Known z → s.InUse z
  hand_used : ∀ p z, (s.control p).hand = some z → s.InUse z
  hand_untouched : ∀ p z, (s.control p).hand = some z → ¬s.Touches s.Known z
  hand_distinct : ∀ p q z, (s.control p).hand = some z → (s.control q).hand = some z → p = q

section Store

variable (s : State) (σ : Slot) (z : Nat)

@[simp] theorem store_control : (s.store σ z).control = s.control := by cases σ <;> rfl
@[simp] theorem store_zmap : (s.store σ z).zmap = s.zmap := by cases σ <;> rfl
@[simp] theorem store_sb : (s.store σ z).sb = s.sb := by cases σ <;> rfl
@[simp] theorem store_given : (s.store σ z).given = s.given := by cases σ <;> rfl
@[simp] theorem store_results : (s.store σ z).results = s.results := by cases σ <;> rfl
@[simp] theorem fill_control : (s.fill σ z).control = s.control := store_control _ σ z
@[simp] theorem fill_zmap : (s.fill σ z).zmap = s.zmap := store_zmap _ σ z
@[simp] theorem fill_sb : (s.fill σ z).sb = s.sb := store_sb _ σ z
@[simp] theorem fill_given : (s.fill σ z).given = s.given := store_given _ σ z
@[simp] theorem fill_results : (s.fill σ z).results = s.results := store_results _ σ z

end Store

section Separate

variable {s s' : State} {p : Nat} {c : Control} {call : Call} {z : Nat}

theorem State.Reaches.touches (reaches : s.Reaches z) : s.Touches s.Known z := by
  obtain ⟨some, slot, rest, leads, holds⟩ := reaches
  exact ⟨slot, rest, leads.trans fun _ _ root => .start (.inl root), .inl ⟨some, holds⟩⟩

theorem State.InUse.ne_zero (used : s.InUse z) : z ≠ 0 := by
  obtain ⟨j, -, isZone⟩ := used
  have data := s.sb.data_pos
  omega

theorem known_of_control (control : s'.control = update s.control p c)
    (calls : ∀ call, c.call = some call → s.Leads s.Known call.slot call.rest)
    (slot : Slot) (rest : List (Fin 512)) (known : s'.Known slot rest) : s.Leads s.Known slot rest := by
  rcases known with root | ⟨q, call, isCall, rfl, rfl⟩
  · exact .start (.inl root)
  · rw [control] at isCall
    by_cases same : q = p
    · subst same
      rw [update_self] at isCall
      exact calls call isCall
    · rw [update_of_ne same] at isCall
      exact .start (.inr ⟨q, call, isCall, rfl, rfl⟩)

theorem hand_of_control {q y : Nat} (control : s'.control = update s.control p c)
    (inHand : (s'.control q).hand = some y) :
    (s.control q).hand = some y ∧ q ≠ p ∨ q = p ∧ c.hand = some y := by
  rw [control] at inHand
  by_cases same : q = p
  · subst same
    rw [update_self] at inHand
    exact .inr ⟨rfl, inHand⟩
  · rw [update_of_ne same] at inHand
    exact .inl ⟨inHand, same⟩

theorem State.Separate.control (separate : s.Separate)
    (shrinks : ∀ slot, s'.value slot = s.value slot ∨ s'.value slot = 0)
    (use : ∀ y, s.InUse y → s'.InUse y) (control : s'.control = update s.control p c)
    (calls : ∀ call, c.call = some call → s.Leads s.Known call.slot call.rest) (noHand : c.hand = none) :
    s'.Separate := by
  have touched {y : Nat} (touches : s'.Touches s'.Known y) : s.Touches s.Known y :=
    (touches.of_shrink shrinks).trans (known_of_control control calls)
  have inHand {q y : Nat} (inHand : (s'.control q).hand = some y) : (s.control q).hand = some y := by
    rcases hand_of_control control inHand with ⟨old, -⟩ | ⟨-, new⟩
    · exact old
    · rw [noHand] at new
      cases new
  exact
    { touched_used := fun y touches => use y (separate.touched_used y (touched touches))
      hand_used := fun q y holds => use y (separate.hand_used q y (inHand holds))
      hand_untouched := fun q y holds touches => separate.hand_untouched q y (inHand holds) (touched touches)
      hand_distinct := fun q r y holdsQ holdsR => separate.hand_distinct q r y (inHand holdsQ) (inHand holdsR) }

variable (call) in
theorem State.Separate.take (separate : s.Separate) (sameValue : s'.value = s.value)
    (use : ∀ y, s'.InUse y ↔ s.InUse y ∨ y = z) (free : ¬s.InUse z)
    (control : s'.control = update s.control p (.taken call z))
    (at_ : (s.control p).call = some call) : s'.Separate := by
  have calls (call' : Call) (isCall : (Control.taken call z).call = some call') :
      s.Leads s.Known call'.slot call'.rest := by
    cases isCall
    exact .start (.inr ⟨p, call, at_, rfl, rfl⟩)
  have touched {y : Nat} (touches : s'.Touches s'.Known y) : s.Touches s.Known y := by
    have old : s.Touches s'.Known y :=
      touches.of_shrink fun slot => .inl (congrFun sameValue slot)
    exact old.trans (known_of_control control calls)
  have inHand {q y : Nat} (inHand : (s'.control q).hand = some y) :
      (s.control q).hand = some y ∧ q ≠ p ∨ q = p ∧ y = z := by
    refine (hand_of_control control inHand).imp_right (And.imp_right fun new => ?_)
    cases new
    rfl
  constructor
  · intro y touches
    exact (use y).mpr (.inl (separate.touched_used y (touched touches)))
  · intro q y holds
    rcases inHand holds with ⟨old, -⟩ | ⟨-, rfl⟩
    · exact (use y).mpr (.inl (separate.hand_used q y old))
    · exact (use y).mpr (.inr rfl)
  · intro q y holds touches
    rcases inHand holds with ⟨old, -⟩ | ⟨-, rfl⟩
    · exact separate.hand_untouched q y old (touched touches)
    · exact free (separate.touched_used y (touched touches))
  · intro q r y holdsQ holdsR
    rcases inHand holdsQ with ⟨oldQ, -⟩ | ⟨rfl, rfl⟩ <;>
      rcases inHand holdsR with ⟨oldR, -⟩ | ⟨rfl, same⟩
    · exact separate.hand_distinct q r y oldQ oldR
    · subst same
      exact absurd (separate.hand_used q y oldQ) free
    · exact absurd (separate.hand_used r y oldR) free
    · rfl

theorem State.Separate.fill {σ : Slot} (separate : s.Separate) (used : s.InUse z)
    (untouched : ¬s.Touches s.Known z) (noHand : ∀ q, (s.control q).hand ≠ some z)
    (outside : ∀ k, σ ≠ .entry z k) : (s.fill σ z).Separate := by
  have sameKnown : (s.fill σ z).Known = s.Known := by
    unfold State.Known
    rw [fill_control]
  have sameUse : (s.fill σ z).InUse = s.InUse := by
    unfold State.InUse
    rw [fill_zmap, fill_sb]
  constructor
  · intro y touches
    rw [sameKnown] at touches
    rw [sameUse]
    by_cases same : y = z
    · exact same ▸ used
    · exact separate.touched_used y (touches_of_fill untouched outside same touches)
  · intro q y holds
    rw [fill_control] at holds
    rw [sameUse]
    exact separate.hand_used q y holds
  · intro q y holds touches
    rw [fill_control] at holds
    rw [sameKnown] at touches
    have other : y ≠ z := by
      rintro rfl
      exact noHand q holds
    exact separate.hand_untouched q y holds (touches_of_fill untouched outside other touches)
  · intro q r y
    rw [fill_control]
    exact separate.hand_distinct q r y

end Separate

/-! ## What a step does -/

def State.Comes (s : State) (p : Nat) (call : Call) : Prop :=
  s.control p = .reading call ∨ s.control p = .idle ∧ Root call.block call.slot call.rest

inductive State.Outcome (s : State) : Move → State → Prop where
  | visited {m : Move} {p : Nat} {call : Call} : s.Comes p call → Outcome s m (s.visit p call)
  | noBuffer {p : Nat} {call : Call} : s.control p = .reading call →
      Outcome s (.read p false) (s.return p call.block 0)
  | taken {p : Nat} {call : Call} {z : Nat} : s.control p = .empty call → s.freeZone = some z →
      Outcome s (.alloc p) (s.setBit.goto p (.taken call z))
  | fullZone {p : Nat} {call : Call} {k : Fin 9} : s.control p = .empty call → s.freeZone = none →
      call.slot = .zone k → Outcome s (.alloc p) ((s.setBit.store (.zone k) 0).return p call.block 0)
  | fullEntry {p : Nat} {call : Call} {y : Nat} {k : Fin 512} : s.control p = .empty call →
      s.freeZone = none → call.slot = .entry y k → Outcome s (.alloc p) (s.setBit.return p call.block 0)
  | assigned {p : Nat} {call : Call} {z : Nat} : s.control p = .taken call z →
      Outcome s (.assign p) ({ s.fill call.slot z with given := z :: s.given }.proceed p call z)

variable {s : State}

theorem step_outcome {s' : State} {m : Move} (moved : s.step m = some s') : s.Outcome m s' := by
  cases m with
  | call p block =>
    simp only [State.step] at moved
    split at moved
    · next slot rest isIdle isRoot =>
      cases moved
      exact .visited (.inr ⟨isIdle, isRoot⟩)
    · cases moved
  | read p found =>
    simp only [State.step] at moved
    split at moved
    · next call isReading =>
      cases found with
      | true =>
        cases moved
        exact .visited (.inl isReading)
      | false =>
        cases moved
        exact .noBuffer isReading
    · cases moved
  | alloc p =>
    simp only [State.step] at moved
    split at moved
    · next call isEmpty =>
      split at moved
      · next z isFree =>
        cases moved
        exact .taken isEmpty isFree
      · next isFull =>
        split at moved
        · next k atZone =>
          cases moved
          rw [atZone]
          exact .fullZone isEmpty isFull atZone
        · next y k atEntry =>
          cases moved
          exact .fullEntry isEmpty isFull atEntry
    · cases moved
  | assign p =>
    simp only [State.step] at moved
    split at moved
    · next call z isTaken =>
      cases moved
      have same : { (s.clearBlock z).store call.slot z with given := z :: s.given } =
          { s.fill call.slot z with given := z :: s.given } := rfl
      rw [same]
      exact .assigned isTaken
    · cases moved

def Call.next (call : Call) (z : Nat) : Control :=
  match call.rest with
  | [] => .idle
  | k :: rest => .reading ⟨call.block, .entry z k, rest⟩

section Effects

variable (s : State) (p : Nat) (call : Call) (z : Nat)

theorem proceed_control : (s.proceed p call z).control = update s.control p (call.next z) := by
  unfold State.proceed Call.next
  cases call.rest <;> rfl

theorem proceed_frame : (s.proceed p call z).zone = s.zone ∧ (s.proceed p call z).index = s.index ∧
    (s.proceed p call z).zmap = s.zmap ∧ (s.proceed p call z).sb = s.sb ∧
      (s.proceed p call z).given = s.given := by
  unfold State.proceed
  split <;> exact ⟨rfl, rfl, rfl, rfl, rfl⟩

theorem setBit_frame : s.setBit.zone = s.zone ∧ s.setBit.index = s.index ∧ s.setBit.sb = s.sb ∧
    s.setBit.control = s.control ∧ s.setBit.given = s.given ∧ s.setBit.results = s.results := by
  unfold State.setBit
  split <;> exact ⟨rfl, rfl, rfl, rfl, rfl, rfl⟩

variable {s p call z}

theorem value_congr {s' : State} (sameZone : s'.zone = s.zone) (sameIndex : s'.index = s.index) :
    s'.value = s.value := by
  funext slot
  cases slot with
  | zone k => exact congrFun sameZone k
  | entry y k => exact congrFun (congrFun sameIndex y) k

theorem inUse_congr {s' : State} (sameZmap : s'.zmap = s.zmap) (sameSb : s'.sb = s.sb) :
    s'.InUse = s.InUse := by
  unfold State.InUse
  rw [sameZmap, sameSb]

theorem firstZero_free {j : Nat} (first : s.firstZero = some j) : s.zmap j = false := by
  have isFree := List.find?_some first
  simpa using isFree

theorem inUse_setBit {y : Nat} (used : s.InUse y) : s.setBit.InUse y := by
  obtain ⟨j, isSet, isZone⟩ := used
  refine ⟨j, ?_, by rwa [(setBit_frame s).2.2.1]⟩
  unfold State.setBit
  split
  · simp only [update_apply]
    split
    · rfl
    · exact isSet
  · exact isSet

theorem freeZone_spec (isFree : s.freeZone = some z) :
    ¬s.InUse z ∧ ∀ y, s.setBit.InUse y ↔ s.InUse y ∨ y = z := by
  rw [State.freeZone, Option.filter_eq_some_iff, Option.map_eq_some_iff] at isFree
  obtain ⟨⟨j, first, rfl⟩, -⟩ := isFree
  have data := s.sb.data_pos
  have isClear := firstZero_free first
  constructor
  · rintro ⟨j', isSet, isZone⟩
    have same : j' = j := by
      rw [SuperBlock.zoneOf] at isZone
      omega
    rw [same, isClear] at isSet
    cases isSet
  · intro y
    have bits : s.setBit.zmap = update s.zmap j true := by
      unfold State.setBit
      rw [first]
    unfold State.InUse
    rw [bits, (setBit_frame s).2.2.1]
    constructor
    · rintro ⟨j', isSet, isZone⟩
      by_cases same : j' = j
      · subst same
        right
        rw [SuperBlock.zoneOf]
        omega
      · rw [update_of_ne same] at isSet
        exact .inl ⟨j', isSet, isZone⟩
    · rintro (⟨j', isSet, isZone⟩ | rfl)
      · refine ⟨j', ?_, isZone⟩
        rw [update_apply]
        split
        · rfl
        · exact isSet
      · refine ⟨j, update_self .., ?_⟩
        rw [SuperBlock.zoneOf]
        omega

end Effects

section Steps

variable {s s' : State} {p : Nat} {call : Call} {z : Nat} {m : Move}

theorem goto_fill (s : State) (p : Nat) (c : Control) (σ : Slot) (z : Nat) :
    (s.goto p c).fill σ z = (s.fill σ z).goto p c := by cases σ <;> rfl

theorem State.Comes.known (comes : s.Comes p call) : s.Known call.slot call.rest := by
  rcases comes with isReading | ⟨-, root⟩
  · exact .inr ⟨p, call, by rw [isReading]; rfl, rfl, rfl⟩
  · exact .inl ⟨call.block, root⟩

theorem leads_next {start : Slot → List (Fin 512) → Prop} {call' : Call}
    (leads : s.Leads start call.slot call.rest) (filled : s.value call.slot ≠ 0)
    (isNext : (call.next (s.value call.slot)).call = some call') :
    s.Leads start call'.slot call'.rest ∧ call'.block = call.block := by
  unfold Call.next at isNext
  cases more : call.rest with
  | nil =>
    rw [more] at isNext
    cases isNext
  | cons k rest =>
    rw [more] at isNext leads
    cases isNext
    exact ⟨leads.down filled, rfl⟩

theorem next_hand (call : Call) (z : Nat) : (call.next z).hand = none := by
  unfold Call.next
  cases call.rest <;> rfl

theorem next_fills (call : Call) (z : Nat) : (call.next z).fills = none := by
  unfold Call.next
  cases call.rest <;> rfl

theorem State.Separate.proceed (separate : s.Separate) (leads : s.Leads s.Known call.slot call.rest)
    (filled : s.value call.slot ≠ 0) (holds : s.value call.slot = z) :
    (s.proceed p call z).Separate := by
  subst holds
  obtain ⟨sameZone, sameIndex, sameZmap, sameSb, -⟩ := proceed_frame s p call (s.value call.slot)
  have sameValue := value_congr sameZone sameIndex
  refine separate.control (fun slot => .inl (by rw [sameValue])) (fun y used => ?_) (proceed_control ..) ?_
    (next_hand ..)
  · rwa [inUse_congr sameZmap sameSb]
  · exact fun call' isNext => (leads_next leads filled isNext).1

theorem State.Separate.visit (separate : s.Separate) (leads : s.Leads s.Known call.slot call.rest) :
    (s.visit p call).Separate := by
  unfold State.visit
  split
  · refine separate.control (p := p) (c := .empty call) (fun slot => .inl rfl) (fun y used => used) rfl ?_ rfl
    rintro call' isCall
    cases isCall
    exact leads
  · next filled => exact separate.proceed leads filled rfl

theorem State.Separate.return (separate : s.Separate) (block z : Nat) : (s.return p block z).Separate := by
  refine separate.control (p := p) (c := .idle) (fun slot => .inl rfl) (fun y used => used) rfl ?_ rfl
  intro call isCall
  cases isCall

theorem State.Separate.assign (separate : s.Separate) (isTaken : s.control p = .taken call z) :
    ((s.goto p (.empty call)).fill call.slot z).Separate ∧
      ∀ k, call.slot ≠ .entry z k := by
  have inHand : (s.control p).hand = some z := by rw [isTaken]; rfl
  have isCall : (s.control p).call = some call := by rw [isTaken]; rfl
  have known : s.Known call.slot call.rest := .inr ⟨p, call, isCall, rfl, rfl⟩
  have calls (call' : Call) (same : (Control.empty call).call = some call') :
      s.Leads s.Known call'.slot call'.rest := by
    cases same
    exact .start known
  have untouched := separate.hand_untouched p z inHand
  have outside (k : Fin 512) : call.slot ≠ .entry z k := by
    intro same
    rw [same] at known
    exact untouched ⟨_, _, .start known, .inr ⟨k, rfl⟩⟩
  have control : (s.goto p (.empty call)).control = update s.control p (.empty call) := rfl
  have dropped : (s.goto p (.empty call)).Separate :=
    separate.control (fun slot => .inl rfl) (fun y used => used) control calls rfl
  refine ⟨dropped.fill (separate.hand_used p z inHand) ?_ ?_ outside, outside⟩
  · intro touches
    have old : s.Touches (s.goto p (.empty call)).Known z :=
      State.Touches.of_shrink (by exact fun slot => .inl rfl) touches
    exact untouched (old.trans (known_of_control control calls))
  · intro q holds
    rcases hand_of_control control holds with ⟨old, other⟩ | ⟨-, new⟩
    · exact other (separate.hand_distinct q p z old inHand)
    · cases new

theorem State.Separate.step (separate : s.Separate) (moved : s.step m = some s') : s'.Separate := by
  cases step_outcome moved with
  | visited comes => exact separate.visit (.start comes.known)
  | noBuffer isReading => exact separate.return _ 0
  | @taken p call z isEmpty isFree =>
    obtain ⟨sameZone, sameIndex, -, sameControl, -⟩ := setBit_frame s
    obtain ⟨free, use⟩ := freeZone_spec isFree
    refine separate.take call (z := z) (p := p) (value_congr sameZone sameIndex) use free ?_ ?_
    · simp only [State.goto, sameControl]
    · rw [isEmpty]
      rfl
  | @fullZone p call k isEmpty isFull atZone =>
    obtain ⟨sameZone, sameIndex, -, sameControl, -⟩ := setBit_frame s
    have sameValue := value_congr sameZone sameIndex
    refine separate.control (p := p) (c := .idle) (fun slot => ?_) (fun y used => ?_) ?_ ?_ rfl
    · have value : ((s.setBit.store (.zone k) 0).return p call.block 0).value slot =
          (s.setBit.store (.zone k) 0).value slot := rfl
      rw [value, store_value, sameValue]
      split
      · exact .inr rfl
      · exact .inl rfl
    · exact inUse_setBit used
    · rw [← sameControl]
      rfl
    · intro call' isCall
      cases isCall
  | @fullEntry p call y k isEmpty isFull atEntry =>
    obtain ⟨sameZone, sameIndex, -, sameControl, -⟩ := setBit_frame s
    have sameValue := value_congr sameZone sameIndex
    refine separate.control (p := p) (c := .idle) (fun slot => ?_) (fun y used => ?_) ?_ ?_ rfl
    · exact .inl (congrFun sameValue slot)
    · exact inUse_setBit used
    · rw [← sameControl]
      rfl
    · intro call' isCall
      cases isCall
  | @assigned p call z isTaken =>
    obtain ⟨filled, outside⟩ := separate.assign isTaken
    obtain ⟨sameZone, sameIndex, sameZmap, sameSb, -⟩ :=
      proceed_frame { s.fill call.slot z with given := z :: s.given } p call z
    have isZone : z ≠ 0 := (separate.hand_used p z (by rw [isTaken]; rfl)).ne_zero
    rw [goto_fill] at filled
    have holds : ((s.fill call.slot z).goto p (.empty call)).value call.slot = z := fill_value_self ..
    refine filled.control (p := p) (c := call.next z) (fun slot => .inl ?_) (fun y used => ?_) ?_ ?_
      (next_hand ..)
    · exact congrFun (value_congr sameZone sameIndex) slot
    · rwa [inUse_congr sameZmap sameSb]
    · rw [proceed_control]
      simp [State.goto]
    · intro call' isNext
      rw [← holds] at isNext isZone
      refine (leads_next (.start ?_) isZone isNext).1
      exact .inr ⟨p, call, by simp [State.goto, Control.call], rfl, rfl⟩

end Steps

/-! ## Files without losses -/

structure State.Orderly (s : State) : Prop where
  separate : s.Separate
  called : ∀ p call, (s.control p).call = some call → s.Leads (Root call.block) call.slot call.rest
  given_reached : ∀ z ∈ s.given, s.Reaches z
  filled_given : ∀ p call, (s.control p).fills = some call →
    s.value call.slot = 0 ∨ s.value call.slot ∈ s.given
  once : ∀ z ∈ s.given, ∀ slot slot' rest rest', s.Leads AnyRoot slot rest → s.Leads AnyRoot slot' rest' →
    s.value slot = z → s.value slot' = z → slot = slot'
  results_held : ∀ block z, (block, z) ∈ s.results → z ≠ 0 →
    ∃ slot, s.Leads (Root block) slot [] ∧ s.value slot = z

section Orderly

variable {s s' : State} {p : Nat} {c : Control} {call : Call} {z block : Nat} {slot slot' σ : Slot}
  {rest : List (Fin 512)} {m : Move}

theorem State.Leads.anyRoot (leads : s.Leads (Root block) slot rest) : s.Leads AnyRoot slot rest :=
  leads.trans fun _ _ root => .start ⟨block, root⟩

theorem State.Orderly.control (orderly : s.Orderly) (separate : s'.Separate)
    (sameValue : s'.value = s.value) (sameGiven : s'.given = s.given)
    (control : s'.control = update s.control p c)
    (calls : ∀ call, c.call = some call → s.Leads (Root call.block) call.slot call.rest)
    (fills : ∀ call, c.fills = some call → s.value call.slot = 0 ∨ s.value call.slot ∈ s.given)
    (results : ∀ block z, (block, z) ∈ s'.results → z ≠ 0 →
      (block, z) ∈ s.results ∨ ∃ slot, s.Leads (Root block) slot [] ∧ s.value slot = z) :
    s'.Orderly where
  separate := separate
  called q call isCall := by
    rw [leads_value_congr sameValue]
    rw [control, update_apply] at isCall
    split at isCall
    · exact calls call isCall
    · exact orderly.called q call isCall
  given_reached y isGiven := by
    rw [sameGiven] at isGiven
    obtain ⟨isZone, slot, rest, leads, holds⟩ := orderly.given_reached y isGiven
    exact ⟨isZone, slot, rest, (leads_value_congr sameValue).mpr leads, by rw [sameValue, holds]⟩
  filled_given q call isCall := by
    rw [sameValue, sameGiven]
    rw [control, update_apply] at isCall
    split at isCall
    · exact fills call isCall
    · exact orderly.filled_given q call isCall
  once y isGiven slot slot' rest rest' leads leads' holds holds' := by
    rw [sameGiven] at isGiven
    rw [sameValue] at holds holds'
    exact orderly.once y isGiven slot slot' rest rest' ((leads_value_congr sameValue).mp leads)
      ((leads_value_congr sameValue).mp leads') holds holds'
  results_held block y isResult isZone := by
    have held : ∃ slot, s.Leads (Root block) slot [] ∧ s.value slot = y := by
      rcases results block y isResult isZone with old | new
      · exact orderly.results_held block y old isZone
      · exact new
    obtain ⟨slot, leads, holds⟩ := held
    exact ⟨slot, (leads_value_congr sameValue).mpr leads, by rw [sameValue, holds]⟩

theorem State.Comes.leads (orderly : s.Orderly) (comes : s.Comes p call) :
    s.Leads (Root call.block) call.slot call.rest := by
  rcases comes with isReading | ⟨-, root⟩
  · exact orderly.called p call (by rw [isReading]; rfl)
  · exact .start root

theorem proceed_results {y : Nat} (isResult : (block, y) ∈ (s.proceed p call z).results) :
    (block, y) ∈ s.results ∨ call.rest = [] ∧ block = call.block ∧ y = z := by
  unfold State.proceed at isResult
  split at isResult
  · next last =>
    rcases List.mem_cons.mp isResult with new | old
    · cases new
      exact .inr ⟨last, rfl, rfl⟩
    · exact .inl old
  · exact .inl isResult

theorem holds_of_fill {y : Nat} (untouched : ¬s.Touches AnyRoot z) (outside : ∀ k, σ ≠ .entry z k)
    (isZone : y ≠ 0) (leads : (s.fill σ z).Leads AnyRoot slot rest)
    (holds : (s.fill σ z).value slot = y) :
    slot = σ ∧ y = z ∨ s.Leads AnyRoot slot rest ∧ s.value slot = y := by
  by_cases isNew : slot = σ
  · subst isNew
    rw [fill_value_self] at holds
    exact .inl ⟨rfl, holds.symm⟩
  · rcases leads_of_fill untouched outside leads with old | ⟨k, rfl⟩
    · refine .inr ⟨old, ?_⟩
      rwa [fill_value_of_ne isNew] at holds
      rintro k rfl
      exact untouched old.touches_block
    · rw [fill_value_new (outside k).symm] at holds
      exact absurd holds.symm isZone

theorem State.Orderly.assign (orderly : s.Orderly) (isTaken : s.control p = .taken call z)
    (free : s.value call.slot = 0) (separate : s'.Separate)
    (assigned : s' = { s.fill call.slot z with given := z :: s.given }.proceed p call z) :
    s'.Orderly := by
  obtain ⟨sameZone, sameIndex, -, -, sameGiven⟩ :=
    proceed_frame { s.fill call.slot z with given := z :: s.given } p call z
  have control := proceed_control { s.fill call.slot z with given := z :: s.given } p call z
  have value : s'.value = (s.fill call.slot z).value := by
    rw [assigned]
    exact value_congr sameZone sameIndex
  rw [← assigned] at sameGiven control
  simp only [fill_control] at control
  have inHand : (s.control p).hand = some z := by rw [isTaken]; rfl
  have isZone : z ≠ 0 := (orderly.separate.hand_used p z inHand).ne_zero
  have outside := (orderly.separate.assign isTaken).2
  have untouched (start : Slot → List (Fin 512) → Prop)
      (within : ∀ slot rest, start slot rest → s.Leads s.Known slot rest) : ¬s.Touches start z :=
    fun touches => orderly.separate.hand_untouched p z inHand (touches.trans within)
  have byAny := untouched AnyRoot fun _ _ root => .start (.inl root)
  have byRoot (block : Nat) := untouched (Root block) fun _ _ root => .start (.inl ⟨block, root⟩)
  have atSlot : (s.fill call.slot z).Leads (Root call.block) call.slot call.rest :=
    (orderly.called p call (by rw [isTaken]; rfl)).fill (byRoot _) free
  constructor
  case separate => exact separate
  case called =>
    intro q call' isCall
    rw [leads_value_congr value]
    rw [control, update_apply] at isCall
    split at isCall
    · rw [← fill_value_self s call.slot z] at isCall isZone
      obtain ⟨leads, sameBlock⟩ := leads_next atSlot isZone isCall
      rwa [sameBlock]
    · exact (orderly.called q call' isCall).fill (byRoot _) free
  case given_reached =>
    intro y isGiven
    rw [sameGiven] at isGiven
    rcases List.mem_cons.mp isGiven with rfl | old
    · refine ⟨isZone, call.slot, call.rest, (leads_value_congr value).mpr atSlot.anyRoot, ?_⟩
      rw [value, fill_value_self]
    · obtain ⟨isZone', slot, rest, leads, rfl⟩ := orderly.given_reached y old
      refine ⟨isZone', slot, rest, (leads_value_congr value).mpr (leads.fill byAny free), ?_⟩
      rw [value, fill_value_kept byAny free leads isZone']
  case filled_given =>
    intro q call' isCall
    rw [value, sameGiven]
    rw [control, update_apply] at isCall
    split at isCall
    · rw [next_fills] at isCall
      cases isCall
    · by_cases isNew : call'.slot = call.slot
      · rw [isNew, fill_value_self]
        exact .inr List.mem_cons_self
      · have isAt : (s.control q).call = some call' := by
          cases atQ : s.control q <;> rw [atQ] at isCall <;> first | exact isCall | cases isCall
        rw [fill_value_of_ne isNew]
        · exact (orderly.filled_given q call' isCall).imp_right (List.mem_cons_of_mem z)
        · intro k same
          have leads := orderly.called q call' isAt
          rw [same] at leads
          exact byRoot _ leads.touches_block
  case once =>
    intro y isGiven slot slot' rest rest' leads leads' holds holds'
    rw [sameGiven] at isGiven
    rw [leads_value_congr value] at leads leads'
    rw [value] at holds holds'
    rcases List.mem_cons.mp isGiven with rfl | old
    · rcases holds_of_fill byAny outside isZone leads holds with ⟨atNew, -⟩ | ⟨before, held⟩
      · rcases holds_of_fill byAny outside isZone leads' holds' with ⟨atNew', -⟩ | ⟨before, held⟩
        · rw [atNew, atNew']
        · exact absurd ⟨_, _, before, .inl ⟨isZone, held⟩⟩ byAny
      · exact absurd ⟨_, _, before, .inl ⟨isZone, held⟩⟩ byAny
    · have reached := orderly.given_reached y old
      have other : y ≠ z := by
        rintro rfl
        exact orderly.separate.hand_untouched p y inHand reached.touches
      rcases holds_of_fill byAny outside reached.1 leads holds with ⟨-, same⟩ | ⟨before, held⟩
      · exact absurd same other
      · rcases holds_of_fill byAny outside reached.1 leads' holds' with ⟨-, same⟩ | ⟨before', held'⟩
        · exact absurd same other
        · exact orderly.once y old slot slot' rest rest' before before' held held'
  case results_held =>
    intro block y isResult isZone'
    have held : ∃ slot, (s.fill call.slot z).Leads (Root block) slot [] ∧
        (s.fill call.slot z).value slot = y := by
      rw [assigned] at isResult
      rcases proceed_results isResult with old | ⟨last, rfl, rfl⟩
      · simp only [fill_results] at old
        obtain ⟨slot, leads, rfl⟩ := orderly.results_held block y old isZone'
        exact ⟨slot, leads.fill (byRoot _) free, fill_value_kept (byRoot _) free leads isZone'⟩
      · rw [last] at atSlot
        exact ⟨call.slot, atSlot, fill_value_self ..⟩
    obtain ⟨slot, leads, holds⟩ := held
    exact ⟨slot, (leads_value_congr value).mpr leads, by rw [value, holds]⟩

/-- The slot that a call fills is still empty when `new_block` comes back, with a
zone or, in `i_zone`, without one. -/
def State.StillEmpty (s : State) : Move → Prop
  | .assign p => ∀ call z, s.control p = .taken call z → s.value call.slot = 0
  | .alloc p => ∀ call k, s.control p = .empty call → s.freeZone = none → call.slot = .zone k → s.zone k = 0
  | _ => True

theorem State.Orderly.visit (orderly : s.Orderly) (separate : (s.visit p call).Separate)
    (leads : s.Leads (Root call.block) call.slot call.rest) : (s.visit p call).Orderly := by
  unfold State.visit at separate ⊢
  split at separate
  · next isEmpty =>
    rw [if_pos isEmpty]
    refine orderly.control (p := p) (c := .empty call) separate rfl rfl rfl ?_ ?_ fun _ _ old _ => .inl old
    · rintro call' isCall
      cases isCall
      exact leads
    · rintro call' isCall
      cases isCall
      exact .inl isEmpty
  · next filled =>
    rw [if_neg filled]
    obtain ⟨sameZone, sameIndex, -, -, sameGiven⟩ := proceed_frame s p call (s.value call.slot)
    refine orderly.control separate (value_congr sameZone sameIndex) sameGiven (proceed_control ..) ?_ ?_ ?_
    · intro call' isNext
      obtain ⟨next, sameBlock⟩ := leads_next leads filled isNext
      rwa [sameBlock]
    · intro call' isNext
      rw [next_fills] at isNext
      cases isNext
    · intro block y isResult _
      rcases proceed_results isResult with old | ⟨last, rfl, rfl⟩
      · exact .inl old
      · rw [last] at leads
        exact .inr ⟨call.slot, leads, rfl⟩

variable (block) in
theorem State.Orderly.return (orderly : s.Orderly) (separate : s'.Separate)
    (sameValue : s'.value = s.value) (sameGiven : s'.given = s.given)
    (control : s'.control = update s.control p .idle)
    (results : s'.results = (block, 0) :: s.results) : s'.Orderly := by
  refine orderly.control separate sameValue sameGiven control ?_ ?_ ?_
  · intro call isCall
    cases isCall
  · intro call isCall
    cases isCall
  · intro block' y isResult isZone
    rw [results] at isResult
    rcases List.mem_cons.mp isResult with new | old
    · cases new
      exact absurd rfl isZone
    · exact .inl old

theorem State.Orderly.step (orderly : s.Orderly) (stillEmpty : s.StillEmpty m)
    (moved : s.step m = some s') : s'.Orderly := by
  have separate := orderly.separate.step moved
  obtain ⟨sameZone, sameIndex, -, sameControl, sameGiven, sameResults⟩ := setBit_frame s
  have sameValue := value_congr sameZone sameIndex
  cases step_outcome moved with
  | visited comes => exact orderly.visit separate (comes.leads orderly)
  | noBuffer isReading => exact orderly.return _ separate rfl rfl rfl rfl
  | @taken p call z isEmpty isFree =>
    refine orderly.control (p := p) (c := .taken call z) separate sameValue sameGiven ?_ ?_ ?_ ?_
    · rw [← sameControl]
      rfl
    · rintro call' isCall
      cases isCall
      exact orderly.called p call (by rw [isEmpty]; rfl)
    · rintro call' isCall
      cases isCall
      exact orderly.filled_given p call (by rw [isEmpty]; rfl)
    · intro block y isResult _
      rw [← sameResults]
      exact .inl isResult
  | @fullZone p call k isEmpty isFull atZone =>
    have free := stillEmpty call k isEmpty isFull atZone
    refine orderly.return call.block (p := p) separate ?_ ?_ ?_ ?_
    · funext slot
      have value : ((s.setBit.store (.zone k) 0).return p call.block 0).value slot =
          (s.setBit.store (.zone k) 0).value slot := rfl
      rw [value, store_value, sameValue]
      split
      · next same =>
        rw [same]
        exact free.symm
      · rfl
    · rw [← sameGiven]
      rfl
    · rw [← sameControl]
      rfl
    · rw [← sameResults]
      rfl
  | @fullEntry p call y k isEmpty isFull atEntry =>
    refine orderly.return call.block (p := p) separate sameValue sameGiven ?_ ?_
    · rw [← sameControl]
      rfl
    · rw [← sameResults]
      rfl
  | @assigned p call z isTaken =>
    exact orderly.assign isTaken (stillEmpty call z isTaken) separate rfl

end Orderly

/-! ## Losses -/

structure State.Lost (s : State) (y : Nat) : Prop where
  separate : s.Separate
  given : y ∈ s.given
  used : s.InUse y
  noHand : ∀ p, (s.control p).hand ≠ some y
  unreached : ¬s.Reaches y

section Lost

variable {s s' : State} {p : Nat} {call : Call} {y z : Nat} {m : Move}

def State.Finds (s : State) (slot : Slot) (y : Nat) : Prop :=
  y ≠ 0 ∧ (∃ rest, s.Leads AnyRoot slot rest) ∧ s.value slot = y

variable {slot : Slot}

theorem finds_of_shrink (finds : s'.Finds slot y)
    (shrinks : ∀ slot, s'.value slot = s.value slot ∨ s'.value slot = 0) : s.Finds slot y := by
  obtain ⟨isZone, ⟨rest, leads⟩, holds⟩ := finds
  refine ⟨isZone, ⟨rest, leads.of_shrink shrinks⟩, ?_⟩
  rcases shrinks slot with same | emptied
  · exact same.symm.trans holds
  · exact absurd (holds.symm.trans emptied) isZone

theorem finds_congr (finds : s'.Finds slot y) (sameValue : s'.value = s.value) : s.Finds slot y :=
  finds_of_shrink finds fun slot => .inl (congrFun sameValue slot)

theorem State.Separate.untouched_root (separate : s.Separate) (isTaken : s.control p = .taken call z) :
    ¬s.Touches AnyRoot z := by
  have inHand : (s.control p).hand = some z := by rw [isTaken]; rfl
  exact fun touches => separate.hand_untouched p z inHand (touches.trans fun _ _ root => .start (.inl root))

theorem visit_zones (s : State) (p : Nat) (call : Call) : (s.visit p call).zone = s.zone ∧
    (s.visit p call).index = s.index ∧ (s.visit p call).zmap = s.zmap ∧ (s.visit p call).sb = s.sb ∧
      (s.visit p call).given = s.given := by
  unfold State.visit
  split
  · exact ⟨rfl, rfl, rfl, rfl, rfl⟩
  · exact proceed_frame ..

theorem finds_of_step (separate : s.Separate) (moved : s.step m = some s') (finds : s'.Finds slot y) :
    s.Finds slot y ∨ ∃ p, (s.control p).hand = some y := by
  obtain ⟨sameZone, sameIndex, -⟩ := setBit_frame s
  have sameValue := value_congr sameZone sameIndex
  cases step_outcome moved with
  | @visited _ p call comes =>
    obtain ⟨sameZone, sameIndex, -⟩ := visit_zones s p call
    exact .inl (finds_congr finds (value_congr sameZone sameIndex))
  | noBuffer isReading => exact .inl (finds_congr finds rfl)
  | taken isEmpty isFree | fullEntry isEmpty isFull atEntry => exact .inl (finds_congr finds sameValue)
  | @fullZone p call k isEmpty isFull atZone =>
    refine .inl (finds_of_shrink finds fun slot => ?_)
    have value : ((s.setBit.store (.zone k) 0).return p call.block 0).value slot =
        (s.setBit.store (.zone k) 0).value slot := rfl
    rw [value, store_value, sameValue]
    split
    · exact .inr rfl
    · exact .inl rfl
  | @assigned p call z isTaken =>
    obtain ⟨sameZone, sameIndex, -⟩ := proceed_frame { s.fill call.slot z with given := z :: s.given } p call z
    obtain ⟨isZone, ⟨rest, leads⟩, holds⟩ :=
      finds_congr (s := s.fill call.slot z) finds (value_congr sameZone sameIndex)
    rcases holds_of_fill (separate.untouched_root isTaken) (separate.assign isTaken).2 isZone leads holds with
      ⟨-, rfl⟩ | ⟨before, held⟩
    · exact .inr ⟨p, by rw [isTaken]; rfl⟩
    · exact .inl ⟨isZone, ⟨rest, before⟩, held⟩

theorem used_of_step (moved : s.step m = some s') (used : s.InUse y) : s'.InUse y := by
  cases step_outcome moved with
  | @visited _ p call comes =>
    obtain ⟨-, -, sameZmap, sameSb, -⟩ := visit_zones s p call
    rwa [inUse_congr sameZmap sameSb]
  | noBuffer isReading => exact used
  | taken isEmpty isFree | fullZone isEmpty isFull atZone | fullEntry isEmpty isFull atEntry =>
    exact inUse_setBit used
  | @assigned p call z isTaken =>
    obtain ⟨-, -, sameZmap, sameSb, -⟩ :=
      proceed_frame { s.fill call.slot z with given := z :: s.given } p call z
    have same : s.InUse = ({ s.fill call.slot z with given := z :: s.given } : State).InUse :=
      (inUse_congr (fill_zmap ..) (fill_sb ..)).symm
    rwa [inUse_congr sameZmap sameSb, ← same]

theorem given_of_step (moved : s.step m = some s') (given : y ∈ s.given) : y ∈ s'.given := by
  obtain ⟨-, -, -, -, sameGiven, -⟩ := setBit_frame s
  cases step_outcome moved with
  | @visited _ p call comes =>
    obtain ⟨-, -, -, -, same⟩ := visit_zones s p call
    rwa [same]
  | noBuffer isReading => exact given
  | taken isEmpty isFree | fullZone isEmpty isFull atZone | fullEntry isEmpty isFull atEntry =>
    rw [← sameGiven] at given
    exact given
  | @assigned p call z isTaken =>
    obtain ⟨-, -, -, -, same⟩ := proceed_frame { s.fill call.slot z with given := z :: s.given } p call z
    rw [same]
    exact List.mem_cons_of_mem z given

theorem hand_of_step (moved : s.step m = some s') (inHand : (s'.control p).hand = some y) :
    (s.control p).hand = some y ∨ ¬s.InUse y := by
  obtain ⟨-, -, -, sameControl, -⟩ := setBit_frame s
  have kept {q : Nat} {c : Control} (noHand : c.hand = none)
      (control : s'.control = update s.control q c) : (s.control p).hand = some y := by
    rcases hand_of_control control inHand with ⟨old, -⟩ | ⟨-, new⟩
    · exact old
    · rw [noHand] at new
      cases new
  cases step_outcome moved with
  | @visited _ q call comes =>
    unfold State.visit at kept
    split at kept
    · exact .inl (kept (c := .empty call) rfl rfl)
    · exact .inl (kept (next_hand ..) (proceed_control ..))
  | noBuffer isReading => exact .inl (kept (c := .idle) rfl rfl)
  | @taken q call z isEmpty isFree =>
    have control : (s.setBit.goto q (.taken call z)).control =
        update s.control q (.taken call z) := by
      rw [← sameControl]
      rfl
    rcases hand_of_control control inHand with ⟨old, -⟩ | ⟨-, new⟩
    · exact .inl old
    · cases new
      exact .inr (freeZone_spec isFree).1
  | @fullZone q call k isEmpty isFull atZone | @fullEntry q call y k isEmpty isFull atEntry =>
    refine .inl (kept (q := q) (c := .idle) rfl ?_)
    rw [← sameControl]
    rfl
  | @assigned q call z isTaken =>
    refine .inl (kept (q := q) (c := call.next z) (next_hand ..) ((proceed_control ..).trans ?_))
    simp only [fill_control]

theorem State.Lost.step (lost : s.Lost y) (moved : s.step m = some s') : s'.Lost y where
  separate := lost.separate.step moved
  given := given_of_step moved lost.given
  used := used_of_step moved lost.used
  noHand p inHand := by
    rcases hand_of_step moved inHand with old | free
    · exact lost.noHand p old
    · exact free lost.used
  unreached reaches := by
    obtain ⟨isZone, slot, rest, leads, holds⟩ := reaches
    rcases finds_of_step lost.separate moved ⟨isZone, ⟨rest, leads⟩, holds⟩ with
      ⟨-, ⟨rest', leads'⟩, held⟩ | ⟨p, inHand⟩
    · exact lost.unreached ⟨isZone, slot, rest', leads', held⟩
    · exact lost.noHand p inHand

theorem State.Orderly.lost_of {σ : Slot} {rest : List (Fin 512)} (orderly : s.Orderly)
    (moved : s.step m = some s') (leads : s.Leads AnyRoot σ rest) (given : s.value σ ∈ s.given)
    (changed : s'.value σ ≠ s.value σ) : s'.Lost (s.value σ) := by
  have reached := orderly.given_reached _ given
  have used := orderly.separate.touched_used _ reached.touches
  refine
    { separate := orderly.separate.step moved
      given := given_of_step moved given
      used := used_of_step moved used
      noHand := fun p inHand => ?_
      unreached := fun reaches => ?_ }
  · rcases hand_of_step moved inHand with old | free
    · exact orderly.separate.hand_untouched p _ old reached.touches
    · exact free used
  · obtain ⟨isZone, slot, rest', leads', holds⟩ := reaches
    rcases finds_of_step orderly.separate moved ⟨isZone, ⟨rest', leads'⟩, holds⟩ with
      ⟨-, ⟨rest', before⟩, held⟩ | ⟨p, inHand⟩
    · rw [orderly.once _ given slot σ rest' rest before leads held rfl] at holds
      exact changed holds
    · exact orderly.separate.hand_untouched p _ inHand reached.touches

theorem State.Orderly.lost (orderly : s.Orderly) (overwritten : ¬s.StillEmpty m)
    (moved : s.step m = some s') : ∃ y, s'.Lost y := by
  cases m with
  | call | read => exact absurd trivial overwritten
  | assign p =>
    simp only [State.StillEmpty, not_forall] at overwritten
    obtain ⟨call, z, isTaken, filled⟩ := overwritten
    have leads := orderly.called p call (by rw [isTaken]; rfl)
    have given := (orderly.filled_given p call (by rw [isTaken]; rfl)).resolve_left filled
    refine ⟨_, orderly.lost_of moved leads.anyRoot given ?_⟩
    simp only [State.step, isTaken, Option.some.injEq] at moved
    subst moved
    obtain ⟨sameZone, sameIndex, -⟩ :=
      proceed_frame { (s.clearBlock z).store call.slot z with given := z :: s.given } p call z
    rw [value_congr sameZone sameIndex]
    intro same
    have new : s.value call.slot = z := same.symm.trans (fill_value_self s call.slot z)
    exact orderly.separate.untouched_root isTaken ⟨_, _, leads.anyRoot, .inl ⟨new ▸ filled, new⟩⟩
  | alloc p =>
    simp only [State.StillEmpty, not_forall] at overwritten
    obtain ⟨call, k, isEmpty, isFull, atZone, filled⟩ := overwritten
    have leads := orderly.called p call (by rw [isEmpty]; rfl)
    have given := orderly.filled_given p call (by rw [isEmpty]; rfl)
    rw [atZone] at leads given
    refine ⟨_, orderly.lost_of moved leads.anyRoot (given.resolve_left filled) ?_⟩
    simp only [State.step, isEmpty, isFull, atZone, Option.some.injEq] at moved
    subst moved
    have emptied : ((s.setBit.store (.zone k) 0).return p call.block 0).value (.zone k) = 0 := by
      have value : ((s.setBit.store (.zone k) 0).return p call.block 0).value (.zone k) =
          (s.setBit.store (.zone k) 0).value (.zone k) := rfl
      rw [value, store_value, if_pos rfl]
    rw [emptied]
    exact Ne.symm filled

end Lost

/-! ## Calls that have returned -/

/-- Every zone that `new_block` gave is in the file, and calls for one block
returned one zone. -/
def State.Complete (s : State) : Prop :=
  (∀ z ∈ s.given, s.Reaches z) ∧
    ∀ block z z', (block, z) ∈ s.results → (block, z') ∈ s.results → z ≠ 0 → z' ≠ 0 → z = z'

structure State.Initial (s : State) : Prop where
  idle : ∀ p, s.control p = .idle
  given : s.given = []
  results : s.results = []
  used : ∀ z, s.Reaches z → s.InUse z

theorem leads_length {block : Nat} {slot σ : Slot} {rest full : List (Fin 512)}
    (leads : s.Leads (Root block) slot rest) (root : path block = some (σ, full)) :
    rest.length ≤ full.length := by
  induction leads with
  | start isStart =>
    have same := isStart.symm.trans root
    cases same
    exact Nat.le_refl _
  | down _ _ ih => exact Nat.le_of_succ_le ih

theorem leads_unique {block : Nat} {slot slot' : Slot} {rest rest' : List (Fin 512)}
    (leads : s.Leads (Root block) slot rest) (leads' : s.Leads (Root block) slot' rest')
    (level : rest.length = rest'.length) : slot = slot' ∧ rest = rest' := by
  induction leads generalizing slot' rest' with
  | start isStart =>
    cases leads' with
    | start isStart' =>
      have same := isStart.symm.trans isStart'
      cases same
      exact ⟨rfl, rfl⟩
    | down before _ =>
      have short := leads_length before isStart
      rw [level, List.length_cons] at short
      exact absurd short (Nat.not_succ_le_self _)
  | down before filled ih =>
    cases leads' with
    | start isStart' =>
      have short := leads_length before isStart'
      rw [← level, List.length_cons] at short
      exact absurd short (Nat.not_succ_le_self _)
    | down before' filled' =>
      obtain ⟨rfl, same⟩ := ih before' (by rw [List.length_cons, List.length_cons, level])
      cases same
      exact ⟨rfl, rfl⟩

theorem State.Orderly.complete (orderly : s.Orderly) : s.Complete := by
  refine ⟨orderly.given_reached, fun block z z' isResult isResult' isZone isZone' => ?_⟩
  obtain ⟨slot, leads, rfl⟩ := orderly.results_held block z isResult isZone
  obtain ⟨slot', leads', rfl⟩ := orderly.results_held block z' isResult' isZone'
  rw [(leads_unique leads leads' rfl).1]

theorem State.Initial.orderly (initial : s.Initial) : s.Orderly := by
  have noCall (p : Nat) : (s.control p).call = none := by rw [initial.idle p]; rfl
  have noHand (p : Nat) : (s.control p).hand = none := by rw [initial.idle p]; rfl
  have noFills (p : Nat) : (s.control p).fills = none := by rw [initial.idle p]; rfl
  have rooted {slot : Slot} {rest : List (Fin 512)} (known : s.Known slot rest) : AnyRoot slot rest := by
    rcases known with root | ⟨p, call, isCall, -⟩
    · exact root
    · rw [noCall] at isCall
      cases isCall
  have held {slot : Slot} {rest : List (Fin 512)} (leads : s.Leads AnyRoot slot rest) (z : Nat) (k : Fin 512)
      (isEntry : slot = .entry z k) : s.Reaches z := by
    cases leads with
    | start isStart =>
      obtain ⟨block, root⟩ := isStart
      subst isEntry
      unfold Root path at root
      split at root <;> [skip; split at root <;> [skip; split at root]] <;> cases root
    | down before filled =>
      cases isEntry
      exact ⟨filled, _, _, before, rfl⟩
  have separate : s.Separate :=
    { touched_used := fun z touches => by
        obtain ⟨slot, rest, leads, here⟩ := touches
        have leads : s.Leads AnyRoot slot rest := leads.trans fun _ _ known => .start (rooted known)
        refine initial.used z ?_
        rcases here with ⟨isZone, holds⟩ | ⟨k, isEntry⟩
        · exact ⟨isZone, slot, rest, leads, holds⟩
        · exact held leads z k isEntry
      hand_used := fun p z inHand => absurd inHand (by simp [noHand])
      hand_untouched := fun p z inHand => absurd inHand (by simp [noHand])
      hand_distinct := fun p q z inHand => absurd inHand (by simp [noHand]) }
  exact
    { separate := separate
      called := fun p call isCall => absurd isCall (by simp [noCall])
      given_reached := fun z isGiven => absurd isGiven (by simp [initial.given])
      filled_given := fun p call isCall => absurd isCall (by simp [noFills])
      once := fun z isGiven => absurd isGiven (by simp [initial.given])
      results_held := fun block z isResult => absurd isResult (by simp [initial.results]) }

/-- Nothing has been lost and calls for one block agree exactly if every call has
filled its slot while it was still empty. -/
theorem complete_iff_stillEmpty {start s : State} {moves : List Move} (initial : start.Initial)
    (ran : run State.step start moves = some s) :
    s.Complete ↔ Throughout State.step State.StillEmpty start moves := by
  rcases good_or_bad (fun orderly stillEmpty moved => State.Orderly.step orderly stillEmpty moved)
      (fun orderly overwritten moved => State.Orderly.lost orderly overwritten moved)
      (fun ⟨y, lost⟩ moved => ⟨y, State.Lost.step lost moved⟩) initial.orderly ran with
    ⟨throughout, orderly⟩ | ⟨violated, y, lost⟩
  · exact iff_of_true orderly.complete throughout
  · refine iff_of_false (fun complete => ?_) violated
    exact lost.unreached (complete.1 y lost.given)

def emptyFile : State where
  sb := { zmapBlocks := 1, firstdatazone := 4, nzones := 10, data_pos := by decide }
  zone := fun _ => 0
  index := fun _ _ => 0
  zmap := fun j => j = 0
  control := fun _ => .idle
  given := []
  results := []

theorem emptyFile_initial : emptyFile.Initial where
  idle _ := rfl
  given := rfl
  results := rfl
  used z reaches := by
    obtain ⟨isZone, slot, rest, -, holds⟩ := reaches
    cases slot <;> exact absurd holds.symm isZone

theorem complete_iff_stillEmpty_twice :
    ∃ s, run State.step emptyFile [.call 0 7, .alloc 0, .assign 0, .read 0 true, .alloc 0, .assign 0,
        .call 1 7, .read 1 true] = some s ∧
      (s.Complete ↔ Throughout State.step State.StillEmpty emptyFile [.call 0 7, .alloc 0, .assign 0,
        .read 0 true, .alloc 0, .assign 0, .call 1 7, .read 1 true]) := by
  exact exists_run (fun s => s.results = [(7, 5), (7, 5)]) (by decide +kernel)
    fun s ran _ => complete_iff_stillEmpty emptyFile_initial ran

/-- Two processes extend the file at the same block. -/
theorem overwritten_zone :
    ∃ s, run State.step emptyFile [.call 0 0, .call 1 0, .alloc 0, .alloc 1, .assign 0, .assign 1] = some s ∧
      s.control 0 = .idle ∧ s.control 1 = .idle ∧ ¬s.Complete := by
  refine exists_run (fun s => s.control 0 = .idle ∧ s.control 1 = .idle ∧ s.results = [(0, 5), (0, 4)])
    (by decide +kernel) fun s ran ⟨idle, idle', results⟩ => ⟨idle, idle', fun complete => ?_⟩
  have same : 5 = 4 := complete.2 0 5 4 (by simp [results]) (by simp [results]) (by decide) (by decide)
  exact absurd same (by decide)

end Linux012.Fs.Bmap

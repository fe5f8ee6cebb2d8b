import Linux012.Fs.BufferReading

/-! `breada`: the requests of its loop over the listed blocks, and the references it
leaves behind. -/

set_option autoImplicit false

namespace Linux012.Fs

open BlkDrv Counting Transition Function List

section Machine

variable {driver : Nat → Bool} {proc' : Process}

/-! ## The frame of a call -/

/-- The block that a place of `getblk` is about. -/
def Control.gets : Control → Option (Nat × Nat)
  | .getblk dev block | .starved dev block | .victimWait dev block _ => some (dev, block)
  | .ret (.buffer dev block _ _) => some (dev, block)
  | _ => none

def Caller.gets : Caller → Option (Nat × Nat)
  | .getblk dev block | .getblkSync dev block _ => some (dev, block)
  | _ => none

def bottom (control : Control) : List Caller → Option (Nat × Nat)
  | [] => control.gets
  | [caller] => caller.gets
  | _ :: caller :: stack => bottom control (caller :: stack)

theorem bottom_append (control control' : Control) (front : List Caller) {stack : List Caller}
    (below : stack ≠ []) : bottom control (front ++ stack) = bottom control' stack := by
  induction front with
  | nil =>
    induction stack with
    | nil => exact absurd rfl below
    | cons caller stack ih =>
      cases stack with
      | nil => rfl
      | cons next stack => exact ih (cons_ne_nil _ _)
  | cons caller front ih =>
    cases rest : front ++ stack with
    | nil => exact absurd (append_eq_nil_iff.mp rest).2 below
    | cons next others =>
      rw [cons_append, rest, bottom, ← rest]
      exact ih

theorem Moves.top {c c' : Cache} {proc : Process} (moved : Moves driver c proc c' proc') :
    ∃ pushed,
      proc'.stack = pushed ++ proc.stack ∧
          (∀ label, proc.control.gets = some label → bottom proc'.control pushed = some label) ∨
        ∃ caller rest, proc.stack = caller :: rest ∧ proc'.stack = pushed ++ rest ∧
          ((∃ value, proc.control = .ret value) ∨ proc.control = .user [] ∧
            ((∃ dev, caller = .inodesSyncDev dev) ∨ caller = .inodesSysSync)) ∧
          (∀ label, caller.gets = some label → bottom proc'.control pushed = some label) := by
  cases moved with
  | search => exact ⟨[.getblk _ _], .inl ⟨rfl, fun _ same => same⟩⟩
  | victimDirty => exact ⟨[.getblkSync _ _ _], .inl ⟨rfl, fun _ same => same⟩⟩
  | wake | victimLost | victimTake => exact ⟨[], .inl ⟨rfl, fun _ same => same⟩⟩
  | toGetblkFound | starve | pick | toGetblkSynced =>
    exact ⟨[], .inr ⟨_, _, rfl, rfl, .inl ⟨_, rfl⟩, fun _ same => same⟩⟩
  | inodesEndDev => exact ⟨[], .inr ⟨_, _, rfl, rfl, .inr ⟨rfl, .inl ⟨_, rfl⟩⟩, by simp [Caller.gets]⟩⟩
  | inodesEnd => exact ⟨[], .inr ⟨_, _, rfl, rfl, .inr ⟨rfl, .inr rfl⟩, by simp [Caller.gets]⟩⟩
  | breadFails | aheadNext | syncDevInodes | syncDevWrite | sysSyncWrite =>
    exact ⟨[_], .inl ⟨rfl, by simp [Control.gets]⟩⟩
  | callGetHashTable | callGetblk | callBrelse | callSyncDev =>
    exact ⟨[_], .inl ⟨rfl, by simp [Control.gets]⟩⟩
  | callBread | callBreada | callSysSync => exact ⟨[_, _], .inl ⟨rfl, by simp [Control.gets]⟩⟩
  | toBreadRead | toBreadaRead | tmpAhead =>
    exact ⟨[_], .inr ⟨_, _, rfl, rfl, .inl ⟨_, rfl⟩, by simp [Caller.gets]⟩⟩
  | toUserBuffer | toUser | toBreadCached | toBreadWait | toBreadaCached | toBreadaLoop | tmpCached | tmpNone
  | aheadDone => exact ⟨[], .inr ⟨_, _, rfl, rfl, .inl ⟨_, rfl⟩, by simp [Caller.gets]⟩⟩
  | toNull why =>
    refine ⟨[], .inr ⟨_, _, rfl, rfl, .inl ⟨_, rfl⟩, ?_⟩⟩
    rcases why with rfl | ⟨⟨dev, block, rfl⟩ | ⟨dev, block, ahead, rfl⟩, _⟩ <;> simp [Caller.gets]
  | toSyncDev why | toSysSync why =>
    refine ⟨[], .inr ⟨_, _, rfl, rfl, .inl ⟨_, rfl⟩, ?_⟩⟩
    rcases why with ⟨j, rfl⟩ | rfl <;> simp [Caller.gets]
  | _ => exact ⟨[], .inl ⟨rfl, by simp [Control.gets]⟩⟩

theorem Moves.keeps {c c' : Cache} {control : Control} {inner base : List Caller} {frame : Caller}
    (moved : Moves driver c ⟨control, inner ++ frame :: base⟩ c' proc')
    (plain : (∀ dev, frame ≠ .inodesSyncDev dev) ∧ frame ≠ .inodesSysSync)
    (working : inner = [] → ∀ value, control ≠ .ret value) :
    ∃ inner', proc'.stack = inner' ++ frame :: base ∧
      ∀ label, bottom control inner = some label → bottom proc'.control inner' = some label := by
  obtain ⟨pushed, ⟨stack, label⟩ | ⟨caller, rest, before, after, returned, label⟩⟩ := moved.top
  · refine ⟨pushed ++ inner, by rw [stack, append_assoc], fun l same => ?_⟩
    cases inner with
    | nil =>
      rw [append_nil]
      exact label l same
    | cons caller inner =>
      rw [bottom_append _ control _ (cons_ne_nil _ _)]
      exact same
  · cases inner with
    | nil =>
      obtain ⟨rfl, _⟩ := List.cons.inj before
      rcases returned with ⟨value, ret⟩ | ⟨_, ⟨dev, inodes⟩ | inodes⟩
      · exact absurd ret (working rfl value)
      · exact absurd inodes (plain.1 dev)
      · exact absurd inodes plain.2
    | cons top inner =>
      obtain ⟨rfl, rfl⟩ := List.cons.inj before
      refine ⟨pushed ++ inner, after.trans (append_assoc pushed inner _).symm, fun l same => ?_⟩
      cases inner with
      | nil =>
        rw [append_nil]
        exact label l same
      | cons caller inner =>
        rw [bottom_append _ control _ (cons_ne_nil _ _)]
        exact same

end Machine

/-! ## The requests of the loop -/

def Cache.Wanting (driver : Nat → Bool) (c : Cache) (tmp : Nat) : Prop :=
  c.uptodate tmp = false ∧ c.lock tmp = false ∧ (c.findRequest (Cache.requestLimit READ)).isSome ∧
    major (c.dev tmp) < NR_BLK_DEV ∧ driver (major (c.dev tmp)) = true

def Cache.Requests (c c' : Cache) (tmp : Nat) : Prop :=
  ∃ slot, (c.request slot).dev < 0 ∧ c'.request slot = c.requestFor READ tmp

structure Turn where
  block : Nat
  wanted : Prop
  requested : Prop
  isFirst : Prop

/-- The turn that a step of `p` completes, in the call of `breada` that returns to `base`: the
buffer is up to date, or `ll_rw_block` has been called. -/
def turns (driver : Nat → Bool) (p : Fin NR_TASKS) (base : List Caller) (s s' : System) : Move → List Turn
  | .advance q =>
    if q ≠ p then []
    else
      match (s.process p).control, (s.process p).stack with
      | .ret (.buffer _ block tmp _), .breadaTmp _ _ bh _ :: stack =>
        if stack = base ∧ s.cache.uptodate tmp = true then
          [⟨block, s.cache.Wanting driver tmp, s.cache.Requests s'.cache tmp, tmp = bh⟩]
        else []
      | .llRwBlock rw h, .breadaAhead _ _ bh tmp _ :: stack =>
        if stack = base ∧ rw = READA ∧ h = bh then
          [⟨s.cache.blocknr tmp, s.cache.Wanting driver tmp, s.cache.Requests s'.cache tmp, tmp = bh⟩]
        else []
      | _, _ => []
  | _ => []

inductive Calls (driver : Nat → Bool) (p : Fin NR_TASKS) (base : List Caller) (s₀ : System) :
    List Turn → System → Prop where
  | start : Calls driver p base s₀ [] s₀
  | step {s s' : System} {log : List Turn} {m : Move} : Calls driver p base s₀ log s →
      (s.process p).stack ≠ [] → s.step driver m = some s' →
        Calls driver p base s₀ (log ++ turns driver p base s s' m) s'

/-- Where a process can be inside `breada`, with the turns so far. -/
inductive Inside (c : Cache) (dev first : Nat) (ahead : List Nat) (base : List Caller) :
    Process → List Turn → Prop where
  | opening {control : Control} {inner : List Caller} : bottom control inner = some (dev, first) →
      Inside c dev first ahead base ⟨control, inner ++ .breada dev first ahead :: base⟩ []
  | reading {control : Control} {inner : List Caller} {bh : Nat} :
      Inside c dev first ahead base ⟨control, inner ++ .breadaRead dev first bh ahead :: base⟩ []
  | looping {front rest : List Nat} {bh : Nat} {log : List Turn} : ahead = front ++ rest →
      log.map Turn.block = front → Inside c dev first ahead base ⟨.breadaLoop dev first bh rest, base⟩ log
  | getting {front rest : List Nat} {b bh : Nat} {log : List Turn} {control : Control} {inner : List Caller} :
      ahead = front ++ b :: rest → log.map Turn.block = front → bottom control inner = some (dev, b) →
        Inside c dev first ahead base ⟨control, inner ++ .breadaTmp dev first bh rest :: base⟩ log
  | asking {front rest : List Nat} {b bh tmp : Nat} {log : List Turn} :
      ahead = front ++ b :: rest → log.map Turn.block = front → c.blocknr tmp = b →
        Inside c dev first ahead base ⟨.llRwBlock READA bh, .breadaAhead dev first bh tmp rest :: base⟩ log
  | asked {front rest : List Nat} {b bh tmp : Nat} {log : List Turn} :
      ahead = front ++ b :: rest → log.map Turn.block = front ++ [b] →
        Inside c dev first ahead base ⟨.ret .unit, .breadaAhead dev first bh tmp rest :: base⟩ log
  | waiting {bh : Nat} {log : List Turn} : log.map Turn.block = ahead →
      Inside c dev first ahead base ⟨.breadWait dev first bh, base⟩ log
  | failing {control : Control} {inner : List Caller} {log : List Turn} : log.map Turn.block = ahead →
      Inside c dev first ahead base ⟨control, inner ++ .breadFail :: base⟩ log
  | returning {value : Value} {log : List Turn} : log.map Turn.block = ahead →
      Inside c dev first ahead base ⟨.ret value, base⟩ log
  | left {proc : Process} {log : List Turn} : proc.stack = [] → log.map Turn.block = ahead →
      Inside c dev first ahead base proc log

theorem llRwBlock_reada (driver : Nat → Bool) (c : Cache) (bh : Nat) :
    llRwBlock driver c READA bh =
      if NR_BLK_DEV ≤ major (c.dev bh) ∨ ¬driver (major (c.dev bh)) then some (c, .ret .unit)
      else if c.lock bh then some (c, .ret .unit)
      else if c.uptodate bh then some (c, .ret .unit)
      else some (makeRequest (c.setLock bh true) READ bh true) := by
  simp only [llRwBlock, READ, WRITE, READA, WRITEA]
  grind

theorem llRwBlock_ahead {driver : Nat → Bool} {c c' : Cache} {bh : Nat} {control : Control}
    (called : llRwBlock driver c READA bh = some (c', control)) :
    control = .ret .unit ∧ (c' = c ∧ ¬c.Wanting driver bh ∨ ∃ slot, (c.request slot).dev < 0 ∧
      c' = (c.setLock bh true).enqueue slot READ bh) := by
  rw [llRwBlock_reada] at called
  split at called
  case isTrue unserved =>
    obtain ⟨rfl, rfl⟩ := Prod.mk.inj (Option.some.inj called)
    refine ⟨rfl, .inl ⟨rfl, ?_⟩⟩
    rintro ⟨_, _, _, near, served⟩
    rcases unserved with far | missing
    · omega
    · exact missing served
  split at called
  case isTrue locked =>
    obtain ⟨rfl, rfl⟩ := Prod.mk.inj (Option.some.inj called)
    refine ⟨rfl, .inl ⟨rfl, ?_⟩⟩
    rintro ⟨_, unlocked, _⟩
    exact Bool.false_ne_true (unlocked.symm.trans locked)
  case isFalse.isFalse unlocked =>
    split at called
    case isTrue valid =>
      obtain ⟨rfl, rfl⟩ := Prod.mk.inj (Option.some.inj called)
      refine ⟨rfl, .inl ⟨rfl, ?_⟩⟩
      rintro ⟨invalid, _⟩
      exact Bool.false_ne_true (invalid.symm.trans valid)
    case isFalse =>
      have free : c.lock bh = false := Bool.eq_false_iff.mpr unlocked
      have pool : (c.setLock bh true).findRequest (Cache.requestLimit READ) =
          c.findRequest (Cache.requestLimit READ) := rfl
      simp only [makeRequest, pool, Option.some.injEq] at called
      cases found : c.findRequest (Cache.requestLimit READ) with
      | none =>
        simp only [found, if_true, Cache.setLock_setLock free] at called
        obtain ⟨rfl, rfl⟩ := Prod.mk.inj called
        refine ⟨rfl, .inl ⟨rfl, ?_⟩⟩
        rintro ⟨_, _, entry, _⟩
        rw [found] at entry
        cases entry
      | some slot =>
        simp only [found] at called
        obtain ⟨rfl, rfl⟩ := Prod.mk.inj called
        exact ⟨rfl, .inr ⟨slot, Cache.findRequest_free found, rfl⟩⟩

theorem Cache.requests_enqueue (c : Cache) {bh slot : Nat} (free : (c.request slot).dev < 0) :
    c.Requests ((c.setLock bh true).enqueue slot READ bh) bh :=
  ⟨slot, free, update_self ..⟩

theorem Cache.requestFor_dev (c : Cache) (rw bh : Nat) : 0 ≤ (c.requestFor rw bh).dev :=
  Int.natCast_nonneg _

theorem Cache.not_requests (c : Cache) (tmp : Nat) : ¬c.Requests c tmp := by
  rintro ⟨slot, free, same⟩
  have used := c.requestFor_dev READ tmp
  rw [← same] at used
  omega

theorem Cache.Requests.eq {c : Cache} {bh tmp slot : Nat}
    (requests : c.Requests ((c.setLock bh true).enqueue slot READ bh) tmp) : tmp = bh := by
  obtain ⟨entry, free, same⟩ := requests
  by_cases here : entry = slot
  · rw [here] at same
    have filled : (c.setLock bh true).requestFor READ bh = c.requestFor READ tmp := (update_self ..).symm.trans same
    exact (Option.some.inj (congrArg Request.bh filled)).symm
  · have kept : c.request entry = c.requestFor READ tmp := (update_of_ne here ..).symm.trans same
    have used := c.requestFor_dev READ tmp
    rw [← kept] at used
    omega

section Steps

variable {driver : Nat → Bool} {p : Fin NR_TASKS} {base : List Caller} {dev first : Nat} {ahead : List Nat}
  {s s' : System} {log : List Turn} {m : Move}

theorem turns_nil
    (elsewhere : ∀ caller, (s.process p).stack = caller :: base →
      (∀ value dev block bh rest, (s.process p).control = .ret value → caller ≠ .breadaTmp dev block bh rest) ∧
        ∀ rw h dev block bh tmp rest, (s.process p).control = .llRwBlock rw h →
          caller ≠ .breadaAhead dev block bh tmp rest) :
    turns driver p base s s' m = [] := by
  cases m with
  | advance q =>
    simp only [turns]
    split
    · rfl
    · split
      case h_1 dev' block tmp wasRead dev bk bh rest stack control top =>
        rw [if_neg]
        rintro ⟨rfl, _⟩
        exact (elsewhere _ top).1 _ _ _ _ _ control rfl
      case h_2 rw h dev bk bh tmp rest stack control top =>
        rw [if_neg]
        rintro ⟨rfl, _⟩
        exact (elsewhere _ top).2 _ _ _ _ _ _ _ control rfl
      · rfl
  | begin q act | complete line => rfl

theorem turns_inner {control : Control} {inner : List Caller} {frame : Caller}
    (here : s.process p = ⟨control, inner ++ frame :: base⟩)
    (plain : inner = [] → (∀ value dev block bh rest, control = .ret value → frame ≠ .breadaTmp dev block bh rest) ∧
      ∀ rw h dev block bh tmp rest, control = .llRwBlock rw h → frame ≠ .breadaAhead dev block bh tmp rest) :
    turns driver p base s s' m = [] := by
  refine turns_nil fun caller top => ?_
  rw [here] at top ⊢
  have same : inner ++ frame :: base = caller :: base := top
  cases inner with
  | nil =>
    obtain rfl := (List.cons.inj same).1
    exact plain rfl
  | cons next inner =>
    have lengths := congrArg List.length same
    simp only [cons_append, length_cons, length_append] at lengths
    omega

theorem turns_base {control : Control} (here : s.process p = ⟨control, base⟩) :
    turns driver p base s s' m = [] := by
  refine turns_nil fun caller top => ?_
  rw [here] at top
  have lengths := congrArg List.length top
  simp at lengths

variable {n : Nat}

theorem Inside.others (invariant : s.Invariant n)
    (inside : Inside s.cache dev first ahead base (s.process p) log) (moved : s.step driver m = some s')
    (other : m.actor ≠ some p) :
    Inside s'.cache dev first ahead base (s'.process p) (log ++ turns driver p base s s' m) := by
  have still : s'.process p = s.process p := by
    cases actor : m.actor with
    | none =>
      cases m with
      | advance q | begin q act => cases actor
      | complete line => rw [(System.step_complete moved).2]
    | some q =>
      obtain ⟨proc, _, after⟩ := System.step_moves actor moved
      rw [after, update_of_ne]
      rintro rfl
      exact other actor
  have noTurn : turns driver p base s s' m = [] := by
    cases m with
    | advance q =>
      have different : q ≠ p := fun same => other (congrArg some same)
      simp only [turns, if_pos different]
    | begin q act | complete line => rfl
  obtain ⟨_, _, changed⟩ := System.step_changes invariant.linked.inside moved
  have kept : ∀ tmp ∈ (s.process p).holds, s'.cache.blocknr tmp = s.cache.blocknr tmp := fun tmp held =>
    (changed.steady_of_count (invariant.referenced.counted.ne_zero held)).blocknr
  rw [noTurn, append_nil, still]
  generalize s.process p = proc at inside kept
  cases inside with
  | opening label => exact .opening label
  | reading => exact .reading
  | looping split seen => exact .looping split seen
  | getting split seen label => exact .getting split seen label
  | asking split seen block =>
    refine .asking split seen ((kept _ ?_).trans block)
    simp [Process.holds, Control.holds, stackHolds, Caller.holds]
  | asked split seen => exact .asked split seen
  | waiting seen => exact .waiting seen
  | failing seen => exact .failing seen
  | returning seen => exact .returning seen
  | left out seen => exact .left out seen

theorem not_returning {control : Control} {inner : List Caller}
    (working : ¬(inner = [] ∧ ∃ value, control = .ret value)) (top : inner = []) (value : Value) :
    control ≠ .ret value := fun ret => working ⟨top, value, ret⟩

theorem value_of_gets {value : Value} {dev block : Nat} (gets : bottom (.ret value) [] = some (dev, block)) :
    ∃ bh wasRead, value = .buffer dev block bh wasRead := by
  cases value with
  | unit | null => cases gets
  | buffer dev' block' bh wasRead =>
    obtain ⟨rfl, rfl⟩ := Prod.mk.inj (Option.some.inj gets)
    exact ⟨bh, wasRead, rfl⟩

theorem Inside.turn {front rest : List Nat} {b bh tmp : Nat} {wasRead : Bool} (named : s.cache.blocknr tmp = b)
    (split : ahead = front ++ b :: rest) (seen : log.map Turn.block = front)
    (here : s.process p = ⟨.ret (.buffer dev b tmp wasRead), .breadaTmp dev first bh rest :: base⟩)
    (moved : s.step driver (.advance p) = some s') :
    Inside s'.cache dev first ahead base (s'.process p) (log ++ turns driver p base s s' (.advance p)) := by
  simp only [System.step, here, resume] at moved
  by_cases valid : s.cache.uptodate tmp = true
  · simp only [if_pos valid, Option.some.injEq] at moved
    have turn : turns driver p base s s' (.advance p) =
        [⟨b, s.cache.Wanting driver tmp, s.cache.Requests s'.cache tmp, tmp = bh⟩] := by
      simp [turns, here, valid]
    rw [turn, ← moved]
    simp only [System.setProcess, update_self, nil_append]
    refine .looping ((split.trans (append_cons front b rest)) : ahead = (front ++ [b]) ++ rest) ?_
    rw [map_append, seen]
    rfl
  · simp only [if_neg valid, Option.some.injEq] at moved
    have turn : turns driver p base s s' (.advance p) = [] := by
      simp [turns, here, valid]
    rw [turn, append_nil, ← moved]
    simp only [System.setProcess, update_self]
    exact .asking split seen named

theorem Inside.call {front rest : List Nat} {b bh tmp : Nat} (named : s.cache.blocknr tmp = b)
    (split : ahead = front ++ b :: rest) (seen : log.map Turn.block = front)
    (here : s.process p = ⟨.llRwBlock READA bh, .breadaAhead dev first bh tmp rest :: base⟩)
    (moved : s.step driver (.advance p) = some s') :
    Inside s'.cache dev first ahead base (s'.process p) (log ++ turns driver p base s s' (.advance p)) := by
  have turn : turns driver p base s s' (.advance p) =
      [⟨b, s.cache.Wanting driver tmp, s.cache.Requests s'.cache tmp, tmp = bh⟩] := by
    simp [turns, here, named]
  simp only [System.step, here, advance, Option.map_eq_some_iff] at moved
  obtain ⟨⟨c₁, control₁, callers₁⟩, ⟨⟨c₂, control₂⟩, called, pushed⟩, after⟩ := moved
  cases pushed
  obtain ⟨rfl, _⟩ := llRwBlock_ahead called
  rw [turn, ← after]
  simp only [System.setProcess, update_self, nil_append]
  refine .asked split ?_
  rw [map_append, seen]
  rfl

def Turn.Sound (turn : Turn) : Prop := turn.wanted → (turn.requested ↔ turn.isFirst)

theorem turns_sound (moved : s.step driver m = some s') {turn : Turn}
    (member : turn ∈ turns driver p base s s' m) : turn.Sound := by
  cases m with
  | begin q act | complete line => cases member
  | advance q =>
    simp only [turns] at member
    split at member
    · cases member
    case isFalse isMine =>
      obtain rfl : q = p := not_not.mp isMine
      split at member
      case h_1 control top =>
        split at member
        case isTrue valid =>
          obtain rfl := mem_singleton.mp member
          intro wanted
          have invalid : s.cache.uptodate _ = false := wanted.1
          rw [valid.2] at invalid
          cases invalid
        · cases member
      case h_2 rw h dev block bh tmp rest stack control top =>
        split at member
        case isTrue call =>
          obtain ⟨_, rfl, rfl⟩ := call
          obtain rfl := mem_singleton.mp member
          intro wanted
          have wanting : s.cache.Wanting driver tmp := wanted
          change s.cache.Requests s'.cache tmp ↔ tmp = h
          have here : s.process q = ⟨.llRwBlock READA h, .breadaAhead dev block h tmp rest :: stack⟩ := by
            rw [← control, ← top]
          simp only [System.step, here, advance, Option.map_eq_some_iff] at moved
          obtain ⟨⟨c₁, control₁, callers₁⟩, ⟨⟨c₂, control₂⟩, called, pushed⟩, after⟩ := moved
          cases pushed
          obtain ⟨_, ⟨same, idle⟩ | ⟨slot, free, queued⟩⟩ := llRwBlock_ahead called
          · rw [← after, System.setProcess, same]
            refine iff_of_false (s.cache.not_requests tmp) ?_
            rintro rfl
            exact idle wanting
          · rw [← after, System.setProcess, queued]
            constructor
            · exact Cache.Requests.eq
            · rintro rfl
              exact s.cache.requests_enqueue free
        · cases member
      · cases member

theorem Inside.own (invariant : s.Invariant n) (held : List Nat)
    (inside : Inside s.cache dev first ahead [.user held] (s.process p) log) (busy : (s.process p).stack ≠ [])
    (moved : s.step driver m = some s') (actor : m.actor = some p) :
    Inside s'.cache dev first ahead [.user held] (s'.process p) (log ++ turns driver p [.user held] s s' m) := by
  obtain ⟨proc', moves, after⟩ := System.step_moves actor moved
  have now : s'.process p = proc' := by rw [after, update_self]
  have named := (invariant.referenced.named p).1
  have kind : (∀ h, (s.process p).control ≠ .user h) → m = .advance p := by
    intro notUser
    cases m with
    | advance q => rw [Option.some.inj actor]
    | begin q act =>
      obtain ⟨h, control, stack, user, _⟩ := System.step_begin moved
      rw [← Option.some.inj actor] at notUser
      exact absurd user (notUser h)
    | complete line => cases actor
  generalize here : s.process p = proc at inside moves busy named kind
  cases inside with
  | @opening control inner label =>
    rw [turns_inner here (by simp), append_nil, now]
    by_cases returning : inner = [] ∧ ∃ value, control = .ret value
    · obtain ⟨rfl, value, rfl⟩ := returning
      obtain ⟨bh, wasRead, rfl⟩ := value_of_gets label
      generalize s'.cache = c' at moves ⊢
      cases moves with
      | toBreadaCached => exact .looping (nil_append ahead).symm rfl
      | toBreadaRead => exact @Inside.reading _ _ _ _ _ _ [] _
      | toNull why => exact absurd rfl ((why.resolve_left (by simp)).2 _ _ _ _)
      | toSyncDev why | toSysSync why => simp at why
    · obtain ⟨inner', stack, keeps⟩ := moves.keeps (by simp) (not_returning returning)
      obtain ⟨control', stack'⟩ := proc'
      obtain rfl : stack' = _ := stack
      exact .opening (keeps _ label)
  | @reading control inner bh =>
    rw [turns_inner here (by simp), append_nil, now]
    by_cases returning : inner = [] ∧ ∃ value, control = .ret value
    · obtain ⟨rfl, value, rfl⟩ := returning
      generalize s'.cache = c' at moves ⊢
      cases moves with
      | toBreadaLoop => exact .looping (nil_append ahead).symm rfl
      | toNull why | toSyncDev why | toSysSync why => simp at why
    · obtain ⟨inner', stack, _⟩ := moves.keeps (by simp) (not_returning returning)
      obtain ⟨control', stack'⟩ := proc'
      obtain rfl : stack' = _ := stack
      exact .reading
  | @looping front rest bh _ split seen =>
    rw [turns_base here, append_nil, now]
    generalize s'.cache = c' at moves ⊢
    cases moves with
    | aheadEnd => exact .waiting (by rw [seen, split, append_nil])
    | aheadNext => exact @Inside.getting _ _ _ _ _ _ _ _ _ _ _ [] split seen rfl
  | @getting front rest b bh _ control inner split seen label =>
    by_cases returning : inner = [] ∧ ∃ value, control = .ret value
    · obtain ⟨rfl, value, rfl⟩ := returning
      obtain ⟨tmp, wasRead, rfl⟩ := value_of_gets label
      obtain rfl := kind (by simp)
      exact Inside.turn named.1.2 split seen here moved
    · rw [turns_inner here (by grind), append_nil, now]
      obtain ⟨inner', stack, keeps⟩ := moves.keeps (by simp) (not_returning returning)
      obtain ⟨control', stack'⟩ := proc'
      obtain rfl : stack' = _ := stack
      exact .getting split seen (keeps _ label)
  | asking split seen block =>
    obtain rfl := kind (by simp)
    exact Inside.call block split seen here moved
  | @asked front rest b bh tmp _ split seen =>
    rw [@turns_inner driver p [.user held] s s' m _ [] _ here (by simp), append_nil, now]
    generalize s'.cache = c' at moves ⊢
    cases moves with
    | aheadDone => exact .looping (split.trans (append_cons front b rest)) seen
    | toNull why | toSyncDev why | toSysSync why => simp at why
  | waiting seen =>
    rw [turns_base here, append_nil, now]
    generalize s'.cache = c' at moves ⊢
    cases moves with
    | breadDone => exact .returning seen
    | breadFails => exact @Inside.failing _ _ _ _ _ _ [] _ seen
  | @failing control inner _ seen =>
    rw [turns_inner here (by simp), append_nil, now]
    by_cases returning : inner = [] ∧ ∃ value, control = .ret value
    · obtain ⟨rfl, value, rfl⟩ := returning
      generalize s'.cache = c' at moves ⊢
      cases moves with
      | toNull why => exact .returning seen
      | toSyncDev why | toSysSync why => simp at why
    · obtain ⟨inner', stack, _⟩ := moves.keeps (by simp) (not_returning returning)
      obtain ⟨control', stack'⟩ := proc'
      obtain rfl : stack' = _ := stack
      exact .failing seen
  | returning seen =>
    rw [turns_base here, append_nil, now]
    generalize s'.cache = c' at moves ⊢
    cases moves with
    | toUserBuffer | toUser other => exact .left rfl seen
    | toNull why | toSyncDev why | toSysSync why => simp at why
  | left out seen => exact absurd out busy

theorem Inside.step {n : Nat} (invariant : s.Invariant n) (held : List Nat)
    (inside : Inside s.cache dev first ahead [.user held] (s.process p) log)
    (busy : (s.process p).stack ≠ []) (moved : s.step driver m = some s') :
    Inside s'.cache dev first ahead [.user held] (s'.process p) (log ++ turns driver p [.user held] s s' m) := by
  by_cases actor : m.actor = some p
  · exact inside.own invariant held busy moved actor
  · exact inside.others invariant moved actor

/-! ## Runs -/

variable {s₀ : System}

theorem Calls.reachable (run : Calls driver p base s₀ log s) : Reachable (System.step driver) s₀ s := by
  induction run with
  | start => exact .start
  | step _ _ moved ih => exact .move ih trivial moved

theorem Calls.inside (invariant : s₀.Invariant n) (held : List Nat) (run : Calls driver p [.user held] s₀ log s)
    (begun : Inside s₀.cache dev first ahead [.user held] (s₀.process p) []) :
    Inside s.cache dev first ahead [.user held] (s.process p) log ∧ ∀ turn ∈ log, turn.Sound := by
  induction run with
  | start => exact ⟨begun, by simp⟩
  | step before busy moved ih =>
    have still := before.reachable.invariant (P := fun s => s.Invariant n)
      (fun invariant _ moved => invariant.step moved) invariant
    refine ⟨ih.1.step still held busy moved, fun turn member => ?_⟩
    rcases mem_append.mp member with earlier | now
    · exact ih.2 turn earlier
    · exact turns_sound moved now

/-- The references of all processes account for every change of `b_count`. -/
structure System.Accounts (s₀ s : System) : Prop where
  dry : ∀ q, (s.process q).Dry
  exact : ∀ h, s₀.cache.count h + ∑ q, (s.process q).holds.count h =
    s.cache.count h + ∑ q, (s₀.process q).holds.count h

theorem System.Accounts.step {s₀ : System} (accounts : s₀.Accounts s) (counted : s.Counted)
    (moved : s.step driver m = some s') : s₀.Accounts s' := by
  refine ⟨System.step_forall moved accounts.dry fun q proc moves => moves.dry (accounts.dry q), fun h => ?_⟩
  have before := accounts.exact h
  rcases System.step_cases moved with ⟨q, proc, moves, others⟩ | ⟨line, _, rfl⟩
  · have balance := moves.exact (accounts.dry q) (counted.le q) h
    have total := sum_update (fun proc : Process => proc.holds.count h) s.process q proc
    rw [others]
    omega
  · rw [Cache.endRequest_count]
    exact before

theorem Calls.of_run (ran : Run (System.step driver) (fun s _ => decide ((s.process p).stack ≠ []) = true) s₀ s) :
    ∃ log, Calls driver p base s₀ log s := by
  induction ran with
  | start => exact ⟨[], .start⟩
  | move _ busy moved ih =>
    obtain ⟨log, run⟩ := ih
    exact ⟨_, .step run (of_decide_eq_true busy) moved⟩

theorem System.dry_of_reachable {blocknr : Nat → Nat} {data : Nat → Block} {disk : Nat → Nat → Block}
    (reached : Reachable (System.step driver) (.init (.init n blocknr data disk)) s) (q : Fin NR_TASKS) :
    (s.process q).Dry :=
  reached.invariant (P := fun s => ∀ q, (s.process q).Dry)
    (fun dry _ moved => System.step_forall moved dry fun q _ moves => moves.dry (dry q))
    (fun _ => trivial) q

theorem Calls.accounts (invariant : s₀.Invariant n) (dry : ∀ q, (s₀.process q).Dry)
    (run : Calls driver p base s₀ log s) : s₀.Accounts s := by
  induction run with
  | start => exact ⟨dry, fun _ => rfl⟩
  | step before _ moved ih =>
    have still := before.reachable.invariant (P := fun s => s.Invariant n)
      (fun invariant _ moved => invariant.step moved) invariant
    exact ih.step still.referenced.counted moved

/-- `b_count` counts the references; a request or waiting process alone has its buffer's lock. -/
theorem System.owned_of_reachable {blocknr : Nat → Nat} {data : Nat → Block} {disk : Nat → Nat → Block}
    (positive : 0 < n) (reached : Reachable (System.step driver) (.init (.init n blocknr data disk)) s) :
    s.WellLocked ∧ ∀ h, s.cache.count h = ∑ q, (s.process q).holds.count h := by
  let s₀ : System := .init (.init n blocknr data disk)
  have both := reached.invariant (P := fun s => s.Invariant n ∧ s₀.Accounts s)
    (fun both _ moved => ⟨both.1.step moved, both.2.step both.1.referenced.counted moved⟩)
    ⟨System.invariant_init positive .., (⟨fun _ => trivial, fun _ => rfl⟩ : s₀.Accounts s₀)⟩
  refine ⟨both.1.wellLocked, fun h => ?_⟩
  simpa [s₀, System.init, Process.holds, Control.holds, stackHolds, Cache.init] using (both.2.exact h).symm

theorem System.owned_of_reachable_bread :
    ∃ s, run (System.step fun _ => true) (.init (.init 2 (fun _ => 0) (fun _ => .zero) fun _ _ => .zero))
        (.begin 0 (.bread 0x300 5) :: replicate 6 (.advance 0)) = some s ∧
      (s.cache.count 0 = 1 ∧ s.cache.lock 0) ∧
        s.WellLocked ∧ ∀ h, s.cache.count h = ∑ q, (s.process q).holds.count h :=
  exists_run (fun s => s.cache.count 0 = 1 ∧ s.cache.lock 0) (by decide +kernel)
    fun s ran shape => ⟨shape, owned_of_reachable (by decide) (reachable_of_run ran)⟩

theorem System.Accounts.mine (accounts : s₀.Accounts s)
    (others : ∀ q, q ≠ p → (s.process q).holds = (s₀.process q).holds) (h : Nat) :
    s₀.cache.count h + (s.process p).holds.count h = s.cache.count h + (s₀.process p).holds.count h := by
  have exact := accounts.exact h
  have same : s.process = update s.process p (s.process p) := (update_eq_self p _).symm
  have total : ∑ q, (s.process q).holds.count h + (s₀.process p).holds.count h =
      ∑ q, (s₀.process q).holds.count h + (s.process p).holds.count h := by
    have replaced := sum_update (fun proc : Process => proc.holds.count h) s₀.process p (s.process p)
    have equal : ∑ q, (update s₀.process p (s.process p) q).holds.count h =
        ∑ q, (s.process q).holds.count h := by
      refine Finset.sum_congr rfl fun q _ => ?_
      by_cases mine : q = p
      · rw [mine, update_self]
      · rw [update_of_ne mine, others q mine]
    rw [← equal]
    exact replaced
  omega

/-- A call of `breada` in any state that the processes reach, with anything going on beside
it. Each listed block has its turn; all that want a read request get one just when they
have the buffer of the first block; and on success one reference is left, to that buffer. -/
theorem breada_requests_iff {n : Nat} (positive : 0 < n) {blocknr : Nat → Nat} {data : Nat → Block}
    {disk : Nat → Nat → Block} {s₀ s₁ : System}
    (reached : Reachable (System.step driver) (.init (.init n blocknr data disk)) s₀) {held : List Nat}
    (outside : s₀.process p = ⟨.user held, []⟩)
    (called : s₀.step driver (.begin p (.breada dev first ahead)) = some s₁)
    (run : Calls driver p [.user held] s₁ log s) :
    (∀ bh, s.process p = ⟨.breadWait dev first bh, [.user held]⟩ → log.map Turn.block = ahead) ∧
    ((∀ turn ∈ log, turn.wanted → turn.requested) ↔ ∀ turn ∈ log, turn.wanted → turn.isFirst) ∧
    (∀ bh, s.process p = ⟨.ret (.buffer dev first bh true), [.user held]⟩ →
      log.map Turn.block = ahead ∧
      ((∀ q, q ≠ p → (s.process q).holds = (s₀.process q).holds) →
        ∀ h, s.cache.count h = s₀.cache.count h + if h = bh then 1 else 0)) := by
  have invariant : s₀.Invariant n := reached.invariant (P := fun s => s.Invariant n)
    (fun invariant _ moved => invariant.step moved) (System.invariant_init positive _ _ _)
  have begun : s₁ = s₀.setProcess p s₀.cache (.getblk dev first) [.breada dev first ahead, .user held] := by
    simp only [System.step, outside, begin, Option.map_some, Option.some.injEq] at called
    exact called.symm
  have atStart : Inside s₁.cache dev first ahead [.user held] (s₁.process p) [] := by
    rw [begun]
    simp only [System.setProcess, update_self]
    exact @Inside.opening _ _ _ _ _ _ [] rfl
  obtain ⟨inside, sound⟩ := run.inside (invariant.step called) held atStart
  have complete : ∀ control, s.process p = ⟨control, [.user held]⟩ →
      (∀ dev first bh rest, control ≠ .breadaLoop dev first bh rest) → log.map Turn.block = ahead := by
    intro control here notLoop
    have short : ∀ (inner : List Caller) (frame : Caller), [Caller.user held] ≠ inner ++ [frame, .user held] := by
      intro inner frame same
      have lengths := congrArg List.length same
      simp at lengths
    generalize proc : s.process p = now at inside here
    cases inside with
    | opening | reading | getting =>
      exact absurd (congrArg Process.stack here).symm (short _ _)
    | looping =>
      exact absurd (congrArg Process.control here).symm (notLoop _ _ _ _)
    | asking | asked => exact absurd (congrArg Process.stack here).symm (short [] _)
    | waiting seen | failing seen | returning seen | left _ seen => exact seen
  refine ⟨fun bh here => complete _ here (by simp), ⟨?_, ?_⟩, fun bh here => ⟨complete _ here (by simp), ?_⟩⟩
  · intro all turn member wanted
    exact (sound turn member wanted).mp (all turn member wanted)
  · intro firsts turn member wanted
    exact (sound turn member wanted).mpr (firsts turn member wanted)
  · intro others h
    have first := (System.Accounts.mk (fun q => System.dry_of_reachable reached q) fun _ => rfl :
      s₀.Accounts s₀).step invariant.referenced.counted called
    have whole : s₀.Accounts s := by
      have later := run.accounts (invariant.step called) first.dry
      refine ⟨later.dry, fun h => ?_⟩
      have one := first.exact h
      have two := later.exact h
      omega
    have balance := whole.mine others h
    rw [here, outside] at balance
    simp only [Process.holds, Control.holds, Value.holds, stackHolds, Caller.holds, append_nil,
      singleton_append, count_cons, beq_iff_eq] at balance
    split
    case isTrue same =>
      rw [if_pos same.symm] at balance
      omega
    case isFalse different =>
      rw [if_neg fun same => different same.symm] at balance
      omega

end Steps

def emptyCache : System := .init (.init 2 (fun _ => 0) (fun _ => .zero) fun _ _ => .zero)

def callingBreada (ahead : List Nat) : System :=
  emptyCache.setProcess 0 emptyCache.cache (.getblk 0x301 1) [.breada 0x301 1 ahead, .user []]

theorem breada_first_listed :
    ∃ log s, Calls (fun _ => true) 0 [.user []] (callingBreada [1]) log s ∧ log.map Turn.block = [1] ∧
      s.cache.count 0 = 1 := by
  obtain ⟨s, ran, returned, others⟩ := exists_of_runIf (System.step fun _ => true)
    (fun s _ => decide ((s.process 0).stack ≠ [])) (callingBreada [1])
    (List.replicate 9 (.advance 0) ++ [.complete 3] ++ List.replicate 6 (.advance 0))
    (fun s => s.process 0 = ⟨.ret (.buffer 0x301 1 0 true), [.user []]⟩ ∧
      ∀ q : Fin NR_TASKS, q ≠ 0 → (s.process q).holds = []) (by decide +kernel)
  obtain ⟨log, run⟩ : ∃ log, Calls (fun _ => true) 0 [.user []] _ log s := Calls.of_run ran
  obtain ⟨_, _, ends⟩ := @breada_requests_iff _ _ _ _ _ _ _ 2 (by decide) _ _ _ emptyCache _ .start _ rfl rfl run
  obtain ⟨complete, counts⟩ := ends 0 returned
  exact ⟨log, s, run, complete, counts others 0⟩

/-- Block 2 is listed, and its buffer is empty: `ll_rw_block` is called for block 1. -/
theorem breada_second_not_requested :
    ∃ log s, Calls (fun _ => true) 0 [.user []] (callingBreada [2]) log s ∧
      ∃ turn ∈ log, turn.block = 2 ∧ turn.wanted ∧ ¬turn.requested := by
  obtain ⟨s, ran, asks, block, ⟨invalid, unlocked, entry, dev⟩, possible⟩ :=
    exists_of_runIf (System.step fun _ => true)
      (fun s _ => decide ((s.process 0).stack ≠ [])) (callingBreada [2]) (List.replicate 13 (.advance 0))
      (fun s => s.process 0 = ⟨.llRwBlock READA 0, [.breadaAhead 0x301 1 0 1 [], .user []]⟩ ∧
        s.cache.blocknr 1 = 2 ∧ (s.cache.uptodate 1 = false ∧ s.cache.lock 1 = false ∧
          (s.cache.findRequest (Cache.requestLimit READ)).isSome = true ∧ s.cache.dev 1 = 0x301) ∧
        (s.step (fun _ => true) (.advance 0)).isSome = true) (by decide +kernel)
  obtain ⟨s', moved⟩ := Option.isSome_iff_exists.mp possible
  obtain ⟨log, run⟩ : ∃ log, Calls (fun _ => true) 0 [.user []] _ log s := Calls.of_run ran
  have turn : turns (fun _ => true) 0 [.user []] s s' (.advance 0) =
      [⟨2, s.cache.Wanting (fun _ => true) 1, s.cache.Requests s'.cache 1, 1 = 0⟩] := by
    simp [turns, asks, block]
  have last : (⟨2, s.cache.Wanting (fun _ => true) 1, s.cache.Requests s'.cache 1, 1 = 0⟩ : Turn) ∈
      turns (fun _ => true) 0 [.user []] s s' (.advance 0) := by
    rw [turn]
    exact mem_singleton_self _
  have wanting : s.cache.Wanting (fun _ => true) 1 := ⟨invalid, unlocked, entry, by rw [dev]; decide, rfl⟩
  refine ⟨_, s', .step run (by rw [asks]; simp) moved, _, mem_append_right _ last, rfl, wanting, ?_⟩
  intro requested
  have same := (turns_sound moved last wanting).mp requested
  exact Nat.one_ne_zero same

end Linux012.Fs

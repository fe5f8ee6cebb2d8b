import Linux012.Fs.InodeWriting

/-! The table holds one copy of an inode, and `iget` returns it. All inodes have
names here, so that none is freed. -/

set_option autoImplicit false

namespace Linux012.Fs.InodeTable

open Transition Relation Function List

structure State.Linked (s : State) (m : Move) : Prop where
  named : ∀ i, (s.table i).dev ≠ 0 → (s.table i).loaded = true → (s.table i).data.nlinks ≠ 0
  noNew : ∀ p dev uid gid time, m ≠ .newInode p dev uid gid time

def Policy.linked : Policy :=
  { Policy.all with
    truncate := fun dev loaded data => dev ≠ 0 → loaded = true → data.nlinks ≠ 0
    newInode := False }

theorem State.Linked.allows {s : State} {m : Move} (linked : s.Linked m) : Policy.linked.Allows s m where
  claim _ _ _ _ _ _ _ := trivial
  take _ _ _ _ _ _ _ := trivial
  free _ _ _ _ _ := trivial
  truncate := linked.named
  newInode p dev uid gid time isNew := linked.noNew p dev uid gid time isNew
  modify _ _ _ := trivial

def Frame.request : Frame → Option Request
  | .emptyWait _ (.iget r) | .scan r _ | .scanWait _ r _ | .readLock _ r | .reading _ r _ _ | .got _ r => some r
  | _ => none

def Frame.Plain : Frame → Prop
  | .emptyWait _ (.newInode _ _ _ _) | .newBit _ _ _ _ _ | .truncating _ => False
  | _ => True

/-- An inode that answers an `iget`: the one asked for, or the root of the file
system mounted on it. -/
def State.Answers (s : State) (r : Request) : Prop :=
  (r.dev, r.num) = r.asked ∨
    ∃ k i, (s.super k).imount = some i ∧ ((s.table i).dev, (s.table i).num) = r.asked ∧
      (r.dev, r.num) = ((s.super k).dev, ROOT_INO)

structure State.Answering (s : State) : Prop where
  requests : ∀ p, ∀ f ∈ s.control p, f.Plain ∧ ∀ r, f.request = some r → s.Answers r
  roots : ∀ k i, (s.super k).imount = some i → (s.table i).mount = true → (s.table i).num ≠ ROOT_INO

section Answering

variable {policy : Policy} {s s' t : State} {p : Pid} {f g : Frame} {gs fs rest : List Frame} {i : Slot}

theorem pins_pos {k : Fin NR_SUPER} (isMount : (s.super k).imount = some i) : s.pins i ≠ 0 := by
  have one : 0 < Counting.number (fun sb : Super => sb.imount = some i) s.super :=
    Counting.number_pos (i := k) (by simp [isMount])
  unfold State.pins
  omega

theorem mounts_stay (go : IdentGo policy s s') {k : Fin NR_SUPER}
    (isMount : (s.super k).imount = some i) :
    (s'.table i).dev = (s.table i).dev ∧ (s'.table i).num = (s.table i).num ∧
      (s'.table i).mount = (s.table i).mount := by
  have pinned := pins_pos isMount
  have away {j : Slot} (noPins : s.pins j = 0) : i ≠ j := by
    rintro rfl
    exact pinned noPins
  cases go with
  | same same _ => exact same i
  | cleared noPins _ others _ | claimed noPins _ _ _ _ others _ | created noPins _ _ _ _ others _ =>
    rw [others i (away noPins)]
    exact ⟨rfl, rfl, rfl⟩

variable (gs fs rest) in
theorem State.Answering.goes (answering : s.Answering) (go : IdentGo policy s s')
    (at_ : s.control p = gs ++ rest) (control : s'.control = update s.control p (fs ++ rest))
    (super : s'.super = s.super) (plain : ∀ f ∈ fs, f.Plain)
    (new : ∀ f ∈ fs, ∀ r, f.request = some r → s.Answers r) : s'.Answering := by
  have answers {r : Request} (answers : s.Answers r) : s'.Answers r := by
    refine answers.imp_right ?_
    rintro ⟨k, i, isMount, asked, isRoot⟩
    obtain ⟨sameDev, sameNum, -⟩ := mounts_stay go isMount
    refine ⟨k, i, ?_, ?_, ?_⟩
    · rwa [super]
    · rwa [sameDev, sameNum]
    · rwa [super]
  constructor
  · intro q f member
    have old (was : ∃ r, f ∈ s.control r) : f.Plain ∧ ∀ r, f.request = some r → s'.Answers r := by
      obtain ⟨q, was⟩ := was
      obtain ⟨isPlain, request⟩ := answering.requests q f was
      exact ⟨isPlain, fun r isRequest => answers (request r isRequest)⟩
    rw [control] at member
    by_cases same : q = p
    · subst same
      rw [update_self] at member
      rcases mem_append.mp member with isNew | isOld
      · exact ⟨plain f isNew, fun r isRequest => answers (new f isNew r isRequest)⟩
      · exact old ⟨q, by rw [at_]; exact mem_append_right gs isOld⟩
    · rw [update_of_ne same] at member
      exact old ⟨q, member⟩
  · intro k i isMount
    rw [super] at isMount
    obtain ⟨-, sameNum, sameMount⟩ := mounts_stay go isMount
    rw [sameNum, sameMount]
    exact answering.roots k i isMount

theorem State.Answering.head (answering : s.Answering) (at_ : s.control p = f :: rest) :
    f.Plain ∧ ∀ r, f.request = some r → s.Answers r :=
  answering.requests p f (by rw [at_]; exact mem_cons_self)

theorem State.Answering.write (answering : s.Answering) (ident : IdentGo policy s (t.goto p (fs ++ f :: rest)))
    (at_ : s.control p = g :: rest) (go : WriteGo s i t fs) (plain : f.Plain)
    (request : ∀ r, f.request = some r → s.Answers r) : (t.goto p (fs ++ f :: rest)).Answering := by
  have same := go.same
  have split : fs ++ f :: rest = (fs ++ [f]) ++ rest := by simp
  refine answering.goes [g] (fs ++ [f]) rest ident at_ ?_ same.super (fun f' member => ?_)
    fun f' member r isRequest => ?_
  · simp only [State.goto, same.control, split]
  · rcases mem_append.mp member with isWrite | isLast
    · cases go with
      | clean => cases isWrite
      | write =>
        rw [mem_singleton.mp isWrite]
        trivial
    · rwa [mem_singleton.mp isLast]
  · rcases mem_append.mp member with isWrite | isLast
    · cases go with
      | clean => cases isWrite
      | write =>
        rw [mem_singleton.mp isWrite] at isRequest
        cases isRequest
    · rw [mem_singleton.mp isLast] at isRequest
      exact request r isRequest

theorem State.Answering.tail (answering : s.Answering) (locked : s.Locked)
    (ident : IdentGo policy s (t.goto p (fs ++ rest))) (at_ : s.control p = g :: rest)
    (isDev : (s.table i).dev ≠ 0) (unlocked : (s.table i).lock = false)
    (go : TailGo Policy.linked s i t fs) : (t.goto p (fs ++ rest)).Answering := by
  cases go with
  | drop => exact answering.goes [g] [] _ ident at_ rfl rfl (by simp) (by simp)
  | truncate few noLinks allowed =>
    exact absurd noLinks (allowed isDev (locked.loaded_of_unlocked isDev unlocked))
  | write _ wrote =>
    rw [append_assoc] at ident ⊢
    exact answering.write ident at_ wrote trivial fun r isRequest => by cases isRequest

theorem State.Answering.micro (answering : s.Answering) (kept : s.Kept) (locked : s.Locked)
    (micro : Micro Policy.linked s s') : s'.Answering := by
  have ident := micro_ident kept micro
  cases micro with
  | @start p frame last idle begins =>
    refine answering.goes [] [frame] [] ident idle rfl rfl (fun f member => ?_) fun f member r isRequest => ?_
    · rw [mem_singleton.mp member]
      rcases begins with ⟨i, dev, num, -, rfl⟩ | ⟨never, -⟩ | rfl
      · trivial
      · exact never.elim
      · trivial
    · rw [mem_singleton.mp member] at isRequest
      rcases begins with ⟨i, dev, num, -, rfl⟩ | ⟨never, -⟩ | rfl
      · cases isRequest
        exact .inl rfl
      · exact never.elim
      · cases isRequest
  | @iputStart p i idle isHeld =>
    exact answering.goes [] [.iputWait i] [] ident idle rfl rfl (by simp [Frame.Plain]) (by simp [Frame.request])
  | @wait p frame frames rest last at_ waits =>
    obtain ⟨plain, request⟩ := answering.head at_
    refine answering.goes [frame] frames _ ident at_ rfl rfl (fun f member => ?_) fun f member r isRequest => ?_
    · cases waits with
      | @emptyWait i j purpose =>
        rw [mem_singleton.mp member]
        cases purpose <;> exact plain
      | scan | scanWait | sync =>
        rw [mem_singleton.mp member]
        trivial
      | synced => cases member
      | noBit => exact plain.elim
    · cases waits with
      | @emptyWait i j purpose =>
        rw [mem_singleton.mp member] at isRequest
        refine request r ?_
        cases purpose <;> exact isRequest
      | scan | scanWait =>
        rw [mem_singleton.mp member] at isRequest
        exact request r isRequest
      | sync =>
        rw [mem_singleton.mp member] at isRequest
        cases isRequest
      | synced => cases member
      | noBit => exact plain.elim
  | emptyWrite at_ unlocked wrote =>
    obtain ⟨plain, request⟩ := answering.head at_
    exact answering.write ident at_ wrote plain request
  | syncWrite at_ unlocked wrote =>
    exact answering.write ident at_ wrote trivial fun r isRequest => by cases isRequest
  | @fresh p i purpose rest at_ unlocked clean free =>
    obtain ⟨plain, request⟩ := answering.head at_
    cases purpose with
    | newInode => exact plain.elim
    | iget r =>
      refine answering.goes [.emptyWait i (.iget r)] [.scan r i] _ ident at_ rfl rfl
        (by simp [Frame.Plain]) fun f member r' isRequest => ?_
      rw [mem_singleton.mp member] at isRequest
      exact request r' isRequest
  | @claim p r empty sb rest at_ missing allowed isSuper =>
    obtain ⟨plain, request⟩ := answering.head at_
    refine answering.goes [.scan r empty] [.reading empty r r.dev (sb.blockOf r.num)] _ ident at_
      rfl rfl (by simp [Frame.Plain]) fun f member r' isRequest => ?_
    rw [mem_singleton.mp member] at isRequest
    exact request r' isRequest
  | @take p i r empty frames rest finds allowed goes =>
    obtain ⟨place, unlocked, sameDev, sameNum⟩ := finds
    obtain ⟨g, at_, request⟩ : ∃ g, s.control p = g :: rest ∧ s.Answers r := by
      rcases place with ⟨at_, -⟩ | at_
      · exact ⟨_, at_, (answering.head at_).2 r rfl⟩
      · exact ⟨_, at_, (answering.head at_).2 r rfl⟩
    refine answering.goes [g] frames _ ident at_ rfl rfl (fun f member => ?_) fun f member r' isRequest => ?_
    · cases goes <;>
        simp only [mem_cons, not_mem_nil, or_false] at member <;>
        rcases member with rfl | rfl <;> trivial
    · cases goes with
      | got =>
        simp only [mem_cons, not_mem_nil, or_false] at member
        rcases member with rfl | rfl
        · cases isRequest
        · cases isRequest
          exact request
      | @mounted sb isMount isSuper =>
        simp only [mem_cons, not_mem_nil, or_false] at member
        rcases member with rfl | rfl
        · cases isRequest
        · cases isRequest
          obtain ⟨k, isOn, rfl⟩ := Option.map_eq_some_iff.mp isSuper
          have isOn : (s.super k).imount = some i := by simpa using find?_some isOn
          refine .inr ⟨k, i, isOn, ?_, rfl⟩
          rw [sameDev, sameNum]
          rcases request with asked | ⟨k', j, -, -, isRoot⟩
          · exact asked
          · rw [(Prod.mk.inj isRoot).2] at sameNum
            exact absurd sameNum (answering.roots k i isOn isMount)
  | @load p i r dev block rest at_ =>
    obtain ⟨plain, request⟩ := answering.head at_
    refine answering.goes [.reading i r dev block] [.got i r] _ ident at_ rfl rfl
      (by simp [Frame.Plain]) fun f member r' isRequest => ?_
    rw [mem_singleton.mp member] at isRequest
    exact request r' isRequest
  | @got p i r rest at_ =>
    exact answering.goes [.got i r] [] _ ident at_ rfl rfl (by simp) (by simp)
  | newBit at_ isSuper isFree | free at_ allowed isDev few | cut at_ => exact (answering.head at_).1.elim
  | @iput p i t frames rest at_ unlocked goes =>
    cases goes with
    | drop noDev =>
      exact answering.goes [.iputWait i] [] _ ident at_ rfl rfl (by simp) (by simp)
    | sync isDev =>
      exact answering.goes [.iputWait i] [.syncing 0, .iputRepeat i] _ ident at_ rfl rfl
        (by simp [Frame.Plain]) (by simp [Frame.request])
    | tail isDev goes => exact answering.tail locked ident at_ isDev unlocked goes
  | iputRepeat at_ unlocked goes =>
    exact answering.tail locked ident at_ (kept.fits_head at_) unlocked goes
  | @save p i entered dev block rest at_ =>
    exact answering.goes [.writing i entered dev block] [] _ ident at_ rfl rfl (by simp) (by simp)
  | @modify i data isHeld allowed =>
    have p : Pid := ⟨0, by decide⟩
    refine answering.goes (p := p) [] [] (s.control p) ident rfl ?_ rfl (by simp) (by simp)
    rw [nil_append, update_eq_self]
    rfl
  | stray at_ impossible => exact (kept.not_stray at_ impossible).elim

end Answering

/-! ## What `iget` returns -/

def Frame.IsGot : Frame → Prop
  | .got _ _ => True
  | _ => False

section Returns

variable {policy : Policy} {s s' t : State} {p : Pid} {fs rest : List Frame} {i empty : Slot} {r : Request}
  {m : Move}

theorem WriteGo.no_got (go : WriteGo s i t fs) : ∀ f ∈ fs, ¬f.IsGot := by
  cases go <;> simp [Frame.IsGot]

theorem TailGo.no_got (go : TailGo policy s i t fs) : ∀ f ∈ fs, ¬f.IsGot := by
  cases go with
  | drop => simp
  | truncate => simp [Frame.IsGot]
  | write unlocked wrote =>
    intro f member
    rcases mem_append.mp member with isWrite | isLast
    · exact wrote.no_got f isWrite
    · rw [mem_singleton.mp isLast]
      exact id

theorem IputGo.no_got (go : IputGo policy s i t fs) : ∀ f ∈ fs, ¬f.IsGot := by
  cases go with
  | drop => simp
  | sync => simp [Frame.IsGot]
  | tail isDev goes => exact goes.no_got

def Goes (s t : State) (fs : List Frame) : Prop := t.control = s.control ∧ ∀ f ∈ fs, ¬f.IsGot

theorem iput_goes (ran : s.iput i = some (t, fs)) : Goes s t fs := by
  unfold State.iput at ran
  split at ran
  · cases ran
    exact ⟨rfl, by simp [Frame.IsGot]⟩
  · next unlocked =>
    have go : IputGo Policy.all s i t fs := iputBody_go trivial (Bool.eq_false_iff.mpr unlocked) ran
    exact ⟨go.same.control, go.no_got⟩

theorem write_goes (unlocked : ¬(s.table i).lock = true) (ran : s.writeInode i = some (t, fs)) :
    Goes s t fs := by
  have go := writeInode_go (Bool.eq_false_iff.mpr unlocked) ran
  exact ⟨go.same.control, go.no_got⟩

theorem iput_private (isPrivate : (s.table i).Private) : s.iput i = some (s.setCount i 0, []) := by
  obtain ⟨noDev, unlocked, -, one⟩ := isPrivate
  simp [State.iput, State.iputBody, noDev, unlocked, one]

theorem then_goes {ran : Ran} {frame : Frame} (isRan : ran.then frame = some (t, fs)) (notGot : ¬frame.IsGot)
    (before : ∀ t fs, ran = some (t, fs) → Goes s t fs) : Goes s t fs := by
  obtain ⟨first, isFirst, rfl⟩ := then_eq isRan
  obtain ⟨sameControl, noGot⟩ := before t first isFirst
  refine ⟨sameControl, fun f member => ?_⟩
  rcases mem_append.mp member with isOld | isLast
  · exact noGot f isOld
  · rwa [mem_singleton.mp isLast]

/-- An `iget` goes on to something else, or returns an inode that is complete. -/
def GoesOrReturns (s t : State) (fs : List Frame) : Prop :=
  Goes s t fs ∨ t.control = s.control ∧
    ∃ i r, fs = [.got i r] ∧ (t.table i).lock = false ∧ (t.table i).loaded = true

theorem found_returns (isPrivate : (s.table empty).Private) (isDev : (s.table i).dev ≠ 0)
    (unlocked : (s.table i).lock = false) (loaded : (s.table i).loaded = true)
    (ran : s.found i r empty = some (t, fs)) : GoesOrReturns s t fs := by
  have other : empty ≠ i := by
    rintro rfl
    exact isDev isPrivate.1
  have stillPrivate : ((s.setCount i ((s.table i).count + 1)).table empty).Private := by
    simpa only [State.setCount, State.setSlot, update_of_ne other] using isPrivate
  have viaEmpty (ran : Ran.then ((s.setCount i ((s.table i).count + 1)).iput empty) (.got i r) = some (t, fs)) :
      GoesOrReturns s t fs := by
    rw [iput_private stillPrivate] at ran
    cases ran
    refine .inr ⟨rfl, i, r, rfl, ?_, ?_⟩
    · simpa only [State.setCount, State.setSlot, update_of_ne other.symm, update_self] using unlocked
    · simpa only [State.setCount, State.setSlot, update_of_ne other.symm, update_self] using loaded
  unfold State.found at ran
  simp only at ran
  split at ran
  · split at ran
    · exact viaEmpty ran
    · exact .inl (then_goes ran id fun t fs ran => iput_goes (s := s.setCount i _) ran)
  · exact viaEmpty ran

theorem readInode_goes (ran : s.readInode i r = some (t, fs)) : Goes s t fs := by
  unfold State.readInode at ran
  split at ran
  · cases ran
    exact ⟨rfl, by simp [Frame.IsGot]⟩
  · obtain ⟨sb, -, same⟩ := Option.map_eq_some_iff.mp ran
    cases same
    exact ⟨rfl, by simp [Frame.IsGot]⟩

theorem freeInode_goes (ran : s.freeInode i = some (t, fs)) : Goes s t fs := by
  unfold State.freeInode at ran
  simp only at ran
  split at ran
  · cases ran
    exact ⟨rfl, by simp⟩
  · split at ran
    · cases ran
    · split at ran
      · cases ran
      · obtain ⟨sb, -, ran⟩ := Option.bind_eq_some_iff.mp ran
        split at ran <;> cases ran
        exact ⟨rfl, by simp⟩

theorem run_returns {frame : Frame} (kept : s.Kept) (locked : s.Locked)
    (at_ : s.control p = frame :: rest) (ran : s.run frame = some (t, fs)) : GoesOrReturns s t fs := by
  have fits := kept.fits_head at_
  cases frame with
  | emptyWait i purpose =>
    simp only [State.run] at ran
    split at ran
    · cases ran
    · next unlocked =>
      split at ran
      · exact .inl (then_goes ran id fun t fs ran => write_goes unlocked ran)
      · split at ran
        · obtain ⟨last, j, rfl, rfl⟩ := getEmptyInode_frames ran
          exact .inl ⟨rfl, by simp [Frame.IsGot]⟩
        · cases ran
          cases purpose <;> exact .inl ⟨rfl, by simp [Frame.IsGot, Purpose.next]⟩
  | scan r empty =>
    simp only [State.run] at ran
    split at ran
    · exact .inl (readInode_goes (s := s.claim r empty) ran)
    · next i found =>
      split at ran
      · cases ran
        exact .inl ⟨rfl, by simp [Frame.IsGot]⟩
      · next unlocked =>
        have unlocked := Bool.eq_false_iff.mpr unlocked
        have isDev : (s.table i).dev ≠ 0 := by
          rw [(findInode_eq found).1]
          exact fits.2
        exact found_returns fits.1 isDev unlocked (locked.loaded_of_unlocked isDev unlocked) ran
  | scanWait i r empty =>
    simp only [State.run] at ran
    split at ran
    · cases ran
    · next unlocked =>
      split at ran
      · cases ran
        exact .inl ⟨rfl, by simp [Frame.IsGot]⟩
      · next same =>
        have unlocked := Bool.eq_false_iff.mpr unlocked
        rw [not_or, not_not, not_not] at same
        have isDev : (s.table i).dev ≠ 0 := by
          rw [same.1]
          exact fits.2
        exact found_returns fits.1 isDev unlocked (locked.loaded_of_unlocked isDev unlocked) ran
  | readLock | writeLock => exact fits.elim
  | reading i r dev block =>
    cases ran
    refine .inr ⟨rfl, i, r, rfl, ?_, ?_⟩ <;> simp only [State.load, State.setSlot, update_self]
  | got i r | writing i entered dev block =>
    cases ran
    exact .inl ⟨rfl, by simp⟩
  | newBit empty dev uid gid time =>
    obtain ⟨sb, -, ran⟩ := Option.bind_eq_some_iff.mp ran
    split at ran
    · exact .inl (iput_goes ran)
    · cases ran
      exact .inl ⟨rfl, by simp⟩
  | iputWait i =>
    simp only [State.run] at ran
    split at ran
    · cases ran
    · next unlocked =>
      have go : IputGo Policy.all s i t fs := iputBody_go trivial (Bool.eq_false_iff.mpr unlocked) ran
      exact .inl ⟨go.same.control, go.no_got⟩
  | iputRepeat i =>
    simp only [State.run] at ran
    split at ran
    · cases ran
    · next unlocked =>
      have go : TailGo Policy.all s i t fs := iputTail_go trivial (Bool.eq_false_iff.mpr unlocked) ran
      exact .inl ⟨go.same.control, go.no_got⟩
  | truncating i => exact .inl (freeInode_goes ran)
  | syncing k =>
    simp only [State.run] at ran
    split at ran
    · split at ran
      · cases ran
      · next unlocked =>
        split at ran
        · exact .inl (then_goes ran id fun t fs ran => write_goes unlocked ran)
        · cases ran
          exact .inl ⟨rfl, by simp [Frame.IsGot]⟩
    · cases ran
      exact .inl ⟨rfl, by simp⟩

def State.GotLast (s : State) : Prop := ∀ p, ∀ f ∈ (s.control p).tail, ¬f.IsGot

theorem tail_append {f : Frame} (member : f ∈ (fs ++ rest).tail) : f ∈ fs.tail ∨ f ∈ rest := by
  cases fs with
  | nil => exact .inr (mem_of_mem_tail member)
  | cons g fs => exact mem_append.mp member

theorem State.GotLast.goes {gs : List Frame} (gotLast : s.GotLast) (at_ : s.control p = gs)
    (below : ∀ f ∈ rest, f ∈ gs.tail) (goes : GoesOrReturns s t fs) : (t.goto p (fs ++ rest)).GotLast := by
  have sameControl : t.control = s.control := by
    rcases goes with ⟨same, -⟩ | ⟨same, -⟩ <;> exact same
  intro q f member
  simp only [State.goto, sameControl] at member
  by_cases same : q = p
  · subst same
    rw [update_self] at member
    rcases tail_append member with isNew | isOld
    · rcases goes with ⟨-, none⟩ | ⟨-, i, r, rfl, -⟩
      · exact none f (mem_of_mem_tail isNew)
      · cases isNew
    · exact gotLast q f (by rw [at_]; exact below f isOld)
  · rw [update_of_ne same] at member
    exact gotLast q f member

theorem State.GotLast.step (gotLast : s.GotLast) (kept : s.Kept) (locked : s.Locked)
    (moved : s.step m = some s') : s'.GotLast := by
  cases m with
  | iget p dev num | newInode p dev uid gid time =>
    simp only [State.step] at moved
    split at moved
    · next ready =>
      obtain ⟨t, frames, ran, rfl⟩ := resume_eq moved
      obtain ⟨last, i, rfl, rfl⟩ := getEmptyInode_frames ran
      exact gotLast.goes ready.1 (by simp) (.inl ⟨rfl, by simp [Frame.IsGot]⟩)
    · cases moved
  | iput p i =>
    simp only [State.step] at moved
    split at moved
    · next ready =>
      obtain ⟨t, frames, ran, rfl⟩ := resume_eq moved
      have goes := iput_goes ran
      exact gotLast.goes ready.1 (by simp) (.inl ⟨goes.1, goes.2⟩)
    · cases moved
  | sync p =>
    simp only [State.step] at moved
    split at moved
    · next ready =>
      cases moved
      have goes : GoesOrReturns s s [.syncing 0] := .inl ⟨rfl, by simp [Frame.IsGot]⟩
      exact gotLast.goes ready (by simp) goes
    · cases moved
  | run p =>
    simp only [State.step] at moved
    split at moved
    · cases moved
    · next frame rest at_ =>
      obtain ⟨t, frames, ran, rfl⟩ := resume_eq moved
      exact gotLast.goes at_ (fun f member => member) (run_returns kept locked at_ ran)
  | cut p k | pass p | modify i data =>
    simp only [State.step] at moved
    split at moved
    · cases moved
      exact gotLast
    · cases moved

/-! ## One copy of an inode -/

/-- An `iget` may return the slot: it has the inode that was asked for, or the root
of the file system mounted on it, unlocked and complete, and the references are
counted, that of the caller among them. -/
structure State.Returns (s : State) (i : Slot) (r : Request) : Prop where
  answers : s.Answers r
  ident : (s.table i).dev = r.dev ∧ (s.table i).num = r.num
  unlocked : (s.table i).lock = false
  loaded : (s.table i).loaded = true
  counted : (s.table i).count = s.held i + s.references i + s.pins i

structure State.Copied (s : State) : Prop where
  kept : s.Kept
  locked : s.Locked
  distinct : s.Distinct
  answering : s.Answering

theorem State.Copied.micro (copied : s.Copied) (micro : Micro Policy.linked s s') : s'.Copied := by
  refine ⟨copied.kept.micro micro, ?_, ?_, copied.answering.micro copied.kept copied.locked micro⟩
  · refine copied.locked.micro copied.kept micro fun p i rest at_ _ => ?_
    exact (copied.answering.head at_).1.elim
  · refine copied.distinct.ident (micro_ident copied.kept micro) ?_
    rintro i dev j uid gid time ⟨p, member⟩
    exact (copied.answering.requests p _ member).1.elim

theorem State.Copied.returns (copied : s.Copied) (gotLast : s.GotLast) (after : s'.Copied)
    (moved : s.step (.run p) = some s') (at_ : s'.control p = .got i r :: rest) : s'.Returns i r := by
  have answers := (after.answering.head at_).2 r rfl
  obtain ⟨sameDev, sameNum, -⟩ := after.kept.fits_head at_
  simp only [State.step] at moved
  split at moved
  · cases moved
  · next frame below place =>
    obtain ⟨t, frames, ran, rfl⟩ := resume_eq moved
    rw [goto_control] at at_
    rcases run_returns copied.kept copied.locked place ran with ⟨-, none⟩ | ⟨-, j, r', rfl, unlocked, loaded⟩
    · cases frames with
      | nil =>
        -- the place below would have been a `got`
        have isBelow : Frame.got i r ∈ (s.control p).tail := by
          rw [place]
          simp only [nil_append] at at_
          rw [at_]
          exact mem_cons_self
        exact (gotLast p _ isBelow trivial).elim
      | cons f frames =>
        cases at_
        exact (none _ mem_cons_self trivial).elim
    · cases at_
      exact ⟨answers, ⟨sameDev, sameNum⟩, unlocked, loaded, after.kept.counted i⟩

/-- No calls yet; all inodes of the table are complete and different, and no root is
mounted on. -/
structure State.Ready (s : State) : Prop extends s.Settled where
  distinct : s.Distinct
  roots : ∀ k i, (s.super k).imount = some i → (s.table i).mount = true → (s.table i).num ≠ ROOT_INO

theorem State.Ready.copied (ready : s.Ready) : s.Copied where
  kept := ready.kept
  locked := ready.locked
  distinct := ready.distinct
  answering :=
    { requests := fun p f member => by
        rw [ready.idle p] at member
        cases member
      roots := ready.roots }

end Returns

theorem sampleTable_ready : sampleTable.Ready where
  toSettled := sampleTable_settled
  distinct i j isDev sameDev _ := by
    have first := sampleTable_dev isDev
    rw [sameDev] at isDev
    exact Fin.ext (first.trans (sampleTable_dev isDev).symm)
  roots k i isMount := by cases isMount

def allNamed (s : State) : Move → Bool
  | .newInode .. => false
  | _ => decide (∀ i, (s.table i).dev = 0 ∨ (s.table i).data.nlinks ≠ 0)

theorem linked_of_allNamed {s : State} {m : Move} (named : allNamed s m = true) : s.Linked m where
  named i isDev _ := by
    cases m with
    | newInode => cases named
    | _ => exact (of_decide_eq_true named i).resolve_left isDev
  noNew p dev uid gid time isNew := by
    subst isNew
    cases named

end Linux012.Fs.InodeTable

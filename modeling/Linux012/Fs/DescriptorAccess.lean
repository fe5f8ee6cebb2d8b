import Linux012.Fs.Descriptors

/-! What a descriptor may be used for. `sys_read` and `sys_write` do not look at
the flags of a file, so a descriptor is used as its `open` was granted exactly
as long as its user keeps to those flags. -/

set_option autoImplicit false

namespace Linux012.Fs.Descriptors

open Counting Transition Function

def AsksWrite (flags : Word) : Prop :=
  flags &&& O_ACCMODE = O_WRONLY ∨ flags &&& O_ACCMODE = O_RDWR

def AsksRead (flags : Word) : Prop :=
  flags &&& O_ACCMODE = O_RDONLY ∨ flags &&& O_ACCMODE = O_RDWR

/-! ## What `open` checks -/

variable {inode : Inode} {task : Task}

theorem permission_mono {mask part : Word} (smaller : mask &&& part = part)
    (permitted : permission task inode mask = true) : permission task inode part = true := by
  unfold permission at permitted ⊢
  by_cases deleted : inode.dev ≠ 0 ∧ inode.nlinks = 0
  · rw [if_pos deleted] at permitted
    cases permitted
  · rw [if_neg deleted] at permitted ⊢
    simp only [Bool.or_eq_true, decide_eq_true_eq] at permitted ⊢
    refine permitted.imp_left fun within => ?_
    generalize (if task.euid = inode.uid then inode.mode >>> 6
      else if task.inGroup inode.gid = true then inode.mode >>> 3 else inode.mode) = mode at within ⊢
    calc mode &&& part &&& 7 = mode &&& (mask &&& part) &&& 7 := by rw [smaller]
      _ = mode &&& mask &&& 7 &&& part := by ac_rfl
      _ = part := by rw [within, smaller]

theorem permission_of_asksWrite {flag : Word} (asks : AsksWrite flag)
    (permitted : permission task inode (accMode flag) = true) : permission task inode MAY_WRITE = true := by
  refine permission_mono ?_ permitted
  rcases asks with asks | asks <;> simp only [accMode, asks] <;> decide

theorem permission_of_asksRead {flag : Word} (asks : AsksRead flag)
    (permitted : permission task inode (accMode flag) = true) : permission task inode MAY_READ = true := by
  refine permission_mono ?_ permitted
  rcases asks with asks | asks <;> simp only [accMode, asks] <;> decide

def Truncates (flags : Word) : Prop := flags &&& O_TRUNC ≠ 0 ∧ flags &&& O_ACCMODE = 0

/-- What the permissions were when the descriptor was opened, as far as
`open_namei` has looked. -/
structure Origin.Checked (o : Origin) : Prop where
  write : o.found = .existing → AsksWrite o.flags → o.mayWrite = true
  read : o.found = .existing → AsksRead o.flags → ¬Truncates o.flags → o.mayRead = true

section Open

variable {s s' : State} {task : Task} {lookup : Lookup} {flag mode : Word} {i : Nat} {found : Found}

theorem openNamei_existing (opened : openNamei s task lookup flag mode = (s', some (i, .existing))) :
    permission task (s'.inode i)
        (accMode (if flag &&& O_TRUNC ≠ 0 ∧ flag &&& O_ACCMODE = 0 then flag ||| O_WRONLY else flag)) = true := by
  unfold openNamei at opened
  simp only at opened
  generalize (if flag &&& O_TRUNC ≠ 0 ∧ flag &&& O_ACCMODE = 0 then flag ||| O_WRONLY else flag) = effective
    at opened ⊢
  cases lookup with
  | noDir => simp at opened
  | slash dir | missing dir new added => grind
  | found inode =>
    simp only at opened
    split at opened
    · simp at opened
    · cases inode with
      | none => simp at opened
      | some j =>
        simp only at opened
        split at opened
        · simp at opened
        · split at opened
          · simp at opened
          · next permitted =>
            have checked : permission task (s.inode j) (accMode effective) = true := by
              simpa using permitted
            split at opened
            · simp only [Prod.mk.injEq, Option.some.injEq, and_true] at opened
              obtain ⟨rfl, rfl⟩ := opened
              simp only [update_self]
              exact checked
            · simp only [Prod.mk.injEq, Option.some.injEq, and_true] at opened
              obtain ⟨rfl, rfl⟩ := opened
              exact checked

theorem openNamei_checked {opened : Nat}
    (result : openNamei s task lookup flag mode = (s', some (opened, found))) :
    Origin.Checked
      { flags := flag
        found := found
        mayRead := permission task (s'.inode opened) MAY_READ
        mayWrite := permission task (s'.inode opened) MAY_WRITE } := by
  constructor
  · rintro rfl asks
    have permitted := openNamei_existing result
    have plain : ¬(flag &&& O_TRUNC ≠ 0 ∧ flag &&& O_ACCMODE = 0) := by
      rintro ⟨-, zero⟩
      rcases asks with asks | asks <;> · rw [zero] at asks; revert asks; decide
    rw [if_neg plain] at permitted
    exact permission_of_asksWrite asks permitted
  · rintro rfl asks plain
    have permitted := openNamei_existing result
    have uncut : ¬(flag &&& O_TRUNC ≠ 0 ∧ flag &&& O_ACCMODE = 0) := plain
    rw [if_neg uncut] at permitted
    exact permission_of_asksRead asks permitted

theorem openNamei_files {result : Option (Nat × Found)}
    (opened : openNamei s task lookup flag mode = (s', result)) :
    s'.file = s.file ∧ s'.filp = s.filp := by
  have unchanged : (openNamei s task lookup flag mode).1.file = s.file ∧
      (openNamei s task lookup flag mode).1.filp = s.filp := by
    unfold openNamei
    simp only
    repeat' split
    all_goals exact ⟨rfl, rfl⟩
  rwa [opened] at unchanged

end Open

/-! ## Descriptors and the opens they come from -/

def refers (f : Fin NR_FILE) (descriptor : Option Descriptor) : Bool :=
  descriptor.any fun d => d.file = f

def Sound (file : File) : Option Origin → Prop
  | none => file.target = .pipe
  | some o => file.flags &&& O_ACCMODE = o.flags &&& O_ACCMODE ∧ o.Checked

structure State.Tracked (s : State) : Prop where
  counted : ∀ f, number (refers f) s.filp ≤ (s.file f).count
  sound : ∀ x d, s.filp x = some d → Sound (s.file d.file) d.origin

section Tracked

variable {s s' : State} {x : Fin NR_TASKS × Fin NR_OPEN} {d : Descriptor}

theorem Sound.congr {file file' : File} {origin : Option Origin} (sound : Sound file origin)
    (sameMode : file'.flags &&& O_ACCMODE = file.flags &&& O_ACCMODE)
    (sameTarget : file'.target = file.target) : Sound file' origin := by
  cases origin with
  | none => exact sameTarget.trans sound
  | some o => exact ⟨sameMode.trans sound.1, sound.2⟩

theorem State.Tracked.congr (tracked : s.Tracked) (sameFilp : s'.filp = s.filp)
    (sameCount : ∀ f, (s'.file f).count = (s.file f).count)
    (sameMode : ∀ f, (s'.file f).flags &&& O_ACCMODE = (s.file f).flags &&& O_ACCMODE)
    (sameTarget : ∀ f, (s'.file f).target = (s.file f).target) : s'.Tracked where
  counted f := by
    rw [sameFilp, sameCount]
    exact tracked.counted f
  sound x d found := by
    rw [sameFilp] at found
    exact (tracked.sound x d found).congr (sameMode _) (sameTarget _)

theorem State.Tracked.sameFiles (tracked : s.Tracked) (sameFilp : s'.filp = s.filp)
    (sameFile : s'.file = s.file) : s'.Tracked := by
  refine tracked.congr sameFilp ?_ ?_ ?_ <;> intro f <;> rw [sameFile]

variable {f : Fin NR_FILE}

theorem State.Tracked.setFile (tracked : s.Tracked) {file : File} (sameCount : file.count = (s.file f).count)
    (sameMode : file.flags &&& O_ACCMODE = (s.file f).flags &&& O_ACCMODE)
    (sameTarget : file.target = (s.file f).target) : State.Tracked { s with file := update s.file f file } := by
  have each (g : Fin NR_FILE) : (update s.file f file g).count = (s.file g).count ∧
      (update s.file f file g).flags &&& O_ACCMODE = (s.file g).flags &&& O_ACCMODE ∧
      (update s.file f file g).target = (s.file g).target := by
    by_cases same : g = f
    · subst same
      rw [update_self]
      exact ⟨sameCount, sameMode, sameTarget⟩
    · rw [update_of_ne same]
      exact ⟨rfl, rfl, rfl⟩
  exact tracked.congr rfl (fun g => (each g).1) (fun g => (each g).2.1) fun g => (each g).2.2

theorem State.Tracked.ne_free (tracked : s.Tracked) (free : (s.file f).count = 0) (found : s.filp x = some d) :
    d.file ≠ f := by
  rintro rfl
  have referred : 0 < number (refers d.file) s.filp := number_pos (i := x) (by simp [refers, found])
  have counted := tracked.counted d.file
  omega

theorem State.Tracked.newFile (tracked : s.Tracked) (free : (s.file f).count = 0) (file : File) :
    State.Tracked { s with file := update s.file f file } where
  counted g := by
    by_cases same : g = f
    · subst same
      have counted := tracked.counted g
      simp only
      omega
    · simp only [update_of_ne same]
      exact tracked.counted g
  sound y e found := by
    simp only [update_of_ne (tracked.ne_free free found)]
    exact tracked.sound y e found

theorem State.Tracked.attach (tracked : s.Tracked) (sound : Sound (s.file d.file) d.origin) :
    (s.attach x d).Tracked where
  counted g := by
    have counted := tracked.counted g
    have moved := number_update (P := refers g) s.filp x (some d)
    simp only [State.attach]
    by_cases same : g = d.file
    · subst same
      rw [update_self]
      simp only [refers, Option.any_some, decide_true, Bool.toNat_true] at moved counted ⊢
      omega
    · rw [update_of_ne same]
      have other : refers g (some d) = false := by simpa [refers] using fun h => same h.symm
      rw [other, Bool.toNat_false] at moved
      omega
  sound y e found := by
    have ofOld (origin : Option Origin) (g : Fin NR_FILE) (old : Sound (s.file g) origin) :
        Sound ((s.attach x d).file g) origin := by
      simp only [State.attach]
      by_cases same : g = d.file
      · subst same
        rw [update_self]
        exact old.congr rfl rfl
      · rwa [update_of_ne same]
    by_cases same : y = x
    · subst same
      simp only [State.attach, update_self, Option.some.injEq] at found
      subst found
      exact ofOld _ _ sound
    · simp only [State.attach, update_of_ne same] at found
      exact ofOld _ _ (tracked.sound y e found)

theorem State.Tracked.close (tracked : s.Tracked) (p : Fin NR_TASKS) (fd : Fin NR_OPEN) :
    (sysClose s p fd).Tracked := by
  unfold sysClose
  cases found : s.filp (p, fd) with
  | none => exact tracked
  | some d =>
    constructor
    · intro g
      have counted := tracked.counted g
      have moved := number_update (P := refers g) s.filp (p, fd) none
      rw [found] at moved
      simp only
      by_cases same : g = d.file
      · subst same
        rw [update_self]
        simp only [refers, Option.any_some, Option.any_none, decide_true, Bool.toNat_true,
          Bool.toNat_false] at moved counted ⊢
        omega
      · rw [update_of_ne same]
        have other : refers g (some d) = false := by simpa [refers] using fun h => same h.symm
        rw [other, refers, Option.any_none, Bool.toNat_false] at moved
        omega
    · intro y e foundY
      have old : s.filp y = some e := by
        by_cases same : y = (p, fd)
        · subst same
          simp at foundY
        · simpa only [update_of_ne same] using foundY
      have sound := tracked.sound y e old
      simp only
      by_cases same : e.file = d.file
      · rw [same, update_self]
        rw [same] at sound
        exact sound.congr rfl rfl
      · rwa [update_of_ne same]

theorem State.Tracked.closeFiles (p : Fin NR_TASKS) (fds : List (Fin NR_OPEN)) (tracked : s.Tracked) :
    (closeFiles p fds s).Tracked := by
  induction fds generalizing s with
  | nil => exact tracked
  | cons fd rest ih => exact ih (tracked.close p fd)

theorem State.Tracked.copyFiles (p q : Fin NR_TASKS) (fds : List (Fin NR_OPEN)) (tracked : s.Tracked) :
    (copyFiles p q fds s).Tracked := by
  induction fds generalizing s with
  | nil => exact tracked
  | cons fd rest ih =>
    simp only [Descriptors.copyFiles]
    cases found : s.filp (p, fd) with
    | none => exact ih tracked
    | some d => exact ih (tracked.attach (tracked.sound _ _ found))

theorem State.Tracked.dupfd (tracked : s.Tracked) (p : Fin NR_TASKS) (fd : Fin NR_OPEN) (arg : Nat) :
    (dupfd s p fd arg).Tracked := by
  unfold Descriptors.dupfd
  split
  · next d fd' found free => exact tracked.attach (tracked.sound _ _ found)
  · exact tracked

theorem State.freeFile_count (free : s.freeFile = some f) : (s.file f).count = 0 := by
  have isFree := List.find?_some free
  simpa using isFree

theorem State.Tracked.open (tracked : s.Tracked) (p : Fin NR_TASKS) (task : Task) (lookup : Lookup)
    (flag mode : Word) (ttyBusy : Bool) : (sysOpen s p task lookup flag mode ttyBusy).Tracked := by
  unfold sysOpen
  simp only
  split
  · next fd f freeFd freeFile =>
    have free := State.freeFile_count freeFile
    split
    · next s' opened => exact tracked.sameFiles (openNamei_files opened).2 (openNamei_files opened).1
    · next s' i found opened =>
      obtain ⟨sameFile, sameFilp⟩ := openNamei_files opened
      have tracked' : s'.Tracked := tracked.sameFiles sameFilp sameFile
      split
      · exact tracked'
      · refine (tracked'.newFile ?_ _).attach ?_
        · rwa [sameFile]
        · simp only [update_self]
          exact ⟨rfl, openNamei_checked opened⟩
  · exact tracked

theorem State.Tracked.pipeEnd (tracked : s.Tracked) {p : Fin NR_TASKS} {mode : Word}
    (made : s.pipeEnd p mode = some s') : s'.Tracked := by
  unfold State.pipeEnd at made
  split at made
  · next fd f freeFd freeFile =>
    cases made
    refine (tracked.newFile (State.freeFile_count freeFile) _).attach ?_
    simp only [update_self]
    rfl
  · cases made

theorem State.Tracked.pipe (tracked : s.Tracked) (p : Fin NR_TASKS) : (sysPipe s p).Tracked := by
  unfold sysPipe
  cases made : (s.pipeEnd p 1).bind fun s => s.pipeEnd p 2 with
  | none => exact tracked
  | some s' =>
    obtain ⟨s₁, first, second⟩ := Option.bind_eq_some_iff.mp made
    exact (tracked.pipeEnd first).pipeEnd second

theorem setFlags_accMode (flags arg : Word) :
    (flags &&& ~~~(O_APPEND ||| O_NONBLOCK) ||| (arg &&& (O_APPEND ||| O_NONBLOCK))) &&& O_ACCMODE =
      flags &&& O_ACCMODE := by
  have kept : ~~~(O_APPEND ||| O_NONBLOCK) &&& O_ACCMODE = O_ACCMODE := by decide
  have unset : (O_APPEND ||| O_NONBLOCK) &&& O_ACCMODE = 0 := by decide
  rw [BitVec.and_or_distrib_right, BitVec.and_assoc, kept, BitVec.and_assoc, unset]
  simp

theorem State.Tracked.setPos (tracked : s.Tracked) (f : Fin NR_FILE) (pos : Nat) : (s.setPos f pos).Tracked :=
  tracked.setFile rfl rfl rfl

theorem State.Tracked.write (tracked : s.Tracked) (p : Fin NR_TASKS) (fd : Fin NR_OPEN)
    (buf : List UInt8) (room : Nat) : (sysWrite s p fd buf room).Tracked := by
  unfold sysWrite
  simp only
  repeat' split
  any_goals exact tracked
  · exact tracked.sameFiles rfl rfl
  · refine State.Tracked.setPos ?_ _ _
    exact tracked.sameFiles rfl rfl

theorem State.Tracked.step {m : Move} (tracked : s.Tracked) (moved : s.step m = some s') : s'.Tracked := by
  cases m with
  | «open» p lookup flag mode ttyBusy =>
    obtain ⟨task, -, opened⟩ := Option.bind_eq_some_iff.mp moved
    split at opened
    · cases opened
      exact tracked.open p task lookup flag mode ttyBusy
    · cases opened
  | close p fd =>
    cases moved
    exact tracked.close p fd
  | dup p fd arg =>
    cases moved
    exact tracked.dupfd p fd arg
  | dup2 p oldfd newfd =>
    cases moved
    exact (tracked.close p newfd).dupfd p oldfd newfd.val
  | setFlags p fd arg =>
    cases moved
    unfold setFlags
    split
    · exact tracked
    · exact tracked.setFile rfl (setFlags_accMode _ arg) rfl
  | lseek p fd pos =>
    obtain ⟨d, -, rfl⟩ := Option.map_eq_some_iff.mp moved
    exact tracked.setPos d.file pos
  | pipe p =>
    obtain ⟨task, -, rfl⟩ := Option.map_eq_some_iff.mp moved
    exact tracked.pipe p
  | fork p q =>
    obtain ⟨task, -, forked⟩ := Option.bind_eq_some_iff.mp moved
    split at forked
    · cases forked
      exact (tracked.copyFiles p q _).sameFiles rfl rfl
    · cases forked
  | exec p closed =>
    cases moved
    exact tracked.closeFiles p closed
  | exit p =>
    cases moved
    exact (tracked.closeFiles p _).sameFiles rfl rfl
  | read p fd count loaded =>
    cases moved
    unfold sysRead
    repeat' split
    any_goals exact tracked
    exact tracked.setPos _ _
  | write p fd buf room =>
    cases moved
    exact tracked.write p fd buf room
  | change i inode =>
    simp only [State.step] at moved
    split at moved
    · cases moved
      exact tracked.sameFiles rfl rfl
    · cases moved
  | setCred p task =>
    obtain ⟨old, -, rfl⟩ := Option.map_eq_some_iff.mp moved
    exact tracked.sameFiles rfl rfl

theorem init_tracked (inode : Nat → Inode) : (State.init inode).Tracked where
  counted f := by
    have none : number (refers f) (State.init inode).filp = 0 := number_eq_zero.mpr fun _ => rfl
    rw [none]
    exact Nat.zero_le _
  sound x d found := by cases found

end Tracked

/-! ## What reads and writes are granted -/

def State.writePos (s : State) (d : Descriptor) (i : Nat) : Nat :=
  if (s.file d.file).flags &&& O_APPEND ≠ 0 then (s.inode i).size else (s.file d.file).pos

def Inode.Alters (inode : Inode) (pos : Nat) (bytes : List UInt8) : Prop :=
  bytes ≠ [] ∧
    (inode.size < pos + bytes.length ∨ ∃ k < bytes.length, inode.data (pos + k) ≠ bytes.getD k 0)

/-- The `open` that the descriptor comes from asked for this use, and was allowed it. -/
def Descriptor.Granted (d : Descriptor) (asks : Word → Prop) (may : Origin → Bool) : Prop :=
  ∃ o, d.origin = some o ∧ asks o.flags ∧ may o = true

/-- A write that changes a regular file, or a read that returns some of its bytes,
goes through a descriptor that was granted it. -/
def State.UsesGranted (s : State) : Move → Prop
  | .write p fd buf room =>
    ∀ d i, s.filp (p, fd) = some d → (s.inode i).isReg = true →
      (sysWrite s p fd buf room).inode i ≠ s.inode i → d.Granted AsksWrite Origin.mayWrite
  | .read p fd count loaded =>
    ∀ d i, s.filp (p, fd) = some d → (s.file d.file).target = .inode i → (s.inode i).isReg = true →
      (sysRead s p fd count loaded).2 ≠ [] → d.Granted AsksRead Origin.mayRead
  | _ => True

/-- Writes to a regular file keep to the flags of the descriptor's file, and reads
do. Where `open_namei` did not look at the permission in question, the inode gave
it all the same. -/
def State.KeepsToFlags (s : State) : Move → Prop
  | .write p fd buf room =>
    ∀ d i, s.filp (p, fd) = some d → (s.file d.file).target = .inode i → (s.inode i).isReg = true →
      (s.inode i).Alters (s.writePos d i) (buf.take room) →
      AsksWrite (s.file d.file).flags ∧
        ∀ o, d.origin = some o → o.found ≠ .existing → o.mayWrite = true
  | .read p fd count loaded =>
    ∀ d i, s.filp (p, fd) = some d → (s.file d.file).target = .inode i → (s.inode i).isReg = true →
      0 < min count loaded → (s.file d.file).pos < (s.inode i).size →
      AsksRead (s.file d.file).flags ∧
        ∀ o, d.origin = some o → (o.found ≠ .existing ∨ Truncates o.flags) → o.mayRead = true
  | _ => True

theorem Inode.store_ne_iff {pos : Nat} {bytes : List UInt8} (some : bytes ≠ []) :
    inode.store pos bytes ≠ inode ↔ inode.Alters pos bytes := by
  rw [Inode.Alters, and_iff_right some, Ne, not_iff_comm, not_or, not_lt]
  simp only [not_exists, not_and, not_not]
  constructor
  · intro ⟨within, same⟩
    have sameData : (inode.store pos bytes).data = inode.data := by
      funext k
      simp only [Inode.store]
      split
      · next inside =>
        have here := same (k - pos) (by omega)
        rw [← here, Nat.add_sub_cancel' inside.1]
      · rfl
    have sameSize : (inode.store pos bytes).size = inode.size := max_eq_left within
    cases inode
    simp only [Inode.store, Inode.mk.injEq] at sameData sameSize ⊢
    exact ⟨trivial, trivial, trivial, trivial, trivial, sameSize, sameData⟩
  · intro same
    constructor
    · have sameSize : (inode.store pos bytes).size = inode.size := by rw [same]
      exact max_eq_left_iff.mp sameSize
    · intro k short
      have sameData : (inode.store pos bytes).data (pos + k) = inode.data (pos + k) := by rw [same]
      simp only [Inode.store] at sameData
      rw [if_pos (by omega), Nat.add_sub_cancel_left] at sameData
      exact sameData.symm

section Uses

variable {s s' : State} {p : Fin NR_TASKS} {fd : Fin NR_OPEN} {d : Descriptor} {i : Nat}

theorem sysWrite_inode (buf : List UInt8) (room : Nat) (found : s.filp (p, fd) = some d)
    (isReg : (s.inode i).isReg = true) :
    (sysWrite s p fd buf room).inode i ≠ s.inode i ↔
      (s.file d.file).target = .inode i ∧ (s.inode i).Alters (s.writePos d i) (buf.take room) := by
  cases target : (s.file d.file).target with
  | pipe => simp [sysWrite, found, target]
  | inode j =>
    by_cases same : j = i
    · subst same
      rw [and_iff_right rfl]
      by_cases noBytes : buf.take room = []
      · simp only [sysWrite, found, target, isReg, noBytes, Inode.Alters, if_true]
        simp
      · rw [← Inode.store_ne_iff noBytes]
        simp only [sysWrite, found, target, isReg, noBytes, if_true, if_false, State.writePos]
        split <;> simp only [State.setPos, update_self]
    · have other : (sysWrite s p fd buf room).inode i = s.inode i := by
        simp only [sysWrite, found, target]
        repeat' split
        all_goals simp only [State.setPos, update_of_ne (Ne.symm same)]
      have elsewhere : Target.inode j ≠ .inode i := by simpa using same
      exact iff_of_false (not_not.mpr other) fun both => elsewhere both.1

theorem sysRead_bytes (count loaded : Nat) (found : s.filp (p, fd) = some d)
    (target : (s.file d.file).target = .inode i) (isReg : (s.inode i).isReg = true) :
    (sysRead s p fd count loaded).2 ≠ [] ↔ 0 < min count loaded ∧ (s.file d.file).pos < (s.inode i).size := by
  simp only [sysRead, found, target, isReg, or_true, if_true, ne_eq, List.map_eq_nil_iff, List.range_eq_nil]
  omega

theorem granted_iff (tracked : s.Tracked) (found : s.filp (p, fd) = some d)
    (target : (s.file d.file).target = .inode i) (asks : Word → Prop) (may : Origin → Bool)
    (unchecked : Origin → Prop)
    (byMode : ∀ flags flags' : Word, flags &&& O_ACCMODE = flags' &&& O_ACCMODE → (asks flags ↔ asks flags'))
    (checked : ∀ o : Origin, o.Checked → asks o.flags → ¬unchecked o → may o = true) :
    d.Granted asks may ↔ asks (s.file d.file).flags ∧ ∀ o, d.origin = some o → unchecked o → may o = true := by
  have sound := tracked.sound _ _ found
  cases origin : d.origin with
  | none =>
    rw [origin] at sound
    cases target.symm.trans sound
  | some o =>
    rw [origin] at sound
    rw [Descriptor.Granted, byMode _ _ sound.1]
    constructor
    · rintro ⟨o', same, asked, allowed⟩
      rw [origin] at same
      cases same
      refine ⟨asked, ?_⟩
      rintro o' same -
      cases same
      exact allowed
    · rintro ⟨asked, allowed⟩
      refine ⟨o, origin, asked, ?_⟩
      by_cases looked : unchecked o
      · exact allowed o rfl looked
      · exact checked o sound.2 asked looked

theorem usesGranted_iff {m : Move} (tracked : s.Tracked) : s.UsesGranted m ↔ s.KeepsToFlags m := by
  cases m with
  | write p fd buf room =>
    refine forall_congr' fun d => forall_congr' fun i => forall_congr' fun found => ?_
    have grant (target : (s.file d.file).target = .inode i) :=
      granted_iff tracked found target AsksWrite Origin.mayWrite (fun o => o.found ≠ .existing)
        (fun flags flags' same => by rw [AsksWrite, same]; rfl)
        fun o checked asked looked => checked.write (not_not.mp looked) asked
    constructor
    · intro uses target isReg alters
      exact (grant target).mp (uses isReg ((sysWrite_inode buf room found isReg).mpr ⟨target, alters⟩))
    · intro keeps isReg changed
      obtain ⟨target, alters⟩ := (sysWrite_inode buf room found isReg).mp changed
      exact (grant target).mpr (keeps target isReg alters)
  | read p fd count loaded =>
    refine forall_congr' fun d => forall_congr' fun i => forall_congr' fun found =>
      forall_congr' fun target => forall_congr' fun isReg => ?_
    have grant :=
      granted_iff tracked found target AsksRead Origin.mayRead
        (fun o => o.found ≠ .existing ∨ Truncates o.flags) (fun flags flags' same => by rw [AsksRead, same]; rfl)
        fun o checked asked looked => by
          rw [not_or, not_not] at looked
          exact checked.read looked.1 asked looked.2
    rw [sysRead_bytes count loaded found target isReg, grant, and_imp]
  | _ => exact Iff.rfl

end Uses

/-- In a run, descriptors are used as their `open` was granted exactly as long as
all uses keep to the flags. -/
theorem usesGranted_iff_keepsToFlags (inode : Nat → Inode) (moves : List Move) :
    Throughout State.step State.UsesGranted (State.init inode) moves ↔
      Throughout State.step State.KeepsToFlags (State.init inode) moves :=
  throughout_congr State.Tracked.step (fun tracked _ => usesGranted_iff tracked) (init_tracked inode) moves

def readOnly : Inode :=
  { mode := S_IFREG ||| 0o444, uid := 0, gid := 0, dev := 1, nlinks := 1, size := 1, data := fun _ => 0 }

theorem write_through_readOnly :
    ¬Throughout State.step State.UsesGranted (State.init fun _ => readOnly)
      [.setCred ⟨0, by decide⟩ { euid := 5, egid := 5, groups := [], umask := 0 },
        .open ⟨0, by decide⟩ (.found (some 9)) O_RDONLY 0 false,
        .write ⟨0, by decide⟩ ⟨0, by decide⟩ [7] 1] := by
  intro throughout
  obtain ⟨-, -, granted, -⟩ : _ ∧ _ ∧ _ ∧ True :=
    (throughout _ rfl).imp_right fun later => (later _ rfl).imp_right fun last => last _ rfl
  obtain ⟨o, isOrigin, -, allowed⟩ := granted
    ⟨⟨0, by decide⟩, some ⟨O_RDONLY, .existing, true, false⟩⟩ 9 (by decide +kernel) (by decide +kernel)
    (fun same => by
      have data := congrFun (congrArg Inode.data same) 0
      revert data
      decide +kernel)
  cases isOrigin
  cases allowed

end Linux012.Fs.Descriptors

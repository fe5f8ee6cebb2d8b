import Linux012.Kernel.Signal

/-! System calls that a signal interrupts: what they return, and what
`ret_from_sys_call` and `do_signal` make of it before the task is back in user mode. -/

set_option autoImplicit false

namespace Linux012.Kernel.Restart

open Transition

/-- The calls that return a restart code, as far as they have come. -/
inductive Call where
  /-- asleep, with `oldblocked` -/
  | waitpid (oldblocked : Word)
  /-- asleep in `sys_pause` -/
  | sigsuspend
  | ttyRead
  | ttyWrite
  | readPipe

/-- The numbers of the calls in `sys_call_table`. -/
def Call.number : Call → Word
  | .ttyRead | .readPipe => 3
  | .ttyWrite => 4
  | .waitpid _ => 7
  | .sigsuspend => 72

/-- A call that is at label 2 of `system_call`: `eip` is where it was to return to, and
`number` what was called; `coded` tells that it returned a restart code. -/
structure Frame where
  regs : Regs
  number : Word
  eip : Word
  coded : Bool

inductive Mode where
  | user
  | inCall (call : Call) (regs : Regs)
  | returning (frame : Frame)

def Mode.frame : Mode → Option Frame
  | .returning frame => some frame
  | _ => none

structure Return where
  frame : Frame
  handled : Bool

structure State where
  tasks : Tasks
  mode : Fin NR_TASKS → Mode
  log : List Return

inductive Move where
  /-- `int $0x80` for a call that does not find what it waits for -/
  | waitpid (p : Fin NR_TASKS) (regs : Regs)
  | sigsuspend (p : Fin NR_TASKS) (restart oldMask set : Word) (regs : Regs)
  | ttyRead (p : Fin NR_TASKS) (regs : Regs)
  | ttyWrite (p : Fin NR_TASKS) (regs : Regs)
  | readPipe (p : Fin NR_TASKS) (regs : Regs)
  /-- the call goes on after a sleep, and finds a signal -/
  | interrupt (p : Fin NR_TASKS)
  /-- `tty_signal`, for a process in the background -/
  | ttySignal (p : Fin NR_TASKS) (orphaned : Bool)
  | finish (p : Fin NR_TASKS) (value : Word)
  /-- one pass from label 2 through `ret_from_sys_call` -/
  | round (p : Fin NR_TASKS)
  | send (q : Fin NR_TASKS) (sig : Nat)
  /-- a signal that the kernel only sets: `SIGALRM`, or `SIGCHLD` for a parent -/
  | post (q : Fin NR_TASKS) (sig : Nat)
  | sigaction (p : Fin NR_TASKS) (signum : Int) (action : Sigaction)
  | signal (p : Fin NR_TASKS) (signum : Int) (handler restorer : Word)
  | ssetmask (p : Fin NR_TASKS) (newmask : Word)

def isCode (value : Word) : Bool := value = -ERESTARTSYS || value = -ERESTARTNOINTR

def EIO : Word := 5

namespace State

def setMode (s : State) (p : Fin NR_TASKS) (mode : Mode) : State :=
  { s with mode := Function.update s.mode p mode }

def setTask (s : State) (p : Fin NR_TASKS) (task : Task) : State := { s with tasks := s.tasks.set p task }

def inUser (s : State) (p : Fin NR_TASKS) : Option Task :=
  match s.mode p with
  | .user => (s.tasks p).filter fun task => p.val ≠ 0 ∧ task.state = .running
  | _ => none

def enter (s : State) (p : Fin NR_TASKS) (task : Task) (call : Call) (regs : Regs) : State :=
  (s.setTask p task).setMode p (.inCall call regs)

def result (s : State) (p : Fin NR_TASKS) (call : Call) (regs : Regs) (value : Word) : State :=
  s.setMode p (.returning
    { regs := { regs with eax := value, origEax := call.number }
      number := call.number
      eip := regs.eip
      coded := isCode value })

/-- What a call returns that goes on after a sleep and looks at the signals. -/
def interrupt (s : State) (p : Fin NR_TASKS) (task : Task) (regs : Regs) : Call → Option State
  | .waitpid oldblocked =>
    if task.signal &&& ~~~(oldblocked ||| bit SIGCHLD) ≠ 0 then
      some ((s.setTask p { task with blocked := oldblocked }).result p (.waitpid oldblocked) regs (-ERESTARTSYS))
    else none
  | .sigsuspend => some (s.result p .sigsuspend regs (-ERESTARTNOINTR))
  | .ttyWrite => none
  | call =>
    if task.signal &&& ~~~task.blocked ≠ 0 then some (s.result p call regs (-ERESTARTSYS)) else none

/-- `kill_pg` reaches the caller; the other processes of its group get their signal in
moves of their own. -/
def ttySignal (s : State) (p : Fin NR_TASKS) (task : Task) (call : Call) (regs : Regs) (sig : Nat)
    (orphaned : Bool) : State :=
  if orphaned then s.result p call regs (- EIO)
  else
    let task := task.send sig
    let s := s.setTask p task
    if task.blocked &&& bit sig ≠ 0 ∨ (task.action sig).handler = 1 then s.result p call regs (- EIO)
    else if (task.action sig).handler ≠ 0 then s.result p call regs (-EINTR)
    else s.result p call regs (-ERESTARTSYS)

def iret (s : State) (p : Fin NR_TASKS) (frame : Frame) (handled : Bool) : State :=
  { s.setMode p .user with log := if frame.coded then ⟨frame, handled⟩ :: s.log else s.log }

/-- What follows `do_signal`, which returns 0 if a handler is to run. -/
def deliver (s : State) (p : Fin NR_TASKS) (task : Task) (frame : Frame) : Delivery → State
  | .handled => (s.setTask p task).iret p frame true
  | .ignored => (s.setTask p task).setMode p (.returning frame)
  | .stopped => { s.setMode p (.returning frame) with tasks := (s.tasks.set p task).tellParent task.parent }
  | .exit code => { s.setMode p .user with tasks := s.tasks.exit p task code }

def round (s : State) (p : Fin NR_TASKS) (task : Task) (frame : Frame) : State :=
  match task.pending with
  | none => s.iret p frame false
  | some signr =>
    let done := { task with signal := task.signal &&& ~~~bit signr }.doSignal signr frame.regs
    s.deliver p done.1 { frame with regs := done.2.1 } done.2.2

def step (s : State) : Move → Option State
  | .waitpid p regs => (s.inUser p).map fun task =>
    s.enter p { task with blocked := task.blocked &&& ~~~bit SIGCHLD } (.waitpid task.blocked) regs
  | .sigsuspend p restart oldMask set regs => (s.inUser p).map fun task =>
    let task' := task.sigsuspend restart oldMask set
    if restart ≠ 0 then (s.setTask p task').result p .sigsuspend regs (-EINTR)
    else s.enter p task' .sigsuspend regs
  | .ttyRead p regs => (s.inUser p).map fun task => s.enter p task .ttyRead regs
  | .ttyWrite p regs => (s.inUser p).map fun task => s.enter p task .ttyWrite regs
  | .readPipe p regs => (s.inUser p).map fun task => s.enter p task .readPipe regs
  | .interrupt p =>
    match s.mode p, s.tasks p with
    | .inCall call regs, some task => s.interrupt p task regs call
    | _, _ => none
  | .ttySignal p orphaned =>
    match s.mode p, s.tasks p with
    | .inCall .ttyRead regs, some task => some (s.ttySignal p task .ttyRead regs SIGTTIN orphaned)
    | .inCall .ttyWrite regs, some task => some (s.ttySignal p task .ttyWrite regs SIGTTOU orphaned)
    | _, _ => none
  | .finish p value =>
    match s.mode p, s.tasks p with
    | .inCall .sigsuspend _, _ => none
    | .inCall (.waitpid oldblocked) regs, some task =>
      if isCode value then none
      else some ((s.setTask p { task with blocked := oldblocked }).result p (.waitpid oldblocked) regs value)
    | .inCall call regs, some _ => if isCode value then none else some (s.result p call regs value)
    | _, _ => none
  | .round p =>
    match s.mode p, s.tasks p with
    | .returning frame, some task => if task.state = .running then some (s.round p task frame) else none
    | _, _ => none
  | .send q sig => (s.tasks q).bind fun task =>
    if 1 ≤ sig ∧ sig ≤ 32 then some (s.setTask q (task.send sig)) else none
  | .post q sig => (s.tasks q).map fun task => s.setTask q { task with signal := task.signal ||| bit sig }
  | .sigaction p signum action => (s.inUser p).map fun task => s.setTask p (task.setSigaction signum action)
  | .signal p signum handler restorer =>
    (s.inUser p).map fun task => s.setTask p (task.signalHandler signum handler restorer)
  | .ssetmask p newmask => (s.inUser p).map fun task => s.setTask p (task.ssetmask newmask)

end State

/-! ## What reaches user mode -/

namespace Frame

def Restarts (frame : Frame) : Prop := frame.regs.eax = frame.number ∧ frame.regs.eip = frame.eip - 2

def Converted (frame : Frame) : Prop :=
  frame.regs.eax = -EINTR ∧ frame.regs.eip = frame.eip ∨ frame.Restarts

def InHandler (frame : Frame) : Prop :=
  ∃ front eax ecx edx eflags eip rest, frame.regs.stack = front ++ [eax, ecx, edx, eflags, eip] ++ rest ∧
    front.length ≤ 3 ∧ (eax = -EINTR ∧ eip = frame.eip ∨ eax = frame.number ∧ eip = frame.eip - 2)

structure OnWay (frame : Frame) : Prop where
  orig : frame.regs.origEax = frame.number
  known : ∃ call : Call, frame.number = call.number
  result : isCode frame.regs.eax = true ∧ frame.regs.eip = frame.eip ∨ frame.Converted

end Frame

def Return.Clean (r : Return) : Prop := if r.handled then r.frame.InHandler else r.frame.Restarts

def State.Clean (s : State) : Prop := ∀ r ∈ s.log, r.Clean

def State.Restartable (s : State) : Move → Prop
  | .round p => ∀ task ∈ s.tasks p, ∀ frame ∈ (s.mode p).frame,
      task.state = .running ∧ frame.coded = true ∧ task.pending = none → frame.regs.eax = frame.number
  | _ => True

instance restartableDecidable (s : State) (m : Move) : Decidable (s.Restartable m) :=
  match m with
  | .round p => inferInstanceAs (Decidable (∀ task ∈ s.tasks p, ∀ frame ∈ (s.mode p).frame,
      task.state = .running ∧ frame.coded = true ∧ task.pending = none → frame.regs.eax = frame.number))
  | .waitpid .. | .sigsuspend .. | .ttyRead .. | .ttyWrite .. | .readPipe .. | .interrupt .. | .ttySignal ..
  | .finish .. | .send .. | .post .. | .sigaction .. | .signal .. | .ssetmask .. => isTrue trivial

structure State.Good (s : State) : Prop where
  clean : s.Clean
  onWay : ∀ p frame, s.mode p = .returning frame → frame.coded = true → frame.OnWay

theorem number_not_code (call : Call) : isCode call.number = false ∧ call.number ≠ -EINTR ∧ call.number ≠ -1 := by
  cases call <;> simp only [Call.number] <;> decide

namespace Frame

variable {frame : Frame}

theorem OnWay.converted (onWay : frame.OnWay) (action : Sigaction) (signr : Nat) :
    { frame with regs := Kernel.restart action signr frame.regs }.Converted := by
  obtain ⟨orig, ⟨call, known⟩, result⟩ := onWay
  obtain ⟨notCode, -, valid⟩ := number_not_code call
  rw [← known] at notCode valid
  have unchanged (notCode : isCode frame.regs.eax = false) : Kernel.restart action signr frame.regs = frame.regs := by
    simp only [isCode, Bool.or_eq_false_iff, decide_eq_false_iff_not] at notCode
    rw [Kernel.restart, if_neg fun coded => coded.2.elim notCode.1 notCode.2]
  rcases result with ⟨isCode', same⟩ | ⟨interrupted, same⟩ | ⟨again, back⟩
  · have coded : frame.regs.origEax ≠ -1 ∧ (frame.regs.eax = -ERESTARTSYS ∨ frame.regs.eax = -ERESTARTNOINTR) := by
      refine ⟨orig ▸ valid, ?_⟩
      simpa [isCode] using isCode'
    rw [Kernel.restart, if_pos coded]
    split
    · exact .inl ⟨rfl, same⟩
    · exact .inr ⟨orig, congrArg (· - 2) same⟩
  · rw [unchanged (by rw [interrupted]; decide)]
    exact .inl ⟨interrupted, same⟩
  · rw [unchanged (again ▸ notCode)]
    exact .inr ⟨again, back⟩

theorem OnWay.restart (onWay : frame.OnWay) (action : Sigaction) (signr : Nat) :
    { frame with regs := Kernel.restart action signr frame.regs }.OnWay := by
  refine ⟨?_, onWay.known, .inr (onWay.converted action signr)⟩
  have same : (Kernel.restart action signr frame.regs).origEax = frame.regs.origEax := by
    rw [Kernel.restart]
    split
    · split <;> rfl
    · rfl
  exact same.trans onWay.orig

theorem OnWay.restarts (onWay : frame.OnWay) (again : frame.regs.eax = frame.number) : frame.Restarts := by
  obtain ⟨-, ⟨call, known⟩, result⟩ := onWay
  obtain ⟨notCode, notInterrupted, -⟩ := number_not_code call
  rw [← known] at notCode notInterrupted
  rcases result with ⟨isCode', -⟩ | ⟨interrupted, -⟩ | restarts
  · rw [again, notCode] at isCode'
    cases isCode'
  · exact absurd (again.symm.trans interrupted) notInterrupted
  · exact restarts

end Frame

theorem regs_doSignal (task : Task) (signr : Nat) (regs : Regs) {regs' : Regs}
    (restarted : restart (task.action signr) signr regs = regs') :
    ((task.doSignal signr regs).2.2 ≠ .handled ∧ (task.doSignal signr regs).2.1 = regs') ∨
      (task.doSignal signr regs).2.2 = .handled ∧ ∃ front, front.length ≤ 3 ∧
        (task.doSignal signr regs).2.1 = { regs' with
          eip := (task.action signr).handler
          stack := front ++ [regs'.eax, regs'.ecx, regs'.edx, regs'.eflags, regs'.eip] ++ regs'.stack } := by
  simp only [Task.doSignal, restarted]
  by_cases ignored : (task.action signr).handler = 1
  · rw [if_pos ignored]
    exact .inl ⟨by simp, rfl⟩
  rw [if_neg ignored]
  by_cases default : (task.action signr).handler = 0
  · rw [if_pos default]
    refine .inl ?_
    split
    · exact ⟨by simp, rfl⟩
    · split
      · exact ⟨by simp, rfl⟩
      · exact ⟨by simp, rfl⟩
  · rw [if_neg default]
    refine .inr ⟨rfl, [(task.action signr).restorer, BitVec.ofNat 32 signr] ++
      if (task.action signr).flags &&& SA_NOMASK = 0 then [task.blocked] else [], ?_, rfl⟩
    split <;> simp

namespace State

variable {s s' : State} {p : Fin NR_TASKS}

@[simp] theorem mode_setMode_self (mode : Mode) : (s.setMode p mode).mode p = mode := Function.update_self ..

theorem mode_setMode_of_ne (mode : Mode) {q : Fin NR_TASKS} (other : q ≠ p) : (s.setMode p mode).mode q = s.mode q :=
  Function.update_of_ne other ..

namespace Good

theorem setTasks (good : s.Good) (tasks : Tasks) : { s with tasks }.Good := ⟨good.clean, good.onWay⟩

theorem setTask (good : s.Good) (p : Fin NR_TASKS) (task : Task) : (s.setTask p task).Good := good.setTasks _

theorem setMode (good : s.Good) {mode : Mode}
    (onWay : ∀ frame, mode = .returning frame → frame.coded = true → frame.OnWay) : (s.setMode p mode).Good := by
  refine ⟨good.clean, fun q frame isMode coded => ?_⟩
  by_cases now : q = p
  · subst now
    rw [mode_setMode_self] at isMode
    exact onWay frame isMode coded
  · rw [mode_setMode_of_ne mode now] at isMode
    exact good.onWay q frame isMode coded

theorem enter (good : s.Good) (task : Task) (call : Call) (regs : Regs) : (s.enter p task call regs).Good :=
  (good.setTask p task).setMode (by simp)

theorem result (good : s.Good) (call : Call) (regs : Regs) (value : Word) : (s.result p call regs value).Good := by
  refine good.setMode fun frame isFrame coded => ?_
  cases isFrame
  exact ⟨rfl, ⟨call, rfl⟩, .inl ⟨coded, rfl⟩⟩

variable {frame : Frame}

theorem iret (good : s.Good) {handled : Bool} (clean : frame.coded = true → Return.Clean ⟨frame, handled⟩) :
    (s.iret p frame handled).Good := by
  have user : (s.setMode p .user).Good := good.setMode (by simp)
  refine ⟨fun r logged => ?_, user.onWay⟩
  rw [State.iret] at logged
  cases coded : frame.coded with
  | false => exact good.clean r (by simpa [coded] using logged)
  | true =>
    simp only [coded, if_true, List.mem_cons] at logged
    rcases logged with rfl | before
    · exact clean coded
    · exact good.clean r before

theorem interrupt (good : s.Good) {task : Task} {regs : Regs} {call : Call}
    (interrupted : s.interrupt p task regs call = some s') : s'.Good := by
  cases call with
  | waitpid oldblocked =>
    simp only [State.interrupt, Option.ite_none_right_eq_some, Option.some.injEq] at interrupted
    exact interrupted.2 ▸ (good.setTask p _).result _ regs _
  | sigsuspend =>
    simp only [State.interrupt, Option.some.injEq] at interrupted
    exact interrupted ▸ good.result _ regs _
  | ttyWrite => cases interrupted
  | ttyRead | readPipe =>
    simp only [State.interrupt, Option.ite_none_right_eq_some, Option.some.injEq] at interrupted
    exact interrupted.2 ▸ good.result _ regs _

theorem ttySignal (good : s.Good) (task : Task) (call : Call) (regs : Regs) (sig : Nat) (orphaned : Bool) :
    (s.ttySignal p task call regs sig orphaned).Good := by
  rw [State.ttySignal]
  split
  · exact good.result call regs _
  · have sent := good.setTask p (task.send sig)
    dsimp only
    split
    · exact sent.result call regs _
    · split
      · exact sent.result call regs _
      · exact sent.result call regs _

theorem deliver (good : s.Good) (task : Task) {delivery : Delivery}
    (onWay : delivery ≠ .handled → frame.coded = true → frame.OnWay)
    (inHandler : delivery = .handled → frame.coded = true → frame.InHandler) :
    (s.deliver p task frame delivery).Good := by
  have returning (other : delivery ≠ .handled) (frame' : Frame) (same : Mode.returning frame = .returning frame')
      (coded : frame'.coded = true) : frame'.OnWay := by
    cases same
    exact onWay other coded
  cases delivery with
  | handled => exact (good.setTask p task).iret (inHandler rfl)
  | ignored => exact (good.setTask p task).setMode (returning (by simp))
  | stopped => exact (good.setMode (returning (by simp))).setTasks _
  | exit code => exact (good.setMode (by simp)).setTasks _

theorem round (good : s.Good) {task : Task} (isTask : s.tasks p = some task)
    (isMode : s.mode p = .returning frame) (running : task.state = .running)
    (restartable : s.Restartable (.round p)) : (s.round p task frame).Good := by
  rw [State.round]
  cases pending : task.pending with
  | none =>
    refine good.iret fun coded => ?_
    exact (good.onWay p frame isMode coded).restarts
      (restartable task isTask frame (isMode ▸ rfl) ⟨running, coded, pending⟩)
  | some signr =>
    let taken : Task := { task with signal := task.signal &&& ~~~bit signr }
    have done := regs_doSignal taken signr frame.regs rfl
    refine good.deliver _ (fun other coded => ?_) fun handled coded => ?_
    · have same := (done.resolve_right fun entered => other entered.1).2
      have onWay := (good.onWay p frame isMode coded).restart (taken.action signr) signr
      exact same ▸ onWay
    · obtain ⟨front, short, same⟩ := (done.resolve_left fun left => left.1 handled).2
      have converted := (good.onWay p frame isMode coded).converted (taken.action signr) signr
      exact ⟨front, _, _, _, _, _, _, congrArg Regs.stack same, short, converted⟩

theorem step {m : Move} (good : s.Good) (restartable : s.Restartable m) (moved : s.step m = some s') : s'.Good := by
  cases m with
  | waitpid p regs | ttyRead p regs | ttyWrite p regs | readPipe p regs =>
    obtain ⟨task, -, rfl⟩ := Option.map_eq_some_iff.mp moved
    exact good.enter _ _ regs
  | sigsuspend p restart oldMask set regs =>
    obtain ⟨task, -, rfl⟩ := Option.map_eq_some_iff.mp moved
    dsimp only
    split
    · exact (good.setTask p _).result _ regs _
    · exact good.enter _ _ regs
  | interrupt p =>
    simp only [State.step] at moved
    split at moved
    · exact good.interrupt moved
    · cases moved
  | ttySignal p orphaned =>
    simp only [State.step] at moved
    split at moved
    · cases moved
      exact good.ttySignal _ _ _ _ _
    · cases moved
      exact good.ttySignal _ _ _ _ _
    · cases moved
  | finish p value =>
    simp only [State.step] at moved
    split at moved
    · cases moved
    · simp only [Option.ite_none_left_eq_some, Option.some.injEq] at moved
      exact moved.2 ▸ (good.setTask p _).result _ _ _
    · simp only [Option.ite_none_left_eq_some, Option.some.injEq] at moved
      exact moved.2 ▸ good.result _ _ _
    · cases moved
  | round p =>
    simp only [State.step] at moved
    split at moved
    · next frame task isMode isTask =>
      simp only [Option.ite_none_right_eq_some, Option.some.injEq] at moved
      obtain ⟨running, rfl⟩ := moved
      exact good.round isTask isMode running restartable
    · cases moved
  | send q sig =>
    obtain ⟨task, -, sent⟩ := Option.bind_eq_some_iff.mp moved
    simp only [Option.ite_none_right_eq_some, Option.some.injEq] at sent
    exact sent.2 ▸ good.setTask q _
  | post q sig | sigaction p signum action | signal p signum handler restorer | ssetmask p newmask =>
    obtain ⟨task, -, rfl⟩ := Option.map_eq_some_iff.mp moved
    exact good.setTask _ _

theorem broken {m : Move} (restartable : ¬s.Restartable m) (moved : s.step m = some s') : ¬s'.Clean := by
  cases m with
  | round p =>
    simp only [Restartable, not_forall] at restartable
    obtain ⟨task, isTask, frame, isFrame, ⟨running, coded, pending⟩, differ⟩ := restartable
    have isMode : s.mode p = .returning frame := by
      cases mode : s.mode p <;> simp_all [Mode.frame]
    rw [Option.mem_def] at isTask
    simp only [State.step, isMode, isTask, if_pos running, Option.some.injEq] at moved
    subst moved
    intro clean
    have logged : ⟨frame, false⟩ ∈ (s.round p task frame).log := by
      simp [State.round, pending, State.iret, coded]
    exact differ (clean _ logged).1
  | waitpid | sigsuspend | ttyRead | ttyWrite | readPipe | interrupt | ttySignal | finish | send | post | sigaction
  | signal | ssetmask => exact absurd trivial restartable

end Good

def Initial (s : State) : Prop := (∀ p, s.mode p = .user) ∧ s.log = []

theorem Initial.good (initial : s.Initial) : s.Good := by
  refine ⟨fun r logged => ?_, fun p frame isMode => ?_⟩
  · rw [initial.2] at logged
    cases logged
  · rw [initial.1] at isMode
    cases isMode

theorem clean_iff_restartable (initial : s.Initial) (moves : List Move) :
    Always step Clean s moves ↔ Throughout step Restartable s moves :=
  always_iff_of_good (fun good => good.clean) (fun good => good.step) (fun _ => Good.broken) initial.good moves

def alone : State where
  tasks := fun p =>
    if p.val = 1 then some ⟨.running, 0, 0, 0, fun _ => ⟨0, 0, 0, 0⟩, ⟨0, NR_TASKS_pos⟩, none⟩ else none
  mode := fun _ => .user
  log := []

def one : Fin NR_TASKS := ⟨1, one_lt_NR_TASKS⟩

def stopped : List Move :=
  [.readPipe one ⟨0, 0, 0, 0, 100, 0, []⟩, .send one SIGTSTP, .interrupt one, .round one, .send one SIGCONT,
    .round one, .round one]

theorem stopped_clean : Always step Clean alone stopped := by
  refine (clean_iff_restartable ⟨fun _ => rfl, rfl⟩ stopped).mpr ?_
  exact throughout_of_checked (by decide +kernel)

def cancelled : List Move :=
  [.signal one 18 1 0, .readPipe one ⟨0, 0, 0, 0, 100, 0, []⟩, .send one SIGTSTP, .interrupt one,
    .send one SIGCONT, .round one]

theorem restart_code_returned : ∃ s r, run step alone cancelled = some s ∧ r ∈ s.log ∧
    r.frame.regs.eax = -ERESTARTSYS ∧ ¬r.Clean := by
  obtain ⟨s, ran, found⟩ := exists_of_run step alone cancelled
    (fun s => s.log.any fun r => !r.handled && r.frame.regs.eax = -ERESTARTSYS && r.frame.number = 3)
    (by decide +kernel)
  obtain ⟨r, logged, isCode⟩ := List.any_eq_true.mp found
  simp only [Bool.and_eq_true, Bool.not_eq_true', decide_eq_true_eq] at isCode
  obtain ⟨⟨unhandled, code⟩, number⟩ := isCode
  refine ⟨s, r, ran, logged, code, fun clean => ?_⟩
  rw [Return.Clean, unhandled] at clean
  have same := code.symm.trans (clean.1.trans number)
  exact absurd same (by decide)

end State

end Linux012.Kernel.Restart

import Linux012.Fs.BufferProcess

/-! What one step of a process can do, case by case. The invariants of the
buffer cache are proved from these cases and never unfold the step function. -/

set_option autoImplicit false

namespace Linux012.Fs

open BlkDrv Function

/-- `ll_rw_block` reads buffers without valid contents and writes dirty ones. -/
def Cache.Needs (c : Cache) (rw cmd bh : Nat) : Prop :=
  cmd = READ ∧ c.uptodate bh = false ∧ rw ≠ WRITE ∨ cmd = WRITE ∧ c.dirt bh = true

/-! ## The heads a process is about -/

def Value.heads : Value → List Nat
  | .unit | .null => []
  | .buffer _ _ bh _ => [bh]

def Control.heads : Control → List Nat
  | .user held => held
  | .getHashTable _ _ | .getblk _ _ | .starved _ _ | .syncDev _ _ _ | .sysSync _ => []
  | .hashWait _ _ bh | .victimWait _ _ bh | .llRwBlock _ bh | .requestWait _ bh => [bh]
  | .breadWait _ _ bh | .breadaLoop _ _ bh _ | .brelse bh | .syncDevWait _ _ bh => [bh]
  | .ret value => value.heads

def Caller.heads : Caller → List Nat
  | .user held => held
  | .getblk _ _ | .bread _ _ | .breadFail | .breada _ _ _ => []
  | .syncDevNext _ _ _ | .sysSyncNext _ | .inodesSyncDev _ | .inodesSysSync => []
  | .getblkSync _ _ bh | .breadRead _ _ bh | .breadaRead _ _ bh _ | .breadaTmp _ _ bh _ => [bh]
  | .breadaAhead _ _ bh tmp _ => [bh, tmp]

def stackHeads : List Caller → List Nat
  | [] => []
  | caller :: stack => caller.heads ++ stackHeads stack

def Process.heads (proc : Process) : List Nat := proc.control.heads ++ stackHeads proc.stack

section Machine

variable (driver : Nat → Bool)

/-- How `ll_rw_block(rw, bh)` ends without having slept in `lock_buffer`. -/
inductive Submits (c : Cache) (rw bh : Nat) : Cache → Control → Prop where
  | skip : Submits c rw bh c (.ret .unit)
  | queue {cmd slot : Nat} :
      major (c.dev bh) < NR_BLK_DEV → driver (major (c.dev bh)) = true → c.lock bh = false →
      c.Needs rw cmd bh →
      (c.request slot).dev < 0 →
      Submits c rw bh ((c.setLock bh true).enqueue slot cmd bh) (.ret .unit)
  | wait {cmd : Nat} :
      major (c.dev bh) < NR_BLK_DEV → driver (major (c.dev bh)) = true → c.lock bh = false →
      c.Needs rw cmd bh →
      Submits c rw bh (c.setLock bh true) (.requestWait cmd bh)

inductive Moves (c : Cache) : Process → Cache → Process → Prop where
  | hit {dev block bh : Nat} {stack : List Caller} : c.findBuffer dev block = some bh →
      Moves c ⟨.getHashTable dev block, stack⟩ (c.incCount bh) ⟨.hashWait dev block bh, stack⟩
  | miss {dev block : Nat} {stack : List Caller} :
      Moves c ⟨.getHashTable dev block, stack⟩ c ⟨.ret .null, stack⟩
  | search {dev block : Nat} {stack : List Caller} :
      Moves c ⟨.getblk dev block, stack⟩ c ⟨.getHashTable dev block, .getblk dev block :: stack⟩
  | hashHit {dev block bh : Nat} {stack : List Caller} : c.dev bh = dev → c.blocknr bh = block →
      Moves c ⟨.hashWait dev block bh, stack⟩ c ⟨.ret (.buffer dev block bh false), stack⟩
  | hashMiss {dev block bh : Nat} {stack : List Caller} :
      Moves c ⟨.hashWait dev block bh, stack⟩ (c.decCount bh) ⟨.getHashTable dev block, stack⟩
  | wake {dev block : Nat} {stack : List Caller} :
      Moves c ⟨.starved dev block, stack⟩ c ⟨.getblk dev block, stack⟩
  | victimLost {dev block bh : Nat} {stack : List Caller} :
      Moves c ⟨.victimWait dev block bh, stack⟩ c ⟨.getblk dev block, stack⟩
  | victimDirty {dev block bh : Nat} {stack : List Caller} :
      Moves c ⟨.victimWait dev block bh, stack⟩ c
        ⟨.syncDev (c.dev bh) false 0, .getblkSync dev block bh :: stack⟩
  | victimTake {dev block bh : Nat} {stack : List Caller} : c.lock bh = false → c.count bh = 0 →
      c.dirt bh = false → c.findBuffer dev block = none →
      Moves c ⟨.victimWait dev block bh, stack⟩ (c.take bh dev block)
        ⟨.ret (.buffer dev block bh false), stack⟩
  | submit {rw bh : Nat} {stack : List Caller} {c' : Cache} {control : Control} :
      Submits driver c rw bh c' control → Moves c ⟨.llRwBlock rw bh, stack⟩ c' ⟨control, stack⟩
  | requestFound {rw bh slot : Nat} {stack : List Caller} : (c.request slot).dev < 0 →
      Moves c ⟨.requestWait rw bh, stack⟩ (c.enqueue slot rw bh) ⟨.ret .unit, stack⟩
  | breadDone {dev block bh : Nat} {stack : List Caller} : c.lock bh = false → c.uptodate bh = true →
      Moves c ⟨.breadWait dev block bh, stack⟩ c ⟨.ret (.buffer dev block bh true), stack⟩
  | breadFails {dev block bh : Nat} {stack : List Caller} : c.lock bh = false →
      Moves c ⟨.breadWait dev block bh, stack⟩ c ⟨.brelse bh, .breadFail :: stack⟩
  | aheadEnd {dev block bh : Nat} {stack : List Caller} :
      Moves c ⟨.breadaLoop dev block bh [], stack⟩ c ⟨.breadWait dev block bh, stack⟩
  | aheadNext {dev block bh first : Nat} {rest : List Nat} {stack : List Caller} :
      Moves c ⟨.breadaLoop dev block bh (first :: rest), stack⟩ c
        ⟨.getblk dev first, .breadaTmp dev block bh rest :: stack⟩
  | released {bh : Nat} {stack : List Caller} : c.count bh ≠ 0 →
      Moves c ⟨.brelse bh, stack⟩ (c.decCount bh) ⟨.ret .unit, stack⟩
  | syncDevVisit {dev i : Nat} {again : Bool} {stack : List Caller} : i < c.nrBuffers →
      Moves c ⟨.syncDev dev again i, stack⟩ c ⟨.syncDevWait dev again i, stack⟩
  | syncDevSkip {dev i : Nat} {again : Bool} {stack : List Caller} :
      Moves c ⟨.syncDev dev again i, stack⟩ c ⟨.syncDev dev again (i + 1), stack⟩
  | syncDevEnd {dev i : Nat} {stack : List Caller} :
      Moves c ⟨.syncDev dev true i, stack⟩ c ⟨.ret .unit, stack⟩
  | syncDevInodes {dev i : Nat} {stack : List Caller} :
      Moves c ⟨.syncDev dev false i, stack⟩ c ⟨.user [], .inodesSyncDev dev :: stack⟩
  | syncDevWrite {dev i : Nat} {again : Bool} {stack : List Caller} {c' : Cache} {control : Control} :
      Submits driver c WRITE i c' control →
      Moves c ⟨.syncDevWait dev again i, stack⟩ c' ⟨control, .syncDevNext dev again i :: stack⟩
  | syncDevPass {dev i : Nat} {again : Bool} {stack : List Caller} :
      Moves c ⟨.syncDevWait dev again i, stack⟩ c ⟨.syncDev dev again (i + 1), stack⟩
  | sysSyncWrite {i : Nat} {stack : List Caller} {c' : Cache} {control : Control} :
      i < c.nrBuffers → Submits driver c WRITE i c' control →
      Moves c ⟨.sysSync i, stack⟩ c' ⟨control, .sysSyncNext i :: stack⟩
  | sysSyncPass {i : Nat} {stack : List Caller} :
      Moves c ⟨.sysSync i, stack⟩ c ⟨.sysSync (i + 1), stack⟩
  | sysSyncEnd {i : Nat} {stack : List Caller} :
      Moves c ⟨.sysSync i, stack⟩ c ⟨.ret .unit, stack⟩
  -- returns
  | toUserBuffer {dev block bh : Nat} {wasRead : Bool} {held : List Nat} {stack : List Caller} :
      Moves c ⟨.ret (.buffer dev block bh wasRead), .user held :: stack⟩ c ⟨.user (bh :: held), stack⟩
  | toUser {value : Value} {held : List Nat} {stack : List Caller} :
      (∀ dev block bh wasRead, value ≠ .buffer dev block bh wasRead) →
      Moves c ⟨.ret value, .user held :: stack⟩ c ⟨.user held, stack⟩
  | toGetblkFound {dev' block' dev block bh : Nat} {wasRead : Bool} {stack : List Caller} :
      Moves c ⟨.ret (.buffer dev' block' bh wasRead), .getblk dev block :: stack⟩ c
        ⟨.ret (.buffer dev block bh false), stack⟩
  | starve {value : Value} {dev block : Nat} {stack : List Caller} :
      (∀ dev block bh wasRead, value ≠ .buffer dev block bh wasRead) →
      Moves c ⟨.ret value, .getblk dev block :: stack⟩ c ⟨.starved dev block, stack⟩
  | pick {value : Value} {dev block bh : Nat} {stack : List Caller} :
      (∀ dev block bh wasRead, value ≠ .buffer dev block bh wasRead) →
      c.scanFree c.nrBuffers c.freeList none = some bh →
      Moves c ⟨.ret value, .getblk dev block :: stack⟩ c ⟨.victimWait dev block bh, stack⟩
  | toGetblkSynced {value : Value} {dev block bh : Nat} {stack : List Caller} :
      Moves c ⟨.ret value, .getblkSync dev block bh :: stack⟩ c ⟨.victimWait dev block bh, stack⟩
  | toBreadCached {dev' block' dev block bh : Nat} {wasRead : Bool} {stack : List Caller} :
      c.uptodate bh = true →
      Moves c ⟨.ret (.buffer dev' block' bh wasRead), .bread dev block :: stack⟩ c
        ⟨.ret (.buffer dev block bh true), stack⟩
  | toBreadRead {dev' block' dev block bh : Nat} {wasRead : Bool} {stack : List Caller} :
      Moves c ⟨.ret (.buffer dev' block' bh wasRead), .bread dev block :: stack⟩ c
        ⟨.llRwBlock READ bh, .breadRead dev block bh :: stack⟩
  | toBreadWait {value : Value} {dev block bh : Nat} {stack : List Caller} :
      Moves c ⟨.ret value, .breadRead dev block bh :: stack⟩ c ⟨.breadWait dev block bh, stack⟩
  | toNull {value : Value} {caller : Caller} {stack : List Caller} :
      (caller = .breadFail ∨ ((∃ dev block, caller = .bread dev block) ∨
        ∃ dev block ahead, caller = .breada dev block ahead) ∧
          ∀ dev block bh wasRead, value ≠ .buffer dev block bh wasRead) →
      Moves c ⟨.ret value, caller :: stack⟩ c ⟨.ret .null, stack⟩
  | toBreadaCached {dev' block' dev block bh : Nat} {wasRead : Bool} {ahead : List Nat}
      {stack : List Caller} :
      Moves c ⟨.ret (.buffer dev' block' bh wasRead), .breada dev block ahead :: stack⟩ c
        ⟨.breadaLoop dev block bh ahead, stack⟩
  | toBreadaRead {dev' block' dev block bh : Nat} {wasRead : Bool} {ahead : List Nat}
      {stack : List Caller} :
      Moves c ⟨.ret (.buffer dev' block' bh wasRead), .breada dev block ahead :: stack⟩ c
        ⟨.llRwBlock READ bh, .breadaRead dev block bh ahead :: stack⟩
  | toBreadaLoop {value : Value} {dev block bh : Nat} {ahead : List Nat} {stack : List Caller} :
      Moves c ⟨.ret value, .breadaRead dev block bh ahead :: stack⟩ c
        ⟨.breadaLoop dev block bh ahead, stack⟩
  | tmpCached {dev' block' dev block bh tmp : Nat} {wasRead : Bool} {ahead : List Nat}
      {stack : List Caller} :
      Moves c ⟨.ret (.buffer dev' block' tmp wasRead), .breadaTmp dev block bh ahead :: stack⟩
        (c.decCount tmp) ⟨.breadaLoop dev block bh ahead, stack⟩
  | tmpAhead {dev' block' dev block bh tmp : Nat} {wasRead : Bool} {ahead : List Nat}
      {stack : List Caller} :
      Moves c ⟨.ret (.buffer dev' block' tmp wasRead), .breadaTmp dev block bh ahead :: stack⟩ c
        ⟨.llRwBlock READA bh, .breadaAhead dev block bh tmp ahead :: stack⟩
  | tmpNone {value : Value} {dev block bh : Nat} {ahead : List Nat} {stack : List Caller} :
      (∀ dev block bh wasRead, value ≠ .buffer dev block bh wasRead) →
      Moves c ⟨.ret value, .breadaTmp dev block bh ahead :: stack⟩ c
        ⟨.breadaLoop dev block bh ahead, stack⟩
  | aheadDone {value : Value} {dev block bh tmp : Nat} {ahead : List Nat} {stack : List Caller} :
      Moves c ⟨.ret value, .breadaAhead dev block bh tmp ahead :: stack⟩ (c.decCount tmp)
        ⟨.breadaLoop dev block bh ahead, stack⟩
  | toSyncDev {value : Value} {caller : Caller} {dev i : Nat} {again : Bool} {stack : List Caller} :
      (∃ j, caller = .syncDevNext dev again j) ∨ caller = .inodesSyncDev dev →
      Moves c ⟨.ret value, caller :: stack⟩ c ⟨.syncDev dev again i, stack⟩
  | toSysSync {value : Value} {caller : Caller} {i : Nat} {stack : List Caller} :
      (∃ j, caller = .sysSyncNext j) ∨ caller = .inodesSysSync →
      Moves c ⟨.ret value, caller :: stack⟩ c ⟨.sysSync i, stack⟩
  -- outside the cache
  | callGetHashTable {held : List Nat} {dev block : Nat} {stack : List Caller} :
      Moves c ⟨.user held, stack⟩ c ⟨.getHashTable dev block, .user held :: stack⟩
  | callGetblk {held : List Nat} {dev block : Nat} {stack : List Caller} :
      Moves c ⟨.user held, stack⟩ c ⟨.getblk dev block, .user held :: stack⟩
  | callBread {held : List Nat} {dev block : Nat} {stack : List Caller} :
      Moves c ⟨.user held, stack⟩ c ⟨.getblk dev block, .bread dev block :: .user held :: stack⟩
  | callBreada {held : List Nat} {dev block : Nat} {ahead : List Nat} {stack : List Caller} :
      Moves c ⟨.user held, stack⟩ c
        ⟨.getblk dev block, .breada dev block ahead :: .user held :: stack⟩
  | callBrelse {held : List Nat} {bh : Nat} {stack : List Caller} : bh ∈ held →
      Moves c ⟨.user held, stack⟩ c ⟨.brelse bh, .user (held.erase bh) :: stack⟩
  | modify {held : List Nat} {bh : Nat} {change : Block → Block} {stack : List Caller} : bh ∈ held →
      Moves c ⟨.user held, stack⟩ ((c.write bh change).setDirt bh) ⟨.user held, stack⟩
  | mark {held : List Nat} {bh : Nat} {stack : List Caller} : bh ∈ held →
      Moves c ⟨.user held, stack⟩ (c.setDirt bh) ⟨.user held, stack⟩
  | store {held : List Nat} {bh : Nat} {offset : Fin BLOCK_SIZE} {byte : UInt8} {stack : List Caller} :
      bh ∈ held →
      Moves c ⟨.user held, stack⟩ (c.writeByte bh offset byte) ⟨.user held, stack⟩
  | clear {held : List Nat} {bh : Nat} {stack : List Caller} : bh ∈ held → c.count bh = 1 →
      Moves c ⟨.user held, stack⟩ (c.clearBlock bh) ⟨.user held, stack⟩
  | callSysSync {held : List Nat} {stack : List Caller} :
      Moves c ⟨.user held, stack⟩ c ⟨.user [], .inodesSysSync :: .user held :: stack⟩
  | callSyncDev {held : List Nat} {dev : Nat} {stack : List Caller} :
      Moves c ⟨.user held, stack⟩ c ⟨.syncDev dev false 0, .user held :: stack⟩
  | inodesEndDev {dev : Nat} {stack : List Caller} :
      Moves c ⟨.user [], .inodesSyncDev dev :: stack⟩ c ⟨.syncDev dev true 0, stack⟩
  | inodesEnd {stack : List Caller} :
      Moves c ⟨.user [], .inodesSysSync :: stack⟩ c ⟨.sysSync 0, stack⟩

variable {driver}

variable {c : Cache}

theorem Cache.findRequest_free {limit slot : Nat} (found : c.findRequest limit = some slot) :
    (c.request slot).dev < 0 := by
  induction limit with
  | zero => cases found
  | succ req ih =>
    simp only [findRequest] at found
    split at found
    · next free =>
        cases found
        exact free
    · exact ih found

variable {bh : Nat}

theorem Cache.setLock_setLock (open_ : c.lock bh = false) : (c.setLock bh true).setLock bh false = c := by
  have same : update (update c.lock bh true) bh false = c.lock := by
    rw [update_idem, ← open_, update_eq_self]
  simp only [setLock, same]

variable {c' : Cache} {control : Control}

theorem makeRequest_submits {rw cmd : Nat} {ahead : Bool} (near : major (c.dev bh) < NR_BLK_DEV)
    (served : driver (major (c.dev bh)) = true) (unlocked : c.lock bh = false) (needed : c.Needs rw cmd bh)
    (result : makeRequest (c.setLock bh true) cmd bh ahead = (c', control)) :
    Submits driver c rw bh c' control := by
  unfold makeRequest at result
  cases search : (c.setLock bh true).findRequest (Cache.requestLimit cmd) with
  | some slot =>
    rw [search] at result
    cases result
    exact .queue near served unlocked needed (Cache.findRequest_free (c := c.setLock bh true) search)
  | none =>
    rw [search] at result
    cases ahead with
    | true =>
      cases result
      rw [Cache.setLock_setLock unlocked]
      exact .skip
    | false =>
      cases result
      exact .wait near served unlocked needed

theorem llRwBlock_submits {rw : Nat} (result : llRwBlock driver c rw bh = some (c', control)) :
    Submits driver c rw bh c' control := by
  unfold llRwBlock at result
  simp only at result
  generalize command : (if rw = READA then READ else if rw = WRITEA then WRITE else rw) = cmd at result
  generalize decide (rw = READA ∨ rw = WRITEA) = ahead at result
  split at result
  · cases result
    exact .skip
  · next near =>
    rw [not_or, not_not, Nat.not_le] at near
    split at result
    · cases result
      exact .skip
    · split at result
      · cases result
      · next known =>
        split at result
        · cases result
        · next unlocked =>
          have unlocked : c.lock bh = false := by simpa using unlocked
          split at result
          · cases result
            exact .skip
          · next needed =>
            have needs : c.Needs rw cmd bh := by
              have isRead : cmd = READ → rw ≠ WRITE := by
                rintro rfl rfl
                revert command
                decide
              rw [not_or] at needed
              by_cases reads : cmd = READ
              · exact .inl ⟨reads, by simpa [reads] using needed.2, isRead reads⟩
              · have writes : cmd = WRITE := by tauto
                exact .inr ⟨writes, by simpa [writes] using needed.1⟩
            cases result' : makeRequest (c.setLock bh true) cmd bh ahead with
            | mk c₁ control₁ =>
              rw [result'] at result
              cases result
              exact makeRequest_submits near.1 near.2 unlocked needs result'

variable {stack : List Caller}

theorem pickVictim_moves {value : Value} {dev block : Nat}
    (missing : ∀ dev block bh wasRead, value ≠ .buffer dev block bh wasRead) :
    Moves driver c ⟨.ret value, .getblk dev block :: stack⟩ c ⟨pickVictim c dev block, stack⟩ := by
  unfold pickVictim
  cases search : c.scanFree c.nrBuffers c.freeList none with
  | none => exact .starve missing
  | some bh => exact .pick missing search

theorem resume_moves (c : Cache) (value : Value) (caller : Caller) (stack : List Caller) :
    Moves driver c ⟨.ret value, caller :: stack⟩ (resume c value caller).1
      ⟨(resume c value caller).2.1, (resume c value caller).2.2 ++ stack⟩ := by
  cases caller with
  | user held =>
    cases value with
    | unit | null => exact .toUser nofun
    | buffer dev block bh wasRead => exact .toUserBuffer
  | getblk dev block =>
    cases value with
    | unit | null => exact pickVictim_moves nofun
    | buffer dev' block' bh wasRead => exact .toGetblkFound
  | getblkSync dev block bh => exact .toGetblkSynced
  | bread dev block =>
    cases value with
    | unit | null => exact .toNull (.inr ⟨.inl ⟨_, _, rfl⟩, nofun⟩)
    | buffer dev' block' bh wasRead =>
      simp only [resume]
      split
      · next valid => exact .toBreadCached valid
      · exact .toBreadRead
  | breadRead dev block bh => exact .toBreadWait
  | breadFail => exact .toNull (.inl rfl)
  | breada dev block ahead =>
    cases value with
    | unit | null => exact .toNull (.inr ⟨.inr ⟨_, _, _, rfl⟩, nofun⟩)
    | buffer dev' block' bh wasRead =>
      simp only [resume]
      split
      · exact .toBreadaCached
      · exact .toBreadaRead
  | breadaRead dev block bh ahead => exact .toBreadaLoop
  | breadaTmp dev block bh ahead =>
    cases value with
    | unit | null => exact .tmpNone nofun
    | buffer dev' block' tmp wasRead =>
      simp only [resume]
      split
      · exact .tmpCached
      · exact .tmpAhead
  | breadaAhead dev block bh tmp ahead => exact .aheadDone
  | syncDevNext dev again i => exact .toSyncDev (.inl ⟨i, rfl⟩)
  | sysSyncNext i => exact .toSysSync (.inl ⟨i, rfl⟩)
  | inodesSyncDev dev => exact .toSyncDev (.inr rfl)
  | inodesSysSync => exact .toSysSync (.inr rfl)

theorem advance_moves {control' : Control} {callers : List Caller}
    (moved : advance driver c control = some (c', control', callers)) :
    Moves driver c ⟨control, stack⟩ c' ⟨control', callers ++ stack⟩ := by
  cases control with
  | user held | ret value => cases moved
  | getHashTable dev block =>
    simp only [advance] at moved
    split at moved
    · next found =>
        cases moved
        exact .hit found
    · cases moved
      exact .miss
  | hashWait dev block bh =>
    simp only [advance] at moved
    split at moved
    · cases moved
    · split at moved
      · next same =>
          cases moved
          exact .hashHit same.1 same.2
      · cases moved
        exact .hashMiss
  | getblk dev block =>
    cases moved
    exact .search
  | starved dev block =>
    cases moved
    exact .wake
  | victimWait dev block bh =>
    simp only [advance] at moved
    split at moved
    · cases moved
    · next unlocked =>
      split at moved
      · cases moved
        exact .victimLost
      · next unused =>
        split at moved
        · cases moved
          exact .victimDirty
        · next clean =>
          split at moved
          · cases moved
            exact .victimLost
          · next absent =>
            cases moved
            exact .victimTake (by simpa using unlocked) (by simpa using unused)
              (by simpa using clean) (by simpa using absent)
  | llRwBlock rw bh =>
    simp only [advance, Option.map_eq_some_iff] at moved
    obtain ⟨⟨c₁, control₁⟩, submitted, same⟩ := moved
    cases same
    exact .submit (llRwBlock_submits submitted)
  | requestWait rw bh =>
    simp only [advance, makeRequest] at moved
    cases search : c.findRequest (Cache.requestLimit rw) with
    | none =>
      rw [search] at moved
      cases moved
    | some slot =>
      rw [search] at moved
      cases moved
      exact .requestFound (Cache.findRequest_free search)
  | breadWait dev block bh =>
    simp only [advance] at moved
    split at moved
    · cases moved
    · next unlocked =>
      have unlocked : c.lock bh = false := by simpa using unlocked
      split at moved
      · next valid =>
          cases moved
          exact .breadDone unlocked valid
      · cases moved
        exact .breadFails unlocked
  | breadaLoop dev block bh ahead =>
    cases ahead with
    | nil =>
      cases moved
      exact .aheadEnd
    | cons first rest =>
      cases moved
      exact .aheadNext
  | brelse bh =>
    simp only [advance] at moved
    split at moved
    · cases moved
    · split at moved
      · cases moved
      · next used =>
          cases moved
          exact .released used
  | syncDev dev again i =>
    simp only [advance] at moved
    split at moved
    · next inside =>
      split at moved
      · cases moved
        exact .syncDevVisit inside
      · cases moved
        exact .syncDevSkip
    · split at moved
      · next second =>
          cases moved
          subst second
          exact .syncDevEnd
      · next first =>
          cases moved
          cases Bool.eq_false_iff.2 first
          exact .syncDevInodes
  | syncDevWait dev again i =>
    simp only [advance] at moved
    split at moved
    · cases moved
    · split at moved
      · rw [Option.map_eq_some_iff] at moved
        obtain ⟨⟨c₁, control₁⟩, submitted, same⟩ := moved
        cases same
        exact .syncDevWrite (llRwBlock_submits submitted)
      · cases moved
        exact .syncDevPass
  | sysSync i =>
    simp only [advance] at moved
    split at moved
    · next inside =>
      split at moved
      · cases moved
      · split at moved
        · rw [Option.map_eq_some_iff] at moved
          obtain ⟨⟨c₁, control₁⟩, submitted, same⟩ := moved
          cases same
          exact .sysSyncWrite inside (llRwBlock_submits submitted)
        · cases moved
          exact .sysSyncPass
    · cases moved
      exact .sysSyncEnd

theorem begin_moves {held : List Nat} {stack' : List Caller} {act : Act}
    (moved : begin c held stack act = some (c', control, stack')) :
    Moves driver c ⟨.user held, stack⟩ c' ⟨control, stack'⟩ := by
  cases act with
  | getHashTable dev block =>
    cases moved
    exact .callGetHashTable
  | getblk dev block =>
    cases moved
    exact .callGetblk
  | bread dev block =>
    cases moved
    exact .callBread
  | breada dev block ahead =>
    cases moved
    exact .callBreada
  | brelse bh =>
    simp only [begin, Option.ite_none_right_eq_some] at moved
    cases moved.2
    exact .callBrelse moved.1
  | modify bh change =>
    simp only [begin, Option.ite_none_right_eq_some] at moved
    cases moved.2
    exact .modify moved.1
  | mark bh =>
    simp only [begin, Option.ite_none_right_eq_some] at moved
    cases moved.2
    exact .mark moved.1
  | store bh offset byte =>
    simp only [begin, Option.ite_none_right_eq_some] at moved
    cases moved.2
    exact .store moved.1
  | clear bh =>
    simp only [begin, Option.ite_none_right_eq_some] at moved
    cases moved.2
    exact .clear moved.1.1 moved.1.2
  | sysSync =>
    cases moved
    exact .callSysSync
  | syncDev dev =>
    cases moved
    exact .callSyncDev
  | returnInodes =>
    simp only [begin] at moved
    split at moved
    · cases moved
      exact .inodesEndDev
    · cases moved
      exact .inodesEnd
    · cases moved

def Move.actor : Move → Option (Fin NR_TASKS)
  | .advance p => some p
  | .begin p _ => some p
  | .complete _ => none

variable {p : Fin NR_TASKS} {m : Move} {s s' : System}

theorem System.step_moves (actor : m.actor = some p) (moved : s.step driver m = some s') :
    ∃ proc, Moves driver s.cache (s.process p) s'.cache proc ∧ s'.process = update s.process p proc := by
  cases m with
  | advance q =>
    cases actor
    simp only [step] at moved
    split at moved
    · next value caller stack control callers =>
        cases moved
        have before : s.process p = ⟨.ret value, caller :: stack⟩ := by
          rw [← control, ← callers]
        exact ⟨_, before ▸ resume_moves s.cache value caller stack, rfl⟩
    · rw [Option.map_eq_some_iff] at moved
      obtain ⟨⟨c₁, control₁, callers₁⟩, advanced, same⟩ := moved
      cases same
      exact ⟨_, advance_moves advanced, rfl⟩
  | begin q act =>
    cases actor
    simp only [step] at moved
    split at moved
    · next held control =>
        rw [Option.map_eq_some_iff] at moved
        obtain ⟨⟨c₁, control₁, callers₁⟩, began, same⟩ := moved
        cases same
        have before : s.process p = ⟨.user held, (s.process p).stack⟩ := by
          rw [← control]
        rw [before]
        exact ⟨_, begin_moves began, rfl⟩
    · cases moved
  | complete line => cases actor

theorem System.step_complete {line : Nat} (moved : s.step driver (.complete line) = some s') :
    s.cache.queue line ≠ [] ∧ s' = { s with cache := s.cache.endRequest line } := by
  simp only [step] at moved
  split at moved
  · cases moved
  · next busy =>
      cases moved
      exact ⟨busy, rfl⟩

theorem System.step_advance (moved : s.step driver (.advance p) = some s') (held : List Nat) :
    (s.process p).control ≠ .user held := by
  intro outside
  simp only [step] at moved
  split at moved
  · next value caller stack control callers =>
      rw [outside] at control
      cases control
  · rw [outside] at moved
    cases moved

theorem System.step_begin {act : Act} (moved : s.step driver (.begin p act) = some s') :
    ∃ held control stack, (s.process p).control = .user held ∧
      Fs.begin s.cache held (s.process p).stack act = some (s'.cache, control, stack) ∧
      s'.process = update s.process p ⟨control, stack⟩ := by
  simp only [step] at moved
  split at moved
  · next held outside =>
      rw [Option.map_eq_some_iff] at moved
      obtain ⟨⟨c, control, stack⟩, began, same⟩ := moved
      cases same
      exact ⟨held, control, stack, outside, began, rfl⟩
  · cases moved

theorem System.step_return {value : Value} {held : List Nat}
    (here : s.process p = ⟨.ret value, .user held :: stack⟩) (moved : s.step driver (.advance p) = some s') :
    s'.cache = s.cache ∧ ∃ held', s'.process p = ⟨.user held', stack⟩ := by
  simp only [System.step, here] at moved
  cases moved
  cases value <;> exact ⟨rfl, _, update_self _ _ _⟩

theorem System.step_cases (moved : s.step driver m = some s') :
    (∃ p proc, Moves driver s.cache (s.process p) s'.cache proc ∧ s'.process = update s.process p proc) ∨
    ∃ line, s.cache.queue line ≠ [] ∧ s' = { s with cache := s.cache.endRequest line } := by
  cases actor : m.actor with
  | some p =>
    obtain ⟨proc, moves, after⟩ := System.step_moves actor moved
    exact .inl ⟨p, proc, moves, after⟩
  | none =>
    cases m with
    | advance p | begin p act => cases actor
    | complete line => exact .inr ⟨line, System.step_complete moved⟩

theorem System.step_forall {Q : Process → Prop} (moved : s.step driver m = some s')
    (others : ∀ q, Q (s.process q)) (mine : ∀ p proc, Moves driver s.cache (s.process p) s'.cache proc → Q proc)
    (q : Fin NR_TASKS) : Q (s'.process q) := by
  rcases System.step_cases moved with ⟨p, proc, moves, after⟩ | ⟨line, _, rfl⟩
  · rw [after]
    by_cases same : q = p
    · rw [same, update_self]
      exact mine p proc moves
    · rw [update_of_ne same]
      exact others q
  · exact others q

def Process.waits (proc : Process) : Option (Nat × Nat) :=
  match proc.control with
  | .requestWait rw bh => some (rw, bh)
  | _ => none

theorem Submits.heads {rw : Nat} (submitted : Submits driver c rw bh c' control) : control.heads ⊆ [bh] := by
  cases submitted with
  | skip | queue near served unlocked needed free => exact List.nil_subset _
  | wait near served unlocked needed => exact List.Subset.refl _

/-- What a step can do to the cache, with the request the process that moves
waits for before and after it. -/
inductive Changes (c : Cache) : Option (Nat × Nat) → Cache → Option (Nat × Nat) → Prop where
  | same : Changes c none c none
  | incCount (bh : Nat) : Changes c none (c.incCount bh) none
  | decCount (bh : Nat) : Changes c none (c.decCount bh) none
  | take (bh dev block : Nat) : bh < c.nrBuffers → c.lock bh = false → c.count bh = 0 →
      c.dirt bh = false → c.findBuffer dev block = none → Changes c none (c.take bh dev block) none
  | lock (rw cmd bh : Nat) : bh < c.nrBuffers → c.lock bh = false → c.Needs rw cmd bh →
      Changes c none (c.setLock bh true) (some (cmd, bh))
  | queue (rw slot cmd bh : Nat) : bh < c.nrBuffers → c.lock bh = false → c.Needs rw cmd bh →
      (c.request slot).dev < 0 → Changes c none ((c.setLock bh true).enqueue slot cmd bh) none
  | enqueue (slot rw bh : Nat) : bh < c.nrBuffers → (c.request slot).dev < 0 →
      Changes c (some (rw, bh)) (c.enqueue slot rw bh) none
  | modify (bh : Nat) (change : Block → Block) : bh < c.nrBuffers →
      Changes c none ((c.write bh change).setDirt bh) none
  | mark (bh : Nat) : bh < c.nrBuffers → Changes c none (c.setDirt bh) none
  | store (bh : Nat) (offset : Fin BLOCK_SIZE) (byte : UInt8) : bh < c.nrBuffers →
      Changes c none (c.writeByte bh offset byte) none
  | clear (bh : Nat) : bh < c.nrBuffers → Changes c none (c.clearBlock bh) none
  | complete (line : Nat) : c.queue line ≠ [] → Changes c none (c.endRequest line) none

theorem Submits.changes {rw : Nat} (inside : bh < c.nrBuffers) (submitted : Submits driver c rw bh c' control) :
    Changes c none c' (Process.waits ⟨control, stack⟩) := by
  cases submitted with
  | skip => exact .same
  | queue near served unlocked needed free => exact .queue _ _ _ _ inside unlocked needed free
  | wait near served unlocked needed => exact .lock _ _ _ inside unlocked needed

theorem Moves.changes {proc proc' : Process} (moved : Moves driver c proc c' proc')
    (inside : ∀ h ∈ proc.heads, h < c.nrBuffers) : Changes c proc.waits c' proc'.waits := by
  have top : ∀ h ∈ proc.control.heads, h < c.nrBuffers := fun h member => inside h (List.mem_append_left _ member)
  cases moved with
  | hit found => exact .incCount _
  | hashMiss | released used | tmpCached | aheadDone => exact .decCount _
  | victimTake unlocked unused clean absent =>
    exact .take _ _ _ (top _ (.head _)) unlocked unused clean absent
  | submit submitted | syncDevWrite submitted => exact submitted.changes (top _ (.head _))
  | sysSyncWrite here submitted => exact submitted.changes here
  | requestFound free => exact .enqueue _ _ _ (top _ (.head _)) free
  | modify holds => exact .modify _ _ (top _ holds)
  | mark holds => exact .mark _ (top _ holds)
  | store holds => exact .store _ _ _ (top _ holds)
  | clear holds alone => exact .clear _ (top _ holds)
  | _ => exact .same

theorem System.step_changes (inside : ∀ p, ∀ h ∈ (s.process p).heads, h < s.cache.nrBuffers)
    (moved : s.step driver m = some s') : ∃ waits waits', Changes s.cache waits s'.cache waits' := by
  rcases System.step_cases moved with ⟨p, proc, moves, _⟩ | ⟨line, busy, rfl⟩
  · exact ⟨_, _, moves.changes (inside p)⟩
  · exact ⟨_, _, .complete line busy⟩

end Machine

end Linux012.Fs

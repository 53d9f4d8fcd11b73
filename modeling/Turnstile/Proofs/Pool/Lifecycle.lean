import Turnstile.Proofs.Pool.Progress

/-!
How a pool comes to be closed and stopped. Whoever shuts it down, from outside or
from within a job, its phase goes forward only, and it is stopped by a caller from
outside that finds every worker joined, each of them once.
-/

namespace Turnstile.Pool

inductive Thread
  | worker (index : Nat)
  | caller (index : Nat)
  deriving DecidableEq, Repr

def Thread.seat : Thread → Seat
  | .worker _ => .worker
  | .caller _ => .outside

structure Change where
  thread : Thread
  old : Phase
  new : Phase
  deriving DecidableEq

structure Chronicle where
  changes : List Change := []
  /-- Shutdowns that have passed their first part, with the phase they left the pool in. -/
  closings : List (Thread × Phase) := []
  /-- Shutdowns that came back, with the phase they left the pool in. -/
  returns : List (Thread × Phase) := []
  /-- Who has joined which worker. -/
  joins : List (Thread × Nat) := []
  /-- How pushes were answered once a shutdown had passed its first part. -/
  lateAnswers : List (Except Rejection Unit) := []

namespace Chronicle

def addChange (chronicle : Chronicle) (thread : Thread) (old new : Phase) : Chronicle :=
  if old = new then chronicle
  else { chronicle with changes := chronicle.changes ++ [⟨thread, old, new⟩] }

@[simp] theorem addChange_self (chronicle : Chronicle) (thread : Thread) (phase : Phase) :
    chronicle.addChange thread phase phase = chronicle :=
  if_pos rfl

def addStage (chronicle : Chronicle) (thread : Thread) (pool : Pool Question) (phase : Phase) :
    Stage Question → Stage Question → Chronicle
  | .ready (.submit job _), _ =>
      if chronicle.closings.isEmpty then chronicle
      else { chronicle with lateAnswers := chronicle.lateAnswers ++ [(pool.enter job).1] }
  | .ready (.shutdown _), _ =>
      { chronicle with closings := chronicle.closings ++ [(thread, phase)] }
  | .closing _, .ready _ | .awaiting _, .ready _ | .joining _, .ready _ =>
      { chronicle with returns := chronicle.returns ++ [(thread, phase)] }
  | .joining _, .joining _ =>
      { chronicle with
        joins := chronicle.joins ++ (pool.unjoined.take 1).map fun worker => (thread, worker) }
  | _, _ => chronicle

end Chronicle

def Worker.stage? : Worker Question → Option (Stage Question)
  | .working stage => some stage
  | _ => none

namespace System

def stage? (system : System Question) : Thread → Option (Stage Question)
  | .worker index => system.pool.workers[index]?.bind Worker.stage?
  | .caller index => system.callers[index]?

def Move.thread? : Move Question → Option Thread
  | .worker _ index | .answerWorker index _ => some (.worker index)
  | .caller _ index | .answerCaller index _ => some (.caller index)
  | .call _ | .wake _ => none

def chronicleStep (before after : System Question) (thread : Thread) (chronicle : Chronicle) :
    Chronicle :=
  let changed := chronicle.addChange thread before.pool.phase after.pool.phase
  match before.stage? thread, after.stage? thread with
  | some stage, some next => changed.addStage thread before.pool after.pool.phase stage next
  | _, _ => changed

def chronicleMove (system : System Question) (move : Move Question) (chronicle : Chronicle) :
    Chronicle :=
  match move.thread?, step? system move with
  | some thread, some after => chronicleStep system after thread chronicle
  | _, _ => chronicle

def chronicle (first : System Question) (moves : List (Move Question)) : Chronicle :=
  Steps.history step? chronicleMove {} first moves

end System

def Phase.path : Phase → List (Phase × Phase)
  | .running => []
  | .shuttingDown => [(.running, .shuttingDown)]
  | .stopped => [(.running, .shuttingDown), (.shuttingDown, .stopped)]

theorem Phase.path_isPrefix (phase : Phase) :
    phase.path <+: [(.running, .shuttingDown), (.shuttingDown, .stopped)] := by
  cases phase <;> decide

def Change.phases (change : Change) : Phase × Phase := (change.old, change.new)

def logged (pool : Pool Question) (p : LogRecord → Bool) : Nat := pool.log.toList.countP p

end Turnstile.Pool

namespace Turnstile.LogRecord

def isPoolShuttingDown : LogRecord → Bool
  | .poolShuttingDown _ => true
  | _ => false

def isPoolStopped : LogRecord → Bool
  | .poolStopped .. => true
  | _ => false

end Turnstile.LogRecord

namespace Turnstile.Pool

theorem logged_emit (pool : Pool Question) (record : LogRecord) (p : LogRecord → Bool) :
    (pool.emit record).logged p = pool.logged p + (p record).toNat := by
  simp only [logged, emit, Array.toList_push, List.countP_append, List.countP_singleton]
  cases p record <;> rfl

/-- What a shutdown keeps to, where so many threads are somewhere in one. -/
structure Chronicled (config : PoolConfig) (pool : Pool Question) (shutdowns : Nat)
    (chronicle : Chronicle) : Prop where
  changes_eq : chronicle.changes.map Change.phases = pool.phase.path
  closings_iff : chronicle.closings ≠ [] ↔ pool.phase ≠ .running
  closings_closed : ∀ closing ∈ chronicle.closings, closing.2 ≠ .running
  closed : 0 < shutdowns → pool.phase ≠ .running
  joins_eq : chronicle.joins.map Prod.snd ++ pool.unjoined = List.range config.workers
  joined_outside : ∀ join ∈ chronicle.joins, ∃ index, join.1 = .caller index
  stopped_outside : ∀ change ∈ chronicle.changes, change.new = .stopped →
    ∃ index, change.thread = .caller index
  unjoined_eq : pool.phase = .stopped → pool.unjoined = []
  returned_outside : ∀ index phase, (.caller index, phase) ∈ chronicle.returns →
    phase = .stopped ∧ pool.phase = .stopped
  returned_worker : ∀ index phase, (.worker index, phase) ∈ chronicle.returns → phase ≠ .running
  refused_late : ∀ answer ∈ chronicle.lateAnswers, answer = .error .shuttingDown
  closing_logged : pool.logged LogRecord.isPoolShuttingDown =
    (decide (pool.phase ≠ .running)).toNat
  stop_logged : pool.logged LogRecord.isPoolStopped = (decide (pool.phase = .stopped)).toNat

namespace Chronicled

variable {config : PoolConfig} {pool after left : Pool Question} {shutdowns later : Nat}
  {chronicle : Chronicle} {seat : Seat} {chosen index : Nat} {stage next : Stage Question}
  {old new : Worker Question} {thread : Thread}

theorem start (config : PoolConfig) :
    Chronicled config (Pool.start config : Pool Question) 0 {} where
  changes_eq := rfl
  closings_iff := by simp [Pool.start]
  closings_closed := fun _ hmem => absurd hmem List.not_mem_nil
  closed := fun hpos => absurd hpos (Nat.lt_irrefl 0)
  joins_eq := rfl
  joined_outside := fun _ hmem => absurd hmem List.not_mem_nil
  stopped_outside := fun _ hmem => absurd hmem List.not_mem_nil
  unjoined_eq := nofun
  returned_outside := fun _ _ hmem => absurd hmem List.not_mem_nil
  returned_worker := fun _ _ hmem => absurd hmem List.not_mem_nil
  refused_late := fun _ hmem => absurd hmem List.not_mem_nil
  closing_logged := by
    simp [logged, Pool.start, List.countP_map, Function.comp_def, LogRecord.isPoolShuttingDown]
  stop_logged := by
    simp [logged, Pool.start, List.countP_map, Function.comp_def, LogRecord.isPoolStopped]

theorem frame (h : Chronicled config pool shutdowns chronicle) (hphase : after.phase = pool.phase)
    (hunjoined : after.unjoined = pool.unjoined)
    (hclosing : after.logged LogRecord.isPoolShuttingDown =
      pool.logged LogRecord.isPoolShuttingDown)
    (hstop : after.logged LogRecord.isPoolStopped = pool.logged LogRecord.isPoolStopped)
    (hfewer : later ≤ shutdowns) : Chronicled config after later chronicle :=
  { h with
    changes_eq := hphase ▸ h.changes_eq
    closings_iff := hphase ▸ h.closings_iff
    closed := fun hpos => hphase ▸ h.closed (Nat.lt_of_lt_of_le hpos hfewer)
    joins_eq := hunjoined ▸ h.joins_eq
    unjoined_eq := fun hstopped => hunjoined ▸ h.unjoined_eq (hphase ▸ hstopped)
    returned_outside := hphase ▸ h.returned_outside
    closing_logged := by rw [hclosing, hphase, h.closing_logged]
    stop_logged := by rw [hstop, hphase, h.stop_logged] }

theorem closings_eq_nil (h : Chronicled config pool shutdowns chronicle)
    (hopen : pool.phase = .running) : chronicle.closings = [] :=
  Classical.not_not.mp fun hne => h.closings_iff.mp hne hopen

theorem push (h : Chronicled config pool shutdowns chronicle) (thread : Thread)
    (job : Routine Question) (rest : Except Rejection Unit → Routine Question)
    (next : Stage Question) :
    Chronicled config pool shutdowns
      (chronicle.addStage thread pool pool.phase (.ready (.submit job rest)) next) := by
  simp only [Chronicle.addStage]
  split
  · exact h
  · rename_i hclosings
    have hclosed := h.closings_iff.mp fun hnil => hclosings (List.isEmpty_iff.mpr hnil)
    refine { h with refused_late := ?_ }
    intro answer hmem
    rcases List.mem_append.mp hmem with hold | hnew
    · exact h.refused_late answer hold
    · rw [List.mem_singleton.mp hnew, enter, if_pos hclosed]

theorem close (h : Chronicled config pool shutdowns chronicle) (later : Nat) (thread : Thread)
    (rest : Routine Question) (next : Stage Question) :
    Chronicled config pool.close later
      ((chronicle.addChange thread pool.phase pool.close.phase).addStage thread pool
        pool.close.phase (.ready (.shutdown rest)) next) := by
  have hclosings {phase : Phase} (hphase : phase ≠ .running) :
      ∀ closing ∈ chronicle.closings ++ [(thread, phase)], closing.2 ≠ .running := by
    intro closing hmem
    rcases List.mem_append.mp hmem with hold | hnew
    · exact h.closings_closed closing hold
    · rw [List.mem_singleton.mp hnew]
      exact hphase
  rcases Decidable.em (pool.phase = .running) with hopen | hclosed
  · have hclose : pool.close =
        { pool with phase := .shuttingDown }.emit (.poolShuttingDown pool.queue.length) :=
      if_pos hopen
    have hpath := h.changes_eq
    have hshutting := h.closing_logged
    have hstopped := h.stop_logged
    rw [hopen] at hpath hshutting hstopped
    rw [hclose, hopen]
    exact {
      changes_eq := by
        change (chronicle.changes ++ [_]).map Change.phases = _
        rw [List.map_append, hpath]
        rfl
      closings_iff := by simp [Chronicle.addStage, emit]
      closings_closed := hclosings nofun
      closed := fun _ => nofun
      joins_eq := h.joins_eq
      joined_outside := h.joined_outside
      stopped_outside := by
        intro change hmem hnew
        rcases List.mem_append.mp hmem with hold | hlast
        · exact h.stopped_outside change hold hnew
        · rw [List.mem_singleton.mp hlast] at hnew
          cases hnew
      unjoined_eq := nofun
      returned_outside := by
        intro index phase hmem
        have hstopped := (h.returned_outside index phase hmem).2
        rw [hopen] at hstopped
        cases hstopped
      returned_worker := h.returned_worker
      refused_late := h.refused_late
      closing_logged := by
        rw [logged_emit]
        exact congrArg (· + 1) hshutting
      stop_logged := by
        rw [logged_emit]
        exact hstopped }
  · have hclose : pool.close = pool := if_neg hclosed
    rw [hclose, Chronicle.addChange_self]
    exact { h with
      closings_iff := by simp [Chronicle.addStage, hclosed]
      closings_closed := hclosings hclosed
      closed := fun _ => hclosed }

theorem join {first : Nat} {rest : List Nat} (h : Chronicled config pool shutdowns chronicle)
    (caller : Nat) (following : Routine Question)
    (hunjoined : pool.unjoined = first :: rest) (hfewer : later ≤ shutdowns) :
    Chronicled config { pool with unjoined := rest } later
      (chronicle.addStage (.caller caller) pool pool.phase (.joining following)
        (.joining following)) := by
  have hjoins := h.joins_eq
  rw [hunjoined, List.append_cons] at hjoins
  exact { h with
    closed := fun hpos => h.closed (Nat.lt_of_lt_of_le hpos hfewer)
    joins_eq := by
      simp only [Chronicle.addStage, hunjoined, List.map_append]
      exact hjoins
    joined_outside := by
      intro join hmem
      simp only [Chronicle.addStage, hunjoined] at hmem
      rcases List.mem_append.mp hmem with hold | hnew
      · exact h.joined_outside join hold
      · rw [List.mem_singleton.mp hnew]
        exact ⟨caller, rfl⟩
    unjoined_eq := fun hstopped => by
      have hnone := h.unjoined_eq hstopped
      rw [hunjoined] at hnone
      cases hnone }

theorem stop (h : Chronicled config pool shutdowns chronicle) (later caller : Nat)
    (following : Routine Question) (hunjoined : pool.unjoined = [])
    (hclosed : pool.phase ≠ .running) :
    Chronicled config { pool.stop with joinHeld := false } later
      ((chronicle.addChange (.caller caller) pool.phase pool.stop.phase).addStage
        (.caller caller) pool pool.stop.phase (.joining following) (.ready following)) := by
  have hreturned {phase : Phase} (hphase : phase = .stopped) :
      ∀ index late, (Thread.caller index, late) ∈
        chronicle.returns ++ [(Thread.caller caller, phase)] →
        late = .stopped ∧ phase = .stopped := by
    intro index late hmem
    rcases List.mem_append.mp hmem with hold | hnew
    · exact ⟨(h.returned_outside index late hold).1, hphase⟩
    · cases List.mem_singleton.mp hnew
      exact ⟨hphase, hphase⟩
  have hworkers {phase : Phase} : ∀ index late, (Thread.worker index, late) ∈
      chronicle.returns ++ [(Thread.caller caller, phase)] → late ≠ .running := by
    intro index late hmem
    rcases List.mem_append.mp hmem with hold | hnew
    · exact h.returned_worker index late hold
    · cases List.mem_singleton.mp hnew
  rcases Decidable.em (pool.phase = .stopped) with hstopped | hgoing
  · have hstop : pool.stop = pool := if_pos hstopped
    rw [hstop, Chronicle.addChange_self]
    exact { h with
      closed := fun _ => hclosed
      returned_outside := hreturned hstopped
      returned_worker := hworkers }
  · have hphase : pool.phase = .shuttingDown := by
      cases hphase : pool.phase with
      | running => exact absurd hphase hclosed
      | shuttingDown => rfl
      | stopped => exact absurd hphase hgoing
    have hstop : pool.stop =
        { pool with phase := .stopped }.emit (.poolStopped pool.completed pool.failed) :=
      if_neg hgoing
    have hpath := h.changes_eq
    have hclosings := h.closings_iff
    have hshutting := h.closing_logged
    have hstopping := h.stop_logged
    rw [hphase] at hpath hclosings hshutting hstopping
    rw [hstop, hphase]
    exact {
      changes_eq := by
        change (chronicle.changes ++ [_]).map Change.phases = _
        rw [List.map_append, hpath]
        rfl
      closings_iff := hclosings.trans ⟨fun _ => nofun, fun _ => nofun⟩
      closings_closed := h.closings_closed
      closed := fun _ => nofun
      joins_eq := h.joins_eq
      joined_outside := h.joined_outside
      stopped_outside := by
        intro change hmem hnew
        rcases List.mem_append.mp hmem with hold | hlast
        · exact h.stopped_outside change hold hnew
        · rw [List.mem_singleton.mp hlast]
          exact ⟨caller, rfl⟩
      unjoined_eq := fun _ => hunjoined
      returned_outside := hreturned rfl
      returned_worker := hworkers
      refused_late := h.refused_late
      closing_logged := (logged_emit ..).trans hshutting
      stop_logged := (logged_emit ..).trans (congrArg (· + 1) hstopping) }

theorem notifyAll (h : Chronicled config pool shutdowns chronicle) (later worker : Nat)
    (rest : Routine Question) (hclosed : pool.phase ≠ .running) :
    Chronicled config (pool.wakeAll.emit .shutdownFromWorker) later
      (chronicle.addStage (.worker worker) pool pool.phase (.closing rest) (.ready rest)) :=
  { h with
    closed := fun _ => hclosed
    returned_outside := by
      intro index phase hmem
      rcases List.mem_append.mp hmem with hold | hnew
      · exact h.returned_outside index phase hold
      · cases List.mem_singleton.mp hnew
    returned_worker := by
      intro index phase hmem
      rcases List.mem_append.mp hmem with hold | hnew
      · exact h.returned_worker index phase hold
      · cases List.mem_singleton.mp hnew
        exact hclosed
    closing_logged := (logged_emit ..).trans h.closing_logged
    stop_logged := (logged_emit ..).trans h.stop_logged }

theorem unnoted (h : Chronicled config pool shutdowns chronicle)
    (hphase : after.phase = pool.phase) (hunjoined : after.unjoined = pool.unjoined)
    (hlog : after.log = pool.log) (hfewer : later ≤ shutdowns)
    (hadd : chronicle.addStage thread pool pool.phase stage next = chronicle) :
    Chronicled config after later
      ((chronicle.addChange thread pool.phase after.phase).addStage thread pool after.phase
        stage next) := by
  rw [hphase, Chronicle.addChange_self, hadd]
  exact h.frame hphase hunjoined (by rw [logged, hlog, logged]) (by rw [logged, hlog, logged])
    hfewer

theorem advance (thread : Thread) (h : Chronicled config pool shutdowns chronicle)
    (hadvance : pool.advance? thread.seat chosen stage = some (next, after))
    (hseated : thread.seat = .worker → stage.awaitsWorkers = false)
    (hthreads : later + stage.isShutdown.toNat = shutdowns + next.isShutdown.toNat)
    (hcounted : stage.isShutdown = true → 0 < shutdowns) :
    Chronicled config after later
      ((chronicle.addChange thread pool.phase after.phase).addStage thread pool after.phase
        stage next) := by
  cases advance_of_some hadvance with
  | @enter job rest hentered =>
      have hopen := ((pool.enter_eq_ok_iff job).mp (congrArg Prod.fst hentered)).1
      refine h.unnoted rfl rfl rfl (Nat.le_of_eq hthreads) ?_
      simp only [Chronicle.addStage, h.closings_eq_nil hopen, List.isEmpty_nil, if_true]
  | @refuse job rest rejection hrefused =>
      have hpushed := h.push thread job rest (.refused (rest (.error rejection)))
      rw [Chronicle.addChange_self]
      exact hpushed.frame rfl rfl rfl rfl (Nat.le_of_eq hthreads)
  | @close rest phase log hclose hclosed =>
      have hclosing := h.close later thread rest (.closing rest)
      rw [hclose] at hclosing
      exact hclosing
  | observe => exact h.unnoted rfl rfl rfl (Nat.le_of_eq hthreads) rfl
  | countAccepted => exact h.unnoted rfl rfl rfl (Nat.le_of_eq hthreads) rfl
  | notify _ => exact h.unnoted rfl rfl rfl (Nat.le_of_eq hthreads) rfl
  | countRejected => exact h.unnoted rfl rfl rfl (Nat.le_of_eq hthreads) rfl
  | await _ => exact h.unnoted rfl rfl rfl (Nat.le_of_eq (Nat.add_right_cancel hthreads)) rfl
  | hold _ => exact h.unnoted rfl rfl rfl (Nat.le_of_eq (Nat.add_right_cancel hthreads)) rfl
  | @notifyAll rest hseat =>
      cases thread with
      | caller index => cases hseat
      | worker index =>
          have hsame : chronicle.addChange (.worker index) pool.phase pool.phase = chronicle :=
            Chronicle.addChange_self ..
          have hreturned := h.notifyAll later index rest (h.closed (hcounted rfl))
          rw [← hsame] at hreturned
          exact hreturned
  | @join following first rest hunjoined _ =>
      cases thread with
      | worker index => cases hseated rfl
      | caller index =>
          have hjoined := h.join index following hunjoined
            (Nat.le_of_eq (Nat.add_right_cancel hthreads))
          rw [Chronicle.addChange_self]
          exact hjoined
  | @stop following log hunjoined hstop =>
      cases thread with
      | worker index => cases hseated rfl
      | caller index =>
          have hstopped := h.stop later index following hunjoined (h.closed (hcounted rfl))
          rw [hstop] at hstopped
          exact hstopped

end Chronicled

namespace System

variable {config : PoolConfig} {system after : System Question} {chronicle : Chronicle}

theorem chronicleStep_of_advance (thread : Thread) {stage next : Stage Question}
    (hstage : system.stage? thread = some stage) (hnext : after.stage? thread = some next) :
    chronicleStep system after thread chronicle =
      (chronicle.addChange thread system.pool.phase after.pool.phase).addStage thread system.pool
        after.pool.phase stage next := by
  simp only [chronicleStep, hstage, hnext]

theorem stage?_worker_set {left : Pool Question} {index : Nat} {old : Worker Question}
    (new : Worker Question) (hold : left.workers[index]? = some old) :
    stage? { system with pool := left.setWorker index new } (.worker index) = new.stage? := by
  have hindex := (List.getElem?_eq_some_iff.mp hold).1
  simp [stage?, setWorker, List.getElem?_set_self hindex]

theorem stage?_caller_set {pool : Pool Question} {index : Nat} {old : Stage Question}
    (new : Stage Question) (hold : system.callers[index]? = some old) :
    stage? ({ system with pool }.setCaller index new) (.caller index) = some new := by
  have hindex := (List.getElem?_eq_some_iff.mp hold).1
  simp [stage?, setCaller, List.getElem?_set_self hindex]

theorem threads_pos_of_worker {p : Stage Question → Bool} {index : Nat}
    {stage : Stage Question} (hworker : system.pool.workers[index]? = some (.working stage))
    (hp : p stage = true) : 0 < system.threads p :=
  Nat.add_pos_right _ (List.countP_pos_iff.mpr
    ⟨.working stage, List.mem_of_getElem? hworker, hp⟩)

theorem threads_pos_of_caller {p : Stage Question → Bool} {index : Nat}
    {stage : Stage Question} (hstage : system.callers[index]? = some stage)
    (hp : p stage = true) : 0 < system.threads p :=
  Nat.add_pos_left (List.countP_pos_iff.mpr ⟨stage, List.mem_of_getElem? hstage, hp⟩) _

theorem logged_countEnding (pool : Pool Question) (index : Nat) (ending : Ending) :
    (pool.countEnding index ending).logged LogRecord.isPoolShuttingDown =
        pool.logged LogRecord.isPoolShuttingDown ∧
      (pool.countEnding index ending).logged LogRecord.isPoolStopped =
        pool.logged LogRecord.isPoolStopped := by
  cases ending with
  | returned => exact ⟨rfl, rfl⟩
  | failed error => exact ⟨logged_emit .., logged_emit ..⟩
  | panicked text => exact ⟨logged_emit .., logged_emit ..⟩

abbrev Recorded (config : PoolConfig) (system : System Question) (chronicle : Chronicle) : Prop :=
  Chronicled config system.pool (system.threads Stage.isShutdown) chronicle

namespace Recorded

theorem unseated {thread : Thread} (h : Recorded config system chronicle)
    (hnone : system.stage? thread = none ∨ after.stage? thread = none)
    (hphase : after.pool.phase = system.pool.phase)
    (hunjoined : after.pool.unjoined = system.pool.unjoined)
    (hclosing : after.pool.logged LogRecord.isPoolShuttingDown =
      system.pool.logged LogRecord.isPoolShuttingDown)
    (hstop : after.pool.logged LogRecord.isPoolStopped =
      system.pool.logged LogRecord.isPoolStopped)
    (hfewer : after.threads Stage.isShutdown ≤ system.threads Stage.isShutdown) :
    Recorded config after (chronicleStep system after thread chronicle) := by
  have hsame : chronicleStep system after thread chronicle = chronicle := by
    simp only [chronicleStep, hphase, Chronicle.addChange_self]
    rcases hnone with hbefore | hafter
    · rw [hbefore]
    · rw [hafter]
      cases system.stage? thread <;> rfl
  rw [hsame]
  exact h.frame hphase hunjoined hclosing hstop hfewer

theorem serve {chosen index : Nat} {old new : Worker Question} {left : Pool Question}
    (h : Recorded config system chronicle) (hsupervised : Supervised config system)
    (hold : system.pool.workers[index]? = some old)
    (hserve : Serve system.pool chosen index old new left) :
    Recorded config { system with pool := left.setWorker index new }
      (chronicleStep system { system with pool := left.setWorker index new } (.worker index)
        chronicle) := by
  have hkept := getElem?_workers_serve hserve hold
  have hthreads := threads_setWorker Stage.isShutdown new (working_serve _ hserve) hkept
  have hbefore : system.stage? (.worker index) = old.stage? := by
    rw [stage?, hold, Option.bind_some]
  have hafter : stage? { system with pool := left.setWorker index new } (.worker index) =
      new.stage? := stage?_worker_set new hkept
  cases hserve with
  | @goOn stage next _ hadvance =>
      rw [chronicleStep_of_advance _ hbefore hafter]
      have hadvanced := Chronicled.advance (.worker index) h hadvance
        (fun _ => hsupervised.not_awaiting hold) hthreads (threads_pos_of_worker hold)
      exact hadvanced.frame rfl rfl rfl rfl (Nat.le_refl _)
  | take _ => exact h.unseated (.inl hbefore) rfl rfl rfl rfl (Nat.le_of_eq hthreads)
  | park _ _ => exact h.unseated (.inl hbefore) rfl rfl rfl rfl (Nat.le_of_eq hthreads)
  | leave _ _ =>
      exact h.unseated (.inl hbefore) rfl rfl (logged_emit ..) (logged_emit ..)
        (Nat.le_of_eq hthreads)
  | begin => exact h.unseated (.inl hbefore) rfl rfl rfl rfl (Nat.le_of_eq hthreads)
  | finish => exact h.unseated (.inr hafter) rfl rfl rfl rfl (Nat.le_of_eq hthreads)
  | @count ending =>
      obtain ⟨hclosing, hstop⟩ := logged_countEnding system.pool index ending
      have hsame : (system.pool.countEnding index ending).phase = system.pool.phase ∧
          (system.pool.countEnding index ending).unjoined = system.pool.unjoined := by
        cases ending <;> exact ⟨rfl, rfl⟩
      exact h.unseated (.inl hbefore) hsame.1 hsame.2 hclosing hstop (Nat.le_of_eq hthreads)

theorem step {move : Move Question} (h : Recorded config system chronicle)
    (hsupervised : Supervised config system) (hstep : step? system move = some after) :
    Recorded config after (chronicleMove system move chronicle) := by
  cases transition_of_step hstep with
  | @call routine =>
      simp only [chronicleMove, Move.thread?]
      refine h.frame rfl rfl rfl rfl (Nat.le_of_eq ?_)
      simp [threads, System.call, List.countP_append, Stage.isShutdown]
  | @serve chosen index old new left hold hserve =>
      simp only [chronicleMove, Move.thread?, hstep]
      exact h.serve hsupervised hold hserve
  | @hearWorker index question next answer hold =>
      have hthreads := threads_setWorker Stage.isShutdown (.working (.ready (next answer)))
        (rfl : system.pool.working Stage.isShutdown = _) hold
      have hbefore : system.stage? (.worker index) = some (.ready (.ask question next)) := by
        rw [stage?, hold, Option.bind_some, Worker.stage?]
      have hafter : stage? { system with pool := system.pool.setWorker index _ }
          (.worker index) = some (.ready (next answer)) :=
        stage?_worker_set (.working (.ready (next answer))) hold
      simp only [chronicleMove, Move.thread?, hstep]
      rw [chronicleStep_of_advance _ hbefore hafter]
      exact Chronicled.unnoted h rfl rfl rfl (Nat.le_of_eq hthreads) rfl
  | @advance chosen index stage next pool hstage hadvance =>
      have hthreads := threads_setCaller Stage.isShutdown next (working_advance _ hadvance) hstage
      simp only [chronicleMove, Move.thread?, hstep]
      rw [chronicleStep_of_advance (.caller index) hstage (stage?_caller_set next hstage)]
      have hunseated (hseat : (Thread.caller index).seat = .worker) :
          stage.awaitsWorkers = false := by cases hseat
      exact Chronicled.advance (.caller index) h hadvance hunseated hthreads
        (threads_pos_of_caller hstage)
  | @hearCaller index question next answer hstage =>
      have hthreads := threads_setCaller Stage.isShutdown (.ready (next answer))
        (rfl : system.pool.working Stage.isShutdown = _) hstage
      simp only [chronicleMove, Move.thread?, hstep]
      rw [chronicleStep_of_advance (.caller index) hstage (stage?_caller_set _ hstage)]
      exact Chronicled.unnoted h rfl rfl rfl (Nat.le_of_eq hthreads) rfl
  | @wake index =>
      simp only [chronicleMove, Move.thread?]
      refine h.frame rfl rfl rfl rfl (Nat.le_of_eq ?_)
      simp only [threads, working_wake]

end Recorded

theorem recorded_of_run {moves : List (Move Question)} {last : System Question}
    (hrun : (System.start config).run? moves = some last) :
    Recorded config last (System.chronicle (System.start config) moves) := by
  have hnone : (System.start config : System Question).threads Stage.isShutdown = 0 := by
    simp [System.start, Pool.start, threads, working, List.countP_replicate, Worker.isAt]
  have hstart : Recorded config (System.start config : System Question) {} := by
    rw [Recorded, hnone]
    exact .start config
  refine Steps.history_invariant_of_reachable hrun hstart ?_
  intro before move after seen hreachable h hstep
  obtain ⟨earlier, hearlier⟩ := hreachable
  exact h.step (supervised_of_run hearlier) hstep

structure Lifecycle (config : PoolConfig) (system : System Question) (chronicle : Chronicle) :
    Prop where
  /-- The phase goes forward only, so each of the two changes comes at most once. -/
  changes_prefix : chronicle.changes.map Change.phases <+:
    [(.running, .shuttingDown), (.shuttingDown, .stopped)]
  changes_last : (chronicle.changes.map Change.new).getLastD .running = system.pool.phase
  closing_logged : system.pool.logged LogRecord.isPoolShuttingDown =
    chronicle.changes.countP fun change => change.new = .shuttingDown
  stop_logged : system.pool.logged LogRecord.isPoolStopped =
    chronicle.changes.countP fun change => change.new = .stopped
  /-- A shutdown that has passed its first part has closed the pool, and nothing else does. -/
  closings_closed : ∀ closing ∈ chronicle.closings, closing.2 ≠ .running
  closings_iff : chronicle.closings ≠ [] ↔ system.pool.phase ≠ .running
  refused_late : ∀ answer ∈ chronicle.lateAnswers, answer = .error .shuttingDown
  /-- What a caller finds stopped when its shutdown comes back, stays so. -/
  returned_outside : ∀ index phase, (.caller index, phase) ∈ chronicle.returns →
    phase = .stopped ∧ system.pool.phase = .stopped
  returned_worker : ∀ index phase, (.worker index, phase) ∈ chronicle.returns → phase ≠ .running
  joined_outside : ∀ join ∈ chronicle.joins, ∃ index, join.1 = .caller index
  stopped_outside : ∀ change ∈ chronicle.changes, change.new = .stopped →
    ∃ index, change.thread = .caller index
  joined_nodup : (chronicle.joins.map Prod.snd).Nodup
  stopped_empty : system.pool.phase = .stopped →
    (∀ worker ∈ system.pool.workers, worker = .exited) ∧ system.pool.queue = []

theorem getLastD_path (phase : Phase) : (phase.path.map Prod.snd).getLastD .running = phase := by
  cases phase <;> rfl

theorem countP_path (phase : Phase) :
    phase.path.countP (fun change => change.2 = .shuttingDown) =
        (decide (phase ≠ .running)).toNat ∧
      phase.path.countP (fun change => change.2 = .stopped) =
        (decide (phase = .stopped)).toNat := by
  cases phase <;> decide

theorem exited_of_joined {ledger : Ledger Question} (h : Orderly config system.pool ledger)
    (hjoined : system.pool.unjoined = []) : ∀ worker ∈ system.pool.workers, worker = .exited := by
  intro worker hmem
  have hgone := h.hand_eq_gone hjoined worker.hand (List.mem_map_of_mem hmem)
  cases worker <;> first | rfl | cases hgone

theorem Recorded.lifecycle {ledger : Ledger Question} (h : Recorded config system chronicle)
    (horderly : Orderly config system.pool ledger) (hvalid : config.Valid) :
    Lifecycle config system chronicle where
  changes_prefix := h.changes_eq ▸ system.pool.phase.path_isPrefix
  changes_last := by
    have hlast := getLastD_path system.pool.phase
    rw [← h.changes_eq, List.map_map] at hlast
    exact hlast
  closing_logged := by
    rw [h.closing_logged, ← (countP_path system.pool.phase).1, ← h.changes_eq, List.countP_map]
    rfl
  stop_logged := by
    rw [h.stop_logged, ← (countP_path system.pool.phase).2, ← h.changes_eq, List.countP_map]
    rfl
  closings_closed := h.closings_closed
  closings_iff := h.closings_iff
  refused_late := h.refused_late
  returned_outside := h.returned_outside
  returned_worker := h.returned_worker
  joined_outside := h.joined_outside
  stopped_outside := h.stopped_outside
  joined_nodup := by
    have hnodup : (List.range config.workers).Nodup := List.nodup_range
    rw [← h.joins_eq] at hnodup
    exact (List.nodup_append.mp hnodup).1
  stopped_empty := by
    intro hstopped
    have hjoined := h.unjoined_eq hstopped
    exact ⟨exited_of_joined horderly hjoined, (horderly.allRun hvalid hjoined).queue_eq⟩

theorem unjoined_of_advance {pool left : Pool Question} {seat : Seat} {chosen : Nat}
    {stage next : Stage Question} (h : pool.advance? seat chosen stage = some (next, left))
    (hgoing : pool.phase ≠ .stopped) (hstopped : left.phase = .stopped) : pool.unjoined = [] := by
  cases advance_of_some h with
  | stop hunjoined _ => exact hunjoined
  | close hclose _ =>
      have hphase : pool.close.phase = .stopped := hclose ▸ hstopped
      unfold close at hphase
      split at hphase
      · cases hphase
      · exact absurd hphase hgoing
  | enter _ => exact absurd hstopped hgoing
  | refuse _ => exact absurd hstopped hgoing
  | observe => exact absurd hstopped hgoing
  | countAccepted => exact absurd hstopped hgoing
  | notify _ => exact absurd hstopped hgoing
  | countRejected => exact absurd hstopped hgoing
  | notifyAll _ => exact absurd hstopped hgoing
  | await _ => exact absurd hstopped hgoing
  | hold _ => exact absurd hstopped hgoing
  | join _ _ => exact absurd hstopped hgoing

theorem unjoined_of_step {move : Move Question} (hstep : step? system move = some after)
    (hgoing : system.pool.phase ≠ .stopped) (hstopped : after.pool.phase = .stopped) :
    system.pool.unjoined = [] := by
  cases transition_of_step hstep with
  | call => exact absurd hstopped hgoing
  | serve hold hserve =>
      cases hserve with
      | goOn hadvance => exact unjoined_of_advance hadvance hgoing hstopped
      | @count ending => cases ending <;> exact absurd hstopped hgoing
      | take _ => exact absurd hstopped hgoing
      | park _ _ => exact absurd hstopped hgoing
      | leave _ _ => exact absurd hstopped hgoing
      | begin => exact absurd hstopped hgoing
      | finish => exact absurd hstopped hgoing
  | hearWorker _ => exact absurd hstopped hgoing
  | advance hstage hadvance => exact unjoined_of_advance hadvance hgoing hstopped
  | hearCaller _ => exact absurd hstopped hgoing
  | wake => exact absurd hstopped hgoing

/-- However pushes, workers and shutdowns from outside and from within jobs interleave, the
pool is closed once and stopped once, and only when nothing is left of it to stop. -/
theorem shutdowns_in_order (hvalid : config.Valid) {moves : List (Move Question)}
    {last : System Question} (hrun : (System.start config).run? moves = some last) :
    Lifecycle config last (System.chronicle (System.start config) moves) ∧
      ∀ move after, step? last move = some after → after.pool.phase = .stopped →
        (∀ worker ∈ last.pool.workers, worker = .exited) ∧ last.pool.queue = [] := by
  have hrecorded := recorded_of_run hrun
  have horderly := orderly_of_run hrun
  refine ⟨hrecorded.lifecycle horderly hvalid, ?_⟩
  intro move after hstep hstopped
  have hjoined : last.pool.unjoined = [] := by
    rcases Decidable.em (last.pool.phase = .stopped) with hbefore | hgoing
    · exact hrecorded.unjoined_eq hbefore
    · exact unjoined_of_step hstep hgoing hstopped
  exact ⟨exited_of_joined horderly hjoined, (horderly.allRun hvalid hjoined).queue_eq⟩

def selfClosingMoves : List (Move Empty) :=
  [.call (.submit (.shutdown (.finish .returned)) fun _ => .finish .returned),
    .call (.shutdown (.finish .returned)), .call (.shutdown (.finish .returned)),
    .caller 0 0, .caller 0 0, .caller 0 0, .worker 0 0, .worker 0 0, .worker 0 0,
    .caller 0 1, .caller 0 1, .caller 0 1, .caller 0 2, .caller 0 2,
    .worker 0 0, .worker 0 0, .worker 0 0, .worker 0 0,
    .caller 0 1, .caller 0 1, .caller 0 2, .caller 0 2]

theorem shutdowns_in_order_selfClosingMoves :
    ∃ last : System Empty, (System.start ⟨1, 1⟩).run? selfClosingMoves = some last ∧
      (System.chronicle (System.start ⟨1, 1⟩) selfClosingMoves).returns =
        [(.worker 0, .shuttingDown), (.caller 1, .stopped), (.caller 2, .stopped)] ∧
      Lifecycle ⟨1, 1⟩ last (System.chronicle (System.start ⟨1, 1⟩) selfClosingMoves) := by
  obtain ⟨last, hrun, hreturns⟩ :
      ∃ last : System Empty, (System.start ⟨1, 1⟩).run? selfClosingMoves = some last ∧
        (System.chronicle (System.start ⟨1, 1⟩) selfClosingMoves).returns =
          [(.worker 0, .shuttingDown), (.caller 1, .stopped), (.caller 2, .stopped)] :=
    ⟨_, rfl, rfl⟩
  exact ⟨last, hrun, hreturns, (shutdowns_in_order (by decide) hrun).1⟩

end System

end Turnstile.Pool

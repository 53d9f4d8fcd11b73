import Turnstile.Pool.Step

/-!
What a step of a thread can be. Each case is one thing that the thread may do,
with the condition under which it does so and what it makes of the pool.
-/

namespace Turnstile.Pool

/-- From where a thread stands, to where it stands next and the pool it leaves. -/
inductive Advance (pool : Pool Question) (seat : Seat) (chosen : Nat) :
    Stage Question → Stage Question → Pool Question → Prop
  | enter {job : Routine Question} {next : Except Rejection Unit → Routine Question}
      (hentered : pool.enter job = (.ok (), { pool with queue := pool.queue ++ [job] })) :
      Advance pool seat chosen (.ready (.submit job next)) (.accepted (next (.ok ())))
        { pool with queue := pool.queue ++ [job] }
  | refuse {job : Routine Question} {next : Except Rejection Unit → Routine Question}
      {rejection : Rejection} (hrefused : pool.enter job = (.error rejection, pool)) :
      Advance pool seat chosen (.ready (.submit job next))
        (.refused (next (.error rejection))) pool
  | close {next : Routine Question} {phase : Phase} {log : Array LogRecord}
      (hclose : pool.close = { pool with phase, log }) (hclosed : phase ≠ .running) :
      Advance pool seat chosen (.ready (.shutdown next)) (.closing next)
        { pool with phase, log }
  | observe {next : Phase → Routine Question} :
      Advance pool seat chosen (.ready (.observe next)) (.ready (next pool.phase)) pool
  | countAccepted {next : Routine Question} :
      Advance pool seat chosen (.accepted next) (.notifying next) pool.countAccepted
  | notify {next : Routine Question} (hmay : pool.mayWake chosen = true) :
      Advance pool seat chosen (.notifying next) (.ready next) (pool.wake chosen)
  | countRejected {next : Routine Question} :
      Advance pool seat chosen (.refused next) (.ready next) pool.countRejected
  | notifyAll {next : Routine Question} (hseat : seat = .worker) :
      Advance pool seat chosen (.closing next) (.ready next)
        (pool.wakeAll.emit .shutdownFromWorker)
  | await {next : Routine Question} (hseat : seat = .outside) :
      Advance pool seat chosen (.closing next) (.awaiting next) pool.wakeAll
  | hold {next : Routine Question} (hfree : pool.joinHeld = false) :
      Advance pool seat chosen (.awaiting next) (.joining next) { pool with joinHeld := true }
  | join {next : Routine Question} {index : Nat} {rest : List Nat}
      (hunjoined : pool.unjoined = index :: rest)
      (hexited : pool.workers[index]? = some .exited) :
      Advance pool seat chosen (.joining next) (.joining next) { pool with unjoined := rest }
  | stop {next : Routine Question} {log : Array LogRecord} (hjoined : pool.unjoined = [])
      (hstop : pool.stop = { pool with phase := .stopped, log }) :
      Advance pool seat chosen (.joining next) (.ready next)
        { pool with phase := .stopped, log, joinHeld := false }

theorem enter_eq_self_of_error {pool entered : Pool Question} {job : Routine Question}
    {rejection : Rejection} (h : pool.enter job = (.error rejection, entered)) :
    entered = pool := by
  unfold enter at h
  grind

theorem enter_eq_of_ok {pool entered : Pool Question} {job : Routine Question}
    (h : pool.enter job = (.ok (), entered)) :
    entered = { pool with queue := pool.queue ++ [job] } := by
  unfold enter at h
  grind

theorem exists_close_eq (pool : Pool Question) :
    ∃ phase log, pool.close = { pool with phase, log } ∧ phase ≠ .running := by
  unfold close
  split
  · exact ⟨.shuttingDown, _, rfl, nofun⟩
  · exact ⟨pool.phase, pool.log, rfl, ‹_›⟩

theorem exists_stop_eq (pool : Pool Question) :
    ∃ log, pool.stop = { pool with phase := .stopped, log } := by
  unfold stop
  split
  · rename_i hstopped
    exact ⟨pool.log, by rw [← hstopped]⟩
  · exact ⟨_, rfl⟩

theorem advance_of_some {pool after : Pool Question} {seat : Seat} {chosen : Nat}
    {stage next : Stage Question} (h : pool.advance? seat chosen stage = some (next, after)) :
    Advance pool seat chosen stage next after := by
  cases stage with
  | ready routine =>
      cases routine with
      | finish ending => cases h
      | ask question rest => cases h
      | submit job rest =>
          simp only [advance?] at h
          split at h
          · rename_i entered hentered
            cases h
            cases enter_eq_of_ok hentered
            exact .enter hentered
          · rename_i rejection entered hentered
            cases h
            cases enter_eq_self_of_error hentered
            exact .refuse hentered
      | shutdown rest =>
          obtain ⟨phase, log, hclose, hclosed⟩ := pool.exists_close_eq
          simp only [advance?, hclose] at h
          cases h
          exact .close hclose hclosed
      | observe rest =>
          cases h
          exact .observe
  | accepted rest =>
      cases h
      exact .countAccepted
  | notifying rest =>
      simp only [advance?] at h
      split at h <;> cases h
      exact .notify ‹_›
  | refused rest =>
      cases h
      exact .countRejected
  | closing rest =>
      simp only [advance?] at h
      split at h <;> cases h
      · exact .notifyAll rfl
      · exact .await rfl
  | awaiting rest =>
      simp only [advance?] at h
      split at h <;> cases h
      exact .hold (Bool.eq_false_iff.mpr ‹_›)
  | joining rest =>
      simp only [advance?] at h
      split at h
      · obtain ⟨log, hstop⟩ := pool.exists_stop_eq
        rw [hstop] at h
        cases h
        exact .stop ‹_› hstop
      · simp only [Option.map_eq_some_iff, Prod.mk.injEq] at h
        obtain ⟨joined, hjoined, rfl, rfl⟩ := h
        unfold join? at hjoined
        split at hjoined
        · split at hjoined <;> cases hjoined
          exact .join ‹_› ‹_›
        · cases hjoined

theorem workers_advance {pool after : Pool Question} {seat : Seat} {chosen : Nat}
    {stage next : Stage Question} (h : pool.advance? seat chosen stage = some (next, after)) :
    after.workers = pool.workers ∨ after.workers = (pool.wake chosen).workers ∨
      after.workers = pool.wakeAll.workers := by
  cases advance_of_some h with
  | notify _ => exact .inr (.inl rfl)
  | notifyAll _ => exact .inr (.inr rfl)
  | await _ => exact .inr (.inr rfl)
  | enter _ => exact .inl rfl
  | refuse _ => exact .inl rfl
  | close _ _ => exact .inl rfl
  | observe => exact .inl rfl
  | countAccepted => exact .inl rfl
  | countRejected => exact .inl rfl
  | hold _ => exact .inl rfl
  | join _ _ => exact .inl rfl
  | stop _ _ => exact .inl rfl

theorem Stage.asked_of_some {stage : Stage Question} {question : Question}
    {next : Bool → Routine Question} (h : stage.asked? = some (question, next)) :
    stage = .ready (.ask question next) := by
  unfold Stage.asked? at h
  split at h <;> cases h
  rfl

/-- What a step does to the worker that takes it. The pool is the one that the
worker leaves, before its own place in it changes. -/
inductive Serve (pool : Pool Question) (chosen index : Nat) :
    Worker Question → Worker Question → Pool Question → Prop
  | take {job : Routine Question} {rest : List (Routine Question)}
      (hqueue : pool.queue = job :: rest) :
      Serve pool chosen index .checking (.fetched job) { pool with queue := rest }
  | park (hempty : pool.queue = []) (hopen : pool.phase = .running) :
      Serve pool chosen index .checking .parked pool
  | leave (hempty : pool.queue = []) (hclosed : pool.phase ≠ .running) :
      Serve pool chosen index .checking .exited (pool.emit (.workerExiting index))
  | begin {job : Routine Question} :
      Serve pool chosen index (.fetched job) (.working (.ready job)) pool.enterJob
  | finish {ending : Ending} :
      Serve pool chosen index (.working (.ready (.finish ending))) (.ended ending) pool.leaveJob
  | goOn {stage next : Stage Question} {after : Pool Question}
      (hadvance : pool.advance? .worker chosen stage = some (next, after)) :
      Serve pool chosen index (.working stage) (.working next) after
  | count {ending : Ending} :
      Serve pool chosen index (.ended ending) .checking (pool.countEnding index ending)

theorem serve_of_some {pool after : Pool Question} {chosen index : Nat}
    (h : pool.workerStep? chosen index = some after) :
    ∃ old new left, pool.workers[index]? = some old ∧
      Serve pool chosen index old new left ∧ after = left.setWorker index new := by
  unfold workerStep? at h
  split at h
  · cases h
  · cases h
  · cases h
  · rename_i hworker
    cases h
    unfold fetch
    split
    · exact ⟨_, _, _, hworker, .take ‹_›, rfl⟩
    · split
      · exact ⟨_, _, _, hworker, .park ‹_› ‹_›, rfl⟩
      · exact ⟨_, _, _, hworker, .leave ‹_› ‹_›, rfl⟩
  · rename_i hworker
    cases h
    exact ⟨_, _, _, hworker, .begin, rfl⟩
  · rename_i hworker
    cases h
    exact ⟨_, _, _, hworker, .finish, rfl⟩
  · rename_i hworker
    simp only [Option.map_eq_some_iff] at h
    obtain ⟨⟨next, left⟩, hadvance, rfl⟩ := h
    exact ⟨_, _, left, hworker, .goOn hadvance, rfl⟩
  · rename_i hworker
    cases h
    exact ⟨_, _, _, hworker, .count, rfl⟩

end Turnstile.Pool

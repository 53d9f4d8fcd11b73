import Turnstile.Proofs.Pool.Wakeups

/-!
How a closed pool comes to its end. Every step of a worker takes from what is
left to do, no other step adds to it, and as long as a worker has not exited,
one of them can go on or is about to be woken.
-/

namespace Turnstile.Pool

/-- The looks at the queue and the wake-ups that are still to come in a closed pool. -/
def looks (pool : Pool Question) : Nat := pool.checks + 2 * pool.parked

/-- Bounds the steps that workers can take once the pool is closed. -/
def toil (pool : Pool Question) : Nat := 2 * pool.work + pool.looks

/-! What is left to do. -/

section Toil

variable {pool after left : Pool Question} {seat : Seat} {chosen index : Nat}
  {stage next : Stage Question} {old new : Worker Question}

theorem looks_advance (h : pool.advance? seat chosen stage = some (next, after)) :
    after.looks ≤ pool.looks := by
  obtain ⟨hfewer, hsum⟩ := parked_advance h
  unfold looks
  omega

theorem work_le_of_advance (h : pool.advance? seat chosen stage = some (next, after))
    (hclosed : pool.phase ≠ .running) : after.work ≤ pool.work ∧ after.phase ≠ .running := by
  cases advance_of_some h with
  | @enter job _ hentered =>
      exact absurd ((pool.enter_eq_ok_iff job).mp (congrArg Prod.fst hentered)).1 hclosed
  | close _ hphase => exact ⟨Nat.le_refl _, hphase⟩
  | stop _ _ => exact ⟨Nat.le_refl _, nofun⟩
  | notify _ => exact ⟨Nat.le_of_eq (pool.work_wake chosen), hclosed⟩
  | notifyAll _ => exact ⟨Nat.le_of_eq pool.work_wakeAll, hclosed⟩
  | await _ => exact ⟨Nat.le_of_eq pool.work_wakeAll, hclosed⟩
  | join hunjoined _ =>
      unfold work
      simp only [hunjoined, List.length_cons]
      exact ⟨by omega, hclosed⟩
  | refuse _ => exact ⟨Nat.le_refl _, hclosed⟩
  | observe => exact ⟨Nat.le_refl _, hclosed⟩
  | countAccepted => exact ⟨Nat.le_refl _, hclosed⟩
  | countRejected => exact ⟨Nat.le_refl _, hclosed⟩
  | hold _ => exact ⟨Nat.le_refl _, hclosed⟩

theorem phase_serve (h : Serve pool chosen index old new left) (hclosed : pool.phase ≠ .running) :
    left.phase ≠ .running := by
  cases h with
  | goOn hadvance => exact (work_le_of_advance hadvance hclosed).2
  | @count ending => cases ending <;> exact hclosed
  | take _ => exact hclosed
  | park _ hopen => exact absurd hopen hclosed
  | leave _ _ => exact hclosed
  | begin => exact hclosed
  | finish => exact hclosed

/-- In a closed pool no worker starts to wait, and only one that has counted how its
job ended comes to look at the queue again. -/
theorem parked_serve (h : Serve pool chosen index old new left)
    (hold : pool.workers[index]? = some old) (hclosed : pool.phase ≠ .running) :
    (left.setWorker index new).parked ≤ pool.parked ∧
      (left.setWorker index new).looks ≤ pool.looks + 1 := by
  have hkept := getElem?_workers_serve h hold
  have hparked := parked_setWorker new hkept
  have hchecks := checks_setWorker left new hkept
  unfold looks
  cases h with
  | take _ =>
      change _ = pool.parked at hparked
      change _ + 1 = pool.checks at hchecks
      omega
  | park _ hopen => exact absurd hopen hclosed
  | leave _ _ =>
      change _ = pool.parked at hparked
      change _ + 1 = pool.checks at hchecks
      omega
  | begin =>
      change _ = pool.parked at hparked
      change _ = pool.checks at hchecks
      omega
  | finish =>
      change _ = pool.parked at hparked
      change _ = pool.checks at hchecks
      omega
  | goOn hadvance =>
      obtain ⟨hfewer, hsum⟩ := parked_advance hadvance
      change _ = left.parked at hparked
      change _ = left.checks at hchecks
      omega
  | @count ending =>
      have hsame : (pool.countEnding index ending).parked = pool.parked ∧
          (pool.countEnding index ending).checks = pool.checks := by
        cases ending <;> exact ⟨rfl, rfl⟩
      change _ = (pool.countEnding index ending).parked at hparked
      change _ = (pool.countEnding index ending).checks + 1 at hchecks
      omega

theorem toil_serve (h : Serve pool chosen index old new left)
    (hold : pool.workers[index]? = some old) (hclosed : pool.phase ≠ .running) :
    (left.setWorker index new).toil < pool.toil := by
  obtain ⟨hfewer, hlooks⟩ := parked_serve h hold hclosed
  unfold toil
  -- A step may lead to one more look at the queue, but only where it leaves less work,
  -- which counts twice.
  rcases lighter_serve h hold with hless | ⟨hsame, hchecks⟩
  · omega
  · unfold looks
    omega

theorem toil_hear {question : Question} {next : Bool → Routine Question} (answer : Bool)
    (hold : pool.workers[index]? = some (.working (.ready (.ask question next)))) :
    (pool.setWorker index (.working (.ready (next answer)))).toil < pool.toil := by
  have hless := Routine.size_next_of_ask question next answer
  have hwork := work_setWorker pool (.working (.ready (next answer))) hold
  have hparked := parked_setWorker (.working (.ready (next answer))) hold
  have hchecks := checks_setWorker pool (.working (.ready (next answer))) hold
  change _ = pool.parked at hparked
  change _ = pool.checks at hchecks
  simp only [Worker.size_working, Stage.size_ready] at hwork
  unfold toil looks
  omega

end Toil

/-! Steps that can be taken. -/

def Stage.isShutdown : Stage Question → Bool
  | .closing _ | .awaiting _ | .joining _ => true
  | _ => false

theorem exists_mayWake (pool : Pool Question) : ∃ chosen, pool.mayWake chosen = true := by
  cases hany : pool.workers.any Worker.isParked with
  | false => exact ⟨0, by simp [mayWake, hany]⟩
  | true =>
      obtain ⟨worker, hmem, hparked⟩ := List.any_eq_true.mp hany
      obtain ⟨chosen, hchosen⟩ := List.mem_iff_getElem?.mp hmem
      exact ⟨chosen, by simp [mayWake, hchosen, hparked]⟩

theorem exists_advance (pool : Pool Question) (seat : Seat) {stage : Stage Question}
    (hfinish : ∀ ending, stage ≠ .ready (.finish ending)) (hask : stage.asked? = none)
    (hwaits : stage.awaitsWorkers = false) :
    ∃ chosen next after, pool.advance? seat chosen stage = some (next, after) := by
  cases stage with
  | ready routine =>
      cases routine with
      | finish ending => exact absurd rfl (hfinish ending)
      | ask question rest => cases hask
      | submit job rest =>
          simp only [advance?]
          split
          · exact ⟨0, _, _, rfl⟩
          · exact ⟨0, _, _, rfl⟩
      | shutdown rest => exact ⟨0, _, _, rfl⟩
      | observe rest => exact ⟨0, _, _, rfl⟩
  | accepted rest => exact ⟨0, _, _, rfl⟩
  | notifying rest =>
      obtain ⟨chosen, hmay⟩ := pool.exists_mayWake
      exact ⟨chosen, _, _, if_pos hmay⟩
  | refused rest => exact ⟨0, _, _, rfl⟩
  | closing rest =>
      cases seat with
      | worker => exact ⟨0, _, _, rfl⟩
      | outside => exact ⟨0, _, _, rfl⟩
  | awaiting rest => cases hwaits
  | joining rest => cases hwaits

theorem workerStep_of_advance {pool after : Pool Question} {chosen index : Nat}
    {stage next : Stage Question} (hworker : pool.workers[index]? = some (.working stage))
    (hadvance : pool.advance? .worker chosen stage = some (next, after)) :
    pool.workerStep? chosen index = some (after.setWorker index (.working next)) := by
  unfold workerStep?
  rw [hworker]
  split
  all_goals rename_i heq
  all_goals cases heq
  · cases hadvance
  · rw [hadvance]
    rfl

namespace System

/-- Steps of workers, and those of callers that are about to notify all workers. -/
def Move.drains (move : Move Question) (system : System Question) : Prop :=
  match move with
  | .worker .. | .answerWorker .. => True
  | .caller _ index => ∃ next, system.callers[index]? = some (.closing next)
  | .call _ | .answerCaller .. | .wake _ => False

section Enabled

variable {config : PoolConfig} {system : System Question}

theorem exists_caller_step {index : Nat} {stage : Stage Question}
    (hstage : system.callers[index]? = some stage)
    (hadvance : (system.pool.advance? .outside 0 stage).isSome = true) :
    ∃ after, step? system (.caller 0 index) = some after := by
  obtain ⟨⟨next, pool⟩, hadvance⟩ := Option.isSome_iff_exists.mp hadvance
  simp only [step?, callerStep?, hstage, Option.bind_eq_bind, Option.bind_some, hadvance]
  exact ⟨_, rfl⟩

theorem exists_worker_step {index : Nat} {worker : Worker Question}
    (hworker : system.pool.workers[index]? = some worker)
    (hseated : worker.isAt Stage.awaitsWorkers = false) (hparked : worker.isParked = false)
    (hexited : worker ≠ .exited) :
    ∃ move after, move.drains system ∧ step? system move = some after := by
  have hsteps (chosen : Nat) {after : Pool Question}
      (hstep : system.pool.workerStep? chosen index = some after) :
      ∃ move after, move.drains system ∧ step? system move = some after :=
    ⟨.worker chosen index, _, trivial, by simp only [step?, workerStep?, hstep]; rfl⟩
  cases worker with
  | checking => exact hsteps 0 (by simp only [Pool.workerStep?, hworker]; rfl)
  | parked => cases hparked
  | fetched job => exact hsteps 0 (by simp only [Pool.workerStep?, hworker]; rfl)
  | working stage =>
      cases hasked : stage.asked? with
      | some asked =>
          exact ⟨.answerWorker index true, _, trivial, by
            simp only [step?, workerAsks?, hworker, Worker.asked?, hasked, Option.bind_eq_bind,
              Option.bind_some]
            rfl⟩
      | none =>
          rcases Classical.em (∃ ending, stage = .ready (.finish ending)) with
            ⟨ending, rfl⟩ | hgoing
          · exact hsteps 0 (by simp only [Pool.workerStep?, hworker]; rfl)
          · obtain ⟨chosen, next, after, hadvance⟩ := system.pool.exists_advance .worker
              (fun ending hstage => hgoing ⟨ending, hstage⟩) hasked hseated
            exact hsteps chosen (workerStep_of_advance hworker hadvance)
  | ended ending => exact hsteps 0 (by simp only [Pool.workerStep?, hworker]; rfl)
  | exited => exact absurd rfl hexited

/-- As long as a worker has not exited, one of them can go on, or all that wait are
about to be woken. -/
theorem Supervised.exists_drain (h : Supervised config system)
    (hclosed : system.pool.phase ≠ .running)
    (hstays : ∃ worker ∈ system.pool.workers, worker ≠ .exited) :
    ∃ move after, move.drains system ∧ step? system move = some after := by
  obtain ⟨worker, hmem, hexited⟩ := hstays
  obtain ⟨index, hworker⟩ := List.mem_iff_getElem?.mp hmem
  cases hparked : worker.isParked with
  | false => exact exists_worker_step hworker (h.not_awaiting hworker) hparked hexited
  | true =>
      cases Worker.isParked_iff.mp hparked
      have howed := h.lively.announced hclosed (parked_pos_iff.mpr hmem)
      rcases Nat.add_pos_iff_pos_or_pos.mp howed with hcaller | hworking
      · obtain ⟨stage, hcalling, howes⟩ := List.countP_pos_iff.mp hcaller
        obtain ⟨caller, hstage⟩ := List.mem_iff_getElem?.mp hcalling
        obtain ⟨next, rfl⟩ := Stage.owesAll_iff.mp howes
        obtain ⟨after, hstep⟩ := exists_caller_step hstage rfl
        exact ⟨.caller 0 caller, after, ⟨next, hstage⟩, hstep⟩
      · obtain ⟨other, hother, howes⟩ := List.countP_pos_iff.mp hworking
        obtain ⟨otherIndex, hget⟩ := List.mem_iff_getElem?.mp hother
        obtain ⟨stage, rfl, -⟩ := Worker.isAt_iff.mp howes
        exact exists_worker_step hget (h.not_awaiting hget) rfl nofun

theorem Supervised.exists_join (h : Supervised config system)
    (hlength : system.pool.workers.length = config.workers)
    (hexited : ∀ worker ∈ system.pool.workers, worker = .exited) {index : Nat}
    {next : Routine Question} (hstage : system.callers[index]? = some (.joining next)) :
    ∃ after, step? system (.caller 0 index) = some after := by
  apply exists_caller_step hstage
  cases hunjoined : system.pool.unjoined with
  | nil => simp [advance?, hunjoined]
  | cons first rest =>
      have hfirst : first < system.pool.workers.length :=
        hlength ▸ h.unjoined_lt first (hunjoined ▸ List.mem_cons_self)
      have hget : system.pool.workers[first]? = some .exited := by
        rw [List.getElem?_eq_getElem hfirst, hexited _ (List.getElem_mem hfirst)]
      simp [advance?, hunjoined, join?, hget]

theorem Supervised.exists_return (h : Supervised config system)
    (hlength : system.pool.workers.length = config.workers)
    (hexited : ∀ worker ∈ system.pool.workers, worker = .exited)
    (hcaller : ∃ stage ∈ system.callers, stage.isShutdown = true) :
    ∃ index stage after, system.callers[index]? = some stage ∧ stage.isShutdown = true ∧
      step? system (.caller 0 index) = some after := by
  obtain ⟨stage, hmem, hshutdown⟩ := hcaller
  obtain ⟨index, hstage⟩ := List.mem_iff_getElem?.mp hmem
  have hjoins {other : Nat} {next : Routine Question}
      (hother : system.callers[other]? = some (.joining next)) :
      ∃ index stage after, system.callers[index]? = some stage ∧ stage.isShutdown = true ∧
        step? system (.caller 0 index) = some after := by
    obtain ⟨after, hstep⟩ := h.exists_join hlength hexited hother
    exact ⟨other, _, after, hother, rfl, hstep⟩
  cases stage with
  | closing next =>
      obtain ⟨after, hstep⟩ := exists_caller_step hstage rfl
      exact ⟨index, _, after, hstage, rfl, hstep⟩
  | awaiting next =>
      cases hheld : system.pool.joinHeld with
      | false =>
          obtain ⟨after, hstep⟩ := exists_caller_step hstage (by simp [advance?, hheld])
          exact ⟨index, _, after, hstage, rfl, hstep⟩
      | true =>
          have hpos : 0 < system.callers.countP Stage.isJoining := by
            rw [h.held, hheld]
            exact Nat.one_pos
          obtain ⟨joiner, hjoiner, hjoining⟩ := List.countP_pos_iff.mp hpos
          obtain ⟨other, hother⟩ := List.mem_iff_getElem?.mp hjoiner
          obtain ⟨next, rfl⟩ := Stage.isJoining_iff.mp hjoining
          exact hjoins hother
  | joining next => exact hjoins hstage
  | ready routine => cases hshutdown
  | accepted next => cases hshutdown
  | notifying next => cases hshutdown
  | refused next => cases hshutdown

end Enabled

/-! How many steps are left. -/

def toil (system : System Question) : Nat :=
  system.pool.toil + 2 * sumOf Stage.size system.callers

namespace Move

def isOfWorker : Move Question → Bool
  | .worker .. | .answerWorker .. => true
  | .call _ | .caller .. | .answerCaller .. | .wake _ => false

def adds : Move Question → Nat
  | .call routine => 2 * routine.size
  | .worker .. | .caller .. | .answerWorker .. | .answerCaller .. | .wake _ => 0

theorem adds_of_isOfThread {move : Move Question} (h : move.isOfThread = true) :
    move.adds = 0 := by
  cases move with
  | call routine => cases h
  | worker chosen index => rfl
  | caller chosen index => rfl
  | answerWorker index answer => rfl
  | answerCaller index answer => rfl
  | wake index => rfl

theorem isOfThread_of_drains {system : System Question} {move : Move Question}
    (h : move.drains system) : move.isOfThread = true := by
  cases move with
  | call routine => cases h
  | worker chosen index => rfl
  | caller chosen index => rfl
  | answerWorker index answer => rfl
  | answerCaller index answer => cases h
  | wake index => cases h

end Move

theorem toil_transition {system after : System Question} {move : Move Question}
    (hclosed : system.pool.phase ≠ .running) (h : Transition system move after) :
    after.pool.phase ≠ .running ∧
      after.pool.toil + move.isOfWorker.toNat ≤ system.pool.toil ∧
      after.toil + move.isOfThread.toNat ≤ system.toil + move.adds := by
  cases h with
  | @call routine =>
      refine ⟨hclosed, Nat.le_refl _, ?_⟩
      simp only [toil, System.call, sumOf_append, sumOf_cons, sumOf_nil, Stage.size_ready,
        Move.isOfThread, Move.adds, Bool.toNat_false]
      omega
  | @serve _ index old new left hold hserve =>
      have hless := toil_serve hserve hold hclosed
      have hphase := phase_serve hserve hclosed
      refine ⟨hphase, hless, ?_⟩
      simp only [toil, Move.isOfThread, Bool.toNat_true]
      omega
  | @hearWorker index question next answer hold =>
      have hless := toil_hear answer hold
      refine ⟨hclosed, hless, ?_⟩
      simp only [toil, Move.isOfThread, Bool.toNat_true]
      omega
  | @advance _ index stage next pool hstage hadvance =>
      obtain ⟨hwork, hphase⟩ := work_le_of_advance hadvance hclosed
      have hlooks := looks_advance hadvance
      have hless := work_advance hadvance
      have hsum := sum_setCaller { system with pool } next hstage
      simp only [setCaller] at hsum
      refine ⟨hphase, ?_, ?_⟩
      · simp only [setCaller, Pool.toil, Move.isOfWorker, Bool.toNat_false]
        omega
      · simp only [toil, setCaller, Pool.toil, Move.isOfThread, Bool.toNat_true]
        omega
  | @hearCaller index question next answer hstage =>
      have hless := Routine.size_next_of_ask question next answer
      have hsum := system.sum_setCaller (.ready (next answer)) hstage
      simp only [Stage.size_ready] at hsum
      refine ⟨hclosed, Nat.le_refl _, ?_⟩
      simp only [toil, setCaller, Move.isOfThread, Bool.toNat_true] at hsum ⊢
      omega
  | @wake index =>
      obtain ⟨hfewer, hcount⟩ := system.pool.parked_wake index
      have hsame := system.pool.work_wake index
      have hless : (system.pool.wake index).toil ≤ system.pool.toil := by
        unfold Pool.toil looks
        omega
      exact ⟨hclosed, hless, Nat.add_le_add_right hless _⟩

structure Draining (system : System Question) : Prop where
  goes_on : (∃ worker ∈ system.pool.workers, worker ≠ .exited) →
    ∃ move after, move.drains system ∧ step? system move = some after
  returns : (∀ worker ∈ system.pool.workers, worker = .exited) →
    (∃ stage ∈ system.callers, stage.isShutdown = true) →
    ∃ index stage after, system.callers[index]? = some stage ∧ stage.isShutdown = true ∧
      step? system (.caller 0 index) = some after
  worker_steps_le : ∀ moves last, system.run? moves = some last →
    moves.countP Move.isOfWorker ≤ system.pool.toil
  steps_le : ∀ moves last, system.run? moves = some last →
    moves.countP Move.isOfThread ≤ system.toil + sumOf Move.adds moves

structure Ended (system : System Question) : Prop where
  exited : ∀ worker ∈ system.pool.workers, worker = .exited
  returned : ∀ stage ∈ system.callers, stage.isShutdown = false

theorem draining_of_run {config : PoolConfig} {moves : List (Move Question)}
    {last : System Question} (hrun : (start config).run? moves = some last)
    (hclosed : last.pool.phase ≠ .running) : Draining last := by
  have hsupervised := supervised_of_run hrun
  have hlength := (orderly_of_run hrun).length_hands
  rw [hands, List.length_map] at hlength
  exact {
    goes_on := hsupervised.exists_drain hclosed
    returns := hsupervised.exists_return hlength
    worker_steps_le := by
      intro rest after hrest
      have hkept (before : System Question) (move : Move Question) (after : System Question)
          (hbefore : before.pool.phase ≠ .running) (hstep : step? before move = some after) :
          after.pool.phase ≠ .running ∧
            after.pool.toil + move.isOfWorker.toNat ≤ before.pool.toil + 0 :=
        have hless := toil_transition hbefore (transition_of_step hstep)
        ⟨hless.1, hless.2.1⟩
      have hle := Steps.add_countP_le hrest hclosed hkept
      rw [sumOf_eq_zero fun _ _ => rfl] at hle
      omega
    steps_le := by
      intro rest after hrest
      have hkept (before : System Question) (move : Move Question) (after : System Question)
          (hbefore : before.pool.phase ≠ .running) (hstep : step? before move = some after) :
          after.pool.phase ≠ .running ∧
            after.toil + move.isOfThread.toNat ≤ before.toil + move.adds :=
        have hless := toil_transition hbefore (transition_of_step hstep)
        ⟨hless.1, hless.2.2⟩
      have hle := Steps.add_countP_le hrest hclosed hkept
      omega }

/-- The threads of a closed pool can bring it to its end, without any further call. -/
theorem exists_ended_of_run {config : PoolConfig} {moves : List (Move Question)}
    {last : System Question} (hrun : (start config).run? moves = some last)
    (hclosed : last.pool.phase ≠ .running) :
    ∃ rest after, last.run? rest = some after ∧ (∀ move ∈ rest, move.isOfThread = true) ∧
      Ended after := by
  -- By induction on what is left to do, of which each of these steps takes something.
  induction htoil : last.toil using Nat.strongRecOn generalizing last moves with
  | ind toil ih =>
      have hsteps (move : Move Question) (next : System Question)
          (hthread : move.isOfThread = true) (hstep : step? last move = some next) :
          ∃ rest after, last.run? rest = some after ∧ (∀ move ∈ rest, move.isOfThread = true) ∧
            Ended after := by
        obtain ⟨hnext, -, hless⟩ := toil_transition hclosed (transition_of_step hstep)
        rw [hthread, Move.adds_of_isOfThread hthread, Bool.toNat_true] at hless
        have hlater : (start config).run? (moves ++ [move]) = some next :=
          Steps.run?_append_of_run? hrun (by simp [hstep])
        obtain ⟨rest, after, hrest, hall, hended⟩ := ih next.toil (by omega) hlater hnext rfl
        refine ⟨move :: rest, after, ?_, ?_, hended⟩
        · rw [run?, Steps.run?_cons, hstep]
          exact hrest
        · exact List.forall_mem_cons.mpr ⟨hthread, hall⟩
      have hdraining := draining_of_run hrun hclosed
      rcases Classical.em (∃ worker ∈ last.pool.workers, worker ≠ .exited) with hstays | hgone
      · obtain ⟨move, next, hdrains, hstep⟩ := hdraining.goes_on hstays
        exact hsteps move next (Move.isOfThread_of_drains hdrains) hstep
      · have hexited : ∀ worker ∈ last.pool.workers, worker = .exited := by
          intro worker hmem
          exact Classical.byContradiction fun hne => hgone ⟨worker, hmem, hne⟩
        rcases Classical.em (∃ stage ∈ last.callers, stage.isShutdown = true) with hcaller | hnone
        · obtain ⟨index, _, next, -, -, hstep⟩ := hdraining.returns hexited hcaller
          exact hsteps (.caller 0 index) next rfl hstep
        · refine ⟨[], last, rfl, fun _ hmem => absurd hmem List.not_mem_nil, hexited, ?_⟩
          intro stage hmem
          exact Bool.eq_false_iff.mpr fun hshutdown => hnone ⟨stage, hmem, hshutdown⟩

/-- However threads push jobs, workers wait and are woken, and anyone shuts the pool
down: no worker waits for good, and a closed pool comes to its end. -/
theorem no_worker_forgotten {config : PoolConfig} {moves : List (Move Question)}
    {last : System Question} (hrun : (start config).run? moves = some last) :
    Attended last ∧ (last.pool.phase ≠ .running → Draining last ∧
      ∃ rest after, last.run? rest = some after ∧ (∀ move ∈ rest, move.isOfThread = true) ∧
        Ended after) := by
  refine ⟨attended_of_run hrun, fun hclosed => ?_⟩
  exact ⟨draining_of_run hrun hclosed, exists_ended_of_run hrun hclosed⟩

/-- One worker waits, one is about to look at the queue. A job is queued, but no
worker was notified of it, and another caller has closed the pool. -/
def closingMoves : List (Move Empty) :=
  [.call (.submit (.finish (.panicked "boom")) fun _ => .finish .returned),
    .call (.shutdown (.finish .returned)), .worker 0 1, .caller 0 0, .caller 0 1]

theorem no_worker_forgotten_closingMoves :
    ∃ last : System Empty, (start ⟨2, 2⟩).run? closingMoves = some last ∧
      last.pool.workers = [.checking, .parked] ∧
      1 ≤ last.threads Stage.owesOne + last.pool.checks ∧ 0 < last.threads Stage.owesAll ∧
      Draining last ∧ ∃ rest after, last.run? rest = some after ∧ Ended after := by
  obtain ⟨last, hrun, hworkers, hqueued, hclosed⟩ :
      ∃ last : System Empty, (start ⟨2, 2⟩).run? closingMoves = some last ∧
        last.pool.workers = [.checking, .parked] ∧ last.pool.queue.length = 1 ∧
        last.pool.phase ≠ .running :=
    ⟨_, rfl, rfl, rfl, nofun⟩
  obtain ⟨hattended, hdraining⟩ := no_worker_forgotten hrun
  have hparked : .parked ∈ last.pool.workers := hworkers ▸ .tail _ (.head _)
  obtain ⟨hdrains, rest, after, hrest, -, hended⟩ := hdraining hclosed
  exact ⟨last, hrun, hworkers, hqueued ▸ hattended.queue_le hparked,
    hattended.announced hclosed hparked, hdrains, rest, after, hrest, hended⟩

end System

end Turnstile.Pool

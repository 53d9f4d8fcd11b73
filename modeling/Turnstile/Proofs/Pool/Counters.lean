import Turnstile.Proofs.Pool.Lifecycle

/-!
The counters of a pool against what has happened in it. Each of them is changed some
time after the event that it counts; with the events in between added, they balance in
every state.
-/

namespace Turnstile.Pool

def Ending.isReturned : Ending → Bool
  | .returned => true
  | .failed _ | .panicked _ => false

def Stage.isUncounted : Stage Question → Bool
  | .accepted _ => true
  | _ => false

def Stage.isRefused : Stage Question → Bool
  | .refused _ => true
  | _ => false

def Stage.isPushing : Stage Question → Bool
  | .accepted _ | .notifying _ | .refused _ => true
  | _ => false

theorem Stage.isUncounted_of_not_pushing {stage : Stage Question} (h : stage.isPushing = false) :
    stage.isUncounted = false := by
  cases stage <;> first | rfl | cases h

theorem Stage.isRefused_of_not_pushing {stage : Stage Question} (h : stage.isPushing = false) :
    stage.isRefused = false := by
  cases stage <;> first | rfl | cases h

def Worker.isWorking : Worker Question → Bool
  | .working _ => true
  | _ => false

/-- The worker holds a job that it has not begun, or one that is over and not yet counted. -/
def Worker.isBetween : Worker Question → Bool
  | .fetched _ | .ended _ => true
  | _ => false

def Worker.isBusy (worker : Worker Question) : Bool := worker.isWorking || worker.isBetween

def Worker.endedWith (p : Ending → Bool) : Worker Question → Bool
  | .ended ending => p ending
  | _ => false

/-! What is counted, and when. -/

def Worker.ending? : Worker Question → Option Ending
  | .working (.ready (.finish ending)) => some ending
  | _ => none

theorem Worker.ending?_of_advance {pool after : Pool Question} {seat : Seat} {chosen : Nat}
    {stage next : Stage Question} (h : pool.advance? seat chosen stage = some (next, after)) :
    (Worker.working stage).ending? = none := by
  cases advance_of_some h <;> rfl

/-- The events that the counters of a pool stand for. Each run that is over comes with
the number of its job. -/
structure Tally (Question : Type) where
  ledger : Ledger Question := {}
  endings : List (Nat × Ending) := []

namespace Tally

def refusals (tally : Tally Question) : Nat :=
  tally.ledger.pushes.countP fun push => !push.answer.isOk

def count (p : Ending → Bool) (tally : Tally Question) : Nat :=
  tally.endings.countP fun ending => p ending.2

def addStage (tally : Tally Question) (pool : Pool Question) (stage : Stage Question) :
    Tally Question :=
  { tally with ledger := tally.ledger.addStage pool stage }

def addWorker (tally : Tally Question) (pool : Pool Question) (index : Nat)
    (worker : Worker Question) : Tally Question where
  ledger := tally.ledger.addWorker pool index worker
  endings := tally.endings ++
    (worker.ending?.map fun ending => (tally.ledger.holds index, ending)).toList

theorem addWorker_of_none {worker : Worker Question} (tally : Tally Question)
    (pool : Pool Question) (index : Nat) (h : worker.ending? = none) :
    tally.addWorker pool index worker =
      { tally with ledger := tally.ledger.addWorker pool index worker } := by
  simp only [addWorker, h, Option.map_none, Option.toList_none, List.append_nil]

end Tally

namespace System

def tallyMove (system : System Question) (move : Move Question) (tally : Tally Question) :
    Tally Question :=
  match move with
  | .worker _ index =>
      match system.pool.workers[index]? with
      | some worker => tally.addWorker system.pool index worker
      | none => tally
  | .caller _ index =>
      match system.callers[index]? with
      | some stage => tally.addStage system.pool stage
      | none => tally
  | .call _ | .answerWorker .. | .answerCaller .. | .wake _ => tally

def tally (first : System Question) (moves : List (Move Question)) : Tally Question :=
  Steps.history step? tallyMove {} first moves

end System

/-- Counters and events, where so many threads stand between an event and its count. -/
structure Counted (pool : Pool Question) (uncounted refused : Nat) (tally : Tally Question) :
    Prop where
  accepted_eq : pool.accepted + uncounted = tally.ledger.accepted.length
  balance : pool.accepted + uncounted =
    pool.completed + pool.failed + pool.queue.length + pool.staff Worker.isBusy
  rejected_eq : pool.rejected + refused = tally.refusals
  completed_eq : pool.completed + pool.staff (Worker.endedWith Ending.isReturned) =
    tally.count Ending.isReturned
  failed_eq : pool.failed + pool.staff (Worker.endedWith fun ending => !ending.isReturned) =
    tally.count fun ending => !ending.isReturned
  active_eq : pool.active = pool.staff Worker.isWorking
  endings_eq : tally.endings.map Prod.fst = tally.ledger.finished

namespace Counted

variable {pool after left : Pool Question} {uncounted refused : Nat} {tally : Tally Question}
  {chosen index : Nat} {seat : Seat} {stage next : Stage Question} {old new : Worker Question}

theorem start (config : PoolConfig) : Counted (Pool.start config : Pool Question) 0 0 {} := by
  have hnone (p : Worker Question → Bool) (hchecking : p .checking = false) :
      (Pool.start config : Pool Question).staff p = 0 := by
    simp [staff, Pool.start, List.countP_replicate, hchecking]
  constructor
  · rfl
  · rw [hnone Worker.isBusy rfl]
    rfl
  · rfl
  · rw [hnone _ rfl]
    rfl
  · rw [hnone _ rfl]
    rfl
  · rw [hnone Worker.isWorking rfl]
    rfl
  · rfl

theorem frame (h : Counted pool uncounted refused tally)
    (hqueue : after.queue.length = pool.queue.length)
    (hstaff : ∀ p : Worker Question → Bool, (∀ worker, p worker.woken = p worker) →
      after.staff p = pool.staff p)
    (hcounters : after.accepted = pool.accepted ∧ after.rejected = pool.rejected ∧
      after.completed = pool.completed ∧ after.failed = pool.failed ∧
      after.active = pool.active) : Counted after uncounted refused tally := by
  obtain ⟨haccepted, hrejected, hcompleted, hfailed, hactive⟩ := hcounters
  have hbusy := hstaff Worker.isBusy fun worker => by cases worker <;> rfl
  have hworking := hstaff Worker.isWorking fun worker => by cases worker <;> rfl
  have hended (p : Ending → Bool) := hstaff (Worker.endedWith p) fun worker => by
    cases worker <;> rfl
  exact {
    accepted_eq := haccepted ▸ h.accepted_eq
    balance := by rw [haccepted, hcompleted, hfailed, hqueue, hbusy, h.balance]
    rejected_eq := hrejected ▸ h.rejected_eq
    completed_eq := by rw [hcompleted, hended, h.completed_eq]
    failed_eq := by rw [hfailed, hended, h.failed_eq]
    active_eq := by rw [hactive, hworking, h.active_eq]
    endings_eq := h.endings_eq }

theorem enter {job : Routine Question} (h : Counted pool uncounted refused tally)
    {rest : Except Rejection Unit → Routine Question}
    (hentered : pool.enter job = (.ok (), { pool with queue := pool.queue ++ [job] })) :
    Counted { pool with queue := pool.queue ++ [job] } (uncounted + 1) refused
      (tally.addStage pool (.ready (.submit job rest))) := by
  have haccepted := h.accepted_eq
  have hbalance := h.balance
  exact { h with
    accepted_eq := by
      simp only [Tally.addStage, Ledger.addStage, Ledger.accepted, Ledger.push, hentered,
        List.filter_append, List.map_append, List.length_append] at haccepted ⊢
      exact congrArg (· + 1) haccepted
    balance := by
      change pool.accepted + (uncounted + 1) = pool.completed + pool.failed +
        (pool.queue ++ [job]).length + pool.staff Worker.isBusy
      rw [List.length_append, List.length_singleton]
      omega
    rejected_eq := by
      have hrejected := h.rejected_eq
      simp only [Tally.addStage, Tally.refusals, Ledger.addStage, Ledger.push, hentered,
        List.countP_append] at hrejected ⊢
      exact hrejected }

theorem refuse {job : Routine Question} {rejection : Rejection}
    (h : Counted pool uncounted refused tally)
    {rest : Except Rejection Unit → Routine Question}
    (hrefused : pool.enter job = (.error rejection, pool)) :
    Counted pool uncounted (refused + 1) (tally.addStage pool (.ready (.submit job rest))) := by
  have haccepted := h.accepted_eq
  have hrejected := h.rejected_eq
  exact { h with
    accepted_eq := by
      simp only [Tally.addStage, Ledger.addStage, Ledger.accepted, Ledger.push, hrefused,
        List.filter_append, List.map_append, List.length_append] at haccepted ⊢
      exact haccepted
    rejected_eq := by
      simp only [Tally.addStage, Tally.refusals, Ledger.addStage, Ledger.push, hrefused,
        List.countP_append] at hrejected ⊢
      exact congrArg (· + 1) hrejected }

theorem advance {laterUncounted laterRefused : Nat} (h : Counted pool uncounted refused tally)
    (hadvance : pool.advance? seat chosen stage = some (next, after))
    (huncounted : laterUncounted + stage.isUncounted.toNat =
      uncounted + next.isUncounted.toNat)
    (hrefused : laterRefused + stage.isRefused.toNat = refused + next.isRefused.toNat) :
    Counted after laterUncounted laterRefused (tally.addStage pool stage) := by
  have hstaff (p : Worker Question → Bool) (hwoken : ∀ worker, p worker.woken = p worker) :
      after.staff p = pool.staff p := staff_advance hwoken hadvance
  cases advance_of_some hadvance with
  | enter hentered =>
      cases huncounted
      cases hrefused
      exact h.enter hentered
  | refuse hanswer =>
      cases huncounted
      cases hrefused
      exact h.refuse hanswer
  | countAccepted =>
      have haccepted := h.accepted_eq
      have hbalance := h.balance
      change laterUncounted + 1 = uncounted at huncounted
      cases hrefused
      exact { h with
        accepted_eq := by
          change pool.accepted + 1 + laterUncounted = tally.ledger.accepted.length
          omega
        balance := by
          change pool.accepted + 1 + laterUncounted = pool.completed + pool.failed +
            pool.queue.length + pool.staff Worker.isBusy
          omega }
  | countRejected =>
      have hrejected := h.rejected_eq
      change laterRefused + 1 = refused at hrefused
      cases huncounted
      exact { h with
        rejected_eq := by
          change pool.rejected + 1 + laterRefused = tally.refusals
          omega }
  | close _ _ =>
      cases huncounted
      cases hrefused
      exact h.frame rfl hstaff ⟨rfl, rfl, rfl, rfl, rfl⟩
  | observe =>
      cases huncounted
      cases hrefused
      exact h
  | notify _ =>
      cases huncounted
      cases hrefused
      exact h.frame rfl hstaff ⟨rfl, rfl, rfl, rfl, rfl⟩
  | notifyAll _ =>
      cases huncounted
      cases hrefused
      exact h.frame rfl hstaff ⟨rfl, rfl, rfl, rfl, rfl⟩
  | await _ =>
      cases huncounted
      cases hrefused
      exact h.frame rfl hstaff ⟨rfl, rfl, rfl, rfl, rfl⟩
  | hold _ =>
      cases huncounted
      cases hrefused
      exact h.frame rfl hstaff ⟨rfl, rfl, rfl, rfl, rfl⟩
  | join _ _ =>
      cases huncounted
      cases hrefused
      exact h.frame rfl hstaff ⟨rfl, rfl, rfl, rfl, rfl⟩
  | stop _ _ =>
      cases huncounted
      cases hrefused
      exact h.frame rfl hstaff ⟨rfl, rfl, rfl, rfl, rfl⟩

theorem setWorker (h : Counted pool uncounted refused tally)
    (hold : pool.workers[index]? = some old) (hworking : new.isWorking = old.isWorking)
    (hbetween : new.isBetween = old.isBetween)
    (hended : ∀ p, new.endedWith p = old.endedWith p) :
    Counted (pool.setWorker index new) uncounted refused tally := by
  have hsame (p : Worker Question → Bool) (hp : p new = p old) :
      (pool.setWorker index new).staff p = pool.staff p := by
    have hcount := staff_setWorker p new hold
    rw [hp] at hcount
    exact Nat.add_right_cancel hcount
  have hbusy := hsame Worker.isBusy (by rw [Worker.isBusy, hworking, hbetween, Worker.isBusy])
  exact { h with
    balance := by
      rw [hbusy]
      exact h.balance
    completed_eq := by
      rw [hsame _ (hended _)]
      exact h.completed_eq
    failed_eq := by
      rw [hsame _ (hended _)]
      exact h.failed_eq
    active_eq := by
      rw [hsame _ hworking]
      exact h.active_eq }

theorem take {job : Routine Question} {rest : List (Routine Question)}
    (h : Counted pool uncounted refused tally)
    (hold : pool.workers[index]? = some .checking) (hqueue : pool.queue = job :: rest) :
    Counted ({ pool with queue := rest }.setWorker index (.fetched job)) uncounted refused
      { tally with ledger := tally.ledger.take index job } := by
  have hset (p : Worker Question → Bool) :
      ({ pool with queue := rest }.setWorker index (.fetched job)).staff p + (p .checking).toNat =
        pool.staff p + (p (.fetched job)).toNat := staff_setWorker p _ hold
  have hended (p : Ending → Bool) : _ = pool.staff _ := hset (Worker.endedWith p)
  have hbusy := hset Worker.isBusy
  have hbalance := h.balance
  rw [hqueue, List.length_cons] at hbalance
  exact { h with
    balance := by
      change pool.accepted + uncounted = pool.completed + pool.failed + rest.length + _
      change _ + 0 = _ + 1 at hbusy
      omega
    completed_eq := (congrArg (pool.completed + ·) (hended _)).trans h.completed_eq
    failed_eq := (congrArg (pool.failed + ·) (hended _)).trans h.failed_eq
    active_eq := h.active_eq.trans (hset Worker.isWorking).symm }

theorem begin {job : Routine Question} (h : Counted pool uncounted refused tally)
    (hold : pool.workers[index]? = some (.fetched job)) :
    Counted (pool.enterJob.setWorker index (.working (.ready job))) uncounted refused
      { tally with ledger := tally.ledger.begin index job } := by
  have hset (p : Worker Question → Bool) :
      (pool.enterJob.setWorker index (.working (.ready job))).staff p + (p (.fetched job)).toNat =
        pool.staff p + (p (.working (.ready job))).toNat := staff_setWorker p _ hold
  have hended (p : Ending → Bool) : _ = pool.staff _ := hset (Worker.endedWith p)
  have hbusy := hset Worker.isBusy
  exact { h with
    balance := by
      rw [Nat.add_right_cancel hbusy]
      exact h.balance
    completed_eq := (congrArg (pool.completed + ·) (hended _)).trans h.completed_eq
    failed_eq := (congrArg (pool.failed + ·) (hended _)).trans h.failed_eq
    active_eq := (congrArg (· + 1) h.active_eq).trans (hset Worker.isWorking).symm }

theorem finish {ending : Ending} (h : Counted pool uncounted refused tally)
    (hold : pool.workers[index]? = some (.working (.ready (.finish ending)))) :
    Counted (pool.leaveJob.setWorker index (.ended ending)) uncounted refused
      (tally.addWorker pool index (.working (.ready (.finish ending)))) := by
  have hset (p : Worker Question → Bool) :
      (pool.leaveJob.setWorker index (.ended ending)).staff p +
          (p (.working (.ready (.finish ending)))).toNat =
        pool.staff p + (p (.ended ending)).toNat := staff_setWorker p _ hold
  have hended (p : Ending → Bool) : _ = pool.staff _ + (p ending).toNat :=
    hset (Worker.endedWith p)
  have hbusy := hset Worker.isBusy
  have hworking := hset Worker.isWorking
  have hcount (p : Ending → Bool) :
      (tally.addWorker pool index (.working (.ready (.finish ending)))).count p =
        tally.count p + (p ending).toNat := by
    simp only [Tally.count, Tally.addWorker, Worker.ending?, Option.map_some,
      Option.toList_some, List.countP_append, List.countP_singleton]
    cases p ending <;> rfl
  exact {
    accepted_eq := h.accepted_eq
    balance := by
      rw [Nat.add_right_cancel hbusy]
      exact h.balance
    rejected_eq := h.rejected_eq
    completed_eq := by
      rw [hcount, ← h.completed_eq, Nat.add_assoc]
      exact congrArg (pool.completed + ·) (hended _)
    failed_eq := by
      rw [hcount, ← h.failed_eq, Nat.add_assoc]
      exact congrArg (pool.failed + ·) (hended _)
    active_eq := by
      have hactive := h.active_eq
      change _ + 1 = _ + 0 at hworking
      change pool.active - 1 = _
      omega
    endings_eq := by
      simp only [Tally.addWorker, Worker.ending?, Option.map_some, Option.toList_some,
        List.map_append, h.endings_eq]
      rfl }

theorem countReturned (h : Counted pool uncounted refused tally)
    (hold : pool.workers[index]? = some (.ended .returned)) :
    Counted ({ pool with completed := pool.completed + 1 }.setWorker index .checking) uncounted
      refused tally := by
  have hset (p : Worker Question → Bool) :
      ({ pool with completed := pool.completed + 1 }.setWorker index .checking).staff p +
        (p (.ended .returned)).toNat = pool.staff p + (p .checking).toNat :=
    staff_setWorker p _ hold
  have hbusy : _ + 1 = pool.staff Worker.isBusy := hset Worker.isBusy
  have hreturned : _ + 1 = pool.staff _ := hset (Worker.endedWith Ending.isReturned)
  have hlost : _ = pool.staff _ := hset (Worker.endedWith fun ending => !ending.isReturned)
  have hbalance := h.balance
  have hcompleted := h.completed_eq
  exact { h with
    balance := by
      change pool.accepted + uncounted =
        pool.completed + 1 + pool.failed + pool.queue.length + _
      omega
    completed_eq := by
      change pool.completed + 1 + _ = _
      omega
    failed_eq := (congrArg (pool.failed + ·) hlost).trans h.failed_eq
    active_eq := h.active_eq.trans (hset Worker.isWorking).symm }

theorem countLost {ending : Ending} {record : LogRecord} (h : Counted pool uncounted refused tally)
    (hlost : ending.isReturned = false)
    (hold : pool.workers[index]? = some (.ended ending)) :
    Counted (({ pool with failed := pool.failed + 1 }.emit record).setWorker index .checking)
      uncounted refused tally := by
  have hset (p : Worker Question → Bool) :
      (({ pool with failed := pool.failed + 1 }.emit record).setWorker index .checking).staff p +
        (p (.ended ending)).toNat = pool.staff p + (p .checking).toNat :=
    staff_setWorker p _ hold
  have hbusy : _ + 1 = pool.staff Worker.isBusy := hset Worker.isBusy
  have hreturned := hset (Worker.endedWith Ending.isReturned)
  have hunsuccessful := hset (Worker.endedWith fun ending => !ending.isReturned)
  simp only [Worker.endedWith, hlost, Bool.not_false, Bool.toNat_true, Bool.toNat_false,
    Nat.add_zero] at hreturned hunsuccessful
  have hbalance := h.balance
  have hfailed := h.failed_eq
  exact { h with
    balance := by
      change pool.accepted + uncounted =
        pool.completed + (pool.failed + 1) + pool.queue.length + _
      omega
    completed_eq := (congrArg (pool.completed + ·) hreturned).trans h.completed_eq
    failed_eq := by
      change pool.failed + 1 + _ = _
      omega
    active_eq := h.active_eq.trans (hset Worker.isWorking).symm }

theorem serve {laterUncounted laterRefused : Nat} (h : Counted pool uncounted refused tally)
    (hserve : Serve pool chosen index old new left) (hold : pool.workers[index]? = some old)
    (huncounted : laterUncounted + (old.isAt Stage.isUncounted).toNat =
      uncounted + (new.isAt Stage.isUncounted).toNat)
    (hrefused : laterRefused + (old.isAt Stage.isRefused).toNat =
      refused + (new.isAt Stage.isRefused).toNat) :
    Counted (left.setWorker index new) laterUncounted laterRefused
      (tally.addWorker pool index old) := by
  have hkept := getElem?_workers_serve hserve hold
  cases hserve with
  | goOn hadvance =>
      rw [Tally.addWorker_of_none _ _ _ (Worker.ending?_of_advance hadvance),
        Ledger.addWorker_working hadvance]
      exact (h.advance hadvance huncounted hrefused).setWorker hkept rfl rfl fun _ => rfl
  | take hqueue =>
      cases huncounted
      cases hrefused
      rw [Tally.addWorker_of_none _ _ _ rfl]
      simp only [Ledger.addWorker, hqueue]
      exact h.take hold hqueue
  | park hempty _ =>
      cases huncounted
      cases hrefused
      rw [Tally.addWorker_of_none _ _ _ rfl]
      simp only [Ledger.addWorker, hempty]
      exact h.setWorker hold rfl rfl fun _ => rfl
  | leave hempty _ =>
      cases huncounted
      cases hrefused
      rw [Tally.addWorker_of_none _ _ _ rfl]
      simp only [Ledger.addWorker, hempty]
      have hlogged : Counted (pool.emit (.workerExiting index)) uncounted refused tally :=
        h.frame rfl (fun _ _ => rfl) ⟨rfl, rfl, rfl, rfl, rfl⟩
      exact hlogged.setWorker hold rfl rfl fun _ => rfl
  | begin =>
      cases huncounted
      cases hrefused
      rw [Tally.addWorker_of_none _ _ _ rfl]
      exact h.begin hold
  | finish =>
      cases huncounted
      cases hrefused
      exact h.finish hold
  | @count ending =>
      cases huncounted
      cases hrefused
      rw [Tally.addWorker_of_none _ _ _ rfl]
      cases ending with
      | returned => exact h.countReturned hold
      | failed error => exact h.countLost rfl hold
      | panicked text => exact h.countLost rfl hold

end Counted

namespace System

variable {config : PoolConfig} {system after : System Question} {seen : Tally Question}

abbrev Tallied (system : System Question) (tally : Tally Question) : Prop :=
  Counted system.pool (system.threads Stage.isUncounted) (system.threads Stage.isRefused) tally

theorem threads_call (p : Stage Question → Bool) {routine : Routine Question}
    (hready : p (.ready routine) = false) : (system.call routine).threads p = system.threads p := by
  simp [threads, call, List.countP_append, hready]

theorem threads_eq_zero {p : Stage Question → Bool}
    (h : ∀ thread stage, system.stage? thread = some stage → p stage = false) :
    system.threads p = 0 := by
  have hcallers : system.callers.countP p = 0 := by
    apply List.countP_eq_zero.mpr
    intro stage hmem
    obtain ⟨index, hindex⟩ := List.mem_iff_getElem?.mp hmem
    exact Bool.eq_false_iff.mp (h (.caller index) stage hindex)
  have hworkers : system.pool.working p = 0 := by
    apply List.countP_eq_zero.mpr
    intro worker hmem hat
    obtain ⟨stage, rfl, hp⟩ := Worker.isAt_iff.mp hat
    obtain ⟨index, hindex⟩ := List.mem_iff_getElem?.mp hmem
    have hstage : system.stage? (.worker index) = some stage := by
      rw [stage?, hindex, Option.bind_some, Worker.stage?]
    exact Bool.eq_false_iff.mp (h (.worker index) stage hstage) hp
  rw [threads, hcallers, hworkers]

theorem Tallied.step {move : Move Question} (h : Tallied system seen)
    (hstep : step? system move = some after) : Tallied after (tallyMove system move seen) := by
  cases transition_of_step hstep with
  | call =>
      rw [Tallied, threads_call _ rfl, threads_call _ rfl]
      exact h
  | serve hold hserve =>
      have hkept := getElem?_workers_serve hserve hold
      simp only [tallyMove, hold]
      exact Counted.serve h hserve hold (threads_setWorker _ _ (working_serve _ hserve) hkept)
        (threads_setWorker _ _ (working_serve _ hserve) hkept)
  | @hearWorker index _ next answer hold =>
      have hthreads (p : Stage Question → Bool) := threads_setWorker p
        (.working (.ready (next answer))) (rfl : system.pool.working p = system.pool.working p) hold
      rw [Tallied, Nat.add_right_cancel (hthreads Stage.isUncounted),
        Nat.add_right_cancel (hthreads Stage.isRefused)]
      exact Counted.setWorker h hold rfl rfl fun _ => rfl
  | advance hstage hadvance =>
      simp only [tallyMove, hstage]
      exact Counted.advance h hadvance (threads_setCaller _ _ (working_advance _ hadvance) hstage)
        (threads_setCaller _ _ (working_advance _ hadvance) hstage)
  | @hearCaller index _ next answer hstage =>
      have hthreads (p : Stage Question → Bool) := threads_setCaller p (.ready (next answer))
        (rfl : system.pool.working p = system.pool.working p) hstage
      rw [Tallied, Nat.add_right_cancel (hthreads Stage.isUncounted),
        Nat.add_right_cancel (hthreads Stage.isRefused)]
      exact h
  | @wake index =>
      simp only [Tallied, threads, working_wake]
      exact Counted.frame h rfl (fun _ hwoken => staff_wake hwoken system.pool index)
        ⟨rfl, rfl, rfl, rfl, rfl⟩

theorem tallied_of_run {moves : List (Move Question)} {last : System Question}
    (hrun : (start config).run? moves = some last) : Tallied last (tally (start config) moves) := by
  have hnone (p : Stage Question → Bool) : (start config : System Question).threads p = 0 := by
    simp [start, Pool.start, threads, working, List.countP_replicate, Worker.isAt]
  have hstart : Tallied (start config : System Question) {} := by
    rw [Tallied, hnone, hnone]
    exact .start config
  exact Steps.history_invariant hrun hstart fun _ _ _ _ h hstep => h.step hstep

theorem ledger_tally (first : System Question) (moves : List (Move Question)) :
    (tally first moves).ledger = ledger first moves := by
  apply Steps.history_map Tally.ledger
  intro system move tally
  cases move with
  | worker chosen index =>
      simp only [tallyMove, note]
      cases system.pool.workers[index]? <;> rfl
  | caller chosen index =>
      simp only [tallyMove, note]
      cases system.callers[index]? <;> rfl
  | call routine => rfl
  | answerWorker index answer => rfl
  | answerCaller index answer => rfl
  | wake index => rfl

def NoPush (system : System Question) : Prop :=
  ∀ thread stage, system.stage? thread = some stage → stage.isPushing = false

/-- What the counters say in every state, whatever the threads are in the middle of. -/
structure CountersBalance (config : PoolConfig) (system : System Question)
    (tally : Tally Question) (chronicle : Chronicle) : Prop where
  accepted_eq : system.pool.accepted + system.threads Stage.isUncounted =
    tally.ledger.accepted.length
  balance : system.pool.accepted + system.threads Stage.isUncounted =
    system.pool.completed + system.pool.failed + system.pool.queue.length +
      system.pool.staff Worker.isBusy
  rejected_eq : system.pool.rejected + system.threads Stage.isRefused = tally.refusals
  /-- Every run of a job that is over ends in one way, and counts in one counter. -/
  completed_eq : system.pool.completed + system.pool.staff (Worker.endedWith Ending.isReturned) =
    tally.count Ending.isReturned
  failed_eq : system.pool.failed +
      system.pool.staff (Worker.endedWith fun ending => !ending.isReturned) =
    tally.count fun ending => !ending.isReturned
  endings_nodup : (tally.endings.map Prod.fst).Nodup
  endings_begun : tally.endings.map Prod.fst ⊆ tally.ledger.begunNumbers
  active_eq : system.pool.active = system.pool.staff Worker.isWorking
  active_le : system.pool.stats.active ≤ system.pool.stats.workers
  workers_eq : system.pool.stats.workers = config.workers
  inFlight_eq : system.NoPush → (∀ worker ∈ system.pool.workers, worker.isBetween = false) →
    system.pool.completed + system.pool.failed ≤ system.pool.accepted ∧
      system.pool.stats.inFlight = system.pool.stats.queued + system.pool.stats.active
  /-- Once a shutdown from outside has come back, nothing that was accepted is left. -/
  accepted_of_returned : ∀ index phase, (.caller index, phase) ∈ chronicle.returns →
    system.NoPush → system.pool.accepted = system.pool.completed + system.pool.failed

theorem uncounted_eq_zero (h : system.NoPush) : system.threads Stage.isUncounted = 0 :=
  threads_eq_zero fun thread stage hstage =>
    Stage.isUncounted_of_not_pushing (h thread stage hstage)

theorem staff_isBusy {pool : Pool Question}
    (h : ∀ worker ∈ pool.workers, worker.isBetween = false) :
    pool.staff Worker.isBusy = pool.staff Worker.isWorking := by
  apply List.countP_congr
  intro worker hmem
  rw [Worker.isBusy, h worker hmem, Bool.or_false]

theorem Tallied.inFlight_eq (h : Tallied system seen) (hpushes : system.NoPush)
    (hworkers : ∀ worker ∈ system.pool.workers, worker.isBetween = false) :
    system.pool.completed + system.pool.failed ≤ system.pool.accepted ∧
      system.pool.stats.inFlight = system.pool.stats.queued + system.pool.stats.active := by
  have hbalance := h.balance
  rw [uncounted_eq_zero hpushes, staff_isBusy hworkers, ← h.active_eq] at hbalance
  simp only [Stats.inFlight, stats]
  omega

theorem Tallied.accepted_eq_of_stopped (h : Tallied system seen) (hpushes : system.NoPush)
    (hexited : ∀ worker ∈ system.pool.workers, worker = .exited)
    (hempty : system.pool.queue = []) :
    system.pool.accepted = system.pool.completed + system.pool.failed := by
  have hbusy : system.pool.staff Worker.isBusy = 0 := by
    apply List.countP_eq_zero.mpr
    intro worker hmem
    rw [hexited worker hmem]
    exact Bool.false_ne_true
  have hbalance := h.balance
  rw [uncounted_eq_zero hpushes, hbusy, hempty] at hbalance
  exact hbalance

/-- However pushes, workers and shutdowns interleave, what the counters miss is what threads
have done and are yet to count. -/
theorem counters_balance (hvalid : config.Valid) {moves : List (Move Question)}
    {last : System Question} (hrun : (start config).run? moves = some last) :
    CountersBalance config last (tally (start config) moves) (chronicle (start config) moves) := by
  have h := tallied_of_run hrun
  have horderly := orderly_of_run hrun
  have hlifecycle := (recorded_of_run hrun).lifecycle horderly hvalid
  have hworkers : last.pool.workers.length = config.workers := by
    rw [← horderly.length_hands, hands, List.length_map]
  have hexact := horderly.exactlyOnce
  rw [← ledger_tally] at hexact
  exact {
    accepted_eq := h.accepted_eq
    balance := h.balance
    rejected_eq := h.rejected_eq
    completed_eq := h.completed_eq
    failed_eq := h.failed_eq
    endings_nodup := h.endings_eq ▸ hexact.finished_nodup
    endings_begun := h.endings_eq ▸ hexact.finished_begun
    active_eq := h.active_eq
    active_le := by
      change last.pool.active ≤ last.pool.workers.length
      rw [h.active_eq]
      exact List.countP_le_length
    workers_eq := hworkers
    inFlight_eq := h.inFlight_eq
    accepted_of_returned := by
      intro index phase hmem hpushes
      have hstopped := (hlifecycle.returned_outside index phase hmem).2
      obtain ⟨hexited, hempty⟩ := hlifecycle.stopped_empty hstopped
      exact h.accepted_eq_of_stopped hpushes hexited hempty }

/-- A job is over before it is counted as accepted, and so it still is when the shutdown of
another caller comes back. -/
def overtakenMoves : List (Move Empty) :=
  [.call (.submit (.finish (.failed "disk full")) fun _ => .finish .returned),
    .call (.shutdown (.finish .returned)), .caller 0 0, .worker 0 0, .worker 0 0, .worker 0 0,
    .worker 0 0, .caller 0 1, .caller 0 1, .worker 0 0, .caller 0 1, .caller 0 1, .caller 0 1]

theorem counters_balance_overtakenMoves :
    ∃ last : System Empty, (start ⟨1, 1⟩).run? overtakenMoves = some last ∧
      last.pool.accepted = 0 ∧ last.pool.failed = 1 ∧ last.threads Stage.isUncounted = 1 ∧
      CountersBalance ⟨1, 1⟩ last (tally (start ⟨1, 1⟩) overtakenMoves)
        (chronicle (start ⟨1, 1⟩) overtakenMoves) := by
  obtain ⟨last, hrun, haccepted, hfailed, huncounted⟩ :
      ∃ last : System Empty, (start ⟨1, 1⟩).run? overtakenMoves = some last ∧
        last.pool.accepted = 0 ∧ last.pool.failed = 1 ∧ last.threads Stage.isUncounted = 1 :=
    ⟨_, rfl, rfl, rfl, rfl⟩
  exact ⟨last, hrun, haccepted, hfailed, huncounted, counters_balance (by decide) hrun⟩

end System

end Turnstile.Pool

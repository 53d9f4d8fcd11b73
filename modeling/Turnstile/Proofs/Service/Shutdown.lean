import Turnstile.Proofs.Service.Claims
import Turnstile.Proofs.Service.Handlers
import Turnstile.Proofs.Service.LastFlush

/-!
What holds when the shutdown of a service returns. All handlers that were promised to run have
run, no further one gets in, and the last flush has left nothing to be offered. Requests can
still come after that flush, and what they decide stays pending.
-/

namespace Turnstile.Service

namespace Setup

variable {setup : Setup σ} {before moves : List System.Move} {system quiet last after : System σ}
  {index : Nat}

/-- The first shutdown from outside, from where it claims the service until it returns. When
it begins its last flush nobody is in a call at the site, and nobody enters one until that
flush is over. -/
structure FirstShutdown (setup : Setup σ) (before : List System.Move) (system : System σ)
    (index : Nat) (moves : List System.Move) (last : System σ) : Prop where
  first : ∀ other, .caller other ∉ setup.start.claims before
  claims : system.question? (.caller index) = some .claim
  run : system.run? (.answer (.caller index) :: moves) = some last
  returned : last.stage? (.caller index) = some (.ready (.finish .returned))
  alone : ∀ drain flushing since quiet, moves = drain ++ .enter (.caller index) ::
      (flushing ++ .leave (.caller index) :: since) →
    system.run? (.answer (.caller index) :: drain) = some quiet →
      quiet.calls = [] ∧ ∀ move ∈ flushing, move.entersSite = false

/-- The pool is stopped with nothing queued, and has run the handlers of all accepted
dispatches, each one time and on the batch of its own dispatch, and those of no others. -/
structure Served (setup : Setup σ) (moves : List System.Move) (system : System σ) : Prop where
  phase_eq : system.service.pool.phase = .stopped
  queue_eq : system.service.pool.queue = []
  ranOnce : ∀ index course outcome, (setup.journal moves).courses[index]? = some course →
    course.outcome? = some outcome → outcome.isAccepted = true →
      setup.RanOnce moves index (course.dispatch.job setup.validator)
  notRun : ∀ index course outcome, (setup.journal moves).courses[index]? = some course →
    course.outcome? = some outcome → outcome.isAccepted = false → setup.runsOf moves index = []

/-- No dispatch is accepted after the first `base` of them, and none is kept waiting. -/
structure Refusing (setup : Setup σ) (base : Nat) (moves : List System.Move) (system : System σ) :
    Prop where
  refused : ∀ index course outcome, base ≤ index →
    (setup.journal moves).courses[index]? = some course → course.outcome? = some outcome →
      outcome = .rateLimited ∨ (∃ defect, outcome = .invalid defect) ∨
        outcome = .overloaded .shuttingDown
  /-- A dispatch that is under way comes to its outcome by what its own thread does. -/
  answered : ∀ thread index, (setup.journal moves).current thread = some index →
    ∃ rest last, (∀ move ∈ rest, System.Move.thread? move = some thread) ∧
      system.run? rest = some last ∧ setup.Answered (moves ++ rest) index
  returns : system.service.front.dropped = false → ∀ dispatch, ∃ rest last,
    (∀ move ∈ rest, System.Move.thread? move = some system.newcomer) ∧
      system.run? (.dispatch dispatch :: rest) = some last ∧
      ∃ course outcome, (setup.journal (moves ++ .dispatch dispatch :: rest)).courses[
          (setup.journal moves).courses.length]? = some course ∧
        course.dispatch = dispatch ∧ course.outcome? = some outcome

/-- When a shutdown has returned, what was accepted is served, what was decided before its last
flush was over is accounted for, and nothing is accepted any more. -/
structure ServedAndFlushed (setup : Setup σ) (index : Nat) (moves : List System.Move)
    (last : System σ) : Prop where
  served : Served setup moves last
  flushed : ∃ drain flushing since flushed, moves = drain ++ .enter (.caller index) ::
      (flushing ++ .leave (.caller index) :: since) ∧
    FlushedOut setup (drain ++ .enter (.caller index) :: (flushing ++ [.leave (.caller index)]))
      since flushed last
  later : ∀ rest after, last.run? rest = some after → Served setup (moves ++ rest) after ∧
    Refusing setup (setup.journal moves).courses.length (moves ++ rest) after

namespace Shut

theorem served (h : Shut setup moves system) : Served setup moves system where
  phase_eq := h.stopped
  queue_eq := (allRun_of_stopped h.run h.stopped).queue_eq
  ranOnce := fun _ _ _ hcourse houtcome haccepted =>
    ranOnce_of_stopped h.kept h.run h.stopped hcourse houtcome haccepted
  notRun := fun _ _ _ hcourse houtcome hrefused =>
    runsOf_eq_nil h.kept hcourse houtcome hrefused

theorem refusing {rest : List System.Move} (h : Shut setup moves system)
    (hrun : system.run? rest = some after) :
    Refusing setup (setup.journal moves).courses.length (moves ++ rest) after where
  refused := by
    intro index course outcome hbase hcourse houtcome
    have hdecided := (h.run_append hrun).kept.conducted.decided course
      (List.mem_of_getElem? hcourse) outcome houtcome
    exact hdecided.refused fun answer => h.refusedFrom hrun index course answer hbase hcourse
  answered := fun _ _ hcurrent => (h.run_append hrun).exists_run hcurrent
  returns := (h.run_append hrun).exists_run_dispatch

end Shut

theorem FirstShutdown.closing (h : FirstShutdown setup before system index moves last)
    (hbefore : setup.start.run? before = some system) :
    ∃ claimed, System.step? system (.answer (.caller index)) = some claimed ∧
      claimed.stage? (.caller index) = some (.ready Shutdown.signalFlusher) ∧
      claimed.call? (.caller index) = none ∧ claimed.run? moves = some last := by
  have hopen : system.service.front.stopped = false := by
    apply Bool.eq_false_iff.mpr
    intro hstopped
    obtain ⟨other, hmem⟩ := exists_claim_of_stopped hbefore hstopped
    exact h.first other hmem
  obtain ⟨rest, hstage⟩ := System.stage?_of_question h.claims
  obtain ⟨-, hclaim, hnone⟩ := (kept_of_free_run hbefore).conducted.of_claim hstage
  cases hclaim
  have hanswer : system.service.front.answerAtOnce? .claim = some (true,
      { system.service.front with
        stopped := true, current? := none, taken? := system.service.front.current? }) := by
    have hclaims : system.service.front.claim = (true, _) := if_neg (hopen ▸ Bool.false_ne_true)
    exact congrArg some hclaims
  have hstep := System.step?_answer hstage hanswer rfl
  have hseat : index < system.service.system.callers.length :=
    (List.getElem?_eq_some_iff.mp hstage).1
  have hrun := h.run
  rw [System.run?, Steps.run?_cons, hstep] at hrun
  exact ⟨_, hstep, List.getElem?_set_self hseat, hnone, hrun⟩

/-- Whatever handlers have done in between, the first shutdown from outside has everything
served and flushed when it returns, and nothing can be dispatched after it. -/
theorem served_and_flushed_of_firstShutdown (hbefore : setup.start.run? before = some system)
    (h : FirstShutdown setup before system index moves last) :
    ServedAndFlushed setup index (before ++ .answer (.caller index) :: moves) last := by
  obtain ⟨claimed, hstep, hstage, hnone, hmoves⟩ := h.closing hbefore
  obtain ⟨drain, during, quiet, rfl, hdrain, hflush, hlater⟩ :=
    Closing.signalFlusher.exists_lastFlush hstage hnone hmoves h.returned
  have hquiet : system.run? (.answer (.caller index) :: drain) = some quiet := by
    rw [System.run?, Steps.run?_cons, hstep]
    exact hdrain
  have hrun := Steps.run?_append_of_run? hbefore hquiet
  have hshut : Shut setup (before ++ .answer (.caller index) :: drain) quiet :=
    ⟨hrun, halted_of_run hrun _ _ hflush rfl⟩
  have hlast := hshut.run_append hlater
  have hsplit (rest : List System.Move) :
      before ++ .answer (.caller index) :: (drain ++ .enter (.caller index) :: rest) =
        before ++ .answer (.caller index) :: drain ++ .enter (.caller index) :: rest := by simp
  rw [hsplit]
  exact {
    served := hlast.served
    flushed := by
      obtain ⟨flushing, since, flushed, rfl, hflushed⟩ :=
        exists_flushedOut hrun hflush hlater h.returned fun flushing since hsame =>
          h.alone drain flushing since quiet (hsame ▸ rfl) hquiet
      exact ⟨_, flushing, since, flushed, rfl, hflushed⟩
    later := fun rest after hrest => ⟨(hlast.run_append hrest).served, hlast.refusing hrest⟩ }

def tight : Setup Unit where
  admission := ⟨3, .ofParts 0 10, 1⟩
  admission_valid := by decide
  pool := ⟨1, 2⟩
  pool_valid := by decide
  receive := fun _ _ _ => (⟨.delivered, []⟩, ())
  sink := ()

def unruly : Dispatch where
  client := "a"
  batch := ⟨"host", [{ name := "load" }]⟩
  handler := fun batch =>
    .use (.request "a") fun _ => .shutdown <|
      .dispatch "b" batch (fun _ => .finish .returned) fun _ => .finish (.panicked "boom")

def callMoves (thread : Thread) (orders : List (List String)) : List System.Move :=
  .enter thread :: (orders.map (.part thread) ++ [.leave thread])

def unrulyMoves : List System.Move :=
  .dispatch unruly :: callMoves (.caller 0) (List.replicate 5 []) ++
    [.caller 0 0, .caller 0 0, .caller 0 0, .answer (.caller 0), .worker 0 0, .worker 0 0,
      .shutdown, .answer (.caller 1)]

def drainMoves : List System.Move :=
  [.answer (.caller 1), .answer (.caller 1), .caller 0 1] ++
    callMoves (.worker 0) (List.replicate 4 []) ++ [.worker 0 0, .worker 0 0, .caller 0 1] ++
    callMoves (.worker 0) (List.replicate 5 []) ++
    [.worker 0 0, .worker 0 0, .answer (.worker 0), .worker 0 0, .caller 0 1, .worker 0 0,
      .worker 0 0, .caller 0 1, .caller 0 1]

def flushMoves : List System.Move :=
  (["a", "b"] :: List.replicate 7 []).map (.part (.caller 1))

/-- A caller makes a request after the last flush and before the shutdown returns. -/
def lateMoves : List System.Move :=
  .use (.request "c") :: callMoves (.caller 2) (List.replicate 5 []) ++ [.answer (.caller 1)]

def returningMoves : List System.Move :=
  drainMoves ++ .enter (.caller 1) :: (flushMoves ++ .leave (.caller 1) :: lateMoves)

def shutdownMoves : List System.Move := unrulyMoves ++ .answer (.caller 1) :: returningMoves

theorem firstShutdown_returningMoves :
    ∃ system last, tight.start.run? unrulyMoves = some system ∧
      FirstShutdown tight unrulyMoves system 1 returningMoves last ∧
      (tight.journal shutdownMoves).courses.map Course.outcome? =
        [some (.accepted 1), some (.overloaded .shuttingDown)] ∧
      (tight.siteLedger shutdownMoves).offers.map Site.Offer.client = ["a", "b"] ∧
      last.service.front.site.controller.metrics.dropped = 1 ∧
      last.service.front.site.controller.pending "c" = 1 := by
  obtain ⟨system, quiet, last, hrun, hnone, hclaims, hquiet, hcalls, hlast, hreturned, hshown⟩ :
      ∃ system quiet last, tight.start.run? unrulyMoves = some system ∧
        tight.start.claims unrulyMoves = [] ∧
        system.question? (.caller 1) = some .claim ∧
        system.run? (.answer (.caller 1) :: drainMoves) = some quiet ∧ quiet.calls = [] ∧
        quiet.run? (.enter (.caller 1) :: (flushMoves ++ .leave (.caller 1) :: lateMoves)) =
          some last ∧
        last.stage? (.caller 1) = some (.ready (.finish .returned)) ∧
        (tight.journal shutdownMoves).courses.map Course.outcome? =
          [some (.accepted 1), some (.overloaded .shuttingDown)] ∧
        (tight.siteLedger shutdownMoves).offers.map Site.Offer.client = ["a", "b"] ∧
        last.service.front.site.controller.metrics.dropped = 1 ∧
        last.service.front.site.controller.pending "c" = 1 :=
    ⟨_, _, _, rfl, rfl, rfl, rfl, rfl, rfl, rfl, rfl, rfl, rfl, rfl⟩
  refine ⟨system, last, hrun, ?_, hshown⟩
  exact {
    first := fun other => by simp [hnone]
    claims := hclaims
    run := Steps.run?_append_of_run? hquiet hlast
    returned := hreturned
    alone := by
      intro drain flushing since middle hmoves hmiddle
      obtain ⟨rfl, -, hduring⟩ := (List.append_cons_inj_of_notMem
        (by simp [drainMoves, callMoves])
        (by simp [flushMoves, lateMoves, callMoves])).mp hmoves
      obtain ⟨rfl, -, -⟩ := (List.append_cons_inj_of_notMem (by simp [flushMoves])
        (by simp [lateMoves, callMoves])).mp hduring
      cases hquiet.symm.trans hmiddle
      exact ⟨hcalls, by simp [flushMoves, System.Move.entersSite]⟩ }

theorem served_and_flushed_shutdownMoves :
    ∃ system last, tight.start.run? unrulyMoves = some system ∧
      FirstShutdown tight unrulyMoves system 1 returningMoves last ∧
      ServedAndFlushed tight 1 shutdownMoves last := by
  obtain ⟨system, last, hrun, hfirst, -⟩ := firstShutdown_returningMoves
  exact ⟨system, last, hrun, hfirst, served_and_flushed_of_firstShutdown hrun hfirst⟩

/-- A first shutdown can return with a decision pending that it did not wait for. -/
theorem late_request_stays_pending :
    ∃ system last, tight.start.run? unrulyMoves = some system ∧
      FirstShutdown tight unrulyMoves system 1 returningMoves last ∧
      last.service.front.site.controller.pending "c" = 1 ∧
      "c" ∉ (tight.siteLedger shutdownMoves).offers.map Site.Offer.client := by
  obtain ⟨system, last, hrun, hfirst, -, hoffers, -, hpending⟩ := firstShutdown_returningMoves
  exact ⟨system, last, hrun, hfirst, hpending, by simp [hoffers]⟩

end Setup

end Turnstile.Service

import Turnstile.Proofs.Service.Components
import Turnstile.Proofs.Service.Submissions

/-!
Runs of a service from its beginning, with what happens in its pool, at its site and in
its dispatches. In all of them the threads keep to their courses.
-/

namespace Turnstile

theorem Pool.Ledger.accepted_congr {ledger other : Ledger Question}
    (h : ledger.pushes = other.pushes) : ledger.accepted = other.accepted := by
  rw [accepted, h, accepted]

namespace Service

def System.Move.isPart : System.Move → Bool
  | .part .. => true
  | .dispatch _ | .use _ | .shutdown | .drop | .clock _ | .release _ | .worker .. | .caller ..
  | .wake _ | .answer _ | .enter _ | .leave _ | .tick _ | .endFlusher _ => false

structure Setup (σ : Type) where
  admission : AdmissionConfig
  admission_valid : admission.Valid
  pool : PoolConfig
  pool_valid : pool.Valid
  receive : Receiver σ
  sink : σ
  time : TimeSource := .system
  validator : Validator := {}

namespace Setup

variable (setup : Setup σ)

def site : Site.System σ :=
  .start setup.admission setup.admission_valid setup.receive setup.sink setup.time

def start : System σ where
  service :=
    { front := { site := setup.site.site, validator := setup.validator }
      system := .start setup.pool }

def poolLedger (moves : List System.Move) : Pool.Ledger Question :=
  Pool.System.ledger (.start setup.pool) (setup.start.poolMoves moves)

def siteLedger (moves : List System.Move) : Site.Ledger :=
  Site.System.ledger setup.site (setup.start.visits moves).moves

def journal (moves : List System.Move) : Journal := setup.start.journal moves

variable {setup} {moves before : List System.Move} {system last after : System σ}
  {move : System.Move} {strict : Bool}

theorem pool_run (hrun : setup.start.run? moves = some last) :
    (Pool.System.start setup.pool).run? (setup.start.poolMoves moves) =
      some last.service.system :=
  System.run?_poolMoves hrun

theorem orderly_of_run (hrun : setup.start.run? moves = some last) :
    Pool.Orderly setup.pool last.service.pool (setup.poolLedger moves) :=
  Pool.System.orderly_of_run (pool_run hrun)

theorem journal_concat (hbefore : setup.start.run? before = some system)
    (hstep : System.step? system move = some after) :
    setup.journal (before ++ [move]) = system.note move (setup.journal before) := by
  unfold journal System.journal
  exact Steps.history_concat ({} : Journal) hbefore hstep

theorem poolLedger_concat (hbefore : setup.start.run? before = some system)
    (hstep : System.step? system move = some after) :
    setup.poolLedger (before ++ [move]) =
      (system.poolMove? move).elim (setup.poolLedger before) fun poolMove =>
        Pool.System.note system.service.system poolMove (setup.poolLedger before) := by
  have hmoves : setup.start.poolMoves (before ++ [move]) =
      setup.start.poolMoves before ++ (system.poolMove? move).toList :=
    Steps.history_concat [] hbefore hstep
  have hpool := System.poolStep_of_step hstep
  rw [poolLedger, hmoves, Pool.System.ledger, Steps.history_append _ _ (pool_run hbefore)]
  cases hmove : system.poolMove? move with
  | none => rfl
  | some poolMove =>
      rw [hmove, Option.toList_some, Pool.System.run?, Steps.run?_cons] at hpool
      obtain ⟨next, hnext, -⟩ := Option.bind_eq_some_iff.mp hpool
      exact Steps.history_cons_of_step _ _ hnext

theorem pushes_concat (hbefore : setup.start.run? before = some system)
    (hstep : System.step? system move = some after) :
    (setup.poolLedger (before ++ [move])).pushes =
      ((move.mover?.bind system.stage?).elim (setup.poolLedger before) fun stage =>
        (setup.poolLedger before).addStage system.service.pool stage).pushes := by
  rw [poolLedger_concat hbefore hstep, ← System.stage?_poolMover hstep]
  cases system.poolMove? move with
  | none => rfl
  | some poolMove => exact Pool.System.pushes_note ..

theorem accepted_of_still (hbefore : setup.start.run? before = some system)
    (hstep : System.step? system move = some after)
    (hmover : move.mover?.bind system.stage? = none) :
    (setup.poolLedger (before ++ [move])).accepted = (setup.poolLedger before).accepted := by
  have hpushes := pushes_concat hbefore hstep
  rw [hmover] at hpushes
  exact Pool.Ledger.accepted_congr hpushes

theorem accepted_of_stage {thread : Thread} {stage : Pool.Stage Question}
    (hbefore : setup.start.run? before = some system)
    (hstep : System.step? system move = some after) (hmover : move.mover? = some thread)
    (hstage : system.stage? thread = some stage) :
    (setup.poolLedger (before ++ [move])).accepted =
      (setup.poolLedger before).accepted ++ stage.enters system.service.pool := by
  have hpushes := pushes_concat hbefore hstep
  rw [hmover, Option.bind_some, hstage, Option.elim_some] at hpushes
  rw [Pool.Ledger.accepted_congr hpushes, Pool.Ledger.accepted_addStage]

/-! The site. -/

theorem mirrored_of_run (hrun : setup.start.run? moves = some last) :
    ∃ mirror, System.Mirrored setup.site last (setup.start.visits moves) mirror :=
  System.mirrored_of_run rfl hrun

theorem rings_of_run (hrun : setup.start.run? moves = some last) (client : String) :
    (last.service.front.site.controller.ring client).Holds
      ((setup.siteLedger moves).recordedOf client) := by
  obtain ⟨mirror, hmirror⟩ := mirrored_of_run hrun
  rw [← hmirror.site_eq]
  exact (Site.System.accounted_of_run hmirror.run).balanced.rings client

theorem visits_concat (hbefore : setup.start.run? before = some system)
    (hstep : System.step? system move = some after) :
    setup.start.visits (before ++ [move]) = system.visit move (setup.start.visits before) := by
  unfold System.visits
  exact Steps.history_concat ({} : Visits) hbefore hstep

theorem siteLedger_of_part {thread : Thread} {order : List String} {call next : Site.Call}
    {site : Site σ} (hbefore : setup.start.run? before = some system)
    (hstep : System.step? system (.part thread order) = some after)
    (hcall : system.call? thread = some call)
    (hpart : system.service.front.site.part? order call = some (next, site)) :
    setup.siteLedger (before ++ [.part thread order]) =
      (setup.siteLedger before).add system.service.front.site
        ((setup.start.visits before).places thread) call := by
  obtain ⟨mirror, hmirror⟩ := mirrored_of_run hbefore
  have hplace := hmirror.placed thread call hcall
  rw [← hmirror.site_eq] at hpart ⊢
  rw [siteLedger, visits_concat hbefore hstep, System.visit, Visits.add, Site.System.ledger,
    Steps.history_append _ _ hmirror.run, Steps.history_cons_of_step _ _
      (Site.System.step?_eq_some_iff.mpr
        (.inr (.inr (.inr ⟨_, order, call, next, site, rfl, hplace, hpart, rfl⟩))))]
  exact Site.System.note_part hplace _

theorem siteLedger_of_not_part (hbefore : setup.start.run? before = some system)
    (hstep : System.step? system move = some after)
    (hmove : move.isPart = false) :
    setup.siteLedger (before ++ [move]) = setup.siteLedger before := by
  obtain ⟨mirror, hmirror⟩ := mirrored_of_run hbefore
  have hkept (moved : Site.System.Move) (hnote : ∀ ledger, mirror.note moved ledger = ledger)
      (hmoved : (mirror.step? moved).isSome = true) :
      Site.System.ledger setup.site ((setup.start.visits before).moves ++ [moved]) =
        setup.siteLedger before := by
    obtain ⟨next, hnext⟩ := Option.isSome_iff_exists.mp hmoved
    rw [Site.System.ledger, Steps.history_append _ _ hmirror.run,
      Steps.history_cons_of_step _ _ hnext]
    exact hnote _
  rw [siteLedger, visits_concat hbefore hstep]
  cases move with
  | part thread order => cases hmove
  | clock step => exact hkept _ (fun _ => rfl) rfl
  | enter thread =>
      simp only [System.visit]
      split
      · rename_i call _
        unfold Visits.enter
        cases call.requested? with
        | none => exact hkept _ (fun _ => rfl) rfl
        | some client => exact hkept _ (fun _ => rfl) rfl
      · rfl
  | tick index => exact hkept _ (fun _ => rfl) rfl
  | _ => rfl

theorem stage?_start (setup : Setup σ) (thread : Thread) : setup.start.stage? thread = none := by
  cases thread with
  | worker index =>
      simp only [System.stage?, Pool.System.stage?, start, Pool.System.start, Pool.start,
        List.getElem?_replicate]
      split <;> rfl
  | caller index => rfl
  | flusher index => rfl

/-- What holds in every run: threads keep to their courses, and the pool is asked for nothing
but jobs of theirs. -/
structure Kept (setup : Setup σ) (strict : Bool) (moves : List System.Move) (system : System σ) :
    Prop where
  validator_eq : system.service.front.validator = setup.validator
  conducted : Conducted strict setup.validator system.stage? system.call? (setup.journal moves)
  written : ∀ job ∈ (setup.poolLedger moves).accepted, Written strict setup.validator job
  owned : Owned setup.validator (setup.journal moves) (setup.poolLedger moves).accepted

namespace Kept

theorem start (setup : Setup σ) (strict : Bool) : Kept setup strict [] setup.start where
  validator_eq := rfl
  conducted := {
    stance := by
      intro thread
      rw [stage?_start]
      exact .away
    apart := fun _ _ _ h => by cases h
    decided := fun _ hmem => absurd hmem List.not_mem_nil }
  written := fun _ hmem => absurd hmem List.not_mem_nil
  owned := .start setup.validator

theorem written_of_fetched (h : Kept setup strict before system)
    (hbefore : setup.start.run? before = some system) (index : Nat) (job : Pool.Routine Question)
    (hworker : system.service.system.pool.workers[index]? = some (.fetched job)) :
    Written strict setup.validator job := by
  have horderly := orderly_of_run hbefore
  have htaken := horderly.holding index job (Pool.getElem?_hands hworker)
  apply h.written
  rw [horderly.fifo]
  exact List.mem_append_left _ (List.mem_of_getElem? htaken)

theorem owned_step (h : Kept setup strict before system)
    (hbefore : setup.start.run? before = some system)
    (hstep : System.step? system move = some after) :
    Owned setup.validator (setup.journal (before ++ [move]))
      (setup.poolLedger (before ++ [move])).accepted := by
  have hnoted := system.noted move (setup.journal before)
  rw [← journal_concat hbefore hstep] at hnoted
  generalize setup.journal (before ++ [move]) = later at hnoted ⊢
  cases hnoted with
  | still hmover =>
      rw [accepted_of_still hbefore hstep hmover]
      exact h.owned
  | stage hmover hstage =>
      rw [accepted_of_stage hbefore hstep hmover hstage]
      exact h.owned.addStage h.conducted hstage
  | begin _ =>
      rw [accepted_of_still hbefore hstep rfl]
      exact h.owned.frame rfl (Journal.acceptedAt_begin ..)
  | @part thread order call _ =>
      rw [accepted_of_still hbefore hstep rfl]
      refine h.owned.frame (Journal.owners_modify ..) (Journal.acceptedAt_modify ?_ _ thread)
      intro course
      cases call <;> rfl
  | @conclude thread outcome _ =>
      have hsame (course : Course) : (course.conclude outcome).accepted? = course.accepted? := rfl
      rw [accepted_of_still hbefore hstep rfl]
      exact h.owned.frame (Journal.owners_modify ..) (Journal.acceptedAt_modify hsame _ thread)

theorem step (h : Kept setup strict before system)
    (hbefore : setup.start.run? before = some system) (hobeys : move.Obeys strict)
    (hstep : System.step? system move = some after) :
    Kept setup strict (before ++ [move]) after := by
  have hconducted := h.conducted
  rw [← h.validator_eq] at hconducted
  obtain ⟨hvalidator, hnext⟩ := System.conducted_step hconducted
    (fun index job hworker => h.validator_eq.symm ▸ h.written_of_fetched hbefore index job hworker)
    hobeys hstep
  exact {
    validator_eq := hvalidator.trans h.validator_eq
    conducted := by
      rw [journal_concat hbefore hstep, ← h.validator_eq]
      exact hnext
    written := by
      intro job hmem
      cases hmover : move.mover?.bind system.stage? with
      | none =>
          rw [accepted_of_still hbefore hstep hmover] at hmem
          exact h.written job hmem
      | some stage =>
          obtain ⟨thread, hthread, hstage⟩ := Option.bind_eq_some_iff.mp hmover
          rw [accepted_of_stage hbefore hstep hthread hstage] at hmem
          rcases List.mem_append.mp hmem with hold | hnew
          · exact h.written job hold
          · obtain ⟨rest, rfl⟩ := Pool.Stage.submits_of_mem_enters hnew
            exact (h.conducted.submits hstage).1
    owned := h.owned_step hbefore hstep }

end Kept

theorem kept_of_run (hobeys : ∀ move ∈ moves, move.Obeys strict)
    (hrun : setup.start.run? moves = some last) : Kept setup strict moves last :=
  Steps.run_induction hrun (.start setup strict) fun _ _ hbefore h move hmem _ hstep =>
    h.step hbefore (hobeys move hmem) hstep

theorem kept_of_free_run (hrun : setup.start.run? moves = some last) :
    Kept setup false moves last :=
  kept_of_run (fun move _ => move.obeys_false) hrun

end Setup

end Service

end Turnstile

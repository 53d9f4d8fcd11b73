import Turnstile.Service.Front

/-!
Admission, validation and queueing of batches behind one call, and the orderly
end of all that it started.
-/

namespace Turnstile

structure Service (σ : Type) where
  front : Service.Front σ
  system : Pool.System Service.Question

namespace Service

def pool (service : Service σ) : Pool Question := service.system.pool

def settle (service : Service σ) : Service σ :=
  let (system, front) := service.system.settle Front.answer service.front
  { system, front }

def ofSite? (site : Site σ) (config : PoolConfig) (validator : Validator) :
    Except SetupError (Service σ) :=
  (Pool.start? config).map fun pool =>
    settle { front := { site, validator }, system := { pool } }

/-- The whole of a dispatch by a thread that nobody disturbs. -/
def carryOut (service : Service σ) (dispatch : Dispatch) : Outcome × Service σ :=
  let (allowed, front) := service.front.allow dispatch.client
  if !allowed then (.rateLimited, { service with front := front.count .rateLimited })
  else
    match front.validator.defect? dispatch.batch with
    | some defect => (.invalid defect, { service with front := front.count (.invalid defect) })
    | none =>
        let (answer, pool) := service.pool.submit (dispatch.job front.validator)
        let outcome := Outcome.ofSubmission dispatch.batch.size answer
        (outcome,
          settle { front := front.count outcome, system := { service.system with pool } })

def dispatch (service : Service σ) (client : String) (batch : Batch)
    (handler : Batch → Pool.Routine Use) : Outcome × Service σ :=
  service.carryOut ⟨client, batch, fun batch => .ofRoutine (handler batch)⟩

def modifySite (service : Service σ) (change : Site σ → α × Site σ) : α × Service σ :=
  let (result, site) := change service.front.site
  (result, { service with front := { service.front with site } })

def startFlusher (service : Service σ) (interval : Nat) : Service σ :=
  { service with front := service.front.startFlusher interval }

def release (service : Service σ) (gate : String) : Service σ :=
  settle { service with
    front := { service.front with scene := service.front.scene.release gate } }

def releaseAll (service : Service σ) : Service σ :=
  settle { service with
    front := { service.front with scene := service.front.scene.releaseAll } }

def submit (service : Service σ) (fallible : Bool) (errand : Errand) :
    Except Pool.Rejection Unit × Service σ :=
  let job := (errand.job Use.scene).map Question.use
  let (answer, pool) := service.pool.submit (if fallible then job else job.infallible)
  (answer, settle { service with system := { service.system with pool } })

/-- Shuts the service down from outside. While jobs stand at gates the call does not return. -/
def shutdown (service : Service σ) : Service σ :=
  settle { service with system := service.system.call shutdownRoutine }

/-- A pool that takes no jobs is as bad as it gets; one without room is a warning. -/
def poolHealth (stats : Pool.Stats) : Health :=
  if stats.phase ≠ .running then .critical
  else if stats.saturated then .degraded
  else .healthy

def health (service : Service σ) : Health :=
  service.front.site.controller.metrics.health.worst (poolHealth service.pool.stats)

def text (service : Service σ) : String :=
  Text.labelled "IngestionService"
    [("controller", service.front.site.controller.text), ("pool", service.pool.text),
      ("stats", service.front.stats.text)]

def records (service : Service σ) : List LogRecord :=
  (service.front.site.controller.log ++ service.pool.log ++ service.front.log).toList

end Service

end Turnstile

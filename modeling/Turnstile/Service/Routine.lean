import Turnstile.Pool.Errand
import Turnstile.Service.Outcome

/-!
What threads do with a service. A job may use its parts one by one, dispatch
batches with handlers that are jobs again, submit to the pool and close it. The
questions that are no `Use` are parts of a dispatch or of the shutdown at the end.
-/

namespace Turnstile.Service

inductive Use
  | scene (question : Scene.Question)
  | request (client : String)
  | flush
  | startFlusher (interval : Nat)
  /-- Gives the last handle on the service away, after the pool has been closed. -/
  | abandon
  deriving DecidableEq, Repr

inductive Job
  | finish (ending : Pool.Ending)
  | use (use : Use) (next : Bool → Job)
  | dispatch (client : String) (batch : Batch) (handler : Batch → Job) (next : Outcome → Job)
  | submit (job : Job) (next : Except Pool.Rejection Unit → Job)
  | shutdown (next : Job)
  | observe (next : Pool.Phase → Job)

/-- A batch of a client, with what is to be done with it once it is accepted. -/
structure Dispatch where
  client : String
  batch : Batch
  handler : Batch → Job

inductive Question
  | use (use : Use)
  | admission (dispatch : Dispatch)
  | count (outcome : Outcome)
  | lock
  /-- Marks the service as stopped. The answer tells whether it was not before. -/
  | claim
  | signalFlusher
  | joinFlusher
  | lastFlush
  | unlock

/-- The client a request is counted against; one without credentials counts as a default client. -/
def clientOf (credentials? : Option String) : String :=
  match credentials? with
  | some credentials => if credentials.isEmpty then "default" else credentials
  | none => "default"

/-! Dispatching a batch, as a thread does that has the job of its handler at hand. -/

section Dispatching

variable (validator : Validator) (dispatch : Dispatch) (job : Pool.Routine Question)
  (next : Outcome → Pool.Routine Question)

def concluding (outcome : Outcome) : Pool.Routine Question :=
  .tell (.count outcome) (next outcome)

def submitting : Pool.Routine Question :=
  .submit job fun answer => concluding next (.ofSubmission dispatch.batch.size answer)

def admitted (allowed : Bool) : Pool.Routine Question :=
  if !allowed then concluding next .rateLimited
  else
    match validator.defect? dispatch.batch with
    | some defect => concluding next (.invalid defect)
    | none => submitting dispatch job next

/-- Asks for admission, then validates, then queues the handler. Each of the
three can be the one that decides, and whichever it is, one outcome is counted. -/
def dispatching : Pool.Routine Question :=
  .ask (.admission dispatch) (admitted validator dispatch job next)

end Dispatching

namespace Job

def routine (validator : Validator) : Job → Pool.Routine Question
  | .finish ending => .finish ending
  | .use question next => .ask (.use question) fun answer => (next answer).routine validator
  | .dispatch client batch handler next =>
      dispatching validator ⟨client, batch, handler⟩ ((handler batch).routine validator)
        fun outcome => (next outcome).routine validator
  | .submit job next =>
      .submit (job.routine validator) fun answer => (next answer).routine validator
  | .shutdown next => .shutdown (next.routine validator)
  | .observe next => .observe fun phase => (next phase).routine validator

/-- What a job does that drops the last handle on the service. As it runs on a worker, the
shutdowns of the service and then of its pool only close the pool. -/
def letGo (next : Job) : Job := .shutdown <| .shutdown <| .use .abandon fun _ => next

def ofRoutine : Pool.Routine Use → Job
  | .finish ending => .finish ending
  | .ask question next => .use question fun answer => ofRoutine (next answer)
  | .submit job next => .submit (ofRoutine job) fun answer => ofRoutine (next answer)
  | .shutdown next => .shutdown (ofRoutine next)
  | .observe next => .observe fun phase => ofRoutine (next phase)

end Job

namespace Use

/-- It is made of the service itself, and not of its controller or the scene, which others may
have handles on. -/
def isOfService : Use → Bool
  | .startFlusher _ | .abandon => true
  | .scene _ | .request _ | .flush => false

def alone (use : Use) : Job := .use use fun _ => .finish .returned

end Use

namespace Dispatch

def alone (dispatch : Dispatch) : Job :=
  .dispatch dispatch.client dispatch.batch dispatch.handler fun _ => .finish .returned

def job (validator : Validator) (dispatch : Dispatch) : Pool.Routine Question :=
  (dispatch.handler dispatch.batch).routine validator

end Dispatch

/-! The shutdown of a service by a thread that is none of its workers: the flush
thread first, then the pool with all its queued jobs, then one last flush. -/

namespace Shutdown

def unlock : Pool.Routine Question := .tell .unlock <| .finish .returned

def flush : Pool.Routine Question := .tell .lastFlush unlock

def close : Pool.Routine Question := .shutdown flush

def joinFlusher : Pool.Routine Question := .tell .joinFlusher close

def signalFlusher : Pool.Routine Question := .tell .signalFlusher joinFlusher

def claim : Pool.Routine Question :=
  .ask .claim fun first => if first then signalFlusher else unlock

end Shutdown

def shutdownRoutine : Pool.Routine Question := .tell .lock Shutdown.claim

end Turnstile.Service

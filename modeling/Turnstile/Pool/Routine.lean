/-!
What a thread does with a pool. A routine is a finite tree: each action is
followed by what comes after each possible answer. The jobs that workers run
are routines, and so are the calls made from outside.
-/

namespace Turnstile.Pool

inductive Phase
  | running
  | shuttingDown
  | stopped
  deriving DecidableEq, Repr

namespace Phase

def text : Phase → String
  | .running => "running"
  | .shuttingDown => "shutting down"
  | .stopped => "stopped"

def name : Phase → String
  | .running => "Running"
  | .shuttingDown => "ShuttingDown"
  | .stopped => "Stopped"

end Phase

inductive Rejection
  | queueFull
  | shuttingDown
  deriving DecidableEq, Repr

def Rejection.message : Rejection → String
  | .queueFull => "work queue is full"
  | .shuttingDown => "worker pool is shutting down"

/-- How a job ends. To drop the value that was thrown by a panic is taken not to panic again: no
worker is lost by it, and so to join a worker never fails. -/
inductive Ending
  | returned
  | failed (error : String)
  | panicked (text : String)
  deriving DecidableEq, Repr

/-- `ask` puts a question to the surroundings of the pool, which may let it wait
for the answer. The other actions use the pool itself. -/
inductive Routine (Question : Type)
  | finish (ending : Ending)
  | ask (question : Question) (next : Bool → Routine Question)
  | submit (job : Routine Question) (next : Except Rejection Unit → Routine Question)
  | shutdown (next : Routine Question)
  | observe (next : Phase → Routine Question)

namespace Routine

def tell (question : Question) (next : Routine Question) : Routine Question :=
  .ask question fun _ => next

def submitAll (job : Routine Question) :
    Nat → (List (Except Rejection Unit) → Routine Question) → Routine Question
  | 0, next => next []
  | count + 1, next =>
      .submit job fun answer => submitAll job count fun answers => next (answer :: answers)

def infallible : Routine Question → Routine Question
  | .finish (.failed _) => .finish .returned
  | .finish ending => .finish ending
  | .ask question next => .ask question fun answer => (next answer).infallible
  | .submit job next => .submit job fun answer => (next answer).infallible
  | .shutdown next => .shutdown next.infallible
  | .observe next => .observe fun phase => (next phase).infallible

def map (reword : α → β) : Routine α → Routine β
  | .finish ending => .finish ending
  | .ask question next => .ask (reword question) fun answer => (next answer).map reword
  | .submit job next =>
      .submit (job.map reword) fun answer => (next answer).map reword
  | .shutdown next => .shutdown (next.map reword)
  | .observe next => .observe fun phase => (next phase).map reword

/-- Bounds the actions of a routine, of the jobs it may submit, and of the steps
that each of its actions takes. -/
def size : Routine Question → Nat
  | .finish _ => 1
  | .ask _ next => (next true).size + (next false).size + 1
  | .submit job next =>
      job.size + (next (.ok ())).size + (next (.error .queueFull)).size +
        (next (.error .shuttingDown)).size + 4
  | .shutdown next => next.size + 4
  | .observe next =>
      (next .running).size + (next .shuttingDown).size + (next .stopped).size + 1

theorem size_pos (routine : Routine Question) : 0 < routine.size := by
  cases routine <;> simp only [size] <;> omega

theorem size_next_of_ask (question : Question) (next : Bool → Routine Question)
    (answer : Bool) : (next answer).size < (ask question next).size := by
  cases answer <;> simp only [size] <;> omega

theorem size_next_of_submit (job : Routine Question)
    (next : Except Rejection Unit → Routine Question) (answer : Except Rejection Unit) :
    job.size + (next answer).size + 4 < (submit job next).size := by
  have hok := (next (.ok ())).size_pos
  have hfull := (next (.error .queueFull)).size_pos
  have hclosed := (next (.error .shuttingDown)).size_pos
  cases answer with
  | ok _ =>
      change job.size + (next (.ok ())).size + 4 < _
      simp only [size]
      omega
  | error rejection => cases rejection <;> simp only [size] <;> omega

theorem size_next_of_observe (next : Phase → Routine Question) (phase : Phase) :
    (next phase).size < (observe next).size := by
  cases phase <;> simp only [size] <;> omega

end Routine

end Turnstile.Pool

import Turnstile.Config
import Turnstile.Log
import Turnstile.Pool.Stats

/-!
A fixed set of workers behind a bounded queue. The functions here are the parts
of the pool's operations that no other thread can divide: what happens while
the queue is locked, one change of a counter, one notification.
-/

namespace Turnstile

namespace Pool

/-- Where a thread stands in its routine: before an action, or between two
parts of one. -/
inductive Stage (Question : Type)
  | ready (routine : Routine Question)
  /-- Its job is queued, but not yet counted. -/
  | accepted (next : Routine Question)
  /-- Its job is counted, but no worker has been notified. -/
  | notifying (next : Routine Question)
  /-- Its job was refused, and the refusal is not yet counted. -/
  | refused (next : Routine Question)
  /-- It has closed the pool, but not yet notified the workers. -/
  | closing (next : Routine Question)
  /-- It waits to be the one that joins the workers. -/
  | awaiting (next : Routine Question)
  /-- It alone joins the workers. -/
  | joining (next : Routine Question)

inductive Worker (Question : Type)
  /-- About to look at the queue. -/
  | checking
  /-- Found the queue empty, and waits to be notified. -/
  | parked
  /-- Has taken a job out of the queue, but not yet started it. -/
  | fetched (job : Routine Question)
  | working (stage : Stage Question)
  /-- The job is over, but not yet counted. -/
  | ended (ending : Ending)
  | exited

def Worker.isParked : Worker Question → Bool
  | .parked => true
  | _ => false

def Worker.woken (worker : Worker Question) : Worker Question :=
  if worker.isParked then .checking else worker

end Pool

structure Pool (Question : Type) where
  capacity : Nat
  queue : List (Pool.Routine Question) := []
  phase : Pool.Phase := .running
  workers : List (Pool.Worker Question)
  unjoined : List Nat
  joinHeld : Bool := false
  active : Nat := 0
  accepted : Nat := 0
  rejected : Nat := 0
  completed : Nat := 0
  failed : Nat := 0
  log : Array LogRecord := #[]

namespace Pool

def start (config : PoolConfig) : Pool Question where
  capacity := config.queue
  workers := List.replicate config.workers .checking
  unjoined := List.range config.workers
  log := ((List.range config.workers).map LogRecord.workerStarted).toArray.push
    (.poolStarted config.workers config.queue)

def start? (config : PoolConfig) : Except SetupError (Pool Question) :=
  match config.defect? with
  | some defect => .error (.ofDefect defect)
  | none => .ok (start config)

def emit (pool : Pool Question) (record : LogRecord) : Pool Question :=
  { pool with log := pool.log.push record }

/-! Submitting a job. -/

def enter (pool : Pool Question) (job : Routine Question) :
    Except Rejection Unit × Pool Question :=
  if pool.phase ≠ .running then (.error .shuttingDown, pool)
  else if pool.capacity ≤ pool.queue.length then (.error .queueFull, pool)
  else (.ok (), { pool with queue := pool.queue ++ [job] })

def countAccepted (pool : Pool Question) : Pool Question :=
  { pool with accepted := pool.accepted + 1 }

def countRejected (pool : Pool Question) : Pool Question :=
  { pool with rejected := pool.rejected + 1 }

def wake (pool : Pool Question) (index : Nat) : Pool Question :=
  { pool with workers := pool.workers.modify index Worker.woken }

def firstParked (pool : Pool Question) : Nat :=
  (pool.workers.findIdx? Worker.isParked).getD 0

def wakeAll (pool : Pool Question) : Pool Question :=
  { pool with workers := pool.workers.map Worker.woken }

/-! Running jobs. -/

def setWorker (pool : Pool Question) (index : Nat) (worker : Worker Question) :
    Pool Question :=
  { pool with workers := pool.workers.set index worker }

def fetch (pool : Pool Question) (index : Nat) : Pool Question :=
  match pool.queue with
  | job :: rest => { pool with queue := rest }.setWorker index (.fetched job)
  | [] =>
      if pool.phase = .running then pool.setWorker index .parked
      else (pool.emit (.workerExiting index)).setWorker index .exited

def enterJob (pool : Pool Question) : Pool Question := { pool with active := pool.active + 1 }

def leaveJob (pool : Pool Question) : Pool Question := { pool with active := pool.active - 1 }

def countEnding (pool : Pool Question) (index : Nat) : Ending → Pool Question
  | .returned => { pool with completed := pool.completed + 1 }
  | .failed error => { pool with failed := pool.failed + 1 }.emit (.jobFailed index error)
  | .panicked text => { pool with failed := pool.failed + 1 }.emit (.jobPanicked index text)

/-! Shutting down. -/

def close (pool : Pool Question) : Pool Question :=
  if pool.phase = .running then
    { pool with phase := .shuttingDown }.emit (.poolShuttingDown pool.queue.length)
  else pool

def join? (pool : Pool Question) : Option (Pool Question) :=
  match pool.unjoined with
  | index :: rest =>
      match pool.workers[index]? with
      | some .exited => some { pool with unjoined := rest }
      | _ => none
  | [] => none

def stop (pool : Pool Question) : Pool Question :=
  if pool.phase = .stopped then pool
  else { pool with phase := .stopped }.emit (.poolStopped pool.completed pool.failed)

/-! Looking at a pool. -/

def stats (pool : Pool Question) : Stats where
  workers := pool.workers.length
  active := pool.active
  queued := pool.queue.length
  capacity := pool.capacity
  accepted := pool.accepted
  rejected := pool.rejected
  completed := pool.completed
  failed := pool.failed
  phase := pool.phase

def text (pool : Pool Question) : String :=
  Text.labelled "WorkerPool"
    [("worker_count", toString pool.workers.length),
      ("max_queue_size", toString pool.capacity),
      ("queue_size", toString pool.queue.length), ("state", pool.phase.name)]

/-- The whole of a submission by a thread that nobody disturbs. -/
def submit (pool : Pool Question) (job : Routine Question) :
    Except Rejection Unit × Pool Question :=
  match pool.enter job with
  | (.ok (), entered) =>
      let counted := entered.countAccepted
      (.ok (), counted.wake counted.firstParked)
  | (.error rejection, entered) => (.error rejection, entered.countRejected)

theorem enter_eq_ok_iff (pool : Pool Question) (job : Routine Question) :
    (pool.enter job).1 = .ok () ↔
      pool.phase = .running ∧ pool.queue.length < pool.capacity := by
  unfold enter
  grind

end Pool

end Turnstile

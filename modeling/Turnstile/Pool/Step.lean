import Turnstile.Pool.Basic

/-!
Single steps of the threads that use a pool: its workers, and callers from
outside. A step that finds its thread waiting, or in need of an answer, is `none`.
-/

namespace Turnstile.Pool

/-- Who goes through a routine. A worker that shuts the pool down cannot wait
for itself. -/
inductive Seat
  | worker
  | outside
  deriving DecidableEq, Repr

/-- A notification may go to any parked worker, and to nobody if none is parked. -/
def mayWake (pool : Pool Question) (chosen : Nat) : Bool :=
  (pool.workers[chosen]?).any Worker.isParked || !pool.workers.any Worker.isParked

def advance? (pool : Pool Question) (seat : Seat) (chosen : Nat) :
    Stage Question → Option (Stage Question × Pool Question)
  | .ready (.finish _) | .ready (.ask ..) => none
  | .ready (.submit job next) =>
      match pool.enter job with
      | (.ok (), entered) => some (.accepted (next (.ok ())), entered)
      | (.error rejection, entered) => some (.refused (next (.error rejection)), entered)
  | .ready (.shutdown next) => some (.closing next, pool.close)
  | .ready (.observe next) => some (.ready (next pool.phase), pool)
  | .accepted next => some (.notifying next, pool.countAccepted)
  | .notifying next =>
      if pool.mayWake chosen then some (.ready next, pool.wake chosen) else none
  | .refused next => some (.ready next, pool.countRejected)
  | .closing next =>
      match seat with
      | .worker => some (.ready next, pool.wakeAll.emit .shutdownFromWorker)
      | .outside => some (.awaiting next, pool.wakeAll)
  | .awaiting next =>
      if pool.joinHeld then none else some (.joining next, { pool with joinHeld := true })
  | .joining next =>
      match pool.unjoined with
      | [] => some (.ready next, { pool.stop with joinHeld := false })
      | _ :: _ => pool.join?.map fun joined => (.joining next, joined)

def workerStep? (pool : Pool Question) (chosen index : Nat) : Option (Pool Question) :=
  match pool.workers[index]? with
  | none | some .parked | some .exited => none
  | some .checking => some (pool.fetch index)
  | some (.fetched job) => some (pool.enterJob.setWorker index (.working (.ready job)))
  | some (.working (.ready (.finish ending))) =>
      some (pool.leaveJob.setWorker index (.ended ending))
  | some (.working stage) =>
      (pool.advance? .worker chosen stage).map fun result =>
        result.2.setWorker index (.working result.1)
  | some (.ended ending) => some ((pool.countEnding index ending).setWorker index .checking)

def Stage.asked? : Stage Question → Option (Question × (Bool → Routine Question))
  | .ready (.ask question next) => some (question, next)
  | _ => none

def Worker.asked? : Worker Question → Option (Question × (Bool → Routine Question))
  | .working stage => stage.asked?
  | _ => none

end Turnstile.Pool

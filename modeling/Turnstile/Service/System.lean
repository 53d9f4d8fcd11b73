import Turnstile.Service
import Turnstile.Site.System

/-!
Many threads on one service: callers that dispatch, use it or shut it down,
its workers with their handlers, and its flush threads. Requests and flushes go
through the parts of a call at the site, and parts of different threads may
come in any order. In the end the service may be dropped, by a caller or by one
of its own jobs; whoever has a handle on its controller can go on with that.
-/

namespace Turnstile.Service

def Question.call? : Question → Option Site.Call
  | .use (.request client) => some (.finding client)
  | .admission dispatch => some (.finding dispatch.client)
  | .use .flush | .lastFlush => some .listing
  | .use (.scene _) | .use (.startFlusher _) | .use .abandon => none
  | .count _ | .lock | .claim | .signalFlusher | .joinFlusher | .unlock => none

namespace Front

def takenHasEnded (front : Front σ) : Bool :=
  match front.taken? with
  | some index => front.flushers[index]?.all fun flusher => flusher.phase = .ended
  | none => true

/-- The answer to a question that needs no call at the site. A flush thread
ends by itself, and is waited for. -/
def answerAtOnce? (front : Front σ) (question : Question) : Option (Bool × Front σ) :=
  match question with
  | .joinFlusher => if front.takenHasEnded then some (true, front) else none
  | _ => if question.call?.isNone then front.answer question else none

def conclude? (front : Front σ) (question : Question) : Site.Call → Option (Bool × Front σ)
  | .answered _ _ allowed => some (allowed, front)
  | .reported report =>
      match question with
      | .lastFlush => some (true, front.emit (.serviceStopped report front.stats.batches))
      | _ => some (true, front)
  | _ => none

end Front

inductive Thread
  | worker (index : Nat)
  | caller (index : Nat)
  | flusher (index : Nat)
  deriving DecidableEq, Repr

def Thread.isWorker : Thread → Bool
  | .worker _ => true
  | .caller _ | .flusher _ => false

/-- A caller there has a handle on the service, and not just on its controller. -/
def holdsService : Pool.Stage Question → Bool
  | .ready (.finish _) => false
  | .ready (.ask (.use use) _) => use.isOfService
  | _ => true

structure System (σ : Type) where
  service : Service σ
  /-- Calls at the site that are under way, at most one of each thread. -/
  calls : List (Thread × Site.Call) := []

namespace System

def call? (system : System σ) (thread : Thread) : Option Site.Call :=
  system.calls.lookup thread

def enterCall (system : System σ) (thread : Thread) (call : Site.Call) : System σ :=
  { system with calls := system.calls ++ [(thread, call)] }

def setCall (system : System σ) (thread : Thread) (call : Site.Call) : System σ :=
  { system with
    calls := system.calls.map fun entry => if entry.1 = thread then (thread, call) else entry }

def leaveCall (system : System σ) (thread : Thread) : System σ :=
  { system with calls := system.calls.filter fun entry => entry.1 ≠ thread }

def modifyFront (system : System σ) (change : Front σ → Front σ) : System σ :=
  { system with service.front := change system.service.front }

def begin (system : System σ) (routine : Pool.Routine Question) : System σ :=
  { system with service.system := system.service.system.call routine }

/-- A caller begins with something, but not with the service once that is dropped. -/
def begin? (system : System σ) (ofService : Bool) (routine : Pool.Routine Question) :
    Option (System σ) :=
  if system.service.front.dropped && ofService then none else some (system.begin routine)

def asks? (system : System σ) : Thread → Option (Question × (Bool → Pool.System Question))
  | .worker index => system.service.system.workerAsks? index
  | .caller index => system.service.system.callerAsks? index
  | .flusher _ => none

def isReleased (system : System σ) : Bool :=
  system.service.system.callers.all fun stage => !holdsService stage

/-- Nothing is asked of a service that is dropped. A job drops it only where it has the last
handle, and has closed the pool by then. -/
def allows (system : System σ) (thread : Thread) : Question → Bool
  | .admission _ | .use (.startFlusher _) => !system.service.front.dropped
  | .use .abandon =>
      !system.service.front.dropped && thread.isWorker && system.isReleased &&
        system.service.system.pool.phase ≠ .running
  | .use (.scene _) | .use (.request _) | .use .flush | .count _ | .lock | .claim
  | .signalFlusher | .joinFlusher | .lastFlush | .unlock => true

def enter? (system : System σ) (thread : Thread) : Option (System σ) := do
  if (system.call? thread).isSome then none
  let (question, _) ← system.asks? thread
  if !system.allows thread question then none
  return system.enterCall thread (← question.call?)

def part? (system : System σ) (thread : Thread) (order : List String) : Option (System σ) := do
  let (next, site) ← system.service.front.site.part? order (← system.call? thread)
  return (system.modifyFront fun front => { front with site }).setCall thread next

def resume (system : System σ) (next : Bool → Pool.System Question)
    (answered : Bool × Front σ) : System σ :=
  { system with service := { front := answered.2, system := next answered.1 } }

def answer? (system : System σ) (thread : Thread) : Option (System σ) := do
  let (question, next) ← system.asks? thread
  if !system.allows thread question then none
  return system.resume next (← system.service.front.answerAtOnce? question)

def leave? (system : System σ) (thread : Thread) : Option (System σ) := do
  let call ← system.call? thread
  match thread, call with
  | .flusher index, .reported _ =>
      return (system.modifyFront fun front =>
        front.modifyFlusher index fun flusher => { flusher with phase := .waiting }).leaveCall
          thread
  | .flusher _, _ => none
  | .worker _, _ | .caller _, _ =>
      let (question, next) ← system.asks? thread
      return (system.resume next (← system.service.front.conclude? question call)).leaveCall
        thread

def tick? (system : System σ) (index : Nat) : Option (System σ) := do
  if (system.call? (.flusher index)).isSome then none
  match system.service.front.flushers[index]? with
  | some { signalled := false, phase := .waiting, .. } =>
      return (system.modifyFront fun front =>
        front.modifyFlusher index fun flusher => { flusher with phase := .flushing }).enterCall
          (.flusher index) .listing
  | _ => none

/-- A caller drops the last handle on the service, which is then shut down once more. That the
pool is closed again after it, when it is dropped with the rest, is of no effect. -/
def drop? (system : System σ) : Option (System σ) :=
  if system.service.front.dropped || !system.isReleased then none
  else some ((system.modifyFront fun front => { front with dropped := true }).begin shutdownRoutine)

inductive Move
  | dispatch (dispatch : Dispatch)
  | use (use : Use)
  | shutdown
  | drop
  | clock (step : Clock.Move)
  | release (gate : String)
  | worker (chosen index : Nat)
  | caller (chosen index : Nat)
  | wake (index : Nat)
  | answer (thread : Thread)
  | enter (thread : Thread)
  | part (thread : Thread) (order : List String)
  | leave (thread : Thread)
  | tick (index : Nat)
  | endFlusher (index : Nat)

def step? : Steps (System σ) Move
  | system, .dispatch dispatch =>
      system.begin? true (dispatch.alone.routine system.service.front.validator)
  | system, .use use =>
      system.begin? use.isOfService (use.alone.routine system.service.front.validator)
  | system, .shutdown => system.begin? true shutdownRoutine
  | system, .drop => system.drop?
  | system, .clock step =>
      some (system.modifyFront fun front => { front with site := front.site.move step })
  | system, .release gate =>
      some (system.modifyFront fun front => { front with scene := front.scene.release gate })
  | system, .worker chosen index =>
      (system.service.system.workerStep? chosen index).map fun after =>
        { system with service.system := after }
  | system, .caller chosen index =>
      (system.service.system.callerStep? chosen index).map fun after =>
        { system with service.system := after }
  | system, .wake index =>
      some { system with service.system.pool := system.service.pool.wake index }
  | system, .answer thread => system.answer? thread
  | system, .enter thread => system.enter? thread
  | system, .part thread order => system.part? thread order
  | system, .leave thread => system.leave? thread
  | system, .tick index => system.tick? index
  | system, .endFlusher index =>
      (system.service.front.endFlusher? index).map fun front => system.modifyFront fun _ => front

abbrev run? (system : System σ) (moves : List Move) : Option (System σ) :=
  Steps.run? step? system moves

abbrev Reachable (first last : System σ) : Prop := Steps.Reachable step? first last

end System

end Turnstile.Service

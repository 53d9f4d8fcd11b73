import Turnstile.Service.Routine
import Turnstile.Site

/-!
The part of a service that stands in front of its pool: admission, the counts
of outcomes, the flush threads, and the state of its shutdown. `answer` gives
each question an answer in one piece, or lets the thread that asked wait.
-/

namespace Turnstile.Service

inductive Flusher.Phase
  | waiting
  | flushing
  | ended
  deriving DecidableEq, Repr

/-- A flush thread: it waits for its interval to pass or for a signal to end. -/
structure Flusher where
  interval : Nat
  signalled : Bool := false
  phase : Flusher.Phase := .waiting
  deriving DecidableEq, Repr

structure Front (σ : Type) where
  site : Site σ
  validator : Validator := {}
  stats : Stats := {}
  scene : Scene := {}
  stopped : Bool := false
  dropped : Bool := false
  flushers : List Flusher := []
  current? : Option Nat := none
  /-- The flush thread that a shutdown has taken over. -/
  taken? : Option Nat := none
  /-- A shutdown from outside is under way. -/
  exclusive : Bool := false
  log : Array LogRecord := #[]

namespace Front

def emit (front : Front σ) (record : LogRecord) : Front σ :=
  { front with log := front.log.push record }

def allow (front : Front σ) (client : String) : Bool × Front σ :=
  let (allowed, site) := front.site.allow client
  (allowed, { front with site })

def flush (front : Front σ) : FlushReport × Front σ :=
  let (report, site) := front.site.flush
  (report, { front with site })

def count (front : Front σ) (outcome : Outcome) : Front σ :=
  { front with stats := front.stats.count outcome }

/-! Flush threads. -/

def flusher? (front : Front σ) : Option Flusher :=
  front.current?.bind fun index => front.flushers[index]?

def modifyFlusher (front : Front σ) (index : Nat) (change : Flusher → Flusher) : Front σ :=
  { front with flushers := front.flushers.modify index change }

def startFlusher (front : Front σ) (interval : Nat) : Front σ :=
  if front.stopped then front.emit .flusherNotStarted
  else if front.current?.isSome then front
  else
    { front with
      flushers := front.flushers ++ [({ interval } : Flusher)]
      current? := some front.flushers.length }.emit (.flusherStarted interval)

def claim (front : Front σ) : Bool × Front σ :=
  if front.stopped then (false, front)
  else (true, { front with stopped := true, current? := none, taken? := front.current? })

def tellToEnd (front : Front σ) : Option Nat → Front σ
  | some index => front.modifyFlusher index fun flusher => { flusher with signalled := true }
  | none => front

def signalFlusher (front : Front σ) : Front σ := front.tellToEnd front.taken?

/-- What becomes of a service that a job lets go of. Its flush thread hears that nobody can
signal to it any more, and is waited for by nobody. -/
def abandon (front : Front σ) : Front σ :=
  { front.tellToEnd front.current? with dropped := true, current? := none }

def endFlusher? (front : Front σ) (index : Nat) : Option (Front σ) :=
  match front.flushers[index]? with
  | some { signalled := true, phase := .waiting, .. } =>
      some ((front.modifyFlusher index fun flusher => { flusher with phase := .ended }).emit
        .flusherStopping)
  | _ => none

def joinFlusher (front : Front σ) : Front σ :=
  (front.taken?.bind front.endFlusher?).getD front

/-! Answers. -/

def lastFlush (front : Front σ) : Front σ :=
  let (report, flushed) := front.flush
  flushed.emit (.serviceStopped report flushed.stats.batches)

def answerUse : Pool.System.Surroundings Use (Front σ)
  | .scene question, front =>
      (Scene.answer question front.scene).map fun answered =>
        (answered.1, { front with scene := answered.2 })
  | .request client, front => some (front.allow client)
  | .flush, front => some (true, front.flush.2)
  | .startFlusher interval, front => some (true, front.startFlusher interval)
  | .abandon, front => some (true, front.abandon)

def answer : Pool.System.Surroundings Question (Front σ)
  | .use use, front => answerUse use front
  | .admission dispatch, front => some (front.allow dispatch.client)
  | .count outcome, front => some (true, front.count outcome)
  | .lock, front =>
      if front.exclusive then none else some (true, { front with exclusive := true })
  | .claim, front => some front.claim
  | .signalFlusher, front => some (true, front.signalFlusher)
  | .joinFlusher, front => some (true, front.joinFlusher)
  | .lastFlush, front => some (true, front.lastFlush)
  | .unlock, front => some (true, { front with exclusive := false })

end Front

end Turnstile.Service

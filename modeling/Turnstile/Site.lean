import Turnstile.Clock
import Turnstile.Controller.Flush

/-! A controller with the clock it reads and the sink it delivers to. -/

namespace Turnstile

inductive TimeSource
  | manual (clock : Clock)
  /-- Real time, whose readings nothing here depends on; it counts as standing still. -/
  | system
  deriving DecidableEq, Repr

namespace TimeSource

def reading : TimeSource → Nat
  | .manual clock => clock.reading
  | .system => 0

def move (time : TimeSource) (step : Clock.Move) : TimeSource :=
  match time with
  | .manual clock => .manual (clock.move step)
  | .system => .system

def isManual : TimeSource → Bool
  | .manual _ => true
  | .system => false

theorem reading_le_move (time : TimeSource) (step : Clock.Move) :
    time.reading ≤ (time.move step).reading := by
  cases time with
  | manual clock => exact clock.reading_le_move step
  | system => exact Nat.le_refl _

end TimeSource

structure Site (σ : Type) where
  controller : Controller
  receive : Receiver σ
  sink : σ
  time : TimeSource := .system

namespace Site

def move (site : Site σ) (step : Clock.Move) : Site σ := { site with time := site.time.move step }

def emit (site : Site σ) (record : LogRecord) : Site σ :=
  { site with controller := site.controller.emit record }

def allow (site : Site σ) (client : String) : Bool × Site σ :=
  let (allowed, controller) := site.controller.allow site.time.reading client
  (allowed, { site with controller })

def flush (site : Site σ) : FlushReport × Site σ :=
  let flushed := site.controller.flush site.receive site.sink
  (flushed.report, { site with controller := flushed.controller, sink := flushed.sink })

def hasPending (site : Site σ) : Bool :=
  site.controller.clients.names.any fun name => 0 < site.controller.pending name

def catchUp (site : Site σ) : Site σ := if site.hasPending then site.flush.2 else site

def ofParts? (config : AdmissionConfig) (sink : Sink) (time : TimeSource) :
    Except SetupError (Site Sink) :=
  (Controller.ofConfig? config).map fun controller =>
    { controller, receive := Sink.send, sink, time }

def takeReceived (site : Site Sink) : Option Received × Site Sink :=
  (site.sink.received?, { site with sink := site.sink.emptied })

end Site

end Turnstile

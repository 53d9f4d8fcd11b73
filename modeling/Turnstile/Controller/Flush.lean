import Turnstile.Controller
import Turnstile.Sink

/-!
Handing the recorded decisions to a sink. A flush goes through the clients it
finds when it begins, takes what each ring holds, and offers every decision
once; what the sink does not take is counted and not offered again.
-/

namespace Turnstile

structure Offering where
  delivered : Nat := 0
  failures : Nat := 0
  lastError? : Option SinkError := none
  records : Array LogRecord := #[]

namespace Offering

/-- A panic of the sink counts as a failure of the one decision it was offered. -/
def add (client : String) (offering : Offering) (receipt : Receipt) : Offering :=
  let records := offering.records ++ receipt.records
  match receipt.reply with
  | .delivered => { offering with records, delivered := offering.delivered + 1 }
  | .refused error =>
      { offering with records, failures := offering.failures + 1, lastError? := some error }
  | .panicked text =>
      { offering with
        failures := offering.failures + 1, records := records.push (.sinkPanicked client text) }

def offerAll (receive : Receiver σ) (client : String) :
    List Decision → Offering → σ → Offering × σ
  | [], offering, sink => (offering, sink)
  | decision :: rest, offering, sink =>
      let (receipt, sink) := receive sink client decision
      offerAll receive client rest (offering.add client receipt) sink

def account (offering : Offering) (client : String) (dropped capacity : Nat) :
    Array LogRecord :=
  let overwritten :=
    if 0 < dropped then #[.telemetryOverwritten client dropped capacity] else #[]
  let refused := match offering.lastError? with
    | some error => #[.sinkRefused client offering.failures error.message]
    | none => #[]
  overwritten ++ offering.records ++ refused

end Offering

/-- The sums are whole numbers here. `FlushReport.addClient?` takes them in words, where one that
does not fit is a fault or wraps around. -/
def FlushReport.addClient (report : FlushReport) (dropped : Nat) (offering : Offering) :
    FlushReport where
  clients := report.clients + 1
  delivered := report.delivered + offering.delivered
  dropped := report.dropped + dropped
  failures := report.failures + offering.failures

namespace Controller

def drain (controller : Controller) (name : String) : Harvest × Controller :=
  match controller.client? name with
  | none => ({}, controller)
  | some client =>
      let (harvest, ring) := client.ring.harvest
      (harvest, controller.modifyClient name fun client => { client with ring })

def emitAll (controller : Controller) (records : Array LogRecord) : Controller :=
  { controller with log := controller.log ++ records }

def countFlush (controller : Controller) (report : FlushReport) : Controller :=
  let counted :=
    { controller with
      flushes := controller.flushes + 1
      delivered := controller.delivered + report.delivered
      dropped := controller.dropped + report.dropped
      failures := controller.failures + report.failures }
  if 0 < report.clients then counted.emit (.telemetryFlushed report) else counted

end Controller

structure Flush (σ : Type) where
  controller : Controller
  sink : σ
  report : FlushReport := {}

/-- Drains one client and offers what it had. A client that had nothing is passed over. -/
def Flush.visit (receive : Receiver σ) (flush : Flush σ) (client : String) : Flush σ :=
  let (harvest, controller) := flush.controller.drain client
  if harvest.isEmpty then { flush with controller }
  else
    let (offering, sink) := Offering.offerAll receive client harvest.events {} flush.sink
    { controller :=
        controller.emitAll (offering.account client harvest.dropped controller.config.capacity)
      sink
      report := flush.report.addClient harvest.dropped offering }

namespace Controller

def flushInOrder (receive : Receiver σ) (order : List String) (sink : σ)
    (controller : Controller) : Flush σ :=
  let visited := order.foldl (Flush.visit receive) { controller, sink }
  { visited with controller := visited.controller.countFlush visited.report }

def flush (receive : Receiver σ) (sink : σ) (controller : Controller) : Flush σ :=
  controller.flushInOrder receive controller.clients.names sink

end Controller

end Turnstile

import Turnstile.Decision
import Turnstile.Metrics

/-!
Records that the running parts emit. Each is kept as what happened, and written
as one line: level, message, target if it has one of its own, and the fields in
the order of their keys.
-/

namespace Turnstile

inductive LogRecord
  | clientTracked (client : String)
  | telemetryOverwritten (client : String) (dropped capacity : Nat)
  | sinkPanicked (client text : String)
  | sinkRefused (client : String) (failures : Nat) (error : String)
  | decisionMade (client : String) (decision : Decision)
  | telemetryFlushed (report : FlushReport)
  | flusherStarted (intervalMillis : Nat)
  | flusherStopping
  | flusherNotStarted
  | poolStarted (workers queue : Nat)
  | poolShuttingDown (queued : Nat)
  | poolStopped (completed failed : Nat)
  | shutdownFromWorker
  | workerStarted (worker : Nat)
  | workerExiting (worker : Nat)
  | jobFailed (worker : Nat) (error : String)
  | jobPanicked (worker : Nat) (text : String)
  | serviceStopped (report : FlushReport) (batches : Nat)
  deriving DecidableEq, Repr

namespace LogRecord

def level : LogRecord → String
  | .clientTracked _ | .telemetryFlushed _ | .workerStarted _ | .workerExiting _ => "DEBUG"
  | .decisionMade .. | .flusherStarted _ | .flusherStopping | .poolStarted ..
  | .poolShuttingDown _ | .poolStopped .. | .serviceStopped .. => "INFO"
  | .telemetryOverwritten .. | .sinkRefused .. | .flusherNotStarted | .shutdownFromWorker
  | .jobFailed .. => "WARN"
  | .sinkPanicked .. | .jobPanicked .. => "ERROR"

def message : LogRecord → String
  | .clientTracked _ => "tracking new client"
  | .telemetryOverwritten .. => "telemetry overwritten before flush"
  | .sinkPanicked .. => "monitoring sink panicked"
  | .sinkRefused .. => "monitoring sink rejected events"
  | .decisionMade .. => "admission decision"
  | .telemetryFlushed _ => "flushed telemetry"
  | .flusherStarted _ => "flush thread started"
  | .flusherStopping => "flush thread stopping"
  | .flusherNotStarted => "flush thread not started, service is shut down"
  | .poolStarted .. => "worker pool started"
  | .poolShuttingDown _ => "worker pool shutting down"
  | .poolStopped .. => "worker pool stopped"
  | .shutdownFromWorker => "shutdown called from a worker thread, not waiting for workers"
  | .workerStarted _ => "worker started"
  | .workerExiting _ => "worker exiting"
  | .jobFailed .. => "task failed"
  | .jobPanicked .. => "task panicked"
  | .serviceStopped .. => "ingestion service stopped"

def target? : LogRecord → Option String
  | .decisionMade .. => some "metricstream::monitoring"
  | _ => none

def fields : LogRecord → List (String × String)
  | .clientTracked client => [("client", client)]
  | .telemetryOverwritten client dropped capacity =>
      [("capacity", toString capacity), ("client", client), ("dropped", toString dropped)]
  | .sinkPanicked client text => [("client", client), ("panic", text)]
  | .sinkRefused client failures error =>
      [("client", client), ("error", error), ("failures", toString failures)]
  | .decisionMade client decision =>
      [("allowed", toString decision.allowed), ("client", client),
        ("timestamp_ns", toString decision.time)]
  | .telemetryFlushed report =>
      [("clients", toString report.clients), ("delivered", toString report.delivered),
        ("dropped", toString report.dropped), ("failed", toString report.failures)]
  | .flusherStarted interval => [("interval_ms", toString interval)]
  | .flusherStopping | .flusherNotStarted | .shutdownFromWorker => []
  | .poolStarted workers queue =>
      [("max_queue_size", toString queue), ("workers", toString workers)]
  | .poolShuttingDown queued => [("queued", toString queued)]
  | .poolStopped completed failed =>
      [("completed", toString completed), ("failed", toString failed)]
  | .workerStarted worker | .workerExiting worker => [("worker", toString worker)]
  | .jobFailed worker error => [("error", error), ("worker", toString worker)]
  | .jobPanicked worker text => [("panic", text), ("worker", toString worker)]
  | .serviceStopped report batches =>
      [("batches", toString batches), ("delivered", toString report.delivered),
        ("dropped", toString report.dropped)]

def client (record : LogRecord) : String := (record.fields.lookup "client").getD ""

/-- The line of a record, without the fields whose keys are in `hidden`. -/
def line (hidden : List String) (record : LogRecord) : String :=
  let target := match record.target? with
    | some name => [("target", name)]
    | none => []
  let shown := target ++ record.fields.filter fun field => !hidden.contains field.1
  " ".intercalate
    ([record.level, record.message] ++ shown.map fun field => field.1 ++ "=" ++ field.2)

end LogRecord

/-- Byte order of the UTF-8 forms, which is the order of the code points. -/
def textLE (left right : String) : Bool := !(right < left)

def sortTexts (texts : List String) : List String := texts.mergeSort textLE

namespace Log

/-- Records in the order of their clients; those of one client, or of none, stay in order. -/
def byClient (records : List LogRecord) : List LogRecord :=
  records.mergeSort fun left right => textLE left.client right.client

end Log

end Turnstile

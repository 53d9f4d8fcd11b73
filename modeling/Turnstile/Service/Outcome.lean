import Turnstile.Pool.Routine
import Turnstile.Text.Labelled
import Turnstile.Validator

/-! What became of a batch, and the counts of what became of all of them. -/

namespace Turnstile.Service

inductive Outcome
  | accepted (metrics : Nat)
  | rateLimited
  | invalid (defect : BatchDefect)
  | overloaded (rejection : Pool.Rejection)
  deriving DecidableEq, Repr

namespace Outcome

def ofSubmission (metrics : Nat) : Except Pool.Rejection Unit → Outcome
  | .ok () => .accepted metrics
  | .error rejection => .overloaded rejection

def isAccepted : Outcome → Bool
  | .accepted _ => true
  | .rateLimited | .invalid _ | .overloaded _ => false

def status : Outcome → Nat
  | .accepted _ => 200
  | .rateLimited => 429
  | .invalid _ => 400
  | .overloaded _ => 503

def message : Outcome → String
  | .accepted metrics => "accepted " ++ toString metrics ++ " metrics"
  | .rateLimited => "rate limit exceeded"
  | .invalid defect => "invalid batch: " ++ defect.message
  | .overloaded rejection => "overloaded: " ++ rejection.message

end Outcome

structure Stats where
  /-- Metrics in accepted batches. -/
  metricsReceived : Nat := 0
  batches : Nat := 0
  validationErrors : Nat := 0
  rateLimited : Nat := 0
  overloaded : Nat := 0
  deriving DecidableEq, Repr

namespace Stats

def requests (stats : Stats) : Nat :=
  stats.batches + stats.validationErrors + stats.rateLimited + stats.overloaded

def count (stats : Stats) : Outcome → Stats
  | .accepted metrics =>
      { stats with
        metricsReceived := stats.metricsReceived + metrics, batches := stats.batches + 1 }
  | .rateLimited => { stats with rateLimited := stats.rateLimited + 1 }
  | .invalid _ => { stats with validationErrors := stats.validationErrors + 1 }
  | .overloaded _ => { stats with overloaded := stats.overloaded + 1 }

def summary (stats : Stats) : String :=
  Text.lines
    ["Ingestion Service Stats:",
      "├─ Metrics Received: " ++ toString stats.metricsReceived,
      "├─ Batches Processed: " ++ toString stats.batches,
      "├─ Validation Errors: " ++ toString stats.validationErrors,
      "├─ Rate Limited: " ++ toString stats.rateLimited,
      "└─ Overloaded: " ++ toString stats.overloaded]

def text (stats : Stats) : String :=
  Text.labelled "ServiceStats"
    [("metrics_received", toString stats.metricsReceived),
      ("batches_processed", toString stats.batches),
      ("validation_errors", toString stats.validationErrors),
      ("rate_limited", toString stats.rateLimited),
      ("overloaded", toString stats.overloaded)]

end Stats

end Turnstile.Service

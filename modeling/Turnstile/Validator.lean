import Turnstile.Metric

/-!
Checks that a batch has to pass before its handler is queued. The first defect
found is reported: those of the batch as a whole before those of its metrics,
and the metrics in their order.
-/

namespace Turnstile

inductive BatchDefect
  | emptyBatch
  | batchTooLarge (size max : Nat)
  | emptyName
  | nameTooLong (length max : Nat)
  | nonFiniteValue
  | invalidMetric (index : Nat) (reason : BatchDefect)
  deriving DecidableEq, Repr

def BatchDefect.message : BatchDefect → String
  | .emptyBatch => "batch cannot be empty"
  | .batchTooLarge size max =>
      "batch size " ++ toString size ++ " exceeds maximum (" ++ toString max ++ " metrics)"
  | .emptyName => "metric name cannot be empty"
  | .nameTooLong length max =>
      "metric name too long (" ++ toString length ++ " bytes, max " ++ toString max ++ ")"
  | .nonFiniteValue => "metric value must be a finite number"
  | .invalidMetric index reason =>
      "invalid metric at index " ++ toString index ++ ": " ++ reason.message

structure Validator where
  /-- The longest name, in bytes of UTF-8. -/
  maxNameLength : Nat := 255
  maxBatchSize : Nat := 1000
  deriving DecidableEq, Repr

namespace Validator

def metricDefect? (validator : Validator) (metric : Metric) : Option BatchDefect :=
  let length := metric.name.utf8ByteSize
  if length = 0 then some .emptyName
  else if validator.maxNameLength < length then
    some (.nameTooLong length validator.maxNameLength)
  else if metric.value.isFinite then none
  else some .nonFiniteValue

def firstDefect? (validator : Validator) (index : Nat) : List Metric → Option BatchDefect
  | [] => none
  | metric :: rest =>
      match validator.metricDefect? metric with
      | some reason => some (.invalidMetric index reason)
      | none => validator.firstDefect? (index + 1) rest

def defect? (validator : Validator) (batch : Batch) : Option BatchDefect :=
  if batch.size = 0 then some .emptyBatch
  else if validator.maxBatchSize < batch.size then
    some (.batchTooLarge batch.size validator.maxBatchSize)
  else validator.firstDefect? 0 batch.metrics

end Validator

end Turnstile

import Turnstile.Binary64
import Turnstile.Duration
import Turnstile.Text.Labelled

/-! Settings of admission and of the worker pool, and what is wrong with bad ones. -/

namespace Turnstile

inductive ConfigDefect
  | emptyWindow
  | noTelemetry
  | tooMuchTelemetry
  | noWorkers
  | noQueue
  deriving DecidableEq, Repr

def ConfigDefect.reason : ConfigDefect → String
  | .emptyWindow => "window must be greater than zero"
  | .noTelemetry => "telemetry_capacity must be greater than zero"
  | .tooMuchTelemetry => "telemetry_capacity exceeds MAX_TELEMETRY_CAPACITY"
  | .noWorkers => "worker_count must be greater than zero"
  | .noQueue => "max_queue_size must be greater than zero"

inductive SetupError
  | invalidConfig (reason : String)
  | spawn (thread cause : String)
  deriving DecidableEq, Repr

namespace SetupError

def ofDefect (defect : ConfigDefect) : SetupError := .invalidConfig defect.reason

def message : SetupError → String
  | .invalidConfig reason => "invalid configuration: " ++ reason
  | .spawn thread cause => "failed to spawn thread \x60" ++ thread ++ "\x60: " ++ cause

end SetupError

/-- At most `limit` requests per client are admitted in any `window`, and the
last `capacity` decisions per client are kept for the next flush. -/
structure AdmissionConfig where
  limit : Nat := 1000
  window : Duration := .ofParts 1 0
  capacity : Nat := 1000
  deriving DecidableEq, Repr

namespace AdmissionConfig

def maxCapacity : Nat := 1 <<< 20

def defect? (config : AdmissionConfig) : Option ConfigDefect :=
  if config.window.nanos = 0 then some .emptyWindow
  else if config.capacity = 0 then some .noTelemetry
  else if maxCapacity < config.capacity then some .tooMuchTelemetry
  else none

def Valid (config : AdmissionConfig) : Prop := config.defect? = none

instance (config : AdmissionConfig) : Decidable config.Valid :=
  inferInstanceAs (Decidable (_ = _))

def span (config : AdmissionConfig) : Nat := config.window.clipped

def rate (config : AdmissionConfig) : Float :=
  let seconds := config.window.seconds
  if seconds == 0.0 then 0.0 else Binary64.ofCount config.limit / seconds

def fields (config : AdmissionConfig) : List (String × String) :=
  [("max_requests_per_second", toString config.limit), ("window", config.window.text),
    ("telemetry_capacity", toString config.capacity)]

def text (config : AdmissionConfig) : String := Text.labelled "AdmissionConfig" config.fields

theorem valid_iff (config : AdmissionConfig) :
    config.Valid ↔
      0 < config.window.nanos ∧ 0 < config.capacity ∧ config.capacity ≤ maxCapacity := by
  unfold Valid defect?
  grind

theorem Valid.capacity_pos {config : AdmissionConfig} (hvalid : config.Valid) :
    0 < config.capacity :=
  (config.valid_iff.mp hvalid).2.1

theorem Valid.span_pos {config : AdmissionConfig} (hvalid : config.Valid) : 0 < config.span := by
  have hwindow := (config.valid_iff.mp hvalid).1
  simp only [span, Duration.clipped, maxNanos, UInt64.size]
  omega

end AdmissionConfig

structure PoolConfig where
  workers : Nat := 16
  queue : Nat := 10000
  deriving DecidableEq, Repr

namespace PoolConfig

def defect? (config : PoolConfig) : Option ConfigDefect :=
  if config.workers = 0 then some .noWorkers
  else if config.queue = 0 then some .noQueue
  else none

def Valid (config : PoolConfig) : Prop := config.defect? = none

instance (config : PoolConfig) : Decidable config.Valid :=
  inferInstanceAs (Decidable (_ = _))

def perCore (cores queue : Nat) : PoolConfig := ⟨max cores 1, queue⟩

theorem valid_iff (config : PoolConfig) :
    config.Valid ↔ 0 < config.workers ∧ 0 < config.queue := by
  unfold Valid defect?
  grind

end PoolConfig

end Turnstile

import Turnstile.Binary64
import Turnstile.Duration

/-! Measured values with their labels, and the batches they arrive in. -/

namespace Turnstile

inductive MetricKind
  | counter
  | gauge
  | histogram
  | summary
  deriving DecidableEq, Repr

namespace MetricKind

instance : Inhabited MetricKind := ⟨.gauge⟩

def name : MetricKind → String
  | .counter => "counter"
  | .gauge => "gauge"
  | .histogram => "histogram"
  | .summary => "summary"

/-- Reads the name of a kind; whatever names no kind counts as a gauge. -/
def ofName (name : String) : MetricKind :=
  if name = "counter" then .counter
  else if name = "histogram" then .histogram
  else if name = "summary" then .summary
  else .gauge

end MetricKind

structure Tags where
  entries : List (String × String) := []
  deriving DecidableEq, Repr

namespace Tags

def get? (tags : Tags) (key : String) : Option String := tags.entries.lookup key

def insert (tags : Tags) (key value : String) : Tags :=
  ⟨tags.entries.filter (fun entry => entry.1 != key) ++ [(key, value)]⟩

def ofList (entries : List (String × String)) : Tags :=
  entries.foldl (fun tags entry => tags.insert entry.1 entry.2) {}

def same (left right : Tags) : Bool :=
  left.entries.length == right.entries.length &&
    left.entries.all fun entry => right.get? entry.1 == some entry.2

end Tags

structure Metric where
  name : String
  value : Binary64 := ⟨0⟩
  kind : MetricKind := .gauge
  tags : Tags := {}
  /-- When it was measured, counted from the start of 1970; `none` is the time of its making. -/
  measuredAt : Option Duration := none
  deriving DecidableEq, Repr

namespace Metric

def same (left right : Metric) : Bool :=
  left.name == right.name && left.value.same right.value && left.kind == right.kind &&
    left.tags.same right.tags && left.measuredAt == right.measuredAt

end Metric

structure Batch where
  source : String
  metrics : List Metric := []
  deriving DecidableEq, Repr

def Batch.size (batch : Batch) : Nat := batch.metrics.length

end Turnstile

/-! How well the front end is doing, and what to do about it. -/

namespace Turnstile

inductive Health
  | healthy
  | degraded
  | critical
  deriving DecidableEq, Repr

namespace Health

def name : Health → String
  | .healthy => "Healthy"
  | .degraded => "Degraded"
  | .critical => "Critical"

def display : Health → String
  | .healthy => "✅ Healthy"
  | .degraded => "⚠️ Degraded"
  | .critical => "🔴 Critical"

def isUnhealthy : Health → Bool
  | .healthy => false
  | .degraded | .critical => true

def action : Health → String
  | .healthy => "No action needed"
  | .degraded => "Monitor closely, consider raising limits or flushing more often"
  | .critical => "Immediate action required: reduce load or fix the monitoring sink"

def worst : Health → Health → Health
  | .critical, _ | _, .critical => .critical
  | .degraded, _ | _, .degraded => .degraded
  | .healthy, .healthy => .healthy

end Health

end Turnstile

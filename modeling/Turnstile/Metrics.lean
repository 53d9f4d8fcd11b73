import Turnstile.Binary64
import Turnstile.Health
import Turnstile.Text.Labelled

/-! Counters of a controller at one moment, with the rates and the health drawn from them. -/

namespace Turnstile

structure FlushReport where
  clients : Nat := 0
  delivered : Nat := 0
  dropped : Nat := 0
  failures : Nat := 0
  deriving DecidableEq, Repr

def FlushReport.harvested (report : FlushReport) : Nat := report.delivered + report.failures

structure Metrics where
  allowed : Nat := 0
  denied : Nat := 0
  clients : Nat := 0
  flushes : Nat := 0
  delivered : Nat := 0
  dropped : Nat := 0
  failures : Nat := 0
  deriving DecidableEq, Repr

namespace Metrics

def requests (metrics : Metrics) : Nat := metrics.allowed + metrics.denied

def harvested (metrics : Metrics) : Nat := metrics.delivered + metrics.failures

def lost (metrics : Metrics) : Nat := metrics.dropped + metrics.failures

def allowRate (metrics : Metrics) : Float :=
  if metrics.requests = 0 then 1.0
  else Binary64.ofCount metrics.allowed / Binary64.ofCount metrics.requests

def denialRate (metrics : Metrics) : Float := 1.0 - metrics.allowRate

def lossRate (metrics : Metrics) : Float :=
  let events := metrics.delivered + metrics.lost
  if events = 0 then 0.0 else Binary64.ofCount metrics.lost / Binary64.ofCount events

def pressureRate : Float := 0.3

def criticalRate : Float := 0.5

def underPressure (metrics : Metrics) : Bool := pressureRate < metrics.denialRate

def losingTelemetry (metrics : Metrics) : Bool := 0 < metrics.dropped || 0 < metrics.failures

def health (metrics : Metrics) : Health :=
  if criticalRate < metrics.denialRate ∨ criticalRate < metrics.lossRate then .critical
  else if metrics.underPressure ∨ metrics.losingTelemetry then .degraded
  else .healthy

def summary (metrics : Metrics) : String :=
  Text.lines
    ["Admission Metrics:",
      "├─ Admission:",
      "│  ├─ Allow Rate: " ++ percentText metrics.allowRate,
      "│  ├─ Denial Rate: " ++ percentText metrics.denialRate,
      "│  ├─ Total Allowed: " ++ toString metrics.allowed,
      "│  ├─ Total Denied: " ++ toString metrics.denied,
      "│  └─ Tracked Clients: " ++ toString metrics.clients,
      "├─ Telemetry:",
      "│  ├─ Flushes: " ++ toString metrics.flushes,
      "│  ├─ Delivered: " ++ toString metrics.delivered,
      "│  ├─ Dropped: " ++ toString metrics.dropped,
      "│  ├─ Sink Failures: " ++ toString metrics.failures,
      "│  └─ Loss Rate: " ++ percentText metrics.lossRate,
      "└─ Health:",
      "└─ Status: " ++ metrics.health.name]

theorem losingTelemetry_iff (metrics : Metrics) :
    metrics.losingTelemetry = true ↔ 0 < metrics.lost := by
  simp only [losingTelemetry, lost, Bool.or_eq_true, decide_eq_true_eq]
  omega

end Metrics

end Turnstile

import Turnstile.Binary64
import Turnstile.Pool.Routine
import Turnstile.Text.Labelled

/-! Counters of a pool at one moment. -/

namespace Turnstile.Pool

structure Stats where
  workers : Nat
  active : Nat
  queued : Nat
  capacity : Nat
  accepted : Nat
  rejected : Nat
  completed : Nat
  failed : Nat
  phase : Phase
  deriving DecidableEq, Repr

namespace Stats

def utilization (stats : Stats) : Float :=
  if stats.capacity = 0 then 0.0
  else Binary64.ofCount stats.queued / Binary64.ofCount stats.capacity

def saturated (stats : Stats) : Bool := stats.capacity ≤ stats.queued

def inFlight (stats : Stats) : Nat := stats.accepted - (stats.completed + stats.failed)

def summary (stats : Stats) : String :=
  Text.lines
    ["Worker Pool Stats:",
      "├─ State: " ++ stats.phase.text,
      "├─ Workers: " ++ toString stats.active ++ "/" ++ toString stats.workers ++ " active",
      "├─ Queue: " ++ toString stats.queued ++ "/" ++ toString stats.capacity ++
        " (" ++ percentText stats.utilization ++ ")",
      "└─ Tasks:",
      "├─ Accepted: " ++ toString stats.accepted,
      "├─ Rejected: " ++ toString stats.rejected,
      "├─ Completed: " ++ toString stats.completed,
      "└─ Failed: " ++ toString stats.failed]

end Stats

end Turnstile.Pool

import Turnstile.Ring.Checked
import Turnstile.Site.System

/-!
Totals in words of 64 bits. Those of a controller are counters that wrap around, and nobody comes
upon a fault there. Those of a report are sums that a flush takes by itself, and what becomes of one
that does not fit its word depends on how the program was built. What a ring counts is a fault
either way, in `Ring.add?`.
-/

namespace Turnstile

inductive Arithmetic
  /-- A sum that does not fit is a fault. -/
  | checked
  /-- It starts again at zero. -/
  | wrapping
  deriving DecidableEq, Repr

def Arithmetic.add? (arithmetic : Arithmetic) (left right : Nat) : Except Ring.Fault Nat :=
  match arithmetic with
  | .checked => Ring.add? left right
  | .wrapping => .ok ((left + right) % UInt64.size)

namespace FlushReport

def addHarvest? (arithmetic : Arithmetic) (report : FlushReport) (dropped delivered : Nat) :
    Except Ring.Fault FlushReport := do
  let clients ← arithmetic.add? report.clients 1
  let dropped ← arithmetic.add? report.dropped dropped
  let delivered ← arithmetic.add? report.delivered delivered
  return { report with clients, dropped, delivered }

/-- As `addClient`, in words. The failures of one client, which are no more than its ring has
slots, come last. -/
def addClient? (arithmetic : Arithmetic) (report : FlushReport) (dropped : Nat)
    (offering : Offering) : Except Ring.Fault FlushReport := do
  let harvested ← report.addHarvest? arithmetic dropped offering.delivered
  let failures ← arithmetic.add? report.failures offering.failures
  return { harvested with failures }

end FlushReport

def Controller.wrapTotals (controller : Controller) : Controller :=
  { controller with
    allowed := controller.allowed % UInt64.size
    denied := controller.denied % UInt64.size
    flushes := controller.flushes % UInt64.size
    delivered := controller.delivered % UInt64.size
    dropped := controller.dropped % UInt64.size
    failures := controller.failures % UInt64.size }

namespace Site

def wrapTotals (site : Site σ) : Site σ :=
  { site with controller := site.controller.wrapTotals }

/-- The place that a call has come to by one of its parts, with the sums of its report taken in
words. -/
def Call.totalled? (arithmetic : Arithmetic) : Call → Call → Except Ring.Fault Call
  | .offering _ dropped [] outcome clients report, _ =>
      (report.addClient? arithmetic dropped outcome).map (.visiting clients)
  | _, .offering client dropped decisions outcome clients report =>
      (report.addHarvest? arithmetic dropped outcome.delivered).map fun _ =>
        .offering client dropped decisions outcome clients report
  | _, next => .ok next

end Site

end Turnstile

import Turnstile.Site
import Turnstile.Steps

/-!
Requests and flushes of many threads at one site. A call goes through parts
that nothing divides, and between two parts of one call any number of parts of
others may come. The clock is read where the window is judged, so that each
window sees it move forward only.
-/

namespace Turnstile.Site

/-- Where a call stands: before the part it is named for, or at its end. -/
inductive Call
  /-- A request, before its client is looked up. -/
  | finding (client : String)
  /-- A request whose client was not found. -/
  | entering (client : String)
  | judging (client : String)
  | recording (client : String) (reading : Nat) (allowed : Bool)
  | counting (client : String) (reading : Nat) (allowed : Bool)
  | answered (client : String) (reading : Nat) (allowed : Bool)
  /-- A flush, before it looks which clients there are. -/
  | listing
  | visiting (clients : List String) (report : FlushReport)
  /-- A flush that has drained a client and not offered all of its decisions. -/
  | offering (client : String) (dropped : Nat) (decisions : List Decision)
      (offering : Offering) (clients : List String) (report : FlushReport)
  | reported (report : FlushReport)

/-- The next part of a call. `order` is the order in which a flush finds the clients. -/
def part? (order : List String) (site : Site σ) : Call → Option (Call × Site σ)
  | .finding client =>
      if site.controller.knows client then some (.judging client, site)
      else some (.entering client, site)
  | .entering client =>
      some (.judging client, { site with controller := site.controller.track client })
  | .judging client =>
      let reading := site.time.reading
      let (allowed, controller) := site.controller.judge reading client
      some (.recording client reading allowed, { site with controller })
  | .recording client reading allowed =>
      some (.counting client reading allowed,
        { site with controller := site.controller.record client (.made reading allowed) })
  | .counting client reading allowed =>
      some (.answered client reading allowed,
        { site with controller := site.controller.count allowed })
  | .answered .. | .reported _ => none
  | .listing =>
      if order.isPerm site.controller.clients.names then some (.visiting order {}, site)
      else none
  | .visiting [] report =>
      some (.reported report, { site with controller := site.controller.countFlush report })
  | .visiting (client :: clients) report =>
      let (harvest, controller) := site.controller.drain client
      if harvest.isEmpty then some (.visiting clients report, { site with controller })
      else
        some (.offering client harvest.dropped harvest.events {} clients report,
          { site with controller })
  | .offering client dropped (decision :: decisions) offering clients report =>
      let (receipt, sink) := site.receive site.sink client decision
      some (.offering client dropped decisions (offering.add client receipt) clients report,
        { site with sink })
  | .offering client dropped [] offering clients report =>
      let records := offering.account client dropped site.controller.config.capacity
      some (.visiting clients (report.addClient dropped offering),
        { site with controller := site.controller.emitAll records })

structure System (σ : Type) where
  site : Site σ
  calls : List Call := []

namespace System

inductive Move
  | request (client : String)
  | flush
  | clock (step : Clock.Move)
  | part (index : Nat) (order : List String)
  deriving DecidableEq, Repr

def step? : Steps (System σ) Move
  | system, .request client => some { system with calls := system.calls ++ [.finding client] }
  | system, .flush => some { system with calls := system.calls ++ [.listing] }
  | system, .clock step => some { system with site := system.site.move step }
  | system, .part index order => do
      let call ← system.calls[index]?
      let (next, site) ← system.site.part? order call
      return { site, calls := system.calls.set index next }

abbrev run? (system : System σ) (moves : List Move) : Option (System σ) :=
  Steps.run? step? system moves

abbrev Reachable (first last : System σ) : Prop := Steps.Reachable step? first last

end System

end Turnstile.Site

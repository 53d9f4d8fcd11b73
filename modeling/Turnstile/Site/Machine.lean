import Mathlib.Logic.Function.Basic
import Turnstile.Site.Totals

/-!
Requests and flushes of many threads at one site, one load or store of a ring at a time. A thread
that records takes the writers' lock of its client's ring, and one that drains the harvesters'
lock; between its steps any others may come, those of the other side at the same ring too. What
else a call does, it does in the parts of `Site.part?`, with its totals in words. A thread that
comes upon a fault goes no further.
-/

namespace Turnstile

def Controller.track? (controller : Controller) (name : String) :
    Except Ring.Defect Controller :=
  if controller.knows name then .ok controller
  else
    (Ring.ofCapacity? controller.config.capacity).map fun ring =>
      { controller with clients := controller.clients.insertNew name { ring } }.emit
        (.clientTracked name)

def Controller.ring? (controller : Controller) (name : String) : Option Ring :=
  (controller.client? name).map Client.ring

namespace Site

inductive Task
  | free (call : Call)
  | writing (client : String) (reading : Nat) (allowed : Bool)
  | draining (client : String) (clients : List String) (report : FlushReport)
  | halted (fault : Ring.Fault)

/-- A ring has a lock for those who write, and another one for those who harvest. -/
inductive Side
  | writers
  | harvesters
  deriving DecidableEq, Repr

def sideOf : Ring.System.Move → Side
  | .record _ | .write => .writers
  | .harvest | .drain => .harvesters

/-- The threads that hold the locks of a ring, and what harvests of it have returned. -/
structure Holders where
  writer : Ring.Writer := .idle
  drainer : Ring.Drainer := .idle
  harvests : List Harvest := []

namespace Holders

def ofSystem (system : Ring.System) : Holders where
  writer := system.writer
  drainer := system.drainer
  harvests := system.harvests

def system (holders : Holders) (ring : Ring) : Ring.System where
  ring := ring
  writer := holders.writer
  drainer := holders.drainer
  harvests := holders.harvests

def release (holders : Holders) : Side → Holders
  | .writers => { holders with writer := .idle }
  | .harvesters => { holders with drainer := .idle }

end Holders

namespace Task

def ringMove? : Task → Option (String × Ring.System.Move)
  | .free (.recording client reading allowed) => some (client, .record (.made reading allowed))
  | .free (.visiting (client :: _) _) => some (client, .harvest)
  | .writing client _ _ => some (client, .write)
  | .draining client _ _ => some (client, .drain)
  | .free _ | .halted _ => none

/-- A thread outside of all locks goes on with its call, unless it has come upon a fault. -/
def ofResult : Except Ring.Fault Call → Task
  | .ok call => .free call
  | .error fault => .halted fault

def harvested (arithmetic : Arithmetic) (client : String) (clients : List String)
    (report : FlushReport) (harvest : Harvest) : Task :=
  if harvest.isEmpty then .free (.visiting clients report)
  else
    .ofResult (Call.totalled? arithmetic (.visiting (client :: clients) report)
      (.offering client harvest.dropped harvest.events {} clients report))

/-- Where a thread stands after its move at a ring, which has left the ring as it is in `system`.
It holds its lock until its record or harvest is over. -/
def next (arithmetic : Arithmetic) (system : Ring.System) : Task → Task
  | .free (.recording client reading allowed) => .writing client reading allowed
  | .free (.visiting (client :: clients) report) => .draining client clients report
  | .writing client reading allowed =>
      if system.writer = .idle then .free (.counting client reading allowed)
      else .writing client reading allowed
  | .draining client clients report =>
      if system.drainer = .idle then
        harvested arithmetic client clients report (system.harvests.getLastD {})
      else .draining client clients report
  | task => task

end Task

structure Machine (σ : Type) where
  site : Site σ
  arithmetic : Arithmetic
  holders : String → Holders := fun _ => {}
  tasks : List Task := []

namespace Machine

def start (arithmetic : Arithmetic) (controller : Controller) (receive : Receiver σ) (sink : σ)
    (time : TimeSource) : Machine σ where
  site := { controller, receive, sink, time }
  arithmetic := arithmetic

def ringSystem? (machine : Machine σ) (client : String) : Option Ring.System :=
  (machine.site.controller.ring? client).map (machine.holders client).system

def setRing (machine : Machine σ) (client : String) (system : Ring.System) : Machine σ :=
  { machine with
    site.controller := machine.site.controller.modifyClient client fun client =>
      { client with ring := system.ring }
    holders := Function.update machine.holders client (.ofSystem system) }

def setTask (machine : Machine σ) (index : Nat) (task : Task) : Machine σ :=
  { machine with tasks := machine.tasks.set index task }

/-- A thread that is ended by a fault gives up the lock it holds. -/
def release (machine : Machine σ) (client : String) (side : Side) : Machine σ :=
  { machine with
    holders := Function.update machine.holders client ((machine.holders client).release side) }

/-- A step of a thread at a ring. There is none as long as the lock is held by another. -/
def moveRing? (machine : Machine σ) (index : Nat) (task : Task) (client : String)
    (move : Ring.System.Move) : Option (Machine σ) := do
  let system ← machine.ringSystem? client
  match ← system.attempt? move with
  | .ok system =>
      return (machine.setRing client system).setTask index (task.next machine.arithmetic system)
  | .error fault => return (machine.release client (sideOf move)).setTask index (.halted fault)

def goOn (machine : Machine σ) (index : Nat) (site : Site σ) (task : Task) : Machine σ :=
  { machine with site := site.wrapTotals }.setTask index task

/-- A part of a call that touches no ring, if only because there is none yet. -/
def part? (machine : Machine σ) (index : Nat) (order : List String) :
    Call → Option (Machine σ)
  | .entering client =>
      match machine.site.controller.track? client with
      | .ok controller =>
          some (machine.goOn index { machine.site with controller } (.free (.judging client)))
      | .error defect => some (machine.setTask index (.halted (.assertion defect)))
  | call => do
      let (next, site) ← machine.site.part? order call
      return machine.goOn index site (.ofResult (call.totalled? machine.arithmetic next))

def advance? (machine : Machine σ) (index : Nat) (order : List String) :
    Option (Machine σ) := do
  let task ← machine.tasks[index]?
  match task.ringMove?, task with
  | some (client, move), _ => machine.moveRing? index task client move
  | none, .free call => machine.part? index order call
  | none, _ => none

def step? : Steps (Machine σ) System.Move
  | machine, .request client =>
      some { machine with tasks := machine.tasks ++ [.free (.finding client)] }
  | machine, .flush => some { machine with tasks := machine.tasks ++ [.free .listing] }
  | machine, .clock step => some { machine with site := machine.site.move step }
  | machine, .part index order => machine.advance? index order

abbrev run? (machine : Machine σ) (moves : List System.Move) : Option (Machine σ) :=
  Steps.run? step? machine moves

end Machine

end Site

end Turnstile

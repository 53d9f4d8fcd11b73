import Turnstile.Config
import Turnstile.Index
import Turnstile.Log
import Turnstile.Ring
import Turnstile.Window

/-!
Admission of requests, client by client. A request passes through four parts
that nothing else can divide: finding or entering its client (`track`), the
client's window (`judge`), the client's ring (`record`) and the totals (`count`).
-/

namespace Turnstile

structure Client where
  window : Window := {}
  ring : Ring

structure Controller where
  config : AdmissionConfig
  valid : config.Valid
  /-- Clients are entered at their first request and never removed. -/
  clients : Index Client := {}
  allowed : Nat := 0
  denied : Nat := 0
  flushes : Nat := 0
  delivered : Nat := 0
  dropped : Nat := 0
  failures : Nat := 0
  log : Array LogRecord := #[]

namespace Controller

def ofConfig (config : AdmissionConfig) (valid : config.Valid) : Controller where
  config := config
  valid := valid

def ofConfig? (config : AdmissionConfig) : Except SetupError Controller :=
  match h : config.defect? with
  | some defect => .error (.ofDefect defect)
  | none => .ok (ofConfig config h)

def emit (controller : Controller) (record : LogRecord) : Controller :=
  { controller with log := controller.log.push record }

def newClient (controller : Controller) : Client where
  ring := Ring.ofCapacity controller.config.capacity controller.valid.capacity_pos

def client? (controller : Controller) (name : String) : Option Client :=
  controller.clients.find? name

def knows (controller : Controller) (name : String) : Bool := controller.clients.contains name

def modifyClient (controller : Controller) (name : String) (change : Client → Client) :
    Controller :=
  { controller with clients := controller.clients.modify name change }

def track (controller : Controller) (name : String) : Controller :=
  if controller.knows name then controller
  else
    { controller with
      clients := controller.clients.insertNew name controller.newClient }.emit
        (.clientTracked name)

/-- The client's window as it stands; empty for a client that is not known. -/
def window (controller : Controller) (name : String) : Window :=
  ((controller.client? name).map Client.window).getD {}

def judge (controller : Controller) (reading : Nat) (name : String) : Bool × Controller :=
  let (allowed, window) :=
    (controller.window name).allow reading controller.config.limit controller.config.span
  (allowed, controller.modifyClient name fun client => { client with window })

def record (controller : Controller) (name : String) (decision : Decision) : Controller :=
  controller.modifyClient name fun client => { client with ring := client.ring.record decision }

def count (controller : Controller) (allowed : Bool) : Controller :=
  if allowed then { controller with allowed := controller.allowed + 1 }
  else { controller with denied := controller.denied + 1 }

def allow (controller : Controller) (reading : Nat) (name : String) : Bool × Controller :=
  let (allowed, judged) := (controller.track name).judge reading name
  (allowed, (judged.record name (.made reading allowed)).count allowed)

/-- Decisions of a client that a flush would find; none for a client that is not known. -/
def pending (controller : Controller) (name : String) : Nat :=
  ((controller.client? name).map fun client => client.ring.pending).getD 0

def windowSize (controller : Controller) (name : String) : Nat := (controller.window name).size

def metrics (controller : Controller) : Metrics where
  allowed := controller.allowed
  denied := controller.denied
  clients := controller.clients.size
  flushes := controller.flushes
  delivered := controller.delivered
  dropped := controller.dropped
  failures := controller.failures

def text (controller : Controller) : String :=
  Text.labelled "AdmissionController"
    (controller.config.fields ++ [("tracked_clients", toString controller.clients.size)])

end Controller

end Turnstile

import Turnstile.Decision
import Turnstile.Text.Labelled

/-!
Rings that keep the latest decisions of one client until they are harvested.
Indices grow without end and are folded onto the slots, so a decision that is
not harvested within one lap is overwritten. Writing is three separate stores
(`claim`, `store`, `publish`) and harvesting a sequence of loads, so that both
can also be taken step by step.
-/

namespace Turnstile

structure Ring where
  slots : Array UInt64
  slots_nonempty : 0 < slots.size
  /-- The next index that a writer will claim. -/
  reserved : Nat := 0
  /-- One past the last index whose slot has been written. -/
  published : Nat := 0
  /-- The first index that has not been harvested. -/
  read : Nat := 0
  /-- How many decisions harvests have found overwritten. -/
  lost : Nat := 0

/-- What one harvest returns: the decisions that were intact, oldest first, and
how many had been overwritten. -/
structure Harvest where
  events : List Decision := []
  dropped : Nat := 0
  deriving DecidableEq, Repr

def Harvest.isEmpty (harvest : Harvest) : Bool :=
  harvest.events.isEmpty && harvest.dropped == 0

namespace Ring

inductive Defect
  | noSlots
  deriving DecidableEq, Repr

def Defect.message : Defect → String
  | .noSlots => "telemetry ring capacity must be > 0"

def ofCapacity (capacity : Nat) (hpositive : 0 < capacity) : Ring where
  slots := Array.replicate capacity 0
  slots_nonempty := by simpa using hpositive

def ofCapacity? (capacity : Nat) : Except Defect Ring :=
  if hpositive : 0 < capacity then .ok (ofCapacity capacity hpositive) else .error .noSlots

def capacity (ring : Ring) : Nat := ring.slots.size

def slotOf (ring : Ring) (index : Nat) : Fin ring.slots.size :=
  ⟨index % ring.slots.size, Nat.mod_lt _ ring.slots_nonempty⟩

/-! Writing a decision. -/

def claim (ring : Ring) (index : Nat) : Ring := { ring with reserved := index + 1 }

def store (ring : Ring) (index : Nat) (word : UInt64) : Ring :=
  { ring with
    slots := ring.slots.set (ring.slotOf index) word (ring.slotOf index).isLt
    slots_nonempty := by simpa using ring.slots_nonempty }

def publish (ring : Ring) (index : Nat) : Ring := { ring with published := index + 1 }

def record (ring : Ring) (decision : Decision) : Ring :=
  let index := ring.reserved
  ((ring.claim index).store index decision.toWord).publish index

/-! Harvesting. -/

def load (ring : Ring) (index : Nat) : UInt64 := ring.slots[ring.slotOf index]

/-- Where copying starts: anything a whole lap behind `published` is gone. -/
def copyStart (capacity read published : Nat) : Nat := max read (published - capacity)

/-- The first copied index that no writer had claimed again by the end of the copy. -/
def firstIntact (capacity reserved start published : Nat) : Nat :=
  max start (min (reserved - capacity) published)

def harvestOfCopy (capacity read published reserved : Nat) (words : List UInt64) : Harvest :=
  let start := copyStart capacity read published
  let skipped := firstIntact capacity reserved start published - start
  { events := (words.drop skipped).map Decision.ofWord
    dropped := (start - read) + skipped }

def copy (ring : Ring) (start stop : Nat) : List UInt64 :=
  (List.range' start (stop - start)).map ring.load

def countLost (ring : Ring) (dropped : Nat) : Ring := { ring with lost := ring.lost + dropped }

def markRead (ring : Ring) (index : Nat) : Ring := { ring with read := index }

def harvest (ring : Ring) : Harvest × Ring :=
  if ring.published = ring.read then ({}, ring)
  else
    let words := ring.copy (copyStart ring.capacity ring.read ring.published) ring.published
    let harvested := harvestOfCopy ring.capacity ring.read ring.published ring.reserved words
    (harvested, (ring.countLost harvested.dropped).markRead ring.published)

/-- Decisions a harvest would find, at most a lap of them. -/
def pending (ring : Ring) : Nat := min (ring.published - ring.read) ring.capacity

def recorded (ring : Ring) : Nat := ring.published

def text (ring : Ring) : String :=
  Text.labelled "TelemetryRing"
    [("capacity", toString ring.capacity), ("recorded", toString ring.recorded),
      ("pending", toString ring.pending), ("dropped", toString ring.lost)]

@[simp] theorem capacity_ofCapacity (capacity : Nat) (hpositive : 0 < capacity) :
    (ofCapacity capacity hpositive).capacity = capacity := by
  simp [ofCapacity, Ring.capacity]

@[simp] theorem capacity_record (ring : Ring) (decision : Decision) :
    (ring.record decision).capacity = ring.capacity := by
  simp [record, publish, store, claim, capacity]

theorem capacity_harvest (ring : Ring) : ring.harvest.2.capacity = ring.capacity := by
  unfold harvest
  split <;> rfl

end Ring

end Turnstile

import Turnstile.Ring.System

/-!
What can go wrong at a ring. Sums and differences of cursors are taken in words of 64 bits, a
number is kept between two bounds that must be in order, lists are cut and slots looked up at
places that must be there: whatever does not fit is a fault, and ends the call of the thread that
comes upon it. Steps without a fault are those of `System.step?`.
-/

namespace Turnstile.Ring

inductive Fault
  | assertion (defect : Defect)
  | overflow (left right : Nat)
  | underflow (left right : Nat)
  | crossedBounds (low high : Nat)
  | beyondEnd (place length : Nat)
  | beyondSlots (slot count : Nat)
  deriving DecidableEq, Repr

def add? (left right : Nat) : Except Fault Nat :=
  if left + right < UInt64.size then .ok (left + right) else .error (.overflow left right)

def subtract? (left right : Nat) : Except Fault Nat :=
  if right ≤ left then .ok (left - right) else .error (.underflow left right)

def clamp? (value low high : Nat) : Except Fault Nat :=
  if low ≤ high then .ok (max low (min value high)) else .error (.crossedBounds low high)

def dropFirst? (count : Nat) (words : List UInt64) : Except Fault (List UInt64) :=
  if count ≤ words.length then .ok (words.drop count)
  else .error (.beyondEnd count words.length)

def slotOf? (ring : Ring) (index : Nat) : Except Fault (Fin ring.slots.size) :=
  if hslot : index % ring.capacity < ring.slots.size then .ok ⟨index % ring.capacity, hslot⟩
  else .error (.beyondSlots (index % ring.capacity) ring.slots.size)

def claim? (ring : Ring) (index : Nat) : Except Fault Ring := do
  let next ← add? index 1
  return { ring with reserved := next }

def store? (ring : Ring) (index : Nat) (word : UInt64) : Except Fault Ring := do
  let slot ← ring.slotOf? index
  return { ring with
    slots := ring.slots.set slot word slot.isLt
    slots_nonempty := by simpa using ring.slots_nonempty }

def publish? (ring : Ring) (index : Nat) : Except Fault Ring := do
  let next ← add? index 1
  return { ring with published := next }

def load? (ring : Ring) (index : Nat) : Except Fault UInt64 := do
  let slot ← ring.slotOf? index
  return ring.slots[slot]

def harvestOfCopy? (capacity read published reserved : Nat) (words : List UInt64) :
    Except Fault Harvest := do
  let start := copyStart capacity read published
  let intact ← clamp? (reserved - capacity) start published
  let skipped ← subtract? intact start
  let kept ← dropFirst? skipped words
  let behind ← subtract? start read
  let dropped ← add? behind skipped
  return { events := kept.map Decision.ofWord, dropped }

namespace System

def attemptWrite? (system : System) : Option (Except Fault System) :=
  match system.writer with
  | .idle => none
  | .entered decision =>
      some (.ok { system with writer := .loaded decision system.ring.reserved })
  | .loaded decision index => some do
      let ring ← system.ring.claim? index
      return { system with ring, writer := .claimed decision index }
  | .claimed decision index => some do
      let ring ← system.ring.store? index decision.toWord
      return { system with ring, writer := .stored index }
  | .stored index => some do
      let ring ← system.ring.publish? index
      return { system with ring, writer := .idle }

def attemptDrain? (system : System) : Option (Except Fault System) :=
  let ring := system.ring
  match system.drainer with
  | .copying read published words =>
      let index := copyStart ring.capacity read published + words.length
      if index < published then some do
        let word ← ring.load? index
        return { system with drainer := .copying read published (words ++ [word]) }
      else system.drain?.map .ok
  | .checked read published reserved words => some do
      let harvest ← harvestOfCopy? ring.capacity read published reserved words
      return { system with
        ring := ring.countLost harvest.dropped, drainer := .counted published harvest }
  | .idle | .entered | .loadedRead _ | .counted .. => system.drain?.map .ok

def attempt? (system : System) : Move → Option (Except Fault System)
  | .write => system.attemptWrite?
  | .drain => system.attemptDrain?
  | .record decision => (step? system (.record decision)).map .ok
  | .harvest => (step? system .harvest).map .ok

end System

/-! Where nothing is at fault, the checks change nothing. -/

theorem add?_eq {left right : Nat} (h : left + right < UInt64.size) :
    add? left right = .ok (left + right) :=
  if_pos h

theorem subtract?_eq {left right : Nat} (h : right ≤ left) :
    subtract? left right = .ok (left - right) :=
  if_pos h

theorem clamp?_eq {value low high : Nat} (h : low ≤ high) :
    clamp? value low high = .ok (max low (min value high)) :=
  if_pos h

theorem dropFirst?_eq {count : Nat} {words : List UInt64} (h : count ≤ words.length) :
    dropFirst? count words = .ok (words.drop count) :=
  if_pos h

theorem slotOf?_eq (ring : Ring) (index : Nat) : ring.slotOf? index = .ok (ring.slotOf index) :=
  dif_pos (Nat.mod_lt _ ring.slots_nonempty)

theorem claim?_eq (ring : Ring) {index : Nat} (h : index + 1 < UInt64.size) :
    ring.claim? index = .ok (ring.claim index) := by
  rw [claim?, add?_eq h]
  rfl

theorem publish?_eq (ring : Ring) {index : Nat} (h : index + 1 < UInt64.size) :
    ring.publish? index = .ok (ring.publish index) := by
  rw [publish?, add?_eq h]
  rfl

theorem store?_eq (ring : Ring) (index : Nat) (word : UInt64) :
    ring.store? index word = .ok (ring.store index word) := by
  rw [store?, slotOf?_eq]
  rfl

theorem load?_eq (ring : Ring) (index : Nat) : ring.load? index = .ok (ring.load index) := by
  rw [load?, slotOf?_eq]
  rfl

theorem harvestOfCopy?_eq {capacity read published reserved : Nat} {words : List UInt64}
    (hread : read ≤ copyStart capacity read published)
    (hstart : copyStart capacity read published ≤ published)
    (hwords : firstIntact capacity reserved (copyStart capacity read published) published -
      copyStart capacity read published ≤ words.length)
    (hfits : published < UInt64.size) :
    harvestOfCopy? capacity read published reserved words =
      .ok (harvestOfCopy capacity read published reserved words) := by
  have hintact : copyStart capacity read published ≤
      max (copyStart capacity read published) (min (reserved - capacity) published) :=
    Nat.le_max_left ..
  have hsum : copyStart capacity read published - read +
      (max (copyStart capacity read published) (min (reserved - capacity) published) -
        copyStart capacity read published) < UInt64.size := by
    omega
  simp only [firstIntact] at hwords
  simp only [harvestOfCopy?, clamp?_eq hstart, subtract?_eq hintact, dropFirst?_eq hwords,
    subtract?_eq hread, add?_eq hsum, bind, Except.bind, pure, Except.pure]
  rfl

end Turnstile.Ring

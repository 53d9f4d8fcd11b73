import Mathlib.Data.Nat.ModEq
import Turnstile.Ring

/-!
Which slots hold what. A store changes one slot, and no other index less than
a lap behind is folded onto it; so the slots of the latest lap hold the
decisions that were stored there last.
-/

namespace Turnstile

namespace Decision

/-- What is left of a decision once it has been through a word. -/
def kept (decision : Decision) : Decision := ofWord decision.toWord

theorem kept_eq (decision : Decision) :
    decision.kept = ⟨decision.time % (maxTime + 1), decision.allowed⟩ :=
  ofWord_toWord decision

theorem kept_of_le {decision : Decision} (hfits : decision.time ≤ maxTime) :
    decision.kept = decision := by
  have hmod : decision.time % (maxTime + 1) = decision.time :=
    Nat.mod_eq_of_lt (Nat.lt_succ_of_le hfits)
  rw [kept_eq, hmod]

end Decision

namespace Ring

@[simp] theorem capacity_store (ring : Ring) (index : Nat) (word : UInt64) :
    (ring.store index word).capacity = ring.capacity := by
  simp [store, capacity]

theorem load_store_self (ring : Ring) (index : Nat) (word : UInt64) :
    (ring.store index word).load index = word := by
  simp [load, store, slotOf]

theorem load_store_of_ne (ring : Ring) {index other : Nat} (word : UInt64)
    (hne : index % ring.capacity ≠ other % ring.capacity) :
    (ring.store index word).load other = ring.load other := by
  simp only [capacity] at hne
  simp [load, store, slotOf, Array.getElem_set, hne]

theorem slot_ne_of_lap {capacity earlier later : Nat} (hbefore : earlier < later)
    (hlap : later < earlier + capacity) : later % capacity ≠ earlier % capacity := by
  intro hsame
  have hdvd : capacity ∣ later - earlier :=
    (Nat.modEq_iff_dvd' (Nat.le_of_lt hbefore)).mp hsame.symm
  have hle : capacity ≤ later - earlier := Nat.le_of_dvd (by omega) hdvd
  omega

theorem load_store_of_lap (ring : Ring) {earlier later : Nat} (word : UInt64)
    (hbefore : earlier < later) (hlap : later < earlier + ring.capacity) :
    (ring.store later word).load earlier = ring.load earlier :=
  ring.load_store_of_ne word (slot_ne_of_lap hbefore hlap)

/-- The slots of the latest lap hold the words of the decisions stored there,
of which `stored` is the list by index. -/
def HoldsLatest (ring : Ring) (stored : List Decision) : Prop :=
  ∀ index decision, stored[index]? = some decision →
    stored.length ≤ index + ring.capacity → ring.load index = decision.toWord

theorem HoldsLatest.nil (ring : Ring) : ring.HoldsLatest [] := by
  intro index decision hstored
  simp at hstored

theorem HoldsLatest.store {ring : Ring} {stored : List Decision}
    (h : ring.HoldsLatest stored) (decision : Decision) :
    (ring.store stored.length decision.toWord).HoldsLatest (stored ++ [decision]) := by
  intro index other hstored hlatest
  simp only [capacity_store, List.length_append, List.length_singleton] at hlatest
  rcases Nat.lt_trichotomy index stored.length with hbefore | hlast | hafter
  · rw [List.getElem?_append_left hbefore] at hstored
    rw [ring.load_store_of_lap decision.toWord hbefore (by omega)]
    exact h index other hstored (by omega)
  · subst hlast
    simp only [List.getElem?_concat_length, Option.some.injEq] at hstored
    rw [← hstored, load_store_self]
  · have hnone : (stored ++ [decision])[index]? = none :=
      List.getElem?_eq_none (by simp only [List.length_append, List.length_singleton]; omega)
    rw [hnone] at hstored
    cases hstored

theorem HoldsLatest.of_slots {ring : Ring} {stored : List Decision}
    (h : ring.HoldsLatest stored) (other : Ring) (hslots : other.slots = ring.slots) :
    other.HoldsLatest stored := by
  obtain ⟨slots, hnonempty, reserved, published, read, lost⟩ := other
  subst hslots
  exact h

end Ring

end Turnstile

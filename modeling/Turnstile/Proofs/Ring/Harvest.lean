import Turnstile.Proofs.Ring.Slots

/-!
What a copy of the slots yields, and with it a whole harvest that nothing
disturbs: it accounts for every decision recorded since the last one, and
returns the latest of them.
-/

namespace Turnstile

theorem Harvest.isEmpty_iff {harvest : Harvest} : harvest.isEmpty = true ↔ harvest = {} := by
  cases harvest
  simp [isEmpty]

namespace Ring

theorem copyStart_le (capacity : Nat) {read published : Nat} (hle : read ≤ published) :
    copyStart capacity read published ≤ published := by
  simp only [copyStart]
  omega

theorem le_copyStart (capacity read published : Nat) :
    read ≤ copyStart capacity read published :=
  Nat.le_max_left ..

theorem le_firstIntact (capacity reserved start published : Nat) :
    start ≤ firstIntact capacity reserved start published :=
  Nat.le_max_left ..

theorem firstIntact_le (capacity reserved : Nat) {start published : Nat}
    (hle : start ≤ published) : firstIntact capacity reserved start published ≤ published := by
  simp only [firstIntact]
  omega

/-- A copy of the slots up to `published` yields the decisions stored from the
first intact index on, if every word whose slot had not been claimed again is
the one stored. -/
theorem events_harvestOfCopy {capacity read published reserved : Nat} {words : List UInt64}
    {stored : List Decision}
    (hlength : copyStart capacity read published + words.length = published)
    (hintact : ∀ place word, words[place]? = some word →
      reserved ≤ copyStart capacity read published + place + capacity →
      stored[copyStart capacity read published + place]?.map Decision.toWord = some word) :
    let first := firstIntact capacity reserved (copyStart capacity read published) published
    (harvestOfCopy capacity read published reserved words).events =
      ((stored.drop first).take (published - first)).map Decision.kept := by
  intro first
  have hfirst : copyStart capacity read published ≤ first := le_firstIntact ..
  apply List.ext_getElem?
  intro place
  simp only [harvestOfCopy, List.getElem?_map, List.getElem?_drop, List.getElem?_take]
  by_cases hplace : place < published - first
  · rw [if_pos hplace]
    obtain ⟨word, hword⟩ : ∃ word,
        words[first - copyStart capacity read published + place]? = some word :=
      ⟨_, List.getElem?_eq_getElem (by omega)⟩
    have hsame := hintact _ word hword (by
      simp only [first, firstIntact] at hplace ⊢
      omega)
    rw [← Nat.add_assoc, Nat.add_sub_cancel' hfirst, Option.map_eq_some_iff] at hsame
    obtain ⟨decision, hdecision, rfl⟩ := hsame
    rw [hword, hdecision]
    rfl
  · rw [if_neg hplace, List.getElem?_eq_none (by omega)]
    rfl

/-! A harvest in one piece. -/

def unread (ring : Ring) : Nat := ring.published - ring.read

theorem pending_eq_zero {ring : Ring} (h : ring.unread = 0) : ring.pending = 0 := by
  simp only [unread] at h
  simp only [pending, h, Nat.zero_min]

@[simp] theorem unread_harvest (ring : Ring) : ring.harvest.2.unread = 0 := by
  unfold harvest
  split
  · rename_i hread
    rw [unread, hread, Nat.sub_self]
  · exact Nat.sub_self _

/-- Where the cursors and the slots stand while nobody uses the ring. -/
structure Holds (ring : Ring) (recorded : List Decision) : Prop where
  reserved_eq : ring.reserved = recorded.length
  published_eq : ring.published = recorded.length
  read_le : ring.read ≤ recorded.length
  latest : ring.HoldsLatest recorded

namespace Holds

variable {ring : Ring} {recorded : List Decision}

theorem start (capacity : Nat) (hpositive : 0 < capacity) :
    (ofCapacity capacity hpositive).Holds [] where
  reserved_eq := rfl
  published_eq := rfl
  read_le := Nat.le_refl _
  latest := .nil _

theorem record (h : ring.Holds recorded) (decision : Decision) :
    (ring.record decision).Holds (recorded ++ [decision]) where
  reserved_eq := by
    simp [Ring.record, claim, store, publish, h.reserved_eq]
  published_eq := by
    simp [Ring.record, publish, h.reserved_eq]
  read_le := by
    have hle := h.read_le
    simp only [Ring.record, claim, store, publish, List.length_append, List.length_singleton]
    omega
  latest := by
    have hstored := (h.latest.of_slots (ring.claim recorded.length) rfl).store decision
    simp only [Ring.record, h.reserved_eq]
    exact hstored.of_slots _ rfl

theorem unread_record (h : ring.Holds recorded) (decision : Decision) :
    (ring.record decision).unread = ring.unread + 1 := by
  have hle := h.read_le
  have hreserved := h.reserved_eq
  have hpublished := h.published_eq
  simp only [unread, Ring.record, claim, store, publish]
  omega

theorem harvest (h : ring.Holds recorded) : ring.harvest.2.Holds recorded := by
  unfold Ring.harvest
  split
  · exact h
  · exact {
      reserved_eq := h.reserved_eq
      published_eq := h.published_eq
      read_le := Nat.le_of_eq h.published_eq
      latest := h.latest.of_slots _ rfl }

theorem read_harvest (h : ring.Holds recorded) : ring.harvest.2.read = recorded.length := by
  unfold Ring.harvest
  split
  · rename_i hread
    exact hread.symm.trans h.published_eq
  · exact h.published_eq

theorem pending_le (h : ring.Holds recorded) : ring.pending ≤ recorded.length - ring.read := by
  rw [pending, h.published_eq]
  exact Nat.min_le_left _ _

theorem read_eq_of_pending (h : ring.Holds recorded) (hpending : ring.pending = 0) :
    ring.read = recorded.length := by
  have hpositive : 0 < ring.capacity := ring.slots_nonempty
  have hle := h.read_le
  rw [pending, h.published_eq] at hpending
  omega

/-- Nothing that was claimed is still to be stored, so every copied word is intact. -/
theorem firstIntact_eq (h : ring.Holds recorded) :
    firstIntact ring.capacity ring.reserved
      (copyStart ring.capacity ring.read ring.published) ring.published =
        copyStart ring.capacity ring.read ring.published := by
  have hreserved := h.reserved_eq
  have hpublished := h.published_eq
  simp only [firstIntact, copyStart]
  omega

theorem length_copy (h : ring.Holds recorded) :
    copyStart ring.capacity ring.read ring.published +
      (ring.copy (copyStart ring.capacity ring.read ring.published) ring.published).length =
        ring.published := by
  have hle : ring.read ≤ ring.published := h.published_eq ▸ h.read_le
  have hstart := copyStart_le ring.capacity hle
  simp only [copy, List.length_map, List.length_range']
  omega

theorem length_harvest (h : ring.Holds recorded) :
    ring.harvest.1.events.length + ring.harvest.1.dropped = ring.unread := by
  unfold Ring.harvest
  split
  · rename_i hread
    simp [unread, hread]
  · have hfirst := h.firstIntact_eq
    have hlength := h.length_copy
    have hstart := le_copyStart ring.capacity ring.read ring.published
    simp only [harvestOfCopy, hfirst, Nat.sub_self, List.drop_zero, List.length_map, unread]
    omega

theorem getElem?_copy (h : ring.Holds recorded) {place : Nat} {word : UInt64}
    (hword : (ring.copy (copyStart ring.capacity ring.read ring.published)
      ring.published)[place]? = some word) :
    recorded[copyStart ring.capacity ring.read ring.published + place]?.map Decision.toWord =
      some word := by
  have hpublished := h.published_eq
  have hplace := (List.getElem?_eq_some_iff.mp hword).1
  have hlength := h.length_copy
  have hlap : ring.published - ring.capacity ≤
      copyStart ring.capacity ring.read ring.published := Nat.le_max_right ..
  have hrecorded : copyStart ring.capacity ring.read ring.published + place < recorded.length := by
    omega
  rw [List.getElem?_eq_getElem hrecorded, Option.map_some,
    ← h.latest _ _ (List.getElem?_eq_getElem hrecorded) (by omega)]
  simp only [copy, List.length_map, List.length_range'] at hplace
  simp only [copy, List.getElem?_map, List.getElem?_range' hplace, Option.map_some,
    Nat.one_mul] at hword
  exact hword

theorem harvest_fst (h : ring.Holds recorded) :
    ring.harvest.1 =
      { events := (recorded.drop (copyStart ring.capacity ring.read ring.published)).map
          Decision.kept
        dropped := copyStart ring.capacity ring.read ring.published - ring.read } := by
  have hpublished := h.published_eq
  unfold Ring.harvest
  split
  · rename_i hread
    have hstart : copyStart ring.capacity ring.read ring.published = ring.read := by
      simp only [copyStart]
      omega
    rw [hstart, ← hread, hpublished, List.drop_length, Nat.sub_self]
    rfl
  · have hfirst := h.firstIntact_eq
    have hevents := events_harvestOfCopy h.length_copy
      fun _ _ hword (_ : ring.reserved ≤ _) => h.getElem?_copy hword
    have htake : (recorded.drop (copyStart ring.capacity ring.read ring.published)).take
        (ring.published - copyStart ring.capacity ring.read ring.published) =
        recorded.drop (copyStart ring.capacity ring.read ring.published) := by
      apply List.take_of_length_le
      rw [List.length_drop, hpublished]
    simp only [hfirst, htake] at hevents
    rw [← hevents]
    simp only [harvestOfCopy, hfirst, Nat.sub_self, Nat.add_zero]

theorem events_harvest (h : ring.Holds recorded)
    (hfits : ∀ decision ∈ recorded, decision.time ≤ Decision.maxTime) :
    ring.harvest.1.events =
      recorded.drop (recorded.length - ring.harvest.1.events.length) := by
  have hkept (decision : Decision)
      (hmem : decision ∈ recorded.drop (copyStart ring.capacity ring.read ring.published)) :
      decision.kept = decision :=
    Decision.kept_of_le (hfits decision (List.mem_of_mem_drop hmem))
  have hevents : ring.harvest.1.events =
      recorded.drop (copyStart ring.capacity ring.read ring.published) := by
    rw [h.harvest_fst]
    exact (List.map_congr_left hkept).trans (List.map_id' _)
  have hstart := copyStart_le ring.capacity (h.published_eq ▸ h.read_le)
  rw [hevents, List.length_drop, ← h.published_eq, Nat.sub_sub_self hstart]

end Holds

end Ring

end Turnstile

import Mathlib.Data.List.DropRight
import Turnstile.Proofs.Ring.Harvest

/-!
A ring used by one caller at a time stands for a plain list: the decisions that
no harvest has accounted for, without slots, laps or cursors.
-/

namespace Turnstile

structure Backlog where
  unread : List Decision := []
  recorded : Nat := 0
  lost : Nat := 0
  deriving DecidableEq, Repr

namespace Backlog

def record (backlog : Backlog) (decision : Decision) : Backlog :=
  { backlog with
    unread := backlog.unread ++ [decision]
    recorded := backlog.recorded + 1 }

def harvest (capacity : Nat) (backlog : Backlog) : Harvest × Backlog :=
  let kept := min backlog.unread.length capacity
  let dropped := backlog.unread.length - kept
  ({ events := (backlog.unread.rtake kept).map Decision.kept, dropped },
    { backlog with unread := [], lost := backlog.lost + dropped })

def pending (capacity : Nat) (backlog : Backlog) : Nat := min backlog.unread.length capacity

end Backlog

namespace Ring

inductive Call
  | record (decision : Decision)
  | harvest
  deriving DecidableEq, Repr

structure Showing where
  returned? : Option (Harvest × Bool)
  pending : Nat
  recorded : Nat
  lost : Nat
  deriving DecidableEq, Repr

def perform (ring : Ring) : Call → Option (Harvest × Bool) × Ring
  | .record decision => (none, ring.record decision)
  | .harvest => (some (ring.harvest.1, ring.harvest.1.isEmpty), ring.harvest.2)

def showings (ring : Ring) : List Call → List Showing
  | [] => []
  | call :: rest =>
      let (returned?, next) := ring.perform call
      ⟨returned?, next.pending, next.recorded, next.lost⟩ :: next.showings rest

end Ring

namespace Backlog

def perform (capacity : Nat) (backlog : Backlog) :
    Ring.Call → Option (Harvest × Bool) × Backlog
  | .record decision => (none, backlog.record decision)
  | .harvest =>
      (some ((backlog.harvest capacity).1, backlog.unread.isEmpty), (backlog.harvest capacity).2)

def showings (capacity : Nat) (backlog : Backlog) : List Ring.Call → List Ring.Showing
  | [] => []
  | call :: rest =>
      let (returned?, next) := backlog.perform capacity call
      ⟨returned?, next.pending capacity, next.recorded, next.lost⟩ :: next.showings capacity rest

end Backlog

namespace Ring

def Awaits (ring : Ring) (unread : List Decision) : Prop :=
  ∃ recorded, ring.Holds recorded ∧ recorded.drop ring.read = unread

namespace Awaits

variable {ring : Ring} {unread : List Decision}

theorem start (capacity : Nat) (hpositive : 0 < capacity) :
    (ofCapacity capacity hpositive).Awaits [] :=
  ⟨[], .start capacity hpositive, rfl⟩

theorem record (h : ring.Awaits unread) (decision : Decision) :
    (ring.record decision).Awaits (unread ++ [decision]) := by
  obtain ⟨recorded, hholds, rfl⟩ := h
  exact ⟨recorded ++ [decision], hholds.record decision,
    List.drop_append_of_le_length hholds.read_le⟩

theorem harvest (h : ring.Awaits unread) : ring.harvest.2.Awaits [] := by
  obtain ⟨recorded, hholds, -⟩ := h
  refine ⟨recorded, hholds.harvest, ?_⟩
  rw [hholds.read_harvest, List.drop_length]

theorem length_eq (h : ring.Awaits unread) : unread.length = ring.unread := by
  obtain ⟨recorded, hholds, rfl⟩ := h
  rw [List.length_drop, Ring.unread, hholds.published_eq]

theorem pending_eq (h : ring.Awaits unread) :
    ring.pending = min unread.length ring.capacity := by
  rw [h.length_eq]
  rfl

theorem eq_nil_of_pending (h : ring.Awaits unread) (hpending : ring.pending = 0) :
    unread = [] := by
  have hpositive : 0 < ring.capacity := ring.slots_nonempty
  rw [h.pending_eq] at hpending
  exact List.eq_nil_of_length_eq_zero (by omega)

theorem harvest_fst (h : ring.Awaits unread) :
    ring.harvest.1 =
      { events := (unread.rtake ring.capacity).map Decision.kept
        dropped := unread.length - ring.capacity } := by
  obtain ⟨recorded, hholds, rfl⟩ := h
  have hle := hholds.read_le
  have hstart : copyStart ring.capacity ring.read ring.published =
      ring.read + (recorded.length - ring.read - ring.capacity) := by
    simp only [copyStart, hholds.published_eq]
    omega
  rw [hholds.harvest_fst, hstart, Nat.add_sub_cancel_left, List.rtake, List.drop_drop,
    List.length_drop]

theorem isEmpty_harvest (h : ring.Awaits unread) :
    ring.harvest.1.isEmpty = unread.isEmpty := by
  have hpositive : 0 < ring.capacity := ring.slots_nonempty
  rw [h.harvest_fst]
  cases unread with
  | nil => simp [Harvest.isEmpty]
  | cons decision rest =>
      have hsome : ((decision :: rest).rtake ring.capacity).length ≠ 0 := by
        simp only [List.rtake, List.length_drop, List.length_cons]
        omega
      have hne : (decision :: rest).rtake ring.capacity ≠ [] :=
        fun hnil => hsome (congrArg List.length hnil)
      simp [Harvest.isEmpty, hne]

end Awaits

theorem lost_harvest (ring : Ring) :
    ring.harvest.2.lost = ring.lost + ring.harvest.1.dropped := by
  unfold harvest
  split <;> rfl

theorem recorded_harvest (ring : Ring) : ring.harvest.2.recorded = ring.recorded := by
  unfold harvest
  split <;> rfl

structure StandsFor (ring : Ring) (backlog : Backlog) : Prop where
  awaits : ring.Awaits backlog.unread
  recorded_eq : ring.recorded = backlog.recorded
  lost_eq : ring.lost = backlog.lost

namespace StandsFor

variable {ring : Ring} {backlog : Backlog}

theorem start (capacity : Nat) (hpositive : 0 < capacity) :
    (ofCapacity capacity hpositive).StandsFor {} where
  awaits := .start capacity hpositive
  recorded_eq := rfl
  lost_eq := rfl

theorem record (h : ring.StandsFor backlog) (decision : Decision) :
    (ring.record decision).StandsFor (backlog.record decision) where
  awaits := h.awaits.record decision
  recorded_eq := by
    obtain ⟨recorded, hholds, -⟩ := h.awaits
    have hreserved : ring.reserved = ring.published :=
      hholds.reserved_eq.trans hholds.published_eq.symm
    have hpublished : (ring.record decision).published = ring.published + 1 :=
      congrArg (· + 1) hreserved
    rw [Ring.recorded, hpublished]
    exact congrArg (· + 1) h.recorded_eq
  lost_eq := h.lost_eq

theorem harvest_fst (h : ring.StandsFor backlog) :
    ring.harvest.1 = (backlog.harvest ring.capacity).1 := by
  have hkept : backlog.unread.rtake (min backlog.unread.length ring.capacity) =
      backlog.unread.rtake ring.capacity := by
    simp only [List.rtake]
    congr 1
    omega
  rw [h.awaits.harvest_fst, Backlog.harvest]
  congr 1
  · rw [hkept]
  · omega

theorem harvest (h : ring.StandsFor backlog) :
    ring.harvest.2.StandsFor (backlog.harvest ring.capacity).2 where
  awaits := h.awaits.harvest
  recorded_eq := ring.recorded_harvest.trans h.recorded_eq
  lost_eq := by
    rw [ring.lost_harvest, h.lost_eq, h.harvest_fst]
    rfl

theorem showings_eq (h : ring.StandsFor backlog) (calls : List Call) :
    ring.showings calls = backlog.showings ring.capacity calls := by
  induction calls generalizing ring backlog with
  | nil => rfl
  | cons call rest ih =>
      cases call with
      | record decision =>
          have hnext := h.record decision
          have hrest := ih hnext
          simp only [showings, Backlog.showings, perform, Backlog.perform, hrest,
            hnext.awaits.pending_eq, hnext.recorded_eq, hnext.lost_eq, capacity_record,
            Backlog.pending]
      | harvest =>
          have hnext := h.harvest
          have hrest := ih hnext
          simp only [showings, Backlog.showings, perform, Backlog.perform, hrest,
            hnext.awaits.pending_eq, hnext.recorded_eq, hnext.lost_eq, capacity_harvest,
            Backlog.pending, h.harvest_fst, ← h.awaits.isEmpty_harvest]

end StandsFor

/-- Whatever is recorded and harvested in whatever order, a ring shows what a
plain list would show. Decisions come back as they were made; of a time that was
never made fit for a word only the top bit is lost. -/
theorem showings_eq_backlog (capacity : Nat) (hpositive : 0 < capacity) (calls : List Call) :
    (ofCapacity capacity hpositive).showings calls = Backlog.showings capacity {} calls ∧
      (∀ reading allowed, (Decision.made reading allowed).kept = .made reading allowed) ∧
      ∀ decision : Decision, decision.kept = ⟨decision.time % 2 ^ 63, decision.allowed⟩ := by
  have hshowings := (StandsFor.start capacity hpositive).showings_eq calls
  rw [capacity_ofCapacity] at hshowings
  exact ⟨hshowings, Decision.ofWord_toWord_made, Decision.kept_eq⟩

def lappedCalls : List Call :=
  [.record (.made 1 true), .record ⟨2 ^ 63 + 5, false⟩, .record (.made maxNanos true),
    .harvest, .harvest]

theorem showings_eq_backlog_lappedCalls :
    0 < 2 ∧ (ofCapacity 2 (by decide)).showings lappedCalls =
      [⟨none, 1, 1, 0⟩, ⟨none, 2, 2, 0⟩, ⟨none, 2, 3, 0⟩,
        ⟨some (⟨[⟨5, false⟩, ⟨2 ^ 63 - 1, true⟩], 1⟩, false), 0, 3, 1⟩,
        ⟨some ({}, true), 0, 3, 1⟩] :=
  ⟨by decide, (showings_eq_backlog 2 (by decide) lappedCalls).1.trans (by decide)⟩

end Ring

end Turnstile

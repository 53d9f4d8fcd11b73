import Turnstile.Lists
import Turnstile.Proofs.Ring.Interleaving
import Turnstile.Ring.Checked

/-!
Why no thread comes upon a fault at a ring. The cursors stay in order whatever interleaves with
what: nothing is read that was not published, nothing is published that was not claimed, and at
most one claim is still to be published. What a harvest has loaded of them stays within bounds
until it is done, though writers have moved two of the three since.
-/

namespace Turnstile

def Harvest.total (harvest : Harvest) : Nat := harvest.events.length + harvest.dropped

namespace Ring

structure InOrder (ring : Ring) : Prop where
  read_le : ring.read ≤ ring.published
  published_le : ring.published ≤ ring.reserved
  reserved_le : ring.reserved ≤ ring.published + 1

def Drainer.WithinBounds (capacity : Nat) : Drainer → Prop
  | .copying read published words =>
      read ≤ copyStart capacity read published ∧
        copyStart capacity read published + words.length ≤ published
  | .checked read published reserved words =>
      read ≤ copyStart capacity read published ∧
        copyStart capacity read published ≤ published ∧
        copyStart capacity read published ≤
          firstIntact capacity reserved (copyStart capacity read published) published ∧
        firstIntact capacity reserved (copyStart capacity read published) published -
          copyStart capacity read published ≤ words.length
  | .idle | .entered | .loadedRead _ | .counted .. => True

def Writer.toClaim : Writer → Nat
  | .entered _ | .loaded .. => 1
  | .idle | .claimed .. | .stored _ => 0

def System.Move.isRecord : System.Move → Bool
  | .record _ => true
  | .write | .harvest | .drain => false

namespace System

variable {capacity : Nat} {system : System} {log : List Event}

theorem Consistent.inOrder (h : Consistent capacity system log) : system.ring.InOrder := by
  obtain ⟨hpublished, hreserved, hlast⟩ := h.writer.bounds
  exact ⟨h.read_le, Nat.le_trans hpublished hreserved, hlast⟩

theorem Consistent.withinBounds (h : Consistent capacity system log) :
    system.drainer.WithinBounds capacity := by
  have hdrainer := h.drainer
  rw [← h.capacity_eq]
  cases hphase : system.drainer with
  | idle => trivial
  | entered => trivial
  | loadedRead read => trivial
  | copying read published words =>
      rw [hphase] at hdrainer
      have hcopied : Copied system.ring log read published system.ring.reserved words := hdrainer
      exact ⟨le_copyStart .., hcopied.length_le⟩
  | checked read published reserved words =>
      rw [hphase] at hdrainer
      obtain ⟨hcopied, hlength, -, -⟩ := hdrainer
      have hstart := copyStart_le system.ring.capacity (Nat.le_of_lt hcopied.read_lt)
      have hfirst := firstIntact_le system.ring.capacity reserved hstart
      exact ⟨le_copyStart .., hstart, le_firstIntact .., by omega⟩
  | counted published harvest => trivial

theorem Consistent.attemptWrite?_eq (h : Consistent capacity system log)
    (hfits : system.ring.reserved + 1 < UInt64.size) :
    system.attemptWrite? = system.write?.map .ok := by
  have hwriter := h.writer
  cases hphase : system.writer with
  | idle => simp only [attemptWrite?, write?, hphase, Option.map_none]
  | entered decision => simp only [attemptWrite?, write?, hphase, Option.map_some]
  | loaded decision index =>
      rw [hphase] at hwriter
      obtain ⟨hindex, hreserved, -⟩ := hwriter
      have hclaim : system.ring.claim? index = _ := claim?_eq _ (by omega)
      simp only [attemptWrite?, write?, hphase, hclaim, Option.map_some]
      rfl
  | claimed decision index =>
      simp only [attemptWrite?, write?, hphase, store?_eq, Option.map_some]
      rfl
  | stored index =>
      rw [hphase] at hwriter
      obtain ⟨hindex, hreserved, -⟩ := hwriter
      have hpublish : system.ring.publish? index = _ := publish?_eq _ (by omega)
      simp only [attemptWrite?, write?, hphase, hpublish, Option.map_some]
      rfl

theorem Consistent.attemptDrain?_eq (h : Consistent capacity system log)
    (hfits : system.ring.reserved + 1 < UInt64.size) :
    system.attemptDrain? = system.drain?.map .ok := by
  have hdrainer := h.drainer
  have hbounds := h.withinBounds
  have hpublished := h.inOrder.published_le
  cases hphase : system.drainer with
  | idle => simp only [attemptDrain?, hphase]
  | entered => simp only [attemptDrain?, hphase]
  | loadedRead read => simp only [attemptDrain?, hphase]
  | copying read published words =>
      simp only [attemptDrain?, drain?, hphase, load?_eq]
      split <;> rfl
  | checked read published reserved words =>
      rw [hphase] at hdrainer hbounds
      obtain ⟨hcopied, -, -, -⟩ := hdrainer
      have hle := hcopied.published_le
      obtain ⟨hread, hstart, -, hwords⟩ := hbounds
      rw [← h.capacity_eq] at hread hstart hwords
      have hharvest := harvestOfCopy?_eq hread hstart hwords (by omega)
      simp only [attemptDrain?, drain?, hphase, hharvest, Option.map_some]
      rfl
  | counted published harvest => simp only [attemptDrain?, hphase]

variable {hpositive : 0 < capacity}

theorem consistent_of_reachable (h : Reachable (start capacity hpositive) system) :
    ∃ log, Consistent capacity system log := by
  obtain ⟨moves, hrun⟩ := h
  exact ⟨_, consistent_of_run hrun⟩

theorem attempt?_eq (h : Reachable (start capacity hpositive) system)
    (hfits : system.ring.reserved + 1 < UInt64.size) (move : Move) :
    system.attempt? move = (step? system move).map .ok := by
  obtain ⟨log, hconsistent⟩ := consistent_of_reachable h
  cases move with
  | record decision => rfl
  | write => exact hconsistent.attemptWrite?_eq hfits
  | harvest => rfl
  | drain => exact hconsistent.attemptDrain?_eq hfits

/-- The claims that have been made, with the one that the thread in the writers' lock is still
to make: one for each thread that has taken the lock. -/
def claims (system : System) : Nat := system.ring.reserved + system.writer.toClaim

theorem Consistent.claims_write {after : System} (h : Consistent capacity system log)
    (hstep : system.write? = some after) : after.claims = system.claims := by
  have hwriter := h.writer
  simp only [write?] at hstep
  cases hphase : system.writer with
  | idle =>
      rw [hphase] at hstep
      cases hstep
  | entered decision =>
      rw [hphase] at hstep
      cases hstep
      simp only [claims, hphase, Writer.toClaim]
  | loaded decision index =>
      rw [hphase] at hstep hwriter
      cases hstep
      obtain ⟨hindex, hreserved, -⟩ := hwriter
      simp only [claims, hphase, Writer.toClaim, claim]
      omega
  | claimed decision index =>
      rw [hphase] at hstep
      cases hstep
      simp only [claims, hphase, Writer.toClaim, store]
  | stored index =>
      rw [hphase] at hstep
      cases hstep
      simp only [claims, hphase, Writer.toClaim, publish]

theorem claims_drain {after : System} (hstep : system.drain? = some after) :
    after.claims = system.claims := by
  simp only [drain?] at hstep
  split at hstep
  · cases hstep
  · cases hstep
    rfl
  · split at hstep <;> cases hstep <;> rfl
  · split at hstep <;> cases hstep <;> rfl
  · cases hstep
    rfl
  · cases hstep
    rfl

theorem claims_step {move : Move} {after : System}
    (h : Reachable (start capacity hpositive) system) (hstep : step? system move = some after) :
    after.claims = system.claims + move.isRecord.toNat := by
  obtain ⟨log, hconsistent⟩ := consistent_of_reachable h
  cases move with
  | record decision =>
      simp only [step?] at hstep
      split at hstep
      · rename_i hidle
        cases hstep
        simp only [claims, hidle, Writer.toClaim, Move.isRecord, Bool.toNat_true]
      · cases hstep
  | write => exact hconsistent.claims_write hstep
  | harvest =>
      simp only [step?] at hstep
      split at hstep <;> cases hstep
      rfl
  | drain => exact claims_drain hstep

/-! What harvests have taken. -/

theorem exists_harvests_step {move : Move} {after : System}
    (hstep : step? system move = some after) :
    ∃ added, after.harvests = system.harvests ++ added ∧
      (move = .drain → after.drainer = .idle → ∃ harvest, added = [harvest]) := by
  have hnone : system.harvests = system.harvests ++ [] := (List.append_nil _).symm
  cases move with
  | record decision =>
      simp only [step?] at hstep
      split at hstep <;> cases hstep
      exact ⟨[], hnone, fun hmove => by cases hmove⟩
  | harvest =>
      simp only [step?] at hstep
      split at hstep <;> cases hstep
      exact ⟨[], hnone, fun hmove => by cases hmove⟩
  | write =>
      simp only [step?, write?] at hstep
      split at hstep <;> cases hstep <;> exact ⟨[], hnone, fun hmove => by cases hmove⟩
  | drain =>
      simp only [step?, drain?] at hstep
      split at hstep
      · cases hstep
      · cases hstep
        exact ⟨[], hnone, fun _ hidle => by cases hidle⟩
      · split at hstep <;> cases hstep
        · exact ⟨[{}], rfl, fun _ _ => ⟨{}, rfl⟩⟩
        · exact ⟨[], hnone, fun _ hidle => by cases hidle⟩
      · split at hstep <;> cases hstep <;> exact ⟨[], hnone, fun _ hidle => by cases hidle⟩
      · cases hstep
        exact ⟨[], hnone, fun _ hidle => by cases hidle⟩
      · cases hstep
        exact ⟨[_], rfl, fun _ _ => ⟨_, rfl⟩⟩

theorem read_eq (h : Reachable (start capacity hpositive) system) :
    system.ring.read = sumOf Harvest.total system.harvests := by
  obtain ⟨log, hconsistent⟩ := consistent_of_reachable h
  rw [hconsistent.read_eq, accounted, hconsistent.returns_eq]
  induction system.harvests with
  | nil => rfl
  | cons harvest rest ih => rw [List.map_cons, List.sum_cons, ih, sumOf_cons, Harvest.total]

theorem read_le_of_step {move : Move} {after : System}
    (h : Reachable (start capacity hpositive) system) (hstep : step? system move = some after) :
    system.ring.read ≤ after.ring.read := by
  obtain ⟨added, hadded, -⟩ := exists_harvests_step hstep
  rw [read_eq h, read_eq (h.step hstep), hadded, sumOf_append]
  exact Nat.le_add_right ..

theorem read_of_drain {after : System} (h : Reachable (start capacity hpositive) system)
    (hstep : step? system .drain = some after) (hidle : after.drainer = .idle) :
    after.ring.read = system.ring.read + (after.harvests.getLastD {}).total := by
  obtain ⟨added, hadded, hlast⟩ := exists_harvests_step hstep
  obtain ⟨harvest, rfl⟩ := hlast rfl hidle
  rw [read_eq h, read_eq (h.step hstep), hadded, sumOf_append, List.getLastD_concat]
  rfl

end System

end Ring

end Turnstile

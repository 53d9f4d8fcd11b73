import Turnstile.Lists
import Turnstile.Proofs.Ring.Checked
import Turnstile.Proofs.Site.Machine

/-!
Who holds the locks of the rings. A lock that is taken is held by exactly one thread, whose next
step is one at the ring, and no thread holds a lock that is not taken.
-/

namespace Turnstile.Site

def Holders.isHeld (holders : Holders) : Side → Bool
  | .writers => holders.writer != .idle
  | .harvesters => holders.drainer != .idle

theorem Holders.isHeld_of_ne {before after : Ring.System} {move : Ring.System.Move} {side : Side}
    (hstep : Ring.System.step? before move = some after) (hside : side ≠ sideOf move) :
    (ofSystem after).isHeld side = (ofSystem before).isHeld side := by
  cases move with
  | record decision =>
      simp only [Ring.System.step?] at hstep
      split at hstep <;> cases hstep
      cases side with
      | writers => exact absurd rfl hside
      | harvesters => rfl
  | harvest =>
      simp only [Ring.System.step?] at hstep
      split at hstep <;> cases hstep
      cases side with
      | writers => rfl
      | harvesters => exact absurd rfl hside
  | write =>
      simp only [Ring.System.step?, Ring.System.write?] at hstep
      cases side with
      | writers => exact absurd rfl hside
      | harvesters => split at hstep <;> cases hstep <;> rfl
  | drain =>
      simp only [Ring.System.step?, Ring.System.drain?] at hstep
      cases side with
      | writers =>
          split at hstep <;> try split at hstep
          all_goals cases hstep
          all_goals rfl
      | harvesters => exact absurd rfl hside

namespace Task

/-- A thread whose next step is one at a ring, before it takes the lock or while it holds it. -/
inductive AtRing : Task → String → Ring.System.Move → Prop
  | record {client : String} (reading : Nat) (allowed : Bool) :
      AtRing (.free (.recording client reading allowed)) client (.record (.made reading allowed))
  | write {client : String} (reading : Nat) (allowed : Bool) :
      AtRing (.writing client reading allowed) client .write
  | harvest {client : String} (clients : List String) (report : FlushReport) :
      AtRing (.free (.visiting (client :: clients) report)) client .harvest
  | drain {client : String} (clients : List String) (report : FlushReport) :
      AtRing (.draining client clients report) client .drain

/-- Where a step at a ring can lead: to the next step inside the lock, or out of it. -/
inductive Becomes (arithmetic : Arithmetic) : Task → Task → Prop
  | writing (client : String) (reading : Nat) (allowed : Bool) :
      Becomes arithmetic (.free (.recording client reading allowed))
        (.writing client reading allowed)
  | written (client : String) (reading : Nat) (allowed : Bool) :
      Becomes arithmetic (.writing client reading allowed)
        (.free (.counting client reading allowed))
  | draining (client : String) (clients : List String) (report : FlushReport) :
      Becomes arithmetic (.free (.visiting (client :: clients) report))
        (.draining client clients report)
  | passedOver (client : String) (clients : List String) (report : FlushReport) :
      Becomes arithmetic (.draining client clients report) (.free (.visiting clients report))
  | drained (client : String) (clients : List String) (report : FlushReport)
      (harvest : Harvest) {task : Task}
      (hsettles : Call.Settles arithmetic
        (.offering client harvest.dropped harvest.events {} clients report) task) :
      Becomes arithmetic (.draining client clients report) task
  | stillWriting (client : String) (reading : Nat) (allowed : Bool) :
      Becomes arithmetic (.writing client reading allowed) (.writing client reading allowed)
  | stillDraining (client : String) (clients : List String) (report : FlushReport) :
      Becomes arithmetic (.draining client clients report) (.draining client clients report)

def lock? : Task → Option (String × Side)
  | .writing client _ _ => some (client, .writers)
  | .draining client _ _ => some (client, .harvesters)
  | .free _ | .halted _ => none

def holds (client : String) (side : Side) (task : Task) : Bool := task.lock? = some (client, side)

/-- The client of a request that has not yet begun to record its decision. -/
def toRecord? : Task → Option String
  | .free (.finding client) | .free (.entering client) | .free (.judging client)
  | .free (.recording client _ _) => some client
  | .free _ | .writing .. | .draining .. | .halted _ => none

def isToRecord (client : String) (task : Task) : Bool := task.toRecord? = some client

/-- The clients that a thread takes to be known. -/
def clients : Task → List String
  | .free (.judging client) | .free (.recording client _ _) | .writing client _ _ => [client]
  | .free (.visiting clients _) | .free (.offering _ _ _ _ clients _) => clients
  | .draining client clients _ => client :: clients
  | .free _ | .halted _ => []

section

variable {task : Task} {client name : String} {move : Ring.System.Move} {side : Side}
  {before after : Ring.System} {arithmetic : Arithmetic}

theorem atRing_of_ringMove? (h : task.ringMove? = some (client, move)) :
    task.AtRing client move := by
  cases task with
  | free call =>
      cases call with
      | recording other reading allowed =>
          cases h
          exact .record reading allowed
      | visiting others report =>
          cases others with
          | nil => cases h
          | cons other others =>
              cases h
              exact .harvest others report
      | _ => cases h
  | writing other reading allowed =>
      cases h
      exact .write reading allowed
  | draining other others report =>
      cases h
      exact .drain others report
  | halted fault => cases h

theorem AtRing.ringMove?_eq (h : task.AtRing client move) :
    task.ringMove? = some (client, move) := by
  cases h <;> rfl

theorem becomes_harvested (arithmetic : Arithmetic) (client : String) (clients : List String)
    (report : FlushReport) (harvest : Harvest) :
    Becomes arithmetic (.draining client clients report)
      (harvested arithmetic client clients report harvest) := by
  unfold harvested
  split
  · exact .passedOver client clients report
  · exact .drained client clients report harvest (.offering ..)

theorem AtRing.becomes (h : task.AtRing client move) (arithmetic : Arithmetic)
    (after : Ring.System) : task.Becomes arithmetic (task.next arithmetic after) := by
  cases h with
  | record reading allowed => exact .writing client reading allowed
  | harvest clients report => exact .draining client clients report
  | write reading allowed =>
      simp only [next]
      split
      · exact .written client reading allowed
      · exact .stillWriting client reading allowed
  | drain clients report =>
      simp only [next]
      split
      · exact becomes_harvested ..
      · exact .stillDraining client clients report

/-- A thread that can move at a ring holds the lock if anyone does. -/
theorem AtRing.lock?_eq (h : task.AtRing client move)
    (hstep : Ring.System.step? before move = some after) :
    task.lock? =
      if (Holders.ofSystem before).isHeld (sideOf move) then some (client, sideOf move)
      else none := by
  cases h with
  | record reading allowed =>
      simp only [Ring.System.step?] at hstep
      split at hstep
      · rename_i hidle
        simp [Holders.isHeld, Holders.ofSystem, sideOf, hidle, lock?]
      · cases hstep
  | harvest clients report =>
      simp only [Ring.System.step?] at hstep
      split at hstep
      · rename_i hidle
        simp [Holders.isHeld, Holders.ofSystem, sideOf, hidle, lock?]
      · cases hstep
  | write reading allowed =>
      have hbusy : before.writer ≠ .idle := by
        intro hidle
        simp [Ring.System.step?, Ring.System.write?, hidle] at hstep
      simp [Holders.isHeld, Holders.ofSystem, sideOf, hbusy, lock?]
  | drain clients report =>
      have hbusy : before.drainer ≠ .idle := by
        intro hidle
        simp [Ring.System.step?, Ring.System.drain?, hidle] at hstep
      simp [Holders.isHeld, Holders.ofSystem, sideOf, hbusy, lock?]

theorem lock?_settles {next : Call} (h : Call.Settles arithmetic next task) :
    task.lock? = none := by
  cases h <;> rfl

theorem lock?_harvested (client : String) (clients : List String) (report : FlushReport)
    (harvest : Harvest) : (harvested arithmetic client clients report harvest).lock? = none := by
  unfold harvested
  split
  · rfl
  · exact lock?_settles (.offering ..)

theorem AtRing.lock?_next (h : task.AtRing client move) (arithmetic : Arithmetic)
    (hstep : Ring.System.step? before move = some after) :
    (task.next arithmetic after).lock? =
      if (Holders.ofSystem after).isHeld (sideOf move) then some (client, sideOf move)
      else none := by
  cases h with
  | record reading allowed =>
      simp only [Ring.System.step?] at hstep
      split at hstep <;> cases hstep
      rfl
  | harvest clients report =>
      simp only [Ring.System.step?] at hstep
      split at hstep <;> cases hstep
      rfl
  | write reading allowed =>
      rcases Decidable.em (after.writer = .idle) with hidle | hbusy
      · simp [next, Holders.isHeld, Holders.ofSystem, sideOf, hidle, lock?]
      · simp [next, Holders.isHeld, Holders.ofSystem, sideOf, hbusy, lock?]
  | drain clients report =>
      rcases Decidable.em (after.drainer = .idle) with hidle | hbusy
      · simp [next, Holders.isHeld, Holders.ofSystem, sideOf, hidle, lock?_harvested]
      · simp [next, Holders.isHeld, Holders.ofSystem, sideOf, hbusy, lock?]

theorem AtRing.holds_eq (h : task.AtRing client move)
    (hstep : Ring.System.step? before move = some after) :
    task.holds client (sideOf move) = (Holders.ofSystem before).isHeld (sideOf move) := by
  simp only [holds, h.lock?_eq hstep]
  cases (Holders.ofSystem before).isHeld (sideOf move) <;> simp

theorem AtRing.holds_next (h : task.AtRing client move) (arithmetic : Arithmetic)
    (hstep : Ring.System.step? before move = some after) :
    (task.next arithmetic after).holds client (sideOf move) =
      (Holders.ofSystem after).isHeld (sideOf move) := by
  simp only [holds, h.lock?_next arithmetic hstep]
  cases (Holders.ofSystem after).isHeld (sideOf move) <;> simp

theorem AtRing.holds_of_ne (h : task.AtRing client move) (arithmetic : Arithmetic)
    (hstep : Ring.System.step? before move = some after)
    (hne : (name, side) ≠ (client, sideOf move)) :
    task.holds name side = false ∧ (task.next arithmetic after).holds name side = false := by
  have hother : ∀ held : Bool,
      (if held then some (client, sideOf move) else none) ≠ some (name, side) := by
    intro held
    cases held with
    | false => exact nofun
    | true => exact fun hsame => hne (Option.some.inj hsame).symm
  simp only [holds, h.lock?_eq hstep, h.lock?_next arithmetic hstep]
  exact ⟨decide_eq_false (hother _), decide_eq_false (hother _)⟩

theorem AtRing.isToRecord_eq (h : task.AtRing client move) (name : String) :
    (task.isToRecord name).toNat = if name = client then move.isRecord.toNat else 0 := by
  cases h with
  | record reading allowed =>
      rcases Decidable.em (name = client) with rfl | hne
      · simp [isToRecord, toRecord?, Ring.System.Move.isRecord]
      · simp [isToRecord, toRecord?, hne, Ne.symm hne]
  | write reading allowed => exact (ite_self 0).symm
  | harvest clients report => exact (ite_self 0).symm
  | drain clients report => exact (ite_self 0).symm

theorem Becomes.isToRecord_eq {later : Task} (h : task.Becomes arithmetic later)
    (name : String) : later.isToRecord name = false := by
  cases h with
  | drained client clients report harvest hsettles => cases hsettles <;> rfl
  | _ => rfl

theorem AtRing.mem_clients (h : task.AtRing client move) : client ∈ task.clients := by
  cases h <;> exact List.mem_cons_self

theorem Becomes.clients_subset {later : Task} (h : task.Becomes arithmetic later) :
    later.clients ⊆ task.clients := by
  cases h with
  | writing client reading allowed => exact List.Subset.refl _
  | written client reading allowed => exact List.nil_subset _
  | draining client clients report => exact List.Subset.refl _
  | passedOver client clients report => exact List.subset_cons_self ..
  | drained client clients report harvest hsettles =>
      cases hsettles with
      | same => exact List.subset_cons_self ..
      | overflow => exact List.nil_subset _
  | stillWriting client reading allowed => exact List.Subset.refl _
  | stillDraining client clients report => exact List.Subset.refl _

end

end Task

namespace Machine

/-- Each lock is held by one thread if it is taken, else by none. -/
def Locked (machine : Machine σ) : Prop :=
  ∀ client side, machine.tasks.countP (Task.holds client side) =
    ((machine.holders client).isHeld side).toNat

variable {machine : Machine σ} {index : Nat} {task : Task} {client : String}
  {move : Ring.System.Move} {before after : Ring.System} {call : Call}

theorem Locked.concat (h : machine.Locked) (call : Call) :
    Locked { machine with tasks := machine.tasks ++ [.free call] } := by
  intro client side
  rw [List.countP_append]
  exact h client side

theorem Locked.part (h : machine.Locked) (htask : machine.tasks[index]? = some (.free call))
    {arithmetic : Arithmetic} {next : Call} (hsettles : Call.Settles arithmetic next task)
    (site : Site σ) : Locked (machine.goOn index site task) := by
  intro client side
  have hcount := countP_set (Task.holds client side) task htask
  have hnone : task.holds client side = false := by
    rw [Task.holds, Task.lock?_settles hsettles]
    rfl
  rw [hnone] at hcount
  exact (Nat.add_right_cancel hcount).trans (h client side)

theorem Locked.ring (h : machine.Locked) (htask : machine.tasks[index]? = some task)
    (hring : task.AtRing client move) (hsystem : machine.ringSystem? client = some before)
    (hstep : Ring.System.step? before move = some after) :
    Locked ((machine.setRing client after).setTask index (task.next machine.arithmetic after)) := by
  intro name side
  have hcount := countP_set (Task.holds name side) (task.next machine.arithmetic after) htask
  have hlocked := h name side
  have hholders : ((machine.setRing client after).setTask index
      (task.next machine.arithmetic after)).holders name =
        if name = client then .ofSystem after else machine.holders name :=
    holders_setRing after name
  rw [hholders]
  simp only [setTask, setRing]
  rcases Decidable.em ((name, side) = (client, sideOf move)) with hsame | hne
  · cases hsame
    rw [holders_of_ringSystem? hsystem, ← hring.holds_eq hstep] at hlocked
    rw [if_pos rfl, ← hring.holds_next machine.arithmetic hstep]
    omega
  · obtain ⟨hold, hnew⟩ := hring.holds_of_ne machine.arithmetic hstep hne
    have hframe : (if name = client then Holders.ofSystem after else machine.holders name).isHeld
        side = (machine.holders name).isHeld side := by
      split
      · rename_i hname
        subst hname
        have hside : side ≠ sideOf move := fun hside => hne (by rw [hside])
        rw [holders_of_ringSystem? hsystem]
        exact Holders.isHeld_of_ne hstep hside
      · rfl
    rw [hframe, ← hlocked]
    rw [hold, hnew] at hcount
    exact hcount

theorem Locked.exists_holder (h : machine.Locked) {side : Side}
    (hheld : (machine.holders client).isHeld side = true) :
    ∃ (index : Nat) (holder : Task), machine.tasks[index]? = some holder ∧
      holder.lock? = some (client, side) := by
  have hcount := h client side
  rw [hheld] at hcount
  have hsome : 0 < machine.tasks.countP (Task.holds client side) := by
    rw [hcount]
    exact Nat.one_pos
  obtain ⟨task, hmem, hholds⟩ := List.countP_pos_iff.mp hsome
  obtain ⟨index, hindex⟩ := List.getElem?_of_mem hmem
  exact ⟨index, task, hindex, of_decide_eq_true hholds⟩

theorem Locked.isHeld (h : machine.Locked) {side : Side}
    (htask : machine.tasks[index]? = some task) (hlock : task.lock? = some (client, side)) :
    (machine.holders client).isHeld side = true := by
  have hcount := h client side
  have hsome : 0 < machine.tasks.countP (Task.holds client side) :=
    List.countP_pos_iff.mpr ⟨task, List.mem_of_getElem? htask, decide_eq_true hlock⟩
  rw [hcount] at hsome
  exact (Bool.toNat_eq_one ..).mp (by
    have hle := ((machine.holders client).isHeld side).toNat_le
    omega)

end Machine

end Turnstile.Site

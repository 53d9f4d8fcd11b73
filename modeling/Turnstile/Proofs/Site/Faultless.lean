import Turnstile.Proofs.Site.Overflows

/-!
No request and no flush comes upon a fault, whatever loads and stores of others come between its
own and whatever the sink replies, be it with a panic: not where totals wrap around, and where they
are checked not before there have been as many requests as words can count. A call that is not over
can go on, or waits for a lock whose holder can.
-/

namespace Turnstile.Site

namespace Task

def isOver : Task → Bool
  | .free call => call.isFinished
  | .writing .. | .draining .. | .halted _ => false

section

variable {task : Task} {client other : String} {move : Ring.System.Move} {side : Side}

theorem AtRing.exists_step (h : task.AtRing client move) {system : Ring.System}
    (hheld : (Holders.ofSystem system).isHeld (sideOf move) = task.lock?.isSome) :
    ∃ next, Ring.System.step? system move = some next := by
  cases h with
  | record reading allowed =>
      have hidle : system.writer = .idle := by
        simpa [Holders.isHeld, Holders.ofSystem, sideOf, lock?] using hheld
      exact ⟨_, if_pos hidle⟩
  | harvest clients report =>
      have hidle : system.drainer = .idle := by
        simpa [Holders.isHeld, Holders.ofSystem, sideOf, lock?] using hheld
      exact ⟨_, if_pos hidle⟩
  | write reading allowed =>
      have hbusy : system.writer ≠ .idle := by
        simpa [Holders.isHeld, Holders.ofSystem, sideOf, lock?] using hheld
      simp only [Ring.System.step?, Ring.System.write?]
      split
      · rename_i hidle
        exact absurd hidle hbusy
      all_goals exact ⟨_, rfl⟩
  | drain clients report =>
      have hbusy : system.drainer ≠ .idle := by
        simpa [Holders.isHeld, Holders.ofSystem, sideOf, lock?] using hheld
      simp only [Ring.System.step?, Ring.System.drain?]
      split
      · rename_i hidle
        exact absurd hidle hbusy
      all_goals first | exact ⟨_, rfl⟩ | (split <;> exact ⟨_, rfl⟩)

theorem AtRing.lock?_eq_none_or (h : task.AtRing client move) :
    task.lock? = none ∨ task.lock? = some (client, sideOf move) := by
  cases h with
  | record reading allowed => exact .inl rfl
  | harvest clients report => exact .inl rfl
  | write reading allowed => exact .inr rfl
  | drain clients report => exact .inr rfl

theorem exists_atRing_of_lock? (h : task.lock? = some (client, side)) :
    ∃ move, task.AtRing client move ∧ sideOf move = side := by
  cases task with
  | free call => cases h
  | writing other reading allowed =>
      cases h
      exact ⟨_, .write reading allowed, rfl⟩
  | draining other clients report =>
      cases h
      exact ⟨_, .drain clients report, rfl⟩
  | halted fault => cases h

end

end Task

/-- A part that touches no ring is possible whatever the state of the site. -/
theorem exists_part_of_unringed (site : Site σ) {call : Call}
    (hring : (Task.free call).ringMove? = none) (hopen : call.isFinished = false) :
    ∃ order next after, site.part? order call = some (next, after) := by
  cases call with
  | finding client =>
      simp only [part?]
      split <;> exact ⟨[], _, _, rfl⟩
  | entering client => exact ⟨[], _, _, rfl⟩
  | judging client => exact ⟨[], _, _, rfl⟩
  | recording client reading allowed => cases hring
  | counting client reading allowed => exact ⟨[], _, _, rfl⟩
  | answered client reading allowed => cases hopen
  | listing =>
      exact ⟨site.controller.clients.names, _, _,
        if_pos (List.isPerm_iff.mpr (List.Perm.refl _))⟩
  | visiting clients report =>
      cases clients with
      | nil => exact ⟨[], _, _, rfl⟩
      | cons client clients => cases hring
  | offering client dropped decisions offering clients report =>
      cases decisions with
      | nil => exact ⟨[], _, _, rfl⟩
      | cons decision decisions => exact ⟨[], _, _, rfl⟩
  | reported report => cases hopen

namespace Machine

def CanGoOn (machine : Machine σ) (index : Nat) : Prop :=
  ∃ order after, step? machine (.part index order) = some after

/-- A thread that holds no lock is about to take the one that another thread holds. -/
def WaitsFor (machine : Machine σ) (index holder : Nat) : Prop :=
  ∃ (task other : Task) (client : String) (move : Ring.System.Move),
    machine.tasks[index]? = some task ∧ task.ringMove? = some (client, move) ∧
      task.lock? = none ∧ machine.tasks[holder]? = some other ∧
        other.lock? = some (client, sideOf move)

variable {config : AdmissionConfig} {valid : config.Valid} {machine : Machine σ}
  {moves : List System.Move} {index : Nat} {task : Task} {client : String}
  {move : Ring.System.Move} {system : Ring.System}

theorem Sound.canGoOn_atRing (h : Sound config valid moves machine) (hfew : Few moves)
    (htask : machine.tasks[index]? = some task) (hring : task.AtRing client move)
    (hheld : (machine.holders client).isHeld (sideOf move) = task.lock?.isSome) :
    machine.CanGoOn index := by
  obtain ⟨system, hsystem⟩ := h.exists_ringSystem? htask hring
  rw [holders_of_ringSystem? hsystem] at hheld
  obtain ⟨next, hstep⟩ := hring.exists_step hheld
  exact ⟨[], _, h.step?_ring hfew htask hring hsystem hstep []⟩

theorem Sound.canGoOn_of_lock? (h : Sound config valid moves machine) (hfew : Few moves)
    (htask : machine.tasks[index]? = some task) {side : Side}
    (hlock : task.lock? = some (client, side)) : machine.CanGoOn index := by
  obtain ⟨move, hring, rfl⟩ := Task.exists_atRing_of_lock? hlock
  refine h.canGoOn_atRing hfew htask hring ?_
  rw [h.locked.isHeld htask hlock, hlock, Option.isSome_some]

theorem Sound.goesOn (h : Sound config valid moves machine) (hfew : Few moves)
    (htask : machine.tasks[index]? = some task) (hopen : task.isOver = false)
    (hrunning : task.fault? = none) :
    machine.CanGoOn index ∨
      ∃ holder, machine.WaitsFor index holder ∧ machine.CanGoOn holder := by
  cases hmove : task.ringMove? with
  | none =>
      cases task with
      | free call =>
          obtain ⟨order, next, site, hpart⟩ :=
            exists_part_of_unringed machine.site hmove hopen
          exact .inl ⟨order, _, step?_part htask hmove hpart⟩
      | writing client reading allowed => cases hmove
      | draining client clients report => cases hmove
      | halted fault => cases hrunning
  | some next =>
      obtain ⟨client, move⟩ := next
      have hring := Task.atRing_of_ringMove? hmove
      rcases hring.lock?_eq_none_or with hnone | hlock
      · cases hheld : (machine.holders client).isHeld (sideOf move) with
        | false =>
            refine .inl (h.canGoOn_atRing hfew htask hring ?_)
            rw [hheld, hnone, Option.isSome_none]
        | true =>
            obtain ⟨holder, other, hother, hlock⟩ := h.locked.exists_holder hheld
            exact .inr ⟨holder,
              ⟨task, other, client, move, htask, hmove, hnone, hother, hlock⟩,
              h.canGoOn_of_lock? hfew hother hlock⟩
      · exact .inl (h.canGoOn_of_lock? hfew htask hlock)

/-- Nothing has gone wrong at any ring or in any call, and nothing can in the next step, with one
exception: a report whose sums are checked cannot count more decisions than a word can. -/
structure Faultless (config : AdmissionConfig) (arithmetic : Arithmetic) (requests : Nat)
    (machine : Machine σ) : Prop where
  capacity_pos : 0 < config.capacity
  inOrder : ∀ client system, machine.ringSystem? client = some system → system.ring.InOrder
  withinBounds : ∀ client system, machine.ringSystem? client = some system →
    system.drainer.WithinBounds config.capacity
  slot_lt : ∀ client system, machine.ringSystem? client = some system →
    ∀ index, index % config.capacity < system.ring.slots.size
  running : arithmetic = .wrapping ∨ requests < UInt64.size →
    ∀ task ∈ machine.tasks, task.fault? = none
  overflows : ∀ task ∈ machine.tasks, ∀ fault, task.fault? = some fault →
    arithmetic = .checked ∧ ∃ left right, fault = .overflow left right ∧
      UInt64.size ≤ left + right ∧ left + right ≤ requests
  goesOn : ∀ index task, machine.tasks[index]? = some task → task.isOver = false →
    task.fault? = none →
    machine.CanGoOn index ∨ ∃ holder, machine.WaitsFor index holder ∧ machine.CanGoOn holder

theorem overflow_le_requests {arithmetic : Arithmetic} {receive : Receiver σ} {sink : σ}
    {time : TimeSource}
    (hrun : (start arithmetic (.ofConfig config valid) receive sink time).run? moves =
      some machine)
    (hfew : Few moves) (htask : task ∈ machine.tasks) {fault : Ring.Fault}
    (hfault : task.fault? = some fault) :
    arithmetic = .checked ∧ ∃ left right, fault = .overflow left right ∧
      UInt64.size ≤ left + right ∧ left + right ≤ requests moves := by
  have hsound : Sound config valid moves machine := sound_of_run hrun hfew
  obtain ⟨hchecked, left, right, rfl, hsize⟩ := hsound.overflows task htask fault hfault
  rw [arithmetic_of_run hrun] at hchecked
  change arithmetic = .checked at hchecked
  subst hchecked
  have hhalted : task = .halted (.overflow left right) := by
    cases task with
    | halted other =>
        cases hfault
        rfl
    | _ => cases hfault
  subst hhalted
  exact ⟨rfl, left, right, rfl, hsize, (counted_of_run hrun hfew).le_requests hsound htask⟩

/-- Every configuration that is accepted keeps all calls free of faults, as long as no client's
requests exhaust the words of its ring and all of them together the words of a report. -/
theorem no_call_faults {config : AdmissionConfig} {controller : Controller}
    {arithmetic : Arithmetic} {receive : Receiver σ} {sink : σ} {time : TimeSource}
    {moves : List System.Move} {last : Machine σ}
    (haccepted : Controller.ofConfig? config = .ok controller)
    (hrun : (start arithmetic controller receive sink time).run? moves = some last)
    (hfew : ∀ client, moves.count (.request client) < UInt64.size - 1) :
    Faultless config arithmetic (requests moves) last := by
  obtain ⟨valid, rfl⟩ := Controller.ofConfig?_eq_ok controller haccepted
  have hsound : Sound config valid moves last := sound_of_run hrun hfew
  have hconsistent : ∀ {client system}, last.ringSystem? client = some system →
      ∃ log, Ring.System.Consistent config.capacity system log :=
    fun hsystem => Ring.System.consistent_of_reachable (hsound.reachable hsystem)
  exact {
    capacity_pos := valid.capacity_pos
    inOrder := fun client system hsystem => by
      obtain ⟨log, hconsistent⟩ := hconsistent hsystem
      exact hconsistent.inOrder
    withinBounds := fun client system hsystem => by
      obtain ⟨log, hconsistent⟩ := hconsistent hsystem
      exact hconsistent.withinBounds
    slot_lt := fun client system hsystem index => by
      obtain ⟨log, hconsistent⟩ := hconsistent hsystem
      have hsize : system.ring.slots.size = config.capacity := hconsistent.capacity_eq
      rw [hsize]
      exact Nat.mod_lt _ valid.capacity_pos
    running := fun hcalm task htask => by
      cases hfault : task.fault? with
      | none => rfl
      | some fault =>
          obtain ⟨hchecked, left, right, -, hsize, hle⟩ :=
            overflow_le_requests hrun hfew htask hfault
          rcases hcalm with hwrapping | hrequests
          · cases hwrapping.symm.trans hchecked
          · exact absurd (Nat.le_trans hsize hle) (Nat.not_le.mpr hrequests)
    overflows := fun task htask fault hfault => overflow_le_requests hrun hfew htask hfault
    goesOn := fun index task htask hopen hrunning => hsound.goesOn hfew htask hopen hrunning }

def hostile : Machine Unit :=
  start .checked (.ofConfig ⟨1, .ofParts 1 0, 1⟩ (by decide))
    (fun _ _ _ => (⟨.panicked "boom", []⟩, ())) () .system

/-- A second decision claims the only slot again while a flush is copying the first. -/
def lappingMoves : List System.Move :=
  .request "a" :: List.replicate 9 (.part 0 []) ++
    .flush :: .part 1 ["a"] :: List.replicate 4 (.part 1 []) ++
      .request "a" :: List.replicate 5 (.part 2 []) ++ [.part 1 []]

def laterMoves : List System.Move :=
  List.replicate 4 (.part 1 []) ++ List.replicate 3 (.part 2 []) ++
    .flush :: .part 3 ["a"] :: List.replicate 10 (.part 3 [])

theorem no_call_faults_lappingMoves :
    ∃ middle last, hostile.run? lappingMoves = some middle ∧
      (middle.holders "a").drainer = .checked 0 1 2 [1] ∧
      Faultless ⟨1, .ofParts 1 0, 1⟩ .checked (requests lappingMoves) middle ∧
      hostile.run? (lappingMoves ++ laterMoves) = some last ∧
      last.tasks = [.free (.answered "a" 0 true), .free (.reported ⟨1, 0, 1, 0⟩),
        .free (.answered "a" 0 false), .free (.reported ⟨1, 0, 0, 1⟩)] ∧
      Faultless ⟨1, .ofParts 1 0, 1⟩ .checked (requests (lappingMoves ++ laterMoves)) last := by
  obtain ⟨middle, last, hmiddle, hdrainer, hlast, htasks⟩ :
      ∃ middle last, hostile.run? lappingMoves = some middle ∧
        (middle.holders "a").drainer = .checked 0 1 2 [1] ∧
        hostile.run? (lappingMoves ++ laterMoves) = some last ∧
        last.tasks = [.free (.answered "a" 0 true), .free (.reported ⟨1, 0, 1, 0⟩),
          .free (.answered "a" 0 false), .free (.reported ⟨1, 0, 0, 1⟩)] :=
    ⟨_, _, rfl, rfl, rfl, rfl⟩
  have hfew : ∀ moves : List System.Move, moves.length < UInt64.size - 1 →
      ∀ client, moves.count (.request client) < UInt64.size - 1 :=
    fun _ hlength _ => Nat.lt_of_le_of_lt List.count_le_length hlength
  exact ⟨middle, last, hmiddle, hdrainer,
    no_call_faults rfl hmiddle (hfew _ (by decide)), hlast, htasks,
    no_call_faults rfl hlast (hfew _ (by decide))⟩

end Machine

end Turnstile.Site

import Turnstile.Proofs.Site.Soundness

/-!
How large the totals of reports can get. All decisions that flushes have taken are ones that the
read cursors of the rings have gone past, and each of those was recorded by a request of its own. So
a sum of a report that is too large for its word takes as many requests as words can count.
-/

namespace Turnstile

def Controller.read (controller : Controller) : Nat :=
  controller.clients.total fun client => client.ring.read

theorem Controller.read_track (controller : Controller) (name : String) :
    (controller.track name).read = controller.read := by
  unfold track
  split
  · rfl
  · exact Index.total_insertNew _ _ _ rfl

namespace Site

/-! Parts of a call that touch no ring. -/

theorem read_part {order : List String} {site after : Site σ} {call next : Call}
    (hring : (Task.free call).ringMove? = none)
    (hpart : site.part? order call = some (next, after)) :
    after.controller.read = site.controller.read ∧
      (site.controller.clients.names.Nodup → after.controller.clients.names.Nodup) := by
  cases part_of_some hpart with
  | @enter client =>
      exact ⟨site.controller.read_track client, fun hnodup =>
        site.controller.nodup_names_track hnodup client⟩
  | @judge client =>
      have hnames := site.controller.names_judge site.time.reading client
      exact ⟨Index.total_modify_of_same _ _ _ fun _ => rfl,
        Eq.mpr (congrArg List.Nodup hnames)⟩
  | count =>
      simp only [Controller.read, Controller.clients_count]
      exact ⟨trivial, id⟩
  | report =>
      simp only [Controller.read, Controller.clients_countFlush]
      exact ⟨trivial, id⟩
  | record | skip | drain => cases hring
  | found | missed | list | offer | account => exact ⟨rfl, id⟩

namespace Call

variable {client : String} {clients : List String} {report : FlushReport}

theorem harvested_drained (client : String) (clients : List String) (report : FlushReport)
    (harvest : Harvest) :
    (offering client harvest.dropped harvest.events {} clients report).harvested =
      report.total + harvest.total := by
  simp only [harvested, FlushReport.total_addClient, Harvest.total]
  omega

theorem drained_le_harvested {harvest : Harvest} (hfull : ¬ harvest.isEmpty = true)
    (h : report.clients ≤ report.total) :
    (offering client harvest.dropped harvest.events {} clients report).drained ≤
      (offering client harvest.dropped harvest.events {} clients report).harvested := by
  have hone : 1 ≤ harvest.total := by
    simp only [Harvest.isEmpty, Bool.and_eq_true, List.isEmpty_iff_length_eq_zero, beq_iff_eq]
      at hfull
    simp only [Harvest.total]
    omega
  rw [harvested_drained]
  exact Nat.add_le_add h hone

end Call

/-- What a flush has taken, and from how many clients, changes only where it drains one. -/
theorem harvested_part {order : List String} {site after : Site σ} {call next : Call}
    (hring : (Task.free call).ringMove? = none)
    (hpart : site.part? order call = some (next, after)) :
    next.harvested = call.harvested ∧ next.drained = call.drained := by
  cases part_of_some hpart with
  | offer => exact ⟨Call.harvested_offering .., rfl⟩
  | record | skip | drain => cases hring
  | found | missed | enter | judge | count | list | account | report => exact ⟨rfl, rfl⟩

namespace Task

/-- How many decisions a flush has taken, or the sum that it could not take. -/
def taken : Task → Nat
  | .free call => call.harvested
  | .draining _ _ report => report.total
  | .halted (.overflow left right) => left + right
  | .writing .. | .halted _ => 0

def drained : Task → Nat
  | .free call => call.drained
  | .draining _ _ report => report.clients
  | .writing .. | .halted _ => 0

variable {task : Task} {client : String} {move : Ring.System.Move} {before after : Ring.System}

theorem taken_settles {next : Call} (h : Call.Settles .checked next task)
    (hdrained : next.drained ≤ next.harvested) :
    task.taken ≤ next.harvested ∧ task.drained ≤ task.taken := by
  cases h with
  | same => exact ⟨Nat.le_refl _, hdrained⟩
  | wrapped _ _ _ harithmetic => cases harithmetic
  | overflow _ left right _ _ hbound =>
      exact ⟨Nat.le_trans hbound (Nat.max_le.mpr ⟨hdrained, Nat.le_refl _⟩), Nat.zero_le _⟩

theorem taken_harvested (client : String) (clients : List String) {report : FlushReport}
    (hdrained : report.clients ≤ report.total) (harvest : Harvest) :
    (harvested .checked client clients report harvest).taken ≤ report.total + harvest.total ∧
      (harvested .checked client clients report harvest).drained ≤
        (harvested .checked client clients report harvest).taken := by
  unfold harvested
  split
  · exact ⟨Nat.le_add_right .., hdrained⟩
  · rename_i hfull
    rw [← Call.harvested_drained client clients]
    exact taken_settles (.offering ..) (Call.drained_le_harvested hfull hdrained)

/-- What a flush takes by a step at a ring, the read cursor moves on. -/
theorem AtRing.taken_next {capacity : Nat} {hpositive : 0 < capacity}
    (h : task.AtRing client move)
    (hreachable : Ring.System.Reachable (.start capacity hpositive) before)
    (hstep : Ring.System.step? before move = some after) (hdrained : task.drained ≤ task.taken) :
    (task.next .checked after).taken + before.ring.read ≤ task.taken + after.ring.read ∧
      (task.next .checked after).drained ≤ (task.next .checked after).taken := by
  have hread := Ring.System.read_le_of_step hreachable hstep
  cases h with
  | record reading allowed => exact ⟨Nat.add_le_add_left hread _, Nat.le_refl 0⟩
  | write reading allowed =>
      simp only [next]
      split <;> exact ⟨Nat.add_le_add_left hread _, Nat.le_refl 0⟩
  | harvest clients report => exact ⟨Nat.add_le_add_left hread _, hdrained⟩
  | drain clients report =>
      simp only [next]
      split
      · rename_i hidle
        have hlast := Ring.System.read_of_drain hreachable hstep hidle
        obtain ⟨htaken, hmore⟩ :=
          taken_harvested client clients hdrained (after.harvests.getLastD {})
        refine ⟨?_, hmore⟩
        rw [hlast, Nat.add_comm before.ring.read, ← Nat.add_assoc]
        exact Nat.add_le_add_right htaken _
      · exact ⟨Nat.add_le_add_left hread _, hdrained⟩

end Task

def System.Move.isRequest : System.Move → Bool
  | .request _ => true
  | .flush | .clock _ | .part .. => false

namespace Machine

structure Counted (machine : Machine σ) : Prop where
  names_nodup : machine.site.controller.clients.names.Nodup
  taken_le : sumOf Task.taken machine.tasks ≤ machine.site.controller.read
  drained_le : ∀ task ∈ machine.tasks, task.drained ≤ task.taken

def requests (moves : List System.Move) : Nat := moves.countP System.Move.isRequest

variable {config : AdmissionConfig} {valid : config.Valid} {machine after : Machine σ}
  {moves : List System.Move} {move : System.Move} {index : Nat} {order : List String}
  {task : Task} {client : String} {ringMove : Ring.System.Move} {system next : Ring.System}

theorem Counted.call (h : machine.Counted) {call : Call} (hharvested : call.harvested = 0)
    (hdrained : call.drained = 0) :
    Counted { machine with tasks := machine.tasks ++ [.free call] } where
  names_nodup := h.names_nodup
  taken_le := by
    have hold := h.taken_le
    simp only [sumOf_append, sumOf_cons, sumOf_nil, Task.taken, hharvested]
    exact hold
  drained_le := fun task htask => by
    rcases List.mem_append.mp htask with hold | hnew
    · exact h.drained_le task hold
    · rw [List.mem_singleton.mp hnew]
      simp only [Task.taken, Task.drained, hharvested, hdrained, Nat.le_refl]

theorem Counted.set (h : machine.Counted) {later : Machine σ} {old : Task}
    (htask : machine.tasks[index]? = some old) (htasks : later.tasks = machine.tasks.set index task)
    (hnames : later.site.controller.clients.names.Nodup)
    (htaken : task.taken + machine.site.controller.read ≤
      old.taken + later.site.controller.read) (hdrained : task.drained ≤ task.taken) :
    later.Counted where
  names_nodup := hnames
  taken_le := by
    have hold := h.taken_le
    have hsum := sumOf_set Task.taken task htask
    rw [htasks]
    omega
  drained_le := fun other hother => by
    rw [htasks] at hother
    rcases List.mem_or_eq_of_mem_set hother with hold | rfl
    · exact h.drained_le other hold
    · exact hdrained

theorem read_setRing (hsystem : machine.ringSystem? client = some system)
    (next : Ring.System) :
    (machine.setRing client next).site.controller.read + system.ring.read =
      machine.site.controller.read + next.ring.read := by
  obtain ⟨ring, hring, rfl⟩ := exists_ring?_of_ringSystem? hsystem
  obtain ⟨found, hfound, rfl⟩ := Option.map_eq_some_iff.mp hring
  exact Index.total_modify (fun client => client.ring.read) hfound _

theorem Counted.ring (h : machine.Counted) (hsound : Sound config valid moves machine)
    (hchecked : machine.arithmetic = .checked) (htask : machine.tasks[index]? = some task)
    (hring : task.AtRing client ringMove) (hsystem : machine.ringSystem? client = some system)
    (hstep : Ring.System.step? system ringMove = some next) :
    Counted ((machine.setRing client next).setTask index
      (task.next machine.arithmetic next)) := by
  have hread := read_setRing hsystem next
  have hdrained := h.drained_le task (List.mem_of_getElem? htask)
  obtain ⟨htaken, hmore⟩ := hring.taken_next (hsound.reachable hsystem) hstep hdrained
  rw [← hchecked] at htaken hmore
  have hnames : (machine.setRing client next).site.controller.clients.names.Nodup := by
    simp only [setRing, Controller.names_modifyClient]
    exact h.names_nodup
  refine h.set htask rfl hnames ?_ hmore
  change _ ≤ task.taken + (machine.setRing client next).site.controller.read
  omega

theorem Counted.part {call later : Call} {site : Site σ} (h : machine.Counted)
    (hchecked : machine.arithmetic = .checked)
    (htask : machine.tasks[index]? = some (.free call))
    (hring : (Task.free call).ringMove? = none)
    (hpart : machine.site.part? order call = some (later, site))
    (hsettles : Call.Settles machine.arithmetic later task) :
    Counted (machine.goOn index site task) := by
  obtain ⟨hread, hnames⟩ := read_part hring hpart
  obtain ⟨hharvested, hdrained⟩ := harvested_part hring hpart
  have hold : call.drained ≤ call.harvested := h.drained_le _ (List.mem_of_getElem? htask)
  rw [hchecked] at hsettles
  obtain ⟨htaken, hmore⟩ := Task.taken_settles hsettles (by omega)
  have hsame : (machine.goOn index site task).site.controller.read =
      machine.site.controller.read := hread
  refine h.set htask rfl (hnames h.names_nodup) ?_ hmore
  rw [hsame]
  rw [hharvested] at htaken
  exact Nat.add_le_add_right htaken _

theorem Counted.step (h : machine.Counted) (hsound : Sound config valid moves machine)
    (hfew : Few moves) (hchecked : machine.arithmetic = .checked)
    (hstep : step? machine move = some after) : after.Counted := by
  cases acts_of_step hstep with
  | request client => exact h.call rfl rfl
  | flush => exact h.call rfl rfl
  | clock clockMove => exact { h with }
  | ring htask hmove hsystem hattempt =>
      obtain ⟨next, hnext, hok⟩ := hsound.exists_step_of_attempt? hfew hsystem hattempt
      cases hok
      exact h.ring hsound hchecked htask (Task.atRing_of_ringMove? hmove) hsystem hnext
  | fault htask hmove hsystem hattempt =>
      obtain ⟨_, -, hok⟩ := hsound.exists_step_of_attempt? hfew hsystem hattempt
      cases hok
  | part htask hring hpart hsettles => exact h.part hchecked htask hring hpart hsettles

theorem counted_of_run {receive : Receiver σ} {sink : σ} {time : TimeSource} {last : Machine σ}
    (hrun : (start .checked (.ofConfig config valid) receive sink time).run? moves = some last)
    (hfew : Few moves) : last.Counted := by
  let Holds (moves : List System.Move) (machine : Machine σ) : Prop :=
    Few moves → machine.arithmetic = .checked ∧ machine.Counted
  have hfirst : Counted (start .checked (.ofConfig config valid) receive sink time) :=
    ⟨.nil, Nat.le_refl 0, nofun⟩
  have hholds : Holds moves last :=
    Steps.run_induction hrun (fun _ => ⟨rfl, hfirst⟩)
      fun before middle hmiddle h move _ after hstep hfew => by
        obtain ⟨hchecked, hcounted⟩ := h hfew.of_append
        have hsound := sound_of_run hmiddle hfew.of_append
        exact ⟨(arithmetic_of_step hstep).trans hchecked,
          hcounted.step hsound hfew.of_append hchecked hstep⟩
  exact (hholds hfew).2

theorem Counted.read_le (h : machine.Counted) (hsound : Sound config valid moves machine) :
    machine.site.controller.read ≤ requests moves := by
  have hclaimed : ∀ name client, machine.site.controller.clients.find? name = some client →
      client.ring.read ≤ moves.count (.request name) := by
    intro name client hclient
    have hring : machine.site.controller.ring? name = some client.ring :=
      Option.map_eq_some_iff.mpr ⟨client, hclient, rfl⟩
    have hsystem : machine.ringSystem? name =
        some ((machine.holders name).system client.ring) := by
      rw [ringSystem?, hring, Option.map_some]
    obtain ⟨log, hconsistent⟩ := Ring.System.consistent_of_reachable (hsound.reachable hsystem)
    have hroom := hsound.room name
    rw [claims_eq_of_ringSystem? hsystem, Ring.System.claims] at hroom
    have hread := hconsistent.inOrder.read_le
    have hpublished := hconsistent.inOrder.published_le
    change client.ring.read ≤ client.ring.published at hread
    change client.ring.published ≤ client.ring.reserved at hpublished
    change client.ring.reserved + _ + _ ≤ _ at hroom
    omega
  exact Nat.le_trans (Index.total_le h.names_nodup hclaimed)
    (sumOf_count_le (fun _ _ => System.Move.request.inj) (fun _ => rfl) h.names_nodup moves)

/-- No sum that overflows is larger than the number of requests. -/
theorem Counted.le_requests (h : machine.Counted) (hsound : Sound config valid moves machine)
    {left right : Nat} (htask : Task.halted (.overflow left right) ∈ machine.tasks) :
    left + right ≤ requests moves :=
  calc
    left + right ≤ sumOf Task.taken machine.tasks := le_sumOf_of_mem Task.taken htask
    _ ≤ machine.site.controller.read := h.taken_le
    _ ≤ requests moves := h.read_le hsound

end Machine

end Site

end Turnstile

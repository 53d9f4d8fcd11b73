import Turnstile.Proofs.Controller
import Turnstile.Proofs.Site.Totals

/-!
What a step of one thread changes at a site where rings are loaded and stored to one word at a
time: one ring and the lock that the thread holds there, or else no ring at all, unless it makes
one for a new client.
-/

namespace Turnstile

namespace Controller

variable (controller : Controller)

theorem track?_eq (name : String) : controller.track? name = .ok (controller.track name) := by
  have hpositive := controller.valid.capacity_pos
  simp only [track?, track, Ring.ofCapacity?, dif_pos hpositive]
  split <;> rfl

theorem knows_iff_exists_ring? {name : String} :
    controller.knows name = true ↔ ∃ ring, controller.ring? name = some ring := by
  rw [← Option.isSome_iff_exists]
  simp only [ring?, Option.isSome_map]
  exact Iff.rfl

theorem ring?_modifyClient_of_same (name other : String) {change : Client → Client}
    (hsame : ∀ client, (change client).ring = client.ring) :
    (controller.modifyClient name change).ring? other = controller.ring? other := by
  rcases Decidable.em (other = name) with rfl | hne
  · simp only [ring?, client?_modifyClient_self, Option.map_map]
    congr 1
    exact funext hsame
  · simp only [ring?, client?_modifyClient_of_ne controller hne]

theorem ring?_setRing (name other : String) (ring : Ring) {old : Ring}
    (hring : controller.ring? name = some old) :
    (controller.modifyClient name fun client => { client with ring }).ring? other =
      if other = name then some ring else controller.ring? other := by
  split
  · rename_i hsame
    subst hsame
    obtain ⟨client, hclient, -⟩ := Option.map_eq_some_iff.mp hring
    simp only [ring?, client?_modifyClient_self, hclient, Option.map_some]
  · rename_i hne
    simp only [ring?, client?_modifyClient_of_ne controller hne]

theorem ring?_track (name other : String) :
    (controller.track name).ring? other =
      if other = name then some ((controller.ring? name).getD controller.newClient.ring)
      else controller.ring? other := by
  split
  · rename_i hsame
    subst hsame
    simp only [ring?, client?_track_self]
    cases controller.client? other <;> rfl
  · rename_i hne
    simp only [ring?, client?_track_of_ne controller hne]

theorem newClient_ring {config : AdmissionConfig} (valid : config.Valid)
    (h : controller.config = config) :
    controller.newClient.ring = .ofCapacity config.capacity valid.capacity_pos := by
  subst h
  rfl

theorem ofConfig?_eq_ok {config : AdmissionConfig}
    (h : ofConfig? config = .ok controller) :
    ∃ valid : config.Valid, controller = ofConfig config valid := by
  unfold ofConfig? at h
  split at h
  · cases h
  · rename_i hvalid
    cases h
    exact ⟨hvalid, rfl⟩

end Controller

namespace Site

structure Unringed (site after : Site σ) (call : Call) : Prop where
  config_eq : after.controller.config = site.controller.config
  ring?_eq : ∀ name, after.controller.ring? name = site.controller.ring? name ∨
    call = .entering name ∧ site.controller.ring? name = none ∧
      after.controller.ring? name = some site.controller.newClient.ring

theorem Unringed.of_same {site after : Site σ} {call : Call}
    (hconfig : after.controller.config = site.controller.config)
    (hring : ∀ name, after.controller.ring? name = site.controller.ring? name) :
    Unringed site after call :=
  ⟨hconfig, fun name => .inl (hring name)⟩

theorem unringed_track (site : Site σ) (client : String) :
    Unringed site { site with controller := site.controller.track client } (.entering client) where
  config_eq := site.controller.config_track client
  ring?_eq := fun name => by
    have hring := site.controller.ring?_track client name
    rcases Decidable.em (name = client) with rfl | hne
    · rw [if_pos rfl] at hring
      cases hold : site.controller.ring? name with
      | none =>
          rw [hold] at hring
          exact .inr ⟨rfl, rfl, hring⟩
      | some ring =>
          rw [hold] at hring
          exact .inl hring
    · rw [if_neg hne] at hring
      exact .inl hring

theorem unringed_part {order : List String} {site after : Site σ} {call next : Call}
    (hring : (Task.free call).ringMove? = none)
    (hpart : site.part? order call = some (next, after)) : Unringed site after call := by
  cases part_of_some hpart with
  | @enter client => exact unringed_track site client
  | @judge client =>
      exact .of_same rfl fun name =>
        site.controller.ring?_modifyClient_of_same client name fun _ => rfl
  | count =>
      refine .of_same (Controller.config_count ..) fun name => ?_
      simp only [Controller.ring?, Controller.client?, Controller.clients_count]
  | report =>
      refine .of_same (Controller.config_countFlush ..) fun name => ?_
      simp only [Controller.ring?, Controller.client?, Controller.clients_countFlush]
  | record | skip | drain => cases hring
  | found | missed | list | offer | account => exact .of_same rfl fun _ => rfl

theorem Unringed.wrapTotals {site after : Site σ} {call : Call} (h : Unringed site after call) :
    Unringed site after.wrapTotals call :=
  ⟨h.config_eq, h.ring?_eq⟩

namespace Machine

inductive Acts (machine : Machine σ) : System.Move → Machine σ → Prop
  | request (client : String) :
      Acts machine (.request client)
        { machine with tasks := machine.tasks ++ [.free (.finding client)] }
  | flush : Acts machine .flush { machine with tasks := machine.tasks ++ [.free .listing] }
  | clock (step : Clock.Move) :
      Acts machine (.clock step) { machine with site := machine.site.move step }
  | ring {index : Nat} {order : List String} {task : Task} {client : String}
      {move : Ring.System.Move} {system after : Ring.System}
      (htask : machine.tasks[index]? = some task)
      (hmove : task.ringMove? = some (client, move))
      (hsystem : machine.ringSystem? client = some system)
      (hattempt : system.attempt? move = some (.ok after)) :
      Acts machine (.part index order)
        ((machine.setRing client after).setTask index (task.next machine.arithmetic after))
  | fault {index : Nat} {order : List String} {task : Task} {client : String}
      {move : Ring.System.Move} {system : Ring.System} {fault : Ring.Fault}
      (htask : machine.tasks[index]? = some task)
      (hmove : task.ringMove? = some (client, move))
      (hsystem : machine.ringSystem? client = some system)
      (hattempt : system.attempt? move = some (.error fault)) :
      Acts machine (.part index order)
        ((machine.release client (sideOf move)).setTask index (.halted fault))
  | part {index : Nat} {order : List String} {call next : Call} {site : Site σ} {task : Task}
      (htask : machine.tasks[index]? = some (.free call))
      (hring : (Task.free call).ringMove? = none)
      (hpart : machine.site.part? order call = some (next, site))
      (hsettles : Call.Settles machine.arithmetic next task) :
      Acts machine (.part index order) (machine.goOn index site task)

theorem part?_eq (machine : Machine σ) (index : Nat) (order : List String) (call : Call) :
    machine.part? index order call =
      (machine.site.part? order call).map fun result =>
        machine.goOn index result.2
          (.ofResult (call.totalled? machine.arithmetic result.1)) := by
  cases call with
  | entering client =>
      simp only [part?, Controller.track?_eq]
      rfl
  | _ =>
      simp only [part?]
      cases machine.site.part? order _ <;> rfl

theorem acts_of_step {before after : Machine σ} {move : System.Move}
    (hstep : step? before move = some after) : before.Acts move after := by
  cases move with
  | request client =>
      cases hstep
      exact .request client
  | flush =>
      cases hstep
      exact .flush
  | clock step =>
      cases hstep
      exact .clock step
  | part index order =>
      simp only [step?, advance?, Option.bind_eq_bind, Option.bind_eq_some_iff] at hstep
      obtain ⟨task, htask, hstep⟩ := hstep
      split at hstep
      · rename_i client move hmove
        simp only [moveRing?, Option.bind_eq_bind, Option.bind_eq_some_iff] at hstep
        obtain ⟨system, hsystem, result, hattempt, hstep⟩ := hstep
        cases result with
        | ok system =>
            cases hstep
            exact .ring htask hmove hsystem hattempt
        | error fault =>
            cases hstep
            exact .fault htask hmove hsystem hattempt
      · rename_i call hring
        rw [part?_eq] at hstep
        obtain ⟨⟨next, site⟩, hpart, rfl⟩ := Option.map_eq_some_iff.mp hstep
        exact .part htask hring hpart (settles_part hpart before.arithmetic)
      · cases hstep

theorem arithmetic_of_step {before after : Machine σ} {move : System.Move}
    (hstep : step? before move = some after) : after.arithmetic = before.arithmetic := by
  cases acts_of_step hstep <;> rfl

theorem arithmetic_of_run {first last : Machine σ} {moves : List System.Move}
    (hrun : first.run? moves = some last) : last.arithmetic = first.arithmetic := by
  let Holds (machine : Machine σ) : Prop := machine.arithmetic = first.arithmetic
  have hreachable : Steps.Reachable step? first last := ⟨moves, hrun⟩
  have hlast : Holds last :=
    hreachable.invariant rfl fun _ _ _ h hstep => (arithmetic_of_step hstep).trans h
  exact hlast

/-! The rings after a move at one of them. -/

variable {machine : Machine σ} {client name : String} {system : Ring.System}

theorem exists_ring?_of_ringSystem? (h : machine.ringSystem? client = some system) :
    ∃ ring, machine.site.controller.ring? client = some ring ∧
      (machine.holders client).system ring = system :=
  Option.map_eq_some_iff.mp h

theorem holders_of_ringSystem? (h : machine.ringSystem? client = some system) :
    machine.holders client = .ofSystem system := by
  obtain ⟨ring, -, rfl⟩ := exists_ring?_of_ringSystem? h
  rfl

theorem ring?_setRing (h : machine.ringSystem? client = some system) (after : Ring.System)
    (name : String) :
    (machine.setRing client after).site.controller.ring? name =
      if name = client then some after.ring else machine.site.controller.ring? name := by
  obtain ⟨ring, hring, -⟩ := exists_ring?_of_ringSystem? h
  exact machine.site.controller.ring?_setRing client name after.ring hring

theorem holders_setRing (after : Ring.System) (name : String) :
    (machine.setRing client after).holders name =
      if name = client then .ofSystem after else machine.holders name := by
  simp only [setRing, Function.update_apply]

theorem ringSystem?_setRing (h : machine.ringSystem? client = some system) (after : Ring.System)
    (name : String) :
    (machine.setRing client after).ringSystem? name =
      if name = client then some after else machine.ringSystem? name := by
  rw [ringSystem?, ring?_setRing h, holders_setRing]
  split <;> rfl

theorem ringSystem?_of_ring?_eq {other : Machine σ}
    (hring : other.site.controller.ring? name = machine.site.controller.ring? name)
    (hholders : other.holders name = machine.holders name) :
    other.ringSystem? name = machine.ringSystem? name := by
  rw [ringSystem?, ringSystem?, hring, hholders]

end Machine

end Site

end Turnstile

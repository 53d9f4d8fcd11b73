import Turnstile.Proofs.Site.Locks

/-!
What a machine keeps through every step: its rings are ones that systems of records and harvests
alone could have got into, each request claims a place in its client's ring at most once, and the
clients of a thread are known. As long as claims can be counted in words no step at a ring can come
upon a fault, and only totals of a report that are checked can overflow.
-/

namespace Turnstile.Site

namespace Task

def fault? : Task → Option Ring.Fault
  | .halted fault => some fault
  | .free _ | .writing .. | .draining .. => none

def IsOverflow (arithmetic : Arithmetic) (fault : Ring.Fault) : Prop :=
  arithmetic = .checked ∧
    ∃ left right, fault = .overflow left right ∧ UInt64.size ≤ left + right

section

variable {arithmetic : Arithmetic} {next : Call} {task later : Task} {fault : Ring.Fault}

theorem isOverflow_of_settles (h : Call.Settles arithmetic next task)
    (hfault : task.fault? = some fault) : IsOverflow arithmetic fault := by
  cases h with
  | same => cases hfault
  | wrapped => cases hfault
  | overflow next left right harithmetic hsize hbound =>
      cases hfault
      exact ⟨harithmetic, left, right, rfl, hsize⟩

theorem Becomes.isOverflow (h : task.Becomes arithmetic later)
    (hfault : later.fault? = some fault) : IsOverflow arithmetic fault := by
  cases h with
  | drained client clients report harvest hsettles => exact isOverflow_of_settles hsettles hfault
  | _ => cases hfault

theorem isToRecord_settles (h : Call.Settles arithmetic next task) (name : String) :
    (task.isToRecord name).toNat ≤ ((free next).isToRecord name).toNat := by
  cases h with
  | same => exact Nat.le_refl _
  | wrapped => exact Nat.le_refl _
  | overflow => exact Nat.zero_le _

theorem clients_settles (h : Call.Settles arithmetic next task) :
    task.clients ⊆ (free next).clients := by
  cases h with
  | same => exact List.Subset.refl _
  | wrapped => exact List.Subset.refl _
  | overflow => exact List.nil_subset _

end

end Task

/-! Parts of a call that touch no ring. -/

theorem toRecord?_part {order : List String} {site after : Site σ} {call next : Call}
    (hring : (Task.free call).ringMove? = none)
    (hpart : site.part? order call = some (next, after)) :
    (Task.free next).toRecord? = (Task.free call).toRecord? := by
  cases part_of_some hpart with
  | record | skip | drain => cases hring
  | found | missed | enter | judge | count | list | offer | account | report => rfl

/-- The clients of a thread have been there before, or are known by now. -/
theorem known_part {order : List String} {site after : Site σ} {call next : Call} {name : String}
    (hring : (Task.free call).ringMove? = none)
    (hpart : site.part? order call = some (next, after))
    (hname : name ∈ (Task.free next).clients) :
    name ∈ (Task.free call).clients ∨ after.controller.knows name = true := by
  cases part_of_some hpart with
  | found hknows =>
      cases List.mem_singleton.mp hname
      exact .inr hknows
  | missed hknows => cases hname
  | enter =>
      cases List.mem_singleton.mp hname
      exact .inr (site.controller.knows_track name)
  | judge => exact .inl hname
  | count => cases hname
  | list horder => exact .inr ((site.controller.knows_iff name).mpr (horder.mem_iff.mp hname))
  | offer => exact .inl hname
  | account => exact .inl hname
  | report => cases hname
  | record | skip | drain => cases hring

theorem Unringed.knows {site after : Site σ} {call : Call} {name : String}
    (h : Unringed site after call) (hknows : site.controller.knows name = true) :
    after.controller.knows name = true := by
  rw [Controller.knows_iff_exists_ring?] at hknows ⊢
  obtain ⟨ring, hring⟩ := hknows
  rcases h.ring?_eq name with hsame | ⟨-, hnone, hnew⟩
  · exact ⟨ring, hsame.trans hring⟩
  · exact ⟨_, hnew⟩

namespace Machine

/-- How often threads have claimed a place in a client's ring, or are in its lock to do so. -/
def claims (machine : Machine σ) (client : String) : Nat :=
  ((machine.ringSystem? client).map Ring.System.claims).getD 0

/-- No client makes more requests than the words of its ring can count. -/
def Few (moves : List System.Move) : Prop :=
  ∀ client, moves.count (.request client) < UInt64.size - 1

theorem Few.of_append {before after : List System.Move} (h : Few (before ++ after)) :
    Few before :=
  fun client => Nat.lt_of_le_of_lt (by simp [List.count_append]) (h client)

theorem count_part (moves : List System.Move) (index : Nat) (order : List String)
    (client : String) :
    (moves ++ [System.Move.part index order]).count (.request client) =
      moves.count (.request client) := by
  rw [List.count_append]
  rfl

theorem Few.part {moves : List System.Move} (h : Few moves) (index : Nat) (order : List String) :
    Few (moves ++ [.part index order]) :=
  fun client => (count_part moves index order client).symm ▸ h client

structure Sound (config : AdmissionConfig) (valid : config.Valid) (moves : List System.Move)
    (machine : Machine σ) : Prop where
  config_eq : machine.site.controller.config = config
  reachable : ∀ {client system}, machine.ringSystem? client = some system →
    Ring.System.Reachable (.start config.capacity valid.capacity_pos) system
  fresh : ∀ {client}, machine.site.controller.ring? client = none → machine.holders client = {}
  room : ∀ client, machine.claims client + machine.tasks.countP (Task.isToRecord client) ≤
    moves.count (.request client)
  known : ∀ task ∈ machine.tasks, ∀ client ∈ task.clients,
    machine.site.controller.knows client = true
  locked : machine.Locked
  overflows : ∀ task ∈ machine.tasks, ∀ fault, task.fault? = some fault →
    Task.IsOverflow machine.arithmetic fault

variable {config : AdmissionConfig} {valid : config.Valid} {machine after : Machine σ}
  {moves : List System.Move} {move : System.Move} {index : Nat} {order : List String}
  {task : Task} {client : String} {ringMove : Ring.System.Move} {system next : Ring.System}

theorem sound_start (config : AdmissionConfig) (valid : config.Valid) (arithmetic : Arithmetic)
    (receive : Receiver σ) (sink : σ) (time : TimeSource) :
    Sound config valid [] (start arithmetic (.ofConfig config valid) receive sink time) where
  config_eq := rfl
  reachable := nofun
  fresh := fun _ => rfl
  room := fun _ => Nat.le_refl 0
  known := nofun
  locked := fun client side => by cases side <;> rfl
  overflows := nofun

theorem Sound.ringSystem?_part {site : Site σ} {call : Call} (h : Sound config valid moves machine)
    (hunringed : Unringed machine.site site call) (name : String) :
    ringSystem? { machine with site } name = machine.ringSystem? name ∨
      machine.ringSystem? name = none ∧
        ringSystem? { machine with site } name =
          some (.start config.capacity valid.capacity_pos) := by
  rcases hunringed.ring?_eq name with hsame | ⟨-, hnone, hnew⟩
  · exact .inl (ringSystem?_of_ring?_eq hsame rfl)
  · refine .inr ⟨?_, ?_⟩
    · rw [ringSystem?, hnone, Option.map_none]
    · rw [ringSystem?, hnew, Option.map_some, Controller.newClient_ring _ valid h.config_eq,
        h.fresh hnone]
      rfl

theorem Sound.claims_part {site : Site σ} {call : Call} (h : Sound config valid moves machine)
    (hunringed : Unringed machine.site site call) (name : String) :
    claims { machine with site } name = machine.claims name := by
  rcases h.ringSystem?_part hunringed name with hsame | ⟨hnone, hnew⟩
  · rw [claims, claims, hsame]
  · rw [claims, claims, hnone, hnew]
    rfl

theorem claims_setRing (hsystem : machine.ringSystem? client = some system)
    (next : Ring.System) (name : String) :
    (machine.setRing client next).claims name =
      if name = client then next.claims else machine.claims name := by
  rw [claims, ringSystem?_setRing hsystem]
  split <;> rfl

theorem Sound.call (h : Sound config valid moves machine) {call : Call}
    (hclients : (Task.free call).clients = [])
    (hroom : ∀ client, ((Task.free call).isToRecord client).toNat ≤
      [move].count (.request client)) :
    Sound config valid (moves ++ [move])
      { machine with tasks := machine.tasks ++ [.free call] } where
  config_eq := h.config_eq
  reachable := h.reachable
  fresh := h.fresh
  room := fun client => by
    have hold := h.room client
    have hnew := hroom client
    have hadded : [Task.free call].countP (Task.isToRecord client) =
        ((Task.free call).isToRecord client).toNat := by
      rw [List.countP_singleton]
      cases (Task.free call).isToRecord client <;> rfl
    have hclaims : claims { machine with tasks := machine.tasks ++ [.free call] } client =
        machine.claims client := rfl
    rw [List.count_append, List.countP_append, hadded, hclaims]
    omega
  known := fun task htask client hclient => by
    rcases List.mem_append.mp htask with hold | hnew
    · exact h.known task hold client hclient
    · rw [List.mem_singleton.mp hnew, hclients] at hclient
      cases hclient
  locked := h.locked.concat call
  overflows := fun task htask fault hfault => by
    rcases List.mem_append.mp htask with hold | hnew
    · exact h.overflows task hold fault hfault
    · rw [List.mem_singleton.mp hnew] at hfault
      cases hfault

theorem claims_eq_of_ringSystem? (hsystem : machine.ringSystem? client = some system) :
    machine.claims client = system.claims := by
  rw [claims, hsystem]
  rfl

theorem Sound.room_ring (h : Sound config valid moves machine)
    (htask : machine.tasks[index]? = some task) (hring : task.AtRing client ringMove)
    (hsystem : machine.ringSystem? client = some system)
    (hstep : Ring.System.step? system ringMove = some next) (name : String) :
    (machine.setRing client next).claims name +
      (machine.tasks.set index (task.next machine.arithmetic next)).countP
        (Task.isToRecord name) ≤ moves.count (.request name) := by
  have hold := h.room name
  have hcount := countP_set (Task.isToRecord name) (task.next machine.arithmetic next) htask
  have hmade := Ring.System.claims_step (h.reachable hsystem) hstep
  have hbefore := claims_eq_of_ringSystem? hsystem
  rw [hring.isToRecord_eq, (hring.becomes _ next).isToRecord_eq, Bool.toNat_false] at hcount
  rw [claims_setRing hsystem]
  rcases Decidable.em (name = client) with rfl | hne
  · rw [if_pos rfl] at hcount ⊢
    omega
  · rw [if_neg hne] at hcount ⊢
    omega

theorem Sound.ring (h : Sound config valid moves machine)
    (htask : machine.tasks[index]? = some task) (hring : task.AtRing client ringMove)
    (hsystem : machine.ringSystem? client = some system)
    (hstep : Ring.System.step? system ringMove = some next) :
    Sound config valid (moves ++ [.part index order])
      ((machine.setRing client next).setTask index (task.next machine.arithmetic next)) where
  config_eq := h.config_eq
  reachable := fun {name other} hother => by
    have hset := ringSystem?_setRing hsystem next name
    rcases Decidable.em (name = client) with rfl | hne
    · rw [if_pos rfl] at hset
      cases hset.symm.trans hother
      exact (h.reachable hsystem).step hstep
    · rw [if_neg hne] at hset
      exact h.reachable (hset.symm.trans hother)
  fresh := fun {name} hnone => by
    have hset := ring?_setRing hsystem next name
    rcases Decidable.em (name = client) with rfl | hne
    · rw [if_pos rfl] at hset
      cases hset.symm.trans hnone
    · rw [if_neg hne] at hset
      have hholders : (machine.setRing client next).holders name = machine.holders name := by
        rw [holders_setRing, if_neg hne]
      exact hholders.trans (h.fresh (hset.symm.trans hnone))
  room := fun name => by
    rw [count_part]
    exact h.room_ring htask hring hsystem hstep name
  known := fun other hother name hname => by
    have hnames : (machine.setRing client next).site.controller.clients.names =
        machine.site.controller.clients.names :=
      machine.site.controller.names_modifyClient client _
    have hknown : machine.site.controller.knows name = true := by
      rcases List.mem_or_eq_of_mem_set hother with hold | rfl
      · exact h.known other hold name hname
      · exact h.known task (List.mem_of_getElem? htask) name
          ((hring.becomes _ next).clients_subset hname)
    rw [Controller.knows_iff] at hknown ⊢
    exact hnames ▸ hknown
  locked := h.locked.ring htask hring hsystem hstep
  overflows := fun other hother fault hfault => by
    rcases List.mem_or_eq_of_mem_set hother with hold | rfl
    · exact h.overflows other hold fault hfault
    · exact (hring.becomes _ next).isOverflow hfault

theorem Sound.part {call later : Call} {site : Site σ} (h : Sound config valid moves machine)
    (htask : machine.tasks[index]? = some (.free call))
    (hring : (Task.free call).ringMove? = none)
    (hpart : machine.site.part? order call = some (later, site))
    (hsettles : Call.Settles machine.arithmetic later task) :
    Sound config valid (moves ++ [.part index order]) (machine.goOn index site task) where
  config_eq := (unringed_part hring hpart).config_eq.trans h.config_eq
  reachable := fun {name system} hsystem => by
    rcases h.ringSystem?_part (unringed_part hring hpart).wrapTotals name with hsame | ⟨-, hnew⟩
    · exact h.reachable (hsame.symm.trans hsystem)
    · cases hnew.symm.trans hsystem
      exact .refl _
  fresh := fun {name} hnone => by
    rcases (unringed_part hring hpart).ring?_eq name with hsame | ⟨-, -, hnew⟩
    · exact h.fresh (hsame.symm.trans hnone)
    · cases hnew.symm.trans hnone
  room := fun name => by
    have hcount := countP_set (Task.isToRecord name) task htask
    have hsame : (Task.free later).isToRecord name = (Task.free call).isToRecord name := by
      rw [Task.isToRecord, Task.isToRecord, toRecord?_part hring hpart]
    have hle := Task.isToRecord_settles hsettles name
    rw [hsame] at hle
    have hclaims := h.claims_part (unringed_part hring hpart).wrapTotals name
    rw [count_part]
    refine Nat.le_trans (Nat.add_le_add (Nat.le_of_eq hclaims) ?_) (h.room name)
    change (machine.tasks.set index task).countP (Task.isToRecord name) ≤ _
    omega
  known := fun other hother name hname => by
    have hkept : machine.site.controller.knows name = true → site.controller.knows name = true :=
      (unringed_part hring hpart).knows
    rcases List.mem_or_eq_of_mem_set hother with hold | rfl
    · exact hkept (h.known other hold name hname)
    · rcases known_part hring hpart (Task.clients_settles hsettles hname) with hbefore | hknown
      · exact hkept (h.known _ (List.mem_of_getElem? htask) name hbefore)
      · exact hknown
  locked := h.locked.part htask hsettles site
  overflows := fun other hother fault hfault => by
    rcases List.mem_or_eq_of_mem_set hother with hold | rfl
    · exact h.overflows other hold fault hfault
    · exact Task.isOverflow_of_settles hsettles hfault

/-- Fewer requests than words can count leave no step to go wrong. -/
theorem Sound.attempt?_eq (h : Sound config valid moves machine) (hfew : Few moves)
    (hsystem : machine.ringSystem? client = some system) (ringMove : Ring.System.Move) :
    system.attempt? ringMove = (Ring.System.step? system ringMove).map .ok := by
  have hroom := h.room client
  have hcount := hfew client
  rw [claims_eq_of_ringSystem? hsystem, Ring.System.claims] at hroom
  exact Ring.System.attempt?_eq (h.reachable hsystem) (by omega) ringMove

theorem Sound.exists_step_of_attempt? {result : Except Ring.Fault Ring.System}
    (h : Sound config valid moves machine) (hfew : Few moves)
    (hsystem : machine.ringSystem? client = some system)
    (hattempt : system.attempt? ringMove = some result) :
    ∃ next, Ring.System.step? system ringMove = some next ∧ result = .ok next := by
  rw [h.attempt?_eq hfew hsystem] at hattempt
  obtain ⟨next, hnext, hok⟩ := Option.map_eq_some_iff.mp hattempt
  exact ⟨next, hnext, hok.symm⟩

theorem Sound.exists_ringSystem? (h : Sound config valid moves machine)
    (htask : machine.tasks[index]? = some task) (hring : task.AtRing client ringMove) :
    ∃ system, machine.ringSystem? client = some system := by
  have hknown := h.known task (List.mem_of_getElem? htask) client hring.mem_clients
  obtain ⟨ring, hring⟩ := machine.site.controller.knows_iff_exists_ring?.mp hknown
  exact ⟨_, by rw [ringSystem?, hring, Option.map_some]⟩

theorem Sound.step?_ring (h : Sound config valid moves machine) (hfew : Few moves)
    (htask : machine.tasks[index]? = some task) (hring : task.AtRing client ringMove)
    (hsystem : machine.ringSystem? client = some system)
    (hstep : Ring.System.step? system ringMove = some next) (order : List String) :
    step? machine (.part index order) =
      some ((machine.setRing client next).setTask index
        (task.next machine.arithmetic next)) := by
  have hattempt : system.attempt? ringMove = some (.ok next) := by
    rw [h.attempt?_eq hfew hsystem, hstep, Option.map_some]
  simp [step?, advance?, htask, hring.ringMove?_eq, moveRing?, hsystem, hattempt]

theorem step?_part {call later : Call} {site : Site σ}
    (htask : machine.tasks[index]? = some (.free call))
    (hring : (Task.free call).ringMove? = none)
    (hpart : machine.site.part? order call = some (later, site)) :
    step? machine (.part index order) =
      some (machine.goOn index site
        (.ofResult (call.totalled? machine.arithmetic later))) := by
  simp [step?, advance?, htask, hring, part?_eq, hpart]

theorem Sound.step (h : Sound config valid moves machine) (hfew : Few moves)
    (hstep : step? machine move = some after) : Sound config valid (moves ++ [move]) after := by
  cases acts_of_step hstep with
  | request client =>
      refine h.call rfl fun name => ?_
      rcases Decidable.em (client = name) with rfl | hne
      · simp [Task.isToRecord, Task.toRecord?]
      · simp [Task.isToRecord, Task.toRecord?, hne]
  | flush => exact h.call rfl fun _ => Nat.zero_le _
  | clock clockMove =>
      exact {
        config_eq := h.config_eq
        reachable := h.reachable
        fresh := h.fresh
        room := fun client => by
          rw [List.count_append]
          exact h.room client
        known := h.known
        locked := h.locked
        overflows := h.overflows }
  | ring htask hmove hsystem hattempt =>
      obtain ⟨next, hnext, hok⟩ := h.exists_step_of_attempt? hfew hsystem hattempt
      cases hok
      exact h.ring htask (Task.atRing_of_ringMove? hmove) hsystem hnext
  | fault htask hmove hsystem hattempt =>
      obtain ⟨_, -, hok⟩ := h.exists_step_of_attempt? hfew hsystem hattempt
      cases hok
  | part htask hring hpart hsettles => exact h.part htask hring hpart hsettles

theorem sound_of_run {arithmetic : Arithmetic} {receive : Receiver σ} {sink : σ}
    {time : TimeSource} {last : Machine σ}
    (hrun : (start arithmetic (.ofConfig config valid) receive sink time).run? moves = some last)
    (hfew : Few moves) : Sound config valid moves last := by
  let Holds (moves : List System.Move) (machine : Machine σ) : Prop :=
    Few moves → Sound config valid moves machine
  have hholds : Holds moves last :=
    Steps.run_induction hrun (fun _ => sound_start config valid arithmetic receive sink time)
      fun _ _ _ hmiddle _ _ _ hstep hfew =>
        (hmiddle hfew.of_append).step hfew.of_append hstep
  exact hholds hfew

end Machine

end Turnstile.Site

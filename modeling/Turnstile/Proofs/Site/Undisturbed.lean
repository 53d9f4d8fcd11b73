import Turnstile.Proofs.Site.Conservation
import Turnstile.Proofs.Site.Overflows

/-!
Records and harvests that nobody disturbs. Their loads and stores, taken one after the other, come
to the one part that `Site.part?` makes of them, and totals are the same in words as long as there
are fewer calls than words can count. So each run over the parts of calls is also one over single
loads and stores, and what holds of all of the latter holds of the former.
-/

namespace Turnstile

namespace Controller

variable {controller : Controller} {name : String} {ring : Ring}

theorem record_eq (hring : controller.ring? name = some ring) (decision : Decision) :
    controller.record name decision =
      controller.modifyClient name fun client => { client with ring := ring.record decision } := by
  obtain ⟨client, hclient, rfl⟩ := Option.map_eq_some_iff.mp hring
  have hchange : ∀ other, controller.clients.find? name = some other →
      { other with ring := other.ring.record decision } =
        { other with ring := client.ring.record decision } := by
    intro other hother
    cases hclient.symm.trans hother
    rfl
  simp only [record, modifyClient, Index.modify_congr hchange]

theorem drain_eq (hring : controller.ring? name = some ring) :
    controller.drain name =
      (ring.harvest.1,
        controller.modifyClient name fun client => { client with ring := ring.harvest.2 }) := by
  obtain ⟨client, hclient, rfl⟩ := Option.map_eq_some_iff.mp hring
  exact controller.drain_of_some hclient

end Controller

namespace Site

/-! Calls that are fewer than words can count. -/

theorem Tallied.wrapTotals_eq {controller : Controller} {bound : Nat} {answers : List Bool}
    {reports : List FlushReport} (h : Tallied controller.metrics answers reports)
    (hanswers : answers.length ≤ bound) (hflushes : reports.length ≤ bound)
    (hreports : sumOf FlushReport.total reports ≤ bound) (hbound : bound < UInt64.size) :
    controller.wrapTotals = controller := by
  have hdelivered : sumOf FlushReport.delivered reports ≤ sumOf FlushReport.total reports :=
    sumOf_le_sumOf fun report _ => by simp only [FlushReport.total]; omega
  have hdropped : sumOf FlushReport.dropped reports ≤ sumOf FlushReport.total reports :=
    sumOf_le_sumOf fun report _ => by simp only [FlushReport.total]; omega
  have hfailures : sumOf FlushReport.failures reports ≤ sumOf FlushReport.total reports :=
    sumOf_le_sumOf fun report _ => by simp only [FlushReport.total]; omega
  have hallowed : answers.count true ≤ answers.length := List.count_le_length
  have hdenied : answers.count false ≤ answers.length := List.count_le_length
  rw [← h.allowed_eq] at hallowed
  rw [← h.denied_eq] at hdenied
  rw [← h.flushes_eq] at hflushes
  rw [← h.delivered_eq] at hdelivered
  rw [← h.dropped_eq] at hdropped
  rw [← h.failures_eq] at hfailures
  simp only [Controller.metrics] at hallowed hdenied hflushes hdelivered hdropped hfailures
  have hfits : ∀ total, total ≤ bound → total % UInt64.size = total :=
    fun total hle => Nat.mod_eq_of_lt (Nat.lt_of_le_of_lt hle hbound)
  simp only [Controller.wrapTotals]
  rw [hfits controller.allowed (by omega), hfits controller.denied (by omega),
    hfits controller.flushes hflushes, hfits controller.delivered (by omega),
    hfits controller.dropped (by omega), hfits controller.failures (by omega)]

theorem sumOf_written_le (calls : List Call) : sumOf Call.written calls ≤ calls.length := by
  induction calls with
  | nil => exact Nat.le_refl 0
  | cons call rest ih =>
      have hone : call.written ≤ 1 := by
        cases call <;> first | exact Nat.le_refl 1 | exact Nat.zero_le 1
      rw [sumOf_cons, List.length_cons, Nat.add_comm]
      exact Nat.add_le_add ih hone

theorem sumOf_reports_le (calls : List Call) :
    sumOf FlushReport.total (calls.filterMap Call.report?) ≤ sumOf Call.harvested calls := by
  induction calls with
  | nil => exact Nat.le_refl 0
  | cons call rest ih =>
      cases call with
      | reported report => exact Nat.add_le_add_left ih _
      | _ => exact Nat.le_trans ih (Nat.le_add_left ..)

theorem drained_le_part {order : List String} {site after : Site σ} {call next : Call}
    (hpart : site.part? order call = some (next, after)) (h : call.drained ≤ call.harvested) :
    next.drained ≤ next.harvested := by
  cases hmove : (Task.free call).ringMove? with
  | none =>
      obtain ⟨hharvested, hdrained⟩ := harvested_part hmove hpart
      omega
  | some next =>
      obtain ⟨client, move⟩ := next
      cases Task.atRing_of_ringMove? hmove with
      | record reading allowed =>
          cases hpart
          exact Nat.le_refl 0
      | harvest clients report =>
          simp only [part?] at hpart
          split at hpart <;> cases hpart
          · exact h
          · rename_i hfull
            exact Call.drained_le_harvested hfull h

namespace System

theorem length_calls_of_run {first last : System σ} {moves : List Move}
    (hfirst : first.calls = []) (hrun : first.run? moves = some last) :
    last.calls.length = moves.countP Move.isCall := by
  let Holds (moves : List Move) (system : System σ) : Prop :=
    system.calls.length = moves.countP Move.isCall
  have hlast : Holds moves last :=
    Steps.run_induction hrun (by simp [Holds, hfirst]) fun _ _ _ h _ _ _ hstep => by
      simp only [Holds, List.countP_append] at h ⊢
      rcases step?_eq_some_iff.mp hstep with ⟨client, rfl, rfl⟩ | ⟨rfl, rfl⟩ |
        ⟨tick, rfl, rfl⟩ | ⟨index, order, call, next, site, rfl, hcall, hpart, rfl⟩
      · simp [h, Move.isCall]
      · simp [h, Move.isCall]
      · exact h
      · simp [h, Move.isCall]
  exact hlast

theorem drained_le_of_run {first last : System σ} {moves : List Move}
    (hfirst : first.calls = []) (hrun : first.run? moves = some last) :
    ∀ call ∈ last.calls, call.drained ≤ call.harvested := by
  let Holds (system : System σ) : Prop := ∀ call ∈ system.calls, call.drained ≤ call.harvested
  have hreachable : Reachable first last := ⟨moves, hrun⟩
  have hlast : Holds last :=
    hreachable.invariant (fun call hmem => by rw [hfirst] at hmem; cases hmem)
      fun before move after h hstep call hmem => by
        rcases step?_eq_some_iff.mp hstep with ⟨client, rfl, rfl⟩ | ⟨rfl, rfl⟩ |
          ⟨tick, rfl, rfl⟩ | ⟨index, order, old, next, site, rfl, hcall, hpart, rfl⟩
        · rcases List.mem_append.mp hmem with hold | hnew
          · exact h call hold
          · rw [List.mem_singleton.mp hnew]
            exact Nat.le_refl 0
        · rcases List.mem_append.mp hmem with hold | hnew
          · exact h call hold
          · rw [List.mem_singleton.mp hnew]
            exact Nat.le_refl 0
        · exact h call hmem
        · rcases List.mem_or_eq_of_mem_set hmem with hold | rfl
          · exact h call hold
          · exact drained_le_part hpart (h old (List.mem_of_getElem? hcall))
  exact hlast

structure Fits (system : System σ) : Prop where
  wrapTotals_eq : system.site.wrapTotals = system.site
  largest_lt : ∀ call ∈ system.calls, call.largest < UInt64.size

theorem fits_of_run {config : AdmissionConfig} {valid : config.Valid} {receive : Receiver σ}
    {sink : σ} {time : TimeSource} {moves : List Move} {last : System σ}
    (hrun : (start config valid receive sink time).run? moves = some last)
    (hcalls : moves.countP Move.isCall < UInt64.size) : last.Fits := by
  have h := accounted_of_run hrun
  have hlength := length_calls_of_run rfl hrun
  have hbalance := h.balanced.balance
  have hwritten := sumOf_written_le last.calls
  have hharvested : sumOf Call.harvested last.calls ≤ last.calls.length := by omega
  have hreports := Nat.le_trans (sumOf_reports_le last.calls) hharvested
  rw [← hlength] at hcalls
  have hcontroller := h.balanced.tallied.wrapTotals_eq (List.length_filterMap_le ..)
    (List.length_filterMap_le ..) hreports hcalls
  exact {
    wrapTotals_eq := by rw [Site.wrapTotals, hcontroller]
    largest_lt := fun call hmem => by
      have hdrained := drained_le_of_run rfl hrun call hmem
      have hle := le_sumOf_of_mem Call.harvested hmem
      simp only [Call.largest]
      omega }

end System

theorem Task.AtRing.next_eq_self {task : Task} {client : String} {move : Ring.System.Move}
    {system after : Ring.System} (h : task.AtRing client move) (hlock : task.lock? ≠ none)
    (hstep : Ring.System.step? system move = some after) (arithmetic : Arithmetic) :
    task.next arithmetic system = task := by
  have hheld := h.holds_eq hstep
  cases h with
  | record reading allowed => exact absurd rfl hlock
  | harvest clients report => exact absurd rfl hlock
  | write reading allowed =>
      have hbusy : system.writer ≠ .idle := by
        simpa [holds, lock?, Holders.isHeld, Holders.ofSystem, sideOf] using hheld.symm
      exact if_neg hbusy
  | drain clients report =>
      have hbusy : system.drainer ≠ .idle := by
        simpa [holds, lock?, Holders.isHeld, Holders.ofSystem, sideOf] using hheld.symm
      exact if_neg hbusy

namespace Machine

variable {config : AdmissionConfig} {valid : config.Valid} {machine : Machine σ}
  {moves : List System.Move} {index : Nat} {task : Task} {client : String}
  {move : Ring.System.Move} {system next after : Ring.System}

def moved (machine : Machine σ) (client : String) (system : Ring.System) (index : Nat)
    (task : Task) : Machine σ :=
  (machine.setRing client system).setTask index task

theorem moved_moved (machine : Machine σ) (client : String) (first second : Ring.System)
    (index : Nat) (old new : Task) :
    (machine.moved client first index old).moved client second index new =
      machine.moved client second index new := by
  simp only [moved, setTask, setRing, Controller.modifyClient, Index.modify_modify, List.set_set,
    Function.update_idem]

theorem ringSystem?_moved (hsystem : machine.ringSystem? client = some system)
    (next : Ring.System) (index : Nat) (task : Task) :
    (machine.moved client next index task).ringSystem? client = some next := by
  have hset := ringSystem?_setRing hsystem next client
  rw [if_pos rfl] at hset
  exact hset

theorem getElem?_moved (htask : machine.tasks[index]? = some task) (client : String)
    (system : Ring.System) (new : Task) :
    (machine.moved client system index new).tasks[index]? = some new := by
  obtain ⟨hindex, -⟩ := List.getElem?_eq_some_iff.mp htask
  exact List.getElem?_set_self hindex

theorem Sound.run?_holding (h : Sound config valid moves machine) (hfew : Few moves)
    (htask : machine.tasks[index]? = some task) (hring : task.AtRing client move)
    (hlock : task.lock? ≠ none) (hsystem : machine.ringSystem? client = some system)
    {count : Nat} (hrun : system.run? (List.replicate (count + 1) move) = some after) :
    machine.run? (List.replicate (count + 1) (.part index [])) =
      some (machine.moved client after index (task.next machine.arithmetic after)) := by
  induction count generalizing machine system moves with
  | zero =>
      have hstep : Ring.System.step? system move = some after := by
        simpa using hrun
      simp [h.step?_ring hfew htask hring hsystem hstep, moved]
  | succ count ih =>
      rw [List.replicate_succ, Ring.System.run?, Steps.run?_cons] at hrun
      obtain ⟨next, hstep, hrest⟩ := Option.bind_eq_some_iff.mp hrun
      have hfirst : step? machine (.part index []) =
          some (machine.moved client next index (task.next machine.arithmetic next)) :=
        h.step?_ring hfew htask hring hsystem hstep []
      obtain ⟨later, hlater⟩ : ∃ later, Ring.System.step? next move = some later := by
        rw [List.replicate_succ, Steps.run?_cons] at hrest
        obtain ⟨later, hlater, -⟩ := Option.bind_eq_some_iff.mp hrest
        exact ⟨later, hlater⟩
      have hself := hring.next_eq_self hlock hlater machine.arithmetic
      rw [hself] at hfirst
      have hagain := ih (h.step hfew hfirst) (hfew.part index [])
        (getElem?_moved htask client next task) (ringSystem?_moved hsystem next index task) hrest
      rw [moved_moved] at hagain
      rw [List.replicate_succ, run?, Steps.run?_cons, hfirst, Option.bind_some]
      exact hagain

/-- A thread that takes a lock and keeps all others waiting until it is done. -/
theorem Sound.run?_taking (h : Sound config valid moves machine) (hfew : Few moves)
    (htask : machine.tasks[index]? = some task) {taking : Ring.System.Move}
    (hring : task.AtRing client taking) (hsystem : machine.ringSystem? client = some system)
    (hstep : Ring.System.step? system taking = some next)
    {inside : Task} (hnext : task.next machine.arithmetic next = inside)
    (hinside : inside.AtRing client move) (hlock : inside.lock? ≠ none)
    {count : Nat} (hrun : next.run? (List.replicate (count + 1) move) = some after) :
    machine.run? (.part index [] :: List.replicate (count + 1) (.part index [])) =
      some (machine.moved client after index (inside.next machine.arithmetic after)) := by
  have hfirst : step? machine (.part index []) =
      some (machine.moved client next index inside) := by
    rw [← hnext]
    exact h.step?_ring hfew htask hring hsystem hstep []
  have hrest := (h.step hfew hfirst).run?_holding (hfew.part index [])
    (getElem?_moved htask client next _) hinside hlock (ringSystem?_moved hsystem next index _) hrun
  rw [moved_moved] at hrest
  rw [run?, Steps.run?_cons, hfirst, Option.bind_some]
  exact hrest

theorem Sound.isHeld_eq_false (h : Sound config valid moves machine) {calls : List Call}
    (hfree : machine.tasks = calls.map .free) (client : String) (side : Side) :
    (machine.holders client).isHeld side = false := by
  have hnone : machine.tasks.countP (Task.holds client side) = 0 := by
    rw [hfree, List.countP_eq_zero]
    intro task htask
    obtain ⟨call, -, rfl⟩ := List.mem_map.mp htask
    exact Bool.false_ne_true
  have hlocked := h.locked client side
  rw [hnone] at hlocked
  cases hheld : (machine.holders client).isHeld side with
  | false => rfl
  | true =>
      rw [hheld] at hlocked
      cases hlocked

theorem Sound.run?_recording (h : Sound config valid moves machine) (hfew : Few moves)
    {reading : Nat} {allowed : Bool}
    (htask : machine.tasks[index]? = some (.free (.recording client reading allowed)))
    (hsystem : machine.ringSystem? client = some system) (hidle : system.writer = .idle) :
    machine.run? (List.replicate 5 (.part index [])) =
      some (machine.moved client
        { system with ring := system.ring.record (.made reading allowed) } index
        (.free (.counting client reading allowed))) := by
  have hrecord := Ring.System.run?_record system (.made reading allowed) hidle
  rw [Ring.System.run?, Steps.run?_cons] at hrecord
  obtain ⟨next, hstep, hrest⟩ := Option.bind_eq_some_iff.mp hrecord
  have hwrites : next.run? (List.replicate (3 + 1) .write) =
      some { system with ring := system.ring.record (.made reading allowed) } := hrest
  have hrun := h.run?_taking hfew htask (.record reading allowed) hsystem hstep rfl
    (.write reading allowed) nofun hwrites
  have hdone : (Task.writing client reading allowed).next machine.arithmetic
      { system with ring := system.ring.record (.made reading allowed) } =
        .free (.counting client reading allowed) := if_pos hidle
  exact hdone ▸ hrun

theorem Sound.exists_run?_visiting (h : Sound config valid moves machine) (hfew : Few moves)
    {clients : List String} {report : FlushReport}
    (htask : machine.tasks[index]? = some (.free (.visiting (client :: clients) report)))
    (hsystem : machine.ringSystem? client = some system) (hidle : system.drainer = .idle) :
    ∃ count, machine.run? (List.replicate count (.part index [])) =
      some (machine.moved client
        { system with
          ring := system.ring.harvest.2
          harvests := system.harvests ++ [system.ring.harvest.1] } index
        (Task.harvested machine.arithmetic client clients report system.ring.harvest.1)) := by
  obtain ⟨count, hharvest⟩ := Ring.System.exists_run?_harvest system hidle
  rw [Ring.System.run?, Steps.run?_cons] at hharvest
  obtain ⟨next, hstep, hrest⟩ := Option.bind_eq_some_iff.mp hharvest
  have hrun := h.run?_taking hfew htask (.harvest clients report) hsystem hstep rfl
    (.drain clients report) nofun hrest
  have hdone : (Task.draining client clients report).next machine.arithmetic
      { system with
        ring := system.ring.harvest.2
        harvests := system.harvests ++ [system.ring.harvest.1] } =
        Task.harvested machine.arithmetic client clients report system.ring.harvest.1 := by
    simp only [Task.next, hidle, if_true, List.getLastD_concat]
  exact ⟨count + 2, hdone ▸ hrun⟩

structure Mirrors (machine : Machine σ) (system : Site.System σ) : Prop where
  site_eq : machine.site = system.site
  tasks_eq : machine.tasks = system.calls.map .free

theorem Mirrors.set {coarse : Site.System σ} (h : machine.Mirrors coarse) {later : Machine σ}
    {site : Site σ} {call : Call} (hsite : later.site = site)
    (htasks : later.tasks = machine.tasks.set index (.free call)) :
    later.Mirrors { site, calls := coarse.calls.set index call } where
  site_eq := hsite
  tasks_eq := by rw [htasks, h.tasks_eq, List.map_set]

theorem Sound.exists_run?_part (h : Sound config valid moves machine) (hfew : Few moves)
    {coarse : Site.System σ} (hmirrors : machine.Mirrors coarse) {call later : Call}
    {order : List String} {site : Site σ} (hcall : coarse.calls[index]? = some call)
    (hpart : coarse.site.part? order call = some (later, site))
    (hsite : site.wrapTotals = site) (hlater : later.largest < UInt64.size) :
    ∃ (orders : List (List String)) (last : Machine σ),
      machine.run? (orders.map (.part index)) = some last ∧
        last.Mirrors { site, calls := coarse.calls.set index later } := by
  have htask : machine.tasks[index]? = some (.free call) := by
    rw [hmirrors.tasks_eq, List.getElem?_map, hcall, Option.map_some]
  rw [← hmirrors.site_eq] at hpart
  cases hmove : (Task.free call).ringMove? with
  | none =>
      have hsame := (settles_part hpart machine.arithmetic).eq_free hlater
      refine ⟨[order], machine.goOn index site (.free later), ?_, hmirrors.set hsite rfl⟩
      simp [step?_part htask hmove hpart, hsame]
  | some next =>
      obtain ⟨client, move⟩ := next
      have hring := Task.atRing_of_ringMove? hmove
      obtain ⟨system, hsystem⟩ := h.exists_ringSystem? htask hring
      obtain ⟨ring, hfound, hholders⟩ := exists_ring?_of_ringSystem? hsystem
      have hsame : system.ring = ring := by
        rw [← hholders]
        rfl
      rw [← hsame] at hfound
      have hheld := h.isHeld_eq_false hmirrors.tasks_eq client (sideOf move)
      rw [holders_of_ringSystem? hsystem] at hheld
      cases hring with
      | record reading allowed =>
          have hidle : system.writer = .idle := by
            simpa [Holders.isHeld, Holders.ofSystem, sideOf] using hheld
          have hrun := h.run?_recording hfew htask hsystem hidle
          simp only [Site.part?, Controller.record_eq hfound] at hpart
          cases hpart
          exact ⟨List.replicate 5 [], _, hrun, hmirrors.set rfl rfl⟩
      | harvest clients report =>
          have hidle : system.drainer = .idle := by
            simpa [Holders.isHeld, Holders.ofSystem, sideOf] using hheld
          obtain ⟨count, hrun⟩ := h.exists_run?_visiting hfew htask hsystem hidle
          rw [← List.map_replicate] at hrun
          simp only [Site.part?, Controller.drain_eq hfound] at hpart
          simp only [Task.harvested] at hrun
          split at hpart
          · rename_i hempty
            cases hpart
            rw [if_pos hempty] at hrun
            exact ⟨_, _, hrun, hmirrors.set rfl rfl⟩
          · rename_i hfull
            cases hpart
            have hdone : Task.ofResult (Call.totalled? machine.arithmetic
                (.visiting (client :: clients) report) (.offering client _ _ {} clients report)) =
                  .free _ :=
              (Call.Settles.offering ..).eq_free hlater
            rw [if_neg hfull, hdone] at hrun
            exact ⟨_, _, hrun, hmirrors.set rfl rfl⟩

theorem Sound.exists_run?_step (h : Sound config valid moves machine) (hfew : Few moves)
    {coarse later : Site.System σ} (hmirrors : machine.Mirrors coarse) (hfits : later.Fits)
    {coarseMove : System.Move} (hstep : System.step? coarse coarseMove = some later) :
    ∃ (finer : List System.Move) (last : Machine σ), machine.run? finer = some last ∧
      last.Mirrors later ∧
        ∀ client, finer.count (.request client) = [coarseMove].count (.request client) := by
  have hcalled : ∀ call, (machine.tasks ++ [.free call]) =
      (coarse.calls ++ [call]).map Task.free := by
    intro call
    rw [hmirrors.tasks_eq, List.map_append, List.map_singleton]
  cases coarseMove with
  | request client =>
      cases hstep
      exact ⟨[.request client], _, rfl, ⟨hmirrors.site_eq, hcalled _⟩, fun _ => rfl⟩
  | flush =>
      cases hstep
      exact ⟨[.flush], _, rfl, ⟨hmirrors.site_eq, hcalled _⟩, fun _ => rfl⟩
  | clock clockMove =>
      cases hstep
      exact ⟨[.clock clockMove], _, rfl, ⟨by rw [hmirrors.site_eq], hmirrors.tasks_eq⟩,
        fun _ => rfl⟩
  | part index order =>
      simp only [System.step?, Option.bind_eq_bind, Option.bind_eq_some_iff] at hstep
      obtain ⟨call, hcall, ⟨next, site⟩, hpart, hlater⟩ := hstep
      cases hlater
      obtain ⟨hindex, -⟩ := List.getElem?_eq_some_iff.mp hcall
      have hlargest := hfits.largest_lt next (List.mem_set hindex next)
      obtain ⟨orders, last, hrun, hlast⟩ :=
        h.exists_run?_part hfew hmirrors hcall hpart hfits.wrapTotals_eq hlargest
      refine ⟨orders.map (.part index), last, hrun, hlast, fun client => ?_⟩
      rw [List.count_eq_zero.mpr]
      · rfl
      · simp

theorem exists_run?_of_parts {arithmetic : Arithmetic} {receive : Receiver σ} {sink : σ}
    {time : TimeSource} {last : Site.System σ}
    (hrun : (System.start config valid receive sink time).run? moves = some last)
    (hfew : Few moves) (hcalls : moves.countP System.Move.isCall < UInt64.size) :
    ∃ (finer : List System.Move) (machine : Machine σ),
      (start arithmetic (.ofConfig config valid) receive sink time).run? finer = some machine ∧
        machine.Mirrors last ∧
          ∀ client, finer.count (.request client) = moves.count (.request client) := by
  let Holds (moves : List System.Move) (coarse : Site.System σ) : Prop :=
    Few moves → moves.countP System.Move.isCall < UInt64.size →
      ∃ (finer : List System.Move) (machine : Machine σ),
        (start arithmetic (.ofConfig config valid) receive sink time).run? finer = some machine ∧
          machine.Mirrors coarse ∧
            ∀ client, finer.count (.request client) = moves.count (.request client)
  have hholds : Holds moves last := by
    refine Steps.run_induction hrun (fun _ _ => ⟨[], _, rfl, ⟨rfl, rfl⟩, fun _ => rfl⟩) ?_
    intro before coarse hcoarse hbefore move _ after hstep hfew hcalls
    have hafter : (System.start config valid receive sink time).run? (before ++ [move]) =
        some after :=
      Steps.run?_append_of_run? hcoarse (by rw [Steps.run?_cons, hstep]; rfl)
    have hfits := System.fits_of_run hafter hcalls
    rw [List.countP_append] at hcalls
    obtain ⟨finer, machine, hmachine, hmirrors, hcount⟩ :=
      hbefore hfew.of_append (Nat.lt_of_le_of_lt (Nat.le_add_right ..) hcalls)
    have hsame : Few finer := fun client => hcount client ▸ hfew.of_append client
    obtain ⟨more, later, hmore, hlater, hadded⟩ :=
      (sound_of_run hmachine hsame).exists_run?_step hsame hmirrors hfits hstep
    refine ⟨finer ++ more, later, Steps.run?_append_of_run? hmachine hmore, hlater,
      fun client => ?_⟩
    rw [List.count_append, List.count_append, hcount, hadded]
  exact hholds hfew hcalls

end Machine

end Site

end Turnstile

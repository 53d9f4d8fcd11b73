import Mathlib.Data.List.Dedup
import Turnstile.Proofs.Site.Calls
import Turnstile.Proofs.Site.Ledger
import Turnstile.Proofs.Window.Judged

/-!
Requests of many threads at one site. However their parts interleave, each
client has one state from its first request on, its window judges the client's
requests one after the other at readings that never fall, and so no span of
time holds more admitted requests of a client than the limit allows.
-/

namespace Turnstile.Site.System

structure Admitting (config : AdmissionConfig) (system : System σ) (ledger : Ledger) : Prop where
  config_eq : system.site.controller.config = config
  names_eq : system.site.controller.clients.names = ledger.created
  created_nodup : ledger.created.Nodup
  entered : ∀ client, client ∈ ledger.created ↔ client ∈ system.calls.filterMap Call.entered?
  judged : ∀ client, Window.Judged config.limit config.span (ledger.judgedOf client)
    (system.site.controller.window client)
  answered : (system.calls.filterMap Call.judged?).Perm ledger.judged
  sorted : (ledger.judged.map fun request => request.2.1).Pairwise (· ≤ ·)
  latest : ∀ request ∈ ledger.judged, request.2.1 ≤ system.site.time.reading

namespace Admitting

variable {config : AdmissionConfig} {system : System σ} {ledger : Ledger}

theorem start (valid : config.Valid) (receive : Receiver σ) (sink : σ) (time : TimeSource) :
    Admitting config (start config valid receive sink time) {} where
  config_eq := rfl
  names_eq := rfl
  created_nodup := .nil
  entered := fun _ => Iff.rfl
  judged := fun _ => .start
  answered := .nil
  sorted := .nil
  latest := fun _ hmem => absurd hmem List.not_mem_nil

theorem knows_iff (h : Admitting config system ledger) (client : String) :
    system.site.controller.knows client = true ↔ client ∈ ledger.created := by
  rw [Controller.knows_iff, h.names_eq]

theorem knows_of_entered {index : Nat} {call : Call} {client : String}
    (h : Admitting config system ledger) (hcall : system.calls[index]? = some call)
    (hentered : call.entered? = some client) :
    system.site.controller.knows client = true := by
  rw [h.knows_iff, h.entered]
  exact List.mem_filterMap.mpr ⟨call, List.mem_of_getElem? hcall, hentered⟩

theorem newCall (h : Admitting config system ledger) {call : Call}
    (hentered : call.entered? = none) (hjudged : call.judged? = none) :
    Admitting config { system with calls := system.calls ++ [call] } ledger :=
  { h with
    entered := fun client => by simpa [List.filterMap_append, hentered] using h.entered client
    answered := by simpa [List.filterMap_append, hjudged] using h.answered }

theorem clock (h : Admitting config system ledger) (step : Clock.Move) :
    Admitting config { system with site := system.site.move step } ledger :=
  { h with
    latest := fun request hmem =>
      Nat.le_trans (h.latest request hmem) (system.site.time.reading_le_move step) }

theorem frame {index : Nat} {call next : Call} {site : Site σ} {after : Ledger}
    (h : Admitting config system ledger) (hcall : system.calls[index]? = some call)
    (hconfig : site.controller.config = system.site.controller.config)
    (hnames : site.controller.clients.names = system.site.controller.clients.names)
    (hwindow : ∀ client,
      site.controller.window client = system.site.controller.window client)
    (htime : site.time = system.site.time) (hcreated : after.created = ledger.created)
    (hjudgedLedger : after.judged = ledger.judged)
    (hentered : next.entered? = call.entered?) (hjudged : next.judged? = call.judged?) :
    Admitting config { site, calls := system.calls.set index next } after where
  config_eq := hconfig.trans h.config_eq
  names_eq := by rw [hnames, h.names_eq, hcreated]
  created_nodup := hcreated ▸ h.created_nodup
  entered := fun client => by
    rw [hcreated, h.entered, (filterMap_set_of_eq hcall hentered).mem_iff]
  judged := fun client => by
    simp only [Ledger.judgedOf, hjudgedLedger, hwindow]
    exact h.judged client
  answered := by
    rw [hjudgedLedger]
    exact (filterMap_set_of_eq hcall hjudged).trans h.answered
  sorted := hjudgedLedger ▸ h.sorted
  latest := by
    rw [hjudgedLedger, htime]
    exact h.latest

theorem found {index : Nat} {call : Call} {client : String}
    (h : Admitting config system ledger) (hcall : system.calls[index]? = some call)
    (hentered : call.entered? = none) (hjudged : call.judged? = none)
    (hcreated : client ∈ ledger.created) :
    Admitting config { system with calls := system.calls.set index (.judging client) }
      ledger :=
  { h with
    entered := fun other => by
      have hperm := filterMap_set_of_none hcall hentered
        (show (Call.judging client).entered? = some client from rfl)
      rw [hperm.mem_iff, List.mem_append, List.mem_singleton, h.entered]
      constructor
      · exact .inl
      · rintro (hold | rfl)
        · exact hold
        · exact (h.entered other).mp hcreated
    answered := (filterMap_set_of_eq hcall hjudged.symm).trans h.answered }

theorem created {index : Nat} {client : String} (h : Admitting config system ledger)
    (hcall : system.calls[index]? = some (.entering client))
    (hknows : system.site.controller.knows client = false) :
    Admitting config
      { site := { system.site with controller := system.site.controller.track client }
        calls := system.calls.set index (.judging client) }
      { ledger with created := ledger.created ++ [client] } := by
  have hnames := system.site.controller.names_track client
  rw [hknows, h.names_eq] at hnames
  have hnew : client ∉ ledger.created := by
    intro hmem
    rw [(h.knows_iff client).mpr hmem] at hknows
    cases hknows
  exact {
    config_eq := (system.site.controller.config_track client).trans h.config_eq
    names_eq := hnames
    created_nodup := by
      rw [List.nodup_append]
      refine ⟨h.created_nodup, List.nodup_singleton client, ?_⟩
      intro other hother single hsingle hsame
      rw [hsame, List.mem_singleton.mp hsingle] at hother
      exact hnew hother
    entered := fun other => by
      have hperm := filterMap_set_of_none hcall rfl
        (show (Call.judging client).entered? = some client from rfl)
      rw [hperm.mem_iff, List.mem_append, List.mem_append, h.entered]
    judged := fun other => by
      rw [Controller.window_track]
      exact h.judged other
    answered := by
      have hsame : (Call.judging client).judged? = (Call.entering client).judged? := rfl
      exact (filterMap_set_of_eq hcall hsame).trans h.answered
    sorted := h.sorted
    latest := h.latest }

theorem judge {index : Nat} {client : String} (h : Admitting config system ledger)
    (hcall : system.calls[index]? = some (.judging client)) :
    let reading := system.site.time.reading
    let judged := system.site.controller.judge reading client
    Admitting config
      { site := { system.site with controller := judged.2 }
        calls := system.calls.set index (.recording client reading judged.1) }
      { ledger with judged := ledger.judged ++ [(client, reading, judged.1)] } := by
  intro reading judged
  have hknows := h.knows_of_entered hcall rfl
  exact {
    config_eq := h.config_eq
    names_eq := (system.site.controller.names_judge reading client).trans h.names_eq
    created_nodup := h.created_nodup
    entered := fun other => by
      have hsame : (Call.recording client reading judged.1).entered? =
        (Call.judging client).entered? := rfl
      exact (h.entered other).trans (filterMap_set_of_eq hcall hsame).mem_iff.symm
    judged := fun other => by
      rw [Ledger.judgedOf_judge]
      split
      · rename_i hsame
        subst hsame
        have hwindow := system.site.controller.window_judge_self hknows reading
        have hanswer := system.site.controller.judge_fst reading client
        rw [h.config_eq] at hwindow hanswer
        simp only [judged, hwindow, hanswer]
        exact .allow reading (h.judged client)
      · rename_i hne
        rw [system.site.controller.window_judge_of_ne (Ne.symm hne)]
        exact h.judged other
    answered := by
      have hperm := filterMap_set_of_none hcall rfl
        (show (Call.recording client reading judged.1).judged? = some _ from rfl)
      exact hperm.trans (h.answered.append_right _)
    sorted := by
      rw [List.map_append, List.pairwise_append]
      refine ⟨h.sorted, List.pairwise_singleton .., ?_⟩
      intro earlier hearlier later hlater
      obtain ⟨request, hrequest, rfl⟩ := List.mem_map.mp hearlier
      rw [List.map_singleton, List.mem_singleton] at hlater
      rw [hlater]
      exact h.latest request hrequest
    latest := by
      intro request hrequest
      rcases List.mem_append.mp hrequest with hold | hnew
      · exact h.latest request hold
      · rw [List.mem_singleton.mp hnew] }

theorem part {index : Nat} {order : List String} {call next : Call} {site : Site σ}
    (h : Admitting config system ledger) (hcall : system.calls[index]? = some call)
    (hpart : system.site.part? order call = some (next, site)) :
    Admitting config { site, calls := system.calls.set index next }
      (ledger.add system.site index call) := by
  cases part_of_some hpart with
  | @found client hknows => exact h.found hcall rfl rfl ((h.knows_iff client).mp hknows)
  | missed hknows => exact h.frame hcall rfl rfl (fun _ => rfl) rfl rfl rfl rfl rfl
  | @enter client =>
      simp only [Ledger.add]
      cases hknows : system.site.controller.knows client with
      | true =>
          rw [Controller.track_of_knows _ hknows]
          exact h.found hcall rfl rfl ((h.knows_iff client).mp hknows)
      | false => exact h.created hcall hknows
  | judge => exact h.judge hcall
  | record =>
      exact h.frame hcall rfl (Controller.names_record ..) (fun _ => Controller.window_record ..)
        rfl rfl rfl rfl rfl
  | count =>
      refine h.frame hcall (Controller.config_count ..) ?_ (fun client => ?_) rfl rfl rfl rfl rfl
      · rw [Controller.clients_count]
      · simp only [Controller.window, Controller.client?, Controller.clients_count]
  | list horder => exact h.frame hcall rfl rfl (fun _ => rfl) rfl rfl rfl rfl rfl
  | skip hempty =>
      exact h.frame hcall (Controller.config_drain ..) (Controller.names_drain ..)
        (fun _ => Controller.window_drain ..) rfl rfl rfl rfl rfl
  | drain hfull =>
      exact h.frame hcall (Controller.config_drain ..) (Controller.names_drain ..)
        (fun _ => Controller.window_drain ..) rfl rfl rfl rfl rfl
  | offer => exact h.frame hcall rfl rfl (fun _ => rfl) rfl rfl rfl rfl rfl
  | account => exact h.frame hcall rfl rfl (fun _ => rfl) rfl rfl rfl rfl rfl
  | report =>
      refine h.frame hcall (Controller.config_countFlush ..) ?_ (fun client => ?_)
        rfl rfl rfl rfl rfl
      · rw [Controller.clients_countFlush]
      · simp only [Controller.window, Controller.client?, Controller.clients_countFlush]

theorem step {after : System σ} {move : Move} (h : Admitting config system ledger)
    (hstep : step? system move = some after) :
    Admitting config after (note system move ledger) := by
  rcases step?_eq_some_iff.mp hstep with ⟨client, rfl, rfl⟩ | ⟨rfl, rfl⟩ | ⟨tick, rfl, rfl⟩ |
    ⟨index, order, call, next, site, rfl, hcall, hpart, rfl⟩
  · exact h.newCall rfl rfl
  · exact h.newCall rfl rfl
  · exact h.clock tick
  · rw [note_part hcall]
    exact h.part hcall hpart

theorem pairwise_judgedOf (h : Admitting config system ledger) (client : String) :
    ((ledger.judgedOf client).map Prod.fst).Pairwise (· ≤ ·) := by
  have hsorted := List.pairwise_map.mp h.sorted
  rw [List.pairwise_map, Ledger.judgedOf, List.pairwise_filterMap]
  refine hsorted.imp ?_
  intro earlier later hle first hfirst second hsecond
  simp only [Option.ite_none_right_eq_some, Option.some.injEq] at hfirst hsecond
  rw [← hfirst.2, ← hsecond.2]
  exact hle

theorem countP_admittedWithin (h : Admitting config system ledger) (client : String)
    (start span : Nat) :
    system.calls.countP (Call.admittedWithin client start span) =
      Window.countWithin start span (Window.admissions (ledger.judgedOf client)) := by
  have hcalls : system.calls.countP (Call.admittedWithin client start span) =
      (system.calls.filterMap Call.judged?).countP (Call.grantsWithin client start span) := by
    rw [List.countP_filterMap]
    apply List.countP_congr
    intro call _
    simp only [Call.admittedWithin]
    cases call.judged? <;> simp
  rw [hcalls, h.answered.countP_eq]
  simp only [Window.countWithin, Window.admissions, Ledger.judgedOf, List.countP_map,
    List.countP_filter, List.countP_filterMap]
  apply List.countP_congr
  rintro ⟨requester, reading, allowed⟩ -
  by_cases hsame : requester = client
  · simp [Call.grantsWithin, hsame, and_comm]
  · simp [Call.grantsWithin, hsame]

theorem clients_eq (h : Admitting config system ledger) :
    system.site.controller.metrics.clients =
      (system.calls.filterMap Call.entered?).dedup.length := by
  have hsame : ledger.created.Perm (system.calls.filterMap Call.entered?).dedup := by
    rw [List.perm_ext_iff_of_nodup h.created_nodup (List.nodup_dedup _)]
    intro client
    rw [List.mem_dedup, h.entered]
  rw [← hsame.length_eq, ← h.names_eq]
  exact (List.length_map ..).symm

end Admitting

theorem admitting_of_run {config : AdmissionConfig} {valid : config.Valid}
    {receive : Receiver σ} {sink : σ} {time : TimeSource} {moves : List Move}
    {last : System σ} (hrun : (start config valid receive sink time).run? moves = some last) :
    Admitting config last (ledger (start config valid receive sink time) moves) :=
  Steps.history_invariant hrun (.start valid receive sink time)
    fun _ _ _ _ h hstep => h.step hstep

structure RateLimited (config : AdmissionConfig) (system : System σ) (ledger : Ledger) :
    Prop where
  /-- Each client has one state, made when a request first entered it. -/
  names_eq : system.site.controller.clients.names = ledger.created
  created_nodup : ledger.created.Nodup
  /-- That state's window has judged the client's requests, all of them and one by one. -/
  judged : ∀ client, Window.Judged config.limit config.span (ledger.judgedOf client)
    (system.site.controller.window client)
  answered : (system.calls.filterMap Call.judged?).Perm ledger.judged
  clients_eq : system.site.controller.metrics.clients =
    (system.calls.filterMap Call.entered?).dedup.length
  clients_eq_of_found : (∀ call ∈ system.calls, call.isSeeking = false) →
    system.site.controller.metrics.clients =
      (system.calls.filterMap Call.requested?).dedup.length
  within_le : ∀ client start,
    system.calls.countP (Call.admittedWithin client start config.span) ≤ config.limit
  size_le : ∀ client, system.site.controller.windowSize client ≤ config.limit

/-- Readings are free to grow: a step of the clock can take it to any later one. -/
theorem exists_step_reading_eq {system : System σ} {nanos : Nat}
    (hmanual : system.site.time.isManual = true) (hlater : system.site.time.reading ≤ nanos)
    (hfits : nanos ≤ maxNanos) :
    ∃ after, step? system (.clock (.set nanos)) = some after ∧
      after.site.time.reading = nanos := by
  refine ⟨_, rfl, ?_⟩
  simp only [Site.move]
  cases htime : system.site.time with
  | manual clock =>
      rw [htime] at hlater
      simp only [TimeSource.move, TimeSource.reading, Clock.move, Clock.set] at hlater ⊢
      omega
  | system =>
      rw [htime] at hmanual
      cases hmanual

/-- However the parts of requests and flushes interleave, and whatever the clock
shows as long as it does not go back, no span holds more admitted requests of a
client than the limit. -/
theorem rate_limited {config : AdmissionConfig} (valid : config.Valid) (receive : Receiver σ)
    (sink : σ) (time : TimeSource) {moves : List Move} {last : System σ}
    (hrun : (start config valid receive sink time).run? moves = some last) :
    config.span = min config.window.nanos (2 ^ 64 - 1) ∧
      RateLimited config last (ledger (start config valid receive sink time) moves) ∧
      ∀ nanos, last.site.time.isManual = true → last.site.time.reading ≤ nanos →
        nanos ≤ maxNanos → ∃ after, step? last (.clock (.set nanos)) = some after ∧
          after.site.time.reading = nanos := by
  have h := admitting_of_run hrun
  refine ⟨rfl, ?_, fun nanos => exists_step_reading_eq⟩
  exact {
    names_eq := h.names_eq
    created_nodup := h.created_nodup
    judged := h.judged
    answered := h.answered
    clients_eq := h.clients_eq
    clients_eq_of_found := fun hfound => by
      rw [h.clients_eq, List.filterMap_congr fun call hmem =>
        Call.entered?_eq_requested? (hfound call hmem)]
    within_le := fun client start => by
      rw [h.countP_admittedWithin]
      exact (h.judged client).countWithin_admissions_le (h.pairwise_judgedOf client) start
    size_le := fun client => (h.judged client).size_le }

/-- Two first requests of a client that both miss it, with the clock moved to
the end of the span in between. -/
def racingMoves : List Move :=
  [.request "a", .request "a", .part 0 [], .part 1 [], .part 0 [], .part 1 [], .part 0 [],
    .part 1 [], .clock (.set 10), .request "a", .part 2 [], .part 2 []]

def racing : System Sink :=
  start ⟨1, .ofParts 0 10, 2⟩ (by decide) Sink.send .null (.manual {})

theorem rate_limited_racingMoves :
    ∃ last, racing.run? racingMoves = some last ∧
      last.calls = [.recording "a" 0 true, .recording "a" 0 false, .recording "a" 10 true] ∧
      RateLimited ⟨1, .ofParts 0 10, 2⟩ last (ledger racing racingMoves) := by
  obtain ⟨last, hrun, hcalls⟩ : ∃ last, racing.run? racingMoves = some last ∧
      last.calls = [.recording "a" 0 true, .recording "a" 0 false, .recording "a" 10 true] :=
    ⟨_, rfl, rfl⟩
  exact ⟨last, hrun, hcalls, (rate_limited (by decide) Sink.send .null (.manual {}) hrun).2.1⟩

end Turnstile.Site.System

import Mathlib.Data.List.Dedup
import Turnstile.Proofs.Controller.Flush
import Turnstile.Proofs.History
import Turnstile.Proofs.Ring.Backlog
import Turnstile.Site

/-!
A site at which each call returns before the next one begins. What a flush sends
to the sink follows from the requests since the flush before it: the latest
decisions of each client, as many as its ring has room for.
-/

namespace Turnstile.Site

inductive Act
  | request (client : String)
  | flush (order : List String)
  | clock (step : Clock.Move)
  deriving DecidableEq, Repr

def flushInOrder (site : Site σ) (order : List String) : FlushReport × Site σ :=
  let flushed := site.controller.flushInOrder site.receive order site.sink
  (flushed.report, { site with controller := flushed.controller, sink := flushed.sink })

def sendings (site : Site σ) (order : List String) : List Sending :=
  (site.controller.flushInOrder site.receive.watched order (site.sink, [])).sink.2

def act? : Steps (Site σ) Act
  | site, .request client => some (site.allow client).2
  | site, .flush order =>
      if order.isPerm site.controller.clients.names then some (site.flushInOrder order).2
      else none
  | site, .clock step => some (site.move step)

abbrev run? (site : Site σ) (acts : List Act) : Option (Site σ) := Steps.run? act? site acts

def start (config : AdmissionConfig) (valid : config.Valid) (receive : Receiver σ) (sink : σ)
    (time : TimeSource) : Site σ where
  controller := .ofConfig config valid
  receive := receive
  sink := sink
  time := time

theorem exists_swept (site : Site σ) {order : List String} (hnodup : order.Nodup) :
    ∃ visited : Flush (σ × List Sending),
      Flush.Swept site.receive order
        { controller := site.controller, sink := (site.sink, []) } visited ∧
      site.flushInOrder order =
        (visited.report,
          { site with
            controller := visited.controller.countFlush visited.report
            sink := visited.sink.1 }) ∧
      site.sendings order = visited.sink.2 := by
  refine ⟨_, Flush.swept_foldl site.receive hnodup _, ?_, rfl⟩
  rw [flushInOrder,
    ← site.controller.unwatched_flushInOrder site.receive order (site.sink, [])]
  rfl

/-- What a flush of all clients leaves, and what it has sent. -/
structure Flushed (site : Site σ) (sent : List Sending) (after : Site σ) : Prop where
  config_eq : after.controller.config = site.controller.config
  time_eq : after.time = site.time
  names_eq : after.controller.clients.names = site.controller.clients.names
  window_eq : ∀ client, after.controller.window client = site.controller.window client
  ring_eq : ∀ client,
    after.controller.ring client = (site.controller.ring client).harvest.2
  sentTo_eq : ∀ client, sentTo client sent = (site.controller.ring client).harvest.1.events
  sink_eq : after.sink = sent.foldl (Sending.pass site.receive) site.sink

theorem flushed (site : Site σ) (hnodup : site.controller.clients.names.Nodup)
    {order : List String} (horder : order.Perm site.controller.clients.names) :
    Flushed site (site.sendings order) (site.flushInOrder order).2 := by
  obtain ⟨visited, hswept, hflush, hsendings⟩ :=
    site.exists_swept (horder.nodup_iff.mpr hnodup)
  obtain ⟨sent, hsent, hsink, -, hsentTo⟩ := hswept.sent
  have hsendings : site.sendings order = sent := hsendings.trans hsent
  have hunknown : ∀ client ∉ order,
      (site.controller.ring client).harvest = ({}, site.controller.ring client) := by
    intro client hmem
    rw [horder.mem_iff] at hmem
    have hclient : site.controller.client? client = none :=
      (Index.find?_eq_none_iff _ _).mpr hmem
    rw [Controller.ring_of_none _ hclient, Controller.harvest_newClient]
  rw [hflush, hsendings]
  exact {
    config_eq := (Controller.config_countFlush ..).trans hswept.config_eq
    time_eq := rfl
    names_eq := by
      rw [Controller.clients_countFlush]
      exact hswept.names_eq
    window_eq := fun client => (Controller.window_countFlush ..).trans (hswept.window_eq client)
    ring_eq := by
      intro client
      rw [Controller.ring_countFlush, hswept.ring_eq]
      split
      · rfl
      · rename_i hmem
        rw [hunknown client hmem]
    sentTo_eq := by
      intro client
      rw [hsentTo]
      split
      · rfl
      · rename_i hmem
        rw [hunknown client hmem]
    sink_eq := hsink }

theorem receive_act {site after : Site σ} {act : Act} (hact : act? site act = some after) :
    after.receive = site.receive := by
  cases act with
  | request client =>
      cases hact
      rfl
  | flush order =>
      simp only [act?, Option.ite_none_right_eq_some, Option.some.injEq] at hact
      rw [← hact.2]
      rfl
  | clock step =>
      cases hact
      rfl

theorem receive_of_run {first last : Site σ} {acts : List Act}
    (hrun : first.run? acts = some last) : last.receive = first.receive := by
  have hreachable : Steps.Reachable act? first last := ⟨acts, hrun⟩
  have hkept (before : Site σ) (act : Act) (after : Site σ)
      (hbefore : before.receive = first.receive) (hact : act? before act = some after) :
      after.receive = first.receive := (receive_act hact).trans hbefore
  refine hreachable.invariant ?_ hkept
  rfl

/-! What has been answered and sent. -/

inductive Entry
  | answered (client : String) (reading : Nat) (allowed : Bool)
  | flushed (report : FlushReport) (sent : List Sending)
  deriving DecidableEq, Repr

namespace Entry

def requester? : Entry → Option String
  | .answered client _ _ => some client
  | .flushed _ _ => none

def decided? (client : String) : Entry → Option Decision
  | .answered other reading allowed =>
      if other = client then some (.made reading allowed) else none
  | .flushed _ _ => none

def sentTo (client : String) : Entry → List Decision
  | .answered .. => []
  | .flushed _ sent => Turnstile.sentTo client sent

end Entry

def clients (log : List Entry) : List String := (log.filterMap Entry.requester?).dedup

def decisions (client : String) (log : List Entry) : List Decision :=
  log.filterMap (Entry.decided? client)

def unflushed (client : String) (log : List Entry) : List Decision :=
  decisions client (log.rtakeWhile fun entry => entry.requester?.isSome)

def offered (client : String) (log : List Entry) : List Decision :=
  log.flatMap (Entry.sentTo client)

def entries (site : Site σ) : Act → List Entry
  | .request client => [.answered client site.time.reading (site.allow client).1]
  | .flush order => [.flushed (site.flushInOrder order).1 (site.sendings order)]
  | .clock _ => []

def note (site : Site σ) (act : Act) (log : List Entry) : List Entry := log ++ site.entries act

def log (first : Site σ) (acts : List Act) : List Entry := Steps.history act? note [] first acts

section Log

variable (client : String) (log : List Entry)

theorem mem_clients_answered (other : String) (reading : Nat) (allowed : Bool) :
    client ∈ clients (log ++ [.answered other reading allowed]) ↔
      client ∈ clients log ∨ client = other := by
  simp [clients, Entry.requester?]

theorem clients_flushed (report : FlushReport) (sent : List Sending) :
    clients (log ++ [.flushed report sent]) = clients log := by
  rw [clients, List.filterMap_append, List.filterMap_cons_none rfl, List.filterMap_nil,
    List.append_nil]
  rfl

theorem decisions_answered_self (reading : Nat) (allowed : Bool) :
    decisions client (log ++ [.answered client reading allowed]) =
      decisions client log ++ [.made reading allowed] := by
  simp [decisions, Entry.decided?]

theorem decisions_answered_of_ne {other : String} (hne : client ≠ other) (reading : Nat)
    (allowed : Bool) :
    decisions client (log ++ [.answered other reading allowed]) = decisions client log := by
  simp [decisions, Entry.decided?, hne.symm]

theorem decisions_flushed (report : FlushReport) (sent : List Sending) :
    decisions client (log ++ [.flushed report sent]) = decisions client log := by
  simp [decisions, Entry.decided?]

theorem unflushed_answered_self (reading : Nat) (allowed : Bool) :
    unflushed client (log ++ [.answered client reading allowed]) =
      unflushed client log ++ [.made reading allowed] := by
  rw [unflushed, List.rtakeWhile_concat_pos _ _ _ rfl, decisions_answered_self]
  rfl

theorem unflushed_answered_of_ne {other : String} (hne : client ≠ other) (reading : Nat)
    (allowed : Bool) :
    unflushed client (log ++ [.answered other reading allowed]) = unflushed client log := by
  rw [unflushed, List.rtakeWhile_concat_pos _ _ _ rfl, decisions_answered_of_ne client _ hne]
  rfl

theorem unflushed_flushed (report : FlushReport) (sent : List Sending) :
    unflushed client (log ++ [.flushed report sent]) = [] := by
  rw [unflushed, List.rtakeWhile_concat_neg _ _ _ (by simp [Entry.requester?])]
  rfl

theorem offered_answered (other : String) (reading : Nat) (allowed : Bool) :
    offered client (log ++ [.answered other reading allowed]) = offered client log := by
  simp [offered, Entry.sentTo]

theorem offered_flushed (report : FlushReport) (sent : List Sending) :
    offered client (log ++ [.flushed report sent]) =
      offered client log ++ sentTo client sent := by
  simp [offered, Entry.sentTo]

theorem map_kept_rtake_unflushed (count : Nat) :
    ((unflushed client log).rtake count).map Decision.kept =
      (unflushed client log).rtake count := by
  apply (List.map_congr_left ?_).trans (List.map_id _)
  intro decision hmem
  obtain ⟨entry, -, hdecided⟩ := List.mem_filterMap.mp (List.mem_of_mem_drop hmem)
  cases entry with
  | answered other reading allowed =>
      simp only [Entry.decided?, Option.ite_none_right_eq_some, Option.some.injEq] at hdecided
      rw [← hdecided.2]
      exact Decision.ofWord_toWord_made reading allowed
  | flushed report sent => cases hdecided

end Log

/-- A flush sends the latest decisions since the flush before, and reports how
many clients had any, how many decisions came too late, and how the others fared. -/
structure Exact (capacity : Nat) (past : List Entry) (report : FlushReport)
    (sent : List Sending) : Prop where
  sentTo_eq : ∀ client, sentTo client sent = (unflushed client past).rtake capacity
  clients_eq : report.clients = (clients past).countP fun client => unflushed client past ≠ []
  dropped_eq : report.dropped =
    sumOf (fun client => (unflushed client past).length - capacity) (clients past)
  delivered_eq : report.delivered = sent.countP Sending.isDelivered
  tried_eq : report.delivered + report.failures =
    sumOf (fun client => min (unflushed client past).length capacity) (clients past)

/-- Where a site stands after the calls of a log. -/
structure Standing (config : AdmissionConfig) (site : Site σ) (log : List Entry) : Prop where
  config_eq : site.controller.config = config
  nodup : site.controller.clients.names.Nodup
  mem_names : ∀ client, client ∈ site.controller.clients.names ↔ client ∈ clients log
  capacity_eq : ∀ client, (site.controller.ring client).capacity = config.capacity
  awaits : ∀ client, (site.controller.ring client).Awaits (unflushed client log)
  offered : ∀ client, ∃ accounted, decisions client log = accounted ++ unflushed client log ∧
    (offered client log).Sublist accounted

namespace Standing

variable {config : AdmissionConfig} {site : Site σ} {log : List Entry}

theorem start (valid : config.Valid) (receive : Receiver σ) (sink : σ) (time : TimeSource) :
    Standing config (start config valid receive sink time) [] where
  config_eq := rfl
  nodup := .nil
  mem_names := fun _ => Iff.rfl
  capacity_eq := fun _ => Ring.capacity_ofCapacity config.capacity valid.capacity_pos
  awaits := fun _ => .start config.capacity valid.capacity_pos
  offered := fun _ => ⟨[], rfl, .slnil⟩

theorem request (h : Standing config site log) (client : String) :
    Standing config (site.allow client).2
      (log ++ [.answered client site.time.reading (site.allow client).1]) where
  config_eq := (Controller.config_allow ..).trans h.config_eq
  nodup := Controller.nodup_names_allow _ h.nodup _ _
  mem_names := by
    intro other
    have hnames := site.controller.names_allow site.time.reading client
    rw [mem_clients_answered, ← h.mem_names]
    simp only [allow, hnames]
    split
    · rename_i hknows
      rw [Controller.knows_iff] at hknows
      exact ⟨.inl, fun hmem => hmem.elim id fun hsame => hsame ▸ hknows⟩
    · rw [List.mem_append, List.mem_singleton]
  capacity_eq := by
    intro other
    rcases Decidable.em (other = client) with rfl | hne
    · simp only [allow, Controller.ring_allow_self, Ring.capacity_record]
      exact h.capacity_eq other
    · simp only [allow, Controller.ring_allow_of_ne _ hne]
      exact h.capacity_eq other
  awaits := by
    intro other
    rcases Decidable.em (other = client) with rfl | hne
    · rw [unflushed_answered_self]
      simp only [allow, Controller.ring_allow_self]
      exact (h.awaits other).record _
    · rw [unflushed_answered_of_ne _ _ hne]
      simp only [allow, Controller.ring_allow_of_ne _ hne]
      exact h.awaits other
  offered := by
    intro other
    obtain ⟨accounted, hdecisions, hoffered⟩ := h.offered other
    refine ⟨accounted, ?_, (offered_answered ..).symm ▸ hoffered⟩
    rcases Decidable.em (other = client) with rfl | hne
    · rw [decisions_answered_self, unflushed_answered_self, hdecisions, List.append_assoc]
    · rw [decisions_answered_of_ne _ _ hne, unflushed_answered_of_ne _ _ hne, hdecisions]

theorem harvest_fst (h : Standing config site log) (client : String) :
    (site.controller.ring client).harvest.1 =
      { events := (unflushed client log).rtake config.capacity
        dropped := (unflushed client log).length - config.capacity } := by
  rw [(h.awaits client).harvest_fst, h.capacity_eq, map_kept_rtake_unflushed]

theorem perm_clients (h : Standing config site log) :
    site.controller.clients.names.Perm (clients log) :=
  (List.perm_ext_iff_of_nodup h.nodup (List.nodup_dedup _)).mpr h.mem_names

theorem exact (h : Standing config site log) {order : List String}
    (horder : order.Perm site.controller.clients.names) :
    Exact config.capacity log (site.flushInOrder order).1 (site.sendings order) := by
  have hflushed := site.flushed h.nodup horder
  have hclients := horder.trans h.perm_clients
  obtain ⟨visited, hswept, hflush, hsendings⟩ :=
    site.exists_swept (horder.nodup_iff.mpr h.nodup)
  obtain ⟨sent, hsent, -, hdelivered, -⟩ := hswept.sent
  rw [hflush]
  exact {
    sentTo_eq := fun client => by rw [hflushed.sentTo_eq, h.harvest_fst]
    clients_eq := by
      rw [hswept.clients_eq, hclients.countP_eq, Nat.zero_add]
      apply List.countP_congr
      intro client _
      simp [(h.awaits client).isEmpty_harvest]
    dropped_eq := by
      rw [hswept.dropped_eq, sumOf_perm _ hclients, Nat.zero_add]
      exact sumOf_congr fun client _ => by rw [h.harvest_fst]
    delivered_eq := by
      rw [hsendings, hsent, hdelivered, Nat.zero_add]
      rfl
    tried_eq := by
      rw [hswept.tried_eq, sumOf_perm _ hclients]
      simp only [Nat.zero_add]
      apply sumOf_congr
      intro client _
      rw [h.harvest_fst, List.rtake, List.length_drop]
      omega }

theorem flush (h : Standing config site log) {order : List String}
    (horder : order.Perm site.controller.clients.names) :
    Standing config (site.flushInOrder order).2
      (log ++ [.flushed (site.flushInOrder order).1 (site.sendings order)]) := by
  have hflushed := site.flushed h.nodup horder
  exact {
    config_eq := hflushed.config_eq.trans h.config_eq
    nodup := hflushed.names_eq ▸ h.nodup
    mem_names := by
      intro client
      rw [hflushed.names_eq, clients_flushed]
      exact h.mem_names client
    capacity_eq := by
      intro client
      rw [hflushed.ring_eq, Ring.capacity_harvest]
      exact h.capacity_eq client
    awaits := by
      intro client
      rw [hflushed.ring_eq, unflushed_flushed]
      exact (h.awaits client).harvest
    offered := by
      intro client
      obtain ⟨accounted, hdecisions, hoffered⟩ := h.offered client
      refine ⟨accounted ++ unflushed client log, ?_, ?_⟩
      · rw [decisions_flushed, unflushed_flushed, hdecisions, List.append_nil]
      · rw [offered_flushed, hflushed.sentTo_eq, h.harvest_fst]
        exact hoffered.append (List.drop_sublist ..) }

theorem act {after : Site σ} {act : Act} (h : Standing config site log)
    (hact : act? site act = some after) : Standing config after (note site act log) := by
  cases act with
  | request client =>
      cases hact
      exact h.request client
  | flush order =>
      simp only [act?, Option.ite_none_right_eq_some, Option.some.injEq] at hact
      obtain ⟨hperm, rfl⟩ := hact
      exact h.flush (List.isPerm_iff.mp hperm)
  | clock step =>
      cases hact
      rw [note, entries, List.append_nil]
      exact { h with }

theorem offered_sublist (h : Standing config site log) (client : String) :
    (Site.offered client log).Sublist (decisions client log) := by
  obtain ⟨accounted, hdecisions, hoffered⟩ := h.offered client
  rw [hdecisions]
  exact hoffered.trans (List.sublist_append_left ..)

end Standing

theorem standing_of_run {config : AdmissionConfig} {valid : config.Valid} {receive : Receiver σ}
    {sink : σ} {time : TimeSource} {acts : List Act} {last : Site σ}
    (hrun : (start config valid receive sink time).run? acts = some last) :
    Standing config last (log (start config valid receive sink time) acts) :=
  Steps.history_invariant hrun (.start valid receive sink time)
    fun _ _ _ _ h hact => h.act hact

end Turnstile.Site

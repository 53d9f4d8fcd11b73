import Turnstile.Proofs.Site.Offers

/-!
No decision is lost or counted twice between a request and the reports of the
flushes. Whatever requests and flushes did before, a flush that runs alone once
they are over leaves nothing unread, and then the reports add up to the requests.
-/

namespace Turnstile.Site

/-! A flush that nothing disturbs. -/

/-- What a flush has seen to by the time it stands at this part. -/
def Call.Swept (controller : Controller) : Call → Prop
  | .listing => True
  | .visiting clients _ | .offering _ _ _ _ clients _ =>
      ∀ client, client ∉ clients → (controller.ring client).unread = 0
  | .reported _ => ∀ client, (controller.ring client).unread = 0
  | .finding _ | .entering _ | .judging _ | .recording .. | .counting .. | .answered .. => False

theorem Call.Swept.drain {controller : Controller} {client : String} {clients : List String}
    {report : FlushReport} (h : Swept controller (.visiting (client :: clients) report)) :
    ∀ other, other ∉ clients → ((controller.drain client).2.ring other).unread = 0 := by
  intro other hother
  rcases Decidable.em (other = client) with rfl | hne
  · rw [Controller.ring_drain_self, Ring.unread_harvest]
  · rw [Controller.ring_drain_of_ne _ hne]
    exact h other (List.not_mem_cons_of_ne_of_not_mem hne hother)

theorem Call.Swept.part {order : List String} {call next : Call} {site after : Site σ}
    (h : call.Swept site.controller) (hpart : site.part? order call = some (next, after)) :
    next.Swept after.controller := by
  cases part_of_some hpart with
  | list horder =>
      intro client hclient
      have hunknown : client ∉ site.controller.clients.names := by rwa [← horder.mem_iff]
      rw [Controller.ring_of_none _ ((Index.find?_eq_none_iff _ client).mpr hunknown)]
      exact site.controller.unread_newClient
  | skip hempty => exact h.drain
  | drain hfull => exact h.drain
  | offer => exact h
  | account => exact h
  | report =>
      intro client
      rw [Controller.ring_countFlush]
      exact h client List.not_mem_nil
  | found | missed | enter | judge | record | count => exact h.elim

theorem part?_of_isFinished {call : Call} (hfinished : call.isFinished = true)
    (order : List String) (site : Site σ) : site.part? order call = none := by
  cases call <;> first | rfl | cases hfinished

namespace System

def isQuiet (system : System σ) : Bool := system.calls.all Call.isFinished

abbrev answers (system : System σ) : List Bool := system.calls.filterMap Call.answer?

abbrev reports (system : System σ) : List FlushReport := system.calls.filterMap Call.report?

def Move.isCall : Move → Bool
  | .request _ | .flush => true
  | .clock _ | .part .. => false

/-- A flush that goes from its beginning to its end with no other call under way. -/
structure FlushedAlone (quiet : System σ) (later : List Move) (last : System σ) : Prop where
  run : quiet.run? (.flush :: later) = some last
  alone : ∀ move ∈ later, move.isCall = false
  isQuiet : last.isQuiet = true

def Sweeping (finished : List Call) (system : System σ) : Prop :=
  ∃ flush, system.calls = finished ++ [flush] ∧ flush.Swept system.site.controller

theorem Sweeping.step {finished : List Call} {system after : System σ} {move : Move}
    (hfinished : ∀ other ∈ finished, other.isFinished = true) (h : Sweeping finished system)
    (hmove : move.isCall = false) (hstep : step? system move = some after) :
    Sweeping finished after := by
  obtain ⟨flush, hcalls, hswept⟩ := h
  rcases step?_eq_some_iff.mp hstep with ⟨client, rfl, rfl⟩ | ⟨rfl, rfl⟩ | ⟨tick, rfl, rfl⟩ |
    ⟨index, order, call, next, site, rfl, hcall, hpart, rfl⟩
  · cases hmove
  · cases hmove
  · exact ⟨flush, hcalls, hswept⟩
  · rw [hcalls, List.getElem?_append] at hcall
    split at hcall
    · have hover := hfinished call (List.mem_of_getElem? hcall)
      rw [part?_of_isFinished hover] at hpart
      cases hpart
    · obtain ⟨hlast, hsame⟩ := List.getElem?_eq_some_iff.mp hcall
      simp only [List.length_singleton] at hlast
      have hindex : index = finished.length := by omega
      subst hindex
      simp only [Nat.sub_self, List.getElem_singleton] at hsame
      subst hsame
      refine ⟨next, ?_, hswept.part hpart⟩
      rw [hcalls, List.set_append_right _ _ (Nat.le_refl _), Nat.sub_self]
      rfl

theorem sweeping_of_run {finished : List Call} {system last : System σ} {later : List Move}
    (hfinished : ∀ other ∈ finished, other.isFinished = true)
    (halone : ∀ move ∈ later, move.isCall = false) (h : Sweeping finished system)
    (hrun : system.run? later = some last) : Sweeping finished last := by
  induction later generalizing system with
  | nil =>
      cases hrun
      exact h
  | cons move rest ih =>
      simp only [run?, Steps.run?_cons, Option.bind_eq_some_iff] at hrun
      obtain ⟨next, hstep, hrest⟩ := hrun
      have hnext := h.step hfinished (halone move List.mem_cons_self) hstep
      exact ih (fun other hmem => halone other (List.mem_cons_of_mem move hmem)) hnext hrest

def CanReport (finished : List Call) (site : Site σ) (call : Call) : Prop :=
  ∃ later last report, (∀ move ∈ later, ∃ order, move = .part finished.length order) ∧
    run? { site, calls := finished ++ [call] } later = some last ∧
    last.calls = finished ++ [.reported report]

theorem CanReport.part {finished : List Call} (order : List String) {call next : Call}
    {site after : Site σ} (hpart : site.part? order call = some (next, after))
    (h : CanReport finished after next) : CanReport finished site call := by
  obtain ⟨later, last, report, halone, hrun, hlast⟩ := h
  refine ⟨.part finished.length order :: later, last, report, ?_, ?_, hlast⟩
  · intro move hmem
    rcases List.mem_cons.mp hmem with rfl | hrest
    · exact ⟨order, rfl⟩
    · exact halone move hrest
  · have hstep : step? { site, calls := finished ++ [call] } (.part finished.length order) =
        some { site := after, calls := finished ++ [next] } := by
      simp [step?, hpart]
    rw [run?, Steps.run?_cons, hstep]
    exact hrun

theorem canReport_offering {finished : List Call} {client : String} {dropped : Nat}
    {clients : List String}
    (h : ∀ (site : Site σ) report, CanReport finished site (.visiting clients report))
    (decisions : List Decision) (outcome : Offering) (report : FlushReport) (site : Site σ) :
    CanReport finished site (.offering client dropped decisions outcome clients report) := by
  induction decisions generalizing outcome site with
  | nil => exact .part [] rfl (h _ _)
  | cons decision decisions ih => exact .part [] rfl (ih _ _)

theorem canReport_visiting (finished : List Call) (clients : List String)
    (report : FlushReport) (site : Site σ) :
    CanReport finished site (.visiting clients report) := by
  induction clients generalizing report site with
  | nil =>
      refine .part [] rfl ?_
      exact ⟨[], _, report, fun _ hmem => absurd hmem List.not_mem_nil, rfl, rfl⟩
  | cons client clients ih =>
      cases hempty : (site.controller.drain client).1.isEmpty with
      | true =>
          refine .part [] (by simp only [part?, hempty, if_true]; rfl) ?_
          exact ih report _
      | false =>
          refine .part []
            (by simp only [part?, hempty, Bool.false_eq_true, if_false]; rfl) ?_
          exact canReport_offering (fun site report => ih report site) _ _ _ _

theorem exists_reported (before : System σ) :
    ∃ later last report, (∀ move ∈ later, ∃ order, move = .part before.calls.length order) ∧
      before.run? (.flush :: later) = some last ∧
      last.calls = before.calls ++ [.reported report] := by
  have hlist : before.site.part? before.site.controller.clients.names .listing =
      some (.visiting before.site.controller.clients.names {}, before.site) := by
    simp [part?, List.isPerm_iff]
  exact CanReport.part _ hlist (canReport_visiting before.calls _ {} before.site)

/-- A flush that runs alone comes to its end, whatever the sink does. -/
theorem exists_flushedAlone {quiet : System σ} (hquiet : quiet.isQuiet = true) :
    ∃ later last, FlushedAlone quiet later last := by
  obtain ⟨later, last, report, halone, hrun, hcalls⟩ := quiet.exists_reported
  refine ⟨later, last, hrun, ?_, ?_⟩
  · intro move hmem
    obtain ⟨order, rfl⟩ := halone move hmem
    rfl
  · simp only [isQuiet, hcalls, List.all_append, Bool.and_eq_true]
    exact ⟨hquiet, rfl⟩

theorem FlushedAlone.unread_eq_zero {quiet last : System σ} {later : List Move}
    (h : FlushedAlone quiet later last) (hquiet : quiet.isQuiet = true) (client : String) :
    (last.site.controller.ring client).unread = 0 := by
  have hrun := h.run
  simp only [run?, Steps.run?_cons, step?, Option.bind_some] at hrun
  obtain ⟨flush, hcalls, hswept⟩ := sweeping_of_run (List.all_eq_true.mp hquiet) h.alone
    ⟨.listing, rfl, trivial⟩ hrun
  have hfinished : flush.isFinished = true := by
    apply List.all_eq_true.mp h.isQuiet
    rw [hcalls]
    exact List.mem_append_right _ List.mem_cons_self
  cases flush with
  | reported report => exact hswept client
  | answered client reading allowed => exact hswept.elim
  | finding client => cases hfinished
  | entering client => cases hfinished
  | judging client => cases hfinished
  | recording client reading allowed => cases hfinished
  | counting client reading allowed => cases hfinished
  | listing => cases hfinished
  | visiting clients report => cases hfinished
  | offering client dropped decisions outcome clients report => cases hfinished

/-! Sums over calls that have returned. -/

theorem sumOf_written {calls : List Call} (h : ∀ call ∈ calls, call.isFinished = true) :
    sumOf Call.written calls = calls.countP Call.isRequest := by
  induction calls with
  | nil => rfl
  | cons call rest ih =>
      have hcall := Call.written_of_isFinished (h call List.mem_cons_self)
      have hrest := ih fun other hmem => h other (List.mem_cons_of_mem call hmem)
      rw [sumOf_cons, hcall, hrest, List.countP_cons]
      cases call.isRequest <;> simp [Nat.add_comm]

theorem sumOf_harvested {calls : List Call} (h : ∀ call ∈ calls, call.isFinished = true) :
    sumOf Call.harvested calls = sumOf FlushReport.total (calls.filterMap Call.report?) := by
  induction calls with
  | nil => rfl
  | cons call rest ih =>
      have hcall := Call.harvested_of_isFinished (h call List.mem_cons_self)
      have hrest := ih fun other hmem => h other (List.mem_cons_of_mem call hmem)
      rw [sumOf_cons, hcall, hrest]
      cases hreport : call.report? with
      | none => simp [hreport]
      | some report => simp [hreport]

structure Accounted (config : AdmissionConfig) (receive : Receiver σ) (sink : σ)
    (system : System σ) (ledger : Ledger) : Prop where
  admitting : Admitting config system ledger
  balanced : Balanced system ledger
  offersOnce : OffersOnce system ledger
  sent : Sent receive sink system ledger

theorem accounted_of_run {config : AdmissionConfig} {valid : config.Valid}
    {receive : Receiver σ} {sink : σ} {time : TimeSource} {moves : List Move}
    {last : System σ} (hrun : (start config valid receive sink time).run? moves = some last) :
    Accounted config receive sink last
      (ledger (start config valid receive sink time) moves) :=
  Steps.history_invariant hrun
    ⟨.start valid receive sink time, .start valid receive sink time, .nil _ _, ⟨rfl, rfl⟩⟩
    fun _ _ _ _ h hstep => ⟨h.admitting.step hstep, h.balanced.step h.admitting hstep,
      h.offersOnce.step h.balanced hstep, h.sent.step hstep⟩

structure Conserved (receive : Receiver σ) (sink : σ) (system : System σ) (ledger : Ledger) :
    Prop where
  requests_eq : sumOf FlushReport.total system.reports = system.calls.countP Call.isRequest
  tallied : Tallied system.site.controller.metrics system.answers system.reports
  pending_eq : ∀ client, system.site.controller.pending client = 0
  offered_subperm : ∀ client, (ledger.offeredTo client).Subperm (ledger.recordedOf client)
  offers_nodup : (ledger.offers.map Offer.key).Nodup
  sent : Sent receive sink system ledger

theorem telemetry_conserved {config : AdmissionConfig} (valid : config.Valid)
    (receive : Receiver σ) (sink : σ) (time : TimeSource) {before : List Move}
    {quiet : System σ} (hrun : (start config valid receive sink time).run? before = some quiet)
    (hquiet : quiet.isQuiet = true) :
    (∃ later last, FlushedAlone quiet later last) ∧
      ∀ later last, FlushedAlone quiet later last →
        Conserved receive sink last
          (ledger (start config valid receive sink time) (before ++ .flush :: later)) := by
  refine ⟨exists_flushedAlone hquiet, ?_⟩
  intro later last hflush
  have h := accounted_of_run (Steps.run?_append_of_run? hrun hflush.run)
  have hfinished := List.all_eq_true.mp hflush.isQuiet
  have hread := hflush.unread_eq_zero hquiet
  have hnames : last.site.controller.clients.names.Nodup :=
    h.admitting.names_eq ▸ h.admitting.created_nodup
  have hbalance := h.balanced.balance
  rw [last.site.controller.unread_eq_zero hnames hread, Nat.zero_add, sumOf_written hfinished,
    sumOf_harvested hfinished] at hbalance
  exact {
    requests_eq := hbalance
    tallied := h.balanced.tallied
    pending_eq := fun client => by
      rw [Controller.pending_eq, Ring.pending_eq_zero (hread client)]
    offered_subperm := h.offersOnce.offeredTo_subperm
    offers_nodup := h.offersOnce.nodup_offers
    sent := h.sent }

def panicking : System Unit :=
  start ⟨1, .ofParts 0 10, 1⟩ (by decide)
    (fun _ _ decision => (⟨cond decision.allowed .delivered (.panicked "boom"), []⟩, ()))
    () .system

def overtakenMoves : List Move :=
  [.request "a", .part 0 [], .part 0 [], .part 0 [], .part 0 [], .part 0 [],
    .request "a", .part 1 [], .part 1 [], .part 1 [], .part 1 [],
    .flush, .part 2 ["a"],
    .request "b", .part 3 [], .part 3 [], .part 3 [], .part 3 [], .part 3 [],
    .part 2 [], .part 2 [], .part 2 [], .part 2 []]

def closingMoves : List Move :=
  [.part 4 ["a", "b"], .part 4 [], .part 4 [], .part 4 [], .part 4 [], .part 4 []]

theorem telemetry_conserved_overtakenMoves :
    ∃ quiet last, panicking.run? overtakenMoves = some quiet ∧
      FlushedAlone quiet closingMoves last ∧
      last.reports = [⟨1, 0, 1, 1⟩, ⟨1, 1, 0, 0⟩] ∧
      Conserved panicking.site.receive () last
        (ledger panicking (overtakenMoves ++ .flush :: closingMoves)) := by
  obtain ⟨quiet, last, hrun, hquiet, hflush, hreports⟩ :
      ∃ quiet last, panicking.run? overtakenMoves = some quiet ∧ quiet.isQuiet = true ∧
        FlushedAlone quiet closingMoves last ∧
        last.reports = [⟨1, 0, 1, 1⟩, ⟨1, 1, 0, 0⟩] :=
    ⟨_, _, rfl, rfl, ⟨rfl, by decide, rfl⟩, rfl⟩
  refine ⟨quiet, last, hrun, hflush, hreports, ?_⟩
  exact (telemetry_conserved (by decide) _ () .system hrun hquiet).2 _ _ hflush

end System

end Turnstile.Site

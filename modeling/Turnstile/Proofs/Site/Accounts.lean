import Turnstile.Proofs.Site.Conservation

/-!
How many decisions there are, and what has become of them. Each was recorded by one
request, and after a flush that ran alone each was offered to the sink, or dropped.
-/

namespace Turnstile.Site

def Call.offered : Call → Nat
  | .visiting _ report | .reported report => report.harvested
  | .offering _ _ _ outcome _ report => report.harvested + (outcome.delivered + outcome.failures)
  | .finding _ | .entering _ | .judging _ | .recording .. | .counting .. | .answered ..
  | .listing => 0

theorem Call.offered_of_isFinished {call : Call} (h : call.isFinished = true) :
    call.offered = (call.report?.map FlushReport.harvested).getD 0 := by
  cases call <;> first | rfl | cases h

namespace System

structure Enumerated (system : System σ) (ledger : Ledger) : Prop where
  recorded_eq : ledger.recorded.length = sumOf Call.written system.calls
  offers_eq : ledger.offers.length = sumOf Call.offered system.calls

namespace Enumerated

variable {system after : System σ} {ledger later : Ledger} {index : Nat} {call next : Call}
  {site : Site σ}

theorem newCall (h : Enumerated system ledger) {call : Call} (hwritten : call.written = 0)
    (hoffered : call.offered = 0) :
    Enumerated { system with calls := system.calls ++ [call] } ledger where
  recorded_eq := by
    rw [sumOf_append, sumOf_cons, hwritten]
    exact h.recorded_eq
  offers_eq := by
    rw [sumOf_append, sumOf_cons, hoffered]
    exact h.offers_eq

theorem set (h : Enumerated system ledger) (hcall : system.calls[index]? = some call)
    (hrecorded : later.recorded.length + call.written = ledger.recorded.length + next.written)
    (hoffers : later.offers.length + call.offered = ledger.offers.length + next.offered) :
    Enumerated { site, calls := system.calls.set index next } later where
  recorded_eq := by
    have hsum := sumOf_set Call.written next hcall
    have hbefore := h.recorded_eq
    change later.recorded.length = sumOf Call.written (system.calls.set index next)
    omega
  offers_eq := by
    have hsum := sumOf_set Call.offered next hcall
    have hbefore := h.offers_eq
    change later.offers.length = sumOf Call.offered (system.calls.set index next)
    omega

theorem part {order : List String} (h : Enumerated system ledger)
    (hcall : system.calls[index]? = some call)
    (hpart : system.site.part? order call = some (next, site)) :
    Enumerated { site, calls := system.calls.set index next }
      (ledger.add system.site index call) := by
  cases part_of_some hpart with
  | @enter client =>
      obtain ⟨created, hadd⟩ := ledger.exists_add_entering system.site index client
      rw [hadd]
      exact h.set hcall rfl rfl
  | record => exact h.set hcall (by simp [Ledger.add, Call.written]) rfl
  | offer =>
      refine h.set hcall rfl ?_
      simp only [Ledger.add, Ledger.offer, Ledger.setUpcoming, Call.offered,
        List.length_append, List.length_singleton, Offering.delivered_add_failures_add]
      omega
  | account =>
      refine h.set hcall rfl ?_
      simp only [Ledger.add, Call.offered, FlushReport.harvested, FlushReport.addClient]
      omega
  | found | missed | judge | count | list | skip | drain | report => exact h.set hcall rfl rfl

theorem step {move : Move} (h : Enumerated system ledger)
    (hstep : step? system move = some after) : Enumerated after (note system move ledger) := by
  rcases step?_eq_some_iff.mp hstep with ⟨client, rfl, rfl⟩ | ⟨rfl, rfl⟩ | ⟨tick, rfl, rfl⟩ |
    ⟨index, order, call, next, site, rfl, hcall, hpart, rfl⟩
  · exact h.newCall rfl rfl
  · exact h.newCall rfl rfl
  · exact ⟨h.recorded_eq, h.offers_eq⟩
  · rw [note_part hcall]
    exact h.part hcall hpart

end Enumerated

theorem enumerated_of_run {first last : System σ} {moves : List Move} (hfirst : first.calls = [])
    (hrun : first.run? moves = some last) : Enumerated last (ledger first moves) := by
  have hstart : Enumerated first {} := ⟨by rw [hfirst]; rfl, by rw [hfirst]; rfl⟩
  exact Steps.history_invariant hrun hstart fun _ _ _ _ h hstep => h.step hstep

theorem sumOf_offered {calls : List Call} (h : ∀ call ∈ calls, call.isFinished = true) :
    sumOf Call.offered calls = sumOf FlushReport.harvested (calls.filterMap Call.report?) := by
  induction calls with
  | nil => rfl
  | cons call rest ih =>
      have hcall := Call.offered_of_isFinished (h call List.mem_cons_self)
      have hrest := ih fun other hmem => h other (List.mem_cons_of_mem call hmem)
      rw [sumOf_cons, hcall, hrest]
      cases hreport : call.report? with
      | none => simp [hreport]
      | some report => simp [hreport]

theorem sumOf_total (reports : List FlushReport) :
    sumOf FlushReport.total reports =
      sumOf FlushReport.harvested reports + sumOf FlushReport.dropped reports := by
  induction reports with
  | nil => rfl
  | cons report rest ih =>
      simp only [sumOf_cons, ih, FlushReport.total, FlushReport.harvested]
      omega

/-- Where the decisions are once none is left unread: each was offered under its number, the
others were dropped, and the sink has been sent all that was offered. -/
structure Emptied (receive : Receiver σ) (sink : σ) (site : Site σ) (ledger : Ledger) : Prop where
  pending_eq : ∀ client, site.controller.pending client = 0
  offers_nodup : (ledger.offers.map Offer.key).Nodup
  offered : ∀ offer ∈ ledger.offers,
    (ledger.recordedOf offer.client)[offer.number]? = some offer.decision
  accounted : ledger.offers.length + site.controller.metrics.dropped = ledger.recorded.length
  sink_eq : site.sink = ledger.offers.foldl
    (fun sink offer => (receive sink offer.client offer.decision).2) sink

theorem emptied_of_flushedAlone {config : AdmissionConfig} {valid : config.Valid}
    {receive : Receiver σ} {sink : σ} {time : TimeSource} {before later : List Move}
    {quiet last : System σ} (hrun : (start config valid receive sink time).run? before = some quiet)
    (hquiet : quiet.isQuiet = true) (hflush : FlushedAlone quiet later last) :
    Emptied receive sink last.site
      (ledger (start config valid receive sink time) (before ++ .flush :: later)) := by
  have hall := Steps.run?_append_of_run? hrun hflush.run
  have h := accounted_of_run hall
  have hcounts := enumerated_of_run rfl hall
  have hfinished := List.all_eq_true.mp hflush.isQuiet
  have hread := hflush.unread_eq_zero hquiet
  have hnames : last.site.controller.clients.names.Nodup :=
    h.admitting.names_eq ▸ h.admitting.created_nodup
  exact {
    pending_eq := fun client => by
      rw [Controller.pending_eq, Ring.pending_eq_zero (hread client)]
    offers_nodup := h.offersOnce.nodup_offers
    offered := fun offer hmem => h.offersOnce.recorded offer (List.mem_append_left _ hmem)
    accounted := by
      have hbalance := h.balanced.balance
      rw [last.site.controller.unread_eq_zero hnames hread, Nat.zero_add,
        sumOf_harvested hfinished, sumOf_total, ← h.balanced.tallied.dropped_eq,
        ← sumOf_offered hfinished, ← hcounts.offers_eq, ← hcounts.recorded_eq] at hbalance
      exact hbalance
    sink_eq := h.sent.sink_eq }

end System

end Turnstile.Site

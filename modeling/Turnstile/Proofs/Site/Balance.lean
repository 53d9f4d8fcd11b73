import Turnstile.Proofs.Site.Admission

/-!
Where the recorded decisions are. Every one of them is unread in the ring of
its client, or in the hands of a flush, or accounted for by a report; and the
totals of the controller are those of the calls that have come to their end.
-/

namespace Turnstile.Site

structure Tallied (metrics : Metrics) (answers : List Bool)
    (reports : List FlushReport) : Prop where
  allowed_eq : metrics.allowed = answers.count true
  denied_eq : metrics.denied = answers.count false
  flushes_eq : metrics.flushes = reports.length
  delivered_eq : metrics.delivered = sumOf FlushReport.delivered reports
  dropped_eq : metrics.dropped = sumOf FlushReport.dropped reports
  failures_eq : metrics.failures = sumOf FlushReport.failures reports

namespace Tallied

variable {controller : Controller} {answers : List Bool} {reports : List FlushReport}

theorem perm {others : List Bool} {later : List FlushReport}
    (h : Tallied controller.metrics answers reports) (hanswers : others.Perm answers)
    (hreports : later.Perm reports) : Tallied controller.metrics others later where
  allowed_eq := h.allowed_eq.trans (hanswers.count_eq true).symm
  denied_eq := h.denied_eq.trans (hanswers.count_eq false).symm
  flushes_eq := h.flushes_eq.trans hreports.length_eq.symm
  delivered_eq := h.delivered_eq.trans (sumOf_perm _ hreports).symm
  dropped_eq := h.dropped_eq.trans (sumOf_perm _ hreports).symm
  failures_eq := h.failures_eq.trans (sumOf_perm _ hreports).symm

theorem track (h : Tallied controller.metrics answers reports) (name : String) :
    Tallied (controller.track name).metrics answers reports := by
  unfold Controller.track
  split
  · exact h
  · exact { h with }

theorem drain (h : Tallied controller.metrics answers reports) (name : String) :
    Tallied (controller.drain name).2.metrics answers reports := by
  unfold Controller.drain
  split
  · exact h
  · exact { h with }

theorem count (h : Tallied controller.metrics answers reports) (allowed : Bool) :
    Tallied (controller.count allowed).metrics (answers ++ [allowed]) reports := by
  cases allowed with
  | true => exact { h with
      allowed_eq := (congrArg (· + 1) h.allowed_eq).trans (by simp)
      denied_eq := h.denied_eq.trans (by simp) }
  | false => exact { h with
      allowed_eq := h.allowed_eq.trans (by simp)
      denied_eq := (congrArg (· + 1) h.denied_eq).trans (by simp) }

theorem countFlush (h : Tallied controller.metrics answers reports) (report : FlushReport) :
    Tallied (controller.countFlush report).metrics answers (reports ++ [report]) := by
  have hcounted : Tallied
      { controller with
        flushes := controller.flushes + 1
        delivered := controller.delivered + report.delivered
        dropped := controller.dropped + report.dropped
        failures := controller.failures + report.failures }.metrics answers (reports ++ [report]) :=
    { h with
      flushes_eq := (congrArg (· + 1) h.flushes_eq).trans (by simp)
      delivered_eq :=
        (congrArg (· + report.delivered) h.delivered_eq).trans (by simp [sumOf_append])
      dropped_eq := (congrArg (· + report.dropped) h.dropped_eq).trans (by simp [sumOf_append])
      failures_eq := (congrArg (· + report.failures) h.failures_eq).trans (by simp [sumOf_append]) }
  unfold Controller.countFlush
  split
  · exact { hcounted with }
  · exact hcounted

end Tallied

namespace System

structure Balanced (system : System σ) (ledger : Ledger) : Prop where
  rings : ∀ client, (system.site.controller.ring client).Holds (ledger.recordedOf client)
  fits : ∀ entry ∈ ledger.recorded, entry.2.time ≤ Decision.maxTime
  balance : system.site.controller.unread + sumOf Call.harvested system.calls =
    sumOf Call.written system.calls
  tallied : Tallied system.site.controller.metrics (system.calls.filterMap Call.answer?)
    (system.calls.filterMap Call.report?)

namespace Balanced

variable {config : AdmissionConfig} {system : System σ} {ledger : Ledger} {index : Nat}
  {call next : Call} {site : Site σ}

theorem start (valid : config.Valid) (receive : Receiver σ) (sink : σ) (time : TimeSource) :
    Balanced (start config valid receive sink time) {} where
  rings := fun _ => .start config.capacity valid.capacity_pos
  fits := fun _ hmem => absurd hmem List.not_mem_nil
  balance := rfl
  tallied := ⟨rfl, rfl, rfl, rfl, rfl, rfl⟩

theorem fits_recordedOf (h : Balanced system ledger) (client : String) :
    ∀ decision ∈ ledger.recordedOf client, decision.time ≤ Decision.maxTime := by
  intro decision hmem
  obtain ⟨entry, hentry, hsame⟩ := List.mem_filterMap.mp hmem
  have hfits := h.fits entry hentry
  simp only [Option.ite_none_right_eq_some, Option.some.injEq] at hsame
  rw [← hsame.2]
  exact hfits

theorem newCall (h : Balanced system ledger) {call : Call} (hwritten : call.written = 0)
    (hharvested : call.harvested = 0) (hanswer : call.answer? = none)
    (hreport : call.report? = none) :
    Balanced { system with calls := system.calls ++ [call] } ledger :=
  { h with
    balance := by
      have hbalance := h.balance
      simp only [sumOf_append, sumOf_cons, sumOf_nil, hwritten, hharvested, Nat.add_zero]
      exact hbalance
    tallied := by
      simp only [List.filterMap_append, List.filterMap_cons, List.filterMap_nil, hanswer,
        hreport, List.append_nil]
      exact h.tallied }

/-- What one call takes, gives or hands on is what its ring and its figures show. -/
theorem balance_set {unread : Nat} (h : Balanced system ledger)
    (hcall : system.calls[index]? = some call)
    (hsame : unread + next.harvested + call.written =
      system.site.controller.unread + call.harvested + next.written) :
    unread + sumOf Call.harvested (system.calls.set index next) =
      sumOf Call.written (system.calls.set index next) := by
  have hbalance := h.balance
  have hharvested := sumOf_set Call.harvested next hcall
  have hwritten := sumOf_set Call.written next hcall
  omega

theorem tallied_set {controller : Controller} (hcall : system.calls[index]? = some call)
    (htallied : Tallied controller.metrics (system.calls.filterMap Call.answer?)
      (system.calls.filterMap Call.report?))
    (hanswer : next.answer? = call.answer?) (hreport : next.report? = call.report?) :
    Tallied controller.metrics ((system.calls.set index next).filterMap Call.answer?)
      ((system.calls.set index next).filterMap Call.report?) :=
  htallied.perm (filterMap_set_of_eq hcall hanswer) (filterMap_set_of_eq hcall hreport)

theorem frame {after : Ledger} (h : Balanced system ledger)
    (hcall : system.calls[index]? = some call)
    (hring : ∀ client, site.controller.ring client = system.site.controller.ring client)
    (hunread : site.controller.unread = system.site.controller.unread)
    (hrecorded : after.recorded = ledger.recorded) (hharvested : next.harvested = call.harvested)
    (hwritten : next.written = call.written)
    (htallied : Tallied site.controller.metrics
      ((system.calls.set index next).filterMap Call.answer?)
      ((system.calls.set index next).filterMap Call.report?)) :
    Balanced { site, calls := system.calls.set index next } after where
  rings := by
    intro client
    simp only [hring, Ledger.recordedOf, hrecorded]
    exact h.rings client
  fits := hrecorded ▸ h.fits
  balance := h.balance_set hcall (by rw [hunread, hharvested, hwritten])
  tallied := htallied

theorem record {client : String} {reading : Nat} {allowed : Bool} (h : Balanced system ledger)
    (hcall : system.calls[index]? = some (.recording client reading allowed))
    (hknows : system.site.controller.knows client = true) :
    Balanced
      { site := { system.site with
          controller := system.site.controller.record client (.made reading allowed) }
        calls := system.calls.set index (.counting client reading allowed) }
      { ledger with recorded := ledger.recorded ++ [(client, .made reading allowed)] } where
  rings := by
    intro other
    rw [Ledger.recordedOf_record]
    split
    · rename_i hsame
      subst hsame
      rw [Controller.ring_record_self _ hknows]
      exact (h.rings client).record _
    · rename_i hne
      rw [Controller.ring_record_of_ne _ (Ne.symm hne)]
      exact h.rings other
  fits := by
    intro entry hmem
    rcases List.mem_append.mp hmem with hold | hnew
    · exact h.fits entry hold
    · rw [List.mem_singleton.mp hnew]
      exact Nat.min_le_right ..
  balance := by
    apply h.balance_set hcall
    rw [Controller.unread_record _ hknows (h.rings client)]
    simp only [Call.harvested, Call.written]
  tallied := tallied_set hcall { h.tallied with } rfl rfl

theorem drain {client : String} {clients : List String} {report : FlushReport} {after : Ledger}
    (h : Balanced system ledger)
    (hcall : system.calls[index]? = some (.visiting (client :: clients) report))
    (hrecorded : after.recorded = ledger.recorded)
    (hharvested : next.harvested = report.total +
      (system.site.controller.ring client).unread)
    (hwritten : next.written = 0) (hanswer : next.answer? = none)
    (hreport : next.report? = none) :
    Balanced
      { site := { system.site with controller := (system.site.controller.drain client).2 }
        calls := system.calls.set index next } after where
  rings := by
    intro other
    simp only [Ledger.recordedOf, hrecorded]
    rcases Decidable.em (other = client) with rfl | hne
    · rw [Controller.ring_drain_self]
      exact (h.rings other).harvest
    · rw [Controller.ring_drain_of_ne _ hne]
      exact h.rings other
  fits := hrecorded ▸ h.fits
  balance := by
    apply h.balance_set hcall
    have hunread := system.site.controller.unread_drain client
    rw [hharvested, hwritten]
    simp only [Call.harvested, Call.written]
    omega
  tallied := tallied_set hcall (h.tallied.drain client) hanswer hreport

theorem part {order : List String} (h : Balanced system ledger)
    (hadmitting : Admitting config system ledger) (hcall : system.calls[index]? = some call)
    (hpart : system.site.part? order call = some (next, site)) :
    Balanced { site, calls := system.calls.set index next }
      (ledger.add system.site index call) := by
  cases part_of_some hpart with
  | found hknows =>
      exact h.frame hcall (fun _ => rfl) rfl rfl rfl rfl (tallied_set hcall h.tallied rfl rfl)
  | missed hknows =>
      exact h.frame hcall (fun _ => rfl) rfl rfl rfl rfl (tallied_set hcall h.tallied rfl rfl)
  | @enter client =>
      obtain ⟨created, hadd⟩ := ledger.exists_add_entering system.site index client
      rw [hadd]
      exact h.frame hcall (Controller.ring_track _ client) (Controller.unread_track _ client)
        rfl rfl rfl (tallied_set hcall (h.tallied.track client) rfl rfl)
  | @judge client =>
      exact h.frame hcall (Controller.ring_judge _ _ client) (Controller.unread_judge _ _ client)
        rfl rfl rfl (tallied_set hcall { h.tallied with } rfl rfl)
  | record => exact h.record hcall (hadmitting.knows_of_entered hcall rfl)
  | @count client reading allowed =>
      have hcounted := (h.tallied.count allowed).perm
        (filterMap_set_of_none hcall rfl
          (show (Call.answered client reading allowed).answer? = some allowed from rfl))
        (filterMap_set_of_eq hcall
          (show (Call.answered client reading allowed).report? = Call.report? _ from rfl))
      exact h.frame hcall (Controller.ring_count _ allowed) (Controller.unread_count _ allowed)
        rfl rfl rfl hcounted
  | list horder =>
      exact h.frame hcall (fun _ => rfl) rfl rfl rfl rfl (tallied_set hcall h.tallied rfl rfl)
  | @skip client clients report hempty =>
      have hlength := (h.rings client).length_harvest
      rw [← Controller.drain_fst] at hlength
      simp only [Harvest.isEmpty, Bool.and_eq_true, List.isEmpty_iff, beq_iff_eq] at hempty
      refine h.drain hcall rfl ?_ rfl rfl rfl
      rw [← hlength, hempty.1, hempty.2]
      rfl
  | @drain client clients report hfull =>
      have hlength := (h.rings client).length_harvest
      rw [← Controller.drain_fst] at hlength
      refine h.drain hcall rfl ?_ rfl rfl rfl
      simp only [Call.harvested, FlushReport.total, FlushReport.addClient]
      omega
  | offer =>
      exact h.frame hcall (fun _ => rfl) rfl rfl (Call.harvested_offering ..) rfl
        (tallied_set hcall h.tallied rfl rfl)
  | account =>
      exact h.frame hcall (fun _ => rfl) rfl rfl rfl rfl
        (tallied_set hcall { h.tallied with } rfl rfl)
  | @report report =>
      have hcounted := (h.tallied.countFlush report).perm
        (filterMap_set_of_eq hcall
          (show (Call.reported report).answer? = Call.answer? _ from rfl))
        (filterMap_set_of_none hcall rfl
          (show (Call.reported report).report? = some report from rfl))
      exact h.frame hcall (Controller.ring_countFlush _ report)
        (Controller.unread_countFlush _ report) rfl rfl rfl hcounted

theorem step {after : System σ} {move : Move} (h : Balanced system ledger)
    (hadmitting : Admitting config system ledger) (hstep : step? system move = some after) :
    Balanced after (note system move ledger) := by
  rcases step?_eq_some_iff.mp hstep with ⟨client, rfl, rfl⟩ | ⟨rfl, rfl⟩ | ⟨tick, rfl, rfl⟩ |
    ⟨index, order, call, next, site, rfl, hcall, hpart, rfl⟩
  · exact h.newCall rfl rfl rfl rfl
  · exact h.newCall rfl rfl rfl rfl
  · exact { h with }
  · rw [note_part hcall]
    exact h.part hadmitting hcall hpart

end Balanced

end System

end Turnstile.Site

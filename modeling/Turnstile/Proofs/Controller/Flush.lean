import Mathlib.Data.List.Basic
import Turnstile.Proofs.Controller

/-!
A flush that nothing interrupts, seen through a sink that keeps what it is sent.
Each client's ring is harvested once, and all that comes out of it is sent to
the sink before the flush goes on, whatever the sink replies.
-/

namespace Turnstile

structure Sending where
  client : String
  decision : Decision
  reply : Reply
  deriving DecidableEq, Repr

def Sending.isDelivered (sending : Sending) : Bool := sending.reply == .delivered

/-- The sink once it has been sent what it was sent. -/
def Sending.pass (receive : Receiver σ) (sink : σ) (sending : Sending) : σ :=
  (receive sink sending.client sending.decision).2

def sentTo (client : String) (sent : List Sending) : List Decision :=
  sent.filterMap fun sending => if sending.client = client then some sending.decision else none

@[simp] theorem sentTo_append (client : String) (first second : List Sending) :
    sentTo client (first ++ second) = sentTo client first ++ sentTo client second :=
  List.filterMap_append

def Receiver.watched (receive : Receiver σ) : Receiver (σ × List Sending) :=
  fun sink client decision =>
    let (receipt, next) := receive sink.1 client decision
    (receipt, (next, sink.2 ++ [⟨client, decision, receipt.reply⟩]))

/-! Offering what one ring held. -/

structure Offered (client : String) (decisions : List Decision) (before : Offering)
    (sent : List Sending) (after : Offering) : Prop where
  clients : ∀ sending ∈ sent, sending.client = client
  decisions_eq : sent.map Sending.decision = decisions
  delivered_eq : after.delivered = before.delivered + sent.countP Sending.isDelivered
  tried_eq : after.delivered + after.failures =
    before.delivered + before.failures + decisions.length

namespace Offered

theorem nil (client : String) (offering : Offering) : Offered client [] offering [] offering :=
  ⟨fun _ hmem => absurd hmem List.not_mem_nil, rfl, rfl, rfl⟩

theorem cons {client : String} {decision : Decision} {decisions : List Decision}
    {before after : Offering} {sent : List Sending} (receipt : Receipt)
    (h : Offered client decisions (before.add client receipt) sent after) :
    Offered client (decision :: decisions) before (⟨client, decision, receipt.reply⟩ :: sent)
      after where
  clients := by
    intro sending hmem
    rcases List.mem_cons.mp hmem with rfl | hrest
    · rfl
    · exact h.clients sending hrest
  decisions_eq := congrArg (decision :: ·) h.decisions_eq
  delivered_eq := by
    have hdelivered := h.delivered_eq
    simp only [Offering.add] at hdelivered
    rw [List.countP_cons, hdelivered]
    cases hreply : receipt.reply <;> simp [Sending.isDelivered]; omega
  tried_eq := by
    have htried := h.tried_eq
    simp only [Offering.add] at htried
    rw [List.length_cons, htried]
    cases hreply : receipt.reply <;> simp only <;> omega

theorem sentTo_self {client : String} {decisions : List Decision} {before after : Offering}
    {sent : List Sending} (h : Offered client decisions before sent after) :
    sentTo client sent = decisions := by
  rw [← h.decisions_eq, sentTo, ← List.filterMap_eq_map]
  apply List.filterMap_congr
  intro sending hmem
  simp [h.clients sending hmem]

theorem sentTo_of_ne {client other : String} (hne : other ≠ client) {decisions : List Decision}
    {before after : Offering} {sent : List Sending}
    (h : Offered client decisions before sent after) : sentTo other sent = [] := by
  apply List.filterMap_eq_nil_iff.mpr
  intro sending hmem
  simp [h.clients sending hmem, hne.symm]

end Offered

theorem exists_offered (receive : Receiver σ) (client : String) (decisions : List Decision)
    (before : Offering) (sink : σ × List Sending) :
    ∃ sent,
      (Offering.offerAll receive.watched client decisions before sink).2 =
        (sent.foldl (Sending.pass receive) sink.1, sink.2 ++ sent) ∧
      Offered client decisions before sent
        (Offering.offerAll receive.watched client decisions before sink).1 := by
  induction decisions generalizing before sink with
  | nil => exact ⟨[], Prod.ext rfl (List.append_nil _).symm, .nil client before⟩
  | cons decision rest ih =>
      obtain ⟨sent, hsent, hoffered⟩ := ih
        (before.add client (receive sink.1 client decision).1)
        (receive.watched sink client decision).2
      refine ⟨_, ?_, hoffered.cons _⟩
      rw [List.append_cons, List.foldl_cons]
      exact hsent

theorem offerAll_watched (receive : Receiver σ) (client : String) (decisions : List Decision)
    (before : Offering) (sink : σ × List Sending) :
    Offering.offerAll receive client decisions before sink.1 =
      ((Offering.offerAll receive.watched client decisions before sink).1,
        (Offering.offerAll receive.watched client decisions before sink).2.1) := by
  induction decisions generalizing before sink with
  | nil => rfl
  | cons decision rest ih =>
      exact ih (before.add client (receive sink.1 client decision).1)
        (receive.watched sink client decision).2

/-! A stretch of clients. -/

namespace Flush

def unwatched (flush : Flush (σ × List Sending)) : Flush σ :=
  ⟨flush.controller, flush.sink.1, flush.report⟩

theorem unwatched_visit (receive : Receiver σ) (flush : Flush (σ × List Sending))
    (client : String) :
    (flush.visit receive.watched client).unwatched = flush.unwatched.visit receive client := by
  have hoffered := offerAll_watched receive client (flush.controller.drain client).1.events {}
    flush.sink
  cases hempty : (flush.controller.drain client).1.isEmpty with
  | true => simp only [visit, unwatched, hempty, if_true]
  | false => simp only [visit, unwatched, hempty, Bool.false_eq_true, if_false, hoffered]

theorem unwatched_foldl (receive : Receiver σ) (order : List String)
    (flush : Flush (σ × List Sending)) :
    (order.foldl (visit receive.watched) flush).unwatched =
      order.foldl (visit receive) flush.unwatched := by
  induction order generalizing flush with
  | nil => rfl
  | cons client rest ih => rw [List.foldl_cons, List.foldl_cons, ih, unwatched_visit]

structure Swept (receive : Receiver σ) (order : List String)
    (before after : Flush (σ × List Sending)) : Prop where
  config_eq : after.controller.config = before.controller.config
  names_eq : after.controller.clients.names = before.controller.clients.names
  window_eq : ∀ client, after.controller.window client = before.controller.window client
  ring_eq : ∀ client, after.controller.ring client =
    if client ∈ order then (before.controller.ring client).harvest.2
    else before.controller.ring client
  clients_eq : after.report.clients = before.report.clients +
    order.countP fun client => !(before.controller.ring client).harvest.1.isEmpty
  dropped_eq : after.report.dropped = before.report.dropped +
    sumOf (fun client => (before.controller.ring client).harvest.1.dropped) order
  tried_eq : after.report.delivered + after.report.failures =
    before.report.delivered + before.report.failures +
      sumOf (fun client => (before.controller.ring client).harvest.1.events.length) order
  sent : ∃ sent, after.sink.2 = before.sink.2 ++ sent ∧
    after.sink.1 = sent.foldl (Sending.pass receive) before.sink.1 ∧
    after.report.delivered = before.report.delivered + sent.countP Sending.isDelivered ∧
    ∀ client, sentTo client sent =
      if client ∈ order then (before.controller.ring client).harvest.1.events else []

namespace Swept

variable {receive : Receiver σ} {before middle after : Flush (σ × List Sending)}

theorem refl (flush : Flush (σ × List Sending)) : Swept receive [] flush flush where
  config_eq := rfl
  names_eq := rfl
  window_eq := fun _ => rfl
  ring_eq := fun _ => rfl
  clients_eq := rfl
  dropped_eq := rfl
  tried_eq := rfl
  sent := ⟨[], (List.append_nil _).symm, rfl, rfl, fun _ => rfl⟩

theorem trans {first second : List String} (hfirst : Swept receive first before middle)
    (hsecond : Swept receive second middle after)
    (hdisjoint : ∀ client ∈ second, client ∉ first) :
    Swept receive (first ++ second) before after := by
  have hring : ∀ client ∈ second,
      middle.controller.ring client = before.controller.ring client := by
    intro client hmem
    rw [hfirst.ring_eq, if_neg (hdisjoint client hmem)]
  obtain ⟨sent, hsent, hsink, hdelivered, hsentTo⟩ := hfirst.sent
  obtain ⟨later, hlater, hlaterSink, hlaterDelivered, hlaterTo⟩ := hsecond.sent
  exact {
    config_eq := hsecond.config_eq.trans hfirst.config_eq
    names_eq := hsecond.names_eq.trans hfirst.names_eq
    window_eq := fun client => (hsecond.window_eq client).trans (hfirst.window_eq client)
    ring_eq := by
      intro client
      rw [hsecond.ring_eq]
      by_cases hmem : client ∈ second
      · simp [hmem, hring client hmem]
      · simp [hmem, hfirst.ring_eq]
    clients_eq := by
      have hcount : second.countP (fun client =>
          !(middle.controller.ring client).harvest.1.isEmpty) =
          second.countP fun client => !(before.controller.ring client).harvest.1.isEmpty := by
        apply List.countP_congr
        intro client hmem
        rw [hring client hmem]
      rw [hsecond.clients_eq, hfirst.clients_eq, hcount, List.countP_append, Nat.add_assoc]
    dropped_eq := by
      have hsum : sumOf (fun client => (middle.controller.ring client).harvest.1.dropped) second =
          sumOf (fun client => (before.controller.ring client).harvest.1.dropped) second :=
        sumOf_congr fun client hmem => by rw [hring client hmem]
      rw [hsecond.dropped_eq, hfirst.dropped_eq, hsum, sumOf_append, Nat.add_assoc]
    tried_eq := by
      have hsum : sumOf (fun client =>
          (middle.controller.ring client).harvest.1.events.length) second =
          sumOf (fun client => (before.controller.ring client).harvest.1.events.length) second :=
        sumOf_congr fun client hmem => by rw [hring client hmem]
      rw [hsecond.tried_eq, hfirst.tried_eq, hsum, sumOf_append, Nat.add_assoc]
    sent := by
      refine ⟨sent ++ later, ?_, ?_, ?_, ?_⟩
      · rw [hlater, hsent, List.append_assoc]
      · rw [hlaterSink, hsink, List.foldl_append]
      · rw [hlaterDelivered, hdelivered, List.countP_append, Nat.add_assoc]
      · intro client
        rw [sentTo_append, hsentTo, hlaterTo]
        by_cases hmem : client ∈ second
        · simp [hmem, hdisjoint client hmem, hring client hmem]
        · simp [hmem] }

end Swept

theorem swept_visit (receive : Receiver σ) (flush : Flush (σ × List Sending))
    (client : String) : Swept receive [client] flush (flush.visit receive.watched client) := by
  have hharvest := flush.controller.drain_fst client
  have hring : ∀ other, (flush.controller.drain client).2.ring other =
      if other ∈ [client] then (flush.controller.ring other).harvest.2
      else flush.controller.ring other := by
    intro other
    by_cases hsame : other = client
    · rw [hsame, if_pos (List.mem_singleton_self client), Controller.ring_drain_self]
    · rw [if_neg (by simpa using hsame), Controller.ring_drain_of_ne _ hsame]
  obtain ⟨sent, hsent, hoffered⟩ := exists_offered receive client
    (flush.controller.drain client).1.events {} flush.sink
  have hsentTo : ∀ other, sentTo other sent =
      if other ∈ [client] then (flush.controller.ring other).harvest.1.events else [] := by
    intro other
    by_cases hsame : other = client
    · rw [hsame, if_pos (List.mem_singleton_self client), hoffered.sentTo_self, hharvest]
    · rw [if_neg (by simpa using hsame), hoffered.sentTo_of_ne hsame]
  unfold visit
  simp only
  split
  · rename_i hempty
    have hnothing : (flush.controller.ring client).harvest.1 = {} :=
      Harvest.isEmpty_iff.mp (hharvest ▸ hempty)
    exact {
      config_eq := Controller.config_drain ..
      names_eq := Controller.names_drain ..
      window_eq := fun _ => Controller.window_drain ..
      ring_eq := hring
      clients_eq := by simp [hnothing, Harvest.isEmpty]
      dropped_eq := by simp [hnothing]
      tried_eq := by simp [hnothing]
      sent := by
        refine ⟨[], (List.append_nil _).symm, rfl, rfl, ?_⟩
        intro other
        split
        · rename_i hmem
          rw [List.mem_singleton.mp hmem, hnothing]
          rfl
        · rfl }
  · rename_i hsome
    have hclients : (!(flush.controller.ring client).harvest.1.isEmpty) = true := by
      rw [← hharvest]
      simpa using hsome
    exact {
      config_eq := Controller.config_drain ..
      names_eq := Controller.names_drain ..
      window_eq := fun _ => Controller.window_drain ..
      ring_eq := hring
      clients_eq := by simp [FlushReport.addClient, hclients]
      dropped_eq := by simp [FlushReport.addClient, hharvest]
      tried_eq := by
        have htried := hoffered.tried_eq
        simp only [FlushReport.addClient, sumOf_cons, sumOf_nil, ← hharvest] at htried ⊢
        omega
      sent := by
        refine ⟨sent, congrArg Prod.snd hsent, congrArg Prod.fst hsent, ?_, hsentTo⟩
        have hdelivered := hoffered.delivered_eq
        simp only [FlushReport.addClient] at hdelivered ⊢
        omega }

theorem swept_foldl (receive : Receiver σ) {order : List String} (hnodup : order.Nodup)
    (flush : Flush (σ × List Sending)) :
    Swept receive order flush (order.foldl (visit receive.watched) flush) := by
  induction order generalizing flush with
  | nil => exact .refl flush
  | cons client rest ih =>
      obtain ⟨hnew, hrest⟩ := List.nodup_cons.mp hnodup
      have hdisjoint : ∀ other ∈ rest, other ∉ [client] := by
        intro other hmem hsame
        exact hnew (List.mem_singleton.mp hsame ▸ hmem)
      exact (flush.swept_visit receive client).trans (ih hrest _) hdisjoint

end Flush

theorem Controller.unwatched_flushInOrder (receive : Receiver σ) (order : List String)
    (sink : σ × List Sending) (controller : Controller) :
    (controller.flushInOrder receive.watched order sink).unwatched =
      controller.flushInOrder receive order sink.1 := by
  have hvisited := Flush.unwatched_foldl receive order { controller, sink }
  simp only [Flush.unwatched] at hvisited
  simp only [flushInOrder, Flush.unwatched, ← hvisited]

end Turnstile

import Turnstile.Proofs.Site.Reads

/-!
A flush that goes on while no other call does. What it offers of one client's decisions is what
it would have found in the client's ring at its beginning, whatever it does with other clients.
-/

namespace Turnstile

namespace Controller

variable (controller : Controller) (clients : List String)

/-! What a flush finds. -/

def due (client : String) (clients : List String) : List Decision :=
  if client ∈ clients then (controller.ring client).harvest.1.events else []

theorem due_drain_self (client : String) :
    (controller.drain client).2.due client clients = [] := by
  have hread : (controller.ring client).harvest.2.published =
      (controller.ring client).harvest.2.read := by
    unfold Ring.harvest
    split
    · assumption
    · rfl
  rw [due, controller.ring_drain_self, Ring.harvest, if_pos hread, ite_self]

theorem drain_append_due (client other : String) :
    (if other = client then (controller.drain other).1.events else []) ++
        (controller.drain other).2.due client clients =
      controller.due client (other :: clients) := by
  rcases Decidable.em (other = client) with rfl | hne
  · rw [due_drain_self, if_pos rfl, List.append_nil, controller.drain_fst, due,
      if_pos List.mem_cons_self]
  · have hmem : client ∈ other :: clients ↔ client ∈ clients := by
      rw [List.mem_cons, or_iff_right (Ne.symm hne)]
    simp only [due, controller.ring_drain_of_ne (Ne.symm hne), hmem, if_neg hne, List.nil_append]

end Controller

namespace Site

def Call.toOffer (client : String) (controller : Controller) : Call → List Decision
  | .listing => (controller.ring client).harvest.1.events
  | .visiting clients _ => controller.due client clients
  | .offering other _ decisions _ clients _ =>
      (if other = client then decisions else []) ++ controller.due client clients
  | .finding _ | .entering _ | .judging _ | .recording .. | .counting .. | .answered ..
  | .reported _ => []

theorem Ledger.offeredTo_offer (ledger : Ledger) (index : Nat) (other client : String)
    (decision : Decision) :
    (ledger.offer index other decision).offeredTo client =
      ledger.offeredTo client ++ if other = client then [decision] else [] := by
  simp only [offeredTo, offersTo, offer, setUpcoming, List.filter_append, List.map_append]
  split
  · rename_i hsame
    simp [hsame]
  · rename_i hne
    simp [hne]

/-- A part of a flush keeps what has been offered and what is still to be. -/
theorem offeredTo_add_toOffer {order : List String} {site after : Site σ} {call next : Call}
    (hflush : call.requested? = none) (hpart : site.part? order call = some (next, after))
    (ledger : Ledger) (index : Nat) (client : String) :
    next.requested? = none ∧
      (ledger.add site index call).offeredTo client ++ next.toOffer client after.controller =
        ledger.offeredTo client ++ call.toOffer client site.controller := by
  cases part_of_some hpart with
  | list horder =>
      refine ⟨rfl, congrArg (ledger.offeredTo client ++ ·) ?_⟩
      simp only [Call.toOffer, Controller.due]
      split
      · rfl
      · rename_i hmem
        rw [horder.mem_iff] at hmem
        have hclient : site.controller.client? client = none :=
          (Index.find?_eq_none_iff _ _).mpr hmem
        rw [Controller.ring_of_none _ hclient, Controller.harvest_newClient]
  | @skip other clients report hempty =>
      rw [Harvest.isEmpty_iff] at hempty
      have hdue := site.controller.drain_append_due clients client other
      rw [hempty, ite_self, List.nil_append] at hdue
      exact ⟨rfl, congrArg (ledger.offeredTo client ++ ·) hdue⟩
  | @drain other clients report hfull =>
      have hdue := site.controller.drain_append_due clients client other
      exact ⟨rfl, congrArg (ledger.offeredTo client ++ ·) hdue⟩
  | offer =>
      refine ⟨rfl, ?_⟩
      simp only [Ledger.add, Ledger.offeredTo_offer, Call.toOffer, List.append_assoc]
      split <;> rfl
  | account =>
      refine ⟨rfl, congrArg (ledger.offeredTo client ++ ·) ?_⟩
      simp only [Call.toOffer, ite_self, List.nil_append]
      rfl
  | report => exact ⟨rfl, rfl⟩
  | found | missed | enter | judge | record | count => cases hflush

namespace System

theorem capacity_of_run {config : AdmissionConfig} {valid : config.Valid} {receive : Receiver σ}
    {sink : σ} {time : TimeSource} {moves : List Move} {last : System σ}
    (hrun : (start config valid receive sink time).run? moves = some last) (client : String) :
    (last.site.controller.ring client).capacity = config.capacity := by
  have hreachable : Reachable (start config valid receive sink time) last := ⟨moves, hrun⟩
  have hkept (before : System σ) (move : Move) (after : System σ)
      (hbefore : (before.site.controller.ring client).capacity = config.capacity)
      (hstep : step? before move = some after) :
      (after.site.controller.ring client).capacity = config.capacity := by
    rcases step?_eq_some_iff.mp hstep with ⟨other, rfl, rfl⟩ | ⟨rfl, rfl⟩ | ⟨tick, rfl, rfl⟩ |
      ⟨index, order, call, next, site, rfl, -, hpart, rfl⟩
    · exact hbefore
    · exact hbefore
    · exact hbefore
    · exact (capacity_ring_of_part hpart client).trans hbefore
  refine hreachable.invariant ?_ hkept
  exact Ring.capacity_ofCapacity config.capacity valid.capacity_pos

def Move.isPartOf (index : Nat) : Move → Bool
  | .part other _ => other = index
  | .clock _ => true
  | .request _ | .flush => false

/-- A flush that goes from its beginning to its report while no other call goes on. -/
structure FlushedNext (before : System σ) (later : List Move) (last : System σ) : Prop where
  run : before.run? (.flush :: later) = some last
  alone : ∀ move ∈ later, move.isPartOf before.calls.length = true
  reported : ∃ report, last.calls = before.calls ++ [.reported report]

theorem exists_flushedNext (before : System σ) : ∃ later last, FlushedNext before later last := by
  obtain ⟨later, last, report, halone, hrun, hcalls⟩ := before.exists_reported
  refine ⟨later, last, hrun, fun move hmem => ?_, report, hcalls⟩
  obtain ⟨order, rfl⟩ := halone move hmem
  exact decide_eq_true rfl

theorem FlushedNext.sent {before last : System σ} {later : List Move}
    (h : FlushedNext before later last) :
    Sent before.site.receive before.site.sink last (ledger before (.flush :: later)) :=
  Steps.history_invariant h.run ⟨rfl, rfl⟩ fun _ _ _ _ hsent hstep => hsent.step hstep

/-- Such a flush offers what it would have found at once. -/
theorem FlushedNext.offeredTo_eq {before last : System σ} {later : List Move}
    (h : FlushedNext before later last) (client : String) :
    (ledger before (.flush :: later)).offeredTo client =
      (before.site.controller.ring client).harvest.1.events := by
  let Holds (moves : List Move) (system : System σ) : Prop :=
    ∃ flush, system.calls = before.calls ++ [flush] ∧ flush.requested? = none ∧
      (ledger before (.flush :: moves)).offeredTo client ++
        flush.toOffer client system.site.controller =
          (before.site.controller.ring client).harvest.1.events
  suffices hlast : Holds later last by
    obtain ⟨flush, hcalls, -, hoffered⟩ := hlast
    obtain ⟨report, hreported⟩ := h.reported
    obtain rfl : flush = .reported report := by simpa using hcalls.symm.trans hreported
    rw [← hoffered, Call.toOffer, List.append_nil]
  have hrun : run? { before with calls := before.calls ++ [.listing] } later = some last := h.run
  refine Steps.run_induction hrun ⟨.listing, rfl, rfl, rfl⟩ ?_
  intro earlier system hearlier hholds move hmem after hstep
  obtain ⟨flush, hcalls, hflush, hoffered⟩ := hholds
  have hbefore : before.run? (.flush :: earlier) = some system := hearlier
  have hledger : ledger before (.flush :: earlier ++ [move]) =
      note system move (ledger before (.flush :: earlier)) :=
    Steps.history_concat _ hbefore hstep
  rw [List.cons_append] at hledger
  have hmove := h.alone move hmem
  cases move with
  | request other => cases hmove
  | flush => cases hmove
  | clock tick =>
      cases hstep
      exact ⟨flush, hcalls, hflush, hledger ▸ hoffered⟩
  | part index order =>
      obtain rfl : index = before.calls.length := of_decide_eq_true hmove
      have hcall : system.calls[before.calls.length]? = some flush := by
        rw [hcalls, List.getElem?_concat_length]
      simp only [step?, hcall, Option.bind_eq_bind, Option.bind_some, Option.bind_eq_some_iff,
        Option.pure_def, Option.some.injEq, Prod.exists] at hstep
      obtain ⟨next, site, hpart, rfl⟩ := hstep
      rw [note_part hcall] at hledger
      obtain ⟨hnext, hsame⟩ := offeredTo_add_toOffer hflush hpart
        (ledger before (.flush :: earlier)) before.calls.length client
      refine ⟨next, ?_, hnext, ?_⟩
      · simp only [hcalls, List.set_append_right _ _ (Nat.le_refl _), Nat.sub_self,
          List.set_cons_zero]
      · rw [hledger, hsame, hoffered]

end System

end Site

end Turnstile

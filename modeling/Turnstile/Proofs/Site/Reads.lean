import Turnstile.Proofs.Site.Conservation

/-!
How far flushes have read the decisions of each client. Whatever other calls go on with it, a
flush that has come to its report has read all that was recorded before it began.
-/

namespace Turnstile.Site

variable {order : List String} {site after : Site σ} {call next : Call} {client : String}

/-- A part of a call leaves a client's ring as it is, records a decision there, or harvests it. -/
theorem ring_of_part (hpart : site.part? order call = some (next, after)) (client : String) :
    after.controller.ring client = site.controller.ring client ∨
      (∃ decision, after.controller.ring client =
        (site.controller.ring client).record decision) ∨
      after.controller.ring client = (site.controller.ring client).harvest.2 := by
  cases part_of_some hpart with
  | found hknows => exact .inl rfl
  | missed hknows => exact .inl rfl
  | enter => exact .inl (Controller.ring_track ..)
  | judge => exact .inl (Controller.ring_judge ..)
  | @record other =>
      rcases Decidable.em (client = other) with rfl | hne
      · cases hknows : site.controller.knows client with
        | true => exact .inr (.inl ⟨_, site.controller.ring_record_self hknows _⟩)
        | false => exact .inl (site.controller.ring_record_of_not_knows hknows _ client)
      · exact .inl (site.controller.ring_record_of_ne hne _)
  | count => exact .inl (Controller.ring_count ..)
  | list horder => exact .inl rfl
  | skip hempty => exact (site.controller.ring_drain_eq_or _ client).imp_right .inr
  | drain hfull => exact (site.controller.ring_drain_eq_or _ client).imp_right .inr
  | offer => exact .inl rfl
  | account => exact .inl rfl
  | report => exact .inl (Controller.ring_countFlush ..)

theorem capacity_ring_of_part (hpart : site.part? order call = some (next, after))
    (client : String) :
    (after.controller.ring client).capacity = (site.controller.ring client).capacity := by
  rcases ring_of_part hpart client with hsame | ⟨decision, hrecord⟩ | hharvest
  · rw [hsame]
  · rw [hrecord, Ring.capacity_record]
  · rw [hharvest, Ring.capacity_harvest]

theorem read_le_of_part {recorded : List Decision}
    (hring : (site.controller.ring client).Holds recorded)
    (hpart : site.part? order call = some (next, after)) :
    (site.controller.ring client).read ≤ (after.controller.ring client).read := by
  rcases ring_of_part hpart client with hsame | ⟨decision, hrecord⟩ | hharvest
  · rw [hsame]
  · rw [hrecord]
    rfl
  · rw [hharvest, hring.read_harvest]
    exact hring.read_le

/-- Of each client's decisions a flush has read those that are due, by the time it stands at
this part; or it will still visit the client. -/
def Call.Reads (due : String → Nat) (controller : Controller) : Call → Prop
  | .listing => True
  | .visiting clients _ | .offering _ _ _ _ clients _ =>
      ∀ client, client ∉ clients → due client ≤ (controller.ring client).read
  | .reported _ => ∀ client, due client ≤ (controller.ring client).read
  | .finding _ | .entering _ | .judging _ | .recording .. | .counting .. | .answered .. => False

namespace Call.Reads

variable {due : String → Nat} {ledger : Ledger}

theorem mono {controller later : Controller} (h : call.Reads due controller)
    (hread : ∀ client, (controller.ring client).read ≤ (later.ring client).read) :
    call.Reads due later := by
  cases call with
  | listing => trivial
  | visiting clients report => exact fun client hclient => (h client hclient).trans (hread client)
  | offering other dropped decisions outcome clients report =>
      exact fun client hclient => (h client hclient).trans (hread client)
  | reported report => exact fun client => (h client).trans (hread client)
  | finding other => exact h.elim
  | entering other => exact h.elim
  | judging other => exact h.elim
  | recording other reading allowed => exact h.elim
  | counting other reading allowed => exact h.elim
  | answered other reading allowed => exact h.elim

theorem drain {controller : Controller} {clients : List String} {report : FlushReport}
    (h : Reads due controller (.visiting (client :: clients) report))
    (hrings : ∀ client, (controller.ring client).Holds (ledger.recordedOf client))
    (hdue : ∀ client, due client ≤ (ledger.recordedOf client).length) :
    ∀ other, other ∉ clients → due other ≤ ((controller.drain client).2.ring other).read := by
  intro other hother
  rcases Decidable.em (other = client) with rfl | hne
  · rw [Controller.ring_drain_self, (hrings other).read_harvest]
    exact hdue other
  · rw [Controller.ring_drain_of_ne _ hne]
    exact h other (List.not_mem_cons_of_ne_of_not_mem hne hother)

theorem part (h : call.Reads due site.controller)
    (hrings : ∀ client, (site.controller.ring client).Holds (ledger.recordedOf client))
    (hdue : ∀ client, due client ≤ (ledger.recordedOf client).length)
    (hpart : site.part? order call = some (next, after)) : next.Reads due after.controller := by
  cases part_of_some hpart with
  | list horder =>
      intro client hclient
      have hunknown : client ∉ site.controller.clients.names := by rwa [← horder.mem_iff]
      have hnone := (hrings client).published_eq
      rw [Controller.ring_of_none _ ((Index.find?_eq_none_iff _ client).mpr hunknown)] at hnone
      exact (hdue client).trans (hnone.symm.trans_le (Nat.zero_le _))
  | skip hempty => exact h.drain hrings hdue
  | drain hfull => exact h.drain hrings hdue
  | offer => exact h
  | account => exact h
  | report =>
      intro client
      rw [Controller.ring_countFlush]
      exact h client List.not_mem_nil
  | found | missed | enter | judge | record | count => exact h.elim

end Call.Reads

namespace System

variable {config : AdmissionConfig} {valid : config.Valid} {receive : Receiver σ} {sink : σ}
  {time : TimeSource} {before later : List Move} {system last : System σ} {move : Move}

theorem recordedOf_prefix_note (system : System σ) (move : Move) (ledger : Ledger)
    (client : String) :
    ledger.recordedOf client <+: (note system move ledger).recordedOf client := by
  cases move with
  | part index order =>
      simp only [note]
      split
      · rw [Ledger.recordedOf, Ledger.recordedOf, Ledger.recorded_add, List.filterMap_append]
        exact List.prefix_append _ _
      · exact List.prefix_refl _
  | request other => exact List.prefix_refl _
  | flush => exact List.prefix_refl _
  | clock tick => exact List.prefix_refl _

structure Onward (client : String) (ledger : Ledger) (system : System σ) (later : Ledger)
    (last : System σ) : Prop where
  recorded : ledger.recordedOf client <+: later.recordedOf client
  read_le : (system.site.controller.ring client).read ≤ (last.site.controller.ring client).read

theorem onward_of_step {ledger : Ledger}
    (hrings : ∀ client, (system.site.controller.ring client).Holds (ledger.recordedOf client))
    (hstep : step? system move = some last) (client : String) :
    Onward client ledger system (note system move ledger) last where
  recorded := system.recordedOf_prefix_note move ledger client
  read_le := by
    rcases step?_eq_some_iff.mp hstep with ⟨other, rfl, rfl⟩ | ⟨rfl, rfl⟩ | ⟨tick, rfl, rfl⟩ |
      ⟨index, order, call, next, site, rfl, -, hpart, rfl⟩
    · exact Nat.le_refl _
    · exact Nat.le_refl _
    · exact Nat.le_refl _
    · exact read_le_of_part (hrings client) hpart

theorem onward_of_run
    (hbefore : (start config valid receive sink time).run? before = some system)
    (hlater : system.run? later = some last) (client : String) :
    Onward client (ledger (start config valid receive sink time) before) system
      (ledger (start config valid receive sink time) (before ++ later)) last := by
  let Holds (moves : List Move) (state : System σ) : Prop :=
    Onward client (ledger (start config valid receive sink time) before) system
      (ledger (start config valid receive sink time) moves) state
  have honward : Holds (before ++ later) last :=
    Steps.run_induction_append hbefore hlater ⟨List.prefix_refl _, Nat.le_refl _⟩
        fun moves state hstate h move _ next hstep => by
      have hnext := onward_of_step (accounted_of_run hstate).balanced.rings hstep client
      rw [← ledger_concat hstate hstep] at hnext
      exact ⟨h.recorded.trans hnext.recorded, h.read_le.trans hnext.read_le⟩
  exact honward

/-- By the time a flush comes to its report, it has read what was recorded before it began. -/
theorem reads_of_flush
    (hbefore : (start config valid receive sink time).run? before = some system)
    (hlater : system.run? (.flush :: later) = some last) :
    ∃ call, last.calls[system.calls.length]? = some call ∧
      call.Reads (fun client =>
        ((ledger (start config valid receive sink time) before).recordedOf client).length)
        last.site.controller := by
  let due (client : String) : Nat :=
    ((ledger (start config valid receive sink time) before).recordedOf client).length
  let Holds (moves : List Move) (state : System σ) : Prop :=
    (∀ client, due client ≤
        ((ledger (start config valid receive sink time) moves).recordedOf client).length) ∧
      ∃ call, state.calls[system.calls.length]? = some call ∧ call.Reads due state.site.controller
  have hbegun : (start config valid receive sink time).run? (before ++ [.flush]) =
      some { system with calls := system.calls ++ [.listing] } :=
    Steps.run?_append_of_run? hbefore rfl
  have hfirst : Holds (before ++ [.flush]) { system with calls := system.calls ++ [.listing] } := by
    refine ⟨fun client => ?_, .listing, List.getElem?_concat_length, trivial⟩
    have hflush : system.run? [.flush] = some { system with calls := system.calls ++ [.listing] } :=
      rfl
    exact (onward_of_run hbefore hflush client).recorded.length_le
  have hreads : Holds (before ++ [.flush] ++ later) last :=
    Steps.run_induction_append hbegun hlater hfirst fun moves state hstate h move _ next hstep => by
      obtain ⟨hdue, call, hcall, hreads⟩ := h
      have hrings := (accounted_of_run hstate).balanced.rings
      have honward := onward_of_step hrings hstep
      rw [← ledger_concat hstate hstep] at honward
      refine ⟨fun client => (hdue client).trans (honward client).recorded.length_le, ?_⟩
      have hstays := hreads.mono fun client => (honward client).read_le
      rcases step?_eq_some_iff.mp hstep with ⟨other, rfl, rfl⟩ | ⟨rfl, rfl⟩ | ⟨tick, rfl, rfl⟩ |
        ⟨index, order, moved, following, site, rfl, hmoved, hpart, rfl⟩
      · exact ⟨call, getElem?_concat_eq_some.mpr (.inl hcall), hstays⟩
      · exact ⟨call, getElem?_concat_eq_some.mpr (.inl hcall), hstays⟩
      · exact ⟨call, hcall, hstays⟩
      · rcases Decidable.em (index = system.calls.length) with rfl | hne
        · cases hcall.symm.trans hmoved
          have hlt := (List.getElem?_eq_some_iff.mp hcall).1
          exact ⟨following, List.getElem?_set_self hlt, hreads.part hrings hdue hpart⟩
        · exact ⟨call, (List.getElem?_set_ne hne).trans hcall, hstays⟩
  exact hreads.2

end System

end Turnstile.Site

import Turnstile.Proofs.Site.Sequence

/-!
Two sites at which the same happens to one client, while the sinks reply
differently, flushes find the clients in another order, or other clients make
requests at one of them only. The client cannot tell them apart.
-/

namespace Turnstile.Site

def keep (marks : List Bool) (items : List α) : List α :=
  ((marks.zip items).filter Prod.fst).map Prod.snd

@[simp] theorem keep_nil (marks : List Bool) : keep marks ([] : List α) = [] := by
  simp [keep]

@[simp] theorem keep_cons_true (marks : List Bool) (item : α) (items : List α) :
    keep (true :: marks) (item :: items) = item :: keep marks items := rfl

@[simp] theorem keep_cons_false (marks : List Bool) (item : α) (items : List α) :
    keep (false :: marks) (item :: items) = keep marks items := rfl

theorem keep_replicate_true (items : List α) :
    keep (List.replicate items.length true) items = items := by
  induction items with
  | nil => rfl
  | cons item rest ih =>
      rw [List.length_cons, List.replicate_succ, keep_cons_true, ih]

theorem keep_replicate_false (items : List α) :
    keep (List.replicate items.length false) items = [] := by
  induction items with
  | nil => rfl
  | cons item rest ih =>
      rw [List.length_cons, List.replicate_succ, keep_cons_false, ih]

def Act.plain : Act → Act
  | .request client => .request client
  | .flush _ => .flush []
  | .clock step => .clock step

/-- What there is to see for one client after an act: the answer to a request of
its own, what a flush has sent of its decisions, and where it stands. -/
structure Sight where
  answer? : Option Bool := none
  sent : List Decision := []
  window : Window
  pending : Nat
  deriving DecidableEq, Repr

def sight (client : String) (site after : Site σ) (act : Act) : Sight where
  answer? := match act with
    | .request other => if other = client then some (site.allow other).1 else none
    | .flush _ | .clock _ => none
  sent := match act with
    | .flush order => sentTo client (site.sendings order)
    | .request _ | .clock _ => []
  window := after.controller.window client
  pending := after.controller.pending client

def sights (client : String) : Site σ → List Act → List Sight
  | _, [] => []
  | site, act :: rest =>
      match act? site act with
      | none => []
      | some after => sight client site after act :: sights client after rest

theorem sights_cons {client : String} {site after : Site σ} {act : Act}
    (hact : act? site act = some after) (rest : List Act) :
    sights client site (act :: rest) = sight client site after act :: sights client after rest := by
  simp only [sights, hact]

theorem length_sights {client : String} {site last : Site σ} {acts : List Act}
    (hrun : site.run? acts = some last) : (sights client site acts).length = acts.length := by
  induction acts generalizing site with
  | nil => rfl
  | cons act rest ih =>
      simp only [run?, Steps.run?_cons, Option.bind_eq_some_iff] at hrun
      obtain ⟨next, hact, hrest⟩ := hrun
      rw [sights_cons hact, List.length_cons, List.length_cons, ih hrest]

structure Alike (client : String) (site : Site σ) (other : Site τ) : Prop where
  config_eq : site.controller.config = other.controller.config
  time_eq : site.time = other.time
  window_eq : site.controller.window client = other.controller.window client
  ring_eq : site.controller.ring client = other.controller.ring client
  nodup : site.controller.clients.names.Nodup
  nodup_other : other.controller.clients.names.Nodup

namespace Alike

variable {client : String} {site after : Site σ} {other otherAfter : Site τ}

theorem symm (h : Alike client site other) : Alike client other site where
  config_eq := h.config_eq.symm
  time_eq := h.time_eq.symm
  window_eq := h.window_eq.symm
  ring_eq := h.ring_eq.symm
  nodup := h.nodup_other
  nodup_other := h.nodup

theorem pending_eq (h : Alike client site other) :
    site.controller.pending client = other.controller.pending client := by
  rw [Controller.pending_eq, Controller.pending_eq, h.ring_eq]

theorem stranger (h : Alike client site other) {name : String} (hne : client ≠ name) :
    Alike client (site.allow name).2 other where
  config_eq := (Controller.config_allow ..).trans h.config_eq
  time_eq := h.time_eq
  window_eq := (Controller.window_allow_of_ne _ hne _).trans h.window_eq
  ring_eq := (Controller.ring_allow_of_ne _ hne _).trans h.ring_eq
  nodup := Controller.nodup_names_allow _ h.nodup _ _
  nodup_other := h.nodup_other

theorem answer_eq (h : Alike client site other) :
    (site.allow client).1 = (other.allow client).1 := by
  simp only [allow, Controller.allow_fst, h.config_eq, h.time_eq, h.window_eq]

theorem own (h : Alike client site other) :
    Alike client (site.allow client).2 (other.allow client).2 where
  config_eq := by
    simp only [allow, Controller.config_allow]
    exact h.config_eq
  time_eq := h.time_eq
  window_eq := by
    simp only [allow, Controller.window_allow_self, h.config_eq, h.time_eq, h.window_eq]
  ring_eq := by
    have hanswer := h.answer_eq
    simp only [allow] at hanswer ⊢
    rw [Controller.ring_allow_self, Controller.ring_allow_self, hanswer, h.time_eq, h.ring_eq]
  nodup := Controller.nodup_names_allow _ h.nodup _ _
  nodup_other := Controller.nodup_names_allow _ h.nodup_other _ _

theorem request (h : Alike client site other) (name : String) :
    Alike client (site.allow name).2 (other.allow name).2 := by
  rcases Decidable.em (client = name) with rfl | hne
  · exact h.own
  · exact ((h.stranger hne).symm.stranger hne).symm

theorem flush (h : Alike client site other) {sent otherSent : List Sending}
    (hflushed : Flushed site sent after) (hother : Flushed other otherSent otherAfter) :
    Alike client after otherAfter where
  config_eq := hflushed.config_eq.trans (h.config_eq.trans hother.config_eq.symm)
  time_eq := hflushed.time_eq.trans (h.time_eq.trans hother.time_eq.symm)
  window_eq := by rw [hflushed.window_eq, hother.window_eq, h.window_eq]
  ring_eq := by rw [hflushed.ring_eq, hother.ring_eq, h.ring_eq]
  nodup := hflushed.names_eq ▸ h.nodup
  nodup_other := hother.names_eq ▸ h.nodup_other

theorem act {act otherAct : Act} (h : Alike client site other)
    (hplain : otherAct.plain = act.plain) (hact : act? site act = some after)
    (hotherAct : act? other otherAct = some otherAfter) :
    Alike client after otherAfter ∧
      sight client other otherAfter otherAct = sight client site after act := by
  cases act with
  | request name =>
      cases otherAct with
      | request otherName =>
          cases hplain
          cases hact
          cases hotherAct
          have hafter := h.request name
          refine ⟨hafter, ?_⟩
          have hanswer : name = client → (other.allow name).1 = (site.allow name).1 := by
            rintro rfl
            exact h.answer_eq.symm
          simp only [sight, hafter.window_eq, hafter.pending_eq]
          split
          · rename_i hsame
            rw [hanswer hsame]
          · rfl
      | flush order => cases hplain
      | clock step => cases hplain
  | flush order =>
      cases otherAct with
      | request otherName => cases hplain
      | flush otherOrder =>
          simp only [act?, Option.ite_none_right_eq_some, Option.some.injEq] at hact hotherAct
          obtain ⟨hperm, rfl⟩ := hact
          obtain ⟨hotherPerm, rfl⟩ := hotherAct
          have hflushed := site.flushed h.nodup (List.isPerm_iff.mp hperm)
          have hother := other.flushed h.nodup_other (List.isPerm_iff.mp hotherPerm)
          have hafter := h.flush hflushed hother
          refine ⟨hafter, ?_⟩
          simp only [sight, hafter.window_eq, hafter.pending_eq, hflushed.sentTo_eq,
            hother.sentTo_eq, h.ring_eq]
      | clock step => cases hplain
  | clock step =>
      cases otherAct with
      | request otherName => cases hplain
      | flush otherOrder => cases hplain
      | clock otherStep =>
          cases hplain
          cases hact
          cases hotherAct
          have hafter : Alike client (site.move step) (other.move step) :=
            { h with time_eq := congrArg (·.move step) h.time_eq }
          refine ⟨hafter, ?_⟩
          simp only [sight, hafter.window_eq, hafter.pending_eq]

theorem sights_eq {acts others : List Act} {marks : List Bool} {last : Site σ}
    {otherLast : Site τ} (h : Alike client site other) (hmarks : marks.length = acts.length)
    (hdropped : ∀ act ∈ keep (marks.map not) acts, ∃ name, name ≠ client ∧ act = .request name)
    (hplain : others.map Act.plain = (keep marks acts).map Act.plain)
    (hrun : site.run? acts = some last) (hother : other.run? others = some otherLast) :
    sights client other others = keep marks (sights client site acts) := by
  induction acts generalizing marks others site other with
  | nil =>
      have hnone : others = [] := by simpa using hplain
      rw [hnone]
      exact (keep_nil marks).symm
  | cons act rest ih =>
      cases marks with
      | nil => cases hmarks
      | cons mark marks =>
          have hlength : marks.length = rest.length := Nat.succ.inj hmarks
          simp only [run?, Steps.run?_cons, Option.bind_eq_some_iff] at hrun
          obtain ⟨next, hact, hrest⟩ := hrun
          rw [sights_cons hact]
          cases mark with
          | false =>
              simp only [List.map_cons, Bool.not_false, keep_cons_true] at hdropped
              obtain ⟨name, hne, rfl⟩ := hdropped act List.mem_cons_self
              cases hact
              exact ih (h.stranger hne.symm) hlength
                (fun act hmem => hdropped act (List.mem_cons_of_mem _ hmem)) hplain hrest hother
          | true =>
              cases others with
              | nil => cases hplain
              | cons otherAct others =>
                  simp only [keep_cons_true, List.map_cons, List.cons.injEq] at hplain
                  simp only [run?, Steps.run?_cons, Option.bind_eq_some_iff] at hother
                  obtain ⟨otherNext, hotherAct, hotherRest⟩ := hother
                  obtain ⟨hnext, hsight⟩ := h.act hplain.1 hact hotherAct
                  have htail := ih hnext hlength hdropped hplain.2 hrest hotherRest
                  rw [sights_cons hotherAct, keep_cons_true, hsight, htail]

end Alike

theorem alike_start {config : AdmissionConfig} (valid : config.Valid) (receive : Receiver σ)
    (sink : σ) (otherReceive : Receiver τ) (otherSink : τ) (time : TimeSource)
    (client : String) :
    Alike client (start config valid receive sink time)
      (start config valid otherReceive otherSink time) where
  config_eq := rfl
  time_eq := rfl
  window_eq := rfl
  ring_eq := rfl
  nodup := .nil
  nodup_other := .nil

/-- Any acts can follow, if each flush finds the clients in some order. -/
theorem exists_run?_plain (site : Site σ) (acts : List Act) :
    ∃ others last, others.map Act.plain = acts.map Act.plain ∧ site.run? others = some last := by
  induction acts generalizing site with
  | nil => exact ⟨[], site, rfl, rfl⟩
  | cons act rest ih =>
      obtain ⟨possible, after, hplain, hact⟩ :
          ∃ possible after, possible.plain = act.plain ∧ act? site possible = some after := by
        cases act with
        | request client => exact ⟨.request client, _, rfl, rfl⟩
        | flush order =>
            refine ⟨.flush site.controller.clients.names, _, rfl, if_pos ?_⟩
            exact List.isPerm_iff.mpr (List.Perm.refl _)
        | clock step => exact ⟨.clock step, _, rfl, rfl⟩
      obtain ⟨others, last, hothers, hrun⟩ := ih after
      refine ⟨possible :: others, last, ?_, ?_⟩
      · rw [List.map_cons, List.map_cons, hplain, hothers]
      · rw [run?, Steps.run?_cons, hact]
        exact hrun

/-- Where calls come one after the other, the decisions made since the last flush
settle what the next one sends and reports. The replies of the sink and the order
of the clients settle nothing that comes later, and nothing is sent twice. -/
theorem flushes_follow_decisions {config : AdmissionConfig} (valid : config.Valid)
    (receive : Receiver σ) (sink : σ) (time : TimeSource) {acts : List Act} {site : Site σ}
    (hrun : (start config valid receive sink time).run? acts = some site) :
    (∀ order, order.Perm site.controller.clients.names →
      act? site (.flush order) = some (site.flushInOrder order).2 ∧
      (site.flushInOrder order).2.sink =
        (site.sendings order).foldl (Sending.pass receive) site.sink ∧
      Exact config.capacity (log (start config valid receive sink time) acts)
        (site.flushInOrder order).1 (site.sendings order)) ∧
    (∀ client, (offered client (log (start config valid receive sink time) acts)).Sublist
      (decisions client (log (start config valid receive sink time) acts))) ∧
    ∀ {τ : Type} (otherReceive : Receiver τ) (otherSink : τ) {others : List Act} {last : Site τ},
      others.map Act.plain = acts.map Act.plain →
      (start config valid otherReceive otherSink time).run? others = some last →
      ∀ client, sights client (start config valid otherReceive otherSink time) others =
        sights client (start config valid receive sink time) acts := by
  have hstanding := standing_of_run hrun
  have hreceive : site.receive = receive := receive_of_run hrun
  refine ⟨?_, hstanding.offered_sublist, ?_⟩
  · intro order horder
    refine ⟨if_pos (List.isPerm_iff.mpr horder), ?_, hstanding.exact horder⟩
    rw [(site.flushed hstanding.nodup horder).sink_eq, hreceive]
  · intro τ otherReceive otherSink others last hplain hother client
    have halike := alike_start valid receive sink otherReceive otherSink time client
    have hall : (List.replicate acts.length true).length = acts.length := List.length_replicate
    rw [halike.sights_eq hall (by simp [keep_replicate_false])
      (by rw [keep_replicate_true, hplain]) hrun hother, ← length_sights hrun,
      keep_replicate_true]

theorem valid_oneSlot : (⟨1, .ofParts 0 10, 1⟩ : AdmissionConfig).Valid := by decide

def panickingSite : Site Unit :=
  start ⟨1, .ofParts 0 10, 1⟩ valid_oneSlot
    (fun _ _ decision => (⟨cond decision.allowed .delivered (.panicked "boom"), []⟩, ()))
    () (.manual ⟨0, Nat.zero_le _⟩)

def overflowActs : List Act :=
  [.request "a", .request "a", .request "b", .flush ["b", "a"], .request "a",
    .clock (.set maxNanos), .request "b", .request "b", .request "a"]

def reorderedActs : List Act :=
  [.request "a", .request "a", .request "b", .flush ["a", "b"], .request "a",
    .clock (.set maxNanos), .request "b", .request "b", .request "a"]

theorem flushes_follow_decisions_overflowActs :
    ∃ site, panickingSite.run? overflowActs = some site ∧
      site.sendings ["b", "a"] =
        [⟨"b", ⟨Decision.maxTime, false⟩, .panicked "boom"⟩,
          ⟨"a", ⟨Decision.maxTime, true⟩, .delivered⟩] ∧
      Exact 1 (log panickingSite overflowActs) ⟨2, 1, 2, 1⟩ (site.sendings ["b", "a"]) ∧
      [⟨0, false⟩].Sublist (decisions "a" (log panickingSite overflowActs)) ∧
      sights "a" (start ⟨1, .ofParts 0 10, 1⟩ valid_oneSlot Sink.send .null (.manual {}))
        reorderedActs = sights "a" panickingSite overflowActs := by
  obtain ⟨site, hrun, hnames, hsendings, hreport⟩ :
      ∃ site, panickingSite.run? overflowActs = some site ∧
        site.controller.clients.names = ["a", "b"] ∧
        site.sendings ["b", "a"] =
          [⟨"b", ⟨Decision.maxTime, false⟩, .panicked "boom"⟩,
            ⟨"a", ⟨Decision.maxTime, true⟩, .delivered⟩] ∧
        (site.flushInOrder ["b", "a"]).1 = ⟨2, 1, 2, 1⟩ :=
    ⟨_, rfl, rfl, rfl, rfl⟩
  obtain ⟨hflushes, hoffered, hsights⟩ :=
    flushes_follow_decisions valid_oneSlot _ () (.manual {}) hrun
  have hflush := hflushes ["b", "a"] (hnames ▸ List.Perm.swap ..)
  have hplain : reorderedActs.map Act.plain = overflowActs.map Act.plain := rfl
  exact ⟨site, hrun, hsendings, hreport ▸ hflush.2.2, hoffered "a",
    hsights Sink.send .null hplain rfl "a"⟩

/-- Whatever requests of other clients are left out, a client gets the same
answers, its flushes send the same, and after every act that remains it stands
where it would have stood. -/
theorem sights_unchanged {config : AdmissionConfig} (valid : config.Valid)
    (receive : Receiver σ) (sink : σ) (time : TimeSource) {client : String} {acts : List Act}
    {marks : List Bool} {last : Site σ} (hmarks : marks.length = acts.length)
    (hdropped : ∀ act ∈ keep (marks.map not) acts, ∃ name, name ≠ client ∧ act = .request name)
    (hrun : (start config valid receive sink time).run? acts = some last) :
    (∃ others left, others.map Act.plain = (keep marks acts).map Act.plain ∧
      (start config valid receive sink time).run? others = some left) ∧
    ∀ others left, others.map Act.plain = (keep marks acts).map Act.plain →
      (start config valid receive sink time).run? others = some left →
      sights client (start config valid receive sink time) others =
        keep marks (sights client (start config valid receive sink time) acts) := by
  refine ⟨exists_run?_plain _ _, ?_⟩
  intro others left hplain hother
  have halike := alike_start valid receive sink receive sink time client
  exact halike.sights_eq hmarks hdropped hplain hrun hother

def aloneMarks : List Bool := [true, true, false, true, true, true, false, false, true]

def aloneActs : List Act :=
  [.request "a", .request "a", .flush ["a"], .request "a", .clock (.set maxNanos), .request "a"]

theorem sights_unchanged_aloneMarks :
    ∃ left, panickingSite.run? aloneActs = some left ∧
      sights "a" panickingSite aloneActs =
        keep aloneMarks (sights "a" panickingSite overflowActs) := by
  obtain ⟨site, hrun⟩ : ∃ site, panickingSite.run? overflowActs = some site := ⟨_, rfl⟩
  obtain ⟨left, hleft⟩ : ∃ left, panickingSite.run? aloneActs = some left := ⟨_, rfl⟩
  have hstrangers : ∀ act ∈ keep (aloneMarks.map not) overflowActs,
      ∃ name, name ≠ "a" ∧ act = .request name := by
    intro act hmem
    refine ⟨"b", by decide, ?_⟩
    simpa [aloneMarks, overflowActs, keep] using hmem
  have hunchanged := sights_unchanged valid_oneSlot _ () (.manual {}) rfl hstrangers hrun
  exact ⟨left, hleft, hunchanged.2 aloneActs left rfl hleft⟩

end Turnstile.Site

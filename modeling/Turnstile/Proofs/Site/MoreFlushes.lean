import Turnstile.Proofs.Site.Isolation
import Turnstile.Proofs.Site.Numbering

/-!
Two sites at which the same requests are made, one of which has the larger rings and is flushed
whenever the other is, and perhaps more often. Both decide alike, and whatever the one sends the
other sends as well.
-/

namespace Turnstile.Site

/-- The second acts are the first with more flushes among them. -/
inductive MoreFlushes : List Act → List Act → Prop
  | nil : MoreFlushes [] []
  | request (client : String) (h : MoreFlushes acts others) :
      MoreFlushes (.request client :: acts) (.request client :: others)
  | clock (step : Clock.Move) (h : MoreFlushes acts others) :
      MoreFlushes (.clock step :: acts) (.clock step :: others)
  | flush (order otherOrder : List String) (h : MoreFlushes acts others) :
      MoreFlushes (.flush order :: acts) (.flush otherOrder :: others)
  | extra (order : List String) (h : MoreFlushes acts others) :
      MoreFlushes acts (.flush order :: others)

theorem MoreFlushes.of_plain {acts more others : List Act} (h : MoreFlushes acts more)
    (hplain : others.map Act.plain = more.map Act.plain) : MoreFlushes acts others := by
  induction h generalizing others with
  | nil =>
      rw [List.map_eq_nil_iff.mp hplain]
      exact .nil
  | request client _ ih =>
      obtain ⟨act, rest, rfl, hact, hrest⟩ := List.map_eq_cons_iff.mp hplain
      cases act <;> cases hact
      exact .request client (ih hrest)
  | clock step _ ih =>
      obtain ⟨act, rest, rfl, hact, hrest⟩ := List.map_eq_cons_iff.mp hplain
      cases act <;> cases hact
      exact .clock step (ih hrest)
  | flush order _ _ ih =>
      obtain ⟨act, rest, rfl, hact, hrest⟩ := List.map_eq_cons_iff.mp hplain
      cases act with
      | flush otherOrder => exact .flush order otherOrder (ih hrest)
      | request client => cases hact
      | clock step => cases hact
  | extra _ _ ih =>
      obtain ⟨act, rest, rfl, hact, hrest⟩ := List.map_eq_cons_iff.mp hplain
      cases act with
      | flush otherOrder => exact .extra otherOrder (ih hrest)
      | request client => cases hact
      | clock step => cases hact

def answered (log : List Entry) : List Entry := log.filter fun entry => entry.requester?.isSome

theorem answered_flushed (log : List Entry) (report : FlushReport) (sent : List Sending) :
    answered (log ++ [.flushed report sent]) = answered log := by
  rw [answered, List.filter_append]
  exact List.append_nil _

/-- The second log has the answers of the first, and its flushes and perhaps more. -/
structure Covers (log other : List Entry) : Prop where
  answered_eq : answered other = answered log
  flushedAt_subset : ∀ client,
    (numbering client log).flushedAt ⊆ (numbering client other).flushedAt

theorem decisions_answered (client : String) (log : List Entry) :
    decisions client (answered log) = decisions client log := by
  rw [decisions, decisions, answered, List.filterMap_filter]
  apply List.filterMap_congr
  intro entry _
  cases entry <;> rfl

namespace Covers

variable {log other : List Entry}

theorem decisions_eq (h : Covers log other) (client : String) :
    decisions client other = decisions client log := by
  rw [← decisions_answered, h.answered_eq, decisions_answered]

theorem answer (h : Covers log other) (client : String) (reading : Nat) (allowed : Bool) :
    Covers (log ++ [.answered client reading allowed])
      (other ++ [.answered client reading allowed]) where
  answered_eq := by
    rw [answered, answered, List.filter_append, List.filter_append]
    exact congrArg (· ++ [_]) h.answered_eq
  flushedAt_subset := by
    intro name
    rcases Decidable.em (name = client) with rfl | hne
    · rw [numbering_answered_self, numbering_answered_self]
      exact h.flushedAt_subset name
    · rw [numbering_answered_of_ne _ _ hne, numbering_answered_of_ne _ _ hne]
      exact h.flushedAt_subset name

theorem extra (h : Covers log other) (report : FlushReport) (sent : List Sending) :
    Covers log (other ++ [.flushed report sent]) where
  answered_eq := (answered_flushed ..).trans h.answered_eq
  flushedAt_subset := by
    intro client
    rw [numbering_concat]
    exact List.subset_append_of_subset_left _ (h.flushedAt_subset client)

theorem flush (h : Covers log other) (report otherReport : FlushReport)
    (sent otherSent : List Sending) :
    Covers (log ++ [.flushed report sent]) (other ++ [.flushed otherReport otherSent]) where
  answered_eq := by rw [answered_flushed, answered_flushed, h.answered_eq]
  flushedAt_subset := by
    intro client
    have hmade : (numbering client log).made = (numbering client other).made := by
      rw [made_numbering, made_numbering, h.decisions_eq]
    rw [numbering_concat, numbering_concat, Numbering.add, Numbering.add, hmade]
    exact List.append_subset.mpr
      ⟨List.subset_append_of_subset_left _ (h.flushedAt_subset client),
        List.subset_append_right _ _⟩

end Covers

/-- Two sites that would answer every request alike, whatever their rings hold. -/
structure Agree (site : Site σ) (other : Site τ) : Prop where
  limit_eq : other.controller.config.limit = site.controller.config.limit
  span_eq : other.controller.config.span = site.controller.config.span
  time_eq : other.time = site.time
  window_eq : ∀ client, other.controller.window client = site.controller.window client
  nodup : site.controller.clients.names.Nodup
  nodup_other : other.controller.clients.names.Nodup

namespace Agree

variable {site after last : Site σ} {other otherAfter otherLast : Site τ}

theorem answer_eq (h : Agree site other) (client : String) :
    (other.allow client).1 = (site.allow client).1 := by
  simp only [allow, Controller.allow_fst, h.limit_eq, h.span_eq, h.time_eq, h.window_eq]

theorem request (h : Agree site other) (client : String) :
    Agree (site.allow client).2 (other.allow client).2 where
  limit_eq := by
    simp only [allow, Controller.config_allow]
    exact h.limit_eq
  span_eq := by
    simp only [allow, Controller.config_allow]
    exact h.span_eq
  time_eq := h.time_eq
  window_eq := by
    intro name
    rcases Decidable.em (name = client) with rfl | hne
    · simp only [allow, Controller.window_allow_self, h.limit_eq, h.span_eq, h.time_eq,
        h.window_eq]
    · simp only [allow, Controller.window_allow_of_ne _ hne, h.window_eq]
  nodup := Controller.nodup_names_allow _ h.nodup _ _
  nodup_other := Controller.nodup_names_allow _ h.nodup_other _ _

theorem flushed (h : Agree site other) {sent : List Sending} (hflushed : Flushed site sent after) :
    Agree after other where
  limit_eq := by rw [hflushed.config_eq, h.limit_eq]
  span_eq := by rw [hflushed.config_eq, h.span_eq]
  time_eq := by rw [hflushed.time_eq, h.time_eq]
  window_eq := fun client => by rw [hflushed.window_eq, h.window_eq]
  nodup := hflushed.names_eq ▸ h.nodup
  nodup_other := h.nodup_other

theorem otherFlushed (h : Agree site other) {sent : List Sending}
    (hflushed : Flushed other sent otherAfter) : Agree site otherAfter where
  limit_eq := by rw [hflushed.config_eq, h.limit_eq]
  span_eq := by rw [hflushed.config_eq, h.span_eq]
  time_eq := by rw [hflushed.time_eq, h.time_eq]
  window_eq := fun client => by rw [hflushed.window_eq, h.window_eq]
  nodup := h.nodup
  nodup_other := hflushed.names_eq ▸ h.nodup_other

theorem covers {acts others : List Act} (hmore : MoreFlushes acts others) (h : Agree site other)
    {log otherLog : List Entry} (hlog : Covers log otherLog)
    (hrun : site.run? acts = some last) (hother : other.run? others = some otherLast) :
    Covers (Steps.history act? note log site acts)
      (Steps.history act? note otherLog other others) := by
  induction hmore generalizing site other log otherLog with
  | nil => exact hlog
  | request client _ ih =>
      rw [run?, Steps.run?_cons, act?, Option.bind_some] at hrun hother
      rw [Steps.history_cons_of_step _ _ rfl, Steps.history_cons_of_step _ _ rfl]
      refine ih (h.request client) ?_ hrun hother
      simp only [note, entries, h.answer_eq, h.time_eq]
      exact hlog.answer client _ _
  | clock step _ ih =>
      rw [run?, Steps.run?_cons, act?, Option.bind_some] at hrun hother
      rw [Steps.history_cons_of_step _ _ rfl, Steps.history_cons_of_step _ _ rfl]
      have hmoved : Agree (site.move step) (other.move step) :=
        { h with time_eq := congrArg (·.move step) h.time_eq }
      refine ih hmoved ?_ hrun hother
      simpa only [note, entries, List.append_nil] using hlog
  | flush order otherOrder _ ih =>
      simp only [run?, Steps.run?_cons, Option.bind_eq_some_iff] at hrun hother
      obtain ⟨next, hact, hrest⟩ := hrun
      obtain ⟨otherNext, hotherAct, hotherRest⟩ := hother
      rw [Steps.history_cons_of_step _ _ hact, Steps.history_cons_of_step _ _ hotherAct]
      simp only [act?, Option.ite_none_right_eq_some, Option.some.injEq] at hact hotherAct
      obtain ⟨hperm, rfl⟩ := hact
      obtain ⟨hotherPerm, rfl⟩ := hotherAct
      have hflushed := site.flushed h.nodup (List.isPerm_iff.mp hperm)
      have hotherFlushed := other.flushed h.nodup_other (List.isPerm_iff.mp hotherPerm)
      exact ih ((h.flushed hflushed).otherFlushed hotherFlushed) (hlog.flush _ _ _ _) hrest
        hotherRest
  | extra order _ ih =>
      simp only [run?, Steps.run?_cons, Option.bind_eq_some_iff] at hother
      obtain ⟨otherNext, hotherAct, hotherRest⟩ := hother
      rw [Steps.history_cons_of_step _ _ hotherAct]
      simp only [act?, Option.ite_none_right_eq_some, Option.some.injEq] at hotherAct
      obtain ⟨hotherPerm, rfl⟩ := hotherAct
      have hotherFlushed := other.flushed h.nodup_other (List.isPerm_iff.mp hotherPerm)
      exact ih (h.otherFlushed hotherFlushed) (hlog.extra _ _) hrun hotherRest

end Agree

theorem agree_start {config roomier : AdmissionConfig} (valid : config.Valid)
    (roomierValid : roomier.Valid) (hlimit : roomier.limit = config.limit)
    (hwindow : roomier.window = config.window) (receive : Receiver σ) (sink : σ)
    (otherReceive : Receiver τ) (otherSink : τ) (time : TimeSource) :
    Agree (start config valid receive sink time)
      (start roomier roomierValid otherReceive otherSink time) where
  limit_eq := hlimit
  span_eq := congrArg Duration.clipped hwindow
  time_eq := rfl
  window_eq := fun _ => rfl
  nodup := .nil
  nodup_other := .nil

/-- What the sink has been offered of a client's decisions, by number: each at most once and in
order, and all that were made before the latest flush if none of the flushes came too late. -/
structure Delivers (capacity : Nat) (client : String) (log : List Entry) : Prop where
  increasing : (numbering client log).sent.Pairwise (· < ·)
  offered_eq : (offered client log).map some =
    (numbering client log).sent.map fun number => (decisions client log)[number]?
  offered_sublist : (offered client log).Sublist (decisions client log)
  complete : InTime capacity client log →
    decisions client log = offered client log ++ unflushed client log

theorem delivers_of_run {config : AdmissionConfig} {valid : config.Valid} {receive : Receiver σ}
    {sink : σ} {time : TimeSource} {acts : List Act} {last : Site σ}
    (hrun : (start config valid receive sink time).run? acts = some last) (client : String) :
    Delivers config.capacity client (log (start config valid receive sink time) acts) := by
  have hnumbered := numbered_of_run hrun client
  exact ⟨hnumbered.increasing, hnumbered.offered_eq,
    (standing_of_run hrun).offered_sublist client, hnumbered.complete⟩

/-- With larger rings and more flushes a site decides as before, and every decision that reached
the sink still reaches it. -/
theorem more_flushes_lose_nothing {config roomier : AdmissionConfig} (valid : config.Valid)
    (roomierValid : roomier.Valid) (hlimit : roomier.limit = config.limit)
    (hwindow : roomier.window = config.window) (hcapacity : config.capacity ≤ roomier.capacity)
    (receive : Receiver σ) (sink : σ) (otherReceive : Receiver τ) (otherSink : τ)
    (time : TimeSource) {acts more : List Act} (hmore : MoreFlushes acts more) {last : Site σ}
    (hrun : (start config valid receive sink time).run? acts = some last) :
    (∃ others otherLast, others.map Act.plain = more.map Act.plain ∧
      (start roomier roomierValid otherReceive otherSink time).run? others = some otherLast) ∧
    ∀ others otherLast, others.map Act.plain = more.map Act.plain →
      (start roomier roomierValid otherReceive otherSink time).run? others = some otherLast →
      answered (log (start roomier roomierValid otherReceive otherSink time) others) =
        answered (log (start config valid receive sink time) acts) ∧
      ∀ client,
        (numbering client (log (start config valid receive sink time) acts)).sent ⊆
          (numbering client
            (log (start roomier roomierValid otherReceive otherSink time) others)).sent ∧
        Delivers config.capacity client (log (start config valid receive sink time) acts) ∧
        Delivers roomier.capacity client
          (log (start roomier roomierValid otherReceive otherSink time) others) := by
  refine ⟨exists_run?_plain _ more, fun others otherLast hplain hother => ?_⟩
  have hagree := agree_start valid roomierValid hlimit hwindow receive sink otherReceive
    otherSink time
  have hempty : Covers [] [] := ⟨rfl, fun _ => List.Subset.refl _⟩
  have hcovers := hagree.covers (hmore.of_plain hplain) hempty hrun hother
  refine ⟨hcovers.answered_eq, fun client =>
    ⟨fun number hmem => ?_, delivers_of_run hrun client, delivers_of_run hother client⟩⟩
  obtain ⟨mark, hmark, hlt, hle⟩ := ((numbered_of_run hrun client).mem_sent number).mp hmem
  exact ((numbered_of_run hother client).mem_sent number).mpr
    ⟨mark, hcovers.flushedAt_subset client hmark, hlt, by omega⟩

theorem valid_twoSlots : (⟨1, .ofParts 0 10, 2⟩ : AdmissionConfig).Valid := by decide

def twoSlotSite : Site Sink :=
  start ⟨1, .ofParts 0 10, 2⟩ valid_twoSlots Sink.send .null (.manual ⟨0, Nat.zero_le _⟩)

def lateActs : List Act :=
  [.request "a", .request "a", .flush ["a"], .request "a", .request "b", .request "a",
    .flush ["b", "a"]]

def promptActs : List Act :=
  [.request "a", .flush ["a"], .request "a", .flush ["a"], .request "a", .request "b",
    .request "a", .flush ["a", "b"]]

theorem more_flushes_lose_nothing_promptActs :
    MoreFlushes lateActs promptActs ∧
      (∃ last, panickingSite.run? lateActs = some last) ∧
      (∃ last, twoSlotSite.run? promptActs = some last) ∧
      (numbering "a" (log panickingSite lateActs)).sent = [1, 3] ∧
      (numbering "a" (log twoSlotSite promptActs)).sent = [0, 1, 2, 3] ∧
      answered (log twoSlotSite promptActs) = answered (log panickingSite lateActs) ∧
      (numbering "a" (log panickingSite lateActs)).sent ⊆
        (numbering "a" (log twoSlotSite promptActs)).sent ∧
      Delivers 2 "a" (log twoSlotSite promptActs) := by
  obtain ⟨last, hrun⟩ : ∃ last, panickingSite.run? lateActs = some last := ⟨_, rfl⟩
  obtain ⟨otherLast, hother⟩ : ∃ last, twoSlotSite.run? promptActs = some last := ⟨_, rfl⟩
  have hmore : MoreFlushes lateActs promptActs :=
    .request _ (.extra _ (.request _ (.flush _ _ (.request _ (.request _ (.request _
      (.flush _ _ .nil)))))))
  obtain ⟨hanswered, hclients⟩ := (more_flushes_lose_nothing valid_oneSlot valid_twoSlots rfl rfl
    (by decide) _ () Sink.send .null (.manual ⟨0, Nat.zero_le _⟩) hmore hrun).2 promptActs
    otherLast rfl hother
  obtain ⟨hsubset, -, hdelivers⟩ := hclients "a"
  exact ⟨hmore, ⟨last, hrun⟩, ⟨otherLast, hother⟩, rfl, rfl, hanswered, hsubset, hdelivers⟩

end Turnstile.Site

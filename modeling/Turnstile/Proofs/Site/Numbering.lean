import Turnstile.Proofs.Site.Sequence

/-!
Which of a client's decisions reach the sink. Decisions may look alike, so each is told from the
others by its number. A decision is sent if some flush comes after it and before the ring has
gone round once more, and by no other flush than the first of these.
-/

namespace Turnstile.Site

/-- The decisions of one client by their numbers, which begin at zero. -/
structure Numbering where
  made : Nat := 0
  /-- For each flush, how many decisions had been made by then. -/
  flushedAt : List Nat := []
  /-- The numbers of the decisions that flushes have sent. -/
  sent : List Nat := []
  deriving DecidableEq, Repr

def Numbering.add (client : String) (numbering : Numbering) : Entry → Numbering
  | .answered other _ _ =>
      if other = client then { numbering with made := numbering.made + 1 } else numbering
  | .flushed _ sent =>
      let count := (sentTo client sent).length
      { numbering with
        flushedAt := numbering.flushedAt ++ [numbering.made]
        sent := numbering.sent ++ List.range' (numbering.made - count) count }

def numbering (client : String) (log : List Entry) : Numbering :=
  log.foldl (Numbering.add client) {}

section Numbering

variable (client : String) (log : List Entry)

theorem numbering_concat (entry : Entry) :
    numbering client (log ++ [entry]) = (numbering client log).add client entry :=
  List.foldl_concat ..

theorem numbering_answered_self (reading : Nat) (allowed : Bool) :
    numbering client (log ++ [.answered client reading allowed]) =
      { numbering client log with made := (numbering client log).made + 1 } := by
  rw [numbering_concat, Numbering.add, if_pos rfl]

theorem numbering_answered_of_ne {other : String} (hne : client ≠ other) (reading : Nat)
    (allowed : Bool) :
    numbering client (log ++ [.answered other reading allowed]) = numbering client log := by
  rw [numbering_concat, Numbering.add, if_neg hne.symm]

theorem made_numbering : (numbering client log).made = (decisions client log).length := by
  induction log using List.reverseRecOn with
  | nil => rfl
  | append_singleton log entry ih =>
      cases entry with
      | answered other reading allowed =>
          rcases Decidable.em (client = other) with rfl | hne
          · rw [numbering_answered_self, decisions_answered_self, List.length_append, ih]
            rfl
          · rw [numbering_answered_of_ne _ _ hne, decisions_answered_of_ne _ _ hne, ih]
      | flushed report sent => rw [numbering_concat, Numbering.add, decisions_flushed, ih]

end Numbering

/-- At no flush had a client more decisions unsent than its ring has room for. -/
def InTime (capacity : Nat) (client : String) (log : List Entry) : Prop :=
  ∀ past report sent, past ++ [.flushed report sent] <+: log →
    (unflushed client past).length ≤ capacity

theorem InTime.of_concat {capacity : Nat} {client : String} {log : List Entry} {entry : Entry}
    (h : InTime capacity client (log ++ [entry])) : InTime capacity client log :=
  fun past report sent hsent => h past report sent (hsent.trans (List.prefix_append ..))

theorem map_some_rtake (items : List α) {count : Nat} (hcount : count ≤ items.length) :
    (items.rtake count).map some =
      (List.range' (items.length - count) count).map fun number => items[number]? := by
  apply List.ext_getElem?
  intro place
  rw [List.rtake, List.getElem?_map, List.getElem?_map, List.getElem?_drop]
  rcases Nat.lt_or_ge place count with hplace | hplace
  · have hsome := List.getElem?_eq_getElem
      (show items.length - count + place < items.length by omega)
    rw [List.getElem?_range' hplace, Nat.one_mul, Option.map_some, hsome, Option.map_some]
  · rw [List.getElem?_eq_none (by omega), List.getElem?_eq_none (by simpa using hplace)]
    rfl

/-- What the numbers of a client's decisions tell about a log whose flushes send at most
`capacity` of them at once. -/
structure Numbered (capacity : Nat) (client : String) (log : List Entry) : Prop where
  /-- All decisions are unsent, or those made since some flush. -/
  latest : (decisions client log).length = (unflushed client log).length ∨
    ∃ mark ∈ (numbering client log).flushedAt,
      (decisions client log).length = mark + (unflushed client log).length
  suffix : unflushed client log <:+ decisions client log
  increasing : (numbering client log).sent.Pairwise (· < ·)
  sent_lt : ∀ number ∈ (numbering client log).sent,
    number + (unflushed client log).length < (decisions client log).length
  offered_eq : (offered client log).map some =
    (numbering client log).sent.map fun number => (decisions client log)[number]?
  /-- The first flush after a decision sends it, unless it comes too late. -/
  mem_sent : ∀ number, number ∈ (numbering client log).sent ↔
    ∃ mark ∈ (numbering client log).flushedAt, number < mark ∧ mark ≤ number + capacity
  complete : InTime capacity client log →
    decisions client log = offered client log ++ unflushed client log

namespace Numbered

variable {capacity : Nat} {client : String} {log : List Entry}

theorem start : Numbered capacity client [] where
  latest := .inl rfl
  suffix := List.suffix_refl _
  increasing := .nil
  sent_lt := fun _ hmem => absurd hmem List.not_mem_nil
  offered_eq := rfl
  mem_sent := by simp [numbering]
  complete := fun _ => rfl

theorem answered (h : Numbered capacity client log) (other : String) (reading : Nat)
    (allowed : Bool) : Numbered capacity client (log ++ [.answered other reading allowed]) := by
  have hoffered := offered_answered client log other reading allowed
  rcases Decidable.em (client = other) with rfl | hne
  · have hdecisions := decisions_answered_self client log reading allowed
    have hunflushed := unflushed_answered_self client log reading allowed
    have hnumbering := numbering_answered_self client log reading allowed
    exact {
      latest := by
        rw [hdecisions, hunflushed, hnumbering, List.length_append, List.length_append]
        rcases h.latest with hnone | ⟨mark, hmem, hmark⟩
        · exact .inl (by rw [hnone])
        · exact .inr ⟨mark, hmem, by rw [hmark, Nat.add_assoc]⟩
      suffix := by
        rw [hdecisions, hunflushed]
        obtain ⟨before, hbefore⟩ := h.suffix
        exact ⟨before, by rw [← hbefore, List.append_assoc]⟩
      increasing := hnumbering ▸ h.increasing
      sent_lt := by
        rw [hdecisions, hunflushed, hnumbering]
        intro number hmem
        have hlt := h.sent_lt number hmem
        simp only [List.length_append, List.length_singleton]
        omega
      offered_eq := by
        rw [hoffered, hdecisions, hnumbering, h.offered_eq]
        apply List.map_congr_left
        intro number hmem
        have hlt := h.sent_lt number hmem
        exact (List.getElem?_append_left (by omega)).symm
      mem_sent := hnumbering ▸ h.mem_sent
      complete := by
        intro hintime
        rw [hdecisions, hoffered, hunflushed, h.complete hintime.of_concat, List.append_assoc] }
  · have hdecisions := decisions_answered_of_ne client log hne reading allowed
    have hunflushed := unflushed_answered_of_ne client log hne reading allowed
    have hnumbering := numbering_answered_of_ne client log hne reading allowed
    exact {
      latest := by rw [hdecisions, hunflushed, hnumbering]; exact h.latest
      suffix := by rw [hdecisions, hunflushed]; exact h.suffix
      increasing := by rw [hnumbering]; exact h.increasing
      sent_lt := by rw [hdecisions, hunflushed, hnumbering]; exact h.sent_lt
      offered_eq := by rw [hoffered, hdecisions, hnumbering]; exact h.offered_eq
      mem_sent := by rw [hnumbering]; exact h.mem_sent
      complete := by
        rw [hdecisions, hoffered, hunflushed]
        exact fun hintime => h.complete hintime.of_concat }

theorem flushed (h : Numbered capacity client log) (report : FlushReport) {sent : List Sending}
    (hsent : sentTo client sent = (unflushed client log).rtake capacity) :
    Numbered capacity client (log ++ [.flushed report sent]) := by
  have hdecisions := decisions_flushed client log report sent
  have hunflushed := unflushed_flushed client log report sent
  have hoffered := offered_flushed client log report sent
  have hmade := made_numbering client log
  obtain ⟨before, hbefore⟩ := h.suffix
  have hlength := congrArg List.length hbefore
  rw [List.length_append] at hlength
  have hcount : (sentTo client sent).length = min (unflushed client log).length capacity := by
    rw [hsent, List.rtake, List.length_drop]
    omega
  have hnumbering : numbering client (log ++ [.flushed report sent]) =
      { made := (decisions client log).length
        flushedAt := (numbering client log).flushedAt ++ [(decisions client log).length]
        sent := (numbering client log).sent ++
          List.range' ((decisions client log).length - (sentTo client sent).length)
            (sentTo client sent).length } := by
    rw [numbering_concat, Numbering.add, hmade]
  exact {
    latest := by
      rw [hdecisions, hunflushed, hnumbering]
      exact .inr ⟨_, List.mem_append_right _ List.mem_cons_self, rfl⟩
    suffix := by rw [hunflushed]; exact List.nil_suffix
    increasing := by
      rw [hnumbering, List.pairwise_append]
      refine ⟨h.increasing, List.pairwise_lt_range', fun number hmem later hlater => ?_⟩
      have hlt := h.sent_lt number hmem
      rw [List.mem_range'_1] at hlater
      omega
    sent_lt := by
      rw [hdecisions, hunflushed, hnumbering]
      intro number hmem
      rcases List.mem_append.mp hmem with hold | hnew
      · have hlt := h.sent_lt number hold
        simp only [List.length_nil]
        omega
      · rw [List.mem_range'_1] at hnew
        simp only [List.length_nil]
        omega
    offered_eq := by
      have hlatest : sentTo client sent =
          (decisions client log).rtake (sentTo client sent).length := by
        have hplace : before.length + (unflushed client log).length -
            min (unflushed client log).length capacity =
              before.length + ((unflushed client log).length - capacity) := by omega
        rw [hcount, hsent, ← hbefore, List.rtake, List.rtake, List.length_append, hplace,
          List.drop_length_add_append]
      rw [hoffered, hdecisions, hnumbering, List.map_append, List.map_append, h.offered_eq,
        ← map_some_rtake _ (by omega), ← hlatest]
    mem_sent := by
      intro number
      simp only [hnumbering, List.mem_append, List.mem_singleton, List.mem_range'_1, or_and_right,
        exists_or, exists_eq_left, h.mem_sent]
      refine or_congr_right' fun hold => ?_
      constructor
      · omega
      · rintro ⟨hlt, hle⟩
        -- What this flush passes over and has not come too late for, an earlier one has sent.
        by_contra hnew
        rcases h.latest with hnone | ⟨mark, hmem, hmark⟩
        · omega
        · exact hold ⟨mark, hmem, by omega, by omega⟩
    complete := by
      intro hintime
      have hroom := hintime log report sent (List.prefix_refl _)
      rw [hdecisions, hoffered, hunflushed, hsent, List.rtake, Nat.sub_eq_zero_of_le hroom,
        List.drop_zero, List.append_nil]
      exact h.complete hintime.of_concat }

end Numbered

theorem numbered_of_run {config : AdmissionConfig} {valid : config.Valid} {receive : Receiver σ}
    {sink : σ} {time : TimeSource} {acts : List Act} {last : Site σ}
    (hrun : (start config valid receive sink time).run? acts = some last) (client : String) :
    Numbered config.capacity client (log (start config valid receive sink time) acts) := by
  let Holds (site : Site σ) (log : List Entry) : Prop :=
    Standing config site log ∧ Numbered config.capacity client log
  have hstart : Holds (start config valid receive sink time) [] :=
    ⟨.start valid receive sink time, .start⟩
  have hkept : ∀ site act after log, Holds site log → site.act? act = some after →
      Holds after (note site act log) := by
    rintro site act after log ⟨hstanding, hnumbered⟩ hact
    refine ⟨hstanding.act hact, ?_⟩
    cases act with
    | request other => exact hnumbered.answered other _ _
    | flush order =>
        simp only [act?, Option.ite_none_right_eq_some] at hact
        have hexact := hstanding.exact (List.isPerm_iff.mp hact.1)
        exact hnumbered.flushed _ (hexact.sentTo_eq client)
    | clock step =>
        rw [note, entries, List.append_nil]
        exact hnumbered
  exact (Steps.history_invariant hrun hstart hkept).2

end Turnstile.Site

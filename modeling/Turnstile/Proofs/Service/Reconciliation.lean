import Mathlib.Data.Bool.Count
import Turnstile.Proofs.Pool.Counters
import Turnstile.Proofs.Service.Books

/-!
The counters of a service, its controller and its pool, once no dispatch is in progress.
Then they agree, whatever mix of outcomes the dispatches have come to.
-/

namespace Turnstile

namespace Service

/-- Why a dispatch came to its outcome, and what it left behind. -/
structure Course.Explained (validator : Validator) (course : Course) (outcome : Outcome) :
    Prop where
  rateLimited_iff : outcome = .rateLimited ↔ course.allowed? = some false
  invalid_iff : ∀ defect, outcome = .invalid defect ↔
    course.allowed? = some true ∧ validator.defect? course.dispatch.batch = some defect
  untouched : outcome.isRateLimited = true ∨ outcome.isInvalid = true → course.answer? = none
  submitted : outcome.isRateLimited = false → outcome.isInvalid = false →
    ∃ answer, course.answer? = some answer ∧
      outcome = .ofSubmission course.dispatch.batch.size answer
  allowed_eq : course.allowed? = some (!outcome.isRateLimited)
  recorded : ∃ reading,
    course.recorded = [(course.dispatch.client, .made reading (!outcome.isRateLimited))]

theorem Course.Decided.explained {validator : Validator} {course : Course} {outcome : Outcome}
    (h : course.Decided validator outcome) : course.Explained validator outcome := by
  cases h with
  | rateLimited hjudged hanswer =>
      exact {
        rateLimited_iff := iff_of_true rfl hjudged.1
        invalid_iff := by simp [hjudged.1]
        untouched := fun _ => hanswer
        submitted := nofun
        allowed_eq := hjudged.1
        recorded := hjudged.2 }
  | invalid hjudged hdefect hanswer =>
      exact {
        rateLimited_iff := by simp [hjudged.1]
        invalid_iff := by simp [hjudged.1, hdefect]
        untouched := fun _ => hanswer
        submitted := fun _ h => by cases h
        allowed_eq := hjudged.1
        recorded := hjudged.2 }
  | @submitted answer hjudged hvalid hanswer =>
      have hsubmitted : ∃ given, course.answer? = some given ∧
          Outcome.ofSubmission course.dispatch.batch.size answer =
            .ofSubmission course.dispatch.batch.size given := ⟨answer, hanswer, rfl⟩
      cases answer with
      | ok _ =>
          exact {
            rateLimited_iff := by simp [Outcome.ofSubmission, hjudged.1]
            invalid_iff := by simp [Outcome.ofSubmission, hvalid]
            untouched := by simp [Outcome.ofSubmission, Outcome.isRateLimited, Outcome.isInvalid]
            submitted := fun _ _ => hsubmitted
            allowed_eq := hjudged.1
            recorded := hjudged.2 }
      | error rejection =>
          exact {
            rateLimited_iff := by simp [Outcome.ofSubmission, hjudged.1]
            invalid_iff := by simp [Outcome.ofSubmission, hvalid]
            untouched := by simp [Outcome.ofSubmission, Outcome.isRateLimited, Outcome.isInvalid]
            submitted := fun _ _ => hsubmitted
            allowed_eq := hjudged.1
            recorded := hjudged.2 }

def Course.isAccepted (course : Course) : Bool := course.outcome?.any Outcome.isAccepted

/-! One dispatch that is over, as the components count it. -/

namespace Course.Explained

variable {validator : Validator} {course : Course} {outcome : Outcome}

theorem answers_eq (h : course.Explained validator outcome) :
    (outcome.isRateLimited || outcome.isInvalid) = true ∧ course.answers = [] ∨
      ∃ answer, course.answers = [answer] ∧
        outcome = .ofSubmission course.dispatch.batch.size answer := by
  cases hstopped : outcome.isRateLimited || outcome.isInvalid with
  | true =>
      rw [Bool.or_eq_true] at hstopped
      rw [answers, h.untouched hstopped]
      exact .inl ⟨rfl, rfl⟩
  | false =>
      obtain ⟨hadmitted, hvalid⟩ := Bool.or_eq_false_iff.mp hstopped
      obtain ⟨answer, hanswer, hsame⟩ := h.submitted hadmitted hvalid
      rw [answers, hanswer]
      exact .inr ⟨answer, rfl, hsame⟩

theorem countP_isOk (h : course.Explained validator outcome) :
    course.answers.countP Except.isOk = outcome.isAccepted.toNat := by
  rcases h.answers_eq with ⟨hstopped, hnone⟩ | ⟨answer, hanswer, rfl⟩
  · rw [hnone]
    cases outcome <;> first | rfl | cases hstopped
  · rw [hanswer]
    cases answer <;> rfl

theorem countP_not_isOk (h : course.Explained validator outcome) :
    (course.answers.countP fun answer => !answer.isOk) = outcome.isOverloaded.toNat := by
  rcases h.answers_eq with ⟨hstopped, hnone⟩ | ⟨answer, hanswer, rfl⟩
  · rw [hnone]
    cases outcome <;> first | rfl | cases hstopped
  · rw [hanswer]
    cases answer <;> rfl

theorem metrics_eq (h : course.Explained validator outcome) :
    outcome.metrics = if outcome.isAccepted then course.dispatch.batch.size else 0 := by
  rcases h.answers_eq with ⟨hstopped, -⟩ | ⟨answer, -, rfl⟩
  · cases outcome <;> first | rfl | cases hstopped
  · cases answer <;> rfl

theorem countP_recorded (h : course.Explained validator outcome) (client : String) :
    (course.recorded.countP fun entry => entry.1 = client) =
      (decide (course.dispatch.client = client)).toNat := by
  obtain ⟨reading, hrecorded⟩ := h.recorded
  rw [hrecorded, List.countP_singleton]
  cases decide (course.dispatch.client = client) <;> rfl

end Course.Explained

def Journal.Quiet (journal : Journal) : Prop :=
  ∀ course ∈ journal.courses, course.outcome?.isSome = true

def Journal.Settled (validator : Validator) (journal : Journal) : Prop :=
  ∀ course ∈ journal.courses, ∃ outcome, course.outcome? = some outcome ∧
    course.Explained validator outcome

namespace Journal.Settled

variable {validator : Validator} {journal : Journal}

theorem countP_outcomes (h : journal.Settled validator) (p : Outcome → Bool) :
    (journal.shown Course.outcomes).countP p =
      journal.courses.countP fun course => course.outcome?.any p := by
  refine countP_flatMap_eq fun course hmem => ?_
  obtain ⟨outcome, houtcome, -⟩ := h course hmem
  rw [Course.outcomes, houtcome, Option.toList_some, List.countP_singleton, Option.any_some]
  cases p outcome <;> rfl

theorem countP_answers {p : Except Pool.Rejection Unit → Bool} {q : Outcome → Bool}
    (h : journal.Settled validator)
    (hsame : ∀ (course : Course) (outcome : Outcome), course.Explained validator outcome →
      course.answers.countP p = (q outcome).toNat) :
    (journal.shown Course.answers).countP p =
      journal.courses.countP fun course => course.outcome?.any q := by
  refine countP_flatMap_eq fun course hmem => ?_
  obtain ⟨outcome, houtcome, hexplained⟩ := h course hmem
  rw [houtcome, Option.any_some]
  exact hsame course outcome hexplained

theorem count_verdicts (h : journal.Settled validator) :
    (journal.shown Course.verdicts).count false =
      journal.courses.countP fun course => course.outcome?.any Outcome.isRateLimited := by
  refine countP_flatMap_eq fun course hmem => ?_
  obtain ⟨outcome, houtcome, hexplained⟩ := h course hmem
  rw [Course.verdicts, hexplained.allowed_eq, houtcome, Option.toList_some,
    List.countP_singleton, Option.any_some]
  cases outcome.isRateLimited <;> rfl

theorem length_verdicts (h : journal.Settled validator) :
    (journal.shown Course.verdicts).length = journal.courses.length := by
  rw [← List.countP_true, ← List.countP_true]
  refine countP_flatMap_eq fun course hmem => ?_
  obtain ⟨outcome, -, hexplained⟩ := h course hmem
  rw [Course.verdicts, hexplained.allowed_eq]
  rfl

theorem length_outcomes (h : journal.Settled validator) :
    (journal.shown Course.outcomes).length = journal.courses.length := by
  rw [← List.countP_true, ← List.countP_true]
  refine countP_flatMap_eq fun course hmem => ?_
  obtain ⟨outcome, houtcome, -⟩ := h course hmem
  rw [Course.outcomes, houtcome]
  rfl

theorem sumOf_metrics (h : journal.Settled validator) :
    sumOf Outcome.metrics (journal.shown Course.outcomes) =
      sumOf (fun course => course.dispatch.batch.size)
        (journal.courses.filter Course.isAccepted) := by
  rw [shown, sumOf_flatMap, sumOf_filter]
  refine sumOf_congr fun course hmem => ?_
  obtain ⟨outcome, houtcome, hexplained⟩ := h course hmem
  rw [Course.outcomes, houtcome, Option.toList_some, sumOf_cons, sumOf_nil, Nat.add_zero,
    hexplained.metrics_eq, Course.isAccepted, houtcome, Option.any_some]

theorem countP_recorded (h : journal.Settled validator) (client : String) :
    ((journal.shown Course.recorded).countP fun entry => entry.1 = client) =
      journal.courses.countP fun course => course.dispatch.client = client := by
  refine countP_flatMap_eq fun course hmem => ?_
  obtain ⟨outcome, -, hexplained⟩ := h course hmem
  exact hexplained.countP_recorded client

end Journal.Settled

/-- The counters of the three components, once these dispatches are over. -/
structure Reconciled (system : System σ) (courses : List Course) : Prop where
  requests_eq : system.service.front.stats.requests = courses.length
  rateLimited_eq : system.service.front.stats.rateLimited =
    system.service.front.site.controller.metrics.denied
  passed_eq : system.service.front.stats.batches + system.service.front.stats.validationErrors +
    system.service.front.stats.overloaded = system.service.front.site.controller.metrics.allowed
  accepted_eq : system.service.front.stats.batches = system.service.pool.stats.accepted
  rejected_eq : system.service.front.stats.overloaded = system.service.pool.stats.rejected
  metrics_eq : system.service.front.stats.metricsReceived =
    sumOf (fun course => course.dispatch.batch.size) (courses.filter Course.isAccepted)
  published_eq : ∀ client, (system.service.front.site.controller.ring client).published =
    courses.countP fun course => course.dispatch.client = client

namespace Setup

variable {setup : Setup σ} {moves : List System.Move} {last : System σ}

theorem Kept.settled (h : Kept setup true moves last) (hquiet : (setup.journal moves).Quiet) :
    (setup.journal moves).Settled setup.validator := by
  intro course hmem
  obtain ⟨outcome, houtcome⟩ := Option.isSome_iff_exists.mp (hquiet course hmem)
  exact ⟨outcome, houtcome, (h.conducted.decided course hmem outcome houtcome).explained⟩

theorem Kept.noPush (h : Kept setup true moves last) (hquiet : (setup.journal moves).Quiet) :
    last.service.system.NoPush := by
  intro thread stage hstage
  rw [← System.stage?_inPool] at hstage
  rcases h.conducted.stance_of_stage hstage with ⟨_, _, hidle⟩ | ⟨_, _, _, rfl, _⟩ |
    ⟨index, course, _, hcourse, hunderway⟩
  · cases hidle with
    | accepted hfree _ => cases hfree
    | notifying hfree _ => cases hfree
    | refused hfree _ => cases hfree
    | ready _ => rfl
    | closing _ => rfl
    | awaiting _ => rfl
    | joining _ => rfl
  · rfl
  · have hover := hquiet course (List.mem_of_getElem? hcourse)
    rw [hunderway.outcome?_eq_none] at hover
    cases hover

theorem pool_accepted_eq (hrun : setup.start.run? moves = some last)
    (hpushes : last.service.system.NoPush) :
    last.service.pool.accepted = (setup.pushAnswers moves).countP Except.isOk := by
  have h := (Pool.System.tallied_of_run (pool_run hrun)).accepted_eq
  rw [Pool.System.uncounted_eq_zero hpushes, Pool.System.ledger_tally, Pool.Ledger.accepted,
    List.length_map, ← List.countP_eq_length_filter] at h
  rw [pushAnswers, List.countP_map]
  exact h

theorem pool_rejected_eq (hrun : setup.start.run? moves = some last)
    (hpushes : last.service.system.NoPush) :
    last.service.pool.rejected = (setup.pushAnswers moves).countP fun answer => !answer.isOk := by
  have hnone : last.service.system.threads Pool.Stage.isRefused = 0 :=
    Pool.System.threads_eq_zero fun thread stage hstage =>
      Pool.Stage.isRefused_of_not_pushing (hpushes thread stage hstage)
  have h := (Pool.System.tallied_of_run (pool_run hrun)).rejected_eq
  rw [hnone, Pool.Tally.refusals, Pool.System.ledger_tally] at h
  rw [pushAnswers, List.countP_map]
  exact h

theorem published_eq (hrun : setup.start.run? moves = some last) (client : String) :
    (last.service.front.site.controller.ring client).published =
      (setup.siteLedger moves).recorded.countP fun entry => entry.1 = client := by
  rw [(rings_of_run hrun client).published_eq, Site.Ledger.recordedOf, ← List.countP_true,
    List.countP_filterMap]
  apply List.countP_congr
  intro entry _
  split <;> simp [*]

theorem reconciled (hkept : Kept setup true moves last) (h : setup.BookedAt moves last)
    (hrun : setup.start.run? moves = some last) (hquiet : (setup.journal moves).Quiet) :
    Reconciled last (setup.journal moves).courses := by
  have hsettled := hkept.settled hquiet
  have hpushes := hkept.noPush hquiet
  have hrequests := h.outcomes.requests_eq
  have hlimited := h.outcomes.rateLimited_eq
  have hdenied := h.denied_eq
  rw [hsettled.length_outcomes] at hrequests
  rw [hsettled.countP_outcomes] at hlimited
  rw [hsettled.count_verdicts] at hdenied
  exact {
    requests_eq := hrequests
    rateLimited_eq := hlimited.trans hdenied.symm
    passed_eq := by
      have hallowed := h.allowed_eq
      have hjudged := List.count_true_add_count_false ((setup.journal moves).shown Course.verdicts)
      rw [hsettled.count_verdicts, hsettled.length_verdicts] at hjudged
      rw [Stats.requests] at hrequests
      change _ = last.service.front.site.controller.allowed
      omega
    accepted_eq := by
      have haccepted := pool_accepted_eq hrun hpushes
      rw [h.answers.countP_eq, hsettled.countP_answers fun _ _ hover => hover.countP_isOk]
        at haccepted
      rw [h.outcomes.batches_eq, hsettled.countP_outcomes]
      exact haccepted.symm
    rejected_eq := by
      have hrejected := pool_rejected_eq hrun hpushes
      rw [h.answers.countP_eq, hsettled.countP_answers fun _ _ hover => hover.countP_not_isOk]
        at hrejected
      rw [h.outcomes.overloaded_eq, hsettled.countP_outcomes]
      exact hrejected.symm
    metrics_eq := h.outcomes.metrics_eq.trans hsettled.sumOf_metrics
    published_eq := fun client => by
      rw [published_eq hrun, h.recorded.countP_eq, hsettled.countP_recorded] }

/-- What a service that is used only through dispatches has counted and recorded, whatever
else goes on: flushes, moves of the clock, handlers that dispatch, and shutdowns. -/
structure CountersMatch (setup : Setup σ) (moves : List System.Move) (system : System σ) :
    Prop where
  explained : ∀ course ∈ (setup.journal moves).courses, ∀ outcome,
    course.outcome? = some outcome → course.Explained setup.validator outcome
  /-- The pool is given jobs by dispatches only, once by each that gets so far. -/
  pushes_perm : (setup.pushAnswers moves).Perm ((setup.journal moves).shown Course.answers)
  recorded_perm :
    (setup.siteLedger moves).recorded.Perm ((setup.journal moves).shown Course.recorded)
  reconciled : (setup.journal moves).Quiet → Reconciled system (setup.journal moves).courses

theorem counters_match_dispatches (hobeys : ∀ move ∈ moves, move.Obeys true)
    (hrun : setup.start.run? moves = some last) : CountersMatch setup moves last := by
  obtain ⟨hkept, h⟩ := booked_of_run hobeys hrun
  exact {
    explained := fun course hmem outcome houtcome =>
      (hkept.conducted.decided course hmem outcome houtcome).explained
    pushes_perm := h.answers
    recorded_perm := h.recorded
    reconciled := reconciled hkept h hrun }

def narrow : Setup Sink where
  admission := ⟨3, .ofParts 0 10, 2⟩
  admission_valid := by decide
  pool := ⟨1, 1⟩
  pool_valid := by decide
  receive := Sink.send
  sink := .null

def relaying : Dispatch where
  client := "a"
  batch := ⟨"host", [{ name := "load" }]⟩
  handler := fun batch =>
    .dispatch "a" ⟨batch.source, []⟩ (fun _ => .finish .returned) fun _ => .finish .returned

def requestMoves (thread : Thread) (parts : Nat) : List System.Move :=
  .enter thread :: (List.replicate parts (.part thread []) ++ [.leave thread])

/-- Two dispatches at a time, of which one finds the pool full; then one by a handler, of an
empty batch; and at last one that comes too soon after the others. -/
def mixedMoves : List System.Move :=
  [.dispatch relaying, .dispatch relaying] ++ requestMoves (.caller 0) 5 ++
    requestMoves (.caller 1) 4 ++
    [.caller 0 0, .caller 0 1, .caller 0 0, .caller 0 1, .answer (.caller 1), .caller 0 0,
      .worker 0 0, .worker 0 0] ++ requestMoves (.worker 0) 4 ++
    [.answer (.worker 0), .answer (.caller 0), .worker 0 0, .worker 0 0, .shutdown,
      .dispatch { relaying with batch := ⟨"host", []⟩ }] ++ requestMoves (.caller 3) 4 ++
    [.answer (.caller 3)]

theorem counters_match_dispatches_mixedMoves :
    ∃ last, narrow.start.run? mixedMoves = some last ∧
      (narrow.journal mixedMoves).courses.map Course.outcome? =
        [some (.accepted 1), some (.overloaded .queueFull), some (.invalid .emptyBatch),
          some .rateLimited] ∧
      CountersMatch narrow mixedMoves last ∧
      Reconciled last (narrow.journal mixedMoves).courses := by
  obtain ⟨last, hrun, houtcomes, hquiet⟩ :
      ∃ last, narrow.start.run? mixedMoves = some last ∧
        (narrow.journal mixedMoves).courses.map Course.outcome? =
          [some (.accepted 1), some (.overloaded .queueFull), some (.invalid .emptyBatch),
            some .rateLimited] ∧
        ((narrow.journal mixedMoves).courses.all fun course => course.outcome?.isSome) = true :=
    ⟨_, rfl, rfl, rfl⟩
  have hobeys : ∀ move ∈ mixedMoves, move.Obeys true := by
    simp [mixedMoves, requestMoves, System.Move.Obeys, Job.Obeys, relaying]
  have hagree := counters_match_dispatches hobeys hrun
  exact ⟨last, hrun, houtcomes, hagree, hagree.reconciled (List.all_eq_true.mp hquiet)⟩

end Setup

end Service

end Turnstile

import Turnstile.Proofs.Service.Runs

/-!
What the components of a service count and record, against the dispatches that were made:
each of them is bumped at another point of a dispatch, and by nothing else.
-/

namespace Turnstile

namespace Service

namespace Outcome

def metrics : Outcome → Nat
  | .accepted metrics => metrics
  | .rateLimited | .invalid _ | .overloaded _ => 0

def isRateLimited : Outcome → Bool
  | .rateLimited => true
  | .accepted _ | .invalid _ | .overloaded _ => false

def isInvalid : Outcome → Bool
  | .invalid _ => true
  | .accepted _ | .rateLimited | .overloaded _ => false

def isOverloaded : Outcome → Bool
  | .overloaded _ => true
  | .accepted _ | .rateLimited | .invalid _ => false

end Outcome

structure Stats.Counts (stats : Stats) (outcomes : List Outcome) : Prop where
  metrics_eq : stats.metricsReceived = sumOf Outcome.metrics outcomes
  batches_eq : stats.batches = outcomes.countP Outcome.isAccepted
  invalid_eq : stats.validationErrors = outcomes.countP Outcome.isInvalid
  rateLimited_eq : stats.rateLimited = outcomes.countP Outcome.isRateLimited
  overloaded_eq : stats.overloaded = outcomes.countP Outcome.isOverloaded

namespace Stats.Counts

variable {stats : Stats} {outcomes others : List Outcome}

theorem perm (h : stats.Counts outcomes) (hperm : others.Perm outcomes) : stats.Counts others where
  metrics_eq := h.metrics_eq.trans (sumOf_perm _ hperm).symm
  batches_eq := h.batches_eq.trans (hperm.countP_eq _).symm
  invalid_eq := h.invalid_eq.trans (hperm.countP_eq _).symm
  rateLimited_eq := h.rateLimited_eq.trans (hperm.countP_eq _).symm
  overloaded_eq := h.overloaded_eq.trans (hperm.countP_eq _).symm

theorem count (h : stats.Counts outcomes) (outcome : Outcome) :
    (stats.count outcome).Counts (outcomes ++ [outcome]) := by
  obtain ⟨hmetrics, hbatches, hinvalid, hlimited, hoverloaded⟩ := h
  constructor <;> cases outcome <;>
    simp [Stats.count, sumOf_append, Outcome.metrics, Outcome.isAccepted, Outcome.isInvalid,
      Outcome.isRateLimited, Outcome.isOverloaded, *]

theorem requests_eq (h : stats.Counts outcomes) : stats.requests = outcomes.length := by
  rw [requests, h.batches_eq, h.invalid_eq, h.rateLimited_eq, h.overloaded_eq]
  clear h
  induction outcomes with
  | nil => rfl
  | cons outcome rest ih =>
      cases outcome <;>
        simp only [List.countP_cons, Outcome.isAccepted, Outcome.isInvalid, Outcome.isRateLimited,
          Outcome.isOverloaded, List.length_cons, if_true, Bool.false_eq_true, if_false] <;>
        omega

end Stats.Counts

end Service

/-! What a part of a call adds. -/

namespace Site

def Call.verdicts : Call → List Bool
  | .counting _ _ allowed => [allowed]
  | .finding _ | .entering _ | .judging _ | .recording .. | .answered .. | .listing | .visiting ..
  | .offering .. | .reported _ => []

theorem totals_part {order : List String} {call next : Call} {site after : Site σ}
    (hpart : site.part? order call = some (next, after)) :
    after.controller.allowed = site.controller.allowed + call.verdicts.count true ∧
      after.controller.denied = site.controller.denied + call.verdicts.count false := by
  cases part_of_some hpart with
  | enter =>
      unfold Controller.track
      split <;> exact ⟨rfl, rfl⟩
  | @count _ _ allowed => cases allowed <;> exact ⟨rfl, rfl⟩
  | skip hempty =>
      unfold Controller.drain
      split <;> exact ⟨rfl, rfl⟩
  | drain hfull =>
      unfold Controller.drain
      split <;> exact ⟨rfl, rfl⟩
  | report =>
      unfold Controller.countFlush
      split <;> exact ⟨rfl, rfl⟩
  | found | missed | judge | record | list | offer | account => exact ⟨rfl, rfl⟩

end Site

namespace Service

/-! What the courses show. -/

namespace Course

def verdicts (course : Course) : List Bool := course.allowed?.toList

def answers (course : Course) : List (Except Pool.Rejection Unit) := course.answer?.toList

def outcomes (course : Course) : List Outcome := course.outcome?.toList

end Course

namespace Journal

variable {journal : Journal} {thread : Thread} {index : Nat} {course : Course}
  {change : Course → Course} {view : Course → List α} {added : List α}

def shown (journal : Journal) (view : Course → List α) : List α := journal.courses.flatMap view

theorem shown_begin (journal : Journal) (thread : Thread) (view : Course → List α)
    {dispatch : Dispatch} (hnone : view { dispatch } = []) :
    (journal.begin thread dispatch).shown view = journal.shown view := by
  rw [shown, begin, List.flatMap_append, List.flatMap_singleton, hnone, List.append_nil, shown]

theorem shown_modify (journal : Journal) (thread : Thread)
    (hsame : ∀ course, view (change course) = view course) :
    (journal.modify thread change).shown view = journal.shown view := by
  unfold modify
  split
  · exact flatMap_modify hsame ..
  · rfl

theorem shown_modify_self (hcurrent : journal.current thread = some index)
    (hcourse : journal.courses[index]? = some course)
    (hadded : view (change course) = view course ++ added) :
    ((journal.modify thread change).shown view).Perm (journal.shown view ++ added) := by
  have hchanged : journal.courses.modify index change =
      journal.courses.set index (change course) := by
    rw [List.modify_eq_set_getElem?, hcourse]
    rfl
  rw [shown, journal.courses_modify change hcurrent, hchanged]
  exact flatMap_set hcourse hadded

end Journal

structure Booked (front : Front σ) (journal : Journal) (recorded : List (String × Decision))
    (answers : List (Except Pool.Rejection Unit)) : Prop where
  outcomes : front.stats.Counts (journal.shown Course.outcomes)
  allowed_eq : front.site.controller.allowed = (journal.shown Course.verdicts).count true
  denied_eq : front.site.controller.denied = (journal.shown Course.verdicts).count false
  recorded : recorded.Perm (journal.shown Course.recorded)
  answers : answers.Perm (journal.shown Course.answers)

namespace Booked

variable {front after : Front σ} {journal : Journal} {recorded : List (String × Decision)}
  {answers : List (Except Pool.Rejection Unit)} {thread : Thread} {index : Nat} {course : Course}
  {strict : Bool} {validator : Validator} {stage? : Thread → Option (Pool.Stage Question)}
  {call? : Thread → Option Site.Call}

theorem frame (h : Booked front journal recorded answers) (hstats : after.stats = front.stats)
    (hallowed : after.site.controller.allowed = front.site.controller.allowed)
    (hdenied : after.site.controller.denied = front.site.controller.denied) :
    Booked after journal recorded answers where
  outcomes := hstats ▸ h.outcomes
  allowed_eq := hallowed.trans h.allowed_eq
  denied_eq := hdenied.trans h.denied_eq
  recorded := h.recorded
  answers := h.answers

theorem begin (h : Booked front journal recorded answers) (thread : Thread)
    (dispatch : Dispatch) : Booked front (journal.begin thread dispatch) recorded answers where
  outcomes := by
    rw [journal.shown_begin thread Course.outcomes rfl]
    exact h.outcomes
  allowed_eq := by
    rw [journal.shown_begin thread Course.verdicts rfl]
    exact h.allowed_eq
  denied_eq := by
    rw [journal.shown_begin thread Course.verdicts rfl]
    exact h.denied_eq
  recorded := by
    rw [journal.shown_begin thread Course.recorded rfl]
    exact h.recorded
  answers := by
    rw [journal.shown_begin thread Course.answers rfl]
    exact h.answers

theorem part {call : Site.Call} (h : Booked front journal recorded answers)
    (hcurrent : journal.current thread = some index)
    (hcourse : journal.courses[index]? = some course) (hallowed : course.allowed? = call.answer?)
    (hstats : after.stats = front.stats)
    (htotals : after.site.controller.allowed =
        front.site.controller.allowed + call.verdicts.count true ∧
      after.site.controller.denied = front.site.controller.denied + call.verdicts.count false) :
    Booked after (journal.modify thread fun course => course.addPart call)
      (recorded ++ call.records) answers := by
  have hverdicts : (course.addPart call).verdicts = course.verdicts ++ call.verdicts := by
    cases call with
    | counting client reading allowed =>
        simp only [Course.verdicts, hallowed, Course.addPart]
        rfl
    | _ => exact (List.append_nil _).symm
  have hrecorded : (course.addPart call).recorded = course.recorded ++ call.records := by
    cases call with
    | recording client reading allowed => rfl
    | _ => exact (List.append_nil _).symm
  have hsame {α : Type} {view : Course → List α}
      (hview : ∀ course, view (course.addPart call) = view course) :
      (journal.modify thread fun course => course.addPart call).shown view = journal.shown view :=
    journal.shown_modify thread hview
  have hadded : ((journal.modify thread fun course => course.addPart call).shown
      Course.verdicts).Perm (journal.shown Course.verdicts ++ call.verdicts) :=
    Journal.shown_modify_self hcurrent hcourse hverdicts
  exact {
    outcomes := by
      rw [hstats, hsame fun course => by cases call <;> rfl]
      exact h.outcomes
    allowed_eq := by
      rw [htotals.1, h.allowed_eq, hadded.count_eq, List.count_append]
    denied_eq := by
      rw [htotals.2, h.denied_eq, hadded.count_eq, List.count_append]
    recorded :=
      (h.recorded.append_right _).trans (Journal.shown_modify_self hcurrent hcourse hrecorded).symm
    answers := by
      rw [hsame fun course => by cases call <;> rfl]
      exact h.answers }

theorem submit {pool : Pool Question} {job : Pool.Routine Question}
    {rest : Except Pool.Rejection Unit → Pool.Routine Question}
    (h : Booked front journal recorded answers)
    (hcurrent : journal.current thread = some index)
    (hcourse : journal.courses[index]? = some course) (hanswer : course.answer? = none) :
    Booked front (journal.addStage thread pool (.ready (.submit job rest))) recorded
      (answers ++ [(pool.enter job).1]) := by
  have hadded : (course.addStage pool (.ready (.submit job rest))).answers =
      course.answers ++ [(pool.enter job).1] := by
    rw [Course.answers, Course.answers, hanswer]
    rfl
  have hsame {α : Type} {view : Course → List α}
      (hview : ∀ course, view (course.addStage pool (.ready (.submit job rest))) = view course) :
      (journal.addStage thread pool (.ready (.submit job rest))).shown view = journal.shown view :=
    journal.shown_modify thread hview
  exact {
    outcomes := by
      rw [hsame fun _ => rfl]
      exact h.outcomes
    allowed_eq := by
      rw [hsame fun _ => rfl]
      exact h.allowed_eq
    denied_eq := by
      rw [hsame fun _ => rfl]
      exact h.denied_eq
    recorded := by
      rw [hsame fun _ => rfl]
      exact h.recorded
    answers :=
      (h.answers.append_right _).trans (Journal.shown_modify_self hcurrent hcourse hadded).symm }

theorem conclude {outcome : Outcome} (h : Booked front journal recorded answers)
    (hcurrent : journal.current thread = some index)
    (hcourse : journal.courses[index]? = some course) (houtcome : course.outcome? = none)
    (hstats : after.stats = front.stats.count outcome)
    (hsite : after.site = front.site) :
    Booked after (journal.conclude thread outcome) recorded answers := by
  have hadded : (course.conclude outcome).outcomes = course.outcomes ++ [outcome] := by
    rw [Course.outcomes, Course.outcomes, houtcome]
    rfl
  have hsame {α : Type} {view : Course → List α}
      (hview : ∀ course, view (course.conclude outcome) = view course) :
      (journal.conclude thread outcome).shown view = journal.shown view :=
    journal.shown_modify thread hview
  exact {
    outcomes := by
      rw [hstats]
      exact (h.outcomes.count outcome).perm (Journal.shown_modify_self hcurrent hcourse hadded)
    allowed_eq := by
      rw [hsite, hsame fun _ => rfl]
      exact h.allowed_eq
    denied_eq := by
      rw [hsite, hsame fun _ => rfl]
      exact h.denied_eq
    recorded := by
      rw [hsame fun _ => rfl]
      exact h.recorded
    answers := by
      rw [hsame fun _ => rfl]
      exact h.answers }

end Booked

namespace Conducted

variable {strict : Bool} {validator : Validator} {stage? : Thread → Option (Pool.Stage Question)}
  {call? : Thread → Option Site.Call} {journal : Journal} {thread : Thread}

/-- A call of a strict thread is the request of its dispatch, or no request. -/
theorem requests {call : Site.Call} (h : Conducted true validator stage? call? journal)
    (hcall : call? thread = some call) :
    (journal.current thread = none ∧ call.requested? = none) ∨
      ∃ index course, journal.current thread = some index ∧
        journal.courses[index]? = some course ∧ course.allowed? = call.answer? := by
  have hstance := h.stance thread
  rw [hcall] at hstance
  generalize journal.current thread = current? at hstance ⊢
  generalize stage? thread = standing at hstance
  cases hstance with
  | flushing hrequested => exact .inl ⟨rfl, hrequested⟩
  | calling _ _ _ hrequested => exact .inl ⟨rfl, hrequested rfl⟩
  | underway hcourse hunderway =>
      cases hunderway with
      | admission _ _ _ _ hallowed _ _ => exact .inr ⟨_, _, rfl, hcourse, hallowed⟩

/-- Who has an outcome counted is in a dispatch that has had none so far. -/
theorem counts {outcome : Outcome} {rest : Bool → Pool.Routine Question}
    (h : Conducted strict validator stage? call? journal)
    (hstage : stage? thread = some (.ready (.ask (.count outcome) rest))) :
    ∃ index course, journal.current thread = some index ∧
      journal.courses[index]? = some course ∧ course.outcome? = none := by
  rcases h.stance_of_stage hstage with ⟨_, _, hidle⟩ | ⟨_, _, _, hasks, _, _, hleft, _⟩ |
    ⟨index, course, hcurrent, hcourse, hunderway⟩
  · cases hidle with
    | ready hleft => exact absurd rfl (hleft.ne_count outcome)
  · cases hasks
    exact absurd rfl (hleft.ne_count outcome)
  · exact ⟨index, course, hcurrent, hcourse, hunderway.outcome?_eq_none⟩

end Conducted

namespace Setup

variable {setup : Setup σ} {moves before : List System.Move} {system last after : System σ}
  {move : System.Move} {thread : Thread}

def pushAnswers (setup : Setup σ) (moves : List System.Move) : List (Except Pool.Rejection Unit) :=
  (setup.poolLedger moves).pushes.map Pool.Push.answer

theorem pushAnswers_of_still (hbefore : setup.start.run? before = some system)
    (hstep : System.step? system move = some after)
    (hmover : move.mover?.bind system.stage? = none) :
    setup.pushAnswers (before ++ [move]) = setup.pushAnswers before := by
  have hpushes := pushes_concat hbefore hstep
  rw [hmover] at hpushes
  exact congrArg (List.map Pool.Push.answer) hpushes

theorem pushAnswers_of_stage {stage : Pool.Stage Question}
    (hbefore : setup.start.run? before = some system)
    (hstep : System.step? system move = some after) (hmover : move.mover? = some thread)
    (hstage : system.stage? thread = some stage) :
    setup.pushAnswers (before ++ [move]) =
      (((setup.poolLedger before).addStage system.service.pool stage).pushes).map
        Pool.Push.answer := by
  have hpushes := pushes_concat hbefore hstep
  rw [hmover, Option.bind_some, hstage, Option.elim_some] at hpushes
  exact congrArg (List.map Pool.Push.answer) hpushes

abbrev BookedAt (setup : Setup σ) (moves : List System.Move) (system : System σ) : Prop :=
  Booked system.service.front (setup.journal moves) (setup.siteLedger moves).recorded
    (setup.pushAnswers moves)

namespace BookedAt

theorem frame (h : setup.BookedAt before system) (hbefore : setup.start.run? before = some system)
    (hstep : System.step? system move = some after)
    (hnote : ∀ journal, system.note move journal = journal)
    (hmover : move.mover? = none) (hmove : move.isPart = false)
    (hstats : after.service.front.stats = system.service.front.stats)
    (hallowed : after.service.front.site.controller.allowed =
      system.service.front.site.controller.allowed)
    (hdenied : after.service.front.site.controller.denied =
      system.service.front.site.controller.denied) :
    setup.BookedAt (before ++ [move]) after := by
  have hstill : move.mover?.bind system.stage? = none := by
    rw [hmover]
    rfl
  rw [BookedAt, journal_concat hbefore hstep, hnote, siteLedger_of_not_part hbefore hstep hmove,
    pushAnswers_of_still hbefore hstep hstill]
  exact Booked.frame h hstats hallowed hdenied

theorem work {poolMove : Pool.System.Move Question} {pool : Pool.System Question}
    (h : setup.BookedAt before system) (hkept : Kept setup true before system)
    (hbefore : setup.start.run? before = some system) (hmove : move.work? = some poolMove)
    (hstep : System.step? system move = some { system with service.system := pool }) :
    setup.BookedAt (before ++ [move]) { system with service.system := pool } := by
  have hpart : move.isPart = false := by
    cases move <;> first | rfl | cases hmove
  have hnoted := system.noted move (setup.journal before)
  rw [← journal_concat hbefore hstep] at hnoted
  rw [BookedAt, siteLedger_of_not_part hbefore hstep hpart]
  generalize setup.journal (before ++ [move]) = later at hnoted ⊢
  cases hnoted with
  | still hmover =>
      rw [pushAnswers_of_still hbefore hstep hmover]
      exact h
  | @stage _ thread stage hmover hstage =>
      rw [pushAnswers_of_stage hbefore hstep hmover hstage]
      rcases Classical.em (∃ job rest, stage = .ready (.submit job rest)) with
        ⟨job, rest, rfl⟩ | hother
      · obtain ⟨-, ⟨hfree, -⟩ | ⟨index, course, hcurrent, hcourse, hanswer, -⟩⟩ :=
          hkept.conducted.submits hstage
        · cases hfree
        · rw [Pool.Ledger.addStage, Pool.Ledger.push, List.map_append]
          exact h.submit hcurrent hcourse hanswer
      · have hnot (job : Pool.Routine Question)
            (rest : Except Pool.Rejection Unit → Pool.Routine Question) :
            stage ≠ .ready (.submit job rest) := fun hsame => hother ⟨job, rest, hsame⟩
        rw [((setup.journal before).addStage_of_enters thread hnot).1,
          Pool.Ledger.addStage_of_not_submit _ _ hnot]
        exact h
  | begin _ => cases hmove
  | part _ => cases hmove
  | conclude _ => cases hmove

theorem part {order : List String} {call next : Site.Call} {site : Site σ}
    (h : setup.BookedAt before system) (hkept : Kept setup true before system)
    (hbefore : setup.start.run? before = some system)
    (hcall : system.call? thread = some call)
    (hpart : system.service.front.site.part? order call = some (next, site))
    (hstep : System.step? system (.part thread order) = some after)
    (hfront : after.service.front = { system.service.front with site }) :
    setup.BookedAt (before ++ [.part thread order]) after := by
  have hnote : system.note (.part thread order) (setup.journal before) =
      (setup.journal before).modify thread fun course => course.addPart call := by
    simp only [System.note, hcall]
  have htotals := Site.totals_part hpart
  rw [BookedAt, hfront, journal_concat hbefore hstep, hnote,
    siteLedger_of_part hbefore hstep hcall hpart, Site.Ledger.recorded_add,
    pushAnswers_of_still hbefore hstep rfl]
  rcases hkept.conducted.requests hcall with ⟨hcurrent, hnone⟩ |
    ⟨index, course, hcurrent, hcourse, hallowed⟩
  · have hnothing : call.records = [] ∧ call.verdicts = [] := by
      cases call <;> first | exact ⟨rfl, rfl⟩ | cases hnone
    rw [hnothing.2] at htotals
    rw [Journal.modify_of_none _ hcurrent, hnothing.1, List.append_nil]
    exact Booked.frame h rfl htotals.1 htotals.2
  · exact Booked.part h hcurrent hcourse hallowed rfl htotals

theorem hear {seat : Pool.Thread} {question : Question} {rest : Bool → Pool.Routine Question}
    {answer : Bool} {front : Front σ} (h : setup.BookedAt before system)
    (hkept : Kept setup true before system) (hbefore : setup.start.run? before = some system)
    (hstage : system.stage? (.inPool seat) = some (.ready (.ask question rest)))
    (hanswer : system.service.front.answerAtOnce? question = some (answer, front))
    (hstep : System.step? system (.answer (.inPool seat)) = some after)
    (hfront : after.service.front = front) :
    setup.BookedAt (before ++ [.answer (.inPool seat)]) after := by
  obtain ⟨-, hsite, -, hstats⟩ := Front.answerAtOnce?_eq_some hanswer
  have hquestion := System.question?_of_stage hstage
  subst hfront
  rcases Classical.em (∃ outcome, question = .count outcome) with ⟨outcome, rfl⟩ | hother
  · obtain ⟨index, course, hcurrent, hcourse, houtcome⟩ := hkept.conducted.counts hstage
    have hnote : system.note (.answer (.inPool seat)) (setup.journal before) =
        (setup.journal before).conclude (.inPool seat) outcome := by
      simp only [System.note, hquestion]
    rw [BookedAt, journal_concat hbefore hstep, hnote,
      siteLedger_of_not_part hbefore hstep rfl,
      pushAnswers_of_still hbefore hstep rfl]
    exact Booked.conclude h hcurrent hcourse houtcome hstats hsite
  · have hnot (outcome : Outcome) : question ≠ .count outcome := fun hsame =>
      hother ⟨outcome, hsame⟩
    have hkeeps : system.service.front.statsAfter question = system.service.front.stats := by
      cases question with
      | count outcome => exact absurd rfl (hnot outcome)
      | _ => rfl
    refine frame h hbefore hstep (System.note_answer hquestion hnot) rfl rfl
      (hstats.trans hkeeps) ?_ ?_
    · rw [hsite]
    · rw [hsite]

theorem enter {seat : Pool.Thread} {question : Question} (h : setup.BookedAt before system)
    (hbefore : setup.start.run? before = some system)
    (hquestion : system.question? (.inPool seat) = some question)
    (hstep : System.step? system (.enter (.inPool seat)) = some after)
    (hfront : after.service.front = system.service.front) :
    setup.BookedAt (before ++ [.enter (.inPool seat)]) after := by
  rcases Classical.em (∃ dispatch, question = .admission dispatch) with ⟨dispatch, rfl⟩ | hother
  · have hnote : system.note (.enter (.inPool seat)) (setup.journal before) =
        (setup.journal before).begin (.inPool seat) dispatch := by
      simp only [System.note, hquestion]
    rw [BookedAt, hfront, journal_concat hbefore hstep, hnote,
      siteLedger_of_not_part hbefore hstep rfl,
      pushAnswers_of_still hbefore hstep rfl]
    exact Booked.begin h (.inPool seat) dispatch
  · have hnot (dispatch : Dispatch) : question ≠ .admission dispatch := fun hsame =>
      hother ⟨dispatch, hsame⟩
    exact frame h hbefore hstep (System.note_enter hquestion hnot) rfl rfl
      (hfront ▸ rfl) (hfront ▸ rfl) (hfront ▸ rfl)

theorem step (h : setup.BookedAt before system) (hkept : Kept setup true before system)
    (hbefore : setup.start.run? before = some system)
    (hstep : System.step? system move = some after) :
    setup.BookedAt (before ++ [move]) after := by
  cases System.transition_of_step hstep with
  | drop _ _ => exact h.frame hbefore hstep (fun _ => rfl) rfl rfl rfl rfl rfl
  | begin hroutine _ _ =>
      refine h.frame hbefore hstep (fun journal => ?_) ?_ ?_ rfl rfl rfl
      · cases move <;> first | rfl | cases hroutine
      · cases move <;> first | rfl | cases hroutine
      · cases move <;> first | rfl | cases hroutine
  | work hmove _ => exact h.work hkept hbefore hmove hstep
  | hear hstage hanswer _ _ => exact h.hear hkept hbefore hstage hanswer hstep rfl
  | enter _ hstage _ _ =>
      exact h.enter hbefore (System.question?_of_stage hstage) hstep rfl
  | part hcall hpart => exact h.part hkept hbefore hcall hpart hstep rfl
  | leave _ _ hconclude _ =>
      obtain ⟨-, hsite, -, hstats⟩ := Front.conclude?_eq_some hconclude
      exact h.frame hbefore hstep (fun _ => rfl) rfl rfl hstats
        (congrArg (fun site => site.controller.allowed) hsite)
        (congrArg (fun site => site.controller.denied) hsite)
  | rest _ => exact h.frame hbefore hstep (fun _ => rfl) rfl rfl rfl rfl rfl
  | tick _ => exact h.frame hbefore hstep (fun _ => rfl) rfl rfl rfl rfl rfl
  | endFlusher hended =>
      obtain ⟨hsite, -, hstats⟩ := Front.endFlusher?_eq_some hended
      exact h.frame hbefore hstep (fun _ => rfl) rfl rfl hstats
        (congrArg (fun site => site.controller.allowed) hsite)
        (congrArg (fun site => site.controller.denied) hsite)
  | clock => exact h.frame hbefore hstep (fun _ => rfl) rfl rfl rfl rfl rfl
  | release => exact h.frame hbefore hstep (fun _ => rfl) rfl rfl rfl rfl rfl

end BookedAt

theorem booked_of_run (hobeys : ∀ move ∈ moves, move.Obeys true)
    (hrun : setup.start.run? moves = some last) :
    Kept setup true moves last ∧ setup.BookedAt moves last := by
  let Both (moves : List System.Move) (system : System σ) : Prop :=
    Kept setup true moves system ∧ setup.BookedAt moves system
  have hfirst : Both [] setup.start := by
    refine ⟨.start setup true, ⟨⟨rfl, rfl, rfl, rfl, rfl⟩, rfl, rfl, .nil, .nil⟩⟩
  have hboth : Both moves last :=
    Steps.run_induction hrun hfirst fun _ _ hbefore h move hmem _ hstep =>
      ⟨h.1.step hbefore (hobeys move hmem) hstep, h.2.step h.1 hbefore hstep⟩
  exact hboth

end Setup

end Service

end Turnstile

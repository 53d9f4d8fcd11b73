import Turnstile.Proofs.Service.Jobs

/-!
The course that each dispatch takes, from the request for admission to the outcome,
whatever thread it is made by and whatever other threads do in between.
-/

namespace Turnstile

open Function (update)

def Site.Call.recorded : Site.Call → List (String × Decision)
  | .counting client reading allowed | .answered client reading allowed =>
      [(client, .made reading allowed)]
  | .finding _ | .entering _ | .judging _ | .recording .. | .listing | .visiting ..
  | .offering .. | .reported _ => []

def Pool.Stage.enters (pool : Pool Question) : Pool.Stage Question → List (Pool.Routine Question)
  | .ready (.submit job _) => if (pool.enter job).1.isOk then [job] else []
  | _ => []

theorem Site.requested?_part {order : List String} {call next : Site.Call} {site after : Site σ}
    (hpart : site.part? order call = some (next, after)) : next.requested? = call.requested? := by
  cases Site.part_of_some hpart <;> rfl

namespace Service

/-- What has become of a dispatch so far. -/
structure Course where
  dispatch : Dispatch
  recorded : List (String × Decision) := []
  allowed? : Option Bool := none
  answer? : Option (Except Pool.Rejection Unit) := none
  outcome? : Option Outcome := none

namespace Course

def addPart (course : Course) : Site.Call → Course
  | .recording client reading allowed =>
      { course with recorded := course.recorded ++ [(client, .made reading allowed)] }
  | .counting _ _ allowed => { course with allowed? := some allowed }
  | .finding _ | .entering _ | .judging _ | .answered .. | .listing | .visiting .. | .offering ..
  | .reported _ => course

def addStage (course : Course) (pool : Pool Question) : Pool.Stage Question → Course
  | .ready (.submit job _) => { course with answer? := some (pool.enter job).1 }
  | _ => course

theorem addStage_submitting (course : Course) (pool : Pool Question) (dispatch : Dispatch)
    (job : Pool.Routine Question) (next : Outcome → Pool.Routine Question) :
    course.addStage pool (.ready (submitting dispatch job next)) =
      { course with answer? := some (pool.enter job).1 } := rfl

def conclude (outcome : Outcome) (course : Course) : Course :=
  { course with outcome? := some outcome }

/-- Admission has answered, and one decision of the client's has been recorded. -/
def Judged (course : Course) (allowed : Bool) : Prop :=
  course.allowed? = some allowed ∧
    ∃ reading, course.recorded = [(course.dispatch.client, .made reading allowed)]

/-- How an outcome comes about: admission decides first, then the validator, and the
pool only about what both have let through. -/
inductive Decided (validator : Validator) (course : Course) : Outcome → Prop
  | rateLimited (hjudged : course.Judged false) (hanswer : course.answer? = none) :
      Decided validator course .rateLimited
  | invalid {defect : BatchDefect} (hjudged : course.Judged true)
      (hdefect : validator.defect? course.dispatch.batch = some defect)
      (hanswer : course.answer? = none) : Decided validator course (.invalid defect)
  | submitted {answer : Except Pool.Rejection Unit} (hjudged : course.Judged true)
      (hvalid : validator.defect? course.dispatch.batch = none)
      (hanswer : course.answer? = some answer) :
      Decided validator course (.ofSubmission course.dispatch.batch.size answer)

theorem Decided.conclude {validator : Validator} {course : Course} {outcome : Outcome}
    (h : course.Decided validator outcome) (other : Outcome) :
    (course.conclude other).Decided validator outcome := by
  cases h with
  | rateLimited hjudged hanswer => exact .rateLimited hjudged hanswer
  | invalid hjudged hdefect hanswer =>
      have hsame : (course.conclude other).Judged true := hjudged
      exact .invalid hsame hdefect hanswer
  | submitted hjudged hvalid hanswer =>
      have hsame : (course.conclude other).Judged true := hjudged
      exact .submitted hsame hvalid hanswer

end Course

/-- Where a thread stands in a dispatch that has taken this course so far. -/
inductive Underway (strict : Bool) (validator : Validator) (course : Course) :
    Pool.Stage Question → Option Site.Call → Prop
  | admission {next : Outcome → Pool.Routine Question} {call : Site.Call}
      (hnext : ∀ outcome, Written strict validator (next outcome))
      (hjob : Written strict validator (course.dispatch.job validator))
      (hclient : call.requested? = some course.dispatch.client)
      (hrecorded : course.recorded = call.recorded) (hallowed : course.allowed? = call.answer?)
      (hanswer : course.answer? = none) (houtcome : course.outcome? = none) :
      Underway strict validator course
        (.ready (dispatching validator course.dispatch (course.dispatch.job validator) next))
        (some call)
  | submitting {next : Outcome → Pool.Routine Question}
      (hnext : ∀ outcome, Written strict validator (next outcome))
      (hjob : Written strict validator (course.dispatch.job validator))
      (hjudged : course.Judged true)
      (hvalid : validator.defect? course.dispatch.batch = none)
      (hanswer : course.answer? = none) (houtcome : course.outcome? = none) :
      Underway strict validator course
        (.ready (submitting course.dispatch (course.dispatch.job validator) next)) none
  | accepted {next : Outcome → Pool.Routine Question}
      (hnext : ∀ outcome, Written strict validator (next outcome))
      (hjudged : course.Judged true)
      (hvalid : validator.defect? course.dispatch.batch = none)
      (hanswer : course.answer? = some (.ok ())) (houtcome : course.outcome? = none) :
      Underway strict validator course
        (.accepted (concluding next (.ofSubmission course.dispatch.batch.size (.ok ())))) none
  | notifying {next : Outcome → Pool.Routine Question}
      (hnext : ∀ outcome, Written strict validator (next outcome))
      (hjudged : course.Judged true)
      (hvalid : validator.defect? course.dispatch.batch = none)
      (hanswer : course.answer? = some (.ok ())) (houtcome : course.outcome? = none) :
      Underway strict validator course
        (.notifying (concluding next (.ofSubmission course.dispatch.batch.size (.ok ())))) none
  | refused {next : Outcome → Pool.Routine Question} {rejection : Pool.Rejection}
      (hnext : ∀ outcome, Written strict validator (next outcome))
      (hjudged : course.Judged true)
      (hvalid : validator.defect? course.dispatch.batch = none)
      (hanswer : course.answer? = some (.error rejection)) (houtcome : course.outcome? = none) :
      Underway strict validator course
        (.refused (concluding next (.ofSubmission course.dispatch.batch.size (.error rejection))))
        none
  | concluding {next : Outcome → Pool.Routine Question} {outcome : Outcome}
      (hnext : ∀ outcome, Written strict validator (next outcome))
      (hdecided : course.Decided validator outcome) (houtcome : course.outcome? = none) :
      Underway strict validator course (.ready (concluding next outcome)) none

namespace Underway

variable {strict : Bool} {validator : Validator} {course : Course}
  {stage next : Pool.Stage Question}
  {call? : Option Site.Call}

theorem outcome?_eq_none (h : Underway strict validator course stage call?) :
    course.outcome? = none := by
  cases h <;> assumption

theorem advance {pool after : Pool Question} {seat : Pool.Seat} {chosen : Nat}
    (h : Underway strict validator course stage call?)
    (hadvance : pool.advance? seat chosen stage = some (next, after)) :
    call? = none ∧ Underway strict validator (course.addStage pool stage) next none := by
  cases h with
  | admission _ _ _ _ _ _ _ => cases hadvance
  | concluding _ _ _ => cases hadvance
  | submitting hnext hjob hjudged hvalid hanswer houtcome =>
      cases Pool.advance_of_some hadvance with
      | enter hentered =>
          rw [Course.addStage_submitting, hentered]
          exact ⟨rfl, .accepted hnext hjudged hvalid rfl houtcome⟩
      | refuse hrefused =>
          rw [Course.addStage_submitting, hrefused]
          exact ⟨rfl, .refused hnext hjudged hvalid rfl houtcome⟩
  | accepted hnext hjudged hvalid hanswer houtcome =>
      cases hadvance
      exact ⟨rfl, .notifying hnext hjudged hvalid hanswer houtcome⟩
  | notifying hnext hjudged hvalid hanswer houtcome =>
      cases Pool.advance_of_some hadvance with
      | notify _ => exact ⟨rfl, .concluding hnext (.submitted hjudged hvalid hanswer) houtcome⟩
  | refused hnext hjudged hvalid hanswer houtcome =>
      cases hadvance
      exact ⟨rfl, .concluding hnext (.submitted hjudged hvalid hanswer) houtcome⟩

theorem part {order : List String} {call later : Site.Call} {site after : Site σ}
    (h : Underway strict validator course stage (some call))
    (hpart : site.part? order call = some (later, after)) :
    Underway strict validator (course.addPart call) stage (some later) := by
  cases h with
  | admission hnext hjob hclient hrecorded hallowed hanswer houtcome =>
      cases Site.part_of_some hpart with
      | @record client reading allowed =>
          have hrecorded : course.recorded ++ [(client, .made reading allowed)] = _ :=
            congrArg (· ++ [(client, .made reading allowed)]) hrecorded
          exact .admission hnext hjob hclient hrecorded hallowed hanswer houtcome
      | count => exact .admission hnext hjob hclient hrecorded rfl hanswer houtcome
      | found | missed | enter | judge =>
          exact .admission hnext hjob hclient hrecorded hallowed hanswer houtcome
      | list | skip | drain | offer | account | report => cases hclient

theorem of_ask {question : Question} {rest : Bool → Pool.Routine Question}
    (h : Underway strict validator course (.ready (.ask question rest)) call?) :
    (question = .admission course.dispatch ∧ call?.isSome = true) ∨
      ∃ outcome, question = .count outcome ∧ call? = none ∧ course.Decided validator outcome ∧
        ∀ answer, Written strict validator (rest answer) := by
  generalize hasks : Pool.Stage.ready (.ask question rest) = stage at h
  cases h with
  | admission _ _ _ _ _ _ _ =>
      cases hasks
      exact .inl ⟨rfl, rfl⟩
  | @concluding _ outcome hnext hdecided _ =>
      cases hasks
      exact .inr ⟨outcome, rfl, rfl, hdecided, fun _ => hnext outcome⟩
  | submitting _ _ _ _ _ _ => cases hasks
  | accepted _ _ _ _ _ => cases hasks
  | notifying _ _ _ _ _ => cases hasks
  | refused _ _ _ _ _ => cases hasks

theorem admitted {call : Site.Call} {question : Question} {rest : Bool → Pool.Routine Question}
    {front later : Front σ} {answer : Bool}
    (h : Underway strict validator course (.ready (.ask question rest)) (some call))
    (hconclude : front.conclude? question call = some (answer, later)) :
    Underway strict validator course (.ready (rest answer)) none := by
  generalize hasks : Pool.Stage.ready (.ask question rest) = stage at h
  cases h with
  | @admission next _ hnext hjob hclient hrecorded hallowed hanswer houtcome =>
      cases hasks
      cases call with
      | answered client reading allowed =>
          cases hconclude
          cases hclient
          have hjudged : course.Judged answer := ⟨hallowed, reading, hrecorded⟩
          cases answer with
          | false => exact .concluding hnext (.rateLimited hjudged hanswer) houtcome
          | true =>
              simp only [Service.admitted, Bool.not_true, Bool.false_eq_true, if_false]
              split
              · exact .concluding hnext (.invalid hjudged ‹_› hanswer) houtcome
              · exact .submitting hnext hjob hjudged ‹_› hanswer houtcome
      | finding client => cases hconclude
      | entering client => cases hconclude
      | judging client => cases hconclude
      | recording client reading allowed => cases hconclude
      | counting client reading allowed => cases hconclude
      | listing => cases hclient
      | visiting clients report => cases hclient
      | offering client dropped decisions offering clients report => cases hclient
      | reported report => cases hclient

end Underway

/-! All dispatches. -/

/-- The courses of all dispatches in the order in which they began, which of them each
thread is in the middle of, and by which of them each accepted job was submitted. -/
structure Journal where
  courses : List Course := []
  current : Thread → Option Nat := fun _ => none
  owners : List (Option Nat) := []

namespace Journal

def begin (journal : Journal) (thread : Thread) (dispatch : Dispatch) : Journal :=
  { journal with
    courses := journal.courses ++ [{ dispatch }]
    current := update journal.current thread (some journal.courses.length) }

def modify (journal : Journal) (thread : Thread) (change : Course → Course) : Journal :=
  match journal.current thread with
  | some index => { journal with courses := journal.courses.modify index change }
  | none => journal

def addStage (journal : Journal) (thread : Thread) (pool : Pool Question)
    (stage : Pool.Stage Question) : Journal :=
  { journal.modify thread fun course => course.addStage pool stage with
    owners := journal.owners ++ (stage.enters pool).map fun _ => journal.current thread }

def conclude (journal : Journal) (thread : Thread) (outcome : Outcome) : Journal :=
  { journal.modify thread (Course.conclude outcome) with
    current := update journal.current thread none }

theorem modify_of_none {journal : Journal} {thread : Thread} (change : Course → Course)
    (h : journal.current thread = none) : journal.modify thread change = journal := by
  rw [modify, h]

theorem courses_modify {journal : Journal} {thread : Thread} {index : Nat}
    (change : Course → Course) (h : journal.current thread = some index) :
    (journal.modify thread change).courses = journal.courses.modify index change := by
  rw [modify, h]

theorem map_courses_modify {part : Course → α} {change : Course → Course}
    (hchange : ∀ course, part (change course) = part course) (journal : Journal)
    (thread : Thread) : (journal.modify thread change).courses.map part =
      journal.courses.map part := by
  unfold modify
  split
  · exact map_modify_of_same hchange ..
  · rfl

@[simp] theorem current_modify (journal : Journal) (thread : Thread)
    (change : Course → Course) : (journal.modify thread change).current = journal.current := by
  unfold modify
  split <;> rfl

@[simp] theorem owners_modify (journal : Journal) (thread : Thread)
    (change : Course → Course) : (journal.modify thread change).owners = journal.owners := by
  unfold modify
  split <;> rfl

theorem courses_addStage (journal : Journal) (thread : Thread) (pool : Pool Question)
    (stage : Pool.Stage Question) : (journal.addStage thread pool stage).courses =
      (journal.modify thread fun course => course.addStage pool stage).courses := rfl

@[simp] theorem current_addStage (journal : Journal) (thread : Thread) (pool : Pool Question)
    (stage : Pool.Stage Question) :
    (journal.addStage thread pool stage).current = journal.current :=
  journal.current_modify thread _

end Journal

namespace System

def note (system : System σ) (move : Move) (journal : Journal) : Journal :=
  match move with
  | .enter thread =>
      match system.question? thread with
      | some (.admission dispatch) => journal.begin thread dispatch
      | _ => journal
  | .part thread _ =>
      match system.call? thread with
      | some call => journal.modify thread fun course => course.addPart call
      | none => journal
  | .worker _ index =>
      match system.stage? (.worker index) with
      | some stage => journal.addStage (.worker index) system.service.pool stage
      | none => journal
  | .caller _ index =>
      match system.stage? (.caller index) with
      | some stage => journal.addStage (.caller index) system.service.pool stage
      | none => journal
  | .answer thread =>
      match system.question? thread with
      | some (.count outcome) => journal.conclude thread outcome
      | _ => journal
  | .dispatch _ | .use _ | .shutdown | .drop | .clock _ | .release _ | .wake _ | .leave _
  | .tick _ | .endFlusher _ => journal

def journal (first : System σ) (moves : List Move) : Journal :=
  Steps.history step? note {} first moves

end System

def Thread.isOutside : Thread → Bool
  | .caller _ => true
  | .worker _ | .flusher _ => false

/-- How a thread stands: in the dispatch that is its current one, or in none. A strict
thread that is in none makes no request either. -/
inductive Stance (strict : Bool) (validator : Validator) (courses : List Course) :
    Thread → Option Nat → Option (Pool.Stage Question) → Option Site.Call → Prop
  | away {thread : Thread} : Stance strict validator courses thread none none none
  | flushing {index : Nat} {call : Site.Call} (hrequested : call.requested? = none) :
      Stance strict validator courses (.flusher index) none none (some call)
  | idle {thread : Thread} {stage : Pool.Stage Question}
      (hidle : Idle strict validator thread.isOutside stage) :
      Stance strict validator courses thread none (some stage) none
  | calling {thread : Thread} {question : Question} {rest : Bool → Pool.Routine Question}
      {call : Site.Call} (hleft : Left strict validator thread.isOutside (.ask question rest))
      (hquestion : ∀ dispatch, question ≠ .admission dispatch)
      (hcalls : question.call?.isSome = true)
      (hrequested : strict = true → call.requested? = none) :
      Stance strict validator courses thread none (some (.ready (.ask question rest))) (some call)
  | underway {thread : Thread} {index : Nat} {course : Course} {stage : Pool.Stage Question}
      {call? : Option Site.Call} (hcourse : courses[index]? = some course)
      (hunderway : Underway strict validator course stage call?) :
      Stance strict validator courses thread (some index) (some stage) call?

/-- No two threads are in one dispatch, and each keeps to the course of its own. -/
structure Conducted (strict : Bool) (validator : Validator)
    (stage? : Thread → Option (Pool.Stage Question)) (call? : Thread → Option Site.Call)
    (journal : Journal) : Prop where
  stance : ∀ thread, Stance strict validator journal.courses thread (journal.current thread)
    (stage? thread) (call? thread)
  apart : ∀ thread other index, journal.current thread = some index →
    journal.current other = some index → thread = other
  decided : ∀ course ∈ journal.courses, ∀ outcome, course.outcome? = some outcome →
    course.Decided validator outcome

namespace Conducted

variable {strict : Bool} {validator : Validator} {stage? : Thread → Option (Pool.Stage Question)}
  {call? : Thread → Option Site.Call} {journal later : Journal} {thread : Thread}
  {stage next : Pool.Stage Question} {index : Nat} {course : Course}

theorem current_lt (h : Conducted strict validator stage? call? journal)
    (hcurrent : journal.current thread = some index) : index < journal.courses.length := by
  have hstance := h.stance thread
  rw [hcurrent] at hstance
  generalize stage? thread = standing at hstance
  generalize call? thread = calling at hstance
  cases hstance with
  | underway hcourse _ => exact (List.getElem?_eq_some_iff.mp hcourse).1

theorem update_thread {current? : Option Nat} {next? : Option (Pool.Stage Question)}
    {latter? : Option Site.Call} (h : Conducted strict validator stage? call? journal)
    (hcurrent : later.current = update journal.current thread current?)
    (hkept : ∀ index course, journal.courses[index]? = some course →
      journal.current thread ≠ some index → later.courses[index]? = some course)
    (hown : ∀ index, current? = some index →
      journal.current thread = some index ∨ journal.courses.length ≤ index)
    (hstance : Stance strict validator later.courses thread current? next? latter?)
    (hdecided : ∀ course ∈ later.courses, ∀ outcome, course.outcome? = some outcome →
      course.Decided validator outcome) :
    Conducted strict validator (update stage? thread next?) (update call? thread latter?)
      later where
  stance := by
    intro other
    rw [hcurrent]
    rcases Decidable.em (other = thread) with rfl | hne
    · simp only [Function.update_self]
      exact hstance
    · simp only [Function.update_of_ne hne]
      have hother := h.stance other
      generalize hstays : journal.current other = stays at hother ⊢
      generalize stage? other = standing at hother ⊢
      generalize call? other = calling at hother ⊢
      cases hother with
      | away => exact .away
      | flushing hrequested => exact .flushing hrequested
      | idle hidle => exact .idle hidle
      | calling hleft hquestion hcalls hrequested =>
          exact .calling hleft hquestion hcalls hrequested
      | underway hcourse hunderway =>
          refine .underway (hkept _ _ hcourse fun hsame => ?_) hunderway
          exact hne (h.apart other thread _ hstays hsame)
  apart := by
    have hfresh {other : Thread} {index : Nat} (hne : other ≠ thread)
        (hother : journal.current other = some index) : current? ≠ some index := by
      intro hsame
      rcases hown index hsame with hold | hnew
      · exact hne (h.apart other thread index hother hold)
      · exact absurd (h.current_lt hother) (by omega)
    intro one other index hone hother
    rw [hcurrent] at hone hother
    rcases Decidable.em (one = thread) with rfl | hne
    · rcases Decidable.em (other = one) with rfl | hnot
      · rfl
      · rw [Function.update_self] at hone
        rw [Function.update_of_ne hnot] at hother
        exact absurd hone (hfresh hnot hother)
    · rw [Function.update_of_ne hne] at hone
      rcases Decidable.em (other = thread) with rfl | hnot
      · rw [Function.update_self] at hother
        exact absurd hother (hfresh hne hone)
      · rw [Function.update_of_ne hnot] at hother
        exact h.apart one other index hone hother
  decided := hdecided

theorem idle {next? : Option (Pool.Stage Question)} {latter? : Option Site.Call}
    (h : Conducted strict validator stage? call? journal)
    (hcurrent : journal.current thread = none)
    (hstance : Stance strict validator journal.courses thread none next? latter?) :
    Conducted strict validator (update stage? thread next?) (update call? thread latter?)
      journal := by
  have hsame : journal.current = update journal.current thread none := by
    rw [← hcurrent, Function.update_eq_self]
  have hown : ∀ index, none = some index →
      journal.current thread = some index ∨ journal.courses.length ≤ index := nofun
  exact h.update_thread hsame (fun _ _ hcourse _ => hcourse) hown hstance h.decided

theorem begin {dispatch : Dispatch} {call : Site.Call}
    (h : Conducted strict validator stage? call? journal)
    (hunderway : Underway strict validator { dispatch } stage (some call)) :
    Conducted strict validator (update stage? thread (some stage))
      (update call? thread (some call)) (journal.begin thread dispatch) := by
  refine h.update_thread rfl (fun index course hcourse _ => ?_) (fun index hindex => ?_)
    (.underway List.getElem?_concat_length hunderway) ?_
  · exact (List.getElem?_append_left (List.getElem?_eq_some_iff.mp hcourse).1).trans hcourse
  · exact .inr (Nat.le_of_eq (Option.some.inj hindex))
  · intro course hmem outcome houtcome
    rcases List.mem_append.mp hmem with hold | hnew
    · exact h.decided course hold outcome houtcome
    · rw [List.mem_singleton.mp hnew] at houtcome
      cases houtcome

section Modify

variable {change : Course → Course}

theorem decided_modify (h : Conducted strict validator stage? call? journal)
    (hcourse : journal.courses[index]? = some course)
    (hchange : ∀ outcome, (change course).outcome? = some outcome →
      (change course).Decided validator outcome) :
    ∀ course ∈ journal.courses.modify index change, ∀ outcome, course.outcome? = some outcome →
      course.Decided validator outcome := by
  intro other hmem outcome houtcome
  obtain ⟨place, hplace⟩ := List.mem_iff_getElem?.mp hmem
  rw [List.getElem?_modify] at hplace
  obtain ⟨old, hold, rfl⟩ := Option.map_eq_some_iff.mp hplace
  split at houtcome
  · rename_i hsame
    subst hsame
    cases hcourse.symm.trans hold
    rw [if_pos rfl]
    exact hchange outcome houtcome
  · rename_i hne
    rw [if_neg hne]
    exact h.decided old (List.mem_of_getElem? hold) outcome houtcome

theorem getElem?_modify_self (change : Course → Course)
    (hcourse : journal.courses[index]? = some course) :
    (journal.courses.modify index change)[index]? = some (change course) := by
  simp [hcourse]

theorem getElem?_modify_of_ne {other : Nat} (change : Course → Course)
    (hcourse : journal.courses[other]? = some course) (hne : index ≠ other) :
    (journal.courses.modify index change)[other]? = some course := by
  simp [hcourse, hne]

theorem goOn {latter? : Option Site.Call} (change : Course → Course)
    (h : Conducted strict validator stage? call? journal)
    (hcurrent : journal.current thread = some index)
    (hcourse : journal.courses[index]? = some course)
    (hunderway : Underway strict validator (change course) next latter?) :
    Conducted strict validator (update stage? thread (some next)) (update call? thread latter?)
      (journal.modify thread change) := by
  have hcourses := journal.courses_modify change hcurrent
  have hsame : (journal.modify thread change).current =
      update journal.current thread (some index) := by
    rw [Journal.current_modify, ← hcurrent, Function.update_eq_self]
  refine h.update_thread hsame (fun other old hother hne => ?_) (fun other hother => ?_)
    (.underway (hcourses ▸ getElem?_modify_self change hcourse) hunderway) ?_
  · rw [hcourses]
    exact getElem?_modify_of_ne change hother fun hindex => hne (hindex ▸ hcurrent)
  · exact .inl (hcurrent.trans hother)
  · rw [hcourses]
    refine h.decided_modify hcourse fun outcome houtcome => ?_
    rw [hunderway.outcome?_eq_none] at houtcome
    cases houtcome

theorem conclude {outcome : Outcome} {next? : Option (Pool.Stage Question)}
    {latter? : Option Site.Call} (h : Conducted strict validator stage? call? journal)
    (hcurrent : journal.current thread = some index)
    (hcourse : journal.courses[index]? = some course)
    (hdecided : course.Decided validator outcome)
    (hstance : Stance strict validator [] thread none next? latter?) :
    Conducted strict validator (update stage? thread next?) (update call? thread latter?)
      (journal.conclude thread outcome) := by
  have hcourses : (journal.conclude thread outcome).courses =
      journal.courses.modify index (Course.conclude outcome) :=
    journal.courses_modify _ hcurrent
  have hown : ∀ other, none = some other →
      journal.current thread = some other ∨ journal.courses.length ≤ other := nofun
  refine h.update_thread rfl (fun other old hother hne => ?_) hown ?_ ?_
  · rw [hcourses]
    exact getElem?_modify_of_ne _ hother fun hindex => hne (hindex ▸ hcurrent)
  · cases hstance with
    | away => exact .away
    | flushing hrequested => exact .flushing hrequested
    | idle hidle => exact .idle hidle
    | calling hleft hquestion hcalls hrequested =>
          exact .calling hleft hquestion hcalls hrequested
  · rw [hcourses]
    refine h.decided_modify hcourse fun other hother => ?_
    cases hother
    exact hdecided.conclude outcome

end Modify

end Conducted

end Service

end Turnstile

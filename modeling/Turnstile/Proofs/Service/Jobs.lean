import Turnstile.Proofs.Service.Components

/-!
What is left to do for the threads of a service while they are in no dispatch: a job,
or what comes after some part of the shutdown.
-/

namespace Turnstile.Service

def Use.isRequest : Use → Bool
  | .request _ => true
  | .scene _ | .flush | .startFlusher _ | .abandon => false

/-- A strict job asks for admission, and submits to the pool, only by dispatches. -/
def Job.Obeys (strict : Bool) : Job → Prop
  | .finish _ => True
  | .use question next =>
      (strict = true → question.isRequest = false) ∧ ∀ answer, (next answer).Obeys strict
  | .dispatch _ _ handler next =>
      (∀ batch, (handler batch).Obeys strict) ∧ ∀ outcome, (next outcome).Obeys strict
  | .submit job next => strict = false ∧ job.Obeys strict ∧ ∀ answer, (next answer).Obeys strict
  | .shutdown next => next.Obeys strict
  | .observe next => ∀ phase, (next phase).Obeys strict

theorem Job.obeys_false (job : Job) : job.Obeys false := by
  induction job with
  | finish ending => trivial
  | use question next ih => exact ⟨nofun, ih⟩
  | dispatch client batch handler next ihHandler ihNext => exact ⟨ihHandler, ihNext⟩
  | submit job next ihJob ihNext => exact ⟨rfl, ihJob, ihNext⟩
  | shutdown next ih => exact ih
  | observe next ih => exact ih

def System.Move.Obeys (strict : Bool) : System.Move → Prop
  | .dispatch made => ∀ batch, (made.handler batch).Obeys strict
  | .use wanted => strict = true → wanted.isRequest = false
  | .shutdown | .drop | .clock _ | .release _ | .worker .. | .caller .. | .wake _ | .answer _
  | .enter _ | .part .. | .leave _ | .tick _ | .endFlusher _ => True

theorem System.Move.obeys_false (move : Move) : move.Obeys false := by
  cases move with
  | dispatch made => exact fun batch => (made.handler batch).obeys_false
  | use wanted => nofun
  | _ => trivial

def Written (strict : Bool) (validator : Validator) (routine : Pool.Routine Question) : Prop :=
  ∃ job : Job, job.Obeys strict ∧ job.routine validator = routine

namespace Written

variable {strict : Bool} {validator : Validator} {routine : Pool.Routine Question}

theorem finish (ending : Pool.Ending) : Written strict validator (.finish ending) :=
  ⟨.finish ending, trivial, rfl⟩

theorem of_ask {question : Question} {rest : Bool → Pool.Routine Question}
    (h : Written strict validator (.ask question rest)) :
    (∃ wanted, question = .use wanted ∧ (strict = true → wanted.isRequest = false) ∧
        ∀ answer, Written strict validator (rest answer)) ∨
      ∃ dispatch next, question = .admission dispatch ∧
        rest = admitted validator dispatch (dispatch.job validator) next ∧
        Written strict validator (dispatch.job validator) ∧
        ∀ outcome, Written strict validator (next outcome) := by
  obtain ⟨job, hobeys, hroutine⟩ := h
  cases job with
  | use wanted next =>
      cases hroutine
      exact .inl ⟨wanted, rfl, hobeys.1, fun answer => ⟨next answer, hobeys.2 answer, rfl⟩⟩
  | dispatch client batch handler next =>
      cases hroutine
      exact .inr ⟨⟨client, batch, handler⟩, fun outcome => (next outcome).routine validator, rfl,
        rfl, ⟨handler batch, hobeys.1 batch, rfl⟩,
        fun outcome => ⟨next outcome, hobeys.2 outcome, rfl⟩⟩
  | finish ending => cases hroutine
  | submit job next => cases hroutine
  | shutdown next => cases hroutine
  | observe next => cases hroutine

theorem of_submit {job : Pool.Routine Question}
    {rest : Except Pool.Rejection Unit → Pool.Routine Question}
    (h : Written strict validator (.submit job rest)) :
    strict = false ∧ Written strict validator job ∧
      ∀ answer, Written strict validator (rest answer) := by
  obtain ⟨written, hobeys, hroutine⟩ := h
  cases written with
  | submit job next =>
      cases hroutine
      exact ⟨hobeys.1, ⟨job, hobeys.2.1, rfl⟩,
        fun answer => ⟨next answer, hobeys.2.2 answer, rfl⟩⟩
  | finish ending => cases hroutine
  | use wanted next => cases hroutine
  | dispatch client batch handler next => cases hroutine
  | shutdown next => cases hroutine
  | observe next => cases hroutine

theorem of_shutdown {rest : Pool.Routine Question}
    (h : Written strict validator (.shutdown rest)) : Written strict validator rest := by
  obtain ⟨written, hobeys, hroutine⟩ := h
  cases written with
  | shutdown next =>
      cases hroutine
      exact ⟨next, hobeys, rfl⟩
  | finish ending => cases hroutine
  | use wanted next => cases hroutine
  | dispatch client batch handler next => cases hroutine
  | submit job next => cases hroutine
  | observe next => cases hroutine

theorem of_observe {rest : Pool.Phase → Pool.Routine Question}
    (h : Written strict validator (.observe rest)) (phase : Pool.Phase) :
    Written strict validator (rest phase) := by
  obtain ⟨written, hobeys, hroutine⟩ := h
  cases written with
  | observe next =>
      cases hroutine
      exact ⟨next phase, hobeys phase, rfl⟩
  | finish ending => cases hroutine
  | use wanted next => cases hroutine
  | dispatch client batch handler next => cases hroutine
  | submit job next => cases hroutine
  | shutdown next => cases hroutine

end Written

/-- What a thread has left to do before its next action. Only a thread from outside
shuts the service down. -/
inductive Left (strict : Bool) (validator : Validator) : Bool → Pool.Routine Question → Prop
  | job {outside : Bool} {routine : Pool.Routine Question}
      (hwritten : Written strict validator routine) : Left strict validator outside routine
  | lock : Left strict validator true shutdownRoutine
  | claim : Left strict validator true Shutdown.claim
  | signalFlusher : Left strict validator true Shutdown.signalFlusher
  | joinFlusher : Left strict validator true Shutdown.joinFlusher
  | close : Left strict validator true Shutdown.close
  | flush : Left strict validator true Shutdown.flush
  | unlock : Left strict validator true Shutdown.unlock

namespace Left

variable {strict outside : Bool} {validator : Validator}

theorem of_submit {job : Pool.Routine Question}
    {rest : Except Pool.Rejection Unit → Pool.Routine Question}
    (h : Left strict validator outside (.submit job rest)) :
    Written strict validator (.submit job rest) := by
  cases h with
  | job hwritten => exact hwritten

theorem of_shutdown {rest : Pool.Routine Question}
    (h : Left strict validator outside (.shutdown rest)) : Left strict validator outside rest := by
  cases h with
  | job hwritten => exact .job hwritten.of_shutdown
  | close => exact .flush

theorem of_observe {rest : Pool.Phase → Pool.Routine Question}
    (h : Left strict validator outside (.observe rest)) (phase : Pool.Phase) :
    Left strict validator outside (rest phase) := by
  cases h with
  | job hwritten => exact .job (hwritten.of_observe phase)

theorem of_ask {question : Question} {rest : Bool → Pool.Routine Question}
    (h : Left strict validator outside (.ask question rest))
    (hquestion : ∀ dispatch, question ≠ .admission dispatch) (answer : Bool) :
    Left strict validator outside (rest answer) := by
  cases h with
  | job hwritten =>
      rcases hwritten.of_ask with ⟨_, _, _, hrest⟩ | ⟨dispatch, _, hsame, _⟩
      · exact .job (hrest answer)
      · exact absurd hsame (hquestion dispatch)
  | lock => exact .claim
  | claim =>
      cases answer with
      | true => exact .signalFlusher
      | false => exact .unlock
  | signalFlusher => exact .joinFlusher
  | joinFlusher => exact .close
  | flush => exact .unlock
  | unlock => exact .job (.finish .returned)

theorem of_admission {dispatch : Dispatch} {rest : Bool → Pool.Routine Question}
    (h : Left strict validator outside (.ask (.admission dispatch) rest)) :
    ∃ next, rest = admitted validator dispatch (dispatch.job validator) next ∧
      Written strict validator (dispatch.job validator) ∧
      ∀ outcome, Written strict validator (next outcome) := by
  cases h with
  | job hwritten =>
      rcases hwritten.of_ask with ⟨_, hsame, _⟩ | ⟨_, next, hsame, hrest⟩
      · cases hsame
      · cases hsame
        exact ⟨next, hrest⟩

theorem ne_count {question : Question} {rest : Bool → Pool.Routine Question}
    (h : Left strict validator outside (.ask question rest)) (outcome : Outcome) :
    question ≠ .count outcome := by
  rintro rfl
  cases h with
  | job hwritten => rcases hwritten.of_ask with ⟨_, hsame, _⟩ | ⟨_, _, hsame, _⟩ <;> cases hsame

theorem requested?_of_ask {question : Question} {rest : Bool → Pool.Routine Question}
    {call : Site.Call} (h : Left strict validator outside (.ask question rest))
    (hquestion : ∀ dispatch, question ≠ .admission dispatch)
    (hcall : question.call? = some call) (hstrict : strict = true) : call.requested? = none := by
  cases h with
  | job hwritten =>
      rcases hwritten.of_ask with ⟨wanted, rfl, hwanted, _⟩ | ⟨dispatch, _, hsame, _⟩
      · cases wanted with
        | request client => cases hwanted hstrict
        | flush =>
            cases hcall
            rfl
        | scene wanted => cases hcall
        | startFlusher interval => cases hcall
        | abandon => cases hcall
      · exact absurd hsame (hquestion dispatch)
  | flush =>
      cases hcall
      rfl
  | lock => cases hcall
  | claim => cases hcall
  | signalFlusher => cases hcall
  | joinFlusher => cases hcall
  | unlock => cases hcall

end Left

/-- Where a thread stands that is in no dispatch. A strict one is in no push either. -/
inductive Idle (strict : Bool) (validator : Validator) (outside : Bool) :
    Pool.Stage Question → Prop
  | ready {routine : Pool.Routine Question} (hleft : Left strict validator outside routine) :
      Idle strict validator outside (.ready routine)
  | accepted {routine : Pool.Routine Question} (hfree : strict = false)
      (hwritten : Written strict validator routine) :
      Idle strict validator outside (.accepted routine)
  | notifying {routine : Pool.Routine Question} (hfree : strict = false)
      (hwritten : Written strict validator routine) :
      Idle strict validator outside (.notifying routine)
  | refused {routine : Pool.Routine Question} (hfree : strict = false)
      (hwritten : Written strict validator routine) :
      Idle strict validator outside (.refused routine)
  | closing {routine : Pool.Routine Question}
      (hleft : Left strict validator outside (.shutdown routine)) :
      Idle strict validator outside (.closing routine)
  | awaiting {routine : Pool.Routine Question}
      (hleft : Left strict validator outside (.shutdown routine)) :
      Idle strict validator outside (.awaiting routine)
  | joining {routine : Pool.Routine Question}
      (hleft : Left strict validator outside (.shutdown routine)) :
      Idle strict validator outside (.joining routine)

theorem Idle.advance {strict outside : Bool} {validator : Validator} {pool after : Pool Question}
    {seat : Pool.Seat} {chosen : Nat} {stage next : Pool.Stage Question}
    (h : Idle strict validator outside stage)
    (hadvance : pool.advance? seat chosen stage = some (next, after)) :
    Idle strict validator outside next := by
  cases Pool.advance_of_some hadvance with
  | enter _ =>
      cases h with
      | ready hleft =>
          obtain ⟨hfree, _, hrest⟩ := hleft.of_submit.of_submit
          exact .accepted hfree (hrest _)
  | refuse _ =>
      cases h with
      | ready hleft =>
          obtain ⟨hfree, _, hrest⟩ := hleft.of_submit.of_submit
          exact .refused hfree (hrest _)
  | close _ _ =>
      cases h with
      | ready hleft => exact .closing hleft
  | observe =>
      cases h with
      | ready hleft => exact .ready (hleft.of_observe _)
  | countAccepted =>
      cases h with
      | accepted hfree hwritten => exact .notifying hfree hwritten
  | notify _ =>
      cases h with
      | notifying _ hwritten => exact .ready (.job hwritten)
  | countRejected =>
      cases h with
      | refused _ hwritten => exact .ready (.job hwritten)
  | notifyAll _ =>
      cases h with
      | closing hleft => exact .ready hleft.of_shutdown
  | await _ =>
      cases h with
      | closing hleft => exact .awaiting hleft
  | hold _ =>
      cases h with
      | awaiting hleft => exact .joining hleft
  | join _ _ =>
      cases h with
      | joining hleft => exact .joining hleft
  | stop _ _ =>
      cases h with
      | joining hleft => exact .ready hleft.of_shutdown

end Turnstile.Service

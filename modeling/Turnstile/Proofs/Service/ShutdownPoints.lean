import Turnstile.Proofs.Service.Runs

/-!
The parts of a shutdown from outside, and how a thread goes on from each of them. Whoever
stands at one is shutting the service down; jobs, requests and dispatches never come to any.
-/

namespace Turnstile.Service

open Function (update)

/-- What a thread that shuts the service down is about to do. -/
inductive ShutdownPoint
  | entering
  | claiming
  | signalling
  | joining
  | closing
  | flushing
  | leaving
  deriving DecidableEq, Repr

def Question.point? : Question → Option ShutdownPoint
  | .lock => some .entering
  | .claim => some .claiming
  | .signalFlusher => some .signalling
  | .joinFlusher => some .joining
  | .lastFlush => some .flushing
  | .unlock => some .leaving
  | .use _ | .admission _ | .count _ => none

def ShutdownPoint.next? (answer : Bool) : ShutdownPoint → Option ShutdownPoint
  | .entering => some .claiming
  | .claiming => if answer then some .signalling else some .leaving
  | .signalling => some .joining
  | .joining => some .closing
  | .closing => some .flushing
  | .flushing => some .leaving
  | .leaving => none

def flushesNext : Pool.Routine Question → Bool
  | .ask .lastFlush _ => true
  | _ => false

def pointOf? : Pool.Routine Question → Option ShutdownPoint
  | .ask question _ => question.point?
  | .shutdown next => if flushesNext next then some .closing else none
  | .finish _ | .submit .. | .observe _ => none

def pointAt? : Pool.Stage Question → Option ShutdownPoint
  | .ready routine => pointOf? routine
  | .closing next | .awaiting next | .joining next =>
      if flushesNext next then some .closing else none
  | .accepted _ | .notifying _ | .refused _ => none

theorem Written.flushesNext_eq {strict : Bool} {validator : Validator}
    {routine : Pool.Routine Question} (h : Written strict validator routine) :
    flushesNext routine = false := by
  obtain ⟨job, -, rfl⟩ := h
  cases job <;> rfl

theorem Written.pointOf?_eq_none {strict : Bool} {validator : Validator}
    {routine : Pool.Routine Question} (h : Written strict validator routine) :
    pointOf? routine = none := by
  cases routine with
  | ask question rest => rcases h.of_ask with ⟨_, rfl, _⟩ | ⟨_, _, rfl, _⟩ <;> rfl
  | shutdown next =>
      rw [pointOf?, h.of_shutdown.flushesNext_eq]
      rfl
  | finish ending => rfl
  | submit job next => rfl
  | observe next => rfl

namespace Left

variable {strict outside : Bool} {validator : Validator} {routine : Pool.Routine Question}

theorem pointOf?_eq_none_or (h : Left strict validator outside routine) :
    pointOf? routine = none ∨ outside = true := by
  cases h with
  | job hwritten => exact .inl hwritten.pointOf?_eq_none
  | lock => exact .inr rfl
  | claim => exact .inr rfl
  | signalFlusher => exact .inr rfl
  | joinFlusher => exact .inr rfl
  | close => exact .inr rfl
  | flush => exact .inr rfl
  | unlock => exact .inr rfl

theorem pointOf?_of_shutdown (h : Left strict validator outside (.shutdown routine)) :
    pointOf? routine = if flushesNext routine then some .flushing else none := by
  cases h with
  | job hwritten =>
      rw [hwritten.of_shutdown.pointOf?_eq_none, hwritten.of_shutdown.flushesNext_eq]
      rfl
  | close => rfl

theorem pointOf?_of_ask {question : Question} {rest : Bool → Pool.Routine Question}
    (h : Left strict validator outside (.ask question rest))
    (hquestion : ∀ dispatch, question ≠ .admission dispatch) (answer : Bool) :
    pointOf? (rest answer) = question.point?.bind (ShutdownPoint.next? answer) := by
  cases h with
  | job hwritten =>
      rcases hwritten.of_ask with ⟨_, rfl, _, hrest⟩ | ⟨dispatch, _, hsame, _⟩
      · exact (hrest answer).pointOf?_eq_none
      · exact absurd hsame (hquestion dispatch)
  | claim => cases answer <;> rfl
  | lock => rfl
  | signalFlusher => rfl
  | joinFlusher => rfl
  | flush => rfl
  | unlock => rfl

end Left

theorem Underway.pointAt?_eq_none {strict : Bool} {validator : Validator} {course : Course}
    {stage : Pool.Stage Question} {call? : Option Site.Call}
    (h : Underway strict validator course stage call?) : pointAt? stage = none := by
  cases h <;> rfl

namespace Idle

variable {strict outside : Bool} {validator : Validator} {stage next : Pool.Stage Question}

theorem pointAt?_eq_none_or (h : Idle strict validator outside stage) :
    pointAt? stage = none ∨ outside = true := by
  cases h with
  | ready hleft => exact hleft.pointOf?_eq_none_or
  | closing hleft => exact hleft.pointOf?_eq_none_or
  | awaiting hleft => exact hleft.pointOf?_eq_none_or
  | joining hleft => exact hleft.pointOf?_eq_none_or
  | accepted _ _ => exact .inl rfl
  | notifying _ _ => exact .inl rfl
  | refused _ _ => exact .inl rfl

theorem pointAt?_advance {pool after : Pool Question} {chosen : Nat}
    (h : Idle strict validator outside stage)
    (hadvance : pool.advance? .outside chosen stage = some (next, after)) :
    pointAt? next = pointAt? stage ∨
      pointAt? stage = some .closing ∧ pointAt? next = some .flushing ∧
        after.phase = .stopped := by
  cases Pool.advance_of_some hadvance with
  | enter _ => exact .inl rfl
  | refuse _ => exact .inl rfl
  | close _ _ => exact .inl rfl
  | countAccepted => exact .inl rfl
  | await _ => exact .inl rfl
  | hold _ => exact .inl rfl
  | join _ _ => exact .inl rfl
  | notifyAll hworker => cases hworker
  | observe =>
      cases h with
      | ready hleft =>
          cases hleft with
          | job hjob => exact .inl (hjob.of_observe _).pointOf?_eq_none
  | notify _ =>
      cases h with
      | notifying _ hjob => exact .inl hjob.pointOf?_eq_none
  | countRejected =>
      cases h with
      | refused _ hjob => exact .inl hjob.pointOf?_eq_none
  | @stop rest _ _ _ =>
      cases h with
      | joining hleft =>
          have hnext : pointAt? (.ready rest) = _ := hleft.pointOf?_of_shutdown
          cases hflush : flushesNext rest with
          | false =>
              left
              rw [hnext, pointAt?, hflush]
              rfl
          | true =>
              right
              rw [hnext, pointAt?, hflush]
              exact ⟨rfl, rfl, rfl⟩

end Idle

namespace System

variable {system after : System σ} {strict : Bool} {validator : Validator} {journal : Journal}
  {thread : Thread} {question : Question} {rest : Bool → Pool.Routine Question} {answer : Bool}
  {front : Front σ}

def point? (system : System σ) (thread : Thread) : Option ShutdownPoint :=
  (system.stage? thread).bind pointAt?

theorem point?_of_stage {stage : Pool.Stage Question} (h : system.stage? thread = some stage) :
    system.point? thread = pointAt? stage := by
  rw [point?, h, Option.bind_some]

theorem point?_of_ask (h : system.stage? thread = some (.ready (.ask question rest))) :
    system.point? thread = question.point? := point?_of_stage h

theorem point?_of_update {next? : Option (Pool.Stage Question)}
    (h : after.stage? = update system.stage? thread next?) :
    after.point? = update system.point? thread (next?.bind pointAt?) := by
  funext other
  rw [point?, h, Function.update_apply, Function.update_apply]
  split
  · rfl
  · rfl

theorem point?_of_same (h : after.stage? = system.stage?) : after.point? = system.point? := by
  funext thread
  rw [point?, h, point?]

theorem pointAt?_of_not_holdsService {stage : Pool.Stage Question}
    (h : holdsService stage = false) : pointAt? stage = none := by
  unfold holdsService at h
  split at h
  · rfl
  · rfl
  · cases h

theorem point?_eq_none_of_inside
    (h : Conducted strict validator system.stage? system.call? journal)
    (hinside : thread.isOutside = false) : system.point? thread = none := by
  cases hstage : system.stage? thread with
  | none => rw [point?, hstage, Option.bind_none]
  | some stage =>
      rw [point?_of_stage hstage]
      rcases h.stance_of_stage hstage with ⟨_, _, hidle⟩ | ⟨_, _, _, rfl, _, _, hleft, _⟩ |
        ⟨_, _, _, _, hunderway⟩
      · exact hidle.pointAt?_eq_none_or.resolve_right (Bool.eq_false_iff.mp hinside)
      · exact hleft.pointOf?_eq_none_or.resolve_right (Bool.eq_false_iff.mp hinside)
      · exact hunderway.pointAt?_eq_none

theorem point?_eq_none_of_isReleased
    (h : Conducted strict validator system.stage? system.call? journal)
    (hfree : system.isReleased = true) (thread : Thread) : system.point? thread = none := by
  cases thread with
  | worker index => exact point?_eq_none_of_inside h rfl
  | flusher index => exact point?_eq_none_of_inside h rfl
  | caller index =>
      cases hstage : system.stage? (.caller index) with
      | none => rw [point?, hstage, Option.bind_none]
      | some stage =>
          have hmem : stage ∈ system.service.system.callers := List.mem_of_getElem? hstage
          have hlet := List.all_eq_true.mp hfree stage hmem
          rw [point?_of_stage hstage]
          exact pointAt?_of_not_holdsService (Bool.not_eq_true' _ ▸ hlet)

theorem pointAt?_advance {stage next : Pool.Stage Question} {pool : Pool Question} {chosen : Nat}
    (h : Conducted strict validator system.stage? system.call? journal)
    (hstage : system.stage? thread = some stage)
    (hadvance : system.service.pool.advance? .outside chosen stage = some (next, pool)) :
    pointAt? next = pointAt? stage ∨
      pointAt? stage = some .closing ∧ pointAt? next = some .flushing ∧ pool.phase = .stopped := by
  rcases h.stance_of_stage hstage with ⟨_, _, hidle⟩ | ⟨_, _, _, rfl, _⟩ |
    ⟨_, _, _, _, hunderway⟩
  · exact hidle.pointAt?_advance hadvance
  · cases hadvance
  · left
    rw [hunderway.pointAt?_eq_none, (hunderway.advance hadvance).2.pointAt?_eq_none]

theorem pointOf?_of_hear (h : Conducted strict validator system.stage? system.call? journal)
    (hstage : system.stage? thread = some (.ready (.ask question rest)))
    (hanswer : system.service.front.answerAtOnce? question = some (answer, front)) :
    pointOf? (rest answer) = question.point?.bind (ShutdownPoint.next? answer) := by
  have hquestion (dispatch : Dispatch) : question ≠ .admission dispatch := by
    rintro rfl
    cases (Front.answerAtOnce?_eq_some hanswer).1
  rcases h.stance_of_stage hstage with ⟨_, _, hidle⟩ | ⟨_, _, _, hsame, _, _, hleft, _⟩ |
    ⟨_, _, _, _, hunderway⟩
  · cases hidle with
    | ready hleft => exact hleft.pointOf?_of_ask hquestion answer
  · cases hsame
    exact hleft.pointOf?_of_ask hquestion answer
  · rcases hunderway.of_ask with ⟨hsame, _⟩ | ⟨_, rfl, _, _, hnext⟩
    · exact absurd hsame (hquestion _)
    · exact (hnext answer).pointOf?_eq_none

theorem pointOf?_of_leave {call : Site.Call}
    (h : Conducted strict validator system.stage? system.call? journal)
    (hcall : system.call? thread = some call)
    (hstage : system.stage? thread = some (.ready (.ask question rest)))
    (hconclude : system.service.front.conclude? question call = some (answer, front)) :
    pointOf? (rest answer) = question.point?.bind (ShutdownPoint.next? answer) := by
  rcases h.stance_of_stage hstage with ⟨_, hnone, _⟩ |
    ⟨_, _, _, hsame, _, _, hleft, hquestion, _⟩ | ⟨_, _, _, _, hunderway⟩
  · cases hcall.symm.trans hnone
  · cases hsame
    exact hleft.pointOf?_of_ask hquestion answer
  · rcases hunderway.of_ask with ⟨rfl, _⟩ | ⟨_, _, hnone, _⟩
    · rw [hcall] at hunderway
      exact (hunderway.admitted hconclude).pointAt?_eq_none
    · cases hcall.symm.trans hnone

end System

theorem Setup.point?_start (setup : Setup σ) (thread : Thread) :
    setup.start.point? thread = none := by
  rw [System.point?, setup.stage?_start, Option.bind_none]

end Turnstile.Service

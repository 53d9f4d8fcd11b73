import Turnstile.Proofs.Service.Halt

/-!
Who stops a service. Only a shutdown from outside claims it, whatever handlers do to the
pool; so the first of these finds it not stopped.
-/

namespace Turnstile.Service

open Function (update)

namespace Front

variable {front after : Front σ} {question : Question} {answer : Bool}

theorem stopped_startFlusher (front : Front σ) (interval : Nat) :
    (front.startFlusher interval).stopped = front.stopped := by
  unfold startFlusher
  split
  · rfl
  · split <;> rfl

theorem stopped_answerAtOnce (h : front.answerAtOnce? question = some (answer, after))
    (hclaim : question ≠ .claim) : after.stopped = front.stopped := by
  cases answers_of_answerAtOnce h with
  | keep _ _ hsteady _ _ _ => exact hsteady.stopped_eq
  | start _ _ => exact front.stopped_startFlusher _
  | signal => exact front.steady_signalFlusher.stopped_eq
  | abandon => exact (front.steady_tellToEnd front.current?).stopped_eq
  | claim _ => exact absurd rfl hclaim
  | turnAway _ => rfl
  | lock _ => rfl
  | join _ => rfl
  | unlock => rfl

end Front

theorem Left.of_claim {strict outside : Bool} {validator : Validator}
    {rest : Bool → Pool.Routine Question} (h : Left strict validator outside (.ask .claim rest)) :
    outside = true ∧ Pool.Routine.ask .claim rest = Shutdown.claim := by
  cases h with
  | claim => exact ⟨rfl, rfl⟩
  | job hwritten => rcases hwritten.of_ask with ⟨_, hsame, _⟩ | ⟨_, _, hsame, _⟩ <;> cases hsame

theorem Conducted.of_claim {strict : Bool} {validator : Validator}
    {stage? : Thread → Option (Pool.Stage Question)} {call? : Thread → Option Site.Call}
    {journal : Journal} {thread : Thread} {rest : Bool → Pool.Routine Question}
    (h : Conducted strict validator stage? call? journal)
    (hstage : stage? thread = some (.ready (.ask .claim rest))) :
    thread.isOutside = true ∧ Pool.Routine.ask .claim rest = Shutdown.claim ∧
      call? thread = none := by
  rcases h.stance_of_stage hstage with ⟨_, hnone, hidle⟩ |
    ⟨_, _, _, hsame, _, _, _, _, hcalls, _⟩ | ⟨_, _, _, _, hunderway⟩
  · cases hidle with
    | ready hleft => exact ⟨hleft.of_claim.1, hleft.of_claim.2, hnone⟩
  · cases hsame
    cases hcalls
  · rcases hunderway.of_ask with ⟨hsame, _⟩ | ⟨_, hsame, _⟩ <;> cases hsame

namespace System

variable {system after : System σ} {move : Move} {thread : Thread}

def claim? (system : System σ) : Move → Option Thread
  | .answer thread =>
      match system.question? thread with
      | some .claim => some thread
      | _ => none
  | _ => none

def claims (first : System σ) (moves : List Move) : List Thread :=
  Steps.history step? (fun system move seen => seen ++ (system.claim? move).toList) [] first moves

theorem claim?_answer (h : system.question? thread = some .claim) :
    system.claim? (.answer thread) = some thread := by
  simp only [claim?, h]

theorem of_claim? (h : system.claim? move = some thread) :
    move = .answer thread ∧ system.question? thread = some .claim := by
  cases move with
  | answer other =>
      simp only [claim?] at h
      split at h <;> cases h
      exact ⟨rfl, ‹_›⟩
  | _ => cases h

theorem stopped_of_step (hstep : step? system move = some after)
    (hclaim : system.claim? move = none) :
    after.service.front.stopped = system.service.front.stopped := by
  cases transition_of_step hstep with
  | hear hstage hanswer _ _ =>
      refine Front.stopped_answerAtOnce hanswer fun hsame => ?_
      rw [hsame] at hstage
      rw [claim?_answer (question?_of_stage hstage)] at hclaim
      cases hclaim
  | leave _ _ hconclude _ => exact (Front.steady_conclude hconclude).1.stopped_eq
  | endFlusher hended => exact (Front.endFlusher_of_some hended).2.1.stopped_eq
  | begin _ _ _ => rfl
  | drop _ _ => rfl
  | work _ _ => rfl
  | enter _ _ _ _ => rfl
  | part _ _ => rfl
  | rest _ => rfl
  | tick _ => rfl
  | clock => rfl
  | release => rfl

theorem claim?_of_claimed (hmem : .claimed thread ∈ system.events move) :
    system.claim? move = some thread ∧ system.service.front.stopped = false := by
  cases move with
  | answer other =>
      rw [events] at hmem
      cases hquestion : system.question? other with
      | none =>
          rw [hquestion] at hmem
          cases hmem
      | some question =>
          rw [hquestion, Option.elim_some] at hmem
          cases question with
          | claim =>
              rw [Front.events] at hmem
              split at hmem
              · cases hmem
              · cases List.mem_singleton.mp hmem
                exact ⟨claim?_answer hquestion, Bool.eq_false_iff.mpr ‹_›⟩
          | use wanted => cases wanted <;> simp [Front.events] at hmem
          | signalFlusher => simp [Front.events] at hmem
          | joinFlusher => simp [Front.events] at hmem
          | _ => cases hmem
  | leave other =>
      rw [events] at hmem
      split at hmem
      · simp at hmem
      · cases hmem
  | _ => cases hmem

theorem stopped_of_claim (hstep : step? system move = some after)
    (hclaim : system.claim? move = some thread) : after.service.front.stopped = true := by
  obtain ⟨rfl, hquestion⟩ := of_claim? hclaim
  obtain ⟨rest, hstage⟩ := stage?_of_question hquestion
  cases transition_of_step hstep with
  | hear hasks hanswer _ _ =>
      cases hstage.symm.trans hasks
      cases Front.answers_of_answerAtOnce hanswer with
      | claim _ => rfl
      | turnAway hstopped => exact hstopped
      | keep hpoint _ _ _ _ _ => cases hpoint
  | begin hroutine _ _ => cases hroutine
  | work hmove _ => cases hmove

end System

namespace Setup

variable {setup : Setup σ} {moves before : List System.Move} {system last after : System σ}
  {move : System.Move} {index : Nat}

theorem claims_concat (hbefore : setup.start.run? before = some system)
    (hstep : System.step? system move = some after) :
    setup.start.claims (before ++ [move]) =
      setup.start.claims before ++ (system.claim? move).toList :=
  Steps.history_concat [] hbefore hstep

theorem exists_claim_of_stopped (hrun : setup.start.run? moves = some last)
    (hstopped : last.service.front.stopped = true) :
    ∃ index, .caller index ∈ setup.start.claims moves := by
  let Claimed (seen : List System.Move) (system : System σ) : Prop :=
    system.service.front.stopped = true → ∃ index, .caller index ∈ setup.start.claims seen
  have hfirst : Claimed [] setup.start := fun hstarted => by cases hstarted
  have hclaimed : Claimed moves last :=
    Steps.run_induction hrun hfirst fun seen system hseen h move _ after hstep hafter => by
      rw [claims_concat hseen hstep]
      cases hclaim : system.claim? move with
      | none =>
          rw [System.stopped_of_step hstep hclaim] at hafter
          obtain ⟨index, hmem⟩ := h hafter
          exact ⟨index, List.mem_append_left _ hmem⟩
      | some thread =>
          obtain ⟨-, hquestion⟩ := System.of_claim? hclaim
          obtain ⟨rest, hstage⟩ := System.stage?_of_question hquestion
          have houtside := (kept_of_free_run hseen).conducted.of_claim hstage
          cases thread with
          | caller index => exact ⟨index, List.mem_append_right _ (List.mem_singleton_self _)⟩
          | worker index => cases houtside.1
          | flusher index => cases houtside.1
  exact hclaimed hstopped

/-- The shutdown that claims the service is the first that tries to. -/
structure First (setup : Setup σ) (moves : List System.Move) (system : System σ) : Prop where
  unclaimed : system.service.front.stopped = false → setup.start.claims moves = []
  head : ∀ thread, .claimed thread ∈ setup.start.chronicle moves →
    (setup.start.claims moves).head? = some thread

theorem first_of_run (hrun : setup.start.run? moves = some last) : First setup moves last := by
  have hstart : First setup [] setup.start :=
    ⟨fun _ => rfl, fun _ hmem => absurd hmem List.not_mem_nil⟩
  refine Steps.run_induction hrun hstart fun before system hbefore h move _ after hstep => ?_
  have hclaims := claims_concat hbefore hstep
  constructor
  · intro hopen
    cases hclaim : system.claim? move with
    | none =>
        rw [System.stopped_of_step hstep hclaim] at hopen
        rw [hclaims, hclaim, h.unclaimed hopen]
        rfl
    | some thread => cases hopen.symm.trans (System.stopped_of_claim hstep hclaim)
  · intro thread hmem
    rw [chronicle_concat hbefore hstep] at hmem
    rw [hclaims, List.head?_append]
    rcases List.mem_append.mp hmem with hold | hnew
    · rw [h.head thread hold]
      rfl
    · obtain ⟨hclaim, hopen⟩ := System.claim?_of_claimed hnew
      rw [h.unclaimed hopen, hclaim]
      rfl

end Setup

end Turnstile.Service

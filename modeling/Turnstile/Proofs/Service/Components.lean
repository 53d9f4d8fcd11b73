import Turnstile.Proofs.Service.Moves
import Turnstile.Proofs.Site.Conservation

/-!
What a run of a service is to its parts. The pool goes through a run of its own, with
the answers that threads get; and so does the site, where a thread leaves its calls behind.
-/

namespace Turnstile

open Function (update)

namespace Service

def Thread.hears? : Thread → Bool → Option (Pool.System.Move Question)
  | .worker index, answer => some (.answerWorker index answer)
  | .caller index, answer => some (.answerCaller index answer)
  | .flusher _, _ => none

theorem Thread.hears?_inPool (thread : Pool.Thread) (answer : Bool) :
    (inPool thread).hears? answer = some (thread.hears answer) := by
  cases thread <;> rfl

namespace Front

variable {front after : Front σ} {question : Question} {call : Site.Call} {answer : Bool}

theorem endFlusher?_eq_some {index : Nat} (h : front.endFlusher? index = some after) :
    after.site = front.site ∧ after.validator = front.validator ∧ after.stats = front.stats := by
  unfold endFlusher? at h
  split at h <;> cases h
  exact ⟨rfl, rfl, rfl⟩

theorem startFlusher_cases (front : Front σ) (interval : Nat) :
    (front.startFlusher interval).site = front.site ∧
      (front.startFlusher interval).validator = front.validator ∧
      (front.startFlusher interval).stats = front.stats := by
  unfold startFlusher
  split
  · exact ⟨rfl, rfl, rfl⟩
  · split <;> exact ⟨rfl, rfl, rfl⟩

theorem tellToEnd_cases (front : Front σ) (index? : Option Nat) :
    (front.tellToEnd index?).site = front.site ∧
      (front.tellToEnd index?).validator = front.validator ∧
      (front.tellToEnd index?).stats = front.stats := by
  cases index? <;> exact ⟨rfl, rfl, rfl⟩

def statsAfter (front : Front σ) : Question → Stats
  | .count outcome => front.stats.count outcome
  | .use _ | .admission _ | .lock | .claim | .signalFlusher | .joinFlusher | .lastFlush
  | .unlock => front.stats

theorem answerAtOnce?_eq_some (h : front.answerAtOnce? question = some (answer, after)) :
    question.call? = none ∧ after.site = front.site ∧ after.validator = front.validator ∧
      after.stats = front.statsAfter question := by
  cases question with
  | use wanted =>
      cases wanted with
      | scene wanted =>
          simp only [answerAtOnce?, Question.call?, Option.isNone_none, if_true, Front.answer,
            answerUse, Option.map_eq_some_iff, Prod.mk.injEq] at h
          obtain ⟨_, _, _, rfl⟩ := h
          exact ⟨rfl, rfl, rfl, rfl⟩
      | request client => cases h
      | flush => cases h
      | startFlusher interval =>
          cases h
          obtain ⟨hsite, hvalidator, hstats⟩ := front.startFlusher_cases interval
          exact ⟨rfl, hsite, hvalidator, hstats⟩
      | abandon =>
          cases h
          exact ⟨rfl, front.tellToEnd_cases front.current?⟩
  | admission dispatch => cases h
  | count outcome =>
      cases h
      exact ⟨rfl, rfl, rfl, rfl⟩
  | lock =>
      simp only [answerAtOnce?, Question.call?, Option.isNone_none, if_true, Front.answer] at h
      split at h <;> cases h
      exact ⟨rfl, rfl, rfl, rfl⟩
  | claim =>
      simp only [answerAtOnce?, Question.call?, Option.isNone_none, if_true, Front.answer,
        claim] at h
      split at h <;> cases h <;> exact ⟨rfl, rfl, rfl, rfl⟩
  | signalFlusher =>
      cases h
      exact ⟨rfl, front.tellToEnd_cases front.taken?⟩
  | joinFlusher =>
      simp only [answerAtOnce?] at h
      split at h <;> cases h
      exact ⟨rfl, rfl, rfl, rfl⟩
  | lastFlush => cases h
  | unlock =>
      cases h
      exact ⟨rfl, rfl, rfl, rfl⟩

theorem conclude?_eq_some (h : front.conclude? question call = some (answer, after)) :
    call.isFinished = true ∧ after.site = front.site ∧ after.validator = front.validator ∧
      after.stats = front.stats := by
  unfold conclude? at h
  split at h
  · cases h
    exact ⟨rfl, rfl, rfl, rfl⟩
  · split at h <;> cases h <;> exact ⟨rfl, rfl, rfl, rfl⟩
  · cases h

end Front

namespace System

variable {system after : System σ} {move : Move}

def question? (system : System σ) (thread : Thread) : Option Question :=
  ((system.stage? thread).bind Pool.Stage.asked?).map Prod.fst

theorem question?_of_stage {thread : Thread} {question : Question}
    {rest : Bool → Pool.Routine Question}
    (h : system.stage? thread = some (.ready (.ask question rest))) :
    system.question? thread = some question := by
  rw [question?, h]
  rfl

theorem stage?_of_question {thread : Thread} {question : Question}
    (h : system.question? thread = some question) :
    ∃ rest, system.stage? thread = some (.ready (.ask question rest)) := by
  obtain ⟨⟨asked, rest⟩, hasked, rfl⟩ := Option.map_eq_some_iff.mp h
  obtain ⟨stage, hstage, hstands⟩ := Option.bind_eq_some_iff.mp hasked
  cases Pool.Stage.asked_of_some hstands
  exact ⟨rest, hstage⟩

/-! The pool. -/

def heard? (system : System σ) : Move → Option (Thread × Bool)
  | .answer thread => do
      let (answer, _) ← system.service.front.answerAtOnce? (← system.question? thread)
      return (thread, answer)
  | .leave thread => do
      let (answer, _) ← system.service.front.conclude? (← system.question? thread)
        (← system.call? thread)
      return (thread, answer)
  | _ => none

def poolMove? (system : System σ) (move : Move) : Option (Pool.System.Move Question) :=
  ((move.routine? system.service.front.validator).map .call).or
    (move.work?.or ((system.heard? move).bind fun heard => heard.1.hears? heard.2))

def poolMoves (first : System σ) (moves : List Move) : List (Pool.System.Move Question) :=
  Steps.history step? (fun system move seen => seen ++ (system.poolMove? move).toList) [] first
    moves

theorem poolMove?_of_work {poolMove : Pool.System.Move Question} (system : System σ)
    (h : move.work? = some poolMove) : system.poolMove? move = some poolMove := by
  have hroutine : move.routine? system.service.front.validator = none := by
    cases move <;> first | rfl | cases h
  rw [poolMove?, hroutine, h]
  rfl

theorem heard?_answer {thread : Thread} {question : Question} {rest : Bool → Pool.Routine Question}
    {answer : Bool} {front : Front σ}
    (hstage : system.stage? thread = some (.ready (.ask question rest)))
    (hanswer : system.service.front.answerAtOnce? question = some (answer, front)) :
    system.heard? (.answer thread) = some (thread, answer) := by
  simp [heard?, question?_of_stage hstage, hanswer]

theorem heard?_leave {thread : Thread} {call : Site.Call} {question : Question}
    {rest : Bool → Pool.Routine Question} {answer : Bool} {front : Front σ}
    (hcall : system.call? thread = some call)
    (hstage : system.stage? thread = some (.ready (.ask question rest)))
    (hconclude : system.service.front.conclude? question call = some (answer, front)) :
    system.heard? (.leave thread) = some (thread, answer) := by
  simp [heard?, question?_of_stage hstage, hcall, hconclude]

theorem poolMove?_of_heard {thread : Pool.Thread} {answer : Bool}
    (hroutine : move.routine? system.service.front.validator = none) (hwork : move.work? = none)
    (h : system.heard? move = some (.inPool thread, answer)) :
    system.poolMove? move = some (thread.hears answer) := by
  rw [poolMove?, hroutine, hwork, h]
  exact Thread.hears?_inPool thread answer

theorem run?_toList {poolMove : Pool.System.Move Question} {pool later : Pool.System Question}
    {poolMove? : Option (Pool.System.Move Question)} (hmove : poolMove? = some poolMove)
    (hstep : Pool.System.step? pool poolMove = some later) :
    pool.run? poolMove?.toList = some later := by
  rw [hmove, Option.toList_some, Pool.System.run?, Steps.run?_cons, hstep]
  rfl

theorem poolStep_of_step (hstep : step? system move = some after) :
    system.service.system.run? (system.poolMove? move).toList = some after.service.system := by
  cases transition_of_step hstep with
  | begin hroutine _ _ =>
      apply run?_toList (by rw [poolMove?, hroutine]; rfl)
      rfl
  | drop _ _ =>
      exact run?_toList (rfl : _ = some (Pool.System.Move.call shutdownRoutine)) rfl
  | work hmove hpool => exact run?_toList (system.poolMove?_of_work hmove) hpool
  | hear hstage hanswer hpool _ =>
      exact run?_toList (poolMove?_of_heard rfl rfl (heard?_answer hstage hanswer)) hpool
  | leave hcall hstage hconclude hpool =>
      exact run?_toList (poolMove?_of_heard rfl rfl (heard?_leave hcall hstage hconclude)) hpool
  | rest _ => rfl
  | clock => rfl
  | release => rfl
  | enter _ _ _ _ => rfl
  | part _ _ => rfl
  | tick _ => rfl
  | endFlusher _ => rfl

theorem run?_poolMoves {first last : System σ} {moves : List Move}
    (hrun : first.run? moves = some last) :
    first.service.system.run? (first.poolMoves moves) = some last.service.system := by
  let Led (system : System σ) (seen : List (Pool.System.Move Question)) : Prop :=
    first.service.system.run? seen = some system.service.system
  have hled : Led last (first.poolMoves moves) :=
    Steps.history_invariant hrun rfl fun _ _ _ _ h hstep =>
      Steps.run?_append_of_run? h (poolStep_of_step hstep)
  exact hled

end System

/-! The site. -/

theorem Question.begins_of_call? {question : Question} {call : Site.Call}
    (h : question.call? = some call) : call = .listing ∨ ∃ client, call = .finding client := by
  cases question with
  | use wanted =>
      cases wanted with
      | request client => exact .inr ⟨client, (Option.some.inj h).symm⟩
      | flush => exact .inl (Option.some.inj h).symm
      | scene wanted => cases h
      | startFlusher interval => cases h
      | abandon => cases h
  | admission dispatch => exact .inr ⟨dispatch.client, (Option.some.inj h).symm⟩
  | lastFlush => exact .inl (Option.some.inj h).symm
  | count outcome => cases h
  | lock => cases h
  | claim => cases h
  | signalFlusher => cases h
  | joinFlusher => cases h
  | unlock => cases h

/-- The moves of the site so far, and where among its calls each thread's latest one stands. -/
structure Visits where
  moves : List Site.System.Move := []
  count : Nat := 0
  places : Thread → Nat := fun _ => 0

namespace Visits

def enter (visits : Visits) (thread : Thread) (call : Site.Call) : Visits where
  moves := visits.moves ++ [(call.requested?.map Site.System.Move.request).getD .flush]
  count := visits.count + 1
  places := update visits.places thread visits.count

def add (visits : Visits) (move : Site.System.Move) : Visits :=
  { visits with moves := visits.moves ++ [move] }

end Visits

namespace System

def visit (system : System σ) (move : Move) (visits : Visits) : Visits :=
  match move with
  | .clock step => visits.add (.clock step)
  | .enter thread =>
      match (system.question? thread).bind Question.call? with
      | some call => visits.enter thread call
      | none => visits
  | .tick index => visits.enter (.flusher index) .listing
  | .part thread order => visits.add (.part (visits.places thread) order)
  | _ => visits

def visits (first : System σ) (moves : List Move) : Visits :=
  Steps.history step? visit {} first moves

/-- The site of a service next to a site that has gone through the visits. Calls that
threads have left are over. -/
structure Mirrored (first : Site.System σ) (system : System σ) (visits : Visits)
    (mirror : Site.System σ) : Prop where
  run : first.run? visits.moves = some mirror
  site_eq : mirror.site = system.service.front.site
  count_eq : mirror.calls.length = visits.count
  placed : ∀ thread call, system.call? thread = some call →
    mirror.calls[visits.places thread]? = some call
  apart : ∀ thread other call latter, system.call? thread = some call →
    system.call? other = some latter → visits.places thread = visits.places other → thread = other
  finished : ∀ index call, mirror.calls[index]? = some call →
    (∃ thread, (system.call? thread).isSome = true ∧ visits.places thread = index) ∨
      call.isFinished = true

namespace Mirrored

variable {first mirror : Site.System σ} {system after : System σ} {visits : Visits}
  {thread : Thread} {call next : Site.Call} {site : Site σ}

theorem frame (h : Mirrored first system visits mirror)
    (hsite : after.service.front.site = system.service.front.site)
    (hcalls : after.call? = system.call?) : Mirrored first after visits mirror where
  run := h.run
  site_eq := h.site_eq.trans hsite.symm
  count_eq := h.count_eq
  placed := hcalls ▸ h.placed
  apart := hcalls ▸ h.apart
  finished := hcalls ▸ h.finished

theorem clock (h : Mirrored first system visits mirror) (step : Clock.Move) :
    Mirrored first
      (system.modifyFront fun front => { front with site := front.site.move step })
      (visits.add (.clock step)) { mirror with site := mirror.site.move step } where
  run := Steps.run?_append_of_run? h.run rfl
  site_eq := congrArg (fun site => site.move step) h.site_eq
  count_eq := h.count_eq
  placed := h.placed
  apart := h.apart
  finished := h.finished

theorem places_lt (h : Mirrored first system visits mirror)
    (hcall : system.call? thread = some call) :
    visits.places thread < visits.count :=
  h.count_eq ▸ (List.getElem?_eq_some_iff.mp (h.placed thread call hcall)).1

theorem enter (h : Mirrored first system visits mirror) (hnone : system.call? thread = none)
    (hbegins : call = .listing ∨ ∃ client, call = .finding client)
    (hsite : after.service.front.site = system.service.front.site)
    (hcalls : after.call? = update system.call? thread (some call)) :
    Mirrored first after (visits.enter thread call)
      { mirror with calls := mirror.calls ++ [call] } := by
  have hother {other : Thread} {latter : Site.Call} (hlatter : system.call? other = some latter) :
      other ≠ thread := by
    rintro rfl
    rw [hnone] at hlatter
    cases hlatter
  exact {
    run := by
      refine Steps.run?_append_of_run? h.run ?_
      rcases hbegins with rfl | ⟨client, rfl⟩ <;> rfl
    site_eq := h.site_eq.trans hsite.symm
    count_eq := by
      rw [List.length_append, h.count_eq]
      rfl
    placed := by
      intro other latter hlatter
      rw [hcalls] at hlatter
      rcases Decidable.em (other = thread) with rfl | hne
      · rw [Function.update_self] at hlatter
        cases hlatter
        simp only [Visits.enter, Function.update_self, ← h.count_eq, List.getElem?_concat_length]
      · rw [Function.update_of_ne hne] at hlatter
        have hold := h.placed other latter hlatter
        simp only [Visits.enter, Function.update_of_ne hne]
        rw [List.getElem?_append_left (List.getElem?_eq_some_iff.mp hold).1, hold]
    apart := by
      intro one other first latter hfirst hlatter hsame
      rw [hcalls] at hfirst hlatter
      simp only [Visits.enter] at hsame
      rcases Decidable.em (one = thread) with rfl | hone
      · rcases Decidable.em (other = one) with rfl | hne
        · rfl
        · rw [Function.update_of_ne hne] at hlatter hsame
          rw [Function.update_self] at hsame
          exact absurd (h.places_lt hlatter) (by omega)
      · rw [Function.update_of_ne hone] at hfirst hsame
        rcases Decidable.em (other = thread) with rfl | hne
        · rw [Function.update_self] at hsame
          exact absurd (h.places_lt hfirst) (by omega)
        · rw [Function.update_of_ne hne] at hlatter hsame
          exact h.apart one other first latter hfirst hlatter hsame
    finished := by
      intro index latter hlatter
      rw [List.getElem?_append] at hlatter
      split at hlatter
      · rcases h.finished index latter hlatter with ⟨other, hsome, hplace⟩ | hfinished
        · obtain ⟨old, hold⟩ := Option.isSome_iff_exists.mp hsome
          refine .inl ⟨other, ?_, ?_⟩
          · rw [hcalls, Function.update_of_ne (hother hold), hsome]
          · simp only [Visits.enter, Function.update_of_ne (hother hold), hplace]
        · exact .inr hfinished
      · have hlast := (List.getElem?_eq_some_iff.mp hlatter).1
        rw [List.length_singleton] at hlast
        refine .inl ⟨thread, by rw [hcalls, Function.update_self]; rfl, ?_⟩
        simp only [Visits.enter, Function.update_self, ← h.count_eq]
        omega }

theorem part {order : List String} (h : Mirrored first system visits mirror)
    (hcall : system.call? thread = some call)
    (hpart : system.service.front.site.part? order call = some (next, site)) :
    Mirrored first
      ((system.modifyFront fun front => { front with site }).setCall thread next)
      (visits.add (.part (visits.places thread) order))
      { site, calls := mirror.calls.set (visits.places thread) next } := by
  have hplace := h.placed thread call hcall
  have hindex := (List.getElem?_eq_some_iff.mp hplace).1
  have hcalls := call?_part hcall next site
  exact {
    run := by
      refine Steps.run?_append_of_run? h.run ?_
      rw [Steps.run?_cons, Site.System.step?, hplace, h.site_eq]
      simp only [Option.bind_eq_bind, Option.bind_some, hpart]
      rfl
    site_eq := rfl
    count_eq := by
      rw [List.length_set]
      exact h.count_eq
    placed := by
      intro other latter hlatter
      rw [hcalls] at hlatter
      rcases Decidable.em (other = thread) with rfl | hne
      · rw [Function.update_self] at hlatter
        cases hlatter
        exact List.getElem?_set_self hindex
      · rw [Function.update_of_ne hne] at hlatter
        have hapart : visits.places thread ≠ visits.places other := fun hsame =>
          hne (h.apart thread other call latter hcall hlatter hsame).symm
        exact (List.getElem?_set_ne hapart).trans (h.placed other latter hlatter)
    apart := by
      have hsome {other : Thread} {latter : Site.Call}
          (hlatter : update system.call? thread (some next) other = some latter) :
          ∃ old, system.call? other = some old := by
        rcases Decidable.em (other = thread) with rfl | hne
        · exact ⟨call, hcall⟩
        · exact ⟨latter, by rwa [Function.update_of_ne hne] at hlatter⟩
      intro one other first latter hfirst hlatter hsame
      rw [hcalls] at hfirst hlatter
      obtain ⟨_, hone⟩ := hsome hfirst
      obtain ⟨_, hother⟩ := hsome hlatter
      exact h.apart one other _ _ hone hother hsame
    finished := by
      intro index latter hlatter
      rcases Decidable.em (visits.places thread = index) with rfl | hne
      · exact .inl ⟨thread, by rw [hcalls, Function.update_self]; rfl, rfl⟩
      · rw [List.getElem?_set_ne hne] at hlatter
        rcases h.finished index latter hlatter with ⟨other, hsome, hplace⟩ | hfinished
        · have hother : other ≠ thread := fun hsame => hne (hsame ▸ hplace)
          exact .inl ⟨other, by rw [hcalls, Function.update_of_ne hother, hsome], hplace⟩
        · exact .inr hfinished }

theorem leave (h : Mirrored first system visits mirror)
    (hcall : system.call? thread = some call) (hfinished : call.isFinished = true)
    (hsite : after.service.front.site = system.service.front.site)
    (hcalls : after.call? = update system.call? thread none) :
    Mirrored first after visits mirror := by
  have hstill {other : Thread} {latter : Site.Call} (hlatter : after.call? other = some latter) :
      system.call? other = some latter := by
    rw [hcalls, Function.update_apply] at hlatter
    split at hlatter
    · cases hlatter
    · exact hlatter
  exact {
    run := h.run
    site_eq := h.site_eq.trans hsite.symm
    count_eq := h.count_eq
    placed := fun other latter hlatter => h.placed other latter (hstill hlatter)
    apart := fun one other first latter hfirst hlatter =>
      h.apart one other first latter (hstill hfirst) (hstill hlatter)
    finished := by
      intro index latter hlatter
      rcases h.finished index latter hlatter with ⟨other, hsome, hplace⟩ | hover
      · rcases Decidable.em (other = thread) with rfl | hne
        · have hleft := h.placed other call hcall
          rw [hplace, hlatter] at hleft
          exact .inr (Option.some.inj hleft ▸ hfinished)
        · exact .inl ⟨other, by rw [hcalls, Function.update_of_ne hne, hsome], hplace⟩
      · exact .inr hover }

theorem step {move : Move} (h : Mirrored first system visits mirror)
    (hstep : step? system move = some after) :
    ∃ later, Mirrored first after (system.visit move visits) later := by
  cases transition_of_step hstep with
  | begin hroutine _ _ =>
      have hsame : system.visit move visits = visits := by
        cases move <;> first | rfl | cases hroutine
      rw [hsame]
      exact ⟨mirror, h.frame rfl rfl⟩
  | work hmove _ =>
      have hsame : system.visit move visits = visits := by
        cases move <;> first | rfl | cases hmove
      rw [hsame]
      exact ⟨mirror, h.frame rfl rfl⟩
  | @clock step => exact ⟨_, h.clock step⟩
  | release => exact ⟨mirror, h.frame rfl rfl⟩
  | drop _ _ => exact ⟨mirror, h.frame rfl rfl⟩
  | hear _ hanswer _ _ => exact ⟨mirror, h.frame (Front.answerAtOnce?_eq_some hanswer).2.1 rfl⟩
  | @enter thread question _ call hnone hstage hcall _ =>
      have hentered : system.visit (.enter (.inPool thread)) visits =
          visits.enter (.inPool thread) call := by
        simp only [visit, question?_of_stage hstage, Option.bind_some, hcall]
      rw [hentered]
      exact ⟨_, h.enter hnone (Question.begins_of_call? hcall) rfl (call?_enterCall hnone call)⟩
  | part hcall hpart => exact ⟨_, h.part hcall hpart⟩
  | leave hcall _ hconclude _ =>
      obtain ⟨hfinished, hsite, -⟩ := Front.conclude?_eq_some hconclude
      exact ⟨mirror, h.leave hcall hfinished hsite (call?_leaveCall _ _)⟩
  | rest hcall => exact ⟨mirror, h.leave hcall rfl rfl (call?_leaveCall _ _)⟩
  | tick hnone => exact ⟨_, h.enter hnone (.inl rfl) rfl (call?_enterCall hnone .listing)⟩
  | endFlusher hended => exact ⟨mirror, h.frame (Front.endFlusher?_eq_some hended).1 rfl⟩

end Mirrored

theorem mirrored_of_run {first last : System σ} {moves : List Move} (hfirst : first.calls = [])
    (hrun : first.run? moves = some last) :
    ∃ mirror, Mirrored ⟨first.service.front.site, []⟩ last (first.visits moves) mirror := by
  have hnone (thread : Thread) (call : Site.Call) : first.call? thread ≠ some call := by
    rw [call?, hfirst]
    nofun
  have hstart : Mirrored ⟨first.service.front.site, []⟩ first {} ⟨first.service.front.site, []⟩ := {
    run := rfl
    site_eq := rfl
    count_eq := rfl
    placed := fun thread call hcall => absurd hcall (hnone thread call)
    apart := fun thread _ call _ hcall => absurd hcall (hnone thread call)
    finished := fun _ _ hcall => absurd hcall (by simp) }
  let Matched (system : System σ) (visits : Visits) : Prop :=
    ∃ mirror, Mirrored ⟨first.service.front.site, []⟩ system visits mirror
  have hmatched : Matched last (first.visits moves) :=
    Steps.history_invariant hrun ⟨_, hstart⟩ fun _ _ _ _ ⟨_, h⟩ hstep => h.step hstep
  exact hmatched

end System

end Service

end Turnstile

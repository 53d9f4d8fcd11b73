import Turnstile.Proofs.Service.Flushers

/-!
What a move can do to the life of a service: to its flush threads, and to the shutdowns from
outside that are under way.
-/

namespace Turnstile.Service

open Function (update)

/-- What a thread does to the front that stands at a point of its shutdown, to which point it
goes on, and what can be told of it. The pool is in the given phase by then. -/
inductive ShutdownStep (front : Front σ) (phase : Pool.Phase) (thread : Thread) :
    ShutdownPoint → Option ShutdownPoint → Front σ → List Event → Prop
  | enter (hfree : front.exclusive = false) :
      ShutdownStep front phase thread .entering (some .claiming) { front with exclusive := true } []
  | claim (hopen : front.stopped = false) :
      ShutdownStep front phase thread .claiming (some .signalling)
        { front with stopped := true, current? := none, taken? := front.current? }
        [.claimed thread]
  | turnAway (hstopped : front.stopped = true) :
      ShutdownStep front phase thread .claiming (some .leaving) front []
  | signal :
      ShutdownStep front phase thread .signalling (some .joining) front.signalFlusher
        (front.taken?.toList.map (.signalled thread))
  | join (hended : front.takenHasEnded = true) :
      ShutdownStep front phase thread .joining (some .closing) front
        (front.taken?.toList.map (.joined thread))
  | close (hstopped : phase = .stopped) :
      ShutdownStep front phase thread .closing (some .flushing) front []
  | flush {after : Front σ} (hsteady : front.Steady after)
      (hexclusive : after.exclusive = front.exclusive) (hdropped : after.dropped = front.dropped) :
      ShutdownStep front phase thread .flushing (some .leaving) after [.flushed thread]
  | unlock :
      ShutdownStep front phase thread .leaving none { front with exclusive := false } []

namespace ShutdownStep

variable {front after : Front σ} {phase : Pool.Phase} {thread other : Thread}
  {point : ShutdownPoint} {next? : Option ShutdownPoint} {events : List Event}

theorem steady (h : ShutdownStep front phase thread point next? after events)
    (hstopped : front.stopped = true) : front.Steady after := by
  cases h with
  | claim hopen => cases hstopped.symm.trans hopen
  | signal => exact front.steady_signalFlusher
  | flush hsteady _ _ => exact hsteady
  | enter _ => exact ⟨rfl, rfl, rfl, rfl⟩
  | unlock => exact ⟨rfl, rfl, rfl, rfl⟩
  | turnAway _ => exact .refl front
  | join _ => exact .refl front
  | close _ => exact .refl front

theorem eq_of_claimed (h : ShutdownStep front phase thread point next? after events)
    (hmem : .claimed other ∈ events) : other = thread := by
  cases h with
  | claim _ => simpa using hmem
  | signal => simp at hmem
  | join _ => simp at hmem
  | flush _ _ _ => simp at hmem
  | enter _ => cases hmem
  | turnAway _ => cases hmem
  | close _ => cases hmem
  | unlock => cases hmem

theorem eq_leaving (h : ShutdownStep front phase thread point none after events) :
    point = .leaving := by
  cases h
  rfl

theorem dropped_eq (h : ShutdownStep front phase thread point next? after events) :
    after.dropped = front.dropped := by
  cases h with
  | signal => exact front.dropped_tellToEnd front.taken?
  | flush _ _ hdropped => exact hdropped
  | enter _ => rfl
  | claim _ => rfl
  | turnAway _ => rfl
  | join _ => rfl
  | close _ => rfl
  | unlock => rfl

theorem eq_stopped (h : ShutdownStep front phase thread point (some .flushing) after events) :
    phase = .stopped := by
  cases h
  assumption

end ShutdownStep

namespace System

variable {system after : System σ} {move : Move} {thread : Thread} {question : Question}
  {rest : Bool → Pool.Routine Question} {answer : Bool} {front : Front σ}

def events (system : System σ) : Move → List Event
  | .answer thread => (system.question? thread).elim [] (system.service.front.events thread)
  | .leave thread =>
      match system.question? thread with
      | some .lastFlush => [.flushed thread]
      | _ => []
  | .dispatch _ | .use _ | .shutdown | .drop | .clock _ | .release _ | .worker .. | .caller ..
  | .wake _ | .enter _ | .part .. | .tick _ | .endFlusher _ => []

def chronicle (first : System σ) (moves : List Move) : List Event :=
  Steps.history step? (fun system move seen => seen ++ system.events move) [] first moves

def newcomer (system : System σ) : Thread := .caller system.service.system.callers.length

def shutdown? (system : System σ) : Move → Option Thread
  | .shutdown | .drop => some system.newcomer
  | .dispatch _ | .use _ | .clock _ | .release _ | .worker .. | .caller .. | .wake _ | .answer _
  | .enter _ | .part .. | .leave _ | .tick _ | .endFlusher _ => none

def shutdowns (first : System σ) (moves : List Move) : List Thread :=
  Steps.history step? (fun system move seen => seen ++ (system.shutdown? move).toList) [] first
    moves

theorem events_answer (hstage : system.stage? thread = some (.ready (.ask question rest))) :
    system.events (.answer thread) = system.service.front.events thread question := by
  rw [events, question?_of_stage hstage, Option.elim_some]

theorem events_leave_lastFlush (h : system.question? thread = some .lastFlush) :
    system.events (.leave thread) = [.flushed thread] := by
  simp only [events, h]

theorem events_leave (hquestion : system.question? thread = some question)
    (hpoint : question.point? = none) : system.events (.leave thread) = [] := by
  simp only [events, hquestion]
  split
  · rename_i hsame
    cases hsame
    cases hpoint
  · rfl

theorem of_flushed {other : Thread} (hmem : .flushed other ∈ system.events move) :
    move = .leave other ∧ system.question? other = some .lastFlush := by
  cases move with
  | leave thread =>
      rw [events] at hmem
      split at hmem
      · cases List.mem_singleton.mp hmem
        exact ⟨rfl, ‹_›⟩
      · cases hmem
  | answer thread =>
      rw [events] at hmem
      cases hquestion : system.question? thread with
      | none =>
          rw [hquestion] at hmem
          cases hmem
      | some question =>
          rw [hquestion, Option.elim_some] at hmem
          exact absurd hmem (Front.flushed_notMem_events other)
  | _ => cases hmem

/-- What a move can do to the life of a service. -/
inductive LifecycleStep (system after : System σ) : Move → Prop
  | keep {move : Move} (hpoints : after.point? = system.point?)
      (hsteady : system.service.front.Steady after.service.front)
      (hexclusive : after.service.front.exclusive = system.service.front.exclusive)
      (hdropped : after.service.front.dropped = system.service.front.dropped)
      (hevents : system.events move = []) (hbegins : system.shutdown? move = none) :
      LifecycleStep system after move
  | begin (hheld : system.service.front.dropped = false)
      (hpoints : after.point? = update system.point? system.newcomer (some .entering))
      (hfront : after.service.front = system.service.front) : LifecycleStep system after .shutdown
  | drop (hheld : system.service.front.dropped = false)
      (hpoints : after.point? = update system.point? system.newcomer (some .entering))
      (hfront : after.service.front = { system.service.front with dropped := true }) :
      LifecycleStep system after .drop
  | abandon {thread : Thread} (hheld : system.service.front.dropped = false)
      (hnobody : ∀ thread, system.point? thread = none)
      (hpoints : after.point? = system.point?)
      (hfront : after.service.front = system.service.front.abandon)
      (hevents : system.events (.answer thread) =
        system.service.front.current?.toList.map .abandoned) :
      LifecycleStep system after (.answer thread)
  | start {thread : Thread} {interval : Nat} (hheld : system.service.front.dropped = false)
      (hopen : system.service.front.stopped = false)
      (hnone : system.service.front.current? = none) (hpoints : after.point? = system.point?)
      (hfront : after.service.front = system.service.front.startFlusher interval)
      (hevents : system.events (.answer thread) = [.started system.service.front.flushers.length]) :
      LifecycleStep system after (.answer thread)
  | goOn {move : Move} {thread : Thread} {point : ShutdownPoint} {next? : Option ShutdownPoint}
      (hpoint : system.point? thread = some point)
      (hpoints : after.point? = update system.point? thread next?)
      (hshutdown : ShutdownStep system.service.front after.service.pool.phase thread point next?
        after.service.front (system.events move))
      (hbegins : system.shutdown? move = none) : LifecycleStep system after move

theorem point?_newcomer (system : System σ) : system.point? system.newcomer = none := by
  have hnone : system.stage? system.newcomer = none := system.service.system.stage?_call_self
  rw [point?, hnone, Option.bind_none]

theorem point?_begin (system : System σ) (routine : Pool.Routine Question) :
    (system.begin routine).point? = update system.point? system.newcomer (pointOf? routine) := by
  have hstages : (system.begin routine).stage? = _ :=
    stage?_of_update (system.service.system.stage?_call routine)
  exact point?_of_update hstages

theorem lifecycleStep_begin {routine : Pool.Routine Question}
    (hroutine : move.routine? system.service.front.validator = some routine)
    (hmove : move ≠ .drop) (hheld : move = .shutdown → system.service.front.dropped = false) :
    LifecycleStep system (system.begin routine) move := by
  have hpoints := system.point?_begin routine
  have hkept (hnone : pointOf? routine = none) : (system.begin routine).point? = system.point? := by
    rw [hpoints, hnone, ← system.point?_newcomer, Function.update_eq_self]
  cases move with
  | dispatch made =>
      cases hroutine
      exact .keep (hkept rfl) (.refl _) rfl rfl rfl rfl
  | use wanted =>
      cases hroutine
      exact .keep (hkept rfl) (.refl _) rfl rfl rfl rfl
  | shutdown =>
      cases hroutine
      exact .begin (hheld rfl) hpoints rfl
  | drop => exact absurd rfl hmove
  | _ => cases hroutine

variable {strict : Bool} {validator : Validator} {journal later : Journal}

theorem lifecycleStep_work {poolMove : Pool.System.Move Question} {pool : Pool.System Question}
    (h : Conducted strict validator system.stage? system.call? journal)
    (hafter : Conducted strict validator (stage? { system with service.system := pool })
      system.call? later)
    (hmove : move.work? = some poolMove)
    (hstep : Pool.System.step? system.service.system poolMove = some pool) :
    LifecycleStep system { system with service.system := pool } move := by
  have hevents : system.events move = [] := by
    cases move <;> first | rfl | cases hmove
  have hbegins : system.shutdown? move = none := by
    cases move <;> first | rfl | cases hmove
  have hkeep (hpoints : point? { system with service.system := pool } = system.point?) :
      LifecycleStep system { system with service.system := pool } move :=
    .keep hpoints (.refl _) rfl rfl hevents hbegins
  cases worked_of_step hmove hstep with
  | @serve _ index _ _ _ _ _ hstages =>
      have hpoints := point?_of_update hstages
      have hbefore : system.point? (.worker index) = none := point?_eq_none_of_inside h rfl
      have hworker : point? _ (.worker index) = none := point?_eq_none_of_inside hafter rfl
      rw [hpoints, Function.update_self] at hworker
      refine hkeep ?_
      rw [hpoints, hworker, ← hbefore, Function.update_eq_self]
  | @advance _ index stage next after hstage hadvance hstages =>
      have hpoints := point?_of_update hstages
      have hpoint := point?_of_stage hstage
      rcases pointAt?_advance h hstage hadvance with hsame | ⟨hclosing, hflushing, hstopped⟩
      · refine hkeep ?_
        rw [hpoints, Option.bind_some, hsame, ← hpoint, Function.update_eq_self]
      · rw [Option.bind_some, hflushing] at hpoints
        refine .goOn (hpoint.trans hclosing) hpoints ?_ hbegins
        rw [hevents]
        exact .close hstopped
  | wake hstages => exact hkeep (point?_of_same hstages)

theorem lifecycleStep_hear {seat : Pool.Thread} {pool : Pool.System Question}
    (h : Conducted strict validator system.stage? system.call? journal)
    (hstage : system.stage? (.inPool seat) = some (.ready (.ask question rest)))
    (hanswer : system.service.front.answerAtOnce? question = some (answer, front))
    (hstep : Pool.System.step? system.service.system (seat.hears answer) = some pool)
    (hallowed : system.allows (.inPool seat) question = true) :
    LifecycleStep system { system with service := { front, system := pool } }
      (.answer (.inPool seat)) := by
  have hpoint := point?_of_ask hstage
  have hevents := events_answer hstage
  have hpoints : point? { system with service := { front, system := pool } } = _ :=
    point?_of_update (stage?_hear system.calls hstage hstep)
  rw [Option.bind_some, pointAt?, pointOf?_of_hear h hstage hanswer] at hpoints
  have hkept (hnone : question.point? = none) :
      point? { system with service := { front, system := pool } } = system.point? := by
    rw [hpoints, hnone, Option.bind_none, ← hnone, ← hpoint, Function.update_eq_self]
  cases Front.answers_of_answerAtOnce hanswer with
  | keep hnone hquiet hsteady hexclusive _ hdropped =>
      exact .keep (hkept hnone) hsteady hexclusive hdropped (hevents.trans (hquiet _)) rfl
  | start hopen hnone =>
      refine .start (Bool.not_eq_true' _ ▸ hallowed) hopen hnone (hkept rfl) rfl
        (hevents.trans ?_)
      simp [Front.events, hopen, hnone]
  | abandon =>
      simp only [allows, Bool.and_eq_true, Bool.not_eq_true'] at hallowed
      exact .abandon hallowed.1.1.1 (point?_eq_none_of_isReleased h hallowed.1.2) (hkept rfl) rfl
        hevents
  | lock hfree => exact .goOn hpoint hpoints (hevents ▸ .enter hfree) rfl
  | claim hopen =>
      refine .goOn hpoint hpoints ?_ rfl
      rw [hevents, Front.events, hopen]
      exact .claim hopen
  | turnAway hstopped =>
      refine .goOn hpoint hpoints ?_ rfl
      rw [hevents, Front.events, hstopped]
      exact .turnAway hstopped
  | signal => exact .goOn hpoint hpoints (hevents ▸ .signal) rfl
  | join hended => exact .goOn hpoint hpoints (hevents ▸ .join hended) rfl
  | unlock => exact .goOn hpoint hpoints (hevents ▸ .unlock) rfl

theorem call?_isSome_of_leave {call : Site.Call}
    (h : Conducted strict validator system.stage? system.call? journal)
    (hcall : system.call? thread = some call)
    (hstage : system.stage? thread = some (.ready (.ask question rest))) :
    question.call?.isSome = true := by
  rcases h.stance_of_stage hstage with ⟨_, hnone, _⟩ |
    ⟨_, _, _, hsame, _, _, _, _, hcalls, _⟩ | ⟨_, _, _, _, hunderway⟩
  · cases hcall.symm.trans hnone
  · cases hsame
    exact hcalls
  · rcases hunderway.of_ask with ⟨rfl, _⟩ | ⟨_, _, hnone, _⟩
    · rfl
    · cases hcall.symm.trans hnone

theorem lifecycleStep_leave {seat : Pool.Thread} {pool : Pool.System Question} {call : Site.Call}
    (h : Conducted strict validator system.stage? system.call? journal)
    (hcall : system.call? (.inPool seat) = some call)
    (hstage : system.stage? (.inPool seat) = some (.ready (.ask question rest)))
    (hconclude : system.service.front.conclude? question call = some (answer, front))
    (hstep : Pool.System.step? system.service.system (seat.hears answer) = some pool) :
    LifecycleStep system
      ({ system with service := { front, system := pool } }.leaveCall (.inPool seat))
      (.leave (.inPool seat)) := by
  have hpoint := point?_of_ask hstage
  have hquestion := question?_of_stage hstage
  have hpoints : point? (leaveCall ⟨{ front, system := pool }, system.calls⟩ (.inPool seat)) = _ :=
    point?_of_update (stage?_hear _ hstage hstep)
  rw [Option.bind_some, pointAt?, pointOf?_of_leave h hcall hstage hconclude] at hpoints
  obtain ⟨hsteady, hexclusive, -, hdropped⟩ := Front.steady_conclude hconclude
  have hkeep (hnone : question.point? = none) :
      LifecycleStep system
        ({ system with service := { front, system := pool } }.leaveCall (.inPool seat))
        (.leave (.inPool seat)) := by
    refine .keep ?_ hsteady hexclusive hdropped (events_leave hquestion hnone) rfl
    rw [hpoints, hnone, Option.bind_none, ← hnone, ← hpoint, Function.update_eq_self]
  have hcalls := call?_isSome_of_leave h hcall hstage
  cases question with
  | use wanted =>
      cases wanted with
      | request client => exact hkeep rfl
      | flush => exact hkeep rfl
      | scene wanted => cases hcalls
      | startFlusher interval => cases hcalls
      | abandon => cases hcalls
  | admission dispatch => exact hkeep rfl
  | lastFlush =>
      refine .goOn hpoint hpoints ?_ rfl
      rw [events_leave_lastFlush hquestion]
      exact .flush hsteady hexclusive hdropped
  | count outcome => cases hcalls
  | lock => cases hcalls
  | claim => cases hcalls
  | signalFlusher => cases hcalls
  | joinFlusher => cases hcalls
  | unlock => cases hcalls

theorem LifecycleStep.points (h : LifecycleStep system after move) :
    (system.shutdown? move = none ∧ after.point? = system.point?) ∨
      (system.shutdown? move = some system.newcomer ∧
        after.point? = update system.point? system.newcomer (some .entering)) ∨
      ∃ thread point next?, system.shutdown? move = none ∧ system.point? thread = some point ∧
        after.point? = update system.point? thread next? ∧
        ShutdownStep system.service.front after.service.pool.phase thread point next?
          after.service.front (system.events move) := by
  cases h with
  | keep hpoints _ _ _ _ hbegins => exact .inl ⟨hbegins, hpoints⟩
  | abandon _ _ hpoints _ _ => exact .inl ⟨rfl, hpoints⟩
  | start _ _ _ hpoints _ _ => exact .inl ⟨rfl, hpoints⟩
  | begin _ hpoints _ => exact .inr (.inl ⟨rfl, hpoints⟩)
  | drop _ hpoints _ => exact .inr (.inl ⟨rfl, hpoints⟩)
  | goOn hpoint hpoints hshutdown hbegins =>
      exact .inr (.inr ⟨_, _, _, hbegins, hpoint, hpoints, hshutdown⟩)

theorem LifecycleStep.ofDropped (h : LifecycleStep system after move)
    (hdropped : system.service.front.dropped = true)
    (hnobody : ∀ thread, system.point? thread = none) :
    after.point? = system.point? ∧ system.service.front.Steady after.service.front ∧
      after.service.front.dropped = system.service.front.dropped ∧ system.events move = [] := by
  cases h with
  | keep hpoints hsteady _ hsame hevents _ => exact ⟨hpoints, hsteady, hsame, hevents⟩
  | begin hheld _ _ => cases hdropped.symm.trans hheld
  | drop hheld _ _ => cases hdropped.symm.trans hheld
  | abandon hheld _ _ _ _ => cases hdropped.symm.trans hheld
  | start hheld _ _ _ _ _ => cases hdropped.symm.trans hheld
  | goOn hpoint _ _ _ => cases (hnobody _).symm.trans hpoint

theorem LifecycleStep.steady (h : LifecycleStep system after move)
    (hstopped : system.service.front.stopped = true)
    (hnone : system.service.front.current? = none) :
    system.service.front.Steady after.service.front := by
  cases h with
  | keep _ hsteady _ _ _ _ => exact hsteady
  | begin _ _ hfront => exact hfront ▸ .refl _
  | drop _ _ hfront => exact hfront ▸ ⟨rfl, rfl, rfl, rfl⟩
  | abandon _ _ _ hfront _ => exact hfront ▸ Front.steady_abandon hnone
  | start _ hopen _ _ _ _ => cases hstopped.symm.trans hopen
  | goOn _ _ hshutdown _ => exact hshutdown.steady hstopped

theorem lifecycleStep_of_step (h : Conducted strict validator system.stage? system.call? journal)
    (hafter : Conducted strict validator after.stage? after.call? later)
    (hstep : step? system move = some after) : LifecycleStep system after move := by
  cases transition_of_step hstep with
  | begin hroutine hmove hheld => exact lifecycleStep_begin hroutine hmove hheld
  | drop hheld _ => exact .drop hheld (point?_begin _ shutdownRoutine) rfl
  | work hmove hpool => exact lifecycleStep_work h hafter hmove hpool
  | hear hstage hanswer hpool hallowed =>
      exact lifecycleStep_hear h hstage hanswer hpool hallowed
  | leave hcall hstage hconclude hpool => exact lifecycleStep_leave h hcall hstage hconclude hpool
  | rest _ => exact .keep rfl (.modifyFlusher ..) rfl rfl rfl rfl
  | tick _ => exact .keep rfl (.modifyFlusher ..) rfl rfl rfl rfl
  | endFlusher hended =>
      obtain ⟨-, hsteady, hexclusive, hdropped, -⟩ := Front.endFlusher_of_some hended
      exact .keep rfl hsteady hexclusive hdropped rfl rfl
  | enter _ _ _ _ => exact .keep rfl (.refl _) rfl rfl rfl rfl
  | part _ _ => exact .keep rfl ⟨rfl, rfl, rfl, rfl⟩ rfl rfl rfl rfl
  | clock => exact .keep rfl ⟨rfl, rfl, rfl, rfl⟩ rfl rfl rfl rfl
  | release => exact .keep rfl ⟨rfl, rfl, rfl, rfl⟩ rfl rfl rfl rfl

end System

namespace Setup

variable {setup : Setup σ} {before : List System.Move} {system after : System σ}
  {move : System.Move}

theorem lifecycleStep_of_run (hbefore : setup.start.run? before = some system)
    (hstep : System.step? system move = some after) : System.LifecycleStep system after move := by
  have hafter : setup.start.run? (before ++ [move]) = some after :=
    Steps.run?_append_of_run? hbefore (by rw [Steps.run?_cons, hstep]; rfl)
  exact System.lifecycleStep_of_step (kept_of_free_run hbefore).conducted
    (kept_of_free_run hafter).conducted hstep

theorem chronicle_concat (hbefore : setup.start.run? before = some system)
    (hstep : System.step? system move = some after) :
    setup.start.chronicle (before ++ [move]) =
      setup.start.chronicle before ++ system.events move :=
  Steps.history_concat [] hbefore hstep

theorem shutdowns_concat (hbefore : setup.start.run? before = some system)
    (hstep : System.step? system move = some after) :
    setup.start.shutdowns (before ++ [move]) =
      setup.start.shutdowns before ++ (system.shutdown? move).toList :=
  Steps.history_concat [] hbefore hstep

end Setup

end Turnstile.Service

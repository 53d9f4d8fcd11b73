import Turnstile.Proofs.Pool.Threads
import Turnstile.Service.System

/-!
What a move of a service can be. A thread that waits for an answer goes on with it in
the pool; one that is in a call at the site takes a part of it; all others stay.
-/

namespace Turnstile

open Function (update)

namespace Pool

def Thread.hears : Thread → Bool → System.Move Question
  | .worker index, answer => .answerWorker index answer
  | .caller index, answer => .answerCaller index answer

theorem System.stage?_hears {system after : System Question} {thread : Thread} {answer : Bool}
    (hstep : step? system (thread.hears answer) = some after) :
    after.pool.phase = system.pool.phase ∧
    ∃ question next, system.stage? thread = some (.ready (.ask question next)) ∧
      after.stage? = update system.stage? thread (some (.ready (next answer))) := by
  cases thread with
  | worker index =>
      generalize hmove : (Thread.worker index).hears answer = move at hstep
      cases transition_of_step hstep with
      | hearWorker hold =>
          cases hmove
          exact ⟨rfl, _, _, stage?_of_worker hold, stage?_setWorker _ hold rfl⟩
      | call => cases hmove
      | serve _ _ => cases hmove
      | advance _ _ => cases hmove
      | hearCaller _ => cases hmove
      | wake => cases hmove
  | caller index =>
      generalize hmove : (Thread.caller index).hears answer = move at hstep
      cases transition_of_step hstep with
      | hearCaller hstage =>
          cases hmove
          exact ⟨rfl, _, _, hstage, stage?_setCaller _ hstage rfl⟩
      | call => cases hmove
      | serve _ _ => cases hmove
      | advance _ _ => cases hmove
      | hearWorker _ => cases hmove
      | wake => cases hmove

end Pool

namespace Service

def Thread.inPool : Pool.Thread → Thread
  | .worker index => .worker index
  | .caller index => .caller index

theorem Thread.inPool_inj {thread other : Pool.Thread} (h : inPool thread = inPool other) :
    thread = other := by
  cases thread <;> cases other <;> cases h <;> rfl

def System.Move.routine? (validator : Validator) : System.Move → Option (Pool.Routine Question)
  | .dispatch made => some (made.alone.routine validator)
  | .use wanted => some (wanted.alone.routine validator)
  | .shutdown | .drop => some shutdownRoutine
  | .clock _ | .release _ | .worker .. | .caller .. | .wake _ | .answer _ | .enter _ | .part ..
  | .leave _ | .tick _ | .endFlusher _ => none

def System.Move.work? : System.Move → Option (Pool.System.Move Question)
  | .worker chosen index => some (.worker chosen index)
  | .caller chosen index => some (.caller chosen index)
  | .wake index => some (.wake index)
  | .dispatch _ | .use _ | .shutdown | .drop | .clock _ | .release _ | .answer _ | .enter _
  | .part .. | .leave _ | .tick _ | .endFlusher _ => none

namespace System

variable {system after : System σ} {thread : Thread} {call next : Site.Call}

def stage? (system : System σ) : Thread → Option (Pool.Stage Question)
  | .worker index => system.service.system.stage? (.worker index)
  | .caller index => system.service.system.stage? (.caller index)
  | .flusher _ => none

theorem stage?_inPool (system : System σ) (thread : Pool.Thread) :
    system.stage? (.inPool thread) = system.service.system.stage? thread := by
  cases thread <;> rfl

theorem stage?_of_update {thread : Pool.Thread} {stage? : Option (Pool.Stage Question)}
    (h : after.service.system.stage? = update system.service.system.stage? thread stage?) :
    after.stage? = update system.stage? (.inPool thread) stage? := by
  funext other
  have hother (seat : Pool.Thread) : after.stage? (.inPool seat) =
      update system.stage? (.inPool thread) stage? (.inPool seat) := by
    rw [stage?_inPool, h]
    rcases Decidable.em (seat = thread) with rfl | hne
    · rw [Function.update_self, Function.update_self]
    · rw [Function.update_of_ne hne,
        Function.update_of_ne fun hsame => hne (Thread.inPool_inj hsame), stage?_inPool]
  cases other with
  | worker index => exact hother (.worker index)
  | caller index => exact hother (.caller index)
  | flusher index =>
      rw [Function.update_of_ne (by cases thread <;> nofun)]
      rfl

theorem stage?_of_same (h : after.service.system.stage? = system.service.system.stage?) :
    after.stage? = system.stage? := by
  funext thread
  cases thread with
  | worker index => exact congrFun h (.worker index)
  | caller index => exact congrFun h (.caller index)
  | flusher index => rfl

theorem asks?_of_some {question : Question} {resumed : Bool → Pool.System Question}
    (h : system.asks? thread = some (question, resumed)) :
    ∃ seat : Pool.Thread, thread = .inPool seat ∧
      (∃ rest, system.stage? thread = some (.ready (.ask question rest))) ∧
      ∀ answer, Pool.System.step? system.service.system (seat.hears answer) =
        some (resumed answer) := by
  cases thread with
  | worker index =>
      have hasks : system.service.system.workerAsks? index = some (question, resumed) := h
      refine ⟨.worker index, rfl, ?_, fun answer => ?_⟩
      · simp only [Pool.System.workerAsks?, Option.bind_eq_bind, Option.bind_eq_some_iff,
          Option.pure_def, Option.some.injEq, Prod.mk.injEq, Prod.exists] at hasks
        obtain ⟨worker, hworker, asked, rest, hasked, rfl, -⟩ := hasks
        cases worker with
        | working stage =>
            cases Pool.Stage.asked_of_some hasked
            exact ⟨rest, Pool.System.stage?_of_worker hworker⟩
        | checking => cases hasked
        | parked => cases hasked
        | fetched job => cases hasked
        | ended ending => cases hasked
        | exited => cases hasked
      · simp only [Pool.Thread.hears, Pool.System.step?, hasks, Option.map_some]
  | caller index =>
      have hasks : system.service.system.callerAsks? index = some (question, resumed) := h
      refine ⟨.caller index, rfl, ?_, fun answer => ?_⟩
      · simp only [Pool.System.callerAsks?, Option.bind_eq_bind, Option.bind_eq_some_iff,
          Option.pure_def, Option.some.injEq, Prod.mk.injEq, Prod.exists] at hasks
        obtain ⟨stage, hstage, asked, rest, hasked, rfl, -⟩ := hasks
        cases Pool.Stage.asked_of_some hasked
        exact ⟨rest, hstage⟩
      · simp only [Pool.Thread.hears, Pool.System.step?, hasks, Option.map_some]
  | flusher index => cases h

/-! Calls at the site. -/

theorem call?_enterCall (h : system.call? thread = none) (call : Site.Call) :
    (system.enterCall thread call).call? = update system.call? thread (some call) := by
  funext other
  rw [Function.update_apply]
  exact lookup_concat h call other

theorem call?_setCall (h : system.call? thread = some call) (next : Site.Call) :
    (system.setCall thread next).call? = update system.call? thread (some next) := by
  funext other
  rcases Decidable.em (other = thread) with rfl | hne
  · rw [Function.update_self]
    exact lookup_replace_self (Option.isSome_of_eq_some h) next
  · rw [Function.update_of_ne hne]
    exact lookup_replace_of_ne hne next

theorem call?_part (h : system.call? thread = some call) (next : Site.Call) (site : Site σ) :
    ((system.modifyFront fun front => { front with site }).setCall thread next).call? =
      update system.call? thread (some next) :=
  call?_setCall h next

theorem call?_tick {index : Nat} (h : system.call? (.flusher index) = none) :
    ((system.modifyFront fun front => front.modifyFlusher index fun flusher =>
      { flusher with phase := .flushing }).enterCall (.flusher index) .listing).call? =
      update system.call? (.flusher index) (some .listing) :=
  call?_enterCall h .listing

theorem call?_leaveCall (system : System σ) (thread : Thread) :
    (system.leaveCall thread).call? = update system.call? thread none := by
  funext other
  rw [Function.update_apply]
  exact lookup_filter_ne system.calls thread other

inductive Transition (system : System σ) : Move → System σ → Prop
  | begin {move : Move} {routine : Pool.Routine Question}
      (hroutine : move.routine? system.service.front.validator = some routine)
      (hmove : move ≠ .drop)
      (hheld : move = .shutdown → system.service.front.dropped = false) :
      Transition system move (system.begin routine)
  | drop (hheld : system.service.front.dropped = false) (hfree : system.isReleased = true) :
      Transition system .drop
        ((system.modifyFront fun front => { front with dropped := true }).begin shutdownRoutine)
  | clock {step : Clock.Move} :
      Transition system (.clock step)
        (system.modifyFront fun front => { front with site := front.site.move step })
  | release {gate : String} :
      Transition system (.release gate)
        (system.modifyFront fun front => { front with scene := front.scene.release gate })
  | work {move : Move} {poolMove : Pool.System.Move Question} {after : Pool.System Question}
      (hmove : move.work? = some poolMove)
      (hstep : Pool.System.step? system.service.system poolMove = some after) :
      Transition system move { system with service.system := after }
  | hear {thread : Pool.Thread} {question : Question} {rest : Bool → Pool.Routine Question}
      {answer : Bool} {front : Front σ} {after : Pool.System Question}
      (hstage : system.stage? (.inPool thread) = some (.ready (.ask question rest)))
      (hanswer : system.service.front.answerAtOnce? question = some (answer, front))
      (hstep : Pool.System.step? system.service.system (thread.hears answer) = some after)
      (hallowed : system.allows (.inPool thread) question = true) :
      Transition system (.answer (.inPool thread))
        { system with service := { front, system := after } }
  | enter {thread : Pool.Thread} {question : Question} {rest : Bool → Pool.Routine Question}
      {call : Site.Call} (hnone : system.call? (.inPool thread) = none)
      (hstage : system.stage? (.inPool thread) = some (.ready (.ask question rest)))
      (hcall : question.call? = some call)
      (hallowed : system.allows (.inPool thread) question = true) :
      Transition system (.enter (.inPool thread)) (system.enterCall (.inPool thread) call)
  | part {thread : Thread} {order : List String} {call next : Site.Call} {site : Site σ}
      (hcall : system.call? thread = some call)
      (hpart : system.service.front.site.part? order call = some (next, site)) :
      Transition system (.part thread order)
        ((system.modifyFront fun front => { front with site }).setCall thread next)
  | leave {thread : Pool.Thread} {call : Site.Call} {question : Question}
      {rest : Bool → Pool.Routine Question} {answer : Bool} {front : Front σ}
      {after : Pool.System Question} (hcall : system.call? (.inPool thread) = some call)
      (hstage : system.stage? (.inPool thread) = some (.ready (.ask question rest)))
      (hconclude : system.service.front.conclude? question call = some (answer, front))
      (hstep : Pool.System.step? system.service.system (thread.hears answer) = some after) :
      Transition system (.leave (.inPool thread))
        ({ system with service := { front, system := after } }.leaveCall (.inPool thread))
  | rest {index : Nat} {report : FlushReport}
      (hcall : system.call? (.flusher index) = some (.reported report)) :
      Transition system (.leave (.flusher index))
        ((system.modifyFront fun front =>
          front.modifyFlusher index fun flusher => { flusher with phase := .waiting }).leaveCall
            (.flusher index))
  | tick {index : Nat} (hnone : system.call? (.flusher index) = none) :
      Transition system (.tick index)
        ((system.modifyFront fun front =>
          front.modifyFlusher index fun flusher => { flusher with phase := .flushing }).enterCall
            (.flusher index) .listing)
  | endFlusher {index : Nat} {front : Front σ}
      (hended : system.service.front.endFlusher? index = some front) :
      Transition system (.endFlusher index) (system.modifyFront fun _ => front)

theorem leave_of_some (hcall : system.call? thread = some call)
    (h : (do
      let (question, next) ← system.asks? thread
      return (system.resume next (← system.service.front.conclude? question call)).leaveCall
        thread) = some after) : Transition system (.leave thread) after := by
  simp only [Option.bind_eq_bind, Option.bind_eq_some_iff, Option.pure_def, Option.some.injEq,
    Prod.exists] at h
  obtain ⟨question, resumed, hasks, answer, front, hconclude, rfl⟩ := h
  obtain ⟨seat, rfl, ⟨rest, hstage⟩, hresumed⟩ := asks?_of_some hasks
  exact .leave hcall hstage hconclude (hresumed answer)

theorem begin?_eq_some {ofService : Bool} {routine : Pool.Routine Question}
    (h : system.begin? ofService routine = some after) :
    after = system.begin routine ∧ (system.service.front.dropped && ofService) = false := by
  unfold begin? at h
  split at h
  · cases h
  · exact ⟨(Option.some.inj h).symm, Bool.eq_false_iff.mpr ‹_›⟩

theorem transition_of_step {move : Move} (hstep : step? system move = some after) :
    Transition system move after := by
  cases move with
  | dispatch made =>
      obtain ⟨rfl, -⟩ := begin?_eq_some hstep
      exact .begin rfl nofun nofun
  | use wanted =>
      obtain ⟨rfl, -⟩ := begin?_eq_some hstep
      exact .begin rfl nofun nofun
  | shutdown =>
      obtain ⟨rfl, hheld⟩ := begin?_eq_some hstep
      exact .begin rfl nofun fun _ => (Bool.and_true _).symm.trans hheld
  | drop =>
      simp only [step?, drop?] at hstep
      split at hstep
      · cases hstep
      · rename_i hallowed
        cases hstep
        simp only [Bool.or_eq_true, Bool.not_eq_true', not_or, Bool.not_eq_true,
          Bool.not_eq_false] at hallowed
        exact .drop hallowed.1 hallowed.2
  | clock step =>
      cases hstep
      exact .clock
  | release gate =>
      cases hstep
      exact .release
  | worker chosen index =>
      simp only [step?, Option.map_eq_some_iff] at hstep
      obtain ⟨stepped, hpool, rfl⟩ := hstep
      exact .work rfl hpool
  | caller chosen index =>
      simp only [step?, Option.map_eq_some_iff] at hstep
      obtain ⟨stepped, hpool, rfl⟩ := hstep
      exact .work rfl hpool
  | wake index =>
      cases hstep
      exact .work rfl rfl
  | answer thread =>
      simp only [step?, answer?, Option.bind_eq_bind, Option.bind_eq_some_iff, Prod.exists]
        at hstep
      obtain ⟨question, resumed, hasks, hanswered⟩ := hstep
      obtain ⟨seat, rfl, ⟨rest, hstage⟩, hresumed⟩ := asks?_of_some hasks
      split at hanswered
      · cases hanswered
      · rename_i hallowed
        simp only [Option.bind_eq_some_iff, Option.pure_def, Option.some.injEq,
          Prod.exists] at hanswered
        obtain ⟨answer, front, hanswer, rfl⟩ := hanswered
        exact .hear hstage hanswer (hresumed answer) (by simpa using hallowed)
  | enter thread =>
      simp only [step?, enter?] at hstep
      split at hstep
      · cases hstep
      · rename_i hnone
        simp only [Option.bind_eq_bind, Option.bind_eq_some_iff, Prod.exists] at hstep
        obtain ⟨question, resumed, hasks, hentered⟩ := hstep
        obtain ⟨seat, rfl, ⟨rest, hstage⟩, -⟩ := asks?_of_some hasks
        split at hentered
        · cases hentered
        · rename_i hallowed
          simp only [Option.pure_def, Option.bind_eq_some_iff, Option.some.injEq] at hentered
          obtain ⟨call, hcall, rfl⟩ := hentered
          exact .enter (Option.not_isSome_iff_eq_none.mp hnone) hstage hcall
            (by simpa using hallowed)
  | part thread order =>
      simp only [step?, part?, Option.bind_eq_bind, Option.bind_eq_some_iff, Option.pure_def,
        Option.some.injEq, Prod.exists] at hstep
      obtain ⟨call, hcall, next, site, hpart, rfl⟩ := hstep
      exact .part hcall hpart
  | leave thread =>
      simp only [step?, leave?, Option.bind_eq_bind, Option.bind_eq_some_iff] at hstep
      obtain ⟨call, hcall, hleft⟩ := hstep
      split at hleft
      · cases hleft
        exact .rest hcall
      · cases hleft
      · exact leave_of_some hcall hleft
      · exact leave_of_some hcall hleft
  | tick index =>
      simp only [step?, tick?] at hstep
      split at hstep
      · cases hstep
      · rename_i hnone
        simp only [Option.pure_def] at hstep
        split at hstep <;> cases hstep
        exact .tick (Option.not_isSome_iff_eq_none.mp hnone)
  | endFlusher index =>
      simp only [step?, Option.map_eq_some_iff] at hstep
      obtain ⟨front, hended, rfl⟩ := hstep
      exact .endFlusher hended

/-- What the threads of the pool can do in a move, and where it leaves them. -/
inductive Worked (system : System σ) : Move → Pool.System Question → Prop
  | serve {chosen index : Nat} {old new : Pool.Worker Question} {left : Pool Question}
      (hold : system.service.system.pool.workers[index]? = some old)
      (hserve : Pool.Serve system.service.system.pool chosen index old new left)
      (hstages : stage? { system with service.system :=
          { system.service.system with pool := left.setWorker index new } } =
        update system.stage? (.worker index) new.stage?) :
      Worked system (.worker chosen index)
        { system.service.system with pool := left.setWorker index new }
  | advance {chosen index : Nat} {stage next : Pool.Stage Question} {pool : Pool Question}
      (hstage : system.stage? (.caller index) = some stage)
      (hadvance : system.service.system.pool.advance? .outside chosen stage = some (next, pool))
      (hstages : stage? { system with service.system :=
          { system.service.system with pool }.setCaller index next } =
        update system.stage? (.caller index) (some next)) :
      Worked system (.caller chosen index)
        ({ system.service.system with pool }.setCaller index next)
  | wake {index : Nat}
      (hstages : stage? { system with service.system :=
          { system.service.system with pool := system.service.system.pool.wake index } } =
        system.stage?) :
      Worked system (.wake index)
        { system.service.system with pool := system.service.system.pool.wake index }

theorem worked_of_step {move : Move} {poolMove : Pool.System.Move Question}
    {pool : Pool.System Question} (hmove : move.work? = some poolMove)
    (hstep : Pool.System.step? system.service.system poolMove = some pool) :
    Worked system move pool := by
  cases move with
  | worker chosen index =>
      cases hmove
      cases Pool.System.transition_of_step hstep with
      | serve hold hserve =>
          refine .serve hold hserve ?_
          rw [stage?_of_update (Pool.System.stage?_setWorker _
            (Pool.getElem?_workers_serve hserve hold) (Pool.stages_serve hserve))]
          rfl
  | caller chosen index =>
      cases hmove
      cases Pool.System.transition_of_step hstep with
      | advance hstage hadvance =>
          refine .advance hstage hadvance ?_
          rw [stage?_of_update (Pool.System.stage?_setCaller _ hstage
            (Pool.stages_advance hadvance))]
          rfl
  | wake index =>
      cases hmove
      cases Pool.System.transition_of_step hstep with
      | wake =>
          exact .wake (stage?_of_same (Pool.System.stage?_of_stages (Pool.stages_wake _ index)))
  | _ => cases hmove

theorem stage?_hear {thread : Pool.Thread} {question : Question}
    {rest : Bool → Pool.Routine Question} {answer : Bool} {front : Front σ}
    {after : Pool.System Question} (calls : List (Thread × Site.Call))
    (hstage : system.stage? (.inPool thread) = some (.ready (.ask question rest)))
    (hstep : Pool.System.step? system.service.system (thread.hears answer) = some after) :
    stage? ⟨{ front, system := after }, calls⟩ =
      update system.stage? (.inPool thread) (some (.ready (rest answer))) := by
  obtain ⟨-, asked, next, hasked, hnext⟩ := Pool.System.stage?_hears hstep
  rw [stage?_inPool, hasked] at hstage
  cases hstage
  exact stage?_of_update hnext

/-! A thread moves only by moves of its own. -/

def Move.thread? : Move → Option Thread
  | .worker _ index => some (.worker index)
  | .caller _ index => some (.caller index)
  | .answer thread | .enter thread | .part thread _ | .leave thread => some thread
  | .tick index | .endFlusher index => some (.flusher index)
  | .dispatch _ | .use _ | .shutdown | .drop | .clock _ | .release _ | .wake _ => none

theorem stage?_of_step (hstep : step? system move = some after)
    (hother : move.thread? ≠ some thread) (hstage : system.stage? thread = some stage) :
    after.stage? thread = some stage := by
  have hbegin (routine : Pool.Routine Question) :
      (system.begin routine).stage? thread = some stage := by
    rw [stage?_of_update (system.service.system.stage?_call routine), Function.update_of_ne]
    · exact hstage
    · rintro rfl
      have hnone := system.service.system.stage?_call_self
      cases hstage.symm.trans hnone
  cases transition_of_step hstep with
  | begin _ _ _ => exact hbegin _
  | drop _ _ => exact hbegin shutdownRoutine
  | work hmove hpool =>
      cases worked_of_step hmove hpool with
      | serve _ _ hstages =>
          rw [hstages, Function.update_of_ne fun hsame => hother (congrArg some hsame.symm), hstage]
      | advance _ _ hstages =>
          rw [hstages, Function.update_of_ne fun hsame => hother (congrArg some hsame.symm), hstage]
      | wake hstages => rw [hstages, hstage]
  | hear hasks _ hpool _ =>
      rw [stage?_hear system.calls hasks hpool, Function.update_of_ne]
      · exact hstage
      · exact fun hsame => hother (congrArg some hsame.symm)
  | @leave seat _ _ rest answer front pool _ hasks _ hpool =>
      have hheard : (leaveCall ⟨{ front, system := pool }, system.calls⟩ (.inPool seat)).stage? =
          update system.stage? (.inPool seat) (some (.ready (rest answer))) :=
        stage?_hear _ hasks hpool
      have hother : thread ≠ .inPool seat := fun hsame => hother (congrArg some hsame.symm)
      exact (congrFun hheard thread).trans ((Function.update_of_ne hother _ _).trans hstage)
  | enter _ _ _ _ => exact hstage
  | part _ _ => exact hstage
  | rest _ => exact hstage
  | tick _ => exact hstage
  | endFlusher _ => exact hstage
  | clock => exact hstage
  | release => exact hstage

theorem call?_of_step (hstep : step? system move = some after)
    (hother : move.thread? ≠ some thread) : after.call? thread = system.call? thread := by
  have hne {seat : Thread} (hmoves : move.thread? = some seat) : thread ≠ seat :=
    fun hsame => hother (hsame ▸ hmoves)
  cases transition_of_step hstep with
  | enter hnone _ _ _ =>
      rw [call?_enterCall hnone, Function.update_of_ne (hne rfl)]
  | part hcall _ =>
      rw [call?_part hcall, Function.update_of_ne (hne rfl)]
  | leave _ _ _ _ =>
      rw [call?_leaveCall, Function.update_of_ne (hne rfl)]
      rfl
  | rest _ =>
      rw [call?_leaveCall, Function.update_of_ne (hne rfl)]
      rfl
  | tick hnone =>
      rw [call?_tick hnone, Function.update_of_ne (hne rfl)]
  | begin _ _ _ => rfl
  | drop _ _ => rfl
  | work _ _ => rfl
  | hear _ _ _ _ => rfl
  | endFlusher _ => rfl
  | clock => rfl
  | release => rfl

end System

end Service

end Turnstile

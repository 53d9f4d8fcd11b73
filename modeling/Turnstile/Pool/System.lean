import Turnstile.Pool.Work
import Turnstile.Steps

/-!
A pool together with the threads outside it that are in the middle of a call.
`Move` names every step that any of them can take, in any order; `settle` takes
steps in a fixed order until every thread waits.
-/

namespace Turnstile.Pool

structure System (Question : Type) where
  pool : Pool Question
  callers : List (Stage Question) := []

namespace System

def call (system : System Question) (routine : Routine Question) : System Question :=
  { system with callers := system.callers ++ [.ready routine] }

def setCaller (system : System Question) (index : Nat) (stage : Stage Question) :
    System Question :=
  { system with callers := system.callers.set index stage }

def workerStep? (system : System Question) (chosen index : Nat) : Option (System Question) :=
  (system.pool.workerStep? chosen index).map fun pool => { system with pool }

def callerStep? (system : System Question) (chosen index : Nat) : Option (System Question) := do
  let stage ← system.callers[index]?
  let (next, pool) ← system.pool.advance? .outside chosen stage
  return { system with pool }.setCaller index next

def workerAsks? (system : System Question) (index : Nat) :
    Option (Question × (Bool → System Question)) := do
  let worker ← system.pool.workers[index]?
  let (question, next) ← worker.asked?
  return (question, fun answer =>
    { system with pool := system.pool.setWorker index (.working (.ready (next answer))) })

def callerAsks? (system : System Question) (index : Nat) :
    Option (Question × (Bool → System Question)) := do
  let stage ← system.callers[index]?
  let (question, next) ← stage.asked?
  return (question, fun answer => system.setCaller index (.ready (next answer)))

/-- A step of one thread. `wake` is a worker that wakes without being notified. -/
inductive Move (Question : Type)
  | call (routine : Routine Question)
  | worker (chosen index : Nat)
  | caller (chosen index : Nat)
  | answerWorker (index : Nat) (answer : Bool)
  | answerCaller (index : Nat) (answer : Bool)
  | wake (index : Nat)

/-- A thread moves only if it was called before, and not just by waking up. -/
def Move.isOfThread : Move Question → Bool
  | .worker .. | .answerWorker .. | .caller .. | .answerCaller .. => true
  | .call _ | .wake _ => false

def step? : Steps (System Question) (Move Question)
  | system, .call routine => some (system.call routine)
  | system, .worker chosen index => system.workerStep? chosen index
  | system, .caller chosen index => system.callerStep? chosen index
  | system, .answerWorker index answer =>
      (system.workerAsks? index).map fun asked => asked.2 answer
  | system, .answerCaller index answer =>
      (system.callerAsks? index).map fun asked => asked.2 answer
  | system, .wake index => some { system with pool := system.pool.wake index }

abbrev run? (system : System Question) (moves : List (Move Question)) :
    Option (System Question) :=
  Steps.run? step? system moves

abbrev Reachable (first last : System Question) : Prop := Steps.Reachable step? first last

inductive Transition (system : System Question) : Move Question → System Question → Prop
  | call {routine : Routine Question} :
      Transition system (.call routine) (system.call routine)
  | serve {chosen index : Nat} {old new : Worker Question} {left : Pool Question}
      (hold : system.pool.workers[index]? = some old)
      (hserve : Serve system.pool chosen index old new left) :
      Transition system (.worker chosen index)
        { system with pool := left.setWorker index new }
  | hearWorker {index : Nat} {question : Question} {next : Bool → Routine Question}
      {answer : Bool}
      (hold : system.pool.workers[index]? = some (.working (.ready (.ask question next)))) :
      Transition system (.answerWorker index answer)
        { system with pool := system.pool.setWorker index (.working (.ready (next answer))) }
  | advance {chosen index : Nat} {stage next : Stage Question} {pool : Pool Question}
      (hstage : system.callers[index]? = some stage)
      (hadvance : system.pool.advance? .outside chosen stage = some (next, pool)) :
      Transition system (.caller chosen index) ({ system with pool }.setCaller index next)
  | hearCaller {index : Nat} {question : Question} {next : Bool → Routine Question}
      {answer : Bool} (hstage : system.callers[index]? = some (.ready (.ask question next))) :
      Transition system (.answerCaller index answer)
        (system.setCaller index (.ready (next answer)))
  | wake {index : Nat} :
      Transition system (.wake index) { system with pool := system.pool.wake index }

theorem transition_of_step {system after : System Question} {move : Move Question}
    (hstep : step? system move = some after) : Transition system move after := by
  cases move with
  | call routine =>
      cases hstep
      exact .call
  | worker chosen index =>
      simp only [step?, workerStep?, Option.map_eq_some_iff] at hstep
      obtain ⟨stepped, hpool, rfl⟩ := hstep
      obtain ⟨old, new, left, hold, hserve, rfl⟩ := serve_of_some hpool
      exact .serve hold hserve
  | caller chosen index =>
      simp only [step?, callerStep?, Option.bind_eq_bind, Option.bind_eq_some_iff,
        Option.pure_def, Option.some.injEq] at hstep
      obtain ⟨stage, hstage, ⟨next, pool⟩, hadvance, rfl⟩ := hstep
      exact .advance hstage hadvance
  | answerWorker index answer =>
      simp only [step?, workerAsks?, Option.bind_eq_bind, Option.map_eq_some_iff,
        Option.bind_eq_some_iff, Option.pure_def, Option.some.injEq] at hstep
      obtain ⟨_, ⟨worker, hworker, ⟨question, next⟩, hasked, rfl⟩, rfl⟩ := hstep
      cases worker with
      | working stage =>
          cases Stage.asked_of_some hasked
          exact .hearWorker hworker
      | checking => cases hasked
      | parked => cases hasked
      | fetched job => cases hasked
      | ended ending => cases hasked
      | exited => cases hasked
  | answerCaller index answer =>
      simp only [step?, callerAsks?, Option.bind_eq_bind, Option.map_eq_some_iff,
        Option.bind_eq_some_iff, Option.pure_def, Option.some.injEq] at hstep
      obtain ⟨_, ⟨stage, hstage, ⟨question, next⟩, hasked, rfl⟩, rfl⟩ := hstep
      cases Stage.asked_of_some hasked
      exact .hearCaller hstage
  | wake index =>
      cases hstep
      exact .wake

/-! A fixed order of steps. -/

/-- The surroundings of a pool, with a state of their own: they answer a
question, or let the thread that asked wait. -/
abbrev Surroundings (Question σ : Type) := Question → σ → Option (Bool × σ)

def turn? (answer : Surroundings Question σ) (state : σ) (stepped : Option (System Question))
    (asked : Option (Question × (Bool → System Question))) : Option (System Question × σ) :=
  match stepped with
  | some after => some (after, state)
  | none => do
      let (question, resume) ← asked
      let (reply, state) ← answer question state
      return (resume reply, state)

def workerTurn? (answer : Surroundings Question σ) (system : System Question) (state : σ)
    (index : Nat) : Option (System Question × σ) :=
  turn? answer state (system.workerStep? system.pool.firstParked index)
    (system.workerAsks? index)

def callerTurn? (answer : Surroundings Question σ) (system : System Question) (state : σ)
    (index : Nat) : Option (System Question × σ) :=
  turn? answer state (system.callerStep? system.pool.firstParked index)
    (system.callerAsks? index)

def next? (answer : Surroundings Question σ) (system : System Question) (state : σ) :
    Option (System Question × σ) :=
  match (List.range system.pool.workers.length).findSome? (workerTurn? answer system state) with
  | some after => some after
  | none =>
      (List.range system.callers.length).findSome? (callerTurn? answer system state)

def work (system : System Question) : Nat :=
  system.pool.work + sumOf Stage.size system.callers

def Lighter (after before : System Question) : Prop :=
  after.work < before.work ∨
    after.work = before.work ∧ after.pool.checks < before.pool.checks

theorem sum_setCaller (system : System Question) {index : Nat} {old : Stage Question}
    (new : Stage Question) (h : system.callers[index]? = some old) :
    sumOf Stage.size (system.setCaller index new).callers + old.size =
      sumOf Stage.size system.callers + new.size :=
  sumOf_set Stage.size new h

/-- Whatever a thread does, with an answer if it asked, lightens the system. -/
theorem lighter_transition {system after : System Question} {move : Move Question}
    (h : Transition system move after) (hthread : move.isOfThread = true) :
    Lighter after system := by
  cases h with
  | call => cases hthread
  | serve hold hserve =>
      rcases lighter_serve hserve hold with hless | ⟨hsame, hchecks⟩
      · left
        simp only [work]
        omega
      · right
        simp only [work]
        exact ⟨by omega, hchecks⟩
  | @hearWorker index question next answer hold =>
      have hless := Routine.size_next_of_ask question next answer
      have hwork := work_setWorker system.pool (.working (.ready (next answer))) hold
      left
      simp only [Worker.size_working, Stage.size_ready, work] at hwork ⊢
      omega
  | @advance _ index stage next pool hstage hadvance =>
      have hless := work_advance hadvance
      have hsum := sum_setCaller { system with pool } next hstage
      left
      simp only [work, setCaller] at hsum ⊢
      omega
  | @hearCaller index question next answer hstage =>
      have hless := Routine.size_next_of_ask question next answer
      have hsum := sum_setCaller system (.ready (next answer)) hstage
      left
      simp only [Stage.size_ready, work, setCaller] at hsum ⊢
      omega
  | wake => cases hthread

theorem lighter_turn {answer : Surroundings Question σ} {system after : System Question}
    {state later : σ} {stepped : Option (System Question)}
    {asked : Option (Question × (Bool → System Question))} {moving : Move Question}
    {answering : Bool → Move Question} (hmoving : moving.isOfThread = true)
    (hanswering : ∀ reply, (answering reply).isOfThread = true)
    (hstepped : step? system moving = stepped)
    (hasked : ∀ reply, step? system (answering reply) = asked.map fun asked => asked.2 reply)
    (h : turn? answer state stepped asked = some (after, later)) : Lighter after system := by
  unfold turn? at h
  split at h
  · cases h
    exact lighter_transition (transition_of_step hstepped) hmoving
  · simp only [Option.bind_eq_bind, Option.bind_eq_some_iff, Option.pure_def,
      Option.some.injEq, Prod.mk.injEq] at h
    obtain ⟨⟨question, resume⟩, rfl, ⟨reply, _⟩, _, rfl, _⟩ := h
    exact lighter_transition (transition_of_step (hasked reply)) (hanswering reply)

theorem lighter_next {answer : Surroundings Question σ} {system after : System Question}
    {state later : σ} (h : next? answer system state = some (after, later)) :
    Lighter after system := by
  unfold next? at h
  split at h
  · rename_i found hfound
    cases h
    obtain ⟨index, _, hturn⟩ := List.exists_of_findSome?_eq_some hfound
    have hasked (reply : Bool) : step? system (.answerWorker index reply) =
        (system.workerAsks? index).map fun asked => asked.2 reply := rfl
    have hstepped : step? system (.worker system.pool.firstParked index) =
        system.workerStep? system.pool.firstParked index := rfl
    exact lighter_turn rfl (fun _ => rfl) hstepped hasked hturn
  · obtain ⟨index, _, hturn⟩ := List.exists_of_findSome?_eq_some h
    have hasked (reply : Bool) : step? system (.answerCaller index reply) =
        (system.callerAsks? index).map fun asked => asked.2 reply := rfl
    have hstepped : step? system (.caller system.pool.firstParked index) =
        system.callerStep? system.pool.firstParked index := rfl
    exact lighter_turn rfl (fun _ => rfl) hstepped hasked hturn

def settle (answer : Surroundings Question σ) (system : System Question) (state : σ) :
    System Question × σ :=
  match _found : next? answer system state with
  | none => (system, state)
  | some (after, later) => settle answer after later
termination_by (system.work, system.pool.checks)
decreasing_by
  rcases lighter_next _found with hless | ⟨hsame, hchecks⟩
  · exact Prod.Lex.left _ _ hless
  · rw [hsame]
    exact Prod.Lex.right _ hchecks

end System

end Turnstile.Pool

import Mathlib.Data.List.Basic
import Turnstile.Pool.System
import Turnstile.Proofs.History

/-!
What has happened in a pool, beyond what its state still shows: which jobs were
pushed and how that was answered, which jobs left the queue, and which of those
were begun and finished. A job is told from others by its number, which counts
the jobs that left the queue before it.
-/

namespace Turnstile.Pool

structure Push (Question : Type) where
  job : Routine Question
  phase : Phase
  queued : Nat
  answer : Except Rejection Unit

structure Ledger (Question : Type) where
  pushes : List (Push Question) := []
  taken : List (Routine Question) := []
  /-- The number of the job that a worker took last. -/
  holds : Nat → Nat := fun _ => 0
  /-- The runs of jobs: which number a worker held, and what it ran. -/
  begun : List (Nat × Routine Question) := []
  finished : List Nat := []

namespace Ledger

def accepted (ledger : Ledger Question) : List (Routine Question) :=
  (ledger.pushes.filter fun push => push.answer.isOk).map Push.job

def begunNumbers (ledger : Ledger Question) : List Nat := ledger.begun.map Prod.fst

def push (ledger : Ledger Question) (pool : Pool Question) (job : Routine Question) :
    Ledger Question :=
  { ledger with
    pushes := ledger.pushes ++ [⟨job, pool.phase, pool.queue.length, (pool.enter job).1⟩] }

def take (ledger : Ledger Question) (index : Nat) (job : Routine Question) : Ledger Question :=
  { ledger with
    taken := ledger.taken ++ [job]
    holds := fun other => if other = index then ledger.taken.length else ledger.holds other }

def begin (ledger : Ledger Question) (index : Nat) (job : Routine Question) : Ledger Question :=
  { ledger with begun := ledger.begun ++ [(ledger.holds index, job)] }

def finish (ledger : Ledger Question) (index : Nat) : Ledger Question :=
  { ledger with finished := ledger.finished ++ [ledger.holds index] }

def addStage (ledger : Ledger Question) (pool : Pool Question) : Stage Question → Ledger Question
  | .ready (.submit job _) => ledger.push pool job
  | _ => ledger

def addWorker (ledger : Ledger Question) (pool : Pool Question) (index : Nat) :
    Worker Question → Ledger Question
  | .checking =>
      match pool.queue with
      | [] => ledger
      | job :: _ => ledger.take index job
  | .fetched job => ledger.begin index job
  | .working (.ready (.finish _)) => ledger.finish index
  | .working stage => ledger.addStage pool stage
  | .parked | .ended _ | .exited => ledger

theorem addWorker_working {pool after : Pool Question} {seat : Seat} {chosen : Nat}
    {stage next : Stage Question} (hadvance : pool.advance? seat chosen stage = some (next, after))
    (ledger : Ledger Question) (index : Nat) :
    ledger.addWorker pool index (.working stage) = ledger.addStage pool stage := by
  cases stage with
  | ready routine =>
      cases routine with
      | finish ending => cases hadvance
      | ask question rest => rfl
      | submit job rest => rfl
      | shutdown rest => rfl
      | observe rest => rfl
  | accepted rest => rfl
  | notifying rest => rfl
  | refused rest => rfl
  | closing rest => rfl
  | awaiting rest => rfl
  | joining rest => rfl

end Ledger

namespace System

def note (system : System Question) (move : Move Question) (ledger : Ledger Question) :
    Ledger Question :=
  match move with
  | .worker _ index =>
      match system.pool.workers[index]? with
      | some worker => ledger.addWorker system.pool index worker
      | none => ledger
  | .caller _ index =>
      match system.callers[index]? with
      | some stage => ledger.addStage system.pool stage
      | none => ledger
  | .call _ | .answerWorker .. | .answerCaller .. | .wake _ => ledger

def ledger (first : System Question) (moves : List (Move Question)) : Ledger Question :=
  Steps.history step? note {} first moves

end System

/-! What workers hold, whether or not they wait to be notified. -/

inductive Hand (Question : Type)
  | empty
  | holding (job : Routine Question)
  | running
  | gone

namespace Hand

def isHolding : Hand Question → Bool
  | .holding _ => true
  | _ => false

def isRunning : Hand Question → Bool
  | .running => true
  | _ => false

end Hand

def Worker.hand : Worker Question → Hand Question
  | .checking | .parked | .ended _ => .empty
  | .fetched job => .holding job
  | .working _ => .running
  | .exited => .gone

@[simp] theorem Worker.hand_woken (worker : Worker Question) :
    worker.woken.hand = worker.hand := by
  cases worker <;> rfl

def hands (pool : Pool Question) : List (Hand Question) := pool.workers.map Worker.hand

theorem getElem?_hands {pool : Pool Question} {index : Nat} {worker : Worker Question}
    (h : pool.workers[index]? = some worker) : pool.hands[index]? = some worker.hand := by
  rw [hands, List.getElem?_map, h, Option.map_some]

@[simp] theorem hands_setWorker (pool : Pool Question) (index : Nat)
    (worker : Worker Question) :
    (pool.setWorker index worker).hands = pool.hands.set index worker.hand :=
  List.map_set

@[simp] theorem hands_wake (pool : Pool Question) (index : Nat) :
    (pool.wake index).hands = pool.hands := by
  apply List.ext_getElem?
  intro other
  simp only [hands, wake, List.getElem?_map, List.getElem?_modify]
  cases pool.workers[other]? with
  | none => rfl
  | some worker =>
      split
      · exact congrArg some worker.hand_woken
      · rfl

@[simp] theorem hands_wakeAll (pool : Pool Question) : pool.wakeAll.hands = pool.hands := by
  simp only [hands, wakeAll, List.map_map]
  congr 1
  exact funext Worker.hand_woken

/-! The numbers that some of the hands hold. -/

def numberIn (hands : List (Hand Question)) (holds : Nat → Nat) (p : Hand Question → Bool)
    (index : Nat) : Option Nat :=
  if (hands[index]?).any p then some (holds index) else none

def held (hands : List (Hand Question)) (holds : Nat → Nat) (p : Hand Question → Bool) :
    List Nat :=
  (List.range hands.length).filterMap (numberIn hands holds p)

section Held

variable {hands : List (Hand Question)} {holds later : Nat → Nat} {p : Hand Question → Bool}
  {index : Nat} {old new : Hand Question}

theorem numberIn_set_of_ne {other : Nat} (hne : other ≠ index)
    (hlater : later other = holds other) :
    numberIn (hands.set index new) later p other = numberIn hands holds p other := by
  simp only [numberIn, List.getElem?_set_ne hne.symm, hlater]

theorem held_set_of_not (h : hands[index]? = some old) (hold : p old = false)
    (hnew : p new = false) (hlater : ∀ other, other ≠ index → later other = holds other) :
    held (hands.set index new) later p = held hands holds p := by
  have hindex := (List.getElem?_eq_some_iff.mp h).1
  unfold held
  rw [List.length_set]
  apply List.filterMap_congr
  intro other _
  rcases Decidable.em (other = index) with rfl | hne
  · simp [numberIn, h, List.getElem?_set_self hindex, hold, hnew]
  · exact numberIn_set_of_ne hne (hlater other hne)

theorem held_set (h : hands[index]? = some old) (hold : p old = false) (hnew : p new = true)
    (hlater : ∀ other, other ≠ index → later other = holds other) :
    (held (hands.set index new) later p).Perm (held hands holds p ++ [later index]) := by
  have hindex := (List.getElem?_eq_some_iff.mp h).1
  obtain ⟨others, hsplit, hne⟩ := exists_perm_range hindex
  have hbefore := hsplit.filterMap (numberIn hands holds p)
  have hafter := hsplit.filterMap (numberIn (hands.set index new) later p)
  rw [List.filterMap_cons_none (by simp [numberIn, h, hold])] at hbefore
  rw [List.filterMap_cons_some
    (by simp [numberIn, hnew, hindex] : numberIn _ later p index = some (later index))] at hafter
  have hothers : others.filterMap (numberIn (hands.set index new) later p) =
      others.filterMap (numberIn hands holds p) := by
    apply List.filterMap_congr
    intro other hother
    exact numberIn_set_of_ne (hne other hother) (hlater other (hne other hother))
  rw [hothers] at hafter
  unfold held
  rw [List.length_set]
  have hmoved := (hbefore.symm.cons (later index)).trans (List.perm_append_singleton ..).symm
  exact hafter.trans hmoved

theorem held_of_set (h : hands[index]? = some old) (hold : p old = true)
    (hnew : p new = false) :
    (held hands holds p).Perm (held (hands.set index new) holds p ++ [holds index]) := by
  obtain ⟨hindex, hget⟩ := List.getElem?_eq_some_iff.mp h
  have hset : (hands.set index new)[index]? = some new := by simp [hindex]
  have hback : (hands.set index new).set index old = hands := by
    rw [List.set_set, ← hget, List.set_getElem_self]
  have hperm : (held ((hands.set index new).set index old) holds p).Perm _ :=
    held_set hset hnew hold fun _ _ => rfl
  rw [hback] at hperm
  exact hperm

theorem held_eq_nil (h : ∀ hand ∈ hands, p hand = false) :
    held hands holds p = [] := by
  apply List.filterMap_eq_nil_iff.mpr
  intro index _
  cases hhand : hands[index]? with
  | none => simp [numberIn, hhand]
  | some hand => simp [numberIn, hhand, h hand (List.mem_of_getElem? hhand)]

end Held

end Turnstile.Pool

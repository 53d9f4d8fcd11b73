import Mathlib.Logic.Function.Basic
import Turnstile.Proofs.Pool.Lifecycle

/-!
What a step does to the stages at which threads stand: it moves the thread that
takes it, and no other.
-/

namespace Turnstile.Pool

open Function (update)

@[simp] theorem Worker.stage?_woken (worker : Worker Question) :
    worker.woken.stage? = worker.stage? := by
  cases worker <;> rfl

def stages (pool : Pool Question) (index : Nat) : Option (Stage Question) :=
  pool.workers[index]?.bind Worker.stage?

section Stages

variable {pool after left : Pool Question} {seat : Seat} {chosen index : Nat}
  {stage next : Stage Question} {old new : Worker Question}

theorem stages_setWorker (new : Worker Question) (h : pool.workers[index]? = some old) :
    (pool.setWorker index new).stages = update pool.stages index new.stage? := by
  have hindex := (List.getElem?_eq_some_iff.mp h).1
  funext other
  rcases Decidable.em (other = index) with rfl | hne
  · simp [stages, setWorker, hindex]
  · simp [stages, setWorker, hne, List.getElem?_set_ne (Ne.symm hne)]

theorem stages_wake (pool : Pool Question) (index : Nat) :
    (pool.wake index).stages = pool.stages := by
  rcases pool.wake_cases index with hsame | ⟨hparked, hset⟩
  · rw [hsame]
  · have hnone : Worker.checking.stage? = pool.stages index := by
      rw [stages, hparked]
      rfl
    rw [hset, stages_setWorker .checking hparked, hnone, Function.update_eq_self]

theorem stages_wakeAll (pool : Pool Question) : pool.wakeAll.stages = pool.stages := by
  funext index
  simp only [stages, wakeAll, List.getElem?_map, Option.bind_map]
  congr 1
  exact funext Worker.stage?_woken

theorem stages_advance (h : pool.advance? seat chosen stage = some (next, after)) :
    after.stages = pool.stages := by
  unfold stages
  rcases workers_advance h with hsame | hwake | hwakeAll
  · rw [hsame]
  · rw [hwake]
    exact pool.stages_wake chosen
  · rw [hwakeAll]
    exact pool.stages_wakeAll

theorem stages_serve (h : Serve pool chosen index old new left) : left.stages = pool.stages := by
  cases h with
  | goOn hadvance => exact stages_advance hadvance
  | @count ending => cases ending <;> rfl
  | take _ => rfl
  | park _ _ => rfl
  | leave _ _ => rfl
  | begin => rfl
  | finish => rfl

end Stages

namespace System

variable {system : System Question} {chosen index : Nat}

theorem stage?_worker (system : System Question) (index : Nat) :
    system.stage? (.worker index) = system.pool.stages index := rfl

theorem stage?_of_worker {worker : Worker Question}
    (h : system.pool.workers[index]? = some worker) :
    system.stage? (.worker index) = worker.stage? := by
  rw [stage?, h, Option.bind_some]

theorem stage?_of_stages {pool : Pool Question} (h : pool.stages = system.pool.stages) :
    stage? { system with pool } = system.stage? := by
  funext thread
  cases thread with
  | worker index => exact congrFun h index
  | caller index => rfl

theorem stage?_setWorker {left : Pool Question} {old : Worker Question} (new : Worker Question)
    (hold : left.workers[index]? = some old) (hleft : left.stages = system.pool.stages) :
    stage? { system with pool := left.setWorker index new } =
      update system.stage? (.worker index) new.stage? := by
  funext thread
  cases thread with
  | worker other =>
      rw [stage?_worker, stages_setWorker new hold, hleft]
      rcases Decidable.em (other = index) with rfl | hne
      · rw [Function.update_self, Function.update_self]
      · rw [Function.update_of_ne hne,
          Function.update_of_ne fun hsame => hne (Thread.worker.inj hsame)]
        rfl
  | caller other => rfl

theorem stage?_setCaller {pool : Pool Question} {old : Stage Question} (new : Stage Question)
    (hold : system.callers[index]? = some old) (hpool : pool.stages = system.pool.stages) :
    stage? ({ system with pool }.setCaller index new) =
      update system.stage? (.caller index) (some new) := by
  have hindex := (List.getElem?_eq_some_iff.mp hold).1
  funext thread
  cases thread with
  | worker other => exact congrFun hpool other
  | caller other =>
      rcases Decidable.em (other = index) with rfl | hne
      · rw [Function.update_self]
        exact List.getElem?_set_self hindex
      · rw [Function.update_of_ne fun hsame => hne (Thread.caller.inj hsame)]
        exact List.getElem?_set_ne (Ne.symm hne)

theorem stage?_call (system : System Question) (routine : Routine Question) :
    (system.call routine).stage? =
      update system.stage? (.caller system.callers.length) (some (.ready routine)) := by
  funext thread
  cases thread with
  | worker other => rfl
  | caller other =>
      rcases Decidable.em (other = system.callers.length) with rfl | hne
      · rw [Function.update_self]
        exact List.getElem?_concat_length
      · rw [Function.update_of_ne fun hsame => hne (Thread.caller.inj hsame)]
        change (system.callers ++ [_])[other]? = system.callers[other]?
        rw [List.getElem?_append]
        split
        · rfl
        · rw [List.getElem?_eq_none (show system.callers.length ≤ other by omega)]
          exact List.getElem?_eq_none (by rw [List.length_singleton]; omega)

theorem stage?_call_self (system : System Question) :
    system.stage? (.caller system.callers.length) = none :=
  List.getElem?_eq_none (Nat.le_refl _)

end System

end Turnstile.Pool

import Turnstile.Lists
import Turnstile.Pool.Actions

/-!
How much is left to do in a pool. Every step of a worker that its surroundings
do not have to answer leaves less `work`, or as much work and fewer workers
about to look at the queue.
-/

namespace Turnstile.Pool

def Stage.size : Stage Question → Nat
  | .ready routine => routine.size
  | .accepted next => next.size + 2
  | .notifying next | .refused next | .joining next => next.size + 1
  | .closing next => next.size + 3
  | .awaiting next => next.size + 2

@[simp] theorem Stage.size_ready (routine : Routine Question) :
    (Stage.ready routine).size = routine.size := rfl

def Worker.size : Worker Question → Nat
  | .checking | .parked | .exited => 0
  | .fetched job => job.size + 2
  | .working stage => stage.size + 1
  | .ended _ => 1

@[simp] theorem Worker.size_working (stage : Stage Question) :
    (Worker.working stage).size = stage.size + 1 := rfl

def Worker.isChecking : Worker Question → Bool
  | .checking => true
  | _ => false

def queueSize (queue : List (Routine Question)) : Nat :=
  sumOf (fun job => job.size + 2) queue

def work (pool : Pool Question) : Nat :=
  queueSize pool.queue + sumOf Worker.size pool.workers + pool.unjoined.length

def checks (pool : Pool Question) : Nat := pool.workers.countP Worker.isChecking

/-! Each part of an operation, and the work it leaves. -/

@[simp] theorem Worker.size_woken (worker : Worker Question) : worker.woken.size = worker.size := by
  cases worker <;> rfl

theorem Worker.woken_of_not_parked {worker : Worker Question} (h : worker.isParked = false) :
    worker.woken = worker := by
  simp [woken, h]

theorem work_wake (pool : Pool Question) (index : Nat) : (pool.wake index).work = pool.work := by
  unfold work wake
  simp only
  rw [sumOf_modify Worker.size_woken]

theorem work_wakeAll (pool : Pool Question) : pool.wakeAll.work = pool.work := by
  unfold work wakeAll
  rw [sumOf_map Worker.size_woken]

theorem work_emit (pool : Pool Question) (record : LogRecord) :
    (pool.emit record).work = pool.work := rfl

theorem work_countEnding (pool : Pool Question) (index : Nat) (ending : Ending) :
    (pool.countEnding index ending).work = pool.work := by
  cases ending <;> rfl

theorem work_setWorker (pool : Pool Question) {index : Nat} {old : Worker Question}
    (new : Worker Question) (h : pool.workers[index]? = some old) :
    (pool.setWorker index new).work + old.size = pool.work + new.size := by
  have := sumOf_set Worker.size new h
  unfold work setWorker
  simp only
  omega

theorem work_enqueue (pool : Pool Question) (job : Routine Question) :
    ({ pool with queue := pool.queue ++ [job] } : Pool Question).work =
      pool.work + job.size + 2 := by
  unfold work queueSize
  simp only [sumOf_append, sumOf_cons, sumOf_nil]
  omega

/-- A step of a thread leaves less work in the thread and the pool together. -/
theorem work_advance {pool after : Pool Question} {seat : Seat} {chosen : Nat}
    {stage next : Stage Question} (h : pool.advance? seat chosen stage = some (next, after)) :
    next.size + after.work < stage.size + pool.work := by
  cases advance_of_some h with
  | @enter job rest _ =>
      have hsize := Routine.size_next_of_submit job rest (.ok ())
      rw [work_enqueue]
      simp only [Stage.size]
      omega
  | @refuse job rest rejection _ =>
      have hsize := Routine.size_next_of_submit job rest (.error rejection)
      simp only [Stage.size]
      omega
  | close _ _ =>
      change _ + pool.work < _
      simp only [Stage.size, Routine.size]
      omega
  | @observe rest =>
      have hsize := Routine.size_next_of_observe rest pool.phase
      simp only [Stage.size]
      omega
  | countAccepted =>
      change _ + pool.work < _
      simp only [Stage.size]
      omega
  | notify _ =>
      rw [work_wake]
      simp only [Stage.size]
      omega
  | countRejected =>
      change _ + pool.work < _
      simp only [Stage.size]
      omega
  | notifyAll _ =>
      rw [work_emit, work_wakeAll]
      simp only [Stage.size]
      omega
  | await _ =>
      rw [work_wakeAll]
      simp only [Stage.size]
      omega
  | hold _ =>
      change _ + pool.work < _
      simp only [Stage.size]
      omega
  | join hunjoined _ =>
      unfold work
      simp only [hunjoined, List.length_cons]
      omega
  | stop _ _ =>
      change _ + pool.work < _
      simp only [Stage.size]
      omega

theorem getElem?_workers_advance {pool after : Pool Question} {seat : Seat} {chosen index : Nat}
    {stage next : Stage Question} {worker : Worker Question}
    (h : pool.advance? seat chosen stage = some (next, after))
    (hworker : pool.workers[index]? = some worker) (hparked : worker.isParked = false) :
    after.workers[index]? = some worker := by
  have hwoken := Worker.woken_of_not_parked hparked
  rcases workers_advance h with hsame | hwake | hwakeAll
  · exact hsame ▸ hworker
  · rw [hwake]
    simp only [wake, List.getElem?_modify, hworker]
    split <;> simp [hwoken]
  · rw [hwakeAll]
    simp [wakeAll, hworker, hwoken]

def Lighter (after before : Pool Question) : Prop :=
  after.work < before.work ∨ after.work = before.work ∧ after.checks < before.checks

theorem checks_setWorker (pool : Pool Question) {index : Nat} {old : Worker Question}
    (new : Worker Question) (h : pool.workers[index]? = some old) :
    (pool.setWorker index new).checks + old.isChecking.toNat =
      pool.checks + new.isChecking.toNat :=
  countP_set Worker.isChecking new h

theorem getElem?_workers_serve {pool left : Pool Question} {chosen index : Nat}
    {old new : Worker Question} (h : Serve pool chosen index old new left)
    (hold : pool.workers[index]? = some old) : left.workers[index]? = some old := by
  cases h with
  | goOn hadvance => exact getElem?_workers_advance hadvance hold rfl
  | @count ending => cases ending <;> exact hold
  | take _ => exact hold
  | park _ _ => exact hold
  | leave _ _ => exact hold
  | begin => exact hold
  | finish => exact hold

theorem lighter_serve {pool left : Pool Question} {chosen index : Nat}
    {old new : Worker Question} (h : Serve pool chosen index old new left)
    (hold : pool.workers[index]? = some old) : Lighter (left.setWorker index new) pool := by
  have hkept := getElem?_workers_serve h hold
  have hwork := work_setWorker left new hkept
  have hchecks := checks_setWorker left new hkept
  cases h with
  | @take job rest hqueue =>
      right
      have hsame : ({ pool with queue := rest } : Pool Question).work + job.size + 2 =
          pool.work := by
        unfold work queueSize
        simp only [hqueue, sumOf_cons]
        omega
      have hcount : ({ pool with queue := rest } : Pool Question).checks = pool.checks := rfl
      simp only [Worker.size] at hwork
      simp only [Worker.isChecking, Bool.toNat_true, Bool.toNat_false] at hchecks
      omega
  | park _ _ =>
      right
      simp only [Worker.size] at hwork
      simp only [Worker.isChecking, Bool.toNat_true, Bool.toNat_false] at hchecks
      omega
  | leave _ _ =>
      right
      have hcount : (pool.emit (.workerExiting index)).checks = pool.checks := rfl
      simp only [Worker.size, work_emit] at hwork
      simp only [Worker.isChecking, Bool.toNat_true, Bool.toNat_false] at hchecks
      omega
  | begin =>
      left
      have hsame : pool.enterJob.work = pool.work := rfl
      simp only [Worker.size, Stage.size] at hwork
      omega
  | finish =>
      left
      have hsame : pool.leaveJob.work = pool.work := rfl
      simp only [Worker.size, Stage.size, Routine.size] at hwork
      omega
  | goOn hadvance =>
      left
      have hless := work_advance hadvance
      simp only [Worker.size] at hwork
      omega
  | @count ending =>
      left
      have hsame := work_countEnding pool index ending
      simp only [Worker.size] at hwork
      omega

end Turnstile.Pool

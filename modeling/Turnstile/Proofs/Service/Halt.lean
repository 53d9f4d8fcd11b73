import Turnstile.Proofs.Service.LifecycleSteps

/-!
When a service stops. Whoever comes to the last flush of a shutdown has stopped the pool
before, and a pool that is stopped stays so.
-/

namespace Turnstile

namespace Pool

theorem stopped_of_advance {pool after : Pool Question} {seat : Seat} {chosen : Nat}
    {stage next : Stage Question} (h : pool.advance? seat chosen stage = some (next, after))
    (hstopped : pool.phase = .stopped) : after.phase = .stopped := by
  cases advance_of_some h with
  | close hclose _ =>
      have hsame : pool.close = pool := if_neg fun hopen => by
        rw [hstopped] at hopen
        cases hopen
      rw [← hclose, hsame]
      exact hstopped
  | stop _ _ => rfl
  | enter _ => exact hstopped
  | refuse _ => exact hstopped
  | observe => exact hstopped
  | countAccepted => exact hstopped
  | notify _ => exact hstopped
  | countRejected => exact hstopped
  | notifyAll _ => exact hstopped
  | await _ => exact hstopped
  | hold _ => exact hstopped
  | join _ _ => exact hstopped

theorem stopped_of_serve {pool left : Pool Question} {chosen index : Nat}
    {old new : Worker Question} (h : Serve pool chosen index old new left)
    (hstopped : pool.phase = .stopped) : left.phase = .stopped := by
  cases h with
  | goOn hadvance => exact stopped_of_advance hadvance hstopped
  | @count ending => cases ending <;> exact hstopped
  | take _ => exact hstopped
  | park _ _ => exact hstopped
  | leave _ _ => exact hstopped
  | begin => exact hstopped
  | finish => exact hstopped

theorem System.stopped_of_step {system after : System Question} {move : Move Question}
    (hstep : step? system move = some after) (hstopped : system.pool.phase = .stopped) :
    after.pool.phase = .stopped := by
  cases transition_of_step hstep with
  | serve _ hserve =>
      have hleft := stopped_of_serve hserve hstopped
      exact hleft
  | advance _ hadvance =>
      have hadvanced := stopped_of_advance hadvance hstopped
      exact hadvanced
  | call => exact hstopped
  | hearWorker _ => exact hstopped
  | hearCaller _ => exact hstopped
  | wake => exact hstopped

end Pool

namespace Service

def atLastFlush : Pool.Stage Question → Bool
  | .ready routine => flushesNext routine
  | _ => false

theorem pointAt?_of_atLastFlush {stage : Pool.Stage Question} (h : atLastFlush stage = true) :
    pointAt? stage = some .flushing := by
  unfold atLastFlush flushesNext at h
  split at h
  · split at h
    · rfl
    · cases h
  · cases h

namespace System

variable {system after : System σ} {move : Move}

theorem phase_eq_stopped_of_step (hstep : step? system move = some after)
    (hstopped : system.service.pool.phase = .stopped) : after.service.pool.phase = .stopped := by
  have hpool := poolStep_of_step hstep
  cases hmove : system.poolMove? move with
  | none =>
      rw [hmove] at hpool
      have hsame : system.service.system = after.service.system := Option.some.inj hpool
      rw [Service.pool, ← hsame]
      exact hstopped
  | some poolMove =>
      rw [hmove, Option.toList_some, Pool.System.run?, Steps.run?_cons] at hpool
      obtain ⟨next, hnext, hlast⟩ := Option.bind_eq_some_iff.mp hpool
      cases hlast
      exact Pool.System.stopped_of_step hnext hstopped

def Halted (system : System σ) : Prop :=
  ∀ thread stage, system.stage? thread = some stage → atLastFlush stage = true →
    system.service.pool.phase = .stopped

/-- Only from a stopped pool does a thread come to the last flush. -/
theorem stopped_of_lifecycleStep (h : ∀ thread, system.point? thread = some .flushing →
      system.service.pool.phase = .stopped)
    (hlife : LifecycleStep system after move)
    (hphase : system.service.pool.phase = .stopped → after.service.pool.phase = .stopped)
    (thread : Thread) (hpoint : after.point? thread = some .flushing) :
    after.service.pool.phase = .stopped := by
  rcases hlife.points with ⟨_, hpoints⟩ | ⟨_, hpoints⟩ | ⟨_, _, _, _, _, hpoints, hshutdown⟩
  · exact hphase (h thread (hpoints ▸ hpoint))
  · rw [hpoints, Function.update_apply] at hpoint
    split at hpoint
    · cases hpoint
    · exact hphase (h thread hpoint)
  · rw [hpoints, Function.update_apply] at hpoint
    split at hpoint
    · rw [hpoint] at hshutdown
      exact hshutdown.eq_stopped
    · exact hphase (h thread hpoint)

end System

namespace Setup

variable {setup : Setup σ} {moves : List System.Move} {last : System σ}

theorem halted_of_run (hrun : setup.start.run? moves = some last) : last.Halted := by
  let Holds (_ : List System.Move) (system : System σ) : Prop :=
    ∀ thread, system.point? thread = some .flushing → system.service.pool.phase = .stopped
  have hfirst : Holds [] setup.start := fun thread hpoint => by
    cases (setup.point?_start thread).symm.trans hpoint
  have hholds : Holds moves last :=
    Steps.run_induction hrun hfirst fun _ _ hbefore h _ _ _ hstep =>
      System.stopped_of_lifecycleStep h (lifecycleStep_of_run hbefore hstep)
        (System.phase_eq_stopped_of_step hstep)
  intro thread stage hstage hflush
  exact hholds thread ((System.point?_of_stage hstage).trans (pointAt?_of_atLastFlush hflush))

/-- Once the pool is stopped, everything that was accepted has been run. -/
theorem allRun_of_stopped (hrun : setup.start.run? moves = some last)
    (hstopped : last.service.pool.phase = .stopped) :
    Pool.AllRun last.service.pool (setup.poolLedger moves) := by
  have hrecorded := Pool.System.recorded_of_run (pool_run hrun)
  exact (orderly_of_run hrun).allRun setup.pool_valid (hrecorded.unjoined_eq hstopped)

end Setup

end Service

end Turnstile

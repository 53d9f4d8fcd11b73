import Turnstile.Proofs.Service.Closed
import Turnstile.Proofs.Service.SiteCalls
import Turnstile.Proofs.Site.Accounts

/-!
The way of a shutdown from where it has claimed the service to its last flush, and what that
flush leaves behind if nobody else is at the site.
-/

namespace Turnstile.Service

/-- Where a shutdown stands that has claimed the service and not yet begun its last flush. -/
inductive Closing : Pool.Stage Question → Prop
  | signalFlusher : Closing (.ready Shutdown.signalFlusher)
  | joinFlusher : Closing (.ready Shutdown.joinFlusher)
  | close : Closing (.ready Shutdown.close)
  | closing : Closing (.closing Shutdown.flush)
  | awaiting : Closing (.awaiting Shutdown.flush)
  | joining : Closing (.joining Shutdown.flush)
  | flush : Closing (.ready Shutdown.flush)

namespace Closing

variable {system after quiet last : System σ} {move : System.Move} {index : Nat}
  {stage next : Pool.Stage Question} {moves : List System.Move}

theorem advance {pool left : Pool Question} {chosen : Nat} (h : Closing stage)
    (hadvance : pool.advance? .outside chosen stage = some (next, left)) : Closing next := by
  cases h with
  | signalFlusher => cases hadvance
  | joinFlusher => cases hadvance
  | flush => cases hadvance
  | close =>
      cases Pool.advance_of_some hadvance with
      | close _ _ => exact .closing
  | closing =>
      cases Pool.advance_of_some hadvance with
      | notifyAll hworker => cases hworker
      | await _ => exact .awaiting
  | awaiting =>
      cases Pool.advance_of_some hadvance with
      | hold _ => exact .joining
  | joining =>
      cases Pool.advance_of_some hadvance with
      | join _ _ => exact .joining
      | stop _ _ => exact .flush

theorem of_ask {question : Question} {rest : Bool → Pool.Routine Question}
    (h : Closing (.ready (.ask question rest))) :
    Pool.Routine.ask question rest = Shutdown.flush ∨
      question.call? = none ∧ ∀ answer, Closing (.ready (rest answer)) := by
  generalize hasks : Pool.Stage.ready (.ask question rest) = stage at h
  cases h with
  | signalFlusher =>
      cases hasks
      exact .inr ⟨rfl, fun _ => .joinFlusher⟩
  | joinFlusher =>
      cases hasks
      exact .inr ⟨rfl, fun _ => .close⟩
  | flush => exact .inl (Pool.Stage.ready.inj hasks)
  | close => cases hasks
  | closing => cases hasks
  | awaiting => cases hasks
  | joining => cases hasks

theorem step_self (h : Closing stage) (hstage : system.stage? (.caller index) = some stage)
    (hnone : system.call? (.caller index) = none) (hmine : move.thread? = some (.caller index))
    (hstep : System.step? system move = some after) :
    (∃ next, Closing next ∧ after.stage? (.caller index) = some next ∧
        after.call? (.caller index) = none) ∨
      move = .enter (.caller index) ∧ stage = .ready Shutdown.flush := by
  cases System.transition_of_step hstep with
  | begin hroutine _ _ => cases move <;> cases hmine <;> cases hroutine
  | drop _ _ => cases hmine
  | work hmove hpool =>
      cases System.worked_of_step hmove hpool with
      | advance hstands hadvance hstages =>
          cases hmine
          cases hstage.symm.trans hstands
          refine .inl ⟨_, h.advance hadvance, ?_, hnone⟩
          rw [hstages]
          exact Function.update_self ..
      | serve _ _ _ => cases hmine
      | wake _ => cases hmine
  | @hear seat _ _ answer _ _ hasks hanswer hpool _ =>
      obtain rfl : seat = .caller index := Thread.inPool_inj (Option.some.inj hmine)
      cases hstage.symm.trans hasks
      rcases h.of_ask with hflush | ⟨_, hrest⟩
      · cases hflush
        cases hanswer
      · refine .inl ⟨_, hrest answer, ?_, hnone⟩
        rw [System.stage?_hear system.calls hasks hpool]
        exact Function.update_self ..
  | @enter seat _ _ _ _ hasks hcall _ =>
      obtain rfl : seat = .caller index := Thread.inPool_inj (Option.some.inj hmine)
      cases hstage.symm.trans hasks
      rcases h.of_ask with hflush | ⟨hnever, _⟩
      · exact .inr ⟨rfl, congrArg Pool.Stage.ready hflush⟩
      · cases hnever.symm.trans hcall
  | part hcall _ =>
      cases hmine
      cases hnone.symm.trans hcall
  | @leave seat _ _ _ _ _ _ hcall _ _ _ =>
      obtain rfl : seat = .caller index := Thread.inPool_inj (Option.some.inj hmine)
      cases hnone.symm.trans hcall
  | rest _ => cases hmine
  | tick _ => cases hmine
  | endFlusher _ => cases hmine
  | clock => cases hmine
  | release => cases hmine

theorem step (h : Closing stage) (hstage : system.stage? (.caller index) = some stage)
    (hnone : system.call? (.caller index) = none) (hstep : System.step? system move = some after) :
    (∃ next, Closing next ∧ after.stage? (.caller index) = some next ∧
        after.call? (.caller index) = none) ∨
      move = .enter (.caller index) ∧ stage = .ready Shutdown.flush := by
  rcases Decidable.em (move.thread? = some (.caller index)) with hmine | hother
  · exact h.step_self hstage hnone hmine hstep
  · exact .inl ⟨stage, h, System.stage?_of_step hstep hother hstage,
      (System.call?_of_step hstep hother).trans hnone⟩

theorem exists_lastFlush (h : Closing stage) (hstage : system.stage? (.caller index) = some stage)
    (hnone : system.call? (.caller index) = none) (hrun : system.run? moves = some last)
    (hreturned : last.stage? (.caller index) = some (.ready (.finish .returned))) :
    ∃ drain during quiet, moves = drain ++ .enter (.caller index) :: during ∧
      system.run? drain = some quiet ∧
      quiet.stage? (.caller index) = some (.ready Shutdown.flush) ∧
      quiet.run? (.enter (.caller index) :: during) = some last := by
  induction moves generalizing system stage with
  | nil =>
      cases hrun
      cases hstage.symm.trans hreturned
      cases h
  | cons move rest ih =>
      have hall := hrun
      simp only [System.run?, Steps.run?_cons, Option.bind_eq_some_iff] at hrun
      obtain ⟨after, hstep, hrest⟩ := hrun
      rcases h.step hstage hnone hstep with ⟨next, hnext, hstands, hstill⟩ | ⟨rfl, rfl⟩
      · obtain ⟨drain, during, quiet, rfl, hdrain, hquiet, hlater⟩ := ih hnext hstands hstill hrest
        refine ⟨move :: drain, during, quiet, rfl, ?_, hquiet, hlater⟩
        rw [System.run?, Steps.run?_cons, hstep]
        exact hdrain
      · exact ⟨[], rest, system, rfl, rfl, hstage, hall⟩

end Closing

namespace Setup

variable {setup : Setup σ} {moves during : List System.Move} {quiet last : System σ} {index : Nat}

theorem isQuiet_of_mirrored {visits : Visits} {first mirror : Site.System σ} {system : System σ}
    (h : System.Mirrored first system visits mirror)
    (hnone : ∀ thread, system.call? thread = none) :
    mirror.isQuiet = true := by
  apply List.all_eq_true.mpr
  intro call hmem
  obtain ⟨place, hplace⟩ := List.mem_iff_getElem?.mp hmem
  rcases h.finished place call hplace with ⟨thread, hsome, _⟩ | hfinished
  · rw [hnone thread] at hsome
    cases hsome
  · exact hfinished

theorem visits_of_alone (hrun : setup.start.run? moves = some quiet)
    (hcalls : ∀ thread, quiet.call? thread = none)
    (hstage : quiet.stage? (.caller index) = some (.ready Shutdown.flush))
    (hlater : quiet.run? (.enter (.caller index) :: during) = some last)
    (halone : ∀ move ∈ during, move.entersSite = false) :
    (∃ later, (setup.start.visits (moves ++ .enter (.caller index) :: during)).moves =
        (setup.start.visits moves).moves ++ .flush :: later ∧
          ∀ visited ∈ later, visited.isCall = false) ∧
      ∀ thread, thread ≠ .caller index → last.call? thread = none := by
  let Alone (seen : List System.Move) (system : System σ) : Prop :=
    (∃ later, (setup.start.visits seen).moves =
        (setup.start.visits moves).moves ++ .flush :: later ∧
          ∀ visited ∈ later, visited.isCall = false) ∧
      ∀ thread, thread ≠ .caller index → system.call? thread = none
  simp only [System.run?, Steps.run?_cons, Option.bind_eq_some_iff] at hlater
  obtain ⟨entered, hstep, hrest⟩ := hlater
  have hfirst : Alone (moves ++ [.enter (.caller index)]) entered := by
    refine ⟨⟨[], ?_, fun _ hmem => absurd hmem List.not_mem_nil⟩, fun thread hne => ?_⟩
    · rw [visits_concat hrun hstep]
      simp only [System.visit, System.question?_of_stage hstage]
      rfl
    · rw [System.call?_of_step hstep fun hsame => hne (Option.some.inj hsame).symm, hcalls]
  have hentered : setup.start.run? (moves ++ [.enter (.caller index)]) = some entered :=
    Steps.run?_append_of_run? hrun (by rw [Steps.run?_cons, hstep]; rfl)
  have halong : Alone (moves ++ [.enter (.caller index)] ++ during) last :=
    Steps.run_induction_append hentered hrest hfirst
        fun seen system hseen h move hmem next hmoved => by
      obtain ⟨⟨later, hmoves, hlater⟩, hnone⟩ := h
      obtain ⟨added, hadded, hadds⟩ :=
        system.moves_visit (setup.start.visits seen) (halone move hmem)
      refine ⟨⟨later ++ added, ?_, ?_⟩, fun thread hne =>
        System.call?_eq_none_of_step hmoved (halone move hmem) (hnone thread hne)⟩
      · rw [visits_concat hseen hmoved, hadded, hmoves, List.append_assoc, List.cons_append]
      · intro visited hvisited
        rcases List.mem_append.mp hvisited with hold | hnew
        · exact hlater visited hold
        · exact hadds visited hnew
  rw [List.append_assoc] at halong
  exact halong

theorem emptied_of_lastFlush (hrun : setup.start.run? moves = some quiet)
    (hcalls : ∀ thread, quiet.call? thread = none)
    (hstage : quiet.stage? (.caller index) = some (.ready Shutdown.flush))
    (hlater : quiet.run? (.enter (.caller index) :: during) = some last)
    (halone : ∀ move ∈ during, move.entersSite = false)
    (hleft : last.call? (.caller index) = none) :
    Site.System.Emptied setup.receive setup.sink last.service.front.site
      (setup.siteLedger (moves ++ .enter (.caller index) :: during)) := by
  obtain ⟨⟨later, hmoves, hnot⟩, hothers⟩ := visits_of_alone hrun hcalls hstage hlater halone
  have hnone (thread : Thread) : last.call? thread = none := by
    rcases Decidable.em (thread = .caller index) with rfl | hne
    · exact hleft
    · exact hothers thread hne
  obtain ⟨before, hbefore⟩ := mirrored_of_run hrun
  obtain ⟨after, hafter⟩ := mirrored_of_run (Steps.run?_append_of_run? hrun hlater)
  have hflushed := run?_of_visits hbefore hafter hmoves
  rw [siteLedger, hmoves, ← hafter.site_eq]
  exact Site.System.emptied_of_flushedAlone hbefore.run (isQuiet_of_mirrored hbefore hcalls)
    ⟨hflushed, hnot, isQuiet_of_mirrored hafter hnone⟩

/-- The site once the last flush is over, and at the end of what has happened `since`. -/
structure FlushedOut (setup : Setup σ) (seen since : List System.Move) (flushed last : System σ) :
    Prop where
  run : setup.start.run? seen = some flushed
  emptied : Site.System.Emptied setup.receive setup.sink flushed.service.front.site
    (setup.siteLedger seen)
  /-- What is pending in the end was decided after the flush. -/
  pending_le : ∀ client, last.service.front.site.controller.pending client +
    ((setup.siteLedger seen).recordedOf client).length ≤
      ((setup.siteLedger (seen ++ since)).recordedOf client).length
  undisturbed : (∀ move ∈ since, move.entersSite = false) →
    Site.System.Emptied setup.receive setup.sink last.service.front.site
      (setup.siteLedger (seen ++ since))

theorem pending_le_of_emptied {seen since : List System.Move} {flushed : System σ}
    (hrun : setup.start.run? seen = some flushed)
    (hemptied : ∀ client, flushed.service.front.site.controller.pending client = 0)
    (hsince : flushed.run? since = some last) (client : String) :
    last.service.front.site.controller.pending client +
      ((setup.siteLedger seen).recordedOf client).length ≤
        ((setup.siteLedger (seen ++ since)).recordedOf client).length := by
  obtain ⟨hrecorded, hread⟩ := onward_of_run hrun hsince client
  have hpending := hemptied client
  rw [Controller.pending_eq] at hpending
  have hall := (rings_of_run hrun client).read_eq_of_pending hpending
  have hle := (rings_of_run (Steps.run?_append_of_run? hrun hsince) client).pending_le
  have hlength := hrecorded.length_le
  rw [Controller.pending_eq]
  omega

/-- If nobody comes to the site while the last flush is under way, it leaves nothing there. -/
theorem exists_flushedOut {moves during : List System.Move}
    (hrun : setup.start.run? moves = some quiet)
    (hstage : quiet.stage? (.caller index) = some (.ready Shutdown.flush))
    (hlater : quiet.run? (.enter (.caller index) :: during) = some last)
    (hreturned : last.stage? (.caller index) = some (.ready (.finish .returned)))
    (halone : ∀ flushing since, during = flushing ++ .leave (.caller index) :: since →
      quiet.calls = [] ∧ ∀ move ∈ flushing, move.entersSite = false) :
    ∃ flushing since flushed, during = flushing ++ .leave (.caller index) :: since ∧
      FlushedOut setup (moves ++ .enter (.caller index) :: (flushing ++ [.leave (.caller index)]))
        since flushed last := by
  obtain ⟨entered, hstep, hduring⟩ := Option.bind_eq_some_iff.mp hlater
  obtain ⟨hstands, hcall⟩ := System.enter_of_step hstep hstage
  have hother : last.stage? (.caller index) ≠ some (.ready Shutdown.flush) := by
    rw [hreturned]
    nofun
  obtain ⟨flushing, since, flushed, rfl, hflushing, hleft, hsince⟩ :=
    System.exists_leave hstands rfl hcall hduring hother
  obtain ⟨hcalls, halone⟩ := halone flushing since rfl
  have hnone (thread : Thread) : quiet.call? thread = none := by
    rw [System.call?, hcalls]
    rfl
  have hover (move : System.Move) (hmem : move ∈ flushing ++ [.leave (.caller index)]) :
      move.entersSite = false := by
    rcases List.mem_append.mp hmem with hold | hleave
    · exact halone move hold
    · rw [List.mem_singleton.mp hleave]
      rfl
  have hflush : quiet.run? (.enter (.caller index) ::
      (flushing ++ [.leave (.caller index)])) = some flushed := by
    rw [System.run?, Steps.run?_cons, hstep]
    exact hflushing
  have hseen := Steps.run?_append_of_run? hrun hflush
  have hemptied := emptied_of_lastFlush hrun hnone hstage hflush hover hleft
  refine ⟨flushing, since, flushed, rfl, hseen, hemptied,
    pending_le_of_emptied hseen hemptied.pending_eq hsince, fun hundisturbed => ?_⟩
  have hnobody (move : System.Move) (hmem : move ∈ flushing ++ .leave (.caller index) :: since) :
      move.entersSite = false := by
    rcases List.mem_append.mp hmem with hold | hlate
    · exact halone move hold
    · rcases List.mem_cons.mp hlate with rfl | hnew
      · rfl
      · exact hundisturbed move hnew
  have hgone : last.call? (.caller index) = none :=
    (kept_of_free_run (Steps.run?_append_of_run? hrun hlater)).conducted.call?_of_finish hreturned
  have hall := emptied_of_lastFlush hrun hnone hstage hlater hnobody hgone
  simpa using hall

/-- The last flush of a thread: it was begun when the pool was stopped, and has read all that
was recorded before. -/
structure FlushedFrom (setup : Setup σ) (moves : List System.Move) (last : System σ)
    (thread : Thread) (drain : List System.Move) (quiet : System σ) : Prop where
  moves_eq : ∃ rest, moves = drain ++ .enter thread :: rest
  run : setup.start.run? drain = some quiet
  asked : quiet.question? thread = some .lastFlush
  phase_eq : quiet.service.pool.phase = .stopped
  read : ∀ client, ((setup.siteLedger drain).recordedOf client).length ≤
    (last.service.front.site.controller.ring client).read

theorem FlushedFrom.append {moves later drain : List System.Move} {system : System σ}
    {thread : Thread} (h : FlushedFrom setup moves system thread drain quiet)
    (hrun : setup.start.run? moves = some system) (hlater : system.run? later = some last) :
    FlushedFrom setup (moves ++ later) last thread drain quiet where
  moves_eq := by
    obtain ⟨rest, rfl⟩ := h.moves_eq
    exact ⟨rest ++ later, by simp⟩
  run := h.run
  asked := h.asked
  phase_eq := h.phase_eq
  read := fun client => (h.read client).trans (onward_of_run hrun hlater client).2

/-- Whoever leaves its last flush has entered it as a caller on a stopped pool. -/
theorem exists_flushedFrom_of_leave {moves : List System.Move} {system after : System σ}
    {thread : Thread} (hrun : setup.start.run? moves = some system)
    (hstep : System.step? system (.leave thread) = some after)
    (hquestion : system.question? thread = some .lastFlush) :
    ∃ drain quiet, FlushedFrom setup moves system thread drain quiet := by
  obtain ⟨rest, hstage⟩ := System.stage?_of_question hquestion
  have hpoint := System.point?_of_ask hstage
  cases thread with
  | worker index =>
      have hnone : system.point? (.worker index) = none :=
        System.point?_eq_none_of_inside (kept_of_free_run hrun).conducted rfl
      cases hnone.symm.trans hpoint
  | flusher index => cases hstage
  | caller index =>
      generalize hmove : System.Move.leave (.caller index) = move at hstep
      cases System.transition_of_step hstep with
      | @leave seat call question _ _ _ _ hcall hasks hconclude _ =>
          obtain rfl : seat = .caller index := Thread.inPool_inj (System.Move.leave.inj hmove).symm
          cases hstage.symm.trans hasks
          obtain ⟨drain, quiet, question, hentered⟩ := entered_of_run hrun hcall
          obtain rfl : question = .lastFlush :=
            Option.some.inj (hentered.still.symm.trans hquestion)
          obtain ⟨_, hstands⟩ := System.stage?_of_question hentered.asked
          have hreads := hentered.reads hrun rfl hcall
          cases call with
          | reported report =>
              exact ⟨drain, quiet, hentered.moves_eq, hentered.run, hentered.asked,
                halted_of_run hentered.run _ _ hstands rfl, hreads⟩
          | answered client reading allowed => exact hreads.elim
          | _ => cases hconclude
      | begin hroutine _ _ =>
          subst hmove
          cases hroutine
      | work hmoves _ =>
          subst hmove
          cases hmoves
      | _ => cases hmove

end Setup

end Turnstile.Service

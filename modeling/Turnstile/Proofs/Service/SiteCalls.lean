import Turnstile.Proofs.Service.Runs
import Turnstile.Proofs.Site.Reads

/-!
The calls of a service's callers at its site, from where they were entered to where they are
left. A flush that is over has read all that was recorded before it was entered.
-/

namespace Turnstile.Service

namespace System

variable {system after : System σ} {move : Move} {thread : Thread} {index : Nat}
  {question : Question} {rest : Bool → Pool.Routine Question} {call next : Site.Call}

def Move.entersSite : Move → Bool
  | .enter _ | .tick _ => true
  | .dispatch _ | .use _ | .shutdown | .drop | .clock _ | .release _ | .worker .. | .caller ..
  | .wake _ | .answer _ | .part .. | .leave _ | .endFlusher _ => false

theorem moves_visit (system : System σ) (visits : Visits) (hmove : move.entersSite = false) :
    ∃ added, (system.visit move visits).moves = visits.moves ++ added ∧
      ∀ visited ∈ added, visited.isCall = false := by
  have hnone (visited : Site.System.Move) (hmem : visited ∈ []) : visited.isCall = false :=
    absurd hmem List.not_mem_nil
  cases move with
  | clock step => exact ⟨[.clock step], rfl, by simp [Site.System.Move.isCall]⟩
  | part thread order =>
      exact ⟨[.part (visits.places thread) order], rfl, by simp [Site.System.Move.isCall]⟩
  | enter thread => cases hmove
  | tick index => cases hmove
  | _ => exact ⟨[], (List.append_nil _).symm, hnone⟩

theorem visits_prefix_visit (system : System σ) (move : Move) (visits : Visits) :
    visits.moves <+: (system.visit move visits).moves := by
  cases move with
  | clock step => exact List.prefix_append _ _
  | part thread order => exact List.prefix_append _ _
  | tick index => exact List.prefix_append _ _
  | enter thread =>
      simp only [visit]
      split
      · exact List.prefix_append _ _
      · exact List.prefix_refl _
  | _ => exact List.prefix_refl _

theorem places_visit_of_ne (visits : Visits) (hother : move.thread? ≠ some thread) :
    (system.visit move visits).places thread = visits.places thread := by
  cases move with
  | enter other =>
      simp only [visit]
      split
      · exact Function.update_of_ne (fun hsame => hother (congrArg some hsame.symm)) _ _
      · rfl
  | tick index => exact Function.update_of_ne (fun hsame => hother (congrArg some hsame.symm)) _ _
  | _ => rfl

theorem call?_eq_none_of_step (hstep : step? system move = some after)
    (hmove : move.entersSite = false) (hnone : system.call? thread = none) :
    after.call? thread = none := by
  rcases Decidable.em (move.thread? = some thread) with hmine | hother
  · cases transition_of_step hstep with
    | enter _ _ _ _ => cases hmove
    | tick _ => cases hmove
    | part hcall _ =>
        cases hmine
        cases hnone.symm.trans hcall
    | leave hcall _ _ _ =>
        cases hmine
        cases hnone.symm.trans hcall
    | rest hcall =>
        cases hmine
        cases hnone.symm.trans hcall
    | begin _ _ _ => exact hnone
    | drop _ _ => exact hnone
    | work _ _ => exact hnone
    | hear _ _ _ _ => exact hnone
    | endFlusher _ => exact hnone
    | clock => exact hnone
    | release => exact hnone
  · rw [call?_of_step hstep hother, hnone]

theorem enter_of_step (hstep : step? system (.enter (.caller index)) = some after)
    (hstage : system.stage? (.caller index) = some (.ready (.ask question rest))) :
    after.stage? (.caller index) = some (.ready (.ask question rest)) ∧
      after.call? (.caller index) = question.call? := by
  generalize hmove : Move.enter (.caller index) = move at hstep
  cases transition_of_step hstep with
  | @enter seat _ _ call hnone hasks hcall _ =>
      obtain rfl : seat = .caller index := Thread.inPool_inj (Move.enter.inj hmove).symm
      cases hstage.symm.trans hasks
      refine ⟨hstage, ?_⟩
      rw [call?_enterCall hnone, hcall]
      exact Function.update_self ..
  | begin hroutine _ _ =>
      subst hmove
      cases hroutine
  | work hmoves _ =>
      subst hmove
      cases hmoves
  | _ => cases hmove

theorem inCall_of_step (hstep : step? system move = some after)
    (hstage : system.stage? (.caller index) = some (.ready (.ask question rest)))
    (hcalls : question.call?.isSome = true) (hcall : system.call? (.caller index) = some call) :
    (∃ next, after.stage? (.caller index) = some (.ready (.ask question rest)) ∧
        after.call? (.caller index) = some next ∧
        ∀ visits, (system.visit move visits).places (.caller index) =
          visits.places (.caller index)) ∨
      move = .leave (.caller index) ∧ after.call? (.caller index) = none := by
  rcases Decidable.em (move.thread? = some (.caller index)) with hmine | hother
  · cases transition_of_step hstep with
    | begin hroutine _ _ => cases move <;> cases hmine <;> cases hroutine
    | drop _ _ => cases hmine
    | work hmove hpool =>
        cases worked_of_step hmove hpool with
        | advance hstands hadvance _ =>
            cases hmine
            cases hstage.symm.trans hstands
            cases hadvance
        | serve _ _ _ => cases hmine
        | wake _ => cases hmine
    | @hear seat _ _ _ _ _ hasks hanswer _ _ =>
        obtain rfl : seat = .caller index := Thread.inPool_inj (Option.some.inj hmine)
        cases hstage.symm.trans hasks
        cases hcalls.symm.trans (congrArg Option.isSome (Front.answerAtOnce?_eq_some hanswer).1)
    | @enter seat _ _ _ hnone _ _ _ =>
        obtain rfl : seat = .caller index := Thread.inPool_inj (Option.some.inj hmine)
        cases hcall.symm.trans hnone
    | @part _ _ _ next site hstill _ =>
        cases hmine
        have hcalls := call?_part hstill next site
        refine .inl ⟨next, hstage, ?_, fun _ => rfl⟩
        rw [hcalls, Function.update_self]
    | @leave seat _ _ _ _ _ _ hstill _ _ _ =>
        obtain rfl : seat = .caller index := Thread.inPool_inj (Option.some.inj hmine)
        refine .inr ⟨rfl, ?_⟩
        rw [call?_leaveCall]
        exact Function.update_self ..
    | rest _ => cases hmine
    | tick _ => cases hmine
    | endFlusher _ => cases hmine
    | clock => cases hmine
    | release => cases hmine
  · exact .inl ⟨call, stage?_of_step hstep hother hstage, (call?_of_step hstep hother).trans hcall,
      fun visits => places_visit_of_ne visits hother⟩

theorem exists_leave {last : System σ} {moves : List Move}
    (hstage : system.stage? (.caller index) = some (.ready (.ask question rest)))
    (hcalls : question.call?.isSome = true) (hcall : system.call? (.caller index) = some call)
    (hrun : system.run? moves = some last)
    (hlast : last.stage? (.caller index) ≠ some (.ready (.ask question rest))) :
    ∃ during since left, moves = during ++ .leave (.caller index) :: since ∧
      system.run? (during ++ [.leave (.caller index)]) = some left ∧
      left.call? (.caller index) = none ∧ left.run? since = some last := by
  induction moves generalizing system call with
  | nil =>
      cases hrun
      exact absurd hstage hlast
  | cons move later ih =>
      simp only [run?, Steps.run?_cons, Option.bind_eq_some_iff] at hrun
      obtain ⟨after, hstep, hlater⟩ := hrun
      rcases inCall_of_step hstep hstage hcalls hcall with ⟨next, hstays, hnext, -⟩ | ⟨rfl, hleft⟩
      · obtain ⟨during, since, left, rfl, hduring, hnone, hsince⟩ := ih hstays hnext hlater
        refine ⟨move :: during, since, left, rfl, ?_, hnone, hsince⟩
        rw [List.cons_append, run?, Steps.run?_cons, hstep]
        exact hduring
      · refine ⟨[], later, after, rfl, ?_, hleft, hlater⟩
        rw [List.nil_append, run?, Steps.run?_cons, hstep]
        rfl

/-- A caller that has begun a call at the site has asked for one. -/
theorem enters_of_step (hstep : step? system move = some after)
    (hnone : system.call? (.caller index) = none)
    (hcall : after.call? (.caller index) = some call) :
    move = .enter (.caller index) ∧ ∃ question rest,
      system.stage? (.caller index) = some (.ready (.ask question rest)) ∧
      after.stage? (.caller index) = some (.ready (.ask question rest)) ∧
      question.call? = some call := by
  have hmine : move.thread? = some (.caller index) := by
    by_contra hother
    cases hnone.symm.trans ((call?_of_step hstep hother).symm.trans hcall)
  have henters : move.entersSite = true := by
    by_contra hnot
    cases hcall.symm.trans (call?_eq_none_of_step hstep (Bool.eq_false_iff.mpr hnot) hnone)
  cases transition_of_step hstep with
  | @enter seat _ _ _ hfree hstage hbegins _ =>
      obtain rfl : seat = .caller index := Thread.inPool_inj (Option.some.inj hmine)
      rw [call?_enterCall hfree] at hcall
      cases (Function.update_self ..).symm.trans hcall
      exact ⟨rfl, _, _, hstage, hstage, hbegins⟩
  | tick _ => cases hmine
  | begin hroutine _ _ => cases move <;> cases henters <;> cases hroutine
  | work hmove _ => cases move <;> cases henters <;> cases hmove
  | drop _ _ => cases henters
  | hear _ _ _ _ => cases henters
  | part _ _ => cases henters
  | leave _ _ _ _ => cases henters
  | rest _ => cases henters
  | endFlusher _ => cases henters
  | clock => cases henters
  | release => cases henters

end System

namespace Setup

variable {setup : Setup σ} {before moves later : List System.Move} {system quiet last : System σ}
  {index : Nat} {thread : Thread} {call : Site.Call}

theorem visits_prefix (hbefore : setup.start.run? before = some system)
    (hlater : system.run? later = some last) :
    (setup.start.visits before).moves <+: (setup.start.visits (before ++ later)).moves := by
  let Holds (moves : List System.Move) (_ : System σ) : Prop :=
    (setup.start.visits before).moves <+: (setup.start.visits moves).moves
  have hprefix : Holds (before ++ later) last :=
    Steps.run_induction_append hbefore hlater (List.prefix_refl _)
        fun moves state hmoves h move _ next hstep => by
      change _ <+: _
      rw [visits_concat hmoves hstep]
      exact h.trans (state.visits_prefix_visit move _)
  exact hprefix

/-- The site of a service goes on as one that goes through the visits that are added. -/
theorem run?_of_visits {added : List Site.System.Move} {mirror reflection : Site.System σ}
    (hbefore : System.Mirrored setup.site system (setup.start.visits before) mirror)
    (hlater : System.Mirrored setup.site last (setup.start.visits moves) reflection)
    (hadded : (setup.start.visits moves).moves = (setup.start.visits before).moves ++ added) :
    mirror.run? added = some reflection := by
  have hall := hlater.run
  rw [hadded, Site.System.run?, Steps.run?_append] at hall
  obtain ⟨middle, hmiddle, hrest⟩ := Option.bind_eq_some_iff.mp hall
  cases hbefore.run.symm.trans hmiddle
  exact hrest

theorem onward_of_run (hbefore : setup.start.run? before = some system)
    (hlater : system.run? later = some last) (client : String) :
    (setup.siteLedger before).recordedOf client <+:
        (setup.siteLedger (before ++ later)).recordedOf client ∧
      (system.service.front.site.controller.ring client).read ≤
        (last.service.front.site.controller.ring client).read := by
  obtain ⟨mirror, hmirror⟩ := mirrored_of_run hbefore
  obtain ⟨reflection, hreflection⟩ := mirrored_of_run (Steps.run?_append_of_run? hbefore hlater)
  obtain ⟨added, hadded⟩ := visits_prefix hbefore hlater
  have honward := Site.System.onward_of_run hmirror.run
    (run?_of_visits hmirror hreflection hadded.symm) client
  rw [siteLedger, siteLedger, ← hadded, ← hmirror.site_eq, ← hreflection.site_eq]
  exact ⟨honward.recorded, honward.read_le⟩

/-- Where a caller has entered the call it is in. -/
structure Entered (setup : Setup σ) (moves : List System.Move) (last : System σ) (index : Nat)
    (drain : List System.Move) (quiet : System σ) (question : Question) : Prop where
  moves_eq : ∃ rest, moves = drain ++ .enter (.caller index) :: rest
  run : setup.start.run? drain = some quiet
  asked : quiet.question? (.caller index) = some question
  calls : question.call?.isSome = true
  still : last.question? (.caller index) = some question
  place_eq : (setup.start.visits moves).places (.caller index) = (setup.start.visits drain).count

theorem entered_concat {move : System.Move} {after : System σ}
    (hmoves : setup.start.run? moves = some system)
    (h : ∀ call, system.call? (.caller index) = some call →
      ∃ drain quiet question, Entered setup moves system index drain quiet question)
    (hstep : System.step? system move = some after)
    (hcall : after.call? (.caller index) = some call) :
    ∃ drain quiet question, Entered setup (moves ++ [move]) after index drain quiet question := by
  have hvisits := visits_concat hmoves hstep
  cases hbefore : system.call? (.caller index) with
  | none =>
      obtain ⟨rfl, question, rest, hstage, hstays, hbegins⟩ :=
        System.enters_of_step hstep hbefore hcall
      have hasked := System.question?_of_stage hstage
      refine ⟨moves, system, question, ⟨[], rfl⟩, hmoves, hasked,
        Option.isSome_of_eq_some hbegins, System.question?_of_stage hstays, ?_⟩
      rw [hvisits]
      simp only [System.visit, hasked, Option.bind_some, hbegins]
      exact Function.update_self ..
  | some current =>
      obtain ⟨drain, quiet, question, hentered⟩ := h current hbefore
      obtain ⟨rest, hstage⟩ := System.stage?_of_question hentered.still
      rcases System.inCall_of_step hstep hstage hentered.calls hbefore with
        ⟨_, hstays, -, hplace⟩ | ⟨-, hleft⟩
      · obtain ⟨since, rfl⟩ := hentered.moves_eq
        refine ⟨drain, quiet, question, ⟨since ++ [move], by simp⟩, hentered.run, hentered.asked,
          hentered.calls, System.question?_of_stage hstays, ?_⟩
        rw [hvisits, hplace, hentered.place_eq]
      · cases hleft.symm.trans hcall

theorem entered_of_run (hrun : setup.start.run? moves = some last)
    (hcall : last.call? (.caller index) = some call) :
    ∃ drain quiet question, Entered setup moves last index drain quiet question := by
  let Holds (moves : List System.Move) (system : System σ) : Prop :=
    ∀ call, system.call? (.caller index) = some call →
      ∃ drain quiet question, Entered setup moves system index drain quiet question
  have hfirst : Holds [] setup.start := fun _ hcall => by cases hcall
  have hentered : Holds moves last :=
    Steps.run_induction hrun hfirst fun _ _ hbefore h _ _ _ hstep _ hcall =>
      entered_concat hbefore h hstep hcall
  exact hentered call hcall

theorem Entered.reads {drain : List System.Move} {question : Question}
    (h : Entered setup moves last index drain quiet question)
    (hrun : setup.start.run? moves = some last) (hflush : question.call? = some .listing)
    (hcall : last.call? (.caller index) = some call) :
    call.Reads (fun client => ((setup.siteLedger drain).recordedOf client).length)
      last.service.front.site.controller := by
  obtain ⟨rest, rfl⟩ := h.moves_eq
  obtain ⟨entered, hstep, hrest⟩ : ∃ entered,
      System.step? quiet (.enter (.caller index)) = some entered ∧
        entered.run? rest = some last := by
    rw [System.run?, Steps.run?_append] at hrun
    obtain ⟨middle, hmiddle, hlater⟩ := Option.bind_eq_some_iff.mp hrun
    cases h.run.symm.trans hmiddle
    exact Option.bind_eq_some_iff.mp hlater
  have hbegun : setup.start.run? (drain ++ [.enter (.caller index)]) = some entered :=
    Steps.run?_append_of_run? h.run (by rw [Steps.run?_cons, hstep]; rfl)
  obtain ⟨added, hadded⟩ := visits_prefix hbegun hrest
  have hmoves : (setup.start.visits (drain ++ .enter (.caller index) :: rest)).moves =
      (setup.start.visits drain).moves ++ .flush :: added := by
    rw [visits_concat h.run hstep] at hadded
    simp only [System.visit, h.asked, Option.bind_some, hflush, Visits.enter] at hadded
    simpa [Site.Call.requested?] using hadded.symm
  obtain ⟨mirror, hmirror⟩ := mirrored_of_run h.run
  obtain ⟨reflection, hreflection⟩ := mirrored_of_run hrun
  obtain ⟨same, hsame, hreads⟩ := Site.System.reads_of_flush hmirror.run
    (run?_of_visits hmirror hreflection hmoves)
  have hplaced := hreflection.placed _ call hcall
  rw [h.place_eq, ← hmirror.count_eq, hsame] at hplaced
  cases hplaced
  rw [← hreflection.site_eq]
  exact hreads

end Setup

end Turnstile.Service

import Turnstile.Proofs.Service.Halt

/-!
Which handlers have been run. A handler runs only if its dispatch was accepted, and once
the pool is stopped each of those has run, one time and on the batch of its own dispatch.
-/

namespace Turnstile

namespace Service

theorem Course.Decided.answer?_eq {validator : Validator} {course : Course} {outcome : Outcome}
    (h : course.Decided validator outcome) :
    outcome.isAccepted = true ↔ course.answer? = some (.ok ()) := by
  cases h with
  | rateLimited _ hanswer => simp [hanswer, Outcome.isAccepted]
  | invalid _ _ hanswer => simp [hanswer, Outcome.isAccepted]
  | @submitted answer _ _ hanswer =>
      rw [hanswer]
      cases answer <;> simp [Outcome.isAccepted, Outcome.ofSubmission]

namespace Setup

variable {setup : Setup σ} {moves : List System.Move} {system : System σ}

def runsOf (setup : Setup σ) (moves : List System.Move) (index : Nat) :
    List (Nat × Pool.Routine Question) :=
  (setup.poolLedger moves).begun.filter fun run =>
    (setup.journal moves).owners[run.1]? = some (some index)

def RanOnce (setup : Setup σ) (moves : List System.Move) (index : Nat)
    (job : Pool.Routine Question) : Prop :=
  ∃ number, setup.runsOf moves index = [(number, job)] ∧
    (setup.poolLedger moves).finished.count number = 1

theorem runsOf_eq_nil {strict : Bool} {index : Nat} {course : Course} {outcome : Outcome}
    (hkept : Kept setup strict moves system)
    (hcourse : (setup.journal moves).courses[index]? = some course)
    (houtcome : course.outcome? = some outcome) (hrefused : outcome.isAccepted = false) :
    setup.runsOf moves index = [] := by
  apply List.filter_eq_nil_iff.mpr
  intro run _ howner
  obtain ⟨dispatch, haccepted, _⟩ := hkept.owned.job_eq run.1 index (of_decide_eq_true howner)
  have hdecided := hkept.conducted.decided course (List.mem_of_getElem? hcourse) outcome houtcome
  have hanswer : course.answer? ≠ some (.ok ()) := fun hok => by
    rw [hdecided.answer?_eq.mpr hok] at hrefused
    cases hrefused
  rw [Journal.acceptedAt, hcourse, Option.bind_some, Course.accepted?] at haccepted
  split at haccepted
  · exact hanswer ‹_›
  · cases haccepted
  · cases haccepted

theorem ranOnce_of_stopped {strict : Bool} {index : Nat} {course : Course} {outcome : Outcome}
    (hkept : Kept setup strict moves system) (hrun : setup.start.run? moves = some system)
    (hstopped : system.service.pool.phase = .stopped)
    (hcourse : (setup.journal moves).courses[index]? = some course)
    (houtcome : course.outcome? = some outcome) (haccepted : outcome.isAccepted = true) :
    setup.RanOnce moves index (course.dispatch.job setup.validator) := by
  have hdecided := hkept.conducted.decided course (List.mem_of_getElem? hcourse) outcome houtcome
  have hdispatch : (setup.journal moves).acceptedAt index = some course.dispatch := by
    rw [Journal.acceptedAt, hcourse, Option.bind_some, Course.accepted?,
      hdecided.answer?_eq.mp haccepted]
  obtain ⟨number, hnumber⟩ := hkept.owned.owner index course.dispatch hdispatch
  obtain ⟨made, hmade, hjob⟩ := hkept.owned.job_eq number index hnumber
  cases hdispatch.symm.trans hmade
  have hall := allRun_of_stopped hrun hstopped
  have hexact := (orderly_of_run hrun).exactlyOnce
  have hrange : number ∈ List.range (setup.poolLedger moves).accepted.length :=
    List.mem_range.mpr (List.getElem?_eq_some_iff.mp hjob).1
  have hbegun : (number, course.dispatch.job setup.validator) ∈ (setup.poolLedger moves).begun := by
    obtain ⟨⟨_, ran⟩, hmem, rfl⟩ := List.mem_map.mp (hall.begun_perm.mem_iff.mpr hrange)
    have hsame : (setup.poolLedger moves).accepted[_]? = some ran := hexact.begun_accepted _ hmem
    cases hjob.symm.trans hsame
    exact hmem
  refine ⟨number, ?_, ?_⟩
  · -- The numbers of the jobs of this dispatch are those equal to this one.
    rw [← filter_fst_eq hexact.begun_nodup hbegun, runsOf]
    apply List.filter_congr
    intro run _
    have hiff : (setup.journal moves).owners[run.1]? = some (some index) ↔ run.1 = number :=
      ⟨fun howner => hkept.owned.once _ _ _ howner hnumber, fun hsame => hsame ▸ hnumber⟩
    simp only [hiff]
  · rw [hall.finished_perm.count_eq]
    exact List.count_eq_one_of_mem List.nodup_range hrange

end Setup

end Service

end Turnstile

import Turnstile.Proofs.Service.Courses

/-!
Every thread of a service keeps to its course, in every run: those that dispatch, and
those that run handlers, use the service or shut it down in between.
-/

namespace Turnstile.Service

open Function (update)

namespace Conducted

variable {strict : Bool} {validator : Validator} {stage? : Thread → Option (Pool.Stage Question)}
  {call? : Thread → Option Site.Call} {journal later : Journal} {thread : Thread}
  {stage next : Pool.Stage Question}

theorem of_eq (h : Conducted strict validator stage? call? journal)
    (hcourses : later.courses = journal.courses) (hcurrent : later.current = journal.current) :
    Conducted strict validator stage? call? later where
  stance := by
    rw [hcourses, hcurrent]
    exact h.stance
  apart := hcurrent ▸ h.apart
  decided := hcourses ▸ h.decided

theorem addStage_of_none (h : Conducted strict validator stage? call? journal)
    (hcurrent : journal.current thread = none) (pool : Pool Question)
    (stage : Pool.Stage Question) :
    Conducted strict validator stage? call? (journal.addStage thread pool stage) := by
  have hsame := journal.modify_of_none (fun course => course.addStage pool stage) hcurrent
  refine h.of_eq ?_ (journal.current_addStage thread pool stage)
  rw [journal.courses_addStage, hsame]

theorem stance_of_stage (h : Conducted strict validator stage? call? journal)
    (hstage : stage? thread = some stage) :
    (journal.current thread = none ∧ call? thread = none ∧
        Idle strict validator thread.isOutside stage) ∨
      (∃ question rest call, stage = .ready (.ask question rest) ∧
        journal.current thread = none ∧ call? thread = some call ∧
        Left strict validator thread.isOutside (.ask question rest) ∧
        (∀ dispatch, question ≠ .admission dispatch) ∧ question.call?.isSome = true ∧
        (strict = true → call.requested? = none)) ∨
      ∃ index course, journal.current thread = some index ∧
        journal.courses[index]? = some course ∧
        Underway strict validator course stage (call? thread) := by
  have hstance := h.stance thread
  rw [hstage] at hstance
  generalize journal.current thread = current? at hstance ⊢
  generalize call? thread = calling at hstance ⊢
  cases hstance with
  | idle hidle => exact .inl ⟨rfl, rfl, hidle⟩
  | calling hleft hquestion hcalls hrequested =>
      exact .inr (.inl ⟨_, _, _, rfl, rfl, rfl, hleft, hquestion, hcalls, hrequested⟩)
  | underway hcourse hunderway => exact .inr (.inr ⟨_, _, rfl, hcourse, hunderway⟩)

theorem call?_of_finish {ending : Pool.Ending}
    (h : Conducted strict validator stage? call? journal)
    (hstage : stage? thread = some (.ready (.finish ending))) : call? thread = none := by
  rcases h.stance_of_stage hstage with ⟨_, hnone, _⟩ | ⟨_, _, _, hsame, _⟩ |
    ⟨_, _, _, _, hunderway⟩
  · exact hnone
  · cases hsame
  · cases hunderway

theorem current_of_none (h : Conducted strict validator stage? call? journal)
    (hstage : stage? thread = none) : journal.current thread = none := by
  have hstance := h.stance thread
  rw [hstage] at hstance
  generalize journal.current thread = current? at hstance ⊢
  generalize call? thread = calling at hstance
  cases hstance with
  | away => rfl
  | flushing _ => rfl

theorem away (seat : Pool.Thread) (h : Conducted strict validator stage? call? journal)
    (hstage : stage? (.inPool seat) = none) :
    journal.current (.inPool seat) = none ∧ call? (.inPool seat) = none := by
  have hstance := h.stance (.inPool seat)
  rw [hstage] at hstance
  generalize journal.current (.inPool seat) = current? at hstance ⊢
  generalize call? (.inPool seat) = calling at hstance ⊢
  generalize hthread : Thread.inPool seat = thread at hstance
  cases hstance with
  | away => exact ⟨rfl, rfl⟩
  | flushing _ => cases seat <;> cases hthread

theorem advance {pool after : Pool Question} {seat : Pool.Seat} {chosen : Nat}
    (h : Conducted strict validator stage? call? journal) (hstage : stage? thread = some stage)
    (hadvance : pool.advance? seat chosen stage = some (next, after)) :
    Conducted strict validator (update stage? thread (some next)) call?
      (journal.addStage thread pool stage) := by
  rcases h.stance_of_stage hstage with ⟨hcurrent, hcall, hidle⟩ | ⟨_, _, _, rfl, _⟩ |
    ⟨index, course, hcurrent, hcourse, hunderway⟩
  · have hmoved := h.idle hcurrent (.idle (hidle.advance hadvance))
    rw [← hcall, Function.update_eq_self] at hmoved
    exact hmoved.addStage_of_none hcurrent pool stage
  · cases hadvance
  · obtain ⟨hnone, hnext⟩ := hunderway.advance hadvance
    have hmoved := h.goOn (fun course => course.addStage pool stage) hcurrent hcourse hnext
    rw [← hnone, Function.update_eq_self] at hmoved
    exact hmoved.of_eq (journal.courses_addStage thread pool stage) (by simp)

end Conducted

namespace System

variable {system after : System σ} {strict : Bool} {validator : Validator} {journal : Journal}
  {move : Move}

theorem note_worker {chosen index : Nat} {stage : Pool.Stage Question}
    (hstage : system.stage? (.worker index) = some stage) (journal : Journal) :
    system.note (.worker chosen index) journal =
      journal.addStage (.worker index) system.service.pool stage := by
  simp only [note, hstage]

theorem conducted_serve {chosen index : Nat} {old new : Pool.Worker Question} {left : Pool Question}
    (h : Conducted strict validator system.stage? system.call? journal)
    (hold : system.service.system.pool.workers[index]? = some old)
    (hserve : Pool.Serve system.service.system.pool chosen index old new left)
    (hheld : ∀ job, old = .fetched job → Written strict validator job) :
    Conducted strict validator (update system.stage? (.worker index) new.stage?) system.call?
      (system.note (.worker chosen index) journal) := by
  have hstage : system.stage? (.worker index) = old.stage? := Pool.System.stage?_of_worker hold
  have hstay (hnone : old.stage? = none) (hnew : new.stage? = none) :
      Conducted strict validator (update system.stage? (.worker index) new.stage?) system.call?
        (system.note (.worker chosen index) journal) := by
    rw [hnew, ← hnone, ← hstage, Function.update_eq_self, note, hstage, hnone]
    exact h
  cases hserve with
  | take _ => exact hstay rfl rfl
  | park _ _ => exact hstay rfl rfl
  | leave _ _ => exact hstay rfl rfl
  | count => exact hstay rfl rfl
  | @begin job =>
      obtain ⟨hcurrent, hcall⟩ : journal.current (.worker index) = none ∧
          system.call? (.worker index) = none := Conducted.away (.worker index) h hstage
      have hbegun := h.idle hcurrent (.idle (.ready (.job (hheld job rfl))))
      rw [← hcall, Function.update_eq_self] at hbegun
      rw [note, hstage]
      exact hbegun
  | @finish ending =>
      rw [note_worker hstage]
      rcases h.stance_of_stage hstage with ⟨hcurrent, hcall, _⟩ | ⟨_, _, _, hasks, _⟩ |
        ⟨_, _, _, _, hunderway⟩
      · have hended := h.idle hcurrent .away
        rw [← hcall, Function.update_eq_self] at hended
        exact hended.addStage_of_none hcurrent _ _
      · cases hasks
      · cases hunderway
  | goOn hadvance =>
      rw [note_worker hstage]
      exact h.advance hstage hadvance

theorem conducted_work {poolMove : Pool.System.Move Question} {after : Pool.System Question}
    (h : Conducted strict validator system.stage? system.call? journal)
    (hmove : move.work? = some poolMove)
    (hstep : Pool.System.step? system.service.system poolMove = some after)
    (hheld : ∀ (index : Nat) job,
      system.service.system.pool.workers[index]? = some (Pool.Worker.fetched job) →
      Written strict validator job) :
    Conducted strict validator (stage? { system with service.system := after }) system.call?
      (system.note move journal) := by
  cases worked_of_step hmove hstep with
  | serve hold hserve hstages =>
      rw [hstages]
      exact conducted_serve h hold hserve fun job hsame => hheld _ job (hsame ▸ hold)
  | advance hstage hadvance hstages =>
      rw [hstages]
      simp only [note, hstage]
      exact h.advance hstage hadvance
  | wake hstages =>
      rw [hstages]
      exact h

theorem note_answer {thread : Thread} {question : Question}
    (hquestion : system.question? thread = some question)
    (hother : ∀ outcome, question ≠ .count outcome) (journal : Journal) :
    system.note (.answer thread) journal = journal := by
  simp only [note, hquestion]
  split
  · rename_i outcome hsame
    exact absurd (Option.some.inj hsame) (hother outcome)
  · rfl

theorem conducted_hear {thread : Pool.Thread} {question : Question}
    {rest : Bool → Pool.Routine Question} {answer : Bool} {front : Front σ}
    (h : Conducted strict validator system.stage? system.call? journal)
    (hstage : system.stage? (.inPool thread) = some (.ready (.ask question rest)))
    (hanswer : system.service.front.answerAtOnce? question = some (answer, front)) :
    Conducted strict validator
      (update system.stage? (.inPool thread) (some (.ready (rest answer)))) system.call?
      (system.note (.answer (.inPool thread)) journal) := by
  have hcall := (Front.answerAtOnce?_eq_some hanswer).1
  have hquestion (dispatch : Dispatch) : question ≠ .admission dispatch := by
    rintro rfl
    cases hcall
  rcases h.stance_of_stage hstage with ⟨hcurrent, hnone, hidle⟩ |
    ⟨_, _, _, hsame, _, _, _, _, hcalls, _⟩ |
    ⟨index, course, hcurrent, hcourse, hunderway⟩
  · cases hidle with
    | ready hleft =>
        have hheard := h.idle hcurrent (.idle (.ready (hleft.of_ask hquestion answer)))
        rw [← hnone, Function.update_eq_self] at hheard
        rw [note_answer (question?_of_stage hstage) hleft.ne_count]
        exact hheard
  · cases hsame
    rw [hcall] at hcalls
    cases hcalls
  · rcases hunderway.of_ask with ⟨hsame, _⟩ | ⟨outcome, rfl, hnone, hdecided, hnext⟩
    · exact absurd hsame (hquestion _)
    · have hheard := h.conclude hcurrent hcourse hdecided (.idle (.ready (.job (hnext answer))))
      rw [← hnone, Function.update_eq_self] at hheard
      have hnote : system.note (.answer (.inPool thread)) journal =
          journal.conclude (.inPool thread) outcome := by
        simp only [note, question?_of_stage hstage]
      rw [hnote]
      exact hheard

theorem note_enter {thread : Thread} {question : Question}
    (hquestion : system.question? thread = some question)
    (hother : ∀ dispatch, question ≠ .admission dispatch) (journal : Journal) :
    system.note (.enter thread) journal = journal := by
  simp only [note, hquestion]
  split
  · rename_i dispatch hsame
    exact absurd (Option.some.inj hsame) (hother dispatch)
  · rfl

theorem conducted_enter {thread : Pool.Thread} {question : Question}
    {rest : Bool → Pool.Routine Question} {call : Site.Call}
    (h : Conducted strict validator system.stage? system.call? journal)
    (hnone : system.call? (.inPool thread) = none)
    (hstage : system.stage? (.inPool thread) = some (.ready (.ask question rest)))
    (hcall : question.call? = some call) :
    Conducted strict validator system.stage?
      (update system.call? (.inPool thread) (some call))
      (system.note (.enter (.inPool thread)) journal) := by
  have hquestion := question?_of_stage hstage
  have hstays := Function.update_eq_self (Thread.inPool thread) system.stage?
  rw [hstage] at hstays
  rw [← hstays]
  rcases h.stance_of_stage hstage with ⟨hcurrent, _, hidle⟩ | ⟨_, _, _, _, _, hsome, _⟩ |
    ⟨index, course, hcurrent, hcourse, hunderway⟩
  · cases hidle with
    | ready hleft =>
        rcases Classical.em (∃ dispatch, question = .admission dispatch) with
          ⟨dispatch, rfl⟩ | hother
        · cases hcall
          obtain ⟨next, rfl, hjob, hnext⟩ := hleft.of_admission
          simp only [note, hquestion]
          exact h.begin (.admission hnext hjob rfl rfl rfl rfl rfl)
        · have hnot (dispatch : Dispatch) : question ≠ .admission dispatch :=
            fun hsame => hother ⟨dispatch, hsame⟩
          rw [note_enter hquestion hnot]
          exact h.idle hcurrent (.calling hleft hnot (Option.isSome_of_eq_some hcall)
            (hleft.requested?_of_ask hnot hcall))
  · rw [hnone] at hsome
    cases hsome
  · rw [hnone] at hunderway
    rcases hunderway.of_ask with ⟨_, hsome⟩ | ⟨outcome, rfl, _⟩
    · cases hsome
    · cases hcall

theorem conducted_part {thread : Thread} {order : List String} {call next : Site.Call}
    {site : Site σ} (h : Conducted strict validator system.stage? system.call? journal)
    (hcall : system.call? thread = some call)
    (hpart : system.service.front.site.part? order call = some (next, site)) :
    Conducted strict validator system.stage? (update system.call? thread (some next))
      (system.note (.part thread order) journal) := by
  have hrequested := Site.requested?_part hpart
  have hstance := h.stance thread
  rw [hcall] at hstance
  have hstays := Function.update_eq_self thread system.stage?
  rw [← hstays]
  simp only [note, hcall]
  generalize hstage : system.stage? thread = stage? at hstance ⊢
  generalize hcurrent : journal.current thread = current? at hstance
  cases hstance with
  | flushing hnone =>
      rw [journal.modify_of_none _ hcurrent]
      exact h.idle hcurrent (.flushing (hrequested.trans hnone))
  | calling hleft hquestion hcalls hnone =>
      rw [journal.modify_of_none _ hcurrent]
      exact h.idle hcurrent (.calling hleft hquestion hcalls fun hstrict =>
        hrequested.trans (hnone hstrict))
  | underway hcourse hunderway => exact h.goOn _ hcurrent hcourse (hunderway.part hpart)

theorem conducted_leave {thread : Pool.Thread} {call : Site.Call} {question : Question}
    {rest : Bool → Pool.Routine Question} {answer : Bool} {front : Front σ}
    (h : Conducted strict validator system.stage? system.call? journal)
    (hcall : system.call? (.inPool thread) = some call)
    (hstage : system.stage? (.inPool thread) = some (.ready (.ask question rest)))
    (hconclude : system.service.front.conclude? question call = some (answer, front)) :
    Conducted strict validator
      (update system.stage? (.inPool thread) (some (.ready (rest answer))))
      (update system.call? (.inPool thread) none) journal := by
  rcases h.stance_of_stage hstage with ⟨_, hnone, _⟩ |
    ⟨_, _, _, hsame, hcurrent, _, hleft, hquestion, _⟩ |
    ⟨index, course, hcurrent, hcourse, hunderway⟩
  · rw [hcall] at hnone
    cases hnone
  · cases hsame
    exact h.idle hcurrent (.idle (.ready (hleft.of_ask hquestion answer)))
  · rw [hcall] at hunderway
    have hadmitted := h.goOn id hcurrent hcourse (hunderway.admitted hconclude)
    refine hadmitted.of_eq ?_ (journal.current_modify _ id).symm
    rw [journal.courses_modify id hcurrent, List.modify_id]

theorem conducted_begin {routine : Pool.Routine Question}
    (h : Conducted strict validator system.stage? system.call? journal)
    (hleft : Left strict validator true routine) :
    Conducted strict validator (system.begin routine).stage? system.call? journal := by
  have hnew : system.stage? (.inPool (.caller system.service.system.callers.length)) = none :=
    system.service.system.stage?_call_self
  obtain ⟨hcurrent, hnone⟩ := Conducted.away _ h hnew
  have hbegun := h.idle hcurrent (.idle (.ready hleft))
  rw [← hnone, Function.update_eq_self] at hbegun
  rw [stage?_of_update (system.service.system.stage?_call routine)]
  exact hbegun

theorem left_of_routine? {routine : Pool.Routine Question} (hobeys : move.Obeys strict)
    (hroutine : move.routine? validator = some routine) : Left strict validator true routine := by
  cases move with
  | dispatch made =>
      cases hroutine
      exact .job ⟨made.alone, ⟨hobeys, fun _ => trivial⟩, rfl⟩
  | use wanted =>
      cases hroutine
      exact .job ⟨wanted.alone, ⟨hobeys, fun _ => trivial⟩, rfl⟩
  | shutdown =>
      cases hroutine
      exact .lock
  | drop =>
      cases hroutine
      exact .lock
  | _ => cases hroutine

/-- Whatever move is made, by whatever thread, all threads keep to their courses. -/
theorem conducted_step
    (h : Conducted strict system.service.front.validator system.stage? system.call? journal)
    (hheld : ∀ (index : Nat) job,
      system.service.system.pool.workers[index]? = some (Pool.Worker.fetched job) →
      Written strict system.service.front.validator job)
    (hobeys : move.Obeys strict) (hstep : step? system move = some after) :
    after.service.front.validator = system.service.front.validator ∧
      Conducted strict system.service.front.validator after.stage? after.call?
        (system.note move journal) := by
  cases transition_of_step hstep with
  | begin hroutine _ _ =>
      have hsame : system.note move journal = journal := by
        cases move <;> first | rfl | cases hroutine
      rw [hsame]
      exact ⟨rfl, conducted_begin h (left_of_routine? hobeys hroutine)⟩
  | drop _ _ => exact ⟨rfl, conducted_begin h .lock⟩
  | work hmove hpool => exact ⟨rfl, conducted_work h hmove hpool hheld⟩
  | hear hstage hanswer hpool _ =>
      obtain ⟨_, _, hvalidator, _⟩ := Front.answerAtOnce?_eq_some hanswer
      rw [stage?_hear _ hstage hpool]
      exact ⟨hvalidator, conducted_hear h hstage hanswer⟩
  | enter hnone hstage hcall _ =>
      rw [call?_enterCall hnone]
      exact ⟨rfl, conducted_enter h hnone hstage hcall⟩
  | part hcall hpart =>
      rw [call?_part hcall]
      exact ⟨rfl, conducted_part h hcall hpart⟩
  | @leave thread _ _ _ _ front _ hcall hstage hconclude hpool =>
      obtain ⟨_, _, hvalidator, _⟩ := Front.conclude?_eq_some hconclude
      have hleft := conducted_leave h hcall hstage hconclude
      rw [← stage?_hear (system.calls.filter fun entry => entry.1 ≠ .inPool thread) hstage
        hpool] at hleft
      rw [call?_leaveCall]
      exact ⟨hvalidator, hleft⟩
  | @rest index _ hcall =>
      have hcurrent : journal.current (.flusher index) = none := h.current_of_none rfl
      have hrested := h.idle hcurrent .away
      have hstays : update system.stage? (.flusher index) none = system.stage? :=
        Function.update_eq_self (Thread.flusher index) system.stage?
      rw [hstays] at hrested
      rw [call?_leaveCall]
      exact ⟨rfl, hrested⟩
  | @tick index hnone =>
      have hcurrent : journal.current (.flusher index) = none := h.current_of_none rfl
      have hticked := h.idle hcurrent (.flushing (rfl : Site.Call.listing.requested? = none))
      have hstays : update system.stage? (.flusher index) none = system.stage? :=
        Function.update_eq_self (Thread.flusher index) system.stage?
      rw [hstays] at hticked
      rw [call?_tick hnone]
      exact ⟨rfl, hticked⟩
  | endFlusher hended => exact ⟨(Front.endFlusher?_eq_some hended).2.1, h⟩
  | clock => exact ⟨rfl, h⟩
  | release => exact ⟨rfl, h⟩

end System

end Turnstile.Service

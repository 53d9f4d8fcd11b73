import Turnstile.Proofs.Service.Conduct

/-!
What the pool of a service has been asked to do, and by which dispatches. Every job
that a dispatch submits is its handler's, on its own batch, and is submitted once.
-/

namespace Turnstile

open Function (update)

namespace Pool

def System.Move.mover? : System.Move Question → Option Thread
  | .worker _ index => some (.worker index)
  | .caller _ index => some (.caller index)
  | .call _ | .answerWorker .. | .answerCaller .. | .wake _ => none

theorem Ledger.pushes_addWorker (ledger : Ledger Question) (pool : Pool Question) (index : Nat)
    (worker : Worker Question) :
    (ledger.addWorker pool index worker).pushes =
      (worker.stage?.elim ledger fun stage => ledger.addStage pool stage).pushes := by
  cases worker with
  | checking =>
      simp only [addWorker]
      split <;> rfl
  | working stage =>
      cases stage with
      | ready routine => cases routine <;> rfl
      | _ => rfl
  | parked => rfl
  | fetched job => rfl
  | ended ending => rfl
  | exited => rfl

theorem Ledger.accepted_addStage (ledger : Ledger Question) (pool : Pool Question)
    (stage : Stage Question) :
    (ledger.addStage pool stage).accepted = ledger.accepted ++ stage.enters pool := by
  cases stage with
  | ready routine =>
      cases routine with
      | submit job rest =>
          simp only [addStage, accepted, push, Stage.enters, List.filter_append, List.map_append]
          cases hanswer : (pool.enter job).1.isOk <;> simp [hanswer]
      | _ => exact (List.append_nil _).symm
  | _ => exact (List.append_nil _).symm

theorem Ledger.addStage_of_not_submit (ledger : Ledger Question) (pool : Pool Question)
    {stage : Stage Question} (h : ∀ job rest, stage ≠ .ready (.submit job rest)) :
    ledger.addStage pool stage = ledger := by
  cases stage with
  | ready routine =>
      cases routine with
      | submit job rest => exact absurd rfl (h job rest)
      | _ => rfl
  | _ => rfl

theorem Stage.submits_of_mem_enters {pool : Pool Question} {stage : Stage Question}
    {job : Routine Question} (h : job ∈ stage.enters pool) :
    ∃ rest, stage = .ready (.submit job rest) := by
  unfold Stage.enters at h
  split at h
  · split at h
    · rw [List.mem_singleton.mp h]
      exact ⟨_, rfl⟩
    · cases h
  · cases h

theorem System.pushes_note (system : System Question) (move : Move Question)
    (ledger : Ledger Question) :
    (note system move ledger).pushes =
      ((move.mover?.bind system.stage?).elim ledger fun stage =>
        ledger.addStage system.pool stage).pushes := by
  cases move with
  | worker chosen index =>
      simp only [note, Move.mover?, Option.bind_some, stage?]
      cases system.pool.workers[index]? with
      | none => rfl
      | some worker => exact ledger.pushes_addWorker system.pool index worker
  | caller chosen index =>
      simp only [note, Move.mover?, Option.bind_some, stage?]
      cases system.callers[index]? <;> rfl
  | call routine => rfl
  | answerWorker index answer => rfl
  | answerCaller index answer => rfl
  | wake index => rfl

end Pool

namespace Service

namespace System

def Move.mover? : Move → Option Thread
  | .worker _ index => some (.worker index)
  | .caller _ index => some (.caller index)
  | .dispatch _ | .use _ | .shutdown | .drop | .clock _ | .release _ | .wake _ | .answer _
  | .enter _ | .part .. | .leave _ | .tick _ | .endFlusher _ => none

variable {system after : System σ} {move : Move} {thread : Thread}

theorem mover?_hears (thread : Pool.Thread) (answer : Bool) :
    (thread.hears answer : Pool.System.Move Question).mover? = none := by
  cases thread <;> rfl

/-- Answers that a thread hears, and calls from outside, are nobody's own step in the pool. -/
theorem stage?_poolMover (hstep : step? system move = some after) :
    ((system.poolMove? move).bind Pool.System.Move.mover?).bind system.service.system.stage? =
      move.mover?.bind system.stage? := by
  cases transition_of_step hstep with
  | drop _ _ => rfl
  | begin hroutine _ _ =>
      rw [poolMove?, hroutine]
      cases move <;> first | rfl | cases hroutine
  | work hmove _ =>
      rw [system.poolMove?_of_work hmove]
      cases move <;> cases hmove <;> rfl
  | hear hstage hanswer _ _ =>
      rw [poolMove?_of_heard rfl rfl (heard?_answer hstage hanswer), Option.bind_some,
        mover?_hears]
      rfl
  | leave hcall hstage hconclude _ =>
      rw [poolMove?_of_heard rfl rfl (heard?_leave hcall hstage hconclude), Option.bind_some,
        mover?_hears]
      rfl
  | rest _ =>
      rfl
  | clock => rfl
  | release => rfl
  | enter _ _ _ _ => rfl
  | part _ _ => rfl
  | tick _ => rfl
  | endFlusher _ => rfl

/-- What a move adds to the journal: its part in a dispatch that is under way, or a new one. -/
inductive Noted (system : System σ) (journal : Journal) : Move → Journal → Prop
  | still {move : Move} (hmover : move.mover?.bind system.stage? = none) :
      Noted system journal move journal
  | stage {move : Move} {thread : Thread} {stage : Pool.Stage Question}
      (hmover : move.mover? = some thread) (hstage : system.stage? thread = some stage) :
      Noted system journal move (journal.addStage thread system.service.pool stage)
  | begin {thread : Thread} {dispatch : Dispatch}
      (hquestion : system.question? thread = some (.admission dispatch)) :
      Noted system journal (.enter thread) (journal.begin thread dispatch)
  | part {thread : Thread} {order : List String} {call : Site.Call}
      (hcall : system.call? thread = some call) :
      Noted system journal (.part thread order)
        (journal.modify thread fun course => course.addPart call)
  | conclude {thread : Thread} {outcome : Outcome}
      (hquestion : system.question? thread = some (.count outcome)) :
      Noted system journal (.answer thread) (journal.conclude thread outcome)

theorem noted (system : System σ) (move : Move) (journal : Journal) :
    Noted system journal move (system.note move journal) := by
  cases move with
  | worker chosen index =>
      simp only [note]
      split
      · exact .stage rfl ‹_›
      · exact .still ‹_›
  | caller chosen index =>
      simp only [note]
      split
      · exact .stage rfl ‹_›
      · exact .still ‹_›
  | enter thread =>
      simp only [note]
      split
      · exact .begin ‹_›
      · exact .still rfl
  | part thread order =>
      simp only [note]
      split
      · exact .part ‹_›
      · exact .still rfl
  | answer thread =>
      simp only [note]
      split
      · exact .conclude ‹_›
      · exact .still rfl
  | _ => exact .still rfl

end System

/-! Which dispatch each accepted job is from. -/

def Course.accepted? (course : Course) : Option Dispatch :=
  match course.answer? with
  | some (.ok ()) => some course.dispatch
  | some (.error _) | none => none

namespace Journal

def acceptedAt (journal : Journal) (index : Nat) : Option Dispatch :=
  journal.courses[index]?.bind Course.accepted?

variable {journal : Journal} {thread : Thread} {index : Nat} {course : Course}

theorem acceptedAt_begin (journal : Journal) (thread : Thread) (dispatch : Dispatch) :
    (journal.begin thread dispatch).acceptedAt = journal.acceptedAt := by
  funext index
  simp only [acceptedAt, begin, List.getElem?_append]
  split
  · rfl
  · rename_i hindex
    rw [List.getElem?_eq_none (Nat.le_of_not_lt hindex), List.getElem?_singleton]
    split <;> rfl

theorem acceptedAt_modify {change : Course → Course}
    (hchange : ∀ course, (change course).accepted? = course.accepted?) (journal : Journal)
    (thread : Thread) : (journal.modify thread change).acceptedAt = journal.acceptedAt := by
  funext index
  have hcourses := congrArg (fun accepted => accepted[index]?.bind id)
    (map_courses_modify hchange journal thread)
  simp only [List.getElem?_map, Option.bind_map] at hcourses
  exact hcourses

theorem acceptedAt_modify_self (change : Course → Course)
    (hcurrent : journal.current thread = some index)
    (hcourse : journal.courses[index]? = some course) :
    (journal.modify thread change).acceptedAt =
      update journal.acceptedAt index (change course).accepted? := by
  funext other
  rw [acceptedAt, journal.courses_modify change hcurrent, List.getElem?_modify]
  rcases Decidable.em (other = index) with rfl | hne
  · rw [Function.update_self, hcourse]
    simp
  · rw [Function.update_of_ne hne, acceptedAt]
    simp [Ne.symm hne]

theorem addStage_of_enters (thread : Thread) {pool : Pool Question} {stage : Pool.Stage Question}
    (h : ∀ job rest, stage ≠ .ready (.submit job rest)) :
    journal.addStage thread pool stage = journal ∧ stage.enters pool = [] := by
  have hsame (journal : Journal) : journal.modify thread id = journal := by
    unfold modify
    split
    · rw [List.modify_id]
    · rfl
  have hstays : { journal.modify thread id with owners := journal.owners ++ [] } = journal := by
    rw [hsame, List.append_nil]
  cases stage with
  | ready routine =>
      cases routine with
      | submit job rest => exact absurd rfl (h job rest)
      | _ => exact ⟨hstays, rfl⟩
  | _ => exact ⟨hstays, rfl⟩

end Journal

/-- Of the accepted jobs, those that dispatches have submitted: one for each dispatch
that was accepted, and that one its handler's. -/
structure Owned (validator : Validator) (journal : Journal)
    (accepted : List (Pool.Routine Question)) : Prop where
  length_eq : journal.owners.length = accepted.length
  job_eq : ∀ number index : Nat, journal.owners[number]? = some (some index) →
    ∃ dispatch, journal.acceptedAt index = some dispatch ∧
      accepted[number]? = some (dispatch.job validator)
  once : ∀ number other index : Nat, journal.owners[number]? = some (some index) →
    journal.owners[other]? = some (some index) → number = other
  owner : ∀ index dispatch, journal.acceptedAt index = some dispatch →
    ∃ number : Nat, journal.owners[number]? = some (some index)

namespace Owned

variable {validator : Validator} {journal later : Journal}
  {accepted : List (Pool.Routine Question)} {index : Nat} {dispatch : Dispatch}

theorem start (validator : Validator) : Owned validator {} [] where
  length_eq := rfl
  job_eq := fun _ _ h => by cases h
  once := fun _ _ _ h => by cases h
  owner := fun _ _ h => by cases h

theorem frame (h : Owned validator journal accepted) (howners : later.owners = journal.owners)
    (haccepted : later.acceptedAt = journal.acceptedAt) : Owned validator later accepted where
  length_eq := howners ▸ h.length_eq
  job_eq := by
    rw [howners, haccepted]
    exact h.job_eq
  once := howners ▸ h.once
  owner := by
    rw [howners, haccepted]
    exact h.owner

theorem submit (h : Owned validator journal accepted) (job : Pool.Routine Question)
    (howners : later.owners = journal.owners ++ [none])
    (haccepted : later.acceptedAt = journal.acceptedAt) :
    Owned validator later (accepted ++ [job]) := by
  have hold {number index : Nat} (hnumber : later.owners[number]? = some (some index)) :
      journal.owners[number]? = some (some index) := by
    rw [howners] at hnumber
    rcases getElem?_concat_eq_some.mp hnumber with hsame | ⟨_, hnone⟩
    · exact hsame
    · cases hnone
  exact {
    length_eq := by
      rw [howners, List.length_append, List.length_append, h.length_eq]
      rfl
    job_eq := by
      intro number index hnumber
      obtain ⟨dispatch, hdispatch, hjob⟩ := h.job_eq number index (hold hnumber)
      exact ⟨dispatch, haccepted ▸ hdispatch, getElem?_concat_eq_some.mpr (.inl hjob)⟩
    once := fun number other index hnumber hother =>
      h.once number other index (hold hnumber) (hold hother)
    owner := by
      intro index dispatch hdispatch
      obtain ⟨number, hnumber⟩ := h.owner index dispatch (haccepted ▸ hdispatch)
      exact ⟨number, howners ▸ getElem?_concat_eq_some.mpr (.inl hnumber)⟩ }

theorem accept (h : Owned validator journal accepted) (hnone : journal.acceptedAt index = none)
    (howners : later.owners = journal.owners ++ [some index])
    (haccepted : later.acceptedAt = update journal.acceptedAt index (some dispatch)) :
    Owned validator later (accepted ++ [dispatch.job validator]) := by
  have hnew {number other : Nat} (hnumber : later.owners[number]? = some (some other)) :
      (other ≠ index ∧ journal.owners[number]? = some (some other)) ∨
        (other = index ∧ number = journal.owners.length) := by
    rw [howners] at hnumber
    rcases getElem?_concat_eq_some.mp hnumber with hold | ⟨hlast, hsame⟩
    · refine .inl ⟨?_, hold⟩
      rintro rfl
      obtain ⟨_, hdispatch, -⟩ := h.job_eq number other hold
      rw [hnone] at hdispatch
      cases hdispatch
    · exact .inr ⟨(Option.some.inj hsame).symm, hlast⟩
  exact {
    length_eq := by
      rw [howners, List.length_append, List.length_append, h.length_eq]
      rfl
    job_eq := by
      intro number other hnumber
      rw [haccepted]
      rcases hnew hnumber with ⟨hne, hold⟩ | ⟨rfl, rfl⟩
      · obtain ⟨made, hmade, hjob⟩ := h.job_eq number other hold
        rw [Function.update_of_ne hne]
        exact ⟨made, hmade, getElem?_concat_eq_some.mpr (.inl hjob)⟩
      · rw [Function.update_self]
        exact ⟨dispatch, rfl, getElem?_concat_eq_some.mpr (.inr ⟨h.length_eq, rfl⟩)⟩
    once := by
      intro number other place hnumber hother
      rcases hnew hnumber with ⟨hne, hold⟩ | ⟨rfl, rfl⟩
      · rcases hnew hother with ⟨_, hlatter⟩ | ⟨hsame, _⟩
        · exact h.once number other place hold hlatter
        · exact absurd hsame hne
      · rcases hnew hother with ⟨hne, _⟩ | ⟨_, rfl⟩
        · exact absurd rfl hne
        · rfl
    owner := by
      intro other made hmade
      rw [howners]
      rw [haccepted] at hmade
      rcases Decidable.em (other = index) with rfl | hne
      · exact ⟨_, List.getElem?_concat_length⟩
      · rw [Function.update_of_ne hne] at hmade
        obtain ⟨number, hnumber⟩ := h.owner other made hmade
        exact ⟨number, getElem?_concat_eq_some.mpr (.inl hnumber)⟩ }

end Owned

section Stages

variable {strict : Bool} {validator : Validator} {stage? : Thread → Option (Pool.Stage Question)}
  {call? : Thread → Option Site.Call} {journal : Journal} {thread : Thread}
  {job : Pool.Routine Question} {rest : Except Pool.Rejection Unit → Pool.Routine Question}
  {accepted : List (Pool.Routine Question)} {pool : Pool Question}

/-- Who submits a job is in a dispatch, and the job is its handler's; or else nobody's, which
no strict thread submits. -/
theorem Conducted.submits (h : Conducted strict validator stage? call? journal)
    (hstage : stage? thread = some (.ready (.submit job rest))) :
    Written strict validator job ∧
      ((strict = false ∧ journal.current thread = none) ∨
        ∃ index course, journal.current thread = some index ∧
          journal.courses[index]? = some course ∧ course.answer? = none ∧
          course.dispatch.job validator = job) := by
  rcases h.stance_of_stage hstage with ⟨hcurrent, _, hidle⟩ | ⟨_, _, _, hasks, _⟩ |
    ⟨index, course, hcurrent, hcourse, hunderway⟩
  · cases hidle with
    | ready hleft =>
        obtain ⟨hfree, hwritten, _⟩ := hleft.of_submit.of_submit
        exact ⟨hwritten, .inl ⟨hfree, hcurrent⟩⟩
  · cases hasks
  · generalize hsubmits : Pool.Stage.ready (.submit job rest) = stage at hunderway
    generalize call? thread = calling at hunderway
    cases hunderway with
    | submitting hnext hjob hjudged hvalid hanswer houtcome =>
        cases hsubmits
        exact ⟨hjob, .inr ⟨index, course, hcurrent, hcourse, hanswer, rfl⟩⟩
    | admission _ _ _ _ _ _ _ => cases hsubmits
    | accepted _ _ _ _ _ => cases hsubmits
    | notifying _ _ _ _ _ => cases hsubmits
    | refused _ _ _ _ _ => cases hsubmits
    | concluding _ _ _ => cases hsubmits

theorem Owned.addStage {stage : Pool.Stage Question} (h : Owned validator journal accepted)
    (hconducted : Conducted strict validator stage? call? journal)
    (hstage : stage? thread = some stage) :
    Owned validator (journal.addStage thread pool stage) (accepted ++ stage.enters pool) := by
  rcases Classical.em (∃ job rest, stage = .ready (.submit job rest)) with
    ⟨job, rest, rfl⟩ | hother
  · have hcourses (change : Course → Course) (owners : List (Option Nat)) :
        { journal.modify thread change with owners }.acceptedAt =
          (journal.modify thread change).acceptedAt := rfl
    obtain ⟨-, ⟨-, hcurrent⟩ | ⟨index, course, hcurrent, hcourse, hanswer, rfl⟩⟩ :=
      hconducted.submits hstage
    · have haccepted : (journal.addStage thread pool (.ready (.submit job rest))).acceptedAt =
          journal.acceptedAt := by
        rw [Journal.addStage, hcourses, journal.modify_of_none _ hcurrent]
      cases hok : (pool.enter job).1.isOk with
      | true =>
          simp only [Pool.Stage.enters, hok, if_true]
          refine h.submit job ?_ haccepted
          simp [Journal.addStage, Pool.Stage.enters, hok, hcurrent]
      | false =>
          simp only [Pool.Stage.enters, hok, Bool.false_eq_true, if_false, List.append_nil]
          refine h.frame ?_ haccepted
          simp [Journal.addStage, Pool.Stage.enters, hok]
    · have haccepted : (journal.addStage thread pool
          (.ready (.submit (course.dispatch.job validator) rest))).acceptedAt = _ :=
        journal.acceptedAt_modify_self (fun course => course.addStage pool
          (.ready (.submit _ rest))) hcurrent hcourse
      have hnone : journal.acceptedAt index = none := by
        simp [Journal.acceptedAt, hcourse, Course.accepted?, hanswer]
      cases hentered : (pool.enter (course.dispatch.job validator)).1 with
      | ok _ =>
          have hok : (Except.ok () : Except Pool.Rejection Unit).isOk = true := rfl
          simp only [Course.addStage, Course.accepted?, hentered] at haccepted
          simp only [Pool.Stage.enters, hentered, hok, if_true]
          refine h.accept hnone ?_ haccepted
          simp [Journal.addStage, Pool.Stage.enters, hentered, hok, hcurrent]
      | error rejection =>
          have hok : (Except.error rejection : Except Pool.Rejection Unit).isOk = false := rfl
          simp only [Course.addStage, Course.accepted?, hentered] at haccepted
          simp only [Pool.Stage.enters, hentered, hok, Bool.false_eq_true, if_false,
            List.append_nil]
          refine h.frame ?_ (haccepted.trans ?_)
          · simp [Journal.addStage, Pool.Stage.enters, hentered, hok]
          · rw [← hnone, Function.update_eq_self]
  · obtain ⟨hjournal, henters⟩ := journal.addStage_of_enters thread fun job rest hsame =>
      hother ⟨job, rest, hsame⟩
    rw [hjournal, henters, List.append_nil]
    exact h

end Stages

end Service

end Turnstile

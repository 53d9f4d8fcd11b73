import Turnstile.Proofs.Service.Halt

/-!
A service whose pool is stopped. It still answers dispatches, but accepts none: each is
rate limited, invalid, or refused because the pool is shut down; and none has to wait for
another thread.
-/

namespace Turnstile

open Function (update)

namespace Pool

theorem enter_of_stopped {pool : Pool Question} (h : pool.phase = .stopped)
    (job : Routine Question) : pool.enter job = (.error .shuttingDown, pool) :=
  if_pos fun hopen => by
    rw [h] at hopen
    cases hopen

theorem advance?_submit_of_stopped {pool : Pool Question} (h : pool.phase = .stopped) (seat : Seat)
    (chosen : Nat) (job : Routine Question)
    (next : Except Rejection Unit → Routine Question) :
    pool.advance? seat chosen (.ready (.submit job next)) =
      some (.refused (next (.error .shuttingDown)), pool) := by
  simp only [advance?, enter_of_stopped h]

theorem mayWake_of_exited {pool : Pool Question} (h : ∀ worker ∈ pool.workers, worker = .exited)
    (chosen : Nat) : pool.mayWake chosen = true := by
  have hnone : pool.workers.any Worker.isParked = false := by
    apply List.any_eq_false.mpr
    intro worker hmem
    rw [h worker hmem]
    exact Bool.false_ne_true
  rw [mayWake, hnone]
  exact Bool.or_true _

theorem advance?_notifying_of_exited {pool : Pool Question}
    (h : ∀ worker ∈ pool.workers, worker = .exited) (seat : Seat) (chosen : Nat)
    (next : Routine Question) :
    pool.advance? seat chosen (.notifying next) = some (.ready next, pool.wake chosen) :=
  if_pos (mayWake_of_exited h chosen)

end Pool

namespace Service

/-- How many steps of its own a thread may need to come to the outcome of its dispatch, once
it has been admitted to the pool that is stopped. -/
def stepsAhead : Pool.Stage Question → Nat
  | .ready (.submit ..) => 4
  | .accepted _ => 3
  | .notifying _ | .refused _ => 2
  | .ready _ | .closing _ | .awaiting _ | .joining _ => 1

theorem stepsAhead_le (stage : Pool.Stage Question) : stepsAhead stage ≤ 4 := by
  unfold stepsAhead
  split <;> decide

namespace System

variable {system after : System σ} {thread : Thread} {index chosen : Nat}

def ahead (system : System σ) (thread : Thread) : Nat :=
  match system.call? thread with
  | some call => call.ahead + 5
  | none => ((system.stage? thread).map stepsAhead).getD 0

theorem stepsAhead_getD_le (stage? : Option (Pool.Stage Question)) :
    (stage?.map stepsAhead).getD 0 ≤ 4 := by
  cases stage? with
  | none => exact Nat.zero_le 4
  | some stage => exact stepsAhead_le stage

/-! Steps that a caller can take. -/

theorem begin?_of_held (hheld : system.service.front.dropped = false) (ofService : Bool)
    (routine : Pool.Routine Question) :
    system.begin? ofService routine = some (system.begin routine) :=
  if_neg (by simp [hheld])

theorem step?_caller {stage next : Pool.Stage Question} {pool : Pool Question}
    (hstage : system.stage? (.caller index) = some stage)
    (hadvance : system.service.pool.advance? .outside chosen stage = some (next, pool)) :
    step? system (.caller chosen index) = some { system with
      service.system := { system.service.system with pool }.setCaller index next } := by
  have hcaller : system.service.system.callers[index]? = some stage := hstage
  have hpool : system.service.system.pool.advance? .outside chosen stage = some (next, pool) :=
    hadvance
  simp only [step?, Pool.System.callerStep?, hcaller, Option.bind_eq_bind, Option.bind_some, hpool,
    Option.pure_def, Option.map_some]

theorem asks?_caller {question : Question} {rest : Bool → Pool.Routine Question}
    (hstage : system.stage? (.caller index) = some (.ready (.ask question rest))) :
    system.asks? (.caller index) = some (question, fun answer =>
      system.service.system.setCaller index (.ready (rest answer))) := by
  have hcaller : system.service.system.callers[index]? = some _ := hstage
  simp only [asks?, Pool.System.callerAsks?, hcaller, Option.bind_eq_bind, Option.bind_some,
    Pool.Stage.asked?, Option.pure_def]

theorem step?_answer {question : Question} {rest : Bool → Pool.Routine Question} {answer : Bool}
    {front : Front σ} (hstage : system.stage? (.caller index) = some (.ready (.ask question rest)))
    (hanswer : system.service.front.answerAtOnce? question = some (answer, front))
    (hallowed : system.allows (.caller index) question = true) :
    step? system (.answer (.caller index)) = some { system with
      service := ⟨front, system.service.system.setCaller index (.ready (rest answer))⟩ } := by
  simp only [step?, answer?, asks?_caller hstage, Option.bind_eq_bind, Option.bind_some, hallowed,
    Bool.not_true, Bool.false_eq_true, if_false, hanswer, Option.pure_def]
  rfl

theorem step?_enter {question : Question} {rest : Bool → Pool.Routine Question}
    {call : Site.Call} (hnone : system.call? (.caller index) = none)
    (hstage : system.stage? (.caller index) = some (.ready (.ask question rest)))
    (hcall : question.call? = some call)
    (hallowed : system.allows (.caller index) question = true) :
    step? system (.enter (.caller index)) = some (system.enterCall (.caller index) call) := by
  simp only [step?, enter?, hnone, Option.isSome_none, Bool.false_eq_true, if_false,
    asks?_caller hstage, Option.bind_eq_bind, Option.bind_some, hallowed, Bool.not_true, hcall,
    Option.pure_def]

theorem step?_part {order : List String} {call next : Site.Call} {site : Site σ}
    (hcall : system.call? thread = some call)
    (hpart : system.service.front.site.part? order call = some (next, site)) :
    step? system (.part thread order) =
      some ((system.modifyFront fun front => { front with site }).setCall thread next) := by
  simp only [step?, part?, hcall, Option.bind_eq_bind, Option.bind_some, hpart, Option.pure_def]

theorem step?_leave {question : Question} {rest : Bool → Pool.Routine Question} {answer : Bool}
    {front : Front σ} {call : Site.Call} (hcall : system.call? (.caller index) = some call)
    (hstage : system.stage? (.caller index) = some (.ready (.ask question rest)))
    (hconclude : system.service.front.conclude? question call = some (answer, front)) :
    step? system (.leave (.caller index)) = some ({ system with
      service := ⟨front, system.service.system.setCaller index (.ready (rest answer))⟩ }.leaveCall
        (.caller index)) := by
  simp only [step?, leave?, hcall, Option.bind_eq_bind, Option.bind_some, asks?_caller hstage,
    hconclude, Option.pure_def]
  rfl

end System

/-! What comes of the dispatches that a stopped pool refuses. -/

theorem Course.answer?_addStage_of_stopped {pool : Pool Question} (h : pool.phase = .stopped)
    (stage : Pool.Stage Question) (course : Course) :
    (course.addStage pool stage).answer? = course.answer? ∨
      (course.addStage pool stage).answer? = some (.error .shuttingDown) := by
  unfold Course.addStage
  split
  · rename_i job _
    right
    rw [Pool.enter_of_stopped h job]
  · exact .inl rfl

theorem Course.Decided.refused {validator : Validator} {course : Course} {outcome : Outcome}
    (h : course.Decided validator outcome)
    (hanswer : ∀ answer, course.answer? = some answer → answer = .error .shuttingDown) :
    outcome = .rateLimited ∨ (∃ defect, outcome = .invalid defect) ∨
      outcome = .overloaded .shuttingDown := by
  cases h with
  | rateLimited _ _ => exact .inl rfl
  | invalid _ _ _ => exact .inr (.inl ⟨_, rfl⟩)
  | submitted _ _ hanswered =>
      rw [hanswer _ hanswered]
      exact .inr (.inr rfl)

namespace Journal

variable {journal : Journal} {thread : Thread} {index base : Nat} {course : Course}

def dispatches (journal : Journal) : List Dispatch := journal.courses.map Course.dispatch

theorem getElem?_courses_modify {change : Course → Course}
    (h : (journal.modify thread change).courses[index]? = some course) :
    ∃ old, journal.courses[index]? = some old ∧ (course = old ∨ course = change old) := by
  unfold modify at h
  split at h
  · rw [List.getElem?_modify] at h
    obtain ⟨old, hold, rfl⟩ := Option.map_eq_some_iff.mp h
    refine ⟨old, hold, ?_⟩
    split
    · exact .inr rfl
    · exact .inl rfl
  · exact ⟨course, h, .inl rfl⟩

theorem dispatches_prefix_modify {change : Course → Course}
    (hchange : ∀ course, (change course).dispatch = course.dispatch) (journal : Journal)
    (thread : Thread) : journal.dispatches <+: (journal.modify thread change).dispatches := by
  have hsame : (journal.modify thread change).dispatches = journal.dispatches :=
    map_courses_modify hchange journal thread
  exact hsame.symm ▸ List.prefix_refl _

/-- Of the dispatches from some number on, none was given an answer by the pool but that it
is shut down. -/
def RefusedFrom (base : Nat) (journal : Journal) : Prop :=
  ∀ index course answer, base ≤ index → journal.courses[index]? = some course →
    course.answer? = some answer → answer = .error .shuttingDown

theorem RefusedFrom.modify (h : journal.RefusedFrom base) (change : Course → Course)
    (hchange : ∀ course, (change course).answer? = course.answer? ∨
      (change course).answer? = some (.error .shuttingDown)) (thread : Thread) :
    (journal.modify thread change).RefusedFrom base := by
  intro index course answer hbase hcourse hanswer
  obtain ⟨old, hold, rfl | rfl⟩ := getElem?_courses_modify hcourse
  · exact h index course answer hbase hold hanswer
  · rcases hchange old with hsame | hrefused
    · exact h index old answer hbase hold (hsame ▸ hanswer)
    · exact (Option.some.inj (hrefused.symm.trans hanswer)).symm

end Journal

namespace System

variable {system : System σ} {move : Move} {journal : Journal} {base : Nat}

theorem dispatches_note (system : System σ) (move : Move) (journal : Journal) :
    journal.dispatches <+: (system.note move journal).dispatches := by
  have hnoted := system.noted move journal
  generalize system.note move journal = later at hnoted ⊢
  cases hnoted with
  | still _ => exact List.prefix_refl _
  | @stage _ thread stage _ _ =>
      refine Journal.dispatches_prefix_modify (fun course => ?_) journal thread
      unfold Course.addStage
      split <;> rfl
  | @begin thread dispatch _ =>
      have hcourses : (journal.begin thread dispatch).dispatches =
          journal.dispatches ++ [dispatch] := List.map_append
      rw [hcourses]
      exact List.prefix_append _ _
  | @part thread _ call _ =>
      exact Journal.dispatches_prefix_modify (fun _ => by cases call <;> rfl) journal thread
  | @conclude thread outcome _ =>
      have hsame (course : Course) : (course.conclude outcome).dispatch = course.dispatch := rfl
      exact Journal.dispatches_prefix_modify hsame journal thread

theorem note_enter_admission {thread : Thread} {dispatch : Dispatch}
    (h : system.question? thread = some (.admission dispatch)) (journal : Journal) :
    system.note (.enter thread) journal = journal.begin thread dispatch := by
  simp only [note, h]

theorem refusedFrom_note (hstopped : system.service.pool.phase = .stopped)
    (h : journal.RefusedFrom base) (move : Move) :
    (system.note move journal).RefusedFrom base := by
  have hnoted := system.noted move journal
  generalize system.note move journal = later at hnoted ⊢
  cases hnoted with
  | still _ => exact h
  | @stage _ thread stage _ _ =>
      have hcourses := h.modify _ (Course.answer?_addStage_of_stopped hstopped stage) thread
      exact hcourses
  | @begin thread dispatch _ =>
      intro index course answer hbase hcourse hanswer
      rcases getElem?_concat_eq_some.mp hcourse with hold | ⟨_, rfl⟩
      · exact h index course answer hbase hold hanswer
      · cases hanswer
  | @part thread _ call _ =>
      exact h.modify _ (fun course => .inl (by cases call <;> rfl)) thread
  | @conclude thread outcome _ =>
      have hcourses := h.modify (Course.conclude outcome) (fun _ => .inl rfl) thread
      exact hcourses

end System

namespace Setup

variable {setup : Setup σ} {moves : List System.Move} {system after : System σ}
  {move : System.Move} {thread : Thread} {index : Nat}

theorem dispatches_append {later : List System.Move} (hrun : setup.start.run? moves = some system)
    (hlater : system.run? later = some after) :
    (setup.journal moves).dispatches <+: (setup.journal (moves ++ later)).dispatches := by
  let Kept (seen : List System.Move) (_ : System σ) : Prop :=
    (setup.journal moves).dispatches <+: (setup.journal seen).dispatches
  have hkept : Kept (moves ++ later) after :=
    Steps.run_induction_append hrun hlater (List.prefix_refl _)
        fun seen state hseen h move _ _ hstep => by
      change _ <+: (setup.journal (seen ++ [move])).dispatches
      rw [journal_concat hseen hstep]
      exact h.trans (state.dispatches_note move _)
  exact hkept

def Answered (setup : Setup σ) (moves : List System.Move) (index : Nat) : Prop :=
  ∃ course outcome, (setup.journal moves).courses[index]? = some course ∧
    course.outcome? = some outcome

def Closer (setup : Setup σ) (moves : List System.Move) (before after : System σ)
    (thread : Thread) (index : Nat) : Prop :=
  setup.Answered moves index ∨
    (setup.journal moves).current thread = some index ∧ after.ahead thread < before.ahead thread

structure Shut (setup : Setup σ) (moves : List System.Move) (system : System σ) : Prop where
  run : setup.start.run? moves = some system
  stopped : system.service.pool.phase = .stopped

namespace Shut

theorem step (h : Shut setup moves system) (hstep : System.step? system move = some after) :
    Shut setup (moves ++ [move]) after where
  run := Steps.run?_append_of_run? h.run (by rw [Steps.run?_cons, hstep]; rfl)
  stopped := System.phase_eq_stopped_of_step hstep h.stopped

theorem kept (h : Shut setup moves system) : Kept setup false moves system :=
  kept_of_free_run h.run

theorem exited (h : Shut setup moves system) :
    ∀ worker ∈ system.service.pool.workers, worker = .exited := by
  have hrecorded := Pool.System.recorded_of_run (pool_run h.run)
  exact Pool.System.exited_of_joined (orderly_of_run h.run) (hrecorded.unjoined_eq h.stopped)

theorem exists_caller (h : Shut setup moves system)
    (hcurrent : (setup.journal moves).current thread = some index) :
    ∃ seat stage course, thread = .caller seat ∧ system.stage? (.caller seat) = some stage ∧
      (setup.journal moves).courses[index]? = some course ∧
      Underway false setup.validator course stage (system.call? (.caller seat)) := by
  have hstance := h.kept.conducted.stance thread
  rw [hcurrent] at hstance
  generalize hstage : system.stage? thread = stage? at hstance
  generalize hcall : system.call? thread = call? at hstance
  cases hstance with
  | @underway _ _ course stage _ hcourse hunderway =>
      cases thread with
      | caller seat => exact ⟨seat, stage, course, rfl, hstage, hcourse, hcall ▸ hunderway⟩
      | worker seat =>
          have hworker : system.service.system.pool.workers[seat]?.bind Pool.Worker.stage? =
              some stage := hstage
          obtain ⟨worker, hat, hworking⟩ := Option.bind_eq_some_iff.mp hworker
          rw [h.exited worker (List.mem_of_getElem? hat)] at hworking
          cases hworking
      | flusher seat => cases hstage

theorem closer_of_advance {stage next : Pool.Stage Question} {pool : Pool Question}
    {seat : Nat} (h : Shut setup moves system) (chosen : Nat)
    (hcurrent : (setup.journal moves).current (.caller seat) = some index)
    (hstage : system.stage? (.caller seat) = some stage)
    (hcall : system.call? (.caller seat) = none)
    (hadvance : system.service.pool.advance? .outside chosen stage = some (next, pool))
    (hless : stepsAhead next < stepsAhead stage) :
    ∃ move after, System.Move.thread? move = some (.caller seat) ∧
      System.step? system move = some after ∧
      setup.Closer (moves ++ [move]) system after (.caller seat) index := by
  have hstep := System.step?_caller hstage hadvance
  refine ⟨_, _, rfl, hstep, .inr ⟨?_, ?_⟩⟩
  · rw [journal_concat h.run hstep]
    simp only [System.note, hstage, Journal.current_addStage]
    exact hcurrent
  · have hseat : seat < system.service.system.callers.length :=
      (List.getElem?_eq_some_iff.mp hstage).1
    have hafter : System.stage? { system with
        service.system := { system.service.system with pool }.setCaller seat next }
        (.caller seat) = some next := List.getElem?_set_self hseat
    have hnone : System.call? { system with
        service.system := { system.service.system with pool }.setCaller seat next }
        (.caller seat) = none := hcall
    simp only [System.ahead, hafter, hnone, hcall, hstage, Option.map_some, Option.getD_some]
    exact hless

theorem exists_step_of_call {call : Site.Call} {stage : Pool.Stage Question} {course : Course}
    {seat : Nat} (h : Shut setup moves system)
    (hcurrent : (setup.journal moves).current (.caller seat) = some index)
    (hstage : system.stage? (.caller seat) = some stage)
    (hcall : system.call? (.caller seat) = some call)
    (hunderway : Underway false setup.validator course stage (some call)) :
    ∃ move after, System.Move.thread? move = some (.caller seat) ∧
      System.step? system move = some after ∧
      setup.Closer (moves ++ [move]) system after (.caller seat) index := by
  have hbefore : system.ahead (.caller seat) = call.ahead + 5 := by
    simp only [System.ahead, hcall]
  cases hunderway with
  | @admission next _ _ _ hclient _ _ _ _ =>
      cases hanswer : call.answer? with
      | none =>
          obtain ⟨later, site, hpart, hless⟩ :=
            system.service.front.site.exists_part hclient hanswer
          have hstep := System.step?_part hcall hpart
          refine ⟨_, _, rfl, hstep, .inr ⟨?_, ?_⟩⟩
          · rw [journal_concat h.run hstep]
            simp only [System.note, hcall, Journal.current_modify]
            exact hcurrent
          · rw [hbefore]
            simp only [System.ahead, System.call?_part hcall, Function.update_self]
            omega
      | some allowed =>
          obtain ⟨client, reading, rfl⟩ : ∃ client reading,
              call = .answered client reading allowed := by
            cases call <;> first | cases hanswer; exact ⟨_, _, rfl⟩ | cases hanswer
          have hstep := System.step?_leave hcall hstage rfl
          refine ⟨_, _, rfl, hstep, .inr ⟨?_, ?_⟩⟩
          · rw [journal_concat h.run hstep]
            exact hcurrent
          · rw [hbefore, System.ahead, System.call?_leaveCall, Function.update_self]
            exact Nat.lt_of_le_of_lt (System.stepsAhead_getD_le _) (by omega)

theorem exists_step (h : Shut setup moves system)
    (hcurrent : (setup.journal moves).current thread = some index) :
    ∃ move after, move.thread? = some thread ∧ System.step? system move = some after ∧
      setup.Closer (moves ++ [move]) system after thread index := by
  obtain ⟨seat, stage, course, rfl, hstage, hcourse, hunderway⟩ := h.exists_caller hcurrent
  generalize hcall : system.call? (.caller seat) = call? at hunderway
  cases call? with
  | some call => exact h.exists_step_of_call hcurrent hstage hcall hunderway
  | none =>
      cases hunderway with
      | submitting _ _ _ _ _ _ =>
          exact h.closer_of_advance 0 hcurrent hstage hcall
            (Pool.advance?_submit_of_stopped h.stopped .outside 0 _ _) (show 2 < 4 by omega)
      | accepted _ _ _ _ _ =>
          exact h.closer_of_advance 0 hcurrent hstage hcall rfl (Nat.lt_succ_self 2)
      | notifying _ _ _ _ _ =>
          exact h.closer_of_advance 0 hcurrent hstage hcall
            (Pool.advance?_notifying_of_exited h.exited .outside 0 _) (Nat.lt_succ_self 1)
      | refused _ _ _ _ _ =>
          exact h.closer_of_advance 0 hcurrent hstage hcall rfl (Nat.lt_succ_self 1)
      | @concluding _ outcome _ _ _ =>
          have hstep := System.step?_answer hstage rfl rfl
          refine ⟨_, _, rfl, hstep, .inl ⟨course.conclude outcome, outcome, ?_, rfl⟩⟩
          rw [journal_concat h.run hstep]
          simp only [System.note, System.question?_of_stage hstage]
          have hcourses : ((setup.journal moves).conclude (.caller seat) outcome).courses = _ :=
            (setup.journal moves).courses_modify _ hcurrent
          rw [hcourses]
          exact Conducted.getElem?_modify_self _ hcourse

/-- Whatever others do or wait for, a thread comes to the outcome of its dispatch. -/
theorem exists_run (h : Shut setup moves system)
    (hcurrent : (setup.journal moves).current thread = some index) :
    ∃ rest last, (∀ move ∈ rest, move.thread? = some thread) ∧ system.run? rest = some last ∧
      setup.Answered (moves ++ rest) index := by
  -- By induction on how much the thread has before it, which no other thread adds to.
  generalize hahead : system.ahead thread = ahead
  induction ahead using Nat.strongRecOn generalizing moves system with
  | ind ahead ih =>
      obtain ⟨move, after, hthread, hstep, hcloser⟩ := h.exists_step hcurrent
      rcases hcloser with hanswered | ⟨hstill, hless⟩
      · refine ⟨[move], after, ?_, by rw [System.run?, Steps.run?_cons, hstep]; rfl, hanswered⟩
        intro other hother
        rw [List.mem_singleton.mp hother]
        exact hthread
      · obtain ⟨rest, last, hrest, hrun, hanswered⟩ :=
          ih _ (hahead ▸ hless) (h.step hstep) hstill rfl
        refine ⟨move :: rest, last, ?_, by rw [System.run?, Steps.run?_cons, hstep]; exact hrun, ?_⟩
        · intro other hother
          rcases List.mem_cons.mp hother with rfl | hmem
          · exact hthread
          · exact hrest other hmem
        · rw [List.append_assoc] at hanswered
          exact hanswered

theorem run_append {later : List System.Move} (h : Shut setup moves system)
    (hrun : system.run? later = some after) : Shut setup (moves ++ later) after :=
  Steps.run_induction_append h.run hrun h fun _ _ _ h _ _ _ hstep => h.step hstep

theorem refusedFrom {later : List System.Move} (h : Shut setup moves system)
    (hrun : system.run? later = some after) :
    (setup.journal (moves ++ later)).RefusedFrom (setup.journal moves).courses.length := by
  let Refused (seen : List System.Move) (state : System σ) : Prop :=
    Shut setup seen state ∧
      (setup.journal seen).RefusedFrom (setup.journal moves).courses.length
  have hnone : (setup.journal moves).RefusedFrom (setup.journal moves).courses.length := by
    intro index course answer hbase hcourse _
    exact absurd (List.getElem?_eq_some_iff.mp hcourse).1 (Nat.not_lt.mpr hbase)
  have hrefused : Refused (moves ++ later) after :=
    Steps.run_induction_append h.run hrun ⟨h, hnone⟩ fun seen state hseen hshut move _ _ hstep => by
      refine ⟨hshut.1.step hstep, ?_⟩
      rw [journal_concat hseen hstep]
      exact System.refusedFrom_note hshut.1.stopped hshut.2 move
  exact hrefused.2

theorem exists_begun (h : Shut setup moves system)
    (hheld : system.service.front.dropped = false) (dispatch : Dispatch) :
    ∃ begun, system.run? [.dispatch dispatch, .enter system.newcomer] = some begun ∧
      setup.journal (moves ++ [.dispatch dispatch, .enter system.newcomer]) =
        (setup.journal moves).begin system.newcomer dispatch := by
  let called := system.begin (dispatch.alone.routine system.service.front.validator)
  have hcall : System.step? system (.dispatch dispatch) = some called :=
    System.begin?_of_held hheld true _
  have hstage : called.stage? system.newcomer =
      some (.ready (dispatch.alone.routine system.service.front.validator)) :=
    List.getElem?_concat_length
  have hnone : called.call? system.newcomer = none :=
    (Conducted.away (.caller _) h.kept.conducted system.service.system.stage?_call_self).2
  have henter : System.step? called (.enter system.newcomer) =
      some (called.enterCall system.newcomer (.finding dispatch.client)) :=
    System.step?_enter hnone hstage rfl (Bool.not_eq_true' _ ▸ hheld)
  have hrun : system.run? [.dispatch dispatch, .enter system.newcomer] =
      some (called.enterCall system.newcomer (.finding dispatch.client)) := by
    rw [System.run?, Steps.run?_cons, hcall, Option.bind_some, Steps.run?_cons, henter]
    rfl
  refine ⟨_, hrun, ?_⟩
  have hmoves : moves ++ [.dispatch dispatch, .enter system.newcomer] =
      moves ++ [.dispatch dispatch] ++ [.enter system.newcomer] := by simp
  rw [hmoves, journal_concat (h.step hcall).run henter, journal_concat h.run hcall]
  exact System.note_enter_admission (System.question?_of_stage hstage) _

theorem exists_run_dispatch (h : Shut setup moves system)
    (hheld : system.service.front.dropped = false) (dispatch : Dispatch) :
    ∃ rest last, (∀ move ∈ rest, System.Move.thread? move = some system.newcomer) ∧
      system.run? (.dispatch dispatch :: rest) = some last ∧
      ∃ course outcome, (setup.journal (moves ++ .dispatch dispatch :: rest)).courses[
          (setup.journal moves).courses.length]? = some course ∧
        course.dispatch = dispatch ∧ course.outcome? = some outcome := by
  obtain ⟨begun, hbegun, hjournal⟩ := h.exists_begun hheld dispatch
  have hshut := h.run_append hbegun
  have hcurrent : (setup.journal (moves ++ [.dispatch dispatch, .enter system.newcomer])).current
      system.newcomer = some (setup.journal moves).courses.length := by
    rw [hjournal]
    exact Function.update_self ..
  obtain ⟨rest, last, hrest, hrun, course, outcome, hcourse, houtcome⟩ :=
    hshut.exists_run hcurrent
  have hbegins : ((setup.journal moves).begin system.newcomer dispatch).dispatches =
      (setup.journal moves).dispatches ++ [dispatch] := List.map_append
  obtain ⟨others, hothers⟩ := dispatches_append hshut.run hrun
  rw [hjournal, hbegins] at hothers
  rw [List.append_assoc moves] at hothers hcourse
  have hmade : (setup.journal (moves ++ .dispatch dispatch :: .enter system.newcomer ::
      rest)).dispatches[(setup.journal moves).courses.length]? = some dispatch := by
    change (setup.journal (moves ++ ([_, _] ++ rest))).dispatches[_]? = _
    rw [← hothers]
    simp [Journal.dispatches]
  refine ⟨.enter system.newcomer :: rest, last, ?_, Steps.run?_append_of_run? hbegun hrun, course,
    outcome, hcourse, ?_, houtcome⟩
  · intro move hmove
    rcases List.mem_cons.mp hmove with rfl | hmem
    · rfl
    · exact hrest move hmem
  · rw [Journal.dispatches, List.getElem?_map] at hmade
    exact Option.some.inj ((congrArg (Option.map Course.dispatch) hcourse).symm.trans hmade)

end Shut

end Setup

end Service

end Turnstile

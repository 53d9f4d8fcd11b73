import Turnstile.Proofs.Service.ShutdownPoints

/-!
The flush threads of a service, and what answers do to them. A flush thread ends once it
has been told to, and not in the middle of a flush; then it is over for good.
-/

namespace Turnstile.Service

open Function (update)

/-- What can be told of flush threads and shutdowns afterwards. -/
inductive Event
  | started (index : Nat)
  | claimed (thread : Thread)
  | signalled (thread : Thread) (index : Nat)
  | joined (thread : Thread) (index : Nat)
  | flushed (thread : Thread)
  /-- The flush thread is told to end and left alone, as a job drops the service. -/
  | abandoned (index : Nat)
  deriving DecidableEq, Repr

namespace Front

variable {front after : Front σ} {question : Question} {answer : Bool} {index : Nat}

def events (front : Front σ) (thread : Thread) : Question → List Event
  | .use (.startFlusher _) =>
      if front.stopped || front.current?.isSome then [] else [.started front.flushers.length]
  | .claim => if front.stopped then [] else [.claimed thread]
  | .signalFlusher => front.taken?.toList.map (.signalled thread)
  | .joinFlusher => front.taken?.toList.map (.joined thread)
  | .use .abandon => front.current?.toList.map .abandoned
  | .use _ | .admission _ | .count _ | .lock | .lastFlush | .unlock => []

theorem flushed_notMem_events {front : Front σ} {thread : Thread} {question : Question}
    (other : Thread) : .flushed other ∉ front.events thread question := by
  cases question with
  | use wanted => cases wanted <;> simp [events]
  | claim => simp [events]
  | signalFlusher => simp [events]
  | joinFlusher => simp [events]
  | _ => exact List.not_mem_nil

structure Steady (front after : Front σ) : Prop where
  stopped_eq : after.stopped = front.stopped
  current?_eq : after.current? = front.current?
  taken?_eq : after.taken? = front.taken?
  count_eq : after.flushers.length = front.flushers.length

namespace Steady

theorem refl (front : Front σ) : Steady front front := ⟨rfl, rfl, rfl, rfl⟩

theorem trans {last : Front σ} (hfirst : Steady front after) (hlast : Steady after last) :
    Steady front last where
  stopped_eq := hlast.stopped_eq.trans hfirst.stopped_eq
  current?_eq := hlast.current?_eq.trans hfirst.current?_eq
  taken?_eq := hlast.taken?_eq.trans hfirst.taken?_eq
  count_eq := hlast.count_eq.trans hfirst.count_eq

theorem modifyFlusher (front : Front σ) (index : Nat) (change : Flusher → Flusher) :
    Steady front (front.modifyFlusher index change) :=
  ⟨rfl, rfl, rfl, List.length_modify ..⟩

end Steady

theorem steady_abandon (hnone : front.current? = none) : front.Steady front.abandon := by
  rw [abandon, hnone]
  exact ⟨rfl, hnone.symm, rfl, rfl⟩

/-- What an answer that is given at once makes of the flush threads and of the shutdown. -/
inductive Answers (front : Front σ) : Question → Bool → Front σ → Prop
  | keep {question : Question} {answer : Bool} {after : Front σ} (hpoint : question.point? = none)
      (hevents : ∀ thread, front.events thread question = []) (hsteady : front.Steady after)
      (hexclusive : after.exclusive = front.exclusive)
      (hflushers : after.flushers = front.flushers) (hdropped : after.dropped = front.dropped) :
      Answers front question answer after
  | start {interval : Nat} (hopen : front.stopped = false) (hnone : front.current? = none) :
      Answers front (.use (.startFlusher interval)) true (front.startFlusher interval)
  | lock (hfree : front.exclusive = false) :
      Answers front .lock true { front with exclusive := true }
  | claim (hopen : front.stopped = false) :
      Answers front .claim true
        { front with stopped := true, current? := none, taken? := front.current? }
  | turnAway (hstopped : front.stopped = true) : Answers front .claim false front
  | signal : Answers front .signalFlusher true front.signalFlusher
  | join (hended : front.takenHasEnded = true) : Answers front .joinFlusher true front
  | unlock : Answers front .unlock true { front with exclusive := false }
  | abandon : Answers front (.use .abandon) true front.abandon

theorem answers_startFlusher (front : Front σ) (interval : Nat) :
    front.Answers (.use (.startFlusher interval)) true (front.startFlusher interval) := by
  cases hstopped : front.stopped with
  | true =>
      have hsame : front.startFlusher interval = front.emit .flusherNotStarted := if_pos hstopped
      rw [hsame]
      exact .keep rfl (fun _ => by simp [events, hstopped]) ⟨rfl, rfl, rfl, rfl⟩ rfl rfl rfl
  | false =>
      cases hcurrent : front.current? with
      | none => exact .start hstopped hcurrent
      | some index =>
          have hsame : front.startFlusher interval = front := by
            simp [startFlusher, hstopped, hcurrent]
          rw [hsame]
          exact .keep rfl (fun _ => by simp [events, hcurrent]) (.refl front) rfl rfl rfl

theorem answers_of_answerAtOnce (h : front.answerAtOnce? question = some (answer, after)) :
    front.Answers question answer after := by
  cases question with
  | use wanted =>
      cases wanted with
      | scene wanted =>
          simp only [answerAtOnce?, Question.call?, Option.isNone_none, if_true, Front.answer,
            answerUse, Option.map_eq_some_iff, Prod.mk.injEq] at h
          obtain ⟨_, _, _, rfl⟩ := h
          exact .keep rfl (fun _ => rfl) ⟨rfl, rfl, rfl, rfl⟩ rfl rfl rfl
      | request client => cases h
      | flush => cases h
      | startFlusher interval =>
          cases h
          exact front.answers_startFlusher interval
      | abandon =>
          cases h
          exact .abandon
  | admission dispatch => cases h
  | count outcome =>
      cases h
      exact .keep rfl (fun _ => rfl) ⟨rfl, rfl, rfl, rfl⟩ rfl rfl rfl
  | lock =>
      simp only [answerAtOnce?, Question.call?, Option.isNone_none, if_true, Front.answer] at h
      split at h <;> cases h
      exact .lock (Bool.eq_false_iff.mpr ‹_›)
  | claim =>
      simp only [answerAtOnce?, Question.call?, Option.isNone_none, if_true, Front.answer,
        Front.claim] at h
      split at h <;> cases h
      · exact .turnAway ‹_›
      · exact .claim (Bool.eq_false_iff.mpr ‹_›)
  | signalFlusher =>
      cases h
      exact .signal
  | joinFlusher =>
      simp only [answerAtOnce?] at h
      split at h <;> cases h
      exact .join ‹_›
  | lastFlush => cases h
  | unlock =>
      cases h
      exact .unlock

theorem steady_conclude {call : Site.Call}
    (h : front.conclude? question call = some (answer, after)) :
    front.Steady after ∧ after.exclusive = front.exclusive ∧ after.flushers = front.flushers ∧
      after.dropped = front.dropped := by
  unfold conclude? at h
  split at h
  · cases h
    exact ⟨.refl front, rfl, rfl, rfl⟩
  · split at h <;> cases h <;> exact ⟨⟨rfl, rfl, rfl, rfl⟩, rfl, rfl, rfl⟩
  · cases h

theorem steady_tellToEnd (front : Front σ) (index? : Option Nat) :
    front.Steady (front.tellToEnd index?) := by
  cases index? with
  | none => exact .refl front
  | some index => exact .modifyFlusher ..

theorem dropped_tellToEnd (front : Front σ) (index? : Option Nat) :
    (front.tellToEnd index?).dropped = front.dropped := by
  cases index? <;> rfl

theorem dropped_startFlusher (front : Front σ) (interval : Nat) :
    (front.startFlusher interval).dropped = front.dropped := by
  unfold startFlusher
  split
  · rfl
  · split <;> rfl

theorem exclusive_tellToEnd (front : Front σ) (index? : Option Nat) :
    (front.tellToEnd index?).exclusive = front.exclusive := by
  cases index? <;> rfl

theorem steady_signalFlusher (front : Front σ) : front.Steady front.signalFlusher :=
  front.steady_tellToEnd front.taken?

/-! What flush threads are doing. -/

def phase? (front : Front σ) (index : Nat) : Option Flusher.Phase :=
  front.flushers[index]?.map Flusher.phase

theorem phase?_of_map (h : after.flushers.map Flusher.phase = front.flushers.map Flusher.phase) :
    after.phase? = front.phase? := by
  funext index
  rw [phase?, ← List.getElem?_map, h, List.getElem?_map, phase?]

theorem phase?_of_flushers (h : after.flushers = front.flushers) :
    after.phase? = front.phase? := phase?_of_map (congrArg (List.map Flusher.phase) h)

theorem phase?_modifyFlusher {phase : Flusher.Phase} {change : Flusher → Flusher}
    (hchange : ∀ flusher, (change flusher).phase = phase) (hsome : (front.phase? index).isSome) :
    (front.modifyFlusher index change).phase? = update front.phase? index (some phase) := by
  obtain ⟨flusher, hflusher⟩ := Option.isSome_iff_exists.mp (Option.isSome_map ▸ hsome)
  funext other
  rw [phase?, modifyFlusher, List.getElem?_modify]
  rcases Decidable.em (other = index) with rfl | hne
  · simp [hflusher, hchange]
  · simp [hne, Ne.symm hne, phase?]

theorem phase?_tellToEnd (front : Front σ) (index? : Option Nat) :
    (front.tellToEnd index?).phase? = front.phase? := by
  cases index? with
  | none => rfl
  | some index =>
      have hsame (flusher : Flusher) :
          ({ flusher with signalled := true } : Flusher).phase = flusher.phase := rfl
      exact phase?_of_map (map_modify_of_same hsame ..)

theorem phase?_startFlusher {interval : Nat} (hopen : front.stopped = false)
    (hnone : front.current? = none) : (front.startFlusher interval).phase? =
      update front.phase? front.flushers.length (some .waiting) := by
  funext index
  have hflushers : (front.startFlusher interval).flushers =
      front.flushers ++ [({ interval } : Flusher)] := by
    simp [startFlusher, hopen, hnone, emit]
  rw [phase?, hflushers, Function.update_apply]
  split
  · rename_i hsame
    subst hsame
    rw [List.getElem?_concat_length]
    rfl
  · rename_i hne
    rw [phase?, List.getElem?_append]
    split
    · rfl
    · rw [List.getElem?_eq_none (by rw [List.length_singleton]; omega),
        List.getElem?_eq_none (by omega)]

theorem endFlusher_of_some (h : front.endFlusher? index = some after) :
    front.phase? index = some .waiting ∧ front.Steady after ∧
      after.exclusive = front.exclusive ∧ after.dropped = front.dropped ∧
      after.phase? = update front.phase? index (some .ended) := by
  unfold endFlusher? at h
  split at h <;> cases h
  rename_i hwaits
  have hwaiting : front.phase? index = some .waiting := by
    rw [phase?, hwaits]
    rfl
  have hended : (front.modifyFlusher index fun flusher => { flusher with phase := .ended }).phase? =
      update front.phase? index (some .ended) :=
    phase?_modifyFlusher (fun _ => rfl) (hwaiting ▸ rfl)
  exact ⟨hwaiting, ⟨rfl, rfl, rfl, List.length_modify ..⟩, rfl, rfl, hended⟩

end Front

namespace System

variable {system after : System σ} {move : Move} {index : Nat}

def Ticking (system : System σ) : Prop :=
  ∀ index, (system.call? (.flusher index)).isSome = true →
    system.service.front.phase? index = some .flushing

theorem waiting_of_tick (hstep : step? system (.tick index) = some after) :
    system.service.front.phase? index = some .waiting := by
  simp only [step?, tick?] at hstep
  split at hstep
  · cases hstep
  · simp only [Option.pure_def] at hstep
    split at hstep <;> cases hstep
    rename_i hwaits
    rw [Front.phase?, hwaits]
    rfl

theorem phase?_hear {question : Question} {answer : Bool} {front : Front σ}
    (hanswer : system.service.front.answerAtOnce? question = some (answer, front)) :
    front.phase? = system.service.front.phase? ∨
      front.phase? = update system.service.front.phase? system.service.front.flushers.length
        (some .waiting) := by
  cases Front.answers_of_answerAtOnce hanswer with
  | keep _ _ _ _ hflushers _ => exact .inl (Front.phase?_of_flushers hflushers)
  | start hopen hnone => exact .inr (Front.phase?_startFlusher hopen hnone)
  | signal => exact .inl (Front.phase?_tellToEnd ..)
  | abandon => exact .inl (Front.phase?_tellToEnd ..)
  | lock _ => exact .inl rfl
  | claim _ => exact .inl rfl
  | turnAway _ => exact .inl rfl
  | join _ => exact .inl rfl
  | unlock => exact .inl rfl

theorem phase?_count (front : Front σ) : front.phase? front.flushers.length = none := by
  rw [Front.phase?, List.getElem?_eq_none (Nat.le_refl _), Option.map_none]

theorem phases_of_step (h : system.Ticking) (hstep : step? system move = some after) :
    after.service.front.phase? = system.service.front.phase? ∨
      ∃ index phase, system.service.front.phase? index ≠ some .ended ∧
        after.service.front.phase? = update system.service.front.phase? index (some phase) := by
  cases transition_of_step hstep with
  | hear _ hanswer _ _ =>
      rcases phase?_hear hanswer with hsame | hstarted
      · exact .inl hsame
      · exact .inr ⟨_, _, by rw [phase?_count]; nofun, hstarted⟩
  | leave _ _ hconclude _ =>
      exact .inl (Front.phase?_of_flushers (Front.steady_conclude hconclude).2.2.1)
  | @rest index report hcall =>
      have hflushing := h index (hcall ▸ rfl)
      refine .inr ⟨index, .waiting, by rw [hflushing]; nofun, ?_⟩
      exact Front.phase?_modifyFlusher (fun _ => rfl) (hflushing ▸ rfl)
  | @tick index _ =>
      have hwaiting := waiting_of_tick hstep
      refine .inr ⟨index, .flushing, by rw [hwaiting]; nofun, ?_⟩
      exact Front.phase?_modifyFlusher (fun _ => rfl) (hwaiting ▸ rfl)
  | @endFlusher index _ hended =>
      obtain ⟨hwaiting, -, -, -, hphases⟩ := Front.endFlusher_of_some hended
      exact .inr ⟨index, .ended, by rw [hwaiting]; nofun, hphases⟩
  | begin _ _ _ => exact .inl rfl
  | drop _ _ => exact .inl rfl
  | work _ _ => exact .inl rfl
  | enter _ _ _ _ => exact .inl rfl
  | part _ _ => exact .inl rfl
  | clock => exact .inl rfl
  | release => exact .inl rfl

theorem ended_of_step (h : system.Ticking) (hstep : step? system move = some after)
    (hended : system.service.front.phase? index = some .ended) :
    after.service.front.phase? index = some .ended := by
  rcases phases_of_step h hstep with hsame | ⟨other, phase, hne, hchanged⟩
  · rw [hsame, hended]
  · rw [hchanged, Function.update_of_ne, hended]
    rintro rfl
    exact hne hended

namespace Ticking

theorem start (setup : Setup σ) : setup.start.Ticking := fun _ hcall => by cases hcall

theorem keep (h : system.Ticking)
    (hcalls : ∀ index, (after.call? (.flusher index)).isSome = true →
      (system.call? (.flusher index)).isSome = true)
    (hphases : after.service.front.phase? = system.service.front.phase?) : after.Ticking := by
  intro index hcall
  rw [hphases]
  exact h index (hcalls index hcall)

theorem step (h : system.Ticking) (hstep : step? system move = some after) : after.Ticking := by
  cases transition_of_step hstep with
  | hear _ hanswer _ _ =>
      rcases phase?_hear hanswer with hsame | hstarted
      · exact h.keep (fun _ hcall => hcall) hsame
      · intro index hcall
        have hflushing := h index hcall
        refine (congrFun hstarted index).trans (.trans (Function.update_of_ne ?_ _ _) hflushing)
        rintro rfl
        cases hflushing.symm.trans (phase?_count _)
  | @enter seat _ _ _ hnone _ _ _ =>
      refine h.keep (fun index hcall => ?_) rfl
      rwa [call?_enterCall hnone, Function.update_of_ne (by cases seat <;> nofun)] at hcall
  | @part thread _ _ _ _ hcalled _ =>
      refine h.keep (fun index hcall => ?_) rfl
      rcases Decidable.em (.flusher index = thread) with rfl | hne
      · exact Option.isSome_of_eq_some hcalled
      · rwa [call?_part hcalled, Function.update_of_ne hne] at hcall
  | @leave seat _ _ _ _ _ _ _ _ hconclude _ =>
      refine h.keep (fun index hcall => ?_)
        (Front.phase?_of_flushers (Front.steady_conclude hconclude).2.2.1)
      rw [call?_leaveCall, Function.update_of_ne (by cases seat <;> nofun)] at hcall
      exact hcall
  | @rest other _ hcalled =>
      intro index hcall
      rw [call?_leaveCall] at hcall
      have hne : index ≠ other := by
        rintro rfl
        rw [Function.update_self] at hcall
        cases hcall
      rw [Function.update_of_ne fun hsame => hne (Thread.flusher.inj hsame)] at hcall
      have hphases : ((system.modifyFront fun front => front.modifyFlusher other fun flusher =>
          { flusher with phase := .waiting }).leaveCall (.flusher other)).service.front.phase? =
          update system.service.front.phase? other (some .waiting) :=
        Front.phase?_modifyFlusher (fun _ => rfl) (h other (hcalled ▸ rfl) ▸ rfl)
      rw [hphases, Function.update_of_ne hne]
      exact h index hcall
  | @tick other hnone =>
      intro index hcall
      have hphases : ((system.modifyFront fun front => front.modifyFlusher other fun flusher =>
          { flusher with phase := .flushing }).enterCall (.flusher other)
            .listing).service.front.phase? =
          update system.service.front.phase? other (some .flushing) :=
        Front.phase?_modifyFlusher (fun _ => rfl) (waiting_of_tick hstep ▸ rfl)
      rw [hphases]
      rcases Decidable.em (index = other) with rfl | hne
      · exact Function.update_self ..
      · rw [call?_tick hnone,
          Function.update_of_ne fun hsame => hne (Thread.flusher.inj hsame)] at hcall
        rw [Function.update_of_ne hne]
        exact h index hcall
  | @endFlusher other _ hended =>
      intro index hcall
      have hflushing := h index hcall
      obtain ⟨hwaiting, -, -, -, hphases⟩ := Front.endFlusher_of_some hended
      refine (congrFun hphases index).trans (.trans (Function.update_of_ne ?_ _ _) hflushing)
      rintro rfl
      cases hflushing.symm.trans hwaiting
  | begin _ _ _ => exact h
  | drop _ _ => exact h
  | work _ _ => exact h
  | clock => exact h
  | release => exact h

end Ticking

end System

end Turnstile.Service

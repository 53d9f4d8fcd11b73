import Turnstile.Proofs.Pool.Ledger

/-!
What workers do between taking a job and counting its end: they go through the routine of that job,
part by part and answer by answer, and through no other.
-/

namespace Turnstile.Pool

/-- Where a thread on a routine can come to, by what it does itself and by the answers it gets. -/
inductive Stage.Leads (first : Stage Question) : Stage Question → Prop
  | here : Leads first first
  | advance {pool after : Pool Question} {seat : Seat} {chosen : Nat}
      {stage next : Stage Question} (h : Leads first stage)
      (hadvance : pool.advance? seat chosen stage = some (next, after)) : Leads first next
  | hear {question : Question} {next : Bool → Routine Question}
      (h : Leads first (.ready (.ask question next))) (answer : Bool) :
      Leads first (.ready (next answer))

section Workers

variable {pool after : Pool Question} {seat : Seat} {chosen index : Nat}
  {stage next other : Stage Question}

theorem Worker.eq_working_of_woken {worker : Worker Question}
    (h : worker.woken = .working stage) : worker = .working stage := by
  cases worker <;> first | exact h | cases h

theorem working_of_wake (h : (pool.wake chosen).workers[index]? = some (.working stage)) :
    pool.workers[index]? = some (.working stage) := by
  simp only [wake, List.getElem?_modify, Option.map_eq_map, Option.map_eq_some_iff] at h
  obtain ⟨worker, hworker, hwoken⟩ := h
  split at hwoken
  · rw [hworker, Worker.eq_working_of_woken hwoken]
  · exact hworker.trans (congrArg some hwoken)

theorem working_of_advance (hadvance : pool.advance? seat chosen stage = some (next, after))
    (h : after.workers[index]? = some (.working other)) :
    pool.workers[index]? = some (.working other) := by
  rcases workers_advance hadvance with hsame | hwake | hwakeAll
  · exact hsame ▸ h
  · exact working_of_wake (hwake ▸ h)
  · rw [hwakeAll] at h
    obtain ⟨worker, hworker, hwoken⟩ :=
      Option.map_eq_some_iff.mp ((List.getElem?_map ..).symm.trans h)
    rw [hworker, Worker.eq_working_of_woken hwoken]

end Workers

/-- What a worker is in the middle of, and each run that is over, is the routine of the job under
whose number it was begun. -/
structure OwnRoutines (pool : Pool Question) (ledger : Ledger Question) : Prop where
  working : ∀ index stage, pool.workers[index]? = some (.working stage) →
    ∃ job, (ledger.holds index, job) ∈ ledger.begun ∧ Stage.Leads (.ready job) stage
  finished : ∀ number ∈ ledger.finished, ∃ job ending, (number, job) ∈ ledger.begun ∧
    Stage.Leads (.ready job) (.ready (.finish ending))

namespace OwnRoutines

variable {pool left after : Pool Question} {ledger later : Ledger Question} {chosen index : Nat}
  {stage next : Stage Question} {old new : Worker Question}

theorem start (config : PoolConfig) : OwnRoutines (Pool.start config : Pool Question) {} where
  working := fun index stage hworker => by
    have hmem := List.mem_of_getElem? hworker
    simp [Pool.start] at hmem
  finished := nofun

theorem set (h : OwnRoutines pool ledger)
    (hleft : ∀ (other : Nat) (stage : Stage Question),
      left.workers[other]? = some (.working stage) → pool.workers[other]? = some (.working stage))
    (hholds : ∀ other, other ≠ index → later.holds other = ledger.holds other)
    (hbegun : ledger.begun ⊆ later.begun)
    (hnew : ∀ stage : Stage Question, new = .working stage →
      ∃ job, (later.holds index, job) ∈ later.begun ∧ Stage.Leads (.ready job) stage)
    (hfinished : ∀ number ∈ later.finished, number ∈ ledger.finished ∨
      ∃ job ending, (number, job) ∈ later.begun ∧
        Stage.Leads (.ready job) (.ready (.finish ending))) :
    OwnRoutines (left.setWorker index new) later where
  working := fun other stage hworker => by
    simp only [setWorker, List.getElem?_set] at hworker
    split at hworker
    · rename_i hsame
      subst hsame
      split at hworker
      · exact hnew stage (Option.some.inj hworker)
      · cases hworker
    · rename_i hne
      obtain ⟨job, hjob, hleads⟩ := h.working other stage (hleft other stage hworker)
      exact ⟨job, hholds other (Ne.symm hne) ▸ hbegun hjob, hleads⟩
  finished := fun number hnumber => by
    rcases hfinished number hnumber with hold | hnow
    · obtain ⟨job, ending, hjob, hleads⟩ := h.finished number hold
      exact ⟨job, ending, hbegun hjob, hleads⟩
    · exact hnow

theorem frame (h : OwnRoutines pool ledger)
    (hworkers : ∀ (index : Nat) (stage : Stage Question),
      after.workers[index]? = some (.working stage) → pool.workers[index]? = some (.working stage))
    (hholds : later.holds = ledger.holds) (hbegun : later.begun = ledger.begun)
    (hfinished : later.finished = ledger.finished) : OwnRoutines after later where
  working := fun index stage hworker => by
    rw [hholds, hbegun]
    exact h.working index stage (hworkers index stage hworker)
  finished := by
    rw [hfinished, hbegun]
    exact h.finished

theorem addStage_eq (ledger : Ledger Question) (pool : Pool Question) (stage : Stage Question) :
    (ledger.addStage pool stage).holds = ledger.holds ∧
      (ledger.addStage pool stage).begun = ledger.begun ∧
      (ledger.addStage pool stage).finished = ledger.finished := by
  unfold Ledger.addStage
  split <;> exact ⟨rfl, rfl, rfl⟩

theorem serve (h : OwnRoutines pool ledger) (hold : pool.workers[index]? = some old)
    (hserve : Serve pool chosen index old new left) :
    OwnRoutines (left.setWorker index new) (ledger.addWorker pool index old) := by
  cases hserve with
  | take hqueue =>
      simp only [Ledger.addWorker, hqueue]
      exact h.set (fun _ _ => id) (fun _ hne => if_neg hne) (List.Subset.refl _) nofun
        fun _ => .inl
  | park hempty _ =>
      simp only [Ledger.addWorker, hempty]
      exact h.set (fun _ _ => id) (fun _ _ => rfl) (List.Subset.refl _) nofun fun _ => .inl
  | leave hempty _ =>
      simp only [Ledger.addWorker, hempty]
      exact h.set (fun _ _ => id) (fun _ _ => rfl) (List.Subset.refl _) nofun fun _ => .inl
  | @begin job =>
      show OwnRoutines _ (ledger.begin index job)
      refine h.set (fun _ _ => id) (fun _ _ => rfl)
        (List.subset_append_left ..) (fun stage hstage => ?_) fun _ => .inl
      cases hstage
      exact ⟨job, List.mem_append_right _ List.mem_cons_self, .here⟩
  | @finish ending =>
      obtain ⟨job, hjob, hleads⟩ := h.working index _ hold
      show OwnRoutines _ (ledger.finish index)
      refine h.set (fun _ _ => id) (fun _ _ => rfl)
        (List.Subset.refl _) nofun fun number hnumber => ?_
      rcases List.mem_append.mp hnumber with hbefore | hnow
      · exact .inl hbefore
      · rw [List.mem_singleton.mp hnow]
        exact .inr ⟨job, ending, hjob, hleads⟩
  | @goOn stage next _ hadvance =>
      obtain ⟨job, hjob, hleads⟩ := h.working index stage hold
      obtain ⟨hholds, hbegun, hfinished⟩ := addStage_eq ledger pool stage
      rw [Ledger.addWorker_working hadvance]
      refine h.set (fun _ _ => working_of_advance hadvance) (fun _ _ => congrFun hholds _)
        (hbegun ▸ List.Subset.refl _) (fun _ hstage => ?_)
        fun _ hnumber => .inl (hfinished ▸ hnumber)
      cases hstage
      exact ⟨job, by rw [hholds, hbegun]; exact hjob, hleads.advance hadvance⟩
  | @count ending =>
      show OwnRoutines _ ledger
      refine h.set (fun _ _ hworker => ?_) (fun _ _ => rfl)
        (List.Subset.refl _) nofun fun _ => .inl
      cases ending <;> exact hworker

theorem step {system after : System Question} {move : System.Move Question}
    (h : OwnRoutines system.pool ledger) (hstep : System.step? system move = some after) :
    OwnRoutines after.pool (System.note system move ledger) := by
  cases System.transition_of_step hstep with
  | call => exact h
  | serve hold hserve =>
      simp only [System.note, hold]
      exact h.serve hold hserve
  | @hearWorker index _ next answer hold =>
      obtain ⟨job, hjob, hleads⟩ := h.working index _ hold
      show OwnRoutines _ ledger
      refine h.set (fun _ _ => id) (fun _ _ => rfl) (List.Subset.refl _)
        (fun _ hstage => ?_) fun _ => .inl
      cases hstage
      exact ⟨job, hjob, hleads.hear answer⟩
  | @advance _ _ stage _ _ hstage hadvance =>
      obtain ⟨hholds, hbegun, hfinished⟩ := addStage_eq ledger system.pool stage
      simp only [System.note, hstage]
      exact h.frame (fun _ _ => working_of_advance hadvance) hholds hbegun hfinished
  | hearCaller _ => exact h
  | wake => exact h.frame (fun _ _ => working_of_wake) rfl rfl rfl

end OwnRoutines

end Turnstile.Pool

import Turnstile.Proofs.Service.Lifetime
import Turnstile.Proofs.Service.Shutdown

/-!
A service ends once. However flush threads are started and shutdowns begun, at the same time
and from wherever, one shutdown from outside ends it, and no other returns before that. Only
where a job drops the last handle there is no such shutdown, and no last flush.
-/

namespace Turnstile.Service

namespace System

variable {system after : System σ} {move : Move} {thread other : Thread} {seen done : List Event}
  {begun : List Thread}

theorem Unclaimed.isPrefix (h : system.Unclaimed seen) (thread : Thread) :
    seen <+: lifetime thread system.service.front.flushers.length := by
  rw [h.seen_eq]
  exact List.prefix_append _ _

theorem Claimed.mem_done {event : Event} (h : system.Claimed seen thread done)
    (hmem : event ∈ seen) (hevent : ∀ index, event ≠ .started index) : event ∈ done := by
  rw [h.seen_eq] at hmem
  rcases List.mem_append.mp hmem with hstarted | hdone
  · obtain ⟨index, hsame⟩ := mem_startings hstarted
    exact absurd hsame (hevent index)
  · exact hdone

theorem Claimed.claimed_mem (h : system.Claimed seen thread done) : .claimed thread ∈ seen := by
  rw [h.seen_eq]
  exact List.mem_append_right _ h.progress.claimed_mem

theorem Claimed.isPrefix (h : system.Claimed seen thread done) :
    seen <+: lifetime thread system.service.front.flushers.length := by
  rw [h.seen_eq]
  exact (List.prefix_append_right_inj _).mpr h.progress.isPrefix

theorem Claimed.of_flushed (h : system.Claimed seen thread done) (hmem : .flushed other ∈ seen) :
    other = thread ∧ system.service.front.AllEnded ∧ system.service.pool.phase = .stopped ∧
      seen = lifetime thread system.service.front.flushers.length := by
  have hdone := h.mem_done hmem nofun
  obtain ⟨hended, hstopped, rfl⟩ := h.progress.of_flushed hdone
  refine ⟨?_, hended, hstopped, h.seen_eq⟩
  simpa [signals, joins] using hdone

theorem stage?_isSome_of_step (hstep : step? system move = some after)
    (houtside : thread.isOutside = true) (hsome : (system.stage? thread).isSome = true) :
    (after.stage? thread).isSome = true := by
  obtain ⟨stage, hstage⟩ := Option.isSome_iff_exists.mp hsome
  rcases Decidable.em (move.thread? = some thread) with hmine | hother
  · cases transition_of_step hstep with
    | begin hroutine _ _ => cases move <;> cases hmine <;> cases hroutine
    | drop _ _ => cases hmine
    | work hmove hpool =>
        cases worked_of_step hmove hpool with
        | serve _ _ _ =>
            cases hmine
            cases houtside
        | advance _ _ hstages =>
            cases hmine
            rw [hstages, Function.update_self]
            rfl
        | wake _ => cases hmine
    | hear hasks _ hpool _ =>
        cases hmine
        rw [stage?_hear system.calls hasks hpool, Function.update_self]
        rfl
    | @leave seat _ _ rest answer front pool _ hasks _ hpool =>
        cases hmine
        have hheard : (leaveCall ⟨{ front, system := pool }, system.calls⟩
            (.inPool seat)).stage? = _ := stage?_hear _ hasks hpool
        rw [hheard, Function.update_self]
        rfl
    | rest _ =>
        cases hmine
        cases houtside
    | tick _ =>
        cases hmine
        cases houtside
    | endFlusher _ =>
        cases hmine
        cases houtside
    | enter _ _ _ _ => exact hsome
    | part _ _ => exact hsome
    | clock => exact hsome
    | release => exact hsome
  · rw [stage?_of_step hstep hother hstage]
    rfl

structure Begun (system : System σ) (begun : List Thread) (seen : List Event) : Prop where
  outside : ∀ thread ∈ begun, thread.isOutside = true ∧ (system.stage? thread).isSome = true
  standing : ∀ thread point, system.point? thread = some point → thread ∈ begun
  claimer : ∀ thread, .claimed thread ∈ seen → thread ∈ begun
  settled : ∀ thread ∈ begun, system.point? thread = none → ∃ last, .flushed last ∈ seen

namespace Begun

theorem start (setup : Setup σ) : setup.start.Begun [] [] where
  outside := fun _ hmem => absurd hmem List.not_mem_nil
  standing := by
    intro thread point hpoint
    cases (setup.point?_start thread).symm.trans hpoint
  claimer := fun _ hmem => absurd hmem List.not_mem_nil
  settled := fun _ hmem => absurd hmem List.not_mem_nil

theorem ne_newcomer (h : system.Begun begun seen) (hmem : thread ∈ begun) :
    thread ≠ system.newcomer := by
  rintro rfl
  have hnone : system.stage? system.newcomer = none := system.service.system.stage?_call_self
  have hsome := (h.outside _ hmem).2
  rw [hnone] at hsome
  cases hsome

theorem claimer_step (h : system.Begun begun seen) (hlife : LifecycleStep system after move)
    (hmem : .claimed thread ∈ system.events move) : thread ∈ begun := by
  cases hlife with
  | keep _ _ _ _ hevents _ =>
      rw [hevents] at hmem
      cases hmem
  | begin _ _ _ => cases hmem
  | drop _ _ _ => cases hmem
  | abandon _ _ _ _ hevents =>
      rw [hevents] at hmem
      simp at hmem
  | start _ _ _ _ _ hevents =>
      rw [hevents] at hmem
      simp at hmem
  | goOn hpoint _ hshutdown _ =>
      rw [hshutdown.eq_of_claimed hmem]
      exact h.standing _ _ hpoint

theorem standing_step {point : ShutdownPoint} (h : system.Begun begun seen)
    (hlife : LifecycleStep system after move) (hpoint : after.point? thread = some point) :
    thread ∈ begun ++ (system.shutdown? move).toList := by
  rcases hlife.points with ⟨_, hpoints⟩ | ⟨hbegins, hpoints⟩ |
    ⟨_, _, _, _, hstood, hpoints, _⟩
  · exact List.mem_append_left _ (h.standing _ _ (hpoints ▸ hpoint))
  · rw [hpoints, Function.update_apply] at hpoint
    split at hpoint
    · rename_i hsame
      exact List.mem_append_right _ (by simp [hsame, hbegins])
    · exact List.mem_append_left _ (h.standing _ _ hpoint)
  · apply List.mem_append_left
    rw [hpoints, Function.update_apply] at hpoint
    split at hpoint
    · rename_i hsame
      exact hsame ▸ h.standing _ _ hstood
    · exact h.standing _ _ hpoint

theorem settled_step (h : system.Begun begun seen) (hlife : LifecycleStep system after move)
    (hleaving : ∀ thread, system.point? thread = some .leaving → ∃ last, .flushed last ∈ seen)
    (hmem : thread ∈ begun) (hgone : after.point? thread = none) :
    ∃ last, .flushed last ∈ seen := by
  rcases hlife.points with ⟨_, hpoints⟩ | ⟨_, hpoints⟩ |
    ⟨_, _, _, _, hstood, hpoints, hshutdown⟩
  · exact h.settled thread hmem (hpoints ▸ hgone)
  · rw [hpoints, Function.update_of_ne (h.ne_newcomer hmem)] at hgone
    exact h.settled thread hmem hgone
  · rw [hpoints, Function.update_apply] at hgone
    split at hgone
    · rw [hgone] at hshutdown
      exact hleaving _ (hshutdown.eq_leaving ▸ hstood)
    · exact h.settled thread hmem hgone

theorem begins_step (hlife : LifecycleStep system after move)
    (hmem : thread ∈ (system.shutdown? move).toList) :
    thread = system.newcomer ∧ after.point? thread = some .entering := by
  rcases hlife.points with ⟨hnone, _⟩ | ⟨hbegins, hpoints⟩ | ⟨_, _, _, hnone, _, _, _⟩
  · rw [hnone] at hmem
    cases hmem
  · rw [hbegins, Option.toList_some, List.mem_singleton] at hmem
    refine ⟨hmem, ?_⟩
    rw [hpoints, hmem, Function.update_self]
  · rw [hnone] at hmem
    cases hmem

theorem step (h : system.Begun begun seen) (hlife : LifecycleStep system after move)
    (hstep : step? system move = some after)
    (hleaving : ∀ thread, system.point? thread = some .leaving → ∃ last, .flushed last ∈ seen) :
    after.Begun (begun ++ (system.shutdown? move).toList) (seen ++ system.events move) where
  outside := by
    intro thread hmem
    rcases List.mem_append.mp hmem with hold | hadded
    · obtain ⟨houtside, hsome⟩ := h.outside thread hold
      exact ⟨houtside, stage?_isSome_of_step hstep houtside hsome⟩
    · obtain ⟨rfl, hstands⟩ := begins_step hlife hadded
      obtain ⟨stage, hstage, -⟩ := Option.bind_eq_some_iff.mp hstands
      exact ⟨rfl, Option.isSome_of_eq_some hstage⟩
  standing := fun _ _ hpoint => h.standing_step hlife hpoint
  claimer := by
    intro thread hmem
    apply List.mem_append_left
    rcases List.mem_append.mp hmem with hold | hadded
    · exact h.claimer thread hold
    · exact h.claimer_step hlife hadded
  settled := by
    intro thread hmem hgone
    rcases List.mem_append.mp hmem with hold | hadded
    · obtain ⟨last, hlast⟩ := h.settled_step hlife hleaving hold hgone
      exact ⟨last, List.mem_append_left _ hlast⟩
    · cases hgone.symm.trans (begins_step hlife hadded).2

end Begun

/-- How the life of a service stands, and who has shut it down or dropped it. -/
structure Lived (system : System σ) (seen : List Event) (begun : List Thread) : Prop where
  ticking : system.Ticking
  exclusive : system.Exclusive
  stand : system.Stand seen
  dropped : system.service.front.dropped = true → begun = [] → system.Abandoned seen
  begun : system.Begun begun seen

namespace Lived

theorem start (setup : Setup σ) : setup.start.Lived [] [] where
  ticking := .start setup
  exclusive := .start setup
  stand := .unclaimed (.start setup)
  dropped := fun hdropped => by cases hdropped
  begun := .start setup

theorem exists_claimed_of_mem {event : Event} (h : system.Lived seen begun) (hmem : event ∈ seen)
    (hstarted : ∀ index, event ≠ .started index) (habandoned : ∀ index, event ≠ .abandoned index) :
    ∃ thread done, system.Claimed seen thread done ∧ event ∈ done := by
  cases h.stand with
  | unclaimed hopen =>
      rw [hopen.seen_eq] at hmem
      obtain ⟨index, hsame⟩ := mem_startings hmem
      exact absurd hsame (hstarted index)
  | claimed hclaimed => exact ⟨_, _, hclaimed, hclaimed.mem_done hmem hstarted⟩
  | abandoned hleft =>
      rw [hleft.seen_eq] at hmem
      rcases List.mem_append.mp hmem with hold | hlast
      · obtain ⟨index, hsame⟩ := mem_startings hold
        exact absurd hsame (hstarted index)
      · obtain ⟨index, -, hsame⟩ := List.mem_map.mp hlast
        exact absurd hsame.symm (habandoned index)

theorem flushed_of_leaving (h : system.Lived seen begun)
    (hpoint : system.point? thread = some .leaving) : ∃ last, .flushed last ∈ seen := by
  cases h.stand with
  | unclaimed hopen => rcases hopen.points thread _ hpoint with hnot | hnot <;> cases hnot
  | abandoned hleft => cases (hleft.points thread).symm.trans hpoint
  | @claimed claimer done hclaimed =>
      have hmem (hgone : system.point? claimer = none ∨ system.point? claimer = some .leaving) :
          ∃ last, .flushed last ∈ seen := by
        refine ⟨claimer, ?_⟩
        rw [hclaimed.seen_eq]
        exact List.mem_append_right _ (hclaimed.progress.flushed_mem hgone)
      cases hclaimer : system.point? claimer with
      | none => exact hmem (.inl hclaimer)
      | some point =>
          have hin : point ≠ .entering := by
            rintro rfl
            exact hclaimed.progress.ne_entering hclaimer
          have hsame := h.exclusive.alone claimer thread point _ hclaimer hpoint hin nofun
          exact hmem (.inr (hsame ▸ hpoint))

theorem eq_nil_of_abandoned (h : system.Lived seen begun) (hleft : system.Abandoned seen) :
    begun = [] := by
  apply List.eq_nil_iff_forall_not_mem.mpr
  intro thread hmem
  obtain ⟨last, hflushed⟩ := h.begun.settled thread hmem (hleft.points thread)
  obtain ⟨_, _, hclaimed, _⟩ := h.exists_claimed_of_mem hflushed nofun nofun
  cases hleft.stopped_eq.symm.trans hclaimed.stopped_eq

theorem stand_step (h : system.Lived seen begun) (hlife : LifecycleStep system after move)
    (hstep : step? system move = some after)
    (hphase : system.service.pool.phase = .stopped → after.service.pool.phase = .stopped) :
    after.Stand (seen ++ system.events move) := by
  cases h.stand with
  | unclaimed hopen => exact hopen.step hlife
  | @claimed thread done hclaimed =>
      have hnew := h.begun.ne_newcomer (h.begun.claimer thread hclaimed.claimed_mem)
      exact .claimed (hclaimed.step hlife hnew
        (fun _ hended => ended_of_step h.ticking hstep hended) hphase)
  | abandoned hleft =>
      obtain ⟨hstill, hevents⟩ := hleft.step hlife
      rw [hevents, List.append_nil]
      exact .abandoned hstill

theorem dropped_step (h : system.Lived seen begun) (hlife : LifecycleStep system after move)
    (hdropped : after.service.front.dropped = true)
    (hnone : begun ++ (system.shutdown? move).toList = []) :
    after.Abandoned (seen ++ system.events move) := by
  obtain ⟨rfl, hbegins⟩ := List.append_eq_nil_iff.mp hnone
  cases hlife with
  | keep hpoints hsteady hexclusive hsame hevents hbegins =>
      have hleft := h.dropped (hsame ▸ hdropped) rfl
      rw [hevents, List.append_nil]
      exact (hleft.step (.keep hpoints hsteady hexclusive hsame hevents hbegins)).1
  | begin _ _ _ => cases hbegins
  | drop _ _ _ => cases hbegins
  | abandon hheld hnobody hpoints hfront hevents =>
      rw [hevents]
      cases h.stand with
      | unclaimed hopen => exact hopen.abandon hnobody hpoints hfront
      | claimed hclaimed => cases h.begun.claimer _ hclaimed.claimed_mem
      | abandoned hleft => cases hheld.symm.trans hleft.dropped_eq
  | start hheld _ _ _ hfront _ =>
      rw [hfront, Front.dropped_startFlusher, hheld] at hdropped
      cases hdropped
  | goOn hpoint _ _ _ => cases h.begun.standing _ _ hpoint

theorem step (h : system.Lived seen begun) (hlife : LifecycleStep system after move)
    (hstep : step? system move = some after)
    (hphase : system.service.pool.phase = .stopped → after.service.pool.phase = .stopped) :
    after.Lived (seen ++ system.events move) (begun ++ (system.shutdown? move).toList) where
  ticking := h.ticking.step hstep
  exclusive := h.exclusive.step hlife
  stand := h.stand_step hlife hstep hphase
  dropped := h.dropped_step hlife
  begun := h.begun.step hlife hstep fun _ hpoint => h.flushed_of_leaving hpoint

theorem exists_claimed (h : system.Lived seen begun)
    (hstopped : system.service.front.stopped = true) :
    ∃ thread done, system.Claimed seen thread done := by
  cases h.stand with
  | unclaimed hopen => cases hopen.stopped_eq.symm.trans hstopped
  | claimed hclaimed => exact ⟨_, _, hclaimed⟩
  | abandoned hleft => cases hleft.stopped_eq.symm.trans hstopped

theorem count_le (h : system.Lived seen begun) : system.service.front.flushers.length ≤ 1 := by
  cases h.stand with
  | unclaimed hopen => exact count_le_of_toList hopen.current?_eq
  | claimed hclaimed => exact count_le_of_toList hclaimed.taken?_eq
  | abandoned hleft => exact hleft.count_le

/-- What can be told in the end of a service that was dropped. -/
theorem seen_eq_of_dropped (h : system.Lived seen begun)
    (hdropped : system.service.front.dropped = true)
    (hnobody : ∀ thread, system.point? thread = none) :
    (∃ claimer, seen = lifetime claimer system.service.front.flushers.length) ∨
      begun = [] ∧ seen = startings system.service.front.flushers.length ++
        abandonings system.service.front.flushers.length := by
  cases h.stand with
  | unclaimed hopen =>
      cases hbegun : begun with
      | nil =>
          have hleft := h.dropped hdropped hbegun
          exact .inr ⟨rfl, hleft.seen_eq⟩
      | cons thread others =>
          obtain ⟨last, hflushed⟩ :=
            h.begun.settled thread (hbegun ▸ List.mem_cons_self) (hnobody thread)
          obtain ⟨_, _, hclaimed, _⟩ := h.exists_claimed_of_mem hflushed nofun nofun
          cases hopen.stopped_eq.symm.trans hclaimed.stopped_eq
  | @claimed claimer done hclaimed =>
      have hflushed : .flushed claimer ∈ seen := by
        rw [hclaimed.seen_eq]
        exact List.mem_append_right _ (hclaimed.progress.flushed_mem (.inl (hnobody claimer)))
      exact .inl ⟨claimer, (hclaimed.of_flushed hflushed).2.2.2⟩
  | abandoned hleft => exact .inr ⟨h.eq_nil_of_abandoned hleft, hleft.seen_eq⟩

end Lived

end System

namespace Setup

variable {setup : Setup σ} {moves rest : List System.Move} {system last after : System σ}
  {move : System.Move} {thread : Thread}

theorem lived_of_run (hrun : setup.start.run? moves = some last) :
    last.Lived (setup.start.chronicle moves) (setup.start.shutdowns moves) := by
  let Holds (moves : List System.Move) (system : System σ) : Prop :=
    system.Lived (setup.start.chronicle moves) (setup.start.shutdowns moves)
  have hlived : Holds moves last :=
    Steps.run_induction hrun (.start setup) fun before system hbefore h move _ after hstep => by
      change after.Lived _ _
      rw [chronicle_concat hbefore hstep, shutdowns_concat hbefore hstep]
      exact h.step (lifecycleStep_of_run hbefore hstep) hstep
        (System.phase_eq_stopped_of_step hstep)
  exact hlived

theorem steady_of_run (hrun : setup.start.run? moves = some last)
    (hstopped : last.service.front.stopped = true) (hrest : last.run? rest = some after) :
    last.service.front.Steady after.service.front := by
  let Holds (_ : List System.Move) (system : System σ) : Prop :=
    last.service.front.Steady system.service.front
  have hsteady : Holds (moves ++ rest) after :=
    Steps.run_induction_append hrun hrest (.refl _)
        fun before system hbefore h move _ next hstep => by
      have hstill := h.stopped_eq.trans hstopped
      obtain ⟨_, _, hclaimed⟩ := (lived_of_run hbefore).exists_claimed hstill
      exact h.trans ((lifecycleStep_of_run hbefore hstep).steady hstill hclaimed.current?_eq)
  exact hsteady

theorem chronicle_append_of_over (hrun : setup.start.run? moves = some last)
    (hdropped : last.service.front.dropped = true) (hnobody : ∀ thread, last.point? thread = none)
    (hrest : last.run? rest = some after) :
    setup.start.chronicle (moves ++ rest) = setup.start.chronicle moves := by
  let Over (seen : List System.Move) (system : System σ) : Prop :=
    system.service.front.dropped = true ∧ (∀ thread, system.point? thread = none) ∧
      setup.start.chronicle seen = setup.start.chronicle moves
  have hover : Over (moves ++ rest) after :=
    Steps.run_induction_append hrun hrest ⟨hdropped, hnobody, rfl⟩
        fun before system hbefore h move _ next hstep => by
      obtain ⟨hdropped, hnobody, hsame⟩ := h
      obtain ⟨hpoints, -, hstill, hevents⟩ :=
        (lifecycleStep_of_run hbefore hstep).ofDropped hdropped hnobody
      refine ⟨hstill.trans hdropped, hpoints ▸ hnobody, ?_⟩
      rw [chronicle_concat hbefore hstep, hevents, List.append_nil, hsame]
  exact hover.2.2

theorem exists_flushedFrom (hrun : setup.start.run? moves = some last)
    (hmem : .flushed thread ∈ setup.start.chronicle moves) :
    ∃ drain quiet, FlushedFrom setup moves last thread drain quiet := by
  let Flushed (seen : List System.Move) (system : System σ) : Prop :=
    .flushed thread ∈ setup.start.chronicle seen →
      ∃ drain quiet, FlushedFrom setup seen system thread drain quiet
  have hfirst : Flushed [] setup.start := fun hmem => absurd hmem List.not_mem_nil
  have hflushed : Flushed moves last :=
    Steps.run_induction hrun hfirst fun before system hbefore h move _ after hstep hmem => by
      have hone : system.run? [move] = some after := by
        rw [System.run?, Steps.run?_cons, hstep]
        rfl
      rw [chronicle_concat hbefore hstep] at hmem
      rcases List.mem_append.mp hmem with hold | hnew
      · obtain ⟨drain, quiet, hfrom⟩ := h hold
        exact ⟨drain, quiet, hfrom.append hbefore hone⟩
      · obtain ⟨rfl, hquestion⟩ := System.of_flushed hnew
        obtain ⟨drain, quiet, hfrom⟩ := exists_flushedFrom_of_leave hbefore hstep hquestion
        exact ⟨drain, quiet, hfrom.append hbefore hone⟩
  exact hflushed hmem

/-- What holds at the end of a run, whatever flush threads and shutdowns were begun in it. -/
structure EndsOnce (setup : Setup σ) (moves : List System.Move) (last : System σ) : Prop where
  alive : (last.service.front.flushers.filter fun flusher => flusher.phase ≠ .ended).length ≤ 1
  /-- What has happened so far is the beginning of one life, in which one thread ends all
  flush threads and then flushes, one time; or a job has dropped the service before that. -/
  ordered :
    (∃ thread,
      setup.start.chronicle moves <+: lifetime thread last.service.front.flushers.length) ∨
    last.service.front.dropped = true ∧ last.service.front.stopped = false ∧
      setup.start.shutdowns moves = [] ∧
      setup.start.chronicle moves = startings last.service.front.flushers.length ++
        abandonings last.service.front.flushers.length
  claimed : last.service.front.stopped = true →
    ∃ thread, .claimed thread ∈ setup.start.chronicle moves
  stored : last.service.front.stopped = true → last.service.front.current? = none
  closed : last.service.front.stopped = true → ∀ rest after, last.run? rest = some after →
    after.service.front.stopped = true ∧
      after.service.front.flushers.length = last.service.front.flushers.length
  /-- No handler claims the service or flushes it at its end, but the first shutdown that is
  let in from outside. -/
  first : ∀ thread, .claimed thread ∈ setup.start.chronicle moves ∨
      .flushed thread ∈ setup.start.chronicle moves →
    thread.isOutside = true ∧ thread ∈ setup.start.shutdowns moves ∧
      (setup.start.claims moves).head? = some thread
  joined : ∀ thread index, .joined thread index ∈ setup.start.chronicle moves →
    last.service.front.phase? index = some .ended
  flushed : ∀ thread, .flushed thread ∈ setup.start.chronicle moves →
    ∃ drain quiet, FlushedFrom setup moves last thread drain quiet
  returned : ∀ thread ∈ setup.start.shutdowns moves,
    last.stage? thread = some (.ready (.finish .returned)) →
      last.service.pool.phase = .stopped ∧
        (∀ flusher ∈ last.service.front.flushers, flusher.phase = .ended) ∧
        ∃ claimer,
          setup.start.chronicle moves = lifetime claimer last.service.front.flushers.length
  /-- A service that has been dropped and released has lived a whole life, with its one last
  flush, unless it was a job that dropped it and nobody had shut it down from outside. -/
  released : last.service.front.dropped = true → last.isReleased = true →
    ((∃ claimer,
      setup.start.chronicle moves = lifetime claimer last.service.front.flushers.length) ∨
    setup.start.shutdowns moves = [] ∧
      setup.start.chronicle moves = startings last.service.front.flushers.length ++
        abandonings last.service.front.flushers.length) ∧
    ∀ rest after, last.run? rest = some after →
      setup.start.chronicle (moves ++ rest) = setup.start.chronicle moves

/-- At most one flush thread of a service is alive; the first shutdown from outside ends it,
closes the pool and flushes; and whoever returns from a shutdown finds all that done. -/
theorem ends_once (hrun : setup.start.run? moves = some last) : EndsOnce setup moves last := by
  have hlived := lived_of_run hrun
  have hfirst := first_of_run hrun
  have hclaimer (thread : Thread) (hmem : .claimed thread ∈ setup.start.chronicle moves) :
      thread.isOutside = true ∧ thread ∈ setup.start.shutdowns moves ∧
        (setup.start.claims moves).head? = some thread := by
    have hbegun := hlived.begun.claimer thread hmem
    exact ⟨(hlived.begun.outside thread hbegun).1, hbegun, hfirst.head thread hmem⟩
  exact {
    alive := (List.length_filter_le _ _).trans hlived.count_le
    ordered := by
      cases hlived.stand with
      | unclaimed hopen => exact .inl ⟨.caller 0, hopen.isPrefix _⟩
      | claimed hclaimed => exact .inl ⟨_, hclaimed.isPrefix⟩
      | abandoned hleft =>
          exact .inr ⟨hleft.dropped_eq, hleft.stopped_eq, hlived.eq_nil_of_abandoned hleft,
            hleft.seen_eq⟩
    claimed := by
      intro hstopped
      obtain ⟨thread, _, hclaimed⟩ := hlived.exists_claimed hstopped
      exact ⟨thread, hclaimed.claimed_mem⟩
    stored := by
      intro hstopped
      obtain ⟨_, _, hclaimed⟩ := hlived.exists_claimed hstopped
      exact hclaimed.current?_eq
    closed := by
      intro hstopped rest after hrest
      have hsteady := steady_of_run hrun hstopped hrest
      exact ⟨hsteady.stopped_eq.trans hstopped, hsteady.count_eq⟩
    first := by
      rintro thread (hmem | hmem)
      · exact hclaimer thread hmem
      · obtain ⟨claimer, _, hclaimed, -⟩ := hlived.exists_claimed_of_mem hmem nofun nofun
        obtain ⟨rfl, -⟩ := hclaimed.of_flushed hmem
        exact hclaimer thread hclaimed.claimed_mem
    joined := by
      intro thread index hmem
      obtain ⟨_, _, hclaimed, hdone⟩ := hlived.exists_claimed_of_mem hmem nofun nofun
      exact hclaimed.progress.of_joined hdone
    flushed := fun _ hmem => exists_flushedFrom hrun hmem
    returned := by
      intro thread hbegun hstage
      obtain ⟨_, hflushed⟩ := hlived.begun.settled thread hbegun (System.point?_of_stage hstage)
      obtain ⟨claimer, _, hclaimed, -⟩ := hlived.exists_claimed_of_mem hflushed nofun nofun
      obtain ⟨-, hended, hstopped, hseen⟩ := hclaimed.of_flushed hflushed
      exact ⟨hstopped, fun _ hmem => hended.of_mem hmem, claimer, hseen⟩
    released := by
      intro hdropped hfree
      have hnobody := System.point?_eq_none_of_isReleased (kept_of_free_run hrun).conducted hfree
      exact ⟨hlived.seen_eq_of_dropped hdropped hnobody,
        fun _ _ hrest => chronicle_append_of_over hrun hdropped hnobody hrest⟩ }

def meddling : Dispatch where
  client := "a"
  batch := ⟨"host", [{ name := "load" }]⟩
  handler := fun _ => .use (.startFlusher 7) fun _ => .shutdown <| .finish .returned

/-- A flush thread is in the middle of a flush when one of two shutdowns claims the service;
the handler comes to its own part after that. -/
def claimingMoves : List System.Move :=
  [.use (.startFlusher 5), .answer (.caller 0), .dispatch meddling] ++
    callMoves (.caller 1) (List.replicate 5 []) ++
    [.caller 0 1, .caller 0 1, .caller 0 1, .answer (.caller 1), .worker 0 0, .worker 0 0,
      .tick 0, .shutdown, .shutdown, .answer (.caller 3), .answer (.caller 3),
      .answer (.worker 0), .worker 0 0, .worker 0 0, .answer (.caller 3)]

/-- The flush thread ends, then the worker; the other shutdown is let in and turned away, and
so is the one of the caller that drops the service. -/
def endingMoves : List System.Move :=
  (["a"] :: List.replicate 4 []).map (.part (.flusher 0)) ++
    [.leave (.flusher 0), .endFlusher 0, .answer (.caller 3), .caller 0 3, .caller 0 3,
      .worker 0 0, .worker 0 0, .worker 0 0, .caller 0 3, .caller 0 3, .caller 0 3] ++
    callMoves (.caller 3) (["a"] :: List.replicate 2 []) ++
    [.answer (.caller 3), .answer (.caller 2), .answer (.caller 2), .answer (.caller 2), .drop,
      .answer (.caller 4), .answer (.caller 4), .answer (.caller 4)]

def contendedMoves : List System.Move := claimingMoves ++ endingMoves

theorem ends_once_contendedMoves :
    ∃ middle last, tight.start.run? claimingMoves = some middle ∧
      middle.service.front.stopped = true ∧ middle.run? endingMoves = some last ∧
      tight.start.shutdowns contendedMoves = [.caller 2, .caller 3, .caller 4] ∧
      tight.start.claims contendedMoves = [.caller 3, .caller 2, .caller 4] ∧
      tight.start.chronicle contendedMoves = lifetime (.caller 3) 1 ∧
      last.stage? (.caller 2) = some (.ready (.finish .returned)) ∧
      last.service.front.dropped = true ∧ last.isReleased = true ∧
      EndsOnce tight claimingMoves middle ∧ EndsOnce tight contendedMoves last := by
  obtain ⟨middle, last, hmiddle, hstopped, hlast, hbegun, hclaims, hseen, hreturned, hdropped,
      hfree⟩ :
      ∃ middle last, tight.start.run? claimingMoves = some middle ∧
        middle.service.front.stopped = true ∧ middle.run? endingMoves = some last ∧
        tight.start.shutdowns contendedMoves = [.caller 2, .caller 3, .caller 4] ∧
        tight.start.claims contendedMoves = [.caller 3, .caller 2, .caller 4] ∧
        tight.start.chronicle contendedMoves = lifetime (.caller 3) 1 ∧
        last.stage? (.caller 2) = some (.ready (.finish .returned)) ∧
        last.service.front.dropped = true ∧ last.isReleased = true :=
    ⟨_, _, rfl, rfl, rfl, rfl, rfl, rfl, rfl, rfl, rfl⟩
  exact ⟨middle, last, hmiddle, hstopped, hlast, hbegun, hclaims, hseen, hreturned, hdropped,
    hfree, ends_once hmiddle, ends_once (Steps.run?_append_of_run? hmiddle hlast)⟩

def careless : Dispatch where
  client := "a"
  batch := ⟨"host", [{ name := "load" }]⟩
  handler := fun _ => .use (.startFlusher 7) fun _ => .letGo <| .finish .returned

def carelessMoves : List System.Move :=
  .dispatch careless :: callMoves (.caller 0) (List.replicate 5 []) ++
    [.caller 0 0, .caller 0 0, .caller 0 0, .answer (.caller 0), .worker 0 0, .worker 0 0,
      .answer (.worker 0), .worker 0 0, .worker 0 0, .worker 0 0, .worker 0 0, .answer (.worker 0)]

/-- A service that a handler drops is never flushed at its end, and nobody waits for its flush
thread. -/
theorem never_flushed_carelessMoves :
    ∃ last, tight.start.run? carelessMoves = some last ∧
      last.service.front.dropped = true ∧ last.isReleased = true ∧
      last.service.front.stopped = false ∧ last.service.front.phase? 0 = some .waiting ∧
      last.service.front.site.controller.pending "a" = 1 ∧
      tight.start.chronicle carelessMoves = [.started 0, .abandoned 0] ∧
      ∀ rest after, last.run? rest = some after → ∀ thread,
        .flushed thread ∉ tight.start.chronicle (carelessMoves ++ rest) ∧
          .joined thread 0 ∉ tight.start.chronicle (carelessMoves ++ rest) := by
  obtain ⟨last, hrun, hdropped, hfree, hopen, hphase, hpending, hseen⟩ :
      ∃ last, tight.start.run? carelessMoves = some last ∧
        last.service.front.dropped = true ∧ last.isReleased = true ∧
        last.service.front.stopped = false ∧ last.service.front.phase? 0 = some .waiting ∧
        last.service.front.site.controller.pending "a" = 1 ∧
        tight.start.chronicle carelessMoves = [.started 0, .abandoned 0] :=
    ⟨_, rfl, rfl, rfl, rfl, rfl, rfl, rfl⟩
  refine ⟨last, hrun, hdropped, hfree, hopen, hphase, hpending, hseen, fun rest after hrest => ?_⟩
  have hnobody := System.point?_eq_none_of_isReleased (kept_of_free_run hrun).conducted hfree
  rw [chronicle_append_of_over hrun hdropped hnobody hrest, hseen]
  simp

end Setup

end Turnstile.Service

import Turnstile.Proofs.Service.Claims
import Turnstile.Proofs.Service.LifecycleSteps

/-!
The life of a service, from its first flush thread to its last flush. The shutdown that
claims it is the first to be let in, and does all there is to do before any other returns.
-/

namespace Turnstile.Service

open Function (update)

/-! What can be told of a service in the end. -/

def startings (count : Nat) : List Event := (List.range count).map .started

def abandonings (count : Nat) : List Event := (List.range count).map .abandoned

def signals (thread : Thread) (count : Nat) : List Event :=
  (List.range count).map (.signalled thread)

def joins (thread : Thread) (count : Nat) : List Event := (List.range count).map (.joined thread)

/-- Flush threads are started, all of them; then one thread claims the service, tells them
to end, waits for them, and flushes. -/
def lifetime (thread : Thread) (count : Nat) : List Event :=
  startings count ++ .claimed thread ::
    (signals thread count ++ joins thread count ++ [.flushed thread])

theorem mem_startings {event : Event} {count : Nat} (h : event ∈ startings count) :
    ∃ index, event = .started index := by
  obtain ⟨index, -, rfl⟩ := List.mem_map.mp h
  exact ⟨index, rfl⟩

namespace Front

variable {front : Front σ}

def AllEnded (front : Front σ) : Prop :=
  ∀ index < front.flushers.length, front.phase? index = some .ended

theorem AllEnded.of_mem {flusher : Flusher} (h : front.AllEnded) (hmem : flusher ∈ front.flushers) :
    flusher.phase = .ended := by
  obtain ⟨index, hflusher⟩ := List.mem_iff_getElem?.mp hmem
  have hended := h index (List.getElem?_eq_some_iff.mp hflusher).1
  rw [phase?, hflusher] at hended
  exact Option.some.inj hended

theorem allEnded_of_taken (hended : front.takenHasEnded = true)
    (htaken : front.taken?.toList = List.range front.flushers.length) : front.AllEnded := by
  intro index hindex
  have hmem : index ∈ front.taken?.toList := by
    rw [htaken]
    exact List.mem_range.mpr hindex
  have hsome : front.taken? = some index := Option.mem_toList.mp hmem
  have hflusher := List.getElem?_eq_getElem hindex
  simp only [takenHasEnded, hsome, hflusher, Option.all_some, decide_eq_true_eq] at hended
  rw [phase?, hflusher, Option.map_some, hended]

end Front

/-- How far a thread has come with its shutdown that has claimed the service: where it
stands, and what can be told of it since. -/
inductive Progress (front : Front σ) (phase : Pool.Phase) (thread : Thread) :
    Option ShutdownPoint → List Event → Prop
  | signalling : Progress front phase thread (some .signalling) [.claimed thread]
  | joining :
      Progress front phase thread (some .joining)
        (.claimed thread :: signals thread front.flushers.length)
  | closing (hended : front.AllEnded) :
      Progress front phase thread (some .closing) (.claimed thread ::
        (signals thread front.flushers.length ++ joins thread front.flushers.length))
  | flushing (hended : front.AllEnded) (hstopped : phase = .stopped) :
      Progress front phase thread (some .flushing) (.claimed thread ::
        (signals thread front.flushers.length ++ joins thread front.flushers.length))
  | leaving (hended : front.AllEnded) (hstopped : phase = .stopped) :
      Progress front phase thread (some .leaving) (.claimed thread ::
        (signals thread front.flushers.length ++ joins thread front.flushers.length ++
          [.flushed thread]))
  | gone (hended : front.AllEnded) (hstopped : phase = .stopped) :
      Progress front phase thread none (.claimed thread ::
        (signals thread front.flushers.length ++ joins thread front.flushers.length ++
          [.flushed thread]))

namespace Progress

variable {front after : Front σ} {phase later : Pool.Phase} {thread other : Thread}
  {point : ShutdownPoint} {point? next? : Option ShutdownPoint} {done events : List Event}
  {index : Nat}

theorem ne_entering (h : Progress front phase thread point? done) : point? ≠ some .entering := by
  cases h <;> nofun

theorem claimed_mem (h : Progress front phase thread point? done) : .claimed thread ∈ done := by
  cases h <;> exact List.mem_cons_self

theorem frame (h : Progress front phase thread point? done) (hsteady : front.Steady after)
    (hended : front.AllEnded → after.AllEnded) (hphase : phase = .stopped → later = .stopped) :
    Progress after later thread point? done := by
  cases h with
  | signalling => exact .signalling
  | joining => exact hsteady.count_eq ▸ .joining
  | closing hall => exact hsteady.count_eq ▸ .closing (hended hall)
  | flushing hall hstopped => exact hsteady.count_eq ▸ .flushing (hended hall) (hphase hstopped)
  | leaving hall hstopped => exact hsteady.count_eq ▸ .leaving (hended hall) (hphase hstopped)
  | gone hall hstopped => exact hsteady.count_eq ▸ .gone (hended hall) (hphase hstopped)

theorem goOn (h : Progress front phase thread (some point) done)
    (hshutdown : ShutdownStep front later thread point next? after events)
    (htaken : front.taken?.toList = List.range front.flushers.length)
    (hstopped : front.stopped = true)
    (hended : front.AllEnded → after.AllEnded) (hphase : phase = .stopped → later = .stopped) :
    Progress after later thread next? (done ++ events) := by
  have hcount := (hshutdown.steady hstopped).count_eq
  cases h with
  | signalling =>
      cases hshutdown with
      | signal =>
          rw [htaken, ← hcount]
          exact .joining
  | joining =>
      cases hshutdown with
      | join hhas =>
          rw [htaken]
          exact .closing (Front.allEnded_of_taken hhas htaken)
  | closing hall =>
      cases hshutdown with
      | close hclosed =>
          rw [List.append_nil]
          exact .flushing hall hclosed
  | flushing hall hclosed =>
      cases hshutdown with
      | flush _ _ _ =>
          rw [← hcount, List.cons_append]
          exact .leaving (hended hall) (hphase hclosed)
  | leaving hall hclosed =>
      cases hshutdown with
      | unlock =>
          rw [List.append_nil]
          exact .gone hall (hphase hclosed)

/-- What can be told so far is the beginning of what can be told in the end. -/
theorem isPrefix (h : Progress front phase thread point? done) :
    done <+: .claimed thread :: (signals thread front.flushers.length ++
      joins thread front.flushers.length ++ [.flushed thread]) := by
  cases h with
  | signalling => exact List.prefix_append [_] _
  | joining =>
      rw [List.append_assoc]
      exact List.prefix_append (_ :: _) _
  | closing _ => exact List.prefix_append (_ :: _) _
  | flushing _ _ => exact List.prefix_append (_ :: _) _
  | leaving _ _ => exact List.prefix_refl _
  | gone _ _ => exact List.prefix_refl _

theorem flushed_mem (h : Progress front phase thread point? done)
    (hpoint : point? = none ∨ point? = some .leaving) : .flushed thread ∈ done := by
  cases h with
  | leaving _ _ => simp
  | gone _ _ => simp
  | signalling => simp at hpoint
  | joining => simp at hpoint
  | closing _ => simp at hpoint
  | flushing _ _ => simp at hpoint

theorem of_flushed (h : Progress front phase thread point? done) (hmem : .flushed other ∈ done) :
    front.AllEnded ∧ phase = .stopped ∧ done = .claimed thread ::
      (signals thread front.flushers.length ++ joins thread front.flushers.length ++
        [.flushed thread]) := by
  cases h with
  | leaving hended hstopped => exact ⟨hended, hstopped, rfl⟩
  | gone hended hstopped => exact ⟨hended, hstopped, rfl⟩
  | signalling => simp at hmem
  | joining => simp [signals] at hmem
  | closing _ => simp [signals, joins] at hmem
  | flushing _ _ => simp [signals, joins] at hmem

theorem of_joined (h : Progress front phase thread point? done)
    (hmem : .joined other index ∈ done) : front.phase? index = some .ended := by
  obtain ⟨hindex, -⟩ : index < front.flushers.length ∧ thread = other := by
    simpa [signals, joins] using h.isPrefix.subset hmem
  cases h with
  | closing hended => exact hended index hindex
  | flushing hended _ => exact hended index hindex
  | leaving hended _ => exact hended index hindex
  | gone hended _ => exact hended index hindex
  | signalling => simp at hmem
  | joining => simp [signals] at hmem

end Progress

namespace System

variable {system after : System σ} {move : Move} {thread other : Thread}
  {next? : Option ShutdownPoint} {seen : List Event} {begun : List Thread}

/-- Of all threads that shut the service down from outside, at most one has been let in. -/
structure Exclusive (system : System σ) : Prop where
  held : ∀ thread point, system.point? thread = some point → point ≠ .entering →
    system.service.front.exclusive = true
  alone : ∀ thread other point latter, system.point? thread = some point →
    system.point? other = some latter → point ≠ .entering → latter ≠ .entering → thread = other

namespace Exclusive

theorem start (setup : Setup σ) : setup.start.Exclusive := by
  constructor
  · intro thread point hpoint
    cases (setup.point?_start thread).symm.trans hpoint
  · intro thread other point latter hpoint
    cases (setup.point?_start thread).symm.trans hpoint

theorem keep (h : system.Exclusive)
    (hexclusive : after.service.front.exclusive = system.service.front.exclusive)
    (hpoints : ∀ thread point, after.point? thread = some point → point ≠ .entering →
      ∃ old, system.point? thread = some old ∧ old ≠ .entering) : after.Exclusive where
  held := by
    intro thread point hpoint hne
    obtain ⟨old, hold, hin⟩ := hpoints thread point hpoint hne
    rw [hexclusive]
    exact h.held thread old hold hin
  alone := by
    intro thread other point latter hpoint hlatter hne hnot
    obtain ⟨old, hold, hin⟩ := hpoints thread point hpoint hne
    obtain ⟨elder, helder, helderIn⟩ := hpoints other latter hlatter hnot
    exact h.alone thread other old elder hold helder hin helderIn

theorem goOn (h : system.Exclusive)
    (hexclusive : after.service.front.exclusive = system.service.front.exclusive)
    (hpoints : after.point? = update system.point? thread next?)
    (hnext : ∀ point, next? = some point → point ≠ .entering →
      ∃ old, system.point? thread = some old ∧ old ≠ .entering) : after.Exclusive := by
  refine h.keep hexclusive fun other point hpoint hne => ?_
  rw [hpoints] at hpoint
  rcases Decidable.em (other = thread) with rfl | hother
  · rw [Function.update_self] at hpoint
    exact hnext point hpoint hne
  · rw [Function.update_of_ne hother] at hpoint
    exact ⟨point, hpoint, hne⟩

theorem enter (h : system.Exclusive) (hfree : system.service.front.exclusive = false)
    (hexclusive : after.service.front.exclusive = true)
    (hpoints : after.point? = update system.point? thread next?) : after.Exclusive := by
  have hmine (other : Thread) (point : ShutdownPoint) (hpoint : after.point? other = some point)
      (hne : point ≠ .entering) : other = thread := by
    by_contra hother
    rw [hpoints, Function.update_of_ne hother] at hpoint
    cases hfree.symm.trans (h.held other point hpoint hne)
  constructor
  · exact fun _ _ _ _ => hexclusive
  · intro one other point latter hpoint hlatter hne hnot
    rw [hmine one point hpoint hne, hmine other latter hlatter hnot]

theorem leave {point : ShutdownPoint} (h : system.Exclusive)
    (hpoint : system.point? thread = some point) (hne : point ≠ .entering)
    (hpoints : after.point? = update system.point? thread none) :
    after.Exclusive := by
  have hnone (other : Thread) (latter : ShutdownPoint)
      (hlatter : after.point? other = some latter) : latter = .entering := by
    by_contra hnot
    rw [hpoints] at hlatter
    rcases Decidable.em (other = thread) with rfl | hother
    · rw [Function.update_self] at hlatter
      cases hlatter
    · rw [Function.update_of_ne hother] at hlatter
      exact hother (h.alone other thread latter point hlatter hpoint hnot hne)
  constructor
  · exact fun other latter hlatter hnot => absurd (hnone other latter hlatter) hnot
  · exact fun other _ latter _ hlatter _ hnot _ => absurd (hnone other latter hlatter) hnot

theorem enters (h : system.Exclusive)
    (hexclusive : after.service.front.exclusive = system.service.front.exclusive)
    (hpoints : after.point? = update system.point? thread (some .entering)) : after.Exclusive := by
  refine h.goOn hexclusive hpoints fun point hpoint hne => ?_
  cases hpoint
  exact absurd rfl hne

theorem step (h : system.Exclusive) (hlife : LifecycleStep system after move) :
    after.Exclusive := by
  cases hlife with
  | keep hpoints _ hexclusive _ _ _ =>
      exact h.keep hexclusive fun _ point hpoint hne => ⟨point, hpoints ▸ hpoint, hne⟩
  | begin _ hpoints hfront => exact h.enters (congrArg Front.exclusive hfront) hpoints
  | drop _ hpoints hfront => exact h.enters (hfront ▸ rfl) hpoints
  | abandon _ _ hpoints hfront _ =>
      have hexclusive : after.service.front.exclusive = system.service.front.exclusive :=
        hfront ▸ system.service.front.exclusive_tellToEnd _
      exact h.keep hexclusive fun _ point hpoint hne => ⟨point, hpoints ▸ hpoint, hne⟩
  | start _ hopen hnone hpoints hfront _ =>
      have hexclusive : after.service.front.exclusive = system.service.front.exclusive := by
        simp [hfront, Front.startFlusher, hopen, hnone, Front.emit]
      exact h.keep hexclusive fun _ point hpoint hne => ⟨point, hpoints ▸ hpoint, hne⟩
  | goOn hpoint hpoints hshutdown _ =>
      generalize hfront : after.service.front = front at hshutdown
      generalize system.events move = events at hshutdown
      cases hshutdown with
      | enter hfree => exact h.enter hfree (hfront ▸ rfl) hpoints
      | unlock => exact h.leave hpoint (by decide) hpoints
      | claim _ => exact h.goOn (hfront ▸ rfl) hpoints fun _ _ _ => ⟨_, hpoint, by decide⟩
      | turnAway _ => exact h.goOn (hfront ▸ rfl) hpoints fun _ _ _ => ⟨_, hpoint, by decide⟩
      | signal =>
          have hexclusive := system.service.front.exclusive_tellToEnd system.service.front.taken?
          exact h.goOn (hfront ▸ hexclusive) hpoints fun _ _ _ => ⟨_, hpoint, by decide⟩
      | join _ => exact h.goOn (hfront ▸ rfl) hpoints fun _ _ _ => ⟨_, hpoint, by decide⟩
      | close _ => exact h.goOn (hfront ▸ rfl) hpoints fun _ _ _ => ⟨_, hpoint, by decide⟩
      | flush _ hexclusive _ =>
          exact h.goOn (hfront ▸ hexclusive) hpoints fun _ _ _ => ⟨_, hpoint, by decide⟩

end Exclusive

/-- Nobody has claimed the service, and there is no flush thread but the current one. -/
structure Unclaimed (system : System σ) (seen : List Event) : Prop where
  stopped_eq : system.service.front.stopped = false
  current?_eq : system.service.front.current?.toList =
    List.range system.service.front.flushers.length
  seen_eq : seen = startings system.service.front.flushers.length
  points : ∀ thread point, system.point? thread = some point → point = .entering ∨ point = .claiming

/-- One thread has claimed the service, and taken over its flush thread. Others that are let
in after it leave again. -/
structure Claimed (system : System σ) (seen : List Event) (thread : Thread) (done : List Event) :
    Prop where
  stopped_eq : system.service.front.stopped = true
  current?_eq : system.service.front.current? = none
  taken?_eq : system.service.front.taken?.toList = List.range system.service.front.flushers.length
  seen_eq : seen = startings system.service.front.flushers.length ++ done
  progress : Progress system.service.front system.service.pool.phase thread (system.point? thread)
    done
  others : ∀ other point, system.point? other = some point → other ≠ thread →
    point = .entering ∨ point = .claiming ∨ point = .leaving

/-- A job has let go of the service before it was shut down from outside. There is nobody then
who could still do so, or wait for its flush thread. -/
structure Abandoned (system : System σ) (seen : List Event) : Prop where
  dropped_eq : system.service.front.dropped = true
  stopped_eq : system.service.front.stopped = false
  current?_eq : system.service.front.current? = none
  count_le : system.service.front.flushers.length ≤ 1
  seen_eq : seen = startings system.service.front.flushers.length ++
    abandonings system.service.front.flushers.length
  points : ∀ thread, system.point? thread = none

/-- How the life of a service stands. -/
inductive Stand (system : System σ) (seen : List Event) : Prop
  | unclaimed (h : system.Unclaimed seen)
  | claimed {thread : Thread} {done : List Event} (h : system.Claimed seen thread done)
  | abandoned (h : system.Abandoned seen)

theorem count_le_of_toList {held? : Option Nat} {count : Nat}
    (h : held?.toList = List.range count) : count ≤ 1 := by
  have hlength := congrArg List.length h
  rw [List.length_range] at hlength
  exact hlength ▸ Option.length_toList_le

namespace Unclaimed

theorem start (setup : Setup σ) : setup.start.Unclaimed [] where
  stopped_eq := rfl
  current?_eq := rfl
  seen_eq := rfl
  points := by
    intro thread point hpoint
    cases (setup.point?_start thread).symm.trans hpoint

theorem keep (h : system.Unclaimed seen)
    (hsteady : system.service.front.Steady after.service.front)
    (hpoints : ∀ thread point, after.point? thread = some point →
      point = .entering ∨ point = .claiming) : after.Unclaimed seen where
  stopped_eq := hsteady.stopped_eq.trans h.stopped_eq
  current?_eq := by rw [hsteady.current?_eq, hsteady.count_eq, h.current?_eq]
  seen_eq := by rw [hsteady.count_eq, h.seen_eq]
  points := hpoints

theorem points_update {point : ShutdownPoint} (h : system.Unclaimed seen)
    (hpoints : after.point? = update system.point? thread (some point))
    (hpoint : point = .entering ∨ point = .claiming) (other : Thread) (latter : ShutdownPoint)
    (hlatter : after.point? other = some latter) : latter = .entering ∨ latter = .claiming := by
  rw [hpoints] at hlatter
  rcases Decidable.em (other = thread) with rfl | hne
  · rw [Function.update_self] at hlatter
    cases hlatter
    exact hpoint
  · rw [Function.update_of_ne hne] at hlatter
    exact h.points other latter hlatter

theorem started {interval : Nat} (h : system.Unclaimed seen)
    (hnone : system.service.front.current? = none) (hpoints : after.point? = system.point?)
    (hfront : after.service.front = system.service.front.startFlusher interval) :
    after.Unclaimed (seen ++ [.started system.service.front.flushers.length]) := by
  have hcount : system.service.front.flushers.length = 0 := by
    have hrange := h.current?_eq
    rw [hnone] at hrange
    exact List.range_eq_nil.mp hrange.symm
  simp only [Front.startFlusher, h.stopped_eq, hnone, Front.emit] at hfront
  exact {
    stopped_eq := by simp [hfront]
    current?_eq := by simp [hfront, hcount]
    seen_eq := by simp [hfront, hcount, h.seen_eq, startings]
    points := fun thread point hpoint => h.points thread point (hpoints ▸ hpoint) }

theorem claim (h : system.Unclaimed seen)
    (hpoints : after.point? = update system.point? thread (some .signalling))
    (hfront : after.service.front = { system.service.front with
      stopped := true, current? := none, taken? := system.service.front.current? }) :
    after.Claimed (seen ++ [.claimed thread]) thread [.claimed thread] where
  stopped_eq := by rw [hfront]
  current?_eq := by rw [hfront]
  taken?_eq := by
    rw [hfront]
    exact h.current?_eq
  seen_eq := by rw [hfront, h.seen_eq]
  progress := by
    rw [hpoints, Function.update_self]
    exact .signalling
  others := by
    intro other point hpoint hne
    rw [hpoints, Function.update_of_ne hne] at hpoint
    rcases h.points other point hpoint with hentering | hclaiming
    · exact .inl hentering
    · exact .inr (.inl hclaiming)

theorem abandon (h : system.Unclaimed seen) (hnobody : ∀ thread, system.point? thread = none)
    (hpoints : after.point? = system.point?)
    (hfront : after.service.front = system.service.front.abandon) :
    after.Abandoned (seen ++ system.service.front.current?.toList.map .abandoned) := by
  have hsteady := system.service.front.steady_tellToEnd system.service.front.current?
  have hcount : after.service.front.flushers.length = system.service.front.flushers.length :=
    hfront ▸ hsteady.count_eq
  exact {
    dropped_eq := hfront ▸ rfl
    stopped_eq := hfront ▸ hsteady.stopped_eq.trans h.stopped_eq
    current?_eq := hfront ▸ rfl
    count_le := hcount ▸ count_le_of_toList h.current?_eq
    seen_eq := by
      rw [hcount, h.seen_eq, h.current?_eq]
      rfl
    points := fun thread => hpoints ▸ hnobody thread }

theorem step (h : system.Unclaimed seen) (hlife : LifecycleStep system after move) :
    after.Stand (seen ++ system.events move) := by
  cases hlife with
  | keep hpoints hsteady _ _ hevents _ =>
      rw [hevents, List.append_nil]
      exact .unclaimed (h.keep hsteady fun thread point hpoint =>
        h.points thread point (hpoints ▸ hpoint))
  | begin _ hpoints hfront =>
      rw [events, List.append_nil]
      exact .unclaimed (h.keep (hfront ▸ .refl _) (h.points_update hpoints (.inl rfl)))
  | drop _ hpoints hfront =>
      rw [events, List.append_nil]
      have hsteady : system.service.front.Steady after.service.front :=
        hfront ▸ ⟨rfl, rfl, rfl, rfl⟩
      exact .unclaimed (h.keep hsteady (h.points_update hpoints (.inl rfl)))
  | abandon _ hnobody hpoints hfront hevents =>
      rw [hevents]
      exact .abandoned (h.abandon hnobody hpoints hfront)
  | start _ _ hnone hpoints hfront hevents =>
      rw [hevents]
      exact .unclaimed (h.started hnone hpoints hfront)
  | goOn hpoint hpoints hshutdown _ =>
      generalize hfront : after.service.front = front at hshutdown
      generalize system.events move = events at hshutdown ⊢
      have hearly := h.points _ _ hpoint
      cases hshutdown with
      | enter _ =>
          rw [List.append_nil]
          have hsteady : system.service.front.Steady after.service.front :=
            hfront ▸ ⟨rfl, rfl, rfl, rfl⟩
          exact .unclaimed (h.keep hsteady (h.points_update hpoints (.inr rfl)))
      | claim _ => exact .claimed (h.claim hpoints hfront)
      | turnAway hstopped => cases h.stopped_eq.symm.trans hstopped
      | signal => rcases hearly with hnot | hnot <;> cases hnot
      | join _ => rcases hearly with hnot | hnot <;> cases hnot
      | close _ => rcases hearly with hnot | hnot <;> cases hnot
      | flush _ _ _ => rcases hearly with hnot | hnot <;> cases hnot
      | unlock => rcases hearly with hnot | hnot <;> cases hnot

end Unclaimed

namespace Claimed

variable {done : List Event}

theorem keep {next : List Event} (h : system.Claimed seen thread done)
    (hsteady : system.service.front.Steady after.service.front)
    (hprogress : Progress after.service.front after.service.pool.phase thread (after.point? thread)
      (done ++ next))
    (hothers : ∀ other point, after.point? other = some point → other ≠ thread →
      point = .entering ∨ point = .claiming ∨ point = .leaving) :
    after.Claimed (seen ++ next) thread (done ++ next) where
  stopped_eq := hsteady.stopped_eq.trans h.stopped_eq
  current?_eq := hsteady.current?_eq.trans h.current?_eq
  taken?_eq := by rw [hsteady.taken?_eq, hsteady.count_eq, h.taken?_eq]
  seen_eq := by rw [hsteady.count_eq, h.seen_eq, List.append_assoc]
  progress := hprogress
  others := hothers

/-- A thread that has not claimed the service is let in, or turned away, or leaves. -/
theorem others_goOn {front : Front σ} {phase : Pool.Phase} {point : ShutdownPoint}
    {next : List Event} (h : system.Claimed seen thread done)
    (hpoint : system.point? other = some point) (hne : other ≠ thread)
    (hshutdown : ShutdownStep system.service.front phase other point next? front next) :
    next = [] ∧ ∀ latter, next? = some latter → latter = .claiming ∨ latter = .leaving := by
  have hearly := h.others other point hpoint hne
  cases hshutdown with
  | enter _ => exact ⟨rfl, fun _ hlatter => .inl (Option.some.inj hlatter).symm⟩
  | turnAway _ => exact ⟨rfl, fun _ hlatter => .inr (Option.some.inj hlatter).symm⟩
  | unlock => exact ⟨rfl, nofun⟩
  | claim hopen => cases h.stopped_eq.symm.trans hopen
  | signal => simp at hearly
  | join _ => simp at hearly
  | close _ => simp at hearly
  | flush _ _ _ => simp at hearly

theorem step (h : system.Claimed seen thread done) (hlife : LifecycleStep system after move)
    (hnew : thread ≠ system.newcomer)
    (hended : ∀ index, system.service.front.phase? index = some .ended →
      after.service.front.phase? index = some .ended)
    (hphase : system.service.pool.phase = .stopped → after.service.pool.phase = .stopped) :
    after.Claimed (seen ++ system.events move) thread (done ++ system.events move) := by
  have hsteady := hlife.steady h.stopped_eq h.current?_eq
  have hall (hall : system.service.front.AllEnded) : after.service.front.AllEnded :=
    fun index hindex => hended index (hall index (hsteady.count_eq ▸ hindex))
  have hframe (hsame : after.point? thread = system.point? thread) :
      Progress after.service.front after.service.pool.phase thread (after.point? thread)
        (done ++ []) := by
    rw [hsame, List.append_nil]
    exact h.progress.frame hsteady hall hphase
  have hstay (hpoints : after.point? = system.point?) : after.Claimed (seen ++ []) thread
      (done ++ []) :=
    h.keep hsteady (hframe (congrFun hpoints thread)) fun other point hpoint =>
      h.others other point (hpoints ▸ hpoint)
  have hbegin (hpoints : after.point? = update system.point? system.newcomer (some .entering)) :
      after.Claimed (seen ++ []) thread (done ++ []) := by
    refine h.keep hsteady (hframe ?_) fun other point hpoint hne => ?_
    · rw [hpoints, Function.update_of_ne hnew]
    · rw [hpoints, Function.update_apply] at hpoint
      split at hpoint
      · exact .inl (Option.some.inj hpoint).symm
      · exact h.others other point hpoint hne
  cases hlife with
  | keep hpoints _ _ _ hevents _ =>
      rw [hevents]
      exact hstay hpoints
  | begin _ hpoints _ => exact hbegin hpoints
  | drop _ hpoints _ => exact hbegin hpoints
  | abandon _ _ hpoints _ hevents =>
      rw [hevents, h.current?_eq]
      exact hstay hpoints
  | start _ hopen _ _ _ _ => cases h.stopped_eq.symm.trans hopen
  | @goOn _ mover _ _ hpoint hpoints hshutdown _ =>
      rcases Decidable.em (mover = thread) with rfl | hne
      · refine h.keep hsteady ?_ fun other point hother hnot => ?_
        · have hprogress := h.progress
          rw [hpoint] at hprogress
          rw [hpoints, Function.update_self]
          exact hprogress.goOn hshutdown h.taken?_eq h.stopped_eq hall hphase
        · rw [hpoints, Function.update_of_ne hnot] at hother
          exact h.others other point hother hnot
      · obtain ⟨hnext, hlatter⟩ := h.others_goOn hpoint hne hshutdown
        rw [hnext]
        refine h.keep hsteady (hframe ?_) fun other point hother hnot => ?_
        · rw [hpoints, Function.update_of_ne (Ne.symm hne)]
        · rw [hpoints, Function.update_apply] at hother
          split at hother
          · exact .inr (hlatter point hother)
          · exact h.others other point hother hnot

end Claimed

theorem Abandoned.step (h : system.Abandoned seen) (hlife : LifecycleStep system after move) :
    after.Abandoned seen ∧ system.events move = [] := by
  obtain ⟨hpoints, hsteady, hdropped, hevents⟩ := hlife.ofDropped h.dropped_eq h.points
  exact ⟨{
    dropped_eq := hdropped.trans h.dropped_eq
    stopped_eq := hsteady.stopped_eq.trans h.stopped_eq
    current?_eq := hsteady.current?_eq.trans h.current?_eq
    count_le := hsteady.count_eq ▸ h.count_le
    seen_eq := hsteady.count_eq ▸ h.seen_eq
    points := hpoints ▸ h.points }, hevents⟩

end System

end Turnstile.Service

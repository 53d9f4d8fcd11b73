import Turnstile.Proofs.Window.Recount

/-!
When a denied request is worth making again. The window that denied it is full, and stays as it
is until its oldest time expires; from then on there is room for one request at least.
-/

namespace Turnstile.Window

def after (window : Window) (calls : List Call) : Window :=
  calls.foldl (fun window call => (window.perform call).2) window

variable {limit span now later oldest : Nat} {window : Window}

theorem exists_times_eq_cons (h : window.oldest? = some oldest) :
    ∃ rest, window.times = oldest :: rest :=
  List.head?_eq_some_iff.mp h

theorem prune_of_oldest_live (h : window.oldest? = some oldest)
    (hlive : ¬ Expired now span oldest) :
    window.prune now span = window := by
  obtain ⟨times⟩ := window
  obtain ⟨rest, rfl⟩ := exists_times_eq_cons h
  simp [prune, hlive]

theorem size_prune_lt_of_oldest_expired (h : window.oldest? = some oldest)
    (hexpired : Expired now span oldest) : (window.prune now span).size < window.size := by
  have hsum := window.expiredCount_add_size_prune now span
  obtain ⟨rest, htimes⟩ := exists_times_eq_cons h
  have hsome : 0 < window.expiredCount now span := by
    rw [expiredCount, htimes, List.takeWhile_cons_of_pos (by simpa using hexpired)]
    exact Nat.succ_pos _
  omega

/-- As many times count as the limit allows, the first of them `oldest`. -/
structure Full (limit oldest : Nat) (window : Window) : Prop where
  oldest_eq : window.oldest? = some oldest
  size_eq : window.size = limit

namespace Full

theorem allow_of_live (h : Full limit oldest window) (hlive : ¬ Expired now span oldest) :
    window.allow now limit span = (false, window) := by
  have hprune := prune_of_oldest_live h.oldest_eq hlive
  rw [allow_of_le (by rw [hprune, h.size_eq]), hprune]

theorem allow_fst_iff (h : Full limit oldest window) :
    (window.allow later limit span).1 = true ↔ Expired later span oldest := by
  constructor
  · intro hallowed
    by_contra hlive
    rw [h.allow_of_live hlive] at hallowed
    cases hallowed
  · intro hexpired
    have hroom := size_prune_lt_of_oldest_expired h.oldest_eq hexpired
    rw [h.size_eq] at hroom
    rw [allow_of_lt hroom]

theorem perform_of_live (h : Full limit oldest window) {call : Call}
    (hcall : call = .allow call.now limit span ∨ call = .prune call.now span)
    (hlive : ¬ Expired call.now span oldest) : (window.perform call).2 = window := by
  rcases hcall with hcall | hcall <;> rw [hcall]
  · exact congrArg Prod.snd (h.allow_of_live hlive)
  · exact prune_of_oldest_live h.oldest_eq hlive

theorem after_and_answers (h : Full limit oldest window) {calls : List Call}
    (hcalls : ∀ call ∈ calls, (call = .allow call.now limit span ∨ call = .prune call.now span) ∧
      ¬ Expired call.now span oldest) :
    window.after calls = window ∧ ∀ answer ∈ answers (window.showings calls), answer = false := by
  induction calls with
  | nil => exact ⟨rfl, fun _ hmem => absurd hmem List.not_mem_nil⟩
  | cons call rest ih =>
      obtain ⟨⟨hcall, hlive⟩, hrest⟩ := List.forall_mem_cons.mp hcalls
      obtain ⟨hafter, hanswers⟩ := ih hrest
      have hsame := h.perform_of_live hcall hlive
      refine ⟨by rw [after, List.foldl_cons, hsame]; exact hafter, ?_⟩
      rw [showings, hsame]
      rcases hcall with hcall | hcall <;> rw [hcall]
      · rw [perform, h.allow_of_live hlive]
        exact List.forall_mem_cons.mpr ⟨rfl, hanswers⟩
      · exact hanswers

end Full

theorem Judged.full_of_denied {judged : List (Nat × Bool)} (hlimit : 0 < limit)
    (h : Judged limit span judged window) (hdenied : (window.allow now limit span).1 = false) :
    ∃ oldest, Full limit oldest (window.allow now limit span).2 ∧ ¬ Expired now span oldest := by
  rcases Nat.lt_or_ge (window.prune now span).size limit with hroom | hfull
  · rw [allow_of_lt hroom] at hdenied
    cases hdenied
  · have hsize := h.size_le
    have hsum := window.expiredCount_add_size_prune now span
    have hcount : (window.prune now span).size = limit := by omega
    rw [allow_of_le hfull]
    cases htimes : (window.prune now span).times with
    | nil =>
        rw [size, htimes, List.length_nil] at hcount
        omega
    | cons oldest rest =>
        refine ⟨oldest, ⟨congrArg List.head? htimes, hcount⟩, ?_⟩
        have hstop := List.head?_dropWhile_not (fun time => decide (Expired now span time))
          window.times
        rw [show window.times.dropWhile _ = _ from htimes] at hstop
        simpa using hstop

/-- Whoever is denied a request can read off when to make it again: not before the oldest time
the window shows has expired, whatever is asked of the window meanwhile, and then at once. -/
theorem retry_once_oldest_expired {judged : List (Nat × Bool)} (hlimit : 0 < limit)
    (h : Judged limit span judged window)
    (hsorted : (judged.map Prod.fst ++ [now]).Pairwise (· ≤ ·))
    (hdenied : (window.allow now limit span).1 = false) :
    (window.allow now limit span).2.size = limit ∧
      ∃ oldest, (window.allow now limit span).2.oldest? = some oldest ∧
        (∀ time ∈ (window.allow now limit span).2.times, oldest ≤ time) ∧
        oldest ≤ now ∧ now - oldest < span ∧
        ∀ calls : List Call,
          (∀ call ∈ calls, (call = .allow call.now limit span ∨ call = .prune call.now span) ∧
            call.now - oldest < span) →
          (∀ answer ∈ answers ((window.allow now limit span).2.showings calls), answer = false) ∧
          ∀ later,
            ((((window.allow now limit span).2.after calls).allow later limit span).1 = true ↔
              span ≤ later - oldest) := by
  rw [List.pairwise_append] at hsorted
  obtain ⟨hearlier, -, hlatest⟩ := hsorted
  have hremembers := (h.remembers hearlier fun reading hmem =>
    hlatest reading hmem now List.mem_cons_self).allow_snd (Nat.le_refl now) limit
  obtain ⟨oldest, hfull, hlive⟩ := h.full_of_denied hlimit hdenied
  obtain ⟨rest, htimes⟩ := exists_times_eq_cons hfull.oldest_eq
  obtain ⟨gone, hgone, -⟩ := hremembers.exists_gone
  refine ⟨hfull.size_eq, oldest, hfull.oldest_eq, ?_, ?_, Nat.lt_of_not_le hlive, ?_⟩
  · have hordered := hremembers.sorted_times
    rw [htimes] at hordered ⊢
    exact List.forall_mem_cons.mpr ⟨Nat.le_refl oldest, (List.pairwise_cons.mp hordered).1⟩
  · apply hremembers.le_now
    rw [hgone, htimes]
    exact List.mem_append_right gone List.mem_cons_self
  · intro calls hcalls
    obtain ⟨hafter, hanswers⟩ := hfull.after_and_answers fun call hmem =>
      ⟨(hcalls call hmem).1, Nat.not_le.mpr (hcalls call hmem).2⟩
    refine ⟨hanswers, fun later => ?_⟩
    rw [hafter]
    exact hfull.allow_fst_iff

/-- Asked of a window that two requests at one time have filled, up to the last nanosecond before
they expire. -/
def waitingCalls : List Call := [.allow 9 2 10, .prune 12 10, .allow 14 2 10]

theorem retry_once_oldest_expired_waitingCalls :
    0 < 2 ∧ Judged 2 10 [(5, true), (5, true)] ⟨[5, 5]⟩ ∧ [5, 5, 9].Pairwise (· ≤ ·) ∧
      ((⟨[5, 5]⟩ : Window).allow 9 2 10) = (false, ⟨[5, 5]⟩) ∧
      (⟨[5, 5]⟩ : Window).showings waitingCalls =
        [⟨.decided false, [5, 5]⟩, ⟨.pruned 0, [5, 5]⟩, ⟨.decided false, [5, 5]⟩] ∧
      ∀ later, ((((⟨[5, 5]⟩ : Window).after waitingCalls).allow later 2 10).1 = true ↔
        10 ≤ later - 5) := by
  have hjudged : Judged 2 10 [(5, true), (5, true)] ⟨[5, 5]⟩ := .allow 5 (.allow 5 .start)
  have hsorted : ([(5, true), (5, true)].map Prod.fst ++ [9]).Pairwise (· ≤ ·) := by decide
  obtain ⟨-, oldest, holdest, -, -, -, hwaiting⟩ :=
    retry_once_oldest_expired (by decide) hjudged hsorted (by decide)
  have hfirst : ((⟨[5, 5]⟩ : Window).allow 9 2 10).2.oldest? = some 5 := by decide
  obtain rfl : 5 = oldest := Option.some.inj (hfirst.symm.trans holdest)
  have hcalls : ∀ call ∈ waitingCalls,
      (call = .allow call.now 2 10 ∨ call = .prune call.now 10) ∧ call.now - 5 < 10 := by decide
  exact ⟨by decide, hjudged, hsorted, by decide, by decide, (hwaiting waitingCalls hcalls).2⟩

end Turnstile.Window

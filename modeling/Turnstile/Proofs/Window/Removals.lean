import Turnstile.Lists
import Turnstile.Proofs.Window.Retry

/-!
Windows whose readings may go back. The times that are kept need not be in order then, and one
that has expired can stay behind one that has not. Still nothing leaves a window but at its front
and when it has expired, so that each admission that comes a whole limit later has had to wait
for the end of a span.
-/

namespace Turnstile.Window

structure Entry where
  call : Call
  removed : List Nat
  reply : Reply
  deriving DecidableEq, Repr

namespace Entry

def admitted? (entry : Entry) : Option Nat :=
  match entry.reply with
  | .decided true => some entry.call.now
  | .decided false | .pruned _ => none

/-- How many times were removed: for a call to prune, as many as it said. -/
def removals (entry : Entry) : Nat :=
  match entry.reply with
  | .decided _ => entry.removed.length
  | .pruned count => count

end Entry

def enter (window : Window) (call : Call) : Entry where
  call := call
  removed := window.times.takeWhile fun time => Expired call.now call.span time
  reply := (window.perform call).1

def entries (window : Window) : List Call → List Entry
  | [] => []
  | call :: rest => window.enter call :: (window.perform call).2.entries rest

def admitted (entries : List Entry) : List Nat := entries.filterMap Entry.admitted?

def removed (entries : List Entry) : List Nat := entries.flatMap Entry.removed

variable {window : Window} {call : Call} {calls : List Call}

/-! One call. -/

theorem removed_append_prune (window : Window) (call : Call) :
    (window.enter call).removed ++ (window.prune call.now call.span).times = window.times :=
  List.takeWhile_append_dropWhile

theorem times_perform (window : Window) (call : Call) :
    (window.perform call).2.times =
      (window.prune call.now call.span).times ++ (window.enter call).admitted?.toList := by
  cases call with
  | allow now limit span =>
      rcases Nat.lt_or_ge (window.prune now span).size limit with hroom | hfull
      · simp only [enter, Entry.admitted?, perform, allow_of_lt hroom]
        rfl
      · simp only [enter, Entry.admitted?, perform, allow_of_le hfull]
        exact (List.append_nil _).symm
  | prune now span => exact (List.append_nil _).symm

theorem expired_of_mem_removed {time : Nat} (h : time ∈ (window.enter call).removed) :
    Expired call.now call.span time := by
  simpa using List.mem_takeWhile_imp h

theorem removals_enter (window : Window) (call : Call) :
    (window.enter call).removals = (window.enter call).removed.length := by
  cases call <;> rfl

theorem size_perform_le {limit span : Nat}
    (hcall : call = .allow call.now limit span ∨ call = .prune call.now span)
    (h : window.size ≤ limit) : (window.perform call).2.size ≤ limit := by
  have hsum := window.expiredCount_add_size_prune call.now span
  rcases hcall with hcall | hcall <;> rw [hcall]
  · rcases Nat.lt_or_ge (window.prune call.now span).size limit with hroom | hfull
    · rw [perform, allow_of_lt hroom]
      simp only [size, List.length_append, List.length_singleton] at hroom ⊢
      omega
    · rw [perform, allow_of_le hfull]
      simp only
      omega
  · simp only [perform]
    omega

/-! All calls together. -/

theorem times_append_admitted (window : Window) (calls : List Call) :
    window.times ++ admitted (window.entries calls) =
      removed (window.entries calls) ++ (window.after calls).times := by
  induction calls generalizing window with
  | nil => exact List.append_nil _
  | cons call rest ih =>
      have hadmitted : admitted (window.entries (call :: rest)) =
          (window.enter call).admitted?.toList ++
            admitted ((window.perform call).2.entries rest) := by
        rw [entries, admitted, List.filterMap_cons]
        cases (window.enter call).admitted? <;> rfl
      calc window.times ++ admitted (window.entries (call :: rest))
          = (window.enter call).removed ++ ((window.perform call).2.times ++
              admitted ((window.perform call).2.entries rest)) := by
            rw [hadmitted, times_perform, ← removed_append_prune window call]
            simp only [List.append_assoc]
        _ = (window.enter call).removed ++ (removed ((window.perform call).2.entries rest) ++
              ((window.perform call).2.after rest).times) := by rw [ih]
        _ = removed (window.entries (call :: rest)) ++ (window.after (call :: rest)).times :=
            (List.append_assoc ..).symm

theorem exists_enter_of_mem {entry : Entry} (h : entry ∈ window.entries calls) :
    ∃ earlier : Window, ∃ call ∈ calls, entry = earlier.enter call := by
  induction calls generalizing window with
  | nil => cases h
  | cons call rest ih =>
      rcases List.mem_cons.mp h with rfl | hrest
      · exact ⟨window, call, List.mem_cons_self, rfl⟩
      · obtain ⟨earlier, other, hmem, hentry⟩ := ih hrest
        exact ⟨earlier, other, List.mem_cons_of_mem call hmem, hentry⟩

theorem length_removed (window : Window) (calls : List Call) :
    (removed (window.entries calls)).length =
      sumOf Entry.removals (window.entries calls) := by
  induction calls generalizing window with
  | nil => rfl
  | cons call rest ih =>
      rw [entries, removed, List.flatMap_cons, List.length_append, sumOf_cons, removals_enter,
        ← ih]
      rfl

theorem size_after_le {limit span : Nat}
    (hcalls : ∀ call ∈ calls, call = .allow call.now limit span ∨ call = .prune call.now span)
    (h : window.size ≤ limit) : (window.after calls).size ≤ limit := by
  induction calls generalizing window with
  | nil => exact h
  | cons call rest ih =>
      obtain ⟨hcall, hrest⟩ := List.forall_mem_cons.mp hcalls
      exact ih hrest (size_perform_le hcall h)

/-- The window is never larger than the limit, so of the times that were admitted all but the
last few have been removed, each by a call that found it expired. -/
theorem exists_call_of_admitted {limit span place first : Nat} (hspan : 0 < span)
    (hcalls : ∀ call ∈ calls, call = .allow call.now limit span ∨ call = .prune call.now span)
    (hfirst : (admitted (({} : Window).entries calls))[place]? = some first)
    (hplace : place + limit < (admitted (({} : Window).entries calls)).length) :
    ∃ call ∈ calls, first + span ≤ call.now := by
  have hsplit := times_append_admitted {} calls
  rw [List.nil_append] at hsplit
  have hsize : (({} : Window).after calls).size ≤ limit := size_after_le hcalls (Nat.zero_le limit)
  have hgone : place < (removed (({} : Window).entries calls)).length := by
    rw [hsplit, List.length_append] at hplace
    simp only [size] at hsize
    omega
  rw [hsplit, List.getElem?_append_left hgone] at hfirst
  obtain ⟨entry, hentry, hmem⟩ := List.mem_flatMap.mp (List.mem_of_getElem? hfirst)
  obtain ⟨earlier, call, hcall, rfl⟩ := exists_enter_of_mem hentry
  refine ⟨call, hcall, ?_⟩
  have hexpired := expired_of_mem_removed hmem
  have hsame : call.span = span := by
    rcases hcalls call hcall with hform | hform <;> rw [hform] <;> rfl
  rw [hsame] at hexpired
  simp only [Expired] at hexpired
  omega

/-- Whatever the times and the settings of the calls, a window keeps what it admitted in the order
of admission, less some first part, all of which had expired when it was removed. Requests are
admitted as long as fewer than their limit are left, and with one limit and one span for all, no
admission comes a whole limit after another unless a span has been seen to end since. -/
theorem only_expired_removed (calls : List Call) :
    admitted (({} : Window).entries calls) =
        removed (({} : Window).entries calls) ++ (({} : Window).after calls).times ∧
      (admitted (({} : Window).entries calls)).length =
        (({} : Window).after calls).size +
          sumOf Entry.removals (({} : Window).entries calls) ∧
      (∀ entry ∈ ({} : Window).entries calls, ∀ time ∈ entry.removed,
        entry.call.span ≤ entry.call.now - time) ∧
      (∀ next : Call, ((({} : Window).after calls).enter next).removed ++
          ((({} : Window).after calls).prune next.now next.span).times =
        (({} : Window).after calls).times) ∧
      (∀ now limit span,
        (((({} : Window).after calls).allow now limit span).1 = true ↔
          ((({} : Window).after calls).prune now span).size < limit) ∧
        (((({} : Window).after calls).allow now limit span).1 = true →
          ((({} : Window).after calls).allow now limit span).2.size ≤ limit)) ∧
      ∀ limit span, 0 < span →
        (∀ call ∈ calls, call = .allow call.now limit span ∨ call = .prune call.now span) →
        ∀ place first, (admitted (({} : Window).entries calls))[place]? = some first →
          place + limit < (admitted (({} : Window).entries calls)).length →
          ∃ call ∈ calls, first + span ≤ call.now := by
  have hsplit := times_append_admitted {} calls
  rw [List.nil_append] at hsplit
  refine ⟨hsplit, ?_, ?_, fun _ => removed_append_prune _ _, ?_, ?_⟩
  · rw [hsplit, List.length_append, length_removed, Nat.add_comm]
    rfl
  · intro entry hentry time hmem
    obtain ⟨earlier, call, -, rfl⟩ := exists_enter_of_mem hentry
    exact expired_of_mem_removed hmem
  · intro now limit span
    have hiff := (({} : Window).after calls).allow_fst_iff now limit span
    refine ⟨hiff, fun hallowed => ?_⟩
    have hroom := hiff.mp hallowed
    rw [allow_of_lt hroom]
    simp only [size, List.length_append, List.length_singleton] at hroom ⊢
    omega
  · intro limit span hspan hcalls place first hfirst hplace
    exact exists_call_of_admitted hspan hcalls hfirst hplace

/-- The clock is set back twice. At 25 the second time has expired, but stands behind the first,
which has not. -/
def backwardCalls : List Call :=
  [.allow 20 2 10, .allow 5 2 10, .allow 25 2 10, .prune 16 10, .allow 30 2 10, .allow 3 2 10]

theorem only_expired_removed_backwardCalls :
    0 < 10 ∧
      (∀ call ∈ backwardCalls, call = .allow call.now 2 10 ∨ call = .prune call.now 10) ∧
      admitted (({} : Window).entries backwardCalls) = [20, 5, 30, 3] ∧
      removed (({} : Window).entries backwardCalls) = [20, 5] ∧
      (({} : Window).after backwardCalls).times = [30, 3] ∧
      ∃ call ∈ backwardCalls, 20 + 10 ≤ call.now := by
  have hcalls : ∀ call ∈ backwardCalls,
      call = .allow call.now 2 10 ∨ call = .prune call.now 10 := by decide
  have hadmitted : admitted (({} : Window).entries backwardCalls) = [20, 5, 30, 3] := by decide
  obtain ⟨-, -, -, -, -, hwaited⟩ := only_expired_removed backwardCalls
  refine ⟨by decide, hcalls, hadmitted, by decide, by decide, ?_⟩
  exact hwaited 2 10 (by decide) hcalls 0 20 (by decide) (by decide)

end Turnstile.Window

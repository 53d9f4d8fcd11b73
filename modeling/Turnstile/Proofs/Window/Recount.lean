import Turnstile.Proofs.Window.Judged

/-!
A window forgets a time once it sees that it has expired, and looks at the front only. As long
as readings never fall it decides all the same as if it had kept every time it ever admitted,
and had counted them all anew at each call.
-/

namespace Turnstile.Window

/-! What can be asked of a window, one call after the other. -/

inductive Call
  | allow (now limit span : Nat)
  | prune (now span : Nat)
  deriving DecidableEq, Repr

namespace Call

def now : Call → Nat
  | .allow now _ _ | .prune now _ => now

def span : Call → Nat
  | .allow _ _ span | .prune _ span => span

def isRequest : Call → Bool
  | .allow .. => true
  | .prune .. => false

end Call

inductive Reply
  | decided (allowed : Bool)
  | pruned (count : Nat)
  deriving DecidableEq, Repr

structure Showing where
  reply : Reply
  times : List Nat
  deriving DecidableEq, Repr

def perform (window : Window) : Call → Reply × Window
  | .allow now limit span =>
      (.decided (window.allow now limit span).1, (window.allow now limit span).2)
  | .prune now span => (.pruned (window.expiredCount now span), window.prune now span)

def showings (window : Window) : List Call → List Showing
  | [] => []
  | call :: rest =>
      let next := (window.perform call).2
      ⟨(window.perform call).1, next.times⟩ :: next.showings rest

def answers : List Showing → List Bool
  | [] => []
  | ⟨.decided allowed, _⟩ :: rest => allowed :: answers rest
  | ⟨.pruned _, _⟩ :: rest => answers rest

/-! Counting anew. -/

def live (now span : Nat) (times : List Nat) : List Nat :=
  times.filter fun time => ¬ Expired now span time

/-- Admits a request if fewer than `limit` of all admitted times are live. -/
def countAnew (now limit span : Nat) (admitted : List Nat) : Bool × List Nat :=
  if (live now span admitted).length < limit then (true, admitted ++ [now]) else (false, admitted)

/-- Keeps every time that was ever admitted, and shows those that were live at the latest call. -/
structure Recount where
  admitted : List Nat := []
  shown : List Nat := []
  deriving DecidableEq, Repr

namespace Recount

def upTo (now span : Nat) (admitted : List Nat) : Recount where
  admitted := admitted
  shown := live now span admitted

def perform (recount : Recount) : Call → Reply × Recount
  | .allow now limit span =>
      let (allowed, admitted) := countAnew now limit span recount.admitted
      (.decided allowed, upTo now span admitted)
  | .prune now span =>
      (.pruned (recount.shown.countP fun time => Expired now span time),
        upTo now span recount.admitted)

def showings (recount : Recount) : List Call → List Showing
  | [] => []
  | call :: rest =>
      let next := (recount.perform call).2
      ⟨(recount.perform call).1, next.shown⟩ :: next.showings rest

/-- What is no request has no part in the answers to those that are. -/
theorem answers_showings {recount other : Recount} (h : recount.admitted = other.admitted)
    (calls : List Call) :
    answers (recount.showings calls) = answers (other.showings (calls.filter Call.isRequest)) := by
  induction calls generalizing recount other with
  | nil => rfl
  | cons call rest ih =>
      cases call with
      | allow now limit span =>
          simp only [showings, perform, h, answers]
          exact congrArg _ (ih rfl)
      | prune now span =>
          rw [List.filter_cons_of_neg (by simp [Call.isRequest])]
          exact ih h

end Recount

/-! What a window remembers of the times it has admitted. -/

@[simp] theorem live_append (now span : Nat) (first second : List Nat) :
    live now span (first ++ second) = live now span first ++ live now span second :=
  List.filter_append ..

theorem live_eq_nil {now span : Nat} {times : List Nat}
    (h : ∀ time ∈ times, Expired now span time) : live now span times = [] :=
  List.filter_eq_nil_iff.mpr fun time hmem => by simpa using h time hmem

theorem live_now {span : Nat} (hspan : 0 < span) (now : Nat) : live now span [now] = [now] := by
  have hfresh : ¬ Expired now span now := by
    simp only [Expired]
    omega
  simp [live, hfresh]

theorem Expired.of_le {now span time earlier : Nat} (h : Expired now span time)
    (hle : earlier ≤ time) : Expired now span earlier := by
  simp only [Expired] at h ⊢
  omega

theorem times_prune_of_sorted {window : Window} (h : window.times.Pairwise (· ≤ ·))
    (now span : Nat) : (window.prune now span).times = live now span window.times := by
  obtain ⟨times⟩ := window
  change times.dropWhile _ = times.filter _
  induction times with
  | nil => rfl
  | cons time rest ih =>
      obtain ⟨hfirst, hrest⟩ := List.pairwise_cons.mp h
      rcases Decidable.em (Expired now span time) with hexpired | hlive
      · rw [List.dropWhile_cons_of_pos (by simpa using hexpired),
          List.filter_cons_of_neg (by simpa using hexpired)]
        exact ih hrest
      · have hall : ∀ other ∈ time :: rest, ¬ Expired now span other := by
          intro other hmem hother
          rcases List.mem_cons.mp hmem with rfl | hmem
          · exact hlive hother
          · exact hlive (hother.of_le (hfirst other hmem))
        rw [List.dropWhile_cons_of_neg (by simpa using hlive)]
        exact (List.filter_eq_self.mpr fun other hmem => by simpa using hall other hmem).symm

theorem expiredCount_of_sorted {window : Window} (h : window.times.Pairwise (· ≤ ·))
    (now span : Nat) :
    window.expiredCount now span = window.times.countP fun time => Expired now span time := by
  have hsize := window.expiredCount_add_size_prune now span
  have hcount := List.length_eq_countP_add_countP (fun time => decide (Expired now span time))
    (l := window.times)
  rw [size, size, times_prune_of_sorted h, live, ← List.countP_eq_length_filter] at hsize
  simp only [decide_not, decide_eq_true_eq] at hsize hcount
  omega

/-- The window holds the latest of the admitted times; those before have expired by `now`. -/
structure Remembers (span now : Nat) (admitted : List Nat) (window : Window) : Prop where
  sorted : admitted.Pairwise (· ≤ ·)
  le_now : ∀ time ∈ admitted, time ≤ now
  exists_gone : ∃ gone, admitted = gone ++ window.times ∧ ∀ time ∈ gone, Expired now span time

namespace Remembers

variable {span now later limit : Nat} {admitted : List Nat} {window : Window}

theorem start (span now : Nat) : Remembers span now [] {} where
  sorted := .nil
  le_now := fun _ hmem => absurd hmem List.not_mem_nil
  exists_gone := ⟨[], rfl, fun _ hmem => absurd hmem List.not_mem_nil⟩

theorem mono (h : Remembers span now admitted window) (hlater : now ≤ later) :
    Remembers span later admitted window where
  sorted := h.sorted
  le_now := fun time hmem => Nat.le_trans (h.le_now time hmem) hlater
  exists_gone := by
    obtain ⟨gone, hgone, hexpired⟩ := h.exists_gone
    exact ⟨gone, hgone, fun time hmem => (hexpired time hmem).mono hlater⟩

theorem sorted_times (h : Remembers span now admitted window) :
    window.times.Pairwise (· ≤ ·) := by
  obtain ⟨gone, hgone, -⟩ := h.exists_gone
  exact (List.pairwise_append.mp (hgone ▸ h.sorted)).2.1

theorem times_prune (h : Remembers span now admitted window) (hlater : now ≤ later) :
    (window.prune later span).times = live later span admitted := by
  obtain ⟨gone, hgone, hexpired⟩ := (h.mono hlater).exists_gone
  rw [times_prune_of_sorted h.sorted_times, hgone, live_append, live_eq_nil hexpired,
    List.nil_append]

theorem prune (h : Remembers span now admitted window) (hlater : now ≤ later) :
    Remembers span later admitted (window.prune later span) where
  sorted := h.sorted
  le_now := (h.mono hlater).le_now
  exists_gone := by
    obtain ⟨gone, hgone, hexpired⟩ := (h.mono hlater).exists_gone
    obtain ⟨pruned, hpruned, hprunedExpired⟩ := window.exists_times_eq_append_prune later span
    refine ⟨gone ++ pruned, ?_, fun time hmem => ?_⟩
    · rw [List.append_assoc, ← hpruned, hgone]
    · rcases List.mem_append.mp hmem with hold | hnew
      · exact hexpired time hold
      · exact hprunedExpired time hnew

theorem admission (h : Remembers span now admitted window) (hlater : now ≤ later) :
    Remembers span later (admitted ++ [later]) ⟨window.times ++ [later]⟩ where
  sorted := by
    rw [List.pairwise_append]
    refine ⟨h.sorted, List.pairwise_singleton .., fun time hmem other hother => ?_⟩
    rw [List.mem_singleton.mp hother]
    exact (h.mono hlater).le_now time hmem
  le_now := by
    intro time hmem
    rcases List.mem_append.mp hmem with hold | hnew
    · exact (h.mono hlater).le_now time hold
    · exact Nat.le_of_eq (List.mem_singleton.mp hnew)
  exists_gone := by
    obtain ⟨gone, hgone, hexpired⟩ := (h.mono hlater).exists_gone
    exact ⟨gone, by rw [hgone, List.append_assoc], hexpired⟩

theorem size_prune (h : Remembers span now admitted window) (hlater : now ≤ later) :
    (window.prune later span).size = (live later span admitted).length := by
  rw [size, h.times_prune hlater]

theorem allow_fst (h : Remembers span now admitted window) (hlater : now ≤ later) (limit : Nat) :
    (window.allow later limit span).1 = (countAnew later limit span admitted).1 := by
  rw [countAnew, ← h.size_prune hlater, allow]
  split <;> rfl

theorem allow_snd (h : Remembers span now admitted window) (hlater : now ≤ later) (limit : Nat) :
    Remembers span later (countAnew later limit span admitted).2
      (window.allow later limit span).2 := by
  rw [countAnew, ← h.size_prune hlater, allow]
  split
  · exact (h.prune hlater).admission (Nat.le_refl later)
  · exact h.prune hlater

theorem times_allow (h : Remembers span now admitted window) (hspan : 0 < span)
    (hlater : now ≤ later) (limit : Nat) :
    (window.allow later limit span).2.times =
      live later span (countAnew later limit span admitted).2 := by
  rw [countAnew, ← h.size_prune hlater, allow]
  split
  · rw [live_append, live_now hspan, ← h.times_prune hlater]
  · exact h.times_prune hlater

end Remembers

theorem Judged.remembers {limit span now : Nat} {judged : List (Nat × Bool)} {window : Window}
    (h : Judged limit span judged window) (hsorted : (judged.map Prod.fst).Pairwise (· ≤ ·))
    (hnow : ∀ reading ∈ judged.map Prod.fst, reading ≤ now) :
    Remembers span now (admissions judged) window := by
  have hsublist : (admissions judged).Sublist (judged.map Prod.fst) :=
    (List.filter_sublist ..).map Prod.fst
  obtain ⟨gone, hgone, hexpired⟩ := h.exists_admissions_eq_append hsorted
  exact ⟨hsorted.sublist hsublist, fun time hmem => hnow time (hsublist.subset hmem),
    gone, hgone, hexpired now hnow⟩

/-! The window against the recount. -/

/-- The window stands where the recount does, after calls up to `now`. -/
structure Matches (span now : Nat) (recount : Recount) (window : Window) : Prop where
  remembers : Remembers span now recount.admitted window
  shown_eq : recount.shown = window.times

namespace Matches

variable {span now : Nat} {recount : Recount} {window : Window}

theorem perform {call : Call} (h : Matches call.span now recount window) (hspan : 0 < call.span)
    (hlater : now ≤ call.now) :
    (recount.perform call).1 = (window.perform call).1 ∧
      Matches call.span call.now (recount.perform call).2 (window.perform call).2 := by
  cases call with
  | allow later limit span =>
      exact ⟨congrArg Reply.decided (h.remembers.allow_fst hlater limit).symm,
        h.remembers.allow_snd hlater limit, (h.remembers.times_allow hspan hlater limit).symm⟩
  | prune later span =>
      have hcount := expiredCount_of_sorted h.remembers.sorted_times later span
      rw [← h.shown_eq] at hcount
      exact ⟨congrArg Reply.pruned hcount.symm, h.remembers.prune hlater,
        (h.remembers.times_prune hlater).symm⟩

theorem showings_eq (h : Matches span now recount window) (hspan : 0 < span) {calls : List Call}
    (huniform : ∀ call ∈ calls, call.span = span)
    (hsorted : (now :: calls.map Call.now).Pairwise (· ≤ ·)) :
    window.showings calls = recount.showings calls := by
  induction calls generalizing now recount window with
  | nil => rfl
  | cons call rest ih =>
      obtain ⟨hlater, hrest⟩ := List.pairwise_cons.mp hsorted
      have hsame := huniform call List.mem_cons_self
      subst hsame
      obtain ⟨hreply, hnext⟩ := h.perform hspan (hlater _ List.mem_cons_self)
      simp only [Window.showings, Recount.showings]
      rw [hreply, hnext.shown_eq,
        ih hnext (fun other hmem => huniform other (List.mem_cons_of_mem call hmem)) hrest]

end Matches

/-- As long as readings do not fall, a window that looks at its front only shows what counting
all admitted times anew would show: the same decisions, the live times in order, and at each
pruning the number of times that had expired. So it matters to no request how often the window
was pruned before. -/
theorem showings_eq_recount {span : Nat} (hspan : 0 < span) {calls : List Call}
    (huniform : ∀ call ∈ calls, call.span = span)
    (hsorted : (calls.map Call.now).Pairwise (· ≤ ·)) :
    ({} : Window).showings calls = ({} : Recount).showings calls ∧
      ∀ others : List Call, (∀ call ∈ others, call.span = span) →
        (others.map Call.now).Pairwise (· ≤ ·) →
        others.filter Call.isRequest = calls.filter Call.isRequest →
        answers (({} : Window).showings others) = answers (({} : Window).showings calls) := by
  have hstart : Matches span 0 {} {} := ⟨.start span 0, rfl⟩
  have hshowings {calls : List Call} (huniform : ∀ call ∈ calls, call.span = span)
      (hsorted : (calls.map Call.now).Pairwise (· ≤ ·)) :
      ({} : Window).showings calls = ({} : Recount).showings calls :=
    hstart.showings_eq hspan huniform
      (List.pairwise_cons.mpr ⟨fun _ _ => Nat.zero_le _, hsorted⟩)
  refine ⟨hshowings huniform hsorted, fun others hothers hordered hsame => ?_⟩
  rw [hshowings huniform hsorted, hshowings hothers hordered, Recount.answers_showings rfl others,
    Recount.answers_showings rfl calls, hsame]

/-- Two times in one reading, one that is exactly a span old, a limit of zero, and the latest
reading there is. -/
def unevenCalls : List Call :=
  [.allow 0 2 10, .allow 0 2 10, .allow 9 2 10, .prune 10 10, .allow 10 1 10, .allow 10 0 10,
    .allow (UInt64.size - 1) 1 10]

theorem showings_eq_recount_unevenCalls :
    0 < 10 ∧ (∀ call ∈ unevenCalls, call.span = 10) ∧
      (unevenCalls.map Call.now).Pairwise (· ≤ ·) ∧
      ({} : Window).showings unevenCalls = ({} : Recount).showings unevenCalls ∧
      answers (({} : Window).showings unevenCalls) = [true, true, false, true, false, true] ∧
      answers (({} : Window).showings (unevenCalls.filter Call.isRequest)) =
        answers (({} : Window).showings unevenCalls) := by
  have huniform : ∀ call ∈ unevenCalls, call.span = 10 := by decide
  have hsorted : (unevenCalls.map Call.now).Pairwise (· ≤ ·) := by decide
  obtain ⟨hshowings, hothers⟩ := showings_eq_recount (by decide) huniform hsorted
  exact ⟨by decide, huniform, hsorted, hshowings, by decide,
    hothers _ (by decide) (by decide) (by decide)⟩

end Turnstile.Window

import Mathlib.Data.List.TakeWhile
import Turnstile.Window

/-!
Windows that come about by requests. A window forgets the times that have left
the span, but as long as the readings never fall, those can no longer lie in
any span together with a later one. So the requests that a window has admitted
keep to the limit over every span of time, wherever it begins.
-/

namespace Turnstile.Window

/-- A window that has judged requests one after the other, each at its reading
and with its answer, and none besides. -/
inductive Judged (limit span : Nat) : List (Nat × Bool) → Window → Prop
  | start : Judged limit span [] {}
  | allow (now : Nat) (h : Judged limit span judged window) :
      Judged limit span (judged ++ [(now, (window.allow now limit span).1)])
        (window.allow now limit span).2

def admissions (judged : List (Nat × Bool)) : List Nat :=
  (judged.filter fun request => request.2).map Prod.fst

@[simp] theorem admissions_append (first second : List (Nat × Bool)) :
    admissions (first ++ second) = admissions first ++ admissions second := by
  simp [admissions]

@[simp] theorem admissions_allowed (now : Nat) : admissions [(now, true)] = [now] := rfl

@[simp] theorem admissions_denied (now : Nat) : admissions [(now, false)] = [] := rfl

def countWithin (start span : Nat) (times : List Nat) : Nat :=
  times.countP fun time => start ≤ time && time < start + span

@[simp] theorem countWithin_append (start span : Nat) (first second : List Nat) :
    countWithin start span (first ++ second) =
      countWithin start span first + countWithin start span second :=
  List.countP_append

theorem countWithin_le_length (start span : Nat) (times : List Nat) :
    countWithin start span times ≤ times.length :=
  List.countP_le_length

theorem allow_of_lt {window : Window} {now limit span : Nat}
    (h : (window.prune now span).size < limit) :
    window.allow now limit span = (true, ⟨(window.prune now span).times ++ [now]⟩) := by
  simp only [allow, h, if_true]

theorem allow_of_le {window : Window} {now limit span : Nat}
    (h : limit ≤ (window.prune now span).size) :
    window.allow now limit span = (false, window.prune now span) := by
  simp only [allow, Nat.not_lt.mpr h, if_false]

theorem exists_times_eq_append_prune (window : Window) (now span : Nat) :
    ∃ expired, window.times = expired ++ (window.prune now span).times ∧
      ∀ time ∈ expired, Expired now span time := by
  refine ⟨window.times.takeWhile fun time => Expired now span time, ?_, ?_⟩
  · exact List.takeWhile_append_dropWhile.symm
  · intro time hmem
    simpa using List.mem_takeWhile_imp hmem

theorem Expired.mono {now later span time : Nat} (h : Expired now span time)
    (hle : now ≤ later) : Expired later span time := by
  simp only [Expired] at h ⊢
  omega

theorem Expired.countWithin_eq_zero {now span start : Nat} {times : List Nat}
    (h : ∀ time ∈ times, Expired now span time) (hwithin : now < start + span) :
    countWithin start span times = 0 := by
  rw [countWithin, List.countP_eq_zero]
  intro time hmem
  have hexpired := h time hmem
  simp only [Expired] at hexpired
  simp only [Bool.and_eq_true, decide_eq_true_eq, not_and, Nat.not_lt]
  omega

namespace Judged

variable {limit span : Nat} {judged : List (Nat × Bool)} {window : Window}

theorem size_le (h : Judged limit span judged window) : window.size ≤ limit := by
  induction h with
  | start => exact Nat.zero_le _
  | @allow judged window now h ih =>
      have hprune := window.expiredCount_add_size_prune now span
      rcases Nat.lt_or_ge (window.prune now span).size limit with hroom | hfull
      · rw [allow_of_lt hroom]
        simp only [size, List.length_append, List.length_singleton] at hroom ⊢
        omega
      · rw [allow_of_le hfull]
        simp only
        omega

/-- The window holds the latest admissions; those before have expired. -/
theorem exists_admissions_eq_append (h : Judged limit span judged window)
    (hsorted : (judged.map Prod.fst).Pairwise (· ≤ ·)) :
    ∃ gone, admissions judged = gone ++ window.times ∧
      ∀ now, (∀ reading ∈ judged.map Prod.fst, reading ≤ now) →
        ∀ time ∈ gone, Expired now span time := by
  induction h with
  | start => exact ⟨[], rfl, by simp⟩
  | @allow judged window now h ih =>
      rw [List.map_append, List.pairwise_append] at hsorted
      obtain ⟨gone, hgone, hexpired⟩ := ih hsorted.1
      obtain ⟨pruned, hpruned, hprunedExpired⟩ := window.exists_times_eq_append_prune now span
      have hkept : admissions judged = (gone ++ pruned) ++ (window.prune now span).times := by
        rw [hgone, hpruned, List.append_assoc]
      have hgoneNow : ∀ later, (∀ reading ∈ (judged ++ [(now, (window.allow now limit span).1)]).map
          Prod.fst, reading ≤ later) → ∀ time ∈ gone ++ pruned, Expired later span time := by
        intro later hlater time hmem
        simp only [List.map_append, List.map_cons, List.map_nil, List.mem_append,
          List.mem_singleton] at hlater
        rcases List.mem_append.mp hmem with hold | hnew
        · exact hexpired later (fun reading hreading => hlater reading (.inl hreading)) time hold
        · exact (hprunedExpired time hnew).mono (hlater now (.inr rfl))
      refine ⟨gone ++ pruned, ?_, hgoneNow⟩
      rcases Nat.lt_or_ge (window.prune now span).size limit with hroom | hfull
      · rw [allow_of_lt hroom, admissions_append, hkept]
        simp
      · rw [allow_of_le hfull, admissions_append, hkept]
        simp

theorem countWithin_admissions_le (h : Judged limit span judged window)
    (hsorted : (judged.map Prod.fst).Pairwise (· ≤ ·)) (start : Nat) :
    countWithin start span (admissions judged) ≤ limit := by
  induction h with
  | start => exact Nat.zero_le _
  | @allow judged window now h ih =>
      rw [List.map_append, List.pairwise_append] at hsorted
      obtain ⟨hearlier, -, hlatest⟩ := hsorted
      have hbound := ih hearlier
      rcases Nat.lt_or_ge (window.prune now span).size limit with hroom | hfull
      · rw [allow_of_lt hroom, admissions_append, countWithin_append]
        -- No span that holds `now` reaches back to what the window has given up.
        by_cases hwithin : start ≤ now ∧ now < start + span
        · obtain ⟨gone, hgone, hexpired⟩ := h.exists_admissions_eq_append hearlier
          obtain ⟨pruned, hpruned, hprunedExpired⟩ :=
            window.exists_times_eq_append_prune now span
          have hgoneNow : ∀ time ∈ gone ++ pruned, Expired now span time := by
            intro time hmem
            rcases List.mem_append.mp hmem with hold | hnew
            · exact hexpired now (fun reading hreading =>
                hlatest reading hreading now (by simp)) time hold
            · exact hprunedExpired time hnew
          have hzero := Expired.countWithin_eq_zero hgoneNow hwithin.2
          have hleft := countWithin_le_length start span (window.prune now span).times
          rw [hgone, hpruned, ← List.append_assoc, countWithin_append, hzero]
          simp only [size] at hroom
          simp [countWithin, hwithin] at hleft ⊢
          omega
        · have hnone : countWithin start span (admissions [(now, true)]) = 0 := by
            simp only [admissions, countWithin, not_and, Nat.not_lt] at hwithin ⊢
            simpa using hwithin
          rw [hnone]
          exact hbound
      · rw [allow_of_le hfull]
        simpa using hbound

end Judged

end Turnstile.Window

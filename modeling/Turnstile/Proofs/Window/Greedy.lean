import Mathlib.Data.Nat.Count
import Turnstile.Lists
import Turnstile.Proofs.Window.Recount

/-!
Admitting whenever there is room loses nothing. However requests are picked so that no span
of time holds more of them than the limit, the window has admitted as many by any of them.
-/

namespace Turnstile.Window

def served (limit span : Nat) (times : List Nat) : List (Nat × Bool) × Window :=
  times.foldl (fun (judged, window) now =>
    (judged ++ [(now, (window.allow now limit span).1)], (window.allow now limit span).2)) ([], {})

def admits (limit span : Nat) (times : List Nat) (place : Nat) : Bool :=
  (served limit span times).1[place]?.any Prod.snd

def within (start span : Nat) (times : List Nat) (place : Nat) : Bool :=
  times[place]?.any fun time => start ≤ time && time < start + span

theorem judged_served (limit span : Nat) (times : List Nat) :
    Judged limit span (served limit span times).1 (served limit span times).2 := by
  induction times using List.reverseRecOn with
  | nil => exact .start
  | append_singleton times now ih =>
      rw [served, List.foldl_append]
      exact .allow now ih

theorem map_fst_served (limit span : Nat) (times : List Nat) :
    (served limit span times).1.map Prod.fst = times := by
  induction times using List.reverseRecOn with
  | nil => rfl
  | append_singleton times now ih =>
      rw [served, List.foldl_append]
      exact (List.map_append ..).trans (congrArg (· ++ [now]) ih)

/-- What was judged up to some request has led to the window by which that one was judged. -/
theorem Judged.exists_earlier {limit span now place : Nat} {judged : List (Nat × Bool)}
    {window : Window} {allowed : Bool} (h : Judged limit span judged window)
    (hplace : judged[place]? = some (now, allowed)) :
    ∃ earlier, Judged limit span (judged.take place) earlier ∧
      (earlier.allow now limit span).1 = allowed := by
  induction h with
  | start => cases hplace
  | @allow judged window latest h ih =>
      rcases getElem?_concat_eq_some.mp hplace with hold | ⟨rfl, hnew⟩
      · have hlt := (List.getElem?_eq_some_iff.mp hold).1
        rw [List.take_append_of_le_length (Nat.le_of_lt hlt)]
        exact ih hold
      · cases hnew
        rw [List.take_left]
        exact ⟨window, h, rfl⟩

/-! Counting places. -/

theorem countP_take (p : α → Bool) (items : List α) (count : Nat) :
    (items.take count).countP p = Nat.count (fun place => items[place]?.any p) count := by
  induction count with
  | zero => rfl
  | succ count ih =>
      rw [List.take_add_one, List.countP_append, ih, Nat.count_succ]
      cases items[count]? with
      | none => rfl
      | some item => cases p item <;> simp

theorem count_eq_add {p q : Nat → Prop} [DecidablePred p] [DecidablePred q] {first count : Nat}
    (hfirst : first ≤ count) (hq : ∀ place < count, q place ↔ first ≤ place) :
    Nat.count p count = Nat.count p first + Nat.count (fun place => p place ∧ q place) count := by
  induction count, hfirst using Nat.le_induction with
  | base =>
      have hnone : Nat.count (fun place => p place ∧ q place) first = 0 :=
        Nat.count_iff_forall_not.mpr fun place hlt hboth =>
          absurd ((hq place hlt).mp hboth.2) (Nat.not_le.mpr hlt)
      rw [hnone, Nat.add_zero]
  | succ count hle ih =>
      have hlast : q count := (hq count (Nat.lt_succ_self count)).mpr hle
      rw [Nat.count_succ, Nat.count_succ, ih fun place hlt => hq place (by omega), Nat.add_assoc]
      simp [hlast]

section Greedy

variable {limit span count place time start : Nat} {times : List Nat}

theorem getElem?_served (hplace : times[place]? = some time) :
    (served limit span times).1[place]? = some (time, admits limit span times place) := by
  have hfst : ((served limit span times).1.map Prod.fst)[place]? = some time := by
    rw [map_fst_served, hplace]
  rw [List.getElem?_map] at hfst
  obtain ⟨⟨_, allowed⟩, hjudged, rfl⟩ := Option.map_eq_some_iff.mp hfst
  simp [admits, hjudged]

theorem within_of_getElem? (hplace : times[place]? = some time) :
    within start span times place = true ↔ start ≤ time ∧ time < start + span := by
  simp [within, hplace]

theorem count_admits_within (start count : Nat) :
    Nat.count (fun place => admits limit span times place ∧ within start span times place) count =
      countWithin start span (admissions ((served limit span times).1.take count)) := by
  have hboth (place : Nat) :
      (admits limit span times place = true ∧ within start span times place = true) ↔
        (served limit span times).1[place]?.any (fun request =>
          start ≤ request.1 && request.1 < start + span && request.2) = true := by
    cases hplace : times[place]? with
    | none =>
        have hnone : (served limit span times).1[place]? = none := by
          have hfst := map_fst_served limit span times
          rw [← hfst, List.getElem?_map] at hplace
          exact Option.map_eq_none_iff.mp hplace
        simp [within, hplace, hnone]
    | some time => simp [within, hplace, getElem?_served hplace, and_comm]
  simp only [hboth]
  rw [← countP_take, countWithin, admissions, List.countP_map, List.countP_filter]
  rfl

theorem length_live {now : Nat} (h : ∀ time ∈ times, time ≤ now) :
    (live now span times).length = countWithin (now + 1 - span) span times := by
  rw [live, ← List.countP_eq_length_filter, countWithin]
  apply List.countP_congr
  intro time hmem
  have hle := h time hmem
  rw [decide_eq_true_iff, Bool.and_eq_true, decide_eq_true_iff, decide_eq_true_iff, Expired]
  omega

theorem le_of_getElem? {first second later : Nat} (hsorted : times.Pairwise (· ≤ ·))
    (hfirst : times[first]? = some time) (hsecond : times[second]? = some later)
    (hle : first ≤ second) : time ≤ later := by
  obtain ⟨hfirstLt, rfl⟩ := List.getElem?_eq_some_iff.mp hfirst
  obtain ⟨hsecondLt, rfl⟩ := List.getElem?_eq_some_iff.mp hsecond
  rcases Nat.lt_or_eq_of_le hle with hlt | rfl
  · exact List.pairwise_iff_getElem.mp hsorted first second hfirstLt hsecondLt hlt
  · exact Nat.le_refl _

theorem le_count_of_denied (hsorted : times.Pairwise (· ≤ ·))
    (hplace : times[place]? = some time) (hdenied : admits limit span times place = false) :
    limit ≤ Nat.count (fun other => admits limit span times other ∧
      within (time + 1 - span) span times other) place := by
  have hjudged : (served limit span times).1[place]? = _ := getElem?_served hplace
  rw [hdenied] at hjudged
  obtain ⟨earlier, hearlier, hanswer⟩ := (judged_served limit span times).exists_earlier hjudged
  have htimes : ((served limit span times).1.take place).map Prod.fst = times.take place := by
    rw [List.map_take, map_fst_served]
  have hremembers : Remembers span time (admissions ((served limit span times).1.take place))
      earlier := by
    apply hearlier.remembers <;> rw [htimes]
    · exact hsorted.sublist (List.take_sublist ..)
    · intro reading hmem
      obtain ⟨other, hother⟩ := List.mem_iff_getElem?.mp hmem
      rw [List.getElem?_take] at hother
      obtain ⟨hlt, hreading⟩ := Option.ite_none_right_eq_some.mp hother
      exact le_of_getElem? hsorted hreading hplace (Nat.le_of_lt hlt)
  rw [hremembers.allow_fst (Nat.le_refl time), countAnew] at hanswer
  split at hanswer
  · cases hanswer
  · rename_i hfull
    rw [length_live hremembers.le_now] at hfull
    rw [count_admits_within]
    exact Nat.le_of_not_lt hfull

theorem exists_first_within (hsorted : times.Pairwise (· ≤ ·)) (hplace : times[place]? = some time)
    (hwithin : start ≤ time ∧ time < start + span) :
    ∃ first ≤ place, ∀ other ≤ place, within start span times other ↔ first ≤ other := by
  have hself := (within_of_getElem? hplace).mpr hwithin
  have hexists : ∃ other, within start span times other = true := ⟨place, hself⟩
  have hleast := Nat.find_min' hexists hself
  refine ⟨Nat.find hexists, hleast, fun other hother => ⟨Nat.find_min' hexists, fun hfirst => ?_⟩⟩
  have hlength : place < times.length := (List.getElem?_eq_some_iff.mp hplace).1
  have hfound := Nat.find_spec hexists
  have hfirstTime := List.getElem?_eq_getElem (Nat.lt_of_le_of_lt hleast hlength)
  have hotherTime := List.getElem?_eq_getElem (Nat.lt_of_le_of_lt hother hlength)
  rw [within_of_getElem? hfirstTime] at hfound
  rw [within_of_getElem? hotherTime]
  have hafter := le_of_getElem? hsorted hfirstTime hotherTime hfirst
  have hbefore := le_of_getElem? hsorted hotherTime hplace hother
  omega

/-- Where a request is denied, those picked up to it are no more than those admitted before it:
of the ones that count against it there are as many as any span may hold. -/
theorem count_le_of_denied (hspan : 0 < span) (hsorted : times.Pairwise (· ≤ ·))
    {chosen : Finset Nat} (hfeasible : ∀ start, Nat.count (fun place =>
      place ∈ chosen ∧ within start span times place) times.length ≤ limit)
    (hplace : times[place]? = some time) (hdenied : admits limit span times place = false)
    (hearlier : ∀ count ≤ place, Nat.count (· ∈ chosen) count ≤
      Nat.count (fun place => admits limit span times place) count) :
    Nat.count (· ∈ chosen) (place + 1) ≤
      Nat.count (fun place => admits limit span times place) place := by
  have hnow : time + 1 - span ≤ time ∧ time < time + 1 - span + span := by omega
  obtain ⟨first, hfirst, hwithin⟩ := exists_first_within hsorted hplace hnow
  have hload := le_count_of_denied hsorted hplace hdenied
  have hlength : place + 1 ≤ times.length := (List.getElem?_eq_some_iff.mp hplace).1
  have hpicked : Nat.count (fun place => place ∈ chosen ∧
      within (time + 1 - span) span times place) (place + 1) ≤ limit :=
    Nat.le_trans (Nat.count_monotone _ hlength) (hfeasible _)
  have hbefore := hearlier first hfirst
  calc Nat.count (· ∈ chosen) (place + 1)
      = Nat.count (· ∈ chosen) first + Nat.count (fun place => place ∈ chosen ∧
          within (time + 1 - span) span times place) (place + 1) :=
        count_eq_add (Nat.le_succ_of_le hfirst) fun other hlt =>
          hwithin other (Nat.le_of_lt_succ hlt)
    _ ≤ Nat.count (fun place => admits limit span times place) first +
          Nat.count (fun place => admits limit span times place ∧
            within (time + 1 - span) span times place) place := by omega
    _ = Nat.count (fun place => admits limit span times place) place :=
        (count_eq_add hfirst fun other hlt => hwithin other (Nat.le_of_lt hlt)).symm

theorem count_le_count_admits (hspan : 0 < span) (hsorted : times.Pairwise (· ≤ ·))
    {chosen : Finset Nat} (hfeasible : ∀ start, Nat.count (fun place =>
      place ∈ chosen ∧ within start span times place) times.length ≤ limit)
    (hcount : count ≤ times.length) :
    Nat.count (· ∈ chosen) count ≤
      Nat.count (fun place => admits limit span times place) count := by
  induction count using Nat.strong_induction_on with
  | _ count ih =>
      cases count with
      | zero => exact Nat.le_refl _
      | succ place =>
          have hbefore := ih place (Nat.lt_succ_self place) (Nat.le_of_succ_le hcount)
          rcases Bool.eq_false_or_eq_true (admits limit span times place) with hadmitted | hdenied
          · rw [Nat.count_succ, Nat.count_succ, if_pos hadmitted]
            split <;> omega
          · refine Nat.le_trans (count_le_of_denied hspan hsorted hfeasible
              (List.getElem?_eq_getElem hcount) hdenied fun count hle => ?_)
              (Nat.count_monotone _ (Nat.le_succ place))
            exact ih count (Nat.lt_succ_of_le hle) (Nat.le_trans hle (Nat.le_of_succ_le hcount))

theorem count_admits_le (hsorted : times.Pairwise (· ≤ ·)) (start : Nat) :
    Nat.count (fun place => admits limit span times place ∧ within start span times place)
      times.length ≤ limit := by
  have hjudged := judged_served limit span times
  have htimes := map_fst_served limit span times
  have hlength : (served limit span times).1.length = times.length :=
    (List.length_map ..).symm.trans (congrArg List.length htimes)
  rw [count_admits_within, ← hlength, List.take_length]
  exact hjudged.countWithin_admissions_le (htimes.symm ▸ hsorted) start

end Greedy

/-- Among all ways to pick requests so that no span of time holds more than the limit, none has
picked more of any prefix than the window, which keeps to the limit itself, has admitted of it. -/
theorem no_choice_outruns_window {limit span : Nat} (hspan : 0 < span) {times : List Nat}
    (hsorted : times.Pairwise (· ≤ ·)) :
    (∀ start, Nat.count (fun place =>
      admits limit span times place ∧ within start span times place) times.length ≤ limit) ∧
    ∀ chosen : Finset Nat, (∀ start, Nat.count (fun place =>
        place ∈ chosen ∧ within start span times place) times.length ≤ limit) →
      ∀ count ≤ times.length, Nat.count (· ∈ chosen) count ≤
        Nat.count (fun place => admits limit span times place) count :=
  ⟨count_admits_le hsorted, fun _ hfeasible _ => count_le_count_admits hspan hsorted hfeasible⟩

def lateTimes : List Nat := [0, 4, 10, 14]

theorem no_choice_outruns_window_lateTimes :
    0 < 10 ∧ lateTimes.Pairwise (· ≤ ·) ∧
      (∀ start, Nat.count (fun place => place ∈ ({1, 3} : Finset Nat) ∧
        within start 10 lateTimes place) lateTimes.length ≤ 1) ∧
      (List.range 5).map (Nat.count fun place => admits 1 10 lateTimes place) = [0, 1, 1, 2, 2] ∧
      ∀ count ≤ 4, Nat.count (· ∈ ({1, 3} : Finset Nat)) count ≤
        Nat.count (fun place => admits 1 10 lateTimes place) count := by
  have hsorted : lateTimes.Pairwise (· ≤ ·) := by decide
  have hfeasible (start : Nat) : Nat.count (fun place => place ∈ ({1, 3} : Finset Nat) ∧
      within start 10 lateTimes place) lateTimes.length ≤ 1 := by
    have hcount : Nat.count (fun place => place ∈ ({1, 3} : Finset Nat) ∧
        within start 10 lateTimes place) lateTimes.length =
          (if start ≤ 4 ∧ 4 < start + 10 then 1 else 0) +
            if start ≤ 14 ∧ 14 < start + 10 then 1 else 0 := by
      simp [lateTimes, Nat.count_succ, within]
    rw [hcount]
    split <;> split <;> omega
  exact ⟨by decide, hsorted, hfeasible, by decide,
    (no_choice_outruns_window (by decide) hsorted).2 {1, 3} hfeasible⟩

end Turnstile.Window

import Mathlib.Data.Finset.Basic
import Mathlib.Data.List.Enum
import Turnstile.Proofs.Window.Recount

/-!
A request that is denied prunes the window, and does nothing else to it. What it has pruned the
next request would have pruned as well, so nobody can tell later that it was ever made.
-/

namespace Turnstile.Window

def requests (limit span : Nat) (times : List Nat) : List Call :=
  times.map fun now => .allow now limit span

def spareFrom (dropped : Finset Nat) (first : Nat) (items : List α) : List α :=
  ((items.zipIdx first).filter fun item => item.2 ∉ dropped).map Prod.fst

def spare (dropped : Finset Nat) (items : List α) : List α := spareFrom dropped 0 items

section Spare

variable {dropped : Finset Nat} {first : Nat}

theorem spareFrom_cons_of_mem (h : first ∈ dropped) (item : α) (items : List α) :
    spareFrom dropped first (item :: items) = spareFrom dropped (first + 1) items := by
  simp [spareFrom, List.zipIdx_cons, h]

theorem spareFrom_cons_of_not_mem (h : first ∉ dropped) (item : α) (items : List α) :
    spareFrom dropped first (item :: items) =
      item :: spareFrom dropped (first + 1) items := by
  simp [spareFrom, List.zipIdx_cons, h]

end Spare

variable {limit span now : Nat} {window other : Window}

theorem showings_requests_cons (window : Window) (limit span now : Nat) (times : List Nat) :
    window.showings (requests limit span (now :: times)) =
      ⟨.decided (window.allow now limit span).1, (window.allow now limit span).2.times⟩ ::
        (window.allow now limit span).2.showings (requests limit span times) := rfl

theorem countAnew_snd_of_denied {admitted : List Nat}
    (h : (countAnew now limit span admitted).1 = false) :
    (countAnew now limit span admitted).2 = admitted := by
  simp only [countAnew] at h ⊢
  split at h
  · cases h
  · rename_i hfull
    rw [if_neg hfull]

theorem Remembers.showings_spareFrom {admitted : List Nat} (hspan : 0 < span)
    (h : Remembers span now admitted window) (hother : Remembers span now admitted other)
    {times : List Nat} (hsorted : (now :: times).Pairwise (· ≤ ·)) {dropped : Finset Nat}
    {first : Nat} (hdenied : ∀ answer ∈
      (answers (window.showings (requests limit span times))).zipIdx first,
      answer.2 ∈ dropped → answer.1 = false) :
    other.showings (requests limit span (spareFrom dropped first times)) =
      spareFrom dropped first (window.showings (requests limit span times)) := by
  induction times generalizing now admitted window other first with
  | nil => rfl
  | cons time rest ih =>
      obtain ⟨hlater, hrest⟩ := List.pairwise_cons.mp hsorted
      have htime := hlater time List.mem_cons_self
      have hnext := h.allow_snd htime limit
      rw [showings_requests_cons] at hdenied ⊢
      simp only [answers, List.zipIdx_cons, List.forall_mem_cons] at hdenied
      obtain ⟨hfirst, hdenied⟩ := hdenied
      rcases Decidable.em (first ∈ dropped) with hmem | hmem
      · -- The request is made to the one window only, which admits as little as the other.
        have hanswer := hfirst hmem
        rw [h.allow_fst htime] at hanswer
        rw [countAnew_snd_of_denied hanswer] at hnext
        rw [spareFrom_cons_of_mem hmem, spareFrom_cons_of_mem hmem]
        exact ih hnext (hother.mono htime) hrest hdenied
      · rw [spareFrom_cons_of_not_mem hmem, spareFrom_cons_of_not_mem hmem,
          showings_requests_cons, ih hnext (hother.allow_snd htime limit) hrest hdenied,
          h.allow_fst htime, hother.allow_fst htime, h.times_allow hspan htime,
          hother.times_allow hspan htime]

/-- Requests that were denied might as well not have been made: without any of them, all others
get the same answers, and leave the same times behind. -/
theorem showings_without_denied (hspan : 0 < span) {times : List Nat}
    (hsorted : times.Pairwise (· ≤ ·)) {dropped : Finset Nat}
    (hdenied : ∀ place ∈ dropped,
      (answers (({} : Window).showings (requests limit span times)))[place]? = some false) :
    ({} : Window).showings (requests limit span (spare dropped times)) =
      spare dropped (({} : Window).showings (requests limit span times)) := by
  have hstart : Remembers span 0 [] {} := .start span 0
  refine hstart.showings_spareFrom hspan hstart
    (List.pairwise_cons.mpr ⟨fun _ _ => Nat.zero_le _, hsorted⟩) fun answer hanswer hmem => ?_
  have hplace := hdenied answer.2 hmem
  rw [List.mem_zipIdx_iff_getElem?.mp hanswer] at hplace
  exact Option.some.inj hplace

def crowdedTimes : List Nat := [0, 4, 10, 14, 14, UInt64.size - 1]

theorem showings_without_denied_crowdedTimes :
    0 < 10 ∧ crowdedTimes.Pairwise (· ≤ ·) ∧
      answers (({} : Window).showings (requests 1 10 crowdedTimes)) =
        [true, false, true, false, false, true] ∧
      spare {1, 3} crowdedTimes = [0, 10, 14, UInt64.size - 1] ∧
      ({} : Window).showings (requests 1 10 (spare {1, 3} crowdedTimes)) =
        spare {1, 3} (({} : Window).showings (requests 1 10 crowdedTimes)) := by
  have hsorted : crowdedTimes.Pairwise (· ≤ ·) := by decide
  have hdenied : ∀ place ∈ ({1, 3} : Finset Nat),
      (answers (({} : Window).showings (requests 1 10 crowdedTimes)))[place]? = some false := by
    decide
  exact ⟨by decide, hsorted, by decide, by decide,
    showings_without_denied (by decide) hsorted hdenied⟩

end Turnstile.Window

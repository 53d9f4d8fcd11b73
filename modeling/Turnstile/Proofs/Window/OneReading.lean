import Turnstile.Proofs.Window.Recount

/-!
Requests that are judged at one and the same reading. No time expires between them, so they
are admitted until the limit leaves no more room, and denied from then on.
-/

namespace Turnstile.Window

variable (now limit span : Nat) (admitted : List Nat)

def room : Nat := limit - (live now span admitted).length

def verdicts (room count : Nat) : List Bool := (List.range count).map fun earlier => earlier < room

def crowded (count : Nat) : List Nat :=
  admitted ++ List.replicate (min count (room now limit span admitted)) now

theorem verdicts_succ (room count : Nat) :
    verdicts room (count + 1) = verdicts room count ++ [decide (count < room)] := by
  rw [verdicts, List.range_succ, List.map_append]
  rfl

@[simp] theorem length_verdicts (room count : Nat) : (verdicts room count).length = count := by
  simp [verdicts]

theorem verdicts_eq (room count : Nat) :
    verdicts room count =
      List.replicate (min count room) true ++ List.replicate (count - room) false := by
  induction count with
  | zero => simp [verdicts]
  | succ count ih =>
      rw [verdicts_succ, ih]
      rcases Nat.lt_or_ge count room with hroom | hfull
      · have hmin : min (count + 1) room = min count room + 1 := by omega
        have hnone : count + 1 - room = 0 ∧ count - room = 0 := by omega
        rw [hmin, hnone.1, hnone.2, decide_eq_true hroom, List.replicate_succ', List.replicate_zero,
          List.append_nil, List.append_nil]
      · have hmin : min (count + 1) room = min count room := by omega
        have hmore : count + 1 - room = count - room + 1 := by omega
        rw [hmin, hmore, decide_eq_false (Nat.not_lt.mpr hfull), List.replicate_succ',
          List.append_assoc]

variable {now limit span admitted}

theorem live_crowded (hspan : 0 < span) (count : Nat) :
    live now span (crowded now limit span admitted count) =
      live now span admitted ++ List.replicate (min count (room now limit span admitted)) now := by
  have hnow : ¬ Expired now span now := by
    simp only [Expired]
    omega
  rw [crowded, live_append, live, live, List.filter_replicate_of_pos (by simpa using hnow)]

theorem countAnew_crowded (hspan : 0 < span) (count : Nat) :
    countAnew now limit span (crowded now limit span admitted count) =
      (decide (count < room now limit span admitted),
        crowded now limit span admitted (count + 1)) := by
  have hlength : (live now span (crowded now limit span admitted count)).length =
      (live now span admitted).length + min count (room now limit span admitted) := by
    rw [live_crowded hspan, List.length_append, List.length_replicate]
  rcases Nat.lt_or_ge count (room now limit span admitted) with hroom | hfull
  · have hmin : min (count + 1) (room now limit span admitted) =
        min count (room now limit span admitted) + 1 := by omega
    have hless : (live now span (crowded now limit span admitted count)).length < limit := by
      simp only [room] at hlength hroom
      omega
    rw [countAnew, if_pos hless, crowded, crowded, hmin, List.replicate_succ', List.append_assoc,
      decide_eq_true hroom]
  · have hmin : min (count + 1) (room now limit span admitted) =
        min count (room now limit span admitted) := by omega
    have hmany : ¬ (live now span (crowded now limit span admitted count)).length < limit := by
      simp only [room] at hlength hfull
      omega
    rw [countAnew, if_neg hmany, crowded, crowded, hmin, decide_eq_false (Nat.not_lt.mpr hfull)]

end Turnstile.Window

import Turnstile.Clock
import Turnstile.Lists

/-!
What a clock shows, out of what it was told. A move that would take it past its largest reading
stops it there. Readings that are cut off at each move come out as if they had been counted
exactly, and cut off once at the end.
-/

namespace Turnstile.Clock

namespace Move

def isAdvance : Move → Bool
  | .advance _ => true
  | .set _ => false

def gain : Move → Nat
  | .advance duration => duration.nanos
  | .set _ => 0

end Move

def advanced (moves : List Move) : Nat := sumOf Move.gain moves

def settings : List Move → List Nat
  | [] => []
  | .advance _ :: rest => settings rest
  | .set nanos :: rest => (nanos + advanced rest) :: settings rest

/-- What a clock without a largest reading would show, if it began at `reading`. -/
def exactFrom (reading : Nat) (moves : List Move) : Nat :=
  (settings moves).foldr max (reading + advanced moves)

theorem foldr_max_max (first second : Nat) (readings : List Nat) :
    readings.foldr max (max first second) = max first (readings.foldr max second) := by
  induction readings with
  | nil => rfl
  | cons reading rest ih =>
      rw [List.foldr_cons, List.foldr_cons, ih]
      exact Nat.max_left_comm ..

theorem min_foldr_max_congr {first second largest : Nat}
    (h : min first largest = min second largest) (readings : List Nat) :
    min (readings.foldr max first) largest = min (readings.foldr max second) largest := by
  induction readings with
  | nil => exact h
  | cons reading rest ih =>
      rw [List.foldr_cons, List.foldr_cons]
      omega

@[simp] theorem exactFrom_nil (reading : Nat) : exactFrom reading [] = reading := rfl

theorem exactFrom_advance (reading : Nat) (duration : Duration) (moves : List Move) :
    exactFrom reading (.advance duration :: moves) =
      exactFrom (reading + duration.nanos) moves := by
  rw [exactFrom, exactFrom, Nat.add_assoc]
  rfl

theorem exactFrom_set (reading nanos : Nat) (moves : List Move) :
    exactFrom reading (.set nanos :: moves) = exactFrom (max nanos reading) moves := by
  have hsame : advanced (.set nanos :: moves) = advanced moves := Nat.zero_add _
  rw [exactFrom, exactFrom, hsame, ← Nat.add_max_add_right, foldr_max_max]
  rfl

theorem min_exactFrom_congr {first second : Nat}
    (h : min first maxNanos = min second maxNanos) (moves : List Move) :
    min (exactFrom first moves) maxNanos = min (exactFrom second moves) maxNanos :=
  min_foldr_max_congr (by omega) (settings moves)

theorem le_exactFrom (reading : Nat) (moves : List Move) :
    reading + advanced moves ≤ exactFrom reading moves := by
  rw [exactFrom]
  induction settings moves with
  | nil => exact Nat.le_refl _
  | cons setting rest ih => exact Nat.le_trans ih (Nat.le_max_right ..)

theorem run_append (clock : Clock) (before after : List Move) :
    clock.run (before ++ after) = (clock.run before).run after :=
  List.foldl_append ..

/-- The reading is cut off anew at each move, so the induction is over clocks at any reading. -/
theorem reading_run_from (clock : Clock) (moves : List Move) :
    (clock.run moves).reading = min (exactFrom clock.reading moves) maxNanos := by
  induction moves generalizing clock with
  | nil => exact (Nat.min_eq_left clock.reading_le).symm
  | cons step rest ih =>
      rw [run_cons, ih]
      cases step with
      | advance duration =>
          rw [exactFrom_advance]
          apply min_exactFrom_congr
          simp only [move, advance, Duration.clipped]
          omega
      | set nanos =>
          rw [exactFrom_set]
          apply min_exactFrom_congr
          simp only [move, set]
          omega

/-! Clocks that are only advanced. -/

theorem settings_of_isAdvance {moves : List Move} (h : ∀ step ∈ moves, step.isAdvance = true) :
    settings moves = [] := by
  induction moves with
  | nil => rfl
  | cons step rest ih =>
      obtain ⟨hfirst, hrest⟩ := List.forall_mem_cons.mp h
      cases step with
      | advance duration => exact ih hrest
      | set nanos => cases hfirst

theorem exactFrom_perm {moves others : List Move} (h : moves.Perm others)
    (hadvance : ∀ step ∈ moves, step.isAdvance = true) (reading : Nat) :
    exactFrom reading others = exactFrom reading moves := by
  have hothers : ∀ step ∈ others, step.isAdvance = true :=
    fun step hmem => hadvance step (h.mem_iff.mpr hmem)
  rw [exactFrom, exactFrom, settings_of_isAdvance hadvance, settings_of_isAdvance hothers,
    advanced, advanced, sumOf_perm Move.gain h]

/-- A fresh clock shows all advances together, or what it was set to and all advances after
that, whichever is the most, and never more than the largest reading. It never goes back, no
advance is lost, and the order of advances makes no difference where there is nothing else. -/
theorem reading_run_eq_min (moves : List Move) :
    (({} : Clock).run moves).reading =
        min ((settings moves).foldr max (advanced moves)) maxNanos ∧
      (∀ before after, moves = before ++ after →
        (({} : Clock).run before).reading ≤ (({} : Clock).run moves).reading ∧
          min ((({} : Clock).run before).reading + advanced after) maxNanos ≤
            (({} : Clock).run moves).reading) ∧
      ∀ others, moves.Perm others → (∀ step ∈ moves, step.isAdvance = true) →
        (({} : Clock).run others).reading = (({} : Clock).run moves).reading := by
  refine ⟨?_, ?_, ?_⟩
  · have hrun := reading_run_from {} moves
    rwa [exactFrom, Nat.zero_add] at hrun
  · rintro before after rfl
    have hbound := (({} : Clock).run before).reading_le
    have hexact := le_exactFrom (({} : Clock).run before).reading after
    rw [run_append, reading_run_from (({} : Clock).run before)]
    constructor <;> omega
  · intro others hperm hadvance
    rw [reading_run_from, reading_run_from, exactFrom_perm hperm hadvance]

def overshootingMoves : List Move :=
  [.set 5, .advance (.ofParts 0 3), .set 6, .advance (.ofParts 0 1), .set (UInt64.size - 1),
    .advance (.ofParts (UInt64.size - 1) 999999999)]

theorem reading_run_eq_min_overshootingMoves :
    (({} : Clock).run (overshootingMoves.take 4)).reading = 9 ∧
      (({} : Clock).run overshootingMoves).reading = maxNanos ∧
      (({} : Clock).run (overshootingMoves.take 4)).reading ≤
        (({} : Clock).run overshootingMoves).reading ∧
      (({} : Clock).run [.advance (.ofParts 0 7), .advance (.ofParts 2 0)]).reading =
        (({} : Clock).run [.advance (.ofParts 2 0), .advance (.ofParts 0 7)]).reading := by
  obtain ⟨hlast, hearlier, -⟩ := reading_run_eq_min overshootingMoves
  obtain ⟨hmiddle, -, -⟩ := reading_run_eq_min (overshootingMoves.take 4)
  obtain ⟨-, -, horder⟩ := reading_run_eq_min
    [.advance (.ofParts 2 0), .advance (.ofParts 0 7)]
  refine ⟨hmiddle.trans (by decide), hlast.trans (by decide), ?_, ?_⟩
  · exact (hearlier (overshootingMoves.take 4) (overshootingMoves.drop 4)
      (List.take_append_drop 4 _).symm).1
  · exact horder _ (.swap ..) (by decide)

end Turnstile.Clock

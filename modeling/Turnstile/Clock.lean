import Turnstile.Duration

/-! A clock that moves only when told to, and never backwards. -/

namespace Turnstile

structure Clock where
  reading : Nat := 0
  reading_le : reading ≤ maxNanos := by decide
  deriving DecidableEq, Repr

namespace Clock

def advance (clock : Clock) (duration : Duration) : Clock where
  reading := min (clock.reading + duration.clipped) maxNanos
  reading_le := Nat.min_le_right ..

def set (clock : Clock) (nanos : Nat) : Clock where
  reading := max clock.reading (min nanos maxNanos)
  reading_le := Nat.max_le.mpr ⟨clock.reading_le, Nat.min_le_right ..⟩

inductive Move
  | advance (duration : Duration)
  | set (nanos : Nat)
  deriving DecidableEq, Repr

def move (clock : Clock) : Move → Clock
  | .advance duration => clock.advance duration
  | .set nanos => clock.set nanos

def run (clock : Clock) (moves : List Move) : Clock := moves.foldl move clock

@[simp] theorem run_nil (clock : Clock) : clock.run [] = clock := rfl

@[simp] theorem run_cons (clock : Clock) (step : Move) (moves : List Move) :
    clock.run (step :: moves) = (clock.move step).run moves := rfl

theorem reading_le_move (clock : Clock) (step : Move) :
    clock.reading ≤ (clock.move step).reading := by
  have hbound := clock.reading_le
  cases step with
  | advance duration => simp only [move, advance]; omega
  | set nanos => exact Nat.le_max_left ..

end Clock

end Turnstile

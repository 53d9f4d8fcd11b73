import Turnstile.Text.Decimal

/-! Spans of time, counted in whole nanoseconds. -/

namespace Turnstile

def maxNanos : Nat := UInt64.size - 1

structure Duration where
  nanos : Nat
  deriving DecidableEq, Repr

namespace Duration

def nanosPerSecond : Nat := 1000000000

def ofParts (seconds nanos : Nat) : Duration := ⟨seconds * nanosPerSecond + nanos⟩

def wholeSeconds (duration : Duration) : Nat := duration.nanos / nanosPerSecond

def subsecond (duration : Duration) : Nat := duration.nanos % nanosPerSecond

def clipped (duration : Duration) : Nat := min duration.nanos maxNanos

def seconds (duration : Duration) : Float :=
  duration.wholeSeconds.toUInt64.toFloat + duration.subsecond.toUInt64.toFloat / 1e9

def text (duration : Duration) : String :=
  if 1000000000 ≤ duration.nanos then Decimal.trimmed 9 duration.nanos ++ "s"
  else if 1000000 ≤ duration.nanos then Decimal.trimmed 6 duration.nanos ++ "ms"
  else if 1000 ≤ duration.nanos then Decimal.trimmed 3 duration.nanos ++ "µs"
  else toString duration.nanos ++ "ns"

end Duration

end Turnstile

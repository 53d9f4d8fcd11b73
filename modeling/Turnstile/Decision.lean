import Turnstile.Duration

/-!
Decisions on requests, and their form in one word of 64 bits: the time in the
upper 63 bits and the answer in the lowest.
-/

namespace Turnstile

structure Decision where
  time : Nat
  allowed : Bool
  deriving DecidableEq, Repr

namespace Decision

def maxTime : Nat := maxNanos / 2

/-- The decision made at a reading of the clock; readings past `maxTime` count as `maxTime`. -/
def made (reading : Nat) (allowed : Bool) : Decision := ⟨min reading maxTime, allowed⟩

def toWord (decision : Decision) : UInt64 :=
  UInt64.ofNat (2 * decision.time + decision.allowed.toNat)

def ofWord (word : UInt64) : Decision := ⟨word.toNat / 2, word.toNat % 2 == 1⟩

theorem ofWord_toWord (decision : Decision) :
    ofWord decision.toWord = ⟨decision.time % (maxTime + 1), decision.allowed⟩ := by
  cases decision with
  | mk time allowed =>
    cases allowed <;> simp [ofWord, toWord, maxTime, maxNanos] <;> omega

theorem ofWord_toWord_made (reading : Nat) (allowed : Bool) :
    ofWord (made reading allowed).toWord = made reading allowed := by
  have hfits : (made reading allowed).time % (maxTime + 1) = (made reading allowed).time :=
    Nat.mod_eq_of_lt (Nat.lt_succ_of_le (Nat.min_le_right ..))
  rw [ofWord_toWord, hfits]

end Decision

end Turnstile

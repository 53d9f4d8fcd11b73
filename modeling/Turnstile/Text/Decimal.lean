/-!
Decimal text of natural numbers that count small parts of a unit: `padded`
keeps a fixed number of digits, `trimmed` drops the zeros a fraction ends in,
and `fixed` keeps them.
-/

namespace Turnstile.Decimal

def padded (width number : Nat) : String :=
  let digits := toString number
  String.ofList (List.replicate (width - digits.length) '0') ++ digits

def dropTrailingZeros (digits : String) : String :=
  String.ofList (digits.toList.reverse.dropWhile (· == '0')).reverse

def fixed (places parts : Nat) : String :=
  toString (parts / Nat.pow 10 places) ++ "." ++ padded places (parts % Nat.pow 10 places)

/-- The number `parts / 10 ^ places`, with the fraction cut after its last
digit other than zero, and no point when nothing is left of it. -/
def trimmed (places parts : Nat) : String :=
  let whole := toString (parts / Nat.pow 10 places)
  let fraction := dropTrailingZeros (padded places (parts % Nat.pow 10 places))
  if fraction.isEmpty then whole else whole ++ "." ++ fraction

/-- The quotient rounded to the nearest whole number, a half to the even one. -/
def roundHalfEven (numerator denominator : Nat) : Nat :=
  let quotient := numerator / denominator
  let twice := 2 * (numerator % denominator)
  if twice < denominator then quotient
  else if denominator < twice then quotient + 1
  else if quotient % 2 = 0 then quotient
  else quotient + 1

theorem le_roundHalfEven (numerator denominator : Nat) :
    numerator / denominator ≤ roundHalfEven numerator denominator := by
  unfold roundHalfEven
  grind

theorem roundHalfEven_le (numerator denominator : Nat) :
    roundHalfEven numerator denominator ≤ numerator / denominator + 1 := by
  unfold roundHalfEven
  grind

theorem roundHalfEven_of_dvd {numerator denominator : Nat}
    (hpositive : 0 < denominator) (hdvd : denominator ∣ numerator) :
    roundHalfEven numerator denominator = numerator / denominator := by
  have hzero : numerator % denominator = 0 := Nat.mod_eq_zero_of_dvd hdvd
  simp [roundHalfEven, hzero, hpositive]

/-- A quotient is rounded to `whole` at most when it is below the middle between `whole` and
the next number, and in the middle when `whole` is even. -/
theorem roundHalfEven_le_iff {numerator denominator : Nat} (hpositive : 0 < denominator)
    (whole : Nat) :
    roundHalfEven numerator denominator ≤ whole ↔
      2 * numerator < (2 * whole + 1) * denominator ∨
        2 * numerator = (2 * whole + 1) * denominator ∧ whole % 2 = 0 := by
  have hmod : numerator % denominator < denominator := Nat.mod_lt _ hpositive
  have hsplit := Nat.div_add_mod numerator denominator
  have hmiddle : (2 * whole + 1) * denominator = 2 * (denominator * whole) + denominator := by
    grind
  have hlow := le_roundHalfEven numerator denominator
  have hhigh := roundHalfEven_le numerator denominator
  rw [hmiddle]
  rcases Nat.lt_trichotomy (numerator / denominator) whole with hlt | heq | hgt
  · have hmul : denominator * (numerator / denominator + 1) ≤ denominator * whole :=
      Nat.mul_le_mul_left _ hlt
    rw [Nat.mul_add_one] at hmul
    omega
  · simp only [roundHalfEven, heq] at hsplit ⊢
    grind
  · have hmul : denominator * (whole + 1) ≤ denominator * (numerator / denominator) :=
      Nat.mul_le_mul_left _ hgt
    rw [Nat.mul_add_one] at hmul
    omega

end Turnstile.Decimal

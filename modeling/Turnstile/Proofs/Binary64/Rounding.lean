import Mathlib
import Turnstile.Proofs.Binary64.Nearest

/-!
The last step of every operation on floating-point numbers: the exact result, cut behind some
binary digit, is shifted until 53 digits are left, and rounded by the two bits that remember
the digits it has lost.
-/

namespace Turnstile.Binary64

open Float.Model Float.Model.UnpackedFloat

inductive Cut (value : ℚ) : ExtendedMantissa → Prop
  | exact (m : Nat) (h : value = m) : Cut value ⟨m, false, false⟩
  | below (m : Nat) (h : m < value) (h' : value < m + 1 / 2) : Cut value ⟨m, false, true⟩
  | middle (m : Nat) (h : value = m + 1 / 2) : Cut value ⟨m, true, false⟩
  | above (m : Nat) (h : m + 1 / 2 < value) (h' : value < m + 1) : Cut value ⟨m, true, true⟩

namespace Cut

variable {em : ExtendedMantissa} {value : ℚ}

theorem mantissa_le (h : Cut value em) : (em.mantissa : ℚ) ≤ value := by
  cases h <;> simp only <;> linarith

theorem lt_mantissa_add_one (h : Cut value em) : value < em.mantissa + 1 := by
  cases h <;> simp only <;> linarith

theorem floor_eq (h : Cut value em) : ⌊value⌋₊ = em.mantissa :=
  (Nat.floor_eq_iff (le_trans (Nat.cast_nonneg _) h.mantissa_le)).mpr
    ⟨h.mantissa_le, h.lt_mantissa_add_one⟩

theorem log_eq (h : Cut value em) (hpos : 0 < em.mantissa) :
    Int.log 2 value = em.mantissa.log2 := by
  have hone : 1 ≤ value := le_trans (by exact_mod_cast hpos) h.mantissa_le
  rw [Int.log_of_one_le_right 2 hone, h.floor_eq, Nat.log2_eq_log_two]

/-- The two bits are enough to round to the nearest. -/
theorem roundedMantissa_eq (h : Cut value em) : em.roundedMantissa = halfEven value := by
  have hvalue : 0 ≤ value := le_trans (Nat.cast_nonneg _) h.mantissa_le
  have hlow : em.mantissa ≤ halfEven value := le_halfEven h.mantissa_le
  have hhigh : halfEven value ≤ em.mantissa + 1 :=
    halfEven_le hvalue (by exact_mod_cast h.lt_mantissa_add_one.le)
  have hle := halfEven_le_iff hvalue em.mantissa
  cases h with
  | exact m heq => rw [heq, halfEven_natCast]; rfl
  | below m hlt hlt' => exact le_antisymm hlow (hle.mpr (Or.inl hlt'))
  | middle m heq => rw [heq, halfEven_middle]; rfl
  | above m hlt hlt' =>
    have hnot : ¬halfEven value ≤ m := by
      rw [hle]
      rintro (h | ⟨h, -⟩) <;> simp only at h <;> linarith
    exact (le_antisymm hhigh (not_le.mp hnot)).symm

theorem shiftRightOne_even (half : Nat) (round sticky : Bool) :
    (⟨2 * half, round, sticky⟩ : ExtendedMantissa).shiftRightOne =
      ⟨half, false, round || sticky⟩ := by
  simp [ExtendedMantissa.shiftRightOne]

theorem shiftRightOne_odd (half : Nat) (round sticky : Bool) :
    (⟨2 * half + 1, round, sticky⟩ : ExtendedMantissa).shiftRightOne =
      ⟨half, true, round || sticky⟩ := by
  simp [ExtendedMantissa.shiftRightOne]
  omega

/-- The last digit of the mantissa becomes the round bit, and the digits behind it are only
remembered as being there. -/
theorem shiftRightOne (h : Cut value em) : Cut (value / 2) em.shiftRightOne := by
  obtain ⟨half, heven | hodd⟩ := Nat.even_or_odd' em.mantissa
  · have hcast : (em.mantissa : ℚ) = 2 * half := by exact_mod_cast heven
    cases h <;> simp only at heven hcast <;> subst heven <;> rw [shiftRightOne_even]
    case exact h => exact .exact half (by linarith)
    all_goals exact .below half (by linarith) (by linarith)
  · have hcast : (em.mantissa : ℚ) = 2 * half + 1 := by exact_mod_cast hodd
    cases h <;> simp only at hodd hcast <;> subst hodd <;> rw [shiftRightOne_odd]
    case exact h => exact .middle half (by linarith)
    all_goals exact .above half (by linarith) (by linarith)

theorem shiftRight (h : Cut value em) (count : Nat) : Cut (value / 2 ^ count) (em >>> count) := by
  change Cut _ (count.repeat ExtendedMantissa.shiftRightOne em)
  induction count with
  | zero => simpa [Nat.repeat] using h
  | succ count ih =>
    rw [Nat.repeat, pow_succ, ← div_div]
    exact ih.shiftRightOne

end Cut

theorem cut_fraction (numerator : Nat) {denominator : Nat} (h : 0 < denominator) :
    Cut (numerator / denominator)
      (.ofMantissaAndAccuracy (numerator / denominator)
        (accuracyOfFraction (numerator % denominator) denominator)) := by
  have hdenominator : (0 : ℚ) < denominator := by exact_mod_cast h
  have hmod : numerator % denominator < denominator := Nat.mod_lt _ h
  have hsplit : (numerator : ℚ) =
      denominator * (numerator / denominator : Nat) + (numerator % denominator : Nat) := by
    exact_mod_cast (Nat.div_add_mod numerator denominator).symm
  generalize numerator / denominator = quotient at hsplit ⊢
  generalize numerator % denominator = remainder at hsplit hmod ⊢
  have hvalue : (numerator : ℚ) / denominator = quotient + remainder / denominator := by
    rw [hsplit, add_div, mul_div_cancel_left₀ _ hdenominator.ne']
  rw [hvalue]
  unfold accuracyOfFraction
  split
  · exact .exact _ (by simp_all)
  · rename_i hremainder
    have hpos : (0 : ℚ) < remainder / denominator := by positivity
    have hlt_one : (remainder : ℚ) / denominator < 1 :=
      (div_lt_one hdenominator).mpr (by exact_mod_cast hmod)
    rcases lt_trichotomy (2 * remainder) denominator with hlt | heq | hgt
    · have hhalf : (remainder : ℚ) / denominator < 1 / 2 := by
        rw [div_lt_div_iff₀ hdenominator two_pos]
        exact_mod_cast by omega
      rw [Nat.compare_eq_lt.mpr hlt]
      exact .below quotient (by linarith) (by linarith)
    · have hhalf : (remainder : ℚ) / denominator = 1 / 2 := by
        rw [div_eq_div_iff hdenominator.ne' two_ne_zero]
        exact_mod_cast by omega
      rw [Nat.compare_eq_eq.mpr heq]
      exact .middle quotient (by linarith)
    · have hhalf : 1 / 2 < (remainder : ℚ) / denominator := by
        rw [div_lt_div_iff₀ two_pos hdenominator]
        exact_mod_cast by omega
      rw [Nat.compare_eq_gt.mpr hgt]
      exact .above quotient (by linarith) (by linarith)

theorem targetExponent_eq {total : ℤ} (h : -1021 ≤ total) :
    Format.binary64.targetExponent total = total - 53 := by
  simp only [Format.targetExponent, Format.mantissaBits, Format.minExponent]
  norm_num
  omega

theorem shiftToTargetExponent_eq {m : Nat} {e : ℤ} (accuracy : Accuracy) (hm : 2 ^ 52 ≤ m)
    (he : -1022 ≤ m.log2 + e) :
    shiftToTargetExponent .binary64 m e accuracy =
      (ExtendedMantissa.ofMantissaAndAccuracy m accuracy >>> (m.log2 - 52), m.log2 + e - 52) := by
  have hlog : 52 ≤ m.log2 := (Nat.le_log2 (by omega)).mpr hm
  have htarget : Format.binary64.targetExponent (totalExponent m e) = m.log2 + e - 52 := by
    rw [totalExponent, targetExponent_eq] <;> omega
  have hshift : (m.log2 + e - 52 - e).toNat = m.log2 - 52 := by omega
  simp only [shiftToTargetExponent, shiftToExponent, htarget, hshift]
  congr 1
  omega

/-- The unpacked form of a zero, or of a positive number with all its 53 digits. -/
inductive Represents : UnpackedFloat → ℚ → Prop
  | zero (sign : Sign) : Represents (.zero sign) 0
  | normal (m : Nat) (e : ℤ) (hm : IsSignificand m) (hleast : -1074 ≤ e) (hmost : e ≤ 971) :
      Represents (.finite .positive m e hm.pos) (m * 2 ^ e)

/-- The exponent is far from both ends, so that a result is neither subnormal nor infinite. -/
def InRange (x : ℚ) : Prop := -1000 ≤ Int.log 2 x ∧ Int.log 2 x ≤ 1000

theorem shiftToTargetExponent_of_isSignificand {m : Nat} {e : ℤ} (hm : IsSignificand m)
    (he : -1074 ≤ e) : shiftToTargetExponent .binary64 m e .exact = (⟨m, false, false⟩, e) := by
  rw [shiftToTargetExponent_eq .exact hm.lower (by rw [hm.log2_eq]; omega), hm.log2_eq]
  congr 1
  omega

theorem shiftToTargetExponent_two_pow {e : ℤ} (he : -1074 ≤ e) :
    shiftToTargetExponent .binary64 (2 ^ 53) e .exact = (⟨2 ^ 52, false, false⟩, e + 1) := by
  rw [shiftToTargetExponent_eq .exact (by norm_num) (by rw [Nat.log2_two_pow]; omega),
    Nat.log2_two_pow]
  congr 1
  omega

theorem represents_carried {rounded : Nat} {last : ℤ} (hlower : 2 ^ 52 ≤ rounded)
    (hupper : rounded ≤ 2 ^ 53) (hleast : -1074 ≤ last) (hmost : last ≤ 970) :
    let final := shiftToTargetExponent .binary64 rounded last .exact
    Represents
      (if h : final.1.mantissa = 0 then .zero .positive
        else .finite .positive final.1.mantissa final.2 (Nat.pos_of_ne_zero h))
      (rounded * 2 ^ last) := by
  intro final
  rcases hupper.lt_or_eq with hlt | rfl
  · have hm : IsSignificand rounded := ⟨hlower, hlt⟩
    have hfinal : final = (⟨rounded, false, false⟩, last) :=
      shiftToTargetExponent_of_isSignificand hm hleast
    simp only [hfinal, hm.pos.ne', ↓reduceDIte]
    exact .normal _ _ hm hleast (by omega)
  · have hfinal : final = (⟨2 ^ 52, false, false⟩, last + 1) :=
      shiftToTargetExponent_two_pow hleast
    have hcarry : ((2 ^ 53 : Nat) : ℚ) * 2 ^ last = (2 ^ 52 : Nat) * 2 ^ (last + 1) := by
      rw [zpow_add_one₀ two_ne_zero]
      push_cast
      ring
    simp only [hfinal, IsSignificand.two_pow.pos.ne', ↓reduceDIte, hcarry]
    exact .normal _ _ .two_pow (by omega) (by omega)

theorem represents_roundWithAccuracy {m : Nat} {accuracy : Accuracy} {value : ℚ} {e : ℤ}
    (hm : 2 ^ 52 ≤ m) (hcut : Cut value (.ofMantissaAndAccuracy m accuracy))
    (hrange : InRange (value * 2 ^ e)) :
    Represents (roundWithAccuracy .binary64 .positive m e accuracy)
      (nearest (value * 2 ^ e)) := by
  have hmantissa : (ExtendedMantissa.ofMantissaAndAccuracy m accuracy).mantissa = m := by
    cases accuracy with
    | exact => rfl
    | inexact side => cases side <;> rfl
  have hvalue : 0 < value :=
    lt_of_lt_of_le (by rw [hmantissa]; exact_mod_cast by omega) hcut.mantissa_le
  have hx : 0 < value * 2 ^ e := mul_pos hvalue (two_zpow_pos e)
  have hlog : Int.log 2 (value * 2 ^ e) = m.log2 + e := by
    rw [log_mul_zpow hvalue, hcut.log_eq (by omega), hmantissa]
  have hdigits : 52 ≤ m.log2 := (Nat.le_log2 (by omega)).mpr hm
  rw [InRange, hlog] at hrange
  have hplace : lastPlace (value * 2 ^ e) = m.log2 + e - 52 := by rw [lastPlace, hlog]
  have hscaled : value / 2 ^ (m.log2 - 52) = value * 2 ^ e / 2 ^ lastPlace (value * 2 ^ e) := by
    have hexponent : (m.log2 : ℤ) + e - 52 = (m.log2 - 52 : Nat) + e := by omega
    rw [hplace, hexponent, zpow_add₀ two_ne_zero, zpow_natCast,
      mul_div_mul_right _ _ (two_zpow_pos e).ne']
  have hrounded := (hcut.shiftRight (m.log2 - 52)).roundedMantissa_eq
  rw [hscaled] at hrounded
  rw [roundWithAccuracy, shiftToTargetExponent_eq accuracy hm (by omega), ← hplace]
  simp only [hrounded]
  exact represents_carried (le_halfEven_scaled hx) (halfEven_scaled_le hx) (by omega) (by omega)

theorem decreaseExponent_value (m : Nat) (e target : ℤ) :
    ((decreaseExponent m e target).1 : ℚ) * 2 ^ (decreaseExponent m e target).2 = m * 2 ^ e := by
  simp only [decreaseExponent, Nat.shiftLeft_eq]
  rw [zpow_sub₀ two_ne_zero, zpow_natCast]
  push_cast
  field_simp

theorem represents_round {m : Nat} {e : ℤ} (hm : 0 < m) (hrange : InRange (m * 2 ^ e)) :
    Represents (UnpackedFloat.round .binary64 .positive m e) (nearest (m * 2 ^ e)) := by
  have hcast : (0 : ℚ) < m := by exact_mod_cast hm
  have hlog : Int.log 2 ((m : ℚ) * 2 ^ e) = m.log2 + e := by
    rw [log_mul_zpow hcast, Int.log_natCast, Nat.log2_eq_log_two]
  have htarget : Format.binary64.targetExponent (totalExponent m e) = m.log2 + e - 52 := by
    rw [InRange, hlog] at hrange
    rw [totalExponent, targetExponent_eq] <;> omega
  have hshift : (e - (m.log2 + e - 52)).toNat = 52 - m.log2 := by omega
  have hdigits : 2 ^ 52 ≤ m <<< (52 - m.log2) :=
    calc 2 ^ 52 ≤ 2 ^ (m.log2 + (52 - m.log2)) := Nat.pow_le_pow_right two_pos (by omega)
      _ = 2 ^ m.log2 * 2 ^ (52 - m.log2) := pow_add ..
      _ ≤ m * 2 ^ (52 - m.log2) := Nat.mul_le_mul_right _ (Nat.log2_self_le hm.ne')
      _ = m <<< (52 - m.log2) := (Nat.shiftLeft_eq ..).symm
  rw [← decreaseExponent_value m e (m.log2 + e - 52)] at hrange ⊢
  simp only [UnpackedFloat.round, htarget]
  refine represents_roundWithAccuracy ?_ (.exact _ rfl) hrange
  simpa only [decreaseExponent, hshift] using hdigits

theorem represents_normalize {m e : ℤ} (hm : 0 ≤ m) (hrange : 0 < m → InRange (m * 2 ^ e)) :
    Represents (UnpackedFloat.normalize .binary64 m e .positive) (nearest (m * 2 ^ e)) := by
  rcases hm.eq_or_lt with rfl | hpos
  · rw [Int.cast_zero, zero_mul, nearest_zero]
    exact .zero .positive
  · have hcast : (m : ℚ) = (m.toNat : Nat) := by
      exact_mod_cast (Int.toNat_of_nonneg hm).symm
    have hgt : compare m 0 = .gt := Int.compare_eq_gt.mpr hpos
    simp only [UnpackedFloat.normalize, hgt]
    rw [hcast] at hrange ⊢
    exact represents_round (by omega) (hrange hpos)

end Turnstile.Binary64

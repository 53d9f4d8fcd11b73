import Mathlib.Algebra.Order.Field.Power
import Mathlib.Data.Int.Log
import Mathlib.Data.Rat.Floor
import Mathlib.Tactic.Linarith
import Mathlib.Tactic.NormNum
import Mathlib.Tactic.Positivity
import Turnstile.Text.Decimal

/-!
Rounding a number to the nearest one that has a significand of 53 bits, a half to the even one.
The exponent is not bounded, so that nothing overflows, and no digits are lost near zero.
-/

namespace Turnstile.Binary64

/-- The nearest whole number, a half to the even one. -/
def halfEven (x : ℚ) : Nat := Decimal.roundHalfEven x.num.toNat x.den

def lastPlace (x : ℚ) : ℤ := Int.log 2 x - 52

/-- The nearest of all numbers with 53 binary digits, the even one of two that are as near. -/
def nearest (x : ℚ) : ℚ := halfEven (x / 2 ^ lastPlace x) * 2 ^ lastPlace x

theorem halfEven_le_iff {x : ℚ} (hx : 0 ≤ x) (m : Nat) :
    halfEven x ≤ m ↔ x < m + 1 / 2 ∨ x = m + 1 / 2 ∧ m % 2 = 0 := by
  have hden : (0 : ℚ) < x.den := Nat.cast_pos.mpr x.den_pos
  have hnum : (x.num.toNat : ℚ) = x * x.den := by
    rw [Rat.mul_den_eq_num]
    exact_mod_cast Int.toNat_of_nonneg (Rat.num_nonneg.mpr hx)
  have hmiddle : ((m : ℚ) + 1 / 2) * (2 * x.den) = (2 * m + 1) * x.den := by ring
  rw [halfEven, Decimal.roundHalfEven_le_iff x.den_pos, ← @Nat.cast_lt ℚ,
    ← @Nat.cast_inj ℚ]
  push_cast
  rw [hnum, ← hmiddle, mul_left_comm, mul_lt_mul_iff_left₀ (by positivity),
    mul_left_inj' (by positivity)]

@[simp]
theorem halfEven_natCast (n : Nat) : halfEven n = n := by
  simp [halfEven, Decimal.roundHalfEven_of_dvd]

theorem halfEven_le {x : ℚ} {m : Nat} (hx : 0 ≤ x) (h : x ≤ m) : halfEven x ≤ m :=
  (halfEven_le_iff hx m).mpr (Or.inl (by linarith))

theorem le_halfEven {x : ℚ} {m : Nat} (h : (m : ℚ) ≤ x) : m ≤ halfEven x := by
  by_contra hlt
  have hpos : 0 < m := by omega
  have hcast : ((m - 1 : Nat) : ℚ) = m - 1 := by rw [Nat.cast_sub hpos, Nat.cast_one]
  have hx : 0 ≤ x := le_trans (Nat.cast_nonneg m) h
  rcases (halfEven_le_iff hx (m - 1)).mp (by omega) with hbelow | ⟨hmiddle, -⟩ <;>
    rw [hcast] at * <;> linarith

theorem halfEven_middle (m : Nat) : halfEven (m + 1 / 2) = m + m % 2 := by
  have hle : halfEven (m + 1 / 2) ≤ m ↔ m % 2 = 0 := by
    rw [halfEven_le_iff (by positivity)]
    simp
  have hlow : m ≤ halfEven (m + 1 / 2) := le_halfEven (by linarith)
  have hhigh : halfEven (m + 1 / 2) ≤ m + 1 :=
    halfEven_le (by positivity) (by push_cast; linarith)
  omega

@[simp]
theorem nearest_zero : nearest 0 = 0 := by
  simp [nearest, halfEven, Decimal.roundHalfEven]

structure IsSignificand (m : Nat) : Prop where
  lower : 2 ^ 52 ≤ m
  upper : m < 2 ^ 53

namespace IsSignificand

variable {m : Nat}

theorem pos (h : IsSignificand m) : 0 < m := lt_of_lt_of_le (by norm_num) h.lower

theorem le_cast (h : IsSignificand m) : (2 : ℚ) ^ 52 ≤ m := by exact_mod_cast h.lower

theorem cast_add_one_le (h : IsSignificand m) : (m : ℚ) + 1 ≤ 2 ^ 53 := by exact_mod_cast h.upper

theorem log2_eq (h : IsSignificand m) : m.log2 = 52 :=
  (Nat.log2_eq_iff h.pos.ne').mpr ⟨h.lower, h.upper⟩

theorem two_pow : IsSignificand (2 ^ 52) := ⟨le_rfl, by norm_num⟩

end IsSignificand

section Scale

theorem two_zpow_pos (e : ℤ) : (0 : ℚ) < 2 ^ e := by positivity

theorem scale_le {e f : ℤ} (h : e < f) : (2 : ℚ) ^ 53 * 2 ^ e ≤ 2 ^ 52 * 2 ^ f := by
  have hstep : (2 : ℚ) ^ (e + 1) ≤ 2 ^ f := zpow_le_zpow_right₀ (by norm_num) h
  rw [zpow_add_one₀ (by norm_num)] at hstep
  linarith

theorem IsSignificand.mul_zpow_pos {m : Nat} (h : IsSignificand m) (e : ℤ) :
    (0 : ℚ) < m * 2 ^ e :=
  mul_pos (by exact_mod_cast h.pos) (two_zpow_pos e)

theorem mul_zpow_lt {m n : Nat} {e f : ℤ} (hm : IsSignificand m) (hn : IsSignificand n)
    (h : e < f) : (m : ℚ) * 2 ^ e < n * 2 ^ f :=
  calc (m : ℚ) * 2 ^ e < 2 ^ 53 * 2 ^ e :=
        mul_lt_mul_of_pos_right (by linarith [hm.cast_add_one_le]) (two_zpow_pos e)
    _ ≤ 2 ^ 52 * 2 ^ f := scale_le h
    _ ≤ n * 2 ^ f := mul_le_mul_of_nonneg_right hn.le_cast (two_zpow_pos f).le

theorem scaled_lt (x : ℚ) : x / 2 ^ lastPlace x < (2 : ℚ) ^ 53 := by
  rw [div_lt_iff₀ (two_zpow_pos _), ← zpow_natCast, ← zpow_add₀ (by norm_num)]
  have h := Int.lt_zpow_succ_log_self (b := 2) (by norm_num) x
  have hexponent : ((53 : Nat) : ℤ) + lastPlace x = Int.log 2 x + 1 := by
    simp only [lastPlace]
    omega
  rw [hexponent]
  exact_mod_cast h

variable {x : ℚ} (hx : 0 < x)

include hx

theorem log_mul_zpow (e : ℤ) : Int.log 2 (x * 2 ^ e) = Int.log 2 x + e := by
  have hpos : 0 < x * 2 ^ e := mul_pos hx (two_zpow_pos e)
  have hlow := Int.zpow_log_le_self (b := 2) (by norm_num) hx
  have hhigh := Int.lt_zpow_succ_log_self (b := 2) (by norm_num) x
  refine le_antisymm (Int.lt_add_one_iff.mp ?_) ?_
  · rw [← Int.lt_zpow_iff_log_lt (by norm_num) hpos, add_right_comm, zpow_add₀ (by norm_num)]
    exact_mod_cast mul_lt_mul_of_pos_right hhigh (two_zpow_pos e)
  · rw [← Int.zpow_le_iff_le_log (by norm_num) hpos, zpow_add₀ (by norm_num)]
    exact_mod_cast mul_le_mul_of_nonneg_right hlow (two_zpow_pos e).le

theorem le_scaled : (2 : ℚ) ^ 52 ≤ x / 2 ^ lastPlace x := by
  rw [le_div_iff₀ (two_zpow_pos _), ← zpow_natCast, ← zpow_add₀ (by norm_num)]
  have h := Int.zpow_log_le_self (b := 2) (by norm_num) hx
  simpa [lastPlace] using h

theorem le_halfEven_scaled : 2 ^ 52 ≤ halfEven (x / 2 ^ lastPlace x) :=
  le_halfEven (by exact_mod_cast le_scaled hx)

theorem halfEven_scaled_le : halfEven (x / 2 ^ lastPlace x) ≤ 2 ^ 53 :=
  halfEven_le (by positivity) (by exact_mod_cast (scaled_lt x).le)

theorem le_nearest : (2 : ℚ) ^ 52 * 2 ^ lastPlace x ≤ nearest x := by
  have h : ((2 ^ 52 : Nat) : ℚ) ≤ halfEven (x / 2 ^ lastPlace x) :=
    Nat.cast_le.mpr (le_halfEven_scaled hx)
  push_cast at h
  exact mul_le_mul_of_nonneg_right h (two_zpow_pos _).le

theorem nearest_le : nearest x ≤ (2 : ℚ) ^ 53 * 2 ^ lastPlace x := by
  have h : (halfEven (x / 2 ^ lastPlace x) : ℚ) ≤ (2 ^ 53 : Nat) :=
    Nat.cast_le.mpr (halfEven_scaled_le hx)
  push_cast at h
  exact mul_le_mul_of_nonneg_right h (two_zpow_pos _).le

theorem exists_nearest_eq :
    ∃ (m : Nat) (e : ℤ), IsSignificand m ∧ nearest x = m * 2 ^ e := by
  rcases (halfEven_scaled_le hx).lt_or_eq with hlt | heq
  · exact ⟨_, _, ⟨le_halfEven_scaled hx, hlt⟩, rfl⟩
  · refine ⟨2 ^ 52, lastPlace x + 1, .two_pow, ?_⟩
    rw [nearest, heq, zpow_add_one₀ (by norm_num)]
    push_cast
    ring

end Scale

section Threshold

variable {m : Nat} {e : ℤ} (hm : IsSignificand m) {x : ℚ} (hx : 0 ≤ x)

include hm hx

/-- A number is rounded to the float `m * 2 ^ e` at most when it is below the middle between
this one and the next, and in the middle when `m` is even. -/
theorem nearest_le_iff :
    nearest x ≤ m * 2 ^ e ↔
      x < (m + 1 / 2) * 2 ^ e ∨ x = (m + 1 / 2) * 2 ^ e ∧ m % 2 = 0 := by
  have hscale := two_zpow_pos e
  have hlower : (2 : ℚ) ^ 52 * 2 ^ e ≤ m * 2 ^ e :=
    mul_le_mul_of_nonneg_right hm.le_cast hscale.le
  have hmiddle : (m : ℚ) * 2 ^ e < (m + 1 / 2) * 2 ^ e :=
    mul_lt_mul_of_pos_right (by linarith) hscale
  have hupper : ((m : ℚ) + 1 / 2) * 2 ^ e < 2 ^ 53 * 2 ^ e :=
    mul_lt_mul_of_pos_right (by linarith [hm.cast_add_one_le]) hscale
  rcases hx.eq_or_lt with rfl | hpos
  · rw [nearest_zero]
    exact iff_of_true (by positivity) (Or.inl (by positivity))
  have hlow := (le_div_iff₀ (two_zpow_pos _)).mp (le_scaled hpos)
  have hhigh := (div_lt_iff₀ (two_zpow_pos _)).mp (scaled_lt x)
  rcases lt_trichotomy e (lastPlace x) with hlt | heq | hgt
  · have hgap := scale_le hlt
    have hnear := le_nearest hpos
    refine iff_of_false (by linarith) ?_
    rintro (h | ⟨h, -⟩) <;> linarith
  · rw [nearest, ← heq, mul_le_mul_iff_left₀ hscale, Nat.cast_le,
      halfEven_le_iff (by positivity), div_lt_iff₀ hscale, div_eq_iff hscale.ne']
  · have hgap := scale_le hgt
    have hnear := nearest_le hpos
    exact iff_of_true (by linarith) (Or.inl (by linarith))

theorem nearest_le_iff_of_even (heven : m % 2 = 0) :
    nearest x ≤ m * 2 ^ e ↔ x ≤ (m + 1 / 2) * 2 ^ e := by
  rw [nearest_le_iff hm hx, le_iff_lt_or_eq]
  simp only [heven, and_true]

theorem lt_nearest_iff_of_odd (hodd : m % 2 = 1) :
    m * 2 ^ e < nearest x ↔ (m + 1 / 2) * 2 ^ e ≤ x := by
  rw [← not_le, nearest_le_iff hm hx, ← not_lt]
  simp [hodd]

theorem nearest_le_of_lt (h : nearest x < (m + 1) * 2 ^ e) : nearest x ≤ m * 2 ^ e := by
  have hscale := two_zpow_pos e
  rcases hx.eq_or_lt with rfl | hpos
  · rw [nearest_zero]
    positivity
  obtain ⟨n, f, hn, heq⟩ := exists_nearest_eq hpos
  rw [heq] at h ⊢
  rcases lt_trichotomy f e with hlt | rfl | hgt
  · exact (mul_zpow_lt hn hm hlt).le
  · have hlt : (n : ℚ) < m + 1 := lt_of_mul_lt_mul_right h hscale.le
    have hle : n ≤ m := Nat.lt_succ_iff.mp (by exact_mod_cast hlt)
    exact mul_le_mul_of_nonneg_right (by exact_mod_cast hle) hscale.le
  · have hover : ((m : ℚ) + 1) * 2 ^ e ≤ n * 2 ^ f :=
      calc ((m : ℚ) + 1) * 2 ^ e ≤ 2 ^ 53 * 2 ^ e :=
            mul_le_mul_of_nonneg_right hm.cast_add_one_le hscale.le
        _ ≤ 2 ^ 52 * 2 ^ f := scale_le hgt
        _ ≤ n * 2 ^ f := mul_le_mul_of_nonneg_right hn.le_cast (two_zpow_pos f).le
    exact absurd h hover.not_gt

theorem nearest_lt_iff_of_even (heven : m % 2 = 0) :
    nearest x < (m + 1) * 2 ^ e ↔ x ≤ (m + 1 / 2) * 2 ^ e := by
  rw [← nearest_le_iff_of_even hm hx heven]
  refine ⟨nearest_le_of_lt hm hx, fun h => lt_of_le_of_lt h ?_⟩
  exact mul_lt_mul_of_pos_right (lt_add_one _) (two_zpow_pos e)

end Threshold

theorem nearest_nonneg (x : ℚ) : 0 ≤ nearest x :=
  mul_nonneg (Nat.cast_nonneg _) (two_zpow_pos _).le

theorem nearest_pos {x : ℚ} (hx : 0 < x) : 0 < nearest x :=
  lt_of_lt_of_le (by positivity) (le_nearest hx)

theorem nearest_mono {x y : ℚ} (hx : 0 ≤ x) (h : x ≤ y) : nearest x ≤ nearest y := by
  rcases (hx.trans h).eq_or_lt with rfl | hpos
  · rw [le_antisymm h hx]
  obtain ⟨m, e, hm, heq⟩ := exists_nearest_eq hpos
  have hiff := nearest_le_iff (e := e) hm hpos.le
  rw [heq, nearest_le_iff hm hx]
  rcases hiff.mp heq.le with hy | ⟨hy, heven⟩
  · exact Or.inl (h.trans_lt hy)
  · exact (h.trans_eq hy).lt_or_eq.imp id fun hx => ⟨hx, heven⟩

theorem nearest_eq_self {m : Nat} (h : m < 2 ^ 53) (e : ℤ) :
    nearest (m * 2 ^ e) = m * 2 ^ e := by
  rcases m.eq_zero_or_pos with rfl | hpos
  · simp
  have hscale := two_zpow_pos e
  have hx : (0 : ℚ) < m * 2 ^ e := by positivity
  have hplace : lastPlace (m * 2 ^ e) ≤ e := by
    have hlt : (m : ℚ) * 2 ^ e < (2 : ℕ) ^ (53 + e) := by
      rw [Nat.cast_ofNat, zpow_add₀ (by norm_num)]
      exact mul_lt_mul_of_pos_right (by exact_mod_cast h) hscale
    have hlog := (Int.lt_zpow_iff_log_lt (by norm_num) hx).mp hlt
    simp only [lastPlace]
    omega
  have hscaled : (m : ℚ) * 2 ^ e / 2 ^ lastPlace (m * 2 ^ e) =
      (m * 2 ^ (e - lastPlace (m * 2 ^ e)).toNat : Nat) := by
    push_cast
    rw [← zpow_natCast, Int.toNat_of_nonneg (by omega), zpow_sub₀ (by norm_num), mul_div_assoc]
  rw [nearest, hscaled, halfEven_natCast, ← hscaled, div_mul_cancel₀ _ (two_zpow_pos _).ne']

@[simp]
theorem nearest_one : nearest 1 = 1 := by
  simpa using nearest_eq_self (m := 1) (by norm_num) 0

theorem nearest_natCast {n : Nat} (h : n < 2 ^ 53) : nearest n = n := by
  simpa using nearest_eq_self h 0

end Turnstile.Binary64

import Turnstile.Metrics
import Turnstile.Proofs.Binary64.Arithmetic

/-!
At which counts a controller is under pressure, and at which its state is critical. The rates
are rounded twice, so that the thresholds are not the documented ones, but shares very close
to these.
-/

namespace Turnstile.Metrics

open Binary64

section Constants

theorem holds_normal {number : Float} {m : Nat} {e : ℤ} (hm : IsSignificand m)
    (hleast : -1074 ≤ e) (hmost : e ≤ 971)
    (h : number.toModel.unpack = .finite .positive m e hm.pos) : Holds number (m * 2 ^ e) := by
  rw [Holds, h]
  exact .normal m e hm hleast hmost

theorem holds_zero : Holds 0.0 0 := .zero .positive

theorem holds_one : Holds 1.0 1 := by
  have h : Holds 1.0 ((2 ^ 52 : Nat) * 2 ^ (-52 : ℤ)) :=
    holds_normal .two_pow (by decide) (by decide) rfl
  norm_num at h
  exact h

theorem isSignificand_pressureRate : IsSignificand 5404319552844595 := ⟨by decide, by decide⟩

theorem holds_pressureRate : Holds pressureRate ((5404319552844595 : Nat) * 2 ^ (-54 : ℤ)) :=
  holds_normal isSignificand_pressureRate (by decide) (by decide) rfl

theorem holds_criticalRate : Holds criticalRate ((2 ^ 52 : Nat) * 2 ^ (-53 : ℤ)) :=
  holds_normal .two_pow (by decide) (by decide) rfl

end Constants

def events (metrics : Metrics) : Nat := metrics.delivered + metrics.lost

def share (part whole : Nat) : ℚ := nearest part / nearest whole

section Share

variable {part whole : Nat}

theorem one_le_nearest_count {count : Nat} (h : 0 < count) : 1 ≤ nearest count := by
  rw [← nearest_one]
  exact nearest_mono zero_le_one (by exact_mod_cast h)

theorem nearest_count_le {count : Nat} (h : count < 2 ^ 64) : nearest count ≤ 2 ^ 64 := by
  have htop : nearest (2 ^ 64) = 2 ^ 64 := by
    simpa using nearest_eq_self (m := 1) (by norm_num) 64
  rw [← htop]
  exact nearest_mono (Nat.cast_nonneg _) (by exact_mod_cast h.le)

theorem share_nonneg (part whole : Nat) : 0 ≤ share part whole :=
  div_nonneg (nearest_nonneg _) (nearest_nonneg _)

theorem share_le_one (h : part ≤ whole) : share part whole ≤ 1 :=
  div_le_one_of_le₀ (nearest_mono (Nat.cast_nonneg _) (by exact_mod_cast h)) (nearest_nonneg _)

theorem share_eq (hle : part ≤ whole) (hwhole : whole < 2 ^ 53) :
    share part whole = part / whole := by
  rw [share, nearest_natCast hwhole, nearest_natCast (lt_of_le_of_lt hle hwhole)]

theorem inRange_of_le {x : ℚ} (hlow : 2 ^ (-64 : ℤ) ≤ x) (hhigh : x ≤ 1) : InRange x := by
  have hpos : 0 < x := lt_of_lt_of_le (two_zpow_pos _) hlow
  have hlog : -64 ≤ Int.log 2 x :=
    (Int.zpow_le_iff_le_log one_lt_two hpos).mp (by exact_mod_cast hlow)
  have hlog' : Int.log 2 x < 1 :=
    (Int.lt_zpow_iff_log_lt one_lt_two hpos).mp (by norm_num; linarith)
  constructor <;> omega

theorem holds_quotient (hpos : 0 < whole) (hle : part ≤ whole) (hwhole : whole < 2 ^ 64) :
    Holds (ofCount part / ofCount whole) (nearest (share part whole)) := by
  have hwhole_pos : 0 < nearest whole := nearest_pos (by exact_mod_cast hpos)
  refine (holds_ofCount (lt_of_le_of_lt hle hwhole)).div (holds_ofCount hwhole) hwhole_pos
    fun hpart => inRange_of_le ?_ (share_le_one hle)
  have hpart' : 0 < part := Nat.pos_of_ne_zero fun h => by simp [h] at hpart
  rw [le_div_iff₀ hwhole_pos]
  calc (2 : ℚ) ^ (-64 : ℤ) * nearest whole ≤ 2 ^ (-64 : ℤ) * 2 ^ 64 :=
        mul_le_mul_of_nonneg_left (nearest_count_le hwhole) (two_zpow_pos _).le
    _ = 1 := by norm_num
    _ ≤ nearest part := one_le_nearest_count hpart'

theorem holds_one_sub {number : Float} {x : ℚ} (h : Holds number (nearest x)) (hx : 0 ≤ x)
    (hle : x ≤ 1) : Holds (1.0 - number) (nearest (1 - nearest x)) := by
  have hnear : nearest x ≤ 1 := nearest_one ▸ nearest_mono hx hle
  refine holds_one.sub h hnear fun hlt => inRange_of_le ?_ (by linarith [nearest_nonneg x])
  have hgap : nearest x ≤ (2 ^ 53 - 1 : Nat) * 2 ^ (-53 : ℤ) :=
    nearest_le_of_lt ⟨by norm_num, by norm_num⟩ hx (by norm_num; exact hlt)
  norm_num at hgap ⊢
  linarith

end Share

section Rates

variable {metrics : Metrics}

def allowedShare (metrics : Metrics) : ℚ :=
  if metrics.requests = 0 then 1 else share metrics.allowed metrics.requests

theorem allowedShare_nonneg (metrics : Metrics) : 0 ≤ metrics.allowedShare := by
  unfold allowedShare
  split
  · exact zero_le_one
  · exact share_nonneg ..

theorem allowedShare_le_one (metrics : Metrics) : metrics.allowedShare ≤ 1 := by
  unfold allowedShare
  split
  · exact le_rfl
  · exact share_le_one (Nat.le_add_right ..)

theorem holds_denialRate (h : metrics.requests < 2 ^ 64) :
    Holds metrics.denialRate (nearest (1 - nearest metrics.allowedShare)) := by
  refine holds_one_sub ?_ metrics.allowedShare_nonneg metrics.allowedShare_le_one
  unfold allowRate allowedShare
  split
  · rw [nearest_one]
    exact holds_one
  · rename_i hrequests
    exact holds_quotient (Nat.pos_of_ne_zero hrequests) (Nat.le_add_right ..) h

theorem holds_lossRate (h : metrics.events < 2 ^ 64) :
    Holds metrics.lossRate (nearest (share metrics.lost metrics.events)) := by
  simp only [lossRate]
  split
  · rename_i hevents
    have hlost : metrics.lost = 0 := by omega
    simpa [share, hlost] using holds_zero
  · rename_i hevents
    exact holds_quotient (Nat.pos_of_ne_zero hevents) (Nat.le_add_left ..) h

theorem one_sub_nearest_allowedShare_nonneg (metrics : Metrics) :
    0 ≤ 1 - nearest metrics.allowedShare := by
  have h := nearest_mono metrics.allowedShare_nonneg metrics.allowedShare_le_one
  rw [nearest_one] at h
  linarith

theorem underPressure_iff (h : metrics.requests < 2 ^ 64) :
    metrics.underPressure = true ↔ metrics.allowedShare ≤ 7 / 10 + 1 / (5 * 2 ^ 54) := by
  have hm : IsSignificand 6305039478318694 := ⟨by norm_num, by norm_num⟩
  have hround := nearest_lt_iff_of_even (e := -53) hm metrics.allowedShare_nonneg (by norm_num)
  have hgap := nearest_le_of_lt (e := -53) hm metrics.allowedShare_nonneg
  rw [underPressure, decide_eq_true_iff, holds_pressureRate.lt_iff (holds_denialRate h),
    lt_nearest_iff_of_odd isSignificand_pressureRate
      metrics.one_sub_nearest_allowedShare_nonneg (by norm_num)]
  norm_num at hround hgap ⊢
  rw [← hround]
  constructor
  · intro h
    linarith
  · intro h
    have := hgap h
    linarith

theorem critical_denialRate_iff (h : metrics.requests < 2 ^ 64) :
    criticalRate < metrics.denialRate ↔ metrics.allowedShare ≤ 1 / 2 - 3 / 2 ^ 55 := by
  have hm : IsSignificand (2 ^ 53 - 2) := ⟨by norm_num, by norm_num⟩
  have hround := nearest_lt_iff_of_even (e := -54) hm metrics.allowedShare_nonneg (by norm_num)
  rw [holds_criticalRate.lt_iff (holds_denialRate h), ← not_le,
    nearest_le_iff_of_even .two_pow metrics.one_sub_nearest_allowedShare_nonneg (by norm_num)]
  norm_num at hround ⊢
  rw [← hround]
  constructor <;> intro h <;> linarith

theorem critical_lossRate_iff (h : metrics.events < 2 ^ 64) :
    criticalRate < metrics.lossRate ↔
      1 / 2 + 1 / 2 ^ 54 < share metrics.lost metrics.events := by
  rw [holds_criticalRate.lt_iff (holds_lossRate h), ← not_le,
    nearest_le_iff_of_even .two_pow (share_nonneg ..) (by norm_num), not_le]
  norm_num

theorem health_eq_of_shares (hrequests : metrics.requests < 2 ^ 64)
    (hevents : metrics.events < 2 ^ 64) :
    metrics.health =
      if metrics.allowedShare ≤ 1 / 2 - 3 / 2 ^ 55 ∨
          1 / 2 + 1 / 2 ^ 54 < share metrics.lost metrics.events then .critical
      else if metrics.allowedShare ≤ 7 / 10 + 1 / (5 * 2 ^ 54) ∨ 0 < metrics.lost then .degraded
      else .healthy := by
  unfold health
  simp only [critical_denialRate_iff hrequests, critical_lossRate_iff hevents,
    underPressure_iff hrequests, losingTelemetry_iff]

end Rates

section Counts

variable {metrics : Metrics}

theorem allowedShare_eq_of_pos (hpos : 0 < metrics.requests) (h : metrics.requests < 2 ^ 53) :
    metrics.allowedShare = metrics.allowed / metrics.requests := by
  have hle : metrics.allowed ≤ metrics.requests := Nat.le_add_right ..
  rw [allowedShare, if_neg hpos.ne', share_eq hle h]

theorem pressed_iff_of_counts (h : metrics.requests < 2 ^ 53) :
    metrics.allowedShare ≤ 7 / 10 + 1 / (5 * 2 ^ 54) ↔
      0 < metrics.requests ∧ 3 * metrics.requests ≤ 10 * metrics.denied := by
  rcases Nat.eq_zero_or_pos metrics.requests with hzero | hpos
  · norm_num [allowedShare, hzero]
  have hcast : (0 : ℚ) < metrics.requests := by exact_mod_cast hpos
  have hsmall : (metrics.requests : ℚ) < 2 ^ 53 := by exact_mod_cast h
  have hdenied : 3 * metrics.requests ≤ 10 * metrics.denied ↔
      10 * metrics.allowed ≤ 7 * metrics.requests := by
    simp only [requests]
    omega
  rw [allowedShare_eq_of_pos hpos h, div_le_iff₀ hcast, hdenied]
  constructor
  · intro h
    have hlt : (10 * metrics.allowed : ℚ) < 7 * metrics.requests + 1 := by linarith
    exact ⟨hpos, Nat.lt_succ_iff.mp (by exact_mod_cast hlt)⟩
  · rintro ⟨-, h⟩
    have hle : (10 * metrics.allowed : ℚ) ≤ 7 * metrics.requests := by exact_mod_cast h
    linarith

theorem denied_iff_of_counts (h : 3 * metrics.requests ≤ 2 ^ 54) :
    metrics.allowedShare ≤ 1 / 2 - 3 / 2 ^ 55 ↔ metrics.requests < 2 * metrics.denied := by
  rcases Nat.eq_zero_or_pos metrics.requests with hzero | hpos
  · have hdenied : metrics.denied = 0 := (Nat.add_eq_zero_iff.mp hzero).2
    norm_num [allowedShare, hzero, hdenied]
  have hcast : (0 : ℚ) < metrics.requests := by exact_mod_cast hpos
  have hsmall : (3 * metrics.requests : ℚ) ≤ 2 ^ 54 := by exact_mod_cast h
  have hdenied : metrics.requests < 2 * metrics.denied ↔
      2 * metrics.allowed + 1 ≤ metrics.requests := by
    simp only [requests]
    omega
  rw [allowedShare_eq_of_pos hpos (by omega), div_le_iff₀ hcast, hdenied]
  constructor
  · intro h
    have hlt : (2 * metrics.allowed : ℚ) < metrics.requests := by linarith
    exact_mod_cast hlt
  · intro h
    have hle : (2 * metrics.allowed + 1 : ℚ) ≤ metrics.requests := by exact_mod_cast h
    linarith

theorem lost_iff_of_counts (h : metrics.events < 2 ^ 53) :
    1 / 2 + 1 / 2 ^ 54 < share metrics.lost metrics.events ↔
      metrics.events < 2 * metrics.lost := by
  have hlost : metrics.lost ≤ metrics.events := Nat.le_add_left ..
  rcases Nat.eq_zero_or_pos metrics.events with hzero | hpos
  · have hlost : metrics.lost = 0 := by omega
    norm_num [share, hzero, hlost]
  have hcast : (0 : ℚ) < metrics.events := by exact_mod_cast hpos
  have hsmall : (metrics.events : ℚ) < 2 ^ 53 := by exact_mod_cast h
  rw [share_eq hlost h, lt_div_iff₀ hcast]
  constructor
  · intro h
    have hlt : (metrics.events : ℚ) < 2 * metrics.lost := by linarith
    exact_mod_cast hlt
  · intro h
    have hle : (metrics.events + 1 : ℚ) ≤ 2 * metrics.lost := by exact_mod_cast h
    linarith

/-- The level follows the shares of requests allowed and of events lost, with thresholds next to
the documented ones. While few enough are counted, this makes the level the documented one,
except that a controller is under pressure at three requests denied in ten already. -/
theorem health_follows_shares (metrics : Metrics) (hrequests : metrics.requests < 2 ^ 64)
    (hevents : metrics.events < 2 ^ 64) :
    (metrics.underPressure = true ↔ metrics.allowedShare ≤ 7 / 10 + 1 / (5 * 2 ^ 54)) ∧
    metrics.health =
      (if metrics.allowedShare ≤ 1 / 2 - 3 / 2 ^ 55 ∨
          1 / 2 + 1 / 2 ^ 54 < share metrics.lost metrics.events then .critical
      else if metrics.allowedShare ≤ 7 / 10 + 1 / (5 * 2 ^ 54) ∨ 0 < metrics.lost then .degraded
      else .healthy) ∧
    (3 * metrics.requests ≤ 2 ^ 54 → metrics.events < 2 ^ 53 →
      (metrics.underPressure = true ↔
        0 < metrics.requests ∧ 3 * metrics.requests ≤ 10 * metrics.denied) ∧
      metrics.health =
        if metrics.requests < 2 * metrics.denied ∨ metrics.events < 2 * metrics.lost then .critical
        else if (0 < metrics.requests ∧ 3 * metrics.requests ≤ 10 * metrics.denied) ∨
            0 < metrics.lost then .degraded
        else .healthy) := by
  have hpressure := underPressure_iff hrequests
  have hhealth := health_eq_of_shares hrequests hevents
  refine ⟨hpressure, hhealth, fun hfew hfew' => ?_⟩
  have hpressed := pressed_iff_of_counts (show metrics.requests < 2 ^ 53 by omega)
  simp only [hpressed, denied_iff_of_counts hfew, lost_iff_of_counts hfew'] at hpressure hhealth
  exact ⟨hpressure, hhealth⟩

def sevenOfTen : Metrics := { allowed := 7, denied := 3, delivered := 10 }

theorem health_follows_shares_sevenOfTen :
    sevenOfTen.requests < 2 ^ 64 ∧ sevenOfTen.events < 2 ^ 64 ∧
      3 * sevenOfTen.requests ≤ 2 ^ 54 ∧ sevenOfTen.events < 2 ^ 53 ∧
      sevenOfTen.underPressure = true ∧ sevenOfTen.health = .degraded := by
  obtain ⟨hpressure, hhealth⟩ :=
    (health_follows_shares sevenOfTen (by decide) (by decide)).2.2 (by decide) (by decide)
  exact ⟨by decide, by decide, by decide, by decide, hpressure.mpr (by decide),
    hhealth.trans (by decide)⟩

theorem not_documented_levels :
    ¬∀ metrics : Metrics, metrics.requests < 2 ^ 64 → metrics.events < 2 ^ 64 →
      (metrics.underPressure = true ↔ 3 * metrics.requests < 10 * metrics.denied) ∧
      metrics.health =
        if metrics.requests < 2 * metrics.denied ∨ metrics.events < 2 * metrics.lost then .critical
        else if 3 * metrics.requests < 10 * metrics.denied ∨ 0 < metrics.lost then .degraded
        else .healthy := by
  intro h
  have hpressure := (h sevenOfTen (by decide) (by decide)).1
  exact absurd (hpressure.mp (by decide)) (by decide)

end Counts

end Turnstile.Metrics

import Turnstile.Binary64
import Turnstile.Proofs.Binary64.Rounding

/-!
What the operations that metrics are computed with give, as rational numbers: each of them
rounds the exact result to the nearest float.
-/

namespace Turnstile.Binary64

open Float.Model Float.Model.UnpackedFloat

theorem toNat_one_append {m : Nat} (hm : IsSignificand m) :
    (1#1 ++ BitVec.ofNat 52 m).toNat = m := by
  obtain ⟨hlower, hupper⟩ := hm
  have hlt : (BitVec.ofNat 52 m).toNat < 2 ^ 52 := (BitVec.ofNat 52 m).isLt
  rw [BitVec.toNat_append, ← Nat.shiftLeft_add_eq_or_of_lt hlt, BitVec.toNat_ofNat,
    BitVec.toNat_ofNat, Nat.shiftLeft_eq]
  omega

theorem unpack_pack_normal {m : Nat} {e : ℤ} (hm : IsSignificand m) (hleast : -1074 ≤ e)
    (hmost : e ≤ 971) :
    (Float.Model.pack (.finite .positive m e hm.pos)).unpack = .finite .positive m e hm.pos := by
  obtain ⟨field, hfield⟩ : ∃ field : Nat, e = field - 1075 := ⟨(e + 1075).toNat, by omega⟩
  have hbias : (Format.binary64.exponentBias : ℤ) = 1023 := rfl
  have hbiased : (e + Format.binary64.exponentBias + 52).toNat = field := by omega
  have hsmall : ¬2047 ≤ field := by omega
  have hvalue : (BitVec.ofNat 11 field).toNat = field := by
    rw [BitVec.toNat_ofNat]
    omega
  have hfinite : BitVec.ofNat 11 field ≠ -1#11 := fun h => by
    have : field = 2047 := by simpa [hvalue] using congrArg BitVec.toNat h
    omega
  have hnormal : BitVec.ofNat 11 field ≠ 0#11 := fun h => by
    have : field = 0 := by simpa [hvalue] using congrArg BitVec.toNat h
    omega
  have hpacked : UnpackedFloat.pack .binary64 (.finite .positive m e hm.pos) =
      packComponents .binary64 .positive (BitVec.ofNat 11 field) (BitVec.ofNat 52 m) := by
    simp [UnpackedFloat.pack, hbiased, hsmall, hm.log2_eq, Format.mantissaBits]
  have hexponent : (field : ℤ) - (Format.binary64.exponentBias + 52) = e := by omega
  simp only [Float.Model.unpack, Float.Model.pack, hpacked]
  unfold UnpackedFloat.unpack
  simp only [unpackMantissa_packComponents, unpackExponent_packComponents,
    unpackSign_packComponents, Sign.ofBitVec_toBitVec, hfinite, hnormal, ↓reduceIte, hvalue]
  congr 1
  exact toNat_one_append hm

theorem decreaseExponent_value_of_le (m : Nat) {e target : ℤ} (h : target ≤ e) :
    ((decreaseExponent m e target).1 : ℚ) * 2 ^ target = m * 2 ^ e := by
  have htarget : (decreaseExponent m e target).2 = target := by
    simp only [decreaseExponent]
    omega
  simpa only [htarget] using decreaseExponent_value m e target

section Unpacked

variable {left right : UnpackedFloat} {x y : ℚ}

namespace Represents

theorem lt_iff (h : Represents left x) (h' : Represents right y) :
    UnpackedFloat.lt left right = true ↔ x < y := by
  cases h with
  | zero sign =>
    cases h' with
    | zero sign' => simp [UnpackedFloat.lt, UnpackedFloat.compare]
    | normal n f hn =>
      refine iff_of_true (by simp [UnpackedFloat.lt, UnpackedFloat.compare]) ?_
      exact hn.mul_zpow_pos f
  | normal m e hm =>
    cases h' with
    | zero sign =>
      refine iff_of_false (by simp [UnpackedFloat.lt, UnpackedFloat.compare]) ?_
      exact (hm.mul_zpow_pos e).not_gt
    | normal n f hn =>
      have hlt : UnpackedFloat.lt (.finite .positive m e hm.pos) (.finite .positive n f hn.pos) =
          true ↔ e < f ∨ e = f ∧ m < n := by
        simp [UnpackedFloat.lt, UnpackedFloat.compare, Ordering.then_eq_lt, compare_lt_iff_lt]
      rw [hlt]
      rcases lt_trichotomy e f with h | rfl | h
      · exact iff_of_true (Or.inl h) (mul_zpow_lt hm hn h)
      · simp [two_zpow_pos]
      · exact iff_of_false (by omega) (mul_zpow_lt hn hm h).not_gt

theorem unpack_pack (h : Represents left x) : (Float.Model.pack left).unpack = left := by
  cases h with
  | zero sign => exact unpack_packedZero
  | normal m e hm hleast hmost => exact unpack_pack_normal hm hleast hmost

theorem div (h : Represents left x) (h' : Represents right y) (hy : 0 < y)
    (hrange : 0 < x → InRange (x / y)) :
    Represents (UnpackedFloat.div .binary64 left right) (nearest (x / y)) := by
  cases h' with
  | zero sign => exact absurd hy (lt_irrefl 0)
  | normal n f hn =>
    cases h with
    | zero sign =>
      rw [zero_div, nearest_zero]
      exact .zero _
    | normal m e hm =>
      have hx := hm.mul_zpow_pos e
      have hrange := hrange hx
      have hexponent : -1000 ≤ e - f := by
        have hlt : (m : ℚ) * 2 ^ e / (n * 2 ^ f) < (2 : Nat) ^ (e - f + 1) := by
          rw [div_lt_iff₀ hy, Nat.cast_ofNat]
          calc (m : ℚ) * 2 ^ e < n * 2 ^ (e + 1) := mul_zpow_lt hm hn (by omega)
            _ = n * 2 ^ (e - f + 1 + f) := by rw [add_right_comm, sub_add_cancel]
            _ = 2 ^ (e - f + 1) * (n * 2 ^ f) := by
              rw [zpow_add₀ two_ne_zero]
              ring
        have := (Int.lt_zpow_iff_log_lt one_lt_two (div_pos hx hy)).mp hlt
        have := hrange.1
        omega
      have htarget : min (e - f)
          (Format.binary64.targetExponent (totalExponent m e - totalExponent n f)) =
          e - f - 53 := by
        simp only [totalExponent, hm.log2_eq, hn.log2_eq]
        rw [targetExponent_eq] <;> omega
      have hshift : (e - f - (e - f - 53)).toNat = 53 := by omega
      have hvalue : (m : ℚ) * (2 : ℚ) ^ e / (n * (2 : ℚ) ^ f) =
          ((m <<< 53 : Nat) : ℚ) / n * 2 ^ (e - f - 53) := by
        rw [Nat.shiftLeft_eq, zpow_sub₀ two_ne_zero, zpow_sub₀ two_ne_zero]
        push_cast
        field_simp
      simp only [UnpackedFloat.div, divCore, htarget, hshift]
      rw [hvalue] at hrange ⊢
      refine represents_roundWithAccuracy ?_ (cut_fraction _ hn.pos) hrange
      rw [Nat.le_div_iff_mul_le hn.pos, Nat.shiftLeft_eq]
      have := hm.lower
      have := hn.upper
      omega

theorem sub (h : Represents left x) (h' : Represents right y) (hle : y ≤ x)
    (hrange : y < x → InRange (x - y)) :
    Represents (UnpackedFloat.sub .binary64 left right) (nearest (x - y)) := by
  cases h' with
  | zero sign' =>
    rw [sub_zero]
    cases h with
    | zero sign =>
      rw [nearest_zero]
      simp only [UnpackedFloat.sub]
      split <;> exact .zero _
    | normal m e hm hleast hmost =>
      rw [nearest_eq_self hm.upper]
      exact .normal m e hm hleast hmost
  | normal n f hn =>
    cases h with
    | zero sign => exact absurd hle (hn.mul_zpow_pos f).not_ge
    | normal m e hm =>
      have hleft := decreaseExponent_value_of_le m (min_le_left e f)
      have hright := decreaseExponent_value_of_le n (min_le_right e f)
      have hvalue : (m : ℚ) * (2 : ℚ) ^ e - n * (2 : ℚ) ^ f =
          (((decreaseExponent m e (min e f)).1 - (decreaseExponent n f (min e f)).1 : ℤ) : ℚ) *
            2 ^ min e f := by
        push_cast
        rw [sub_mul, hleft, hright]
      rw [← sub_nonneg, hvalue, mul_nonneg_iff_of_pos_right (two_zpow_pos _),
        Int.cast_nonneg_iff] at hle
      rw [← sub_pos, hvalue, mul_pos_iff_of_pos_right (two_zpow_pos _), Int.cast_pos] at hrange
      rw [hvalue]
      exact represents_normalize hle hrange

end Represents

end Unpacked

theorem represents_ofNat {n : Nat} (h : n < 2 ^ 64) :
    Represents (UnpackedFloat.ofNat .binary64 n) (nearest n) := by
  have hrange (hpos : 0 < n) : InRange (n : ℚ) := by
    have hlog : n.log2 < 64 := (Nat.log2_lt hpos.ne').mpr h
    rw [InRange, Int.log_natCast, ← Nat.log2_eq_log_two]
    omega
  have h := represents_normalize (m := n) (e := 0) (Int.natCast_nonneg n)
    (by simpa using hrange)
  simpa [UnpackedFloat.ofNat, UnpackedFloat.ofInt] using h

section Packed

/-- A float that is zero, or positive with all its 53 digits, has the value `value`. -/
def Holds (number : Float) (value : ℚ) : Prop := Represents number.toModel.unpack value

theorem holds_pack {number : UnpackedFloat} {value : ℚ} (h : Represents number value) :
    Holds (.ofModel (Float.Model.pack number)) value := by
  rw [Holds, h.unpack_pack]
  exact h

variable {left right : Float} {x y : ℚ}

namespace Holds

theorem lt_iff (h : Holds left x) (h' : Holds right y) : left < right ↔ x < y :=
  decide_eq_true_iff.trans (Represents.lt_iff h h')

theorem div (h : Holds left x) (h' : Holds right y) (hy : 0 < y)
    (hrange : 0 < x → InRange (x / y)) : Holds (left / right) (nearest (x / y)) :=
  holds_pack (Represents.div h h' hy hrange)

theorem sub (h : Holds left x) (h' : Holds right y) (hle : y ≤ x)
    (hrange : y < x → InRange (x - y)) : Holds (left - right) (nearest (x - y)) :=
  holds_pack (Represents.sub h h' hle hrange)

end Holds

theorem holds_ofCount {count : Nat} (h : count < 2 ^ 64) :
    Holds (ofCount count) (nearest count) := by
  have hcount : count.toUInt64.toNat = count := Nat.mod_eq_of_lt h
  change Holds (.ofModel (.pack (UnpackedFloat.ofNat .binary64 count.toUInt64.toNat))) _
  rw [hcount]
  exact holds_pack (represents_ofNat h)

end Packed

end Turnstile.Binary64

import Mathlib.Tactic.FieldSimp
import Meridian.Query.Search

/-!
# The ratio and the threshold

What the doubles of the search queries come to. The ratio is that of two 16-bit numbers, or 1/2, or
`nan` for 0 to 0 (`betaRatio_eq`), and its double is within `2 ^ -54` of it. The threshold is its
product with a 32-bit average, rounded to the nearest integer.

Both roundings are too small to matter for how the threshold compares with the average itself
(`latencyThreshold_lt_iff`): the exact product is half an integer short of the average, or further
from that by a multiple of `1 / (2 * d)`. In the first case the double product is exact, though the
ratio need not be (`round_product_tie`).
-/

namespace Meridian

open Lib

/-- The ratio that is used: 1/2 in place of one that is not strictly between 0 and 1. -/
def ratioUsed (betaNumer betaDenom : UInt16) : ℕ × ℕ :=
  if 0 < betaNumer ∧ betaNumer < betaDenom then (betaNumer.toNat, betaDenom.toNat) else (1, 2)

theorem ratioUsed_spec (betaNumer betaDenom : UInt16) :
    0 < (ratioUsed betaNumer betaDenom).1 ∧
      (ratioUsed betaNumer betaDenom).1 < (ratioUsed betaNumer betaDenom).2 ∧
      (ratioUsed betaNumer betaDenom).2 < 65536 := by
  rw [ratioUsed]
  split
  · rename_i h
    exact ⟨UInt16.lt_iff_toNat_lt.1 h.1, UInt16.lt_iff_toNat_lt.1 h.2, betaDenom.toNat_lt⟩
  · decide

/-! ### The double of a ratio -/

section Ratio

variable {n d : ℕ} (hn : 0 < n) (hnd : n < d) (hd : d < 65536)

include hn hnd in
theorem ratio_bounds : (0 : ℚ) < n / d ∧ (n : ℚ) / d < 1 := by
  have hdq : (0 : ℚ) < d := by exact_mod_cast hn.trans hnd
  have hnq : (0 : ℚ) < n := by exact_mod_cast hn
  refine ⟨by positivity, ?_⟩
  rw [div_lt_one hdq]
  exact_mod_cast hnd

include hn hnd hd

/-- The double of a ratio is no more than the largest ratio below 1. -/
theorem round_ratio_le : Binary64.round (n / d) ≤ 65535 / 65536 := by
  obtain ⟨h0, h1⟩ := ratio_bounds hn hnd
  have hdq : (0 : ℚ) < d := by exact_mod_cast hn.trans hnd
  have hnd' : (n : ℚ) + 1 ≤ d := by exact_mod_cast hnd
  have hd' : (d : ℚ) ≤ 65535 := by exact_mod_cast Nat.le_of_lt_succ hd
  have hle : (n : ℚ) / d ≤ (65535 : ℤ) * 2 ^ (-16 : ℤ) := by
    rw [div_le_iff₀ hdq]
    norm_num
    linarith
  have hk := Binary64.exponent_le (k := -16) (by norm_num) h0.le (h1.trans_le (by norm_num))
  exact (Binary64.round_le hk hle).trans (by norm_num)

theorem round_ratio_pos : 0 < Binary64.round (n / d) := by
  obtain ⟨h0, h1⟩ := ratio_bounds hn hnd
  have hdq : (0 : ℚ) < d := by exact_mod_cast hn.trans hnd
  have hnq : (1 : ℚ) ≤ n := by exact_mod_cast hn
  have hd' : (d : ℚ) ≤ 65536 := by exact_mod_cast hd.le
  have hle : (1 : ℤ) * 2 ^ (-16 : ℤ) ≤ (n : ℚ) / d := by
    rw [le_div_iff₀ hdq]
    norm_num
    linarith
  have hk := Binary64.exponent_le (k := -16) (by norm_num) h0.le (h1.trans_le (by norm_num))
  exact lt_of_lt_of_le (by norm_num) (Binary64.le_round hk hle)

omit hd in
/-- The double of a ratio is within half of a last place of it. -/
theorem abs_round_ratio_sub_le : |Binary64.round (n / d) - n / d| ≤ 2 ^ (-54 : ℤ) := by
  obtain ⟨h0, h1⟩ := ratio_bounds hn hnd
  have hk := Binary64.exponent_le_of_pos (k := -53) (by norm_num) h0 (h1.trans_le (by norm_num))
  have hmono : (2 : ℚ) ^ Binary64.exponent (n / d) ≤ 2 ^ (-53 : ℤ) :=
    zpow_le_zpow_right₀ one_le_two hk
  have hhalf : (2 : ℚ) ^ (-53 : ℤ) = 2 * 2 ^ (-54 : ℤ) := by norm_num
  have hnear := Binary64.abs_round_sub_le (n / d : ℚ)
  linarith

end Ratio

theorem checkBeta_of_one_le {b : Binary64} (h : Binary64.le (.fin 1) b = true) :
    RingSet.checkBeta b = .fin (1 / 2) := by
  rw [RingSet.checkBeta, h, Bool.or_true, if_pos rfl]

/-- **The ratio that is used**, unless it is 0 to 0. -/
theorem betaRatio_eq {betaNumer betaDenom : UInt16} (h : ¬ (betaNumer = 0 ∧ betaDenom = 0)) :
    betaRatio betaNumer betaDenom = .fin (Binary64.round
      ((ratioUsed betaNumer betaDenom).1 / (ratioUsed betaNumer betaDenom).2)) := by
  have hn : betaNumer.toNat < 65536 := betaNumer.toNat_lt
  have hd : betaDenom.toNat < 65536 := betaDenom.toNat_lt
  have hhalf : Binary64.round ((1 : ℕ) / (2 : ℕ)) = 1 / 2 := by decide +kernel
  rw [betaRatio, ratioUsed, Binary64.ofNat_eq_fin (by omega), Binary64.ofNat_eq_fin (by omega),
    Binary64.div]
  simp only [UInt16.lt_iff_toNat_lt, UInt16.toNat_zero, ← UInt16.toNat_inj] at h ⊢
  generalize betaNumer.toNat = n at *
  generalize betaDenom.toNat = d at *
  rcases Nat.eq_zero_or_pos d with rfl | hdpos
  · -- infinity is not below 1
    have hnq : ¬ (n : ℚ) = 0 := by exact_mod_cast fun hn ↦ h ⟨hn, rfl⟩
    have hneg : decide ((n : ℚ) < 0) = false := decide_eq_false (not_lt.2 (Nat.cast_nonneg n))
    rw [Nat.cast_zero, if_pos rfl, if_neg hnq, hneg, if_neg (by omega), hhalf]
    exact checkBeta_of_one_le rfl
  · have hdq : (0 : ℚ) < d := by exact_mod_cast hdpos
    have hn' : (n : ℚ) ≤ 65536 := by exact_mod_cast hn.le
    have hd1 : (1 : ℚ) ≤ d := by exact_mod_cast hdpos
    have hle : (n : ℚ) / d ≤ 2 ^ 40 := by
      rw [div_le_iff₀ hdq]
      norm_num
      linarith
    rw [if_neg hdq.ne', Binary64.ofRat_eq_fin_round (by positivity) hle]
    rcases Nat.eq_zero_or_pos n with rfl | hnpos
    · rw [Nat.cast_zero, zero_div, if_neg (by omega), hhalf]
      decide +kernel
    · rcases Nat.lt_or_ge n d with hlt | hge
      · have hpos := round_ratio_pos hnpos hlt hd
        have hlt1 := round_ratio_le hnpos hlt hd
        rw [if_pos ⟨hnpos, hlt⟩, RingSet.checkBeta]
        refine if_neg ?_
        simp only [Binary64.le, Bool.or_eq_true, decide_eq_true_eq, not_or, not_le]
        exact ⟨hpos, hlt1.trans_lt (by norm_num)⟩
      · -- a ratio of at least 1 stays at least 1
        have hone : (1 : ℤ) * 2 ^ (0 : ℤ) ≤ (n : ℚ) / d := by
          rw [le_div_iff₀ hdq]
          simpa using (by exact_mod_cast hge : (d : ℚ) ≤ n)
        have hk := Binary64.exponent_le (k := 0) (by norm_num) (by positivity)
          (hle.trans_lt (by norm_num))
        have hround := Binary64.le_round hk hone
        rw [if_neg (by omega), hhalf]
        refine checkBeta_of_one_le (decide_eq_true ?_)
        simpa using hround

theorem betaRatio_eq_nan : betaRatio 0 0 = .nan := by
  decide +kernel

/-! ### The threshold -/

section Product

variable {n d a : ℕ} (hn : 0 < n) (hnd : n < d)

include hn hnd

/-- By how much the exact product is off the average less a half. -/
theorem product_sub_eq :
    (n : ℚ) / d * a - (a - 1 / 2) = ((d : ℤ) - 2 * a * (d - n) : ℤ) / (2 * d) := by
  have hdq : (d : ℚ) ≠ 0 := by exact_mod_cast (hn.trans hnd).ne'
  push_cast
  field_simp
  ring

/-- By how much the product of the double is off, which is less than `2 ^ -22`. -/
theorem abs_product_sub_le :
    |Binary64.round (n / d) * a - n / d * a| ≤ a * 2 ^ (-54 : ℤ) := by
  have haq : (0 : ℚ) ≤ a := Nat.cast_nonneg a
  rw [← sub_mul, abs_mul, abs_of_nonneg haq, mul_comm]
  exact mul_le_mul_of_nonneg_left (abs_round_ratio_sub_le hn hnd) haq

variable (hd : d < 65536)

include hd

theorem product_le : 0 ≤ Binary64.round (n / d) * a ∧ Binary64.round (n / d) * a ≤ a := by
  have haq : (0 : ℚ) ≤ a := Nat.cast_nonneg a
  have hpos := round_ratio_pos hn hnd hd
  exact ⟨by positivity,
    mul_le_of_le_one_left haq ((round_ratio_le hn hnd hd).trans (by norm_num))⟩

/-- The nearest integer to the double product is one from 0 to the average. -/
theorem floor_round_product_bounds (ha' : a < 2 ^ 32) :
    0 ≤ ⌊Binary64.round (Binary64.round (n / d) * a) + 1 / 2⌋ ∧
      ⌊Binary64.round (Binary64.round (n / d) * a) + 1 / 2⌋ ≤ (a : ℤ) := by
  obtain ⟨hnn, hle⟩ := product_le (a := a) hn hnd hd
  have haq : (a : ℚ) < 2 ^ 32 := by exact_mod_cast ha'
  have hk := Binary64.exponent_le (k := 0) (by norm_num) hnn
    (hle.trans_lt (haq.trans_le (by norm_num)))
  have hround : Binary64.round (Binary64.round (n / d) * a) ≤ (a : ℤ) * 2 ^ (0 : ℤ) :=
    Binary64.round_le hk (by simpa using hle)
  have hround0 := Binary64.round_nonneg hnn
  refine ⟨Int.floor_nonneg.2 (by linarith), ?_⟩
  rw [← Int.lt_add_one_iff, Int.floor_lt]
  push_cast
  rw [zpow_zero, mul_one, Int.cast_natCast] at hround
  linarith

variable (ha : 0 < a)

include ha

theorem product_bounds :
    0 < Binary64.round (n / d) * a ∧ Binary64.round (n / d) * a < a := by
  have haq : (0 : ℚ) < a := by exact_mod_cast ha
  have hpos := round_ratio_pos hn hnd hd
  have hlt := (round_ratio_le hn hnd hd).trans_lt (by norm_num : (65535 / 65536 : ℚ) < 1)
  exact ⟨by positivity, mul_lt_of_lt_one_left haq hlt⟩

variable (ha' : a < 2 ^ 32)

include ha'

/-- The exact product is half an integer short of the average: the double product is exact. -/
theorem round_product_tie (htie : d = 2 * a * (d - n)) :
    Binary64.round (Binary64.round (n / d) * a) = (2 * a - 1 : ℤ) * 2 ^ (-1 : ℤ) := by
  obtain ⟨hpos, hlt⟩ := product_bounds hn hnd hd ha
  obtain ⟨hratio0, hratio1⟩ := ratio_bounds hn hnd
  have haq : (0 : ℚ) < a := by exact_mod_cast ha
  have haq' : (a : ℚ) < 2 ^ 32 := by exact_mod_cast ha'
  have hexact : (n : ℚ) / d * a = a - 1 / 2 := by
    have hzero : ((d : ℤ) - 2 * a * (d - n) : ℤ) = 0 := by
      zify [hnd.le] at htie
      omega
    have hsub := product_sub_eq (a := a) hn hnd
    rw [hzero, Int.cast_zero, zero_div] at hsub
    linarith
  have htarget : ((2 * a - 1 : ℤ) : ℚ) * 2 ^ (-1 : ℤ) = a - 1 / 2 := by
    push_cast
    norm_num
    ring
  have hk : Binary64.exponent (Binary64.round (n / d) * a) ≤ -1 :=
    Binary64.exponent_le (by norm_num) hpos.le (hlt.trans (haq'.trans_le (by norm_num)))
  -- the power of two at or below the average
  obtain ⟨j, hj, hj'⟩ : ∃ j : ℕ, 2 ^ j ≤ a ∧ a < 2 ^ (j + 1) :=
    ⟨Nat.log 2 a, Nat.pow_log_le_self 2 ha.ne', Nat.lt_pow_succ_log_self one_lt_two a⟩
  have hj32 : j < 32 := (Nat.pow_lt_pow_iff_right one_lt_two).1 (hj.trans_lt ha')
  rcases hj.eq_or_lt with heq | hgt
  · -- the ratio itself is a number of the format
    have hgrid : (n : ℚ) / d = (2 ^ (j + 1) - 1 : ℤ) * 2 ^ (-(j + 1 : ℤ)) := by
      have haj : (a : ℚ) = 2 ^ j := by exact_mod_cast heq.symm
      have hdiv : (n : ℚ) / d = 1 - 1 / (2 * a) := by
        rw [eq_sub_iff_add_eq, ← mul_left_inj' haq.ne', add_mul, hexact]
        field_simp
        ring
      rw [hdiv, haj, zpow_neg, ← Nat.cast_succ, zpow_natCast]
      push_cast
      field_simp
      ring
    have hself : Binary64.round (n / d : ℚ) = n / d := by
      refine Binary64.round_eq_self ?_ hgrid
      refine (Binary64.exponent_le_of_pos (k := -53) (by norm_num) hratio0 ?_).trans (by omega)
      exact hratio1.trans_le (by norm_num)
    rw [hself, hexact] at hk ⊢
    rw [Binary64.round_eq_self hk htarget.symm, htarget]
  · -- the error of the product is below half of its last place
    have herr := abs_product_sub_le (a := a) hn hnd
    rw [hexact] at herr
    have hge : (2 : ℚ) ^ (j : ℤ) ≤ Binary64.round (n / d) * a := by
      have hstep : (2 : ℚ) ^ j + 1 ≤ a := by exact_mod_cast hgt
      have hsmall : (a : ℚ) * 2 ^ (-54 : ℤ) ≤ 1 / 2 := by
        have hscale : (2 : ℚ) ^ 32 * 2 ^ (-54 : ℤ) ≤ 1 / 2 := by norm_num
        exact (mul_le_mul_of_nonneg_right haq'.le (by positivity)).trans hscale
      rw [zpow_natCast]
      linarith [(abs_le.1 herr).1]
    have hhalf : (a : ℚ) * 2 ^ (-54 : ℤ) < 2 ^ ((j : ℤ) - 52) / 2 := by
      have haj : (a : ℚ) < 2 ^ (j + 1) := by exact_mod_cast hj'
      have hscale : (2 : ℚ) ^ ((j : ℤ) - 52) / 2 = 2 ^ (j + 1) * 2 ^ (-54 : ℤ) := by
        rw [sub_eq_add_neg, zpow_add₀ two_ne_zero, zpow_natCast, pow_succ]
        norm_num
        ring
      rw [hscale]
      exact mul_lt_mul_of_pos_right haj (by positivity)
    have hlast : (2 : ℚ) ^ ((j : ℤ) - 52) ≤
        2 ^ Binary64.exponent (Binary64.round (n / d) * a) :=
      zpow_le_zpow_right₀ one_le_two (Binary64.le_exponent hge)
    refine Binary64.round_eq_of_near hk ?_
    rw [htarget]
    linarith

/-- **How the double product compares** with the average less a half: as the exact product does. -/
theorem round_product_lt_iff :
    Binary64.round (Binary64.round (n / d) * a) < a - 1 / 2 ↔ d < 2 * a * (d - n) := by
  obtain ⟨hpos, hlt⟩ := product_bounds hn hnd hd ha
  have hdq : (0 : ℚ) < 2 * d := by exact_mod_cast Nat.mul_pos two_pos (hn.trans hnd)
  have hdq' : (2 * d : ℚ) ≤ 2 ^ 17 := by exact_mod_cast Nat.mul_le_mul_left 2 hd.le
  have haq' : (a : ℚ) < 2 ^ 32 := by exact_mod_cast ha'
  have hhuge := hlt.trans haq'
  have hsmall : (a : ℚ) * 2 ^ (-54 : ℤ) ≤ 2 ^ (-22 : ℤ) := by
    have hscale : (2 : ℚ) ^ 32 * 2 ^ (-54 : ℤ) ≤ 2 ^ (-22 : ℤ) := by norm_num
    exact (mul_le_mul_of_nonneg_right haq'.le (by positivity)).trans hscale
  have herr := abs_le.1 (abs_product_sub_le (a := a) hn hnd)
  have hsub := product_sub_eq (a := a) hn hnd
  have hstep : (2 : ℚ) ^ (-17 : ℤ) ≤ 1 / (2 * d) := by
    rw [le_div_iff₀ hdq]
    calc (2 : ℚ) ^ (-17 : ℤ) * (2 * d) ≤ 2 ^ (-17 : ℤ) * 2 ^ 17 :=
          mul_le_mul_of_nonneg_left hdq' (by positivity)
      _ = 1 := by norm_num
  have hnat : d < 2 * a * (d - n) ↔ (d : ℤ) - 2 * a * (d - n) < 0 := by
    zify [hnd.le]
    omega
  have hnat' : d = 2 * a * (d - n) ↔ (d : ℤ) - 2 * a * (d - n) = 0 := by
    zify [hnd.le]
    omega
  rw [hnat]
  generalize (d : ℤ) - 2 * a * (d - n) = gap at *
  rcases lt_trichotomy gap 0 with hneg | hzero | hgap
  · -- well below: rounding does not reach the half
    have hle : (gap : ℚ) / (2 * d) ≤ -2 ^ (-17 : ℤ) := by
      have hgap : (gap : ℚ) ≤ -1 := by exact_mod_cast (by omega : gap ≤ -1)
      calc (gap : ℚ) / (2 * d) ≤ -1 / (2 * d) := div_le_div_of_nonneg_right hgap hdq.le
        _ ≤ -2 ^ (-17 : ℤ) := by rw [neg_div]; exact neg_le_neg hstep
    have hbound : Binary64.round (n / d) * a ≤
        (2 ^ 18 * a - 2 ^ 17 - 1 : ℤ) * 2 ^ (-18 : ℤ) := by
      have hgrid : ((2 ^ 18 * a - 2 ^ 17 - 1 : ℤ) : ℚ) * 2 ^ (-18 : ℤ) =
          a - 1 / 2 - 2 ^ (-18 : ℤ) := by
        push_cast
        norm_num
        ring
      rw [hgrid]
      have hsum : (2 : ℚ) ^ (-22 : ℤ) + 2 ^ (-18 : ℤ) ≤ 2 ^ (-17 : ℤ) := by norm_num
      linarith [herr.2]
    have hk := Binary64.exponent_le (k := -18) (by norm_num) hpos.le
      (hhuge.trans_le (by norm_num))
    refine iff_of_true ((Binary64.round_le hk hbound).trans_lt ?_) hneg
    push_cast
    norm_num
    linarith
  · refine iff_of_false ?_ (by omega)
    rw [round_product_tie hn hnd hd ha ha' (hnat'.2 hzero), not_lt]
    push_cast
    norm_num
    linarith
  · -- above: rounding does not go below the half
    have hge : (2 : ℚ) ^ (-17 : ℤ) ≤ gap / (2 * d) := by
      have hgap' : (1 : ℚ) ≤ gap := by exact_mod_cast hgap
      exact hstep.trans (div_le_div_of_nonneg_right hgap' hdq.le)
    have hbound : ((2 * a - 1 : ℤ) : ℚ) * 2 ^ (-1 : ℤ) ≤ Binary64.round (n / d) * a := by
      have hsum : (2 : ℚ) ^ (-22 : ℤ) ≤ 2 ^ (-17 : ℤ) := by norm_num
      have hgrid : ((2 * a - 1 : ℤ) : ℚ) * 2 ^ (-1 : ℤ) = a - 1 / 2 := by
        push_cast
        norm_num
        ring
      rw [hgrid]
      linarith [herr.1]
    have hk := Binary64.exponent_le (k := -1) (by norm_num) hpos.le
      (hhuge.trans_le (by norm_num))
    refine iff_of_false (not_lt.2 (le_trans ?_ (Binary64.le_round hk hbound))) (by omega)
    push_cast
    norm_num
    linarith

end Product

/-- The threshold, for any ratio but 0 to 0. -/
theorem latencyThreshold_toNat {betaNumer betaDenom : UInt16}
    (h : ¬ (betaNumer = 0 ∧ betaDenom = 0)) (averageLatUS : UInt32) :
    ((latencyThreshold betaNumer betaDenom averageLatUS).toNat : ℤ) =
      ⌊Binary64.round (Binary64.round
        ((ratioUsed betaNumer betaDenom).1 / (ratioUsed betaNumer betaDenom).2) *
          averageLatUS.toNat) + 1 / 2⌋ := by
  obtain ⟨hn, hnd, hd⟩ := ratioUsed_spec betaNumer betaDenom
  have havg : averageLatUS.toNat < 2 ^ 32 := averageLatUS.toNat_lt
  rw [latencyThreshold, betaRatio_eq h, Binary64.ofNat_eq_fin (by omega)]
  generalize (ratioUsed betaNumer betaDenom).1 = n at *
  generalize (ratioUsed betaNumer betaDenom).2 = d at *
  generalize averageLatUS.toNat = a at *
  have haq : (a : ℚ) ≤ 2 ^ 40 := by exact_mod_cast havg.le.trans (by norm_num)
  obtain ⟨hnn, hle⟩ := product_le (a := a) hn hnd hd
  obtain ⟨hfloor0, hfloor⟩ := floor_round_product_bounds hn hnd hd havg
  rw [Binary64.mul, Binary64.ofRat_eq_fin_round hnn (hle.trans haq), Binary64.llround,
    if_pos (Binary64.round_nonneg hnn), Binary64.toLongLong, if_pos (by omega), clampUint,
    if_neg (by rw [show UINT_MAX.toNat = 4294967295 from rfl]; omega), if_neg (by omega),
    UInt32.toNat_ofNat_of_lt' (by show _ < 4294967296; omega)]
  omega

theorem latencyThreshold_zero_zero (averageLatUS : UInt32) :
    latencyThreshold 0 0 averageLatUS = 0 := by
  rw [latencyThreshold, betaRatio_eq_nan]
  rfl

/-- The threshold is at most the average. -/
theorem latencyThreshold_le (betaNumer betaDenom : UInt16) (averageLatUS : UInt32) :
    latencyThreshold betaNumer betaDenom averageLatUS ≤ averageLatUS := by
  rcases Decidable.em (betaNumer = 0 ∧ betaDenom = 0) with ⟨rfl, rfl⟩ | h
  · rw [latencyThreshold_zero_zero]
    exact UInt32.zero_le
  · obtain ⟨hn, hnd, hd⟩ := ratioUsed_spec betaNumer betaDenom
    have hle := (floor_round_product_bounds hn hnd hd averageLatUS.toNat_lt).2
    rw [← latencyThreshold_toNat h] at hle
    exact UInt32.le_iff_toNat_le.2 (by exact_mod_cast hle)

/-- **When the threshold is below the average**, in whole numbers. -/
theorem latencyThreshold_lt_iff {betaNumer betaDenom : UInt16}
    (h : ¬ (betaNumer = 0 ∧ betaDenom = 0)) {averageLatUS : UInt32} (havg : 0 < averageLatUS) :
    latencyThreshold betaNumer betaDenom averageLatUS < averageLatUS ↔
      (ratioUsed betaNumer betaDenom).2 < 2 * averageLatUS.toNat *
        ((ratioUsed betaNumer betaDenom).2 - (ratioUsed betaNumer betaDenom).1) := by
  obtain ⟨hn, hnd, hd⟩ := ratioUsed_spec betaNumer betaDenom
  have hpos : 0 < averageLatUS.toNat := UInt32.lt_iff_toNat_lt.1 havg
  rw [← round_product_lt_iff hn hnd hd hpos averageLatUS.toNat_lt, UInt32.lt_iff_toNat_lt,
    ← Int.ofNat_lt, latencyThreshold_toNat h, Int.floor_lt, Int.cast_natCast]
  constructor
  · intro hlt
    linarith
  · intro hlt
    linarith

end Meridian

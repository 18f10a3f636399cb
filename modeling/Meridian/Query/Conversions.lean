import Meridian.Query.Threshold
import Meridian.RingSetScan

/-!
# The conversions of the search queries

A search converts four doubles to integers: the timeout, the two bounds of the ring members it asks
and the threshold it forwards by. All four are products of a latency and a factor that is made of
the ratio, from `1 - beta` up to `2 * beta + 1`.

`conversions_iff` says when all of them are in range. The timeout has the largest factor, so it
decides: the others are in range whenever it is. It is out of range for a factor that carries the
largest latency past 2^32 - 1, which the doubles decide as whole numbers do, but for a product that
is 2^32 - 1 itself, where it is a matter of how they round.
-/

namespace Meridian

open Lib

/-! ### The operands -/

/-- The double that `sendReqProbes` makes the timeout of. -/
def timeoutOperand (betaNumer betaDenom : UInt16) (largest : UInt32) : Binary64 :=
  ((((Binary64.fin 2).mul (betaRatio betaNumer betaDenom)).add (.fin 1)).mul
    (.ofNat largest.toNat)).ceil

theorem probeTimeout_eq (betaNumer betaDenom : UInt16) (largest : UInt32) :
    probeTimeout betaNumer betaDenom largest =
      (timeoutOperand betaNumer betaDenom largest).toUInt32 := rfl

/-- The double that `fillVector` makes the upper bound of. -/
def upperOperand (betaRatio : Binary64) (maxAvgUS : UInt32) : Binary64 :=
  (((Binary64.fin 1).add (RingSet.checkBeta betaRatio)).mul (.ofNat maxAvgUS.toNat)).ceil

/-- The double that `fillVector` makes the lower bound of. -/
def lowerOperand (betaRatio : Binary64) (minAvgUS : UInt32) : Binary64 :=
  (((Binary64.fin 1).sub (RingSet.checkBeta betaRatio)).mul (.ofNat minAvgUS.toNat)).floor

theorem fillVector_operands (rs : RingSet) (getRingNumber : UInt32 → Fin MAX_NUM_RINGS)
    (minAvgUS maxAvgUS : UInt32) (betaRatio : Binary64) (members : NodeMap NodeIdentRendv) :
    rs.fillVector getRingNumber minAvgUS maxAvgUS betaRatio members =
      (0, rs.fillBetween getRingNumber
        (RingSet.checkBounds (lowerOperand betaRatio minAvgUS).toUInt32
          (upperOperand betaRatio maxAvgUS).toUInt32).1
        (RingSet.checkBounds (lowerOperand betaRatio minAvgUS).toUInt32
          (upperOperand betaRatio maxAvgUS).toUInt32).2 members) := rfl

/-- The double that `handleForward` makes the threshold of. -/
def thresholdOperand (betaNumer betaDenom : UInt16) (averageLatUS : UInt32) : Binary64 :=
  (betaRatio betaNumer betaDenom).mul (.ofNat averageLatUS.toNat)

theorem latencyThreshold_operand (betaNumer betaDenom : UInt16) (averageLatUS : UInt32) :
    latencyThreshold betaNumer betaDenom averageLatUS =
      clampUint (thresholdOperand betaNumer betaDenom averageLatUS).llround := rfl

/-- A double that is a finite number between two integers. -/
def Between (lo hi : ℤ) (a : Binary64) : Prop := ∃ q, a = .fin q ∧ lo ≤ q ∧ q ≤ hi

/-- The operand of a conversion to `u_int` has a value in that type. -/
abbrev IsUint (a : Binary64) : Prop := Between 0 (2 ^ 32 - 1) a

/-- The operand of a conversion to `long long` has a value in that type. -/
abbrev IsLongLong (a : Binary64) : Prop := Between (-2 ^ 63) (2 ^ 63 - 1) a

/-- **Everything is in range**: the ratio is a number strictly between 0 and 1, and the operand of
each conversion is representable in the type it is converted to. -/
structure Converts (betaNumer betaDenom : UInt16) (m : Measure) : Prop where
  ratio : ∃ b, betaRatio betaNumer betaDenom = .fin b ∧ 0 < b ∧ b < 1
  timeout : IsUint (timeoutOperand betaNumer betaDenom m.largest)
  upper : IsUint (upperOperand (betaRatio betaNumer betaDenom) m.largest)
  lower : IsUint (lowerOperand (betaRatio betaNumer betaDenom) m.smallest)
  threshold : IsLongLong (thresholdOperand betaNumer betaDenom m.average)

/-- The product of the timeout, as the doubles round it. -/
def roundedTimeout (n d largest : ℕ) : ℚ :=
  Binary64.round (Binary64.round (Binary64.round (2 * Binary64.round (n / d)) + 1) * largest)

/-- The timeout is below 2^32 - 1, or it is 2^32 - 1 and is not rounded up. -/
def TimeoutFits (betaNumer betaDenom : UInt16) (largest : UInt32) : Prop :=
  let (n, d) := ratioUsed betaNumer betaDenom
  (2 * n + d) * largest.toNat < (2 ^ 32 - 1) * d ∨
    (2 * n + d) * largest.toNat = (2 ^ 32 - 1) * d ∧
      roundedTimeout n d largest.toNat ≤ 2 ^ 32 - 1

/-! ### Products -/

section Products

variable {s q : ℚ} {a : ℕ}

/-- A product of a factor between 0 and 4 with a 32-bit number. -/
theorem ofRat_product (h0 : 0 ≤ s) (h4 : s ≤ 4) (ha : a < 2 ^ 32) :
    (Binary64.fin s).mul (.ofNat a) = .fin (Binary64.round (s * a)) := by
  have haq : (a : ℚ) ≤ 2 ^ 32 := by exact_mod_cast ha.le
  have hle : s * a ≤ 4 * 2 ^ 32 := mul_le_mul h4 haq (Nat.cast_nonneg a) (by norm_num)
  rw [Binary64.ofNat_eq_fin (by omega), Binary64.mul,
    Binary64.ofRat_eq_fin_round (by positivity) (hle.trans (by norm_num))]

/-- Rounding does not carry such a product past an integer. -/
theorem round_product_le (h0 : 0 ≤ s) (h4 : s ≤ 4) (ha : a < 2 ^ 32) {m : ℤ} (h : s * a ≤ m) :
    0 ≤ Binary64.round (s * a) ∧ Binary64.round (s * a) ≤ m := by
  have haq : (a : ℚ) ≤ 2 ^ 32 := by exact_mod_cast ha.le
  have hnn : 0 ≤ s * a := by positivity
  have hle : s * a ≤ 4 * 2 ^ 32 := mul_le_mul h4 haq (Nat.cast_nonneg a) (by norm_num)
  have hk := Binary64.exponent_le (k := 0) (by norm_num) hnn (hle.trans_lt (by norm_num))
  have hround := Binary64.round_le (m := m) hk (by simpa using h)
  exact ⟨Binary64.round_nonneg hnn, by simpa using hround⟩

theorem isUint_ceil (h : 0 ≤ q) : IsUint (Binary64.ceil (.fin q)) ↔ q ≤ 2 ^ 32 - 1 := by
  have hcast : ((2 ^ 32 - 1 : ℤ) : ℚ) = 2 ^ 32 - 1 := by norm_num
  rw [← hcast, ← Int.ceil_le]
  constructor
  · rintro ⟨r, hr, -, hle⟩
    obtain rfl := Binary64.fin.inj hr
    exact Int.cast_le.1 hle
  · intro hle
    exact ⟨⌈q⌉, rfl, by exact_mod_cast Int.ceil_nonneg h, Int.cast_le.2 hle⟩

theorem isUint_floor (h : 0 ≤ q) (hle : q ≤ 2 ^ 32 - 1) : IsUint (Binary64.floor (.fin q)) := by
  have hcast : ((2 ^ 32 - 1 : ℤ) : ℚ) = 2 ^ 32 - 1 := by norm_num
  refine ⟨⌊q⌋, rfl, by exact_mod_cast Int.floor_nonneg.2 h, ?_⟩
  rw [hcast]
  exact (Int.floor_le q).trans hle

/-- A rounding of a number below 4 is off by at most `2 ^ -52`. -/
theorem abs_round_sub_le_of_lt (h0 : 0 ≤ q) (h : q < 4) :
    |Binary64.round q - q| ≤ 2 ^ (-52 : ℤ) := by
  have hk := Binary64.exponent_le (k := -51) (by norm_num) h0 (h.trans_le (by norm_num))
  have hmono : (2 : ℚ) ^ Binary64.exponent q ≤ 2 ^ (-51 : ℤ) := zpow_le_zpow_right₀ one_le_two hk
  have hhalf : (2 : ℚ) ^ (-51 : ℤ) = 2 * 2 ^ (-52 : ℤ) := by norm_num
  have hnear := Binary64.abs_round_sub_le q
  linarith

end Products

/-! ### The timeout -/

section Timeout

variable {n d a : ℕ} (hn : 0 < n) (hnd : n < d) (hd : d < 65536)

include hn hnd hd

/-- The factor of the timeout as the doubles have it, and by how much it is off. -/
theorem timeoutFactor_bounds :
    0 ≤ Binary64.round (Binary64.round (2 * Binary64.round (n / d)) + 1) ∧
      Binary64.round (Binary64.round (2 * Binary64.round (n / d)) + 1) ≤ 4 ∧
      |Binary64.round (Binary64.round (2 * Binary64.round (n / d)) + 1) - (2 * (n / d) + 1)| ≤
        2 ^ (-50 : ℤ) := by
  have hpos := round_ratio_pos hn hnd hd
  have hlt := (round_ratio_le hn hnd hd).trans_lt (by norm_num : (65535 / 65536 : ℚ) < 1)
  have hratio := abs_le.1 (abs_round_ratio_sub_le hn hnd)
  generalize Binary64.round (n / d : ℚ) = b at *
  generalize (n / d : ℚ) = x at *
  have htwice := abs_le.1 (abs_round_sub_le_of_lt (q := 2 * b) (by positivity) (by linarith))
  have htwice0 : 0 ≤ Binary64.round (2 * b) := Binary64.round_nonneg (by positivity)
  generalize Binary64.round (2 * b) = t at *
  have hsmall : 2 * (2 : ℚ) ^ (-52 : ℤ) ≤ 1 := by norm_num
  have hsum : 2 * (2 : ℚ) ^ (-54 : ℤ) + 2 ^ (-52 : ℤ) + 2 ^ (-52 : ℤ) ≤ 2 ^ (-50 : ℤ) := by norm_num
  have hplus := abs_le.1 (abs_round_sub_le_of_lt (q := t + 1) (by positivity) (by linarith))
  refine ⟨Binary64.round_nonneg (by positivity), by linarith, ?_⟩
  rw [abs_le]
  constructor
  · linarith
  · linarith

/-- **When the timeout fits**: the doubles decide as whole numbers do, up to a tie. -/
theorem roundedTimeout_le_iff (ha : a < 2 ^ 32) :
    roundedTimeout n d a ≤ 2 ^ 32 - 1 ↔
      (2 * n + d) * a < (2 ^ 32 - 1) * d ∨
        (2 * n + d) * a = (2 ^ 32 - 1) * d ∧ roundedTimeout n d a ≤ 2 ^ 32 - 1 := by
  obtain ⟨h0, h4, herr⟩ := timeoutFactor_bounds hn hnd hd
  have hdq : (0 : ℚ) < d := by exact_mod_cast hn.trans hnd
  have hdq' : (d : ℚ) ≤ 2 ^ 16 := by exact_mod_cast hd.le
  have haq : (a : ℚ) ≤ 2 ^ 32 := by exact_mod_cast ha.le
  have hstep : (2 : ℚ) ^ (-16 : ℤ) ≤ 1 / d := by
    rw [le_div_iff₀ hdq]
    calc (2 : ℚ) ^ (-16 : ℤ) * d ≤ 2 ^ (-16 : ℤ) * 2 ^ 16 :=
          mul_le_mul_of_nonneg_left hdq' (by positivity)
      _ = 1 := by norm_num
  rw [roundedTimeout]
  generalize Binary64.round (Binary64.round (2 * Binary64.round (n / d : ℚ)) + 1) = s at *
  -- the double product is within `2 ^ -18` of the exact one
  have herr' : |s * a - (2 * (n / d) + 1) * a| ≤ 2 ^ (-18 : ℤ) := by
    have ha0 : (0 : ℚ) ≤ a := Nat.cast_nonneg a
    rw [← sub_mul, abs_mul, abs_of_nonneg ha0]
    calc |s - (2 * (n / d) + 1)| * a ≤ 2 ^ (-50 : ℤ) * 2 ^ 32 :=
          mul_le_mul herr haq ha0 (by positivity)
      _ = 2 ^ (-18 : ℤ) := by norm_num
  have hexact : (2 * (n / d) + 1) * (a : ℚ) - (2 ^ 32 - 1) =
      (((2 * n + d) * a : ℤ) - (2 ^ 32 - 1) * d : ℤ) / d := by
    push_cast
    field_simp
    ring
  have hnat : (2 * n + d) * a < (2 ^ 32 - 1) * d ↔
      ((2 * n + d) * a : ℤ) - (2 ^ 32 - 1) * d < 0 := by
    rw [← Int.ofNat_lt]
    push_cast
    omega
  have hnat' : (2 * n + d) * a = (2 ^ 32 - 1) * d ↔
      ((2 * n + d) * a : ℤ) - (2 ^ 32 - 1) * d = 0 := by
    rw [← Int.ofNat_inj]
    push_cast
    omega
  have hcast : ((2 ^ 32 - 1 : ℤ) : ℚ) = 2 ^ 32 - 1 := by norm_num
  rw [hnat, hnat']
  generalize (2 * (n / d) + 1) * (a : ℚ) = exact at *
  generalize ((2 * n + d) * a : ℤ) - (2 ^ 32 - 1) * d = gap at *
  have herr₁ := abs_le.1 herr'
  have hsmall : (2 : ℚ) ^ (-18 : ℤ) ≤ 2 ^ (-16 : ℤ) := by norm_num
  rcases lt_trichotomy gap 0 with hneg | hzero | hpos
  · refine iff_of_true ?_ (Or.inl hneg)
    have hgap : exact - (2 ^ 32 - 1) ≤ -2 ^ (-16 : ℤ) := by
      rw [hexact]
      have hone : (gap : ℚ) ≤ -1 := by exact_mod_cast (by omega : gap ≤ -1)
      calc (gap : ℚ) / d ≤ -1 / d := div_le_div_of_nonneg_right hone hdq.le
        _ ≤ -2 ^ (-16 : ℤ) := by rw [neg_div]; exact neg_le_neg hstep
    have hle : s * a ≤ ((2 ^ 32 - 1 : ℤ) : ℚ) := by
      rw [hcast]
      linarith [herr₁.2]
    rw [← hcast]
    exact (round_product_le h0 h4 ha hle).2
  · simp [hzero]
  · refine iff_of_false (not_le.2 ?_) (by omega)
    have hgap : (2 : ℚ) ^ (-16 : ℤ) ≤ exact - (2 ^ 32 - 1) := by
      rw [hexact]
      have hone : (1 : ℚ) ≤ gap := by exact_mod_cast hpos
      exact hstep.trans (div_le_div_of_nonneg_right hone hdq.le)
    have hge : (((2 ^ 32 - 1) * 2 ^ 17 + 1 : ℤ) : ℚ) * 2 ^ (-17 : ℤ) ≤ s * a := by
      have hgrid : (((2 ^ 32 - 1) * 2 ^ 17 + 1 : ℤ) : ℚ) * 2 ^ (-17 : ℤ) =
          2 ^ 32 - 1 + 2 ^ (-17 : ℤ) := by norm_num
      have hsum : (2 : ℚ) ^ (-17 : ℤ) + 2 ^ (-18 : ℤ) ≤ 2 ^ (-16 : ℤ) := by norm_num
      rw [hgrid]
      linarith [herr₁.1]
    have hprod : s * a ≤ 4 * 2 ^ 32 := mul_le_mul h4 haq (Nat.cast_nonneg a) (by norm_num)
    have hk := Binary64.exponent_le (k := -17) (by norm_num) (by positivity)
      (hprod.trans_lt (by norm_num))
    exact lt_of_lt_of_le (by norm_num) (Binary64.le_round hk hge)

end Timeout

section Ratio

variable {betaNumer betaDenom : UInt16} (h : ¬ (betaNumer = 0 ∧ betaDenom = 0))

include h

theorem timeoutOperand_eq (largest : UInt32) :
    timeoutOperand betaNumer betaDenom largest =
      Binary64.ceil (.fin (roundedTimeout (ratioUsed betaNumer betaDenom).1
        (ratioUsed betaNumer betaDenom).2 largest.toNat)) := by
  obtain ⟨hn, hnd, hd⟩ := ratioUsed_spec betaNumer betaDenom
  obtain ⟨h0, h4, -⟩ := timeoutFactor_bounds hn hnd hd
  have hpos := round_ratio_pos hn hnd hd
  have hlt := (round_ratio_le hn hnd hd).trans_lt (by norm_num : (65535 / 65536 : ℚ) < 1)
  rw [timeoutOperand, betaRatio_eq h, roundedTimeout]
  generalize Binary64.round
    ((ratioUsed betaNumer betaDenom).1 / (ratioUsed betaNumer betaDenom).2 : ℚ) = b at *
  have htwice : |Binary64.round (2 * b) - 2 * b| ≤ 2 ^ (-52 : ℤ) :=
    abs_round_sub_le_of_lt (by positivity) (by linarith)
  have htwice0 : 0 ≤ Binary64.round (2 * b) := Binary64.round_nonneg (by positivity)
  have hsmall : (2 : ℚ) ^ (-52 : ℤ) ≤ 1 := by norm_num
  rw [Binary64.mul, Binary64.ofRat_eq_fin_round (by positivity) (by linarith), Binary64.add,
    Binary64.ofRat_eq_fin_round (by positivity) (by linarith [(abs_le.1 htwice).2]),
    ofRat_product h0 h4 largest.toNat_lt]

/-- The timeout is in range exactly when it fits. -/
theorem isUint_timeout_iff (largest : UInt32) :
    IsUint (timeoutOperand betaNumer betaDenom largest) ↔
      TimeoutFits betaNumer betaDenom largest := by
  obtain ⟨hn, hnd, hd⟩ := ratioUsed_spec betaNumer betaDenom
  obtain ⟨h0, -, -⟩ := timeoutFactor_bounds hn hnd hd
  rw [timeoutOperand_eq h, isUint_ceil, roundedTimeout_le_iff hn hnd hd largest.toNat_lt]
  · rfl
  · exact Binary64.round_nonneg (by positivity)

/-! ### The other operands -/

/-- The ratio that is used is strictly between 0 and 1, and passes the check of `fillVector`. -/
theorem betaRatio_range : ∃ b, betaRatio betaNumer betaDenom = .fin b ∧ 0 < b ∧ b < 1 ∧
    RingSet.checkBeta (.fin b) = .fin b ∧
    |b - (ratioUsed betaNumer betaDenom).1 / (ratioUsed betaNumer betaDenom).2| ≤
      2 ^ (-54 : ℤ) := by
  obtain ⟨hn, hnd, hd⟩ := ratioUsed_spec betaNumer betaDenom
  have hpos := round_ratio_pos hn hnd hd
  have hlt := (round_ratio_le hn hnd hd).trans_lt (by norm_num : (65535 / 65536 : ℚ) < 1)
  refine ⟨_, betaRatio_eq h, hpos, hlt, ?_, abs_round_ratio_sub_le hn hnd⟩
  rw [RingSet.checkBeta]
  refine if_neg ?_
  simp only [Binary64.le, Bool.or_eq_true, decide_eq_true_eq, not_or, not_le]
  exact ⟨hpos, hlt⟩

/-- The upper bound is in range if the timeout is: its factor is smaller by the ratio. -/
theorem isUint_upper {largest : UInt32} (hfits : TimeoutFits betaNumer betaDenom largest) :
    IsUint (upperOperand (betaRatio betaNumer betaDenom) largest) := by
  obtain ⟨b, hb, hpos, hlt, hcheck, herr⟩ := betaRatio_range h
  obtain ⟨hn, hnd, hd⟩ := ratioUsed_spec betaNumer betaDenom
  have hle : (2 * (ratioUsed betaNumer betaDenom).1 + (ratioUsed betaNumer betaDenom).2) *
      largest.toNat ≤ (2 ^ 32 - 1) * (ratioUsed betaNumer betaDenom).2 :=
    hfits.elim Nat.le_of_lt fun htie ↦ htie.1.le
  have ha : largest.toNat < 2 ^ 32 := largest.toNat_lt
  have hsum := abs_le.1 (abs_round_sub_le_of_lt (q := 1 + b) (by positivity) (by linarith))
  have hsmall : (2 : ℚ) ^ (-52 : ℤ) ≤ 1 := by norm_num
  have hsum0 : 0 ≤ Binary64.round (1 + b) := Binary64.round_nonneg (by positivity)
  have hsum4 : Binary64.round (1 + b) ≤ 4 := by linarith
  rw [hb, upperOperand, hcheck, Binary64.add,
    Binary64.ofRat_eq_fin_round (by positivity) (by linarith),
    ofRat_product hsum0 hsum4 ha]
  generalize (ratioUsed betaNumer betaDenom).1 = n at *
  generalize (ratioUsed betaNumer betaDenom).2 = d at *
  generalize largest.toNat = a at *
  have hcast : ((2 ^ 32 - 1 : ℤ) : ℚ) = 2 ^ 32 - 1 := by norm_num
  have hprod : Binary64.round (1 + b) * a ≤ ((2 ^ 32 - 1 : ℤ) : ℚ) := by
    rw [hcast]
    rcases Nat.eq_zero_or_pos a with rfl | hapos
    · norm_num
    · have hdq : (0 : ℚ) < d := by exact_mod_cast hn.trans hnd
      have hdq' : (d : ℚ) ≤ 2 ^ 16 := by exact_mod_cast hd.le
      have hnq : (1 : ℚ) ≤ n := by exact_mod_cast hn
      have haq : (1 : ℚ) ≤ a := by exact_mod_cast hapos
      have haq' : (a : ℚ) ≤ 2 ^ 32 := by exact_mod_cast ha.le
      -- the exact product is short of the limit by the ratio times the latency
      have hexact : (2 * (n / d) + 1) * (a : ℚ) ≤ 2 ^ 32 - 1 := by
        have hleq : ((2 * n + d : ℕ) * a : ℚ) ≤ (2 ^ 32 - 1 : ℕ) * d := by exact_mod_cast hle
        have hfrac : (2 * (n / d) + 1) * (a : ℚ) = (2 * n + d : ℕ) * a / d := by
          push_cast
          field_simp
        rw [hfrac, div_le_iff₀ hdq]
        norm_num at hleq ⊢
        exact hleq
      have hratio : (2 : ℚ) ^ (-16 : ℤ) ≤ n / d := by
        rw [le_div_iff₀ hdq]
        calc (2 : ℚ) ^ (-16 : ℤ) * d ≤ 2 ^ (-16 : ℤ) * 2 ^ 16 :=
              mul_le_mul_of_nonneg_left hdq' (by positivity)
          _ = 1 := by norm_num
          _ ≤ n := hnq
      have hbeta := (abs_le.1 herr).2
      generalize (n / d : ℚ) = x at *
      have herrors : (2 : ℚ) ^ (-52 : ℤ) + 2 ^ (-54 : ℤ) ≤ 2 ^ (-51 : ℤ) := by norm_num
      have hfactor : Binary64.round (1 + b) ≤ 1 + x + 2 ^ (-51 : ℤ) := by linarith
      have hoff : (2 : ℚ) ^ (-51 : ℤ) * a ≤ 2 ^ (-16 : ℤ) := by
        have hscale : (2 : ℚ) ^ (-51 : ℤ) * 2 ^ 32 ≤ 2 ^ (-16 : ℤ) := by norm_num
        exact (mul_le_mul_of_nonneg_left haq' (by positivity)).trans hscale
      have hgain : x ≤ x * a :=
        le_mul_of_one_le_right ((by positivity : (0 : ℚ) ≤ _).trans hratio) haq
      calc Binary64.round (1 + b) * a ≤ (1 + x + 2 ^ (-51 : ℤ)) * a :=
            mul_le_mul_of_nonneg_right hfactor (by positivity)
        _ = (2 * x + 1) * a - x * a + 2 ^ (-51 : ℤ) * a := by ring
        _ ≤ 2 ^ 32 - 1 := by linarith
  have hround := round_product_le hsum0 hsum4 ha hprod
  rw [hcast] at hround
  exact (isUint_ceil hround.1).2 hround.2

/-- The lower bound is in range in any case. -/
theorem isUint_lower (smallest : UInt32) :
    IsUint (lowerOperand (betaRatio betaNumer betaDenom) smallest) := by
  obtain ⟨b, hb, hpos, hlt, hcheck, -⟩ := betaRatio_range h
  have ha : smallest.toNat < 2 ^ 32 := smallest.toNat_lt
  have hnn : 0 ≤ 1 + -b := by linarith
  have hk := Binary64.exponent_le (k := 0) (by norm_num) hnn
    (by linarith [(by norm_num : (1 : ℚ) < 2 ^ ((0 : ℤ) + 53))])
  have hdiff : Binary64.round (1 + -b) ≤ (1 : ℤ) * 2 ^ (0 : ℤ) :=
    Binary64.round_le hk (by simpa using hpos.le)
  have hdiff1 : Binary64.round (1 + -b) ≤ 1 := by simpa using hdiff
  have hdiff0 := Binary64.round_nonneg hnn
  rw [hb, lowerOperand, hcheck, Binary64.sub, Binary64.neg, Binary64.add,
    Binary64.ofRat_eq_fin_round hnn (by linarith), ofRat_product hdiff0 (by linarith) ha]
  have haq : (smallest.toNat : ℚ) ≤ 2 ^ 32 - 1 := by
    have hle : smallest.toNat + 1 ≤ 2 ^ 32 := ha
    have hleq : (smallest.toNat : ℚ) + 1 ≤ 2 ^ 32 := by exact_mod_cast hle
    linarith
  have hcast : ((2 ^ 32 - 1 : ℤ) : ℚ) = 2 ^ 32 - 1 := by norm_num
  have hprod : Binary64.round (1 + -b) * smallest.toNat ≤ ((2 ^ 32 - 1 : ℤ) : ℚ) := by
    rw [hcast]
    exact (mul_le_of_le_one_left (Nat.cast_nonneg _) hdiff1).trans haq
  have hround := round_product_le hdiff0 (by linarith) ha hprod
  rw [hcast] at hround
  exact isUint_floor hround.1 hround.2

/-- So is the threshold. -/
theorem isLongLong_threshold (averageLatUS : UInt32) :
    IsLongLong (thresholdOperand betaNumer betaDenom averageLatUS) := by
  obtain ⟨b, hb, hpos, hlt, -, -⟩ := betaRatio_range h
  have ha : averageLatUS.toNat < 2 ^ 32 := averageLatUS.toNat_lt
  have hprod : b * averageLatUS.toNat ≤ ((averageLatUS.toNat : ℤ) : ℚ) := by
    rw [Int.cast_natCast]
    exact mul_le_of_le_one_left (Nat.cast_nonneg _) hlt.le
  have hround := round_product_le hpos.le (by linarith) ha hprod
  rw [thresholdOperand, hb, ofRat_product hpos.le (by linarith) ha]
  refine ⟨_, rfl, ?_, hround.2.trans ?_⟩
  · exact (by norm_num : (((-2 ^ 63 : ℤ)) : ℚ) ≤ 0).trans hround.1
  · exact_mod_cast (by omega : (averageLatUS.toNat : ℤ) ≤ 2 ^ 63 - 1)

end Ratio

/-- **When everything is in range**: the ratio is not 0 to 0, and the timeout fits. -/
theorem conversions_iff (betaNumer betaDenom : UInt16) (m : Measure) :
    Converts betaNumer betaDenom m ↔
      ¬ (betaNumer = 0 ∧ betaDenom = 0) ∧ TimeoutFits betaNumer betaDenom m.largest := by
  constructor
  · intro hconverts
    have h : ¬ (betaNumer = 0 ∧ betaDenom = 0) := by
      rintro ⟨rfl, rfl⟩
      obtain ⟨b, hb, -⟩ := hconverts.ratio
      rw [betaRatio_eq_nan] at hb
      exact absurd hb (by simp)
    exact ⟨h, (isUint_timeout_iff h _).1 hconverts.timeout⟩
  · rintro ⟨h, hfits⟩
    obtain ⟨b, hb, hpos, hlt, -, -⟩ := betaRatio_range h
    exact ⟨⟨b, hb, hpos, hlt⟩, (isUint_timeout_iff h _).2 hfits, isUint_upper h hfits,
      isUint_lower h _, isLongLong_threshold h _⟩

/-- A target at 1 ms, and a ratio of 0 to 0: it is `nan`, and passes the check. -/
theorem zero_ratio_passes :
    (handleClosest 7 .tcp).measure ∅
        (Std.ExtTreeMap.ofList [((⟨1, 80⟩ : NodeIdent), (1000 : UInt32))]) =
          some ⟨1000, 1000, 1000⟩ ∧
      ¬ Converts 0 0 ⟨1000, 1000, 1000⟩ := by
  refine ⟨by decide +kernel, fun hconverts ↦ ?_⟩
  obtain ⟨b, hb, -⟩ := hconverts.ratio
  rw [betaRatio_eq_nan] at hb
  exact absurd hb (by simp)

end Meridian

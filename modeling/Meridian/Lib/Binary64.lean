import Mathlib.Data.Int.Log
import Mathlib.Data.Rat.Floor
import Mathlib.Tactic.Linarith
import Mathlib.Tactic.Positivity

/-!
# Binary64 arithmetic

The `double` of C as exact rational arithmetic followed by one rounding, to nearest with ties to
even. A finite number is the rational it stands for, so there is one zero; infinities and `nan` are
values of their own, and overflow and gradual underflow are as in the format.

* The conversions to integers are those of the C library and of the machine: `llround` rounds half
  away from zero, a cast truncates, and what does not fit 64 bits becomes the smallest 64-bit
  integer. A cast to a 32-bit unsigned number takes the low half.
* The rules about rounding, `round_le` and `le_round`, compare with a number `m * 2 ^ k` of the
  format: rounding does not cross it.
-/

namespace Meridian.Lib

/-- A `double`. -/
inductive Binary64 where
  | nan
  | inf (negative : Bool)
  | fin (q : ℚ)
  deriving DecidableEq

namespace Binary64

/-! ### Rounding -/

/-- The nearest integer, and the even one of two that are equally near. -/
def nearestEven (q : ℚ) : ℤ :=
  if Int.fract q < 1 / 2 then ⌊q⌋
  else if 1 / 2 < Int.fract q then ⌊q⌋ + 1
  else if ⌊q⌋ % 2 = 0 then ⌊q⌋
  else ⌊q⌋ + 1

/-- The exponent of the last place of a number of this size. -/
def exponent (q : ℚ) : ℤ := max (Int.log 2 |q| - 52) (-1074)

/-- Rounding to 53 bits. -/
def round (q : ℚ) : ℚ := nearestEven (q / 2 ^ exponent q) * 2 ^ exponent q

/-- The number nearest to a rational. -/
def ofRat (q : ℚ) : Binary64 :=
  if (2 : ℚ) ^ 1024 ≤ |round q| then inf (decide (q < 0)) else fin (round q)

/-- Conversion from an unsigned integer. -/
def ofNat (n : ℕ) : Binary64 := ofRat n

/-! ### Arithmetic -/

/-- The sign of a product. -/
def mulSign (s : Bool) (q : ℚ) : Bool := s != decide (q < 0)

/-- `+`. -/
def add : Binary64 → Binary64 → Binary64
  | nan, _ => nan
  | _, nan => nan
  | inf s, inf t => if s = t then inf s else nan
  | inf s, fin _ => inf s
  | fin _, inf t => inf t
  | fin a, fin b => ofRat (a + b)

/-- Unary `-`. -/
def neg : Binary64 → Binary64
  | nan => nan
  | inf s => inf !s
  | fin a => fin (-a)

/-- `-`. -/
def sub (a b : Binary64) : Binary64 := add a (neg b)

/-- `*`. -/
def mul : Binary64 → Binary64 → Binary64
  | nan, _ => nan
  | _, nan => nan
  | inf s, inf t => inf (s != t)
  | inf s, fin b => if b = 0 then nan else inf (mulSign s b)
  | fin a, inf t => if a = 0 then nan else inf (mulSign t a)
  | fin a, fin b => ofRat (a * b)

/-- `/`. -/
def div : Binary64 → Binary64 → Binary64
  | nan, _ => nan
  | _, nan => nan
  | inf _, inf _ => nan
  | inf s, fin b => inf (mulSign s b)
  | fin _, inf _ => fin 0
  | fin a, fin b =>
    if b = 0 then if a = 0 then nan else inf (decide (a < 0))
    else ofRat (a / b)

/-- The square root of a rational that is not negative, rounded to 53 bits. -/
def roundSqrt (q : ℚ) : ℚ :=
  let e := max (Int.log 2 q / 2 - 52) (-1074)
  let s := q / 4 ^ e
  let m := Nat.sqrt ⌊s⌋.toNat
  let mid : ℚ := (m + 1 / 2) ^ 2
  let m : ℕ := if s < mid then m else if mid < s then m + 1 else if m % 2 = 0 then m else m + 1
  m * 2 ^ e

/-- `sqrt`. -/
def sqrt : Binary64 → Binary64
  | nan => nan
  | inf s => if s then nan else inf false
  | fin q => if q < 0 then nan else fin (roundSqrt q)

/-- `ceil`. -/
def ceil : Binary64 → Binary64
  | fin q => fin ⌈q⌉
  | a => a

/-- `floor`. -/
def floor : Binary64 → Binary64
  | fin q => fin ⌊q⌋
  | a => a

/-! ### Comparison -/

/-- `<=`, which is false next to a `nan`. -/
def le : Binary64 → Binary64 → Bool
  | nan, _ => false
  | _, nan => false
  | inf s, inf t => s || !t
  | inf s, fin _ => s
  | fin _, inf t => !t
  | fin a, fin b => a ≤ b

/-- `<`, likewise. -/
def lt : Binary64 → Binary64 → Bool
  | nan, _ => false
  | _, nan => false
  | inf s, inf t => s && !t
  | inf s, fin _ => s
  | fin _, inf t => !t
  | fin a, fin b => a < b

protected theorem le_trans {a b c : Binary64} (h : a.le b = true) (h' : b.le c = true) :
    a.le c = true := by
  cases a with
  | nan => cases h
  | inf s =>
    cases b with
    | nan => cases s <;> cases h
    | inf t => cases c <;> cases s <;> cases t <;> simp_all [le]
    | fin q => cases c <;> cases s <;> simp_all [le]
  | fin p =>
    cases b with
    | nan => cases h
    | inf t => cases c <;> cases t <;> simp_all [le]
    | fin q =>
      cases c with
      | nan => cases h'
      | inf t => exact h'
      | fin r => exact decide_eq_true ((of_decide_eq_true h).trans (of_decide_eq_true h'))

/-! ### Conversion to integers -/

/-- What the machine makes of a number that has no 64-bit value. -/
def LLONG_MIN : ℤ := -2 ^ 63

/-- A 64-bit value, if the integer is one. -/
def toLongLong (n : ℤ) : ℤ := if -2 ^ 63 ≤ n ∧ n < 2 ^ 63 then n else LLONG_MIN

/-- `llround`. -/
def llround : Binary64 → ℤ
  | fin q => toLongLong (if 0 ≤ q then ⌊q + 1 / 2⌋ else -⌊-q + 1 / 2⌋)
  | _ => LLONG_MIN

/-- A cast to a 64-bit integer. -/
def truncate : Binary64 → ℤ
  | fin q => toLongLong (if 0 ≤ q then ⌊q⌋ else -⌊-q⌋)
  | _ => LLONG_MIN

/-- A cast to a 32-bit unsigned integer. -/
def toUInt32 (a : Binary64) : UInt32 := UInt32.ofNat (truncate a % 2 ^ 32).toNat

/-! ### Rounding does not cross a number of the format -/

theorem nearestEven_le {q : ℚ} {n : ℤ} (h : q ≤ n) : nearestEven q ≤ n := by
  have hfloor : ⌊q⌋ ≤ n := by
    have hle := (Int.floor_le q).trans h
    exact_mod_cast hle
  rcases hfloor.lt_or_eq with hlt | heq
  · rw [nearestEven]
    split_ifs <;> omega
  · -- the integer part is `n` already, so nothing is left to round up
    have hfract : Int.fract q = 0 := by
      refine le_antisymm ?_ (Int.fract_nonneg q)
      have hself := Int.floor_add_fract q
      rw [heq] at hself
      linarith
    have hhalf : Int.fract q < 1 / 2 := by
      rw [hfract]
      norm_num
    rw [nearestEven, if_pos hhalf]
    exact hfloor

theorem le_nearestEven {q : ℚ} {n : ℤ} (h : (n : ℚ) ≤ q) : n ≤ nearestEven q := by
  have hfloor : n ≤ ⌊q⌋ := Int.le_floor.2 h
  rw [nearestEven]
  split_ifs <;> omega

/-- The nearest integer is at most a half away. -/
theorem abs_nearestEven_sub_le (q : ℚ) : |(nearestEven q : ℚ) - q| ≤ 1 / 2 := by
  have hfract := Int.fract_nonneg q
  have hlt := Int.fract_lt_one q
  have hself := Int.floor_add_fract q
  rw [nearestEven, abs_le]
  split_ifs <;> push_cast <;> constructor <;> linarith

/-- Rounding moves a number by half of its last place at most. -/
theorem abs_round_sub_le (q : ℚ) : |round q - q| ≤ 2 ^ exponent q / 2 := by
  have hpos : (0 : ℚ) < 2 ^ exponent q := zpow_pos two_pos _
  have hscale : round q - q = (nearestEven (q / 2 ^ exponent q) - q / 2 ^ exponent q) *
      2 ^ exponent q := by
    rw [round, sub_mul, div_mul_cancel₀ _ hpos.ne']
  rw [hscale, abs_mul, abs_of_pos hpos]
  have hnear := abs_nearestEven_sub_le (q / 2 ^ exponent q)
  calc |(nearestEven (q / 2 ^ exponent q) : ℚ) - q / 2 ^ exponent q| * 2 ^ exponent q
      ≤ 1 / 2 * 2 ^ exponent q := mul_le_mul_of_nonneg_right hnear hpos.le
    _ = 2 ^ exponent q / 2 := by ring

section Grid

variable {q : ℚ} {m k : ℤ}

/-- A multiple of a power of two is a multiple of every smaller one. -/
theorem mul_zpow_eq {e : ℤ} (h : e ≤ k) :
    (m : ℚ) * 2 ^ k = ((m * 2 ^ (k - e).toNat : ℤ) : ℚ) * 2 ^ e := by
  have hexp : (2 : ℚ) ^ k = 2 ^ (k - e).toNat * 2 ^ e := by
    rw [← zpow_natCast, Int.toNat_of_nonneg (by omega), ← zpow_add₀ two_ne_zero]
    congr 1
    omega
  rw [hexp]
  push_cast
  ring

theorem round_le (hk : exponent q ≤ k) (h : q ≤ m * 2 ^ k) : round q ≤ m * 2 ^ k := by
  have hpos : (0 : ℚ) < 2 ^ exponent q := zpow_pos two_pos _
  rw [mul_zpow_eq hk] at h ⊢
  rw [round]
  have hint := nearestEven_le ((div_le_iff₀ hpos).2 h)
  exact mul_le_mul_of_nonneg_right (by exact_mod_cast hint) hpos.le

theorem le_round (hk : exponent q ≤ k) (h : m * 2 ^ k ≤ q) : m * 2 ^ k ≤ round q := by
  have hpos : (0 : ℚ) < 2 ^ exponent q := zpow_pos two_pos _
  rw [mul_zpow_eq hk] at h ⊢
  rw [round]
  have hint := le_nearestEven ((le_div_iff₀ hpos).2 h)
  exact mul_le_mul_of_nonneg_right (by exact_mod_cast hint) hpos.le

/-- The last place of a number below `2 ^ (k + 53)` is at most `2 ^ k`. -/
theorem exponent_le (hk : -52 ≤ k) (hq : 0 ≤ q) (h : q < 2 ^ (k + 53)) : exponent q ≤ k := by
  rw [exponent, abs_of_nonneg hq]
  refine max_le ?_ (by omega)
  rcases hq.eq_or_lt with rfl | hpos
  · rw [Int.log_zero_right]
    omega
  · have hlog := (Int.lt_zpow_iff_log_lt one_lt_two hpos).1 (by exact_mod_cast h)
    omega

/-- The last place of a positive number can be smaller still. -/
theorem exponent_le_of_pos (hk : -1074 ≤ k) (hq : 0 < q) (h : q < 2 ^ (k + 53)) :
    exponent q ≤ k := by
  have hlog := (Int.lt_zpow_iff_log_lt one_lt_two hq).1 (by exact_mod_cast h)
  rw [exponent, abs_of_pos hq]
  exact max_le (by omega) hk

/-- The last place of a number from `2 ^ k` on is at least `2 ^ (k - 52)`. -/
theorem le_exponent (h : 2 ^ k ≤ q) : k - 52 ≤ exponent q := by
  have hpos : 0 < q := (zpow_pos two_pos k).trans_le h
  have hlog := (Int.zpow_le_iff_le_log one_lt_two hpos).1 (by exact_mod_cast h)
  rw [exponent, abs_of_pos hpos]
  exact (by omega : k - 52 ≤ Int.log 2 q - 52).trans (le_max_left _ _)

/-- A number of the format is not rounded. -/
theorem round_eq_self (hk : exponent q ≤ k) (h : q = m * 2 ^ k) : round q = q := by
  have hle := round_le hk h.le
  have hge := le_round hk h.ge
  rw [← h] at hle hge
  exact le_antisymm hle hge

/-- An integer that is less than a half away is the nearest. -/
theorem nearestEven_eq {x : ℚ} {n : ℤ} (h : |x - n| < 1 / 2) : nearestEven x = n := by
  have hnear := abs_lt.1 h
  have hround := abs_le.1 (abs_nearestEven_sub_le x)
  have hlt : (nearestEven x : ℚ) - n < 1 := by linarith
  have hgt : -1 < (nearestEven x : ℚ) - n := by linarith
  have hlt' : nearestEven x - n < 1 := by exact_mod_cast hlt
  have hgt' : -1 < nearestEven x - n := by exact_mod_cast hgt
  omega

/-- A number less than half of a last place away from a number of the format is rounded to it. -/
theorem round_eq_of_near (hk : exponent q ≤ k) (h : |q - m * 2 ^ k| < 2 ^ exponent q / 2) :
    round q = m * 2 ^ k := by
  have hpos : (0 : ℚ) < 2 ^ exponent q := zpow_pos two_pos _
  rw [mul_zpow_eq hk] at h ⊢
  rw [round]
  congr 2
  refine nearestEven_eq ?_
  rw [← mul_lt_mul_iff_left₀ hpos, ← abs_of_pos hpos, ← abs_mul, sub_mul, abs_of_pos hpos,
    div_mul_cancel₀ _ hpos.ne']
  linarith

theorem round_nonneg (hq : 0 ≤ q) : 0 ≤ round q := by
  have hle : ((0 : ℤ) : ℚ) * 2 ^ exponent q ≤ round q := le_round le_rfl (by simpa using hq)
  simpa using hle

/-- Small integers are numbers of the format. -/
theorem round_natCast {n : ℕ} (hn : n < 2 ^ 53) : round n = n := by
  have hk : exponent n ≤ 0 := by
    refine exponent_le (by norm_num) (Nat.cast_nonneg n) ?_
    rw [zero_add]
    exact_mod_cast hn
  have hself : ((n : ℤ) : ℚ) * 2 ^ (0 : ℤ) = n := by
    rw [zpow_zero, mul_one, Int.cast_natCast]
  have hle := round_le hk hself.ge
  have hge := le_round hk hself.le
  rw [hself] at hle hge
  exact le_antisymm hle hge

theorem ofNat_eq_fin {n : ℕ} (hn : n < 2 ^ 53) : ofNat n = fin n := by
  have hbig : ¬ (2 : ℚ) ^ 1024 ≤ |(n : ℚ)| := by
    have hcast : (n : ℚ) < 2 ^ 53 := by exact_mod_cast hn
    have hpow : (2 : ℚ) ^ 53 ≤ 2 ^ 1024 := pow_le_pow_right₀ one_le_two (by norm_num)
    rw [abs_of_nonneg (Nat.cast_nonneg n)]
    exact not_le.2 (hcast.trans_le hpow)
  rw [ofNat, ofRat, round_natCast hn, if_neg hbig]

/-- **Numbers that are rounded to one** are no further apart than a last place. -/
theorem abs_sub_le_of_ofRat_eq {p : ℚ} (hp : exponent p ≤ k) (hq : exponent q ≤ k)
    (hfinite : |round p| < 2 ^ 1024) (h : ofRat p = ofRat q) : |p - q| ≤ 2 ^ k := by
  have hround : round p = round q := by
    rw [ofRat, if_neg hfinite.not_ge, ofRat] at h
    split at h
    · exact absurd h (by simp)
    · exact fin.inj h
  have hmono {e : ℤ} (he : e ≤ k) : (2 : ℚ) ^ e ≤ 2 ^ k := zpow_le_zpow_right₀ one_le_two he
  have hnear := abs_round_sub_le p
  have hnear' := abs_round_sub_le q
  rw [hround] at hnear
  calc |p - q| = |(round q - q) - (round q - p)| := by ring_nf
    _ ≤ |round q - q| + |round q - p| := abs_sub _ _
    _ ≤ 2 ^ exponent q / 2 + 2 ^ exponent p / 2 := add_le_add hnear' hnear
    _ ≤ 2 ^ k := by linarith [hmono hp, hmono hq]

end Grid

/-! ### Rounding is monotone -/

/-- A larger number has no smaller nearest integer. -/
theorem nearestEven_mono {x y : ℚ} (h : x ≤ y) : nearestEven x ≤ nearestEven y := by
  rcases (Int.floor_mono h).lt_or_eq with hlt | heq
  · have hx : nearestEven x ≤ ⌊x⌋ + 1 :=
      nearestEven_le (by exact_mod_cast (Int.lt_floor_add_one x).le)
    have hy : ⌊y⌋ ≤ nearestEven y := le_nearestEven (Int.floor_le y)
    omega
  · have hfract : Int.fract x ≤ Int.fract y := by
      rw [Int.fract, Int.fract, heq]
      linarith
    rw [nearestEven, nearestEven, heq]
    split_ifs <;> first | omega | linarith

theorem exponent_mono {p q : ℚ} (hp : p ≠ 0) (h : |p| ≤ |q|) : exponent p ≤ exponent q := by
  rw [exponent, exponent]
  have hlog := Int.log_mono_right (b := 2) (abs_pos.2 hp) h
  omega

/-- Where the last place grows, a power of two lies between. -/
theorem le_of_exponent_lt {p q : ℚ} (hq : q ≠ 0) (h : exponent p < exponent q) :
    |p| ≤ ((2 ^ 52 : ℤ) : ℚ) * 2 ^ exponent q ∧ ((2 ^ 52 : ℤ) : ℚ) * 2 ^ exponent q ≤ |q| := by
  have hlog : exponent q = Int.log 2 |q| - 52 := by
    rw [exponent] at h ⊢
    rw [exponent] at h
    omega
  have hlt : Int.log 2 |p| < Int.log 2 |q| := by
    rw [exponent] at h
    omega
  have hpow : ((2 ^ 52 : ℤ) : ℚ) * 2 ^ exponent q = 2 ^ Int.log 2 |q| := by
    rw [hlog, show ((2 ^ 52 : ℤ) : ℚ) = 2 ^ (52 : ℤ) by norm_num, ← zpow_add₀ two_ne_zero]
    congr 1
    omega
  rw [hpow]
  constructor
  · have hup := Int.lt_zpow_succ_log_self one_lt_two |p|
    refine hup.le.trans ?_
    exact_mod_cast zpow_le_zpow_right₀ (one_le_two : (1 : ℚ) ≤ 2) (Int.add_one_le_of_lt hlt)
  · exact_mod_cast Int.zpow_log_le_self one_lt_two (abs_pos.2 hq)

/-- **Rounding is monotone.** -/
theorem round_mono {p q : ℚ} (h : p ≤ q) : round p ≤ round q := by
  have hsame (hexp : exponent p = exponent q) : round p ≤ round q := by
    rw [round, round, hexp]
    have hpos : (0 : ℚ) < 2 ^ exponent q := zpow_pos two_pos _
    refine mul_le_mul_of_nonneg_right ?_ hpos.le
    exact_mod_cast nearestEven_mono (div_le_div_of_nonneg_right h hpos.le)
  -- where the last places differ, zero or a power of two lies between
  rcases le_or_gt q 0 with hq | hq
  · rcases hq.eq_or_lt with rfl | hq
    · have hle : round p ≤ ((0 : ℤ) : ℚ) * 2 ^ exponent p := round_le le_rfl (by simpa using h)
      have hge : 0 ≤ round 0 := round_nonneg le_rfl
      rw [Int.cast_zero, zero_mul] at hle
      exact hle.trans hge
    · have hp : p < 0 := h.trans_lt hq
      have habs : |q| ≤ |p| := by
        rw [abs_of_neg hp, abs_of_neg hq]
        linarith
      rcases (exponent_mono hq.ne habs).lt_or_eq with hlt | heq
      · obtain ⟨hsmall, hlarge⟩ := le_of_exponent_lt hp.ne hlt
        rw [abs_of_neg hq] at hsmall
        rw [abs_of_neg hp] at hlarge
        have hm : ((-2 ^ 52 : ℤ) : ℚ) * 2 ^ exponent p =
            -(((2 ^ 52 : ℤ) : ℚ) * 2 ^ exponent p) := by
          push_cast
          ring
        exact (round_le (m := -2 ^ 52) le_rfl (by linarith)).trans
          (le_round (m := -2 ^ 52) hlt.le (by linarith))
      · exact hsame heq.symm
  · rcases le_or_gt p 0 with hp | hp
    · have hle : round p ≤ ((0 : ℤ) : ℚ) * 2 ^ exponent p := round_le le_rfl (by simpa using hp)
      rw [Int.cast_zero, zero_mul] at hle
      exact hle.trans (round_nonneg hq.le)
    · have habs : |p| ≤ |q| := by
        rwa [abs_of_pos hp, abs_of_pos hq]
      rcases (exponent_mono hp.ne' habs).lt_or_eq with hlt | heq
      · obtain ⟨hsmall, hlarge⟩ := le_of_exponent_lt hq.ne' hlt
        rw [abs_of_pos hp] at hsmall
        rw [abs_of_pos hq] at hlarge
        exact (round_le hlt.le hsmall).trans (le_round le_rfl hlarge)
      · exact hsame heq

/-! ### Numbers of the format -/

theorem ofRat_eq_fin {q : ℚ} (h : |round q| < 2 ^ 1024) : ofRat q = fin (round q) :=
  if_neg h.not_ge

theorem ofRat_eq_fin_round {q : ℚ} (h0 : 0 ≤ q) (h : q ≤ 2 ^ 40) : ofRat q = fin (round q) := by
  have hround := round_mono (h.trans_eq (show (2 : ℚ) ^ 40 = (2 ^ 40 : ℕ) by norm_num))
  rw [round_natCast (by norm_num)] at hround
  have hpow : ((2 ^ 40 : ℕ) : ℚ) < 2 ^ 41 := by norm_num
  refine ofRat_eq_fin ?_
  rw [abs_of_nonneg (round_nonneg h0)]
  exact (hround.trans_lt hpow).trans_le (pow_le_pow_right₀ one_le_two (by norm_num))

/-- A rational that is the value of a double. -/
def IsDouble (q : ℚ) : Prop := ofRat q = fin q

instance (q : ℚ) : Decidable (IsDouble q) := inferInstanceAs (Decidable (ofRat q = fin q))

theorem IsDouble.round_eq {q : ℚ} (h : IsDouble q) : round q = q := by
  rw [IsDouble, ofRat] at h
  split at h
  · exact absurd h nofun
  · exact fin.inj h

theorem isDouble_natCast {n : ℕ} (hn : n < 2 ^ 53) : IsDouble n := ofNat_eq_fin hn

/-- A half added to a small integer. -/
theorem isDouble_add_half {n : ℕ} (hn : n < 2 ^ 33) : IsDouble (n + 1 / 2) := by
  have hnq : (n : ℚ) + 1 / 2 < 2 ^ 34 := by
    have hcast : (n : ℚ) ≤ 2 ^ 33 := by exact_mod_cast hn.le
    linarith
  have hexp : exponent ((n : ℚ) + 1 / 2) ≤ -1 :=
    exponent_le (by norm_num) (by positivity) (hnq.trans (by norm_num))
  have hself : round ((n : ℚ) + 1 / 2) = n + 1 / 2 := by
    refine round_eq_self (m := 2 * n + 1) hexp ?_
    push_cast
    norm_num
    ring
  rw [IsDouble, ofRat_eq_fin_round (by positivity) (hnq.le.trans (by norm_num)), hself]

/-- A bound that is a number of the format holds of what is rounded. -/
theorem ofRat_le {p c : ℚ} (h : p ≤ c) (hc : IsDouble c) : (ofRat p).le (fin c) = true := by
  rw [IsDouble, ofRat] at hc
  rw [ofRat]
  split at hc
  · exact absurd hc nofun
  · rename_i hfinite
    have hround := round_mono h
    rw [fin.inj hc] at hround hfinite
    split
    · -- it is negative, as it is below a finite number
      rename_i hhuge
      refine decide_eq_true ?_
      by_contra hp
      rw [abs_of_nonneg (round_nonneg (not_lt.1 hp))] at hhuge
      exact hfinite ((hhuge.trans hround).trans (le_abs_self c))
    · exact decide_eq_true hround

theorem le_ofRat {p c : ℚ} (h : c ≤ p) (hc : IsDouble c) : (fin c).le (ofRat p) = true := by
  rw [IsDouble, ofRat] at hc
  rw [ofRat]
  split at hc
  · exact absurd hc nofun
  · rename_i hfinite
    have hround := round_mono h
    rw [fin.inj hc] at hround hfinite
    split
    · rename_i hhuge
      show (!decide (p < 0)) = true
      rw [Bool.not_eq_true', decide_eq_false_iff_not]
      intro hp
      have hneg : round p ≤ ((0 : ℤ) : ℚ) * 2 ^ exponent p := round_le le_rfl (by simpa using hp.le)
      rw [Int.cast_zero, zero_mul] at hneg
      rw [abs_of_nonpos hneg] at hhuge
      exact hfinite (hhuge.trans ((neg_le_neg hround).trans (neg_le_abs c)))
    · exact decide_eq_true hround

end Binary64

end Meridian.Lib

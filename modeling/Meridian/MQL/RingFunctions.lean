import Meridian.Lib.Binary64
import Meridian.MQL.Native
import Meridian.RingSetScan

/-!
# The ring functions of MQL

`ring_gt`, `ring_ge`, `ring_lt` and `ring_le` compare the members of one ring, that of their bound in
µs, and take or skip the members of every other ring as a whole. That is a comparison of all members
(`fullScan`) where the bound is a `u_int`: then the members of the other rings are on the right side
of it, but for those that are at the bound itself, which the product with 1000 can miss by a
rounding.

A bound that is negative, or too large, is reduced modulo 2^32 in its conversion, and another ring
stands in its place: all members are on one side of the bound, and of that ring the functions see
both sides.
-/

namespace Meridian.MQL

open Lib RingSet

/-! ### Selected rings -/

section Scan

variable {D : Type} [CDouble D]

/-- What a ring function says of a latency in ms. -/
def RingFunc.holds (f : RingFunc) (d ms : D) : Bool :=
  match f with
  | .gt => CDouble.lt d ms
  | .ge => CDouble.le d ms
  | .lt => CDouble.lt ms d
  | .le => CDouble.le ms d

/-- The bound in µs. -/
def RingFunc.bound (f : RingFunc) (d : D) : D :=
  match f with
  | .gt | .ge => CDouble.floor (CDouble.mul d (CDouble.ofInt 1000))
  | .lt | .le => CDouble.ceil (CDouble.mul d (CDouble.ofInt 1000))

/-- The ring whose members are compared. -/
def comparedRing (host : Host D) (f : RingFunc) (d : D) : Fin MAX_NUM_RINGS :=
  host.getRingNumber (CDouble.toUInt (f.bound d))

/-- The rings that are taken as a whole, next to the one that is compared. -/
def RingFunc.takes (f : RingFunc) (compared r : Fin MAX_NUM_RINGS) : Bool :=
  match f with
  | .gt | .ge => compared < r
  | .lt | .le => r < compared

/-- All primary members that the function says yes to, whatever their rings. -/
def fullScan (rs : RingSet) (f : RingFunc) (d : D) : List NodeIdentRendv :=
  (List.finRange MAX_NUM_RINGS).flatMap (comparedMembers rs (f.holds d))

/-- Some primary member has such a latency. -/
def HasMember (rs : RingSet) (P : UInt32 → Prop) : Prop :=
  ∃ r, ∃ n ∈ rs.primaryRing r, ∃ us, rs.nodeLatencyUS[n]? = some us ∧ P us

/-- A latency that is not compared, and that is taken or skipped wrongly with its ring. -/
def Missorted (host : Host D) (f : RingFunc) (d : D) (us : UInt32) : Prop :=
  host.getRingNumber us ≠ comparedRing host f d ∧
    f.holds d (toMs us) ≠ f.takes (comparedRing host f d) (host.getRingNumber us)

theorem outMembers_eq (host : Host D) (f : RingFunc) (d : D) :
    outMembers host f d = comparedMembers host.rings (f.holds d) (comparedRing host f d) ++
      ringMembers host.rings (f.takes (comparedRing host f d)) := by
  cases f <;> rfl

/-! ### Members -/

theorem rendvEntry_injective (rs : RingSet) : Function.Injective rs.rendvEntry := by
  intro n m h
  rw [rendvEntry_eq, rendvEntry_eq] at h
  injection h with haddr hport
  cases n
  cases m
  simp_all

/-- The members of a ring that are compared, without their rendavous. -/
def comparedIdents (rs : RingSet) (compare : D → Bool) (r : Fin MAX_NUM_RINGS) : List NodeIdent :=
  (rs.primaryRing r).filter fun n ↦
    match rs.nodeLatencyUS[n]? with
    | some us => compare (toMs us)
    | none => false

variable {rs : RingSet} {host : Host D} {f : RingFunc} {d : D} {r q : Fin MAX_NUM_RINGS}
  {n : NodeIdent} {compare : D → Bool}

theorem mem_comparedIdents :
    n ∈ comparedIdents rs compare r ↔
      n ∈ rs.primaryRing r ∧ ∃ us, rs.nodeLatencyUS[n]? = some us ∧ compare (toMs us) = true := by
  rw [comparedIdents, List.mem_filter]
  refine and_congr_right fun _ ↦ ?_
  cases rs.nodeLatencyUS[n]? with
  | none => simp
  | some us => simp

theorem fullScan_eq : fullScan rs f d =
    ((List.finRange MAX_NUM_RINGS).flatMap (comparedIdents rs (f.holds d))).map rs.rendvEntry := by
  rw [fullScan, List.map_flatMap]
  rfl

theorem outMembers_eq_map : outMembers host f d =
    (comparedIdents host.rings (f.holds d) (comparedRing host f d) ++
      ((List.finRange MAX_NUM_RINGS).filter (f.takes (comparedRing host f d))).flatMap
        host.rings.primaryRing).map host.rings.rendvEntry := by
  rw [outMembers_eq, List.map_append, List.map_flatMap]
  rfl

theorem takes_self (f : RingFunc) (r : Fin MAX_NUM_RINGS) : f.takes r r = false := by
  cases f <;> simp [RingFunc.takes]

section Inv

variable {getRingNumber : UInt32 → Fin MAX_NUM_RINGS} (hinv : Inv getRingNumber rs)

include hinv

theorem nodup_primaryRing (r : Fin MAX_NUM_RINGS) : (rs.primaryRing r).Nodup :=
  (List.nodup_append.1 (hinv.nodup r)).1

theorem located_of_primary (hn : n ∈ rs.primaryRing r) :
    ∃ us, rs.nodeLatencyUS[n]? = some us ∧ getRingNumber us = r :=
  (hinv.mem_ring n r).1 (List.mem_append_left _ hn)

theorem primaryRing_unique (hr : n ∈ rs.primaryRing r) (hq : n ∈ rs.primaryRing q) : r = q := by
  obtain ⟨us, hus, rfl⟩ := located_of_primary hinv hr
  obtain ⟨us', hus', rfl⟩ := located_of_primary hinv hq
  rw [hus, Option.some.injEq] at hus'
  rw [hus']

/-- Members that are picked out of different rings are different. -/
theorem nodup_flatMap_primary {rings : List (Fin MAX_NUM_RINGS)} (hrings : rings.Nodup)
    {pick : Fin MAX_NUM_RINGS → List NodeIdent} (hpick : ∀ r, (pick r).Sublist (rs.primaryRing r)) :
    (rings.flatMap pick).Nodup := by
  rw [List.nodup_flatMap]
  refine ⟨fun r _ ↦ (nodup_primaryRing hinv r).sublist (hpick r), hrings.imp fun {q r} hne ↦ ?_⟩
  intro n hq hr
  exact hne (primaryRing_unique hinv ((hpick q).subset hq) ((hpick r).subset hr))

theorem nodup_fullScan : (fullScan rs f d).Nodup := by
  rw [fullScan_eq]
  exact (nodup_flatMap_primary hinv (List.nodup_finRange _) fun r ↦ List.filter_sublist).map
    (rendvEntry_injective rs)

end Inv

/-- **What the ring functions return** is what a full scan returns if no member that is not compared
is missorted. -/
theorem outMembers_perm_iff (hinv : Inv host.getRingNumber host.rings) :
    (outMembers host f d).Perm (fullScan host.rings f d) ↔
      ¬ HasMember host.rings (Missorted host f d) := by
  rw [outMembers_eq_map, fullScan_eq, List.map_perm_map_iff (rendvEntry_injective _)]
  have hout : (comparedIdents host.rings (f.holds d) (comparedRing host f d) ++
      ((List.finRange MAX_NUM_RINGS).filter (f.takes (comparedRing host f d))).flatMap
        host.rings.primaryRing).Nodup := by
    refine List.nodup_append.2 ⟨(nodup_primaryRing hinv _).filter _,
      nodup_flatMap_primary hinv ((List.nodup_finRange _).filter _) fun _ ↦ .refl _, ?_⟩
    rintro n hn m hm rfl
    obtain ⟨r, hr, hmem⟩ := List.mem_flatMap.1 hm
    obtain rfl := primaryRing_unique hinv hmem (List.mem_of_mem_filter hn)
    rw [List.mem_filter, takes_self] at hr
    exact absurd hr.2 Bool.false_ne_true
  have hscan : ((List.finRange MAX_NUM_RINGS).flatMap
      (comparedIdents host.rings (f.holds d))).Nodup :=
    nodup_flatMap_primary hinv (List.nodup_finRange _) fun r ↦ List.filter_sublist
  -- neither list names a member twice, so that only membership counts
  rw [List.perm_ext_iff_of_nodup hout hscan]
  simp only [List.mem_append, List.mem_flatMap, List.mem_filter, List.mem_finRange, true_and,
    mem_comparedIdents]
  constructor
  · rintro h ⟨r, n, hn, us, hus, hne, hwrong⟩
    obtain ⟨us', hus', rfl⟩ := located_of_primary hinv hn
    rw [hus, Option.some.injEq] at hus'
    subst hus'
    refine hwrong (Bool.eq_iff_iff.2 ⟨fun hholds ↦ ?_, fun htakes ↦ ?_⟩)
    · rcases (h n).2 ⟨_, hn, us, hus, hholds⟩ with ⟨hmem, -⟩ | ⟨r, htakes, hmem⟩
      · exact absurd (primaryRing_unique hinv hn hmem) hne
      · rwa [primaryRing_unique hinv hn hmem]
    · obtain ⟨r, -, us', hus', hholds⟩ := (h n).1 (Or.inr ⟨_, htakes, hn⟩)
      rw [hus, Option.some.injEq] at hus'
      rwa [hus']
  · intro h n
    -- outside the compared ring the ring alone tells on which side a member is
    have hsorted {r : Fin MAX_NUM_RINGS} (hn : n ∈ host.rings.primaryRing r)
        (hne : r ≠ comparedRing host f d) : ∃ us, host.rings.nodeLatencyUS[n]? = some us ∧
          f.holds d (toMs us) = f.takes (comparedRing host f d) r := by
      obtain ⟨us, hus, rfl⟩ := located_of_primary hinv hn
      refine ⟨us, hus, ?_⟩
      by_contra hwrong
      exact h ⟨_, n, hn, us, hus, hne, hwrong⟩
    constructor
    · rintro (⟨hn, us, hus, hholds⟩ | ⟨r, htakes, hn⟩)
      · exact ⟨_, hn, us, hus, hholds⟩
      · have hne : r ≠ comparedRing host f d := by
          rintro rfl
          rw [takes_self] at htakes
          exact absurd htakes Bool.false_ne_true
        obtain ⟨us, hus, heq⟩ := hsorted hn hne
        exact ⟨r, hn, us, hus, heq.trans htakes⟩
    · rintro ⟨r, hn, us, hus, hholds⟩
      rcases eq_or_ne r (comparedRing host f d) with rfl | hne
      · exact Or.inl ⟨hn, us, hus, hholds⟩
      · obtain ⟨us', hus', heq⟩ := hsorted hn hne
        rw [hus, Option.some.injEq] at hus'
        subst hus'
        exact Or.inr ⟨r, heq ▸ hholds, hn⟩

end Scan

/-! ### Doubles -/

/-- What the doubles of the interpreter take from the C library and the machine, besides their
arithmetic. -/
class CLibrary where
  fmod : Binary64 → Binary64 → Binary64
  pow : Binary64 → Binary64 → Binary64
  math : MathFunc → Binary64 → Binary64
  lrint : Binary64 → Int32
  toInt : Binary64 → Int32
  toUInt : Binary64 → UInt32

instance [CLibrary] : CDouble Binary64 where
  zero := .fin 0
  infinity := .inf false
  negInfinity := .inf true
  ofInt := fun i ↦ .ofRat i.toInt
  ofUInt := fun u ↦ .ofNat u.toNat
  add := .add
  sub := .sub
  mul := .mul
  div := .div
  fmod := CLibrary.fmod
  pow := CLibrary.pow
  lt := Binary64.lt
  le := Binary64.le
  eq := fun a b ↦ a.le b && b.le a
  math := CLibrary.math
  ceil := .ceil
  floor := .floor
  lrint := CLibrary.lrint
  toInt := CLibrary.toInt
  toUInt := CLibrary.toUInt

/-- A latency in ms is the double nearest to the quotient. -/
def ms (us : UInt32) : ℚ := Binary64.round (us.toNat / 1000)

section Doubles

variable {us : UInt32} {q : ℚ}

theorem ofInt_thousand [CLibrary] : (CDouble.ofInt 1000 : Binary64) = .fin 1000 := by
  show Binary64.ofNat 1000 = _
  exact Binary64.ofNat_eq_fin (by norm_num)

theorem toMs_eq [CLibrary] (us : UInt32) : (toMs us : Binary64) = .fin (ms us) := by
  have hus : (us.toNat : ℚ) ≤ 2 ^ 32 := by exact_mod_cast us.toNat_lt.le
  have hle : (us.toNat : ℚ) / 1000 ≤ 2 ^ 40 := by
    rw [div_le_iff₀ (by norm_num)]
    exact hus.trans (by norm_num)
  show Binary64.div (.ofNat us.toNat) (CDouble.ofInt 1000) = _
  rw [ofInt_thousand, Binary64.ofNat_eq_fin (us.toNat_lt.trans (by norm_num)), Binary64.div,
    if_neg (by norm_num), Binary64.ofRat_eq_fin_round (by positivity) hle, ms]

theorem ms_nonneg (us : UInt32) : 0 ≤ ms us := Binary64.round_nonneg (by positivity)

/-- A latency in ms is off by less than the quotient's last place. -/
theorem abs_ms_sub_le (us : UInt32) : |ms us - us.toNat / 1000| ≤ 1 / 2000 := by
  have hus : (us.toNat : ℚ) < 2 ^ 32 := by exact_mod_cast us.toNat_lt
  have hexp : Binary64.exponent ((us.toNat : ℚ) / 1000) ≤ -30 := by
    refine Binary64.exponent_le (by norm_num) (by positivity) ?_
    rw [div_lt_iff₀ (by norm_num)]
    exact hus.trans (by norm_num)
  have hpow : (2 : ℚ) ^ Binary64.exponent ((us.toNat : ℚ) / 1000) ≤ 2 ^ (-30 : ℤ) :=
    zpow_le_zpow_right₀ one_le_two hexp
  have hsmall : (2 : ℚ) ^ (-30 : ℤ) ≤ 1 / 1000 := by norm_num
  have hround := Binary64.abs_round_sub_le ((us.toNat : ℚ) / 1000)
  rw [ms]
  linarith

/-! ### The product with 1000 -/

/-- The product of a bound above a latency is not below it. -/
theorem le_product_of_ms_lt (hq : Binary64.IsDouble q) (h : ms us < q) :
    Binary64.le (.fin us.toNat) (.ofRat (q * 1000)) = true := by
  refine Binary64.le_ofRat ?_ (Binary64.isDouble_natCast (us.toNat_lt.trans (by norm_num)))
  have hlt : (us.toNat : ℚ) / 1000 < q := by
    by_contra hle
    have hround := Binary64.round_mono (not_lt.1 hle)
    rw [hq.round_eq] at hround
    exact h.not_ge hround
  linarith [(div_lt_iff₀ (by norm_num : (0 : ℚ) < 1000)).1 hlt]

theorem product_le_of_lt_ms (hq : Binary64.IsDouble q) (h : q < ms us) :
    Binary64.le (.ofRat (q * 1000)) (.fin us.toNat) = true := by
  refine Binary64.ofRat_le ?_ (Binary64.isDouble_natCast (us.toNat_lt.trans (by norm_num)))
  have hlt : q < (us.toNat : ℚ) / 1000 := by
    by_contra hle
    have hround := Binary64.round_mono (not_lt.1 hle)
    rw [hq.round_eq] at hround
    exact h.not_ge hround
  linarith [(lt_div_iff₀ (by norm_num : (0 : ℚ) < 1000)).1 hlt]

/-- Not above a latency, its product is less than half a µs above it. -/
theorem product_le_of_le_ms (h : q ≤ ms us) :
    Binary64.le (.ofRat (q * 1000)) (.fin (us.toNat + 1 / 2)) = true := by
  refine Binary64.ofRat_le ?_ (Binary64.isDouble_add_half (us.toNat_lt.trans (by norm_num)))
  have herr := (abs_le.1 (abs_ms_sub_le us)).2
  linarith [div_mul_cancel₀ (us.toNat : ℚ) (by norm_num : (1000 : ℚ) ≠ 0)]

theorem le_product_of_ms_le (hpos : 0 < us.toNat) (h : ms us ≤ q) :
    Binary64.le (.fin (us.toNat - 1 / 2)) (.ofRat (q * 1000)) = true := by
  have hpred : ((us.toNat : ℚ) - 1 / 2) = ((us.toNat - 1 : ℕ) : ℚ) + 1 / 2 := by
    rw [Nat.cast_sub hpos]
    norm_num
    ring
  rw [hpred]
  refine Binary64.le_ofRat ?_ (Binary64.isDouble_add_half ((Nat.sub_le _ _).trans_lt
    (us.toNat_lt.trans (by norm_num))))
  rw [← hpred]
  have herr := (abs_le.1 (abs_ms_sub_le us)).1
  linarith [div_mul_cancel₀ (us.toNat : ℚ) (by norm_num : (1000 : ℚ) ≠ 0)]

/-! ### The sides of the bound -/

section Sides

/-- The product is not a `nan`, and its comparison with a finite number is one of numbers. -/
theorem product_cases (q : ℚ) :
    (∃ v, Binary64.ofRat (q * 1000) = .fin v) ∨
      ∃ negative, Binary64.ofRat (q * 1000) = .inf negative := by
  rw [Binary64.ofRat]
  split
  · exact Or.inr ⟨_, rfl⟩
  · exact Or.inl ⟨_, rfl⟩

/-- Every latency is above a negative bound. -/
theorem lt_ms_of_neg {round : Binary64 → Binary64} (hround : round = .floor ∨ round = .ceil)
    (h : (round (.ofRat (q * 1000))).lt (.fin 0) = true) (us : UInt32) : q < ms us := by
  refine lt_of_lt_of_le ?_ (ms_nonneg us)
  by_contra hq
  have hzero : Binary64.le (.fin 0) (.ofRat (q * 1000)) = true :=
    Binary64.le_ofRat (by linarith) (by exact_mod_cast Binary64.isDouble_natCast (n := 0) (by norm_num))
  rcases product_cases q with ⟨v, hv⟩ | ⟨negative, hv⟩
  · rw [hv] at h hzero
    have hv0 : 0 ≤ v := of_decide_eq_true hzero
    rcases hround with rfl | rfl
    · have hneg : ((⌊v⌋ : ℤ) : ℚ) < 0 := of_decide_eq_true h
      have hfloor := Int.floor_nonneg.2 hv0
      exact absurd (by exact_mod_cast hneg : ⌊v⌋ < 0) (not_lt.2 hfloor)
    · have hneg : ((⌈v⌉ : ℤ) : ℚ) < 0 := of_decide_eq_true h
      exact absurd ((Int.le_ceil v).trans_lt hneg) (not_lt.2 hv0)
  · rw [hv] at h hzero
    rcases hround with rfl | rfl
    all_goals
      cases negative
      · exact absurd h Bool.false_ne_true
      · exact absurd hzero Bool.false_ne_true

/-- Every latency is below a bound that is too large. -/
theorem ms_lt_of_large (h : Binary64.le (.fin (2 ^ 32)) (.floor (.ofRat (q * 1000))) = true)
    (us : UInt32) : ms us < q := by
  by_contra hle
  have hprod := product_le_of_le_ms (not_lt.1 hle)
  have hus : (us.toNat : ℚ) ≤ 2 ^ 32 - 1 := by
    have hlt : us.toNat + 1 ≤ 2 ^ 32 := us.toNat_lt
    have hcast : (us.toNat : ℚ) + 1 ≤ 2 ^ 32 := by exact_mod_cast hlt
    linarith
  rcases product_cases q with ⟨v, hv⟩ | ⟨negative, hv⟩
  · rw [hv] at h hprod
    have hfloor : (2 : ℚ) ^ 32 ≤ ⌊v⌋ := of_decide_eq_true h
    have hv : v ≤ us.toNat + 1 / 2 := of_decide_eq_true hprod
    linarith [Int.floor_le v]
  · rw [hv] at h hprod
    cases negative
    · exact absurd hprod Bool.false_ne_true
    · exact absurd h Bool.false_ne_true

/-- The bound of `ring_lt` and `ring_le` is also too large if it is rounded up to 2^32. -/
theorem ms_le_of_large (hq : Binary64.IsDouble q)
    (h : Binary64.le (.fin (2 ^ 32)) (.ceil (.ofRat (q * 1000))) = true) (us : UInt32) :
    ms us ≤ q := by
  by_contra hlt
  have hprod := product_le_of_lt_ms hq (not_le.1 hlt)
  rcases product_cases q with ⟨v, hv⟩ | ⟨negative, hv⟩
  · rw [hv] at h hprod
    have hceil : (2 : ℚ) ^ 32 ≤ ⌈v⌉ := of_decide_eq_true h
    have hv : v ≤ us.toNat := of_decide_eq_true hprod
    have hle : ⌈v⌉ ≤ (us.toNat : ℤ) := Int.ceil_le.2 (by exact_mod_cast hv)
    have hlt : us.toNat < 2 ^ 32 := us.toNat_lt
    have hlow : (2 : ℤ) ^ 32 ≤ ⌈v⌉ := by exact_mod_cast hceil
    omega
  · rw [hv] at h hprod
    cases negative
    · exact absurd hprod Bool.false_ne_true
    · exact absurd h Bool.false_ne_true

/-- A latency at a bound that is too large: the bound is 2^32 exactly. -/
theorem ceil_eq_of_large (h : Binary64.le (.fin (2 ^ 32)) (.ceil (.ofRat (q * 1000))) = true)
    (heq : ms us = q) : Binary64.ceil (.ofRat (q * 1000)) = .fin ((2 ^ 32 : ℤ) : ℚ) := by
  have hprod := product_le_of_le_ms heq.ge
  rcases product_cases q with ⟨v, hv⟩ | ⟨negative, hv⟩
  · rw [hv] at h hprod ⊢
    have hceil : (2 : ℚ) ^ 32 ≤ ⌈v⌉ := of_decide_eq_true h
    have hv : v ≤ us.toNat + 1 / 2 := of_decide_eq_true hprod
    have hle : ⌈v⌉ ≤ (us.toNat : ℤ) + 1 := by
      refine Int.ceil_le.2 ?_
      push_cast
      linarith
    have hlt : us.toNat < 2 ^ 32 := us.toNat_lt
    have hlow : (2 : ℤ) ^ 32 ≤ ⌈v⌉ := by exact_mod_cast hceil
    rw [Binary64.ceil, show ⌈v⌉ = 2 ^ 32 by omega]
  · rw [hv] at h hprod
    cases negative
    · exact absurd hprod Bool.false_ne_true
    · exact absurd h Bool.false_ne_true

/-- The bound of `ring_gt` and `ring_ge` as a `u_int`, and the latencies around it. -/
theorem floor_sides (hq : Binary64.IsDouble q)
    (hneg : (Binary64.floor (.ofRat (q * 1000))).lt (.fin 0) = false)
    (hlarge : Binary64.le (.fin (2 ^ 32)) (.floor (.ofRat (q * 1000))) = false) :
    ∃ z : ℤ, Binary64.floor (.ofRat (q * 1000)) = .fin z ∧ 0 ≤ z ∧ z < 2 ^ 32 ∧
      ∀ us : UInt32, (z < us.toNat → q ≤ ms us) ∧ ((us.toNat : ℤ) < z → ms us < q) := by
  rcases product_cases q with ⟨v, hv⟩ | ⟨negative, hv⟩
  · rw [hv] at hneg hlarge ⊢
    have hlow : (0 : ℚ) ≤ ⌊v⌋ := not_lt.1 (of_decide_eq_false hneg)
    have hhigh : ((⌊v⌋ : ℤ) : ℚ) < 2 ^ 32 := not_le.1 (of_decide_eq_false hlarge)
    refine ⟨⌊v⌋, rfl, by exact_mod_cast hlow, by exact_mod_cast hhigh,
      fun us ↦ ⟨fun h ↦ ?_, fun h ↦ ?_⟩⟩
    · by_contra hlt
      have hprod := le_product_of_ms_lt hq (not_le.1 hlt)
      rw [hv] at hprod
      have hle : (us.toNat : ℚ) ≤ v := of_decide_eq_true hprod
      have hfloor : (us.toNat : ℤ) ≤ ⌊v⌋ := Int.le_floor.2 (by exact_mod_cast hle)
      omega
    · by_contra hle
      have hprod := product_le_of_le_ms (not_lt.1 hle)
      rw [hv] at hprod
      have hle : v ≤ us.toNat + 1 / 2 := of_decide_eq_true hprod
      have hstep : ((us.toNat : ℤ) : ℚ) + 1 ≤ ⌊v⌋ := by exact_mod_cast h
      have hfloor := Int.floor_le v
      push_cast at hstep
      linarith
  · rw [hv] at hneg hlarge
    cases negative
    · exact absurd hlarge.symm Bool.false_ne_true
    · exact absurd hneg.symm Bool.false_ne_true

/-- The same for `ring_lt` and `ring_le`. -/
theorem ceil_sides (hq : Binary64.IsDouble q)
    (hneg : (Binary64.ceil (.ofRat (q * 1000))).lt (.fin 0) = false)
    (hlarge : Binary64.le (.fin (2 ^ 32)) (.ceil (.ofRat (q * 1000))) = false) :
    ∃ z : ℤ, Binary64.ceil (.ofRat (q * 1000)) = .fin z ∧ 0 ≤ z ∧ z < 2 ^ 32 ∧
      ∀ us : UInt32, ((us.toNat : ℤ) < z → ms us ≤ q) ∧ (z < us.toNat → q < ms us) := by
  rcases product_cases q with ⟨v, hv⟩ | ⟨negative, hv⟩
  · rw [hv] at hneg hlarge ⊢
    have hlow : (0 : ℚ) ≤ ⌈v⌉ := not_lt.1 (of_decide_eq_false hneg)
    have hhigh : ((⌈v⌉ : ℤ) : ℚ) < 2 ^ 32 := not_le.1 (of_decide_eq_false hlarge)
    have hlow' : 0 ≤ ⌈v⌉ := by exact_mod_cast hlow
    refine ⟨⌈v⌉, rfl, hlow', by exact_mod_cast hhigh, fun us ↦ ⟨fun h ↦ ?_, fun h ↦ ?_⟩⟩
    · by_contra hlt
      have hprod := product_le_of_lt_ms hq (not_le.1 hlt)
      rw [hv] at hprod
      have hle : v ≤ us.toNat := of_decide_eq_true hprod
      have hceil : ⌈v⌉ ≤ (us.toNat : ℤ) := Int.ceil_le.2 (by exact_mod_cast hle)
      omega
    · by_contra hle
      have hpos : 0 < us.toNat := by omega
      have hprod := le_product_of_ms_le hpos (not_lt.1 hle)
      rw [hv] at hprod
      have hle : (us.toNat : ℚ) - 1 / 2 ≤ v := of_decide_eq_true hprod
      have hstep : ((⌈v⌉ : ℤ) : ℚ) + 1 ≤ (us.toNat : ℤ) := by exact_mod_cast h
      have hceil := Int.le_ceil v
      push_cast at hstep
      linarith
  · rw [hv] at hneg hlarge
    cases negative
    · exact absurd hlarge.symm Bool.false_ne_true
    · exact absurd hneg.symm Bool.false_ne_true

end Sides

/-! ### Misplaced members -/

/-- A latency that is on the wrong side of the ring that is compared.

* A negative bound comes out as another one, and the members of the rings below that are taken for
  smaller ones than the bound.
* A bound from 2^32 on likewise, and those of the rings above are taken for larger ones.
* Otherwise only a latency that is the bound itself can be in a ring next to the one that is compared.
-/
def Misplaced [CLibrary] (host : Host Binary64) (f : RingFunc) (d : Binary64) (us : UInt32) :
    Prop :=
  if (f.bound d).lt (.fin 0) then host.getRingNumber us < comparedRing host f d
  else if Binary64.le (.fin (2 ^ 32)) (f.bound d) then
    comparedRing host f d < host.getRingNumber us ∧ ¬ (f = .lt ∧ toMs us = d)
  else
    match f with
    | .gt => comparedRing host f d < host.getRingNumber us ∧ toMs us = d
    | .lt => host.getRingNumber us < comparedRing host f d ∧ toMs us = d
    | .ge | .le => False

section Misplaced

variable {host : Host Binary64}

theorem lt_of_ring_lt (hmono : ∀ a b, a ≤ b → host.getRingNumber a ≤ host.getRingNumber b)
    {a b : UInt32} (h : host.getRingNumber a < host.getRingNumber b) : a.toNat < b.toNat := by
  by_contra hle
  exact absurd (hmono b a (UInt32.le_iff_toNat_le.2 (not_lt.1 hle))) (not_le.2 h)

variable [CLibrary]

theorem mul_thousand (q : ℚ) :
    CDouble.mul (.fin q : Binary64) (CDouble.ofInt 1000) = .ofRat (q * 1000) := by
  rw [ofInt_thousand]
  rfl

theorem toMs_eq_fin_iff : (toMs us : Binary64) = .fin q ↔ ms us = q := by
  rw [toMs_eq, Binary64.fin.injEq]

theorem bound_eq_floor {f : RingFunc} (hf : f = .gt ∨ f = .ge) (q : ℚ) :
    f.bound (.fin q : Binary64) = .floor (.ofRat (q * 1000)) := by
  rw [← mul_thousand]
  rcases hf with rfl | rfl <;> rfl

theorem bound_eq_ceil {f : RingFunc} (hf : f = .lt ∨ f = .le) (q : ℚ) :
    f.bound (.fin q : Binary64) = .ceil (.ofRat (q * 1000)) := by
  rw [← mul_thousand]
  rcases hf with rfl | rfl <;> rfl

/-- A function that takes the rings above. -/
theorem missorted_above {f : RingFunc} {d : Binary64} (htakes : ∀ c r, f.takes c r = decide (c < r)) :
    Missorted host f d us ↔
      (comparedRing host f d < host.getRingNumber us ∧ f.holds d (toMs us) = false) ∨
      (host.getRingNumber us < comparedRing host f d ∧ f.holds d (toMs us) = true) := by
  rw [Missorted, htakes]
  rcases lt_trichotomy (host.getRingNumber us) (comparedRing host f d) with h | h | h
  · simp [h.ne, h.not_gt, h]
  · simp [h]
  · simp [h.ne', h.not_gt, h]

/-- A function that takes the rings below. -/
theorem missorted_below {f : RingFunc} {d : Binary64} (htakes : ∀ c r, f.takes c r = decide (r < c)) :
    Missorted host f d us ↔
      (host.getRingNumber us < comparedRing host f d ∧ f.holds d (toMs us) = false) ∨
      (comparedRing host f d < host.getRingNumber us ∧ f.holds d (toMs us) = true) := by
  rw [Missorted, htakes]
  rcases lt_trichotomy (host.getRingNumber us) (comparedRing host f d) with h | h | h
  · simp [h.ne, h.not_gt, h]
  · simp [h]
  · simp [h.ne', h.not_gt, h]

variable (hconv : ∀ z : ℤ, CLibrary.toUInt (.fin z) = castUInt z)
  (hmono : ∀ a b, a ≤ b → host.getRingNumber a ≤ host.getRingNumber b)
  (hq : Binary64.IsDouble q)

include hconv in
/-- The ring of a bound that is an integer. -/
theorem comparedRing_eq {f : RingFunc} {z : ℤ} (hz : f.bound (.fin q : Binary64) = .fin z) :
    comparedRing host f (.fin q) = host.getRingNumber (castUInt z) := by
  rw [comparedRing, hz]
  exact congrArg _ (hconv z)

include hconv hmono hq

/-- The members of the rings above and below that of `ring_gt` and `ring_ge`. -/
theorem above_sides {f : RingFunc}
    (hbound : f.bound (.fin q : Binary64) = .floor (.ofRat (q * 1000)))
    (hneg : ¬ (Binary64.floor (.ofRat (q * 1000))).lt (.fin 0) = true)
    (hlarge : ¬ Binary64.le (.fin (2 ^ 32)) (.floor (.ofRat (q * 1000))) = true) (us : UInt32) :
    (comparedRing host f (.fin q) < host.getRingNumber us → q ≤ ms us) ∧
      (host.getRingNumber us < comparedRing host f (.fin q) → ms us < q) := by
  obtain ⟨z, hz, hz0, hz1, hsides⟩ := floor_sides hq (Bool.eq_false_iff.2 hneg)
    (Bool.eq_false_iff.2 hlarge)
  have hcast := castUInt_toNat hz0 hz1
  rw [comparedRing_eq hconv (hbound.trans hz)]
  exact ⟨fun h ↦ (hsides us).1 (by have hlt := lt_of_ring_lt hmono h; omega),
    fun h ↦ (hsides us).2 (by have hlt := lt_of_ring_lt hmono h; omega)⟩

/-- The members of the rings below and above that of `ring_lt` and `ring_le`. -/
theorem below_sides {f : RingFunc}
    (hbound : f.bound (.fin q : Binary64) = .ceil (.ofRat (q * 1000)))
    (hneg : ¬ (Binary64.ceil (.ofRat (q * 1000))).lt (.fin 0) = true)
    (hlarge : ¬ Binary64.le (.fin (2 ^ 32)) (.ceil (.ofRat (q * 1000))) = true) (us : UInt32) :
    (host.getRingNumber us < comparedRing host f (.fin q) → ms us ≤ q) ∧
      (comparedRing host f (.fin q) < host.getRingNumber us → q < ms us) := by
  obtain ⟨z, hz, hz0, hz1, hsides⟩ := ceil_sides hq (Bool.eq_false_iff.2 hneg)
    (Bool.eq_false_iff.2 hlarge)
  have hcast := castUInt_toNat hz0 hz1
  rw [comparedRing_eq hconv (hbound.trans hz)]
  exact ⟨fun h ↦ (hsides us).1 (by have hlt := lt_of_ring_lt hmono h; omega),
    fun h ↦ (hsides us).2 (by have hlt := lt_of_ring_lt hmono h; omega)⟩

theorem missorted_gt : Missorted host .gt (.fin q) us ↔ Misplaced host .gt (.fin q) us := by
  have hbound := bound_eq_floor (f := .gt) (Or.inl rfl) q
  have hholds : RingFunc.gt.holds (.fin q) (toMs us : Binary64) = decide (q < ms us) := by
    rw [toMs_eq]
    rfl
  rw [missorted_above fun _ _ ↦ rfl, Misplaced, hholds, hbound, toMs_eq_fin_iff]
  split
  · rename_i hneg
    simp [lt_ms_of_neg (Or.inl rfl) hneg us]
  split
  · rename_i hlarge
    simp [(ms_lt_of_large hlarge us).not_gt]
  · rename_i hneg hlarge
    obtain ⟨habove, hbelow⟩ := above_sides hconv hmono hq hbound hneg hlarge us
    constructor
    · rintro (⟨h, hle⟩ | ⟨h, hlt⟩)
      · exact ⟨h, le_antisymm (not_lt.1 (of_decide_eq_false hle)) (habove h)⟩
      · exact absurd (of_decide_eq_true hlt) (hbelow h).not_gt
    · rintro ⟨h, heq⟩
      exact Or.inl ⟨h, decide_eq_false heq.le.not_gt⟩

theorem missorted_ge : Missorted host .ge (.fin q) us ↔ Misplaced host .ge (.fin q) us := by
  have hbound := bound_eq_floor (f := .ge) (Or.inr rfl) q
  have hholds : RingFunc.ge.holds (.fin q) (toMs us : Binary64) = decide (q ≤ ms us) := by
    rw [toMs_eq]
    rfl
  rw [missorted_above fun _ _ ↦ rfl, Misplaced, hholds, hbound, toMs_eq_fin_iff]
  split
  · rename_i hneg
    simp [(lt_ms_of_neg (Or.inl rfl) hneg us).le]
  split
  · rename_i hlarge
    simp [ms_lt_of_large hlarge us]
  · rename_i hneg hlarge
    obtain ⟨habove, hbelow⟩ := above_sides hconv hmono hq hbound hneg hlarge us
    refine iff_of_false ?_ id
    rintro (⟨h, hlt⟩ | ⟨h, hle⟩)
    · exact absurd (habove h) (of_decide_eq_false hlt)
    · exact absurd (of_decide_eq_true hle) (hbelow h).not_ge

theorem missorted_lt : Missorted host .lt (.fin q) us ↔ Misplaced host .lt (.fin q) us := by
  have hbound := bound_eq_ceil (f := .lt) (Or.inl rfl) q
  have hholds : RingFunc.lt.holds (.fin q) (toMs us : Binary64) = decide (ms us < q) := by
    rw [toMs_eq]
    rfl
  rw [missorted_below fun _ _ ↦ rfl, Misplaced, hholds, hbound, toMs_eq_fin_iff]
  split
  · rename_i hneg
    simp [(lt_ms_of_neg (Or.inr rfl) hneg us).not_gt]
  split
  · rename_i hlarge
    rcases (ms_le_of_large hq hlarge us).lt_or_eq with hlt | heq
    · simp [hlt, hlt.ne]
    · -- the bound has come out as 0, and no ring is below that of 0
      have hring : comparedRing host .lt (.fin q) ≤ host.getRingNumber us := by
        rw [comparedRing_eq hconv (hbound.trans (ceil_eq_of_large hlarge heq))]
        exact hmono _ _ (UInt32.le_iff_toNat_le.2 (Nat.zero_le _))
      simp [heq, hring]
  · rename_i hneg hlarge
    obtain ⟨hbelow, habove⟩ := below_sides hconv hmono hq hbound hneg hlarge us
    constructor
    · rintro (⟨h, hge⟩ | ⟨h, hlt⟩)
      · exact ⟨h, le_antisymm (hbelow h) (not_lt.1 (of_decide_eq_false hge))⟩
      · exact absurd (of_decide_eq_true hlt) (habove h).not_gt
    · rintro ⟨h, heq⟩
      exact Or.inl ⟨h, decide_eq_false heq.ge.not_gt⟩

theorem missorted_le : Missorted host .le (.fin q) us ↔ Misplaced host .le (.fin q) us := by
  have hbound := bound_eq_ceil (f := .le) (Or.inr rfl) q
  have hholds : RingFunc.le.holds (.fin q) (toMs us : Binary64) = decide (ms us ≤ q) := by
    rw [toMs_eq]
    rfl
  rw [missorted_below fun _ _ ↦ rfl, Misplaced, hholds, hbound, toMs_eq_fin_iff]
  split
  · rename_i hneg
    simp [lt_ms_of_neg (Or.inr rfl) hneg us]
  split
  · rename_i hlarge
    simp [ms_le_of_large hq hlarge us]
  · rename_i hneg hlarge
    obtain ⟨hbelow, habove⟩ := below_sides hconv hmono hq hbound hneg hlarge us
    refine iff_of_false ?_ id
    rintro (⟨h, hlt⟩ | ⟨h, hle⟩)
    · exact absurd (hbelow h) (of_decide_eq_false hlt)
    · exact absurd (of_decide_eq_true hle) (habove h).not_ge

theorem missorted_iff (f : RingFunc) :
    Missorted host f (.fin q) us ↔ Misplaced host f (.fin q) us :=
  match f with
  | .gt => missorted_gt hconv hmono hq
  | .ge => missorted_ge hconv hmono hq
  | .lt => missorted_lt hconv hmono hq
  | .le => missorted_le hconv hmono hq

end Misplaced

end Doubles

/-! ### Every reachable state -/

/-- What a full scan returns. -/
theorem mem_fullScan {D : Type} [CDouble D] {rs : RingSet} {f : RingFunc} {d : D}
    {e : NodeIdentRendv} : e ∈ fullScan rs f d ↔
      ∃ r, ∃ n ∈ rs.primaryRing r, (∃ us, rs.nodeLatencyUS[n]? = some us ∧
        f.holds d (toMs us) = true) ∧ e = rs.rendvEntry n := by
  rw [fullScan_eq]
  simp only [List.mem_map, List.mem_flatMap, List.mem_finRange, true_and, mem_comparedIdents]
  constructor
  · rintro ⟨n, ⟨r, hn, hus⟩, rfl⟩
    exact ⟨r, n, hn, hus, rfl⟩
  · rintro ⟨r, n, hn, hus, rfl⟩
    exact ⟨n, ⟨r, hn, hus⟩, rfl⟩

/-- **The members that a ring function takes** are those of the full scan, in some order, unless there
is one that is misplaced. -/
theorem outMembers_fullScan_iff [CLibrary] {host : Host Binary64} {q : ℚ}
    (hconv : ∀ z : ℤ, CLibrary.toUInt (.fin z) = castUInt z)
    (hmono : ∀ a b, a ≤ b → host.getRingNumber a ≤ host.getRingNumber b)
    (hinv : Inv host.getRingNumber host.rings) (f : RingFunc) (hq : Binary64.IsDouble q) :
    (outMembers host f (Binary64.fin q)).Perm (fullScan host.rings f (Binary64.fin q)) ↔
      ¬ HasMember host.rings (Misplaced host f (.fin q)) := by
  rw [outMembers_perm_iff hinv, not_iff_not]
  refine exists_congr fun r ↦ exists_congr fun n ↦ and_congr_right fun _ ↦
    exists_congr fun us ↦ and_congr_right fun _ ↦ ?_
  exact missorted_iff hconv hmono hq f

/-- The casts of a machine that reduces modulo 2^32, and a C library that is not asked. -/
@[reducible] def reducing : CLibrary where
  fmod := fun a _ ↦ a
  pow := fun a _ ↦ a
  math := fun _ a ↦ a
  lrint := fun _ ↦ 0
  toInt := fun _ ↦ 0
  toUInt := fun
    | .fin q => castUInt (if 0 ≤ q then ⌊q⌋ else ⌈q⌉)
    | _ => 0

theorem reducing_toUInt (z : ℤ) : reducing.toUInt (.fin z) = castUInt z := by
  show castUInt (if 0 ≤ (z : ℚ) then ⌊(z : ℚ)⌋ else ⌈(z : ℚ)⌉) = _
  rw [Int.floor_intCast, Int.ceil_intCast, ite_self]

end Meridian.MQL

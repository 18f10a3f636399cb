import Mathlib.Analysis.Real.Sqrt
import Meridian.Query.SearchDecision

/-!
# The solution value of a multi-constraint search

`getMaxSolution` and `getAvgSolution` subtract a constraint from a latency in `long long`s, and the
latter squares what is left. A latency and a constraint are 32-bit numbers, so nothing but the square
can be too large: it is for an excess above 3037000499 µs, which is some 51 minutes.

As long as no square overflows, the values grow with the latencies: `solution_wellDefined_iff` says
that this condition is the exact one. `getAvgSolutionExact` is `getAvgSolution` with real numbers in
place of doubles.
-/

namespace Meridian

/-! ### The `long long`s -/

/-- The number is a `long long`. -/
def LongLong (z : ℤ) : Prop := -2 ^ 63 ≤ z ∧ z < 2 ^ 63

/-- By how much a latency misses its constraint, as `getAvgSolution` has it. -/
def excessUS (latencyUS latencyConstMS : UInt32) : ℤ :=
  max 0 ((latencyUS.toNat : ℤ) - constraintUS latencyConstMS)

/-- The `long long`s that `getMaxSolution` works out for a target. -/
def maxSolutionTerms (latencyUS latencyConstMS : UInt32) (subtract : Bool) : List ℤ :=
  [latencyUS.toNat, constraintUS latencyConstMS,
    if subtract then latencyUS.toNat - constraintUS latencyConstMS
    else latencyUS.toNat + constraintUS latencyConstMS]

/-- Those that `getAvgSolution` works out. -/
def avgSolutionTerms (latencyUS latencyConstMS : UInt32) : List ℤ :=
  [latencyUS.toNat, constraintUS latencyConstMS, latencyUS.toNat - constraintUS latencyConstMS,
    excessUS latencyUS latencyConstMS * excessUS latencyUS latencyConstMS]

/-- The targets that the loops get to: those before the first without a latency. -/
def measured (remoteNodes inMap : NodeMap UInt32) : List (NodeIdent × UInt32) :=
  remoteNodes.toList.takeWhile fun e ↦ inMap.contains e.1

/-- No `long long` overflows, in either function. -/
def NoOverflow (remoteNodes inMap : NodeMap UInt32) : Prop :=
  ∀ e ∈ measured remoteNodes inMap, ∀ latencyUS, inMap[e.1]? = some latencyUS →
    (∀ subtract, ∀ z ∈ maxSolutionTerms latencyUS e.2 subtract, LongLong z) ∧
      ∀ z ∈ avgSolutionTerms latencyUS e.2, LongLong z

/-- No latency misses its constraint by more than 3037000499 µs. -/
def SmallExcess (remoteNodes inMap : NodeMap UInt32) : Prop :=
  ∀ e ∈ measured remoteNodes inMap, ∀ latencyUS, inMap[e.1]? = some latencyUS →
    excessUS latencyUS e.2 ≤ 3037000499

theorem excessUS_nonneg (latencyUS latencyConstMS : UInt32) :
    0 ≤ excessUS latencyUS latencyConstMS :=
  le_max_left _ _

theorem excessUS_mono {latencyUS latencyUS' : UInt32} (h : latencyUS ≤ latencyUS')
    (latencyConstMS : UInt32) :
    excessUS latencyUS latencyConstMS ≤ excessUS latencyUS' latencyConstMS := by
  have hnat : (latencyUS.toNat : ℤ) ≤ latencyUS'.toNat := by
    exact_mod_cast UInt32.le_iff_toNat_le.1 h
  exact max_le_max le_rfl (Int.sub_le_sub_right hnat _)

theorem constraintUS_bounds (latencyConstMS : UInt32) :
    0 ≤ constraintUS latencyConstMS ∧ constraintUS latencyConstMS < 2 ^ 42 := by
  have h := latencyConstMS.toNat_lt
  rw [constraintUS]
  omega

/-- A square is a `long long` as long as its root is at most 3037000499. -/
theorem longLong_mul_self_iff {z : ℤ} (hz : 0 ≤ z) : LongLong (z * z) ↔ z ≤ 3037000499 := by
  constructor
  · intro h
    by_contra hgt
    have hsq : 3037000500 * 3037000500 ≤ z * z := mul_self_le_mul_self (by norm_num) (by omega)
    exact absurd (hsq.trans_lt h.2) (by norm_num)
  · intro hle
    have hsq : z * z ≤ 3037000499 * 3037000499 := mul_self_le_mul_self hz hle
    exact ⟨(by norm_num : (-2 ^ 63 : ℤ) ≤ 0).trans (mul_self_nonneg z),
      hsq.trans_lt (by norm_num)⟩

/-- Nothing but the square can overflow. -/
theorem noOverflow_iff (remoteNodes inMap : NodeMap UInt32) :
    NoOverflow remoteNodes inMap ↔ SmallExcess remoteNodes inMap := by
  refine forall_congr' fun e ↦ forall_congr' fun _ ↦ forall_congr' fun latencyUS ↦
    forall_congr' fun _ ↦ ?_
  have hlat := latencyUS.toNat_lt
  have hconst := constraintUS_bounds e.2
  have hsquare := longLong_mul_self_iff (excessUS_nonneg latencyUS e.2)
  constructor
  · intro h
    exact hsquare.1 (h.2 _ (by simp [avgSolutionTerms]))
  · intro hsmall
    refine ⟨fun subtract z hz ↦ ?_, fun z hz ↦ ?_⟩
    · simp only [maxSolutionTerms, List.mem_cons, List.not_mem_nil, or_false] at hz
      rcases hz with rfl | rfl | rfl
      · exact ⟨by omega, by omega⟩
      · exact ⟨by omega, by omega⟩
      · split
        · exact ⟨by omega, by omega⟩
        · exact ⟨by omega, by omega⟩
    · simp only [avgSolutionTerms, List.mem_cons, List.not_mem_nil, or_false] at hz
      rcases hz with rfl | rfl | rfl | rfl
      · exact ⟨by omega, by omega⟩
      · exact ⟨by omega, by omega⟩
      · exact ⟨by omega, by omega⟩
      · exact hsquare.2 hsmall

/-! ### The values -/

/-- The sum of the squares, in real numbers. -/
noncomputable def totalSolutionExact (remoteNodes inMap : NodeMap UInt32) : Option ℝ :=
  remoteNodes.toList.foldlM (fun (total : ℝ) e ↦
    (inMap[e.1]?).map fun latency ↦
      total + ((excessUS latency e.2 * excessUS latency e.2).bmod (2 ^ 64) : ℤ)) 0

/-- A real number as an unsigned integer, cut off and clamped. -/
noncomputable def truncateUint (solution : ℝ) : UInt32 :=
  if (UINT_MAX.toNat : ℝ) < solution then UINT_MAX
  else if solution < 0 then 0
  else UInt32.ofNat ⌊solution⌋₊

/-- `getAvgSolution`, in real numbers. -/
noncomputable def getAvgSolutionExact (remoteNodes inMap : NodeMap UInt32) : Option UInt32 :=
  (totalSolutionExact remoteNodes inMap).map fun total ↦ truncateUint (√total / remoteNodes.size)

/-- Every target is at least as close by the first map as by the second. -/
def CloserToAll (remoteNodes inMap inMap' : NodeMap UInt32) : Prop :=
  ∀ n : NodeIdent, n ∈ remoteNodes → Option.Rel (· ≤ ·) inMap[n]? inMap'[n]?

/-- **Well defined and monotone**: nothing overflows, and a node that is at least as close to every
target scores no worse. -/
structure SolutionWellDefined (remoteNodes inMap : NodeMap UInt32) : Prop where
  noOverflow : NoOverflow remoteNodes inMap
  max_mono : ∀ inMap', CloserToAll remoteNodes inMap' inMap → ∀ subtract,
    Option.Rel (· ≤ ·) (getMaxSolution remoteNodes inMap' subtract)
      (getMaxSolution remoteNodes inMap subtract)
  avg_mono : ∀ inMap', CloserToAll remoteNodes inMap' inMap →
    Option.Rel (· ≤ ·) (getAvgSolutionExact remoteNodes inMap')
      (getAvgSolutionExact remoteNodes inMap)

/-- A loop over the targets with two maps keeps the two accumulators in a relation, if one
iteration does. -/
theorem rel_foldlM {σ : Type} {R : σ → σ → Prop} {inMap inMap' : NodeMap UInt32}
    {f : σ → NodeIdent × UInt32 → UInt32 → σ} : ∀ {l : List (NodeIdent × UInt32)} {x y : σ},
    (∀ e ∈ l, Option.Rel (· ≤ ·) inMap[e.1]? inMap'[e.1]?) →
    (∀ e ∈ l.takeWhile fun e ↦ inMap'.contains e.1, ∀ a b, inMap'[e.1]? = some b → a ≤ b →
      ∀ x y, R x y → R (f x e a) (f y e b)) →
    R x y →
    Option.Rel R (l.foldlM (fun x e ↦ (inMap[e.1]?).map (f x e)) x)
      (l.foldlM (fun y e ↦ (inMap'[e.1]?).map (f y e)) y) := by
  intro l
  induction l with
  | nil => exact fun _ _ h ↦ .some h
  | cons e l ih =>
    intro x y hrel hstep h
    have he := hrel e (List.mem_cons_self ..)
    rw [List.foldlM_cons, List.foldlM_cons]
    generalize hget : inMap[e.1]? = a at he
    generalize hget' : inMap'[e.1]? = b at he
    cases he with
    | none => exact .none
    | some hle =>
      have hmem : inMap'.contains e.1 = true := by
        rw [Std.ExtTreeMap.contains_eq_isSome_getElem?, hget']
        rfl
      rw [List.takeWhile_cons, if_pos hmem] at hstep
      exact ih (fun x hx ↦ hrel x (List.mem_cons_of_mem e hx))
        (fun x hx ↦ hstep x (List.mem_cons_of_mem e hx))
        (hstep e (List.mem_cons_self ..) _ _ hget' hle x y h)

theorem Option.Rel.map {α β : Type} {R : α → α → Prop} {S : β → β → Prop} {f : α → β}
    (hf : ∀ a b, R a b → S (f a) (f b)) {x y : Option α} (h : Option.Rel R x y) :
    Option.Rel S (x.map f) (y.map f) := by
  cases h with
  | some h => exact .some (hf _ _ h)
  | none => exact .none

theorem le_UINT_MAX (x : UInt32) : x ≤ UINT_MAX := by
  have h := x.toNat_lt
  rw [UInt32.le_iff_toNat_le, show UINT_MAX.toNat = 4294967295 from rfl]
  omega

theorem clampUint_mono {a b : ℤ} (h : a ≤ b) : clampUint a ≤ clampUint b := by
  have hmax : UINT_MAX.toNat = 4294967295 := rfl
  rw [clampUint, clampUint]
  split_ifs with ha hb hb hb hb
  · exact UInt32.le_refl _
  · omega
  · omega
  · exact le_UINT_MAX _
  · exact UInt32.le_refl _
  · exact UInt32.zero_le
  · exact le_UINT_MAX _
  · omega
  · rw [UInt32.le_iff_toNat_le, UInt32.toNat_ofNat_of_lt' (by show _ < 4294967296; omega),
      UInt32.toNat_ofNat_of_lt' (by show _ < 4294967296; omega)]
    omega

theorem truncateUint_mono {a b : ℝ} (h : a ≤ b) : truncateUint a ≤ truncateUint b := by
  have hfloor {x : ℝ} (hx : ¬ (UINT_MAX.toNat : ℝ) < x) : ⌊x⌋₊ < 2 ^ 32 := by
    have hle := Nat.floor_mono (not_lt.1 hx)
    rw [Nat.floor_natCast, show UINT_MAX.toNat = 4294967295 from rfl] at hle
    omega
  rw [truncateUint, truncateUint]
  split_ifs with ha hb _ ha₀ hb hb₀ hb
  · exact UInt32.le_refl _
  · exact absurd (ha.trans_le h) hb
  · exact absurd (ha.trans_le h) hb
  · exact le_UINT_MAX _
  · exact UInt32.le_refl _
  · exact UInt32.zero_le
  · exact le_UINT_MAX _
  · exact absurd (h.trans_lt ‹b < 0›) ha₀
  · rw [UInt32.le_iff_toNat_le, UInt32.toNat_ofNat_of_lt' (hfloor ha),
      UInt32.toNat_ofNat_of_lt' (hfloor hb)]
    exact Nat.floor_mono h

/-! ### Monotonicity -/

section Monotone

variable {remoteNodes inMap inMap' : NodeMap UInt32}

theorem CloserToAll.rel (h : CloserToAll remoteNodes inMap' inMap) :
    ∀ e ∈ remoteNodes.toList, Option.Rel (· ≤ ·) inMap'[e.1]? inMap[e.1]? :=
  fun e he ↦ h e.1 (mem_of_mem_toList he)

/-- The largest distance grows with the latencies, in any case. -/
theorem getMaxSolution_mono (h : CloserToAll remoteNodes inMap' inMap) (subtract : Bool) :
    Option.Rel (· ≤ ·) (getMaxSolution remoteNodes inMap' subtract)
      (getMaxSolution remoteNodes inMap subtract) := by
  refine Option.Rel.map (R := (· ≤ ·)) (fun _ _ ↦ clampUint_mono) ?_
  refine rel_foldlM h.rel (fun e _ a b _ hle x y hxy ↦ ?_) le_rfl
  have hnat : (a.toNat : ℤ) ≤ b.toNat := by exact_mod_cast UInt32.le_iff_toNat_le.1 hle
  refine max_le_max hxy ?_
  split
  · exact max_le_max le_rfl (Int.sub_le_sub_right hnat _)
  · exact Int.add_le_add_right hnat _

/-- The square of a small excess is what the `long long`s compute. -/
theorem square_bmod {z : ℤ} (hz : 0 ≤ z) (h : z ≤ 3037000499) :
    (z * z).bmod (2 ^ 64) = z * z := by
  have hfits := (longLong_mul_self_iff hz).2 h
  exact Int.bmod_eq_of_le (by simpa using hfits.1) (by simpa using hfits.2)

/-- The average grows with the latencies, as long as the squares do not overflow. -/
theorem getAvgSolutionExact_mono (hsmall : SmallExcess remoteNodes inMap)
    (h : CloserToAll remoteNodes inMap' inMap) :
    Option.Rel (· ≤ ·) (getAvgSolutionExact remoteNodes inMap')
      (getAvgSolutionExact remoteNodes inMap) := by
  refine Option.Rel.map (R := (· ≤ ·)) (fun total total' hle ↦ truncateUint_mono ?_) ?_
  · exact div_le_div_of_nonneg_right (Real.sqrt_le_sqrt hle) (Nat.cast_nonneg _)
  · refine rel_foldlM h.rel (fun e he a b hget hle x y hxy ↦ add_le_add hxy ?_) le_rfl
    have hb := hsmall e he b hget
    have hab := excessUS_mono hle e.2
    rw [square_bmod (excessUS_nonneg a e.2) (hab.trans hb),
      square_bmod (excessUS_nonneg b e.2) hb]
    exact_mod_cast mul_self_le_mul_self (excessUS_nonneg a e.2) hab

end Monotone

/-- **When the solution value is well defined and monotone**: when no latency misses its constraint
by more than 3037000499 µs. -/
theorem solution_wellDefined_iff (remoteNodes inMap : NodeMap UInt32) :
    SolutionWellDefined remoteNodes inMap ↔ SmallExcess remoteNodes inMap := by
  rw [← noOverflow_iff]
  refine ⟨fun h ↦ h.noOverflow, fun h ↦ ⟨h, fun inMap' hcloser subtract ↦ ?_, fun inMap' hcloser ↦ ?_⟩⟩
  · exact getMaxSolution_mono hcloser subtract
  · exact getAvgSolutionExact_mono ((noOverflow_iff _ _).1 h) hcloser

/-- A map with one entry. -/
def oneLatency (n : NodeIdent) (latencyUS : UInt32) : NodeMap UInt32 :=
  Std.ExtTreeMap.ofList [(n, latencyUS)]

/-- A target without a constraint at 3037000500 µs. -/
theorem solution_overflows :
    ¬ SolutionWellDefined (oneLatency ⟨1, 80⟩ 0) (oneLatency ⟨1, 80⟩ 3037000500) := by
  intro h
  have hmem : ((⟨1, 80⟩, 0) : NodeIdent × UInt32) ∈
      measured (oneLatency ⟨1, 80⟩ 0) (oneLatency ⟨1, 80⟩ 3037000500) := by decide +kernel
  have hfits := (h.noOverflow _ hmem 3037000500 (by decide +kernel)).2
    (3037000500 * 3037000500) (by decide +kernel)
  exact absurd hfits.2 (by norm_num)

end Meridian

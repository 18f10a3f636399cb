import Meridian.RingSetInvariant

/-!
# Looking for members by latency

`fillVector` visits only the rings between those of its two latency bounds. That misses nothing: a
member sits in the ring of its latency (`Inv.mem_ring`), and a monotone `getRingNumber` sends a
latency between the bounds to a ring between theirs.

`fillVectorExact` is `fillVector` with the ratio as an exact rational in place of a double. The two
differ in how the bounds are computed only, and share the scan between them, `fillBetween`.
-/

namespace Meridian.RingSet

variable {getRingNumber : UInt32 → Fin MAX_NUM_RINGS} {rs : RingSet} {n : NodeIdent}
  {lowerBound upperBound : UInt32} {members : NodeMap NodeIdentRendv}

/-- The two loops of `fillVector`, once the bounds are known. -/
def fillBetween (rs : RingSet) (getRingNumber : UInt32 → Fin MAX_NUM_RINGS)
    (lowerBound upperBound : UInt32) (ringMembers : NodeMap NodeIdentRendv) :
    NodeMap NodeIdentRendv :=
  let rings := (List.finRange MAX_NUM_RINGS).filter fun r ↦
    getRingNumber lowerBound ≤ r ∧ r ≤ getRingNumber upperBound
  rings.foldl (fun members r ↦
    (rs.primaryRing r).foldl (rs.fillMember lowerBound upperBound) members) ringMembers

/-- The bounds `fillVector` scans between: the ones computed, or everything if they have been
overtaken by an overflow. -/
def checkBounds (lower upper : UInt32) : UInt32 × UInt32 :=
  if upper < lower then (0, UINT_MAX) else (lower, upper)

/-- An exact number cast to a `u_int`. -/
def castUInt (z : ℤ) : UInt32 := UInt32.ofNat (z % 2 ^ 32).toNat

/-- `fillVector` in exact arithmetic, with its return value. -/
def fillVectorExact (rs : RingSet) (getRingNumber : UInt32 → Fin MAX_NUM_RINGS)
    (minAvgUS maxAvgUS : UInt32) (betaRatio : ℚ) (ringMembers : NodeMap NodeIdentRendv) :
    Int × NodeMap NodeIdentRendv :=
  let beta := if betaRatio ≤ 0 ∨ 1 ≤ betaRatio then 1 / 2 else betaRatio
  let upper := castUInt ⌈(1 + beta) * maxAvgUS.toNat⌉
  let lower := castUInt ⌊(1 - beta) * minAvgUS.toNat⌋
  let (lowerBound, upperBound) := checkBounds lower upper
  (0, rs.fillBetween getRingNumber lowerBound upperBound ringMembers)

/-! ### The scan -/

/-- The latency on record for the node is within the bounds. -/
def InBounds (rs : RingSet) (lowerBound upperBound : UInt32) (n : NodeIdent) : Prop :=
  ∃ latencyUS, rs.nodeLatencyUS[n]? = some latencyUS ∧ lowerBound ≤ latencyUS ∧
    latencyUS ≤ upperBound

/-- To a set of entries exactly those of the nodes with `P` have been added. -/
def Filled (rs : RingSet) (P : NodeIdent → Prop) (members members' : NodeMap NodeIdentRendv) :
    Prop :=
  ∀ n e, members'[n]? = some e ↔
    members[n]? = some e ∨ n ∉ members ∧ P n ∧ e = rs.rendvEntry n

theorem Filled.refl (rs : RingSet) (members : NodeMap NodeIdentRendv) :
    Filled rs (fun _ ↦ False) members members := by
  intro n e
  simp

theorem Filled.mem_iff {P : NodeIdent → Prop} {members' : NodeMap NodeIdentRendv}
    (h : Filled rs P members members') : n ∈ members' ↔ n ∈ members ∨ P n := by
  simp only [Std.ExtTreeMap.mem_iff_isSome_getElem?, Option.isSome_iff_exists, h n]
  constructor
  · rintro ⟨e, he | ⟨-, hP, -⟩⟩
    · exact Or.inl ⟨e, he⟩
    · exact Or.inr hP
  · rintro (⟨e, he⟩ | hP)
    · exact ⟨e, Or.inl he⟩
    · rcases hn : members[n]? with - | e
      · exact ⟨_, Or.inr ⟨by simp, hP, rfl⟩⟩
      · exact ⟨e, Or.inl rfl⟩

theorem Filled.trans {P Q : NodeIdent → Prop} {m₁ m₂ m₃ : NodeMap NodeIdentRendv}
    (h : Filled rs P m₁ m₂) (h' : Filled rs Q m₂ m₃) : Filled rs (fun n ↦ P n ∨ Q n) m₁ m₃ := by
  intro n e
  rw [h' n e, h n e, h.mem_iff]
  by_cases hP : P n <;> by_cases hn : n ∈ m₁ <;> simp [hP, hn]

theorem Filled.congr {P Q : NodeIdent → Prop} {members' : NodeMap NodeIdentRendv}
    (h : Filled rs P members members') (hPQ : ∀ n, P n ↔ Q n) : Filled rs Q members members' := by
  intro n e
  rw [h n e, hPQ n]

theorem filled_fillMember (rs : RingSet) (lowerBound upperBound : UInt32)
    (members : NodeMap NodeIdentRendv) (m : NodeIdent) :
    Filled rs (fun n ↦ n = m ∧ InBounds rs lowerBound upperBound n) members
      (rs.fillMember lowerBound upperBound members m) := by
  rw [fillMember]
  rcases hlat : rs.nodeLatencyUS[m]? with - | cur
  · refine (Filled.refl rs members).congr fun n ↦ ⟨False.elim, ?_⟩
    rintro ⟨rfl, latencyUS, h, -⟩
    rw [hlat] at h
    exact absurd h (by simp)
  · dsimp only
    split
    · rename_i hcur
      intro n e
      rw [Std.ExtTreeMap.getElem?_insertIfNew]
      split
      · rename_i hnew
        obtain ⟨heq, hnew⟩ := hnew
        obtain rfl := Std.LawfulEqCmp.compare_eq_iff_eq.1 heq
        have hnone : members[m]? = none := Std.ExtTreeMap.getElem?_eq_none hnew
        rw [hnone, Option.some.injEq]
        constructor
        · rintro rfl
          exact Or.inr ⟨hnew, ⟨rfl, cur, hlat, hcur.2, hcur.1⟩, rfl⟩
        · rintro (h | ⟨-, -, rfl⟩)
          · exact absurd h (by simp)
          · rfl
      · rename_i hold
        refine ⟨Or.inl, ?_⟩
        rintro (h | ⟨hnew, ⟨rfl, -⟩, -⟩)
        · exact h
        · exact absurd ⟨Std.ReflCmp.compare_self, hnew⟩ hold
    · rename_i hcur
      refine (Filled.refl rs members).congr fun n ↦ ⟨False.elim, ?_⟩
      rintro ⟨rfl, latencyUS, h, hle, hge⟩
      rw [hlat, Option.some.injEq] at h
      exact hcur ⟨h ▸ hge, h ▸ hle⟩

/-- **A scan of a list of members** adds those that are within the bounds. -/
theorem filled_foldl (rs : RingSet) (lowerBound upperBound : UInt32) (l : List NodeIdent) :
    ∀ members, Filled rs (fun n ↦ n ∈ l ∧ InBounds rs lowerBound upperBound n) members
      (l.foldl (rs.fillMember lowerBound upperBound) members) := by
  induction l with
  | nil =>
    intro members
    exact (Filled.refl rs members).congr fun n ↦ by simp
  | cons m l ih =>
    intro members
    refine ((filled_fillMember rs lowerBound upperBound members m).trans (ih _)).congr fun n ↦ ?_
    rw [List.mem_cons, or_and_right]

/-- **A scan of the rings between those of the bounds sees every member within the bounds.** -/
theorem Inv.filled_fillBetween (hinv : Inv getRingNumber rs) 
    (hmono : ∀ a b, a ≤ b → getRingNumber a ≤ getRingNumber b)
    (lowerBound upperBound : UInt32) (members : NodeMap NodeIdentRendv) :
    Filled rs (fun n ↦ (∃ r, n ∈ rs.primaryRing r) ∧ InBounds rs lowerBound upperBound n) members
      (rs.fillBetween getRingNumber lowerBound upperBound members) := by
  have hscan := filled_foldl rs lowerBound upperBound
    (((List.finRange MAX_NUM_RINGS).filter fun r ↦
      getRingNumber lowerBound ≤ r ∧ r ≤ getRingNumber upperBound).flatMap rs.primaryRing) members
  rw [List.foldl_flatMap] at hscan
  refine hscan.congr fun n ↦ and_congr_left fun hbounds ↦ ?_
  rw [List.mem_flatMap]
  constructor
  · rintro ⟨r, -, hr⟩
    exact ⟨r, hr⟩
  · rintro ⟨r, hr⟩
    -- the ring of the member is that of its latency
    obtain ⟨lat, hlat, rfl⟩ := (hinv.mem_ring n r).1 (List.mem_append_left _ hr)
    obtain ⟨lat', hlat', hlower, hupper⟩ := hbounds
    rw [hlat, Option.some.injEq] at hlat'
    subst hlat'
    refine ⟨_, List.mem_filter.2 ⟨List.mem_finRange _, ?_⟩, hr⟩
    simpa using ⟨hmono _ _ hlower, hmono _ _ hupper⟩

/-! ### The bounds -/

theorem castUInt_toNat {z : ℤ} (h₀ : 0 ≤ z) (h : z < 2 ^ 32) : ((castUInt z).toNat : ℤ) = z := by
  have hmod : z % 2 ^ 32 = z := Int.emod_eq_of_lt h₀ h
  rw [castUInt, hmod, UInt32.toNat_ofNat_of_lt' (by show z.toNat < 2 ^ 32; omega)]
  omega

theorem castUInt_le {z : ℤ} {x : UInt32} (h₀ : 0 ≤ z) (h : z < 2 ^ 32) :
    castUInt z ≤ x ↔ z ≤ (x.toNat : ℤ) := by
  have hz := castUInt_toNat h₀ h
  rw [UInt32.le_iff_toNat_le]
  omega

theorem le_castUInt {z : ℤ} {x : UInt32} (h₀ : 0 ≤ z) (h : z < 2 ^ 32) :
    x ≤ castUInt z ↔ (x.toNat : ℤ) ≤ z := by
  have hz := castUInt_toNat h₀ h
  rw [UInt32.le_iff_toNat_le]
  omega

/-- The members the ratio asks for: those with a latency between the two products, rounded
outwards. -/
def Wanted (rs : RingSet) (minAvgUS maxAvgUS : UInt32) (betaRatio : ℚ) (n : NodeIdent) : Prop :=
  ∃ latencyUS, rs.nodeLatencyUS[n]? = some latencyUS ∧
    ⌊(1 - betaRatio) * minAvgUS.toNat⌋ ≤ (latencyUS.toNat : ℤ) ∧
    (latencyUS.toNat : ℤ) ≤ ⌈(1 + betaRatio) * maxAvgUS.toNat⌉

section Bounds

variable {minAvgUS maxAvgUS : UInt32} {betaRatio : ℚ}

/-- Without an overflow the bounds are the two products, and the scan is between them. -/
theorem fillVectorExact_eq (hlow : 0 < betaRatio) (hhigh : betaRatio < 1)
    (hle : minAvgUS ≤ maxAvgUS) (hfit : (1 + betaRatio) * maxAvgUS.toNat ≤ 2 ^ 32 - 1)
    (getRingNumber : UInt32 → Fin MAX_NUM_RINGS) (members : NodeMap NodeIdentRendv) :
    ∃ lower upper, (∀ n, InBounds rs lower upper n ↔ Wanted rs minAvgUS maxAvgUS betaRatio n) ∧
      rs.fillVectorExact getRingNumber minAvgUS maxAvgUS betaRatio members =
        (0, rs.fillBetween getRingNumber lower upper members) := by
  have hmin : (0 : ℚ) ≤ minAvgUS.toNat := Nat.cast_nonneg _
  have hmax : (minAvgUS.toNat : ℚ) ≤ maxAvgUS.toNat :=
    Nat.cast_le.2 (UInt32.le_iff_toNat_le.1 hle)
  have hl₀ : 0 ≤ ⌊(1 - betaRatio) * minAvgUS.toNat⌋ :=
    Int.floor_nonneg.2 (mul_nonneg (by linarith) hmin)
  have hu : ⌈(1 + betaRatio) * maxAvgUS.toNat⌉ ≤ 2 ^ 32 - 1 :=
    Int.ceil_le.2 (by exact_mod_cast hfit)
  have hlu : ⌊(1 - betaRatio) * minAvgUS.toNat⌋ ≤ ⌈(1 + betaRatio) * maxAvgUS.toNat⌉ := by
    have hprod : (1 - betaRatio) * minAvgUS.toNat ≤ (1 + betaRatio) * maxAvgUS.toNat := by
      nlinarith
    have hcast := ((Int.floor_le _).trans hprod).trans (Int.le_ceil _)
    exact_mod_cast hcast
  have hbeta : ¬ (betaRatio ≤ 0 ∨ 1 ≤ betaRatio) := by
    rintro (h | h) <;> linarith
  have hchecked : checkBounds (castUInt ⌊(1 - betaRatio) * minAvgUS.toNat⌋)
      (castUInt ⌈(1 + betaRatio) * maxAvgUS.toNat⌉) =
        (castUInt ⌊(1 - betaRatio) * minAvgUS.toNat⌋,
          castUInt ⌈(1 + betaRatio) * maxAvgUS.toNat⌉) := by
    refine if_neg fun hlt ↦ ?_
    rw [UInt32.lt_iff_toNat_lt] at hlt
    have hlo := castUInt_toNat hl₀ (by omega)
    have hup := castUInt_toNat (hl₀.trans hlu) (by omega)
    omega
  refine ⟨castUInt ⌊(1 - betaRatio) * minAvgUS.toNat⌋,
    castUInt ⌈(1 + betaRatio) * maxAvgUS.toNat⌉, fun n ↦ ?_, ?_⟩
  · refine exists_congr fun lat ↦ and_congr_right fun _ ↦ and_congr ?_ ?_
    · exact castUInt_le hl₀ (by omega)
    · exact le_castUInt (hl₀.trans hlu) (by omega)
  · simp only [fillVectorExact, hbeta, if_false, hchecked]

end Bounds

/-! ### Every reachable state -/

/-- The entry of a node in the answer: its rendavous on record, or none. -/
theorem rendvEntry_eq (rs : RingSet) (n : NodeIdent) :
    rs.rendvEntry n = ⟨n.addr, n.port, ((rs.rendvMapping[n]?).getD ⟨0, 0⟩).addr,
      ((rs.rendvMapping[n]?).getD ⟨0, 0⟩).port.toUInt32⟩ := by
  rw [rendvEntry, rendvLookup]
  cases rs.rendvMapping[n]? <;> rfl

/-- **Selecting candidates by ring is a full scan.** In every state that completed calls lead to,
`fillVector` adds exactly the primary members, of all rings, whose latency lies between the two
products, each with its rendavous; and every primary member it looks at has a latency. -/
theorem fillVector_full_scan (getRingNumber : UInt32 → Fin MAX_NUM_RINGS)
    (hmono : ∀ a b, a ≤ b → getRingNumber a ≤ getRingNumber b)
    (primarySize secondarySize : UInt32) (calls : List Call)
    (hadm : ∀ c ∈ calls, c.Admissible primarySize) (rs : RingSet)
    (hrun : Lib.run (RingSet.step getRingNumber) (new primarySize secondarySize) calls = some rs)
    (betaRatio : ℚ) (hlow : 0 < betaRatio) (hhigh : betaRatio < 1) (minAvgUS maxAvgUS : UInt32)
    (hle : minAvgUS ≤ maxAvgUS) (hfit : (1 + betaRatio) * maxAvgUS.toNat ≤ 2 ^ 32 - 1)
    (members : NodeMap NodeIdentRendv) :
    (∀ n e, (rs.fillVectorExact getRingNumber minAvgUS maxAvgUS betaRatio members).2[n]? = some e ↔
      members[n]? = some e ∨ n ∉ members ∧
        ((∃ r, n ∈ rs.primaryRing r) ∧ Wanted rs minAvgUS maxAvgUS betaRatio n) ∧
        e = ⟨n.addr, n.port, ((rs.rendvMapping[n]?).getD ⟨0, 0⟩).addr,
          ((rs.rendvMapping[n]?).getD ⟨0, 0⟩).port.toUInt32⟩) ∧
      ∀ r, ∀ n ∈ rs.primaryRing r, (rs.nodeLatencyUS[n]?).isSome := by
  have hinv := (sound_of_run hadm hrun).inv
  obtain ⟨lower, upper, hwanted, heq⟩ := fillVectorExact_eq hlow hhigh hle hfit getRingNumber members
  constructor
  · intro n e
    have hfilled := hinv.filled_fillBetween hmono lower upper members
    rw [heq, hfilled n e, rendvEntry_eq]
    simp only [hwanted n]
  · intro r n hn
    obtain ⟨lat, hlat, -⟩ := (hinv.mem_ring n r).1 (List.mem_append_left _ hn)
    rw [hlat]
    rfl

/-- Up to 1 ms, and the rest. -/
def twoRings (us : UInt32) : Fin MAX_NUM_RINGS := if us ≤ 1000 then 0 else 1

theorem twoRings_mono (a b : UInt32) (h : a ≤ b) : twoRings a ≤ twoRings b := by
  rw [twoRings, twoRings]
  split_ifs with ha hb hb
  · exact le_rfl
  · decide
  · exact absurd (UInt32.le_trans h hb) ha
  · exact le_rfl

/-- Members at 500 µs, 1200 µs and 10 µs. From 450 µs to 1350 µs there is one in each ring. -/
theorem fillVector_full_scan_three : ∃ rs : RingSet,
    Lib.run (RingSet.step twoRings) (new 4 0)
      [.insertNodeRendv ⟨1, 1⟩ 500 ⟨9, 9⟩, .insertNode ⟨2, 2⟩ 1200, .insertNode ⟨3, 3⟩ 10] = some rs ∧
    (rs.fillVectorExact twoRings 900 900 (1 / 2) ∅).2[(⟨1, 1⟩ : NodeIdent)]? = some ⟨1, 1, 9, 9⟩ ∧
    (rs.fillVectorExact twoRings 900 900 (1 / 2) ∅).2[(⟨2, 2⟩ : NodeIdent)]? = some ⟨2, 2, 0, 0⟩ ∧
    (rs.fillVectorExact twoRings 900 900 (1 / 2) ∅).2[(⟨3, 3⟩ : NodeIdent)]? = none := by
  obtain ⟨rs, hrun⟩ : ∃ rs : RingSet, Lib.run (RingSet.step twoRings) (new 4 0)
      [.insertNodeRendv ⟨1, 1⟩ 500 ⟨9, 9⟩, .insertNode ⟨2, 2⟩ 1200, .insertNode ⟨3, 3⟩ 10] =
        some rs := ⟨_, rfl⟩
  have hscan := (fillVector_full_scan twoRings twoRings_mono 4 0 _ (by decide) rs hrun (1 / 2)
    (by norm_num) (by norm_num) 900 900 (by decide) (by decide +kernel) ∅).1
  refine ⟨rs, hrun, (hscan _ _).2 (.inr ⟨?_, ⟨⟨0, ?_⟩, 500, ?_, ?_, ?_⟩, ?_⟩),
    (hscan _ _).2 (.inr ⟨?_, ⟨⟨1, ?_⟩, 1200, ?_, ?_, ?_⟩, ?_⟩),
    Option.eq_none_iff_forall_ne_some.2 fun e he ↦ ?_⟩
  case refine_13 =>
    obtain hmem | ⟨-, ⟨-, latencyUS, hlat, hlower, -⟩, -⟩ := (hscan _ _).1 he
    · rw [Std.ExtTreeMap.getElem?_empty] at hmem
      cases hmem
    · obtain rfl : latencyUS = 10 := by
        obtain rfl := Option.some.inj hrun
        exact Option.some.inj (hlat.symm.trans (by decide +kernel))
      exact absurd hlower (by decide +kernel)
  all_goals
    obtain rfl := Option.some.inj hrun
    decide +kernel

/-- When the upper product is a fraction below 2^32 its ceiling is not a `u_int`, and a member of
latency 5 is returned where none below 4294967292 is asked for. -/
theorem fillVector_overflow :
    ¬ ∀ (getRingNumber : UInt32 → Fin MAX_NUM_RINGS),
      (∀ a b, a ≤ b → getRingNumber a ≤ getRingNumber b) →
      ∀ (primarySize secondarySize : UInt32) (calls : List Call),
      (∀ c ∈ calls, c.Admissible primarySize) → ∀ (rs : RingSet),
      Lib.run (RingSet.step getRingNumber) (new primarySize secondarySize) calls = some rs →
      ∀ (betaRatio : ℚ), 0 < betaRatio → betaRatio < 1 → ∀ (minAvgUS maxAvgUS : UInt32),
      minAvgUS ≤ maxAvgUS → (1 + betaRatio) * maxAvgUS.toNat < 2 ^ 32 →
      ∀ n, n ∈ (rs.fillVectorExact getRingNumber minAvgUS maxAvgUS betaRatio ∅).2 ↔
        (∃ r, n ∈ rs.primaryRing r) ∧ Wanted rs minAvgUS maxAvgUS betaRatio n := by
  intro h
  obtain ⟨-, latencyUS, hlat, hlower, -⟩ := (h (fun _ ↦ 0) (fun _ _ _ ↦ Nat.le_refl _) 1 1
    [.insertNode ⟨1, 1⟩ 5] (by decide) _ rfl (3 / 8589934588) (by norm_num)
    (by norm_num) 4294967294 4294967294 (by decide) (by decide +kernel) ⟨1, 1⟩).1
      (by decide +kernel)
  have hfive : latencyUS = 5 := by
    have hget : (some (5 : UInt32)) = some latencyUS := by
      rw [← hlat]
      decide +kernel
    exact (Option.some.inj hget).symm
  subst hfive
  exact absurd hlower (by decide +kernel)

end Meridian.RingSet

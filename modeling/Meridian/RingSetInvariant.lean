import Meridian.RingSet
import Meridian.Lib.Buckets
import Meridian.Lib.Run
import Mathlib.Data.List.Nodup
import Mathlib.Data.List.TakeDrop
import Mathlib.Data.List.Perm.Basic
import Mathlib.Data.List.Perm.Subperm

/-!
# The representation invariant of a `RingSet`

Three containers have to agree about every node: the ring it sits in, the latency map, and the
shape of the two lists of its ring. `Inv` says that they do, ring by ring:

* the two lists of a ring together name no node twice;
* a node sits in a ring **iff** the latency map sends it there, so in particular it sits in at most
  one ring;
* both lists are within their bounds, and the secondary list is used only once the primary one is
  full.

What an operation does to one ring is always one of two things, and each has one lemma here: it
rearranges the members (`Inv.setRing`), or it takes a member out of the ring and of the latency map
(`Removed.inv`). Insertion is removal from the old ring followed by `pushNode`. The frozen flags and
the rendavous map are no part of the invariant.
-/

namespace Meridian.RingSet

variable {getRingNumber : UInt32 → Fin MAX_NUM_RINGS} {rs rs' : RingSet}
  {r : Fin MAX_NUM_RINGS} {n : NodeIdent}

/-- The latency map sends `n` to ring `r`. -/
def Located (getRingNumber : UInt32 → Fin MAX_NUM_RINGS) (rs : RingSet) (n : NodeIdent)
    (r : Fin MAX_NUM_RINGS) : Prop :=
  ∃ latencyUS, rs.nodeLatencyUS[n]? = some latencyUS ∧ getRingNumber latencyUS = r

/-- The representation invariant. -/
structure Inv (getRingNumber : UInt32 → Fin MAX_NUM_RINGS) (rs : RingSet) : Prop where
  nodup : ∀ r, (rs.ring r).Nodup
  mem_ring : ∀ n r, n ∈ rs.ring r ↔ Located getRingNumber rs n r
  prim_le : ∀ r, (rs.primaryRing r).length ≤ rs.primarySize.toNat
  second_le : ∀ r, (rs.secondaryRing r).length ≤ rs.secondarySize.toNat
  filled : ∀ r, rs.secondaryRing r ≠ [] → (rs.primaryRing r).length = rs.primarySize.toNat

/-- The part of the invariant that says where a node is listed. -/
structure Listed (getRingNumber : UInt32 → Fin MAX_NUM_RINGS) (rs : RingSet) : Prop where
  nodup : ∀ r, (rs.ring r).Nodup
  mem_ring : ∀ n r, n ∈ rs.ring r ↔ Located getRingNumber rs n r

theorem Inv.listed (h : Inv getRingNumber rs) : Listed getRingNumber rs := ⟨h.nodup, h.mem_ring⟩

theorem inv_new (getRingNumber : UInt32 → Fin MAX_NUM_RINGS) (primRingSize secondRingSize : UInt32) :
    Inv getRingNumber (new primRingSize secondRingSize) where
  nodup := fun _ ↦ List.nodup_nil
  mem_ring := by simp [new, ring, Located]
  prim_le := by simp [new]
  second_le := by simp [new]
  filled := fun _ h ↦ absurd rfl h

theorem Located.unique {q : Fin MAX_NUM_RINGS} (hr : Located getRingNumber rs n r)
    (hq : Located getRingNumber rs n q) : r = q := by
  obtain ⟨lat, hlat, rfl⟩ := hr
  obtain ⟨lat', hlat', rfl⟩ := hq
  rw [hlat, Option.some.injEq] at hlat'
  rw [hlat']

theorem checkRing_natCast (r : Fin MAX_NUM_RINGS) : checkRing (r : Int) = some r := by
  have hr := r.isLt
  rw [checkRing, dif_pos ⟨by omega, by omega⟩]
  simp

/-! ### Lists: taking one member out -/

theorem eraseSwapBack_perm {l : List NodeIdent} {i : ℕ} (hi : i < l.length) :
    (l[i] :: eraseSwapBack l i).Perm l := by
  have hne : l ≠ [] := by
    rintro rfl
    exact absurd hi (Nat.not_lt_zero i)
  have hlast := List.getLast?_eq_some_getLast hne
  rw [eraseSwapBack, hlast]
  exact Lib.set_getLast_dropLast_perm hi hlast

/-- What erasing from a ring does to its lists, whichever list the member was in. -/
theorem eraseFromRing_spec {prim second prim' second' : List NodeIdent}
    (h : eraseFromRing prim second n = some (prim', second')) :
    (n :: (prim' ++ second')).Perm (prim ++ second) ∧ prim'.length ≤ prim.length ∧
      second'.length ≤ second.length ∧
      (second' ≠ [] → second ≠ [] ∧ prim'.length = prim.length) := by
  unfold eraseFromRing at h
  split at h
  · rename_i i hi
    obtain ⟨hlt, hbeq, -⟩ := List.findIdx?_eq_some_iff_getElem.1 hi
    have hget : prim[i] = n := by simpa using hbeq
    have hperm := eraseSwapBack_perm hlt
    rw [hget] at hperm
    have hlen := hperm.length_eq
    rw [List.length_cons] at hlen
    cases second with
    | nil =>
      simp only [promote, Option.some.injEq, Prod.mk.injEq] at h
      obtain ⟨rfl, rfl⟩ := h
      exact ⟨by simpa using hperm, by omega, Nat.le_refl _, fun hne ↦ absurd rfl hne⟩
    | cons s second =>
      simp only [promote, Option.some.injEq, Prod.mk.injEq] at h
      obtain ⟨rfl, rfl⟩ := h
      refine ⟨?_, ?_, by simp, fun _ ↦ ⟨by simp, ?_⟩⟩
      · rw [List.append_assoc, List.singleton_append, ← List.cons_append]
        exact hperm.append_right _
      · rw [List.length_append, List.length_singleton]
        omega
      · rw [List.length_append, List.length_singleton]
        omega
  · split at h
    · rename_i i hi
      obtain ⟨hlt, hbeq, -⟩ := List.findIdx?_eq_some_iff_getElem.1 hi
      have hget : second[i] = n := by simpa using hbeq
      simp only [Option.some.injEq, Prod.mk.injEq] at h
      obtain ⟨rfl, rfl⟩ := h
      have hlen := List.length_eraseIdx_of_lt hlt
      refine ⟨?_, Nat.le_refl _, by omega, fun _ ↦ ⟨?_, rfl⟩⟩
      · rw [← hget]
        exact List.perm_middle.symm.trans
          ((List.getElem_cons_eraseIdx_perm hlt).append_left prim)
      · rintro rfl
        simp at hlt
    · exact absurd h (by simp)

theorem eraseFromRing_isSome {prim second : List NodeIdent} (h : n ∈ prim ++ second) :
    (eraseFromRing prim second n).isSome := by
  unfold eraseFromRing
  rcases hp : prim.findIdx? (· == n) with - | i
  · rcases hs : second.findIdx? (· == n) with - | j
    · rw [List.findIdx?_eq_none_iff] at hp hs
      rcases List.mem_append.1 h with h | h
      · exact absurd (hp n h) (by simp)
      · exact absurd (hs n h) (by simp)
    · rfl
  · rfl

/-- The front of the queue goes without a promotion, as long as it is not a primary member too. -/
theorem eraseFromRing_front {prim : List NodeIdent} (second : List NodeIdent) (h : n ∉ prim) :
    eraseFromRing prim (n :: second) n = some (prim, second) := by
  have hp : prim.findIdx? (· == n) = none := by
    rw [List.findIdx?_eq_none_iff]
    intro m hm
    simpa using fun heq : m = n ↦ h (heq ▸ hm)
  simp [eraseFromRing, hp, List.findIdx?_cons]

/-! ### Lists: rearranging the members -/

theorem swapLoop_spec (hasRendv : NodeIdent → Bool) (prim second : List NodeIdent) :
    (swapLoop hasRendv prim second).1.length = prim.length ∧
      (swapLoop hasRendv prim second).2.length = second.length ∧
      ((swapLoop hasRendv prim second).1 ++ (swapLoop hasRendv prim second).2).Perm
        (prim ++ second) := by
  fun_induction swapLoop hasRendv prim second with
  | case1 second => exact ⟨rfl, rfl, List.Perm.refl _⟩
  | case2 p prim second hp skipped hspan prim' second' hrec ih =>
    rw [List.span_eq_takeWhile_dropWhile, Prod.mk.injEq] at hspan
    have hsplit : skipped = second := by
      rw [← List.takeWhile_append_dropWhile (p := hasRendv) (l := second), hspan.1, hspan.2,
        List.append_nil]
    rw [hrec] at ih
    obtain ⟨h1, h2, h3⟩ := ih
    have hnil : second' = [] := List.length_eq_zero_iff.1 h2
    subst hsplit hnil
    rw [List.append_nil, List.append_nil] at h3
    exact ⟨by simp [h1], by simp, by simpa using (h3.append_right skipped).cons p⟩
  | case3 p prim second hp skipped s rest hspan prim' second' hrec ih =>
    rw [List.span_eq_takeWhile_dropWhile, Prod.mk.injEq] at hspan
    have hsplit : second = skipped ++ s :: rest := by
      rw [← List.takeWhile_append_dropWhile (p := hasRendv) (l := second), hspan.1, hspan.2]
    rw [hrec] at ih
    obtain ⟨h1, h2, h3⟩ := ih
    subst hsplit
    refine ⟨by simp [h1], by simp [h2], ?_⟩
    -- the two exchanged members come out in front, the skipped ones go to the back
    calc (s :: prim' ++ (skipped ++ p :: second')).Perm
          (s :: p :: (skipped ++ (prim' ++ second'))) := by
          grind
      _ |>.Perm (s :: p :: (skipped ++ (prim ++ rest))) := ((h3.append_left skipped).cons p).cons s
      _ |>.Perm (p :: prim ++ (skipped ++ s :: rest)) := by
          grind
  | case4 p prim second hp prim' second' hrec ih =>
    rw [hrec] at ih
    obtain ⟨h1, h2, h3⟩ := ih
    exact ⟨by simp [h1], h2, h3.cons p⟩

/-! ### One ring of the state -/

@[simp] theorem ring_setRing_self (rs : RingSet) (r : Fin MAX_NUM_RINGS)
    (prim second : List NodeIdent) : (rs.setRing r prim second).ring r = prim ++ second := by
  simp [setRing, ring]

theorem ring_setRing_ne (rs : RingSet) {q : Fin MAX_NUM_RINGS} (hq : q ≠ r)
    (prim second : List NodeIdent) : (rs.setRing r prim second).ring q = rs.ring q := by
  simp [setRing, ring, hq]

theorem Listed.setRing (h : Listed getRingNumber rs) {prim second : List NodeIdent}
    (hperm : (prim ++ second).Perm (rs.ring r)) :
    Listed getRingNumber (rs.setRing r prim second) where
  nodup := by
    intro q
    by_cases hq : q = r
    · subst hq
      rw [ring_setRing_self]
      exact hperm.nodup_iff.2 (h.nodup q)
    · rw [ring_setRing_ne rs hq]
      exact h.nodup q
  mem_ring := by
    intro n q
    by_cases hq : q = r
    · subst hq
      rw [ring_setRing_self, hperm.mem_iff]
      exact h.mem_ring n q
    · rw [ring_setRing_ne rs hq]
      exact h.mem_ring n q

theorem prim_le_setRing (h : ∀ r, (rs.primaryRing r).length ≤ rs.primarySize.toNat)
    {prim second : List NodeIdent} (hprim : prim.length ≤ rs.primarySize.toNat)
    (q : Fin MAX_NUM_RINGS) :
    ((rs.setRing r prim second).primaryRing q).length ≤ rs.primarySize.toNat := by
  by_cases hq : q = r
  · subst hq
    simpa [RingSet.setRing] using hprim
  · simpa [RingSet.setRing, hq] using h q

theorem second_le_setRing (h : ∀ r, (rs.secondaryRing r).length ≤ rs.secondarySize.toNat)
    {prim second : List NodeIdent} (hsecond : second.length ≤ rs.secondarySize.toNat)
    (q : Fin MAX_NUM_RINGS) :
    ((rs.setRing r prim second).secondaryRing q).length ≤ rs.secondarySize.toNat := by
  by_cases hq : q = r
  · subst hq
    simpa [RingSet.setRing] using hsecond
  · simpa [RingSet.setRing, hq] using h q

theorem Inv.filled_setRing (h : Inv getRingNumber rs) {prim second : List NodeIdent}
    (hfilled : second ≠ [] → prim.length = rs.primarySize.toNat) (q : Fin MAX_NUM_RINGS)
    (hne : (rs.setRing r prim second).secondaryRing q ≠ []) :
    ((rs.setRing r prim second).primaryRing q).length = rs.primarySize.toNat := by
  by_cases hq : q = r
  · subst hq
    simp only [RingSet.setRing, Function.update_self] at hne ⊢
    exact hfilled hne
  · simp only [RingSet.setRing, Function.update_of_ne hq] at hne ⊢
    exact h.filled q hne

/-- Rearranging the members of one ring within the bounds. -/
theorem Inv.setRing (h : Inv getRingNumber rs) {prim second : List NodeIdent}
    (hperm : (prim ++ second).Perm (rs.ring r)) (hprim : prim.length ≤ rs.primarySize.toNat)
    (hsecond : second.length ≤ rs.secondarySize.toNat)
    (hfilled : second ≠ [] → prim.length = rs.primarySize.toNat) :
    Inv getRingNumber (rs.setRing r prim second) where
  nodup := (h.listed.setRing hperm).nodup
  mem_ring := (h.listed.setRing hperm).mem_ring
  prim_le := prim_le_setRing h.prim_le hprim
  second_le := second_le_setRing h.second_le hsecond
  filled := h.filled_setRing hfilled

/-! ### Erasing a node -/

/-- What the two-argument `eraseNode` can do to an unfrozen ring that holds the node: the node is
gone from the ring and from the latency map, and everything outside that ring is as before. -/
structure Removed (rs : RingSet) (n : NodeIdent) (r : Fin MAX_NUM_RINGS) (rs' : RingSet) : Prop where
  perm : (n :: rs'.ring r).Perm (rs.ring r)
  prim_le : (rs'.primaryRing r).length ≤ (rs.primaryRing r).length
  second_le : (rs'.secondaryRing r).length ≤ (rs.secondaryRing r).length
  filled : rs'.secondaryRing r ≠ [] →
    rs.secondaryRing r ≠ [] ∧ (rs'.primaryRing r).length = (rs.primaryRing r).length
  prim_ne : ∀ q, q ≠ r → rs'.primaryRing q = rs.primaryRing q
  second_ne : ∀ q, q ≠ r → rs'.secondaryRing q = rs.secondaryRing q
  latency : rs'.nodeLatencyUS = rs.nodeLatencyUS.erase n
  frozen : rs'.ringFrozen = rs.ringFrozen
  primarySize : rs'.primarySize = rs.primarySize
  secondarySize : rs'.secondarySize = rs.secondarySize

theorem Removed.ring_ne {q : Fin MAX_NUM_RINGS} (h : Removed rs n r rs') (hq : q ≠ r) :
    rs'.ring q = rs.ring q := by
  rw [ring, ring, h.prim_ne q hq, h.second_ne q hq]

theorem Removed.not_located (h : Removed rs n r rs') (q : Fin MAX_NUM_RINGS) :
    ¬ Located getRingNumber rs' n q := by
  rintro ⟨lat, hlat, -⟩
  rw [h.latency, Std.ExtTreeMap.getElem?_erase_self] at hlat
  exact absurd hlat (by simp)

theorem Removed.located_of_ne {m : NodeIdent} {q : Fin MAX_NUM_RINGS} (h : Removed rs n r rs')
    (hm : m ≠ n) : Located getRingNumber rs' m q ↔ Located getRingNumber rs m q := by
  simp only [Located, h.latency, Lib.getElem?_erase_of_ne hm]

theorem Removed.listed (h : Removed rs n r rs') (hlisted : Listed getRingNumber rs) :
    Listed getRingNumber rs' := by
  have hnd : (n :: rs'.ring r).Nodup := h.perm.nodup_iff.2 (hlisted.nodup r)
  have hmem : n ∈ rs.ring r := h.perm.subset (List.mem_cons_self ..)
  have hloc := (hlisted.mem_ring n r).1 hmem
  constructor
  case nodup =>
    intro q
    by_cases hq : q = r
    · subst hq
      exact (List.nodup_cons.1 hnd).2
    · rw [h.ring_ne hq]
      exact hlisted.nodup q
  case mem_ring =>
    intro m q
    by_cases hm : m = n
    · subst hm
      refine iff_of_false ?_ (h.not_located q)
      by_cases hq : q = r
      · subst hq
        exact (List.nodup_cons.1 hnd).1
      · rw [h.ring_ne hq, hlisted.mem_ring]
        exact fun hl ↦ hq (hl.unique hloc)
    · rw [h.located_of_ne hm, ← hlisted.mem_ring]
      by_cases hq : q = r
      · subst hq
        rw [← h.perm.mem_iff, List.mem_cons, or_iff_right hm]
      · rw [h.ring_ne hq]

/-- **Erasing keeps the invariant.** -/
theorem Removed.inv (h : Removed rs n r rs') (hinv : Inv getRingNumber rs) :
    Inv getRingNumber rs' := by
  constructor
  case nodup => exact (h.listed hinv.listed).nodup
  case mem_ring => exact (h.listed hinv.listed).mem_ring
  case prim_le =>
    intro q
    rw [h.primarySize]
    by_cases hq : q = r
    · subst hq
      exact Nat.le_trans h.prim_le (hinv.prim_le q)
    · rw [h.prim_ne q hq]
      exact hinv.prim_le q
  case second_le =>
    intro q
    rw [h.secondarySize]
    by_cases hq : q = r
    · subst hq
      exact Nat.le_trans h.second_le (hinv.second_le q)
    · rw [h.second_ne q hq]
      exact hinv.second_le q
  case filled =>
    intro q hne
    rw [h.primarySize]
    by_cases hq : q = r
    · subst hq
      obtain ⟨hne', hlen⟩ := h.filled hne
      rw [hlen]
      exact hinv.filled q hne'
    · rw [h.second_ne q hq] at hne
      rw [h.prim_ne q hq]
      exact hinv.filled q hne

/-- The state of an `eraseNode` whose effect on the two lists of the ring is known. -/
theorem removed_of_eraseFromRing {prim second : List NodeIdent} (hf : rs.ringFrozen r = false)
    (h : eraseFromRing (rs.primaryRing r) (rs.secondaryRing r) n = some (prim, second)) :
    ∃ rs', rs.eraseNodeAssert n r = some rs' ∧ Removed rs n r rs' ∧ rs'.primaryRing r = prim ∧
      rs'.secondaryRing r = second := by
  obtain ⟨hperm, hprim, hsecond, hfilled⟩ := eraseFromRing_spec h
  have heq : rs.eraseNodeAssert n r = some
      { rs.setRing r prim second with
        nodeLatencyUS := rs.nodeLatencyUS.erase n
        rendvMapping := rs.rendvMapping.erase n } := by
    simp [eraseNodeAssert, eraseNodeRing, hf, h]
  refine ⟨_, heq, ⟨?_, ?_, ?_, ?_, ?_, ?_, rfl, rfl, rfl, rfl⟩, by simp [RingSet.setRing],
    by simp [RingSet.setRing]⟩
  · simpa [ring, RingSet.setRing] using hperm
  · simpa [RingSet.setRing] using hprim
  · simpa [RingSet.setRing] using hsecond
  · simpa [RingSet.setRing] using hfilled
  · intro q hq
    simp [RingSet.setRing, hq]
  · intro q hq
    simp [RingSet.setRing, hq]

/-- The assertion behind `eraseNode` holds: a member of an unfrozen ring is found there. -/
theorem eraseNodeAssert_of_mem (hf : rs.ringFrozen r = false) (hmem : n ∈ rs.ring r) :
    ∃ rs', rs.eraseNodeAssert n r = some rs' ∧ Removed rs n r rs' := by
  obtain ⟨⟨prim, second⟩, h⟩ := Option.isSome_iff_exists.1 (eraseFromRing_isSome hmem)
  obtain ⟨rs', hrs', hrem, -⟩ := removed_of_eraseFromRing hf h
  exact ⟨rs', hrs', hrem⟩

/-- The two-argument `eraseNode` finds the node in the ring and removes it, or changes nothing. -/
theorem eraseNodeRing_cases (rs : RingSet) (n : NodeIdent) (r : Fin MAX_NUM_RINGS) :
    (rs.eraseNodeRing n r).2 = rs ∨ Removed rs n r (rs.eraseNodeRing n r).2 := by
  rcases hf : rs.ringFrozen r with - | -
  · rcases herase : eraseFromRing (rs.primaryRing r) (rs.secondaryRing r) n with - | ⟨prim, second⟩
    · exact .inl (by simp [eraseNodeRing, hf, herase])
    · obtain ⟨rs', hassert, hrem, -⟩ := removed_of_eraseFromRing hf herase
      rw [eraseNodeAssert] at hassert
      split at hassert
      · exact absurd hassert (by simp)
      · exact .inr (Option.some.inj hassert ▸ hrem)
  · exact .inl (by simp [eraseNodeRing, hf])

theorem eraseNodeAssert_frozen (hf : rs.ringFrozen r = true) :
    rs.eraseNodeAssert n r = some rs := by
  simp [eraseNodeAssert, eraseNodeRing, hf]

/-- **The one-argument `eraseNode` completes and keeps the invariant.** -/
theorem Inv.eraseNode (h : Inv getRingNumber rs) (n : NodeIdent) :
    ∃ res, rs.eraseNode getRingNumber n = some res ∧ Inv getRingNumber res.2 := by
  rw [RingSet.eraseNode]
  rcases hlat : rs.nodeLatencyUS[n]? with - | lat
  · exact ⟨_, rfl, h⟩
  · have hmem : n ∈ rs.ring (getRingNumber lat) := (h.mem_ring n _).2 ⟨lat, hlat, rfl⟩
    rcases hf : rs.ringFrozen (getRingNumber lat) with - | -
    · obtain ⟨rs', hrs', hrem⟩ := eraseNodeAssert_of_mem hf hmem
      exact ⟨(0, rs'), by simp [hrs'], hrem.inv h⟩
    · exact ⟨(0, rs), by simp [eraseNodeAssert_frozen hf], h⟩

/-! ### Inserting a node -/

/-- Adding one member to one list of a ring, next to its entry in the latency map. -/
theorem Listed.store {latencyUS : UInt32} {prim second : List NodeIdent}
    (h : Listed getRingNumber rs) (hnew : ∀ q, ¬ Located getRingNumber rs n q)
    (hperm : (prim ++ second).Perm (n :: rs.ring (getRingNumber latencyUS))) :
    Listed getRingNumber { rs.setRing (getRingNumber latencyUS) prim second with
      nodeLatencyUS := rs.nodeLatencyUS.insert n latencyUS } := by
  set r := getRingNumber latencyUS with hr
  have hloc : ∀ m q, Located getRingNumber { rs.setRing r prim second with
      nodeLatencyUS := rs.nodeLatencyUS.insert n latencyUS } m q ↔
      (m = n ∧ q = r) ∨ Located getRingNumber rs m q := by
    intro m q
    by_cases hm : m = n
    · subst hm
      simp only [Located, Std.ExtTreeMap.getElem?_insert_self, Option.some.injEq, exists_eq_left',
        ← hr, true_and]
      exact ⟨fun h ↦ Or.inl h.symm, fun h ↦ h.elim Eq.symm fun hl ↦ absurd hl (hnew q)⟩
    · simp only [Located, Lib.getElem?_insert_of_ne hm, hm, false_and, false_or]
  have hnot : ∀ q, n ∉ rs.ring q := fun q hq ↦ hnew q ((h.mem_ring n q).1 hq)
  constructor
  case nodup =>
    intro q
    change ((rs.setRing r prim second).ring q).Nodup
    by_cases hq : q = r
    · subst hq
      rw [ring_setRing_self, hperm.nodup_iff, List.nodup_cons]
      exact ⟨hnot _, h.nodup _⟩
    · rw [ring_setRing_ne rs hq]
      exact h.nodup q
  case mem_ring =>
    intro m q
    rw [hloc, ← h.mem_ring]
    change m ∈ (rs.setRing r prim second).ring q ↔ _
    by_cases hq : q = r
    · subst hq
      rw [ring_setRing_self, hperm.mem_iff, List.mem_cons]
      exact or_congr_left ⟨fun h ↦ ⟨h, rfl⟩, And.left⟩
    · rw [ring_setRing_ne rs hq, or_iff_right fun h ↦ hq h.2]

theorem Inv.store {latencyUS : UInt32} {prim second : List NodeIdent} (h : Inv getRingNumber rs)
    (hnew : ∀ q, ¬ Located getRingNumber rs n q)
    (hperm : (prim ++ second).Perm (n :: rs.ring (getRingNumber latencyUS)))
    (hprim : prim.length ≤ rs.primarySize.toNat)
    (hsecond : second.length ≤ rs.secondarySize.toNat)
    (hfilled : second ≠ [] → prim.length = rs.primarySize.toNat) :
    Inv getRingNumber { rs.setRing (getRingNumber latencyUS) prim second with
      nodeLatencyUS := rs.nodeLatencyUS.insert n latencyUS } := by
  set r := getRingNumber latencyUS with hr
  constructor
  case nodup => exact (h.listed.store hnew hperm).nodup
  case mem_ring => exact (h.listed.store hnew hperm).mem_ring
  case prim_le => exact @prim_le_setRing _ _ h.prim_le prim second hprim
  case second_le => exact @second_le_setRing _ _ h.second_le prim second hsecond
  case filled => exact h.filled_setRing hfilled

/-- **`pushNode` keeps the invariant**, for a node that is in no ring yet. It does not complete only
if there is no room at all: the front of an empty queue is asked for. -/
theorem Inv.pushNode_cases {latencyUS : UInt32} (h : Inv getRingNumber rs)
    (hnew : ∀ q, ¬ Located getRingNumber rs n q)
    (hf : rs.ringFrozen (getRingNumber latencyUS) = false) :
    (rs.secondarySize.toNat = 0 ∧ rs.pushNode getRingNumber n latencyUS = none) ∨
      ∃ rs', rs.pushNode getRingNumber n latencyUS = some rs' ∧ Inv getRingNumber rs' := by
  set r := getRingNumber latencyUS with hr
  have hprim := h.prim_le r
  have hsecond := h.second_le r
  rw [RingSet.pushNode, ← hr]
  by_cases hroom : (rs.primaryRing r).length < rs.primarySize.toNat
  · rw [if_pos hroom]
    have hnil : rs.secondaryRing r = [] := by
      by_contra hne
      exact absurd (h.filled r hne) (Nat.ne_of_lt hroom)
    refine Or.inr ⟨_, rfl, h.store hnew ?_ ?_ hsecond fun hne ↦ absurd hnil hne⟩
    · rw [List.append_assoc]
      exact List.perm_middle
    · rw [List.length_append, List.length_singleton]
      omega
  · have hfull : (rs.primaryRing r).length = rs.primarySize.toNat := by omega
    rw [if_neg hroom]
    by_cases hover : rs.secondarySize.toNat ≤ (rs.secondaryRing r).length
    · rw [if_pos hover]
      rcases hs : rs.secondaryRing r with - | ⟨oldest, rest⟩
      · rw [hs] at hover
        exact Or.inl ⟨Nat.le_zero.1 hover, rfl⟩
      · -- the oldest secondary member is evicted; the primary ring stays full
        have hnd := h.nodup r
        rw [ring, hs] at hnd
        have hprim' : oldest ∉ rs.primaryRing r := fun hm ↦
          (List.nodup_append.1 hnd).2.2 oldest hm oldest (List.mem_cons_self ..) rfl
        have herase := eraseFromRing_front rest hprim'
        rw [← hs] at herase
        obtain ⟨rs', hrs', hrem, hp', hs'⟩ := removed_of_eraseFromRing hf herase
        have hnew' : ∀ q, ¬ Located getRingNumber rs' n q := by
          intro q hl
          by_cases hne : n = oldest
          · exact hrem.not_located q (hne ▸ hl)
          · exact hnew q ((hrem.located_of_ne hne).1 hl)
        simp only [hrs', Option.map_some]
        refine Or.inr ⟨_, rfl, (hrem.inv h).store hnew' ?_ ?_ ?_ fun _ ↦ ?_⟩
        · rw [← List.append_assoc]
          exact List.perm_append_singleton n _
        · rw [hp', hrem.primarySize]
          exact hprim
        · rw [hs', List.length_append, List.length_singleton, hrem.secondarySize]
          rw [hs, List.length_cons] at hsecond
          exact hsecond
        · rw [hp', hrem.primarySize, hfull]
    · rw [if_neg hover]
      refine Or.inr ⟨_, rfl, h.store hnew ?_ hprim ?_ fun _ ↦ hfull⟩
      · rw [← List.append_assoc]
        exact List.perm_append_singleton n _
      · rw [List.length_append, List.length_singleton]
        omega

theorem Inv.storeRendv (h : Inv getRingNumber rs) (n rend : NodeIdent) :
    Inv getRingNumber (rs.storeRendv n rend) := by
  rw [RingSet.storeRendv]
  split
  · exact ⟨h.nodup, h.mem_ring, h.prim_le, h.second_le, h.filled⟩
  · exact h

@[simp] theorem storeRendv_secondarySize (rs : RingSet) (n rend : NodeIdent) :
    (rs.storeRendv n rend).secondarySize = rs.secondarySize := by
  rw [RingSet.storeRendv]
  split <;> rfl

/-- **`insertNode` keeps the invariant**, and completes unless there is no room at all. -/
theorem Inv.insertNodeRendv_cases (h : Inv getRingNumber rs) (n : NodeIdent) (latencyUS : UInt32)
    (rend : NodeIdent) :
    (rs.secondarySize.toNat = 0 ∧ rs.insertNodeRendv getRingNumber n latencyUS rend = none) ∨
      ∃ rs', rs.insertNodeRendv getRingNumber n latencyUS rend = some rs' ∧
        Inv getRingNumber rs' := by
  rw [RingSet.insertNodeRendv, ← storeRendv_secondarySize rs n rend]
  replace h := h.storeRendv n rend
  generalize rs.storeRendv n rend = rs at h ⊢
  rcases hf : rs.ringFrozen (getRingNumber latencyUS) with - | -
  · rcases hprev : rs.nodeLatencyUS[n]? with - | prev
    · have hnew : ∀ q, ¬ Located getRingNumber rs n q := by
        rintro q ⟨lat, hlat, -⟩
        rw [hprev] at hlat
        exact absurd hlat (by simp)
      simpa using h.pushNode_cases hnew hf
    · by_cases hsame : getRingNumber prev = getRingNumber latencyUS
      · -- the node stays where it is and only its latency changes, within one ring
        refine Or.inr ⟨{ rs with nodeLatencyUS := rs.nodeLatencyUS.insert n latencyUS },
          by simp [hsame], h.nodup, fun m q ↦ (h.mem_ring m q).trans ?_, h.prim_le,
          h.second_le, h.filled⟩
        by_cases hm : m = n
        · subst hm
          simp [Located, hprev, hsame]
        · simp only [Located, Lib.getElem?_insert_of_ne hm]
      · rcases hf' : rs.ringFrozen (getRingNumber prev) with - | -
        · have hmem : n ∈ rs.ring (getRingNumber prev) := (h.mem_ring n _).2 ⟨prev, hprev, rfl⟩
          obtain ⟨rs', hrs', hrem⟩ := eraseNodeAssert_of_mem hf' hmem
          have hf'' : rs'.ringFrozen (getRingNumber latencyUS) = false := by
            rw [hrem.frozen]
            exact hf
          rw [← hrem.secondarySize]
          simpa [hsame, hf', hrs'] using
            (hrem.inv h).pushNode_cases (hrem.not_located ·) hf''
        · exact Or.inr ⟨rs, by simp [hsame, hf'], h⟩
  · exact Or.inr ⟨rs, by simp, h⟩

/-- **`insertNode` completes and keeps the invariant** when there is room. -/
theorem Inv.insertNodeRendv (h : Inv getRingNumber rs) (hsize : 1 ≤ rs.secondarySize.toNat)
    (n : NodeIdent) (latencyUS : UInt32) (rend : NodeIdent) :
    ∃ rs', rs.insertNodeRendv getRingNumber n latencyUS rend = some rs' ∧
      Inv getRingNumber rs' := by
  refine (h.insertNodeRendv_cases n latencyUS rend).resolve_left fun hnone ↦ ?_
  have hzero := hnone.1
  omega

/-- A call of `insertNode` that has completed has kept the invariant. -/
theorem Inv.of_insertNodeRendv (h : Inv getRingNumber rs) {latencyUS : UInt32} {rend : NodeIdent}
    (hstep : rs.insertNodeRendv getRingNumber n latencyUS rend = some rs') :
    Inv getRingNumber rs' := by
  rcases h.insertNodeRendv_cases n latencyUS rend with ⟨-, hnone⟩ | ⟨_, hsome, hinv⟩
  · rw [hnone] at hstep
    exact absurd hstep (by simp)
  · rw [hsome, Option.some.injEq] at hstep
    exact hstep ▸ hinv

/-! ### Frozen rings -/

/-- The flags are as before, and so are the lists of every ring that is frozen. -/
structure FrozenKept (rs rs' : RingSet) : Prop where
  frozen : rs'.ringFrozen = rs.ringFrozen
  primary : ∀ r, rs.ringFrozen r = true → rs'.primaryRing r = rs.primaryRing r
  secondary : ∀ r, rs.ringFrozen r = true → rs'.secondaryRing r = rs.secondaryRing r

theorem FrozenKept.refl (rs : RingSet) : FrozenKept rs rs :=
  ⟨rfl, fun _ _ ↦ rfl, fun _ _ ↦ rfl⟩

theorem FrozenKept.trans {rs'' : RingSet} (h : FrozenKept rs rs') (h' : FrozenKept rs' rs'') :
    FrozenKept rs rs'' where
  frozen := h'.frozen.trans h.frozen
  primary := fun r hr ↦ (h'.primary r (h.frozen ▸ hr)).trans (h.primary r hr)
  secondary := fun r hr ↦ (h'.secondary r (h.frozen ▸ hr)).trans (h.secondary r hr)

theorem FrozenKept.ring (h : FrozenKept rs rs') (hr : rs.ringFrozen r = true) :
    rs'.ring r = rs.ring r := by
  rw [RingSet.ring, RingSet.ring, h.primary r hr, h.secondary r hr]

/-- Both lists of an unfrozen ring may be replaced, and the two maps. -/
theorem frozenKept_setRing (hf : rs.ringFrozen r = false) (prim second : List NodeIdent)
    (lat : NodeMap UInt32) (rendv : NodeMap NodeIdent) :
    FrozenKept rs
      { rs.setRing r prim second with nodeLatencyUS := lat, rendvMapping := rendv } := by
  refine ⟨rfl, fun q hq ↦ ?_, fun q hq ↦ ?_⟩
  all_goals
    have hne : q ≠ r := by
      rintro rfl
      rw [hf] at hq
      exact absurd hq (by simp)
    simp [RingSet.setRing, hne]

/-- The two-argument `eraseNode` leaves a frozen ring alone. -/
theorem eraseNodeAssert_frozenKept (h : rs.eraseNodeAssert n r = some rs') :
    FrozenKept rs rs' := by
  rw [eraseNodeAssert] at h
  split at h
  · exact absurd h (by simp)
  · rw [← Option.some.inj h, eraseNodeRing]
    split
    · exact FrozenKept.refl rs
    · rename_i hf
      split
      · exact FrozenKept.refl rs
      · exact frozenKept_setRing (by simpa using hf) _ _ _ _

theorem eraseNode_frozenKept {res : Int × RingSet} (h : rs.eraseNode getRingNumber n = some res) :
    FrozenKept rs res.2 := by
  rw [RingSet.eraseNode] at h
  split at h
  · exact Option.some.inj h ▸ FrozenKept.refl rs
  · obtain ⟨rs', herase, rfl⟩ := Option.map_eq_some_iff.1 h
    exact eraseNodeAssert_frozenKept herase

theorem pushNode_frozenKept {latencyUS : UInt32}
    (hf : rs.ringFrozen (getRingNumber latencyUS) = false)
    (h : rs.pushNode getRingNumber n latencyUS = some rs') : FrozenKept rs rs' := by
  simp only [RingSet.pushNode] at h
  split_ifs at h
  · exact Option.some.inj h ▸ frozenKept_setRing hf _ _ _ _
  · split at h
    · exact absurd h (by simp)
    · obtain ⟨rs'', herase, rfl⟩ := Option.map_eq_some_iff.1 h
      have hkept := eraseNodeAssert_frozenKept herase
      have hf'' : rs''.ringFrozen (getRingNumber latencyUS) = false := by
        rw [hkept.frozen]
        exact hf
      exact hkept.trans (frozenKept_setRing hf'' _ _ _ _)
  · exact Option.some.inj h ▸ frozenKept_setRing hf _ _ _ _

theorem storeRendv_frozenKept (rs : RingSet) (n rend : NodeIdent) :
    FrozenKept rs (rs.storeRendv n rend) := by
  rw [RingSet.storeRendv]
  split <;> exact ⟨rfl, fun _ _ ↦ rfl, fun _ _ ↦ rfl⟩

/-- **`insertNode` changes no frozen ring**, neither by putting the node there nor by taking it out
of one. -/
theorem insertNodeRendv_frozenKept {latencyUS : UInt32} {rend : NodeIdent}
    (h : rs.insertNodeRendv getRingNumber n latencyUS rend = some rs') : FrozenKept rs rs' := by
  refine (storeRendv_frozenKept rs n rend).trans ?_
  rw [RingSet.insertNodeRendv] at h
  generalize rs.storeRendv n rend = rs at h ⊢
  split at h
  · exact Option.some.inj h ▸ FrozenKept.refl rs
  rename_i hf
  split at h
  · exact pushNode_frozenKept (by simpa using hf) h
  dsimp only at h
  split at h
  · exact Option.some.inj h ▸ ⟨rfl, fun _ _ ↦ rfl, fun _ _ ↦ rfl⟩
  split at h
  · exact Option.some.inj h ▸ FrozenKept.refl rs
  · obtain ⟨rs'', herase, hpush⟩ := Option.bind_eq_some_iff.1 h
    have hkept := eraseNodeAssert_frozenKept herase
    refine hkept.trans (pushNode_frozenKept ?_ hpush)
    rw [hkept.frozen]
    simpa using hf

/-- The rings other than `r` are as before. -/
def OthersKept (r : Fin MAX_NUM_RINGS) (rs rs' : RingSet) : Prop :=
  ∀ k, k ≠ r → rs'.primaryRing k = rs.primaryRing k ∧ rs'.secondaryRing k = rs.secondaryRing k

theorem OthersKept.refl (r : Fin MAX_NUM_RINGS) (rs : RingSet) : OthersKept r rs rs :=
  fun _ _ ↦ ⟨rfl, rfl⟩

theorem OthersKept.trans {rs'' : RingSet} (h : OthersKept r rs rs') (h' : OthersKept r rs' rs'') :
    OthersKept r rs rs'' :=
  fun k hk ↦ ⟨(h' k hk).1.trans (h k hk).1, (h' k hk).2.trans (h k hk).2⟩

theorem OthersKept.ring {k : Fin MAX_NUM_RINGS} (h : OthersKept r rs rs') (hk : k ≠ r) :
    rs'.ring k = rs.ring k := by
  rw [RingSet.ring, RingSet.ring, (h k hk).1, (h k hk).2]

theorem Removed.othersKept (h : Removed rs n r rs') : OthersKept r rs rs' :=
  fun k hk ↦ ⟨h.prim_ne k hk, h.second_ne k hk⟩

theorem othersKept_setRing (rs : RingSet) (r : Fin MAX_NUM_RINGS) (prim second : List NodeIdent) :
    OthersKept r rs (rs.setRing r prim second) :=
  fun k hk ↦ ⟨by simp [RingSet.setRing, hk], by simp [RingSet.setRing, hk]⟩

/-! ### Replacing members -/

/-- All that `eligibleForReplacement` does: a swap between the two lists of a ring whose primary one
is full. -/
theorem eligibleForReplacement_cases {ringNum : Int} {res : Bool × RingSet}
    (hres : rs.eligibleForReplacement ringNum = some res) :
    res.2 = rs ∨ ∃ r, rs.isPrimRingFull r = true ∧ res.2 = rs.setRing r
      (swapLoop (fun n ↦ (rs.rendvLookup n).isSome) (rs.primaryRing r) (rs.secondaryRing r)).1
      (swapLoop (fun n ↦ (rs.rendvLookup n).isSome) (rs.primaryRing r) (rs.secondaryRing r)).2 := by
  unfold RingSet.eligibleForReplacement at hres
  split at hres
  · exact absurd hres (by simp)
  split at hres
  · exact .inl ((Option.some.inj hres) ▸ rfl)
  rename_i r _
  split at hres
  · exact .inl ((Option.some.inj hres) ▸ rfl)
  split at hres
  · rename_i hready
    split at hres
    · exact .inl ((Option.some.inj hres) ▸ rfl)
    split at hres
    · exact .inr ⟨r, (Bool.and_eq_true_iff.1 hready).1, (Option.some.inj hres) ▸ rfl⟩
    · exact .inl ((Option.some.inj hres) ▸ rfl)
  · exact .inl ((Option.some.inj hres) ▸ rfl)

/-- **`eligibleForReplacement` keeps the invariant**: its swap only rearranges one ring. -/
theorem Inv.eligibleForReplacement (h : Inv getRingNumber rs) {ringNum : Int}
    {res : Bool × RingSet} (hres : rs.eligibleForReplacement ringNum = some res) :
    Inv getRingNumber res.2 := by
  rcases eligibleForReplacement_cases hres with heq | ⟨r, hfull, heq⟩
  · rwa [heq]
  · obtain ⟨h1, h2, h3⟩ := swapLoop_spec (fun n ↦ (rs.rendvLookup n).isSome)
      (rs.primaryRing r) (rs.secondaryRing r)
    rw [heq]
    refine h.setRing h3 ?_ ?_ fun _ ↦ ?_
    · rw [h1]
      exact h.prim_le r
    · rw [h2]
      exact h.second_le r
    · rw [h1]
      exact beq_iff_eq.1 hfull

/-- Apart from the invariant: the rendavous map is not written, and no ring gains or loses a member.
-/
theorem eligibleForReplacement_perm {ringNum : Int} {res : Bool × RingSet}
    (hres : rs.eligibleForReplacement ringNum = some res) :
    res.2.rendvMapping = rs.rendvMapping ∧ ∀ k, (res.2.ring k).Perm (rs.ring k) := by
  rcases eligibleForReplacement_cases hres with heq | ⟨r, -, heq⟩
  · rw [heq]
    exact ⟨rfl, fun _ ↦ List.Perm.refl _⟩
  · rw [heq]
    refine ⟨rfl, fun k ↦ ?_⟩
    rcases eq_or_ne k r with rfl | hk
    · rw [ring_setRing_self]
      exact (swapLoop_spec _ (rs.primaryRing k) (rs.secondaryRing k)).2.2
    · rw [ring_setRing_ne rs hk]

/-- The two vectors have the right sizes and consist of members of the ring. -/
structure MembersOnly (rs : RingSet) (r : Fin MAX_NUM_RINGS) (primRing secondRing : List NodeIdent) :
    Prop where
  prim_le : primRing.length ≤ rs.primarySize.toNat
  second_le : secondRing.length ≤ rs.secondarySize.toNat
  length : primRing.length + secondRing.length = (rs.ring r).length
  mem : ∀ n ∈ primRing ++ secondRing, n ∈ rs.ring r

theorem memberSet_size (h : (rs.ring r).Nodup) : (rs.memberSet r).size = (rs.ring r).length := by
  refine Std.ExtTreeSet.size_ofList (h.imp fun {a b} hne ↦ ?_)
  simpa using hne

theorem contains_memberSet : (rs.memberSet r).contains n = true ↔ n ∈ rs.ring r := by
  rw [memberSet, Std.ExtTreeSet.contains_ofList]
  simp

/-- What is checked. -/
theorem setRingMembers_eq {ringNum : Int} (primRing secondRing : List NodeIdent)
    (hnd : (rs.ring r).Nodup) (hr : checkRing ringNum = some r) :
    (MembersOnly rs r primRing secondRing ∧ rs.setRingMembers ringNum primRing secondRing =
        (0, rs.setRing r primRing secondRing)) ∨
      (¬ MembersOnly rs r primRing secondRing ∧
        rs.setRingMembers ringNum primRing secondRing = (-1, rs)) := by
  have hall : ∀ l : List NodeIdent,
      l.all (rs.memberSet r).contains = true ↔ ∀ n ∈ l, n ∈ rs.ring r := by
    intro l
    rw [List.all_eq_true]
    exact forall₂_congr fun n _ ↦ contains_memberSet
  have hsize := memberSet_size hnd
  rw [RingSet.setRingMembers, hr]
  simp only
  by_cases hbound : rs.primarySize.toNat < primRing.length ∨
      rs.secondarySize.toNat < secondRing.length
  · rw [if_pos hbound]
    refine .inr ⟨fun h ↦ ?_, rfl⟩
    have hprim := h.prim_le
    have hsecond := h.second_le
    omega
  rw [if_neg hbound]
  by_cases hlen : primRing.length + secondRing.length ≠ (rs.memberSet r).size
  · rw [if_pos hlen]
    exact .inr ⟨fun h ↦ hlen (h.length.trans hsize.symm), rfl⟩
  rw [if_neg hlen]
  by_cases hprim : primRing.all (rs.memberSet r).contains = true
  · rw [if_neg (not_not.2 hprim)]
    by_cases hsecond : secondRing.all (rs.memberSet r).contains = true
    · rw [if_neg (not_not.2 hsecond)]
      rw [not_or] at hbound
      refine .inl ⟨⟨by omega, by omega, ?_, fun n hn ↦ ?_⟩, rfl⟩
      · rw [← hsize]
        exact not_not.1 hlen
      · exact (List.mem_append.1 hn).elim ((hall _).1 hprim n) ((hall _).1 hsecond n)
    · rw [if_pos hsecond]
      exact .inr ⟨fun h ↦ hsecond ((hall _).2 fun n hn ↦ h.mem n (List.mem_append_right _ hn)), rfl⟩
  · rw [if_pos hprim]
    exact .inr ⟨fun h ↦ hprim ((hall _).2 fun n hn ↦ h.mem n (List.mem_append_left _ hn)), rfl⟩

/-- Members in the right number that are all different are all the members. -/
theorem MembersOnly.perm_iff {primRing secondRing : List NodeIdent} (hnd : (rs.ring r).Nodup)
    (h : MembersOnly rs r primRing secondRing) :
    (primRing ++ secondRing).Perm (rs.ring r) ↔ (primRing ++ secondRing).Nodup := by
  refine ⟨fun hperm ↦ hperm.nodup_iff.2 hnd, fun hnodup ↦ ?_⟩
  refine (List.subperm_of_subset hnodup h.mem).perm_of_length_le ?_
  rw [List.length_append, h.length]

/-- **`setRingMembers` keeps the invariant** when it is given two disjoint duplicate-free lists of
which the first has the length of a full primary ring. -/
theorem Inv.setRingMembers (h : Inv getRingNumber rs) {ringNum : Int}
    {primRing secondRing : List NodeIdent} (hnd : (primRing ++ secondRing).Nodup)
    (hlen : primRing.length = rs.primarySize.toNat) :
    Inv getRingNumber (rs.setRingMembers ringNum primRing secondRing).2 := by
  rcases hr : checkRing ringNum with - | r
  · rwa [RingSet.setRingMembers, hr]
  · rcases setRingMembers_eq primRing secondRing (h.nodup r) hr with
      ⟨hmembers, heq⟩ | ⟨-, heq⟩
    · rw [heq]
      exact h.setRing ((hmembers.perm_iff (h.nodup r)).2 hnd) hmembers.prim_le hmembers.second_le
        fun _ ↦ hlen
    · rwa [heq]

/-! ### Steps and runs -/

/-- How `performReplacement` calls `setRingMembers`: two disjoint duplicate-free lists, the primary
one of the configured size. The other calls may have any arguments. -/
def Call.Admissible (primarySize : UInt32) : Call → Prop
  | .setRingMembers _ primRing secondRing =>
    (primRing ++ secondRing).Nodup ∧ primRing.length = primarySize.toNat
  | _ => True

instance (primarySize : UInt32) (c : Call) : Decidable (c.Admissible primarySize) := by
  cases c <;> unfold Call.Admissible <;> infer_instance

/-- Calls for which the source has a defined outcome. `eligibleForReplacement` does not bound the
ring number below, and the two-argument `eraseNode` does not bound it at all. -/
def Call.Defined : Call → Prop
  | .eligibleForReplacement ringNum => 0 ≤ ringNum
  | .eraseNodeRing _ ring => 0 ≤ ring ∧ ring < MAX_NUM_RINGS
  | _ => True

/-- No operation writes the configured sizes. -/
def SameSizes (rs rs' : RingSet) : Prop :=
  rs'.primarySize = rs.primarySize ∧ rs'.secondarySize = rs.secondarySize

/-- What every operation keeps: the configured sizes, and that no primary list grows beyond its
bound. -/
structure WithinSizes (rs rs' : RingSet) : Prop where
  sizes : SameSizes rs rs'
  prim_le : ∀ r, (rs'.primaryRing r).length ≤ max (rs.primaryRing r).length rs.primarySize.toNat

theorem WithinSizes.refl (rs : RingSet) : WithinSizes rs rs :=
  ⟨⟨rfl, rfl⟩, fun _ ↦ le_max_left ..⟩

theorem WithinSizes.trans {rs'' : RingSet} (h : WithinSizes rs rs') (h' : WithinSizes rs' rs'') :
    WithinSizes rs rs'' := by
  refine ⟨⟨h'.sizes.1.trans h.sizes.1, h'.sizes.2.trans h.sizes.2⟩, fun r ↦ (h'.prim_le r).trans ?_⟩
  rw [h.sizes.1]
  exact max_le (h.prim_le r) (le_max_right ..)

theorem withinSizes_setRing {prim second : List NodeIdent}
    (hprim : prim.length ≤ max (rs.primaryRing r).length rs.primarySize.toNat) :
    WithinSizes rs (rs.setRing r prim second) := by
  refine ⟨⟨rfl, rfl⟩, fun q ↦ ?_⟩
  by_cases hq : q = r
  · subst hq
    simpa [RingSet.setRing] using hprim
  · simp [RingSet.setRing, hq]

theorem withinSizes_eraseNodeRing (rs : RingSet) (n : NodeIdent) (r : Fin MAX_NUM_RINGS) :
    WithinSizes rs (rs.eraseNodeRing n r).2 := by
  rw [eraseNodeRing]
  split
  · exact .refl rs
  · split
    · exact .refl rs
    · next prim second herase =>
      obtain ⟨-, hprim, -⟩ := eraseFromRing_spec herase
      obtain ⟨hsizes, hle⟩ :=
        @withinSizes_setRing rs r prim second (hprim.trans (le_max_left ..))
      exact ⟨hsizes, hle⟩

theorem withinSizes_eraseNodeAssert (h : rs.eraseNodeAssert n r = some rs') :
    WithinSizes rs rs' := by
  rw [eraseNodeAssert] at h
  split at h
  · exact absurd h (by simp)
  · exact Option.some.inj h ▸ withinSizes_eraseNodeRing rs n r

theorem withinSizes_pushNode {latencyUS : UInt32}
    (h : rs.pushNode getRingNumber n latencyUS = some rs') : WithinSizes rs rs' := by
  -- the latency map is no part of the relation
  have hstore : ∀ {rs₁ : RingSet} {prim second : List NodeIdent},
      prim.length ≤ max (rs₁.primaryRing (getRingNumber latencyUS)).length rs₁.primarySize.toNat →
        WithinSizes rs₁ { rs₁.setRing (getRingNumber latencyUS) prim second with
          nodeLatencyUS := rs₁.nodeLatencyUS.insert n latencyUS } := by
    intro rs₁ prim second hprim
    obtain ⟨hsizes, hle⟩ := @withinSizes_setRing rs₁ _ prim second hprim
    exact ⟨hsizes, hle⟩
  simp only [RingSet.pushNode] at h
  split_ifs at h with hroom
  · refine Option.some.inj h ▸ hstore ?_
    rw [List.length_append, List.length_singleton]
    exact le_max_of_le_right hroom
  · split at h
    · exact absurd h (by simp)
    · obtain ⟨rs₁, herase, rfl⟩ := Option.map_eq_some_iff.1 h
      exact (withinSizes_eraseNodeAssert herase).trans (hstore (le_max_left ..))
  · exact Option.some.inj h ▸ hstore (le_max_left ..)

theorem withinSizes_storeRendv (rs : RingSet) (n rend : NodeIdent) :
    WithinSizes rs (rs.storeRendv n rend) := by
  rw [RingSet.storeRendv]
  split
  · exact ⟨⟨rfl, rfl⟩, fun _ ↦ le_max_left ..⟩
  · exact .refl rs

theorem withinSizes_insertNodeRendv {latencyUS : UInt32} {rend : NodeIdent}
    (h : rs.insertNodeRendv getRingNumber n latencyUS rend = some rs') : WithinSizes rs rs' := by
  refine (withinSizes_storeRendv rs n rend).trans ?_
  rw [RingSet.insertNodeRendv] at h
  generalize rs.storeRendv n rend = rs at h ⊢
  split at h
  · exact Option.some.inj h ▸ .refl rs
  split at h
  · exact withinSizes_pushNode h
  dsimp only at h
  split at h
  · exact Option.some.inj h ▸ ⟨⟨rfl, rfl⟩, fun _ ↦ le_max_left ..⟩
  split at h
  · exact Option.some.inj h ▸ .refl rs
  · obtain ⟨rs₁, herase, hpush⟩ := Option.bind_eq_some_iff.1 h
    exact (withinSizes_eraseNodeAssert herase).trans (withinSizes_pushNode hpush)

/-- **One call** leaves the sizes alone and every primary list within its bound. -/
theorem step_withinSizes {c : Call} (h : step getRingNumber rs c = some rs') :
    WithinSizes rs rs' := by
  cases c with
  | insertNodeRendv n latencyUS rend => exact withinSizes_insertNodeRendv h
  | insertNode n latencyUS => exact withinSizes_insertNodeRendv h
  | eraseNode n =>
    obtain ⟨res, herase, rfl⟩ := Option.map_eq_some_iff.1 h
    rw [RingSet.eraseNode] at herase
    split at herase
    · exact Option.some.inj herase ▸ .refl rs
    · obtain ⟨rs'', herase', rfl⟩ := Option.map_eq_some_iff.1 herase
      exact withinSizes_eraseNodeAssert herase'
  | eraseNodeRing n ring =>
    obtain ⟨r, -, rfl⟩ := Option.map_eq_some_iff.1 h
    exact withinSizes_eraseNodeRing rs n r
  | freezeRing ringNum =>
    rw [step, freezeRing, Option.some.injEq] at h
    subst h
    split
    · exact .refl rs
    · exact ⟨⟨rfl, rfl⟩, fun _ ↦ le_max_left ..⟩
  | unfreezeRing ringNum =>
    rw [step, unfreezeRing, Option.some.injEq] at h
    subst h
    split
    · exact .refl rs
    · exact ⟨⟨rfl, rfl⟩, fun _ ↦ le_max_left ..⟩
  | eligibleForReplacement ringNum =>
    obtain ⟨res, hres, rfl⟩ := Option.map_eq_some_iff.1 h
    rcases eligibleForReplacement_cases hres with heq | ⟨r, -, heq⟩
    · exact heq ▸ .refl rs
    · rw [heq]
      exact withinSizes_setRing
        ((swapLoop_spec _ (rs.primaryRing r) _).1.trans_le (le_max_left ..))
  | setRingMembers ringNum primRing secondRing =>
    rw [step, RingSet.setRingMembers, Option.some.injEq] at h
    subst h
    split
    · exact .refl rs
    split
    · exact .refl rs
    · next hbound =>
      repeat' split
      iterate 3 exact .refl rs
      exact withinSizes_setRing (le_max_of_le_right (Nat.le_of_not_lt (not_or.1 hbound).1))

/-- **One call keeps the invariant.** -/
theorem Inv.step {c : Call} (h : Inv getRingNumber rs) (hadm : c.Admissible rs.primarySize)
    (hstep : step getRingNumber rs c = some rs') : Inv getRingNumber rs' := by
  cases c with
  | insertNodeRendv n latencyUS rend => exact h.of_insertNodeRendv hstep
  | insertNode n latencyUS => exact h.of_insertNodeRendv hstep
  | eraseNode n =>
    obtain ⟨_, heq, hinv⟩ := h.eraseNode n
    rw [RingSet.step, heq, Option.map_some, Option.some.injEq] at hstep
    exact hstep ▸ hinv
  | eraseNodeRing n ring =>
    obtain ⟨r, -, rfl⟩ := Option.map_eq_some_iff.1 hstep
    rcases eraseNodeRing_cases rs n r with heq | hrem
    · rwa [heq]
    · exact hrem.inv h
  | freezeRing ringNum =>
    rw [RingSet.step, freezeRing, Option.some.injEq] at hstep
    subst hstep
    split
    · exact h
    · exact ⟨h.nodup, h.mem_ring, h.prim_le, h.second_le, h.filled⟩
  | unfreezeRing ringNum =>
    rw [RingSet.step, unfreezeRing, Option.some.injEq] at hstep
    subst hstep
    split
    · exact h
    · exact ⟨h.nodup, h.mem_ring, h.prim_le, h.second_le, h.filled⟩
  | eligibleForReplacement ringNum =>
    obtain ⟨res, hres, rfl⟩ := Option.map_eq_some_iff.1 hstep
    exact h.eligibleForReplacement hres
  | setRingMembers ringNum primRing secondRing =>
    rw [RingSet.step, Option.some.injEq] at hstep
    exact hstep ▸ h.setRingMembers hadm.1 hadm.2

/-- **No assertion of the class fails.** In a state of the invariant every call with a defined
outcome completes. -/
theorem Inv.step_isSome {c : Call} (h : Inv getRingNumber rs)
    (hsize : 1 ≤ rs.secondarySize.toNat) (hdef : c.Defined) :
    ∃ rs', RingSet.step getRingNumber rs c = some rs' := by
  cases c with
  | insertNodeRendv n latencyUS rend =>
    obtain ⟨rs', heq, -⟩ := h.insertNodeRendv hsize n latencyUS rend
    exact ⟨rs', heq⟩
  | insertNode n latencyUS =>
    obtain ⟨rs', heq, -⟩ := h.insertNodeRendv hsize n latencyUS
      ((rs.rendvMapping[n]?).getD ⟨0, 0⟩)
    exact ⟨rs', heq⟩
  | eraseNode n =>
    obtain ⟨res, heq, -⟩ := h.eraseNode n
    exact ⟨res.2, by rw [RingSet.step, heq, Option.map_some]⟩
  | eraseNodeRing n ring =>
    refine Option.isSome_iff_exists.1 ?_
    have hbound : 0 ≤ ring ∧ ring < MAX_NUM_RINGS := hdef
    rw [RingSet.step, Option.isSome_map, checkRing, dif_pos hbound]
    rfl
  | freezeRing ringNum => exact ⟨_, rfl⟩
  | unfreezeRing ringNum => exact ⟨_, rfl⟩
  | eligibleForReplacement ringNum =>
    refine Option.isSome_iff_exists.1 ?_
    rw [RingSet.step, Option.isSome_map, RingSet.eligibleForReplacement, if_neg (Int.not_lt.2 hdef)]
    repeat' split
    all_goals rfl
  | setRingMembers ringNum primRing secondRing => exact ⟨_, rfl⟩

/-- The invariant together with the sizes the object was built with. -/
structure Sound (getRingNumber : UInt32 → Fin MAX_NUM_RINGS) (primarySize secondarySize : UInt32)
    (rs : RingSet) : Prop where
  inv : Inv getRingNumber rs
  primarySize_eq : rs.primarySize = primarySize
  secondarySize_eq : rs.secondarySize = secondarySize

section Runs

variable {primarySize secondarySize : UInt32} {calls : List Call}

theorem Sound.step {c : Call} (h : Sound getRingNumber primarySize secondarySize rs)
    (hadm : c.Admissible primarySize) (hstep : RingSet.step getRingNumber rs c = some rs') :
    Sound getRingNumber primarySize secondarySize rs' := by
  obtain ⟨hinv, rfl, rfl⟩ := h
  obtain ⟨hp, hs⟩ := (step_withinSizes hstep).sizes
  exact ⟨hinv.step hadm hstep, hp, hs⟩

/-- **Every run keeps the invariant.** -/
theorem sound_of_run (hadm : ∀ c ∈ calls, c.Admissible primarySize)
    (hrun : Lib.run (RingSet.step getRingNumber) (new primarySize secondarySize) calls = some rs) :
    Sound getRingNumber primarySize secondarySize rs :=
  Lib.run_invariant (fun _ _ _ h hadm hstep ↦ h.step hadm hstep)
    ⟨inv_new getRingNumber primarySize secondarySize, rfl, rfl⟩
    (Lib.AllSteps.of_inputs (fun c hc _ ↦ hadm c hc) _) hrun

/-- **No run of calls with defined outcomes is cut short by an assertion.** -/
theorem run_completes (hsize : 1 ≤ secondarySize.toNat)
    (hadm : ∀ c ∈ calls, c.Admissible primarySize ∧ c.Defined) :
    (Lib.run (RingSet.step getRingNumber) (new primarySize secondarySize) calls).isSome := by
  refine Lib.run_isSome (P := Sound getRingNumber primarySize secondarySize) ?_
    ⟨inv_new getRingNumber primarySize secondarySize, rfl, rfl⟩
    (Lib.AllSteps.of_inputs (fun c hc _ ↦ hadm c hc) _)
  intro s c h hc
  have hsize' : 1 ≤ s.secondarySize.toNat := by
    rw [h.secondarySize_eq]
    exact hsize
  obtain ⟨s', hs'⟩ := h.inv.step_isSome hsize' hc.2
  exact ⟨s', hs', h.step hc.1 hs'⟩

theorem Inv.nodup_flatMap (h : Inv getRingNumber rs) :
    ((List.finRange MAX_NUM_RINGS).flatMap rs.ring).Nodup := by
  rw [List.nodup_flatMap]
  refine ⟨fun r _ ↦ h.nodup r, (List.nodup_finRange _).imp fun {q r} hne ↦ ?_⟩
  intro n hq hr
  exact hne (((h.mem_ring n q).1 hq).unique ((h.mem_ring n r).1 hr))

/-- **The three containers of a `RingSet` stay in step over whole runs.** After any sequence of
completed calls: no node is listed twice over all rings; a node is listed in a ring exactly when the
latency map sends it there; both lists of every ring are within their bounds; and the secondary list
of a ring is used only while the primary one is full. -/
theorem ringSet_run_invariant (getRingNumber : UInt32 → Fin MAX_NUM_RINGS)
    (primarySize secondarySize : UInt32) (calls : List Call)
    (hadm : ∀ c ∈ calls, c.Admissible primarySize) (rs : RingSet)
    (hrun : Lib.run (RingSet.step getRingNumber) (new primarySize secondarySize) calls = some rs) :
    ((List.finRange MAX_NUM_RINGS).flatMap fun r ↦
        rs.primaryRing r ++ rs.secondaryRing r).Nodup ∧
      (∀ n r, (n ∈ rs.primaryRing r ∨ n ∈ rs.secondaryRing r) ↔
        ∃ latencyUS, rs.nodeLatencyUS[n]? = some latencyUS ∧ getRingNumber latencyUS = r) ∧
      (∀ r, (rs.primaryRing r).length ≤ primarySize.toNat ∧
        (rs.secondaryRing r).length ≤ secondarySize.toNat) ∧
      ∀ r, rs.secondaryRing r ≠ [] → (rs.primaryRing r).length = primarySize.toNat := by
  obtain ⟨hinv, rfl, rfl⟩ := sound_of_run hadm hrun
  refine ⟨hinv.nodup_flatMap, fun n r ↦ ?_, fun r ↦ ⟨hinv.prim_le r, hinv.second_le r⟩,
    hinv.filled⟩
  rw [← List.mem_append]
  exact hinv.mem_ring n r

/-- A run that promotes, evicts, swaps and relocates: ring 0 holds one primary and one secondary
member, a third arrival evicts the older secondary one. -/
theorem ringSet_run_invariant_example : ∃ rs : RingSet,
    Lib.run (RingSet.step fun _ ↦ 0) (new 1 1)
      [.insertNode ⟨1, 1⟩ 10, .insertNodeRendv ⟨2, 1⟩ 20 ⟨9, 9⟩, .insertNode ⟨3, 1⟩ 30,
        .eligibleForReplacement 0, .setRingMembers 0 [⟨3, 1⟩] [⟨1, 1⟩], .eraseNode ⟨3, 1⟩] =
      some rs ∧ ((List.finRange MAX_NUM_RINGS).flatMap fun r ↦
        rs.primaryRing r ++ rs.secondaryRing r).Nodup :=
  ⟨_, rfl, (ringSet_run_invariant (fun _ ↦ 0) 1 1
    [.insertNode ⟨1, 1⟩ 10, .insertNodeRendv ⟨2, 1⟩ 20 ⟨9, 9⟩, .insertNode ⟨3, 1⟩ 30,
      .eligibleForReplacement 0, .setRingMembers 0 [⟨3, 1⟩] [⟨1, 1⟩], .eraseNode ⟨3, 1⟩]
    (by decide) _ rfl).1⟩

end Runs

end Meridian.RingSet

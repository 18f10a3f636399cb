import Meridian.RingSetRendv
import Mathlib.Data.List.TakeWhile

/-!
# Calls that rearrange a ring, and rings without room

* `setRingMembers` compares sizes and looks every new entry up among the members. It does not look
  for repetitions, so it accepts a list in which one member stands for another: `validated_iff`.
* The swap of `eligibleForReplacement` finds a partner for every firewalled primary member, because
  there are as many as there are members to be swapped out: `firewalled_swapped`.
* `insertNode` evicts the oldest secondary member before it adds one, also where the secondary ring
  may hold none: `insertion_completes`. For the member lists it only matters that they agree with the
  latency map (`Listed`).
-/

namespace Meridian.RingSet

variable {getRingNumber : UInt32 → Fin MAX_NUM_RINGS} {rs rs' : RingSet} {n : NodeIdent}
  {r : Fin MAX_NUM_RINGS}

/-! ### `setRingMembers` -/

/-- The call is rejected and changes nothing, or it puts the members of the ring in another order. -/
def Validated (rs : RingSet) (ringNum : Int) (primRing secondRing : List NodeIdent) : Prop :=
  rs.setRingMembers ringNum primRing secondRing = (-1, rs) ∨
    ∃ rs', rs.setRingMembers ringNum primRing secondRing = (0, rs') ∧
      ∃ r, checkRing ringNum = some r ∧ rs'.primaryRing r = primRing ∧
        rs'.secondaryRing r = secondRing ∧
        (rs'.primaryRing r ++ rs'.secondaryRing r).Perm (rs.primaryRing r ++ rs.secondaryRing r)

/-- **`setRingMembers` keeps every member exactly if it is given no member twice.** -/
theorem validated_iff (getRingNumber : UInt32 → Fin MAX_NUM_RINGS) (rs : RingSet)
    (h : Inv getRingNumber rs) (ringNum : Int) (primRing secondRing : List NodeIdent) :
    Validated rs ringNum primRing secondRing ↔
      ∀ r, checkRing ringNum = some r → MembersOnly rs r primRing secondRing →
        (primRing ++ secondRing).Nodup := by
  cases hr : checkRing ringNum with
  | none =>
    refine iff_of_true (.inl ?_) fun r hr' ↦ by cases hr'
    rw [RingSet.setRingMembers, hr]
  | some r =>
    have hnd := h.nodup r
    rcases setRingMembers_eq primRing secondRing hnd hr with
      ⟨hmembers, heq⟩ | ⟨hmembers, heq⟩
    · refine Iff.trans ?_ ((hmembers.perm_iff hnd).trans ⟨?_, fun hnodup ↦ hnodup r rfl hmembers⟩)
      · refine ⟨?_, fun hperm ↦ .inr ⟨_, heq, r, hr, ?_, ?_, ?_⟩⟩
        · rintro (hrejected | ⟨rs', hrs', q, hq, hprim, hsecond, hperm⟩)
          · rw [heq] at hrejected
            exact absurd (congrArg Prod.fst hrejected) (by simp)
          · obtain rfl := Option.some.inj (hr.symm.trans hq)
            rwa [hprim, hsecond] at hperm
        · exact Function.update_self ..
        · exact Function.update_self ..
        · show ((rs.setRing r primRing secondRing).ring r).Perm (rs.ring r)
          rw [ring_setRing_self]
          exact hperm
      · rintro hnodup q ⟨⟩ -
        exact hnodup
    · refine iff_of_true (.inl heq) ?_
      rintro q ⟨⟩ hq
      exact absurd hq hmembers

/-- A ring with two members, in the other order. -/
theorem validated_two : ∃ rs : RingSet, Validated rs 0 [⟨2, 1⟩] [⟨1, 1⟩] :=
  ⟨_, (validated_iff (fun _ ↦ 0) _ (@sound_of_run _ _ 1 1
    [.insertNode ⟨1, 1⟩ 10, .insertNode ⟨2, 1⟩ 20] (by decide) rfl).inv 0 [⟨2, 1⟩]
      [⟨1, 1⟩]).2 fun _ _ _ ↦ by decide⟩

/-- One member is put in the place of the other, which is lost. -/
theorem not_validated_repeated : ∃ rs : RingSet, Inv (fun _ ↦ 0) rs ∧
    ¬ Validated rs 0 [⟨1, 1⟩, ⟨1, 1⟩] [] := by
  have hrun : (Lib.run (RingSet.step fun _ ↦ 0) (new 2 1)
      [.insertNode ⟨1, 1⟩ 10, .insertNode ⟨2, 1⟩ 20]).map (fun rs ↦
        ((rs.setRingMembers 0 [⟨1, 1⟩, ⟨1, 1⟩] []).1, rs.ring 0)) =
      some (0, [⟨1, 1⟩, ⟨2, 1⟩]) := by decide +kernel
  obtain ⟨rs, hrs, heq⟩ := Option.map_eq_some_iff.1 hrun
  obtain ⟨hzero, hring⟩ := Prod.mk.inj heq
  refine ⟨rs, (sound_of_run (by decide) hrs).inv, ?_⟩
  rintro (hrejected | ⟨rs', hrs', r, hr, hprim, hsecond, hperm⟩)
  · rw [hrejected] at hzero
    exact absurd hzero (by simp)
  · obtain rfl : r = 0 := by
      rw [show checkRing 0 = some 0 from rfl] at hr
      exact (Option.some.inj hr).symm
    rw [hprim, hsecond, show rs.primaryRing 0 ++ rs.secondaryRing 0 = _ from hring] at hperm
    exact absurd hperm (by decide)

/-! ### `eligibleForReplacement` -/

/-- If there are as many nodes without a rendavous behind as there are with one in front, all that are
in front afterwards are without. -/
theorem swapLoop_hasRendv (hasRendv : NodeIdent → Bool) (prim second : List NodeIdent)
    (h : prim.countP hasRendv ≤ second.countP (!hasRendv ·)) :
    ∀ n ∈ (swapLoop hasRendv prim second).1, hasRendv n = false := by
  fun_induction swapLoop hasRendv prim second with
  | case1 second => exact fun n hn ↦ absurd hn (by simp)
  | case2 p prim second hp skipped hspan prim' second' hrec ih =>
    -- the scan has run out, so nobody behind is without a rendavous
    rw [List.span_eq_takeWhile_dropWhile, Prod.mk.injEq, List.dropWhile_eq_nil_iff] at hspan
    have hzero : second.countP (!hasRendv ·) = 0 :=
      List.countP_eq_zero.2 fun n hn ↦ by simp [hspan.2 n hn]
    rw [hzero, List.countP_cons_of_pos hp] at h
    exact absurd h (Nat.not_succ_le_zero _)
  | case3 p prim second hp skipped s rest hspan prim' second' hrec ih =>
    rw [List.span_eq_takeWhile_dropWhile, Prod.mk.injEq] at hspan
    have hskipped : ∀ n ∈ skipped, hasRendv n = true := by
      rw [← hspan.1]
      exact fun n hn ↦ List.mem_takeWhile_imp hn
    have hs : hasRendv s = false := by
      have hhead := List.head?_dropWhile_not hasRendv second
      rw [hspan.2] at hhead
      simpa using hhead
    have hsplit : second = skipped ++ s :: rest := by
      rw [← List.takeWhile_append_dropWhile (p := hasRendv) (l := second), hspan.1, hspan.2]
    have hzero : skipped.countP (!hasRendv ·) = 0 :=
      List.countP_eq_zero.2 fun n hn ↦ by simp [hskipped n hn]
    rw [hsplit, List.countP_append, hzero, List.countP_cons_of_pos hp,
      List.countP_cons_of_pos (by simp [hs])] at h
    rw [hrec] at ih
    intro n hn
    rcases List.mem_cons.1 hn with rfl | hn
    · exact hs
    · exact ih (by omega) n hn
  | case4 p prim second hp prim' second' hrec ih =>
    rw [List.countP_cons_of_neg hp] at h
    rw [hrec] at ih
    intro n hn
    rcases List.mem_cons.1 hn with rfl | hn
    · exact Bool.eq_false_iff.2 hp
    · exact ih h n hn

/-- **Firewalled members are swapped out.** If just as many members of a ring are without a rendavous
as the primary ring holds, they are the primary members afterwards, and nothing else has changed. -/
theorem firewalled_swapped (rs : RingSet) (r : Fin MAX_NUM_RINGS) (hf : rs.ringFrozen r = false)
    (hfull : (rs.primaryRing r).length = rs.primarySize.toNat) (hsecond : rs.secondaryRing r ≠ [])
    (hcount : (rs.primaryRing r ++ rs.secondaryRing r).countP
      (fun n ↦ (rs.rendvLookup n).isNone) = rs.primarySize.toNat) :
    ∃ rs', rs.eligibleForReplacement r = some (false, rs') ∧
      (∀ n ∈ rs'.primaryRing r, rs'.rendvLookup n = none) ∧
      (rs'.primaryRing r).length = (rs.primaryRing r).length ∧
      (rs'.secondaryRing r).length = (rs.secondaryRing r).length ∧
      (rs'.primaryRing r ++ rs'.secondaryRing r).Perm (rs.primaryRing r ++ rs.secondaryRing r) ∧
      (∀ q, q ≠ r → rs'.primaryRing q = rs.primaryRing q ∧
        rs'.secondaryRing q = rs.secondaryRing q) ∧
      rs'.ringFrozen = rs.ringFrozen ∧ rs'.nodeLatencyUS = rs.nodeLatencyUS ∧
      rs'.rendvMapping = rs.rendvMapping := by
  set hasRendv := fun n ↦ (rs.rendvLookup n).isSome with hdef
  have hnone : ∀ n, (rs.rendvLookup n).isNone = !hasRendv n := fun n ↦ by simp [hdef]
  obtain ⟨hprim', hsecond', hperm⟩ := swapLoop_spec hasRendv (rs.primaryRing r) (rs.secondaryRing r)
  have heq : rs.eligibleForReplacement r = some (false, rs.setRing r
      (swapLoop hasRendv (rs.primaryRing r) (rs.secondaryRing r)).1
      (swapLoop hasRendv (rs.primaryRing r) (rs.secondaryRing r)).2) := by
    have hnum : rs.numEligible r = rs.primarySize := by
      rw [numEligible, ring, hcount, UInt32.ofNat_toNat]
    have hready : (rs.isPrimRingFull r && !rs.isSecondRingEmpty r) = true := by
      simp [isPrimRingFull, isSecondRingEmpty, hfull, hsecond]
    rw [RingSet.eligibleForReplacement, if_neg (by omega), checkRing_natCast]
    simp only [hf, hready, hnum, UInt32.lt_irrefl, if_true, if_false, Bool.false_eq_true]
    rfl
  refine ⟨_, heq, fun n hn ↦ ?_, ?_, ?_, ?_, fun q hq ↦ ?_, rfl, rfl, rfl⟩
  · -- among the primary members and the others together, as many are without as there are primary ones
    have hcount' : (rs.primaryRing r).countP hasRendv ≤
        (rs.secondaryRing r).countP (!hasRendv ·) := by
      simp only [hnone, List.countP_append] at hcount
      have hlen := List.length_eq_countP_add_countP hasRendv (l := rs.primaryRing r)
      simp only [Bool.not_eq_true, Bool.decide_eq_false] at hlen
      omega
    have hn' : n ∈ (swapLoop hasRendv (rs.primaryRing r) (rs.secondaryRing r)).1 := by
      simpa [setRing] using hn
    have hfalse := swapLoop_hasRendv hasRendv _ _ hcount' n hn'
    show rs.rendvLookup n = none
    simpa [hdef] using hfalse
  · simpa [setRing] using hprim'
  · simpa [setRing] using hsecond'
  · simpa [setRing] using hperm
  · simp [setRing, hq]

/-- Ring 0 holds a firewalled primary member and a secondary one that is not. -/
theorem firewalled_swapped_two : ∃ rs rs' : RingSet,
    rs.eligibleForReplacement 0 = some (false, rs') ∧ rs.primaryRing 0 = [⟨1, 1⟩] ∧
      ∀ n ∈ rs'.primaryRing 0, rs'.rendvLookup n = none := by
  have hrun : (Lib.run (RingSet.step fun _ ↦ 0) (new 1 1)
      [.insertNodeRendv ⟨1, 1⟩ 10 ⟨9, 9⟩, .insertNode ⟨2, 1⟩ 20]).map (fun rs ↦
        ((rs.ringFrozen 0, rs.primarySize), (rs.primaryRing 0, rs.secondaryRing 0),
          (rs.rendvLookup ⟨1, 1⟩, rs.rendvLookup ⟨2, 1⟩))) =
      some ((false, 1), ([⟨1, 1⟩], [⟨2, 1⟩]), (some ⟨9, 9⟩, none)) := by decide +kernel
  obtain ⟨rs, hrs, heq⟩ := Option.map_eq_some_iff.1 hrun
  simp only [Prod.mk.injEq] at heq
  obtain ⟨⟨hf, hsize⟩, ⟨hprim, hsecond⟩, hfirst, hother⟩ := heq
  obtain ⟨rs', helig, hnone, -⟩ := firewalled_swapped rs 0 hf
    (by rw [hprim, hsize]; rfl) (by rw [hsecond]; simp) (by
      rw [hprim, hsecond, hsize, List.singleton_append, List.countP_cons, List.countP_singleton,
        hfirst, hother]
      rfl)
  exact ⟨rs, rs', helig, hprim, hnone⟩

/-! ### Room for an insertion -/

/-- The lists agree with the latency map and the secondary ones are within their bound. -/
structure Bounded (getRingNumber : UInt32 → Fin MAX_NUM_RINGS) (rs : RingSet) : Prop
    extends Listed getRingNumber rs where
  second_le : ∀ r, (rs.secondaryRing r).length ≤ rs.secondarySize.toNat

/-- There is a place in the primary ring, or a secondary ring. -/
def HasRoom (rs : RingSet) (r : Fin MAX_NUM_RINGS) : Prop :=
  (rs.primaryRing r).length < rs.primarySize.toNat ∨ 0 < rs.secondarySize.toNat

/-- The insertion puts the node into the ring of its latency: neither that ring nor the one the node
leaves is frozen, and they differ. -/
def Pushes (getRingNumber : UInt32 → Fin MAX_NUM_RINGS) (rs : RingSet) (n : NodeIdent)
    (latencyUS : UInt32) : Prop :=
  rs.ringFrozen (getRingNumber latencyUS) = false ∧ ∀ prev, rs.nodeLatencyUS[n]? = some prev →
    getRingNumber prev ≠ getRingNumber latencyUS ∧ rs.ringFrozen (getRingNumber prev) = false

/-- If the node has to be put into a ring, the ring has room. -/
def RoomFor (getRingNumber : UInt32 → Fin MAX_NUM_RINGS) (rs : RingSet) (n : NodeIdent)
    (latencyUS : UInt32) : Prop :=
  Pushes getRingNumber rs n latencyUS → HasRoom rs (getRingNumber latencyUS)

/-- Afterwards the node is a member of the ring of its latency and of no other, unless a frozen ring
was in the way. -/
def Settles (getRingNumber : UInt32 → Fin MAX_NUM_RINGS) (rs : RingSet) (n : NodeIdent)
    (latencyUS : UInt32) (rs' : RingSet) : Prop :=
  rs.ringFrozen (getRingNumber latencyUS) = false →
    (∀ r, n ∈ rs.ring r → rs.ringFrozen r = false) →
      ∀ r, n ∈ rs'.ring r ↔ r = getRingNumber latencyUS

variable {latencyUS : UInt32}

theorem Listed.mem_ring_iff (h : Listed getRingNumber rs) {lat : UInt32}
    (hlat : rs.nodeLatencyUS[n]? = some lat) : n ∈ rs.ring r ↔ r = getRingNumber lat := by
  rw [h.mem_ring, Located, hlat]
  simp [eq_comm]

theorem bounded_new (getRingNumber : UInt32 → Fin MAX_NUM_RINGS)
    (primRingSize secondRingSize : UInt32) :
    Bounded getRingNumber (new primRingSize secondRingSize) :=
  ⟨(inv_new ..).listed, (inv_new getRingNumber primRingSize secondRingSize).second_le⟩

theorem Bounded.setRing (h : Bounded getRingNumber rs) {prim second : List NodeIdent}
    (hperm : (prim ++ second).Perm (rs.ring r)) (hsecond : second.length ≤ rs.secondarySize.toNat) :
    Bounded getRingNumber (rs.setRing r prim second) :=
  ⟨h.toListed.setRing hperm, second_le_setRing h.second_le hsecond⟩

theorem Bounded.store {prim second : List NodeIdent} (h : Bounded getRingNumber rs)
    (hnew : ∀ q, ¬ Located getRingNumber rs n q)
    (hperm : (prim ++ second).Perm (n :: rs.ring (getRingNumber latencyUS)))
    (hsecond : second.length ≤ rs.secondarySize.toNat) :
    Bounded getRingNumber { rs.setRing (getRingNumber latencyUS) prim second with
      nodeLatencyUS := rs.nodeLatencyUS.insert n latencyUS } :=
  ⟨h.toListed.store hnew hperm, @second_le_setRing _ _ h.second_le prim second hsecond⟩

theorem Removed.bounded (h : Removed rs n r rs') (hbound : Bounded getRingNumber rs) :
    Bounded getRingNumber rs' := by
  refine ⟨h.listed hbound.toListed, fun q ↦ ?_⟩
  rw [h.secondarySize]
  by_cases hq : q = r
  · subst hq
    exact h.second_le.trans (hbound.second_le q)
  · rw [h.second_ne q hq]
    exact hbound.second_le q

theorem Bounded.eraseNode (h : Bounded getRingNumber rs) (n : NodeIdent) :
    ∃ res, rs.eraseNode getRingNumber n = some res ∧ Bounded getRingNumber res.2 := by
  rw [RingSet.eraseNode]
  rcases hlat : rs.nodeLatencyUS[n]? with - | lat
  · exact ⟨_, rfl, h⟩
  · have hmem : n ∈ rs.ring (getRingNumber lat) := (h.mem_ring n _).2 ⟨lat, hlat, rfl⟩
    rcases hf : rs.ringFrozen (getRingNumber lat) with - | -
    · obtain ⟨rs', hrs', hrem⟩ := eraseNodeAssert_of_mem hf hmem
      exact ⟨(0, rs'), by simp [hrs'], hrem.bounded h⟩
    · exact ⟨(0, rs), by simp [eraseNodeAssert_frozen hf], h⟩

/-- `pushNode` does not complete exactly if there is no room. -/
theorem Bounded.pushNode (h : Bounded getRingNumber rs)
    (hnew : ∀ q, ¬ Located getRingNumber rs n q)
    (hf : rs.ringFrozen (getRingNumber latencyUS) = false) :
    (HasRoom rs (getRingNumber latencyUS) →
      ∃ rs', rs.pushNode getRingNumber n latencyUS = some rs' ∧ Bounded getRingNumber rs' ∧
        rs'.nodeLatencyUS[n]? = some latencyUS) ∧
      (¬ HasRoom rs (getRingNumber latencyUS) → rs.pushNode getRingNumber n latencyUS = none) := by
  have hsecond := h.second_le (getRingNumber latencyUS)
  rw [RingSet.pushNode]
  by_cases hroom : (rs.primaryRing (getRingNumber latencyUS)).length < rs.primarySize.toNat
  · rw [if_pos hroom]
    refine ⟨fun _ ↦ ⟨_, rfl, h.store hnew ?_ hsecond, ?_⟩, fun hno ↦ absurd (Or.inl hroom) hno⟩
    · rw [List.append_assoc]
      exact List.perm_middle
    · exact Std.ExtTreeMap.getElem?_insert_self
  rw [if_neg hroom]
  by_cases hover : rs.secondarySize.toNat ≤ (rs.secondaryRing (getRingNumber latencyUS)).length
  · rw [if_pos hover]
    rcases hs : rs.secondaryRing (getRingNumber latencyUS) with - | ⟨oldest, rest⟩
    · rw [hs, List.length_nil] at hover
      refine ⟨fun hyes ↦ ?_, fun _ ↦ rfl⟩
      rcases hyes with hyes | hyes <;> omega
    · -- the oldest secondary member is evicted: it is not a primary member too
      have hnd := h.nodup (getRingNumber latencyUS)
      rw [ring, hs] at hnd
      have hprim : oldest ∉ rs.primaryRing (getRingNumber latencyUS) := fun hm ↦
        (List.nodup_append.1 hnd).2.2 oldest hm oldest (List.mem_cons_self ..) rfl
      have herase := eraseFromRing_front rest hprim
      rw [← hs] at herase
      obtain ⟨rs', hrs', hrem, -, hs'⟩ := removed_of_eraseFromRing hf herase
      have hnew' : ∀ q, ¬ Located getRingNumber rs' n q := by
        intro q hl
        by_cases hne : n = oldest
        · exact hrem.not_located q (hne ▸ hl)
        · exact hnew q ((hrem.located_of_ne hne).1 hl)
      simp only [hrs', Option.map_some]
      refine ⟨fun _ ↦ ⟨_, rfl, (hrem.bounded h).store hnew' ?_ ?_, ?_⟩, fun hno ↦ ?_⟩
      · rw [← List.append_assoc]
        exact List.perm_append_singleton n _
      · rw [hs', List.length_append, List.length_singleton, hrem.secondarySize]
        rw [hs, List.length_cons] at hsecond
        exact hsecond
      · exact Std.ExtTreeMap.getElem?_insert_self
      · rw [hs, List.length_cons] at hsecond
        exact absurd (.inr (by omega)) hno
  · rw [if_neg hover]
    refine ⟨fun _ ↦ ⟨_, rfl, h.store hnew ?_ ?_, ?_⟩, fun hno ↦ absurd (.inr (by omega)) hno⟩
    · rw [← List.append_assoc]
      exact List.perm_append_singleton n _
    · rw [List.length_append, List.length_singleton]
      omega
    · exact Std.ExtTreeMap.getElem?_insert_self

theorem Bounded.storeRendv (h : Bounded getRingNumber rs) (n rend : NodeIdent) :
    Bounded getRingNumber (rs.storeRendv n rend) := by
  rw [RingSet.storeRendv]
  split
  · exact ⟨⟨h.nodup, h.mem_ring⟩, h.second_le⟩
  · exact h

/-- A new latency within the ring of the old one. -/
theorem Bounded.sameRing {prev : UInt32} (h : Bounded getRingNumber rs)
    (hprev : rs.nodeLatencyUS[n]? = some prev)
    (hsame : getRingNumber prev = getRingNumber latencyUS) :
    Bounded getRingNumber { rs with nodeLatencyUS := rs.nodeLatencyUS.insert n latencyUS } := by
  refine ⟨⟨h.nodup, fun m q ↦ (h.mem_ring m q).trans ?_⟩, h.second_le⟩
  rcases eq_or_ne m n with rfl | hm
  · simp [Located, hprev, hsame]
  · simp only [Located, Lib.getElem?_insert_of_ne hm]

/-- What `insertNode` does after it has recorded the rendavous. -/
theorem Bounded.insertNodeRendv (h : Bounded getRingNumber rs) (n : NodeIdent) (latencyUS : UInt32)
    (rend : NodeIdent) :
    (RoomFor getRingNumber rs n latencyUS →
      ∃ rs', rs.insertNodeRendv getRingNumber n latencyUS rend = some rs' ∧
        Bounded getRingNumber rs' ∧ Settles getRingNumber rs n latencyUS rs') ∧
      (¬ RoomFor getRingNumber rs n latencyUS →
        rs.insertNodeRendv getRingNumber n latencyUS rend = none) := by
  -- the rendavous map is no part of any of the conditions
  have hroom : RoomFor getRingNumber (rs.storeRendv n rend) n latencyUS ↔
      RoomFor getRingNumber rs n latencyUS := by
    rw [RingSet.storeRendv]
    split <;> rfl
  have hsettles : ∀ rs', Settles getRingNumber (rs.storeRendv n rend) n latencyUS rs' ↔
      Settles getRingNumber rs n latencyUS rs' := by
    rw [RingSet.storeRendv]
    split <;> exact fun _ ↦ Iff.rfl
  rw [← hroom, RingSet.insertNodeRendv]
  simp only [← hsettles]
  replace h := h.storeRendv n rend
  generalize rs.storeRendv n rend = rs at h ⊢
  rcases hf : rs.ringFrozen (getRingNumber latencyUS) with - | -
  · rcases hprev : rs.nodeLatencyUS[n]? with - | prev
    · -- a new node
      have hpushes : Pushes getRingNumber rs n latencyUS := by
        refine ⟨hf, fun prev hprev' ↦ ?_⟩
        rw [hprev] at hprev'
        exact absurd hprev' (by simp)
      have hnew : ∀ q, ¬ Located getRingNumber rs n q := by
        rintro q ⟨lat, hlat, -⟩
        rw [hprev] at hlat
        exact absurd hlat (by simp)
      obtain ⟨hyes, hno⟩ := h.pushNode hnew hf
      refine ⟨fun hroom ↦ ?_, fun hroom ↦ hno fun hhas ↦ hroom fun _ ↦ hhas⟩
      obtain ⟨rs', hpush, hbound, hlat⟩ := hyes (hroom hpushes)
      exact ⟨rs', hpush, hbound, fun _ _ _ ↦ hbound.toListed.mem_ring_iff hlat⟩
    · by_cases hsame : getRingNumber prev = getRingNumber latencyUS
      · -- the node stays in its ring
        simp only [hsame, if_true, Bool.false_eq_true, if_false]
        refine ⟨fun _ ↦ ⟨_, rfl, h.sameRing hprev hsame, fun _ _ _ ↦ ?_⟩, fun hroom ↦ ?_⟩
        · exact (h.sameRing hprev hsame).toListed.mem_ring_iff Std.ExtTreeMap.getElem?_insert_self
        · exact absurd (fun hpushes : Pushes _ rs n _ ↦ absurd hsame (hpushes.2 prev hprev).1) hroom
      · have hmem : n ∈ rs.ring (getRingNumber prev) := (h.mem_ring n _).2 ⟨prev, hprev, rfl⟩
        rcases hf' : rs.ringFrozen (getRingNumber prev) with - | -
        · -- the node leaves its ring
          have hpushes : Pushes getRingNumber rs n latencyUS := by
            refine ⟨hf, fun prev' hprev' ↦ ?_⟩
            rw [hprev, Option.some.injEq] at hprev'
            exact hprev' ▸ ⟨hsame, hf'⟩
          obtain ⟨rs₁, hrs₁, hrem⟩ := eraseNodeAssert_of_mem hf' hmem
          have hf₁ : rs₁.ringFrozen (getRingNumber latencyUS) = false := by
            rw [hrem.frozen]
            exact hf
          have hroom₁ : HasRoom rs₁ (getRingNumber latencyUS) ↔
              HasRoom rs (getRingNumber latencyUS) := by
            rw [HasRoom, HasRoom, hrem.primarySize, hrem.secondarySize,
              hrem.prim_ne _ (Ne.symm hsame)]
          obtain ⟨hyes, hno⟩ := (hrem.bounded h).pushNode (hrem.not_located ·) hf₁
          simp only [hsame, hf', hrs₁, if_false, Bool.false_eq_true, Option.bind_some]
          refine ⟨fun hroom ↦ ?_, fun hroom ↦ hno fun hhas ↦ hroom fun _ ↦ hroom₁.1 hhas⟩
          obtain ⟨rs', hpush, hbound, hlat⟩ := hyes (hroom₁.2 (hroom hpushes))
          exact ⟨rs', hpush, hbound, fun _ _ _ ↦ hbound.toListed.mem_ring_iff hlat⟩
        · simp only [hsame, hf', if_false, if_true, Bool.false_eq_true]
          refine ⟨fun _ ↦ ⟨rs, rfl, h, fun _ hfree ↦ ?_⟩, fun hroom ↦ ?_⟩
          · exact absurd (hfree _ hmem) (by simp [hf'])
          · refine absurd (fun hpushes : Pushes _ rs n _ ↦ ?_) hroom
            exact absurd (hpushes.2 prev hprev).2 (by simp [hf'])
  · simp only [if_true]
    refine ⟨fun _ ↦ ⟨rs, rfl, h, fun hfree ↦ absurd hfree (by simp [hf])⟩, fun hroom ↦ ?_⟩
    exact absurd (fun hpushes : Pushes _ rs n _ ↦ absurd hpushes.1 (by simp [hf])) hroom

/-! ### Runs -/

/-- A call that finds room for what it inserts, and that gives no member of a ring twice. -/
def Call.Sparing (getRingNumber : UInt32 → Fin MAX_NUM_RINGS) (rs : RingSet) : Call → Prop
  | .insertNodeRendv inNode latencyUS _ => RoomFor getRingNumber rs inNode latencyUS
  | .insertNode inNode latencyUS => RoomFor getRingNumber rs inNode latencyUS
  | .setRingMembers ringNum primRing secondRing =>
    ∀ r, checkRing ringNum = some r → MembersOnly rs r primRing secondRing →
      (primRing ++ secondRing).Nodup
  | _ => True

theorem Bounded.eligibleForReplacement (h : Bounded getRingNumber rs) {ringNum : Int}
    {res : Bool × RingSet} (hres : rs.eligibleForReplacement ringNum = some res) :
    Bounded getRingNumber res.2 := by
  rcases eligibleForReplacement_cases hres with heq | ⟨r, -, heq⟩
  · rwa [heq]
  · obtain ⟨-, hlen, hperm⟩ := swapLoop_spec (fun n ↦ (rs.rendvLookup n).isSome)
      (rs.primaryRing r) (rs.secondaryRing r)
    rw [heq]
    exact h.setRing hperm (hlen.trans_le (h.second_le r))

/-- A call that gives no member of a ring twice. -/
def Call.NamesOnce (rs : RingSet) : Call → Prop
  | .setRingMembers ringNum primRing secondRing =>
    ∀ r, checkRing ringNum = some r → MembersOnly rs r primRing secondRing →
      (primRing ++ secondRing).Nodup
  | _ => True

theorem Call.Sparing.namesOnce {c : Call} (h : c.Sparing getRingNumber rs) : c.NamesOnce rs := by
  cases c with
  | setRingMembers ringNum primRing secondRing => exact h
  | _ => exact trivial

theorem Bounded.setRingMembers (h : Bounded getRingNumber rs) {ringNum : Int}
    {primRing secondRing : List NodeIdent}
    (honce : (Call.setRingMembers ringNum primRing secondRing).NamesOnce rs) :
    Bounded getRingNumber (rs.setRingMembers ringNum primRing secondRing).2 := by
  rcases hr : checkRing ringNum with - | r
  · rwa [RingSet.setRingMembers, hr]
  · rcases setRingMembers_eq primRing secondRing (h.nodup r) hr with
      ⟨hmembers, heq⟩ | ⟨-, heq⟩
    · rw [heq]
      exact h.setRing ((hmembers.perm_iff (h.nodup r)).2 (honce r hr hmembers)) hmembers.second_le
    · rwa [heq]

theorem Bounded.of_insertNodeRendv {rend : NodeIdent} (h : Bounded getRingNumber rs)
    (hstep : rs.insertNodeRendv getRingNumber n latencyUS rend = some rs') :
    Bounded getRingNumber rs' := by
  obtain ⟨hyes, hno⟩ := h.insertNodeRendv n latencyUS rend
  by_cases hroom : RoomFor getRingNumber rs n latencyUS
  · obtain ⟨_, heq, hbound, -⟩ := hyes hroom
    rw [hstep, Option.some.injEq] at heq
    exact heq ▸ hbound
  · rw [hno hroom] at hstep
    exact absurd hstep (by simp)

theorem Bounded.step {c : Call} (h : Bounded getRingNumber rs) (honce : c.NamesOnce rs)
    (hstep : step getRingNumber rs c = some rs') : Bounded getRingNumber rs' := by
  cases c with
  | insertNodeRendv n latencyUS rend => exact h.of_insertNodeRendv hstep
  | insertNode n latencyUS => exact h.of_insertNodeRendv hstep
  | eraseNode n =>
    obtain ⟨res, herase, rfl⟩ := Option.map_eq_some_iff.1 hstep
    obtain ⟨_, heq, hbound⟩ := h.eraseNode n
    rw [herase, Option.some.injEq] at heq
    exact heq ▸ hbound
  | eraseNodeRing n ring =>
    obtain ⟨r, -, rfl⟩ := Option.map_eq_some_iff.1 hstep
    rcases eraseNodeRing_cases rs n r with heq | hrem
    · rwa [heq]
    · exact hrem.bounded h
  | freezeRing ringNum =>
    rw [RingSet.step, freezeRing, Option.some.injEq] at hstep
    subst hstep
    split <;> exact ⟨⟨h.nodup, h.mem_ring⟩, h.second_le⟩
  | unfreezeRing ringNum =>
    rw [RingSet.step, unfreezeRing, Option.some.injEq] at hstep
    subst hstep
    split <;> exact ⟨⟨h.nodup, h.mem_ring⟩, h.second_le⟩
  | eligibleForReplacement ringNum =>
    obtain ⟨res, hres, rfl⟩ := Option.map_eq_some_iff.1 hstep
    exact h.eligibleForReplacement hres
  | setRingMembers ringNum primRing secondRing =>
    rw [RingSet.step, Option.some.injEq] at hstep
    exact hstep ▸ h.setRingMembers honce

/-- The insertion completes and puts the node where it belongs. -/
def Inserts (getRingNumber : UInt32 → Fin MAX_NUM_RINGS) (rs : RingSet) (n : NodeIdent)
    (latencyUS : UInt32) (rs' : Option RingSet) : Prop :=
  ∃ rs'', rs' = some rs'' ∧ Settles getRingNumber rs n latencyUS rs''

theorem Bounded.inserts_iff (h : Bounded getRingNumber rs) (n : NodeIdent) (latencyUS : UInt32)
    (rend : NodeIdent) :
    Inserts getRingNumber rs n latencyUS (rs.insertNodeRendv getRingNumber n latencyUS rend) ↔
      RoomFor getRingNumber rs n latencyUS := by
  obtain ⟨hyes, hno⟩ := h.insertNodeRendv n latencyUS rend
  constructor
  · rintro ⟨rs', heq, -⟩
    by_contra hroom
    rw [hno hroom] at heq
    exact absurd heq (by simp)
  · intro hroom
    obtain ⟨rs', heq, -, hsettles⟩ := hyes hroom
    exact ⟨rs', heq, hsettles⟩

/-- **When insertion and erasure cannot fail.** In every state reached by calls that find room for
what they insert and give no member twice, for all configured sizes: the one-argument `eraseNode`
completes, and an insertion completes, with the node in exactly the ring of its latency, if and only
if it finds room. -/
theorem insertion_completes (getRingNumber : UInt32 → Fin MAX_NUM_RINGS)
    (primarySize secondarySize : UInt32) (calls : List Call)
    (hspare : Lib.AllSteps (fun rs c ↦ c.Sparing getRingNumber rs) (RingSet.step getRingNumber)
      (new primarySize secondarySize) calls) (rs : RingSet)
    (hrun : Lib.run (RingSet.step getRingNumber) (new primarySize secondarySize) calls = some rs) :
    (∀ n, (rs.eraseNode getRingNumber n).isSome) ∧
      ∀ n latencyUS,
        (∀ rend, Inserts getRingNumber rs n latencyUS
            (rs.insertNodeRendv getRingNumber n latencyUS rend) ↔
          RoomFor getRingNumber rs n latencyUS) ∧
        (Inserts getRingNumber rs n latencyUS (rs.insertNode getRingNumber n latencyUS) ↔
          RoomFor getRingNumber rs n latencyUS) := by
  have hbound : Bounded getRingNumber rs :=
    Lib.run_invariant (fun _ _ _ h hc hstep ↦ h.step hc.namesOnce hstep)
      (bounded_new getRingNumber primarySize secondarySize) hspare hrun
  refine ⟨fun n ↦ ?_, fun n latencyUS ↦ ⟨fun rend ↦ hbound.inserts_iff n latencyUS rend,
    hbound.inserts_iff n latencyUS _⟩⟩
  obtain ⟨res, heq, -⟩ := hbound.eraseNode n
  exact Option.isSome_iff_exists.2 ⟨res, heq⟩

/-- Without a secondary ring, up to the size of the primary one. -/
theorem insertion_completes_one : ∃ rs : RingSet,
    Lib.run (RingSet.step fun _ ↦ 0) (new 1 0) [.insertNode ⟨1, 1⟩ 10] = some rs ∧
      (rs.eraseNode (fun _ ↦ 0) ⟨1, 1⟩).isSome := by
  refine ⟨_, rfl, (insertion_completes (fun _ ↦ 0) 1 0 [.insertNode ⟨1, 1⟩ 10] ?_ _ rfl).1 ⟨1, 1⟩⟩
  exact ⟨fun _ ↦ .inl (by decide), fun _ _ ↦ trivial⟩

/-- Without a secondary ring, the front of an empty queue is asked for; and once `setRingMembers` has
lost a member, erasing it fails an assertion. -/
theorem insertion_fails :
    (∃ rs, Lib.run (RingSet.step fun _ ↦ 0) (new 1 0) [.insertNode ⟨1, 1⟩ 10] = some rs ∧
      rs.insertNode (fun _ ↦ 0) ⟨2, 1⟩ 10 = none) ∧
    ∃ rs, Lib.run (RingSet.step fun _ ↦ 0) (new 2 1) [.insertNode ⟨1, 1⟩ 10, .insertNode ⟨2, 1⟩ 20,
        .setRingMembers 0 [⟨1, 1⟩, ⟨1, 1⟩] []] = some rs ∧
      rs.eraseNode (fun _ ↦ 0) ⟨2, 1⟩ = none := by
  have hfront : (Lib.run (RingSet.step fun _ ↦ 0) (new 1 0) [.insertNode ⟨1, 1⟩ 10]).map (fun rs ↦
      (rs.insertNode (fun _ ↦ 0) ⟨2, 1⟩ 10).isNone) = some true := by decide +kernel
  have hlost : (Lib.run (RingSet.step fun _ ↦ 0) (new 2 1) [.insertNode ⟨1, 1⟩ 10,
      .insertNode ⟨2, 1⟩ 20, .setRingMembers 0 [⟨1, 1⟩, ⟨1, 1⟩] []]).map (fun rs ↦
        (rs.eraseNode (fun _ ↦ 0) ⟨2, 1⟩).isNone) = some true := by decide +kernel
  obtain ⟨rs, hrun, hnone⟩ := Option.map_eq_some_iff.1 hfront
  obtain ⟨rs', hrun', hnone'⟩ := Option.map_eq_some_iff.1 hlost
  exact ⟨⟨rs, hrun, Option.isNone_iff_eq_none.1 hnone⟩, rs', hrun', Option.isNone_iff_eq_none.1 hnone'⟩

end Meridian.RingSet

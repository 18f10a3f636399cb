import Meridian.RingSetInvariant

/-!
# The rendavous records under insertion

`insertNode` records the rendavous of the node first, and an `eraseNode` that follows clears the
record of the node it erases. The node it erases is either the oldest secondary member, which makes
room, or the inserted node itself, which leaves its old ring: in that case the record that has just
been made is lost. `rendv_retained_iff` says that it is lost in that case only, and that the other
records are never touched.
-/

namespace Meridian.RingSet

variable {getRingNumber : UInt32 → Fin MAX_NUM_RINGS} {rs rs' : RingSet} {n : NodeIdent}
  {r : Fin MAX_NUM_RINGS} {latencyUS : UInt32}

/-- The node is on record with a latency of another ring. -/
def Moves (getRingNumber : UInt32 → Fin MAX_NUM_RINGS) (rs : RingSet) (n : NodeIdent)
    (latencyUS : UInt32) : Prop :=
  ∃ prev, rs.nodeLatencyUS[n]? = some prev ∧ getRingNumber prev ≠ getRingNumber latencyUS

/-- The records of all nodes but `n` are as before, apart from those that have left the rings. -/
def OthersRecorded (rs : RingSet) (n : NodeIdent) (rs' : RingSet) : Prop :=
  ∀ m, m ≠ n → (m ∈ rs.nodeLatencyUS → m ∈ rs'.nodeLatencyUS) →
    rs'.rendvLookup m = rs.rendvLookup m

/-- The three-argument `insertNode` completes and leaves the rendavous it was given on record. -/
def RecordsRendv (getRingNumber : UInt32 → Fin MAX_NUM_RINGS) (rs : RingSet) (n : NodeIdent)
    (latencyUS : UInt32) (rend : NodeIdent) : Prop :=
  ∃ rs', rs.insertNodeRendv getRingNumber n latencyUS rend = some rs' ∧
    rs'.rendvLookup n = some rend ∧ OthersRecorded rs n rs'

/-- The two-argument `insertNode` completes and preserves the existing rendavous mapping. -/
def PreservesRendv (getRingNumber : UInt32 → Fin MAX_NUM_RINGS) (rs : RingSet) (n : NodeIdent)
    (latencyUS : UInt32) : Prop :=
  ∃ rs', rs.insertNode getRingNumber n latencyUS = some rs' ∧
    rs'.rendvLookup n = rs.rendvLookup n ∧ OthersRecorded rs n rs'

/-! ### Erasing -/

/-- An `eraseNode` in a ring that is not frozen clears both records of the node. -/
theorem eraseNodeAssert_maps (hf : rs.ringFrozen r = false)
    (h : rs.eraseNodeAssert n r = some rs') :
    rs'.rendvMapping = rs.rendvMapping.erase n ∧ rs'.nodeLatencyUS = rs.nodeLatencyUS.erase n := by
  rcases herase : eraseFromRing (rs.primaryRing r) (rs.secondaryRing r) n with - | ⟨prim, second⟩
  · simp [eraseNodeAssert, eraseNodeRing, hf, herase] at h
  · simp only [eraseNodeAssert, eraseNodeRing, hf, herase] at h
    obtain rfl := Option.some.inj h
    exact ⟨rfl, rfl⟩

/-- A member of a ring has a latency on record. -/
theorem Inv.mem_latency (h : Inv getRingNumber rs) (hn : n ∈ rs.ring r) : n ∈ rs.nodeLatencyUS := by
  obtain ⟨lat, hlat, -⟩ := (h.mem_ring n r).1 hn
  exact Std.ExtTreeMap.mem_iff_isSome_getElem?.2 (Option.isSome_iff_exists.2 ⟨lat, hlat⟩)

/-! ### Inserting -/

/-- What `pushNode` can do to the records: nothing, or clear that of a member which leaves. -/
theorem Inv.pushNode_maps (h : Inv getRingNumber rs) (hnew : n ∉ rs.nodeLatencyUS)
    (hf : rs.ringFrozen (getRingNumber latencyUS) = false)
    (hpush : rs.pushNode getRingNumber n latencyUS = some rs') :
    (rs'.rendvMapping = rs.rendvMapping ∧
        rs'.nodeLatencyUS = rs.nodeLatencyUS.insert n latencyUS) ∨
      ∃ oldest, oldest ≠ n ∧ oldest ∈ rs.nodeLatencyUS ∧
        rs'.rendvMapping = rs.rendvMapping.erase oldest ∧
        rs'.nodeLatencyUS = (rs.nodeLatencyUS.erase oldest).insert n latencyUS := by
  simp only [RingSet.pushNode] at hpush
  split at hpush
  · obtain rfl := Option.some.inj hpush
    exact Or.inl ⟨rfl, rfl⟩
  · split at hpush
    · split at hpush
      · exact absurd hpush (by simp)
      · rename_i oldest rest hsecond
        obtain ⟨rs₁, herase, rfl⟩ := Option.map_eq_some_iff.1 hpush
        obtain ⟨hrendv, hlatency⟩ := eraseNodeAssert_maps hf herase
        have hmem : oldest ∈ rs.nodeLatencyUS := by
          refine h.mem_latency (r := getRingNumber latencyUS) (List.mem_append_right _ ?_)
          rw [hsecond]
          exact List.mem_cons_self ..
        refine Or.inr ⟨oldest, fun heq ↦ hnew (heq ▸ hmem), hmem, hrendv, ?_⟩
        rw [← hlatency]
        rfl
    · obtain rfl := Option.some.inj hpush
      exact Or.inl ⟨rfl, rfl⟩

/-- `pushNode` leaves the record of the node alone, and those of the members that stay. -/
theorem Inv.pushNode_rendv (h : Inv getRingNumber rs) (hnew : n ∉ rs.nodeLatencyUS)
    (hf : rs.ringFrozen (getRingNumber latencyUS) = false)
    (hpush : rs.pushNode getRingNumber n latencyUS = some rs') :
    rs'.rendvLookup n = rs.rendvLookup n ∧ OthersRecorded rs n rs' := by
  rcases h.pushNode_maps hnew hf hpush with ⟨hrendv, -⟩ | ⟨oldest, hne, hmem, hrendv, hlatency⟩
  · exact ⟨by rw [rendvLookup, rendvLookup, hrendv],
      fun m _ _ ↦ by rw [rendvLookup, rendvLookup, hrendv]⟩
  · refine ⟨?_, fun m hm hstays ↦ ?_⟩
    · rw [rendvLookup, rendvLookup, hrendv, Lib.getElem?_erase_of_ne hne.symm]
    · -- the member that has left is not one that stays
      have hmo : m ≠ oldest := by
        rintro rfl
        have hin := hstays hmem
        rw [hlatency, mem_insert_iff, Lib.mem_erase_iff] at hin
        exact hin.elim hm fun hin ↦ hin.1 rfl
      rw [rendvLookup, rendvLookup, hrendv, Lib.getElem?_erase_of_ne hmo]

theorem storeRendv_fields (rs : RingSet) (n rend : NodeIdent) :
    (rs.storeRendv n rend).nodeLatencyUS = rs.nodeLatencyUS ∧
      (rs.storeRendv n rend).ringFrozen = rs.ringFrozen ∧
      ∀ m, m ≠ n → (rs.storeRendv n rend).rendvLookup m = rs.rendvLookup m := by
  rw [RingSet.storeRendv]
  split
  · exact ⟨rfl, rfl, fun m hm ↦ Lib.getElem?_insert_of_ne hm⟩
  · exact ⟨rfl, rfl, fun _ _ ↦ rfl⟩

/-- **What `insertNode` does to the records**: the one it has made is lost if the node moves. -/
theorem Inv.insertNodeRendv_rendv (h : Inv getRingNumber rs) (hf : ∀ r, rs.ringFrozen r = false)
    {rend : NodeIdent} (hinsert : rs.insertNodeRendv getRingNumber n latencyUS rend = some rs') :
    (Moves getRingNumber rs n latencyUS → rs'.rendvLookup n = none) ∧
      (¬ Moves getRingNumber rs n latencyUS →
        rs'.rendvLookup n = (rs.storeRendv n rend).rendvLookup n) ∧
      OthersRecorded rs n rs' := by
  obtain ⟨hlatency, hfrozen, hothers⟩ := storeRendv_fields rs n rend
  have hinv := h.storeRendv n rend
  rw [RingSet.insertNodeRendv] at hinsert
  simp only [Moves, OthersRecorded, ← hlatency]
  generalize rs.storeRendv n rend = rs₀ at *
  have hf₀ : ∀ r, rs₀.ringFrozen r = false := fun r ↦ by rw [hfrozen]; exact hf r
  rw [if_neg (by simp [hf₀])] at hinsert
  split at hinsert
  · rename_i hprev
    have hnew : n ∉ rs₀.nodeLatencyUS := by
      rw [Std.ExtTreeMap.mem_iff_isSome_getElem?, hprev]
      simp
    obtain ⟨hsame, hkept⟩ := hinv.pushNode_rendv hnew (hf₀ _) hinsert
    refine ⟨?_, fun _ ↦ hsame, fun m hm hstays ↦ (hkept m hm hstays).trans (hothers m hm)⟩
    rintro ⟨prev, hmoved, -⟩
    rw [hprev] at hmoved
    exact absurd hmoved (by simp)
  · rename_i prev hprev
    dsimp only at hinsert
    split at hinsert
    · rename_i hring
      obtain rfl := Option.some.inj hinsert
      refine ⟨?_, fun _ ↦ rfl, fun m hm _ ↦ hothers m hm⟩
      rintro ⟨prev', hmoved, hne⟩
      rw [hprev, Option.some.injEq] at hmoved
      exact absurd (hmoved ▸ hring) hne
    · rename_i hring
      rw [if_neg (by simp [hf₀])] at hinsert
      obtain ⟨rs₁, herase, hpush⟩ := Option.bind_eq_some_iff.1 hinsert
      obtain ⟨hrendv₁, hlatency₁⟩ := eraseNodeAssert_maps (hf₀ _) herase
      have hmem : n ∈ rs₀.ring (getRingNumber prev) := (hinv.mem_ring n _).2 ⟨prev, hprev, rfl⟩
      obtain ⟨rs₂, herase', hrem⟩ := eraseNodeAssert_of_mem (hf₀ _) hmem
      rw [herase, Option.some.injEq] at herase'
      subst herase'
      have hnew : n ∉ rs₁.nodeLatencyUS := by
        rw [hlatency₁, Lib.mem_erase_iff]
        exact fun hin ↦ hin.1 rfl
      obtain ⟨hsame, hkept⟩ := (hrem.inv hinv).pushNode_rendv hnew
        (by rw [hrem.frozen]; exact hf₀ _) hpush
      refine ⟨fun _ ↦ ?_, fun hstay ↦ absurd ⟨prev, hprev, hring⟩ hstay, fun m hm hstays ↦ ?_⟩
      · rw [hsame, rendvLookup, hrendv₁, Std.ExtTreeMap.getElem?_erase_self]
      · have hstays' : m ∈ rs₁.nodeLatencyUS → m ∈ rs'.nodeLatencyUS := by
          rw [hlatency₁, Lib.mem_erase_iff]
          exact fun hin ↦ hstays hin.2
        rw [hkept m hm hstays', rendvLookup, hrendv₁, Lib.getElem?_erase_of_ne hm, ← rendvLookup]
        exact hothers m hm

/-- What is on record after a `storeRendv`. -/
theorem storeRendv_rendvLookup {rend : NodeIdent} (haddr : rend.addr ≠ 0) (hport : rend.port ≠ 0) :
    (rs.storeRendv n rend).rendvLookup n = some rend := by
  rw [RingSet.storeRendv, if_pos ⟨haddr, hport⟩, rendvLookup]
  exact Std.ExtTreeMap.getElem?_insert_self

/-- The rendavous that the two-argument `insertNode` passes on is the one on record. -/
theorem storeRendv_own (rs : RingSet) (n : NodeIdent) :
    (rs.storeRendv n ((rs.rendvMapping[n]?).getD ⟨0, 0⟩)).rendvLookup n = rs.rendvLookup n := by
  rcases hown : rs.rendvMapping[n]? with - | rend
  · rfl
  · rw [RingSet.storeRendv, Option.getD_some]
    split
    · rw [rendvLookup, rendvLookup, hown]
      exact Std.ExtTreeMap.getElem?_insert_self
    · rfl

/-- **When the rendavous is retained.** In every reachable state without a frozen ring, the
three-argument `insertNode` leaves the rendavous it is given on record unless the node moves to
another ring, and the two-argument one preserves the record unless the node moves and has one. -/
theorem rendv_retained_iff (getRingNumber : UInt32 → Fin MAX_NUM_RINGS)
    (primarySize secondarySize : UInt32) (hsize : 1 ≤ secondarySize) (calls : List Call)
    (hadm : ∀ c ∈ calls, c.Admissible primarySize) (rs : RingSet)
    (hrun : Lib.run (RingSet.step getRingNumber) (new primarySize secondarySize) calls = some rs)
    (hfrozen : ∀ r, rs.ringFrozen r = false) (n : NodeIdent) (latencyUS : UInt32) :
    (∀ rend : NodeIdent, rend.addr ≠ 0 → rend.port ≠ 0 →
      (RecordsRendv getRingNumber rs n latencyUS rend ↔ ¬ Moves getRingNumber rs n latencyUS)) ∧
      (PreservesRendv getRingNumber rs n latencyUS ↔
        ¬ (Moves getRingNumber rs n latencyUS ∧ (rs.rendvLookup n).isSome)) := by
  have hsize' := UInt32.le_iff_toNat_le.1 hsize
  obtain ⟨hinv, -, hsecond⟩ := sound_of_run hadm hrun
  rw [← hsecond] at hsize'
  refine ⟨fun rend haddr hport ↦ ?_, ?_⟩
  · obtain ⟨rs', hinsert, -⟩ := hinv.insertNodeRendv hsize' n latencyUS rend
    obtain ⟨hmoves, hstays, hothers⟩ := hinv.insertNodeRendv_rendv hfrozen hinsert
    constructor
    · rintro ⟨rs'', hinsert', hlookup, -⟩ hmoved
      rw [hinsert, Option.some.injEq] at hinsert'
      rw [← hinsert', hmoves hmoved] at hlookup
      exact absurd hlookup (by simp)
    · intro hstay
      refine ⟨rs', hinsert, ?_, hothers⟩
      rw [hstays hstay, storeRendv_rendvLookup haddr hport]
  · obtain ⟨rs', hinsert, -⟩ := hinv.insertNodeRendv hsize' n latencyUS
      ((rs.rendvMapping[n]?).getD ⟨0, 0⟩)
    obtain ⟨hmoves, hstays, hothers⟩ := hinv.insertNodeRendv_rendv hfrozen hinsert
    constructor
    · rintro ⟨rs'', hinsert', hlookup, -⟩ ⟨hmoved, hsome⟩
      rw [insertNode, hinsert, Option.some.injEq] at hinsert'
      rw [← hlookup, ← hinsert', hmoves hmoved] at hsome
      exact absurd hsome (by simp)
    · intro h
      refine ⟨rs', hinsert, ?_, hothers⟩
      rcases Decidable.em (rs.rendvLookup n).isSome with hsome | hnone
      · rw [hstays fun hmoved ↦ h ⟨hmoved, hsome⟩, storeRendv_own]
      · -- without a record there is nothing to lose
        rw [Option.not_isSome_iff_eq_none] at hnone
        by_cases hmoved : Moves getRingNumber rs n latencyUS
        · rw [hmoves hmoved, hnone]
        · rw [hstays hmoved, storeRendv_own]

/-- A node that is new to its ring keeps the rendavous. -/
theorem rendv_retained_new : RecordsRendv (fun _ ↦ 0) (new 1 1) ⟨2, 1⟩ 20 ⟨9, 9⟩ := by
  refine ((rendv_retained_iff (fun _ ↦ 0) 1 1 (by decide) [] (by simp) _ rfl (fun _ ↦ rfl) ⟨2, 1⟩
    20).1 ⟨9, 9⟩ (by decide) (by decide)).2 ?_
  rintro ⟨prev, -, hne⟩
  exact hne rfl

/-- Ring 0 for a latency of 0, and ring 1 for the others. -/
def zeroOrMore (latencyUS : UInt32) : Fin MAX_NUM_RINGS := if latencyUS = 0 then 0 else 1

/-- A node moves from ring 0 to ring 1: neither the rendavous it is inserted with nor the one on
record is kept. -/
theorem rendv_lost : ∃ rs : RingSet,
    Lib.run (RingSet.step zeroOrMore) (new 1 1) [.insertNodeRendv ⟨2, 1⟩ 0 ⟨9, 9⟩] = some rs ∧
      ¬ RecordsRendv zeroOrMore rs ⟨2, 1⟩ 1 ⟨8, 8⟩ ∧ ¬ PreservesRendv zeroOrMore rs ⟨2, 1⟩ 1 := by
  have hlost : (Lib.run (RingSet.step zeroOrMore) (new 1 1)
      [.insertNodeRendv ⟨2, 1⟩ 0 ⟨9, 9⟩]).map (fun rs ↦ (rs.rendvLookup ⟨2, 1⟩,
        (rs.insertNodeRendv zeroOrMore ⟨2, 1⟩ 1 ⟨8, 8⟩).map (RingSet.rendvLookup · ⟨2, 1⟩),
        (rs.insertNode zeroOrMore ⟨2, 1⟩ 1).map (RingSet.rendvLookup · ⟨2, 1⟩))) =
      some (some ⟨9, 9⟩, some none, some none) := by decide +kernel
  obtain ⟨rs, hrun, hlookups⟩ := Option.map_eq_some_iff.1 hlost
  rw [Prod.mk.injEq, Prod.mk.injEq] at hlookups
  obtain ⟨hown, hgiven, hkept⟩ := hlookups
  refine ⟨rs, hrun, ?_, ?_⟩
  · rintro ⟨rs', hinsert, hlookup, -⟩
    rw [hinsert, Option.map_some, hlookup] at hgiven
    exact absurd hgiven (by simp)
  · rintro ⟨rs', hinsert, hlookup, -⟩
    rw [hinsert, Option.map_some, hlookup, hown] at hkept
    exact absurd hkept (by simp)

end Meridian.RingSet

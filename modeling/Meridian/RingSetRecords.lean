import Meridian.RingSetMembers
import Mathlib.Algebra.Order.BigOperators.Group.List

/-!
# Whose rendavous is on record

`insertNode` records the rendavous before it looks at the rings, and only `eraseNode` removes a
record: that of the member it erases. A new node whose ring is frozen is turned away after its
rendavous has been recorded, and then there is a record that no call removes while the node stays
outside. `rendvMapping_members_iff` says that this is how a node that is no member comes to have
one, and the only way.

* A member is a node with a latency on record. As long as `setRingMembers` is given no member twice,
  these are the nodes in the rings, and the records of both maps are bounded by the room in the
  rings.
* Nodes that are turned away are under no such bound: `turned_away_recorded`.
-/

namespace Meridian.RingSet

variable {getRingNumber : UInt32 → Fin MAX_NUM_RINGS} {rs rs' : RingSet} {n : NodeIdent}
  {r : Fin MAX_NUM_RINGS} {latencyUS : UInt32} {rend : NodeIdent} {P : NodeIdent → Prop}

/-- Those of the nodes `P` that have a rendavous on record are members. -/
def RecordsMembers (P : NodeIdent → Prop) (rs : RingSet) : Prop :=
  ∀ m ∈ rs.rendvMapping, P m → m ∈ rs.nodeLatencyUS

/-- The call brings a rendavous for a node that is no member, and the ring of its latency is
frozen. -/
def Call.TurnsAway (getRingNumber : UInt32 → Fin MAX_NUM_RINGS) (rs : RingSet) : Call → Prop
  | .insertNodeRendv inNode latencyUS rend =>
    (rend.addr ≠ 0 ∧ rend.port ≠ 0) ∧ rs.ringFrozen (getRingNumber latencyUS) = true ∧
      inNode ∉ rs.nodeLatencyUS
  | _ => False

/-! ### The two maps -/

/-- An erasure takes the node out of both maps. -/
theorem RecordsMembers.eraseNodeRing (h : RecordsMembers P rs) (n : NodeIdent)
    (r : Fin MAX_NUM_RINGS) : RecordsMembers P (rs.eraseNodeRing n r).2 := by
  rw [RingSet.eraseNodeRing]
  split
  · exact h
  · split
    · exact h
    · intro m hm hP
      obtain ⟨hne, hm⟩ := Lib.mem_erase_iff.1 hm
      exact Lib.mem_erase_iff.2 ⟨hne, h m hm hP⟩

theorem RecordsMembers.eraseNodeAssert (h : RecordsMembers P rs)
    (herase : rs.eraseNodeAssert n r = some rs') : RecordsMembers P rs' := by
  rw [RingSet.eraseNodeAssert] at herase
  split at herase
  · exact absurd herase (by simp)
  · exact Option.some.inj herase ▸ h.eraseNodeRing n r

theorem RecordsMembers.eraseNode {res : Int × RingSet} (h : RecordsMembers P rs)
    (herase : rs.eraseNode getRingNumber n = some res) : RecordsMembers P res.2 := by
  rw [RingSet.eraseNode] at herase
  split at herase
  · exact Option.some.inj herase ▸ h
  · obtain ⟨rs', herase', rfl⟩ := Option.map_eq_some_iff.1 herase
    exact h.eraseNodeAssert herase'

/-- What is put into a ring is a member afterwards, whatever was on record of it. -/
theorem RecordsMembers.pushNode (h : RecordsMembers (· ≠ n) rs)
    (hpush : rs.pushNode getRingNumber n latencyUS = some rs') :
    RecordsMembers (fun _ ↦ True) rs' := by
  have hstore : ∀ {rs₁ : RingSet}, RecordsMembers (· ≠ n) rs₁ → ∀ m ∈ rs₁.rendvMapping, True →
      m ∈ rs₁.nodeLatencyUS.insert n latencyUS := by
    intro rs₁ h₁ m hm _
    by_cases hmn : m = n
    · exact mem_insert_iff.2 (.inl hmn)
    · exact mem_insert_iff.2 (.inr (h₁ m hm hmn))
  simp only [RingSet.pushNode] at hpush
  split at hpush
  · exact Option.some.inj hpush ▸ hstore h
  · split at hpush
    · split at hpush
      · exact absurd hpush (by simp)
      · obtain ⟨rs₁, herase, rfl⟩ := Option.map_eq_some_iff.1 hpush
        exact hstore (h.eraseNodeAssert herase)
    · exact Option.some.inj hpush ▸ hstore h

theorem RecordsMembers.storeRendv (h : RecordsMembers (fun _ ↦ True) rs) (n rend : NodeIdent) :
    RecordsMembers (· ≠ n) (rs.storeRendv n rend) := by
  rw [RingSet.storeRendv]
  split
  · intro m hm hmn
    exact h m ((mem_insert_iff.1 hm).resolve_left hmn) trivial
  · exact fun m hm _ ↦ h m hm trivial

/-- Where the node is a member, or has no record, there is no other. -/
theorem RecordsMembers.of_ne (h : RecordsMembers (· ≠ n) rs)
    (hn : n ∈ rs.rendvMapping → n ∈ rs.nodeLatencyUS) : RecordsMembers (fun _ ↦ True) rs := by
  intro m hm _
  by_cases hmn : m = n
  · exact hmn ▸ hn (hmn ▸ hm)
  · exact h m hm hmn

/-- **An insertion that turns no node away** leaves no record of a node that is no member. -/
theorem RecordsMembers.insertNodeRendv (h : RecordsMembers (fun _ ↦ True) rs)
    (hkeep : ¬ (Call.insertNodeRendv n latencyUS rend).TurnsAway getRingNumber rs)
    (hinsert : rs.insertNodeRendv getRingNumber n latencyUS rend = some rs') :
    RecordsMembers (fun _ ↦ True) rs' := by
  have hfrozen : (rs.storeRendv n rend).ringFrozen (getRingNumber latencyUS) = true →
      n ∈ (rs.storeRendv n rend).rendvMapping → n ∈ (rs.storeRendv n rend).nodeLatencyUS := by
    rw [RingSet.storeRendv]
    split
    · intro hf _
      by_contra hn
      exact hkeep ⟨‹_›, hf, hn⟩
    · exact fun _ hm ↦ h n hm trivial
  have h₀ := h.storeRendv n rend
  rw [RingSet.insertNodeRendv] at hinsert
  generalize rs.storeRendv n rend = rs₀ at *
  split at hinsert
  · exact Option.some.inj hinsert ▸ h₀.of_ne (hfrozen ‹_›)
  split at hinsert
  · exact h₀.pushNode hinsert
  · next prev hprev =>
    have hn : n ∈ rs₀.nodeLatencyUS := by
      rw [Std.ExtTreeMap.mem_iff_isSome_getElem?, hprev]
      rfl
    dsimp only at hinsert
    split at hinsert
    · obtain rfl := Option.some.inj hinsert
      exact fun m hm _ ↦ mem_insert_iff.2 (.inr (h₀.of_ne (fun _ ↦ hn) m hm trivial))
    split at hinsert
    · exact Option.some.inj hinsert ▸ h₀.of_ne fun _ ↦ hn
    · obtain ⟨rs₁, herase, hpush⟩ := Option.bind_eq_some_iff.1 hinsert
      exact (h₀.eraseNodeAssert herase).pushNode hpush

/-- A node that is turned away leaves its rendavous behind, and nothing else. -/
theorem insertNodeRendv_turnsAway
    (h : (Call.insertNodeRendv n latencyUS rend).TurnsAway getRingNumber rs) :
    rs.insertNodeRendv getRingNumber n latencyUS rend =
      some { rs with rendvMapping := rs.rendvMapping.insert n rend } := by
  obtain ⟨hrend, hfrozen, -⟩ := h
  have hstore : rs.storeRendv n rend = { rs with rendvMapping := rs.rendvMapping.insert n rend } :=
    if_pos hrend
  rw [RingSet.insertNodeRendv, hstore]
  exact if_pos hfrozen

/-! ### Steps -/

/-- **One call.** -/
theorem RecordsMembers.step {c : Call} (h : RecordsMembers (fun _ ↦ True) rs)
    (hkeep : ¬ c.TurnsAway getRingNumber rs) (hstep : RingSet.step getRingNumber rs c = some rs') :
    RecordsMembers (fun _ ↦ True) rs' := by
  cases c with
  | insertNodeRendv n latencyUS rend => exact h.insertNodeRendv hkeep hstep
  | insertNode n latencyUS =>
    -- the rendavous that is passed on is on record, and so the node is a member
    refine h.insertNodeRendv ?_ hstep
    rintro ⟨⟨haddr, -⟩, -, hn⟩
    cases hown : rs.rendvMapping[n]? with
    | none =>
      rw [hown] at haddr
      exact haddr rfl
    | some rend =>
      refine hn (h n ?_ trivial)
      rw [Std.ExtTreeMap.mem_iff_isSome_getElem?, hown]
      rfl
  | eraseNode n =>
    obtain ⟨res, herase, rfl⟩ := Option.map_eq_some_iff.1 hstep
    exact h.eraseNode herase
  | eraseNodeRing n ring =>
    obtain ⟨r, -, rfl⟩ := Option.map_eq_some_iff.1 hstep
    exact h.eraseNodeRing n r
  | freezeRing ringNum =>
    rw [RingSet.step, freezeRing, Option.some.injEq] at hstep
    subst hstep
    split <;> exact h
  | unfreezeRing ringNum =>
    rw [RingSet.step, unfreezeRing, Option.some.injEq] at hstep
    subst hstep
    split <;> exact h
  | eligibleForReplacement ringNum =>
    obtain ⟨res, hres, rfl⟩ := Option.map_eq_some_iff.1 hstep
    rcases eligibleForReplacement_cases hres with heq | ⟨r, -, heq⟩ <;> exact heq ▸ h
  | setRingMembers ringNum primRing secondRing =>
    rw [RingSet.step, RingSet.setRingMembers, Option.some.injEq] at hstep
    subst hstep
    repeat' split
    all_goals exact h

/-- A call that turns a node away completes, and the record is one too many. -/
theorem Call.TurnsAway.breaks {c : Call} (h : c.TurnsAway getRingNumber rs) :
    ∃ rs', RingSet.step getRingNumber rs c = some rs' ∧ ¬ RecordsMembers (fun _ ↦ True) rs' := by
  cases c with
  | insertNodeRendv n latencyUS rend =>
    refine ⟨_, insertNodeRendv_turnsAway h, fun hrecords ↦ h.2.2 ?_⟩
    exact hrecords n (mem_insert_iff.2 (.inl rfl)) trivial
  | _ => exact h.elim

/-! ### The room in the rings -/

/-- As many members as the rings have room for. -/
theorem Bounded.size_le (h : Bounded getRingNumber rs)
    (hprim : ∀ r, (rs.primaryRing r).length ≤ rs.primarySize.toNat) :
    rs.nodeLatencyUS.size ≤ MAX_NUM_RINGS * (rs.primarySize.toNat + rs.secondarySize.toNat) := by
  have hrings : rs.nodeLatencyUS.keys ⊆ (List.finRange MAX_NUM_RINGS).flatMap rs.ring := by
    intro n hn
    obtain ⟨lat, hlat⟩ := Option.isSome_iff_exists.1
      (Std.ExtTreeMap.mem_iff_isSome_getElem?.1 (Std.ExtTreeMap.mem_keys.1 hn))
    exact List.mem_flatMap.2 ⟨getRingNumber lat, List.mem_finRange _,
      (h.mem_ring n _).2 ⟨lat, hlat, rfl⟩⟩
  rw [← Std.ExtTreeMap.length_keys]
  calc rs.nodeLatencyUS.keys.length
      ≤ ((List.finRange MAX_NUM_RINGS).flatMap rs.ring).length :=
        (List.subperm_of_subset (nodup_keys _) hrings).length_le
    _ = ((List.finRange MAX_NUM_RINGS).map fun r ↦ (rs.ring r).length).sum := List.length_flatMap
    _ ≤ ((List.finRange MAX_NUM_RINGS).map fun r ↦ (rs.ring r).length).length •
        (rs.primarySize.toNat + rs.secondarySize.toNat) := by
        refine List.sum_le_card_nsmul _ _ fun k hk ↦ ?_
        obtain ⟨r, -, rfl⟩ := List.mem_map.1 hk
        rw [ring, List.length_append]
        exact Nat.add_le_add (hprim r) (h.second_le r)
    _ = MAX_NUM_RINGS * (rs.primarySize.toNat + rs.secondarySize.toNat) := by
        rw [List.length_map, List.length_finRange]
        rfl

/-- **Records of members take no more room than the rings.** -/
theorem Bounded.rendvMapping_size_le (h : Bounded getRingNumber rs)
    (hprim : ∀ r, (rs.primaryRing r).length ≤ rs.primarySize.toNat)
    (hrecords : RecordsMembers (fun _ ↦ True) rs) :
    rs.rendvMapping.size ≤ MAX_NUM_RINGS * (rs.primarySize.toNat + rs.secondarySize.toNat) :=
  (size_le_of_subset fun n hn ↦ hrecords n hn trivial).trans (h.size_le hprim)

/-! ### Runs -/

section Runs

variable {primarySize secondarySize : UInt32} {calls : List Call}

theorem recordsMembers_new (P : NodeIdent → Prop) :
    RecordsMembers P (new primarySize secondarySize) :=
  fun _ hm ↦ absurd hm Std.ExtTreeMap.not_mem_empty

/-- **Nodes that are turned away add up**: while a ring is frozen, the rendavous of every node that
comes with a latency of this ring stays on record, and none of these nodes becomes a member. -/
theorem turned_away_recorded (ns : List NodeIdent) {rs : RingSet} (haddr : rend.addr ≠ 0)
    (hport : rend.port ≠ 0) (hfrozen : rs.ringFrozen (getRingNumber latencyUS) = true)
    (hnew : ∀ n ∈ ns, n ∉ rs.nodeLatencyUS) :
    ∃ rs', Lib.run (RingSet.step getRingNumber) rs
        (ns.map fun n ↦ .insertNodeRendv n latencyUS rend) = some rs' ∧
      rs'.nodeLatencyUS = rs.nodeLatencyUS ∧
      ∀ m, m ∈ rs'.rendvMapping ↔ m ∈ ns ∨ m ∈ rs.rendvMapping := by
  induction ns generalizing rs with
  | nil => exact ⟨rs, rfl, rfl, fun m ↦ by simp⟩
  | cons n ns ih =>
    have hstep : RingSet.step getRingNumber rs (.insertNodeRendv n latencyUS rend) =
        some { rs with rendvMapping := rs.rendvMapping.insert n rend } :=
      insertNodeRendv_turnsAway ⟨⟨haddr, hport⟩, hfrozen, hnew n (List.mem_cons_self ..)⟩
    obtain ⟨rs', hrun, hlatency, hrecords⟩ :=
      @ih { rs with rendvMapping := rs.rendvMapping.insert n rend } hfrozen
        fun m hm ↦ hnew m (List.mem_cons_of_mem n hm)
    refine ⟨rs', Lib.run_cons_eq_some.2 ⟨_, hstep, hrun⟩, hlatency, fun m ↦ ?_⟩
    rw [hrecords, mem_insert_iff, List.mem_cons]
    tauto

/-- **Whose rendavous is on record.** In every state of a run each rendavous on record is that of a
member, if and only if no call of the run brings a rendavous for a node that is turned away. If
moreover no call gives a member of a ring twice, the nodes with a rendavous are in the rings, and
there are no more of them than the rings have room for. -/
theorem rendvMapping_members_iff (getRingNumber : UInt32 → Fin MAX_NUM_RINGS)
    (primarySize secondarySize : UInt32) (calls : List Call) :
    ((∀ earlier rs, earlier <+: calls →
        Lib.run (RingSet.step getRingNumber) (new primarySize secondarySize) earlier = some rs →
          ∀ n ∈ rs.rendvMapping, n ∈ rs.nodeLatencyUS) ↔
      Lib.AllSteps (fun rs c ↦ ¬ c.TurnsAway getRingNumber rs) (RingSet.step getRingNumber)
        (new primarySize secondarySize) calls) ∧
      ∀ rs, Lib.run (RingSet.step getRingNumber) (new primarySize secondarySize) calls = some rs →
        Lib.AllSteps (fun rs c ↦ ¬ c.TurnsAway getRingNumber rs ∧ c.NamesOnce rs)
          (RingSet.step getRingNumber) (new primarySize secondarySize) calls →
        (∀ n ∈ rs.rendvMapping, ∃ r, n ∈ rs.primaryRing r ∨ n ∈ rs.secondaryRing r) ∧
          rs.rendvMapping.size ≤ MAX_NUM_RINGS * (primarySize.toNat + secondarySize.toNat) := by
  have hiff : ∀ rs, RecordsMembers (fun _ ↦ True) rs ↔
      ∀ n ∈ rs.rendvMapping, n ∈ rs.nodeLatencyUS :=
    fun _ ↦ forall₂_congr fun _ _ ↦ forall_prop_of_true trivial
  refine ⟨?_, fun rs hrun hall ↦ ?_⟩
  · simp only [← hiff]
    exact Lib.forall_run_iff_allSteps (P := RecordsMembers fun _ ↦ True) (fun _ h ↦ h)
      (fun _ _ _ h hkeep hstep ↦ h.step hkeep hstep)
      (fun _ _ _ hturns ↦ (not_not.1 hturns).breaks) (recordsMembers_new _)
  · have hrecords : RecordsMembers (fun _ ↦ True) rs :=
      Lib.run_invariant (fun _ _ _ h hc hstep ↦ h.step hc.1 hstep) (recordsMembers_new _) hall hrun
    have hbound : Bounded getRingNumber rs :=
      Lib.run_invariant (fun _ _ _ h hc hstep ↦ h.step hc.2 hstep)
        (bounded_new getRingNumber primarySize secondarySize) hall hrun
    have hwithin : WithinSizes (new primarySize secondarySize) rs :=
      Lib.run_invariant' (fun _ _ _ h hstep ↦ h.trans (step_withinSizes hstep)) (.refl _) hrun
    obtain ⟨hprimarySize, hsecondarySize⟩ := hwithin.sizes
    have hprim : ∀ r, (rs.primaryRing r).length ≤ rs.primarySize.toNat := by
      intro r
      rw [hprimarySize]
      exact (hwithin.prim_le r).trans (max_le (Nat.zero_le _) le_rfl)
    refine ⟨fun n hn ↦ ?_, ?_⟩
    · obtain ⟨lat, hlat⟩ := Option.isSome_iff_exists.1
        (Std.ExtTreeMap.mem_iff_isSome_getElem?.1 (hrecords n hn trivial))
      exact ⟨getRingNumber lat, List.mem_append.1 ((hbound.mem_ring n _).2 ⟨lat, hlat, rfl⟩)⟩
    · have hsize := hbound.rendvMapping_size_le hprim hrecords
      rwa [hprimarySize, hsecondarySize] at hsize

/-- A node that is taken in keeps its rendavous. -/
theorem rendvMapping_members_one : ∃ rs : RingSet,
    Lib.run (RingSet.step fun _ ↦ 0) (new 1 1) [.insertNodeRendv ⟨2, 1⟩ 10 ⟨9, 9⟩] = some rs ∧
      (∀ n ∈ rs.rendvMapping, n ∈ rs.nodeLatencyUS) ∧ rs.rendvMapping.size ≤ 20 := by
  have hall : Lib.AllSteps (fun rs c ↦ ¬ c.TurnsAway (fun _ ↦ 0) rs ∧ c.NamesOnce rs)
      (RingSet.step fun _ ↦ 0) (new 1 1) [.insertNodeRendv ⟨2, 1⟩ 10 ⟨9, 9⟩] :=
    ⟨⟨fun h ↦ absurd h.2.1 Bool.false_ne_true, trivial⟩, fun _ _ ↦ trivial⟩
  obtain ⟨hiff, hsize⟩ :=
    rendvMapping_members_iff (fun _ ↦ 0) 1 1 [.insertNodeRendv ⟨2, 1⟩ 10 ⟨9, 9⟩]
  exact ⟨_, rfl, hiff.2 (hall.imp fun _ _ h ↦ h.1) _ _ (List.prefix_refl _) rfl,
    (hsize _ rfl hall).2⟩

/-- With ring 0 frozen, as many nodes as the rings have room for are turned away, and one more. -/
theorem rendvMapping_outgrows : ∃ calls : List Call, ∃ rs : RingSet,
    Lib.run (RingSet.step fun _ ↦ 0) (new 1 1) calls = some rs ∧
      (∃ n ∈ rs.rendvMapping, n ∉ rs.nodeLatencyUS) ∧
      MAX_NUM_RINGS * (1 + 1) < rs.rendvMapping.size := by
  have hrun : (Lib.run (RingSet.step fun _ ↦ 0) (new 1 1) (.freezeRing 0 ::
      (List.range 21).map fun i ↦ .insertNodeRendv ⟨.ofNat (i + 1), 1⟩ 10 ⟨9, 9⟩)).map (fun rs ↦
        (rs.rendvMapping.contains ⟨1, 1⟩, rs.nodeLatencyUS.contains ⟨1, 1⟩,
          rs.rendvMapping.size)) = some (true, false, 21) := by decide +kernel
  obtain ⟨rs, hrs, heq⟩ := Option.map_eq_some_iff.1 hrun
  rw [Prod.mk.injEq, Prod.mk.injEq] at heq
  obtain ⟨hrecord, hmember, hsize⟩ := heq
  refine ⟨_, rs, hrs, ⟨⟨1, 1⟩, Std.ExtTreeMap.mem_iff_contains.2 hrecord, fun h ↦ ?_⟩, ?_⟩
  · rw [Std.ExtTreeMap.mem_iff_contains, hmember] at h
    exact Bool.false_ne_true h
  · rw [hsize]
    decide

end Runs

end Meridian.RingSet

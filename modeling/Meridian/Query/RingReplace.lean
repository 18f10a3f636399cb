import Meridian.Query.RingManage
import Meridian.RingSetInvariant
import Meridian.Marshal.RoundTrip
import Meridian.Lib.Run

/-!
# Ring replacement preserves membership

Pruning, reducing and `setRingMembers` only ever move members between two lists: what is dropped on
the way to the new primary ring becomes the secondary one. So together they are a permutation of the
candidates, and the candidates are the members of the ring as long as the ring cannot change, which
is what freezing it is for.

* `performReplacement_spec` is about one call, in a state in which the candidates are the members.
* `Watching` is what holds while a query waits for answers: the ring is frozen and its members are
  still the ones that were asked. Every call that other queries make on the `RingSet` keeps it.
* `ring_replacement_preserves` is about every run.
-/

namespace Meridian

open Lib BufferWrapper

variable {getRingNumber : UInt32 → Fin MAX_NUM_RINGS} {rs rs' : RingSet}
  {r : Fin MAX_NUM_RINGS} {n : NodeIdent}

namespace RingManageQuery

variable {q q' : RingManageQuery} {hyperVolume : HyperVolume}

/-! ### Sets as lists -/

theorem nodup_toList (s : NodeSet) : s.toList.Nodup := by
  refine s.distinct_toList.imp fun {a b} h ↦ ?_
  rintro rfl
  exact h Std.ReflCmp.compare_self

/-- A set without one of its members, as lists. -/
theorem perm_erase {s : NodeSet} (h : n ∈ s) : (n :: (s.erase n).toList).Perm s.toList := by
  refine (List.perm_ext_iff_of_nodup ?_ (nodup_toList s)).2 fun m ↦ ?_
  · rw [List.nodup_cons]
    refine ⟨?_, nodup_toList _⟩
    rw [Std.ExtTreeSet.mem_toList, Std.ExtTreeSet.mem_erase]
    exact fun hn ↦ hn.1 Std.ReflCmp.compare_self
  · rw [List.mem_cons, Std.ExtTreeSet.mem_toList, Std.ExtTreeSet.mem_toList, Lib.mem_erase_set_iff]
    by_cases hm : m = n
    · subst hm
      exact iff_of_true (Or.inl rfl) h
    · simp [hm]

/-! ### Pruning -/

@[simp] theorem removeCandidateNode_remoteNodes (q : RingManageQuery) (n : NodeIdent) :
    (q.removeCandidateNode n).remoteNodes = q.remoteNodes.erase n := rfl

@[simp] theorem removeCandidateNode_ringNum (q : RingManageQuery) (n : NodeIdent) :
    (q.removeCandidateNode n).ringNum = q.ringNum := rfl

/-- **Pruning loses no candidate**: it is either left or among the nodes that were dropped. -/
theorem prune_spec {full : ℕ} : ∀ {fuel : ℕ} {q q' : RingManageQuery} {l l' : List NodeIdent},
    prune full fuel q l = (q', some l') →
      (l' ++ q'.remoteNodes.toList).Perm (l ++ q.remoteNodes.toList) ∧
        full < q'.remoteNodes.size ∧ q'.ringNum = q.ringNum := by
  intro fuel
  induction fuel with
  | zero =>
    intro q q' l l' h
    exact absurd h (by simp [prune])
  | succ fuel ih =>
    intro q q' l l' h
    rw [prune] at h
    split at h
    · exact absurd h (by simp)
    · rename_i hsize
      dsimp only at h
      split at h
      · simp only [Prod.mk.injEq, Option.some.injEq] at h
        obtain ⟨rfl, rfl⟩ := h
        exact ⟨List.Perm.refl _, Nat.lt_of_not_le hsize, rfl⟩
      split at h
      · exact absurd h (by simp)
      · rename_i hshrunk
        obtain ⟨hperm, hfull, hring⟩ := ih h
        have hmem : q.worstNode ∈ q.remoteNodes := by
          by_contra hnot
          rw [removeCandidateNode_remoteNodes, Std.ExtTreeSet.size_erase,
            if_neg (by simpa using hnot)] at hshrunk
          omega
        refine ⟨hperm.trans ?_, hfull, hring⟩
        rw [List.append_assoc, List.singleton_append]
        exact (perm_erase hmem).append_left l

/-! ### Reducing -/

/-- A volume that is not negative is a maximum of some position, so one is found. -/
theorem maxHVNode_spec (volume : ℕ → ℚ≥0) {l : List NodeIdent} (h : l ≠ []) :
    ∃ k, maxHVNode volume l = some k ∧ k < l.length := by
  have hfold : ∀ (ks : List ℕ) (best : Option ℕ × ℚ≥0), (∀ k ∈ ks, k < l.length) →
      (∀ k, best.1 = some k → k < l.length) → (best.1 = none → best.2 = 0) →
      (ks ≠ [] ∨ best.1 ≠ none) →
      ∃ k, (ks.foldl (fun (best : Option ℕ × ℚ≥0) k ↦
        if best.2 ≤ volume k then (some k, volume k) else best) best).1 = some k ∧
          k < l.length := by
    intro ks
    induction ks with
    | nil =>
      intro best _ hbest _ hne
      obtain ⟨k, hk⟩ := Option.ne_none_iff_exists'.1 (hne.resolve_left (fun h ↦ h rfl))
      exact ⟨k, hk, hbest k hk⟩
    | cons k ks ih =>
      intro best hks hbest hzero _
      have hk := hks k (List.mem_cons_self ..)
      rw [List.foldl_cons]
      split
      · refine ih _ (fun j hj ↦ hks j (List.mem_cons_of_mem k hj)) ?_ (by simp) (Or.inr (by simp))
        rintro j hj
        rwa [← Option.some.inj hj]
      · rename_i hlt
        refine ih _ (fun j hj ↦ hks j (List.mem_cons_of_mem k hj)) hbest hzero (Or.inr ?_)
        intro hnone
        rw [hzero hnone] at hlt
        exact hlt (by simp)
  refine hfold _ (none, 0) (fun k hk ↦ List.mem_range.1 hk) (by simp) (fun _ ↦ rfl) (Or.inl ?_)
  simpa using h

/-- **Reducing loses no candidate**, and takes out as many as it is told to. -/
theorem reduceSetByN_spec (volume : List NodeIdent → ℕ → ℚ≥0) :
    ∀ {m : ℕ} {v d : List NodeIdent}, m ≤ v.length →
      ∃ prim second, reduceSetByN volume m v d = some (prim, second) ∧
        prim.length + m = v.length ∧ (prim ++ second).Perm (v ++ d) := by
  intro m
  induction m with
  | zero =>
    intro v d _
    exact ⟨v, d, rfl, rfl, List.Perm.refl _⟩
  | succ m ih =>
    intro v d hm
    have hne : v ≠ [] := by
      rintro rfl
      simp at hm
    obtain ⟨k, hk, hlt⟩ := maxHVNode_spec (volume v) hne
    have hswap := RingSet.eraseSwapBack_perm hlt
    have hlen := hswap.length_eq
    rw [List.length_cons] at hlen
    obtain ⟨prim, second, heq, hprim, hperm⟩ := ih (v := RingSet.eraseSwapBack v k)
      (d := d ++ [v[k]]) (by omega)
    refine ⟨prim, second, ?_, by omega, hperm.trans ?_⟩
    · rw [reduceSetByN, hk]
      dsimp only
      rw [List.getElem?_eq_getElem hlt]
      exact heq
    · calc (RingSet.eraseSwapBack v k ++ (d ++ [v[k]])).Perm
            (RingSet.eraseSwapBack v k ++ (v[k] :: d)) :=
            (List.perm_append_singleton _ d).append_left _
        _ |>.Perm (v[k] :: RingSet.eraseSwapBack v k ++ d) := List.perm_middle
        _ |>.Perm (v ++ d) := hswap.append_right d

/-! ### One call of `performReplacement` -/

/-- `setRingMembers` accepts the members of the ring in any other arrangement whose primary part has
the size of a full primary ring. -/
theorem setRingMembers_of_perm (hinv : RingSet.Inv getRingNumber rs) {ringNum : Int}
    (hr : RingSet.checkRing ringNum = some r) {prim second : List NodeIdent}
    (hperm : (prim ++ second).Perm (rs.ring r)) (hlen : prim.length = rs.primarySize.toNat) :
    rs.setRingMembers ringNum prim second = (0, rs.setRing r prim second) := by
  have hlength := hperm.length_eq
  have hprim := hinv.prim_le r
  have hsecond := hinv.second_le r
  rw [List.length_append, RingSet.ring, List.length_append] at hlength
  have hsize : (rs.memberSet r).size = (rs.ring r).length := by
    refine Std.ExtTreeSet.size_ofList ((hinv.nodup r).imp fun {a b} hne ↦ ?_)
    simpa using hne
  have hmem : ∀ n ∈ prim ++ second, (rs.memberSet r).contains n = true := by
    intro n hn
    rw [RingSet.memberSet, Std.ExtTreeSet.contains_ofList]
    simpa using hperm.subset hn
  have hbound : ¬ (rs.primarySize.toNat < prim.length ∨ rs.secondarySize.toNat < second.length) := by
    omega
  have hsum : ¬ prim.length + second.length ≠ (rs.memberSet r).size := by
    rw [hsize, RingSet.ring, List.length_append]
    omega
  have hprimAll : prim.all (rs.memberSet r).contains = true :=
    List.all_eq_true.2 fun n hn ↦ hmem n (List.mem_append_left _ hn)
  have hsecondAll : second.all (rs.memberSet r).contains = true :=
    List.all_eq_true.2 fun n hn ↦ hmem n (List.mem_append_right _ hn)
  rw [RingSet.setRingMembers, hr]
  dsimp only
  rw [if_neg hbound, if_neg hsum, if_neg (by simpa using hprimAll),
    if_neg (by simpa using hsecondAll)]

/-- What a call of `setRingMembers` has to have done to ring `r`. -/
structure Replaced (r : Fin MAX_NUM_RINGS) (c : SetRingCall) : Prop where
  ret : c.ret = 0
  primary : (c.after.primaryRing r).length = c.before.primarySize.toNat
  perm : (c.after.ring r).Perm (c.before.ring r)
  others : RingSet.OthersKept r c.before c.after
  latency : c.after.nodeLatencyUS = c.before.nodeLatencyUS

/-- **One replacement.** When the candidates are the members of the ring, no assertion fails, and if
`setRingMembers` is called, it succeeds and keeps the members. -/
theorem performReplacement_spec (hyperVolume : HyperVolume) (hinv : RingSet.Inv getRingNumber rs)
    (hr : RingSet.checkRing q.ringNum = some r) (hmem : q.remoteNodes.toList.Perm (rs.ring r)) :
    ∃ rs' calls, q.performReplacement hyperVolume rs = some (rs', calls) ∧
      RingSet.Inv getRingNumber rs' ∧ rs'.ringFrozen = rs.ringFrozen ∧
      (rs'.ring r).Perm (rs.ring r) ∧ RingSet.OthersKept r rs rs' ∧
      ∀ c ∈ calls, Replaced r c := by
  have hidle : ∃ rs' calls, some (rs, ([] : List SetRingCall)) = some (rs', calls) ∧
      RingSet.Inv getRingNumber rs' ∧ rs'.ringFrozen = rs.ringFrozen ∧
      (rs'.ring r).Perm (rs.ring r) ∧ RingSet.OthersKept r rs rs' ∧
      ∀ c ∈ calls, Replaced r c :=
    ⟨rs, [], rfl, hinv, rfl, List.Perm.refl _, RingSet.OthersKept.refl r rs, by simp⟩
  rw [performReplacement]
  split
  · exact hidle
  rcases hprune : prune rs.primarySize.toNat q.remoteNodes.size q [] with ⟨q', - | removed⟩
  · exact hidle
  · obtain ⟨hkept, hfull, hring'⟩ := prune_spec hprune
    dsimp only
    rcases q'.createLatencyMatrix with - | matrix
    · exact hidle
    · dsimp only
      obtain ⟨prim, second, hreduce, hlen, hperm⟩ := reduceSetByN_spec (hyperVolume matrix)
        (m := q'.remoteNodes.size - rs.primarySize.toNat) (v := q'.remoteNodes.toList)
        (d := removed) (by rw [Std.ExtTreeSet.length_toList]; exact Nat.sub_le _ _)
      rw [Std.ExtTreeSet.length_toList] at hlen
      have hprim : prim.length = rs.primarySize.toNat := by omega
      have hring : (prim ++ second).Perm (rs.ring r) := by
        refine (hperm.trans List.perm_append_comm).trans (hkept.trans ?_)
        rwa [List.nil_append]
      have hset := setRingMembers_of_perm hinv hr hring hprim
      rw [hreduce]
      dsimp only
      rw [hring', hset]
      have hothers := RingSet.othersKept_setRing rs r prim second
      refine ⟨_, _, rfl, hinv.setRing hring (Nat.le_of_eq hprim) ?_ fun _ ↦ hprim, rfl, ?_, hothers,
        ?_⟩
      · have hlength := hring.length_eq
        have hsecond := hinv.second_le r
        have hprim' := hinv.prim_le r
        rw [List.length_append, RingSet.ring, List.length_append] at hlength
        omega
      · rw [RingSet.ring_setRing_self]
        exact hring
      · intro c hc
        rw [List.mem_singleton.1 hc]
        refine ⟨rfl, ?_, ?_, hothers, rfl⟩
        · simpa [RingSet.setRing] using hprim
        · rw [RingSet.ring_setRing_self]
          exact hring

/-! ### Evicting the members that have not answered -/

/-- The evictions of a timeout all take effect: the ring is no longer frozen and the nodes are in
it. -/
theorem eraseNodes_spec : ∀ {nodes : List NodeIdent} {rs : RingSet},
    RingSet.Inv getRingNumber rs → rs.ringFrozen r = false → nodes.Nodup →
      (∀ n ∈ nodes, n ∈ rs.ring r) →
      ∃ rs', eraseNodes getRingNumber rs nodes = some rs' ∧ RingSet.Inv getRingNumber rs' ∧
        rs'.ringFrozen = rs.ringFrozen ∧ (nodes ++ rs'.ring r).Perm (rs.ring r) ∧
        RingSet.OthersKept r rs rs' := by
  intro nodes
  induction nodes with
  | nil =>
    intro rs hinv _ _ _
    exact ⟨rs, rfl, hinv, rfl, List.Perm.refl _, RingSet.OthersKept.refl r rs⟩
  | cons n nodes ih =>
    intro rs hinv hf hnd hmem
    obtain ⟨hn, hnd⟩ := List.nodup_cons.1 hnd
    obtain ⟨lat, hlat, hr⟩ := (hinv.mem_ring n r).1 (hmem n (List.mem_cons_self ..))
    obtain ⟨rs₁, herase, hrem⟩ :=
      RingSet.eraseNodeAssert_of_mem hf (hmem n (List.mem_cons_self ..))
    have hmem₁ : ∀ m ∈ nodes, m ∈ rs₁.ring r := by
      intro m hm
      have hne : m ≠ n := fun h ↦ hn (h ▸ hm)
      exact List.mem_of_ne_of_mem hne
        (hrem.perm.symm.subset (hmem m (List.mem_cons_of_mem n hm)))
    obtain ⟨rs', hrs', hinv', hfrozen, hperm, hothers⟩ :=
      ih (hrem.inv hinv) (by rw [hrem.frozen]; exact hf) hnd hmem₁
    refine ⟨rs', ?_, hinv', hfrozen.trans hrem.frozen, (hperm.cons n).trans hrem.perm,
      hrem.othersKept.trans hothers⟩
    rw [eraseNodes, RingSet.eraseNode, hlat]
    dsimp only
    rw [hr, herase]
    exact hrs'

/-- The same nodes are taken out of the candidates. -/
theorem foldl_removeCandidateNode : ∀ {nodes : List NodeIdent} {q : RingManageQuery},
    nodes.Nodup → (∀ n ∈ nodes, n ∈ q.remoteNodes) →
      (nodes ++ (nodes.foldl (fun q n ↦ q.removeCandidateNode n) q).remoteNodes.toList).Perm
          q.remoteNodes.toList ∧
        (nodes.foldl (fun q n ↦ q.removeCandidateNode n) q).ringNum = q.ringNum := by
  intro nodes
  induction nodes with
  | nil =>
    intro q _ _
    exact ⟨List.Perm.refl _, rfl⟩
  | cons n nodes ih =>
    intro q hnd hmem
    obtain ⟨hn, hnd⟩ := List.nodup_cons.1 hnd
    have hmem₁ : ∀ m ∈ nodes, m ∈ (q.removeCandidateNode n).remoteNodes := by
      intro m hm
      rw [removeCandidateNode_remoteNodes, Lib.mem_erase_set_iff]
      exact ⟨fun heq ↦ hn (heq ▸ hm), hmem m (List.mem_cons_of_mem n hm)⟩
    obtain ⟨hperm, hring⟩ := ih hnd hmem₁
    rw [List.foldl_cons, hring, List.cons_append]
    exact ⟨(hperm.cons n).trans (perm_erase (hmem n (List.mem_cons_self ..))), rfl⟩

/-! ### While the query waits -/

/-- What holds from the initialisation of the query until it completes: its ring is frozen, and the
members of the ring are the ones it has asked. -/
structure Watching (getRingNumber : UInt32 → Fin MAX_NUM_RINGS) (q : RingManageQuery)
    (rs : RingSet) (r : Fin MAX_NUM_RINGS) : Prop where
  inv : RingSet.Inv getRingNumber rs
  ringNum : RingSet.checkRing q.ringNum = some r
  frozen : rs.ringFrozen r = true
  members : q.remoteNodes.toList.Perm (rs.ring r)

/-- A change of the `RingSet` that spares the frozen rings. -/
theorem Watching.of_frozenKept (h : Watching getRingNumber q rs r)
    (hinv : RingSet.Inv getRingNumber rs') (hkept : RingSet.FrozenKept rs rs') :
    Watching getRingNumber q rs' r where
  inv := hinv
  ringNum := h.ringNum
  frozen := by
    rw [hkept.frozen]
    exact h.frozen
  members := by
    rw [hkept.ring h.frozen]
    exact h.members

/-- The ring thawed, for the replacement. -/
theorem Watching.unfreezeRing (h : Watching getRingNumber q rs r) :
    RingSet.Inv getRingNumber (rs.unfreezeRing q.ringNum).2 ∧
      (rs.unfreezeRing q.ringNum).2.ringFrozen = Function.update rs.ringFrozen r false ∧
      (rs.unfreezeRing q.ringNum).2.ring r = rs.ring r ∧
      RingSet.OthersKept r rs (rs.unfreezeRing q.ringNum).2 := by
  rw [RingSet.unfreezeRing, h.ringNum]
  exact ⟨⟨h.inv.nodup, h.inv.mem_ring, h.inv.prim_le, h.inv.second_le, h.inv.filled⟩, rfl, rfl,
    fun _ _ ↦ ⟨rfl, rfl⟩⟩

/-- **Initialisation** freezes the ring and takes down its members. The rings are as before. -/
theorem init_watching (magic : UInt32) (rendv : NodeIdent) (hinv : RingSet.Inv getRingNumber rs)
    (hr : RingSet.checkRing q.ringNum = some r) :
    Watching getRingNumber (q.init magic rendv rs).1 (q.init magic rendv rs).2.1 r ∧
      (q.init magic rendv rs).1.finished = q.finished ∧
      (q.init magic rendv rs).2.1.ringFrozen = Function.update rs.ringFrozen r true ∧
      ∀ k, (q.init magic rendv rs).2.1.ring k = rs.ring k := by
  have hperm : (rs.memberSet r).toList.Perm (rs.ring r) := by
    refine (List.perm_ext_iff_of_nodup (nodup_toList _) (hinv.nodup r)).2 fun n ↦ ?_
    rw [Std.ExtTreeSet.mem_toList, RingSet.memberSet, Std.ExtTreeSet.mem_ofList]
    simp
  simp only [init, RingSet.freezeRing, hr]
  exact ⟨⟨⟨hinv.nodup, hinv.mem_ring, hinv.prim_le, hinv.second_le, hinv.filled⟩, hr,
    Function.update_self .., hperm⟩, trivial, trivial, fun _ ↦ rfl⟩

/-- What a handler of a query on ring `r` can do: the query waits on, or it is done, and its ring is
thawed; the other rings are as before. -/
structure Handled (getRingNumber : UInt32 → Fin MAX_NUM_RINGS) (r : Fin MAX_NUM_RINGS)
    (q q' : RingManageQuery) (rs rs' : RingSet) : Prop where
  inv : RingSet.Inv getRingNumber rs'
  ringNum : q'.ringNum = q.ringNum
  others : RingSet.OthersKept r rs rs'
  outcome : (q'.finished = q.finished ∧ q'.remoteNodes = q.remoteNodes ∧ rs' = rs) ∨
    (q'.finished = true ∧ rs'.ringFrozen = Function.update rs.ringFrozen r false)

/-- A query that waits on still watches its ring. -/
theorem Watching.of_handled (h : Watching getRingNumber q rs r)
    (hhandled : Handled getRingNumber r q q' rs rs') (hf : q'.finished = false) :
    Watching getRingNumber q' rs' r := by
  rcases hhandled.outcome with ⟨-, hremote, rfl⟩ | ⟨hdone, -⟩
  · exact ⟨h.inv, by rw [hhandled.ringNum]; exact h.ringNum, h.frozen, by
      rw [hremote]; exact h.members⟩
  · exact absurd (hf.symm.trans hdone) (by simp)

/-- **An answer** is taken down, and the last one completes the query. No member is lost. -/
theorem Watching.handleEvent (h : Watching getRingNumber q rs r) (magic : UInt32)
    (hyperVolume : HyperVolume) (inRemote : NodeIdent) (inPacket : List UInt8) :
    ∃ q' rs' calls, q.handleEvent magic hyperVolume inRemote inPacket rs = some (q', rs', calls) ∧
      Handled getRingNumber r q q' rs rs' ∧ (rs'.ring r).Perm (rs.ring r) ∧
      ∀ c ∈ calls, Replaced r c := by
  have hwait : ∀ q', q'.ringNum = q.ringNum → q'.finished = q.finished →
      q'.remoteNodes = q.remoteNodes → ∃ q₁ rs' calls,
        some (q', rs, ([] : List SetRingCall)) = some (q₁, rs', calls) ∧
        Handled getRingNumber r q q₁ rs rs' ∧ (rs'.ring r).Perm (rs.ring r) ∧
        ∀ c ∈ calls, Replaced r c := fun q' hring hfin hrem ↦
    ⟨q', rs, [], rfl, ⟨h.inv, hring, RingSet.OthersKept.refl r rs, Or.inl ⟨hfin, hrem, rfl⟩⟩,
      List.Perm.refl _, by simp⟩
  rw [RingManageQuery.handleEvent]
  split
  · exact hwait q rfl rfl rfl
  split
  · exact hwait q rfl rfl rfl
  split
  · exact hwait q rfl rfl rfl
  split
  · exact hwait q rfl rfl rfl
  rename_i ret _
  dsimp only
  split
  · obtain ⟨hinv, hfrozen, hring, hothers⟩ := h.unfreezeRing
    have hmem := h.members
    rw [← hring] at hmem
    obtain ⟨rs', calls, hperf, hinv', hfrozen', hperm, hothers', hcalls⟩ := performReplacement_spec
      (q := { q with retNodeMap := q.retNodeMap.insert inRemote (q.reportOf ret) })
      hyperVolume hinv h.ringNum hmem
    rw [hperf]
    rw [hring] at hperm
    exact ⟨_, _, _, rfl, ⟨hinv', rfl, hothers.trans hothers',
      Or.inr ⟨rfl, hfrozen'.trans hfrozen⟩⟩, hperm, hcalls⟩
  · exact hwait _ rfl rfl rfl

/-- **Time running out** evicts the members that have not answered, and no others, and completes the
query. -/
theorem Watching.handleTimeout (h : Watching getRingNumber q rs r) (hyperVolume : HyperVolume) :
    ∃ q' rs' calls,
      q.handleTimeout hyperVolume getRingNumber rs = some (q', rs', calls) ∧
      Handled getRingNumber r q q' rs rs' ∧ q'.finished = true ∧
      (q.badNodes ++ rs'.ring r).Perm (rs.ring r) ∧ ∀ c ∈ calls, Replaced r c := by
  obtain ⟨hinv, hfrozen, hring, hothers⟩ := h.unfreezeRing
  have hnd : q.badNodes.Nodup := (nodup_toList _).filter _
  have hbad : ∀ n ∈ q.badNodes, n ∈ q.remoteNodes := fun n hn ↦
    Std.ExtTreeSet.mem_toList.1 (List.mem_filter.1 hn).1
  have hin : ∀ n ∈ q.badNodes, n ∈ (rs.unfreezeRing q.ringNum).2.ring r := by
    intro n hn
    rw [hring]
    exact h.members.subset (Std.ExtTreeSet.mem_toList.2 (hbad n hn))
  obtain ⟨rs₁, herase, hinv₁, hfrozen₁, hperm₁, hothers₁⟩ :=
    eraseNodes_spec hinv (by rw [hfrozen]; exact Function.update_self ..) hnd hin
  rw [hring] at hperm₁
  obtain ⟨hpermq, hringNum⟩ := foldl_removeCandidateNode hnd hbad
  have hmem : (q.badNodes.foldl (fun q n ↦ q.removeCandidateNode n) q).remoteNodes.toList.Perm
      (rs₁.ring r) :=
    (List.perm_append_left_iff q.badNodes).1 (hpermq.trans (h.members.trans hperm₁.symm))
  obtain ⟨rs', calls, hperf, hinv', hfrozen', hperm', hothers', hcalls⟩ :=
    performReplacement_spec hyperVolume hinv₁ (by rw [hringNum]; exact h.ringNum) hmem
  rw [RingManageQuery.handleTimeout, herase, Option.bind_some]
  dsimp only
  rw [hperf]
  exact ⟨_, _, _, rfl, ⟨hinv', hringNum, (hothers.trans hothers₁).trans hothers',
    Or.inr ⟨rfl, (hfrozen'.trans hfrozen₁).trans hfrozen⟩⟩, rfl,
    (hperm'.append_left _).trans hperm₁, hcalls⟩

/-! ### Runs -/

/-- A query next to the `RingSet` it manages a ring of, and the calls of `setRingMembers` that have
been made. -/
structure Managed where
  query : RingManageQuery
  rings : RingSet
  calls : List SetRingCall

/-- What can happen while the query is in the table: the calls of other queries on the `RingSet`, a
packet that carries the id of the query, and its timeout. -/
inductive ManageEvent where
  | insertNodeRendv (inNode : NodeIdent) (latencyUS : UInt32) (rend : NodeIdent)
  | insertNode (inNode : NodeIdent) (latencyUS : UInt32)
  | eraseNode (inNode : NodeIdent)
  | packet (inRemote : NodeIdent) (inPacket : List UInt8)
  | timeout

/-- The result of a handler, taken over. -/
def Managed.handled (s : Managed) (res : RingManageQuery × RingSet × List SetRingCall) : Managed :=
  ⟨res.1, res.2.1, s.calls ++ res.2.2⟩

/-- One event. A query that has finished has left the table, so packets and timeouts no longer reach
it. -/
def Managed.step (magic : UInt32) (hyperVolume : HyperVolume)
    (getRingNumber : UInt32 → Fin MAX_NUM_RINGS) (s : Managed) : ManageEvent → Option Managed
  | .insertNodeRendv inNode latencyUS rend =>
    (s.rings.insertNodeRendv getRingNumber inNode latencyUS rend).map ({ s with rings := · })
  | .insertNode inNode latencyUS =>
    (s.rings.insertNode getRingNumber inNode latencyUS).map ({ s with rings := · })
  | .eraseNode inNode =>
    (s.rings.eraseNode getRingNumber inNode).map fun res ↦ { s with rings := res.2 }
  | .packet inRemote inPacket =>
    if s.query.finished then some s
    else (s.query.handleEvent magic hyperVolume inRemote inPacket s.rings).map s.handled
  | .timeout =>
    if s.query.finished then some s
    else (s.query.handleTimeout hyperVolume getRingNumber s.rings).map s.handled

/-- The query on ring `r`, just initialised. -/
def Managed.start (magic : UInt32) (rendv : NodeIdent) (qid : UInt64) (r : Fin MAX_NUM_RINGS)
    (rs : RingSet) : Managed :=
  let q := (RingManageQuery.new qid r).init magic rendv rs
  ⟨q.1, q.2.1, []⟩

/-- The invariant of a run. -/
structure Managed.Sound (getRingNumber : UInt32 → Fin MAX_NUM_RINGS) (r : Fin MAX_NUM_RINGS)
    (s : Managed) : Prop where
  inv : RingSet.Inv getRingNumber s.rings
  waiting : s.query.finished = false → Watching getRingNumber s.query s.rings r
  replaced : ∀ c ∈ s.calls, Replaced r c

section Runs

variable {magic : UInt32} {s s' : Managed} {e : ManageEvent}

theorem Managed.start_sound (magic : UInt32) (rendv : NodeIdent) (qid : UInt64)
    (r : Fin MAX_NUM_RINGS) (hinv : RingSet.Inv getRingNumber rs) :
    (Managed.start magic rendv qid r rs).Sound getRingNumber r := by
  have hwatch := (init_watching (q := RingManageQuery.new qid r) magic rendv hinv
    (RingSet.checkRing_natCast r)).1
  exact ⟨hwatch.inv, fun _ ↦ hwatch, by simp [Managed.start]⟩

/-- A call that spares the frozen rings. -/
theorem Managed.Sound.rings (h : s.Sound getRingNumber r)
    (hinv : RingSet.Inv getRingNumber rs') (hkept : RingSet.FrozenKept s.rings rs') :
    Managed.Sound getRingNumber r { s with rings := rs' } where
  inv := hinv
  waiting := fun hf ↦ (h.waiting hf).of_frozenKept hinv hkept
  replaced := h.replaced

/-- **One event keeps the invariant of the run.** -/
theorem Managed.Sound.step (h : s.Sound getRingNumber r)
    (hstep : s.step magic hyperVolume getRingNumber e = some s') : s'.Sound getRingNumber r := by
  cases e with
  | insertNodeRendv n latencyUS rend =>
    obtain ⟨rs', hrs', rfl⟩ := Option.map_eq_some_iff.1 hstep
    exact h.rings (h.inv.of_insertNodeRendv hrs') (RingSet.insertNodeRendv_frozenKept hrs')
  | insertNode n latencyUS =>
    obtain ⟨rs', hrs', rfl⟩ := Option.map_eq_some_iff.1 hstep
    exact h.rings (h.inv.of_insertNodeRendv hrs') (RingSet.insertNodeRendv_frozenKept hrs')
  | eraseNode n =>
    obtain ⟨res, hres, rfl⟩ := Option.map_eq_some_iff.1 hstep
    obtain ⟨res', hres', hinv⟩ := h.inv.eraseNode n
    rw [hres', Option.some.injEq] at hres
    subst hres
    exact h.rings hinv (RingSet.eraseNode_frozenKept hres')
  | packet inRemote inPacket =>
    rw [Managed.step] at hstep
    split at hstep
    · exact Option.some.inj hstep ▸ h
    rename_i hf
    have hf : s.query.finished = false := by simpa using hf
    obtain ⟨q', rs', calls, hres, hhandled, -, hcalls⟩ :=
      (h.waiting hf).handleEvent magic hyperVolume inRemote inPacket
    rw [hres, Option.map_some, Option.some.injEq] at hstep
    rw [← hstep]
    exact ⟨hhandled.inv, (h.waiting hf).of_handled hhandled,
      fun c hc ↦ (List.mem_append.1 hc).elim (h.replaced c) (hcalls c)⟩
  | timeout =>
    rw [Managed.step] at hstep
    split at hstep
    · exact Option.some.inj hstep ▸ h
    rename_i hf
    have hf : s.query.finished = false := by simpa using hf
    obtain ⟨q', rs', calls, hres, hhandled, -, -, hcalls⟩ :=
      (h.waiting hf).handleTimeout hyperVolume
    rw [hres, Option.map_some, Option.some.injEq] at hstep
    rw [← hstep]
    exact ⟨hhandled.inv, (h.waiting hf).of_handled hhandled,
      fun c hc ↦ (List.mem_append.1 hc).elim (h.replaced c) (hcalls c)⟩

/-- **Ring replacement preserves membership.** A query is initialised on ring `r` in any state of the
invariant, and any calls of other queries, packets and timeouts follow. Whenever `setRingMembers` has
been called, it has returned 0, the primary ring of `r` has the full size afterwards, and the members
of `r` are those it had just before; no other ring and no latency has changed. -/
theorem ring_replacement_preserves (getRingNumber : UInt32 → Fin MAX_NUM_RINGS) (magic : UInt32)
    (hyperVolume : HyperVolume) (rendv : NodeIdent) (qid : UInt64) (rs : RingSet)
    (hinv : RingSet.Inv getRingNumber rs) (r : Fin MAX_NUM_RINGS) (events : List ManageEvent)
    (s : Managed)
    (hrun : Lib.run (Managed.step magic hyperVolume getRingNumber)
      (Managed.start magic rendv qid r rs) events = some s) :
    ∀ c ∈ s.calls, c.ret = 0 ∧
      (c.after.primaryRing r).length = c.before.primarySize.toNat ∧
      (c.after.primaryRing r ++ c.after.secondaryRing r).Perm
        (c.before.primaryRing r ++ c.before.secondaryRing r) ∧
      (∀ k, k ≠ r → c.after.primaryRing k = c.before.primaryRing k ∧
        c.after.secondaryRing k = c.before.secondaryRing k) ∧
      c.after.nodeLatencyUS = c.before.nodeLatencyUS := by
  have hsound : s.Sound getRingNumber r :=
    Lib.run_invariant' (P := Managed.Sound getRingNumber r) (fun _ _ _ h hstep ↦ h.step hstep)
      (Managed.start_sound magic rendv qid r hinv) hrun
  intro c hc
  have hrep := hsound.replaced c hc
  exact ⟨hrep.ret, hrep.primary, hrep.perm, hrep.others, hrep.latency⟩

/-- Two members that answer each other's latency, while other queries call into the `RingSet`: the
second answer completes the query, and `setRingMembers` is called. -/
theorem ring_replacement_preserves_answered :
    ∃ rs s, Lib.run (RingSet.step fun _ ↦ 0) (RingSet.new 1 1)
        [.insertNode ⟨1, 80⟩ 10, .insertNode ⟨2, 80⟩ 20] = some rs ∧
      Lib.run (Managed.step 7 (fun _ _ k ↦ k) fun _ ↦ 0) (Managed.start 7 ⟨0, 0⟩ 5 0 rs)
        [.packet ⟨1, 80⟩ (RetPing.encode 7 ⟨Packet.new 5, [⟨2, 80, 40⟩]⟩),
          .insertNode ⟨3, 80⟩ 30, .eraseNode ⟨1, 80⟩,
          .packet ⟨2, 80⟩ (RetPing.encode 7 ⟨Packet.new 5, [⟨1, 80, 41⟩]⟩)] = some s ∧
      s.calls.length = 1 ∧ ∀ c ∈ s.calls, c.ret = 0 := by
  let rs : RingSet := (Lib.run (RingSet.step fun _ ↦ 0) (RingSet.new 1 1)
    [.insertNode ⟨1, 80⟩ 10, .insertNode ⟨2, 80⟩ 20]).getD (RingSet.new 0 0)
  have hrings : Lib.run (RingSet.step fun _ ↦ 0) (RingSet.new 1 1)
      [.insertNode ⟨1, 80⟩ 10, .insertNode ⟨2, 80⟩ 20] = some rs := rfl
  obtain ⟨s, hs, hlen⟩ := Option.map_eq_some_iff.1 (show
    (Lib.run (Managed.step 7 (fun _ _ k ↦ k) fun _ ↦ 0) (Managed.start 7 ⟨0, 0⟩ 5 0 rs)
      [.packet ⟨1, 80⟩ (RetPing.encode 7 ⟨Packet.new 5, [⟨2, 80, 40⟩]⟩),
        .insertNode ⟨3, 80⟩ 30, .eraseNode ⟨1, 80⟩,
        .packet ⟨2, 80⟩ (RetPing.encode 7 ⟨Packet.new 5, [⟨1, 80, 41⟩]⟩)]).map
      (fun s ↦ s.calls.length) = some 1 by decide +kernel)
  have hinv : RingSet.Inv (fun _ ↦ 0) rs :=
    (RingSet.sound_of_run (by decide) hrings).inv
  refine ⟨rs, s, hrings, hs, hlen, fun c hc ↦ ?_⟩
  exact (ring_replacement_preserves _ 7 _ ⟨0, 0⟩ 5 rs hinv 0 _ s hs c hc).1

end Runs

end RingManageQuery

end Meridian

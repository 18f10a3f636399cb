import Meridian.Process.Eviction

/-!
# Who can become a member of a ring

No call on a `RingSet` gives a ring a member that no ring had before, but for `insertNode`, and there
it is the node that is inserted. The only query that inserts is an `AddNodeQuery`, and what it inserts
is its own `remoteNode`, which never changes. So the members of a process's rings are among the nodes
that it has created an `AddNodeQuery` for.

Nothing here is assumed of the rings.
-/

namespace Meridian

open Lib RingManageQuery

variable {P : NodeIdent → Prop} {rs rs' rs'' : RingSet} {n : NodeIdent} {r : Fin MAX_NUM_RINGS}
  {getRingNumber : UInt32 → Fin MAX_NUM_RINGS}

namespace RingSet

/-- Every member of the new rings was in one of the old ones, or satisfies `P`. -/
def Adds (P : NodeIdent → Prop) (rs rs' : RingSet) : Prop :=
  ∀ m r', m ∈ rs'.ring r' → (∃ r, m ∈ rs.ring r) ∨ P m

/-- No ring has a member that was in none. -/
abbrev AddsNone (rs rs' : RingSet) : Prop := Adds (fun _ ↦ False) rs rs'

theorem Adds.refl (rs : RingSet) : Adds P rs rs := fun _ r' hm ↦ Or.inl ⟨r', hm⟩

theorem Adds.trans (h : Adds P rs rs') (h' : Adds P rs' rs'') : Adds P rs rs'' := by
  intro m r' hm
  obtain ⟨r, hr⟩ | hP := h' m r' hm
  · exact h m r hr
  · exact Or.inr hP

theorem Adds.of_subset (h : ∀ r, rs'.ring r ⊆ rs.ring r) : Adds P rs rs' :=
  fun _ r' hm ↦ Or.inl ⟨r', h r' hm⟩

/-- One ring is written. -/
theorem adds_setRing {prim second : List NodeIdent}
    (h : ∀ m ∈ prim ++ second, m ∈ rs.ring r ∨ P m) : Adds P rs (rs.setRing r prim second) := by
  intro m r' hm
  by_cases hr : r' = r
  · subst hr
    rw [ring_setRing_self] at hm
    exact (h m hm).imp_left fun hold ↦ ⟨r', hold⟩
  · rw [ring_setRing_ne rs hr] at hm
    exact Or.inl ⟨r', hm⟩

/-! ### The calls -/

theorem eraseNodeRing_adds (rs : RingSet) (n : NodeIdent) (r : Fin MAX_NUM_RINGS) :
    Adds P rs (rs.eraseNodeRing n r).2 := by
  rw [eraseNodeRing]
  split
  · exact Adds.refl rs
  split
  · exact Adds.refl rs
  · rename_i prim second herase
    have h : Adds P rs (rs.setRing r prim second) := adds_setRing fun m hm ↦
      Or.inl ((eraseFromRing_spec herase).1.subset (List.mem_cons_of_mem n hm))
    exact h

theorem eraseNodeAssert_adds (h : rs.eraseNodeAssert n r = some rs') : Adds P rs rs' := by
  rw [eraseNodeAssert] at h
  split at h
  · exact absurd h (by simp)
  · exact Option.some.inj h ▸ eraseNodeRing_adds rs n r

theorem eraseNode_adds {res : Int × RingSet} (h : rs.eraseNode getRingNumber n = some res) :
    Adds P rs res.2 := by
  rw [eraseNode] at h
  split at h
  · exact Option.some.inj h ▸ Adds.refl rs
  · obtain ⟨rs', herase, rfl⟩ := Option.map_eq_some_iff.1 h
    exact eraseNodeAssert_adds herase

theorem pushNode_adds {latencyUS : UInt32} (h : rs.pushNode getRingNumber n latencyUS = some rs') :
    Adds (· = n) rs rs' := by
  have hprim (rs : RingSet) (r : Fin MAX_NUM_RINGS) :
      Adds (· = n) rs (rs.setRing r (rs.primaryRing r ++ [n]) (rs.secondaryRing r)) := by
    refine adds_setRing fun m hm ↦ ?_
    simp only [ring, List.mem_append, List.mem_singleton] at hm ⊢
    tauto
  have hsecond (rs : RingSet) (r : Fin MAX_NUM_RINGS) :
      Adds (· = n) rs (rs.setRing r (rs.primaryRing r) (rs.secondaryRing r ++ [n])) := by
    refine adds_setRing fun m hm ↦ ?_
    simp only [ring, List.mem_append, List.mem_singleton] at hm ⊢
    tauto
  simp only [pushNode] at h
  split at h
  · exact Option.some.inj h ▸ hprim rs _
  split at h
  · split at h
    · exact absurd h (by simp)
    · obtain ⟨rs₁, herase, rfl⟩ := Option.map_eq_some_iff.1 h
      exact (eraseNodeAssert_adds herase).trans (hsecond rs₁ _)
  · exact Option.some.inj h ▸ hsecond rs _

/-- **`insertNode`** adds the node that it is given, and no other. -/
theorem insertNodeRendv_adds {latencyUS : UInt32} {rend : NodeIdent}
    (h : rs.insertNodeRendv getRingNumber n latencyUS rend = some rs') : Adds (· = n) rs rs' := by
  have hstore : Adds (· = n) rs (rs.storeRendv n rend) := by
    refine Adds.of_subset fun r ↦ ?_
    rw [storeRendv]
    split <;> exact List.Subset.refl _
  refine hstore.trans ?_
  rw [insertNodeRendv] at h
  generalize rs.storeRendv n rend = rs at h ⊢
  split at h
  · exact Option.some.inj h ▸ Adds.refl rs
  split at h
  · exact pushNode_adds h
  dsimp only at h
  split at h
  · exact Option.some.inj h ▸ Adds.refl rs
  split at h
  · exact Option.some.inj h ▸ Adds.refl rs
  · obtain ⟨rs₁, herase, hpush⟩ := Option.bind_eq_some_iff.1 h
    exact (eraseNodeAssert_adds herase).trans (pushNode_adds hpush)

theorem freezeRing_adds (rs : RingSet) (ringNum : Int) : Adds P rs (rs.freezeRing ringNum).2 := by
  rw [freezeRing]
  split <;> exact Adds.refl rs

theorem unfreezeRing_adds (rs : RingSet) (ringNum : Int) :
    Adds P rs (rs.unfreezeRing ringNum).2 := by
  rw [unfreezeRing]
  split <;> exact Adds.refl rs

/-- `setRingMembers` checks every entry against the present members. -/
theorem setRingMembers_adds (rs : RingSet) (ringNum : Int) (primRing secondRing : List NodeIdent) :
    Adds P rs (rs.setRingMembers ringNum primRing secondRing).2 := by
  rw [setRingMembers]
  split
  · exact Adds.refl rs
  split
  · exact Adds.refl rs
  split
  · exact Adds.refl rs
  split
  · exact Adds.refl rs
  split
  · exact Adds.refl rs
  · rename_i r _ _ _ hprim hsecond
    refine adds_setRing fun m hm ↦ Or.inl ?_
    have hcontains : (rs.memberSet r).contains m = true := by
      obtain hm | hm := List.mem_append.1 hm
      · exact List.all_eq_true.1 (not_not.1 hprim) m hm
      · exact List.all_eq_true.1 (not_not.1 hsecond) m hm
    rw [memberSet, Std.ExtTreeSet.contains_ofList] at hcontains
    simpa using hcontains

end RingSet

/-! ### Queries -/

open RingSet (Adds AddsNone)

namespace RingManageQuery

variable {q : RingManageQuery}

theorem performReplacement_adds {hyperVolume : HyperVolume}
    {res : RingSet × List SetRingCall} (h : q.performReplacement hyperVolume rs = some res) :
    Adds P rs res.1 := by
  rw [performReplacement] at h
  split at h
  · exact Option.some.inj h ▸ Adds.refl rs
  split at h
  · exact Option.some.inj h ▸ Adds.refl rs
  split at h
  · exact Option.some.inj h ▸ Adds.refl rs
  split at h
  · exact absurd h (by simp)
  · exact Option.some.inj h ▸ RingSet.setRingMembers_adds rs _ _ _

theorem eraseNodes_adds : ∀ {nodes : List NodeIdent} {rs rs' : RingSet},
    eraseNodes getRingNumber rs nodes = some rs' → Adds P rs rs' := by
  intro nodes
  induction nodes with
  | nil =>
    intro rs rs' h
    exact Option.some.inj h ▸ Adds.refl rs
  | cons n nodes ih =>
    intro rs rs' h
    obtain ⟨res, herase, hrest⟩ := Option.bind_eq_some_iff.1 h
    exact (RingSet.eraseNode_adds herase).trans (ih hrest)

theorem init_adds (magic : UInt32) (rendv : NodeIdent) (q : RingManageQuery) (rs : RingSet) :
    Adds P rs (q.init magic rendv rs).2.1 := by
  rw [init]
  split
  · exact Adds.refl rs
  · exact RingSet.freezeRing_adds rs _

end RingManageQuery

namespace Node

variable {env : NodeEnv} {s s' : Node} {id : UInt64} {q : NodeQuery} {res : NodeQuery × RingSet}

/-- A query inserts a node. -/
def Inserts (q : NodeQuery) (m : NodeIdent) : Prop := q.addNode?.map (·.remoteNode.ident) = some m

/-- What a handler does to the rings and to its own query: nobody joins but the node that the query
inserts, and it goes on inserting that one. -/
def Joins (rs : RingSet) (q : NodeQuery) (res : NodeQuery × RingSet) : Prop :=
  Adds (Inserts q) rs res.2 ∧ ∀ m, Inserts res.1 m → Inserts q m

theorem joins_self (rs : RingSet) (q : NodeQuery) : Joins rs q (q, rs) :=
  ⟨Adds.refl rs, fun _ ↦ id⟩

theorem joins_answered {q : AddNodeQuery} {latencyUS : UInt32} {res : AddNodeQuery × RingSet}
    (h : q.answered env.getRingNumber latencyUS rs = some res) :
    Joins rs (.addNode q) (.addNode res.1, res.2) := by
  obtain ⟨rs', hins, rfl⟩ := Option.map_eq_some_iff.1 h
  refine ⟨fun m r' hm ↦ ?_, fun _ ↦ id⟩
  refine (RingSet.insertNodeRendv_adds hins m r' hm).imp_right fun heq ↦ ?_
  rw [heq]
  rfl

theorem joins_handleEvent {inRemote : NodeIdent} {inPacket : List UInt8} {elapsedUS : UInt32}
    (h : handleEvent env inRemote inPacket elapsedUS rs q = some res) : Joins rs q res := by
  cases q with
  | addNode q =>
    obtain ⟨res, hres, rfl⟩ := Option.map_eq_some_iff.1 h
    rw [AddNodeQuery.handleEvent] at hres
    split at hres
    · exact Option.some.inj hres ▸ joins_self rs _
    split at hres
    · exact Option.some.inj hres ▸ joins_self rs _
    · exact joins_answered hres
  | reqProbe q => exact Option.some.inj h ▸ ⟨Adds.refl rs, fun _ ↦ id⟩
  | ringManage q =>
    obtain ⟨res, hres, rfl⟩ := Option.map_eq_some_iff.1 h
    refine ⟨?_, fun _ ↦ id⟩
    rw [RingManageQuery.handleEvent] at hres
    split at hres
    · exact Option.some.inj hres ▸ Adds.refl rs
    split at hres
    · exact Option.some.inj hres ▸ Adds.refl rs
    split at hres
    · exact Option.some.inj hres ▸ Adds.refl rs
    split at hres
    · exact Option.some.inj hres ▸ Adds.refl rs
    dsimp only at hres
    split at hres
    · obtain ⟨res', hperf, rfl⟩ := Option.map_eq_some_iff.1 hres
      exact (RingSet.unfreezeRing_adds rs _).trans (performReplacement_adds hperf)
    · exact Option.some.inj hres ▸ Adds.refl rs
  | other finished => exact Option.some.inj h ▸ joins_self rs _

theorem joins_handleLatency {inRemoteNodes : List NodeIdentLat}
    (h : handleLatency env inRemoteNodes rs q = some res) : Joins rs q res := by
  cases q with
  | addNode q =>
    obtain ⟨res, hres, rfl⟩ := Option.map_eq_some_iff.1 h
    unfold AddNodeQuery.handleLatency at hres
    split at hres
    · split at hres
      · exact Option.some.inj hres ▸ joins_self rs _
      · exact joins_answered hres
    · exact Option.some.inj hres ▸ joins_self rs _
  | reqProbe q => exact Option.some.inj h ▸ joins_self rs _
  | ringManage q => exact Option.some.inj h ▸ joins_self rs _
  | other finished => exact Option.some.inj h ▸ joins_self rs _

theorem joins_handleTimeout (h : handleTimeout env rs q = some res) : Joins rs q res := by
  cases q with
  | addNode q =>
    obtain ⟨res, hres, rfl⟩ := Option.map_eq_some_iff.1 h
    obtain ⟨res', herase, rfl⟩ := Option.map_eq_some_iff.1 hres
    exact ⟨RingSet.eraseNode_adds herase, fun _ ↦ id⟩
  | reqProbe q =>
    obtain ⟨res, hres, rfl⟩ := Option.map_eq_some_iff.1 h
    obtain ⟨res', herase, rfl⟩ := Option.map_eq_some_iff.1 hres
    exact ⟨RingSet.eraseNode_adds herase, fun _ ↦ id⟩
  | ringManage q =>
    obtain ⟨res, hres, rfl⟩ := Option.map_eq_some_iff.1 h
    refine ⟨?_, fun _ ↦ id⟩
    rw [RingManageQuery.handleTimeout] at hres
    obtain ⟨rs₁, herase, hmap⟩ := Option.bind_eq_some_iff.1 hres
    obtain ⟨res', hperf, rfl⟩ := Option.map_eq_some_iff.1 hmap
    exact ((RingSet.unfreezeRing_adds rs _).trans (eraseNodes_adds herase)).trans
      (performReplacement_adds hperf)
  | other finished => exact Option.some.inj h ▸ joins_self rs _

/-! ### The node -/

/-- A process has nothing to do with a node: it is in no ring, and no query inserts it. -/
structure Avoids (m : NodeIdent) (s : Node) : Prop where
  rings : ∀ r, m ∉ s.rings.ring r
  table : ∀ id e, s.table id = some e → ¬ Inserts e.query m

variable {m : NodeIdent} {e : Entry}

theorem Avoids.not_mem_members (h : s.Avoids m) : m ∉ members s.rings := by
  rw [mem_members]
  rintro ⟨r, hr⟩
  exact h.rings r hr

theorem new_avoids (m : NodeIdent) (primarySize secondarySize : UInt32) :
    (new primarySize secondarySize).Avoids m where
  rings := fun r ↦ by simp [new, RingSet.new, RingSet.ring]
  table := fun _ _ h ↦ absurd h (by simp [new])

theorem Avoids.of_adds (h : s.Avoids m) {table : UInt64 → Option Entry} {ev : List Eviction}
    (hadds : Adds (· ≠ m) s.rings rs')
    (htable : ∀ id e, table id = some e → ¬ Inserts e.query m) : Avoids m ⟨rs', table, ev⟩ where
  rings := fun r hr ↦ by
    obtain ⟨r', hr'⟩ | hne := hadds m r hr
    · exact h.rings r' hr'
    · exact hne rfl
  table := htable

/-- An entry of the table is replaced. -/
theorem Avoids.update (h : s.Avoids m) {o : Option Entry}
    (ho : ∀ e, o = some e → ¬ Inserts e.query m) (id : UInt64) :
    ∀ id' e, Function.update s.table id o id' = some e → ¬ Inserts e.query m := by
  intro id' e he
  by_cases hid : id' = id
  · subst hid
    rw [Function.update_self] at he
    exact ho e he
  · rw [Function.update_of_ne hid] at he
    exact h.table id' e he

theorem insertNewQuery_rings (hstep : s.insertNewQuery id e = some s') : s'.rings = s.rings := by
  unfold Node.insertNewQuery at hstep
  split at hstep
  · exact absurd hstep (by simp)
  · rw [← Option.some.inj hstep]

theorem Avoids.insertNewQuery (h : s.Avoids m) (he : ¬ Inserts e.query m)
    (hstep : s.insertNewQuery id e = some s') : s'.Avoids m := by
  unfold Node.insertNewQuery at hstep
  split at hstep
  · exact absurd hstep (by simp)
  · rw [← Option.some.inj hstep]
    exact h.of_adds (Adds.refl _) (h.update (fun e' he' ↦ Option.some.inj he' ▸ he) id)

theorem Avoids.getD_insertNewQuery (h : s.Avoids m) (he : ¬ Inserts e.query m) :
    ((s.insertNewQuery id e).getD s).Avoids m := by
  cases hstep : s.insertNewQuery id e with
  | none => exact h
  | some s' => exact h.insertNewQuery he hstep

theorem Avoids.startReqProbe (h : s.Avoids m) (kind : ReqMeasureKind) (srcNode : NodeIdentRendv)
    (remoteNodes : NodeSet) (id : UInt64) : (s.startReqProbe env kind srcNode remoteNodes id).Avoids m :=
  h.getD_insertNewQuery (by simp [Inserts, NodeQuery.addNode?])

/-- **A node that is not to be inserted stays out.** -/
theorem Avoids.addNodeToRing (h : s.Avoids m) {inRemote : NodeIdentRendv}
    (hne : inRemote.ident ≠ m) (id probeId : UInt64) :
    (s.addNodeToRing env inRemote id probeId).Avoids m := by
  have hq : ¬ Inserts (.addNode (AddNodeQuery.new id inRemote)) m :=
    fun heq ↦ hne (Option.some.inj heq)
  rw [Node.addNodeToRing]
  split
  · exact h.getD_insertNewQuery hq
  · exact h.getD_insertNewQuery hq
  · split
    · exact h
    · rename_i s₁ hins
      exact (h.insertNewQuery hq hins).startReqProbe _ _ _ _

theorem eligibleRings_adds {is l : List ℕ} (h : eligibleRings is rs = some (l, rs')) :
    Adds P rs rs' :=
  Adds.of_subset fun r ↦ ((eligibleRings_perm h).2 r).subset

theorem Avoids.performRingManagement (h : s.Avoids m) {rand : ℕ}
    (hstep : s.performRingManagement env rand id = some s') : s'.Avoids m := by
  obtain ⟨⟨l, rs⟩, hl, hstep⟩ := Option.map_eq_some_iff.1 hstep
  have h₁ : Avoids m { s with rings := rs } := h.of_adds (eligibleRings_adds hl) h.table
  dsimp only at hstep
  split at hstep
  · exact hstep ▸ h₁
  split at hstep
  · exact hstep ▸ h₁
  · rename_i s₂ hins
    have h₂ := h₁.insertNewQuery (by simp [Inserts, NodeQuery.addNode?]) hins
    rw [← hstep]
    refine h₂.of_adds ?_ h₂.table
    rw [insertNewQuery_rings hins]
    exact RingManageQuery.init_adds _ _ _ _

theorem Avoids.handled (h : s.Avoids m) (hid : s.table id = some e) (hjoins : Joins s.rings e.query res)
    (e' : Entry) : (Node.handled id e' s res).Avoids m := by
  have hq := h.table id e hid
  refine h.of_adds (fun m' r' hm' ↦ ?_) (h.update (fun e₁ he₁ ↦ ?_) id)
  · refine (hjoins.1 m' r' hm').imp_right fun hins heq ↦ ?_
    exact hq (heq ▸ hins)
  · split at he₁
    · exact absurd he₁ (by simp)
    · rw [← Option.some.inj he₁]
      exact fun hins ↦ hq (hjoins.2 m hins)

/-- The creation of an `AddNodeQuery` for this node. -/
def Event.Adds (m : NodeIdent) : Event → Prop
  | .addNode inRemote _ _ => inRemote.ident = m
  | _ => False

/-- **A step keeps a node out**, unless it creates an `AddNodeQuery` for it. -/
theorem Avoids.step {ev : Event} (h : s.Avoids m) (hev : ¬ ev.Adds m)
    (hstep : s.step env ev = some s') : s'.Avoids m := by
  cases ev with
  | addNode inRemote id probeId =>
    rw [← Option.some.inj hstep]
    exact h.addNodeToRing hev id probeId
  | reqProbe kind srcNode remoteNodes id =>
    rw [← Option.some.inj hstep]
    exact h.startReqProbe kind srcNode remoteNodes id
  | ringManagement rand id => exact h.performRingManagement hstep
  | other id =>
    rw [← Option.some.inj hstep]
    exact h.getD_insertNewQuery (by simp [Inserts, NodeQuery.addNode?])
  | otherFinished id =>
    rw [Node.step] at hstep
    split at hstep
    · rename_i e he
      split at hstep
      · rw [← Option.some.inj hstep]
        refine h.of_adds (RingSet.Adds.refl _) (h.update (fun e₁ he₁ ↦ ?_) id)
        split at he₁
        · exact absurd he₁ (by simp)
        · rw [← Option.some.inj he₁]
          simp [Inserts, NodeQuery.addNode?]
      · exact Option.some.inj hstep ▸ h
    · exact Option.some.inj hstep ▸ h
  | packet inRemote inPacket elapsedUS =>
    rw [Node.step] at hstep
    split at hstep
    · exact Option.some.inj hstep ▸ h
    split at hstep
    · rw [Node.notifyQPacket] at hstep
      split at hstep
      · exact Option.some.inj hstep ▸ h
      · rename_i e he
        obtain ⟨res, hres, rfl⟩ := Option.map_eq_some_iff.1 hstep
        exact h.handled he (joins_handleEvent hres) _
    · exact Option.some.inj hstep ▸ h
  | latency id inRemoteNodes =>
    rw [Node.step, Node.notifyQLatency] at hstep
    split at hstep
    · exact Option.some.inj hstep ▸ h
    · rename_i e he
      obtain ⟨res, hres, rfl⟩ := Option.map_eq_some_iff.1 hstep
      exact h.handled he (joins_handleLatency hres) _
  | timeout id =>
    rw [Node.step, Node.timeoutQuery] at hstep
    split at hstep
    · exact Option.some.inj hstep ▸ h
    · rename_i e he
      obtain ⟨res, hres, rfl⟩ := Option.map_eq_some_iff.1 hstep
      have hout := h.handled he (joins_handleTimeout hres) e
      exact hout.of_adds (RingSet.Adds.refl _) hout.table

end Node

end Meridian

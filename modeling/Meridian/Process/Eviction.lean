import Meridian.Process.RingFrozen

/-!
# Evicting the nodes that do not answer

Three queries take a ring member out of the rings when their time runs out. The member should have
been asked and not have answered. Whom a query asks, and which answers it takes, differ:

* an `AddNodeQuery` asks nobody when its node is behind a firewall;
* a `ReqProbeGeneric` cannot write its request when there are no targets or too many of them, and does
  not take the answer of a node that has measured only some of them;
* a `RingManageQuery` does not ask the members behind a firewall, nor any when the ring is so large
  that the request cannot be written.

`Careful` is the condition on a step that rules these out, and `Entry.Fair` is what then holds of
every query in the table: it has asked, and has heard nothing that should have kept it from evicting.
-/

namespace Meridian

open Lib BufferWrapper RingManageQuery

/-- A packet for `m`. -/
def Output.isFor (m : NodeIdent) : Output → Bool
  | .packet p => p.dest.ident == m
  | _ => false

/-- A well-formed reply to what the query asks: the datagram, whose header carries the id of the
query, has the type of the reply, and its `parse` accepts it. -/
def NodeQuery.isReply (magic : UInt32) : NodeQuery → List UInt8 → Bool
  | .addNode _, inPacket =>
    inPacket.headD 0 == PONG && (BufferWrapper.parse (Packet.parseHeader magic) inPacket).isSome
  | .reqProbe _, inPacket =>
    inPacket.headD 0 == RET_PING_REQ && (BufferWrapper.parse (RetPing.parser magic) inPacket).isSome
  | .ringManage _, inPacket =>
    inPacket.headD 0 == RET_PING_REQ && (BufferWrapper.parse (RetPing.parser magic) inPacket).isSome
  | .other _, _ => false

/-- `m` has been asked by the query and has not answered it. -/
def Entry.Unresponsive (magic : UInt32) (e : Entry) (m : NodeIdent) : Prop :=
  (∃ o ∈ e.sent, o.isFor m = true) ∧ ∀ h ∈ e.heard, h.1 = m → e.query.isReply magic h.2 = false

instance (magic : UInt32) (e : Entry) (m : NodeIdent) : Decidable (e.Unresponsive magic m) := by
  unfold Entry.Unresponsive
  infer_instance

namespace Node

variable {env : NodeEnv} {s s' : Node} {id : UInt64} {e : Entry} {r : Fin MAX_NUM_RINGS}

/-! ### When a query evicts only those who have not answered -/

/-- The node can be taken out of the rings: it is in one that is not frozen. -/
def Evictable (rs : RingSet) (n : NodeIdent) : Prop :=
  ∃ r, n ∈ rs.ring r ∧ rs.ringFrozen r = false

/-- The ring that `performRingManagement` selects with this random number. -/
def selectedRing (rs : RingSet) (rand : ℕ) : Option ℕ :=
  (eligibleRings (List.range MAX_NUM_RINGS) rs).bind fun res ↦ res.1[rand % res.1.length]?

/-- The condition on a query whose time runs out: if its node is a member, it is one that was asked.
-/
def CarefulTimeout (rs : RingSet) : NodeQuery → Prop
  | .addNode q => Evictable rs q.remoteNode.ident →
      q.remoteNode.addrRendv = 0 ∧ q.remoteNode.portRendv = 0
  | .reqProbe q => Evictable rs q.srcNode.ident →
      1 ≤ q.remoteNodes.size ∧ q.remoteNodes.size ≤ 229
  | _ => True

/-- The condition on a step: a ring is managed only if no member is behind a firewall and there are
from 2 to 230 members; a node that has been asked to measure some nodes answers with as many; and the
node of a query whose time runs out was asked, if it is a member. -/
def Careful (env : NodeEnv) (s : Node) : Event → Prop
  | .ringManagement rand _ => ∀ r : Fin MAX_NUM_RINGS, selectedRing s.rings rand = some r.val →
      (∀ n ∈ s.rings.ring r, s.rings.rendvLookup n = none) ∧
        2 ≤ (s.rings.ring r).length ∧ (s.rings.ring r).length ≤ 230
  | .packet inRemote inPacket _ => ∀ queryType id e q ret,
      BufferWrapper.parse (Packet.parseHeader env.magic) inPacket = some (queryType, id) →
      s.table id = some e → e.query = .reqProbe q → inRemote = q.srcNode.ident →
      BufferWrapper.parse (RetPing.parser env.magic) inPacket = some ret →
      ret.nodes.length = q.remoteNodes.size
  | .timeout id => ∀ e, s.table id = some e → CarefulTimeout s.rings e.query
  | _ => True

/-- What holds of a query while it is in the table. -/
def FairQuery (magic : UInt32) (sent : List Output) (heard : List (NodeIdent × List UInt8)) :
    NodeQuery → Prop
  | .addNode q =>
      (q.remoteNode.addrRendv = 0 ∧ q.remoteNode.portRendv = 0 →
        ∃ o ∈ sent, o.isFor q.remoteNode.ident = true) ∧
      ∀ h ∈ heard, h.1 = q.remoteNode.ident → (NodeQuery.addNode q).isReply magic h.2 = false
  | .reqProbe q =>
      (1 ≤ q.remoteNodes.size ∧ q.remoteNodes.size ≤ 229 →
        ∃ o ∈ sent, o.isFor q.srcNode.ident = true) ∧
      ∀ h ∈ heard, h.1 = q.srcNode.ident → (NodeQuery.reqProbe q).isReply magic h.2 = false
  | .ringManage q =>
      (∀ m ∈ q.remoteNodes, ∃ o ∈ sent, o.isFor m = true) ∧
      ∀ h ∈ heard, h.1 ∈ q.remoteNodes → (NodeQuery.ringManage q).isReply magic h.2 = true →
        h.1 ∈ q.retNodeMap
  | .other _ => True

/-- The invariant of a careful run. -/
structure Fair (env : NodeEnv) (s : Node) : Prop where
  sound : s.Sound env
  fair : ∀ id e, s.table id = some e → FairQuery env.magic e.sent e.heard e.query
  evictions : ∀ v ∈ s.evictions, v.entry.Unresponsive env.magic v.member

/-! ### Asking -/

/-- A request that fits goes out. -/
theorem exists_isFor {bs : List UInt8} {dest : NodeIdentRendv} {created : Int × RealPacket}
    (h : Written MAX_UDP_PACKET_SIZE dest bs created) (hlen : bs.length ≤ 1400) :
    ∃ o ∈ sendPacket created, o.isFor dest.ident = true := by
  have hok : ¬ created.1 = -1 := by
    rw [h.result_eq_zero.2 hlen]
    decide
  refine ⟨.packet created.2, by simp [sendPacket, hok], ?_⟩
  simp [Output.isFor, h.dest_eq]

/-- A measurement request for at least one and at most 229 targets goes out. -/
theorem reqGeneric_isFor (magic : UInt32) (pkt : ReqGeneric) (dest : NodeIdentRendv)
    (hpos : 1 ≤ pkt.targets.length) (hle : pkt.targets.length ≤ 229) :
    ∃ o ∈ sendPacket (pkt.createRealPacket magic (RealPacket.new dest MAX_UDP_PACKET_SIZE)),
      o.isFor dest.ident = true := by
  have hne : pkt.targets ≠ [] := by
    rintro h
    rw [h] at hpos
    exact absurd hpos (by simp)
  refine exists_isFor (ReqGeneric.createRealPacket_written pkt (by decide) (by omega) hne) ?_
  rw [ReqGeneric.length_encode]
  omega

theorem addNode_fair (env : NodeEnv) (q : AddNodeQuery) (sent : List Output)
    (hsent : q.init env.magic env.rendv = .ping sent ∨
      sent = [] ∧ ¬ (q.remoteNode.addrRendv = 0 ∧ q.remoteNode.portRendv = 0)) :
    FairQuery env.magic sent [] (.addNode q) := by
  refine ⟨fun hrendv ↦ ?_, by simp⟩
  rcases hsent with hinit | ⟨-, hnot⟩
  · rw [AddNodeQuery.init, if_pos hrendv] at hinit
    rw [← AddNodeStart.ping.inj hinit]
    refine exists_isFor (createHeaderPacket_written _ _ (by decide)) ?_
    simp
  · exact absurd hrendv hnot

theorem reqProbe_fair (env : NodeEnv) (q : ReqProbeQuery) :
    FairQuery env.magic (q.init env.magic env.rendv) [] (.reqProbe q) := by
  refine ⟨fun hsize ↦ ?_, by simp⟩
  refine reqGeneric_isFor env.magic _ q.srcNode ?_ ?_ <;>
    simp only [Std.ExtTreeSet.length_toList] <;> omega

/-- Every member of a ring without firewalled members is asked. -/
theorem ringManage_fair (env : NodeEnv) {rs : RingSet}
    (hinv : RingSet.Inv env.getRingNumber rs) (id : UInt64)
    (hrendv : ∀ n ∈ rs.ring r, rs.rendvLookup n = none) (hlow : 2 ≤ (rs.ring r).length)
    (hhigh : (rs.ring r).length ≤ 230) :
    FairQuery env.magic ((RingManageQuery.new id r).init env.magic env.rendv rs).2.2 []
      (.ringManage ((RingManageQuery.new id r).init env.magic env.rendv rs).1) := by
  obtain ⟨hwatch, -, -, hring⟩ := init_watching (q := RingManageQuery.new id r) env.magic env.rendv
    hinv (RingSet.checkRing_natCast r)
  have hmembers := hwatch.members
  rw [hring] at hmembers
  refine ⟨fun m hm ↦ ?_, by simp⟩
  simp only [RingManageQuery.init, RingManageQuery.new, RingSet.checkRing_natCast, RingSet.freezeRing]
    at hmembers hm ⊢
  set nodes := (rs.memberSet r).toList with hnodes
  have hm : m ∈ nodes := Std.ExtTreeSet.mem_toList.2 hm
  have hnone : ∀ n ∈ nodes, rs.rendvLookup n = none := fun n hn ↦ hrendv n (hmembers.subset hn)
  have hlength := hmembers.length_eq
  -- the targets are the other members
  have htargets : (targetsOf rs nodes m).length + 1 = nodes.length := by
    have hcount := List.length_eq_countP_add_countP (l := nodes) (fun n ↦ m == n)
    rw [targetsOf, ← List.countP_eq_length_filter]
    have hone : nodes.countP (fun n ↦ m == n) = 1 := by
      have hnd := List.nodup_iff_count_eq_one.1 (nodup_toList (rs.memberSet r)) m hm
      rw [← hnd, List.count]
      exact List.countP_congr fun n _ ↦ by rw [BEq.comm]
    have hrest : nodes.countP (fun n ↦ !(m == n || (rs.rendvLookup n).isSome)) =
        nodes.countP (fun n ↦ ¬ (m == n) = true) :=
      List.countP_congr fun n hn ↦ by simp [hnone n hn]
    omega
  obtain ⟨o, ho, hfor⟩ := reqGeneric_isFor env.magic
    ⟨⟨Packet.new id, env.rendv.addr, env.rendv.port⟩, .meridPing, targetsOf rs nodes m⟩
    ⟨m.addr, m.port, 0, 0⟩ (by dsimp only; omega) (by dsimp only; omega)
  refine ⟨o, List.mem_flatMap.2 ⟨m, List.mem_filter.2 ⟨hm, ?_⟩, ho⟩, hfor⟩
  have hlookup := hnone m hm
  rw [RingSet.rendvLookup] at hlookup ⊢
  simp [hlookup]

/-! ### Inserting queries -/

theorem Fair.insertNewQuery (h : s.Fair env) (hsound : s'.Sound env)
    (hfair : FairQuery env.magic e.sent e.heard e.query)
    (hins : s.insertNewQuery id e = some s') : s'.Fair env := by
  rw [Node.insertNewQuery] at hins
  split at hins
  · exact absurd hins (by simp)
  · have heq := Option.some.inj hins
    subst heq
    refine ⟨hsound, fun k e' he' ↦ ?_, h.evictions⟩
    by_cases hk : k = id
    · subst hk
      change Function.update s.table k (some e) k = some e' at he'
      rw [Function.update_self, Option.some.injEq] at he'
      exact he' ▸ hfair
    · change Function.update s.table id (some e) k = some e' at he'
      rw [Function.update_of_ne hk] at he'
      exact h.fair k e' he'

theorem Fair.getD_insertNewQuery (h : s.Fair env) (he : e.query.ringManage? = none)
    (hfin : e.query.isFinished = false) (hfair : FairQuery env.magic e.sent e.heard e.query) :
    ((s.insertNewQuery id e).getD s).Fair env := by
  rcases hins : s.insertNewQuery id e with - | s'
  · exact h
  · exact h.insertNewQuery (h.sound.insertNewQuery he hfin hins) hfair hins

theorem Fair.startReqProbe (h : s.Fair env) (kind : ReqMeasureKind) (srcNode : NodeIdentRendv)
    (remoteNodes : NodeSet) (id : UInt64) :
    (s.startReqProbe env kind srcNode remoteNodes id).Fair env :=
  h.getD_insertNewQuery rfl rfl (reqProbe_fair env _)

theorem Fair.addNodeToRing (h : s.Fair env) (inRemote : NodeIdentRendv) (id probeId : UInt64) :
    (s.addNodeToRing env inRemote id probeId).Fair env := by
  set q := AddNodeQuery.new id inRemote with hq
  have hnot : q.init env.magic env.rendv = .reqProbe ∨ q.init env.magic env.rendv = .giveUp →
      ¬ (q.remoteNode.addrRendv = 0 ∧ q.remoteNode.portRendv = 0) := by
    rintro hinit hrendv
    rw [AddNodeQuery.init, if_pos hrendv] at hinit
    exact absurd hinit (by simp)
  rw [Node.addNodeToRing, ← hq]
  split
  · rename_i sent hinit
    exact h.getD_insertNewQuery rfl rfl (addNode_fair env q sent (Or.inl hinit))
  · rename_i hinit
    exact h.getD_insertNewQuery rfl rfl (addNode_fair env q [] (Or.inr ⟨rfl, hnot (Or.inr hinit)⟩))
  · rename_i hinit
    split
    · exact h
    · rename_i s₁ hins
      refine Fair.startReqProbe (h.insertNewQuery (h.sound.insertNewQuery rfl rfl hins) ?_ hins)
        _ _ _ _
      exact addNode_fair env q [] (Or.inr ⟨rfl, hnot (Or.inl hinit)⟩)

/-- Looking for the eligible rings only rearranges their members. -/
theorem eligibleRings_perm : ∀ {is l : List ℕ} {rs rs' : RingSet},
    eligibleRings is rs = some (l, rs') →
      rs'.rendvMapping = rs.rendvMapping ∧ ∀ r, (rs'.ring r).Perm (rs.ring r) := by
  intro is
  induction is with
  | nil =>
    intro l rs rs' h
    simp only [eligibleRings, Option.some.injEq, Prod.mk.injEq] at h
    obtain ⟨-, rfl⟩ := h
    exact ⟨rfl, fun r ↦ List.Perm.refl _⟩
  | cons i is ih =>
    intro l rs rs' h
    obtain ⟨res, hres, h⟩ := Option.bind_eq_some_iff.1 h
    obtain ⟨⟨l', rs₁⟩, hrest, h⟩ := Option.map_eq_some_iff.1 h
    obtain ⟨hmap, hperm⟩ := ih hrest
    obtain ⟨hmap', hperm'⟩ := RingSet.eligibleForReplacement_perm hres
    simp only [Prod.mk.injEq] at h
    obtain ⟨-, rfl⟩ := h
    exact ⟨hmap.trans hmap', fun r ↦ (hperm r).trans (hperm' r)⟩

theorem Fair.performRingManagement (h : s.Fair env) {rand : ℕ}
    (hcare : Careful env s (.ringManagement rand id))
    (hstep : s.performRingManagement env rand id = some s') : s'.Fair env := by
  have hsound' := h.sound.performRingManagement hstep
  obtain ⟨⟨l, rs⟩, hl, hstep⟩ := Option.map_eq_some_iff.1 hstep
  obtain ⟨hinv, hkept, helig⟩ := eligibleRings_spec hl h.sound.inv
  obtain ⟨hmap, hperm⟩ := eligibleRings_perm hl
  have hsound : Sound env { s with rings := rs } :=
    h.sound.of_frozenKept hinv hkept h.sound.unfinished fun _ ↦ rfl
  dsimp only at hstep
  split at hstep
  · exact hstep ▸ ⟨hsound, h.fair, h.evictions⟩
  · rename_i i hi
    obtain ⟨r, hr, -⟩ := helig i (List.mem_of_getElem? hi)
    have hir : i = r.val := by exact_mod_cast hr
    obtain ⟨hrendv, hlow, hhigh⟩ := hcare r (by rw [selectedRing, hl, Option.bind_some, hi, hir])
    rw [← (hperm r).length_eq] at hlow hhigh
    -- `eligibleRings` keeps the rendavous mapping, so no member of the ring has one now either
    have hnone : ∀ n ∈ rs.ring r, rs.rendvLookup n = none := by
      intro n hn
      rw [RingSet.rendvLookup, hmap]
      exact hrendv n ((hperm r).subset hn)
    rw [hr] at hstep
    split at hstep
    · exact hstep ▸ ⟨hsound, h.fair, h.evictions⟩
    · rename_i s₁ hins
      have hfair := ringManage_fair env hinv id hnone hlow hhigh
      subst hstep
      unfold Node.insertNewQuery at hins
      split at hins
      · exact absurd hins (by simp)
      · have heq := Option.some.inj hins
        subst heq
        refine ⟨hsound', fun k e' he' ↦ ?_, h.evictions⟩
        by_cases hk : k = id
        · subst hk
          dsimp only at he'
          rw [Function.update_self, Option.some.injEq] at he'
          exact he' ▸ hfair
        · dsimp only at he'
          rw [Function.update_of_ne hk] at he'
          exact h.fair k e' he'

/-! ### Handlers -/

theorem Fair.handled (h : s.Fair env) {res : NodeQuery × RingSet}
    (hsound : (handled id e s res).Sound env)
    (hfair : res.1.isFinished = false → FairQuery env.magic e.sent e.heard res.1) :
    (handled id e s res).Fair env := by
  refine ⟨hsound, fun k e' he' ↦ ?_, h.evictions⟩
  by_cases hk : k = id
  · subst hk
    change Function.update s.table k (if res.1.isFinished then none else some _) k = some e' at he'
    rw [Function.update_self] at he'
    split at he'
    · exact absurd he' (by simp)
    · rename_i hfin
      rw [← Option.some.inj he']
      exact hfair (by simpa using hfin)
  · change Function.update s.table id (if res.1.isFinished then none else some _) k = some e' at he'
    rw [Function.update_of_ne hk] at he'
    exact h.fair k e' he'

/-- The comparison of a sender with the node of a query, field by field. -/
theorem eq_ident {n : NodeIdent} {m : NodeIdentRendv} (h : ¬ (n.addr ≠ m.addr ∨ n.port ≠ m.port)) :
    n = m.ident := by
  obtain ⟨haddr, hport⟩ := not_or.1 h
  cases n
  simp only [not_not] at haddr hport
  rw [NodeIdentRendv.ident, haddr, hport]

theorem ne_ident {n : NodeIdent} {m : NodeIdentRendv} (h : n.addr ≠ m.addr ∨ n.port ≠ m.port) :
    n ≠ m.ident := by
  rintro rfl
  exact h.elim (fun h ↦ h rfl) (fun h ↦ h rfl)

/-- A statement about the datagrams a query has heard, with one more. -/
theorem forall_heard_concat {heard : List (NodeIdent × List UInt8)} {x : NodeIdent × List UInt8}
    {P : NodeIdent × List UInt8 → Prop} (h : ∀ y ∈ heard, P y) (hx : P x) :
    ∀ y ∈ heard ++ [x], P y := by
  intro y hy
  rcases List.mem_append.1 hy with hy | hy
  · exact h y hy
  · exact List.mem_singleton.1 hy ▸ hx

theorem fairQuery_handleEvent {rs : RingSet} {q : NodeQuery} {res : NodeQuery × RingSet}
    {sent : List Output} {heard : List (NodeIdent × List UInt8)} {inRemote : NodeIdent}
    {inPacket : List UInt8} {elapsedUS : UInt32} (hfair : FairQuery env.magic sent heard q)
    (hcare : ∀ q₁ ret, q = .reqProbe q₁ → inRemote = q₁.srcNode.ident →
      BufferWrapper.parse (RetPing.parser env.magic) inPacket = some ret →
      ret.nodes.length = q₁.remoteNodes.size)
    (h : Node.handleEvent env inRemote inPacket elapsedUS rs q = some res)
    (hfin : res.1.isFinished = false) :
    FairQuery env.magic sent (heard ++ [(inRemote, inPacket)]) res.1 := by
  cases q with
  | addNode q =>
    obtain ⟨⟨q', rs'⟩, hres, rfl⟩ := Option.map_eq_some_iff.1 h
    rw [AddNodeQuery.handleEvent] at hres
    split at hres
    · rename_i htype
      rw [← (Prod.mk.inj (Option.some.inj hres)).1]
      refine ⟨hfair.1, forall_heard_concat hfair.2 fun _ ↦ ?_⟩
      simp only [NodeQuery.isReply, beq_eq_false_iff_ne.2 htype, Bool.false_and]
    split at hres
    · rename_i hsender
      rw [← (Prod.mk.inj (Option.some.inj hres)).1]
      exact ⟨hfair.1, forall_heard_concat hfair.2 fun heq ↦ absurd heq (ne_ident hsender)⟩
    · obtain ⟨rs₁, -, heq⟩ := Option.map_eq_some_iff.1 hres
      rw [← (Prod.mk.inj heq).1] at hfin
      exact absurd hfin (by simp [NodeQuery.isFinished])
  | reqProbe q =>
    have heq := Option.some.inj h
    subst heq
    dsimp only at hfin ⊢
    unfold ReqProbeQuery.handleEvent at hfin ⊢
    split
    · rename_i htype
      refine ⟨hfair.1, forall_heard_concat hfair.2 fun _ ↦ ?_⟩
      simp only [NodeQuery.isReply, beq_eq_false_iff_ne.2 htype, Bool.false_and]
    rename_i htype
    split
    · rename_i hsender
      exact ⟨hfair.1, forall_heard_concat hfair.2 fun heq ↦ absurd heq (ne_ident hsender)⟩
    rename_i hsender
    split
    · rename_i hparse
      refine ⟨hfair.1, forall_heard_concat hfair.2 fun _ ↦ ?_⟩
      simp only [NodeQuery.isReply, hparse, Option.isSome_none, Bool.and_false]
    · rename_i ret hparse
      -- a full answer finishes the query, so it is not there to be asked about
      have hfull := hcare q ret rfl (eq_ident hsender) hparse
      rw [if_neg htype, if_neg hsender, hparse] at hfin
      simp [hfull, NodeQuery.isFinished] at hfin
  | ringManage q =>
    obtain ⟨⟨q', rs', calls⟩, hres, rfl⟩ := Option.map_eq_some_iff.1 h
    rw [RingManageQuery.handleEvent] at hres
    split at hres
    · rename_i htype
      rw [← (Prod.mk.inj (Option.some.inj hres)).1]
      refine ⟨hfair.1, forall_heard_concat hfair.2 fun _ hreply ↦ ?_⟩
      simp only [NodeQuery.isReply, beq_eq_false_iff_ne.2 htype, Bool.false_and] at hreply
      exact absurd hreply (by simp)
    split at hres
    · rename_i hmem
      rw [← (Prod.mk.inj (Option.some.inj hres)).1]
      refine ⟨hfair.1, forall_heard_concat hfair.2 fun hin ↦ ?_⟩
      have hout : q.remoteNodes.contains inRemote = false := by simpa using hmem
      rw [Std.ExtTreeSet.mem_iff_contains, hout] at hin
      exact absurd hin (by simp)
    split at hres
    · rename_i hknown
      rw [← (Prod.mk.inj (Option.some.inj hres)).1]
      exact ⟨hfair.1, forall_heard_concat hfair.2 fun _ _ ↦
        Std.ExtTreeMap.mem_iff_contains.2 hknown⟩
    split at hres
    · rename_i hparse
      rw [← (Prod.mk.inj (Option.some.inj hres)).1]
      refine ⟨hfair.1, forall_heard_concat hfair.2 fun _ hreply ↦ ?_⟩
      simp only [NodeQuery.isReply, hparse, Option.isSome_none, Bool.and_false] at hreply
      exact absurd hreply (by simp)
    · rename_i ret hparse
      dsimp only at hres
      split at hres
      · obtain ⟨res, -, heq⟩ := Option.map_eq_some_iff.1 hres
        rw [← (Prod.mk.inj heq).1] at hfin
        exact absurd hfin (by simp [NodeQuery.isFinished])
      · rw [← (Prod.mk.inj (Option.some.inj hres)).1]
        refine ⟨hfair.1, forall_heard_concat (fun y hy hin hreply ↦ ?_) fun _ _ ↦ ?_⟩
        · exact mem_insert_iff.2 (Or.inr (hfair.2 y hy hin hreply))
        · exact mem_insert_iff.2 (Or.inl rfl)
  | other finished =>
    rw [← Option.some.inj h]
    trivial

theorem fairQuery_handleLatency {rs : RingSet} {q : NodeQuery} {res : NodeQuery × RingSet}
    {sent : List Output} {heard : List (NodeIdent × List UInt8)}
    {inRemoteNodes : List NodeIdentLat} (hfair : FairQuery env.magic sent heard q)
    (h : handleLatency env inRemoteNodes rs q = some res) (hfin : res.1.isFinished = false) :
    FairQuery env.magic sent heard res.1 := by
  cases q with
  | addNode q =>
    obtain ⟨⟨q', rs'⟩, hres, rfl⟩ := Option.map_eq_some_iff.1 h
    unfold AddNodeQuery.handleLatency at hres
    split at hres
    · split at hres
      · rw [← (Prod.mk.inj (Option.some.inj hres)).1]
        exact hfair
      · obtain ⟨rs₁, -, heq⟩ := Option.map_eq_some_iff.1 hres
        rw [← (Prod.mk.inj heq).1] at hfin
        exact absurd hfin (by simp [NodeQuery.isFinished])
    · rw [← (Prod.mk.inj (Option.some.inj hres)).1]
      exact hfair
  | reqProbe q => exact Option.some.inj h ▸ hfair
  | ringManage q => exact Option.some.inj h ▸ hfair
  | other finished => exact Option.some.inj h ▸ hfair

/-! ### Evicting -/

theorem mem_members {rs : RingSet} {m : NodeIdent} : m ∈ members rs ↔ ∃ r, m ∈ rs.ring r := by
  simp [members]

/-- The one-argument `eraseNode` removes the node it is given, from a ring that is not frozen, and no
other. -/
theorem eraseNode_gone {rs : RingSet} {n m : NodeIdent} {res : Int × RingSet}
    (hinv : RingSet.Inv env.getRingNumber rs) (h : rs.eraseNode env.getRingNumber n = some res)
    (hm : m ∈ members rs) (hgone : m ∉ members res.2) : m = n ∧ Evictable rs n := by
  obtain ⟨r, hr⟩ := mem_members.1 hm
  have hgone : ∀ k, m ∉ res.2.ring k := fun k hk ↦ hgone (mem_members.2 ⟨k, hk⟩)
  rw [RingSet.eraseNode] at h
  split at h
  · rw [← Option.some.inj h] at hgone
    exact absurd hr (hgone r)
  · rename_i lat hlat
    obtain ⟨rs', herase, rfl⟩ := Option.map_eq_some_iff.1 h
    have hmem : n ∈ rs.ring (env.getRingNumber lat) := (hinv.mem_ring n _).2 ⟨lat, hlat, rfl⟩
    rcases hf : rs.ringFrozen (env.getRingNumber lat) with - | -
    · obtain ⟨rs₁, herase₁, hrem⟩ := RingSet.eraseNodeAssert_of_mem hf hmem
      rw [herase, Option.some.injEq] at herase₁
      subst herase₁
      refine ⟨?_, env.getRingNumber lat, hmem, hf⟩
      by_cases hk : r = env.getRingNumber lat
      · subst hk
        exact (List.mem_cons.1 (hrem.perm.symm.subset hr)).resolve_right (hgone _)
      · rw [← hrem.ring_ne hk] at hr
        exact absurd hr (hgone r)
    · rw [RingSet.eraseNodeAssert_frozen hf, Option.some.injEq] at herase
      subst herase
      exact absurd hr (hgone r)

/-- **Whom a timeout removes**: someone who has been asked and has not answered. -/
theorem Fair.unresponsive (h : s.Fair env) (hid : s.table id = some e)
    (hcare : CarefulTimeout s.rings e.query) {res : NodeQuery × RingSet}
    (hres : handleTimeout env s.rings e.query = some res) {m : NodeIdent}
    (hm : m ∈ members s.rings) (hgone : m ∉ members res.2) : e.Unresponsive env.magic m := by
  have hfair := h.fair id e hid
  have hwatch := h.sound.watching_entry hid
  have hinv := h.sound.inv
  rw [Entry.Unresponsive]
  generalize e.query = q at hcare hres hfair hwatch ⊢
  cases q with
  | addNode q =>
    obtain ⟨⟨q', rs'⟩, hhandler, rfl⟩ := Option.map_eq_some_iff.1 hres
    obtain ⟨res, herase, heq⟩ := Option.map_eq_some_iff.1 hhandler
    rw [← (Prod.mk.inj heq).2] at hgone
    obtain ⟨rfl, hev⟩ := eraseNode_gone hinv herase hm hgone
    exact ⟨hfair.1 (hcare hev), hfair.2⟩
  | reqProbe q =>
    obtain ⟨⟨q', rs'⟩, hhandler, rfl⟩ := Option.map_eq_some_iff.1 hres
    obtain ⟨res, herase, heq⟩ := Option.map_eq_some_iff.1 hhandler
    rw [← (Prod.mk.inj heq).2] at hgone
    obtain ⟨rfl, hev⟩ := eraseNode_gone hinv herase hm hgone
    exact ⟨hfair.1 (hcare hev), hfair.2⟩
  | ringManage q =>
    obtain ⟨r, hr⟩ := hwatch q rfl
    obtain ⟨⟨q', rs', calls⟩, hhandler, rfl⟩ := Option.map_eq_some_iff.1 hres
    obtain ⟨q₁, rs₁, calls₁, heq, hhandled, -, hperm, -⟩ := hr.handleTimeout env.hyperVolume
    rw [hhandler] at heq
    simp only [Option.some.injEq, Prod.mk.injEq] at heq
    obtain ⟨-, rfl, -⟩ := heq
    -- the members of the other rings stay, and those of this one unless they have not answered
    have hbad : m ∈ q.badNodes := by
      obtain ⟨k, hk⟩ := mem_members.1 hm
      have hgone : ∀ k, m ∉ rs'.ring k := fun k hk ↦ hgone (mem_members.2 ⟨k, hk⟩)
      by_cases hkr : k = r
      · subst hkr
        exact (List.mem_append.1 (hperm.symm.subset hk)).resolve_right (hgone k)
      · rw [← hhandled.others.ring hkr] at hk
        exact absurd hk (hgone k)
    obtain ⟨hmem, hsilent⟩ := List.mem_filter.1 hbad
    have hmem := Std.ExtTreeSet.mem_toList.1 hmem
    refine ⟨hfair.1 m hmem, fun y hy hym ↦ ?_⟩
    by_contra hreply
    have hknown := hfair.2 y hy (by rw [hym]; exact hmem) (by simpa using hreply)
    rw [hym, Std.ExtTreeMap.mem_iff_contains] at hknown
    rw [hknown] at hsilent
    exact absurd hsilent (by simp)
  | other finished =>
    rw [← Option.some.inj hres] at hgone
    exact absurd hm hgone

theorem Fair.timeoutQuery (h : s.Fair env) (hcare : Careful env s (.timeout id))
    (hstep : s.timeoutQuery env id = some s') : s'.Fair env := by
  have hsound := h.sound.timeoutQuery hstep
  rw [Node.timeoutQuery] at hstep
  split at hstep
  · exact Option.some.inj hstep ▸ h
  rename_i e hid
  obtain ⟨res, hres, rfl⟩ := Option.map_eq_some_iff.1 hstep
  have hsound' : (Node.handled id e s res).Sound env :=
    h.sound.handled hid (handleTimeout_effect h.sound.inv (h.sound.watching_entry hid) hres) e
  have hfair := h.handled hsound' fun hfin ↦ by
    have hfair := h.fair id e hid
    generalize e.query = q at hres hfair
    -- the queries that evict have finished
    cases q with
    | addNode q =>
      obtain ⟨res', hres', rfl⟩ := Option.map_eq_some_iff.1 hres
      obtain ⟨_, -, rfl⟩ := Option.map_eq_some_iff.1 hres'
      exact absurd hfin (by simp [NodeQuery.isFinished])
    | reqProbe q =>
      obtain ⟨res', hres', rfl⟩ := Option.map_eq_some_iff.1 hres
      obtain ⟨_, -, rfl⟩ := Option.map_eq_some_iff.1 hres'
      exact absurd hfin (by simp [NodeQuery.isFinished])
    | ringManage q =>
      obtain ⟨res', hres', rfl⟩ := Option.map_eq_some_iff.1 hres
      obtain ⟨_, -, hres'⟩ := Option.bind_eq_some_iff.1 hres'
      obtain ⟨_, -, rfl⟩ := Option.map_eq_some_iff.1 hres'
      exact absurd hfin (by simp [NodeQuery.isFinished])
    | other finished =>
      rw [← Option.some.inj hres]
      trivial
  refine ⟨hsound, hfair.fair, fun v hv ↦ ?_⟩
  rcases List.mem_append.1 hv with hv | hv
  · exact h.evictions v hv
  · obtain ⟨m, hm, rfl⟩ := List.mem_map.1 hv
    obtain ⟨hmem, hgone⟩ := List.mem_filter.1 hm
    exact h.unresponsive hid (hcare e hid) hres hmem (by simpa using hgone)

/-! ### Runs -/

/-- **One careful step.** -/
theorem Fair.step {ev : Event} (h : s.Fair env) (hcare : Careful env s ev)
    (hstep : s.step env ev = some s') : s'.Fair env := by
  have hsound := h.sound.step hstep
  cases ev with
  | addNode inRemote id probeId =>
    exact Option.some.inj hstep ▸ h.addNodeToRing inRemote id probeId
  | reqProbe kind srcNode remoteNodes id =>
    exact Option.some.inj hstep ▸ h.startReqProbe kind srcNode remoteNodes id
  | ringManagement rand id => exact h.performRingManagement hcare hstep
  | other id => exact Option.some.inj hstep ▸ h.getD_insertNewQuery rfl rfl trivial
  | otherFinished id =>
    rw [Node.step] at hstep
    split at hstep
    · rename_i e _
      split at hstep
      · have heq := Option.some.inj hstep
        subst heq
        have hsound' : (Node.handled id e s (.other true, s.rings)).Sound env := hsound
        exact h.handled hsound' fun _ ↦ trivial
      · exact Option.some.inj hstep ▸ h
    · exact Option.some.inj hstep ▸ h
  | packet inRemote inPacket elapsedUS =>
    rw [Node.step] at hstep
    split at hstep
    · exact Option.some.inj hstep ▸ h
    rename_i queryType id hparse
    split at hstep
    · rw [Node.notifyQPacket] at hstep
      split at hstep
      · exact Option.some.inj hstep ▸ h
      · rename_i e hid
        obtain ⟨res, hres, rfl⟩ := Option.map_eq_some_iff.1 hstep
        refine h.handled hsound fun hfin ↦ fairQuery_handleEvent (h.fair id e hid) ?_ hres hfin
        -- the answer may end the query, which is where the condition is used
        exact fun q₁ ret hq₁ hsrc hret ↦ hcare queryType id e q₁ ret hparse hid hq₁ hsrc hret
    · exact Option.some.inj hstep ▸ h
  | latency id inRemoteNodes =>
    rw [Node.step, Node.notifyQLatency] at hstep
    split at hstep
    · exact Option.some.inj hstep ▸ h
    · rename_i e hid
      obtain ⟨res, hres, rfl⟩ := Option.map_eq_some_iff.1 hstep
      exact h.handled hsound (fairQuery_handleLatency (h.fair id e hid) hres)
  | timeout id => exact h.timeoutQuery hcare hstep

theorem new_fair (env : NodeEnv) (primarySize secondarySize : UInt32) :
    (new primarySize secondarySize).Fair env :=
  ⟨new_sound env primarySize secondarySize, fun _ _ h ↦ absurd h (by simp [new]), by simp [new]⟩

/-- **Eviction soundness.** In a run whose steps are all careful, every member that a timeout has
removed had been asked by that query, and no well-formed answer of it had reached the query. -/
theorem evicted_unresponsive (env : NodeEnv) (primarySize secondarySize : UInt32)
    (events : List Event)
    (hcare : AllSteps (Careful env) (Node.step env) (new primarySize secondarySize) events)
    (s : Node) (hrun : run (Node.step env) (new primarySize secondarySize) events = some s) :
    ∀ v ∈ s.evictions, v.entry.Unresponsive env.magic v.member :=
  (run_invariant (P := Fair env) (fun _ _ _ h hcare hstep ↦ h.step hcare hstep)
    (new_fair env primarySize secondarySize) hcare hrun).evictions

/-- A member that is asked again, does not answer, and is removed. -/
theorem evicted_unresponsive_silent : ∃ s,
    run (Node.step ⟨7, ⟨0, 0⟩, fun _ _ _ ↦ 1, fun _ ↦ 0⟩) (new 1 1)
      [.addNode ⟨1, 80, 0, 0⟩ 11 0, .latency 11 [⟨1, 80, 0⟩, ⟨0, 0, 30⟩],
        .addNode ⟨1, 80, 0, 0⟩ 12 0, .timeout 12] = some s ∧
      s.evictions.map Eviction.member = [⟨1, 80⟩] ∧
      ∀ v ∈ s.evictions, v.entry.Unresponsive 7 v.member := by
  obtain ⟨s, hs, hmember⟩ := Option.map_eq_some_iff.1 (show
    (run (Node.step ⟨7, ⟨0, 0⟩, fun _ _ _ ↦ 1, fun _ ↦ 0⟩) (new 1 1)
      [.addNode ⟨1, 80, 0, 0⟩ 11 0, .latency 11 [⟨1, 80, 0⟩, ⟨0, 0, 30⟩],
        .addNode ⟨1, 80, 0, 0⟩ 12 0, .timeout 12]).map
      (fun s ↦ s.evictions.map Eviction.member) = some [⟨1, 80⟩] by decide +kernel)
  -- the query that times out is the one that pinged
  obtain ⟨s₀, hs₀, hentry⟩ := Option.map_eq_some_iff.1 (show
    (run (Node.step ⟨7, ⟨0, 0⟩, fun _ _ _ ↦ 1, fun _ ↦ 0⟩) (new 1 1)
      [.addNode ⟨1, 80, 0, 0⟩ 11 0, .latency 11 [⟨1, 80, 0⟩, ⟨0, 0, 30⟩],
        .addNode ⟨1, 80, 0, 0⟩ 12 0]).map
      (fun s ↦ (s.table 12).all fun e ↦ e.query.addNode?.any (·.remoteNode == ⟨1, 80, 0, 0⟩)) =
        some true by decide +kernel)
  refine ⟨s, hs, hmember,
    evicted_unresponsive ⟨7, ⟨0, 0⟩, fun _ _ _ ↦ 1, fun _ ↦ 0⟩ 1 1 _ ?_ s hs⟩
  simp only [AllSteps, Careful, true_and]
  refine fun s₁ h₁ s₂ h₂ s₃ h₃ ↦ ⟨?_, fun _ _ ↦ trivial⟩
  rw [run_cons_eq_some.2 ⟨s₁, h₁, run_cons_eq_some.2 ⟨s₂, h₂, run_cons_eq_some.2 ⟨s₃, h₃, rfl⟩⟩⟩,
    Option.some.injEq] at hs₀
  rintro ⟨query, sent, heard⟩ he
  rw [hs₀] at he
  rw [he, Option.all_some] at hentry
  cases query with
  | addNode q =>
    have hremote : q.remoteNode = ⟨1, 80, 0, 0⟩ := by simpa [NodeQuery.addNode?] using hentry
    rw [CarefulTimeout, hremote]
    exact fun _ ↦ ⟨rfl, rfl⟩
  | reqProbe q => exact absurd hentry (by simp [NodeQuery.addNode?])
  | ringManage q => exact absurd hentry (by simp [NodeQuery.addNode?])
  | other finished => exact absurd hentry (by simp [NodeQuery.addNode?])

/-- Three evictions of a member that was not asked, or that has answered: by an `AddNodeQuery` when
both sides are behind a firewall; by a `RingManageQuery` of a member behind a firewall; and by a
`ReqProbeGeneric` whose node has measured one of two targets. -/
theorem evicted_unasked :
    (∃ s, run (Node.step ⟨7, ⟨6, 900⟩, fun _ _ _ ↦ 1, fun _ ↦ 0⟩) (new 1 1)
        [.addNode ⟨1, 80, 0, 0⟩ 11 0, .packet ⟨1, 80⟩ ((Packet.new 11).encode 7 PONG) 30,
          .addNode ⟨1, 80, 5, 900⟩ 12 0, .timeout 12] = some s ∧
      ∃ v ∈ s.evictions, ¬ v.entry.Unresponsive 7 v.member) ∧
    (∃ s, run (Node.step ⟨7, ⟨0, 0⟩, fun _ _ _ ↦ 1, fun _ ↦ 0⟩) (new 1 2)
        [.addNode ⟨1, 80, 0, 0⟩ 11 0, .latency 11 [⟨1, 80, 0⟩, ⟨0, 0, 30⟩],
          .addNode ⟨2, 80, 0, 0⟩ 12 0, .latency 12 [⟨2, 80, 0⟩, ⟨0, 0, 40⟩],
          .addNode ⟨3, 80, 5, 900⟩ 13 14, .latency 13 [⟨3, 80, 0⟩, ⟨0, 0, 50⟩],
          .ringManagement 0 15, .timeout 15] = some s ∧
      ∃ v ∈ s.evictions, ¬ v.entry.Unresponsive 7 v.member) ∧
    (∃ s, run (Node.step ⟨7, ⟨0, 0⟩, fun _ _ _ ↦ 1, fun _ ↦ 0⟩) (new 1 1)
        [.addNode ⟨1, 80, 0, 0⟩ 11 0, .packet ⟨1, 80⟩ ((Packet.new 11).encode 7 PONG) 30,
          .reqProbe .tcp ⟨1, 80, 0, 0⟩ (((∅ : NodeSet).insert ⟨8, 1⟩).insert ⟨9, 1⟩) 12,
          .packet ⟨1, 80⟩ (RetPing.encode 7 ⟨Packet.new 12, [⟨8, 1, 20⟩]⟩) 60,
          .timeout 12] = some s ∧
      ∃ v ∈ s.evictions, ¬ v.entry.Unresponsive 7 v.member) := by
  have hread : ∀ o : Option Node,
      o.map (fun s ↦ s.evictions.any fun v ↦ !decide (v.entry.Unresponsive 7 v.member)) =
        some true → ∃ s, o = some s ∧ ∃ v ∈ s.evictions, ¬ v.entry.Unresponsive 7 v.member := by
    intro o ho
    obtain ⟨s, hs, hany⟩ := Option.map_eq_some_iff.1 ho
    obtain ⟨v, hv, hnot⟩ := List.any_eq_true.1 hany
    exact ⟨s, hs, v, hv, by simpa using hnot⟩
  refine ⟨hread _ ?_, hread _ ?_, hread _ ?_⟩
  all_goals decide +kernel

end Node

end Meridian

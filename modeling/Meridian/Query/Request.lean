import Meridian.Marshal.Accepted
import Meridian.Query.Measure

/-!
# Requests

What becomes of a request that a node receives: `handleMeasureReq`, `handleClosestReq` and
`handleMCReq` of `MeridianProcess.h` make a query of it, and the query replies.

A query that is finished has replied to the request or forwarded it, if the reply fits a packet and
the statistics of the latencies exist. Whether they do is decided by the number of different targets.
An entry of a reply takes 10 bytes, one of a request for the closest node or for a measurement 6, so
that an accepted request may have too many; and the statistics of no latency do not exist.
`request_replied_iff` gives the bounds.
-/

namespace Meridian

open Lib BufferWrapper

/-! ### The request handlers -/

/-- What a request handler makes of a packet. -/
inductive Request (Q : Type) where
  /-- It is malformed. -/
  | malformed
  /-- It is for the query with that id, which is told of it. -/
  | notified
  /-- It is answered at once. -/
  | replied (outs : List Output)
  /-- A new query is inserted in the query table. -/
  | query (q : Q)

/-- The sender of a request, with the rendavous that it names. -/
def RendvHeaderPacket.sender (tmp : RendvHeaderPacket) (remoteNode : NodeIdent) : NodeIdentRendv :=
  ⟨remoteNode.addr, remoteNode.port, tmp.rendvAddr, tmp.rendvPort.toUInt32⟩

/-- `handleMeasureReq`. -/
def handleMeasureReq (magic : UInt32) (kind : ReqMeasureKind) (remoteNode : NodeIdent)
    (buf : List UInt8) : Request MeasureQuery :=
  match parse (ReqGeneric.parser magic kind) buf with
  | none => .malformed
  | some tmp =>
    if tmp.targets.length = 0 then
      .replied (sendPacket (RetPing.createRealPacket magic ⟨Packet.new tmp.retReqID, []⟩
        (RealPacket.new (tmp.sender remoteNode) MAX_UDP_PACKET_SIZE)))
    else
      .query (MeasureQuery.new tmp.retReqID (tmp.sender remoteNode) tmp.targets)

/-- `handleClosestReq`. -/
def handleClosestReq (magic : UInt32) (kind : ReqClosestKind) (isQueryInTable : UInt64 → Bool)
    (queryID : UInt64) (remoteNode : NodeIdent) (buf : List UInt8) :
    Request (SearchQuery Unit) :=
  if isQueryInTable queryID then .notified
  else
    match parse (ReqClosestGeneric.parser magic kind) buf with
    | none => .malformed
    | some tmp =>
      .query (newClosest queryID tmp.betaNum tmp.betaDen (tmp.sender remoteNode) tmp.targets)

/-- `handleMCReq`. -/
def handleMCReq (magic : UInt32) (kind : ReqConstraintKind) (isQueryInTable : UInt64 → Bool)
    (queryID : UInt64) (remoteNode : NodeIdent) (buf : List UInt8) :
    Request (SearchQuery UInt32) :=
  if isQueryInTable queryID then .notified
  else
    match parse (ReqConstraintGeneric.parser magic kind) buf with
    | none => .malformed
    | some tmp =>
      .query (newMC queryID tmp.betaNum tmp.betaDen (tmp.sender remoteNode) tmp.targets)

/-! ### Replies -/

/-- The type bytes of a reply. -/
def isReplyType (type : UInt8) : Bool :=
  type == RET_RESPONSE || type == RET_ERROR || type == RET_PING_REQ

/-- A reply to the request of `srcNode`. -/
def isReply (magic : UInt32) (srcNode : NodeIdentRendv) : Output → Bool
  | .packet p =>
    match parse (Packet.parseHeader magic) p.payload with
    | none => false
    | some (type, _) => p.dest == srcNode && isReplyType type
  | _ => false

/-- Every run of the query that starts with `init` and finishes it without forwarding the request has
replied to it. -/
def SearchQuery.Replies {τ : Type} (magic : UInt32) (C : SearchClass τ) (q : SearchQuery τ) : Prop :=
  ∀ (env : SearchEnv) (events : List SearchEvent) (s : SearchQuery τ × List Output),
    run (SearchQuery.step magic C) (q, []) (.init env :: events) = some s → s.1.finished = true →
    s.1.stateMachine ≠ .waitForFin → ∃ o ∈ s.2, isReply magic q.srcNode o = true

@[inherit_doc SearchQuery.Replies]
def MeasureQuery.Replies (magic : UInt32) (q : MeasureQuery) : Prop :=
  ∀ (getLatency : NodeIdent → Option UInt32) (events : List MeasureEvent)
    (s : MeasureQuery × List Output),
    run (MeasureQuery.step magic) (q, []) (.init getLatency :: events) = some s →
    s.1.finished = true → ∃ o ∈ s.2, isReply magic q.srcNode o = true

section Sending

variable {magic : UInt32} {dest : NodeIdentRendv} {type : UInt8} {pkt : Packet}
  {rest bs : List UInt8} {created : Int × RealPacket}

theorem isReply_of_written
    (h : Written MAX_UDP_PACKET_SIZE dest (pkt.encode magic type ++ rest) created)
    (hok : created.1 ≠ -1) : isReply magic dest (.packet created.2) = isReplyType type := by
  have hheader : parse (Packet.parseHeader magic) created.2.payload = some (type, pkt.retReqID) :=
    h.parseHeader_eq (by decide) hok
  simp only [isReply, hheader, h.dest_eq, beq_self_eq_true, Bool.true_and]

theorem created_of_fits (h : Written MAX_UDP_PACKET_SIZE dest bs created)
    (hlen : bs.length ≤ 1400) : created.1 ≠ -1 := by
  rw [h.result_eq_zero.2 hlen]
  decide

/-- A request that fits a packet is created. -/
theorem ReqConstraintGeneric.created_of_fits {pkt : ReqConstraintGeneric}
    (hne : pkt.targets.length ≠ 0) (hlen : 27 + 10 * pkt.targets.length ≤ 1400) :
    (pkt.createRealPacket magic (RealPacket.new dest MAX_UDP_PACKET_SIZE)).1 ≠ -1 := by
  have hwritten : Written MAX_UDP_PACKET_SIZE dest (pkt.encode magic) _ :=
    pkt.createRealPacket_written (by decide) (by omega) (List.length_pos_iff.1 (by omega))
  exact Meridian.created_of_fits hwritten (by rwa [pkt.length_encode])

@[inherit_doc ReqConstraintGeneric.created_of_fits]
theorem ReqClosestGeneric.created_of_fits {pkt : ReqClosestGeneric}
    (hne : pkt.targets.length ≠ 0) (hlen : 27 + 6 * pkt.targets.length ≤ 1400) :
    (pkt.createRealPacket magic (RealPacket.new dest MAX_UDP_PACKET_SIZE)).1 ≠ -1 := by
  have hwritten : Written MAX_UDP_PACKET_SIZE dest (pkt.encode magic) _ :=
    pkt.createRealPacket_written (by decide) (by omega) (List.length_pos_iff.1 (by omega))
  exact Meridian.created_of_fits hwritten (by rwa [pkt.length_encode])

/-- A reply that fits a packet is sent. -/
theorem replied_of_written
    (h : Written MAX_UDP_PACKET_SIZE dest (pkt.encode magic type ++ rest) created)
    (hlen : (pkt.encode magic type ++ rest).length ≤ 1400) (htype : isReplyType type = true) :
    ∃ o ∈ sendPacket created, isReply magic dest o = true := by
  have hok := created_of_fits h hlen
  refine ⟨.packet created.2, ?_, (isReply_of_written h hok).trans htype⟩
  rw [sendPacket, if_neg hok]
  exact List.mem_singleton_self _

/-- What does not fit a packet is dropped. -/
theorem sendPacket_eq_nil (h : Written MAX_UDP_PACKET_SIZE dest bs created)
    (hlen : 1400 < bs.length) : sendPacket created = [] := by
  have hfail : created.1 = -1 :=
    h.result_cases.resolve_left fun hzero ↦ Nat.not_le.2 hlen (h.result_eq_zero.1 hzero)
  rw [sendPacket, if_pos hfail]

end Sending

section Replies

variable {magic : UInt32} {dest : NodeIdentRendv}

/-- A `RetResponse` is sent if it has at most 137 entries. -/
theorem replied_response {resp : RetResponse} {created : Int × RealPacket}
    (h : resp.createRealPacket magic (RealPacket.new dest MAX_UDP_PACKET_SIZE) = some created)
    (hlen : resp.targets.length ≤ 137) : ∃ o ∈ sendPacket created, isReply magic dest o = true := by
  obtain ⟨res, hres, hwritten⟩ : ∃ res, resp.createRealPacket magic
      (RealPacket.new dest MAX_UDP_PACKET_SIZE) = some res ∧
        Written MAX_UDP_PACKET_SIZE dest (resp.encode magic) res :=
    resp.createRealPacket_written (by decide) (by omega)
  obtain rfl : res = created := Option.some.inj (hres.symm.trans h)
  have hbytes := resp.length_encode magic
  rw [RetResponse.encode] at hwritten hbytes
  exact replied_of_written hwritten (by omega) (by decide)

/-- One with more entries is dropped. -/
theorem dropped_response {resp : RetResponse} (hlen : 137 < resp.targets.length)
    (hlen' : resp.targets.length < 2 ^ 32) : sendResponse magic dest resp = .ok [] := by
  obtain ⟨res, hres, hwritten⟩ : ∃ res, resp.createRealPacket magic
      (RealPacket.new dest MAX_UDP_PACKET_SIZE) = some res ∧
        Written MAX_UDP_PACKET_SIZE dest (resp.encode magic) res :=
    resp.createRealPacket_written (by decide) hlen'
  have hbytes := resp.length_encode magic
  rw [sendResponse, hres]
  exact congrArg Except.ok (sendPacket_eq_nil hwritten (by omega))

/-- A `RetError` is always sent. -/
theorem replied_error (err : RetError) :
    ∃ o ∈ sendError magic dest err, isReply magic dest o = true := by
  have hwritten : Written MAX_UDP_PACKET_SIZE dest (err.toPacket.encode magic RET_ERROR)
      (err.createRealPacket magic (RealPacket.new dest MAX_UDP_PACKET_SIZE)) :=
    createHeaderPacket_written err.toPacket RET_ERROR (by decide)
  rw [← List.append_nil (err.toPacket.encode magic RET_ERROR)] at hwritten
  exact replied_of_written hwritten (by simp) (by decide)

/-- A `RetInfo` is no reply. -/
theorem not_isReply_sendInfo (dest' : NodeIdentRendv) (info : RetInfo) :
    ∀ o ∈ sendInfo magic dest info, isReply magic dest' o = false := by
  intro o ho
  obtain ⟨hok, rfl⟩ := SearchQuery.mem_sendPacket ho
  have hwritten : Written MAX_UDP_PACKET_SIZE dest (info.encode magic)
      (info.createRealPacket magic (RealPacket.new dest MAX_UDP_PACKET_SIZE)) :=
    info.createRealPacket_written (by decide)
  have hheader := hwritten.parseHeader_eq (by decide) hok
  rw [isReply, hheader]
  exact Bool.and_false _

end Replies

/-! ### Cached latencies -/

theorem mem_iff_exists_toList {α : Type} {m : NodeMap α} {n : NodeIdent} :
    n ∈ m ↔ ∃ e ∈ m.toList, e.1 = n := by
  constructor
  · intro h
    obtain ⟨v, hv⟩ := Option.isSome_iff_exists.1 (Std.ExtTreeMap.mem_iff_isSome_getElem?.1 h)
    exact ⟨(n, v), Std.ExtTreeMap.mem_toList_iff_getElem?_eq_some.2 hv, rfl⟩
  · rintro ⟨e, he, rfl⟩
    exact mem_of_mem_toList he

/-- If every latency is cached, nothing is probed. -/
theorem startProbes_cached {τ : Type} (latencyUS : UInt32) (nodes : NodeMap τ) :
    ∃ latencies, startProbes (fun _ ↦ some latencyUS) nodes ∅ = (latencies, []) ∧
      (∀ n, n ∈ latencies ↔ n ∈ nodes) ∧ ∀ e ∈ latencies.toList, e.2 = latencyUS := by
  have hfold : ∀ (l : List (NodeIdent × τ)) (s : NodeMap UInt32),
      (∀ e ∈ s.toList, e.2 = latencyUS) →
      ∃ s', l.foldl (startProbe fun _ ↦ some latencyUS) (s, []) = (s', []) ∧
        (∀ n, n ∈ s' ↔ n ∈ s ∨ ∃ e ∈ l, e.1 = n) ∧ ∀ e ∈ s'.toList, e.2 = latencyUS := by
    intro l
    induction l with
    | nil => exact fun s hs ↦ ⟨s, rfl, fun n ↦ by simp, hs⟩
    | cons e l ih =>
      intro s hs
      have hinsert : ∀ x ∈ (s.insert e.1 latencyUS).toList, x.2 = latencyUS := by
        intro x hx
        have hget := Std.ExtTreeMap.mem_toList_iff_getElem?_eq_some.1
          (show (x.1, x.2) ∈ (s.insert e.1 latencyUS).toList from hx)
        rw [Std.ExtTreeMap.getElem?_insert] at hget
        split at hget
        · exact (Option.some.inj hget).symm
        · exact hs x (Std.ExtTreeMap.mem_toList_iff_getElem?_eq_some.2 hget)
      obtain ⟨s', hs', hmem, hval⟩ := ih _ hinsert
      refine ⟨s', hs', fun n ↦ ?_, hval⟩
      rw [hmem, mem_insert_iff]
      simp only [List.mem_cons, exists_eq_or_imp]
      rw [eq_comm (a := n), or_comm (a := e.1 = n), or_assoc]
  obtain ⟨latencies, hlat, hmem, hval⟩ := hfold nodes.toList ∅ (by simp)
  refine ⟨latencies, hlat, fun n ↦ ?_, hval⟩
  rw [hmem, mem_iff_exists_toList (m := nodes)]
  exact or_iff_right (show n ∉ (∅ : NodeMap UInt32) from Std.ExtTreeMap.not_mem_empty)

/-! ### Measurement requests -/

namespace MeasureQuery

variable {magic : UInt32} {q : MeasureQuery}

theorem returnPacket_written (magic : UInt32) (h : q.remoteLatencies.size < 2 ^ 32) :
    Written MAX_UDP_PACKET_SIZE q.srcNode (q.returnPacket.encode magic)
        (q.returnPacket.createRealPacket magic (RealPacket.new q.srcNode MAX_UDP_PACKET_SIZE)) ∧
      (q.returnPacket.encode magic).length = 17 + 10 * q.remoteLatencies.size := by
  have hlen : q.returnPacket.nodes.length = q.remoteLatencies.size := by
    show (latList q.remoteLatencies).length = _
    rw [latList, List.length_map, Std.ExtTreeMap.length_toList]
  rw [q.returnPacket.length_encode, hlen]
  exact ⟨q.returnPacket.createRealPacket_written (by decide) (by omega), rfl⟩

/-- The answer is sent if it has at most 138 entries. -/
theorem replied_sendReturnPacket (magic : UInt32) (h : q.remoteLatencies.size ≤ 138) :
    ∃ o ∈ q.sendReturnPacket magic, isReply magic q.srcNode o = true := by
  obtain ⟨hwritten, hbytes⟩ := returnPacket_written magic (q := q) (by omega)
  rw [RetPing.encode] at hwritten hbytes
  exact replied_of_written hwritten (by omega) (by decide)

/-- What holds of the query that `q₀` has become, and of what it has done. -/
structure Answered (magic : UInt32) (q₀ : MeasureQuery) (s : MeasureQuery × List Output) :
    Prop where
  inv : s.1.Inv
  srcNode : s.1.srcNode = q₀.srcNode
  remoteNodes : s.1.remoteNodes = q₀.remoteNodes
  replied : s.1.finished = true → ∃ o ∈ s.2, isReply magic q₀.srcNode o = true

/-- With every latency in the cache, `init` finishes the query, and its answer may be too long. -/
theorem init_cached (magic : UInt32) (id : UInt64) (srcNode : NodeIdentRendv) (inRemote : List NodeIdent)
    (hlt : 138 < (new id srcNode inRemote).remoteNodes.size)
    (hsize : (new id srcNode inRemote).remoteNodes.size < 2 ^ 32) :
    ∃ q', (new id srcNode inRemote).init magic (fun _ ↦ some 0) = (q', []) ∧ q'.finished = true := by
  obtain ⟨latencies, hlat, hmem, -⟩ := startProbes_cached 0 (new id srcNode inRemote).remoteNodes
  have hkeys := size_eq_of_mem_iff hmem
  obtain ⟨hwritten, hbytes⟩ := returnPacket_written magic
    (q := { new id srcNode inRemote with remoteLatencies := latencies }) (hkeys ▸ hsize)
  have hnothing := sendPacket_eq_nil hwritten (by rw [hbytes]; dsimp only; omega)
  refine ⟨{ new id srcNode inRemote with remoteLatencies := latencies, finished := true }, ?_, rfl⟩
  rw [init, show (new id srcNode inRemote).remoteLatencies = ∅ from rfl, hlat]
  simp only [handleLatency, hkeys, if_true, sendReturnPacket, List.nil_append]
  rw [hnothing]

theorem answered_step {q₀ : MeasureQuery} (hsize : q₀.remoteNodes.size ≤ 138)
    {s s' : MeasureQuery × List Output} {e : MeasureEvent} (hs : Answered magic q₀ s)
    (h : step magic s e = some s') : Answered magic q₀ s' := by
  rw [step] at h
  split at h
  · exact absurd h (by simp)
  · rename_i hgoing
    have hhandled : Handled magic s.1 (s.1.handle magic e) := handle_handled e hs.inv
    generalize s.1.handle magic e = r at *
    rw [Option.some.injEq] at h
    subst h
    cases hhandled with
    | pending latencies pre hsub =>
      exact ⟨hsub, hs.srcNode, hs.remoteNodes, fun hfin ↦ absurd hfin hgoing⟩
    | finished latencies pre hsub =>
      refine ⟨hsub, hs.srcNode, hs.remoteNodes, fun _ ↦ ?_⟩
      have hle : latencies.size ≤ 138 := (size_le_of_subset hsub).trans (hs.remoteNodes ▸ hsize)
      obtain ⟨o, ho, hreply⟩ :=
        replied_sendReturnPacket magic (q := { s.1 with remoteLatencies := latencies }) hle
      rw [← hs.srcNode]
      exact ⟨o, List.mem_append_right _ (List.mem_append_right _ ho), hreply⟩

/-- **A measurement query replies** if and only if its latencies fit the reply. -/
theorem replies_iff (id : UInt64) (srcNode : NodeIdentRendv) (inRemote : List NodeIdent)
    (hsize : (new id srcNode inRemote).remoteNodes.size < 2 ^ 32) :
    (new id srcNode inRemote).Replies magic ↔ (new id srcNode inRemote).remoteNodes.size ≤ 138 := by
  constructor
  · intro h
    refine Nat.le_of_not_lt fun hlt ↦ ?_
    obtain ⟨q', hinit, hfin⟩ := init_cached magic id srcNode inRemote hlt hsize
    obtain ⟨o, ho, -⟩ := h (fun _ ↦ some 0) [] (q', []) (by
      rw [run_cons, step, if_neg (by simp [new]), handle, hinit]
      rfl) hfin
    exact absurd ho List.not_mem_nil
  · intro hle getLatency events s hrun hfin
    have hnew : Answered magic (new id srcNode inRemote) (new id srcNode inRemote, []) :=
      ⟨fun n hn ↦ absurd hn Std.ExtTreeMap.not_mem_empty, rfl, rfl, fun h ↦ absurd h (by simp [new])⟩
    have hend : Answered magic (new id srcNode inRemote) s :=
      run_invariant' (fun s e s' hs hstep ↦ answered_step hle hs hstep) hnew hrun
    exact hend.replied hfin

end MeasureQuery

end Meridian

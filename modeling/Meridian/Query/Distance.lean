import Meridian.Query.RequestReply
import Meridian.Query.RingReplace
import Meridian.Query.AddNode
import Meridian.Query.Thread

/-!
# The probes behind `get_distance`

A `HandleGetDistanceGeneric` creates a probe for every source: a `ReqProbeSelfGeneric` for the local
node, which is written 0:0, and a `ReqProbeGeneric` for any other. A probe that has an answer tells
the query a list: the source first, then the latencies.

* `storeRows_filled` says what the loops of `handleLatency` leave in the matrix.
* `MeasureQuery.Answers.parse_eq` says what a source answers that runs this program: the latencies of
  the targets, with its own idea of the address that 0:0 stands for.
-/

namespace Meridian

open Lib BufferWrapper

/-! ### Sets of nodes -/

section Sets

variable {m : NodeMap UInt32} {nodes : NodeSet} {n : NodeIdent}

/-- A map with keys of a set only, and as many of them: with the same keys. -/
theorem mem_iff_mem_set (hsub : ∀ n ∈ m, n ∈ nodes) (hsize : m.size = nodes.size) :
    n ∈ m ↔ n ∈ nodes := by
  have hsubperm : m.keys.Subperm nodes.toList :=
    List.subperm_of_subset (nodup_keys m) fun n hn ↦
      Std.ExtTreeSet.mem_toList.2 (hsub n (Std.ExtTreeMap.mem_keys.1 hn))
  have hlength : nodes.toList.length ≤ m.keys.length := by
    rw [Std.ExtTreeMap.length_keys, Std.ExtTreeSet.length_toList, hsize]
  have hperm := hsubperm.perm_of_length_le hlength
  rw [← Std.ExtTreeMap.mem_keys, hperm.mem_iff, Std.ExtTreeSet.mem_toList]

theorem size_eq_size_set (h : ∀ n, n ∈ m ↔ n ∈ nodes) : m.size = nodes.size := by
  have hperm : m.keys.Perm nodes.toList :=
    (List.perm_ext_iff_of_nodup (nodup_keys m) (RingManageQuery.nodup_toList nodes)).2 fun n ↦ by
      rw [Std.ExtTreeMap.mem_keys, Std.ExtTreeSet.mem_toList, h]
  rw [← Std.ExtTreeMap.length_keys, ← Std.ExtTreeSet.length_toList, hperm.length_eq]

end Sets

/-! ### The probe of the local node -/

/-- The members of a `ReqProbeSelfGeneric`. -/
structure ReqProbeSelfQuery where
  qid : UInt64
  remoteNodes : NodeSet
  remoteLatencies : NodeMap UInt32
  finished : Bool

namespace ReqProbeSelfQuery

/-- The constructor. -/
def new (qid : UInt64) (inRemote : NodeSet) : ReqProbeSelfQuery := ⟨qid, inRemote, ∅, false⟩

/-- `returnResults`, with what the subscribers are told. "Insert 0,0 as the first node, to tell the
src node". -/
def returnResults (q : ReqProbeSelfQuery) : ReqProbeSelfQuery × Option (List NodeIdentLat) :=
  ({ q with finished := true }, some (⟨0, 0, 0⟩ :: latList q.remoteLatencies))

/-- `handleLatency`. -/
def handleLatency (inRemoteNodes : List NodeIdentLat) (q : ReqProbeSelfQuery) :
    ReqProbeSelfQuery × Option (List NodeIdentLat) :=
  if q.remoteLatencies.size = q.remoteNodes.size then q.returnResults
  else
    match inRemoteNodes with
    | [r] =>
      if !q.remoteNodes.contains r.ident then (q, none)
      else if q.remoteLatencies.contains r.ident then (q, none)
      else
        let q := { q with remoteLatencies := q.remoteLatencies.insert r.ident r.latencyUS }
        if q.remoteLatencies.size ≠ q.remoteNodes.size then (q, none)
        else q.returnResults
    | _ => (q, none)

/-- The latencies are of targets, and are told when they are all there. -/
theorem handleLatency_spec (inRemoteNodes : List NodeIdentLat) {q : ReqProbeSelfQuery}
    (hsub : ∀ n ∈ q.remoteLatencies, n ∈ q.remoteNodes) :
    (q.handleLatency inRemoteNodes).1.remoteNodes = q.remoteNodes ∧
      (∀ n ∈ (q.handleLatency inRemoteNodes).1.remoteLatencies, n ∈ q.remoteNodes) ∧
      ∀ nodes, (q.handleLatency inRemoteNodes).2 = some nodes →
        nodes = ⟨0, 0, 0⟩ :: latList (q.handleLatency inRemoteNodes).1.remoteLatencies ∧
          (q.handleLatency inRemoteNodes).1.remoteLatencies.size = q.remoteNodes.size := by
  rw [handleLatency.eq_def]
  split
  · rename_i hsize
    exact ⟨rfl, hsub, fun nodes h ↦ ⟨(Option.some.inj h).symm, hsize⟩⟩
  · split
    · rename_i r
      split
      · exact ⟨rfl, hsub, fun nodes h ↦ absurd h (by simp)⟩
      · rename_i hr
        split
        · exact ⟨rfl, hsub, fun nodes h ↦ absurd h (by simp)⟩
        · have hinsert : ∀ n ∈ q.remoteLatencies.insert r.ident r.latencyUS, n ∈ q.remoteNodes := by
            intro n hn
            rcases mem_insert_iff.1 hn with rfl | hn
            · simpa using hr
            · exact hsub n hn
          dsimp only
          split
          · exact ⟨rfl, hinsert, fun nodes h ↦ absurd h (by simp)⟩
          · rename_i hsize
            exact ⟨rfl, hinsert, fun nodes h ↦ ⟨(Option.some.inj h).symm, not_not.1 hsize⟩⟩
    · exact ⟨rfl, hsub, fun nodes h ↦ absurd h (by simp)⟩

/-- `handleTimeout`. -/
def handleTimeout (q : ReqProbeSelfQuery) : ReqProbeSelfQuery := { q with finished := true }

end ReqProbeSelfQuery

/-! ### The probe of another node -/

/-- What `ReqProbeGeneric::handleEvent` tells the subscribers, if it accepts the packet. "Add srcNode
to the vector before telling subscriber". -/
def ReqProbeQuery.told (magic : UInt32) (inRemote : NodeIdent) (inPacket : List UInt8)
    (q : ReqProbeQuery) : Option (List NodeIdentLat) :=
  if inPacket.headD 0 ≠ RET_PING_REQ then none
  else if inRemote.addr ≠ q.srcNode.addr ∨ inRemote.port ≠ q.srcNode.port then none
  else
    match BufferWrapper.parse (RetPing.parser magic) inPacket with
    | none => none
    | some newRetPing =>
      if newRetPing.nodes.length ≠ q.remoteNodes.size then none
      else some (⟨q.srcNode.addr, q.srcNode.port, 0⟩ :: newRetPing.nodes)

/-- The probe is finished in the calls in which it tells something. -/
theorem ReqProbeQuery.handleEvent_eq (magic : UInt32) (inRemote : NodeIdent)
    (inPacket : List UInt8) (q : ReqProbeQuery) :
    q.handleEvent magic inRemote inPacket =
      if (q.told magic inRemote inPacket).isSome then { q with finished := true } else q := by
  rw [handleEvent, told]
  generalize parse (RetPing.parser magic) inPacket = parsed
  split
  · rfl
  · split
    · rfl
    · cases parsed with
      | none => rfl
      | some newRetPing =>
        show (if newRetPing.nodes.length ≠ q.remoteNodes.size then q
          else { q with finished := true }) = _
        dsimp only
        split
        · rfl
        · rfl

/-- A datagram of another node is refused. -/
theorem ReqProbeQuery.told_eq_none {magic : UInt32} {inRemote : NodeIdent} {inPacket : List UInt8}
    {q : ReqProbeQuery} (h : inRemote ≠ q.srcNode.ident) :
    q.told magic inRemote inPacket = none := by
  rw [told]
  split
  · rfl
  · rw [if_pos]
    by_contra hsame
    rw [not_or, not_not, not_not] at hsame
    refine h ?_
    cases inRemote
    exact congrArg₂ NodeIdent.mk hsame.1 hsame.2

/-- An answer of the source is accepted if it has an entry for every target. -/
theorem ReqProbeQuery.told_eq {magic : UInt32} {inPacket : List UInt8} {q : ReqProbeQuery}
    {ret : RetPing} (hhead : inPacket.headD 0 = RET_PING_REQ)
    (hparse : parse (RetPing.parser magic) inPacket = some ret) :
    q.told magic q.srcNode.ident inPacket =
      if ret.nodes.length ≠ q.remoteNodes.size then none
      else some (⟨q.srcNode.addr, q.srcNode.port, 0⟩ :: ret.nodes) := by
  rw [told, if_neg (not_not.2 hhead), if_neg (by simp [NodeIdentRendv.ident]), hparse]

/-! ### What a source answers -/

namespace MeasureQuery

variable {magic : UInt32} {q q₀ : MeasureQuery}

/-- The answer is the only packet of the query, and finishes it. -/
theorem handle_packet {e : MeasureEvent} {p : RealPacket}
    (h : .packet p ∈ (q.handle magic e).2) (hinv : q.Inv) :
    (q.handle magic e).1.finished = true ∧ .packet p ∈ (q.handle magic e).1.sendReturnPacket magic := by
  have hlatency (q : MeasureQuery) (results : List NodeIdentLat)
      (h : .packet p ∈ (q.handleLatency magic results).2) :
      (q.handleLatency magic results).1.finished = true ∧
        .packet p ∈ (q.handleLatency magic results).1.sendReturnPacket magic := by
    revert h
    rw [handleLatency.eq_def]
    split
    · exact fun h ↦ ⟨rfl, h⟩
    · split
      · split
        · exact fun h ↦ absurd h List.not_mem_nil
        · split
          · exact fun h ↦ absurd h List.not_mem_nil
          · dsimp only
            split
            · exact fun h ↦ absurd h List.not_mem_nil
            · exact fun h ↦ ⟨rfl, h⟩
      · exact fun h ↦ absurd h List.not_mem_nil
  cases e with
  | init getLatency =>
    have hprobes := (startProbes_spec getLatency hinv).2
    revert h
    simp only [handle, init]
    generalize startProbes getLatency q.remoteNodes q.remoteLatencies = started at *
    obtain ⟨latencies, probes⟩ := started
    have hnone : Output.packet p ∉ probes := by
      intro hmem
      obtain ⟨n, hn⟩ := hprobes _ hmem
      exact absurd hn (by simp)
    dsimp only
    split
    · exact fun h ↦ hlatency _ [] ((List.mem_append.1 h).resolve_left hnone)
    · exact fun h ↦ absurd h hnone
  | handleLatency results => exact hlatency q results h
  | handleEvent inRemote inPacket => exact absurd h List.not_mem_nil
  | handleTimeout => exact ⟨rfl, h⟩

/-- What holds of the query that `q₀` has become: the packets it has sent are its answer. -/
structure Answering (magic : UInt32) (q₀ : MeasureQuery) (s : MeasureQuery × List Output) :
    Prop where
  inv : s.1.Inv
  qid : s.1.qid = q₀.qid
  remoteNodes : s.1.remoteNodes = q₀.remoteNodes
  packets : ∀ p, .packet p ∈ s.2 → s.1.finished = true ∧ .packet p ∈ s.1.sendReturnPacket magic

theorem answering_step {s s' : MeasureQuery × List Output} {e : MeasureEvent}
    (hs : Answering magic q₀ s) (h : step magic s e = some s') : Answering magic q₀ s' := by
  rw [step] at h
  split at h
  · exact absurd h (by simp)
  · rename_i hgoing
    have hpacket (p : RealPacket) (hp : .packet p ∈ (s.1.handle magic e).2) :=
      handle_packet hp hs.inv
    have hhandled : Handled magic s.1 (s.1.handle magic e) := handle_handled e hs.inv
    generalize s.1.handle magic e = r at *
    obtain ⟨q, outs⟩ := r
    obtain rfl : (q, s.2 ++ outs) = s' := Option.some.inj h
    -- nothing has been sent before: the query was not finished
    have hpackets : ∀ p, .packet p ∈ s.2 ++ outs →
        q.finished = true ∧ .packet p ∈ q.sendReturnPacket magic := fun p hp ↦
      hpacket p ((List.mem_append.1 hp).resolve_left fun hold ↦ hgoing (hs.packets p hold).1)
    cases hhandled with
    | pending latencies pre hsub => exact ⟨hsub, hs.qid, hs.remoteNodes, hpackets⟩
    | finished latencies pre hsub => exact ⟨hsub, hs.qid, hs.remoteNodes, hpackets⟩

end MeasureQuery

namespace ReqProbeQuery

/-- How a source that runs this program answers the request of a probe: it is asked by a node that
it knows as `requester`, has measured all targets, and sends `inPacket`. -/
def Answers (magic : UInt32) (rendvNode requester : NodeIdent) (inPacket : List UInt8)
    (q : ReqProbeQuery) : Prop :=
  ∃ (request reply : RealPacket) (m : MeasureQuery) (getLatency : NodeIdent → Option UInt32)
    (events : List MeasureEvent) (s : MeasureQuery × List Output),
    .packet request ∈ q.init magic rendvNode ∧
    handleMeasureReq magic q.kind requester request.payload = .query m ∧
    run (MeasureQuery.step magic) (m, []) (.init getLatency :: events) = some s ∧
    s.1.remoteLatencies.size = s.1.remoteNodes.size ∧
    .packet reply ∈ s.2 ∧ reply.payload = inPacket

variable {magic : UInt32} {rendvNode requester : NodeIdent} {inPacket : List UInt8}
  {q : ReqProbeQuery}

/-- A request that has been sent is read by the source. -/
theorem handleMeasureReq_init (requester : NodeIdent) {request : RealPacket}
    (hsize : q.remoteNodes.size < 2 ^ 32)
    (h : .packet request ∈ q.init magic rendvNode) :
    ∃ sender : NodeIdentRendv, sender.ident = requester ∧
      handleMeasureReq magic q.kind requester request.payload =
        .query (MeasureQuery.new q.qid sender q.remoteNodes.toList) := by
  obtain ⟨hok, hrequest⟩ := SearchQuery.mem_sendPacket h
  obtain rfl := Output.packet.inj hrequest
  have hlen : q.remoteNodes.toList.length < 2 ^ 32 := by rwa [Std.ExtTreeSet.length_toList]
  let req : ReqGeneric :=
    ⟨⟨Packet.new q.qid, rendvNode.addr, rendvNode.port⟩, q.kind, q.remoteNodes.toList⟩
  -- a request without targets is not created
  have hne : req.targets ≠ [] := by
    intro hnil
    refine hok ?_
    show (req.createRealPacket magic (RealPacket.new q.srcNode MAX_UDP_PACKET_SIZE)).1 = -1
    rw [ReqGeneric.createRealPacket, hnil]
    rfl
  have hwritten : Written MAX_UDP_PACKET_SIZE q.srcNode (req.encode magic)
      (req.createRealPacket magic (RealPacket.new q.srcNode MAX_UDP_PACKET_SIZE)) :=
    req.createRealPacket_written (by decide) hlen hne
  have hle := hwritten.result_eq_zero.1 (hwritten.result_cases.resolve_right hok)
  have hparse : parse (ReqGeneric.parser magic q.kind) (req.encode magic) = some req := by
    refine parse_eq_some (req.reads hlen) ?_
    have hcap : MAX_UDP_PACKET_SIZE.toNat = 1400 := rfl
    rw [InRange]
    omega
  refine ⟨req.sender requester, rfl, ?_⟩
  rw [hwritten.payload_eq hle, handleMeasureReq, hparse]
  dsimp only
  rw [if_neg fun hzero ↦ hne (List.length_eq_zero_iff.1 hzero)]
  show Request.query (MeasureQuery.new req.retReqID _ _) = _
  rw [show req.retReqID = q.qid from Packet.retReqID_new q.qid]

/-- **What a source answers.** -/
theorem Answers.parse_eq (hsize : q.remoteNodes.size < 2 ^ 32)
    (h : q.Answers magic rendvNode requester inPacket) :
    ∃ latencies : NodeMap UInt32,
      inPacket.headD 0 = RET_PING_REQ ∧
      parse (RetPing.parser magic) inPacket = some ⟨Packet.new q.qid, latList latencies⟩ ∧
      ∀ n, n ∈ latencies ↔ ∃ d ∈ q.remoteNodes, n = orSender requester d := by
  obtain ⟨request, reply, m, getLatency, events, s, hrequest, hquery, hrun, hall, hreply, rfl⟩ := h
  obtain ⟨sender, rfl, hnew⟩ := handleMeasureReq_init requester hsize hrequest
  obtain rfl := Request.query.inj (hquery.symm.trans hnew)
  have hs : MeasureQuery.Answering magic (MeasureQuery.new q.qid sender q.remoteNodes.toList) s :=
    run_invariant' (fun s e s' h hstep ↦ MeasureQuery.answering_step h hstep)
      ⟨fun n hn ↦ absurd hn Std.ExtTreeMap.not_mem_empty, rfl, rfl,
        fun p hp ↦ absurd hp List.not_mem_nil⟩ hrun
  have hkeys (n : NodeIdent) : n ∈ s.1.remoteLatencies ↔
      ∃ d ∈ q.remoteNodes, n = orSender sender.ident d := by
    rw [mem_iff_of_size_eq hs.inv hall, hs.remoteNodes]
    show n ∈ targetSet _ ↔ _
    rw [mem_targetSet, List.map_map, List.mem_map]
    simp only [Std.ExtTreeSet.mem_toList, Function.comp_apply, eq_comm]
  have hcount : s.1.remoteLatencies.size < 2 ^ 32 := by
    rw [hall, hs.remoteNodes, size_newMeasure]
    refine (length_dedup_le _).trans_lt ?_
    rwa [List.length_map, Std.ExtTreeSet.length_toList]
  obtain ⟨hok, hpacket⟩ := SearchQuery.mem_sendPacket (hs.packets reply hreply).2
  obtain rfl := Output.packet.inj hpacket
  obtain ⟨hwritten, hbytes⟩ := MeasureQuery.returnPacket_written magic hcount
  have hle := hwritten.result_eq_zero.1 (hwritten.result_cases.resolve_right hok)
  rw [hwritten.payload_eq hle]
  refine ⟨s.1.remoteLatencies, rfl, ?_, hkeys⟩
  have hnodes : s.1.returnPacket.nodes.length < 2 ^ 32 := by
    show (latList s.1.remoteLatencies).length < 2 ^ 32
    rwa [latList, List.length_map, Std.ExtTreeMap.length_toList]
  have hread : parse (RetPing.parser magic) (s.1.returnPacket.encode magic) =
      some s.1.returnPacket := by
    refine parse_eq_some (s.1.returnPacket.reads hnodes) ?_
    have hcap : MAX_UDP_PACKET_SIZE.toNat = 1400 := rfl
    rw [InRange]
    omega
  rw [hread, MeasureQuery.returnPacket, hs.qid]
  rfl

end ReqProbeQuery

/-! ### Results -/

/-- What is stored for a latency, which is in microseconds: "distance is in ms". -/
def distance (latencyUS : UInt32) : Binary64 :=
  (Binary64.ofNat latencyUS.toNat).div (Binary64.ofNat 1000)

/-- The `distance` of a `Measurement`, as `createNodeIdentLat` fills it. -/
def Measurement.distance (m : Measurement) : List Binary64 := m.latencyUS.map Meridian.distance

/-- The rounding of the quotient. -/
theorem distance_eq (latencyUS : UInt32) :
    Meridian.distance latencyUS = .ofRat (latencyUS.toNat / 1000) := by
  have hlt : latencyUS.toNat < 2 ^ 53 := lt_trans latencyUS.toNat_lt (by norm_num)
  have hthousand : Binary64.ofNat 1000 = .fin 1000 := Binary64.ofNat_eq_fin (by norm_num)
  rw [Meridian.distance, Binary64.ofNat_eq_fin hlt, hthousand, Binary64.div, if_neg (by norm_num)]

/-- Latencies that differ are stored as distances that differ: they are a thousandth apart at least,
and the rounding moves them by less. -/
theorem distance_injective : Function.Injective Meridian.distance := by
  intro a b h
  rw [distance_eq, distance_eq] at h
  have hsize (v : UInt32) : (0 : ℚ) ≤ v.toNat / 1000 ∧ (v.toNat : ℚ) / 1000 < 2 ^ (-30 + 53 : ℤ) := by
    have hlt : (v.toNat : ℚ) < 2 ^ 32 := by exact_mod_cast v.toNat_lt
    refine ⟨by positivity, ?_⟩
    rw [div_lt_iff₀ (by norm_num)]
    exact hlt.trans (by norm_num)
  have hexp (v : UInt32) : Binary64.exponent (v.toNat / 1000) ≤ -30 :=
    Binary64.exponent_le (by norm_num) (hsize v).1 (hsize v).2
  have hfinite : |Binary64.round (a.toNat / 1000)| < 2 ^ 1024 := by
    obtain ⟨hnn, hlt⟩ := hsize a
    have hle : Binary64.round (a.toNat / 1000) ≤ (2 ^ 23 : ℤ) * 2 ^ (0 : ℤ) :=
      Binary64.round_le ((hexp a).trans (by norm_num)) (hlt.le.trans (by norm_num))
    rw [abs_of_nonneg (Binary64.round_nonneg hnn)]
    calc Binary64.round (a.toNat / 1000) ≤ 2 ^ 23 := hle.trans_eq (by norm_num)
      _ < 2 ^ 1024 := pow_lt_pow_right₀ one_lt_two (by norm_num)
  have hnear := Binary64.abs_sub_le_of_ofRat_eq (hexp a) (hexp b) hfinite h
  have hgap : |((a.toNat : ℤ) - b.toNat : ℤ)| < 1 := by
    have hdiv : (a.toNat : ℚ) - b.toNat = (a.toNat / 1000 - b.toNat / 1000) * 1000 := by ring
    have hlt : |(a.toNat : ℚ) - b.toNat| < 1 := by
      rw [hdiv, abs_mul, abs_of_pos (by norm_num : (0 : ℚ) < 1000)]
      calc _ ≤ (2 : ℚ) ^ (-30 : ℤ) * 1000 := mul_le_mul_of_nonneg_right hnear (by norm_num)
        _ < 1 := by norm_num
    exact_mod_cast hlt
  have heq := Int.abs_lt_one_iff.1 hgap
  exact UInt32.toNat_inj.1 (by omega)

/-! ### The matrix -/

/-- The latency that the last entry of a node gives, if there is one. -/
def stored (entries : List NodeIdentLat) (dest : NodeIdent) : Option UInt32 :=
  (entries.reverse.find? fun n ↦ n.ident = dest).map NodeIdentLat.latencyUS

theorem stored_cons (entry : NodeIdentLat) (entries : List NodeIdentLat) (dest : NodeIdent) :
    stored (entry :: entries) dest =
      (stored entries dest).or (if entry.ident = dest then some entry.latencyUS else none) := by
  rw [stored, stored, List.reverse_cons, List.find?_append]
  cases entries.reverse.find? fun n ↦ n.ident = dest with
  | some n => rfl
  | none =>
    simp only [Option.none_or, Option.map_none, List.find?_cons, List.find?_nil]
    by_cases h : entry.ident = dest
    · simp [h]
    · simp [h]

/-- In any order of the entries of a map, an entry for a node is found by its key. -/
theorem find?_latList {m : NodeMap UInt32} {l : List NodeIdentLat} (h : l.Perm (latList m))
    (dest : NodeIdent) : (l.find? fun n ↦ n.ident = dest).map NodeIdentLat.latencyUS = m[dest]? := by
  have hmem (n : NodeIdentLat) : n ∈ l ↔ m[n.ident]? = some n.latencyUS := by
    rw [h.mem_iff, latList, List.mem_map]
    constructor
    · rintro ⟨e, he, rfl⟩
      exact Std.ExtTreeMap.mem_toList_iff_getElem?_eq_some.1 he
    · intro hget
      exact ⟨(n.ident, n.latencyUS), Std.ExtTreeMap.mem_toList_iff_getElem?_eq_some.2 hget, rfl⟩
  cases hfind : l.find? fun n ↦ n.ident = dest with
  | some n =>
    have hident : n.ident = dest := by simpa using List.find?_some hfind
    rw [← hident, (hmem n).1 (List.mem_of_find?_eq_some hfind)]
    rfl
  | none =>
    cases hget : m[dest]? with
    | none => rfl
    | some v =>
      have hin : (⟨dest.addr, dest.port, v⟩ : NodeIdentLat) ∈ l := (hmem _).2 hget
      exact absurd (List.find?_eq_none.1 hfind _ hin) (by simp [NodeIdentLat.ident])

theorem stored_latList (m : NodeMap UInt32) (dest : NodeIdent) :
    stored (latList m) dest = m[dest]? :=
  find?_latList (List.reverse_perm _) dest

/-- A loop that writes one value at some places. -/
theorem getElem?_foldl_set {α β : Type} (P : α → Prop) [DecidablePred P] (f : α → ℕ) (v : β)
    (l : List α) (m : List β) (p : ℕ) :
    (l.foldl (fun m a ↦ if P a then m.set (f a) v else m) m)[p]? =
      if ∃ a ∈ l, P a ∧ f a = p then m[p]?.map fun _ ↦ v else m[p]? := by
  induction l generalizing m with
  | nil => simp
  | cons a l ih =>
    rw [List.foldl_cons, ih]
    simp only [List.mem_cons, exists_eq_or_imp]
    by_cases hl : ∃ b ∈ l, P b ∧ f b = p
    · -- what is written here is written again by the rest of the loop
      rw [if_pos hl, if_pos (Or.inr hl)]
      split
      · rw [List.getElem?_set']
        split
        · rw [Option.map_eq_map, Option.map_map]
          rfl
        · rfl
      · rfl
    · rw [if_neg hl]
      by_cases ha : P a
      · rw [if_pos ha, List.getElem?_set']
        by_cases hp : f a = p
        · rw [if_pos hp, if_pos (Or.inl ⟨ha, hp⟩)]
          rfl
        · rw [if_neg hp, if_neg (by simp [hp, hl])]
      · rw [if_neg ha, if_neg (by simp [ha, hl])]

namespace HandleGetDistance

variable {q : HandleGetDistance} {val : ℕ → ℕ → UInt32}

/-- The matrix holds these latencies. -/
structure Filled (q : HandleGetDistance) (val : ℕ → ℕ → UInt32) : Prop where
  length_eq : q.latencyMatrixUS.length = q.srcNodes.length * q.destNodesVect.length
  getElem : ∀ i < q.srcNodes.length, ∀ k < q.destNodesVect.length,
    q.latencyMatrixUS[i * q.destNodesVect.length + k]? = some (val i k)

/-- Two places of the matrix. -/
theorem place_inj {m i i' k k' : ℕ} (hk : k < m) (hk' : k' < m) (h : i * m + k = i' * m + k') :
    i = i' ∧ k = k' := by
  have hdiv := congrArg (· / m) h
  have hmod := congrArg (· % m) h
  simp only [Nat.mul_add_mod_self_right, Nat.mod_eq_of_lt hk, Nat.mod_eq_of_lt hk'] at hmod
  exact ⟨Nat.eq_of_mul_eq_mul_right (by omega) (by omega : i * m = i' * m), hmod⟩

theorem filled_new (inSrc inRemote : List NodeIdentRendv) (now : ℕ) (inTimeoutMS : UInt32)
    (inPrevQID : UInt64) :
    (new inSrc inRemote now inTimeoutMS inPrevQID).Filled fun _ _ ↦ UINT_MAX := by
  refine ⟨by simp [new], fun i hi k hk ↦ ?_⟩
  have hplace : i * inRemote.length + k < inSrc.length * inRemote.length := by
    have hk' : k < inRemote.length := by simpa [new] using hk
    calc i * inRemote.length + k < (i + 1) * inRemote.length := by rw [Nat.add_one_mul]; omega
      _ ≤ inSrc.length * inRemote.length := Nat.mul_le_mul_right _ hi
  show (List.replicate (inSrc.length * inRemote.length) UINT_MAX)[i *
    (inRemote.map NodeIdentRendv.ident).length + k]? = some UINT_MAX
  rw [List.length_map, List.getElem?_replicate, if_pos hplace]

/-- One entry of an answer goes to its columns of the row. -/
theorem storeLatency_filled (h : q.Filled val) (i : ℕ) (entry : NodeIdentLat) :
    (q.storeLatency i entry).Filled fun i' k ↦
      if i' = i ∧ q.destNodesVect[k]? = some entry.ident then entry.latencyUS else val i' k := by
  have hget (p : ℕ) : (q.storeLatency i entry).latencyMatrixUS[p]? =
      if ∃ c ∈ q.destNodesVect.zipIdx, c.1 = entry.ident ∧ i * q.destNodesVect.length + c.2 = p then
        q.latencyMatrixUS[p]?.map fun _ ↦ entry.latencyUS
      else q.latencyMatrixUS[p]? :=
    getElem?_foldl_set (fun c : NodeIdent × ℕ ↦ c.1 = entry.ident)
      (fun c ↦ i * q.destNodesVect.length + c.2) entry.latencyUS q.destNodesVect.zipIdx
      q.latencyMatrixUS p
  have hlength : (q.storeLatency i entry).latencyMatrixUS.length = q.latencyMatrixUS.length := by
    refine List.foldlRecOn (motive := fun m : List UInt32 ↦ m.length = q.latencyMatrixUS.length)
      q.destNodesVect.zipIdx _ rfl fun m hm c _ ↦ ?_
    dsimp only
    split
    · rw [List.length_set, hm]
    · exact hm
  refine ⟨hlength.trans h.length_eq, fun i' hi' k hk ↦ ?_⟩
  show (q.storeLatency i entry).latencyMatrixUS[i' * q.destNodesVect.length + k]? = _
  rw [hget, h.getElem i' hi' k hk]
  by_cases hcell : i' = i ∧ q.destNodesVect[k]? = some entry.ident
  · rw [if_pos hcell, if_pos ⟨(entry.ident, k), List.mem_zipIdx_iff_getElem?.2 hcell.2, rfl,
      by rw [hcell.1]⟩]
    rfl
  · rw [if_neg hcell, if_neg]
    rintro ⟨⟨dest, k'⟩, hmem, rfl, hplace⟩
    have hk' := List.mem_zipIdx_iff_getElem?.1 hmem
    have hlt : k' < q.destNodesVect.length := (List.getElem?_eq_some_iff.1 hk').1
    obtain ⟨rfl, rfl⟩ := place_inj hlt hk hplace
    exact hcell ⟨rfl, hk'⟩

/-- What the entries of an answer store in a cell. -/
def update (entries : List NodeIdentLat) (dest : Option NodeIdent) (old : UInt32) : UInt32 :=
  (dest.bind (stored entries)).getD old

theorem update_cons (entry : NodeIdentLat) (entries : List NodeIdentLat) (dest : Option NodeIdent)
    (old : UInt32) :
    update (entry :: entries) dest old =
      update entries dest (if dest = some entry.ident then entry.latencyUS else old) := by
  cases dest with
  | none => rfl
  | some dest =>
    simp only [update, Option.bind_some, stored_cons, Option.some.injEq]
    cases stored entries dest with
    | some v => rfl
    | none =>
      by_cases h : dest = entry.ident
      · simp [h]
      · simp [h, Ne.symm h]

theorem foldl_storeLatency_filled (h : q.Filled val) (i : ℕ) (entries : List NodeIdentLat) :
    (entries.foldl (storeLatency i) q).Filled fun i' k ↦
      if i' = i then update entries q.destNodesVect[k]? (val i' k) else val i' k := by
  induction entries generalizing q val with
  | nil =>
    have hnone (dest : Option NodeIdent) (old : UInt32) : update [] dest old = old := by
      cases dest <;> rfl
    simpa [hnone] using h
  | cons entry entries ih =>
    rw [List.foldl_cons]
    have hrest := ih (storeLatency_filled h i entry)
    refine ⟨hrest.length_eq, fun i' hi' k hk ↦ (hrest.getElem i' hi' k hk).trans (congrArg some ?_)⟩
    show (if i' = i then update entries q.destNodesVect[k]? _ else _) = _
    by_cases hi : i' = i
    · rw [if_pos hi, if_pos hi, update_cons]
      simp only [hi, true_and]
    · simp only [hi, if_false, false_and]

/-- The entries of an answer change the matrix only. -/
theorem foldl_storeLatency_eq (i : ℕ) (entries : List NodeIdentLat) (q : HandleGetDistance) :
    ∃ m, entries.foldl (storeLatency i) q = { q with latencyMatrixUS := m } := by
  induction entries generalizing q with
  | nil => exact ⟨q.latencyMatrixUS, rfl⟩
  | cons entry entries ih =>
    obtain ⟨m, hm⟩ := ih (q.storeLatency i entry)
    exact ⟨m, hm⟩

/-- One source of `storeRows`. -/
def storeRow (curNode : NodeIdent) (entries : List NodeIdentLat) (q : HandleGetDistance)
    (row : NodeIdentRendv × ℕ) : HandleGetDistance :=
  if row.1.ident = curNode ∧ row.2 ∉ q.receivedRow then
    entries.foldl (storeLatency row.2) { q with receivedRow := insert row.2 q.receivedRow }
  else q

theorem storeRows_eq (curNode : NodeIdent) (entries : List NodeIdentLat) (q : HandleGetDistance) :
    q.storeRows curNode entries = q.srcNodes.zipIdx.foldl (storeRow curNode entries) q := rfl

/-- `storeRow` writes the rows and notes which there are now. -/
theorem storeRow_eq (curNode : NodeIdent) (entries : List NodeIdentLat) (q : HandleGetDistance)
    (row : NodeIdentRendv × ℕ) :
    ∃ m r, storeRow curNode entries q row = { q with receivedRow := r, latencyMatrixUS := m } := by
  rw [storeRow]
  split
  · obtain ⟨m, hm⟩ := foldl_storeLatency_eq row.2 entries
      { q with receivedRow := insert row.2 q.receivedRow }
    exact ⟨m, _, hm⟩
  · exact ⟨q.latencyMatrixUS, q.receivedRow, rfl⟩

theorem storeRows_kept (curNode : NodeIdent) (entries : List NodeIdentLat)
    (q : HandleGetDistance) :
    ∃ m r, q.storeRows curNode entries = { q with receivedRow := r, latencyMatrixUS := m } := by
  rw [storeRows_eq]
  generalize q.srcNodes.zipIdx = rows
  induction rows generalizing q with
  | nil => exact ⟨q.latencyMatrixUS, q.receivedRow, rfl⟩
  | cons row rows ih =>
    rw [List.foldl_cons]
    obtain ⟨m, r, hrow⟩ := storeRow_eq curNode entries q row
    rw [hrow]
    obtain ⟨m', r', hrest⟩ := ih { q with receivedRow := r, latencyMatrixUS := m }
    exact ⟨m', r', hrest⟩

section Rows

variable (curNode : NodeIdent) (entries : List NodeIdentLat)

theorem storeRow_mem (row : NodeIdentRendv × ℕ) (i : ℕ) :
    i ∈ (storeRow curNode entries q row).receivedRow ↔
      i ∈ q.receivedRow ∨ row.1.ident = curNode ∧ row.2 = i := by
  rw [storeRow]
  split
  · rename_i hnew
    obtain ⟨m, hm⟩ := foldl_storeLatency_eq row.2 entries
      { q with receivedRow := insert row.2 q.receivedRow }
    rw [hm]
    simp only [Finset.mem_insert, hnew.1, true_and, eq_comm (a := i), or_comm]
  · rename_i hold
    refine ⟨Or.inl, fun h ↦ h.elim id ?_⟩
    rintro ⟨hcur, rfl⟩
    exact not_not.1 fun hi ↦ hold ⟨hcur, hi⟩

theorem storeRow_filled (h : q.Filled val) (row : NodeIdentRendv × ℕ) :
    (storeRow curNode entries q row).Filled fun i k ↦
      if (row.1.ident = curNode ∧ row.2 = i) ∧ i ∉ q.receivedRow then
        update entries q.destNodesVect[k]? (val i k)
      else val i k := by
  rw [storeRow]
  split
  · rename_i hnew
    have hfold := foldl_storeLatency_filled (q := { q with
      receivedRow := insert row.2 q.receivedRow }) ⟨h.length_eq, h.getElem⟩ row.2 entries
    refine ⟨hfold.length_eq, fun i hi k hk ↦ (hfold.getElem i hi k hk).trans (congrArg some ?_)⟩
    by_cases hi : i = row.2
    · rw [if_pos hi, if_pos ⟨⟨hnew.1, hi.symm⟩, hi ▸ hnew.2⟩]
    · rw [if_neg hi, if_neg fun hrow ↦ hi hrow.1.2.symm]
  · rename_i hold
    refine ⟨h.length_eq, fun i hi k hk ↦ (h.getElem i hi k hk).trans (congrArg some ?_)⟩
    rw [if_neg]
    rintro ⟨⟨hcur, rfl⟩, hi⟩
    exact hold ⟨hcur, hi⟩

theorem foldl_storeRow (rows : List (NodeIdentRendv × ℕ)) (h : q.Filled val) :
    ((rows.foldl (storeRow curNode entries) q).Filled fun i k ↦
        if (∃ row ∈ rows, row.1.ident = curNode ∧ row.2 = i) ∧ i ∉ q.receivedRow then
          update entries q.destNodesVect[k]? (val i k)
        else val i k) ∧
      ∀ i, i ∈ (rows.foldl (storeRow curNode entries) q).receivedRow ↔
        i ∈ q.receivedRow ∨ ∃ row ∈ rows, row.1.ident = curNode ∧ row.2 = i := by
  induction rows generalizing q val with
  | nil => simpa using h
  | cons row rows ih =>
    rw [List.foldl_cons]
    obtain ⟨hfill, hmem⟩ := ih (storeRow_filled curNode entries h row)
    have hrow := storeRow_mem (q := q) curNode entries row
    have hdests : (storeRow curNode entries q row).destNodesVect = q.destNodesVect := by
      obtain ⟨m, r, heq⟩ := storeRow_eq curNode entries q row
      rw [heq]
    refine ⟨⟨hfill.length_eq, fun i hi k hk ↦ (hfill.getElem i hi k hk).trans ?_⟩, fun i ↦ ?_⟩
    · -- a row that the first source has is not written again by the others
      rw [hdests]
      simp only [hrow, List.mem_cons, exists_eq_or_imp]
      by_cases hnew : i ∈ q.receivedRow
      · simp [hnew]
      · by_cases hfirst : row.1.ident = curNode ∧ row.2 = i
        · simp [hnew, hfirst]
        · simp only [hnew, hfirst, false_or, or_false, not_false_eq_true, and_true, if_false]
    · rw [hmem, hrow]
      simp only [List.mem_cons, exists_eq_or_imp, or_assoc]

/-- **What an answer changes**: the rows of its source that have none yet. -/
theorem storeRows_filled (h : q.Filled val) :
    ((q.storeRows curNode entries).Filled fun i k ↦
        if q.srcNodes[i]?.map NodeIdentRendv.ident = some curNode ∧ i ∉ q.receivedRow then
          update entries q.destNodesVect[k]? (val i k)
        else val i k) ∧
      ∀ i, i ∈ (q.storeRows curNode entries).receivedRow ↔
        i ∈ q.receivedRow ∨ q.srcNodes[i]?.map NodeIdentRendv.ident = some curNode := by
  have hrows (i : ℕ) : (∃ row ∈ q.srcNodes.zipIdx, row.1.ident = curNode ∧ row.2 = i) ↔
      q.srcNodes[i]?.map NodeIdentRendv.ident = some curNode := by
    rw [Option.map_eq_some_iff]
    constructor
    · rintro ⟨⟨src, i⟩, hmem, hcur, rfl⟩
      exact ⟨src, List.mem_zipIdx_iff_getElem?.1 hmem, hcur⟩
    · rintro ⟨src, hsrc, hcur⟩
      exact ⟨(src, i), List.mem_zipIdx_iff_getElem?.2 hsrc, hcur, rfl⟩
  have hfold := foldl_storeRow curNode entries q.srcNodes.zipIdx h
  simp only [hrows] at hfold
  exact hfold

end Rows

/-- The rows of the results. -/
theorem results_eq (h : q.Filled val) :
    q.results = q.srcNodes.zipIdx.map fun row ↦
      ⟨row.1, (List.range q.destNodesVect.length).map (val row.2)⟩ := by
  rw [results]
  refine List.map_congr_left fun row hrow ↦ ?_
  have hlt : row.2 < q.srcNodes.length :=
    (List.getElem?_eq_some_iff.1 (List.mem_zipIdx_iff_getElem?.1 hrow)).1
  refine congrArg (Measurement.mk row.1) (List.ext_getElem? fun k ↦ ?_)
  rw [List.getElem?_take, List.getElem?_drop, List.getElem?_map]
  split
  · rename_i hk
    rw [h.getElem row.2 hlt k hk, List.getElem?_range hk]
    rfl
  · rename_i hk
    rw [List.getElem?_eq_none (by rw [List.length_range]; omega)]
    rfl

end HandleGetDistance

end Meridian

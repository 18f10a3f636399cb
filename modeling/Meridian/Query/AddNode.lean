import Meridian.Query.Search

/-!
# Adding nodes

`AddNodeQuery` and `ReqProbeGeneric` of `Query.cpp`, the two queries besides `RingManageQuery` that
write the `RingSet`. The first pings a node and inserts it; the second asks a node to measure some
others. Both take the node out of the rings when it does not answer in time.

* The subscribers a handler notifies are other queries; what they are told is no part of the state
  here.
* The time that has passed since `startTime` is an argument.
-/

namespace Meridian

open Lib BufferWrapper

/-! ### `AddNodeQuery` -/

/-- The members of an `AddNodeQuery`. -/
structure AddNodeQuery where
  qid : UInt64
  remoteNode : NodeIdentRendv
  finished : Bool
  deriving DecidableEq

/-- What `init` does. -/
inductive AddNodeStart where
  /-- The node is pinged. -/
  | ping (sent : List Output)
  /-- The node is behind a firewall, and is asked to measure the way to us. -/
  | reqProbe
  /-- Both are behind a firewall: "we give up and wait for timeout". -/
  | giveUp

namespace AddNodeQuery

/-- The constructor. -/
def new (qid : UInt64) (inRemote : NodeIdentRendv) : AddNodeQuery := ⟨qid, inRemote, false⟩

/-- `init`. -/
def init (magic : UInt32) (rendvInfo : NodeIdent) (q : AddNodeQuery) : AddNodeStart :=
  if q.remoteNode.addrRendv = 0 ∧ q.remoteNode.portRendv = 0 then
    .ping (sendPacket ((Packet.new q.qid).createHeaderPacket magic PING
      (RealPacket.new q.remoteNode MAX_UDP_PACKET_SIZE)))
  else if rendvInfo.addr = 0 ∧ rendvInfo.port = 0 then
    .reqProbe
  else
    .giveUp

section Handlers

variable (getRingNumber : UInt32 → Fin MAX_NUM_RINGS)

/-- What the two handlers do with a latency. -/
def answered (q : AddNodeQuery) (latencyUS : UInt32) (rs : RingSet) :
    Option (AddNodeQuery × RingSet) :=
  (rs.insertNodeRendv getRingNumber q.remoteNode.ident latencyUS
    ⟨q.remoteNode.addrRendv, q.remoteNode.portRendv.toUInt16⟩).map fun rs ↦
      ({ q with finished := true }, rs)

/-- `handleLatency`. -/
def handleLatency (inRemoteNodes : List NodeIdentLat) (q : AddNodeQuery) (rs : RingSet) :
    Option (AddNodeQuery × RingSet) :=
  match inRemoteNodes with
  | [src, target] =>
    if src.addr ≠ q.remoteNode.addr ∨ src.port ≠ q.remoteNode.port then some (q, rs)
    else q.answered getRingNumber target.latencyUS rs
  | _ => some (q, rs)

/-- `handleEvent`. -/
def handleEvent (inRemote : NodeIdent) (inPacket : List UInt8) (elapsedUS : UInt32)
    (q : AddNodeQuery) (rs : RingSet) : Option (AddNodeQuery × RingSet) :=
  if inPacket.headD 0 ≠ PONG then some (q, rs)
  else if inRemote.addr ≠ q.remoteNode.addr ∨ inRemote.port ≠ q.remoteNode.port then some (q, rs)
  else q.answered getRingNumber elapsedUS rs

/-- `handleTimeout`. -/
def handleTimeout (q : AddNodeQuery) (rs : RingSet) : Option (AddNodeQuery × RingSet) :=
  (rs.eraseNode getRingNumber q.remoteNode.ident).map fun res ↦
    ({ q with finished := true }, res.2)

end Handlers

end AddNodeQuery

/-! ### `ReqProbeGeneric` -/

/-- The members of a `ReqProbeGeneric`. Its subclasses differ in the class of the request. -/
structure ReqProbeQuery where
  qid : UInt64
  kind : ReqMeasureKind
  srcNode : NodeIdentRendv
  remoteNodes : NodeSet
  finished : Bool

namespace ReqProbeQuery

/-- The constructor. -/
def new (qid : UInt64) (kind : ReqMeasureKind) (inSrcNode : NodeIdentRendv) (inRemote : NodeSet) :
    ReqProbeQuery := ⟨qid, kind, inSrcNode, inRemote, false⟩

/-- `init` of `ReqProbeTCP`, `ReqProbeDNS`, `ReqProbePing` and `ReqProbeICMP`. -/
def init (magic : UInt32) (rendvNode : NodeIdent) (q : ReqProbeQuery) : List Output :=
  let req : ReqGeneric :=
    ⟨⟨Packet.new q.qid, rendvNode.addr, rendvNode.port⟩, q.kind, q.remoteNodes.toList⟩
  sendPacket (req.createRealPacket magic (RealPacket.new q.srcNode MAX_UDP_PACKET_SIZE))

/-- `handleEvent`. -/
def handleEvent (magic : UInt32) (inRemote : NodeIdent) (inPacket : List UInt8)
    (q : ReqProbeQuery) : ReqProbeQuery :=
  if inPacket.headD 0 ≠ RET_PING_REQ then q
  else if inRemote.addr ≠ q.srcNode.addr ∨ inRemote.port ≠ q.srcNode.port then q
  else
    match BufferWrapper.parse (RetPing.parser magic) inPacket with
    | none => q
    | some newRetPing =>
      -- "Only partial list of nodes returned"
      if newRetPing.nodes.length ≠ q.remoteNodes.size then q
      else { q with finished := true }

/-- `handleTimeout`. -/
def handleTimeout (getRingNumber : UInt32 → Fin MAX_NUM_RINGS) (q : ReqProbeQuery) (rs : RingSet) :
    Option (ReqProbeQuery × RingSet) :=
  (rs.eraseNode getRingNumber q.srcNode.ident).map fun res ↦ ({ q with finished := true }, res.2)

end ReqProbeQuery

end Meridian

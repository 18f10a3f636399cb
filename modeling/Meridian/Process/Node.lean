import Meridian.Query.AddNode
import Meridian.Query.RingManage

/-!
# The node

The `MeridianProcess` as far as its `RingSet` is concerned: the rings, and the query table with the
three kinds of queries that write them. One step is one outermost step of the event loop, or a part
of one: the creation of a query, a datagram, the timeout of one query.

* A query of another class occupies an id and is left alone; its notifications are a step of their
  own, in which any query may be told anything.
* `getNewQueryID` falls back on a random number, so the id of a new query is any number, and
  `insertNewQuery` refuses it if it is taken.
* `returnRendv` is set before the process is started, so it is a constant, like `MAGIC_NUMBER`.
* An entry of the table carries, next to its query, what that query has sent and what it has been
  given: the process has no such record. It is read by statements only, and so is the list of
  evictions.
-/

namespace Meridian

open Lib BufferWrapper

/-- What does not change while a process runs. -/
structure NodeEnv where
  magic : UInt32
  rendv : NodeIdent
  hyperVolume : HyperVolume
  getRingNumber : UInt32 → Fin MAX_NUM_RINGS

/-- A query. -/
inductive NodeQuery where
  | addNode (q : AddNodeQuery)
  | reqProbe (q : ReqProbeQuery)
  | ringManage (q : RingManageQuery)
  /-- A query of another class. -/
  | other (finished : Bool)

/-- `isFinished`. -/
def NodeQuery.isFinished : NodeQuery → Bool
  | .addNode q => q.finished
  | .reqProbe q => q.finished
  | .ringManage q => q.finished
  | .other finished => finished

/-- The members of an `AddNodeQuery`. -/
def NodeQuery.addNode? : NodeQuery → Option AddNodeQuery
  | .addNode q => some q
  | _ => none

/-- A query in the table, what it has put on the outgoing queue, and the datagrams that were handed
to it. -/
structure Entry where
  query : NodeQuery
  sent : List Output
  heard : List (NodeIdent × List UInt8)

/-- A ring member that the timeout of a query has removed. -/
structure Eviction where
  entry : Entry
  member : NodeIdent

/-- The state of a process. -/
structure Node where
  rings : RingSet
  table : UInt64 → Option Entry
  evictions : List Eviction

namespace Node

/-- A process with no query and empty rings. -/
def new (primarySize secondarySize : UInt32) : Node :=
  ⟨RingSet.new primarySize secondarySize, fun _ ↦ none, []⟩

/-! ### The query table -/

/-- `insertNewQuery`; `none` is the return value -1. -/
def insertNewQuery (id : UInt64) (e : Entry) (s : Node) : Option Node :=
  match s.table id with
  | some _ => none
  | none => some { s with table := Function.update s.table id (some e) }

/-- `updateTimeout`: a finished query leaves the table. -/
def updateTimeout (id : UInt64) (e : Entry) (s : Node) : Node :=
  { s with table := Function.update s.table id (if e.query.isFinished then none else some e) }

/-- The handler of a query has returned. -/
def handled (id : UInt64) (e : Entry) (s : Node) (res : NodeQuery × RingSet) : Node :=
  updateTimeout id { e with query := res.1 } { s with rings := res.2 }

/-! ### Creating queries -/

/-- A `ReqProbeGeneric`, inserted and started. -/
def startReqProbe (env : NodeEnv) (kind : ReqMeasureKind) (srcNode : NodeIdentRendv)
    (remoteNodes : NodeSet) (id : UInt64) (s : Node) : Node :=
  let q := ReqProbeQuery.new id kind srcNode remoteNodes
  (s.insertNewQuery id ⟨.reqProbe q, q.init env.magic env.rendv, []⟩).getD s

/-- `addNodeToRing`, for a node that is not in the ping cache. -/
def addNodeToRing (env : NodeEnv) (inRemote : NodeIdentRendv) (id probeId : UInt64) (s : Node) :
    Node :=
  let q := AddNodeQuery.new id inRemote
  match q.init env.magic env.rendv with
  | .ping sent => (s.insertNewQuery id ⟨.addNode q, sent, []⟩).getD s
  | .giveUp => (s.insertNewQuery id ⟨.addNode q, [], []⟩).getD s
  | .reqProbe =>
    match s.insertNewQuery id ⟨.addNode q, [], []⟩ with
    | none => s
    | some s => s.startReqProbe env .meridPing inRemote ((∅ : NodeSet).insert ⟨0, 0⟩) probeId

/-- The first loop of `performRingManagement`: the rings that are eligible. -/
def eligibleRings : List ℕ → RingSet → Option (List ℕ × RingSet)
  | [], rs => some ([], rs)
  | i :: is, rs =>
    (rs.eligibleForReplacement i).bind fun res ↦
      (eligibleRings is res.2).map fun rest ↦
        (if res.1 then i :: rest.1 else rest.1, rest.2)

/-- `performRingManagement`; `rand` is the random number. -/
def performRingManagement (env : NodeEnv) (rand : ℕ) (id : UInt64) (s : Node) : Option Node :=
  (eligibleRings (List.range MAX_NUM_RINGS) s.rings).map fun res ↦
    let s := { s with rings := res.2 }
    match (res.1[rand % res.1.length]? : Option ℕ) with
    | none => s
    | some selectedRing =>
      let started := (RingManageQuery.new id selectedRing).init env.magic env.rendv s.rings
      match s.insertNewQuery id ⟨.ringManage started.1, started.2.2, []⟩ with
      | none => s
      | some s => { s with rings := started.2.1 }

/-! ### Handlers -/

/-- `handleEvent` of a query. -/
def handleEvent (env : NodeEnv) (inRemote : NodeIdent) (inPacket : List UInt8) (elapsedUS : UInt32)
    (rs : RingSet) : NodeQuery → Option (NodeQuery × RingSet)
  | .addNode q =>
    (q.handleEvent env.getRingNumber inRemote inPacket elapsedUS rs).map fun res ↦
      (.addNode res.1, res.2)
  | .reqProbe q => some (.reqProbe (q.handleEvent env.magic inRemote inPacket), rs)
  | .ringManage q =>
    (q.handleEvent env.magic env.hyperVolume inRemote inPacket rs).map fun res ↦
      (.ringManage res.1, res.2.1)
  | .other finished => some (.other finished, rs)

/-- `handleLatency` of a query. -/
def handleLatency (env : NodeEnv) (inRemoteNodes : List NodeIdentLat) (rs : RingSet) :
    NodeQuery → Option (NodeQuery × RingSet)
  | .addNode q =>
    (q.handleLatency env.getRingNumber inRemoteNodes rs).map fun res ↦ (.addNode res.1, res.2)
  | q => some (q, rs)

/-- `handleTimeout` of a query. -/
def handleTimeout (env : NodeEnv) (rs : RingSet) : NodeQuery → Option (NodeQuery × RingSet)
  | .addNode q =>
    (q.handleTimeout env.getRingNumber rs).map fun res ↦ (.addNode res.1, res.2)
  | .reqProbe q =>
    (q.handleTimeout env.getRingNumber rs).map fun res ↦ (.reqProbe res.1, res.2)
  | .ringManage q =>
    (q.handleTimeout env.hyperVolume env.getRingNumber rs).map fun res ↦
      (.ringManage res.1, res.2.1)
  | .other finished => some (.other finished, rs)

/-! ### Steps -/

/-- The packet types `handleNewPacket` hands to the query table. -/
def notified (queryType : UInt8) : Bool :=
  queryType ∈ [RET_RESPONSE, RET_INFO, RET_ERROR, PONG, RET_PING_REQ, DSL_REPLY]

/-- `notifyQPacket`. -/
def notifyQPacket (env : NodeEnv) (id : UInt64) (inRemote : NodeIdent) (inPacket : List UInt8)
    (elapsedUS : UInt32) (s : Node) : Option Node :=
  match s.table id with
  | none => some s
  | some e =>
    (handleEvent env inRemote inPacket elapsedUS s.rings e.query).map
      (handled id { e with heard := e.heard ++ [(inRemote, inPacket)] } s)

/-- `notifyQLatency`. -/
def notifyQLatency (env : NodeEnv) (id : UInt64) (inRemoteNodes : List NodeIdentLat) (s : Node) :
    Option Node :=
  match s.table id with
  | none => some s
  | some e => (handleLatency env inRemoteNodes s.rings e.query).map (handled id e s)

/-- The members of all rings. -/
def members (rs : RingSet) : List NodeIdent :=
  (List.finRange MAX_NUM_RINGS).flatMap rs.ring

/-- One round of the loop of `QueryTable::handleTimeout`, with a note of the members it removes. -/
def timeoutQuery (env : NodeEnv) (id : UInt64) (s : Node) : Option Node :=
  match s.table id with
  | none => some s
  | some e =>
    (handleTimeout env s.rings e.query).map fun res ↦
      let gone := (members s.rings).filter fun m ↦ m ∉ members res.2
      { handled id e s res with evictions := s.evictions ++ gone.map (Eviction.mk e) }

/-- What can happen. -/
inductive Event where
  /-- A call of `addNodeToRing`, or of `GossipQuery::init`. -/
  | addNode (inRemote : NodeIdentRendv) (id probeId : UInt64)
  /-- A query asks a node to measure some others. -/
  | reqProbe (kind : ReqMeasureKind) (srcNode : NodeIdentRendv) (remoteNodes : NodeSet) (id : UInt64)
  /-- The periodic call of `performRingManagement`. -/
  | ringManagement (rand : ℕ) (id : UInt64)
  /-- A query of another class is inserted. -/
  | other (id : UInt64)
  /-- A query of another class finishes. -/
  | otherFinished (id : UInt64)
  /-- A datagram. -/
  | packet (inRemote : NodeIdent) (inPacket : List UInt8) (elapsedUS : UInt32)
  /-- A query is notified by another one. -/
  | latency (id : UInt64) (inRemoteNodes : List NodeIdentLat)
  /-- The deadline of a query has passed. -/
  | timeout (id : UInt64)

/-- One step. -/
def step (env : NodeEnv) (s : Node) : Event → Option Node
  | .addNode inRemote id probeId => some (s.addNodeToRing env inRemote id probeId)
  | .reqProbe kind srcNode remoteNodes id => some (s.startReqProbe env kind srcNode remoteNodes id)
  | .ringManagement rand id => s.performRingManagement env rand id
  | .other id => some ((s.insertNewQuery id ⟨.other false, [], []⟩).getD s)
  | .otherFinished id =>
    match s.table id with
    | some e =>
      match e.query with
      | .other _ => some (updateTimeout id { e with query := .other true } s)
      | _ => some s
    | none => some s
  | .packet inRemote inPacket elapsedUS =>
    match BufferWrapper.parse (Packet.parseHeader env.magic) inPacket with
    | none => some s
    | some (queryType, queryID) =>
      if notified queryType then s.notifyQPacket env queryID inRemote inPacket elapsedUS
      else some s
  | .latency id inRemoteNodes => s.notifyQLatency env id inRemoteNodes
  | .timeout id => s.timeoutQuery env id

end Node

end Meridian

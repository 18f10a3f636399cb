import Meridian.Marshal.Packets
import Meridian.RingSet

/-!
# The search queries

`HandleClosestGeneric` and `HandleMCGeneric` of `Query.cpp`: a request for the node closest to some
targets is answered by measuring the targets, asking the ring members at a similar distance to
measure them, and then either forwarding the request to the best of them or answering it.

The two classes run the same four handlers and differ in what a target carries, in how latencies are
summed up, and in the packet that is forwarded. What they differ in is a `SearchClass`, the handlers
are written once over it, and `handleClosest` and `handleMC` are the two classes of the source.

* A handler is a function of the query, of what it reads of the process (`SearchEnv`) and of its
  argument. It returns the query and what it did, as a list of `Output`s in order. An `assert` that
  fails, and a `createRealPacket` that does not return, end it (`Abort`).
* `set<NodeIdentConst>` and `set<NodeIdentRendv>` are keyed by address and port, so they are maps
  from a node to the rest of its entry. `set::insert` keeps an entry that is there.
* The timeout is the period that was last passed to `computeTimeout`. `averageLatUS` is not
  initialised by the constructor; it is 0 until `sendReqProbes` sets it, and nothing reads it before.
* The log lines are left out, but for the three that report an inconsistency.
-/

namespace Meridian

open Lib BufferWrapper

/-! ### Queries -/

/-- `HandleClosest_SM` and `HandleMultiConstraint_SM`. -/
inductive SearchState where
  | init
  | waitForDirectPing
  | indirectPing
  | waitForFin
  deriving DecidableEq, Repr

/-- The members of a search query; `τ` is what a target carries besides its address. -/
structure SearchQuery (τ : Type) where
  qid : UInt64
  betaNumer : UInt16
  betaDenom : UInt16
  averageLatUS : UInt32
  srcNode : NodeIdentRendv
  finished : Bool
  selectedMember : NodeIdent
  timeoutUS : UInt32
  remoteNodes : NodeMap τ
  ringMembers : NodeMap NodeIdentRendv
  remoteLatencies : NodeMap UInt32
  stateMachine : SearchState
  ringLatencies : NodeMap (NodeMap UInt32)

/-- What `sendReqProbes` works out of the latencies: the largest one, which sets the timeout and the
outer bound of the ring members, the inner bound, and the average. -/
structure Measure where
  largest : UInt32
  smallest : UInt32
  average : UInt32
  deriving DecidableEq, Repr

/-- What the two classes differ in. -/
structure SearchClass (τ : Type) where
  /-- `getQueryType`. -/
  queryType : UInt8
  /-- The statistics of `sendReqProbes`; `none` is a failure. -/
  measure : NodeMap τ → NodeMap UInt32 → Option Measure
  /-- The average that `handleForward` takes of a ring member's latencies. -/
  average : NodeMap τ → NodeMap UInt32 → Option UInt32
  /-- `createReqClosest` or `createReqConstraint`, one `addTarget` for each target, and
  `createRealPacket`. -/
  createReq : UInt64 → UInt16 → UInt16 → NodeIdent → NodeMap τ → RealPacket → Int × RealPacket

/-- What a handler reads of the process. -/
structure SearchEnv where
  /-- The cache that `getLatency` asks. -/
  getLatency : NodeIdent → Option UInt32
  /-- `returnRendv`. -/
  rendv : NodeIdent
  rings : RingSet
  getRingNumber : UInt32 → Fin MAX_NUM_RINGS

/-- The log lines that report an inconsistency. -/
inductive ErrorLog where
  /-- "Incorrect MAX/AVG calculation", in `sendReqProbes`. -/
  | measure
  /-- "Incorrect MAX/AVG calculation", in `handleForward`. -/
  | average
  /-- "Data in HandleClosestGeneric inconsistent". -/
  | inconsistent
  deriving DecidableEq, Repr

/-- What a handler does. -/
inductive Output where
  /-- `addOutPacket`. -/
  | packet (p : RealPacket)
  /-- A probe of a target, subscribed to and started. -/
  | probe (n : NodeIdent)
  /-- A request that a ring member probe the targets, subscribed to and started. -/
  | reqProbe (member : NodeIdentRendv)
  | error (e : ErrorLog)
  deriving DecidableEq, Repr

/-- Why a handler does not return. -/
inductive Abort where
  /-- `assert` on the header of a packet that has been dispatched by its header. -/
  | header
  /-- `assert` that the closest member is found. -/
  | closestMember
  /-- The entry loop of a reply with 2^32 entries or more. -/
  | endless
  deriving DecidableEq, Repr

/-- `MAX_RTT_MS * MICRO_IN_MILLI`. -/
def MAX_RTT_US : UInt32 := 5000 * 1000

/-- A set of targets: the first entry for an address counts. -/
def targetSet {τ : Type} (inRemote : List (NodeIdent × τ)) : NodeMap τ :=
  inRemote.foldl (fun nodes t ↦ nodes.insertIfNew t.1 t.2) ∅

/-- The constructor. -/
def SearchQuery.new {τ : Type} (id : UInt64) (inBetaNumer inBetaDenom : UInt16)
    (inSrcNode : NodeIdentRendv) (inRemote : List (NodeIdent × τ)) : SearchQuery τ where
  qid := id
  betaNumer := inBetaNumer
  betaDenom := inBetaDenom
  averageLatUS := 0
  srcNode := inSrcNode
  finished := false
  selectedMember := ⟨0, 0⟩
  timeoutUS := MAX_RTT_US
  remoteNodes := targetSet inRemote
  ringMembers := ∅
  remoteLatencies := ∅
  stateMachine := .init
  ringLatencies := ∅

/-! ### Sending -/

/-- `createRealPacket` and `addOutPacket`: a packet that could not be created is dropped. -/
def sendPacket (created : Int × RealPacket) : List Output :=
  if created.1 = -1 then [] else [.packet created.2]

/-- The same for a `RetResponse`. -/
def sendResponse (magic : UInt32) (dest : NodeIdentRendv) (resp : RetResponse) :
    Except Abort (List Output) :=
  match resp.createRealPacket magic (RealPacket.new dest MAX_UDP_PACKET_SIZE) with
  | none => .error .endless
  | some created => .ok (sendPacket created)

/-- The same for a `RetError`. -/
def sendError (magic : UInt32) (dest : NodeIdentRendv) (err : RetError) : List Output :=
  sendPacket (err.createRealPacket magic (RealPacket.new dest MAX_UDP_PACKET_SIZE))

/-- The same for a `RetInfo`. -/
def sendInfo (magic : UInt32) (dest : NodeIdentRendv) (info : RetInfo) : List Output :=
  sendPacket (info.createRealPacket magic (RealPacket.new dest MAX_UDP_PACKET_SIZE))

/-- The destination of `RealPacket(const NodeIdent&)`, without a rendavous. -/
def NodeIdent.direct (n : NodeIdent) : NodeIdentRendv := ⟨n.addr, n.port, 0, 0⟩

/-! ### Probes -/

/-- One target in `init`: a cached latency is taken, otherwise the target is probed. -/
def startProbe {τ : Type} (getLatency : NodeIdent → Option UInt32)
    (s : NodeMap UInt32 × List Output) (e : NodeIdent × τ) : NodeMap UInt32 × List Output :=
  match getLatency e.1 with
  | none => (s.1, s.2 ++ [.probe e.1])
  | some cur => (s.1.insert e.1 cur, s.2)

/-- The first part of every `init`: the latencies that are cached, and the probes of the other
targets. -/
def startProbes {τ : Type} (getLatency : NodeIdent → Option UInt32) (remoteNodes : NodeMap τ)
    (remoteLatencies : NodeMap UInt32) : NodeMap UInt32 × List Output :=
  remoteNodes.toList.foldl (startProbe getLatency) (remoteLatencies, [])

/-! ### Thresholds -/

/-- The beta ratio of a request, checked. -/
def betaRatio (betaNumer betaDenom : UInt16) : Binary64 :=
  RingSet.checkBeta ((Binary64.ofNat betaNumer.toNat).div (Binary64.ofNat betaDenom.toNat))

/-- A 64-bit integer as an unsigned number, the nearest one if it is out of range. -/
def clampUint (n : ℤ) : UInt32 :=
  if (UINT_MAX.toNat : ℤ) < n then UINT_MAX else if n < 0 then 0 else UInt32.ofNat n.toNat

/-- The latency that a ring member must not exceed to be forwarded to. -/
def latencyThreshold (betaNumer betaDenom : UInt16) (averageLatUS : UInt32) : UInt32 :=
  clampUint (((betaRatio betaNumer betaDenom).mul (.ofNat averageLatUS.toNat)).llround)

/-- The timeout while ring members are being asked. -/
def probeTimeout (betaNumer betaDenom : UInt16) (largest : UInt32) : UInt32 :=
  ((((Binary64.fin 2).mul (betaRatio betaNumer betaDenom)).add (.fin 1)).mul
    (.ofNat largest.toNat)).ceil.toUInt32

namespace SearchQuery

variable {τ : Type} (magic : UInt32) (C : SearchClass τ)

/-! ### `handleForward` -/

/-- One ring member in the search for the closest: the lowest average so far, whose it is, and the
failures of the average. -/
def lowestStep (q : SearchQuery τ) (best : UInt32 × NodeIdent × List Output)
    (e : NodeIdent × NodeMap UInt32) : UInt32 × NodeIdent × List Output :=
  match C.average q.remoteNodes e.2 with
  | none => (best.1, best.2.1, best.2.2 ++ [.error .average])
  | some curAvgLatency => if curAvgLatency < best.1 then (curAvgLatency, e.1, best.2.2) else best

/-- The search for the closest ring member. -/
def lowest (q : SearchQuery τ) : UInt32 × NodeIdent × List Output :=
  q.ringLatencies.toList.foldl (q.lowestStep C) (UINT_MAX, ⟨0, 0⟩, [])

/-- The answer with the closest node that is known. -/
def answer (q : SearchQuery τ) (lowestLatUS : UInt32) (closestMember : NodeIdent) :
    Except Abort RetResponse :=
  if lowestLatUS < q.averageLatUS then
    match q.ringLatencies[closestMember]? with
    | none => .error .closestMember
    | some latencies => .ok (.new q.qid closestMember.addr closestMember.port latencies)
  else
    .ok (.new q.qid 0 0 q.remoteLatencies)

/-- Where the request is forwarded to, with the rendavous on record. -/
def forwardDest (q : SearchQuery τ) (closestMember : NodeIdent) : NodeIdentRendv × List Output :=
  match q.ringMembers[closestMember]? with
  | none => (closestMember.direct, [.error .inconsistent])
  | some member => (member, [])

/-- `handleForward`. -/
def handleForward (env : SearchEnv) (q : SearchQuery τ) :
    Except Abort (SearchQuery τ × List Output) := do
  let (lowestLatUS, closestMember, failed) := q.lowest C
  let threshold := latencyThreshold q.betaNumer q.betaDenom q.averageLatUS
  if lowestLatUS = 0 ∨ threshold < lowestLatUS then
    let resp ← q.answer lowestLatUS closestMember
    let sent ← sendResponse magic q.srcNode resp
    pure ({ q with finished := true }, failed ++ sent)
  else
    let (dest, logged) := q.forwardDest closestMember
    let created := C.createReq q.qid q.betaNumer q.betaDenom env.rendv q.remoteNodes
      (RealPacket.new dest MAX_UDP_PACKET_SIZE)
    if created.1 = -1 then
      pure ({ q with finished := true }, failed ++ logged)
    else
      pure ({ q with
              selectedMember := closestMember
              timeoutUS := MAX_RTT_US
              stateMachine := .waitForFin }, failed ++ logged ++ [.packet created.2])

/-! ### `sendReqProbes` -/

/-- `sendReqProbes`. -/
def sendReqProbes (env : SearchEnv) (q : SearchQuery τ) :
    Except Abort (SearchQuery τ × List Output) :=
  if q.stateMachine ≠ .waitForDirectPing ∨ q.remoteLatencies.size ≠ q.remoteNodes.size then
    .ok (q, [])
  else
    match C.measure q.remoteNodes q.remoteLatencies with
    | none => .ok ({ q with finished := true }, [.error .measure])
    | some m => do
      let q := { q with
        averageLatUS := m.average
        timeoutUS := probeTimeout q.betaNumer q.betaDenom m.largest
        stateMachine := .indirectPing }
      let (rc, members) :=
        if m.average = 0 then (0, q.ringMembers)
        else env.rings.fillVector env.getRingNumber m.smallest m.largest
          (betaRatio q.betaNumer q.betaDenom) q.ringMembers
      let q := { q with ringMembers := members }
      if m.average = 0 ∨ rc = -1 ∨ members.size = 0 then
        let sent ← sendResponse magic q.srcNode (.new q.qid 0 0 q.remoteLatencies)
        pure ({ q with finished := true }, sent)
      else
        pure (q, members.toList.map fun e ↦ .reqProbe e.2)

/-! ### The handlers -/

/-- The latencies of a ring member's answer, each of which must be of a target. -/
def collect (remoteNodes : NodeMap τ) : List NodeIdentLat → Option (NodeMap UInt32)
  | results => results.foldlM (fun m r ↦
      if remoteNodes.contains r.ident then some (m.insert r.ident r.latencyUS) else none) ∅

/-- `handleLatency`. -/
def handleLatency (env : SearchEnv) (inRemoteNodes : List NodeIdentLat) (q : SearchQuery τ) :
    Except Abort (SearchQuery τ × List Output) :=
  match q.stateMachine with
  | .init => .ok (q, [])
  | .waitForDirectPing =>
    if q.remoteLatencies.size = q.remoteNodes.size then q.sendReqProbes magic C env
    else
      match inRemoteNodes with
      | [r] =>
        if !q.remoteNodes.contains r.ident then .ok (q, [])
        else if q.remoteLatencies.contains r.ident then .ok (q, [])
        else
          let q := { q with remoteLatencies := q.remoteLatencies.insert r.ident r.latencyUS }
          if q.remoteLatencies.size ≠ q.remoteNodes.size then .ok (q, [])
          else q.sendReqProbes magic C env
      | _ => .ok (q, [])
  | .indirectPing =>
    match inRemoteNodes with
    | [] => .ok (q, [])
    | src :: results =>
      if !q.ringMembers.contains src.ident then .ok (q, [])
      else if q.ringLatencies.contains src.ident then .ok (q, [])
      else
        match collect q.remoteNodes results with
        | none => .ok (q, [])
        | some latencies =>
          if q.remoteNodes.size ≠ latencies.size then .ok (q, [])
          else
            let q := { q with ringLatencies := q.ringLatencies.insert src.ident latencies }
            if q.ringMembers.size ≠ q.ringLatencies.size then .ok (q, [])
            else q.handleForward magic C env
  | .waitForFin => .ok (q, [])

/-- `init`. The query is in the query table when it is called, so that the notification at its end
reaches the query itself. -/
def init (env : SearchEnv) (q : SearchQuery τ) : Except Abort (SearchQuery τ × List Output) := do
  let (latencies, probes) := startProbes env.getLatency q.remoteNodes q.remoteLatencies
  let info := sendInfo magic q.srcNode ⟨Packet.new q.qid, 0, 0⟩
  let q := { q with remoteLatencies := latencies, stateMachine := .waitForDirectPing }
  if q.remoteLatencies.size = q.remoteNodes.size then
    let (q, sent) ← q.handleLatency magic C env []
    pure (q, probes ++ info ++ sent)
  else
    pure (q, probes ++ info)

/-- `handleEvent`. -/
def handleEvent (inRemote : NodeIdent) (inPacket : List UInt8) (q : SearchQuery τ) :
    Except Abort (SearchQuery τ × List Output) :=
  if q.stateMachine = .waitForFin then
    match parse (Packet.parseHeader magic) inPacket with
    | none => .error .header
    | some (queryType, _) =>
      if queryType = C.queryType then do
        -- the query may have gone in a loop
        let sent ← sendResponse magic inRemote.direct (.new q.qid 0 0 q.remoteLatencies)
        pure (q, sent)
      else if inRemote = q.selectedMember then
        if queryType = RET_RESPONSE then
          match parse (RetResponse.parser magic inRemote) inPacket with
          | none => .ok (q, [])
          | some resp => do
            let sent ← sendResponse magic q.srcNode resp
            pure ({ q with finished := true }, sent)
        else if queryType = RET_ERROR then
          match parse (RetError.parser magic) inPacket with
          | none => .ok (q, [])
          | some err => .ok ({ q with finished := true }, sendError magic q.srcNode err)
        else if queryType = RET_INFO then
          match parse (RetInfo.parser magic inRemote) inPacket with
          | none => .ok (q, [])
          | some info => .ok (q, sendInfo magic q.srcNode info)
        else
          .ok (q, [])
      else
        .ok (q, [])
  else
    .ok (q, [])

/-- `handleTimeout`. -/
def handleTimeout (env : SearchEnv) (q : SearchQuery τ) :
    Except Abort (SearchQuery τ × List Output) :=
  match q.stateMachine with
  | .init => .ok ({ q with finished := true }, [])
  | .waitForDirectPing =>
    .ok ({ q with finished := true }, sendError magic q.srcNode ⟨Packet.new q.qid⟩)
  | .indirectPing => q.handleForward magic C env
  | .waitForFin =>
    .ok ({ q with finished := true }, sendError magic q.srcNode ⟨Packet.new q.qid⟩)

end SearchQuery

/-! ### Events -/

/-- What happens to a query in the query table. -/
inductive SearchEvent where
  | init (env : SearchEnv)
  | handleLatency (env : SearchEnv) (inRemoteNodes : List NodeIdentLat)
  | handleEvent (inRemote : NodeIdent) (inPacket : List UInt8)
  | handleTimeout (env : SearchEnv)

/-- The handler an event calls. -/
def SearchQuery.handle {τ : Type} (magic : UInt32) (C : SearchClass τ) (q : SearchQuery τ) :
    SearchEvent → Except Abort (SearchQuery τ × List Output)
  | .init env => q.init magic C env
  | .handleLatency env inRemoteNodes => q.handleLatency magic C env inRemoteNodes
  | .handleEvent inRemote inPacket => q.handleEvent magic C inRemote inPacket
  | .handleTimeout env => q.handleTimeout magic C env

/-- One completed call on a query that is still in the table, which a finished query is not. The
state is the query and everything it has done so far. -/
def SearchQuery.step {τ : Type} (magic : UInt32) (C : SearchClass τ)
    (s : SearchQuery τ × List Output) (e : SearchEvent) : Option (SearchQuery τ × List Output) :=
  if s.1.finished then none
  else
    match s.1.handle magic C e with
    | .error _ => none
    | .ok (q, outs) => some (q, s.2 ++ outs)

/-! ### `HandleClosestGeneric` -/

/-- The average of a sum of latencies. -/
def averageUS (totalValue : Binary64) (size : ℕ) : UInt32 :=
  clampUint (totalValue.div (.ofNat size)).llround

/-- The sum of the latencies of a map. -/
def totalLatency (inMap : NodeMap UInt32) : Binary64 :=
  inMap.toList.foldl (fun total e ↦ total.add (.ofNat e.2.toNat)) (.fin 0)

/-- `getMaxAndMinAndAverage`. -/
def getMaxAndMinAndAverage (inMap : NodeMap UInt32) : Option Measure :=
  match inMap.toList with
  | [] => none
  | [e] => some ⟨e.2, e.2, e.2⟩
  | es => some
    { largest := es.foldl (fun m e ↦ if m < e.2 then e.2 else m) 0
      smallest := es.foldl (fun m e ↦ if e.2 < m then e.2 else m) UINT_MAX
      average := averageUS (totalLatency inMap) es.length }

/-- `getMaxAndAverage`, of which the average is used. -/
def getMaxAndAverage (inMap : NodeMap UInt32) : Option (UInt32 × UInt32) :=
  match inMap.toList with
  | [] => none
  | [e] => some (e.2, e.2)
  | es => some (es.foldl (fun m e ↦ if m < e.2 then e.2 else m) 0,
      averageUS (totalLatency inMap) es.length)

/-- `HandleClosestTCP`, `HandleClosestDNS`, `HandleClosestPing` and `HandleClosestICMP`. -/
def handleClosest (magic : UInt32) (kind : ReqClosestKind) : SearchClass Unit where
  queryType := kind.type
  measure := fun _ latencies ↦ getMaxAndMinAndAverage latencies
  average := fun _ latencies ↦ (getMaxAndAverage latencies).map Prod.snd
  createReq := fun id betaNum betaDen rendv nodes p ↦
    ReqClosestGeneric.createRealPacket magic
      ⟨⟨Packet.new id, rendv.addr, rendv.port⟩, kind, betaNum, betaDen, nodes.keys⟩ p

/-- The constructor of `HandleClosestGeneric`. -/
def newClosest (id : UInt64) (betaNumer betaDenom : UInt16) (srcNode : NodeIdentRendv)
    (inRemote : List NodeIdent) : SearchQuery Unit :=
  SearchQuery.new id betaNumer betaDenom srcNode (inRemote.map fun n ↦ (n, ()))

/-! ### `HandleMCGeneric` -/

/-- A constraint in microseconds. -/
def constraintUS (latencyConstMS : UInt32) : ℤ := latencyConstMS.toNat * 1000

/-- `getMaxSolution`. -/
def getMaxSolution (remoteNodes inMap : NodeMap UInt32) (subtract : Bool) : Option UInt32 :=
  (remoteNodes.toList.foldlM (fun (maxSol : ℤ) e ↦
    (inMap[e.1]?).map fun latency ↦
      let cur : ℤ := latency.toNat
      max maxSol (if subtract then max 0 (cur - constraintUS e.2) else cur + constraintUS e.2))
    0).map clampUint

/-- The sum of the squares by which the latencies miss their constraints. A square is a product of
`long long`s. -/
def totalSolution (remoteNodes inMap : NodeMap UInt32) : Option Binary64 :=
  remoteNodes.toList.foldlM (fun (total : Binary64) e ↦
    (inMap[e.1]?).map fun latency ↦
      let excess : ℤ := max 0 ((latency.toNat : ℤ) - constraintUS e.2)
      total.add (.ofRat ((excess * excess).bmod (2 ^ 64)))) (.fin 0)

/-- `getAvgSolution`. -/
def getAvgSolution (remoteNodes inMap : NodeMap UInt32) : Option UInt32 :=
  (totalSolution remoteNodes inMap).map fun total ↦
    let solution := total.sqrt.div (.ofNat remoteNodes.size)
    if (Binary64.ofNat UINT_MAX.toNat).lt solution then UINT_MAX
    else if solution.lt (.fin 0) then 0
    else solution.toUInt32

/-- `HandleMCTCP`, `HandleMCDNS`, `HandleMCPing` and `HandleMCICMP`. -/
def handleMC (magic : UInt32) (kind : ReqConstraintKind) : SearchClass UInt32 where
  queryType := kind.type
  measure := fun nodes latencies ↦ do
    let largestAdd ← getMaxSolution nodes latencies false
    let largestSub ← getMaxSolution nodes latencies true
    let average ← getAvgSolution nodes latencies
    pure ⟨largestAdd, largestSub, average⟩
  average := getAvgSolution
  createReq := fun id betaNum betaDen rendv nodes p ↦
    ReqConstraintGeneric.createRealPacket magic
      ⟨⟨Packet.new id, rendv.addr, rendv.port⟩, kind, betaNum, betaDen,
        nodes.toList.map constEntry⟩ p

/-- The constructor of `HandleMCGeneric`. -/
def newMC (id : UInt64) (betaNumer betaDenom : UInt16) (srcNode : NodeIdentRendv)
    (inRemote : List NodeIdentConst) : SearchQuery UInt32 :=
  SearchQuery.new id betaNumer betaDenom srcNode
    (inRemote.map fun t ↦ (t.ident, t.latencyConstMS))

end Meridian

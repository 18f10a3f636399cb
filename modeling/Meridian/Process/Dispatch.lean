import Meridian.Marshal.Tunnel
import Meridian.Process.Node
import Meridian.Query.Request
import Meridian.Query.Thread

/-!
# The dispatch of packets

`handleNewPacket`, with the handlers that it calls: each of them parses the rest of the packet that
its type byte names, and goes on with the members of what has been parsed.

* A parser returns NULL if it fails, here `none`. A member of its result is read through `deref`,
  which fails on NULL, so a result that is used without a check is an error of the model, as it is in
  the source. The checks stand where they stand there.
* A handler of a query is the one of `Query/`, but for this way of reading; `NullRead` says that it
  gives the same.
* What a packet does to the process is a list of actions. It reads the state and does not change it
  in between, but for the queries that an action updates.
* `uncompress` and `yyparse` are parameters: zlib, and the generated parser of programs.
-/

namespace Meridian

open Lib BufferWrapper MQL MQL.Value

/-! ### NULL -/

/-- Why a packet is not handled to its end. -/
inductive Fault where
  /-- A member is read through a NULL pointer. -/
  | null
  /-- A handler of a search query ends in an assertion or an endless loop. -/
  | abort (a : Abort)
  /-- An assertion on the rings fails. -/
  | assertion
  /-- `DSLReqQuery`s redirect to each other without end. -/
  | depth
  deriving DecidableEq

/-- A member is read through a pointer. -/
def deref {α : Type} : Option α → Except Fault α
  | none => .error .null
  | some a => .ok a

/-! ### The packet that starts a thread -/

/-- `MAX_PROGRAM_SIZE`. -/
def MAX_PROGRAM_SIZE : ℕ := 10000

/-- What a `DSL_REQUEST` carries behind its header: the text of a program, the function that is to be
called, and its parameters. -/
structure Program (D : Type) where
  text : List UInt8
  funcString : Str
  param : Value D

/-- A new parser state, with its nodes for `EMPTY`, `BREAK` and `CONTINUE`. -/
def newParserState (buf : List UInt8) : UnmarshalState := ⟨.new buf, 3⟩

/-- The C string at the cursor. Without a NUL it ends with the buffer; the source reads on there. -/
def cString (bw : BufferWrapper) : Str := (bw.buf.drop bw.counter.toNat).takeWhile (· ≠ 0)

/-- The name of a function: so many bytes are retrieved, and `set_func_string` takes the C string that
starts with them. -/
def retrieveName (stringSize : UInt32) : Parser UnmarshalState (Option Str) := fun s ↦
  (retrieveStr stringSize s).map fun res ↦ (res.1.map fun _ ↦ cString s.bw, res.2)

/-- `unmarshal_packet`. -/
def unmarshalPacket {D : Type} (xdr : XdrDouble D)
    (uncompress : ℕ → List UInt8 → Option (List UInt8)) : Parser UnmarshalState (Program D) := do
  let progSize ← onBuffer retrieveNetUint
  if MAX_PROGRAM_SIZE < progSize.toNat then failure
  else
    let compProgSize ← onBuffer retrieveNetUint
    let buf ← retrieveStr compProgSize
    match buf with
    | none => failure
    | some buf =>
      let stringSize ← onBuffer retrieveNetUint
      let funcName ← retrieveName stringSize
      match funcName with
      | none => failure
      | some funcName =>
        let param ← unmarshalAst xdr
        match uncompress progSize.toNat buf with
        | none => failure
        | some text => pure ⟨text, funcName, param⟩

/-- The data of a `DSLRequestPacket`. -/
structure DSLRequestPacket extends RendvHeaderPacket where
  msRemain : UInt16
  ttl : UInt16
  deriving DecidableEq, Repr

/-- `DSLRequestPacket::parse`, with the program that it leaves in the parser state. -/
def DSLRequestPacket.parse {D : Type} (magic : UInt32) (xdr : XdrDouble D)
    (uncompress : ℕ → List UInt8 → Option (List UInt8)) :
    Parser UnmarshalState (DSLRequestPacket × Program D) := do
  let start ← onBuffer (Packet.parseStart DSL_REQUEST)
  let rendvAddr ← onBuffer retrieveNetUint
  let rendvPort ← onBuffer retrieveNetUshort
  let curRemain ← onBuffer retrieveNetUshort
  let curTtl ← onBuffer retrieveNetUshort
  onBuffer (nullIf (start.2 != magic))
  let program ← unmarshalPacket xdr uncompress
  onBuffer (nullIf false)
  pure (⟨⟨Packet.new start.1, rendvAddr, rendvPort⟩, curRemain, curTtl⟩, program)

/-! ### The process -/

/-- What does not change while a process runs. -/
structure DispatchEnv (D : Type) extends NodeEnv where
  xdr : XdrDouble D
  uncompress : ℕ → List UInt8 → Option (List UInt8)
  /-- The return value of `yyparse` on a program. -/
  yyparse : List UInt8 → Int
  maxTTL : UInt16

/-- A query in the table. -/
inductive PacketQuery (D : Type) where
  /-- A query that writes the rings, or a query of a class whose `handleEvent` parses nothing. -/
  | node (q : NodeQuery)
  | closest (kind : ReqClosestKind) (q : SearchQuery Unit)
  | mc (kind : ReqConstraintKind) (q : SearchQuery UInt32)
  | dslReq (q : DSLReqQuery)
  | dslRecv (t : DSLRecvQuery D)

/-- What a packet meets. -/
structure DispatchState (D : Type) where
  rings : RingSet
  table : Std.ExtTreeMap UInt64 (PacketQuery D)
  /-- The nodes this one is the rendavous of, and their sockets. -/
  rendvConnections : NodeMap Int
  /-- The packets that wait for a socket. -/
  rendvQueue : Std.ExtTreeMap Int (List RealPacket)

/-- A packet, and what is read outside of the process while it is handled. -/
structure Received where
  buf : List UInt8
  remoteNode : NodeIdent
  /-- The time since the start of the query that is notified. -/
  elapsedUS : UInt32
  /-- `getNewQueryID`. -/
  newQueryID : UInt64
  /-- `getRandomNodes`. -/
  randomNodes : List NodeIdentRendv

/-- What a packet does to the process. -/
inductive Action (D : Type) where
  /-- A packet joins the queue of a socket. -/
  | pushed (fd : Int) (p : RealPacket)
  /-- The connection of a node is forgotten. -/
  | rendvErased (n : NodeIdent)
  | output (out : Output)
  | addNodeToRing (n : NodeIdentRendv)
  /-- The handler of a query has changed it, and the rings. -/
  | handled (id : UInt64) (q : PacketQuery D) (rings : RingSet)
  | measure (q : MeasureQuery)
  | closest (kind : ReqClosestKind) (q : SearchQuery Unit)
  | mc (kind : ReqConstraintKind) (q : SearchQuery UInt32)
  | thread (srcNode : NodeIdentRendv) (prevID : UInt64) (timeoutMS ttl : UInt16)

namespace Dispatch

/-- A packet that joins the outgoing queue. -/
def outPacket? {D : Type} : Action D → Option RealPacket
  | .output (.packet p) => some p
  | _ => none

/-! ### Queries -/

/-- `ReqProbeGeneric::handleEvent`. -/
def reqProbeEvent (magic : UInt32) (inRemote : NodeIdent) (inPacket : List UInt8)
    (q : ReqProbeQuery) : Except Fault ReqProbeQuery :=
  if inPacket.headD 0 ≠ RET_PING_REQ then .ok q
  else if inRemote.addr ≠ q.srcNode.addr ∨ inRemote.port ≠ q.srcNode.port then .ok q
  else
    let newRetPing := BufferWrapper.parse (RetPing.parser magic) inPacket
    if newRetPing.isNone then .ok q
    else do
      let newRetPing ← deref newRetPing
      if newRetPing.nodes.length ≠ q.remoteNodes.size then pure q
      else pure { q with finished := true }

/-- `RingManageQuery::handleEvent`. -/
def ringManageEvent (env : NodeEnv) (inRemote : NodeIdent) (inPacket : List UInt8)
    (q : RingManageQuery) (rs : RingSet) : Except Fault (RingManageQuery × RingSet) :=
  if inPacket.headD 0 ≠ RET_PING_REQ then .ok (q, rs)
  else if !q.remoteNodes.contains inRemote then .ok (q, rs)
  else if q.retNodeMap.contains inRemote then .ok (q, rs)
  else
    let ret := BufferWrapper.parse (RetPing.parser env.magic) inPacket
    if ret.isNone then .ok (q, rs)
    else do
      let ret ← deref ret
      let q := { q with retNodeMap := q.retNodeMap.insert inRemote (q.reportOf ret) }
      if q.retNodeMap.size = q.remoteNodes.size then
        let rs := (rs.unfreezeRing q.ringNum).2
        match q.performReplacement env.hyperVolume rs with
        | none => .error .assertion
        | some res => pure ({ q with finished := true }, res.1)
      else pure (q, rs)

/-- A query that writes the rings is notified. -/
def nodeEvent (env : NodeEnv) (inRemote : NodeIdent) (inPacket : List UInt8) (elapsedUS : UInt32)
    (rs : RingSet) : NodeQuery → Except Fault (NodeQuery × RingSet)
  | .addNode q =>
    -- nothing is parsed
    match q.handleEvent env.getRingNumber inRemote inPacket elapsedUS rs with
    | none => .error .assertion
    | some res => .ok (.addNode res.1, res.2)
  | .reqProbe q => do
    let q ← reqProbeEvent env.magic inRemote inPacket q
    pure (.reqProbe q, rs)
  | .ringManage q => do
    let res ← ringManageEvent env inRemote inPacket q rs
    pure (.ringManage res.1, res.2)
  | .other finished => .ok (.other finished, rs)

/-- A result of a handler of a search query. -/
def ofAbort {α : Type} : Except Abort α → Except Fault α
  | .error a => .error (.abort a)
  | .ok a => .ok a

/-- `HandleClosestGeneric::handleEvent` and `HandleMCGeneric::handleEvent`. -/
def searchEvent {τ : Type} (magic : UInt32) (C : SearchClass τ) (inRemote : NodeIdent)
    (inPacket : List UInt8) (q : SearchQuery τ) : Except Fault (SearchQuery τ × List Output) :=
  if q.stateMachine = .waitForFin then
    match parse (Packet.parseHeader magic) inPacket with
    | none => .error (.abort .header)
    | some (queryType, _) =>
      if queryType = C.queryType then do
        let sent ← ofAbort (sendResponse magic inRemote.direct (.new q.qid 0 0 q.remoteLatencies))
        pure (q, sent)
      else if inRemote = q.selectedMember then
        if queryType = RET_RESPONSE then
          let retResp := parse (RetResponse.parser magic inRemote) inPacket
          if retResp.isNone then .ok (q, [])
          else do
            let retResp ← deref retResp
            let sent ← ofAbort (sendResponse magic q.srcNode retResp)
            pure ({ q with finished := true }, sent)
        else if queryType = RET_ERROR then
          let retErr := parse (RetError.parser magic) inPacket
          if retErr.isNone then .ok (q, [])
          else do
            let retErr ← deref retErr
            pure ({ q with finished := true }, sendError magic q.srcNode retErr)
        else if queryType = RET_INFO then
          let curRetInfo := parse (RetInfo.parser magic inRemote) inPacket
          if curRetInfo.isNone then .ok (q, [])
          else do
            let curRetInfo ← deref curRetInfo
            pure (q, sendInfo magic q.srcNode curRetInfo)
        else
          .ok (q, [])
      else
        .ok (q, [])
  else
    .ok (q, [])

/-- `DSLRecvQuery::handleEvent`. -/
def dslRecvEvent {D : Type} (xdr : XdrDouble D) (magic : UInt32) (inPacket : List UInt8)
    (t : DSLRecvQuery D) : Except Fault (DSLRecvQuery D) :=
  let tmpReplyPacket :=
    DSLReplyPacket.parse xdr magic ⟨BufferWrapper.new inPacket, t.astAllocationCount⟩
  if tmpReplyPacket.isNone then .ok t
  else do
    let tmpReplyPacket ← deref tmpReplyPacket
    pure (.wake .reply
      { t with
        rpcRecv := tmpReplyPacket.1.2
        rpcSource := some inPacket
        astAllocationCount := tmpReplyPacket.2.astAllocationCount })

variable {D : Type}

/-- `notifyQPacket`, with a bound on the depth of redirections. -/
def notifyQPacket (env : DispatchEnv D) (s : DispatchState D) (r : Received) :
    ℕ → UInt64 → Except Fault (List (Action D))
  | 0, _ => .error .depth
  | depth + 1, id =>
    match s.table[id]? with
    | none => .ok []
    | some (.node q) => do
      let res ← nodeEvent env.toNodeEnv r.remoteNode r.buf r.elapsedUS s.rings q
      pure [.handled id (.node res.1) res.2]
    | some (.closest kind q) => do
      let res ← searchEvent env.magic (handleClosest env.magic kind) r.remoteNode r.buf q
      pure (.handled id (.closest kind res.1) s.rings :: res.2.map .output)
    | some (.mc kind q) => do
      let res ← searchEvent env.magic (handleMC env.magic kind) r.remoteNode r.buf q
      pure (.handled id (.mc kind res.1) s.rings :: res.2.map .output)
    | some (.dslReq q) => do
      let res ← notifyQPacket env s r depth q.recvQueryID
      pure (res ++ [.handled id (.dslReq q) s.rings])
    | some (.dslRecv t) => do
      let t ← dslRecvEvent env.xdr env.magic r.buf t
      pure [.handled id (.dslRecv t) s.rings]

/-! ### Packets -/

section Cases

variable (env : DispatchEnv D) (s : DispatchState D) (r : Received) (queryID : UInt64)

/-- A query of the table is told of the packet. -/
def notify : Except Fault (List (Action D)) := notifyQPacket env s r (s.table.size + 1) queryID

/-- The case `PUSH`. -/
def handlePush : Except Fault (List (Action D)) := do
  let inPacket := PushPacket.parse env.magic r.remoteNode r.buf
  -- its address is read at once
  let p ← deref inPacket
  let destIdent : NodeIdent := ⟨p.dest.addr, p.dest.port⟩
  match s.rendvConnections[destIdent]? with
  | none => pure []
  | some fd =>
    match s.rendvQueue[fd]? with
    | none => pure [.rendvErased destIdent]
    | some _ => pure [.pushed fd p]

/-- The case `PING`. -/
def handlePing : Except Fault (List (Action D)) :=
  .ok ((sendPacket (Packet.createHeaderPacket env.magic PONG (Packet.new queryID)
    (RealPacket.ofIdent r.remoteNode))).map .output)

/-- The GOSSIP_PULL packet that answers a GOSSIP packet: random members, but for its receiver. -/
def pullPacket (target : NodeIdentRendv) : GossipPacketGeneric :=
  let entries := (r.randomNodes.filter fun n ↦ n.addr ≠ target.addr ∨ n.port ≠ target.port).map
    fun n ↦ (n.ident, (⟨n.addrRendv, n.portRendv.toUInt16⟩ : NodeIdent))
  ⟨⟨Packet.new r.newQueryID, env.rendv.addr, env.rendv.port⟩, .pull, entries.map addNodeEntry,
    portRendv_addNodeEntry entries⟩

/-- The cases `GOSSIP` and `GOSSIP_PULL`. -/
def handleGossip (kind : GossipKind) : Except Fault (List (Action D)) :=
  let tmp := parse (GossipPacketGeneric.parser env.magic kind) r.buf
  if tmp.isSome then do
    let tmp ← deref tmp
    let remoteNodeRendv := tmp.sender r.remoteNode
    let pull :=
      if kind = .push then
        sendPacket ((pullPacket env r remoteNodeRendv).createRealPacket env.magic
          (RealPacket.new remoteNodeRendv MAX_UDP_PACKET_SIZE))
      else []
    pure ((remoteNodeRendv :: tmp.targets).map .addNodeToRing ++ pull.map .output)
  else .ok []

/-- `handleMCReq`. -/
def handleMCPacket (kind : ReqConstraintKind) : Except Fault (List (Action D)) :=
  if s.table.contains queryID then notify env s r queryID
  else
    let tmp := parse (ReqConstraintGeneric.parser env.magic kind) r.buf
    if tmp.isSome then do
      let tmp ← deref tmp
      pure [.mc kind (newMC queryID tmp.betaNum tmp.betaDen (tmp.sender r.remoteNode) tmp.targets)]
    else .ok []

/-- `handleClosestReq`. -/
def handleClosestPacket (kind : ReqClosestKind) : Except Fault (List (Action D)) :=
  if s.table.contains queryID then notify env s r queryID
  else
    let tmp := parse (ReqClosestGeneric.parser env.magic kind) r.buf
    if tmp.isSome then do
      let tmp ← deref tmp
      pure [.closest kind
        (newClosest queryID tmp.betaNum tmp.betaDen (tmp.sender r.remoteNode) tmp.targets)]
    else .ok []

/-- `handleMeasureReq`. -/
def handleMeasurePacket (kind : ReqMeasureKind) : Except Fault (List (Action D)) :=
  let tmp := parse (ReqGeneric.parser env.magic kind) r.buf
  if tmp.isSome then do
    let tmp ← deref tmp
    if tmp.targets.length = 0 then
      pure ((sendPacket (RetPing.createRealPacket env.magic ⟨Packet.new tmp.retReqID, []⟩
        (RealPacket.new (tmp.sender r.remoteNode) MAX_UDP_PACKET_SIZE))).map .output)
    else
      pure [.measure (MeasureQuery.new tmp.retReqID (tmp.sender r.remoteNode) tmp.targets)]
  else .ok []

/-- The case `DSL_REQUEST`. -/
def handleDSLRequest : Except Fault (List (Action D)) :=
  let inPacket := DSLRequestPacket.parse env.magic env.xdr env.uncompress (newParserState r.buf)
  if inPacket.isNone then .ok []
  else do
    let ((pkt, program), _) ← deref inPacket
    -- packets that have too large TTLs are dropped, and programs that are not accepted
    if env.maxTTL < pkt.ttl then pure []
    else if env.yyparse program.text = -1 then pure []
    else pure [.thread (pkt.sender r.remoteNode) pkt.retReqID pkt.msRemain pkt.ttl]

/-- The `switch` on the type of a packet. -/
def dispatch (queryType : UInt8) : Except Fault (List (Action D)) :=
  if queryType = PUSH then handlePush env s r
  else if queryType = PING then handlePing env r queryID
  else if queryType = GossipKind.push.type then handleGossip env r .push
  else if queryType = GossipKind.pull.type then handleGossip env r .pull
  else if queryType = ReqConstraintKind.icmp.type then handleMCPacket env s r queryID .icmp
  else if queryType = ReqConstraintKind.ping.type then handleMCPacket env s r queryID .ping
  else if queryType = ReqConstraintKind.dns.type then handleMCPacket env s r queryID .dns
  else if queryType = ReqConstraintKind.tcp.type then handleMCPacket env s r queryID .tcp
  else if queryType = ReqClosestKind.icmp.type then handleClosestPacket env s r queryID .icmp
  else if queryType = ReqClosestKind.meridPing.type then
    handleClosestPacket env s r queryID .meridPing
  else if queryType = ReqClosestKind.dns.type then handleClosestPacket env s r queryID .dns
  else if queryType = ReqClosestKind.tcp.type then handleClosestPacket env s r queryID .tcp
  else if queryType = RET_RESPONSE then notify env s r queryID
  else if queryType = RET_INFO then notify env s r queryID
  else if queryType = RET_ERROR then notify env s r queryID
  else if queryType = PONG then notify env s r queryID
  else if queryType = ReqMeasureKind.meridPing.type then handleMeasurePacket env r .meridPing
  else if queryType = ReqMeasureKind.tcp.type then handleMeasurePacket env r .tcp
  else if queryType = ReqMeasureKind.dns.type then handleMeasurePacket env r .dns
  else if queryType = ReqMeasureKind.icmp.type then handleMeasurePacket env r .icmp
  else if queryType = RET_PING_REQ then notify env s r queryID
  else if queryType = DSL_REPLY then notify env s r queryID
  else if queryType = DSL_REQUEST then handleDSLRequest env r
  else .ok []

end Cases

/-- `handleNewPacket`. -/
def handleNewPacket (env : DispatchEnv D) (s : DispatchState D) (r : Received) :
    Except Fault (List (Action D)) :=
  match parse (Packet.parseHeader env.magic) r.buf with
  | none => .ok []
  | some (queryType, queryID) => dispatch env s r queryID queryType

end Dispatch

end Meridian

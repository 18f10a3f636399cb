import Meridian.Marshal.Buffer

/-!
# Packet classes

The datagram formats of `Marshal.h`: for each class its data, `createRealPacket` and `parse`.

* The subclasses of one generic class differ in their type byte only. They are the values of a
  `…Kind`, which a message carries and which `parse` (the template argument of the source) is given.
* `MAGIC_NUMBER` is a hash of the application name; it is a parameter.
* A vector member is a list. Its `size()` is taken as a 32-bit number wherever the source does so.
* `createRealPacket` returns its `int` next to the packet, `parse` returns `none` for NULL.
-/

namespace Meridian

open Lib BufferWrapper

/-! ### Packet types -/

/-- The `REQ_MEASURE_N_…` classes. -/
inductive ReqMeasureKind where
  | meridPing
  | tcp
  | dns
  | icmp
  deriving DecidableEq, Repr

/-- The `REQ_CONSTRAINT_N_…` classes. -/
inductive ReqConstraintKind where
  | tcp
  | dns
  | ping
  | icmp
  deriving DecidableEq, Repr

/-- The `REQ_CLOSEST_N_…` classes. -/
inductive ReqClosestKind where
  | tcp
  | meridPing
  | dns
  | icmp
  deriving DecidableEq, Repr

/-- `GossipPacketPush` and `GossipPacketPull`. -/
inductive GossipKind where
  | push
  | pull
  deriving DecidableEq, Repr

/-- `T::type()`. -/
def ReqMeasureKind.type : ReqMeasureKind → UInt8
  | .meridPing => 5
  | .tcp => 3
  | .dns => 7
  | .icmp => 26

@[inherit_doc ReqMeasureKind.type]
def ReqConstraintKind.type : ReqConstraintKind → UInt8
  | .tcp => 1
  | .dns => 20
  | .ping => 21
  | .icmp => 28

@[inherit_doc ReqMeasureKind.type]
def ReqClosestKind.type : ReqClosestKind → UInt8
  | .tcp => 2
  | .meridPing => 4
  | .dns => 6
  | .icmp => 27

@[inherit_doc ReqMeasureKind.type]
def GossipKind.type : GossipKind → UInt8
  | .push => 10
  | .pull => 23

abbrev RET_RESPONSE : UInt8 := 9
abbrev PUSH : UInt8 := 11
abbrev PULL : UInt8 := 12
abbrev RET_PING_REQ : UInt8 := 13
abbrev PING : UInt8 := 14
abbrev PONG : UInt8 := 15
abbrev RET_ERROR : UInt8 := 18
abbrev RET_INFO : UInt8 := 19
abbrev INFO_PACKET : UInt8 := 22
abbrev DSL_REQUEST : UInt8 := 24
abbrev DSL_REPLY : UInt8 := 25

/-! ### Headers -/

/-- `Packet::to64`. -/
def to64 (id1 id2 : UInt32) : UInt64 := id1.toUInt64 <<< 32 ||| id2.toUInt64

/-- `Packet::to32`. -/
def to32 (id : UInt64) : UInt32 × UInt32 := ((id >>> 32).toUInt32, (id &&& 0xFFFFFFFF).toUInt32)

theorem to64_toNat (id1 id2 : UInt32) :
    (to64 id1 id2).toNat = id1.toNat * 2 ^ 32 + id2.toNat := by
  have h1 := id1.toNat_lt
  have h2 := id2.toNat_lt
  rw [to64, UInt64.toNat_or, UInt64.toNat_shiftLeft]
  simp only [UInt32.toNat_toUInt64]
  change (id1.toNat <<< 32 % 2 ^ 64) ||| id2.toNat = _
  rw [Nat.mod_eq_of_lt (by rw [Nat.shiftLeft_eq]; omega), ← Nat.shiftLeft_add_eq_or_of_lt h2,
    Nat.shiftLeft_eq]

@[simp] theorem to32_to64 (id1 id2 : UInt32) : to32 (to64 id1 id2) = (id1, id2) := by
  have h1 := id1.toNat_lt
  have h2 := id2.toNat_lt
  have hn := to64_toNat id1 id2
  rw [to32, Prod.mk.injEq, ← UInt32.toNat_inj, ← UInt32.toNat_inj]
  constructor
  · rw [UInt64.toNat_toUInt32, UInt64.toNat_shiftRight, hn]
    change ((id1.toNat * 2 ^ 32 + id2.toNat) >>> 32) % 2 ^ 32 = _
    rw [Nat.shiftRight_eq_div_pow]
    omega
  · rw [UInt64.toNat_toUInt32, UInt64.toNat_and, hn]
    change ((id1.toNat * 2 ^ 32 + id2.toNat) &&& (2 ^ 32 - 1)) % 2 ^ 32 = _
    rw [Nat.and_two_pow_sub_one_eq_mod]
    omega

@[simp] theorem to64_to32 (id : UInt64) : to64 (to32 id).1 (to32 id).2 = id := by
  have h := id.toNat_lt
  rw [← UInt64.toNat_inj, to64_toNat, to32, UInt64.toNat_toUInt32, UInt64.toNat_toUInt32,
    UInt64.toNat_shiftRight, UInt64.toNat_and]
  change ((id.toNat >>> 32) % 2 ^ 32) * 2 ^ 32 + (id.toNat &&& (2 ^ 32 - 1)) % 2 ^ 32 = id.toNat
  rw [Nat.and_two_pow_sub_one_eq_mod, Nat.shiftRight_eq_div_pow]
  omega

/-- The data of a `Packet`. -/
structure Packet where
  reqId1 : UInt32
  reqId2 : UInt32
  deriving DecidableEq, Repr

namespace Packet

/-- The constructor. -/
def new (id : UInt64) : Packet := ⟨(to32 id).1, (to32 id).2⟩

/-- `retReqID`. -/
def retReqID (pkt : Packet) : UInt64 := to64 pkt.reqId1 pkt.reqId2

@[simp] theorem retReqID_new (id : UInt64) : (new id).retReqID = id := to64_to32 id

@[simp] theorem new_to64 (id1 id2 : UInt32) : new (to64 id1 id2) = ⟨id1, id2⟩ := by
  rw [new, to32_to64]

@[simp] theorem new_retReqID (pkt : Packet) : new pkt.retReqID = pkt := new_to64 _ _

/-- `write_id`. -/
def writeId (magic : UInt32) (pkt : Packet) (p : RealPacket) : RealPacket :=
  let p := p.appendUint (htonl pkt.reqId1)
  let p := p.appendUint (htonl pkt.reqId2)
  p.appendUint (htonl magic)

/-- `parseHeader`: the type byte and the query id of a buffer that carries the magic number. -/
def parseHeader (magic : UInt32) : Parser BufferWrapper (UInt8 × UInt64) := do
  let queryType ← retrieveChar
  let queryID1 ← retrieveNetUint
  let queryID2 ← retrieveNetUint
  let magicNumber ← retrieveNetUint
  nullIf (magicNumber != magic)
  pure (queryType, to64 queryID1 queryID2)

/-- How every `parse` begins: the type byte, which must be the class's own, the query id, and the
magic number, which is compared later. -/
def parseStart (type : UInt8) : Parser BufferWrapper (UInt64 × UInt32) := do
  let queryType ← retrieveChar
  nullIf (queryType != type)
  let queryID1 ← retrieveNetUint
  let queryID2 ← retrieveNetUint
  let magicNumber ← retrieveNetUint
  pure (to64 queryID1 queryID2, magicNumber)

end Packet

/-- The data of a `RendvHeaderPacket`. -/
structure RendvHeaderPacket extends Packet where
  rendvAddr : UInt32
  rendvPort : UInt16
  deriving DecidableEq, Repr

/-- `write_rendv`. -/
def RendvHeaderPacket.writeRendv (pkt : RendvHeaderPacket) (p : RealPacket) : RealPacket :=
  let p := p.appendUint (htonl pkt.rendvAddr)
  p.appendUshort (htons pkt.rendvPort)

/-- A packet of the header alone: `RetError`, `PingPacket`, `PongPacket`, `CreateRendv` and
`RetRendv` differ in the type byte. -/
def Packet.createHeaderPacket (magic : UInt32) (type : UInt8) (pkt : Packet) (p : RealPacket) :
    Int × RealPacket :=
  let p := p.appendChar type
  let p := pkt.writeId magic p
  p.result

/-! ### Entries -/

/-- An address and a port. -/
def putIdent (p : RealPacket) (n : NodeIdent) : RealPacket :=
  let p := p.appendUint (htonl n.addr)
  p.appendUshort (htons n.port)

@[inherit_doc putIdent]
def getIdent : Parser BufferWrapper NodeIdent := do
  let addr ← retrieveNetUint
  let port ← retrieveNetUshort
  pure ⟨addr, port⟩

/-- An address, a port and a 32-bit value: a constraint, or a latency. -/
def putIdentValue (p : RealPacket) (n : NodeIdent) (value : UInt32) : RealPacket :=
  (putIdent p n).appendUint (htonl value)

@[inherit_doc putIdentValue]
def getIdentValue : Parser BufferWrapper (NodeIdent × UInt32) := do
  let n ← getIdent
  let value ← retrieveNetUint
  pure (n, value)

/-- The entry a constraint request stores. -/
def constEntry (e : NodeIdent × UInt32) : NodeIdentConst := ⟨e.1.addr, e.1.port, e.2⟩

/-- The entry a reply stores. -/
def latEntry (e : NodeIdent × UInt32) : NodeIdentLat := ⟨e.1.addr, e.1.port, e.2⟩

/-! ### `ReqGeneric` -/

/-- The data of a `ReqGeneric`. -/
structure ReqGeneric extends RendvHeaderPacket where
  kind : ReqMeasureKind
  targets : List NodeIdent
  deriving DecidableEq, Repr

/-- `ReqGeneric::createRealPacket`. -/
def ReqGeneric.createRealPacket (magic : UInt32) (pkt : ReqGeneric) (p : RealPacket) :
    Int × RealPacket :=
  let numTargets := UInt32.ofNat pkt.targets.length
  if numTargets = 0 then (-1, p)
  else
    let p := p.appendChar pkt.kind.type
    let p := pkt.writeId magic p
    let p := pkt.writeRendv p
    let p := p.appendUint (htonl numTargets)
    let p := (pkt.targets.take numTargets.toNat).foldl putIdent p
    p.result

/-- `ReqGeneric::parse<T>`. -/
def ReqGeneric.parser (magic : UInt32) (kind : ReqMeasureKind) :
    Parser BufferWrapper ReqGeneric := do
  let start ← Packet.parseStart kind.type
  let rendvAddr ← retrieveNetUint
  let rendvPort ← retrieveNetUshort
  nullIf (start.2 != magic)
  let numEntry ← retrieveNetUint
  let targets ← entries getIdent numEntry
  nullIf false
  pure ⟨⟨Packet.new start.1, rendvAddr, rendvPort⟩, kind, targets⟩

/-! ### `ReqConstraintGeneric` -/

/-- The data of a `ReqConstraintGeneric`. -/
structure ReqConstraintGeneric extends RendvHeaderPacket where
  kind : ReqConstraintKind
  betaNum : UInt16
  betaDen : UInt16
  targets : List NodeIdentConst
  deriving DecidableEq, Repr

/-- `ReqConstraintGeneric::createRealPacket`. -/
def ReqConstraintGeneric.createRealPacket (magic : UInt32) (pkt : ReqConstraintGeneric)
    (p : RealPacket) : Int × RealPacket :=
  let numTargets := UInt32.ofNat pkt.targets.length
  if numTargets = 0 then (-1, p)
  else
    let p := p.appendChar pkt.kind.type
    let p := pkt.writeId magic p
    let p := pkt.writeRendv p
    let p := p.appendUshort (htons pkt.betaNum)
    let p := p.appendUshort (htons pkt.betaDen)
    let p := p.appendUint (htonl numTargets)
    let p := (pkt.targets.take numTargets.toNat).foldl
      (fun p t ↦ putIdentValue p t.ident t.latencyConstMS) p
    p.result

/-- `ReqConstraintGeneric::parse<T>`. -/
def ReqConstraintGeneric.parser (magic : UInt32) (kind : ReqConstraintKind) :
    Parser BufferWrapper ReqConstraintGeneric := do
  let start ← Packet.parseStart kind.type
  let rendvAddr ← retrieveNetUint
  let rendvPort ← retrieveNetUshort
  let betaNum ← retrieveNetUshort
  let betaDen ← retrieveNetUshort
  nullIf (start.2 != magic)
  let numEntry ← retrieveNetUint
  let targets ← entries getIdentValue numEntry
  nullIf false
  pure ⟨⟨Packet.new start.1, rendvAddr, rendvPort⟩, kind, betaNum, betaDen,
    targets.map constEntry⟩

/-! ### `ReqClosestGeneric` -/

/-- The data of a `ReqClosestGeneric`. -/
structure ReqClosestGeneric extends RendvHeaderPacket where
  kind : ReqClosestKind
  betaNum : UInt16
  betaDen : UInt16
  targets : List NodeIdent
  deriving DecidableEq, Repr

/-- `ReqClosestGeneric::createRealPacket`. -/
def ReqClosestGeneric.createRealPacket (magic : UInt32) (pkt : ReqClosestGeneric)
    (p : RealPacket) : Int × RealPacket :=
  let numTargets := UInt32.ofNat pkt.targets.length
  if numTargets = 0 then (-1, p)
  else
    let p := p.appendChar pkt.kind.type
    let p := pkt.writeId magic p
    let p := pkt.writeRendv p
    let p := p.appendUshort (htons pkt.betaNum)
    let p := p.appendUshort (htons pkt.betaDen)
    let p := p.appendUint (htonl numTargets)
    let p := (pkt.targets.take numTargets.toNat).foldl putIdent p
    p.result

/-- `ReqClosestGeneric::parse<T>`. -/
def ReqClosestGeneric.parser (magic : UInt32) (kind : ReqClosestKind) :
    Parser BufferWrapper ReqClosestGeneric := do
  let start ← Packet.parseStart kind.type
  let rendvAddr ← retrieveNetUint
  let rendvPort ← retrieveNetUshort
  let betaNum ← retrieveNetUshort
  let betaDen ← retrieveNetUshort
  nullIf (start.2 != magic)
  let numEntry ← retrieveNetUint
  let targets ← entries getIdent numEntry
  nullIf false
  pure ⟨⟨Packet.new start.1, rendvAddr, rendvPort⟩, kind, betaNum, betaDen, targets⟩

/-! ### `RetError` and `RetInfo` -/

/-- `RetError`, which has no data of its own. -/
structure RetError extends Packet where
  deriving DecidableEq, Repr

/-- `RetError::createRealPacket`. -/
def RetError.createRealPacket (magic : UInt32) (pkt : RetError) (p : RealPacket) :
    Int × RealPacket :=
  pkt.toPacket.createHeaderPacket magic RET_ERROR p

/-- `RetError::parse`. -/
def RetError.parser (magic : UInt32) : Parser BufferWrapper RetError := do
  let start ← Packet.parseStart RET_ERROR
  nullIf (start.2 != magic)
  pure ⟨Packet.new start.1⟩

/-- The data of a `RetInfo`. -/
structure RetInfo extends Packet where
  addr : UInt32
  port : UInt16
  deriving DecidableEq, Repr

/-- `RetInfo::createRealPacket`. -/
def RetInfo.createRealPacket (magic : UInt32) (pkt : RetInfo) (p : RealPacket) :
    Int × RealPacket :=
  let p := p.appendChar RET_INFO
  let p := pkt.writeId magic p
  let p := p.appendUint (htonl pkt.addr)
  let p := p.appendUshort (htons pkt.port)
  p.result

/-- Address and port 0 stand for the sender of the packet. -/
def orSender (remote : NodeIdent) (n : NodeIdent) : NodeIdent :=
  if n.addr = 0 ∧ n.port = 0 then remote else n

/-- `RetInfo::parse`. -/
def RetInfo.parser (magic : UInt32) (remoteNode : NodeIdent) : Parser BufferWrapper RetInfo := do
  let start ← Packet.parseStart RET_INFO
  let node ← getIdent
  nullIf (start.2 != magic)
  pure ⟨Packet.new start.1, (orSender remoteNode node).addr, (orSender remoteNode node).port⟩

/-! ### `RetResponse` -/

/-- The order of the entries of a `RetResponse`. -/
def ltNodeIdentLat (a b : NodeIdentLat) : Bool := ltNodeIdent a.ident b.ident

/-- The data of a `RetResponse`. Its constructor is the only writer of the entries, and takes them
from a map in the map's order. -/
structure RetResponse extends Packet where
  addr : UInt32
  port : UInt16
  targets : List NodeIdentLat
  sorted : targets.Pairwise fun a b ↦ ltNodeIdentLat a b
  deriving DecidableEq

/-- The entries of a map, in its order. -/
def latList (inTargets : NodeMap UInt32) : List NodeIdentLat :=
  inTargets.toList.map latEntry

theorem sorted_latList (inTargets : NodeMap UInt32) :
    (latList inTargets).Pairwise fun a b ↦ ltNodeIdentLat a b := by
  rw [latList, List.pairwise_map]
  exact inTargets.ordered_keys_toList.imp fun {a b} h ↦ (cmpNodeIdent_eq_lt a.1 b.1).1 h

/-- The constructor. -/
def RetResponse.new (id : UInt64) (addr : UInt32) (port : UInt16) (inTargets : NodeMap UInt32) :
    RetResponse :=
  ⟨Packet.new id, addr, port, latList inTargets, sorted_latList inTargets⟩

/-- `RetResponse::createRealPacket`. The loop compares a 32-bit counter with the full size, so it
does not end when there are 2^32 entries or more. -/
def RetResponse.createRealPacket (magic : UInt32) (pkt : RetResponse) (p : RealPacket) :
    Option (Int × RealPacket) :=
  if 2 ^ 32 ≤ pkt.targets.length then none
  else
    let p := p.appendChar RET_RESPONSE
    let p := pkt.writeId magic p
    let p := p.appendUint (htonl pkt.addr)
    let p := p.appendUshort (htons pkt.port)
    let p := p.appendUint (htonl (UInt32.ofNat pkt.targets.length))
    let p := pkt.targets.foldl (fun p t ↦ putIdentValue p t.ident t.latencyUS) p
    some p.result

/-- `RetResponse::parse`. -/
def RetResponse.parser (magic : UInt32) (remote : NodeIdent) :
    Parser BufferWrapper RetResponse := do
  let start ← Packet.parseStart RET_RESPONSE
  nullIf (start.2 != magic)
  let node ← getIdent
  let numEntry ← retrieveNetUint
  let list ← entries getIdentValue numEntry
  nullIf false
  pure (RetResponse.new start.1 (orSender remote node).addr (orSender remote node).port
    (Std.ExtTreeMap.ofList list))

/-! ### `GossipPacketGeneric` -/

/-- The data of a `GossipPacketGeneric`. `addNode` is the only writer of the entries, and takes the
rendavous port as a 16-bit number. -/
structure GossipPacketGeneric extends RendvHeaderPacket where
  kind : GossipKind
  targets : List NodeIdentRendv
  ports : ∀ t ∈ targets, t.portRendv.toNat < 2 ^ 16
  deriving DecidableEq

/-- `GossipPacketGeneric::createRealPacket`. -/
def GossipPacketGeneric.createRealPacket (magic : UInt32) (pkt : GossipPacketGeneric)
    (p : RealPacket) : Int × RealPacket :=
  let numTargets := UInt32.ofNat pkt.targets.length
  let p := p.appendChar pkt.kind.type
  let p := pkt.writeId magic p
  let p := pkt.writeRendv p
  let p := p.appendUint (htonl numTargets)
  let p := (pkt.targets.take numTargets.toNat).foldl
    (fun p t ↦ putIdent (putIdent p t.ident) ⟨t.addrRendv, t.portRendv.toUInt16⟩) p
  p.result

/-- The arguments of an `addNode` in a gossip entry. -/
def getRendvEntry : Parser BufferWrapper (NodeIdent × NodeIdent) := do
  let n ← getIdent
  let r ← getIdent
  pure (n, r)

/-- The entry that `addNode` pushes. -/
def addNodeEntry (e : NodeIdent × NodeIdent) : NodeIdentRendv :=
  ⟨e.1.addr, e.1.port, e.2.addr, e.2.port.toUInt32⟩

theorem portRendv_addNodeEntry (l : List (NodeIdent × NodeIdent)) :
    ∀ t ∈ l.map addNodeEntry, t.portRendv.toNat < 2 ^ 16 := by
  intro t ht
  obtain ⟨e, -, rfl⟩ := List.mem_map.1 ht
  rw [addNodeEntry, UInt16.toNat_toUInt32]
  exact e.2.port.toNat_lt

/-- `GossipPacketGeneric::parse<T>`. -/
def GossipPacketGeneric.parser (magic : UInt32) (kind : GossipKind) :
    Parser BufferWrapper GossipPacketGeneric := do
  let start ← Packet.parseStart kind.type
  let rendvAddr ← retrieveNetUint
  let rendvPort ← retrieveNetUshort
  nullIf (start.2 != magic)
  let numEntry ← retrieveNetUint
  let list ← entries getRendvEntry numEntry
  nullIf false
  pure ⟨⟨Packet.new start.1, rendvAddr, rendvPort⟩, kind, list.map addNodeEntry,
    portRendv_addNodeEntry list⟩

/-! ### `RetPing` -/

/-- The data of a `RetPing`. -/
structure RetPing extends Packet where
  nodes : List NodeIdentLat
  deriving DecidableEq, Repr

/-- `RetPing::createRealPacket`. -/
def RetPing.createRealPacket (magic : UInt32) (pkt : RetPing) (p : RealPacket) :
    Int × RealPacket :=
  let numNodes := UInt32.ofNat pkt.nodes.length
  let p := p.appendChar RET_PING_REQ
  let p := pkt.writeId magic p
  let p := p.appendUint (htonl numNodes)
  let p := (pkt.nodes.take numNodes.toNat).foldl
    (fun p t ↦ putIdentValue p t.ident t.latencyUS) p
  p.result

/-- `RetPing::parse`. -/
def RetPing.parser (magic : UInt32) : Parser BufferWrapper RetPing := do
  let start ← Packet.parseStart RET_PING_REQ
  nullIf (start.2 != magic)
  let numEntry ← retrieveNetUint
  let list ← entries getIdentValue numEntry
  nullIf false
  pure ⟨Packet.new start.1, list.map latEntry⟩

end Meridian

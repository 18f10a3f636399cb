import Meridian.Marshal.Accepted

/-!
# The rendavous tunnel

A node behind a firewall is reached through its rendavous. `performSend` wraps what it sends to such
a node in a PUSH packet for the rendavous; there `PushPacket::parse` wraps the payload again, as a
PULL packet, which goes down a TCP connection; and `PullPacket::parse` takes it out at the far end.

* `remainBufSize` asserts that `counter` is within the buffer, where every `retrieve_…` leaves it.
* No allocation fails.
* `PullPacket::parse` takes its packet off the front of the buffer it is given and moves the rest to
  the front, so it returns that buffer too.

The two headers have different lengths, and the two packets the same capacity.
`PushPacket.parse_eq_none_iff` says for which payloads the second does not fit where the first did.
-/

namespace Meridian

open Lib BufferWrapper

/-- What `remainBufSize` counts: the bytes from `returnPos` to the end of the buffer. -/
def BufferWrapper.remaining : Parser BufferWrapper (List UInt8) := fun bw ↦
  some (bw.bytesAt bw.counter (bw.bufSize - bw.counter).toNat, bw)

namespace RealPacket

/-- `getRendvPort`, which returns a `uint16_t`. -/
def getRendvPort (p : RealPacket) : UInt16 := p.dest.portRendv.toUInt16

/-- `setPayLoadSize`, when the memory of the packet begins with `bs` and that many bytes are its
payload from now on. -/
def setPayLoad (p : RealPacket) (bs : List UInt8) : RealPacket :=
  if !p.complete then p
  else if p.maxPacketSize.toNat < bs.length then { p with complete := false }
  else { p with payload := bs }

end RealPacket

/-! ### The packet classes -/

/-- The data of a `PushPacket`. -/
structure PushPacket extends Packet where
  destIP : UInt32
  destPort : UInt16
  deriving DecidableEq, Repr

/-- The data of a `PullPacket`. -/
structure PullPacket extends Packet where
  srcIP : UInt32
  srcPort : UInt16
  payLoadSize : UInt32
  deriving DecidableEq, Repr

/-- `PushPacket::createRealPacket`. -/
def PushPacket.createRealPacket (magic : UInt32) (pkt : PushPacket) (p : RealPacket) :
    Int × RealPacket :=
  let p := p.appendChar PUSH
  let p := pkt.writeId magic p
  let p := p.appendUint (htonl pkt.destIP)
  let p := p.appendUshort (htons pkt.destPort)
  p.result

/-- `PullPacket::createRealPacket`. -/
def PullPacket.createRealPacket (magic : UInt32) (pkt : PullPacket) (p : RealPacket) :
    Int × RealPacket :=
  let p := p.appendChar PULL
  let p := pkt.writeId magic p
  let p := p.appendUint (htonl pkt.srcIP)
  let p := p.appendUshort (htons pkt.srcPort)
  let p := p.appendUint (htonl pkt.payLoadSize)
  p.result

/-- The header of a PUSH packet: the destination. -/
def PushPacket.header (magic : UInt32) : Parser BufferWrapper NodeIdent := do
  let start ← Packet.parseStart PUSH
  let dest ← getIdent
  nullIf (start.2 != magic)
  pure dest

/-- What `PushPacket::parse` reads: the destination and the payload. -/
def PushPacket.parser (magic : UInt32) : Parser BufferWrapper (NodeIdent × List UInt8) := do
  let dest ← PushPacket.header magic
  let payload ← remaining
  pure (dest, payload)

/-- A created header with a payload after it, or NULL if either does not fit. -/
def RealPacket.withPayload (res : Int × RealPacket) (payload : List UInt8) : Option RealPacket :=
  if res.1 = -1 then none
  else
    let p := res.2.appendStr payload
    if !p.complete then none else some p

/-- The packet `PushPacket::parse` makes of them: a PULL packet for the destination, whose source is
the sender of the PUSH packet. -/
def PushPacket.rewrap (magic : UInt32) (remoteNode dest : NodeIdent) (payload : List UInt8) :
    Option RealPacket :=
  let retPacket := RealPacket.ofIdent dest
  let tmpPull : PullPacket := ⟨Packet.new 0, remoteNode.addr, remoteNode.port,
    UInt32.ofNat payload.length⟩
  RealPacket.withPayload (tmpPull.createRealPacket magic retPacket) payload

/-- `PushPacket::parse`. -/
def PushPacket.parse (magic : UInt32) (remoteNode : NodeIdent) (buf : List UInt8) :
    Option RealPacket :=
  match BufferWrapper.parse (PushPacket.parser magic) buf with
  | none => none
  | some (dest, payload) => PushPacket.rewrap magic remoteNode dest payload

/-- The header of a PULL packet: the source and the size of the payload. -/
def PullPacket.header (magic : UInt32) : Parser BufferWrapper (NodeIdent × UInt32) := do
  let start ← Packet.parseStart PULL
  let src ← getIdentValue
  nullIf (start.2 != magic)
  pure src

/-- What `PullPacket::parse` reads: the source, the payload, and the bytes after it. -/
def PullPacket.parser (magic : UInt32) :
    Parser BufferWrapper (NodeIdent × List UInt8 × List UInt8) := do
  let (srcNode, payLoadSize) ← PullPacket.header magic
  let rest ← remaining
  nullIf (rest.length < payLoadSize.toNat)
  pure (srcNode, rest.take payLoadSize.toNat, rest.drop payLoadSize.toNat)

/-- `PullPacket::parse`: the source and the new packet, and what is left of the buffer. -/
def PullPacket.parse (magic : UInt32) (inPacket : RealPacket) :
    Option (NodeIdent × RealPacket) × RealPacket :=
  match BufferWrapper.parse (PullPacket.parser magic) inPacket.payload with
  | none => (none, inPacket)
  | some (srcNode, payload, rest) =>
    let newPacket := RealPacket.new ⟨0, 0, 0, 0⟩ (UInt32.ofNat payload.length)
    (some (srcNode, newPacket.setPayLoad payload), inPacket.setPayLoad rest)

/-- `performSend` on a packet for a node with a rendavous: the PUSH packet around it, for the
rendavous. -/
def wrapPush (magic : UInt32) (inPacket : RealPacket) : Option RealPacket :=
  let pushPacket : PushPacket := ⟨Packet.new 0, inPacket.dest.addr, inPacket.dest.port⟩
  let rendvNode : NodeIdent := ⟨inPacket.dest.addrRendv, inPacket.getRendvPort⟩
  -- `append_packet` is `append_str` of the other packet's payload
  RealPacket.withPayload (pushPacket.createRealPacket magic (RealPacket.ofIdent rendvNode))
    inPacket.payload

/-- `performSend`: the packet that is given to `sendto`, or `none` for -1. The wrapped packet has no
rendavous itself, so the recursive call of the source sends it as it is. -/
def performSend (magic : UInt32) (inPacket : RealPacket) : Option RealPacket :=
  if inPacket.dest.addrRendv != 0 || inPacket.getRendvPort != 0 then wrapPush magic inPacket
  else some inPacket

/-! ### What the parsers accept -/

variable {magic : UInt32} {buf : List UInt8}

theorem BufferWrapper.remaining_at {bw : BufferWrapper} {l : List UInt8}
    (h : (bufferCursor buf).At bw l) : remaining bw = some (l, bw) := by
  obtain ⟨-, front, rfl, rfl⟩ := h
  have hcount : ((⟨false, front ++ l, front.length⟩ : BufferWrapper).bufSize -
      (front.length : Int)).toNat = l.length := by
    simp only [bufSize, List.length_append]
    omega
  have hbytes := bytesAt_front front l [] false
  rw [List.append_nil] at hbytes
  simp only [remaining, hcount, hbytes]

/-- A header, and then a look at all the bytes after it. -/
theorem BufferWrapper.parse_bind_remaining {α β : Type} {p : Parser BufferWrapper α}
    {k : α → List UInt8 → Parser BufferWrapper β} {bs rest : List UInt8} {a : α}
    (h : Reads (bufferCursor (bs ++ rest)) p bs a) (hrange : InRange (bs ++ rest)) :
    ∃ bw, bw.errorFlag = false ∧
      BufferWrapper.parse (do let a ← p; let l ← remaining; k a l) (bs ++ rest) =
        (k a rest bw).map Prod.fst := by
  obtain ⟨bw, hp, hat⟩ := h.full _ rest (at_new hrange)
  refine ⟨bw, (bufferCursor (bs ++ rest)).not_failed hat, ?_⟩
  rw [BufferWrapper.parse]
  congr 1
  change ((p (new (bs ++ rest))).bind fun x ↦
    ((remaining x.2).bind fun y ↦ k x.1 y.1 y.2)) = k a rest bw
  rw [hp, Option.bind_some, remaining_at hat, Option.bind_some]

instance (buf : List UInt8) : Strict (bufferCursor buf) (Packet.parseHeader magic) := by
  unfold Packet.parseHeader
  infer_instance

instance (buf : List UInt8) : Strict (bufferCursor buf) (PushPacket.header magic) := by
  unfold PushPacket.header
  infer_instance

instance (buf : List UInt8) : Strict (bufferCursor buf) (PullPacket.header magic) := by
  unfold PullPacket.header
  infer_instance

theorem PushPacket.reads_header (pkt : Packet) (dest : NodeIdent) :
    Reads (bufferCursor buf) (PushPacket.header magic)
      (pkt.encode magic PUSH ++ encodeIdent dest) dest := by
  refine (reads_parseStart PUSH pkt).bind ?_
  rw [← List.append_nil (encodeIdent dest)]
  refine (reads_getIdent dest).bind (Reads.check_bind (by simp) ?_)
  exact Reads.done _ dest

theorem PullPacket.reads_header (pkt : Packet) (src : NodeIdent × UInt32) :
    Reads (bufferCursor buf) (PullPacket.header magic)
      (pkt.encode magic PULL ++ encodeIdentValue src) src := by
  refine (reads_parseStart PULL pkt).bind ?_
  rw [← List.append_nil (encodeIdentValue src)]
  refine (reads_getIdentValue src).bind (Reads.check_bind (by simp) ?_)
  exact Reads.done _ src

theorem PushPacket.parse_parser {pkt : Packet} {dest : NodeIdent} {payload : List UInt8}
    (hrange : InRange ((pkt.encode magic PUSH ++ encodeIdent dest) ++ payload)) :
    BufferWrapper.parse (PushPacket.parser magic)
      ((pkt.encode magic PUSH ++ encodeIdent dest) ++ payload) = some (dest, payload) := by
  obtain ⟨bw, -, h⟩ := parse_bind_remaining (k := fun dest l ↦ pure (dest, l))
    (PushPacket.reads_header pkt dest) hrange
  exact h

/-- A PULL packet in a stream, as `PullPacket::parse` understands it. -/
structure PullFrame where
  packet : Packet
  srcNode : NodeIdent
  payload : List UInt8
  deriving DecidableEq, Repr

/-- The bytes of a frame. -/
def PullFrame.encode (magic : UInt32) (f : PullFrame) : List UInt8 :=
  (f.packet.encode magic PULL ++
    encodeIdentValue (f.srcNode, UInt32.ofNat f.payload.length)) ++ f.payload

@[simp] theorem PullFrame.length_encode (f : PullFrame) :
    (f.encode magic).length = 23 + f.payload.length := by
  simp [encode]
  omega

/-- **A whole frame is taken off the front of the buffer.** -/
theorem PullPacket.parse_parser (f : PullFrame) {rest : List UInt8}
    (hrange : InRange (f.encode magic ++ rest)) :
    BufferWrapper.parse (PullPacket.parser magic) (f.encode magic ++ rest) =
      some (f.srcNode, f.payload, rest) := by
  have hlen : f.payload.length < 2 ^ 32 := by
    rw [InRange, List.length_append, f.length_encode] at hrange
    omega
  rw [PullFrame.encode, List.append_assoc] at hrange ⊢
  obtain ⟨bw, hok, h⟩ := parse_bind_remaining (k := fun src l ↦ do
      nullIf (l.length < src.2.toNat)
      pure (src.1, l.take src.2.toNat, l.drop src.2.toNat))
    (PullPacket.reads_header f.packet (f.srcNode, UInt32.ofNat f.payload.length)) hrange
  have hlong : ¬ (f.payload ++ rest).length < f.payload.length := by
    rw [List.length_append]
    omega
  refine h.trans ?_
  simp only [UInt32.toNat_ofNat_of_lt' hlen, hlong, List.take_left', List.drop_left',
    decide_false]
  have hcheck : nullIf false bw = some ((), bw) := by
    rw [BufferWrapper.nullIf, Lib.nullIf, hok]
    rfl
  change ((nullIf false bw).bind _).map Prod.fst = _
  rw [hcheck]
  rfl

/-- A strict prefix of two parts ends in the first, or has all of the first. -/
theorem strict_prefix_append {l bs cs : List UInt8} (hpre : l <+: bs ++ cs) (hne : l ≠ bs ++ cs) :
    (l <+: bs ∧ l ≠ bs) ∨ ∃ l', l = bs ++ l' ∧ l'.length < cs.length := by
  rcases List.prefix_or_prefix_of_prefix hpre (List.prefix_append bs cs) with hl | ⟨l', rfl⟩
  · by_cases hall : l = bs
    · subst hall
      refine Or.inr ⟨[], (List.append_nil l).symm, List.length_pos_iff.2 ?_⟩
      rintro rfl
      exact hne (List.append_nil l).symm
    · exact Or.inl ⟨hl, hall⟩
  · rw [List.prefix_append_right_inj] at hpre
    refine Or.inr ⟨l', rfl, hpre.length_le.lt_of_ne fun hlen ↦ hne ?_⟩
    rw [hpre.eq_of_length hlen]

/-- **Nothing is taken from less than a frame.** -/
theorem PullPacket.parse_parser_short (f : PullFrame) {l : List UInt8} (hrange : InRange l)
    (hsize : f.payload.length < 2 ^ 32) (hpre : l <+: f.encode magic) (hne : l ≠ f.encode magic) :
    BufferWrapper.parse (PullPacket.parser magic) l = none := by
  rcases strict_prefix_append hpre hne with ⟨hl, hne'⟩ | ⟨l', rfl, hlt⟩
  · -- the header itself is cut off
    have hnone := Reads.run_prefix
      (PullPacket.reads_header f.packet (f.srcNode, UInt32.ofNat f.payload.length))
      (at_new hrange) hl hne'
    change ((PullPacket.header magic (new l)).bind _).map Prod.fst = none
    rw [hnone]
    rfl
  · -- the payload is, and the header says so
    obtain ⟨bw, -, h⟩ := parse_bind_remaining (k := fun src l ↦ do
        nullIf (l.length < src.2.toNat)
        pure (src.1, l.take src.2.toNat, l.drop src.2.toNat))
      (PullPacket.reads_header f.packet (f.srcNode, UInt32.ofNat f.payload.length)) hrange
    refine h.trans ?_
    simp only [UInt32.toNat_ofNat_of_lt' hsize, hlt, decide_true]
    have hcheck : nullIf true bw = none := by
      rw [BufferWrapper.nullIf, Lib.nullIf, Bool.or_true]
      rfl
    change ((nullIf true bw).bind _).map Prod.fst = none
    rw [hcheck]
    rfl

/-! ### What the wrappers write -/

section WithPayload

variable {cap : UInt32} {dest : NodeIdentRendv} {bs payload : List UInt8} {p : RealPacket}

/-- **A header and a payload that fit together are the packet.** -/
theorem Wrote.withPayload_of_le (h : Wrote cap dest bs p) (hcap : cap.toNat < 2 ^ 31)
    (hle : bs.length + payload.length ≤ cap.toNat) :
    RealPacket.withPayload p.result payload = some ⟨dest, bs ++ payload, true, cap⟩ := by
  have happ := h.appendStr hcap (show payload.length < 2 ^ 31 by omega)
  have hle' : (bs ++ payload).length ≤ cap.toNat := by
    rw [List.length_append]
    exact hle
  obtain ⟨hok, hpay⟩ := happ.fits hle'
  have hpacket : p.appendStr payload = ⟨dest, bs ++ payload, true, cap⟩ := by
    obtain ⟨hc, hd, -, -⟩ := happ
    generalize p.appendStr payload = q at hok hpay hc hd
    obtain ⟨qDest, qPayload, qComplete, qMax⟩ := q
    subst hok hpay hc hd
    rfl
  have hres : p.result = (0, p) := h.result_of_le (by omega)
  simp only [RealPacket.withPayload, hres, hpacket]
  rfl

/-- **If they do not, there is none.** -/
theorem Wrote.withPayload_of_lt (h : Wrote cap dest bs p) (hcap : cap.toNat < 2 ^ 31)
    (hsize : payload.length < 2 ^ 31) (hlt : cap.toNat < bs.length + payload.length) :
    RealPacket.withPayload p.result payload = none := by
  have hover := (h.appendStr hcap hsize).overflow (List.length_append ▸ hlt)
  have hres : p.result.1 = -1 ∨ p.result.2 = p := by
    rw [RealPacket.result]
    cases p.complete with
    | false => exact Or.inl rfl
    | true => exact Or.inr rfl
  rw [RealPacket.withPayload]
  rcases hres with hres | hres
  · rw [if_pos hres]
  · simp only [hres, hover, Bool.not_false, if_true, ite_self]

end WithPayload

/-- `setPayLoadSize` within the capacity. -/
theorem RealPacket.setPayLoad_of_le {p : RealPacket} {bs : List UInt8} (hok : p.complete = true)
    (hle : bs.length ≤ p.maxPacketSize.toNat) : p.setPayLoad bs = { p with payload := bs } := by
  simp only [setPayLoad, hok, Bool.not_true, Bool.false_eq_true, if_false, Nat.not_lt.2 hle]

theorem maxUdp_toNat : MAX_UDP_PACKET_SIZE.toNat = 1400 := rfl

/-- The header of a PUSH packet. -/
def PushPacket.encode (magic : UInt32) (pkt : PushPacket) : List UInt8 :=
  pkt.toPacket.encode magic PUSH ++ encodeIdent ⟨pkt.destIP, pkt.destPort⟩

/-- The PUSH packet that carries a payload to a destination. -/
def pushOf (inPacket : RealPacket) : PushPacket :=
  ⟨Packet.new 0, inPacket.dest.addr, inPacket.dest.port⟩

theorem wrapPush_of_le {inPacket : RealPacket} (hle : inPacket.payload.length ≤ 1381) :
    wrapPush magic inPacket = some ⟨⟨inPacket.dest.addrRendv, inPacket.getRendvPort, 0, 0⟩,
      (pushOf inPacket).encode magic ++ inPacket.payload, true, MAX_UDP_PACKET_SIZE⟩ := by
  have hcap : MAX_UDP_PACKET_SIZE.toNat < 2 ^ 31 := by decide
  refine ((Wrote.writeId (pushOf inPacket).toPacket hcap).putIdent hcap
    ⟨(pushOf inPacket).destIP, (pushOf inPacket).destPort⟩).withPayload_of_le hcap ?_
  simp only [List.length_append, length_encode_packet, length_encodeIdent, maxUdp_toNat]
  omega

theorem wrapPush_of_lt {inPacket : RealPacket} (hsize : inPacket.payload.length < 2 ^ 31)
    (hlt : 1381 < inPacket.payload.length) : wrapPush magic inPacket = none := by
  have hcap : MAX_UDP_PACKET_SIZE.toNat < 2 ^ 31 := by decide
  refine ((Wrote.writeId (pushOf inPacket).toPacket hcap).putIdent hcap
    ⟨(pushOf inPacket).destIP, (pushOf inPacket).destPort⟩).withPayload_of_lt hcap hsize ?_
  simp only [List.length_append, length_encode_packet, length_encodeIdent, maxUdp_toNat]
  omega

/-- The PULL packet that carries a payload from a sender. -/
def pullOf (remoteNode : NodeIdent) (payload : List UInt8) : PullFrame :=
  ⟨Packet.new 0, remoteNode, payload⟩

theorem PushPacket.rewrap_of_le {remoteNode dest : NodeIdent} {payload : List UInt8}
    (hle : payload.length ≤ 1377) :
    PushPacket.rewrap magic remoteNode dest payload = some ⟨⟨dest.addr, dest.port, 0, 0⟩,
      (pullOf remoteNode payload).encode magic, true, MAX_UDP_PACKET_SIZE⟩ := by
  have hcap : MAX_UDP_PACKET_SIZE.toNat < 2 ^ 31 := by decide
  refine ((Wrote.writeId (Packet.new 0) hcap).putIdentValue hcap
    (remoteNode, UInt32.ofNat payload.length)).withPayload_of_le hcap ?_
  simp only [List.length_append, length_encode_packet, length_encodeIdentValue, maxUdp_toNat]
  omega

theorem PushPacket.rewrap_of_lt {remoteNode dest : NodeIdent} {payload : List UInt8}
    (hsize : payload.length < 2 ^ 31) (hlt : 1377 < payload.length) :
    PushPacket.rewrap magic remoteNode dest payload = none := by
  have hcap : MAX_UDP_PACKET_SIZE.toNat < 2 ^ 31 := by decide
  refine ((Wrote.writeId (Packet.new 0) hcap).putIdentValue hcap
    (remoteNode, UInt32.ofNat payload.length)).withPayload_of_lt hcap hsize ?_
  simp only [List.length_append, length_encode_packet, length_encodeIdentValue, maxUdp_toNat]
  omega

/-- Any six bytes are an address and a port. -/
theorem exists_encodeIdent (bs : List UInt8) (h : bs.length = 6) : ∃ n, encodeIdent n = bs := by
  have haddr : (bs.take 4).length = 4 := by rw [List.length_take, h]; rfl
  have hport : (bs.drop 4).length = 2 := by rw [List.length_drop, h]
  refine ⟨⟨htonl (ofLe32 (bs.take 4)), htons (ofLe16 (bs.drop 4))⟩, ?_⟩
  show le32 (ntohl (htonl _)) ++ le16 (ntohs (htons _)) = bs
  rw [ntohl_htonl, ntohs_htons, le32_ofLe32 haddr, le16_ofLe16 hport, List.take_append_drop]

/-- **A PUSH packet with a good header that comes to nothing**: its destination is cut off, or its
payload is too long for a PULL packet. -/
theorem PushPacket.parse_eq_none_iff {remoteNode : NodeIdent} {id : UInt64} {l : List UInt8}
    (hheader : BufferWrapper.parse (Packet.parseHeader magic) l = some (PUSH, id))
    (hlen : l.length ≤ 1400) :
    PushPacket.parse magic remoteNode l = none ↔ l.length < 19 ∨ 1396 < l.length := by
  have hrange : InRange l := by
    rw [InRange]
    omega
  obtain ⟨bs, tail, rfl, rfl⟩ := consumes_parse consumes_parseHeader hrange hheader
  rw [List.length_append, length_encode_packet] at hlen ⊢
  rcases lt_or_ge tail.length 6 with hshort | hlong
  · refine iff_of_true ?_ (Or.inl (by omega))
    -- fill the destination up
    obtain ⟨dest, hdest⟩ := exists_encodeIdent (tail ++ List.replicate (6 - tail.length) 0)
      (by rw [List.length_append, List.length_replicate]; omega)
    have hpre : tail <+: encodeIdent dest := hdest ▸ List.prefix_append ..
    have hne : tail ≠ encodeIdent dest := by
      rintro rfl
      exact absurd hshort (by rw [length_encodeIdent]; omega)
    have hnone : PushPacket.header magic (new ((Packet.new id).encode magic PUSH ++ tail)) = none :=
      Reads.run_prefix (PushPacket.reads_header (Packet.new id) dest) (at_new hrange)
        ((List.prefix_append_right_inj _).2 hpre) fun heq ↦ hne (List.append_cancel_left heq)
    have hparse : BufferWrapper.parse (PushPacket.parser magic)
        ((Packet.new id).encode magic PUSH ++ tail) = none := by
      change ((PushPacket.header magic (new _)).bind _).map Prod.fst = none
      rw [hnone]
      rfl
    rw [PushPacket.parse, hparse]
  · obtain ⟨dest, hdest⟩ := exists_encodeIdent (tail.take 6)
      (by rw [List.length_take]; omega)
    obtain ⟨payload, rfl⟩ : ∃ payload, tail = encodeIdent dest ++ payload :=
      ⟨tail.drop 6, by rw [hdest, List.take_append_drop]⟩
    rw [List.length_append, length_encodeIdent] at hlen ⊢
    rw [← List.append_assoc] at hrange ⊢
    rw [PushPacket.parse, PushPacket.parse_parser hrange]
    dsimp only
    rcases lt_or_ge 1377 payload.length with hlt | hle
    · rw [PushPacket.rewrap_of_lt (by omega) hlt]
      exact iff_of_true rfl (Or.inr (by omega))
    · rw [PushPacket.rewrap_of_le hle]
      exact iff_of_false (Option.some_ne_none _) (by omega)

/-! ### From end to end -/

/-- The buffer of the node behind the firewall, when it has received just these bytes. -/
def receivedOf (bs : List UInt8) : RealPacket := (RealPacket.ofIdent ⟨0, 0⟩).setPayLoad bs

/-- A pushed packet arrives: its rendavous makes a PULL packet of it, from which the destination
gets the payload and the sender, and nothing else. -/
def Tunnelled (magic : UInt32) (sender : NodeIdent) (inPacket pushed : RealPacket) : Prop :=
  ∃ pulled newPacket rest,
    PushPacket.parse magic sender pushed.payload = some pulled ∧
    pulled.dest = ⟨inPacket.dest.addr, inPacket.dest.port, 0, 0⟩ ∧
    PullPacket.parse magic (receivedOf pulled.payload) = (some (sender, newPacket), rest) ∧
    newPacket.payload = inPacket.payload ∧ rest.payload = []

/-- What the rendavous makes of a pushed packet. -/
theorem PushPacket.parse_pushOf {sender : NodeIdent} {inPacket : RealPacket}
    (hle : inPacket.payload.length ≤ 1381) :
    PushPacket.parse magic sender ((pushOf inPacket).encode magic ++ inPacket.payload) =
      PushPacket.rewrap magic sender ⟨inPacket.dest.addr, inPacket.dest.port⟩
        inPacket.payload := by
  have hrange : InRange ((pushOf inPacket).encode magic ++ inPacket.payload) := by
    simp only [InRange, PushPacket.encode, List.length_append, length_encode_packet,
      length_encodeIdent]
    omega
  have hparse : BufferWrapper.parse (PushPacket.parser magic)
      ((pushOf inPacket).encode magic ++ inPacket.payload) =
        some (⟨inPacket.dest.addr, inPacket.dest.port⟩, inPacket.payload) :=
    PushPacket.parse_parser hrange
  rw [PushPacket.parse, hparse]

/-- The packet `PullPacket::parse` returns for a payload. -/
def extracted (payload : List UInt8) : RealPacket :=
  ⟨⟨0, 0, 0, 0⟩, payload, true, UInt32.ofNat payload.length⟩

/-- **What the destination makes of a buffer that begins with a frame.** -/
theorem PullPacket.parse_frame (f : PullFrame) {p : RealPacket} {rest : List UInt8}
    (hok : p.complete = true) (hpay : p.payload = f.encode magic ++ rest)
    (hrange : InRange p.payload) (hcap : p.payload.length ≤ p.maxPacketSize.toNat) :
    PullPacket.parse magic p =
      (some (f.srcNode, extracted f.payload), { p with payload := rest }) := by
  have hlen := congrArg List.length hpay
  rw [List.length_append, PullFrame.length_encode] at hlen
  rw [InRange] at hrange
  have hparse : BufferWrapper.parse (PullPacket.parser magic) p.payload =
      some (f.srcNode, f.payload, rest) := by
    rw [hpay]
    exact PullPacket.parse_parser f (by rw [InRange, ← hpay]; exact hrange)
  have hnew : (RealPacket.new ⟨0, 0, 0, 0⟩ (UInt32.ofNat f.payload.length)).setPayLoad f.payload =
      extracted f.payload := by
    refine RealPacket.setPayLoad_of_le rfl ?_
    show _ ≤ (UInt32.ofNat f.payload.length).toNat
    rw [UInt32.toNat_ofNat_of_lt' (show f.payload.length < 2 ^ 32 by omega)]
  have hrest : p.setPayLoad rest = { p with payload := rest } :=
    RealPacket.setPayLoad_of_le hok (by omega)
  rw [PullPacket.parse, hparse]
  dsimp only
  rw [hnew, hrest]

theorem length_pullOf (sender : NodeIdent) (payload : List UInt8) :
    ((pullOf sender payload).encode magic).length = 23 + payload.length :=
  PullFrame.length_encode _

/-- What the destination makes of a PULL packet that has arrived alone. -/
theorem PullPacket.parse_receivedOf {sender : NodeIdent} {payload : List UInt8}
    (hle : payload.length ≤ 1377) :
    PullPacket.parse magic (receivedOf ((pullOf sender payload).encode magic)) =
      (some (sender, extracted payload), { RealPacket.ofIdent ⟨0, 0⟩ with payload := [] }) := by
  have hcap : ((pullOf sender payload).encode magic).length ≤ MAX_UDP_PACKET_SIZE.toNat := by
    rw [length_pullOf, maxUdp_toNat]
    omega
  have hrange : InRange ((pullOf sender payload).encode magic) := by
    rw [InRange, length_pullOf]
    omega
  have hrecv : receivedOf ((pullOf sender payload).encode magic) =
      { RealPacket.ofIdent ⟨0, 0⟩ with payload := (pullOf sender payload).encode magic } :=
    RealPacket.setPayLoad_of_le rfl hcap
  rw [hrecv]
  exact PullPacket.parse_frame (pullOf sender payload) rfl (List.append_nil _).symm hrange hcap

/-- A packet that the sender accepts carries at most 1381 bytes. -/
theorem wrapPush_eq_some {inPacket pushed : RealPacket} (hsize : inPacket.payload.length < 2 ^ 31)
    (h : wrapPush magic inPacket = some pushed) : inPacket.payload.length ≤ 1381 ∧
      pushed.payload = (pushOf inPacket).encode magic ++ inPacket.payload := by
  rcases Nat.lt_or_ge 1381 inPacket.payload.length with hlt | hle
  · rw [wrapPush_of_lt hsize hlt] at h
    exact absurd h (by simp)
  · rw [wrapPush_of_le hle, Option.some.injEq] at h
    exact ⟨hle, by rw [← h]⟩

/-- **The PULL header is four bytes longer than the PUSH header**: of the payloads that the sender
accepts, those of 1378 to 1381 bytes are lost at the rendavous. -/
theorem tunnelled_iff {sender : NodeIdent} {inPacket pushed : RealPacket}
    (hsize : inPacket.payload.length < 2 ^ 31) (h : wrapPush magic inPacket = some pushed) :
    Tunnelled magic sender inPacket pushed ↔ inPacket.payload.length ≤ 1377 := by
  obtain ⟨hle, hpush⟩ := wrapPush_eq_some hsize h
  rw [Tunnelled, hpush, PushPacket.parse_pushOf hle]
  constructor
  · rintro ⟨pulled, -, -, hpull, -⟩
    refine Nat.le_of_not_lt fun hlt ↦ ?_
    rw [PushPacket.rewrap_of_lt hsize hlt] at hpull
    exact absurd hpull (by simp)
  · intro hle'
    exact ⟨_, _, _, PushPacket.rewrap_of_le hle', rfl, PullPacket.parse_receivedOf hle', rfl, rfl⟩

/-- **Tunnel capacity.** What `performSend` sends to a node with a rendavous arrives there exactly if
the payload has at most 1377 bytes. -/
theorem tunnel_capacity_iff (magic : UInt32) (sender : NodeIdent) (inPacket pushed : RealPacket)
    (hrendv : inPacket.dest.addrRendv ≠ 0 ∨ inPacket.getRendvPort ≠ 0)
    (hsize : inPacket.payload.length < 2 ^ 31) (h : performSend magic inPacket = some pushed) :
    Tunnelled magic sender inPacket pushed ↔ inPacket.payload.length ≤ 1377 := by
  have hbehind : (inPacket.dest.addrRendv != 0 || inPacket.getRendvPort != 0) = true := by
    simpa using hrendv
  rw [performSend, hbehind, if_pos rfl] at h
  exact tunnelled_iff hsize h

/-- A packet for a node behind the rendavous 0.0.0.5:9. -/
def packetBehind (payload : List UInt8) : RealPacket :=
  ⟨⟨7, 8, 5, 9⟩, payload, true, MAX_UDP_PACKET_SIZE⟩

theorem packetBehind_rendv (payload : List UInt8) : (packetBehind payload).dest.addrRendv ≠ 0 :=
  show (5 : UInt32) ≠ 0 by decide

/-- The sender accepts it. -/
theorem exists_performSend {payload : List UInt8} (hle : payload.length ≤ 1381) :
    ∃ pushed, wrapPush 0 (packetBehind payload) = some pushed ∧
      performSend 0 (packetBehind payload) = some pushed := by
  have hpush : wrapPush 0 (packetBehind payload) = some _ := wrapPush_of_le hle
  refine ⟨_, hpush, Eq.trans ?_ hpush⟩
  rw [performSend, if_pos (by simp [packetBehind_rendv])]

/-- A payload of 1377 bytes, the longest one that arrives. -/
theorem tunnel_capacity_iff_full :
    ∃ pushed, performSend 0 (packetBehind ((List.range 1377).map UInt8.ofNat)) = some pushed ∧
      Tunnelled 0 ⟨1, 2⟩ (packetBehind ((List.range 1377).map UInt8.ofNat)) pushed := by
  have hlen : ((List.range 1377).map UInt8.ofNat).length = 1377 := by
    rw [List.length_map, List.length_range]
  generalize (List.range 1377).map UInt8.ofNat = payload at hlen ⊢
  have hsize : (packetBehind payload).payload.length < 2 ^ 31 := hlen.trans_lt (by decide)
  obtain ⟨pushed, -, hsend⟩ := exists_performSend (hlen.trans_le (by decide))
  refine ⟨pushed, hsend, ?_⟩
  exact (tunnel_capacity_iff 0 ⟨1, 2⟩ _ pushed (.inl (packetBehind_rendv payload)) hsize hsend).2
    hlen.le

/-- A payload of 1378 bytes is accepted by the sender and lost at the rendavous. -/
theorem tunnel_loses_payload :
    ¬ ∀ (magic : UInt32) (sender : NodeIdent) (inPacket pushed : RealPacket),
      inPacket.dest.addrRendv ≠ 0 ∨ inPacket.getRendvPort ≠ 0 →
      inPacket.payload.length < 2 ^ 31 → performSend magic inPacket = some pushed →
      Tunnelled magic sender inPacket pushed := by
  intro h
  have hlen : (List.replicate 1378 (0 : UInt8)).length = 1378 := by rw [List.length_replicate]
  generalize List.replicate 1378 (0 : UInt8) = payload at hlen
  have hsize : (packetBehind payload).payload.length < 2 ^ 31 := hlen.trans_lt (by decide)
  obtain ⟨pushed, hpush, hsend⟩ := exists_performSend (hlen.trans_le (by decide))
  have harrives := h 0 ⟨1, 2⟩ _ pushed (.inl (packetBehind_rendv payload)) hsize hsend
  have hle : payload.length ≤ 1377 := (tunnelled_iff hsize hpush).1 harrives
  omega

end Meridian

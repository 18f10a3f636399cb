import Meridian.Marshal.Packets
import Mathlib.Data.List.Perm.Basic

/-!
# Datagrams survive the round trip

For every packet class: what `createRealPacket` writes (`encode`), that it reports success exactly
when that fits (`…_wrote`), and that `parse` reads exactly that (`…_reads`). The three request
families, the gossip packets and the replies share their header and their entry formats, so each
class is a composition of the same few fields.

`codec_round_trip` puts the classes together. The entry count of every format is a 32-bit number, so
it is stated for fewer than 2^32 entries, and `codec_count_truncates` is what happens beyond.
-/

namespace Meridian

open Lib BufferWrapper

variable {buf : List UInt8} {magic : UInt32} {cap : UInt32} {dest : NodeIdentRendv}
  {bs : List UInt8} {p : RealPacket}

/-! ### Fields -/

/-- A word in network order. -/
abbrev net16 (x : UInt16) : List UInt8 := le16 (htons x)

@[inherit_doc net16]
abbrev net32 (x : UInt32) : List UInt8 := le32 (htonl x)

/-- Type byte, query id and magic number. -/
def Packet.encode (magic : UInt32) (type : UInt8) (pkt : Packet) : List UInt8 :=
  [type] ++ (net32 pkt.reqId1 ++ (net32 pkt.reqId2 ++ net32 magic))

/-- The rendavous of a request or gossip packet. -/
def RendvHeaderPacket.encodeRendv (pkt : RendvHeaderPacket) : List UInt8 :=
  net32 pkt.rendvAddr ++ net16 pkt.rendvPort

/-- An address and a port. -/
def encodeIdent (n : NodeIdent) : List UInt8 := net32 n.addr ++ net16 n.port

/-- An address, a port and a value. -/
def encodeIdentValue (e : NodeIdent × UInt32) : List UInt8 := encodeIdent e.1 ++ net32 e.2

/-- A gossip entry. -/
def encodeRendvEntry (e : NodeIdent × NodeIdent) : List UInt8 := encodeIdent e.1 ++ encodeIdent e.2

/-- A counted list. -/
def encodeEntries {α : Type} (enc : α → List UInt8) (as : List α) : List UInt8 :=
  net32 (UInt32.ofNat as.length) ++ as.flatMap enc

@[simp] theorem length_encode_packet (magic : UInt32) (type : UInt8) (pkt : Packet) :
    (pkt.encode magic type).length = 13 := by
  simp [Packet.encode]

@[simp] theorem length_encodeRendv (pkt : RendvHeaderPacket) : pkt.encodeRendv.length = 6 := by
  simp [RendvHeaderPacket.encodeRendv]

@[simp] theorem length_encodeIdent (n : NodeIdent) : (encodeIdent n).length = 6 := by
  simp [encodeIdent]

@[simp] theorem length_encodeIdentValue (e : NodeIdent × UInt32) :
    (encodeIdentValue e).length = 10 := by
  simp [encodeIdentValue]

@[simp] theorem length_encodeRendvEntry (e : NodeIdent × NodeIdent) :
    (encodeRendvEntry e).length = 12 := by
  simp [encodeRendvEntry]

theorem length_flatMap_of_length {α : Type} {enc : α → List UInt8} {k : ℕ}
    (h : ∀ a, (enc a).length = k) (as : List α) : (as.flatMap enc).length = k * as.length := by
  induction as with
  | nil => rfl
  | cons a as ih => rw [List.flatMap_cons, List.length_append, h, ih, List.length_cons,
      Nat.mul_succ, Nat.add_comm]

theorem length_encodeEntries {α : Type} {enc : α → List UInt8} {k : ℕ}
    (h : ∀ a, (enc a).length = k) (as : List α) :
    (encodeEntries enc as).length = 4 + k * as.length := by
  rw [encodeEntries, List.length_append, length_le32, length_flatMap_of_length h]

/-! ### What the fields write -/

theorem Wrote.writeId {type : UInt8} (pkt : Packet) (hcap : cap.toNat < 2 ^ 31) :
    Wrote cap dest (pkt.encode magic type)
      (pkt.writeId magic ((RealPacket.new dest cap).appendChar type)) := by
  have h := (((((Wrote.new cap dest).appendChar hcap type).appendUint hcap
    (htonl pkt.reqId1)).appendUint hcap (htonl pkt.reqId2)).appendUint hcap (htonl magic))
  rwa [List.nil_append, List.append_assoc, List.append_assoc] at h

theorem Wrote.writeRendv (h : Wrote cap dest bs p) (hcap : cap.toNat < 2 ^ 31)
    (pkt : RendvHeaderPacket) : Wrote cap dest (bs ++ pkt.encodeRendv) (pkt.writeRendv p) := by
  have h := (h.appendUint hcap (htonl pkt.rendvAddr)).appendUshort hcap (htons pkt.rendvPort)
  rwa [List.append_assoc] at h

theorem Wrote.putIdent (h : Wrote cap dest bs p) (hcap : cap.toNat < 2 ^ 31) (n : NodeIdent) :
    Wrote cap dest (bs ++ encodeIdent n) (putIdent p n) := by
  have h := (h.appendUint hcap (htonl n.addr)).appendUshort hcap (htons n.port)
  rwa [List.append_assoc] at h

theorem Wrote.putIdentValue (h : Wrote cap dest bs p) (hcap : cap.toNat < 2 ^ 31)
    (e : NodeIdent × UInt32) :
    Wrote cap dest (bs ++ encodeIdentValue e) (putIdentValue p e.1 e.2) := by
  have h := (h.putIdent hcap e.1).appendUint hcap (htonl e.2)
  rwa [List.append_assoc] at h

/-- A counted list, written entry by entry. -/
theorem Wrote.entries {α : Type} {put : RealPacket → α → RealPacket} {enc : α → List UInt8}
    (h : Wrote cap dest bs p) (hcap : cap.toNat < 2 ^ 31) (as : List α)
    (hput : ∀ a bs p, Wrote cap dest bs p → Wrote cap dest (bs ++ enc a) (put p a)) :
    Wrote cap dest (bs ++ encodeEntries enc as)
      (as.foldl put (p.appendUint (htonl (UInt32.ofNat as.length)))) := by
  rw [encodeEntries, ← List.append_assoc]
  exact Wrote.foldl (fun a _ bs p ↦ hput a bs p) (h.appendUint hcap _)

/-! ### What the fields read -/

instance (buf : List UInt8) (type : UInt8) :
    Sticky (bufferCursor buf) (Packet.parseStart type) := by
  unfold Packet.parseStart
  infer_instance

instance (buf : List UInt8) : Sticky (bufferCursor buf) getIdent := by
  unfold getIdent
  infer_instance

instance (buf : List UInt8) : Sticky (bufferCursor buf) getIdentValue := by
  unfold getIdentValue
  infer_instance

instance (buf : List UInt8) : Sticky (bufferCursor buf) getRendvEntry := by
  unfold getRendvEntry
  infer_instance

theorem reads_parseStart (type : UInt8) (pkt : Packet) :
    Reads (bufferCursor buf) (Packet.parseStart type) (pkt.encode magic type)
      (pkt.retReqID, magic) := by
  refine (reads_retrieveChar type).bind (Reads.check_bind (by simp) ?_)
  refine (reads_retrieveNetUint pkt.reqId1).bind ?_
  refine (reads_retrieveNetUint pkt.reqId2).bind ?_
  exact (reads_retrieveNetUint magic).map fun m ↦ (to64 pkt.reqId1 pkt.reqId2, m)

theorem reads_getIdent (n : NodeIdent) :
    Reads (bufferCursor buf) getIdent (encodeIdent n) n :=
  (reads_retrieveNetUint n.addr).bind
    ((reads_retrieveNetUshort n.port).map fun port ↦ NodeIdent.mk n.addr port)

theorem reads_getIdentValue (e : NodeIdent × UInt32) :
    Reads (bufferCursor buf) getIdentValue (encodeIdentValue e) e :=
  (reads_getIdent e.1).bind ((reads_retrieveNetUint e.2).map fun value ↦ (e.1, value))

theorem reads_getRendvEntry (e : NodeIdent × NodeIdent) :
    Reads (bufferCursor buf) getRendvEntry (encodeRendvEntry e) e :=
  (reads_getIdent e.1).bind ((reads_getIdent e.2).map fun r ↦ (e.1, r))

/-- The tail that every list packet ends in: the counted entries, an error check, the result. -/
theorem reads_entries_tail {α β : Type} {get : Parser BufferWrapper α} {enc : α → List UInt8}
    {as : List α} (hlen : as.length < 2 ^ 32) (h : ∀ a, Reads (bufferCursor buf) get (enc a) a)
    (g : List α → β) :
    Reads (bufferCursor buf)
      (do let n ← retrieveNetUint; let l ← entries get n; nullIf false; pure (g l))
      (encodeEntries enc as) (g as) := by
  refine (reads_retrieveNetUint _).bind ?_
  rw [← List.append_nil (as.flatMap enc)]
  exact (reads_entries hlen h).bind (Reads.check_bind rfl (Reads.done _ (g as)))

/-! ### The request families -/

/-- What a `ReqGeneric` is on the wire. -/
def ReqGeneric.encode (magic : UInt32) (pkt : ReqGeneric) : List UInt8 :=
  pkt.toPacket.encode magic pkt.kind.type ++
    (pkt.encodeRendv ++ encodeEntries encodeIdent pkt.targets)

theorem ReqGeneric.length_encode (magic : UInt32) (pkt : ReqGeneric) :
    (pkt.encode magic).length = 23 + 6 * pkt.targets.length := by
  simp only [encode, List.length_append, length_encode_packet, length_encodeRendv,
    length_encodeEntries length_encodeIdent]
  omega

/-- A count below 2^32 that is 0 as a 32-bit number is 0, and the loop covers the whole list. -/
theorem count_of_lt {α : Type} {as : List α} (hlen : as.length < 2 ^ 32) (hne : as ≠ []) :
    UInt32.ofNat as.length ≠ 0 ∧ as.take (UInt32.ofNat as.length).toNat = as := by
  have hnat : (UInt32.ofNat as.length).toNat = as.length := UInt32.toNat_ofNat_of_lt' hlen
  refine ⟨fun h ↦ hne ?_, by rw [hnat, List.take_length]⟩
  rw [h] at hnat
  exact List.length_eq_zero_iff.1 hnat.symm

theorem ReqGeneric.createRealPacket_written (pkt : ReqGeneric) (hcap : cap.toNat < 2 ^ 31)
    (hlen : pkt.targets.length < 2 ^ 32) (hne : pkt.targets ≠ []) :
    Written cap dest (pkt.encode magic)
      (pkt.createRealPacket magic (RealPacket.new dest cap)) := by
  obtain ⟨hcount, htake⟩ := count_of_lt hlen hne
  simp only [createRealPacket, hcount, if_false, htake, encode, ← List.append_assoc]
  exact (((Wrote.writeId _ hcap).writeRendv hcap _).entries hcap _
    fun n bs p h ↦ h.putIdent hcap n).result

theorem ReqGeneric.reads (pkt : ReqGeneric) (hlen : pkt.targets.length < 2 ^ 32) :
    Reads (bufferCursor buf) (ReqGeneric.parser magic pkt.kind) (pkt.encode magic) pkt := by
  refine (reads_parseStart pkt.kind.type pkt.toPacket).bind ?_
  rw [RendvHeaderPacket.encodeRendv, List.append_assoc]
  refine (reads_retrieveNetUint pkt.rendvAddr).bind ?_
  refine (reads_retrieveNetUshort pkt.rendvPort).bind ?_
  refine Reads.check_bind (by simp) ?_
  simp only [Packet.new_retReqID]
  exact reads_entries_tail hlen reads_getIdent
    fun l ↦ (⟨pkt.toRendvHeaderPacket, pkt.kind, l⟩ : ReqGeneric)

/-- What a `ReqConstraintGeneric` is on the wire. -/
def ReqConstraintGeneric.encode (magic : UInt32) (pkt : ReqConstraintGeneric) : List UInt8 :=
  pkt.toPacket.encode magic pkt.kind.type ++ (pkt.encodeRendv ++ (net16 pkt.betaNum ++
    (net16 pkt.betaDen ++ encodeEntries (fun t ↦ encodeIdentValue (t.ident, t.latencyConstMS))
      pkt.targets)))

theorem ReqConstraintGeneric.length_encode (magic : UInt32) (pkt : ReqConstraintGeneric) :
    (pkt.encode magic).length = 27 + 10 * pkt.targets.length := by
  simp only [encode, List.length_append, length_encode_packet, length_encodeRendv, length_le16,
    length_encodeEntries fun t : NodeIdentConst ↦
      length_encodeIdentValue (t.ident, t.latencyConstMS)]
  omega

theorem ReqConstraintGeneric.createRealPacket_written (pkt : ReqConstraintGeneric)
    (hcap : cap.toNat < 2 ^ 31) (hlen : pkt.targets.length < 2 ^ 32) (hne : pkt.targets ≠ []) :
    Written cap dest (pkt.encode magic)
      (pkt.createRealPacket magic (RealPacket.new dest cap)) := by
  obtain ⟨hcount, htake⟩ := count_of_lt hlen hne
  simp only [createRealPacket, hcount, if_false, htake, encode, ← List.append_assoc]
  exact (((((Wrote.writeId _ hcap).writeRendv hcap _).appendUshort hcap _).appendUshort hcap
    _).entries hcap _ fun t bs p h ↦ h.putIdentValue hcap (t.ident, t.latencyConstMS)).result

/-- The same for entries that are read as one type and stored as another. -/
theorem reads_entries_map {α β γ : Type} {get : Parser BufferWrapper α} {enc : α → List UInt8}
    {as : List β} {store : α → β} (load : β → α) (hinv : ∀ b, store (load b) = b)
    (hlen : as.length < 2 ^ 32) (h : ∀ a, Reads (bufferCursor buf) get (enc a) a)
    (g : List β → γ) :
    Reads (bufferCursor buf)
      (do let n ← retrieveNetUint; let l ← entries get n; nullIf false; pure (g (l.map store)))
      (encodeEntries (fun b ↦ enc (load b)) as) (g as) := by
  have hlen' : (as.map load).length < 2 ^ 32 := by rwa [List.length_map]
  have htail := reads_entries_tail hlen' h fun l ↦ g (l.map store)
  simpa only [encodeEntries, List.length_map, List.flatMap_map, List.map_map, Function.comp_def,
    hinv, List.map_id'] using htail

theorem ReqConstraintGeneric.reads (pkt : ReqConstraintGeneric)
    (hlen : pkt.targets.length < 2 ^ 32) :
    Reads (bufferCursor buf) (ReqConstraintGeneric.parser magic pkt.kind) (pkt.encode magic)
      pkt := by
  refine (reads_parseStart pkt.kind.type pkt.toPacket).bind ?_
  rw [RendvHeaderPacket.encodeRendv, List.append_assoc]
  refine (reads_retrieveNetUint pkt.rendvAddr).bind ?_
  refine (reads_retrieveNetUshort pkt.rendvPort).bind ?_
  refine (reads_retrieveNetUshort pkt.betaNum).bind ?_
  refine (reads_retrieveNetUshort pkt.betaDen).bind ?_
  refine Reads.check_bind (by simp) ?_
  simp only [Packet.new_retReqID]
  exact reads_entries_map (fun t : NodeIdentConst ↦ (t.ident, t.latencyConstMS))
    (fun _ ↦ rfl) hlen reads_getIdentValue fun l ↦
      (⟨pkt.toRendvHeaderPacket, pkt.kind, pkt.betaNum, pkt.betaDen, l⟩ : ReqConstraintGeneric)

/-- What a `ReqClosestGeneric` is on the wire. -/
def ReqClosestGeneric.encode (magic : UInt32) (pkt : ReqClosestGeneric) : List UInt8 :=
  pkt.toPacket.encode magic pkt.kind.type ++ (pkt.encodeRendv ++ (net16 pkt.betaNum ++
    (net16 pkt.betaDen ++ encodeEntries encodeIdent pkt.targets)))

theorem ReqClosestGeneric.length_encode (magic : UInt32) (pkt : ReqClosestGeneric) :
    (pkt.encode magic).length = 27 + 6 * pkt.targets.length := by
  simp only [encode, List.length_append, length_encode_packet, length_encodeRendv, length_le16,
    length_encodeEntries length_encodeIdent]
  omega

theorem ReqClosestGeneric.createRealPacket_written (pkt : ReqClosestGeneric)
    (hcap : cap.toNat < 2 ^ 31) (hlen : pkt.targets.length < 2 ^ 32) (hne : pkt.targets ≠ []) :
    Written cap dest (pkt.encode magic)
      (pkt.createRealPacket magic (RealPacket.new dest cap)) := by
  obtain ⟨hcount, htake⟩ := count_of_lt hlen hne
  simp only [createRealPacket, hcount, if_false, htake, encode, ← List.append_assoc]
  exact (((((Wrote.writeId _ hcap).writeRendv hcap _).appendUshort hcap _).appendUshort hcap
    _).entries hcap _ fun n bs p h ↦ h.putIdent hcap n).result

theorem ReqClosestGeneric.reads (pkt : ReqClosestGeneric) (hlen : pkt.targets.length < 2 ^ 32) :
    Reads (bufferCursor buf) (ReqClosestGeneric.parser magic pkt.kind) (pkt.encode magic) pkt := by
  refine (reads_parseStart pkt.kind.type pkt.toPacket).bind ?_
  rw [RendvHeaderPacket.encodeRendv, List.append_assoc]
  refine (reads_retrieveNetUint pkt.rendvAddr).bind ?_
  refine (reads_retrieveNetUshort pkt.rendvPort).bind ?_
  refine (reads_retrieveNetUshort pkt.betaNum).bind ?_
  refine (reads_retrieveNetUshort pkt.betaDen).bind ?_
  refine Reads.check_bind (by simp) ?_
  simp only [Packet.new_retReqID]
  exact reads_entries_tail hlen reads_getIdent fun l ↦
    (⟨pkt.toRendvHeaderPacket, pkt.kind, pkt.betaNum, pkt.betaDen, l⟩ : ReqClosestGeneric)

/-! ### `RetError` and `RetInfo` -/

theorem createHeaderPacket_written (pkt : Packet) (type : UInt8) (hcap : cap.toNat < 2 ^ 31) :
    Written cap dest (pkt.encode magic type)
      (pkt.createHeaderPacket magic type (RealPacket.new dest cap)) :=
  (Wrote.writeId pkt hcap).result

theorem RetError.reads (pkt : RetError) :
    Reads (bufferCursor buf) (RetError.parser magic) (pkt.toPacket.encode magic RET_ERROR) pkt := by
  rw [← List.append_nil (pkt.toPacket.encode magic RET_ERROR)]
  refine (reads_parseStart RET_ERROR pkt.toPacket).bind (Reads.check_bind (by simp) ?_)
  simp only [Packet.new_retReqID]
  exact Reads.done _ pkt

/-- What a `RetInfo` is on the wire. -/
def RetInfo.encode (magic : UInt32) (pkt : RetInfo) : List UInt8 :=
  pkt.toPacket.encode magic RET_INFO ++ encodeIdent ⟨pkt.addr, pkt.port⟩

theorem RetInfo.length_encode (magic : UInt32) (pkt : RetInfo) :
    (pkt.encode magic).length = 19 := by
  simp [encode]

theorem RetInfo.createRealPacket_written (pkt : RetInfo) (hcap : cap.toNat < 2 ^ 31) :
    Written cap dest (pkt.encode magic)
      (pkt.createRealPacket magic (RealPacket.new dest cap)) := by
  simp only [createRealPacket, encode]
  exact ((Wrote.writeId pkt.toPacket hcap).putIdent hcap ⟨pkt.addr, pkt.port⟩).result

/-- A `RetInfo` as its receiver sees it. -/
def RetInfo.received (remote : NodeIdent) (pkt : RetInfo) : RetInfo :=
  { pkt with
    addr := (orSender remote ⟨pkt.addr, pkt.port⟩).addr
    port := (orSender remote ⟨pkt.addr, pkt.port⟩).port }

theorem RetInfo.reads (remote : NodeIdent) (pkt : RetInfo) :
    Reads (bufferCursor buf) (RetInfo.parser magic remote) (pkt.encode magic)
      (pkt.received remote) := by
  refine (reads_parseStart RET_INFO pkt.toPacket).bind ?_
  rw [← List.append_nil (encodeIdent _)]
  refine (reads_getIdent ⟨pkt.addr, pkt.port⟩).bind (Reads.check_bind (by simp) ?_)
  simp only [Packet.new_retReqID]
  exact Reads.done _ (pkt.received remote)

/-! ### `RetResponse` -/

/-- What a `RetResponse` is on the wire. -/
def RetResponse.encode (magic : UInt32) (pkt : RetResponse) : List UInt8 :=
  pkt.toPacket.encode magic RET_RESPONSE ++ (encodeIdent ⟨pkt.addr, pkt.port⟩ ++
    encodeEntries (fun t ↦ encodeIdentValue (t.ident, t.latencyUS)) pkt.targets)

theorem length_encode_latEntries (l : List NodeIdentLat) :
    (encodeEntries (fun t ↦ encodeIdentValue (t.ident, t.latencyUS)) l).length =
      4 + 10 * l.length :=
  length_encodeEntries (fun t : NodeIdentLat ↦ length_encodeIdentValue (t.ident, t.latencyUS)) l

theorem RetResponse.length_encode (magic : UInt32) (pkt : RetResponse) :
    (pkt.encode magic).length = 23 + 10 * pkt.targets.length := by
  simp only [encode, List.length_append, length_encode_packet, length_encodeIdent,
    length_encode_latEntries]
  omega

theorem RetResponse.createRealPacket_written (pkt : RetResponse) (hcap : cap.toNat < 2 ^ 31)
    (hlen : pkt.targets.length < 2 ^ 32) :
    ∃ res, pkt.createRealPacket magic (RealPacket.new dest cap) = some res ∧
      Written cap dest (pkt.encode magic) res := by
  rw [createRealPacket, if_neg (Nat.not_le.2 hlen)]
  refine ⟨_, rfl, ?_⟩
  simp only [encode, ← List.append_assoc]
  exact (((Wrote.writeId pkt.toPacket hcap).putIdent hcap ⟨pkt.addr, pkt.port⟩).entries hcap _
    fun t bs p h ↦ h.putIdentValue hcap (t.ident, t.latencyUS)).result

/-- The entries of a map built from the sorted entries of a reply are these entries. -/
theorem latList_ofList {l : List NodeIdentLat} (h : l.Pairwise fun a b ↦ ltNodeIdentLat a b) :
    latList (Std.ExtTreeMap.ofList (l.map fun t ↦ (t.ident, t.latencyUS)) compare) = l := by
  rw [latList, toList_ofList_of_sorted, List.map_map]
  · exact List.map_id l
  · rw [List.pairwise_map]
    exact h.imp fun {a b} hlt ↦ (cmpNodeIdent_eq_lt a.ident b.ident).2 hlt

/-- A `RetResponse` as its receiver sees it. -/
def RetResponse.received (remote : NodeIdent) (pkt : RetResponse) : RetResponse :=
  { pkt with
    addr := (orSender remote ⟨pkt.addr, pkt.port⟩).addr
    port := (orSender remote ⟨pkt.addr, pkt.port⟩).port }

theorem RetResponse.new_eq_received (remote : NodeIdent) (pkt : RetResponse) :
    RetResponse.new pkt.retReqID (orSender remote ⟨pkt.addr, pkt.port⟩).addr
      (orSender remote ⟨pkt.addr, pkt.port⟩).port
      (Std.ExtTreeMap.ofList (pkt.targets.map fun t ↦ (t.ident, t.latencyUS))) =
      pkt.received remote := by
  simp only [RetResponse.new, received, latList_ofList pkt.sorted, Packet.new_retReqID]

theorem RetResponse.reads (remote : NodeIdent) (pkt : RetResponse)
    (hlen : pkt.targets.length < 2 ^ 32) :
    Reads (bufferCursor buf) (RetResponse.parser magic remote) (pkt.encode magic)
      (pkt.received remote) := by
  refine (reads_parseStart RET_RESPONSE pkt.toPacket).bind (Reads.check_bind (by simp) ?_)
  refine (reads_getIdent ⟨pkt.addr, pkt.port⟩).bind ?_
  rw [← new_eq_received]
  have hlen' : (pkt.targets.map fun t ↦ (t.ident, t.latencyUS)).length < 2 ^ 32 := by
    rwa [List.length_map]
  have h : Reads (bufferCursor buf) _ _ _ := reads_entries_tail hlen' reads_getIdentValue fun l ↦
    RetResponse.new pkt.retReqID (orSender remote ⟨pkt.addr, pkt.port⟩).addr
      (orSender remote ⟨pkt.addr, pkt.port⟩).port (Std.ExtTreeMap.ofList l)
  rwa [encodeEntries, List.length_map, List.flatMap_map] at h

/-! ### `GossipPacketGeneric` and `RetPing` -/

/-- What a `GossipPacketGeneric` is on the wire. -/
def GossipPacketGeneric.encode (magic : UInt32) (pkt : GossipPacketGeneric) : List UInt8 :=
  pkt.toPacket.encode magic pkt.kind.type ++ (pkt.encodeRendv ++
    encodeEntries (fun t ↦ encodeRendvEntry (t.ident, ⟨t.addrRendv, t.portRendv.toUInt16⟩))
      pkt.targets)

theorem GossipPacketGeneric.length_encode (magic : UInt32) (pkt : GossipPacketGeneric) :
    (pkt.encode magic).length = 23 + 12 * pkt.targets.length := by
  simp only [encode, List.length_append, length_encode_packet, length_encodeRendv,
    length_encodeEntries fun t : NodeIdentRendv ↦
      length_encodeRendvEntry (t.ident, ⟨t.addrRendv, t.portRendv.toUInt16⟩)]
  omega

/-- A loop that runs to a 32-bit count covers the whole list. -/
theorem take_count {α : Type} {as : List α} (hlen : as.length < 2 ^ 32) :
    as.take (UInt32.ofNat as.length).toNat = as := by
  rw [UInt32.toNat_ofNat_of_lt' hlen, List.take_length]

theorem GossipPacketGeneric.createRealPacket_written (pkt : GossipPacketGeneric)
    (hcap : cap.toNat < 2 ^ 31) (hlen : pkt.targets.length < 2 ^ 32) :
    Written cap dest (pkt.encode magic)
      (pkt.createRealPacket magic (RealPacket.new dest cap)) := by
  simp only [createRealPacket, take_count hlen, encode, ← List.append_assoc]
  refine (((Wrote.writeId _ hcap).writeRendv hcap _).entries hcap _ fun t bs p h ↦ ?_).result
  rw [encodeRendvEntry, ← List.append_assoc]
  exact (h.putIdent hcap t.ident).putIdent hcap _

/-- A gossip entry as the arguments of the `addNode` that made it. -/
def rendvPair (t : NodeIdentRendv) : NodeIdent × NodeIdent :=
  (t.ident, ⟨t.addrRendv, t.portRendv.toUInt16⟩)

theorem addNodeEntry_rendvPair {t : NodeIdentRendv} (h : t.portRendv.toNat < 2 ^ 16) :
    addNodeEntry (rendvPair t) = t := by
  have hport : t.portRendv.toUInt16.toUInt32 = t.portRendv := by
    rw [← UInt32.toNat_inj, UInt16.toNat_toUInt32, UInt32.toNat_toUInt16, Nat.mod_eq_of_lt h]
  rw [addNodeEntry, rendvPair, hport]
  rfl

/-- The packet a receiver builds from gossip entries. -/
def GossipPacketGeneric.ofEntries (pkt : RendvHeaderPacket) (kind : GossipKind)
    (l : List (NodeIdent × NodeIdent)) : GossipPacketGeneric :=
  ⟨pkt, kind, l.map addNodeEntry, portRendv_addNodeEntry l⟩

theorem GossipPacketGeneric.ofEntries_rendvPair (pkt : GossipPacketGeneric) :
    ofEntries pkt.toRendvHeaderPacket pkt.kind (pkt.targets.map rendvPair) = pkt := by
  obtain ⟨hdr, kind, targets, ports⟩ := pkt
  have hmap : (targets.map rendvPair).map addNodeEntry = targets := by
    rw [List.map_map]
    exact (List.map_congr_left fun t ht ↦ addNodeEntry_rendvPair (ports t ht)).trans
      (List.map_id targets)
  simp only [ofEntries, hmap]

theorem GossipPacketGeneric.reads (pkt : GossipPacketGeneric)
    (hlen : pkt.targets.length < 2 ^ 32) :
    Reads (bufferCursor buf) (GossipPacketGeneric.parser magic pkt.kind) (pkt.encode magic)
      pkt := by
  refine (reads_parseStart pkt.kind.type pkt.toPacket).bind ?_
  rw [RendvHeaderPacket.encodeRendv, List.append_assoc]
  refine (reads_retrieveNetUint pkt.rendvAddr).bind ?_
  refine (reads_retrieveNetUshort pkt.rendvPort).bind ?_
  refine Reads.check_bind (by simp) ?_
  simp only [Packet.new_retReqID]
  have hlen' : (pkt.targets.map rendvPair).length < 2 ^ 32 := by rwa [List.length_map]
  have h : Reads (bufferCursor buf) _ _ _ := reads_entries_tail hlen' reads_getRendvEntry
    (ofEntries pkt.toRendvHeaderPacket pkt.kind)
  rwa [encodeEntries, List.length_map, List.flatMap_map, ofEntries_rendvPair] at h

/-- What a `RetPing` is on the wire. -/
def RetPing.encode (magic : UInt32) (pkt : RetPing) : List UInt8 :=
  pkt.toPacket.encode magic RET_PING_REQ ++
    encodeEntries (fun t ↦ encodeIdentValue (t.ident, t.latencyUS)) pkt.nodes

theorem RetPing.length_encode (magic : UInt32) (pkt : RetPing) :
    (pkt.encode magic).length = 17 + 10 * pkt.nodes.length := by
  simp only [encode, List.length_append, length_encode_packet, length_encode_latEntries]
  omega

theorem RetPing.createRealPacket_written (pkt : RetPing) (hcap : cap.toNat < 2 ^ 31)
    (hlen : pkt.nodes.length < 2 ^ 32) :
    Written cap dest (pkt.encode magic)
      (pkt.createRealPacket magic (RealPacket.new dest cap)) := by
  simp only [createRealPacket, take_count hlen, encode]
  exact ((Wrote.writeId pkt.toPacket hcap).entries hcap _
    fun t bs p h ↦ h.putIdentValue hcap (t.ident, t.latencyUS)).result

theorem RetPing.reads (pkt : RetPing) (hlen : pkt.nodes.length < 2 ^ 32) :
    Reads (bufferCursor buf) (RetPing.parser magic) (pkt.encode magic) pkt := by
  refine (reads_parseStart RET_PING_REQ pkt.toPacket).bind (Reads.check_bind (by simp) ?_)
  simp only [Packet.new_retReqID]
  exact reads_entries_map (fun t : NodeIdentLat ↦ (t.ident, t.latencyUS)) (fun _ ↦ rfl) hlen
    reads_getIdentValue fun l ↦ (⟨pkt.toPacket, l⟩ : RetPing)

/-! ### Headers -/

theorem reads_parseHeader (type : UInt8) (pkt : Packet) :
    Reads (bufferCursor buf) (Packet.parseHeader magic) (pkt.encode magic type)
      (type, pkt.retReqID) := by
  refine (reads_retrieveChar type).bind ?_
  refine (reads_retrieveNetUint pkt.reqId1).bind ?_
  refine (reads_retrieveNetUint pkt.reqId2).bind ?_
  rw [← List.append_nil (net32 magic)]
  refine (reads_retrieveNetUint magic).bind (Reads.check_bind (by simp) ?_)
  exact Reads.done _ (type, to64 pkt.reqId1 pkt.reqId2)

/-- The header of a packet is all that `parseHeader` looks at. -/
theorem parse_parseHeader {type : UInt8} {pkt : Packet} {rest : List UInt8}
    (hrange : InRange (pkt.encode magic type ++ rest)) :
    parse (Packet.parseHeader magic) (pkt.encode magic type ++ rest) =
      some (type, pkt.retReqID) := by
  obtain ⟨s', hs', -⟩ := (reads_parseHeader type pkt).full _ rest (at_new hrange)
  rw [parse, hs', Option.map_some]

/-- **A packet that has been created has the header it was written with.** -/
theorem Written.parseHeader_eq {type : UInt8} {pkt : Packet} {rest : List UInt8}
    {res : Int × RealPacket} (h : Written cap dest (pkt.encode magic type ++ rest) res)
    (hcap : cap.toNat + 8 < 2 ^ 31) (hok : res.1 ≠ -1) :
    parse (Packet.parseHeader magic) res.2.payload = some (type, pkt.retReqID) := by
  have hle := h.result_eq_zero.1 (h.result_cases.resolve_right hok)
  rw [h.payload_eq hle]
  refine parse_parseHeader ?_
  rw [InRange]
  omega

/-- What follows the header of a search request, up to its entry count. -/
def RendvHeaderPacket.encodeSearch (pkt : RendvHeaderPacket) (betaNum betaDen : UInt16)
    (count : UInt32) : List UInt8 :=
  pkt.encodeRendv ++ (net16 betaNum ++ (net16 betaDen ++ net32 count))

theorem Wrote.searchHeader (pkt : RendvHeaderPacket) (type : UInt8) (betaNum betaDen : UInt16)
    (count : UInt32) (hcap : cap.toNat < 2 ^ 31) :
    Wrote cap dest (pkt.toPacket.encode magic type ++ pkt.encodeSearch betaNum betaDen count)
      (((((pkt.writeRendv (pkt.writeId magic ((RealPacket.new dest cap).appendChar type))
        ).appendUshort (htons betaNum)).appendUshort (htons betaDen)).appendUint (htonl count))) := by
  have hid : Wrote cap dest (pkt.toPacket.encode magic type) _ := Wrote.writeId pkt.toPacket hcap
  have hw := (((hid.writeRendv hcap pkt).appendUshort hcap (htons betaNum)).appendUshort hcap
    (htons betaDen)).appendUint hcap (htonl count)
  simpa only [RendvHeaderPacket.encodeSearch, List.append_assoc] using hw

/-- A request that has been created begins with its header, whatever its entry count is. -/
theorem ReqClosestGeneric.written_header (pkt : ReqClosestGeneric) (hcap : cap.toNat < 2 ^ 31)
    (hok : (pkt.createRealPacket magic (RealPacket.new dest cap)).1 ≠ -1) :
    ∃ rest, Written cap dest (pkt.toPacket.encode magic pkt.kind.type ++ rest)
      (pkt.createRealPacket magic (RealPacket.new dest cap)) := by
  rw [createRealPacket] at hok ⊢
  split at hok
  · exact absurd rfl hok
  · rename_i hne
    refine ⟨pkt.encodeSearch pkt.betaNum pkt.betaDen (UInt32.ofNat pkt.targets.length) ++
      (pkt.targets.take (UInt32.ofNat pkt.targets.length).toNat).flatMap encodeIdent, ?_⟩
    rw [if_neg hne, ← List.append_assoc]
    exact (Wrote.foldl (fun n _ bs p h ↦ h.putIdent hcap n)
      (Wrote.searchHeader pkt.toRendvHeaderPacket pkt.kind.type pkt.betaNum pkt.betaDen _ hcap)).result

@[inherit_doc ReqClosestGeneric.written_header]
theorem ReqConstraintGeneric.written_header (pkt : ReqConstraintGeneric)
    (hcap : cap.toNat < 2 ^ 31)
    (hok : (pkt.createRealPacket magic (RealPacket.new dest cap)).1 ≠ -1) :
    ∃ rest, Written cap dest (pkt.toPacket.encode magic pkt.kind.type ++ rest)
      (pkt.createRealPacket magic (RealPacket.new dest cap)) := by
  rw [createRealPacket] at hok ⊢
  split at hok
  · exact absurd rfl hok
  · rename_i hne
    refine ⟨pkt.encodeSearch pkt.betaNum pkt.betaDen (UInt32.ofNat pkt.targets.length) ++
      (pkt.targets.take (UInt32.ofNat pkt.targets.length).toNat).flatMap
      fun t ↦ encodeIdentValue (t.ident, t.latencyConstMS), ?_⟩
    rw [if_neg hne, ← List.append_assoc]
    exact (Wrote.foldl (fun t _ bs p h ↦ h.putIdentValue hcap (t.ident, t.latencyConstMS))
      (Wrote.searchHeader pkt.toRendvHeaderPacket pkt.kind.type pkt.betaNum pkt.betaDen _ hcap)).result

/-! ### All classes together -/

/-- A message of one of the datagram classes. -/
inductive Message where
  | reqGeneric (pkt : ReqGeneric)
  | reqConstraint (pkt : ReqConstraintGeneric)
  | reqClosest (pkt : ReqClosestGeneric)
  | retError (pkt : RetError)
  | retInfo (pkt : RetInfo)
  | retResponse (pkt : RetResponse)
  | gossip (pkt : GossipPacketGeneric)
  | retPing (pkt : RetPing)
  deriving DecidableEq

/-- The classes, each with the template argument of its `parse`. -/
inductive MessageClass where
  | reqGeneric (kind : ReqMeasureKind)
  | reqConstraint (kind : ReqConstraintKind)
  | reqClosest (kind : ReqClosestKind)
  | retError
  | retInfo
  | retResponse
  | gossip (kind : GossipKind)
  | retPing
  deriving DecidableEq, Repr

namespace Message

/-- The class a message belongs to. -/
def cls : Message → MessageClass
  | reqGeneric pkt => .reqGeneric pkt.kind
  | reqConstraint pkt => .reqConstraint pkt.kind
  | reqClosest pkt => .reqClosest pkt.kind
  | retError _ => .retError
  | retInfo _ => .retInfo
  | retResponse _ => .retResponse
  | gossip pkt => .gossip pkt.kind
  | retPing _ => .retPing

/-- The class's `createRealPacket`. -/
def createRealPacket (magic : UInt32) (m : Message) (p : RealPacket) : Option (Int × RealPacket) :=
  match m with
  | reqGeneric pkt => some (pkt.createRealPacket magic p)
  | reqConstraint pkt => some (pkt.createRealPacket magic p)
  | reqClosest pkt => some (pkt.createRealPacket magic p)
  | retError pkt => some (pkt.createRealPacket magic p)
  | retInfo pkt => some (pkt.createRealPacket magic p)
  | retResponse pkt => pkt.createRealPacket magic p
  | gossip pkt => some (pkt.createRealPacket magic p)
  | retPing pkt => some (pkt.createRealPacket magic p)

/-- The class's `parse`, on a datagram from `remote`. -/
def parse (magic : UInt32) (remote : NodeIdent) (c : MessageClass) (buf : List UInt8) :
    Option Message :=
  match c with
  | .reqGeneric kind => (BufferWrapper.parse (ReqGeneric.parser magic kind) buf).map reqGeneric
  | .reqConstraint kind =>
    (BufferWrapper.parse (ReqConstraintGeneric.parser magic kind) buf).map reqConstraint
  | .reqClosest kind =>
    (BufferWrapper.parse (ReqClosestGeneric.parser magic kind) buf).map reqClosest
  | .retError => (BufferWrapper.parse (RetError.parser magic) buf).map retError
  | .retInfo => (BufferWrapper.parse (RetInfo.parser magic remote) buf).map retInfo
  | .retResponse => (BufferWrapper.parse (RetResponse.parser magic remote) buf).map retResponse
  | .gossip kind => (BufferWrapper.parse (GossipPacketGeneric.parser magic kind) buf).map gossip
  | .retPing => (BufferWrapper.parse (RetPing.parser magic) buf).map retPing

/-- The number of entries in the message's list. -/
def numEntries : Message → ℕ
  | reqGeneric pkt => pkt.targets.length
  | reqConstraint pkt => pkt.targets.length
  | reqClosest pkt => pkt.targets.length
  | retError _ => 0
  | retInfo _ => 0
  | retResponse pkt => pkt.targets.length
  | gossip pkt => pkt.targets.length
  | retPing pkt => pkt.nodes.length

/-- The three request families are sent with at least one target. -/
def Sendable : Message → Prop
  | reqGeneric pkt => pkt.targets ≠ []
  | reqConstraint pkt => pkt.targets ≠ []
  | reqClosest pkt => pkt.targets ≠ []
  | _ => True

instance (m : Message) : Decidable m.Sendable := by
  cases m <;> unfold Sendable <;> infer_instance

/-- The length of the message on the wire: 13 bytes of type, query id and magic number, 6 for a
rendavous or an answer, 4 for the two betas, 4 for a count, and 6, 10 or 12 for an entry. -/
def encodedLength (m : Message) : ℕ :=
  match m with
  | reqGeneric _ => 23 + 6 * m.numEntries
  | reqConstraint _ => 27 + 10 * m.numEntries
  | reqClosest _ => 27 + 6 * m.numEntries
  | retError _ => 13
  | retInfo _ => 19
  | retResponse _ => 23 + 10 * m.numEntries
  | gossip _ => 23 + 12 * m.numEntries
  | retPing _ => 17 + 10 * m.numEntries

/-- The message as it is received from `remote`: an answer with address and port 0 names its sender,
everything else arrives as it was sent. -/
def received (remote : NodeIdent) : Message → Message
  | retInfo pkt => retInfo (pkt.received remote)
  | retResponse pkt => retResponse (pkt.received remote)
  | m => m

/-- What it means for a datagram to survive the round trip: the packet is built exactly if it fits;
it is then read back; and no truncation of it is accepted. -/
structure RoundTrip (magic cap : UInt32) (remote : NodeIdent) (m : Message)
    (res : Int × RealPacket) : Prop where
  built : res.1 = 0 ↔ m.encodedLength ≤ cap.toNat
  length_eq : res.1 = 0 → res.2.payload.length = m.encodedLength
  parsed : res.1 = 0 → parse magic remote m.cls res.2.payload = some (m.received remote)
  truncated : res.1 = 0 → ∀ l, l <+: res.2.payload → l ≠ res.2.payload →
    parse magic remote m.cls l = none

/-- **From the two halves of a class to its round trip.** -/
theorem roundTrip_of {α : Type} {q : Parser BufferWrapper α} {a : α} {enc : List UInt8}
    {remote : NodeIdent} {m : Message} {f : α → Message} {res : Int × RealPacket}
    [∀ buf, Strict (bufferCursor buf) q] (hcap : cap.toNat + 8 < 2 ^ 31)
    (hlen : enc.length = m.encodedLength) (hw : Written cap dest enc res)
    (hr : ∀ buf, Reads (bufferCursor buf) q enc a) (hm : f a = m.received remote)
    (hparse : ∀ buf, parse magic remote m.cls buf = (BufferWrapper.parse q buf).map f) :
    RoundTrip magic cap remote m res := by
  have hpay : res.1 = 0 → res.2.payload = enc ∧ InRange enc := by
    intro h0
    have hle := hw.result_eq_zero.1 h0
    exact ⟨hw.payload_eq hle, by rw [InRange]; omega⟩
  refine ⟨by rw [hw.result_eq_zero, hlen], fun h0 ↦ by rw [(hpay h0).1, hlen], fun h0 ↦ ?_,
    fun h0 l hpre hne ↦ ?_⟩
  · obtain ⟨heq, hrange⟩ := hpay h0
    rw [heq, hparse, parse_eq_some (hr enc) hrange, Option.map_some, hm]
  · obtain ⟨heq, hrange⟩ := hpay h0
    rw [heq] at hpre hne
    have hrange' : InRange l := by
      have := hpre.length_le
      rw [InRange] at hrange ⊢
      omega
    rw [hparse, parse_prefix (hr l) hrange' hpre hne, Option.map_none]

instance (kind : ReqMeasureKind) (buf : List UInt8) :
    Strict (bufferCursor buf) (ReqGeneric.parser magic kind) := by
  unfold ReqGeneric.parser
  infer_instance

instance (kind : ReqConstraintKind) (buf : List UInt8) :
    Strict (bufferCursor buf) (ReqConstraintGeneric.parser magic kind) := by
  unfold ReqConstraintGeneric.parser
  infer_instance

instance (kind : ReqClosestKind) (buf : List UInt8) :
    Strict (bufferCursor buf) (ReqClosestGeneric.parser magic kind) := by
  unfold ReqClosestGeneric.parser
  infer_instance

instance (buf : List UInt8) : Strict (bufferCursor buf) (RetError.parser magic) := by
  unfold RetError.parser
  infer_instance

instance (remote : NodeIdent) (buf : List UInt8) :
    Strict (bufferCursor buf) (RetInfo.parser magic remote) := by
  unfold RetInfo.parser
  infer_instance

instance (remote : NodeIdent) (buf : List UInt8) :
    Strict (bufferCursor buf) (RetResponse.parser magic remote) := by
  unfold RetResponse.parser
  infer_instance

instance (kind : GossipKind) (buf : List UInt8) :
    Strict (bufferCursor buf) (GossipPacketGeneric.parser magic kind) := by
  unfold GossipPacketGeneric.parser
  infer_instance

instance (buf : List UInt8) : Strict (bufferCursor buf) (RetPing.parser magic) := by
  unfold RetPing.parser
  infer_instance

/-- **Datagrams survive the round trip**, for every class, query id, field values and list of fewer
than 2^32 entries, and every capacity that leaves the `int` offsets in range. -/
theorem codec_round_trip (magic cap : UInt32) (dest : NodeIdentRendv) (remote : NodeIdent)
    (m : Message) (hsend : m.Sendable) (hlen : m.numEntries < 2 ^ 32)
    (hcap : cap.toNat + 8 < 2 ^ 31) :
    ∃ res, m.createRealPacket magic (RealPacket.new dest cap) = some res ∧
      RoundTrip magic cap remote m res := by
  have hcap' : cap.toNat < 2 ^ 31 := by omega
  cases m with
  | reqGeneric pkt =>
    exact ⟨_, rfl, roundTrip_of hcap (pkt.length_encode magic)
      (pkt.createRealPacket_written hcap' hlen hsend) (fun _ ↦ pkt.reads hlen) rfl fun _ ↦ rfl⟩
  | reqConstraint pkt =>
    exact ⟨_, rfl, roundTrip_of hcap (pkt.length_encode magic)
      (pkt.createRealPacket_written hcap' hlen hsend) (fun _ ↦ pkt.reads hlen) rfl fun _ ↦ rfl⟩
  | reqClosest pkt =>
    exact ⟨_, rfl, roundTrip_of hcap (pkt.length_encode magic)
      (pkt.createRealPacket_written hcap' hlen hsend) (fun _ ↦ pkt.reads hlen) rfl fun _ ↦ rfl⟩
  | retError pkt =>
    exact ⟨_, rfl, roundTrip_of hcap (length_encode_packet magic RET_ERROR pkt.toPacket)
      (createHeaderPacket_written pkt.toPacket RET_ERROR hcap') (fun _ ↦ pkt.reads) rfl
      fun _ ↦ rfl⟩
  | retInfo pkt =>
    exact ⟨_, rfl, roundTrip_of hcap (pkt.length_encode magic)
      (pkt.createRealPacket_written hcap') (fun _ ↦ pkt.reads remote) rfl fun _ ↦ rfl⟩
  | retResponse pkt =>
    obtain ⟨res, hres, hw⟩ := pkt.createRealPacket_written hcap' hlen
    exact ⟨res, hres, roundTrip_of hcap (pkt.length_encode magic) hw
      (fun _ ↦ pkt.reads remote hlen) rfl fun _ ↦ rfl⟩
  | gossip pkt =>
    exact ⟨_, rfl, roundTrip_of hcap (pkt.length_encode magic)
      (pkt.createRealPacket_written hcap' hlen) (fun _ ↦ pkt.reads hlen) rfl fun _ ↦ rfl⟩
  | retPing pkt =>
    exact ⟨_, rfl, roundTrip_of hcap (pkt.length_encode magic)
      (pkt.createRealPacket_written hcap' hlen) (fun _ ↦ pkt.reads hlen) rfl fun _ ↦ rfl⟩

/-- A reply with two targets, address and port left to the sender, in a packet of full size. -/
theorem codec_round_trip_retResponse :
    let m := Message.retResponse (RetResponse.new 7 0 0 (Std.ExtTreeMap.ofList
      [((⟨2, 80⟩ : NodeIdent), (1500 : UInt32)), (⟨1, 80⟩, 900)]))
    ∃ res, m.createRealPacket 5 (RealPacket.new ⟨1, 1, 0, 0⟩ MAX_UDP_PACKET_SIZE) = some res ∧
      RoundTrip 5 MAX_UDP_PACKET_SIZE ⟨9, 9⟩ m res :=
  codec_round_trip 5 MAX_UDP_PACKET_SIZE ⟨1, 1, 0, 0⟩ ⟨9, 9⟩ _ (by decide) (by decide) (by decide)

/-- A list whose length is 1 as a 32-bit number is written as a list of one entry. -/
theorem reqGeneric_createRealPacket_replicate (pkt : RendvHeaderPacket) (kind : ReqMeasureKind)
    (t : NodeIdent) {n : ℕ} (hn : UInt32.ofNat n = 1) (p : RealPacket) :
    (⟨pkt, kind, List.replicate n t⟩ : ReqGeneric).createRealPacket magic p =
      (⟨pkt, kind, [t]⟩ : ReqGeneric).createRealPacket magic p := by
  have hpos : 1 ≤ n := by
    rcases Nat.eq_zero_or_pos n with rfl | hpos
    · exact absurd hn (by decide)
    · exact hpos
  simp only [ReqGeneric.createRealPacket, List.length_replicate, hn, List.length_singleton,
    List.take_replicate, show UInt32.ofNat 1 = 1 from rfl, show (1 : UInt32).toNat = 1 from rfl,
    Nat.min_eq_left hpos, List.replicate_one, List.take_one, List.head?_cons, Option.toList_some]

/-- **The entry count is a 32-bit number.** A request with 2^32 + 1 targets is written as one with a
single target: `createRealPacket` reports success for a list that is larger than any packet. -/
theorem codec_count_truncates :
    ¬ ∀ m : Message, m.Sendable →
      ∃ res, m.createRealPacket 0 (RealPacket.new ⟨1, 1, 0, 0⟩ MAX_UDP_PACKET_SIZE) = some res ∧
        (res.1 = 0 ↔ m.encodedLength ≤ MAX_UDP_PACKET_SIZE.toNat) := by
  intro h
  -- the length is kept as a variable, so that no list of that length is ever evaluated
  obtain ⟨n, hn, hbig⟩ : ∃ n, UInt32.ofNat n = 1 ∧ MAX_UDP_PACKET_SIZE.toNat < n :=
    ⟨2 ^ 32 + 1, rfl, by decide⟩
  have hone : ((⟨⟨Packet.new 7, 0, 0⟩, .tcp, [⟨1, 80⟩]⟩ : ReqGeneric).createRealPacket 0
      (RealPacket.new ⟨1, 1, 0, 0⟩ MAX_UDP_PACKET_SIZE)).1 = 0 := by
    decide
  rw [← reqGeneric_createRealPacket_replicate _ _ _ hn] at hone
  obtain ⟨res, hres, hiff⟩ := h (.reqGeneric ⟨⟨Packet.new 7, 0, 0⟩, .tcp,
    List.replicate n ⟨1, 80⟩⟩) (by
      rw [Sendable, ne_eq, List.replicate_eq_nil_iff]
      omega)
  rw [createRealPacket, Option.some.injEq] at hres
  rw [← hres] at hiff
  have hle := hiff.1 hone
  rw [encodedLength, numEntries, List.length_replicate] at hle
  omega

end Message

end Meridian

import Meridian.Process.Dispatch

/-!
# Requests of remote calls

What `handleRPC` puts on the outgoing queue: `DSLReqQuery::init` writes the header of a
`DSL_REQUEST`, with a ttl of one less than that of the thread, and `marshal_packet` the program, the
function and its parameters behind it.

* A time is a number of microseconds. The `double` of `init` is exact up to less than a millisecond
  for any difference of two times, and only whole milliseconds of it are looked at.
* `compress` is a parameter; it gives `none` if it does not return `Z_OK`.
* `none` is the use of a struct name that has not been set, as in `marshal_ast`.

`DSLRequestPacket.parse_eq_some` is what the receiver makes of the header.
-/

namespace Meridian

open Lib BufferWrapper MQL MQL.Value

/-! ### Packets -/

/-- `DSLRequestPacket::createRealPacket`. -/
def DSLRequestPacket.createRealPacket (magic : UInt32) (pkt : DSLRequestPacket) (p : RealPacket) :
    Int × RealPacket :=
  let p := p.appendChar DSL_REQUEST
  let p := pkt.writeId magic p
  let p := pkt.writeRendv p
  let p := p.appendUshort (htons pkt.msRemain)
  let p := p.appendUshort (htons pkt.ttl)
  p.result

/-- The program and the name of the function, as `marshal_packet` writes them. -/
def appendProgram (inputBuffer tmpCompBuf funcName : List UInt8) (p : RealPacket) : RealPacket :=
  let p := p.appendUint (htonl (UInt32.ofNat inputBuffer.length))
  let p := p.appendUint (htonl (UInt32.ofNat tmpCompBuf.length))
  let p := p.appendStr tmpCompBuf
  let p := p.appendUint (htonl (UInt32.ofNat funcName.length))
  p.appendStr funcName

/-- `marshal_packet`. -/
def marshalPacket {D : Type} (compress : List UInt8 → Option (List UInt8)) (xdr : XdrDouble D)
    (inputBuffer : List UInt8) (funcName : Str) (paramAST : Value D) (p : RealPacket) :
    Option (Int × RealPacket) :=
  match compress inputBuffer with
  | none => some (-1, p)
  | some tmpCompBuf =>
    let p := appendProgram inputBuffer tmpCompBuf funcName p
    if !p.complete then some (-1, p)
    else (marshalAst xdr paramAST p).map fun res ↦ if res.1 = -1 then (-1, res.2) else (0, res.2)

/-! ### `DSLReqQuery` -/

/-- `MIN_TIMEOUT_MS`. -/
def MIN_TIMEOUT_MS : ℤ := 10

/-- The members of a `DSLReqQuery` that its request is made from. -/
structure RpcRequest where
  qid : UInt64
  timeoutTV : ℕ
  destNode : NodeIdentRendv
  ttl : UInt16

/-- The packet that `init` creates, with so many microseconds left. -/
def RpcRequest.packet (rendvInfo : NodeIdent) (timeoutUS : ℤ) (q : RpcRequest) : DSLRequestPacket :=
  ⟨⟨Packet.new q.qid, rendvInfo.addr, rendvInfo.port⟩, UInt16.ofNat (timeoutUS / 1000).toNat,
    q.ttl - 1⟩

/-- `DSLReqQuery::init`: its return value, and the packet that it puts on the outgoing queue. -/
def RpcRequest.init {D : Type} (magic : UInt32) (rendvInfo : NodeIdent)
    (compress : List UInt8 → Option (List UInt8)) (xdr : XdrDouble D) (curTime : ℕ)
    (inputBuffer : List UInt8) (funcName : Str) (param : Value D) (q : RpcRequest) :
    Option (Int × Option RealPacket) :=
  let timeoutUS : ℤ := q.timeoutTV - curTime
  if 2 ^ 16 * 1000 ≤ timeoutUS ∨ timeoutUS < MIN_TIMEOUT_MS * 1000 then some (-1, none)
  -- expired, "don't bother sending"
  else if q.ttl = 0 then some (-1, none)
  else
    let tmpDSLPacket := q.packet rendvInfo timeoutUS
    let res := tmpDSLPacket.createRealPacket magic (RealPacket.new q.destNode MAX_UDP_PACKET_SIZE)
    if res.1 = -1 then some (-1, none)
    else (marshalPacket compress xdr inputBuffer funcName param res.2).map fun res ↦
      if res.1 = -1 then (-1, none) else (0, some res.2)

/-! ### Writing only adds bytes -/

namespace RealPacket

variable {p q : RealPacket} {bs : List UInt8}

/-- A packet that has been written on begins as it did before. -/
def Extends (p q : RealPacket) : Prop := p.payload <+: q.payload

theorem Extends.refl (p : RealPacket) : p.Extends p := List.prefix_rfl

theorem Extends.append (h : p.Extends q) (bs : List UInt8) : p.Extends (q.append bs) := by
  rw [RealPacket.append]
  split
  · exact h
  split
  · exact h.trans (List.prefix_append ..)
  · exact h

theorem Extends.appendUint (h : p.Extends q) (x : UInt32) : p.Extends (q.appendUint x) :=
  h.append _

theorem Extends.appendInt (h : p.Extends q) (x : Int32) : p.Extends (q.appendInt x) := h.append _

theorem Extends.appendStr (h : p.Extends q) (bs : List UInt8) : p.Extends (q.appendStr bs) := by
  rw [RealPacket.appendStr]
  split
  · exact h
  · exact h.append _

theorem Extends.result (h : p.Extends q) : p.Extends q.result.2 := by
  rw [RealPacket.result]
  split <;> exact h

end RealPacket

namespace MQL.Value

variable {D : Type} {xdr : XdrDouble D}

open RealPacket (Extends)

mutual

theorem marshalAst_extends (v : Value D) : ∀ {p q : RealPacket} {res : Int × RealPacket},
    p.Extends q → marshalAst xdr v q = some res → p.Extends res.2 :=
  match v with
  | empty => fun hpq h ↦ by
    rw [marshalAst, Option.some.injEq] at h
    subst h
    exact (hpq.appendInt _).result
  | int i => fun hpq h ↦ by
    rw [marshalAst, Option.some.injEq] at h
    subst h
    exact ((hpq.appendInt _).appendInt _).result
  | double d => fun hpq h ↦ by
    rw [marshalAst, Option.some.injEq] at h
    subst h
    exact ((hpq.appendInt _).appendStr _).result
  | string s => fun hpq h ↦ by
    rw [marshalAst, Option.some.injEq] at h
    subst h
    exact (((hpq.appendInt _).appendUint _).appendStr _).result
  | array aType aAdtName aVector => fun hpq h ↦ by
    rw [marshalAst] at h
    split at h
    · exact absurd h (by simp)
    · rename_i q' hq'
      refine marshalVector_extends aVector (Extends.appendUint ?_ _) h
      split at hq'
      · obtain ⟨name, -, rfl⟩ := Option.map_eq_some_iff.1 hq'
        exact (((hpq.appendInt _).appendInt _).appendUint _).appendStr _
      · rw [Option.some.injEq] at hq'
        subst hq'
        exact ((hpq.appendInt _).appendInt _).appendUint _
  | adt adtTypeName adtMap => fun hpq h ↦ by
    rw [marshalAst] at h
    exact marshalMap_extends adtMap
      ((((hpq.appendInt _).appendUint _).appendStr _).appendUint _) h
  | sep pVector => fun hpq h ↦ by
    rw [marshalAst] at h
    exact marshalVector_extends pVector ((hpq.appendInt _).appendUint _) h
  | other type => fun hpq h ↦ by
    rw [marshalAst, Option.some.injEq] at h
    subst h
    exact hpq.appendInt _

theorem marshalVector_extends (vs : List (Value D)) : ∀ {p q : RealPacket}
    {res : Int × RealPacket}, p.Extends q → marshalVector xdr vs q = some res → p.Extends res.2 :=
  match vs with
  | [] => fun hpq h ↦ by
    rw [marshalVector, Option.some.injEq] at h
    subst h
    exact hpq.result
  | v :: vs => fun hpq h ↦ by
    rw [marshalVector] at h
    split at h
    · exact absurd h (by simp)
    · rename_i rc q' hv
      have hq' := marshalAst_extends v hpq hv
      split at h
      · cases h
        exact hq'
      · exact marshalVector_extends vs hq' h

theorem marshalMap_extends (fields : List (Str × Value D)) : ∀ {p q : RealPacket}
    {res : Int × RealPacket}, p.Extends q → marshalMap xdr fields q = some res → p.Extends res.2 :=
  match fields with
  | [] => fun hpq h ↦ by
    rw [marshalMap, Option.some.injEq] at h
    subst h
    exact hpq.result
  | (name, v) :: rest => fun hpq h ↦ by
    rw [marshalMap] at h
    split at h
    · exact absurd h (by simp)
    · rename_i rc q' hv
      have hq' := marshalAst_extends v ((hpq.appendUint _).appendStr _) hv
      split at h
      · cases h
        exact hq'
      · exact marshalMap_extends rest hq' h

end

end MQL.Value

theorem appendProgram_extends (inputBuffer tmpCompBuf funcName : List UInt8) (p : RealPacket) :
    p.Extends (appendProgram inputBuffer tmpCompBuf funcName p) := by
  rw [appendProgram]
  exact (((((RealPacket.Extends.refl p).appendUint _).appendUint _).appendStr
    tmpCompBuf).appendUint _).appendStr funcName

theorem marshalPacket_extends {D : Type} {compress : List UInt8 → Option (List UInt8)}
    {xdr : XdrDouble D} {inputBuffer : List UInt8} {funcName : Str} {param : Value D}
    {p : RealPacket} {res : Int × RealPacket}
    (h : marshalPacket compress xdr inputBuffer funcName param p = some res) : p.Extends res.2 := by
  rw [marshalPacket] at h
  split at h
  · cases h
    exact RealPacket.Extends.refl p
  · rename_i tmpCompBuf _
    have hfront := appendProgram_extends inputBuffer tmpCompBuf funcName p
    dsimp only at h
    split at h
    · rw [Option.some.injEq] at h
      subst h
      dsimp only
      exact hfront
    · rw [Option.map_eq_some_iff] at h
      obtain ⟨res', hres', heq⟩ := h
      have hparam : p.Extends res'.2 := marshalAst_extends param hfront hres'
      rw [← heq]
      split <;> exact hparam

/-! ### The header -/

/-- The header of a `DSL_REQUEST`. -/
def DSLRequestPacket.encode (magic : UInt32) (pkt : DSLRequestPacket) : List UInt8 :=
  pkt.toPacket.encode magic DSL_REQUEST ++
    (pkt.encodeRendv ++ (net16 pkt.msRemain ++ net16 pkt.ttl))

theorem DSLRequestPacket.length_encode (magic : UInt32) (pkt : DSLRequestPacket) :
    (pkt.encode magic).length = 23 := by
  simp [DSLRequestPacket.encode]

theorem DSLRequestPacket.createRealPacket_eq {cap : UInt32} (pkt : DSLRequestPacket)
    (dest : NodeIdentRendv) (magic : UInt32) (hcap : cap.toNat < 2 ^ 31) :
    ∃ p, pkt.createRealPacket magic (RealPacket.new dest cap) = p.result ∧
      Wrote cap dest (pkt.encode magic) p := by
  have hid : Wrote cap dest (pkt.toPacket.encode magic DSL_REQUEST) _ :=
    Wrote.writeId pkt.toPacket hcap
  have h := ((hid.writeRendv hcap pkt.toRendvHeaderPacket).appendUshort hcap
    (htons pkt.msRemain)).appendUshort hcap (htons pkt.ttl)
  rw [List.append_assoc, List.append_assoc] at h
  exact ⟨_, rfl, h⟩

theorem DSLRequestPacket.createRealPacket_written {cap : UInt32} {dest : NodeIdentRendv}
    (pkt : DSLRequestPacket) (magic : UInt32) (hcap : cap.toNat < 2 ^ 31) :
    Written cap dest (pkt.encode magic)
      (pkt.createRealPacket magic (RealPacket.new dest cap)) := by
  obtain ⟨p, hp, hwrote⟩ := pkt.createRealPacket_eq dest magic hcap
  rw [hp]
  exact hwrote.result

/-- What is read before the program. -/
def DSLRequestPacket.header (magic : UInt32) : Parser BufferWrapper DSLRequestPacket := do
  let start ← Packet.parseStart DSL_REQUEST
  let rendvAddr ← retrieveNetUint
  let rendvPort ← retrieveNetUshort
  let curRemain ← retrieveNetUshort
  let curTtl ← retrieveNetUshort
  nullIf (start.2 != magic)
  pure ⟨⟨Packet.new start.1, rendvAddr, rendvPort⟩, curRemain, curTtl⟩

theorem DSLRequestPacket.reads_header {magic : UInt32} {buf : List UInt8}
    (pkt : DSLRequestPacket) :
    Reads (bufferCursor buf) (DSLRequestPacket.header magic) (pkt.encode magic) pkt := by
  refine (reads_parseStart DSL_REQUEST pkt.toPacket).bind ?_
  rw [RendvHeaderPacket.encodeRendv, List.append_assoc]
  refine (reads_retrieveNetUint pkt.rendvAddr).bind ?_
  refine (reads_retrieveNetUshort pkt.rendvPort).bind ?_
  refine (reads_retrieveNetUshort pkt.msRemain).bind ?_
  rw [← List.append_nil (net16 pkt.ttl)]
  refine (reads_retrieveNetUshort pkt.ttl).bind (Reads.check_bind (by simp) ?_)
  simp only [Packet.new_retReqID]
  exact Reads.done _ pkt

/-- The header is read first, then the program. -/
theorem DSLRequestPacket.parse_eq {D : Type} (magic : UInt32) (xdr : XdrDouble D)
    (uncompress : ℕ → List UInt8 → Option (List UInt8)) :
    DSLRequestPacket.parse magic xdr uncompress = (do
      let pkt ← onBuffer (DSLRequestPacket.header magic)
      let program ← unmarshalPacket xdr uncompress
      onBuffer (nullIf false)
      pure (pkt, program)) := by
  simp only [header, onBuffer_bind, bind_assoc]
  rfl

/-- **The header of what is parsed as a request.** -/
theorem DSLRequestPacket.parse_eq_some {D : Type} {magic : UInt32} {xdr : XdrDouble D}
    {uncompress : ℕ → List UInt8 → Option (List UInt8)} {u u' : UnmarshalState}
    {pkt : DSLRequestPacket} {program : Program D}
    (h : DSLRequestPacket.parse magic xdr uncompress u = some ((pkt, program), u')) :
    ∃ bw, DSLRequestPacket.header magic u.bw = some (pkt, bw) := by
  rw [DSLRequestPacket.parse_eq] at h
  obtain ⟨pkt', u₁, hheader, h⟩ := bind_eq_some.1 h
  obtain ⟨program', u₂, -, h⟩ := bind_eq_some.1 h
  obtain ⟨_, u₃, -, h⟩ := bind_eq_some.1 h
  cases h
  exact ⟨u₁.bw, onBuffer_eq_some hheader⟩

/-- **A request that arrives is the one that was sent**, if it is parsed at all. -/
theorem DSLRequestPacket.eq_of_parse_encode {D : Type} {magic : UInt32} {xdr : XdrDouble D}
    {uncompress : ℕ → List UInt8 → Option (List UInt8)} {allocated : ℕ} {u' : UnmarshalState}
    {pkt pkt' : DSLRequestPacket} {program : Program D} {rest : List UInt8}
    (hrange : InRange (pkt.encode magic ++ rest))
    (h : DSLRequestPacket.parse magic xdr uncompress
      ⟨.new (pkt.encode magic ++ rest), allocated⟩ = some ((pkt', program), u')) :
    pkt' = pkt := by
  obtain ⟨bw, hbw⟩ := DSLRequestPacket.parse_eq_some h
  obtain ⟨bw', hbw', -⟩ := (DSLRequestPacket.reads_header pkt).full _ rest (at_new hrange)
  rw [hbw'] at hbw
  exact (congrArg Prod.fst (Option.some.inj hbw)).symm

/-! ### What is sent -/

/-- **The request of a thread carries a ttl of one less**, which does not wrap: a thread whose ttl is 0
sends none. -/
theorem RpcRequest.init_sent {D : Type} {magic : UInt32} {rendvInfo : NodeIdent}
    {compress : List UInt8 → Option (List UInt8)} {xdr : XdrDouble D} {curTime : ℕ}
    {inputBuffer : List UInt8} {funcName : Str} {param : Value D} {q : RpcRequest} {rc : Int}
    {p : RealPacket}
    (h : q.init magic rendvInfo compress xdr curTime inputBuffer funcName param =
      some (rc, some p)) :
    ∃ pkt : DSLRequestPacket, pkt.encode magic <+: p.payload ∧
      pkt.ttl.toNat + 1 = q.ttl.toNat := by
  rw [RpcRequest.init] at h
  dsimp only at h
  split at h
  · cases h
  split at h
  · cases h
  split at h
  · cases h
  · rename_i _ httl hok
    rw [Option.map_eq_some_iff] at h
    obtain ⟨res, hres, heq⟩ := h
    split at heq
    · cases heq
    rw [Prod.mk.injEq, Option.some.injEq] at heq
    obtain ⟨-, rfl⟩ := heq
    refine ⟨q.packet rendvInfo (q.timeoutTV - curTime), ?_, ?_⟩
    · -- the header has been written whole
      have hwritten : Written MAX_UDP_PACKET_SIZE q.destNode _ _ :=
        (q.packet rendvInfo (q.timeoutTV - curTime)).createRealPacket_written magic
          (show MAX_UDP_PACKET_SIZE.toNat < 2 ^ 31 by decide)
      have hzero := hwritten.result_cases.resolve_right hok
      rw [← hwritten.payload_eq (hwritten.result_eq_zero.1 hzero)]
      exact marshalPacket_extends hres
    · have hpos : q.ttl.toNat ≠ 0 := fun h0 ↦ httl (UInt16.toNat_inj.1 h0)
      have hlt := q.ttl.toNat_lt
      show (q.ttl - 1).toNat + 1 = q.ttl.toNat
      rw [UInt16.toNat_sub]
      show (2 ^ 16 - 1 + q.ttl.toNat) % 2 ^ 16 + 1 = _
      omega

end Meridian

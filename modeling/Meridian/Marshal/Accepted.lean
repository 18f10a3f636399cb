import Meridian.Marshal.RoundTrip

/-!
# Accepted packets

What a buffer has in it from which a packet has been parsed: it begins with the encoding of exactly
that packet. Bytes that follow are ignored.
-/

namespace Meridian

open Lib BufferWrapper

variable {magic : UInt32} {buf : List UInt8}

/-! ### Fields -/

theorem consumes_parseStart (type : UInt8) :
    Consumes (bufferCursor buf) (Packet.parseStart type)
      fun r bs ↦ bs = (Packet.new r.1).encode r.2 type := by
  refine consumes_retrieveChar.field fun c ↦ Consumes.check_bind fun hc ↦ ?_
  refine consumes_retrieveNetUint.field fun id1 ↦ consumes_retrieveNetUint.field fun id2 ↦ ?_
  refine consumes_retrieveNetUint.field fun magicNumber ↦ Consumes.done ?_
  obtain rfl : c = type := by simpa using hc
  rw [Packet.new_to64, List.append_nil]
  rfl

theorem consumes_parseHeader :
    Consumes (bufferCursor buf) (Packet.parseHeader magic)
      fun r bs ↦ bs = (Packet.new r.2).encode magic r.1 := by
  refine consumes_retrieveChar.field fun c ↦ ?_
  refine consumes_retrieveNetUint.field fun id1 ↦ consumes_retrieveNetUint.field fun id2 ↦ ?_
  refine consumes_retrieveNetUint.field fun magicNumber ↦ Consumes.check_bind fun hm ↦ ?_
  refine Consumes.done ?_
  obtain rfl : magicNumber = magic := by simpa using hm
  rw [Packet.new_to64, List.append_nil]
  rfl

theorem consumes_getIdent : Consumes (bufferCursor buf) getIdent fun n bs ↦ bs = encodeIdent n :=
  consumes_retrieveNetUint.field fun addr ↦ consumes_retrieveNetUshort.field fun port ↦
    Consumes.done (by rw [List.append_nil]; rfl)

theorem consumes_getIdentValue :
    Consumes (bufferCursor buf) getIdentValue fun e bs ↦ bs = encodeIdentValue e :=
  consumes_getIdent.field fun n ↦ consumes_retrieveNetUint.field fun value ↦
    Consumes.done (by rw [List.append_nil]; rfl)

/-- The tail that every list packet ends in. -/
theorem consumes_entries_tail {α β : Type} {get : Parser BufferWrapper α}
    [Sticky (bufferCursor buf) get] {enc : α → List UInt8} {Q : β → List UInt8 → Prop}
    (g : List α → β) (hget : Consumes (bufferCursor buf) get fun a bs ↦ bs = enc a)
    (hQ : ∀ l, Q (g l) (encodeEntries enc l)) :
    Consumes (bufferCursor buf)
      (do let n ← retrieveNetUint; let l ← entries get n; nullIf false; pure (g l)) Q := by
  refine consumes_retrieveNetUint.field fun numEntry ↦ ?_
  refine (hget.entries numEntry.toNat).bind fun l bs hbs ↦ ?_
  refine Consumes.check_bind fun _ ↦ Consumes.done ?_
  obtain ⟨hlen, rfl⟩ := hbs
  have hcount : UInt32.ofNat l.length = numEntry := by rw [hlen, UInt32.ofNat_toNat]
  have hentries := hQ l
  rw [encodeEntries, hcount] at hentries
  rwa [List.append_nil]

/-! ### Requests -/

theorem ReqGeneric.consumes (kind : ReqMeasureKind) :
    Consumes (bufferCursor buf) (ReqGeneric.parser magic kind) fun pkt bs ↦ bs = pkt.encode magic := by
  refine (consumes_parseStart kind.type).field fun start ↦ ?_
  refine consumes_retrieveNetUint.field fun addr ↦ consumes_retrieveNetUshort.field fun port ↦ ?_
  refine Consumes.check_bind fun hm ↦ ?_
  obtain rfl : start.2 = magic := by simpa using hm
  refine consumes_entries_tail _ consumes_getIdent fun l ↦ ?_
  rw [ReqGeneric.encode, RendvHeaderPacket.encodeRendv, List.append_assoc]

theorem ReqConstraintGeneric.consumes (kind : ReqConstraintKind) :
    Consumes (bufferCursor buf) (ReqConstraintGeneric.parser magic kind)
      fun pkt bs ↦ bs = pkt.encode magic := by
  refine (consumes_parseStart kind.type).field fun start ↦ ?_
  refine consumes_retrieveNetUint.field fun addr ↦ consumes_retrieveNetUshort.field fun port ↦ ?_
  refine consumes_retrieveNetUshort.field fun num ↦ consumes_retrieveNetUshort.field fun den ↦ ?_
  refine Consumes.check_bind fun hm ↦ ?_
  obtain rfl : start.2 = magic := by simpa using hm
  refine consumes_entries_tail _ consumes_getIdentValue fun l ↦ ?_
  rw [ReqConstraintGeneric.encode, RendvHeaderPacket.encodeRendv, List.append_assoc]
  simp only [encodeEntries, List.length_map, List.flatMap_map]
  rfl

theorem ReqClosestGeneric.consumes (kind : ReqClosestKind) :
    Consumes (bufferCursor buf) (ReqClosestGeneric.parser magic kind)
      fun pkt bs ↦ bs = pkt.encode magic := by
  refine (consumes_parseStart kind.type).field fun start ↦ ?_
  refine consumes_retrieveNetUint.field fun addr ↦ consumes_retrieveNetUshort.field fun port ↦ ?_
  refine consumes_retrieveNetUshort.field fun num ↦ consumes_retrieveNetUshort.field fun den ↦ ?_
  refine Consumes.check_bind fun hm ↦ ?_
  obtain rfl : start.2 = magic := by simpa using hm
  refine consumes_entries_tail _ consumes_getIdent fun l ↦ ?_
  rw [ReqClosestGeneric.encode, RendvHeaderPacket.encodeRendv, List.append_assoc]

/-- **An accepted request is in the buffer**, with all its targets. -/
theorem ReqGeneric.length_le {kind : ReqMeasureKind} {pkt : ReqGeneric} (hrange : InRange buf)
    (h : parse (ReqGeneric.parser magic kind) buf = some pkt) :
    23 + 6 * pkt.targets.length ≤ buf.length := by
  obtain ⟨bs, tail, rfl, rfl⟩ := consumes_parse (ReqGeneric.consumes kind) hrange h
  rw [List.length_append, pkt.length_encode]
  omega

@[inherit_doc ReqGeneric.length_le]
theorem ReqConstraintGeneric.length_le {kind : ReqConstraintKind} {pkt : ReqConstraintGeneric}
    (hrange : InRange buf) (h : parse (ReqConstraintGeneric.parser magic kind) buf = some pkt) :
    27 + 10 * pkt.targets.length ≤ buf.length := by
  obtain ⟨bs, tail, rfl, rfl⟩ := consumes_parse (ReqConstraintGeneric.consumes kind) hrange h
  rw [List.length_append, pkt.length_encode]
  omega

@[inherit_doc ReqGeneric.length_le]
theorem ReqClosestGeneric.length_le {kind : ReqClosestKind} {pkt : ReqClosestGeneric}
    (hrange : InRange buf) (h : parse (ReqClosestGeneric.parser magic kind) buf = some pkt) :
    27 + 6 * pkt.targets.length ≤ buf.length := by
  obtain ⟨bs, tail, rfl, rfl⟩ := consumes_parse (ReqClosestGeneric.consumes kind) hrange h
  rw [List.length_append, pkt.length_encode]
  omega

end Meridian

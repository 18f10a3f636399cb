import Meridian.Marshal.Tunnel

/-!
# The buffer a tunnel is received in

`PullPacket::parse` works in place on the memory of the packet that collects what comes down the
tunnel: it copies the payload out at an offset, moves what follows it to the front with `memmove`, and
sets the size. Here is that memory, byte for byte, with the offsets and 32-bit sizes of the source.

* A copy that leaves the memory is `none`. `parseBuffer_eq` says that there is none, and that what the
  function does to the memory is what `PullPacket.parse` says of the payload.
* `frame_extracted` is about frames: whole ones are taken off the front, and strict prefixes are left
  alone until the rest has come.
-/

namespace Meridian

open Lib BufferWrapper

/-! ### Blocks of memory -/

namespace Lib

variable {mem : List UInt8} {src dst count : ℕ}

/-- `memcpy` out of a block: the `count` bytes from `src` on. -/
def copyOut (mem : List UInt8) (src count : ℕ) : Option (List UInt8) :=
  if src + count ≤ mem.length then some ((mem.drop src).take count) else none

/-- `memmove` within a block. The bytes are those that were there before the first is written. -/
def moveWithin (mem : List UInt8) (dst src count : ℕ) : Option (List UInt8) :=
  if dst + count ≤ mem.length then
    (copyOut mem src count).map fun bs ↦ mem.take dst ++ bs ++ mem.drop (dst + count)
  else
    none

theorem copyOut_of_le (h : src + count ≤ mem.length) :
    copyOut mem src count = some ((mem.drop src).take count) := if_pos h

theorem length_moveWithin {mem' : List UInt8} (h : moveWithin mem dst src count = some mem') :
    mem'.length = mem.length := by
  rw [moveWithin] at h
  split at h
  · rename_i hdst
    obtain ⟨bs, hbs, rfl⟩ := Option.map_eq_some_iff.1 h
    rw [copyOut] at hbs
    split at hbs
    · rename_i hsrc
      obtain rfl := Option.some.inj hbs
      simp only [List.length_append, List.length_take, List.length_drop]
      omega
    · exact absurd hbs (by simp)
  · exact absurd h (by simp)

/-- A move to the front puts the bytes there. -/
theorem moveWithin_front (h : src + count ≤ mem.length) :
    ∃ mem', moveWithin mem 0 src count = some mem' ∧
      mem'.take count = (mem.drop src).take count := by
  have hlen : ((mem.drop src).take count).length = count := by
    rw [List.length_take, List.length_drop]
    omega
  refine ⟨(mem.drop src).take count ++ mem.drop count, ?_, List.take_left' hlen⟩
  rw [moveWithin, if_pos (by omega), copyOut_of_le h, Option.map_some, List.take_zero,
    List.nil_append, Nat.zero_add]

end Lib

/-! ### The packet and its memory -/

/-- A `RealPacket` with its memory. -/
structure PacketBuffer where
  dest : NodeIdentRendv
  packet : List UInt8
  size : ℕ
  complete : Bool
  maxPacketSize : UInt32
  length_packet : packet.length = maxPacketSize.toNat
  size_le : size ≤ maxPacketSize.toNat

namespace PacketBuffer

/-- `getPayLoad`, up to `getPayLoadSize`. -/
def payload (p : PacketBuffer) : List UInt8 := p.packet.take p.size

/-- The packet without the bytes behind its payload. -/
def toRealPacket (p : PacketBuffer) : RealPacket := ⟨p.dest, p.payload, p.complete, p.maxPacketSize⟩

/-- `setPayLoadSize`, given a `uint32_t` for its `int` parameter. -/
def setPayLoadSize (p : PacketBuffer) (val : UInt32) : PacketBuffer :=
  if !p.complete then p
  else if h : toInt val < 0 ∨ p.maxPacketSize < val then { p with complete := false }
  else
    { p with
      size := val.toNat
      size_le := Nat.le_of_not_lt fun hlt ↦ h (.inr (UInt32.lt_iff_toNat_lt.2 hlt)) }

/-- `memmove` from an offset of the memory to its front. -/
def moveToFront (p : PacketBuffer) (src count : ℕ) : Option PacketBuffer :=
  match h : moveWithin p.packet 0 src count with
  | none => none
  | some packet =>
    some { p with packet := packet, length_packet := (length_moveWithin h).trans p.length_packet }

end PacketBuffer

/-- `returnPos`. -/
def BufferWrapper.returnPos (bw : BufferWrapper) : UInt32 := UInt32.ofNat bw.counter.toNat

/-- `remainBufSize`. -/
def BufferWrapper.remainBufSize (bw : BufferWrapper) : UInt32 :=
  UInt32.ofNat (bw.bufSize - bw.counter).toNat

/-- What `PullPacket::parse` does to the buffer once its packet has been copied out. -/
def PacketBuffer.consume (inPacket : PacketBuffer) (rb : BufferWrapper) (payLoadSize : UInt32) :
    Option PacketBuffer :=
  if payLoadSize < rb.remainBufSize then
    let size := UInt32.ofNat inPacket.size - (rb.returnPos + payLoadSize)
    (inPacket.moveToFront (rb.returnPos + payLoadSize).toNat size.toNat).map (·.setPayLoadSize size)
  else
    some (inPacket.setPayLoadSize 0)

/-- `PullPacket::parse` on the memory. -/
def PullPacket.parseBuffer (magic : UInt32) (inPacket : PacketBuffer) :
    Option (Option (NodeIdent × RealPacket) × PacketBuffer) :=
  match PullPacket.header magic (BufferWrapper.new inPacket.payload) with
  | none => some (none, inPacket)
  | some ((srcNode, payLoadSize), rb) =>
    if rb.remainBufSize < payLoadSize then some (none, inPacket)
    else do
      let bs ← copyOut inPacket.packet rb.returnPos.toNat payLoadSize.toNat
      let newPacket := (RealPacket.new ⟨0, 0, 0, 0⟩ payLoadSize).setPayLoad bs
      let inPacket ← inPacket.consume rb payLoadSize
      some (some (srcNode, newPacket), inPacket)

/-! ### What is done to the payload -/

variable {magic : UInt32} {p : PacketBuffer}

namespace PacketBuffer

@[simp] theorem length_payload (p : PacketBuffer) : p.payload.length = p.size := by
  have hlen := p.length_packet
  have hsize := p.size_le
  rw [payload, List.length_take]
  omega

theorem setPayLoadSize_of_le {n : ℕ} (hok : p.complete = true) (hn : n ≤ p.maxPacketSize.toNat)
    (hrange : n < 2 ^ 31) :
    (p.setPayLoadSize (UInt32.ofNat n)).toRealPacket =
      { p.toRealPacket with payload := p.packet.take n } := by
  have hword : (UInt32.ofNat n).toNat = n := by
    rw [UInt32.toNat_ofNat']
    omega
  have hfits : ¬ (toInt (UInt32.ofNat n) < 0 ∨ p.maxPacketSize < UInt32.ofNat n) := by
    rw [toInt_ofNat hrange, UInt32.lt_iff_toNat_lt, hword]
    omega
  simp only [setPayLoadSize, hok, Bool.not_true, Bool.false_eq_true, if_false, dif_neg hfits,
    toRealPacket, payload, hword]

/-- A move within the memory leaves everything but the bytes as it was. -/
theorem moveToFront_of_le (src count : ℕ) (h : src + count ≤ p.packet.length) :
    ∃ p', p.moveToFront src count = some p' ∧
      p'.packet.take count = (p.packet.drop src).take count ∧ p'.dest = p.dest ∧
      p'.complete = p.complete ∧ p'.maxPacketSize = p.maxPacketSize := by
  obtain ⟨mem', hmove, hfront⟩ := moveWithin_front h
  rw [moveToFront]
  split
  · rename_i hnone
    rw [hmove] at hnone
    exact absurd hnone (by simp)
  · rename_i packet hsome
    obtain rfl : mem' = packet := Option.some.inj (hmove.symm.trans hsome)
    exact ⟨_, rfl, hfront, rfl, rfl, rfl⟩

/-- The bytes of the payload from an offset on. -/
theorem payload_drop {bs tail : List UInt8} (hpay : p.payload = bs ++ tail) :
    (p.packet.drop bs.length).take tail.length = tail := by
  have hlen := congrArg List.length hpay
  rw [length_payload, List.length_append] at hlen
  have htail : tail = (p.packet.take p.size).drop bs.length := by
    rw [← payload, hpay, List.drop_left]
  rw [List.drop_take] at htail
  have hsize : p.size - bs.length = tail.length := by omega
  rw [hsize] at htail
  exact htail.symm

/-- **The bytes from an offset on are moved to the front.** -/
theorem consume_of_le (rb : BufferWrapper) (bs tail : List UInt8) (payLoadSize : UInt32)
    (hok : p.complete = true) (hrange : InRange p.payload)
    (hpay : p.payload = bs ++ tail) (hpos : rb.returnPos.toNat + payLoadSize.toNat = bs.length)
    (hremain : rb.remainBufSize.toNat = payLoadSize.toNat + tail.length) :
    ∃ p', p.consume rb payLoadSize = some p' ∧
      p'.toRealPacket = { p.toRealPacket with payload := tail } := by
  have hlen := congrArg List.length hpay
  rw [length_payload, List.length_append] at hlen
  rw [InRange, length_payload] at hrange
  have hsize := p.size_le
  have hpacket := p.length_packet
  rw [consume]
  by_cases htail : tail = []
  · subst htail
    rw [if_neg (by rw [UInt32.lt_iff_toNat_lt, hremain]; simp)]
    exact ⟨_, rfl, setPayLoadSize_of_le (n := 0) hok (Nat.zero_le _) (by decide)⟩
  · have hpos' := List.length_pos_iff.2 htail
    rw [if_pos (by rw [UInt32.lt_iff_toNat_lt, hremain]; omega)]
    have hsrc : (rb.returnPos + payLoadSize).toNat = bs.length := by
      rw [UInt32.toNat_add, hpos]
      omega
    have hcount : UInt32.ofNat p.size - (rb.returnPos + payLoadSize) = UInt32.ofNat tail.length := by
      rw [← UInt32.toNat_inj, UInt32.toNat_sub, hsrc, UInt32.toNat_ofNat', UInt32.toNat_ofNat']
      omega
    have htoNat : (UInt32.ofNat tail.length).toNat = tail.length := by
      rw [UInt32.toNat_ofNat']
      omega
    obtain ⟨p', hmove, hfront, hdest, hcomplete, hmax⟩ := moveToFront_of_le (p := p)
      bs.length tail.length (by omega)
    refine ⟨p'.setPayLoadSize (UInt32.ofNat tail.length), ?_, ?_⟩
    · simp only [hsrc, hcount, htoNat, hmove, Option.map_some]
    · have hset := setPayLoadSize_of_le (p := p') (n := tail.length) (hcomplete.trans hok)
        (by rw [hmax]; omega) (by omega)
      rw [hset, hfront, payload_drop hpay]
      simp only [toRealPacket, hdest, hcomplete, hmax]

end PacketBuffer

theorem PullPacket.consumes_header {buf : List UInt8} :
    Consumes (bufferCursor buf) (PullPacket.header magic) fun _ bs ↦ bs.length = 23 := by
  refine (consumes_parseStart PULL).field fun start ↦ consumes_getIdentValue.field fun src ↦ ?_
  refine Consumes.check_bind fun _ ↦ Consumes.done ?_
  simp

/-- Where the cursor is after the header. -/
theorem PullPacket.header_at {l : List UInt8} {a : NodeIdent × UInt32} {rb : BufferWrapper}
    (hrange : InRange l) (h : PullPacket.header magic (BufferWrapper.new l) = some (a, rb)) :
    ∃ front tail, l = front ++ tail ∧ rb = ⟨false, l, front.length⟩ := by
  have hok := (inferInstance : Strict (bufferCursor l) (PullPacket.header magic)).out _ _ _ h
  obtain ⟨-, tail, -, -, -, front, hsplit, hrb⟩ :=
    PullPacket.consumes_header _ _ _ _ (at_new hrange) h hok
  exact ⟨front, tail, hsplit, hrb⟩

/-- What is read of a buffer whose header is accepted. -/
theorem PullPacket.parse_parser_of_header {front tail : List UInt8} {srcNode : NodeIdent}
    {payLoadSize : UInt32} (hrange : InRange (front ++ tail))
    (h : PullPacket.header magic (BufferWrapper.new (front ++ tail)) =
      some ((srcNode, payLoadSize), ⟨false, front ++ tail, front.length⟩)) :
    BufferWrapper.parse (PullPacket.parser magic) (front ++ tail) =
      if tail.length < payLoadSize.toNat then none
      else some (srcNode, tail.take payLoadSize.toNat, tail.drop payLoadSize.toNat) := by
  have hremaining : remaining ⟨false, front ++ tail, front.length⟩ =
      some (tail, ⟨false, front ++ tail, front.length⟩) :=
    @remaining_at (front ++ tail) _ _ ⟨hrange, front, rfl, rfl⟩
  rw [BufferWrapper.parse]
  change ((PullPacket.header magic (BufferWrapper.new (front ++ tail))).bind fun x ↦
    (remaining x.2).bind fun y ↦ (nullIf (y.1.length < x.1.2.toNat) y.2).bind fun z ↦
      some ((x.1.1, y.1.take x.1.2.toNat, y.1.drop x.1.2.toNat), z.2)).map Prod.fst = _
  rw [h, Option.bind_some, hremaining, Option.bind_some, BufferWrapper.nullIf, Lib.nullIf]
  by_cases hshort : tail.length < payLoadSize.toNat
  · simp [hshort]
  · simp [hshort]

/-- **The offsets are right.** `PullPacket::parse` never leaves the memory, and on the payload it does
what `PullPacket.parse` says. -/
theorem PullPacket.parseBuffer_eq (hok : p.complete = true) (hrange : InRange p.payload) :
    ∃ res p', PullPacket.parseBuffer magic p = some (res, p') ∧
      PullPacket.parse magic p.toRealPacket = (res, p'.toRealPacket) ∧ (res = none → p' = p) := by
  have hsize := p.length_payload
  have hpacket := p.length_packet
  have hle := p.size_le
  rw [PullPacket.parseBuffer, PullPacket.parse, show p.toRealPacket.payload = p.payload from rfl]
  rcases hheader : PullPacket.header magic (BufferWrapper.new p.payload) with
    - | ⟨⟨srcNode, len⟩, rb⟩
  · have hparse : BufferWrapper.parse (PullPacket.parser magic) p.payload = none := by
      change ((PullPacket.header magic (BufferWrapper.new p.payload)).bind _).map Prod.fst = none
      rw [hheader]
      rfl
    rw [hparse]
    exact ⟨none, p, rfl, rfl, fun _ ↦ rfl⟩
  · obtain ⟨front, tail, hsplit, rfl⟩ := PullPacket.header_at hrange hheader
    have hparse : BufferWrapper.parse (PullPacket.parser magic) p.payload =
        if tail.length < len.toNat then none
        else some (srcNode, tail.take len.toNat, tail.drop len.toNat) := by
      rw [hsplit] at hrange hheader ⊢
      exact PullPacket.parse_parser_of_header hrange hheader
    have hlen := congrArg List.length hsplit
    rw [hsize, List.length_append] at hlen
    rw [InRange, hsize] at hrange
    have hpos : (BufferWrapper.returnPos ⟨false, p.payload, front.length⟩).toNat = front.length := by
      rw [BufferWrapper.returnPos, Int.toNat_natCast, UInt32.toNat_ofNat']
      omega
    have hremain :
        (BufferWrapper.remainBufSize ⟨false, p.payload, front.length⟩).toNat = tail.length := by
      simp only [BufferWrapper.remainBufSize, BufferWrapper.bufSize, hsize, UInt32.toNat_ofNat']
      omega
    rw [hparse]
    by_cases hshort : tail.length < len.toNat
    · rw [if_pos hshort]
      simp only [UInt32.lt_iff_toNat_lt, hremain, if_pos hshort]
      exact ⟨none, p, rfl, rfl, fun _ ↦ rfl⟩
    · have htake : (tail.take len.toNat).length = len.toNat := by
        rw [List.length_take]
        omega
      have hcopy : copyOut p.packet front.length len.toNat = some (tail.take len.toNat) := by
        rw [copyOut_of_le (by omega)]
        conv_rhs => rw [← PacketBuffer.payload_drop hsplit]
        rw [List.take_take, Nat.min_eq_left (by omega)]
      obtain ⟨p', hconsume, hview⟩ := PacketBuffer.consume_of_le ⟨false, p.payload, front.length⟩
        (front ++ tail.take len.toNat) (tail.drop len.toNat) len hok
        (by rw [InRange, hsize]; exact hrange)
        (by rw [List.append_assoc, List.take_append_drop]; exact hsplit)
        (by rw [hpos, List.length_append, htake])
        (by rw [hremain, List.length_drop]; omega)
      rw [if_neg hshort]
      simp only [UInt32.lt_iff_toNat_lt, hremain, if_neg hshort, hpos, hcopy, hconsume]
      refine ⟨_, p', rfl, ?_, fun h ↦ absurd h (by simp)⟩
      have hrest : p.toRealPacket.setPayLoad (tail.drop len.toNat) = p'.toRealPacket := by
        rw [hview]
        refine RealPacket.setPayLoad_of_le hok ?_
        show (tail.drop len.toNat).length ≤ p.maxPacketSize.toNat
        rw [List.length_drop]
        omega
      rw [hrest, htake, UInt32.ofNat_toNat]

/-! ### Frames -/

/-- The PULL packet that carries a payload. -/
def PullFrame.pull (f : PullFrame) : PullPacket :=
  ⟨f.packet, f.srcNode.addr, f.srcNode.port, UInt32.ofNat f.payload.length⟩

/-- The bytes of a frame are what `createRealPacket` writes, and the payload after it. -/
theorem PullFrame.created (f : PullFrame) {dest : NodeIdent}
    (hle : (f.encode magic).length ≤ MAX_UDP_PACKET_SIZE.toNat) :
    RealPacket.withPayload (f.pull.createRealPacket magic (RealPacket.ofIdent dest)) f.payload =
      some ⟨⟨dest.addr, dest.port, 0, 0⟩, f.encode magic, true, MAX_UDP_PACKET_SIZE⟩ := by
  have hcap : MAX_UDP_PACKET_SIZE.toNat < 2 ^ 31 := by decide
  refine ((Wrote.writeId f.packet hcap).putIdentValue hcap
    (f.srcNode, UInt32.ofNat f.payload.length)).withPayload_of_le hcap ?_
  rwa [← List.length_append]

/-- **PULL frame extraction.** A frame of at most `MAX_UDP_PACKET_SIZE` bytes is what the sender puts
on the wire. If the receive buffer begins with it, its payload and its source are returned and what
follows it is at the front; if the buffer holds a strict prefix of it, nothing happens. -/
theorem frame_extracted (magic : UInt32) (f : PullFrame) (dest : NodeIdent)
    (hle : (f.encode magic).length ≤ MAX_UDP_PACKET_SIZE.toNat) :
    ∃ frame, RealPacket.withPayload
        (f.pull.createRealPacket magic (RealPacket.ofIdent dest)) f.payload = some frame ∧
      ∀ p : PacketBuffer, p.complete = true → InRange p.payload →
        (∀ rest, p.payload = frame.payload ++ rest →
          ∃ newPacket p', PullPacket.parseBuffer magic p = some (some (f.srcNode, newPacket), p') ∧
            newPacket.payload = f.payload ∧ p'.packet.take p'.size = rest ∧
            p'.size = rest.length ∧ p'.complete = true ∧ p'.dest = p.dest ∧
            p'.maxPacketSize = p.maxPacketSize) ∧
        (p.payload <+: frame.payload → p.payload ≠ frame.payload →
          PullPacket.parseBuffer magic p = some (none, p)) := by
  refine ⟨_, f.created hle, fun p hok hrange ↦ ?_⟩
  obtain ⟨res, p', hbuffer, hparse, hnull⟩ := @PullPacket.parseBuffer_eq magic p hok hrange
  constructor
  · intro rest hpay
    have hcap : p.payload.length ≤ p.maxPacketSize.toNat := p.length_payload.trans_le p.size_le
    have hframe : PullPacket.parse magic p.toRealPacket =
        (some (f.srcNode, extracted f.payload), { p.toRealPacket with payload := rest }) :=
      PullPacket.parse_frame f hok hpay hrange hcap
    obtain ⟨rfl, hview⟩ := Prod.mk.inj (hparse.symm.trans hframe)
    have hrest : p'.payload = rest := congrArg RealPacket.payload hview
    exact ⟨_, p', hbuffer, rfl, hrest, by rw [← p'.length_payload, hrest],
      (congrArg RealPacket.complete hview).trans hok, congrArg RealPacket.dest hview,
      congrArg RealPacket.maxPacketSize hview⟩
  · intro hpre hne
    have hshort : f.payload.length < 2 ^ 32 := by
      rw [f.length_encode, maxUdp_toNat] at hle
      omega
    have hnone : PullPacket.parse magic p.toRealPacket = (none, p.toRealPacket) := by
      rw [PullPacket.parse, show p.toRealPacket.payload = p.payload from rfl,
        PullPacket.parse_parser_short f hrange hshort hpre hne]
    obtain ⟨rfl, -⟩ := Prod.mk.inj (hparse.symm.trans hnone)
    rw [hbuffer, hnull rfl]

/-- A packet that is full of these bytes. -/
def PacketBuffer.ofBytes (bs : List UInt8) (h : bs.length < 2 ^ 32) : PacketBuffer where
  dest := ⟨0, 0, 0, 0⟩
  packet := bs
  size := bs.length
  complete := true
  maxPacketSize := UInt32.ofNat bs.length
  length_packet := (UInt32.toNat_ofNat_of_lt' h).symm
  size_le := (UInt32.toNat_ofNat_of_lt' h).ge

/-- A frame with one byte of payload, and the first byte of the next one. -/
theorem frame_extracted_one :
    ∃ newPacket p', PullPacket.parseBuffer 0 (PacketBuffer.ofBytes
        ((PullFrame.mk (Packet.new 0) ⟨1, 2⟩ [7]).encode 0 ++ [9]) (by decide)) =
      some (some (⟨1, 2⟩, newPacket), p') ∧ newPacket.payload = [7] ∧
        p'.packet.take p'.size = [9] := by
  obtain ⟨frame, hframe, h⟩ :=
    frame_extracted 0 ⟨Packet.new 0, ⟨1, 2⟩, [7]⟩ ⟨0, 0⟩ (by decide)
  obtain rfl := Option.some.inj
    (hframe.symm.trans (PullFrame.created ⟨Packet.new 0, ⟨1, 2⟩, [7]⟩ (by decide)))
  have hfull : ∀ bs h, (PacketBuffer.ofBytes bs h).payload = bs := fun bs _ ↦ List.take_length
  obtain ⟨newPacket, p', hparse, hpay, hrest, -⟩ :=
    (h (PacketBuffer.ofBytes _ (by decide)) rfl
      (by rw [hfull, InRange]; decide)).1 [9] (hfull _ _)
  exact ⟨newPacket, p', hparse, hpay, hrest⟩

end Meridian

import Meridian.MQL.ValueCodec
import Meridian.Process.RpcRequest

/-!
# A program on its way over several nodes

Every node that runs a program may send it on: `createRealPacket` and `marshal_packet` write a
`DSL_REQUEST`, with a function and parameters of the thread's own choice, and `parse` at the next node
reads it into a new `ParserState`.

The name of the function has no terminator of its own. `set_func_string` takes the C string that
starts with it, and that ends with it because of what follows: the parameters begin with the high byte
of a type, which is 0 (`encode_eq_cons`).
-/

namespace Meridian

open Lib BufferWrapper MQL MQL.Value

variable {D : Type} {xdr : XdrDouble D} {magic : UInt32} {v : Value D}
  {compress : List UInt8 → Option (List UInt8)}
  {uncompress : ℕ → List UInt8 → Option (List UInt8)} {inputBuffer tmpCompBuf : List UInt8}

/-! ### Hops -/

/-- What a node sends to the next one, but for the program. -/
structure Hop (D : Type) where
  packet : DSLRequestPacket
  dest : NodeIdentRendv
  funcName : Str
  param : Value D

namespace Hop

/-- `createRealPacket` and `marshal_packet`. -/
def marshal (magic : UInt32) (compress : List UInt8 → Option (List UInt8)) (xdr : XdrDouble D)
    (inputBuffer : List UInt8) (hop : Hop D) : Option (Int × RealPacket) :=
  let res := hop.packet.createRealPacket magic (RealPacket.new hop.dest MAX_UDP_PACKET_SIZE)
  if res.1 = -1 then some res
  else marshalPacket compress xdr inputBuffer hop.funcName hop.param res.2

/-- A packet that has been written is parsed by the next node. -/
def forward (magic : UInt32) (compress : List UInt8 → Option (List UInt8))
    (uncompress : ℕ → List UInt8 → Option (List UInt8)) (xdr : XdrDouble D)
    (inputBuffer : List UInt8) (hop : Hop D) : Option (DSLRequestPacket × Program D) := do
  let (rc, p) ← hop.marshal magic compress xdr inputBuffer
  if rc = 0 then
    (DSLRequestPacket.parse magic xdr uncompress (newParserState p.payload)).map Prod.fst
  else none

/-- What the nodes parse, each of which sends on the program that it has parsed. -/
def forwardAll (magic : UInt32) (compress : List UInt8 → Option (List UInt8))
    (uncompress : ℕ → List UInt8 → Option (List UInt8)) (xdr : XdrDouble D) :
    List UInt8 → List (Hop D) → Option (List (DSLRequestPacket × Program D))
  | _, [] => some []
  | inputBuffer, hop :: hops => do
    let received ← hop.forward magic compress uncompress xdr inputBuffer
    let rest ← forwardAll magic compress uncompress xdr received.2.text hops
    some (received :: rest)

end Hop

/-! ### Writing -/

/-- The program and the name of the function on the wire. -/
def encodeProgram (inputBuffer tmpCompBuf : List UInt8) (funcName : Str) : List UInt8 :=
  net32 (UInt32.ofNat inputBuffer.length) ++ (encodeStr tmpCompBuf ++ encodeStr funcName)

/-- A `DSL_REQUEST` on the wire. -/
def Hop.encode (magic : UInt32) (xdr : XdrDouble D) (inputBuffer tmpCompBuf : List UInt8)
    (hop : Hop D) : List UInt8 :=
  hop.packet.encode magic ++
    (encodeProgram inputBuffer tmpCompBuf hop.funcName ++ hop.param.encode xdr)

/-- The packet has room for the request. -/
def Hop.Fits (magic : UInt32) (compress : List UInt8 → Option (List UInt8)) (xdr : XdrDouble D)
    (inputBuffer : List UInt8) (hop : Hop D) : Prop :=
  ∀ tmpCompBuf, compress inputBuffer = some tmpCompBuf →
    (hop.encode magic xdr inputBuffer tmpCompBuf).length ≤ MAX_UDP_PACKET_SIZE.toNat

theorem wrote_appendProgram {cap : UInt32} {dest : NodeIdentRendv} {bs : List UInt8}
    {p : RealPacket} {funcName : Str} (inputBuffer : List UInt8) (h : Wrote cap dest bs p)
    (hcap : cap.toNat < 2 ^ 31)
    (hcomp : tmpCompBuf.length < 2 ^ 31) (hname : funcName.length < 2 ^ 31) :
    Wrote cap dest (bs ++ encodeProgram inputBuffer tmpCompBuf funcName)
      (appendProgram inputBuffer tmpCompBuf funcName p) := by
  rw [encodeProgram, ← List.append_assoc, ← List.append_assoc]
  exact wrote_str (wrote_str (h.appendUint hcap _) hcap hcomp) hcap hname

/-- **The bytes of a request**, if it fits. -/
theorem Hop.marshal_written {hop : Hop D} (hparam : hop.param.Sendable)
    (hcomp : compress inputBuffer = some tmpCompBuf)
    (hlen : (hop.encode magic xdr inputBuffer tmpCompBuf).length ≤ MAX_UDP_PACKET_SIZE.toNat) :
    ∃ p, hop.marshal magic compress xdr inputBuffer = some (0, p) ∧
      p.payload = hop.encode magic xdr inputBuffer tmpCompBuf := by
  have hcap : MAX_UDP_PACKET_SIZE.toNat < 2 ^ 31 := by decide
  obtain ⟨p₀, hp₀, hwrote⟩ := hop.packet.createRealPacket_eq hop.dest magic hcap
  rw [encode, ← List.append_assoc] at hlen ⊢
  have hshort : tmpCompBuf.length ≤ MAX_UDP_PACKET_SIZE.toNat ∧
      hop.funcName.length ≤ MAX_UDP_PACKET_SIZE.toNat := by
    simp only [encodeProgram, encodeStr, List.length_append] at hlen
    omega
  have hprogram := wrote_appendProgram inputBuffer hwrote hcap
    (hshort.1.trans_lt hcap) (hshort.2.trans_lt hcap)
  obtain ⟨p, hp, hwrote'⟩ := wrote_marshalAst hcap hop.param hparam hprogram hlen
  have hcomplete := (hprogram.fits (by rw [List.length_append] at hlen; omega)).1
  refine ⟨p, ?_, (hwrote'.fits hlen).2⟩
  rw [marshal, hp₀, hwrote.result_of_le (by rw [hop.packet.length_encode]; decide)]
  -- the header has been written whole
  show marshalPacket compress xdr inputBuffer hop.funcName hop.param p₀ = some (0, p)
  simp only [marshalPacket, hcomp, hcomplete, Bool.not_true, Bool.false_eq_true, if_false, hp,
    Option.map_some]
  rfl

/-- Without a compressed program there is no request. -/
theorem Hop.compress_of_marshal {hop : Hop D} {p : RealPacket}
    (h : hop.marshal magic compress xdr inputBuffer = some (0, p)) :
    ∃ tmpCompBuf, compress inputBuffer = some tmpCompBuf := by
  refine Option.ne_none_iff_exists'.1 fun hnone ↦ ?_
  rw [marshal] at h
  split at h
  · rename_i hrc
    rw [Option.some.inj h] at hrc
    exact absurd (show (0 : Int) = -1 from hrc) (by decide)
  · rw [marshalPacket, hnone] at h
    exact absurd (show (-1 : Int) = 0 from congrArg Prod.fst (Option.some.inj h)) (by decide)

/-! ### Reading -/

/-- The parameters begin with a NUL. -/
theorem encode_eq_cons (h : v.Sendable) (xdr : XdrDouble D) : ∃ bs, v.encode xdr = 0 :: bs := by
  cases v with
  | other type => exact absurd h (by simp [Sendable, Marshallable])
  | _ => exact ⟨_, rfl⟩

theorem cString_of_at {buf name tail : List UInt8} {bw : BufferWrapper} (hname : 0 ∉ name)
    (h : (bufferCursor buf).At bw (name ++ 0 :: tail)) : cString bw = name := by
  obtain ⟨-, front, rfl, rfl⟩ := h
  have hpos : ∀ c ∈ name, decide (c ≠ 0) = true :=
    fun c hc ↦ decide_eq_true fun h0 ↦ hname (h0 ▸ hc)
  rw [cString, Int.toNat_natCast, List.drop_left, List.takeWhile_append_of_pos hpos,
    List.takeWhile_cons_of_neg (by decide), List.append_nil]

/-- **The name of a function** is read if a NUL follows it. -/
theorem Decodes.retrieveName {β : Type} {f : Option Str → Parser UnmarshalState β} {name : Str}
    {bs : List UInt8} {b : β} {n : ℕ} (hname : 0 ∉ name)
    (hf : Decodes (f (some name)) (0 :: bs) b n) :
    Decodes (retrieveName (UInt32.ofNat name.length) >>= f) (name ++ 0 :: bs) b n := by
  intro buf s tail hat hcost
  rw [List.append_assoc, List.cons_append] at hat
  obtain ⟨s₁, h₁, hat₁, hc₁⟩ := Decodes.retrieveStr name buf s _ hat (by omega)
  obtain ⟨s₂, h₂, hat₂, hc₂⟩ := hf buf s₁ tail hat₁ (by omega)
  refine ⟨s₂, bind_eq_some.2 ⟨some name, s₁, ?_, h₂⟩, hat₂, by omega⟩
  rw [Meridian.retrieveName, h₁, ← cString_of_at hname hat]
  rfl

theorem decodes_unmarshalPacket {funcName : Str} (xdr : XdrDouble D)
    (hsize : inputBuffer.length ≤ MAX_PROGRAM_SIZE)
    (hzlib : uncompress inputBuffer.length tmpCompBuf = some inputBuffer) (hname : 0 ∉ funcName)
    (hv : v.Sendable) (hnodes : v.nodes ≤ MAX_AST_PER_STACK) :
    Decodes (unmarshalPacket xdr uncompress)
      (encodeProgram inputBuffer tmpCompBuf funcName ++ v.encode xdr)
      ⟨inputBuffer, funcName, v⟩ v.nodes := by
  have hprog : (UInt32.ofNat inputBuffer.length).toNat = inputBuffer.length := by
    rw [MAX_PROGRAM_SIZE] at hsize
    exact UInt32.toNat_ofNat_of_lt' (show inputBuffer.length < 2 ^ 32 by omega)
  obtain ⟨bs, hbs⟩ := encode_eq_cons hv xdr
  rw [encodeProgram, encodeStr, encodeStr, List.append_assoc, List.append_assoc, List.append_assoc,
    List.append_assoc, ← Nat.zero_add v.nodes]
  refine (Decodes.netUint _).bind ?_
  rw [hprog, if_neg (Nat.not_lt.2 hsize), ← Nat.zero_add v.nodes]
  refine (Decodes.netUint _).bind ?_
  rw [← Nat.zero_add v.nodes]
  refine (Decodes.retrieveStr tmpCompBuf).bind ?_
  rw [← Nat.zero_add v.nodes]
  refine (Decodes.netUint _).bind ?_
  rw [hbs]
  refine Decodes.retrieveName hname ?_
  rw [← hbs]
  refine (decodes_unmarshalFuel v _ hv (by omega)).bind_done ?_
  rw [hzlib]
  exact Decodes.done _

/-- **A request is parsed** into what it has been made from. -/
theorem Hop.decodes_parse {hop : Hop D} (magic : UInt32) (xdr : XdrDouble D)
    (hsize : inputBuffer.length ≤ MAX_PROGRAM_SIZE)
    (hzlib : uncompress inputBuffer.length tmpCompBuf = some inputBuffer)
    (hname : 0 ∉ hop.funcName) (hv : hop.param.Sendable)
    (hnodes : hop.param.nodes ≤ MAX_AST_PER_STACK) :
    Decodes (DSLRequestPacket.parse magic xdr uncompress)
      (hop.encode magic xdr inputBuffer tmpCompBuf)
      (hop.packet, ⟨inputBuffer, hop.funcName, hop.param⟩) hop.param.nodes := by
  rw [DSLRequestPacket.parse_eq, encode, ← Nat.zero_add hop.param.nodes]
  refine (Decodes.onBuffer fun _ ↦ DSLRequestPacket.reads_header hop.packet).bind ?_
  refine (decodes_unmarshalPacket xdr hsize hzlib hname hv hnodes).bind_done ?_
  refine Decodes.silent (Decodes.onBuffer fun buf ↦ Reads.check (bufferCursor buf) rfl) ?_
  exact Decodes.done _

/-! ### Any number of hops -/

/-- What a request has to be: it can be sent, and `createRealPacket` and `marshal_packet` have
returned 0. -/
structure Hop.Sent (magic : UInt32) (compress : List UInt8 → Option (List UInt8))
    (xdr : XdrDouble D) (inputBuffer : List UInt8) (hop : Hop D) : Prop where
  name : 0 ∉ hop.funcName
  param : hop.param.Sendable
  returned : ∃ p, hop.marshal magic compress xdr inputBuffer = some (0, p)
  fits : hop.Fits magic compress xdr inputBuffer

/-- **A request survives the round trip.** -/
theorem Hop.Sent.forward {hop : Hop D} (h : hop.Sent magic compress xdr inputBuffer)
    (hzlib : ∀ tmpCompBuf, compress inputBuffer = some tmpCompBuf →
      uncompress inputBuffer.length tmpCompBuf = some inputBuffer)
    (hsize : inputBuffer.length ≤ MAX_PROGRAM_SIZE) :
    hop.forward magic compress uncompress xdr inputBuffer =
      some (hop.packet, ⟨inputBuffer, hop.funcName, hop.param⟩) := by
  obtain ⟨_, hreturned⟩ := h.returned
  obtain ⟨tmpCompBuf, hcomp⟩ := Hop.compress_of_marshal hreturned
  have hlen := h.fits tmpCompBuf hcomp
  obtain ⟨p, hp, hpayload⟩ := Hop.marshal_written h.param hcomp hlen
  have hnodes : hop.param.nodes ≤ (hop.param.encode xdr).length := Sendable.nodes_le h.param xdr
  have hmax : MAX_UDP_PACKET_SIZE.toNat + 3 ≤ MAX_AST_PER_STACK := by decide
  have hrange : InRange (hop.encode magic xdr inputBuffer tmpCompBuf) :=
    (Nat.add_le_add_right hlen 8).trans_lt (by decide)
  rw [Hop.encode, List.length_append, List.length_append] at hlen
  have hparse := Hop.decodes_parse magic xdr hsize (hzlib _ hcomp) h.name
    h.param (by omega) _ (newParserState p.payload) [] (by
      rw [hpayload, List.append_nil]
      exact at_new hrange) (show 3 + _ ≤ _ by omega)
  obtain ⟨s', hs', -, -⟩ := hparse
  rw [Hop.forward, hp]
  show (DSLRequestPacket.parse magic xdr uncompress (newParserState p.payload)).map Prod.fst = _
  rw [hs']
  rfl

/-- **A program on its way.** Every node parses the request that it has been sent, and the program in
it is the one that the first node has sent, however many have sent it on. -/
theorem Hop.forwardAll_eq_map (hops : List (Hop D))
    (hzlib : ∀ tmpCompBuf, compress inputBuffer = some tmpCompBuf →
      uncompress inputBuffer.length tmpCompBuf = some inputBuffer)
    (hsize : inputBuffer.length ≤ MAX_PROGRAM_SIZE)
    (hsent : ∀ hop ∈ hops, hop.Sent magic compress xdr inputBuffer) :
    forwardAll magic compress uncompress xdr inputBuffer hops =
      some (hops.map fun hop ↦ (hop.packet, ⟨inputBuffer, hop.funcName, hop.param⟩)) := by
  induction hops with
  | nil => rfl
  | cons hop hops ih =>
    have hforward := (hsent hop (List.mem_cons_self ..)).forward hzlib hsize
    have hrest := ih fun hop' hmem ↦ hsent hop' (List.mem_cons_of_mem _ hmem)
    rw [forwardAll, hforward]
    show (forwardAll magic compress uncompress xdr inputBuffer hops).bind _ = _
    rw [hrest]
    rfl

/-- What can be sent, if the program is compressed. -/
theorem Hop.sent_of_compress {hop : Hop D} (hname : 0 ∉ hop.funcName)
    (hparam : hop.param.Sendable) (hcomp : compress inputBuffer = some tmpCompBuf)
    (hlen : (hop.encode magic xdr inputBuffer tmpCompBuf).length ≤ MAX_UDP_PACKET_SIZE.toNat) :
    hop.Sent magic compress xdr inputBuffer where
  name := hname
  param := hparam
  returned := by
    obtain ⟨p, hp, -⟩ := Hop.marshal_written hparam hcomp hlen
    exact ⟨p, hp⟩
  fits tmpCompBuf' h := Option.some.inj (hcomp.symm.trans h) ▸ hlen

/-- `int main() { return 1; }`, as zlib compresses it, over two hops. -/
theorem Hop.forwardAll_two_hops :
    let text : List UInt8 := [105, 110, 116, 32, 109, 97, 105, 110, 40, 41, 32, 123, 32, 114, 101,
      116, 117, 114, 110, 32, 49, 59, 32, 125]
    let comp : List UInt8 := [120, 156, 203, 204, 43, 81, 200, 77, 204, 204, 211, 208, 84, 168, 86,
      40, 74, 45, 41, 45, 202, 83, 48, 180, 86, 168, 5, 0, 102, 79, 7, 230]
    let hops : List (Hop UInt64) := [
      ⟨⟨⟨Packet.new 5, 0, 0⟩, 5000, 3⟩, ⟨1, 80, 0, 0⟩, [109, 97, 105, 110], .sep [.int 7]⟩,
      ⟨⟨⟨Packet.new 6, 9, 90⟩, 4000, 2⟩, ⟨2, 80, 0, 0⟩, [102], .empty⟩]
    forwardAll 7 (fun buf ↦ if buf = text then some comp else none)
      (fun size buf ↦ if buf = comp ∧ size = text.length then some text else none) bitsXdr text
      hops = some (hops.map fun hop ↦ (hop.packet, ⟨text, hop.funcName, hop.param⟩)) := by
  intro text comp hops
  have hcomp : (fun buf ↦ if buf = text then some comp else none) text = some comp := if_pos rfl
  refine Hop.forwardAll_eq_map hops (fun tmpCompBuf h ↦ ?_) (by decide) fun hop hmem ↦ ?_
  · exact if_pos ⟨(Option.some.inj (hcomp.symm.trans h)).symm, rfl⟩
  · rcases List.mem_pair.1 hmem with rfl | rfl
    · refine Hop.sent_of_compress (by decide) (Or.inr ⟨trivial, trivial⟩) hcomp ?_
      rw [Hop.encode, List.length_append, DSLRequestPacket.length_encode]
      decide
    · exact Hop.sent_of_compress (by decide) (Or.inl rfl) hcomp (by decide)

end Meridian

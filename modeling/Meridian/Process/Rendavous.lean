import Meridian.Marshal.Tunnel
import Meridian.Lib.Framing
import Meridian.Lib.Run

/-!
# The receiving end of the tunnel

`handleRendavous` on a node behind a firewall: what has been received goes to the end of
`g_rendvRecvPacket`, and then **one** PULL packet is taken off its front and handed on.

A chunk that completes two frames therefore leaves the second one in the buffer until the next chunk
comes. `handleRendavous_safe` is what holds for every chunking: what has been handed on is a prefix of
what has arrived, and the buffer has the rest. `rendavous_delivered_iff` says for which chunkings
nothing that has arrived is left behind.
-/

namespace Meridian

open Lib BufferWrapper

/-- What `handleRendavous` reads and writes on a firewalled node: whether `g_rendvFD` is open,
`g_rendvRecvPacket`, and every packet that has been given to `handleNewPacket`. -/
structure RendvClient where
  connected : Bool
  recvPacket : RealPacket
  handed : List (NodeIdent × List UInt8)
  deriving DecidableEq, Repr

/-- The state after the connection to the rendavous has been made. -/
def RendvClient.start : RendvClient := ⟨true, RealPacket.ofIdent ⟨0, 0⟩, []⟩

/-- `handleRendavous` when `recv` has put these bytes into the free space of the buffer; no bytes
stand for a closed connection or an error. It is not called for a closed connection, and `recv`
returns no more than there is room for. -/
def handleRendavous (magic : UInt32) (s : RendvClient) (received : List UInt8) :
    Option RendvClient :=
  if !s.connected ||
      s.recvPacket.maxPacketSize.toNat - s.recvPacket.payload.length < received.length then none
  else if received = [] then some { s with connected := false }
  else
    let recvPacket := s.recvPacket.setPayLoad (s.recvPacket.payload ++ received)
    match PullPacket.parse magic recvPacket with
    | (none, recvPacket) => some { s with recvPacket := recvPacket }
    | (some (srcNode, newPacket), recvPacket) =>
      some { s with
        recvPacket := recvPacket
        handed := s.handed ++ [(srcNode, newPacket.payload)] }

/-! ### Frames -/

/-- What `handleNewPacket` gets of a frame. -/
def PullFrame.content (f : PullFrame) : NodeIdent × List UInt8 := (f.srcNode, f.payload)

variable {magic : UInt32}

/-- The first frame of a buffer, and the bytes after it. -/
def nextFrame (magic : UInt32) (buf : List UInt8) :
    Option ((NodeIdent × List UInt8) × List UInt8) :=
  (BufferWrapper.parse (PullPacket.parser magic) buf).map fun r ↦ ((r.1, r.2.1), r.2.2)

/-- **`PullPacket::parse` takes the stream apart as its frames were put together.** -/
theorem unframes_nextFrame (magic : UInt32) :
    Unframes (PullFrame.encode magic) PullFrame.content MAX_UDP_PACKET_SIZE.toNat
      (nextFrame magic) where
  whole := by
    intro f rest hcap
    rw [maxUdp_toNat] at hcap
    have hrange : InRange (f.encode magic ++ rest) := by
      rw [InRange]
      omega
    rw [nextFrame, PullPacket.parse_parser f hrange, Option.map_some]
    rfl
  short := by
    intro f l hcap hpre hne
    rw [maxUdp_toNat, f.length_encode] at hcap
    have hlen := hpre.length_le
    rw [f.length_encode] at hlen
    have hrange : InRange l := by
      rw [InRange]
      omega
    rw [nextFrame, PullPacket.parse_parser_short f hrange (by omega) hpre hne, Option.map_none]
  empty := by
    have hnone : BufferWrapper.parse (PullPacket.parser magic) [] = none :=
      PullPacket.parse_parser_short ⟨⟨0, 0⟩, ⟨0, 0⟩, []⟩ (show 0 + 8 < 2 ^ 31 by decide)
        (by decide) List.nil_prefix (by simp [PullFrame.encode, Packet.encode])
    rw [nextFrame, hnone, Option.map_none]

/-! ### One chunk -/

/-- The state of a client that has received `n` bytes of the stream of these frames and has handed
on the first `k` of them. -/
structure RendvClient.Kept (magic : UInt32) (frames : List PullFrame) (n k : ℕ) (s : RendvClient) :
    Prop where
  connected : s.connected = true
  complete : s.recvPacket.complete = true
  capacity : s.recvPacket.maxPacketSize = MAX_UDP_PACKET_SIZE
  handed : s.handed = (frames.take k).map PullFrame.content
  buffer : Behind (PullFrame.encode magic) frames n k s.recvPacket.payload

variable {frames : List PullFrame} {n k : ℕ} {s s' : RendvClient} {chunk : List UInt8}

theorem RendvClient.Kept.start : Kept magic frames 0 0 RendvClient.start :=
  ⟨rfl, rfl, rfl, by simp [RendvClient.start], Behind.start⟩

/-- A chunk that is processed has fitted, and the buffer is as if it had been there from the start. -/
theorem handleRendavous_of_kept (hs : s.Kept magic frames n k) (hne : chunk ≠ [])
    (h : handleRendavous magic s chunk = some s') :
    (s.recvPacket.payload ++ chunk).length ≤ MAX_UDP_PACKET_SIZE.toNat ∧
      (match PullPacket.parse magic
          { s.recvPacket with payload := s.recvPacket.payload ++ chunk } with
        | (none, p) => some { s with recvPacket := p }
        | (some (srcNode, newPacket), p) => some { s with
            recvPacket := p
            handed := s.handed ++ [(srcNode, newPacket.payload)] }) = some s' := by
  have hpos : 0 < chunk.length := List.length_pos_iff.2 hne
  rw [handleRendavous] at h
  split at h
  · exact absurd h (by simp)
  · rename_i hfit
    simp only [hs.connected, hs.capacity, Bool.not_true, Bool.false_or, decide_eq_true_eq,
      Nat.not_lt] at hfit
    have hlen : (s.recvPacket.payload ++ chunk).length ≤ MAX_UDP_PACKET_SIZE.toNat := by
      rw [List.length_append]
      omega
    have hset : s.recvPacket.setPayLoad (s.recvPacket.payload ++ chunk) =
        { s.recvPacket with payload := s.recvPacket.payload ++ chunk } :=
      RealPacket.setPayLoad_of_le hs.complete (by rw [hs.capacity]; exact hlen)
    dsimp only at h
    rw [hset] at h
    exact ⟨hlen, h⟩

/-- **One chunk.** If a frame is waiting then, the first such frame is handed on, and no other. -/
theorem RendvClient.Kept.step {rest : List UInt8}
    (hfits : ∀ f ∈ frames, (f.encode magic).length ≤ MAX_UDP_PACKET_SIZE.toNat)
    (hs : s.Kept magic frames n k) (hne : chunk ≠ [])
    (hstream : (frames.flatMap (PullFrame.encode magic)).drop n = chunk ++ rest)
    (h : handleRendavous magic s chunk = some s') :
    s'.Kept magic frames (n + chunk.length)
      (min (k + 1) (arrived (PullFrame.encode magic) frames (n + chunk.length))) := by
  obtain ⟨hlen, h⟩ := handleRendavous_of_kept hs hne h
  have hn : n ≤ (frames.flatMap (PullFrame.encode magic)).length := by
    have hdrop := congrArg List.length hstream
    have hpos : 0 < chunk.length := List.length_pos_iff.2 hne
    rw [List.length_drop, List.length_append] at hdrop
    omega
  have hbuf := hs.buffer.chunk hstream hn
  generalize n + chunk.length = m at hbuf ⊢
  rcases Nat.lt_or_ge k (arrived (PullFrame.encode magic) frames m) with hlt | hge
  · obtain ⟨hk, tail, hfront, -, hnext⟩ := hbuf.next_of_lt (unframes_nextFrame magic) hlt hlen
    have hparse : PullPacket.parse magic
        { s.recvPacket with payload := s.recvPacket.payload ++ chunk } =
          (some (frames[k].srcNode, extracted frames[k].payload),
            { s.recvPacket with payload := tail }) := by
      refine PullPacket.parse_frame frames[k] hs.complete hfront ?_ ?_
      · rw [maxUdp_toNat] at hlen
        show (s.recvPacket.payload ++ chunk).length + 8 < 2 ^ 31
        omega
      · show (s.recvPacket.payload ++ chunk).length ≤ s.recvPacket.maxPacketSize.toNat
        rw [hs.capacity]
        exact hlen
    rw [hparse, Option.some.injEq] at h
    subst h
    rw [Nat.min_eq_left hlt]
    refine ⟨hs.connected, hs.complete, hs.capacity, ?_, hnext⟩
    show s.handed ++ [frames[k].content] = _
    rw [hs.handed, List.take_add_one, List.getElem?_eq_getElem hk, List.map_append]
    rfl
  · have heq : k = arrived (PullFrame.encode magic) frames m := Nat.le_antisymm hbuf.le hge
    have hnone := hbuf.next_of_eq (unframes_nextFrame magic) heq hfits
    rw [nextFrame, Option.map_eq_none_iff] at hnone
    have hparse : PullPacket.parse magic
        { s.recvPacket with payload := s.recvPacket.payload ++ chunk } =
          (none, { s.recvPacket with payload := s.recvPacket.payload ++ chunk }) := by
      rw [PullPacket.parse, hnone]
    rw [hparse, Option.some.injEq] at h
    subst h
    rw [Nat.min_eq_right (by omega), ← heq]
    exact ⟨hs.connected, hs.complete, hs.capacity, hs.handed, hbuf⟩

/-! ### Every chunking -/

variable {chunks : List (List UInt8)}

section Chunks

variable (hfits : ∀ f ∈ frames, (f.encode magic).length ≤ MAX_UDP_PACKET_SIZE.toNat)
  (hne : ∀ c ∈ chunks, c ≠ [])
  (hstream : chunks.flatten = frames.flatMap (PullFrame.encode magic))
include hfits hne hstream

/-- The chunk after some others. -/
theorem RendvClient.Kept.next {pre post : List (List UInt8)} {c : List UInt8}
    (hpre : chunks = pre ++ c :: post) (hs : s.Kept magic frames pre.flatten.length k)
    (h : handleRendavous magic s c = some s') :
    s'.Kept magic frames (pre ++ [c]).flatten.length
      (min (k + 1) (arrived (PullFrame.encode magic) frames (pre ++ [c]).flatten.length)) := by
  have hrest : (frames.flatMap (PullFrame.encode magic)).drop pre.flatten.length =
      c ++ post.flatten := by
    rw [← hstream, hpre, List.flatten_append, List.drop_left' rfl]
    rfl
  have hmem : c ∈ chunks := by
    rw [hpre]
    exact List.mem_append_right _ (List.mem_cons_self ..)
  have hlen : (pre ++ [c]).flatten.length = pre.flatten.length + c.length := by simp
  rw [hlen]
  exact hs.step hfits (hne c hmem) hrest h

/-- **Safety.** Whatever the chunks, the packets handed on are the first ones of the stream, in
order, each once, and the buffer has the rest of what was received. -/
theorem handleRendavous_safe {pre post : List (List UInt8)} (hpre : chunks = pre ++ post)
    (hrun : run (handleRendavous magic) RendvClient.start pre = some s) :
    ∃ k, s.Kept magic frames pre.flatten.length k := by
  induction pre using List.reverseRecOn generalizing post s with
  | nil =>
    rw [run_nil, Option.some.injEq] at hrun
    exact ⟨0, hrun ▸ RendvClient.Kept.start⟩
  | append_singleton pre c ih =>
    rw [List.append_assoc] at hpre
    obtain ⟨u, hu, hc⟩ := exists_run_of_prefix hrun
    obtain ⟨s', hs', hlast⟩ := run_cons_eq_some.1 hc
    rw [run_nil, Option.some.injEq] at hlast
    obtain ⟨k, hk⟩ := ih hpre hu
    exact ⟨_, hlast ▸ hk.next hfits hne hstream hpre hs'⟩

end Chunks

/-- A client that has received `n` bytes has handed on every frame that is complete in them, and its
buffer holds the incomplete rest. -/
def RendvClient.CaughtUp (magic : UInt32) (frames : List PullFrame) (n : ℕ) (s : RendvClient) :
    Prop :=
  s.handed = (frames.take (arrived (PullFrame.encode magic) frames n)).map PullFrame.content ∧
    s.recvPacket.payload = ((frames.flatMap (PullFrame.encode magic)).take n).drop
      (offset (PullFrame.encode magic) frames (arrived (PullFrame.encode magic) frames n))

/-- Caught up is exactly what a client is that has taken every frame that has arrived. -/
theorem RendvClient.Kept.caughtUp_iff (hs : s.Kept magic frames n k) :
    s.CaughtUp magic frames n ↔ k = arrived (PullFrame.encode magic) frames n := by
  constructor
  · rintro ⟨hhanded, -⟩
    have hlen := congrArg List.length (hs.handed.symm.trans hhanded)
    have hk := hs.buffer.le
    have harr : arrived (PullFrame.encode magic) frames n ≤ frames.length := arrived_le_length
    rw [List.length_map, List.length_map, List.length_take, List.length_take] at hlen
    omega
  · rintro rfl
    exact ⟨hs.handed, hs.buffer.buf_eq⟩

/-- After each chunk the client has caught up. -/
def Delivered (magic : UInt32) (frames : List PullFrame) (chunks : List (List UInt8)) : Prop :=
  ∀ pre post s, chunks = pre ++ post →
    run (handleRendavous magic) RendvClient.start pre = some s →
    s.CaughtUp magic frames pre.flatten.length

/-- Each chunk completes at most one frame. -/
def OneFramePerChunk (magic : UInt32) (frames : List PullFrame) (chunks : List (List UInt8)) :
    Prop :=
  ∀ pre c post, chunks = pre ++ c :: post →
    arrived (PullFrame.encode magic) frames (pre ++ [c]).flatten.length ≤
      arrived (PullFrame.encode magic) frames pre.flatten.length + 1

section Delivery

variable (hfits : ∀ f ∈ frames, (f.encode magic).length ≤ MAX_UDP_PACKET_SIZE.toNat)
  (hne : ∀ c ∈ chunks, c ≠ [])
  (hstream : chunks.flatten = frames.flatMap (PullFrame.encode magic))
include hfits hne hstream

/-- A client that keeps up hands on one frame with each chunk at most, so no more has arrived. -/
theorem oneFramePerChunk_of_delivered
    (hrun : (run (handleRendavous magic) RendvClient.start chunks).isSome)
    (h : Delivered magic frames chunks) : OneFramePerChunk magic frames chunks := by
  intro pre c post hpre
  obtain ⟨t, ht⟩ := Option.isSome_iff_exists.1 hrun
  have hpre' : chunks = (pre ++ [c]) ++ post := by
    rw [hpre, List.append_assoc]
    rfl
  obtain ⟨u, hu, hc⟩ := exists_run_of_prefix (hpre ▸ ht)
  obtain ⟨v, hv, -⟩ := run_cons_eq_some.1 hc
  have hrun' : run (handleRendavous magic) RendvClient.start (pre ++ [c]) = some v := by
    rw [run_append, hu, Option.bind_some, run_cons, hv, Option.bind_some, run_nil]
  obtain ⟨k, hk⟩ := handleRendavous_safe hfits hne hstream hpre hu
  have hbefore : k = _ := hk.caughtUp_iff.1 (h pre (c :: post) u hpre hu)
  have hafter := (hk.next hfits hne hstream hpre hv).caughtUp_iff.1 (h _ post v hpre' hrun')
  omega

/-- **A client that gets one frame at a time keeps up**, by induction on the chunks. -/
theorem delivered_of_oneFramePerChunk (h : OneFramePerChunk magic frames chunks) :
    Delivered magic frames chunks := by
  intro pre post s hpre hrun
  induction pre using List.reverseRecOn generalizing post s with
  | nil =>
    rw [run_nil, Option.some.injEq] at hrun
    subst hrun
    refine RendvClient.Kept.start.caughtUp_iff.2 (arrived_zero_eq fun f _ hnil ↦ ?_).symm
    have hlen := congrArg List.length hnil
    rw [f.length_encode, List.length_nil] at hlen
    omega
  | append_singleton pre c ih =>
    rw [List.append_assoc] at hpre
    obtain ⟨u, hu, hc⟩ := exists_run_of_prefix hrun
    obtain ⟨v, hv, hlast⟩ := run_cons_eq_some.1 hc
    rw [run_nil, Option.some.injEq] at hlast
    obtain ⟨k, hk⟩ := handleRendavous_safe hfits hne hstream hpre hu
    have hbefore : k = _ := hk.caughtUp_iff.1 (ih _ u hpre hu)
    have hafter := hk.next hfits hne hstream hpre hv
    have hone := h pre c post hpre
    rw [← hlast]
    refine hafter.caughtUp_iff.2 (Nat.min_eq_right ?_)
    rw [hbefore]
    exact hone

end Delivery

/-- **Rendavous stream delivery.** After each chunk exactly the frames complete by then have been
handed on if and only if no chunk completes two of them. -/
theorem rendavous_delivered_iff (magic : UInt32) (frames : List PullFrame)
    (chunks : List (List UInt8))
    (hfits : ∀ f ∈ frames, (f.encode magic).length ≤ MAX_UDP_PACKET_SIZE.toNat)
    (hne : ∀ c ∈ chunks, c ≠ [])
    (hstream : chunks.flatten = frames.flatMap (PullFrame.encode magic))
    (hrun : (run (handleRendavous magic) RendvClient.start chunks).isSome) :
    Delivered magic frames chunks ↔ OneFramePerChunk magic frames chunks :=
  ⟨oneFramePerChunk_of_delivered hfits hne hstream hrun,
    delivered_of_oneFramePerChunk hfits hne hstream⟩

/-- A frame with a payload of one byte. -/
def byteFrame (b : UInt8) : PullFrame := ⟨⟨0, 0⟩, ⟨5, 6⟩, [b]⟩

/-- Two frames of 24 bytes in chunks of 10, 20 and 18. -/
def splitChunks : List (List UInt8) :=
  let stream := (byteFrame 1).encode 0 ++ (byteFrame 2).encode 0
  [stream.take 10, (stream.drop 10).take 20, stream.drop 30]

theorem splitChunks_oneFramePerChunk :
    OneFramePerChunk 0 [byteFrame 1, byteFrame 2] splitChunks := by
  intro pre c post h
  have hall : ∀ k < 3, arrived (PullFrame.encode 0) [byteFrame 1, byteFrame 2]
      (splitChunks.take (k + 1)).flatten.length ≤
        arrived (PullFrame.encode 0) [byteFrame 1, byteFrame 2]
          (splitChunks.take k).flatten.length + 1 := by decide +kernel
  have hpre : splitChunks.take pre.length = pre := by rw [h, List.take_left]
  have hc : splitChunks.take (pre.length + 1) = pre ++ [c] := by
    rw [h, List.append_cons, List.take_left' (by rw [List.length_append, List.length_singleton])]
  have hlen : 3 = pre.length + (post.length + 1) := by
    rw [← List.length_cons (a := c), ← List.length_append, ← h]
    rfl
  rw [← hc]
  nth_rewrite 2 [← hpre]
  exact hall _ (by omega)

/-- The first frame ends in the second chunk, and the second one begins there. -/
theorem rendavous_delivered_split : Delivered 0 [byteFrame 1, byteFrame 2] splitChunks :=
  (rendavous_delivered_iff 0 [byteFrame 1, byteFrame 2] splitChunks (by decide +kernel)
    (by decide +kernel) (by decide +kernel) (by decide +kernel)).2 splitChunks_oneFramePerChunk

/-- Two frames in one chunk: the second one stays in the buffer. -/
theorem rendavous_leaves_frame :
    ¬ ∀ (magic : UInt32) (frames : List PullFrame) (chunks : List (List UInt8)),
      (∀ f ∈ frames, (f.encode magic).length ≤ MAX_UDP_PACKET_SIZE.toNat) →
      (∀ c ∈ chunks, c ≠ []) →
      chunks.flatten = frames.flatMap (PullFrame.encode magic) →
      (run (handleRendavous magic) RendvClient.start chunks).isSome →
      Delivered magic frames chunks := by
  intro h
  have hall := h 0 [byteFrame 1, byteFrame 2]
    [(byteFrame 1).encode 0 ++ (byteFrame 2).encode 0] (by decide +kernel) (by decide +kernel)
    (by decide +kernel) (by decide +kernel)
  have hstate : run (handleRendavous 0) RendvClient.start
      [(byteFrame 1).encode 0 ++ (byteFrame 2).encode 0] =
        some ⟨true, { RealPacket.ofIdent ⟨0, 0⟩ with payload := (byteFrame 2).encode 0 },
          [(byteFrame 1).content]⟩ := by decide +kernel
  have hlast := hall _ [] _ (List.append_nil _).symm hstate
  exact absurd hlast.1 (by decide +kernel)

end Meridian

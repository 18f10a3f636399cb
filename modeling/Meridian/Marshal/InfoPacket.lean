import Meridian.RingSetInvariant
import Meridian.Marshal.RoundTrip

/-!
# The info packet

An `InfoPacket` is made of a `RingSet` and read into a map. The entries of all rings go into the
packet one after another, each with its ring number, and their count is written over a placeholder
afterwards; `parse` appends each entry to the vector of its ring. So it is the order within a ring
that has to survive, and the skipped members that must not be counted.

`parse` has no check in its loop. The error flag stays set, so one check after the loop is enough
for its result.
-/

namespace Meridian

open Lib BufferWrapper

/-- `MAX_INFO_PACKET_SIZE`. -/
def MAX_INFO_PACKET_SIZE : UInt32 := 65536

/-- The `map<u_int, vector<NodeIdentLat>*>` of `parse`. -/
abbrev InfoMap := Std.ExtTreeMap UInt32 (List NodeIdentLat)

namespace InfoPacket

/-- One member in the loops of `createRealPacket`, with `numMembers`: a member without a latency is
skipped. -/
def putMember (rings : RingSet) (i : Fin MAX_NUM_RINGS) (s : RealPacket × UInt32)
    (tmp : NodeIdent) : RealPacket × UInt32 :=
  match rings.nodeLatencyUS[tmp]? with
  | none => s
  | some latencyUS =>
    (putIdentValue (s.1.appendUint (htonl (UInt32.ofNat i))) tmp latencyUS, s.2 + 1)

/-- One ring. -/
def putRing (rings : RingSet) (s : RealPacket × UInt32) (i : Fin MAX_NUM_RINGS) :
    RealPacket × UInt32 :=
  if 0 < (rings.primaryRing i).length then (rings.primaryRing i).foldl (putMember rings i) s else s

/-- `memcpy` into a payload. -/
def overwrite (payload : List UInt8) (pos : ℕ) (bs : List UInt8) : List UInt8 :=
  payload.take pos ++ bs ++ payload.drop (pos + bs.length)

/-- `createRealPacket`. -/
def createRealPacket (magic : UInt32) (pkt : Packet) (rings : RingSet) (p : RealPacket) :
    Int × RealPacket :=
  let p := p.appendChar INFO_PACKET
  let p := pkt.writeId magic p
  let dummyPos := p.payload.length
  let p := p.appendUint 0
  let (p, numMembers) := (List.finRange MAX_NUM_RINGS).foldl (putRing rings) (p, 0)
  if !p.complete then (-1, p)
  else (0, { p with payload := overwrite p.payload dummyPos (le32 (htonl numMembers)) })

/-- An entry: the ring, and the member with its latency. -/
def getMember : Parser BufferWrapper (UInt32 × NodeIdentLat) := do
  let inRing ← retrieveNetUint
  let tmpNode ← getIdentValue
  pure (inRing, latEntry tmpNode)

/-- An entry comes into the map. -/
def addMember (inMap : InfoMap) (e : UInt32 × NodeIdentLat) : InfoMap :=
  match inMap[e.1]? with
  | none => inMap.insert e.1 [e.2]
  | some nodes => inMap.insert e.1 (nodes ++ [e.2])

/-- The loop of `parse`. -/
def readMembers : ℕ → InfoMap → Parser BufferWrapper InfoMap
  | 0, inMap => pure inMap
  | numMembers + 1, inMap => do
    let e ← getMember
    readMembers numMembers (addMember inMap e)

/-- What `parse` reads. It fails where the source returns -1 and clears the map. -/
def parser (magic : UInt32) : Parser BufferWrapper InfoMap := do
  let start ← Packet.parseStart INFO_PACKET
  nullIf (start.2 != magic)
  let numMembers ← retrieveNetUint
  let inMap ← readMembers numMembers.toNat ∅
  nullIf false
  pure inMap

/-- `parse`, with its return value. -/
def parse (magic : UInt32) (buf : List UInt8) (inMap : InfoMap) : Int × InfoMap :=
  if 0 < inMap.size then (-1, inMap)
  else
    match BufferWrapper.parse (parser magic) buf with
    | none => (-1, ∅)
    | some inMap => (0, inMap)

/-! ### What is written -/

/-- The entries of a ring. -/
def ringEntries (rings : RingSet) (i : Fin MAX_NUM_RINGS) : List (UInt32 × NodeIdentLat) :=
  (rings.primaryRing i).filterMap fun n ↦
    (rings.nodeLatencyUS[n]?).map fun latencyUS ↦ (UInt32.ofNat i, ⟨n.addr, n.port, latencyUS⟩)

/-- The entries of all rings. -/
def entriesOf (rings : RingSet) : List (UInt32 × NodeIdentLat) :=
  (List.finRange MAX_NUM_RINGS).flatMap (ringEntries rings)

/-- An entry on the wire. -/
def encodeEntry (e : UInt32 × NodeIdentLat) : List UInt8 :=
  net32 e.1 ++ encodeIdentValue (e.2.ident, e.2.latencyUS)

/-- An info packet on the wire. -/
def encode (magic : UInt32) (pkt : Packet) (es : List (UInt32 × NodeIdentLat)) : List UInt8 :=
  pkt.encode magic INFO_PACKET ++ encodeEntries encodeEntry es

@[simp] theorem length_encodeEntry (e : UInt32 × NodeIdentLat) : (encodeEntry e).length = 14 := by
  simp [encodeEntry]

theorem length_encode (magic : UInt32) (pkt : Packet) (es : List (UInt32 × NodeIdentLat)) :
    (encode magic pkt es).length = 17 + 14 * es.length := by
  rw [encode, List.length_append, length_encode_packet, length_encodeEntries length_encodeEntry]
  omega

/-- An entry is appended. -/
def putEntry (p : RealPacket) (e : UInt32 × NodeIdentLat) : RealPacket :=
  putIdentValue (p.appendUint (htonl e.1)) e.2.ident e.2.latencyUS

variable {magic cap : UInt32} {dest : NodeIdentRendv} {rings : RingSet} {buf bs : List UInt8}
  {p : RealPacket}

/-- A ring puts its entries and counts them. -/
theorem foldl_putMember (i : Fin MAX_NUM_RINGS) (members : List NodeIdent) (numMembers : UInt32) :
    members.foldl (putMember rings i) (p, numMembers) =
      let es := members.filterMap fun n ↦ (rings.nodeLatencyUS[n]?).map fun latencyUS ↦
        (UInt32.ofNat i, (⟨n.addr, n.port, latencyUS⟩ : NodeIdentLat))
      (es.foldl putEntry p, numMembers + UInt32.ofNat es.length) := by
  induction members generalizing p numMembers with
  | nil =>
    show (p, numMembers) = (p, numMembers + 0)
    rw [UInt32.add_zero]
  | cons n members ih =>
    rw [List.foldl_cons, putMember, List.filterMap_cons]
    cases rings.nodeLatencyUS[n]? with
    | none => exact ih numMembers
    | some latencyUS =>
      refine (ih (numMembers + 1)).trans (Prod.ext rfl ?_)
      show numMembers + 1 + _ = numMembers + UInt32.ofNat (_ + 1)
      rw [UInt32.ofNat_add, UInt32.add_assoc, UInt32.add_comm 1]
      rfl

theorem putRing_eq (i : Fin MAX_NUM_RINGS) (numMembers : UInt32) :
    putRing rings (p, numMembers) i = ((ringEntries rings i).foldl putEntry p,
      numMembers + UInt32.ofNat (ringEntries rings i).length) := by
  rw [putRing]
  split
  · exact foldl_putMember i _ numMembers
  · next h =>
    have hnil : rings.primaryRing i = [] := List.length_eq_zero_iff.1 (Nat.eq_zero_of_not_pos h)
    rw [ringEntries, hnil]
    show (p, numMembers) = (p, numMembers + 0)
    rw [UInt32.add_zero]

/-- **The loops put all entries and count them.** -/
theorem foldl_putRing (is : List (Fin MAX_NUM_RINGS)) (numMembers : UInt32) :
    is.foldl (putRing rings) (p, numMembers) =
      ((is.flatMap (ringEntries rings)).foldl putEntry p,
        numMembers + UInt32.ofNat (is.flatMap (ringEntries rings)).length) := by
  induction is generalizing p numMembers with
  | nil =>
    show (p, numMembers) = (p, numMembers + 0)
    rw [UInt32.add_zero]
  | cons i is ih =>
    rw [List.foldl_cons, putRing_eq, ih, List.flatMap_cons, List.foldl_append, List.length_append,
      UInt32.ofNat_add, UInt32.add_assoc]

theorem wrote_putEntry (hcap : cap.toNat < 2 ^ 31) (e : UInt32 × NodeIdentLat)
    (h : Wrote cap dest bs p) : Wrote cap dest (bs ++ encodeEntry e) (putEntry p e) := by
  have h := (h.appendUint hcap (htonl e.1)).putIdentValue hcap (e.2.ident, e.2.latencyUS)
  rwa [List.append_assoc] at h

/-- The count over its placeholder. -/
theorem overwrite_count (header tail : List UInt8) (n : UInt32) :
    overwrite (header ++ le32 0 ++ tail) header.length (le32 n) = header ++ le32 n ++ tail := by
  have htake : (header ++ le32 0 ++ tail).take header.length = header := by
    rw [List.append_assoc, List.take_left]
  have hdrop : (header ++ le32 0 ++ tail).drop (header.length + (le32 n).length) = tail := by
    rw [show (le32 n).length = (le32 0).length by rw [length_le32, length_le32],
      ← List.length_append, List.drop_left]
  rw [overwrite, htake, hdrop]

/-- **What is created** is the encoding of the entries, if that fits. -/
theorem createRealPacket_written (hcap : cap.toNat < 2 ^ 31) (magic : UInt32) (pkt : Packet)
    (dest : NodeIdentRendv) (rings : RingSet) :
    Written cap dest (encode magic pkt (entriesOf rings))
      (createRealPacket magic pkt rings (RealPacket.new dest cap)) := by
  have hheader : Wrote cap dest (pkt.encode magic INFO_PACKET)
      (pkt.writeId magic ((RealPacket.new dest cap).appendChar INFO_PACKET)) :=
    Wrote.writeId pkt hcap
  have hall : Wrote cap dest (_ ++ (entriesOf rings).flatMap encodeEntry)
      ((entriesOf rings).foldl putEntry _) :=
    Wrote.foldl (fun e _ _ _ h ↦ wrote_putEntry hcap e h) (hheader.appendUint hcap 0)
  have hlen : (encode magic pkt (entriesOf rings)).length =
      (pkt.encode magic INFO_PACKET ++ le32 0 ++ (entriesOf rings).flatMap encodeEntry).length := by
    simp only [encode, encodeEntries, List.length_append, length_le32]
    omega
  simp only [createRealPacket, foldl_putRing]
  rw [← entriesOf]
  generalize hq : List.foldl putEntry _ (entriesOf rings) = q at hall ⊢
  rcases Nat.lt_or_ge cap.toNat (encode magic pkt (entriesOf rings)).length with hlt | hle
  · rw [hall.overflow (hlen ▸ hlt)]
    exact ⟨Or.inr rfl, by simpa using hlt, fun hle ↦ absurd hle (Nat.not_le.2 hlt), hall.dest_eq⟩
  · obtain ⟨hok, hpay⟩ := hall.fits (hlen ▸ hle)
    have hpos := (hheader.fits (by rw [length_encode] at hle; rw [length_encode_packet]; omega)).2
    rw [hok, hpos, hpay, overwrite_count, UInt32.zero_add]
    refine ⟨Or.inl rfl, iff_of_true rfl hle, fun _ ↦ ?_, hall.dest_eq⟩
    rw [encode, encodeEntries, ← List.append_assoc]
    rfl

/-! ### What is read -/

instance (buf : List UInt8) : Sticky (bufferCursor buf) getMember := by
  unfold getMember
  infer_instance

instance (buf : List UInt8) (numMembers : ℕ) (inMap : InfoMap) :
    Sticky (bufferCursor buf) (readMembers numMembers inMap) := by
  induction numMembers generalizing inMap with
  | zero => exact Sticky.done _ inMap
  | succ numMembers ih =>
    have := fun e ↦ ih (addMember inMap e)
    unfold readMembers
    infer_instance

instance (buf : List UInt8) : Strict (bufferCursor buf) (parser magic) := by
  unfold parser
  infer_instance

theorem reads_getMember (e : UInt32 × NodeIdentLat) :
    Reads (bufferCursor buf) getMember (encodeEntry e) e :=
  (reads_retrieveNetUint e.1).bind
    ((reads_getIdentValue (e.2.ident, e.2.latencyUS)).map fun n ↦ (e.1, latEntry n))

/-- **The loop puts the entries into the map**, one after another. -/
theorem reads_readMembers (es : List (UInt32 × NodeIdentLat)) (inMap : InfoMap) :
    Reads (bufferCursor buf) (readMembers es.length inMap) (es.flatMap encodeEntry)
      (es.foldl addMember inMap) := by
  induction es generalizing inMap with
  | nil => exact Reads.done _ inMap
  | cons e es ih =>
    rw [List.flatMap_cons, List.foldl_cons]
    exact (reads_getMember e).bind (ih (addMember inMap e))

theorem reads_infoPacket {es : List (UInt32 × NodeIdentLat)} (hlen : es.length < 2 ^ 32)
    (pkt : Packet) :
    Reads (bufferCursor buf) (parser magic) (encode magic pkt es) (es.foldl addMember ∅) := by
  refine (reads_parseStart INFO_PACKET pkt).bind (Reads.check_bind (by simp) ?_)
  refine (reads_retrieveNetUint _).bind ?_
  rw [UInt32.toNat_ofNat_of_lt' hlen, ← List.append_nil (es.flatMap encodeEntry)]
  exact (reads_readMembers es ∅).bind (Reads.check_bind rfl (Reads.done _ _))

/-! ### Regrouping -/

section Group

variable {inMap : InfoMap} {es : List (UInt32 × NodeIdentLat)} {k : UInt32}

/-- The entries of one ring number. -/
def ofRing (es : List (UInt32 × NodeIdentLat)) (k : UInt32) : List NodeIdentLat :=
  (es.filter fun e ↦ e.1 = k).map Prod.snd

theorem getElem?_addMember (e : UInt32 × NodeIdentLat) :
    (addMember inMap e)[k]? =
      if e.1 = k then some ((inMap[k]?).getD [] ++ [e.2]) else inMap[k]? := by
  rw [addMember]
  split
  · next hnone =>
    rw [Lib.getElem?_insert]
    split
    · next heq => rw [← heq, hnone]; rfl
    · rfl
  · next nodes hsome =>
    rw [Lib.getElem?_insert]
    split
    · next heq => rw [← heq, hsome]; rfl
    · rfl

/-- **A vector has the entries of its ring, in order.** -/
theorem getElem?_foldl_addMember : (es.foldl addMember inMap)[k]? =
    if ofRing es k = [] then inMap[k]? else some ((inMap[k]?).getD [] ++ ofRing es k) := by
  induction es generalizing inMap with
  | nil => rfl
  | cons e es ih =>
    rw [List.foldl_cons, ih, getElem?_addMember]
    by_cases hk : e.1 = k
    · have hof : ofRing (e :: es) k = e.2 :: ofRing es k := by
        rw [ofRing, List.filter_cons_of_pos (by simpa using hk)]
        rfl
      rw [if_pos hk, hof, if_neg (List.cons_ne_nil _ _)]
      split
      · next hnil => rw [hnil]
      · rw [Option.getD_some, List.append_assoc]
        rfl
    · have hof : ofRing (e :: es) k = ofRing es k := by
        rw [ofRing, List.filter_cons_of_neg (by simpa using hk)]
        rfl
      rw [if_neg hk, hof]

end Group

/-- The map lists the rings with primary members, and for each its members in order, with the
latencies that are stored for them. -/
structure Lists (rings : RingSet) (inMap : InfoMap) : Prop where
  keys : ∀ k, k ∈ inMap ↔ ∃ r : Fin MAX_NUM_RINGS, k = UInt32.ofNat r ∧ rings.primaryRing r ≠ []
  members : ∀ (r : Fin MAX_NUM_RINGS) nodes, inMap[UInt32.ofNat r]? = some nodes →
    List.Forall₂ (fun n e ↦ e.ident = n ∧ rings.nodeLatencyUS[n]? = some e.latencyUS)
      (rings.primaryRing r) nodes

/-- The entries with the number of a ring are those of that ring. -/
theorem ofRing_ringEntries (rings : RingSet) (i : Fin MAX_NUM_RINGS) (k : UInt32) :
    ofRing (ringEntries rings i) k =
      if UInt32.ofNat i = k then (ringEntries rings i).map Prod.snd else [] := by
  have hfst : ∀ e ∈ ringEntries rings i, e.1 = UInt32.ofNat i := by
    intro e he
    obtain ⟨n, -, he⟩ := List.mem_filterMap.1 he
    obtain ⟨latencyUS, -, rfl⟩ := Option.map_eq_some_iff.1 he
    rfl
  rw [ofRing]
  split
  · next heq =>
    rw [List.filter_eq_self.2 fun e he ↦ decide_eq_true ((hfst e he).trans heq)]
  · next hne =>
    rw [List.filter_eq_nil_iff.2 fun e he hdec ↦
      hne ((hfst e he).symm.trans (of_decide_eq_true hdec)), List.map_nil]

theorem ofRing_flatMap (is : List (Fin MAX_NUM_RINGS)) (k : UInt32) :
    ofRing (is.flatMap (ringEntries rings)) k =
      is.flatMap fun i ↦ ofRing (ringEntries rings i) k := by
  induction is with
  | nil => rfl
  | cons i is ih =>
    rw [List.flatMap_cons, List.flatMap_cons, ← ih, ofRing, List.filter_append, List.map_append]
    rfl

theorem ofNat_ring_injective {i r : Fin MAX_NUM_RINGS}
    (h : UInt32.ofNat i = UInt32.ofNat r) : i = r := by
  have hnat := congrArg UInt32.toNat h
  rw [UInt32.toNat_ofNat_of_lt' (i.isLt.trans (by decide)),
    UInt32.toNat_ofNat_of_lt' (r.isLt.trans (by decide))] at hnat
  exact Fin.ext hnat

/-- Among all rings there is one with the number. -/
theorem ofRing_flatMap_of_mem {is : List (Fin MAX_NUM_RINGS)} (hnodup : is.Nodup)
    {r : Fin MAX_NUM_RINGS} (hr : r ∈ is) :
    ofRing (is.flatMap (ringEntries rings)) (UInt32.ofNat r) =
      (ringEntries rings r).map Prod.snd := by
  have hother : ∀ is : List (Fin MAX_NUM_RINGS), r ∉ is →
      is.flatMap (fun i ↦ ofRing (ringEntries rings i) (UInt32.ofNat r)) = [] := by
    intro is hr
    refine List.flatMap_eq_nil_iff.2 fun i hi ↦ ?_
    rw [ofRing_ringEntries, if_neg]
    intro heq
    exact hr (ofNat_ring_injective heq ▸ hi)
  rw [ofRing_flatMap]
  induction is with
  | nil => exact absurd hr List.not_mem_nil
  | cons i is ih =>
    rw [List.nodup_cons] at hnodup
    rw [List.flatMap_cons]
    rcases List.mem_cons.1 hr with rfl | hr
    · rw [hother is hnodup.1, List.append_nil, ofRing_ringEntries, if_pos rfl]
    · have hne : UInt32.ofNat i ≠ UInt32.ofNat r := by
        intro heq
        exact hnodup.1 (ofNat_ring_injective heq ▸ hr)
      rw [ofRing_ringEntries, if_neg hne, List.nil_append]
      exact ih hnodup.2 hr

/-- A number that no ring has. -/
theorem ofRing_entriesOf_of_ne {k : UInt32} (h : ∀ r : Fin MAX_NUM_RINGS, k ≠ UInt32.ofNat r) :
    ofRing (entriesOf rings) k = [] := by
  rw [entriesOf, ofRing_flatMap]
  refine List.flatMap_eq_nil_iff.2 fun i _ ↦ ?_
  rw [ofRing_ringEntries, if_neg (h i).symm]

theorem ofRing_entriesOf (rings : RingSet) (r : Fin MAX_NUM_RINGS) :
    ofRing (entriesOf rings) (UInt32.ofNat r) = (ringEntries rings r).map Prod.snd :=
  ofRing_flatMap_of_mem (List.nodup_finRange _) (List.mem_finRange r)

section Inv

variable {getRingNumber : UInt32 → Fin MAX_NUM_RINGS}

/-- No member is skipped. -/
theorem forall₂_ringEntries (hinv : rings.Inv getRingNumber) (r : Fin MAX_NUM_RINGS) :
    List.Forall₂ (fun n e ↦ e.ident = n ∧ rings.nodeLatencyUS[n]? = some e.latencyUS)
      (rings.primaryRing r) ((ringEntries rings r).map Prod.snd) := by
  have hlat : ∀ n ∈ rings.primaryRing r, ∃ latencyUS, rings.nodeLatencyUS[n]? = some latencyUS := by
    intro n hn
    obtain ⟨latencyUS, hget, -⟩ := (hinv.mem_ring n r).1 (List.mem_append_left _ hn)
    exact ⟨latencyUS, hget⟩
  rw [ringEntries]
  generalize rings.primaryRing r = members at hlat ⊢
  induction members with
  | nil => exact List.Forall₂.nil
  | cons n members ih =>
    obtain ⟨latencyUS, hget⟩ := hlat n List.mem_cons_self
    rw [List.filterMap_cons, hget]
    exact .cons ⟨rfl, hget⟩ (ih fun m hm ↦ hlat m (List.mem_cons_of_mem _ hm))

/-- **The entries regroup to the rings.** -/
theorem lists_foldl (hinv : rings.Inv getRingNumber) :
    Lists rings ((entriesOf rings).foldl addMember ∅) where
  keys k := by
    rw [Std.ExtTreeMap.mem_iff_isSome_getElem?, getElem?_foldl_addMember,
      Std.ExtTreeMap.getElem?_empty]
    by_cases hk : ∃ r : Fin MAX_NUM_RINGS, k = UInt32.ofNat r
    · obtain ⟨r, rfl⟩ := hk
      have hlen := (forall₂_ringEntries hinv r).length_eq
      rw [ofRing_entriesOf]
      constructor
      · intro h
        refine ⟨r, rfl, fun hnil ↦ ?_⟩
        rw [hnil] at hlen
        rw [if_pos (List.length_eq_zero_iff.1 hlen.symm)] at h
        exact absurd h Bool.false_ne_true
      · rintro ⟨r', heq, hne⟩
        obtain rfl := ofNat_ring_injective heq
        rw [if_neg]
        · rfl
        · intro hnil
          rw [hnil] at hlen
          exact hne (List.length_eq_zero_iff.1 hlen)
    · rw [not_exists] at hk
      rw [if_pos (ofRing_entriesOf_of_ne hk)]
      refine iff_of_false Bool.false_ne_true ?_
      rintro ⟨r, heq, -⟩
      exact hk r heq
  members r nodes h := by
    rw [getElem?_foldl_addMember, Std.ExtTreeMap.getElem?_empty, ofRing_entriesOf] at h
    split at h
    · exact absurd h (Option.some_ne_none nodes).symm
    · obtain rfl := Option.some.inj h
      exact forall₂_ringEntries hinv r

/-- There are as many entries as primary members. -/
theorem length_entriesOf (hinv : rings.Inv getRingNumber) : (entriesOf rings).length =
    ((List.finRange MAX_NUM_RINGS).map fun r ↦ (rings.primaryRing r).length).sum := by
  rw [entriesOf, List.length_flatMap]
  congr 1
  refine List.map_congr_left fun r _ ↦ ?_
  rw [(forall₂_ringEntries hinv r).length_eq, List.length_map]

/-- **Info packets survive the round trip.** `createRealPacket` succeeds just if a header of 17
bytes and 14 bytes for each primary member fit; then `parse` makes a map of the bytes that lists the
rings, and of every strict prefix nothing. -/
theorem infoPacket_round_trip (hinv : rings.Inv getRingNumber) (magic cap : UInt32)
    (dest : NodeIdentRendv) (id : UInt64) (hcap : cap.toNat + 8 < 2 ^ 31) :
    ∃ res, createRealPacket magic (Packet.new id) rings (RealPacket.new dest cap) = res ∧
      (res.1 = 0 ∨ res.1 = -1) ∧
      (res.1 = 0 ↔ 17 + 14 * ((List.finRange MAX_NUM_RINGS).map fun r ↦
        (rings.primaryRing r).length).sum ≤ cap.toNat) ∧
      (res.1 = 0 → (∃ inMap, parse magic res.2.payload ∅ = (0, inMap) ∧ Lists rings inMap) ∧
        ∀ l, l <+: res.2.payload → l ≠ res.2.payload → parse magic l ∅ = (-1, ∅)) := by
  have hw := createRealPacket_written (show cap.toNat < 2 ^ 31 by omega) magic (Packet.new id) dest
    rings
  have hlen := length_encode magic (Packet.new id) (entriesOf rings)
  refine ⟨_, rfl, hw.result_cases, ?_, fun h0 ↦ ?_⟩
  · rw [hw.result_eq_zero, hlen, length_entriesOf hinv]
  · have hle := hw.result_eq_zero.1 h0
    rw [hw.payload_eq hle]
    have hcount : (entriesOf rings).length < 2 ^ 32 := by omega
    have hempty (l : List UInt8) : parse magic l ∅ =
        match BufferWrapper.parse (parser magic) l with
        | none => (-1, ∅)
        | some inMap => (0, inMap) := by
      rw [parse, Std.ExtTreeMap.size_empty]
      rfl
    refine ⟨⟨_, ?_, lists_foldl hinv⟩, fun l hpre hne ↦ ?_⟩
    · rw [hempty, parse_eq_some (reads_infoPacket hcount _) (by rw [InRange]; omega)]
    · have hrange : InRange l := by
        have hle' := hpre.length_le
        rw [InRange]
        omega
      rw [hempty, parse_prefix (reads_infoPacket hcount (Packet.new id)) hrange hpre hne]

end Inv

/-- Three members in two rings. -/
theorem infoPacket_round_trip_threeMembers : ∃ rings res,
    run (RingSet.step fun us ↦ if us ≤ 1000 then 0 else 3) (RingSet.new 16 4)
      [.insertNode ⟨7, 80⟩ 1500, .insertNode ⟨8, 80⟩ 20, .insertNode ⟨9, 80⟩ 1000000] =
        some rings ∧
    (rings.primaryRing 0).length = 1 ∧ (rings.primaryRing 3).length = 2 ∧
    createRealPacket 5 (Packet.new 0) rings (RealPacket.new ⟨0, 0, 0, 0⟩ MAX_INFO_PACKET_SIZE) =
      res ∧
    ∃ inMap, parse 5 res.2.payload ∅ = (0, inMap) ∧ Lists rings inMap := by
  have hrun : (run (RingSet.step fun us ↦ if us ≤ 1000 then 0 else 3) (RingSet.new 16 4)
      [.insertNode ⟨7, 80⟩ 1500, .insertNode ⟨8, 80⟩ 20, .insertNode ⟨9, 80⟩ 1000000]).any
        (fun rings ↦ decide ((rings.primaryRing 0).length = 1 ∧ (rings.primaryRing 3).length = 2 ∧
          17 + 14 * ((List.finRange MAX_NUM_RINGS).map fun r ↦ (rings.primaryRing r).length).sum ≤
            MAX_INFO_PACKET_SIZE.toNat)) = true := by decide
  obtain ⟨rings, hrings, htest⟩ := (Option.any_eq_true ..).1 hrun
  obtain ⟨hfirst, hlast, hle⟩ := of_decide_eq_true htest
  have hinv := (RingSet.sound_of_run (by simp [RingSet.Call.Admissible]) hrings).inv
  obtain ⟨res, hres, -, hfits, hparse⟩ := infoPacket_round_trip hinv 5 MAX_INFO_PACKET_SIZE
    ⟨0, 0, 0, 0⟩ 0 (by decide)
  exact ⟨rings, res, hrings, hfirst, hlast, hres, (hparse (hfits.2 hle)).1⟩

end InfoPacket

end Meridian

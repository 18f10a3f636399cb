import Meridian.Lib.Ticking
import Meridian.Marshal.Accepted
import Meridian.Marshal.InfoPacket

/-!
# What parsing constructs

The counts in a packet are not bounded by anything, so what the loops of the parsers construct is
bounded only by the error flag. The classes with a list are a `ListFormat` each: something before
the count, entries, and a packet that is made of them. Its loop looks at the flag before each entry,
so all but the last one have been read, and are in the buffer.

`InfoPacket::parse` has no such check. It constructs as many entries as the count says.
-/

namespace Meridian

open Lib BufferWrapper

/-! ### Packets with a list -/

/-- A packet with a list: what comes before the count, an entry, and the packet that is made of
them. `copied` is how many entries are constructed when that is done. -/
structure ListFormat (H E R : Type) where
  header : Parser BufferWrapper H
  entry : Parser BufferWrapper E
  result : H → List E → R
  copied : R → ℕ
  header_length : ∀ buf, Consumes (bufferCursor buf) header fun _ bs ↦ 13 ≤ bs.length
  entry_length : ∀ buf, Consumes (bufferCursor buf) entry fun _ bs ↦ 6 ≤ bs.length
  copied_le : ∀ h l, copied (result h l) ≤ l.length

namespace ListFormat

variable {H E R : Type} {f : ListFormat H E R}

/-- `parse`. -/
def parser (f : ListFormat H E R) : Parser BufferWrapper R := do
  let h ← f.header
  let numEntry ← retrieveNetUint
  let l ← entries f.entry numEntry
  nullIf false
  pure (f.result h l)

/-- `parse`, with a tick for each entry that is constructed. -/
def counting (f : ListFormat H E R) : Ticking BufferWrapper R := do
  let h ← Ticking.lift f.header
  let numEntry ← Ticking.lift retrieveNetUint
  let l ← Ticking.repeatWhileOk errorFlag f.entry numEntry.toNat
  Ticking.lift (nullIf false)
  Ticking.tick (f.copied (f.result h l))
  pure (f.result h l)

theorem erase_counting (f : ListFormat H E R) : f.counting.erase = f.parser := by
  simp only [counting, parser, Ticking.erase_bind, Ticking.erase_lift, Ticking.erase_tick,
    Ticking.erase_pure, Ticking.erase_repeatWhileOk, pure_bind]
  rfl

/-- **No more entries are constructed than the buffer has bytes.** -/
theorem counting_le (f : ListFormat H E R) {buf : List UInt8} (hrange : InRange buf) :
    (f.counting (new buf)).1 ≤ buf.length := by
  suffices h : f.counting.Within (new buf) buf.length fun _ _ _ ↦ True from h.1
  refine Ticking.Within.lift_bind fun h s₁ h₁ ↦ Ticking.Within.lift_bind fun numEntry s₂ h₂ ↦ ?_
  cases hs : s₂.errorFlag with
  | true =>
    -- The loop is not entered, and the check behind it fails.
    refine (Ticking.Within.repeatWhileOk_of_failed hs _).bind fun l s₃ _ hbad ↦ ?_
    refine Ticking.Within.lift_bind fun _ s₄ h₄ ↦ ?_
    exact absurd ((nullIf_eq_some h₄).1.symm.trans hbad) Bool.false_ne_true
  | false =>
    have hs₁ : s₁.errorFlag = false := by
      refine Bool.eq_false_iff.2 fun hbad ↦ ?_
      have hsticky : s₂.errorFlag = true :=
        Sticky.out (C := bufferCursor buf) s₁ numEntry s₂ hbad h₂
      exact absurd (hs.symm.trans hsticky) Bool.false_ne_true
    obtain ⟨start, rest, hbuf, hstart, hat₁⟩ :=
      f.header_length buf (new buf) buf h s₁ (at_new hrange) h₁ hs₁
    obtain ⟨count, tail, rfl, hcount, hat₂⟩ := consumes_retrieveNetUint s₁ rest numEntry s₂ hat₁ h₂ hs
    have hlen : tail.length + 1 ≤ buf.length := by
      rw [hbuf, List.length_append, List.length_append]
      omega
    have hentries : Consumes (bufferCursor buf) f.entry fun _ bs ↦ 2 ≤ bs.length :=
      (f.entry_length buf).mono fun _ bs h ↦ by omega
    refine Ticking.Within.weaken ?_ hlen
    refine (Ticking.Within.repeatWhileOk hentries _ hat₂).bind fun l s₃ c hle ↦ ?_
    refine Ticking.Within.lift_bind fun _ s₄ h₄ ↦ ?_
    have hcopied := f.copied_le h l
    have hle : l.length + 1 ≤ c := hle (nullIf_eq_some h₄).1
    have hpay : (do Ticking.tick (f.copied (f.result h l)); pure (f.result h l)).Within s₄
        (f.copied (f.result h l) + 0) fun _ _ _ ↦ True :=
      Ticking.Within.tick_bind (Ticking.Within.done trivial)
    exact hpay.weaken (by omega)

end ListFormat

/-! ### The classes -/

theorem length_getIdent (buf : List UInt8) :
    Consumes (bufferCursor buf) getIdent fun _ bs ↦ 6 ≤ bs.length :=
  consumes_getIdent.mono fun _ _ h ↦ by rw [h, length_encodeIdent]

theorem length_getIdentValue (buf : List UInt8) :
    Consumes (bufferCursor buf) getIdentValue fun _ bs ↦ 6 ≤ bs.length :=
  consumes_getIdentValue.mono fun _ _ h ↦ by rw [h, length_encodeIdentValue]; omega

/-- What begins with a query's id has the bytes of that. -/
theorem length_parseStart {β : Type} {type : UInt8} (buf : List UInt8)
    {f : UInt64 × UInt32 → Parser BufferWrapper β}
    (hf : ∀ start, Consumes (bufferCursor buf) (f start) fun _ _ ↦ True)
    [∀ start, Sticky (bufferCursor buf) (f start)] :
    Consumes (bufferCursor buf) (Packet.parseStart type >>= f) fun _ bs ↦ 13 ≤ bs.length := by
  refine (consumes_parseStart type).bind fun start bs hbs ↦ (hf start).mono fun _ cs _ ↦ ?_
  rw [List.length_append, hbs, length_encode_packet]
  exact Nat.le_add_right 13 cs.length

/-- `ReqGeneric` as a packet with a list. -/
def ReqGeneric.format (magic : UInt32) (kind : ReqMeasureKind) :
    ListFormat RendvHeaderPacket NodeIdent ReqGeneric where
  header := do
    let start ← Packet.parseStart kind.type
    let rendvAddr ← retrieveNetUint
    let rendvPort ← retrieveNetUshort
    nullIf (start.2 != magic)
    pure ⟨Packet.new start.1, rendvAddr, rendvPort⟩
  entry := getIdent
  result h l := ⟨h, kind, l⟩
  copied _ := 0
  header_length buf := length_parseStart buf fun _ ↦
    consumes_retrieveNetUint.bind fun _ _ _ ↦ consumes_retrieveNetUshort.bind fun _ _ _ ↦
      Consumes.check_bind fun _ ↦ Consumes.done trivial
  entry_length := length_getIdent
  copied_le _ _ := Nat.zero_le _

theorem ReqGeneric.parser_format (magic : UInt32) (kind : ReqMeasureKind) :
    (format magic kind).parser = parser magic kind := by
  simp only [ListFormat.parser, format, parser, bind_assoc, pure_bind]

/-- `ReqConstraintGeneric` as a packet with a list. -/
def ReqConstraintGeneric.format (magic : UInt32) (kind : ReqConstraintKind) :
    ListFormat (RendvHeaderPacket × UInt16 × UInt16) (NodeIdent × UInt32)
      ReqConstraintGeneric where
  header := do
    let start ← Packet.parseStart kind.type
    let rendvAddr ← retrieveNetUint
    let rendvPort ← retrieveNetUshort
    let betaNum ← retrieveNetUshort
    let betaDen ← retrieveNetUshort
    nullIf (start.2 != magic)
    pure (⟨Packet.new start.1, rendvAddr, rendvPort⟩, betaNum, betaDen)
  entry := getIdentValue
  result h l := ⟨h.1, kind, h.2.1, h.2.2, l.map constEntry⟩
  copied _ := 0
  header_length buf := length_parseStart buf fun _ ↦
    consumes_retrieveNetUint.bind fun _ _ _ ↦ consumes_retrieveNetUshort.bind fun _ _ _ ↦
      consumes_retrieveNetUshort.bind fun _ _ _ ↦ consumes_retrieveNetUshort.bind fun _ _ _ ↦
        Consumes.check_bind fun _ ↦ Consumes.done trivial
  entry_length := length_getIdentValue
  copied_le _ _ := Nat.zero_le _

theorem ReqConstraintGeneric.parser_format (magic : UInt32) (kind : ReqConstraintKind) :
    (format magic kind).parser = parser magic kind := by
  simp only [ListFormat.parser, format, parser, bind_assoc, pure_bind]

/-- `ReqClosestGeneric` as a packet with a list. -/
def ReqClosestGeneric.format (magic : UInt32) (kind : ReqClosestKind) :
    ListFormat (RendvHeaderPacket × UInt16 × UInt16) NodeIdent ReqClosestGeneric where
  header := do
    let start ← Packet.parseStart kind.type
    let rendvAddr ← retrieveNetUint
    let rendvPort ← retrieveNetUshort
    let betaNum ← retrieveNetUshort
    let betaDen ← retrieveNetUshort
    nullIf (start.2 != magic)
    pure (⟨Packet.new start.1, rendvAddr, rendvPort⟩, betaNum, betaDen)
  entry := getIdent
  result h l := ⟨h.1, kind, h.2.1, h.2.2, l⟩
  copied _ := 0
  header_length buf := length_parseStart buf fun _ ↦
    consumes_retrieveNetUint.bind fun _ _ _ ↦ consumes_retrieveNetUshort.bind fun _ _ _ ↦
      consumes_retrieveNetUshort.bind fun _ _ _ ↦ consumes_retrieveNetUshort.bind fun _ _ _ ↦
        Consumes.check_bind fun _ ↦ Consumes.done trivial
  entry_length := length_getIdent
  copied_le _ _ := Nat.zero_le _

theorem ReqClosestGeneric.parser_format (magic : UInt32) (kind : ReqClosestKind) :
    (format magic kind).parser = parser magic kind := by
  simp only [ListFormat.parser, format, parser, bind_assoc, pure_bind]

/-- `RetResponse` as a packet with a list. The entries go into a map first, and the constructor
copies that into the vector of the packet. -/
def RetResponse.format (magic : UInt32) (remote : NodeIdent) :
    ListFormat (UInt64 × NodeIdent) (NodeIdent × UInt32) RetResponse where
  header := do
    let start ← Packet.parseStart RET_RESPONSE
    nullIf (start.2 != magic)
    let node ← getIdent
    pure (start.1, node)
  entry := getIdentValue
  result h l := RetResponse.new h.1 (orSender remote h.2).addr (orSender remote h.2).port
    (Std.ExtTreeMap.ofList l)
  copied pkt := pkt.targets.length
  header_length buf := length_parseStart buf fun _ ↦
    Consumes.check_bind fun _ ↦ consumes_getIdent.bind fun _ _ _ ↦ Consumes.done trivial
  entry_length := length_getIdentValue
  copied_le _ l := by
    show (latList (Std.ExtTreeMap.ofList l)).length ≤ l.length
    rw [latList, List.length_map, Std.ExtTreeMap.length_toList]
    exact Std.ExtTreeMap.size_ofList_le

theorem RetResponse.parser_format (magic : UInt32) (remote : NodeIdent) :
    (format magic remote).parser = parser magic remote := by
  simp only [ListFormat.parser, format, parser, bind_assoc, pure_bind]

theorem length_getRendvEntry (buf : List UInt8) :
    Consumes (bufferCursor buf) getRendvEntry fun _ bs ↦ 6 ≤ bs.length :=
  (length_getIdent buf).bind fun _ bs hbs ↦ consumes_getIdent.bind fun _ _ _ ↦ Consumes.done (by
    rw [List.length_append]
    exact Nat.le_add_right_of_le hbs)

/-- `GossipPacketGeneric` as a packet with a list. -/
def GossipPacketGeneric.format (magic : UInt32) (kind : GossipKind) :
    ListFormat RendvHeaderPacket (NodeIdent × NodeIdent) GossipPacketGeneric where
  header := do
    let start ← Packet.parseStart kind.type
    let rendvAddr ← retrieveNetUint
    let rendvPort ← retrieveNetUshort
    nullIf (start.2 != magic)
    pure ⟨Packet.new start.1, rendvAddr, rendvPort⟩
  entry := getRendvEntry
  result h l := ⟨h, kind, l.map addNodeEntry, portRendv_addNodeEntry l⟩
  copied _ := 0
  header_length buf := length_parseStart buf fun _ ↦
    consumes_retrieveNetUint.bind fun _ _ _ ↦ consumes_retrieveNetUshort.bind fun _ _ _ ↦
      Consumes.check_bind fun _ ↦ Consumes.done trivial
  entry_length := length_getRendvEntry
  copied_le _ _ := Nat.zero_le _

theorem GossipPacketGeneric.parser_format (magic : UInt32) (kind : GossipKind) :
    (format magic kind).parser = parser magic kind := by
  simp only [ListFormat.parser, format, parser, bind_assoc, pure_bind]

/-- `RetPing` as a packet with a list. -/
def RetPing.format (magic : UInt32) : ListFormat Packet (NodeIdent × UInt32) RetPing where
  header := do
    let start ← Packet.parseStart RET_PING_REQ
    nullIf (start.2 != magic)
    pure (Packet.new start.1)
  entry := getIdentValue
  result h l := ⟨h, l.map latEntry⟩
  copied _ := 0
  header_length buf := length_parseStart buf fun _ ↦
    Consumes.check_bind fun _ ↦ Consumes.done trivial
  entry_length := length_getIdentValue
  copied_le _ _ := Nat.zero_le _

theorem RetPing.parser_format (magic : UInt32) : (format magic).parser = parser magic := by
  simp only [ListFormat.parser, format, parser, bind_assoc, pure_bind]

/-! ### `InfoPacket` -/

/-- The word at an offset of the buffer, and 0 where there is none. -/
def wordAt (buf : List UInt8) (off : ℕ) : UInt32 :=
  if off + 4 ≤ buf.length then ntohl (ofLe32 ((buf.drop off).take 4)) else 0

/-- What reading up to `off` has left: the flag is set if that is outside the buffer. -/
def ReadUpTo (buf : List UInt8) (off : ℕ) (bw : BufferWrapper) : Prop :=
  if off ≤ buf.length then bw = ⟨false, buf, off⟩ else bw.errorFlag = true

section ReadUpTo

variable {buf : List UInt8} {off : ℕ} {bw : BufferWrapper}

theorem ReadUpTo.retrieveWith (hrange : InRange buf) (h : ReadUpTo buf off bw) {α : Type} {n : ℕ}
    (hn : n ≤ 8) (value : List UInt8 → α) (zero : α) :
    ∃ bw', retrieveWith n value zero bw = some
        (if off + n ≤ buf.length then value ((buf.drop off).take n) else zero, bw') ∧
      ReadUpTo buf (off + n) bw' := by
  rw [ReadUpTo] at h
  by_cases hoff : off ≤ buf.length
  · rw [if_pos hoff] at h
    have hat : (bufferCursor buf).At bw (buf.drop off) :=
      ⟨hrange, buf.take off, (List.take_append_drop off buf).symm, by
        rw [h, List.length_take_of_le hoff]⟩
    have hdrop : (buf.drop off).length = buf.length - off := List.length_drop
    by_cases hfit : off + n ≤ buf.length
    · have hlen : ((buf.drop off).take n).length = n := by
        rw [List.length_take, hdrop]
        omega
      rw [← List.take_append_drop n (buf.drop off)] at hat
      obtain ⟨bw', hbw', hat'⟩ := retrieve_full hat
      rw [hlen] at hbw'
      refine ⟨bw', ?_, ?_⟩
      · rw [BufferWrapper.retrieveWith, hbw', if_pos hfit]
      · obtain ⟨-, front, hbuf, rfl⟩ := hat'
        rw [ReadUpTo, if_pos hfit]
        have hfront : front.length = off + n := by
          have hsum := congrArg List.length hbuf
          rw [List.length_append, List.length_drop, hdrop] at hsum
          omega
        rw [hfront]
    · refine ⟨{ bw with errorFlag := true }, ?_, ?_⟩
      · rw [BufferWrapper.retrieveWith, retrieve_short hat hn (by omega), if_neg hfit]
      · rw [ReadUpTo, if_neg hfit]
  · rw [if_neg hoff] at h
    have hfit : ¬ off + n ≤ buf.length := by omega
    refine ⟨{ bw with errorFlag := true }, ?_, ?_⟩
    · rw [BufferWrapper.retrieveWith, retrieve_failed h, if_neg hfit]
    · rw [ReadUpTo, if_neg hfit]

theorem ReadUpTo.retrieveNetUint (hrange : InRange buf) (h : ReadUpTo buf off bw) :
    ∃ bw', retrieveNetUint bw = some (wordAt buf off, bw') ∧ ReadUpTo buf (off + 4) bw' := by
  obtain ⟨bw', hbw', hread⟩ := h.retrieveWith hrange (n := 4) (by decide) ofLe32 0
  refine ⟨bw', bind_eq_some.2 ⟨_, bw', hbw', ?_⟩, hread⟩
  rw [wordAt]
  split
  · rfl
  · rfl

theorem ReadUpTo.getIdent (hrange : InRange buf) (h : ReadUpTo buf off bw) :
    ∃ n bw', getIdent bw = some (n, bw') ∧ ReadUpTo buf (off + 6) bw' := by
  obtain ⟨bw₁, h₁, hread₁⟩ := h.retrieveNetUint hrange
  obtain ⟨bw₂, h₂, hread₂⟩ := hread₁.retrieveWith hrange (n := 2) (by decide) ofLe16 0
  exact ⟨_, bw₂, bind_eq_some.2 ⟨_, bw₁, h₁, bind_eq_some.2 ⟨_, bw₂, bind_eq_some.2 ⟨_, bw₂, h₂, rfl⟩,
    rfl⟩⟩, hread₂⟩

end ReadUpTo

namespace InfoPacket

variable {buf : List UInt8} {off : ℕ} {bw : BufferWrapper} {magic : UInt32}

/-- The loop of `parse`, with a tick for each `push_back`, and one more where the vector comes into
the map. -/
def countingMembers : ℕ → InfoMap → Ticking BufferWrapper InfoMap
  | 0, inMap => pure inMap
  | numMembers + 1, inMap => do
    let e ← Ticking.lift getMember
    Ticking.tick (if e.1 ∈ inMap then 1 else 2)
    countingMembers numMembers (addMember inMap e)

/-- `parse`, with a tick for each entry of a vector or of the map that is constructed. -/
def counting (magic : UInt32) : Ticking BufferWrapper InfoMap := do
  let start ← Ticking.lift (Packet.parseStart INFO_PACKET)
  Ticking.lift (nullIf (start.2 != magic))
  let numMembers ← Ticking.lift retrieveNetUint
  let inMap ← countingMembers numMembers.toNat ∅
  Ticking.lift (nullIf false)
  pure inMap

theorem erase_countingMembers (numMembers : ℕ) (inMap : InfoMap) :
    (countingMembers numMembers inMap).erase = readMembers numMembers inMap := by
  induction numMembers generalizing inMap with
  | zero => rfl
  | succ numMembers ih =>
    simp only [countingMembers, readMembers, Ticking.erase_bind, Ticking.erase_lift,
      Ticking.erase_tick, pure_bind, ih]

theorem erase_counting (magic : UInt32) : (counting magic).erase = parser magic := by
  simp only [counting, parser, Ticking.erase_bind, Ticking.erase_lift, Ticking.erase_pure,
    erase_countingMembers]

theorem readUpTo_getMember (hrange : InRange buf) (h : ReadUpTo buf off bw) :
    ∃ e bw', getMember bw = some (e, bw') ∧ e.1 = wordAt buf off ∧
      ReadUpTo buf (off + 14) bw' := by
  obtain ⟨bw₁, h₁, hread₁⟩ := h.retrieveNetUint hrange
  obtain ⟨n, bw₂, h₂, hread₂⟩ := hread₁.getIdent hrange
  obtain ⟨bw₃, h₃, hread₃⟩ := hread₂.retrieveNetUint hrange
  exact ⟨_, bw₃, bind_eq_some.2 ⟨_, bw₁, h₁, bind_eq_some.2 ⟨_, bw₃, bind_eq_some.2 ⟨_, bw₂, h₂,
    bind_eq_some.2 ⟨_, bw₃, h₃, rfl⟩⟩, rfl⟩⟩, rfl, hread₃⟩

/-- The ring numbers of the entries from `off` on. -/
def ringNumbers (buf : List UInt8) (off : ℕ) : ℕ → List UInt32
  | 0 => []
  | numMembers + 1 => wordAt buf off :: ringNumbers buf (off + 14) numMembers

theorem mem_addMember {inMap : InfoMap} {e : UInt32 × NodeIdentLat} {k : UInt32} :
    k ∈ addMember inMap e ↔ k = e.1 ∨ k ∈ inMap := by
  rw [Std.ExtTreeMap.mem_iff_isSome_getElem?, getElem?_addMember,
    Std.ExtTreeMap.mem_iff_isSome_getElem?]
  split
  · next heq => simp [heq]
  · next hne => simp [Ne.symm hne]

/-- **The loop constructs an entry for every member, and one for every ring.** -/
theorem ticks_countingMembers (hrange : InRange buf) (numMembers : ℕ) (inMap : InfoMap)
    (h : ReadUpTo buf off bw) : (countingMembers numMembers inMap bw).1 =
      numMembers + ((ringNumbers buf off numMembers).toFinset.filter (· ∉ inMap)).card := by
  induction numMembers generalizing off bw inMap with
  | zero => rfl
  | succ numMembers ih =>
    obtain ⟨e, bw', he, hring, hread⟩ := readUpTo_getMember hrange h
    rw [countingMembers, Ticking.lift_bind_of_some he, Ticking.ticks_tick_bind,
      ih (addMember inMap e) hread, ringNumbers, ← hring, List.toFinset_cons]
    generalize (ringNumbers buf (off + 14) numMembers).toFinset = rings
    by_cases hmem : e.1 ∈ inMap
    · -- The ring is in the map already, and is not a new one later either.
      have hsame : rings.filter (· ∉ addMember inMap e) = rings.filter (· ∉ inMap) := by
        refine Finset.filter_congr fun k _ ↦ not_congr ?_
        rw [mem_addMember, or_iff_right_of_imp]
        rintro rfl
        exact hmem
      rw [if_pos hmem, Finset.filter_insert, if_neg (not_not.2 hmem), hsame]
      omega
    · have hnew : insert e.1 (rings.filter (· ∉ inMap)) =
          insert e.1 (rings.filter (· ∉ addMember inMap e)) := by
        ext k
        simp only [Finset.mem_insert, Finset.mem_filter, mem_addMember, not_or]
        tauto
      have hcard : e.1 ∉ rings.filter (· ∉ addMember inMap e) := by
        rw [Finset.mem_filter, mem_addMember, not_and_not_right]
        exact fun _ ↦ .inl rfl
      rw [if_neg hmem, Finset.filter_insert, if_pos hmem, hnew, Finset.card_insert_of_notMem hcard]
      omega

/-- The count of an info packet. -/
def numMembers (buf : List UInt8) : ℕ := (wordAt buf 13).toNat

/-- What `parse` constructs for an info packet: an entry for every member that the count announces,
and one for every ring number among them. -/
def announced (buf : List UInt8) : ℕ :=
  numMembers buf + (ringNumbers buf 17 (numMembers buf)).toFinset.card

/-- The header of an info packet. -/
def HasHeader (magic : UInt32) (buf : List UInt8) : Prop :=
  ∃ pkt : Packet, pkt.encode magic INFO_PACKET <+: buf

/-- **With the header of an info packet, what it announces is constructed.** -/
theorem ticks_counting_of_hasHeader (hrange : InRange buf) (h : HasHeader magic buf) :
    (counting magic (new buf)).1 = announced buf := by
  obtain ⟨pkt, tail, rfl⟩ := h
  obtain ⟨bw, hbw, -, front, hfront, rfl⟩ :=
    (reads_parseStart INFO_PACKET pkt).full _ tail (at_new hrange)
  have hlen : front.length = 13 := by
    rw [← List.append_cancel_right hfront, length_encode_packet]
  have hread : ReadUpTo (pkt.encode magic INFO_PACKET ++ tail) 13
      ⟨false, pkt.encode magic INFO_PACKET ++ tail, front.length⟩ := by
    rw [ReadUpTo, if_pos (by rw [List.length_append, length_encode_packet]; omega), hlen]
  obtain ⟨bw, hcount, hread⟩ := hread.retrieveNetUint hrange
  have hcheck : nullIf ((pkt.retReqID, magic).2 != magic)
      ⟨false, pkt.encode magic INFO_PACKET ++ tail, front.length⟩ = some ((), _) :=
    if_neg (by simp)
  rw [counting, Ticking.lift_bind_of_some hbw, Ticking.lift_bind_of_some hcheck,
    Ticking.lift_bind_of_some hcount, Ticking.ticks_bind_of_eq_zero,
    ticks_countingMembers hrange _ _ hread, announced, numMembers,
    Finset.filter_true_of_mem fun k _ ↦ Std.ExtTreeMap.not_mem_empty]
  intro inMap s
  cases hs : nullIf false s with
  | none => rw [Ticking.lift_bind_of_none hs]
  | some r => exact congrArg Prod.fst (Ticking.lift_bind_of_some hs _)

/-- Without it, nothing is. -/
theorem ticks_counting_of_not_hasHeader (hrange : InRange buf) (h : ¬ HasHeader magic buf) :
    (counting magic (new buf)).1 = 0 := by
  rw [counting]
  cases hstart : Packet.parseStart INFO_PACKET (new buf) with
  | none => rw [Ticking.lift_bind_of_none hstart]
  | some r =>
    rw [Ticking.lift_bind_of_some hstart]
    cases hcheck : nullIf (r.1.2 != magic) r.2 with
    | none => rw [Ticking.lift_bind_of_none hcheck]
    | some r' =>
      -- What has passed the check is the header.
      obtain ⟨hok, hmagic, -⟩ := nullIf_eq_some hcheck
      obtain ⟨bs, tail, rfl, hbs, -⟩ := consumes_parseStart INFO_PACKET (new buf) buf r.1 r.2
        (at_new hrange) hstart hok
      obtain rfl : r.1.2 = magic := by simpa using hmagic
      exact absurd ⟨Packet.new r.1.1, tail, by rw [hbs]⟩ h

end InfoPacket

end Meridian

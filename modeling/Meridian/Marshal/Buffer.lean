import Meridian.Ident
import Meridian.Lib.Bytes
import Meridian.Lib.Cursor

/-!
# Reading and writing packets

`BufferWrapper` and `RealPacket` of `Marshal.h`, on a little-endian host: `append_uint` and
`retrieve_uint` copy the bytes of a word as they lie in memory, and `htonl` reverses them.

* The `int` members of a `BufferWrapper` are `Int`s, and `counter + n` is addition of 32-bit `int`s,
  so it wraps. Bytes outside the buffer are not modelled; a read there yields zeros.
* The payload of a `RealPacket` is the list of the `size` bytes written so far, and `verifySpace`
  compares in `uint32_t`, as the source does.

The two abstractions everything else is stated in are `bufferCursor`, which makes a `BufferWrapper`
an instance of the reader library, and `Wrote`, which says what a packet holds after a sequence of
appends. The first holds for buffers, and the second for capacities, that leave the `int` arithmetic
of the source inside its range.
-/

namespace Meridian

open Lib

/-! ### Words -/

/-- A word as it lies in memory. -/
def le16 (x : UInt16) : List UInt8 := leBytes 2 x.toNat

@[inherit_doc le16]
def le32 (x : UInt32) : List UInt8 := leBytes 4 x.toNat

/-- The word that lies in memory as these bytes. -/
def ofLe16 (bs : List UInt8) : UInt16 := UInt16.ofNat (ofLeBytes bs)

@[inherit_doc ofLe16]
def ofLe32 (bs : List UInt8) : UInt32 := UInt32.ofNat (ofLeBytes bs)

/-- `htons` and `ntohs`. -/
def htons (x : UInt16) : UInt16 := ofLe16 (le16 x).reverse

/-- `htonl` and `ntohl`. -/
def htonl (x : UInt32) : UInt32 := ofLe32 (le32 x).reverse

@[inherit_doc htons]
abbrev ntohs := htons

@[inherit_doc htonl]
abbrev ntohl := htonl

@[simp] theorem length_le16 (x : UInt16) : (le16 x).length = 2 := length_leBytes 2 _

@[simp] theorem length_le32 (x : UInt32) : (le32 x).length = 4 := length_leBytes 4 _

@[simp] theorem ofLe16_le16 (x : UInt16) : ofLe16 (le16 x) = x := by
  rw [ofLe16, le16, ofLeBytes_leBytes_of_lt x.toNat_lt, UInt16.ofNat_toNat]

@[simp] theorem ofLe32_le32 (x : UInt32) : ofLe32 (le32 x) = x := by
  rw [ofLe32, le32, ofLeBytes_leBytes_of_lt x.toNat_lt, UInt32.ofNat_toNat]

theorem le16_ofLe16 {bs : List UInt8} (h : bs.length = 2) : le16 (ofLe16 bs) = bs := by
  have hlt := ofLeBytes_lt bs
  rw [h] at hlt
  rw [le16, ofLe16, UInt16.toNat_ofNat_of_lt' hlt, ← h, leBytes_ofLeBytes]

theorem le32_ofLe32 {bs : List UInt8} (h : bs.length = 4) : le32 (ofLe32 bs) = bs := by
  have hlt := ofLeBytes_lt bs
  rw [h] at hlt
  rw [le32, ofLe32, UInt32.toNat_ofNat_of_lt' hlt, ← h, leBytes_ofLeBytes]

@[simp] theorem ntohs_htons (x : UInt16) : ntohs (htons x) = x := by
  rw [ntohs, htons, htons, le16_ofLe16 (by simp), List.reverse_reverse, ofLe16_le16]

@[simp] theorem ntohl_htonl (x : UInt32) : ntohl (htonl x) = x := by
  rw [ntohl, htonl, htonl, le32_ofLe32 (by simp), List.reverse_reverse, ofLe32_le32]

/-! ### `BufferWrapper` -/

/-- The state of a `BufferWrapper`; `bufSize` is the length of `buf`. -/
structure BufferWrapper where
  errorFlag : Bool
  buf : List UInt8
  counter : Int
  deriving DecidableEq, Repr

/-- Addition of two 32-bit `int`s. -/
def addInt (a b : Int) : Int := (a + b).bmod (2 ^ 32)

/-- An unsigned word passed for an `int` parameter. -/
def toInt (x : UInt32) : Int := (x.toNat : Int).bmod (2 ^ 32)

theorem toInt_ofNat {n : ℕ} (h : n < 2 ^ 31) : toInt (UInt32.ofNat n) = n := by
  have hword : (UInt32.ofNat n).toNat = n := by
    rw [UInt32.toNat_ofNat']
    omega
  have hmod : (n : Int).bmod (2 ^ 32) = n := Int.bmod_eq_of_le (by omega) (by omega)
  unfold toInt
  rw [hword]
  exact hmod

namespace BufferWrapper

/-- The constructor. -/
def new (buf : List UInt8) : BufferWrapper := ⟨false, buf, 0⟩

/-- The `bufSize` member. -/
def bufSize (bw : BufferWrapper) : Int := bw.buf.length

/-- The byte at an offset of the buffer. -/
def byteAt (bw : BufferWrapper) (i : Int) : UInt8 :=
  if i < 0 then 0 else bw.buf.getD i.toNat 0

/-- The `n` bytes from an offset of the buffer. -/
def bytesAt (bw : BufferWrapper) (start : Int) (n : ℕ) : List UInt8 :=
  (List.range n).map fun k : ℕ ↦ bw.byteAt (start + k)

/-- What the `retrieve_…` members share: the bytes from `counter` on if there are `n` left,
otherwise the error flag. -/
def retrieve (bw : BufferWrapper) (n : ℕ) : Option (List UInt8) × BufferWrapper :=
  if !bw.errorFlag && decide (addInt bw.counter n ≤ bw.bufSize) then
    (some (bw.bytesAt bw.counter n), { bw with counter := addInt bw.counter n })
  else
    (none, { bw with errorFlag := true })

/-- A value of `n` bytes, and 0 on error. -/
def retrieveWith {α : Type} (n : ℕ) (value : List UInt8 → α) (zero : α) : Parser BufferWrapper α :=
  fun bw ↦
    match bw.retrieve n with
    | (some bs, bw) => some (value bs, bw)
    | (none, bw) => some (zero, bw)

/-- `retrieve_char`. -/
def retrieveChar : Parser BufferWrapper UInt8 := retrieveWith 1 (·.headD 0) 0

/-- `retrieve_ushort`. -/
def retrieveUshort : Parser BufferWrapper UInt16 := retrieveWith 2 ofLe16 0

/-- `retrieve_uint`. -/
def retrieveUint : Parser BufferWrapper UInt32 := retrieveWith 4 ofLe32 0

/-- `ntohs(retrieve_ushort())`. -/
def retrieveNetUshort : Parser BufferWrapper UInt16 := do
  let x ← retrieveUshort
  pure (ntohs x)

/-- `ntohl(retrieve_uint())`. -/
def retrieveNetUint : Parser BufferWrapper UInt32 := do
  let x ← retrieveUint
  pure (ntohl x)

/-- `retrieve_int`. -/
def retrieveInt : Parser BufferWrapper Int32 := retrieveWith 4 (fun bs ↦ (ofLe32 bs).toInt32) 0

/-- `ntohl(retrieve_int())`. -/
def retrieveNetInt : Parser BufferWrapper UInt32 := do
  let x ← retrieveInt
  pure (ntohl x.toUInt32)

/-- `retrieve_buf`: a pointer into the buffer, or NULL on error. -/
def retrieveBuf (inBufSize : Int) : Parser BufferWrapper (Option (List UInt8)) := fun bw ↦
  if !bw.errorFlag && decide (0 ≤ inBufSize) &&
      decide (addInt bw.counter inBufSize ≤ bw.bufSize) then
    some (some (bw.bytesAt bw.counter inBufSize.toNat),
      { bw with counter := addInt bw.counter inBufSize })
  else
    some (none, { bw with errorFlag := true })

/-- Return NULL on the error flag or on a value that is not the expected one. -/
def nullIf (bad : Bool) : Parser BufferWrapper Unit := Lib.nullIf errorFlag bad

/-- The entry loop of every list packet: up to `n` entries, as long as no error has occurred. -/
def entries {α : Type} (p : Parser BufferWrapper α) (n : UInt32) : Parser BufferWrapper (List α) :=
  repeatWhileOk errorFlag p n.toNat

/-- A parser on a whole buffer; `none` is NULL. -/
def parse {α : Type} (p : Parser BufferWrapper α) (buf : List UInt8) : Option α :=
  (p (new buf)).map Prod.fst

/-! ### A `BufferWrapper` as a cursor -/

/-- The lengths for which no addition of a field width to `counter` leaves the range of `int`. -/
def InRange (buf : List UInt8) : Prop := buf.length + 8 < 2 ^ 31

/-- The buffer read through a `BufferWrapper`, as the reader library sees it: the bytes left are a
suffix of the buffer, and `counter` is how far it starts. -/
def bufferCursor (buf : List UInt8) : Cursor BufferWrapper where
  failed := errorFlag
  At := fun bw l ↦ InRange buf ∧ ∃ front, buf = front ++ l ∧ bw = ⟨false, buf, front.length⟩
  not_failed := by
    rintro _ _ ⟨-, front, -, rfl⟩
    rfl

theorem at_new {buf : List UInt8} (h : InRange buf) : (bufferCursor buf).At (new buf) buf :=
  ⟨h, [], rfl, rfl⟩

theorem addInt_of_lt {a n : ℕ} (h : a + n < 2 ^ 31) : addInt a n = (a + n : ℕ) := by
  rw [addInt, Int.bmod_eq_of_le (by omega) (by omega)]
  omega

theorem bytesAt_front (front bs tail : List UInt8) (flag : Bool) :
    bytesAt ⟨flag, front ++ (bs ++ tail), front.length⟩ front.length bs.length = bs := by
  refine List.ext_getElem (by simp [bytesAt]) fun i h₁ h₂ ↦ ?_
  have hnn : ¬ (front.length : Int) + i < 0 := by omega
  have hnat : ((front.length : Int) + i).toNat = front.length + i := by omega
  simp only [bytesAt, List.getElem_map, List.getElem_range, byteAt, hnn, if_false, hnat]
  rw [List.getD_eq_getElem?_getD, List.getElem?_append_right (Nat.le_add_right ..),
    Nat.add_sub_cancel_left, List.getElem?_append_left h₂, List.getElem?_eq_getElem h₂,
    Option.getD_some]

variable {buf : List UInt8} {bw bw' : BufferWrapper}

/-- On a good cursor with enough bytes left, `retrieve` returns them and moves past them. -/
theorem retrieve_full {bs tail : List UInt8} (h : (bufferCursor buf).At bw (bs ++ tail)) :
    ∃ bw', bw.retrieve bs.length = (some bs, bw') ∧ (bufferCursor buf).At bw' tail := by
  obtain ⟨hrange, front, rfl, rfl⟩ := h
  have hrange' := hrange
  simp only [InRange, List.length_append] at hrange'
  have hadd : addInt front.length bs.length = (front.length + bs.length : ℕ) :=
    addInt_of_lt (by omega)
  have hle : addInt front.length bs.length ≤
      (⟨false, front ++ (bs ++ tail), front.length⟩ : BufferWrapper).bufSize := by
    rw [hadd]
    simp only [bufSize, List.length_append]
    omega
  refine ⟨⟨false, front ++ (bs ++ tail), (front.length + bs.length : ℕ)⟩, ?_, hrange, front ++ bs,
    (List.append_assoc ..).symm, by rw [List.length_append]⟩
  simp only [retrieve, Bool.not_false, Bool.true_and, decide_eq_true_eq]
  rw [if_pos hle, bytesAt_front, hadd]

/-- On a good cursor with too few bytes left, `retrieve` sets the flag. -/
theorem retrieve_short {l : List UInt8} {n : ℕ} (h : (bufferCursor buf).At bw l) (hn : n ≤ 8)
    (hl : l.length < n) : bw.retrieve n = (none, { bw with errorFlag := true }) := by
  obtain ⟨hrange, front, rfl, rfl⟩ := h
  simp only [InRange, List.length_append] at hrange
  have hlt : ¬ addInt front.length n ≤
      (⟨false, front ++ l, front.length⟩ : BufferWrapper).bufSize := by
    rw [addInt_of_lt (by omega)]
    simp only [bufSize, List.length_append]
    omega
  simp only [retrieve, Bool.not_false, Bool.true_and, decide_eq_true_eq]
  rw [if_neg hlt]

theorem retrieve_failed {n : ℕ} (h : bw.errorFlag = true) :
    bw.retrieve n = (none, { bw with errorFlag := true }) := by
  simp [retrieve, h]

section Fixed

variable {α : Type} {n : ℕ} {value : List UInt8 → α} {zero : α}

instance sticky_retrieveWith (buf : List UInt8) (n : ℕ) (value : List UInt8 → α) (zero : α) :
    Sticky (bufferCursor buf) (retrieveWith n value zero) where
  out := by
    intro bw a bw' hbw h
    rw [retrieveWith, retrieve_failed hbw] at h
    cases h
    rfl

/-- **A fixed-width field is read back.** -/
theorem reads_retrieveWith (value : List UInt8 → α) (zero : α) {bs : List UInt8}
    (hlen : bs.length = n) (hn : n ≤ 8) :
    Reads (bufferCursor buf) (retrieveWith n value zero) bs (value bs) where
  sticky := sticky_retrieveWith buf n value zero
  full := by
    intro bw tail h
    obtain ⟨bw', hbw', hat⟩ := retrieve_full h
    refine ⟨bw', ?_, hat⟩
    rw [retrieveWith, ← hlen, hbw']
  short := by
    intro bw l h hpre hne b bw' hbw'
    have hlt : l.length < n := by
      rw [← hlen]
      exact hpre.length_le.lt_of_ne fun heq ↦ hne (hpre.eq_of_length heq)
    rw [retrieveWith, retrieve_short h hn hlt] at hbw'
    cases hbw'
    rfl

/-- A fixed-width field is the value of as many bytes. -/
theorem consumes_retrieveWith (hn : n ≤ 8) :
    Consumes (bufferCursor buf) (retrieveWith n value zero)
      fun a bs ↦ bs.length = n ∧ a = value bs := by
  intro bw l a bw' hat h hok
  rcases Nat.lt_or_ge l.length n with hlt | hge
  · rw [retrieveWith, retrieve_short hat hn hlt] at h
    cases h
    exact absurd hok (by simp [bufferCursor])
  · have hlen : (l.take n).length = n := by
      rw [List.length_take]
      omega
    rw [← List.take_append_drop n l] at hat
    obtain ⟨bw'', hbw'', hat'⟩ := retrieve_full hat
    rw [hlen] at hbw''
    rw [retrieveWith, hbw''] at h
    cases h
    exact ⟨l.take n, l.drop n, (List.take_append_drop n l).symm, ⟨hlen, rfl⟩, hat'⟩

end Fixed

theorem reads_retrieveChar (c : UInt8) : Reads (bufferCursor buf) retrieveChar [c] c :=
  reads_retrieveWith (·.headD 0) 0 rfl (by omega)

theorem reads_retrieveUshort (x : UInt16) :
    Reads (bufferCursor buf) retrieveUshort (le16 x) x := by
  have h : Reads (bufferCursor buf) retrieveUshort (le16 x) (ofLe16 (le16 x)) :=
    reads_retrieveWith ofLe16 0 (length_le16 x) (by omega)
  rwa [ofLe16_le16] at h

theorem reads_retrieveUint (x : UInt32) : Reads (bufferCursor buf) retrieveUint (le32 x) x := by
  have h : Reads (bufferCursor buf) retrieveUint (le32 x) (ofLe32 (le32 x)) :=
    reads_retrieveWith ofLe32 0 (length_le32 x) (by omega)
  rwa [ofLe32_le32] at h

instance (buf : List UInt8) : Sticky (bufferCursor buf) retrieveChar :=
  sticky_retrieveWith buf 1 (·.headD 0) 0

instance (buf : List UInt8) : Sticky (bufferCursor buf) retrieveUshort :=
  sticky_retrieveWith buf 2 ofLe16 0

instance (buf : List UInt8) : Sticky (bufferCursor buf) retrieveUint :=
  sticky_retrieveWith buf 4 ofLe32 0

instance (buf : List UInt8) : Sticky (bufferCursor buf) retrieveNetUshort :=
  inferInstanceAs (Sticky (bufferCursor buf) (retrieveUshort >>= fun x ↦ pure (ntohs x)))

instance (buf : List UInt8) : Sticky (bufferCursor buf) retrieveNetUint :=
  inferInstanceAs (Sticky (bufferCursor buf) (retrieveUint >>= fun x ↦ pure (ntohl x)))

instance (buf : List UInt8) : Sticky (bufferCursor buf) retrieveInt :=
  sticky_retrieveWith buf 4 (fun bs ↦ (ofLe32 bs).toInt32) 0

instance (buf : List UInt8) : Sticky (bufferCursor buf) retrieveNetInt :=
  inferInstanceAs (Sticky (bufferCursor buf) (retrieveInt >>= fun x ↦ pure (ntohl x.toUInt32)))

instance (buf : List UInt8) (bad : Bool) : Sticky (bufferCursor buf) (nullIf bad) :=
  Sticky.nullIf (bufferCursor buf) bad

instance {α : Type} (buf : List UInt8) (p : Parser BufferWrapper α) (n : UInt32) :
    Sticky (bufferCursor buf) (entries p n) :=
  Sticky.repeatWhileOk (bufferCursor buf) p n.toNat

instance {α : Type} (buf : List UInt8) (bad : Bool) (a : α) :
    Strict (bufferCursor buf) (nullIf bad >>= fun _ ↦ pure a) :=
  Strict.nullIf_done bad a

theorem reads_retrieveNetUshort (x : UInt16) :
    Reads (bufferCursor buf) retrieveNetUshort (le16 (htons x)) x := by
  have h := (reads_retrieveUshort (htons x) : Reads (bufferCursor buf) _ _ _).map ntohs
  rwa [ntohs_htons] at h

theorem reads_retrieveNetUint (x : UInt32) :
    Reads (bufferCursor buf) retrieveNetUint (le32 (htonl x)) x := by
  have h := (reads_retrieveUint (htonl x) : Reads (bufferCursor buf) _ _ _).map ntohl
  rwa [ntohl_htonl] at h

theorem reads_retrieveNetInt (x : UInt32) :
    Reads (bufferCursor buf) retrieveNetInt (le32 (htonl x)) x := by
  have h : Reads (bufferCursor buf) retrieveInt (le32 (htonl x)) (htonl x).toInt32 := by
    have h' : Reads (bufferCursor buf) retrieveInt (le32 (htonl x))
        (ofLe32 (le32 (htonl x))).toInt32 :=
      reads_retrieveWith (fun bs ↦ (ofLe32 bs).toInt32) 0 (length_le32 _) (by omega)
    rwa [ofLe32_le32] at h'
  have h' := h.map fun i : Int32 ↦ ntohl i.toUInt32
  rwa [UInt32.toUInt32_toInt32, ntohl_htonl] at h'

/-- A length-prefixed string is returned whole when the buffer holds it. -/
theorem retrieveBuf_full {bs tail : List UInt8} (h : (bufferCursor buf).At bw (bs ++ tail)) :
    ∃ bw', retrieveBuf (toInt (UInt32.ofNat bs.length)) bw = some (some bs, bw') ∧
      (bufferCursor buf).At bw' tail := by
  have hat := h
  obtain ⟨hrange, front, rfl, rfl⟩ := h
  simp only [InRange, List.length_append] at hrange
  have hsize := toInt_ofNat (show bs.length < 2 ^ 31 by omega)
  obtain ⟨bw', hbw', hat'⟩ := retrieve_full hat
  rw [retrieve] at hbw'
  split at hbw'
  · rename_i hok
    rw [Prod.mk.injEq, Option.some.injEq] at hbw'
    obtain ⟨hbytes, rfl⟩ := hbw'
    refine ⟨_, ?_, hat'⟩
    have hnn : (0 : Int) ≤ (bs.length : Int) := Int.natCast_nonneg _
    simp only [Bool.and_eq_true] at hok
    simp only [retrieveBuf, hsize, hok.1, decide_eq_true hnn, hok.2, Bool.and_self, if_true,
      Int.toNat_natCast, hbytes]
  · exact absurd (congrArg Prod.fst hbw') (by simp)

/-- A list whose length fits the 32-bit count is read back. -/
theorem reads_entries {α : Type} {p : Parser BufferWrapper α} {enc : α → List UInt8} {as : List α}
    (hlen : as.length < 2 ^ 32) (h : ∀ a, Reads (bufferCursor buf) p (enc a) a) :
    Reads (bufferCursor buf) (entries p (UInt32.ofNat as.length)) (as.flatMap enc) as := by
  rw [entries, UInt32.toNat_ofNat_of_lt' hlen]
  exact Reads.entries fun a _ ↦ h a

/-- **A parser accepts the encoding of a message.** -/
theorem parse_eq_some {α : Type} {p : Parser BufferWrapper α} {bs : List UInt8} {a : α}
    (h : Reads (bufferCursor bs) p bs a) (hrange : InRange bs) : parse p bs = some a :=
  h.run (at_new hrange)

/-- **A parser that ends in an error check rejects every truncation of an encoding.** -/
theorem parse_prefix {α : Type} {p : Parser BufferWrapper α} {bs l : List UInt8} {a : α}
    (h : Reads (bufferCursor l) p bs a) [Strict (bufferCursor l) p] (hrange : InRange l)
    (hpre : l <+: bs) (hne : l ≠ bs) : parse p l = none := by
  rw [parse, h.run_prefix (at_new hrange) hpre hne]
  rfl

/-! ### What an accepted buffer has in it -/

theorem consumes_retrieveChar : Consumes (bufferCursor buf) retrieveChar fun c bs ↦ bs = [c] :=
  (consumes_retrieveWith (by omega)).mono fun c bs h ↦ by
    obtain ⟨b, rfl⟩ := List.length_eq_one_iff.1 h.1
    rw [h.2, List.headD_cons]

theorem consumes_retrieveNetUshort :
    Consumes (bufferCursor buf) retrieveNetUshort fun x bs ↦ bs = le16 (htons x) :=
  Consumes.bind (consumes_retrieveWith (by omega)) fun x bs h ↦ Consumes.done (by
    show bs ++ [] = le16 (htons (ntohs x))
    rw [List.append_nil, h.2, show htons (ntohs _) = _ from ntohs_htons _, le16_ofLe16 h.1])

theorem consumes_retrieveNetUint :
    Consumes (bufferCursor buf) retrieveNetUint fun x bs ↦ bs = le32 (htonl x) :=
  Consumes.bind (consumes_retrieveWith (by omega)) fun x bs h ↦ Consumes.done (by
    show bs ++ [] = le32 (htonl (ntohl x))
    rw [List.append_nil, h.2, show htonl (ntohl _) = _ from ntohl_htonl _, le32_ofLe32 h.1])

/-- **What a parser accepts is in the buffer**, at its front. -/
theorem consumes_parse {α : Type} {p : Parser BufferWrapper α} {a : α} {Q : α → List UInt8 → Prop}
    (h : Consumes (bufferCursor buf) p Q) [hst : Strict (bufferCursor buf) p]
    (hrange : InRange buf) (hparse : parse p buf = some a) :
    ∃ bs tail, buf = bs ++ tail ∧ Q a bs := by
  rw [parse, Option.map_eq_some_iff] at hparse
  obtain ⟨⟨a', bw'⟩, hp, rfl⟩ := hparse
  obtain ⟨bs, tail, hbs, hQ, -⟩ := h _ _ _ _ (at_new hrange) hp (hst.out _ _ _ hp)
  exact ⟨bs, tail, hbs, hQ⟩

end BufferWrapper

/-! ### `RealPacket` -/

/-- `MAX_UDP_PACKET_SIZE`. -/
def MAX_UDP_PACKET_SIZE : UInt32 := 1400

/-- The state of a `RealPacket`; `size` is the length of `payload`. -/
structure RealPacket where
  dest : NodeIdentRendv
  payload : List UInt8
  complete : Bool
  maxPacketSize : UInt32
  deriving DecidableEq, Repr

namespace RealPacket

/-- The constructor with an explicit capacity. -/
def new (dest : NodeIdentRendv) (packetSize : UInt32) : RealPacket := ⟨dest, [], true, packetSize⟩

/-- The constructor from a plain address. -/
def ofIdent (dest : NodeIdent) : RealPacket := new ⟨dest.addr, dest.port, 0, 0⟩ MAX_UDP_PACKET_SIZE

/-- `verifySpace`, in `uint32_t`. -/
def verifySpace (p : RealPacket) (typeSize : ℕ) : Bool :=
  UInt32.ofNat (p.payload.length + typeSize) ≤ p.maxPacketSize

/-- What the `append_…` members share: nothing once the packet has overflowed, otherwise the bytes
or the overflow. -/
def append (p : RealPacket) (bs : List UInt8) : RealPacket :=
  if !p.complete then p
  else if p.verifySpace bs.length then { p with payload := p.payload ++ bs }
  else { p with complete := false }

/-- `append_char`. -/
def appendChar (p : RealPacket) (c : UInt8) : RealPacket := p.append [c]

/-- `append_ushort`. -/
def appendUshort (p : RealPacket) (x : UInt16) : RealPacket := p.append (le16 x)

/-- `append_uint`. -/
def appendUint (p : RealPacket) (x : UInt32) : RealPacket := p.append (le32 x)

/-- `append_int`. -/
def appendInt (p : RealPacket) (x : Int32) : RealPacket := p.append (le32 x.toUInt32)

/-- `append_str`, given a string's bytes and its size as an `int`: nothing is appended when that
size is 0 or has wrapped to a negative number. -/
def appendStr (p : RealPacket) (s : List UInt8) : RealPacket :=
  let inSize := toInt (UInt32.ofNat s.length)
  if inSize ≤ 0 then p else p.append (s.take inSize.toNat)

/-- The return value of every `createRealPacket`: 0, or -1 for a packet that has overflowed. -/
def result (p : RealPacket) : Int × RealPacket := if p.complete then (0, p) else (-1, p)

end RealPacket

/-- What a packet of capacity `cap` is after the bytes `bs` have been appended to it one field after
another: it holds them if they fit, and has overflowed if they do not. -/
structure Wrote (cap : UInt32) (dest : NodeIdentRendv) (bs : List UInt8) (p : RealPacket) :
    Prop where
  capacity : p.maxPacketSize = cap
  dest_eq : p.dest = dest
  fits : bs.length ≤ cap.toNat → p.complete = true ∧ p.payload = bs
  overflow : cap.toNat < bs.length → p.complete = false

namespace Wrote

variable {cap : UInt32} {dest : NodeIdentRendv} {bs cs : List UInt8} {p : RealPacket}

theorem new (cap : UInt32) (dest : NodeIdentRendv) :
    Wrote cap dest [] (RealPacket.new dest cap) :=
  ⟨rfl, rfl, fun _ ↦ ⟨rfl, rfl⟩, fun h ↦ absurd h (Nat.not_lt_zero _)⟩

/-- **One more field.** -/
theorem append (h : Wrote cap dest bs p) (hcap : cap.toNat < 2 ^ 31) (hcs : cs.length < 2 ^ 31) :
    Wrote cap dest (bs ++ cs) (p.append cs) := by
  obtain ⟨hc, hd, hfits, hover⟩ := h
  rcases Nat.lt_or_ge cap.toNat bs.length with hlt | hle
  · have hp : p.append cs = p := by simp [RealPacket.append, hover hlt]
    rw [hp]
    refine ⟨hc, hd, fun hf ↦ ?_, fun _ ↦ hover hlt⟩
    rw [List.length_append] at hf
    omega
  · obtain ⟨hok, hpay⟩ := hfits hle
    have hspace : p.verifySpace cs.length = decide ((bs ++ cs).length ≤ cap.toNat) := by
      rw [RealPacket.verifySpace, hc, hpay, List.length_append, decide_eq_decide,
        UInt32.le_iff_toNat_le, UInt32.toNat_ofNat_of_lt' (by show _ < 2 ^ 32; omega)]
    by_cases hroom : (bs ++ cs).length ≤ cap.toNat
    · have hp : p.append cs = { p with payload := p.payload ++ cs } := by
        rw [RealPacket.append, hok, hspace, decide_eq_true hroom]
        rfl
      rw [hp]
      exact ⟨hc, hd, fun _ ↦ ⟨hok, by rw [hpay]⟩, fun hlt ↦ absurd hroom (Nat.not_le.2 hlt)⟩
    · have hp : p.append cs = { p with complete := false } := by
        rw [RealPacket.append, hok, hspace, decide_eq_false hroom]
        rfl
      rw [hp]
      exact ⟨hc, hd, fun hf ↦ absurd hf hroom, fun _ ↦ rfl⟩

theorem appendChar (h : Wrote cap dest bs p) (hcap : cap.toNat < 2 ^ 31) (c : UInt8) :
    Wrote cap dest (bs ++ [c]) (p.appendChar c) :=
  h.append hcap (by rw [List.length_singleton]; decide)

theorem appendUshort (h : Wrote cap dest bs p) (hcap : cap.toNat < 2 ^ 31) (x : UInt16) :
    Wrote cap dest (bs ++ le16 x) (p.appendUshort x) :=
  h.append hcap (by rw [length_le16]; decide)

theorem appendUint (h : Wrote cap dest bs p) (hcap : cap.toNat < 2 ^ 31) (x : UInt32) :
    Wrote cap dest (bs ++ le32 x) (p.appendUint x) :=
  h.append hcap (by rw [length_le32]; decide)

theorem appendInt (h : Wrote cap dest bs p) (hcap : cap.toNat < 2 ^ 31) (x : UInt32) :
    Wrote cap dest (bs ++ le32 x) (p.appendInt x.toInt32) := by
  rw [RealPacket.appendInt, UInt32.toUInt32_toInt32]
  exact h.appendUint hcap x

/-- A string whose size is an `int` is appended whole, the empty one included. -/
theorem appendStr (h : Wrote cap dest bs p) (hcap : cap.toNat < 2 ^ 31) {s : List UInt8}
    (hs : s.length < 2 ^ 31) : Wrote cap dest (bs ++ s) (p.appendStr s) := by
  rw [RealPacket.appendStr, toInt_ofNat hs]
  cases s with
  | nil => simpa using h
  | cons c s =>
    have hpos : ¬ ((c :: s).length : Int) ≤ 0 := by
      rw [List.length_cons]
      omega
    simp only [hpos, if_false, Int.toNat_natCast, List.take_length]
    exact h.append hcap hs

/-- As long as the bytes fit, the packet is reported to be good. -/
theorem result_of_le (h : Wrote cap dest bs p) (hle : bs.length ≤ cap.toNat) :
    p.result = (0, p) := by
  rw [RealPacket.result, (h.fits hle).1]
  rfl

/-- A loop that appends one entry after another. -/
theorem foldl {α : Type} {put : RealPacket → α → RealPacket} {enc : α → List UInt8} {as : List α}
    (hput : ∀ a ∈ as, ∀ bs p, Wrote cap dest bs p → Wrote cap dest (bs ++ enc a) (put p a)) :
    ∀ {bs p}, Wrote cap dest bs p → Wrote cap dest (bs ++ as.flatMap enc) (as.foldl put p) := by
  induction as with
  | nil =>
    intro bs p h
    rwa [List.flatMap_nil, List.append_nil]
  | cons a as ih =>
    intro bs p h
    rw [List.flatMap_cons, ← List.append_assoc, List.foldl_cons]
    exact ih (fun b hb ↦ hput b (List.mem_cons_of_mem a hb))
      (hput a (List.mem_cons_self ..) bs p h)

end Wrote

/-- What a `createRealPacket` that writes `bs` has returned: 0 exactly when the bytes fitted, and then
the packet holds them. -/
structure Written (cap : UInt32) (dest : NodeIdentRendv) (bs : List UInt8) (res : Int × RealPacket) :
    Prop where
  result_cases : res.1 = 0 ∨ res.1 = -1
  result_eq_zero : res.1 = 0 ↔ bs.length ≤ cap.toNat
  payload_eq : bs.length ≤ cap.toNat → res.2.payload = bs
  dest_eq : res.2.dest = dest

/-- **The return value says whether the bytes fitted.** -/
theorem Wrote.result {cap : UInt32} {dest : NodeIdentRendv} {bs : List UInt8} {p : RealPacket}
    (h : Wrote cap dest bs p) : Written cap dest bs p.result := by
  rw [RealPacket.result]
  rcases Nat.lt_or_ge cap.toNat bs.length with hlt | hle
  · rw [h.overflow hlt]
    exact ⟨Or.inr rfl, by simpa using hlt, fun hle ↦ absurd hle (Nat.not_le.2 hlt), h.dest_eq⟩
  · obtain ⟨hok, hpay⟩ := h.fits hle
    rw [hok]
    exact ⟨Or.inl rfl, by simpa using hle, fun _ ↦ hpay, h.dest_eq⟩

end Meridian

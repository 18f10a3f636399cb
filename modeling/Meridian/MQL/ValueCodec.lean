import Meridian.MQL.Value

/-!
# MQL values survive the round trip

`encode` is what a value tree looks like on the wire. `wrote_marshalAst` says that `marshalAst`
appends exactly that, and `decodes_unmarshalAst` that `unmarshalAst` reads exactly that, with the
cursor right behind it and one allocation for every node. Both follow the tree: a node's own fields
are composed from the field rules, and its children come from the induction hypothesis, with one
theorem for a value, one for a vector and one for a map.
-/

namespace Meridian.MQL.Value

open Lib BufferWrapper

variable {D : Type} {xdr : XdrDouble D}

/-! ### The wire format -/

/-- A length-prefixed string. -/
def encodeStr (s : Str) : List UInt8 := net32 (UInt32.ofNat s.length) ++ s

mutual

/-- A value on the wire. -/
def encode (xdr : XdrDouble D) : Value D → List UInt8
  | empty => net32 ASTType.emptyType.toWord
  | int i => net32 ASTType.intType.toWord ++ net32 i.toUInt32
  | double d => net32 ASTType.doubleType.toWord ++ xdr.encode d
  | string s => net32 ASTType.stringType.toWord ++ encodeStr s
  | array aType aAdtName aVector =>
    net32 ASTType.arrayType.toWord ++ (net32 aType ++ (encodeStr (aAdtName.getD []) ++
      (net32 (UInt32.ofNat aVector.length) ++ encodeVector xdr aVector)))
  | adt adtTypeName adtMap =>
    net32 ASTType.varAdtType.toWord ++ (encodeStr adtTypeName ++
      (net32 (UInt32.ofNat adtMap.length) ++ encodeMap xdr adtMap))
  | sep pVector =>
    net32 ASTType.sepType.toWord ++
      (net32 (UInt32.ofNat pVector.length) ++ encodeVector xdr pVector)
  | other _ => []

/-- The entries of a vector on the wire. -/
def encodeVector (xdr : XdrDouble D) : List (Value D) → List UInt8
  | [] => []
  | v :: vs => encode xdr v ++ encodeVector xdr vs

/-- The entries of a map on the wire. -/
def encodeMap (xdr : XdrDouble D) : List (Str × Value D) → List UInt8
  | [] => []
  | (name, v) :: rest => encodeStr name ++ (encode xdr v ++ encodeMap xdr rest)

end

mutual

/-- The number of nodes of a tree. -/
def nodes : Value D → ℕ
  | empty => 1
  | int _ => 1
  | double _ => 1
  | string _ => 1
  | array _ _ aVector => 1 + nodesVector aVector
  | adt _ adtMap => 1 + nodesMap adtMap
  | sep pVector => 1 + nodesVector pVector
  | other _ => 1

@[inherit_doc nodes]
def nodesVector : List (Value D) → ℕ
  | [] => 0
  | v :: vs => nodes v + nodesVector vs

@[inherit_doc nodes]
def nodesMap : List (Str × Value D) → ℕ
  | [] => 0
  | (_, v) :: rest => nodes v + nodesMap rest

end

mutual

/-- The trees that are sent: value nodes only, `EMPTY` nowhere inside, a non-empty struct name
exactly on the arrays of structs, and the entries of a map in the order of their keys. -/
def Marshallable : Value D → Prop
  | empty => False
  | int _ => True
  | double _ => True
  | string _ => True
  | array aType aAdtName aVector =>
    (if aType = ASTType.adtType.toWord then ∃ name, name ≠ [] ∧ aAdtName = some name
      else aAdtName = none) ∧ MarshallableVector aVector
  | adt _ adtMap => adtMap.Pairwise (fun a b ↦ a.1 < b.1) ∧ MarshallableMap adtMap
  | sep pVector => MarshallableVector pVector
  | other _ => False

@[inherit_doc Marshallable]
def MarshallableVector : List (Value D) → Prop
  | [] => True
  | v :: vs => Marshallable v ∧ MarshallableVector vs

@[inherit_doc Marshallable]
def MarshallableMap : List (Str × Value D) → Prop
  | [] => True
  | (_, v) :: rest => Marshallable v ∧ MarshallableMap rest

end

/-- `EMPTY` is sent only as the whole value. -/
def Sendable (v : Value D) : Prop := v = empty ∨ v.Marshallable

theorem Marshallable.isEmpty_eq {v : Value D} (h : v.Marshallable) : v.isEmpty = false := by
  cases v with
  | empty => exact absurd h (by simp [Marshallable])
  | _ => rfl

/-- Every node takes at least the four bytes of its tag. -/
theorem four_le_length_encode {v : Value D} (h : v.Marshallable) : 4 ≤ (encode xdr v).length := by
  cases v with
  | empty => exact absurd h (by simp [Marshallable])
  | other type => exact absurd h (by simp [Marshallable])
  | _ => simp [encode]

mutual

theorem nodes_le (xdr : XdrDouble D) : ∀ v : Value D, v.Marshallable →
    v.nodes ≤ (encode xdr v).length
  | empty, h => absurd h (by simp [Marshallable])
  | int _, _ => by simp [nodes, encode]
  | double _, _ => by
    simp only [nodes, encode, List.length_append, length_le32]
    omega
  | string _, _ => by
    simp only [nodes, encode, List.length_append, length_le32]
    omega
  | array _ _ aVector, h => by
    rw [Marshallable] at h
    have hvector := nodesVector_le xdr aVector h.2
    simp only [nodes, encode, List.length_append, length_le32]
    omega
  | adt _ adtMap, h => by
    rw [Marshallable] at h
    have hmap := nodesMap_le xdr adtMap h.2
    simp only [nodes, encode, List.length_append, length_le32]
    omega
  | sep pVector, h => by
    rw [Marshallable] at h
    have hvector := nodesVector_le xdr pVector h
    simp only [nodes, encode, List.length_append, length_le32]
    omega
  | other _, h => absurd h (by simp [Marshallable])

theorem nodesVector_le (xdr : XdrDouble D) : ∀ vs : List (Value D), MarshallableVector vs →
    nodesVector vs ≤ (encodeVector xdr vs).length
  | [], _ => Nat.zero_le _
  | v :: vs, h => by
    rw [MarshallableVector] at h
    have hv := nodes_le xdr v h.1
    have hvs := nodesVector_le xdr vs h.2
    simp only [nodesVector, encodeVector, List.length_append]
    omega

theorem nodesMap_le (xdr : XdrDouble D) : ∀ fields : List (Str × Value D),
    MarshallableMap fields → nodesMap fields ≤ (encodeMap xdr fields).length
  | [], _ => Nat.zero_le _
  | (_, v) :: rest, h => by
    rw [MarshallableMap] at h
    have hv := nodes_le xdr v h.1
    have hrest := nodesMap_le xdr rest h.2
    simp only [nodesMap, encodeMap, List.length_append]
    omega

end

/-- No value has more nodes than bytes. -/
theorem Sendable.nodes_le {v : Value D} (h : v.Sendable) (xdr : XdrDouble D) :
    v.nodes ≤ (encode xdr v).length := by
  obtain rfl | h := h
  · simp [nodes, encode]
  · exact Value.nodes_le xdr v h

theorem length_le_encodeVector {vs : List (Value D)} (h : MarshallableVector vs) :
    vs.length ≤ (encodeVector xdr vs).length := by
  induction vs with
  | nil => exact Nat.zero_le _
  | cons v vs ih =>
    rw [MarshallableVector] at h
    have hv : 4 ≤ (encode xdr v).length := four_le_length_encode h.1
    have hvs := ih h.2
    rw [encodeVector, List.length_append, List.length_cons]
    omega

theorem length_le_encodeMap {fields : List (Str × Value D)} (h : MarshallableMap fields) :
    fields.length ≤ (encodeMap xdr fields).length := by
  induction fields with
  | nil => exact Nat.zero_le _
  | cons e fields ih =>
    rw [MarshallableMap] at h
    have hv : 4 ≤ (encode xdr e.2).length := four_le_length_encode h.1
    have hrest := ih h.2
    rw [encodeMap, List.length_append, List.length_append, List.length_cons]
    omega

/-! ### Writing -/

section Writing

variable {cap : UInt32} {dest : NodeIdentRendv} {bs : List UInt8} {p : RealPacket}

theorem wrote_str (h : Wrote cap dest bs p) (hcap : cap.toNat < 2 ^ 31) {s : Str}
    (hs : s.length < 2 ^ 31) : Wrote cap dest (bs ++ encodeStr s)
      ((p.appendUint (htonl (UInt32.ofNat s.length))).appendStr s) := by
  rw [encodeStr, ← List.append_assoc]
  exact (h.appendUint hcap _).appendStr hcap hs

theorem wrote_tag (h : Wrote cap dest bs p) (hcap : cap.toNat < 2 ^ 31) (x : UInt32) :
    Wrote cap dest (bs ++ net32 x) (p.appendInt (htonl x).toInt32) :=
  h.appendInt hcap (htonl x)

mutual

/-- **`marshal_ast` appends the encoding of a value** to a packet that has room for it, and reports
success. -/
theorem wrote_marshalAst (hcap : cap.toNat < 2 ^ 31) :
    ∀ (v : Value D) {bs : List UInt8} {p : RealPacket}, v.Sendable → Wrote cap dest bs p →
      (bs ++ encode xdr v).length ≤ cap.toNat →
      ∃ p', marshalAst xdr v p = some (0, p') ∧ Wrote cap dest (bs ++ encode xdr v) p'
  | empty, bs, p, _, h, hroom => by
    have hw := wrote_tag h hcap ASTType.emptyType.toWord
    exact ⟨_, by rw [marshalAst, hw.result_of_le hroom], hw⟩
  | int i, bs, p, _, h, hroom => by
    have hw := wrote_tag (wrote_tag h hcap ASTType.intType.toWord) hcap i.toUInt32
    rw [List.append_assoc] at hw
    exact ⟨_, by rw [marshalAst, hw.result_of_le hroom], hw⟩
  | double d, bs, p, _, h, hroom => by
    have hlen : (xdr.encode d).length < 2 ^ 31 := by
      have h8 := xdr.length_encode d
      omega
    have hw := (wrote_tag h hcap ASTType.doubleType.toWord).appendStr hcap hlen
    rw [List.append_assoc] at hw
    exact ⟨_, by rw [marshalAst, hw.result_of_le hroom], hw⟩
  | string s, bs, p, _, h, hroom => by
    have hlen : s.length < 2 ^ 31 := by
      simp only [encode, encodeStr, List.length_append] at hroom
      omega
    have hw := wrote_str (wrote_tag h hcap ASTType.stringType.toWord) hcap hlen
    rw [List.append_assoc] at hw
    exact ⟨_, by rw [marshalAst, hw.result_of_le hroom], hw⟩
  | array aType aAdtName aVector, bs, p, hv, h, hroom => by
    obtain ⟨hname, hvs⟩ : _ ∧ MarshallableVector aVector := by
      simpa [Sendable, Marshallable] using hv
    have hlen : (aAdtName.getD []).length < 2 ^ 31 := by
      simp only [encode, encodeStr, List.length_append] at hroom
      omega
    have hw := (wrote_str (wrote_tag (wrote_tag h hcap ASTType.arrayType.toWord) hcap aType) hcap
      hlen).appendUint hcap (htonl (UInt32.ofNat aVector.length))
    obtain ⟨p', hp', hw'⟩ := wrote_marshalVector hcap aVector hvs hw
      (by simpa only [encode, List.append_assoc] using hroom)
    refine ⟨p', ?_, by simpa only [encode, List.append_assoc] using hw'⟩
    rw [marshalAst, ← hp']
    -- only an array of structs has a name; the others send the empty one
    by_cases hadt : aType = ASTType.adtType.toWord
    · rw [if_pos hadt] at hname
      obtain ⟨name, -, rfl⟩ := hname
      simp only [if_pos hadt, Option.map_some, Option.getD_some]
    · rw [if_neg hadt] at hname
      subst hname
      have hnil (q : RealPacket) : q.appendStr [] = q := by
        have hzero : toInt (UInt32.ofNat ([] : Str).length) = 0 := toInt_ofNat (Nat.two_pow_pos 31)
        rw [RealPacket.appendStr, hzero]
        rfl
      simp only [if_neg hadt, Option.getD_none, hnil]
      rfl
  | adt adtTypeName adtMap, bs, p, hv, h, hroom => by
    obtain ⟨-, hmap⟩ : _ ∧ MarshallableMap adtMap := by
      simpa [Sendable, Marshallable] using hv
    have hlen : adtTypeName.length < 2 ^ 31 := by
      simp only [encode, encodeStr, List.length_append] at hroom
      omega
    have hw := (wrote_str (wrote_tag h hcap ASTType.varAdtType.toWord) hcap hlen).appendUint hcap
      (htonl (UInt32.ofNat adtMap.length))
    obtain ⟨p', hp', hw'⟩ := wrote_marshalMap hcap adtMap hmap hw
      (by simpa only [encode, List.append_assoc] using hroom)
    exact ⟨p', by rw [marshalAst, ← hp'], by simpa only [encode, List.append_assoc] using hw'⟩
  | sep pVector, bs, p, hv, h, hroom => by
    have hvs : MarshallableVector pVector := by simpa [Sendable, Marshallable] using hv
    have hw := (wrote_tag h hcap ASTType.sepType.toWord).appendUint hcap
      (htonl (UInt32.ofNat pVector.length))
    obtain ⟨p', hp', hw'⟩ := wrote_marshalVector hcap pVector hvs hw
      (by simpa only [encode, List.append_assoc] using hroom)
    exact ⟨p', by rw [marshalAst, ← hp'], by simpa only [encode, List.append_assoc] using hw'⟩
  | other type, bs, p, hv, _, _ => absurd hv (by simp [Sendable, Marshallable])

/-- The same for the entries of a vector. -/
theorem wrote_marshalVector (hcap : cap.toNat < 2 ^ 31) :
    ∀ (vs : List (Value D)) {bs : List UInt8} {p : RealPacket}, MarshallableVector vs →
      Wrote cap dest bs p → (bs ++ encodeVector xdr vs).length ≤ cap.toNat →
      ∃ p', marshalVector xdr vs p = some (0, p') ∧ Wrote cap dest (bs ++ encodeVector xdr vs) p'
  | [], bs, p, _, h, hroom => by
    rw [encodeVector, List.append_nil] at hroom ⊢
    exact ⟨p, by rw [marshalVector, h.result_of_le hroom], h⟩
  | v :: vs, bs, p, hvs, h, hroom => by
    rw [MarshallableVector] at hvs
    rw [encodeVector, ← List.append_assoc] at hroom ⊢
    obtain ⟨p₁, hp₁, hw₁⟩ := wrote_marshalAst hcap v (Or.inr hvs.1) h
      (by rw [List.length_append] at hroom; omega)
    obtain ⟨p₂, hp₂, hw₂⟩ := wrote_marshalVector hcap vs hvs.2 hw₁ hroom
    refine ⟨p₂, ?_, hw₂⟩
    simp only [marshalVector, hp₁, ← hp₂]
    rfl

/-- The same for the entries of a map. -/
theorem wrote_marshalMap (hcap : cap.toNat < 2 ^ 31) :
    ∀ (fields : List (Str × Value D)) {bs : List UInt8} {p : RealPacket}, MarshallableMap fields →
      Wrote cap dest bs p → (bs ++ encodeMap xdr fields).length ≤ cap.toNat →
      ∃ p', marshalMap xdr fields p = some (0, p') ∧ Wrote cap dest (bs ++ encodeMap xdr fields) p'
  | [], bs, p, _, h, hroom => by
    rw [encodeMap, List.append_nil] at hroom ⊢
    exact ⟨p, by rw [marshalMap, h.result_of_le hroom], h⟩
  | (name, v) :: rest, bs, p, hfields, h, hroom => by
    rw [MarshallableMap] at hfields
    rw [encodeMap, ← List.append_assoc, ← List.append_assoc] at hroom ⊢
    have hlen : name.length < 2 ^ 31 := by
      simp only [encodeStr, List.length_append] at hroom
      omega
    obtain ⟨p₁, hp₁, hw₁⟩ := wrote_marshalAst hcap v (Or.inr hfields.1) (wrote_str h hcap hlen)
      (by rw [List.length_append] at hroom; omega)
    obtain ⟨p₂, hp₂, hw₂⟩ := wrote_marshalMap hcap rest hfields.2 hw₁ hroom
    refine ⟨p₂, ?_, hw₂⟩
    simp only [marshalMap, hp₁, ← hp₂]
    rfl

end

end Writing

/-! ### Reading -/

section Reading

/-- `p` decodes exactly `bs` to `a` and allocates `cost` nodes, whatever follows. -/
def Decodes {α : Type} (p : Parser UnmarshalState α) (bs : List UInt8) (a : α) (cost : ℕ) : Prop :=
  ∀ buf (s : UnmarshalState) tail, (bufferCursor buf).At s.bw (bs ++ tail) →
    s.astAllocationCount + cost ≤ MAX_AST_PER_STACK →
    ∃ s', p s = some (a, s') ∧ (bufferCursor buf).At s'.bw tail ∧
      s'.astAllocationCount = s.astAllocationCount + cost

variable {α β : Type} {p : Parser UnmarshalState α} {f : α → Parser UnmarshalState β}
  {bs cs : List UInt8} {a : α} {b : β} {m n : ℕ}

theorem Decodes.done (a : α) : Decodes (pure a) [] a 0 :=
  fun _ s _ hat _ ↦ ⟨s, rfl, hat, rfl⟩

/-- Sequencing: the bytes are read one after the other, and the costs add up. -/
theorem Decodes.bind (hp : Decodes p bs a m) (hf : Decodes (f a) cs b n) :
    Decodes (p >>= f) (bs ++ cs) b (m + n) := by
  intro buf s tail hat hcost
  rw [List.append_assoc] at hat
  obtain ⟨s₁, h₁, hat₁, hc₁⟩ := hp buf s _ hat (by omega)
  obtain ⟨s₂, h₂, hat₂, hc₂⟩ := hf buf s₁ _ hat₁ (by omega)
  exact ⟨s₂, bind_eq_some.2 ⟨a, s₁, h₁, h₂⟩, hat₂, by omega⟩

/-- A step that reads nothing and allocates nothing, before `f`. -/
theorem Decodes.silent (hp : Decodes p [] a 0) (hf : Decodes (f a) cs b n) :
    Decodes (p >>= f) cs b n := by
  have h := hp.bind hf
  rwa [List.nil_append, Nat.zero_add] at h

/-- The same with a last step that reads nothing. -/
theorem Decodes.bind_done (hp : Decodes p bs a m) (hf : Decodes (f a) [] b 0) :
    Decodes (p >>= f) bs b m := by
  have h := hp.bind hf
  rwa [List.append_nil, Nat.add_zero] at h

theorem Decodes.onBuffer {p : Parser BufferWrapper α}
    (hp : ∀ buf, Reads (bufferCursor buf) p bs a) : Decodes (onBuffer p) bs a 0 := by
  intro buf s tail hat _
  obtain ⟨bw', hbw', hat'⟩ := (hp buf).full s.bw tail hat
  exact ⟨{ s with bw := bw' }, by rw [Value.onBuffer, hbw']; rfl, hat', rfl⟩

theorem Decodes.newStackAst : Decodes newStackAst [] true 1 := by
  intro buf s tail hat hcost
  refine ⟨{ s with astAllocationCount := s.astAllocationCount + 1 }, ?_, hat, rfl⟩
  rw [Value.newStackAst, decide_eq_true hcost]

theorem Decodes.error : Decodes error [] false 0 :=
  fun buf s _ hat _ ↦
    ⟨s, congrArg (fun e ↦ some (e, s)) ((bufferCursor buf).not_failed hat), hat, rfl⟩

theorem Decodes.finish (v : Value D) : Decodes (finish (some v)) [] v 0 :=
  Decodes.silent Decodes.error (Decodes.done v)

theorem Decodes.netInt (x : UInt32) : Decodes (Value.onBuffer retrieveNetInt) (net32 x) x 0 :=
  Decodes.onBuffer fun _ ↦ reads_retrieveNetInt x

theorem Decodes.netUint (x : UInt32) : Decodes (Value.onBuffer retrieveNetUint) (net32 x) x 0 :=
  Decodes.onBuffer fun _ ↦ reads_retrieveNetUint x

/-- The bytes of a string, once its size has been read. -/
theorem Decodes.retrieveStr (s : Str) :
    Decodes (retrieveStr (UInt32.ofNat s.length)) s (some s) 0 := by
  have hbuf : Decodes (Value.onBuffer (retrieveBuf (toInt (UInt32.ofNat s.length)))) s
      (some s) 0 := by
    intro buf st tail hat _
    obtain ⟨bw', hbw', hat'⟩ := retrieveBuf_full hat
    exact ⟨{ st with bw := bw' }, by rw [Value.onBuffer, hbw']; rfl, hat', rfl⟩
  exact hbuf.bind_done (Decodes.silent Decodes.error (Decodes.done (some s)))

/-- A decoder may be proved right for encodings shorter than the `int` range only: longer ones do not
occur in a buffer. -/
theorem Decodes.of_length (h : bs.length < 2 ^ 31 → Decodes p bs a n) : Decodes p bs a n := by
  intro buf s tail hat hcost
  have hlen : bs.length < 2 ^ 31 := by
    obtain ⟨hrange, front, hbuf, -⟩ := hat
    have hbuf' := congrArg List.length hbuf
    simp only [List.length_append] at hbuf'
    rw [InRange] at hrange
    omega
  exact h hlen buf s tail hat hcost

/-! ### The map under construction -/

/-- The entries of a map arrive in the order of their keys, so each is inserted at the end. -/
theorem mapInsert_eq_append {name : Str} {v : Value D} {acc : List (Str × Value D)}
    (h : ∀ e ∈ acc, e.1 < name) : mapInsert name v acc = acc ++ [(name, v)] := by
  induction acc with
  | nil => rfl
  | cons e acc ih =>
    obtain ⟨key', v'⟩ := e
    have hlt : key' < name := h _ (List.mem_cons_self ..)
    have hnlt : ¬ name < key' := List.lt_asymm hlt
    have hne : name ≠ key' := by
      rintro rfl
      exact List.lt_irrefl _ hlt
    rw [mapInsert, if_neg hnlt, if_neg hne, ih fun e he ↦ h e (List.mem_cons_of_mem _ he)]
    rfl

/-! ### The tree -/

/-- A node: its allocation, its tag, and the rest of it. -/
theorem Decodes.node {t : ASTType} {fuel : ℕ} {v : Value D}
    (h : Decodes (unmarshalNode xdr (unmarshalFuel xdr fuel) (some t)) cs v n) :
    Decodes (unmarshalFuel xdr (fuel + 1)) (net32 t.toWord ++ cs) v (1 + n) := by
  refine (List.nil_append (net32 t.toWord ++ cs)) ▸ Decodes.newStackAst.bind ?_
  rw [← Nat.zero_add n]
  refine (Decodes.netInt t.toWord).bind ?_
  rwa [ASTType.ofWord_toWord]

mutual

/-- **`unmarshal_ast` reads the encoding of a value**, with one allocation for each of its nodes and
any bound on its depth that the number of nodes meets. -/
theorem decodes_unmarshalFuel : ∀ (v : Value D) (fuel : ℕ), v.Sendable → v.nodes ≤ fuel →
    Decodes (unmarshalFuel xdr fuel) (encode xdr v) v v.nodes
  | v, 0, _, hfuel => absurd hfuel (by cases v <;> simp [nodes])
  | empty, fuel + 1, _, _ => by
    have h : Decodes (unmarshalNode xdr (unmarshalFuel xdr fuel) (some .emptyType)) [] empty 0 :=
      Decodes.finish empty
    simpa only [List.append_nil, encode, nodes] using h.node
  | int i, fuel + 1, _, _ => by
    have h : Decodes (unmarshalNode xdr (unmarshalFuel xdr fuel) (some .intType))
        (net32 i.toUInt32) (int i) 0 :=
      (Decodes.netInt i.toUInt32).bind_done (Decodes.finish (int i))
    exact h.node
  | double d, fuel + 1, _, _ => by
    have hbuf := Decodes.retrieveStr (xdr.encode d)
    rw [xdr.length_encode] at hbuf
    have h : Decodes (unmarshalNode xdr (unmarshalFuel xdr fuel) (some .doubleType))
        (xdr.encode d) (double d) 0 := by
      refine hbuf.bind_done ?_
      rw [Option.map_some, xdr.decode_encode]
      exact Decodes.finish (double d)
    exact h.node
  | string s, fuel + 1, _, _ => by
    have h : Decodes (unmarshalNode xdr (unmarshalFuel xdr fuel) (some .stringType))
        (encodeStr s) (string s) (0 + 0) :=
      (Decodes.netUint _).bind ((Decodes.retrieveStr s).bind_done (Decodes.finish (string s)))
    exact h.node
  | array aType aAdtName aVector, fuel + 1, hv, hfuel => by
    obtain ⟨hname, hvs⟩ : _ ∧ MarshallableVector aVector := by
      simpa [Sendable, Marshallable] using hv
    rw [nodes] at hfuel
    have hvector (name : Option Str) := decodes_vector (array aType name) aVector fuel hvs (by omega)
    refine Decodes.node (Decodes.of_length fun hlen ↦ ?_)
    rw [← Nat.zero_add (nodesVector aVector)]
    refine (Decodes.netInt aType).bind ?_
    rw [← Nat.zero_add (nodesVector aVector), encodeStr, List.append_assoc]
    refine (Decodes.netUint _).bind ?_
    by_cases hadt : aType = ASTType.adtType.toWord
    · rw [if_pos hadt] at hname
      obtain ⟨name, hne, rfl⟩ := hname
      have hsize : UInt32.ofNat name.length ≠ 0 := by
        have hpos := List.length_pos_of_ne_nil hne
        simp only [List.length_append, Option.getD_some, encodeStr] at hlen
        intro hzero
        have hnat := congrArg UInt32.toNat hzero
        rw [UInt32.toNat_ofNat_of_lt' (show name.length < 2 ^ 32 by omega)] at hnat
        exact absurd hnat hpos.ne'
      simp only [Option.getD_some, if_neg hsize]
      rw [← Nat.zero_add (nodesVector aVector)]
      exact (Decodes.retrieveStr name).bind (hvector (some name))
    · rw [if_neg hadt] at hname
      subst hname
      exact hvector none
  | adt adtTypeName adtMap, fuel + 1, hv, hfuel => by
    obtain ⟨hkeys, hmap⟩ : _ ∧ MarshallableMap adtMap := by
      simpa [Sendable, Marshallable] using hv
    rw [nodes] at hfuel
    refine Decodes.node (Decodes.of_length fun hlen ↦ ?_)
    have hle : adtMap.length ≤ (encodeMap xdr adtMap).length := length_le_encodeMap hmap
    simp only [List.length_append] at hlen
    rw [← Nat.zero_add (nodesMap adtMap), encodeStr, List.append_assoc]
    refine (Decodes.netUint _).bind ?_
    rw [← Nat.zero_add (nodesMap adtMap)]
    refine (Decodes.retrieveStr adtTypeName).bind ?_
    rw [← Nat.zero_add (nodesMap adtMap)]
    refine (Decodes.netUint _).bind ?_
    rw [UInt32.toNat_ofNat_of_lt' (show adtMap.length < 2 ^ 32 by omega)]
    have h := decodes_unmarshalMap adtMap fuel [] hmap (by omega) hkeys
    exact h.bind_done (Decodes.finish (adt adtTypeName adtMap))
  | sep pVector, fuel + 1, hv, hfuel => by
    have hvs : MarshallableVector pVector := by simpa [Sendable, Marshallable] using hv
    rw [nodes] at hfuel
    exact Decodes.node (decodes_vector sep pVector fuel hvs (by omega))
  | other type, fuel + 1, hv, _ => absurd hv (by simp [Sendable, Marshallable])

/-- The size of a vector, its entries, and the node they are for. -/
theorem decodes_vector (node : List (Value D) → Value D) (vs : List (Value D)) (fuel : ℕ)
    (hvs : MarshallableVector vs) (hfuel : nodesVector vs ≤ fuel) :
    Decodes (do
        let vectorSize ← onBuffer retrieveNetUint
        let vs ← unmarshalVector (unmarshalFuel xdr fuel) vectorSize.toNat
        finish (vs.map node))
      (net32 (UInt32.ofNat vs.length) ++ encodeVector xdr vs) (node vs) (nodesVector vs) := by
  refine Decodes.of_length fun hlen ↦ ?_
  have hle : vs.length ≤ (encodeVector xdr vs).length := length_le_encodeVector hvs
  rw [List.length_append] at hlen
  rw [← Nat.zero_add (nodesVector vs)]
  refine (Decodes.netUint _).bind ?_
  rw [UInt32.toNat_ofNat_of_lt' (show vs.length < 2 ^ 32 by omega)]
  exact (decodes_unmarshalVector vs fuel hvs hfuel).bind_done (Decodes.finish (node vs))

/-- The entries of a vector. -/
theorem decodes_unmarshalVector : ∀ (vs : List (Value D)) (fuel : ℕ), MarshallableVector vs →
    nodesVector vs ≤ fuel →
    Decodes (unmarshalVector (unmarshalFuel xdr fuel) vs.length) (encodeVector xdr vs) (some vs)
      (nodesVector vs)
  | [], fuel, _, _ => Decodes.done _
  | v :: vs, fuel, hvs, hfuel => by
    rw [MarshallableVector] at hvs
    rw [nodesVector] at hfuel
    have hv := decodes_unmarshalFuel v fuel (Or.inr hvs.1) (by omega)
    have hrest := decodes_unmarshalVector vs fuel hvs.2 (by omega)
    refine hv.bind ?_
    rw [hvs.1.isEmpty_eq]
    exact hrest.bind_done (Decodes.done (some (v :: vs)))

/-- The entries of a map, behind those that are in it already. -/
theorem decodes_unmarshalMap : ∀ (fields : List (Str × Value D)) (fuel : ℕ)
    (acc : List (Str × Value D)), MarshallableMap fields → nodesMap fields ≤ fuel →
    (acc ++ fields).Pairwise (fun a b ↦ a.1 < b.1) →
    Decodes (unmarshalMap (unmarshalFuel xdr fuel) fields.length acc) (encodeMap xdr fields)
      (some (acc ++ fields)) (nodesMap fields)
  | [], fuel, acc, _, _, _ => by
    rw [List.append_nil]
    exact Decodes.done (some acc)
  | (name, v) :: rest, fuel, acc, hfields, hfuel, hkeys => by
    rw [MarshallableMap] at hfields
    rw [nodesMap] at hfuel
    have hv := decodes_unmarshalFuel v fuel (Or.inr hfields.1) (by omega)
    have hinsert : mapInsert name v acc = acc ++ [(name, v)] :=
      mapInsert_eq_append fun e he ↦
        (List.pairwise_append.1 hkeys).2.2 e he _ (List.mem_cons_self ..)
    have hassoc : acc ++ (name, v) :: rest = (acc ++ [(name, v)]) ++ rest := by
      rw [List.append_assoc]
      rfl
    rw [hassoc] at hkeys ⊢
    have hrest := decodes_unmarshalMap rest fuel _ hfields.2 (by omega) hkeys
    rw [encodeMap, encodeStr, List.append_assoc, ← Nat.zero_add (nodesMap _)]
    refine (Decodes.netUint _).bind ?_
    rw [← Nat.zero_add (nodesMap _)]
    refine (Decodes.retrieveStr name).bind (hv.bind ?_)
    rw [hfields.1.isEmpty_eq, hinsert]
    exact hrest

end

end Reading

/-! ### The round trip -/

/-- **A value survives the round trip.** In a packet with room for it, `marshal_ast` reports success
and appends bytes from which `unmarshal_ast` rebuilds the value, wherever the bytes lie in a buffer
and whatever follows them, and it leaves the cursor right behind them. -/
theorem unmarshalAst_marshalAst (xdr : XdrDouble D) (v : Value D) (p : RealPacket)
    (hv : v.Sendable) (hp : p.complete = true) (hcap : p.maxPacketSize.toNat < 2 ^ 31)
    (hroom : p.payload.length + (encode xdr v).length ≤ p.maxPacketSize.toNat) :
    ∃ bs p', marshalAst xdr v p = some (0, p') ∧ p'.complete = true ∧
      p'.payload = p.payload ++ bs ∧
      ∀ front following : List UInt8, InRange (front ++ (bs ++ following)) →
        ∀ allocated, allocated + v.nodes ≤ MAX_AST_PER_STACK →
          unmarshalAst xdr ⟨⟨false, front ++ (bs ++ following), front.length⟩, allocated⟩ =
            some (v, ⟨⟨false, front ++ (bs ++ following), (front ++ bs).length⟩,
              allocated + v.nodes⟩) := by
  have hwrote : Wrote p.maxPacketSize p.dest p.payload p :=
    ⟨rfl, rfl, fun _ ↦ ⟨hp, rfl⟩, fun hlt ↦ by omega⟩
  have hfit : (p.payload ++ encode xdr v).length ≤ p.maxPacketSize.toNat := by
    rwa [List.length_append]
  obtain ⟨p', hp', hw⟩ := wrote_marshalAst hcap v hv hwrote hfit
  obtain ⟨hcomplete, hpayload⟩ := hw.fits hfit
  refine ⟨encode xdr v, p', hp', hcomplete, hpayload, ?_⟩
  intro front following hrange allocated hbudget
  obtain ⟨⟨bw, alloc⟩, hs, ⟨-, front', hbuf, hbw⟩, halloc⟩ :=
    (decodes_unmarshalFuel v (MAX_AST_PER_STACK + 1) hv (by omega) :
      Decodes (unmarshalFuel xdr (MAX_AST_PER_STACK + 1)) (encode xdr v) v v.nodes) _
      ⟨⟨false, front ++ (encode xdr v ++ following), front.length⟩, allocated⟩ following
      ⟨hrange, front, rfl, rfl⟩ hbudget
  have hfront : front' = front ++ encode xdr v := by
    rw [← List.append_assoc, List.append_left_inj] at hbuf
    exact hbuf.symm
  subst hfront
  rw [unmarshalAst, hs]
  exact congrArg (fun s ↦ some (v, s)) (congrArg₂ UnmarshalState.mk hbw halloc)

/-- `xdr_double` for doubles given by their bits: eight bytes, the most significant first. -/
def bitsXdr : XdrDouble UInt64 where
  encode d := (leBytes 8 d.toNat).reverse
  decode bs := UInt64.ofNat (ofLeBytes bs.reverse)
  length_encode d := by rw [List.length_reverse, length_leBytes]
  decode_encode d := by
    rw [List.reverse_reverse, ofLeBytes_leBytes_of_lt d.toNat_lt, UInt64.ofNat_toNat]

/-- A struct with an array of doubles, behind two bytes of a packet. -/
theorem unmarshalAst_marshalAst_struct :
    ∃ bs p', marshalAst bitsXdr (adt [65] [([97], int 5), ([98], array 2 none [double 7])])
        ⟨⟨1, 80, 0, 0⟩, [1, 2], true, 1400⟩ = some (0, p') ∧ p'.complete = true ∧
      p'.payload = [1, 2] ++ bs ∧
      ∀ front following : List UInt8, InRange (front ++ (bs ++ following)) →
        ∀ allocated, allocated + 4 ≤ MAX_AST_PER_STACK →
          unmarshalAst bitsXdr ⟨⟨false, front ++ (bs ++ following), front.length⟩, allocated⟩ =
            some (adt [65] [([97], int 5), ([98], array 2 none [double 7])],
              ⟨⟨false, front ++ (bs ++ following), (front ++ bs).length⟩, allocated + 4⟩) :=
  unmarshalAst_marshalAst bitsXdr (adt [65] [([97], int 5), ([98], array 2 none [double 7])])
    ⟨⟨1, 80, 0, 0⟩, [1, 2], true, 1400⟩
    (by
      refine Or.inr ⟨by simp; decide, trivial, ⟨?_, trivial, trivial⟩, trivial⟩
      rw [if_neg (by decide)])
    rfl (by decide) (by decide)

/-- **The size of a string is passed as an `int`.** A string of 2^31 bytes is left out of the packet,
although `marshal_ast` reports success: the length alone is written. -/
theorem marshalAst_omits_long_string :
    ¬ ∀ (v : Value UInt64) (p : RealPacket), v.Sendable → p.complete = true →
      p.payload.length + (encode bitsXdr v).length ≤ p.maxPacketSize.toNat →
      ∃ p', marshalAst bitsXdr v p = some (0, p') ∧
        ∃ s', unmarshalAst bitsXdr ⟨new p'.payload, 0⟩ = some (v, s') := by
  intro h
  -- the length is kept as a variable, so that no string of that length is ever evaluated
  obtain ⟨n, hint, hword, hn⟩ : ∃ n, toInt (UInt32.ofNat n) ≤ 0 ∧ htonl (UInt32.ofNat n) = 128 ∧
      n + 8 ≤ (4294967295 : UInt32).toNat :=
    ⟨2 ^ 31, by decide, by decide, by decide⟩
  obtain ⟨p', hp', s', hs'⟩ := h (string (List.replicate n 0))
    (RealPacket.new ⟨1, 80, 0, 0⟩ 4294967295) (Or.inr trivial) rfl (by
      simp only [encode, encodeStr, RealPacket.new, List.length_append, length_le32,
        List.length_replicate, List.length_nil]
      omega)
  have hstr (q : RealPacket) : q.appendStr (List.replicate n 0) = q := by
    rw [RealPacket.appendStr, List.length_replicate]
    exact if_pos hint
  rw [marshalAst, hstr, List.length_replicate, hword] at hp'
  obtain rfl := (Prod.mk.inj (Option.some.inj hp')).2
  have hempty : (unmarshalAst bitsXdr ⟨new [0, 0, 0, 5, 128, 0, 0, 0], 0⟩).map Prod.fst =
      some empty := rfl
  have hvalue := congrArg (Option.map Prod.fst) hs'
  exact absurd (hempty.symm.trans hvalue) (by simp)

end Meridian.MQL.Value

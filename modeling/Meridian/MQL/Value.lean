import Meridian.Marshal.RoundTrip

/-!
# Marshalling of MQL values

`marshal_ast` and `unmarshal_ast` of `MeridianDSL.cpp`, on value trees: the nodes that can be the
value of an expression, as a tree. (Sharing and ownership of nodes play no part here; the
interpreter's heap of nodes is a model of its own.)

* A `double` is an arbitrary type with an 8-byte XDR encoding, `XdrDouble`.
* A `map<string, ASTNode*>` is its list of entries in the order of the keys.
* `EMPTY` is both a value and the decoder's answer on failure, as in the source.
* The decoder allocates one node per call and gives up at `MAX_AST_PER_STACK`. Its recursion is
  bounded by that budget, so it is a recursion on a fuel that the budget never lets run out.

`encode` is what a tree looks like on the wire. `Value.wrote` says that `marshalAst` appends exactly
that, and `Value.decodes` that `unmarshalAst` reads exactly that, with the cursor right behind it.
-/

namespace Meridian.MQL

open Lib BufferWrapper

/-- `ASTType`, in the order of the source. -/
inductive ASTType where
  | emptyType
  | intType
  | doubleType
  | newVarType
  | refVarType
  | stringType
  | astType
  | sepType
  | funcRefType
  | printType
  | unaryType
  | binType
  | ifType
  | newVarAssignType
  | loopType
  | breakType
  | continueType
  | contextType
  | funcDeclareType
  | funcCallType
  | voidType
  | returnType
  | defAdtType
  | adtType
  | varAdtType
  | refVarAdtType
  | assignAdtType
  | arrayType
  | refVarArrayType
  | rpcType
  | nativeFuncType
  | forLoopType
  | printlnType
  deriving DecidableEq, Repr

/-- The enumerators in order. -/
def ASTType.all : List ASTType :=
  [.emptyType, .intType, .doubleType, .newVarType, .refVarType, .stringType, .astType, .sepType,
    .funcRefType, .printType, .unaryType, .binType, .ifType, .newVarAssignType, .loopType,
    .breakType, .continueType, .contextType, .funcDeclareType, .funcCallType, .voidType,
    .returnType, .defAdtType, .adtType, .varAdtType, .refVarAdtType, .assignAdtType, .arrayType,
    .refVarArrayType, .rpcType, .nativeFuncType, .forLoopType, .printlnType]

/-- An enumerator as the word that is sent. -/
def ASTType.toWord (t : ASTType) : UInt32 := UInt32.ofNat (ASTType.all.idxOf t)

/-- The enumerator a received word stands for, if any. -/
def ASTType.ofWord (w : UInt32) : Option ASTType := ASTType.all[w.toNat]?

@[simp] theorem ASTType.ofWord_toWord (t : ASTType) : ofWord t.toWord = some t := by
  cases t <;> rfl

theorem ASTType.toWord_ofWord {w : UInt32} {t : ASTType} (h : ofWord w = some t) :
    t.toWord = w := by
  obtain ⟨hlt, rfl⟩ := List.getElem?_eq_some_iff.1 h
  rw [toWord, List.Nodup.idxOf_getElem (by decide), UInt32.ofNat_toNat]

/-- A `string`. -/
abbrev Str := List UInt8

/-- A value tree. The element type of an array is the word that is cast to an `ASTType`; its struct
name is `none` where the member has not been set. -/
inductive Value (D : Type) where
  | empty
  | int (i : Int32)
  | double (d : D)
  | string (s : Str)
  | array (aType : UInt32) (aAdtName : Option Str) (aVector : List (Value D))
  | adt (adtTypeName : Str) (adtMap : List (Str × Value D))
  | sep (pVector : List (Value D))
  | other (type : ASTType)

/-- `xdr_double` on a stream of 8 bytes: encoding and decoding succeed, and the second inverts the
first. -/
structure XdrDouble (D : Type) where
  encode : D → List UInt8
  decode : List UInt8 → D
  length_encode : ∀ d, (encode d).length = 8
  decode_encode : ∀ d, decode (encode d) = d

namespace Value

variable {D : Type}

/-! ### `marshal_ast` -/

mutual

/-- `marshal_ast`. `none` is the use of a struct name that has not been set. -/
def marshalAst (xdr : XdrDouble D) : Value D → RealPacket → Option (Int × RealPacket)
  | empty, p => some (p.appendInt (htonl ASTType.emptyType.toWord).toInt32).result
  | int i, p =>
    let p := p.appendInt (htonl ASTType.intType.toWord).toInt32
    some (p.appendInt (htonl i.toUInt32).toInt32).result
  | double d, p =>
    let p := p.appendInt (htonl ASTType.doubleType.toWord).toInt32
    some (p.appendStr (xdr.encode d)).result
  | string s, p =>
    let p := p.appendInt (htonl ASTType.stringType.toWord).toInt32
    let p := p.appendUint (htonl (UInt32.ofNat s.length))
    some (p.appendStr s).result
  | array aType aAdtName aVector, p =>
    let p := p.appendInt (htonl ASTType.arrayType.toWord).toInt32
    let p := p.appendInt (htonl aType).toInt32
    let p? : Option RealPacket :=
      if aType = ASTType.adtType.toWord then
        aAdtName.map fun name ↦
          (p.appendUint (htonl (UInt32.ofNat name.length))).appendStr name
      else
        some (p.appendUint (htonl 0))
    match p? with
    | none => none
    | some p => marshalVector xdr aVector (p.appendUint (htonl (UInt32.ofNat aVector.length)))
  | adt adtTypeName adtMap, p =>
    let p := p.appendInt (htonl ASTType.varAdtType.toWord).toInt32
    let p := p.appendUint (htonl (UInt32.ofNat adtTypeName.length))
    let p := p.appendStr adtTypeName
    marshalMap xdr adtMap (p.appendUint (htonl (UInt32.ofNat adtMap.length)))
  | sep pVector, p =>
    let p := p.appendInt (htonl ASTType.sepType.toWord).toInt32
    marshalVector xdr pVector (p.appendUint (htonl (UInt32.ofNat pVector.length)))
  | other type, p => some (-1, p.appendInt (htonl type.toWord).toInt32)

/-- The loop over a vector: it ends with the first entry that fails. -/
def marshalVector (xdr : XdrDouble D) : List (Value D) → RealPacket → Option (Int × RealPacket)
  | [], p => some p.result
  | v :: vs, p =>
    match marshalAst xdr v p with
    | none => none
    | some (rc, p) => if rc = -1 then some (-1, p) else marshalVector xdr vs p

/-- The loop over a map. -/
def marshalMap (xdr : XdrDouble D) : List (Str × Value D) → RealPacket → Option (Int × RealPacket)
  | [], p => some p.result
  | (name, v) :: rest, p =>
    let p := p.appendUint (htonl (UInt32.ofNat name.length))
    match marshalAst xdr v (p.appendStr name) with
    | none => none
    | some (rc, p) => if rc = -1 then some (-1, p) else marshalMap xdr rest p

end

/-! ### `unmarshal_ast` -/

/-- `MAX_AST_PER_STACK`. -/
def MAX_AST_PER_STACK : ℕ := 100000

end Value

/-- What `unmarshal_ast` works on: the buffer, and the allocation count of the parser state. -/
structure UnmarshalState where
  bw : BufferWrapper
  astAllocationCount : ℕ

namespace Value

variable {D : Type}

/-- A `retrieve_…` call. -/
def onBuffer {α : Type} (p : Parser BufferWrapper α) : Parser UnmarshalState α :=
  fun s ↦ (p s.bw).map fun r ↦ (r.1, { s with bw := r.2 })

theorem onBuffer_bind {α β : Type} (p : Parser BufferWrapper α) (f : α → Parser BufferWrapper β) :
    onBuffer (p >>= f) = (onBuffer p >>= fun a ↦ onBuffer (f a)) := by
  funext s
  show ((p s.bw).bind fun r ↦ f r.1 r.2).map _ = ((p s.bw).map _).bind _
  cases p s.bw with
  | none => rfl
  | some r => rfl

theorem onBuffer_eq_some {α : Type} {p : Parser BufferWrapper α} {s s' : UnmarshalState} {a : α}
    (h : onBuffer p s = some (a, s')) : p s.bw = some (a, s'.bw) := by
  obtain ⟨⟨a', bw⟩, hp, heq⟩ := Option.map_eq_some_iff.1 h
  cases heq
  exact hp

/-- `new_stack_ast`; `false` is NULL. -/
def newStackAst : Parser UnmarshalState Bool :=
  fun s ↦ some (decide (s.astAllocationCount + 1 ≤ MAX_AST_PER_STACK),
    { s with astAllocationCount := s.astAllocationCount + 1 })

/-- `bw->error()`. -/
def error : Parser UnmarshalState Bool := fun s ↦ some (s.bw.errorFlag, s)

/-- A string of `size` bytes, or `none` on an error. -/
def retrieveStr (size : UInt32) : Parser UnmarshalState (Option Str) := do
  let buf ← onBuffer (retrieveBuf (toInt size))
  let e ← error
  pure (if e then none else buf)

/-- `map[key] = v`. -/
def mapInsert (key : Str) (v : Value D) : List (Str × Value D) → List (Str × Value D)
  | [] => [(key, v)]
  | (key', v') :: rest =>
    if key < key' then (key, v) :: (key', v') :: rest
    else if key = key' then (key, v) :: rest
    else (key', v') :: mapInsert key v rest

/-- The type tag says `EMPTY`: a value that has not been read. -/
def isEmpty : Value D → Bool
  | empty => true
  | _ => false

/-- The loop that reads a vector; `none` once an entry is `EMPTY`. -/
def unmarshalVector (elem : Parser UnmarshalState (Value D)) :
    ℕ → Parser UnmarshalState (Option (List (Value D)))
  | 0 => pure (some [])
  | n + 1 => do
    let v ← elem
    if v.isEmpty then pure none
    else
      let vs ← unmarshalVector elem n
      pure (vs.map (v :: ·))

/-- The loop that reads a map. -/
def unmarshalMap (elem : Parser UnmarshalState (Value D)) :
    ℕ → List (Str × Value D) → Parser UnmarshalState (Option (List (Str × Value D)))
  | 0, acc => pure (some acc)
  | n + 1, acc => do
    let size ← onBuffer retrieveNetUint
    let name ← retrieveStr size
    match name with
    | none => pure none
    | some name => do
      let v ← elem
      if v.isEmpty then pure none else unmarshalMap elem n (mapInsert name v acc)

/-- The check at the end: the node that was built, unless an error has occurred. -/
def finish (v : Option (Value D)) : Parser UnmarshalState (Value D) := do
  let e ← error
  pure (if e then empty else v.getD empty)

/-- The `switch` on the type of the node, and what follows it. `elem` reads the entries. -/
def unmarshalNode (xdr : XdrDouble D) (elem : Parser UnmarshalState (Value D)) :
    Option ASTType → Parser UnmarshalState (Value D)
  | some .emptyType => finish (some empty)
  | some .intType => do
    let i ← onBuffer retrieveNetInt
    finish (some (int i.toInt32))
  | some .doubleType => do
    let buf ← retrieveStr 8
    finish (buf.map fun buf ↦ double (xdr.decode buf))
  | some .stringType => do
    let size ← onBuffer retrieveNetUint
    let buf ← retrieveStr size
    finish (buf.map string)
  | some .arrayType => do
    let aType ← onBuffer retrieveNetInt
    let size ← onBuffer retrieveNetUint
    if size = 0 then
      let vectorSize ← onBuffer retrieveNetUint
      let vs ← unmarshalVector elem vectorSize.toNat
      finish (vs.map (array aType none))
    else
      let name ← retrieveStr size
      match name with
      | none => pure empty
      | some name =>
        let vectorSize ← onBuffer retrieveNetUint
        let vs ← unmarshalVector elem vectorSize.toNat
        finish (vs.map (array aType (some name)))
  | some .varAdtType => do
    let size ← onBuffer retrieveNetUint
    let name ← retrieveStr size
    match name with
    | none => pure empty
    | some name =>
      let mapSize ← onBuffer retrieveNetUint
      let fields ← unmarshalMap elem mapSize.toNat []
      finish (fields.map (adt name))
  | some .sepType => do
    let vectorSize ← onBuffer retrieveNetUint
    let vs ← unmarshalVector elem vectorSize.toNat
    finish (vs.map sep)
  | _ => pure empty

/-- `unmarshal_ast` with a bound on the depth of the recursion. -/
def unmarshalFuel (xdr : XdrDouble D) : ℕ → Parser UnmarshalState (Value D)
  | 0 => pure empty
  | fuel + 1 => do
    let allocated ← newStackAst
    if !allocated then pure empty
    else
      let word ← onBuffer retrieveNetInt
      unmarshalNode xdr (unmarshalFuel xdr fuel) (ASTType.ofWord word)

/-- `unmarshal_ast`. Every level of the recursion has allocated a node, so the depth is within the
allocation limit. -/
def unmarshalAst (xdr : XdrDouble D) : Parser UnmarshalState (Value D) :=
  unmarshalFuel xdr (MAX_AST_PER_STACK + 1)

end Value

end Meridian.MQL

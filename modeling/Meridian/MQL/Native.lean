import Meridian.MQL.Update
import Meridian.RingSet

/-!
# Native functions of MQL

`evalNativeFunctions` of `MeridianDSL.cpp`, on operands that have been evaluated, with the handlers
of `Query.cpp` behind it.

What the node around the interpreter contributes is a `Host`: its rings, its rendavous host, and what
has arrived by the time that a blocked interpreter is resumed. Requests that go out are left out.
-/

namespace Meridian.MQL

/-- What the Meridian process provides in a step: its rendavous host and rings for the functions that
read them, the reply to an `rpc`, and the matrix of latencies that ends a `get_distance`. -/
structure Host (D : Type) where
  rendv : NodeIdent
  rings : RingSet
  getRingNumber : UInt32 → Fin MAX_NUM_RINGS
  reply : Option (Value D)
  latencies : Option (List (NodeIdentRendv × List UInt32))

/-! ### Names -/

/-- `"Node"` -/
def nodeName : Str := [78, 111, 100, 101]

/-- `"Measurement"` -/
def measurementName : Str := [77, 101, 97, 115, 117, 114, 101, 109, 101, 110, 116]

/-- `"addr"` -/
def addrName : Str := [97, 100, 100, 114]

/-- `"port"` -/
def portName : Str := [112, 111, 114, 116]

/-- `"rendvAddr"` -/
def rendvAddrName : Str := [114, 101, 110, 100, 118, 65, 100, 100, 114]

/-- `"rendvPort"` -/
def rendvPortName : Str := [114, 101, 110, 100, 118, 80, 111, 114, 116]

/-- `"distance"` -/
def distanceName : Str := [100, 105, 115, 116, 97, 110, 99, 101]

/-- `"$RETURN_VALUE$"`, which is no identifier. -/
def returnString : Str := [36, 82, 69, 84, 85, 82, 78, 95, 86, 65, 76, 85, 69, 36]

/-- The decimal digits of a byte. -/
def decimal (n : ℕ) : Str :=
  if n < 10 then [UInt8.ofNat (48 + n)]
  else if n < 100 then [UInt8.ofNat (48 + n / 10), UInt8.ofNat (48 + n % 10)]
  else [UInt8.ofNat (48 + n / 100), UInt8.ofNat (48 + n / 10 % 10), UInt8.ofNat (48 + n % 10)]

/-- `inet_ntoa` of `htonl(addr)`. -/
def inetNtoa (addr : UInt32) : Str :=
  let n := addr.toNat
  decimal (n / 2 ^ 24 % 256) ++ [46] ++ decimal (n / 2 ^ 16 % 256) ++ [46] ++
    decimal (n / 2 ^ 8 % 256) ++ [46] ++ decimal (n % 256)

section Rings

variable {D : Type} [CDouble D]

/-- A latency in ms. -/
def toMs (us : UInt32) : D := CDouble.div (CDouble.ofUInt us) (CDouble.ofInt 1000)

/-- The members of a ring whose latency satisfies the comparison. -/
def comparedMembers (rs : RingSet) (compare : D → Bool) (r : Fin MAX_NUM_RINGS) :
    List NodeIdentRendv :=
  ((rs.primaryRing r).filter fun n ↦
    match rs.nodeLatencyUS[n]? with
    | some us => compare (toMs us)
    | none => false).map rs.rendvEntry

/-- All members of the rings that satisfy a condition. -/
def ringMembers (rs : RingSet) (p : Fin MAX_NUM_RINGS → Bool) : List NodeIdentRendv :=
  ((List.finRange MAX_NUM_RINGS).filter p).flatMap fun r ↦ (rs.primaryRing r).map rs.rendvEntry

/-- `outMembers` in `handleRingGTE` and `handleRingLTE`. -/
def outMembers (host : Host D) (f : RingFunc) (d : D) : List NodeIdentRendv :=
  let us := CDouble.mul d (CDouble.ofInt 1000)
  let low := host.getRingNumber (CDouble.toUInt (CDouble.floor us))
  let high := host.getRingNumber (CDouble.toUInt (CDouble.ceil us))
  match f with
  | .gt => comparedMembers host.rings (CDouble.lt d) low ++ ringMembers host.rings (low < ·)
  | .ge => comparedMembers host.rings (CDouble.le d) low ++ ringMembers host.rings (low < ·)
  | .lt => comparedMembers host.rings (CDouble.lt · d) high ++ ringMembers host.rings (· < high)
  | .le => comparedMembers host.rings (CDouble.le · d) high ++ ringMembers host.rings (· < high)

end Rings

variable {D : Type} [CDouble D]

namespace Interp

/-! ### New values -/

/-- `mk_int`. -/
def mkInt (i : Int32) : Interp D Ptr := do
  return orEmpty (← newStackAst (← getVarTable) (pure (.int i)))

/-- `mk_double`. -/
def mkDouble (d : D) : Interp D Ptr := do
  return orEmpty (← newStackAst (← getVarTable) (pure (.double d)))

/-- `mk_string`. -/
def mkString (s : Str) : Interp D Ptr := do
  let t ← getVarTable
  return orEmpty (← newStackAst t do return .string (← newStackString t s))

/-- `mk_sep_list` of a vector. -/
def mkSepList (v : List Ptr) : Interp D Ptr := do
  let t ← getVarTable
  return orEmpty (← newStackAst t do return .sep (← newStackVector t v))

/-- The field of a `Node` or a `Measurement` with this name. -/
def identField (ident : NodeIdentRendv) (name : Str) : Option UInt32 :=
  if name = addrName then some ident.addr
  else if name = portName then some ident.port.toUInt32
  else if name = rendvAddrName then some ident.addrRendv
  else if name = rendvPortName then some ident.portRendv
  else none

/-- The distances of a `Measurement`. -/
def pushDistances (v : Addr) : List UInt32 → Interp D Bool
  | [] => pure true
  | us :: rest => do
    match ← newStackAst (← getVarTable) (pure (.double (toMs us))) with
    | none => pure false
    | some a =>
      pushBack v (.node a)
      pushDistances v rest

/-- The loop that fills a `Node`, or a `Measurement` if there are latencies. -/
def fillFields (ident : NodeIdentRendv) (latUS : Option (List UInt32)) (adtMap : StrMap Ptr) :
    List Field → Interp D Bool
  | [] => pure true
  | f :: fs => do
    match adtMap[f.vName]? with
    | none => pure false
    | some p =>
      match ← nodeAt p, latUS with
      | some (a, .int _), _ =>
        match identField ident f.vName with
        | none => pure false
        | some w =>
          setNode a (.int w.toInt32)
          fillFields ident latUS adtMap fs
      | some (_, .array aType _ v _), some lat =>
        if aType = ASTType.doubleType.toWord then
          if f.vName = distanceName then
            if ← pushDistances v lat then fillFields ident latUS adtMap fs else pure false
          else fillFields ident latUS adtMap fs
        else pure false
      | _, _ => pure false

/-- `createNodeIdent` from an entry, and `createNodeIdentLat` with its latencies. -/
def createIdent (name : Str) (ident : NodeIdentRendv) (latUS : Option (List UInt32)) :
    Interp D Ptr := do
  let t ← getVarTable
  match ← lookup t name with
  | some (.adt d) =>
    match ← createAdt t name with
    | none => pure .empty
    | some a =>
      match ← getNode a with
      | .varAdt _ m _ =>
        if ← fillFields ident latUS (← getMap m) d.adtParam then pure (.node a) else pure .empty
      | _ => throw .dangling
  | _ => pure .empty

/-- The loop that fills an array with such structs. -/
def pushIdents (name : Str) (v : Addr) :
    List (NodeIdentRendv × Option (List UInt32)) → Interp D Bool
  | [] => pure true
  | (ident, latUS) :: rest => do
    match ← createIdent name ident latUS with
    | .node a =>
      pushBack v (.node a)
      pushIdents name v rest
    | _ => pure false

/-- A new array of such structs. -/
def createIdents (name : Str) (idents : List (NodeIdentRendv × Option (List UInt32))) :
    Interp D Ptr := do
  let t ← getVarTable
  match ← createArray t ASTType.adtType.toWord (some name) 0 (pure none) with
  | none => pure .empty
  | some a =>
    match ← getNode a with
    | .array _ _ v _ => if ← pushIdents name v idents then pure (.node a) else pure .empty
    | _ => throw .dangling

/-! ### Received values -/

mutual

/-- The tree that `unmarshal_ast` has read, as nodes of the table. -/
def place (t : TableId) : Value D → Interp D Ptr
  | .empty => pure .empty
  | .int i => do return orEmpty (← newStackAst t (pure (.int i)))
  | .double d => do return orEmpty (← newStackAst t (pure (.double d)))
  | .string s => do return orEmpty (← newStackAst t do return .string (← newStackString t s))
  | .array aType aAdtName vs => do
    let a ← newStackAst t do return .array aType aAdtName (← newStackVector t []) none
    match a with
    | none => pure .empty
    | some a =>
      match ← getNode a with
      | .array _ _ v _ => if ← placeVector t v vs then pure (.node a) else pure .empty
      | _ => throw .dangling
  | .adt name fields => do
    let a ← newStackAst t do return .varAdt name (← newStackMap t) true
    match a with
    | none => pure .empty
    | some a =>
      match ← getNode a with
      | .varAdt _ m _ => if ← placeMap t m fields then pure (.node a) else pure .empty
      | _ => throw .dangling
  | .sep vs => do
    let a ← newStackAst t do return .sep (← newStackVector t [])
    match a with
    | none => pure .empty
    | some a =>
      match ← getNode a with
      | .sep v => if ← placeVector t v vs then pure (.node a) else pure .empty
      | _ => throw .dangling
  | .other _ => pure .empty

/-- The entries of a vector. -/
def placeVector (t : TableId) (v : Addr) : List (Value D) → Interp D Bool
  | [] => pure true
  | x :: xs => do
    match ← place t x with
    | .node a =>
      pushBack v (.node a)
      placeVector t v xs
    | _ => pure false

/-- The entries of a map. -/
def placeMap (t : TableId) (m : Addr) : List (Str × Value D) → Interp D Bool
  | [] => pure true
  | (name, x) :: xs => do
    match ← place t x with
    | .node a =>
      setMap m ((← getMap m).insert name (.node a))
      placeMap t m xs
    | _ => pure false

end

/-! ### Arrays -/

/-- The entries, if they are `INT` nodes. -/
def getInts : List Ptr → Interp D (Option (List Int32))
  | [] => pure (some [])
  | p :: ps => do
    match ← nodeAt p with
    | some (_, .int i) => return (← getInts ps).map (i :: ·)
    | _ => pure none

/-- The entries, if they are `DOUBLE` nodes. -/
def getDoubles : List Ptr → Interp D (Option (List D))
  | [] => pure (some [])
  | p :: ps => do
    match ← nodeAt p with
    | some (_, .double d) => return (← getDoubles ps).map (d :: ·)
    | _ => pure none

/-- The loop of `arrayLargestOffset` and `arraySmallestOffset`: the offset of the last entry that was
better than all before it and than the initial value. -/
def bestOffset {α : Type} (better : α → α → Bool) : α → ℕ → ℕ → List α → ℕ
  | _, _, offset, [] => offset
  | best, i, offset, x :: xs =>
    if better x best then bestOffset better x (i + 1) i xs
    else bestOffset better best (i + 1) offset xs

/-- The numbers of an array. -/
inductive Numbers (D : Type) where
  | ints (xs : List Int32)
  | doubles (xs : List D)

/-- The numbers of an array of `int` or `double`; `none` is the failure. -/
def getNumbers (aType : UInt32) (elems : List Ptr) : Interp D (Option (Numbers D)) := do
  if aType = ASTType.intType.toWord then return (← getInts elems).map .ints
  else if aType = ASTType.doubleType.toWord then return (← getDoubles elems).map .doubles
  else pure none

/-- `arrayLargestOffset`, or `arraySmallestOffset` for `largest = false`. Of no numbers it is −1. -/
def Numbers.offset (largest : Bool) : Numbers D → Option ℕ
  | ints [] => none
  | doubles [] => none
  | ints xs =>
    some (if largest then bestOffset (fun x m ↦ m < x) Int32.minValue 0 0 xs
      else bestOffset (fun x m ↦ x < m) Int32.maxValue 0 0 xs)
  | doubles xs =>
    some (if largest then bestOffset (fun x m ↦ CDouble.lt m x) CDouble.negInfinity 0 0 xs
      else bestOffset CDouble.lt CDouble.infinity 0 0 xs)

/-- `ARRAY_MAX_OFFSET` and `ARRAY_MIN_OFFSET`. -/
def arrayOffset (largest : Bool) (p : Ptr) : Interp D Ptr := do
  match ← nodeAt p with
  | some (_, .array aType _ v _) =>
    match ← getNumbers aType (← getVector v) with
    | some numbers =>
      match numbers.offset largest with
      | some i => mkInt (Int32.ofNat i)
      | none => mkInt (-1)
    | none => pure .empty
  | _ => pure .empty

/-- `ARRAY_MAX` and `ARRAY_MIN`. -/
def arrayExtreme (largest : Bool) (p : Ptr) : Interp D Ptr := do
  match ← nodeAt p with
  | some (_, .array aType _ v _) =>
    match ← getNumbers aType (← getVector v) with
    | some (.ints xs) =>
      match (Numbers.ints (D := D) xs).offset largest with
      | none => mkInt (if largest then Int32.minValue else Int32.maxValue)
      | some i =>
        match xs[i]? with
        | some x => mkInt x
        | none => pure .empty
    | some (.doubles xs) =>
      match (Numbers.doubles xs).offset largest with
      | none => mkDouble (if largest then CDouble.negInfinity else CDouble.infinity)
      | some i =>
        match xs[i]? with
        | some x => mkDouble x
        | none => pure .empty
    | none => pure .empty
  | _ => pure .empty

/-- `ARRAY_AVG`. -/
def arrayAvg (p : Ptr) : Interp D Ptr := do
  match ← nodeAt p with
  | some (_, .array aType _ v _) =>
    let elems ← getVector v
    if elems.isEmpty then mkDouble CDouble.zero
    else
      let size : D := CDouble.ofUInt (UInt32.ofNat elems.length)
      match ← getNumbers aType elems with
      | some (.ints xs) =>
        let total := xs.foldl (fun total x ↦ CDouble.add total (CDouble.ofInt x)) CDouble.zero
        mkDouble (CDouble.div total size)
      | some (.doubles xs) => mkDouble (CDouble.div (xs.foldl CDouble.add CDouble.zero) size)
      | none => pure .empty
  | _ => pure .empty

/-- The check of `PUSH_BACK`: the element type of the array is that of the node. -/
def isElem (aType : UInt32) (aAdtName : Option Str) (p : Ptr) : Interp D Bool := do
  if aType = ASTType.adtType.toWord then
    let name ← derefName aAdtName
    let name' ← adtTypeName p
    pure (decide (name = name'))
  else
    let type ← typeOf p
    pure (decide (aType = type.toWord))

/-- `PUSH_BACK`. -/
def nativePushBack (nextNode1 nextNode2 : Ptr) : Interp D Ptr := do
  match ← nodeAt nextNode1 with
  | some (_, .array aType aAdtName v tb) =>
    if ← isElem aType aAdtName nextNode2 then
      match ← createIn tb aType aAdtName with
      | none => pure .empty
      | some a =>
        if ← updateADT (← getVarTable) (.node a) nextNode2 then
          pushBack v (.node a)
          pure .empty
        else pure .empty
    else pure .empty
  | _ => pure .empty

/-- `POP_BACK`. -/
def nativePopBack (nextNode : Ptr) : Interp D Ptr := do
  match ← nodeAt nextNode with
  | some (_, .array _ _ v _) =>
    setVector v (← getVector v).dropLast
    pure .empty
  | _ => pure .empty

/-- The checks of `ARRAY_INTERSECT` and `ARRAY_UNION`, and the new array with the two vectors. The
types of the elements are not compared unless the first is `ADT_TYPE`. -/
def combineArrays (nextNode1 nextNode2 : Ptr) :
    Interp D (Option (Addr × Addr × List Ptr × List Ptr)) := do
  match ← nodeAt nextNode1, ← nodeAt nextNode2 with
  | some (_, .array aType aAdtName v _), some (_, .array _ aAdtName' v' _) =>
    if ← sameAdtName aType aAdtName aAdtName' then
      match ← createArray (← getVarTable) aType aAdtName 0 (pure none) with
      | none => pure none
      | some a =>
        match ← getNode a with
        | .array _ _ retVect _ => return some (a, retVect, ← getVector v, ← getVector v')
        | _ => throw .dangling
    else pure none
  | _, _ => pure none

/-- The loops of `ARRAY_INTERSECT`. -/
def intersectAll (retVect : Addr) (vect2 : List Ptr) : List Ptr → Interp D Bool
  | [] => pure true
  | p :: ps => do
    if ← anyEqual p vect2 then
      if ← uniqueAdd retVect p then intersectAll retVect vect2 ps else pure false
    else intersectAll retVect vect2 ps

/-- `ARRAY_INTERSECT`. -/
def arrayIntersect (nextNode1 nextNode2 : Ptr) : Interp D Ptr := do
  match ← combineArrays nextNode1 nextNode2 with
  | none => pure .empty
  | some (a, retVect, vect1, vect2) =>
    if ← intersectAll retVect vect2 vect1 then pure (.node a) else pure .empty

/-- `ARRAY_UNION`. -/
def arrayUnion (nextNode1 nextNode2 : Ptr) : Interp D Ptr := do
  match ← combineArrays nextNode1 nextNode2 with
  | none => pure .empty
  | some (a, retVect, vect1, vect2) =>
    if ← uniqueAddAll retVect vect1 then
      if ← uniqueAddAll retVect vect2 then pure (.node a) else pure .empty
    else pure .empty

/-! ### `evalNativeFunctions` -/

/-- The native functions that take a `double`. -/
def onDouble (p : Ptr) (f : D → Interp D Ptr) : Interp D Ptr := do
  match ← nodeAt p with
  | some (_, .double d) => f d
  | _ => pure .empty

/-- The native functions that take an `int`. -/
def onInt (p : Ptr) (f : Int32 → Interp D Ptr) : Interp D Ptr := do
  match ← nodeAt p with
  | some (_, .int i) => f i
  | _ => pure .empty

/-- `evalNativeFunctions` with one parameter. A server does not look up names. -/
def native1 (host : Host D) (f : NativeFunc1) (p : Ptr) : Interp D Ptr :=
  match f with
  | .round => onDouble p fun d ↦ mkInt (CDouble.lrint d)
  | .ceil => onDouble p fun d ↦ mkInt (CDouble.toInt (CDouble.ceil d))
  | .floor => onDouble p fun d ↦ mkInt (CDouble.toInt (CDouble.floor d))
  | .math f => onDouble p fun d ↦ mkDouble (CDouble.math f d)
  | .dbl => onInt p fun i ↦ mkDouble (CDouble.ofInt i)
  | .arraySize => do
    match ← nodeAt p with
    | some (_, .array _ _ v _) => mkInt (Int32.ofNat (← getVector v).length)
    | _ => pure .empty
  | .dnsLookup => pure .empty
  | .dnsAddr => onInt p fun i ↦ mkString (inetNtoa i.toUInt32)
  | .popBack => nativePopBack p
  | .ring f => onDouble p fun d ↦
    createIdents nodeName ((outMembers host f d).map fun ident ↦ (ident, none))
  | .arrayMaxOffset => arrayOffset true p
  | .arrayMinOffset => arrayOffset false p
  | .arrayAvg => arrayAvg p
  | .arrayMax => arrayExtreme true p
  | .arrayMin => arrayExtreme false p

/-- `evalNativeFunctions` with two parameters. -/
def native2 (f : NativeFunc2) (p1 p2 : Ptr) : Interp D Ptr :=
  match f with
  | .pow => do
    match ← nodeAt p1, ← nodeAt p2 with
    | some (_, .double x), some (_, .double y) => mkDouble (CDouble.pow x y)
    | _, _ => pure .empty
  | .pushBack => nativePushBack p1 p2
  | .arrayIntersect => arrayIntersect p1 p2
  | .arrayUnion => arrayUnion p1 p2

/-- `handleGetSelf`. -/
def handleGetSelf (host : Host D) : Interp D Ptr :=
  createIdent nodeName ⟨0, 0, host.rendv.addr, host.rendv.port.toUInt32⟩ none

/-! ### `get_distance` and `rpc` -/

/-- An array of `Node`s, as `handleGetDistGeneric` checks it. -/
def isNodeArray (p : Ptr) : Interp D Bool := do
  match ← nodeAt p with
  | some (_, .array aType aAdtName _ _) =>
    if aType = ASTType.adtType.toWord then return decide ((← derefName aAdtName) = nodeName)
    else pure false
  | _ => pure false

/-- `fillNodeIdentField` succeeds. -/
def hasIntField (adtMap : StrMap Ptr) (name : Str) : Interp D Bool := do
  match adtMap[name]? with
  | none => pure false
  | some p => return decide ((← typeOf p) = .intType)

/-- `createNodeIdent` from a value succeeds. -/
def isNodeIdent (p : Ptr) : Interp D Bool := do
  match ← nodeAt p with
  | some (_, .varAdt name m _) =>
    if name = nodeName then
      let adtMap ← getMap m
      if ← hasIntField adtMap addrName then
        if ← hasIntField adtMap portName then
          if ← hasIntField adtMap rendvAddrName then hasIntField adtMap rendvPortName
          else pure false
        else pure false
      else pure false
    else pure false
  | _ => pure false

/-- All entries are nodes. -/
def allNodeIdents : List Ptr → Interp D Bool
  | [] => pure true
  | p :: ps => do if ← isNodeIdent p then allNodeIdents ps else pure false

/-- The entries of a source or target array are nodes. -/
def nodesOf (p : Ptr) : Interp D Bool := do
  match ← nodeAt p with
  | some (_, .array _ _ v _) => allNodeIdents (← getVector v)
  | _ => pure false

/-- The query has ended, with `returnResults` if there are latencies; the interpreter is resumed. -/
def resumeDistance (host : Host D) : Interp D Unit := do
  match host.latencies with
  | none => pure ()
  | some rows =>
    let p ← createIdents measurementName (rows.map fun row ↦ (row.1, some row.2))
    modify fun s ↦ { s with queryReturn := p }

/-- `handleGetDistGeneric` on operands of the right types. -/
def getDistance (host : Host D) (nextNode1 : Option Ptr) (nextNode2 nextNode3 : Ptr) :
    Interp D Ptr := do
  if (← typeOf nextNode3) = .intType then
    let sources ←
      match nextNode1 with
      | none => pure true
      | some p => nodesOf p
    if sources then
      if ← nodesOf nextNode2 then
        resumeDistance host
        let ret := (← get).queryReturn
        match nextNode1, ← nodeAt ret with
        | none, some (_, .array _ _ v _) =>
          match ← getVector v with
          | [p] => pure p
          | _ => pure ret
        | _, _ => pure ret
      else pure .empty
    else pure .empty
  else pure .empty

/-- `(*map)[name]`, which inserts NULL for a name that is not there. -/
def mapAt (m : Addr) (name : Str) : Interp D Ptr := do
  let adtMap ← getMap m
  match adtMap[name]? with
  | some p => pure p
  | none =>
    setMap m (adtMap.insert name .null)
    pure .null

/-- `p->val.i_val`. -/
def iVal (p : Ptr) : Interp D Int32 := do
  match ← nodeAt p with
  | some (_, .int i) => pure i
  | _ => throw .variant

/-- The destination of an `rpc`: it must be a `Node`, whose fields are read without a check. -/
def rpcDest (p : Ptr) : Interp D Bool := do
  match ← nodeAt p with
  | some (_, .varAdt name m _) =>
    if name = nodeName then
      let addrAST ← mapAt m addrName
      let portAST ← mapAt m portName
      let rendvAddrAST ← mapAt m rendvAddrName
      let rendvPortAST ← mapAt m rendvPortName
      let _ ← iVal addrAST
      let _ ← iVal portAST
      let _ ← iVal rendvAddrAST
      let _ ← iVal rendvPortAST
      pure true
    else pure false
  | _ => pure false

/-- `handleRPC`, from the request to the resumption. -/
def handleRPC (host : Host D) (param : List Ptr) : Interp D Ptr := do
  let t ← getVarTable
  if param.isEmpty then pure ()
  else
    let _ ← newStackAst t (pure .raw)
    pure ()
  match host.reply with
  | none => pure ()
  | some v =>
    let p ← place t v
    modify fun s ↦ { s with rpcRecv := p }
  return (← get).rpcRecv

end Interp

end Meridian.MQL

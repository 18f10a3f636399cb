import Meridian.MQL.Arith

/-!
# Creating and assigning values

`ASTCreate` and `updateADT` of `MQLState.cpp`, and what `MeridianDSL.cpp` builds on them.

* `ASTCreate` calls itself for the elements of an array and for the fields of a struct. An element is
  a basic value or a struct, a field is a basic value or an array of them, so the calls are unrolled:
  `createBasicType`, `createArray`, `createAdt`, `astCreate`.
* `updateADT` and `ADTEqual` follow the nodes, as deep as they go. Every call goes to other nodes, of
  which there are at most `MAX_AST_PER_STACK`, so this is the fuel of the recursion.
* The loop of `updateADT` over the elements of an array reads the size of the source anew each time.
  It only changes under the loop where source and destination are the same vector, and then the size
  is 0 from the start.
-/

namespace Meridian.MQL

variable {D : Type} [CDouble D]

namespace Interp

/-! ### `ASTCreate` -/

/-- `create_basic_type`. -/
def createBasicType (t : TableId) : BasicType → Interp D (Option Addr)
  | .int => newStackAst t (pure (.int 0))
  | .double => newStackAst t (pure (.double CDouble.zero))
  | .string => newStackAst t do return .string (← newStackString t [])
  | .void => do
    let _ ← newStackAst t (pure .raw)
    pure none

/-- The loop that creates the elements of an array. -/
def createElems (v : Addr) (create : Interp D (Option Addr)) : ℕ → Interp D Bool
  | 0 => pure true
  | n + 1 => do
    match ← create with
    | none => pure false
    | some a =>
      pushBack v (.node a)
      createElems v create n

/-- The `a_adt_name` of a new array; `none` is the failure. -/
def realAdtName (t : TableId) (arrayType : UInt32) (adtName : Option Str) :
    Interp D (Option (Option Str)) := do
  if arrayType = ASTType.adtType.toWord then
    match ← lookup t (← derefName adtName) with
    | some (.adt d) => pure (some (some d.adtTypeName))
    | _ => pure none
  else pure (some none)

/-- `ASTCreate` with `ARRAY_TYPE`. `create` creates an element. -/
def createArray (t : TableId) (arrayType : UInt32) (adtName : Option Str) (arraySize : Int32)
    (create : Interp D (Option Addr)) : Interp D (Option Addr) := do
  if arraySize < 0 then pure none
  else
    match ← realAdtName t arrayType adtName with
    | none => pure none
    | some name =>
      let a ← newStackAst t do return .array arrayType name (← newStackVector t []) (some t)
      match a with
      | none => pure none
      | some a =>
        match ← getNode a with
        | .array _ _ v _ =>
          if ← createElems v create arraySize.toInt.toNat then pure (some a) else pure none
        | _ => throw .dangling

/-- `ASTCreate` for a field of a struct. -/
def createField (t : TableId) (f : Field) : Interp D (Option Addr) :=
  match f.vArraySize with
  | none => createBasicType t f.vType
  | some size => createArray t f.vType.astType.toWord none size (createBasicType t f.vType)

/-- The loop that creates the fields of a struct. -/
def createFields (t : TableId) (m : Addr) : List Field → Interp D Bool
  | [] => pure true
  | f :: fs => do
    match ← createField t f with
    | none => pure false
    | some a =>
      setMap m ((← getMap m).insert f.vName (.node a))
      createFields t m fs

/-- `ASTCreate` with `ADT_TYPE`. -/
def createAdt (t : TableId) (adtName : Str) : Interp D (Option Addr) := do
  match ← lookup t adtName with
  | some (.adt d) =>
    let a ← newStackAst t do return .varAdt d.adtTypeName (← newStackMap t) false
    match a with
    | none => pure none
    | some a =>
      match ← getNode a with
      | .varAdt _ m _ => if ← createFields t m d.adtParam then pure (some a) else pure none
      | _ => throw .dangling
  | _ => pure none

/-- `ASTCreate` for an element of an array with these members, or for a value with this tag. -/
def createElem (t : TableId) (aType : UInt32) (aAdtName : Option Str) : Interp D (Option Addr) :=
  match ASTType.ofWord aType with
  | some .intType => createBasicType t .int
  | some .doubleType => createBasicType t .double
  | some .stringType => createBasicType t .string
  | some .adtType =>
    match aAdtName with
    | some name => createAdt t name
    | none => pure none
  | some .arrayType => createArray t ASTType.emptyType.toWord aAdtName 0 (pure none)
  | _ => createBasicType t .void

/-- `ASTCreate` for a type. -/
def createType (t : TableId) : ElemType → Interp D (Option Addr)
  | .basic b => createBasicType t b
  | .adt name => createAdt t name

/-- `ASTCreate` for a declaration. The size only counts for an array. -/
def astCreate (t : TableId) (d : DeclType) (arraySize : Int32) : Interp D (Option Addr) :=
  match d with
  | .elem e => createType t e
  | .array e => createArray t e.astType.toWord e.adtName arraySize (createType t e)

/-! ### `updateADT` -/

/-- The loop that initializes the fields of a struct from a list. -/
def initFields (assign : Ptr → Ptr → Interp D Bool) (adtMap : StrMap Ptr) :
    List Field → List Ptr → Interp D Bool
  | f :: fs, r :: rs =>
    match adtMap[f.vName]? with
    | some l => do if ← assign l r then initFields assign adtMap fs rs else pure false
    | none => pure false
  | _, _ => pure true

/-- The loop that assigns the fields of a struct. -/
def assignFields (assign : Ptr → Ptr → Interp D Bool) (adtMap inMap : StrMap Ptr) :
    List Field → Interp D Bool
  | [] => pure true
  | f :: fs =>
    match adtMap[f.vName]?, inMap[f.vName]? with
    | some l, some r => do if ← assign l r then assignFields assign adtMap inMap fs else pure false
    | _, _ => pure false

/-- The loop that fills an array with copies. -/
def assignElems (assign : Ptr → Ptr → Interp D Bool) (create : Interp D (Option Addr)) (v : Addr) :
    List Ptr → Interp D Bool
  | [] => pure true
  | r :: rs => do
    match ← create with
    | none => pure false
    | some a =>
      if ← assign (.node a) r then
        pushBack v (.node a)
        assignElems assign create v rs
      else pure false

/-- The names of the element types of two arrays are the same, where the first has structs. -/
def sameAdtName (aType : UInt32) (aAdtName aAdtName' : Option Str) : Interp D Bool := do
  if aType = ASTType.adtType.toWord then
    let name ← derefName aAdtName
    let name' ← derefName aAdtName'
    pure (decide (name = name'))
  else pure true

/-- `retVar->val.a_val.a_var_table->ASTCreate(a_type, a_adt_name, EMPTY_TYPE, 0)`. -/
def createIn (aVarTable : Option TableId) (aType : UInt32) (aAdtName : Option Str) :
    Interp D (Option Addr) :=
  match aVarTable with
  | some t => createElem t aType aAdtName
  | none => throw .dangling

/-- `updateADT` on the nodes of the heap; `assign` is the recursive call. -/
def updateNode (this : TableId) (assign : Ptr → Ptr → Interp D Bool) (l : Addr) (ln rn : Node D) :
    Interp D Bool :=
  match ln, rn with
  | .varAdt name m _, .sep pv => do
    match ← lookup this name with
    | none => pure false
    | some p =>
      let fields ← adtParam p
      let params ← getVector pv
      if fields.length ≠ params.length then pure false
      else initFields assign (← getMap m) fields params
  | .array aType aAdtName v tb, .sep pv => do
    setVector v []
    assignElems assign (createIn tb aType aAdtName) v (← getVector pv)
  | .int _, .int i => do
    setNode l (.int i)
    pure true
  | .double _, .double d => do
    setNode l (.double d)
    pure true
  | .string sv, .string sv' => do
    setString sv (← getString sv')
    pure true
  | .array aType aAdtName v tb, .array aType' aAdtName' v' _ => do
    if aType ≠ aType' then pure false
    else
      if ← sameAdtName aType aAdtName aAdtName' then
        setVector v []
        assignElems assign (createIn tb aType aAdtName) v (← getVector v')
      else pure false
  | .varAdt name m _, .varAdt name' m' _ => do
    if name ≠ name' then pure false
    else
      match ← lookup this name with
      | none => pure false
      | some p =>
        let fields ← adtParam p
        assignFields assign (← getMap m) (← getMap m') fields
  -- Incompatible types, or of a kind that is no value.
  | _, _ => pure false

/-- `updateADT`, with a bound on the depth. -/
def updateFuel (this : TableId) : ℕ → Ptr → Ptr → Interp D Bool
  | 0, _, _ => throw .overflow
  | fuel + 1, l, r => do
    match ← nodeAt l, ← nodeAt r with
    | some (a, ln), some (_, rn) => updateNode this (updateFuel this fuel) a ln rn
    | _, _ => pure false

/-- `updateADT`; `false` is the failure. -/
def updateADT (this : TableId) (retVar inVar : Ptr) : Interp D Bool :=
  updateFuel this Value.MAX_AST_PER_STACK retVar inVar

/-! ### Variables -/

/-- A node, or the `EMPTY` token for NULL. -/
def orEmpty : Option Addr → Ptr
  | some a => .node a
  | none => .empty

/-- `variable_create`. Every caller passes `false` for `overwrite`. -/
def variableCreate (d : DeclType) (arraySize : Int32) (inString : Str) : Interp D Ptr := do
  let t ← getVarTable
  match ← astCreate t d arraySize with
  | none => pure .empty
  | some a => if ← insert t inString (.node a) then pure (.node a) else pure .empty

/-- `variable_assign`. -/
def variableAssign (inString : Str) (inVar : Ptr) : Interp D Ptr := do
  let t ← getVarTable
  match ← lookup t inString with
  | none => pure .empty
  | some retVar =>
    if ← updateADT t retVar inVar then return (← lookup t inString).getD .empty else pure .empty

/-- The loop of `param_list_assign`. -/
def assignParams : List Param → List Ptr → Interp D Bool
  | p :: ps, r :: rs => do
    if (← typeOf (← variableCreate p.vType 0 p.vName)) = .emptyType then pure false
    else if (← typeOf (← variableAssign p.vName r)) = .emptyType then pure false
    else assignParams ps rs
  | _, _ => pure true

/-- `param_list_assign`; `false` is the failure. -/
def paramListAssign (formal : List Param) (actual : List Ptr) : Interp D Bool :=
  match formal with
  | [] => pure true
  | _ => if formal.length ≠ actual.length then pure false else assignParams formal actual

/-! ### `ADTEqual` -/

/-- The comparison of two vectors of the same size. -/
def equalElems (equal : Ptr → Ptr → Interp D Bool) : List Ptr → List Ptr → Interp D Bool
  | a :: as, b :: bs => do if ← equal a b then equalElems equal as bs else pure false
  | _, _ => pure true

/-- The comparison of two maps. -/
def equalFields (equal : Ptr → Ptr → Interp D Bool) (other : StrMap Ptr) :
    List (Str × Ptr) → Interp D Bool
  | [] => pure true
  | (k, a) :: rest =>
    match other[k]? with
    | none => pure false
    | some b => do if ← equal a b then equalFields equal other rest else pure false

/-- `ADTEqual` on the nodes of the heap; `equal` is the recursive call. -/
def equalNode (equal : Ptr → Ptr → Interp D Bool) (a b : Node D) : Interp D Bool :=
  match a, b with
  | .array aType aAdtName v _, .array aType' aAdtName' v' _ => do
    if aType ≠ aType' then pure false
    else
      if ← sameAdtName aType aAdtName aAdtName' then
        let as ← getVector v
        let bs ← getVector v'
        if as.length ≠ bs.length then pure false else equalElems equal as bs
      else pure false
  | .varAdt name m _, .varAdt name' m' _ => do
    if name ≠ name' then pure false
    else
      let as ← getMap m
      let bs ← getMap m'
      if as.size ≠ bs.size then pure false else equalFields equal bs as.toList
  | .int i, .int i' => pure (i == i')
  | .double d, .double d' => pure (CDouble.eq d d')
  | .string s, .string s' => do return (← getString s) == (← getString s')
  | _, _ => pure false

/-- `ADTEqual`, with a bound on the depth. -/
def equalFuel : ℕ → Ptr → Ptr → Interp D Bool
  | 0, _, _ => throw .overflow
  | fuel + 1, a, b => do
    match ← nodeAt a, ← nodeAt b with
    | some (_, an), some (_, bn) => equalNode (equalFuel fuel) an bn
    | _, _ => pure false

/-- `ADTEqual`. -/
def adtEqual (a b : Ptr) : Interp D Bool := equalFuel Value.MAX_AST_PER_STACK a b

/-! ### Sets of values -/

/-- A copy in a node that has been created for it. -/
def copyInto (created : Option Addr) (a : Ptr) : Interp D Ptr := do
  match created with
  | none => pure .empty
  | some c => if ← updateADT (← getVarTable) (.node c) a then pure (.node c) else pure .empty

/-- `ADTCreateAndCopy`. -/
def adtCreateAndCopy (a : Ptr) : Interp D Ptr := do
  let t ← getVarTable
  match ← nodeAt a with
  | some (_, .int _) => copyInto (← createBasicType t .int) a
  | some (_, .double _) => copyInto (← createBasicType t .double) a
  | some (_, .string _) => copyInto (← createBasicType t .string) a
  | some (_, .varAdt name _ _) => copyInto (← createAdt t name) a
  | _ => pure .empty

/-- An entry of the vector is equal to the node. -/
def anyEqual (inNode : Ptr) : List Ptr → Interp D Bool
  | [] => pure false
  | p :: ps => do if ← adtEqual inNode p then pure true else anyEqual inNode ps

/-- `uniqueAdd` of a node; `false` is the failure. -/
def uniqueAdd (retVect : Addr) (inNode : Ptr) : Interp D Bool := do
  if ← anyEqual inNode (← getVector retVect) then pure true
  else
    let tmp ← adtCreateAndCopy inNode
    if (← typeOf tmp) = .emptyType then pure false
    else
      pushBack retVect tmp
      pure true

/-- `uniqueAdd` of the entries of a vector. -/
def uniqueAddAll (retVect : Addr) : List Ptr → Interp D Bool
  | [] => pure true
  | p :: ps => do if ← uniqueAdd retVect p then uniqueAddAll retVect ps else pure false

end Interp

end Meridian.MQL

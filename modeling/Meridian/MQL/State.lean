import Meridian.MQL.Syntax
import Std.Data.ExtTreeMap
import Mathlib.Logic.Function.Basic

/-!
# The state of the MQL interpreter

`ParserState` and `VarTable` of `MQLState.h`. A `VarTable` owns the nodes, strings, vectors and maps
that it has allocated, in the order of the allocations: a cell lives in its table, an address names
the table, and the cell is gone when the table is deleted. The number of a table is not used again,
so an address of a deleted table stays recognizable.

* `Ptr` is an `ASTNode*`. Besides the nodes of the heap there are the ones of the program text that
  `eval` can return: the tokens for `EMPTY`, `BREAK` and `CONTINUE`, a `RETURN` node, and the
  `FUNC_CALL` and `ADT` nodes that names stand for.
* `prev_var_table` is the list of the tables that it leads to, nearest first.
* What the C++ program must not do is a `Fault`: to read a member of the union that the type tag does
  not own (or through a NULL name), to use a pointer that dangles or was never set, to divide by zero,
  and to recurse without end. A step that faults has no result.
* Allocation fails only for nodes, when `ASTAllocationCount` exceeds `MAX_AST_PER_STACK`.
-/

namespace Meridian.MQL

/-- A `map<string, …>`. -/
abbrev StrMap (α : Type) := Std.ExtTreeMap Str α

/-- An `ASTNode*`. -/
inductive Ptr where
  | null
  | node (a : Addr)
  | empty
  | breakToken
  | continueToken
  | returnNode
  | func (f : Func)
  | adt (d : AdtDef)

/-- A cell of a stack of nodes.

* `raw`: a node of the program text, or one whose members have not been set.
* `a_type` is the word of an `ASTType`, since `unmarshal_ast` casts what it receives;
  `a_adt_name` and `a_var_table` are `none` where they have not been set.
* `unmarshalled` notes that `unmarshal_ast` made the struct. Nothing reads it. -/
inductive Node (D : Type) where
  | raw
  | int (iVal : Int32)
  | double (dVal : D)
  | string (sVal : Addr)
  | array (aType : UInt32) (aAdtName : Option Str) (aVector : Addr) (aVarTable : Option TableId)
  | varAdt (adtTypeName : Str) (adtMap : Addr) (unmarshalled : Bool)
  | sep (pVector : Addr)

/-- The type tag. -/
def Node.type {D : Type} : Node D → ASTType
  | raw => .voidType
  | int _ => .intType
  | double _ => .doubleType
  | string _ => .stringType
  | array .. => .arrayType
  | varAdt .. => .varAdtType
  | sep _ => .sepType

/-- A `VarTable`. -/
structure VarTable (D : Type) where
  vMap : StrMap Ptr
  vStackAst : List (Node D)
  vStackString : List Str
  vStackVector : List (List Ptr)
  vStackMap : List (StrMap Ptr)
  prevVarTable : List TableId

/-- A new `VarTable`. -/
def VarTable.new {D : Type} (prev : List TableId) : VarTable D := ⟨∅, [], [], [], [], prev⟩

/-- A `ParserState`. `varTable` has the top of the stack first. -/
structure ParserState (D : Type) where
  tables : TableId → Option (VarTable D)
  varTable : List TableId
  nextTable : TableId
  astAllocationCount : ℕ
  evalCount : ℤ
  rpcRecv : Ptr
  queryReturn : Ptr

/-- What must not happen, or cannot go on. -/
inductive Fault where
  /-- a member of the union that is not the one of the type tag, or a NULL struct name -/
  | variant
  /-- a pointer to a deleted cell, a NULL pointer, or a pointer that was never set -/
  | dangling
  /-- a signal of the processor -/
  | trap
  /-- the C++ stack is exhausted -/
  | overflow
  /-- the evaluation is over -/
  | done
  deriving DecidableEq, Repr

/-- A piece of the interpreter. -/
abbrev Interp (D : Type) := StateT (ParserState D) (Except Fault)

variable {D : Type}

namespace Interp

/-! ### Cells -/

/-- `*table`. -/
def getTable (t : TableId) : Interp D (VarTable D) := do
  match (← get).tables t with
  | some tbl => pure tbl
  | none => throw .dangling

/-- Writes to `*table`. -/
def setTable (t : TableId) (tbl : VarTable D) : Interp D Unit :=
  modify fun s ↦ { s with tables := Function.update s.tables t (some tbl) }

/-- An entry of a stack. -/
def cell {α : Type} (l : List α) (i : ℕ) : Interp D α :=
  match l[i]? with
  | some x => pure x
  | none => throw .dangling

/-- `*node`. -/
def getNode (a : Addr) : Interp D (Node D) := do cell (← getTable a.table).vStackAst a.index

/-- `*string`. -/
def getString (a : Addr) : Interp D Str := do cell (← getTable a.table).vStackString a.index

/-- `*vector`. -/
def getVector (a : Addr) : Interp D (List Ptr) := do
  cell (← getTable a.table).vStackVector a.index

/-- `*map`. -/
def getMap (a : Addr) : Interp D (StrMap Ptr) := do cell (← getTable a.table).vStackMap a.index

/-- `*node = n`. -/
def setNode (a : Addr) (n : Node D) : Interp D Unit := do
  let tbl ← getTable a.table
  let _ ← cell tbl.vStackAst a.index
  setTable a.table { tbl with vStackAst := tbl.vStackAst.set a.index n }

/-- `*string = s`. -/
def setString (a : Addr) (s : Str) : Interp D Unit := do
  let tbl ← getTable a.table
  let _ ← cell tbl.vStackString a.index
  setTable a.table { tbl with vStackString := tbl.vStackString.set a.index s }

/-- `*vector = v`. -/
def setVector (a : Addr) (v : List Ptr) : Interp D Unit := do
  let tbl ← getTable a.table
  let _ ← cell tbl.vStackVector a.index
  setTable a.table { tbl with vStackVector := tbl.vStackVector.set a.index v }

/-- `*map = m`. -/
def setMap (a : Addr) (m : StrMap Ptr) : Interp D Unit := do
  let tbl ← getTable a.table
  let _ ← cell tbl.vStackMap a.index
  setTable a.table { tbl with vStackMap := tbl.vStackMap.set a.index m }

/-- `vector->push_back(p)`. -/
def pushBack (a : Addr) (p : Ptr) : Interp D Unit := do setVector a ((← getVector a) ++ [p])

/-! ### `new_stack_…` -/

/-- `new_ast`; `false` is NULL. -/
def newAst : Interp D Bool := do
  modify fun s ↦ { s with astAllocationCount := s.astAllocationCount + 1 }
  return (← get).astAllocationCount ≤ Value.MAX_AST_PER_STACK

/-- `new_stack_string`, with what it is set to. -/
def newStackString (t : TableId) (s : Str) : Interp D Addr := do
  let tbl ← getTable t
  setTable t { tbl with vStackString := tbl.vStackString ++ [s] }
  pure ⟨t, tbl.vStackString.length⟩

/-- `new_stack_vector`, with what it is set to. -/
def newStackVector (t : TableId) (v : List Ptr) : Interp D Addr := do
  let tbl ← getTable t
  setTable t { tbl with vStackVector := tbl.vStackVector ++ [v] }
  pure ⟨t, tbl.vStackVector.length⟩

/-- `new_stack_map`. -/
def newStackMap (t : TableId) : Interp D Addr := do
  let tbl ← getTable t
  setTable t { tbl with vStackMap := tbl.vStackMap ++ [∅] }
  pure ⟨t, tbl.vStackMap.length⟩

/-- `new_stack_ast`, with what the node is set to; `none` is NULL. -/
def newStackAst (t : TableId) (init : Interp D (Node D)) : Interp D (Option Addr) := do
  if ← newAst then
    let n ← init
    let tbl ← getTable t
    setTable t { tbl with vStackAst := tbl.vStackAst ++ [n] }
    pure (some ⟨t, tbl.vStackAst.length⟩)
  else
    pure none

/-! ### Pointers -/

/-- `p->type`. -/
def typeOf : Ptr → Interp D ASTType
  | .null => throw .dangling
  | .node a => do return (← getNode a).type
  | .empty => pure .emptyType
  | .breakToken => pure .breakType
  | .continueToken => pure .continueType
  | .returnNode => pure .returnType
  | .func _ => pure .funcCallType
  | .adt _ => pure .adtType

/-- `p`, if it points to the heap. -/
def nodeAt : Ptr → Interp D (Option (Addr × Node D))
  | .null => throw .dangling
  | .node a => do return some (a, ← getNode a)
  | _ => pure none

/-- `p->val.adt_val.adt_type_name`. -/
def adtTypeName (p : Ptr) : Interp D Str := do
  match p, ← nodeAt p with
  | _, some (_, .varAdt name _ _) => pure name
  | .adt d, _ => pure d.adtTypeName
  | _, _ => throw .variant

/-- `p->val.adt_val.adt_param`. A `VAR_ADT` node has the member but it is never set. -/
def adtParam (p : Ptr) : Interp D (List Field) := do
  match p, ← nodeAt p with
  | _, some (_, .varAdt ..) => throw .dangling
  | .adt d, _ => pure d.adtParam
  | _, _ => throw .variant

/-- `*name`. -/
def derefName : Option Str → Interp D Str
  | some name => pure name
  | none => throw .variant

/-! ### The tables -/

/-- `get_var_table`. -/
def getVarTable : Interp D TableId := do
  match (← get).varTable with
  | t :: _ => pure t
  | [] => throw .dangling

/-- `local_lookup` in each of the tables. -/
def lookupIn (inString : Str) : List TableId → Interp D (Option Ptr)
  | [] => pure none
  | t :: ts => do
    match (← getTable t).vMap[inString]? with
    | some p => pure (some p)
    | none => lookupIn inString ts

/-- `lookup`. -/
def lookup (t : TableId) (inString : Str) : Interp D (Option Ptr) := do
  lookupIn inString (t :: (← getTable t).prevVarTable)

/-- `insert`; `false` is the failure. -/
def insert (t : TableId) (inString : Str) (p : Ptr) : Interp D Bool := do
  let tbl ← getTable t
  if tbl.vMap.contains inString then pure false
  else
    setTable t { tbl with vMap := tbl.vMap.insert inString p }
    pure true

/-- `new VarTable`, at the top of the stack. -/
def pushTable (prev : List TableId) : Interp D Unit :=
  modify fun s ↦ { s with
    tables := Function.update s.tables s.nextTable (some (.new prev))
    varTable := s.nextTable :: s.varTable
    nextTable := s.nextTable + 1 }

/-- `new_var_table`: only the global table is visible. The result is the old table. -/
def newVarTable : Interp D TableId := do
  let old ← getVarTable
  match (← get).varTable.getLast? with
  | some t => pushTable [t]
  | none => throw .dangling
  pure old

/-- `new_context`: all that is visible stays visible. -/
def newContext : Interp D Unit := do
  let t ← getVarTable
  pushTable (t :: (← getTable t).prevVarTable)

/-- `remove_var_table`. -/
def removeVarTable : Interp D Unit := do
  let t ← getVarTable
  let tbl ← getTable t
  modify fun s ↦ { s with
    tables := Function.update s.tables t none
    varTable := s.varTable.tail
    astAllocationCount := s.astAllocationCount - tbl.vStackAst.length }

end Interp

end Meridian.MQL

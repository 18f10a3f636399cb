import Meridian.MQL.Value

/-!
# The syntax of MQL

What the parser of `MQL.ypp` builds, one constructor of `Ast` for each kind of `ASTNode` that a
function body can contain, with the members of the node that `eval` reads. An `EMPTY` node in the
place of a list of parameters is the empty list.

A literal is the address of its node: `eval` returns that node itself, and the unary operators write
to it. All other nodes of the program text never change, so they are not cells of the heap.

`type`, `parameter_adt` and the fields of a `struct` can only be what the grammar gives: a field is
of a basic type or a fixed array of one.
-/

namespace Meridian.MQL

/-- A `VarTable*`: the number of the table, in the order of their creation. -/
abbrev TableId := ℕ

/-- A pointer to a cell of a table: which table owns it, and its index in the table's stack. -/
structure Addr where
  table : TableId
  index : ℕ
  deriving DecidableEq, Repr

/-- The nonterminal `type`. -/
inductive BasicType where
  | int
  | double
  | string
  | void
  deriving DecidableEq, Repr

/-- The `ASTType` of a `type`. -/
def BasicType.astType : BasicType → ASTType
  | int => .intType
  | double => .doubleType
  | string => .stringType
  | void => .voidType

/-- A type that an array can have as its element type: a `type` or a struct. -/
inductive ElemType where
  | basic (t : BasicType)
  | adt (name : Str)
  deriving DecidableEq, Repr

/-- `v_array_type` or `a_type` of an array of these. -/
def ElemType.astType : ElemType → ASTType
  | basic t => t.astType
  | adt _ => .adtType

/-- The name that goes with `ADT_TYPE`. -/
def ElemType.adtName : ElemType → Option Str
  | basic _ => none
  | adt name => some name

/-- The type in a declaration, a formal parameter or a function head. -/
inductive DeclType where
  | elem (t : ElemType)
  | array (t : ElemType)
  deriving DecidableEq, Repr

/-- `VOID_TYPE`. -/
abbrev DeclType.void : DeclType := .elem (.basic .void)

/-- A `parameter_adt`: the members of a `NEW_VAR` node. -/
structure Param where
  vType : DeclType
  vName : Str
  deriving DecidableEq, Repr

/-- A `parameter_array_fixed`: a field of a struct. The size is the literal of a fixed array. -/
structure Field where
  vType : BasicType
  vArraySize : Option Int32
  vName : Str
  deriving DecidableEq, Repr

/-- The members of an `ADT` node. -/
structure AdtDef where
  adtTypeName : Str
  adtParam : List Field
  deriving DecidableEq, Repr

/-- The operator of a `UNARY` node. The unary plus leaves no node. -/
inductive UnaryOp where
  | minus
  | not
  deriving DecidableEq, Repr

/-- The operator of a `BIN` node. -/
inductive BinOp where
  | mul
  | div
  | mod
  | add
  | sub
  | left
  | right
  | lt
  | gt
  | le
  | ge
  | eq
  | ne
  | bitAnd
  | bitXor
  | bitOr
  | and
  | or
  deriving DecidableEq, Repr

/-- The native functions from `double` to `double`. -/
inductive MathFunc where
  | sin
  | cos
  | tan
  | asin
  | acos
  | atan
  | log
  | exp
  deriving DecidableEq, Repr

/-- The native functions that select members of the rings. -/
inductive RingFunc where
  | gt
  | ge
  | lt
  | le
  deriving DecidableEq, Repr

/-- The native functions with one parameter. -/
inductive NativeFunc1 where
  | round
  | ceil
  | floor
  | math (f : MathFunc)
  | dbl
  | arraySize
  | dnsLookup
  | dnsAddr
  | popBack
  | ring (f : RingFunc)
  | arrayMaxOffset
  | arrayMinOffset
  | arrayAvg
  | arrayMax
  | arrayMin
  deriving DecidableEq, Repr

/-- The native functions with two parameters. -/
inductive NativeFunc2 where
  | pow
  | pushBack
  | arrayIntersect
  | arrayUnion
  deriving DecidableEq, Repr

/-- The ways to measure a distance. -/
inductive DistanceKind where
  | tcp
  | dns
  | ping
  | icmp
  deriving DecidableEq, Repr

/-- The nodes of a function body. -/
inductive Ast where
  /-- `EMPTY_TYPE` -/
  | empty
  /-- an `INT`, a `DOUBLE` or a `STRING` node -/
  | literal (a : Addr)
  /-- `NEW_VAR_TYPE` with a scalar or a struct -/
  | newVar (t : ElemType) (name : Str)
  /-- `NEW_VAR_TYPE` with an array -/
  | newVarArray (t : ElemType) (name : Str) (size : Ast)
  /-- `NEW_VAR_ASSIGN_TYPE` with an expression -/
  | newVarAssign (t : DeclType) (name : Str) (assign : Ast)
  /-- `NEW_VAR_ASSIGN_TYPE` with a list in braces -/
  | newVarAssignSep (t : DeclType) (name : Str) (assign : List Ast)
  /-- `REF_VAR_TYPE` -/
  | refVar (name : Str)
  /-- `REF_VAR_ARRAY_TYPE` -/
  | refVarArray (nameAst accessAst : Ast)
  /-- `REF_VAR_ADT_TYPE` -/
  | refVarAdt (nameAst : Ast) (dotName : Str)
  /-- `AST_TYPE`: the right node is the list of the statements before the left one -/
  | ast (left right : Ast)
  /-- `CONTEXT_TYPE` -/
  | context (node : Ast)
  /-- `PRINT_TYPE` -/
  | print (node : Ast)
  /-- `PRINTLN_TYPE` -/
  | println (node : Ast)
  /-- `UNARY_TYPE` -/
  | unary (op : UnaryOp) (node : Ast)
  /-- `BIN_TYPE` -/
  | bin (op : BinOp) (left right : Ast)
  /-- `ASSIGN_ADT_TYPE` -/
  | assignAdt (left right : Ast)
  /-- `RPC_TYPE` -/
  | rpc (dest : Ast) (funcName : Str) (param : List Ast)
  /-- `IF_TYPE` -/
  | ifNode (eval left right : Ast)
  /-- `LOOP_TYPE` -/
  | loop (eval node : Ast)
  /-- `FOR_LOOP_TYPE` -/
  | forLoop (node1 node2 node3 node4 : Ast)
  /-- `BREAK_TYPE` -/
  | breakNode
  /-- `CONTINUE_TYPE` -/
  | continueNode
  /-- `FUNC_REF_TYPE` -/
  | funcRef (name : Str) (actualParam : List Ast)
  /-- `RETURN_TYPE` -/
  | returnNode (node : Ast)
  /-- `NATIVE_FUNC_TYPE` with `GET_SELF` -/
  | getSelf
  /-- `NATIVE_FUNC_TYPE` with one parameter -/
  | native1 (f : NativeFunc1) (param1 : Ast)
  /-- `NATIVE_FUNC_TYPE` with two parameters -/
  | native2 (f : NativeFunc2) (param1 param2 : Ast)
  /-- `NATIVE_FUNC_TYPE` with one of `GET_DISTANCE`; the sources may be missing -/
  | getDistance (kind : DistanceKind) (param1 : Option Ast) (param2 param3 : Ast)

/-- The members of a `FUNC_CALL` node but the actual parameters. -/
structure Func where
  fType : DeclType
  fName : Str
  fFormalParam : List Param
  fNode : Ast

namespace Ast

/-- The nodes that a node points to. -/
def children : Ast → List Ast
  | newVarArray _ _ size => [size]
  | newVarAssign _ _ assign => [assign]
  | newVarAssignSep _ _ assign => assign
  | refVarArray nameAst accessAst => [nameAst, accessAst]
  | refVarAdt nameAst _ => [nameAst]
  | ast left right => [left, right]
  | context node => [node]
  | print node => [node]
  | println node => [node]
  | unary _ node => [node]
  | bin _ left right => [left, right]
  | assignAdt left right => [left, right]
  | rpc dest _ param => dest :: param
  | ifNode eval left right => [eval, left, right]
  | loop eval node => [eval, node]
  | forLoop node1 node2 node3 node4 => [node1, node2, node3, node4]
  | funcRef _ actualParam => actualParam
  | returnNode node => [node]
  | native1 _ param1 => [param1]
  | native2 _ param1 param2 => [param1, param2]
  | getDistance _ param1 param2 param3 => param1.toList ++ [param2, param3]
  | _ => []

/-- `c` occurs in `t`. -/
inductive Sub (c : Ast) : Ast → Prop
  | refl : Sub c c
  | child {t d : Ast} (hd : d ∈ t.children) (h : Sub c d) : Sub c t

/-- A property of nodes holds of all that occur in `t`. -/
def All (P : Ast → Prop) (t : Ast) : Prop := ∀ c, Sub c t → P c

theorem All.self {P : Ast → Prop} {t : Ast} (h : t.All P) : P t := h t .refl

theorem All.child {P : Ast → Prop} {t d : Ast} (h : t.All P) (hd : d ∈ t.children) : d.All P :=
  fun c hc ↦ h c (.child hd hc)

theorem all_iff {P : Ast → Prop} {t : Ast} : t.All P ↔ P t ∧ ∀ d ∈ t.children, d.All P := by
  refine ⟨fun h ↦ ⟨h.self, fun d hd ↦ h.child hd⟩, fun ⟨hself, hchildren⟩ c hc ↦ ?_⟩
  cases hc with
  | refl => exact hself
  | child hd hc => exact hchildren _ hd c hc

end Ast

end Meridian.MQL

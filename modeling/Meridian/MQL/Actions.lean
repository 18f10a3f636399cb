import Meridian.MQL.Grammar
import Meridian.MQL.StartInvariant

/-!
# The semantic actions of the grammar

The `mk_` functions of `MeridianDSL.cpp` and the actions of `MQL.ypp`, which run in the order of the
reductions: the parts of a production from left to right, then its own. All nodes belong to the global
table.

* A literal (an `INT`, a `DOUBLE` or a `STRING` node) is put at the end of the literals; of the other
  nodes the number is kept. `received` is the number of nodes of the parameters, which come before.
* Where `new_stack_ast` fails, `mk_` functions answer with the `EMPTY` node. The actions stop here
  instead: `Makes` says that this never happens to a program that is short enough.
* A `SEP` node is the list of its entries; the vector of a list grows without a new node.
-/

namespace Meridian.MQL

variable {D α β : Type}

/-- What the parser has allocated. -/
structure Text (D : Type) where
  received : ℕ
  literals : List (Literal D)
  textNodes : ℕ

/-- `ASTAllocationCount` -/
def Text.astAllocationCount (t : Text D) : ℕ := t.received + t.literals.length + t.textNodes

/-- A computation of the parser. -/
abbrev Build (D : Type) : Type → Type := StateT (Text D) (Except ParseError)

namespace Build

/-- `new_stack_ast` for a literal. -/
def newLiteral (l : Literal D) : Build D Ast := do
  let t ← get
  if t.astAllocationCount < Value.MAX_AST_PER_STACK then
    set { t with literals := t.literals ++ [l] }
    return .literal ⟨0, t.literals.length⟩
  else throw .outOfNodes

/-- `new_stack_ast` for any other node. -/
def newNode (node : α) : Build D α := do
  let t ← get
  if t.astAllocationCount < Value.MAX_AST_PER_STACK then
    set { t with textNodes := t.textNodes + 1 }
    return node
  else throw .outOfNodes

/-! ### `MeridianDSL.cpp` -/

def mkEmpty : Build D Ast := newNode .empty

def mkAdt (adtName : Str) (paramList : List Field) : Build D AdtDef := newNode ⟨adtName, paramList⟩

def mkNodeList (a b : Ast) : Build D Ast := newNode (MQL.mkNodeList a b)

/-- Its entries are parameters, fields or expressions. -/
def mkSepList (a : α) : Build D (List α) := newNode [a]

def mkReturn (a : Ast) : Build D Ast := newNode (.returnNode a)

def mkContext (a : Ast) : Build D Ast := newNode (.context a)

def mkNewVar (type : BasicType) (a : Str) : Build D Ast := newNode (.newVar (.basic type) a)

def mkNewVarArray (type : BasicType) (a : Str) (size : Ast) : Build D Ast :=
  newNode (.newVarArray (.basic type) a size)

def mkNewAdtVarArray (adtName a : Str) (size : Ast) : Build D Ast :=
  newNode (.newVarArray (.adt adtName) a size)

def mkNewAdtVar (adtName a : Str) : Build D Ast := newNode (.newVar (.adt adtName) a)

def mkNewAdtVarAssign (adtName a : Str) (b : Ast) : Build D Ast :=
  newNode (.newVarAssign (.elem (.adt adtName)) a b)

/-- `mk_new_adt_var_assign` with a `SEP` node. -/
def mkNewAdtVarAssignSep (adtName a : Str) (b : List Ast) : Build D Ast :=
  newNode (.newVarAssignSep (.elem (.adt adtName)) a b)

def mkNewVarAssign (type : BasicType) (a : Str) (b : Ast) : Build D Ast :=
  newNode (.newVarAssign (.elem (.basic type)) a b)

/-- The size is kept in the node and never read. -/
def mkNewVarArrayAssign (type : BasicType) (a : Str) (b : Ast) (_size : Ast) : Build D Ast :=
  newNode (.newVarAssign (.array (.basic type)) a b)

/-- `mk_new_var_array_assign` with a `SEP` node. -/
def mkNewVarArrayAssignSep (type : BasicType) (a : Str) (b : List Ast) (_size : Ast) :
    Build D Ast :=
  newNode (.newVarAssignSep (.array (.basic type)) a b)

def mkNewAdtVarArrayAssign (adtName a : Str) (b : Ast) (_size : Ast) : Build D Ast :=
  newNode (.newVarAssign (.array (.adt adtName)) a b)

/-- `mk_new_adt_var_array_assign` with a `SEP` node. -/
def mkNewAdtVarArrayAssignSep (adtName a : Str) (b : List Ast) (_size : Ast) : Build D Ast :=
  newNode (.newVarAssignSep (.array (.adt adtName)) a b)

def mkRefVar (a : Str) : Build D Ast := newNode (.refVar a)

def mkRefAdtVar (a : Ast) (b : Str) : Build D Ast := newNode (.refVarAdt a b)

def mkRefArrayVar (a b : Ast) : Build D Ast := newNode (.refVarArray a b)

def mkInt (a : Int32) : Build D Ast := newLiteral (.int a)

def mkDouble (a : D) : Build D Ast := newLiteral (.double a)

def mkString (a : Str) : Build D Ast := newLiteral (.string a)

/-- `mk_native_func_0`, of which there is only one. -/
def mkNativeFunc0 : Build D Ast := newNode .getSelf

def mkNativeFunc1 (type : NativeFunc1) (a : Ast) : Build D Ast := newNode (.native1 type a)

def mkNativeFunc2 (type : NativeFunc2) (a b : Ast) : Build D Ast := newNode (.native2 type a b)

/-- `mk_native_func_3`; the sources are missing where the first node is an `EMPTY` node. -/
def mkNativeFunc3 (type : DistanceKind) (a : Option Ast) (b c : Ast) : Build D Ast :=
  newNode (.getDistance type a b c)

def mkPrint (a : Ast) : Build D Ast := newNode (.print a)

def mkPrintln (a : Ast) : Build D Ast := newNode (.println a)

def mkFunctionDeclare (type : DeclType) (funcName : Str) (paramList : List Param)
    (statementsNode : Ast) : Build D Func :=
  newNode ⟨type, funcName, paramList, statementsNode⟩

def mkFunctionRef (funcName : Str) (a : List Ast) : Build D Ast := newNode (.funcRef funcName a)

def mkUnary (op : UnaryOp) (a : Ast) : Build D Ast := newNode (.unary op a)

def mkArith (op : BinOp) (a b : Ast) : Build D Ast := newNode (.bin op a b)

def mkAdtAssign (a b : Ast) : Build D Ast := newNode (.assignAdt a b)

def mkSelection (eval a b : Ast) : Build D Ast := newNode (.ifNode eval a b)

def mkLoop (eval a : Ast) : Build D Ast := newNode (.loop eval a)

def mkForLoop (a b c d : Ast) : Build D Ast := newNode (.forLoop a b c d)

def mkRpc (dest : Ast) (funcName : Str) (paramAST : List Ast) : Build D Ast :=
  newNode (.rpc dest funcName paramAST)

end Build

open Build

/-! ### `MQL.ypp` -/

/-- The semantic value of a nonterminal. -/
abbrev ExprNT.Val : ExprNT → Type
  | .expr _ => Ast
  | .expressionSep => List Ast

/-- The actions of an expression. -/
def ExprTree.action {nt : ExprNT} : ExprTree D nt → Build D nt.Val
  | identifier name => mkRefVar name
  | intConstant i => mkInt i
  | doubleConstant d => mkDouble d
  | stringLiteral s => mkString s
  | paren e => e.action
  | primary e => e.action
  | dot e name => do mkRefAdtVar (← e.action) name
  | access e i => do mkRefArrayVar (← e.action) (← i.action)
  | print e => do mkPrint (← e.action)
  | println e => do mkPrintln (← e.action)
  | call name param => do mkFunctionRef name (← param.action)
  | callEmpty name => mkFunctionRef name []
  | rpc dest name param => do mkRpc (← dest.action) name (← param.action)
  | rpcEmpty dest name => do mkRpc (← dest.action) name []
  | native1 f e => do mkNativeFunc1 f (← e.action)
  | native2 f e₁ e₂ => do mkNativeFunc2 f (← e₁.action) (← e₂.action)
  | getSelf => mkNativeFunc0
  | getDistance kind e₂ e₃ => do
    let b ← e₂.action
    let c ← e₃.action
    let _ ← mkEmpty
    mkNativeFunc3 kind none b c
  | getDistanceFrom kind e₁ e₂ e₃ => do
    let a ← e₁.action
    mkNativeFunc3 kind (some a) (← e₂.action) (← e₃.action)
  | bare e => e.action
  | plus e => e.action
  | unary op e => do mkUnary op (← e.action)
  | operand _ e => e.action
  | bin _ op _ left right => do mkArith op (← left.action) (← right.action)
  | logicalOr e => e.action
  | assign left right => do mkAdtAssign (← left.action) (← right.action)
  | first e => do mkSepList (← e.action)
  | next es e => do return (← es.action) ++ [← e.action]

/-- The actions of a `parameter_adt`. -/
def Param.action (p : Param) : Build D Ast :=
  match p.vType with
  | .elem (.basic t) => mkNewVar t p.vName
  | .elem (.adt name) => mkNewAdtVar name p.vName
  | .array (.basic t) => do mkNewVarArray t p.vName (← mkInt 0)
  | .array (.adt name) => do mkNewAdtVarArray name p.vName (← mkInt 0)

/-- The actions of a statement. -/
def StmtTree.action {nt : StmtNT} : StmtTree D nt → Build D Ast
  | compound body => do mkContext (← body.action)
  | selection eval left => do mkSelection (← eval.action) (← left.action) .empty
  | selectionElse eval left right => do
    mkSelection (← eval.action) (← left.action) (← right.action)
  | selectionElseIf eval left right => do
    mkSelection (← eval.action) (← left.action) (← right.action)
  | empty => pure .empty
  | expression e => e.action
  | parameter p => p.action
  | newArray (.basic t) name size => do mkNewVarArray t name (← size.action)
  | newArray (.adt t) name size => do mkNewAdtVarArray t name (← size.action)
  | newAssign (.elem (.basic t)) name e => do mkNewVarAssign t name (← e.action)
  | newAssign (.elem (.adt t)) name e => do mkNewAdtVarAssign t name (← e.action)
  | newAssign (.array (.basic t)) name e => do
    mkNewVarArrayAssign t name (← e.action) (← mkInt 0)
  | newAssign (.array (.adt t)) name e => do
    mkNewAdtVarArrayAssign t name (← e.action) (← mkInt 0)
  | newAssignSep (.elem (.adt t)) _ name es => do mkNewAdtVarAssignSep t name (← es.action)
  | newAssignSep (.array (.basic t)) _ name es => do
    mkNewVarArrayAssignSep t name (← es.action) (← mkInt 0)
  | newAssignSep (.array (.adt t)) _ name es => do
    mkNewAdtVarArrayAssignSep t name (← es.action) (← mkInt 0)
  | loop eval body => do mkLoop (← eval.action) (← body.action)
  | forLoop init eval step body => do
    mkContext (← mkForLoop (← init.action) (← eval.action) (← step.action) (← body.action))
  | continueStatement => pure .continueNode
  | breakStatement => pure .breakNode
  | returnStatement e => do mkReturn (← e.action)
  | returnEmpty => mkReturn .empty
  | ofCompound s => s.action
  | ofSelection s => s.action
  | ofExpression s => s.action
  | ofDeclaration s => s.action
  | ofIteration s => s.action
  | ofJump s => s.action
  | nil => pure .empty
  | snoc list s => do
    let a ← list.action
    Build.mkNodeList (← s.action) a

/-- The actions of a `parameter_array_fixed`. -/
def FieldTree.action (f : FieldTree) : Build D Field :=
  match f.size with
  | .scalar => do
    let _ ← mkNewVar f.type f.name
    return ⟨f.type, none, f.name⟩
  | .empty => do
    let _ ← mkNewVarArray f.type f.name (← mkInt 0)
    return ⟨f.type, some 0, f.name⟩
  | .fixed size => do
    let _ ← mkNewVarArray f.type f.name (← mkInt size)
    return ⟨f.type, some size, f.name⟩

/-- The actions of `parameter_sep`: the formal parameters of a function. -/
def actionParams : List Param → Build D (List Param)
  | [] => pure []
  | p :: ps => do
    let _ ← p.action
    let list ← mkSepList p
    let rest ← ps.mapM fun q ↦ do
      let _ ← q.action
      return q
    return list ++ rest

/-- The actions of `parameter_list`: the fields of a struct. -/
def actionFields (field : FieldTree) (fields : List FieldTree) : Build D (List Field) := do
  let list ← mkSepList (← field.action)
  return list ++ (← fields.mapM FieldTree.action)

/-- The actions of a `global_declaration`. -/
def GlobalTree.action : GlobalTree D → Build D GlobalDecl
  | func type name param body => do
    return .func (← mkFunctionDeclare type name (← actionParams param) (← body.action))
  | struct name field fields => do return .struct (← mkAdt name (← actionFields field fields))

/-- The actions of `input_state`. -/
def actionInput (decls : List (GlobalTree D)) : Build D (List GlobalDecl) :=
  decls.mapM fun g ↦ do
    let d ← g.action
    newNode d

end Meridian.MQL

import Meridian.MQL.Native
import Meridian.Lib.Run

/-!
# Evaluation of MQL

`eval` of `MeridianDSL.cpp`, with its C++ stack made explicit: a `Frame` is a call of `eval` that
waits for a nested one, and what is left of it. `Machine.step` runs from one call or return to the
next, so that the states between them can be spoken of, and a program that loops has a run.

* Most nodes evaluate some of their operands in a fixed order and then do one thing: `operands` and
  `apply`. The others decide what to evaluate next and have frames of their own.
* `recurse_count` is a member of the frames. `FUNC_REF` evaluates the node that it finds, which is a
  third kind of call.
* Once `evalCount` is used up the interpreter yields, and is resumed with a new allowance.
* `f_actual_param` of a `FUNC_CALL` node is written by `FUNC_REF` right before the node is evaluated,
  which reads it at once; here it is passed.
* What `print` writes is left out.
-/

namespace Meridian.MQL

/-- `MAX_RECURSE_COUNT`. -/
def MAX_RECURSE_COUNT : ℕ := 1000

/-- `INSTRUCTIONS_PER_IT`. -/
def INSTRUCTIONS_PER_IT : ℤ := 10000

/-- A call of `eval`, or the return from one. -/
inductive Ctrl where
  | eval (curNode : Ast) (recurseCount : ℕ)
  | evalPtr (curNode : Ptr) (actualParam : List Ast) (recurseCount : ℕ)
  | ret (node : Ptr)

/-- A call of `eval` that waits for a nested one. -/
inductive Frame where
  | operands (curNode : Ast) (evaluated : List Ptr) (pending : List Ast) (recurseCount : ℕ)
  | astRight (left : Ast) (recurseCount : ℕ)
  | astLeft
  | context
  | ifEval (left right : Ast) (recurseCount : ℕ)
  | ifBranch
  | loopEval (eval node : Ast) (recurseCount : ℕ)
  | loopBody (eval node : Ast) (recurseCount : ℕ)
  | forInit (node2 node3 node4 : Ast) (recurseCount : ℕ)
  | forEval (node2 node3 node4 : Ast) (recurseCount : ℕ)
  | forBody (node2 node3 node4 : Ast) (recurseCount : ℕ)
  | forStep (node2 node3 node4 : Ast) (recurseCount : ℕ)
  | funcParam (f : Func) (tmpNode : Option Ptr) (actual : List Ptr) (pending : List Ast)
      (recurseCount : ℕ)
  | funcBody (oldTable : TableId) (tmpNode returnNode : Option Ptr)

/-- What is evaluated before `apply`, in this order. -/
def Ast.operands : Ast → List Ast
  | newVarArray _ _ size => [size]
  | newVarAssign _ _ assign => [assign]
  | newVarAssignSep _ _ assign => assign
  | refVarArray nameAst accessAst => [accessAst, nameAst]
  | refVarAdt nameAst _ => [nameAst]
  | print node => [node]
  | println node => [node]
  | unary _ node => [node]
  | bin _ left right => [right, left]
  | assignAdt left right => [right, left]
  | rpc dest _ param => dest :: param
  | returnNode node => [node]
  | native1 .dnsLookup _ => []
  | native1 _ param1 => [param1]
  | native2 _ param1 param2 => [param1, param2]
  | getDistance _ param1 param2 param3 => param1.toList ++ [param2, param3]
  | _ => []

theorem Ast.mem_children_of_mem_operands {t d : Ast} (h : d ∈ t.operands) : d ∈ t.children := by
  cases t with
  | native1 f param1 => cases f <;> simp_all [operands, children]
  | _ => simp_all [operands, children] <;> tauto

variable {D : Type} [CDouble D]

namespace Interp

/-- The head of `eval`: `false` if the recursion is too deep. -/
def enter (recurseCount : ℕ) : Interp D Bool := do
  if MAX_RECURSE_COUNT < recurseCount then pure false
  else
    modify fun s ↦
      if s.evalCount = -1 then s
      else { s with evalCount := (if s.evalCount = 0 then INSTRUCTIONS_PER_IT else s.evalCount) - 1 }
    pure true

/-- A node of the heap evaluates to itself, unless it is a list. -/
def evalValue (a : Addr) : Interp D Ptr := do
  match ← getNode a with
  | .sep _ => pure .empty
  | _ => pure (.node a)

/-- The end of `NEW_VAR_ASSIGN_TYPE`. -/
def assignNewVar (d : DeclType) (name : Str) (evalAst : Ptr) : Interp D Ptr := do
  if (← typeOf evalAst) = .emptyType then pure evalAst
  else
    let newAst ← variableCreate d 0 name
    if ← updateADT (← getVarTable) newAst evalAst then pure newAst else pure .empty

/-- `REF_VAR_ARRAY_TYPE`. -/
def arrayAccess (retVar accessVar : Ptr) : Interp D Ptr := do
  match ← nodeAt retVar, ← nodeAt accessVar with
  | some (_, .array _ _ v _), some (_, .int i) =>
    if i < 0 then pure .empty
    else return ((← getVector v)[i.toInt.toNat]?).getD .empty
  | _, _ => pure .empty

/-- `REF_VAR_ADT_TYPE`. -/
def adtAccess (retVar : Ptr) (dotName : Str) : Interp D Ptr := do
  match ← nodeAt retVar with
  | some (_, .varAdt _ m _) => return ((← getMap m)[dotName]?).getD .empty
  | _ => pure .empty

/-- `PRINT_TYPE` and `PRINTLN_TYPE`. -/
def printNode (newNode : Ptr) : Interp D Ptr := do
  match ← typeOf newNode with
  | .emptyType | .intType | .doubleType | .stringType => pure newNode
  | _ => pure .empty

/-- `UNARY_TYPE`. The operand is overwritten. -/
def unaryOperation (op : UnaryOp) (newNode : Ptr) : Interp D Ptr := do
  match op, ← nodeAt newNode with
  | .minus, some (a, .int i) =>
    setNode a (.int (-1 * i))
    pure newNode
  | .minus, some (a, .double d) =>
    setNode a (.double (CDouble.mul (CDouble.ofInt (-1)) d))
    pure newNode
  | .not, some (a, .int i) =>
    setNode a (.int (ofBool (i == 0)))
    pure newNode
  | _, _ => pure .empty

/-- `arith_operation`. -/
def arithOperation (op : BinOp) (a b : Ptr) : Interp D Ptr := do
  let t ← getVarTable
  match ← nodeAt a, ← nodeAt b with
  | some (_, .int x), some (_, .int y) =>
    match arithInt op x y with
    | .ok z => return orEmpty (← newStackAst t (pure (.int z)))
    | .error e =>
      -- The node is allocated first, and the limit may have been reached.
      match ← newStackAst t (pure .raw) with
      | some _ => throw e
      | none => pure .empty
  | some (_, .double x), some (_, .double y) =>
    match arithDouble op x y with
    | some n => return orEmpty (← newStackAst t (pure n))
    | none =>
      let _ ← newStackAst t (pure .raw)
      pure .empty
  | _, _ =>
    let _ ← newStackAst t (pure .raw)
    pure .empty

/-- `BIN_TYPE`. -/
def binOperation (op : BinOp) (rNode lNode : Ptr) : Interp D Ptr := do
  if (← typeOf rNode) = .emptyType then pure rNode
  else if (← typeOf lNode) = .emptyType then pure lNode
  else arithOperation op lNode rNode

/-- `ASSIGN_ADT_TYPE`. -/
def assignAdt (rNode lNode : Ptr) : Interp D Ptr := do
  if (← typeOf rNode) = .emptyType then pure rNode
  else if (← typeOf lNode) = .emptyType then pure lNode
  else if ← updateADT (← getVarTable) lNode rNode then pure lNode
  else pure .empty

/-- `RETURN_TYPE`. -/
def returnValue (eNode : Ptr) : Interp D Ptr := do
  if (← typeOf eNode) = .emptyType then pure .returnNode
  else
    let _ ← variableAssign returnString eNode
    pure .returnNode

/-- What a node does once its operands have been evaluated. -/
def apply (host : Host D) : Ast → List Ptr → Interp D Ptr
  | .literal a, _ => evalValue a
  | .newVar t name, _ => variableCreate (.elem t) 0 name
  | .newVarArray t name _, [size] => onInt size fun i ↦ variableCreate (.array t) i name
  | .newVarAssign d name _, [evalAst] => assignNewVar d name evalAst
  | .newVarAssignSep d name _, newArray => do assignNewVar d name (← mkSepList newArray)
  | .refVar name, _ => do return (← lookup (← getVarTable) name).getD .empty
  | .refVarArray _ _, [accessVar, retVar] => arrayAccess retVar accessVar
  | .refVarAdt _ dotName, [retVar] => adtAccess retVar dotName
  | .print _, [newNode] => printNode newNode
  | .println _, [newNode] => printNode newNode
  | .unary op _, [newNode] => unaryOperation op newNode
  | .bin op _ _, [rNode, lNode] => binOperation op rNode lNode
  | .assignAdt _ _, [rNode, lNode] => assignAdt rNode lNode
  | .rpc _ _ _, _ :: param => handleRPC host param
  | .breakNode, _ => pure .breakToken
  | .continueNode, _ => pure .continueToken
  | .returnNode _, [eNode] => returnValue eNode
  | .getSelf, _ => handleGetSelf host
  | .native1 .dnsLookup _, _ => pure .empty
  | .native1 f _, [p] => native1 host f p
  | .native2 f _ _, [p1, p2] => native2 f p1 p2
  | .getDistance _ none _ _, [p2, p3] => getDistance host none p2 p3
  | .getDistance _ (some _) _ _, [p1, p2, p3] => getDistance host (some p1) p2 p3
  | _, _ => pure .empty

/-- The checks that are made before the next operand is evaluated. -/
def proceed : Ast → List Ptr → Interp D Bool
  | .rpc _ _ _, [dest] => rpcDest dest
  | .getDistance _ none _ _, [p2] => isNodeArray p2
  | .getDistance _ (some _) _ _, [p1] => isNodeArray p1
  | .getDistance _ (some _) _ _, [_, p2] => isNodeArray p2
  | _, _ => pure true

/-- What comes next: a call or a return, and the frame that waits for it. -/
abbrev Next := Ctrl × List Frame

/-- The next operand, or `apply`. -/
def nextOperand (host : Host D) (curNode : Ast) (evaluated : List Ptr) (pending : List Ast)
    (recurseCount : ℕ) : Interp D Next := do
  if ← proceed curNode evaluated then
    match pending with
    | [] => return (.ret (← apply host curNode evaluated), [])
    | c :: cs => pure (.eval c (recurseCount + 1), [.operands curNode evaluated cs recurseCount])
  else pure (.ret .empty, [])

/-- The signals that `AST`, `CONTEXT` and `IF` nodes pass on; else the result is `EMPTY`. -/
def forward (thisNode : Ptr) : Interp D Ptr := do
  match ← typeOf thisNode with
  | .breakType | .continueType | .returnType => pure thisNode
  | _ => pure .empty

/-- A condition: an `INT` node that is not 0. -/
def isNonzero (eNode : Ptr) : Interp D Bool := do
  match ← nodeAt eNode with
  | some (_, .int i) => pure (i != 0)
  | _ => pure false

/-- The variable for the result of a call, in its own table. -/
def createReturn (f : Func) : Option Ptr → Interp D (Option Ptr)
  | none => pure none
  | some _ => do return some (← variableCreate f.fType 0 returnString)

/-- `FUNC_CALL_TYPE` after the evaluation of the parameters. -/
def enterFunc (f : Func) (tmpNode : Option Ptr) (actual : List Ptr) (recurseCount : ℕ) :
    Interp D Next := do
  let oldTable ← newVarTable
  let returnNode ← createReturn f tmpNode
  if ← paramListAssign f.fFormalParam actual then
    pure (.eval f.fNode (recurseCount + 1), [.funcBody oldTable tmpNode returnNode])
  else pure (.ret .empty, [.funcBody oldTable tmpNode returnNode])

/-- The next parameter of a call, or its body. -/
def nextParam (f : Func) (tmpNode : Option Ptr) (actual : List Ptr) (pending : List Ast)
    (recurseCount : ℕ) : Interp D Next :=
  match pending with
  | [] => enterFunc f tmpNode actual recurseCount
  | c :: cs => pure (.eval c (recurseCount + 1), [.funcParam f tmpNode actual cs recurseCount])

/-- The node for the result of a call. -/
def createTmp (f : Func) : Interp D (Option Ptr) := do
  if f.fType = .void then pure none
  else return some (orEmpty (← astCreate (← getVarTable) f.fType 0))

/-- `FUNC_CALL_TYPE` after the body. -/
def leaveFunc (oldTable : TableId) (tmpNode returnNode : Option Ptr) (thisNode : Ptr) :
    Interp D Ptr := do
  match tmpNode, returnNode with
  | some tmp, some ret =>
    let _ ← updateADT oldTable tmp ret
    pure ()
  | _, _ => pure ()
  removeVarTable
  match ← typeOf thisNode with
  | .continueType | .breakType => pure .empty
  | _ => pure (tmpNode.getD .empty)

/-- `eval` up to its first nested call. -/
def evalNode (host : Host D) (curNode : Ast) (recurseCount : ℕ) : Interp D Next := do
  if ← enter recurseCount then
    match curNode with
    | .ast left right => pure (.eval right (recurseCount + 1), [.astRight left recurseCount])
    | .context node => do
      newContext
      pure (.eval node (recurseCount + 1), [.context])
    | .ifNode eval left right =>
      pure (.eval eval (recurseCount + 1), [.ifEval left right recurseCount])
    | .loop eval node => pure (.eval eval (recurseCount + 1), [.loopEval eval node recurseCount])
    | .forLoop node1 node2 node3 node4 =>
      pure (.eval node1 (recurseCount + 1), [.forInit node2 node3 node4 recurseCount])
    | .funcRef name actualParam => do
      match ← lookup (← getVarTable) name with
      | none => pure (.ret .empty, [])
      | some callFunc => pure (.evalPtr callFunc actualParam (recurseCount + 1), [])
    | curNode => nextOperand host curNode [] curNode.operands recurseCount
  else pure (.ret .empty, [])

/-- `eval` of what `FUNC_REF` has found. -/
def evalPtr (callFunc : Ptr) (actualParam : List Ast) (recurseCount : ℕ) : Interp D Next := do
  if ← enter recurseCount then
    match callFunc with
    | .func f => do nextParam f (← createTmp f) [] actualParam recurseCount
    | .node a => return (.ret (← evalValue a), [])
    | _ => pure (.ret .empty, [])
  else pure (.ret .empty, [])

/-- `eval` from the return of a nested call to the next one. -/
def resume (host : Host D) (frame : Frame) (node : Ptr) : Interp D Next :=
  match frame with
  | .operands curNode evaluated pending rc =>
    nextOperand host curNode (evaluated ++ [node]) pending rc
  | .astRight left rc => do
    match ← typeOf node with
    | .breakType | .continueType | .returnType => pure (.ret node, [])
    | _ => pure (.eval left (rc + 1), [.astLeft])
  | .astLeft => do return (.ret (← forward node), [])
  | .context => do
    removeVarTable
    return (.ret (← forward node), [])
  | .ifEval left right rc => do
    match ← nodeAt node with
    | some (_, .int i) => pure (.eval (if i ≠ 0 then left else right) (rc + 1), [.ifBranch])
    | _ => pure (.ret .empty, [])
  | .ifBranch => do return (.ret (← forward node), [])
  | .loopEval eval body rc => do
    if ← isNonzero node then pure (.eval body (rc + 1), [.loopBody eval body rc])
    else pure (.ret .empty, [])
  | .loopBody eval body rc => do
    match ← typeOf node with
    | .returnType => pure (.ret node, [])
    | .breakType => pure (.ret .empty, [])
    | _ => pure (.eval eval (rc + 1), [.loopEval eval body rc])
  | .forInit node2 node3 node4 rc => pure (.eval node2 (rc + 1), [.forEval node2 node3 node4 rc])
  | .forEval node2 node3 node4 rc => do
    if ← isNonzero node then pure (.eval node4 (rc + 1), [.forBody node2 node3 node4 rc])
    else pure (.ret .empty, [])
  | .forBody node2 node3 node4 rc => do
    match ← typeOf node with
    | .returnType => pure (.ret node, [])
    | .breakType => pure (.ret .empty, [])
    | _ => pure (.eval node3 (rc + 1), [.forStep node2 node3 node4 rc])
  | .forStep node2 node3 node4 rc => pure (.eval node2 (rc + 1), [.forEval node2 node3 node4 rc])
  | .funcParam f tmpNode actual pending rc => nextParam f tmpNode (actual ++ [node]) pending rc
  | .funcBody oldTable tmpNode returnNode => do
    return (.ret (← leaveFunc oldTable tmpNode returnNode node), [])

end Interp

/-! ### The machine -/

/-- An evaluation under way. -/
structure Machine (D : Type) where
  ctrl : Ctrl
  stack : List Frame
  ps : ParserState D

namespace Machine

/-- What comes next on this stack. -/
def next (stack : List Frame) (r : Interp.Next × ParserState D) : Machine D :=
  ⟨r.1.1, r.1.2 ++ stack, r.2⟩

/-- One step. -/
def step (host : Host D) (m : Machine D) : Except Fault (Machine D) :=
  match m.ctrl, m.stack with
  | .eval curNode rc, stack => (Interp.evalNode host curNode rc m.ps).map (next stack)
  | .evalPtr curNode actualParam rc, stack =>
    (Interp.evalPtr curNode actualParam rc m.ps).map (next stack)
  | .ret node, frame :: stack => (Interp.resume host frame node m.ps).map (next stack)
  | .ret _, [] => .error .done

/-- One step, if there is one. -/
def step? (m : Machine D) (host : Host D) : Option (Machine D) :=
  match m.step host with
  | .ok m' => some m'
  | .error _ => none

end Machine

end Meridian.MQL

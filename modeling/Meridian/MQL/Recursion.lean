import Meridian.MQL.Start
import Meridian.Lib.CallStack

/-!
# `eval` as a recursive function

`eval` of `MeridianDSL.cpp` with its recursion, node by node as the source has it. The machine of
`MQL/Eval.lean` is the same function with its stack made explicit; `eval_adequate` says that both have
the same outcomes.

* The fuel bounds the depth of the recursion and the number of turns of a loop. `outOfFuel` is no
  outcome: with more fuel the evaluation goes on.
* `ask` is the node around the interpreter as it is now. The native functions that need it ask for it.
-/

namespace Meridian.MQL

open Lib

variable {D : Type}

namespace Recursion

/-- A part of `eval`. -/
abbrev Eval (D α : Type) : Type := CallStack.Recursive (Host D) (ParserState D) Fault α

open CallStack.Recursive (lift ask outOfFuel)

variable [CDouble D]

open Interp

/-- The loop of `LOOP_TYPE` and `FOR_LOOP_TYPE`: `eNode` is the condition, and `next` comes before the
next turn and evaluates it again. -/
def whileLoop (body next : Eval D Ptr) : ℕ → Ptr → Eval D Ptr
  | 0, _ => outOfFuel
  | fuel + 1, eNode => do
    if ← lift (isNonzero eNode) then
      let thisNode ← body
      match ← lift (typeOf thisNode) with
      | .returnType => pure thisNode
      | .breakType => pure .empty
      -- Continues are ignored, as it has essentially been performed.
      | _ => whileLoop body next fuel (← next)
    else pure .empty

/-- `FUNC_CALL_TYPE` after the evaluation of the parameters; `body` evaluates the function. -/
def callFunc (f : Func) (tmpNode : Option Ptr) (actualParam : List Ptr) (body : Eval D Ptr) :
    Eval D Ptr := do
  let oldTable ← lift newVarTable
  let returnNode ← lift (createReturn f tmpNode)
  if ← lift (paramListAssign f.fFormalParam actualParam) then
    let thisNode ← body
    lift (leaveFunc oldTable tmpNode returnNode thisNode)
  else lift (leaveFunc oldTable tmpNode returnNode .empty)

mutual

/-- `eval` of a node of the program text. -/
def eval : ℕ → Ast → ℕ → Eval D Ptr
  | 0, _, _ => outOfFuel
  | fuel + 1, curNode, recurseCount => do
    if ← lift (enter recurseCount) then
      match curNode with
      | .empty => pure .empty
      | .literal a => lift (evalValue a)
      | .newVar t name => lift (variableCreate (.elem t) 0 name)
      | .newVarArray t name size => do
        let getArraySize ← eval fuel size (recurseCount + 1)
        lift (onInt getArraySize fun i ↦ variableCreate (.array t) i name)
      | .newVarAssign d name assign => do
        let evalAst ← eval fuel assign (recurseCount + 1)
        lift (assignNewVar d name evalAst)
      | .newVarAssignSep d name assign => do
        let newArray ← assign.mapM fun p ↦ eval fuel p (recurseCount + 1)
        lift (do assignNewVar d name (← mkSepList newArray))
      | .refVar name => lift (do return (← lookup (← getVarTable) name).getD .empty)
      | .refVarArray nameAst accessAst => do
        let accessVar ← eval fuel accessAst (recurseCount + 1)
        let retVar ← eval fuel nameAst (recurseCount + 1)
        lift (arrayAccess retVar accessVar)
      | .refVarAdt nameAst dotName => do
        let retVar ← eval fuel nameAst (recurseCount + 1)
        lift (adtAccess retVar dotName)
      | .ast left right => do
        let thisNode ← eval fuel right (recurseCount + 1)
        match ← lift (typeOf thisNode) with
        | .breakType | .continueType | .returnType => pure thisNode
        | _ =>
          let thisNode ← eval fuel left (recurseCount + 1)
          lift (forward thisNode)
      | .context node => do
        lift newContext
        let thisNode ← eval fuel node (recurseCount + 1)
        lift removeVarTable
        lift (forward thisNode)
      | .print node => do
        let newNode ← eval fuel node (recurseCount + 1)
        lift (printNode newNode)
      | .println node => do
        let newNode ← eval fuel node (recurseCount + 1)
        lift (printNode newNode)
      | .unary op node => do
        let newNode ← eval fuel node (recurseCount + 1)
        lift (unaryOperation op newNode)
      | .bin op left right => do
        let rNode ← eval fuel right (recurseCount + 1)
        let lNode ← eval fuel left (recurseCount + 1)
        lift (binOperation op rNode lNode)
      | .assignAdt left right => do
        let rNode ← eval fuel right (recurseCount + 1)
        let lNode ← eval fuel left (recurseCount + 1)
        lift (assignAdt rNode lNode)
      | .rpc dest _ param => do
        let destNode ← eval fuel dest (recurseCount + 1)
        if ← lift (rpcDest destNode) then
          let actualParam ← param.mapM fun p ↦ eval fuel p (recurseCount + 1)
          let host ← ask
          lift (handleRPC host actualParam)
        else pure .empty
      | .ifNode cond left right => do
        let eNode ← eval fuel cond (recurseCount + 1)
        match ← lift (nodeAt eNode) with
        | some (_, .int i) =>
          let thisNode ← eval fuel (if i ≠ 0 then left else right) (recurseCount + 1)
          lift (forward thisNode)
        | _ => pure .empty
      | .loop cond node => do
        let eNode ← eval fuel cond (recurseCount + 1)
        whileLoop (eval fuel node (recurseCount + 1)) (eval fuel cond (recurseCount + 1)) fuel eNode
      | .forLoop node1 node2 node3 node4 => do
        let _ ← eval fuel node1 (recurseCount + 1)
        let eNode ← eval fuel node2 (recurseCount + 1)
        whileLoop (eval fuel node4 (recurseCount + 1))
          (do
            let _ ← eval fuel node3 (recurseCount + 1)
            eval fuel node2 (recurseCount + 1))
          fuel eNode
      | .breakNode => pure .breakToken
      | .continueNode => pure .continueToken
      | .funcRef name actualParam => do
        let table ← lift getVarTable
        match ← lift (lookup table name) with
        | none => pure .empty
        | some callFunc => evalPtr fuel callFunc actualParam (recurseCount + 1)
      | .returnNode node => do
        let eNode ← eval fuel node (recurseCount + 1)
        lift (returnValue eNode)
      | .getSelf => do
        let host ← ask
        lift (handleGetSelf host)
      | .native1 .dnsLookup _ => pure .empty
      | .native1 f param1 => do
        let nextNode ← eval fuel param1 (recurseCount + 1)
        let host ← ask
        lift (native1 host f nextNode)
      | .native2 f param1 param2 => do
        let nextNode1 ← eval fuel param1 (recurseCount + 1)
        let nextNode2 ← eval fuel param2 (recurseCount + 1)
        lift (native2 f nextNode1 nextNode2)
      | .getDistance _ none param2 param3 => do
        let nextNode2 ← eval fuel param2 (recurseCount + 1)
        if ← lift (isNodeArray nextNode2) then
          let nextNode3 ← eval fuel param3 (recurseCount + 1)
          let host ← ask
          lift (getDistance host none nextNode2 nextNode3)
        else pure .empty
      | .getDistance _ (some param1) param2 param3 => do
        let nextNode1 ← eval fuel param1 (recurseCount + 1)
        if ← lift (isNodeArray nextNode1) then
          let nextNode2 ← eval fuel param2 (recurseCount + 1)
          if ← lift (isNodeArray nextNode2) then
            let nextNode3 ← eval fuel param3 (recurseCount + 1)
            let host ← ask
            lift (getDistance host (some nextNode1) nextNode2 nextNode3)
          else pure .empty
        else pure .empty
    else pure .empty

/-- `eval` of what `FUNC_REF` has found. -/
def evalPtr : ℕ → Ptr → List Ast → ℕ → Eval D Ptr
  | 0, _, _, _ => outOfFuel
  | fuel + 1, curNode, fParam, recurseCount => do
    if ← lift (enter recurseCount) then
      match curNode with
      | .func f => do
        let tmpNode ← lift (createTmp f)
        let actualParam ← fParam.mapM fun p ↦ eval fuel p (recurseCount + 1)
        callFunc f tmpNode actualParam (eval fuel f.fNode (recurseCount + 1))
      | .node a => lift (evalValue a)
      | _ => pure .empty
    else pure .empty

end

/-- `jmp_eval`. The parameters have been evaluated: they are nodes which evaluate to themselves. -/
def jmpEval (fuel : ℕ) (program : Program D) (funcString : Str) (param : Value D) : Eval D Ptr := do
  lift (loadLiterals program.literals)
  lift (loadText program.textNodes)
  let actualParam ← lift (loadParam param)
  lift (declareAll (.struct nodeAdt :: .struct measurementAdt :: reachedDecls program.decls))
  lift (modify fun s ↦ { s with evalCount := INSTRUCTIONS_PER_IT })
  match ← lift (lookup 0 funcString) with
  | some (.func f) => do
    let tmpNode ← lift (createTmp f)
    callFunc f tmpNode actualParam (eval fuel f.fNode 1)
  | _ => pure .empty

/-! ### The machine runs the recursion -/

/-- The machine of `MQL/Eval.lean`. -/
def evalStack : CallStack (Host D) Ctrl Frame Ptr (ParserState D) Fault where
  ret := .ret
  value
    | .ret node => some node
    | _ => none
  value_ret _ := rfl
  call host
    | .eval curNode recurseCount => evalNode host curNode recurseCount
    | .evalPtr curNode actualParam recurseCount => Interp.evalPtr curNode actualParam recurseCount
    | .ret node => pure (.ret node, [])
  resume := resume

variable {n m : ℕ} {x y : Eval D Ptr} {node : Ast} {ev : List Ptr}
  {pending : List Ast} {p : Ast} {rc : ℕ}
  {i j : Host D → Interp D Next} {frames : List Frame}

/-- The text `x` is what the machine does when it runs `i`. -/
abbrev Codes (n : ℕ) (x : Eval D Ptr) (i : Host D → Interp D Next) (frames : List Frame) : Prop :=
  CallStack.Codes evalStack n x i frames

open CallStack (codes_lift codes_lift_ret codes_ret codes_ask codes_call codes_tail
  codes_resume codes_push)

theorem codes_pure (q : Ptr) : Codes (D := D) n (pure q) (fun _ ↦ pure (.ret q, [])) [] := codes_ret

theorem codes_return {k : Interp D Ptr} :
    Codes n (lift k) (fun _ ↦ do return (.ret (← k), [])) [] := codes_lift_ret

/-- Both branches. -/
theorem codes_cond {k : Interp D Bool} (h : Codes n x i frames) (h' : Codes n y j frames) :
    Codes n (do if ← lift k then x else y) (fun w ↦ do if ← k then i w else j w) frames := by
  refine codes_lift fun b ↦ ?_
  cases b
  · exact h'
  · exact h

/-- The calls that `eval` and `evalPtr` make with this fuel are run faithfully. -/
structure Calls (D : Type) [CDouble D] (n : ℕ) : Prop where
  ofNode (c : Ast) (rc : ℕ) : Codes (D := D) n (eval n c rc) (evalNode · c rc) []
  ofPtr (q : Ptr) (actualParam : List Ast) (rc : ℕ) :
    Codes (D := D) n (evalPtr n q actualParam rc) (fun _ ↦ Interp.evalPtr q actualParam rc) []

/-- A call of `eval`, and what follows its return. -/
theorem Calls.then (h : Calls D n) (hm : m ≤ n) {f : Frame} {k : Ptr → Eval D Ptr}
    (hk : ∀ v, Codes m (k v) (fun w ↦ resume w f v) []) :
    Codes (m + 1) (eval n p (rc + 1) >>= k) (fun _ ↦ pure (.eval p (rc + 1), [f])) [] :=
  codes_call rfl ((h.ofNode p (rc + 1)).mono hm) hk

/-! ### Operands -/

/-- What `nextOperand` does after its check. -/
def pass (host : Host D) (curNode : Ast) (evaluated : List Ptr) (rc : ℕ) : List Ast → Interp D Next
  | [] => do return (.ret (← apply host curNode evaluated), [])
  | c :: cs => pure (.eval c (rc + 1), [.operands curNode evaluated cs rc])

theorem nextOperand_eq (w : Host D) : nextOperand w node ev pending rc =
    (do if ← proceed node ev then pass w node ev rc pending else pure (.ret .empty, [])) := by
  cases pending <;> rfl

/-- The next operand is checked. -/
theorem codes_check {k : Interp D Bool} (hk : proceed node ev = k)
    (h : Codes n x (fun w ↦ pass w node ev rc pending) []) :
    Codes n (do if ← lift k then x else pure .empty) (fun w ↦ nextOperand w node ev pending rc) [] := by
  simp only [nextOperand_eq, hk]
  exact codes_cond h (codes_pure .empty)

/-- There is nothing to check. -/
theorem codes_proceed (hp : proceed node ev = (pure true : Interp D Bool))
    (h : Codes n x (fun w ↦ pass w node ev rc pending) []) :
    Codes n x (fun w ↦ nextOperand w node ev pending rc) [] := by
  simp only [nextOperand_eq, hp, pure_bind, if_true]
  exact h

/-- An operand is evaluated. -/
theorem Calls.operand (h : Calls D n) {k : Ptr → Eval D Ptr}
    (hk : ∀ v, Codes (n + 1) (k v) (fun w ↦ nextOperand w node (ev ++ [v]) pending rc) []) :
    Codes (n + 1) (eval n p (rc + 1) >>= k) (fun w ↦ pass w node ev rc (p :: pending)) [] :=
  h.then le_rfl fun v ↦ (hk v).mono n.le_succ

/-- The operands in a list, one after the other. -/
theorem Calls.operands (h : Calls D n) {k : List Ptr → Eval D Ptr}
    (hp : ∀ v vs, proceed node (ev ++ v :: vs) = (pure true : Interp D Bool))
    (hk : ∀ vs, Codes (n + 1) (k vs) (fun w ↦ pass w node (ev ++ vs) rc []) []) :
    Codes (n + 1) (do k (← pending.mapM fun p ↦ eval n p (rc + 1)))
      (fun w ↦ pass w node ev rc pending) [] := by
  induction pending generalizing ev k with
  | nil =>
    rw [List.mapM_nil, pure_bind]
    simpa only [List.append_nil] using hk []
  | cons p pending ih =>
    simp only [List.mapM_cons, bind_assoc, pure_bind]
    refine h.operand fun v ↦ codes_proceed (hp v []) (ih (fun v' vs ↦ ?_) fun vs ↦ ?_)
    · rw [List.append_assoc]
      exact hp v (v' :: vs)
    · rw [List.append_assoc]
      exact hk (v :: vs)

/-- All operands have been evaluated. -/
theorem codes_apply {k : Interp D Ptr} (hk : ∀ w, apply w node ev = k) :
    Codes (D := D) n (lift k) (fun w ↦ pass w node ev rc []) [] := by
  simp only [pass, hk]
  exact codes_return

/-- The same for a node that asks the node around the interpreter. -/
theorem codes_apply_host {k : Host D → Interp D Ptr} (hk : ∀ w, apply w node ev = k w) :
    Codes n (ask >>= fun w ↦ lift (k w)) (fun w ↦ pass w node ev rc []) [] := by
  simp only [pass, hk]
  exact codes_ask fun w ↦ codes_return

/-- The same for a node that does nothing. -/
theorem codes_apply_pure {q : Ptr} (hk : ∀ w : Host D, apply w node ev = pure q) :
    Codes (D := D) n (pure q) (fun w ↦ pass w node ev rc []) [] := by
  simp only [pass, hk, pure_bind]
  exact codes_pure q

/-! ### Loops and calls -/

/-- What comes after the body of a loop: `again` is the next turn. -/
def afterBody (again : Interp D Next) (thisNode : Ptr) : Interp D Next := do
  match ← typeOf thisNode with
  | .returnType => pure (.ret thisNode, [])
  | .breakType => pure (.ret .empty, [])
  | _ => again

/-- Both loops: `start` calls the body, and `again` leads to the next condition. -/
theorem codes_whileLoop {body next : Eval D Ptr}
    {test : Ptr → Interp D Next} {start again : Interp D Next}
    (htest : ∀ v, test v = do if ← isNonzero v then start else pure (.ret .empty, []))
    (hbody : ∀ m ≤ n, ∀ k : Ptr → Eval D Ptr, (∀ v, Codes m (k v) (fun _ ↦ afterBody again v) []) →
      Codes (m + 1) (body >>= k) (fun _ ↦ start) [])
    (hnext : ∀ m ≤ n, ∀ k : Ptr → Eval D Ptr, (∀ v, Codes m (k v) (fun _ ↦ test v) []) →
      Codes m (next >>= k) (fun _ ↦ again) [])
    (hm : m ≤ n) (v : Ptr) : Codes m (whileLoop body next m v) (fun _ ↦ test v) [] := by
  -- The induction is on the turns that the fuel is enough for.
  induction m generalizing v with
  | zero => exact CallStack.codes_outOfFuel
  | succ m ih =>
    have hm := Nat.le_of_succ_le hm
    rw [htest]
    refine codes_cond (hbody m hm _ fun v' ↦ codes_lift fun t ↦ ?_) (codes_pure .empty)
    cases t with
    | returnType => exact codes_pure v'
    | breakType => exact codes_pure .empty
    | _ => exact hnext m hm _ fun v ↦ ih hm v

/-- `LOOP_TYPE`. -/
theorem Calls.codes_loop (h : Calls D n) {cond node : Ast} (hm : m ≤ n) (v : Ptr) :
    Codes (D := D) m (whileLoop (eval n node (rc + 1)) (eval n cond (rc + 1)) m v)
      (fun w ↦ resume w (.loopEval cond node rc) v) [] := by
  let start : Interp D Next := pure (.eval node (rc + 1), [.loopBody cond node rc])
  let again : Interp D Next := pure (.eval cond (rc + 1), [.loopEval cond node rc])
  have hbody : ∀ m ≤ n, ∀ k : Ptr → Eval D Ptr, (∀ v, Codes m (k v) (fun _ ↦ afterBody again v) []) →
      Codes (m + 1) (eval n node (rc + 1) >>= k) (fun _ ↦ start) [] := fun m hm k hk ↦ h.then hm hk
  exact codes_whileLoop (fun _ ↦ rfl) hbody (fun m hm k hk ↦ (h.then hm hk).mono m.le_succ) hm v

/-- `FOR_LOOP_TYPE`, after its initiator. -/
theorem Calls.codes_forLoop (h : Calls D n) {node2 node3 node4 : Ast} (hm : m ≤ n) (v : Ptr) :
    Codes (D := D) m (whileLoop (eval n node4 (rc + 1))
      (do
        let _ ← eval n node3 (rc + 1)
        eval n node2 (rc + 1)) m v)
      (fun w ↦ resume w (.forEval node2 node3 node4 rc) v) [] := by
  let start : Interp D Next := pure (.eval node4 (rc + 1), [.forBody node2 node3 node4 rc])
  let again : Interp D Next := pure (.eval node3 (rc + 1), [.forStep node2 node3 node4 rc])
  have hbody : ∀ m ≤ n, ∀ k : Ptr → Eval D Ptr, (∀ v, Codes m (k v) (fun _ ↦ afterBody again v) []) →
      Codes (m + 1) (eval n node4 (rc + 1) >>= k) (fun _ ↦ start) [] := fun m hm k hk ↦ h.then hm hk
  refine codes_whileLoop (fun _ ↦ rfl) hbody (fun m hm k hk ↦ ?_) hm v
  rw [bind_assoc]
  exact (h.then hm fun _ ↦ (h.then hm hk).mono m.le_succ).mono m.le_succ

/-- The parameters of a call, one after the other. -/
theorem Calls.params (h : Calls D n) {f : Func} {tmpNode : Option Ptr} {actual : List Ptr}
    {k : List Ptr → Eval D Ptr}
    (hk : ∀ vs, Codes (n + 1) (k vs) (fun _ ↦ enterFunc f tmpNode (actual ++ vs) rc) []) :
    Codes (n + 1) (do k (← pending.mapM fun p ↦ eval n p (rc + 1)))
      (fun _ ↦ nextParam f tmpNode actual pending rc) [] := by
  induction pending generalizing actual k with
  | nil =>
    have hk := hk []
    rw [List.append_nil] at hk
    rw [List.mapM_nil, pure_bind]
    exact hk
  | cons p pending ih =>
    simp only [List.mapM_cons, bind_assoc, pure_bind]
    refine h.then le_rfl fun v ↦ (ih fun vs ↦ ?_).mono n.le_succ
    rw [List.append_assoc]
    exact hk (v :: vs)

/-- The function itself. -/
theorem Calls.callFunc (h : Calls D n) (f : Func) (tmpNode : Option Ptr) (actual : List Ptr) :
    Codes (D := D) (n + 1) (Recursion.callFunc f tmpNode actual (eval n f.fNode (rc + 1)))
      (fun _ ↦ enterFunc f tmpNode actual rc) [] := by
  refine codes_lift fun oldTable ↦ codes_lift fun returnNode ↦ codes_cond ?_ ?_
  · exact h.then le_rfl fun v ↦ codes_return
  · exact codes_push (codes_resume codes_return)

/-! ### `eval` -/

/-- What `eval` does with a node is what the machine does. -/
theorem Calls.codes_eval (h : Calls D n) (c : Ast) (rc : ℕ) :
    Codes (n + 1) (eval (n + 1) c rc) (evalNode (D := D) · c rc) [] := by
  refine codes_cond ?_ (codes_pure .empty)
  cases c with
  | empty => exact codes_proceed rfl (codes_apply_pure fun _ ↦ rfl)
  | literal a => exact codes_proceed rfl (codes_apply fun _ ↦ rfl)
  | newVar t name => exact codes_proceed rfl (codes_apply fun _ ↦ rfl)
  | newVarArray t name size =>
    exact codes_proceed rfl <| h.operand fun v ↦ codes_proceed rfl (codes_apply fun _ ↦ rfl)
  | newVarAssign d name assign =>
    exact codes_proceed rfl <| h.operand fun v ↦ codes_proceed rfl (codes_apply fun _ ↦ rfl)
  -- the values of a list are gathered before the variable is made
  | newVarAssignSep d name assign =>
    exact codes_proceed rfl <| h.operands (fun _ _ ↦ rfl) fun vs ↦ codes_apply fun _ ↦ rfl
  | refVar name => exact codes_proceed rfl (codes_apply fun _ ↦ rfl)
  | refVarArray nameAst accessAst =>
    exact codes_proceed rfl <| h.operand fun v ↦ codes_proceed rfl <| h.operand fun v' ↦
      codes_proceed rfl (codes_apply fun _ ↦ rfl)
  | refVarAdt nameAst dotName =>
    exact codes_proceed rfl <| h.operand fun v ↦ codes_proceed rfl (codes_apply fun _ ↦ rfl)
  | ast left right =>
    refine h.then le_rfl fun v ↦ codes_lift fun t ↦ ?_
    cases t with
    | breakType | continueType | returnType => exact codes_pure v
    | _ => exact (h.then le_rfl fun v' ↦ codes_return).mono n.le_succ
  | context node => exact codes_lift fun _ ↦ h.then le_rfl fun v ↦ codes_lift fun _ ↦ codes_return
  | print node =>
    exact codes_proceed rfl <| h.operand fun v ↦ codes_proceed rfl (codes_apply fun _ ↦ rfl)
  | println node =>
    exact codes_proceed rfl <| h.operand fun v ↦ codes_proceed rfl (codes_apply fun _ ↦ rfl)
  | unary op node =>
    exact codes_proceed rfl <| h.operand fun v ↦ codes_proceed rfl (codes_apply fun _ ↦ rfl)
  | bin op left right =>
    exact codes_proceed rfl <| h.operand fun v ↦ codes_proceed rfl <| h.operand fun v' ↦
      codes_proceed rfl (codes_apply fun _ ↦ rfl)
  | assignAdt left right =>
    exact codes_proceed rfl <| h.operand fun v ↦ codes_proceed rfl <| h.operand fun v' ↦
      codes_proceed rfl (codes_apply fun _ ↦ rfl)
  | rpc dest funcName param =>
    refine codes_proceed rfl <| h.operand fun v ↦ codes_check rfl ?_
    exact h.operands (fun _ _ ↦ rfl) fun vs ↦ codes_apply_host fun _ ↦ rfl
  | ifNode eval left right =>
    refine h.then le_rfl fun v ↦ codes_lift fun r ↦ ?_
    rcases r with - | ⟨a, m⟩
    · exact codes_pure .empty
    · cases m with
      | int i => exact (h.then le_rfl fun v' ↦ codes_return).mono n.le_succ
      | _ => exact codes_pure .empty
  | loop eval node =>
    exact h.then le_rfl fun v ↦ h.codes_loop le_rfl v
  | forLoop node1 node2 node3 node4 =>
    exact h.then le_rfl fun _ ↦ (h.then le_rfl fun v ↦ h.codes_forLoop le_rfl v).mono n.le_succ
  | breakNode => exact codes_proceed rfl (codes_apply_pure fun _ ↦ rfl)
  | continueNode => exact codes_proceed rfl (codes_apply_pure fun _ ↦ rfl)
  | funcRef name actualParam =>
    refine codes_lift fun t ↦ codes_lift fun r ↦ ?_
    cases r with
    | none => exact codes_pure .empty
    | some callFunc => exact codes_tail rfl (h.ofPtr callFunc actualParam (rc + 1))
  | returnNode node =>
    exact codes_proceed rfl <| h.operand fun v ↦ codes_proceed rfl (codes_apply fun _ ↦ rfl)
  | getSelf => exact codes_proceed rfl (codes_apply_host fun _ ↦ rfl)
  | native1 f param1 =>
    cases f with
    | dnsLookup => exact codes_proceed rfl (codes_apply_pure fun _ ↦ rfl)
    | _ =>
      exact codes_proceed rfl <| h.operand fun v ↦ codes_proceed rfl (codes_apply_host fun _ ↦ rfl)
  | native2 f param1 param2 =>
    exact codes_proceed rfl <| h.operand fun v ↦ codes_proceed rfl <| h.operand fun v' ↦
      codes_proceed rfl (codes_apply fun _ ↦ rfl)
  | getDistance kind param1 param2 param3 =>
    cases param1 with
    | none =>
      exact codes_proceed rfl <| h.operand fun v ↦ codes_check rfl <| h.operand fun v' ↦
        codes_proceed rfl (codes_apply_host fun _ ↦ rfl)
    | some param1 =>
      exact codes_proceed rfl <| h.operand fun v ↦ codes_check rfl <| h.operand fun v' ↦
        codes_check rfl <| h.operand fun v'' ↦ codes_proceed rfl (codes_apply_host fun _ ↦ rfl)

/-- The same for what a name stands for. -/
theorem Calls.codes_evalPtr (h : Calls D n) (q : Ptr) (actualParam : List Ast) (rc : ℕ) :
    Codes (D := D) (n + 1) (evalPtr (n + 1) q actualParam rc)
      (fun _ ↦ Interp.evalPtr q actualParam rc) [] := by
  refine codes_cond ?_ (codes_pure .empty)
  cases q with
  | func f => exact codes_lift fun tmp ↦ h.params fun vs ↦ h.callFunc f tmp vs
  | node a => exact codes_return
  | _ => exact codes_pure .empty

/-- **The machine is the recursion.** -/
theorem calls (n : ℕ) : Calls D n := by
  induction n with
  | zero => exact ⟨fun _ _ ↦ CallStack.codes_outOfFuel, fun _ _ _ ↦ CallStack.codes_outOfFuel⟩
  | succ n ih => exact ⟨ih.codes_eval, ih.codes_evalPtr⟩

theorem codes_jmpEval (n : ℕ) (program : Program D) (funcString : Str) (param : Value D) :
    Codes (n + 1) (jmpEval n program funcString param)
      (fun _ ↦ Interp.start program funcString param) [] := by
  refine codes_lift fun _ ↦ codes_lift fun _ ↦ codes_lift fun actual ↦ codes_lift fun _ ↦
    codes_lift fun _ ↦ codes_lift fun r ↦ ?_
  rcases r with - | q
  · exact codes_pure .empty
  · cases q with
    | func f => exact codes_lift fun tmp ↦ (calls n).callFunc f tmp actual
    | _ => exact codes_pure .empty

end Recursion

end Meridian.MQL

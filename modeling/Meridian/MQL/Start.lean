import Meridian.MQL.Eval

/-!
# Running an MQL program

`jmp_eval` of `MeridianDSL.cpp`: the global structs of the language and the declarations of the
program are put into the global table, then the function that the request names is called with the
parameters that came with it. Everything that the parser and `unmarshal_ast` have allocated belongs
to the global table as well: the literals come first, in the order of their addresses.
-/

namespace Meridian.MQL

/-- A literal of the program text. -/
inductive Literal (D : Type) where
  | int (i : Int32)
  | double (d : D)
  | string (s : Str)

/-- A `global_declaration`. -/
inductive GlobalDecl where
  | func (f : Func)
  | struct (d : AdtDef)

/-- A program: its literals, the number of the other nodes that the parser and `addGlobalModule`
make, and its declarations. -/
structure Program (D : Type) where
  literals : List (Literal D)
  textNodes : ℕ
  decls : List GlobalDecl

/-- The struct `Node` of `addGlobalModule`. -/
def nodeAdt : AdtDef where
  adtTypeName := nodeName
  adtParam := [⟨.int, none, addrName⟩, ⟨.int, none, portName⟩, ⟨.int, none, rendvAddrName⟩,
    ⟨.int, none, rendvPortName⟩]

/-- The struct `Measurement` of `addGlobalModule`. -/
def measurementAdt : AdtDef where
  adtTypeName := measurementName
  adtParam := nodeAdt.adtParam ++ [⟨.double, some 0, distanceName⟩]

/-- The constructor. -/
def ParserState.new {D : Type} : ParserState D where
  tables := Function.update (fun _ ↦ none) 0 (some (.new []))
  varTable := [0]
  nextTable := 1
  astAllocationCount := 0
  evalCount := -1
  rpcRecv := .empty
  queryReturn := .empty

variable {D : Type} [CDouble D]

namespace Interp

/-- The literals of the program text. -/
def loadLiterals : List (Literal D) → Interp D Unit
  | [] => pure ()
  | l :: ls => do
    let _ ←
      match l with
      | .int i => mkInt i
      | .double d => mkDouble d
      | .string s => mkString s
    loadLiterals ls

/-- The other nodes of the program text. -/
def loadText : ℕ → Interp D Unit
  | 0 => pure ()
  | n + 1 => do
    let _ ← newStackAst 0 (pure .raw)
    loadText n

/-- The values of the parameters: a list of nodes, which evaluate to themselves. -/
def loadParam (param : Value D) : Interp D (List Ptr) := do
  match ← nodeAt (← place 0 param) with
  | some (_, .sep v) => do (← getVector v).mapM fun p ↦ do
    match ← nodeAt p with
    | some (a, _) => evalValue a
    | none => pure .empty
  | _ => pure []

/-- `FUNC_DECLARE_TYPE` and `DEF_ADT_TYPE`. -/
def declare : GlobalDecl → Interp D Unit
  | .func f => do
    match ← newStackAst 0 (pure .raw) with
    | some _ => let _ ← insert 0 f.fName (.func f)
    | none => let _ ← insert 0 f.fName .empty
  | .struct d => do let _ ← insert 0 d.adtTypeName (.adt d)

/-- The declarations in their order. -/
def declareAll : List GlobalDecl → Interp D Unit
  | [] => pure ()
  | d :: ds => do
    declare d
    declareAll ds

/-- The declarations that `eval` reaches from the start node within the recursion limit: the list is
nested to the right, so the last ones. -/
def reachedDecls (decls : List GlobalDecl) : List GlobalDecl :=
  decls.drop (decls.length - MAX_RECURSE_COUNT)

/-- `jmp_eval`, to the call of the function. -/
def start (program : Program D) (funcString : Str) (param : Value D) : Interp D Next := do
  loadLiterals program.literals
  loadText program.textNodes
  let actual ← loadParam param
  declareAll (.struct nodeAdt :: .struct measurementAdt :: reachedDecls program.decls)
  modify fun s ↦ { s with evalCount := INSTRUCTIONS_PER_IT }
  match ← lookup 0 funcString with
  | some (.func f) => do nextParam f (← createTmp f) actual [] 0
  | _ => pure (.ret .empty, [])

end Interp

namespace Machine

/-- The start of a program. -/
def start (program : Program D) (funcString : Str) (param : Value D) : Except Fault (Machine D) :=
  (Interp.start program funcString param .new).map (next [])

/-- The states that the execution of a program can reach, whatever the node around it does. -/
def Reachable (program : Program D) (funcString : Str) (param : Value D) (m : Machine D) : Prop :=
  ∃ m₀ hosts, start program funcString param = .ok m₀ ∧ Lib.run step? m₀ hosts = some m

end Machine

end Meridian.MQL

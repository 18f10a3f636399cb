import Meridian.MQL.MachineInvariant
import Meridian.MQL.StartInvariant

/-!
# The heap operations of the interpreter

All that the interpreter does to its state it does by a few operations: to write to a cell, to
allocate a node, to name a variable, to push and to pop a table. This module says so of every
function of the interpreter, in the order in which they are defined: from any state, what the
function does is a sequence of `HeapOp`s. What holds along every sequence of operations then holds
along every run of the machine.

* `Traced P m`: what `m` does is a sequence of operations that satisfy `P`.
* `Steady m`: none of them pushes or pops a table. Of the functions of the interpreter only
  `new_context`, `new_var_table` and `remove_var_table` are not steady.
* `Filling m`: they write to cells and allocate nodes, and give no name a meaning.
-/

namespace Meridian.MQL

open Lib

variable {D : Type}

/-- What a new node is set to, with the string, vector or map that is allocated for it. -/
inductive NewNode (D : Type) where
  | plain (n : Node D)
  | string (x : Str)
  | vector (v : List Ptr) (node : Addr → Node D)
  | map (node : Addr → Node D)

/-- The node in the making. -/
def NewNode.init (t : TableId) : NewNode D → Interp D (Node D)
  | plain n => pure n
  | string x => do return .string (← Interp.newStackString t x)
  | vector v node => do return node (← Interp.newStackVector t v)
  | map node => do return node (← Interp.newStackMap t)

/-- An operation on the state of the interpreter. -/
inductive HeapOp (D : Type) where
  | setNode (a : Addr) (n : Node D)
  | setString (a : Addr) (x : Str)
  | setVector (a : Addr) (v : List Ptr)
  | setMap (a : Addr) (m : StrMap Ptr)
  | newStackAst (t : TableId) (n : NewNode D)
  | insert (t : TableId) (x : Str) (p : Ptr)
  | setEvalCount (n : ℤ)
  | setRpcRecv (p : Ptr)
  | setQueryReturn (p : Ptr)
  | pushTable (prev : List TableId)
  | removeVarTable

namespace HeapOp

/-- The call behind an operation. -/
def exec : HeapOp D → Interp D Unit
  | setNode a n => Interp.setNode a n
  | setString a x => Interp.setString a x
  | setVector a v => Interp.setVector a v
  | setMap a m => Interp.setMap a m
  | newStackAst t n => do
    let _ ← Interp.newStackAst t (n.init t)
    pure ()
  | insert t x p => do
    let _ ← Interp.insert t x p
    pure ()
  | setEvalCount n => modify fun s ↦ { s with evalCount := n }
  | setRpcRecv p => modify fun s ↦ { s with rpcRecv := p }
  | setQueryReturn p => modify fun s ↦ { s with queryReturn := p }
  | pushTable prev => Interp.pushTable prev
  | removeVarTable => Interp.removeVarTable

/-- An operation as a step; `none` is a fault. -/
def step? (s : ParserState D) (op : HeapOp D) : Option (ParserState D) :=
  match op.exec s with
  | .ok (_, s') => some s'
  | .error _ => none

/-- The operation neither pushes nor pops a table. -/
def Local : HeapOp D → Prop
  | pushTable _ => False
  | removeVarTable => False
  | _ => True

/-- The operation writes to a cell or allocates a node. -/
def Fills : HeapOp D → Prop
  | setNode _ _ => True
  | setString _ _ => True
  | setVector _ _ => True
  | setMap _ _ => True
  | newStackAst _ _ => True
  | _ => False

/-- What fills tables neither pushes nor pops one. -/
theorem Fills.local {op : HeapOp D} (h : op.Fills) : op.Local := by
  cases op with
  | pushTable | removeVarTable => exact h
  | _ => trivial

/-- An operation steps to where its computation ends. -/
theorem step?_eq_some {op : HeapOp D} {s s' : ParserState D} :
    step? s op = some s' ↔ Runs op.exec s () s' := by
  rw [step?, Runs]
  split
  · next u t h =>
    rw [h, Option.some.injEq, Except.ok.injEq, Prod.mk.injEq]
    exact (and_iff_right rfl).symm
  · next e h => simp [h]

end HeapOp

/-! ### Sequences of operations -/

/-- What `m` does is a sequence of operations that satisfy `P`. -/
def Traced {α : Type} (P : HeapOp D → Prop) (m : Interp D α) : Prop :=
  ∀ s, Ensures m s fun _ s' ↦ ∃ ops : List (HeapOp D), (∀ op ∈ ops, P op) ∧
    run HeapOp.step? s ops = some s'

/-- What `m` does leaves the stack of tables alone. -/
abbrev Steady {α : Type} (m : Interp D α) : Prop := Traced HeapOp.Local m

/-- What `m` does is to fill the heap: it leaves the names alone as well. -/
abbrev Filling {α : Type} (m : Interp D α) : Prop := Traced HeapOp.Fills m

section Traced

variable {P : HeapOp D → Prop} {α β : Type} {m m' : Interp D α} {f : α → Interp D β}

/-- What only reads is no operation at all. -/
theorem Traced.of_readOnly (h : ReadOnly m) : Traced P m := by
  intro s
  refine (h s).mono fun a s' hs' ↦ ⟨[], fun op hop ↦ absurd hop List.not_mem_nil, ?_⟩
  rw [run_nil, hs']

/-- Nor is a value. -/
theorem Traced.pure (a : α) : Traced P (Pure.pure a : Interp D α) := .of_readOnly (.pure a)

/-- What faults comes to no state, so that nothing has to be said about it. -/
theorem Traced.throw (e : Fault) : Traced P (MonadExcept.throw e : Interp D α) :=
  .of_readOnly (.throw e)

/-- One sequence after the other. -/
theorem Traced.bind (h : Traced P m) (hf : ∀ a, Traced P (f a)) : Traced P (m >>= f) := by
  intro s
  refine meets_bind.2 ((h s).mono fun a s₁ h₁ ↦ ?_)
  obtain ⟨ops, hops, hrun⟩ := h₁
  refine (hf a s₁).mono fun b s₂ h₂ ↦ ?_
  obtain ⟨ops', hops', hrun'⟩ := h₂
  refine ⟨ops ++ ops', fun op hop ↦ ?_, ?_⟩
  · exact (List.mem_append.1 hop).elim (hops op) (hops' op)
  · rw [run_append, hrun]
    exact hrun'

/-- Both branches are traced. -/
theorem Traced.ite {c : Prop} [Decidable c] (h : Traced P m) (h' : Traced P m') :
    Traced P (if c then m else m') := by
  split
  · exact h
  · exact h'

/-- A weaker condition on the operations. -/
theorem Traced.mono {P' : HeapOp D → Prop} (h : Traced P m) (hP : ∀ op, P op → P' op) :
    Traced P' m :=
  fun s ↦ (h s).mono fun _ _ h₁ ↦ h₁.imp fun _ h₂ ↦ ⟨fun op hop ↦ hP op (h₂.1 op hop), h₂.2⟩

/-- What allocates and fills cells leaves the tables pushed as they are. -/
theorem Traced.steady (h : Filling m) : Steady m := h.mono fun _ ↦ HeapOp.Fills.local

/-- What has the effect of one operation. -/
theorem Traced.of_runs (op : HeapOp D) (hP : P op)
    (h : ∀ s a s', Runs m s a s' → Runs op.exec s () s') : Traced P m := by
  intro s
  refine meets_iff.2 ⟨fun a s' hm ↦ ⟨[op], ?_, ?_⟩, fun _ _ ↦ trivial⟩
  · intro op' hop'
    rwa [List.mem_singleton.1 hop']
  · exact run_cons_eq_some.2 ⟨s', HeapOp.step?_eq_some.2 (h s a s' hm), run_nil _⟩

/-- One operation. -/
theorem Traced.exec (op : HeapOp D) (hP : P op) : Traced P op.exec :=
  .of_runs op hP fun _ _ _ h ↦ h

end Traced

namespace Interp

/-! ### The operations -/

/-- A node is written over. -/
theorem setNode_steady (a : Addr) (n : Node D) : Steady (setNode a n) :=
  .exec (.setNode a n) trivial

theorem setString_steady (a : Addr) (x : Str) : Steady (D := D) (setString a x) :=
  .exec (.setString a x) trivial

/-- The new contents of a vector. -/
theorem setVector_filling (a : Addr) (v : List Ptr) : Filling (D := D) (setVector a v) :=
  .exec (.setVector a v) trivial

theorem setVector_steady (a : Addr) (v : List Ptr) : Steady (D := D) (setVector a v) :=
  (setVector_filling a v).steady

/-- The new contents of a map. -/
theorem setMap_filling (a : Addr) (m : StrMap Ptr) : Filling (D := D) (setMap a m) :=
  .exec (.setMap a m) trivial

theorem setMap_steady (a : Addr) (m : StrMap Ptr) : Steady (D := D) (setMap a m) :=
  (setMap_filling a m).steady

/-- A vector is read and written back with one more entry. -/
theorem pushBack_filling (a : Addr) (p : Ptr) : Filling (D := D) (pushBack a p) :=
  .bind (.of_readOnly (getVector_readOnly a)) fun _ ↦ setVector_filling a _

theorem pushBack_steady (a : Addr) (p : Ptr) : Steady (D := D) (pushBack a p) :=
  (pushBack_filling a p).steady

/-- A variable gets its node. It is the only operation on the names of a table. -/
theorem insert_steady (t : TableId) (x : Str) (p : Ptr) : Steady (D := D) (insert t x p) := by
  refine .of_runs (.insert t x p) trivial fun s a s' h ↦ ?_
  exact runs_bind.2 ⟨a, s', h, runs_pure.2 ⟨rfl, rfl⟩⟩

/-- A node is allocated together with the string, vector or map that it needs. -/
theorem newStackAst_filling (t : TableId) (n : NewNode D) : Filling (newStackAst t (n.init t)) := by
  refine .of_runs (.newStackAst t n) trivial fun s a s' h ↦ ?_
  exact runs_bind.2 ⟨a, s', h, runs_pure.2 ⟨rfl, rfl⟩⟩

theorem newStackAst_steady (t : TableId) (n : NewNode D) : Steady (newStackAst t (n.init t)) :=
  (newStackAst_filling t n).steady

/-- A node that needs none of them. -/
theorem newNode_filling (t : TableId) (n : Node D) : Filling (newStackAst t (pure n)) :=
  newStackAst_filling t (.plain n)

theorem newNode_steady (t : TableId) (n : Node D) : Steady (newStackAst t (pure n)) :=
  (newNode_filling t n).steady

/-! ### `ASTCreate` -/

section Create

variable [CDouble D]

/-- A scalar is one node, a string two cells. -/
theorem createBasicType_steady (t : TableId) (b : BasicType) :
    Steady (D := D) (createBasicType t b) := by
  cases b with
  | int => exact newNode_steady t _
  | double => exact newNode_steady t _
  | string => exact newStackAst_steady t (.string [])
  | void => exact .bind (newNode_steady t _) fun _ ↦ .pure _

omit [CDouble D] in
/-- The elements are made one after another, and put into the vector each time. -/
theorem createElems_steady {create : Interp D (Option Addr)} (hcreate : Steady create) (v : Addr)
    (n : ℕ) : Steady (createElems v create n) := by
  induction n with
  | zero => exact .pure _
  | succ n ih =>
    refine .bind hcreate fun o ↦ ?_
    cases o with
    | none => exact .pure _
    | some a => exact .bind (pushBack_steady v _) fun _ ↦ ih

omit [CDouble D] in
/-- The vector of an array is filled before its node is made. -/
theorem createArray_steady {create : Interp D (Option Addr)} (hcreate : Steady create)
    (t : TableId) (arrayType : UInt32) (adtName : Option Str) (arraySize : Int32) :
    Steady (createArray t arrayType adtName arraySize create) := by
  refine .ite (.pure _) (.bind (.of_readOnly (realAdtName_readOnly t _ _)) fun name ↦ ?_)
  cases name with
  | none => exact .pure _
  | some name =>
    refine .bind (newStackAst_steady t (.vector [] fun v ↦ .array arrayType name v (some t)))
      fun o ↦ ?_
    cases o with
    | none => exact .pure _
    | some a =>
      refine .bind (.of_readOnly (getNode_readOnly a)) fun n ↦ ?_
      split
      · exact .bind (createElems_steady hcreate _ _) fun b ↦ .ite (.pure _) (.pure _)
      · exact .throw _

/-- A field is a scalar or an array of scalars. -/
theorem createField_steady (t : TableId) (f : Field) : Steady (D := D) (createField t f) := by
  rw [createField]
  split
  · exact createBasicType_steady t _
  · exact createArray_steady (createBasicType_steady t _) t _ _ _

/-- The map of a struct is written after each of its fields. -/
theorem createFields_steady (t : TableId) (m : Addr) (fs : List Field) :
    Steady (D := D) (createFields t m fs) := by
  induction fs with
  | nil => exact .pure _
  | cons f fs ih =>
    refine .bind (createField_steady t f) fun o ↦ ?_
    cases o with
    | none => exact .pure _
    | some a =>
      refine .bind (.of_readOnly (getMap_readOnly m)) fun adtMap ↦ ?_
      exact .bind (setMap_steady m _) fun _ ↦ ih

/-- A struct is its map with a field for each one of the definition, and a node. -/
theorem createAdt_steady (t : TableId) (adtName : Str) :
    Steady (D := D) (createAdt t adtName) := by
  refine .bind (.of_readOnly (lookup_readOnly t adtName)) fun o ↦ ?_
  split
  · next d =>
    refine .bind (newStackAst_steady t (.map fun m ↦ .varAdt d.adtTypeName m false)) fun o ↦ ?_
    cases o with
    | none => exact .pure _
    | some a =>
      refine .bind (.of_readOnly (getNode_readOnly a)) fun n ↦ ?_
      split
      · exact .bind (createFields_steady t _ _) fun b ↦ .ite (.pure _) (.pure _)
      · exact .throw _
  · exact .pure _

/-- An element of an array, which is a scalar or a struct. -/
theorem createElem_steady (t : TableId) (aType : UInt32) (aAdtName : Option Str) :
    Steady (D := D) (createElem t aType aAdtName) := by
  unfold createElem
  split
  iterate 3 exact createBasicType_steady t _
  · cases aAdtName with
    | none => exact .pure _
    | some name => exact createAdt_steady t name
  · exact createArray_steady (.pure _) t _ _ _
  · exact createBasicType_steady t _

theorem createType_steady (t : TableId) (e : ElemType) : Steady (D := D) (createType t e) := by
  cases e with
  | basic b => exact createBasicType_steady t b
  | adt name => exact createAdt_steady t name

/-- Whatever `ASTCreate` makes, it allocates in one table only. -/
theorem astCreate_steady (t : TableId) (d : DeclType) (arraySize : Int32) :
    Steady (D := D) (astCreate t d arraySize) := by
  cases d with
  | elem e => exact createType_steady t e
  | array e => exact createArray_steady (createType_steady t e) t _ _ _

/-- The elements that `updateADT` makes, in the table of the array. -/
theorem createIn_steady (aVarTable : Option TableId) (aType : UInt32) (aAdtName : Option Str) :
    Steady (D := D) (createIn aVarTable aType aAdtName) := by
  cases aVarTable with
  | none => exact .throw _
  | some t => exact createElem_steady t aType aAdtName

end Create

/-! ### `updateADT` -/

section Assign

variable {assign : Ptr → Ptr → Interp D Bool} (hassign : ∀ l r, Steady (assign l r))

include hassign

/-- A struct and a list: one assignment for each field. -/
theorem initFields_steady (adtMap : StrMap Ptr) (fs : List Field) (rs : List Ptr) :
    Steady (initFields assign adtMap fs rs) := by
  induction fs generalizing rs with
  | nil => exact .pure _
  | cons f fs ih =>
    cases rs with
    | nil => exact .pure _
    | cons r rs =>
      rw [initFields]
      split
      · exact .bind (hassign _ r) fun b ↦ .ite (ih rs) (.pure _)
      · exact .pure _

/-- Two structs: one assignment for each field of the definition. -/
theorem assignFields_steady (adtMap inMap : StrMap Ptr) (fs : List Field) :
    Steady (assignFields assign adtMap inMap fs) := by
  induction fs with
  | nil => exact .pure _
  | cons f fs ih =>
    rw [assignFields]
    split
    · exact .bind (hassign _ _) fun b ↦ .ite ih (.pure _)
    · exact .pure _

/-- Two arrays: each element is made, assigned and appended. -/
theorem assignElems_steady {create : Interp D (Option Addr)} (hcreate : Steady create) (v : Addr)
    (rs : List Ptr) : Steady (assignElems assign create v rs) := by
  induction rs with
  | nil => exact .pure _
  | cons r rs ih =>
    refine .bind hcreate fun o ↦ ?_
    cases o with
    | none => exact .pure _
    | some a =>
      refine .bind (hassign _ r) fun b ↦ .ite ?_ (.pure _)
      exact .bind (pushBack_steady v _) fun _ ↦ ih

/-- All cases of `updateADT`, where the recursive calls are steady. -/
theorem updateNode_steady [CDouble D] (this : TableId) (l : Addr) (ln rn : Node D) :
    Steady (updateNode this assign l ln rn) := by
  unfold updateNode
  split
  -- a struct from a list of values
  · refine .bind (.of_readOnly (lookup_readOnly this _)) fun o ↦ ?_
    cases o with
    | none => exact .pure _
    | some p =>
      refine .bind (.of_readOnly (adtParam_readOnly p)) fun fields ↦ ?_
      refine .bind (.of_readOnly (getVector_readOnly _)) fun params ↦ .ite (.pure _) ?_
      exact .bind (.of_readOnly (getMap_readOnly _)) fun m ↦ initFields_steady hassign m _ _
  -- an array from a list of values
  · refine .bind (setVector_steady _ _) fun _ ↦ .bind (.of_readOnly (getVector_readOnly _)) ?_
    exact fun rs ↦ assignElems_steady hassign (createIn_steady _ _ _) _ rs
  · exact .bind (setNode_steady l _) fun _ ↦ .pure _
  · exact .bind (setNode_steady l _) fun _ ↦ .pure _
  · refine .bind (.of_readOnly (getString_readOnly _)) fun x ↦ ?_
    exact .bind (setString_steady _ x) fun _ ↦ .pure _
  -- an array from an array
  · refine .ite (.pure _) (.bind (.of_readOnly (sameAdtName_readOnly _ _ _)) fun b ↦ ?_)
    refine .ite (.bind (setVector_steady _ _) fun _ ↦ ?_) (.pure _)
    refine .bind (.of_readOnly (getVector_readOnly _)) fun rs ↦ ?_
    exact assignElems_steady hassign (createIn_steady _ _ _) _ rs
  -- a struct from a struct
  · refine .ite (.pure _) (.bind (.of_readOnly (lookup_readOnly this _)) fun o ↦ ?_)
    cases o with
    | none => exact .pure _
    | some p =>
      refine .bind (.of_readOnly (adtParam_readOnly p)) fun fields ↦ ?_
      refine .bind (.of_readOnly (getMap_readOnly _)) fun m ↦ ?_
      exact .bind (.of_readOnly (getMap_readOnly _)) fun m' ↦ assignFields_steady hassign m m' _
  · exact .pure _

end Assign

variable [CDouble D]

/-- By induction on the depth. -/
theorem updateFuel_steady (this : TableId) (fuel : ℕ) (l r : Ptr) :
    Steady (D := D) (updateFuel this fuel l r) := by
  induction fuel generalizing l r with
  | zero => exact .throw _
  | succ fuel ih =>
    refine .bind (.of_readOnly (nodeAt_readOnly l)) fun ln ↦ ?_
    refine .bind (.of_readOnly (nodeAt_readOnly r)) fun rn ↦ ?_
    split
    · exact updateNode_steady ih this _ _ _
    · exact .pure _

theorem updateADT_steady (this : TableId) (l r : Ptr) : Steady (D := D) (updateADT this l r) :=
  updateFuel_steady this _ l r

/-! ### Variables and sets -/

/-- A declaration: the node, and the name in the table on top. -/
theorem variableCreate_steady (d : DeclType) (arraySize : Int32) (x : Str) :
    Steady (D := D) (variableCreate d arraySize x) := by
  refine .bind (.of_readOnly getVarTable_readOnly) fun t ↦ ?_
  refine .bind (astCreate_steady t d arraySize) fun o ↦ ?_
  cases o with
  | none => exact .pure _
  | some a => exact .bind (insert_steady t x _) fun b ↦ .ite (.pure _) (.pure _)

/-- A variable that is there is assigned to. -/
theorem variableAssign_steady (x : Str) (p : Ptr) : Steady (D := D) (variableAssign x p) := by
  refine .bind (.of_readOnly getVarTable_readOnly) fun t ↦ ?_
  refine .bind (.of_readOnly (lookup_readOnly t x)) fun o ↦ ?_
  cases o with
  | none => exact .pure _
  | some l =>
    refine .bind (updateADT_steady t l p) fun b ↦ .ite ?_ (.pure _)
    exact .bind (.of_readOnly (lookup_readOnly t x)) fun o ↦ .pure _

/-- The formal parameters are created and assigned in turn. -/
theorem assignParams_steady (ps : List Param) (rs : List Ptr) :
    Steady (D := D) (assignParams ps rs) := by
  induction ps generalizing rs with
  | nil => exact .pure _
  | cons p ps ih =>
    cases rs with
    | nil => exact .pure _
    | cons r rs =>
      refine .bind (variableCreate_steady _ _ _) fun q ↦ ?_
      refine .bind (.of_readOnly (typeOf_readOnly q)) fun ty ↦ .ite (.pure _) ?_
      refine .bind (variableAssign_steady _ r) fun q' ↦ ?_
      exact .bind (.of_readOnly (typeOf_readOnly q')) fun ty' ↦ .ite (.pure _) (ih rs)

theorem paramListAssign_steady (formal : List Param) (actual : List Ptr) :
    Steady (D := D) (paramListAssign formal actual) := by
  cases formal with
  | nil => exact .pure _
  | cons p ps => exact .ite (.pure _) (assignParams_steady _ actual)

/-- A copy is a new value that is assigned to. -/
theorem copyInto_steady (created : Option Addr) (p : Ptr) :
    Steady (D := D) (copyInto created p) := by
  cases created with
  | none => exact .pure _
  | some c =>
    refine .bind (.of_readOnly getVarTable_readOnly) fun t ↦ ?_
    exact .bind (updateADT_steady t _ p) fun b ↦ .ite (.pure _) (.pure _)

/-- What is copied: a scalar, an array or a struct. -/
theorem adtCreateAndCopy_steady (p : Ptr) : Steady (D := D) (adtCreateAndCopy p) := by
  refine .bind (.of_readOnly getVarTable_readOnly) fun t ↦ ?_
  refine .bind (.of_readOnly (nodeAt_readOnly p)) fun o ↦ ?_
  split
  iterate 3 exact .bind (createBasicType_steady t _) fun c ↦ copyInto_steady c p
  · exact .bind (createAdt_steady t _) fun c ↦ copyInto_steady c p
  · exact .pure _

/-- The vector is searched, and appended to if nothing in it is equal. -/
theorem uniqueAdd_steady (v : Addr) (p : Ptr) : Steady (D := D) (uniqueAdd v p) := by
  refine .bind (.of_readOnly (getVector_readOnly v)) fun ps ↦ ?_
  refine .bind (.of_readOnly (anyEqual_readOnly p ps)) fun b ↦ .ite (.pure _) ?_
  refine .bind (adtCreateAndCopy_steady p) fun tmp ↦ ?_
  refine .bind (.of_readOnly (typeOf_readOnly tmp)) fun ty ↦ .ite (.pure _) ?_
  exact .bind (pushBack_steady v tmp) fun _ ↦ .pure _

theorem uniqueAddAll_steady (v : Addr) (ps : List Ptr) : Steady (D := D) (uniqueAddAll v ps) := by
  induction ps with
  | nil => exact .pure _
  | cons p ps ih => exact .bind (uniqueAdd_steady v p) fun b ↦ .ite ih (.pure _)

/-! ### New values -/

omit [CDouble D] in
/-- The `mk_…` functions. -/
theorem mkNode_filling (n : NewNode D) :
    Filling (do let t ← getVarTable; return orEmpty (← newStackAst t (n.init t))) :=
  .bind (.of_readOnly getVarTable_readOnly) fun t ↦ .bind (newStackAst_filling t n) fun _ ↦ .pure _

omit [CDouble D] in
/-- An `INT` node. -/
theorem mkInt_filling (i : Int32) : Filling (D := D) (mkInt i) := mkNode_filling (.plain _)

omit [CDouble D] in
theorem mkInt_steady (i : Int32) : Steady (D := D) (mkInt i) := (mkInt_filling i).steady

omit [CDouble D] in
/-- A `DOUBLE` node. -/
theorem mkDouble_filling (d : D) : Filling (mkDouble d) := mkNode_filling (.plain _)

omit [CDouble D] in
theorem mkDouble_steady (d : D) : Steady (mkDouble d) := (mkDouble_filling d).steady

omit [CDouble D] in
/-- A `STRING` node, and its string. -/
theorem mkString_filling (x : Str) : Filling (D := D) (mkString x) := mkNode_filling (.string x)

omit [CDouble D] in
theorem mkString_steady (x : Str) : Steady (D := D) (mkString x) := (mkString_filling x).steady

omit [CDouble D] in
/-- A list is a vector with the entries, and its node. -/
theorem mkSepList_steady (v : List Ptr) : Steady (D := D) (mkSepList v) :=
  (mkNode_filling (.vector v .sep)).steady

/-- A node for each latency. -/
theorem pushDistances_steady (v : Addr) (lat : List UInt32) :
    Steady (D := D) (pushDistances v lat) := by
  induction lat with
  | nil => exact .pure _
  | cons us lat ih =>
    refine .bind (.of_readOnly getVarTable_readOnly) fun t ↦ ?_
    refine .bind (newNode_steady t _) fun o ↦ ?_
    cases o with
    | none => exact .pure _
    | some a => exact .bind (pushBack_steady v _) fun _ ↦ ih

/-- The fields of a `Node` or a `Measurement` that the program has declared are written to, if they
are of the type that is expected. -/
theorem fillFields_steady (ident : NodeIdentRendv) (latUS : Option (List UInt32))
    (adtMap : StrMap Ptr) (fs : List Field) :
    Steady (D := D) (fillFields ident latUS adtMap fs) := by
  induction fs with
  | nil => exact .pure _
  | cons f fs ih =>
    rw [fillFields]
    split
    · exact .pure _
    · refine .bind (.of_readOnly (nodeAt_readOnly _)) fun o ↦ ?_
      split
      · split
        · exact .pure _
        · exact .bind (setNode_steady _ _) fun _ ↦ ih
      · refine .ite (.ite ?_ ih) (.pure _)
        exact .bind (pushDistances_steady _ _) fun b ↦ .ite ih (.pure _)
      · exact .pure _

/-- One struct for a node. -/
theorem createIdent_steady (name : Str) (ident : NodeIdentRendv) (latUS : Option (List UInt32)) :
    Steady (D := D) (createIdent name ident latUS) := by
  refine .bind (.of_readOnly getVarTable_readOnly) fun t ↦ ?_
  refine .bind (.of_readOnly (lookup_readOnly t name)) fun o ↦ ?_
  split
  · refine .bind (createAdt_steady t name) fun o' ↦ ?_
    cases o' with
    | none => exact .pure _
    | some a =>
      refine .bind (.of_readOnly (getNode_readOnly a)) fun n ↦ ?_
      split
      · refine .bind (.of_readOnly (getMap_readOnly _)) fun m ↦ ?_
        exact .bind (fillFields_steady ident latUS m _) fun b ↦ .ite (.pure _) (.pure _)
      · exact .throw _
  · exact .pure _

/-- A struct for each node, which is put into the vector. -/
theorem pushIdents_steady (name : Str) (v : Addr)
    (idents : List (NodeIdentRendv × Option (List UInt32))) :
    Steady (D := D) (pushIdents name v idents) := by
  induction idents with
  | nil => exact .pure _
  | cons ident idents ih =>
    refine .bind (createIdent_steady name ident.1 ident.2) fun p ↦ ?_
    cases p with
    | node a => exact .bind (pushBack_steady v _) fun _ ↦ ih
    | _ => exact .pure _

/-- The array that the native functions return. -/
theorem createIdents_steady (name : Str) (idents : List (NodeIdentRendv × Option (List UInt32))) :
    Steady (D := D) (createIdents name idents) := by
  refine .bind (.of_readOnly getVarTable_readOnly) fun t ↦ ?_
  refine .bind (createArray_steady (.pure _) t _ _ _) fun o ↦ ?_
  cases o with
  | none => exact .pure _
  | some a =>
    refine .bind (.of_readOnly (getNode_readOnly a)) fun n ↦ ?_
    split
    · exact .bind (pushIdents_steady name _ idents) fun b ↦ .ite (.pure _) (.pure _)
    · exact .throw _

/-! ### Received values -/

omit [CDouble D] in
/-- The entries of a received array, each of which is placed before it is pushed. -/
theorem placeVector_filling (t : TableId) (v : Addr) (xs : List (Value D))
    (hxs : ∀ x ∈ xs, Filling (place t x)) : Filling (placeVector t v xs) := by
  induction xs with
  | nil =>
    rw [placeVector]
    exact .pure _
  | cons x xs ih =>
    rw [placeVector]
    rw [List.forall_mem_cons] at hxs
    refine .bind hxs.1 fun p ↦ ?_
    cases p with
    | node a => exact .bind (pushBack_filling v _) fun _ ↦ ih hxs.2
    | _ => exact .pure _

omit [CDouble D] in
/-- The fields of a received struct. -/
theorem placeMap_filling (t : TableId) (m : Addr) (xs : List (Str × Value D))
    (hxs : ∀ x ∈ xs, Filling (place t x.2)) : Filling (placeMap t m xs) := by
  induction xs with
  | nil =>
    rw [placeMap]
    exact .pure _
  | cons x xs ih =>
    rw [placeMap]
    rw [List.forall_mem_cons] at hxs
    refine .bind hxs.1 fun p ↦ ?_
    cases p with
    | node a =>
      refine .bind (.of_readOnly (getMap_readOnly m)) fun adtMap ↦ ?_
      exact .bind (setMap_filling m _) fun _ ↦ ih hxs.2
    | _ => exact .pure _

omit [CDouble D] in
/-- What is received is placed in new cells. The induction is on the value. -/
theorem place_filling (t : TableId) (x : Value D) : Filling (place t x) := by
  induction x using Value.ind with
  | empty =>
    rw [place]
    exact .pure _
  | int i =>
    rw [place]
    exact .bind (newNode_filling t _) fun _ ↦ .pure _
  | double d =>
    rw [place]
    exact .bind (newNode_filling t _) fun _ ↦ .pure _
  | string y =>
    rw [place]
    exact .bind (newStackAst_filling t (.string y)) fun _ ↦ .pure _
  | array aType name xs ih =>
    rw [place]
    -- the node is made with an empty vector, which is filled afterwards
    refine .bind (newStackAst_filling t (.vector [] fun v ↦ .array aType name v none)) fun o ↦ ?_
    cases o with
    | none => exact .pure _
    | some a =>
      refine .bind (.of_readOnly (getNode_readOnly a)) fun n ↦ ?_
      split
      · exact .bind (placeVector_filling t _ xs ih) fun b ↦ .ite (.pure _) (.pure _)
      · exact .throw _
  | adt name fs ih =>
    rw [place]
    -- the node is made with an empty map, which is filled afterwards
    refine .bind (newStackAst_filling t (.map fun m ↦ .varAdt name m true)) fun o ↦ ?_
    cases o with
    | none => exact .pure _
    | some a =>
      refine .bind (.of_readOnly (getNode_readOnly a)) fun n ↦ ?_
      split
      · exact .bind (placeMap_filling t _ fs ih) fun b ↦ .ite (.pure _) (.pure _)
      · exact .throw _
  | sep xs ih =>
    rw [place]
    refine .bind (newStackAst_filling t (.vector [] fun v ↦ .sep v)) fun o ↦ ?_
    cases o with
    | none => exact .pure _
    | some a =>
      refine .bind (.of_readOnly (getNode_readOnly a)) fun n ↦ ?_
      split
      · exact .bind (placeVector_filling t _ xs ih) fun b ↦ .ite (.pure _) (.pure _)
      · exact .throw _
  | other ty =>
    rw [place]
    exact .pure _

omit [CDouble D] in
theorem place_steady (t : TableId) (x : Value D) : Steady (place t x) := (place_filling t x).steady

/-! ### Native functions -/

/-- The loop reads, and makes one number. -/
theorem arrayOffset_steady (largest : Bool) (p : Ptr) :
    Steady (D := D) (arrayOffset largest p) := by
  refine .bind (.of_readOnly (nodeAt_readOnly p)) fun o ↦ ?_
  split
  · refine .bind (.of_readOnly (getVector_readOnly _)) fun ps ↦ ?_
    refine .bind (.of_readOnly (getNumbers_readOnly _ ps)) fun o ↦ ?_
    split
    · split
      · exact mkInt_steady _
      · exact mkInt_steady _
    · exact .pure _
  · exact .pure _

/-- The result is a number of the type of the elements. -/
theorem arrayExtreme_steady (largest : Bool) (p : Ptr) :
    Steady (D := D) (arrayExtreme largest p) := by
  refine .bind (.of_readOnly (nodeAt_readOnly p)) fun o ↦ ?_
  split
  · refine .bind (.of_readOnly (getVector_readOnly _)) fun ps ↦ ?_
    refine .bind (.of_readOnly (getNumbers_readOnly _ ps)) fun o ↦ ?_
    split
    · split
      · exact mkInt_steady _
      · split
        · exact mkInt_steady _
        · exact .pure _
    · split
      · exact mkDouble_steady _
      · split
        · exact mkDouble_steady _
        · exact .pure _
    · exact .pure _
  · exact .pure _

/-- The sum is kept outside of the heap. -/
theorem arrayAvg_steady (p : Ptr) : Steady (D := D) (arrayAvg p) := by
  refine .bind (.of_readOnly (nodeAt_readOnly p)) fun o ↦ ?_
  split
  · refine .bind (.of_readOnly (getVector_readOnly _)) fun ps ↦ .ite (mkDouble_steady _) ?_
    refine .bind (.of_readOnly (getNumbers_readOnly _ ps)) fun o ↦ ?_
    split
    · exact mkDouble_steady _
    · exact mkDouble_steady _
    · exact .pure _
  · exact .pure _

/-- The array gets a copy. -/
theorem nativePushBack_steady (p q : Ptr) : Steady (D := D) (nativePushBack p q) := by
  refine .bind (.of_readOnly (nodeAt_readOnly p)) fun o ↦ ?_
  split
  · refine .bind (.of_readOnly (isElem_readOnly _ _ q)) fun b ↦ .ite ?_ (.pure _)
    refine .bind (createIn_steady _ _ _) fun o ↦ ?_
    cases o with
    | none => exact .pure _
    | some a =>
      refine .bind (.of_readOnly getVarTable_readOnly) fun t ↦ ?_
      refine .bind (updateADT_steady t _ q) fun b ↦ .ite ?_ (.pure _)
      exact .bind (pushBack_steady _ _) fun _ ↦ .pure _
  · exact .pure _

omit [CDouble D] in
/-- The last entry goes, and its node stays in its table. -/
theorem nativePopBack_steady (p : Ptr) : Steady (D := D) (nativePopBack p) := by
  refine .bind (.of_readOnly (nodeAt_readOnly p)) fun o ↦ ?_
  split
  · refine .bind (.of_readOnly (getVector_readOnly _)) fun ps ↦ ?_
    exact .bind (setVector_steady _ _) fun _ ↦ .pure _
  · exact .pure _

omit [CDouble D] in
/-- The checks of `array_union` and `array_intersect`, and their new array. -/
theorem combineArrays_steady (p q : Ptr) : Steady (D := D) (combineArrays p q) := by
  refine .bind (.of_readOnly (nodeAt_readOnly p)) fun o ↦ ?_
  refine .bind (.of_readOnly (nodeAt_readOnly q)) fun o' ↦ ?_
  split
  · refine .bind (.of_readOnly (sameAdtName_readOnly _ _ _)) fun b ↦ .ite ?_ (.pure _)
    refine .bind (.of_readOnly getVarTable_readOnly) fun t ↦ ?_
    refine .bind (createArray_steady (.pure _) t _ _ _) fun o ↦ ?_
    cases o with
    | none => exact .pure _
    | some a =>
      refine .bind (.of_readOnly (getNode_readOnly a)) fun n ↦ ?_
      split
      · refine .bind (.of_readOnly (getVector_readOnly _)) fun ps ↦ ?_
        exact .bind (.of_readOnly (getVector_readOnly _)) fun qs ↦ .pure _
      · exact .throw _
  · exact .pure _

/-- The loops of `array_intersect`. -/
theorem intersectAll_steady (v : Addr) (qs ps : List Ptr) :
    Steady (D := D) (intersectAll v qs ps) := by
  induction ps with
  | nil => exact .pure _
  | cons p ps ih =>
    refine .bind (.of_readOnly (anyEqual_readOnly p qs)) fun b ↦ .ite ?_ ih
    exact .bind (uniqueAdd_steady v p) fun b ↦ .ite ih (.pure _)

theorem arrayIntersect_steady (p q : Ptr) : Steady (D := D) (arrayIntersect p q) := by
  refine .bind (combineArrays_steady p q) fun o ↦ ?_
  cases o with
  | none => exact .pure _
  | some r => exact .bind (intersectAll_steady _ _ _) fun b ↦ .ite (.pure _) (.pure _)

theorem arrayUnion_steady (p q : Ptr) : Steady (D := D) (arrayUnion p q) := by
  refine .bind (combineArrays_steady p q) fun o ↦ ?_
  cases o with
  | none => exact .pure _
  | some r =>
    refine .bind (uniqueAddAll_steady _ _) fun b ↦ .ite ?_ (.pure _)
    exact .bind (uniqueAddAll_steady _ _) fun b ↦ .ite (.pure _) (.pure _)

omit [CDouble D] in
/-- A function of a double. -/
theorem onDouble_steady (p : Ptr) {f : D → Interp D Ptr} (hf : ∀ d, Steady (f d)) :
    Steady (onDouble p f) := by
  refine .bind (.of_readOnly (nodeAt_readOnly p)) fun o ↦ ?_
  split
  · exact hf _
  · exact .pure _

omit [CDouble D] in
/-- A function of an integer. -/
theorem onInt_steady (p : Ptr) {f : Int32 → Interp D Ptr} (hf : ∀ i, Steady (f i)) :
    Steady (onInt p f) := by
  refine .bind (.of_readOnly (nodeAt_readOnly p)) fun o ↦ ?_
  split
  · exact hf _
  · exact .pure _

/-- The functions of one argument, in the order of `evalNativeFunctions`. -/
theorem native1_steady (host : Host D) (f : NativeFunc1) (p : Ptr) : Steady (native1 host f p) := by
  cases f with
  | round => exact onDouble_steady p fun d ↦ mkInt_steady _
  | ceil => exact onDouble_steady p fun d ↦ mkInt_steady _
  | floor => exact onDouble_steady p fun d ↦ mkInt_steady _
  | math f => exact onDouble_steady p fun d ↦ mkDouble_steady _
  | dbl => exact onInt_steady p fun i ↦ mkDouble_steady _
  | arraySize =>
    refine .bind (.of_readOnly (nodeAt_readOnly p)) fun o ↦ ?_
    split
    · exact .bind (.of_readOnly (getVector_readOnly _)) fun ps ↦ mkInt_steady _
    · exact .pure _
  | dnsLookup => exact .pure _
  | dnsAddr => exact onInt_steady p fun i ↦ mkString_steady _
  | popBack => exact nativePopBack_steady p
  | ring f => exact onDouble_steady p fun d ↦ createIdents_steady _ _
  | arrayMaxOffset => exact arrayOffset_steady _ p
  | arrayMinOffset => exact arrayOffset_steady _ p
  | arrayAvg => exact arrayAvg_steady p
  | arrayMax => exact arrayExtreme_steady _ p
  | arrayMin => exact arrayExtreme_steady _ p

/-- Those of two. -/
theorem native2_steady (f : NativeFunc2) (p q : Ptr) : Steady (D := D) (native2 f p q) := by
  cases f with
  | pow =>
    refine .bind (.of_readOnly (nodeAt_readOnly p)) fun o ↦ ?_
    refine .bind (.of_readOnly (nodeAt_readOnly q)) fun o' ↦ ?_
    split
    · exact mkDouble_steady _
    · exact .pure _
  | pushBack => exact nativePushBack_steady p q
  | arrayIntersect => exact arrayIntersect_steady p q
  | arrayUnion => exact arrayUnion_steady p q

/-! ### `get_distance` and `rpc` -/

omit [CDouble D] in
/-- The checks of `get_distance` make no node: the type of an array, -/
theorem isNodeArray_readOnly (p : Ptr) : ReadOnly (isNodeArray (D := D) p) := by
  refine .bind (nodeAt_readOnly p) fun o ↦ ?_
  split
  · exact .ite (.bind (derefName_readOnly _) fun _ ↦ .pure _) (.pure _)
  · exact .pure _

omit [CDouble D] in
/-- a field of a struct, -/
theorem hasIntField_readOnly (adtMap : StrMap Ptr) (name : Str) :
    ReadOnly (hasIntField (D := D) adtMap name) := by
  rw [hasIntField]
  split
  · exact .pure _
  · exact .bind (typeOf_readOnly _) fun _ ↦ .pure _

omit [CDouble D] in
/-- all the fields of a `Node`, -/
theorem isNodeIdent_readOnly (p : Ptr) : ReadOnly (isNodeIdent (D := D) p) := by
  refine .bind (nodeAt_readOnly p) fun o ↦ ?_
  split
  · refine .ite (.bind (getMap_readOnly _) fun m ↦ ?_) (.pure _)
    refine .bind (hasIntField_readOnly m _) fun b ↦ .ite ?_ (.pure _)
    refine .bind (hasIntField_readOnly m _) fun b ↦ .ite ?_ (.pure _)
    refine .bind (hasIntField_readOnly m _) fun b ↦ .ite ?_ (.pure _)
    exact hasIntField_readOnly m _
  · exact .pure _

omit [CDouble D] in
/-- and all the nodes of an array. -/
theorem allNodeIdents_readOnly (ps : List Ptr) : ReadOnly (allNodeIdents (D := D) ps) := by
  induction ps with
  | nil => exact .pure _
  | cons p ps ih => exact .bind (isNodeIdent_readOnly p) fun b ↦ .ite ih (.pure _)

omit [CDouble D] in
/-- The nodes that are asked, or asked for. -/
theorem nodesOf_readOnly (p : Ptr) : ReadOnly (nodesOf (D := D) p) := by
  refine .bind (nodeAt_readOnly p) fun o ↦ ?_
  split
  · exact .bind (getVector_readOnly _) fun ps ↦ allNodeIdents_readOnly ps
  · exact .pure _

omit [CDouble D] in
theorem iVal_readOnly (p : Ptr) : ReadOnly (iVal (D := D) p) := by
  refine .bind (nodeAt_readOnly p) fun o ↦ ?_
  split
  · exact .pure _
  · exact .throw _

/-- The results come as an array of `Measurement`s. -/
theorem resumeDistance_steady (host : Host D) : Steady (resumeDistance host) := by
  rw [resumeDistance]
  split
  · exact .pure _
  · exact .bind (createIdents_steady _ _) fun p ↦ .exec (.setQueryReturn p) trivial

/-- A thread that waits has written to nothing. -/
theorem getDistance_steady (host : Host D) (p : Option Ptr) (q r : Ptr) :
    Steady (getDistance host p q r) := by
  refine .bind (.of_readOnly (typeOf_readOnly r)) fun ty ↦ .ite ?_ (.pure _)
  cases p with
  | none =>
    -- without sources there is one measurement, by the thread itself
    refine .bind (.pure _) fun b ↦ .ite ?_ (.pure _)
    refine .bind (.of_readOnly (nodesOf_readOnly q)) fun b ↦ .ite ?_ (.pure _)
    refine .bind (resumeDistance_steady host) fun _ ↦ .bind (.of_readOnly .get) fun s ↦ ?_
    refine .bind (.of_readOnly (nodeAt_readOnly _)) fun o ↦ ?_
    split
    · refine .bind (.of_readOnly (getVector_readOnly _)) fun ps ↦ ?_
      split
      · exact .pure _
      · exact .pure _
    · exact .pure _
  | some p =>
    refine .bind (.of_readOnly (nodesOf_readOnly p)) fun b ↦ .ite ?_ (.pure _)
    refine .bind (.of_readOnly (nodesOf_readOnly q)) fun b ↦ .ite ?_ (.pure _)
    refine .bind (resumeDistance_steady host) fun _ ↦ .bind (.of_readOnly .get) fun s ↦ ?_
    exact .bind (.of_readOnly (nodeAt_readOnly _)) fun o ↦ .pure _

omit [CDouble D] in
/-- `operator[]` of a map writes NULL where there is no entry. -/
theorem mapAt_steady (m : Addr) (name : Str) : Steady (D := D) (mapAt m name) := by
  refine .bind (.of_readOnly (getMap_readOnly m)) fun adtMap ↦ ?_
  split
  · exact .pure _
  · exact .bind (setMap_steady m _) fun _ ↦ .pure _

omit [CDouble D] in
/-- The destination of an `rpc` is read with it, field by field. -/
theorem rpcDest_steady (p : Ptr) : Steady (D := D) (rpcDest p) := by
  refine .bind (.of_readOnly (nodeAt_readOnly p)) fun o ↦ ?_
  split
  · refine .ite ?_ (.pure _)
    refine .bind (mapAt_steady _ _) fun q ↦ .bind (mapAt_steady _ _) fun q' ↦ ?_
    refine .bind (mapAt_steady _ _) fun r ↦ .bind (mapAt_steady _ _) fun r' ↦ ?_
    refine .bind (.of_readOnly (iVal_readOnly _)) fun _ ↦ ?_
    refine .bind (.of_readOnly (iVal_readOnly _)) fun _ ↦ ?_
    refine .bind (.of_readOnly (iVal_readOnly _)) fun _ ↦ ?_
    exact .bind (.of_readOnly (iVal_readOnly _)) fun _ ↦ .pure _
  · exact .pure _

omit [CDouble D] in
/-- The list of the parameters, and the reply, which is placed in the table on top. -/
theorem handleRPC_steady (host : Host D) (param : List Ptr) : Steady (handleRPC host param) := by
  obtain ⟨rendv, rings, getRingNumber, reply, latencies⟩ := host
  refine .bind (.of_readOnly getVarTable_readOnly) fun t ↦ ?_
  cases reply with
  | none =>
    refine .ite ?_ (.bind (newNode_steady t _) fun _ ↦ ?_)
    iterate 2 exact .bind (.of_readOnly .get) fun s ↦ .pure _
  | some v =>
    refine .ite ?_ (.bind (newNode_steady t _) fun _ ↦ ?_)
    iterate 2
      refine .bind (place_steady t v) fun p ↦ .bind (.exec (.setRpcRecv p) trivial) fun _ ↦ ?_
      exact .bind (.of_readOnly .get) fun s ↦ .pure _

/-! ### Evaluation -/

omit [CDouble D] in
/-- The count of evaluations is no part of the heap, and where it is exceeded nothing is done. -/
theorem enter_steady (rc : ℕ) : Steady (D := D) (enter rc) := by
  refine .ite (.pure _) (.bind (fun s ↦ ?_) fun _ ↦ .pure _)
  refine ⟨[.setEvalCount (if s.evalCount = -1 then s.evalCount
    else (if s.evalCount = 0 then INSTRUCTIONS_PER_IT else s.evalCount) - 1)], ?_, ?_⟩
  · intro op hop
    rw [List.mem_singleton.1 hop]
    trivial
  · refine run_cons_eq_some.2 ⟨_, HeapOp.step?_eq_some.2 (runs_modify.2 rfl), ?_⟩
    rw [run_nil, Option.some.injEq]
    beta_reduce
    split_ifs
    iterate 3 rfl

/-- A declaration with a value: created, and then assigned. -/
theorem assignNewVar_steady (d : DeclType) (name : Str) (p : Ptr) :
    Steady (D := D) (assignNewVar d name p) := by
  refine .bind (.of_readOnly (typeOf_readOnly p)) fun ty ↦ .ite (.pure _) ?_
  refine .bind (variableCreate_steady d 0 name) fun q ↦ ?_
  refine .bind (.of_readOnly getVarTable_readOnly) fun t ↦ ?_
  exact .bind (updateADT_steady t q p) fun b ↦ .ite (.pure _) (.pure _)

omit [CDouble D] in
/-- An entry of an array is the node itself. -/
theorem arrayAccess_readOnly (p q : Ptr) : ReadOnly (arrayAccess (D := D) p q) := by
  refine .bind (nodeAt_readOnly p) fun o ↦ .bind (nodeAt_readOnly q) fun o' ↦ ?_
  split
  · exact .ite (.pure _) (.bind (getVector_readOnly _) fun ps ↦ .pure _)
  · exact .pure _

omit [CDouble D] in
/-- So is a field. -/
theorem adtAccess_readOnly (p : Ptr) (dotName : Str) :
    ReadOnly (adtAccess (D := D) p dotName) := by
  refine .bind (nodeAt_readOnly p) fun o ↦ ?_
  split
  · exact .bind (getMap_readOnly _) fun m ↦ .pure _
  · exact .pure _

omit [CDouble D] in
theorem printNode_readOnly (p : Ptr) : ReadOnly (printNode (D := D) p) := by
  refine .bind (typeOf_readOnly p) fun ty ↦ ?_
  split
  iterate 5 exact .pure _

/-- The operand is written over. -/
theorem unaryOperation_steady (op : UnaryOp) (p : Ptr) :
    Steady (D := D) (unaryOperation op p) := by
  refine .bind (.of_readOnly (nodeAt_readOnly p)) fun o ↦ ?_
  split
  iterate 3 exact .bind (setNode_steady _ _) fun _ ↦ .pure _
  · exact .pure _

/-- The result is a new node. -/
theorem arithOperation_steady (op : BinOp) (p q : Ptr) :
    Steady (D := D) (arithOperation op p q) := by
  refine .bind (.of_readOnly getVarTable_readOnly) fun t ↦ ?_
  refine .bind (.of_readOnly (nodeAt_readOnly p)) fun o ↦ ?_
  refine .bind (.of_readOnly (nodeAt_readOnly q)) fun o' ↦ ?_
  split
  · split
    · exact .bind (newNode_steady t _) fun _ ↦ .pure _
    · refine .bind (newNode_steady t _) fun r ↦ ?_
      cases r with
      | none => exact .pure _
      | some a => exact .throw _
  · split
    · exact .bind (newNode_steady t _) fun _ ↦ .pure _
    · exact .bind (newNode_steady t _) fun _ ↦ .pure _
  · exact .bind (newNode_steady t _) fun _ ↦ .pure _

theorem binOperation_steady (op : BinOp) (p q : Ptr) : Steady (D := D) (binOperation op p q) := by
  refine .bind (.of_readOnly (typeOf_readOnly p)) fun ty ↦ .ite (.pure _) ?_
  refine .bind (.of_readOnly (typeOf_readOnly q)) fun ty' ↦ .ite (.pure _) ?_
  exact arithOperation_steady op q p

/-- An assignment is `updateADT` on the table on top. -/
theorem assignAdt_steady (p q : Ptr) : Steady (D := D) (assignAdt p q) := by
  refine .bind (.of_readOnly (typeOf_readOnly p)) fun ty ↦ .ite (.pure _) ?_
  refine .bind (.of_readOnly (typeOf_readOnly q)) fun ty' ↦ .ite (.pure _) ?_
  refine .bind (.of_readOnly getVarTable_readOnly) fun t ↦ ?_
  exact .bind (updateADT_steady t q p) fun b ↦ .ite (.pure _) (.pure _)

theorem returnValue_steady (p : Ptr) : Steady (D := D) (returnValue p) := by
  refine .bind (.of_readOnly (typeOf_readOnly p)) fun ty ↦ .ite (.pure _) ?_
  exact .bind (variableAssign_steady _ p) fun _ ↦ .pure _

/-- What a node does once its operands are there. -/
theorem apply_steady (host : Host D) (curNode : Ast) (evaluated : List Ptr) :
    Steady (apply host curNode evaluated) := by
  unfold apply
  split
  · exact .of_readOnly (evalValue_readOnly _)
  · exact variableCreate_steady _ _ _
  · exact onInt_steady _ fun i ↦ variableCreate_steady _ _ _
  · exact assignNewVar_steady _ _ _
  · exact .bind (mkSepList_steady _) fun p ↦ assignNewVar_steady _ _ p
  · refine .bind (.of_readOnly getVarTable_readOnly) fun t ↦ ?_
    exact .bind (.of_readOnly (lookup_readOnly t _)) fun o ↦ .pure _
  · exact .of_readOnly (arrayAccess_readOnly _ _)
  · exact .of_readOnly (adtAccess_readOnly _ _)
  · exact .of_readOnly (printNode_readOnly _)
  · exact .of_readOnly (printNode_readOnly _)
  · exact unaryOperation_steady _ _
  · exact binOperation_steady _ _ _
  · exact assignAdt_steady _ _
  · exact handleRPC_steady host _
  · exact .pure _
  · exact .pure _
  · exact returnValue_steady _
  · exact createIdent_steady _ _ _
  · exact .pure _
  · exact native1_steady host _ _
  · exact native2_steady _ _ _
  · exact getDistance_steady host _ _ _
  · exact getDistance_steady host _ _ _
  · exact .pure _

omit [CDouble D] in
/-- The checks before the next operand. Only that of an `rpc` can write. -/
theorem proceed_steady (curNode : Ast) (evaluated : List Ptr) :
    Steady (D := D) (proceed curNode evaluated) := by
  unfold proceed
  split
  · exact rpcDest_steady _
  iterate 3 exact .of_readOnly (isNodeArray_readOnly _)
  · exact .pure _

omit [CDouble D] in
theorem forward_readOnly (p : Ptr) : ReadOnly (forward (D := D) p) := by
  refine .bind (typeOf_readOnly p) fun ty ↦ ?_
  split
  iterate 4 exact .pure _

/-- The variable for the return value, in the table of the call. -/
theorem createReturn_steady (f : Func) (tmpNode : Option Ptr) :
    Steady (D := D) (createReturn f tmpNode) := by
  cases tmpNode with
  | none => exact .pure _
  | some p => exact .bind (variableCreate_steady _ _ _) fun _ ↦ .pure _

/-- The node that the value of a call is copied to, in the table of the caller. -/
theorem createTmp_steady (f : Func) : Steady (D := D) (createTmp f) := by
  refine .ite (.pure _) (.bind (.of_readOnly getVarTable_readOnly) fun t ↦ ?_)
  exact .bind (astCreate_steady t _ 0) fun _ ↦ .pure _

/-- The next operand, or the result. -/
theorem nextOperand_steady (host : Host D) (curNode : Ast) (evaluated : List Ptr)
    (pending : List Ast) (rc : ℕ) : Steady (nextOperand host curNode evaluated pending rc) := by
  refine .bind (proceed_steady curNode evaluated) fun b ↦ .ite ?_ (.pure _)
  cases pending with
  | nil => exact .bind (apply_steady host curNode evaluated) fun _ ↦ .pure _
  | cons c cs => exact .pure _

/-! ### Calls -/

/-- Any sequence of operations. -/
abbrev AnyOps {α : Type} (m : Interp D α) : Prop := Traced (fun _ ↦ True) m

omit [CDouble D] in
/-- Nothing is asked of the operations. -/
theorem anyOps_of_steady {α : Type} {m : Interp D α} (h : Steady m) : AnyOps m :=
  h.mono fun _ _ ↦ trivial

omit [CDouble D] in
/-- A block pushes a table that sees the one below. -/
theorem newContext_anyOps : AnyOps (D := D) newContext := by
  refine .bind (.of_readOnly getVarTable_readOnly) fun t ↦ ?_
  exact .bind (.of_readOnly (getTable_readOnly t)) fun tbl ↦ .exec (.pushTable _) trivial

omit [CDouble D] in
/-- A call pushes one that does not. -/
theorem newVarTable_anyOps : AnyOps (D := D) newVarTable := by
  refine .bind (.of_readOnly getVarTable_readOnly) fun old ↦ .bind (.of_readOnly .get) fun s ↦ ?_
  split
  · exact .bind (.exec (.pushTable _) trivial) fun _ ↦ .pure _
  · exact .bind (.throw _) fun _ ↦ .pure _

omit [CDouble D] in
theorem removeVarTable_anyOps : AnyOps (D := D) removeVarTable := .exec .removeVarTable trivial

/-- A call: its table, the variable for its value, and its parameters. -/
theorem enterFunc_anyOps (f : Func) (tmpNode : Option Ptr) (actual : List Ptr) (rc : ℕ) :
    AnyOps (D := D) (enterFunc f tmpNode actual rc) := by
  refine .bind newVarTable_anyOps fun old ↦ ?_
  refine .bind (anyOps_of_steady (createReturn_steady f tmpNode)) fun ret ↦ ?_
  refine .bind (anyOps_of_steady (paramListAssign_steady _ actual)) fun b ↦ ?_
  exact .ite (.pure _) (.pure _)

/-- The next parameter, or the call. -/
theorem nextParam_anyOps (f : Func) (tmpNode : Option Ptr) (actual : List Ptr)
    (pending : List Ast) (rc : ℕ) : AnyOps (D := D) (nextParam f tmpNode actual pending rc) := by
  cases pending with
  | nil => exact enterFunc_anyOps f tmpNode actual rc
  | cons c cs => exact .pure _

omit [CDouble D] in
/-- The table of a call goes before its signal is looked at. -/
theorem popFunc_anyOps (p : Ptr) {k : ASTType → Interp D Ptr} (hk : ∀ ty, AnyOps (k ty)) :
    AnyOps (do removeVarTable; k (← typeOf p)) :=
  .bind removeVarTable_anyOps fun _ ↦ .bind (.of_readOnly (typeOf_readOnly p)) hk

/-- The value, if there is one, is copied to the caller before the table goes. -/
theorem leaveFunc_anyOps (oldTable : TableId) (tmpNode returnNode : Option Ptr) (p : Ptr) :
    AnyOps (D := D) (leaveFunc oldTable tmpNode returnNode p) := by
  unfold leaveFunc
  split
  · refine .bind (anyOps_of_steady (updateADT_steady oldTable _ _)) fun _ ↦ ?_
    refine popFunc_anyOps p fun ty ↦ ?_
    split
    iterate 3 exact .pure _
  · refine popFunc_anyOps p fun ty ↦ ?_
    split
    iterate 3 exact .pure _

/-- The first step of each kind of node. -/
theorem evalNode_anyOps (host : Host D) (curNode : Ast) (rc : ℕ) :
    AnyOps (evalNode host curNode rc) := by
  refine .bind (anyOps_of_steady (enter_steady rc)) fun b ↦ .ite ?_ (.pure _)
  cases curNode with
  | ast left right => exact .pure _
  | context node => exact .bind newContext_anyOps fun _ ↦ .pure _
  | ifNode eval left right => exact .pure _
  | loop eval node => exact .pure _
  | forLoop node1 node2 node3 node4 => exact .pure _
  | funcRef name actualParam =>
    refine .bind (.of_readOnly getVarTable_readOnly) fun t ↦ ?_
    refine .bind (.of_readOnly (lookup_readOnly t name)) fun o ↦ ?_
    cases o with
    | none => exact .pure _
    | some p => exact .pure _
  | _ => exact anyOps_of_steady (nextOperand_steady host _ _ _ rc)

/-- The first step of a call. -/
theorem evalPtr_anyOps (callFunc : Ptr) (actualParam : List Ast) (rc : ℕ) :
    AnyOps (D := D) (evalPtr callFunc actualParam rc) := by
  refine .bind (anyOps_of_steady (enter_steady rc)) fun b ↦ .ite ?_ (.pure _)
  cases callFunc with
  | func f =>
    exact .bind (anyOps_of_steady (createTmp_steady f)) fun tmp ↦ nextParam_anyOps f tmp _ _ rc
  | node a => exact .bind (.of_readOnly (evalValue_readOnly a)) fun _ ↦ .pure _
  | _ => exact .pure _

/-- A frame that is in the middle of a control construct only reads, and the frames that it leaves own
no table. -/
theorem resume_control (host : Host D) {frame : Frame} (p : Ptr) (s : ParserState D)
    (hown : frame.ownsTable = false)
    (hops : ∀ curNode evaluated pending rc, frame ≠ .operands curNode evaluated pending rc)
    (hcall : ∀ f tmp actual pending rc, frame ≠ .funcParam f tmp actual pending rc) :
    Ensures (resume host frame p) s fun r s' ↦ s' = s ∧ ∀ f ∈ r.2, f.ownsTable = false := by
  have hret : ∀ c : Ctrl, Ensures (pure (c, []) : Interp D Next) s fun r s' ↦
      s' = s ∧ ∀ f ∈ r.2, f.ownsTable = false :=
    fun _ ↦ ⟨rfl, fun _ hf ↦ absurd hf List.not_mem_nil⟩
  have hnext : ∀ (c : Ctrl) {f : Frame}, f.ownsTable = false →
      Ensures (pure (c, [f]) : Interp D Next) s fun r s' ↦
        s' = s ∧ ∀ f ∈ r.2, f.ownsTable = false :=
    fun _ _ hf ↦ ⟨rfl, List.forall_mem_singleton.2 hf⟩
  -- the frames that make nodes or open a table are excluded
  cases frame with
  | operands curNode evaluated pending rc => exact absurd rfl (hops _ _ _ _)
  | funcParam f tmpNode actual pending rc => exact absurd rfl (hcall _ _ _ _ _)
  | context => cases hown
  | funcBody oldTable tmpNode returnNode => cases hown
  | astRight left rc =>
    refine (typeOf_readOnly p).then fun ty ↦ ?_
    split
    iterate 3 exact hret _
    exact hnext _ rfl
  | astLeft => exact (forward_readOnly p).then fun _ ↦ hret _
  | ifEval left right rc =>
    refine (nodeAt_readOnly p).then fun o ↦ ?_
    split
    · exact hnext _ rfl
    · exact hret _
  | ifBranch => exact (forward_readOnly p).then fun _ ↦ hret _
  | loopEval eval body rc =>
    exact (isNonzero_readOnly p).then fun b ↦
      Lib.meets_ite.2 ⟨fun _ ↦ hnext _ rfl, fun _ ↦ hret _⟩
  | loopBody eval body rc =>
    refine (typeOf_readOnly p).then fun ty ↦ ?_
    split
    iterate 2 exact hret _
    exact hnext _ rfl
  | forInit node2 node3 node4 rc => exact hnext _ rfl
  | forEval node2 node3 node4 rc =>
    exact (isNonzero_readOnly p).then fun b ↦
      Lib.meets_ite.2 ⟨fun _ ↦ hnext _ rfl, fun _ ↦ hret _⟩
  | forBody node2 node3 node4 rc =>
    refine (typeOf_readOnly p).then fun ty ↦ ?_
    split
    iterate 2 exact hret _
    exact hnext _ rfl
  | forStep node2 node3 node4 rc => exact hnext _ rfl

/-- A frame that owns no table, and calls no function, goes on without touching the stack of
tables. -/
theorem resume_steady (host : Host D) {frame : Frame} (p : Ptr) (hown : frame.ownsTable = false)
    (hcall : ∀ f tmp actual pending rc, frame ≠ .funcParam f tmp actual pending rc) :
    Steady (resume host frame p) := by
  cases frame with
  | operands curNode evaluated pending rc => exact nextOperand_steady host _ _ _ rc
  | _ =>
    refine .of_readOnly fun s ↦ ?_
    exact (resume_control host p s hown (by simp) hcall).mono fun _ _ h ↦ h.1

/-- A frame that waits for a value: those of a block and of a call pop a table. -/
theorem resume_anyOps (host : Host D) (frame : Frame) (p : Ptr) :
    AnyOps (resume host frame p) := by
  cases frame with
  | context =>
    refine .bind removeVarTable_anyOps fun _ ↦ ?_
    exact .bind (.of_readOnly (forward_readOnly p)) fun _ ↦ .pure _
  | funcParam f tmpNode actual pending rc => exact nextParam_anyOps f tmpNode _ pending rc
  | funcBody oldTable tmpNode returnNode =>
    exact .bind (leaveFunc_anyOps oldTable tmpNode returnNode p) fun _ ↦ .pure _
  | _ => exact anyOps_of_steady (resume_steady host p rfl (by simp))

/-! ### The start of a program -/

omit [CDouble D] in
/-- The literals of the text, in the global table. -/
theorem loadLiterals_filling (ls : List (Literal D)) : Filling (loadLiterals ls) := by
  induction ls with
  | nil => exact .pure _
  | cons l ls ih =>
    cases l with
    | int i => exact .bind (mkInt_filling i) fun _ ↦ ih
    | double d => exact .bind (mkDouble_filling d) fun _ ↦ ih
    | string x => exact .bind (mkString_filling x) fun _ ↦ ih

omit [CDouble D] in
/-- The other nodes of the text, one after another. -/
theorem loadText_filling (n : ℕ) : Filling (D := D) (loadText n) := by
  induction n with
  | zero => exact .pure _
  | succ n ih => exact .bind (newNode_filling 0 _) fun _ ↦ ih

omit [CDouble D] in
/-- The parameters are placed like a reply, in the global table. -/
theorem loadParam_filling (param : Value D) : Filling (loadParam param) := by
  refine .bind (place_filling 0 param) fun p ↦ .bind (.of_readOnly (nodeAt_readOnly p)) fun o ↦ ?_
  split
  · refine .bind (.of_readOnly (getVector_readOnly _)) fun ps ↦ .of_readOnly ?_
    refine .mapM (fun q ↦ .bind (nodeAt_readOnly q) fun o ↦ ?_) ps
    split
    · exact evalValue_readOnly _
    · exact .pure _
  · exact .pure _

omit [CDouble D] in
/-- A function or a struct becomes an entry of the global table. -/
theorem declare_steady (d : GlobalDecl) : Steady (D := D) (declare d) := by
  cases d with
  | func f =>
    refine .bind (newNode_steady 0 _) fun o ↦ ?_
    cases o with
    | none => exact .bind (insert_steady 0 _ _) fun _ ↦ .pure _
    | some a => exact .bind (insert_steady 0 _ _) fun _ ↦ .pure _
  | struct d => exact .bind (insert_steady 0 _ _) fun _ ↦ .pure _

omit [CDouble D] in
theorem declareAll_steady (ds : List GlobalDecl) : Steady (D := D) (declareAll ds) := by
  induction ds with
  | nil => exact .pure _
  | cons d ds ih => exact .bind (declare_steady d) fun _ ↦ ih

/-- All that comes before the first node is evaluated. -/
theorem start_anyOps (program : Program D) (funcString : Str) (param : Value D) :
    AnyOps (start program funcString param) := by
  refine .bind (anyOps_of_steady (loadLiterals_filling _).steady) fun _ ↦ ?_
  refine .bind (anyOps_of_steady (loadText_filling _).steady) fun _ ↦ ?_
  refine .bind (anyOps_of_steady (loadParam_filling param).steady) fun actual ↦ ?_
  refine .bind (anyOps_of_steady (declareAll_steady _)) fun _ ↦ ?_
  refine .bind (.exec (.setEvalCount INSTRUCTIONS_PER_IT) trivial) fun _ ↦ ?_
  refine .bind (.of_readOnly (lookup_readOnly 0 funcString)) fun o ↦ ?_
  split
  · refine .bind (anyOps_of_steady (createTmp_steady _)) fun tmp ↦ ?_
    exact nextParam_anyOps _ tmp actual [] 0
  · exact .pure _

end Interp

/-! ### Runs of the machine -/

namespace Machine

open Interp

variable [CDouble D] {m m' : Machine D}

omit [CDouble D] in
/-- The operations of one step of the machine, if its computation is traced. -/
theorem next_ops {i : Interp D Next} {stack : List Frame} {s : ParserState D} (hi : AnyOps i)
    (h : (i s).map (next stack) = .ok m') :
    ∃ ops, run HeapOp.step? s ops = some m'.ps := by
  cases hr : i s with
  | error e =>
    rw [hr] at h
    cases h
  | ok r =>
    rw [hr] at h
    cases h
    obtain ⟨ops, -, hrun⟩ := (hi s).run hr
    exact ⟨ops, hrun⟩

/-- What a step of the machine does is a sequence of operations. -/
theorem step?_ops {host : Host D} (h : m.step? host = some m') :
    ∃ ops, run HeapOp.step? m.ps ops = some m'.ps := by
  have h := step?_eq_some h
  obtain ⟨ctrl, stack, ps⟩ := m
  cases ctrl with
  | eval curNode rc => exact next_ops (evalNode_anyOps host curNode rc) h
  | evalPtr p actualParam rc => exact next_ops (evalPtr_anyOps p actualParam rc) h
  | ret p =>
    cases stack with
    | nil => cases h
    | cons frame stack => exact next_ops (resume_anyOps host frame p) h

/-- **The state of every execution is reached by a sequence of operations.** -/
theorem Reachable.ops {program : Program D} {funcString : Str} {param : Value D}
    (h : Reachable program funcString param m) :
    ∃ ops, run HeapOp.step? .new ops = some m.ps := by
  obtain ⟨m₀, hosts, hstart, hrun⟩ := h
  have hm₀ := next_ops (start_anyOps program funcString param) hstart
  refine run_invariant' (P := fun m ↦ ∃ ops, run HeapOp.step? .new ops = some m.ps)
    (fun m host m' hm hstep ↦ ?_) hm₀ hrun
  obtain ⟨ops, hops⟩ := hm
  obtain ⟨ops', hops'⟩ := step?_ops hstep
  refine ⟨ops ++ ops', ?_⟩
  rw [run_append, hops]
  exact hops'

end Machine

end Meridian.MQL

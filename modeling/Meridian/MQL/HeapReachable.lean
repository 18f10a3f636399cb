import Meridian.MQL.ScopeBalance

/-!
# The heap of every program

The invariant of the machine says what a program with neither `rpc` nor `get_distance` returns. The
invariant of the heap needs no such condition. What `rpc` has received is placed in new nodes that no
slot of the program's own points to, `get_distance` returns an array of structs that is made like any
other, and to check the destination of an `rpc` is to read a struct with all the fields of a `Node`:
where a field is missing, the NULL that the check leaves in the map is dereferenced at once.

* `apply_leads`, `proceed_same`: what a node does to the heap, whatever it is.
* `Intact`: what a piece of `eval` leaves of the heap, tables pushed and popped included.
* `Machine.Reachable.heap`: the heap of every state that any program reaches.
-/

namespace Meridian.MQL

open Lib ParserState

variable {D : Type} {nlits : ℕ} {s s' s'' : ParserState D}

/-! ### What `rpc` and `get_distance` do to the heap -/

namespace Interp

/-- A field that is missing becomes NULL. -/
theorem mapAt_same (m : Addr) (x : Str) (s : ParserState D) :
    Ensures (mapAt m x) s fun p s' ↦ p = .null ∨ s' = s := by
  refine (getMap_readOnly m).then fun adtMap ↦ ?_
  split
  · exact .inr rfl
  · exact meets_bind.2 ((setMap_steady m _ s).mono fun _ _ _ ↦ .inl rfl)

/-- NULL is dereferenced. -/
theorem iVal_same (p : Ptr) (s : ParserState D) :
    Ensures (iVal p) s fun _ s' ↦ p ≠ .null ∧ s' = s := by
  refine meets_bind.2 (nodeAt_ensures (fun a n ha _ ↦ ?_) fun hne _ ↦ ?_)
  · split
    · exact ⟨ha ▸ by simp, rfl⟩
    · exact trivial
  · split
    · exact ⟨hne, rfl⟩
    · exact trivial

/-- A destination that passes the check has all four fields, so none of them has been inserted. -/
theorem rpcDest_same (p : Ptr) (s : ParserState D) :
    Ensures (rpcDest p) s fun _ s' ↦ s' = s := by
  refine (nodeAt_readOnly p).then fun o ↦ ?_
  split
  · next name m u =>
    refine meets_ite.2 ⟨fun _ ↦ ?_, fun _ ↦ rfl⟩
    refine meets_bind.2 ((mapAt_same m addrName s).mono fun addrAST s₁ h₁ ↦ ?_)
    refine meets_bind.2 ((mapAt_same m portName s₁).mono fun portAST s₂ h₂ ↦ ?_)
    refine meets_bind.2 ((mapAt_same m rendvAddrName s₂).mono fun rendvAddrAST s₃ h₃ ↦ ?_)
    refine meets_bind.2 ((mapAt_same m rendvPortName s₃).mono fun rendvPortAST s₄ h₄ ↦ ?_)
    refine meets_bind.2 ((iVal_same addrAST s₄).mono ?_)
    rintro _ s₅ ⟨hne₁, rfl⟩
    refine meets_bind.2 ((iVal_same portAST s₅).mono ?_)
    rintro _ s₅ ⟨hne₂, rfl⟩
    refine meets_bind.2 ((iVal_same rendvAddrAST s₅).mono ?_)
    rintro _ s₅ ⟨hne₃, rfl⟩
    refine meets_bind.2 ((iVal_same rendvPortAST s₅).mono ?_)
    rintro _ s₅ ⟨hne₄, rfl⟩
    rw [meets_pure, h₄.resolve_left hne₄, h₃.resolve_left hne₃, h₂.resolve_left hne₂,
      h₁.resolve_left hne₁]
  · exact rfl

/-- The checks between the operands read the heap. -/
theorem proceed_same (curNode : Ast) (evaluated : List Ptr) (s : ParserState D) :
    Ensures (proceed curNode evaluated) s fun _ s' ↦ s' = s := by
  unfold proceed
  split
  · exact rpcDest_same _ s
  · exact isNodeArray_readOnly _ s
  · exact isNodeArray_readOnly _ s
  · exact isNodeArray_readOnly _ s
  · exact rfl

/-- What has been received is placed in nodes of its own. -/
theorem handleRPC_leads {typed : Prop} (host : Host D) (param : List Ptr) (h : s.WF nlits typed) :
    Ensures (handleRPC host param) s fun _ s' ↦ Leads nlits typed s s' := by
  obtain ⟨rendv, rings, getRingNumber, reply, latencies⟩ := host
  refine getVarTable_readOnly.then fun t ↦ ?_
  have hreply : ∀ (v : Value D) {s₁ : ParserState D}, Leads nlits typed s s₁ →
      Ensures (do
        let p ← place t v
        modify fun s ↦ { s with rpcRecv := p }
        return (← get).rpcRecv) s₁ fun _ s' ↦ Leads nlits typed s s' := by
    refine fun v s₁ h₁ ↦ meets_bind.2 ((places v s₁ h₁.wf).mono fun p s₂ ⟨h₂, _⟩ ↦ ?_)
    exact h₁.trans (h₂.trans (.of_tables h₂.wf rfl rfl rfl))
  have hraw : Ensures (newStackAst t (pure (.raw : Node D))) s fun _ s' ↦ Leads nlits typed s s' :=
    (creates_plain rfl s h).mono fun _ _ h₁ ↦ h₁.1
  cases reply with
  | none => exact meets_ite.2 ⟨fun _ ↦ .refl h, fun _ ↦ meets_bind.2 (hraw.mono fun _ s₁ h₁ ↦ h₁)⟩
  | some v =>
    refine meets_ite.2 ⟨fun _ ↦ hreply v (.refl h), fun _ ↦ meets_bind.2 (hraw.mono ?_)⟩
    exact fun _ s₁ h₁ ↦ hreply v h₁

variable [CDouble D]

/-- The results of a query are an array of structs. -/
theorem resumeDistance_leads {typed : Prop} (host : Host D) (h : s.WF nlits typed) :
    Ensures (resumeDistance host) s fun _ s' ↦ Leads nlits typed s s' := by
  unfold resumeDistance
  split
  · exact .refl h
  · refine meets_bind.2 ((createIdents_yields _ _ h).mono fun p s₁ ⟨h₁, _⟩ ↦ ?_)
    exact h₁.trans (.of_tables h₁.wf rfl rfl rfl)

/-- All that `get_distance` writes is the answer of the host, which is an array of new nodes. -/
theorem getDistance_leads {typed : Prop} (host : Host D) (p : Option Ptr) (q r : Ptr)
    (h : s.WF nlits typed) :
    Ensures (getDistance host p q r) s fun _ s' ↦ Leads nlits typed s s' := by
  refine (typeOf_readOnly r).then fun ty ↦ meets_ite.2 ⟨fun _ ↦ ?_, fun _ ↦ .refl h⟩
  have hquery : ∀ {k : ParserState D → Interp D Ptr}, (∀ s₁, ReadOnly (k s₁)) →
      Ensures (do
        if ← nodesOf q then
          resumeDistance host
          k (← get)
        else pure .empty) s fun _ s' ↦ Leads nlits typed s s' := by
    intro k hk
    refine (nodesOf_readOnly q).then fun b ↦ meets_ite.2 ⟨fun _ ↦ ?_, fun _ ↦ .refl h⟩
    refine meets_bind.2 ((resumeDistance_leads host h).mono fun _ s₁ h₁ ↦ meets_bind.2 ?_)
    refine meets_get.2 ((hk s₁ s₁).mono fun _ s₂ hs₂ ↦ ?_)
    rwa [hs₂]
  cases p with
  | none =>
    refine meets_bind.2 (meets_pure.2 (meets_ite.2 ⟨fun _ ↦ ?_, fun _ ↦ .refl h⟩))
    refine hquery fun s₁ ↦ .bind (nodeAt_readOnly _) fun o ↦ ?_
    split
    · refine .bind (getVector_readOnly _) fun ps ↦ ?_
      split
      · exact .pure _
      · exact .pure _
    · exact .pure _
  | some p =>
    refine (nodesOf_readOnly p).then fun b ↦ meets_ite.2 ⟨fun _ ↦ ?_, fun _ ↦ .refl h⟩
    exact hquery fun s₁ ↦ .bind (nodeAt_readOnly _) fun o ↦ .pure _

/-! ### What a node does -/

/-- The operand gets another number. -/
theorem unaryOperation_leads {typed : Prop} (op : UnaryOp) (p : Ptr) (h : s.WF nlits typed) :
    Ensures (unaryOperation op p) s fun _ s' ↦ Leads nlits typed s s' := by
  have hset : ∀ {a : Addr} {n : Node D} (m : Node D), NodeAt s a n → n.SameKind m →
      Ensures (do setNode a m; pure p) s fun _ s' ↦ Leads nlits typed s s' := fun m hn hm ↦
    meets_bind.2 ((setNode_ensures h hn hm).mono fun _ _ h₁ ↦ h₁)
  refine meets_bind.2 (nodeAt_ensures (fun a n _ hn ↦ ?_) fun _ _ ↦ ?_)
  · split
    · next heq =>
      cases heq
      exact hset _ hn (.int ..)
    · next heq =>
      cases heq
      exact hset _ hn (.double ..)
    · next heq =>
      cases heq
      exact hset _ hn (.int ..)
    · exact .refl h
  · cases op <;> exact .refl h

/-- The result is a new node. -/
theorem binOperation_leads {typed : Prop} (op : BinOp) (p q : Ptr) (h : s.WF nlits typed) :
    Ensures (binOperation op p q) s fun _ s' ↦ Leads nlits typed s s' := by
  refine (typeOf_readOnly p).then fun ty ↦ meets_ite.2 ⟨fun _ ↦ .refl h, fun _ ↦ ?_⟩
  refine (typeOf_readOnly q).then fun ty ↦ meets_ite.2 ⟨fun _ ↦ .refl h, fun _ ↦ ?_⟩
  exact (arithOperation_yields h op q p).mono fun _ _ h₁ ↦ h₁.1

/-- The left side is assigned to, if there is one. -/
theorem assignAdt_leads {typed : Prop} (p q : Ptr) (h : s.WF nlits typed) :
    Ensures (assignAdt p q) s fun _ s' ↦ Leads nlits typed s s' := by
  refine (typeOf_readOnly p).then fun ty ↦ meets_ite.2 ⟨fun _ ↦ .refl h, fun _ ↦ ?_⟩
  refine (typeOf_readOnly q).then fun ty ↦ meets_ite.2 ⟨fun _ ↦ .refl h, fun _ ↦ ?_⟩
  refine getVarTable_readOnly.then fun t ↦ meets_bind.2 ?_
  refine (updateADT_assigns t q p s h).mono fun b s₁ h₁ ↦ ?_
  exact meets_ite.2 ⟨fun _ ↦ h₁, fun _ ↦ h₁⟩

/-- **What a node does keeps the invariant of the heap**, whatever its operands are. -/
theorem apply_leads (host : Host D) (curNode : Ast) (evaluated : List Ptr) (h : s.WF nlits False) :
    Ensures (apply host curNode evaluated) s fun _ s' ↦ Leads nlits False s s' := by
  have hread : ∀ {m : Interp D Ptr}, ReadOnly m →
      Ensures m s fun _ s' ↦ Leads nlits False s s' := by
    refine fun hm ↦ (hm s).mono fun _ s' hs' ↦ ?_
    rw [hs']
    exact .refl h
  have hyield : ∀ {m : Interp D Ptr}, Yields nlits False m s →
      Ensures m s fun _ s' ↦ Leads nlits False s s' := fun hm ↦ hm.mono fun _ _ h₁ ↦ h₁.1
  unfold apply
  split
  · exact hread (evalValue_readOnly _)
  · exact hyield (variableCreate_yields h _ _ _)
  · exact hyield (onInt_yields h fun i ↦ variableCreate_yields h _ i _)
  · exact hyield (assignNewVar_yields h _ _ _)
  · refine meets_bind.2 ((mkSepList_ensures h _).mono fun p s₁ ⟨h₁, _⟩ ↦ ?_)
    exact (assignNewVar_yields h₁.wf _ _ p).mono fun _ _ h₂ ↦ h₁.trans h₂.1
  · exact getVarTable_readOnly.then fun t ↦ hread (.bind (lookup_readOnly t _) fun _ ↦ .pure _)
  · exact hread (arrayAccess_readOnly _ _)
  · exact hread (adtAccess_readOnly _ _)
  · exact hread (printNode_readOnly _)
  · exact hread (printNode_readOnly _)
  · exact unaryOperation_leads _ _ h
  · exact binOperation_leads _ _ _ h
  · exact assignAdt_leads _ _ h
  · exact handleRPC_leads host _ h
  · exact .refl h
  · exact .refl h
  · exact hyield (returnValue_yields h _)
  · exact hyield (handleGetSelf_yields host h)
  · exact .refl h
  · exact hyield (native1_yields host _ _ h)
  · exact hyield (native2_yields _ h False.elim False.elim fun htyped ↦ htyped.elim)
  · exact getDistance_leads host _ _ _ h
  · exact getDistance_leads host _ _ _ h
  · exact .refl h

/-! ### The pieces of `eval` -/

variable (nlits) in
/-- What a piece of `eval` leaves of the heap: the invariant holds, and structs are defined as
before. -/
structure Intact (s s' : ParserState D) : Prop where
  wf : s'.WF nlits False
  defs : ∀ name d, s.defs name = some d → s'.defs name = some d

omit [CDouble D] in
/-- What pushes and pops no table. -/
theorem Intact.of_leads (h : Leads nlits False s s') : Intact nlits s s' :=
  ⟨h.wf, fun _ _ ↦ h.evolves.defs⟩

omit [CDouble D] in
/-- One after the other. -/
theorem Intact.trans (h : Intact nlits s s') (h' : Intact nlits s' s'') : Intact nlits s s'' :=
  ⟨h'.wf, fun name d hd ↦ h'.defs name d (h.defs name d hd)⟩

omit [CDouble D] in
/-- A table is pushed or popped: the global one is among those that stay. -/
theorem Intact.of_preserves {ts : List TableId} (hwf : s'.WF nlits False) (h0 : 0 ∈ ts)
    (hpres : Preserves ts s s') : Intact nlits s s' :=
  ⟨hwf, hpres.defs h0⟩

/-- The next operand, or the node itself. -/
theorem nextOperand_intact (host : Host D) (curNode : Ast) (evaluated : List Ptr)
    (pending : List Ast) (rc : ℕ) (h : s.WF nlits False) :
    Ensures (nextOperand host curNode evaluated pending rc) s fun _ s' ↦ Intact nlits s s' := by
  refine meets_bind.2 ((proceed_same curNode evaluated s).mono ?_)
  rintro b s rfl
  refine meets_ite.2 ⟨fun _ ↦ ?_, fun _ ↦ .of_leads (.refl h)⟩
  cases pending with
  | nil => exact meets_bind.2 ((apply_leads host curNode evaluated h).mono fun _ _ ↦ .of_leads)
  | cons c cs => exact .of_leads (.refl h)

/-- The next parameter, or the table of the call and the body behind it. -/
theorem nextParam_intact (f : Func) (tmpNode : Option Ptr) (actual : List Ptr) (pending : List Ast)
    (rc : ℕ) (h : s.WF nlits False) :
    Ensures (nextParam f tmpNode actual pending rc) s fun _ s' ↦ Intact nlits s s' := by
  cases pending with
  | cons c cs => exact .of_leads (.refl h)
  | nil =>
    refine meets_bind.2 ((newVarTable_ensures h).mono fun old s₁ ⟨hwf, _, hpres⟩ ↦ ?_)
    have hpush := Intact.of_preserves hwf h.zero_mem hpres
    have hreturn : Ensures (createReturn f tmpNode) s₁ fun _ s' ↦ Leads nlits False s₁ s' := by
      cases tmpNode with
      | none => exact .refl hwf
      | some tmp => exact meets_bind.2 ((variableCreate_yields hwf _ _ _).mono fun _ _ h₂ ↦ h₂.1)
    refine meets_bind.2 (hreturn.mono fun returnNode s₂ h₂ ↦ meets_bind.2 ?_)
    refine (paramListAssign_ensures h₂.wf _ actual).mono fun b s₃ h₃ ↦ ?_
    have hcall := hpush.trans (.of_leads (h₂.trans h₃))
    exact meets_ite.2 ⟨fun _ ↦ hcall, fun _ ↦ hcall⟩

/-- A block pushes a table. Every other node starts with one of its operands. -/
theorem evalNode_intact (host : Host D) (curNode : Ast) (rc : ℕ) (h : s.WF nlits False) :
    Ensures (evalNode host curNode rc) s fun _ s' ↦ Intact nlits s s' := by
  refine meets_bind.2 ((enter_ensures h rc).mono fun b s₁ h₁ ↦ ?_)
  have hentered := Intact.of_leads h₁
  refine meets_ite.2 ⟨fun _ ↦ ?_, fun _ ↦ hentered⟩
  cases curNode with
  | ast left right => exact hentered
  | context node =>
    refine meets_bind.2 ((newContext_ensures h₁.wf).mono fun _ s₂ ⟨hwf, _, hpres⟩ ↦ ?_)
    exact hentered.trans (.of_preserves hwf h₁.wf.zero_mem hpres)
  | ifNode eval left right => exact hentered
  | loop eval node => exact hentered
  | forLoop node1 node2 node3 node4 => exact hentered
  | funcRef name actualParam =>
    refine getVarTable_readOnly.then fun t ↦ (lookup_readOnly t name).then fun o ↦ ?_
    cases o with
    | none => exact hentered
    | some p => exact hentered
  | _ => exact (nextOperand_intact host _ _ _ rc h₁.wf).mono fun _ _ h₂ ↦ hentered.trans h₂

/-- A function gets a place for its result before the first parameter. -/
theorem evalPtr_intact (p : Ptr) (actualParam : List Ast) (rc : ℕ) (h : s.WF nlits False) :
    Ensures (evalPtr p actualParam rc) s fun _ s' ↦ Intact nlits s s' := by
  refine meets_bind.2 ((enter_ensures h rc).mono fun b s₁ h₁ ↦ ?_)
  refine meets_ite.2 ⟨fun _ ↦ ?_, fun _ ↦ .of_leads h₁⟩
  cases p with
  | func f =>
    refine meets_bind.2 ((createTmp_ensures f h₁.wf).mono fun o s₂ ⟨h₂, _⟩ ↦ ?_)
    refine (nextParam_intact f o [] actualParam rc h₂.wf).mono fun _ _ h₃ ↦ ?_
    exact (Intact.of_leads (h₁.trans h₂)).trans h₃
  | node a => exact (evalValue_readOnly a).then fun _ ↦ .of_leads h₁
  | _ => exact .of_leads h₁

/-- A frame that has pushed no table. -/
theorem resume_intact (host : Host D) {frame : Frame} (p : Ptr) (hf : frame.ownsTable = false)
    (h : s.WF nlits False) : Ensures (resume host frame p) s fun _ s' ↦ Intact nlits s s' := by
  cases frame with
  | operands curNode evaluated pending rc => exact nextOperand_intact host _ _ _ rc h
  | funcParam f tmpNode actual pending rc => exact nextParam_intact f tmpNode _ pending rc h
  | _ =>
    refine (resume_control host p s hf (by simp) (by simp)).mono fun r s' hr ↦ ?_
    rw [hr.1]
    exact .of_leads (.refl h)

/-- A frame that has pushed a table pops it. -/
theorem resume_own_intact (host : Host D) {frame : Frame} {t : TableId} {ts : List TableId} (p : Ptr)
    (hf : frame.ownsTable = true) (h : s.WF nlits False) (hts : s.varTable = t :: ts) (h0 : 0 ∈ ts) :
    Ensures (resume host frame p) s fun _ s' ↦ Intact nlits s s' := by
  have hpop : ∀ {α : Type} {s₁ : ParserState D} {m : Interp D α}, Leads nlits False s s₁ →
      ReadOnly m → Ensures (do removeVarTable; m) s₁ fun _ s' ↦ Intact nlits s s' := by
    intro α s₁ m h₁ hm
    have hts₁ := h₁.evolves.varTable.trans hts
    refine meets_bind.2 ((removeVarTable_ensures h₁.wf hts₁ (List.ne_nil_of_mem h0)).mono ?_)
    intro _ s₂ ⟨hwf, _, hpres⟩
    refine (hm s₂).mono fun _ s₃ hs₃ ↦ ?_
    rw [hs₃]
    exact (Intact.of_leads h₁).trans (.of_preserves hwf h0 hpres)
  cases frame with
  | context => exact hpop (.refl h) (.bind (forward_readOnly p) fun _ ↦ .pure _)
  | funcBody oldTable tmpNode returnNode =>
    refine meets_bind.2 (Meets.mono (P := fun _ s' ↦ Intact nlits s s') ?_ fun _ _ h₁ ↦ h₁)
    unfold leaveFunc
    split
    · refine meets_bind.2 ((updateADT_assigns oldTable _ _ s h).mono fun b s₁ h₁ ↦ ?_)
      refine hpop h₁ (.bind (typeOf_readOnly p) fun ty ↦ ?_)
      split
      iterate 3 exact .pure _
    · refine hpop (.refl h) (.bind (typeOf_readOnly p) fun ty ↦ ?_)
      split
      iterate 3 exact .pure _
  | _ => cases hf

end Interp

/-! ### The start of a program -/

/-- The names of each table stay as they are. -/
def SameNames (s s' : ParserState D) : Prop :=
  ∀ t tbl', s'.tables t = some tbl' → ∃ tbl, s.tables t = some tbl ∧ tbl'.vMap = tbl.vMap

/-- Nothing happens. -/
theorem SameNames.refl (s : ParserState D) : SameNames s s := fun _ tbl' ht' ↦ ⟨tbl', ht', rfl⟩

/-- One step after the other. -/
theorem SameNames.trans (h : SameNames s s') (h' : SameNames s' s'') : SameNames s s'' := by
  intro t tbl'' ht''
  obtain ⟨tbl', ht', hnames'⟩ := h' t tbl'' ht''
  obtain ⟨tbl, ht, hnames⟩ := h t tbl' ht'
  exact ⟨tbl, ht, hnames'.trans hnames⟩

namespace Interp

/-- A write to a table that leaves its names. -/
theorem setTable_names {t : TableId} {tbl tbl' : VarTable D} (ht : s.tables t = some tbl)
    (hnames : tbl'.vMap = tbl.vMap) : Ensures (setTable t tbl') s fun _ s' ↦ SameNames s s' := by
  intro t' tbl₁ ht'
  by_cases heq : t' = t
  · subst heq
    obtain rfl := Option.some.inj (withTable_same.symm.trans ht')
    exact ⟨tbl, ht, hnames⟩
  · exact ⟨tbl₁, (withTable_of_ne heq).symm.trans ht', rfl⟩

/-- The operations that write to a cell. -/
theorem setCell_names {α : Type} {t : TableId} {i : ℕ} {stack : VarTable D → List α}
    {write : VarTable D → VarTable D} (hwrite : ∀ tbl, (write tbl).vMap = tbl.vMap) :
    Ensures (do
      let tbl ← getTable t
      let _ ← cell (stack tbl) i
      setTable t (write tbl)) s fun _ s' ↦ SameNames s s' := by
  refine meets_bind.2 (getTable_ensures fun tbl ht ↦ meets_bind.2 (cell_ensures fun x _ ↦ ?_))
  exact setTable_names ht (hwrite tbl)

/-- The ones that allocate a string, a vector or a map. -/
theorem newCell_names {t : TableId} {write : VarTable D → VarTable D} {addr : VarTable D → Addr}
    (hwrite : ∀ tbl, (write tbl).vMap = tbl.vMap) :
    Ensures (do
      let tbl ← getTable t
      setTable t (write tbl)
      pure (addr tbl)) s fun _ s' ↦ SameNames s s' := by
  refine meets_bind.2 (getTable_ensures fun tbl ht ↦ meets_bind.2 ?_)
  exact setTable_names ht (hwrite tbl)

/-- A new node has no name. -/
theorem newStackAst_names (t : TableId) (n : NewNode D) :
    Ensures (newStackAst t (n.init t)) s fun _ s' ↦ SameNames s s' := by
  have hinit : ∀ s₁ : ParserState D, Ensures (n.init t) s₁ fun _ s' ↦ SameNames s₁ s' := by
    intro s₁
    cases n with
    | plain n => exact .refl s₁
    | string x => exact meets_bind.2 (newCell_names fun _ ↦ rfl)
    | vector v node => exact meets_bind.2 (newCell_names fun _ ↦ rfl)
    | map node => exact meets_bind.2 (newCell_names fun _ ↦ rfl)
  refine meets_bind.2 (meets_bind.2 (meets_ite.2 ⟨fun _ ↦ ?_, fun _ ↦ .refl s⟩))
  refine meets_bind.2 ((hinit _).mono fun m s₁ h₁ ↦ ?_)
  have h₁ : SameNames s s₁ := h₁
  refine meets_bind.2 (getTable_ensures fun tbl ht ↦ meets_bind.2 ?_)
  refine (setTable_names ht ?_).mono fun _ s₂ h₂ ↦ h₁.trans h₂
  rfl

end Interp

/-- What fills the heap gives no name a meaning. -/
theorem Filling.sameNames {α : Type} {m : Interp D α} (h : Filling m) (s : ParserState D) :
    Ensures m s fun _ s' ↦ SameNames s s' := by
  refine (h s).mono fun a s' ⟨ops, hops, hrun⟩ ↦ ?_
  refine run_invariant (P := fun s' ↦ SameNames s s') (G := fun _ op ↦ op.Fills) ?_ (.refl s)
    (.of_inputs (fun op hop _ ↦ hops op hop) s) hrun
  intro s₁ op s₂ h₁ hop hstep
  have hop : Ensures op.exec s₁ fun _ s' ↦ SameNames s₁ s' := by
    cases op with
    | setNode a n => exact Interp.setCell_names fun _ ↦ rfl
    | setString a x => exact Interp.setCell_names fun _ ↦ rfl
    | setVector a v => exact Interp.setCell_names fun _ ↦ rfl
    | setMap a m => exact Interp.setCell_names fun _ ↦ rfl
    | newStackAst t n => exact meets_bind.2 (Interp.newStackAst_names t n)
    | _ => exact hop.elim
  exact h₁.trans (hop.run (HeapOp.step?_eq_some.1 hstep))

namespace Interp

/-- A struct whose name has no meaning yet is defined. -/
theorem declare_struct {tbl : VarTable D} {d : AdtDef} (ht : s.tables 0 = some tbl)
    (hx : tbl.vMap[d.adtTypeName]? = none) :
    Ensures (declare (.struct d)) s fun _ s' ↦ s'.defs d.adtTypeName = some d := by
  refine meets_bind.2 (meets_bind.2 (getTable_ensures fun tbl' ht' ↦ ?_))
  obtain rfl := Option.some.inj (ht.symm.trans ht')
  refine meets_ite.2 ⟨fun hmem ↦ ?_, fun _ ↦ meets_bind.2 ?_⟩
  · rw [Std.ExtTreeMap.contains_iff_mem, ← Std.ExtTreeMap.isSome_getElem?_iff_mem, hx] at hmem
    cases hmem
  · exact defs_eq_some.2 ⟨_, withTable_same, Std.ExtTreeMap.getElem?_insert_self⟩

/-- The literals of the program are nodes like any others. -/
theorem loadLiterals_leads {typed : Prop} (ls : List (Literal D)) (s : ParserState D)
    (h : s.WF nlits typed) : Ensures (loadLiterals ls) s fun _ s' ↦ Leads nlits typed s s' := by
  induction ls generalizing s with
  | nil => exact .refl h
  | cons l ls ih =>
    have hrest : ∀ {m : Interp D Ptr}, Yields nlits typed m s →
        Ensures (do let _ ← m; loadLiterals ls) s fun _ s' ↦ Leads nlits typed s s' := fun hm ↦
      meets_bind.2 (hm.mono fun _ s₁ h₁ ↦ (ih s₁ h₁.1.wf).mono fun _ s₂ h₂ ↦ h₁.1.trans h₂)
    cases l with
    | int i => exact hrest (mkInt_yields h i)
    | double d => exact hrest (mkDouble_yields h d)
    | string x => exact hrest (mkString_yields h x)

/-- The struct `Node` is the first thing that a program declares. -/
theorem declareNode_intact (ds : List GlobalDecl) (h : s.WF 0 False) (hnames : SameNames .new s) :
    Ensures (declareAll (.struct nodeAdt :: ds)) s fun _ s' ↦
      s'.WF 0 False ∧ s'.varTable = s.varTable ∧ s'.defs nodeName = some nodeAdt := by
  obtain ⟨tbl, ht⟩ := (h.live 0).2 h.zero_mem
  obtain ⟨tbl₀, ht₀, hvMap⟩ := hnames 0 tbl ht
  obtain rfl : VarTable.new [] = tbl₀ := Option.some.inj ht₀
  have hx : tbl.vMap[nodeName]? = none := by
    rw [hvMap]
    exact Std.ExtTreeMap.getElem?_empty
  have hdecl := (declare_ensures h (.struct nodeAdt)).and (declare_struct ht hx)
  refine meets_bind.2 (hdecl.mono fun _ s₁ ⟨h₁, hnode⟩ ↦ ?_)
  refine (declareAll_ensures ds s₁ h₁.wf).mono fun _ s₂ h₂ ↦ ⟨h₂.wf, ?_, h₂.defs hnode⟩
  exact h₂.varTable.trans h₁.varTable

variable [CDouble D]

/-- What a program starts with: the heap is well formed and the struct `Node` is defined. -/
theorem start_heap (program : Program D) (funcString : Str) (param : Value D) :
    Ensures (start program funcString param) .new fun r s' ↦
      (s'.WF 0 False ∧ s'.defs nodeName = some nodeAdt) ∧
        ∃ ts, s'.varTable = ts ++ [0] ∧ ts.length = owners r.2 := by
  have hwf : (ParserState.new (D := D)).WF 0 False := wf_new
  have hload := (loadLiterals_leads program.literals .new hwf).and
    ((loadLiterals_filling program.literals).sameNames .new)
  refine meets_bind.2 (hload.mono fun _ s₁ ⟨h₁, hnames₁⟩ ↦ ?_)
  have htext := (loadText_ensures program.textNodes s₁ h₁.wf).and
    ((loadText_filling program.textNodes).sameNames s₁)
  refine meets_bind.2 (htext.mono fun _ s₂ ⟨h₂, hnames₂⟩ ↦ ?_)
  have hparam := (loadParam_ensures h₂.wf param).and ((loadParam_filling param).sameNames s₂)
  refine meets_bind.2 (hparam.mono fun actual s₃ ⟨h₃, hnames₃⟩ ↦ ?_)
  have hts₃ : s₃.varTable = [0] := ((h₁.trans h₂).trans h₃).evolves.varTable
  refine meets_bind.2 ((declareNode_intact _ h₃.wf ((hnames₁.trans hnames₂).trans hnames₃)).mono ?_)
  rintro _ s₄ ⟨hwf₄, hts₄, hnode₄⟩
  refine meets_bind.2 (meets_modify.2 ?_)
  have hcount : Leads 0 False s₄ { s₄ with evalCount := INSTRUCTIONS_PER_IT } :=
    .of_tables hwf₄ rfl rfl rfl
  have hts₅ : ({ s₄ with evalCount := INSTRUCTIONS_PER_IT } : ParserState D).varTable = [0] :=
    hts₄.trans hts₃
  have hnode₅ := hcount.evolves.defs hnode₄
  have hwf₅ := hcount.wf
  clear hcount
  generalize ({ s₄ with evalCount := INSTRUCTIONS_PER_IT } : ParserState D) = s₅ at hts₅ hnode₅ hwf₅
  refine (lookup_readOnly 0 funcString).then fun o ↦ ?_
  split
  · next f =>
    refine meets_bind.2 ((createTmp_ensures f hwf₅).mono fun tmp s₆ ⟨h₆, _⟩ ↦ ?_)
    have hleaves := nextParam_leaves f tmp actual [] 0 s₆ (h₆.evolves.varTable.trans hts₅)
    refine ((nextParam_intact f tmp actual [] 0 h₆.wf).and hleaves).mono fun r s₇ ⟨h₇, hts₇⟩ ↦ ?_
    exact ⟨⟨h₇.wf, h₇.defs _ _ (h₆.evolves.defs hnode₅)⟩, hts₇⟩
  · exact ⟨⟨hwf₅, hnode₅⟩, [], hts₅, rfl⟩

end Interp

/-! ### Runs -/

namespace Machine

variable [CDouble D] {m m' : Machine D}

variable (nlits) in
/-- The heap of a machine at work: it is well formed, the tables above the global one are those of
the frames, and the struct `Node` is defined. -/
structure HeapWF (m : Machine D) : Prop where
  wf : m.ps.WF nlits False
  within : m.Within [] [0]
  node : m.ps.defs nodeName = some nodeAdt

omit [CDouble D] in
/-- What the machine goes on with has the state of the computation. -/
theorem next_intact {i : Interp D Interp.Next} {stack : List Frame}
    (hi : Ensures i s fun _ s' ↦ Interp.Intact nlits s s') (h : (i s).map (next stack) = .ok m') :
    Interp.Intact nlits s m'.ps := by
  cases hr : i s with
  | error e =>
    rw [hr] at h
    cases h
  | ok r =>
    rw [hr] at h
    cases h
    exact hi.run hr

/-- **One step**, whatever the node around the interpreter does. -/
theorem HeapWF.step {host : Host D} (h : m.HeapWF nlits) (hstep : m.step? host = some m') :
    m'.HeapWF nlits := by
  have hok := step?_eq_some hstep
  have hret : ¬ m.Returned [] := by
    rintro ⟨⟨p, hctrl⟩, hstack⟩
    rw [Machine.step, hctrl, hstack] at hok
    cases hok
  have hintact : Interp.Intact nlits m.ps m'.ps := by
    obtain ⟨frames, ts, hstack, hts, hlen⟩ := h.within
    obtain ⟨ctrl, stack, ps⟩ := m
    cases ctrl with
    | eval curNode rc => exact next_intact (Interp.evalNode_intact host curNode rc h.wf) hok
    | evalPtr p actualParam rc => exact next_intact (Interp.evalPtr_intact p actualParam rc h.wf) hok
    | ret p =>
      cases stack with
      | nil => cases hok
      | cons frame stack =>
        cases hown : frame.ownsTable with
        | false => exact next_intact (Interp.resume_intact host p hown h.wf) hok
        | true =>
          -- the frame is one of those whose tables are above the global one
          have hstack : frame :: stack = frames := hstack.trans (List.append_nil _)
          rw [← hstack, owners, List.countP_cons_of_pos hown] at hlen
          obtain ⟨t, ts, rfl⟩ := List.exists_cons_of_length_eq_add_one hlen
          refine next_intact (Interp.resume_own_intact host p hown h.wf hts ?_) hok
          exact List.mem_append_right _ (List.mem_singleton_self _)
  exact ⟨hintact.wf, h.within.step hret hstep, hintact.defs _ _ h.node⟩

/-- **The heap in every reachable state.** The program may use `rpc` and `get_distance`. -/
theorem Reachable.heap {program : Program D} {funcString : Str} {param : Value D}
    (h : Reachable program funcString param m) : m.HeapWF 0 := by
  obtain ⟨m₀, hosts, hstart, hrun⟩ := h
  refine run_invariant' (fun m host m' hm hstep ↦ hm.step hstep) ?_ hrun
  rw [start] at hstart
  cases hr : Interp.start program funcString param .new with
  | error e =>
    rw [hr] at hstart
    cases hstart
  | ok r =>
    rw [hr] at hstart
    cases hstart
    obtain ⟨⟨hwf, hnode⟩, ts, hts, hlen⟩ := (Interp.start_heap program funcString param).run hr
    exact ⟨hwf, ⟨r.1.2, ts, rfl, hts, hlen⟩, hnode⟩

end Machine

end Meridian.MQL

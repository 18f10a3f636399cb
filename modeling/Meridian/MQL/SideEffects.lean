import Meridian.MQL.HeapSteps
import Meridian.MQL.Ownership
import Meridian.MQL.Accounting
import Meridian.Lib.Follows

/-!
# What the evaluation of an expression changes

An expression (`Ast.Operation`) reads variables, entries of arrays and fields of structs, and it
computes: a binary operator puts its result into a new node. A unary operator does not, it writes
the result over its operand. If that is a variable or a literal, evaluating the expression has
changed it.

* `Machine.Overwrites` is the moment before that happens, and `Machine.Spares` says that nothing
  that the evaluation has found is changed there.
* `ParserState.Grown`: all that the evaluation has done so far is to put nodes behind those of the
  table at the top of the stack.
* `Ast.Sparing`: in an expression that applies unary operators to nothing but what other operators
  have computed, every step spares what was there.
-/

namespace Meridian.MQL

open Lib (Runs Meets Follows)
open Interp

variable {D : Type} {L : Addr → Prop}

/-! ### Expressions -/

/-- Literals that satisfy `L`, variables, entries of arrays and fields of structs, and what the
operators make of them. -/
inductive Ast.Operation (L : Addr → Prop) : Ast → Prop
  | literal {a : Addr} (h : L a) : Operation L (.literal a)
  | refVar (name : Str) : Operation L (.refVar name)
  | refVarArray {nameAst accessAst : Ast} (hname : Operation L nameAst)
      (haccess : Operation L accessAst) : Operation L (.refVarArray nameAst accessAst)
  | refVarAdt {nameAst : Ast} (hname : Operation L nameAst) (dotName : Str) :
      Operation L (.refVarAdt nameAst dotName)
  | unary (op : UnaryOp) {node : Ast} (hnode : Operation L node) : Operation L (.unary op node)
  | bin (op : BinOp) {left right : Ast} (hleft : Operation L left) (hright : Operation L right) :
      Operation L (.bin op left right)

/-- The operands of an operation are operations. -/
theorem Ast.Operation.of_mem_operands {c d : Ast} (h : c.Operation L) (hd : d ∈ c.operands) :
    d.Operation L := by
  cases h with
  | literal h => cases hd
  | refVar name => cases hd
  | refVarArray hname haccess =>
    rcases List.mem_cons.1 hd with rfl | hd
    · exact haccess
    · exact List.mem_singleton.1 hd ▸ hname
  | refVarAdt hname dotName => exact List.mem_singleton.1 hd ▸ hname
  | unary op hnode => exact List.mem_singleton.1 hd ▸ hnode
  | bin op hleft hright =>
    rcases List.mem_cons.1 hd with rfl | hd
    · exact hright
    · exact List.mem_singleton.1 hd ▸ hleft

/-! ### Nodes behind those of a table -/

/-- These nodes behind those of the table. -/
def VarTable.grow (X : List (Node D)) (tbl : VarTable D) : VarTable D :=
  { tbl with vStackAst := tbl.vStackAst ++ X }

namespace ParserState

/-- Nothing has been done but to put these nodes behind those of the table at the top. -/
structure Grown (s : ParserState D) (X : List (Node D)) (s' : ParserState D) : Prop where
  varTable : s'.varTable = s.varTable
  tables : ∀ t, s'.tables t =
    (s.tables t).map fun tbl ↦ if s.varTable.head? = some t then tbl.grow X else tbl
  plain : ∀ n ∈ X, n.aux = none
  count : s.astAllocationCount ≤ s'.astAllocationCount

variable {s s' s'' : ParserState D} {X : List (Node D)} {a : Addr} {n n' : Node D} {t : TableId}
  {tbl : VarTable D} {j : ℕ}

/-- No node is new yet. -/
theorem Grown.refl (s : ParserState D) : Grown s [] s := by
  refine ⟨rfl, fun t ↦ ?_, fun n hn ↦ absurd hn List.not_mem_nil, le_rfl⟩
  simp only [VarTable.grow, List.append_nil, ite_self, Option.map_id']

/-- Only the tables count. -/
theorem Grown.of_tables (h : Grown s X s') (htables : s''.tables = s'.tables)
    (hvarTable : s''.varTable = s'.varTable)
    (hcount : s'.astAllocationCount ≤ s''.astAllocationCount) : Grown s X s'' := by
  refine ⟨hvarTable.trans h.varTable, fun t ↦ ?_, h.plain, h.count.trans hcount⟩
  rw [htables]
  exact h.tables t

/-- Texts, vectors and maps are not touched. -/
theorem Grown.content_aux (h : Grown s X s') (k : Store) (b : Addr) :
    s'.content (.aux k b) = s.content (.aux k b) := by
  show (s'.tables b.table).bind _ = (s.tables b.table).bind _
  rw [h.tables, Option.bind_map]
  congr 1
  funext tbl
  rw [Function.comp_apply]
  split
  · cases k <;> rfl
  · rfl

/-- A node is an old one or one of those behind the table at the top. -/
theorem Grown.content_node (h : Grown s X s') (a : Addr) :
    s'.content (.node a) = (s.tables a.table).bind fun tbl ↦
      (if s.varTable.head? = some a.table then tbl.vStackAst ++ X else tbl.vStackAst)[a.index]?.map
        .node := by
  show (s'.tables a.table).bind _ = _
  rw [h.tables, Option.bind_map]
  congr 1
  funext tbl
  rw [Function.comp_apply]
  show VarTable.content _ (.node a) = _
  split <;> rfl

/-- The other tables do not change. -/
theorem Grown.tables_of_ne (h : Grown s X s') (hhead : s.varTable.head? = some t) {u : TableId}
    (hu : u ≠ t) (Y : List (Node D)) :
    s'.tables u =
      (s.tables u).map fun tbl ↦ if s.varTable.head? = some u then tbl.grow Y else tbl := by
  have hne : ¬ s.varTable.head? = some u := fun heq ↦ hu (Option.some.inj (heq.symm.trans hhead))
  rw [h.tables]
  simp only [if_neg hne]

/-- **What was there is as it was.** -/
theorem Grown.content_eq (h : Grown s X s') {c : Cell} {x : Content D}
    (hc : s.content c = some x) : s'.content c = some x := by
  cases c with
  | aux k b => rwa [h.content_aux]
  | node a =>
    obtain ⟨tbl, ht, hx⟩ := content_eq_some hc
    obtain ⟨n, hn, rfl⟩ := Option.map_eq_some_iff.1 hx
    have hlt := (List.getElem?_eq_some_iff.1 hn).1
    rw [h.content_node, show s.tables a.table = _ from ht, Option.bind_some]
    split
    · rw [List.getElem?_append_left hlt, hn]
      rfl
    · rw [hn]
      rfl

/-- A node that was not there is one of the new ones. -/
theorem Grown.new_cases (h : Grown s X s') (hnew : s.New (.node a))
    (hn : s'.content (.node a) = some (.node n)) :
    s.varTable.head? = some a.table ∧ ∃ tbl j, s.tables a.table = some tbl ∧
      a.index = tbl.vStackAst.length + j ∧ X[j]? = some n := by
  rw [h.content_node] at hn
  obtain ⟨tbl, ht, hn⟩ := content_eq_some hn
  obtain ⟨m, hm, heq⟩ := Option.map_eq_some_iff.1 hn
  cases heq
  have hout : tbl.vStackAst[a.index]? = none := by
    have hnew : (s.tables a.table).bind (fun tbl ↦ tbl.content (.node a)) = none := hnew
    rw [ht, Option.bind_some] at hnew
    exact Option.map_eq_none_iff.1 hnew
  split at hm
  · next hhead =>
    have hle := List.getElem?_eq_none_iff.1 hout
    refine ⟨hhead, tbl, a.index - tbl.vStackAst.length, ht, by omega, ?_⟩
    rwa [List.getElem?_append_right hle] at hm
  · exact absurd (hout.symm.trans hm) (by simp)

/-- The nodes that are new. -/
theorem Grown.content_new (h : Grown s X s') (hhead : s.varTable.head? = some t)
    (ht : s.tables t = some tbl) (hj : X[j]? = some n) :
    s'.content (.node ⟨t, tbl.vStackAst.length + j⟩) = some (.node n) := by
  rw [h.content_node]
  show (s.tables t).bind _ = _
  rw [ht, Option.bind_some]
  show Option.map _ (if s.varTable.head? = some t then _ else _)[tbl.vStackAst.length + j]? = _
  rw [if_pos hhead, List.getElem?_append_right (Nat.le_add_right ..), Nat.add_sub_cancel_left, hj]
  rfl

/-- A node behind those of its table is new. -/
theorem new_of_index (ht : s.tables t = some tbl) (j : ℕ) :
    s.New (.node ⟨t, tbl.vStackAst.length + j⟩) := by
  show (s.tables t).bind _ = none
  rw [ht, Option.bind_some]
  exact Option.map_eq_none_iff.2 (List.getElem?_eq_none (Nat.le_add_right ..))

/-! ### The two ways in which it grows -/

/-- A node that is there can be overwritten. -/
theorem runs_setNode (hn : s.content (.node a) = some (.node n)) (n' : Node D) :
    ∃ tbl, s.tables a.table = some tbl ∧ tbl.vStackAst[a.index]? = some n ∧
      Runs (Interp.setNode a n') s () (s.withTable a.table
        { tbl with vStackAst := tbl.vStackAst.set a.index n' }) := by
  obtain ⟨tbl, ht, hn⟩ := nodeAt_iff.2 hn
  refine ⟨tbl, ht, hn, ?_⟩
  refine Lib.runs_bind.2 ⟨tbl, s, runs_getTable ht, Lib.runs_bind.2 ⟨n, s, runs_cell hn, ?_⟩⟩
  exact Lib.runs_modify.2 rfl

/-- One of the new nodes is overwritten. -/
theorem Grown.setNode (h : Grown s X s') (hhead : s.varTable.head? = some t)
    (ht : s.tables t = some tbl) (hj : X[j]? = some n) (hplain : n'.aux = none) :
    ∃ s'', Runs (Interp.setNode ⟨t, tbl.vStackAst.length + j⟩ n') s' () s'' ∧
      Grown s (X.set j n') s'' ∧ s''.astAllocationCount = s'.astAllocationCount := by
  obtain ⟨tbl', ht', -, hrun⟩ := runs_setNode (h.content_new hhead ht hj) n'
  refine ⟨_, hrun, ⟨h.varTable, fun u ↦ ?_, fun m hm ↦ ?_, h.count⟩, rfl⟩
  · have ht' : s'.tables t = some tbl' := ht'
    rw [h.tables, ht, Option.map_some, if_pos hhead, Option.some.injEq] at ht'
    subst ht'
    by_cases hu : u = t
    · subst hu
      show (s'.withTable u _).tables u = _
      rw [withTable_same, ht, Option.map_some, if_pos hhead]
      simp only [VarTable.grow, List.set_append_right _ _ (Nat.le_add_right ..),
        Nat.add_sub_cancel_left]
    · show (s'.withTable t _).tables u = _
      rw [withTable_of_ne hu]
      exact h.tables_of_ne hhead hu _
  · rcases List.mem_or_eq_of_mem_set hm with hm | rfl
    · exact h.plain m hm
    · exact hplain

/-- A node is overwritten with what it holds. -/
theorem runs_setNode_self (hn : s.content (.node a) = some (.node n)) :
    Runs (Interp.setNode a n) s () s := by
  obtain ⟨tbl, ht, hn, hrun⟩ := runs_setNode hn n
  have hsame : s.withTable a.table { tbl with vStackAst := tbl.vStackAst.set a.index n } = s := by
    obtain ⟨hlt, rfl⟩ := List.getElem?_eq_some_iff.1 hn
    rw [List.set_getElem_self, withTable, ← ht, Function.update_eq_self]
  rwa [hsame] at hrun

/-- A new node. -/
theorem Grown.newStackAst (h : Grown s X s') (hhead : s.varTable.head? = some t)
    (ht : s.tables t = some tbl) (hplain : n.aux = none) (hroom : ¬ s'.Refuses) :
    ∃ s'', Runs (Interp.newStackAst t (pure n)) s'
        (some ⟨t, tbl.vStackAst.length + X.length⟩) s'' ∧
      Grown s (X ++ [n]) s'' ∧ s''.astAllocationCount = s'.astAllocationCount + 1 := by
  rw [refuses_iff, not_le] at hroom
  have hnew : Runs Interp.newAst s' true
      { s' with astAllocationCount := s'.astAllocationCount + 1 } := by
    simpa [Interp.newAst] using Nat.succ_le_of_lt hroom
  have ht' : s'.tables t = some (tbl.grow X) := by
    rw [h.tables, ht, Option.map_some, if_pos hhead]
  have hindex : (⟨t, (tbl.grow X).vStackAst.length⟩ : Addr) =
      ⟨t, tbl.vStackAst.length + X.length⟩ := by
    rw [VarTable.grow, List.length_append]
  have hrun : Runs (Interp.newStackAst t (pure n)) s' (some ⟨t, tbl.vStackAst.length + X.length⟩)
      { s' with
        astAllocationCount := s'.astAllocationCount + 1
        tables := Function.update s'.tables t
          (some { tbl.grow X with vStackAst := (tbl.grow X).vStackAst ++ [n] }) } :=
    Lib.runs_bind.2 ⟨true, _, hnew, Lib.runs_bind.2 ⟨n, _, Lib.runs_pure.2 ⟨rfl, rfl⟩,
      Lib.runs_bind.2 ⟨_, _, runs_getTable ht', Lib.runs_bind.2 ⟨(), _, Lib.runs_modify.2 rfl,
        Lib.runs_pure.2 ⟨congrArg some hindex, rfl⟩⟩⟩⟩⟩
  refine ⟨_, hrun, ⟨h.varTable, fun u ↦ ?_, fun m hm ↦ ?_, h.count.trans (Nat.le_succ _)⟩, rfl⟩
  · by_cases hu : u = t
    · subst hu
      show Function.update s'.tables u _ u = _
      rw [Function.update_self, ht, Option.map_some, if_pos hhead, VarTable.grow, VarTable.grow,
        List.append_assoc]
    · show Function.update s'.tables t _ u = _
      rw [Function.update_of_ne hu]
      exact h.tables_of_ne hhead hu _
  · rcases List.mem_append.1 hm with hm | hm
    · exact h.plain m hm
    · exact List.mem_singleton.1 hm ▸ hplain

/-- No new node, where the limit has been reached. -/
theorem Grown.newStackAst_refused (h : Grown s X s') (hfull : s'.Refuses)
    (init : Interp D (Node D)) : ∃ s'', Runs (Interp.newStackAst t init) s' none s'' ∧
      Grown s X s'' ∧ s''.astAllocationCount = s'.astAllocationCount + 1 := by
  rw [refuses_iff] at hfull
  have hnew : Runs Interp.newAst s' false
      { s' with astAllocationCount := s'.astAllocationCount + 1 } := by
    simpa [Interp.newAst] using Nat.lt_succ_of_le hfull
  exact ⟨_, Lib.runs_bind.2 ⟨false, _, hnew, Lib.runs_pure.2 ⟨rfl, rfl⟩⟩,
    h.of_tables rfl rfl (Nat.le_succ _), rfl⟩

end ParserState

open ParserState

/-! ### What a node does once its operands have been evaluated -/

section Single

variable [CDouble D] {s s' : ParserState D} {X : List (Node D)} {n n' : Node D} {c : Ast}
  {t : TableId} {op : UnaryOp}

/-- What a unary operator writes over its operand. -/
def UnaryOp.overwrite : UnaryOp → Node D → Option (Node D)
  | .minus, .int i => some (.int (-1 * i))
  | .minus, .double d => some (.double (CDouble.mul (CDouble.ofInt (-1)) d))
  | .not, .int i => some (.int (ofBool (i == 0)))
  | _, _ => none

/-- The result of a unary operation is a number. -/
theorem UnaryOp.overwrite_plain (h : op.overwrite n = some n') : n'.aux = none := by
  cases op <;> cases n <;> cases h <;> rfl

/-- The result of an operation on doubles is a number, or raw. -/
theorem arithDouble_plain {op : BinOp} {x y : D} (h : arithDouble op x y = some n) :
    n.aux = none := by
  cases op <;> cases h <;> rfl

namespace Interp

/-- The node of the operand is overwritten, if the operator applies to it. -/
def overwriteNode (op : UnaryOp) (p : Ptr) : Option (Addr × Node D) → Interp D Ptr
  | some (a, n) =>
    match op.overwrite n with
    | some n' => do
      setNode a n'
      pure p
    | none => pure .empty
  | none => pure .empty

/-- The operand is read and then overwritten. -/
theorem unaryOperation_eq (op : UnaryOp) (p : Ptr) :
    unaryOperation (D := D) op p = nodeAt p >>= overwriteNode op p := by
  refine bind_congr fun o ↦ ?_
  rcases o with - | ⟨a, n⟩
  · cases op <;> rfl
  · cases op <;> cases n <;> rfl

/-- Nothing but a new node is written to, or a node with what it holds. -/
theorem unaryOperation_grown (h : Grown s X s') (p : Ptr)
    (hspare : ∀ a n n', p = .node a → s'.content (.node a) = some (.node n) →
      op.overwrite n = some n' → s.New (.node a) ∨ n = n') :
    Ensures (unaryOperation op p) s' fun _ s'' ↦ ∃ Y, Grown s Y s'' := by
  rw [unaryOperation_eq]
  refine Lib.meets_bind.2 (nodeAt_ensures (fun a n hp hn ↦ ?_) fun _ _ ↦ ⟨X, h⟩)
  have hn := nodeAt_iff.1 hn
  rw [overwriteNode]
  split
  · next n' hover =>
    refine Lib.meets_bind.2 ?_
    rcases hspare a n n' hp hn hover with hnew | rfl
    · obtain ⟨hhead, tbl, j, ht, hj, hX⟩ := h.new_cases hnew hn
      obtain ⟨s'', hrun, hgrown, -⟩ := h.setNode hhead ht hX (UnaryOp.overwrite_plain hover)
      rw [← hj] at hrun
      exact hrun.meets ⟨_, hgrown⟩
    · exact (runs_setNode_self hn).meets ⟨X, h⟩
  · exact ⟨X, h⟩

omit [CDouble D] in
/-- One more new node, or none. -/
theorem newStackAst_grown (h : Grown s X s') (hhead : s.varTable.head? = some t)
    (hplain : n.aux = none) :
    Ensures (newStackAst t (pure n)) s' fun _ s'' ↦ ∃ Y, Grown s Y s'' := by
  by_cases hfull : s'.Refuses
  · obtain ⟨s'', hrun, hgrown, -⟩ := h.newStackAst_refused hfull (pure n)
    exact hrun.meets ⟨X, hgrown⟩
  cases ht : s.tables t with
  | some tbl =>
    obtain ⟨s'', hrun, hgrown, -⟩ := h.newStackAst hhead ht hplain hfull
    exact hrun.meets ⟨_, hgrown⟩
  | none =>
    -- there is no table for the node
    refine Lib.meets_bind.2 (Lib.meets_ite.2 ⟨fun _ ↦ ?_, fun _ ↦
      ⟨X, h.of_tables rfl rfl (Nat.le_succ _)⟩⟩)
    refine Lib.meets_bind.2 (Lib.meets_bind.2 (getTable_ensures fun tbl ht' ↦ ?_))
    have ht' : s'.tables t = some tbl := ht'
    rw [h.tables, ht] at ht'
    exact absurd ht' (by simp)

/-- The result is a new node. -/
theorem arithOperation_grown (h : Grown s X s') (op : BinOp) (p q : Ptr) :
    Ensures (arithOperation op p q) s' fun _ s'' ↦ ∃ Y, Grown s Y s'' := by
  refine Lib.meets_bind.2 (getVarTable_ensures fun t ts hts ↦ ?_)
  have hhead : s.varTable.head? = some t := by
    rw [← h.varTable, hts]
    rfl
  have hraw := newStackAst_grown (n := .raw) h hhead rfl
  refine (nodeAt_readOnly p).then fun o ↦ (nodeAt_readOnly q).then fun o' ↦ ?_
  split
  · split
    · exact Lib.meets_bind.2 ((newStackAst_grown h hhead rfl).mono fun _ _ hY ↦ hY)
    · refine Lib.meets_bind.2 (hraw.mono fun r s'' hY ↦ ?_)
      split
      · exact trivial
      · exact hY
  · split
    · next x y n hn =>
      have hplain : n.aux = none := arithDouble_plain hn
      exact Lib.meets_bind.2 ((newStackAst_grown h hhead hplain).mono fun _ _ hY ↦ hY)
    · exact Lib.meets_bind.2 (hraw.mono fun _ _ hY ↦ hY)
  · exact Lib.meets_bind.2 (hraw.mono fun _ _ hY ↦ hY)

/-- A node is evaluated, or an operator is applied. -/
theorem apply_grown (host : Host D) (hc : c.Operation L) (h : Grown s X s') (ev : List Ptr)
    (hspare : ∀ op node a n n', c = .unary op node → ev = [.node a] →
      s'.content (.node a) = some (.node n) → op.overwrite n = some n' →
        s.New (.node a) ∨ n = n') :
    Ensures (apply host c ev) s' fun _ s'' ↦ ∃ Y, Grown s Y s'' := by
  have hread : ∀ {m : Interp D Ptr}, Lib.ReadOnly m →
      Ensures m s' fun _ s'' ↦ ∃ Y, Grown s Y s'' := by
    intro m hm
    refine (hm s').mono ?_
    rintro _ _ rfl
    exact ⟨X, h⟩
  cases hc with
  | literal ha => exact hread (evalValue_readOnly _)
  | refVar name =>
    exact hread (getVarTable_readOnly.bind fun t ↦ (lookup_readOnly t name).bind fun _ ↦ .pure _)
  | refVarArray hname haccess =>
    rcases ev with - | ⟨p, - | ⟨q, - | ⟨r, ev⟩⟩⟩
    · exact hread (.pure _)
    · exact hread (.pure _)
    · exact hread (arrayAccess_readOnly q p)
    · exact hread (.pure _)
  | refVarAdt hname dotName =>
    rcases ev with - | ⟨p, - | ⟨q, ev⟩⟩
    · exact hread (.pure _)
    · exact hread (adtAccess_readOnly p dotName)
    · exact hread (.pure _)
  | unary op hnode =>
    rcases ev with - | ⟨p, - | ⟨q, ev⟩⟩
    · exact hread (.pure _)
    · exact unaryOperation_grown h p fun a n n' hp ↦ hspare op _ a n n' rfl (hp ▸ rfl)
    · exact hread (.pure _)
  | bin op hleft hright =>
    rcases ev with - | ⟨p, - | ⟨q, - | ⟨r, ev⟩⟩⟩
    · exact hread (.pure _)
    · exact hread (.pure _)
    · refine (typeOf_readOnly p).then fun ty ↦ Lib.meets_ite.2 ⟨fun _ ↦ ⟨X, h⟩, fun _ ↦ ?_⟩
      refine (typeOf_readOnly q).then fun ty ↦ Lib.meets_ite.2 ⟨fun _ ↦ ⟨X, h⟩, fun _ ↦ ?_⟩
      exact arithOperation_grown h op q p
    · exact hread (.pure _)

end Interp

/-! ### The evaluation of an expression -/

/-- What is under way is the evaluation of an expression. -/
inductive Ctrl.Operation (L : Addr → Prop) : Ctrl → Prop
  | eval {c : Ast} (rc : ℕ) (hc : c.Operation L) : Operation L (.eval c rc)
  | ret (p : Ptr) : Operation L (.ret p)

/-- What waits is the evaluation of an expression. -/
inductive Frame.Operation (L : Addr → Prop) : Frame → Prop
  | operands {c : Ast} (ev : List Ptr) {pending : List Ast} (rc : ℕ) (hc : c.Operation L)
      (hpending : ∀ d ∈ pending, d.Operation L) : Operation L (.operands c ev pending rc)

/-- The machine evaluates an expression. -/
structure Machine.Evaluates (L : Addr → Prop) (m : Machine D) : Prop where
  ctrl : m.ctrl.Operation L
  stack : ∀ frame ∈ m.stack, frame.Operation L

/-- The next step writes `n'` over the node `a`: it applies a unary operator. -/
def Machine.Overwrites (m : Machine D) (a : Addr) (n' : Node D) : Prop :=
  ∃ op node rc stack n, m.ctrl = .ret (.node a) ∧
    m.stack = .operands (.unary op node) [] [] rc :: stack ∧
    m.ps.content (.node a) = some (.node n) ∧ op.overwrite n = some n'

/-- What the next step overwrites was not there in the state `s`, or it is overwritten with what it
holds. -/
def Machine.Spares (s : ParserState D) (m : Machine D) : Prop :=
  ∀ a n', m.Overwrites a n' → s.New (.node a) ∨ m.ps.content (.node a) = some (.node n')

namespace Interp

/-- What comes next in the evaluation of an expression, after this. -/
def NextGrown (L : Addr → Prop) (s : ParserState D) (r : Next) (s' : ParserState D) : Prop :=
  (r.1.Operation L ∧ ∀ frame ∈ r.2, frame.Operation L) ∧ ∃ Y, Grown s Y s'

omit [CDouble D] in
/-- An operation has no checks between its operands. -/
theorem proceed_operation {c : Ast} (hc : c.Operation L) (ev : List Ptr) :
    proceed (D := D) c ev = pure true := by
  cases hc <;> rfl

/-- The next operand, or the operation itself, which overwrites no old node. -/
theorem nextOperand_grown (host : Host D) (hc : c.Operation L) (h : Grown s X s') (ev : List Ptr)
    {pending : List Ast} (hpending : ∀ d ∈ pending, d.Operation L) (rc : ℕ)
    (hspare : ∀ op node a n n', c = .unary op node → ev = [.node a] → pending = [] →
      s'.content (.node a) = some (.node n) → op.overwrite n = some n' →
        s.New (.node a) ∨ n = n') :
    Ensures (nextOperand host c ev pending rc) s' (NextGrown L s) := by
  refine Lib.meets_bind.2 ?_
  rw [proceed_operation hc]
  refine Lib.meets_ite.2 ⟨fun _ ↦ ?_, fun hfalse ↦ absurd rfl hfalse⟩
  cases pending with
  | nil =>
    refine Lib.meets_bind.2 ((apply_grown host hc h ev ?_).mono fun p s'' hgrown ↦ ?_)
    · exact fun op node a n n' hunary hev ↦ hspare op node a n n' hunary hev rfl
    · exact ⟨⟨.ret p, fun _ hf ↦ absurd hf List.not_mem_nil⟩, hgrown⟩
  | cons d ds =>
    refine ⟨⟨.eval _ (hpending d (List.mem_cons_self ..)), fun frame hf ↦ ?_⟩, X, h⟩
    rw [List.mem_singleton.1 hf]
    exact .operands ev rc hc fun e he ↦ hpending e (List.mem_cons_of_mem d he)

omit [CDouble D] in
/-- Only the slice is counted. -/
theorem enter_grown (h : Grown s X s') (rc : ℕ) :
    Ensures (enter rc) s' fun _ s'' ↦ Grown s X s'' := by
  refine Lib.meets_ite.2 ⟨fun _ ↦ h, fun _ ↦ Lib.meets_bind.2 ?_⟩
  show Grown s X (if s'.evalCount = -1 then s' else _)
  split
  · exact h
  · exact h.of_tables rfl rfl le_rfl

/-- An operation starts with its first operand. -/
theorem evalNode_grown (host : Host D) (hc : c.Operation L) (h : Grown s X s') (rc : ℕ) :
    Ensures (evalNode host c rc) s' (NextGrown L s) := by
  have hnext : ∀ s'', Grown s X s'' →
      Ensures (nextOperand host c [] c.operands rc) s'' (NextGrown L s) := by
    intro s'' h
    refine nextOperand_grown host hc h [] (fun d hd ↦ hc.of_mem_operands hd) rc ?_
    intro op node a n n' _ hev
    cases hev
  refine Lib.meets_bind.2 ((enter_grown h rc).mono fun b s'' h' ↦ Lib.meets_ite.2
    ⟨fun _ ↦ ?_, fun _ ↦ ?_⟩)
  · cases hc <;> exact hnext _ h'
  · exact ⟨⟨.ret _, fun _ hf ↦ absurd hf List.not_mem_nil⟩, X, h'⟩

end Interp

/-- **One step** changes nothing that was there, if it spares it. -/
theorem Machine.Evaluates.step {m m' : Machine D} {host : Host D} (hm : m.Evaluates L)
    (h : Grown s X m.ps) (hspare : m.Spares s) (hstep : m.step? host = some m') :
    m'.Evaluates L ∧ ∃ Y, Grown s Y m'.ps := by
  obtain ⟨ctrl, stack, ps⟩ := m
  have hnext : ∀ {i : Interp D Interp.Next} {rest : List Frame},
      (∀ frame ∈ rest, frame.Operation L) → Ensures i ps (Interp.NextGrown L s) →
        (i ps).map (Machine.next rest) = .ok m' → m'.Evaluates L ∧ ∃ Y, Grown s Y m'.ps := by
    intro i rest hrest hi hok
    cases hips : i ps with
    | error e =>
      rw [hips] at hok
      cases hok
    | ok r =>
      rw [hips] at hok
      obtain rfl := Except.ok.inj hok
      obtain ⟨⟨hctrl, hframes⟩, hgrown⟩ := hi.run hips
      refine ⟨⟨hctrl, fun frame hf ↦ ?_⟩, hgrown⟩
      exact (List.mem_append.1 hf).elim (hframes frame) (hrest frame)
  have hok : Machine.step host ⟨ctrl, stack, ps⟩ = .ok m' := Machine.step?_eq_some hstep
  -- an operation is evaluated from its node or resumed with an operand
  cases hm.ctrl with
  | eval rc hc => exact hnext hm.stack (Interp.evalNode_grown host hc h rc) hok
  | ret p =>
    cases stack with
    | nil => cases hok
    | cons frame rest =>
      have hrest : ∀ frame ∈ rest, frame.Operation L :=
        fun f hf ↦ hm.stack f (List.mem_cons_of_mem frame hf)
      cases hm.stack frame (List.mem_cons_self ..) with
      | operands ev rc hc hpending =>
        refine hnext hrest (Interp.nextOperand_grown host hc h _ hpending rc ?_) hok
        intro op node a n n' hunary hev hnil hn hover
        -- the operand of a unary operation is its first
        subst hunary hnil
        obtain ⟨rfl, hp⟩ : ev = [] ∧ p = .node a := by
          cases ev with
          | nil => exact ⟨rfl, (List.cons.inj hev).1⟩
          | cons q ev => exact absurd (congrArg List.length hev) (by simp)
        subst hp
        refine (hspare a n' ⟨op, node, rc, rest, n, rfl, rfl, hn, hover⟩).imp_right fun hsame ↦ ?_
        cases hn.symm.trans hsame
        rfl

/-- A step that does not spare what was there changes it. -/
theorem Machine.exists_step_of_not_spares {m : Machine D} (host : Host D) (h : Grown s X m.ps)
    (hspare : ¬ m.Spares s) :
    ∃ m', m.step? host = some m' ∧ ∃ c x, s.content c = some x ∧ m'.ps.content c ≠ some x := by
  simp only [Machine.Spares, not_forall, not_or] at hspare
  obtain ⟨a, n', ⟨op, node, rc, stack, n, hctrl, hstack, hn, hover⟩, hold, hne⟩ := hspare
  obtain ⟨ctrl, stack', ps⟩ := m
  obtain rfl : ctrl = .ret (.node a) := hctrl
  obtain rfl : stack' = .operands (.unary op node) [] [] rc :: stack := hstack
  obtain ⟨x, hx⟩ := Option.ne_none_iff_exists'.1 hold
  obtain ⟨ps', hset⟩ : ∃ ps', Runs (Interp.setNode a n') ps () ps' := by
    obtain ⟨tbl, -, -, hset⟩ := runs_setNode hn n'
    exact ⟨_, hset⟩
  have hunary : Runs (Interp.unaryOperation op (.node a)) ps (.node a) ps' := by
    rw [Interp.unaryOperation_eq]
    refine Lib.runs_bind.2 ⟨some (a, n), ps, runs_nodeAt hn, ?_⟩
    rw [Interp.overwriteNode, hover]
    exact Lib.runs_bind.2 ⟨(), _, hset, Lib.runs_pure.2 ⟨rfl, rfl⟩⟩
  have hnext : Runs (Interp.nextOperand host (.unary op node) [.node a] [] rc) ps
      (.ret (.node a), []) ps' :=
    Lib.runs_bind.2 ⟨true, ps, Lib.runs_pure.2 ⟨rfl, rfl⟩,
      Lib.runs_bind.2 ⟨.node a, _, hunary, Lib.runs_pure.2 ⟨rfl, rfl⟩⟩⟩
  have hstep : Machine.step host
      ⟨.ret (.node a), .operands (.unary op node) [] [] rc :: stack, ps⟩ =
        .ok ⟨.ret (.node a), stack, ps'⟩ := by
    show (Interp.nextOperand host (.unary op node) [.node a] [] rc ps).map _ = _
    rw [show Interp.nextOperand host (.unary op node) [.node a] [] rc ps = _ from hnext]
    rfl
  refine ⟨_, by rw [Machine.step?, hstep], .node a, x, hx, ?_⟩
  have hwritten := (setNode_writes (s := ps) a n').run hset
  rw [hwritten.2, ← h.content_eq hx]
  exact fun heq ↦ hne heq.symm

end Single

/-! ### Expressions that spare everything -/

/-- The result is a new node, if it is a node. -/
inductive Ast.Computed : Ast → Prop
  | bin (op : BinOp) (left right : Ast) : Computed (.bin op left right)
  | unary (op : UnaryOp) {node : Ast} (hnode : Computed node) : Computed (.unary op node)

/-- Unary operators are applied to nothing but what operators have computed. -/
inductive Ast.Sparing (L : Addr → Prop) : Ast → Prop
  | literal {a : Addr} (h : L a) : Sparing L (.literal a)
  | refVar (name : Str) : Sparing L (.refVar name)
  | refVarArray {nameAst accessAst : Ast} (hname : Sparing L nameAst)
      (haccess : Sparing L accessAst) : Sparing L (.refVarArray nameAst accessAst)
  | refVarAdt {nameAst : Ast} (hname : Sparing L nameAst) (dotName : Str) :
      Sparing L (.refVarAdt nameAst dotName)
  | unary (op : UnaryOp) {node : Ast} (hnode : Sparing L node) (hcomputed : node.Computed) :
      Sparing L (.unary op node)
  | bin (op : BinOp) {left right : Ast} (hleft : Sparing L left) (hright : Sparing L right) :
      Sparing L (.bin op left right)

/-- What spares its operands is an operation. -/
theorem Ast.Sparing.operation {c : Ast} (h : c.Sparing L) : c.Operation L := by
  induction h with
  | literal h => exact .literal h
  | refVar name => exact .refVar name
  | refVarArray _ _ hname haccess => exact .refVarArray hname haccess
  | refVarAdt _ dotName hname => exact .refVarAdt hname dotName
  | unary op _ _ hnode => exact .unary op hnode
  | bin op _ _ hleft hright => exact .bin op hleft hright

/-- The operands of such an operation are such operations. -/
theorem Ast.Sparing.of_mem_operands {c d : Ast} (h : c.Sparing L) (hd : d ∈ c.operands) :
    d.Sparing L := by
  cases h with
  | literal h => cases hd
  | refVar name => cases hd
  | refVarArray hname haccess =>
    rcases List.mem_cons.1 hd with rfl | hd
    · exact haccess
    · exact List.mem_singleton.1 hd ▸ hname
  | refVarAdt hname dotName => exact List.mem_singleton.1 hd ▸ hname
  | unary op hnode hcomputed => exact List.mem_singleton.1 hd ▸ hnode
  | bin op hleft hright =>
    rcases List.mem_cons.1 hd with rfl | hd
    · exact hright
    · exact List.mem_singleton.1 hd ▸ hleft

/-- If the pointer leads to a node, it is a new one. -/
def ParserState.Recent (s : ParserState D) (p : Ptr) : Prop := ∀ a, p = .node a → s.New (.node a)

/-- What is under way yields a value, and if `recent`, a new one. -/
inductive Ctrl.Yields (L : Addr → Prop) (s : ParserState D) : Ctrl → Prop → Prop
  | eval {c : Ast} (hc : c.Sparing L) (rc : ℕ) : Yields L s (.eval c rc) c.Computed
  | ret (p : Ptr) : Yields L s (.ret p) (s.Recent p)

/-- The frames wait for a value, which is new if `recent`. A unary operator needs a new one. -/
inductive Frame.Wait (L : Addr → Prop) : Prop → List Frame → Prop
  | nil (recent : Prop) : Wait L recent []
  | operands {recent : Prop} {c : Ast} {ev : List Ptr} {pending : List Ast} (rc : ℕ)
      {stack : List Frame} (hc : c.Sparing L) (hpending : ∀ d ∈ pending, d.Sparing L)
      (hunary : ∀ op node, c = .unary op node → recent ∧ ev = [] ∧ pending = [])
      (hstack : Wait L c.Computed stack) : Wait L recent (.operands c ev pending rc :: stack)

/-- A weaker condition on what is waited for. -/
theorem Frame.Wait.mono {P Q : Prop} {stack : List Frame} (h : Frame.Wait L P stack)
    (hPQ : P → Q) : Frame.Wait L Q stack := by
  cases h with
  | nil => exact .nil Q
  | operands rc hc hpending hunary hstack =>
    refine .operands rc hc hpending (fun op node heq ↦ ?_) hstack
    exact ⟨hPQ (hunary op node heq).1, (hunary op node heq).2⟩

/-- The frames that wait are those of operations. -/
theorem Frame.Wait.operation {P : Prop} {stack : List Frame} (h : Frame.Wait L P stack) :
    ∀ frame ∈ stack, frame.Operation L := by
  induction h with
  | nil => exact fun _ hf ↦ absurd hf List.not_mem_nil
  | operands rc hc hpending hunary _ ih =>
    refine List.forall_mem_cons.2 ⟨?_, ih⟩
    exact .operands _ rc hc.operation fun d hd ↦ (hpending d hd).operation

/-- The machine evaluates an expression that spares what was there in the state `s`. -/
def Machine.Sparing (L : Addr → Prop) (s : ParserState D) (m : Machine D) : Prop :=
  ∃ recent, m.ctrl.Yields L s recent ∧ Frame.Wait L recent m.stack

/-- The machine evaluates an operation. -/
theorem Machine.Sparing.evaluates {s : ParserState D} {m : Machine D} (h : m.Sparing L s) :
    m.Evaluates L := by
  obtain ⟨recent, hctrl, hstack⟩ := h
  refine ⟨?_, hstack.operation⟩
  obtain ⟨ctrl, stack, ps⟩ := m
  cases hctrl with
  | eval hc rc => exact .eval rc hc.operation
  | ret p => exact .ret p

section Sparing

variable [CDouble D] {s s' : ParserState D} {X : List (Node D)} {c : Ast} {p : Ptr}

/-- The operand of a unary operation that is about to be overwritten is new. -/
theorem Machine.Sparing.spares {m : Machine D} (h : m.Sparing L s) : m.Spares s := by
  rintro a n' ⟨op, node, rc, stack, n, hctrl, hstack, -, -⟩
  obtain ⟨recent, hyields, hwait⟩ := h
  rw [hctrl] at hyields
  rw [hstack] at hwait
  cases hwait with
  | operands _ _ _ hunary _ =>
    cases hyields with
    | ret => exact .inl ((hunary op node rfl).1 a rfl)

namespace Interp

omit [CDouble D] in
/-- What is made is new. -/
theorem newStackAst_recent (h : Grown s X s') {n : Node D} (hplain : n.aux = none) (t : TableId) :
    Ensures (newStackAst t (pure n)) s' fun r _ ↦ s.Recent (orEmpty r) := by
  refine (newStackAst_plain hplain s').mono ?_
  rintro r s'' ⟨-, hr⟩ a ha
  cases r with
  | none => cases ha
  | some b =>
    cases ha
    obtain ⟨n, hn⟩ := hr a rfl
    by_contra hold
    obtain ⟨x, hx⟩ := Option.ne_none_iff_exists'.1 hold
    exact absurd ((h.content_eq hx).symm.trans (hn.new _ (.inl rfl))) (by simp)

/-- The result is new, or empty. -/
theorem arithOperation_recent (h : Grown s X s') (op : BinOp) (p q : Ptr) :
    Ensures (arithOperation op p q) s' fun r _ ↦ s.Recent r := by
  have hempty : s.Recent .empty := fun a ha ↦ by cases ha
  refine Lib.meets_bind.2 (getVarTable_ensures fun t ts hts ↦ ?_)
  have hraw := newStackAst_recent (n := .raw) h rfl t
  refine (nodeAt_readOnly p).then fun o ↦ (nodeAt_readOnly q).then fun o' ↦ ?_
  split
  · split
    · exact Lib.meets_bind.2 ((newStackAst_recent h rfl t).mono fun _ _ hr ↦ hr)
    · refine Lib.meets_bind.2 (hraw.mono fun r s'' _ ↦ ?_)
      split
      · exact trivial
      · exact hempty
  · split
    · next x y n hn =>
      have hplain : n.aux = none := arithDouble_plain hn
      exact Lib.meets_bind.2 ((newStackAst_recent h hplain t).mono fun _ _ hr ↦ hr)
    · exact Lib.meets_bind.2 (hraw.mono fun _ _ _ ↦ hempty)
  · exact Lib.meets_bind.2 (hraw.mono fun _ _ _ ↦ hempty)

omit [CDouble D] in
/-- The empty pointer leads to no node. -/
theorem typeIs_empty_recent {ty : ASTType} (hty : TypeIs s' p ty) (hempty : ty = .emptyType) :
    s.Recent p := by
  rintro a rfl
  cases hty with
  | node _ n hn => cases n <;> cases hempty

/-- What an operator computes is new. -/
theorem apply_recent (host : Host D) (hc : c.Computed) (h : Grown s X s') (ev : List Ptr)
    (hunary : ∀ op node, c = .unary op node → ∀ p ∈ ev, s.Recent p) :
    Ensures (apply host c ev) s' fun r _ ↦ s.Recent r := by
  have hempty : s.Recent .empty := fun a ha ↦ by cases ha
  cases hc with
  | bin op left right =>
    rcases ev with - | ⟨p, - | ⟨q, - | ⟨r, ev⟩⟩⟩
    · exact hempty
    · exact hempty
    · refine Lib.meets_bind.2 (typeOf_ensures fun ty hty ↦ ?_)
      refine Lib.meets_ite.2 ⟨fun hem ↦ typeIs_empty_recent hty hem, fun _ ↦ ?_⟩
      refine Lib.meets_bind.2 (typeOf_ensures fun ty hty ↦ ?_)
      refine Lib.meets_ite.2 ⟨fun hem ↦ typeIs_empty_recent hty hem, fun _ ↦ ?_⟩
      exact arithOperation_recent h op q p
    · exact hempty
  | unary op hnode =>
    rcases ev with - | ⟨p, - | ⟨q, ev⟩⟩
    · exact hempty
    · show Ensures (unaryOperation op p) s' _
      rw [unaryOperation_eq]
      refine (nodeAt_readOnly p).then fun o ↦ ?_
      cases o with
      | none => exact hempty
      | some x =>
        rw [overwriteNode]
        split
        · refine Lib.meets_bind.2 ((setNode_writes _ _).mono fun _ _ _ ↦ ?_)
          exact hunary op _ rfl p (List.mem_singleton.2 rfl)
        · exact hempty
    · exact hempty

/-- What comes next in the evaluation of an expression that spares everything, on this stack. -/
def NextSparing (L : Addr → Prop) (s : ParserState D) (rest : List Frame) (r : Next)
    (_ : ParserState D) : Prop :=
  ∃ recent, r.1.Yields L s recent ∧ Frame.Wait L recent (r.2 ++ rest)

/-- The operand of a unary operator has been computed, and so it is new. -/
theorem nextOperand_sparing (host : Host D) (hc : c.Sparing L) (h : Grown s X s') (ev : List Ptr)
    {pending : List Ast} (hpending : ∀ d ∈ pending, d.Sparing L) (rc : ℕ) {rest : List Frame}
    (hunary : ∀ op node, c = .unary op node →
      (∀ p ∈ ev, s.Recent p) ∧ (pending = [] ∨ ev = [] ∧ pending = [node]))
    (hrest : Frame.Wait L c.Computed rest) :
    Ensures (nextOperand host c ev pending rc) s' (NextSparing L s rest) := by
  refine Lib.meets_bind.2 ?_
  rw [proceed_operation hc.operation]
  refine Lib.meets_ite.2 ⟨fun _ ↦ ?_, fun hfalse ↦ absurd rfl hfalse⟩
  cases pending with
  | nil =>
    have hrecent : Ensures (apply host c ev) s' fun r _ ↦ c.Computed → s.Recent r :=
      Lib.meets_imp fun hcomputed ↦
        apply_recent host hcomputed h ev fun op node heq ↦ (hunary op node heq).1
    refine Lib.meets_bind.2 (hrecent.mono fun p s'' hp ↦ ?_)
    exact ⟨_, .ret p, hrest.mono hp⟩
  | cons d ds =>
    refine ⟨_, .eval (hpending d (List.mem_cons_self ..)) _, ?_⟩
    refine .operands rc hc (fun e he ↦ hpending e (List.mem_cons_of_mem d he)) ?_ hrest
    intro op node heq
    subst heq
    obtain ⟨-, hnil | ⟨hev, hds⟩⟩ := hunary op node rfl
    · exact absurd hnil (List.cons_ne_nil d ds)
    obtain ⟨rfl, rfl⟩ := List.cons.inj hds
    cases hc with
    | unary _ _ hcomputed => exact ⟨hcomputed, hev, rfl⟩

/-- A node that is computed has a new node for its value. -/
theorem evalNode_sparing (host : Host D) (hc : c.Sparing L) (h : Grown s X s') (rc : ℕ)
    {rest : List Frame} (hrest : Frame.Wait L c.Computed rest) :
    Ensures (evalNode host c rc) s' (NextSparing L s rest) := by
  have hnext : ∀ s'', Grown s X s'' →
      Ensures (nextOperand host c [] c.operands rc) s'' (NextSparing L s rest) := by
    intro s'' h
    refine nextOperand_sparing host hc h [] (fun d hd ↦ hc.of_mem_operands hd) rc ?_ hrest
    rintro op node rfl
    exact ⟨fun _ hp ↦ absurd hp List.not_mem_nil, .inr ⟨rfl, rfl⟩⟩
  refine Lib.meets_bind.2 ((enter_grown h rc).mono fun b s'' h' ↦ Lib.meets_ite.2
    ⟨fun _ ↦ ?_, fun _ ↦ ?_⟩)
  · cases hc <;> exact hnext _ h'
  · exact ⟨_, .ret .empty, hrest.mono fun _ a ha ↦ by cases ha⟩

end Interp

/-- **One step** of the evaluation of such an expression. -/
theorem Machine.Sparing.step {m m' : Machine D} {host : Host D} (hm : m.Sparing L s)
    (h : Grown s X m.ps) (hstep : m.step? host = some m') :
    m'.Sparing L s ∧ ∃ Y, Grown s Y m'.ps := by
  refine ⟨?_, (hm.evaluates.step h hm.spares hstep).2⟩
  obtain ⟨recent, hctrl, hstack⟩ := hm
  obtain ⟨ctrl, stack, ps⟩ := m
  have hnext : ∀ {i : Interp D Interp.Next} {rest : List Frame},
      Ensures i ps (Interp.NextSparing L s rest) → (i ps).map (Machine.next rest) = .ok m' →
        m'.Sparing L s := by
    intro i rest hi hok
    cases hips : i ps with
    | error e =>
      rw [hips] at hok
      cases hok
    | ok r =>
      rw [hips] at hok
      obtain rfl := Except.ok.inj hok
      exact hi.run hips
  have hok : Machine.step host ⟨ctrl, stack, ps⟩ = .ok m' := Machine.step?_eq_some hstep
  cases hctrl with
  | eval hc rc => exact hnext (Interp.evalNode_sparing host hc h rc hstack) hok
  | ret p =>
    cases hstack with
    | nil => cases hok
    | operands rc hc hpending hunary hrest =>
      refine hnext (Interp.nextOperand_sparing host hc h _ hpending rc ?_ hrest) hok
      intro op node heq
      obtain ⟨hp, rfl, rfl⟩ := hunary op node heq
      exact ⟨fun q hq ↦ List.mem_singleton.1 hq ▸ hp, .inl rfl⟩

/-- **All steps spare what was there** where unary operators are applied to nothing but what
operators have computed. -/
theorem Ast.Sparing.allSteps_spares {e : Ast} (he : e.Sparing L) (rc : ℕ) (hosts : List (Host D)) :
    Lib.AllSteps (fun m _ ↦ m.Spares s) Machine.step? ⟨.eval e rc, [], s⟩ hosts := by
  refine Lib.AllSteps.of_invariant (P := fun m : Machine D ↦ m.Sparing L s ∧ ∃ X, Grown s X m.ps)
    ?_ ?_ ⟨⟨_, .eval he rc, .nil _⟩, [], .refl s⟩ hosts
  · exact fun m _ hm ↦ hm.1.spares
  · rintro m host m' ⟨hm, X, h⟩ hstep
    exact hm.step h hstep

end Sparing

end Meridian.MQL

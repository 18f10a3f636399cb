import Meridian.MQL.NativeInvariant

/-!
# The invariant of the machine

A frame that waits holds pointers into the tables that were on the stack when it was pushed. A block
and a call push a table and are the frames that pop it (`ownsTable`), so the stack of frames tells
which tables a frame relies on (`Stacked`): they are below all that is popped before the frame is
resumed, and so its pointers stay good.

`Machine.WF` puts this together with the invariant of the interpreter. Every step keeps it, in a
program with neither `rpc` nor `get_distance` (`TextNode`): what those return may be nodes that have
been received. `FuncTexts` says the same of the functions that a name can stand for.
-/

namespace Meridian.MQL

variable {D : Type} {nlits : ℕ} {typed : Prop}

/-! ### The text of a program -/

/-- The nodes of a function body: literals of the program, and neither `rpc` nor `get_distance`. -/
def VarTable.TextNode (nlits : ℕ) : Ast → Prop
  | .literal a => a.table = 0 ∧ a.index < nlits
  | .rpc _ _ _ => False
  | .getDistance _ _ _ _ => False
  | _ => True

open VarTable (TextNode)

/-- The bodies of the functions that names stand for. -/
def ParserState.FuncTexts (nlits : ℕ) (s : ParserState D) : Prop :=
  ∀ (tbl : VarTable D) (x : Str) (f : Func), s.tables 0 = some tbl →
    tbl.vMap[x]? = some (.func f) → f.fNode.All (TextNode nlits)

/-! ### Creating and deleting tables -/

namespace ParserState

open Interp (NodeAt)

/-- The nodes of these tables are still there, and if the global table is one of them, no name has
become a function, and the structs are still defined. -/
structure Preserves (ts : List TableId) (s s' : ParserState D) : Prop where
  node : ∀ a n, a.table ∈ ts → NodeAt s a n → ∃ n', NodeAt s' a n' ∧ n.SameKind n'
  func : 0 ∈ ts → ∀ (tbl' : VarTable D) (x : Str) (f : Func), s'.tables 0 = some tbl' →
    tbl'.vMap[x]? = some (.func f) → ∃ tbl, s.tables 0 = some tbl ∧ tbl.vMap[x]? = some (.func f)
  defs : 0 ∈ ts → ∀ name d, s.defs name = some d → s'.defs name = some d

variable {s s' s'' : ParserState D} {ts : List TableId}

/-- The definitions of the structs are in the global table. -/
theorem defs_congr (h : s'.tables 0 = s.tables 0) : s'.defs = s.defs := by
  funext name
  rw [defs, defs, h]

/-- What allocates and fills cells keeps every node in its place. -/
theorem Preserves.of_evolves {k : TableId → ℕ} (h : Evolves k s s') : Preserves ts s s' where
  node _ _ _ hn := hn.evolves h
  func _ tbl' x f ht' hf := by
    obtain ⟨tbl, ht, hkeeps⟩ := h.back ht'
    exact ⟨tbl, ht, hkeeps.func x f hf⟩
  defs _ _ _ := h.defs

/-- Nothing happens to tables that stay as they are. -/
theorem Preserves.of_tables (h : ∀ t ∈ ts, s'.tables t = s.tables t) : Preserves ts s s' where
  node := by
    rintro a n hmem ⟨tbl, ht, hn⟩
    exact ⟨n, ⟨tbl, (h _ hmem).trans ht, hn⟩, .refl n⟩
  func h0 tbl' _ _ ht' hf := ⟨tbl', (h 0 h0).symm.trans ht', hf⟩
  defs h0 _ _ hd := (congrFun (defs_congr (h 0 h0)) _).trans hd

/-- One after the other. -/
theorem Preserves.trans (h : Preserves ts s s') (h' : Preserves ts s' s'') : Preserves ts s s'' where
  node a n hmem hn := by
    obtain ⟨n', hn', hkind⟩ := h.node a n hmem hn
    obtain ⟨n'', hn'', hkind'⟩ := h'.node a n' hmem hn'
    exact ⟨n'', hn'', hkind.trans hkind'⟩
  func h0 tbl'' x f ht'' hf := by
    obtain ⟨tbl', ht', hf'⟩ := h'.func h0 tbl'' x f ht'' hf
    exact h.func h0 tbl' x f ht' hf'
  defs h0 name d hd := h'.defs h0 name d (h.defs h0 name d hd)

/-- Fewer tables have less to keep. -/
theorem Preserves.of_subset {ts' : List TableId} (h : Preserves ts s s') (hsub : ts' ⊆ ts) :
    Preserves ts' s s' :=
  ⟨fun a n hmem ↦ h.node a n (hsub hmem), fun h0 ↦ h.func (hsub h0), fun h0 ↦ h.defs (hsub h0)⟩

/-- No name of the global table has become another function. -/
theorem FuncTexts.preserves (h : s.FuncTexts nlits) (h0 : 0 ∈ ts) (hpres : Preserves ts s s') :
    s'.FuncTexts nlits := by
  intro tbl' x f ht' hf
  obtain ⟨tbl, ht, hf⟩ := hpres.func h0 tbl' x f ht' hf
  exact h tbl x f ht hf

/-- The global table is never popped. -/
theorem WF.zero_mem (h : s.WF nlits typed) : 0 ∈ s.varTable := List.mem_of_getLast? h.last

/-- `pushTable`. -/
def pushed (s : ParserState D) (prev : List TableId) : ParserState D :=
  { s with
    tables := Function.update s.tables s.nextTable (some (.new prev))
    varTable := s.nextTable :: s.varTable
    nextTable := s.nextTable + 1 }

/-- The new table is empty. -/
@[simp] theorem pushed_same {prev : List TableId} :
    (s.pushed prev).tables s.nextTable = some (.new prev) :=
  Function.update_self ..

/-- Pushing a table touches no other one. -/
theorem pushed_of_ne {prev : List TableId} {t : TableId} (h : t ≠ s.nextTable) :
    (s.pushed prev).tables t = s.tables t :=
  Function.update_of_ne h ..

/-- The table to come has a fresh number. -/
theorem WF.ne_nextTable {t : TableId} (h : s.WF nlits typed) (ht : t ∈ s.varTable) :
    t ≠ s.nextTable :=
  Nat.ne_of_lt (h.lt t ht)

/-- A new table whose chain is made of live tables. -/
theorem WF.pushed {prev : List TableId} (h : s.WF nlits typed) (hprev : ∀ t ∈ prev, t ∈ s.varTable) :
    (s.pushed prev).WF nlits typed := by
  have hzero : (0 : TableId) ≠ s.nextTable := h.ne_nextTable h.zero_mem
  -- the new table is empty, and any other one was there before
  have hcases : ∀ t tbl, (s.pushed prev).tables t = some tbl →
      (t = s.nextTable ∧ tbl = .new prev) ∨ (t ≠ s.nextTable ∧ s.tables t = some tbl) := by
    intro t tbl ht
    by_cases heq : t = s.nextTable
    · subst heq
      refine .inl ⟨rfl, ?_⟩
      exact (Option.some.inj (pushed_same.symm.trans ht)).symm
    · rw [pushed_of_ne heq] at ht
      exact .inr ⟨heq, ht⟩
  refine ⟨fun t ↦ ⟨fun ⟨tbl, ht⟩ ↦ ?_, fun ht ↦ ?_⟩, ?_, ?_, fun t ht ↦ ?_, fun t tbl ht t' ht' ↦ ?_,
    fun t tbl ht ↦ ?_, fun tbl ht ↦ ?_⟩
  · rcases hcases t tbl ht with ⟨rfl, -⟩ | ⟨-, ht⟩
    · exact List.mem_cons_self ..
    · exact List.mem_cons_of_mem _ ((h.live t).1 ⟨tbl, ht⟩)
  · rcases List.mem_cons.1 ht with rfl | ht
    · exact ⟨_, Function.update_self ..⟩
    · obtain ⟨tbl, htbl⟩ := (h.live t).2 ht
      exact ⟨tbl, (pushed_of_ne (h.ne_nextTable ht)).trans htbl⟩
  · exact List.pairwise_cons.2 ⟨h.lt, h.sorted⟩
  · show (s.nextTable :: s.varTable).getLast? = some 0
    rw [List.getLast?_cons, h.last, Option.getD_some]
  · rcases List.mem_cons.1 ht with rfl | ht
    · exact Nat.lt_succ_self _
    · exact Nat.lt_succ_of_lt (h.lt t ht)
  · rcases hcases t tbl ht with ⟨rfl, rfl⟩ | ⟨-, ht⟩
    · exact ⟨List.mem_cons_of_mem _ (hprev t' ht'), h.lt t' (hprev t' ht')⟩
    · obtain ⟨hmem, hlt⟩ := h.prev t tbl ht t' ht'
      exact ⟨List.mem_cons_of_mem _ hmem, hlt⟩
  · rw [defs_congr (pushed_of_ne hzero)]
    rcases hcases t tbl ht with ⟨rfl, rfl⟩ | ⟨-, ht⟩
    · exact .new prev
    · exact h.table t tbl ht
  · exact h.lits tbl ((pushed_of_ne hzero).symm.trans ht)

/-- `remove_var_table`, where `tbl` is the table at the top. -/
def popped (s : ParserState D) (t : TableId) (tbl : VarTable D) : ParserState D :=
  { s with
    tables := Function.update s.tables t none
    varTable := s.varTable.tail
    astAllocationCount := s.astAllocationCount - tbl.vStackAst.length }

/-- The table at the top is gone. -/
@[simp] theorem popped_same {t : TableId} {tbl : VarTable D} :
    (s.popped t tbl).tables t = none :=
  Function.update_self ..

/-- Popping a table touches no other one. -/
theorem popped_of_ne {t t' : TableId} {tbl : VarTable D} (h : t' ≠ t) :
    (s.popped t tbl).tables t' = s.tables t' :=
  Function.update_of_ne h ..

/-- What is left does not lead to the table at the top. -/
theorem WF.popped {t : TableId} {tbl : VarTable D} (h : s.WF nlits typed)
    (hts : s.varTable = t :: ts) (hne : ts ≠ []) : (s.popped t tbl).WF nlits typed := by
  -- the tables below are older, the global one among them, and chains only lead to older tables
  have hsorted : ∀ t' ∈ ts, t' < t := by
    have := h.sorted
    rw [hts] at this
    exact (List.pairwise_cons.1 this).1
  have hlast : ts.getLast? = some 0 := by
    obtain ⟨t', ts', rfl⟩ := List.exists_cons_of_ne_nil hne
    have hlast := h.last
    rwa [hts, List.getLast?_cons_cons] at hlast
  have hzero : (0 : TableId) ≠ t := Nat.ne_of_lt (hsorted 0 (List.mem_of_getLast? hlast))
  have htail : (s.popped t tbl).varTable = ts := congrArg List.tail hts
  have hof : ∀ t' tbl', (s.popped t tbl).tables t' = some tbl' → t' ≠ t ∧ s.tables t' = some tbl' := by
    intro t' tbl' ht'
    have hne : t' ≠ t := by
      rintro rfl
      exact absurd (popped_same.symm.trans ht') (by simp)
    exact ⟨hne, (popped_of_ne hne).symm.trans ht'⟩
  have hmem : ∀ t' ∈ s.varTable, t' ≠ t → t' ∈ ts := by
    intro t' ht' hne
    rw [hts] at ht'
    exact (List.mem_cons.1 ht').resolve_left hne
  refine ⟨fun t' ↦ ?_, ?_, ?_, fun t' ht' ↦ ?_, fun t' tbl' ht' t'' ht'' ↦ ?_, fun t' tbl' ht' ↦ ?_,
    fun tbl' ht' ↦ ?_⟩
  · rw [htail]
    refine ⟨fun ⟨tbl', ht'⟩ ↦ ?_, fun ht' ↦ ?_⟩
    · obtain ⟨hne, ht'⟩ := hof t' tbl' ht'
      exact hmem t' ((h.live t').1 ⟨tbl', ht'⟩) hne
    · obtain ⟨tbl', htbl'⟩ := (h.live t').2 (hts ▸ List.mem_cons_of_mem _ ht')
      exact ⟨tbl', (popped_of_ne (Nat.ne_of_lt (hsorted t' ht'))).trans htbl'⟩
  · have hpairwise := h.sorted
    rw [hts] at hpairwise
    rw [htail]
    exact (List.pairwise_cons.1 hpairwise).2
  · rw [htail, hlast]
  · rw [htail] at ht'
    exact h.lt t' (hts ▸ List.mem_cons_of_mem _ ht')
  · obtain ⟨hne, ht'⟩ := hof t' tbl' ht'
    obtain ⟨hmem'', hlt⟩ := h.prev t' tbl' ht' t'' ht''
    rw [htail]
    refine ⟨hmem t'' hmem'' (Nat.ne_of_lt (hlt.trans (hsorted t' ?_))), hlt⟩
    exact hmem t' ((h.live t').1 ⟨tbl', ht'⟩) hne
  · rw [defs_congr (popped_of_ne hzero)]
    exact h.table t' tbl' (hof t' tbl' ht').2
  · exact h.lits tbl' (hof 0 tbl' ht').2

end ParserState

namespace Interp

open ParserState

variable {s s' : ParserState D} {ts : List TableId}

/-- A pointer into the tables that are kept stays good. -/
theorem Usable.preserves {p : Ptr} (h : Usable ts s p) (hpres : Preserves ts s s') :
    Usable ts s' p := by
  cases p with
  | node a =>
    obtain ⟨hmem, n, hn, hown⟩ := h
    obtain ⟨n', hn', hkind⟩ := hpres.node a n hmem hn
    exact ⟨hmem, n', hn', hkind.own.2 hown⟩
  | _ => exact h

/-- A name that stands for a function stands for one of the program. -/
theorem lookup_text {t : TableId} (h : s.WF nlits typed) (htext : s.FuncTexts nlits) (x : Str) :
    Ensures (lookup t x) s fun r s' ↦ s' = s ∧ ∀ f, r = some (.func f) →
      f.fNode.All (TextNode nlits) := by
  refine lookup_ensures (fun p t' tbl ht hp _ ↦ ⟨rfl, ?_⟩) ⟨rfl, fun f hf ↦ absurd hf (by simp)⟩
  intro f hf
  obtain rfl := Option.some.inj hf
  -- functions are global
  rcases (h.table t' tbl ht).slot (.var x) _ hp with ⟨a, ha, -⟩ | ⟨rfl, -⟩
  · cases ha
  · exact htext tbl x f ht hp

/-- A table is pushed on the ones that are there. -/
theorem pushTable_ensures {prev : List TableId} (h : s.WF nlits typed)
    (hprev : ∀ t ∈ prev, t ∈ s.varTable) :
    Ensures (pushTable prev) s fun _ s' ↦ s'.WF nlits typed ∧
      s'.varTable = s.nextTable :: s.varTable ∧ Preserves s.varTable s s' :=
  ⟨h.pushed hprev, rfl, .of_tables fun _ ht ↦ pushed_of_ne (h.ne_nextTable ht)⟩

/-- The table of a block: its chain is the table at the top and the chain of that. -/
theorem newContext_ensures (h : s.WF nlits typed) :
    Ensures newContext s fun _ s' ↦ s'.WF nlits typed ∧ s'.varTable = s.nextTable :: s.varTable ∧
      Preserves s.varTable s s' := by
  refine Lib.meets_bind.2 (getVarTable_ensures fun t ts hts ↦ Lib.meets_bind.2 ?_)
  refine getTable_ensures fun tbl ht ↦ pushTable_ensures h fun t' ht' ↦ ?_
  rcases List.mem_cons.1 ht' with rfl | hmem
  · exact mem_varTable h ht
  · exact (h.prev t tbl ht t' hmem).1

/-- The table of a call: its chain is the global table alone. -/
theorem newVarTable_ensures (h : s.WF nlits typed) :
    Ensures newVarTable s fun _ s' ↦ s'.WF nlits typed ∧ s'.varTable = s.nextTable :: s.varTable ∧
      Preserves s.varTable s s' := by
  refine getVarTable_readOnly.then fun old ↦ Lib.meets_bind.2 (Lib.meets_get.2 ?_)
  rw [h.last]
  refine Lib.meets_bind.2 ((pushTable_ensures h fun t ht ↦ ?_).mono fun _ s₁ h₁ ↦ h₁)
  rw [List.mem_singleton.1 ht]
  exact h.zero_mem

/-- The table at the top is popped. The ones below are kept, not the ones popped with it. -/
theorem removeVarTable_ensures {t : TableId} (h : s.WF nlits typed) (hts : s.varTable = t :: ts)
    (hne : ts ≠ []) :
    Ensures removeVarTable s fun _ s' ↦ s'.WF nlits typed ∧ s'.varTable = ts ∧ Preserves ts s s' := by
  refine Lib.meets_bind.2 (getVarTable_ensures fun t' ts' hts' ↦ Lib.meets_bind.2 ?_)
  obtain ⟨rfl, rfl⟩ := List.cons.inj (hts.symm.trans hts')
  refine getTable_ensures fun tbl ht ↦ Lib.meets_modify.2 ?_
  refine ⟨h.popped hts hne, congrArg List.tail hts, .of_tables fun t' ht' ↦ popped_of_ne ?_⟩
  have hsorted := h.sorted
  rw [hts] at hsorted
  exact Nat.ne_of_lt ((List.pairwise_cons.1 hsorted).1 t' ht')

end Interp

/-! ### Frames -/

/-- The frame pops a table when it is resumed. -/
def Frame.ownsTable : Frame → Bool
  | context => true
  | funcBody .. => true
  | _ => false

/-- The nodes that a frame goes on with. -/
def Frame.text : Frame → List Ast
  | operands curNode _ pending _ => curNode :: pending
  | astRight left _ => [left]
  | ifEval left right _ => [left, right]
  | loopEval eval node _ => [eval, node]
  | loopBody eval node _ => [eval, node]
  | forInit node2 node3 node4 _ => [node2, node3, node4]
  | forEval node2 node3 node4 _ => [node2, node3, node4]
  | forBody node2 node3 node4 _ => [node2, node3, node4]
  | forStep node2 node3 node4 _ => [node2, node3, node4]
  | funcParam f _ _ pending _ => f.fNode :: pending
  | _ => []

/-- The pointers that the result of a frame can be made of. -/
def Frame.results : Frame → List Ptr
  | operands _ evaluated _ _ => evaluated
  | funcParam _ tmpNode _ _ _ => tmpNode.toList
  | funcBody _ tmpNode _ => tmpNode.toList
  | _ => []

section

variable (nlits)

/-- What a frame relies on, if it is resumed with the tables `ts`. -/
structure Frame.Ok (ts : List TableId) (s : ParserState D) (f : Frame) : Prop where
  text : ∀ c ∈ f.text, c.All (TextNode nlits)
  results : ∀ p ∈ f.results, Interp.Usable ts s p

/-- What a call or a return comes with. -/
def Ctrl.Ok (ts : List TableId) (s : ParserState D) : Ctrl → Prop
  | eval curNode _ => curNode.All (TextNode nlits)
  | evalPtr p actualParam _ =>
    Interp.Usable ts s p ∧ (∀ f, p = .func f → f.fNode.All (TextNode nlits)) ∧
      ∀ c ∈ actualParam, c.All (TextNode nlits)
  | ret p => Interp.Usable ts s p

/-- The frames on the stack, and the tables that are there when each of them is resumed. At the bottom
there are the tables `base`, the global one with the functions of the program among them. -/
inductive Stacked (base : List TableId) (s : ParserState D) : List Frame → List TableId → Prop
  | nil (h0 : 0 ∈ base) (htext : s.FuncTexts nlits) : Stacked base s [] base
  | plain {f : Frame} {fs : List Frame} {ts : List TableId} (hf : f.ownsTable = false)
      (hok : f.Ok nlits ts s) (h : Stacked base s fs ts) : Stacked base s (f :: fs) ts
  | own {f : Frame} {fs : List Frame} {t : TableId} {ts : List TableId} (hf : f.ownsTable = true)
      (hok : f.Ok nlits ts s) (h : Stacked base s fs ts) : Stacked base s (f :: fs) (t :: ts)

/-- The invariant of the machine. -/
structure Machine.WF (typed : Prop) (base : List TableId) (m : Machine D) : Prop where
  ps : m.ps.WF nlits typed
  stack : Stacked nlits base m.ps m.stack m.ps.varTable
  ctrl : m.ctrl.Ok nlits m.ps.varTable m.ps

end

variable {s s' : ParserState D} {ts base : List TableId} {fs : List Frame}

/-- A frame can wait while its tables are kept. -/
theorem Frame.Ok.preserves {f : Frame} (h : f.Ok nlits ts s)
    (hpres : ParserState.Preserves ts s s') : f.Ok nlits ts s' :=
  ⟨h.text, fun p hp ↦ (h.results p hp).preserves hpres⟩

/-- All frames can wait while the tables at the bottom and their own are kept. -/
theorem Stacked.preserves (h : Stacked nlits base s fs ts)
    (hpres : ParserState.Preserves ts s s') : Stacked nlits base s' fs ts := by
  induction h with
  | nil h0 htext => exact .nil h0 (htext.preserves h0 hpres)
  | plain hf hok _ ih => exact .plain hf (hok.preserves hpres) (ih hpres)
  | own hf hok _ ih =>
    have hpres' := hpres.of_subset (List.subset_cons_self ..)
    exact .own hf (hok.preserves hpres') (ih hpres')

/-- The tables at the bottom stay. -/
theorem Stacked.suffix (h : Stacked nlits base s fs ts) : base <:+ ts := by
  induction h with
  | nil => exact List.suffix_refl _
  | plain _ _ _ ih => exact ih
  | own _ _ _ ih => exact ih.trans (List.suffix_cons ..)

/-- The texts of the functions are known at the bottom of the stack. -/
theorem Stacked.funcTexts (h : Stacked nlits base s fs ts) : s.FuncTexts nlits := by
  induction h with
  | nil _ htext => exact htext
  | plain _ _ _ ih => exact ih
  | own _ _ _ ih => exact ih

/-- There is always a table, since the machine starts with one. -/
theorem Stacked.ne_nil (h : Stacked nlits base s fs ts) (hbase : base ≠ []) : ts ≠ [] := by
  rintro rfl
  exact hbase (List.suffix_nil.1 h.suffix)

/-! ### What a node does with its operands -/

namespace Interp

open ParserState

/-- A usable pointer is returned as it is. -/
theorem yields_pure {p : Ptr} (h : s.WF nlits typed) (hp : Usable s.varTable s p) :
    Yields nlits typed (pure p) s :=
  Lib.meets_pure.2 ⟨.refl h, hp⟩

/-- A literal evaluates to itself. -/
theorem evalValue_literal {a : Addr} (h : s.WF nlits typed) (ha : TextNode nlits (.literal a)) :
    Yields nlits typed (evalValue a) s := by
  obtain ⟨htable, hlt⟩ := ha
  refine Lib.meets_bind.2 (getNode_ensures fun n hn ↦ ?_)
  obtain ⟨tbl, ht, hn'⟩ := hn
  obtain ⟨m, hm, hscalar⟩ := h.lits tbl (htable ▸ ht) a.index hlt
  obtain rfl := Option.some.inj (hn'.symm.trans hm)
  split
  · exact hscalar.elim
  · refine yields_pure h ⟨mem_varTable h ht, n, ⟨tbl, ht, hn'⟩, ?_⟩
    cases n with
    | int | double | string => exact trivial
    | _ => exact hscalar.elim

/-- Only one pointer has the empty type. -/
theorem eq_empty_of_type {p : Ptr} (h : TypeIs s p .emptyType) : p = .empty := by
  generalize hty : ASTType.emptyType = ty at h
  cases h with
  | empty => rfl
  | node a n _ => cases n <;> cases hty
  | _ => cases hty

variable [CDouble D]

/-- A declaration with a value: the variable is created and then assigned. -/
theorem assignNewVar_yields (h : s.WF nlits typed) (d : DeclType) (x : Str) (p : Ptr) :
    Yields nlits typed (assignNewVar (D := D) d x p) s := by
  refine Lib.meets_bind.2 (typeOf_ensures fun ty hty ↦ Lib.meets_ite.2 ⟨?_, fun _ ↦ ?_⟩)
  · rintro rfl
    rw [eq_empty_of_type hty]
    exact yields_empty h
  · refine Lib.meets_bind.2 ((variableCreate_yields h d 0 x).mono fun q s₁ ⟨h₁, hq⟩ ↦ ?_)
    refine getVarTable_readOnly.then fun t ↦ Lib.meets_bind.2 ?_
    refine (updateADT_assigns t q p s₁ h₁.wf).mono fun b s₂ h₂ ↦ ?_
    refine Lib.meets_ite.2 ⟨fun _ ↦ ⟨h₁.trans h₂, hq.evolves h₂.evolves⟩, fun _ ↦ ?_⟩
    exact ⟨h₁.trans h₂, trivial⟩

omit [CDouble D] in
/-- An entry of the vector of an array, or nothing. The array owns its vector and so the entry is
usable. -/
theorem arrayAccess_yields {p : Ptr} (h : s.WF nlits typed) (hp : Usable s.varTable s p)
    (q : Ptr) : Yields nlits typed (arrayAccess (D := D) p q) s := by
  refine Lib.meets_bind.2 (nodeAt_ensures (fun a n hpa hn ↦ ?_) fun _ _ ↦ ?_)
  swap
  · exact (nodeAt_readOnly q).then fun o ↦ yields_empty h
  refine (nodeAt_readOnly q).then fun o ↦ ?_
  split
  · next a' aType name v tb b i heq =>
    cases heq
    subst hpa
    -- the node that is read is the one that is usable
    obtain ⟨hmem, n', hn', hown⟩ := hp
    obtain rfl := hn.unique hn'
    refine Lib.meets_ite.2 ⟨fun _ ↦ yields_empty h, fun _ ↦ Lib.meets_bind.2 ?_⟩
    refine (getVector_usable h hn hown hmem).mono ?_
    rintro ps s ⟨rfl, hps⟩
    exact yields_pure h (.getD_empty fun p hp ↦ hps p (List.mem_of_getElem? hp))
  · exact yields_empty h

omit [CDouble D] in
/-- A field of the map of a struct, or nothing. -/
theorem adtAccess_yields {p : Ptr} (h : s.WF nlits typed) (hp : Usable s.varTable s p)
    (x : Str) : Yields nlits typed (adtAccess (D := D) p x) s := by
  refine Lib.meets_bind.2 (nodeAt_ensures (fun a n hpa hn ↦ ?_) fun _ _ ↦ yields_empty h)
  split
  · next a' name m u heq =>
    cases heq
    subst hpa
    obtain ⟨hmem, n', hn', hown⟩ := hp
    obtain rfl := hn.unique hn'
    obtain rfl : u = false := hown
    refine Lib.meets_bind.2 ((getMap_usable h hn hmem).mono ?_)
    rintro adtMap s ⟨rfl, hfields⟩
    exact yields_pure h (.getD_empty fun p hp ↦ hfields x p hp)
  · exact yields_empty h

omit [CDouble D] in
/-- What has been printed is returned. -/
theorem printNode_yields {p : Ptr} (h : s.WF nlits typed) (hp : Usable s.varTable s p) :
    Yields nlits typed (printNode (D := D) p) s := by
  refine (typeOf_readOnly p).then fun ty ↦ ?_
  split
  iterate 4 exact yields_pure h hp
  exact yields_empty h

/-- The operand gets another number. -/
theorem unaryOperation_yields {p : Ptr} (h : s.WF nlits typed) (hp : Usable s.varTable s p)
    (op : UnaryOp) : Yields nlits typed (unaryOperation (D := D) op p) s := by
  refine Lib.meets_bind.2 (nodeAt_ensures (fun a n _ hn ↦ ?_) fun _ _ ↦ ?_)
  swap
  · cases op <;> exact yields_empty h
  have hset : ∀ m : Node D, n.SameKind m → Yields nlits typed (do setNode a m; pure p) s :=
    fun m hm ↦ Lib.meets_bind.2 ((setNode_ensures h hn hm).mono fun _ s₁ h₁ ↦
      ⟨h₁, hp.evolves h₁.evolves⟩)
  split
  · next heq =>
    cases heq
    exact hset _ (.int ..)
  · next heq =>
    cases heq
    exact hset _ (.double ..)
  · next heq =>
    cases heq
    exact hset _ (.int ..)
  · exact yields_empty h

/-- The result is a new node. Where the operator has no result the node stays raw, and no one has a
pointer to it. -/
theorem arithOperation_yields (h : s.WF nlits typed) (op : BinOp) (p q : Ptr) :
    Yields nlits typed (arithOperation (D := D) op p q) s := by
  have hraw : ∀ t, Ensures (newStackAst t (pure (.raw : Node D))) s fun _ s' ↦
      Leads nlits typed s s' := by
    intro t
    have hcreate : Creates nlits typed (newStackAst t (pure (.raw : Node D))) t (· = .raw) :=
      creates_plain rfl
    exact (hcreate s h).mono fun _ _ hs' ↦ hs'.1
  have hplain : ∀ t (n : Node D), n.aux = none →
      Yields nlits typed (do return orEmpty (← newStackAst t (pure n))) s := by
    intro t n hn
    refine Lib.meets_bind.2 ((creates_plain hn s h).mono fun o s₁ ⟨h₁, ho⟩ ↦ ?_)
    exact ⟨h₁, usable_orEmpty h₁ ho⟩
  refine getVarTable_readOnly.then fun t ↦ ?_
  refine (nodeAt_readOnly p).then fun o ↦ (nodeAt_readOnly q).then fun o' ↦ ?_
  split
  -- two ints: what faults comes to no state, unless the limit for nodes is met first
  · next x _ y _ _ =>
    split
    · exact hplain t _ rfl
    · refine Lib.meets_bind.2 ((hraw t).mono fun o s₁ h₁ ↦ ?_)
      cases o with
      | none => exact ⟨h₁, trivial⟩
      | some a => exact trivial
  · split
    · next n hn =>
      refine hplain t n ?_
      cases op <;> cases hn <;> rfl
    · exact Lib.meets_bind.2 ((hraw t).mono fun o s₁ h₁ ↦ ⟨h₁, trivial⟩)
  · exact Lib.meets_bind.2 ((hraw t).mono fun o s₁ h₁ ↦ ⟨h₁, trivial⟩)

/-- An empty operand is the result, or else there is a new node. -/
theorem binOperation_yields {p q : Ptr} (h : s.WF nlits typed) (hp : Usable s.varTable s p)
    (hq : Usable s.varTable s q) (op : BinOp) :
    Yields nlits typed (binOperation (D := D) op p q) s := by
  refine (typeOf_readOnly p).then fun ty ↦ Lib.meets_ite.2 ⟨fun _ ↦ yields_pure h hp, fun _ ↦ ?_⟩
  refine (typeOf_readOnly q).then fun ty ↦ Lib.meets_ite.2 ⟨fun _ ↦ yields_pure h hq, fun _ ↦ ?_⟩
  exact arithOperation_yields h op q p

/-- An assignment returns its left side, or nothing if the types differ. -/
theorem assignAdt_yields {p q : Ptr} (h : s.WF nlits typed) (hp : Usable s.varTable s p)
    (hq : Usable s.varTable s q) : Yields nlits typed (assignAdt (D := D) p q) s := by
  refine (typeOf_readOnly p).then fun ty ↦ Lib.meets_ite.2 ⟨fun _ ↦ yields_pure h hp, fun _ ↦ ?_⟩
  refine (typeOf_readOnly q).then fun ty ↦ Lib.meets_ite.2 ⟨fun _ ↦ yields_pure h hq, fun _ ↦ ?_⟩
  refine getVarTable_readOnly.then fun t ↦ Lib.meets_bind.2 ?_
  refine (updateADT_assigns t q p s h).mono fun b s₁ h₁ ↦ ?_
  exact Lib.meets_ite.2 ⟨fun _ ↦ ⟨h₁, hq.evolves h₁.evolves⟩, fun _ ↦ ⟨h₁, trivial⟩⟩

/-- A value is returned through the variable of the call. -/
theorem returnValue_yields (h : s.WF nlits typed) (p : Ptr) :
    Yields nlits typed (returnValue (D := D) p) s := by
  refine (typeOf_readOnly p).then fun ty ↦ Lib.meets_ite.2 ⟨fun _ ↦ yields_pure h trivial, fun _ ↦ ?_⟩
  exact Lib.meets_bind.2 ((variableAssign_yields h _ p).mono fun q s₁ ⟨h₁, _⟩ ↦ ⟨h₁, trivial⟩)

/-- The operands of `array_union` have elements of the same type. -/
def UnionOk (s : ParserState D) (curNode : Ast) (evaluated : List Ptr) : Prop :=
  ∀ l r p q, curNode = .native2 .arrayUnion l r → evaluated = [p, q] → SameElemType s p q

/-- Every node, once its operands have values: what it returns is usable. -/
theorem apply_yields (host : Host D) {curNode : Ast} {evaluated : List Ptr} (h : s.WF nlits typed)
    (hnode : TextNode nlits curNode) (hops : ∀ p ∈ evaluated, Usable s.varTable s p)
    (hunion : typed → UnionOk s curNode evaluated) :
    Yields nlits typed (apply host curNode evaluated) s := by
  unfold apply
  split
  · exact evalValue_literal h hnode
  · exact variableCreate_yields h _ _ _
  · exact onInt_yields h fun i ↦ variableCreate_yields h _ i _
  · exact assignNewVar_yields h _ _ _
  · refine Lib.meets_bind.2 ((mkSepList_ensures h _).mono fun p s₁ ⟨h₁, _⟩ ↦ ?_)
    exact (assignNewVar_yields h₁.wf _ _ p).of_leads h₁
  · refine getVarTable_readOnly.then fun t ↦ Lib.meets_bind.2 ((lookup_usable h _).mono ?_)
    rintro o s ⟨rfl, ho⟩
    exact yields_pure h (.getD_empty ho)
  · exact arrayAccess_yields h (hops _ (by simp)) _
  · exact adtAccess_yields h (hops _ (by simp)) _
  · exact printNode_yields h (hops _ (by simp))
  · exact printNode_yields h (hops _ (by simp))
  · exact unaryOperation_yields h (hops _ (by simp)) _
  · exact binOperation_yields h (hops _ (by simp)) (hops _ (by simp)) _
  · exact assignAdt_yields h (hops _ (by simp)) (hops _ (by simp))
  · exact hnode.elim
  · exact yields_pure h trivial
  · exact yields_pure h trivial
  · exact returnValue_yields h _
  · exact handleGetSelf_yields host h
  · exact yields_empty h
  · exact native1_yields host _ _ h
  · next f l r p q =>
    refine native2_yields f h (fun _ ↦ hops p (by simp)) (fun _ ↦ hops q (by simp)) fun htyped hf ↦ ?_
    subst hf
    exact hunion htyped l r p q rfl rfl
  · exact hnode.elim
  · exact hnode.elim
  · exact yields_empty h

end Interp

/-! ### Steps -/

/-- A step that creates and deletes no table. -/
theorem Machine.WF.of_leads {frames : List Frame} {c : Ctrl}
    (hstack : Stacked nlits base s fs s.varTable) (h : ParserState.Leads nlits typed s s')
    (hframes : ∀ f ∈ frames, f.ownsTable = false ∧ f.Ok nlits s.varTable s')
    (hctrl : c.Ok nlits s.varTable s') :
    Machine.WF nlits typed base (.next fs ((c, frames), s')) := by
  have hts := h.evolves.varTable
  refine ⟨h.wf, ?_, hts ▸ hctrl⟩
  show Stacked nlits base s' (frames ++ fs) s'.varTable
  rw [hts]
  clear hctrl
  induction frames with
  | nil => exact hstack.preserves (.of_evolves h.evolves)
  | cons f frames ih =>
    obtain ⟨hf, hok⟩ := hframes f (by simp)
    exact .plain hf hok (ih fun g hg ↦ hframes g (List.mem_cons_of_mem _ hg))

namespace Interp

open ParserState

variable (nlits typed base fs) in
/-- The computation leads to what the machine goes on with, while the frames `fs` wait. -/
abbrev Goes (m : Interp D Next) (s : ParserState D) : Prop :=
  Ensures m s fun r s' ↦ Machine.WF nlits typed base (.next fs (r, s'))

/-- What returns a usable pointer. -/
theorem Yields.goes {m : Interp D Ptr} (hstack : Stacked nlits base s fs s.varTable)
    (h : Yields nlits typed m s) :
    Goes nlits typed base fs (do return (.ret (← m), [])) s := by
  refine Lib.meets_bind.2 (h.mono fun p s' ⟨hleads, hp⟩ ↦ ?_)
  exact .of_leads hstack hleads (fun f hf ↦ absurd hf (by simp)) hp

/-- An error is returned. -/
theorem goes_empty (hstack : Stacked nlits base s fs s.varTable) (h : Leads nlits typed s s') :
    Machine.WF nlits typed base (.next fs ((.ret .empty, []), s')) :=
  .of_leads hstack h (fun f hf ↦ absurd hf (by simp)) trivial

/-- A call of `eval`, and the frame that waits for it. -/
theorem goes_eval {f : Frame} {c : Ast} {rc : ℕ} (hstack : Stacked nlits base s fs s.varTable)
    (h : Leads nlits typed s s') (hf : f.ownsTable = false) (hok : f.Ok nlits s.varTable s')
    (hc : c.All (TextNode nlits)) :
    Machine.WF nlits typed base (.next fs ((.eval c rc, [f]), s')) := by
  refine .of_leads hstack h (fun g hg ↦ ?_) hc
  rw [List.mem_singleton.1 hg]
  exact ⟨hf, hok⟩

/-- A frame that has pushed a table. -/
theorem goes_own {f : Frame} {c : Ctrl} {t : TableId} {s₁ : ParserState D}
    (hstack : Stacked nlits base s fs s.varTable) (hpush : s₁.varTable = t :: s.varTable)
    (hpres : Preserves s.varTable s s₁) (h : Leads nlits typed s₁ s') (hf : f.ownsTable = true)
    (hok : f.Ok nlits s.varTable s) (hctrl : c.Ok nlits s₁.varTable s') :
    Machine.WF nlits typed base (.next fs ((c, [f]), s')) := by
  have hts := h.evolves.varTable
  have hpres' := hpres.trans (.of_evolves h.evolves)
  refine ⟨h.wf, ?_, hts ▸ hctrl⟩
  show Stacked nlits base s' (f :: fs) s'.varTable
  rw [hts, hpush]
  exact .own hf (hok.preserves hpres') (hstack.preserves hpres')

/-- The recursion is counted. -/
theorem enter_ensures (h : s.WF nlits typed) (rc : ℕ) :
    Ensures (enter (D := D) rc) s fun _ s' ↦ Leads nlits typed s s' := by
  refine Lib.meets_ite.2 ⟨fun _ ↦ .refl h, fun _ ↦ Lib.meets_bind.2 (Lib.meets_modify.2 ?_)⟩
  refine .of_tables h ?_ ?_ ?_ <;> split <;> rfl

/-- Only `rpc` and `get_distance` have a state that decides whether they go on. -/
theorem proceed_ensures {curNode : Ast} (hnode : TextNode nlits curNode) (evaluated : List Ptr)
    (s : ParserState D) : Ensures (proceed (D := D) curNode evaluated) s fun _ s' ↦ s' = s := by
  unfold proceed
  split
  iterate 4 exact hnode.elim
  exact rfl

variable [CDouble D]

/-- The next operand, with the frame that has the values of the ones before, or the node itself. -/
theorem nextOperand_goes (host : Host D) {curNode : Ast} {evaluated : List Ptr} {pending : List Ast}
    (rc : ℕ) (hstack : Stacked nlits base s fs s.varTable) (h : s.WF nlits typed)
    (hok : (Frame.operands curNode evaluated pending rc).Ok nlits s.varTable s)
    (hunion : typed → UnionOk s curNode evaluated) :
    Goes nlits typed base fs (nextOperand host curNode evaluated pending rc) s := by
  have hnode := hok.text curNode (by simp [Frame.text])
  refine Lib.meets_bind.2 ((proceed_ensures hnode.self evaluated s).mono ?_)
  rintro b s rfl
  refine Lib.meets_ite.2 ⟨fun _ ↦ ?_, fun _ ↦ goes_empty hstack (.refl h)⟩
  cases pending with
  | nil => exact (apply_yields host h hnode.self hok.results hunion).goes hstack
  | cons c cs =>
    refine goes_eval hstack (.refl h) rfl ⟨fun d hd ↦ hok.text d ?_, hok.results⟩ ?_
    · rcases List.mem_cons.1 hd with rfl | hd
      · exact List.mem_cons_self ..
      · exact List.mem_cons_of_mem _ (List.mem_cons_of_mem _ hd)
    · exact hok.text c (by simp [Frame.text])

/-- A call of `eval`. The frames that it pushes have the children of the node as their texts. -/
theorem evalNode_goes (host : Host D) {curNode : Ast} (rc : ℕ)
    (hstack : Stacked nlits base s fs s.varTable) (h : s.WF nlits typed)
    (hnode : curNode.All (TextNode nlits)) :
    Goes nlits typed base fs (evalNode host curNode rc) s := by
  refine Lib.meets_bind.2 ((enter_ensures h rc).mono fun b s₁ h₁ ↦ ?_)
  refine Lib.meets_ite.2 ⟨fun _ ↦ ?_, fun _ ↦ goes_empty hstack h₁⟩
  have hstack₁ : Stacked nlits base s₁ fs s₁.varTable := by
    rw [h₁.evolves.varTable]
    exact hstack.preserves (.of_evolves h₁.evolves)
  have hchild : ∀ c ∈ curNode.children, c.All (TextNode nlits) := fun c hc ↦ hnode.child hc
  have hframe : ∀ f : Frame, (∀ c ∈ f.text, c ∈ curNode.children) → f.results = [] →
      f.Ok nlits s₁.varTable s₁ := by
    refine fun f ht hr ↦ ⟨fun c hc ↦ hchild c (ht c hc), fun p hp ↦ ?_⟩
    rw [hr] at hp
    exact absurd hp (by simp)
  split
  · refine goes_eval hstack₁ (.refl h₁.wf) rfl (hframe _ ?_ rfl) (hchild _ ?_) <;>
      simp [Frame.text, Ast.children]
  -- a block: its frame owns the table that has been pushed
  · next node =>
    refine Lib.meets_bind.2 ((newContext_ensures h₁.wf).mono ?_)
    rintro _ s₂ ⟨hwf, hpush, hpres⟩
    refine goes_own hstack₁ hpush hpres (.refl hwf) rfl (hframe _ ?_ rfl) (hchild node ?_) <;>
      simp [Frame.text, Ast.children]
  · refine goes_eval hstack₁ (.refl h₁.wf) rfl (hframe _ ?_ rfl) (hchild _ ?_) <;>
      simp [Frame.text, Ast.children]
  · refine goes_eval hstack₁ (.refl h₁.wf) rfl (hframe _ ?_ rfl) (hchild _ ?_) <;>
      simp [Frame.text, Ast.children]
  · refine goes_eval hstack₁ (.refl h₁.wf) rfl (hframe _ ?_ rfl) (hchild _ ?_) <;>
      simp [Frame.text, Ast.children]
  -- a call: the name stands for a function of the program, or for a variable
  · next name actualParam =>
    refine getVarTable_readOnly.then fun t ↦ Lib.meets_bind.2 ?_
    refine ((lookup_usable h₁.wf name).and (lookup_text h₁.wf hstack₁.funcTexts name)).mono ?_
    rintro o s₁ ⟨⟨rfl, ho⟩, -, htext⟩
    cases o with
    | none => exact goes_empty hstack₁ (.refl h₁.wf)
    | some callFunc =>
      refine .of_leads hstack₁ (.refl h₁.wf) (fun f hf ↦ absurd hf (by simp)) ⟨ho _ rfl, ?_, ?_⟩
      · exact fun f hf ↦ htext f (congrArg some hf)
      · exact fun c hc ↦ hchild c hc
  · refine nextOperand_goes host rc hstack₁ h₁.wf ⟨fun c hc ↦ ?_, fun p hp ↦ ?_⟩ ?_
    · rcases List.mem_cons.1 hc with rfl | hc
      · exact hnode
      · exact hchild c (Ast.mem_children_of_mem_operands hc)
    · exact absurd hp (by simp [Frame.results])
    · rintro - l r p q - heq
      cases heq

/-- The next parameter, or after the last one the body, behind a table of its own. -/
theorem nextParam_goes {f : Func} {tmpNode : Option Ptr} {pending : List Ast} (actual : List Ptr)
    (rc : ℕ) (hstack : Stacked nlits base s fs s.varTable) (h : s.WF nlits typed)
    (hok : (Frame.funcParam f tmpNode actual pending rc).Ok nlits s.varTable s) :
    Goes nlits typed base fs (nextParam (D := D) f tmpNode actual pending rc) s := by
  have hbody := hok.text f.fNode (by simp [Frame.text])
  cases pending with
  | cons c cs =>
    refine goes_eval hstack (.refl h) rfl ⟨fun d hd ↦ hok.text d ?_, hok.results⟩ ?_
    · rcases List.mem_cons.1 hd with rfl | hd
      · exact List.mem_cons_self ..
      · exact List.mem_cons_of_mem _ (List.mem_cons_of_mem _ hd)
    · exact hok.text c (by simp [Frame.text])
  | nil =>
    refine Lib.meets_bind.2 ((newVarTable_ensures h).mono fun old s₁ ⟨hwf, hpush, hpres⟩ ↦ ?_)
    have hframe : ∀ returnNode, (Frame.funcBody old tmpNode returnNode).Ok nlits s.varTable s :=
      fun _ ↦ ⟨fun c hc ↦ absurd hc (by simp [Frame.text]), hok.results⟩
    have hreturn : Ensures (createReturn f tmpNode) s₁ fun _ s' ↦ Leads nlits typed s₁ s' := by
      cases tmpNode with
      | none => exact .refl hwf
      | some tmp =>
        exact Lib.meets_bind.2 ((variableCreate_yields hwf _ _ _).mono fun p s₂ ⟨h₂, _⟩ ↦ h₂)
    refine Lib.meets_bind.2 (hreturn.mono fun returnNode s₂ h₂ ↦ Lib.meets_bind.2 ?_)
    refine (paramListAssign_ensures h₂.wf _ actual).mono fun b s₃ h₃ ↦ ?_
    -- the table of the call is pushed before its frame, and both go on to be there
    have h₂₃ := h₂.trans h₃
    refine Lib.meets_ite.2 ⟨fun _ ↦ ?_, fun _ ↦ ?_⟩
    · exact goes_own hstack hpush hpres h₂₃ rfl (hframe returnNode) hbody
    · exact goes_own hstack hpush hpres h₂₃ rfl (hframe returnNode) trivial

/-- `createTmp`. -/
theorem createTmp_ensures (f : Func) (h : s.WF nlits typed) :
    Ensures (createTmp (D := D) f) s fun o s' ↦ Leads nlits typed s s' ∧
      ∀ p ∈ o, Usable s.varTable s' p := by
  refine Lib.meets_ite.2 ⟨fun _ ↦ ⟨.refl h, fun p hp ↦ absurd hp (by simp)⟩, fun _ ↦ ?_⟩
  refine getVarTable_readOnly.then fun t ↦ Lib.meets_bind.2 ?_
  refine (astCreate_creates f.fType 0 s h).mono fun o s₁ ⟨h₁, ho⟩ ↦ ⟨h₁, ?_⟩
  rintro _ ⟨⟩
  exact usable_orEmpty h₁ ho

/-- What a name stands for has been found: a function is called, a variable evaluates to itself. -/
theorem evalPtr_goes {p : Ptr} {actualParam : List Ast} (rc : ℕ)
    (hstack : Stacked nlits base s fs s.varTable) (h : s.WF nlits typed)
    (hp : Usable s.varTable s p) (htext : ∀ f, p = .func f → f.fNode.All (TextNode nlits))
    (hparam : ∀ c ∈ actualParam, c.All (TextNode nlits)) :
    Goes nlits typed base fs (evalPtr (D := D) p actualParam rc) s := by
  refine Lib.meets_bind.2 ((enter_ensures h rc).mono fun b s₁ h₁ ↦ ?_)
  refine Lib.meets_ite.2 ⟨fun _ ↦ ?_, fun _ ↦ goes_empty hstack h₁⟩
  have hstack₁ : Stacked nlits base s₁ fs s₁.varTable := by
    rw [h₁.evolves.varTable]
    exact hstack.preserves (.of_evolves h₁.evolves)
  split
  · next f =>
    refine Lib.meets_bind.2 ((createTmp_ensures f h₁.wf).mono fun o s₂ ⟨h₂, ho⟩ ↦ ?_)
    have hts := h₂.evolves.varTable
    refine nextParam_goes [] rc ?_ h₂.wf ⟨fun c hc ↦ ?_, fun q hq ↦ ?_⟩
    · rw [hts]
      exact hstack₁.preserves (.of_evolves h₂.evolves)
    · rcases List.mem_cons.1 hc with rfl | hc
      · exact htext f rfl
      · exact hparam c hc
    · rw [hts]
      exact ho q (by simpa [Frame.results] using hq)
  · next a =>
    have hp₁ : Usable s₁.varTable s₁ (.node a) := by
      rw [h₁.evolves.varTable]
      exact hp.evolves h₁.evolves
    refine Yields.goes hstack₁ ((getNode_readOnly a).then fun n ↦ ?_)
    split
    · exact yields_empty h₁.wf
    · exact yields_pure h₁.wf hp₁
  · exact goes_empty hstack₁ (.refl h₁.wf)

omit [CDouble D] in
/-- Signals are no nodes of the heap. -/
theorem forward_ensures (p : Ptr) :
    Ensures (forward p) s fun r s' ↦ s' = s ∧ ∀ ts, Usable ts s r := by
  refine Lib.meets_bind.2 (typeOf_ensures fun ty hty ↦ ?_)
  have hsignal : ∀ ty', TypeIs s p ty' → ty' = .breakType ∨ ty' = .continueType ∨ ty' = .returnType →
      ∀ ts, Usable ts s p := by
    intro ty' hty' hcases ts
    cases hty' with
    | node a n _ => cases n <;> simp [Node.type] at hcases
    | func f => simp at hcases
    | _ => exact trivial
  split
  · exact ⟨rfl, hsignal _ hty (by simp)⟩
  · exact ⟨rfl, hsignal _ hty (by simp)⟩
  · exact ⟨rfl, hsignal _ hty (by simp)⟩
  · exact ⟨rfl, fun _ ↦ trivial⟩

omit [CDouble D] in
/-- A block and an `if` pass signals on and drop values. -/
theorem forward_goes (hstack : Stacked nlits base s fs s.varTable) (h : s.WF nlits typed) (p : Ptr) :
    Goes nlits typed base fs (do return (.ret (← forward p), [])) s := by
  have hforward : Ensures (forward p) s fun r s' ↦ s' = s ∧ ∀ ts, Usable ts s r :=
    forward_ensures p
  refine Yields.goes hstack (hforward.mono ?_)
  rintro r s ⟨rfl, hr⟩
  exact ⟨.refl h, hr _⟩

omit [CDouble D] in
/-- A condition is only read. -/
theorem isNonzero_readOnly (p : Ptr) : Lib.ReadOnly (isNonzero (D := D) p) := by
  refine .bind (nodeAt_readOnly p) fun o ↦ ?_
  split
  · exact .pure _
  · exact .pure _

/-- A frame that has pushed no table is resumed. -/
theorem resume_plain (host : Host D) {frame : Frame} {p : Ptr}
    (hstack : Stacked nlits base s fs s.varTable) (h : s.WF nlits typed)
    (hf : frame.ownsTable = false) (hok : frame.Ok nlits s.varTable s)
    (hp : Usable s.varTable s p)
    (hunion : typed → ∀ curNode evaluated pending rc, frame = .operands curNode evaluated pending rc →
      UnionOk s curNode (evaluated ++ [p])) :
    Goes nlits typed base fs (resume host frame p) s := by
  -- the three ways in which a frame goes on: with no value, with the value, with another node
  have hempty : Machine.WF nlits typed base (.next fs ((.ret .empty, []), s)) :=
    goes_empty hstack (.refl h)
  have hret : Machine.WF nlits typed base (.next fs ((.ret p, []), s)) :=
    .of_leads hstack (.refl h) (fun f hf ↦ absurd hf (by simp)) hp
  have heval : ∀ (f : Frame) (c : Ast) (rc : ℕ), f.ownsTable = false → c ∈ frame.text →
      (∀ d ∈ f.text, d ∈ frame.text) → f.results = [] →
        Machine.WF nlits typed base (.next fs ((.eval c rc, [f]), s)) := by
    intro f c rc hf hc ht hr
    refine goes_eval hstack (.refl h) hf ⟨fun d hd ↦ hok.text d (ht d hd), fun q hq ↦ ?_⟩ (hok.text c hc)
    rw [hr] at hq
    exact absurd hq (by simp)
  cases frame with
  -- the value joins those that the frame has gathered
  | operands curNode evaluated pending rc =>
    refine nextOperand_goes host rc hstack h ⟨hok.text, fun q hq ↦ ?_⟩ fun htyped ↦
      hunion htyped _ _ _ _ rfl
    rcases List.mem_append.1 hq with hq | hq
    · exact hok.results q hq
    · rwa [List.mem_singleton.1 hq]
  | astRight left rc =>
    refine (typeOf_readOnly p).then fun ty ↦ ?_
    split
    iterate 3 exact hret
    exact heval .astLeft left _ rfl (by simp [Frame.text]) (by simp [Frame.text]) rfl
  | astLeft => exact forward_goes hstack h p
  | context => cases hf
  | ifEval left right rc =>
    refine (nodeAt_readOnly p).then fun o ↦ ?_
    split
    · refine heval .ifBranch _ _ rfl ?_ (by simp [Frame.text]) rfl
      split <;> simp [Frame.text]
    · exact hempty
  | ifBranch => exact forward_goes hstack h p
  | loopEval eval body rc =>
    refine (isNonzero_readOnly p).then fun b ↦ Lib.meets_ite.2 ⟨fun _ ↦ ?_, fun _ ↦ hempty⟩
    exact heval (.loopBody eval body rc) body _ rfl (by simp [Frame.text]) (fun d hd ↦ hd) rfl
  | loopBody eval body rc =>
    refine (typeOf_readOnly p).then fun ty ↦ ?_
    split
    · exact hret
    · exact hempty
    · exact heval (.loopEval eval body rc) eval _ rfl (by simp [Frame.text]) (fun d hd ↦ hd) rfl
  | forInit node2 node3 node4 rc =>
    exact heval (.forEval node2 node3 node4 rc) node2 _ rfl (by simp [Frame.text]) (fun d hd ↦ hd) rfl
  | forEval node2 node3 node4 rc =>
    refine (isNonzero_readOnly p).then fun b ↦ Lib.meets_ite.2 ⟨fun _ ↦ ?_, fun _ ↦ hempty⟩
    exact heval (.forBody node2 node3 node4 rc) node4 _ rfl (by simp [Frame.text]) (fun d hd ↦ hd) rfl
  | forBody node2 node3 node4 rc =>
    refine (typeOf_readOnly p).then fun ty ↦ ?_
    split
    · exact hret
    · exact hempty
    · exact heval (.forStep node2 node3 node4 rc) node3 _ rfl (by simp [Frame.text]) (fun d hd ↦ hd) rfl
  | forStep node2 node3 node4 rc =>
    exact heval (.forEval node2 node3 node4 rc) node2 _ rfl (by simp [Frame.text]) (fun d hd ↦ hd) rfl
  | funcParam f tmpNode actual pending rc => exact nextParam_goes _ rc hstack h ⟨hok.text, hok.results⟩
  | funcBody => cases hf

omit [CDouble D] in
/-- What follows once the table of the call has been popped. -/
theorem popFunc_ensures {t : TableId} {q : Ptr} {k : ASTType → Interp D Ptr} (p : Ptr)
    (h : Leads nlits typed s s') (hts : s.varTable = t :: ts) (hne : ts ≠ [])
    (hq : Usable ts s q) (hk : ∀ ty, k ty = pure .empty ∨ k ty = pure q) :
    Ensures (do
      removeVarTable
      k (← typeOf p)) s' fun r s'' ↦ s''.WF nlits typed ∧ s''.varTable = ts ∧
        Preserves ts s s'' ∧ Usable ts s'' r := by
  have hts' := h.evolves.varTable.trans hts
  refine Lib.meets_bind.2 ((removeVarTable_ensures h.wf hts' hne).mono ?_)
  rintro - s₂ ⟨hwf, hts₂, hpres⟩
  have hpres' : Preserves ts s s₂ := .trans (.of_evolves h.evolves) hpres
  refine (typeOf_readOnly p).then fun ty ↦ ?_
  rcases hk ty with heq | heq
  · rw [heq]
    exact ⟨hwf, hts₂, hpres', trivial⟩
  · rw [heq]
    exact ⟨hwf, hts₂, hpres', hq.preserves hpres'⟩

/-- The end of a call. -/
theorem leaveFunc_ensures {t oldTable : TableId} {tmpNode : Option Ptr} (returnNode : Option Ptr)
    (p : Ptr) (h : s.WF nlits typed) (hts : s.varTable = t :: ts) (hne : ts ≠ [])
    (htmp : ∀ q ∈ tmpNode, Usable ts s q) :
    Ensures (leaveFunc oldTable tmpNode returnNode p) s fun r s' ↦ s'.WF nlits typed ∧
      s'.varTable = ts ∧ Preserves ts s s' ∧ Usable ts s' r := by
  unfold leaveFunc
  split
  · next tmp ret =>
    refine Lib.meets_bind.2 ((updateADT_assigns oldTable tmp ret s h).mono fun b s₁ h₁ ↦ ?_)
    exact popFunc_ensures p h₁ hts hne (htmp tmp rfl) fun ty ↦ by cases ty <;> simp
  · exact popFunc_ensures p (.refl h) hts hne (.getD_empty htmp) fun ty ↦ by cases ty <;> simp

/-- A frame that has pushed a table pops it. What it returns is in the tables below. -/
theorem resume_own (host : Host D) {frame : Frame} {t : TableId} (p : Ptr)
    (hstack : Stacked nlits base s fs ts) (h : s.WF nlits typed) (hts : s.varTable = t :: ts)
    (hbase : base ≠ []) (hf : frame.ownsTable = true) (hok : frame.Ok nlits ts s) :
    Goes nlits typed base fs (resume host frame p) s := by
  cases frame with
  | context =>
    refine Lib.meets_bind.2 ((removeVarTable_ensures h hts (hstack.ne_nil hbase)).mono ?_)
    rintro - s₁ ⟨hwf, hts₁, hpres⟩
    exact forward_goes (hts₁ ▸ hstack.preserves hpres) hwf p
  | funcBody oldTable tmpNode returnNode =>
    refine Lib.meets_bind.2 ((leaveFunc_ensures returnNode p h hts (hstack.ne_nil hbase)
      fun q hq ↦ hok.results q (Option.mem_toList.2 hq)).mono ?_)
    rintro r s₁ ⟨hwf, hts₁, hpres, hr⟩
    exact .of_leads (hts₁ ▸ hstack.preserves hpres) (.refl hwf) (fun f hf ↦ absurd hf (by simp))
      (hts₁ ▸ hr)
  | _ => cases hf

end Interp

namespace Machine

/-- A step that ends an `array_union` finds elements of the same type. -/
def UnionOk (m : Machine D) : Prop :=
  ∀ curNode evaluated pending rc fs p, m.ctrl = .ret p →
    m.stack = .operands curNode evaluated pending rc :: fs →
      Interp.UnionOk m.ps curNode (evaluated ++ [p])

variable [CDouble D]

/-- Every step keeps the invariant of the machine. -/
theorem WF.step {m m' : Machine D} (host : Host D) (h : m.WF nlits typed base) (hbase : base ≠ [])
    (hunion : typed → m.UnionOk) (hstep : m.step host = .ok m') : m'.WF nlits typed base := by
  have hnext : ∀ {i : Interp D Interp.Next} {stack : List Frame},
      Interp.Goes nlits typed base stack i m.ps → (i m.ps).map (next stack) = .ok m' →
        m'.WF nlits typed base := by
    intro i stack hgoes heq
    cases hi : i m.ps with
    | error e =>
      rw [hi] at heq
      cases heq
    | ok r =>
      rw [hi] at heq
      cases heq
      exact hgoes.run hi
  obtain ⟨ctrl, stack, ps⟩ := m
  cases ctrl with
  | eval curNode rc => exact hnext (Interp.evalNode_goes host rc h.stack h.ps h.ctrl) hstep
  | evalPtr p actualParam rc =>
    exact hnext (Interp.evalPtr_goes rc h.stack h.ps h.ctrl.1 h.ctrl.2.1 h.ctrl.2.2) hstep
  | ret p =>
    cases stack with
    | nil => cases hstep
    | cons f fs =>
      have hstack : Stacked nlits base ps (f :: fs) ps.varTable := h.stack
      -- the frame at the top says whether the table at the top is its own
      generalize hts : ps.varTable = ts at hstack
      cases hstack with
      | plain hf hok hrest =>
        subst hts
        refine hnext (Interp.resume_plain host hrest h.ps hf hok h.ctrl fun htyped => ?_) hstep
        exact fun curNode evaluated pending rc heq ↦
          hunion htyped curNode evaluated pending rc fs p rfl (by rw [heq])
      | own hf hok hrest => exact hnext (Interp.resume_own host p hrest h.ps hts hbase hf hok) hstep

end Machine

end Meridian.MQL

import Meridian.MQL.ArrayTypes
import Meridian.Lib.Follows

/-!
# One function, two callers

Two calls of a function side by side, from states with the same global table and other tables that
differ. `Link` pairs the tables that both calls have: the global table, the table of the caller, in
which the node for the result is made, and the tables that the calls push. `AddrRel` pairs the cells
there. In the table of the caller these are only the new ones, so what it holds counts for nothing.

`Related` is the relation of two states, and `Both` says of two computations that the second one
follows the first and keeps it. The rules for the accesses to cells and tables are here; what is
composed of them has its own in the modules that follow.
-/

namespace Meridian.MQL

open Lib (Runs Follows)
open ParserState

variable {D : Type}

/-! ### The stacks of a table -/

/-- The stacks of a `VarTable`. -/
inductive Pile where
  | node
  | aux (k : Store)
  deriving DecidableEq

/-- What a stack has entries of. -/
abbrev Pile.Entry (D : Type) : Pile → Type
  | node => Node D
  | aux .string => Str
  | aux .vector => List Ptr
  | aux .map => StrMap Ptr

namespace VarTable

/-- The stack. -/
def pile (tbl : VarTable D) : (k : Pile) → List (k.Entry D)
  | .node => tbl.vStackAst
  | .aux .string => tbl.vStackString
  | .aux .vector => tbl.vStackVector
  | .aux .map => tbl.vStackMap

/-- The table with another stack. -/
def withPile (tbl : VarTable D) : (k : Pile) → List (k.Entry D) → VarTable D
  | .node, l => { tbl with vStackAst := l }
  | .aux .string, l => { tbl with vStackString := l }
  | .aux .vector, l => { tbl with vStackVector := l }
  | .aux .map, l => { tbl with vStackMap := l }

variable {tbl : VarTable D} {k k' : Pile} {l : List (k.Entry D)}

/-- The stack that has been replaced. -/
@[simp] theorem pile_withPile : (tbl.withPile k l).pile k = l := by
  rcases k with - | (- | - | -) <;> rfl

/-- The other three stacks stay. -/
theorem pile_withPile_of_ne (h : k' ≠ k) : (tbl.withPile k l).pile k' = tbl.pile k' := by
  rcases k with - | (- | - | -) <;> rcases k' with - | (- | - | -) <;>
    first
    | rfl
    | exact absurd rfl h

/-- The names stay. -/
@[simp] theorem vMap_withPile : (tbl.withPile k l).vMap = tbl.vMap := by
  rcases k with - | (- | - | -) <;> rfl

/-- The chain of the table stays. -/
@[simp] theorem prevVarTable_withPile :
    (tbl.withPile k l).prevVarTable = tbl.prevVarTable := by
  rcases k with - | (- | - | -) <;> rfl

end VarTable

namespace Interp

/-- `*a`. -/
def readCell (k : Pile) (a : Addr) : Interp D (k.Entry D) := do
  cell ((← getTable a.table).pile k) a.index

/-- `*a = x`. -/
def writeCell (k : Pile) (a : Addr) (x : k.Entry D) : Interp D Unit := do
  let tbl ← getTable a.table
  let _ ← cell (tbl.pile k) a.index
  setTable a.table (tbl.withPile k ((tbl.pile k).set a.index x))

/-- A new cell. -/
def newCell (k : Pile) (t : TableId) (x : k.Entry D) : Interp D Addr := do
  let tbl ← getTable t
  setTable t (tbl.withPile k (tbl.pile k ++ [x]))
  pure ⟨t, (tbl.pile k).length⟩

variable {s s' : ParserState D} {k : Pile} {a : Addr} {t : TableId} {x : k.Entry D}

/-- A table is read if it has not been popped. -/
theorem runs_getTable_iff {tbl : VarTable D} :
    Runs (getTable t) s tbl s' ↔ s' = s ∧ s.tables t = some tbl := by
  simp only [getTable, Lib.runs_bind, Lib.runs_get]
  constructor
  · rintro ⟨_, _, ⟨rfl, rfl⟩, h⟩
    split at h
    · next tbl' ht =>
      obtain ⟨rfl, rfl⟩ := Lib.runs_pure.1 h
      exact ⟨rfl, ht⟩
    · exact absurd h Lib.runs_throw
  · rintro ⟨rfl, ht⟩
    refine ⟨s', s', ⟨rfl, rfl⟩, ?_⟩
    rw [ht]
    exact Lib.runs_pure.2 ⟨rfl, rfl⟩

/-- A cell is read if it is there. -/
theorem runs_cell_iff {α : Type} {l : List α} {i : ℕ} {y : α} :
    Runs (cell l i) s y s' ↔ s' = s ∧ l[i]? = some y := by
  rw [cell]
  split
  · next z hz => rw [hz, Lib.runs_pure, Option.some.injEq, eq_comm (a := s'), and_comm]
  · next hz => simp [hz]

/-- The table at the top, which is read only. -/
theorem runs_getVarTable_iff :
    Runs getVarTable s t s' ↔ s' = s ∧ s.varTable.head? = some t := by
  simp only [getVarTable, Lib.runs_bind, Lib.runs_get]
  cases hts : s.varTable with
  | nil =>
    refine ⟨?_, fun h ↦ absurd h.2 (by simp)⟩
    rintro ⟨_, _, ⟨rfl, rfl⟩, h⟩
    rw [hts] at h
    exact absurd h Lib.runs_throw
  | cons u us =>
    constructor
    · rintro ⟨_, _, ⟨rfl, rfl⟩, h⟩
      rw [hts] at h
      obtain ⟨rfl, rfl⟩ := Lib.runs_pure.1 h
      exact ⟨rfl, rfl⟩
    · intro h
      refine ⟨s, s, ⟨rfl, rfl⟩, ?_⟩
      rw [hts]
      exact Lib.runs_pure.2 ⟨Option.some.inj h.2, h.1.symm⟩

/-- A cell of any stack is read. -/
theorem runs_readCell_iff :
    Runs (readCell k a) s x s' ↔ s' = s ∧ ∃ tbl, s.tables a.table = some tbl ∧
      (tbl.pile k)[a.index]? = some x := by
  simp only [readCell, Lib.runs_bind, runs_getTable_iff, runs_cell_iff]
  constructor
  · rintro ⟨tbl, _, ⟨rfl, ht⟩, hs, hx⟩
    exact ⟨hs, tbl, ht, hx⟩
  · rintro ⟨hs, tbl, ht, hx⟩
    exact ⟨tbl, s, ⟨rfl, ht⟩, hs, hx⟩

/-- A cell of any stack is overwritten: it is there, and the stack keeps its length. -/
theorem runs_writeCell_iff :
    Runs (writeCell k a x) s () s' ↔ ∃ tbl, s.tables a.table = some tbl ∧
      a.index < (tbl.pile k).length ∧
        s' = s.withTable a.table (tbl.withPile k ((tbl.pile k).set a.index x)) := by
  simp only [writeCell, Lib.runs_bind, runs_getTable_iff, runs_cell_iff, setTable, Lib.runs_modify]
  constructor
  · rintro ⟨tbl, _, ⟨rfl, ht⟩, _, _, ⟨rfl, hx⟩, hs⟩
    exact ⟨tbl, ht, (List.getElem?_eq_some_iff.1 hx).1, hs.symm⟩
  · rintro ⟨tbl, ht, hlt, hs⟩
    exact ⟨tbl, s, ⟨rfl, ht⟩, _, s, ⟨rfl, List.getElem?_eq_getElem hlt⟩, hs.symm⟩

/-- A cell of any stack is made, at the end of the stack. -/
theorem runs_newCell_iff :
    Runs (newCell k t x) s a s' ↔ ∃ tbl, s.tables t = some tbl ∧ a = ⟨t, (tbl.pile k).length⟩ ∧
      s' = s.withTable t (tbl.withPile k (tbl.pile k ++ [x])) := by
  simp only [newCell, Lib.runs_bind, runs_getTable_iff, setTable, Lib.runs_modify, Lib.runs_pure]
  constructor
  · rintro ⟨tbl, _, ⟨rfl, ht⟩, _, _, hs, ha, rfl⟩
    exact ⟨tbl, ht, ha.symm, hs.symm⟩
  · rintro ⟨tbl, ht, ha, hs⟩
    exact ⟨tbl, s, ⟨rfl, ht⟩, (), _, rfl, ha.symm, hs.symm⟩

end Interp

/-! ### The two callers -/

/-- A state in which a function is called, and the table of the caller. -/
structure Caller (D : Type) where
  state : ParserState D
  table : TableId
  pos : 0 < table
  top : state.varTable.head? = some table
  last : state.varTable.getLast? = some 0
  lt : table < state.nextTable
  fresh : ∀ t, state.nextTable ≤ t → state.tables t = none
  prev : ∀ tbl, state.tables table = some tbl → ∀ t ∈ tbl.prevVarTable, t < state.nextTable

namespace Caller

/-- The first table that the call pushes. -/
abbrev next (c : Caller D) : TableId := c.state.nextTable

/-- How many cells there are before the call. -/
def size (c : Caller D) (k : Pile) (t : TableId) : ℕ :=
  match c.state.tables t with
  | some tbl => (tbl.pile k).length
  | none => 0

/-- The cells of a table that is there. -/
theorem size_eq {c : Caller D} {t : TableId} {tbl : VarTable D} (ht : c.state.tables t = some tbl)
    (k : Pile) : c.size k t = (tbl.pile k).length := by
  rw [size, ht]

/-- A table that the call pushes has none before it. -/
theorem size_next (c : Caller D) (k : Pile) (j : ℕ) : c.size k (c.next + j) = 0 := by
  rw [size, c.fresh _ (Nat.le_add_right ..)]

/-- What the names stand for that are seen from a table. -/
def scope (s : ParserState D) (t : TableId) : Option (StrMap Ptr × List TableId) :=
  (s.tables t).map fun tbl ↦ (tbl.vMap, tbl.prevVarTable)

/-- What is there at the call is in a table that was there. -/
theorem lt_of_content {c : Caller D} {e : Cell} {x : Content D} (hx : c.state.content e = some x) :
    e.addr.table < c.next := by
  refine Nat.lt_of_not_le fun hle ↦ ?_
  rw [content, c.fresh _ hle] at hx
  cases hx

/-- What a call leaves of the tables that are there: no name in them changes its meaning, and as long
as the parameters are assigned, no cell is overwritten. -/
structure Kept (c : Caller D) (frozen : Prop) (s : ParserState D) : Prop where
  scope : ∀ t < c.next, Caller.scope s t = Caller.scope c.state t
  content : frozen → ∀ e x, c.state.content e = some x → s.content e = some x

/-- The other tables do not count. -/
theorem Kept.congr {c : Caller D} {frozen : Prop} {s s' : ParserState D} (h : c.Kept frozen s)
    (htables : ∀ t < c.next, s'.tables t = s.tables t) : c.Kept frozen s' := by
  refine ⟨fun u hu ↦ ?_, fun hfrozen e x hx ↦ ?_⟩
  · rw [Caller.scope, htables u hu]
    exact h.scope u hu
  · rw [ParserState.content, htables _ (lt_of_content hx)]
    exact h.content hfrozen e x hx

/-- A table is written to. As long as the parameters are assigned it has to be one of the call. -/
theorem Kept.withTable {c : Caller D} {frozen : Prop} {s : ParserState D} {t : TableId}
    {tbl tbl' : VarTable D} (h : c.Kept frozen s)
    (ht : s.tables t = some tbl) (hwrite : frozen → c.next ≤ t)
    (hscope : t < c.next → tbl'.vMap = tbl.vMap ∧ tbl'.prevVarTable = tbl.prevVarTable) :
    c.Kept frozen (s.withTable t tbl') := by
  refine ⟨fun u hu ↦ ?_, fun hfrozen e x hx ↦ ?_⟩
  · rw [← h.scope u hu, Caller.scope, Caller.scope]
    by_cases hut : u = t
    · subst hut
      rw [withTable_same, ht, Option.map_some, Option.map_some, (hscope hu).1, (hscope hu).2]
    · rw [withTable_of_ne hut]
  · have hlt : e.addr.table < t := Nat.lt_of_lt_of_le (lt_of_content hx) (hwrite hfrozen)
    rw [ParserState.content, withTable_of_ne (Nat.ne_of_lt hlt)]
    exact h.content hfrozen e x hx

open Interp

/-- A lookup reads no more than the names of the tables in the chain. -/
theorem runs_lookupIn_congr {s s₁ : ParserState D} {m : TableId} {ts : List TableId}
    {y : Str} {r : Option Ptr} (hscope : ∀ t < m, scope s t = scope s₁ t)
    (hts : ∀ t ∈ ts, t < m) (h : Runs (lookupIn y ts) s₁ r s₁) : Runs (lookupIn y ts) s r s := by
  induction ts with
  | nil =>
    obtain ⟨rfl, -⟩ := Lib.runs_pure.1 h
    exact Lib.runs_pure.2 ⟨rfl, rfl⟩
  | cons t ts ih =>
    obtain ⟨tbl₁, _, htbl, h⟩ := Lib.runs_bind.1 h
    obtain ⟨rfl, ht₁⟩ := runs_getTable_iff.1 htbl
    have heq := hscope t (hts t List.mem_cons_self)
    rw [scope, scope, ht₁, Option.map_some] at heq
    obtain ⟨tbl, ht, hmap⟩ := Option.map_eq_some_iff.1 heq
    refine Lib.runs_bind.2 ⟨tbl, s, runs_getTable_iff.2 ⟨rfl, ht⟩, ?_⟩
    rw [(Prod.mk.inj hmap).1]
    split at h
    · obtain ⟨rfl, -⟩ := Lib.runs_pure.1 h
      exact Lib.runs_pure.2 ⟨rfl, rfl⟩
    · exact ih (fun u hu ↦ hts u (List.mem_cons_of_mem _ hu)) h

/-- What a name stands for in the table of the caller does not change. -/
theorem Kept.runs_lookup {c : Caller D} {frozen : Prop} {s : ParserState D} {y : Str}
    {r : Option Ptr} (h : c.Kept frozen s) (hrun : Runs (lookup c.table y) c.state r c.state) :
    Runs (lookup c.table y) s r s := by
  obtain ⟨tbl₁, _, htbl, hin⟩ := Lib.runs_bind.1 hrun
  obtain ⟨rfl, ht₁⟩ := runs_getTable_iff.1 htbl
  have heq := h.scope c.table c.lt
  rw [Caller.scope, Caller.scope, ht₁, Option.map_some] at heq
  obtain ⟨tbl, ht, hmap⟩ := Option.map_eq_some_iff.1 heq
  refine Lib.runs_bind.2 ⟨tbl, s, runs_getTable_iff.2 ⟨rfl, ht⟩, ?_⟩
  rw [(Prod.mk.inj hmap).2]
  refine runs_lookupIn_congr h.scope (List.forall_mem_cons.2 ⟨c.lt, ?_⟩) hin
  exact c.prev tbl₁ ht₁

/-- The table is a new one. -/
theorem Kept.pushed {c : Caller D} {frozen : Prop} {s : ParserState D} {prev : List TableId}
    (h : c.Kept frozen s) (hle : c.next ≤ s.nextTable) : c.Kept frozen (s.pushed prev) :=
  h.congr fun _ hu ↦ pushed_of_ne (Nat.ne_of_lt (Nat.lt_of_lt_of_le hu hle))

/-- The table is one of the call. -/
theorem Kept.popped {c : Caller D} {frozen : Prop} {s : ParserState D} {t : TableId}
    {tbl : VarTable D} (h : c.Kept frozen s) (hle : c.next ≤ t) :
    c.Kept frozen (s.popped t tbl) :=
  h.congr fun _ hu ↦ popped_of_ne (Nat.ne_of_lt (Nat.lt_of_lt_of_le hu hle))

end Caller

/-- Two callers of one function. -/
structure TwoCallers (D : Type) where
  one : Caller D
  two : Caller D
  nlits : ℕ
  global : two.state.tables 0 = one.state.tables 0

/-- Both maps have the same keys, with entries that go together. -/
def MapRel (R : Ptr → Ptr → Prop) (m m' : StrMap Ptr) : Prop :=
  ∀ x : Str, Option.Rel R m[x]? m'[x]?

namespace TwoCallers

variable (K : TwoCallers D)

/-- Tables that the calls push. -/
def New (t t' : TableId) : Prop := ∃ j, t = K.one.next + j ∧ t' = K.two.next + j

/-- Tables that both calls have. -/
inductive Link : TableId → TableId → Prop
  | global : Link 0 0
  | caller : Link K.one.table K.two.table
  | new {t t' : TableId} (h : K.New t t') : Link t t'

/-- Tables whose names both calls see. -/
def Scope (t t' : TableId) : Prop := K.Link t t' ∧ t ≠ K.one.table

/-- Cells of the global table that both calls have from the start: the nodes that have not been
received, and what belongs to them. -/
def Shared : Pile → ℕ → Prop
  | .node, i => ∃ tbl n, K.one.state.tables 0 = some tbl ∧ tbl.vStackAst[i]? = some n ∧ n.Own
  | .aux k, i => ∃ tbl j n, K.one.state.tables 0 = some tbl ∧ tbl.vStackAst[(j : ℕ)]? = some n ∧
    n.Own ∧ n.aux = some (k, ⟨0, i⟩)

/-- Cells that both calls have: the shared ones, and those that they have made. -/
inductive AddrRel (k : Pile) : Addr → Addr → Prop
  | fresh {t t' : TableId} (h : K.Link t t') (j : ℕ) :
    AddrRel k ⟨t, K.one.size k t + j⟩ ⟨t', K.two.size k t' + j⟩
  | shared {i : ℕ} (h : K.Shared k i) : AddrRel k ⟨0, i⟩ ⟨0, i⟩

/-- Pointers that go together. -/
inductive PtrRel : Ptr → Ptr → Prop
  | null : PtrRel .null .null
  | node {a a' : Addr} (h : K.AddrRel .node a a') : PtrRel (.node a) (.node a')
  | empty : PtrRel .empty .empty
  | breakToken : PtrRel .breakToken .breakToken
  | continueToken : PtrRel .continueToken .continueToken
  | returnNode : PtrRel .returnNode .returnNode
  | func (f : Func) (h : f.fNode.All (VarTable.TextNode K.nlits)) : PtrRel (.func f) (.func f)
  | adt (d : AdtDef) : PtrRel (.adt d) (.adt d)

/-- Pointers that go together, to a node of this table if to a node. -/
def SlotRel (t : TableId) (p p' : Ptr) : Prop :=
  K.PtrRel p p' ∧ ∀ a, p = .node a → a.table = t

/-- Pointers that go together in a vector. Only in a table that a call has pushed can they lead to
another table. -/
def ElemRel (t : TableId) (p p' : Ptr) : Prop :=
  K.PtrRel p p' ∧ (t < K.one.next → ∀ a, p = .node a → a.table = t)

/-- A struct name that means the same to both callers. -/
def Agreed (x : Str) : Prop :=
  ∃ d : AdtDef, d.adtTypeName = x ∧
    Runs (Interp.lookup K.one.table x) K.one.state (some (.adt d)) K.one.state ∧
    Runs (Interp.lookup K.two.table x) K.two.state (some (.adt d)) K.two.state

/-- A name that is looked up from the two tables with the same result. -/
def Sees (t t' : TableId) (x : Str) : Prop :=
  K.Scope t t' ∨ (t = K.one.table ∧ t' = K.two.table ∧ K.Agreed x)

/-- Nodes that go together, in these two tables. -/
inductive NodeRel (t t' : TableId) : Node D → Node D → Prop
  | raw : NodeRel t t' .raw .raw
  | int (i : Int32) : NodeRel t t' (.int i) (.int i)
  | double (d : D) : NodeRel t t' (.double d) (.double d)
  | string {c c' : Addr} (h : K.AddrRel (.aux .string) c c') (ht : c.table = t) :
    NodeRel t t' (.string c) (.string c')
  | array {aType : UInt32} {name : Option Str} {v v' : Addr}
    (h : K.AddrRel (.aux .vector) v v') (ht : v.table = t)
    (hname : ∀ x ∈ name, K.Sees t t' x) :
    NodeRel t t' (.array aType name v (some t)) (.array aType name v' (some t'))
  | varAdt {name : Str} {m m' : Addr} (h : K.AddrRel (.aux .map) m m') (ht : m.table = t)
    (hname : K.Sees t t' name) : NodeRel t t' (.varAdt name m false) (.varAdt name m' false)
  | sep {v v' : Addr} (h : K.AddrRel (.aux .vector) v v') : NodeRel t t' (.sep v) (.sep v')

/-- Entries of stacks of these two tables that go together. -/
def EntryRel (t t' : TableId) : (k : Pile) → k.Entry D → k.Entry D → Prop
  | .node => K.NodeRel t t'
  | .aux .string => Eq
  | .aux .vector => List.Forall₂ (K.ElemRel t)
  | .aux .map => MapRel (K.SlotRel t)

/-- Tables that go together. -/
structure TableRel (t t' : TableId) (tbl tbl' : VarTable D) : Prop where
  entry : ∀ (k : Pile) (i i' : ℕ), K.AddrRel k ⟨t, i⟩ ⟨t', i'⟩ →
    Option.Rel (K.EntryRel t t' k) (tbl.pile k)[i]? (tbl'.pile k)[i']?
  grown : ∀ k : Pile, ∃ j, (tbl.pile k).length = K.one.size k t + j ∧
    (tbl'.pile k).length = K.two.size k t' + j
  vMap : t ≠ K.one.table → MapRel (K.SlotRel t) tbl.vMap tbl'.vMap
  prev : t ≠ K.one.table → List.Forall₂ K.Scope tbl.prevVarTable tbl'.prevVarTable

/-- States that go together, after `n` tables have been pushed. `frozen` says that the parameters are
being assigned. -/
structure Related (frozen : Prop) (n : ℕ) (s s' : ParserState D) : Prop where
  tables : ∀ t t', K.Link t t' → Option.Rel (K.TableRel t t') (s.tables t) (s'.tables t')
  stack : ∃ ts ts', s.varTable = ts ++ K.one.state.varTable ∧
    s'.varTable = ts' ++ K.two.state.varTable ∧ ts.length = n ∧ List.Forall₂ K.New ts ts'
  next : ∃ j, s.nextTable = K.one.next + j ∧ s'.nextTable = K.two.next + j
  count : s'.astAllocationCount = s.astAllocationCount
  evals : s'.evalCount = s.evalCount
  kept : K.one.Kept frozen s
  kept' : K.two.Kept frozen s'

/-- A table that may be written to. -/
def Writable (frozen : Prop) (t : TableId) : Prop := frozen → K.one.next ≤ t

variable {K} {t t' u u' : TableId} {k : Pile} {a a' b b' : Addr} {p p' : Ptr}
  {tbl tbl' : VarTable D}

/-- The tables of a call come after those that were there. -/
theorem New.le (h : K.New t t') : K.one.next ≤ t := by
  obtain ⟨j, rfl, -⟩ := h
  exact Nat.le_add_right ..

/-- The same for the second call. -/
theorem New.le' (h : K.New t t') : K.two.next ≤ t' := by
  obtain ⟨j, -, rfl⟩ := h
  exact Nat.le_add_right ..

/-- None of them is the global table. -/
theorem New.pos (h : K.New t t') : 0 < t :=
  Nat.lt_of_lt_of_le (K.one.pos.trans K.one.lt) h.le

/-- The same for the second call. -/
theorem New.pos' (h : K.New t t') : 0 < t' :=
  Nat.lt_of_lt_of_le (K.two.pos.trans K.two.lt) h.le'

/-- Tables are paired one to one. -/
theorem Link.inj (h : K.Link t t') (h' : K.Link u u') : t = u ↔ t' = u' := by
  -- the global table is 0, the tables of the callers come next and those of the calls last
  cases h with
  | global =>
    cases h' with
    | global => exact Iff.rfl
    | caller => exact iff_of_false (Nat.ne_of_lt K.one.pos) (Nat.ne_of_lt K.two.pos)
    | new h' => exact iff_of_false (Nat.ne_of_lt h'.pos) (Nat.ne_of_lt h'.pos')
  | caller =>
    cases h' with
    | global => exact iff_of_false (Nat.ne_of_gt K.one.pos) (Nat.ne_of_gt K.two.pos)
    | caller => exact iff_of_true rfl rfl
    | new h' =>
      exact iff_of_false (Nat.ne_of_lt (Nat.lt_of_lt_of_le K.one.lt h'.le))
        (Nat.ne_of_lt (Nat.lt_of_lt_of_le K.two.lt h'.le'))
  | new h =>
    cases h' with
    | global => exact iff_of_false (Nat.ne_of_gt h.pos) (Nat.ne_of_gt h.pos')
    | caller =>
      exact iff_of_false (Nat.ne_of_gt (Nat.lt_of_lt_of_le K.one.lt h.le))
        (Nat.ne_of_gt (Nat.lt_of_lt_of_le K.two.lt h.le'))
    | new h' =>
      obtain ⟨i, rfl, rfl⟩ := h
      obtain ⟨j, rfl, rfl⟩ := h'
      exact Nat.add_left_cancel_iff.trans Nat.add_left_cancel_iff.symm

/-- A table has one partner. -/
theorem Link.unique (h : K.Link t t') (h' : K.Link t u') : t' = u' := (h.inj h').1 rfl

/-- The names of a table of the call are the same to both. -/
theorem New.scope (h : K.New t t') : K.Scope t t' :=
  ⟨.new h, Nat.ne_of_gt (Nat.lt_of_lt_of_le K.one.lt h.le)⟩

/-- So are those of the global table. -/
theorem scope_zero : K.Scope 0 0 := ⟨.global, Nat.ne_of_lt K.one.pos⟩

/-- A table of the call is paired with one of the other call. -/
theorem Link.lt_iff (h : K.Link t t') : t < K.one.next ↔ t' < K.two.next := by
  cases h with
  | global => exact iff_of_true (K.one.pos.trans K.one.lt) (K.two.pos.trans K.two.lt)
  | caller => exact iff_of_true K.one.lt K.two.lt
  | new h => exact iff_of_false (Nat.not_lt_of_le h.le) (Nat.not_lt_of_le h.le')

/-- Both callers have the same global table. -/
theorem size_zero (k : Pile) : K.two.size k 0 = K.one.size k 0 := by
  rw [Caller.size, Caller.size, K.global]

/-- Cells are paired in tables that are. -/
theorem AddrRel.link (h : K.AddrRel k a a') : K.Link a.table a'.table := by
  cases h with
  | fresh h j => exact h
  | shared h => exact .global

/-- Within a table, cells are paired one to one: shared ones have the same index, and the global
tables the same size. -/
theorem AddrRel.index_eq (h : K.AddrRel k a a') (h' : K.AddrRel k b b') (ht : a.table = b.table) :
    a.index = b.index ↔ a'.index = b'.index := by
  have hzero := K.size_zero k
  cases h with
  | fresh h i =>
    cases h' with
    | fresh h' j =>
      obtain rfl := ht
      obtain rfl := h.unique h'
      simp only [Nat.add_left_cancel_iff]
    | shared h' =>
      obtain rfl := ht
      obtain rfl := h.unique .global
      simp only [hzero]
  | shared h =>
    cases h' with
    | fresh h' j =>
      obtain rfl := ht
      obtain rfl := h'.unique .global
      simp only [hzero]
    | shared h' => exact Iff.rfl

/-- Cells are paired one to one. -/
theorem AddrRel.inj (h : K.AddrRel k a a') (h' : K.AddrRel k b b') : a = b ↔ a' = b' := by
  have htable := h.link.inj h'.link
  constructor
  · rintro rfl
    have hindex := (h.index_eq h' rfl).1 rfl
    obtain ⟨u, i⟩ := a'
    obtain ⟨u', i'⟩ := b'
    obtain rfl : u = u' := htable.1 rfl
    obtain rfl : i = i' := hindex
    rfl
  · rintro rfl
    have htable' := htable.2 rfl
    have hindex := (h.index_eq h' htable').2 rfl
    obtain ⟨u, i⟩ := a
    obtain ⟨u', i'⟩ := b
    obtain rfl : u = u' := htable'
    obtain rfl : i = i' := hindex
    rfl

/-- The cells that are made next. -/
theorem TableRel.addrRel (h : K.TableRel t t' tbl tbl') (hlink : K.Link t t') (k : Pile) :
    K.AddrRel k ⟨t, (tbl.pile k).length⟩ ⟨t', (tbl'.pile k).length⟩ := by
  obtain ⟨j, hj, hj'⟩ := h.grown k
  rw [hj, hj']
  exact .fresh hlink j

/-- A pointer leads to one table at most. -/
theorem PtrRel.exists_slotRel (h : K.PtrRel p p') : ∃ t, K.SlotRel t p p' := by
  cases h with
  | @node a a' h =>
    refine ⟨a.table, .node h, ?_⟩
    rintro _ ⟨⟩
    rfl
  | null => exact ⟨0, .null, fun a ha ↦ by cases ha⟩
  | empty => exact ⟨0, .empty, fun a ha ↦ by cases ha⟩
  | breakToken => exact ⟨0, .breakToken, fun a ha ↦ by cases ha⟩
  | continueToken => exact ⟨0, .continueToken, fun a ha ↦ by cases ha⟩
  | returnNode => exact ⟨0, .returnNode, fun a ha ↦ by cases ha⟩
  | func f hf => exact ⟨0, .func f hf, fun a ha ↦ by cases ha⟩
  | adt d => exact ⟨0, .adt d, fun a ha ↦ by cases ha⟩

/-- A pointer into the table of the vector. -/
theorem SlotRel.elemRel (h : K.SlotRel t p p') : K.ElemRel t p p' := ⟨h.1, fun _ ↦ h.2⟩

/-- Nothing can be wrong with a vector in a table that a call has pushed. -/
theorem PtrRel.elemRel (h : K.PtrRel p p') (ht : K.one.next ≤ t) : K.ElemRel t p p' :=
  ⟨h, fun hlt ↦ absurd hlt (Nat.not_lt_of_le ht)⟩

/-! ### Writing to a table -/

variable {frozen : Prop} {n : ℕ} {s s' : ParserState D}

/-- The partner of a table is there too. -/
theorem Related.table (h : K.Related frozen n s s') (hlink : K.Link t t') (ht : s.tables t = some tbl) :
    ∃ tbl', s'.tables t' = some tbl' ∧ K.TableRel t t' tbl tbl' := by
  have hrel := h.tables t t' hlink
  rw [ht] at hrel
  generalize s'.tables t' = o at hrel ⊢
  cases hrel with
  | some hrel => exact ⟨_, rfl, hrel⟩

/-- The tables that have been written to go together again. -/
theorem Related.withTable {tbl₁ tbl₁' : VarTable D} (h : K.Related frozen n s s') (hlink : K.Link t t')
    (hwrite : K.Writable frozen t) (ht : s.tables t = some tbl) (ht' : s'.tables t' = some tbl')
    (hrel : K.TableRel t t' tbl₁ tbl₁')
    (hscope : t < K.one.next → tbl₁.vMap = tbl.vMap ∧ tbl₁.prevVarTable = tbl.prevVarTable)
    (hscope' : t < K.one.next → tbl₁'.vMap = tbl'.vMap ∧
      tbl₁'.prevVarTable = tbl'.prevVarTable) :
    K.Related frozen n (s.withTable t tbl₁) (s'.withTable t' tbl₁') := by
  refine ⟨fun u u' hu ↦ ?_, h.stack, h.next, h.count, h.evals, ?_, ?_⟩
  · by_cases hut : u = t
    · subst hut
      obtain rfl := hu.unique hlink
      rw [withTable_same, withTable_same]
      exact .some hrel
    · rw [withTable_of_ne hut, withTable_of_ne fun heq ↦ hut ((hu.inj hlink).2 heq)]
      exact h.tables u u' hu
  · exact h.kept.withTable ht hwrite hscope
  · refine h.kept'.withTable ht' (fun hfrozen ↦ ?_) fun hlt ↦ hscope' (hlink.lt_iff.2 hlt)
    exact Nat.le_of_not_lt fun hlt ↦ Nat.not_lt_of_le (hwrite hfrozen) (hlink.lt_iff.2 hlt)

/-- Entries that go together replace two that did. -/
theorem TableRel.set {x x' : k.Entry D} (h : K.TableRel t t' tbl tbl') (ha : K.AddrRel k a a')
    (hat : a.table = t) (hat' : a'.table = t') (hx : K.EntryRel t t' k x x') :
    K.TableRel t t' (tbl.withPile k ((tbl.pile k).set a.index x))
      (tbl'.withPile k ((tbl'.pile k).set a'.index x')) := by
  subst hat hat'
  refine ⟨fun k' i i' hi ↦ ?_, fun k' ↦ ?_, fun hne ↦ ?_, fun hne ↦ ?_⟩
  · by_cases hk : k' = k
    · subst hk
      rw [VarTable.pile_withPile, VarTable.pile_withPile, List.getElem?_set, List.getElem?_set]
      have hrel := h.entry k' i i' hi
      -- the cell that is set in the one table is paired with the one that is set in the other
      by_cases hia : a.index = i
      · have hia' : a'.index = i' := (ha.index_eq hi rfl).1 hia
        have hlt : a.index < (tbl.pile k').length ↔ a'.index < (tbl'.pile k').length := by
          rw [hia, hia', ← not_iff_not, Nat.not_lt, Nat.not_lt, ← List.getElem?_eq_none_iff,
            ← List.getElem?_eq_none_iff]
          generalize (tbl.pile k')[i]? = o at hrel
          generalize (tbl'.pile k')[i']? = o' at hrel
          cases hrel <;> simp
        rw [if_pos hia, if_pos hia']
        by_cases hl : a.index < (tbl.pile k').length
        · rw [if_pos hl, if_pos (hlt.1 hl)]
          exact .some hx
        · rw [if_neg hl, if_neg fun hl' ↦ hl (hlt.2 hl')]
          exact .none
      · rw [if_neg hia, if_neg fun heq ↦ hia ((ha.index_eq hi rfl).2 heq)]
        exact hrel
    · rw [VarTable.pile_withPile_of_ne hk, VarTable.pile_withPile_of_ne hk]
      exact h.entry k' i i' hi
  · by_cases hk : k' = k
    · subst hk
      simpa using h.grown k'
    · rw [VarTable.pile_withPile_of_ne hk, VarTable.pile_withPile_of_ne hk]
      exact h.grown k'
  · simpa using h.vMap hne
  · simpa using h.prev hne

/-- New entries that go together. -/
theorem TableRel.append {x x' : k.Entry D} (h : K.TableRel t t' tbl tbl') (hlink : K.Link t t')
    (hx : K.EntryRel t t' k x x') :
    K.TableRel t t' (tbl.withPile k (tbl.pile k ++ [x])) (tbl'.withPile k (tbl'.pile k ++ [x'])) := by
  refine ⟨fun k' i i' hi ↦ ?_, fun k' ↦ ?_, fun hne ↦ ?_, fun hne ↦ ?_⟩
  · by_cases hk : k' = k
    · subst hk
      rw [VarTable.pile_withPile, VarTable.pile_withPile]
      have hrel := h.entry k' i i' hi
      have hlen := (h.addrRel hlink k').index_eq hi rfl
      simp only at hlen
      by_cases hil : (tbl.pile k').length = i
      · have hil' := hlen.1 hil
        subst hil hil'
        rw [List.getElem?_concat_length, List.getElem?_concat_length]
        exact .some hx
      -- not the new entry in the one table, so not in the other
      · have hil' : (tbl'.pile k').length ≠ i' := fun heq ↦ hil (hlen.2 heq)
        have hget : ∀ {l : List (k'.Entry D)} {y : k'.Entry D} {m : ℕ}, l.length ≠ m →
            (l ++ [y])[m]? = l[m]? := by
          intro l y m hm
          rcases Nat.lt_or_gt_of_ne hm with hlt | hlt
          · rw [List.getElem?_eq_none (by simp; omega), List.getElem?_eq_none (Nat.le_of_lt hlt)]
          · exact List.getElem?_append_left hlt
        rw [hget hil, hget hil']
        exact hrel
    · rw [VarTable.pile_withPile_of_ne hk, VarTable.pile_withPile_of_ne hk]
      exact h.entry k' i i' hi
  · by_cases hk : k' = k
    · subst hk
      obtain ⟨j, hj, hj'⟩ := h.grown k'
      refine ⟨j + 1, ?_, ?_⟩
      · rw [VarTable.pile_withPile, List.length_append, hj]
        rfl
      · rw [VarTable.pile_withPile, List.length_append, hj']
        rfl
    · rw [VarTable.pile_withPile_of_ne hk, VarTable.pile_withPile_of_ne hk]
      exact h.grown k'
  · simpa using h.vMap hne
  · simpa using h.prev hne

/-! ### Computations side by side -/

variable (K) {α β γ δ : Type}

/-- Whenever the first computation ends, so does the second one, and the states and the results go
together again. -/
def Both (frozen : Prop) (n : ℕ) (m : Interp D α) (m' : Interp D β) (R : α → β → Prop) : Prop :=
  ∀ s s', K.Related frozen n s s' → Follows m s m' s' fun x t y t' ↦ K.Related frozen n t t' ∧ R x y

variable {K} {m : Interp D α} {m' : Interp D β} {R R' : α → β → Prop} {Q : γ → δ → Prop}

/-- A value. -/
theorem both_pure {x : α} {y : β} (h : R x y) : K.Both frozen n (pure x) (pure y) R :=
  fun _ _ hs ↦ Lib.follows_pure ⟨hs, h⟩

/-- After a fault there is nothing to follow. -/
theorem both_throw {e : Fault} : K.Both frozen n (throw e) m' R := fun _ _ _ ↦ Lib.follows_throw

/-- Less about the results. -/
theorem Both.mono (h : K.Both frozen n m m' R) (hR : ∀ x y, R x y → R' x y) : K.Both frozen n m m' R' :=
  fun s s' hs ↦ (h s s' hs).mono fun x _ y _ hxy ↦ ⟨hxy.1, hR x y hxy.2⟩

/-- One computation after another. -/
theorem Both.bind {f : α → Interp D γ} {f' : β → Interp D δ} (h : K.Both frozen n m m' R)
    (hf : ∀ x y, R x y → K.Both frozen n (f x) (f' y) Q) : K.Both frozen n (m >>= f) (m' >>= f') Q :=
  fun s s' hs ↦ (h s s' hs).bind fun x t y t' hxy ↦ hf x y hxy.2 t t' hxy.1

/-- A condition that is the same in both calls. -/
theorem both_ite {c : Prop} [Decidable c] {m₁ : Interp D α} {m₁' : Interp D β}
    (h : K.Both frozen n m m' R) (h₁ : K.Both frozen n m₁ m₁' R) :
    K.Both frozen n (if c then m else m₁) (if c then m' else m₁') R := by
  split
  · exact h
  · exact h₁

/-! ### Cells -/

open Interp

variable {x x' : k.Entry D}

/-- Cells that are paired are both there, and what they hold goes together. -/
theorem readCell_both (h : K.AddrRel k a a') :
    K.Both frozen n (readCell k a) (readCell (D := D) k a') (K.EntryRel a.table a'.table k) := by
  intro s s' hs x t hrun
  obtain ⟨rfl, tbl, ht, hx⟩ := runs_readCell_iff.1 hrun
  obtain ⟨tbl', ht', hrel⟩ := hs.table h.link ht
  have hentry := hrel.entry k a.index a'.index h
  rw [hx] at hentry
  generalize hx' : (tbl'.pile k)[a'.index]? = o at hentry
  cases hentry with
  | some hentry => exact ⟨_, s', runs_readCell_iff.2 ⟨rfl, tbl', ht', hx'⟩, hs, hentry⟩

/-- Cells that are paired are overwritten together. -/
theorem writeCell_both (h : K.AddrRel k a a') (hwrite : K.Writable frozen a.table)
    (hx : K.EntryRel a.table a'.table k x x') :
    K.Both frozen n (writeCell k a x) (writeCell k a' x') fun _ _ ↦ True := by
  intro s s' hs _ t hrun
  obtain ⟨tbl, ht, hlt, rfl⟩ := runs_writeCell_iff.1 hrun
  obtain ⟨tbl', ht', hrel⟩ := hs.table h.link ht
  have hlt' : a'.index < (tbl'.pile k).length := by
    have hentry := hrel.entry k a.index a'.index h
    rw [List.getElem?_eq_getElem hlt] at hentry
    generalize hx' : (tbl'.pile k)[a'.index]? = o at hentry
    cases hentry with
    | some _ => exact (List.getElem?_eq_some_iff.1 hx').1
  refine ⟨(), _, runs_writeCell_iff.2 ⟨tbl', ht', hlt', rfl⟩, ?_, trivial⟩
  exact hs.withTable h.link hwrite ht ht' (hrel.set h rfl rfl hx)
    (fun _ ↦ ⟨VarTable.vMap_withPile, VarTable.prevVarTable_withPile⟩)
    fun _ ↦ ⟨VarTable.vMap_withPile, VarTable.prevVarTable_withPile⟩

/-- The cells that are made are paired from then on. -/
theorem newCell_both (h : K.Link t t') (hwrite : K.Writable frozen t) (hx : K.EntryRel t t' k x x') :
    K.Both frozen n (newCell k t x) (newCell k t' x') fun a a' ↦ K.AddrRel k a a' ∧ a.table = t := by
  intro s s' hs a s₁ hrun
  obtain ⟨tbl, ht, rfl, rfl⟩ := runs_newCell_iff.1 hrun
  obtain ⟨tbl', ht', hrel⟩ := hs.table h ht
  refine ⟨_, _, runs_newCell_iff.2 ⟨tbl', ht', rfl, rfl⟩, ?_, hrel.addrRel h k, rfl⟩
  exact hs.withTable h hwrite ht ht' (hrel.append h hx)
    (fun _ ↦ ⟨VarTable.vMap_withPile, VarTable.prevVarTable_withPile⟩)
    fun _ ↦ ⟨VarTable.vMap_withPile, VarTable.prevVarTable_withPile⟩

/-- A node is read. -/
theorem getNode_both (h : K.AddrRel .node a a') :
    K.Both frozen n (getNode a) (getNode (D := D) a') (K.NodeRel a.table a'.table) :=
  readCell_both h

/-- The text of a string is the same in both calls. -/
theorem getString_both (h : K.AddrRel (.aux .string) a a') :
    K.Both frozen n (getString (D := D) a) (getString a') Eq :=
  readCell_both h

/-- The elements of an array. -/
theorem getVector_both (h : K.AddrRel (.aux .vector) a a') :
    K.Both frozen n (getVector (D := D) a) (getVector a') (List.Forall₂ (K.ElemRel a.table)) :=
  readCell_both h

/-- The fields of a struct. -/
theorem getMap_both (h : K.AddrRel (.aux .map) a a') :
    K.Both frozen n (getMap (D := D) a) (getMap a') (MapRel (K.SlotRel a.table)) :=
  readCell_both h

/-- A node is overwritten. -/
theorem setNode_both {x x' : Node D} (h : K.AddrRel .node a a') (hwrite : K.Writable frozen a.table)
    (hx : K.NodeRel a.table a'.table x x') :
    K.Both frozen n (setNode a x) (setNode a' x') fun _ _ ↦ True :=
  writeCell_both (k := .node) h hwrite hx

/-- The text of a string is overwritten. -/
theorem setString_both (h : K.AddrRel (.aux .string) a a')
    (hwrite : K.Writable frozen a.table) (y : Str) :
    K.Both (D := D) frozen n (setString a y) (setString a' y) fun _ _ ↦ True :=
  writeCell_both (k := .aux .string) h hwrite rfl

/-- The elements of an array are replaced. -/
theorem setVector_both {v v' : List Ptr} (h : K.AddrRel (.aux .vector) a a')
    (hwrite : K.Writable frozen a.table) (hv : List.Forall₂ (K.ElemRel a.table) v v') :
    K.Both (D := D) frozen n (setVector a v) (setVector a' v') fun _ _ ↦ True :=
  writeCell_both (k := .aux .vector) h hwrite hv

/-- The fields of a struct are replaced. -/
theorem setMap_both {f f' : StrMap Ptr} (h : K.AddrRel (.aux .map) a a')
    (hwrite : K.Writable frozen a.table) (hf : MapRel (K.SlotRel a.table) f f') :
    K.Both (D := D) frozen n (setMap a f) (setMap a' f') fun _ _ ↦ True :=
  writeCell_both (k := .aux .map) h hwrite hf

/-- One more element. -/
theorem pushBack_both (h : K.AddrRel (.aux .vector) a a') (hwrite : K.Writable frozen a.table)
    (hp : K.ElemRel a.table p p') :
    K.Both (D := D) frozen n (pushBack a p) (pushBack a' p') fun _ _ ↦ True := by
  refine (getVector_both h).bind fun v v' hv ↦ setVector_both h hwrite ?_
  exact List.rel_append hv (.cons hp .nil)

/-- The text of a new string. -/
theorem newStackString_both (h : K.Link t t') (hwrite : K.Writable frozen t) (y : Str) :
    K.Both (D := D) frozen n (newStackString t y) (newStackString t' y) fun c c' ↦
      K.AddrRel (.aux .string) c c' ∧ c.table = t :=
  newCell_both (k := .aux .string) h hwrite rfl

/-- The vector of a new array. -/
theorem newStackVector_both {v v' : List Ptr} (h : K.Link t t') (hwrite : K.Writable frozen t)
    (hv : List.Forall₂ (K.ElemRel t) v v') :
    K.Both (D := D) frozen n (newStackVector t v) (newStackVector t' v') fun c c' ↦
      K.AddrRel (.aux .vector) c c' ∧ c.table = t :=
  newCell_both (k := .aux .vector) h hwrite hv

/-- Two maps without entries. -/
theorem mapRel_empty {S : Ptr → Ptr → Prop} : MapRel S ∅ ∅ := by
  intro y
  rw [Std.ExtTreeMap.getElem?_empty]
  exact .none

/-- The map of a new struct. -/
theorem newStackMap_both (h : K.Link t t') (hwrite : K.Writable frozen t) :
    K.Both (D := D) frozen n (newStackMap t) (newStackMap t') fun c c' ↦
      K.AddrRel (.aux .map) c c' ∧ c.table = t :=
  newCell_both (k := .aux .map) h hwrite mapRel_empty

/-- The nodes are counted alike, so the limit is reached in both calls at once. -/
theorem newAst_both : K.Both (D := D) frozen n newAst newAst Eq := by
  intro s s' hs r t hrun
  simp only [newAst, Lib.runs_bind, Lib.runs_modify, Lib.runs_get, Lib.runs_pure] at hrun
  obtain ⟨_, _, rfl, _, _, ⟨rfl, rfl⟩, rfl, rfl⟩ := hrun
  refine ⟨decide (s'.astAllocationCount + 1 ≤ Value.MAX_AST_PER_STACK),
    { s' with astAllocationCount := s'.astAllocationCount + 1 }, ?_, ?_, ?_⟩
  · simp only [newAst, Lib.runs_bind, Lib.runs_modify, Lib.runs_get, Lib.runs_pure]
    exact ⟨(), _, rfl, _, _, ⟨rfl, rfl⟩, rfl, rfl⟩
  · exact ⟨hs.tables, hs.stack, hs.next, congrArg (· + 1) hs.count, hs.evals,
      hs.kept.congr fun _ _ ↦ rfl, hs.kept'.congr fun _ _ ↦ rfl⟩
  · rw [hs.count]

variable (K) in
/-- New nodes that go together, in this table, or none in both states. -/
def Made (t : TableId) : Option Addr → Option Addr → Prop :=
  Option.Rel fun a a' ↦ K.AddrRel .node a a' ∧ a.table = t

/-- A new node, unless the limit has been reached. -/
theorem newStackAst_both {init init' : Interp D (Node D)} (h : K.Link t t')
    (hwrite : K.Writable frozen t) (hinit : K.Both frozen n init init' (K.NodeRel t t')) :
    K.Both frozen n (newStackAst t init) (newStackAst t' init') (K.Made t) := by
  refine newAst_both.bind ?_
  rintro r _ rfl
  refine both_ite (hinit.bind fun x x' hx ↦ ?_) (both_pure .none)
  have hnew : K.Both frozen n (some <$> newCell .node t x) (some <$> newCell .node t' x')
    (K.Made t) := by
    rw [← bind_pure_comp, ← bind_pure_comp]
    exact (newCell_both (k := .node) h hwrite hx).bind fun b b' hb ↦ both_pure (.some hb)
  simpa only [newCell, VarTable.withPile, VarTable.pile, map_bind, map_pure] using hnew

/-! ### Pointers -/

/-- Nodes go together only if they are of one kind. -/
theorem NodeRel.type_eq {x x' : Node D} (h : K.NodeRel t t' x x') : x'.type = x.type := by
  cases h <;> rfl

variable (K) in
/-- What pointers which go together lead to. -/
inductive AtRel : Ptr → Option (Addr × Node D) → Option (Addr × Node D) → Prop
  | node {a a' : Addr} {x x' : Node D} (h : K.AddrRel .node a a')
    (hx : K.NodeRel a.table a'.table x x') : AtRel (.node a) (some (a, x)) (some (a', x'))
  | none {p : Ptr} (h : ∀ a, p ≠ .node a) : AtRel p none none

/-- The node that a pointer leads to, or none. -/
theorem nodeAt_both (h : K.PtrRel p p') :
    K.Both frozen n (Interp.nodeAt p) (Interp.nodeAt p') (K.AtRel p) := by
  cases h with
  | null => exact both_throw
  | node h => exact (getNode_both h).bind fun x x' hx ↦ both_pure (.node h hx)
  | _ => exact both_pure (.none fun a ha ↦ by cases ha)

/-- The type of what a pointer leads to. -/
theorem typeOf_both (h : K.PtrRel p p') : K.Both (D := D) frozen n (typeOf p) (typeOf p') Eq := by
  cases h with
  | null => exact both_throw
  | node h => exact (getNode_both h).bind fun x x' hx ↦ both_pure hx.type_eq.symm
  | _ => exact both_pure rfl

/-- The name of a struct, which a node has and so does a definition. -/
theorem adtTypeName_both (h : K.PtrRel p p') :
    K.Both (D := D) frozen n (adtTypeName p) (adtTypeName p') Eq := by
  refine (nodeAt_both h).bind fun o o' ho ↦ ?_
  cases ho with
  | node h' hx =>
    cases h with
    | node h =>
      cases hx with
      | varAdt => exact both_pure rfl
      | _ => exact both_throw
  | none hne =>
    cases h with
    | node h => exact absurd rfl (hne _)
    | adt d => exact both_pure rfl
    | _ => exact both_throw

/-- The fields of a definition. A node has no such list. -/
theorem adtParam_both (h : K.PtrRel p p') : K.Both (D := D) frozen n (adtParam p) (adtParam p') Eq := by
  refine (nodeAt_both h).bind fun o o' ho ↦ ?_
  cases ho with
  | node h' hx =>
    cases h with
    | node h =>
      cases hx with
      | _ => exact both_throw
  | none hne =>
    cases h with
    | node h => exact absurd rfl (hne _)
    | adt d => exact both_pure rfl
    | _ => exact both_throw

/-- The name itself is part of the text. -/
theorem derefName_both (name : Option Str) :
    K.Both (D := D) frozen n (derefName name) (derefName name) Eq := by
  cases name with
  | none => exact both_throw
  | some y => exact both_pure rfl

/-! ### Names -/

/-- The table at the top is one that the call has pushed. -/
theorem getVarTable_both : K.Both (D := D) frozen (n + 1) getVarTable getVarTable K.New := by
  intro s s' hs t s₁ hrun
  obtain ⟨rfl, htop⟩ := runs_getVarTable_iff.1 hrun
  obtain ⟨ts, ts', hts, hts', hlen, hall⟩ := hs.stack
  cases hall with
  | nil => cases hlen
  | @cons u u' us us' hnew hall =>
    rw [hts] at htop
    obtain rfl : u = t := Option.some.inj htop
    exact ⟨u', s', runs_getVarTable_iff.2 ⟨rfl, by rw [hts']; rfl⟩, hs, hnew⟩

/-- Before the first one has been pushed it is that of the caller. -/
theorem getVarTable_caller_both : K.Both (D := D) frozen 0 getVarTable getVarTable fun t t' ↦
    t = K.one.table ∧ t' = K.two.table := by
  intro s s' hs t s₁ hrun
  obtain ⟨rfl, htop⟩ := runs_getVarTable_iff.1 hrun
  obtain ⟨ts, ts', hts, hts', hlen, hall⟩ := hs.stack
  obtain rfl := List.eq_nil_of_length_eq_zero hlen
  obtain rfl := List.forall₂_nil_left_iff.1 hall
  rw [List.nil_append] at hts hts'
  rw [hts, K.one.top] at htop
  exact ⟨K.two.table, s', runs_getVarTable_iff.2 ⟨rfl, hts' ▸ K.two.top⟩, hs,
    (Option.some.inj htop).symm, rfl⟩

variable {y : Str}

/-- A name is found in tables that are paired, or in none. -/
theorem lookupIn_both {ts ts' : List TableId} (h : List.Forall₂ K.Scope ts ts') :
    K.Both (D := D) frozen n (lookupIn y ts) (lookupIn y ts') (Option.Rel K.PtrRel) := by
  induction h with
  | nil => exact both_pure .none
  | @cons t t' ts ts' ht hts ih =>
    intro s s' hs r s₁ hall
    obtain ⟨tbl, _, htbl, hrun⟩ := Lib.runs_bind.1 hall
    obtain ⟨rfl, htbl⟩ := runs_getTable_iff.1 htbl
    obtain ⟨tbl', htbl', hrel⟩ := hs.table ht.1 htbl
    have hname := hrel.vMap ht.2 y
    have hget : Runs (getTable t') s' tbl' s' := runs_getTable_iff.2 ⟨rfl, htbl'⟩
    generalize ho : tbl.vMap[y]? = o at hname hrun
    generalize ho' : tbl'.vMap[y]? = o' at hname
    cases hname with
    | some hp =>
      obtain ⟨rfl, rfl⟩ := Lib.runs_pure.1 hrun
      refine ⟨_, s', Lib.runs_bind.2 ⟨tbl', s', hget, ?_⟩, hs, .some hp.1⟩
      rw [ho']
      exact Lib.runs_pure.2 ⟨rfl, rfl⟩
    | none =>
      obtain ⟨r', s₁', hrun', hres⟩ := ih _ s' hs r s₁ hrun
      refine ⟨r', s₁', Lib.runs_bind.2 ⟨tbl', s', hget, ?_⟩, hres⟩
      rw [ho']
      exact hrun'

/-- A name is looked up from a table whose names both calls see. -/
theorem lookup_scope_both (h : K.Scope t t') :
    K.Both (D := D) frozen n (lookup t y) (lookup t' y) (Option.Rel K.PtrRel) := by
  intro s s' hs r s₁ hrun
  obtain ⟨tbl, _, htbl, hin⟩ := Lib.runs_bind.1 hrun
  obtain ⟨rfl, ht⟩ := runs_getTable_iff.1 htbl
  obtain ⟨tbl', ht', hrel⟩ := hs.table h.1 ht
  obtain ⟨r', s₁', hin', hres⟩ := lookupIn_both (.cons h (hrel.prev h.2)) _ s' hs r s₁ hin
  exact ⟨r', s₁', Lib.runs_bind.2 ⟨tbl', s', runs_getTable_iff.2 ⟨rfl, ht'⟩, hin'⟩, hres⟩

/-- A name that the two tables see alike. -/
theorem lookup_both (h : K.Sees t t' y) :
    K.Both (D := D) frozen n (lookup t y) (lookup t' y) (Option.Rel fun p p' ↦ K.PtrRel p p' ∧
      ∀ d, p = .adt d → K.Sees t t' d.adtTypeName) := by
  rcases h with h | ⟨rfl, rfl, d, rfl, hrun, hrun'⟩
  · refine (lookup_scope_both h).mono fun o o' ho ↦ ?_
    cases ho with
    | some hp => exact .some ⟨hp, fun d _ ↦ .inl h⟩
    | none => exact .none
  -- from the table of the caller: no name there has changed its meaning since the call
  · intro s s' hs r s₁ hr
    obtain ⟨rfl, rfl⟩ := (hs.kept.runs_lookup hrun).unique hr
    refine ⟨_, s', hs.kept'.runs_lookup hrun', hs, .some ⟨.adt d, ?_⟩⟩
    rintro _ ⟨⟩
    exact .inr ⟨rfl, rfl, d, rfl, hrun, hrun'⟩

/-- A new name. -/
theorem insert_both (h : K.New t t') (hp : K.SlotRel t p p') :
    K.Both (D := D) frozen n (insert t y p) (insert t' y p') Eq := by
  intro s s' hs r s₁ hrun
  obtain ⟨tbl, _, htbl, hrest⟩ := Lib.runs_bind.1 hrun
  obtain ⟨rfl, ht⟩ := runs_getTable_iff.1 htbl
  obtain ⟨tbl', ht', hrel⟩ := hs.table (.new h) ht
  have hget : Runs (getTable t') s' tbl' s' := runs_getTable_iff.2 ⟨rfl, ht'⟩
  have hvMap := hrel.vMap h.scope.2
  have hmem : tbl.vMap.contains y = tbl'.vMap.contains y := by
    have hname := hvMap y
    rw [Std.ExtTreeMap.contains_eq_isSome_getElem?, Std.ExtTreeMap.contains_eq_isSome_getElem?]
    generalize tbl.vMap[y]? = o at hname ⊢
    generalize tbl'.vMap[y]? = o' at hname ⊢
    cases hname <;> rfl
  by_cases hc : tbl.vMap.contains y = true
  · rw [if_pos hc] at hrest
    obtain ⟨rfl, rfl⟩ := Lib.runs_pure.1 hrest
    refine ⟨false, s', Lib.runs_bind.2 ⟨tbl', s', hget, ?_⟩, hs, rfl⟩
    rw [if_pos (hmem ▸ hc)]
    exact Lib.runs_pure.2 ⟨rfl, rfl⟩
  · rw [if_neg hc] at hrest
    obtain ⟨_, _, hset, hrest⟩ := Lib.runs_bind.1 hrest
    obtain ⟨rfl, rfl⟩ := Lib.runs_pure.1 hrest
    have hset := Lib.runs_modify.1 hset
    subst hset
    refine ⟨true, s'.withTable t' { tbl' with vMap := tbl'.vMap.insert y p' },
      Lib.runs_bind.2 ⟨tbl', s', hget, ?_⟩, ?_, rfl⟩
    · rw [if_neg (hmem ▸ hc)]
      exact Lib.runs_bind.2 ⟨(), _, Lib.runs_modify.2 rfl, Lib.runs_pure.2 ⟨rfl, rfl⟩⟩
    · have hnot : ¬ t < K.one.next := Nat.not_lt_of_le h.le
      refine hs.withTable (.new h) (fun _ ↦ h.le) ht ht' ⟨hrel.entry, hrel.grown, fun _ x ↦ ?_,
        hrel.prev⟩ (fun hlt ↦ absurd hlt hnot) fun hlt ↦ absurd hlt hnot
      show Option.Rel (K.SlotRel t) (tbl.vMap.insert y p)[x]? (tbl'.vMap.insert y p')[x]?
      rw [Lib.getElem?_insert, Lib.getElem?_insert]
      split
      · exact .some hp
      · exact hvMap x

/-! ### Tables that are pushed and popped -/

/-- Both calls push a table. The new ones are paired. -/
theorem Related.pushed {prev prev' : List TableId} (h : K.Related frozen n s s')
    (hprev : List.Forall₂ K.Scope prev prev') :
    K.Related frozen (n + 1) (s.pushed prev) (s'.pushed prev') := by
  obtain ⟨j, hj, hj'⟩ := h.next
  have hnew : K.New s.nextTable s'.nextTable := ⟨j, hj, hj'⟩
  refine ⟨fun u u' hu ↦ ?_, ?_, ⟨j + 1, congrArg (· + 1) hj, congrArg (· + 1) hj'⟩, h.count, h.evals,
    h.kept.pushed hnew.le, h.kept'.pushed hnew.le'⟩
  · by_cases hut : u = s.nextTable
    · obtain rfl : u' = s'.nextTable := (hu.inj (.new hnew)).1 hut
      subst hut
      rw [pushed_same, pushed_same]
      refine .some ⟨fun k i i' _ ↦ ?_, fun k ↦ ⟨0, ?_, ?_⟩, fun _ ↦ mapRel_empty, fun _ ↦ hprev⟩
      · rcases k with - | (- | - | -) <;> exact .none
      · rw [hj, Caller.size_next]
        rcases k with - | (- | - | -) <;> rfl
      · rw [hj', Caller.size_next]
        rcases k with - | (- | - | -) <;> rfl
    · rw [pushed_of_ne hut, pushed_of_ne fun heq ↦ hut ((hu.inj (.new hnew)).2 heq)]
      exact h.tables u u' hu
  · obtain ⟨ts, ts', hts, hts', hlen, hall⟩ := h.stack
    exact ⟨s.nextTable :: ts, s'.nextTable :: ts', congrArg (s.nextTable :: ·) hts,
      congrArg (s'.nextTable :: ·) hts', congrArg (· + 1) hlen, .cons hnew hall⟩

/-- Both calls pop a table. As many nodes are discounted, since both have as many. -/
theorem Related.popped (h : K.Related frozen (n + 1) s s') (htop : s.varTable.head? = some t)
    (htop' : s'.varTable.head? = some t') (ht : s.tables t = some tbl)
    (ht' : s'.tables t' = some tbl') : K.Related frozen n (s.popped t tbl) (s'.popped t' tbl') := by
  obtain ⟨ts, ts', hts, hts', hlen, hall⟩ := h.stack
  cases hall with
  | nil => cases hlen
  | @cons u u' us us' hnew hall =>
    rw [hts] at htop
    rw [hts'] at htop'
    obtain rfl : u = t := Option.some.inj htop
    obtain rfl : u' = t' := Option.some.inj htop'
    obtain ⟨tbl₁, ht₁, hrel⟩ := h.table (.new hnew) ht
    obtain rfl := Option.some.inj (ht₁.symm.trans ht')
    refine ⟨fun v v' hv ↦ ?_, ⟨us, us', ?_, ?_, Nat.succ.inj hlen, hall⟩, h.next, ?_, h.evals,
      h.kept.popped hnew.le, h.kept'.popped hnew.le'⟩
    · by_cases hvu : v = u
      · obtain rfl : v' = u' := (hv.inj (.new hnew)).1 hvu
        subst hvu
        rw [popped_same, popped_same]
        exact .none
      · rw [popped_of_ne hvu, popped_of_ne fun heq ↦ hvu ((hv.inj (.new hnew)).2 heq)]
        exact h.tables v v' hv
    · exact congrArg List.tail hts
    · exact congrArg List.tail hts'
    · obtain ⟨j, rfl, rfl⟩ := hnew
      obtain ⟨i, hi, hi'⟩ := hrel.grown .node
      rw [Caller.size_next] at hi hi'
      have hlength : tbl₁.vStackAst.length = tbl.vStackAst.length := hi'.trans hi.symm
      show s'.astAllocationCount - _ = s.astAllocationCount - _
      rw [h.count, hlength]

/-- The table of a call, whose chain is the global table in both. -/
theorem newVarTable_follows (h : K.Related frozen n s s') :
    Follows newVarTable s newVarTable s' fun old s₁ old' s₁' ↦ K.Related frozen (n + 1) s₁ s₁' ∧
      s.varTable.head? = some old ∧ s'.varTable.head? = some old' := by
  obtain ⟨ts, ts', hts, hts', -, hall⟩ := h.stack
  have hlast : s.varTable.getLast? = some 0 := by
    rw [hts, List.getLast?_append, K.one.last, Option.some_or]
  have hlast' : s'.varTable.getLast? = some 0 := by
    rw [hts', List.getLast?_append, K.two.last, Option.some_or]
  have htop' : ∃ t', s'.varTable.head? = some t' := by
    cases hts' : s'.varTable with
    | nil => exact absurd (hts' ▸ hlast') (by simp)
    | cons t' us' => exact ⟨t', rfl⟩
  obtain ⟨t', htop'⟩ := htop'
  intro old s₁ hrun
  simp only [newVarTable, Lib.runs_bind, Lib.runs_get, runs_getVarTable_iff] at hrun
  obtain ⟨t, _, ⟨rfl, htop⟩, _, _, ⟨rfl, rfl⟩, hrest⟩ := hrun
  rw [hlast] at hrest
  obtain ⟨_, _, hpush, hrest⟩ := Lib.runs_bind.1 hrest
  obtain ⟨rfl, rfl⟩ := Lib.runs_pure.1 hrest
  have hpush := Lib.runs_modify.1 hpush
  subst hpush
  refine ⟨t', s'.pushed [0], ?_, h.pushed (.cons scope_zero .nil), htop, htop'⟩
  simp only [newVarTable, Lib.runs_bind, Lib.runs_get, runs_getVarTable_iff]
  refine ⟨t', s', ⟨rfl, htop'⟩, _, _, ⟨rfl, rfl⟩, ?_⟩
  rw [hlast']
  exact Lib.runs_bind.2 ⟨(), _, Lib.runs_modify.2 rfl, Lib.runs_pure.2 ⟨rfl, rfl⟩⟩

/-- The table of a block, whose chain is the one of the table at the top. -/
theorem newContext_follows (h : K.Related frozen (n + 1) s s') :
    Follows newContext s newContext s' fun _ s₁ _ s₁' ↦ K.Related frozen (n + 2) s₁ s₁' := by
  intro _ s₁ hrun
  obtain ⟨t, _, htop, hrest⟩ := Lib.runs_bind.1 hrun
  obtain ⟨t', s₂, htop', -, hnew⟩ := getVarTable_both s s' h t _ htop
  obtain ⟨rfl, -⟩ := runs_getVarTable_iff.1 htop
  obtain ⟨rfl, -⟩ := runs_getVarTable_iff.1 htop'
  obtain ⟨tbl, _, hget, hpush⟩ := Lib.runs_bind.1 hrest
  obtain ⟨rfl, ht⟩ := runs_getTable_iff.1 hget
  obtain ⟨tbl', ht', hrel⟩ := h.table (.new hnew) ht
  have hpush := Lib.runs_modify.1 hpush
  subst hpush
  refine ⟨(), s₂.pushed (t' :: tbl'.prevVarTable), ?_,
    h.pushed (.cons hnew.scope (hrel.prev hnew.scope.2))⟩
  refine Lib.runs_bind.2 ⟨t', s₂, htop', Lib.runs_bind.2 ⟨tbl', s₂, ?_, Lib.runs_modify.2 rfl⟩⟩
  exact runs_getTable_iff.2 ⟨rfl, ht'⟩

/-- The table at the top is one that the call has pushed, and it is popped. -/
theorem removeVarTable_follows (h : K.Related frozen (n + 1) s s') :
    Follows removeVarTable s removeVarTable s' fun _ s₁ _ s₁' ↦ K.Related frozen n s₁ s₁' := by
  intro _ s₁ hrun
  obtain ⟨t, _, htop, hrest⟩ := Lib.runs_bind.1 hrun
  obtain ⟨t', s₂, htop', -, hnew⟩ := getVarTable_both s s' h t _ htop
  obtain ⟨rfl, hhead⟩ := runs_getVarTable_iff.1 htop
  obtain ⟨rfl, hhead'⟩ := runs_getVarTable_iff.1 htop'
  obtain ⟨tbl, _, hget, hpop⟩ := Lib.runs_bind.1 hrest
  obtain ⟨rfl, ht⟩ := runs_getTable_iff.1 hget
  obtain ⟨tbl', ht', -⟩ := h.table (.new hnew) ht
  have hpop := Lib.runs_modify.1 hpop
  subst hpop
  refine ⟨(), s₂.popped t' tbl', ?_, h.popped hhead hhead' ht ht'⟩
  refine Lib.runs_bind.2 ⟨t', s₂, htop', Lib.runs_bind.2 ⟨tbl', s₂, ?_, Lib.runs_modify.2 rfl⟩⟩
  exact runs_getTable_iff.2 ⟨rfl, ht'⟩

end TwoCallers

end Meridian.MQL

import Meridian.MQL.StartInvariant
import Meridian.MQL.Copies
import Meridian.MQL.RingFunctions
import Mathlib.Logic.Relation

/-!
# Who owns the values

A `Place` is where a value can be kept: a variable, an entry of an array, a field of a struct. What a
place keeps leads to other nodes (`Reaches`), and all their cells belong to it (`Owns`).

`ownership_tree` is about every state that a program reaches: values are trees, two places have a
cell in common only if one of them is part of the other's value, no place owns a literal, and all
that a variable owns is in its own table. So nothing that can be reached has been freed.
-/

namespace Meridian.MQL

open ParserState VarTable Interp Relation

variable {D : Type} {nlits : ℕ} {typed : Prop} {s : ParserState D} {a b d : Addr} {c : Cell}
  {base : List TableId}

/-! ### Places -/

/-- Where a value is kept. -/
inductive Place where
  | var (t : TableId) (x : Str)
  | elem (a : Addr) (i : ℕ)
  | field (a : Addr) (k : Str)

namespace Place

/-- The node that the place is part of. -/
def node : Place → Option Addr
  | var _ _ => none
  | elem a _ => some a
  | field a _ => some a

/-- The table of the place. -/
def table : Place → TableId
  | var t _ => t
  | elem a _ => a.table
  | field a _ => a.table

/-- The slot of the table. -/
def slot : Place → Slot
  | var _ x => .var x
  | elem a i => .elem a.index i
  | field a k => .field a.index k

theorem eq_of_slot {P Q : Place} (ht : P.table = Q.table) (hslot : P.slot = Q.slot) : P = Q := by
  cases P with
  | var t x =>
    cases Q with
    | var t' x' =>
      cases hslot
      exact congrArg (var · x) ht
    | _ => cases hslot
  | elem a i =>
    cases Q with
    | elem b j =>
      obtain ⟨ta, ia⟩ := a
      obtain ⟨tb, ib⟩ := b
      cases hslot
      exact congrArg (fun t ↦ elem ⟨t, ia⟩ i) ht
    | _ => cases hslot
  | field a k =>
    cases Q with
    | field b k' =>
      obtain ⟨ta, ia⟩ := a
      obtain ⟨tb, ib⟩ := b
      cases hslot
      exact congrArg (fun t ↦ field ⟨t, ia⟩ k) ht
    | _ => cases hslot

end Place

namespace ParserState

/-- What is kept at the place. -/
def At (s : ParserState D) : Place → Ptr → Prop
  | .var t x, p => ∃ tbl, s.tables t = some tbl ∧ tbl.vMap[x]? = some p
  | .elem a i, p => ∃ aType name v tb ps,
    s.content (.node a) = some (.node (.array aType name v tb)) ∧
      s.content (.aux .vector v) = some (.vector ps) ∧ ps[i]? = some p
  | .field a k, p => ∃ name m u adtMap, s.content (.node a) = some (.node (.varAdt name m u)) ∧
    s.content (.aux .map m) = some (.map adtMap) ∧ adtMap[k]? = some p

/-- The node `b` is kept at a place of the node `a`. -/
def Inside (s : ParserState D) (a b : Addr) : Prop := ∃ P, P.node = some a ∧ s.At P (.node b)

/-- The node `b` is part of the value at the node `a`. -/
abbrev Reaches (s : ParserState D) : Addr → Addr → Prop := ReflTransGen s.Inside

/-- The cell belongs to a node that is part of the value at the node `a`. -/
def Owns (s : ParserState D) (a : Addr) (c : Cell) : Prop :=
  ∃ b n, s.Reaches a b ∧ s.content (.node b) = some (.node n) ∧ cells b n c

/-- A place is a slot of its table. -/
theorem At.ptrAt {P : Place} {p : Ptr} (h : s.WF nlits typed) (hP : s.At P p) :
    ∃ tbl, s.tables P.table = some tbl ∧ tbl.ptrAt P.slot = some p := by
  cases P with
  | var t x => exact hP
  | elem a i =>
    obtain ⟨aType, name, v, tb, ps, ha, hv, hp⟩ := hP
    obtain ⟨tbl, ht, hn⟩ := nodeAt_iff.2 ha
    obtain ⟨hvt, -⟩ := (h.table _ tbl ht).aux _ _ .vector v hn rfl
    obtain ⟨tbl', ht', hv⟩ := content_eq_some hv
    obtain rfl := Option.some.inj (ht.symm.trans (hvt ▸ ht'))
    obtain ⟨ps', hps, heq⟩ := Option.map_eq_some_iff.1 hv
    cases heq
    refine ⟨tbl, ht, ?_⟩
    show (tbl.elems a.index)[i]? = some p
    rw [VarTable.elems_eq hn, hps, Option.getD_some, hp]
  | field a k =>
    obtain ⟨name, m, u, adtMap, ha, hm, hp⟩ := hP
    obtain ⟨tbl, ht, hn⟩ := nodeAt_iff.2 ha
    obtain ⟨hmt, -⟩ := (h.table _ tbl ht).aux _ _ .map m hn rfl
    obtain ⟨tbl', ht', hm⟩ := content_eq_some hm
    obtain rfl := Option.some.inj (ht.symm.trans (hmt ▸ ht'))
    obtain ⟨adtMap', hmap, heq⟩ := Option.map_eq_some_iff.1 hm
    cases heq
    refine ⟨tbl, ht, ?_⟩
    show (tbl.fields a.index)[k]? = some p
    rw [VarTable.fields_eq hn, hmap, Option.getD_some, hp]

theorem At.child {P : Place} (h : s.WF nlits typed) (hP : s.At P (.node a)) :
    ∃ tbl, s.tables P.table = some tbl ∧ tbl.Child nlits s.defs typed P.table P.slot a := by
  obtain ⟨tbl, ht, hslot⟩ := hP.ptrAt h
  exact ⟨tbl, ht, (h.table _ tbl ht).child hslot⟩

/-- A node is kept at one place only. -/
theorem At.unique {P Q : Place} (h : s.WF nlits typed) (hP : s.At P (.node a))
    (hQ : s.At Q (.node a)) : P = Q := by
  obtain ⟨tbl, ht, hslot⟩ := hP.ptrAt h
  obtain ⟨tbl', ht', hslot'⟩ := hQ.ptrAt h
  have heq := ((h.table _ tbl ht).child hslot).table
  have heq' := ((h.table _ tbl' ht').child hslot').table
  have htable : P.table = Q.table := heq.symm.trans heq'
  obtain rfl := Option.some.inj (ht.symm.trans (htable ▸ ht'))
  exact Place.eq_of_slot htable ((h.table _ tbl ht).slot_inj _ _ a hslot hslot')

/-- What is inside is in the same table, and younger. -/
theorem Inside.lt (h : s.WF nlits typed) (hab : s.Inside a b) :
    b.table = a.table ∧ a.index < b.index := by
  obtain ⟨P, hnode, hP⟩ := hab
  obtain ⟨tbl, ht, hchild⟩ := hP.child h
  cases P with
  | var t x => cases hnode
  | elem a' i =>
    obtain rfl := Option.some.inj hnode
    exact ⟨hchild.table, hchild.parent _ rfl⟩
  | field a' k =>
    obtain rfl := Option.some.inj hnode
    exact ⟨hchild.table, hchild.parent _ rfl⟩

theorem Reaches.le (h : s.WF nlits typed) (hab : s.Reaches a b) :
    b.table = a.table ∧ a.index ≤ b.index := by
  induction hab with
  | refl => exact ⟨rfl, le_rfl⟩
  | tail _ hbc ih =>
    obtain ⟨ht, hlt⟩ := hbc.lt h
    exact ⟨ht.trans ih.1, ih.2.trans hlt.le⟩

/-- **Values are trees**: of two nodes with a part in common, one is part of the other. -/
theorem Reaches.total (h : s.WF nlits typed) (had : s.Reaches a d) (hbd : s.Reaches b d) :
    s.Reaches a b ∨ s.Reaches b a := by
  have hunique : Relator.RightUnique (Function.swap s.Inside) := by
    rintro d a b ⟨P, ha, hP⟩ ⟨Q, hb, hQ⟩
    obtain rfl := hP.unique h hQ
    exact Option.some.inj (ha.symm.trans hb)
  have htotal := had.swap.total_of_right_unique hunique hbd.swap
  exact htotal.symm.imp (fun hab ↦ hab.swap) fun hba ↦ hba.swap

/-- All of a value is in one table, and there. -/
theorem Owns.live (h : s.WF nlits typed) (hc : s.Owns a c) :
    c.addr.table = a.table ∧ s.content c ≠ none := by
  obtain ⟨b, n, hab, hb, hcell⟩ := hc
  refine ⟨?_, not_new_of_cells h hb hcell⟩
  have htable := (hab.le h).1
  rcases hcell with rfl | ⟨k, e, hk, rfl⟩
  · exact htable
  · obtain ⟨tbl, ht, hn⟩ := nodeAt_iff.2 hb
    exact ((h.table _ tbl ht).aux _ n k e hn hk).1.trans htable

/-- What reaches a node reaches the node of its place. -/
theorem Reaches.of_at {P : Place} (h : s.WF nlits typed) (hP : s.At P (.node b))
    (hab : s.Reaches a b) (hne : a ≠ b) : ∃ d ∈ P.node, s.Reaches a d := by
  rcases hab.cases_tail with rfl | ⟨d, had, Q, hd, hQ⟩
  · exact absurd rfl hne
  · obtain rfl := hQ.unique h hP
    exact ⟨d, hd, had⟩

/-- Two places with a cell in common: one is part of the value at the other. -/
theorem places_nested {P Q : Place} (h : s.WF nlits typed) (hP : s.At P (.node a))
    (hQ : s.At Q (.node b)) (hne : P ≠ Q) (hc : s.Owns a c) (hc' : s.Owns b c) :
    (∃ d ∈ Q.node, s.Reaches a d) ∨ ∃ d ∈ P.node, s.Reaches b d := by
  have hab : a ≠ b := by
    rintro rfl
    exact hne (hP.unique h hQ)
  obtain ⟨d, n, had, hd, hcell⟩ := hc
  obtain ⟨d', n', hbd, hd', hcell'⟩ := hc'
  obtain rfl := cells_unique h hd hd' hcell hcell'
  rcases had.total h hbd with hreach | hreach
  · exact .inl (hreach.of_at h hQ hab)
  · exact .inr (hreach.of_at h hP hab.symm)

/-- No place is part of its own value. -/
theorem At.acyclic {P : Place} (h : s.WF nlits typed) (hP : s.At P (.node a)) (hd : d ∈ P.node) :
    ¬ s.Reaches a d := by
  intro had
  have hlt := (Inside.lt h ⟨P, hd, hP⟩).2
  exact absurd (had.le h).2 (Nat.not_le.2 hlt)

/-- No place owns a literal. -/
theorem At.not_literal {P : Place} {i : ℕ} {n : Node D} (h : s.WF nlits typed)
    (hP : s.At P (.node a)) (hi : i < nlits) (hn : s.content (.node ⟨0, i⟩) = some (.node n))
    (hcell : cells ⟨0, i⟩ n c) : ¬ s.Owns a c := by
  rintro ⟨b, n', hab, hb, hcell'⟩
  obtain rfl := cells_unique h hb hn hcell' hcell
  obtain ⟨tbl, ht, hchild⟩ := hP.child h
  obtain ⟨htable, hle⟩ := hab.le h
  have hzero : P.table = 0 := hchild.table.symm.trans htable.symm
  exact absurd ((hchild.lit hzero).trans hle) (Nat.not_le.2 hi)

end ParserState

/-! ### Reachable states -/

/-- **Who owns the values.** -/
structure Machine.OwnershipTree (nlits : ℕ) (m : Machine D) : Prop where
  /-- Two places with a cell in common: one is part of the value at the other. -/
  nested : ∀ P Q a b c, P ≠ Q → m.ps.At P (.node a) → m.ps.At Q (.node b) → m.ps.Owns a c →
    m.ps.Owns b c → (∃ d ∈ Q.node, m.ps.Reaches a d) ∨ ∃ d ∈ P.node, m.ps.Reaches b d
  /-- No place is part of its own value. -/
  acyclic : ∀ P a, m.ps.At P (.node a) → ∀ d ∈ P.node, ¬ m.ps.Reaches a d
  /-- No place owns a literal. -/
  literal : ∀ P a i n c, m.ps.At P (.node a) → i < nlits →
    m.ps.content (.node ⟨0, i⟩) = some (.node n) → cells ⟨0, i⟩ n c → ¬ m.ps.Owns a c
  /-- What a variable owns is in its table, which is on the stack. -/
  owned : ∀ t x a c, m.ps.At (.var t x) (.node a) → m.ps.Owns a c →
    t ∈ m.ps.varTable ∧ c.addr.table = t ∧ m.ps.content c ≠ none
  /-- What is returned is in a table that is on the stack. -/
  returned : ∀ a, m.ctrl = .ret (.node a) → a.table ∈ m.ps.varTable ∧
    ∀ c, m.ps.Owns a c → c.addr.table = a.table ∧ m.ps.content c ≠ none

theorem Machine.WF.ownershipTree {m : Machine D} (h : m.WF nlits typed base) :
    m.OwnershipTree nlits := by
  have hps := h.ps
  refine ⟨fun P Q a b c hne hP hQ ↦ places_nested hps hP hQ hne, fun P a hP d ↦ hP.acyclic hps,
    fun P a i n c hP ↦ hP.not_literal hps, fun t x a c hx hc ↦ ?_, fun a hret ↦ ?_⟩
  · obtain ⟨tbl, ht, hchild⟩ := hx.child hps
    obtain ⟨htable, hlive⟩ := hc.live hps
    exact ⟨(hps.live t).1 ⟨tbl, ht⟩, htable.trans hchild.table, hlive⟩
  · have hctrl := h.ctrl
    rw [hret] at hctrl
    exact ⟨hctrl.1, fun c hc ↦ hc.live hps⟩

section Reachable

variable [CDouble D] {program : Program D} {funcString : Str} {param : Value D}

/-- **Values are trees, and scopes never dangle**, in every state that a program reaches. -/
theorem ownership_tree {m : Machine D} (h : program.Parsed)
    (hreach : Machine.Reachable program funcString param m) :
    m.OwnershipTree program.literals.length :=
  (hreach.wf h).ownershipTree

theorem Machine.start_eq_ok {m : Machine D}
    (h : (start program funcString param).toOption = some m) :
    start program funcString param = .ok m := by
  cases heq : start program funcString param with
  | error e =>
    rw [heq] at h
    cases h
  | ok m' =>
    rw [heq] at h
    exact congrArg Except.ok (Option.some.inj h)

/-- A state that a run reaches. -/
theorem Machine.exists_reachable {hosts : List (Host D)} {test : Machine D → Bool}
    (h : ((start program funcString param).toOption.bind fun m₀ ↦
      Lib.run step? m₀ hosts).any test = true) :
    ∃ m, Reachable program funcString param m ∧ test m = true := by
  obtain ⟨m, hm, htest⟩ := (Option.any_eq_true ..).1 h
  obtain ⟨m₀, hm₀, hrun⟩ := Option.bind_eq_some_iff.1 hm
  exact ⟨m, ⟨m₀, hosts, start_eq_ok hm₀, hrun⟩, htest⟩

end Reachable

/-! ### A program -/

section Example

def xName : Str := [120]

def yName : Str := [121]

def pName : Str := [80]

def mainName : Str := [109, 97, 105, 110]

theorem all_textNode_leaf {n : ℕ} {c : Ast} (hc : c.children = []) (h : TextNode n c) :
    c.All (TextNode n) := by
  refine Ast.all_iff.2 ⟨h, ?_⟩
  rw [hc]
  exact fun d hd ↦ absurd hd List.not_mem_nil

/-- The declaration of an array whose size is the first literal. -/
theorem all_textNode_newVarArray {n : ℕ} (hn : 0 < n) (t : ElemType) (x : Str) :
    (Ast.newVarArray t x (.literal ⟨0, 0⟩)).All (TextNode n) :=
  Ast.all_iff.2 ⟨trivial, List.forall_mem_singleton.2 (all_textNode_leaf rfl ⟨rfl, hn⟩)⟩

/-- `array_union` of two variables. -/
theorem all_textNode_union (n : ℕ) (x y : Str) :
    (Ast.native2 .arrayUnion (.refVar x) (.refVar y)).All (TextNode n) :=
  Ast.all_iff.2 ⟨trivial, List.forall_mem_cons.2 ⟨all_textNode_leaf rfl trivial,
    List.forall_mem_singleton.2 (all_textNode_leaf rfl trivial)⟩⟩

/-- One statement after the other; the later one is on the left. -/
theorem all_textNode_ast {n : ℕ} {left right : Ast} (hl : left.All (TextNode n))
    (hr : right.All (TextNode n)) : (Ast.ast left right).All (TextNode n) :=
  Ast.all_iff.2 ⟨trivial, List.forall_mem_cons.2 ⟨hl, List.forall_mem_singleton.2 hr⟩⟩

/-- `void main() { int x[1]; t y[1]; array_union(x, y); }` -/
def unionProgram (t : BasicType) : Program Lib.Binary64 where
  literals := [.int 1]
  textNodes := 12
  decls := [.func ⟨.elem (.basic .void), mainName, [],
    .ast (.native2 .arrayUnion (.refVar xName) (.refVar yName))
      (.ast (.newVarArray (.basic t) yName (.literal ⟨0, 0⟩))
        (.newVarArray (.basic .int) xName (.literal ⟨0, 0⟩)))⟩]

theorem unionProgram_parsed (t : BasicType) : (unionProgram t).Parsed := by
  have hlits : 1 ≤ Value.MAX_AST_PER_STACK := by decide
  refine ⟨hlits, fun f hf ↦ ?_⟩
  obtain rfl := GlobalDecl.func.inj (List.mem_singleton.1 hf)
  exact all_textNode_ast (all_textNode_union 1 xName yName)
    (all_textNode_ast (all_textNode_newVarArray Nat.one_pos _ _)
      (all_textNode_newVarArray Nat.one_pos _ _))

/-- A node alone. -/
def plainHost : Host Lib.Binary64 := ⟨⟨0, 0⟩, RingSet.new 1 1, fun _ ↦ 0, none, none⟩

/-- The node that is returned. -/
def Machine.result (m : Machine D) : Option Addr :=
  match m.ctrl with
  | .ret (.node a) => some a
  | _ => none

/-- After 16 steps the union is returned. -/
theorem ownership_tree_union : ∃ (_ : CLibrary) (m : Machine Lib.Binary64),
    Machine.Reachable (unionProgram .string) mainName .empty m ∧ m.result = some ⟨1, 4⟩ ∧
      m.OwnershipTree 1 := by
  let _ := reducing
  have hruns : ((Machine.start (unionProgram .string) mainName .empty).toOption.bind fun m₀ ↦
      Lib.run Machine.step? m₀ (List.replicate 16 plainHost)).any
        (fun m ↦ m.result == some ⟨1, 4⟩) = true := by decide +kernel
  obtain ⟨m, hreach, htest⟩ := Machine.exists_reachable hruns
  exact ⟨_, m, hreach, beq_iff_eq.1 htest, ownership_tree (unionProgram_parsed .string) hreach⟩

end Example

end Meridian.MQL

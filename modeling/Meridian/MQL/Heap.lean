import Meridian.MQL.Native

/-!
# The heap of the interpreter

The values of a table form a forest: every variable, every entry of an array and every field of a
struct (a `Slot`) points to a node of its own in the same table, and every string, vector and map
belongs to one node. `WF` says this of a table, together with what the interpreter relies on: the
literals of the program are in no slot, a struct has the fields of its definition, and, if one asks
for it (`typed`), the elements of an array are of its element type.

* `WF.congr` covers a step that writes to cells without adding a slot, `WF.grow` the allocation of a
  node, and `WF.insertSlot` a step that lets a slot point to a node that no slot points to.
* `Keeps` is what any step other than the deletion of a table does to a table.
-/

namespace Meridian.MQL

variable {D : Type}

/-! ### Kinds of nodes -/

/-- What a table owns besides nodes. -/
inductive Store where
  | string
  | vector
  | map
  deriving DecidableEq

namespace Node

/-- The cell that belongs to a node. -/
def aux : Node D → Option (Store × Addr)
  | string s => some (.string, s)
  | array _ _ v _ => some (.vector, v)
  | varAdt _ m _ => some (.map, m)
  | sep v => some (.vector, v)
  | _ => none

/-- The node has not been received. -/
def Own : Node D → Prop
  | array _ _ _ tb => tb ≠ none
  | varAdt _ _ unmarshalled => unmarshalled = false
  | sep _ => False
  | _ => True

/-- The node is a literal. -/
def Scalar : Node D → Prop
  | int _ => True
  | double _ => True
  | string _ => True
  | _ => False

/-- The two nodes differ at most in the number that they hold. -/
inductive SameKind : Node D → Node D → Prop
  | refl (n : Node D) : SameKind n n
  | int (i i' : Int32) : SameKind (.int i) (.int i')
  | double (d d' : D) : SameKind (.double d) (.double d')

/-- The node is a value of a basic type. -/
def HasBasic : BasicType → Node D → Prop
  | .int, int _ => True
  | .double, double _ => True
  | .string, string _ => True
  | _, _ => False

/-- The node can be an element of an array with these members. -/
def HasElemType (aType : UInt32) (aAdtName : Option Str) : Node D → Prop
  | varAdt name _ _ => aType = ASTType.adtType.toWord ∧ aAdtName = some name
  | n => n.type.toWord = aType

/-- The node can be a field that is declared so. -/
def HasField (f : Field) : Node D → Prop
  | array aType aAdtName _ tb =>
    f.vArraySize ≠ none ∧ aType = f.vType.astType.toWord ∧ aAdtName = none ∧ tb ≠ none
  | n => f.vArraySize = none ∧ n.HasBasic f.vType

variable {n n' n'' : Node D}

/-- A node can change several times. -/
theorem SameKind.trans (h : n.SameKind n') (h' : n'.SameKind n'') : n.SameKind n'' := by
  cases h with
  | refl => exact h'
  | int i i' => cases h' <;> exact .int ..
  | double d d' => cases h' <;> exact .double ..

/-- What belongs to a node stays its own. -/
theorem SameKind.aux_eq (h : n.SameKind n') : n'.aux = n.aux := by cases h <;> rfl

/-- A node does not become a received one. -/
theorem SameKind.own (h : n.SameKind n') : n'.Own ↔ n.Own := by cases h <;> exact Iff.rfl

/-- A scalar stays one. -/
theorem SameKind.scalar (h : n.SameKind n') : n'.Scalar ↔ n.Scalar := by cases h <;> exact Iff.rfl

/-- A scalar keeps its type. -/
theorem SameKind.hasBasic {b : BasicType} (h : n.SameKind n') : n'.HasBasic b ↔ n.HasBasic b := by
  cases h with
  | refl => exact Iff.rfl
  | int i i' => cases b <;> exact Iff.rfl
  | double d d' => cases b <;> exact Iff.rfl

/-- An element keeps its type. -/
theorem SameKind.hasElemType {aType : UInt32} {aAdtName : Option Str} (h : n.SameKind n') :
    n'.HasElemType aType aAdtName ↔ n.HasElemType aType aAdtName := by
  cases h <;> exact Iff.rfl

/-- A field keeps its type. -/
theorem SameKind.hasField {f : Field} (h : n.SameKind n') : n'.HasField f ↔ n.HasField f := by
  cases h with
  | refl => exact Iff.rfl
  | int i i' => exact and_congr_right fun _ ↦ (SameKind.int i i').hasBasic
  | double d d' => exact and_congr_right fun _ ↦ (SameKind.double d d').hasBasic

/-- An array is not changed at all. -/
theorem SameKind.array_eq {aType : UInt32} {aAdtName : Option Str} {v : Addr} {tb : Option TableId}
    (h : n.SameKind n') : n' = .array aType aAdtName v tb ↔ n = .array aType aAdtName v tb := by
  cases h <;> simp

/-- Nor is a struct. -/
theorem SameKind.varAdt_eq {name : Str} {m : Addr} {u : Bool} (h : n.SameKind n') :
    n' = .varAdt name m u ↔ n = .varAdt name m u := by
  cases h <;> simp

end Node

/-! ### Slots -/

/-- What can hold a value: a variable, an entry of the array at node `n`, a field of the struct at
node `n`. -/
inductive Slot where
  | var (x : Str)
  | elem (n i : ℕ)
  | field (n : ℕ) (k : Str)
  deriving DecidableEq

/-- The node that a slot is in. -/
def Slot.parent : Slot → Option ℕ
  | var _ => none
  | elem n _ => some n
  | field n _ => some n

/-- The definition that counts for each field name: the last one. -/
def fieldTypes (fs : List Field) : StrMap Field := fs.foldl (fun m f ↦ m.insert f.vName f) ∅

namespace VarTable

/-- How many cells of a kind there are. -/
def size (tbl : VarTable D) : Store → ℕ
  | .string => tbl.vStackString.length
  | .vector => tbl.vStackVector.length
  | .map => tbl.vStackMap.length

/-- The vector of the array at node `n`. -/
def elems (tbl : VarTable D) (n : ℕ) : List Ptr :=
  match tbl.vStackAst[n]? with
  | some (.array _ _ v _) => (tbl.vStackVector[v.index]?).getD []
  | _ => []

/-- The map of the struct at node `n`. -/
def fields (tbl : VarTable D) (n : ℕ) : StrMap Ptr :=
  match tbl.vStackAst[n]? with
  | some (.varAdt _ m _) => (tbl.vStackMap[m.index]?).getD ∅
  | _ => ∅

/-- The elements are in the vector of the array. -/
theorem elems_eq {tbl : VarTable D} {n : ℕ} {aType : UInt32} {aAdtName : Option Str} {v : Addr}
    {tb : Option TableId} (hn : tbl.vStackAst[n]? = some (.array aType aAdtName v tb)) :
    tbl.elems n = (tbl.vStackVector[v.index]?).getD [] := by
  rw [elems, hn]

/-- The fields are in the map of the struct. -/
theorem fields_eq {tbl : VarTable D} {n : ℕ} {name : Str} {m : Addr} {u : Bool}
    (hn : tbl.vStackAst[n]? = some (.varAdt name m u)) :
    tbl.fields n = (tbl.vStackMap[m.index]?).getD ∅ := by
  rw [fields, hn]

/-- What a slot holds. -/
def ptrAt (tbl : VarTable D) : Slot → Option Ptr
  | .var x => tbl.vMap[x]?
  | .elem n i => (tbl.elems n)[i]?
  | .field n k => (tbl.fields n)[k]?

/-- No slot points to the node. -/
def Unheld (tbl : VarTable D) (a : Addr) : Prop := ∀ p, tbl.ptrAt p ≠ some (Ptr.node a)

/-- The map has the fields of a definition. -/
structure FieldsOk (tbl : VarTable D) (fs : List Field) (adtMap : StrMap Ptr) : Prop where
  field : ∀ (k : Str) (f : Field), (fieldTypes fs)[k]? = some f →
    ∃ (a : Addr) (n : Node D), adtMap[k]? = some (Ptr.node a) ∧
      tbl.vStackAst[a.index]? = some n ∧ n.HasField f
  other : ∀ k : Str, (fieldTypes fs)[k]? = none → adtMap[k]? = none

/-- If the node is an own struct, it has the fields of its definition. -/
def Whole (defs : Str → Option AdtDef) (tbl : VarTable D) (i : ℕ) : Prop :=
  ∀ name m, tbl.vStackAst[i]? = some (Node.varAdt name m false) →
    ∃ d, defs name = some d ∧ tbl.FieldsOk d.adtParam (tbl.fields i)

section WF

variable (nlits : ℕ) (defs : Str → Option AdtDef) (typed : Prop) (id : TableId)

/-- The node that a slot points to. -/
structure Child (tbl : VarTable D) (p : Slot) (a : Addr) : Prop where
  table : a.table = id
  lit : id = 0 → nlits ≤ a.index
  parent : ∀ n ∈ p.parent, n < a.index
  live : ∃ n, tbl.vStackAst[a.index]? = some n ∧
    ((∀ i ∈ p.parent, ∀ n', tbl.vStackAst[i]? = some n' → n'.Own) → n.Own)
  elem : typed → ∀ n i aType aAdtName v t, p = .elem n i →
    tbl.vStackAst[n]? = some (Node.array aType aAdtName v (some t)) →
      ∃ e, tbl.vStackAst[a.index]? = some e ∧ e.HasElemType aType aAdtName
  whole : tbl.Whole defs a.index

/-- What a name can stand for that is no variable: a function, a struct or nothing. All are global. -/
inductive Global (x : Str) : Ptr → Prop
  | empty : Global x .empty
  | func (f : Func) : Global x (.func f)
  | adt (d : AdtDef) (h : d.adtTypeName = x) : Global x (.adt d)

/-- The cells of a table. -/
structure WF (tbl : VarTable D) : Prop where
  aux : ∀ (n : ℕ) (node : Node D) k a, tbl.vStackAst[n]? = some node → node.aux = some (k, a) →
    a.table = id ∧ a.index < tbl.size k
  aux_inj : ∀ (n n' : ℕ) (node node' : Node D) c, tbl.vStackAst[n]? = some node →
    tbl.vStackAst[n']? = some node' → node.aux = some c → node'.aux = some c → n = n'
  varTable : ∀ (n : ℕ) aType aAdtName v t,
    tbl.vStackAst[n]? = some (Node.array aType aAdtName v (some t)) → t = id
  slot : ∀ p q, tbl.ptrAt p = some q →
    (∃ a, q = .node a ∧ Child nlits defs typed id tbl p a) ∨
      (id = 0 ∧ ∃ x, p = .var x ∧ Global x q)
  slot_inj : ∀ p p' a, tbl.ptrAt p = some (Ptr.node a) → tbl.ptrAt p' = some (Ptr.node a) → p = p'

end WF

variable {nlits : ℕ} {defs : Str → Option AdtDef} {typed : Prop} {id : TableId}
  {tbl tbl' tbl'' : VarTable D}

/-- What a slot holds is one of its children. -/
theorem WF.child {p : Slot} {a : Addr} (h : tbl.WF nlits defs typed id)
    (hp : tbl.ptrAt p = some (.node a)) : Child nlits defs typed id tbl p a := by
  rcases h.slot p _ hp with ⟨a', ha, hchild⟩ | ⟨-, x, -, hglobal⟩
  · obtain rfl := Ptr.node.inj ha
    exact hchild
  · cases hglobal

/-- In a new table no slot holds anything. -/
theorem ptrAt_new (prev : List TableId) (p : Slot) : (VarTable.new (D := D) prev).ptrAt p = none := by
  cases p with
  | var x => exact Std.ExtTreeMap.getElem?_empty
  | elem n i => rfl
  | field n k => exact Std.ExtTreeMap.getElem?_empty

/-- A table without nodes. -/
theorem WF.new (prev : List TableId) : (VarTable.new (D := D) prev).WF nlits defs typed id := by
  refine ⟨fun _ _ _ _ hn ↦ ?_, fun _ _ _ _ _ hn ↦ ?_, fun _ _ _ _ _ hn ↦ ?_, fun p _ hp ↦ ?_,
    fun p _ _ hp ↦ ?_⟩
  · cases hn
  · cases hn
  · cases hn
  · rw [ptrAt_new] at hp
    cases hp
  · rw [ptrAt_new] at hp
    cases hp

/-- A slot that holds something is a variable or in a node. -/
theorem lt_of_ptrAt {p : Slot} {q : Ptr} (h : tbl.ptrAt p = some q) :
    ∀ n ∈ p.parent, n < tbl.vStackAst.length := by
  intro n hn
  by_contra hlt
  have hnone : tbl.vStackAst[n]? = none := List.getElem?_eq_none (Nat.le_of_not_lt hlt)
  cases p with
  | var x => cases hn
  | elem m i =>
    obtain rfl : m = n := Option.some.inj hn
    simp [ptrAt, elems, hnone] at h
  | field m k =>
    obtain rfl : m = n := Option.some.inj hn
    simp [ptrAt, fields, hnone] at h

/-- The slots of a struct say all about its fields. -/
theorem fields_eq_of_ptrAt {n : ℕ}
    (h : ∀ k, tbl'.ptrAt (.field n k) = tbl.ptrAt (.field n k)) : tbl'.fields n = tbl.fields n :=
  Std.ExtTreeMap.ext_getElem? fun k ↦ h k

/-! ### What stays of a table -/

/-- The nodes are the same up to the numbers that they hold. -/
def SameNodes (tbl tbl' : VarTable D) : Prop :=
  ∀ (i : ℕ) (n : Node D), tbl.vStackAst[i]? = some n →
    ∃ n' : Node D, tbl'.vStackAst[i]? = some n' ∧ n.SameKind n'

/-- No node has changed. -/
theorem SameNodes.of_eq (h : tbl'.vStackAst = tbl.vStackAst) : tbl.SameNodes tbl' :=
  fun _ n hn ↦ ⟨n, by rw [h, hn], .refl n⟩

/-- One change after the other. -/
theorem SameNodes.trans (h : tbl.SameNodes tbl') (h' : tbl'.SameNodes tbl'') :
    tbl.SameNodes tbl'' := by
  intro i n hn
  obtain ⟨n', hn', hkind⟩ := h i n hn
  obtain ⟨n'', hn'', hkind'⟩ := h' i n' hn'
  exact ⟨n'', hn'', hkind.trans hkind'⟩

/-- No node is lost. -/
theorem SameNodes.length_le (h : tbl.SameNodes tbl') :
    tbl.vStackAst.length ≤ tbl'.vStackAst.length := by
  by_contra hlt
  have hlt := Nat.lt_of_not_le hlt
  obtain ⟨n', hn', -⟩ := h tbl'.vStackAst.length _ (List.getElem?_eq_getElem hlt)
  rw [List.getElem?_eq_none (le_refl _)] at hn'
  exact absurd hn' (by simp)

/-- A node that was there before. -/
theorem SameNodes.of_lt {i : ℕ} {n' : Node D} (h : tbl.SameNodes tbl')
    (hi : i < tbl.vStackAst.length) (hn' : tbl'.vStackAst[i]? = some n') :
    ∃ n, tbl.vStackAst[i]? = some n ∧ n.SameKind n' := by
  obtain ⟨n'', hn'', hkind⟩ := h i _ (List.getElem?_eq_getElem hi)
  obtain rfl := Option.some.inj (hn''.symm.trans hn')
  exact ⟨_, List.getElem?_eq_getElem hi, hkind⟩

/-- What a step may do: it adds variables, nodes and cells, but no functions and no structs, changes
numbers and entries of arrays, and leaves the fields of the first `k` nodes and gives none of them
away. -/
structure Keeps (k : ℕ) (tbl tbl' : VarTable D) : Prop where
  prev : tbl'.prevVarTable = tbl.prevVarTable
  var : ∀ (x : Str) (p : Ptr), tbl.vMap[x]? = some p → tbl'.vMap[x]? = some p
  other : ∀ (x : Str) (p : Ptr), tbl'.vMap[x]? = some p → (∀ a, p ≠ .node a) → tbl.vMap[x]? = some p
  nodes : tbl.SameNodes tbl'
  field : ∀ n x, n < k → tbl'.ptrAt (.field n x) = tbl.ptrAt (.field n x)
  held : ∀ p a, a.index < k → tbl'.ptrAt p = some (Ptr.node a) →
    ∃ p', tbl.ptrAt p' = some (Ptr.node a)

/-- A table keeps all it has. -/
theorem Keeps.refl (k : ℕ) (tbl : VarTable D) : tbl.Keeps k tbl :=
  ⟨rfl, fun _ _ h ↦ h, fun _ _ h _ ↦ h, .of_eq rfl, fun _ _ _ ↦ rfl, fun p _ _ h ↦ ⟨p, h⟩⟩

/-- One change after the other. -/
theorem Keeps.trans {k : ℕ} (h : tbl.Keeps k tbl') (h' : tbl'.Keeps k tbl'') : tbl.Keeps k tbl'' where
  prev := h'.prev.trans h.prev
  var x p hp := h'.var x p (h.var x p hp)
  other x p hp hne := h.other x p (h'.other x p hp hne) hne
  nodes := h.nodes.trans h'.nodes
  field n x hn := (h'.field n x hn).trans (h.field n x hn)
  held p a ha hp := by
    obtain ⟨p', hp'⟩ := h'.held p a ha hp
    exact h.held p' a ha hp'

/-- Fewer nodes have less to keep. -/
theorem Keeps.of_le {k k' : ℕ} (hle : k' ≤ k) (h : tbl.Keeps k tbl') : tbl.Keeps k' tbl' :=
  ⟨h.prev, h.var, h.other, h.nodes, fun n x hn ↦ h.field n x (lt_of_lt_of_le hn hle),
    fun p a ha ↦ h.held p a (lt_of_lt_of_le ha hle)⟩

/-- No name becomes a function. -/
theorem Keeps.func {k : ℕ} (h : tbl.Keeps k tbl') (x : Str) (f : Func)
    (hf : tbl'.vMap[x]? = some (.func f)) : tbl.vMap[x]? = some (.func f) :=
  h.other x _ hf (by simp)

/-- The fields of a struct that is kept. -/
theorem Keeps.fields_eq {k n : ℕ} (h : tbl.Keeps k tbl') (hn : n < k) :
    tbl'.fields n = tbl.fields n :=
  fields_eq_of_ptrAt fun x ↦ h.field n x hn

/-- A node that no slot holds is not taken by one. -/
theorem Keeps.unheld {k : ℕ} {a : Addr} (h : tbl.Keeps k tbl') (ha : a.index < k)
    (hfree : tbl.Unheld a) : tbl'.Unheld a := by
  intro p hp
  obtain ⟨p', hp'⟩ := h.held p a ha hp
  exact hfree p' hp'

/-- The types of the fields stay. -/
theorem FieldsOk.mono {fs : List Field} {adtMap : StrMap Ptr} (h : tbl.FieldsOk fs adtMap)
    (hnodes : tbl.SameNodes tbl') : tbl'.FieldsOk fs adtMap := by
  refine ⟨fun k f hk ↦ ?_, h.other⟩
  obtain ⟨a, n, ha, hn, hf⟩ := h.field k f hk
  obtain ⟨n', hn', hkind⟩ := hnodes _ n hn
  exact ⟨a, n', ha, hn', hkind.hasField.2 hf⟩

/-- A struct stays whole, while its fields stay the same. -/
theorem Whole.mono {defs' : Str → Option AdtDef} {i : ℕ} (h : tbl.Whole defs i)
    (hi : i < tbl.vStackAst.length) (hnodes : tbl.SameNodes tbl')
    (hfields : tbl'.fields i = tbl.fields i)
    (hdefs : ∀ name d, defs name = some d → defs' name = some d) : tbl'.Whole defs' i := by
  intro name m hn'
  obtain ⟨n, hn, hkind⟩ := hnodes.of_lt hi hn'
  rw [hkind.varAdt_eq.1 rfl] at hn
  obtain ⟨d, hd, hok⟩ := h name m hn
  exact ⟨d, hdefs name d hd, hfields ▸ hok.mono hnodes⟩

/-- A child stays where it is held, while the table keeps its parent. -/
theorem Child.mono {defs' : Str → Option AdtDef} {p : Slot} {a : Addr}
    (h : Child nlits defs typed id tbl p a) (hnodes : tbl.SameNodes tbl')
    (hparent : ∀ n ∈ p.parent, n < tbl.vStackAst.length)
    (hfields : tbl'.fields a.index = tbl.fields a.index)
    (hdefs : ∀ name d, defs name = some d → defs' name = some d) :
    Child nlits defs' typed id tbl' p a := by
  obtain ⟨n, hn, hown⟩ := h.live
  obtain ⟨n', hn', hkind⟩ := hnodes _ n hn
  have hlt : a.index < tbl.vStackAst.length := (List.getElem?_eq_some_iff.1 hn).1
  refine ⟨h.table, h.lit, h.parent, ⟨n', hn', fun hp ↦ hkind.own.2 (hown fun i hi m hm ↦ ?_)⟩, ?_,
    h.whole.mono hlt hnodes hfields hdefs⟩
  · obtain ⟨m', hm', hkind'⟩ := hnodes i m hm
    exact hkind'.own.1 (hp i hi m' hm')
  · intro htyped m i aType aAdtName v t hpe harr
    obtain ⟨m', hm', hkind'⟩ := hnodes.of_lt (hparent m (by rw [hpe]; rfl)) harr
    rw [hkind'.array_eq.1 rfl] at hm'
    obtain ⟨e, he, htype⟩ := h.elem htyped m i aType aAdtName v t hpe hm'
    obtain ⟨e', he', hkind''⟩ := hnodes _ e he
    exact ⟨e', he', hkind''.hasElemType.2 htype⟩

/-- More structs may be defined. -/
theorem WF.defs_mono {defs' : Str → Option AdtDef} (h : tbl.WF nlits defs typed id)
    (hdefs : ∀ name d, defs name = some d → defs' name = some d) :
    tbl.WF nlits defs' typed id := by
  refine ⟨h.aux, h.aux_inj, h.varTable, fun p q hp ↦ ?_, h.slot_inj⟩
  refine (h.slot p q hp).imp_left fun ⟨a, hq, hchild⟩ ↦ ⟨a, hq, ?_⟩
  exact hchild.mono (.of_eq rfl) (lt_of_ptrAt hp) rfl hdefs

/-! ### The slots after a change -/

/-- The slots hold what the names, the vectors and the maps have. -/
theorem ptrAt_congr (hnodes : tbl.SameNodes tbl')
    (hlength : tbl'.vStackAst.length = tbl.vStackAst.length) (hvMap : tbl'.vMap = tbl.vMap)
    (hvector : ∀ n aType aAdtName v tb,
      tbl.vStackAst[(n : ℕ)]? = some (Node.array aType aAdtName v tb) →
        tbl'.vStackVector[v.index]? = tbl.vStackVector[v.index]?)
    (hmap : ∀ n name m u, tbl.vStackAst[(n : ℕ)]? = some (Node.varAdt name m u) →
      tbl'.vStackMap[m.index]? = tbl.vStackMap[m.index]?) (p : Slot) :
    tbl'.ptrAt p = tbl.ptrAt p := by
  -- a place of nodes holds a node before and after, and of the same kind
  have hnode : ∀ i : ℕ, (tbl.vStackAst[i]? = none ∧ tbl'.vStackAst[i]? = none) ∨
      ∃ n n', tbl.vStackAst[i]? = some n ∧ tbl'.vStackAst[i]? = some n' ∧ n.SameKind n' := by
    intro i
    cases hn : tbl.vStackAst[i]? with
    | none =>
      rw [List.getElem?_eq_none_iff, ← hlength] at hn
      exact .inl ⟨rfl, List.getElem?_eq_none hn⟩
    | some n =>
      obtain ⟨n', hn', hkind⟩ := hnodes i n hn
      exact .inr ⟨n, n', rfl, hn', hkind⟩
  cases p with
  | var x => exact congrArg (·[x]?) hvMap
  | elem m i =>
    refine congrArg (·[i]?) ?_
    rcases hnode m with ⟨hn, hn'⟩ | ⟨n, n', hn, hn', hkind⟩
    · rw [elems, elems, hn, hn']
    · rw [elems, elems, hn, hn']
      cases hkind with
      | refl =>
        cases n with
        | array aType aAdtName v tb => exact congrArg (·.getD []) (hvector m _ _ _ _ hn)
        | _ => rfl
      | _ => rfl
  | field m k =>
    refine congrArg (·[k]?) ?_
    rcases hnode m with ⟨hn, hn'⟩ | ⟨n, n', hn, hn', hkind⟩
    · rw [fields, fields, hn, hn']
    · rw [fields, fields, hn, hn']
      cases hkind with
      | refl =>
        cases n with
        | varAdt name mp u => exact congrArg (·.getD ∅) (hmap m _ _ _ hn)
        | _ => rfl
      | _ => rfl

/-- A new node with nothing in it. -/
theorem ptrAt_append {n : Node D}
    (hvector : ∀ aType aAdtName v tb, n = .array aType aAdtName v tb →
      tbl.vStackVector[v.index]? = some [])
    (hmap : ∀ name m u, n = .varAdt name m u → tbl.vStackMap[m.index]? = some ∅) (p : Slot) :
    { tbl with vStackAst := tbl.vStackAst ++ [n] }.ptrAt p = tbl.ptrAt p := by
  have hcases : ∀ i : ℕ, (tbl.vStackAst ++ [n])[i]? = tbl.vStackAst[i]? ∨
      (tbl.vStackAst[i]? = none ∧ (tbl.vStackAst ++ [n])[i]? = some n) := by
    intro i
    rcases lt_trichotomy i tbl.vStackAst.length with hi | rfl | hi
    · exact .inl (List.getElem?_append_left hi)
    · exact .inr (by simp)
    · refine .inl ?_
      rw [List.getElem?_eq_none (by simp; omega), List.getElem?_eq_none (le_of_lt hi)]
  cases p with
  | var x => rfl
  | elem m i =>
    show (elems _ m)[i]? = (elems _ m)[i]?
    rw [elems, elems]
    rcases hcases m with heq | ⟨hnone, hn⟩
    · rw [heq]
    · rw [hnone, hn]
      split
      · next aType aAdtName v tb heq =>
        rw [hvector aType aAdtName v tb (Option.some.inj heq)]
        rfl
      · rfl
  | field m k =>
    show (fields _ m)[k]? = (fields _ m)[k]?
    rw [fields, fields]
    rcases hcases m with heq | ⟨hnone, hn⟩
    · rw [heq]
    · rw [hnone, hn]
      split
      · next name mp u heq =>
        rw [hmap name mp u (Option.some.inj heq)]
        rfl
      · rfl

/-- Where the slots do not change, little has to be checked. -/
theorem Keeps.of_ptrAt_eq {k : ℕ} (hprev : tbl'.prevVarTable = tbl.prevVarTable)
    (hnodes : tbl.SameNodes tbl') (hslot : ∀ p, tbl'.ptrAt p = tbl.ptrAt p) : tbl.Keeps k tbl' :=
  ⟨hprev, fun x _ hp ↦ (hslot (.var x)).trans hp, fun x _ hp _ ↦ (hslot (.var x)).symm.trans hp,
    hnodes, fun _ _ _ ↦ hslot _, fun p _ _ hp ↦ ⟨p, (hslot p).symm.trans hp⟩⟩

/-- The index of a cell tells which node it belongs to. -/
theorem WF.owner_eq {n n' : ℕ} {node node' : Node D} {k : Store} {c c' : Addr}
    (h : tbl.WF nlits defs typed id) (hn : tbl.vStackAst[n]? = some node)
    (hn' : tbl.vStackAst[n']? = some node') (hc : node.aux = some (k, c))
    (hc' : node'.aux = some (k, c')) (heq : c.index = c'.index) : n = n' := by
  have hid := (h.aux n node k c hn hc).1
  have hid' := (h.aux n' node' k c' hn' hc').1
  obtain ⟨table, index⟩ := c
  obtain ⟨table', index'⟩ := c'
  simp only at hid hid' heq
  subst hid hid' heq
  exact h.aux_inj n n' node node' _ hn hn' hc hc'

/-- Another vector in the array at node `n`. -/
theorem elems_setVector {n : ℕ} {aType : UInt32} {aAdtName : Option Str} {c : Addr}
    {tb : Option TableId} (h : tbl.WF nlits defs typed id)
    (hn : tbl.vStackAst[n]? = some (.array aType aAdtName c tb)) (v : List Ptr) (m : ℕ) :
    { tbl with vStackVector := tbl.vStackVector.set c.index v }.elems m =
      if m = n then v else tbl.elems m := by
  have hlt : c.index < tbl.vStackVector.length := (h.aux n _ .vector c hn rfl).2
  split
  · next heq =>
    subst heq
    rw [elems, hn]
    exact congrArg (fun v ↦ Option.getD v []) (List.getElem?_set_self hlt)
  · next hne =>
    rw [elems, elems]
    split
    · next aType' aAdtName' w tb' hm =>
      rw [hm]
      refine congrArg (fun v ↦ Option.getD v []) (List.getElem?_set_ne fun heq ↦ hne ?_)
      exact h.owner_eq (k := .vector) hm hn rfl rfl heq.symm
    · rfl

/-- Another map in the struct at node `n`. -/
theorem fields_setMap {n : ℕ} {name : Str} {c : Addr} {u : Bool} (h : tbl.WF nlits defs typed id)
    (hn : tbl.vStackAst[n]? = some (.varAdt name c u)) (adtMap : StrMap Ptr) (m : ℕ) :
    { tbl with vStackMap := tbl.vStackMap.set c.index adtMap }.fields m =
      if m = n then adtMap else tbl.fields m := by
  have hlt : c.index < tbl.vStackMap.length := (h.aux n _ .map c hn rfl).2
  split
  · next heq =>
    subst heq
    rw [fields, hn]
    exact congrArg (fun m ↦ Option.getD m ∅) (List.getElem?_set_self hlt)
  · next hne =>
    rw [fields, fields]
    split
    · next name' w u' hm =>
      rw [hm]
      refine congrArg (fun m ↦ Option.getD m ∅) (List.getElem?_set_ne fun heq ↦ hne ?_)
      exact h.owner_eq (k := .map) hm hn rfl rfl heq.symm
    · rfl

/-! ### Steps -/

/-- A step that adds neither a node nor a slot. -/
theorem WF.congr (h : tbl.WF nlits defs typed id) (hnodes : tbl.SameNodes tbl')
    (hlength : tbl'.vStackAst.length = tbl.vStackAst.length)
    (hsize : ∀ k, tbl.size k ≤ tbl'.size k)
    (hslot : ∀ p q, tbl'.ptrAt p = some q → tbl.ptrAt p = some q)
    (hfields : ∀ n, tbl'.fields n = tbl.fields n) : tbl'.WF nlits defs typed id := by
  have hback : ∀ (i : ℕ) (n' : Node D), tbl'.vStackAst[i]? = some n' →
      ∃ n : Node D, tbl.vStackAst[i]? = some n ∧ n.SameKind n' := fun i n' hn' ↦
    hnodes.of_lt (hlength ▸ (List.getElem?_eq_some_iff.1 hn').1) hn'
  constructor
  · intro n node k a hn ha
    obtain ⟨node', hn', hkind⟩ := hback n node hn
    obtain ⟨ht, hlt⟩ := h.aux n node' k a hn' (hkind.aux_eq ▸ ha)
    exact ⟨ht, lt_of_lt_of_le hlt (hsize k)⟩
  · intro n n' node node' c hn hn' hc hc'
    obtain ⟨m, hm, hkind⟩ := hback n node hn
    obtain ⟨m', hm', hkind'⟩ := hback n' node' hn'
    exact h.aux_inj n n' m m' c hm hm' (hkind.aux_eq ▸ hc) (hkind'.aux_eq ▸ hc')
  · intro n aType aAdtName v t hn
    obtain ⟨m, hm, hkind⟩ := hback n _ hn
    rw [hkind.array_eq.1 rfl] at hm
    exact h.varTable n aType aAdtName v t hm
  · intro p q hp
    refine (h.slot p q (hslot p q hp)).imp_left fun ⟨a, hq, hchild⟩ ↦ ⟨a, hq, ?_⟩
    exact hchild.mono hnodes (lt_of_ptrAt (hslot p q hp)) (hfields _) fun _ _ hd ↦ hd
  · exact fun p p' a hp hp' ↦ h.slot_inj p p' a (hslot p _ hp) (hslot p' _ hp')

/-- The allocation of a node, whose cell belongs to no other node and is empty. -/
theorem WF.grow {n : Node D} (h : tbl.WF nlits defs typed id)
    (hast : tbl'.vStackAst = tbl.vStackAst ++ [n]) (hsize : ∀ k, tbl.size k ≤ tbl'.size k)
    (haux : ∀ k a, n.aux = some (k, a) → a.table = id ∧ a.index < tbl'.size k ∧
      ∀ (i : ℕ) node, tbl.vStackAst[i]? = some node → node.aux ≠ some (k, a))
    (htable : ∀ aType aAdtName v t, n = .array aType aAdtName v (some t) → t = id)
    (hslot : ∀ p, tbl'.ptrAt p = tbl.ptrAt p) : tbl'.WF nlits defs typed id := by
  have hnodes : tbl.SameNodes tbl' := by
    intro i m hm
    refine ⟨m, ?_, .refl m⟩
    rw [hast, List.getElem?_append_left (List.getElem?_eq_some_iff.1 hm).1, hm]
  -- a node of the new table is an old one or the new last one
  have hback : ∀ (i : ℕ) (m : Node D), tbl'.vStackAst[i]? = some m →
      tbl.vStackAst[i]? = some m ∨ (i = tbl.vStackAst.length ∧ m = n) := by
    intro i m hm
    rw [hast, List.getElem?_append] at hm
    split at hm
    · exact .inl hm
    · have hi : i - tbl.vStackAst.length = 0 := by
        have := (List.getElem?_eq_some_iff.1 hm).1
        simp only [List.length_singleton] at this
        omega
      rw [hi] at hm
      exact .inr ⟨by omega, (Option.some.inj hm).symm⟩
  constructor
  · intro i m k a hm ha
    rcases hback i m hm with hm | ⟨-, rfl⟩
    · obtain ⟨ht, hlt⟩ := h.aux i m k a hm ha
      exact ⟨ht, lt_of_lt_of_le hlt (hsize k)⟩
    · exact ⟨(haux k a ha).1, (haux k a ha).2.1⟩
  · rintro i i' m m' ⟨k, a⟩ hm hm' hc hc'
    rcases hback i m hm with hm | ⟨hi, rfl⟩ <;> rcases hback i' m' hm' with hm' | ⟨hi', rfl⟩
    · exact h.aux_inj i i' m m' _ hm hm' hc hc'
    · exact absurd hc ((haux k a hc').2.2 i m hm)
    · exact absurd hc' ((haux k a hc).2.2 i' m' hm')
    · rw [hi, hi']
  · intro i aType aAdtName v t hm
    rcases hback i _ hm with hm | ⟨-, hn⟩
    · exact h.varTable i aType aAdtName v t hm
    · exact htable aType aAdtName v t hn.symm
  · intro p q hp
    rw [hslot] at hp
    refine (h.slot p q hp).imp_left fun ⟨a, hq, hchild⟩ ↦ ⟨a, hq, ?_⟩
    exact hchild.mono hnodes (lt_of_ptrAt hp) (fields_eq_of_ptrAt fun k ↦ hslot _) fun _ _ hd ↦ hd
  · intro p p' a hp hp'
    exact h.slot_inj p p' a (hslot p ▸ hp) (hslot p' ▸ hp')

/-- A slot gets a node that is in no slot. A struct that gets a field is in no slot itself: it is
under construction. -/
theorem WF.insertSlot {p₀ : Slot} {a₀ : Addr} (h : tbl.WF nlits defs typed id)
    (hast : tbl'.vStackAst = tbl.vStackAst) (hsize : ∀ k, tbl.size k ≤ tbl'.size k)
    (hslot : ∀ p, tbl'.ptrAt p = if p = p₀ then some (.node a₀) else tbl.ptrAt p)
    (hfree : tbl.Unheld a₀) (hfield : ∀ n k, p₀ = .field n k → tbl.Unheld ⟨id, n⟩)
    (hchild : Child nlits defs typed id tbl p₀ a₀) : tbl'.WF nlits defs typed id := by
  -- the struct that the place belongs to is held by nothing, so the fields of no child change
  have hne : ∀ p a, tbl.ptrAt p = some (.node a) → ∀ k, p₀ ≠ .field a.index k := by
    intro p a hp k hk
    refine hfield _ k hk p ?_
    rw [hp, ← (h.child hp).table]
  have hlt : ∀ n ∈ p₀.parent, n < tbl.vStackAst.length := by
    obtain ⟨m, hm, -⟩ := hchild.live
    intro n hn
    exact (hchild.parent n hn).trans (List.getElem?_eq_some_iff.1 hm).1
  have hfields : ∀ n, (∀ k, p₀ ≠ .field n k) → tbl'.fields n = tbl.fields n := by
    intro n hn
    refine fields_eq_of_ptrAt fun k ↦ ?_
    rw [hslot, if_neg (hn k).symm]
  constructor
  · intro n node k a hn ha
    obtain ⟨ht, hlt⟩ := h.aux n node k a (hast ▸ hn) ha
    exact ⟨ht, lt_of_lt_of_le hlt (hsize k)⟩
  · intro n n' node node' c hn hn'
    exact h.aux_inj n n' node node' c (hast ▸ hn) (hast ▸ hn')
  · intro n aType aAdtName v t hn
    exact h.varTable n aType aAdtName v t (hast ▸ hn)
  · intro p q hp
    rw [hslot] at hp
    split at hp
    · next heq =>
      subst heq
      refine .inl ⟨a₀, (Option.some.inj hp).symm, ?_⟩
      refine hchild.mono (.of_eq hast) hlt (hfields _ fun k hk ↦ ?_) fun _ _ hd ↦ hd
      -- the node would be its own parent
      exact lt_irrefl _ (hchild.parent a₀.index (by rw [hk]; rfl))
    · refine (h.slot p q hp).imp_left fun ⟨a, hq, hold⟩ ↦ ⟨a, hq, ?_⟩
      exact hold.mono (.of_eq hast) (lt_of_ptrAt hp) (hfields _ (hne p a (hq ▸ hp)))
        fun _ _ hd ↦ hd
  · intro p p' a hp hp'
    rw [hslot] at hp hp'
    split at hp <;> split at hp'
    · next heq heq' => rw [heq, heq']
    · exact absurd (hp.symm ▸ hp') (hfree p')
    · exact absurd (hp'.symm ▸ hp) (hfree p)
    · exact h.slot_inj p p' a hp hp'

end VarTable

end Meridian.MQL

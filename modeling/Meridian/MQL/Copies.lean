import Meridian.MQL.Denotes
import Meridian.MQL.NativeInvariant

/-!
# Copies

What the creators and `updateADT` write to. A creator (`Builds`) writes to new cells only, and so are
the cells of the node that it makes. An assignment writes to the cells of the destination and to new
ones, and if it succeeds, the destination holds the value of the source, provided that the source is
not read where the destination is written to (`updateFuel_basic`, `updateFuel_array`,
`updateFuel_struct`; `U` is where it is read).

`adtCreateAndCopy_copies` is what it comes to: a copy denotes the same value, through new cells.
-/

namespace Meridian.MQL

open Lib (Runs Meets)

variable {D : Type} {s s' s₀ : ParserState D} {t : TableId}

/-! ### Writing to one cell -/

namespace ParserState

/-- The only cell that changes. -/
theorem withTable_set (c₀ : Cell) {tbl tbl' : VarTable D} {y : Content D}
    (ht : s.tables c₀.addr.table = some tbl) (hself : tbl'.content c₀ = some y)
    (hlive : tbl.content c₀ ≠ none)
    (hrest : ∀ c, c.addr.table = c₀.addr.table → c ≠ c₀ → tbl'.content c = tbl.content c) :
    WritesOnly (· = c₀) s (s.withTable c₀.addr.table tbl') ∧
      (s.withTable c₀.addr.table tbl').content c₀ = some y := by
  have hcontent : ∀ c, c ≠ c₀ → (s.withTable c₀.addr.table tbl').content c = s.content c := by
    intro c hc
    rw [content, content]
    by_cases heq : c.addr.table = c₀.addr.table
    · rw [heq, withTable_same, ht, Option.bind_some, Option.bind_some, hrest c heq hc]
    · rw [withTable_of_ne heq]
  have hself' : (s.withTable c₀.addr.table tbl').content c₀ = some y := by
    rw [content, withTable_same, Option.bind_some, hself]
  refine ⟨⟨fun c x hc hx ↦ (hcontent c hc).trans hx, fun c hc ↦ ?_⟩, hself'⟩
  by_cases heq : c = c₀
  · subst heq
    exact absurd (hself'.symm.trans hc) (by simp)
  · exact (hcontent c heq).symm.trans hc

/-- Only cells that are not there yet change. -/
theorem withTable_append {tbl tbl' : VarTable D} (ht : s.tables t = some tbl)
    (hrest : ∀ c y, c.addr.table = t → tbl.content c = some y → tbl'.content c = some y) :
    WritesOnly (fun _ ↦ False) s (s.withTable t tbl') := by
  have hcontent : ∀ c y, s.content c = some y → (s.withTable t tbl').content c = some y := by
    intro c y hy
    rw [content] at hy ⊢
    by_cases heq : c.addr.table = t
    · rw [heq, ht, Option.bind_some] at hy
      rw [heq, withTable_same, Option.bind_some, hrest c y heq hy]
    · rwa [withTable_of_ne heq]
  refine ⟨fun c y _ hy ↦ hcontent c y hy, fun c hc ↦ ?_⟩
  by_contra hne
  obtain ⟨y, hy⟩ := Option.ne_none_iff_exists'.1 hne
  exact absurd ((hcontent c y hy).symm.trans hc) (by simp)

end ParserState

namespace Interp

open ParserState

/-- In one table, addresses differ in the index. -/
theorem index_ne {a b : Addr} (h : b.table = a.table) (hne : b ≠ a) : a.index ≠ b.index := by
  intro hi
  obtain ⟨ta, ia⟩ := a
  obtain ⟨tb, ib⟩ := b
  obtain rfl : tb = ta := h
  obtain rfl : ia = ib := hi
  exact hne rfl

theorem setNode_writes (a : Addr) (n : Node D) :
    Ensures (setNode a n) s fun _ s' ↦
      WritesOnly (· = .node a) s s' ∧ s'.content (.node a) = some (.node n) := by
  refine Lib.meets_bind.2 (getTable_ensures fun tbl ht ↦ Lib.meets_bind.2 (cell_ensures ?_))
  intro m hm
  have hlt := (List.getElem?_eq_some_iff.1 hm).1
  refine withTable_set (.node a) ht ?_ ?_ fun c hc hne ↦ ?_
  · simp [VarTable.content, hlt]
  · simp [VarTable.content, hlt]
  · cases c with
    | node b =>
      have hi := index_ne hc fun heq ↦ hne (congrArg Cell.node heq)
      exact congrArg (Option.map Content.node) (List.getElem?_set_ne hi)
    | aux k b => cases k <;> rfl

theorem setString_writes (a : Addr) (x : Str) :
    Ensures (setString (D := D) a x) s fun _ s' ↦
      WritesOnly (· = .aux .string a) s s' ∧ s'.content (.aux .string a) = some (.string x) := by
  refine Lib.meets_bind.2 (getTable_ensures fun tbl ht ↦ Lib.meets_bind.2 (cell_ensures ?_))
  intro y hy
  have hlt := (List.getElem?_eq_some_iff.1 hy).1
  refine withTable_set (.aux .string a) ht ?_ ?_ fun c hc hne ↦ ?_
  · simp [VarTable.content, hlt]
  · simp [VarTable.content, hlt]
  · rcases c with b | ⟨⟨⟩, b⟩
    · rfl
    · have hi := index_ne hc fun heq ↦ hne (congrArg (Cell.aux .string) heq)
      exact congrArg (Option.map Content.string) (List.getElem?_set_ne hi)
    · rfl
    · rfl

theorem setVector_writes (a : Addr) (v : List Ptr) :
    Ensures (setVector (D := D) a v) s fun _ s' ↦
      WritesOnly (· = .aux .vector a) s s' ∧ s'.content (.aux .vector a) = some (.vector v) := by
  refine Lib.meets_bind.2 (getTable_ensures fun tbl ht ↦ Lib.meets_bind.2 (cell_ensures ?_))
  intro y hy
  have hlt := (List.getElem?_eq_some_iff.1 hy).1
  refine withTable_set (.aux .vector a) ht ?_ ?_ fun c hc hne ↦ ?_
  · simp [VarTable.content, hlt]
  · simp [VarTable.content, hlt]
  · rcases c with b | ⟨⟨⟩, b⟩
    · rfl
    · rfl
    · have hi := index_ne hc fun heq ↦ hne (congrArg (Cell.aux .vector) heq)
      exact congrArg (Option.map Content.vector) (List.getElem?_set_ne hi)
    · rfl

theorem setMap_writes (a : Addr) (m : StrMap Ptr) :
    Ensures (setMap (D := D) a m) s fun _ s' ↦
      WritesOnly (· = .aux .map a) s s' ∧ s'.content (.aux .map a) = some (.map m) := by
  refine Lib.meets_bind.2 (getTable_ensures fun tbl ht ↦ Lib.meets_bind.2 (cell_ensures ?_))
  intro y hy
  have hlt := (List.getElem?_eq_some_iff.1 hy).1
  refine withTable_set (.aux .map a) ht ?_ ?_ fun c hc hne ↦ ?_
  · simp [VarTable.content, hlt]
  · simp [VarTable.content, hlt]
  · rcases c with b | ⟨⟨⟩, b⟩
    · rfl
    · rfl
    · rfl
    · have hi := index_ne hc fun heq ↦ hne (congrArg (Cell.aux .map) heq)
      exact congrArg (Option.map Content.map) (List.getElem?_set_ne hi)

theorem pushBack_writes {a : Addr} {v : List Ptr}
    (hv : s.content (.aux .vector a) = some (.vector v)) (p : Ptr) :
    Ensures (pushBack a p) s fun _ s' ↦ WritesOnly (· = .aux .vector a) s s' ∧
      s'.content (.aux .vector a) = some (.vector (v ++ [p])) :=
  Lib.meets_bind.2 ((runs_getVector hv).meets (setVector_writes a _))

/-! ### Creators -/

/-- The cells of a node. -/
def cells (a : Addr) (n : Node D) (c : Cell) : Prop :=
  c = .node a ∨ ∃ k b, n.aux = some (k, b) ∧ c = .aux k b

/-- The node is there, and its cells are new since `s₀`. -/
structure Built (s₀ s : ParserState D) (a : Addr) (n : Node D) : Prop where
  node : s.content (.node a) = some (.node n)
  new : ∀ c, cells a n c → s₀.New c

/-- The computation only writes to new cells, and so are those of the node that it makes. -/
def Builds (create : Interp D (Option Addr)) : Prop :=
  ∀ s : ParserState D, Ensures create s fun r s' ↦ WritesOnly (fun _ ↦ False) s s' ∧
    ∀ a ∈ r, ∃ n, Built s s' a n

theorem newStackString_writes (x : Str) :
    Ensures (newStackString (D := D) t x) s fun c s' ↦ WritesOnly (fun _ ↦ False) s s' ∧
      s.New (.aux .string c) ∧ s'.content (.aux .string c) = some (.string x) := by
  refine Lib.meets_bind.2 (getTable_ensures fun tbl ht ↦ Lib.meets_bind.2 ?_)
  refine ⟨withTable_append ht fun c y hc hy ↦ ?_, ?_, ?_⟩
  · rcases c with b | ⟨⟨⟩, b⟩
    · exact hy
    · obtain ⟨z, hz, rfl⟩ := Option.map_eq_some_iff.1 hy
      have hlt := (List.getElem?_eq_some_iff.1 hz).1
      exact congrArg (Option.map Content.string) ((List.getElem?_append_left hlt).trans hz)
    · exact hy
    · exact hy
  · simp [New, content, Cell.addr, ht, VarTable.content]
  · simp [content, Cell.addr, VarTable.content]

theorem newStackVector_writes (v : List Ptr) :
    Ensures (newStackVector (D := D) t v) s fun c s' ↦ WritesOnly (fun _ ↦ False) s s' ∧
      s.New (.aux .vector c) ∧ s'.content (.aux .vector c) = some (.vector v) := by
  refine Lib.meets_bind.2 (getTable_ensures fun tbl ht ↦ Lib.meets_bind.2 ?_)
  refine ⟨withTable_append ht fun c y hc hy ↦ ?_, ?_, ?_⟩
  · rcases c with b | ⟨⟨⟩, b⟩
    · exact hy
    · exact hy
    · obtain ⟨z, hz, rfl⟩ := Option.map_eq_some_iff.1 hy
      have hlt := (List.getElem?_eq_some_iff.1 hz).1
      exact congrArg (Option.map Content.vector) ((List.getElem?_append_left hlt).trans hz)
    · exact hy
  · simp [New, content, Cell.addr, ht, VarTable.content]
  · simp [content, Cell.addr, VarTable.content]

theorem newStackMap_writes :
    Ensures (newStackMap (D := D) t) s fun c s' ↦ WritesOnly (fun _ ↦ False) s s' ∧
      s.New (.aux .map c) ∧ s'.content (.aux .map c) = some (.map ∅) := by
  refine Lib.meets_bind.2 (getTable_ensures fun tbl ht ↦ Lib.meets_bind.2 ?_)
  refine ⟨withTable_append ht fun c y hc hy ↦ ?_, ?_, ?_⟩
  · rcases c with b | ⟨⟨⟩, b⟩
    · exact hy
    · exact hy
    · exact hy
    · obtain ⟨z, hz, rfl⟩ := Option.map_eq_some_iff.1 hy
      have hlt := (List.getElem?_eq_some_iff.1 hz).1
      exact congrArg (Option.map Content.map) ((List.getElem?_append_left hlt).trans hz)
  · simp [New, content, Cell.addr, ht, VarTable.content]
  · simp [content, Cell.addr, VarTable.content]

/-- `new_stack_ast`. `Q` is what is known of the node that has been set. -/
theorem newStackAst_builds {init : Interp D (Node D)} {Q : Node D → ParserState D → Prop}
    (hinit : ∀ s₁ : ParserState D, Ensures init s₁ fun n s' ↦ WritesOnly (fun _ ↦ False) s₁ s' ∧
      (∀ k b, n.aux = some (k, b) → s₁.New (.aux k b)) ∧ Q n s')
    (hQ : ∀ n s₁ s₂, Q n s₁ → WritesOnly (fun _ ↦ False) s₁ s₂ → Q n s₂) :
    Ensures (newStackAst t init) s fun r s' ↦ WritesOnly (fun _ ↦ False) s s' ∧
      ∀ a ∈ r, ∃ n, Built s s' a n ∧ Q n s' := by
  have hcount : ∀ {k : ℕ}, WritesOnly (fun _ ↦ False) s { s with astAllocationCount := k } :=
    ⟨fun _ _ _ hx ↦ hx, fun _ hc ↦ hc⟩
  refine Lib.meets_bind.2 (Lib.meets_bind.2 (Lib.meets_modify.2 ?_))
  refine Lib.meets_bind.2 (Lib.meets_get.2 (Lib.meets_pure.2 (Lib.meets_ite.2 ⟨fun _ ↦ ?_, ?_⟩)))
  swap
  · exact fun _ ↦ ⟨hcount, fun a ha ↦ absurd ha (by simp)⟩
  refine Lib.meets_bind.2 ((hinit _).mono fun n s₁ ⟨h₁, haux, hn⟩ ↦ ?_)
  refine Lib.meets_bind.2 (getTable_ensures fun tbl ht ↦ Lib.meets_bind.2 ?_)
  have h₂ : WritesOnly (fun _ ↦ False) s₁
      (s₁.withTable t { tbl with vStackAst := tbl.vStackAst ++ [n] }) := by
    refine withTable_append ht fun c y hc hy ↦ ?_
    cases c with
    | node b =>
      obtain ⟨z, hz, rfl⟩ := Option.map_eq_some_iff.1 hy
      have hlt := (List.getElem?_eq_some_iff.1 hz).1
      exact congrArg (Option.map Content.node) ((List.getElem?_append_left hlt).trans hz)
    | aux k b =>
      cases k <;> exact hy
  have h₀₁ : WritesOnly (fun _ ↦ False) s s₁ := hcount.trans h₁
  refine ⟨h₀₁.trans h₂, ?_⟩
  rintro a ⟨⟩
  refine ⟨n, ⟨?_, ?_⟩, hQ n s₁ _ hn h₂⟩
  · show (s₁.withTable t _).content _ = _
    simp [content, Cell.addr, VarTable.content]
  · rintro c (rfl | ⟨k, b, hk, rfl⟩)
    · refine h₀₁.live _ ?_
      simp [New, content, Cell.addr, ht, VarTable.content]
    · exact haux k b hk

theorem newStackAst_plain {n : Node D} (haux : n.aux = none) :
    Builds (newStackAst t (pure n)) := by
  intro s
  refine (newStackAst_builds (Q := fun _ _ ↦ True) (fun s₁ ↦ ?_) fun _ _ _ _ _ ↦ trivial).mono ?_
  · exact ⟨.refl _ s₁, fun k b hk ↦ absurd (haux.symm.trans hk) (by simp), trivial⟩
  · rintro r s' ⟨h, hr⟩
    refine ⟨h, fun a ha ↦ ?_⟩
    obtain ⟨n, hn, -⟩ := hr a ha
    exact ⟨n, hn⟩

theorem builds_none : Builds (D := D) (pure none) :=
  fun s ↦ ⟨.refl _ s, fun _ ha ↦ absurd ha (by simp)⟩

/-- The elements of a new array. -/
theorem createElems_writes {create : Interp D (Option Addr)} (hcreate : Builds create) (v : Addr)
    (n : ℕ) (s : ParserState D) :
    Ensures (createElems v create n) s fun _ s' ↦
      WritesOnly (· = .aux .vector v) s s' ∧ (n = 0 → s' = s) := by
  induction n generalizing s with
  | zero => exact ⟨.refl _ s, fun _ ↦ rfl⟩
  | succ n ih =>
    refine Lib.meets_bind.2 ((hcreate s).mono fun r s₁ ⟨h₁, _⟩ ↦ ?_)
    have h₁ : WritesOnly (· = .aux .vector v) s s₁ := h₁.mono fun _ ↦ False.elim
    cases r with
    | none => exact ⟨h₁, fun hn ↦ absurd hn (Nat.succ_ne_zero n)⟩
    | some a =>
      refine Lib.meets_bind.2 ((getVector_readOnly v).then fun w ↦ ?_)
      refine (setVector_writes v _).mono fun _ s₂ ⟨h₂, _⟩ ↦ ?_
      refine (ih s₂).mono fun _ s₃ ⟨h₃, _⟩ ↦ ⟨(h₁.trans h₂).trans h₃, ?_⟩
      exact fun hn ↦ absurd hn (Nat.succ_ne_zero n)

/-- The node of an array or a struct stays where only its vector or map is written to. -/
theorem Built.of_writesOnly {a : Addr} {n : Node D} {A : Cell → Prop} (h : Built s₀ s a n)
    (hwrites : WritesOnly A s s') (hA : ¬ A (.node a)) : Built s₀ s' a n :=
  ⟨hwrites.keep _ _ hA h.node, h.new⟩

/-- A new array, with the vector that it has at first if it has no elements. -/
theorem createArray_built {aType : UInt32} {name : Option Str} {size : Int32}
    {create : Interp D (Option Addr)} (hcreate : Builds create) :
    Ensures (createArray t aType name size create) s fun r s' ↦
      WritesOnly (fun _ ↦ False) s s' ∧ ∀ a ∈ r, ∃ name' v tb,
        Built s s' a (.array aType name' v tb) ∧
          (size = 0 → s'.content (.aux .vector v) = some (.vector [])) := by
  have hnone : ∀ {s₁ : ParserState D}, WritesOnly (fun _ ↦ False) s s₁ →
      WritesOnly (fun _ ↦ False) s s₁ ∧ ∀ a ∈ (none : Option Addr), ∃ name' v tb,
        Built s s₁ a (.array aType name' v tb) ∧
          (size = 0 → s₁.content (.aux .vector v) = some (.vector [])) :=
    fun h ↦ ⟨h, fun a ha ↦ absurd ha (by simp)⟩
  refine Lib.meets_ite.2 ⟨fun _ ↦ hnone (.refl _ s), fun _ ↦ ?_⟩
  refine (realAdtName_readOnly t aType name).then fun r ↦ ?_
  split
  · exact hnone (.refl _ s)
  · next name' =>
    refine Lib.meets_bind.2 ((newStackAst_builds (Q := fun n s' ↦ ∃ v,
      n = .array aType name' v (some t) ∧ s'.content (.aux .vector v) = some (.vector []))
      (fun s₁ ↦ ?_) ?_).mono fun r s₁ ⟨h₁, hr⟩ ↦ ?_)
    · refine Lib.meets_bind.2 ((newStackVector_writes []).mono fun c s₂ ⟨h₂, hnew, hc⟩ ↦ ?_)
      refine ⟨h₂, fun k b hk ↦ ?_, c, rfl, hc⟩
      cases hk
      exact hnew
    · rintro n s₁ s₂ ⟨v, rfl, hv⟩ h
      exact ⟨v, rfl, h.keep _ _ id hv⟩
    cases r with
    | none => exact hnone h₁
    | some a =>
      obtain ⟨_, hbuilt, v, rfl, hv⟩ := hr a rfl
      refine Lib.meets_bind.2 ((runs_getNode hbuilt.node).meets ?_)
      refine Lib.meets_bind.2 ((createElems_writes hcreate v _ s₁).mono fun b s₂ ⟨h₂, hzero⟩ ↦ ?_)
      -- the vector is a cell that was not there in the first state
      have h₀₂ : WritesOnly (fun _ ↦ False) s s₂ := by
        refine WritesOnly.drop_new (A := (· = .aux .vector v))
          ((h₁.mono fun _ ↦ False.elim).trans h₂) ?_
        rintro c rfl
        exact .inr (hbuilt.new _ (.inr ⟨.vector, v, rfl, rfl⟩))
      refine Lib.meets_ite.2 ⟨fun _ ↦ ⟨h₀₂, ?_⟩, fun _ ↦ hnone h₀₂⟩
      rintro _ ⟨⟩
      refine ⟨name', v, some t, hbuilt.of_writesOnly h₂ (by simp), ?_⟩
      rintro rfl
      rw [hzero rfl]
      exact hv

theorem createArray_builds {aType : UInt32} {name : Option Str} {size : Int32}
    {create : Interp D (Option Addr)} (hcreate : Builds create) :
    Builds (createArray t aType name size create) := by
  refine fun s ↦ (createArray_built hcreate).mono fun r s' ⟨h, hr⟩ ↦ ⟨h, fun a ha ↦ ?_⟩
  obtain ⟨name', v, tb, hbuilt, -⟩ := hr a ha
  exact ⟨_, hbuilt⟩

variable [CDouble D]

theorem createBasicType_builds (b : BasicType) : Builds (createBasicType (D := D) t b) := by
  cases b with
  | int => exact newStackAst_plain rfl
  | double => exact newStackAst_plain rfl
  | string =>
    intro s
    refine (newStackAst_builds (Q := fun _ _ ↦ True) (fun s₁ ↦ ?_) fun _ _ _ _ _ ↦ trivial).mono ?_
    · refine Lib.meets_bind.2 ((newStackString_writes []).mono fun c s₂ ⟨h₂, hnew, _⟩ ↦ ?_)
      refine ⟨h₂, fun k b hk ↦ ?_, trivial⟩
      cases hk
      exact hnew
    · rintro r s' ⟨h, hr⟩
      refine ⟨h, fun a ha ↦ ?_⟩
      obtain ⟨n, hn, -⟩ := hr a ha
      exact ⟨n, hn⟩
  | void =>
    intro s
    refine Lib.meets_bind.2 ((newStackAst_plain (n := .raw) rfl s).mono fun _ s' ⟨h, _⟩ ↦ ?_)
    exact ⟨h, fun a ha ↦ absurd ha (by simp)⟩

theorem createField_builds (f : Field) : Builds (createField (D := D) t f) := by
  rw [createField]
  split
  · exact createBasicType_builds _
  · exact createArray_builds (createBasicType_builds _)

/-- The fields of the struct are new since `s₀`. -/
def FieldsBuilt (s₀ s : ParserState D) (m : Addr) : Prop :=
  ∃ adtMap, s.content (.aux .map m) = some (.map adtMap) ∧
    ∀ (k : Str) (p : Ptr), adtMap[k]? = some p → ∃ l n, p = .node l ∧ Built s₀ s l n

omit [CDouble D] in
theorem FieldsBuilt.of_writesOnly {m : Addr} (h : FieldsBuilt s₀ s m)
    (hwrites : WritesOnly (fun _ ↦ False) s s') : FieldsBuilt s₀ s' m := by
  obtain ⟨adtMap, hm, hfields⟩ := h
  refine ⟨adtMap, hwrites.keep _ _ id hm, fun k p hp ↦ ?_⟩
  obtain ⟨l, n, rfl, hbuilt⟩ := hfields k p hp
  exact ⟨l, n, rfl, hbuilt.of_writesOnly hwrites id⟩

/-- The fields of a new struct. -/
theorem createFields_built (m : Addr) (fs : List Field) (s : ParserState D)
    (h : FieldsBuilt s₀ s m) (hlive : ∀ c, s.New c → s₀.New c) :
    Ensures (createFields t m fs) s fun _ s' ↦
      WritesOnly (· = .aux .map m) s s' ∧ FieldsBuilt s₀ s' m := by
  induction fs generalizing s with
  | nil => exact ⟨.refl _ s, h⟩
  | cons f fs ih =>
    refine Lib.meets_bind.2 ((createField_builds f s).mono fun r s₁ ⟨h₁, hr⟩ ↦ ?_)
    have hfields := h.of_writesOnly h₁
    have hw₁ : WritesOnly (· = .aux .map m) s s₁ := h₁.mono fun _ ↦ False.elim
    cases r with
    | none => exact ⟨hw₁, hfields⟩
    | some a =>
      obtain ⟨n, hn⟩ := hr a rfl
      obtain ⟨adtMap, hm, hold⟩ := hfields
      refine Lib.meets_bind.2 ((runs_getMap hm).meets (Lib.meets_bind.2 ?_))
      refine (setMap_writes m _).mono fun _ s₂ ⟨h₂, hm₂⟩ ↦ ?_
      have hnode : ∀ l : Addr, ¬ Cell.node l = .aux .map m := fun _ ↦ by simp
      have hfields₂ : FieldsBuilt s₀ s₂ m := by
        refine ⟨_, hm₂, fun k p hp ↦ ?_⟩
        rw [Std.ExtTreeMap.getElem?_insert] at hp
        split at hp
        · obtain rfl := Option.some.inj hp
          have hbuilt : Built s₀ s₁ a n := ⟨hn.node, fun c hc ↦ hlive c (hn.new c hc)⟩
          exact ⟨a, n, rfl, hbuilt.of_writesOnly h₂ (hnode a)⟩
        · obtain ⟨l, n, rfl, hbuilt⟩ := hold k p hp
          exact ⟨l, n, rfl, hbuilt.of_writesOnly h₂ (hnode l)⟩
      have hw₂ := hw₁.trans h₂
      refine (ih s₂ hfields₂ fun c hc ↦ hlive c (hw₂.live c hc)).mono ?_
      exact fun _ s₃ ⟨h₃, hfields₃⟩ ↦ ⟨hw₂.trans h₃, hfields₃⟩

/-- A new struct. -/
theorem createAdt_built (name : Str) :
    Ensures (createAdt (D := D) t name) s fun r s' ↦ WritesOnly (fun _ ↦ False) s s' ∧
      ∀ a ∈ r, ∃ name' m, Built s s' a (.varAdt name' m false) ∧ FieldsBuilt s s' m := by
  have hnone : ∀ {s₁ : ParserState D}, WritesOnly (fun _ ↦ False) s s₁ →
      WritesOnly (fun _ ↦ False) s s₁ ∧ ∀ a ∈ (none : Option Addr), ∃ name' m,
        Built s s₁ a (.varAdt name' m false) ∧ FieldsBuilt s s₁ m :=
    fun h ↦ ⟨h, fun a ha ↦ absurd ha (by simp)⟩
  refine (lookup_readOnly t name).then fun r ↦ ?_
  split
  · next d =>
    refine Lib.meets_bind.2 ((newStackAst_builds (Q := fun n s' ↦ ∃ m,
      n = .varAdt d.adtTypeName m false ∧ s'.content (.aux .map m) = some (.map ∅))
      (fun s₁ ↦ ?_) ?_).mono fun r s₁ ⟨h₁, hr⟩ ↦ ?_)
    · refine Lib.meets_bind.2 (newStackMap_writes.mono fun c s₂ ⟨h₂, hnew, hc⟩ ↦ ?_)
      refine ⟨h₂, fun k b hk ↦ ?_, c, rfl, hc⟩
      cases hk
      exact hnew
    · rintro n s₁ s₂ ⟨m, rfl, hm⟩ h
      exact ⟨m, rfl, h.keep _ _ id hm⟩
    cases r with
    | none => exact hnone h₁
    | some a =>
      obtain ⟨_, hbuilt, m, rfl, hm⟩ := hr a rfl
      have hempty : FieldsBuilt s s₁ m :=
        ⟨∅, hm, fun k p hp ↦ absurd hp (by simp)⟩
      refine Lib.meets_bind.2 ((runs_getNode hbuilt.node).meets (Lib.meets_bind.2 ?_))
      refine (createFields_built m d.adtParam s₁ hempty h₁.live).mono fun b s₂ ⟨h₂, hfields⟩ ↦ ?_
      have h₀₂ : WritesOnly (fun _ ↦ False) s s₂ := by
        refine WritesOnly.drop_new (A := (· = .aux .map m))
          ((h₁.mono fun _ ↦ False.elim).trans h₂) ?_
        rintro c rfl
        exact .inr (hbuilt.new _ (.inr ⟨.map, m, rfl, rfl⟩))
      refine Lib.meets_ite.2 ⟨fun _ ↦ ⟨h₀₂, ?_⟩, fun _ ↦ hnone h₀₂⟩
      rintro _ ⟨⟩
      exact ⟨d.adtTypeName, m, hbuilt.of_writesOnly h₂ (by simp), hfields⟩
  · exact hnone (.refl _ s)

theorem createElem_builds (aType : UInt32) (aAdtName : Option Str) :
    Builds (createElem (D := D) t aType aAdtName) := by
  unfold createElem
  split
  · exact createBasicType_builds _
  · exact createBasicType_builds _
  · exact createBasicType_builds _
  · split
    · refine fun s ↦ (createAdt_built _).mono fun r s' ⟨h, hr⟩ ↦ ⟨h, fun a ha ↦ ?_⟩
      obtain ⟨name', m, hbuilt, -⟩ := hr a ha
      exact ⟨_, hbuilt⟩
    · exact builds_none
  · exact createArray_builds builds_none
  · exact createBasicType_builds _

/-! ### Whose the cells are -/

omit [CDouble D] in
theorem cells_congr {n n' : Node D} (h : n.SameKind n') (l : Addr) : cells l n' = cells l n := by
  funext c
  rw [cells, cells, h.aux_eq]

omit [CDouble D] in
/-- Two maps with the same keys have them in the same order. -/
theorem keys_eq_of_mem_iff {α β : Type} {m : StrMap α} {m' : StrMap β}
    (h : ∀ k : Str, k ∈ m ↔ k ∈ m') : m.keys = m'.keys := by
  have hperm : m.keys.Perm m'.keys := by
    refine (List.perm_ext_iff_of_nodup Std.ExtTreeMap.nodup_keys Std.ExtTreeMap.nodup_keys).2 ?_
    intro k
    rw [Std.ExtTreeMap.mem_keys, Std.ExtTreeMap.mem_keys, h]
  refine hperm.eq_of_pairwise (fun a b _ _ hab hba ↦ ?_) Std.ExtTreeMap.ordered_keys
    Std.ExtTreeMap.ordered_keys
  exact absurd (Std.OrientedCmp.gt_of_lt hab) (by simp [hba])

omit [CDouble D] in
/-- Only the node of a struct definition has fields that have been set. -/
theorem adtParam_ensures {p : Ptr} {Q : List Field → ParserState D → Prop}
    (hQ : ∀ d, p = .adt d → Q d.adtParam s) : Ensures (adtParam p) s Q := by
  refine Lib.meets_bind.2 (nodeAt_ensures (fun a n hp _ ↦ ?_) fun _ hnode ↦ ?_)
  · subst hp
    cases n with
    | varAdt => exact trivial
    | _ => exact trivial
  · cases p with
    | node a => exact absurd rfl (hnode a)
    | adt d => exact hQ d rfl
    | _ => exact trivial

omit [CDouble D] in
/-- The struct that a name stands for in an assignment. -/
theorem lookup_adtParam {nlits : ℕ} {typed : Prop} {this : TableId} {name : Str} {d : AdtDef}
    (h : s.WF nlits typed) (hd : s.defs name = some d) {β : Type} {Q : β → ParserState D → Prop}
    {f : List Field → Interp D β} {g : Interp D β} (hg : Ensures g s Q)
    (hf : Ensures (f d.adtParam) s Q) :
    Ensures (do
      match ← lookup this name with
      | none => g
      | some p => do f (← adtParam p)) s Q := by
  refine Lib.meets_bind.2 (lookup_ensures (fun p t' tbl ht hp _ ↦ Lib.meets_bind.2 ?_) hg)
  refine adtParam_ensures fun d' hp' ↦ ?_
  subst hp'
  obtain rfl := Option.some.inj (hd.symm.trans (h.adtTypeName ht hp).1)
  exact hf

omit [CDouble D] in
/-- The fields of a struct that has not been received. -/
theorem ownStruct_fields {nlits : ℕ} {typed : Prop} {c m : Addr} {name : Str}
    {adtMap : StrMap Ptr} {tbl : VarTable D} (h : s.WF nlits typed)
    (ht : s.tables c.table = some tbl)
    (hc : s.content (.node c) = some (.node (.varAdt name m false)))
    (hm : s.content (.aux .map m) = some (.map adtMap)) (hwhole : tbl.Whole s.defs c.index) :
    ∃ d, s.defs name = some d ∧ (∀ k : Str, k ∈ adtMap ↔ k ∈ fieldTypes d.adtParam) ∧
      ∀ (k : Str) p, adtMap[k]? = some p → ∃ l n f, p = .node l ∧ l.table = c.table ∧
        s.content (.node l) = some (.node n) ∧ n.HasField f ∧
          tbl.ptrAt (.field c.index k) = some (.node l) := by
  obtain ⟨tbl', ht', hn⟩ := nodeAt_iff.2 hc
  obtain rfl := Option.some.inj (ht.symm.trans ht')
  have hwf := h.table _ tbl ht
  have hmt := (hwf.aux _ _ .map m hn rfl).1
  -- the map of the struct is in its own table
  have hfields : tbl.fields c.index = adtMap := by
    rw [content, Cell.addr, hmt, ht, Option.bind_some, VarTable.content,
      Option.map_eq_some_iff] at hm
    obtain ⟨m', hm', heq⟩ := hm
    cases heq
    rw [VarTable.fields_eq hn, hm', Option.getD_some]
  obtain ⟨d, hd, hok⟩ := hwhole name m hn
  rw [hfields] at hok
  refine ⟨d, hd, fun k ↦ ?_, fun k p hp ↦ ?_⟩
  · cases hf : (fieldTypes d.adtParam)[k]? with
    | none =>
      refine iff_of_false ?_ ?_
      · rw [← Std.ExtTreeMap.isSome_getElem?_iff_mem, hok.other k hf]
        exact Bool.false_ne_true
      · rw [← Std.ExtTreeMap.isSome_getElem?_iff_mem, hf]
        exact Bool.false_ne_true
    | some f =>
      obtain ⟨a, n, ha, -, -⟩ := hok.field k f hf
      refine iff_of_true ?_ ?_
      · rw [← Std.ExtTreeMap.isSome_getElem?_iff_mem, ha]
        rfl
      · rw [← Std.ExtTreeMap.isSome_getElem?_iff_mem, hf]
        rfl
  · cases hf : (fieldTypes d.adtParam)[k]? with
    | none => exact absurd (hp.symm.trans (hok.other k hf)) (by simp)
    | some f =>
      obtain ⟨l, n, hl, hn', hfield⟩ := hok.field k f hf
      obtain rfl := Option.some.inj (hp.symm.trans hl)
      have hslot : tbl.ptrAt (.field c.index k) = some (.node l) := by
        rw [VarTable.ptrAt, hfields, hp]
      have hlt := (hwf.child hslot).table
      exact ⟨l, n, f, rfl, hlt, nodeAt_iff.1 ⟨tbl, hlt ▸ ht, hn'⟩, hfield, hslot⟩

omit [CDouble D] in
/-- The cells of a node are there. -/
theorem not_new_of_cells {nlits : ℕ} {typed : Prop} {l : Addr} {n : Node D} {c : Cell}
    (h : s.WF nlits typed) (hl : s.content (.node l) = some (.node n)) (hc : cells l n c) :
    ¬ s.New c := by
  intro hnew
  rcases hc with rfl | ⟨k, b, hk, rfl⟩
  · exact absurd (hl.symm.trans hnew) (by simp)
  · obtain ⟨tbl, ht, hn⟩ := nodeAt_iff.2 hl
    obtain ⟨hbt, hlt⟩ := (h.table _ tbl ht).aux _ _ k b hn hk
    rw [New, content, Cell.addr, hbt, ht, Option.bind_some] at hnew
    cases k with
    | string => exact absurd hlt (by simpa [VarTable.content, VarTable.size] using hnew)
    | vector => exact absurd hlt (by simpa [VarTable.content, VarTable.size] using hnew)
    | map => exact absurd hlt (by simpa [VarTable.content, VarTable.size] using hnew)

omit [CDouble D] in
/-- A cell belongs to one node only. -/
theorem cells_unique {nlits : ℕ} {typed : Prop} {a b : Addr} {n n' : Node D} {c : Cell}
    (h : s.WF nlits typed) (ha : s.content (.node a) = some (.node n))
    (hb : s.content (.node b) = some (.node n')) (hc : cells a n c) (hc' : cells b n' c) :
    a = b := by
  obtain ⟨tbl, ht, hn⟩ := nodeAt_iff.2 ha
  obtain ⟨tbl', ht', hn'⟩ := nodeAt_iff.2 hb
  rcases hc with rfl | ⟨k, e, hk, rfl⟩
  · rcases hc' with heq | ⟨k, e, -, heq⟩
    · exact Cell.node.inj heq
    · cases heq
  · rcases hc' with heq | ⟨k', e', hk', heq⟩
    · cases heq
    · obtain ⟨rfl, rfl⟩ := Cell.aux.inj heq
      obtain ⟨he, -⟩ := (h.table _ tbl ht).aux _ n k e hn hk
      obtain ⟨he', -⟩ := (h.table _ tbl' ht').aux _ n' k e hn' hk'
      obtain ⟨ta, ia⟩ := a
      obtain ⟨tb, ib⟩ := b
      obtain rfl : ta = tb := he.symm.trans he'
      obtain rfl := Option.some.inj (ht.symm.trans ht')
      obtain rfl := (h.table _ tbl ht).aux_inj _ _ n n' _ hn hn' hk hk'
      rfl

omit [CDouble D] in
theorem mem_fieldTypes {fs : List Field} {k : Str} :
    k ∈ fieldTypes fs ↔ ∃ f ∈ fs, f.vName = k := by
  induction fs using List.reverseRecOn with
  | nil => simp [fieldTypes]
  | append_singleton fs f ih =>
    rw [fieldTypes_concat, Std.ExtTreeMap.mem_insert, ih]
    constructor
    · rintro (heq | ⟨g, hg, rfl⟩)
      · exact ⟨f, by simp, Std.LawfulEqCmp.eq_of_compare heq⟩
      · exact ⟨g, List.mem_append_left _ hg, rfl⟩
    · rintro ⟨g, hg, rfl⟩
      rcases List.mem_append.1 hg with hg | hg
      · exact .inr ⟨g, hg, rfl⟩
      · obtain rfl := List.mem_singleton.1 hg
        exact .inl Std.ReflCmp.compare_self

omit [CDouble D] in
/-- A field is no struct. -/
theorem ne_map_of_hasField {f : Field} {n : Node D} {k : Store} {b : Addr} (h : n.HasField f)
    (hb : n.aux = some (k, b)) : k ≠ .map := by
  rintro rfl
  cases n with
  | varAdt name m u =>
    obtain ⟨-, hbasic⟩ := h
    generalize f.vType = b at hbasic
    cases b <;> exact hbasic
  | _ => cases hb

/-! ### Assignments -/

variable {nlits : ℕ} {typed : Prop} {U : Cell → Prop}

/-- A basic value is assigned to a node. -/
theorem updateFuel_basic (this : TableId) (fuel : ℕ) {l : Addr} {r : Ptr} {n : Node D}
    {y : Value D} (hl : s.content (.node l) = some (.node n)) (hr : Denotes U s y r)
    (hy : y.Basic) : Ensures (updateFuel this fuel (.node l) r) s fun b s' ↦
      WritesOnly (cells l n) s s' ∧ (b = true → Denotes (cells l n) s' y (.node l)) := by
  cases fuel with
  | zero => exact trivial
  | succ fuel =>
    have hfalse : Ensures (pure false) s fun b s' ↦
        WritesOnly (cells l n) s s' ∧ (b = true → Denotes (cells l n) s' y (.node l)) :=
      ⟨.refl _ s, fun h ↦ absurd h Bool.false_ne_true⟩
    refine Lib.meets_bind.2 ((runs_nodeAt hl).meets (Lib.meets_bind.2 ?_))
    -- nothing is written unless the two are of one type
    cases y with
    | int i =>
      obtain ⟨a, rfl, -, ha⟩ := hr
      refine (runs_nodeAt ha).meets ?_
      cases n with
      | int j =>
        refine Lib.meets_bind.2 ((setNode_writes l _).mono fun _ s₁ ⟨h₁, hc⟩ ↦ ?_)
        exact ⟨h₁.mono fun c hc ↦ .inl hc, fun _ ↦ ⟨l, rfl, .inl rfl, hc⟩⟩
      | _ => exact hfalse
    | double d =>
      obtain ⟨a, rfl, -, ha⟩ := hr
      refine (runs_nodeAt ha).meets ?_
      cases n with
      | double e =>
        refine Lib.meets_bind.2 ((setNode_writes l _).mono fun _ s₁ ⟨h₁, hc⟩ ↦ ?_)
        exact ⟨h₁.mono fun c hc ↦ .inl hc, fun _ ↦ ⟨l, rfl, .inl rfl, hc⟩⟩
      | _ => exact hfalse
    | string x =>
      obtain ⟨a, c', rfl, ⟨-, ha⟩, -, hc'⟩ := hr
      refine (runs_nodeAt ha).meets ?_
      cases n with
      | string c =>
        refine Lib.meets_bind.2 ((runs_getString hc').meets (Lib.meets_bind.2 ?_))
        refine (setString_writes c _).mono fun _ s₁ ⟨h₁, hx⟩ ↦ ⟨h₁.mono fun b hb ↦ ?_, fun _ ↦ ?_⟩
        · exact .inr ⟨.string, c, rfl, hb⟩
        · exact ⟨l, c, rfl, ⟨.inl rfl, h₁.keep _ _ (by simp) hl⟩, .inr ⟨.string, c, rfl, rfl⟩, hx⟩
      | _ => exact hfalse
    | _ => exact hy.elim

/-- The node that is created holds the value, if that can be assigned to it. -/
def CopiesTo (fuel : ℕ) (create : Interp D (Option Addr)) (s : ParserState D) (y : Value D) : Prop :=
  ∀ r, Denotes (fun _ ↦ True) s y r → Ensures create s fun o s₁ ↦
    WritesOnly (fun _ ↦ False) s s₁ ∧ ∀ a ∈ o, ∀ this,
      Ensures (updateFuel this fuel (.node a) r) s₁ fun b s₂ ↦
        WritesOnly (fun _ ↦ False) s s₂ ∧ (b = true → Denotes s.New s₂ y (.node a))

theorem copiesTo_basic {create : Interp D (Option Addr)} (hcreate : Builds create) (fuel : ℕ)
    {y : Value D} (hy : y.Basic) (s : ParserState D) : CopiesTo fuel create s y := by
  intro r hr
  refine (hcreate s).mono fun o s₁ ⟨h₁, ho⟩ ↦ ⟨h₁, fun a ha this ↦ ?_⟩
  obtain ⟨n, hn⟩ := ho a ha
  refine (updateFuel_basic this fuel hn.node (hr.stays h₁) hy).mono fun b s₂ ⟨h₂, hb⟩ ↦ ?_
  refine ⟨WritesOnly.drop_new (A := cells a n) ((h₁.mono fun _ ↦ False.elim).trans h₂) ?_,
    fun hb' ↦ (hb hb').mono hn.new⟩
  exact fun c hc ↦ .inr (hn.new c hc)

/-- The elements of an array are copied one by one. The source is not read where they are put. -/
theorem assignElems_denotes (this : TableId) (fuel : ℕ) {l v : Addr} {aType : UInt32}
    {name : Option Str} {ys : List (Value D)} {w rs : List Ptr}
    (hl : NodeAt s₀ l (.array aType name v (some l.table))) (hU : ¬ U (.aux .vector v))
    (hrs : List.Forall₂ (Denotes U s₀) ys rs)
    (hcopies : ∀ s₁, Leads nlits typed s₀ s₁ → ∀ y ∈ ys,
      CopiesTo fuel (createElem l.table aType name) s₁ y)
    (s : ParserState D) (h : Leads nlits typed s₀ s) (hs : WritesOnly (· = .aux .vector v) s₀ s)
    (hv : s.content (.aux .vector v) = some (.vector w)) :
    Ensures (assignElems (updateFuel this fuel) (createElem l.table aType name) v rs) s fun b s' ↦
      WritesOnly (· = .aux .vector v) s s' ∧ (b = true →
        ∃ ps, s'.content (.aux .vector v) = some (.vector (w ++ ps)) ∧
          List.Forall₂ (Denotes s.New s') ys ps) := by
  induction hrs generalizing s w with
  | nil => exact ⟨.refl _ s, fun _ ↦ ⟨[], by rwa [List.append_nil], .nil⟩⟩
  | @cons y r ys rs hr _ ih =>
    have hr := (hr.of_writesOnly hs fun c hc heq ↦ hU (heq ▸ hc)).mono fun _ _ ↦ trivial
    refine Lib.meets_bind.2 (((hcopies s h y (List.mem_cons_self ..) r hr).and
      (createElem_creates aType name s h.wf)).mono ?_)
    rintro o s₁ ⟨⟨h₁, ho⟩, hleads₁, hfresh⟩
    cases o with
    | none => exact ⟨h₁.mono fun _ ↦ False.elim, fun h ↦ absurd h Bool.false_ne_true⟩
    | some a =>
      refine Lib.meets_bind.2 (((ho a rfl this).and (updateFuel_assigns this fuel _ r s₁
        hleads₁.wf)).mono ?_)
      rintro b s₂ ⟨⟨h₂, hb⟩, hleads₂⟩
      -- neither the new node nor the assignment to it touches an old cell
      have hw₂ : WritesOnly (· = .aux .vector v) s s₂ := h₂.mono fun _ ↦ False.elim
      refine Lib.meets_ite.2 ⟨fun hb' ↦ ?_, fun _ ↦ ⟨hw₂, fun h ↦ absurd h Bool.false_ne_true⟩⟩
      have hl := hl.evolves_of_aux h.evolves (by simp [Node.aux])
      have ha := (hfresh a rfl).evolves (stable_hasElemType _ _) hleads₂.evolves
        (hfresh a rfl).lt_sizes
      refine Lib.meets_bind.2 (((pushBack_fresh (fun _ _ h ↦ h) hl (hleads₁.trans hleads₂) ha).and
        (pushBack_writes (h₂.keep _ _ id hv) _)).mono ?_)
      rintro _ s₃ ⟨hleads₃, h₃, hv₃⟩
      have hw₃ := hw₂.trans h₃
      refine (ih (fun s' hs' z hz ↦ hcopies s' hs' z (List.mem_cons_of_mem y hz)) s₃
        (h.trans hleads₃) (hs.trans hw₃) hv₃).mono ?_
      rintro b' s' ⟨h', hrest⟩
      refine ⟨hw₃.trans h', fun hb'' ↦ ?_⟩
      obtain ⟨ps, hps, hall⟩ := hrest hb''
      -- the element is denoted still, since the rest writes to the vector and to new cells
      refine ⟨.node a :: ps, by rw [hps, List.append_assoc, List.singleton_append], .cons ?_ ?_⟩
      · refine (hb hb').of_writesOnly (h₃.trans h') fun c hc heq ↦ ?_
        exact absurd (hv.symm.trans (heq ▸ hc)) (by simp)
      · exact hall.imp fun _ _ hz ↦ hz.mono hw₃.live

/-- An array is assigned to another one. -/
theorem updateFuel_array (this : TableId) (fuel : ℕ) {l v : Addr} {r : Ptr}
    {aType aType' : UInt32} {name name' : Option Str} {tb : Option TableId} {ys : List (Value D)}
    (h : s.WF nlits typed) (hl : s.content (.node l) = some (.node (.array aType name v tb)))
    (hr : Denotes U s (.array aType' name' ys) r) (hU : ¬ U (.aux .vector v))
    (hcopies : ∀ s₁, Leads nlits typed s s₁ → ∀ y ∈ ys,
      CopiesTo fuel (createElem l.table aType name) s₁ y) :
    Ensures (updateFuel this (fuel + 1) (.node l) r) s fun b s' ↦
      WritesOnly (· = .aux .vector v) s s' ∧ (b = true → aType = aType' ∧
        (aType = ASTType.adtType.toWord → name = name') ∧
          Denotes (fun c ↦ c = .node l ∨ c = .aux .vector v ∨ s.New c) s' (.array aType name ys)
            (.node l)) := by
  have hfalse : Ensures (pure false) s fun b s' ↦ WritesOnly (· = .aux .vector v) s s' ∧
      (b = true → aType = aType' ∧ (aType = ASTType.adtType.toWord → name = name') ∧
        Denotes (fun c ↦ c = .node l ∨ c = .aux .vector v ∨ s.New c) s' (.array aType name ys)
          (.node l)) :=
    ⟨.refl _ s, fun h ↦ absurd h Bool.false_ne_true⟩
  obtain ⟨a, v', tb', rs, rfl, ⟨-, ha⟩, ⟨hU', hv'⟩, hrs⟩ := hr
  refine Lib.meets_bind.2 ((runs_nodeAt hl).meets (Lib.meets_bind.2 ((runs_nodeAt ha).meets ?_)))
  refine Lib.meets_ite.2 ⟨fun _ ↦ hfalse, fun heq ↦ Lib.meets_bind.2 ?_⟩
  refine sameAdtName_ensures.mono ?_
  rintro b s ⟨rfl, hname⟩
  refine Lib.meets_ite.2 ⟨fun hb ↦ ?_, fun _ ↦ hfalse⟩
  have hne : Cell.aux .vector v' ≠ .aux .vector v := fun heq ↦ hU (heq ▸ hU')
  have hlat := nodeAt_iff.2 hl
  refine Lib.meets_bind.2 (((setVector_ensures h hlat fun _ _ _ _ ↦ List.nil_prefix).and
    (setVector_writes v _)).mono ?_)
  rintro _ s₁ ⟨hleads, h₁, hv₁⟩
  refine Lib.meets_bind.2 ((runs_getVector (h₁.keep _ _ hne hv')).meets ?_)
  have hrs := denotesVector_iff.1 hrs
  -- what is left to show once the elements have been copied
  have hdone : ∀ {b : Bool} {s' : ParserState D}, WritesOnly (· = .aux .vector v) s₁ s' →
      (b = true → ∃ ps, s'.content (.aux .vector v) = some (.vector ([] ++ ps)) ∧
        List.Forall₂ (Denotes s₁.New s') ys ps) →
      WritesOnly (· = .aux .vector v) s s' ∧ (b = true → aType = aType' ∧
        (aType = ASTType.adtType.toWord → name = name') ∧
          Denotes (fun c ↦ c = .node l ∨ c = .aux .vector v ∨ s.New c) s' (.array aType name ys)
            (.node l)) := by
    intro b s' h' hb'
    have hw := h₁.trans h'
    refine ⟨hw, fun htrue ↦ ⟨not_not.1 heq, hname hb, ?_⟩⟩
    obtain ⟨ps, hps, hall⟩ := hb' htrue
    refine ⟨l, v, tb, ps, rfl, ⟨.inl rfl, hw.keep _ _ (by simp) hl⟩, ⟨.inr (.inl rfl), hps⟩, ?_⟩
    refine denotesVector_iff.2 (hall.imp fun _ _ hz ↦ hz.mono fun c hc ↦ ?_)
    exact .inr (.inr (h₁.live c hc))
  cases tb with
  | none =>
    -- there is no table for elements
    cases hrs with
    | nil => exact hdone (.refl _ s₁) fun _ ↦ ⟨[], hv₁, .nil⟩
    | cons => exact trivial
  | some t =>
    obtain rfl : t = l.table := by
      obtain ⟨tbl, ht, hn⟩ := hlat
      exact (h.table _ tbl ht).varTable _ _ _ _ _ hn
    refine (assignElems_denotes this fuel (hlat.evolves_of_aux hleads.evolves (by simp [Node.aux]))
      hU (hrs.imp fun _ _ hz ↦ hz.of_writesOnly h₁ fun c hc heq ↦ hU (heq ▸ hc))
      (fun s₂ h₂ ↦ hcopies s₂ (hleads.trans h₂)) s₁ (.refl hleads.wf) (.refl _ s₁) hv₁).mono ?_
    rintro b s' ⟨h', hb'⟩
    exact hdone h' hb'

/-- A basic value or an array of them is assigned to a node. -/
theorem updateFuel_flat (this : TableId) (fuel : ℕ) {l : Addr} {r : Ptr} {n : Node D}
    {y : Value D} (h : s.WF nlits typed) (hl : s.content (.node l) = some (.node n))
    (hname : ∀ aType name v tb, n = .array aType name v tb → name = none)
    (hr : Denotes U s y r) (hU : ∀ c, cells l n c → ¬ U c) (hy : y.Flat) :
    Ensures (updateFuel this fuel (.node l) r) s fun b s' ↦ WritesOnly (cells l n) s s' ∧
      (b = true → Denotes (fun c ↦ cells l n c ∨ s.New c) s' y (.node l)) := by
  by_cases hbasic : y.Basic
  · refine (updateFuel_basic this fuel hl hr hbasic).mono fun b s' ⟨h, hb⟩ ↦ ⟨h, fun hb' ↦ ?_⟩
    exact (hb hb').mono fun c hc ↦ .inl hc
  cases fuel with
  | zero => exact trivial
  | succ fuel =>
    cases y with
    | array aType name ys =>
      -- an array of scalars
      obtain ⟨rfl, hys⟩ := hy
      cases n with
      | array aType' name v tb =>
        obtain rfl := hname _ _ _ _ rfl
        have hvector : cells (D := D) l (.array aType' none v tb) (.aux .vector v) :=
          .inr ⟨.vector, v, rfl, rfl⟩
        refine (updateFuel_array this fuel h hl hr (hU _ hvector) fun s₁ _ y hy ↦
          copiesTo_basic (createElem_builds _ _) fuel (hys y hy) s₁).mono ?_
        rintro b s' ⟨hw, hb⟩
        refine ⟨hw.mono fun c hc ↦ hc ▸ hvector, fun hb' ↦ ?_⟩
        obtain ⟨rfl, -, hdenotes⟩ := hb hb'
        refine hdenotes.mono fun c hc ↦ ?_
        rcases hc with rfl | rfl | hnew
        · exact .inl (.inl rfl)
        · exact .inl hvector
        · exact .inr hnew
      | _ =>
        obtain ⟨a, v, tb, rs, rfl, ⟨-, ha⟩, -⟩ := hr
        refine Lib.meets_bind.2 ((runs_nodeAt hl).meets (Lib.meets_bind.2 ?_))
        exact (runs_nodeAt ha).meets ⟨.refl _ s, fun h ↦ absurd h Bool.false_ne_true⟩
    | int i => exact absurd trivial hbasic
    | double d => exact absurd trivial hbasic
    | string x => exact absurd trivial hbasic
    | _ => exact hy.elim

/-! ### Structs -/

/-- What is needed of the fields of a struct: they are no structs, and do not share cells. -/
structure Fields (s : ParserState D) (adtMap : StrMap Ptr) : Prop where
  field : ∀ (k : Str) (p : Ptr), adtMap[k]? = some p → ∃ l n f, p = .node l ∧
    s.content (.node l) = some (.node n) ∧ n.HasField f
  disjoint : ∀ (k k' : Str) l l' n n' c, adtMap[k]? = some (.node l) →
    adtMap[k']? = some (.node l') → s.content (.node l) = some (.node n) →
      s.content (.node l') = some (.node n') → cells l n c → cells l' n' c → k = k'

/-- The cells of a field. -/
def fieldCells (s : ParserState D) (adtMap : StrMap Ptr) (k : Str) (c : Cell) : Prop :=
  ∃ l n, adtMap[k]? = some (.node l) ∧ s.content (.node l) = some (.node n) ∧ cells l n c

omit [CDouble D] in
theorem fieldCells_live {adtMap : StrMap Ptr} {k : Str} {c : Cell} (h : s.WF nlits typed)
    (hc : fieldCells s adtMap k c) : ¬ s.New c := by
  obtain ⟨l, n, -, hn, hc⟩ := hc
  exact not_new_of_cells h hn hc

omit [CDouble D] in
/-- A struct that has not been received has such fields. -/
theorem ownStruct_disjoint {c m : Addr} {name : Str} {adtMap : StrMap Ptr} {tbl : VarTable D}
    (h : s.WF nlits typed) (ht : s.tables c.table = some tbl)
    (hc : s.content (.node c) = some (.node (.varAdt name m false)))
    (hm : s.content (.aux .map m) = some (.map adtMap)) (hwhole : tbl.Whole s.defs c.index) :
    Fields s adtMap := by
  obtain ⟨d, -, -, hfields⟩ := ownStruct_fields h ht hc hm hwhole
  have hwf := h.table _ tbl ht
  refine ⟨fun k p hp ↦ ?_, fun k k' l l' n n' a hk hk' hn hn' ha ha' ↦ ?_⟩
  · obtain ⟨l, n, f, rfl, -, hn, hfield, -⟩ := hfields k p hp
    exact ⟨l, n, f, rfl, hn, hfield⟩
  · obtain ⟨_, _, f, ⟨⟩, hlt, hn₁, hf, hslot⟩ := hfields k _ hk
    obtain ⟨_, _, f', ⟨⟩, hlt', hn₁', hf', hslot'⟩ := hfields k' _ hk'
    -- nodes that share a cell are one node, and a node is in one slot only
    obtain rfl := cells_unique h hn hn' ha ha'
    obtain ⟨-, rfl⟩ := Slot.field.inj (hwf.slot_inj _ _ l hslot hslot')
    rfl

/-- The fields of a struct are assigned one by one. Before, `P` holds of each, and afterwards
`Q`, and they only depend on the cells of the field. -/
theorem assignFields_meets (this : TableId) (fuel : ℕ) {s₁ : ParserState D}
    {adtMap inMap : StrMap Ptr} {P Q : Str → ParserState D → Prop}
    (hstep : ∀ (k : Str) p q s, adtMap[k]? = some p → inMap[k]? = some q →
      Leads nlits typed s₁ s → (∀ c, s.New c → s₁.New c) → P k s →
        Ensures (updateFuel this fuel p q) s fun b s' ↦
          WritesOnly (fieldCells s₁ adtMap k) s s' ∧ (b = true → P k s' ∧ Q k s'))
    (hframe : ∀ k k' s s', k ≠ k' → WritesOnly (fieldCells s₁ adtMap k') s s' →
      (P k s → P k s') ∧ (Q k s → Q k s'))
    (fs : List Field) (done : List Str) (s : ParserState D) (h : Leads nlits typed s₁ s)
    (hs : WritesOnly (fun c ↦ ∃ k, fieldCells s₁ adtMap k c) s₁ s) (hsource : ∀ k, P k s)
    (hdone : ∀ k ∈ done, Q k s) :
    Ensures (assignFields (updateFuel this fuel) adtMap inMap fs) s fun b s' ↦
      WritesOnly (fun c ↦ ∃ k, fieldCells s₁ adtMap k c) s₁ s' ∧ (b = true →
        ∀ k ∈ done ++ fs.map Field.vName, Q k s') := by
  induction fs generalizing s done with
  | nil => exact ⟨hs, fun _ ↦ by simpa using hdone⟩
  | cons f fs ih =>
    rw [assignFields]
    split
    swap
    · exact ⟨hs, fun h ↦ absurd h Bool.false_ne_true⟩
    next p q hp hq =>
    refine Lib.meets_bind.2 (((hstep _ p q s hp hq h hs.live (hsource _)).and
      (updateFuel_assigns this fuel p q s h.wf)).mono ?_)
    rintro b s₂ ⟨⟨hw, hb⟩, h₂⟩
    have hs₂ : WritesOnly (fun c ↦ ∃ k, fieldCells s₁ adtMap k c) s₁ s₂ :=
      hs.trans (hw.mono fun c hc ↦ ⟨_, hc⟩)
    refine Lib.meets_ite.2 ⟨fun hb' ↦ ?_, fun _ ↦ ⟨hs₂, fun h ↦ absurd h Bool.false_ne_true⟩⟩
    refine (ih (done ++ [f.vName]) s₂ (h.trans h₂) hs₂ (fun k ↦ ?_) fun k hk ↦ ?_).mono ?_
    -- the sources of the other fields are as they were
    · by_cases hkf : k = f.vName
      · exact hkf ▸ (hb hb').1
      · exact (hframe k _ s s₂ hkf hw).1 (hsource k)
    · by_cases hkf : k = f.vName
      · exact hkf ▸ (hb hb').2
      · have hk := (List.mem_append.1 hk).resolve_right (by simpa using hkf)
        exact (hframe k _ s s₂ hkf hw).2 (hdone k hk)
    · rintro b' s' ⟨h', hall⟩
      refine ⟨h', fun hb'' ↦ ?_⟩
      simpa using hall hb''

/-- A struct is assigned to another one. `zs` is what its fields hold afterwards, if each field is
assigned as `hstep` says. -/
theorem updateFuel_fields (this : TableId) (fuel : ℕ) (zs : List (Str × Value D))
    {c m a m' : Addr} {name name' : Str} {u' : Bool} {adtMap inMap : StrMap Ptr} {tbl : VarTable D}
    {P : Str → ParserState D → Prop} (h : s.WF nlits typed)
    (ht : s.tables c.table = some tbl)
    (hc : s.content (.node c) = some (.node (.varAdt name m false)))
    (hm : s.content (.aux .map m) = some (.map adtMap)) (hwhole : tbl.Whole s.defs c.index)
    (ha : s.content (.node a) = some (.node (.varAdt name' m' u')))
    (hm' : s.content (.aux .map m') = some (.map inMap)) (hkeys : zs.map Prod.fst = adtMap.keys)
    (hstep : ∀ (k : Str) p q s₁ z, adtMap[k]? = some p → inMap[k]? = some q → (k, z) ∈ zs →
      Leads nlits typed s s₁ → (∀ c, s₁.New c → s.New c) → P k s₁ →
        Ensures (updateFuel this fuel p q) s₁ fun b s₂ ↦
          WritesOnly (fieldCells s adtMap k) s₁ s₂ ∧ (b = true → P k s₂ ∧
            Denotes (fun t ↦ fieldCells s adtMap k t ∨ s.New t) s₂ z p))
    (hframe : ∀ k k' s₁ s₂, k ≠ k' → WritesOnly (fieldCells s adtMap k') s₁ s₂ → P k s₁ →
      P k s₂)
    (hsource : ∀ k, P k s) :
    Ensures (updateFuel this (fuel + 1) (.node c) (.node a)) s fun b s' ↦
      WritesOnly (fun t ↦ ∃ k, fieldCells s adtMap k t) s s' ∧ (b = true → name = name' ∧
        Denotes (fun t ↦ t = .node c ∨ t = .aux .map m ∨ (∃ k, fieldCells s adtMap k t) ∨ s.New t) s'
          (.adt name zs) (.node c)) := by
  have hfalse : Ensures (pure false) s fun b s' ↦
      WritesOnly (fun t ↦ ∃ k, fieldCells s adtMap k t) s s' ∧ (b = true → name = name' ∧
        Denotes (fun t ↦ t = .node c ∨ t = .aux .map m ∨ (∃ k, fieldCells s adtMap k t) ∨ s.New t) s'
          (.adt name zs) (.node c)) :=
    ⟨.refl _ s, fun h ↦ absurd h Bool.false_ne_true⟩
  have hfields := ownStruct_disjoint h ht hc hm hwhole
  obtain ⟨d, hd, hdkeys, hown⟩ := ownStruct_fields h ht hc hm hwhole
  have hnodup : (zs.map Prod.fst).Nodup := hkeys ▸ Std.ExtTreeMap.nodup_keys
  refine Lib.meets_bind.2 ((runs_nodeAt hc).meets (Lib.meets_bind.2 ((runs_nodeAt ha).meets ?_)))
  refine Lib.meets_ite.2 ⟨fun _ ↦ hfalse, fun heq ↦ ?_⟩
  refine lookup_adtParam h hd hfalse ?_
  refine Lib.meets_bind.2 ((runs_getMap hm).meets (Lib.meets_bind.2 ((runs_getMap hm').meets ?_)))
  refine (assignFields_meets this fuel (P := P) (Q := fun k s' ↦ ∀ p z,
    adtMap[k]? = some p → (k, z) ∈ zs → Denotes (fun t ↦ fieldCells s adtMap k t ∨ s.New t) s' z p)
    ?_ ?_ d.adtParam [] s (.refl h) (.refl _ s) hsource fun _ hk ↦ absurd hk List.not_mem_nil).mono ?_
  · intro k p q s₁ hp hq hleads hlive hs
    obtain ⟨⟨k, z⟩, hz, rfl⟩ : ∃ e ∈ zs, e.1 = k := by
      refine List.mem_map.1 (hkeys ▸ Std.ExtTreeMap.mem_keys.2 ?_)
      rw [← Std.ExtTreeMap.isSome_getElem?_iff_mem, hp]
      rfl
    refine (hstep k p q s₁ z hp hq hz hleads hlive hs).mono fun b s₂ ⟨hw, hb⟩ ↦ ⟨hw, fun hb' ↦ ?_⟩
    refine ⟨(hb hb').1, fun p' z' hp' hz' ↦ ?_⟩
    obtain rfl := Option.some.inj (hp.symm.trans hp')
    obtain rfl : z' = z := congrArg Prod.snd (Value.eq_of_key_eq hnodup hz' hz rfl)
    exact (hb hb').2
  · intro k k' s₁ s₂ hne hw
    refine ⟨hframe k k' s₁ s₂ hne hw, fun hresult p z hp hz ↦ ?_⟩
    refine (hresult p z hp hz).of_writesOnly hw fun t ht ht' ↦ ?_
    rcases ht with ⟨l, n, hk, hn, hcell⟩ | hnew
    · obtain ⟨l', n', hk', hn', hcell'⟩ := ht'
      exact hne (hfields.disjoint k k' l l' n n' t hk hk' hn hn' hcell hcell')
    · exact fieldCells_live h ht' hnew
  rintro b s' ⟨hw, hb⟩
  refine ⟨hw, fun hb' ↦ ⟨not_not.1 heq, ?_⟩⟩
  -- neither the struct nor its map is among the cells of the fields
  have hnode : ¬ ∃ k, fieldCells s adtMap k (.node c) := by
    rintro ⟨k, l, n, hk, hn, hcell | ⟨j, b, -, hcell⟩⟩
    · obtain rfl := Cell.node.inj hcell
      obtain ⟨_, n, f, ⟨⟩, -, hn', hfield, -⟩ := hown k _ hk
      cases hc.symm.trans hn'
      exact ne_map_of_hasField hfield rfl rfl
    · cases hcell
  have hmcell : ¬ ∃ k, fieldCells s adtMap k (.aux .map m) := by
    rintro ⟨k, l, n, hk, hn, hcell | ⟨j, b, hj, hcell⟩⟩
    · cases hcell
    · obtain ⟨_, n', f, ⟨⟩, -, hn', hfield, -⟩ := hown k _ hk
      cases hn.symm.trans hn'
      cases hcell
      exact ne_map_of_hasField hfield hj rfl
  refine ⟨c, m, false, adtMap, rfl, ⟨.inl rfl, hw.keep _ _ hnode hc⟩,
    ⟨.inr (.inl rfl), hw.keep _ _ hmcell hm⟩, denotesMap_of_keys hkeys fun k z p hz hp ↦ ?_⟩
  have hmem : k ∈ d.adtParam.map Field.vName := by
    obtain ⟨f, hf, hname⟩ := mem_fieldTypes.1 ((hdkeys k).1 (by
      rw [← Std.ExtTreeMap.isSome_getElem?_iff_mem, hp]
      rfl))
    exact List.mem_map.2 ⟨f, hf, hname⟩
  refine (hb hb' k hmem p z hp hz).mono fun t ht ↦ ?_
  exact .inr (.inr (ht.imp (fun ht ↦ ⟨_, ht⟩) id))

/-- A value that `adtCreateAndCopy` can copy: a basic value, or a struct with the fields of its
definition. -/
def Copyable (defs : Str → Option AdtDef) : Value D → Prop
  | .adt name xs => (∀ f ∈ xs, f.2.Flat) ∧ ∃ d, defs name = some d ∧
    ∀ k : Str, k ∈ xs.map Prod.fst ↔ k ∈ fieldTypes d.adtParam
  | x => x.Basic

omit [CDouble D] in
theorem Copyable.mono {y : Value D} {defs' : Str → Option AdtDef} (h : Copyable s.defs y)
    (hdefs : ∀ name d, s.defs name = some d → defs' name = some d) : Copyable defs' y := by
  cases y with
  | adt name xs =>
    obtain ⟨hflat, d, hd, hkeys⟩ := h
    exact ⟨hflat, d, hdefs name d hd, hkeys⟩
  | _ => exact h

/-- A flat value is assigned to a field, which may hold another number by now. -/
theorem updateFuel_field (this : TableId) (fuel : ℕ) {adtMap : StrMap Ptr} {k : Str} {p q : Ptr}
    {s₁ : ParserState D} {y : Value D} (hfields : Fields s adtMap)
    (hU : ∀ k t, fieldCells s adtMap k t → ¬ U t) (hp : adtMap[k]? = some p)
    (hleads : Leads nlits typed s s₁) (hlive : ∀ c, s₁.New c → s.New c)
    (hq : Denotes U s₁ y q) (hy : y.Flat) :
    Ensures (updateFuel this fuel p q) s₁ fun b s₂ ↦ WritesOnly (fieldCells s adtMap k) s₁ s₂ ∧
      (b = true → Denotes (fun t ↦ fieldCells s adtMap k t ∨ s.New t) s₂ y p) := by
  obtain ⟨l, n, f, rfl, hn, hfield⟩ := hfields.field k p hp
  obtain ⟨n', hn', hkind⟩ := (nodeAt_iff.2 hn).evolves hleads.evolves
  have hcells : ∀ t, cells l n' t → fieldCells s adtMap k t := by
    intro t ht
    rw [cells_congr hkind] at ht
    exact ⟨l, n, hp, hn, ht⟩
  refine (updateFuel_flat this fuel hleads.wf (nodeAt_iff.1 hn') ?_ hq
    (fun t ht ↦ hU k t (hcells t ht)) hy).mono fun b s₂ ⟨hw, hb⟩ ↦ ⟨hw.mono hcells, fun hb' ↦ ?_⟩
  · rintro aType name v tb rfl
    cases hkind.array_eq.1 rfl
    exact hfield.2.2.1
  · exact (hb hb').mono fun t ht ↦ ht.imp (hcells t) (hlive t)

/-- **A struct is assigned to another one**, none of whose fields it is read from. -/
theorem updateFuel_struct (this : TableId) (fuel : ℕ) {c m : Addr} {name name' : Str}
    {adtMap : StrMap Ptr} {xs : List (Str × Value D)} {r : Ptr} {tbl : VarTable D}
    (h : s.WF nlits typed) (ht : s.tables c.table = some tbl)
    (hc : s.content (.node c) = some (.node (.varAdt name m false)))
    (hm : s.content (.aux .map m) = some (.map adtMap)) (hwhole : tbl.Whole s.defs c.index)
    (hr : Denotes U s (.adt name' xs) r) (hx : Copyable s.defs (.adt name' xs))
    (hU : ∀ k t, fieldCells s adtMap k t → ¬ U t) :
    Ensures (updateFuel this fuel (.node c) r) s fun b s' ↦
      WritesOnly (fun t ↦ ∃ k, fieldCells s adtMap k t) s s' ∧ (b = true →
        Denotes (fun t ↦ t = .node c ∨ t = .aux .map m ∨ (∃ k, fieldCells s adtMap k t) ∨ s.New t) s'
          (.adt name' xs) (.node c)) := by
  cases fuel with
  | zero => exact trivial
  | succ fuel =>
    obtain ⟨a, m', u, inMap, rfl, ⟨-, ha⟩, ⟨-, hm'⟩, hxs⟩ := hr
    have hxs := denotesMap_iff.1 hxs
    obtain ⟨hflat, d', hd', hkeys⟩ := hx
    have hfields := ownStruct_disjoint h ht hc hm hwhole
    by_cases hname : name = name'
    swap
    · refine Lib.meets_bind.2 ((runs_nodeAt hc).meets (Lib.meets_bind.2 ((runs_nodeAt ha).meets ?_)))
      refine Lib.meets_ite.2 ⟨fun _ ↦ ?_, fun heq ↦ absurd (not_not.1 heq) hname⟩
      exact ⟨.refl _ s, fun h ↦ absurd h Bool.false_ne_true⟩
    subst hname
    -- both structs have the fields of the definition, and so the same ones
    have hadtKeys : xs.map Prod.fst = adtMap.keys := by
      obtain ⟨d, hd, hdkeys, -⟩ := ownStruct_fields h ht hc hm hwhole
      obtain rfl := Option.some.inj (hd.symm.trans hd')
      rw [map_fst_eq_keys hxs]
      refine keys_eq_of_mem_iff fun k ↦ ?_
      rw [hdkeys, ← hkeys, map_fst_eq_keys hxs, Std.ExtTreeMap.mem_keys]
    have hnodup : (xs.map Prod.fst).Nodup := hadtKeys ▸ Std.ExtTreeMap.nodup_keys
    refine (updateFuel_fields this fuel xs (P := fun k s' ↦ ∀ q y, inMap[k]? = some q →
      (k, y) ∈ xs → Denotes U s' y q) h ht hc hm hwhole ha hm' hadtKeys ?_ ?_ ?_).mono
        fun b s' ⟨hw, hb⟩ ↦ ⟨hw, fun hb' ↦ (hb hb').2⟩
    -- one field, whose cells are none of the source
    · intro k p q s₁ y hp hq hy hleads hlive hsource
      refine (updateFuel_field this fuel hfields hU hp hleads hlive (hsource q y hq hy)
        (hflat _ hy)).mono fun b s₂ ⟨hw, hb⟩ ↦ ⟨hw, fun hb' ↦ ⟨fun q' y' hq' hy' ↦ ?_, hb hb'⟩⟩
      exact (hsource q' y' hq' hy').of_writesOnly hw fun t ht ht' ↦ hU k t ht' ht
    · intro k k' s₁ s₂ hne hw hsource q y hq hy
      exact (hsource q y hq hy).of_writesOnly hw fun t ht ht' ↦ hU k' t ht' ht
    · intro k q y hq hy
      obtain ⟨⟨k', y'⟩, hy', hk', hyq⟩ := exists_left_of_forall₂ hxs
        (Std.ExtTreeMap.mem_toList_iff_getElem?_eq_some.2 hq)
      obtain rfl : k' = k := hk'
      obtain rfl : y = y' := congrArg Prod.snd (Value.eq_of_key_eq hnodup hy hy' rfl)
      exact hyq

/-- A new struct has a definition. -/
theorem createAdt_defined {name : Str} (h : s.WF nlits typed) :
    Ensures (createAdt (D := D) t name) s fun r _ ↦ ∀ a ∈ r, ∃ d, s.defs name = some d := by
  refine Lib.meets_bind.2 (lookup_ensures (fun p t' tbl ht hp _ ↦ ?_) fun a ha ↦ by cases ha)
  cases p with
  | adt d =>
    exact Lib.meets_iff.2 ⟨fun _ _ _ _ _ ↦ ⟨d, (h.adtTypeName ht hp).1⟩, fun _ _ ↦ trivial⟩
  | _ => exact fun a ha ↦ by cases ha

/-- A struct that is new since `s₀`: it has the fields of its definition, and these are new too. -/
structure NewStruct (s₀ s : ParserState D) (a : Addr) (name : Str) (m : Addr) (adtMap : StrMap Ptr)
    (tbl : VarTable D) : Prop where
  built : Built s₀ s a (.varAdt name m false)
  map : s.content (.aux .map m) = some (.map adtMap)
  table : s.tables a.table = some tbl
  whole : tbl.Whole s.defs a.index
  fields : ∀ k c, fieldCells s adtMap k c → s₀.New c
  defined : ∃ d, s₀.defs name = some d ∧ s.defs name = some d

/-- **A new struct**, in the table. -/
theorem createAdt_struct {name : Str} (h : s.WF nlits typed) :
    Ensures (createAdt (D := D) t name) s fun r s' ↦ WritesOnly (fun _ ↦ False) s s' ∧
      Leads nlits typed s s' ∧ ∀ a ∈ r, ∃ m adtMap tbl, NewStruct s s' a name m adtMap tbl := by
  refine ((createAdt_built name).and ((createAdt_creates name s h).and (createAdt_defined h))).mono ?_
  rintro o s₁ ⟨⟨h₁, ho⟩, ⟨hleads, ho'⟩, hdefined⟩
  refine ⟨h₁, hleads, fun c hco ↦ ?_⟩
  obtain ⟨d, hd⟩ := hdefined c hco
  obtain ⟨name', m, hc, adtMap, hm, hbuilt⟩ := ho c hco
  obtain ⟨tbl, n, ht, hn, -, ⟨m', rfl⟩, -, hwhole⟩ := (ho' c hco).node
  obtain rfl := (ho' c hco).table
  cases hc.node.symm.trans (nodeAt_iff.1 ⟨tbl, ht, hn⟩)
  refine ⟨m, adtMap, tbl, hc, hm, ht, hwhole, ?_, d, hd, hleads.evolves.defs hd⟩
  rintro k t ⟨l, n, hk, hn, hl⟩
  obtain ⟨_, n', ⟨⟩, hb⟩ := hbuilt k _ hk
  cases hn.symm.trans hb.node
  exact hb.new t hl

/-- A struct can be copied to a new one. -/
theorem copiesTo_struct (fuel : ℕ) {name : Str} {xs : List (Str × Value D)} (h : s.WF nlits typed)
    (hx : Copyable s.defs (.adt name xs)) (t : TableId) (name' : Str) :
    CopiesTo fuel (createAdt t name') s (.adt name xs) := by
  intro r hr
  refine (createAdt_struct h).mono fun o s₁ ⟨h₁, hleads, ho⟩ ↦ ⟨h₁, fun c hco this ↦ ?_⟩
  obtain ⟨m, adtMap, tbl, hc⟩ := ho c hco
  refine (updateFuel_struct this fuel hleads.wf hc.table hc.built.node hc.map hc.whole (hr.stays h₁)
    (hx.mono fun _ _ ↦ hleads.evolves.defs) fun k t ht hU ↦ hU.2 (hc.fields k t ht)).mono ?_
  rintro b s₂ ⟨h₂, hb⟩
  refine ⟨WritesOnly.drop_new ((h₁.mono fun _ ↦ False.elim).trans h₂) fun t ⟨k, hl⟩ ↦
    .inr (hc.fields k t hl), fun hb' ↦ (hb hb').mono fun t ht ↦ ?_⟩
  rcases ht with rfl | rfl | ⟨k, ht⟩ | ht
  · exact hc.built.new _ (.inl rfl)
  · exact hc.built.new _ (.inr ⟨.map, m, rfl, rfl⟩)
  · exact hc.fields k t ht
  · exact h₁.live t ht

/-- The elements that a field can have are basic. -/
theorem flat_of_elems {b : BasicType} {ys : List (Value D)}
    (h : (Value.array b.astType.toWord none ys).Comparable) :
    (Value.array b.astType.toWord none ys).Flat := by
  obtain ⟨-, htypes, -⟩ := Value.comparable_array.1 h
  refine ⟨rfl, fun z hz ↦ ?_⟩
  have htype := htypes z hz
  cases z with
  | array => cases b <;> cases htype
  | adt name fs => cases htype.2
  | empty => exact htype
  | sep xs => exact htype
  | other ty => exact htype
  | _ => exact trivial

/-- What a field holds is flat. -/
theorem flat_of_hasField {f : Field} {l : Addr} {n : Node D} {y : Value D}
    (hl : s.content (.node l) = some (.node n)) (hn : n.HasField f)
    (hy : Denotes (fun _ ↦ True) s y (.node l)) (hcmp : y.Comparable) : y.Flat := by
  cases y with
  | int i => exact trivial
  | double d => exact trivial
  | string x => exact trivial
  | array aType name ys =>
    obtain ⟨_, v, tb, ps, ⟨⟩, ⟨-, ha⟩, -⟩ := hy
    cases hl.symm.trans ha
    obtain ⟨-, rfl, rfl, -⟩ := hn
    exact flat_of_elems hcmp
  | adt name fs =>
    obtain ⟨_, m, u, adtMap, ⟨⟩, ⟨-, ha⟩, -⟩ := hy
    cases hl.symm.trans ha
    exact absurd rfl (ne_map_of_hasField hn rfl)
  | empty => exact hy.elim
  | sep xs => exact hy.elim
  | other ty => exact hy.elim

/-- What has not been received and is no array can be copied. -/
theorem copyable_of_own {nlits : ℕ} {typed : Prop} {a : Addr} {n : Node D} {x : Value D}
    {tbl : VarTable D} (h : s.WF nlits typed) (ht : s.tables a.table = some tbl)
    (ha : s.content (.node a) = some (.node n)) (hown : n.Own) (hwhole : tbl.Whole s.defs a.index)
    (hx : Denotes (fun _ ↦ True) s x (.node a)) (hcmp : x.Comparable)
    (hne : x.type ≠ .arrayType) : Copyable s.defs x := by
  cases x with
  | int i => exact trivial
  | double d => exact trivial
  | string x => exact trivial
  | array => exact absurd rfl hne
  | adt name xs =>
    obtain ⟨_, m, u, adtMap, ⟨⟩, ⟨-, ha'⟩, ⟨-, hm⟩, hxs⟩ := hx
    cases ha.symm.trans ha'
    obtain rfl : u = false := hown
    obtain ⟨d, hd, hkeys, hfields⟩ := ownStruct_fields h ht ha hm hwhole
    obtain ⟨-, hcmp⟩ := Value.comparable_adt.1 hcmp
    have hxs := denotesMap_iff.1 hxs
    refine ⟨fun f hf ↦ ?_, d, hd, fun k ↦ ?_⟩
    · obtain ⟨⟨k, p⟩, hp, heq, hy⟩ := exists_right_of_forall₂ hxs hf
      obtain ⟨l, n, g, rfl, -, hl, hfield, -⟩ := hfields k p
        (Std.ExtTreeMap.mem_toList_iff_getElem?_eq_some.1 hp)
      exact flat_of_hasField hl hfield hy (hcmp f hf)
    · rw [map_fst_eq_keys hxs, Std.ExtTreeMap.mem_keys, hkeys]
  | empty => exact hx.elim
  | sep xs => exact hx.elim
  | other ty => exact hx.elim

/-! ### `ADTCreateAndCopy` -/

/-- What a new node can hold is copied. -/
theorem copyInto_copies {create : Interp D (Option Addr)} {x : Value D} {p : Ptr}
    (hp : Denotes (fun _ ↦ True) s x p) (hx : CopiesTo Value.MAX_AST_PER_STACK create s x) :
    Ensures (do copyInto (← create) p) s fun r s' ↦ WritesOnly (fun _ ↦ False) s s' ∧
      ∀ a, r = .node a → Denotes s.New s' x r := by
  refine Lib.meets_bind.2 ((hx p hp).mono fun o s₁ ⟨h₁, ho⟩ ↦ ?_)
  cases o with
  | none => exact ⟨h₁, fun a ha ↦ by cases ha⟩
  | some c =>
    refine getVarTable_readOnly.then fun this ↦ Lib.meets_bind.2 ?_
    refine (ho c rfl this).mono fun b s₂ ⟨h₂, hb⟩ ↦ ?_
    exact Lib.meets_ite.2 ⟨fun hb' ↦ ⟨h₂, fun _ _ ↦ hb hb'⟩, fun _ ↦ ⟨h₂, fun a ha ↦ by cases ha⟩⟩

/-- **A copy** denotes the same value, through new cells, and nothing else is written to. -/
theorem adtCreateAndCopy_copies {x : Value D} {p : Ptr} (h : s.WF nlits typed)
    (hp : Denotes (fun _ ↦ True) s x p) (hx : Copyable s.defs x) :
    Ensures (adtCreateAndCopy p) s fun r s' ↦ WritesOnly (fun _ ↦ False) s s' ∧
      ∀ a, r = .node a → Denotes s.New s' x r := by
  refine getVarTable_readOnly.then fun t ↦ Lib.meets_bind.2 ?_
  have hbasic : ∀ b : BasicType, x.Basic →
      CopiesTo Value.MAX_AST_PER_STACK (createBasicType t b) s x :=
    fun b hx ↦ copiesTo_basic (createBasicType_builds b) _ hx s
  cases x with
  | int i =>
    obtain ⟨a, rfl, ha⟩ := id hp
    exact (runs_nodeAt ha.2).meets (copyInto_copies hp (hbasic .int trivial))
  | double d =>
    obtain ⟨a, rfl, ha⟩ := id hp
    exact (runs_nodeAt ha.2).meets (copyInto_copies hp (hbasic .double trivial))
  | string y =>
    obtain ⟨a, c, rfl, ha, -⟩ := id hp
    exact (runs_nodeAt ha.2).meets (copyInto_copies hp (hbasic .string trivial))
  | adt name xs =>
    obtain ⟨a, m, u, adtMap, rfl, ha, -⟩ := id hp
    exact (runs_nodeAt ha.2).meets (copyInto_copies hp (copiesTo_struct _ h hx t name))
  | _ => exact hx.elim

end Interp

end Meridian.MQL

import Meridian.MQL.UpdateInvariant
import Meridian.MQL.Reading

/-!
# Assignments and variables keep the invariant

`updateADT`, the functions for variables and the sets of values, on top of the creators. `Usable` says
what a pointer is that an expression can return, and `Yields` is the form that the rules for such
functions have.
-/

namespace Meridian.MQL

variable {D : Type} {nlits : ℕ} {typed : Prop}

namespace Interp

open ParserState

variable {s s' : ParserState D} {t : TableId}

/-! ### `updateADT` -/

section Assign

variable {assign : Ptr → Ptr → Interp D Bool} (hassign : Assigns nlits typed assign)

include hassign

theorem initFields_ensures (adtMap : StrMap Ptr) (fs : List Field) (rs : List Ptr)
    (s : ParserState D) (h : s.WF nlits typed) :
    Ensures (initFields assign adtMap fs rs) s fun _ s' ↦ Leads nlits typed s s' := by
  induction fs generalizing rs s with
  | nil => exact .refl h
  | cons f fs ih =>
    cases rs with
    | nil => exact .refl h
    | cons r rs =>
      rw [initFields]
      split
      · refine Lib.meets_bind.2 ((hassign _ _ s h).mono fun b s₁ h₁ ↦ Lib.meets_ite.2 ⟨?_, ?_⟩)
        · exact fun _ ↦ (ih rs s₁ h₁.wf).mono fun _ _ h₂ ↦ h₁.trans h₂
        · exact fun _ ↦ h₁
      · exact .refl h

theorem assignFields_ensures (adtMap inMap : StrMap Ptr) (fs : List Field) (s : ParserState D)
    (h : s.WF nlits typed) :
    Ensures (assignFields assign adtMap inMap fs) s fun _ s' ↦ Leads nlits typed s s' := by
  induction fs generalizing s with
  | nil => exact .refl h
  | cons f fs ih =>
    rw [assignFields]
    split
    · refine Lib.meets_bind.2 ((hassign _ _ s h).mono fun b s₁ h₁ ↦ Lib.meets_ite.2 ⟨?_, ?_⟩)
      · exact fun _ ↦ (ih s₁ h₁.wf).mono fun _ _ h₂ ↦ h₁.trans h₂
      · exact fun _ ↦ h₁
    · exact .refl h

/-- The elements are created in the table of the array, one by one, and are in no slot until they
are pushed. -/
theorem assignElems_ensures {create : Interp D (Option Addr)} {l c : Addr} {aType : UInt32}
    {name : Option Str} (hcreate : Creates nlits typed create l.table (Node.HasElemType aType name))
    (rs : List Ptr) (s : ParserState D) (h : s.WF nlits typed)
    (hl : NodeAt s l (.array aType name c (some l.table))) :
    Ensures (assignElems assign create c rs) s fun _ s' ↦ Leads nlits typed s s' := by
  induction rs generalizing s with
  | nil => exact .refl h
  | cons r rs ih =>
    refine Lib.meets_bind.2 ((hcreate s h).mono fun o s₁ ⟨h₁, ho⟩ ↦ ?_)
    cases o with
    | none => exact h₁
    | some a =>
      have ha := ho a rfl
      refine Lib.meets_bind.2 ((hassign _ _ s₁ h₁.wf).mono fun b s₂ h₂ ↦ ?_)
      have h₁₂ := h₁.trans h₂
      have ha₂ := ha.evolves (stable_hasElemType _ _) h₂.evolves ha.lt_sizes
      refine Lib.meets_ite.2 ⟨fun _ ↦ ?_, fun _ ↦ h₁₂⟩
      refine Lib.meets_bind.2 ((pushBack_fresh (fun _ _ h ↦ h) hl h₁₂ ha₂).mono fun _ s₃ h₃ ↦ ?_)
      refine (ih s₃ h₃.wf (hl.evolves_of_aux h₃.evolves (by simp [Node.aux]))).mono ?_
      exact fun _ s₄ h₄ ↦ h₃.trans h₄

end Assign

variable [CDouble D]

/-- The elements of an array, whose old ones have been removed. -/
theorem refill_ensures {assign : Ptr → Ptr → Interp D Bool} (hassign : Assigns nlits typed assign)
    {l v : Addr} {aType : UInt32} {aAdtName : Option Str} {tb : Option TableId} (h : s.WF nlits typed)
    (hl : NodeAt s l (.array aType aAdtName v tb)) (rs : Addr) :
    Ensures (do
      setVector v []
      assignElems assign (createIn tb aType aAdtName) v (← getVector rs)) s
      fun _ s' ↦ Leads nlits typed s s' := by
  refine Lib.meets_bind.2 ((setVector_ensures h hl fun v' _ _ _ ↦ List.nil_prefix).mono
    fun _ s₁ h₁ ↦ (getVector_readOnly rs).then fun rs ↦ ?_)
  cases tb with
  | none =>
    cases rs with
    | nil => exact h₁
    | cons r rs => exact trivial
  | some t =>
    obtain rfl : t = l.table := by
      obtain ⟨tbl, ht, hn⟩ := hl
      exact (h.table _ tbl ht).varTable _ _ _ _ _ hn
    have hl₁ := hl.evolves_of_aux h₁.evolves (by simp [Node.aux])
    exact (assignElems_ensures hassign (createElem_creates aType aAdtName) rs s₁ h₁.wf hl₁).mono
      fun _ s₂ h₂ ↦ h₁.trans h₂

theorem updateNode_ensures {assign : Ptr → Ptr → Interp D Bool}
    (hassign : Assigns nlits typed assign) (this : TableId) {l : Addr} {ln : Node D} (rn : Node D)
    (h : s.WF nlits typed) (hl : NodeAt s l ln) :
    Ensures (updateNode this assign l ln rn) s fun _ s' ↦ Leads nlits typed s s' := by
  unfold updateNode
  split
  · refine (lookup_readOnly this _).then fun r ↦ ?_
    split
    · exact .refl h
    · refine (adtParam_readOnly _).then fun fields ↦ (getVector_readOnly _).then fun params ↦ ?_
      refine Lib.meets_ite.2 ⟨fun _ ↦ .refl h, fun _ ↦ (getMap_readOnly _).then fun adtMap ↦ ?_⟩
      exact initFields_ensures hassign adtMap fields params s h
  · exact refill_ensures hassign h hl _
  · next i j =>
    exact Lib.meets_bind.2 ((setNode_ensures h hl (.int i j)).mono fun _ s₁ h₁ ↦ h₁)
  · next d e =>
    exact Lib.meets_bind.2 ((setNode_ensures h hl (.double d e)).mono fun _ s₁ h₁ ↦ h₁)
  · refine (getString_readOnly _).then fun x ↦ ?_
    exact Lib.meets_bind.2 ((setString_ensures h x).mono fun _ s₁ h₁ ↦ h₁)
  · refine Lib.meets_ite.2 ⟨fun _ ↦ .refl h, fun _ ↦ (sameAdtName_readOnly _ _ _).then fun b ↦ ?_⟩
    exact Lib.meets_ite.2 ⟨fun _ ↦ refill_ensures hassign h hl _, fun _ ↦ .refl h⟩
  · refine Lib.meets_ite.2 ⟨fun _ ↦ .refl h, fun _ ↦ (lookup_readOnly this _).then fun r ↦ ?_⟩
    split
    · exact .refl h
    · refine (adtParam_readOnly _).then fun fields ↦ (getMap_readOnly _).then fun adtMap ↦ ?_
      refine (getMap_readOnly _).then fun inMap ↦ ?_
      exact assignFields_ensures hassign adtMap inMap fields s h
  · exact .refl h

theorem updateFuel_assigns (this : TableId) (fuel : ℕ) :
    Assigns nlits typed (updateFuel (D := D) this fuel) := by
  induction fuel with
  | zero => exact fun _ _ _ _ ↦ trivial
  | succ fuel ih =>
    intro l r s h
    refine Lib.meets_bind.2 (nodeAt_ensures (fun a n _ hn ↦ ?_) fun _ _ ↦ ?_)
    · refine (nodeAt_readOnly r).then fun o ↦ ?_
      split
      · next a' ln b rn heq =>
        cases heq
        exact updateNode_ensures ih this rn h hn
      · exact .refl h
    · exact (nodeAt_readOnly r).then fun o ↦ .refl h

theorem updateADT_assigns (this : TableId) : Assigns nlits typed (updateADT (D := D) this) :=
  updateFuel_assigns this _

/-! ### Pointers that expressions return -/

/-- What an expression can return while the tables `ts` are on the stack. -/
def Usable (ts : List TableId) (s : ParserState D) : Ptr → Prop
  | .null => False
  | .node a => a.table ∈ ts ∧ ∃ n, NodeAt s a n ∧ n.Own
  | _ => True

omit [CDouble D] in
theorem NodeAt.unique {a : Addr} {n n' : Node D} (h : NodeAt s a n) (h' : NodeAt s a n') :
    n = n' := by
  obtain ⟨tbl, ht, hn⟩ := h
  obtain ⟨tbl', ht', hn'⟩ := h'
  obtain rfl := Option.some.inj (ht.symm.trans ht')
  exact Option.some.inj (hn.symm.trans hn')

omit [CDouble D] in
theorem Usable.evolves {k : TableId → ℕ} {ts : List TableId} {p : Ptr} (h : Usable ts s p)
    (he : Evolves k s s') : Usable ts s' p := by
  cases p with
  | node a =>
    obtain ⟨hmem, n, hn, hown⟩ := h
    obtain ⟨n', hn', hkind⟩ := hn.evolves he
    exact ⟨hmem, n', hn', hkind.own.2 hown⟩
  | _ => exact h

omit [CDouble D] in
theorem Usable.getD_empty {ts : List TableId} {o : Option Ptr}
    (h : ∀ p ∈ o, Usable ts s p) : Usable ts s (o.getD .empty) := by
  cases o with
  | none => exact trivial
  | some p => exact h p rfl

omit [CDouble D] in
/-- An array that an expression returns has not been received. -/
theorem Usable.own {ts : List TableId} {a v : Addr} {aType : UInt32} {name : Option Str}
    {tb : Option TableId} (h : Usable ts s (.node a)) (hn : NodeAt s a (.array aType name v tb)) :
    tb ≠ none := by
  obtain ⟨-, n, hn', hown⟩ := h
  obtain rfl := hn.unique hn'
  exact hown

omit [CDouble D] in
/-- A table that exists is on the stack. -/
theorem mem_varTable {tbl : VarTable D} (h : s.WF nlits typed) (ht : s.tables t = some tbl) :
    t ∈ s.varTable :=
  (h.live t).1 ⟨tbl, ht⟩

omit [CDouble D] in
theorem usable_of_fresh {k : TableId → ℕ} {K : Node D → Prop} {a : Addr} (h : Fresh nlits k K t s a)
    (hwf : s.WF nlits typed) : Usable s.varTable s (.node a) := by
  obtain ⟨tbl, n, ht, hn, hown, -⟩ := h.node
  obtain rfl := h.table
  exact ⟨mem_varTable hwf ht, n, ⟨tbl, ht, hn⟩, hown⟩

variable (nlits typed) in
/-- The computation creates and deletes no table, and its result is usable. -/
abbrev Yields (m : Interp D Ptr) (s : ParserState D) : Prop :=
  Ensures m s fun p s' ↦ Leads nlits typed s s' ∧ Usable s.varTable s' p

omit [CDouble D] in
theorem yields_empty (h : s.WF nlits typed) : Yields nlits typed (pure Ptr.empty) s :=
  Lib.meets_pure.2 ⟨.refl h, trivial⟩

omit [CDouble D] in
/-- What follows a computation starts where this has led. -/
theorem Yields.of_leads {m : Interp D Ptr} (h : Leads nlits typed s s')
    (hm : Yields nlits typed m s') :
    Ensures m s' fun p s'' ↦ Leads nlits typed s s'' ∧ Usable s.varTable s'' p := by
  refine hm.mono fun p s'' ⟨h', hp⟩ ↦ ⟨h.trans h', ?_⟩
  rwa [← h.evolves.varTable]

omit [CDouble D] in
/-- `orEmpty` of a new node. -/
theorem usable_orEmpty {k : TableId → ℕ} {K : Node D → Prop} {o : Option Addr}
    (h : Leads nlits typed s s') (ho : ∀ a ∈ o, Fresh nlits k K t s' a) :
    Usable s.varTable s' (orEmpty o) := by
  cases o with
  | none => exact trivial
  | some a =>
    rw [← h.evolves.varTable]
    exact usable_of_fresh (ho a rfl) h.wf

omit [CDouble D] in
/-- A name stands for something usable. -/
theorem lookup_usable (h : s.WF nlits typed) (x : Str) :
    Ensures (lookup t x) s fun r s' ↦ s' = s ∧ ∀ p ∈ r, Usable s.varTable s p := by
  refine lookup_ensures (fun p t' tbl ht hp _ ↦ ⟨rfl, ?_⟩) ⟨rfl, fun p hp ↦ absurd hp (by simp)⟩
  rintro _ ⟨⟩
  rcases (h.table t' tbl ht).slot (.var x) p hp with ⟨a, rfl, hchild⟩ | ⟨-, y, -, hglobal⟩
  · obtain ⟨n, hn, hown⟩ := hchild.live
    obtain rfl := hchild.table
    exact ⟨mem_varTable h ht, n, ⟨tbl, ht, hn⟩, hown fun i hi ↦ by cases hi⟩
  · cases hglobal <;> exact trivial

/-! ### Variables -/

theorem variableCreate_yields (h : s.WF nlits typed) (d : DeclType) (arraySize : Int32) (x : Str) :
    Yields nlits typed (variableCreate (D := D) d arraySize x) s := by
  refine getVarTable_readOnly.then fun t ↦ Lib.meets_bind.2 ?_
  refine (astCreate_creates d arraySize s h).mono fun o s₁ ⟨h₁, ho⟩ ↦ ?_
  cases o with
  | none => exact ⟨h₁, trivial⟩
  | some a =>
    have ha := ho a rfl
    refine Lib.meets_bind.2 ((insert_ensures h₁.wf ha).mono fun b s₂ ⟨hwf, he⟩ ↦ ?_)
    have h₂ : Leads nlits typed s s₂ := ⟨hwf, h₁.evolves.trans he⟩
    refine Lib.meets_ite.2 ⟨fun _ ↦ ⟨h₂, ?_⟩, fun _ ↦ ⟨h₂, trivial⟩⟩
    rw [← h₁.evolves.varTable]
    exact (usable_of_fresh ha h₁.wf).evolves he

theorem variableAssign_yields (h : s.WF nlits typed) (x : Str) (inVar : Ptr) :
    Yields nlits typed (variableAssign (D := D) x inVar) s := by
  refine getVarTable_readOnly.then fun t ↦ (lookup_readOnly t x).then fun r ↦ ?_
  split
  · exact yields_empty h
  · refine Lib.meets_bind.2 ((updateADT_assigns t _ inVar s h).mono fun b s₁ h₁ ↦ ?_)
    refine Lib.meets_ite.2 ⟨fun _ ↦ Lib.meets_bind.2 ?_, fun _ ↦ ⟨h₁, trivial⟩⟩
    refine (lookup_usable h₁.wf x).mono ?_
    rintro o _ ⟨rfl, ho⟩
    refine ⟨h₁, ?_⟩
    rw [← h₁.evolves.varTable]
    exact .getD_empty ho

theorem assignParams_ensures (ps : List Param) (rs : List Ptr) (s : ParserState D)
    (h : s.WF nlits typed) :
    Ensures (assignParams ps rs) s fun _ s' ↦ Leads nlits typed s s' := by
  induction ps generalizing rs s with
  | nil => exact .refl h
  | cons p ps ih =>
    cases rs with
    | nil => exact .refl h
    | cons r rs =>
      refine Lib.meets_bind.2 ((variableCreate_yields h _ _ _).mono fun q s₁ ⟨h₁, _⟩ ↦ ?_)
      refine (typeOf_readOnly q).then fun ty ↦ Lib.meets_ite.2 ⟨fun _ ↦ h₁, fun _ ↦ ?_⟩
      refine Lib.meets_bind.2 ((variableAssign_yields h₁.wf _ r).mono fun q s₂ ⟨h₂, _⟩ ↦ ?_)
      have h₂ := h₁.trans h₂
      refine (typeOf_readOnly q).then fun ty ↦ Lib.meets_ite.2 ⟨fun _ ↦ h₂, fun _ ↦ ?_⟩
      exact (ih rs s₂ h₂.wf).mono fun _ _ h₃ ↦ h₂.trans h₃

theorem paramListAssign_ensures (h : s.WF nlits typed) (formal : List Param) (actual : List Ptr) :
    Ensures (paramListAssign formal actual) s fun _ s' ↦ Leads nlits typed s s' := by
  cases formal with
  | nil => exact .refl h
  | cons p ps =>
    exact Lib.meets_ite.2 ⟨fun _ ↦ .refl h, fun _ ↦ assignParams_ensures _ actual s h⟩

/-! ### Sets of values -/

/-- The pointer can be put into an array with these members, as far as types count. -/
def IsElem (typed : Prop) (s : ParserState D) (aType : UInt32) (name : Option Str) (p : Ptr) : Prop :=
  typed → ∀ a, p = .node a → ∃ n, NodeAt s a n ∧ n.HasElemType aType name

omit [CDouble D] in
theorem IsElem.evolves {k : TableId → ℕ} {aType : UInt32} {name : Option Str} {p : Ptr}
    (h : IsElem typed s aType name p) (he : Evolves k s s') : IsElem typed s' aType name p := by
  intro htyped a ha
  obtain ⟨n, hn, htype⟩ := h htyped a ha
  obtain ⟨n', hn', hkind⟩ := hn.evolves he
  exact ⟨n', hn', hkind.hasElemType.2 htype⟩

/-- The result is EMPTY, or a new node of the kind `K` at the top of the stack. -/
def NewPtr (nlits : ℕ) (k : TableId → ℕ) (K : Node D → Prop) (t : TableId)
    (s : ParserState D) (p : Ptr) : Prop :=
  p = .empty ∨ ∃ a, p = .node a ∧ Fresh nlits k K t s a

theorem copyInto_ensures {k : TableId → ℕ} {K : Node D → Prop} (hK : Stable K) (h : s.WF nlits typed)
    {o : Option Addr} (ho : ∀ a ∈ o, Fresh nlits k K t s a) (p : Ptr) :
    Ensures (copyInto o p) s fun r s' ↦ Leads nlits typed s s' ∧ NewPtr nlits k K t s' r := by
  cases o with
  | none => exact ⟨.refl h, .inl rfl⟩
  | some c =>
    refine getVarTable_readOnly.then fun t ↦ Lib.meets_bind.2 ?_
    refine (updateADT_assigns t _ p s h).mono fun b s₁ h₁ ↦ ?_
    refine Lib.meets_ite.2 ⟨fun _ ↦ ⟨h₁, .inr ⟨c, rfl, ?_⟩⟩, fun _ ↦ ⟨h₁, .inl rfl⟩⟩
    exact (ho c rfl).evolves hK h₁.evolves (ho c rfl).lt_sizes

/-- A copy has the type of what it is a copy of. -/
theorem adtCreateAndCopy_ensures {aType : UInt32} {name : Option Str} (h : s.WF nlits typed)
    (ht : s.varTable.head? = some t) {p : Ptr} (hp : IsElem typed s aType name p) :
    Ensures (adtCreateAndCopy p) s fun r s' ↦ Leads nlits typed s s' ∧
      NewPtr nlits s.sizes (fun n : Node D ↦ typed → n.HasElemType aType name) t s' r := by
  have hempty : Ensures (pure Ptr.empty) s fun r s' ↦ Leads nlits typed s s' ∧
      NewPtr nlits s.sizes (fun n : Node D ↦ typed → n.HasElemType aType name) t s' r :=
    ⟨.refl h, .inl rfl⟩
  -- a node is made for the element, and assigned from it
  have hcopy : ∀ {create : Interp D (Option Addr)} {K : Node D → Prop},
      Creates nlits typed create t K → (∀ n, K n → typed → n.HasElemType aType name) →
        Ensures (do copyInto (← create) p) s fun r s' ↦ Leads nlits typed s s' ∧
          NewPtr nlits s.sizes (fun n : Node D ↦ typed → n.HasElemType aType name) t s' r := by
    intro create K hcreate hK
    refine Lib.meets_bind.2 (((hcreate.imp hK) s h).mono fun o s₁ ⟨h₁, ho⟩ ↦ ?_)
    refine (copyInto_ensures ?_ h₁.wf ho p).mono fun r s₂ ⟨h₂, hr⟩ ↦ ⟨h₁.trans h₂, hr⟩
    exact fun n n' hkind hn htyped ↦ hkind.hasElemType.2 (hn htyped)
  refine Lib.meets_bind.2 (getVarTable_ensures fun t' ts hts ↦ ?_)
  obtain rfl : t' = t := by
    rw [hts] at ht
    exact Option.some.inj ht
  refine Lib.meets_bind.2 (nodeAt_ensures (fun a n hpa hn ↦ ?_) fun _ _ ↦ hempty)
  -- the kind of the copy is that of the element
  have hsource : typed → n.HasElemType aType name := by
    intro htyped
    obtain ⟨n', hn', htype⟩ := hp htyped a hpa
    rwa [hn.unique hn']
  split
  · next heq =>
    cases heq
    refine hcopy (createBasicType_creates .int) fun m hm htyped ↦ ?_
    rw [← show ASTType.intType.toWord = aType from hsource htyped]
    exact hasBasic_hasElemType name hm
  · next heq =>
    cases heq
    refine hcopy (createBasicType_creates .double) fun m hm htyped ↦ ?_
    rw [← show ASTType.doubleType.toWord = aType from hsource htyped]
    exact hasBasic_hasElemType name hm
  · next heq =>
    cases heq
    refine hcopy (createBasicType_creates .string) fun m hm htyped ↦ ?_
    rw [← show ASTType.stringType.toWord = aType from hsource htyped]
    exact hasBasic_hasElemType name hm
  · next heq =>
    cases heq
    refine hcopy (createAdt_creates _) ?_
    rintro m ⟨c, rfl⟩ htyped
    exact hsource htyped
  · exact hempty

/-- `uniqueAdd` to a new array of the table at the top. -/
theorem uniqueAdd_ensures {l v : Addr} {aType : UInt32} {name : Option Str} {p : Ptr}
    (h : s.WF nlits typed) (ht : s.varTable.head? = some l.table)
    (hl : NodeAt s l (.array aType name v (some l.table))) (hp : IsElem typed s aType name p) :
    Ensures (uniqueAdd v p) s fun _ s' ↦ Leads nlits typed s s' := by
  refine (getVector_readOnly v).then fun ps ↦ (anyEqual_readOnly p ps).then fun b ↦ ?_
  refine Lib.meets_ite.2 ⟨fun _ ↦ .refl h, fun _ ↦ Lib.meets_bind.2 ?_⟩
  refine (adtCreateAndCopy_ensures h ht hp).mono ?_
  rintro r s₁ ⟨h₁, rfl | ⟨a, rfl, ha⟩⟩
  · refine Lib.meets_bind.2 (Lib.meets_pure.2 ?_)
    exact Lib.meets_ite.2 ⟨fun _ ↦ h₁, fun hne ↦ absurd rfl hne⟩
  · refine (typeOf_readOnly _).then fun ty ↦ Lib.meets_ite.2 ⟨fun _ ↦ h₁, fun _ ↦ ?_⟩
    refine Lib.meets_bind.2 ((pushBack_fresh ?_ hl h₁ ha).mono fun _ s₂ h₂ ↦ h₂)
    exact fun htyped n hn ↦ hn htyped

theorem uniqueAddAll_ensures {l v : Addr} {aType : UInt32} {name : Option Str} (ps : List Ptr)
    (s : ParserState D) (h : s.WF nlits typed) (ht : s.varTable.head? = some l.table)
    (hl : NodeAt s l (.array aType name v (some l.table)))
    (hps : ∀ p ∈ ps, IsElem typed s aType name p) :
    Ensures (uniqueAddAll v ps) s fun _ s' ↦ Leads nlits typed s s' := by
  induction ps generalizing s with
  | nil => exact .refl h
  | cons p ps ih =>
    refine Lib.meets_bind.2 ?_
    refine (uniqueAdd_ensures h ht hl (hps p (by simp))).mono fun b s₁ h₁ ↦ ?_
    refine Lib.meets_ite.2 ⟨fun _ ↦ ?_, fun _ ↦ h₁⟩
    refine (ih s₁ h₁.wf ?_ ?_ fun q hq ↦ ?_).mono fun _ _ h₂ ↦ h₁.trans h₂
    · rw [h₁.evolves.varTable, ht]
    · exact hl.evolves_of_aux h₁.evolves (by simp [Node.aux])
    · exact (hps q (List.mem_cons_of_mem _ hq)).evolves h₁.evolves

end Interp

end Meridian.MQL

import Meridian.MQL.AssignInvariant
import Meridian.MQL.Eval

/-!
# The native functions keep the invariant

Every native function but `rpc` and `get_distance` returns something usable (`Yields`). Where it fills
an array, the array is a new one of the table at the top, or the entry has been created in the table
that the array names.

The elements of an array stay of its type, with one exception: `array_union` does not compare the
element types of its operands. `SameElemType` is what has to be known of them.
-/

namespace Meridian.MQL.Interp

open ParserState

variable {D : Type} {nlits : ℕ} {typed : Prop} {s s' : ParserState D} {t : TableId}

/-! ### New values -/

/-- `orEmpty` of a node that has been created at the top. -/
theorem orEmpty_yields (create : TableId → Interp D (Option Addr)) {K : Node D → Prop}
    (h : s.WF nlits typed) (hcreate : ∀ t, Creates nlits typed (create t) t K) :
    Yields nlits typed (do return orEmpty (← create (← getVarTable))) s := by
  refine getVarTable_readOnly.then fun t ↦ Lib.meets_bind.2 ?_
  exact (hcreate t s h).mono fun o s₁ ⟨h₁, ho⟩ ↦ ⟨h₁, usable_orEmpty h₁ ho⟩

theorem mkInt_yields (h : s.WF nlits typed) (i : Int32) : Yields nlits typed (mkInt i) s :=
  orEmpty_yields (fun t ↦ newStackAst t (pure (.int i))) h fun _ ↦ creates_plain rfl

theorem mkDouble_yields (h : s.WF nlits typed) (d : D) : Yields nlits typed (mkDouble d) s :=
  orEmpty_yields (fun t ↦ newStackAst t (pure (.double d))) h fun _ ↦ creates_plain rfl

theorem mkString_yields (h : s.WF nlits typed) (x : Str) : Yields nlits typed (mkString (D := D) x) s :=
  orEmpty_yields (fun t ↦ newStackAst t do return .string (← newStackString t x)) h
    fun _ ↦ creates_string x

/-- A list in braces is a node of its own, and no value. -/
theorem mkSepList_ensures (h : s.WF nlits typed) (v : List Ptr) :
    Ensures (mkSepList v) s fun p s' ↦ Leads nlits typed s s' ∧ (p = .empty ∨ ∃ a, p = .node a) := by
  refine getVarTable_readOnly.then fun t ↦ Lib.meets_bind.2 ?_
  refine (newStackAst_ensures (P := fun _ ↦ True) h fun s₁ h₁ ↦ ?_).mono fun o s₁ ⟨h₁, _⟩ ↦ ?_
  · refine Lib.meets_bind.2 ((newStackVector_ensures h₁ v).mono fun c s₂ ⟨h₂, hspare, _⟩ ↦ ?_)
    refine ⟨h₂, fun tbl ht ↦ ⟨fun k c' hc ↦ ?_, fun _ _ _ _ hn ↦ ?_, fun _ _ _ hn ↦ ?_⟩, trivial⟩
    · cases hc
      exact hspare tbl ht
    · cases hn
    · cases hn
  · cases o with
    | none => exact ⟨h₁, .inl rfl⟩
    | some a => exact ⟨h₁, .inr ⟨a, rfl⟩⟩

/-! ### Entries and fields -/

/-- The entries of an array are in its slots. -/
theorem getVector_children {l v : Addr} {aType : UInt32} {name : Option Str} {tb : Option TableId}
    (h : s.WF nlits typed) (hl : NodeAt s l (.array aType name v tb)) :
    Ensures (getVector v) s fun ps s' ↦ s' = s ∧
      (∃ tbl, s.tables v.table = some tbl ∧ tbl.vStackVector[v.index]? = some ps) ∧
      ∀ p ∈ ps, ∃ tbl a i, p = .node a ∧ s.tables l.table = some tbl ∧
        VarTable.Child nlits s.defs typed l.table tbl (.elem l.index i) a := by
  obtain ⟨tbl, ht, hn⟩ := hl
  have hwf := h.table _ tbl ht
  obtain ⟨hv, -⟩ := hwf.aux _ _ .vector v hn rfl
  refine getVector_ensures fun ps tbl' ht' hps ↦ ⟨rfl, ⟨tbl', ht', hps⟩, fun p hp ↦ ?_⟩
  obtain rfl := Option.some.inj (ht.symm.trans (hv ▸ ht'))
  obtain ⟨i, hi⟩ := List.mem_iff_getElem?.1 hp
  have hslot : tbl.ptrAt (.elem l.index i) = some p := by
    rw [VarTable.ptrAt, VarTable.elems_eq hn, hps]
    exact hi
  rcases hwf.slot _ p hslot with ⟨a, rfl, hchild⟩ | ⟨-, x, hx, -⟩
  · exact ⟨tbl, a, i, rfl, ht, hchild⟩
  · cases hx

/-- The entries of an array that has not been received. -/
theorem getVector_usable {l v : Addr} {aType : UInt32} {name : Option Str} {tb : Option TableId}
    {ts : List TableId} (h : s.WF nlits typed) (hl : NodeAt s l (.array aType name v tb))
    (hown : tb ≠ none) (hmem : l.table ∈ ts) :
    Ensures (getVector v) s fun ps s' ↦ s' = s ∧ ∀ p ∈ ps, Usable ts s p := by
  refine (getVector_children h hl).mono fun ps _ ⟨hs, _, hps⟩ ↦ ⟨hs, fun p hp ↦ ?_⟩
  obtain ⟨tbl, a, i, rfl, ht, hchild⟩ := hps p hp
  obtain ⟨n, hn, hlive⟩ := hchild.live
  refine ⟨hchild.table ▸ hmem, n, ⟨tbl, hchild.table ▸ ht, hn⟩, hlive ?_⟩
  rintro j ⟨⟩ m hm
  obtain rfl := hl.unique ⟨tbl, ht, hm⟩
  exact hown

/-- Where types count, the entries of an array that has not been received are of its type. -/
theorem getVector_elems {l v : Addr} {aType : UInt32} {name : Option Str} {tb : Option TableId}
    (h : s.WF nlits typed) (hl : NodeAt s l (.array aType name v tb)) (hown : typed → tb ≠ none) :
    Ensures (getVector v) s fun ps s' ↦ s' = s ∧
      (∃ tbl, s.tables v.table = some tbl ∧ tbl.vStackVector[v.index]? = some ps) ∧
      ∀ p ∈ ps, IsElem typed s aType name p := by
  refine (getVector_children h hl).mono fun ps _ ⟨hs, hcell, hps⟩ ↦ ⟨hs, hcell, fun p hp ↦ ?_⟩
  obtain ⟨tbl, a, i, rfl, ht, hchild⟩ := hps p hp
  rintro htyped _ ⟨⟩
  obtain ⟨t, rfl⟩ := Option.ne_none_iff_exists'.1 (hown htyped)
  obtain ⟨tbl', ht', hn⟩ := hl
  obtain rfl := Option.some.inj (ht.symm.trans ht')
  obtain ⟨e, he, htype⟩ := hchild.elem htyped _ i _ _ _ _ rfl hn
  exact ⟨e, ⟨tbl, (congrArg s.tables hchild.table).trans ht, he⟩, htype⟩

/-- The fields of a struct that has not been received. -/
theorem getMap_usable {l m : Addr} {name : Str} {ts : List TableId} (h : s.WF nlits typed)
    (hl : NodeAt s l (.varAdt name m false)) (hmem : l.table ∈ ts) :
    Ensures (getMap m) s fun adtMap s' ↦ s' = s ∧
      ∀ (x : Str) p, adtMap[x]? = some p → Usable ts s p := by
  obtain ⟨tbl, ht, hn⟩ := hl
  have hwf := h.table _ tbl ht
  obtain ⟨hm, -⟩ := hwf.aux _ _ .map m hn rfl
  refine getMap_ensures fun adtMap tbl' ht' hmap ↦ ⟨rfl, fun x p hp ↦ ?_⟩
  obtain rfl := Option.some.inj (ht.symm.trans (hm ▸ ht'))
  have hslot : tbl.ptrAt (.field l.index x) = some p := by
    rw [VarTable.ptrAt, VarTable.fields_eq hn, hmap]
    exact hp
  rcases hwf.slot _ p hslot with ⟨a, rfl, hchild⟩ | ⟨-, y, hy, -⟩
  · obtain ⟨n, hn', hlive⟩ := hchild.live
    refine ⟨hchild.table ▸ hmem, n, ⟨tbl, hchild.table ▸ ht, hn'⟩, hlive ?_⟩
    rintro j ⟨⟩ n' hn''
    obtain rfl := Option.some.inj (hn.symm.trans hn'')
    exact rfl
  · cases hy

variable [CDouble D]

/-! ### Structs of the node around the interpreter -/

/-- The distances go into an array of the table at the top. -/
theorem pushDistances_ensures {l v : Addr} {name : Option Str} (lat : List UInt32) (s : ParserState D)
    (h : s.WF nlits typed) (ht : s.varTable.head? = some l.table)
    (hl : NodeAt s l (.array ASTType.doubleType.toWord name v (some l.table))) :
    Ensures (pushDistances v lat) s fun _ s' ↦ Leads nlits typed s s' := by
  induction lat generalizing s with
  | nil => exact .refl h
  | cons us rest ih =>
    refine Lib.meets_bind.2 (getVarTable_ensures fun t ts hts ↦ ?_)
    obtain rfl : t = l.table := by
      rw [hts] at ht
      exact Option.some.inj ht
    refine Lib.meets_bind.2 ((creates_plain rfl s h).mono fun o s₁ ⟨h₁, ho⟩ ↦ ?_)
    cases o with
    | none => exact h₁
    | some a =>
      refine Lib.meets_bind.2 ((pushBack_fresh ?_ hl h₁ (ho a rfl)).mono fun _ s₂ h₂ ↦ ?_)
      · rintro - n rfl
        rfl
      · refine (ih s₂ h₂.wf ?_ ?_).mono fun _ _ h₃ ↦ h₂.trans h₃
        · rw [h₂.evolves.varTable, ht]
        · exact hl.evolves_of_aux h₂.evolves (by simp [Node.aux])

/-- The numbers are written, and the distances are put into the array of the struct. -/
theorem fillFields_ensures (ident : NodeIdentRendv) (latUS : Option (List UInt32))
    (adtMap : StrMap Ptr) (fs : List Field) (s : ParserState D) (h : s.WF nlits typed)
    (ht : s.varTable.head? = some t)
    (hmap : ∀ (x : Str) p, adtMap[x]? = some p → Usable [t] s p) :
    Ensures (fillFields ident latUS adtMap fs) s fun _ s' ↦ Leads nlits typed s s' := by
  induction fs generalizing s with
  | nil => exact .refl h
  | cons f fs ih =>
    have hrest : ∀ {s₁ : ParserState D}, Leads nlits typed s s₁ →
        Ensures (fillFields ident latUS adtMap fs) s₁ fun _ s' ↦ Leads nlits typed s s' := by
      refine fun h₁ ↦ (ih _ h₁.wf ?_ fun x p hp ↦ ?_).mono fun _ _ h₂ ↦ h₁.trans h₂
      · rw [h₁.evolves.varTable, ht]
      · exact (hmap x p hp).evolves h₁.evolves
    rw [fillFields]
    split
    · exact .refl h
    next p hp =>
    refine Lib.meets_bind.2 (nodeAt_ensures (fun a n hpa hn ↦ ?_) fun _ _ ↦ .refl h)
    subst hpa
    split
    · next a' i heq =>
      cases heq
      split
      · exact .refl h
      · next w hw =>
        refine Lib.meets_bind.2 ((setNode_ensures h hn (.int i w.toInt32)).mono fun _ s₁ h₁ ↦ ?_)
        exact hrest h₁
    · next a' aType name v tb lat heq =>
      cases heq
      refine Lib.meets_ite.2 ⟨fun htype ↦ Lib.meets_ite.2 ⟨fun _ ↦ ?_, fun _ ↦ hrest (.refl h)⟩,
        fun _ ↦ .refl h⟩
      -- the array is one of the program's own, so its elements are in its table
      obtain ⟨hmem, n', hn', hown⟩ := hmap f.vName _ hp
      obtain rfl := hn.unique hn'
      obtain ⟨u, rfl⟩ := Option.ne_none_iff_exists'.1 hown
      obtain rfl : u = a.table := by
        obtain ⟨tbl, htbl, hn⟩ := hn
        exact (h.table _ tbl htbl).varTable _ _ _ _ _ hn
      subst htype
      obtain rfl := List.mem_singleton.1 hmem
      refine Lib.meets_bind.2 ((pushDistances_ensures lat s h ht hn).mono fun b s₁ h₁ ↦ ?_)
      exact Lib.meets_ite.2 ⟨fun _ ↦ hrest h₁, fun _ ↦ h₁⟩
    · exact .refl h

/-- A new struct at the top of the stack. -/
theorem createIdent_ensures (name : Str) (ident : NodeIdentRendv) (latUS : Option (List UInt32))
    (h : s.WF nlits typed) (ht : s.varTable.head? = some t) :
    Ensures (createIdent name ident latUS) s fun p s' ↦ Leads nlits typed s s' ∧
      NewPtr nlits s.sizes (fun n : Node D ↦ ∃ m, n = .varAdt name m false) t s' p := by
  refine Lib.meets_bind.2 (getVarTable_ensures fun t' ts hts ↦ ?_)
  obtain rfl : t' = t := by
    rw [hts] at ht
    exact Option.some.inj ht
  refine (lookup_readOnly _ _).then fun o ↦ ?_
  split
  · next d =>
    refine Lib.meets_bind.2 ((createAdt_creates name s h).mono fun o s₁ ⟨h₁, ho⟩ ↦ ?_)
    cases o with
    | none => exact ⟨h₁, .inl rfl⟩
    | some a =>
      have ha := ho a rfl
      refine Lib.meets_bind.2 (getNode_ensures fun n hn ↦ ?_)
      obtain ⟨tbl, _, htbl, hn', -, ⟨m, rfl⟩, -⟩ := ha.node
      obtain rfl := ha.table
      obtain rfl := hn.unique ⟨tbl, htbl, hn'⟩
      refine Lib.meets_bind.2 ((getMap_usable h₁.wf hn (List.mem_singleton_self _)).mono ?_)
      rintro adtMap s₁ ⟨rfl, hmap⟩
      have ht₁ := h₁.evolves.varTable ▸ ht
      refine Lib.meets_bind.2 ?_
      refine (fillFields_ensures ident latUS adtMap d.adtParam s₁ h₁.wf ht₁ hmap).mono ?_
      refine fun b s₂ h₂ ↦ Lib.meets_ite.2 ⟨fun _ ↦ ⟨h₁.trans h₂, .inr ⟨a, rfl, ?_⟩⟩, fun _ ↦ ?_⟩
      · refine ha.evolves ?_ h₂.evolves ha.lt_sizes
        rintro n n' hkind ⟨m, rfl⟩
        exact ⟨m, hkind.varAdt_eq.2 rfl⟩
      · exact ⟨h₁.trans h₂, .inl rfl⟩
  · exact ⟨.refl h, .inl rfl⟩

/-- A new array of such structs gets its elements. -/
theorem pushIdents_ensures {l v : Addr} {name : Str}
    (idents : List (NodeIdentRendv × Option (List UInt32)))
    (s : ParserState D) (h : s.WF nlits typed) (ht : s.varTable.head? = some l.table)
    (hl : NodeAt s l (.array ASTType.adtType.toWord (some name) v (some l.table))) :
    Ensures (pushIdents name v idents) s fun _ s' ↦ Leads nlits typed s s' := by
  induction idents generalizing s with
  | nil => exact .refl h
  | cons ident idents ih =>
    refine Lib.meets_bind.2 ((createIdent_ensures name _ _ h ht).mono ?_)
    rintro p s₁ ⟨h₁, rfl | ⟨a, rfl, ha⟩⟩
    · exact h₁
    · refine Lib.meets_bind.2 ((pushBack_fresh ?_ hl h₁ ha).mono fun _ s₂ h₂ ↦ ?_)
      · rintro - n ⟨m, rfl⟩
        exact ⟨rfl, rfl⟩
      · refine (ih s₂ h₂.wf ?_ ?_).mono fun _ _ h₃ ↦ h₂.trans h₃
        · rw [h₂.evolves.varTable, ht]
        · exact hl.evolves_of_aux h₂.evolves (by simp [Node.aux])

omit [CDouble D] in
/-- A new array and its vector. -/
theorem array_of_fresh {k : TableId → ℕ} {aType : UInt32} {name : Option Str} {a : Addr} {n : Node D}
    (ha : Fresh nlits k (fun n ↦ ∃ v, n = .array aType name v (some t)) t s a)
    (hn : NodeAt s a n) : ∃ v, n = .array aType name v (some a.table) := by
  obtain ⟨tbl, n', ht, hn', -, ⟨v, rfl⟩, -⟩ := ha.node
  obtain rfl := ha.table
  exact ⟨v, hn.unique ⟨tbl, ht, hn'⟩⟩

omit [CDouble D] in
/-- A new empty array at the top of the stack. -/
theorem createArray_new {aType : UInt32} {name : Option Str} (h : s.WF nlits typed) :
    Ensures (createArray (D := D) t aType name 0 (pure none)) s fun r s' ↦ Leads nlits typed s s' ∧
      ∀ a ∈ r, Fresh nlits s.sizes
        (fun n ↦ ∃ v, n = .array aType (elemName aType name) v (some t)) t s' a :=
  createArray_creates creates_none s h

theorem createIdents_yields (name : Str) (idents : List (NodeIdentRendv × Option (List UInt32)))
    (h : s.WF nlits typed) : Yields nlits typed (createIdents name idents) s := by
  refine Lib.meets_bind.2 (getVarTable_ensures fun t ts hts ↦ Lib.meets_bind.2 ?_)
  refine (createArray_new h).mono fun o s₁ ⟨h₁, ho⟩ ↦ ?_
  cases o with
  | none => exact ⟨h₁, trivial⟩
  | some a =>
    have ha := ho a rfl
    refine Lib.meets_bind.2 (getNode_ensures fun n hn ↦ ?_)
    obtain ⟨v, rfl⟩ := array_of_fresh ha hn
    rw [elemName, if_pos rfl] at hn
    refine Lib.meets_bind.2 ((pushIdents_ensures idents s₁ h₁.wf ?_ hn).mono fun b s₂ h₂ ↦ ?_)
    · rw [h₁.evolves.varTable, hts, ha.table]
      rfl
    refine Lib.meets_ite.2 ⟨fun _ ↦ ⟨h₁.trans h₂, ?_⟩, fun _ ↦ ⟨h₁.trans h₂, trivial⟩⟩
    rw [← h₁.evolves.varTable]
    exact (usable_of_fresh ha h₁.wf).evolves h₂.evolves

/-! ### Arrays -/

theorem arrayOffset_yields (largest : Bool) (p : Ptr) (h : s.WF nlits typed) :
    Yields nlits typed (arrayOffset (D := D) largest p) s := by
  refine (nodeAt_readOnly p).then fun o ↦ ?_
  split
  · refine (getVector_readOnly _).then fun ps ↦ (getNumbers_readOnly _ ps).then fun r ↦ ?_
    split
    · split
      · exact mkInt_yields h _
      · exact mkInt_yields h _
    · exact yields_empty h
  · exact yields_empty h

theorem arrayExtreme_yields (largest : Bool) (p : Ptr) (h : s.WF nlits typed) :
    Yields nlits typed (arrayExtreme (D := D) largest p) s := by
  refine (nodeAt_readOnly p).then fun o ↦ ?_
  split
  · refine (getVector_readOnly _).then fun ps ↦ (getNumbers_readOnly _ ps).then fun r ↦ ?_
    split
    · split
      · exact mkInt_yields h _
      · split
        · exact mkInt_yields h _
        · exact yields_empty h
    · split
      · exact mkDouble_yields h _
      · split
        · exact mkDouble_yields h _
        · exact yields_empty h
    · exact yields_empty h
  · exact yields_empty h

theorem arrayAvg_yields (p : Ptr) (h : s.WF nlits typed) :
    Yields nlits typed (arrayAvg (D := D) p) s := by
  refine (nodeAt_readOnly p).then fun o ↦ ?_
  split
  · refine (getVector_readOnly _).then fun ps ↦ Lib.meets_ite.2 ⟨fun _ ↦ mkDouble_yields h _, fun _ ↦ ?_⟩
    refine (getNumbers_readOnly _ ps).then fun r ↦ ?_
    split
    · exact mkDouble_yields h _
    · exact mkDouble_yields h _
    · exact yields_empty h
  · exact yields_empty h

/-- The element is created in the table that the array names, which is the array's own. -/
theorem nativePushBack_yields (p q : Ptr) (h : s.WF nlits typed) :
    Yields nlits typed (nativePushBack (D := D) p q) s := by
  refine Lib.meets_bind.2 (nodeAt_ensures (fun l n _ hl ↦ ?_) fun _ _ ↦ yields_empty h)
  split
  · next l' aType name v tb heq =>
    cases heq
    refine (isElem_readOnly _ _ q).then fun b ↦ Lib.meets_ite.2 ⟨fun _ ↦ ?_, fun _ ↦ yields_empty h⟩
    cases tb with
    | none => exact trivial
    | some t =>
      obtain rfl : t = l.table := by
        obtain ⟨tbl, ht, hn⟩ := hl
        exact (h.table _ tbl ht).varTable _ _ _ _ _ hn
      refine Lib.meets_bind.2 ((createElem_creates aType name s h).mono fun o s₁ ⟨h₁, ho⟩ ↦ ?_)
      cases o with
      | none => exact ⟨h₁, trivial⟩
      | some a =>
        have ha := ho a rfl
        refine getVarTable_readOnly.then fun t ↦ Lib.meets_bind.2 ?_
        refine (updateADT_assigns t _ q s₁ h₁.wf).mono fun b s₂ h₂ ↦ ?_
        have h₁₂ := h₁.trans h₂
        have ha₂ := ha.evolves (stable_hasElemType _ _) h₂.evolves ha.lt_sizes
        refine Lib.meets_ite.2 ⟨fun _ ↦ Lib.meets_bind.2 ?_, fun _ ↦ ⟨h₁₂, trivial⟩⟩
        exact (pushBack_fresh (fun _ _ h ↦ h) hl h₁₂ ha₂).mono fun _ s₃ h₃ ↦ ⟨h₃, trivial⟩
  · exact yields_empty h

omit [CDouble D] in
theorem nativePopBack_yields (p : Ptr) (h : s.WF nlits typed) :
    Yields nlits typed (nativePopBack (D := D) p) s := by
  refine Lib.meets_bind.2 (nodeAt_ensures (fun l n _ hl ↦ ?_) fun _ _ ↦ yields_empty h)
  split
  · next l' aType name v tb heq =>
    cases heq
    refine Lib.meets_bind.2 (getVector_ensures fun ps tbl ht hps ↦ Lib.meets_bind.2 ?_)
    refine (setVector_ensures h hl fun ps' tbl' ht' hps' ↦ ?_).mono fun _ s₁ h₁ ↦ ⟨h₁, trivial⟩
    obtain ⟨tbl₀, ht₀, hn⟩ := hl
    obtain ⟨hv, -⟩ := (h.table _ tbl₀ ht₀).aux _ _ .vector v hn rfl
    obtain rfl := Option.some.inj (ht'.symm.trans (hv ▸ ht))
    obtain rfl := Option.some.inj (hps.symm.trans hps')
    exact List.dropLast_prefix ps
  · exact yields_empty h

/-! ### `array_union` and `array_intersect` -/

/-- The vector has no entries. -/
def VectorEmpty (s : ParserState D) (v : Addr) : Prop :=
  ∃ tbl, s.tables v.table = some tbl ∧ tbl.vStackVector[v.index]? = some []

/-- If the two are arrays, all elements are of the same type. -/
def SameElemType (s : ParserState D) (p q : Ptr) : Prop :=
  ∀ a b aType name v tb aType' name' v' tb', p = .node a → q = .node b →
    NodeAt s a (.array aType name v tb) → NodeAt s b (.array aType' name' v' tb') →
      aType = aType' ∨ VectorEmpty s v'

omit [CDouble D] in
theorem setTable_vectorEmpty {v : Addr} {tbl tbl' : VarTable D} (h : VectorEmpty s v)
    (ht : s.tables t = some tbl)
    (hkeep : ∀ i : ℕ, tbl.vStackVector[i]? = some [] → tbl'.vStackVector[i]? = some []) :
    Ensures (setTable t tbl') s fun _ s' ↦ VectorEmpty s' v := by
  obtain ⟨tbl₀, ht₀, hv⟩ := h
  by_cases heq : v.table = t
  · subst heq
    obtain rfl := Option.some.inj (ht.symm.trans ht₀)
    exact ⟨tbl', Function.update_self .., hkeep _ hv⟩
  · exact ⟨tbl₀, (Function.update_of_ne heq ..).trans ht₀, hv⟩

omit [CDouble D] in
/-- A new array takes nothing from the others, and gives them nothing. -/
theorem createArray_vectorEmpty {v : Addr} (h : VectorEmpty s v) (aType : UInt32)
    (name : Option Str) :
    Ensures (createArray (D := D) t aType name 0 (pure none)) s fun _ s' ↦ VectorEmpty s' v := by
  refine Lib.meets_ite.2 ⟨fun _ ↦ h, fun _ ↦ (realAdtName_readOnly t aType name).then fun r ↦ ?_⟩
  split
  · exact h
  refine Lib.meets_bind.2 (Lib.Meets.mono (P := fun _ s' ↦ VectorEmpty s' v) ?_ fun o s₁ h₁ ↦ ?_)
  · have h' : VectorEmpty { s with astAllocationCount := s.astAllocationCount + 1 } v := h
    refine Lib.meets_bind.2 (Lib.meets_bind.2 (Lib.meets_modify.2 ?_))
    refine Lib.meets_bind.2 (Lib.meets_get.2 (Lib.meets_pure.2
      (Lib.meets_ite.2 ⟨fun _ ↦ ?_, fun _ ↦ h⟩)))
    refine Lib.meets_bind.2 (Lib.meets_bind.2 (Lib.meets_bind.2 (getTable_ensures fun tbl ht ↦ ?_)))
    refine Lib.meets_bind.2 ((setTable_vectorEmpty h' ht fun i hi ↦ ?_).mono fun _ s₂ h₂ ↦ ?_)
    · exact (List.getElem?_append_left (List.getElem?_eq_some_iff.1 hi).1).trans hi
    refine Lib.meets_bind.2 (getTable_ensures fun tbl₂ ht₂ ↦ Lib.meets_bind.2 ?_)
    refine (setTable_vectorEmpty h₂ ht₂ ?_).mono fun _ s₃ h₃ ↦ h₃
    exact fun _ hi ↦ hi
  · cases o with
    | none => exact h₁
    | some a =>
      refine (getNode_readOnly a).then fun n ↦ ?_
      split
      · exact h₁
      · exact trivial

omit [CDouble D] in
theorem sameAdtName_ensures {aType : UInt32} {name name' : Option Str} :
    Ensures (sameAdtName aType name name') s fun b s' ↦ s' = s ∧
      (b = true → aType = ASTType.adtType.toWord → name = name') := by
  refine Lib.meets_ite.2 ⟨fun _ ↦ ?_, fun hne ↦ ⟨rfl, fun _ heq ↦ absurd heq hne⟩⟩
  cases name with
  | none => exact trivial
  | some x =>
    cases name' with
    | none => exact trivial
    | some y => exact ⟨rfl, fun hxy _ ↦ congrArg some (of_decide_eq_true hxy)⟩

omit [CDouble D] in
/-- The name only counts for structs. -/
theorem IsElem.elemName {aType : UInt32} {name name' : Option Str} {p : Ptr}
    (h : IsElem typed s aType name' p) (hname : aType = ASTType.adtType.toWord → name = name') :
    IsElem typed s aType (elemName aType name) p := by
  intro htyped a ha
  obtain ⟨n, hn, htype⟩ := h htyped a ha
  refine ⟨n, hn, ?_⟩
  cases n with
  | varAdt x m u => exact ⟨htype.1, by rw [Interp.elemName, if_pos htype.1, hname htype.1, htype.2]⟩
  | _ => exact htype

omit [CDouble D] in
/-- The new array and the entries that may go into it. -/
theorem combineArrays_ensures {p q : Ptr} (h : s.WF nlits typed)
    (hp : typed → Usable s.varTable s p) (hq : typed → Usable s.varTable s q) :
    Ensures (combineArrays p q) s fun r s' ↦ Leads nlits typed s s' ∧
      ∀ a v ps qs, r = some (a, v, ps, qs) → ∃ aType name, s.varTable.head? = some a.table ∧
        NodeAt s' a (.array aType name v (some a.table)) ∧
        Usable s.varTable s' (.node a) ∧
        (∀ p ∈ ps, IsElem typed s' aType name p) ∧
        ((typed → SameElemType s p q) → ∀ q ∈ qs, IsElem typed s' aType name q) := by
  have hnone : Leads nlits typed s s ∧ ∀ a v ps qs, (none : Option (Addr × Addr × List Ptr × List Ptr)) =
      some (a, v, ps, qs) → ∃ aType name, s.varTable.head? = some a.table ∧
        NodeAt s a (.array aType name v (some a.table)) ∧
        Usable s.varTable s (.node a) ∧ (∀ p ∈ ps, IsElem typed s aType name p) ∧
        ((typed → SameElemType s p q) → ∀ q ∈ qs, IsElem typed s aType name q) :=
    ⟨.refl h, fun _ _ _ _ heq ↦ by cases heq⟩
  refine Lib.meets_bind.2 (nodeAt_ensures (fun l n hpl hl ↦ ?_) fun _ _ ↦ ?_)
  swap
  · exact (nodeAt_readOnly q).then fun o ↦ hnone
  refine Lib.meets_bind.2 (nodeAt_ensures (fun l' n' hql hl' ↦ ?_) fun _ _ ↦ ?_)
  swap
  · cases n <;> exact hnone
  split
  · next l₀ aType name v tb l₀' aType' name' v' tb' heq heq' =>
    cases heq
    cases heq'
    subst hpl hql
    refine Lib.meets_bind.2 (sameAdtName_ensures.mono ?_)
    rintro b s ⟨rfl, hname⟩
    refine Lib.meets_ite.2 ⟨fun hb ↦ ?_, fun _ ↦ hnone⟩
    refine Lib.meets_bind.2 (getVarTable_ensures fun t ts hts ↦ Lib.meets_bind.2 ?_)
    -- the new array is a new node, so an empty operand stays empty
    have hempty : VectorEmpty s v' → Ensures (createArray (D := D) t aType name 0 (pure none)) s
        fun _ s' ↦ VectorEmpty s' v' := fun hv ↦ createArray_vectorEmpty hv aType name
    refine ((createArray_new h).and (Lib.meets_imp hempty)).mono fun o s₁ ⟨⟨h₁, ho⟩, hempty⟩ ↦ ?_
    cases o with
    | none => exact ⟨h₁, fun _ _ _ _ heq ↦ by cases heq⟩
    | some a =>
      have ha := ho a rfl
      refine Lib.meets_bind.2 (getNode_ensures fun n hn ↦ ?_)
      obtain ⟨c, rfl⟩ := array_of_fresh ha hn
      have hl₁ := hl.evolves_of_aux h₁.evolves (by simp [Node.aux])
      have hl₁' := hl'.evolves_of_aux h₁.evolves (by simp [Node.aux])
      refine Lib.meets_bind.2 ((getVector_elems h₁.wf hl₁ fun htyped ↦ (hp htyped).own hl).mono ?_)
      rintro ps _ ⟨rfl, -, hps⟩
      refine Lib.meets_bind.2 ((getVector_elems h₁.wf hl₁' fun htyped ↦ (hq htyped).own hl').mono ?_)
      rintro qs s₁ ⟨rfl, ⟨tbl', ht', hv'⟩, hqs⟩
      refine ⟨h₁, ?_⟩
      rintro _ _ _ _ ⟨⟩
      refine ⟨aType, MQL.Interp.elemName aType name, ?_, hn, ?_,
        fun p hp ↦ (hps p hp).elemName fun _ ↦ rfl, ?_⟩
      · rw [hts, ha.table]
        rfl
      · rw [← h₁.evolves.varTable]
        exact usable_of_fresh ha h₁.wf
      · intro hsame q hq htyped
        -- either the operands are of one type or the second has no elements
        rcases hsame htyped _ _ _ _ _ _ _ _ _ _ rfl rfl hl hl' with rfl | hvoid
        · exact (hqs q hq).elemName (hname hb) htyped
        · obtain ⟨tbl₀, ht₀, hv₀⟩ := hempty hvoid
          obtain rfl := Option.some.inj (ht'.symm.trans ht₀)
          obtain rfl := Option.some.inj (hv'.symm.trans hv₀)
          exact absurd hq (by simp)
  · exact hnone

theorem intersectAll_ensures {l v : Addr} {aType : UInt32} {name : Option Str} (qs ps : List Ptr)
    (s : ParserState D) (h : s.WF nlits typed) (ht : s.varTable.head? = some l.table)
    (hl : NodeAt s l (.array aType name v (some l.table)))
    (hps : ∀ p ∈ ps, IsElem typed s aType name p) :
    Ensures (intersectAll v qs ps) s fun _ s' ↦ Leads nlits typed s s' := by
  induction ps generalizing s with
  | nil => exact .refl h
  | cons p ps ih =>
    have hps' : ∀ q ∈ ps, IsElem typed s aType name q := fun q hq ↦
      hps q (List.mem_cons_of_mem _ hq)
    refine (anyEqual_readOnly p qs).then fun b ↦ Lib.meets_ite.2 ⟨fun _ ↦ ?_, fun _ ↦ ih s h ht hl hps'⟩
    refine Lib.meets_bind.2 ?_
    refine (uniqueAdd_ensures h ht hl (hps p (by simp))).mono fun b s₁ h₁ ↦ ?_
    refine Lib.meets_ite.2 ⟨fun _ ↦ ?_, fun _ ↦ h₁⟩
    refine (ih s₁ h₁.wf ?_ ?_ fun q hq ↦ ?_).mono fun _ _ h₂ ↦ h₁.trans h₂
    · rw [h₁.evolves.varTable, ht]
    · exact hl.evolves_of_aux h₁.evolves (by simp [Node.aux])
    · exact (hps' q hq).evolves h₁.evolves

theorem arrayIntersect_yields {p q : Ptr} (h : s.WF nlits typed)
    (hp : typed → Usable s.varTable s p) (hq : typed → Usable s.varTable s q) :
    Yields nlits typed (arrayIntersect (D := D) p q) s := by
  refine Lib.meets_bind.2 ((combineArrays_ensures h hp hq).mono fun r s₁ ⟨h₁, hr⟩ ↦ ?_)
  rcases r with _ | ⟨a, v, ps, qs⟩
  · exact ⟨h₁, trivial⟩
  · obtain ⟨aType, name, ht, hl, ha, hps, -⟩ := hr a v ps qs rfl
    rw [← h₁.evolves.varTable] at ht
    refine Lib.meets_bind.2 ((intersectAll_ensures qs ps s₁ h₁.wf ht hl hps).mono fun b s₂ h₂ ↦ ?_)
    have h₁₂ := h₁.trans h₂
    exact Lib.meets_ite.2 ⟨fun _ ↦ ⟨h₁₂, ha.evolves h₂.evolves⟩, fun _ ↦ ⟨h₁₂, trivial⟩⟩

theorem arrayUnion_yields {p q : Ptr} (h : s.WF nlits typed)
    (hp : typed → Usable s.varTable s p) (hq : typed → Usable s.varTable s q)
    (hsame : typed → SameElemType s p q) :
    Yields nlits typed (arrayUnion (D := D) p q) s := by
  refine Lib.meets_bind.2 ((combineArrays_ensures h hp hq).mono fun r s₁ ⟨h₁, hr⟩ ↦ ?_)
  rcases r with _ | ⟨a, v, ps, qs⟩
  · exact ⟨h₁, trivial⟩
  · obtain ⟨aType, name, ht, hl, ha, hps, hqs⟩ := hr a v ps qs rfl
    rw [← h₁.evolves.varTable] at ht
    refine Lib.meets_bind.2 ((uniqueAddAll_ensures ps s₁ h₁.wf ht hl hps).mono fun b s₂ h₂ ↦ ?_)
    have h₁₂ := h₁.trans h₂
    refine Lib.meets_ite.2 ⟨fun _ ↦ Lib.meets_bind.2 ?_, fun _ ↦ ⟨h₁₂, trivial⟩⟩
    have ht₂ := h₂.evolves.varTable ▸ ht
    have hl₂ := hl.evolves_of_aux h₂.evolves (by simp [Node.aux])
    refine (uniqueAddAll_ensures qs s₂ h₂.wf ht₂ hl₂ fun q hq ↦ ?_).mono fun b s₃ h₃ ↦ ?_
    · exact (hqs hsame q hq).evolves h₂.evolves
    have h₁₃ := h₁₂.trans h₃
    refine Lib.meets_ite.2 ⟨fun _ ↦ ⟨h₁₃, ?_⟩, fun _ ↦ ⟨h₁₃, trivial⟩⟩
    exact (ha.evolves h₂.evolves).evolves h₃.evolves

/-! ### `evalNativeFunctions` -/

omit [CDouble D] in
theorem onDouble_yields {p : Ptr} {f : D → Interp D Ptr} (h : s.WF nlits typed)
    (hf : ∀ d, Yields nlits typed (f d) s) : Yields nlits typed (onDouble p f) s := by
  refine (nodeAt_readOnly p).then fun o ↦ ?_
  split
  · exact hf _
  · exact yields_empty h

omit [CDouble D] in
theorem onInt_yields {p : Ptr} {f : Int32 → Interp D Ptr} (h : s.WF nlits typed)
    (hf : ∀ i, Yields nlits typed (f i) s) : Yields nlits typed (onInt p f) s := by
  refine (nodeAt_readOnly p).then fun o ↦ ?_
  split
  · exact hf _
  · exact yields_empty h

theorem native1_yields (host : Host D) (f : NativeFunc1) (p : Ptr) (h : s.WF nlits typed) :
    Yields nlits typed (native1 host f p) s := by
  cases f with
  | round => exact onDouble_yields h fun _ ↦ mkInt_yields h _
  | ceil => exact onDouble_yields h fun _ ↦ mkInt_yields h _
  | floor => exact onDouble_yields h fun _ ↦ mkInt_yields h _
  | math f => exact onDouble_yields h fun _ ↦ mkDouble_yields h _
  | dbl => exact onInt_yields h fun _ ↦ mkDouble_yields h _
  | arraySize =>
    refine (nodeAt_readOnly p).then fun o ↦ ?_
    split
    · exact (getVector_readOnly _).then fun _ ↦ mkInt_yields h _
    · exact yields_empty h
  | dnsLookup => exact yields_empty h
  | dnsAddr => exact onInt_yields h fun _ ↦ mkString_yields h _
  | popBack => exact nativePopBack_yields p h
  | ring f => exact onDouble_yields h fun _ ↦ createIdents_yields nodeName _ h
  | arrayMaxOffset => exact arrayOffset_yields true p h
  | arrayMinOffset => exact arrayOffset_yields false p h
  | arrayAvg => exact arrayAvg_yields p h
  | arrayMax => exact arrayExtreme_yields true p h
  | arrayMin => exact arrayExtreme_yields false p h

theorem native2_yields (f : NativeFunc2) {p q : Ptr} (h : s.WF nlits typed)
    (hp : typed → Usable s.varTable s p) (hq : typed → Usable s.varTable s q)
    (hsame : typed → f = .arrayUnion → SameElemType s p q) :
    Yields nlits typed (native2 (D := D) f p q) s := by
  cases f with
  | pow =>
    refine (nodeAt_readOnly p).then fun o ↦ (nodeAt_readOnly q).then fun o' ↦ ?_
    split
    · exact mkDouble_yields h _
    · exact yields_empty h
  | pushBack => exact nativePushBack_yields p q h
  | arrayIntersect => exact arrayIntersect_yields h hp hq
  | arrayUnion => exact arrayUnion_yields h hp hq fun htyped ↦ hsame htyped rfl

theorem handleGetSelf_yields (host : Host D) (h : s.WF nlits typed) :
    Yields nlits typed (handleGetSelf host) s := by
  have hne : s.varTable.head? ≠ none := by
    intro hnone
    have hlast := h.last
    rw [List.head?_eq_none_iff.1 hnone] at hlast
    exact absurd hlast (by simp)
  obtain ⟨t, ht⟩ := Option.ne_none_iff_exists'.1 hne
  refine (createIdent_ensures nodeName _ _ h ht).mono ?_
  rintro p s₁ ⟨h₁, rfl | ⟨a, rfl, ha⟩⟩
  · exact ⟨h₁, trivial⟩
  · refine ⟨h₁, ?_⟩
    rw [← h₁.evolves.varTable]
    exact usable_of_fresh ha h₁.wf

end Meridian.MQL.Interp

import Meridian.MQL.Invariant

/-!
# Creating and assigning keeps the invariant

One lemma for each function of `Update.lean`. A creator (`Creates`) leads to a node that is new, in
no slot and of the kind that was asked for; an assignment (`Assigns`) only fills the elements of the
destination with nodes that it has created.
-/

namespace Meridian.MQL

variable {D : Type} {nlits : ℕ} {typed : Prop}

namespace ParserState

variable {s : ParserState D} {t : TableId}

/-- A struct is what its own name stands for. -/
theorem WF.adtTypeName {x : Str} {d : AdtDef} {tbl : VarTable D} (h : s.WF nlits typed)
    (ht : s.tables t = some tbl) (hx : tbl.vMap[x]? = some (.adt d)) :
    s.defs x = some d ∧ d.adtTypeName = x := by
  rcases (h.table t tbl ht).slot (.var x) _ hx with ⟨a, ha, -⟩ | ⟨rfl, y, hy, hglobal⟩
  · cases ha
  · cases hy
    cases hglobal with
    | adt d hd => exact ⟨defs_eq_some.2 ⟨tbl, ht, hx⟩, hd⟩

end ParserState

namespace Interp

open ParserState

variable {s : ParserState D} {t : TableId}

theorem lookup_ensures {x : Str} {Q : Option Ptr → ParserState D → Prop}
    (hsome : ∀ p t' tbl, s.tables t' = some tbl → tbl.vMap[x]? = some p →
      (t' = t ∨ ∃ tbl₀, s.tables t = some tbl₀ ∧ t' ∈ tbl₀.prevVarTable) → Q (some p) s)
    (hnone : Q none s) : Ensures (lookup t x) s Q := by
  refine Lib.meets_bind.2 (getTable_ensures fun tbl₀ ht₀ ↦ lookupIn_ensures ?_ hnone)
  intro p t' ht' tbl ht hp
  refine hsome p t' tbl ht hp ?_
  rcases List.mem_cons.1 ht' with rfl | hmem
  · exact .inl rfl
  · exact .inr ⟨tbl₀, ht₀, hmem⟩

variable (nlits typed) in
/-- The computation creates nodes of the kind `K` in the table `t`. -/
def Creates (create : Interp D (Option Addr)) (t : TableId) (K : Node D → Prop) : Prop :=
  ∀ s : ParserState D, s.WF nlits typed → Ensures create s fun r s' ↦
    Leads nlits typed s s' ∧ ∀ a ∈ r, Fresh nlits s.sizes K t s' a

variable (nlits typed) in
/-- The computation keeps the invariant, whatever the nodes that it gets are. -/
def Assigns (assign : Ptr → Ptr → Interp D Bool) : Prop :=
  ∀ l r, ∀ s : ParserState D, s.WF nlits typed →
    Ensures (assign l r) s fun _ s' ↦ Leads nlits typed s s'

/-! ### `ASTCreate` -/

theorem creates_none {K : Node D → Prop} : Creates nlits typed (pure none) t K :=
  fun _ h ↦ ⟨.refl h, fun _ ha ↦ absurd ha (by simp)⟩

theorem Creates.imp {create : Interp D (Option Addr)} {K K' : Node D → Prop}
    (h : Creates nlits typed create t K) (hK : ∀ n, K n → K' n) :
    Creates nlits typed create t K' :=
  fun s hs ↦ (h s hs).mono fun _ _ ⟨hleads, hfresh⟩ ↦ ⟨hleads, fun a ha ↦ (hfresh a ha).imp hK⟩

/-- A node without a cell of its own. -/
theorem creates_plain {n : Node D} (haux : n.aux = none) :
    Creates nlits typed (newStackAst t (pure n)) t (· = n) := by
  intro s h
  have hinit : ∀ s₁ : ParserState D, s₁.WF nlits typed → Ensures (pure n) s₁ fun m s' ↦
      Leads nlits typed s₁ s' ∧ Ready t m s' ∧ m = n := by
    refine fun s₁ h₁ ↦ Lib.meets_pure.2 ⟨.refl h₁, fun tbl _ ↦ ⟨?_, ?_, ?_⟩, rfl⟩
    · exact fun k c hc ↦ absurd (haux.symm.trans hc) (by simp)
    · rintro aType name v tb rfl
      cases haux
    · rintro name m u rfl
      cases haux
  refine (newStackAst_ensures h hinit).mono fun r s' ⟨hleads, hmade⟩ ↦ ⟨hleads, fun a ha ↦ ?_⟩
  refine (hmade a ha).fresh (fun m hm ↦ ⟨?_, hm⟩) fun name m hm ↦ ?_
  · subst hm
    cases m with
    | raw => trivial
    | int => trivial
    | double => trivial
    | _ => cases haux
  · rw [← hm] at haux
    cases haux

theorem creates_string (x : Str) :
    Creates nlits typed (newStackAst t do return .string (← newStackString t x)) t
      fun n : Node D ↦ ∃ c, n = .string c := by
  intro s h
  refine (newStackAst_ensures (P := fun n ↦ ∃ c, n = .string c) h fun s₁ h₁ ↦ ?_).mono
    fun r s' ⟨hleads, hmade⟩ ↦ ⟨hleads, fun a ha ↦ (hmade a ha).fresh ?_ ?_⟩
  · refine Lib.meets_bind.2 ((newStackString_ensures h₁ x).mono fun c s₂ ⟨hleads, hspare⟩ ↦ ?_)
    refine ⟨hleads, fun tbl ht ↦ ⟨fun k c' hc ↦ ?_, fun _ _ _ _ hn ↦ ?_, fun _ _ _ hn ↦ ?_⟩, c, rfl⟩
    · cases hc
      exact hspare tbl ht
    · cases hn
    · cases hn
  · rintro n ⟨c, rfl⟩
    exact ⟨trivial, c, rfl⟩
  · rintro name m ⟨c, hc⟩
    cases hc

theorem stable_hasElemType (aType : UInt32) (name : Option Str) :
    Stable (Node.HasElemType (D := D) aType name) :=
  fun _ _ hkind h ↦ hkind.hasElemType.2 h

/-- An array gets an element that has been created for it. -/
theorem pushBack_fresh {s₀ : ParserState D} {l c e : Addr} {aType : UInt32} {name : Option Str}
    {K : Node D → Prop} (hK : typed → ∀ n, K n → n.HasElemType aType name)
    (h₀ : NodeAt s₀ l (.array aType name c (some l.table))) (h : Leads nlits typed s₀ s)
    (he : Fresh nlits s₀.sizes K l.table s e) :
    Ensures (pushBack c (.node e)) s fun _ s' ↦ Leads nlits typed s₀ s' := by
  have hl := NodeAt.evolves_of_aux h₀ h.evolves (by simp [Node.aux])
  have hlt : l.index < e.index := by
    obtain ⟨tbl, ht, hn⟩ := h₀
    have hle := he.le
    rw [sizes_eq ht] at hle
    exact lt_of_lt_of_le (List.getElem?_eq_some_iff.1 hn).1 hle
  refine (pushBack_ensures h.wf hl (fun i ↦ .of_fresh he ?_ ?_) he.le).mono
    fun _ s' ⟨hwf, hevolves⟩ ↦ ⟨hwf, h.evolves.trans hevolves⟩
  · rintro n ⟨⟩
    exact hlt
  · rintro htyped n j aType' name' v t' ⟨⟩ ⟨tbl, ht, hn⟩ m hm
    obtain ⟨tbl', ht', hn'⟩ := hl
    obtain rfl := Option.some.inj (ht.symm.trans ht')
    cases hn.symm.trans hn'
    exact hK htyped m hm

/-- The elements of a new array. -/
theorem createElems_ensures {create : Interp D (Option Addr)} {l c : Addr} {aType : UInt32}
    {name : Option Str} (hcreate : Creates nlits typed create l.table (Node.HasElemType aType name))
    (n : ℕ) (s : ParserState D) (h : s.WF nlits typed)
    (hl : NodeAt s l (.array aType name c (some l.table))) :
    Ensures (createElems c create n) s fun _ s' ↦ Leads nlits typed s s' := by
  induction n generalizing s with
  | zero => exact .refl h
  | succ n ih =>
    refine Lib.meets_bind.2 ((hcreate s h).mono fun r s₁ ⟨h₁, hr⟩ ↦ ?_)
    cases r with
    | none => exact h₁
    | some a =>
      refine Lib.meets_bind.2 ((pushBack_fresh (fun _ _ h ↦ h) hl h₁ (hr a rfl)).mono fun _ s₂ h₂ ↦ ?_)
      refine (ih s₂ h₂.wf (hl.evolves_of_aux h₂.evolves (by simp [Node.aux]))).mono ?_
      exact fun _ s₃ h₃ ↦ h₂.trans h₃

/-- The name that goes with an element type, if it counts. -/
def elemName (arrayType : UInt32) (adtName : Option Str) : Option Str :=
  if arrayType = ASTType.adtType.toWord then adtName else none

/-- A new array has the name that was asked for. -/
theorem realAdtName_ensures {arrayType : UInt32} {adtName : Option Str} (h : s.WF nlits typed) :
    Ensures (realAdtName t arrayType adtName) s fun name s' ↦
      s' = s ∧ (name = none ∨ name = some (elemName arrayType adtName)) := by
  refine Lib.meets_ite.2 ⟨fun htype ↦ ?_, fun htype ↦ ⟨rfl, .inr ?_⟩⟩
  · cases adtName with
    | none => exact trivial
    | some name =>
      refine Lib.meets_bind.2 (Lib.meets_pure.2 (Lib.meets_bind.2 ?_))
      refine lookup_ensures (fun p t' tbl ht hp _ ↦ ?_) ⟨rfl, .inl rfl⟩
      cases p with
      | adt d =>
        refine ⟨rfl, .inr ?_⟩
        rw [(h.adtTypeName ht hp).2, elemName, if_pos htype]
      | _ => exact ⟨rfl, .inl rfl⟩
  · rw [elemName, if_neg htype]

/-- A new array. -/
theorem createArray_creates {arrayType : UInt32} {adtName : Option Str} {size : Int32}
    {create : Interp D (Option Addr)}
    (hcreate : Creates nlits typed create t
      (Node.HasElemType arrayType (elemName arrayType adtName))) :
    Creates nlits typed (createArray t arrayType adtName size create) t
      fun n ↦ ∃ v, n = .array arrayType (elemName arrayType adtName) v (some t) := by
  intro s h
  refine Lib.meets_ite.2 ⟨fun _ ↦ ⟨.refl h, fun a ha ↦ absurd ha (by simp)⟩, fun _ ↦ ?_⟩
  refine Lib.meets_bind.2 ((realAdtName_ensures h).mono ?_)
  rintro _ s' ⟨rfl, rfl | rfl⟩
  · exact ⟨.refl h, fun a ha ↦ absurd ha (by simp)⟩
  refine Lib.meets_bind.2 ((newStackAst_ensures
    (P := fun n ↦ ∃ v, n = .array arrayType (elemName arrayType adtName) v (some t)) h
      fun s₁ h₁ ↦ ?_).mono fun r s₁ ⟨h₁, hr⟩ ↦ ?_)
  · refine Lib.meets_bind.2 ((newStackVector_ensures h₁ []).mono fun c s₂ ⟨h₂, hspare, hv⟩ ↦ ?_)
    refine ⟨h₂, fun tbl ht ↦ ⟨fun k c' hc ↦ ?_, fun _ _ _ _ hn ↦ ?_, fun _ _ _ hn ↦ ?_⟩, c, rfl⟩
    · cases hc
      exact hspare tbl ht
    · cases hn
      exact ⟨rfl, hv tbl ht⟩
    · cases hn
  cases r with
  | none => exact ⟨h₁, fun a ha ↦ absurd ha (by simp)⟩
  | some a =>
    have hfresh : Fresh nlits s'.sizes
        (fun n ↦ ∃ v, n = .array arrayType (elemName arrayType adtName) v (some t)) t s₁ a := by
      refine (hr a rfl).fresh ?_ ?_
      · rintro n ⟨v, rfl⟩
        exact ⟨by simp [Node.Own], v, rfl⟩
      · rintro name m ⟨v, hv⟩
        cases hv
    refine Lib.meets_bind.2 (getNode_ensures fun n hn ↦ ?_)
    obtain ⟨tbl, n', ht, hn', -, ⟨v, rfl⟩, -⟩ := hfresh.node
    obtain ⟨tbl', ht', hn⟩ := hn
    rw [hfresh.table] at ht'
    obtain rfl := Option.some.inj (ht.symm.trans ht')
    obtain rfl := Option.some.inj (hn'.symm.trans hn)
    obtain rfl := hfresh.table
    -- the elements follow one by one, and the array keeps its kind
    refine Lib.meets_bind.2 ((createElems_ensures hcreate _ s₁ h₁.wf ⟨tbl, ht, hn⟩).mono
      fun b s₂ h₂ ↦ ?_)
    cases b with
    | false => exact ⟨h₁.trans h₂, fun a ha ↦ absurd ha (by simp)⟩
    | true =>
      refine ⟨h₁.trans h₂, ?_⟩
      rintro a' ⟨⟩
      refine hfresh.evolves ?_ h₂.evolves hfresh.lt_sizes
      rintro m m' hkind ⟨v, rfl⟩
      exact ⟨v, hkind.array_eq.2 rfl⟩

variable [CDouble D]

/-- `create_basic_type`. -/
theorem createBasicType_creates (b : BasicType) :
    Creates nlits typed (createBasicType (D := D) t b) t (Node.HasBasic b) := by
  cases b with
  | int =>
    refine (creates_plain rfl).imp ?_
    rintro n rfl
    trivial
  | double =>
    refine (creates_plain rfl).imp ?_
    rintro n rfl
    trivial
  | string =>
    refine (creates_string []).imp ?_
    rintro n ⟨c, rfl⟩
    trivial
  | void =>
    intro s h
    refine Lib.meets_bind.2 ((creates_plain (n := .raw) rfl s h).mono fun _ s' hs' ↦ ?_)
    exact ⟨hs'.1, fun a ha ↦ absurd ha (by simp)⟩

omit [CDouble D] in
theorem hasBasic_hasElemType {b : BasicType} {n : Node D} (name : Option Str) (h : n.HasBasic b) :
    n.HasElemType b.astType.toWord name := by
  cases b <;> cases n <;> first | exact h.elim | rfl

omit [CDouble D] in
theorem not_hasBasic_array {aType : UInt32} {name : Option Str} {v : Addr} {tb : Option TableId}
    (b : BasicType) : ¬ (Node.array aType name v tb : Node D).HasBasic b := by
  cases b <;> exact id

omit [CDouble D] in
theorem elemName_none (arrayType : UInt32) : elemName arrayType none = none := by
  rw [elemName]
  split <;> rfl

omit [CDouble D] in
theorem elemName_elemType (e : ElemType) : elemName e.astType.toWord e.adtName = e.adtName := by
  cases e with
  | basic b => exact elemName_none _
  | adt name => exact if_pos rfl

/-- A new field. -/
theorem createField_creates (f : Field) :
    Creates nlits typed (createField (D := D) t f) t (Node.HasField f) := by
  rw [createField]
  split
  · next hsize =>
    refine (createBasicType_creates f.vType).imp fun n hn ↦ ?_
    cases n with
    | array => exact absurd hn (not_hasBasic_array f.vType)
    | _ => exact ⟨hsize, hn⟩
  · next size hsize =>
    refine (createArray_creates ((createBasicType_creates f.vType).imp fun n hn ↦ ?_)).imp ?_
    · exact hasBasic_hasElemType _ hn
    · rintro n ⟨v, rfl⟩
      exact ⟨by simp [hsize], rfl, elemName_none _, by simp⟩

/-- A struct that has got the fields `fs` so far, and is in no slot. -/
def Building (l m : Addr) (name : Str) (fs : List Field) (s : ParserState D) : Prop :=
  ∃ tbl, s.tables l.table = some tbl ∧ tbl.vStackAst[l.index]? = some (.varAdt name m false) ∧
    tbl.Unheld l ∧ tbl.FieldsOk fs (tbl.fields l.index)

omit [CDouble D] in
theorem Building.evolves {l m : Addr} {name : Str} {fs : List Field} {s' : ParserState D}
    (h : Building l m name fs s) (he : Evolves s.sizes s s') : Building l m name fs s' := by
  obtain ⟨tbl, ht, hn, hfree, hok⟩ := h
  obtain ⟨tbl', ht', hkeeps⟩ := he.keeps _ tbl ht
  obtain ⟨n', hn', hkind⟩ := hkeeps.nodes _ _ hn
  have hlt : l.index < s.sizes l.table := by
    rw [sizes_eq ht]
    exact (List.getElem?_eq_some_iff.1 hn).1
  refine ⟨tbl', ht', ?_, hkeeps.unheld hlt hfree, ?_⟩
  · rw [hn', hkind.varAdt_eq.2 rfl]
  · rw [hkeeps.fields_eq hlt]
    exact hok.mono hkeeps.nodes

omit [CDouble D] in
theorem fieldTypes_concat (fs : List Field) (f : Field) :
    fieldTypes (fs ++ [f]) = (fieldTypes fs).insert f.vName f := by
  rw [fieldTypes, fieldTypes, List.foldl_append, List.foldl_cons, List.foldl_nil]

omit [CDouble D] in
/-- A struct under construction gets the next field. -/
theorem setField_ensures {k : TableId → ℕ} {l m a : Addr} {name : Str} {fs : List Field} {f : Field}
    (h : s.WF nlits typed) (hb : Building l m name fs s)
    (ha : Fresh nlits k (Node.HasField f) l.table s a) (hk : k l.table ≤ l.index)
    (hlt : l.index < a.index) :
    Ensures (do setMap m ((← getMap m).insert f.vName (.node a))) s fun _ s' ↦
      s'.WF nlits typed ∧ Evolves k s s' ∧ Building l m name (fs ++ [f]) s' := by
  obtain ⟨tbl, ht, hn, hfree, hok⟩ := hb
  obtain ⟨hm, -⟩ := (h.table _ tbl ht).aux _ _ .map m hn rfl
  refine Lib.meets_bind.2 (getMap_ensures fun adtMap tbl' ht' hmap ↦ ?_)
  obtain rfl := Option.some.inj (ht.symm.trans (hm ▸ ht'))
  -- the node was made after the struct, so it can stand in a field
  have hold : CanHold nlits typed s l.table (.field l.index f.vName) a := by
    refine .of_fresh ha ?_ fun _ n i _ _ _ _ hp ↦ by cases hp
    rintro n ⟨⟩
    exact hlt
  refine (setMap_ensures h ht hn hmap hfree hold hk).mono ?_
  rintro - s' ⟨hwf, he, tbl', ht', hslot⟩
  refine ⟨hwf, he, tbl', ht', ?_, ?_, ?_⟩
  · obtain ⟨tbl₁, ht₁, hkeeps⟩ := he.keeps _ tbl ht
    obtain rfl := Option.some.inj (ht'.symm.trans ht₁)
    obtain ⟨n', hn', hkind⟩ := hkeeps.nodes _ _ hn
    rw [hn', hkind.varAdt_eq.2 rfl]
  · intro p hp
    rw [hslot] at hp
    split at hp
    · obtain rfl := Ptr.node.inj (Option.some.inj hp)
      exact lt_irrefl _ hlt
    · exact hfree p hp
  · obtain ⟨tbl₁, ht₁, hkeeps⟩ := he.keeps _ tbl ht
    obtain rfl := Option.some.inj (ht'.symm.trans ht₁)
    have hfields : ∀ x, (tbl'.fields l.index)[x]? =
        if x = f.vName then some (.node a) else (tbl.fields l.index)[x]? := by
      intro x
      refine (hslot (.field l.index x)).trans ?_
      -- a later definition of the field takes the place of an earlier one
      by_cases hx : x = f.vName
      · rw [if_pos (by rw [hx]), if_pos hx]
      · rw [if_neg (by simpa using hx), if_neg hx]
        rfl
    refine ⟨fun x g hg ↦ ?_, fun x hx ↦ ?_⟩
    · rw [fieldTypes_concat, Std.ExtTreeMap.getElem?_insert] at hg
      rw [hfields]
      by_cases hx : x = f.vName
      · rw [if_pos (by simp [hx])] at hg
        obtain rfl := Option.some.inj hg
        obtain ⟨tbl₀, n, ht₀, hn₀, -, hfield, -⟩ := ha.node
        obtain rfl := Option.some.inj (ht.symm.trans ht₀)
        obtain ⟨n', hn', hkind⟩ := hkeeps.nodes _ n hn₀
        exact ⟨a, n', if_pos hx, hn', hkind.hasField.2 hfield⟩
      · rw [if_neg (by simpa using Ne.symm hx)] at hg
        obtain ⟨b, n, hb, hn₀, hfield⟩ := hok.field x g hg
        obtain ⟨n', hn', hkind⟩ := hkeeps.nodes _ n hn₀
        exact ⟨b, n', (if_neg hx).trans hb, hn', hkind.hasField.2 hfield⟩
    · rw [fieldTypes_concat, Std.ExtTreeMap.getElem?_insert] at hx
      rw [hfields]
      by_cases heq : x = f.vName
      · simp [heq] at hx
      · rw [if_neg (by simpa using Ne.symm heq)] at hx
        exact (if_neg heq).trans (hok.other x hx)

/-- The fields of a new struct. -/
theorem createFields_ensures {k : TableId → ℕ} {l m : Addr} {name : Str} (fs done : List Field)
    (s : ParserState D) (h : s.WF nlits typed) (hb : Building l m name done s)
    (hk : k l.table ≤ l.index) (hle : ∀ t, k t ≤ s.sizes t) :
    Ensures (createFields l.table m fs) s fun b s' ↦ s'.WF nlits typed ∧ Evolves k s s' ∧
      (b = true → Building l m name (done ++ fs) s') := by
  induction fs generalizing s done with
  | nil => exact ⟨h, .refl .., fun _ ↦ by rwa [List.append_nil]⟩
  | cons f fs ih =>
    refine Lib.meets_bind.2 ((createField_creates f s h).mono fun r s₁ ⟨h₁, hr⟩ ↦ ?_)
    cases r with
    | none => exact ⟨h₁.wf, h₁.evolves.of_le hle, fun hb ↦ absurd hb (by simp)⟩
    | some a =>
      have ha := hr a rfl
      have hlt : l.index < a.index := by
        obtain ⟨tbl, ht, hn, -⟩ := hb
        have hle := ha.le
        rw [sizes_eq ht] at hle
        exact lt_of_lt_of_le (List.getElem?_eq_some_iff.1 hn).1 hle
      have hset := setField_ensures h₁.wf (hb.evolves h₁.evolves) (ha.of_le hle) hk hlt
      refine Lib.meets_bind.2 ((Lib.meets_bind.1 hset).mono fun adtMap s₂ h₂ ↦ ?_)
      refine Lib.meets_bind.2 (h₂.mono fun _ s₃ ⟨hwf, he, hb₃⟩ ↦ ?_)
      have he₃ : Evolves k s s₃ := (h₁.evolves.of_le hle).trans he
      refine (ih (done ++ [f]) s₃ hwf hb₃ fun t ↦ (hle t).trans (he₃.sizes_le t)).mono ?_
      rintro b s₄ ⟨hwf₄, he₄, hb₄⟩
      exact ⟨hwf₄, he₃.trans he₄, fun h ↦ by simpa using hb₄ h⟩

/-- A new struct. -/
theorem createAdt_creates (adtName : Str) :
    Creates nlits typed (createAdt (D := D) t adtName) t
      fun n ↦ ∃ m, n = .varAdt adtName m false := by
  intro s h
  have hnone : Leads nlits typed s s ∧ ∀ a ∈ (none : Option Addr),
      Fresh nlits s.sizes (fun n : Node D ↦ ∃ m, n = .varAdt adtName m false) t s a :=
    ⟨.refl h, fun a ha ↦ absurd ha (by simp)⟩
  refine Lib.meets_bind.2 (lookup_ensures (fun p t' tbl ht hp _ ↦ ?_) hnone)
  cases p with
  | adt d =>
    obtain ⟨hdefs, hname⟩ := h.adtTypeName ht hp
    refine Lib.meets_bind.2 ((newStackAst_ensures
      (P := fun n ↦ ∃ m, n = .varAdt adtName m false) h fun s₁ h₁ ↦ ?_).mono
        fun r s₁ ⟨h₁, hr⟩ ↦ ?_)
    · refine Lib.meets_bind.2 ((newStackMap_ensures h₁).mono fun c s₂ ⟨h₂, hspare, hc⟩ ↦ ?_)
      refine ⟨h₂, fun tbl ht ↦ ⟨fun k c' hc ↦ ?_, fun _ _ _ _ hn ↦ ?_, fun _ _ _ hn ↦ ?_⟩, c, ?_⟩
      · cases hc
        exact hspare tbl ht
      · cases hn
      · cases hn
        exact hc tbl ht
      · rw [hname]
    cases r with
    | none => exact ⟨h₁, fun a ha ↦ absurd ha (by simp)⟩
    | some a =>
      have hmade := hr a rfl
      obtain ⟨tbl₁, -, ht₁, hn₁, ⟨m, rfl⟩, hfree, hempty⟩ := hmade.node
      obtain rfl := hmade.table
      refine Lib.meets_bind.2 (getNode_ensures fun n hn ↦ ?_)
      obtain ⟨tbl', ht', hn⟩ := hn
      obtain rfl := Option.some.inj (ht₁.symm.trans ht')
      obtain rfl := Option.some.inj (hn₁.symm.trans hn)
      -- the struct starts without fields
      have hb : Building a m adtName [] s₁ := by
        refine ⟨tbl₁, ht₁, hn₁, hfree, fun x g hg ↦ ?_, fun x _ ↦ hempty (.field a.index x) rfl⟩
        rw [show (fieldTypes [])[x]? = none from Std.ExtTreeMap.getElem?_empty] at hg
        exact absurd hg (by simp)
      refine Lib.meets_bind.2 ((createFields_ensures d.adtParam [] s₁ h₁.wf hb hmade.le
        h₁.evolves.sizes_le).mono ?_)
      rintro b s₂ ⟨hwf, he, hb₂⟩
      refine Lib.meets_ite.2 ⟨fun hb ↦ ?_, fun _ ↦ ?_⟩
      · refine ⟨⟨hwf, h₁.evolves.trans he⟩, ?_⟩
        rintro _ ⟨⟩
        obtain ⟨tbl₂, ht₂, hn₂, hfree₂, hok⟩ := hb₂ hb
        refine ⟨rfl, hmade.le, hmade.lit, tbl₂, _, ht₂, hn₂, rfl, ⟨m, rfl⟩, hfree₂, ?_⟩
        intro name m' hn'
        cases hn₂.symm.trans hn'
        exact ⟨d, (h₁.evolves.trans he).defs hdefs, hok⟩
      · exact ⟨⟨hwf, h₁.evolves.trans he⟩, fun a ha ↦ absurd ha (by simp)⟩
  | _ => exact hnone

/-- A new element. -/
theorem createElem_creates (aType : UInt32) (aAdtName : Option Str) :
    Creates nlits typed (createElem (D := D) t aType aAdtName) t
      (Node.HasElemType aType aAdtName) := by
  have hbasic {b : BasicType} {ty : ASTType} (hty : ASTType.ofWord aType = some ty)
      (hb : b.astType = ty) : Creates nlits typed (createBasicType (D := D) t b) t
        (Node.HasElemType aType aAdtName) := by
    refine (createBasicType_creates b).imp fun n hn ↦ ?_
    rw [← ASTType.toWord_ofWord hty, ← hb]
    exact hasBasic_hasElemType _ hn
  unfold createElem
  split
  · next hty => exact hbasic hty rfl
  · next hty => exact hbasic hty rfl
  · next hty => exact hbasic hty rfl
  · next hty =>
    split
    · next name =>
      refine (createAdt_creates name).imp ?_
      rintro n ⟨m, rfl⟩
      exact ⟨(ASTType.toWord_ofWord hty).symm, rfl⟩
    · exact creates_none
  · next hty =>
    refine (createArray_creates creates_none).imp ?_
    rintro n ⟨v, rfl⟩
    exact ASTType.toWord_ofWord hty
  · refine (createBasicType_creates .void).imp fun n hn ↦ ?_
    cases n <;> exact hn.elim

/-- A new value of a type. -/
theorem createType_creates (e : ElemType) :
    Creates nlits typed (createType (D := D) t e) t
      (Node.HasElemType e.astType.toWord e.adtName) := by
  cases e with
  | basic b => exact (createBasicType_creates b).imp fun n hn ↦ hasBasic_hasElemType _ hn
  | adt name =>
    refine (createAdt_creates name).imp ?_
    rintro n ⟨m, rfl⟩
    exact ⟨rfl, rfl⟩

/-- A new variable. -/
theorem astCreate_creates (d : DeclType) (arraySize : Int32) :
    Creates nlits typed (astCreate (D := D) t d arraySize) t fun _ ↦ True := by
  cases d with
  | elem e => exact (createType_creates e).imp fun _ _ ↦ trivial
  | array e =>
    refine (createArray_creates ?_).imp fun _ _ ↦ trivial
    rw [elemName_elemType]
    exact createType_creates e

end Interp

end Meridian.MQL

import Meridian.MQL.MachineInvariant
import Meridian.MQL.Denotes

/-!
# The invariant at the start

`Machine.start` puts the literals, the parameters and the declarations into the global table. The
literals come first (`Blank`), the parameters are received nodes, which no slot points to but those
of other received nodes (`Placed`), and the declarations are names of functions and structs.

`Machine.Reachable.wf` is what follows from this and from the step lemma of the machine: the
invariant holds in every state that a program reaches.
-/

namespace Meridian.MQL

open ParserState VarTable

variable {D : Type} {nlits : ℕ} {typed : Prop} {s s' : ParserState D} {t : TableId}
  {k : TableId → ℕ} {a : Addr}

/-! ### Received nodes -/

namespace ParserState

/-- The node is new and in no slot. It may have been received, and may have contents. -/
structure Placed (nlits : ℕ) (k : TableId → ℕ) (t : TableId) (s : ParserState D) (a : Addr) :
    Prop where
  table : a.table = t
  le : k t ≤ a.index
  lit : t = 0 → nlits ≤ a.index
  node : ∃ tbl n, s.tables t = some tbl ∧ tbl.vStackAst[a.index]? = some n ∧ tbl.Unheld a ∧
    tbl.Whole s.defs a.index

theorem Fresh.placed {K : Node D → Prop} (h : Fresh nlits k K t s a) : Placed nlits k t s a := by
  obtain ⟨tbl, n, ht, hn, -, -, hfree, hwhole⟩ := h.node
  exact ⟨h.table, h.le, h.lit, tbl, n, ht, hn, hfree, hwhole⟩

/-- A node other than a struct of the program's own is complete at once. -/
theorem Made.placed {P : Node D → Prop} (h : Made nlits k P t s a)
    (hstruct : ∀ name m, ¬ P (.varAdt name m false)) : Placed nlits k t s a := by
  obtain ⟨tbl, n, ht, hn, hP, hfree, -⟩ := h.node
  refine ⟨h.table, h.le, h.lit, tbl, n, ht, hn, hfree, fun name m hn' ↦ ?_⟩
  obtain rfl := Option.some.inj (hn.symm.trans hn')
  exact absurd hP (hstruct name m)

theorem Placed.lt_sizes (h : Placed nlits k t s a) : a.index < s.sizes t := by
  obtain ⟨tbl, n, ht, hn, -⟩ := h.node
  rw [sizes_eq ht]
  exact (List.getElem?_eq_some_iff.1 hn).1

theorem Placed.evolves {k' : TableId → ℕ} (h : Placed nlits k t s a) (he : Evolves k' s s')
    (hlt : a.index < k' t) : Placed nlits k t s' a := by
  obtain ⟨tbl, n, ht, hn, hfree, hwhole⟩ := h.node
  obtain ⟨tbl', ht', hkeeps⟩ := he.keeps t tbl ht
  obtain ⟨n', hn', -⟩ := hkeeps.nodes _ n hn
  exact ⟨h.table, h.le, h.lit, tbl', n', ht', hn', hkeeps.unheld hlt hfree,
    hwhole.mono (List.getElem?_eq_some_iff.1 hn).1 hkeeps.nodes (hkeeps.fields_eq hlt)
      fun _ _ ↦ he.defs⟩

end ParserState

namespace Interp

/-- A slot of a received node can hold any of them. -/
theorem CanHold.of_placed {p : Slot} {n : ℕ} {m : Node D} {e : Addr} (h : Placed nlits k t s e)
    (hp : p.parent = some n) (hn : NodeAt s ⟨t, n⟩ m) (hforeign : ¬ m.Own) (hlt : n < e.index) :
    CanHold nlits typed s t p e := by
  obtain ⟨tbl, e', ht, he, hfree, hwhole⟩ := h.node
  obtain ⟨tbl₀, ht₀, hn⟩ := hn
  obtain rfl := Option.some.inj (ht.symm.trans ht₀)
  have heq : ∀ tbl', s.tables t = some tbl' → tbl' = tbl := fun tbl' ht' ↦
    Option.some.inj (ht'.symm.trans ht)
  refine ⟨fun tbl' ht' ↦ ?_, fun tbl' ht' ↦ heq tbl' ht' ▸ hfree⟩
  obtain rfl := heq tbl' ht'
  refine ⟨h.table, h.lit, fun i hi ↦ ?_, ⟨e', he, fun hown ↦ ?_⟩, ?_, hwhole⟩
  · obtain rfl := Option.some.inj (hp.symm.trans hi)
    exact hlt
  · exact absurd (hown n hp m hn) hforeign
  · rintro - n' i aType name v t' rfl hn'
    obtain rfl := Option.some.inj hp
    obtain rfl := Option.some.inj (hn.symm.trans hn')
    exact absurd (show (Node.array aType name v (some t') : Node D).Own by simp [Node.Own]) hforeign

/-- A received array gets an element. -/
theorem pushBack_placed {l v e : Addr} {aType : UInt32} {name : Option Str}
    (h₀ : NodeAt s l (.array aType name v none)) (h : Leads nlits typed s s')
    (he : Placed nlits s.sizes l.table s' e) :
    Ensures (pushBack v (.node e)) s' fun _ s'' ↦ Leads nlits typed s s'' := by
  have hl := NodeAt.evolves_of_aux h₀ h.evolves (by simp [Node.aux])
  have hlt : l.index < e.index := by
    obtain ⟨tbl, ht, hn⟩ := h₀
    have hle := he.le
    rw [sizes_eq ht] at hle
    exact lt_of_lt_of_le (List.getElem?_eq_some_iff.1 hn).1 hle
  refine (pushBack_ensures h.wf hl (fun i ↦ .of_placed he rfl hl ?_ hlt) he.le).mono ?_
  · simp [Node.Own]
  · intro _ s'' h''
    exact ⟨h''.1, h.evolves.trans h''.2⟩

/-- A list gets an entry. The entries of a list are no slots. -/
theorem pushBack_sep {l v : Addr} (h : s.WF nlits typed) (hl : NodeAt s l (.sep v)) (p : Ptr) :
    Ensures (pushBack v p) s fun _ s' ↦ Leads nlits typed s s' := by
  obtain ⟨tbl, ht, hn⟩ := hl
  have hwf := h.table _ tbl ht
  obtain ⟨hv, -⟩ := hwf.aux _ _ .vector v hn rfl
  refine (getVector_readOnly v).then fun ps ↦ Lib.meets_bind.2 (getTable_ensures fun tbl' ht' ↦ ?_)
  obtain rfl := Option.some.inj (ht.symm.trans (hv ▸ ht'))
  refine Lib.meets_bind.2 (cell_ensures fun _ _ ↦ ?_)
  rw [hv]
  have hslot : ∀ q, ({ tbl with vStackVector := tbl.vStackVector.set v.index (ps ++ [p]) } :
      VarTable D).ptrAt q = tbl.ptrAt q := by
    refine VarTable.ptrAt_congr (.of_eq rfl) rfl rfl (fun n aType name w tb hn' ↦ ?_)
      fun _ _ _ _ _ ↦ rfl
    refine List.getElem?_set_ne fun heq ↦ ?_
    have heq := hwf.owner_eq (k := .vector) hn hn' rfl rfl heq
    subst heq
    cases hn.symm.trans hn'
  refine setTable_ensures (k := s.sizes) h ht ?_ (.of_ptrAt_eq rfl (.of_eq rfl) hslot)
    fun hwf' he ↦ ⟨hwf', he⟩
  refine hwf.congr (.of_eq rfl) rfl ?_ (fun q r hq ↦ hslot q ▸ hq) fun n ↦
    VarTable.fields_eq_of_ptrAt fun k ↦ hslot _
  rintro ⟨⟩ <;> simp [VarTable.size]

variable (nlits typed t) in
/-- The tree is placed in the table. -/
def Places (x : Value D) : Prop :=
  ∀ s : ParserState D, s.WF nlits typed → Ensures (place t x) s fun p s' ↦
    Leads nlits typed s s' ∧ ∀ a, p = .node a → Placed nlits s.sizes t s' a

/-- The entries of the node `n`, which takes what has been placed. -/
theorem placeVector_ensures {l v : Addr} {n : Node D} (haux : n.aux ≠ none)
    (hpush : ∀ (s s' : ParserState D) (e : Addr), NodeAt s l n → Leads nlits typed s s' →
      Placed nlits s.sizes t s' e →
        Ensures (pushBack v (.node e)) s' fun _ s'' ↦ Leads nlits typed s s'')
    (xs : List (Value D)) (hxs : ∀ x ∈ xs, Places nlits typed t x) (s : ParserState D)
    (h : s.WF nlits typed) (hl : NodeAt s l n) :
    Ensures (placeVector t v xs) s fun _ s' ↦ Leads nlits typed s s' := by
  induction xs generalizing s with
  | nil =>
    rw [placeVector]
    exact .refl h
  | cons x xs ih =>
    rw [placeVector]
    rw [List.forall_mem_cons] at hxs
    refine Lib.meets_bind.2 ((hxs.1 s h).mono fun p s₁ ⟨h₁, hp⟩ ↦ ?_)
    cases p with
    | node e =>
      refine Lib.meets_bind.2 ((hpush s s₁ e hl h₁ (hp e rfl)).mono fun _ s₂ h₂ ↦ ?_)
      refine (ih hxs.2 s₂ h₂.wf (hl.evolves_of_aux h₂.evolves haux)).mono fun _ s₃ h₃ ↦ ?_
      exact h₂.trans h₃
    | _ => exact h₁

/-- A received struct, which is in no slot. -/
def Received (l m : Addr) (name : Str) (s : ParserState D) : Prop :=
  ∃ tbl, s.tables l.table = some tbl ∧ tbl.vStackAst[l.index]? = some (.varAdt name m true) ∧
    tbl.Unheld l

theorem Received.evolves {l m : Addr} {name : Str} (h : Received l m name s)
    (he : Evolves s.sizes s s') : Received l m name s' := by
  obtain ⟨tbl, ht, hn, hfree⟩ := h
  obtain ⟨tbl', ht', hkeeps⟩ := he.keeps _ tbl ht
  obtain ⟨n', hn', hkind⟩ := hkeeps.nodes _ _ hn
  have hlt : l.index < s.sizes l.table := by
    rw [sizes_eq ht]
    exact (List.getElem?_eq_some_iff.1 hn).1
  refine ⟨tbl', ht', ?_, hkeeps.unheld hlt hfree⟩
  rw [hn', hkind.varAdt_eq.2 rfl]

/-- A received struct gets a field. -/
theorem setMap_placed {l m e : Addr} {name x : Str} {adtMap : StrMap Ptr} {k' : TableId → ℕ}
    {tbl : VarTable D} (h : s.WF nlits typed) (hl : Received l m name s)
    (he : Placed nlits k l.table s e) (hk : k' l.table ≤ l.index) (hlt : l.index < e.index)
    (ht : s.tables l.table = some tbl) (hm : tbl.vStackMap[m.index]? = some adtMap) :
    Ensures (setMap m (adtMap.insert x (.node e))) s fun _ s' ↦
      s'.WF nlits typed ∧ Evolves k' s s' ∧ Received l m name s' := by
  obtain ⟨tbl₀, ht₀, hn, hfree⟩ := hl
  obtain rfl := Option.some.inj (ht.symm.trans ht₀)
  have hold : CanHold nlits typed s l.table (.field l.index x) e :=
    .of_placed he rfl ⟨tbl, ht, hn⟩ (by simp [Node.Own]) hlt
  refine (setMap_ensures h ht hn hm hfree hold hk).mono ?_
  rintro - s' ⟨hwf, hevolves, tbl', ht', hslot⟩
  obtain ⟨tbl₁, ht₁, hkeeps⟩ := hevolves.keeps _ tbl ht
  obtain rfl := Option.some.inj (ht'.symm.trans ht₁)
  obtain ⟨n', hn', hkind⟩ := hkeeps.nodes _ _ hn
  refine ⟨hwf, hevolves, tbl', ht', ?_, fun p hp ↦ ?_⟩
  · rw [hn', hkind.varAdt_eq.2 rfl]
  · rw [hslot] at hp
    split at hp
    · obtain rfl := Ptr.node.inj (Option.some.inj hp)
      exact lt_irrefl _ hlt
    · exact hfree p hp

theorem placeMap_ensures {l m : Addr} {name : Str} (xs : List (Str × Value D))
    (hxs : ∀ e ∈ xs, Places nlits typed l.table e.2) (s : ParserState D) (h : s.WF nlits typed)
    (hl : Received l m name s) (hk : k l.table ≤ l.index) (hle : ∀ t, k t ≤ s.sizes t) :
    Ensures (placeMap l.table m xs) s fun _ s' ↦
      s'.WF nlits typed ∧ Evolves k s s' ∧ Received l m name s' := by
  induction xs generalizing s with
  | nil =>
    rw [placeMap]
    exact ⟨h, .refl .., hl⟩
  | cons x xs ih =>
    obtain ⟨x, y⟩ := x
    rw [placeMap]
    rw [List.forall_mem_cons] at hxs
    refine Lib.meets_bind.2 ((hxs.1 s h).mono fun p s₁ ⟨h₁, hp⟩ ↦ ?_)
    have he₁ := h₁.evolves.of_le hle
    have hl₁ := hl.evolves h₁.evolves
    cases p with
    | node e =>
      have he := hp e rfl
      have hlt : l.index < e.index := by
        obtain ⟨tbl, ht, hn, -⟩ := hl
        have hle := he.le
        rw [sizes_eq ht] at hle
        exact lt_of_lt_of_le (List.getElem?_eq_some_iff.1 hn).1 hle
      refine Lib.meets_bind.2 (getMap_ensures fun adtMap tbl ht hm ↦ ?_)
      obtain ⟨tbl', ht', hn', -⟩ := id hl₁
      obtain ⟨hmt, -⟩ := (h₁.wf.table _ tbl' ht').aux _ _ .map m hn' rfl
      refine Lib.meets_bind.2 ((setMap_placed h₁.wf hl₁ he hk hlt (hmt ▸ ht) hm).mono ?_)
      rintro - s₂ ⟨hwf₂, he₂, hl₂⟩
      have he₀₂ := he₁.trans he₂
      refine (ih hxs.2 s₂ hwf₂ hl₂ fun t ↦ (hle t).trans (he₀₂.sizes_le t)).mono ?_
      exact fun _ s₃ ⟨hwf₃, he₃, hl₃⟩ ↦ ⟨hwf₃, he₀₂.trans he₃, hl₃⟩
    | _ => exact ⟨h₁.wf, he₁, hl₁⟩

/-- A new node with a vector. -/
theorem newStackAst_vector {F : Addr → Node D} (h : s.WF nlits typed)
    (haux : ∀ v, (F v).aux = some (.vector, v))
    (harray : ∀ v aType name w tb, F v = .array aType name w tb → tb.getD t = t) :
    Ensures (newStackAst t do return F (← newStackVector t [])) s fun r s' ↦
      Leads nlits typed s s' ∧ ∀ a ∈ r, Made nlits s.sizes (fun n ↦ ∃ v, n = F v) t s' a := by
  refine newStackAst_ensures h fun s₁ h₁ ↦ ?_
  refine Lib.meets_bind.2 ((newStackVector_ensures h₁ []).mono ?_)
  rintro v s₂ ⟨h₂, hspare, hv⟩
  refine ⟨h₂, fun tbl ht ↦ ⟨fun k c hc ↦ ?_, fun aType name w tb hn ↦ ?_, fun name m u hn ↦ ?_⟩,
    v, rfl⟩
  · cases (haux v).symm.trans hc
    exact hspare tbl ht
  · have hw := haux v
    rw [hn] at hw
    cases hw
    exact ⟨harray _ _ _ _ _ hn, hv tbl ht⟩
  · have hw := haux v
    rw [hn] at hw
    cases hw

/-- A new received struct. -/
theorem newStackAst_map (name : Str) (h : s.WF nlits typed) :
    Ensures (newStackAst t do return .varAdt name (← newStackMap t) true) s fun r s' ↦
      Leads nlits typed s s' ∧ ∀ a ∈ r, Placed nlits s.sizes t s' a ∧ ∃ m, Received a m name s' := by
  refine (newStackAst_ensures (P := fun n ↦ ∃ m, n = .varAdt name m true) h
    fun s₁ h₁ ↦ ?_).mono fun r s' ⟨h', hr⟩ ↦ ⟨h', fun a ha ↦ ?_⟩
  · refine Lib.meets_bind.2 ((newStackMap_ensures h₁).mono ?_)
    rintro m s₂ ⟨h₂, hspare, hm⟩
    refine ⟨h₂, fun tbl ht ↦ ⟨fun k c hc ↦ ?_, fun _ _ _ _ hn ↦ ?_, fun _ _ _ hn ↦ ?_⟩, m, rfl⟩
    · cases hc
      exact hspare tbl ht
    · cases hn
    · cases hn
      exact hm tbl ht
  · have hmade := hr a ha
    obtain ⟨tbl, _, ht, hn, ⟨m, rfl⟩, hfree, -⟩ := hmade.node
    refine ⟨hmade.placed ?_, m, tbl, hmade.table.symm ▸ ht, hn, hfree⟩
    rintro _ _ ⟨c, hc⟩
    cases hc

/-- What has been made in one step and filled in the next. -/
theorem placed_of_made {P : Node D → Prop} {s₁ s₂ : ParserState D} (h : Made nlits s.sizes P t s₁ a)
    (hstruct : ∀ name m, ¬ P (.varAdt name m false)) (h₂ : Leads nlits typed s₁ s₂) :
    Placed nlits s.sizes t s₂ a :=
  (h.placed hstruct).evolves h₂.evolves (h.placed hstruct).lt_sizes

/-- A received node with a vector, and what is placed there. -/
theorem place_vector {F : Addr → Node D} (haux : ∀ v, (F v).aux = some (.vector, v))
    (hpush : ∀ (l v : Addr) (s s' : ParserState D) (e : Addr), l.table = t → NodeAt s l (F v) →
      Leads nlits typed s s' → Placed nlits s.sizes t s' e →
        Ensures (pushBack v (.node e)) s' fun _ s'' ↦ Leads nlits typed s s'')
    {xs : List (Value D)} (hxs : ∀ x ∈ xs, Places nlits typed t x) {l : Addr}
    {s₁ : ParserState D} (h₁ : Leads nlits typed s s₁)
    (hl : Made nlits s.sizes (fun n ↦ ∃ v, n = F v) t s₁ l) {v : Addr} (hn : NodeAt s₁ l (F v)) :
    Ensures (do if ← placeVector t v xs then pure (Ptr.node l) else pure .empty) s₁ fun p s' ↦
      Leads nlits typed s s' ∧ ∀ a, p = .node a → Placed nlits s.sizes t s' a := by
  have hne : (F v).aux ≠ none := by simp [haux]
  refine Lib.meets_bind.2 ((placeVector_ensures hne (fun s s' e ↦ hpush l v s s' e hl.table) xs hxs
    s₁ h₁.wf hn).mono fun b s₂ h₂ ↦ ?_)
  refine Lib.meets_ite.2 ⟨fun _ ↦ ⟨h₁.trans h₂, ?_⟩, fun _ ↦ ⟨h₁.trans h₂, fun a ha ↦ by cases ha⟩⟩
  rintro _ ⟨⟩
  refine placed_of_made hl (fun name m ⟨w, hw⟩ ↦ ?_) h₂
  have hw' := haux w
  rw [← hw] at hw'
  cases hw'

theorem places_created {create : Interp D (Option Addr)} {K : Node D → Prop}
    (hcreate : Creates nlits typed create t K) (h : s.WF nlits typed) :
    Ensures (do return orEmpty (← create)) s fun p s' ↦
      Leads nlits typed s s' ∧ ∀ a, p = .node a → Placed nlits s.sizes t s' a := by
  refine Lib.meets_bind.2 ((hcreate s h).mono fun o s₁ ⟨h₁, ho⟩ ↦ ⟨h₁, fun a ha ↦ ?_⟩)
  cases o with
  | none => cases ha
  | some b =>
    obtain rfl := Ptr.node.inj ha
    exact (ho b rfl).placed

/-- **What has been received is placed.** -/
theorem places (x : Value D) : Places nlits typed t x := by
  have hempty : ∀ {s s' : ParserState D}, Leads nlits typed s s' → Leads nlits typed s s' ∧
      ∀ a, (Ptr.empty : Ptr) = .node a → Placed nlits s.sizes t s' a :=
    fun h ↦ ⟨h, fun a ha ↦ by cases ha⟩
  induction x using Value.ind with
  | empty =>
    intro s h
    rw [place]
    exact hempty (.refl h)
  | int i =>
    intro s h
    rw [place]
    exact places_created (creates_plain rfl) h
  | double d =>
    intro s h
    rw [place]
    exact places_created (creates_plain rfl) h
  | string y =>
    intro s h
    rw [place]
    exact places_created (creates_string y) h
  | array aType name xs ih =>
    intro s h
    rw [place]
    refine Lib.meets_bind.2 ((newStackAst_vector (F := fun v ↦ .array aType name v none) h
      (fun _ ↦ rfl) ?_).mono fun o s₁ ⟨h₁, ho⟩ ↦ ?_)
    -- the node names no table, so none that differs
    · rintro _ _ _ _ _ ⟨⟩
      rfl
    cases o with
    | none => exact hempty h₁
    | some l =>
      have hl := ho l rfl
      obtain ⟨tbl, _, ht, hn, ⟨v, rfl⟩, -⟩ := hl.node
      have hn : NodeAt s₁ l (.array aType name v none) := ⟨tbl, hl.table.symm ▸ ht, hn⟩
      refine Lib.meets_bind.2 ((runs_getNode (nodeAt_iff.1 hn)).meets ?_)
      refine place_vector (F := fun v ↦ .array aType name v none) (fun _ ↦ rfl) ?_ ih h₁ hl hn
      rintro l v s s' e rfl hn h he
      exact pushBack_placed hn h he
  | adt name fs ih =>
    intro s h
    rw [place]
    refine Lib.meets_bind.2 ((newStackAst_map name h).mono fun o s₁ ⟨h₁, ho⟩ ↦ ?_)
    cases o with
    | none => exact hempty h₁
    | some l =>
      obtain ⟨hl, m, tbl, ht, hn, hfree⟩ := ho l rfl
      obtain rfl := hl.table
      refine Lib.meets_bind.2 ((runs_getNode (nodeAt_iff.1 ⟨tbl, ht, hn⟩)).meets ?_)
      refine Lib.meets_bind.2 ((placeMap_ensures fs ih s₁ h₁.wf ⟨tbl, ht, hn, hfree⟩ hl.le
        h₁.evolves.sizes_le).mono fun b s₂ ⟨hwf₂, he₂, tbl₂, ht₂, hn₂, hfree₂⟩ ↦ ?_)
      have h₂ : Leads nlits typed s s₂ := ⟨hwf₂, h₁.evolves.trans he₂⟩
      -- the struct stays untyped: no definition is looked up for its name
      refine Lib.meets_ite.2 ⟨fun _ ↦ ⟨h₂, ?_⟩, fun _ ↦ hempty h₂⟩
      rintro _ ⟨⟩
      refine ⟨rfl, hl.le, hl.lit, tbl₂, _, ht₂, hn₂, hfree₂, fun name' m' hn' ↦ ?_⟩
      cases hn₂.symm.trans hn'
  | sep xs ih =>
    intro s h
    rw [place]
    refine Lib.meets_bind.2 ((newStackAst_vector (F := fun v ↦ .sep v) h (fun _ ↦ rfl) ?_).mono
      fun o s₁ ⟨h₁, ho⟩ ↦ ?_)
    · rintro _ _ _ _ _ ⟨⟩
    cases o with
    | none => exact hempty h₁
    | some l =>
      have hl := ho l rfl
      obtain ⟨tbl, _, ht, hn, ⟨v, rfl⟩, -⟩ := hl.node
      have hn : NodeAt s₁ l (.sep v) := ⟨tbl, hl.table.symm ▸ ht, hn⟩
      refine Lib.meets_bind.2 ((runs_getNode (nodeAt_iff.1 hn)).meets ?_)
      refine place_vector (F := fun v ↦ .sep v) (fun _ ↦ rfl) ?_ ih h₁ hl hn
      rintro l v s s' e - hn h -
      refine (pushBack_sep h.wf (hn.evolves_of_aux h.evolves (by simp [Node.aux])) _).mono ?_
      exact fun _ _ h' ↦ h.trans h'
  | other ty =>
    intro s h
    rw [place]
    exact hempty (.refl h)

theorem evalValue_readOnly (a : Addr) : Lib.ReadOnly (evalValue (D := D) a) := by
  refine (getNode_readOnly a).bind fun n ↦ ?_
  split
  · exact .pure _
  · exact .pure _

theorem loadParam_ensures (h : s.WF nlits typed) (param : Value D) :
    Ensures (loadParam param) s fun _ s' ↦ Leads nlits typed s s' := by
  refine Lib.meets_bind.2 ((places param s h).mono fun p s₁ ⟨h₁, _⟩ ↦ ?_)
  refine (nodeAt_readOnly p).then fun o ↦ ?_
  split
  · next v =>
    refine (getVector_readOnly v).then fun ps ↦ (Lib.ReadOnly.mapM (fun q ↦ ?_) ps s₁).mono ?_
    · refine (nodeAt_readOnly q).bind fun o ↦ ?_
      split
      · exact evalValue_readOnly _
      · exact .pure _
    · rintro _ _ rfl
      exact h₁
  · exact h₁

end Interp

/-! ### Declarations -/

namespace VarTable

/-- A new name. -/
theorem ptrAt_insert {tbl : VarTable D} {x : Str} {p r : Ptr} {q : Slot}
    (hr : { tbl with vMap := tbl.vMap.insert x p }.ptrAt q = some r) :
    tbl.ptrAt q = some r ∨ (q = .var x ∧ r = p) := by
  cases q with
  | elem m i => exact .inl hr
  | field m y => exact .inl hr
  | var y =>
    rw [ptrAt, Std.ExtTreeMap.getElem?_insert] at hr
    split at hr
    · next heq =>
      obtain rfl := Std.LawfulEqCmp.eq_of_compare heq
      exact .inr ⟨rfl, (Option.some.inj hr).symm⟩
    · exact .inl hr

/-- What a name can stand for that is no variable is no node. -/
theorem ptrAt_insertGlobal {tbl : VarTable D} {x : Str} {p : Ptr} {q : Slot} (hp : Global x p)
    (hq : { tbl with vMap := tbl.vMap.insert x p }.ptrAt q = some (.node a)) :
    tbl.ptrAt q = some (.node a) := by
  rcases ptrAt_insert hq with hq | ⟨-, rfl⟩
  · exact hq
  · cases hp

/-- A name gets a meaning other than a variable. -/
theorem WF.insertGlobal {defs : Str → Option AdtDef} {tbl : VarTable D} {x : Str} {p : Ptr}
    (h : tbl.WF nlits defs typed 0) (hp : Global x p) :
    { tbl with vMap := tbl.vMap.insert x p }.WF nlits defs typed 0 := by
  refine ⟨h.aux, h.aux_inj, h.varTable, fun q r hr ↦ ?_, fun q q' a hq hq' ↦ ?_⟩
  · rcases ptrAt_insert hr with hr | ⟨rfl, rfl⟩
    · refine (h.slot q r hr).imp_left fun ⟨a, ha, hchild⟩ ↦ ⟨a, ha, ?_⟩
      exact hchild.mono (.of_eq rfl) (lt_of_ptrAt hr) rfl fun _ _ hd ↦ hd
    · exact .inr ⟨rfl, x, rfl, hp⟩
  · exact h.slot_inj q q' a (ptrAt_insertGlobal hp hq) (ptrAt_insertGlobal hp hq')

end VarTable

namespace Interp

/-- What the declarations `ds` do to the state: a name that has a meaning keeps it, and what becomes
a function is one of them. -/
structure Declared (nlits : ℕ) (typed : Prop) (ds : List GlobalDecl) (s s' : ParserState D) : Prop where
  wf : s'.WF nlits typed
  varTable : s'.varTable = s.varTable
  var : ∀ (tbl : VarTable D) (x : Str) (p : Ptr), s.tables 0 = some tbl → tbl.vMap[x]? = some p →
    ∃ tbl', s'.tables 0 = some tbl' ∧ tbl'.vMap[x]? = some p
  func : ∀ (tbl' : VarTable D) (x : Str) (f : Func), s'.tables 0 = some tbl' →
    tbl'.vMap[x]? = some (.func f) →
      .func f ∈ ds ∨ ∃ tbl, s.tables 0 = some tbl ∧ tbl.vMap[x]? = some (.func f)

variable {ds ds' : List GlobalDecl} {s'' : ParserState D}

theorem Declared.of_leads (h : Leads nlits typed s s') : Declared nlits typed ds s s' where
  wf := h.wf
  varTable := h.evolves.varTable
  var tbl x p ht hp := by
    obtain ⟨tbl', ht', hkeeps⟩ := h.evolves.keeps 0 tbl ht
    exact ⟨tbl', ht', hkeeps.var x p hp⟩
  func tbl' x f ht' hf := by
    obtain ⟨tbl, ht, hkeeps⟩ := h.evolves.back ht'
    exact .inr ⟨tbl, ht, hkeeps.func x f hf⟩

theorem Declared.trans (h : Declared nlits typed ds s s') (h' : Declared nlits typed ds' s' s'') :
    Declared nlits typed (ds ++ ds') s s'' where
  wf := h'.wf
  varTable := h'.varTable.trans h.varTable
  var tbl x p ht hp := by
    obtain ⟨tbl', ht', hp'⟩ := h.var tbl x p ht hp
    exact h'.var tbl' x p ht' hp'
  func tbl'' x f ht'' hf := by
    rcases h'.func tbl'' x f ht'' hf with hmem | ⟨tbl', ht', hf'⟩
    · exact .inl (List.mem_append_right _ hmem)
    · exact (h.func tbl' x f ht' hf').imp_left (List.mem_append_left _)

/-- A definition that a name stands for stays. -/
theorem Declared.defs (h : Declared nlits typed ds s s') {x : Str} {d : AdtDef}
    (hd : s.defs x = some d) : s'.defs x = some d := by
  obtain ⟨tbl, ht, hp⟩ := defs_eq_some.1 hd
  obtain ⟨tbl', ht', hp'⟩ := h.var tbl x _ ht hp
  exact defs_eq_some.2 ⟨tbl', ht', hp'⟩

theorem Declared.funcTexts (hd : Declared nlits typed ds s s') (h : s.FuncTexts nlits)
    (hds : ∀ f, .func f ∈ ds → f.fNode.All (TextNode nlits)) : s'.FuncTexts nlits := by
  intro tbl' x f ht' hf
  rcases hd.func tbl' x f ht' hf with hmem | ⟨tbl, ht, hf⟩
  · exact hds f hmem
  · exact h tbl x f ht hf

/-- A name that has no meaning yet gets one, which is no variable. -/
theorem insertGlobal_ensures {x : Str} {p : Ptr} (h : s.WF nlits typed) (hp : Global x p)
    (hds : ∀ f, p = .func f → .func f ∈ ds) :
    Ensures (insert 0 x p) s fun _ s' ↦ Declared nlits typed ds s s' := by
  refine Lib.meets_bind.2 (getTable_ensures fun tbl ht ↦ Lib.meets_ite.2 ⟨fun _ ↦ ?_, fun hx ↦ ?_⟩)
  · exact .of_leads (.refl h)
  have hvar : ∀ (y : Str) (q : Ptr), tbl.vMap[y]? = some q → (tbl.vMap.insert x p)[y]? = some q := by
    intro y q hq
    rw [Std.ExtTreeMap.getElem?_insert]
    split
    · next heq =>
      obtain rfl := Std.LawfulEqCmp.eq_of_compare heq
      rw [Std.ExtTreeMap.contains_iff_mem, ← Std.ExtTreeMap.isSome_getElem?_iff_mem, hq] at hx
      exact absurd rfl hx
    · exact hq
  refine Lib.meets_bind.2 (Lib.meets_modify.2 (Lib.meets_pure.2 ⟨?_, rfl, fun tbl' y q ht' hq ↦ ?_,
    fun tbl' y f ht' hf ↦ ?_⟩))
  · exact h.withTable ht ((h.table 0 tbl ht).insertGlobal hp) rfl hvar (.of_eq rfl)
  · obtain rfl := Option.some.inj (ht.symm.trans ht')
    exact ⟨_, withTable_same, hvar y q hq⟩
  · obtain rfl := Option.some.inj (withTable_same.symm.trans ht')
    rcases ptrAt_insert (q := .var y) hf with hf | ⟨-, hf⟩
    · exact .inr ⟨tbl, ht, hf⟩
    · exact .inl (hds f hf.symm)

theorem declare_ensures (h : s.WF nlits typed) (d : GlobalDecl) :
    Ensures (declare (D := D) d) s fun _ s' ↦ Declared nlits typed [d] s s' := by
  have hafter : ∀ {s₁ : ParserState D}, Leads nlits typed s s₁ → ∀ {x p}, Global x p →
      (∀ f, p = .func f → .func f ∈ [d]) →
        Ensures (do let _ ← insert 0 x p) s₁ fun _ s' ↦ Declared nlits typed [d] s s' := by
    intro s₁ h₁ x p hp hd
    refine Lib.meets_bind.2 ((insertGlobal_ensures h₁.wf hp hd).mono fun _ s₂ h₂ ↦ ?_)
    have hleads : Declared nlits typed [] s s₁ := .of_leads h₁
    exact hleads.trans h₂
  cases d with
  | func f =>
    refine Lib.meets_bind.2 ((creates_plain rfl s h).mono fun o s₁ ⟨h₁, _⟩ ↦ ?_)
    cases o with
    | none => exact hafter h₁ .empty fun g hg ↦ by cases hg
    | some a =>
      refine hafter h₁ (.func f) fun g hg ↦ ?_
      rw [Ptr.func.inj hg]
      exact List.mem_singleton_self _
  | struct d => exact hafter (.refl h) (.adt d rfl) fun g hg ↦ by cases hg

theorem declareAll_ensures (ds : List GlobalDecl) (s : ParserState D) (h : s.WF nlits typed) :
    Ensures (declareAll ds) s fun _ s' ↦ Declared nlits typed ds s s' := by
  induction ds generalizing s with
  | nil => exact .of_leads (.refl h)
  | cons d ds ih =>
    refine Lib.meets_bind.2 ((declare_ensures h d).mono fun _ s₁ h₁ ↦ ?_)
    exact (ih s₁ h₁.wf).mono fun _ s₂ h₂ ↦ h₁.trans h₂

theorem loadText_ensures (n : ℕ) (s : ParserState D) (h : s.WF nlits typed) :
    Ensures (loadText n) s fun _ s' ↦ Leads nlits typed s s' := by
  induction n generalizing s with
  | zero => exact .refl h
  | succ n ih =>
    refine Lib.meets_bind.2 ((creates_plain rfl s h).mono fun _ s₁ ⟨h₁, _⟩ ↦ ?_)
    exact (ih s₁ h₁.wf).mono fun _ s₂ h₂ ↦ h₁.trans h₂

end Interp

/-! ### Literals -/

namespace ParserState

/-- There is only the global table, with nothing but `n` literals; `c` nodes have been counted. -/
structure Blank (n c : ℕ) (s : ParserState D) : Prop where
  varTable : s.varTable = [0]
  count : s.astAllocationCount = c
  table : ∃ tbl, s.tables 0 = some tbl ∧ tbl.vMap = ∅ ∧ tbl.vStackAst.length = n ∧
    ∀ m ∈ tbl.vStackAst, m.Scalar

theorem blank_new : (ParserState.new (D := D)).Blank 0 0 :=
  ⟨rfl, rfl, .new [], rfl, rfl, rfl, fun _ hm ↦ absurd hm List.not_mem_nil⟩

/-- Literals have no slots. -/
theorem ptrAt_blank {tbl : VarTable D} (hvMap : tbl.vMap = ∅)
    (hscalar : ∀ m ∈ tbl.vStackAst, m.Scalar) (p : Slot) : tbl.ptrAt p = none := by
  have hnode : ∀ (i : ℕ) (m : Node D), tbl.vStackAst[i]? = some m → m.Scalar := fun i m hm ↦
    hscalar m (List.mem_of_getElem? hm)
  cases p with
  | var x =>
    rw [ptrAt, hvMap]
    exact Std.ExtTreeMap.getElem?_empty
  | elem m i =>
    rw [ptrAt, elems]
    split
    · next hm => exact (hnode m _ hm).elim
    · rfl
  | field m k =>
    rw [ptrAt, fields]
    split
    · next hm => exact (hnode m _ hm).elim
    · exact Std.ExtTreeMap.getElem?_empty

/-- The literals are what the invariant says of them: no slot points to them. -/
theorem WF.of_blank {n c : ℕ} (h : s.WF 0 typed) (hblank : Blank n c s) : s.WF n typed := by
  obtain ⟨tbl, ht, hvMap, hlen, hscalar⟩ := hblank.table
  have htable : ∀ t tbl', s.tables t = some tbl' → t = 0 ∧ tbl' = tbl := by
    intro t tbl' ht'
    have hmem := (h.live t).1 ⟨tbl', ht'⟩
    rw [hblank.varTable] at hmem
    obtain rfl := List.mem_singleton.1 hmem
    exact ⟨rfl, Option.some.inj (ht'.symm.trans ht)⟩
  refine ⟨h.live, h.sorted, h.last, h.lt, h.prev, fun t tbl' ht' ↦ ?_, fun tbl' ht' i hi ↦ ?_⟩
  · obtain ⟨rfl, rfl⟩ := htable t tbl' ht'
    have hwf := h.table 0 tbl' ht'
    refine ⟨hwf.aux, hwf.aux_inj, hwf.varTable, fun p q hp ↦ ?_, hwf.slot_inj⟩
    exact absurd (hp.symm.trans (ptrAt_blank hvMap hscalar p)) (by simp)
  · obtain ⟨-, rfl⟩ := htable 0 tbl' ht'
    obtain ⟨m, hm⟩ : ∃ m, tbl'.vStackAst[i]? = some m :=
      ⟨_, List.getElem?_eq_getElem (hlen.symm ▸ hi)⟩
    exact ⟨m, hm, hscalar m (List.mem_of_getElem? hm)⟩

end ParserState

namespace Interp

/-- Another literal. -/
theorem newStackAst_blank {init : Interp D (Node D)} {n c : ℕ} (h : Blank n c s)
    (hlt : c < Value.MAX_AST_PER_STACK)
    (hinit : ∀ s₁ : ParserState D, Blank n (c + 1) s₁ →
      Ensures init s₁ fun m s₂ ↦ Blank n (c + 1) s₂ ∧ m.Scalar) :
    Ensures (newStackAst 0 init) s fun _ s' ↦ Blank (n + 1) (c + 1) s' := by
  have hcount : Blank n (c + 1) { s with astAllocationCount := s.astAllocationCount + 1 } :=
    ⟨h.varTable, congrArg (· + 1) h.count, h.table⟩
  refine Lib.meets_bind.2 (Lib.meets_bind.2 (Lib.meets_modify.2 ?_))
  refine Lib.meets_bind.2 (Lib.meets_get.2 (Lib.meets_pure.2 (Lib.meets_ite.2 ⟨fun _ ↦ ?_, ?_⟩)))
  · refine Lib.meets_bind.2 ((hinit _ hcount).mono fun m s₂ ⟨h₂, hm⟩ ↦ ?_)
    refine Lib.meets_bind.2 (getTable_ensures fun tbl ht ↦ Lib.meets_bind.2 ?_)
    obtain ⟨tbl', ht', hvMap, hlen, hscalar⟩ := h₂.table
    obtain rfl := Option.some.inj (ht.symm.trans ht')
    refine ⟨h₂.varTable, h₂.count, _, withTable_same, hvMap, ?_, ?_⟩
    · simp [hlen]
    · exact List.forall_mem_append.2 ⟨hscalar, List.forall_mem_singleton.2 hm⟩
  · intro hlimit
    have hle : s.astAllocationCount + 1 ≤ Value.MAX_AST_PER_STACK := by
      rw [h.count]
      exact hlt
    exact absurd (decide_eq_true hle) hlimit

theorem blank_getVarTable {α : Type} {f : TableId → Interp D α} {n c : ℕ}
    {Q : α → ParserState D → Prop} (h : Blank n c s) (hf : Ensures (f 0) s Q) :
    Ensures (do f (← getVarTable)) s Q := by
  refine Lib.meets_bind.2 (getVarTable_ensures fun t ts hts ↦ ?_)
  obtain ⟨rfl, -⟩ := List.cons.inj (h.varTable.symm.trans hts)
  exact hf

/-- The literals of the program. -/
theorem loadLiterals_ensures (ls : List (Literal D)) (n : ℕ) (s : ParserState D) (h : s.WF 0 typed)
    (hblank : Blank n n s) (hle : n + ls.length ≤ Value.MAX_AST_PER_STACK) :
    Ensures (loadLiterals ls) s fun _ s' ↦
      s'.WF 0 typed ∧ Blank (n + ls.length) (n + ls.length) s' := by
  induction ls generalizing n s with
  | nil => exact ⟨h, hblank⟩
  | cons l ls ih =>
    rw [List.length_cons] at hle ⊢
    have hlt : n < Value.MAX_AST_PER_STACK := by omega
    have hplain : ∀ m : Node D, m.Scalar → Ensures (newStackAst 0 (pure m)) s fun _ s' ↦
        Blank (n + 1) (n + 1) s' := fun m hm ↦
      newStackAst_blank hblank hlt fun s₁ h₁ ↦ ⟨h₁, hm⟩
    have hrest : ∀ {m : Interp D Ptr}, Yields 0 typed m s →
        Ensures m s (fun _ s' ↦ Blank (n + 1) (n + 1) s') →
          Ensures (do
            let _ ← m
            loadLiterals ls) s fun _ s' ↦ s'.WF 0 typed ∧
              Blank (n + (ls.length + 1)) (n + (ls.length + 1)) s' := by
      intro m hm hm'
      refine Lib.meets_bind.2 ((hm.and hm').mono ?_)
      rintro _ s₁ ⟨⟨h₁, -⟩, hblank₁⟩
      rw [← Nat.add_assoc, Nat.add_right_comm]
      exact ih (n + 1) s₁ h₁.wf hblank₁ (by omega)
    cases l with
    | int i =>
      refine hrest (mkInt_yields h i) (blank_getVarTable hblank (Lib.meets_bind.2 ?_))
      exact (hplain (.int i) trivial).mono fun _ _ h' ↦ h'
    | double d =>
      refine hrest (mkDouble_yields h d) (blank_getVarTable hblank (Lib.meets_bind.2 ?_))
      exact (hplain (.double d) trivial).mono fun _ _ h' ↦ h'
    | string y =>
      refine hrest (mkString_yields h y) (blank_getVarTable hblank (Lib.meets_bind.2 ?_))
      refine (newStackAst_blank hblank hlt fun s₁ h₁ ↦ ?_).mono fun _ _ h' ↦ h'
      refine Lib.meets_bind.2 (Lib.meets_bind.2 (getTable_ensures fun tbl ht ↦ Lib.meets_bind.2 ?_))
      obtain ⟨tbl', ht', hvMap, hlen, hscalar⟩ := h₁.table
      obtain rfl := Option.some.inj (ht.symm.trans ht')
      exact ⟨⟨h₁.varTable, h₁.count, _, withTable_same, hvMap, hlen, hscalar⟩, trivial⟩

end Interp

/-! ### Reachable states -/

/-- What the parser sees to: there is a node for each literal, and the nodes of a function are its
own text. The program has neither `rpc` nor `get_distance`. -/
structure Program.Parsed (program : Program D) : Prop where
  literals : program.literals.length ≤ Value.MAX_AST_PER_STACK
  text : ∀ f, .func f ∈ program.decls → f.fNode.All (TextNode program.literals.length)

variable [CDouble D] {program : Program D} {funcString : Str} {param : Value D} {m m₀ : Machine D}

theorem Interp.start_goes (h : program.Parsed) :
    Interp.Goes program.literals.length typed [0] [] (Interp.start program funcString param)
      ParserState.new := by
  have hload : Ensures (loadLiterals program.literals) .new fun _ s' ↦ s'.WF 0 typed ∧
      Blank (0 + program.literals.length) (0 + program.literals.length) s' := by
    refine loadLiterals_ensures _ 0 .new wf_new blank_new ?_
    rw [Nat.zero_add]
    exact h.literals
  refine Lib.meets_bind.2 (hload.mono ?_)
  rintro _ s₁ ⟨hwf, hblank⟩
  rw [Nat.zero_add] at hblank
  have hts := hblank.varTable
  have hwf := hwf.of_blank hblank
  refine Lib.meets_bind.2 ((loadText_ensures _ s₁ hwf).mono fun _ s₂ h₂ ↦ ?_)
  refine Lib.meets_bind.2 ((loadParam_ensures h₂.wf param).mono fun actual s₃ h₃ ↦ ?_)
  have h₃ := h₂.trans h₃
  -- before the declarations no name stands for a function
  have htexts₃ : s₃.FuncTexts program.literals.length := by
    intro tbl x f ht hf
    obtain ⟨tbl₁, ht₁, hkeeps⟩ := h₃.evolves.back ht
    obtain ⟨tbl', ht', hvMap, -⟩ := hblank.table
    obtain rfl := Option.some.inj (ht₁.symm.trans ht')
    have hnone := hkeeps.func x f hf
    rw [hvMap] at hnone
    exact absurd hnone (by simp)
  refine Lib.meets_bind.2 ((declareAll_ensures _ s₃ h₃.wf).mono fun _ s₄ h₄ ↦ ?_)
  have htexts₄ : s₄.FuncTexts program.literals.length := by
    refine h₄.funcTexts htexts₃ fun f hf ↦ ?_
    -- the structs `Node` and `Measurement` come first
    rcases List.mem_cons.1 hf with hf | hf
    · cases hf
    rcases List.mem_cons.1 hf with hf | hf
    · cases hf
    exact h.text f (List.mem_of_mem_drop hf)
  -- the machine starts with the table of the globals alone
  have hstack : Stacked program.literals.length [0] s₄ [] s₄.varTable := by
    rw [h₄.varTable, h₃.evolves.varTable, hts]
    exact .nil (List.mem_singleton_self _) htexts₄
  refine Lib.meets_bind.2 (Lib.meets_modify.2 ?_)
  have h₅ : Leads program.literals.length typed s₄ { s₄ with evalCount := INSTRUCTIONS_PER_IT } :=
    .of_tables h₄.wf rfl rfl rfl
  have hstack := hstack.preserves (.of_evolves h₅.evolves)
  rw [← h₅.evolves.varTable] at hstack
  have hwf₅ := h₅.wf
  clear h₅
  generalize ({ s₄ with evalCount := INSTRUCTIONS_PER_IT } : ParserState D) = s₅ at hstack hwf₅
  refine Lib.meets_bind.2 ((lookup_text hwf₅ hstack.funcTexts funcString).mono ?_)
  rintro o s₅ ⟨rfl, htext⟩
  split
  · next f =>
    refine Lib.meets_bind.2 ((createTmp_ensures f hwf₅).mono fun tmp s₆ ⟨h₆, htmp⟩ ↦ ?_)
    have hstack₆ := hstack.preserves (.of_evolves h₆.evolves)
    rw [← h₆.evolves.varTable] at hstack₆
    refine nextParam_goes actual 0 hstack₆ h₆.wf ⟨fun c hc ↦ ?_, fun q hq ↦ ?_⟩
    · rw [List.mem_singleton.1 hc]
      exact htext f rfl
    · rw [h₆.evolves.varTable]
      exact htmp q (by simpa [Frame.results] using hq)
  · exact goes_empty hstack (.refl hwf₅)

namespace Machine

theorem start_wf (h : program.Parsed) (hstart : start program funcString param = .ok m) :
    m.WF program.literals.length typed [0] := by
  rw [start] at hstart
  cases heq : Interp.start program funcString param .new with
  | error e =>
    rw [heq] at hstart
    cases hstart
  | ok r =>
    rw [heq] at hstart
    cases hstart
    exact (Interp.start_goes h).run heq

theorem step?_eq_some {host : Host D} {m' : Machine D} (h : m.step? host = some m') :
    m.step host = .ok m' := by
  rw [step?] at h
  split at h
  · next heq => rw [heq, Option.some.inj h]
  · cases h

/-- A run from a state that satisfies the invariant. Where `typed` is asked for, the two operands of
every `array_union` have elements of the same type. -/
theorem run_wf {hosts : List (Host D)} {nlits : ℕ} {base : List TableId} (h : m₀.WF nlits typed base)
    (hbase : base ≠ []) (hunion : Lib.AllSteps (fun m _ ↦ typed → m.UnionOk) step? m₀ hosts)
    (hrun : Lib.run step? m₀ hosts = some m) : m.WF nlits typed base :=
  Lib.run_invariant (fun _ host _ hm hunion hm' ↦ hm.step host hbase hunion (step?_eq_some hm'))
    h hunion hrun

/-- **The invariant holds in every reachable state.** -/
theorem Reachable.wf (h : program.Parsed) (hreach : Reachable program funcString param m) :
    m.WF program.literals.length False [0] := by
  obtain ⟨m₀, hosts, hstart, hrun⟩ := hreach
  refine run_wf (start_wf h hstart) (List.cons_ne_nil _ _) ?_ hrun
  exact .of_forall (fun _ _ htyped ↦ htyped.elim) _ _

end Machine

end Meridian.MQL

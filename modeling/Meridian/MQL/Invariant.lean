import Meridian.MQL.Heap
import Meridian.MQL.Start
import Meridian.Lib.Runs

/-!
# The invariant of the interpreter

`ParserState.WF`: the tables on the stack are the ones that exist, each sees only tables below it,
and each is well formed. `Evolves` is what a step does that creates and deletes no table, and
`Ensures` states what a piece of the interpreter does when it does not fail.

For each access to a cell there is a rule here; what is composed of them has its own in the modules
that follow.
-/

namespace Meridian.MQL

variable {D : Type}

namespace ParserState

/-- The struct that a name stands for. -/
def defs (s : ParserState D) (name : Str) : Option AdtDef :=
  match (s.tables 0).bind (·.vMap[name]?) with
  | some (.adt d) => some d
  | _ => none

/-- How many nodes each table has. -/
def sizes (s : ParserState D) (t : TableId) : ℕ :=
  match s.tables t with
  | some tbl => tbl.vStackAst.length
  | none => 0

/-- The state of the interpreter. `nlits` is the number of the literals, and `typed` says whether the
elements of arrays are of the right types. -/
structure WF (nlits : ℕ) (typed : Prop) (s : ParserState D) : Prop where
  live : ∀ t, (∃ tbl, s.tables t = some tbl) ↔ t ∈ s.varTable
  sorted : s.varTable.Pairwise (· > ·)
  last : s.varTable.getLast? = some 0
  lt : ∀ t ∈ s.varTable, t < s.nextTable
  prev : ∀ t tbl, s.tables t = some tbl → ∀ t' ∈ tbl.prevVarTable, t' ∈ s.varTable ∧ t' < t
  table : ∀ t tbl, s.tables t = some tbl → tbl.WF nlits s.defs typed t
  lits : ∀ tbl, s.tables 0 = some tbl →
    ∀ i < nlits, ∃ n : Node D, tbl.vStackAst[i]? = some n ∧ n.Scalar

/-- What a step may do that neither creates nor deletes a table. `k` is as in `VarTable.Keeps`, for
each table. -/
structure Evolves (k : TableId → ℕ) (s s' : ParserState D) : Prop where
  varTable : s'.varTable = s.varTable
  nextTable : s'.nextTable = s.nextTable
  keeps : ∀ t tbl, s.tables t = some tbl →
    ∃ tbl', s'.tables t = some tbl' ∧ tbl.Keeps (k t) tbl'
  none : ∀ t, s.tables t = none → s'.tables t = none

variable {nlits : ℕ} {typed : Prop} {k : TableId → ℕ} {s s' s'' : ParserState D} {t : TableId}
  {tbl tbl' : VarTable D}

/-- The nodes of a table that is there. -/
theorem sizes_eq (h : s.tables t = some tbl) : s.sizes t = tbl.vStackAst.length := by
  rw [sizes, h]

/-- Nothing happens. -/
theorem Evolves.refl (k : TableId → ℕ) (s : ParserState D) : Evolves k s s :=
  ⟨rfl, rfl, fun _ tbl h ↦ ⟨tbl, h, .refl ..⟩, fun _ h ↦ h⟩

/-- One step after the other. -/
theorem Evolves.trans (h : Evolves k s s') (h' : Evolves k s' s'') : Evolves k s s'' where
  varTable := h'.varTable.trans h.varTable
  nextTable := h'.nextTable.trans h.nextTable
  keeps t tbl ht := by
    obtain ⟨tbl', ht', hkeeps⟩ := h.keeps t tbl ht
    obtain ⟨tbl'', ht'', hkeeps'⟩ := h'.keeps t tbl' ht'
    exact ⟨tbl'', ht'', hkeeps.trans hkeeps'⟩
  none t ht := h'.none t (h.none t ht)

/-- What keeps more nodes keeps fewer. -/
theorem Evolves.of_le {k' : TableId → ℕ} (hle : ∀ t, k' t ≤ k t) (h : Evolves k s s') :
    Evolves k' s s' := by
  refine ⟨h.varTable, h.nextTable, fun t tbl ht ↦ ?_, h.none⟩
  obtain ⟨tbl', ht', hkeeps⟩ := h.keeps t tbl ht
  exact ⟨tbl', ht', hkeeps.of_le (hle t)⟩

/-- No node is lost. -/
theorem Evolves.sizes_le (h : Evolves k s s') (t : TableId) : s.sizes t ≤ s'.sizes t := by
  cases ht : s.tables t with
  | none =>
    rw [sizes, ht]
    exact Nat.zero_le _
  | some tbl =>
    obtain ⟨tbl', ht', hkeeps⟩ := h.keeps t tbl ht
    rw [sizes_eq ht, sizes_eq ht']
    exact hkeeps.nodes.length_le

/-- The steps of a computation, one after the other. -/
theorem Evolves.then (h : Evolves s.sizes s s') (h' : Evolves s'.sizes s' s'') :
    Evolves s.sizes s s'' :=
  h.trans (h'.of_le h.sizes_le)

/-- A table that is there afterwards was there before. -/
theorem Evolves.back (h : Evolves k s s') (ht : s'.tables t = some tbl') :
    ∃ tbl, s.tables t = some tbl ∧ tbl.Keeps (k t) tbl' := by
  cases ht₀ : s.tables t with
  | none => exact absurd ((h.none t ht₀).symm.trans ht) (by simp)
  | some tbl =>
    obtain ⟨tbl'', ht'', hkeeps⟩ := h.keeps t tbl ht₀
    obtain rfl := Option.some.inj (ht''.symm.trans ht)
    exact ⟨tbl, rfl, hkeeps⟩

/-- A struct is defined if the global table has its name for a definition. -/
theorem defs_eq_some {name : Str} {d : AdtDef} :
    s.defs name = some d ↔ ∃ tbl, s.tables 0 = some tbl ∧ tbl.vMap[name]? = some (.adt d) := by
  rw [defs]
  cases s.tables 0 with
  | none => simp
  | some tbl =>
    simp only [Option.bind_some, Option.some.injEq, exists_eq_left']
    cases tbl.vMap[name]? with
    | none => simp
    | some p => cases p <;> simp

/-- Definitions stay. -/
theorem Evolves.defs (h : Evolves k s s') {name : Str} {d : AdtDef} (hd : s.defs name = some d) :
    s'.defs name = some d := by
  obtain ⟨tbl, ht, hp⟩ := defs_eq_some.1 hd
  obtain ⟨tbl', ht', hkeeps⟩ := h.keeps 0 tbl ht
  exact defs_eq_some.2 ⟨tbl', ht', hkeeps.var _ _ hp⟩

/-- The structs stay as they are. -/
theorem Evolves.defs_eq (h : Evolves k s s') (name : Str) : s'.defs name = s.defs name := by
  refine Option.ext fun d ↦ ⟨fun hd ↦ ?_, h.defs⟩
  obtain ⟨tbl', ht', hp⟩ := defs_eq_some.1 hd
  obtain ⟨tbl, ht, hkeeps⟩ := h.back ht'
  exact defs_eq_some.2 ⟨tbl, ht, hkeeps.other _ _ hp (by simp)⟩

/-- `setTable`. -/
def withTable (s : ParserState D) (t : TableId) (tbl : VarTable D) : ParserState D :=
  { s with tables := Function.update s.tables t (some tbl) }

/-- The table that is written. -/
@[simp] theorem withTable_same : (s.withTable t tbl).tables t = some tbl := Function.update_self ..

/-- The other tables stay. -/
theorem withTable_of_ne {t' : TableId} (h : t' ≠ t) : (s.withTable t tbl).tables t' = s.tables t' :=
  Function.update_of_ne h ..

/-- A step in one table. -/
theorem Evolves.withTable (ht : s.tables t = some tbl) (hkeeps : tbl.Keeps (k t) tbl') :
    Evolves k s (s.withTable t tbl') := by
  refine ⟨rfl, rfl, fun t' tbl₀ ht' ↦ ?_, fun t' ht' ↦ ?_⟩ <;> by_cases heq : t' = t
  · subst heq
    obtain rfl := Option.some.inj (ht.symm.trans ht')
    exact ⟨tbl', withTable_same, hkeeps⟩
  · exact ⟨tbl₀, (withTable_of_ne heq).trans ht', .refl ..⟩
  · subst heq
    exact absurd (ht.symm.trans ht') (by simp)
  · exact (withTable_of_ne heq).trans ht'

/-- Definitions stay, while the names do. -/
theorem defs_withTable (ht : s.tables t = some tbl)
    (hvar : ∀ (x : Str) (p : Ptr), tbl.vMap[x]? = some p → tbl'.vMap[x]? = some p) {name : Str}
    {d : AdtDef} (hd : s.defs name = some d) : (s.withTable t tbl').defs name = some d := by
  obtain ⟨tbl₀, ht₀, hp⟩ := defs_eq_some.1 hd
  by_cases heq : 0 = t
  · subst heq
    obtain rfl := Option.some.inj (ht.symm.trans ht₀)
    exact defs_eq_some.2 ⟨tbl', withTable_same, hvar _ _ hp⟩
  · exact defs_eq_some.2 ⟨tbl₀, (withTable_of_ne heq).trans ht₀, hp⟩

/-- The table may have more names than before, of functions too. -/
theorem WF.withTable (h : s.WF nlits typed) (ht : s.tables t = some tbl)
    (hwf : tbl'.WF nlits s.defs typed t) (hprev : tbl'.prevVarTable = tbl.prevVarTable)
    (hvar : ∀ (x : Str) (p : Ptr), tbl.vMap[x]? = some p → tbl'.vMap[x]? = some p)
    (hnodes : tbl.SameNodes tbl') : (s.withTable t tbl').WF nlits typed := by
  have hcases : ∀ t' tbl₀, (s.withTable t tbl').tables t' = some tbl₀ →
      (t' = t ∧ tbl₀ = tbl') ∨ (t' ≠ t ∧ s.tables t' = some tbl₀) := by
    intro t' tbl₀ ht'
    by_cases heq : t' = t
    · subst heq
      exact .inl ⟨rfl, (Option.some.inj (withTable_same.symm.trans ht')).symm⟩
    · exact .inr ⟨heq, (withTable_of_ne heq).symm.trans ht'⟩
  refine ⟨fun t' ↦ ?_, h.sorted, h.last, h.lt, fun t' tbl₀ ht' ↦ ?_, fun t' tbl₀ ht' ↦ ?_,
    fun tbl₀ ht' i hi ↦ ?_⟩
  · refine Iff.trans ⟨fun ⟨tbl₀, ht'⟩ ↦ ?_, fun ⟨tbl₀, ht'⟩ ↦ ?_⟩ (h.live t')
    · rcases hcases t' tbl₀ ht' with ⟨rfl, -⟩ | ⟨-, ht'⟩
      · exact ⟨tbl, ht⟩
      · exact ⟨tbl₀, ht'⟩
    · by_cases heq : t' = t
      · exact ⟨tbl', heq ▸ withTable_same⟩
      · exact ⟨tbl₀, (withTable_of_ne heq).trans ht'⟩
  · rcases hcases t' tbl₀ ht' with ⟨rfl, rfl⟩ | ⟨-, ht'⟩
    · rw [hprev]
      exact h.prev t' tbl ht
    · exact h.prev t' tbl₀ ht'
  · rcases hcases t' tbl₀ ht' with ⟨rfl, rfl⟩ | ⟨-, ht'⟩
    · exact hwf.defs_mono fun _ _ ↦ defs_withTable ht hvar
    · exact (h.table t' tbl₀ ht').defs_mono fun _ _ ↦ defs_withTable ht hvar
  · rcases hcases 0 tbl₀ ht' with ⟨rfl, rfl⟩ | ⟨-, ht'⟩
    · obtain ⟨n, hn, hscalar⟩ := h.lits tbl ht i hi
      obtain ⟨n', hn', hkind⟩ := hnodes i n hn
      exact ⟨n', hn', hkind.scalar.2 hscalar⟩
    · exact h.lits tbl₀ ht' i hi

/-- At the start there is the global table, and nothing in it. -/
theorem wf_new : (ParserState.new (D := D)).WF 0 typed := by
  have htable : ∀ t tbl, (ParserState.new (D := D)).tables t = some tbl → t = 0 ∧ tbl = .new [] := by
    intro t tbl ht
    by_cases heq : t = 0
    · subst heq
      exact ⟨rfl, (Option.some.inj ht).symm⟩
    · simp [ParserState.new, Function.update_of_ne heq] at ht
  refine ⟨fun t ↦ ?_, List.pairwise_singleton .., rfl, ?_, fun t tbl ht t' ht' ↦ ?_,
    fun t tbl ht ↦ ?_, fun _ _ _ hi ↦ absurd hi (Nat.not_lt_zero _)⟩
  · refine ⟨fun ⟨tbl, ht⟩ ↦ List.mem_singleton.2 (htable t tbl ht).1, fun ht ↦ ?_⟩
    obtain rfl := List.mem_singleton.1 ht
    exact ⟨_, rfl⟩
  · exact List.forall_mem_singleton.2 Nat.one_pos
  · obtain ⟨-, rfl⟩ := htable t tbl ht
    exact absurd ht' List.not_mem_nil
  · obtain ⟨-, rfl⟩ := htable t tbl ht
    exact .new []

end ParserState

/-! ### Reading -/

/-- If the computation does not fail, its result and the state then satisfy `Q`. -/
abbrev Ensures {α : Type} (m : Interp D α) (s : ParserState D) (Q : α → ParserState D → Prop) :
    Prop :=
  Lib.Meets (fun _ ↦ True) m s Q

namespace Interp

variable {s : ParserState D} {α : Type}

/-- A table that has been popped faults. -/
theorem getTable_ensures {t : TableId} {Q : VarTable D → ParserState D → Prop}
    (hQ : ∀ tbl, s.tables t = some tbl → Q tbl s) : Ensures (getTable t) s Q := by
  simp only [getTable, Lib.meets_bind, Lib.meets_get]
  split
  · next tbl ht => exact hQ tbl ht
  · exact trivial

/-- A cell that is not there faults. -/
theorem cell_ensures {l : List α} {i : ℕ} {Q : α → ParserState D → Prop}
    (hQ : ∀ x, l[i]? = some x → Q x s) : Ensures (cell l i) s Q := by
  rw [cell]
  split
  · next x hx => exact hQ x hx
  · exact trivial

/-- The node at an address. -/
def NodeAt (s : ParserState D) (a : Addr) (n : Node D) : Prop :=
  ∃ tbl, s.tables a.table = some tbl ∧ tbl.vStackAst[a.index]? = some n

/-- The node is the one at its place. -/
theorem getNode_ensures {a : Addr} {Q : Node D → ParserState D → Prop}
    (hQ : ∀ n, NodeAt s a n → Q n s) : Ensures (getNode a) s Q := by
  refine Lib.meets_bind.2 ?_
  exact getTable_ensures fun tbl ht ↦ cell_ensures fun n hn ↦ hQ n ⟨tbl, ht, hn⟩

/-- The elements that the array has. -/
theorem getVector_ensures {a : Addr} {Q : List Ptr → ParserState D → Prop}
    (hQ : ∀ v tbl, s.tables a.table = some tbl → tbl.vStackVector[a.index]? = some v → Q v s) :
    Ensures (getVector a) s Q := by
  refine Lib.meets_bind.2 ?_
  exact getTable_ensures fun tbl ht ↦ cell_ensures fun v hv ↦ hQ v tbl ht hv

/-- The fields that the struct has. -/
theorem getMap_ensures {a : Addr} {Q : StrMap Ptr → ParserState D → Prop}
    (hQ : ∀ m tbl, s.tables a.table = some tbl → tbl.vStackMap[a.index]? = some m → Q m s) :
    Ensures (getMap a) s Q := by
  refine Lib.meets_bind.2 ?_
  exact getTable_ensures fun tbl ht ↦ cell_ensures fun m hm ↦ hQ m tbl ht hm

/-- A pointer to a node, or one to none. The null pointer faults. -/
theorem nodeAt_ensures {p : Ptr} {Q : Option (Addr × Node D) → ParserState D → Prop}
    (hsome : ∀ a n, p = .node a → NodeAt s a n → Q (some (a, n)) s)
    (hnone : p ≠ .null → (∀ a, p ≠ .node a) → Q none s) : Ensures (nodeAt p) s Q := by
  cases p with
  | null => exact trivial
  | node a =>
    simp only [nodeAt, Lib.meets_bind, Lib.meets_pure]
    exact getNode_ensures fun n hn ↦ hsome a n rfl hn
  | _ => exact hnone (by simp) (by simp)

/-- The type tag behind a pointer. -/
inductive TypeIs (s : ParserState D) : Ptr → ASTType → Prop
  | node (a : Addr) (n : Node D) (h : NodeAt s a n) : TypeIs s (.node a) n.type
  | empty : TypeIs s .empty .emptyType
  | breakToken : TypeIs s .breakToken .breakType
  | continueToken : TypeIs s .continueToken .continueType
  | returnNode : TypeIs s .returnNode .returnType
  | func (f : Func) : TypeIs s (.func f) .funcCallType
  | adt (d : AdtDef) : TypeIs s (.adt d) .adtType

/-- The type is the one of what the pointer leads to. -/
theorem typeOf_ensures {p : Ptr} {Q : ASTType → ParserState D → Prop}
    (hQ : ∀ ty, TypeIs s p ty → Q ty s) : Ensures (typeOf p) s Q := by
  cases p with
  | null => exact trivial
  | node a =>
    simp only [typeOf, Lib.meets_bind, Lib.meets_pure]
    exact getNode_ensures fun n hn ↦ hQ _ (.node a n hn)
  | empty => exact hQ _ .empty
  | breakToken => exact hQ _ .breakToken
  | continueToken => exact hQ _ .continueToken
  | returnNode => exact hQ _ .returnNode
  | func f => exact hQ _ (.func f)
  | adt d => exact hQ _ (.adt d)

/-- The table at the top. -/
theorem getVarTable_ensures {Q : TableId → ParserState D → Prop}
    (hQ : ∀ t ts, s.varTable = t :: ts → Q t s) : Ensures getVarTable s Q := by
  simp only [getVarTable, Lib.meets_bind, Lib.meets_get]
  split
  · next t ts hts => exact hQ t ts hts
  · exact trivial

/-- The name is found in one of the tables, or in none. -/
theorem lookupIn_ensures {x : Str} {ts : List TableId} {Q : Option Ptr → ParserState D → Prop}
    (hsome : ∀ p, ∀ t ∈ ts, ∀ tbl, s.tables t = some tbl → tbl.vMap[x]? = some p → Q (some p) s)
    (hnone : Q none s) : Ensures (lookupIn x ts) s Q := by
  induction ts with
  | nil => exact hnone
  | cons t ts ih =>
    refine Lib.meets_bind.2 (getTable_ensures fun tbl ht ↦ ?_)
    split
    · next p hp => exact hsome p t (by simp) tbl ht hp
    · exact ih fun p t' ht' ↦ hsome p t' (List.mem_cons_of_mem _ ht')

end Interp

/-! ### Allocation -/

namespace ParserState

variable {nlits : ℕ} {typed : Prop} {k : TableId → ℕ} {s s' s'' : ParserState D} {t : TableId}
  {tbl : VarTable D} {P K : Node D → Prop} {a : Addr}

/-- What a piece of the interpreter leaves behind that creates and deletes no table. -/
structure Leads (nlits : ℕ) (typed : Prop) (s s' : ParserState D) : Prop where
  wf : s'.WF nlits typed
  evolves : Evolves s.sizes s s'

/-- Nothing happens. -/
theorem Leads.refl (h : s.WF nlits typed) : Leads nlits typed s s := ⟨h, .refl ..⟩

/-- One step after the other. -/
theorem Leads.trans (h : Leads nlits typed s s') (h' : Leads nlits typed s' s'') :
    Leads nlits typed s s'' :=
  ⟨h'.wf, h.evolves.then h'.evolves⟩

/-- Only the tables count. -/
theorem Leads.of_tables (h : s.WF nlits typed) (htables : s'.tables = s.tables)
    (hvarTable : s'.varTable = s.varTable) (hnext : s'.nextTable = s.nextTable) :
    Leads nlits typed s s' := by
  have hdefs : s'.defs = s.defs := by
    funext name
    rw [defs, defs, htables]
  refine ⟨⟨fun t ↦ ?_, ?_, ?_, ?_, ?_, ?_, ?_⟩, hvarTable, hnext, fun t tbl ht ↦ ?_, fun t ht ↦ ?_⟩
  · rw [htables, hvarTable]
    exact h.live t
  · exact hvarTable ▸ h.sorted
  · exact hvarTable ▸ h.last
  · rw [hvarTable, hnext]
    exact h.lt
  · rw [htables, hvarTable]
    exact h.prev
  · rw [htables, hdefs]
    exact h.table
  · rw [htables]
    exact h.lits
  · exact ⟨tbl, htables ▸ ht, .refl ..⟩
  · exact htables ▸ ht

/-- The literals of the program are in the global table. -/
theorem WF.nlits_le (h : s.WF nlits typed) (ht : s.tables t = some tbl) :
    t = 0 → nlits ≤ tbl.vStackAst.length := by
  rintro rfl
  by_contra hlt
  obtain ⟨n, hn, -⟩ := h.lits tbl ht tbl.vStackAst.length (Nat.lt_of_not_le hlt)
  rw [List.getElem?_eq_none (le_refl _)] at hn
  exact absurd hn (by simp)

/-- The node is new, with nothing in it, and in no slot. -/
structure Made (nlits : ℕ) (k : TableId → ℕ) (P : Node D → Prop) (t : TableId)
    (s : ParserState D) (a : Addr) : Prop where
  table : a.table = t
  le : k t ≤ a.index
  lit : t = 0 → nlits ≤ a.index
  node : ∃ tbl n, s.tables t = some tbl ∧ tbl.vStackAst[a.index]? = some n ∧ P n ∧
    tbl.Unheld a ∧ ∀ p : Slot, p.parent = some a.index → tbl.ptrAt p = none

/-- The node is new, a value of the kind `K`, and in no slot. -/
structure Fresh (nlits : ℕ) (k : TableId → ℕ) (K : Node D → Prop) (t : TableId)
    (s : ParserState D) (a : Addr) : Prop where
  table : a.table = t
  le : k t ≤ a.index
  lit : t = 0 → nlits ≤ a.index
  node : ∃ tbl n, s.tables t = some tbl ∧ tbl.vStackAst[a.index]? = some n ∧ n.Own ∧ K n ∧
    tbl.Unheld a ∧ tbl.Whole s.defs a.index

/-- A node other than a struct is a value at once. -/
theorem Made.fresh (h : Made nlits k P t s a) (hK : ∀ n, P n → n.Own ∧ K n)
    (hstruct : ∀ name m, ¬ P (.varAdt name m false)) : Fresh nlits k K t s a := by
  obtain ⟨tbl, n, ht, hn, hP, hfree, -⟩ := h.node
  refine ⟨h.table, h.le, h.lit, tbl, n, ht, hn, (hK n hP).1, (hK n hP).2, hfree, ?_⟩
  intro name m hn'
  obtain rfl := Option.some.inj (hn.symm.trans hn')
  exact absurd hP (hstruct name m)

/-- What is new since a state is new since an older one. -/
theorem Fresh.of_le {k' : TableId → ℕ} (h : Fresh nlits k K t s a) (hle : ∀ t, k' t ≤ k t) :
    Fresh nlits k' K t s a :=
  ⟨h.table, (hle t).trans h.le, h.lit, h.node⟩

/-- Less about the kind of the node. -/
theorem Fresh.imp {K' : Node D → Prop} (h : Fresh nlits k K t s a) (hK : ∀ n, K n → K' n) :
    Fresh nlits k K' t s a := by
  obtain ⟨tbl, n, ht, hn, hown, hKn, hfree, hwhole⟩ := h.node
  exact ⟨h.table, h.le, h.lit, tbl, n, ht, hn, hown, hK n hKn, hfree, hwhole⟩

/-- The node is in its table. -/
theorem Fresh.lt_sizes (h : Fresh nlits k K t s a) : a.index < s.sizes t := by
  obtain ⟨tbl, n, ht, hn, -⟩ := h.node
  rw [sizes_eq ht]
  exact (List.getElem?_eq_some_iff.1 hn).1

/-- The kind does not say which number a node holds. -/
def Stable (K : Node D → Prop) : Prop := ∀ n n', Node.SameKind n n' → K n → K n'

/-- A new node stays new if it is among those that the step keeps. -/
theorem Fresh.evolves {k' : TableId → ℕ} (h : Fresh nlits k K t s a) (hK : Stable K)
    (he : Evolves k' s s') (hlt : a.index < k' t) : Fresh nlits k K t s' a := by
  obtain ⟨tbl, n, ht, hn, hown, hKn, hfree, hwhole⟩ := h.node
  obtain ⟨tbl', ht', hkeeps⟩ := he.keeps t tbl ht
  obtain ⟨n', hn', hkind⟩ := hkeeps.nodes _ n hn
  exact ⟨h.table, h.le, h.lit, tbl', n', ht', hn', hkind.own.2 hown, hK n n' hkind hKn,
    hkeeps.unheld hlt hfree, hwhole.mono (List.getElem?_eq_some_iff.1 hn).1 hkeeps.nodes
      (hkeeps.fields_eq hlt) fun _ _ ↦ he.defs⟩

/-- The node can be allocated: its cell belongs to no other node, and there is nothing in it. -/
def Ready (t : TableId) (n : Node D) (s : ParserState D) : Prop :=
  ∀ tbl, s.tables t = some tbl →
    (∀ k c, n.aux = some (k, c) → c.table = t ∧ c.index < tbl.size k ∧
      ∀ (i : ℕ) (m : Node D), tbl.vStackAst[i]? = some m → m.aux ≠ some (k, c)) ∧
    (∀ aType name v tb, n = .array aType name v tb →
      tb.getD t = t ∧ tbl.vStackVector[v.index]? = some []) ∧
    ∀ name m u, n = .varAdt name m u → tbl.vStackMap[m.index]? = some ∅

end ParserState

namespace Interp

open ParserState

variable {nlits : ℕ} {typed : Prop} {s : ParserState D} {t : TableId}

/-- A table is written to, so that its own invariant holds and it keeps the nodes that it has to. -/
theorem setTable_ensures {tbl tbl' : VarTable D} {k : TableId → ℕ}
    {Q : Unit → ParserState D → Prop} (h : s.WF nlits typed) (ht : s.tables t = some tbl)
    (hwf : tbl'.WF nlits s.defs typed t) (hkeeps : tbl.Keeps (k t) tbl')
    (hQ : (s.withTable t tbl').WF nlits typed → Evolves k s (s.withTable t tbl') →
      Q () (s.withTable t tbl')) : Ensures (setTable t tbl') s Q :=
  hQ (h.withTable ht hwf hkeeps.prev hkeeps.var hkeeps.nodes) (.withTable ht hkeeps)

/-- The cell belongs to no node. -/
def Spare (t : TableId) (k : Store) (c : Addr) (s : ParserState D) : Prop :=
  ∀ tbl, s.tables t = some tbl → c.table = t ∧ c.index < tbl.size k ∧
    ∀ (i : ℕ) (m : Node D), tbl.vStackAst[i]? = some m → m.aux ≠ some (k, c)

/-- A table with another cell of one kind. -/
theorem newCell_ensures {tbl : VarTable D} (tbl' : VarTable D) (k : Store) (h : s.WF nlits typed)
    (ht : s.tables t = some tbl) (hast : tbl'.vStackAst = tbl.vStackAst)
    (hprev : tbl'.prevVarTable = tbl.prevVarTable) (hslot : ∀ p, tbl'.ptrAt p = tbl.ptrAt p)
    (hsize : ∀ k', tbl.size k' ≤ tbl'.size k') (hlt : tbl.size k < tbl'.size k) :
    Ensures (setTable t tbl') s fun _ s' ↦ Leads nlits typed s s' ∧ s'.tables t = some tbl' ∧
      Spare t k ⟨t, tbl.size k⟩ s' := by
  have hwf : tbl'.WF nlits s.defs typed t :=
    (h.table t tbl ht).congr (.of_eq hast) (congrArg _ hast) hsize (fun p q hp ↦ hslot p ▸ hp)
      fun n ↦ VarTable.fields_eq_of_ptrAt fun k ↦ hslot _
  refine setTable_ensures (k := s.sizes) h ht hwf
    (.of_ptrAt_eq hprev (.of_eq hast) hslot) fun hwf' he ↦ ?_
  refine ⟨⟨hwf', he⟩, withTable_same, fun tbl₀ ht₀ ↦ ?_⟩
  obtain rfl := Option.some.inj (withTable_same.symm.trans ht₀)
  refine ⟨rfl, hlt, fun i m hm haux ↦ ?_⟩
  exact lt_irrefl _ ((h.table t tbl ht).aux i m k _ (hast ▸ hm) haux).2

/-- A new text belongs to no node yet. -/
theorem newStackString_ensures (h : s.WF nlits typed) (x : Str) :
    Ensures (newStackString t x) s fun c s' ↦ Leads nlits typed s s' ∧ Spare t .string c s' := by
  refine Lib.meets_bind.2 (getTable_ensures fun tbl ht ↦ Lib.meets_bind.2 ?_)
  refine (newCell_ensures { tbl with vStackString := tbl.vStackString ++ [x] } .string
    h ht rfl rfl (VarTable.ptrAt_congr (.of_eq rfl) rfl rfl
    (fun _ _ _ _ _ _ ↦ rfl) fun _ _ _ _ _ ↦ rfl) ?_ ?_).mono fun _ s' hs' ↦ ⟨hs'.1, hs'.2.2⟩
  · rintro ⟨⟩ <;> simp [VarTable.size]
  · simp [VarTable.size]

/-- A new vector belongs to no node yet. -/
theorem newStackVector_ensures (h : s.WF nlits typed) (v : List Ptr) :
    Ensures (newStackVector t v) s fun c s' ↦ Leads nlits typed s s' ∧ Spare t .vector c s' ∧
      ∀ tbl, s'.tables t = some tbl → tbl.vStackVector[c.index]? = some v := by
  refine Lib.meets_bind.2 (getTable_ensures fun tbl ht ↦ Lib.meets_bind.2 ?_)
  refine (newCell_ensures { tbl with vStackVector := tbl.vStackVector ++ [v] } .vector
    h ht rfl rfl (VarTable.ptrAt_congr (.of_eq rfl) rfl rfl
    (fun n aType name c tb hn ↦ ?_) fun _ _ _ _ _ ↦ rfl) ?_ ?_).mono fun _ s' hs' ↦ ?_
  · exact List.getElem?_append_left ((h.table t tbl ht).aux n _ .vector c hn rfl).2
  · rintro ⟨⟩ <;> simp [VarTable.size]
  · simp [VarTable.size]
  · refine ⟨hs'.1, hs'.2.2, fun tbl₀ ht₀ ↦ ?_⟩
    obtain rfl := Option.some.inj (hs'.2.1.symm.trans ht₀)
    exact List.getElem?_concat_length

/-- A new map belongs to no node yet. -/
theorem newStackMap_ensures (h : s.WF nlits typed) :
    Ensures (newStackMap t) s fun c s' ↦ Leads nlits typed s s' ∧ Spare t .map c s' ∧
      ∀ tbl, s'.tables t = some tbl → tbl.vStackMap[c.index]? = some ∅ := by
  refine Lib.meets_bind.2 (getTable_ensures fun tbl ht ↦ Lib.meets_bind.2 ?_)
  refine (newCell_ensures { tbl with vStackMap := tbl.vStackMap ++ [∅] } .map h ht rfl rfl
    (VarTable.ptrAt_congr (.of_eq rfl) rfl rfl (fun _ _ _ _ _ _ ↦ rfl) fun n name c u hn ↦ ?_)
      ?_ ?_).mono fun _ s' hs' ↦ ?_
  · exact List.getElem?_append_left ((h.table t tbl ht).aux n _ .map c hn rfl).2
  · rintro ⟨⟩ <;> simp [VarTable.size]
  · simp [VarTable.size]
  · refine ⟨hs'.1, hs'.2.2, fun tbl₀ ht₀ ↦ ?_⟩
    obtain rfl := Option.some.inj (hs'.2.1.symm.trans ht₀)
    exact List.getElem?_concat_length

/-- The nodes are counted. No table changes. -/
theorem newAst_ensures (h : s.WF nlits typed) :
    Ensures newAst s fun _ s' ↦ Leads nlits typed s s' :=
  Lib.meets_bind.2 (Leads.of_tables h rfl rfl rfl)

/-- `new_stack_ast`. -/
theorem newStackAst_ensures {init : Interp D (Node D)} {P : Node D → Prop} (h : s.WF nlits typed)
    (hinit : ∀ s₁ : ParserState D, s₁.WF nlits typed →
      Ensures init s₁ fun n s' ↦ Leads nlits typed s₁ s' ∧ Ready t n s' ∧ P n) :
    Ensures (newStackAst t init) s fun r s' ↦ Leads nlits typed s s' ∧
      ∀ a ∈ r, Made nlits s.sizes P t s' a := by
  refine Lib.meets_bind.2 ((newAst_ensures h).mono fun b s₁ h₁ ↦ Lib.meets_ite.2 ⟨fun _ ↦ ?_, ?_⟩)
  swap
  · exact fun _ ↦ ⟨h₁, fun a ha ↦ absurd ha (by simp)⟩
  refine Lib.meets_bind.2 ((hinit s₁ h₁.wf).mono fun n s₂ ⟨h₂, hready, hP⟩ ↦ ?_)
  refine Lib.meets_bind.2 (getTable_ensures fun tbl ht ↦ Lib.meets_bind.2 ?_)
  obtain ⟨haux, hvector, hmap⟩ := hready tbl ht
  have hslot (p : Slot) :
      { tbl with vStackAst := tbl.vStackAst ++ [n] }.ptrAt p = tbl.ptrAt p :=
    VarTable.ptrAt_append (fun aType name v tb hn ↦ (hvector _ _ _ _ hn).2) hmap p
  have hwf : VarTable.WF nlits s₂.defs _ t
      { tbl with vStackAst := tbl.vStackAst ++ [n] } :=
    (h₂.wf.table t tbl ht).grow rfl (fun _ ↦ le_refl _) haux
      (fun aType name v t' hn ↦ (hvector _ _ _ _ hn).1) hslot
  have hnodes : tbl.SameNodes { tbl with vStackAst := tbl.vStackAst ++ [n] } := fun i m hm ↦
    ⟨m, (List.getElem?_append_left (List.getElem?_eq_some_iff.1 hm).1).trans hm, .refl m⟩
  refine setTable_ensures (k := s₂.sizes) h₂.wf ht hwf (.of_ptrAt_eq rfl hnodes hslot) fun hwf' he ↦ ?_
  have hle : s.sizes t ≤ tbl.vStackAst.length := by
    rw [← sizes_eq ht]
    exact (h₁.trans h₂).evolves.sizes_le t
  refine ⟨(h₁.trans h₂).trans ⟨hwf', he⟩, fun a ha ↦ ?_⟩
  obtain rfl := Option.some.inj ha
  refine ⟨rfl, hle, h₂.wf.nlits_le ht, _, n, withTable_same, List.getElem?_concat_length, hP, ?_, ?_⟩
  · intro p hp
    obtain ⟨m, hm, -⟩ := ((h₂.wf.table t tbl ht).child ((hslot p).symm.trans hp)).live
    exact absurd (List.getElem?_eq_some_iff.1 hm).1 (lt_irrefl _)
  · intro p hp
    rw [hslot]
    by_contra hne
    obtain ⟨q, hq⟩ := Option.ne_none_iff_exists'.1 hne
    exact lt_irrefl _ (VarTable.lt_of_ptrAt hq _ hp)

/-! ### Writing -/

/-- A node stays at its place. -/
theorem NodeAt.evolves {k : TableId → ℕ} {s' : ParserState D} {a : Addr} {n : Node D}
    (h : NodeAt s a n) (he : Evolves k s s') : ∃ n', NodeAt s' a n' ∧ n.SameKind n' := by
  obtain ⟨tbl, ht, hn⟩ := h
  obtain ⟨tbl', ht', hkeeps⟩ := he.keeps _ tbl ht
  obtain ⟨n', hn', hkind⟩ := hkeeps.nodes _ n hn
  exact ⟨n', ⟨tbl', ht', hn'⟩, hkind⟩

/-- Arrays and structs stay what they are. -/
theorem NodeAt.evolves_of_aux {k : TableId → ℕ} {s' : ParserState D} {a : Addr} {n : Node D}
    (h : NodeAt s a n) (he : Evolves k s s') (haux : n.aux ≠ none) : NodeAt s' a n := by
  obtain ⟨n', hn', hkind⟩ := h.evolves he
  cases hkind with
  | refl => exact hn'
  | int => exact absurd rfl haux
  | double => exact absurd rfl haux

/-- A node is overwritten with one of its kind. -/
theorem setNode_ensures {a : Addr} {n n' : Node D} (h : s.WF nlits typed) (hn : NodeAt s a n)
    (hkind : n.SameKind n') : Ensures (setNode a n') s fun _ s' ↦ Leads nlits typed s s' := by
  obtain ⟨tbl, ht, hn⟩ := hn
  refine Lib.meets_bind.2 (getTable_ensures fun tbl' ht' ↦ Lib.meets_bind.2 ?_)
  obtain rfl := Option.some.inj (ht.symm.trans ht')
  refine cell_ensures fun _ _ ↦ ?_
  have hnodes : tbl.SameNodes { tbl with vStackAst := tbl.vStackAst.set a.index n' } := by
    intro i m hm
    by_cases hi : a.index = i
    · subst hi
      obtain rfl := Option.some.inj (hn.symm.trans hm)
      exact ⟨n', List.getElem?_set_self (List.getElem?_eq_some_iff.1 hn).1, hkind⟩
    · exact ⟨m, (List.getElem?_set_ne hi).trans hm, .refl m⟩
  have hslot := VarTable.ptrAt_congr hnodes (by simp) rfl (fun _ _ _ _ _ _ ↦ rfl) fun _ _ _ _ _ ↦ rfl
  refine setTable_ensures (k := s.sizes) h ht ?_ (.of_ptrAt_eq rfl hnodes hslot) fun hwf he ↦ ⟨hwf, he⟩
  exact (h.table _ tbl ht).congr hnodes (by simp) (fun _ ↦ le_refl _) (fun p q hp ↦ hslot p ▸ hp)
    fun n ↦ VarTable.fields_eq_of_ptrAt fun k ↦ hslot _

/-- The text of a string is overwritten. -/
theorem setString_ensures {a : Addr} (h : s.WF nlits typed) (x : Str) :
    Ensures (setString a x) s fun _ s' ↦ Leads nlits typed s s' := by
  refine Lib.meets_bind.2 (getTable_ensures fun tbl ht ↦ Lib.meets_bind.2 ?_)
  refine cell_ensures fun _ _ ↦ ?_
  refine setTable_ensures (k := s.sizes) h ht ?_ (.of_ptrAt_eq rfl (.of_eq rfl) fun _ ↦ rfl)
    fun hwf he ↦ ⟨hwf, he⟩
  refine (h.table _ tbl ht).congr (.of_eq rfl) rfl ?_ (fun p q hp ↦ hp) fun n ↦ rfl
  rintro ⟨⟩ <;> simp [VarTable.size]

/-- An array loses entries at its end. -/
theorem setVector_ensures {l c : Addr} {aType : UInt32} {name : Option Str} {tb : Option TableId}
    {v : List Ptr} (h : s.WF nlits typed) (hl : NodeAt s l (.array aType name c tb))
    (hv : ∀ v' tbl, s.tables l.table = some tbl → tbl.vStackVector[c.index]? = some v' → v <+: v') :
    Ensures (setVector c v) s fun _ s' ↦ Leads nlits typed s s' := by
  obtain ⟨tbl, ht, hn⟩ := hl
  have hwf := h.table _ tbl ht
  obtain ⟨hc, -⟩ := hwf.aux _ _ .vector c hn rfl
  refine Lib.meets_bind.2 (getTable_ensures fun tbl' ht' ↦ Lib.meets_bind.2 ?_)
  obtain rfl := Option.some.inj (ht.symm.trans (hc ▸ ht'))
  refine cell_ensures fun v' hv' ↦ ?_
  have hprefix : v <+: tbl.elems l.index := by
    rw [VarTable.elems_eq hn, hv', Option.getD_some]
    exact hv v' tbl ht hv'
  have hslot : ∀ p q, ({ tbl with vStackVector := tbl.vStackVector.set c.index v } :
      VarTable D).ptrAt p = some q → tbl.ptrAt p = some q := by
    intro p q hp
    cases p with
    | var x => exact hp
    | field m k => exact hp
    | elem m i =>
      rw [VarTable.ptrAt, VarTable.elems_setVector hwf hn] at hp
      split at hp
      · next heq =>
        obtain ⟨w, hw⟩ := hprefix
        rw [VarTable.ptrAt, heq, ← hw,
          List.getElem?_append_left (List.getElem?_eq_some_iff.1 hp).1, hp]
      · exact hp
  rw [hc]
  refine setTable_ensures (k := s.sizes) h ht ?_
    ⟨rfl, fun _ _ hp ↦ hp, fun _ _ hp _ ↦ hp, .of_eq rfl, fun _ _ _ ↦ rfl,
      fun p a _ hp ↦ ⟨p, hslot p _ hp⟩⟩
    fun hwf he ↦ ⟨hwf, he⟩
  refine hwf.congr (.of_eq rfl) rfl ?_ hslot fun n ↦ rfl
  rintro ⟨⟩ <;> simp [VarTable.size]

/-- What a slot is to be given: a node of the same table that is in no slot. -/
structure CanHold (nlits : ℕ) (typed : Prop) (s : ParserState D) (t : TableId) (p : Slot) (e : Addr) :
    Prop where
  child : ∀ tbl, s.tables t = some tbl → tbl.Child nlits s.defs typed t p e
  free : ∀ tbl, s.tables t = some tbl → tbl.Unheld e

/-- A slot of an older node can hold a new one. -/
theorem CanHold.of_fresh {k : TableId → ℕ} {K : Node D → Prop} {p : Slot} {e : Addr}
    (h : Fresh nlits k K t s e) (hparent : ∀ n ∈ p.parent, n < e.index)
    (htype : typed → ∀ n i aType name v t', p = .elem n i →
      NodeAt s ⟨t, n⟩ (.array aType name v (some t')) → ∀ m, K m → m.HasElemType aType name) :
    CanHold nlits typed s t p e := by
  obtain ⟨tbl, n, ht, hn, hown, hKn, hfree, hwhole⟩ := h.node
  have heq : ∀ tbl', s.tables t = some tbl' → tbl' = tbl := fun tbl' ht' ↦
    Option.some.inj (ht'.symm.trans ht)
  refine ⟨fun tbl' ht' ↦ ?_, fun tbl' ht' ↦ heq tbl' ht' ▸ hfree⟩
  obtain rfl := heq tbl' ht'
  refine ⟨h.table, h.lit, hparent, ⟨n, hn, fun _ ↦ hown⟩, ?_, hwhole⟩
  intro htyped m i aType name v t' hp hm
  exact ⟨n, hn, htype htyped m i aType name v t' hp ⟨tbl', ht', hm⟩ n hKn⟩

/-- A step that lets a slot point to a node. -/
theorem insertSlot_ensures {tbl : VarTable D} (tbl' : VarTable D) {k : TableId → ℕ} (p₀ : Slot)
    {e : Addr} (h : s.WF nlits typed)
    (ht : s.tables t = some tbl) (hast : tbl'.vStackAst = tbl.vStackAst)
    (hprev : tbl'.prevVarTable = tbl.prevVarTable) (hsize : ∀ k, tbl.size k ≤ tbl'.size k)
    (hslot : ∀ p, tbl'.ptrAt p = if p = p₀ then some (.node e) else tbl.ptrAt p)
    (hold : CanHold nlits typed s t p₀ e) (hle : k t ≤ e.index)
    (hvar : ∀ x, p₀ = .var x → tbl.vMap[x]? = none)
    (hfield : ∀ n x, p₀ = .field n x → tbl.Unheld ⟨t, n⟩ ∧ k t ≤ n) :
    Ensures (setTable t tbl') s fun _ s' ↦ s'.WF nlits typed ∧ Evolves k s s' ∧
      s'.tables t = some tbl' := by
  have hwf := (h.table t tbl ht).insertSlot hast hsize hslot (hold.free tbl ht)
    (fun n x hp ↦ (hfield n x hp).1) (hold.child tbl ht)
  refine setTable_ensures h ht hwf ?_ fun hwf' he ↦ ⟨hwf', he, withTable_same⟩
  refine ⟨hprev, fun x p hp ↦ ?_, fun x p hp hne ↦ ?_, .of_eq hast, fun n x hn ↦ ?_,
    fun p a ha hp ↦ ?_⟩
  · rw [show tbl'.vMap[x]? = _ from hslot (.var x), if_neg]
    · exact hp
    · intro hx
      exact absurd ((hvar x hx.symm).symm.trans hp) (by simp)
  · -- what the slot gets is a node
    rw [show tbl'.vMap[x]? = _ from hslot (.var x)] at hp
    split at hp
    · exact absurd (Option.some.inj hp).symm (hne e)
    · exact hp
  · rw [hslot, if_neg]
    intro hx
    exact absurd (hfield n x hx.symm).2 (Nat.not_le.2 hn)
  · rw [hslot] at hp
    split at hp
    · obtain rfl := Ptr.node.inj (Option.some.inj hp)
      exact absurd hle (Nat.not_le.2 ha)
    · exact ⟨p, hp⟩

/-- `push_back`. -/
theorem pushBack_ensures {k : TableId → ℕ} {l c e : Addr} {aType : UInt32} {name : Option Str}
    {tb : Option TableId} (h : s.WF nlits typed) (hl : NodeAt s l (.array aType name c tb))
    (hold : ∀ i, CanHold nlits typed s l.table (.elem l.index i) e) (hle : k l.table ≤ e.index) :
    Ensures (pushBack c (.node e)) s fun _ s' ↦ s'.WF nlits typed ∧ Evolves k s s' := by
  obtain ⟨tbl, ht, hn⟩ := hl
  have hwf := h.table _ tbl ht
  obtain ⟨hc, -⟩ := hwf.aux _ _ .vector c hn rfl
  refine Lib.meets_bind.2 (getVector_ensures fun v tbl' ht' hv ↦ Lib.meets_bind.2 ?_)
  obtain rfl := Option.some.inj (ht.symm.trans (hc ▸ ht'))
  refine getTable_ensures fun tbl' ht' ↦ Lib.meets_bind.2 (cell_ensures fun _ _ ↦ ?_)
  obtain rfl := Option.some.inj (ht.symm.trans (hc ▸ ht'))
  have helems : tbl.elems l.index = v := by rw [VarTable.elems_eq hn, hv, Option.getD_some]
  rw [hc]
  refine (insertSlot_ensures
    { tbl with vStackVector := tbl.vStackVector.set c.index (v ++ [.node e]) }
    (.elem l.index v.length) h ht rfl rfl ?_ ?_ (hold _) hle (fun _ hp ↦ by cases hp)
    fun _ _ hp ↦ by cases hp).mono fun _ s' hs' ↦ ⟨hs'.1, hs'.2.1⟩
  · rintro ⟨⟩ <;> simp [VarTable.size]
  · intro p
    cases p with
    | var x => rfl
    | field m x => rfl
    | elem m i =>
      rw [VarTable.ptrAt, VarTable.elems_setVector hwf hn]
      by_cases hm : m = l.index
      · subst hm
        rw [if_pos rfl, VarTable.ptrAt, helems, List.getElem?_append]
        rcases lt_trichotomy i v.length with hi | hi | hi
        · rw [if_pos hi, if_neg (by simp; omega)]
        · rw [if_neg (by omega), if_pos (by rw [hi]), hi, Nat.sub_self]
          rfl
        · rw [if_neg (by omega), if_neg (by simp; omega), List.getElem?_eq_none (by simp; omega),
            List.getElem?_eq_none (by omega)]
      · rw [if_neg hm, if_neg (by simp [hm])]
        rfl

/-- A struct under construction gets a field. -/
theorem setMap_ensures {k : TableId → ℕ} {l c e : Addr} {name x : Str} {u : Bool}
    {adtMap : StrMap Ptr} {tbl : VarTable D} (h : s.WF nlits typed)
    (ht : s.tables l.table = some tbl) (hn : tbl.vStackAst[l.index]? = some (.varAdt name c u))
    (hm : tbl.vStackMap[c.index]? = some adtMap) (hfree : tbl.Unheld l)
    (hold : CanHold nlits typed s l.table (.field l.index x) e) (hle : k l.table ≤ l.index) :
    Ensures (setMap c (adtMap.insert x (.node e))) s fun _ s' ↦
      s'.WF nlits typed ∧ Evolves k s s' ∧ ∃ tbl', s'.tables l.table = some tbl' ∧
        ∀ p, tbl'.ptrAt p = if p = .field l.index x then some (.node e) else tbl.ptrAt p := by
  have hwf := h.table _ tbl ht
  obtain ⟨hc, -⟩ := hwf.aux _ _ .map c hn rfl
  have hlt := (hold.child tbl ht).parent l.index rfl
  refine Lib.meets_bind.2 (getTable_ensures fun tbl' ht' ↦ Lib.meets_bind.2 ?_)
  obtain rfl := Option.some.inj (ht.symm.trans (hc ▸ ht'))
  refine cell_ensures fun _ _ ↦ ?_
  have hfields : tbl.fields l.index = adtMap := by rw [VarTable.fields_eq hn, hm, Option.getD_some]
  -- only the place of the field changes
  have hslot : ∀ p, ({ tbl with
      vStackMap := tbl.vStackMap.set c.index (adtMap.insert x (.node e)) } : VarTable D).ptrAt p =
        if p = .field l.index x then some (.node e) else tbl.ptrAt p := by
    intro p
    cases p with
    | var x => rfl
    | elem m i => rfl
    | field m y =>
      rw [VarTable.ptrAt, VarTable.fields_setMap hwf hn]
      by_cases hm : m = l.index
      · subst hm
        rw [if_pos rfl, Std.ExtTreeMap.getElem?_insert, VarTable.ptrAt, hfields]
        by_cases hxy : x = y
        · simp [hxy]
        · rw [if_neg (by simpa using hxy), if_neg (by simpa using Ne.symm hxy)]
      · rw [if_neg hm, if_neg (by simp [hm])]
        rfl
  rw [hc]
  refine (insertSlot_ensures
    { tbl with vStackMap := tbl.vStackMap.set c.index (adtMap.insert x (.node e)) }
    (.field l.index x) h ht rfl rfl ?_ hslot hold
    (hle.trans (le_of_lt hlt)) (fun _ hp ↦ by cases hp) fun n y hp ↦ ?_).mono
      fun _ s' hs' ↦ ⟨hs'.1, hs'.2.1, _, hs'.2.2, hslot⟩
  · rintro ⟨⟩ <;> simp [VarTable.size]
  · cases hp
    exact ⟨hfree, hle⟩

/-- A new variable. -/
theorem insert_ensures {k : TableId → ℕ} {K : Node D → Prop} {x : Str} {a : Addr}
    (h : s.WF nlits typed) (ha : Fresh nlits k K t s a) :
    Ensures (insert t x (.node a)) s fun _ s' ↦ s'.WF nlits typed ∧ Evolves k s s' := by
  refine Lib.meets_bind.2 (getTable_ensures fun tbl ht ↦ Lib.meets_ite.2 ⟨fun _ ↦ ?_, fun hx ↦ ?_⟩)
  · exact ⟨h, .refl ..⟩
  have hx : tbl.vMap[x]? = none := by
    rwa [Std.ExtTreeMap.contains_iff_mem, ← Std.ExtTreeMap.isSome_getElem?_iff_mem, Bool.not_eq_true,
      Option.isSome_eq_false_iff, Option.isNone_iff_eq_none] at hx
  have hold : CanHold nlits typed s t (.var x) a :=
    .of_fresh ha (fun n hn ↦ by cases hn) fun _ n i _ _ _ _ hp ↦ by cases hp
  refine Lib.meets_bind.2 ((insertSlot_ensures { tbl with vMap := tbl.vMap.insert x (.node a) }
    (.var x) h ht rfl rfl (fun _ ↦ le_refl _) ?_ hold ha.le ?_ fun _ _ hp ↦ by cases hp).mono
      fun _ s' hs' ↦ ⟨hs'.1, hs'.2.1⟩)
  · intro p
    cases p with
    | elem m i => rfl
    | field m y => rfl
    | var y =>
      rw [VarTable.ptrAt, Std.ExtTreeMap.getElem?_insert]
      by_cases hxy : x = y
      · simp [hxy]
      · rw [if_neg (by simpa using hxy), if_neg (by simpa using Ne.symm hxy)]
        rfl
  · rintro y ⟨⟩
    exact hx

end Interp

end Meridian.MQL

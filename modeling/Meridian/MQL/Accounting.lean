import Meridian.MQL.HeapSteps

/-!
# The allocation counter

`ASTAllocationCount` is meant to be the number of the nodes that the tables on the stack own:
`new_ast` counts a node, `remove_AST_context` of a deleted table subtracts what the table owned.
But `new_ast` counts before it compares, and an allocation that it refuses stays counted, although
no table gets a node. So the counter is the number of the nodes plus the number of the refusals, and
what a refusal has taken is not given back when tables are deleted.

`Counts k` is the invariant: all live tables are on the stack, each once, and the counter is `k`
above the number of the nodes that they own.
-/

namespace Meridian.MQL

open Lib

variable {D : Type} {s s' : ParserState D}

namespace ParserState

/-- The number of the nodes that the tables on the stack own. -/
def owned (s : ParserState D) : ℕ := (s.varTable.map s.sizes).sum

/-- `new_ast` gives NULL. -/
def Refuses (s : ParserState D) : Prop := ∃ s', Runs Interp.newAst s false s'

/-- The counter says how many nodes are owned, and an allocation is refused just if that many
are. -/
def Accounted (s : ParserState D) : Prop :=
  s.astAllocationCount = s.owned ∧ (s.Refuses ↔ Value.MAX_AST_PER_STACK ≤ s.owned)

theorem refuses_iff : s.Refuses ↔ Value.MAX_AST_PER_STACK ≤ s.astAllocationCount := by
  simp only [Refuses, Interp.newAst, bind_pure_comp, runs_bind, runs_modify, runs_map, runs_get,
    decide_eq_false_iff_not, not_le, ↓existsAndEq, true_and, exists_eq_left', exists_const]
  exact Nat.lt_succ_iff

theorem sizes_congr {t : TableId} (h : s'.tables t = s.tables t) : s'.sizes t = s.sizes t := by
  rw [sizes, sizes, h]

/-- What an operation does that neither pushes nor pops a table: each table gets `k` more nodes. -/
structure Grows (k : TableId → ℕ) (s s' : ParserState D) : Prop where
  varTable : s'.varTable = s.varTable
  nextTable : s'.nextTable = s.nextTable
  live : ∀ t, s'.tables t = none ↔ s.tables t = none
  sizes : ∀ t, s'.sizes t = s.sizes t + k t

theorem Grows.refl (s : ParserState D) : Grows 0 s s :=
  ⟨rfl, rfl, fun _ ↦ Iff.rfl, fun _ ↦ rfl⟩

theorem Grows.of_tables (hts : s'.varTable = s.varTable) (hnext : s'.nextTable = s.nextTable)
    (htables : s'.tables = s.tables) : Grows 0 s s' := by
  refine ⟨hts, hnext, fun t ↦ by rw [htables], fun t ↦ ?_⟩
  exact sizes_congr (congrFun htables t)

theorem Grows.trans {s'' : ParserState D} {k k' : TableId → ℕ} (h : Grows k s s')
    (h' : Grows k' s' s'') : Grows (k + k') s s'' := by
  refine ⟨h'.varTable.trans h.varTable, h'.nextTable.trans h.nextTable,
    fun t ↦ (h'.live t).trans (h.live t), fun t ↦ ?_⟩
  rw [h'.sizes, h.sizes, Pi.add_apply, add_assoc]

end ParserState

open ParserState

namespace Interp

/-- One table is written to. -/
theorem setTable_grows {t : TableId} {tbl tbl' : VarTable D} (n : ℕ) (ht : s.tables t = some tbl)
    (hlen : tbl'.vStackAst.length = tbl.vStackAst.length + n) :
    Ensures (setTable t tbl') s fun _ s' ↦ Grows (Pi.single t n) s s' ∧
      s'.astAllocationCount = s.astAllocationCount := by
  refine ⟨⟨rfl, rfl, fun t' ↦ ?_, fun t' ↦ ?_⟩, rfl⟩
  · show Function.update s.tables t (some tbl') t' = none ↔ _
    by_cases heq : t' = t
    · subst heq
      simp [ht]
    · rw [Function.update_of_ne heq]
  · by_cases heq : t' = t
    · subst heq
      rw [Pi.single_eq_same, sizes_eq ht, sizes_eq (Function.update_self ..), hlen]
    · rw [Pi.single_eq_of_ne heq]
      exact sizes_congr (Function.update_of_ne heq ..)

/-- A write to a table that gets no node. -/
theorem setTable_same {t : TableId} {tbl tbl' : VarTable D} (ht : s.tables t = some tbl)
    (hlen : tbl'.vStackAst.length = tbl.vStackAst.length) :
    Ensures (setTable t tbl') s fun _ s' ↦ Grows 0 s s' ∧
      s'.astAllocationCount = s.astAllocationCount := by
  have h := setTable_grows 0 ht hlen
  rwa [Pi.single_zero] at h

/-- The operations that write to a cell. -/
theorem setCell_same {α : Type} {t : TableId} {i : ℕ} {stack : VarTable D → List α}
    {write : VarTable D → VarTable D}
    (hlen : ∀ tbl, (write tbl).vStackAst.length = tbl.vStackAst.length) :
    Ensures (do
      let tbl ← getTable t
      let _ ← cell (stack tbl) i
      setTable t (write tbl)) s fun _ s' ↦ Grows 0 s s' ∧
        s'.astAllocationCount = s.astAllocationCount := by
  refine meets_bind.2 (getTable_ensures fun tbl ht ↦ meets_bind.2 (cell_ensures fun x _ ↦ ?_))
  exact setTable_same ht (hlen tbl)

/-- The ones that allocate a string, a vector or a map. -/
theorem newCell_same {t : TableId} {write : VarTable D → VarTable D}
    {addr : VarTable D → Addr}
    (hlen : ∀ tbl, (write tbl).vStackAst = tbl.vStackAst) :
    Ensures (do
      let tbl ← getTable t
      setTable t (write tbl)
      pure (addr tbl)) s fun _ s' ↦ Grows 0 s s' ∧
        s'.astAllocationCount = s.astAllocationCount := by
  refine meets_bind.2 (getTable_ensures fun tbl ht ↦ meets_bind.2 ?_)
  exact setTable_same ht (congrArg List.length (hlen tbl))

theorem newNode_same (t : TableId) (n : NewNode D) :
    Ensures (n.init t) s fun _ s' ↦ Grows 0 s s' ∧
      s'.astAllocationCount = s.astAllocationCount := by
  cases n with
  | plain n => exact ⟨.refl s, rfl⟩
  | string x => exact meets_bind.2 (newCell_same fun _ ↦ rfl)
  | vector v node => exact meets_bind.2 (newCell_same fun _ ↦ rfl)
  | map node => exact meets_bind.2 (newCell_same fun _ ↦ rfl)

/-- **`new_stack_ast`.** A node is counted, and given to the table unless it is refused. -/
theorem newStackAst_grows (t : TableId) (n : NewNode D) :
    Ensures (newStackAst t (n.init t)) s fun _ s' ↦
      s'.astAllocationCount = s.astAllocationCount + 1 ∧
      (s.astAllocationCount < Value.MAX_AST_PER_STACK →
        s.tables t ≠ none ∧ Grows (Pi.single t 1) s s') ∧
      (Value.MAX_AST_PER_STACK ≤ s.astAllocationCount → Grows 0 s s') := by
  refine meets_bind.2 (meets_bind.2 ?_)
  have h₁ : Grows 0 s { s with astAllocationCount := s.astAllocationCount + 1 } :=
    .of_tables rfl rfl rfl
  refine meets_ite.2 ⟨fun hle ↦ ?_, fun hgt ↦ ?_⟩
  · have hle : s.astAllocationCount + 1 ≤ Value.MAX_AST_PER_STACK := of_decide_eq_true hle
    refine meets_bind.2 ((newNode_same t n).mono fun _ s₂ h₂ ↦ meets_bind.2 ?_)
    refine getTable_ensures fun tbl ht ↦ meets_bind.2 ?_
    refine (setTable_grows 1 ht List.length_append).mono fun _ s₃ h₃ ↦ ⟨?_, fun _ ↦ ⟨?_, ?_⟩, ?_⟩
    · rw [h₃.2, h₂.2]
    · intro hnone
      have hnone := (h₂.1.live t).2 ((h₁.live t).2 hnone)
      rw [ht] at hnone
      cases hnone
    · have h := (h₁.trans h₂.1).trans h₃.1
      rwa [zero_add, zero_add] at h
    · intro hge
      omega
  · have hgt : ¬ s.astAllocationCount + 1 ≤ Value.MAX_AST_PER_STACK := fun hle ↦
      hgt (decide_eq_true hle)
    exact ⟨rfl, fun hlt ↦ absurd hlt (by omega), fun _ ↦ h₁⟩

end Interp

/-! ### What an operation does -/

namespace HeapOp

/-- The operation is a `new_stack_ast`. -/
def allocates : HeapOp D → Bool
  | newStackAst _ _ => true
  | _ => false

/-- The operation is not an allocation that is refused. -/
abbrev Granted (s : ParserState D) (op : HeapOp D) : Prop :=
  op.allocates = true → s.astAllocationCount < Value.MAX_AST_PER_STACK

/-- What an operation does to the tables and to the counter. -/
inductive Effect (s : ParserState D) : HeapOp D → ParserState D → Prop
  | write {op : HeapOp D} {s' : ParserState D} (hop : op.allocates = false) (h : Grows 0 s s')
      (hcount : s'.astAllocationCount = s.astAllocationCount) : Effect s op s'
  | granted {t : TableId} {n : NewNode D} {s' : ParserState D}
      (hlt : s.astAllocationCount < Value.MAX_AST_PER_STACK) (ht : s.tables t ≠ none)
      (h : Grows (Pi.single t 1) s s')
      (hcount : s'.astAllocationCount = s.astAllocationCount + 1) :
      Effect s (.newStackAst t n) s'
  | refused {t : TableId} {n : NewNode D} {s' : ParserState D}
      (hge : Value.MAX_AST_PER_STACK ≤ s.astAllocationCount) (h : Grows 0 s s')
      (hcount : s'.astAllocationCount = s.astAllocationCount + 1) :
      Effect s (.newStackAst t n) s'
  | pushed (prev : List TableId) : Effect s (.pushTable prev) (s.pushed prev)
  | popped {t : TableId} {ts : List TableId} {tbl : VarTable D} (hts : s.varTable = t :: ts)
      (ht : s.tables t = some tbl) : Effect s .removeVarTable (s.popped t tbl)

/-- **What a step can do.** -/
theorem effect {op : HeapOp D} (h : step? s op = some s') : Effect s op s' := by
  have h : op.exec s = .ok ((), s') := step?_eq_some.1 h
  have hsame (hop : op.allocates = false) (hens : Ensures op.exec s fun _ s' ↦
      Grows 0 s s' ∧ s'.astAllocationCount = s.astAllocationCount) : Effect s op s' :=
    .write hop (hens.run h).1 (hens.run h).2
  cases op with
  | setNode a n => exact hsame rfl (Interp.setCell_same fun tbl ↦ List.length_set)
  | setString a x => exact hsame rfl (Interp.setCell_same fun tbl ↦ rfl)
  | setVector a v => exact hsame rfl (Interp.setCell_same fun tbl ↦ rfl)
  | setMap a m => exact hsame rfl (Interp.setCell_same fun tbl ↦ rfl)
  | insert t x p =>
    refine hsame rfl (meets_bind.2 (meets_bind.2 (Interp.getTable_ensures fun tbl ht ↦ ?_)))
    refine meets_ite.2 ⟨fun _ ↦ ⟨.refl s, rfl⟩, fun _ ↦ meets_bind.2 ?_⟩
    exact Interp.setTable_same ht rfl
  | setEvalCount n => exact hsame rfl ⟨.of_tables rfl rfl rfl, rfl⟩
  | setRpcRecv p => exact hsame rfl ⟨.of_tables rfl rfl rfl, rfl⟩
  | setQueryReturn p => exact hsame rfl ⟨.of_tables rfl rfl rfl, rfl⟩
  | newStackAst t n =>
    obtain ⟨o, s₁, hrun, hpure⟩ := runs_bind.1 h
    obtain ⟨-, rfl⟩ := runs_pure.1 hpure
    obtain ⟨hcount, hgranted, hrefused⟩ := (Interp.newStackAst_grows t n).run hrun
    rcases lt_or_ge s.astAllocationCount Value.MAX_AST_PER_STACK with hlt | hge
    · exact .granted hlt (hgranted hlt).1 (hgranted hlt).2 hcount
    · exact .refused hge (hrefused hge) hcount
  | pushTable prev =>
    cases h
    exact .pushed prev
  | removeVarTable =>
    have hens : Ensures (exec .removeVarTable) s fun _ s' ↦ Effect s .removeVarTable s' := by
      refine meets_bind.2 (Interp.getVarTable_ensures fun t ts hts ↦ meets_bind.2 ?_)
      exact Interp.getTable_ensures fun tbl ht ↦ .popped hts ht
    exact hens.run h

end HeapOp

/-! ### The invariant -/

namespace ParserState

/-- All live tables are on the stack, each once, and the counter is `k` above the number of the
nodes that they own. -/
structure Counts (k : ℕ) (s : ParserState D) : Prop where
  live : ∀ t, s.tables t ≠ none ↔ t ∈ s.varTable
  nodup : s.varTable.Nodup
  lt : ∀ t ∈ s.varTable, t < s.nextTable
  count : s.astAllocationCount = s.owned + k

theorem counts_new : (new (D := D)).Counts 0 where
  live t := by
    show (Function.update (fun _ ↦ none) 0 (some (.new [])) : TableId → Option (VarTable D)) t ≠
      none ↔ t ∈ [0]
    by_cases ht : t = 0
    · subst ht
      simp
    · rw [Function.update_of_ne ht, List.mem_singleton]
      exact iff_of_false (fun h ↦ h rfl) ht
  nodup := List.nodup_singleton 0
  lt t ht := by
    rw [List.mem_singleton.1 ht]
    exact Nat.zero_lt_one
  count := rfl

variable {k : ℕ}

/-- Where the nodes are counted, an allocation is refused if and only if the limit is reached. -/
theorem Counts.accounted (h : s.Counts 0) : s.Accounted :=
  ⟨h.count, by rw [refuses_iff, h.count, add_zero]⟩

theorem sum_map_single {t : TableId} {ts : List TableId} (hmem : t ∈ ts) (hnodup : ts.Nodup) :
    (ts.map (Pi.single t 1 : TableId → ℕ)).sum = 1 := by
  induction ts with
  | nil => exact absurd hmem List.not_mem_nil
  | cons t' ts ih =>
    obtain ⟨hnot, hnodup⟩ := List.nodup_cons.1 hnodup
    rw [List.map_cons, List.sum_cons]
    rcases List.mem_cons.1 hmem with rfl | hmem
    · have hzero : (ts.map (Pi.single t 1 : TableId → ℕ)).sum = 0 := by
        refine List.sum_eq_zero fun n hn ↦ ?_
        obtain ⟨t', ht', rfl⟩ := List.mem_map.1 hn
        exact Pi.single_eq_of_ne (ne_of_mem_of_not_mem ht' hnot) 1
      rw [Pi.single_eq_same, hzero]
    · rw [Pi.single_eq_of_ne (ne_of_mem_of_not_mem hmem hnot).symm, ih hmem hnodup]

theorem Grows.owned {f : TableId → ℕ} (h : Grows f s s') :
    s'.owned = s.owned + (s.varTable.map f).sum := by
  rw [ParserState.owned, ParserState.owned, h.varTable, ← List.sum_map_add]
  exact congrArg List.sum (List.map_congr_left fun t _ ↦ h.sizes t)

theorem Counts.grows {f : TableId → ℕ} {k' : ℕ} (h : s.Counts k) (hg : Grows f s s')
    (hcount : s'.astAllocationCount + k = s.astAllocationCount + k' + (s.varTable.map f).sum) :
    s'.Counts k' where
  live t := by rw [hg.varTable, ← h.live t, Ne, Ne, hg.live t]
  nodup := hg.varTable ▸ h.nodup
  lt := by
    rw [hg.varTable, hg.nextTable]
    exact h.lt
  count := by
    have := h.count
    have := hg.owned
    omega

theorem Counts.pushed (h : s.Counts k) (prev : List TableId) : (s.pushed prev).Counts k where
  live t := by
    by_cases ht : t = s.nextTable
    · subst ht
      exact iff_of_true (by rw [pushed_same]; exact Option.some_ne_none _) (List.mem_cons_self ..)
    · rw [pushed_of_ne ht, h.live t]
      exact (List.mem_cons.trans (or_iff_right ht)).symm
  nodup := List.nodup_cons.2 ⟨fun hmem ↦ lt_irrefl _ (h.lt _ hmem), h.nodup⟩
  lt t ht := by
    rcases List.mem_cons.1 ht with rfl | ht
    · exact Nat.lt_succ_self _
    · exact Nat.lt_succ_of_lt (h.lt t ht)
  count := by
    have hnew : (s.pushed prev).sizes s.nextTable = 0 := sizes_eq pushed_same
    have hold : s.varTable.map (s.pushed prev).sizes = s.varTable.map s.sizes :=
      List.map_congr_left fun t ht ↦ sizes_congr (pushed_of_ne (h.lt t ht).ne)
    show s.astAllocationCount = ((s.nextTable :: s.varTable).map (s.pushed prev).sizes).sum + k
    rw [List.map_cons, List.sum_cons, hnew, hold, zero_add]
    exact h.count

theorem Counts.popped {t : TableId} {ts : List TableId} {tbl : VarTable D} (h : s.Counts k)
    (hts : s.varTable = t :: ts) (ht : s.tables t = some tbl) : (s.popped t tbl).Counts k := by
  have hnodup := h.nodup
  rw [hts, List.nodup_cons] at hnodup
  have hvarTable : (s.popped t tbl).varTable = ts := congrArg List.tail hts
  refine ⟨fun t' ↦ ?_, hvarTable ▸ hnodup.2, fun t' ht' ↦ ?_, ?_⟩
  · rw [hvarTable]
    by_cases heq : t' = t
    · subst heq
      exact iff_of_false (fun hne ↦ hne popped_same) hnodup.1
    · rw [popped_of_ne heq, h.live t', hts]
      exact List.mem_cons.trans (or_iff_right heq)
  · rw [hvarTable] at ht'
    exact h.lt t' (hts ▸ List.mem_cons_of_mem _ ht')
  · have hold : ts.map (s.popped t tbl).sizes = ts.map s.sizes :=
      List.map_congr_left fun t' ht' ↦
        sizes_congr (popped_of_ne fun heq ↦ hnodup.1 (heq ▸ ht'))
    have hcount := h.count
    rw [ParserState.owned, hts, List.map_cons, List.sum_cons, sizes_eq ht] at hcount
    rw [ParserState.owned, hvarTable, hold]
    show s.astAllocationCount - tbl.vStackAst.length = _
    omega

theorem sum_map_zero (ts : List TableId) : (ts.map (0 : TableId → ℕ)).sum = 0 := by
  refine List.sum_eq_zero fun n hn ↦ ?_
  obtain ⟨t, -, rfl⟩ := List.mem_map.1 hn
  rfl

variable {op : HeapOp D}

/-- A step that is granted keeps the counter where it is above the number of the nodes. -/
theorem Counts.granted (h : s.Counts k) (hstep : HeapOp.step? s op = some s')
    (hop : op.Granted s) : s'.Counts k := by
  cases HeapOp.effect hstep with
  | write _ hg hcount => exact h.grows hg (by rw [hcount, sum_map_zero, add_zero])
  | granted hlt ht hg hcount =>
    refine h.grows hg ?_
    rw [hcount, sum_map_single ((h.live _).1 ht) h.nodup]
    omega
  | refused hge hg hcount => exact absurd (hop rfl) hge.not_gt
  | pushed prev => exact h.pushed prev
  | popped hts ht => exact h.popped hts ht

/-- A refused allocation is counted although nothing is allocated. -/
theorem Counts.refused (h : s.Counts k) (hstep : HeapOp.step? s op = some s')
    (hop : ¬ op.Granted s) : s'.Counts (k + 1) := by
  obtain ⟨halloc, hge⟩ := Classical.not_imp.1 hop
  cases HeapOp.effect hstep with
  | write hop => exact absurd (halloc.symm.trans hop) (by simp)
  | granted hlt => exact absurd hlt hge
  | refused _ hg hcount =>
    refine h.grows hg ?_
    rw [hcount, sum_map_zero]
    omega
  | pushed prev => exact absurd halloc (by simp [HeapOp.allocates])
  | popped hts ht => exact absurd halloc (by simp [HeapOp.allocates])

end ParserState

namespace HeapOp

/-- The number of the allocations that are refused in the course of a sequence. -/
def refusals : ParserState D → List (HeapOp D) → ℕ
  | _, [] => 0
  | s, op :: ops =>
    (if Granted s op then 0 else 1) +
      match step? s op with
      | some s' => refusals s' ops
      | none => 0

/-- **The law of the counter.** It is the number of the nodes and of the refusals. -/
theorem counts_run {k : ℕ} {ops : List (HeapOp D)} (h : s.Counts k)
    (hrun : run step? s ops = some s') : s'.Counts (k + refusals s ops) := by
  induction ops generalizing s k with
  | nil =>
    rw [run_nil, Option.some.injEq] at hrun
    exact hrun ▸ h
  | cons op ops ih =>
    obtain ⟨s₁, hstep, hrun⟩ := run_cons_eq_some.1 hrun
    rw [refusals, hstep]
    show s'.Counts (k + (_ + refusals s₁ ops))
    rw [← add_assoc]
    by_cases hop : op.Granted s
    · rw [if_pos hop]
      exact ih (h.granted hstep hop) hrun
    · rw [if_neg hop]
      exact ih (h.refused hstep hop) hrun

/-- An allocation that is refused. -/
theorem step?_refused (t : TableId) (n : NewNode D)
    (hge : Value.MAX_AST_PER_STACK ≤ s.astAllocationCount) :
    step? s (.newStackAst t n) =
      some { s with astAllocationCount := s.astAllocationCount + 1 } := by
  have hnew : Runs Interp.newAst s false
      { s with astAllocationCount := s.astAllocationCount + 1 } := by
    simpa [Interp.newAst] using Nat.lt_succ_of_le hge
  exact step?_eq_some.2 (runs_bind.2 ⟨none, _, runs_bind.2 ⟨false, _, hnew, runs_pure.2 ⟨rfl, rfl⟩⟩,
    runs_pure.2 ⟨rfl, rfl⟩⟩)

theorem exists_step?_of_refused {op : HeapOp D} (hop : ¬ op.Granted s) :
    ∃ s', step? s op = some s' := by
  obtain ⟨halloc, hge⟩ := Classical.not_imp.1 hop
  cases op with
  | newStackAst t n => exact ⟨_, step?_refused t n (Nat.le_of_not_lt hge)⟩
  | _ => exact absurd halloc (by simp [allocates])

theorem accounted_iff {ops : List (HeapOp D)} (h : s.Counts 0) :
    (∀ before t, before <+: ops → run step? s before = some t → t.Accounted) ↔
      AllSteps Granted step? s ops := by
  induction ops generalizing s with
  | nil =>
    refine iff_of_true (fun before t hbefore hrun ↦ ?_) trivial
    rw [List.prefix_nil.1 hbefore, run_nil, Option.some.injEq] at hrun
    exact hrun ▸ h.accounted
  | cons op ops ih =>
    refine ⟨fun hall ↦ ?_, fun hall before t hbefore hrun ↦ ?_⟩
    · have hop : op.Granted s := by
        by_contra hop
        obtain ⟨s₁, hstep⟩ := exists_step?_of_refused hop
        have hacc := hall [op] s₁ (List.prefix_append [op] ops)
          (run_cons_eq_some.2 ⟨s₁, hstep, run_nil _⟩)
        have hcount := (h.refused hstep hop).count
        have := hacc.1
        omega
      refine ⟨hop, fun s₁ hstep ↦ (ih (h.granted hstep hop)).1 fun before t hbefore hrun ↦ ?_⟩
      exact hall (op :: before) t (List.cons_prefix_cons.2 ⟨rfl, hbefore⟩)
        (run_cons_eq_some.2 ⟨s₁, hstep, hrun⟩)
    · cases before with
      | nil =>
        rw [run_nil, Option.some.injEq] at hrun
        exact hrun ▸ h.accounted
      | cons op' before =>
        obtain ⟨rfl, hrest⟩ := List.cons_prefix_cons.1 hbefore
        obtain ⟨s₁, hstep, hrun⟩ := run_cons_eq_some.1 hrun
        exact (ih (h.granted hstep hall.1)).2 (hall.2 s₁ hstep) before t hrest hrun

/-- **When the counter is right**: all along a sequence of operations, if and only if none of its
allocations is refused. -/
theorem accounted_iff_granted (ops : List (HeapOp D)) :
    (∀ before s, before <+: ops → run step? .new before = some s → s.Accounted) ↔
      AllSteps Granted step? .new ops :=
  accounted_iff counts_new

/-- The state after the allocation of `n` nodes for the table `t`. -/
def withNodes (s : ParserState D) (t : TableId) (tbl : VarTable D) (x : Node D) (n : ℕ) :
    ParserState D :=
  { s with
    tables := Function.update s.tables t
      (some { tbl with vStackAst := tbl.vStackAst ++ List.replicate n x })
    astAllocationCount := s.astAllocationCount + n }

theorem withNodes_same (s : ParserState D) (t : TableId) (tbl : VarTable D) (x : Node D) (n : ℕ) :
    (withNodes s t tbl x n).tables t =
      some { tbl with vStackAst := tbl.vStackAst ++ List.replicate n x } :=
  Function.update_self ..

theorem withNodes_of_ne {t t' : TableId} (h : t' ≠ t) (tbl : VarTable D) (x : Node D) (n : ℕ) :
    (withNodes s t tbl x n).tables t' = s.tables t' :=
  Function.update_of_ne h ..

/-- A node that is allocated. -/
theorem step?_newNode {t : TableId} {tbl : VarTable D} (x : Node D) (ht : s.tables t = some tbl)
    (hlt : s.astAllocationCount < Value.MAX_AST_PER_STACK) :
    step? s (.newStackAst t (.plain x)) = some (withNodes s t tbl x 1) := by
  have hnew : Runs Interp.newAst s true
      { s with astAllocationCount := s.astAllocationCount + 1 } := by
    simpa [Interp.newAst] using Nat.succ_le_of_lt hlt
  refine step?_eq_some.2 (runs_bind.2 ⟨some ⟨t, tbl.vStackAst.length⟩, _,
    runs_bind.2 ⟨true, _, hnew, ?_⟩, runs_pure.2 ⟨rfl, rfl⟩⟩)
  refine runs_bind.2 ⟨x, _, runs_pure.2 ⟨rfl, rfl⟩, ?_⟩
  refine runs_bind.2 ⟨tbl, _, Interp.runs_getTable ht, ?_⟩
  exact runs_bind.2 ⟨(), _, runs_modify.2 rfl, runs_pure.2 ⟨rfl, rfl⟩⟩

/-- Nodes that are allocated one after the other. -/
theorem run_newNodes {t : TableId} {tbl : VarTable D} (x : Node D) {n : ℕ}
    (ht : s.tables t = some tbl) (hle : s.astAllocationCount + n ≤ Value.MAX_AST_PER_STACK) :
    run step? s (List.replicate n (.newStackAst t (.plain x))) = some (withNodes s t tbl x n) := by
  induction n generalizing s tbl with
  | zero =>
    have hsame : Function.update s.tables t (some tbl) = s.tables := by
      rw [← ht, Function.update_eq_self]
    simp [withNodes, hsame]
  | succ n ih =>
    rw [List.replicate_succ, run_cons, step?_newNode x ht (by omega), Option.bind_some,
      ih (withNodes_same ..) (by show _ + 1 + n ≤ _; omega)]
    simp [withNodes, List.replicate_succ, Nat.add_right_comm, ← add_assoc]

theorem step?_removeVarTable {t : TableId} {ts : List TableId} {tbl : VarTable D}
    (hts : s.varTable = t :: ts) (ht : s.tables t = some tbl) :
    step? s .removeVarTable = some (s.popped t tbl) := by
  refine step?_eq_some.2 (runs_bind.2 ⟨t, s, ?_, runs_bind.2 ⟨tbl, s, Interp.runs_getTable ht,
    runs_modify.2 rfl⟩⟩)
  simp [Interp.getVarTable, hts]

/-- A call that owns all the nodes there can be is refused one more, and ends. -/
theorem run_refused_pop {tbl tbl₀ : VarTable D} (n : NewNode D) (hts : s.varTable = [1, 0])
    (h₁ : s.tables 1 = some tbl) (h₀ : s.tables 0 = some tbl₀) (hempty : tbl₀.vStackAst = [])
    (hlen : tbl.vStackAst.length = Value.MAX_AST_PER_STACK)
    (hcount : s.astAllocationCount = Value.MAX_AST_PER_STACK) :
    ∃ s', run step? s [.newStackAst 1 n, .removeVarTable] = some s' ∧ s'.owned = 0 ∧
      s'.astAllocationCount = 1 := by
  have hrefused := step?_refused 1 n hcount.ge
  have hpop := step?_removeVarTable
    (s := { s with astAllocationCount := s.astAllocationCount + 1 }) hts h₁
  have howned (s₁ : ParserState D) (hts : s₁.varTable = [1, 0]) (h₀ : s₁.tables 0 = some tbl₀) :
      (s₁.popped 1 tbl).owned = 0 := by
    have hts' : (s₁.popped 1 tbl).varTable = [0] := congrArg List.tail hts
    have hpopped : (s₁.popped 1 tbl).tables 0 = s₁.tables 0 := popped_of_ne Nat.zero_ne_one
    have h₀' := hpopped.trans h₀
    rw [ParserState.owned, hts', List.map_singleton, List.sum_singleton, sizes_eq h₀', hempty,
      List.length_nil]
  refine ⟨_, run_cons_eq_some.2 ⟨_, hrefused, run_cons_eq_some.2 ⟨_, hpop, run_nil _⟩⟩,
    howned _ hts h₀, ?_⟩
  show s.astAllocationCount + 1 - tbl.vStackAst.length = 1
  omega

/-- A call whose table takes `MAX_AST_PER_STACK` nodes and is refused one more, to its end. -/
def exhaust : List (HeapOp Binary64) :=
  .pushTable [0] ::
    (List.replicate Value.MAX_AST_PER_STACK (.newStackAst 1 (.plain (.int 0))) ++
      [.newStackAst 1 (.plain (.int 0)), .removeVarTable])

/-- After it no table owns a node, and the counter is 1. -/
theorem exhaust_leaks : ∃ s, run step? .new exhaust = some s ∧ s.owned = 0 ∧
    s.astAllocationCount = 1 ∧ ¬ s.Accounted := by
  have ht : (ParserState.new (D := Binary64).pushed [0]).tables 1 = some (.new [0]) := rfl
  have hpush : step? .new (.pushTable [0]) =
      some (ParserState.new (D := Binary64).pushed [0]) := rfl
  have hfull := run_newNodes (.int 0) ht (Nat.le_of_eq (zero_add Value.MAX_AST_PER_STACK))
  obtain ⟨s, hrun, howned, hcount⟩ := run_refused_pop
    (s := withNodes (ParserState.new.pushed [0]) 1 (.new [0]) (.int 0) Value.MAX_AST_PER_STACK)
    (.plain (.int 0)) rfl (withNodes_same ..) (withNodes_of_ne Nat.zero_ne_one ..) rfl
    List.length_replicate (zero_add _)
  refine ⟨s, ?_, howned, hcount, fun hacc ↦ ?_⟩
  · rw [exhaust, run_cons, hpush, Option.bind_some, run_append, hfull, Option.bind_some]
    exact hrun
  · exact absurd (hcount.symm.trans (hacc.1.trans howned)) Nat.one_ne_zero

end HeapOp

/-- In every state of an execution the counter is above the number of the nodes by the number of the
refusals so far. -/
theorem Machine.Reachable.counts [CDouble D] {program : Program D} {funcString : Str}
    {param : Value D} {m : Machine D} (h : Reachable program funcString param m) :
    ∃ ops, run HeapOp.step? .new ops = some m.ps ∧
      m.ps.astAllocationCount = m.ps.owned + HeapOp.refusals .new ops := by
  obtain ⟨ops, hrun⟩ := h.ops
  have hcount := (HeapOp.counts_run counts_new hrun).count
  rw [zero_add] at hcount
  exact ⟨ops, hrun, hcount⟩

end Meridian.MQL

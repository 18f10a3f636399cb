import Meridian.MQL.TwoCallersMachine
import Meridian.MQL.StatementOrder

/-!
# A call and the tables of its caller

A function is called in two states that differ only in the tables of the callers (`SameForCall`). The
two calls go together (`MachineRel`) as soon as the node for the result has been made in both, so they
return the same value and leave the same in the global table. That node is the only thing that a call
makes in the scope of its caller, and the name of its struct is looked up there: where a variable of
the caller has that name (`HidesResult`), there is no node and no result.
-/

namespace Meridian.MQL

open Lib (Runs Follows)
open ParserState Interp
open VarTable (TextNode Child Global)

variable {D : Type}

/-! ### The two states -/

/-- The caller, in a state of the interpreter. -/
def ParserState.WF.caller {nlits : ℕ} {typed : Prop} {s : ParserState D} {t : TableId}
    (h : s.WF nlits typed) (htop : s.varTable.head? = some t) (hpos : 0 < t) : Caller D where
  state := s
  table := t
  pos := hpos
  top := htop
  last := h.last
  lt := h.lt t (List.mem_of_mem_head? htop)
  fresh u hu := by
    rw [Option.eq_none_iff_forall_not_mem]
    intro tbl ht
    exact absurd (h.lt u ((h.live u).1 ⟨tbl, ht⟩)) (Nat.not_lt_of_le hu)
  prev tbl ht u hu := h.lt u (h.prev t tbl ht u hu).1

/-- Two states in which a function is called, from these tables: nothing differs that does not belong
to the callers. The functions use neither `rpc` nor `get_distance`, which return what the node around
the program has left behind. -/
structure SameForCall (nlits : ℕ) (typed : Prop) (s s' : ParserState D) (t t' : TableId) : Prop where
  wf : s.WF nlits typed
  wf' : s'.WF nlits typed
  top : s.varTable.head? = some t
  top' : s'.varTable.head? = some t'
  pos : 0 < t
  pos' : 0 < t'
  global : s'.tables 0 = s.tables 0
  text : s.FuncTexts nlits
  count : s'.astAllocationCount = s.astAllocationCount
  evals : s'.evalCount = s.evalCount

namespace SameForCall

variable {nlits : ℕ} {typed : Prop} {s s' : ParserState D} {t t' : TableId}

/-- The callers. -/
def callers (h : SameForCall nlits typed s s' t t') : TwoCallers D where
  one := h.wf.caller h.top h.pos
  two := h.wf'.caller h.top' h.pos'
  nlits := nlits
  global := h.global

variable (h : SameForCall nlits typed s s' t t') {tbl : VarTable D}
include h

/-- What a slot of an own node leads to is there in both states. -/
theorem slotRel {q : Slot} {p : Ptr} (ht : s.tables 0 = some tbl) (hp : tbl.ptrAt q = some p)
    (hown : ∀ i ∈ q.parent, ∀ n, tbl.vStackAst[i]? = some n → n.Own) :
    h.callers.SlotRel 0 p p := by
  rcases (h.wf.table 0 tbl ht).slot q p hp with ⟨⟨u, i⟩, rfl, hchild⟩ | ⟨-, x, rfl, hglobal⟩
  · obtain rfl : u = 0 := hchild.table
    obtain ⟨n, hn, hnown⟩ := hchild.live
    refine ⟨.node (.shared ⟨tbl, n, ht, hn, hnown hown⟩), ?_⟩
    rintro _ ⟨⟩
    rfl
  · cases hglobal with
    | empty => exact ⟨.empty, fun a ha ↦ by cases ha⟩
    | func f => exact ⟨.func f (h.text tbl x f ht hp), fun a ha ↦ by cases ha⟩
    | adt d _ => exact ⟨.adt d, fun a ha ↦ by cases ha⟩

/-- An own node of the global table. -/
theorem nodeRel {i : ℕ} {n : Node D} (ht : s.tables 0 = some tbl) (hn : tbl.vStackAst[i]? = some n)
    (hown : n.Own) : h.callers.NodeRel 0 0 n n := by
  have hwf := h.wf.table 0 tbl ht
  have haux : ∀ k c, n.aux = some (k, c) → c.table = 0 ∧ h.callers.AddrRel (.aux k) c c := by
    rintro k ⟨u, j⟩ hc
    obtain rfl : u = 0 := (hwf.aux i n k _ hn hc).1
    exact ⟨rfl, .shared ⟨tbl, i, n, ht, hn, hown, hc⟩⟩
  cases n with
  | raw => exact .raw
  | int j => exact .int j
  | double d => exact .double d
  | string c => exact .string (haux _ _ rfl).2 (haux _ _ rfl).1
  | array aType name v tb =>
    cases tb with
    | none => exact absurd rfl hown
    | some u =>
      obtain rfl := hwf.varTable i aType name v u hn
      exact .array (haux _ _ rfl).2 (haux _ _ rfl).1 fun _ _ ↦ .inl TwoCallers.scope_zero
  | varAdt name m u =>
    obtain rfl : u = false := hown
    exact .varAdt (haux _ _ rfl).2 (haux _ _ rfl).1 (.inl TwoCallers.scope_zero)
  | sep v => exact hown.elim

/-- The entries of the global table that both states have. -/
theorem entryRel (ht : s.tables 0 = some tbl) {k : Pile} {i : ℕ} (hi : h.callers.Shared k i) :
    Option.Rel (h.callers.EntryRel 0 0 k) (tbl.pile k)[i]? (tbl.pile k)[i]? := by
  cases k with
  | node =>
    obtain ⟨tbl', n, ht', hn, hown⟩ := hi
    obtain rfl := Option.some.inj (ht'.symm.trans ht)
    show Option.Rel _ tbl'.vStackAst[i]? tbl'.vStackAst[i]?
    rw [hn]
    exact .some (h.nodeRel ht hn hown)
  | aux k =>
    obtain ⟨tbl', j, n, ht', hn, hown, haux⟩ := hi
    obtain rfl := Option.some.inj (ht'.symm.trans ht)
    -- what a vector or a map holds belongs to the node that it is in
    have hslot : ∀ {q p}, tbl'.ptrAt q = some p → q.parent = some j → h.callers.SlotRel 0 p p := by
      intro q p hp hq
      refine h.slotRel ht hp fun i' hi' n' hn' ↦ ?_
      obtain rfl := Option.some.inj (hq.symm.trans hi')
      obtain rfl := Option.some.inj (hn.symm.trans hn')
      exact hown
    cases hx : (tbl'.pile (.aux k))[i]? with
    | none => exact .none
    | some x =>
      refine .some ?_
      cases k with
      | string => exact rfl
      | vector =>
        refine List.forall₂_same.2 fun p hp ↦ TwoCallers.SlotRel.elemRel ?_
        obtain ⟨e, he⟩ := List.mem_iff_getElem?.1 hp
        cases n with
        | array aType name v tb =>
          obtain rfl : v = ⟨0, i⟩ := (Prod.mk.inj (Option.some.inj haux)).2
          refine hslot (q := .elem j e) ?_ rfl
          rw [VarTable.ptrAt, VarTable.elems_eq hn]
          exact (congrArg (fun o ↦ (o.getD [])[e]?) hx).trans he
        | sep v => exact hown.elim
        | _ => cases haux
      | map =>
        intro y
        cases hy : x[y]? with
        | none => exact .none
        | some p =>
          refine .some ?_
          cases n with
          | varAdt name m u =>
            obtain rfl : m = ⟨0, i⟩ := (Prod.mk.inj (Option.some.inj haux)).2
            refine hslot (q := .field j y) ?_ rfl
            rw [VarTable.ptrAt, VarTable.fields_eq hn]
            exact (congrArg (fun o ↦ (o.getD ∅)[y]?) hx).trans hy
          | _ => cases haux

/-- The global table. -/
theorem tableRel (ht : s.tables 0 = some tbl) : h.callers.TableRel 0 0 tbl tbl := by
  have hsize : ∀ k, h.callers.one.size k 0 = (tbl.pile k).length := Caller.size_eq ht
  refine ⟨fun k i i' hi ↦ ?_, fun k ↦ ⟨0, (hsize k).symm, ?_⟩, fun _ y ↦ ?_, fun _ ↦ ?_⟩
  · generalize ha : (⟨0, i⟩ : Addr) = a at hi
    generalize ha' : (⟨0, i'⟩ : Addr) = a' at hi
    cases hi with
    | fresh hlink j =>
      cases ha
      cases ha'
      rw [h.callers.size_zero, hsize, List.getElem?_eq_none (Nat.le_add_right ..)]
      exact .none
    | shared hi =>
      cases ha
      cases ha'
      exact h.entryRel ht hi
  · rw [h.callers.size_zero, hsize]
    rfl
  · cases hy : tbl.vMap[y]? with
    | none => exact .none
    | some p => exact .some (h.slotRel (q := .var y) ht hy fun _ hi ↦ by cases hi)
  · have hprev : tbl.prevVarTable = [] := by
      refine List.eq_nil_iff_forall_not_mem.2 fun u hu ↦ ?_
      exact absurd (h.wf.prev 0 tbl ht u hu).2 (Nat.not_lt_zero u)
    rw [hprev]
    exact .nil

/-- **At the call** the states go together. -/
theorem related : h.callers.Related True 0 s s' := by
  refine ⟨fun u u' hu ↦ ?_, ⟨[], [], rfl, rfl, rfl, .nil⟩, ⟨0, rfl, rfl⟩, h.count, h.evals,
    ⟨fun _ _ ↦ rfl, fun _ _ _ hx ↦ hx⟩, ⟨fun _ _ ↦ rfl, fun _ _ _ hx ↦ hx⟩⟩
  cases hu with
  | global =>
    rw [h.global]
    cases ht : s.tables 0 with
    | none => exact .none
    | some tbl => exact .some (h.tableRel ht)
  | caller =>
    show Option.Rel _ (s.tables t) (s'.tables t')
    obtain ⟨tbl, ht⟩ := (h.wf.live t).2 (List.mem_of_mem_head? h.top)
    obtain ⟨tbl', ht'⟩ := (h.wf'.live t').2 (List.mem_of_mem_head? h.top')
    rw [ht, ht']
    have hsize : ∀ k, h.callers.one.size k t = (tbl.pile k).length := Caller.size_eq ht
    have hsize' : ∀ k, h.callers.two.size k t' = (tbl'.pile k).length := Caller.size_eq ht'
    refine .some ⟨fun k i i' hi ↦ ?_, fun k ↦ ⟨0, (hsize k).symm, (hsize' k).symm⟩,
      fun hne ↦ absurd rfl hne, fun hne ↦ absurd rfl hne⟩
    -- only new cells of the table of the caller go together
    generalize ha : (⟨h.callers.one.table, i⟩ : Addr) = a at hi
    generalize ha' : (⟨h.callers.two.table, i'⟩ : Addr) = a' at hi
    cases hi with
    | fresh hlink j =>
      cases ha
      cases ha'
      have hnone : (tbl.pile k)[h.callers.one.size k h.callers.one.table + j]? = none :=
        List.getElem?_eq_none (by rw [← hsize k]; exact Nat.le_add_right ..)
      have hnone' : (tbl'.pile k)[h.callers.two.size k h.callers.two.table + j]? = none :=
        List.getElem?_eq_none (by rw [← hsize' k]; exact Nat.le_add_right ..)
      rw [hnone, hnone']
      exact .none
    | shared hi => exact absurd (congrArg Addr.table ha) (Nat.ne_of_gt h.pos)
  | new hu =>
    obtain ⟨j, rfl, rfl⟩ := hu
    have hnone : s.tables (h.callers.one.next + j) = none :=
      h.callers.one.fresh _ (Nat.le_add_right ..)
    have hnone' : s'.tables (h.callers.two.next + j) = none :=
      h.callers.two.fresh _ (Nat.le_add_right ..)
    rw [hnone, hnone']
    exact .none

/-- The literals of the program. -/
theorem literal (a : Addr) (ha : a.table = 0) (hlt : a.index < nlits) :
    h.callers.AddrRel .node a a := by
  obtain ⟨u, i⟩ := a
  obtain rfl : u = 0 := ha
  obtain ⟨tbl, ht⟩ := (h.wf.live 0).2 h.wf.zero_mem
  obtain ⟨n, hn, hscalar⟩ := h.wf.lits tbl ht i hlt
  refine .shared ⟨tbl, n, ht, hn, ?_⟩
  cases n with
  | array => exact hscalar.elim
  | varAdt => exact hscalar.elim
  | sep => exact hscalar.elim
  | _ => exact trivial

end SameForCall

/-! ### The node for the result -/

section Tmp

variable [CDouble D]

/-- The name of the struct that the function returns stands for something else in the table. -/
def HidesResult (s : ParserState D) (t : TableId) (f : Func) : Prop :=
  ∃ x ∈ f.fType.adtName, ∀ d, ¬ Runs (lookup t x) s (some (.adt d)) s

/-- A scalar or a struct, as it is declared. -/
theorem createType_builds (t : TableId) (e : ElemType) : Builds (D := D) (createType t e) := by
  cases e with
  | basic b => exact createBasicType_builds b
  | adt name =>
    refine fun s ↦ (createAdt_built name).mono fun r s' ⟨hwrites, hr⟩ ↦ ⟨hwrites, fun a ha ↦ ?_⟩
    obtain ⟨name', m, hbuilt, -⟩ := hr a ha
    exact ⟨_, hbuilt⟩

/-- Whatever `ASTCreate` makes is new. -/
theorem astCreate_builds (t : TableId) (d : DeclType) (size : Int32) :
    Builds (D := D) (astCreate t d size) := by
  cases d with
  | elem e => exact createType_builds t e
  | array e =>
    refine fun s ↦ (createArray_built (createType_builds t e)).mono ?_
    rintro r s' ⟨hwrites, hr⟩
    refine ⟨hwrites, fun a ha ↦ ?_⟩
    obtain ⟨name', v, tb, hbuilt, -⟩ := hr a ha
    exact ⟨_, hbuilt⟩

/-- The node for the result is new. -/
theorem createTmp_writes (f : Func) (s : ParserState D) :
    Ensures (createTmp f) s fun _ s' ↦ WritesOnly (fun _ ↦ False) s s' := by
  refine Lib.meets_ite.2 ⟨fun _ ↦ .refl _ s, fun _ ↦ Lib.meets_bind.2 ?_⟩
  refine getVarTable_ensures fun t _ _ ↦ Lib.meets_bind.2 ?_
  exact (astCreate_builds t f.fType 0 s).mono fun _ _ h ↦ h.1

omit [CDouble D] in
/-- A name can be looked up in every table of the stack. -/
theorem exists_runs_lookup {nlits : ℕ} {typed : Prop} {s : ParserState D} {t : TableId}
    (h : s.WF nlits typed) (ht : t ∈ s.varTable) (x : Str) : ∃ r, Runs (lookup t x) s r s := by
  have hin : ∀ ts : List TableId, (∀ u ∈ ts, u ∈ s.varTable) → ∃ r, Runs (lookupIn x ts) s r s := by
    intro ts hts
    induction ts with
    | nil => exact ⟨none, Lib.runs_pure.2 ⟨rfl, rfl⟩⟩
    | cons u us ih =>
      obtain ⟨tbl, hu⟩ := (h.live u).2 (hts u List.mem_cons_self)
      obtain ⟨r, hr⟩ := ih fun v hv ↦ hts v (List.mem_cons_of_mem _ hv)
      cases hx : tbl.vMap[x]? with
      | some p =>
        refine ⟨some p, Lib.runs_bind.2 ⟨tbl, s, runs_getTable_iff.2 ⟨rfl, hu⟩, ?_⟩⟩
        rw [hx]
        exact Lib.runs_pure.2 ⟨rfl, rfl⟩
      | none =>
        refine ⟨r, Lib.runs_bind.2 ⟨tbl, s, runs_getTable_iff.2 ⟨rfl, hu⟩, ?_⟩⟩
        rw [hx]
        exact hr
  obtain ⟨tbl, htbl⟩ := (h.live t).2 ht
  obtain ⟨r, hr⟩ := hin (t :: tbl.prevVarTable)
    (List.forall_mem_cons.2 ⟨ht, fun u hu ↦ (h.prev t tbl htbl u hu).1⟩)
  exact ⟨r, Lib.runs_bind.2 ⟨tbl, s, runs_getTable_iff.2 ⟨rfl, htbl⟩, hr⟩⟩

/-- No node can be made for a struct that is hidden. -/
theorem runs_astCreate_hidden {nlits : ℕ} {typed : Prop} {s : ParserState D} {t : TableId}
    {f : Func} (h : s.WF nlits typed) (ht : t ∈ s.varTable) (hhides : HidesResult s t f) :
    Runs (astCreate t f.fType 0) s none s := by
  obtain ⟨x, hx, hnot⟩ := hhides
  obtain ⟨r, hr⟩ := exists_runs_lookup h ht x
  have hname : ∀ {α : Type} {k : Option Ptr → Interp D α} {y : α}, Runs (k r) s y s →
      Runs (lookup t x >>= k) s y s := fun hk ↦ Lib.runs_bind.2 ⟨r, s, hr, hk⟩
  cases hf : f.fType with
  | elem e =>
    rw [hf] at hx
    cases e with
    | basic b => cases hx
    | adt name =>
      obtain rfl : name = x := Option.some.inj hx
      refine hname ?_
      split
      · next d => exact absurd hr (hnot d)
      · exact Lib.runs_pure.2 ⟨rfl, rfl⟩
  | array e =>
    rw [hf] at hx
    cases e with
    | basic b => cases hx
    | adt name =>
      obtain rfl : name = x := Option.some.inj hx
      have hreal : Runs (realAdtName t ASTType.adtType.toWord (some name)) s none s := by
        rw [realAdtName, if_pos rfl]
        refine Lib.runs_bind.2 ⟨name, s, Lib.runs_pure.2 ⟨rfl, rfl⟩, hname ?_⟩
        split
        · next d => exact absurd hr (hnot d)
        · exact Lib.runs_pure.2 ⟨rfl, rfl⟩
      rw [astCreate, createArray, if_neg (by decide)]
      exact Lib.runs_bind.2 ⟨none, s, hreal, Lib.runs_pure.2 ⟨rfl, rfl⟩⟩

namespace TwoCallers

variable {K : TwoCallers D} {frozen : Prop} {n : ℕ} {s s' : ParserState D}

omit [CDouble D]

/-- Once the parameters have been assigned, cells may be overwritten. -/
theorem Related.thaw (h : K.Related frozen n s s') : K.Related False n s s' :=
  ⟨h.tables, h.stack, h.next, h.count, h.evals, ⟨h.kept.scope, fun hf ↦ hf.elim⟩,
    ⟨h.kept'.scope, fun hf ↦ hf.elim⟩⟩

/-- Before anything has been written, the callers are as they were. -/
theorem Related.freeze (h : K.Related frozen n s s')
    (hkept : WritesOnly (fun _ ↦ False) K.one.state s)
    (hkept' : WritesOnly (fun _ ↦ False) K.two.state s') : K.Related True n s s' :=
  ⟨h.tables, h.stack, h.next, h.count, h.evals,
    ⟨h.kept.scope, fun _ e x ↦ hkept.keep e x id⟩, ⟨h.kept'.scope, fun _ e x ↦ hkept'.keep e x id⟩⟩

end TwoCallers

namespace SameForCall

variable {nlits : ℕ} {typed : Prop} {s s' : ParserState D} {t t' : TableId}
  (h : SameForCall nlits typed s s' t t') {f : Func}
include h

omit [CDouble D] in
/-- A struct that neither caller hides is the same for both. -/
theorem agreed {x : Str} {d d' : AdtDef} (hd : Runs (lookup t x) s (some (.adt d)) s)
    (hd' : Runs (lookup t' x) s' (some (.adt d')) s') : h.callers.Agreed x := by
  have hdefs : ∀ {s : ParserState D} {t : TableId} {d : AdtDef}, s.WF nlits typed →
      Runs (lookup t x) s (some (.adt d)) s → s.defs x = some d ∧ d.adtTypeName = x := by
    intro s t d hs hrun
    have hfound : Ensures (lookup t x) s fun o _ ↦ ∀ d, o = some (Ptr.adt d) →
        s.defs x = some d ∧ d.adtTypeName = x := by
      refine lookup_ensures (fun p u tbl hu hp _ d hd ↦ ?_) fun d hd ↦ by cases hd
      exact hs.adtTypeName hu (hp.trans hd)
    exact hfound.run hrun d rfl
  obtain ⟨hx, hname⟩ := hdefs h.wf hd
  obtain ⟨hx', -⟩ := hdefs h.wf' hd'
  rw [defs_congr h.global, hx] at hx'
  obtain rfl := Option.some.inj hx'
  exact ⟨d, hname, hd, hd'⟩

/-- The node for the result is made in both states, or in neither. -/
theorem createTmp_follows (hhides : HidesResult s t f ↔ HidesResult s' t' f) :
    Follows (createTmp f) s (createTmp f) s' fun tmp s₁ tmp' s₁' ↦
      h.callers.Related True 0 s₁ s₁' ∧ h.callers.TmpRel t t' tmp tmp' := by
  have hmade : Follows (createTmp f) s (createTmp f) s' fun tmp s₁ tmp' s₁' ↦
      h.callers.Related False 0 s₁ s₁' ∧ h.callers.TmpRel t t' tmp tmp' := by
    by_cases hvoid : f.fType = .void
    · rw [createTmp, if_pos hvoid]
      exact Lib.follows_pure ⟨h.related.thaw, .none⟩
    · rw [createTmp, if_neg hvoid]
      by_cases hhidden : HidesResult s t f
      · -- there is no node in either state
        have htop : Runs getVarTable s t s := runs_getVarTable_iff.2 ⟨rfl, h.top⟩
        have htop' : Runs getVarTable s' t' s' := runs_getVarTable_iff.2 ⟨rfl, h.top'⟩
        have hnone := runs_astCreate_hidden h.wf (List.mem_of_mem_head? h.top) hhidden
        have hnone' := runs_astCreate_hidden h.wf' (List.mem_of_mem_head? h.top') (hhides.1 hhidden)
        have hmake : ∀ {s : ParserState D} {t : TableId}, Runs getVarTable s t s →
            Runs (astCreate t f.fType 0) s none s →
              Runs (do return some (orEmpty (← astCreate (← getVarTable) f.fType 0))) s
                (some Ptr.empty) s := fun htop hnone ↦
          Lib.runs_bind.2 ⟨_, _, htop, Lib.runs_bind.2 ⟨none, _, hnone, Lib.runs_pure.2 ⟨rfl, rfl⟩⟩⟩
        intro tmp s₁ hrun
        obtain ⟨rfl, rfl⟩ := (hmake htop hnone).unique hrun
        refine ⟨some .empty, s', hmake htop' hnone', h.related.thaw, .some ⟨t, .inr ?_, .empty, ?_⟩⟩
        · exact ⟨rfl, rfl, rfl⟩
        · rintro a ⟨⟩
      -- both callers see the same definition
      · have hsees : ∀ x ∈ f.fType.adtName, h.callers.Sees t t' x := by
          intro x hx
          have hnot := fun hall ↦ hhidden ⟨x, hx, hall⟩
          have hnot' := fun hall ↦ (mt hhides.2 hhidden) ⟨x, hx, hall⟩
          obtain ⟨d, hd⟩ := not_forall_not.1 hnot
          obtain ⟨d', hd'⟩ := not_forall_not.1 hnot'
          exact .inr ⟨rfl, rfl, h.agreed hd hd'⟩
        refine TwoCallers.getVarTable_caller_both.bind (Q := h.callers.TmpRel t t') ?_ _ _
          h.related.thaw
        rintro u u' ⟨rfl, rfl⟩
        refine (TwoCallers.astCreate_both .caller (fun hf ↦ hf.elim) hsees).bind fun o o' ho ↦ ?_
        exact TwoCallers.both_pure (.some ⟨u, .inr ⟨rfl, rfl, rfl⟩, TwoCallers.Made.slotRel ho⟩)
  intro tmp s₁ hrun
  obtain ⟨tmp', s₁', hrun', hs₁, htmp⟩ := hmade tmp s₁ hrun
  refine ⟨tmp', s₁', hrun', hs₁.freeze ?_ ?_, htmp⟩
  · exact (createTmp_writes f s).run hrun
  · exact (createTmp_writes f s').run hrun'

end SameForCall

end Tmp

/-! ### What the callers see of the two calls -/

/-- The one pointer leads to the same value in the one state as the other does in the other. -/
structure SameOutcome (s s' : ParserState D) (p p' : Ptr) : Prop where
  value : ∀ x, Denotes (fun _ ↦ True) s x p ↔ Denotes (fun _ ↦ True) s' x p'
  token : ∀ q : Ptr, (∀ a, q ≠ .node a) → (p = q ↔ p' = q)

/-- The global table holds the same names in both states, and the nodes that it had in `s₀` the same
values. -/
structure SameGlobals (s₀ s s' : ParserState D) : Prop where
  names : (s'.tables 0).map (·.vMap) = (s.tables 0).map (·.vMap)
  values : ∀ tbl (i : ℕ) n, s₀.tables 0 = some tbl → tbl.vStackAst[i]? = some n → n.Own →
    SameOutcome s s' (.node ⟨0, i⟩) (.node ⟨0, i⟩)

/-! ### Heaps that mirror each other -/

section Mirror

variable {s s' : ParserState D} {R : Ptr → Ptr → Prop} {p p' : Ptr}

/-- Nodes that hold the same, as far as the pointers of `R` lead to the same. -/
inductive MirrorNode (s s' : ParserState D) (R : Ptr → Ptr → Prop) : Node D → Node D → Prop
  | raw : MirrorNode s s' R .raw .raw
  | int (i : Int32) : MirrorNode s s' R (.int i) (.int i)
  | double (d : D) : MirrorNode s s' R (.double d) (.double d)
  | string {c c' : Addr} (h : ∀ y, s.content (.aux .string c) = some (.string y) →
      s'.content (.aux .string c') = some (.string y)) : MirrorNode s s' R (.string c) (.string c')
  | array {aType : UInt32} {name : Option Str} {v v' : Addr} {tb tb' : Option TableId}
    (h : ∀ ps, s.content (.aux .vector v) = some (.vector ps) →
      ∃ ps', s'.content (.aux .vector v') = some (.vector ps') ∧ List.Forall₂ R ps ps') :
    MirrorNode s s' R (.array aType name v tb) (.array aType name v' tb')
  | varAdt {name : Str} {m m' : Addr} {u u' : Bool}
    (h : ∀ g, s.content (.aux .map m) = some (.map g) →
      ∃ g', s'.content (.aux .map m') = some (.map g') ∧ MapRel R g g') :
    MirrorNode s s' R (.varAdt name m u) (.varAdt name m' u')
  | sep {v v' : Addr} : MirrorNode s s' R (.sep v) (.sep v')

/-- Where a pointer of `R` leads to a node in the one state, the other leads to one that holds the
same. -/
def Mirrors (s s' : ParserState D) (R : Ptr → Ptr → Prop) : Prop :=
  ∀ a p' x, R (.node a) p' → s.content (.node a) = some (.node x) →
    ∃ a' x', p' = .node a' ∧ s'.content (.node a') = some (.node x') ∧ MirrorNode s s' R x x'

/-- A value is denoted on both sides. By its structure. -/
theorem Denotes.mirror {x : Value D} (hR : Mirrors s s' R) (h : R p p')
    (hx : Denotes (fun _ ↦ True) s x p) : Denotes (fun _ ↦ True) s' x p' := by
  induction x using Value.ind generalizing p p' with
  | int i =>
    obtain ⟨a, rfl, -, ha⟩ := hx
    obtain ⟨a', x', rfl, ha', hnode⟩ := hR a p' _ h ha
    cases hnode
    exact ⟨a', rfl, trivial, ha'⟩
  | double d =>
    obtain ⟨a, rfl, -, ha⟩ := hx
    obtain ⟨a', x', rfl, ha', hnode⟩ := hR a p' _ h ha
    cases hnode
    exact ⟨a', rfl, trivial, ha'⟩
  | string y =>
    obtain ⟨a, c, rfl, ⟨-, ha⟩, -, hc⟩ := hx
    obtain ⟨a', x', rfl, ha', hnode⟩ := hR a p' _ h ha
    cases hnode with
    | string hstring => exact ⟨a', _, rfl, ⟨trivial, ha'⟩, trivial, hstring y hc⟩
  | array aType name xs ih =>
    obtain ⟨a, v, tb, ps, rfl, ⟨-, ha⟩, ⟨-, hv⟩, hps⟩ := hx
    obtain ⟨a', x', rfl, ha', hnode⟩ := hR a p' _ h ha
    cases hnode with
    | array hvector =>
      obtain ⟨ps', hv', hall⟩ := hvector ps hv
      refine ⟨a', _, _, ps', rfl, ⟨trivial, ha'⟩, ⟨trivial, hv'⟩, ?_⟩
      rw [denotesVector_iff, List.forall₂_iff_get] at hps ⊢
      rw [List.forall₂_iff_get] at hall
      refine ⟨hps.1.trans hall.1, fun i hi hi' ↦ ?_⟩
      -- the values go along with the entries, and these are paired by their place
      have hlt : i < ps.length := hps.1 ▸ hi
      exact ih _ (List.getElem_mem hi) (hall.2 i hlt hi') (hps.2 i hi hlt)
  | adt name fs ih =>
    obtain ⟨a, m, u, g, rfl, ⟨-, ha⟩, ⟨-, hm⟩, hfs⟩ := hx
    obtain ⟨a', x', rfl, ha', hnode⟩ := hR a p' _ h ha
    cases hnode with
    | varAdt hmap =>
      obtain ⟨g', hm', hall⟩ := hmap g hm
      refine ⟨a', _, _, g', rfl, ⟨trivial, ha'⟩, ⟨trivial, hm'⟩, ?_⟩
      have hall := mapRel_iff.1 hall
      rw [denotesMap_iff, List.forall₂_iff_get] at hfs ⊢
      rw [List.forall₂_iff_get] at hall
      refine ⟨hfs.1.trans hall.1, fun i hi hi' ↦ ?_⟩
      have hlt : i < g.toList.length := hfs.1 ▸ hi
      have hentry := hfs.2 i hi hlt
      have hentry' := hall.2 i hlt hi'
      exact ⟨hentry.1.trans hentry'.1, ih _ (List.getElem_mem hi) hentry'.2 hentry.2⟩
  | empty => exact hx.elim
  | sep xs => exact hx.elim
  | other ty => exact hx.elim

end Mirror

/-- The cell of a stack. -/
def Pile.cell : Pile → Addr → Cell
  | node, a => .node a
  | aux k, a => .aux k a

/-- What it holds. -/
def Pile.content : (k : Pile) → k.Entry D → Content D
  | node, x => .node x
  | aux .string, x => .string x
  | aux .vector, x => .vector x
  | aux .map, x => .map x

namespace TwoCallers

variable {K : TwoCallers D} {frozen : Prop} {n : ℕ} {s s' : ParserState D} {p p' : Ptr}

/-- Cells that go together hold entries that do. -/
theorem Related.content (hs : K.Related frozen n s s') {k : Pile} {a a' : Addr}
    (ha : K.AddrRel k a a') :
    Option.Rel (fun y y' ↦ ∃ x x', y = k.content x ∧ y' = k.content x' ∧
      K.EntryRel a.table a'.table k x x') (s.content (k.cell a)) (s'.content (k.cell a')) := by
  have hcontent : ∀ (s : ParserState D) (a : Addr), s.content (k.cell a) =
      ((s.tables a.table).bind fun tbl ↦ (tbl.pile k)[a.index]?).map k.content := fun s a ↦ by
    rcases k with - | (- | - | -) <;> exact (Option.map_bind ..).symm
  have hentry : Option.Rel (K.EntryRel a.table a'.table k)
      ((s.tables a.table).bind fun tbl ↦ (tbl.pile k)[a.index]?)
      ((s'.tables a'.table).bind fun tbl ↦ (tbl.pile k)[a'.index]?) := by
    have htable := hs.tables _ _ ha.link
    generalize s.tables a.table = o at htable ⊢
    generalize s'.tables a'.table = o' at htable ⊢
    cases htable with
    | none => exact .none
    | some hrel => exact hrel.entry k a.index a'.index ha
  rw [hcontent, hcontent]
  generalize ((s.tables a.table).bind fun tbl ↦ (tbl.pile k)[a.index]?) = o at hentry ⊢
  generalize ((s'.tables a'.table).bind fun tbl ↦ (tbl.pile k)[a'.index]?) = o' at hentry ⊢
  cases hentry with
  | none => exact .none
  | some hx => exact .some ⟨_, _, rfl, rfl, hx⟩

/-- A cell has one content. -/
theorem content_inj {k : Pile} {x y : k.Entry D} (h : k.content x = k.content y) : x = y := by
  rcases k with - | (- | - | -) <;> cases h <;> rfl

/-- What a cell holds in the first state goes together with what it holds in the second. -/
theorem Related.content_right (hs : K.Related frozen n s s') {k : Pile} {a a' : Addr}
    {x : k.Entry D} (ha : K.AddrRel k a a') (hx : s.content (k.cell a) = some (k.content x)) :
    ∃ x', s'.content (k.cell a') = some (k.content x') ∧
      K.EntryRel a.table a'.table k x x' := by
  have hcontent := hs.content ha
  rw [hx] at hcontent
  generalize s'.content (k.cell a') = o at hcontent ⊢
  cases hcontent with
  | some hy =>
    obtain ⟨y, y', hxy, rfl, hrel⟩ := hy
    obtain rfl := content_inj hxy
    exact ⟨y', rfl, hrel⟩

/-- The other way round. -/
theorem Related.content_left (hs : K.Related frozen n s s') {k : Pile} {a a' : Addr}
    {x' : k.Entry D} (ha : K.AddrRel k a a') (hx : s'.content (k.cell a') = some (k.content x')) :
    ∃ x, s.content (k.cell a) = some (k.content x) ∧ K.EntryRel a.table a'.table k x x' := by
  have hcontent := hs.content ha
  rw [hx] at hcontent
  generalize s.content (k.cell a) = o at hcontent ⊢
  cases hcontent with
  | some hy =>
    obtain ⟨y, y', rfl, hxy, hrel⟩ := hy
    obtain rfl := content_inj hxy
    exact ⟨y, rfl, hrel⟩

/-- Pointers that go together lead to the same values. -/
theorem Related.mirrors (hs : K.Related frozen n s s') : Mirrors s s' K.PtrRel := by
  intro a p' x h hx
  cases h with
  | node ha =>
    obtain ⟨x', hx', hrel⟩ := hs.content_right (k := .node) ha hx
    refine ⟨_, x', rfl, hx', ?_⟩
    cases hrel with
    | raw => exact .raw
    | int i => exact .int i
    | double d => exact .double d
    | string hc _ =>
      refine .string fun y hy ↦ ?_
      obtain ⟨y', hy', rfl⟩ := hs.content_right (k := .aux .string) hc hy
      exact hy'
    | array hv _ _ =>
      refine .array fun ps hps ↦ ?_
      obtain ⟨ps', hps', hall⟩ := hs.content_right (k := .aux .vector) hv hps
      exact ⟨ps', hps', hall.imp fun _ _ hp ↦ hp.1⟩
    | varAdt hm _ _ =>
      refine .varAdt fun g hg ↦ ?_
      obtain ⟨g', hg', hall⟩ := hs.content_right (k := .aux .map) hm hg
      exact ⟨g', hg', hall.imp fun _ _ hp ↦ hp.1⟩
    | sep _ => exact .sep

/-- The other way round. -/
theorem Related.mirrors_flip (hs : K.Related frozen n s s') :
    Mirrors s' s fun p' p ↦ K.PtrRel p p' := by
  intro a' p x' h hx'
  cases h with
  | node ha =>
    obtain ⟨x, hx, hrel⟩ := hs.content_left (k := .node) ha hx'
    refine ⟨_, x, rfl, hx, ?_⟩
    cases hrel with
    | raw => exact .raw
    | int i => exact .int i
    | double d => exact .double d
    | string hc _ =>
      refine .string fun y hy ↦ ?_
      obtain ⟨y', hy', rfl⟩ := hs.content_left (k := .aux .string) hc hy
      exact hy'
    | array hv _ _ =>
      refine .array fun ps hps ↦ ?_
      obtain ⟨ps', hps', hall⟩ := hs.content_left (k := .aux .vector) hv hps
      exact ⟨ps', hps', (hall.imp fun _ _ hp ↦ hp.1).flip⟩
    | varAdt hm _ _ =>
      refine .varAdt fun g hg ↦ ?_
      obtain ⟨g', hg', hall⟩ := hs.content_left (k := .aux .map) hm hg
      exact ⟨g', hg', MapRel.flip (hall.imp fun _ _ hp ↦ hp.1)⟩
    | sep _ => exact .sep

/-- A pointer to no node goes together with itself only. -/
theorem PtrRel.eq_token {q : Ptr} (h : K.PtrRel p p') (hq : ∀ a, q ≠ .node a) : p = q ↔ p' = q := by
  cases h with
  | node h => exact iff_of_false (fun heq ↦ hq _ heq.symm) fun heq ↦ hq _ heq.symm
  | _ => exact Iff.rfl

/-- Pointers that go together lead to the same values. -/
theorem Related.sameOutcome (hs : K.Related frozen n s s') (h : K.PtrRel p p') :
    SameOutcome s s' p p' :=
  ⟨fun _ ↦ ⟨fun hx ↦ hx.mirror hs.mirrors h,
    fun hx ↦ hx.mirror (R := fun p' p ↦ K.PtrRel p p') hs.mirrors_flip h⟩, fun _ ↦ h.eq_token⟩

end TwoCallers

/-! ### The call -/

variable [CDouble D]

/-- `FUNC_CALL_TYPE`, where the parameters have been evaluated. -/
def Interp.call (f : Func) (actual : List Ptr) (recurseCount : ℕ) : Interp D Next := do
  nextParam f (← createTmp f) actual [] recurseCount

/-- The call ends with this result and in this state. -/
def Returns (f : Func) (actual : List Ptr) (rc : ℕ) (s : ParserState D) (hosts : List (Host D))
    (p : Ptr) (s' : ParserState D) : Prop :=
  ∃ r s₁, Runs (call f actual rc) s r s₁ ∧
    Lib.run Machine.step? (Machine.next [] (r, s₁)) hosts = some ⟨.ret p, [], s'⟩

namespace SameForCall

variable {nlits : ℕ} {typed : Prop} {s s' : ParserState D} {t t' : TableId}
  (h : SameForCall nlits typed s s' t t') {f : Func} {actual actual' : List Ptr}
include h

/-- The two calls go together. -/
theorem call_follows (rc : ℕ) (hf : f.fNode.All (TextNode nlits))
    (hhides : HidesResult s t f ↔ HidesResult s' t' f)
    (hactual : List.Forall₂ (Given s s') actual actual') :
    Follows (call f actual rc) s (call f actual' rc) s' fun r s₁ r' s₁' ↦
      h.callers.MachineRel False (Machine.next [] (r, s₁)) (Machine.next [] (r', s₁')) := by
  refine (h.createTmp_follows hhides).bind ?_
  rintro tmp s₁ tmp' s₁' ⟨hs₁, htmp⟩
  have harg : List.Forall₂ (h.callers.SrcRel True) actual actual' :=
    hactual.imp fun _ _ hp ↦ .inr ⟨trivial, hp⟩
  have hold : ∀ old old', s₁.varTable.head? = some old → s₁'.varTable.head? = some old' →
      h.callers.TmpRel old old' tmp tmp' := by
    intro old old' hold hold'
    obtain ⟨ts, ts', hts, hts', hlen, hall⟩ := hs₁.stack
    obtain rfl := List.eq_nil_of_length_eq_zero hlen
    obtain rfl := List.forall₂_nil_left_iff.1 hall
    rw [hts] at hold
    rw [hts'] at hold'
    obtain rfl := Option.some.inj (h.top.symm.trans hold)
    obtain rfl := Option.some.inj (h.top'.symm.trans hold')
    exact htmp
  refine (TwoCallers.enterFunc_follows rc hs₁ hold harg).mono ?_
  rintro ⟨ctrl, frames⟩ s₂ ⟨ctrl', frames'⟩ s₂'
    ⟨hs₂, old, old', ret, ret', htmp, hret, rfl, rfl, rfl, hctrl⟩
  refine ⟨1, hs₂.thaw, ?_, .funcBody htmp hret .nil⟩
  rcases hctrl with rfl | rfl
  · exact .eval 0 _ hf
  · exact .ret 1 .empty

/-- **Calls that make the same node for the result** return the same. -/
theorem returns (rc : ℕ) (hf : f.fNode.All (TextNode nlits))
    (hhides : HidesResult s t f ↔ HidesResult s' t' f)
    (hactual : List.Forall₂ (Given s s') actual actual') {hosts : List (Host D)} {p : Ptr}
    {s₁ : ParserState D} (hret : Returns f actual rc s hosts p s₁) :
    ∃ p' s₁', Returns f actual' rc s' hosts p' s₁' ∧ SameOutcome s₁ s₁' p p' ∧
      SameGlobals s s₁ s₁' := by
  obtain ⟨r, s₀, hcall, hrun⟩ := hret
  obtain ⟨r', s₀', hcall', hrel⟩ := h.call_follows rc hf hhides hactual r s₀ hcall
  obtain ⟨⟨ctrl, stack, s₁'⟩, hrun', n, hs₁, hctrl, hstack⟩ := hrel.run id h.literal hrun
  cases hstack with
  | nil =>
    cases hctrl with
    | ret _ hp =>
      refine ⟨_, s₁', ⟨r', s₀', hcall', hrun'⟩, hs₁.sameOutcome hp, ?_, fun tbl i n ht hn hown ↦ ?_⟩
      · have hscope := hs₁.kept.scope 0 (h.pos.trans (h.wf.caller h.top h.pos).lt)
        have hscope' := hs₁.kept'.scope 0 (h.pos'.trans (h.wf'.caller h.top' h.pos').lt)
        have heq : Caller.scope s₁' 0 = Caller.scope s₁ 0 := by
          rw [hscope, hscope']
          exact congrArg (Option.map _) h.global
        have hmap := congrArg (Option.map Prod.fst) heq
        rw [Caller.scope, Caller.scope, Option.map_map, Option.map_map] at hmap
        exact hmap
      · exact hs₁.sameOutcome (.node (.shared ⟨tbl, n, ht, hn, hown⟩))

end SameForCall

/-! ### A hidden struct -/

section Hidden

variable {nlits : ℕ} {typed : Prop} {s s' : ParserState D} {t t' : TableId} {f : Func}
  {actual actual' : List Ptr}

/-- The place for the result cannot be made if the caller does not see the struct. -/
theorem runs_createTmp_hidden (h : s.WF nlits typed) (htop : s.varTable.head? = some t)
    (hhides : HidesResult s t f) : Runs (createTmp f) s (some .empty) s := by
  have hvoid : f.fType ≠ .void := by
    intro hvoid
    obtain ⟨x, hx, -⟩ := hhides
    rw [hvoid] at hx
    cases hx
  rw [createTmp, if_neg hvoid]
  refine Lib.runs_bind.2 ⟨t, s, runs_getVarTable_iff.2 ⟨rfl, htop⟩, Lib.runs_bind.2 ⟨none, s, ?_, ?_⟩⟩
  · exact runs_astCreate_hidden h (List.mem_of_mem_head? htop) hhides
  · exact Lib.runs_pure.2 ⟨rfl, rfl⟩

/-- A call without a place for its result returns nothing. -/
theorem leaveFunc_empty {old : TableId} {ret : Option Ptr} {p q : Ptr}
    (h : Runs (leaveFunc old (some .empty) ret p) s q s') : q = .empty := by
  have hrest : ∀ {s : ParserState D} {k : ASTType → Interp D Ptr},
      (∀ ty s q s', Runs (k ty) s q s' → q = .empty) →
        Runs (do removeVarTable; k (← typeOf p)) s q s' → q = .empty := by
    intro s k hk hrun
    obtain ⟨_, s₁, -, hrun⟩ := Lib.runs_bind.1 hrun
    obtain ⟨ty, s₂, -, hrun⟩ := Lib.runs_bind.1 hrun
    exact hk ty s₂ q s' hrun
  cases ret with
  | none =>
    refine hrest (fun ty s q s' hrun ↦ ?_) h
    cases ty <;> exact (Lib.runs_pure.1 hrun).1.symm
  | some ret =>
    obtain ⟨_, s₁, -, h⟩ := Lib.runs_bind.1 h
    refine hrest (fun ty s q s' hrun ↦ ?_) h
    cases ty <;> exact (Lib.runs_pure.1 hrun).1.symm

/-- Below the frames of the call is the one that returns nothing, or it has returned nothing. -/
def Machine.ReturnsEmpty (m : Machine D) : Prop :=
  (∃ fs old ret, m.stack = fs ++ [.funcBody old (some .empty) ret]) ∨
    (m.ctrl = .ret .empty ∧ m.stack = [])

omit [CDouble D] in
/-- The frame of the call stays at the bottom. -/
theorem Machine.ReturnsEmpty.next {fs : List Frame} {old : TableId} {ret : Option Ptr}
    (r : Next × ParserState D) :
    (Machine.next (fs ++ [.funcBody old (some .empty) ret]) r).ReturnsEmpty :=
  .inl ⟨r.1.2 ++ fs, old, ret, (List.append_assoc ..).symm⟩

/-- As long as the call runs its frame waits, and it ends in nothing. -/
theorem Machine.ReturnsEmpty.step {m m' : Machine D} {host : Host D} (h : m.ReturnsEmpty)
    (hstep : m.step host = .ok m') : m'.ReturnsEmpty := by
  obtain ⟨ctrl, stack, ps⟩ := m
  have hgo : ∀ {i : Interp D Next} {fs : List Frame} {old : TableId} {ret : Option Ptr},
      (i ps).map (Machine.next (fs ++ [.funcBody old (some .empty) ret])) = .ok m' →
        m'.ReturnsEmpty := by
    intro i fs old ret hi
    cases hr : i ps with
    | error e =>
      rw [hr] at hi
      cases hi
    | ok r =>
      rw [hr] at hi
      cases hi
      exact .next r
  rcases h with ⟨fs, old, ret, rfl⟩ | ⟨rfl, rfl⟩
  · cases ctrl with
    | eval c rc => exact hgo hstep
    | evalPtr p actualParam rc => exact hgo hstep
    | ret p =>
      cases fs with
      | cons g fs => exact hgo hstep
      -- the frame of the call is the last one, and its place for the result is empty
      | nil =>
        have hstep : (resume host (.funcBody old (some .empty) ret) p ps).map (Machine.next []) =
          .ok m' := hstep
        cases hr : resume host (.funcBody old (some .empty) ret) p ps with
        | error e =>
          rw [hr] at hstep
          cases hstep
        | ok r =>
          rw [hr] at hstep
          cases hstep
          obtain ⟨q, s₁, hq, hpure⟩ := Lib.runs_bind.1 hr
          obtain ⟨hr, -⟩ := Lib.runs_pure.1 hpure
          refine .inr ⟨?_, ?_⟩
          · rw [Machine.next, ← hr, leaveFunc_empty hq]
          · rw [Machine.next, ← hr]
            rfl
  · cases hstep

/-- **A call whose result is hidden** returns nothing. -/
theorem eq_empty_of_hidden {rc : ℕ} {hosts : List (Host D)} {p : Ptr} (h : s.WF nlits typed)
    (htop : s.varTable.head? = some t) (hhides : HidesResult s t f)
    (hret : Returns f actual rc s hosts p s') : p = .empty := by
  obtain ⟨r, s₀, hcall, hrun⟩ := hret
  obtain ⟨tmp, s₁, htmp, hcall⟩ := Lib.runs_bind.1 hcall
  obtain ⟨rfl, rfl⟩ := (runs_createTmp_hidden h htop hhides).unique htmp
  have hstart : (Machine.next [] (r, s₀)).ReturnsEmpty := by
    obtain ⟨old, s₂, -, hcall⟩ := Lib.runs_bind.1 hcall
    obtain ⟨ret, s₃, -, hcall⟩ := Lib.runs_bind.1 hcall
    obtain ⟨b, s₄, -, hcall⟩ := Lib.runs_bind.1 hcall
    split at hcall
    · obtain ⟨rfl, -⟩ := Lib.runs_pure.1 hcall
      exact .inl ⟨[], old, ret, rfl⟩
    · obtain ⟨rfl, -⟩ := Lib.runs_pure.1 hcall
      exact .inl ⟨[], old, ret, rfl⟩
  have hend : ∀ {m m' : Machine D}, m.ReturnsEmpty → Lib.run Machine.step? m hosts = some m' →
      m'.ReturnsEmpty := by
    clear hrun
    induction hosts with
    | nil =>
      intro m m' hm hm'
      obtain rfl := Option.some.inj hm'
      exact hm
    | cons host hosts ih =>
      intro m m' hm hm'
      obtain ⟨m₁, hstep, hrest⟩ := Lib.run_cons_eq_some.1 hm'
      exact ih (hm.step (Machine.step?_eq_some hstep)) hrest
  rcases hend hstart hrun with ⟨fs, old, ret, hstack⟩ | ⟨hctrl, -⟩
  · exact absurd hstack.symm (by simp)
  · cases hctrl
    rfl

end Hidden

/-- **A call does not depend on the tables of its caller**, if neither caller or both hide the struct
that it returns, and only then if it returns anything. -/
theorem call_independent {nlits : ℕ} {typed : Prop} {s s' : ParserState D} {t t' : TableId}
    {f : Func} {actual actual' : List Ptr} {name : Str} (rc : ℕ)
    (h : SameForCall nlits typed s s' t t') (hname : Runs (lookup t name) s (some (.func f)) s)
    (hactual : List.Forall₂ (Given s s') actual actual') :
    ((HidesResult s t f ↔ HidesResult s' t' f) →
      ∀ hosts p s₁, Returns f actual rc s hosts p s₁ →
        ∃ p' s₁', Returns f actual' rc s' hosts p' s₁' ∧ SameOutcome s₁ s₁' p p' ∧
          SameGlobals s s₁ s₁') ∧
    ∀ hosts hosts' p s₁ p' s₁', Returns f actual rc s hosts p s₁ →
      Returns f actual' rc s' hosts' p' s₁' → SameOutcome s₁ s₁' p p' → p ≠ .empty →
        (HidesResult s t f ↔ HidesResult s' t' f) := by
  have hf : f.fNode.All (TextNode nlits) := ((lookup_text h.wf h.text name).run hname).2 f rfl
  constructor
  · intro hhides hosts p s₁ hret
    exact h.returns rc hf hhides hactual hret
  · intro hosts hosts' p s₁ p' s₁' hret hret' hsame hne
    have hempty := hsame.token .empty fun a ha ↦ by cases ha
    refine iff_of_false (fun hhides ↦ hne ?_) fun hhides ↦ hne (hempty.2 ?_)
    · exact eq_empty_of_hidden h.wf h.top hhides hret
    · exact eq_empty_of_hidden h.wf' h.top' hhides hret'

/-! ### One struct, three callers -/

section Example

/-- `struct P { int x; };` -/
def pairAdt : AdtDef := ⟨[80], [⟨.int, none, [120]⟩]⟩

/-- `P f() { P p; return p; }` -/
def makePair : Func :=
  ⟨.elem (.adt [80]), [102], [], .ast (.returnNode (.refVar [112])) (.newVar (.adt [80]) [112])⟩

/-- The body has no literals. -/
theorem makePair_text : makePair.fNode.All (VarTable.TextNode 0) := by
  have hleaf : ∀ c : Ast, c.children = [] → VarTable.TextNode 0 c → c.All (VarTable.TextNode 0) :=
    fun c hc h ↦ Ast.all_iff.2 ⟨h, by simp [hc]⟩
  refine Ast.all_iff.2 ⟨trivial, List.forall_mem_cons.2 ⟨?_, List.forall_mem_singleton.2 ?_⟩⟩
  · exact Ast.all_iff.2 ⟨trivial, List.forall_mem_singleton.2 (hleaf _ rfl trivial)⟩
  · exact hleaf _ rfl trivial

/-- The declarations, and a function that has declared the variable `int x;`. -/
def declareLocal (x : Str) : Interp Unit Ptr := do
  declareAll [.struct pairAdt, .func makePair]
  let _ ← newVarTable
  @variableCreate _ noDoubles (.elem (.basic .int)) 0 x

/-- The state in which it calls `f`. -/
def calling (x : Str) : ParserState Unit :=
  match declareLocal x .new with
  | .ok (_, s) => s
  | .error _ => .new

/-- The caller declares one variable. -/
theorem runs_declareLocal (x : Str) : Runs (declareLocal x) .new (.node ⟨1, 0⟩) (calling x) := rfl

/-- The state in which the function is called keeps the invariant. -/
theorem calling_wf (x : Str) : (calling x).WF 0 True ∧ (calling x).FuncTexts 0 := by
  have hnew : (ParserState.new (D := Unit)).WF 0 True := wf_new
  have hall : Ensures (declareLocal x) .new fun _ s ↦ s.WF 0 True ∧ s.FuncTexts 0 := by
    refine Lib.meets_bind.2 ((declareAll_ensures _ _ hnew).mono fun _ s h ↦ ?_)
    have htext : s.FuncTexts 0 := by
      refine h.funcTexts (fun tbl y f ht hf ↦ ?_) fun f hf ↦ ?_
      · obtain rfl : VarTable.new [] = tbl := Option.some.inj ht
        exact absurd hf (by simp [VarTable.new])
      · obtain rfl : f = makePair := by simpa using hf
        exact makePair_text
    refine Lib.meets_bind.2 ((newVarTable_ensures h.wf).mono fun _ s₁ ⟨hwf₁, _, hpres⟩ ↦ ?_)
    have htext₁ := htext.preserves h.wf.zero_mem hpres
    let _ := noDoubles
    refine (variableCreate_yields hwf₁ _ _ _).mono fun _ _ ⟨h₂, _⟩ ↦ ⟨h₂.wf, ?_⟩
    exact htext₁.preserves hwf₁.zero_mem (.of_evolves h₂.evolves)
  exact hall.run (runs_declareLocal x)

/-- Nothing but the name of the variable differs. -/
theorem sameForCall_calling (x y : Str) : SameForCall 0 True (calling x) (calling y) 1 1 :=
  ⟨(calling_wf x).1, (calling_wf y).1, rfl, rfl, Nat.one_pos, Nat.one_pos, rfl, (calling_wf x).2,
    rfl, rfl⟩

/-- Neither name hides the struct. -/
theorem not_hides_calling {x : Str} (hx : x = [97] ∨ x = [98]) :
    ¬ HidesResult (calling x) 1 makePair := by
  rintro ⟨y, hy, hnot⟩
  obtain rfl := Option.some.inj hy
  rcases hx with rfl | rfl
  · exact hnot pairAdt rfl
  · exact hnot pairAdt rfl

/-- A variable that is called like the struct hides it. -/
theorem hides : HidesResult (calling [80]) 1 makePair := by
  refine ⟨[80], rfl, fun d hd ↦ ?_⟩
  have hfound : Runs (lookup 1 [80]) (calling [80]) (some (.node ⟨1, 0⟩)) (calling [80]) := rfl
  exact absurd (hfound.unique hd).1 (by simp)

/-- What the test accepts is a call that returns. -/
theorem exists_returns {f : Func} {actual : List Ptr} {rc : ℕ} {s : ParserState D}
    {hosts : List (Host D)} {g : Machine D → Bool}
    (h : ((call f actual rc s).toOption.bind fun r ↦
      Lib.run Machine.step? (Machine.next [] r) hosts).any (fun m ↦ m.done && g m) = true) :
    ∃ p s', Returns f actual rc s hosts p s' ∧ g ⟨.ret p, [], s'⟩ = true := by
  obtain ⟨⟨ctrl, stack, s'⟩, hm, htest⟩ := (Option.any_eq_true ..).1 h
  obtain ⟨⟨r, s₁⟩, hr, hrun⟩ := Option.bind_eq_some_iff.1 hm
  obtain ⟨hdone, hg⟩ := (Bool.and_eq_true ..).mp htest
  obtain ⟨⟨p, rfl⟩, rfl⟩ := Machine.returned_of_done hdone
  refine ⟨p, s', ⟨r, s₁, ?_, hrun⟩, hg⟩
  cases hcall : call f actual rc s with
  | error e =>
    rw [hcall] at hr
    cases hr
  | ok x =>
    rw [hcall] at hr
    cases hr
    exact hcall

/-- The variables `int a;` and `int b;` make no difference, but `int P;` does. -/
theorem call_independent_locals : ∃ (_ : CDouble Unit) (hosts : List (Host Unit)) (p p' q : Ptr)
    (s₁ s₁' s₂ : ParserState Unit),
    Returns makePair [] 0 (calling [97]) hosts p s₁ ∧
      Returns makePair [] 0 (calling [98]) hosts p' s₁' ∧ SameOutcome s₁ s₁' p p' ∧
      Returns makePair [] 0 (calling [80]) hosts q s₂ ∧ ¬ SameOutcome s₁ s₂ p q := by
  let _ := noDoubles
  have hfound : Runs (lookup 1 [102]) (calling [97]) (some (.func makePair)) (calling [97]) := rfl
  have hruns : ((call makePair [] 0 (calling [97])).toOption.bind fun r ↦
      Lib.run Machine.step? (Machine.next [] r) (List.replicate 8 (bareHost Unit))).any
        (fun m ↦ m.done && m.result.isSome) = true := by decide +kernel
  have hruns' : ((call makePair [] 0 (calling [80])).toOption.bind fun r ↦
      Lib.run Machine.step? (Machine.next [] r) (List.replicate 8 (bareHost Unit))).any
        (fun m ↦ m.done && true) = true := by decide +kernel
  obtain ⟨p, s₁, hret, hresult⟩ := exists_returns hruns
  obtain ⟨q, s₂, hret₂, -⟩ := exists_returns hruns'
  have hne : p ≠ .empty := by
    rintro rfl
    cases hresult
  have hboth : HidesResult (calling [97]) 1 makePair ↔ HidesResult (calling [98]) 1 makePair :=
    iff_of_false (not_hides_calling (.inl rfl)) (not_hides_calling (.inr rfl))
  obtain ⟨p', s₁', hret', hsame, -⟩ :=
    (call_independent 0 (sameForCall_calling [97] [98]) hfound .nil).1 hboth _ p s₁ hret
  refine ⟨_, _, p, p', q, s₁, s₁', s₂, hret, hret', hsame, hret₂, fun hequal ↦ ?_⟩
  have hiff := (call_independent 0 (sameForCall_calling [97] [80]) hfound .nil).2 _ _ p s₁ q s₂
    hret hret₂ hequal hne
  exact not_hides_calling (.inl rfl) (hiff.2 hides)

end Example

end Meridian.MQL

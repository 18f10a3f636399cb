import Meridian.MQL.Accounting
import Meridian.MQL.StatementOrder
import Meridian.MQL.RingFunctions

/-!
# The stack of tables

A block pushes a table and a call pushes one; their frames, `context` and `funcBody`, pop it when
they are resumed, whatever the evaluation between has come to. So the tables above those of the
caller are as many as the frames above its own that own a table, and when a call of `eval` returns
the stack of tables is the one that it was called with.

`Leaves vt base i` says this of a piece of `eval`: from the tables `vt`, what `i` leaves above
`base` are as many tables as it leaves frames that own one.
-/

namespace Meridian.MQL

open Lib

variable {D : Type}

/-- How many of the frames own a table. -/
def owners (frames : List Frame) : ℕ := frames.countP Frame.ownsTable

/-- An operation that pushes or pops no table leaves the stack of tables as it is. -/
theorem HeapOp.Local.varTable_eq {op : HeapOp D} {s s' : ParserState D} (hop : op.Local)
    (h : step? s op = some s') : s'.varTable = s.varTable := by
  cases HeapOp.effect h with
  | write _ hg => exact hg.varTable
  | granted _ _ hg => exact hg.varTable
  | refused _ hg => exact hg.varTable
  | pushed prev => cases hop
  | popped hts ht => cases hop

theorem Traced.varTable_eq {α : Type} {m : Interp D α} (h : Steady m) (s : ParserState D) :
    Ensures m s fun _ s' ↦ s'.varTable = s.varTable := by
  refine (h s).mono fun a s' ⟨ops, hops, hrun⟩ ↦ ?_
  refine run_invariant (P := fun s' ↦ s'.varTable = s.varTable) (G := fun _ op ↦ op.Local) ?_ rfl
    (.of_inputs (fun op hop _ ↦ hops op hop) s) hrun
  intro s₁ op s₂ h₁ hop hstep
  exact (hop.varTable_eq hstep).trans h₁

namespace Interp

/-- From the tables `vt`, what `i` leaves above `base` are as many tables as it leaves frames that
own one. -/
def Leaves (vt base : List TableId) (i : Interp D Next) : Prop :=
  ∀ s, s.varTable = vt → Ensures i s fun r s' ↦
    ∃ ts, s'.varTable = ts ++ base ∧ ts.length = owners r.2

variable {vt base : List TableId} {α : Type} {m : Interp D α} {f : α → Interp D Next}

theorem leaves_bind (hm : Steady m) (hf : ∀ a, Leaves vt base (f a)) :
    Leaves vt base (m >>= f) := by
  intro s hs
  refine meets_bind.2 ((hm.varTable_eq s).mono fun a s₁ hs₁ ↦ ?_)
  exact hf a s₁ (hs₁.trans hs)

theorem leaves_read (hm : ReadOnly m) (hf : ∀ a, Leaves vt base (f a)) :
    Leaves vt base (m >>= f) :=
  leaves_bind (.of_readOnly hm) hf

theorem leaves_ite {c : Prop} [Decidable c] {i i' : Interp D Next} (h : Leaves vt base i)
    (h' : Leaves vt base i') : Leaves vt base (if c then i else i') := by
  split
  · exact h
  · exact h'

/-- The frames that are left own no table. -/
theorem leaves_pure (c : Ctrl) {frames : List Frame} (h : owners frames = 0) :
    Leaves (D := D) vt vt (pure (c, frames)) :=
  fun _ hs ↦ ⟨[], hs, h.symm⟩

/-- The frame that is left owns the table at the top. -/
theorem leaves_own (c : Ctrl) (t : TableId) {frame : Frame} (h : frame.ownsTable = true) :
    Leaves (D := D) (t :: vt) vt (pure (c, [frame])) := by
  refine fun _ hs ↦ ⟨[t], hs, ?_⟩
  show 1 = List.countP _ [frame]
  rw [List.countP_singleton, if_pos h]

/-! ### The tables of blocks and calls -/

theorem newContext_pushes (s : ParserState D) :
    Ensures newContext s fun _ s' ↦ ∃ t, s'.varTable = t :: s.varTable :=
  getVarTable_readOnly.then fun t ↦ (getTable_readOnly t).then fun _ ↦ ⟨s.nextTable, rfl⟩

theorem newVarTable_pushes (s : ParserState D) :
    Ensures newVarTable s fun _ s' ↦ ∃ t, s'.varTable = t :: s.varTable := by
  refine getVarTable_readOnly.then fun old ↦ ReadOnly.get.then fun s₁ ↦ ?_
  split
  · exact meets_bind.2 ⟨s.nextTable, rfl⟩
  · exact meets_bind.2 trivial

theorem removeVarTable_pops {t : TableId} {s : ParserState D} (hs : s.varTable = t :: vt) :
    Ensures removeVarTable s fun _ s' ↦ s'.varTable = vt :=
  getVarTable_readOnly.then fun t' ↦ (getTable_readOnly t').then fun _ ↦ congrArg List.tail hs

/-- A call pops its table in any case. -/
theorem leaveFunc_pops [CDouble D] {t : TableId} {s : ParserState D} (oldTable : TableId)
    (tmpNode returnNode : Option Ptr) (p : Ptr) (hs : s.varTable = t :: vt) :
    Ensures (leaveFunc oldTable tmpNode returnNode p) s fun _ s' ↦ s'.varTable = vt := by
  have hpop {k : ASTType → Interp D Ptr} (hk : ∀ ty, ReadOnly (k ty)) (s₁ : ParserState D)
      (hs₁ : s₁.varTable = t :: vt) :
      Ensures (do removeVarTable; k (← typeOf p)) s₁ fun _ s' ↦ s'.varTable = vt := by
    refine meets_bind.2 ((removeVarTable_pops hs₁).mono fun _ s₂ hs₂ ↦ ?_)
    refine ((typeOf_readOnly p).bind hk s₂).mono fun _ s₃ hs₃ ↦ ?_
    rw [hs₃, hs₂]
  unfold leaveFunc
  split
  · refine meets_bind.2 (((updateADT_steady oldTable _ _).varTable_eq s).mono fun _ s₁ hs₁ ↦ ?_)
    refine hpop (fun ty ↦ ?_) s₁ (hs₁.trans hs)
    split
    iterate 3 exact .pure _
  · refine hpop (fun ty ↦ ?_) s hs
    split
    iterate 3 exact .pure _

/-! ### The pieces of `eval` -/

variable [CDouble D]

theorem nextOperand_leaves (host : Host D) (curNode : Ast) (evaluated : List Ptr)
    (pending : List Ast) (rc : ℕ) :
    Leaves vt vt (nextOperand host curNode evaluated pending rc) := by
  refine leaves_bind (proceed_steady curNode evaluated) fun b ↦ leaves_ite ?_ (leaves_pure _ rfl)
  cases pending with
  | nil => exact leaves_bind (apply_steady host curNode evaluated) fun _ ↦ leaves_pure _ rfl
  | cons c cs => exact leaves_pure _ rfl

theorem nextParam_leaves (f : Func) (tmpNode : Option Ptr) (actual : List Ptr)
    (pending : List Ast) (rc : ℕ) :
    Leaves (D := D) vt vt (nextParam f tmpNode actual pending rc) := by
  cases pending with
  | nil =>
    intro s hs
    refine meets_bind.2 ((newVarTable_pushes s).mono fun old s₁ hs₁ ↦ ?_)
    obtain ⟨t, ht⟩ := hs₁
    have hbody : Leaves (D := D) (t :: vt) vt (do
        let returnNode ← createReturn f tmpNode
        if ← paramListAssign f.fFormalParam actual then
          pure (.eval f.fNode (rc + 1), [.funcBody old tmpNode returnNode])
        else pure (.ret .empty, [.funcBody old tmpNode returnNode])) := by
      refine leaves_bind (createReturn_steady f tmpNode) fun ret ↦ ?_
      refine leaves_bind (paramListAssign_steady _ actual) fun b ↦ ?_
      exact leaves_ite (leaves_own _ t rfl) (leaves_own _ t rfl)
    exact hbody s₁ (ht.trans (congrArg _ hs))
  | cons c cs => exact leaves_pure _ rfl

theorem evalNode_leaves (host : Host D) (curNode : Ast) (rc : ℕ) :
    Leaves vt vt (evalNode host curNode rc) := by
  refine leaves_bind (enter_steady rc) fun b ↦ leaves_ite ?_ (leaves_pure _ rfl)
  cases curNode with
  | ast left right => exact leaves_pure _ rfl
  | context node =>
    intro s hs
    refine meets_bind.2 ((newContext_pushes s).mono fun _ s₁ hs₁ ↦ ?_)
    obtain ⟨t, ht⟩ := hs₁
    exact leaves_own _ t rfl s₁ (ht.trans (congrArg _ hs))
  | ifNode eval left right => exact leaves_pure _ rfl
  | loop eval node => exact leaves_pure _ rfl
  | forLoop node1 node2 node3 node4 => exact leaves_pure _ rfl
  | funcRef name actualParam =>
    refine leaves_read getVarTable_readOnly fun t ↦ leaves_read (lookup_readOnly t name) fun o ↦ ?_
    cases o with
    | none => exact leaves_pure _ rfl
    | some p => exact leaves_pure _ rfl
  | _ => exact nextOperand_leaves host _ _ _ rc

theorem evalPtr_leaves (callFunc : Ptr) (actualParam : List Ast) (rc : ℕ) :
    Leaves (D := D) vt vt (evalPtr callFunc actualParam rc) := by
  refine leaves_bind (enter_steady rc) fun b ↦ leaves_ite ?_ (leaves_pure _ rfl)
  cases callFunc with
  | func f => exact leaves_bind (createTmp_steady f) fun tmp ↦ nextParam_leaves f tmp _ _ rc
  | node a => exact leaves_read (evalValue_readOnly a) fun _ ↦ leaves_pure _ rfl
  | _ => exact leaves_pure _ rfl

/-- A frame that owns no table. -/
theorem resume_leaves (host : Host D) {frame : Frame} (p : Ptr) (hf : frame.ownsTable = false) :
    Leaves vt vt (resume host frame p) := by
  cases frame with
  | operands curNode evaluated pending rc => exact nextOperand_leaves host _ _ _ rc
  | funcParam f tmpNode actual pending rc => exact nextParam_leaves f tmpNode _ pending rc
  | _ =>
    intro s hs
    refine (resume_control host p s hf (by simp) (by simp)).mono fun r s' h ↦ ?_
    exact ⟨[], h.1 ▸ hs, (List.countP_eq_zero.2 fun f hmem ↦ by simp [h.2 f hmem]).symm⟩

/-- A frame that owns a table pops it. -/
theorem resume_pops (host : Host D) {frame : Frame} (t : TableId) (p : Ptr)
    (hf : frame.ownsTable = true) : Leaves (t :: vt) vt (resume host frame p) := by
  intro s hs
  cases frame with
  | context =>
    refine meets_bind.2 ((removeVarTable_pops hs).mono fun _ s₁ hs₁ ↦ ?_)
    exact leaves_read (forward_readOnly p) (fun _ ↦ leaves_pure _ rfl) s₁ hs₁
  | funcBody oldTable tmpNode returnNode =>
    refine meets_bind.2 ((leaveFunc_pops oldTable tmpNode returnNode p hs).mono fun _ s₁ hs₁ ↦ ?_)
    exact ⟨[], hs₁, rfl⟩
  | _ => cases hf

end Interp

/-! ### A call of `eval` -/

namespace Machine

/-- The call of `eval` with the stack `S` has returned. -/
def Returned (S : List Frame) (m : Machine D) : Prop := (∃ p, m.ctrl = .ret p) ∧ m.stack = S

/-- Within the call with the stack `S` and the tables `base`, or at its return. -/
def Within (S : List Frame) (base : List TableId) (m : Machine D) : Prop :=
  ∃ frames ts, m.stack = frames ++ S ∧ m.ps.varTable = ts ++ base ∧ ts.length = owners frames

variable {S : List Frame} {vt base : List TableId} {m m' : Machine D}

/-- What a piece of `eval` does above the frames that wait for it. -/
theorem within_next {i : Interp D Interp.Next} {s : ParserState D} {frames : List Frame}
    {ts : List TableId} (hi : Interp.Leaves vt (ts ++ base) i) (hs : s.varTable = vt)
    (hts : ts.length = owners frames)
    (h : (i s).map (next (frames ++ S)) = .ok m') : Within S base m' := by
  cases hr : i s with
  | error e =>
    rw [hr] at h
    cases h
  | ok r =>
    rw [hr] at h
    cases h
    obtain ⟨ts', hts', hlen⟩ := (hi s hs).run hr
    refine ⟨r.1.2 ++ frames, ts' ++ ts, (List.append_assoc ..).symm, ?_, ?_⟩
    · rw [List.append_assoc]
      exact hts'
    · rw [List.length_append, hlen, hts]
      exact (List.countP_append ..).symm

variable [CDouble D]

/-- **One step** within a call that has not returned. -/
theorem Within.step {host : Host D} (h : Within S base m) (hret : ¬ m.Returned S)
    (hstep : m.step? host = some m') : Within S base m' := by
  have hstep := step?_eq_some hstep
  obtain ⟨frames, ts, hstack, hvt, hlen⟩ := h
  obtain ⟨ctrl, stack, ps⟩ := m
  have hstack : stack = frames ++ S := hstack
  subst hstack
  cases ctrl with
  | eval curNode rc => exact within_next (Interp.evalNode_leaves host curNode rc) hvt hlen hstep
  | evalPtr p actualParam rc =>
    exact within_next (Interp.evalPtr_leaves p actualParam rc) hvt hlen hstep
  | ret p =>
    cases frames with
    | nil => exact absurd ⟨⟨p, rfl⟩, rfl⟩ hret
    | cons frame frames =>
      have hcount : owners (frame :: frames) = owners frames + if frame.ownsTable then 1 else 0 :=
        List.countP_cons
      have hstep : (Interp.resume host frame p ps).map (next (frames ++ S)) = .ok m' := hstep
      cases hown : frame.ownsTable with
      | false =>
        rw [hcount, hown, if_neg Bool.false_ne_true, add_zero] at hlen
        exact within_next (Interp.resume_leaves host p hown) hvt hlen hstep
      | true =>
        rw [hcount, hown, if_pos rfl] at hlen
        obtain ⟨t, ts, rfl⟩ := List.exists_cons_of_length_eq_add_one hlen
        exact within_next (Interp.resume_pops host t p hown) hvt (Nat.succ_inj.1 hlen) hstep

/-- **Scope stack balance.** When a call of `eval` returns, `var_table` contains the tables that it
contained when it was called, in the same order. -/
theorem eval_keeps_varTable {c : Ctrl} {ps : ParserState D} {hosts : List (Host D)}
    (hrun : run step? ⟨c, S, ps⟩ hosts = some m)
    (hwithin : AllSteps (fun m _ ↦ ¬ m.Returned S) step? ⟨c, S, ps⟩ hosts)
    (hret : m.Returned S) : m.ps.varTable = ps.varTable := by
  have hstart : Within S ps.varTable ⟨c, S, ps⟩ := ⟨[], [], rfl, rfl, rfl⟩
  obtain ⟨frames, ts, hstack, hvt, hlen⟩ :=
    run_invariant (fun m _ m' h hm hstep ↦ h.step hm hstep) hstart hwithin hrun
  have hframes : frames = [] := List.append_left_eq_self.1 (hstack.symm.trans hret.2)
  rw [hframes] at hlen
  rw [hvt, List.length_eq_zero_iff.1 hlen]
  rfl

/-- The test for `Returned []`. -/
def done (m : Machine D) : Bool :=
  match m.ctrl, m.stack with
  | .ret _, [] => true
  | _, _ => false

omit [CDouble D] in
theorem returned_of_done (h : m.done = true) : m.Returned [] := by
  unfold done at h
  split at h
  · next p hctrl hstack => exact ⟨⟨p, hctrl⟩, hstack⟩
  · cases h

omit [CDouble D] in
theorem not_returned_of_done (h : (!m.done) = true) : ¬ m.Returned [] := by
  rintro ⟨⟨p, hctrl⟩, hstack⟩
  rw [done, hctrl, hstack] at h
  cases h

/-- A block that is left by a `break`: `{ break; }`. -/
theorem eval_keeps_varTable_break : ∃ (_ : CLibrary) (m : Machine Binary64),
    m.Returned [] ∧ m.ps.varTable = [0] := by
  let _ := reducing
  have hruns : (run (fun m host ↦ if !m.done then m.step? host else none)
      (⟨.eval (.context (statementList [.breakNode])) 0, [], .new⟩ : Machine Binary64)
      (List.replicate 7 (bareHost Binary64))).any done = true := by
    decide +kernel
  obtain ⟨m, hm, hdone⟩ := (Option.any_eq_true ..).1 hruns
  obtain ⟨hall, hrun⟩ := allSteps_of_run_ite hm
  have hret := returned_of_done hdone
  exact ⟨reducing, m, hret,
    eval_keeps_varTable hrun (hall.imp fun _ _ ↦ not_returned_of_done) hret⟩

end Machine

end Meridian.MQL

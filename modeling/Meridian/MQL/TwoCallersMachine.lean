import Meridian.MQL.TwoCallersNative
import Meridian.MQL.SideEffects

/-!
# Evaluation, for two callers

The steps of the machine in both calls at once. The frames go together as the tables do: a block and
a call push a table and are the frames that pop it (`FramesRel`), and at the bottom is the call that
is compared, whose result is in the table of the caller.
-/

namespace Meridian.MQL

open Lib (Runs Follows)
open Interp
open VarTable (TextNode)

/-- The pointers in a frame. -/
def Frame.pointers : Frame → List Ptr
  | operands _ evaluated _ _ => evaluated
  | funcParam _ tmpNode actual _ _ => tmpNode.toList ++ actual
  | funcBody _ tmpNode returnNode => tmpNode.toList ++ returnNode.toList
  | _ => []

namespace TwoCallers

variable {D : Type} {K : TwoCallers D} {frozen : Prop} {n : ℕ} {t t' : TableId}
  {p p' q q' : Ptr} {s s' : ParserState D} {host : Host D}

/-! ### What a node does with its operands -/

/-- Lists that go together are out of bounds at the same places. -/
theorem rel_getElem? {α β : Type} {R : α → β → Prop} {l : List α} {l' : List β}
    (h : List.Forall₂ R l l') (i : ℕ) : Option.Rel R l[i]? l'[i]? := by
  induction h generalizing i with
  | nil => exact .none
  | cons hx _ ih =>
    cases i with
    | zero => exact .some hx
    | succ i => exact ih i

/-- Nodes that are paired have the same kind, so both are lists or neither is. -/
theorem evalValue_both {a a' : Addr} (ha : K.AddrRel .node a a') :
    K.Both (D := D) frozen n (evalValue a) (evalValue a') K.PtrRel := by
  refine (getNode_both ha).bind fun x x' hx ↦ ?_
  cases hx with
  | sep _ => exact both_pure .empty
  | _ => exact both_pure (.node ha)

/-- The index is an int, the same one in both calls. -/
theorem arrayAccess_both (hp : K.PtrRel p p') (hq : K.PtrRel q q') :
    K.Both (D := D) frozen n (arrayAccess p q) (arrayAccess p' q') K.PtrRel := by
  refine (nodeAt_both hp).bind fun o o' ho ↦ (nodeAt_both hq).bind fun r r' hr ↦ ?_
  cases ho with
  | none => exact both_pure .empty
  | node _ hx =>
    cases hr with
    | none => cases hx <;> exact both_pure .empty
    | node _ hy =>
      cases hx with
      | array hv _ _ =>
        cases hy with
        | int i =>
          -- one index, so either both entries exist and go together or neither does
          refine both_ite (both_pure .empty) ((getVector_both hv).bind fun ps ps' hps ↦ both_pure ?_)
          have hi := rel_getElem? hps i.toInt.toNat
          generalize ps[i.toInt.toNat]? = e at hi ⊢
          generalize ps'[i.toInt.toNat]? = e' at hi ⊢
          cases hi with
          | none => exact .empty
          | some hp => exact hp.1
        | _ => exact both_pure .empty
      | _ => exact both_pure .empty

/-- Maps that go together have the same fields. -/
theorem adtAccess_both (hp : K.PtrRel p p') (x : Str) :
    K.Both (D := D) frozen n (adtAccess p x) (adtAccess p' x) K.PtrRel := by
  refine (nodeAt_both hp).bind fun o o' ho ↦ ?_
  cases ho with
  | none => exact both_pure .empty
  | node _ hx =>
    cases hx with
    | varAdt hm _ _ =>
      refine (getMap_both hm).bind fun f f' hf ↦ both_pure ?_
      have hx := hf x
      generalize f[x]? = o at hx ⊢
      generalize f'[x]? = o' at hx ⊢
      cases hx with
      | none => exact .empty
      | some hp => exact hp.1
    | _ => exact both_pure .empty

/-- The text itself goes to the host and leaves no trace in the state. -/
theorem printNode_both (hp : K.PtrRel p p') :
    K.Both (D := D) frozen n (printNode p) (printNode p') K.PtrRel := by
  refine (typeOf_both hp).bind ?_
  rintro ty _ rfl
  cases ty <;> first | exact both_pure hp | exact both_pure .empty

section Operands

variable [CDouble D]

/-- The variable is made in the table of the call, never in that of the caller. -/
theorem assignNewVar_both (hbody : ¬ frozen) (d : DeclType) (x : Str) (hp : K.PtrRel p p') :
    K.Both (D := D) frozen (n + 1) (assignNewVar d x p) (assignNewVar d x p') K.PtrRel := by
  refine (typeOf_both hp).bind ?_
  rintro ty _ rfl
  refine both_ite (both_pure hp) (variableCreate_both.bind fun q q' hq ↦ ?_)
  refine getVarTable_both.bind fun u u' hu ↦ (updateADT_body_both hbody hu hq.1 hp).bind ?_
  rintro b _ rfl
  exact both_ite (both_pure hq.1) (both_pure .empty)

/-- The operand is written over, as any cell that both calls have may be while a body is evaluated.
-/
theorem unaryOperation_both (hbody : ¬ frozen) (op : UnaryOp) (hp : K.PtrRel p p') :
    K.Both (D := D) frozen n (unaryOperation op p) (unaryOperation op p') K.PtrRel := by
  refine (nodeAt_both hp).bind fun o o' ho ↦ ?_
  cases ho with
  | none => cases op <;> exact both_pure .empty
  | @node a a' _ _ ha hx =>
    have hset : ∀ {x x' : Node D}, K.NodeRel a.table a'.table x x' → K.Both frozen n (do
        setNode a x
        pure (Ptr.node a)) (do
        setNode a' x'
        pure p') K.PtrRel := fun hx ↦
      (setNode_both ha (fun h ↦ absurd h hbody) hx).bind fun _ _ _ ↦ both_pure hp
    cases op with
    | minus =>
      cases hx with
      | int i => exact hset (.int _)
      | double d => exact hset (.double _)
      | _ => exact both_pure .empty
    | not =>
      cases hx with
      | int i => exact hset (.int _)
      | _ => exact both_pure .empty

/-- The numbers of paired nodes are equal, and so are the results. -/
theorem arithOperation_both (op : BinOp) (hp : K.PtrRel p p') (hq : K.PtrRel q q') :
    K.Both (D := D) frozen (n + 1) (arithOperation op p q) (arithOperation op p' q') K.PtrRel := by
  refine getVarTable_both.bind fun t t' ht ↦ ?_
  refine (nodeAt_both hp).bind fun o o' ho ↦ (nodeAt_both hq).bind fun r r' hr ↦ ?_
  -- a node is made in any case
  have hnode : ∀ {x x' : Node D}, K.NodeRel t t' x x' →
      K.Both frozen (n + 1) (newStackAst t (pure x)) (newStackAst t' (pure x')) (K.Made t) := fun hx ↦
    newStackAst_both (.new ht) (fun _ ↦ ht.le) (both_pure hx)
  have hvalue : ∀ {x x' : Node D}, K.NodeRel t t' x x' →
      K.Both frozen (n + 1) (do return orEmpty (← newStackAst t (pure x)))
        (do return orEmpty (← newStackAst t' (pure x'))) K.PtrRel := fun hx ↦
    (hnode hx).bind fun _ _ hm ↦ both_pure (Made.slotRel hm).1
  have hnone : K.Both (D := D) frozen (n + 1) (do
        let _ ← newStackAst t (pure .raw)
        pure Ptr.empty) (do
        let _ ← newStackAst t' (pure .raw)
        pure Ptr.empty) K.PtrRel :=
    (hnode .raw).bind fun _ _ _ ↦ both_pure .empty
  -- nodes go together only if they are of one kind, so both calls take the same branch
  cases ho with
  | none => exact hnone
  | node _ hx =>
    cases hr with
    | none => cases hx <;> exact hnone
    | node _ hy =>
      cases hx with
      | int x =>
        cases hy with
        | int y =>
          simp only
          cases arithInt op x y with
          | ok z => exact hvalue (.int z)
          | error e =>
            refine (hnode .raw).bind fun r r' hr ↦ ?_
            cases hr with
            | none => exact both_pure .empty
            -- there is nothing to follow after a fault
            | some _ => exact both_throw
        | _ => exact hnone
      | double x =>
        cases hy with
        | double y =>
          simp only
          cases hz : arithDouble op x y with
          | none => exact hnone
          | some z =>
            cases z with
            | raw => exact hvalue .raw
            | int i => exact hvalue (.int i)
            | double d => exact hvalue (.double d)
            | _ => cases arithDouble_plain hz
        | _ => exact hnone
      | _ => exact hnone

/-- The type of an operand is the same in both calls. -/
theorem binOperation_both (op : BinOp) (hp : K.PtrRel p p') (hq : K.PtrRel q q') :
    K.Both (D := D) frozen (n + 1) (binOperation op p q) (binOperation op p' q') K.PtrRel := by
  refine (typeOf_both hp).bind ?_
  rintro ty _ rfl
  refine both_ite (both_pure hp) ((typeOf_both hq).bind ?_)
  rintro ty' _ rfl
  exact both_ite (both_pure hq) (arithOperation_both op hq hp)

/-- The two assignments succeed together. -/
theorem assignAdt_both (hbody : ¬ frozen) (hp : K.PtrRel p p') (hq : K.PtrRel q q') :
    K.Both (D := D) frozen (n + 1) (assignAdt p q) (assignAdt p' q') K.PtrRel := by
  refine (typeOf_both hp).bind ?_
  rintro ty _ rfl
  refine both_ite (both_pure hp) ((typeOf_both hq).bind ?_)
  rintro ty' _ rfl
  refine both_ite (both_pure hq) (getVarTable_both.bind fun t t' ht ↦ ?_)
  refine (updateADT_body_both hbody ht hq hp).bind ?_
  rintro b _ rfl
  exact both_ite (both_pure hq) (both_pure .empty)

/-- The variable for the result has its own name in the table of the call. -/
theorem returnValue_both (hbody : ¬ frozen) (hp : K.PtrRel p p') :
    K.Both (D := D) frozen (n + 1) (returnValue p) (returnValue p') K.PtrRel := by
  refine (typeOf_both hp).bind ?_
  rintro ty _ rfl
  refine both_ite (both_pure .returnNode) ?_
  exact (variableAssign_body_both hbody hp).bind fun _ _ _ ↦ both_pure .returnNode

/-- The branches of `apply` for the native functions of one operand, taken together. -/
theorem apply_native1 (f : NativeFunc1) (param1 : Ast) (p : Ptr) :
    apply host (.native1 f param1) [p] = native1 host f p := by
  cases f <;> rfl

/-- What a node does with operands that go together. The number of operands is the same in both
calls, so a wrong one ends both with `EMPTY`. -/
theorem apply_both {c : Ast} {ev ev' : List Ptr} (hbody : ¬ frozen) (hc : TextNode K.nlits c)
    (hlit : ∀ a, a.table = 0 → a.index < K.nlits → K.AddrRel .node a a)
    (hev : List.Forall₂ K.PtrRel ev ev') :
    K.Both frozen (n + 1) (apply host c ev) (apply host c ev') K.PtrRel := by
  cases c with
  | literal a => exact evalValue_both (hlit a hc.1 hc.2)
  | newVar t x => exact variableCreate_both.mono fun _ _ h ↦ h.1
  | newVarAssignSep d x =>
    exact (mkSepList_both hev).bind fun _ _ hp ↦ assignNewVar_both hbody d x hp
  | refVar x =>
    refine getVarTable_both.bind fun t t' ht ↦ (lookup_scope_both ht.scope).bind fun o o' ho ↦ ?_
    cases ho with
    | none => exact both_pure .empty
    | some hp => exact both_pure hp
  | breakNode => exact both_pure .breakToken
  | continueNode => exact both_pure .continueToken
  | getSelf => exact createIdent_both hbody _ _ _
  -- what these two return may be a node that the caller has received
  | rpc => exact hc.elim
  | getDistance => exact hc.elim
  | newVarArray t x size =>
    rcases hev with - | ⟨hp, - | -⟩
    · exact both_pure .empty
    · exact onInt_both hp fun i ↦ variableCreate_both.mono fun _ _ h ↦ h.1
    · exact both_pure .empty
  | newVarAssign d x assign =>
    rcases hev with - | ⟨hp, - | -⟩
    · exact both_pure .empty
    · exact assignNewVar_both hbody d x hp
    · exact both_pure .empty
  | refVarArray nameAst accessAst =>
    rcases hev with - | ⟨hp, - | ⟨hq, - | -⟩⟩
    · exact both_pure .empty
    · exact both_pure .empty
    · exact arrayAccess_both hq hp
    · exact both_pure .empty
  | refVarAdt nameAst dotName =>
    rcases hev with - | ⟨hp, - | -⟩
    · exact both_pure .empty
    · exact adtAccess_both hp dotName
    · exact both_pure .empty
  | print node =>
    rcases hev with - | ⟨hp, - | -⟩
    · exact both_pure .empty
    · exact printNode_both hp
    · exact both_pure .empty
  | println node =>
    rcases hev with - | ⟨hp, - | -⟩
    · exact both_pure .empty
    · exact printNode_both hp
    · exact both_pure .empty
  | unary op node =>
    rcases hev with - | ⟨hp, - | -⟩
    · exact both_pure .empty
    · exact unaryOperation_both hbody op hp
    · exact both_pure .empty
  | bin op left right =>
    rcases hev with - | ⟨hp, - | ⟨hq, - | -⟩⟩
    · exact both_pure .empty
    · exact both_pure .empty
    · exact binOperation_both op hp hq
    · exact both_pure .empty
  | assignAdt left right =>
    rcases hev with - | ⟨hp, - | ⟨hq, - | -⟩⟩
    · exact both_pure .empty
    · exact both_pure .empty
    · exact assignAdt_both hbody hp hq
    · exact both_pure .empty
  | returnNode node =>
    rcases hev with - | ⟨hp, - | -⟩
    · exact both_pure .empty
    · exact returnValue_both hbody hp
    · exact both_pure .empty
  | native1 f param1 =>
    rcases hev with - | ⟨hp, - | -⟩
    · cases f <;> exact both_pure .empty
    · rw [apply_native1, apply_native1]
      exact native1_both hbody host f hp
    · cases f <;> exact both_pure .empty
  | native2 f param1 param2 =>
    rcases hev with - | ⟨hp, - | ⟨hq, - | -⟩⟩
    · exact both_pure .empty
    · exact both_pure .empty
    · exact native2_both hbody f hp hq
    · exact both_pure .empty
  | _ => exact both_pure .empty

end Operands

/-! ### Frames -/

variable (K) in
/-- The places for the result of a call, which is copied there after the body. -/
def TmpRel (old old' : TableId) : Option Ptr → Option Ptr → Prop :=
  Option.Rel fun p p' ↦ ∃ t, K.ThisOk old old' t ∧ K.SlotRel t p p'

variable (K) in
/-- Frames that pop no table. -/
inductive FrameRel : Frame → Frame → Prop
  | operands {c : Ast} {ev ev' : List Ptr} {pending : List Ast} (rc : ℕ)
    (hc : c.All (TextNode K.nlits)) (hev : List.Forall₂ K.PtrRel ev ev')
    (hpending : ∀ d ∈ pending, d.All (TextNode K.nlits)) :
    FrameRel (.operands c ev pending rc) (.operands c ev' pending rc)
  | funcParam {f : Func} {tmp tmp' : Option Ptr} {actual actual' : List Ptr} {pending : List Ast}
    (rc : ℕ) (hf : f.fNode.All (TextNode K.nlits)) (htmp : Option.Rel K.PtrRel tmp tmp')
    (hactual : List.Forall₂ K.PtrRel actual actual')
    (hpending : ∀ d ∈ pending, d.All (TextNode K.nlits)) :
    FrameRel (.funcParam f tmp actual pending rc) (.funcParam f tmp' actual' pending rc)
  | text {f : Frame} (hpointers : f.pointers = []) (howns : f.ownsTable = false)
    (htext : ∀ c ∈ f.text, c.All (TextNode K.nlits)) : FrameRel f f

variable (K) in
/-- Stacks of frames that go together, where `n` tables have been pushed. -/
inductive FramesRel : ℕ → List Frame → List Frame → Prop
  | nil : FramesRel 0 [] []
  | plain {n : ℕ} {f f' : Frame} {fs fs' : List Frame} (hf : K.FrameRel f f')
    (h : FramesRel (n + 1) fs fs') : FramesRel (n + 1) (f :: fs) (f' :: fs')
  | context {n : ℕ} {fs fs' : List Frame} (h : FramesRel (n + 1) fs fs') :
    FramesRel (n + 2) (.context :: fs) (.context :: fs')
  | funcBody {n : ℕ} {old old' : TableId} {tmp tmp' ret ret' : Option Ptr} {fs fs' : List Frame}
    (htmp : K.TmpRel old old' tmp tmp') (hret : Option.Rel K.PtrRel ret ret')
    (h : FramesRel n fs fs') :
    FramesRel (n + 1) (.funcBody old tmp ret :: fs) (.funcBody old' tmp' ret' :: fs')

variable (K) in
/-- Calls and returns that go together. -/
inductive CtrlRel : ℕ → Ctrl → Ctrl → Prop
  | eval {c : Ast} (n rc : ℕ) (hc : c.All (TextNode K.nlits)) :
    CtrlRel (n + 1) (.eval c rc) (.eval c rc)
  | evalPtr {p p' : Ptr} {actualParam : List Ast} (n rc : ℕ) (hp : K.PtrRel p p')
    (hactual : ∀ c ∈ actualParam, c.All (TextNode K.nlits)) :
    CtrlRel (n + 1) (.evalPtr p actualParam rc) (.evalPtr p' actualParam rc)
  | ret {p p' : Ptr} (n : ℕ) (hp : K.PtrRel p p') : CtrlRel n (.ret p) (.ret p')

variable (K) in
/-- What comes next goes together, on stacks that do. -/
def Nexts (frozen : Prop) (n : ℕ) (m m' : Interp D Next) : Prop :=
  ∀ s s', K.Related frozen n s s' → ∀ fs fs', K.FramesRel n fs fs' →
    Follows m s m' s' fun r t r' t' ↦ ∃ k, K.Related frozen k t t' ∧ K.CtrlRel k r.1 r'.1 ∧
      K.FramesRel k (r.2 ++ fs) (r'.2 ++ fs')

variable {m m' : Interp D Next} {α β : Type}

/-- A computation, and then the step that goes on with its result. -/
theorem Both.nexts {i : Interp D α} {i' : Interp D β} {R : α → β → Prop} {f : α → Interp D Next}
    {f' : β → Interp D Next} (h : K.Both frozen n i i' R)
    (hf : ∀ x y, R x y → K.Nexts frozen n (f x) (f' y)) :
    K.Nexts frozen n (i >>= f) (i' >>= f') :=
  fun s s' hs fs fs' hfs ↦ (h s s' hs).bind fun x t y t' hxy ↦ hf x y hxy.2 t t' hxy.1 fs fs' hfs

/-- The condition is the same in both calls. -/
theorem nexts_ite {c : Prop} [Decidable c] {m₁ m₁' : Interp D Next} (h : K.Nexts frozen n m m')
    (h₁ : K.Nexts frozen n m₁ m₁') : K.Nexts frozen n (if c then m else m₁) (if c then m' else m₁') := by
  split
  · exact h
  · exact h₁

/-- A return. -/
theorem nexts_ret (hp : K.PtrRel p p') :
    K.Nexts (D := D) frozen n (pure (.ret p, [])) (pure (.ret p', [])) :=
  fun _ _ hs _ _ hfs ↦ Lib.follows_pure ⟨n, hs, .ret n hp, hfs⟩

/-- A call, and the frame that waits for it. -/
theorem nexts_call {c : Ast} {f f' : Frame} (rc : ℕ) (hc : c.All (TextNode K.nlits))
    (hf : K.FrameRel f f') :
    K.Nexts (D := D) frozen (n + 1) (pure (.eval c rc, [f])) (pure (.eval c rc, [f'])) :=
  fun _ _ hs _ _ hfs ↦ Lib.follows_pure ⟨n + 1, hs, .eval n rc hc, .plain hf hfs⟩

/-- Signals are equal in both calls. -/
theorem forward_both (hp : K.PtrRel p p') :
    K.Both (D := D) frozen n (forward p) (forward p') K.PtrRel := by
  refine (typeOf_both hp).bind ?_
  rintro ty _ rfl
  cases ty <;> first | exact both_pure hp | exact both_pure .empty

/-- Both calls take the same branch. -/
theorem isNonzero_both (hp : K.PtrRel p p') :
    K.Both (D := D) frozen n (isNonzero p) (isNonzero p') Eq := by
  refine (nodeAt_both hp).bind fun o o' ho ↦ ?_
  cases ho with
  | none => exact both_pure rfl
  | node _ hx => cases hx <;> exact both_pure rfl

/-- The slices go together: `evalCount` is part of what is related. -/
theorem enter_both (rc : ℕ) : K.Both (D := D) frozen n (enter rc) (enter rc) Eq := by
  refine both_ite (both_pure rfl) ?_
  intro s s' hs r t hrun
  obtain ⟨_, s₁, hmodify, hpure⟩ := Lib.runs_bind.1 hrun
  obtain ⟨rfl, rfl⟩ := Lib.runs_pure.1 hpure
  have hmodify := Lib.runs_modify.1 hmodify
  subst hmodify
  refine ⟨true, _, Lib.runs_bind.2 ⟨(), _, Lib.runs_modify.2 rfl, Lib.runs_pure.2 ⟨rfl, rfl⟩⟩, ?_, rfl⟩
  rw [hs.evals]
  split
  · exact hs
  · exact ⟨hs.tables, hs.stack, hs.next, hs.count, rfl, hs.kept.congr fun _ _ ↦ rfl,
      hs.kept'.congr fun _ _ ↦ rfl⟩

/-! ### Calls -/

variable (K) in
/-- Machines that go together. -/
def MachineRel (frozen : Prop) (m m' : Machine D) : Prop :=
  ∃ n, K.Related frozen n m.ps m'.ps ∧ K.CtrlRel n m.ctrl m'.ctrl ∧ K.FramesRel n m.stack m'.stack

/-- One step of the first machine, and what the second one does. -/
theorem step_of_follows {i i' : Interp D Next} {fs fs' : List Frame} {m : Machine D}
    (h : Follows i s i' s' fun r t r' t' ↦ ∃ k, K.Related frozen k t t' ∧ K.CtrlRel k r.1 r'.1 ∧
      K.FramesRel k (r.2 ++ fs) (r'.2 ++ fs'))
    (hstep : (i s).map (Machine.next fs) = .ok m) :
    ∃ m', (i' s').map (Machine.next fs') = .ok m' ∧ K.MachineRel frozen m m' := by
  cases hi : i s with
  | error e =>
    rw [hi] at hstep
    cases hstep
  | ok r =>
    obtain ⟨r', t', hrun, hrel⟩ := h r.1 r.2 hi
    rw [hi] at hstep
    cases hstep
    have hrun : i' s' = .ok (r', t') := hrun
    exact ⟨Machine.next fs' (r', t'), by rw [hrun]; rfl, hrel⟩

variable [CDouble D]

/-- The node for the result of a function that is called from here. -/
theorem createTmp_both (f : Func) :
    K.Both (D := D) frozen (n + 1) (createTmp f) (createTmp f) (Option.Rel K.PtrRel) := by
  refine both_ite (both_pure .none) (getVarTable_both.bind fun t t' ht ↦ ?_)
  refine (astCreate_both (.new ht) (fun _ ↦ ht.le) fun _ _ ↦ .inl ht.scope).bind fun o o' ho ↦ ?_
  exact both_pure (.some (Made.slotRel ho).1)

/-- The variable of the result, if the function has one. -/
theorem createReturn_both {f : Func} {o o' : Option Ptr} {R : Ptr → Ptr → Prop}
    (ho : Option.Rel R o o') :
    K.Both (D := D) frozen (n + 1) (createReturn f o) (createReturn f o') (Option.Rel K.PtrRel) := by
  cases ho with
  | none => exact both_pure .none
  | some _ => exact variableCreate_both.bind fun q q' hq ↦ both_pure (.some hq.1)

/-- The assignment of the parameters, in a new table. -/
theorem enterFunc_follows {f : Func} {tmp tmp' : Option Ptr} {actual actual' : List Ptr} (rc : ℕ)
    (hs : K.Related frozen n s s')
    (htmp : ∀ old old', s.varTable.head? = some old → s'.varTable.head? = some old' →
      K.TmpRel old old' tmp tmp')
    (hactual : List.Forall₂ (K.SrcRel frozen) actual actual') :
    Follows (enterFunc f tmp actual rc) s (enterFunc f tmp' actual' rc) s' fun r t r' t' ↦
      K.Related frozen (n + 1) t t' ∧ ∃ old old' ret ret', K.TmpRel old old' tmp tmp' ∧
        Option.Rel K.PtrRel ret ret' ∧ r.2 = [.funcBody old tmp ret] ∧
          r'.2 = [.funcBody old' tmp' ret'] ∧ r'.1 = r.1 ∧
            (r.1 = .eval f.fNode (rc + 1) ∨ r.1 = .ret .empty) := by
  refine (newVarTable_follows hs).bind ?_
  rintro old s₁ old' s₁' ⟨hs₁, hold, hold'⟩
  have htmp := htmp old old' hold hold'
  refine (createReturn_both htmp _ _ hs₁).bind ?_
  rintro ret s₂ ret' s₂' ⟨hs₂, hret⟩
  refine (paramListAssign_both hactual _ _ _ hs₂).bind ?_
  rintro b s₃ _ s₃' ⟨hs₃, rfl⟩
  cases b with
  | true =>
    exact Lib.follows_pure ⟨hs₃, old, old', ret, ret', htmp, hret, rfl, rfl, rfl, .inl rfl⟩
  | false =>
    exact Lib.follows_pure ⟨hs₃, old, old', ret, ret', htmp, hret, rfl, rfl, rfl, .inr rfl⟩

/-- The next parameter or, after the last one, the body of the function. -/
theorem nextParam_nexts {f : Func} {tmp tmp' : Option Ptr} {actual actual' : List Ptr}
    {pending : List Ast} (rc : ℕ) (hf : f.fNode.All (TextNode K.nlits))
    (htmp : Option.Rel K.PtrRel tmp tmp') (hactual : List.Forall₂ K.PtrRel actual actual')
    (hpending : ∀ d ∈ pending, d.All (TextNode K.nlits)) :
    K.Nexts (D := D) frozen (n + 1) (nextParam f tmp actual pending rc)
      (nextParam f tmp' actual' pending rc) := by
  cases pending with
  | cons c cs =>
    refine nexts_call (rc + 1) (hpending c List.mem_cons_self) (.funcParam rc hf htmp hactual ?_)
    exact fun d hd ↦ hpending d (List.mem_cons_of_mem _ hd)
  | nil =>
    intro s s' hs fs fs' hfs
    refine (enterFunc_follows rc hs (fun old old' hold hold' ↦ ?_)
      (hactual.imp fun _ _ hp ↦ .inl hp)).mono ?_
    · obtain ⟨_, _, hrun, -, hnew⟩ := getVarTable_both s s' hs old s
        (runs_getVarTable_iff.2 ⟨rfl, hold⟩)
      obtain ⟨rfl, hold''⟩ := runs_getVarTable_iff.1 hrun
      obtain rfl := Option.some.inj (hold''.symm.trans hold')
      cases htmp with
      | none => exact .none
      | some hp =>
        obtain ⟨t, ht⟩ := hp.exists_slotRel
        exact .some ⟨t, .inl hnew.scope, ht⟩
    · rintro ⟨ctrl, frames⟩ s₁ ⟨ctrl', frames'⟩ s₁'
        ⟨hs₁, old, old', ret, ret', htmp', hret, rfl, rfl, rfl, hctrl⟩
      refine ⟨n + 2, hs₁, ?_, .funcBody htmp' hret hfs⟩
      rcases hctrl with rfl | rfl
      · exact .eval _ _ hf
      · exact .ret _ .empty

/-- What is left of a call after its body. -/
theorem leaveFunc_follows {old old' : TableId} {tmp tmp' ret ret' : Option Ptr}
    (hbody : ¬ frozen) (hs : K.Related frozen (n + 1) s s') (htmp : K.TmpRel old old' tmp tmp')
    (hret : Option.Rel K.PtrRel ret ret') (hp : K.PtrRel p p') :
    Follows (leaveFunc old tmp ret p) s (leaveFunc old' tmp' ret' p') s' fun q t q' t' ↦
      K.Related frozen n t t' ∧ K.PtrRel q q' := by
  have hq : K.PtrRel (tmp.getD .empty) (tmp'.getD .empty) := by
    cases htmp with
    | none => exact .empty
    | some h => exact h.choose_spec.2.1
  -- once the result has been copied, both calls pop their table and look at what the body returned
  have hrest : ∀ {k k' : ASTType → Interp D Ptr}, (∀ ty, K.Both frozen n (k ty) (k' ty) K.PtrRel) →
      ∀ s s', K.Related frozen (n + 1) s s' → Follows (do removeVarTable; k (← typeOf p)) s
        (do removeVarTable; k' (← typeOf p')) s' fun q t q' t' ↦
          K.Related frozen n t t' ∧ K.PtrRel q q' := by
    intro k k' hk s s' hs
    refine (removeVarTable_follows hs).bind fun _ s₁ _ s₁' hs₁ ↦ ?_
    refine (typeOf_both hp).bind (Q := K.PtrRel) ?_ _ _ hs₁
    rintro ty _ rfl
    exact hk ty
  cases htmp with
  | none =>
    refine hrest (fun ty ↦ ?_) s s' hs
    cases ty <;> exact both_pure .empty
  | some h =>
    cases hret with
    | none =>
      refine hrest (fun ty ↦ ?_) s s' hs
      cases ty <;> first | exact both_pure .empty | exact both_pure hq
    | some hr =>
      obtain ⟨t, hthis, hslot⟩ := h
      refine (updateADT_both hthis (fun h ↦ absurd h hbody) hslot (.inl hr) s s' hs).bind ?_
      rintro _ s₁ _ s₁' ⟨hs₁, -⟩
      refine hrest (fun ty ↦ ?_) s₁ s₁' hs₁
      cases ty <;> first | exact both_pure .empty | exact both_pure hq

/-! ### The steps of the machine -/

variable (hbody : ¬ frozen)
  (hlit : ∀ a : Addr, a.table = 0 → a.index < K.nlits → K.AddrRel .node a a)

include hbody hlit

/-- The next operand or, after the last one, the node itself. -/
theorem nextOperand_nexts {c : Ast} {ev ev' : List Ptr} {pending : List Ast} (rc : ℕ)
    (hc : c.All (TextNode K.nlits)) (hev : List.Forall₂ K.PtrRel ev ev')
    (hpending : ∀ d ∈ pending, d.All (TextNode K.nlits)) :
    K.Nexts frozen (n + 1) (nextOperand host c ev pending rc) (nextOperand host c ev' pending rc) := by
  have hproceed : ∀ l, proceed (D := D) c l = pure true := fun l ↦ by
    have hself := hc.self
    cases c with
    | rpc => exact hself.elim
    | getDistance => exact hself.elim
    | _ => rfl
  unfold nextOperand
  rw [hproceed, hproceed, pure_bind, pure_bind, if_pos rfl, if_pos rfl]
  cases pending with
  | nil =>
    exact (apply_both hbody hc.self hlit hev).nexts fun _ _ hp ↦ nexts_ret hp
  | cons d ds =>
    refine nexts_call (rc + 1) (hpending d List.mem_cons_self) (.operands rc hc hev ?_)
    exact fun e he ↦ hpending e (List.mem_cons_of_mem _ he)

/-- A call of `eval` on one node of the text, which is the same in both calls. -/
theorem evalNode_nexts {c : Ast} (rc : ℕ) (hc : c.All (TextNode K.nlits)) :
    K.Nexts frozen (n + 1) (evalNode host c rc) (evalNode host c rc) := by
  refine (enter_both rc).nexts ?_
  rintro b _ rfl
  refine nexts_ite ?_ (nexts_ret .empty)
  have hnext : K.Nexts frozen (n + 1) (nextOperand host c [] c.operands rc)
      (nextOperand host c [] c.operands rc) :=
    nextOperand_nexts hbody hlit rc hc .nil fun d hd ↦
      hc.child (Ast.mem_children_of_mem_operands hd)
  cases c with
  | ast left right =>
    refine nexts_call _ (hc.child (by simp [Ast.children])) (.text rfl rfl ?_)
    exact List.forall_mem_singleton.2 (hc.child (by simp [Ast.children]))
  -- a block pushes a table in both calls
  | context node =>
    intro s s' hs fs fs' hfs
    refine (newContext_follows hs).bind fun _ s₁ _ s₁' hs₁ ↦ ?_
    exact Lib.follows_pure ⟨n + 2, hs₁, .eval _ _ (hc.child (by simp [Ast.children])), .context hfs⟩
  | ifNode eval left right =>
    refine nexts_call _ (hc.child (by simp [Ast.children])) (.text rfl rfl fun d hd ↦ hc.child ?_)
    exact List.mem_cons_of_mem _ hd
  | loop eval node =>
    exact nexts_call _ (hc.child (by simp [Ast.children])) (.text rfl rfl fun d hd ↦ hc.child hd)
  | forLoop node1 node2 node3 node4 =>
    refine nexts_call _ (hc.child (by simp [Ast.children])) (.text rfl rfl fun d hd ↦ hc.child ?_)
    exact List.mem_cons_of_mem _ hd
  | funcRef name actualParam =>
    refine (getVarTable_both.nexts fun t t' ht ↦ (lookup_scope_both ht.scope).nexts ?_)
    intro o o' ho
    cases ho with
    | none => exact nexts_ret .empty
    | some hp =>
      intro s s' hs fs fs' hfs
      exact Lib.follows_pure ⟨n + 1, hs, .evalPtr _ _ hp fun d hd ↦ hc.child hd, hfs⟩
  | _ => exact hnext

omit hbody hlit in
/-- What a name stands for: both have the same function, or nodes that are paired. -/
theorem evalPtr_nexts {actualParam : List Ast} (rc : ℕ) (hp : K.PtrRel p p')
    (hactual : ∀ c ∈ actualParam, c.All (TextNode K.nlits)) :
    K.Nexts (D := D) frozen (n + 1) (evalPtr p actualParam rc) (evalPtr p' actualParam rc) := by
  refine (enter_both rc).nexts ?_
  rintro b _ rfl
  refine nexts_ite ?_ (nexts_ret .empty)
  cases hp with
  | func f hf =>
    exact (createTmp_both f).nexts fun tmp tmp' htmp ↦ nextParam_nexts rc hf htmp .nil hactual
  | node ha => exact (evalValue_both ha).nexts fun _ _ hp ↦ nexts_ret hp
  | _ => exact nexts_ret .empty

/-- A frame that pops no table is resumed. -/
theorem resume_nexts {f f' : Frame} (hf : K.FrameRel f f') (hp : K.PtrRel p p') :
    K.Nexts frozen (n + 1) (resume host f p) (resume host f' p') := by
  cases hf with
  | operands rc hc hev hpending =>
    exact nextOperand_nexts hbody hlit rc hc (List.rel_append hev (.cons hp .nil)) hpending
  | funcParam rc hf htmp hactual hpending =>
    exact nextParam_nexts rc hf htmp (List.rel_append hactual (.cons hp .nil)) hpending
  | text hpointers howns htext =>
    -- the frames of the statements hold no pointer, so they are the same in both calls
    have hcall : ∀ {c : Ast} {g : Frame} (rc : ℕ), c ∈ f.text → g.pointers = [] →
        g.ownsTable = false → g.text ⊆ f.text →
        K.Nexts (D := D) frozen (n + 1) (pure (.eval c rc, [g])) (pure (.eval c rc, [g])) :=
      fun rc hc hg hg' hsub ↦ nexts_call rc (htext _ hc) (.text hg hg' fun d hd ↦ htext d (hsub hd))
    cases f with
    | astLeft => exact (forward_both hp).nexts fun _ _ hq ↦ nexts_ret hq
    | ifBranch => exact (forward_both hp).nexts fun _ _ hq ↦ nexts_ret hq
    | astRight left rc =>
      refine (typeOf_both hp).nexts ?_
      rintro ty _ rfl
      have hleft := hcall (g := .astLeft) (rc + 1) (c := left) (by simp [Frame.text]) rfl rfl
        (by simp [Frame.text])
      cases ty <;> first | exact nexts_ret hp | exact hleft
    | ifEval left right rc =>
      refine (nodeAt_both hp).nexts fun o o' ho ↦ ?_
      cases ho with
      | none => exact nexts_ret .empty
      | node _ hx =>
        cases hx with
        | int i =>
          refine hcall (g := .ifBranch) (rc + 1) ?_ rfl rfl (by simp [Frame.text])
          split <;> simp [Frame.text]
        | _ => exact nexts_ret .empty
    | loopEval eval node rc =>
      refine (isNonzero_both hp).nexts ?_
      rintro b _ rfl
      refine nexts_ite (hcall (g := .loopBody eval node rc) (rc + 1) ?_ rfl rfl ?_) (nexts_ret .empty)
      · simp [Frame.text]
      · exact List.Subset.refl _
    | loopBody eval node rc =>
      refine (typeOf_both hp).nexts ?_
      rintro ty _ rfl
      have hagain := hcall (g := .loopEval eval node rc) (rc + 1) (c := eval) (by simp [Frame.text])
        rfl rfl (List.Subset.refl _)
      cases ty <;> first | exact nexts_ret hp | exact nexts_ret .empty | exact hagain
    | forInit node2 node3 node4 rc =>
      exact hcall (g := .forEval node2 node3 node4 rc) (rc + 1) (by simp [Frame.text]) rfl rfl
        (List.Subset.refl _)
    | forEval node2 node3 node4 rc =>
      refine (isNonzero_both hp).nexts ?_
      rintro b _ rfl
      refine nexts_ite (hcall (g := .forBody node2 node3 node4 rc) (rc + 1) ?_ rfl rfl ?_)
        (nexts_ret .empty)
      · simp [Frame.text]
      · exact List.Subset.refl _
    | forBody node2 node3 node4 rc =>
      refine (typeOf_both hp).nexts ?_
      rintro ty _ rfl
      have hagain := hcall (g := .forStep node2 node3 node4 rc) (rc + 1) (c := node3)
        (by simp [Frame.text]) rfl rfl (List.Subset.refl _)
      cases ty <;> first | exact nexts_ret hp | exact nexts_ret .empty | exact hagain
    | forStep node2 node3 node4 rc =>
      exact hcall (g := .forEval node2 node3 node4 rc) (rc + 1) (by simp [Frame.text]) rfl rfl
        (List.Subset.refl _)
    | operands c ev pending rc =>
      obtain rfl : ev = [] := hpointers
      refine nextOperand_nexts hbody hlit rc (htext c (by simp [Frame.text])) (.cons hp .nil) ?_
      exact fun d hd ↦ htext d (List.mem_cons_of_mem _ hd)
    | funcParam f tmp actual pending rc =>
      obtain ⟨htmp, rfl⟩ := List.append_eq_nil_iff.1 hpointers
      obtain rfl := Option.toList_eq_nil_iff.1 htmp
      refine nextParam_nexts rc (htext f.fNode (by simp [Frame.text])) .none (.cons hp .nil) ?_
      exact fun d hd ↦ htext d (List.mem_cons_of_mem _ hd)
    | context => cases howns
    | funcBody => cases howns

omit hbody hlit in
/-- The end of a block. -/
theorem resume_context_follows (hs : K.Related frozen (n + 2) s s') (hp : K.PtrRel p p') :
    Follows (resume host .context p) s (resume host .context p') s' fun r t r' t' ↦
      K.Related frozen (n + 1) t t' ∧ ∃ q q', K.PtrRel q q' ∧ r = (.ret q, []) ∧ r' = (.ret q', []) := by
  refine (removeVarTable_follows hs).bind fun _ s₁ _ s₁' hs₁ ↦ ?_
  refine (forward_both hp _ _ hs₁).bind ?_
  rintro q s₂ q' s₂' ⟨hs₂, hq⟩
  exact Lib.follows_pure ⟨hs₂, q, q', hq, rfl, rfl⟩

/-- **One step** of the one call is followed by one of the other. -/
theorem MachineRel.step {m m' m₁ : Machine D} (h : K.MachineRel frozen m m')
    (hstep : m.step host = .ok m₁) : ∃ m₁', m'.step host = .ok m₁' ∧ K.MachineRel frozen m₁ m₁' := by
  obtain ⟨n, hs, hctrl, hfs⟩ := h
  obtain ⟨ctrl, fs, s⟩ := m
  obtain ⟨ctrl', fs', s'⟩ := m'
  cases hctrl with
  | eval n rc hc => exact step_of_follows (evalNode_nexts hbody hlit rc hc s s' hs fs fs' hfs) hstep
  | evalPtr n rc hp hactual =>
    exact step_of_follows (evalPtr_nexts rc hp hactual s s' hs fs fs' hfs) hstep
  | ret n hp =>
    cases hfs with
    | nil => cases hstep
    | plain hf hfs => exact step_of_follows (resume_nexts hbody hlit hf hp s s' hs _ _ hfs) hstep
    | context hfs =>
      refine step_of_follows ((resume_context_follows hs hp).mono ?_) hstep
      rintro _ t _ t' ⟨ht, q, q', hq, rfl, rfl⟩
      exact ⟨_, ht, .ret _ hq, hfs⟩
    | funcBody htmp hret hfs =>
      refine step_of_follows ((leaveFunc_follows hbody hs htmp hret hp).bind ?_) hstep
      rintro q t q' t' ⟨ht, hq⟩
      exact Lib.follows_pure ⟨_, ht, .ret _ hq, hfs⟩

/-- **A run** of the one call is followed by one of the other. -/
theorem MachineRel.run {hosts : List (Host D)} {m m' m₁ : Machine D} (h : K.MachineRel frozen m m')
    (hrun : Lib.run Machine.step? m hosts = some m₁) :
    ∃ m₁', Lib.run Machine.step? m' hosts = some m₁' ∧ K.MachineRel frozen m₁ m₁' := by
  induction hosts generalizing m m' with
  | nil =>
    obtain rfl := Option.some.inj hrun
    exact ⟨m', rfl, h⟩
  | cons host hosts ih =>
    obtain ⟨m₂, hstep, hrest⟩ := Lib.run_cons_eq_some.1 hrun
    obtain ⟨m₂', hstep', h₂⟩ := h.step hbody hlit (Machine.step?_eq_some hstep)
    obtain ⟨m₁', hrest', h₁⟩ := ih h₂ hrest
    refine ⟨m₁', Lib.run_cons_eq_some.2 ⟨m₂', ?_, hrest'⟩, h₁⟩
    rw [Machine.step?, hstep']

end TwoCallers

end Meridian.MQL

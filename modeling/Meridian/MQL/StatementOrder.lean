import Meridian.MQL.Eval
import Meridian.MQL.Invariant
import Mathlib.Order.Interval.Set.Basic

/-!
# The statements of a list

`statement_list` puts each statement in front of the list of those before it, and `AST_TYPE`
evaluates that list first. So the statements of a list run in their order, and the first of them the
deepest in the C++ stack: in a list of `n` statements at depth `d`, the one with `i` statements after
it is evaluated at `d + i + 1`.

* A call of `eval` on such a list is a run of the machine that starts with an empty stack. `Phase`
  says in which of its parts the run is, and which statements have been executed so far.
* Where the recursion limit cuts a list off, the statements at its beginning are the deep ones.
  Those at its end are executed all the same: `statements_in_order_iff`.
-/

namespace Meridian.MQL

open Lib

/-- `mk_node_list`. -/
def mkNodeList (a b : Ast) : Ast := .ast a b

/-- `statement_list`. -/
def statementList (statements : List Ast) : Ast :=
  statements.foldl (fun list statement ↦ mkNodeList statement list) .empty

theorem statementList_concat (before : List Ast) (s : Ast) :
    statementList (before ++ [s]) = .ast s (statementList before) := by
  rw [statementList, List.foldl_append]
  rfl

/-- The frames of the nodes behind whose list these statements still have to come, for an `eval` of
the whole list at depth `rc`. -/
def waiting (rc : ℕ) : List Ast → List Frame
  | [] => []
  | s :: rest => .astRight s (rc + rest.length) :: waiting rc rest

@[simp] theorem length_waiting (rc : ℕ) (rest : List Ast) :
    (waiting rc rest).length = rest.length := by
  induction rest with
  | nil => rfl
  | cons s rest ih => rw [waiting, List.length_cons, List.length_cons, ih]

theorem astLeft_not_mem_waiting (rc : ℕ) (rest : List Ast) : .astLeft ∉ waiting rc rest := by
  induction rest with
  | nil => exact List.not_mem_nil
  | cons s rest ih =>
    rw [waiting, List.mem_cons, not_or]
    exact ⟨by simp, ih⟩

variable {D : Type} [CDouble D]

/-- The `eval` of a statement of the list begins, and is not refused. -/
def Executes (statements : List Ast) (rc k : ℕ) (m : Machine D) : Prop :=
  ∃ before s rest, statements = before ++ s :: rest ∧ before.length = k ∧
    m.ctrl = .eval s (rc + rest.length + 1) ∧ m.stack = .astLeft :: waiting rc rest ∧
    rc + rest.length + 1 ≤ MAX_RECURSE_COUNT

/-- A call of `eval` on a list of statements. -/
def callList (statements : List Ast) (rc : ℕ) (ps : ParserState D) : Machine D :=
  ⟨.eval (statementList statements) rc, [], ps⟩

/-- The statements that have been executed before the end of a run. -/
def executed (statements : List Ast) (rc : ℕ) (ps : ParserState D) (hosts : List (Host D)) :
    Set ℕ :=
  {k | ∃ earlier m, earlier <+: hosts ∧ earlier ≠ hosts ∧
    run Machine.step? (callList statements rc ps) earlier = some m ∧ Executes statements rc k m}

/-- **The law of a statement list**: whenever a statement is executed, those that have been executed
before are exactly the statements in front of it. So they come in order, none comes twice, and they
are a prefix of the list. -/
def InOrder (statements : List Ast) (rc : ℕ) (ps : ParserState D) : Prop :=
  ∀ hosts m k, run Machine.step? (callList statements rc ps) hosts = some m →
    Executes statements rc k m → executed statements rc ps hosts = Set.Iio k

/-! ### Calls push a frame -/

namespace Interp

/-- What is left of an `eval` that calls another is a frame. -/
structure CallsPush (i : Interp D Next) : Prop where
  out : ∀ s, Meets (fun _ ↦ True) i s fun r _ ↦ ∀ c rc, r.1 = .eval c rc → r.2 ≠ []

omit [CDouble D] in
theorem callsPush_bind {α : Type} {m : Interp D α} {f : α → Interp D Next}
    (hf : ∀ a, CallsPush (f a)) : CallsPush (m >>= f) :=
  ⟨fun _ ↦ meets_bind.2 (meets_iff.2 ⟨fun a s' _ ↦ (hf a).out s', fun _ _ ↦ trivial⟩)⟩

omit [CDouble D] in
theorem callsPush_eval (c : Ast) (rc : ℕ) (frame : Frame) :
    CallsPush (D := D) (pure (.eval c rc, [frame])) :=
  ⟨fun _ _ _ _ ↦ List.cons_ne_nil _ _⟩

omit [CDouble D] in
theorem callsPush_ret (p : Ptr) (frames : List Frame) :
    CallsPush (D := D) (pure (.ret p, frames)) := by
  refine ⟨fun _ c rc h ↦ ?_⟩
  cases h

omit [CDouble D] in
theorem callsPush_ite {c : Prop} [Decidable c] {i i' : Interp D Next} (h : CallsPush i)
    (h' : CallsPush i') : CallsPush (if c then i else i') := by
  split
  · exact h
  · exact h'

theorem nextOperand_callsPush (host : Host D) (curNode : Ast) (evaluated : List Ptr)
    (pending : List Ast) (rc : ℕ) : CallsPush (nextOperand host curNode evaluated pending rc) := by
  refine callsPush_bind fun b ↦ callsPush_ite ?_ (callsPush_ret _ _)
  cases pending with
  | nil => exact callsPush_bind fun _ ↦ callsPush_ret _ _
  | cons c cs => exact callsPush_eval ..

theorem nextParam_callsPush (f : Func) (tmpNode : Option Ptr) (actual : List Ptr)
    (pending : List Ast) (rc : ℕ) :
    CallsPush (D := D) (nextParam f tmpNode actual pending rc) := by
  cases pending with
  | nil =>
    refine callsPush_bind fun _ ↦ callsPush_bind fun _ ↦ callsPush_bind fun _ ↦ ?_
    exact callsPush_ite (callsPush_eval ..) (callsPush_ret _ _)
  | cons c cs => exact callsPush_eval ..

theorem evalNode_callsPush (host : Host D) (curNode : Ast) (rc : ℕ) :
    CallsPush (evalNode host curNode rc) := by
  refine callsPush_bind fun b ↦ callsPush_ite ?_ (callsPush_ret _ _)
  cases curNode with
  | ast left right => exact callsPush_eval ..
  | context node => exact callsPush_bind fun _ ↦ callsPush_eval ..
  | ifNode eval left right => exact callsPush_eval ..
  | loop eval node => exact callsPush_eval ..
  | forLoop node1 node2 node3 node4 => exact callsPush_eval ..
  | funcRef name actualParam =>
    refine callsPush_bind fun _ ↦ callsPush_bind fun o ↦ ?_
    cases o with
    | none => exact callsPush_ret _ _
    | some p =>
      refine ⟨fun _ c rc h ↦ ?_⟩
      cases h
  | _ => exact nextOperand_callsPush ..

theorem evalPtr_callsPush (callFunc : Ptr) (actualParam : List Ast) (rc : ℕ) :
    CallsPush (D := D) (evalPtr callFunc actualParam rc) := by
  refine callsPush_bind fun b ↦ callsPush_ite ?_ (callsPush_ret _ _)
  cases callFunc with
  | func f => exact callsPush_bind fun _ ↦ nextParam_callsPush ..
  | node a => exact callsPush_bind fun _ ↦ callsPush_ret _ _
  | _ => exact callsPush_ret _ _

theorem resume_callsPush (host : Host D) (frame : Frame) (node : Ptr) :
    CallsPush (resume host frame node) := by
  cases frame with
  | operands curNode evaluated pending rc => exact nextOperand_callsPush ..
  | astRight left rc =>
    refine callsPush_bind fun ty ↦ ?_
    split
    iterate 3 exact callsPush_ret _ _
    exact callsPush_eval ..
  | astLeft => exact callsPush_bind fun _ ↦ callsPush_ret _ _
  | context => exact callsPush_bind fun _ ↦ callsPush_bind fun _ ↦ callsPush_ret _ _
  | ifEval left right rc =>
    refine callsPush_bind fun o ↦ ?_
    split
    · exact callsPush_eval ..
    · exact callsPush_ret _ _
  | ifBranch => exact callsPush_bind fun _ ↦ callsPush_ret _ _
  | loopEval eval body rc =>
    exact callsPush_bind fun b ↦ callsPush_ite (callsPush_eval ..) (callsPush_ret _ _)
  | loopBody eval body rc =>
    refine callsPush_bind fun ty ↦ ?_
    split
    iterate 2 exact callsPush_ret _ _
    exact callsPush_eval ..
  | forInit node2 node3 node4 rc => exact callsPush_eval ..
  | forEval node2 node3 node4 rc =>
    exact callsPush_bind fun b ↦ callsPush_ite (callsPush_eval ..) (callsPush_ret _ _)
  | forBody node2 node3 node4 rc =>
    refine callsPush_bind fun ty ↦ ?_
    split
    iterate 2 exact callsPush_ret _ _
    exact callsPush_eval ..
  | forStep node2 node3 node4 rc => exact callsPush_eval ..
  | funcParam f tmpNode actual pending rc => exact nextParam_callsPush ..
  | funcBody oldTable tmpNode returnNode => exact callsPush_bind fun _ ↦ callsPush_ret _ _

end Interp

/-! ### The phases of a list -/

/-- The values that end a list. -/
def Signal (node : Ptr) : Prop :=
  node = .breakToken ∨ node = .continueToken ∨ node = .returnNode

/-- The part of the evaluation of a list that a state is in, and what has been executed until then.
The first `rc + statements.length - MAX_RECURSE_COUNT` statements are too deep. -/
inductive Phase (statements : List Ast) (rc : ℕ) : Set ℕ → Machine D → Prop
  /-- on the way to the first statement -/
  | list {before rest : List Ast} {ps : ParserState D} (h : statements = before ++ rest) :
      Phase statements rc ∅
        ⟨.eval (statementList before) (rc + rest.length), waiting rc rest, ps⟩
  /-- at a statement -/
  | statement {before : List Ast} {s : Ast} {rest : List Ast} {ps : ParserState D}
      (h : statements = before ++ s :: rest) :
      Phase statements rc
        (Set.Ico (rc + statements.length - MAX_RECURSE_COUNT) before.length)
        ⟨.eval s (rc + rest.length + 1), .astLeft :: waiting rc rest, ps⟩
  /-- within a statement -/
  | inside {before : List Ast} {s : Ast} {rest : List Ast} {ctrl : Ctrl} {frames : List Frame}
      {ps : ParserState D} (h : statements = before ++ s :: rest)
      (hpush : ∀ c d, ctrl = .eval c d → frames ≠ []) :
      Phase statements rc
        (Set.Ico (rc + statements.length - MAX_RECURSE_COUNT) (before.length + 1))
        ⟨ctrl, frames ++ .astLeft :: waiting rc rest, ps⟩
  /-- behind a statement, or on the way out -/
  | returned {before rest : List Ast} {node : Ptr} {k : ℕ} {ps : ParserState D}
      (h : statements = before ++ rest) (hk : Signal node ∨ k = before.length) :
      Phase statements rc (Set.Ico (rc + statements.length - MAX_RECURSE_COUNT) k)
        ⟨.ret node, waiting rc rest, ps⟩

variable {statements : List Ast} {rc k : ℕ} {m m' : Machine D} {S : Set ℕ} {ps : ParserState D}

omit [CDouble D] in
/-- Outside the statements of the list, none of them begins. -/
theorem not_executes_waiting {ctrl : Ctrl} {rest : List Ast} :
    ¬ Executes statements rc k (⟨ctrl, waiting rc rest, ps⟩ : Machine D) := by
  rintro ⟨before, s, rest', -, -, -, hstack, -⟩
  have hmem : Frame.astLeft ∈ waiting rc rest := by
    rw [show waiting rc rest = _ from hstack]
    exact List.mem_cons_self ..
  exact astLeft_not_mem_waiting _ _ hmem

omit [CDouble D] in
/-- Nor within one of them, where its frame is further down. -/
theorem not_executes_inside {ctrl : Ctrl} {frames : List Frame} {rest : List Ast}
    (hpush : ∀ c d, ctrl = .eval c d → frames ≠ []) :
    ¬ Executes statements rc k
      (⟨ctrl, frames ++ .astLeft :: waiting rc rest, ps⟩ : Machine D) := by
  rintro ⟨before, s, rest', -, -, hctrl, hstack, -⟩
  obtain ⟨frame, frames, rfl⟩ := List.exists_cons_of_ne_nil (hpush _ _ hctrl)
  have hmem : Frame.astLeft ∈ waiting rc rest' := by
    rw [← (List.cons.inj hstack).2]
    exact List.mem_append_right _ (List.mem_cons_self ..)
  exact astLeft_not_mem_waiting _ _ hmem

omit [CDouble D] in
/-- Which statement begins can be read off the stack. -/
theorem executes_statement {before rest : List Ast} {s : Ast} {d : ℕ}
    (h : statements = before ++ s :: rest)
    (hk : Executes statements rc k (⟨.eval s d, .astLeft :: waiting rc rest, ps⟩ : Machine D)) :
    k = before.length ∧ rc + rest.length + 1 ≤ MAX_RECURSE_COUNT := by
  obtain ⟨before', s', rest', hsplit, rfl, -, hstack, hdepth⟩ := hk
  have hrest := congrArg List.length (List.cons.inj hstack).2
  have hlen := congrArg List.length h
  have hlen' := congrArg List.length hsplit
  rw [length_waiting, length_waiting] at hrest
  rw [List.length_append, List.length_cons] at hlen hlen'
  omega

omit [CDouble D] in
/-- A statement is executed in the phase of its own only. -/
theorem Phase.executes (h : Phase statements rc S m) (hk : Executes statements rc k m) :
    S = Set.Ico (rc + statements.length - MAX_RECURSE_COUNT) k ∧
      rc + statements.length - MAX_RECURSE_COUNT ≤ k ∧ k < statements.length ∧
      rc + 1 ≤ MAX_RECURSE_COUNT := by
  cases h with
  | list h => exact absurd hk not_executes_waiting
  | statement h =>
    have hlen := congrArg List.length h
    rw [List.length_append, List.length_cons] at hlen
    obtain ⟨rfl, hdepth⟩ := executes_statement h hk
    exact ⟨rfl, by omega, by omega, by omega⟩
  | inside h hpush => exact absurd hk (not_executes_inside hpush)
  | returned h hk' => exact absurd hk not_executes_waiting

omit [CDouble D] in
/-- How a step from a call of `eval` goes on. -/
theorem step_ok {i : Interp D Interp.Next} {stack : List Frame} (hpush : i.CallsPush)
    (h : (i ps).map (Machine.next stack) = .ok m') :
    ∃ frames, m'.stack = frames ++ stack ∧ ∀ c d, m'.ctrl = .eval c d → frames ≠ [] := by
  cases hi : i ps with
  | error e =>
    rw [hi] at h
    cases h
  | ok r =>
    rw [hi] at h
    cases h
    exact ⟨r.1.2, rfl, (hpush.out ps).run hi⟩

omit [CDouble D] in
theorem enter_deep (h : MAX_RECURSE_COUNT < rc) :
    Interp.enter rc ps = .ok (false, ps) := by
  rw [Interp.enter, if_pos h]
  rfl

omit [CDouble D] in
theorem enter_shallow (h : rc ≤ MAX_RECURSE_COUNT) (ps : ParserState D) :
    ∃ ps', Interp.enter rc ps = .ok (true, ps') := by
  rw [Interp.enter, if_neg h.not_gt]
  exact ⟨_, rfl⟩

/-- Where the recursion is too deep, nothing is evaluated. -/
theorem step_deep (h : MAX_RECURSE_COUNT < rc) (c : Ast) (stack : List Frame) (host : Host D) :
    Machine.step host ⟨.eval c rc, stack, ps⟩ = .ok ⟨.ret .empty, stack, ps⟩ := by
  have hnode : Interp.evalNode host c rc ps = .ok ((.ret .empty, []), ps) := by
    show (Interp.enter rc >>= _) ps = _
    show (Interp.enter rc ps >>= _) = _
    rw [enter_deep h]
    rfl
  show (Interp.evalNode host c rc ps).map _ = _
  rw [hnode]
  rfl

/-- A list first evaluates the list of the statements before its last one. -/
theorem step_list (h : rc ≤ MAX_RECURSE_COUNT) (left right : Ast) (stack : List Frame)
    (ps : ParserState D) (host : Host D) :
    ∃ ps', Machine.step host ⟨.eval (.ast left right) rc, stack, ps⟩ =
      .ok ⟨.eval right (rc + 1), .astRight left rc :: stack, ps'⟩ := by
  obtain ⟨ps', henter⟩ := enter_shallow h ps
  have hnode : Interp.evalNode host (.ast left right) rc ps =
      .ok ((.eval right (rc + 1), [.astRight left rc]), ps') := by
    show (Interp.enter rc ps >>= _) = _
    rw [henter]
    rfl
  refine ⟨ps', ?_⟩
  show (Interp.evalNode host (.ast left right) rc ps).map _ = _
  rw [hnode]
  rfl

/-- The empty list. -/
theorem step_empty (h : rc ≤ MAX_RECURSE_COUNT) (stack : List Frame) (ps : ParserState D)
    (host : Host D) :
    ∃ ps', Machine.step host ⟨.eval .empty rc, stack, ps⟩ = .ok ⟨.ret .empty, stack, ps'⟩ := by
  obtain ⟨ps', henter⟩ := enter_shallow h ps
  have hnode : Interp.evalNode host .empty rc ps = .ok ((.ret .empty, []), ps') := by
    show (Interp.enter rc ps >>= _) = _
    rw [henter]
    rfl
  refine ⟨ps', ?_⟩
  show (Interp.evalNode host .empty rc ps).map _ = _
  rw [hnode]
  rfl

/-- Behind the list in front of it, a statement is evaluated unless a signal has come. -/
theorem step_astRight {left : Ast} {d : ℕ} {stack : List Frame} {node : Ptr} {host : Host D}
    (h : Machine.step host ⟨.ret node, .astRight left d :: stack, ps⟩ = .ok m') :
    (Signal node ∧ m'.ctrl = .ret node ∧ m'.stack = stack) ∨
      (¬ Signal node ∧ m'.ctrl = .eval left (d + 1) ∧ m'.stack = .astLeft :: stack) := by
  have hresume : Meets (fun _ ↦ True) (Interp.resume host (.astRight left d) node) ps fun r _ ↦
      (Signal node ∧ r = (.ret node, [])) ∨
        (¬ Signal node ∧ r = (.eval left (d + 1), [.astLeft])) := by
    refine meets_bind.2 (Interp.typeOf_ensures fun ty hty ↦ ?_)
    have hsignal : Signal node ↔ ty = .breakType ∨ ty = .continueType ∨ ty = .returnType := by
      cases hty with
      | node a n _ => cases n <;> simp [Signal, Node.type]
      | _ => simp [Signal]
    split
    iterate 3 exact .inl ⟨hsignal.2 (by simp), rfl⟩
    next hbreak hcontinue hreturn =>
      refine .inr ⟨fun hs ↦ ?_, rfl⟩
      rcases hsignal.1 hs with hs | hs | hs
      · exact hbreak hs
      · exact hcontinue hs
      · exact hreturn hs
  change (Interp.resume host (.astRight left d) node ps).map (Machine.next stack) = .ok m' at h
  cases hi : Interp.resume host (.astRight left d) node ps with
  | error e =>
    rw [hi] at h
    cases h
  | ok r =>
    rw [hi] at h
    cases h
    rcases hresume.run hi with ⟨hs, heq⟩ | ⟨hs, heq⟩
    · exact .inl ⟨hs, congrArg Prod.fst heq, by rw [Machine.next, heq]; rfl⟩
    · exact .inr ⟨hs, congrArg Prod.fst heq, by rw [Machine.next, heq]; rfl⟩

/-- What has been executed once a state has been left. -/
def after (statements : List Ast) (rc : ℕ) (S : Set ℕ) (m : Machine D) : Set ℕ :=
  S ∪ {k | Executes statements rc k m}

omit [CDouble D] in
/-- A state in which no statement begins. -/
theorem after_of_not (h : ∀ k, ¬ Executes statements rc k m) : after statements rc S m = S := by
  have hnone : {k | Executes statements rc k m} = ∅ := Set.eq_empty_of_forall_notMem h
  rw [after, hnone, Set.union_empty]

omit [CDouble D] in
/-- At a statement, it is executed next, or it is one of those that are too deep. -/
theorem after_statement {before rest : List Ast} {s : Ast}
    (h : statements = before ++ s :: rest) :
    after statements rc (Set.Ico (rc + statements.length - MAX_RECURSE_COUNT) before.length)
        (⟨.eval s (rc + rest.length + 1), .astLeft :: waiting rc rest, ps⟩ : Machine D) =
      Set.Ico (rc + statements.length - MAX_RECURSE_COUNT) (before.length + 1) := by
  have hlen := congrArg List.length h
  rw [List.length_append, List.length_cons] at hlen
  rcases Nat.lt_or_ge MAX_RECURSE_COUNT (rc + rest.length + 1) with hdeep | hshallow
  · rw [after_of_not fun k hk ↦ absurd (executes_statement h hk).2 (by omega),
      Set.Ico_eq_empty (by omega), Set.Ico_eq_empty (by omega)]
  · have hthis : {k | Executes statements rc k
        (⟨.eval s (rc + rest.length + 1), .astLeft :: waiting rc rest, ps⟩ : Machine D)} =
        {before.length} :=
      Set.eq_singleton_iff_unique_mem.2
        ⟨⟨before, s, rest, h, rfl, rfl, rfl, hshallow⟩, fun k hk ↦ (executes_statement h hk).1⟩
    rw [after, hthis]
    ext k
    simp only [Set.mem_union, Set.mem_Ico, Set.mem_singleton_iff]
    omega

/-- The way to the first statement. -/
theorem Phase.step_list {before rest : List Ast} {host : Host D}
    (h : statements = before ++ rest)
    (hstep : Machine.step host
      ⟨.eval (statementList before) (rc + rest.length), waiting rc rest, ps⟩ = .ok m') :
      Phase statements rc ∅ m' := by
  have hlen := congrArg List.length h
  rw [List.length_append] at hlen
  rcases Nat.lt_or_ge MAX_RECURSE_COUNT (rc + rest.length) with hdeep | hshallow
  · rw [step_deep hdeep] at hstep
    cases hstep
    have hnone : Set.Ico (rc + statements.length - MAX_RECURSE_COUNT) before.length = ∅ :=
      Set.Ico_eq_empty (by omega)
    exact hnone ▸ .returned h (.inr rfl)
  · rcases List.eq_nil_or_concat before with rfl | ⟨before, s, rfl⟩
    · obtain ⟨ps', heq⟩ := step_empty hshallow (waiting rc rest) ps host
      obtain rfl := Except.ok.inj (hstep.symm.trans heq)
      have hnone :
          Set.Ico (rc + statements.length - MAX_RECURSE_COUNT) ([] : List Ast).length = ∅ :=
        Set.Ico_eq_empty (by simp)
      exact hnone ▸ .returned h (.inr rfl)
    · rw [List.concat_eq_append, statementList_concat] at hstep
      obtain ⟨ps', heq⟩ := MQL.step_list hshallow s (statementList before) (waiting rc rest) ps host
      obtain rfl := Except.ok.inj (hstep.symm.trans heq)
      have hsplit : statements = before ++ s :: rest := by
        rw [h, List.concat_eq_append, List.append_assoc, List.singleton_append]
      exact .list hsplit

/-- Within a statement, until its value is returned to the list. -/
theorem Phase.step_inside {before rest : List Ast} {s : Ast} {ctrl : Ctrl} {frames : List Frame}
    {host : Host D} (h : statements = before ++ s :: rest)
    (hstep : Machine.step host ⟨ctrl, frames ++ .astLeft :: waiting rc rest, ps⟩ = .ok m') :
    Phase statements rc
      (Set.Ico (rc + statements.length - MAX_RECURSE_COUNT) (before.length + 1)) m' := by
  have hinside : ∀ {m : Machine D} {frames frames' : List Frame},
      m.stack = frames ++ (frames' ++ .astLeft :: waiting rc rest) →
      (∀ c d, m.ctrl = .eval c d → frames ≠ []) →
        Phase statements rc
          (Set.Ico (rc + statements.length - MAX_RECURSE_COUNT) (before.length + 1)) m := by
    rintro ⟨ctrl, stack, ps⟩ frames frames' hstack hpush
    dsimp only at hstack
    rw [← List.append_assoc] at hstack
    subst hstack
    exact .inside h fun c d hctrl ↦ List.append_ne_nil_of_left_ne_nil (hpush c d hctrl) _
  cases ctrl with
  | eval c d =>
    obtain ⟨frames', hstack, hpush⟩ := step_ok (Interp.evalNode_callsPush host c d) hstep
    exact hinside hstack hpush
  | evalPtr p actualParam d =>
    obtain ⟨frames', hstack, hpush⟩ := step_ok (Interp.evalPtr_callsPush p actualParam d) hstep
    exact hinside hstack hpush
  | ret node =>
    cases frames with
    | cons frame frames =>
      obtain ⟨frames', hstack, hpush⟩ := step_ok (Interp.resume_callsPush host frame node) hstep
      exact hinside hstack hpush
    | nil =>
      -- the frame of the statement is resumed and returns
      change (Interp.resume host .astLeft node ps).map
        (Machine.next (waiting rc rest)) = .ok m' at hstep
      have hret : Meets (fun _ ↦ True) (Interp.resume host .astLeft node) ps fun r _ ↦
          ∃ p, r = (.ret p, []) :=
        meets_bind.2 (meets_iff.2 ⟨fun p _ _ ↦ ⟨p, rfl⟩, fun _ _ ↦ trivial⟩)
      cases hi : Interp.resume host .astLeft node ps with
      | error e =>
        rw [hi] at hstep
        cases hstep
      | ok r =>
        rw [hi] at hstep
        cases hstep
        obtain ⟨p, heq⟩ := hret.run hi
        have hsplit : statements = (before ++ [s]) ++ rest := by
          rw [h, List.append_assoc, List.singleton_append]
        rw [Machine.next, heq]
        exact .returned hsplit (.inr (by rw [List.length_append, List.length_singleton]))

/-- **One step goes from phase to phase.** -/
theorem Phase.step {host : Host D} (h : Phase statements rc S m)
    (hstep : m.step host = .ok m') : Phase statements rc (after statements rc S m) m' := by
  cases h with
  | list h =>
    rw [after_of_not fun _ ↦ not_executes_waiting]
    exact Phase.step_list h hstep
  | statement h =>
    rw [after_statement h]
    exact Phase.step_inside h (show Machine.step host ⟨_, [] ++ _ :: _, _⟩ = _ from hstep)
  | inside h hpush =>
    rw [after_of_not fun _ ↦ not_executes_inside hpush]
    exact Phase.step_inside h hstep
  | @returned before rest node k ps h hk =>
    rw [after_of_not fun _ ↦ not_executes_waiting]
    cases rest with
    | nil => cases hstep
    | cons s rest =>
      obtain ⟨ctrl', stack', ps'⟩ := m'
      rcases step_astRight hstep with ⟨hsignal, rfl, rfl⟩ | ⟨hsignal, rfl, rfl⟩
      · have hsplit : statements = (before ++ [s]) ++ rest := by
          rw [h, List.append_assoc, List.singleton_append]
        exact .returned hsplit (.inl hsignal)
      · obtain rfl := hk.resolve_left hsignal
        exact .statement h

/-! ### Runs -/

theorem executed_nil : executed statements rc ps ([] : List (Host D)) = ∅ := by
  refine Set.eq_empty_of_forall_notMem ?_
  rintro k ⟨earlier, m, hpre, hne, -⟩
  exact hne (List.prefix_nil.1 hpre)

theorem executed_concat {hosts : List (Host D)} (host : Host D)
    (h : run Machine.step? (callList statements rc ps) hosts = some m) :
    executed statements rc ps (hosts ++ [host]) =
      after statements rc (executed statements rc ps hosts) m := by
  ext k
  constructor
  · rintro ⟨earlier, m', hpre, hne, hrun, hk⟩
    have hpre' := (List.prefix_concat_iff.1 hpre).resolve_left hne
    rcases eq_or_ne earlier hosts with rfl | hne'
    · obtain rfl := Option.some.inj (h.symm.trans hrun)
      exact .inr hk
    · exact .inl ⟨earlier, m', hpre', hne', hrun, hk⟩
  · rintro (⟨earlier, m', hpre, hne, hrun, hk⟩ | hk)
    · refine ⟨earlier, m', hpre.trans (List.prefix_append ..), ?_, hrun, hk⟩
      rintro rfl
      have hlen := hpre.length_le
      rw [List.length_append, List.length_singleton] at hlen
      omega
    · exact ⟨hosts, m, List.prefix_append .., by simp, h, hk⟩

/-- **Every state of the run is in its phase.** -/
theorem phase_of_run {hosts : List (Host D)}
    (h : run Machine.step? (callList statements rc ps) hosts = some m) :
    Phase statements rc (executed statements rc ps hosts) m := by
  induction hosts using List.reverseRecOn generalizing m with
  | nil =>
    obtain rfl := Option.some.inj h
    rw [executed_nil]
    exact .list (List.append_nil statements).symm
  | append_singleton hosts host ih =>
    rw [run_append, Option.bind_eq_some_iff] at h
    obtain ⟨m₁, hrun, hlast⟩ := h
    obtain ⟨m₂, hstep, hnil⟩ := run_cons_eq_some.1 hlast
    obtain rfl := Option.some.inj hnil
    rw [executed_concat host hrun]
    rw [Machine.step?] at hstep
    split at hstep
    · next m' heq => exact (Option.some.inj hstep) ▸ (ih hrun).step heq
    · cases hstep

/-- There is a run from one state to the other. -/
def Reaches (m m' : Machine D) : Prop := ∃ hosts, run Machine.step? m hosts = some m'

theorem Reaches.trans {m'' : Machine D} (h : Reaches m m') (h' : Reaches m' m'') :
    Reaches m m'' := by
  obtain ⟨hosts, hrun⟩ := h
  obtain ⟨hosts', hrun'⟩ := h'
  exact ⟨hosts ++ hosts', by rw [run_append, hrun, Option.bind_some, hrun']⟩

theorem reaches_step (host : Host D) (h : m.step host = .ok m') : Reaches m m' :=
  ⟨[host], by rw [run_cons, Machine.step?, h]; rfl⟩

/-- A node without rings. -/
def bareHost (D : Type) : Host D where
  rendv := ⟨0, 0⟩
  rings := .new 0 0
  getRingNumber := fun _ ↦ 0
  reply := none
  latencies := none

/-- A list is entered as deep as the limit allows. -/
theorem reaches_list : ∀ {rest before : List Ast}, statements = before ++ rest →
    rc + rest.length ≤ MAX_RECURSE_COUNT + 1 →
      ∃ ps', Reaches (callList statements rc ps)
        (⟨.eval (statementList before) (rc + rest.length), waiting rc rest, ps'⟩ : Machine D) := by
  intro rest
  induction rest with
  | nil =>
    intro before h _
    obtain rfl : statements = before := by rw [h, List.append_nil]
    exact ⟨ps, [], rfl⟩
  | cons s rest ih =>
    intro before h hdepth
    rw [List.length_cons] at hdepth
    have hsplit : statements = (before ++ [s]) ++ rest := by
      rw [h, List.append_assoc, List.singleton_append]
    obtain ⟨ps₁, hreach⟩ := ih hsplit (by omega)
    rw [statementList_concat] at hreach
    obtain ⟨ps₂, hstep⟩ := MQL.step_list (show rc + rest.length ≤ MAX_RECURSE_COUNT by omega) s
      (statementList before) (waiting rc rest) ps₁ (bareHost D)
    exact ⟨ps₂, hreach.trans (reaches_step _ hstep)⟩

/-- **A list that is cut off goes on with its later statements.** -/
theorem reaches_late (hlong : MAX_RECURSE_COUNT < rc + statements.length)
    (hshallow : rc < MAX_RECURSE_COUNT) (ps : ParserState D) :
    ∃ m : Machine D, Reaches (callList statements rc ps) m ∧
      Executes statements rc (rc + statements.length - MAX_RECURSE_COUNT) m := by
  -- the list in front of the last two statements that are within the limit
  obtain ⟨before, rest, hsplit, hrest⟩ : ∃ before rest, statements = before ++ rest ∧
      rc + rest.length = MAX_RECURSE_COUNT + 1 := by
    refine ⟨statements.take (rc + statements.length - (MAX_RECURSE_COUNT + 1)),
      statements.drop (rc + statements.length - (MAX_RECURSE_COUNT + 1)),
      (List.take_append_drop ..).symm, ?_⟩
    rw [List.length_drop]
    omega
  obtain ⟨ps', hreach⟩ : ∃ ps', Reaches (callList statements rc ps)
      (⟨.eval (statementList before) (rc + rest.length), waiting rc rest, ps'⟩ : Machine D) :=
    reaches_list hsplit hrest.le
  have hlen := congrArg List.length hsplit
  rw [List.length_append] at hlen
  rcases rest with - | ⟨s, - | ⟨s', rest⟩⟩
  · rw [List.length_nil] at hrest
    omega
  · rw [List.length_singleton] at hrest
    omega
  rw [List.length_cons, List.length_cons] at hrest hlen
  have hskip : Machine.step (bareHost D) ⟨.eval (statementList before)
      (rc + (s :: s' :: rest).length), waiting rc (s :: s' :: rest), ps'⟩ =
        .ok ⟨.ret .empty, waiting rc (s :: s' :: rest), ps'⟩ :=
    step_deep (by rw [List.length_cons, List.length_cons]; omega) _ _ _
  have hskip' : Machine.step (bareHost D) ⟨.eval s (rc + (s' :: rest).length + 1),
      .astLeft :: waiting rc (s' :: rest), ps'⟩ =
        .ok ⟨.ret .empty, .astLeft :: waiting rc (s' :: rest), ps'⟩ :=
    step_deep (by rw [List.length_cons]; omega) _ _ _
  have hnext : ∀ (t : Ast) (d : ℕ) (stack : List Frame),
      Reaches (⟨.ret .empty, .astRight t d :: stack, ps'⟩ : Machine D)
        ⟨.eval t (d + 1), .astLeft :: stack, ps'⟩ :=
    fun t d stack ↦ reaches_step (bareHost D) rfl
  have hleave : ∀ stack : List Frame, Reaches (⟨.ret .empty, .astLeft :: stack, ps'⟩ : Machine D)
      ⟨.ret .empty, stack, ps'⟩ :=
    fun stack ↦ reaches_step (bareHost D) rfl
  refine ⟨_, hreach.trans <| (reaches_step _ hskip).trans <| (hnext s _ _).trans <|
    (reaches_step _ hskip').trans <| (hleave _).trans (hnext s' _ _), ?_⟩
  refine ⟨before ++ [s], s', rest, ?_, ?_, rfl, rfl, by omega⟩
  · rw [hsplit, List.append_assoc, List.singleton_append]
  · rw [List.length_append, List.length_singleton]
    omega

/-- A cut-off list breaks the law. -/
theorem not_inOrder (hlong : MAX_RECURSE_COUNT < rc + statements.length)
    (hshallow : rc < MAX_RECURSE_COUNT) (ps : ParserState D) : ¬ InOrder statements rc ps := by
  intro h
  obtain ⟨m, ⟨hosts, hrun⟩, hk⟩ := reaches_late hlong hshallow ps
  have hall := h hosts m _ hrun hk
  have hnone := ((phase_of_run hrun).executes hk).1
  have hzero : 0 ∈ executed statements rc ps hosts := by
    rw [hall, Set.mem_Iio]
    omega
  rw [hnone, Set.mem_Ico] at hzero
  omega

/-- **Statement order and the recursion limit.** In every state, a list of statements that `eval` is
called with at depth `rc` is executed in its order, and a prefix of it, exactly if all of it is
within the recursion limit or none of it. -/
theorem statements_in_order_iff (statements : List Ast) (rc : ℕ) (ps : ParserState D) :
    InOrder statements rc ps ↔
      rc + statements.length ≤ MAX_RECURSE_COUNT ∨ MAX_RECURSE_COUNT ≤ rc := by
  constructor
  · intro h
    by_contra hcut
    rw [not_or] at hcut
    exact not_inOrder (by omega) (by omega) ps h
  · intro h hosts m k hrun hk
    obtain ⟨heq, -, -, hdepth⟩ := (phase_of_run hrun).executes hk
    have hzero : rc + statements.length - MAX_RECURSE_COUNT = 0 := by omega
    rw [heq, hzero]
    ext j
    simp

/-- Doubles that are not asked for anything. -/
@[reducible] def noDoubles : CDouble Unit where
  zero := ()
  infinity := ()
  negInfinity := ()
  ofInt := fun _ ↦ ()
  ofUInt := fun _ ↦ ()
  add := fun _ _ ↦ ()
  sub := fun _ _ ↦ ()
  mul := fun _ _ ↦ ()
  div := fun _ _ ↦ ()
  fmod := fun _ _ ↦ ()
  pow := fun _ _ ↦ ()
  lt := fun _ _ ↦ false
  le := fun _ _ ↦ false
  eq := fun _ _ ↦ false
  math := fun _ _ ↦ ()
  ceil := fun _ ↦ ()
  floor := fun _ ↦ ()
  lrint := fun _ ↦ 0
  toInt := fun _ ↦ 0
  toUInt := fun _ ↦ 0

/-- A function body of a thousand empty statements, one call deep. -/
theorem statements_out_of_order : ∃ _ : CDouble Unit,
    ¬ ∀ (statements : List Ast) (rc : ℕ) (ps : ParserState Unit), InOrder statements rc ps := by
  refine ⟨noDoubles, fun h ↦ ?_⟩
  refine @not_inOrder _ noDoubles (List.replicate 1000 .empty) 1 ?_ (by decide)
    ⟨fun _ ↦ none, [], 0, 0, -1, .empty, .empty⟩ (h _ _ _)
  rw [List.length_replicate]
  decide

end Meridian.MQL

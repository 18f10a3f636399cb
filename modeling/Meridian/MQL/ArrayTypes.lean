import Meridian.MQL.Ownership

/-!
# The elements of arrays

`array_union` compares the types of the elements of its operands only if those of the first are
structs. Apart from it no step puts an element of another type into an array: if all operands of
`array_union` agree (`Machine.UnionOk`), the elements of every array are of its element type, in every
state of the run (`arrays_typed`). `arrays_mixed` is a program whose operands do not agree.
-/

namespace Meridian.MQL

open ParserState VarTable Interp Relation

variable {D : Type} {nlits : ℕ} {typed : Prop} {s : ParserState D} {a b : Addr}

namespace ParserState

/-- The node at the address has not been received. -/
def OwnAt (s : ParserState D) (a : Addr) : Prop :=
  ∃ n, s.content (.node a) = some (.node n) ∧ n.Own

/-- What a place keeps has not been received, if the node of the place has not been received. -/
theorem At.own {P : Place} (h : s.WF nlits typed) (hP : s.At P (.node a))
    (hnode : ∀ d ∈ P.node, s.OwnAt d) : s.OwnAt a := by
  obtain ⟨tbl, ht, hchild⟩ := hP.child h
  obtain ⟨n, hn, hown⟩ := hchild.live
  refine ⟨n, nodeAt_iff.1 ⟨tbl, hchild.table ▸ ht, hn⟩, hown ?_⟩
  have hparent : ∀ d : Addr, s.OwnAt d → d.table = P.table →
      ∀ m, tbl.vStackAst[d.index]? = some m → m.Own := by
    rintro d ⟨m', hm', hown'⟩ htable m hm
    cases hm'.symm.trans (nodeAt_iff.1 ⟨tbl, htable ▸ ht, hm⟩)
    exact hown'
  cases P with
  | var t x => exact fun i hi ↦ by cases hi
  | elem d i =>
    rintro _ ⟨⟩ m hm
    exact hparent d (hnode d rfl) rfl m hm
  | field d k =>
    rintro _ ⟨⟩ m hm
    exact hparent d (hnode d rfl) rfl m hm

theorem Reaches.own (h : s.WF nlits typed) (hab : s.Reaches a b) (ha : s.OwnAt a) : s.OwnAt b := by
  induction hab with
  | refl => exact ha
  | tail _ hbc ih =>
    obtain ⟨P, hnode, hP⟩ := hbc
    refine hP.own h fun d hd ↦ ?_
    obtain rfl := Option.some.inj (hnode.symm.trans hd)
    exact ih

/-- All arrays that are part of the value have elements of the declared type. -/
def ArraysTyped (s : ParserState D) (a : Addr) : Prop :=
  ∀ d aType name v tb ps, s.Reaches a d →
    s.content (.node d) = some (.node (.array aType name v tb)) →
      s.content (.aux .vector v) = some (.vector ps) →
        ∀ p ∈ ps, ∃ b n, p = .node b ∧ s.content (.node b) = some (.node n) ∧
          n.HasElemType aType name

theorem OwnAt.arraysTyped (h : s.WF nlits True) (ha : s.OwnAt a) : s.ArraysTyped a := by
  intro d aType name v tb ps hreach hd hv p hp
  obtain ⟨n, hn, hown⟩ := Reaches.own h hreach ha
  cases hd.symm.trans hn
  obtain ⟨t, rfl⟩ := Option.ne_none_iff_exists'.1 hown
  obtain ⟨i, hi⟩ := List.mem_iff_getElem?.1 hp
  have hP : s.At (.elem d i) p := ⟨aType, name, v, some t, ps, hd, hv, hi⟩
  obtain ⟨tbl, ht, hslot⟩ := hP.ptrAt h
  rcases (h.table _ tbl ht).slot _ p hslot with ⟨b, rfl, hchild⟩ | ⟨-, x, hx, -⟩
  · obtain ⟨tbl', ht', hn'⟩ := nodeAt_iff.2 hd
    obtain rfl := Option.some.inj (ht.symm.trans ht')
    obtain ⟨e, he, htype⟩ := hchild.elem trivial d.index i aType name v t rfl hn'
    exact ⟨b, e, rfl, nodeAt_iff.1 ⟨tbl, hchild.table ▸ ht, he⟩, htype⟩
  · cases hx

end ParserState

/-- The arrays in variables and in what is returned have elements of the declared types. -/
structure Machine.ArraysTyped (m : Machine D) : Prop where
  held : ∀ t x a, m.ps.At (.var t x) (.node a) → m.ps.ArraysTyped a
  returned : ∀ a, m.ctrl = .ret (.node a) → m.ps.ArraysTyped a

theorem Machine.WF.arraysTyped {m : Machine D} {base : List TableId} (h : m.WF nlits True base) :
    m.ArraysTyped := by
  refine ⟨fun t x a hx ↦ ?_, fun a hret ↦ ?_⟩
  · exact (hx.own h.ps fun d hd ↦ by cases hd).arraysTyped h.ps
  · have hctrl := h.ctrl
    rw [hret] at hctrl
    obtain ⟨-, n, hn, hown⟩ := hctrl
    exact OwnAt.arraysTyped h.ps ⟨n, nodeAt_iff.1 hn, hown⟩

section Reachable

variable [CDouble D] {program : Program D} {funcString : Str} {param : Value D}

/-- **Arrays stay homogeneous** where the operands of each `array_union` have elements of the same
type, or the second is empty. -/
theorem arrays_typed {m₀ m : Machine D} {hosts : List (Host D)} (h : program.Parsed)
    (hstart : Machine.start program funcString param = .ok m₀)
    (hunion : Lib.AllSteps (fun m _ ↦ m.UnionOk) Machine.step? m₀ hosts)
    (hrun : Lib.run Machine.step? m₀ hosts = some m) : m.ArraysTyped := by
  have hwf : m₀.WF program.literals.length True [0] := Machine.start_wf h hstart
  have hunion : Lib.AllSteps (fun m _ ↦ True → m.UnionOk) Machine.step? m₀ hosts :=
    hunion.imp fun _ _ hm _ ↦ hm
  exact (Machine.run_wf hwf (List.cons_ne_nil _ _) hunion hrun).arraysTyped

end Reachable

section Example

/-- The element type of an array. -/
def ParserState.elemType (s : ParserState D) : Ptr → Option UInt32
  | .node a =>
    match s.content (.node a) with
    | some (.node (.array aType _ _ _)) => some aType
    | _ => none
  | _ => none

/-- The last operand and the one before it are arrays of the same type, or no arrays. -/
def Machine.agrees (m : Machine D) : Bool :=
  match m.ctrl, m.stack with
  | .ret q, .operands _ [p] _ _ :: _ => m.ps.elemType p == m.ps.elemType q
  | _, _ => true

theorem Machine.unionOk_of_agrees {m : Machine D} (h : m.agrees = true) : m.UnionOk := by
  intro curNode evaluated pending rc fs r hctrl hstack l r' p q hnode heq
  obtain ⟨rfl, rfl⟩ : evaluated = [p] ∧ r = q := by
    have heq : evaluated ++ [r] = [p] ++ [q] := heq
    exact ⟨List.append_inj_left' heq rfl, List.singleton_inj.1 (List.append_inj_right' heq rfl)⟩
  rw [agrees, hctrl, hstack] at h
  rintro a b aType name v tb aType' name' v' tb' rfl rfl ha hb
  have heq := beq_iff_eq.1 h
  rw [elemType, elemType, nodeAt_iff.1 ha, nodeAt_iff.1 hb] at heq
  exact .inl (Option.some.inj heq)

/-- A run with a union of two `int` arrays. -/
theorem arrays_typed_union : ∃ (_ : CLibrary) (m : Machine Lib.Binary64),
    m.result = some ⟨1, 4⟩ ∧ m.ArraysTyped := by
  let _ := reducing
  have hruns : ((Machine.start (unionProgram .int) mainName .empty).toOption.bind fun m₀ ↦
      Lib.run (fun m host ↦ if m.agrees then m.step? host else none) m₀
        (List.replicate 16 plainHost)).any (fun m ↦ m.result == some ⟨1, 4⟩) = true := by
    decide +kernel
  obtain ⟨m, hm, htest⟩ := (Option.any_eq_true ..).1 hruns
  obtain ⟨m₀, hm₀, hrun⟩ := Option.bind_eq_some_iff.1 hm
  obtain ⟨hall, hrun⟩ := Lib.allSteps_of_run_ite hrun
  refine ⟨reducing, m, beq_iff_eq.1 htest, arrays_typed (unionProgram_parsed .int)
    (Machine.start_eq_ok hm₀) (hall.imp fun _ _ ↦ Machine.unionOk_of_agrees) hrun⟩

end Example

/-! ### A union of different types -/

/-- The type of the node that a pointer leads to. -/
def ParserState.typeAt (s : ParserState D) : Ptr → Option ASTType
  | .node b =>
    match s.content (.node b) with
    | some (.node n) => some n.type
    | _ => none
  | _ => none

/-- The element type of the array that is returned, and the types of its elements. -/
def Machine.resultTypes (m : Machine D) : Option (UInt32 × List (Option ASTType)) :=
  match m.result with
  | none => none
  | some a =>
    match m.ps.content (.node a) with
    | some (.node (.array aType _ v _)) =>
      match m.ps.content (.aux .vector v) with
      | some (.vector ps) => some (aType, ps.map m.ps.typeAt)
      | _ => none
    | _ => none

theorem ParserState.typeAt_eq_some {p : Ptr} {ty : ASTType} (h : s.typeAt p = some ty) :
    ∃ b n, p = .node b ∧ s.content (.node b) = some (.node n) ∧ n.type = ty := by
  cases p with
  | node b =>
    rw [typeAt] at h
    split at h
    · next n hn => exact ⟨b, n, rfl, hn, Option.some.inj h⟩
    · cases h
  | _ => cases h

theorem Machine.not_arraysTyped {m : Machine D} {aType : UInt32} {types : List (Option ASTType)}
    {ty : ASTType} (h : m.resultTypes = some (aType, types)) (hmem : some ty ∈ types)
    (hne : ty.toWord ≠ aType) (hstruct : ty ≠ .varAdtType) : ¬ m.ArraysTyped := by
  intro htyped
  rw [resultTypes] at h
  split at h
  · cases h
  next a ha =>
  split at h
  swap
  · cases h
  next aType' name v tb hn =>
  split at h
  swap
  · cases h
  next ps hv =>
  cases h
  have hret : m.ctrl = .ret (.node a) := by
    rw [result] at ha
    split at ha
    · next hctrl => rw [hctrl, Option.some.inj ha]
    · cases ha
  obtain ⟨p, hp, hty⟩ := List.mem_map.1 hmem
  obtain ⟨b, n, rfl, hb, rfl⟩ := typeAt_eq_some hty
  obtain ⟨b', n', heq, hb', htype⟩ := htyped.returned a hret a _ _ _ _ _ .refl hn hv _ hp
  cases heq
  cases hb.symm.trans hb'
  cases n with
  | varAdt => exact hstruct rfl
  | _ => exact hne htype

/-- `array_union` of an `int` array and a `string` array has elements of both types. -/
theorem arrays_mixed : ¬ ∀ (_ : CLibrary) (program : Program Lib.Binary64) (funcString : Str)
    (param : Value Lib.Binary64) (m : Machine Lib.Binary64), program.Parsed →
      Machine.Reachable program funcString param m → m.ArraysTyped := by
  intro h
  let _ := reducing
  have hruns : ((Machine.start (unionProgram .string) mainName .empty).toOption.bind fun m₀ ↦
      Lib.run Machine.step? m₀ (List.replicate 16 plainHost)).any
        (fun m ↦ m.resultTypes == some (ASTType.intType.toWord, [some .intType, some .stringType])) =
          true := by decide +kernel
  obtain ⟨m, hreach, htest⟩ := Machine.exists_reachable hruns
  have hmem : some ASTType.stringType ∈ [some ASTType.intType, some .stringType] := by simp
  refine Machine.not_arraysTyped (beq_iff_eq.1 htest) hmem (by decide) (by decide) ?_
  exact h _ (unionProgram .string) mainName .empty m (unionProgram_parsed .string) hreach

end Meridian.MQL

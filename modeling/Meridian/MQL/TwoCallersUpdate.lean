import Meridian.MQL.TwoCallers
import Meridian.MQL.Copies
import Meridian.MQL.ScopeBalance

/-!
# Creating and assigning values, for two callers

`ASTCreate`, `updateADT`, `ADTEqual` and what is built on them, in both calls at once. The source of an
assignment is a value that both calls have (`PtrRel`), or a parameter, whose value is the same in the
two states in which the function is called (`Given`).
-/

namespace Meridian.MQL

open Lib (Runs Follows)
open ParserState Interp

variable {D : Type}

/-- The entries of the maps, side by side. -/
theorem mapRel_iff {R : Ptr → Ptr → Prop} {m m' : StrMap Ptr} :
    MapRel R m m' ↔
      List.Forall₂ (fun e e' ↦ e.1 = e'.1 ∧ R e.2 e'.2) m.toList m'.toList := by
  constructor
  · intro h
    -- equal keys in equal order, so the entries can be compared by their position
    have hkeys : m.keys = m'.keys := by
      refine keys_eq_of_mem_iff fun x ↦ ?_
      have hx := h x
      rw [Std.ExtTreeMap.mem_iff_isSome_getElem?, Std.ExtTreeMap.mem_iff_isSome_getElem?]
      generalize m[x]? = o at hx ⊢
      generalize m'[x]? = o' at hx ⊢
      cases hx <;> simp
    have hlen : m.toList.length = m'.toList.length := by
      simpa only [← Std.ExtTreeMap.map_fst_toList_eq_keys, List.length_map] using
        congrArg List.length hkeys
    refine List.forall₂_iff_get.2 ⟨hlen, fun i hi hi' ↦ ?_⟩
    have hfst : (m.toList.get ⟨i, hi⟩).1 = (m'.toList.get ⟨i, hi'⟩).1 := by
      have heq : m.toList.map Prod.fst = m'.toList.map Prod.fst := by
        rw [Std.ExtTreeMap.map_fst_toList_eq_keys, Std.ExtTreeMap.map_fst_toList_eq_keys, hkeys]
      have hget := congrArg (·[i]?) heq
      rw [List.getElem?_map, List.getElem?_map, List.getElem?_eq_getElem hi,
        List.getElem?_eq_getElem hi'] at hget
      exact Option.some.inj hget
    refine ⟨hfst, ?_⟩
    have hmem := Std.ExtTreeMap.mem_toList_iff_getElem?_eq_some.1 (m.toList.get_mem ⟨i, hi⟩)
    have hmem' := Std.ExtTreeMap.mem_toList_iff_getElem?_eq_some.1 (m'.toList.get_mem ⟨i, hi'⟩)
    have hx := h (m.toList.get ⟨i, hi⟩).1
    rw [hmem, hfst, hmem'] at hx
    cases hx with
    | some hx => exact hx
  · intro h x
    cases hp : m[x]? with
    | some p =>
      have hmem := Std.ExtTreeMap.mem_toList_iff_getElem?_eq_some.2 hp
      obtain ⟨⟨x', p'⟩, hmem', rfl, hR⟩ := exists_right_of_forall₂ h hmem
      rw [Std.ExtTreeMap.mem_toList_iff_getElem?_eq_some.1 hmem']
      exact .some hR
    | none =>
      cases hp' : m'[x]? with
      | some p' =>
        have hmem' := Std.ExtTreeMap.mem_toList_iff_getElem?_eq_some.2 hp'
        obtain ⟨⟨x', p⟩, hmem, rfl, -⟩ := exists_left_of_forall₂ h hmem'
        rw [Std.ExtTreeMap.mem_toList_iff_getElem?_eq_some.1 hmem] at hp
        cases hp
      | none => exact .none

/-- One more entry on both sides. -/
theorem MapRel.insert {R : Ptr → Ptr → Prop} {m m' : StrMap Ptr} {x : Str} {p p' : Ptr}
    (h : MapRel R m m')
    (hp : R p p') : MapRel R (m.insert x p) (m'.insert x p') := by
  intro y
  rw [Lib.getElem?_insert, Lib.getElem?_insert]
  split
  · exact .some hp
  · exact h y

/-- A weaker relation of the entries. -/
theorem MapRel.imp {R R' : Ptr → Ptr → Prop} {m m' : StrMap Ptr} (h : MapRel R m m')
    (hR : ∀ p p', R p p' → R' p p') : MapRel R' m m' := by
  intro x
  have hx := h x
  generalize m[x]? = o at hx ⊢
  generalize m'[x]? = o' at hx ⊢
  cases hx with
  | some hx => exact .some (hR _ _ hx)
  | none => exact .none

/-- The other way round. -/
theorem MapRel.flip {R : Ptr → Ptr → Prop} {m m' : StrMap Ptr} (h : MapRel R m m') :
    MapRel (fun p' p ↦ R p p') m' m := by
  intro x
  have hx := h x
  generalize m[x]? = o at hx ⊢
  generalize m'[x]? = o' at hx ⊢
  cases hx with
  | some hx => exact .some hx
  | none => exact .none

namespace TwoCallers

variable {K : TwoCallers D} {frozen : Prop} {n : ℕ} {t t' : TableId} {p p' : Ptr}

/-! ### `ASTCreate` -/

/-- What has been made is a pointer into the table that it was made in. -/
theorem Made.slotRel {o o' : Option Addr} (h : K.Made t o o') :
    K.SlotRel t (orEmpty o) (orEmpty o') := by
  cases h with
  | some h =>
    refine ⟨.node h.1, ?_⟩
    rintro _ ⟨⟩
    exact h.2
  | none => exact ⟨.empty, fun a ha ↦ by cases ha⟩

/-- The elements are made in turn. If one cannot be made, both calls stop there. -/
theorem createElems_both {v v' : Addr} {create create' : Interp D (Option Addr)}
    (hv : K.AddrRel (.aux .vector) v v') (hwrite : K.Writable frozen v.table)
    (hcreate : K.Both frozen n create create' (K.Made v.table)) (size : ℕ) :
    K.Both frozen n (createElems v create size) (createElems v' create' size) Eq := by
  induction size with
  | zero => exact both_pure rfl
  | succ size ih =>
    refine hcreate.bind fun o o' ho ↦ ?_
    have hslot := Made.slotRel ho
    cases ho with
    | some ho => exact (pushBack_both hv hwrite hslot.elemRel).bind fun _ _ _ ↦ ih
    | none => exact both_pure rfl

/-- The name that an array gets for its elements is that of the definition, which both calls find.
-/
theorem realAdtName_both {aType : UInt32} {name : Option Str}
    (hname : ∀ x ∈ name, K.Sees t t' x) :
    K.Both (D := D) frozen n (realAdtName t aType name) (realAdtName t' aType name) fun o o' ↦
      o' = o ∧ ∀ name' ∈ o, ∀ x ∈ name', K.Sees t t' x := by
  refine both_ite ?_ (both_pure ⟨rfl, ?_⟩)
  -- an array of structs
  · cases name with
    | none => exact both_throw
    | some x =>
      refine Both.bind (R := fun a b ↦ a = x ∧ b = x) (both_pure ⟨rfl, rfl⟩) ?_
      rintro _ x ⟨rfl, rfl⟩
      refine (lookup_both (hname x rfl)).bind fun o o' ho ↦ ?_
      cases ho with
      | none => exact both_pure ⟨rfl, fun _ h ↦ by cases h⟩
      | some ho =>
        obtain ⟨hp, hd⟩ := ho
        cases hp with
        | adt d =>
          refine both_pure ⟨rfl, ?_⟩
          rintro _ ⟨⟩ _ ⟨⟩
          exact hd d rfl
        | _ => exact both_pure ⟨rfl, fun _ h ↦ by cases h⟩
  · rintro _ ⟨⟩ _ h
    cases h

/-- The array is there, with an empty vector, before its elements are made. -/
theorem createArray_both {aType : UInt32} {name : Option Str} {size : Int32}
    {create create' : Interp D (Option Addr)} (h : K.Link t t') (hwrite : K.Writable frozen t)
    (hname : ∀ x ∈ name, K.Sees t t' x) (hcreate : K.Both frozen n create create' (K.Made t)) :
    K.Both frozen n (createArray t aType name size create) (createArray t' aType name size create')
      (K.Made t) := by
  refine both_ite (both_pure .none) ((realAdtName_both hname).bind ?_)
  rintro _ o ⟨rfl, ho⟩
  cases o with
  | none => exact both_pure .none
  | some name' =>
    refine (newStackAst_both h hwrite ((newStackVector_both h hwrite .nil).bind fun c c' hc ↦
      both_pure (.array hc.1 hc.2 (ho name' rfl)))).bind fun r r' hr ↦ ?_
    cases hr with
    | none => exact both_pure .none
    | @some a a' hr =>
      obtain ⟨ha, rfl⟩ := hr
      refine (getNode_both ha).bind fun x x' hx ↦ ?_
      cases hx with
      | array hv ht _ =>
        refine (createElems_both hv (ht ▸ hwrite) (ht ▸ hcreate) _).bind ?_
        rintro b _ rfl
        exact both_ite (both_pure (.some ⟨ha, rfl⟩)) (both_pure .none)
      | _ => exact both_throw

section Create

variable [CDouble D]

/-- A new scalar has the same value in both calls. -/
theorem createBasicType_both (h : K.Link t t') (hwrite : K.Writable frozen t) (b : BasicType) :
    K.Both frozen n (createBasicType t b) (createBasicType t' b) (K.Made t) := by
  cases b with
  | int => exact newStackAst_both h hwrite (both_pure (.int 0))
  | double => exact newStackAst_both h hwrite (both_pure (.double _))
  | string =>
    refine newStackAst_both h hwrite ((newStackString_both h hwrite []).bind fun c c' hc ↦ ?_)
    exact both_pure (.string hc.1 hc.2)
  | void =>
    exact (newStackAst_both h hwrite (both_pure .raw)).bind fun _ _ _ ↦ both_pure .none

/-- Fields are scalars and arrays of these, so no name is looked up. -/
theorem createField_both (h : K.Link t t') (hwrite : K.Writable frozen t) (f : Field) :
    K.Both (D := D) frozen n (createField t f) (createField t' f) (K.Made t) := by
  rw [createField, createField]
  cases f.vArraySize with
  | none => exact createBasicType_both h hwrite _
  | some size =>
    exact createArray_both h hwrite (fun _ hx ↦ by cases hx) (createBasicType_both h hwrite _)

/-- The fields are made in the order of the definition. -/
theorem createFields_both {m m' : Addr} (h : K.Link t t') (hwrite : K.Writable frozen t)
    (hm : K.AddrRel (.aux .map) m m') (ht : m.table = t) (fs : List Field) :
    K.Both (D := D) frozen n (createFields t m fs) (createFields t' m' fs) Eq := by
  subst ht
  induction fs with
  | nil => exact both_pure rfl
  | cons f fs ih =>
    refine (createField_both h hwrite f).bind fun o o' ho ↦ ?_
    have hslot := Made.slotRel ho
    cases ho with
    | none => exact both_pure rfl
    | some ho =>
      refine (getMap_both hm).bind fun g g' hg ↦ ?_
      exact (setMap_both hm hwrite (hg.insert hslot)).bind fun _ _ _ ↦ ih

/-- Both calls find the same definition, and so make the same fields. -/
theorem createAdt_both {name : Str} (h : K.Link t t') (hwrite : K.Writable frozen t)
    (hname : K.Sees t t' name) :
    K.Both (D := D) frozen n (createAdt t name) (createAdt t' name) (K.Made t) := by
  refine (lookup_both hname).bind fun o o' ho ↦ ?_
  cases ho with
  | none => exact both_pure .none
  | some ho =>
    obtain ⟨hp, hd⟩ := ho
    cases hp with
    | adt d =>
      refine (newStackAst_both h hwrite ((newStackMap_both h hwrite).bind fun c c' hc ↦
        both_pure (.varAdt hc.1 hc.2 (hd d rfl)))).bind fun r r' hr ↦ ?_
      cases hr with
      | none => exact both_pure .none
      | @some a a' hr =>
        obtain ⟨ha, rfl⟩ := hr
        refine (getNode_both ha).bind fun x x' hx ↦ ?_
        cases hx with
        | varAdt hm ht _ =>
          refine (createFields_both h hwrite hm ht _).bind ?_
          rintro b _ rfl
          exact both_ite (both_pure (.some ⟨ha, rfl⟩)) (both_pure .none)
        | _ => exact both_throw
    | _ => exact both_pure .none

/-- An element of an array, by the type of the array. -/
theorem createElem_both {aType : UInt32} {name : Option Str} (h : K.Link t t')
    (hwrite : K.Writable frozen t) (hname : ∀ x ∈ name, K.Sees t t' x) :
    K.Both (D := D) frozen n (createElem t aType name) (createElem t' aType name) (K.Made t) := by
  unfold createElem
  split
  · exact createBasicType_both h hwrite _
  · exact createBasicType_both h hwrite _
  · exact createBasicType_both h hwrite _
  · cases name with
    | none => exact both_pure .none
    | some x => exact createAdt_both h hwrite (hname x rfl)
  · exact createArray_both h hwrite hname (both_pure .none)
  · exact createBasicType_both h hwrite _

/-- A scalar or a struct, as it is declared. -/
theorem createType_both {e : ElemType} (h : K.Link t t') (hwrite : K.Writable frozen t)
    (hname : ∀ x ∈ e.adtName, K.Sees t t' x) :
    K.Both (D := D) frozen n (createType t e) (createType t' e) (K.Made t) := by
  cases e with
  | basic b => exact createBasicType_both h hwrite b
  | adt name => exact createAdt_both h hwrite (hname name rfl)

end Create

end TwoCallers

/-- An argument has the same value in both states. -/
inductive Given (s s' : ParserState D) : Ptr → Ptr → Prop
  | value {p p' : Ptr} (x : Value D) (h : Denotes (fun _ ↦ True) s x p)
    (h' : Denotes (fun _ ↦ True) s' x p') : Given s s' p p'
  | token {p : Ptr} (h : ∀ a, p ≠ .node a) : Given s s' p p

/-- The struct that a declared type is about. -/
def DeclType.adtName : DeclType → Option Str
  | elem t => t.adtName
  | array t => t.adtName

namespace TwoCallers

variable {K : TwoCallers D} {frozen : Prop} {n : ℕ} {t t' : TableId} {p p' : Ptr}

/-- `ASTCreate` in two tables that see the struct alike. -/
theorem astCreate_both [CDouble D] {d : DeclType} {size : Int32} (h : K.Link t t')
    (hwrite : K.Writable frozen t) (hname : ∀ x ∈ d.adtName, K.Sees t t' x) :
    K.Both (D := D) frozen n (astCreate t d size) (astCreate t' d size) (K.Made t) := by
  cases d with
  | elem e => exact createType_both h hwrite hname
  | array e => exact createArray_both h hwrite hname (createType_both h hwrite hname)

/-! ### `updateADT` -/

variable (K) in
/-- What is assigned from: a value that both calls have, or a parameter. -/
def SrcRel (frozen : Prop) (p p' : Ptr) : Prop :=
  K.PtrRel p p' ∨ (frozen ∧ Given K.one.state K.two.state p p')

variable (K) in
/-- Nodes that are assigned from. -/
inductive SrcNode (frozen : Prop) (n : ℕ) : Node D → Node D → Prop
  | raw : SrcNode frozen n .raw .raw
  | int (i : Int32) : SrcNode frozen n (.int i) (.int i)
  | double (d : D) : SrcNode frozen n (.double d) (.double d)
  | string {c c' : Addr} (h : K.Both (D := D) frozen n (getString c) (getString c') Eq) :
    SrcNode frozen n (.string c) (.string c')
  | array {aType : UInt32} {name : Option Str} {v v' : Addr} {tb tb' : Option TableId}
    (h : K.Both (D := D) frozen n (getVector v) (getVector v') (List.Forall₂ (K.SrcRel frozen))) :
    SrcNode frozen n (.array aType name v tb) (.array aType name v' tb')
  | varAdt {name : Str} {m m' : Addr} {u u' : Bool}
    (h : K.Both (D := D) frozen n (getMap m) (getMap m') (MapRel (K.SrcRel frozen))) :
    SrcNode frozen n (.varAdt name m u) (.varAdt name m' u')
  | sep {v v' : Addr}
    (h : K.Both (D := D) frozen n (getVector v) (getVector v') (List.Forall₂ (K.SrcRel frozen))) :
    SrcNode frozen n (.sep v) (.sep v')

/-- What both calls have can be assigned from. -/
theorem NodeRel.srcNode {x x' : Node D} (h : K.NodeRel t t' x x') : K.SrcNode frozen n x x' := by
  have hvector : ∀ {v v' : Addr}, K.AddrRel (.aux .vector) v v' →
      K.Both (D := D) frozen n (getVector v) (getVector v') (List.Forall₂ (K.SrcRel frozen)) := fun hv ↦
    (getVector_both hv).mono fun _ _ h ↦ h.imp fun _ _ hp ↦ .inl hp.1
  cases h with
  | raw => exact .raw
  | int i => exact .int i
  | double d => exact .double d
  | string h => exact .string (getString_both h)
  | array h => exact .array (hvector h)
  | varAdt h => exact .varAdt ((getMap_both h).mono fun _ _ hm ↦ hm.imp fun _ _ hp ↦ .inl hp.1)
  | sep h => exact .sep (hvector h)

/-- What is read from the states before the call: it has a result of its own in either of them. -/
theorem both_of_frozen {α β : Type} {m : Interp D α} {m' : Interp D β} {R : α → β → Prop} {x : α}
    {y : β} (hR : R x y) (hm : ∀ s, K.one.Kept frozen s → Runs m s x s)
    (hm' : ∀ s, K.two.Kept frozen s → Runs m' s y s) : K.Both frozen n m m' R := by
  intro s s' hs a t hrun
  obtain ⟨rfl, rfl⟩ := (hm s hs.kept).unique hrun
  exact ⟨y, s', hm' s' hs.kept', hs, hR⟩

/-- An argument is read. The two nodes need not be paired, and only their values count. -/
theorem nodeAt_given_both (hfrozen : frozen) (h : Given K.one.state K.two.state p p') :
    K.Both frozen n (Interp.nodeAt p) (Interp.nodeAt p')
      (Option.Rel fun x x' ↦ K.SrcNode frozen n x.2 x'.2) := by
  have hread : ∀ {a a' : Addr} {x x' : Node D},
      K.one.state.content (.node a) = some (.node x) →
      K.two.state.content (.node a') = some (.node x') → K.SrcNode frozen n x x' →
      K.Both frozen n (Interp.nodeAt (.node a)) (Interp.nodeAt (.node a'))
        (Option.Rel fun x x' ↦ K.SrcNode frozen n x.2 x'.2) := fun ha ha' hx ↦
    both_of_frozen (.some hx) (fun _ hs ↦ runs_nodeAt (hs.content hfrozen _ _ ha)) fun _ hs ↦
      runs_nodeAt (hs.content hfrozen _ _ ha')
  cases h with
  -- not a node, and so the same pointer in both calls
  | token h =>
    cases p with
    | null => exact both_throw
    | node a => exact absurd rfl (h a)
    | _ => exact both_pure .none
  | value x hx hx' =>
  cases x with
  | int i =>
    obtain ⟨a, rfl, -, ha⟩ := hx
    obtain ⟨a', rfl, -, ha'⟩ := hx'
    exact hread ha ha' (.int i)
  | double d =>
    obtain ⟨a, rfl, -, ha⟩ := hx
    obtain ⟨a', rfl, -, ha'⟩ := hx'
    exact hread ha ha' (.double d)
  | string y =>
    obtain ⟨a, c, rfl, ⟨-, ha⟩, -, hc⟩ := hx
    obtain ⟨a', c', rfl, ⟨-, ha'⟩, -, hc'⟩ := hx'
    refine hread ha ha' (.string (both_of_frozen (x := y) rfl ?_ ?_))
    · exact fun s hs ↦ runs_getString (hs.content hfrozen _ _ hc)
    · exact fun s hs ↦ runs_getString (hs.content hfrozen _ _ hc')
  | array aType name xs =>
    obtain ⟨a, v, tb, ps, rfl, ⟨-, ha⟩, ⟨-, hv⟩, hps⟩ := hx
    obtain ⟨a', v', tb', ps', rfl, ⟨-, ha'⟩, ⟨-, hv'⟩, hps'⟩ := hx'
    refine hread ha ha' (.array (both_of_frozen (x := ps) (y := ps') ?_ ?_ ?_))
    -- the elements are arguments again, with the values of the list
    · rw [denotesVector_iff, List.forall₂_iff_get] at hps hps'
      refine List.forall₂_iff_get.2 ⟨hps.1.symm.trans hps'.1, fun i hi hi' ↦ ?_⟩
      have hlt : i < xs.length := hps.1 ▸ hi
      exact .inr ⟨hfrozen, .value _ (hps.2 i hlt hi) (hps'.2 i hlt hi')⟩
    · exact fun s hs ↦ runs_getVector (hs.content hfrozen _ _ hv)
    · exact fun s hs ↦ runs_getVector (hs.content hfrozen _ _ hv')
  | adt name fs =>
    obtain ⟨a, m, u, f, rfl, ⟨-, ha⟩, ⟨-, hm⟩, hfs⟩ := hx
    obtain ⟨a', m', u', f', rfl, ⟨-, ha'⟩, ⟨-, hm'⟩, hfs'⟩ := hx'
    refine hread ha ha' (.varAdt (both_of_frozen (x := f) (y := f') ?_ ?_ ?_))
    · rw [denotesMap_iff, List.forall₂_iff_get] at hfs hfs'
      refine mapRel_iff.2 (List.forall₂_iff_get.2 ⟨hfs.1.symm.trans hfs'.1, fun i hi hi' ↦ ?_⟩)
      have hlt : i < fs.length := hfs.1 ▸ hi
      have hl := hfs.2 i hlt hi
      have hr := hfs'.2 i hlt hi'
      exact ⟨hl.1.symm.trans hr.1, .inr ⟨hfrozen, .value _ hl.2 hr.2⟩⟩
    · exact fun s hs ↦ runs_getMap (hs.content hfrozen _ _ hm)
    · exact fun s hs ↦ runs_getMap (hs.content hfrozen _ _ hm')
  | empty => exact hx.elim
  | sep xs => exact hx.elim
  | other ty => exact hx.elim

/-- Either kind of source is read. -/
theorem nodeAt_src_both (h : K.SrcRel frozen p p') :
    K.Both frozen n (Interp.nodeAt p) (Interp.nodeAt p')
      (Option.Rel fun x x' ↦ K.SrcNode frozen n x.2 x'.2) := by
  rcases h with h | ⟨hfrozen, h⟩
  · refine (nodeAt_both h).mono fun o o' ho ↦ ?_
    cases ho with
    | node _ hx => exact .some hx.srcNode
    | none => exact .none
  · exact nodeAt_given_both hfrozen h

variable {this this' : TableId} {assign assign' : Ptr → Ptr → Interp D Bool}

variable (K) in
/-- The table that `updateADT` is called for: it knows the structs of the table that is written to. -/
def ThisOk (this this' t : TableId) : Prop :=
  K.Scope this this' ∨ (this = K.one.table ∧ this' = K.two.table ∧ t = K.one.table)

/-- The struct of a node that is written to is one that the table of the call sees. -/
theorem ThisOk.sees {x : Str} (h : K.ThisOk this this' t) (hlink : K.Link t t')
    (hx : K.Sees t t' x) : K.Sees this this' x := by
  rcases h with h | ⟨rfl, rfl, rfl⟩
  · exact .inl h
  · rcases hx with hx | ⟨-, -, hx⟩
    · exact absurd rfl hx.2
    · exact .inr ⟨rfl, rfl, hx⟩

variable (K) in
/-- What is known of a call of `updateADT` that writes to this table. -/
def AssignBoth (frozen : Prop) (n : ℕ) (t : TableId)
    (assign assign' : Ptr → Ptr → Interp D Bool) : Prop :=
  ∀ l l' r r', K.SlotRel t l l' → K.SrcRel frozen r r' → K.Both frozen n (assign l r) (assign' l' r') Eq

/-- A struct from a list, in the order of the fields. -/
theorem initFields_both {f f' : StrMap Ptr} {rs rs' : List Ptr}
    (hassign : K.AssignBoth frozen n t assign assign') (hf : MapRel (K.SlotRel t) f f')
    (hrs : List.Forall₂ (K.SrcRel frozen) rs rs') (fs : List Field) :
    K.Both frozen n (initFields assign f fs rs) (initFields assign' f' fs rs') Eq := by
  induction hrs generalizing fs with
  | nil => cases fs <;> exact both_pure rfl
  | cons hr _ ih =>
    cases fs with
    | nil => exact both_pure rfl
    | cons fd fs =>
      rw [initFields, initFields]
      have hl := hf fd.vName
      generalize f[fd.vName]? = o at hl ⊢
      generalize f'[fd.vName]? = o' at hl ⊢
      cases hl with
      | none => exact both_pure rfl
      | some hl =>
        refine (hassign _ _ _ _ hl hr).bind ?_
        rintro b _ rfl
        exact both_ite (ih fs) (both_pure rfl)

/-- A struct from a struct, field by field. -/
theorem assignFields_both {f f' g g' : StrMap Ptr} (hassign : K.AssignBoth frozen n t assign assign')
    (hf : MapRel (K.SlotRel t) f f') (hg : MapRel (K.SrcRel frozen) g g') (fs : List Field) :
    K.Both frozen n (assignFields assign f g fs) (assignFields assign' f' g' fs) Eq := by
  induction fs with
  | nil => exact both_pure rfl
  | cons fd fs ih =>
    rw [assignFields, assignFields]
    have hl := hf fd.vName
    have hr := hg fd.vName
    generalize f[fd.vName]? = o at hl ⊢
    generalize f'[fd.vName]? = o' at hl ⊢
    generalize g[fd.vName]? = q at hr ⊢
    generalize g'[fd.vName]? = q' at hr ⊢
    cases hl with
    | none => exact both_pure rfl
    | some hl =>
      cases hr with
      | none => exact both_pure rfl
      | some hr =>
        refine (hassign _ _ _ _ hl hr).bind ?_
        rintro b _ rfl
        exact both_ite ih (both_pure rfl)

/-- The elements of an array: each one is made, assigned and put into the vector. -/
theorem assignElems_both {create create' : Interp D (Option Addr)} {v v' : Addr} {rs rs' : List Ptr}
    (hassign : K.AssignBoth frozen n v.table assign assign') (hwrite : K.Writable frozen v.table)
    (hcreate : K.Both frozen n create create' (K.Made v.table)) (hv : K.AddrRel (.aux .vector) v v')
    (hrs : List.Forall₂ (K.SrcRel frozen) rs rs') :
    K.Both frozen n (assignElems assign create v rs) (assignElems assign' create' v' rs') Eq := by
  induction hrs with
  | nil => exact both_pure rfl
  | cons hr _ ih =>
    refine hcreate.bind fun o o' ho ↦ ?_
    have hslot := Made.slotRel ho
    cases ho with
    | none => exact both_pure rfl
    | some ho =>
      refine (hassign _ _ _ _ hslot hr).bind ?_
      rintro b _ rfl
      refine both_ite ?_ (both_pure rfl)
      exact (pushBack_both hv hwrite hslot.elemRel).bind fun _ _ _ ↦ ih

/-- The names are the same in both calls, and only these are compared. -/
theorem sameAdtName_both (aType : UInt32) (name name' : Option Str) :
    K.Both (D := D) frozen n (sameAdtName aType name name') (sameAdtName aType name name') Eq := by
  refine both_ite ((derefName_both name).bind ?_) (both_pure rfl)
  rintro x _ rfl
  refine (derefName_both name').bind ?_
  rintro y _ rfl
  exact both_pure rfl

section Assign

variable [CDouble D]

/-- An array is filled anew. -/
theorem refill_both {aType : UInt32} {name : Option Str} {v v' w w' : Addr}
    (hassign : K.AssignBoth frozen n t assign assign') (hlink : K.Link t t')
    (hwrite : K.Writable frozen t)
    (hv : K.AddrRel (.aux .vector) v v') (ht : v.table = t) (hname : ∀ x ∈ name, K.Sees t t' x)
    (hw : K.Both (D := D) frozen n (getVector w) (getVector w') (List.Forall₂ (K.SrcRel frozen))) :
    K.Both frozen n (do
        setVector v []
        assignElems assign (createIn (some t) aType name) v (← getVector w)) (do
        setVector v' []
        assignElems assign' (createIn (some t') aType name) v' (← getVector w')) Eq := by
  subst ht
  refine (setVector_both hv hwrite .nil).bind fun _ _ _ ↦ hw.bind fun rs rs' hrs ↦ ?_
  exact assignElems_both hassign hwrite (createElem_both hlink hwrite hname) hv hrs

/-- One node is assigned to. Its kind and that of the source decide, and both are the same in both
calls. -/
theorem updateNode_both {a a' : Addr} {x x' y y' : Node D} (hthis : K.ThisOk this this' a.table)
    (hassign : K.AssignBoth frozen n a.table assign assign') (hwrite : K.Writable frozen a.table)
    (ha : K.AddrRel .node a a') (hx : K.NodeRel a.table a'.table x x') (hy : K.SrcNode frozen n y y') :
    K.Both frozen n (updateNode this assign a x y) (updateNode this' assign' a' x' y') Eq := by
  cases hx with
  | raw => exact both_pure rfl
  | int i =>
    cases hy with
    | int j => exact (setNode_both ha hwrite (.int j)).bind fun _ _ _ ↦ both_pure rfl
    | _ => exact both_pure rfl
  | double d =>
    cases hy with
    | double e => exact (setNode_both ha hwrite (.double e)).bind fun _ _ _ ↦ both_pure rfl
    | _ => exact both_pure rfl
  | string hc ht =>
    cases hy with
    | string hc' =>
      refine hc'.bind ?_
      rintro z _ rfl
      exact (setString_both hc (ht ▸ hwrite) z).bind fun _ _ _ ↦ both_pure rfl
    | _ => exact both_pure rfl
  | array hv ht hname =>
    cases hy with
    | sep hw => exact refill_both hassign ha.link hwrite hv ht hname hw
    | array hw =>
      refine both_ite (both_pure rfl) ((sameAdtName_both _ _ _).bind ?_)
      rintro b _ rfl
      exact both_ite (refill_both hassign ha.link hwrite hv ht hname hw) (both_pure rfl)
    | _ => exact both_pure rfl
  | varAdt hm ht hname =>
    have hsees := hthis.sees ha.link hname
    cases hy with
    -- a list: one entry for each field of the definition
    | sep hw =>
      refine (lookup_both hsees).bind fun o o' ho ↦ ?_
      cases ho with
      | none => exact both_pure rfl
      | some ho =>
        refine (adtParam_both ho.1).bind ?_
        rintro fs _ rfl
        refine hw.bind fun rs rs' hrs ↦ ?_
        rw [hrs.length_eq]
        refine both_ite (both_pure rfl) ((getMap_both hm).bind fun f f' hf ↦ ?_)
        exact initFields_both hassign (ht ▸ hf) hrs _
    | varAdt hw =>
      refine both_ite (both_pure rfl) ((lookup_both hsees).bind fun o o' ho ↦ ?_)
      cases ho with
      | none => exact both_pure rfl
      | some ho =>
        refine (adtParam_both ho.1).bind ?_
        rintro fs _ rfl
        refine (getMap_both hm).bind fun f f' hf ↦ hw.bind fun g g' hg ↦ ?_
        exact assignFields_both hassign (ht ▸ hf) hg _
    | _ => exact both_pure rfl
  | sep hv => exact both_pure rfl

/-- Down to any depth. A source deeper than the fuel faults and has no run to follow. -/
theorem updateFuel_both (fuel : ℕ) (hthis : K.ThisOk this this' t) (hwrite : K.Writable frozen t) :
    K.AssignBoth (D := D) frozen n t (updateFuel this fuel) (updateFuel this' fuel) := by
  induction fuel with
  | zero => exact fun _ _ _ _ _ _ ↦ both_throw
  | succ fuel ih =>
    intro l l' r r' hl hr
    refine (nodeAt_both hl.1).bind fun o o' ho ↦ (nodeAt_src_both hr).bind fun q q' hq ↦ ?_
    cases ho with
    | none => exact both_pure rfl
    | node ha hx =>
      cases hq with
      | none => exact both_pure rfl
      | some hy =>
        obtain rfl := hl.2 _ rfl
        exact updateNode_both hthis ih hwrite ha hx hy

/-- The assignment of a value that goes together, to a table that may be written to. -/
theorem updateADT_both {l l' r r' : Ptr} (hthis : K.ThisOk this this' t) (hwrite : K.Writable frozen t)
    (hl : K.SlotRel t l l') (hr : K.SrcRel frozen r r') :
    K.Both (D := D) frozen n (updateADT this l r) (updateADT this' l' r') Eq :=
  updateFuel_both _ hthis hwrite _ _ _ _ hl hr

/-- While a body is evaluated anything may be assigned to. -/
theorem updateADT_body_both {l l' r r' : Ptr} (hbody : ¬ frozen) (hthis : K.New this this')
    (hl : K.PtrRel l l') (hr : K.PtrRel r r') :
    K.Both (D := D) frozen n (updateADT this l r) (updateADT this' l' r') Eq := by
  obtain ⟨t, hslot⟩ := hl.exists_slotRel
  exact updateADT_both (.inl hthis.scope) (fun h ↦ absurd h hbody) hslot (.inl hr)

/-! ### Variables -/

/-- A variable is made in the table at the top, so it may be assigned to at once. -/
theorem variableCreate_both {d : DeclType} {size : Int32} {x : Str} :
    K.Both (D := D) frozen (n + 1) (variableCreate d size x) (variableCreate d size x) fun p p' ↦
      K.PtrRel p p' ∧ (p = .empty ∨ ∃ a, p = .node a ∧ K.Writable frozen a.table) := by
  refine getVarTable_both.bind fun t t' ht ↦ ?_
  refine (astCreate_both (.new ht) (fun _ ↦ ht.le) fun _ _ ↦ .inl ht.scope).bind fun o o' ho ↦ ?_
  have hslot := Made.slotRel ho
  cases ho with
  | none => exact both_pure ⟨.empty, .inl rfl⟩
  | some ho =>
    refine (insert_both ht hslot).bind ?_
    rintro b _ rfl
    refine both_ite (both_pure ⟨hslot.1, .inr ⟨_, rfl, fun _ ↦ ?_⟩⟩) (both_pure ⟨.empty, .inl rfl⟩)
    exact ho.2 ▸ ht.le

/-- A variable that has been created is what its name stands for. -/
theorem lookup_of_variableCreate {d : DeclType} {size : Int32} {x : Str} {s s' : ParserState D}
    {a : Addr} (hrun : Runs (variableCreate d size x) s (.node a) s')
    (htop : s'.varTable.head? = some t) : Runs (lookup t x) s' (some (.node a)) s' := by
  obtain ⟨u, s₁, hu, hrest⟩ := Lib.runs_bind.1 hrun
  obtain ⟨rfl, hu⟩ := runs_getVarTable_iff.1 hu
  obtain ⟨o, s₂, hcreate, hname⟩ := Lib.runs_bind.1 hrest
  have hvarTable := ((astCreate_steady u d size).varTable_eq _).run hcreate
  cases o with
  | none => cases (Lib.runs_pure.1 hname).1
  | some b =>
    obtain ⟨r, s₃, hinsert, hend⟩ := Lib.runs_bind.1 hname
    cases r with
    | false => cases (Lib.runs_pure.1 hend).1
    | true =>
      obtain ⟨hab, rfl⟩ := Lib.runs_pure.1 hend
      obtain rfl : b = a := Ptr.node.inj hab
      obtain ⟨tbl, s₄, hget, hset⟩ := Lib.runs_bind.1 hinsert
      obtain ⟨rfl, ht⟩ := runs_getTable_iff.1 hget
      split at hset
      · cases (Lib.runs_pure.1 hset).1
      · obtain ⟨_, s₅, hmodify, hret⟩ := Lib.runs_bind.1 hset
        obtain ⟨-, rfl⟩ := Lib.runs_pure.1 hret
        have hmodify := Lib.runs_modify.1 hmodify
        subst hmodify
        obtain rfl : u = t := Option.some.inj (hu.symm.trans ((congrArg _ hvarTable).symm.trans htop))
        have hnew : (s₄.withTable u { tbl with vMap := tbl.vMap.insert x (.node b) }).tables u =
          some { tbl with vMap := tbl.vMap.insert x (.node b) } := withTable_same
        refine Lib.runs_bind.2 ⟨_, _, runs_getTable_iff.2 ⟨rfl, hnew⟩, ?_⟩
        refine Lib.runs_bind.2 ⟨_, _, runs_getTable_iff.2 ⟨rfl, hnew⟩, ?_⟩
        rw [Lib.getElem?_insert, if_pos rfl]
        exact Lib.runs_pure.2 ⟨rfl, rfl⟩

/-- A variable is assigned. While the parameters are, it has to be in a table of the call (`hdest`).
-/
theorem variableAssign_follows {x : Str} {s s' : ParserState D} (hs : K.Related frozen (n + 1) s s')
    (hp : K.SrcRel frozen p p') (hdest : ∀ t a, s.varTable.head? = some t →
      Runs (lookup t x) s (some (.node a)) s → K.Writable frozen a.table) :
    Follows (variableAssign x p) s (variableAssign x p') s' fun q s₁ q' s₁' ↦
      K.Related frozen (n + 1) s₁ s₁' ∧ K.PtrRel q q' := by
  refine (getVarTable_both s s' hs).runs.bind ?_
  rintro t s₁ t' s₁' ⟨⟨hs₁, ht⟩, hget⟩
  obtain ⟨rfl, htop⟩ := runs_getVarTable_iff.1 hget
  refine (lookup_scope_both ht.scope _ _ hs₁).runs.bind ?_
  rintro o s₂ o' s₂' ⟨⟨hs₂, ho⟩, hlookup⟩
  have heq : s₂ = s₁ := (lookup_readOnly t x s₁).run hlookup
  cases ho with
  | none => exact both_pure (R := K.PtrRel) .empty _ _ hs₂
  | @some l l' hl =>
    have hslot : ∃ u, K.Writable frozen u ∧ ∀ a, l = .node a → a.table = u := by
      cases hl with
      | @node a =>
        refine ⟨a.table, hdest t a htop (heq ▸ hlookup), ?_⟩
        rintro _ ⟨⟩
        rfl
      | _ => exact ⟨t, fun _ ↦ ht.le, fun a ha ↦ by cases ha⟩
    obtain ⟨u, hu, htable⟩ := hslot
    refine (updateADT_both (.inl ht.scope) hu ⟨hl, htable⟩ hp _ _ hs₂).bind ?_
    rintro b s₃ _ s₃' ⟨hs₃, rfl⟩
    refine both_ite (R := K.PtrRel) ?_ (both_pure .empty) _ _ hs₃
    refine (lookup_scope_both ht.scope).bind fun o o' ho ↦ ?_
    cases ho with
    | none => exact both_pure .empty
    | some ho => exact both_pure ho

/-- While a body is evaluated there is nothing to ask of the variable. -/
theorem variableAssign_body_both {x : Str} (hbody : ¬ frozen) (hp : K.PtrRel p p') :
    K.Both (D := D) frozen (n + 1) (variableAssign x p) (variableAssign x p') K.PtrRel :=
  fun _ _ hs ↦ variableAssign_follows hs (.inl hp) fun _ _ _ _ h ↦ absurd h hbody

/-- Parameter after parameter: each variable is created before it is assigned. -/
theorem assignParams_both {rs rs' : List Ptr} (hrs : List.Forall₂ (K.SrcRel frozen) rs rs')
    (ps : List Param) :
    K.Both (D := D) frozen (n + 1) (assignParams ps rs) (assignParams ps rs') Eq := by
  induction hrs generalizing ps with
  | nil => cases ps <;> exact both_pure rfl
  | @cons r r' rs rs' hr _ ih =>
    cases ps with
    | nil => exact both_pure rfl
    | cons p ps =>
      intro s s' hs
      refine (variableCreate_both s s' hs).runs.bind ?_
      rintro q s₁ q' s₁' ⟨⟨hs₁, hq, hwrite⟩, hcreate⟩
      refine (typeOf_both hq s₁ s₁' hs₁).runs.bind ?_
      rintro ty s₂ _ s₂' ⟨⟨hs₂, rfl⟩, htype⟩
      have heq : s₂ = s₁ := (typeOf_readOnly q s₁).run htype
      subst heq
      split
      · exact both_pure (R := Eq) rfl _ _ hs₂
      · next hne =>
        refine (variableAssign_follows hs₂ hr fun t a htop hlookup ↦ ?_).bind ?_
        -- the name stands for the variable that has just been created
        · rcases hwrite with rfl | ⟨b, rfl, hwrite⟩
          · exact absurd (Lib.runs_pure.1 htype).1.symm hne
          · obtain ⟨heq, -⟩ := (lookup_of_variableCreate hcreate htop).unique hlookup
            cases heq
            exact hwrite
        · rintro v s₃ v' s₃' ⟨hs₃, hv⟩
          refine (typeOf_both hv).bind (Q := Eq) ?_ _ _ hs₃
          rintro ty' _ rfl
          exact both_ite (both_pure rfl) (ih ps)

/-- The number of arguments is the same, and so it fits in both calls or in neither. -/
theorem paramListAssign_both {rs rs' : List Ptr} (hrs : List.Forall₂ (K.SrcRel frozen) rs rs')
    (formal : List Param) :
    K.Both (D := D) frozen (n + 1) (paramListAssign formal rs) (paramListAssign formal rs') Eq := by
  cases formal with
  | nil => exact both_pure rfl
  | cons p ps =>
    rw [paramListAssign, paramListAssign, hrs.length_eq]
    · exact both_ite (both_pure rfl) (assignParams_both hrs _)
    · simp
    · simp

end Assign

/-! ### `ADTEqual` -/

variable (K) in
/-- What is known of a call of `ADTEqual`. -/
def EqualBoth (frozen : Prop) (n : ℕ) (equal equal' : Ptr → Ptr → Interp D Bool) : Prop :=
  ∀ p p' q q', K.PtrRel p p' → K.PtrRel q q' → K.Both frozen n (equal p q) (equal' p' q') Eq

section Equal

variable {equal equal' : Ptr → Ptr → Interp D Bool} (hequal : K.EqualBoth frozen n equal equal')

include hequal

/-- Element by element, up to the first difference. -/
theorem equalElems_both {as as' bs bs' : List Ptr} (has : List.Forall₂ K.PtrRel as as')
    (hbs : List.Forall₂ K.PtrRel bs bs') :
    K.Both frozen n (equalElems equal as bs) (equalElems equal' as' bs') Eq := by
  induction has generalizing bs bs' with
  | nil => cases hbs <;> exact both_pure rfl
  | cons ha _ ih =>
    cases hbs with
    | nil => exact both_pure rfl
    | cons hb hbs =>
      refine (hequal _ _ _ _ ha hb).bind ?_
      rintro r _ rfl
      exact both_ite (ih hbs) (both_pure rfl)

/-- The fields of one struct, looked up in the other one. -/
theorem equalFields_both {f f' : StrMap Ptr} {es es' : List (Str × Ptr)} (hf : MapRel K.PtrRel f f')
    (hes : List.Forall₂ (fun e e' ↦ e.1 = e'.1 ∧ K.PtrRel e.2 e'.2) es es') :
    K.Both frozen n (equalFields equal f es) (equalFields equal' f' es') Eq := by
  induction hes with
  | nil => exact both_pure rfl
  | @cons e e' _ _ he _ ih =>
    obtain ⟨x, p⟩ := e
    obtain ⟨x', p'⟩ := e'
    obtain ⟨rfl, hp⟩ : x = x' ∧ K.PtrRel p p' := he
    rw [equalFields, equalFields]
    have hx := hf x
    generalize f[x]? = o at hx ⊢
    generalize f'[x]? = o' at hx ⊢
    cases hx with
    | none => exact both_pure rfl
    | some hq =>
      refine (hequal _ _ _ _ hp hq).bind ?_
      rintro r _ rfl
      exact both_ite ih (both_pure rfl)

variable [CDouble D]

/-- Nodes that go together hold the same scalars, and vectors and maps of the same shape. -/
theorem equalNode_both {u u' : TableId} {x x' y y' : Node D} (hx : K.NodeRel t t' x x')
    (hy : K.NodeRel u u' y y') : K.Both frozen n (equalNode equal x y) (equalNode equal' x' y') Eq := by
  have hvector : ∀ {v v' : Addr}, K.AddrRel (.aux .vector) v v' →
      K.Both (D := D) frozen n (getVector v) (getVector v') (List.Forall₂ K.PtrRel) := fun hv ↦
    (getVector_both hv).mono fun _ _ h ↦ h.imp fun _ _ hp ↦ hp.1
  cases hx with
  | int i => cases hy <;> exact both_pure rfl
  | double d => cases hy <;> exact both_pure rfl
  | string hc _ =>
    cases hy with
    | string hd _ =>
      refine (getString_both hc).bind ?_
      rintro z _ rfl
      refine (getString_both hd).bind ?_
      rintro w _ rfl
      exact both_pure rfl
    | _ => exact both_pure rfl
  | array hv _ _ =>
    cases hy with
    | array hw _ _ =>
      refine both_ite (both_pure rfl) ((sameAdtName_both _ _ _).bind ?_)
      rintro b _ rfl
      refine both_ite ?_ (both_pure rfl)
      refine (hvector hv).bind fun as as' has ↦ (hvector hw).bind fun bs bs' hbs ↦ ?_
      rw [has.length_eq, hbs.length_eq]
      exact both_ite (both_pure rfl) (equalElems_both hequal has hbs)
    | _ => exact both_pure rfl
  | varAdt hm _ _ =>
    cases hy with
    | varAdt hm' _ _ =>
      refine both_ite (both_pure rfl) ?_
      refine (getMap_both hm).bind fun f f' hf ↦ (getMap_both hm').bind fun g g' hg ↦ ?_
      -- the fields are compared in the order of their names, which is the same on both sides
      have hf : MapRel K.PtrRel f f' := hf.imp fun _ _ hp ↦ hp.1
      have hg : MapRel K.PtrRel g g' := hg.imp fun _ _ hp ↦ hp.1
      rw [← Std.ExtTreeMap.length_toList, ← Std.ExtTreeMap.length_toList,
        ← Std.ExtTreeMap.length_toList, ← Std.ExtTreeMap.length_toList,
        (mapRel_iff.1 hf).length_eq, (mapRel_iff.1 hg).length_eq]
      exact both_ite (both_pure rfl) (equalFields_both hequal hg (mapRel_iff.1 hf))
    | _ => exact both_pure rfl
  | _ => exact both_pure rfl

end Equal

variable [CDouble D]

/-- Down to any depth. -/
theorem equalFuel_both (fuel : ℕ) : K.EqualBoth (D := D) frozen n (equalFuel fuel) (equalFuel fuel) := by
  induction fuel with
  | zero => exact fun _ _ _ _ _ _ ↦ both_throw
  | succ fuel ih =>
    intro p p' q q' hp hq
    refine (nodeAt_both hp).bind fun o o' ho ↦ (nodeAt_both hq).bind fun r r' hr ↦ ?_
    cases ho with
    | none => exact both_pure rfl
    | node _ hx =>
      cases hr with
      | none => exact both_pure rfl
      | node _ hy => exact equalNode_both ih hx hy

/-- `ADTEqual` has one result in both calls. -/
theorem adtEqual_both {q q' : Ptr} (hp : K.PtrRel p p') (hq : K.PtrRel q q') :
    K.Both (D := D) frozen n (adtEqual p q) (adtEqual p' q') Eq :=
  equalFuel_both _ _ _ _ _ hp hq

/-- A value is found in both lists or in neither. -/
theorem anyEqual_both {qs qs' : List Ptr} (hp : K.PtrRel p p')
    (hqs : List.Forall₂ K.PtrRel qs qs') :
    K.Both (D := D) frozen n (anyEqual p qs) (anyEqual p' qs') Eq := by
  induction hqs with
  | nil => exact both_pure rfl
  | cons hq _ ih =>
    refine (adtEqual_both hp hq).bind ?_
    rintro b _ rfl
    exact both_ite (both_pure rfl) ih

/-! ### Sets of values -/

/-- A new node is assigned to. -/
theorem copyInto_both {o o' : Option Addr} (hbody : ¬ frozen)
    (ho : K.Made t o o') (hp : K.PtrRel p p') :
    K.Both (D := D) frozen (n + 1) (copyInto o p) (copyInto o' p') K.PtrRel := by
  have hslot := Made.slotRel ho
  cases ho with
  | none => exact both_pure .empty
  | some ho =>
    refine getVarTable_both.bind fun u u' hu ↦ ?_
    refine (updateADT_body_both hbody hu hslot.1 hp).bind ?_
    rintro b _ rfl
    exact both_ite (both_pure hslot.1) (both_pure .empty)

/-- The copy of an element, in the table at the top. -/
theorem adtCreateAndCopy_both (hbody : ¬ frozen) (hp : K.PtrRel p p') :
    K.Both (D := D) frozen (n + 1) (adtCreateAndCopy p) (adtCreateAndCopy p') K.PtrRel := by
  refine getVarTable_both.bind fun t t' ht ↦ (nodeAt_both hp).bind fun o o' ho ↦ ?_
  have hbasic : ∀ b, K.Both (D := D) frozen (n + 1) (do copyInto (← createBasicType t b) p)
      (do copyInto (← createBasicType t' b) p') K.PtrRel := fun b ↦
    (createBasicType_both (.new ht) (fun _ ↦ ht.le) b).bind fun _ _ hr ↦ copyInto_both hbody hr hp
  cases ho with
  | none => exact both_pure .empty
  | node _ hx =>
    cases hx with
    | int i => exact hbasic .int
    | double d => exact hbasic .double
    | string _ _ => exact hbasic .string
    | varAdt _ _ _ =>
      refine (createAdt_both (.new ht) (fun _ ↦ ht.le) (.inl ht.scope)).bind fun r r' hr ↦ ?_
      exact copyInto_both hbody hr hp
    | _ => exact both_pure .empty

/-- An element is added to both sets or to neither. -/
theorem uniqueAdd_both {v v' : Addr} (hbody : ¬ frozen) (hv : K.AddrRel (.aux .vector) v v')
    (hnew : K.one.next ≤ v.table) (hp : K.PtrRel p p') :
    K.Both (D := D) frozen (n + 1) (uniqueAdd v p) (uniqueAdd v' p') Eq := by
  refine (getVector_both hv).bind fun qs qs' hqs ↦ ?_
  refine (anyEqual_both hp (hqs.imp fun _ _ hq ↦ hq.1)).bind ?_
  rintro b _ rfl
  refine both_ite (both_pure rfl) ((adtCreateAndCopy_both hbody hp).bind fun q q' hq ↦ ?_)
  refine (typeOf_both hq).bind ?_
  rintro ty _ rfl
  refine both_ite (both_pure rfl) ?_
  exact (pushBack_both hv (fun _ ↦ hnew) (hq.elemRel hnew)).bind fun _ _ _ ↦ both_pure rfl

/-- All elements of an array, in turn. -/
theorem uniqueAddAll_both {v v' : Addr} {ps ps' : List Ptr} (hbody : ¬ frozen)
    (hv : K.AddrRel (.aux .vector) v v') (hnew : K.one.next ≤ v.table)
    (hps : List.Forall₂ K.PtrRel ps ps') :
    K.Both (D := D) frozen (n + 1) (uniqueAddAll v ps) (uniqueAddAll v' ps') Eq := by
  induction hps with
  | nil => exact both_pure rfl
  | cons hp _ ih =>
    refine (uniqueAdd_both hbody hv hnew hp).bind ?_
    rintro b _ rfl
    exact both_ite ih (both_pure rfl)

end TwoCallers

end Meridian.MQL

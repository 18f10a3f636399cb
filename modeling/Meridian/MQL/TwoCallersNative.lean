import Meridian.MQL.TwoCallersUpdate

/-!
# Native functions, for two callers

`evalNativeFunctions` in both calls at once, while a body is evaluated. All but `rpc` and
`get_distance`, which depend on more than the state of the interpreter.
-/

namespace Meridian.MQL

open Interp

namespace TwoCallers

variable {D : Type} [CDouble D] {K : TwoCallers D} {frozen : Prop} {n : ℕ}
  {t t' : TableId} {p p' q q' : Ptr}

/-! ### New values -/

section

omit [CDouble D]

/-- A node in the table at the top. -/
theorem mkNode_both {init init' : TableId → Interp D (Node D)}
    (hinit : ∀ t t', K.New t t' → K.Both frozen (n + 1) (init t) (init' t') (K.NodeRel t t')) :
    K.Both frozen (n + 1) (do
        let t ← getVarTable
        return orEmpty (← newStackAst t (init t))) (do
        let t ← getVarTable
        return orEmpty (← newStackAst t (init' t))) K.PtrRel := by
  refine getVarTable_both.bind fun t t' ht ↦ ?_
  refine (newStackAst_both (.new ht) (fun _ ↦ ht.le) (hinit t t' ht)).bind fun o o' ho ↦ ?_
  exact both_pure (Made.slotRel ho).1

/-- An int that is computed. -/
theorem mkInt_both (i : Int32) : K.Both (D := D) frozen (n + 1) (mkInt i) (mkInt i) K.PtrRel :=
  mkNode_both fun _ _ _ ↦ both_pure (.int i)

/-- A double that is computed. -/
theorem mkDouble_both (d : D) : K.Both frozen (n + 1) (mkDouble d) (mkDouble d) K.PtrRel :=
  mkNode_both fun _ _ _ ↦ both_pure (.double d)

/-- A string that is computed. -/
theorem mkString_both (x : Str) : K.Both (D := D) frozen (n + 1) (mkString x) (mkString x) K.PtrRel :=
  mkNode_both fun _ _ ht ↦ (newStackString_both (.new ht) (fun _ ↦ ht.le) x).bind fun _ _ hc ↦
    both_pure (.string hc.1 hc.2)

/-- A list of values that go together. -/
theorem mkSepList_both {v v' : List Ptr} (hv : List.Forall₂ K.PtrRel v v') :
    K.Both (D := D) frozen (n + 1) (mkSepList v) (mkSepList v') K.PtrRel :=
  mkNode_both fun _ _ ht ↦
    (newStackVector_both (.new ht) (fun _ ↦ ht.le) (hv.imp fun _ _ hp ↦ hp.elemRel ht.le)).bind
      fun _ _ hc ↦ both_pure (.sep hc.1)

end

/-- The distances of a node, one new double each. -/
theorem pushDistances_both {v v' : Addr} (hv : K.AddrRel (.aux .vector) v v')
    (hnew : K.one.next ≤ v.table) (lat : List UInt32) :
    K.Both (D := D) frozen (n + 1) (pushDistances v lat) (pushDistances v' lat) Eq := by
  induction lat with
  | nil => exact both_pure rfl
  | cons us rest ih =>
    refine getVarTable_both.bind fun t t' ht ↦ ?_
    refine (newStackAst_both (.new ht) (fun _ ↦ ht.le) (both_pure (.double _))).bind fun o o' ho ↦ ?_
    have hslot := Made.slotRel ho
    cases ho with
    | none => exact both_pure rfl
    | some ho => exact (pushBack_both hv (fun _ ↦ hnew) (hslot.1.elemRel hnew)).bind fun _ _ _ ↦ ih

/-- The fields of a node value. The first one that cannot be filled ends it in both calls. -/
theorem fillFields_both {f f' : StrMap Ptr} (hbody : ¬ frozen) (hf : MapRel (K.SlotRel t) f f')
    (hnew : K.one.next ≤ t) (ident : NodeIdentRendv) (latUS : Option (List UInt32))
    (fs : List Field) :
    K.Both (D := D) frozen (n + 1) (fillFields ident latUS f fs) (fillFields ident latUS f' fs) Eq := by
  induction fs with
  | nil => exact both_pure rfl
  | cons fd fs ih =>
    rw [fillFields, fillFields]
    have hx := hf fd.vName
    generalize f[fd.vName]? = o at hx ⊢
    generalize f'[fd.vName]? = o' at hx ⊢
    cases hx with
    | none => exact both_pure rfl
    | some hslot =>
      refine (nodeAt_both hslot.1).bind fun r r' hr ↦ ?_
      cases hr with
      | none => cases latUS <;> exact both_pure rfl
      | node ha hx =>
        have htable := hslot.2 _ rfl
        cases hx with
        | int i =>
          cases identField ident fd.vName with
          | none => cases latUS <;> exact both_pure rfl
          | some w =>
            have hset := (setNode_both (n := n + 1) ha (fun h ↦ absurd h hbody)
              (.int w.toInt32)).bind fun _ _ _ ↦ ih
            cases latUS <;> exact hset
        | array hv ht _ =>
          cases latUS with
          | none => exact both_pure rfl
          | some lat =>
            refine both_ite (both_ite ?_ ih) (both_pure rfl)
            refine (pushDistances_both hv (by rw [ht, htable]; exact hnew) lat).bind ?_
            rintro b _ rfl
            exact both_ite ih (both_pure rfl)
        | _ => cases latUS <;> exact both_pure rfl

/-- The value for a node is a new struct with the same fields in both calls. -/
theorem createIdent_both (hbody : ¬ frozen) (name : Str) (ident : NodeIdentRendv)
    (latUS : Option (List UInt32)) :
    K.Both (D := D) frozen (n + 1) (createIdent name ident latUS) (createIdent name ident latUS)
      K.PtrRel := by
  refine getVarTable_both.bind fun t t' ht ↦ (lookup_scope_both ht.scope).bind fun o o' ho ↦ ?_
  cases ho with
  | none => exact both_pure .empty
  | some hp =>
    cases hp with
    | adt d =>
      refine (createAdt_both (.new ht) (fun _ ↦ ht.le) (.inl ht.scope)).bind fun r r' hr ↦ ?_
      have hslot := Made.slotRel hr
      cases hr with
      | none => exact both_pure .empty
      | some hr =>
        refine (getNode_both hr.1).bind fun x x' hx ↦ ?_
        cases hx with
        | varAdt hm htable _ =>
          refine (getMap_both hm).bind fun f f' hf ↦ ?_
          refine (fillFields_both hbody hf (by rw [htable, hr.2]; exact ht.le) ident latUS _).bind ?_
          rintro b _ rfl
          exact both_ite (both_pure hslot.1) (both_pure .empty)
        | _ => exact both_throw
    | _ => exact both_pure .empty

/-- One value for each node. -/
theorem pushIdents_both {v v' : Addr} (hbody : ¬ frozen) (hv : K.AddrRel (.aux .vector) v v')
    (hnew : K.one.next ≤ v.table) (name : Str)
    (idents : List (NodeIdentRendv × Option (List UInt32))) :
    K.Both (D := D) frozen (n + 1) (pushIdents name v idents) (pushIdents name v' idents) Eq := by
  induction idents with
  | nil => exact both_pure rfl
  | cons e idents ih =>
    obtain ⟨ident, latUS⟩ := e
    refine (createIdent_both hbody name ident latUS).bind fun p p' hp ↦ ?_
    have helem := hp.elemRel hnew
    cases hp with
    | node ha => exact (pushBack_both hv (fun _ ↦ hnew) helem).bind fun _ _ _ ↦ ih
    | _ => exact both_pure rfl

/-- The array for a list of nodes. -/
theorem createIdents_both (hbody : ¬ frozen) (name : Str)
    (idents : List (NodeIdentRendv × Option (List UInt32))) :
    K.Both (D := D) frozen (n + 1) (createIdents name idents) (createIdents name idents) K.PtrRel := by
  refine getVarTable_both.bind fun t t' ht ↦ ?_
  refine (createArray_both (.new ht) (fun _ ↦ ht.le) (fun _ _ ↦ .inl ht.scope)
    (both_pure .none)).bind fun o o' ho ↦ ?_
  have hslot := Made.slotRel ho
  cases ho with
  | none => exact both_pure .empty
  | some ho =>
    refine (getNode_both ho.1).bind fun x x' hx ↦ ?_
    cases hx with
    | array hv htable _ =>
      refine (pushIdents_both hbody hv (by rw [htable, ho.2]; exact ht.le) name idents).bind ?_
      rintro b _ rfl
      exact both_ite (both_pure hslot.1) (both_pure .empty)
    | _ => exact both_throw

/-! ### Arrays -/

omit [CDouble D] in
/-- The ints of an array are the same in both calls. -/
theorem getInts_both {ps ps' : List Ptr} (hps : List.Forall₂ K.PtrRel ps ps') :
    K.Both (D := D) frozen n (getInts ps) (getInts ps') Eq := by
  induction hps with
  | nil => exact both_pure rfl
  | cons hp _ ih =>
    refine (nodeAt_both hp).bind fun o o' ho ↦ ?_
    cases ho with
    | none => exact both_pure rfl
    | node _ hx =>
      cases hx with
      | int i =>
        refine ih.bind ?_
        rintro r _ rfl
        exact both_pure rfl
      | _ => exact both_pure rfl

omit [CDouble D] in
/-- The doubles of an array are the same in both calls. -/
theorem getDoubles_both {ps ps' : List Ptr} (hps : List.Forall₂ K.PtrRel ps ps') :
    K.Both (D := D) frozen n (getDoubles ps) (getDoubles ps') Eq := by
  induction hps with
  | nil => exact both_pure rfl
  | cons hp _ ih =>
    refine (nodeAt_both hp).bind fun o o' ho ↦ ?_
    cases ho with
    | none => exact both_pure rfl
    | node _ hx =>
      cases hx with
      | double d =>
        refine ih.bind ?_
        rintro r _ rfl
        exact both_pure rfl
      | _ => exact both_pure rfl

omit [CDouble D] in
/-- The numbers of an array, by its type. -/
theorem getNumbers_both {ps ps' : List Ptr} (aType : UInt32) (hps : List.Forall₂ K.PtrRel ps ps') :
    K.Both (D := D) frozen n (getNumbers aType ps) (getNumbers aType ps') Eq := by
  refine both_ite ((getInts_both hps).bind ?_) (both_ite ((getDoubles_both hps).bind ?_)
    (both_pure rfl))
  · rintro r _ rfl
    exact both_pure rfl
  · rintro r _ rfl
    exact both_pure rfl

/-- The offset depends on the numbers only. -/
theorem arrayOffset_both (largest : Bool) (hp : K.PtrRel p p') :
    K.Both (D := D) frozen (n + 1) (arrayOffset largest p) (arrayOffset largest p') K.PtrRel := by
  refine (nodeAt_both hp).bind fun o o' ho ↦ ?_
  cases ho with
  | none => exact both_pure .empty
  | node _ hx =>
    cases hx with
    | array hv _ _ =>
      refine (getVector_both hv).bind fun ps ps' hps ↦ ?_
      refine (getNumbers_both _ (hps.imp fun _ _ hp ↦ hp.1)).bind ?_
      rintro numbers _ rfl
      cases numbers with
      | none => exact both_pure .empty
      | some numbers =>
        simp only
        cases numbers.offset largest with
        | none => exact mkInt_both _
        | some i => exact mkInt_both _
    | _ => exact both_pure .empty

/-- The extreme element is at the same offset, and a copy of it is new in both calls. -/
theorem arrayExtreme_both (largest : Bool) (hp : K.PtrRel p p') :
    K.Both (D := D) frozen (n + 1) (arrayExtreme largest p) (arrayExtreme largest p') K.PtrRel := by
  refine (nodeAt_both hp).bind fun o o' ho ↦ ?_
  cases ho with
  | none => exact both_pure .empty
  | node _ hx =>
    cases hx with
    | array hv _ _ =>
      refine (getVector_both hv).bind fun ps ps' hps ↦ ?_
      refine (getNumbers_both _ (hps.imp fun _ _ hp ↦ hp.1)).bind ?_
      rintro numbers _ rfl
      cases numbers with
      | none => exact both_pure .empty
      | some numbers =>
        cases numbers with
        | ints xs =>
          simp only
          cases (Numbers.ints (D := D) xs).offset largest with
          | none => exact mkInt_both _
          | some i =>
            simp only
            cases xs[i]? with
            | none => exact both_pure .empty
            | some x => exact mkInt_both x
        | doubles xs =>
          simp only
          cases (Numbers.doubles xs).offset largest with
          | none => exact mkDouble_both _
          | some i =>
            simp only
            cases xs[i]? with
            | none => exact both_pure .empty
            | some x => exact mkDouble_both x
    | _ => exact both_pure .empty

/-- The average depends on the numbers only. -/
theorem arrayAvg_both (hp : K.PtrRel p p') :
    K.Both (D := D) frozen (n + 1) (arrayAvg p) (arrayAvg p') K.PtrRel := by
  refine (nodeAt_both hp).bind fun o o' ho ↦ ?_
  cases ho with
  | none => exact both_pure .empty
  | node _ hx =>
    cases hx with
    | array hv _ _ =>
      refine (getVector_both hv).bind fun ps ps' hps ↦ ?_
      have hempty : ps.isEmpty = ps'.isEmpty := by cases hps <;> rfl
      have hlen := hps.length_eq
      simp only [hempty, hlen]
      refine both_ite (mkDouble_both _) ?_
      refine (getNumbers_both _ (hps.imp fun _ _ hp ↦ hp.1)).bind ?_
      rintro numbers _ rfl
      cases numbers with
      | none => exact both_pure .empty
      | some numbers => cases numbers <;> exact mkDouble_both _
    | _ => exact both_pure .empty

omit [CDouble D] in
/-- Whether a value is of the type of the elements. -/
theorem isElem_both (aType : UInt32) (name : Option Str) (hp : K.PtrRel p p') :
    K.Both (D := D) frozen n (isElem aType name p) (isElem aType name p') Eq := by
  refine both_ite ((derefName_both name).bind ?_) ((typeOf_both hp).bind ?_)
  · rintro x _ rfl
    refine (adtTypeName_both hp).bind ?_
    rintro y _ rfl
    exact both_pure rfl
  · rintro ty _ rfl
    exact both_pure rfl

/-- The element is made in the table of the array, and assigned to there. -/
theorem nativePushBack_both (hbody : ¬ frozen) (hp : K.PtrRel p p') (hq : K.PtrRel q q') :
    K.Both (D := D) frozen (n + 1) (nativePushBack p q) (nativePushBack p' q') K.PtrRel := by
  refine (nodeAt_both hp).bind fun o o' ho ↦ ?_
  cases ho with
  | none => exact both_pure .empty
  | node ha hx =>
    cases hx with
    | array hv ht hname =>
      refine (isElem_both _ _ hq).bind ?_
      rintro b _ rfl
      refine both_ite ?_ (both_pure .empty)
      refine (createElem_both ha.link (fun h ↦ absurd h hbody) hname).bind fun r r' hr ↦ ?_
      have hslot := Made.slotRel hr
      cases hr with
      | none => exact both_pure .empty
      | some hr =>
        refine getVarTable_both.bind fun u u' hu ↦ ?_
        refine (updateADT_body_both hbody hu hslot.1 hq).bind ?_
        rintro b _ rfl
        refine both_ite ?_ (both_pure .empty)
        exact (pushBack_both hv (fun h ↦ absurd h hbody) (ht ▸ hslot.elemRel)).bind fun _ _ _ ↦
          both_pure .empty
    | _ => exact both_pure .empty

omit [CDouble D] in
/-- The last element is dropped in both calls, or there is none. -/
theorem nativePopBack_both (hbody : ¬ frozen) (hp : K.PtrRel p p') :
    K.Both (D := D) frozen n (nativePopBack p) (nativePopBack p') K.PtrRel := by
  refine (nodeAt_both hp).bind fun o o' ho ↦ ?_
  cases ho with
  | none => exact both_pure .empty
  | node _ hx =>
    cases hx with
    | @array _ _ v _ hv _ _ =>
      refine (getVector_both hv).bind fun ps ps' hps ↦ ?_
      have hlast : List.Forall₂ (K.ElemRel v.table) ps.dropLast ps'.dropLast := by
        rw [List.dropLast_eq_take, List.dropLast_eq_take, hps.length_eq]
        exact List.forall₂_take _ hps
      exact (setVector_both hv (fun h ↦ absurd h hbody) hlast).bind fun _ _ _ ↦ both_pure .empty
    | _ => exact both_pure .empty

variable (K) in
/-- A new array for a set, and the entries of two others. -/
def SetRel : Option (Addr × Addr × List Ptr × List Ptr) →
    Option (Addr × Addr × List Ptr × List Ptr) → Prop :=
  Option.Rel fun x x' ↦ K.AddrRel .node x.1 x'.1 ∧ K.AddrRel (.aux .vector) x.2.1 x'.2.1 ∧
    K.one.next ≤ x.2.1.table ∧ List.Forall₂ K.PtrRel x.2.2.1 x'.2.2.1 ∧
      List.Forall₂ K.PtrRel x.2.2.2 x'.2.2.2

omit [CDouble D] in
/-- What both array operations start with: two arrays of one type, and a new one for the result. -/
theorem combineArrays_both (hp : K.PtrRel p p') (hq : K.PtrRel q q') :
    K.Both (D := D) frozen (n + 1) (combineArrays p q) (combineArrays p' q') K.SetRel := by
  refine (nodeAt_both hp).bind fun o o' ho ↦ (nodeAt_both hq).bind fun r r' hr ↦ ?_
  cases ho with
  | none => exact both_pure .none
  | node _ hx =>
    cases hr with
    | none => cases hx <;> exact both_pure .none
    | node _ hy =>
      cases hx with
      | array hv _ _ =>
        cases hy with
        | array hw _ _ =>
          refine (sameAdtName_both _ _ _).bind ?_
          rintro b _ rfl
          refine both_ite (getVarTable_both.bind fun t t' ht ↦ ?_) (both_pure .none)
          refine (createArray_both (.new ht) (fun _ ↦ ht.le) (fun _ _ ↦ .inl ht.scope)
            (both_pure .none)).bind fun s s' hs ↦ ?_
          cases hs with
          | none => exact both_pure .none
          | some hs =>
            refine (getNode_both hs.1).bind fun z z' hz ↦ ?_
            cases hz with
            | array hc htable _ =>
              refine (getVector_both hv).bind fun ps ps' hps ↦ ?_
              refine (getVector_both hw).bind fun qs qs' hqs ↦ both_pure (.some ⟨hs.1, hc, ?_, ?_, ?_⟩)
              · rw [htable, hs.2]
                exact ht.le
              · exact hps.imp fun _ _ hp ↦ hp.1
              · exact hqs.imp fun _ _ hp ↦ hp.1
            | _ => exact both_throw
        | _ => exact both_pure .none
      | _ => exact both_pure .none

/-- An element is added if the other array has one that is equal. -/
theorem intersectAll_both {v v' : Addr} {ps ps' qs qs' : List Ptr} (hbody : ¬ frozen)
    (hv : K.AddrRel (.aux .vector) v v') (hnew : K.one.next ≤ v.table)
    (hqs : List.Forall₂ K.PtrRel qs qs') (hps : List.Forall₂ K.PtrRel ps ps') :
    K.Both (D := D) frozen (n + 1) (intersectAll v qs ps) (intersectAll v' qs' ps') Eq := by
  induction hps with
  | nil => exact both_pure rfl
  | cons hp _ ih =>
    refine (anyEqual_both hp hqs).bind ?_
    rintro b _ rfl
    refine both_ite ((uniqueAdd_both hbody hv hnew hp).bind ?_) ih
    rintro b' _ rfl
    exact both_ite ih (both_pure rfl)

/-- The intersection is a new array in both calls. -/
theorem arrayIntersect_both (hbody : ¬ frozen) (hp : K.PtrRel p p') (hq : K.PtrRel q q') :
    K.Both (D := D) frozen (n + 1) (arrayIntersect p q) (arrayIntersect p' q') K.PtrRel := by
  refine (combineArrays_both hp hq).bind fun o o' ho ↦ ?_
  cases ho with
  | none => exact both_pure .empty
  | some ho =>
    obtain ⟨ha, hv, hnew, hps, hqs⟩ := ho
    refine (intersectAll_both hbody hv hnew hqs hps).bind ?_
    rintro b _ rfl
    exact both_ite (both_pure (.node ha)) (both_pure .empty)

/-- The union is a new array in both calls. -/
theorem arrayUnion_both (hbody : ¬ frozen) (hp : K.PtrRel p p') (hq : K.PtrRel q q') :
    K.Both (D := D) frozen (n + 1) (arrayUnion p q) (arrayUnion p' q') K.PtrRel := by
  refine (combineArrays_both hp hq).bind fun o o' ho ↦ ?_
  cases ho with
  | none => exact both_pure .empty
  | some ho =>
    obtain ⟨ha, hv, hnew, hps, hqs⟩ := ho
    refine (uniqueAddAll_both hbody hv hnew hps).bind ?_
    rintro b _ rfl
    refine both_ite ((uniqueAddAll_both hbody hv hnew hqs).bind ?_) (both_pure .empty)
    rintro b' _ rfl
    exact both_ite (both_pure (.node ha)) (both_pure .empty)

/-! ### `evalNativeFunctions` -/

omit [CDouble D] in
/-- An operand that has to be a double. -/
theorem onDouble_both {f f' : D → Interp D Ptr} (hp : K.PtrRel p p')
    (hf : ∀ d, K.Both frozen n (f d) (f' d) K.PtrRel) :
    K.Both frozen n (onDouble p f) (onDouble p' f') K.PtrRel := by
  refine (nodeAt_both hp).bind fun o o' ho ↦ ?_
  cases ho with
  | none => exact both_pure .empty
  | node _ hx =>
    cases hx with
    | double d => exact hf d
    | _ => exact both_pure .empty

omit [CDouble D] in
/-- An operand that has to be an int. -/
theorem onInt_both {f f' : Int32 → Interp D Ptr} (hp : K.PtrRel p p')
    (hf : ∀ i, K.Both frozen n (f i) (f' i) K.PtrRel) :
    K.Both frozen n (onInt p f) (onInt p' f') K.PtrRel := by
  refine (nodeAt_both hp).bind fun o o' ho ↦ ?_
  cases ho with
  | none => exact both_pure .empty
  | node _ hx =>
    cases hx with
    | int i => exact hf i
    | _ => exact both_pure .empty

/-- Native functions of one operand. Only `pop_back` writes to what was there before. -/
theorem native1_both (hbody : ¬ frozen) (host : Host D) (f : NativeFunc1) (hp : K.PtrRel p p') :
    K.Both frozen (n + 1) (native1 host f p) (native1 host f p') K.PtrRel := by
  cases f with
  | round => exact onDouble_both hp fun _ ↦ mkInt_both _
  | ceil => exact onDouble_both hp fun _ ↦ mkInt_both _
  | floor => exact onDouble_both hp fun _ ↦ mkInt_both _
  | math f => exact onDouble_both hp fun _ ↦ mkDouble_both _
  | dbl => exact onInt_both hp fun _ ↦ mkDouble_both _
  | arraySize =>
    refine (nodeAt_both hp).bind fun o o' ho ↦ ?_
    cases ho with
    | none => exact both_pure .empty
    | node _ hx =>
      cases hx with
      | array hv _ _ =>
        refine (getVector_both hv).bind fun ps ps' hps ↦ ?_
        rw [hps.length_eq]
        exact mkInt_both _
      | _ => exact both_pure .empty
  | dnsLookup => exact both_pure .empty
  | dnsAddr => exact onInt_both hp fun _ ↦ mkString_both _
  | popBack => exact nativePopBack_both hbody hp
  | ring f => exact onDouble_both hp fun _ ↦ createIdents_both hbody _ _
  | arrayMaxOffset => exact arrayOffset_both true hp
  | arrayMinOffset => exact arrayOffset_both false hp
  | arrayAvg => exact arrayAvg_both hp
  | arrayMax => exact arrayExtreme_both true hp
  | arrayMin => exact arrayExtreme_both false hp

/-- Native functions of two operands. -/
theorem native2_both (hbody : ¬ frozen) (f : NativeFunc2) (hp : K.PtrRel p p')
    (hq : K.PtrRel q q') :
    K.Both (D := D) frozen (n + 1) (native2 f p q) (native2 f p' q') K.PtrRel := by
  cases f with
  | pow =>
    refine (nodeAt_both hp).bind fun o o' ho ↦ (nodeAt_both hq).bind fun r r' hr ↦ ?_
    cases ho with
    | none => exact both_pure .empty
    | node _ hx =>
      cases hr with
      | none => cases hx <;> exact both_pure .empty
      | node _ hy =>
        cases hx with
        | double x =>
          cases hy with
          | double y => exact mkDouble_both _
          | _ => exact both_pure .empty
        | _ => exact both_pure .empty
  | pushBack => exact nativePushBack_both hbody hp hq
  | arrayIntersect => exact arrayIntersect_both hbody hp hq
  | arrayUnion => exact arrayUnion_both hbody hp hq

end TwoCallers

end Meridian.MQL

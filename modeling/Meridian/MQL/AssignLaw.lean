import Meridian.MQL.AssignFrame
import Meridian.MQL.ArrayTypes

/-!
# The law of the assignment

If `l = r` succeeds, `l` is equal to what `r` was, and everything apart from `l` stays. That is so for
variables, fields and entries of arrays of one declared type, unless `l` and `r` are the same location
and its value contains an array with entries (`assignment_law_iff`): `updateADT` clears the vector of
the destination before it reads the one of the source, so `x = x` makes the arrays in `x` empty.

* `DeclaredAt` gives the declared type of a location. What is kept inside a location is of a smaller
  type (`Inside.declared`), so of two locations of one type neither is inside the other.
* `updateFuel_apart` is about two locations. The source is not read where the destination is written
  to, so the assignment copies the value.
* `updateADT_itself` is about one: what is left is `Value.emptied`, and that is equal to the old value
  only if that contained no array with entries.
-/

namespace Meridian.MQL

open ParserState VarTable Interp Relation
open Lib (Runs Meets)

variable {D : Type} {nlits : ℕ} {typed : Prop} {s s' : ParserState D} {a b l r : Addr}

/-! ### Declared types -/

/-- How deep the values of a type are nested. -/
def DeclType.depth : DeclType → ℕ
  | .elem (.basic _) => 0
  | .array (.basic _) => 1
  | .elem (.adt _) => 2
  | .array (.adt _) => 3

namespace Node

/-- The node is what `ASTCreate` makes for the type. -/
def Declared : DeclType → Node D → Prop
  | .elem (.basic b), n => n.HasBasic b
  | .elem (.adt name), varAdt name' _ _ => name' = name
  | .array e, array aType aAdtName _ _ => aType = e.astType.toWord ∧ aAdtName = e.adtName
  | _, _ => False

/-- How deep a value in the node is nested. -/
def depth : Node D → ℕ
  | array aType _ _ _ => if aType = ASTType.adtType.toWord then 3 else 1
  | varAdt _ _ _ => 2
  | _ => 0

/-- A node is as deep as what it has been declared as. -/
theorem Declared.depth_eq {n : Node D} {d : DeclType} (h : n.Declared d) : d.depth = n.depth := by
  cases d with
  | elem e =>
    cases e with
    | basic b => cases b <;> cases n <;> first | rfl | exact h.elim
    | adt name =>
      cases n with
      | varAdt => rfl
      | _ => exact h.elim
  | array e =>
    cases n with
    | array aType aAdtName v tb =>
      obtain ⟨rfl, -⟩ := h
      cases e with
      | basic b => cases b <;> rfl
      | adt name => rfl
    | _ => exact h.elim

section Declared

variable {n : Node D} {d : DeclType} {aType : UInt32} {name : Str} {aAdtName : Option Str}
  {v m : Addr} {tb : Option TableId} {u : Bool}

/-- What an array can have been declared as. -/
theorem Declared.of_array (h : (array aType aAdtName v tb : Node D).Declared d) :
    ∃ e : ElemType, d = .array e ∧ aType = e.astType.toWord ∧ aAdtName = e.adtName := by
  cases d with
  | elem e =>
    cases e with
    | basic b => exact absurd h (not_hasBasic_array b)
    | adt name => exact h.elim
  | array e => exact ⟨e, rfl, h⟩

/-- What has been declared as an array. -/
theorem Declared.eq_array {e : ElemType} (h : n.Declared (.array e)) :
    ∃ v tb, n = .array e.astType.toWord e.adtName v tb := by
  cases n with
  | array aType aAdtName v tb =>
    obtain ⟨rfl, rfl⟩ := h
    exact ⟨v, tb, rfl⟩
  | _ => exact h.elim

/-- What a struct can have been declared as. -/
theorem Declared.of_varAdt (h : (varAdt name m u : Node D).Declared d) : d = .elem (.adt name) := by
  cases d with
  | elem e =>
    cases e with
    | basic b => cases b <;> exact h.elim
    | adt name' =>
      obtain rfl : name = name' := h
      rfl
  | array e => exact h.elim

/-- What has been declared as a struct. -/
theorem Declared.eq_varAdt (h : n.Declared (.elem (.adt name))) : ∃ m u, n = .varAdt name m u := by
  cases n with
  | varAdt name' m u =>
    obtain rfl : name' = name := h
    exact ⟨m, u, rfl⟩
  | _ => exact h.elim

end Declared

/-- The declared type of a field. -/
theorem HasField.declared {n : Node D} {f : Field} (h : n.HasField f) :
    n.Declared (.elem (.basic f.vType)) ∨ n.Declared (.array (.basic f.vType)) := by
  cases n with
  | array aType aAdtName v tb => exact .inr ⟨h.2.1, h.2.2.1⟩
  | _ => exact .inl h.2

end Node

variable [CDouble D] in
/-- A new variable is of its declared type. -/
theorem Interp.astCreate_declared (t : TableId) (d : DeclType) (arraySize : Int32) :
    Creates nlits typed (astCreate (D := D) t d arraySize) t (Node.Declared d) := by
  cases d with
  | elem e =>
    cases e with
    | basic b => exact createBasicType_creates b
    | adt name =>
      refine (createAdt_creates name).imp ?_
      rintro n ⟨m, rfl⟩
      rfl
  | array e =>
    refine (createArray_creates ?_).imp ?_
    · rw [elemName_elemType]
      exact createType_creates e
    · rintro n ⟨v, rfl⟩
      exact ⟨rfl, elemName_elemType e⟩

namespace ParserState

/-- The declared type of a location. -/
def DeclaredAt (s : ParserState D) (d : DeclType) (a : Addr) : Prop :=
  ∃ n, s.content (.node a) = some (.node n) ∧ n.Declared d

/-- A variable, or a field or an entry of an array that is part of one. -/
def Reference (s : ParserState D) (a : Addr) : Prop :=
  ∃ t x b, s.At (.var t x) (.node b) ∧ s.Reaches b a

/-- Some slot holds it. -/
theorem Reference.at (h : s.Reference a) : ∃ P, s.At P (.node a) := by
  obtain ⟨t, x, b, hb, hba⟩ := h
  rcases hba.cases_tail with rfl | ⟨e, -, P, -, hP⟩
  · exact ⟨_, hb⟩
  · exact ⟨P, hP⟩

/-- It has not been received. -/
theorem Reference.ownAt (h : s.WF nlits typed) (ha : s.Reference a) : s.OwnAt a := by
  obtain ⟨t, x, b, hb, hba⟩ := ha
  exact Reaches.own h hba (hb.own h fun d hd ↦ by cases hd)

/-- What it holds can be referred to as well. -/
theorem Reference.reaches (h : s.Reference a) (hab : s.Reaches a b) : s.Reference b := by
  obtain ⟨t, x, c, hc, hca⟩ := h
  exact ⟨t, x, c, hc, hca.trans hab⟩

/-- A struct that is a reference has the fields of its definition. -/
theorem Reference.whole (h : s.WF nlits typed) (ha : s.Reference a) :
    ∃ tbl, s.tables a.table = some tbl ∧ tbl.Whole s.defs a.index := by
  obtain ⟨P, hP⟩ := ha.at
  obtain ⟨tbl, ht, hchild⟩ := hP.child h
  exact ⟨tbl, hchild.table ▸ ht, hchild.whole⟩

end ParserState

/-! ### What is inside a location -/

/-- No two types have the same word. -/
theorem ASTType.toWord_injective : Function.Injective ASTType.toWord := by
  intro t t' h
  have hsome : some t = some t' := by rw [← ASTType.ofWord_toWord t, h, ASTType.ofWord_toWord]
  exact Option.some.inj hsome

/-- The word of a basic type tells it. -/
theorem ElemType.eq_basic {e : ElemType} {t : BasicType} (h : t.astType.toWord = e.astType.toWord) :
    e = .basic t := by
  have h := ASTType.toWord_injective h
  cases e with
  | basic t' => cases t <;> cases t' <;> first | rfl | cases h
  | adt name => cases t <;> cases h

/-- Arrays are not nested. -/
theorem Value.HasElemType.type_ne {y : Value D} {e : ElemType}
    (h : y.HasElemType e.astType.toWord e.adtName) : y.type ≠ .arrayType := by
  cases y with
  | array aType name ys =>
    have htype : ASTType.arrayType = e.astType := ASTType.toWord_injective h
    cases e with
    | basic t => cases t <;> cases htype
    | adt name => cases htype
  | other ty => exact h.elim
  | _ => simp [type]

/-- An entry of an array is declared as the elements of the array. -/
theorem Denotes.declaredAt {U : Cell → Prop} {y : Value D} {e : ElemType}
    (h : Denotes U s y (.node a)) (hy : y.HasElemType e.astType.toWord e.adtName) :
    s.DeclaredAt (.elem e) a := by
  cases y with
  | int i =>
    obtain ⟨_, ⟨⟩, -, ha⟩ := h
    obtain rfl : e = .basic .int := ElemType.eq_basic hy
    exact ⟨_, ha, trivial⟩
  | double x =>
    obtain ⟨_, ⟨⟩, -, ha⟩ := h
    obtain rfl : e = .basic .double := ElemType.eq_basic hy
    exact ⟨_, ha, trivial⟩
  | string x =>
    obtain ⟨_, c, ⟨⟩, ⟨-, ha⟩, -⟩ := h
    obtain rfl : e = .basic .string := ElemType.eq_basic hy
    exact ⟨_, ha, trivial⟩
  | array aType name ys => exact absurd rfl hy.type_ne
  | adt name fs =>
    obtain ⟨_, m, u, adtMap, ⟨⟩, ⟨-, ha⟩, -⟩ := h
    have htype : e.astType = .adtType := ASTType.toWord_injective hy.1
    cases e with
    | basic t => cases t <;> cases htype
    | adt name' => exact ⟨_, ha, (Option.some.inj hy.2).symm⟩
  | empty => exact h.elim
  | sep xs => exact h.elim
  | other ty => exact h.elim

namespace ParserState

variable [CDouble D] {d : DeclType} {y : Value D}

/-- What is kept inside a location is of a smaller type. -/
theorem Inside.declared (h : s.WF nlits typed) (ha : s.Reference a) (hd : s.DeclaredAt d a)
    (hy : Denotes (fun _ ↦ True) s y (.node a)) (hcmp : y.Comparable) (hab : s.Inside a b) :
    ∃ d' z, s.DeclaredAt d' b ∧ d'.depth < d.depth ∧ Denotes (fun _ ↦ True) s z (.node b) ∧
      z.Comparable := by
  obtain ⟨n, hn, hdecl⟩ := hd
  obtain ⟨P, hnode, hP⟩ := hab
  cases P with
  | var t x => cases hnode
  -- elements of arrays are scalars and structs
  | elem c i =>
    obtain rfl := Option.some.inj hnode
    obtain ⟨aType, name, v, tb, ps, ha', hv, hp⟩ := hP
    cases hn.symm.trans ha'
    obtain ⟨ys, rfl, hys⟩ := hy.of_array hn hv
    obtain ⟨-, htypes, helems⟩ := Value.comparable_array.1 hcmp
    obtain ⟨z, hz, hzb⟩ := exists_left_of_forall₂ hys (List.mem_of_getElem? hp)
    obtain ⟨e, rfl, rfl, rfl⟩ := hdecl.of_array
    refine ⟨.elem e, z, hzb.declaredAt (htypes z hz), ?_, hzb, helems z hz⟩
    cases e <;> simp [DeclType.depth]
  | field c k =>
    obtain rfl := Option.some.inj hnode
    obtain ⟨name, m, u, adtMap, ha', hm, hp⟩ := hP
    cases hn.symm.trans ha'
    obtain ⟨fs, rfl, hfs⟩ := hy.of_varAdt hn hm
    obtain ⟨-, hall⟩ := Value.comparable_adt.1 hcmp
    obtain ⟨⟨k', z⟩, hz, hk, hzb⟩ := exists_left_of_forall₂ hfs
      (Std.ExtTreeMap.mem_toList_iff_getElem?_eq_some.2 hp)
    obtain ⟨tbl, ht, hwhole⟩ := ha.whole h
    obtain ⟨n', hn', hown⟩ := ha.ownAt h
    cases hn.symm.trans hn'
    obtain rfl : u = false := hown
    obtain ⟨-, -, -, hfields⟩ := ownStruct_fields h ht hn hm hwhole
    obtain ⟨_, n, f, ⟨⟩, -, hl, hfield, -⟩ := hfields k _ hp
    -- fields of structs are scalars and arrays of these
    have hdepth : d.depth = 2 := hdecl.depth_eq
    rcases hfield.declared with hdecl' | hdecl'
    · refine ⟨_, z, ⟨n, hl, hdecl'⟩, ?_, hzb, hall _ hz⟩
      show 0 < d.depth
      omega
    · refine ⟨_, z, ⟨n, hl, hdecl'⟩, ?_, hzb, hall _ hz⟩
      show 1 < d.depth
      omega

/-- What a location reaches is of a smaller type, except for itself. -/
theorem Reaches.declared (h : s.WF nlits typed) (ha : s.Reference a) (hd : s.DeclaredAt d a)
    (hy : Denotes (fun _ ↦ True) s y (.node a)) (hcmp : y.Comparable) (hab : s.Reaches a b) :
    ∃ d' z, s.DeclaredAt d' b ∧ (a = b ∧ d' = d ∨ d'.depth < d.depth) ∧
      Denotes (fun _ ↦ True) s z (.node b) ∧ z.Comparable := by
  induction hab with
  | refl => exact ⟨d, y, hd, .inl ⟨rfl, rfl⟩, hy, hcmp⟩
  | @tail b c hab hbc ih =>
    obtain ⟨d', z, hd', hdepth, hz, hz'⟩ := ih
    obtain ⟨d'', x, hd'', hlt, hx, hx'⟩ := hbc.declared h (ha.reaches hab) hd' hz hz'
    refine ⟨d'', x, hd'', .inr ?_, hx, hx'⟩
    rcases hdepth with ⟨-, rfl⟩ | hdepth
    · exact hlt
    · exact hlt.trans hdepth

/-- **Of two locations of one type, neither is inside the other.** -/
theorem Reference.not_reaches (h : s.WF nlits typed) (hr : s.Reference r) (hdr : s.DeclaredAt d r)
    (hy : Denotes (fun _ ↦ True) s y (.node r)) (hcmp : y.Comparable) (hdl : s.DeclaredAt d l)
    (hne : r ≠ l) : ¬ s.Reaches r l := by
  intro hrl
  obtain ⟨d', -, ⟨n, hn, hdecl⟩, ⟨heq, -⟩ | hlt, -, -⟩ := hrl.declared h hr hdr hy hcmp
  · exact hne heq
  · obtain ⟨n', hn', hdecl'⟩ := hdl
    cases hn.symm.trans hn'
    rw [hdecl.depth_eq, hdecl'.depth_eq] at hlt
    exact lt_irrefl _ hlt

omit [CDouble D] in
/-- The map of a struct is there. -/
theorem exists_adtMap {name : Str} {m : Addr} {u : Bool} (h : s.WF nlits typed)
    (ha : s.content (.node a) = some (.node (.varAdt name m u))) :
    ∃ adtMap, s.content (.aux .map m) = some (.map adtMap) := by
  have hlive : s.content (.aux .map m) ≠ none :=
    not_new_of_cells h ha (.inr ⟨.map, m, rfl, rfl⟩)
  obtain ⟨x, hx⟩ := Option.ne_none_iff_exists'.1 hlive
  obtain ⟨tbl, -, hm⟩ := content_eq_some hx
  obtain ⟨adtMap, -, rfl⟩ := Option.map_eq_some_iff.1 hm
  exact ⟨adtMap, hx⟩

/-- A location whose value is no array can be copied. -/
theorem Reference.copyable (h : s.WF nlits typed) (ha : s.Reference a)
    (hy : Denotes (fun _ ↦ True) s y (.node a)) (hcmp : y.Comparable) (hne : y.type ≠ .arrayType) :
    Copyable s.defs y := by
  obtain ⟨tbl, ht, hwhole⟩ := ha.whole h
  obtain ⟨n, hn, hown⟩ := ha.ownAt h
  exact copyable_of_own h ht hn hown hwhole hy hcmp hne

end ParserState

/-! ### Two locations -/

namespace Interp

variable [CDouble D] {d : DeclType} {y : Value D}

/-- A new element of an array gets a value. -/
theorem copiesTo_elem (fuel : ℕ) {t : TableId} {e : ElemType} (h : s.WF nlits typed)
    (hy : y.HasElemType e.astType.toWord e.adtName) (hx : Copyable s.defs y) :
    CopiesTo fuel (createElem t e.astType.toWord e.adtName) s y := by
  by_cases hbasic : y.Basic
  · exact copiesTo_basic (createElem_builds _ _) fuel hbasic s
  cases y with
  | adt name fs =>
    obtain ⟨htype, hname⟩ := hy
    rw [htype, hname]
    exact copiesTo_struct fuel h hx t name
  | _ => exact absurd hx hbasic

section Apart

variable (this : TableId) (fuel : ℕ) (h : s.WF nlits typed) (hl : s.Reference l)
  (hr : s.Reference r) (hapart : ¬ s.Reaches r l)

include h hr hapart

/-- The elements of another array are copied. -/
theorem updateFuel_apart_array {e : ElemType} {v : Addr} {tb : Option TableId} {ys : List (Value D)}
    (hln : s.content (.node l) = some (.node (.array e.astType.toWord e.adtName v tb)))
    (hy : Denotes (fun _ ↦ True) s (.array e.astType.toWord e.adtName ys) (.node r))
    (hcmp : (Value.array e.astType.toWord e.adtName ys).Comparable) :
    Ensures (updateFuel this (fuel + 1) (.node l) (.node r)) s fun b s' ↦
      b = true → Denotes (fun _ ↦ True) s' (.array e.astType.toWord e.adtName ys) (.node l) := by
  obtain ⟨_, v', tb', rs, ⟨⟩, ⟨-, hrn⟩, ⟨-, hv'⟩, hrs⟩ := id hy
  obtain ⟨-, htypes, helems⟩ := Value.comparable_array.1 hcmp
  -- the source is not read where the vector of the destination is
  have hU : ¬ s.Owns r (.aux .vector v) := by
    rintro ⟨b, n, hrb, hb, hcell⟩
    obtain rfl := cells_unique h hb hln hcell (.inr ⟨.vector, v, rfl, rfl⟩)
    exact hapart hrb
  refine (updateFuel_array this fuel h hln hy.owns hU fun s₁ hs₁ z hz ↦ ?_).mono ?_
  · refine copiesTo_elem fuel hs₁.wf (htypes z hz) ?_
    obtain ⟨q, hq, hzq⟩ := exists_right_of_forall₂ (denotesVector_iff.1 hrs) hz
    obtain ⟨b, n, rfl, -, -⟩ := hzq.node
    obtain ⟨i, hi⟩ := List.mem_iff_getElem?.1 hq
    have hat : s.At (.elem r i) (.node b) := ⟨_, _, v', tb', rs, hrn, hv', hi⟩
    have hb := hr.reaches (.single ⟨_, rfl, hat⟩)
    have hcopyable := hb.copyable h hzq (helems z hz) (htypes z hz).type_ne
    exact hcopyable.mono fun _ _ ↦ hs₁.evolves.defs
  · rintro b s' ⟨-, hb⟩ hb'
    exact (hb hb').2.2.mono fun _ _ ↦ trivial

include hl

/-- The fields of another struct are assigned. -/
theorem updateFuel_apart_struct {name : Str} {m : Addr} {u : Bool} {fs : List (Str × Value D)}
    (hln : s.content (.node l) = some (.node (.varAdt name m u)))
    (hy : Denotes (fun _ ↦ True) s (.adt name fs) (.node r))
    (hcmp : (Value.adt name fs).Comparable) :
    Ensures (updateFuel this (fuel + 1) (.node l) (.node r)) s fun b s' ↦
      b = true → Denotes (fun _ ↦ True) s' (.adt name fs) (.node l) := by
  obtain ⟨_, m', u', inMap, ⟨⟩, ⟨-, hrn⟩, -⟩ := id hy
  obtain ⟨tbl, ht, hwhole⟩ := hl.whole h
  obtain ⟨n, hn, hown⟩ := hl.ownAt h
  cases hln.symm.trans hn
  obtain rfl : u = false := hown
  obtain ⟨adtMap, hm⟩ := exists_adtMap h hln
  have hU : ∀ k c, fieldCells s adtMap k c → ¬ s.Owns r c := by
    rintro k c ⟨b, n, hk, hb, hcell⟩ ⟨b', n', hrb, hb', hcell'⟩
    obtain rfl := cells_unique h hb hb' hcell hcell'
    have hat : s.At (.field l k) (.node b) := ⟨name, m, false, adtMap, hln, hm, hk⟩
    have hne : r ≠ b := by
      -- a field is no struct
      rintro rfl
      obtain ⟨_, n'', f, ⟨⟩, hn'', hfield⟩ := (ownStruct_disjoint h ht hln hm hwhole).field k _ hk
      cases hrn.symm.trans hn''
      exact ne_map_of_hasField hfield rfl rfl
    obtain ⟨_, ⟨⟩, hrl⟩ := hrb.of_at h hat hne
    exact hapart hrl
  have hcopyable := hr.copyable h hy hcmp (by simp [Value.type])
  refine (updateFuel_struct this (fuel + 1) h ht hln hm hwhole hy.owns hcopyable hU).mono ?_
  rintro b s' ⟨-, hb⟩ hb'
  exact (hb hb').mono fun _ _ ↦ trivial

end Apart

/-- **The value of another location is assigned** to a location of the same type. -/
theorem updateFuel_apart (this : TableId) (fuel : ℕ) (h : s.WF nlits typed) (hl : s.Reference l)
    (hr : s.Reference r) (hdl : s.DeclaredAt d l) (hdr : s.DeclaredAt d r)
    (hy : Denotes (fun _ ↦ True) s y (.node r)) (hcmp : y.Comparable) (hne : l ≠ r) :
    Ensures (updateFuel this fuel (.node l) (.node r)) s fun b s' ↦
      b = true → Denotes (fun _ ↦ True) s' y (.node l) := by
  have hapart := hr.not_reaches h hdr hy hcmp hdl hne.symm
  obtain ⟨ln, hln, hld⟩ := hdl
  obtain ⟨rn, hrn, hrd⟩ := hdr
  by_cases hbasic : y.Basic
  · refine (updateFuel_basic this fuel hln hy hbasic).mono ?_
    rintro b s' ⟨-, hb⟩ hb'
    exact (hb hb').mono fun _ _ ↦ trivial
  cases fuel with
  | zero => exact trivial
  | succ fuel =>
    cases y with
    | array aType name ys =>
      obtain ⟨_, v', tb', rs, ⟨⟩, ⟨-, hr'⟩, -⟩ := id hy
      cases hrn.symm.trans hr'
      obtain ⟨e, rfl, rfl, rfl⟩ := hrd.of_array
      obtain ⟨v, tb, rfl⟩ := hld.eq_array
      exact updateFuel_apart_array this fuel h hr hapart hln hy hcmp
    | adt name fs =>
      obtain ⟨_, m', u', inMap, ⟨⟩, ⟨-, hr'⟩, -⟩ := id hy
      cases hrn.symm.trans hr'
      obtain rfl := hrd.of_varAdt
      obtain ⟨m, u, rfl⟩ := hld.eq_varAdt
      exact updateFuel_apart_struct this fuel h hl hr hapart hln hy hcmp
    | int i => exact absurd trivial hbasic
    | double x => exact absurd trivial hbasic
    | string x => exact absurd trivial hbasic
    | _ => exact hy.elim

end Interp

/-! ### One location -/

namespace Value

/-- An array without its entries. -/
def cleared : Value D → Value D
  | array aType aAdtName _ => array aType aAdtName []
  | x => x

/-- What an assignment of a value to itself leaves of it: no array in it has entries. -/
def emptied : Value D → Value D
  | adt name fs => adt name (fs.map fun f ↦ (f.1, f.2.cleared))
  | x => x.cleared

/-- The value is no array with entries. -/
def Bare : Value D → Prop
  | array _ _ xs => xs = []
  | _ => True

/-- The value contains no array with entries: neither itself nor a field of it is one. -/
def Hollow : Value D → Prop
  | adt _ fs => ∀ f ∈ fs, f.2.Bare
  | x => x.Bare

/-- There is nothing left to clear. -/
@[simp] theorem cleared_cleared (x : Value D) : x.cleared.cleared = x.cleared := by
  cases x <;> rfl

/-- A value that is cleared keeps its type. -/
@[simp] theorem type_cleared (x : Value D) : x.cleared.type = x.type := by
  cases x <;> rfl

/-- A flat value is no struct. -/
theorem Flat.type_ne {x : Value D} (h : x.Flat) : x.type ≠ .varAdtType := by
  cases x with
  | other ty => exact h.elim
  | adt name fs => exact h.elim
  | _ => simp [type]

variable [CDouble D]

/-- A value equals what is left of it when it is cleared if and only if it is bare. -/
theorem equal_cleared_iff {x : Value D} (hx : x.Comparable) : x.cleared.equal x = true ↔ x.Bare := by
  cases x with
  | array aType name xs =>
    refine equal_array.trans ⟨fun ⟨_, _, hxs⟩ ↦ ?_, fun hxs ↦ ⟨rfl, fun _ ↦ rfl, ?_⟩⟩
    · exact List.length_eq_zero_iff.1 hxs.length_eq.symm
    · obtain rfl : xs = [] := hxs
      exact .nil
  | _ => exact iff_of_true (equal_refl _ hx) trivial

/-- **What is left is equal to the value** only if there was nothing to lose. -/
theorem equal_emptied_iff {x : Value D} (hx : x.Comparable) :
    x.emptied.equal x = true ↔ x.Hollow := by
  cases x with
  | adt name fs =>
    obtain ⟨hnodup, hfs⟩ := comparable_adt.1 hx
    refine equal_adt.trans ⟨fun ⟨_, _, hall⟩ f hf ↦ ?_, fun hall ↦ ⟨rfl, List.length_map .., ?_⟩⟩
    · obtain ⟨f', hf', hkey, hequal⟩ := hall _ (List.mem_map_of_mem hf)
      obtain rfl := eq_of_key_eq hnodup hf' hf hkey
      exact (equal_cleared_iff (hfs _ hf)).1 hequal
    · intro e he
      obtain ⟨f, hf, rfl⟩ := List.mem_map.1 he
      exact ⟨f, hf, rfl, (equal_cleared_iff (hfs f hf)).2 (hall f hf)⟩
  | _ => exact equal_cleared_iff hx

end Value

namespace Interp

variable [CDouble D] {U : Cell → Prop} {y : Value D}

/-- A value other than a struct is assigned to itself. The vector of an array is cleared before it is
read. -/
theorem updateFuel_itself (this : TableId) (fuel : ℕ) {n : Node D}
    (hl : s.content (.node l) = some (.node n)) (hy : Denotes U s y (.node l))
    (hne : y.type ≠ .varAdtType) :
    Ensures (updateFuel this fuel (.node l) (.node l)) s fun b s' ↦
      WritesOnly (cells l n) s s' ∧ (b = true → Denotes (cells l n) s' y.cleared (.node l)) := by
  by_cases hbasic : y.Basic
  · have hcleared : y.cleared = y := by cases y <;> first | rfl | exact hbasic.elim
    rw [hcleared]
    exact updateFuel_basic this fuel hl hy hbasic
  cases fuel with
  | zero => exact trivial
  | succ fuel =>
    cases y with
    | array aType name ys =>
      have hfalse : Ensures (pure false) s fun b s' ↦ WritesOnly (cells l n) s s' ∧
          (b = true → Denotes (cells l n) s' (.array aType name []) (.node l)) :=
        ⟨.refl _ s, fun h ↦ absurd h Bool.false_ne_true⟩
      obtain ⟨_, v, tb, ps, ⟨⟩, ⟨-, ha⟩, -⟩ := hy
      cases hl.symm.trans ha
      have hcell : cells (D := D) l (.array aType name v tb) (.aux .vector v) :=
        .inr ⟨.vector, v, rfl, rfl⟩
      refine Lib.meets_bind.2 ((runs_nodeAt hl).meets (Lib.meets_bind.2 ((runs_nodeAt hl).meets ?_)))
      refine Lib.meets_ite.2 ⟨fun _ ↦ hfalse, fun _ ↦ (sameAdtName_readOnly _ _ _).then fun b ↦ ?_⟩
      refine Lib.meets_ite.2 ⟨fun _ ↦ Lib.meets_bind.2 ?_, fun _ ↦ hfalse⟩
      refine (setVector_writes v []).mono fun _ s₁ ⟨h₁, hv₁⟩ ↦ Lib.meets_bind.2 ?_
      refine (runs_getVector hv₁).meets ⟨h₁.mono fun c hc ↦ hc ▸ hcell, fun _ ↦ ?_⟩
      exact ⟨l, v, tb, [], rfl, ⟨.inl rfl, h₁.keep _ _ (by simp) hl⟩, ⟨hcell, hv₁⟩, trivial⟩
    | adt name fs => exact absurd rfl hne
    | int i => exact absurd trivial hbasic
    | double x => exact absurd trivial hbasic
    | string x => exact absurd trivial hbasic
    | _ => exact hy.elim

/-- A struct is assigned to itself, field by field. -/
theorem updateFuel_itself_struct (this : TableId) (fuel : ℕ) {name : Str}
    {fs : List (Str × Value D)} (h : s.WF nlits typed) (hl : s.Reference l)
    (hy : Denotes (fun _ ↦ True) s (.adt name fs) (.node l)) (hcmp : (Value.adt name fs).Comparable) :
    Ensures (updateFuel this (fuel + 1) (.node l) (.node l)) s fun b s' ↦
      b = true → Denotes (fun _ ↦ True) s' (Value.adt name fs).emptied (.node l) := by
  obtain ⟨tbl, ht, hwhole⟩ := hl.whole h
  obtain ⟨n, hn, hown⟩ := hl.ownAt h
  obtain ⟨_, m, u, adtMap, ⟨⟩, ⟨-, ha⟩, ⟨-, hm⟩, hfs⟩ := id hy
  cases hn.symm.trans ha
  obtain rfl : u = false := hown
  have hfs := denotesMap_iff.1 hfs
  obtain ⟨hnodup, hfields⟩ := Value.comparable_adt.1 hcmp
  have hown := ownStruct_disjoint h ht hn hm hwhole
  have hat : ∀ {k : Str} {b : Addr}, adtMap[k]? = some (.node b) → s.At (.field l k) (.node b) :=
    fun hk ↦ ⟨name, m, false, adtMap, hn, hm, hk⟩
  -- before and after its turn, a field is the old value with or without its entries
  refine (updateFuel_fields this fuel (fs.map fun f ↦ (f.1, f.2.cleared))
    (P := fun k s₁ ↦ ∀ b y, adtMap[k]? = some (.node b) → (k, y) ∈ fs →
      ∃ x, x.cleared = y.cleared ∧ x.type ≠ .varAdtType ∧ Denotes (s.Owns b) s₁ x (.node b))
    h ht hn hm hwhole hn hm ?_ ?_ ?_ ?_).mono fun b s' ⟨_, hb⟩ hb' ↦ ?_
  · rw [List.map_map]
    exact map_fst_eq_keys hfs
  · intro k p q s₁ z hp hq hz hleads hlive hP
    obtain rfl := Option.some.inj (hp.symm.trans hq)
    obtain ⟨⟨k', y⟩, hky, heq⟩ := List.mem_map.1 hz
    cases heq
    obtain ⟨b, n, f, rfl, hb, -⟩ := hown.field _ p hp
    obtain ⟨x, hx, htype, hxb⟩ := hP b y hp hky
    obtain ⟨n', hn', hkind⟩ := (nodeAt_iff.2 hb).evolves hleads.evolves
    have hcells : ∀ c, cells b n' c → cells b n c := by
      intro c hc
      rwa [cells_congr hkind] at hc
    refine (updateFuel_itself this fuel (nodeAt_iff.1 hn') hxb htype).mono fun b₁ s₂ ⟨hw, hb₁⟩ ↦
      ⟨hw.mono fun c hc ↦ ⟨b, n, hp, hb, hcells c hc⟩, fun hb₁' ↦ ⟨fun b' y' hk hy' ↦ ?_, ?_⟩⟩
    · cases hp.symm.trans hk
      obtain rfl : y' = y := congrArg Prod.snd (Value.eq_of_key_eq hnodup hy' hky rfl)
      refine ⟨x.cleared, by rw [Value.cleared_cleared, hx], by rwa [Value.type_cleared], ?_⟩
      exact (hb₁ hb₁').mono fun c hc ↦ ⟨b, n, .refl, hb, hcells c hc⟩
    · show Denotes _ s₂ y.cleared (.node b)
      rw [← hx]
      exact (hb₁ hb₁').mono fun c hc ↦ .inl ⟨b, n, hp, hb, hcells c hc⟩
  · intro k k' s₁ s₂ hne hw hP b y hk hky
    obtain ⟨x, hx, htype, hxb⟩ := hP b y hk hky
    refine ⟨x, hx, htype, hxb.of_writesOnly hw fun c hc ⟨b', n, hk', hb', hcell⟩ ↦ ?_⟩
    have hplaces : Place.field l k ≠ .field l k' := fun heq ↦ hne (Place.field.inj heq).2
    rcases places_nested h (hat hk) (hat hk') hplaces hc ⟨b', n, .refl, hb', hcell⟩ with
      ⟨d, hd, hbd⟩ | ⟨d, hd, hbd⟩
    · exact (hat hk).acyclic h hd hbd
    · exact (hat hk').acyclic h hd hbd
  · intro k b y hk hky
    obtain ⟨⟨k', p⟩, hp, heq, hyp⟩ := exists_right_of_forall₂ hfs hky
    obtain rfl : k = k' := heq
    cases hk.symm.trans (Std.ExtTreeMap.mem_toList_iff_getElem?_eq_some.1 hp)
    obtain ⟨_, n, f, ⟨⟩, hb, hfield⟩ := hown.field _ _ hk
    exact ⟨y, rfl, (flat_of_hasField hb hfield hyp (hfields _ hky)).type_ne, hyp.owns⟩
  · exact (hb hb').2.mono fun _ _ ↦ trivial

/-- **What an assignment of a location to itself leaves.** -/
theorem updateADT_itself (this : TableId) (h : s.WF nlits typed) (hl : s.Reference l)
    (hy : Denotes (fun _ ↦ True) s y (.node l)) (hcmp : y.Comparable) :
    Ensures (updateADT this (.node l) (.node l)) s fun b s' ↦
      b = true → Denotes (fun _ ↦ True) s' y.emptied (.node l) := by
  cases y with
  | adt name fs => exact updateFuel_itself_struct this _ h hl hy hcmp
  | other ty => exact hy.elim
  | _ =>
    obtain ⟨n, hn, -⟩ := hl.ownAt h
    refine (updateFuel_itself this _ hn hy (by simp [Value.type])).mono ?_
    rintro b s' ⟨-, hb⟩ hb'
    exact (hb hb').mono fun _ _ ↦ trivial

/-- **The law of the assignment**: after `l = r` the value of `l` is equal to the one that `r` had, and
all that is apart from `l` has the value that it had. It holds exactly if `l` and `r` are not the same
location, or the value contains no array with entries. -/
theorem assignment_law_iff {this : TableId} {d : DeclType} (h : s.WF nlits typed)
    (hl : s.Reference l) (hr : s.Reference r) (hdl : s.DeclaredAt d l) (hdr : s.DeclaredAt d r)
    (hy : Denotes (fun _ ↦ True) s y (.node r)) (hcmp : y.Comparable)
    (hrun : Runs (updateADT this (.node l) (.node r)) s true s') :
    ((∃ x, Denotes (fun _ ↦ True) s' x (.node l) ∧ x.equal y = true) ∧
      ∀ b z, ¬ s.Overlap (.node l) b → Denotes (fun _ ↦ True) s z (.node b) →
        Denotes (fun _ ↦ True) s' z (.node b)) ↔ (l = r → y.Hollow) := by
  have hframe : ∀ b z, ¬ s.Overlap (.node l) b → Denotes (fun _ ↦ True) s z (.node b) →
      Denotes (fun _ ↦ True) s' z (.node b) := fun b z ↦ updateADT_keeps h hrun
  rw [and_iff_left hframe]
  by_cases heq : l = r
  · subst heq
    have hafter := (updateADT_itself this h hl hy hcmp).run hrun rfl
    have himp : (l = l → y.Hollow) ↔ y.Hollow := ⟨fun h ↦ h rfl, fun h _ ↦ h⟩
    rw [himp, ← Value.equal_emptied_iff hcmp]
    constructor
    · rintro ⟨x, hx, hequal⟩
      rwa [hx.unique hafter] at hequal
    · exact fun hequal ↦ ⟨_, hafter, hequal⟩
  · refine iff_of_true ⟨y, ?_, Value.equal_refl y hcmp⟩ fun h ↦ absurd h heq
    exact (updateFuel_apart this _ h hl hr hdl hdr hy hcmp heq).run hrun rfl

/-! ### Two programs -/

/-- `void main() { int x[2]; int y[2]; x = y; x = x; }` -/
def selfAssignProgram : Program Lib.Binary64 where
  literals := [.int 2]
  textNodes := 16
  decls := [.func ⟨.elem (.basic .void), mainName, [],
    .ast (.assignAdt (.refVar xName) (.refVar xName))
      (.ast (.assignAdt (.refVar xName) (.refVar yName))
        (.ast (.newVarArray (.basic .int) yName (.literal ⟨0, 0⟩))
          (.newVarArray (.basic .int) xName (.literal ⟨0, 0⟩))))⟩]

/-- `struct P { int x; string y; }; void main() { P x = {1, "n"}; P y = {2, "f"}; x = y; }` -/
def structAssignProgram : Program Lib.Binary64 where
  literals := [.int 1, .string [110], .int 2, .string [102]]
  textNodes := 34
  decls := [.struct ⟨pName, [⟨.int, none, xName⟩, ⟨.string, none, yName⟩]⟩,
    .func ⟨.elem (.basic .void), mainName, [],
      .ast (.assignAdt (.refVar xName) (.refVar yName))
        (.ast (.newVarAssignSep (.elem (.adt pName)) yName [.literal ⟨0, 2⟩, .literal ⟨0, 3⟩])
          (.ast (.newVarAssignSep (.elem (.adt pName)) xName [.literal ⟨0, 0⟩, .literal ⟨0, 1⟩])
            .empty))⟩]

/-- A struct of the second program. -/
def pair (i : Int32) (x : Str) : Value D := .adt pName [(xName, .int i), (yName, .string x)]

/-- An array of ints. -/
theorem comparable_ints (is : List Int32) : (ints (D := D) is).Comparable := by
  refine Value.comparable_array.2 ⟨fun h ↦ absurd h (by decide), fun z hz ↦ ?_, fun z hz ↦ ?_⟩
  · obtain ⟨i, -, rfl⟩ := List.mem_map.1 hz
    rfl
  · obtain ⟨i, -, rfl⟩ := List.mem_map.1 hz
    trivial

/-- The struct of an int and a string. -/
theorem comparable_pair (i : Int32) (x : Str) : (pair (D := D) i x).Comparable := by
  refine Value.comparable_adt.2 ⟨?_, List.forall_mem_cons.2 ⟨trivial, ?_⟩⟩
  · show [xName, yName].Nodup
    decide
  · exact List.forall_mem_singleton.2 trivial

/-- The variable of the table keeps the node. -/
def isVar (s : ParserState D) (t : TableId) (x : Str) (a : Addr) : Bool :=
  match (s.tables t).bind (·.vMap[x]?) with
  | some (.node b) => b == a
  | _ => false

omit [CDouble D] in
/-- The name of a variable refers to its node. -/
theorem reference_of_isVar {t : TableId} {x : Str} (h : isVar s t x a = true) : s.Reference a := by
  unfold isVar at h
  split at h
  · next b hb =>
    obtain ⟨tbl, ht, hx⟩ := Option.bind_eq_some_iff.1 hb
    obtain rfl := beq_iff_eq.1 h
    exact ⟨t, x, b, ⟨tbl, ht, hx⟩, .refl⟩
  · cases h

/-- The variable `x` of the value `v` is assigned the variable `y` of the value `w`, and is `u` then. -/
def assigns [CLibrary] (l r : Addr) (y : Str) (v w u : Value Lib.Binary64)
    (m : Machine Lib.Binary64) : Bool :=
  match updateADT 1 (.node l) (.node r) m.ps with
  | .ok (true, s') => (isVar m.ps 1 xName l && isVar m.ps 1 y r) &&
    (leadsTo m.ps v (.node l) && (leadsTo m.ps w (.node r) && leadsTo s' u (.node l)))
  | _ => false

/-- What the test accepts is a run of `updateADT` between two references. -/
theorem runs_of_assigns [CLibrary] {m : Machine Lib.Binary64} {y : Str} {v w u : Value Lib.Binary64}
    (h : assigns l r y v w u m = true) : m.ps.Reference l ∧ m.ps.Reference r ∧
      Denotes (fun _ ↦ True) m.ps v (.node l) ∧ Denotes (fun _ ↦ True) m.ps w (.node r) ∧
        ∃ s', Runs (updateADT 1 (.node l) (.node r)) m.ps true s' ∧
          Denotes (fun _ ↦ True) s' u (.node l) := by
  unfold assigns at h
  split at h
  · next s' hs' =>
    simp only [Bool.and_eq_true] at h
    obtain ⟨⟨hl, hr⟩, hv, hw, hu⟩ := h
    exact ⟨reference_of_isVar hl, reference_of_isVar hr, denotes_of_leadsTo hv,
      denotes_of_leadsTo hw, s', hs', denotes_of_leadsTo hu⟩
  · cases h

/-- After 23 steps the operands of `x = x` have been evaluated. -/
theorem exists_assigns_x : ∃ (_ : CLibrary) (m : Machine Lib.Binary64),
    Machine.Reachable selfAssignProgram mainName .empty m ∧
      assigns ⟨1, 0⟩ ⟨1, 0⟩ xName (ints [0, 0]) (ints [0, 0]) (ints []) m = true := by
  let _ := reducing
  have hruns : ((Machine.start selfAssignProgram mainName .empty).toOption.bind fun m₀ ↦
      Lib.run Machine.step? m₀ (List.replicate 23 plainHost)).any
        (assigns ⟨1, 0⟩ ⟨1, 0⟩ xName (ints [0, 0]) (ints [0, 0]) (ints [])) = true := by
    decide +kernel
  obtain ⟨m, hreach, htest⟩ := Machine.exists_reachable hruns
  exact ⟨_, m, hreach, htest⟩

/-- After 23 steps those of the assignment of a struct. -/
theorem exists_assigns_y : ∃ (_ : CLibrary) (m : Machine Lib.Binary64),
    Machine.Reachable structAssignProgram mainName .empty m ∧
      assigns ⟨1, 1⟩ ⟨1, 5⟩ yName (pair 1 [110]) (pair 2 [102]) (pair 2 [102]) m = true := by
  let _ := reducing
  have hruns : ((Machine.start structAssignProgram mainName .empty).toOption.bind fun m₀ ↦
      Lib.run Machine.step? m₀ (List.replicate 23 plainHost)).any
        (assigns ⟨1, 1⟩ ⟨1, 5⟩ yName (pair 1 [110]) (pair 2 [102]) (pair 2 [102])) = true := by
    decide +kernel
  obtain ⟨m, hreach, htest⟩ := Machine.exists_reachable hruns
  exact ⟨_, m, hreach, htest⟩

/-- `x = x` empties `x`. -/
theorem assignment_to_itself_empties_x : ¬ ∀ (_ : CLibrary) (nlits : ℕ) (this : TableId)
    (s s' : ParserState Lib.Binary64) (l r : Addr) (d : DeclType) (y : Value Lib.Binary64),
    s.WF nlits False → s.Reference l → s.Reference r → s.DeclaredAt d l → s.DeclaredAt d r →
      Denotes (fun _ ↦ True) s y (.node r) → y.Comparable →
        Runs (updateADT this (.node l) (.node r)) s true s' →
          (∃ x, Denotes (fun _ ↦ True) s' x (.node l) ∧ x.equal y = true) ∧
            ∀ b z, ¬ s.Overlap (.node l) b → Denotes (fun _ ↦ True) s z (.node b) →
              Denotes (fun _ ↦ True) s' z (.node b) := by
  intro h
  obtain ⟨_, m, hreach, hm⟩ := exists_assigns_x
  obtain ⟨href, -, hdenotes, -, s', hrun, hempty⟩ := runs_of_assigns hm
  have hdecl : m.ps.DeclaredAt (.array (.basic .int)) ⟨1, 0⟩ := by
    obtain ⟨_, v, tb, ps, ⟨⟩, ⟨-, ha⟩, -⟩ := id hdenotes
    exact ⟨_, ha, rfl, rfl⟩
  obtain ⟨⟨x, hx, hequal⟩, -⟩ := h _ _ 1 m.ps s' _ _ _ _ hreach.heap.wf href href hdecl hdecl
    hdenotes (comparable_ints _) hrun
  obtain rfl := hx.unique hempty
  obtain ⟨-, -, hlen⟩ := Value.equal_array.1 hequal
  exact absurd hlen.length_eq (by simp)

/-- `x = y` copies both fields of `y`. -/
theorem assignment_law_x_y : ∃ (_ : CLibrary) (m : Machine Lib.Binary64)
    (s' : ParserState Lib.Binary64), Machine.Reachable structAssignProgram mainName .empty m ∧
      Denotes (fun _ ↦ True) m.ps (pair 1 [110]) (.node ⟨1, 1⟩) ∧
      Denotes (fun _ ↦ True) m.ps (pair 2 [102]) (.node ⟨1, 5⟩) ∧
      Runs (updateADT 1 (.node ⟨1, 1⟩) (.node ⟨1, 5⟩)) m.ps true s' ∧
      (∃ x, Denotes (fun _ ↦ True) s' x (.node ⟨1, 1⟩) ∧ x.equal (pair 2 [102]) = true) ∧
        ∀ b z, ¬ m.ps.Overlap (.node ⟨1, 1⟩) b → Denotes (fun _ ↦ True) m.ps z (.node b) →
          Denotes (fun _ ↦ True) s' z (.node b) := by
  obtain ⟨_, m, hreach, hm⟩ := exists_assigns_y
  obtain ⟨hl, hr, hx, hy, s', hrun, -⟩ := runs_of_assigns hm
  have hdl := hx.declaredAt (e := .adt pName) ⟨rfl, rfl⟩
  have hdr := hy.declaredAt (e := .adt pName) ⟨rfl, rfl⟩
  refine ⟨_, m, s', hreach, hx, hy, hrun, ?_⟩
  exact (assignment_law_iff hreach.heap.wf hl hr hdl hdr hy (comparable_pair _ _) hrun).2
    fun heq ↦ absurd heq (by decide)

end Interp

end Meridian.MQL

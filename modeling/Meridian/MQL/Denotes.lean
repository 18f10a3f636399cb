import Meridian.MQL.Invariant
import Meridian.MQL.ValueCodec
import Meridian.Lib.Occurrences

/-!
# The values on the heap

`Denotes U s x p`: in the state `s` the pointer `p` leads to the value `x`, through cells that
satisfy `U`; `leadsTo` is the test for it. `WritesOnly A s s'`: a step from `s` to `s'` writes to no
cell that was there, except to those of `A`. So a value stays where none of its cells is written to
(`Denotes.of_writesOnly`).

`Value.equal` is `ADTEqual` on values, and an equivalence on those that are `Comparable`: no NaN, and
arrays hold what they declare. `equalFuel_meets` says that `ADTEqual` computes it, unless the bound
on the depth is too small.
-/

namespace Meridian.MQL

open Lib (Runs Meets)

variable {D : Type}

/-! ### Entries side by side -/

section Forall₂

variable {α β : Type} {R : α → β → Prop} {as : List α} {bs : List β}

/-- An entry on the left has one beside it. -/
theorem exists_right_of_forall₂ (h : List.Forall₂ R as bs) {a : α} (ha : a ∈ as) :
    ∃ b ∈ bs, R a b := by
  induction h with
  | nil => cases ha
  | cons hab _ ih =>
    rcases List.mem_cons.1 ha with rfl | ha
    · exact ⟨_, List.mem_cons_self, hab⟩
    · obtain ⟨b, hb, hr⟩ := ih ha
      exact ⟨b, List.mem_cons_of_mem _ hb, hr⟩

/-- An entry on the right has one beside it. -/
theorem exists_left_of_forall₂ (h : List.Forall₂ R as bs) {b : β} (hb : b ∈ bs) :
    ∃ a ∈ as, R a b := by
  have hflip : List.Forall₂ (fun b a ↦ R a b) bs as := h.flip
  exact exists_right_of_forall₂ hflip hb

end Forall₂

/-! ### Values -/

namespace Value

/-- Induction over the nodes of a value. -/
theorem ind {P : Value D → Prop} (empty : P empty) (int : ∀ i, P (int i))
    (double : ∀ d, P (double d)) (string : ∀ x, P (string x))
    (array : ∀ aType aAdtName xs, (∀ x ∈ xs, P x) → P (array aType aAdtName xs))
    (adt : ∀ name fs, (∀ e ∈ fs, P e.2) → P (adt name fs))
    (sep : ∀ xs, (∀ x ∈ xs, P x) → P (sep xs)) (other : ∀ ty, P (other ty)) (x : Value D) : P x := by
  refine @Value.rec D P (fun xs ↦ ∀ x ∈ xs, P x) (fun fs ↦ ∀ e ∈ fs, P e.2) (fun e ↦ P e.2) empty int
    double string array adt sep other ?_ ?_ ?_ ?_ ?_ x
  · exact fun _ hx ↦ absurd hx List.not_mem_nil
  · exact fun x xs hx hxs ↦ List.forall_mem_cons.2 ⟨hx, hxs⟩
  · exact fun _ he ↦ absurd he List.not_mem_nil
  · exact fun e fs he hfs ↦ List.forall_mem_cons.2 ⟨he, hfs⟩
  · exact fun _ _ hx ↦ hx

/-- The type tag. -/
def type : Value D → ASTType
  | empty => .emptyType
  | int _ => .intType
  | double _ => .doubleType
  | string _ => .stringType
  | array .. => .arrayType
  | adt .. => .varAdtType
  | sep _ => .sepType
  | other ty => ty

/-- A number or a string. -/
def Basic : Value D → Prop
  | int _ => True
  | double _ => True
  | string _ => True
  | _ => False

/-- What a field can hold: a basic value or an array of them. -/
def Flat : Value D → Prop
  | array _ aAdtName xs => aAdtName = none ∧ ∀ x ∈ xs, x.Basic
  | x => x.Basic

/-- The value can be an element of an array with these members. -/
def HasElemType (aType : UInt32) (aAdtName : Option Str) : Value D → Prop
  | int _ => ASTType.intType.toWord = aType
  | double _ => ASTType.doubleType.toWord = aType
  | string _ => ASTType.stringType.toWord = aType
  | array .. => ASTType.arrayType.toWord = aType
  | adt name _ => aType = ASTType.adtType.toWord ∧ aAdtName = some name
  | _ => False

/-- As many keys, and all of them there: then there are no others. -/
theorem exists_key {fs gs : List (Str × Value D)} (hfs : (fs.map Prod.fst).Nodup)
    (hlen : fs.length = gs.length) (hkeys : ∀ e ∈ fs, ∃ e' ∈ gs, e'.1 = e.1)
    {e : Str × Value D} (he : e ∈ gs) : ∃ e' ∈ fs, e'.1 = e.1 := by
  have hsub : fs.map Prod.fst ⊆ gs.map Prod.fst := by
    intro k hk
    obtain ⟨e, he, rfl⟩ := List.mem_map.1 hk
    obtain ⟨e', he', heq⟩ := hkeys e he
    exact heq ▸ List.mem_map_of_mem he'
  have hperm := (List.subperm_of_subset hfs hsub).perm_of_length_le (by simp [hlen])
  exact List.mem_map.1 (hperm.mem_iff.2 (List.mem_map_of_mem he))

/-- A field is told by its name. -/
theorem eq_of_key_eq {fs : List (Str × Value D)} (h : (fs.map Prod.fst).Nodup)
    {e e' : Str × Value D} (he : e ∈ fs) (he' : e' ∈ fs) (heq : e.1 = e'.1) : e = e' :=
  List.inj_on_of_nodup_map h he he' heq

/-- Every value takes a node. -/
theorem nodes_pos (x : Value D) : 0 < x.nodes := by
  cases x <;> simp [nodes]

/-- An element takes no more nodes than its array. -/
theorem nodes_le_nodesVector {xs : List (Value D)} {x : Value D} (h : x ∈ xs) :
    x.nodes ≤ nodesVector xs := by
  induction xs with
  | nil => cases h
  | cons y xs ih =>
    rw [nodesVector]
    rcases List.mem_cons.1 h with rfl | h
    · exact Nat.le_add_right _ _
    · exact (ih h).trans (Nat.le_add_left _ _)

/-- A field takes no more nodes than its struct. -/
theorem nodes_le_nodesMap {fs : List (Str × Value D)} {f : Str × Value D} (h : f ∈ fs) :
    f.2.nodes ≤ nodesMap fs := by
  induction fs with
  | nil => cases h
  | cons g fs ih =>
    rw [nodesMap]
    rcases List.mem_cons.1 h with rfl | h
    · exact Nat.le_add_right _ _
    · exact (ih h).trans (Nat.le_add_left _ _)

variable [CDouble D]

mutual

/-- `ADTEqual` on values. -/
def equal : Value D → Value D → Bool
  | int i, int j => i == j
  | double d, double e => CDouble.eq d e
  | string x, string y => x == y
  | array aType aAdtName xs, array aType' aAdtName' ys =>
    aType == aType' && ((aType != ASTType.adtType.toWord || aAdtName == aAdtName') &&
      (xs.length == ys.length && equalVector xs ys))
  | adt name fs, adt name' gs => name == name' && (fs.length == gs.length && equalMap fs gs)
  | _, _ => false

/-- The entries of two vectors. -/
def equalVector : List (Value D) → List (Value D) → Bool
  | x :: xs, y :: ys => equal x y && equalVector xs ys
  | _, _ => true

/-- Every entry of the first map is in the second. -/
def equalMap : List (Str × Value D) → List (Str × Value D) → Bool
  | [], _ => true
  | (k, x) :: fs, gs => (gs.any fun e ↦ e.1 == k && equal x e.2) && equalMap fs gs

end

mutual

/-- The values that are compared: numbers that are equal to themselves, and arrays whose elements are
of the declared type. -/
def Comparable : Value D → Prop
  | int _ => True
  | double d => CDouble.eq d d = true
  | string _ => True
  | array aType aAdtName xs => (aType = ASTType.adtType.toWord → aAdtName ≠ none) ∧
    (∀ x ∈ xs, x.HasElemType aType aAdtName) ∧ ComparableVector xs
  | adt _ fs => (fs.map Prod.fst).Nodup ∧ ComparableMap fs
  | _ => False

@[inherit_doc Comparable]
def ComparableVector : List (Value D) → Prop
  | [] => True
  | x :: xs => Comparable x ∧ ComparableVector xs

@[inherit_doc Comparable]
def ComparableMap : List (Str × Value D) → Prop
  | [] => True
  | (_, x) :: fs => Comparable x ∧ ComparableMap fs

end

/-- All elements. -/
theorem comparableVector_iff {xs : List (Value D)} :
    ComparableVector xs ↔ ∀ x ∈ xs, x.Comparable := by
  induction xs with
  | nil => simp [ComparableVector]
  | cons x xs ih => rw [ComparableVector, ih, List.forall_mem_cons]

/-- All fields. -/
theorem comparableMap_iff {fs : List (Str × Value D)} :
    ComparableMap fs ↔ ∀ e ∈ fs, e.2.Comparable := by
  induction fs with
  | nil => simp [ComparableMap]
  | cons e fs ih => rw [ComparableMap, ih, List.forall_mem_cons]

/-- Each field has an equal one of its name on the other side. -/
theorem equalMap_iff {fs gs : List (Str × Value D)} :
    equalMap fs gs = true ↔ ∀ e ∈ fs, ∃ e' ∈ gs, e'.1 = e.1 ∧ equal e.2 e'.2 = true := by
  induction fs with
  | nil => simp [equalMap]
  | cons e fs ih =>
    rw [equalMap, Bool.and_eq_true, ih, List.forall_mem_cons, List.any_eq_true]
    simp only [Bool.and_eq_true, beq_iff_eq]

/-- Element by element, if there are as many. -/
theorem equalVector_iff {xs ys : List (Value D)} (h : xs.length = ys.length) :
    equalVector xs ys = true ↔ List.Forall₂ (fun x y ↦ equal x y = true) xs ys := by
  induction xs generalizing ys with
  | nil =>
    obtain rfl := List.length_eq_zero_iff.1 h.symm
    simp [equalVector]
  | cons x xs ih =>
    cases ys with
    | nil => cases h
    | cons y ys =>
      rw [equalVector, Bool.and_eq_true, ih (Nat.succ.inj h), List.forall₂_cons]

/-- Arrays are equal if their types are, and for structs the names of these, and their elements. -/
theorem equal_array {aType aType' : UInt32} {name name' : Option Str} {xs ys : List (Value D)} :
    equal (array aType name xs) (array aType' name' ys) = true ↔
      aType = aType' ∧ (aType = ASTType.adtType.toWord → name = name') ∧
        List.Forall₂ (fun x y ↦ equal x y = true) xs ys := by
  rw [equal, Bool.and_eq_true, Bool.and_eq_true, Bool.and_eq_true, beq_iff_eq, beq_iff_eq,
    Bool.or_eq_true, bne_iff_ne, beq_iff_eq, ← imp_iff_not_or]
  refine and_congr_right fun _ ↦ and_congr_right fun _ ↦ ⟨fun ⟨hlen, h⟩ ↦ ?_, fun h ↦ ?_⟩
  · exact (equalVector_iff hlen).1 h
  · exact ⟨h.length_eq, (equalVector_iff h.length_eq).2 h⟩

/-- Structs are equal if their names are, and as many fields are equal as both have. -/
theorem equal_adt {name name' : Str} {fs gs : List (Str × Value D)} :
    equal (adt name fs) (adt name' gs) = true ↔ name = name' ∧ fs.length = gs.length ∧
      ∀ e ∈ fs, ∃ e' ∈ gs, e'.1 = e.1 ∧ equal e.2 e'.2 = true := by
  rw [equal, Bool.and_eq_true, Bool.and_eq_true, beq_iff_eq, beq_iff_eq, equalMap_iff]

/-- An array compares if its elements are of its type and compare themselves. -/
theorem comparable_array {aType : UInt32} {name : Option Str} {xs : List (Value D)} :
    Comparable (array aType name xs) ↔ (aType = ASTType.adtType.toWord → name ≠ none) ∧
      (∀ x ∈ xs, x.HasElemType aType name) ∧ ∀ x ∈ xs, x.Comparable := by
  rw [Comparable, comparableVector_iff]

/-- A struct compares if no field comes twice and all of them compare. -/
theorem comparable_adt {name : Str} {fs : List (Str × Value D)} :
    Comparable (adt name fs) ↔ (fs.map Prod.fst).Nodup ∧ ∀ e ∈ fs, e.2.Comparable := by
  rw [Comparable, comparableMap_iff]

/-- Values of different types are different. -/
theorem type_eq_of_equal {x y : Value D} (h : equal x y = true) : x.type = y.type := by
  cases x <;> cases y <;> first | rfl | cases h

/-- By the structure of the value. A field has no other one of its name to be found instead. -/
theorem equal_refl (x : Value D) (h : x.Comparable) : equal x x = true := by
  induction x using ind with
  | int i => exact beq_self_eq_true i
  | double d => exact h
  | string x => exact beq_self_eq_true x
  | array aType name xs ih =>
    obtain ⟨-, -, hxs⟩ := comparable_array.1 h
    exact equal_array.2 ⟨rfl, fun _ ↦ rfl, List.forall₂_same.2 fun x hx ↦ ih x hx (hxs x hx)⟩
  | adt name fs ih =>
    obtain ⟨-, hfs⟩ := comparable_adt.1 h
    exact equal_adt.2 ⟨rfl, rfl, fun e he ↦ ⟨e, he, rfl, ih e he (hfs e he)⟩⟩
  | empty => exact h.elim
  | sep xs => exact h.elim
  | other ty => exact h.elim

end Value

/-- `==` on doubles is symmetric and transitive. It is not reflexive: NaN. -/
class CDouble.LawfulEq (D : Type) [CDouble D] : Prop where
  symm : ∀ d e : D, CDouble.eq d e = true → CDouble.eq e d = true
  trans : ∀ d e f : D, CDouble.eq d e = true → CDouble.eq e f = true → CDouble.eq d f = true

namespace Value

variable [CDouble D]

/-- By the structure of the first value. Fields are found in the other direction since there are as
many on both sides. -/
theorem equal_symm [CDouble.LawfulEq D] (x y : Value D) (hx : x.Comparable) (hy : y.Comparable)
    (h : equal x y = true) : equal y x = true := by
  induction x using ind generalizing y with
  | int i =>
    cases y with
    | int j => exact beq_iff_eq.2 (beq_iff_eq.1 h).symm
    | _ => cases h
  | double d =>
    cases y with
    | double e => exact CDouble.LawfulEq.symm d e h
    | _ => cases h
  | string x =>
    cases y with
    | string y => exact beq_iff_eq.2 (beq_iff_eq.1 h).symm
    | _ => cases h
  | array aType name xs ih =>
    cases y with
    | array aType' name' ys =>
      obtain ⟨rfl, hname, hxys⟩ := equal_array.1 h
      obtain ⟨-, -, hxs⟩ := comparable_array.1 hx
      obtain ⟨-, -, hys⟩ := comparable_array.1 hy
      refine equal_array.2 ⟨rfl, fun htype ↦ (hname htype).symm, ?_⟩
      rw [List.forall₂_iff_get] at hxys ⊢
      refine ⟨hxys.1.symm, fun i hi hi' ↦ ?_⟩
      have hxi := List.getElem_mem hi'
      have hyi := List.getElem_mem hi
      exact ih _ hxi _ (hxs _ hxi) (hys _ hyi) (hxys.2 i hi' hi)
    | _ => cases h
  | adt name fs ih =>
    cases y with
    | adt name' gs =>
      obtain ⟨rfl, hlen, hall⟩ := equal_adt.1 h
      obtain ⟨hfs, hfs'⟩ := comparable_adt.1 hx
      obtain ⟨hgs, hgs'⟩ := comparable_adt.1 hy
      refine equal_adt.2 ⟨rfl, hlen.symm, fun e he ↦ ?_⟩
      have hkeys : ∀ e ∈ fs, ∃ e' ∈ gs, e'.1 = e.1 := fun e he ↦ by
        obtain ⟨e', he', heq, -⟩ := hall e he
        exact ⟨e', he', heq⟩
      -- as many fields and no name twice: the pairing of the fields is onto
      obtain ⟨e', he', heq⟩ := exists_key hfs hlen hkeys he
      obtain ⟨e'', he'', heq', hequal⟩ := hall e' he'
      obtain rfl := eq_of_key_eq hgs he he'' (heq.symm.trans heq'.symm)
      exact ⟨e', he', heq, ih e' he' e.2 (hfs' e' he') (hgs' e he) hequal⟩
    | _ => cases h
  | empty => exact hx.elim
  | sep xs => exact hx.elim
  | other ty => exact hx.elim

/-- By the structure of the value in the middle. -/
theorem equal_trans [CDouble.LawfulEq D] (x y z : Value D) (h : equal x y = true)
    (h' : equal y z = true) : equal x z = true := by
  induction x using ind generalizing y z with
  | int i =>
    cases y with
    | int j =>
      cases z with
      | int k => exact beq_iff_eq.2 ((beq_iff_eq.1 h).trans (beq_iff_eq.1 h'))
      | _ => cases h'
    | _ => cases h
  | double d =>
    cases y with
    | double e =>
      cases z with
      | double f => exact CDouble.LawfulEq.trans d e f h h'
      | _ => cases h'
    | _ => cases h
  | string x =>
    cases y with
    | string y =>
      cases z with
      | string z => exact beq_iff_eq.2 ((beq_iff_eq.1 h).trans (beq_iff_eq.1 h'))
      | _ => cases h'
    | _ => cases h
  | array aType name xs ih =>
    cases y with
    | array aType' name' ys =>
      cases z with
      | array aType'' name'' zs =>
        obtain ⟨rfl, hname, hxys⟩ := equal_array.1 h
        obtain ⟨rfl, hname', hyzs⟩ := equal_array.1 h'
        refine equal_array.2 ⟨rfl, fun htype ↦ (hname htype).trans (hname' htype), ?_⟩
        rw [List.forall₂_iff_get] at hxys hyzs ⊢
        refine ⟨hxys.1.trans hyzs.1, fun i hi hi' ↦ ?_⟩
        exact ih _ (List.getElem_mem hi) _ _ (hxys.2 i hi (hxys.1 ▸ hi))
          (hyzs.2 i (hxys.1 ▸ hi) hi')
      | _ => cases h'
    | _ => cases h
  | adt name fs ih =>
    cases y with
    | adt name' gs =>
      cases z with
      | adt name'' hs =>
        obtain ⟨rfl, hlen, hall⟩ := equal_adt.1 h
        obtain ⟨rfl, hlen', hall'⟩ := equal_adt.1 h'
        refine equal_adt.2 ⟨rfl, hlen.trans hlen', fun e he ↦ ?_⟩
        -- the field of the struct in the middle, and the one that goes with it
        obtain ⟨e', he', heq, hequal⟩ := hall e he
        obtain ⟨e'', he'', heq', hequal'⟩ := hall' e' he'
        exact ⟨e'', he'', heq'.trans heq, ih e he _ _ hequal hequal'⟩
      | _ => cases h'
    | _ => cases h
  | empty => cases h
  | sep xs => cases h
  | other ty => cases h

/-- **Equality of values is an equivalence.** -/
theorem equal_equivOn [CDouble.LawfulEq D] : Lib.EquivOn (equal : Value D → Value D → Bool)
    Comparable where
  refl := equal_refl
  symm := equal_symm
  trans x y z _ _ _ := equal_trans x y z

end Value

/-! ### Cells -/

/-- What can be written to. -/
inductive Cell where
  | node (a : Addr)
  | aux (k : Store) (a : Addr)

/-- Where it is. -/
def Cell.addr : Cell → Addr
  | node a => a
  | aux _ a => a

/-- What is written there. -/
inductive Content (D : Type) where
  | node (n : Node D)
  | string (x : Str)
  | vector (v : List Ptr)
  | map (m : StrMap Ptr)

/-- What a cell of the table holds. -/
def VarTable.content (tbl : VarTable D) : Cell → Option (Content D)
  | .node a => tbl.vStackAst[a.index]?.map .node
  | .aux .string a => tbl.vStackString[a.index]?.map .string
  | .aux .vector a => tbl.vStackVector[a.index]?.map .vector
  | .aux .map a => tbl.vStackMap[a.index]?.map .map

namespace ParserState

/-- What a cell holds. -/
def content (s : ParserState D) (c : Cell) : Option (Content D) :=
  (s.tables c.addr.table).bind fun tbl ↦ tbl.content c

/-- The cells that are not there. -/
def New (s : ParserState D) (c : Cell) : Prop := s.content c = none

/-- No cell that was there has been written to, except for those of `A`. -/
structure WritesOnly (A : Cell → Prop) (s s' : ParserState D) : Prop where
  keep : ∀ c x, ¬ A c → s.content c = some x → s'.content c = some x
  live : ∀ c, s'.New c → s.New c

variable {A B : Cell → Prop} {s s' s'' : ParserState D}

/-- Nothing is written. -/
theorem WritesOnly.refl (A : Cell → Prop) (s : ParserState D) : WritesOnly A s s :=
  ⟨fun _ _ _ hx ↦ hx, fun _ hc ↦ hc⟩

/-- One after the other. -/
theorem WritesOnly.trans (h : WritesOnly A s s') (h' : WritesOnly A s' s'') : WritesOnly A s s'' :=
  ⟨fun c x hc hx ↦ h'.keep c x hc (h.keep c x hc hx), fun c hc ↦ h.live c (h'.live c hc)⟩

/-- More cells that may be written to. -/
theorem WritesOnly.mono (h : WritesOnly A s s') (hAB : ∀ c, A c → B c) : WritesOnly B s s' :=
  ⟨fun c x hc ↦ h.keep c x fun hA ↦ hc (hAB c hA), h.live⟩

/-- Writing to new cells does not count. -/
theorem WritesOnly.drop_new (h : WritesOnly A s s') (hA : ∀ c, A c → B c ∨ s.New c) :
    WritesOnly B s s' := by
  refine ⟨fun c x hc hx ↦ h.keep c x (fun hAc ↦ ?_) hx, h.live⟩
  rcases hA c hAc with hBc | hnew
  · exact hc hBc
  · exact absurd (hx.symm.trans hnew) (by simp)

/-- The cell holds this, and may be read. -/
def Reads (U : Cell → Prop) (s : ParserState D) (c : Cell) (x : Content D) : Prop :=
  U c ∧ s.content c = some x

end ParserState

open ParserState

mutual

/-- The pointer leads to the value, through cells that may be read. -/
def Denotes (U : Cell → Prop) (s : ParserState D) : Value D → Ptr → Prop
  | .int i, p => ∃ a, p = .node a ∧ Reads U s (.node a) (.node (.int i))
  | .double d, p => ∃ a, p = .node a ∧ Reads U s (.node a) (.node (.double d))
  | .string x, p => ∃ a c, p = .node a ∧ Reads U s (.node a) (.node (.string c)) ∧
    Reads U s (.aux .string c) (.string x)
  | .array aType aAdtName xs, p => ∃ a v tb ps, p = .node a ∧
    Reads U s (.node a) (.node (.array aType aAdtName v tb)) ∧
    Reads U s (.aux .vector v) (.vector ps) ∧ DenotesVector U s xs ps
  | .adt name fs, p => ∃ a m u adtMap, p = .node a ∧
    Reads U s (.node a) (.node (.varAdt name m u)) ∧ Reads U s (.aux .map m) (.map adtMap) ∧
    DenotesMap U s fs adtMap.toList
  | _, _ => False

@[inherit_doc Denotes]
def DenotesVector (U : Cell → Prop) (s : ParserState D) : List (Value D) → List Ptr → Prop
  | [], [] => True
  | x :: xs, p :: ps => Denotes U s x p ∧ DenotesVector U s xs ps
  | _, _ => False

@[inherit_doc Denotes]
def DenotesMap (U : Cell → Prop) (s : ParserState D) :
    List (Str × Value D) → List (Str × Ptr) → Prop
  | [], [] => True
  | (k, x) :: fs, (k', p) :: es => k = k' ∧ Denotes U s x p ∧ DenotesMap U s fs es
  | _, _ => False

end

variable {U V A : Cell → Prop} {s s' : ParserState D} {x : Value D} {p : Ptr}

/-- The elements and the values, side by side. -/
theorem denotesVector_iff {xs : List (Value D)} {ps : List Ptr} :
    DenotesVector U s xs ps ↔ List.Forall₂ (Denotes U s) xs ps := by
  induction xs generalizing ps with
  | nil => cases ps <;> simp [DenotesVector]
  | cons x xs ih =>
    cases ps with
    | nil => simp [DenotesVector]
    | cons p ps => rw [DenotesVector, ih, List.forall₂_cons]

/-- The fields and the values, side by side and by the same names. -/
theorem denotesMap_iff {fs : List (Str × Value D)} {es : List (Str × Ptr)} :
    DenotesMap U s fs es ↔ List.Forall₂ (fun f e ↦ f.1 = e.1 ∧ Denotes U s f.2 e.2) fs es := by
  induction fs generalizing es with
  | nil => cases es <;> simp [DenotesMap]
  | cons f fs ih =>
    cases es with
    | nil => simp [DenotesMap]
    | cons e es => rw [DenotesMap, ih, List.forall₂_cons, and_assoc]

/-- A value stays where its cells stay. -/
theorem Denotes.imp (h : Denotes U s x p)
    (hreads : ∀ c y, Reads U s c y → Reads V s' c y) : Denotes V s' x p := by
  induction x using Value.ind generalizing p with
  | int i =>
    obtain ⟨a, rfl, hnode⟩ := h
    exact ⟨a, rfl, hreads _ _ hnode⟩
  | double d =>
    obtain ⟨a, rfl, hnode⟩ := h
    exact ⟨a, rfl, hreads _ _ hnode⟩
  | string y =>
    obtain ⟨a, c, rfl, hnode, hstring⟩ := h
    exact ⟨a, c, rfl, hreads _ _ hnode, hreads _ _ hstring⟩
  | array aType name xs ih =>
    obtain ⟨a, v, tb, ps, rfl, hnode, hvector, hps⟩ := h
    refine ⟨a, v, tb, ps, rfl, hreads _ _ hnode, hreads _ _ hvector, ?_⟩
    rw [denotesVector_iff, List.forall₂_iff_get] at hps ⊢
    exact ⟨hps.1, fun i hi hi' ↦ ih _ (List.getElem_mem hi) (hps.2 i hi hi')⟩
  | adt name fs ih =>
    obtain ⟨a, m, u, adtMap, rfl, hnode, hmap, hfs⟩ := h
    refine ⟨a, m, u, adtMap, rfl, hreads _ _ hnode, hreads _ _ hmap, ?_⟩
    rw [denotesMap_iff, List.forall₂_iff_get] at hfs ⊢
    refine ⟨hfs.1, fun i hi hi' ↦ ⟨(hfs.2 i hi hi').1, ?_⟩⟩
    exact ih _ (List.getElem_mem hi) (hfs.2 i hi hi').2
  | empty => exact h.elim
  | sep xs => exact h.elim
  | other ty => exact h.elim

/-- More cells may be read. -/
theorem Denotes.mono (h : Denotes U s x p) (hUV : ∀ c, U c → V c) : Denotes V s x p :=
  h.imp fun c _ hc ↦ ⟨hUV c hc.1, hc.2⟩

/-- **A value stays** where none of its cells is written to. -/
theorem Denotes.of_writesOnly (h : Denotes U s x p) (hwrites : WritesOnly A s s')
    (hUA : ∀ c, U c → ¬ A c) : Denotes U s' x p :=
  h.imp fun c y hc ↦ ⟨hc.1, hwrites.keep c y (hUA c hc.1) hc.2⟩

/-- A value that was there stays where only new cells are written to. -/
theorem Denotes.stays (h : Denotes U s x p) (hwrites : WritesOnly (fun _ ↦ False) s s') :
    Denotes (fun c ↦ U c ∧ ¬ s.New c) s' x p := by
  refine h.imp fun c y hc ↦ ⟨⟨hc.1, fun hnew ↦ ?_⟩, hwrites.keep c y id hc.2⟩
  exact absurd (hc.2.symm.trans hnew) (by simp)

/-- The names of a struct value are those of the map. -/
theorem map_fst_eq_keys {fs : List (Str × Value D)} {m : StrMap Ptr} {R : Value D → Ptr → Prop}
    (h : List.Forall₂ (fun f e ↦ f.1 = e.1 ∧ R f.2 e.2) fs m.toList) :
    fs.map Prod.fst = m.keys := by
  rw [← Std.ExtTreeMap.map_fst_toList_eq_keys]
  generalize m.toList = es at h
  induction h with
  | nil => rfl
  | cons he _ ih => rw [List.map_cons, List.map_cons, he.1, ih]

/-- Values that are under the keys of a map, in the order of the keys. -/
theorem denotesMap_of_keys {fs : List (Str × Value D)} {m : StrMap Ptr}
    (hkeys : fs.map Prod.fst = m.keys)
    (h : ∀ (k : Str) y q, (k, y) ∈ fs → m[k]? = some q → Denotes U s y q) :
    DenotesMap U s fs m.toList := by
  have hlist : fs.map Prod.fst = m.toList.map Prod.fst := by
    rw [hkeys, Std.ExtTreeMap.map_fst_toList_eq_keys]
  have hlen : fs.length = m.toList.length := by
    rw [← List.length_map Prod.fst, hlist, List.length_map]
  refine denotesMap_iff.2 (List.forall₂_iff_get.2 ⟨hlen, fun i hi hi' ↦ ?_⟩)
  have hkey : fs[i].1 = m.toList[i].1 := by
    have hget := List.getElem_of_eq hlist (by simpa using hi)
    rwa [List.getElem_map, List.getElem_map] at hget
  have hentry : m[fs[i].1]? = some m.toList[i].2 := by
    rw [hkey]
    exact Std.ExtTreeMap.mem_toList_iff_getElem?_eq_some.1 (List.getElem_mem hi')
  exact ⟨hkey, h _ fs[i].2 _ (List.getElem_mem hi) hentry⟩

/-- The node of a value. -/
theorem Denotes.node (h : Denotes U s x p) :
    ∃ a n, p = .node a ∧ s.content (.node a) = some (.node n) ∧ n.type = x.type := by
  cases x with
  | int i =>
    obtain ⟨a, rfl, -, ha⟩ := h
    exact ⟨a, _, rfl, ha, rfl⟩
  | double d =>
    obtain ⟨a, rfl, -, ha⟩ := h
    exact ⟨a, _, rfl, ha, rfl⟩
  | string y =>
    obtain ⟨a, c, rfl, ⟨-, ha⟩, -⟩ := h
    exact ⟨a, _, rfl, ha, rfl⟩
  | array aType name xs =>
    obtain ⟨a, v, tb, ps, rfl, ⟨-, ha⟩, -⟩ := h
    exact ⟨a, _, rfl, ha, rfl⟩
  | adt name fs =>
    obtain ⟨a, m, u, adtMap, rfl, ⟨-, ha⟩, -⟩ := h
    exact ⟨a, _, rfl, ha, rfl⟩
  | empty => exact h.elim
  | sep xs => exact h.elim
  | other ty => exact h.elim

/-! ### One value -/

/-- The value of an array. -/
theorem Denotes.of_array {a : Addr} {y : Value D} {aType : UInt32} {name : Option Str}
    {v : Addr} {tb : Option TableId} {ps : List Ptr} (h : Denotes U s y (.node a))
    (ha : s.content (.node a) = some (.node (.array aType name v tb)))
    (hv : s.content (.aux .vector v) = some (.vector ps)) :
    ∃ ys, y = .array aType name ys ∧ List.Forall₂ (Denotes U s) ys ps := by
  obtain ⟨_, n, ⟨⟩, hn, htype⟩ := h.node
  cases ha.symm.trans hn
  cases y with
  | array aType' name' ys =>
    obtain ⟨_, v', tb', ps', ⟨⟩, ⟨-, ha'⟩, ⟨-, hv'⟩, hps⟩ := h
    cases ha.symm.trans ha'
    cases hv.symm.trans hv'
    exact ⟨ys, rfl, denotesVector_iff.1 hps⟩
  | other ty => exact h.elim
  | _ => cases htype

/-- The value of a struct. -/
theorem Denotes.of_varAdt {a : Addr} {y : Value D} {name : Str} {m : Addr} {u : Bool}
    {adtMap : StrMap Ptr} (h : Denotes U s y (.node a))
    (ha : s.content (.node a) = some (.node (.varAdt name m u)))
    (hm : s.content (.aux .map m) = some (.map adtMap)) :
    ∃ fs, y = .adt name fs ∧
      List.Forall₂ (fun f e ↦ f.1 = e.1 ∧ Denotes U s f.2 e.2) fs adtMap.toList := by
  obtain ⟨_, n, ⟨⟩, hn, htype⟩ := h.node
  cases ha.symm.trans hn
  cases y with
  | adt name' fs =>
    obtain ⟨_, m', u', adtMap', ⟨⟩, ⟨-, ha'⟩, ⟨-, hm'⟩, hfs⟩ := h
    cases ha.symm.trans ha'
    cases hm.symm.trans hm'
    exact ⟨fs, rfl, denotesMap_iff.1 hfs⟩
  | other ty => exact h.elim
  | _ => cases htype

/-- A pointer leads to values of one type. -/
theorem Denotes.type_eq {y : Value D} (hx : Denotes U s x p)
    (hy : Denotes V s y p) : x.type = y.type := by
  obtain ⟨a, n, rfl, ha, hn⟩ := hx.node
  obtain ⟨_, n', ⟨⟩, ha', hn'⟩ := hy.node
  cases ha.symm.trans ha'
  exact hn.symm.trans hn'

/-- **A pointer leads to one value.** -/
theorem Denotes.unique {y : Value D} (hx : Denotes U s x p)
    (hy : Denotes V s y p) : x = y := by
  induction x using Value.ind generalizing y p with
  | int i =>
    have htype := hx.type_eq hy
    cases y with
    | int j =>
      obtain ⟨a, rfl, -, ha⟩ := hx
      obtain ⟨_, ⟨⟩, -, ha'⟩ := hy
      cases ha.symm.trans ha'
      rfl
    | other ty => exact hy.elim
    | _ => cases htype
  | double d =>
    have htype := hx.type_eq hy
    cases y with
    | double e =>
      obtain ⟨a, rfl, -, ha⟩ := hx
      obtain ⟨_, ⟨⟩, -, ha'⟩ := hy
      cases ha.symm.trans ha'
      rfl
    | other ty => exact hy.elim
    | _ => cases htype
  | string z =>
    have htype := hx.type_eq hy
    cases y with
    | string z' =>
      obtain ⟨a, c, rfl, ⟨-, ha⟩, -, hc⟩ := hx
      obtain ⟨_, c', ⟨⟩, ⟨-, ha'⟩, -, hc'⟩ := hy
      cases ha.symm.trans ha'
      cases hc.symm.trans hc'
      rfl
    | other ty => exact hy.elim
    | _ => cases htype
  | array aType name xs ih =>
    obtain ⟨a, v, tb, ps, rfl, ⟨-, ha⟩, ⟨-, hv⟩, hxs⟩ := hx
    obtain ⟨ys, rfl, hys⟩ := hy.of_array ha hv
    have hxs := denotesVector_iff.1 hxs
    have hlen := hxs.length_eq.trans hys.length_eq.symm
    refine congrArg (Value.array aType name) (List.ext_getElem hlen fun i hi hi' ↦ ?_)
    -- both values have their elements from the same vector
    have hp : i < ps.length := hxs.length_eq ▸ hi
    exact ih _ (List.getElem_mem hi) (hxs.get hi hp) (hys.get hi' hp)
  | adt name fs ih =>
    obtain ⟨a, m, u, adtMap, rfl, ⟨-, ha⟩, ⟨-, hm⟩, hfs⟩ := hx
    obtain ⟨gs, rfl, hgs⟩ := hy.of_varAdt ha hm
    have hfs := denotesMap_iff.1 hfs
    have hlen := hfs.length_eq.trans hgs.length_eq.symm
    refine congrArg (Value.adt name) (List.ext_getElem hlen fun i hi hi' ↦ ?_)
    -- both values have their fields from the same map
    have hp : i < adtMap.toList.length := hfs.length_eq ▸ hi
    obtain ⟨hkey, hx⟩ := hfs.get hi hp
    obtain ⟨hkey', hy⟩ := hgs.get hi' hp
    exact Prod.ext (hkey.trans hkey'.symm) (ih _ (List.getElem_mem hi) hx hy)
  | empty => exact hx.elim
  | sep xs => exact hx.elim
  | other ty => exact hx.elim

/-! ### A test -/

section Test

variable [DecidableEq D]

mutual

/-- The test whether the pointer leads to the value. -/
def leadsTo (s : ParserState D) : Value D → Ptr → Bool
  | .int i, .node a =>
    match s.content (.node a) with
    | some (.node (.int j)) => i == j
    | _ => false
  | .double d, .node a =>
    match s.content (.node a) with
    | some (.node (.double e)) => d == e
    | _ => false
  | .string x, .node a =>
    match s.content (.node a) with
    | some (.node (.string c)) =>
      match s.content (.aux .string c) with
      | some (.string y) => x == y
      | _ => false
    | _ => false
  | .array aType aAdtName xs, .node a =>
    match s.content (.node a) with
    | some (.node (.array aType' aAdtName' v _)) =>
      match s.content (.aux .vector v) with
      | some (.vector ps) => (aType, aAdtName) == (aType', aAdtName') && leadsToVector s xs ps
      | _ => false
    | _ => false
  | .adt name fs, .node a =>
    match s.content (.node a) with
    | some (.node (.varAdt name' m _)) =>
      match s.content (.aux .map m) with
      | some (.map adtMap) => name == name' && leadsToMap s fs adtMap.toList
      | _ => false
    | _ => false
  | _, _ => false

@[inherit_doc leadsTo]
def leadsToVector (s : ParserState D) : List (Value D) → List Ptr → Bool
  | [], [] => true
  | x :: xs, p :: ps => leadsTo s x p && leadsToVector s xs ps
  | _, _ => false

@[inherit_doc leadsTo]
def leadsToMap (s : ParserState D) : List (Str × Value D) → List (Str × Ptr) → Bool
  | [], [] => true
  | (k, x) :: fs, (k', p) :: es => k == k' && (leadsTo s x p && leadsToMap s fs es)
  | _, _ => false

end

/-- The test goes through the elements in order. -/
theorem forall₂_of_leadsToVector {xs : List (Value D)} {ps : List Ptr}
    (h : leadsToVector s xs ps = true) : List.Forall₂ (fun x p ↦ leadsTo s x p = true) xs ps := by
  induction xs generalizing ps with
  | nil =>
    cases ps with
    | nil => exact .nil
    | cons p ps => cases h
  | cons x xs ih =>
    cases ps with
    | nil => cases h
    | cons p ps =>
      rw [leadsToVector, Bool.and_eq_true] at h
      exact .cons h.1 (ih h.2)

/-- The test goes through the fields in order, and compares their names. -/
theorem forall₂_of_leadsToMap {fs : List (Str × Value D)} {es : List (Str × Ptr)}
    (h : leadsToMap s fs es = true) :
    List.Forall₂ (fun f e ↦ f.1 = e.1 ∧ leadsTo s f.2 e.2 = true) fs es := by
  induction fs generalizing es with
  | nil =>
    cases es with
    | nil => exact .nil
    | cons e es => cases h
  | cons f fs ih =>
    cases es with
    | nil => cases h
    | cons e es =>
      rw [leadsToMap, Bool.and_eq_true, Bool.and_eq_true, beq_iff_eq] at h
      exact .cons ⟨h.1, h.2.1⟩ (ih h.2.2)

/-- What the test accepts is denoted. By the structure of the value, as the test is. -/
theorem denotes_of_leadsTo (h : leadsTo s x p = true) : Denotes (fun _ ↦ True) s x p := by
  induction x using Value.ind generalizing p with
  | int i =>
    cases p with
    | node a =>
      rw [leadsTo] at h
      split at h
      · next j ha =>
        obtain rfl := beq_iff_eq.1 h
        exact ⟨a, rfl, trivial, ha⟩
      · cases h
    | _ => cases h
  | double d =>
    cases p with
    | node a =>
      rw [leadsTo] at h
      split at h
      · next e ha =>
        obtain rfl := beq_iff_eq.1 h
        exact ⟨a, rfl, trivial, ha⟩
      · cases h
    | _ => cases h
  | string y =>
    cases p with
    | node a =>
      rw [leadsTo] at h
      split at h
      · next c ha =>
        split at h
        · next z hc =>
          obtain rfl := beq_iff_eq.1 h
          exact ⟨a, c, rfl, ⟨trivial, ha⟩, trivial, hc⟩
        · cases h
      · cases h
    | _ => cases h
  | array aType name xs ih =>
    cases p with
    | node a =>
      rw [leadsTo] at h
      split at h
      · next aType' name' v tb ha =>
        split at h
        · next ps hv =>
          obtain ⟨htype, hps⟩ := Bool.and_eq_true_iff.1 h
          obtain ⟨rfl, rfl⟩ := Prod.mk.inj (beq_iff_eq.1 htype)
          refine ⟨a, v, tb, ps, rfl, ⟨trivial, ha⟩, ⟨trivial, hv⟩, denotesVector_iff.2 ?_⟩
          have hps := List.forall₂_iff_get.1 (forall₂_of_leadsToVector hps)
          refine List.forall₂_iff_get.2 ⟨hps.1, fun i hi hi' ↦ ?_⟩
          exact ih _ (List.getElem_mem hi) (hps.2 i hi hi')
        · cases h
      · cases h
    | _ => cases h
  | adt name fs ih =>
    cases p with
    | node a =>
      rw [leadsTo] at h
      split at h
      · next name' m u ha =>
        split at h
        · next adtMap hm =>
          obtain ⟨hname, hfs⟩ := Bool.and_eq_true_iff.1 h
          obtain rfl := beq_iff_eq.1 hname
          refine ⟨a, m, u, adtMap, rfl, ⟨trivial, ha⟩, ⟨trivial, hm⟩, denotesMap_iff.2 ?_⟩
          have hfs := List.forall₂_iff_get.1 (forall₂_of_leadsToMap hfs)
          refine List.forall₂_iff_get.2 ⟨hfs.1, fun i hi hi' ↦ ⟨(hfs.2 i hi hi').1, ?_⟩⟩
          exact ih _ (List.getElem_mem hi) (hfs.2 i hi hi').2
        · cases h
      · cases h
    | _ => cases h
  | _ => cases p <;> cases h

end Test

/-! ### `ADTEqual` -/

namespace Interp

/-- A cell has a content only in a table that is there. -/
theorem content_eq_some {k : VarTable D → Option (Content D)} {t : TableId} {y : Content D}
    (h : (s.tables t).bind k = some y) : ∃ tbl, s.tables t = some tbl ∧ k tbl = some y :=
  Option.bind_eq_some_iff.1 h

/-- The table is there. -/
theorem runs_getTable {t : TableId} {tbl : VarTable D} (h : s.tables t = some tbl) :
    Runs (getTable t) s tbl s := by
  simp [getTable, h]

/-- The cell is there. -/
theorem runs_cell {α : Type} {l : List α} {i : ℕ} {y : α} (h : l[i]? = some y) :
    Runs (cell l i) s y s := by
  simp [cell, h]

/-- The node is there. -/
theorem runs_getNode {a : Addr} {n : Node D} (h : s.content (.node a) = some (.node n)) :
    Runs (getNode a) s n s := by
  obtain ⟨tbl, ht, hn⟩ := content_eq_some h
  obtain ⟨m, hm, heq⟩ := Option.map_eq_some_iff.1 hn
  cases heq
  exact Lib.runs_bind.2 ⟨tbl, s, runs_getTable ht, runs_cell hm⟩

/-- The node of a pointer is the content of its cell. -/
theorem nodeAt_iff {a : Addr} {n : Node D} :
    NodeAt s a n ↔ s.content (.node a) = some (.node n) := by
  rw [content, Option.bind_eq_some_iff]
  refine exists_congr fun tbl ↦ and_congr_right fun _ ↦ ?_
  simp [VarTable.content]

/-- The text is there. -/
theorem runs_getString {a : Addr} {y : Str} (h : s.content (.aux .string a) = some (.string y)) :
    Runs (getString a) s y s := by
  obtain ⟨tbl, ht, hn⟩ := content_eq_some h
  obtain ⟨m, hm, heq⟩ := Option.map_eq_some_iff.1 hn
  cases heq
  exact Lib.runs_bind.2 ⟨tbl, s, runs_getTable ht, runs_cell hm⟩

/-- The elements are there. -/
theorem runs_getVector {a : Addr} {v : List Ptr}
    (h : s.content (.aux .vector a) = some (.vector v)) : Runs (getVector a) s v s := by
  obtain ⟨tbl, ht, hn⟩ := content_eq_some h
  obtain ⟨m, hm, heq⟩ := Option.map_eq_some_iff.1 hn
  cases heq
  exact Lib.runs_bind.2 ⟨tbl, s, runs_getTable ht, runs_cell hm⟩

/-- The fields are there. -/
theorem runs_getMap {a : Addr} {m : StrMap Ptr} (h : s.content (.aux .map a) = some (.map m)) :
    Runs (getMap a) s m s := by
  obtain ⟨tbl, ht, hn⟩ := content_eq_some h
  obtain ⟨m', hm, heq⟩ := Option.map_eq_some_iff.1 hn
  cases heq
  exact Lib.runs_bind.2 ⟨tbl, s, runs_getTable ht, runs_cell hm⟩

/-- A pointer to a node is followed. -/
theorem runs_nodeAt {a : Addr} {n : Node D} (h : s.content (.node a) = some (.node n)) :
    Runs (nodeAt (.node a)) s (some (a, n)) s := by
  simp only [nodeAt, Lib.runs_bind, Lib.runs_pure]
  exact ⟨n, s, runs_getNode h, rfl, rfl⟩

/-- The computation returns `b`, and leaves the state as it is. -/
abbrev Returns {α : Type} (E : Fault → Prop) (m : Interp D α) (s : ParserState D) (b : α) : Prop :=
  Meets E m s fun r s' ↦ s' = s ∧ r = b

/-- One computation that only reads, after another. -/
theorem returns_bind {α β : Type} {E : Fault → Prop} {m : Interp D α} {f : α → Interp D β} {a : α}
    {b : β} (h : Returns E m s a) (hf : Returns E (f a) s b) : Returns E (m >>= f) s b := by
  refine Lib.meets_bind.2 (h.mono ?_)
  rintro r s' ⟨rfl, rfl⟩
  exact hf

/-- What runs returns, whatever faults are allowed. -/
theorem returns_of_runs {α : Type} {E : Fault → Prop} {m : Interp D α} {a : α}
    (h : Runs m s a s) : Returns E m s a :=
  h.meets ⟨rfl, rfl⟩

/-- The comparison of the struct names of two arrays, where both have been set. -/
theorem sameAdtName_returns {E : Fault → Prop} {aType : UInt32} {name name' : Option Str}
    (h : aType = ASTType.adtType.toWord → name ≠ none)
    (h' : aType = ASTType.adtType.toWord → name' ≠ none) :
    Returns E (sameAdtName (D := D) aType name name') s
      (aType != ASTType.adtType.toWord || name == name') := by
  refine Lib.meets_ite.2 ⟨fun htype ↦ ?_, fun htype ↦ ?_⟩
  · obtain ⟨x, rfl⟩ := Option.ne_none_iff_exists'.1 (h htype)
    obtain ⟨y, rfl⟩ := Option.ne_none_iff_exists'.1 (h' htype)
    refine ⟨rfl, ?_⟩
    rw [htype]
    by_cases hxy : x = y <;> simp [hxy]
  · refine ⟨rfl, ?_⟩
    simp [htype]

variable [CDouble D]

/-- What is known of a call of `ADTEqual`. -/
def EqualCalls (E : Fault → Prop) (s : ParserState D) (equal : Ptr → Ptr → Interp D Bool)
    (x : Value D) : Prop :=
  ∀ y p q, Denotes (fun _ ↦ True) s x p → Denotes (fun _ ↦ True) s y q → x.Comparable →
    y.Comparable → Returns E (equal p q) s (x.equal y)

/-- More faults that are allowed. -/
theorem EqualCalls.mono {E E' : Fault → Prop} {equal : Ptr → Ptr → Interp D Bool} {x : Value D}
    (h : EqualCalls E s equal x) (hE : ∀ e, E e → E' e) : EqualCalls E' s equal x :=
  fun y p q hp hq hx hy ↦ (h y p q hp hq hx hy).mono_fail hE

section Calls

variable {E : Fault → Prop} {equal : Ptr → Ptr → Interp D Bool}

/-- The loop over two arrays compares their elements. -/
theorem equalElems_returns {xs ys : List (Value D)} {ps qs : List Ptr}
    (hcalls : ∀ x ∈ xs, EqualCalls E s equal x)
    (hps : List.Forall₂ (Denotes (fun _ ↦ True) s) xs ps)
    (hqs : List.Forall₂ (Denotes (fun _ ↦ True) s) ys qs) (hxs : ∀ x ∈ xs, x.Comparable)
    (hys : ∀ y ∈ ys, y.Comparable) :
    Returns E (equalElems equal ps qs) s (Value.equalVector xs ys) := by
  induction hps generalizing ys qs with
  | nil => exact ⟨rfl, by simp [Value.equalVector]⟩
  | @cons x p xs ps hp _ ih =>
    rw [List.forall_mem_cons] at hcalls hxs
    cases hqs with
    | nil => exact ⟨rfl, by simp [Value.equalVector]⟩
    | @cons y q ys qs hq hqs =>
      rw [List.forall_mem_cons] at hys
      rw [Value.equalVector]
      refine returns_bind (hcalls.1 y p q hp hq hxs.1 hys.1) (Lib.meets_ite.2 ⟨fun heq ↦ ?_, ?_⟩)
      · rw [heq, Bool.true_and]
        exact ih hcalls.2 hqs hxs.2 hys.2
      · intro hne
        rw [eq_false_of_ne_true hne, Bool.false_and]
        exact ⟨rfl, rfl⟩

/-- The loop over the fields of one struct finds the ones of the other by their names. -/
theorem equalFields_returns {fs gs : List (Str × Value D)} {es : List (Str × Ptr)}
    {other : StrMap Ptr} (hcalls : ∀ f ∈ fs, EqualCalls E s equal f.2)
    (hes : List.Forall₂ (fun f e ↦ f.1 = e.1 ∧ Denotes (fun _ ↦ True) s f.2 e.2) fs es)
    (hother : List.Forall₂ (fun f e ↦ f.1 = e.1 ∧ Denotes (fun _ ↦ True) s f.2 e.2) gs
      other.toList)
    (hgs : (gs.map Prod.fst).Nodup) (hfs' : ∀ f ∈ fs, f.2.Comparable)
    (hgs' : ∀ f ∈ gs, f.2.Comparable) :
    Returns E (equalFields equal other es) s (Value.equalMap fs gs) := by
  induction hes with
  | nil => exact ⟨rfl, by simp [Value.equalMap]⟩
  | @cons f e fs es he _ ih =>
    rw [List.forall_mem_cons] at hcalls hfs'
    obtain ⟨k, x⟩ := f
    obtain ⟨k', p⟩ := e
    obtain ⟨rfl, hp⟩ := he
    rw [equalFields, Value.equalMap]
    cases hq : other[k]? with
    | none =>
      -- the loop stops at a field that the other struct lacks
      have hany : ¬ (gs.any fun e ↦ e.1 == k && x.equal e.2) = true := by
        intro hany
        obtain ⟨g, hg, heq⟩ := List.any_eq_true.1 hany
        obtain ⟨⟨k', q⟩, he, hk, -⟩ := exists_right_of_forall₂ hother hg
        obtain rfl : k' = k := hk.symm.trans (beq_iff_eq.1 (Bool.and_eq_true_iff.1 heq).1)
        rw [Std.ExtTreeMap.mem_toList_iff_getElem?_eq_some.1 he] at hq
        cases hq
      refine ⟨rfl, ?_⟩
      rw [Bool.eq_false_iff.2 hany, Bool.false_and]
    | some q =>
      obtain ⟨⟨k', y⟩, hg, rfl, hy⟩ := exists_left_of_forall₂ hother
        (Std.ExtTreeMap.mem_toList_iff_getElem?_eq_some.2 hq)
      -- no name comes twice, so the field that is found is the only one that counts
      have hany : (gs.any fun e ↦ e.1 == k' && x.equal e.2) = x.equal y := by
        rw [Bool.eq_iff_iff, List.any_eq_true]
        constructor
        · rintro ⟨g, hg', heq⟩
          obtain ⟨hk, hequal⟩ := Bool.and_eq_true_iff.1 heq
          obtain rfl := Value.eq_of_key_eq hgs hg' hg (beq_iff_eq.1 hk)
          exact hequal
        · exact fun hequal ↦ ⟨(k', y), hg, Bool.and_eq_true_iff.2 ⟨beq_self_eq_true k', hequal⟩⟩
      rw [hany]
      refine returns_bind (hcalls.1 y p q hp hy hfs'.1 (hgs' _ hg)) (Lib.meets_ite.2 ⟨?_, ?_⟩)
      · intro heq
        rw [heq, Bool.true_and]
        exact ih hcalls.2 hfs'.2
      · intro hne
        rw [eq_false_of_ne_true hne, Bool.false_and]
        exact ⟨rfl, rfl⟩

end Calls

/-- Nodes of different types are not equal. -/
theorem equalNode_of_type_ne {equal : Ptr → Ptr → Interp D Bool} {n n' : Node D}
    (h : n.type ≠ n'.type) : equalNode equal n n' = pure false := by
  cases n <;> cases n' <;> first | rfl | exact absurd rfl h

/-- Two nodes are compared, with the calls one level below. -/
theorem equalFuel_succ {E : Fault → Prop} {fuel : ℕ} {a b : Addr} {n n' : Node D} {r : Bool}
    (ha : s.content (.node a) = some (.node n)) (hb : s.content (.node b) = some (.node n'))
    (h : Returns E (equalNode (equalFuel fuel) n n') s r) :
    Returns E (equalFuel (fuel + 1) (.node a) (.node b)) s r :=
  returns_bind (returns_of_runs (runs_nodeAt ha)) (returns_bind (returns_of_runs (runs_nodeAt hb)) h)

/-- **`ADTEqual` compares the values**, if the bound on the depth is not below the number of nodes. -/
theorem equalFuel_returns (fuel : ℕ) (x : Value D) :
    EqualCalls (fun _ ↦ fuel < x.nodes) s (equalFuel fuel) x := by
  induction fuel generalizing x with
  | zero => exact fun _ _ _ _ _ _ _ ↦ x.nodes_pos
  | succ fuel ih =>
    intro y p q hp hq hx hy
    obtain ⟨a, n, rfl, ha, hn⟩ := hp.node
    obtain ⟨b, n', rfl, hb, hn'⟩ := hq.node
    refine equalFuel_succ ha hb ?_
    by_cases htype : x.type = y.type
    swap
    · have hne : ¬ x.equal y = true := fun heq ↦ htype (Value.type_eq_of_equal heq)
      rw [equalNode_of_type_ne (by rwa [hn, hn']), Bool.eq_false_iff.2 hne]
      exact ⟨rfl, rfl⟩
    cases x with
    | int i =>
      cases y with
      | int j =>
        obtain ⟨a', ⟨⟩, -, ha'⟩ := hp
        obtain ⟨b', ⟨⟩, -, hb'⟩ := hq
        cases ha.symm.trans ha'
        cases hb.symm.trans hb'
        exact ⟨rfl, rfl⟩
      | other ty => exact hq.elim
      | _ => cases htype
    | double d =>
      cases y with
      | double e =>
        obtain ⟨a', ⟨⟩, -, ha'⟩ := hp
        obtain ⟨b', ⟨⟩, -, hb'⟩ := hq
        cases ha.symm.trans ha'
        cases hb.symm.trans hb'
        exact ⟨rfl, rfl⟩
      | other ty => exact hq.elim
      | _ => cases htype
    | string x =>
      cases y with
      | string y =>
        obtain ⟨a', c, ⟨⟩, ⟨-, ha'⟩, -, hc⟩ := hp
        obtain ⟨b', c', ⟨⟩, ⟨-, hb'⟩, -, hc'⟩ := hq
        cases ha.symm.trans ha'
        cases hb.symm.trans hb'
        refine returns_bind (returns_of_runs (runs_getString hc)) ?_
        exact returns_bind (returns_of_runs (runs_getString hc')) ⟨rfl, rfl⟩
      | other ty => exact hq.elim
      | _ => cases htype
    | array aType name xs =>
      cases y with
      | array aType' name' ys =>
        obtain ⟨a', v, tb, ps, ⟨⟩, ⟨-, ha'⟩, ⟨-, hv⟩, hps⟩ := hp
        obtain ⟨b', v', tb', qs, ⟨⟩, ⟨-, hb'⟩, ⟨-, hv'⟩, hqs⟩ := hq
        cases ha.symm.trans ha'
        cases hb.symm.trans hb'
        obtain ⟨hname, -, hxs⟩ := Value.comparable_array.1 hx
        obtain ⟨hname', -, hys⟩ := Value.comparable_array.1 hy
        have hps := denotesVector_iff.1 hps
        have hqs := denotesVector_iff.1 hqs
        rw [Value.equal]
        refine Lib.meets_ite.2 ⟨fun hne ↦ ⟨rfl, by simp [hne]⟩, fun heq ↦ ?_⟩
        obtain rfl := not_not.1 heq
        rw [beq_self_eq_true, Bool.true_and]
        refine returns_bind (sameAdtName_returns hname hname') (Lib.meets_ite.2 ⟨?_, ?_⟩)
        swap
        · intro hne
          rw [eq_false_of_ne_true hne, Bool.false_and]
          exact ⟨rfl, rfl⟩
        intro hsame
        rw [hsame, Bool.true_and]
        refine returns_bind (returns_of_runs (runs_getVector hv)) ?_
        refine returns_bind (returns_of_runs (runs_getVector hv')) ?_
        rw [hps.length_eq, hqs.length_eq]
        refine Lib.meets_ite.2 ⟨fun hne ↦ ⟨rfl, by simp [hne]⟩, fun hlen ↦ ?_⟩
        rw [beq_iff_eq.2 (not_not.1 hlen), Bool.true_and]
        refine equalElems_returns (fun x hx ↦ (ih x).mono fun _ hlt ↦ ?_) hps hqs hxs hys
        -- an element takes fewer nodes than the array, so the fuel that is left is enough for it
        have hle := Value.nodes_le_nodesVector hx
        rw [Value.nodes]
        omega
      | other ty => exact hq.elim
      | _ => cases htype
    | adt name fs =>
      cases y with
      | adt name' gs =>
        obtain ⟨a', m, u, as, ⟨⟩, ⟨-, ha'⟩, ⟨-, hm⟩, hfs⟩ := hp
        obtain ⟨b', m', u', bs, ⟨⟩, ⟨-, hb'⟩, ⟨-, hm'⟩, hgs⟩ := hq
        cases ha.symm.trans ha'
        cases hb.symm.trans hb'
        have hfs := denotesMap_iff.1 hfs
        have hgs := denotesMap_iff.1 hgs
        obtain ⟨-, hfs'⟩ := Value.comparable_adt.1 hx
        obtain ⟨hnodup, hgs'⟩ := Value.comparable_adt.1 hy
        rw [Value.equal]
        refine Lib.meets_ite.2 ⟨fun hne ↦ ⟨rfl, by simp [hne]⟩, fun heq ↦ ?_⟩
        obtain rfl := not_not.1 heq
        rw [beq_self_eq_true, Bool.true_and]
        refine returns_bind (returns_of_runs (runs_getMap hm)) ?_
        refine returns_bind (returns_of_runs (runs_getMap hm')) ?_
        rw [hfs.length_eq, hgs.length_eq, Std.ExtTreeMap.length_toList,
          Std.ExtTreeMap.length_toList]
        refine Lib.meets_ite.2 ⟨fun hne ↦ ⟨rfl, by simp [hne]⟩, fun hlen ↦ ?_⟩
        rw [beq_iff_eq.2 (not_not.1 hlen), Bool.true_and]
        refine equalFields_returns (fun f hf ↦ (ih f.2).mono fun _ hlt ↦ ?_) hfs hgs hnodup hfs' hgs'
        -- the same for a field
        have hle := Value.nodes_le_nodesMap hf
        rw [Value.nodes]
        omega
      | other ty => exact hq.elim
      | _ => cases htype
    | empty => exact hp.elim
    | sep xs => exact hp.elim
    | other ty => exact hp.elim

/-- Some entry of the vector is equal. -/
theorem anyEqual_returns {x : Value D} {zs : List (Value D)} {ps : List Ptr}
    (hp : Denotes (fun _ ↦ True) s x p) (hx : x.Comparable)
    (hps : List.Forall₂ (Denotes (fun _ ↦ True) s) zs ps) (hzs : ∀ z ∈ zs, z.Comparable) :
    Returns (fun _ ↦ True) (anyEqual p ps) s (zs.any x.equal) := by
  induction hps with
  | nil => exact ⟨rfl, rfl⟩
  | @cons z q zs ps hq _ ih =>
    rw [List.forall_mem_cons] at hzs
    have hcall := (equalFuel_returns Value.MAX_AST_PER_STACK x z p q hp hq hx hzs.1).mono_fail
      fun _ _ ↦ trivial
    refine returns_bind hcall (Lib.meets_ite.2 ⟨fun heq ↦ ⟨rfl, ?_⟩, fun hne ↦ ?_⟩)
    · rw [List.any_cons, heq, Bool.true_or]
    · rw [List.any_cons, eq_false_of_ne_true hne, Bool.false_or]
      exact ih hzs.2

end Interp

end Meridian.MQL

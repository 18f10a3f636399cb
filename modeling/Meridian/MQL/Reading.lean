import Meridian.MQL.Native
import Meridian.Lib.Runs

/-!
# What the interpreter only reads

`typeOf`, `lookup`, `ADTEqual` and the checks of the native functions leave the state as it is. The
proofs follow the definitions; the recursive ones take the recursive call as an argument.
-/

namespace Meridian.MQL.Interp

open Lib

variable {D : Type}

/-! ### Cells and pointers -/

/-- A table that has been popped faults. -/
theorem getTable_readOnly (t : TableId) : ReadOnly (getTable (D := D) t) := by
  refine .bind .get fun s ↦ ?_
  split
  · exact .pure _
  · exact .throw _

/-- A cell that is not there faults. -/
theorem cell_readOnly {α : Type} (l : List α) (i : ℕ) : ReadOnly (cell (D := D) l i) := by
  rw [cell]
  split
  · exact .pure _
  · exact .throw _

/-- A node is read. -/
theorem getNode_readOnly (a : Addr) : ReadOnly (getNode (D := D) a) :=
  .bind (getTable_readOnly _) fun _ ↦ cell_readOnly _ _

/-- A text is read. -/
theorem getString_readOnly (a : Addr) : ReadOnly (getString (D := D) a) :=
  .bind (getTable_readOnly _) fun _ ↦ cell_readOnly _ _

/-- The elements of an array are read. -/
theorem getVector_readOnly (a : Addr) : ReadOnly (getVector (D := D) a) :=
  .bind (getTable_readOnly _) fun _ ↦ cell_readOnly _ _

/-- The fields of a struct are read. -/
theorem getMap_readOnly (a : Addr) : ReadOnly (getMap (D := D) a) :=
  .bind (getTable_readOnly _) fun _ ↦ cell_readOnly _ _

/-- Without any table there is none at the top, and that faults. -/
theorem getVarTable_readOnly : ReadOnly (getVarTable (D := D)) := by
  refine .bind .get fun s ↦ ?_
  split
  · exact .pure _
  · exact .throw _

/-- The null pointer faults, and every other one has a type. -/
theorem typeOf_readOnly (p : Ptr) : ReadOnly (typeOf (D := D) p) := by
  cases p with
  | null => exact .throw _
  | node a => exact .bind (getNode_readOnly a) fun _ ↦ .pure _
  | _ => exact .pure _

/-- A pointer is followed if it leads to a node. -/
theorem nodeAt_readOnly (p : Ptr) : ReadOnly (nodeAt (D := D) p) := by
  cases p with
  | null => exact .throw _
  | node a => exact .bind (getNode_readOnly a) fun _ ↦ .pure _
  | _ => exact .pure _

/-- A name that is missing faults. -/
theorem derefName_readOnly (name : Option Str) : ReadOnly (derefName (D := D) name) := by
  cases name with
  | none => exact .throw _
  | some name => exact .pure _

/-- Only a struct and a definition have a name. -/
theorem adtTypeName_readOnly (p : Ptr) : ReadOnly (adtTypeName (D := D) p) := by
  refine .bind (nodeAt_readOnly p) fun r ↦ ?_
  split
  · exact .pure _
  · exact .pure _
  · exact .throw _

/-- Only a definition has a list of fields. -/
theorem adtParam_readOnly (p : Ptr) : ReadOnly (adtParam (D := D) p) := by
  refine .bind (nodeAt_readOnly p) fun r ↦ ?_
  split
  · exact .throw _
  · exact .pure _
  · exact .throw _

/-- The tables are asked in order, up to the first that has the name. -/
theorem lookupIn_readOnly (inString : Str) (ts : List TableId) :
    ReadOnly (lookupIn (D := D) inString ts) := by
  induction ts with
  | nil => exact .pure _
  | cons t ts ih =>
    refine .bind (getTable_readOnly t) fun tbl ↦ ?_
    split
    · exact .pure _
    · exact ih

/-- The table itself comes first, and then its chain. -/
theorem lookup_readOnly (t : TableId) (inString : Str) : ReadOnly (lookup (D := D) t inString) :=
  .bind (getTable_readOnly t) fun _ ↦ lookupIn_readOnly _ _

/-- The definition of the struct is looked up, for an array of structs only. -/
theorem realAdtName_readOnly (t : TableId) (arrayType : UInt32) (adtName : Option Str) :
    ReadOnly (realAdtName (D := D) t arrayType adtName) := by
  refine .ite (.bind (derefName_readOnly _) fun name ↦ .bind (lookup_readOnly t name) fun r ↦ ?_)
    (.pure _)
  split
  · exact .pure _
  · exact .pure _

/-! ### `ADTEqual` -/

/-- Names are compared for arrays of structs only. -/
theorem sameAdtName_readOnly (aType : UInt32) (aAdtName aAdtName' : Option Str) :
    ReadOnly (sameAdtName (D := D) aType aAdtName aAdtName') := by
  refine .ite ?_ (.pure _)
  exact .bind (derefName_readOnly _) fun _ ↦ .bind (derefName_readOnly _) fun _ ↦ .pure _

section Equal

variable [CDouble D] {equal : Ptr → Ptr → Interp D Bool} (hequal : ∀ a b, ReadOnly (equal a b))

include hequal

omit [CDouble D] in
/-- Two arrays are compared, up to the first difference. -/
theorem equalElems_readOnly (as bs : List Ptr) : ReadOnly (equalElems equal as bs) := by
  induction as generalizing bs with
  | nil => exact .pure _
  | cons a as ih =>
    cases bs with
    | nil => exact .pure _
    | cons b bs => exact .bind (hequal a b) fun r ↦ .ite (ih bs) (.pure _)

omit [CDouble D] in
/-- The fields of one struct are compared with those of the other. -/
theorem equalFields_readOnly (other : StrMap Ptr) (fs : List (Str × Ptr)) :
    ReadOnly (equalFields equal other fs) := by
  induction fs with
  | nil => exact .pure _
  | cons f fs ih =>
    rw [equalFields]
    split
    · exact .pure _
    · exact .bind (hequal _ _) fun r ↦ .ite ih (.pure _)

/-- Two nodes are compared, if each call on what they hold only reads. -/
theorem equalNode_readOnly (a b : Node D) : ReadOnly (equalNode equal a b) := by
  unfold equalNode
  split
  · refine .ite (.pure _) (.bind (sameAdtName_readOnly _ _ _) fun r ↦ .ite ?_ (.pure _))
    refine .bind (getVector_readOnly _) fun as ↦ .bind (getVector_readOnly _) fun bs ↦ ?_
    exact .ite (.pure _) (equalElems_readOnly hequal as bs)
  · refine .ite (.pure _) (.bind (getMap_readOnly _) fun as ↦ .bind (getMap_readOnly _) fun bs ↦ ?_)
    exact .ite (.pure _) (equalFields_readOnly hequal bs _)
  · exact .pure _
  · exact .pure _
  · exact .bind (getString_readOnly _) fun s ↦ .bind (getString_readOnly _) fun s' ↦ .pure _
  · exact .pure _

end Equal

variable [CDouble D]

/-- By the depth that is left. -/
theorem equalFuel_readOnly (fuel : ℕ) (a b : Ptr) : ReadOnly (equalFuel (D := D) fuel a b) := by
  induction fuel generalizing a b with
  | zero => exact .throw _
  | succ fuel ih =>
    refine .bind (nodeAt_readOnly a) fun r ↦ .bind (nodeAt_readOnly b) fun r' ↦ ?_
    split
    · exact equalNode_readOnly ih _ _
    · exact .pure _

/-- `ADTEqual` -/
theorem adtEqual_readOnly (a b : Ptr) : ReadOnly (adtEqual (D := D) a b) := equalFuel_readOnly _ a b

/-- A value is compared with each one of a list. -/
theorem anyEqual_readOnly (inNode : Ptr) (ps : List Ptr) :
    ReadOnly (anyEqual (D := D) inNode ps) := by
  induction ps with
  | nil => exact .pure _
  | cons p ps ih => exact .bind (adtEqual_readOnly inNode p) fun r ↦ .ite (.pure _) ih

/-! ### Native functions -/

omit [CDouble D] in
/-- An element that is no int ends it. -/
theorem getInts_readOnly (ps : List Ptr) : ReadOnly (getInts (D := D) ps) := by
  induction ps with
  | nil => exact .pure _
  | cons p ps ih =>
    refine .bind (nodeAt_readOnly p) fun r ↦ ?_
    split
    · exact .bind ih fun _ ↦ .pure _
    · exact .pure _

omit [CDouble D] in
/-- An element that is no double ends it. -/
theorem getDoubles_readOnly (ps : List Ptr) : ReadOnly (getDoubles (D := D) ps) := by
  induction ps with
  | nil => exact .pure _
  | cons p ps ih =>
    refine .bind (nodeAt_readOnly p) fun r ↦ ?_
    split
    · exact .bind ih fun _ ↦ .pure _
    · exact .pure _

omit [CDouble D] in
/-- Ints or doubles, by the type of the array. -/
theorem getNumbers_readOnly (aType : UInt32) (elems : List Ptr) :
    ReadOnly (getNumbers (D := D) aType elems) := by
  refine .ite (.bind (getInts_readOnly elems) fun _ ↦ .pure _) (.ite ?_ (.pure _))
  exact .bind (getDoubles_readOnly elems) fun _ ↦ .pure _

omit [CDouble D] in
/-- The type of the value is compared with that of the elements. -/
theorem isElem_readOnly (aType : UInt32) (aAdtName : Option Str) (p : Ptr) :
    ReadOnly (isElem (D := D) aType aAdtName p) := by
  refine .ite ?_ (.bind (typeOf_readOnly p) fun _ ↦ .pure _)
  exact .bind (derefName_readOnly _) fun _ ↦ .bind (adtTypeName_readOnly p) fun _ ↦ .pure _

end Meridian.MQL.Interp

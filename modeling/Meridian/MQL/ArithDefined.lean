import Meridian.MQL.Arith
import Meridian.Lib.Binary64
import Mathlib.Algebra.Order.Floor.Ring
import Mathlib.Algebra.Ring.Int.Parity

/-!
# Where the arithmetic of MQL is defined

The operators of a received program reach those of C. Four of these are not defined for all operands:
a quotient and a remainder where there is no quotient that is an `int`, and the shifts by a count that
is negative or not below the width. Nor is the conversion of a `double` that has no `int` value.

Here the same functions as in `Arith` return `none` where C leaves the outcome open, with the routing
of `arith_operation` as in the source. `arithInt_of_defined` is the connection: where C defines the
outcome, `arithInt` has it. No helper looks at its operands, so `arith_defined_iff` has to ask for
what they take for granted.
-/

namespace Meridian

/-! ### Conversions to `int` -/

/-- The integers that are an `int`. -/
def IsInt (z : ℤ) : Prop := -2 ^ 31 ≤ z ∧ z < 2 ^ 31

instance (z : ℤ) : Decidable (IsInt z) := inferInstanceAs (Decidable (_ ∧ _))

namespace Lib.Binary64

/-- A cast to `int`, which truncates. -/
def castInt : Binary64 → Option ℤ
  | fin q =>
    let z := if 0 ≤ q then ⌊q⌋ else -⌊-q⌋
    if IsInt z then some z else none
  | _ => none

/-- `lrint`, in the default rounding direction, with the `long` of the target (`Meridian.Ident`). -/
def lrint : Binary64 → Option ℤ
  | fin q => if IsInt (nearestEven q) then some (nearestEven q) else none
  | _ => none

theorem castInt_intCast (z : ℤ) : castInt (fin z) = if IsInt z then some z else none := by
  have htrunc : (if (0 : ℚ) ≤ z then ⌊(z : ℚ)⌋ else -⌊-(z : ℚ)⌋) = z := by
    rw [← Int.cast_neg, Int.floor_intCast, Int.floor_intCast, neg_neg, ite_self]
  simp only [castInt, htrunc]

/-- Half-way to an even number is rounded to it. -/
theorem le_nearestEven_iff {q : ℚ} {n : ℤ} (hn : Even n) :
    n ≤ nearestEven q ↔ (n : ℚ) - 1 / 2 ≤ q := by
  constructor
  · intro h
    have hnear := (abs_le.1 (abs_nearestEven_sub_le q)).2
    have hle : (n : ℚ) ≤ nearestEven q := by exact_mod_cast h
    linarith
  · intro h
    rcases le_or_gt (n : ℚ) q with hle | hlt
    · exact le_nearestEven hle
    · have hfloor : ⌊q⌋ = n - 1 := by
        rw [Int.floor_eq_iff]
        push_cast
        constructor <;> linarith
      have hfract : 1 / 2 ≤ Int.fract q := by
        have hself := Int.floor_add_fract q
        rw [hfloor] at hself
        push_cast at hself
        linarith
      -- the number below is odd, so that a tie goes up as well
      have hodd : (n - 1) % 2 ≠ 0 := by
        obtain ⟨k, rfl⟩ := hn
        omega
      rw [nearestEven, if_neg hfract.not_gt, hfloor, if_neg hodd, ite_self]
      omega

end Lib.Binary64

namespace MQL

open Lib

/-! ### The helpers, as far as C defines them -/

/-- `/`. -/
def cDiv (x y : Int32) : Option Int32 :=
  if y ≠ 0 ∧ IsInt (x.toInt.tdiv y.toInt) then some (x / y) else none

/-- `%`, which has no value where `/` has none. -/
def cMod (x y : Int32) : Option Int32 :=
  if y ≠ 0 ∧ IsInt (x.toInt.tdiv y.toInt) then some (x % y) else none

/-- `<<`. -/
def cShl (x y : Int32) : Option Int32 :=
  if 0 ≤ y.toInt ∧ y.toInt < 32 then some (x <<< y) else none

/-- `>>`. -/
def cShr (x y : Int32) : Option Int32 :=
  if 0 ≤ y.toInt ∧ y.toInt < 32 then some (x >>> y) else none

/-- `opr<int>`. -/
def opr (op : BinOp) (x y : Int32) : Option Int32 :=
  match op with
  | .mul => some (x * y)
  | .add => some (x + y)
  | .sub => some (x - y)
  | .div => cDiv x y
  | _ => some 0

/-- `opr_int_ret<int>`. -/
def oprIntRet (op : BinOp) (x y : Int32) : Int32 :=
  match op with
  | .and => ofBool (x != 0 && y != 0)
  | .or => ofBool (x != 0 || y != 0)
  | .lt => ofBool (x < y)
  | .gt => ofBool (y < x)
  | .le => ofBool (x ≤ y)
  | .ge => ofBool (y ≤ x)
  | .eq => ofBool (x == y)
  | .ne => ofBool (x != y)
  | _ => 0

/-- `opr_int_only`. -/
def oprIntOnly (op : BinOp) (x y : Int32) : Option Int32 :=
  match op with
  | .bitOr => some (x ||| y)
  | .bitAnd => some (x &&& y)
  | .bitXor => some (x ^^^ y)
  | .left => cShl x y
  | .right => cShr x y
  | _ => some 0

/-- The switch of `arith_operation`, on two `INT` nodes. -/
def oprInt (op : BinOp) (x y : Int32) : Option Int32 :=
  match op with
  | .mod => cMod x y
  | .bitAnd | .bitXor | .bitOr | .left | .right => oprIntOnly op x y
  | .and | .or | .lt | .gt | .le | .ge | .eq | .ne => some (oprIntRet op x y)
  | .mul | .add | .sub | .div => opr op x y

/-- `arith_operation` on two `INT` nodes: `none` if it does something that C does not define,
otherwise the value of its node. Without memory for a node it returns the empty token at once. -/
def arithOperationInt (allocated : Bool) (op : BinOp) (x y : Int32) : Option (Option Int32) :=
  if allocated then (oprInt op x y).map some else some none

/-- The number that `ROUND` makes a node of. -/
def evalRound (d : Binary64) : Option ℤ := d.lrint

/-- The number that `CEIL` makes a node of. -/
def evalCeil (d : Binary64) : Option ℤ := d.ceil.castInt

/-- The number that `FLOOR` makes a node of. -/
def evalFloor (d : Binary64) : Option ℤ := d.floor.castInt

/-! ### When they are defined -/

/-- What the operator takes for granted. -/
def BinOp.Takes (op : BinOp) (x y : Int32) : Prop :=
  match op with
  | .div | .mod => y ≠ 0 ∧ ¬ (x = Int32.minValue ∧ y = -1)
  | .left | .right => 0 ≤ y.toInt ∧ y.toInt < 32
  | _ => True

/-- **The only quotient that is no `int`.** -/
theorem isInt_tdiv_iff {a b : ℤ} (ha : IsInt a) (hb : b ≠ 0) :
    IsInt (a.tdiv b) ↔ ¬ (a = -2 ^ 31 ∧ b = -1) := by
  rw [IsInt] at *
  rcases eq_or_ne b (-1) with rfl | hone
  · rw [Int.tdiv_neg, Int.tdiv_one]
    omega
  · refine iff_of_true ?_ fun h ↦ hone h.2
    rcases eq_or_ne b 1 with rfl | hone'
    · rwa [Int.tdiv_one]
    · -- the quotient has at most half the size
      have hsize := Int.natAbs_tdiv a b
      have hhalf : a.natAbs.div b.natAbs ≤ a.natAbs / 2 :=
        Nat.div_le_div_left (by omega) (by decide)
      omega

theorem quotient_iff (x y : Int32) :
    (y ≠ 0 ∧ IsInt (x.toInt.tdiv y.toInt)) ↔ y ≠ 0 ∧ ¬ (x = Int32.minValue ∧ y = -1) := by
  refine and_congr_right fun hy ↦ ?_
  have hzero : y.toInt ≠ 0 := fun h ↦ hy (Int32.toInt_inj.1 h)
  rw [isInt_tdiv_iff ⟨x.le_toInt, x.toInt_lt⟩ hzero, ← Int32.toInt_inj, ← Int32.toInt_inj]
  rfl

theorem isSome_ite {α : Type*} {p : Prop} [Decidable p] {a : α} :
    (if p then some a else none).isSome ↔ p := by
  split <;> simp [*]

/-- No operator checks its operands. -/
theorem oprInt_isSome_iff (op : BinOp) (x y : Int32) : (oprInt op x y).isSome ↔ op.Takes x y := by
  cases op with
  | div => exact isSome_ite.trans (quotient_iff x y)
  | mod => exact isSome_ite.trans (quotient_iff x y)
  | left => exact isSome_ite
  | right => exact isSome_ite
  | _ => exact iff_of_true rfl trivial

/-- **Where C defines the outcome, the machine has it.** -/
theorem arithInt_of_defined {op : BinOp} {x y z : Int32} (h : oprInt op x y = some z) :
    arithInt op x y = .ok z := by
  have htraps : op.Takes x y → op = .div ∨ op = .mod → divTraps x y = false := by
    rintro htakes (rfl | rfl)
    all_goals
      obtain ⟨hy, hmin⟩ := htakes
      rw [divTraps, Bool.or_eq_false_iff, Bool.and_eq_false_iff]
      refine ⟨beq_eq_false_iff_ne.2 hy, ?_⟩
      rw [beq_eq_false_iff_ne, beq_eq_false_iff_ne, ← not_and_or]
      exact hmin
  have htakes := (oprInt_isSome_iff op x y).1 (Option.isSome_iff_exists.2 ⟨z, h⟩)
  cases op with
  | div =>
    rw [arithInt, htraps htakes (.inl rfl), if_neg Bool.false_ne_true]
    rw [oprInt, opr, cDiv, if_pos ((quotient_iff x y).2 htakes)] at h
    exact congrArg _ (Option.some.inj h)
  | mod =>
    rw [arithInt, htraps htakes (.inr rfl), if_neg Bool.false_ne_true]
    rw [oprInt, cMod, if_pos ((quotient_iff x y).2 htakes)] at h
    exact congrArg _ (Option.some.inj h)
  | left =>
    have hcount : 0 ≤ y.toInt ∧ y.toInt < 32 := htakes
    rw [oprInt, oprIntOnly, cShl, if_pos hcount] at h
    exact congrArg _ (Option.some.inj h)
  | right =>
    have hcount : 0 ≤ y.toInt ∧ y.toInt < 32 := htakes
    rw [oprInt, oprIntOnly, cShr, if_pos hcount] at h
    exact congrArg _ (Option.some.inj h)
  | _ => exact congrArg _ (Option.some.inj h)

theorem castInt_isSome_iff {z : ℤ} : (Binary64.castInt (.fin z)).isSome ↔ IsInt z := by
  rw [Binary64.castInt_intCast, isSome_ite]

theorem evalRound_isSome_iff (d : Binary64) :
    (evalRound d).isSome ↔ ∃ q, d = .fin q ∧ -2 ^ 31 - 1 / 2 ≤ q ∧ q < 2 ^ 31 - 1 / 2 := by
  cases d with
  | fin q =>
    have hlow : (-2 ^ 31 : ℤ) ≤ Binary64.nearestEven q ↔ -2 ^ 31 - 1 / 2 ≤ q := by
      rw [Binary64.le_nearestEven_iff (by decide)]
      norm_num
    have hhigh : Binary64.nearestEven q < 2 ^ 31 ↔ q < 2 ^ 31 - 1 / 2 := by
      rw [← not_le, ← not_le, Binary64.le_nearestEven_iff (by decide)]
      norm_num
    simp only [evalRound, Binary64.lrint, isSome_ite, IsInt, hlow, hhigh, Binary64.fin.injEq,
      exists_eq_left']
  | _ => exact iff_of_false (by simp [evalRound, Binary64.lrint]) (by simp)

theorem evalCeil_isSome_iff (d : Binary64) :
    (evalCeil d).isSome ↔ ∃ q, d = .fin q ∧ -2 ^ 31 - 1 < q ∧ q ≤ 2 ^ 31 - 1 := by
  cases d with
  | fin q =>
    have hlow : -2 ^ 31 ≤ ⌈q⌉ ↔ -2 ^ 31 - 1 < q := by
      rw [← Int.sub_one_lt_iff, Int.lt_ceil]
      norm_num
    have hhigh : ⌈q⌉ < 2 ^ 31 ↔ q ≤ 2 ^ 31 - 1 := by
      rw [← Int.le_sub_one_iff, Int.ceil_le]
      norm_num
    simp only [evalCeil, Binary64.ceil, castInt_isSome_iff, IsInt, hlow, hhigh,
      Binary64.fin.injEq, exists_eq_left']
  | _ => exact iff_of_false (by simp [evalCeil, Binary64.ceil, Binary64.castInt]) (by simp)

theorem evalFloor_isSome_iff (d : Binary64) :
    (evalFloor d).isSome ↔ ∃ q, d = .fin q ∧ -2 ^ 31 ≤ q ∧ q < 2 ^ 31 := by
  cases d with
  | fin q =>
    have hlow : -2 ^ 31 ≤ ⌊q⌋ ↔ -2 ^ 31 ≤ q := by
      rw [Int.le_floor]
      norm_num
    have hhigh : ⌊q⌋ < 2 ^ 31 ↔ q < 2 ^ 31 := by
      rw [Int.floor_lt]
      norm_num
    simp only [evalFloor, Binary64.floor, castInt_isSome_iff, IsInt, hlow, hhigh,
      Binary64.fin.injEq, exists_eq_left']
  | _ => exact iff_of_false (by simp [evalFloor, Binary64.floor, Binary64.castInt]) (by simp)

/-- **When the arithmetic is defined.** A binary operator on two `INT` nodes, exactly if no node can
be allocated or the operator is given what it takes for granted; `round`, `ceil` and `floor`, exactly
for the numbers that they round into the range of `int`. -/
theorem arith_defined_iff (allocated : Bool) (op : BinOp) (x y : Int32) (d : Binary64) :
    ((arithOperationInt allocated op x y).isSome ↔ allocated = false ∨ op.Takes x y) ∧
      ((evalRound d).isSome ↔ ∃ q, d = .fin q ∧ -2 ^ 31 - 1 / 2 ≤ q ∧ q < 2 ^ 31 - 1 / 2) ∧
      ((evalCeil d).isSome ↔ ∃ q, d = .fin q ∧ -2 ^ 31 - 1 < q ∧ q ≤ 2 ^ 31 - 1) ∧
      ((evalFloor d).isSome ↔ ∃ q, d = .fin q ∧ -2 ^ 31 ≤ q ∧ q < 2 ^ 31) := by
  refine ⟨?_, evalRound_isSome_iff d, evalCeil_isSome_iff d, evalFloor_isSome_iff d⟩
  cases allocated with
  | false => exact iff_of_true rfl (.inl rfl)
  | true =>
    rw [arithOperationInt, if_pos rfl, Option.isSome_map, oprInt_isSome_iff]
    simp

/-- Every one of the unguarded operations can be reached. -/
theorem arith_undefined :
    arithOperationInt true .div 1 0 = none ∧ arithOperationInt true .mod 1 0 = none ∧
      arithOperationInt true .div Int32.minValue (-1) = none ∧
      arithOperationInt true .mod Int32.minValue (-1) = none ∧
      arithOperationInt true .left 1 32 = none ∧ arithOperationInt true .right 1 (-1) = none ∧
      evalRound .nan = none ∧ evalCeil (.inf false) = none ∧ evalFloor (.fin (2 ^ 31)) = none := by
  refine ⟨by decide, by decide, by decide, by decide, by decide, by decide, rfl, rfl, ?_⟩
  rw [← Option.not_isSome_iff_eq_none, evalFloor_isSome_iff]
  simp

end MQL

end Meridian

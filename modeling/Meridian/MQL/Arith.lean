import Meridian.MQL.State

/-!
# Arithmetic of MQL

`opr`, `opr_int_ret` and `opr_int_only` of `MeridianDSL.cpp`. An `int` wraps at 32 bits, a shift uses
the low five bits of its count, and a division that the processor refuses is a trap.

The operations on `double` are those of the machine and of the C library: any type with them.
-/

namespace Meridian.MQL

/-- The operations of `double`. -/
class CDouble (D : Type) where
  zero : D
  infinity : D
  negInfinity : D
  ofInt : Int32 → D
  ofUInt : UInt32 → D
  add : D → D → D
  sub : D → D → D
  mul : D → D → D
  div : D → D → D
  fmod : D → D → D
  pow : D → D → D
  lt : D → D → Bool
  le : D → D → Bool
  eq : D → D → Bool
  math : MathFunc → D → D
  ceil : D → D
  floor : D → D
  lrint : D → Int32
  toInt : D → Int32
  toUInt : D → UInt32

/-- A comparison as an `int`. -/
def ofBool (b : Bool) : Int32 := if b then 1 else 0

/-- `idiv` faults. -/
def divTraps (x y : Int32) : Bool := y == 0 || (x == Int32.minValue && y == -1)

/-- The value of a binary operator on two `INT` nodes. -/
def arithInt (op : BinOp) (x y : Int32) : Except Fault Int32 :=
  match op with
  | .mod => if divTraps x y then .error .trap else .ok (x % y)
  | .bitAnd => .ok (x &&& y)
  | .bitXor => .ok (x ^^^ y)
  | .bitOr => .ok (x ||| y)
  | .left => .ok (x <<< y)
  | .right => .ok (x >>> y)
  | .and => .ok (ofBool (x != 0 && y != 0))
  | .or => .ok (ofBool (x != 0 || y != 0))
  | .lt => .ok (ofBool (x < y))
  | .gt => .ok (ofBool (y < x))
  | .le => .ok (ofBool (x ≤ y))
  | .ge => .ok (ofBool (y ≤ x))
  | .eq => .ok (ofBool (x == y))
  | .ne => .ok (ofBool (x != y))
  | .mul => .ok (x * y)
  | .add => .ok (x + y)
  | .sub => .ok (x - y)
  | .div => if divTraps x y then .error .trap else .ok (x / y)

section Double

variable {D : Type} [CDouble D]

/-- `d != 0`. -/
def isTrue (d : D) : Bool := !CDouble.eq d CDouble.zero

/-- The node of a binary operator on two `DOUBLE` nodes; `none` for an operator on `int` only. -/
def arithDouble (op : BinOp) (x y : D) : Option (Node D) :=
  match op with
  | .mod => some (.double (CDouble.fmod x y))
  | .bitAnd | .bitXor | .bitOr | .left | .right => none
  | .and => some (.int (ofBool (isTrue x && isTrue y)))
  | .or => some (.int (ofBool (isTrue x || isTrue y)))
  | .lt => some (.int (ofBool (CDouble.lt x y)))
  | .gt => some (.int (ofBool (CDouble.lt y x)))
  | .le => some (.int (ofBool (CDouble.le x y)))
  | .ge => some (.int (ofBool (CDouble.le y x)))
  | .eq => some (.int (ofBool (CDouble.eq x y)))
  | .ne => some (.int (ofBool (!CDouble.eq x y)))
  | .mul => some (.double (CDouble.mul x y))
  | .add => some (.double (CDouble.add x y))
  | .sub => some (.double (CDouble.sub x y))
  | .div => some (.double (CDouble.div x y))

end Double

end Meridian.MQL

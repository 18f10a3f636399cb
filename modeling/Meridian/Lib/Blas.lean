import Mathlib.LinearAlgebra.Matrix.DotProduct

/-!
# Level 1 BLAS in exact arithmetic

The calls on vectors of `n` entries that lie one after another in an array, from an offset on. A call
that leaves the array is undefined (`none`). The arithmetic is that of a field, so the order in which
the entries are summed up does not matter.

`write_spec` is all that is said about the array: a vector that is written is read back, and what does
not overlap with it stays.
-/

namespace Meridian.Lib.Blas

variable {K : Type*} {n m off off' : ℕ} {a : Array K} {x : Fin n → K}

/-- The vector at an offset. -/
def read (a : Array K) (off n : ℕ) : Option (Fin n → K) :=
  if h : off + n ≤ a.size then some fun j ↦ a[off + j] else none

/-- A vector is written at an offset. -/
def write (x : Fin n → K) (a : Array K) (off : ℕ) : Option (Array K) :=
  if off + n ≤ a.size then
    some (Array.ofFn fun p : Fin a.size ↦
      if h : off ≤ p ∧ p < off + n then x ⟨p - off, by omega⟩ else a[p])
  else none

/-- `dcopy`. -/
def dcopy (x : Fin n → K) (a : Array K) (off : ℕ) : Option (Array K) := write x a off

/-- What is in the array at other places than a vector that is written. -/
theorem write_spec (hroom : off + n ≤ a.size) (x : Fin n → K) :
    ∃ a', write x a off = some a' ∧ a'.size = a.size ∧ read a' off n = some x ∧
      ∀ off' m, off' + m ≤ off ∨ off + n ≤ off' → read a' off' m = read a off' m := by
  refine ⟨_, if_pos hroom, Array.size_ofFn, ?_, fun off' m hdisj ↦ ?_⟩
  · rw [read, dif_pos (by rwa [Array.size_ofFn])]
    congr 1
    funext j
    have hin : off ≤ off + j.val ∧ off + j.val < off + n := by omega
    rw [Array.getElem_ofFn, dif_pos hin]
    congr 1
    exact Fin.ext (Nat.add_sub_cancel_left off j)
  · simp only [read, Array.size_ofFn]
    split
    · next h =>
      congr 1
      funext j
      have hout : ¬ (off ≤ off' + j.val ∧ off' + j.val < off + n) := by omega
      rw [Array.getElem_ofFn, dif_neg hout]
      rfl
    · rfl

section Field

variable [Field K]

/-- `ddot`. -/
def ddot (x y : Fin n → K) : K := dotProduct x y

/-- `daxpy`: `alpha * x` is added to the vector at an offset. -/
def daxpy (alpha : K) (x : Fin n → K) (a : Array K) (off : ℕ) : Option (Array K) :=
  (read a off n).bind fun y ↦ write (alpha • x + y) a off

/-- `dscal`: the vector of `n` entries at an offset is multiplied. -/
def dscal (n : ℕ) (alpha : K) (a : Array K) (off : ℕ) : Option (Array K) :=
  (read a off n).bind fun y ↦ write (alpha • y) a off

/-- `dnrm2`, with a square root. -/
def dnrm2 (sqrt : K → K) (x : Fin n → K) : K := sqrt (dotProduct x x)

end Field

end Meridian.Lib.Blas

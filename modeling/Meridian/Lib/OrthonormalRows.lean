import Mathlib.LinearAlgebra.Matrix.DotProduct
import Mathlib.LinearAlgebra.Dimension.Constructions
import Mathlib.LinearAlgebra.FiniteDimensional.Lemmas

/-!
# Orthonormal rows, one after another

Lists of vectors over an ordered field that are pairwise orthogonal and of length 1, as a procedure
builds them that takes one vector after another, subtracts its projections on the rows so far, and
keeps what is left over if that is not zero.

* `leftOver` is the loop of the projections. With orthonormal rows it is orthogonal to all of them
  (`dotProduct_leftOver`), and zero just for the linear combinations of them
  (`leftOver_eq_zero_iff`).
* A vector that is orthogonal to the rows, divided by its length, is another row
  (`IsOrthonormal.concat`).
* There are at most as many rows as dimensions, and as many span everything
  (`IsOrthonormal.length_le`, `IsOrthonormal.span_eq_top`).
-/

namespace Meridian.Lib

open Submodule

section Field

variable {K ι : Type*} [Field K]

/-- The linear combinations of the rows. -/
def rowSpan (rows : List (ι → K)) : Submodule K (ι → K) := span K {r | r ∈ rows}

theorem mem_rowSpan {rows : List (ι → K)} {r : ι → K} (h : r ∈ rows) : r ∈ rowSpan rows :=
  subset_span h

theorem rowSpan_mono {rows rows' : List (ι → K)} (h : ∀ r ∈ rows, r ∈ rows') :
    rowSpan rows ≤ rowSpan rows' := span_mono h

variable [Fintype ι]

/-- The vectors are pairwise orthogonal, and each is of length 1. -/
structure IsOrthonormal (rows : List (ι → K)) : Prop where
  unit : ∀ r ∈ rows, dotProduct r r = 1
  pairwise : rows.Pairwise fun r r' ↦ dotProduct r r' = 0

/-- One step of the projections: `w` is what is left of `v` so far. -/
def subtractProjection (v w r : ι → K) : ι → K := w - dotProduct v r • r

/-- What is left of `v` without its projections on the rows. -/
def leftOver (rows : List (ι → K)) (v : ι → K) : ι → K := rows.foldl (subtractProjection v) v

variable {rows : List (ι → K)} {v w r : ι → K}

/-! ### The loop of the projections -/

/-- What the loop subtracts is a linear combination of the rows. -/
theorem sub_foldl_mem (v w : ι → K) (rows : List (ι → K)) :
    w - rows.foldl (subtractProjection v) w ∈ rowSpan rows := by
  induction rows generalizing w with
  | nil =>
    rw [List.foldl_nil, sub_self]
    exact zero_mem _
  | cons r rows ih =>
    have hrest : subtractProjection v w r - rows.foldl (subtractProjection v)
        (subtractProjection v w r) ∈ rowSpan (r :: rows) :=
      rowSpan_mono (fun _ h ↦ List.mem_cons_of_mem r h) (ih _)
    have hfirst : dotProduct v r • r ∈ rowSpan (r :: rows) :=
      smul_mem _ _ (mem_rowSpan List.mem_cons_self)
    have hsum := add_mem hfirst hrest
    rwa [subtractProjection, add_sub_assoc', add_sub_cancel] at hsum

theorem sub_leftOver_mem (rows : List (ι → K)) (v : ι → K) : v - leftOver rows v ∈ rowSpan rows :=
  sub_foldl_mem v v rows

/-- A step does not change the product with a vector that is orthogonal to its row. -/
theorem foldl_dotProduct_of_orthogonal (v w : ι → K) {u : ι → K}
    (h : ∀ r ∈ rows, dotProduct r u = 0) :
    dotProduct (rows.foldl (subtractProjection v) w) u = dotProduct w u := by
  induction rows generalizing w with
  | nil => rfl
  | cons r rows ih =>
    rw [List.foldl_cons, ih _ fun r' hr' ↦ h r' (List.mem_cons_of_mem r hr'), subtractProjection,
      sub_dotProduct, smul_dotProduct, h r List.mem_cons_self, smul_zero, sub_zero]

/-- **The loop subtracts the product with each row once.** -/
theorem foldl_dotProduct (hrows : IsOrthonormal rows) (v w : ι → K) (hr : r ∈ rows) :
    dotProduct (rows.foldl (subtractProjection v) w) r = dotProduct w r - dotProduct v r := by
  induction rows generalizing w with
  | nil => exact absurd hr List.not_mem_nil
  | cons first rows ih =>
    obtain ⟨hunit, hpair⟩ := hrows
    rw [List.pairwise_cons] at hpair
    have hrest : IsOrthonormal rows :=
      ⟨fun r hr ↦ hunit r (List.mem_cons_of_mem first hr), hpair.2⟩
    rw [List.foldl_cons]
    rcases List.mem_cons.1 hr with rfl | hr
    · -- The row itself: its own step subtracts the product, and the others nothing.
      have horth : ∀ r' ∈ rows, dotProduct r' r = 0 := by
        intro r' hr'
        rw [dotProduct_comm]
        exact hpair.1 r' hr'
      rw [foldl_dotProduct_of_orthogonal v _ horth, subtractProjection, sub_dotProduct,
        smul_dotProduct, hunit r List.mem_cons_self, smul_eq_mul, mul_one]
    · rw [ih hrest _ hr, subtractProjection, sub_dotProduct, smul_dotProduct, hpair.1 r hr,
        smul_zero, sub_zero]

/-- **What is left is orthogonal to the rows.** -/
theorem dotProduct_leftOver (hrows : IsOrthonormal rows) (v : ι → K) (hr : r ∈ rows) :
    dotProduct (leftOver rows v) r = 0 := by
  rw [leftOver, foldl_dotProduct hrows v v hr, sub_self]

/-- A vector that is orthogonal to the rows is so to their linear combinations. -/
theorem dotProduct_eq_zero_of_mem_rowSpan (h : ∀ r ∈ rows, dotProduct w r = 0) (hv : v ∈ rowSpan rows) :
    dotProduct w v = 0 := by
  induction hv using span_induction with
  | mem r hr => exact h r hr
  | zero => exact dotProduct_zero w
  | add x y _ _ hx hy => rw [dotProduct_add, hx, hy, add_zero]
  | smul a x _ hx => rw [dotProduct_smul, hx, smul_zero]

/-! ### Another row -/

theorem isOrthonormal_nil : IsOrthonormal ([] : List (ι → K)) :=
  ⟨fun _ h ↦ absurd h List.not_mem_nil, List.Pairwise.nil⟩

/-- **A vector that is orthogonal to the rows, divided by its length**, is another row. -/
theorem IsOrthonormal.concat (hrows : IsOrthonormal rows) (horth : ∀ r ∈ rows, dotProduct w r = 0)
    {norm : K} (hnorm : norm * norm = dotProduct w w) (hne : norm ≠ 0) :
    IsOrthonormal (rows ++ [(1 / norm) • w]) where
  unit r hr := by
    rcases List.mem_append.1 hr with hr | hr
    · exact hrows.unit r hr
    · rw [List.mem_singleton.1 hr, smul_dotProduct, dotProduct_smul, ← hnorm, smul_eq_mul, smul_eq_mul]
      field_simp
  pairwise := by
    refine List.pairwise_append.2 ⟨hrows.pairwise, List.pairwise_singleton _ _, ?_⟩
    intro r hr w' hw'
    rw [List.mem_singleton.1 hw', dotProduct_smul, dotProduct_comm, horth r hr, smul_zero]

/-- With what is left of it as another row, a vector is a linear combination. -/
theorem mem_rowSpan_concat {norm : K} (hne : norm ≠ 0) :
    v ∈ rowSpan (rows ++ [(1 / norm) • leftOver rows v]) := by
  have hmono := rowSpan_mono fun r (hr : r ∈ rows) ↦
    List.mem_append_left [(1 / norm) • leftOver rows v] hr
  have hscaled : norm • (1 / norm) • leftOver rows v ∈
      rowSpan (rows ++ [(1 / norm) • leftOver rows v]) :=
    smul_mem _ _ (mem_rowSpan (List.mem_append_right rows (List.mem_singleton_self _)))
  have hsum := add_mem (hmono (sub_leftOver_mem rows v)) hscaled
  rwa [smul_smul, mul_one_div_cancel hne, one_smul, sub_add_cancel] at hsum

/-! ### How many rows there are -/

/-- Orthonormal rows are linearly independent. -/
theorem IsOrthonormal.linearIndependent (hrows : IsOrthonormal rows) :
    LinearIndependent K rows.get := by
  have hget : ∀ i j, dotProduct (rows.get i) (rows.get j) = if i = j then 1 else 0 := by
    intro i j
    rcases lt_trichotomy i j with hlt | rfl | hlt
    · rw [if_neg hlt.ne]
      exact List.pairwise_iff_get.1 hrows.pairwise i j hlt
    · rw [if_pos rfl]
      exact hrows.unit _ (List.get_mem rows i)
    · rw [if_neg hlt.ne', dotProduct_comm]
      exact List.pairwise_iff_get.1 hrows.pairwise j i hlt
  rw [Fintype.linearIndependent_iff]
  intro c hc i
  -- The product of the combination with a row is the coefficient of that row.
  have hdot := congrArg (dotProduct · (rows.get i)) hc
  simp only [sum_dotProduct, smul_dotProduct, hget, zero_dotProduct, smul_eq_mul, mul_ite, mul_one,
    mul_zero, Finset.sum_ite_eq', Finset.mem_univ, if_true] at hdot
  exact hdot

theorem IsOrthonormal.length_le (hrows : IsOrthonormal rows) : rows.length ≤ Fintype.card ι := by
  have h := hrows.linearIndependent.fintype_card_le_finrank
  rwa [Fintype.card_fin, Module.finrank_fintype_fun_eq_card] at h

/-- As many rows as dimensions span everything. -/
theorem IsOrthonormal.span_eq_top (hrows : IsOrthonormal rows)
    (hlen : rows.length = Fintype.card ι) : rowSpan rows = ⊤ := by
  have h := hrows.linearIndependent.span_eq_top_of_card_eq_finrank' (by
    rw [Fintype.card_fin, Module.finrank_fintype_fun_eq_card, hlen])
  rwa [Set.range_list_get] at h

end Field

/-- **Nothing is left just of a linear combination of the rows.** -/
theorem leftOver_eq_zero_iff {K ι : Type*} [Field K] [LinearOrder K] [IsStrictOrderedRing K]
    [Fintype ι] {rows : List (ι → K)} {v : ι → K} (hrows : IsOrthonormal rows) :
    leftOver rows v = 0 ↔ v ∈ rowSpan rows := by
  have hsub := sub_leftOver_mem rows v
  constructor
  · intro h
    rwa [h, sub_zero] at hsub
  · intro hv
    have hmem : leftOver rows v ∈ rowSpan rows := by
      have hdiff := sub_mem hv hsub
      rwa [sub_sub_cancel] at hdiff
    rw [← dotProduct_self_eq_zero]
    exact dotProduct_eq_zero_of_mem_rowSpan (fun r hr ↦ dotProduct_leftOver hrows v hr) hmem

end Meridian.Lib

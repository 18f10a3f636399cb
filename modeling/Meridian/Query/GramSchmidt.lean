import Mathlib.Analysis.Real.Sqrt
import Meridian.Lib.Blas
import Meridian.Lib.OrthonormalRows

/-!
# The Gram-Schmidt procedure

`GramSchmidtOpt`, with the BLAS calls and the operations on doubles read as exact arithmetic. The
field and its square root are parameters; the last theorem is about the reals.

* The projections of a vector on the rows are subtracted in the memory of the next row, while the
  products are taken with the vector itself. `projections_eq` says that the loop leaves there what is
  left of the vector without them.
* A vector of which nothing is left is a linear combination of the rows, so there is no division by a
  norm that is zero (`addVector_spec`). Such a division would be undefined here.
-/

namespace Meridian

open Lib

/-- The members of a `GramSchmidtOpt`. -/
structure GramSchmidtOpt (K : Type) (gsSize : ℕ) where
  orthVectors : Array K
  numRows : ℕ

namespace GramSchmidtOpt

variable {K : Type} [Field K] [DecidableEq K] {gsSize : ℕ}

/-- The constructor. The memory is as `malloc` returns it. -/
def new (memory : ℕ → K) : GramSchmidtOpt K gsSize where
  orthVectors := Array.ofFn fun p : Fin (gsSize * gsSize) ↦ memory p
  numRows := 0

/-- The loop over the rows, in `addVector`: the projection on row `i` is subtracted from the next
row. -/
def project (inVector : Fin gsSize → K) (numRows : ℕ) (orthVectors : Array K) (i : ℕ) :
    Option (Array K) :=
  (Blas.read orthVectors (i * gsSize) gsSize).bind fun row ↦
    let topValue := Blas.ddot inVector row
    Blas.daxpy (-1 * topValue) row orthVectors (numRows * gsSize)

/-- `1.0 / norm`. -/
def reciprocal (norm : K) : Option K := if norm = 0 then none else some (1 / norm)

/-- `addVector`. The last loop looks for an entry that is not zero, and ends with it. -/
def addVector (sqrt : K → K) (inVector : Fin gsSize → K) (gs : GramSchmidtOpt K gsSize) :
    Option (GramSchmidtOpt K gsSize) :=
  if gsSize ≤ gs.numRows then some gs
  else do
    let orthVectors ← Blas.dcopy inVector gs.orthVectors (gs.numRows * gsSize)
    let orthVectors ← (List.range gs.numRows).foldlM (project inVector gs.numRows) orthVectors
    let row ← Blas.read orthVectors (gs.numRows * gsSize) gsSize
    if ∃ i, row i ≠ 0 then do
      let alpha ← reciprocal (Blas.dnrm2 sqrt row)
      let orthVectors ← Blas.dscal gsSize alpha orthVectors (gs.numRows * gsSize)
      some ⟨orthVectors, gs.numRows + 1⟩
    else some ⟨orthVectors, gs.numRows⟩

/-- `returnOrth`. -/
def returnOrth (gs : GramSchmidtOpt K gsSize) : Array K × ℕ := (gs.orthVectors, gs.numRows)

/-- A sequence of calls. -/
def addVectors (sqrt : K → K) : List (Fin gsSize → K) → GramSchmidtOpt K gsSize →
    Option (GramSchmidtOpt K gsSize)
  | [], gs => some gs
  | inVector :: rest, gs => (gs.addVector sqrt inVector).bind (addVectors sqrt rest)

/-! ### The rows in the memory -/

/-- The memory has these rows. -/
structure Stores (orthVectors : Array K) (rows : List (Fin gsSize → K)) : Prop where
  size : orthVectors.size = gsSize * gsSize
  row : ∀ i (h : i < rows.length), Blas.read orthVectors (i * gsSize) gsSize = some rows[i]

variable {rows : List (Fin gsSize → K)} {orthVectors : Array K} {v w : Fin gsSize → K}

omit [Field K] [DecidableEq K] in
theorem row_end_le {i r : ℕ} (h : i < r) : i * gsSize + gsSize ≤ r * gsSize := by
  rw [← Nat.succ_mul]
  exact Nat.mul_le_mul_right gsSize h

omit [Field K] [DecidableEq K] in
/-- A vector is written behind the rows. -/
theorem Stores.write (h : Stores orthVectors rows) (hlt : rows.length < gsSize)
    (v : Fin gsSize → K) :
    ∃ orthVectors', Blas.write v orthVectors (rows.length * gsSize) = some orthVectors' ∧
      Stores orthVectors' rows ∧
      Blas.read orthVectors' (rows.length * gsSize) gsSize = some v := by
  have hroom : rows.length * gsSize + gsSize ≤ orthVectors.size := by
    rw [h.size]
    exact row_end_le hlt
  obtain ⟨orthVectors', hwrite, hsize, hread, hother⟩ := Blas.write_spec hroom v
  refine ⟨orthVectors', hwrite, ⟨hsize.trans h.size, fun i hi ↦ ?_⟩, hread⟩
  rw [hother _ _ (.inl (row_end_le hi))]
  exact h.row i hi

omit [Field K] [DecidableEq K] in
/-- The vector behind the rows becomes one of them. -/
theorem Stores.concat (h : Stores orthVectors rows)
    (hv : Blas.read orthVectors (rows.length * gsSize) gsSize = some v) :
    Stores orthVectors (rows ++ [v]) := by
  refine ⟨h.size, fun i hi ↦ ?_⟩
  rcases Nat.lt_or_ge i rows.length with hlt | hge
  · rw [h.row i hlt, List.getElem_append_left hlt]
  · have hlast : i = rows.length := by
      rw [List.length_append, List.length_singleton] at hi
      omega
    subst hlast
    rw [hv, List.getElem_concat_length rfl]

omit [DecidableEq K] in
/-- **The loop of the projections.** Behind the rows it leaves what is left of the vector. -/
theorem projections_eq (h : Stores orthVectors rows) (hlt : rows.length < gsSize)
    (hw : Blas.read orthVectors (rows.length * gsSize) gsSize = some w) (v : Fin gsSize → K) :
    ∀ i ≤ rows.length, ∃ orthVectors',
      (List.range i).foldlM (project v rows.length) orthVectors = some orthVectors' ∧
      Stores orthVectors' rows ∧
      Blas.read orthVectors' (rows.length * gsSize) gsSize =
        some ((rows.take i).foldl (subtractProjection v) w) := by
  intro i
  induction i with
  | zero => exact fun _ ↦ ⟨orthVectors, rfl, h, hw⟩
  | succ i ih =>
    intro hi
    obtain ⟨orthVectors₁, hloop, h₁, hrow⟩ := ih (Nat.le_of_succ_le hi)
    obtain ⟨orthVectors₂, hwrite, h₂, hread⟩ := h₁.write hlt
      ((-1 * Blas.ddot v rows[i]) • rows[i] + (rows.take i).foldl (subtractProjection v) w)
    refine ⟨orthVectors₂, ?_, h₂, ?_⟩
    · rw [List.range_succ, List.foldlM_append, hloop]
      show (project v rows.length orthVectors₁ i).bind _ = _
      rw [project, h₁.row i hi]
      show ((Blas.daxpy _ rows[i] orthVectors₁ _).bind _) = _
      rw [Blas.daxpy, hrow]
      show ((Blas.write _ orthVectors₁ _).bind _) = _
      rw [hwrite]
      rfl
    · rw [hread, List.take_succ_eq_append_getElem hi, List.foldl_append]
      congr 1
      show _ = subtractProjection v _ rows[i]
      rw [subtractProjection, Blas.ddot, neg_one_mul, neg_smul, neg_add_eq_sub]

/-! ### A call -/

/-- What holds after calls with the vectors `vs`: the rows are orthonormal, and the vectors are linear
combinations of them. -/
structure Sound (gs : GramSchmidtOpt K gsSize) (rows vs : List (Fin gsSize → K)) : Prop where
  numRows_eq : gs.numRows = rows.length
  stores : Stores gs.orthVectors rows
  orthonormal : IsOrthonormal rows
  spans : ∀ v ∈ vs, v ∈ rowSpan rows

omit [DecidableEq K] in
theorem sound_new (memory : ℕ → K) : (new memory : GramSchmidtOpt K gsSize).Sound [] [] where
  numRows_eq := rfl
  stores := ⟨Array.size_ofFn, fun i h ↦ absurd h (Nat.not_lt_zero i)⟩
  orthonormal := isOrthonormal_nil
  spans := fun _ h ↦ absurd h List.not_mem_nil

end GramSchmidtOpt

namespace GramSchmidtOpt

variable {K : Type} [Field K] [LinearOrder K] [IsStrictOrderedRing K] {gsSize : ℕ} {sqrt : K → K}
  {gs : GramSchmidtOpt K gsSize} {rows vs : List (Fin gsSize → K)}

/-- **A call.** It puts the vector into the span of the rows, and adds a row only if it is not there
already. No norm that is zero is divided by, and nothing outside the memory is accessed. -/
theorem addVector_spec (hsqrt : ∀ x, 0 ≤ x → sqrt x * sqrt x = x) (h : gs.Sound rows vs)
    (v : Fin gsSize → K) :
    ∃ gs' rows', gs.addVector sqrt v = some gs' ∧ gs'.Sound rows' (vs ++ [v]) ∧
      (v ∈ rowSpan rows → rows' = rows) := by
  have hle : rows.length ≤ gsSize := by
    have hcard := h.orthonormal.length_le
    rwa [Fintype.card_fin] at hcard
  have hspans : ∀ {rows'}, (∀ r ∈ rows, r ∈ rows') → v ∈ rowSpan rows' →
      ∀ u ∈ vs ++ [v], u ∈ rowSpan rows' := by
    intro rows' hsub hv u hu
    rcases List.mem_append.1 hu with hu | hu
    · exact rowSpan_mono hsub (h.spans u hu)
    · rwa [List.mem_singleton.1 hu]
  rw [addVector, h.numRows_eq]
  by_cases hfull : gsSize ≤ rows.length
  · -- There are as many rows as dimensions.
    have htop : rowSpan rows = ⊤ :=
      h.orthonormal.span_eq_top (by rw [Fintype.card_fin]; exact Nat.le_antisymm hle hfull)
    have hv : v ∈ rowSpan rows := by
      rw [htop]
      exact Submodule.mem_top
    rw [if_pos hfull]
    exact ⟨gs, rows, rfl, ⟨h.numRows_eq, h.stores, h.orthonormal, hspans (fun _ hr ↦ hr) hv⟩,
      fun _ ↦ rfl⟩
  · have hlt : rows.length < gsSize := Nat.lt_of_not_le hfull
    obtain ⟨a₁, hcopy, h₁, hread₁⟩ := h.stores.write hlt v
    obtain ⟨a₂, hloop, h₂, hread₂⟩ := projections_eq h₁ hlt hread₁ v rows.length (Nat.le_refl _)
    rw [List.take_length, ← leftOver] at hread₂
    have hcopy' : Blas.dcopy v gs.orthVectors (rows.length * gsSize) = some a₁ := hcopy
    rw [if_neg hfull, hcopy', Option.bind_eq_bind, Option.bind_some, hloop, Option.bind_eq_bind,
      Option.bind_some, hread₂, Option.bind_eq_bind, Option.bind_some]
    by_cases hzero : leftOver rows v = 0
    · have hnone : ¬ ∃ i, leftOver rows v i ≠ 0 := by
        rw [hzero]
        rintro ⟨i, hi⟩
        exact hi rfl
      have hv := (leftOver_eq_zero_iff h.orthonormal).1 hzero
      rw [if_neg hnone]
      exact ⟨_, rows, rfl, ⟨rfl, h₂, h.orthonormal, hspans (fun _ hr ↦ hr) hv⟩, fun _ ↦ rfl⟩
    · have hnorm : Blas.dnrm2 sqrt (leftOver rows v) * Blas.dnrm2 sqrt (leftOver rows v) =
          dotProduct (leftOver rows v) (leftOver rows v) :=
        hsqrt _ (Finset.sum_nonneg fun i _ ↦ mul_self_nonneg _)
      have hne : Blas.dnrm2 sqrt (leftOver rows v) ≠ 0 := by
        intro hnorm0
        rw [hnorm0, mul_zero] at hnorm
        exact hzero (dotProduct_self_eq_zero.1 hnorm.symm)
      obtain ⟨a₃, hwrite, h₃, hread₃⟩ :=
        h₂.write hlt ((1 / Blas.dnrm2 sqrt (leftOver rows v)) • leftOver rows v)
      have hscal : Blas.dscal gsSize (1 / Blas.dnrm2 sqrt (leftOver rows v)) a₂
          (rows.length * gsSize) = some a₃ := by
        rw [Blas.dscal, hread₂]
        exact hwrite
      have hsome : ∃ i, leftOver rows v i ≠ 0 := Function.ne_iff.1 hzero
      rw [if_pos hsome, reciprocal, if_neg hne, Option.bind_some, hscal,
        Option.bind_some]
      refine ⟨_, _, rfl, ⟨?_, h₃.concat hread₃, ?_, ?_⟩, fun hv ↦ ?_⟩
      · rw [List.length_append, List.length_singleton]
      · exact h.orthonormal.concat (fun r hr ↦ dotProduct_leftOver h.orthonormal v hr) hnorm hne
      · exact hspans (fun r hr ↦ List.mem_append_left _ hr) (mem_rowSpan_concat hne)
      · exact absurd ((leftOver_eq_zero_iff h.orthonormal).2 hv) hzero

/-- **A sequence of calls** keeps that. -/
theorem addVectors_spec (hsqrt : ∀ x, 0 ≤ x → sqrt x * sqrt x = x) (h : gs.Sound rows vs)
    (more : List (Fin gsSize → K)) :
    ∃ gs' rows', gs.addVectors sqrt more = some gs' ∧ gs'.Sound rows' (vs ++ more) := by
  induction more generalizing gs rows vs with
  | nil =>
    rw [List.append_nil]
    exact ⟨gs, rows, rfl, h⟩
  | cons v more ih =>
    obtain ⟨gs₁, rows₁, hcall, h₁, -⟩ := addVector_spec hsqrt h v
    obtain ⟨gs₂, rows₂, hcalls, h₂⟩ := ih h₁
    rw [List.append_assoc] at h₂
    refine ⟨gs₂, rows₂, ?_, h₂⟩
    rw [addVectors, hcall]
    exact hcalls

end GramSchmidtOpt

/-- **The Gram-Schmidt basis.** After any calls the rows are pairwise orthogonal unit vectors, at most
as many as the vectors have entries, and every vector of the calls is a linear combination of them. A
call with such a vector adds no row. -/
theorem gramSchmidt_basis (gsSize : ℕ) (memory : ℕ → ℝ) (vs : List (Fin gsSize → ℝ)) :
    ∃ (gs : GramSchmidtOpt ℝ gsSize) (rows : List (Fin gsSize → ℝ)),
      (GramSchmidtOpt.new memory).addVectors Real.sqrt vs = some gs ∧
      gs.returnOrth.2 = rows.length ∧ rows.length ≤ gsSize ∧
      (∀ i (h : i < rows.length),
        Blas.read gs.returnOrth.1 (i * gsSize) gsSize = some rows[i]) ∧
      (∀ r ∈ rows, dotProduct r r = 1) ∧ rows.Pairwise (fun r r' ↦ dotProduct r r' = 0) ∧
      (∀ v ∈ vs, v ∈ Submodule.span ℝ {r | r ∈ rows}) ∧
      ∀ v ∈ Submodule.span ℝ {r | r ∈ rows}, ∃ gs', gs.addVector Real.sqrt v = some gs' ∧
        gs'.returnOrth.2 = gs.returnOrth.2 := by
  have hsqrt : ∀ x : ℝ, 0 ≤ x → Real.sqrt x * Real.sqrt x = x := fun x hx ↦ Real.mul_self_sqrt hx
  obtain ⟨gs, rows, hcalls, h⟩ :=
    GramSchmidtOpt.addVectors_spec hsqrt (GramSchmidtOpt.sound_new memory) vs
  have hle := h.orthonormal.length_le
  rw [Fintype.card_fin] at hle
  refine ⟨gs, rows, hcalls, h.numRows_eq, hle, h.stores.row, h.orthonormal.unit,
    h.orthonormal.pairwise, h.spans, fun v hv ↦ ?_⟩
  obtain ⟨gs', rows', hcall, h', hsame⟩ := GramSchmidtOpt.addVector_spec hsqrt h v
  refine ⟨gs', hcall, ?_⟩
  show gs'.numRows = gs.numRows
  rw [h'.numRows_eq, h.numRows_eq, hsame hv]

end Meridian

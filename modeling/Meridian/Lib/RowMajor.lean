import Mathlib.Data.List.Basic
import Mathlib.Logic.Equiv.Basic

/-!
# Square matrices in row-major arrays

A matrix of `stride` rows and columns in an array: the entry of row `i` and column `j` is at index
`i * stride + j`. An access outside the array is undefined (`none`).

* `Holds stride a M` says that the array `a` has just the entries of the matrix `M`.
* `swapSlices` exchanges two sequences of cells, cell by cell, as a loop or `dswap` does it. Of two
  columns it exchanges the part in the first rows (`swapColumns`), of two rows the part in the first
  columns (`swapRows`). Doing it again undoes it.
* `fill` writes all cells, row by row, and gives up where a value is missing.
* `leading` is the square in the upper left corner, which is all that a callee reads that is given
  the array, the stride and a smaller size.
-/

namespace Meridian.Lib

variable {α : Type*} {stride n k l : ℕ} {a a' : Array α} {M M' : ℕ → ℕ → α}

/-! ### Arrays and matrices -/

/-- The array holds the matrix. -/
structure Holds (stride : ℕ) (a : Array α) (M : ℕ → ℕ → α) : Prop where
  size : a.size = stride * stride
  entry : ∀ i j, i < stride → j < stride → a[i * stride + j]? = some (M i j)

/-- The index of a cell lies in the array. -/
theorem index_lt {i j : ℕ} (hi : i < stride) (hj : j < stride) :
    i * stride + j < stride * stride := by
  calc i * stride + j < i * stride + stride := Nat.add_lt_add_left hj _
    _ = (i + 1) * stride := (Nat.succ_mul i stride).symm
    _ ≤ stride * stride := Nat.mul_le_mul_right stride hi

/-- Different cells have different indices. -/
theorem index_inj {i j i' j' : ℕ} (hj : j < stride) (hj' : j' < stride) :
    i * stride + j = i' * stride + j' ↔ i = i' ∧ j = j' := by
  constructor
  · intro h
    have hpos : 0 < stride := by omega
    have hdiv := congrArg (· / stride) h
    have hmod := congrArg (· % stride) h
    simp only [Nat.mul_add_mod_self_right, Nat.mod_eq_of_lt hj, Nat.mod_eq_of_lt hj'] at hmod
    simp only [Nat.add_comm _ j, Nat.add_comm _ j', Nat.add_mul_div_right _ _ hpos,
      Nat.div_eq_of_lt hj, Nat.div_eq_of_lt hj', Nat.zero_add] at hdiv
    exact ⟨hdiv, hmod⟩
  · rintro ⟨rfl, rfl⟩
    rfl

/-- Every index is that of a cell. -/
theorem exists_index {x : ℕ} (hx : x < stride * stride) :
    ∃ i j, i < stride ∧ j < stride ∧ x = i * stride + j := by
  have hpos : 0 < stride := by
    rcases Nat.eq_zero_or_pos stride with rfl | h
    · exact absurd hx (by simp)
    · exact h
  refine ⟨x / stride, x % stride, Nat.div_lt_of_lt_mul hx, Nat.mod_lt x hpos, ?_⟩
  rw [Nat.mul_comm, Nat.div_add_mod]

/-- The matrix determines the array. -/
theorem Holds.array_eq (h : Holds stride a M) (h' : Holds stride a' M) : a = a' := by
  refine Array.ext_getElem? fun x ↦ ?_
  by_cases hx : x < stride * stride
  · obtain ⟨i, j, hi, hj, rfl⟩ := exists_index hx
    rw [h.entry i j hi hj, h'.entry i j hi hj]
  · rw [Array.getElem?_eq_none (by rw [h.size]; omega),
      Array.getElem?_eq_none (by rw [h'.size]; omega)]

/-- Only the entries within the stride matter. -/
theorem Holds.congr (h : Holds stride a M)
    (heq : ∀ i j, i < stride → j < stride → M' i j = M i j) : Holds stride a M' :=
  ⟨h.size, fun i j hi hj ↦ (h.entry i j hi hj).trans (congrArg some (heq i j hi hj).symm)⟩

/-- Every matrix is held by an array. -/
theorem holds_ofFn (stride : ℕ) (M : ℕ → ℕ → α) :
    Holds stride (Array.ofFn fun x : Fin (stride * stride) ↦ M (x / stride) (x % stride)) M := by
  refine ⟨Array.size_ofFn, fun i j hi hj ↦ ?_⟩
  have hpos : 0 < stride := by omega
  rw [Array.getElem?_ofFn, dif_pos (index_lt hi hj)]
  simp only [Nat.mod_eq_of_lt hj, Nat.add_comm _ j,
    Nat.add_mul_div_right _ _ hpos, Nat.div_eq_of_lt hj, Nat.zero_add, Nat.add_mul_mod_self_right]

/-! ### Swapping -/

/-- Exchange two cells. -/
def swapCells (a : Array α) (x y : ℕ) : Option (Array α) :=
  if h : x < a.size ∧ y < a.size then some (a.swap x y h.1 h.2) else none

/-- Exchange the cells `f 0, …, f (n - 1)` with `g 0, …, g (n - 1)`. -/
def swapSlices (f g : ℕ → ℕ) (n : ℕ) (a : Array α) : Option (Array α) :=
  (List.range n).foldlM (fun a x ↦ swapCells a (f x) (g x)) a

theorem swapSlices_succ (f g : ℕ → ℕ) (n : ℕ) (a : Array α) :
    swapSlices f g (n + 1) a = (swapSlices f g n a).bind fun a ↦ swapCells a (f n) (g n) := by
  rw [swapSlices, List.range_succ, List.foldlM_append]
  simp [swapSlices]

/-- The matrix after two cells of it have been exchanged. -/
def swapEntries (i j i' j' : ℕ) (M : ℕ → ℕ → α) (r c : ℕ) : α :=
  if i' = r ∧ j' = c then M i j else if i = r ∧ j = c then M i' j' else M r c

theorem Holds.after_swapCells {i j i' j' : ℕ} (h : Holds stride a M) (hi : i < stride)
    (hj : j < stride) (hi' : i' < stride) (hj' : j' < stride) :
    ∃ a', swapCells a (i * stride + j) (i' * stride + j') = some a' ∧
      Holds stride a' (swapEntries i j i' j' M) := by
  have hx : i * stride + j < a.size := h.size ▸ index_lt hi hj
  have hy : i' * stride + j' < a.size := h.size ▸ index_lt hi' hj'
  refine ⟨_, dif_pos ⟨hx, hy⟩, by rw [Array.size_swap, h.size], fun r c hr hc ↦ ?_⟩
  have hget : a[i * stride + j] = M i j :=
    Option.some.inj ((Array.getElem?_eq_getElem hx).symm.trans (h.entry i j hi hj))
  have hget' : a[i' * stride + j'] = M i' j' :=
    Option.some.inj ((Array.getElem?_eq_getElem hy).symm.trans (h.entry i' j' hi' hj'))
  rw [Array.getElem?_swap, hget, hget', h.entry r c hr hc, swapEntries]
  simp only [index_inj hj hc, index_inj hj' hc]
  split
  · rfl
  · split <;> rfl

/-- Exchange the columns `k` and `l` in the first `n` rows. -/
def swapColumns (stride n k l : ℕ) (a : Array α) : Option (Array α) :=
  swapSlices (fun i ↦ i * stride + k) (fun i ↦ i * stride + l) n a

/-- Exchange the rows `k` and `l` in the first `n` columns. -/
def swapRows (stride n k l : ℕ) (a : Array α) : Option (Array α) :=
  swapSlices (fun j ↦ k * stride + j) (fun j ↦ l * stride + j) n a

/-- The matrix after `swapColumns`. -/
def columnsSwapped (n k l : ℕ) (M : ℕ → ℕ → α) (r c : ℕ) : α :=
  if r < n then M r (Equiv.swap k l c) else M r c

/-- The matrix after `swapRows`. -/
def rowsSwapped (n k l : ℕ) (M : ℕ → ℕ → α) (r c : ℕ) : α :=
  if c < n then M (Equiv.swap k l r) c else M r c

theorem columnsSwapped_succ (n k l : ℕ) (M : ℕ → ℕ → α) :
    swapEntries n k n l (columnsSwapped n k l M) = columnsSwapped (n + 1) k l M := by
  funext r c
  simp only [swapEntries, columnsSwapped, Equiv.swap_apply_def, Nat.lt_irrefl, if_false]
  grind

theorem rowsSwapped_succ (n k l : ℕ) (M : ℕ → ℕ → α) :
    swapEntries k n l n (rowsSwapped n k l M) = rowsSwapped (n + 1) k l M := by
  funext r c
  simp only [swapEntries, rowsSwapped, Equiv.swap_apply_def, Nat.lt_irrefl, if_false]
  grind

/-- **Columns are exchanged in the first rows only.** -/
theorem Holds.after_swapColumns (h : Holds stride a M) (hn : n ≤ stride) (hk : k < stride)
    (hl : l < stride) :
    ∃ a', swapColumns stride n k l a = some a' ∧ Holds stride a' (columnsSwapped n k l M) := by
  induction n with
  | zero => exact ⟨a, rfl, h.congr fun i j _ _ ↦ if_neg (Nat.not_lt_zero i)⟩
  | succ n ih =>
    obtain ⟨a₁, hrun, hheld⟩ := ih (by omega)
    obtain ⟨a', hstep, hheld'⟩ :=
      hheld.after_swapCells (show n < stride by omega) hk (show n < stride by omega) hl
    refine ⟨a', ?_, columnsSwapped_succ n k l M ▸ hheld'⟩
    show swapSlices _ _ (n + 1) a = some a'
    rw [swapSlices_succ]
    show (swapColumns stride n k l a).bind _ = some a'
    rw [hrun]
    exact hstep

/-- **Rows are exchanged in the first columns only.** -/
theorem Holds.after_swapRows (h : Holds stride a M) (hn : n ≤ stride) (hk : k < stride)
    (hl : l < stride) :
    ∃ a', swapRows stride n k l a = some a' ∧ Holds stride a' (rowsSwapped n k l M) := by
  induction n with
  | zero => exact ⟨a, rfl, h.congr fun i j _ _ ↦ if_neg (Nat.not_lt_zero j)⟩
  | succ n ih =>
    obtain ⟨a₁, hrun, hheld⟩ := ih (by omega)
    obtain ⟨a', hstep, hheld'⟩ :=
      hheld.after_swapCells hk (show n < stride by omega) hl (show n < stride by omega)
    refine ⟨a', ?_, rowsSwapped_succ n k l M ▸ hheld'⟩
    show swapSlices _ _ (n + 1) a = some a'
    rw [swapSlices_succ]
    show (swapRows stride n k l a).bind _ = some a'
    rw [hrun]
    exact hstep

/-- Exchanging columns twice. -/
theorem columnsSwapped_columnsSwapped (n k l : ℕ) (M : ℕ → ℕ → α) :
    columnsSwapped n k l (columnsSwapped n k l M) = M := by
  funext r c
  rw [columnsSwapped]
  split
  · next hr => rw [columnsSwapped, if_pos hr, Equiv.swap_apply_self]
  · next hr => rw [columnsSwapped, if_neg hr]

/-- Exchanging rows twice. -/
theorem rowsSwapped_rowsSwapped (n k l : ℕ) (M : ℕ → ℕ → α) :
    rowsSwapped n k l (rowsSwapped n k l M) = M := by
  funext r c
  rw [rowsSwapped]
  split
  · next hc => rw [rowsSwapped, if_pos hc, Equiv.swap_apply_self]
  · next hc => rw [rowsSwapped, if_neg hc]

/-- After the columns and then the rows `k` and `n` have been exchanged, the square of size `n` in
the corner has row and column `n` in place of row and column `k`. -/
theorem rowsSwapped_columnsSwapped (hk : k < n + 1) (M : ℕ → ℕ → α) {r c : ℕ} (hr : r < n)
    (hc : c < n) :
    rowsSwapped n k n (columnsSwapped (n + 1) k n M) r c =
      M (Equiv.swap k n r) (Equiv.swap k n c) := by
  have hrow : Equiv.swap k n r < n + 1 := by
    rw [Equiv.swap_apply_def]
    split
    · omega
    · split <;> omega
  rw [rowsSwapped, if_pos hc, columnsSwapped, if_pos hrow]

/-! ### Filling -/

/-- Loops that count up, with an invariant. -/
theorem foldlM_range_spec {σ : Type*} {f : σ → ℕ → Option σ} {I : ℕ → σ → Prop} {s : σ}
    (hstart : I 0 s) (hstep : ∀ i s, i < n → I i s → ∃ s', f s i = some s' ∧ I (i + 1) s') :
    ∃ s', (List.range n).foldlM f s = some s' ∧ I n s' := by
  induction n with
  | zero => exact ⟨s, rfl, hstart⟩
  | succ n ih =>
    obtain ⟨s₁, hrun, hinv⟩ := ih fun i s hi ↦ hstep i s (by omega)
    obtain ⟨s', hlast, hinv'⟩ := hstep n s₁ (Nat.lt_succ_self n) hinv
    refine ⟨s', ?_, hinv'⟩
    rw [List.range_succ, List.foldlM_append, hrun, Option.bind_eq_bind, Option.bind_some,
      List.foldlM_cons, hlast]
    rfl

/-- A loop that has been gone through has been through every pass. -/
theorem exists_pass {σ ι : Type*} {f : σ → ι → Option σ} {l : List ι} {s s' : σ}
    (h : l.foldlM f s = some s') {i : ι} (hi : i ∈ l) : ∃ t t', f t i = some t' := by
  induction l generalizing s with
  | nil => exact absurd hi (List.not_mem_nil)
  | cons j l ih =>
    rw [List.foldlM_cons, Option.bind_eq_bind, Option.bind_eq_some_iff] at h
    obtain ⟨s₁, hj, hl⟩ := h
    rcases List.mem_cons.1 hi with rfl | hi
    · exact ⟨s, s₁, hj⟩
    · exact ih hl hi

/-- Write a cell. -/
def writeCell (a : Array α) (x : ℕ) (value : α) : Option (Array α) :=
  if h : x < a.size then some (a.set x value h) else none

/-- Write every cell, row by row. -/
def fill (stride : ℕ) (value : ℕ → ℕ → Option α) (a : Array α) : Option (Array α) :=
  (List.range stride).foldlM (fun a i ↦ (List.range stride).foldlM (fun a j ↦
    (value i j).bind fun v ↦ writeCell a (i * stride + j) v) a) a

/-- The cells in question have been written. -/
structure Written (stride : ℕ) (M : ℕ → ℕ → α) (cells : ℕ → ℕ → Prop) (a : Array α) : Prop where
  size : a.size = stride * stride
  entry : ∀ i j, i < stride → j < stride → cells i j → a[i * stride + j]? = some (M i j)

theorem Written.step {cells cells' : ℕ → ℕ → Prop} {i j : ℕ} (h : Written stride M cells a)
    (hi : i < stride) (hj : j < stride)
    (hcells : ∀ r c, cells' r c → cells r c ∨ r = i ∧ c = j) :
    ∃ a', writeCell a (i * stride + j) (M i j) = some a' ∧ Written stride M cells' a' := by
  have hx : i * stride + j < a.size := h.size ▸ index_lt hi hj
  refine ⟨_, dif_pos hx, by rw [Array.size_set, h.size], fun r c hr hc hcell ↦ ?_⟩
  rw [Array.getElem?_set]
  split
  · next heq =>
    obtain ⟨rfl, rfl⟩ := (index_inj hj hc).1 heq
    rfl
  · next hne =>
    refine h.entry r c hr hc ((hcells r c hcell).resolve_right ?_)
    rintro ⟨rfl, rfl⟩
    exact hne rfl

/-- **A matrix without gaps is written as a whole.** -/
theorem fill_eq_some {value : ℕ → ℕ → Option α} (hsize : a.size = stride * stride)
    (hvalue : ∀ i j, i < stride → j < stride → value i j = some (M i j)) :
    ∃ a', fill stride value a = some a' ∧ Holds stride a' M := by
  have hrows : ∃ a', fill stride value a = some a' ∧
      Written stride M (fun r _ ↦ r < stride) a' := by
    refine foldlM_range_spec (I := fun i ↦ Written stride M fun r _ ↦ r < i)
      ⟨hsize, fun r c _ _ h ↦ absurd h (Nat.not_lt_zero r)⟩ fun i a₁ hi h₁ ↦ ?_
    have hrow : ∃ a', (List.range stride).foldlM (fun a j ↦
        (value i j).bind fun v ↦ writeCell a (i * stride + j) v) a₁ = some a' ∧
        Written stride M (fun r c ↦ r < i ∨ r = i ∧ c < stride) a' := by
      refine foldlM_range_spec (I := fun j ↦ Written stride M fun r c ↦ r < i ∨ r = i ∧ c < j)
        ⟨h₁.size, fun r c hr hc h ↦ h₁.entry r c hr hc (h.resolve_right (by simp))⟩
        fun j a₂ hj h₂ ↦ ?_
      rw [hvalue i j hi hj]
      exact h₂.step hi hj fun r c h ↦ by omega
    obtain ⟨a', hrun, hwritten⟩ := hrow
    exact ⟨a', hrun, hwritten.size, fun r c hr hc h ↦ hwritten.entry r c hr hc (by omega)⟩
  obtain ⟨a', hrun, hwritten⟩ := hrows
  exact ⟨a', hrun, hwritten.size, fun i j hi hj ↦ hwritten.entry i j hi hj hi⟩

/-- **A matrix with a gap is not written.** -/
theorem isSome_of_fill {value : ℕ → ℕ → Option α} (h : fill stride value a = some a') {i j : ℕ}
    (hi : i < stride) (hj : j < stride) : (value i j).isSome := by
  obtain ⟨a₁, a₂, hrow⟩ := exists_pass h (List.mem_range.2 hi)
  obtain ⟨a₃, a₄, hcell⟩ := exists_pass hrow (List.mem_range.2 hj)
  obtain ⟨v, hv, -⟩ := Option.bind_eq_some_iff.1 hcell
  rw [hv]
  rfl

/-! ### The square in the corner -/

/-- The first `n` entries of the first `n` rows. -/
def leading (stride n : ℕ) (a : Array α) : List (List α) :=
  (List.range n).map fun i ↦ (a.extract (i * stride) (i * stride + n)).toList

theorem Holds.leading_eq (h : Holds stride a M) (hn : n ≤ stride) :
    leading stride n a = (List.range n).map fun i ↦ (List.range n).map (M i) := by
  refine List.map_congr_left fun i hi ↦ ?_
  have hi' : i < stride := Nat.lt_of_lt_of_le (List.mem_range.1 hi) hn
  have hsize : i * stride + n ≤ a.size := by
    rw [h.size]
    calc i * stride + n ≤ i * stride + stride := Nat.add_le_add_left hn _
      _ = (i + 1) * stride := (Nat.succ_mul i stride).symm
      _ ≤ stride * stride := Nat.mul_le_mul_right stride hi'
  refine List.ext_getElem? fun j ↦ ?_
  rw [Array.getElem?_toList, Array.getElem?_extract, List.getElem?_map, Nat.min_eq_left hsize,
    Nat.add_sub_cancel_left]
  by_cases hj : j < n
  · rw [if_pos hj, h.entry i j hi' (Nat.lt_of_lt_of_le hj hn), List.getElem?_range hj]
    rfl
  · rw [if_neg hj, List.getElem?_eq_none (by simpa using hj)]
    rfl

end Meridian.Lib

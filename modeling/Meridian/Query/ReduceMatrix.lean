import Meridian.Lib.RowMajor
import Meridian.Query.RingReplace

/-!
# Reducing the latency matrix in place

`reduceSetByN` of `Query.cpp` as it works on memory: the latency matrix is an array with the stride
of the full matrix, the nodes in use own its upper left corner, and a node is tried by exchanging
its column and its row with the last ones, calling `calculateHV` with the smaller size, and
exchanging them back.

* `calculateHV` is a parameter, a function of the square it is given.
* An access outside the matrix and a failed `assert` end the function (`none`).
* `Corner` is the invariant: the corner is the full matrix, restricted to the nodes in use in their
  order. A trial leaves every entry as it was; what `calculateHV` gets to see is the corner of the
  vector without the node (`swapOut_spec`).
* `reduceSetByN_refines` says that the vectors are those of `RingManageQuery.reduceSetByN`, which
  knows nothing of the matrix.
-/

namespace Meridian

open Lib

namespace RingManageQuery

/-- The variables of `reduceSetByN`. -/
structure Reduction (α : Type) where
  inVector : List NodeIdent
  deletedNodes : List NodeIdent
  latencyMatrix : Array α
  colSize : ℕ
  rowSize : ℕ

/-- The variables of one round of it. -/
structure Trials (β : Type) where
  maxHVNodeFound : Bool
  maxHVNode : NodeIdent
  maxHV : β
  maxHyperVolume : β

namespace Reduction

variable {α β : Type}

/-! ### The loops -/

/-- The variables at the start. -/
def new (inVector deletedNodes : List NodeIdent) (latencyMatrix : Array α) : Reduction α :=
  ⟨inVector, deletedNodes, latencyMatrix, inVector.length, inVector.length⟩

/-- Swap out the column of a node, and the corresponding row. -/
def swapOut (N k : ℕ) (s : Reduction α) : Option (Reduction α) := do
  let matrix ← swapColumns N s.rowSize k (s.colSize - 1) s.latencyMatrix
  let colSize := s.colSize - 1
  let matrix ← swapRows N colSize k (s.rowSize - 1) matrix
  return { s with latencyMatrix := matrix, colSize := colSize, rowSize := s.rowSize - 1 }

/-- Undo the row and the column swap. -/
def swapBack (N k : ℕ) (s : Reduction α) : Option (Reduction α) := do
  let rowSize := s.rowSize + 1
  let matrix ← swapRows N s.colSize k (rowSize - 1) s.latencyMatrix
  let colSize := s.colSize + 1
  let matrix ← swapColumns N rowSize k (colSize - 1) matrix
  return { s with latencyMatrix := matrix, colSize := colSize, rowSize := rowSize }

section Loops

variable [LinearOrder β] [Zero β]

/-- The variables at the start of a round. -/
def noTrials : Trials β := ⟨false, ⟨0, 0⟩, 0, 0⟩

/-- A volume is compared with the best ones so far. -/
def consider (node : NodeIdent) (hyperVolume : β) (t : Trials β) : Trials β :=
  let t := if t.maxHV ≤ hyperVolume then
    { t with maxHVNodeFound := true, maxHVNode := node, maxHV := hyperVolume } else t
  if t.maxHyperVolume < hyperVolume then { t with maxHyperVolume := hyperVolume } else t

variable (calculateHV : List (List α) → β) (N : ℕ)

/-- One pass of the loop over the nodes: the volume without node `k`. -/
def trial (k : ℕ) (s : Reduction α) (t : Trials β) : Option (Reduction α × Trials β) := do
  let node ← s.inVector[k]?
  let out ← s.swapOut N k
  guard (out.rowSize = out.colSize)  -- `assert(rowSize == colSize)`
  let hyperVolume := calculateHV (leading N out.rowSize out.latencyMatrix)
  let back ← out.swapBack N k
  return (back, consider node hyperVolume t)

/-- The first passes of the loop over the nodes. -/
def trials (s : Reduction α) : ℕ → Option (Reduction α × Trials β)
  | 0 => some (s, noTrials)
  | k + 1 => (trials s k).bind fun res ↦ trial calculateHV N k res.1 res.2

/-- One pass of the loop that takes out the node found. -/
def removeAt (maxHVNode : NodeIdent) (s : Reduction α) (k : ℕ) : Option (Reduction α) :=
  if s.inVector[k]? = some maxHVNode then do
    let out ← s.swapOut N k
    return { out with
      deletedNodes := s.deletedNodes ++ [maxHVNode]
      inVector := RingSet.eraseSwapBack s.inVector k }
  else some s

/-- One reduction, with the `maxHyperVolume` of it. The vector gets no longer while the node is
taken out of it, so no place of it comes after those of the range. -/
def round (s : Reduction α) : Option (Reduction α × β) := do
  let (s, t) ← trials calculateHV N s s.inVector.length
  guard t.maxHVNodeFound  -- `assert(false)`
  let s ← (List.range s.inVector.length).foldlM (removeAt N t.maxHVNode) s
  return (s, t.maxHyperVolume)

/-- The first reductions. -/
def rounds (s : Reduction α) : ℕ → Option (Reduction α × β)
  | 0 => some (s, 0)
  | r + 1 => (rounds s r).bind fun res ↦ round calculateHV N res.1

/-- `reduceSetByN`: what has become of its arguments, and its return value. -/
def reduceSetByN (inVector deletedNodes : List NodeIdent) (numReduction : ℕ)
    (latencyMatrix : Array α) : Option (Reduction α × β) :=
  rounds calculateHV inVector.length (new inVector deletedNodes latencyMatrix) numReduction

end Loops

/-! ### The corner of the matrix -/

/-- A matrix over `nodes`, restricted to a vector of them, in the order of the vector. -/
def submatrix (L : ℕ → ℕ → α) (nodes v : List NodeIdent) : List (List α) :=
  v.map fun n ↦ v.map fun m ↦ L (nodes.idxOf n) (nodes.idxOf m)

/-- The corner of the array is the matrix, restricted to the vector. -/
def Corner (L : ℕ → ℕ → α) (nodes v : List NodeIdent) (a : Array α) : Prop :=
  ∃ M : ℕ → ℕ → α, Holds nodes.length a M ∧ ∀ i j (hi : i < v.length) (hj : j < v.length),
    M i j = L (nodes.idxOf v[i]) (nodes.idxOf v[j])

variable {L : ℕ → ℕ → α} {nodes v : List NodeIdent} {a : Array α} {k : ℕ}

/-- What is handed to `calculateHV`. -/
theorem Corner.leading_eq (h : Corner L nodes v a) (hlen : v.length ≤ nodes.length) :
    leading nodes.length v.length a = submatrix L nodes v := by
  obtain ⟨M, hM, hentry⟩ := h
  rw [hM.leading_eq hlen]
  refine List.ext_getElem (by simp [submatrix]) fun i hi _ ↦ ?_
  rw [List.length_map, List.length_range] at hi
  rw [List.getElem_map, List.getElem_range]
  simp only [submatrix, List.getElem_map]
  refine List.ext_getElem (by simp) fun j hj _ ↦ ?_
  rw [List.length_map, List.length_range] at hj
  rw [List.getElem_map, List.getElem_map, List.getElem_range]
  exact hentry i j hi hj

/-- The full matrix is that of all nodes. -/
theorem corner_self (hnodup : nodes.Nodup) (h : Holds nodes.length a L) :
    Corner L nodes nodes a := by
  refine ⟨L, h, fun i j hi hj ↦ ?_⟩
  rw [hnodup.idxOf_getElem i hi, hnodup.idxOf_getElem j hj]

theorem length_eraseSwapBack (hk : k < v.length) :
    (RingSet.eraseSwapBack v k).length + 1 = v.length := by
  have hperm := (RingSet.eraseSwapBack_perm hk).length_eq
  rwa [List.length_cons] at hperm

/-- The last place is moved to the one taken out. -/
theorem getElem_eraseSwapBack (hk : k < v.length) {i : ℕ}
    (hi : i < (RingSet.eraseSwapBack v k).length) (hi' : Equiv.swap k (v.length - 1) i < v.length) :
    (RingSet.eraseSwapBack v k)[i] = v[Equiv.swap k (v.length - 1) i] := by
  have hlen := length_eraseSwapBack hk
  have hne : v ≠ [] := by
    rintro rfl
    exact absurd hk (Nat.not_lt_zero k)
  have heq : RingSet.eraseSwapBack v k = (v.set k (v.getLast hne)).dropLast := by
    rw [RingSet.eraseSwapBack, List.getLast?_eq_some_getLast hne]
  simp only [heq, List.getElem_dropLast, List.getElem_set, Equiv.swap_apply_def,
    List.getLast_eq_getElem]
  split
  · next h => simp [h.symm]
  · next h =>
    have hlast : i ≠ v.length - 1 := by omega
    simp [Ne.symm h, hlast]

/-! ### A trial -/

/-- The variables belong to each other: the sizes are the length of the vector, and the corner of
that size is the matrix restricted to it. -/
structure Restricted (L : ℕ → ℕ → α) (nodes : List NodeIdent) (s : Reduction α) : Prop where
  colSize : s.colSize = s.inVector.length
  rowSize : s.rowSize = s.inVector.length
  length : s.inVector.length ≤ nodes.length
  nodup : s.inVector.Nodup
  corner : Corner L nodes s.inVector s.latencyMatrix

variable {s s' : Reduction α}

/-- **A node swapped out.** The corner is that of the vector without the node, and swapping back
restores every entry of the matrix. -/
theorem swapOut_spec (h : s.Restricted L nodes) (hk : k < s.inVector.length) :
    ∃ a', s.swapOut nodes.length k = some { s with
        latencyMatrix := a', colSize := s.colSize - 1, rowSize := s.rowSize - 1 } ∧
      Corner L nodes (RingSet.eraseSwapBack s.inVector k) a' ∧
      swapBack nodes.length k { s with
        latencyMatrix := a', colSize := s.colSize - 1, rowSize := s.rowSize - 1 } = some s := by
  obtain ⟨M, hM, hentry⟩ := h.corner
  have hcol := h.colSize
  have hrow := h.rowSize
  have hlen := h.length
  obtain ⟨n, hn⟩ : ∃ n, s.inVector.length = n + 1 := ⟨s.inVector.length - 1, by omega⟩
  have hk' : k < nodes.length := by omega
  -- there and back again, with what the array holds on the way
  obtain ⟨a₁, hcolumns, h₁⟩ := hM.after_swapColumns (n := n + 1) (k := k) (l := n) (by omega) hk'
    (by omega)
  obtain ⟨a₂, hrows, h₂⟩ := h₁.after_swapRows (n := n) (k := k) (l := n) (by omega) hk' (by omega)
  obtain ⟨a₃, hrows', h₃⟩ := h₂.after_swapRows (n := n) (k := k) (l := n) (by omega) hk' (by omega)
  rw [rowsSwapped_rowsSwapped] at h₃
  obtain ⟨a₄, hcolumns', h₄⟩ := h₃.after_swapColumns (n := n + 1) (k := k) (l := n) (by omega) hk'
    (by omega)
  rw [columnsSwapped_columnsSwapped] at h₄
  refine ⟨a₂, ?_, ⟨_, h₂, fun i j hi hj ↦ ?_⟩, ?_⟩
  · simp only [swapOut, hcol, hrow, hn, Nat.add_sub_cancel, hcolumns, Option.bind_eq_bind,
      Option.bind_some, hrows]
    rfl
  · have hlen' := length_eraseSwapBack hk
    have hswap : ∀ i, i < n → Equiv.swap k n i < s.inVector.length := by
      intro i hi
      rw [Equiv.swap_apply_def]
      split
      · omega
      · split <;> omega
    rw [rowsSwapped_columnsSwapped (by omega) M (by omega) (by omega),
      hentry _ _ (hswap i (by omega)) (hswap j (by omega))]
    have hlast : s.inVector.length - 1 = n := by omega
    rw [getElem_eraseSwapBack hk hi (by rw [hlast]; exact hswap i (by omega)),
      getElem_eraseSwapBack hk hj (by rw [hlast]; exact hswap j (by omega))]
    simp only [hlast]
  · have hback : a₄ = s.latencyMatrix := h₄.array_eq hM
    simp only [swapBack, hcol, hrow, hn, Nat.add_sub_cancel, hrows', Option.bind_eq_bind,
      Option.bind_some, hcolumns', hback]
    cases s
    simp_all

section Loops

variable [LinearOrder β] {calculateHV : List (List α) → β}

/-- What `calculateHV` says of the nodes without the one in place `k`. -/
def volume (calculateHV : List (List α) → β) (L : ℕ → ℕ → α) (nodes v : List NodeIdent) (k : ℕ) :
    β :=
  calculateHV (submatrix L nodes (RingSet.eraseSwapBack v k))

/-- **A trial leaves everything as it was**, and takes account of the volume without the node. -/
theorem trial_eq (h : s.Restricted L nodes) (hk : k < s.inVector.length) (t : Trials β) :
    trial calculateHV nodes.length k s t =
      some (s, consider s.inVector[k] (volume calculateHV L nodes s.inVector k) t) := by
  obtain ⟨a', hout, hcorner, hback⟩ := swapOut_spec h hk
  have hlen := length_eraseSwapBack hk
  have hsize : s.rowSize - 1 = (RingSet.eraseSwapBack s.inVector k).length := by
    rw [h.rowSize]
    omega
  have hleading : leading nodes.length (s.rowSize - 1) a' =
      submatrix L nodes (RingSet.eraseSwapBack s.inVector k) := by
    rw [hsize]
    exact hcorner.leading_eq (by have := h.length; omega)
  have hsizes : s.rowSize - 1 = s.colSize - 1 := by rw [h.rowSize, h.colSize]
  rw [trial, List.getElem?_eq_getElem hk, hout]
  simp only [Option.bind_eq_bind, Option.bind_some, hleading, guard, if_pos hsizes, hback]
  rfl

/-! ### The best of a round -/

/-- A volume that is not below the largest one so far. -/
theorem consider_of_le {node : NodeIdent} {hv : β} {t : Trials β}
    (hsame : t.maxHyperVolume = t.maxHV) (hle : t.maxHV ≤ hv) :
    consider node hv t = ⟨true, node, hv, hv⟩ := by
  rw [consider, if_pos hle]
  show (if t.maxHyperVolume < hv then _ else _) = _
  rcases hle.lt_or_eq with hlt | heq
  · rw [if_pos (hsame.trans_lt hlt)]
  · rw [← heq, if_neg hsame.not_lt, hsame]

/-- A volume below the largest one so far. -/
theorem consider_of_lt {node : NodeIdent} {hv : β} {t : Trials β}
    (hsame : t.maxHyperVolume = t.maxHV) (hlt : hv < t.maxHV) : consider node hv t = t := by
  rw [consider, if_neg (not_le.2 hlt)]
  exact if_neg (not_lt.2 (hlt.le.trans hsame.ge))

/-- Of the first `n` values the one at `k` is largest, and no later one is as large. -/
structure LastMax (value : ℕ → β) (n k : ℕ) : Prop where
  lt : k < n
  le : ∀ j, j < n → value j ≤ value k
  last : ∀ j, k < j → j < n → value j < value k

theorem LastMax.succ_self {value : ℕ → β} {n : ℕ} (h : LastMax value n k)
    (hle : value k ≤ value n) : LastMax value (n + 1) n where
  lt := Nat.lt_succ_self n
  le := fun j hj ↦ by
    rcases Nat.lt_succ_iff_lt_or_eq.1 hj with hj | rfl
    · exact (h.le j hj).trans hle
    · exact le_rfl
  last := fun j hj hj' ↦ by omega

theorem LastMax.succ {value : ℕ → β} {n : ℕ} (h : LastMax value n k)
    (hlt : value n < value k) : LastMax value (n + 1) k where
  lt := Nat.lt_succ_of_lt h.lt
  le := fun j hj ↦ by
    rcases Nat.lt_succ_iff_lt_or_eq.1 hj with hj | rfl
    · exact h.le j hj
    · exact hlt.le
  last := fun j hj hj' ↦ by
    rcases Nat.lt_succ_iff_lt_or_eq.1 hj' with hj' | rfl
    · exact h.last j hj hj'
    · exact hlt

theorem LastMax.unique {value : ℕ → β} {n k' : ℕ} (h : LastMax value n k)
    (h' : LastMax value n k') : k = k' := by
  rcases Nat.lt_trichotomy k k' with hlt | heq | hlt
  · exact absurd (h.last k' hlt h'.lt) (not_lt.2 (h'.le k h.lt))
  · exact heq
  · exact absurd (h'.last k hlt h.lt) (not_lt.2 (h.le k' h'.lt))

variable [Zero β]

/-- **The trials of a round** restore the matrix one by one, and find the last node without which
the volume is largest. -/
theorem trials_spec (hnonneg : ∀ M, 0 ≤ calculateHV M) (h : s.Restricted L nodes) :
    ∀ n, n ≤ s.inVector.length → ∃ t, trials calculateHV nodes.length s n = some (s, t) ∧
      (n = 0 ∧ t = noTrials ∨ ∃ k, ∃ hk : k < s.inVector.length,
        LastMax (volume calculateHV L nodes s.inVector) n k ∧
        t = ⟨true, s.inVector[k], volume calculateHV L nodes s.inVector k,
          volume calculateHV L nodes s.inVector k⟩) := by
  intro n
  induction n with
  | zero => exact fun _ ↦ ⟨noTrials, rfl, .inl ⟨rfl, rfl⟩⟩
  | succ n ih =>
    intro hn
    obtain ⟨t, htrials, hbest⟩ := ih (by omega)
    have hlt : n < s.inVector.length := by omega
    refine ⟨consider s.inVector[n] (volume calculateHV L nodes s.inVector n) t, ?_, .inr ?_⟩
    · rw [trials, htrials, Option.bind_some]
      exact trial_eq h (by omega) t
    rcases hbest with ⟨rfl, rfl⟩ | ⟨k, hk, hmax, rfl⟩
    · have hzero : (0 : β) ≤ volume calculateHV L nodes s.inVector 0 := hnonneg _
      refine ⟨0, by omega, ⟨Nat.zero_lt_one, fun j hj ↦ ?_, fun j hj hj' ↦ by omega⟩, ?_⟩
      · rw [Nat.lt_one_iff.1 hj]
      · exact consider_of_le rfl hzero
    · rcases le_or_gt (volume calculateHV L nodes s.inVector k)
        (volume calculateHV L nodes s.inVector n) with hle | hlt
      · exact ⟨n, by omega, hmax.succ_self hle, consider_of_le rfl hle⟩
      · exact ⟨k, hk, hmax.succ hlt, consider_of_lt rfl hlt⟩

/-! ### A round -/

/-- Passes of a loop that change nothing. -/
theorem foldlM_eq_self {σ : Type} {f : σ → ℕ → Option σ} {x : σ} {l : List ℕ}
    (h : ∀ i ∈ l, f x i = some x) : l.foldlM f x = some x := by
  induction l with
  | nil => rfl
  | cons i l ih =>
    rw [List.foldlM_cons, h i (List.mem_cons_self ..)]
    exact ih fun j hj ↦ h j (List.mem_cons_of_mem i hj)

/-- **The node found is taken out** of the vector and of the matrix, once. -/
theorem removeAt_spec (h : s.Restricted L nodes) (hk : k < s.inVector.length) :
    ∃ s', (List.range s.inVector.length).foldlM (removeAt nodes.length s.inVector[k]) s = some s' ∧
      s'.Restricted L nodes ∧ s'.inVector = RingSet.eraseSwapBack s.inVector k ∧
      s'.deletedNodes = s.deletedNodes ++ [s.inVector[k]] := by
  obtain ⟨a', hout, hcorner, -⟩ := swapOut_spec h hk
  have hlen := length_eraseSwapBack hk
  have hlength := h.length
  have hperm := RingSet.eraseSwapBack_perm hk
  have hnodup := hperm.nodup_iff.2 h.nodup
  rw [List.nodup_cons] at hnodup
  let out : Reduction α := { s with
    latencyMatrix := a', colSize := s.colSize - 1, rowSize := s.rowSize - 1
    deletedNodes := s.deletedNodes ++ [s.inVector[k]]
    inVector := RingSet.eraseSwapBack s.inVector k }
  have hbefore : (List.range k).foldlM (removeAt nodes.length s.inVector[k]) s = some s := by
    refine foldlM_eq_self fun i hi ↦ if_neg ?_
    rw [List.mem_range] at hi
    rw [List.getElem?_eq_getElem (by omega), Option.some.injEq, h.nodup.getElem_inj_iff]
    omega
  have hat : removeAt nodes.length s.inVector[k] s k = some out := by
    rw [removeAt, if_pos (List.getElem?_eq_getElem hk), hout]
    rfl
  have hafter : ∀ l : List ℕ, l.foldlM (removeAt nodes.length s.inVector[k]) out = some out := by
    refine fun l ↦ foldlM_eq_self fun i _ ↦ if_neg fun hi ↦ hnodup.1 ?_
    exact List.mem_of_getElem? hi
  refine ⟨out, ?_, ⟨?_, ?_, ?_, hnodup.2, hcorner⟩, rfl, rfl⟩
  · have hrange : List.range s.inVector.length =
        List.range k ++ k :: (List.range' (k + 1) (s.inVector.length - (k + 1))) := by
      rw [List.range_eq_range', List.range_eq_range', ← List.range'_succ,
        show s.inVector.length = k + (s.inVector.length - (k + 1) + 1) by omega,
        ← List.range'_append_1, Nat.zero_add]
      congr 3
      omega
    rw [hrange, List.foldlM_append, hbefore, Option.bind_eq_bind, Option.bind_some,
      List.foldlM_cons, hat]
    exact hafter _
  · show s.colSize - 1 = (RingSet.eraseSwapBack s.inVector k).length
    rw [h.colSize]
    omega
  · show s.rowSize - 1 = (RingSet.eraseSwapBack s.inVector k).length
    rw [h.rowSize]
    omega
  · show (RingSet.eraseSwapBack s.inVector k).length ≤ nodes.length
    omega

/-- **A round takes out the last node without which the volume is largest.** -/
theorem round_spec (hnonneg : ∀ M, 0 ≤ calculateHV M) (h : s.Restricted L nodes)
    (hne : s.inVector ≠ []) :
    ∃ k s', ∃ hk : k < s.inVector.length,
      round calculateHV nodes.length s =
        some (s', volume calculateHV L nodes s.inVector k) ∧
      LastMax (volume calculateHV L nodes s.inVector) s.inVector.length k ∧
      s'.Restricted L nodes ∧ s'.inVector = RingSet.eraseSwapBack s.inVector k ∧
      s'.deletedNodes = s.deletedNodes ++ [s.inVector[k]] := by
  obtain ⟨t, htrials, hbest⟩ := trials_spec hnonneg h _ le_rfl
  rcases hbest with ⟨hzero, -⟩ | ⟨k, hk, hmax, rfl⟩
  · exact absurd (List.length_eq_zero_iff.1 hzero) hne
  obtain ⟨s', hremove, hrestricted, hvector, hdeleted⟩ := removeAt_spec h hk
  refine ⟨k, s', hk, ?_, hmax, hrestricted, hvector, hdeleted⟩
  simp only [round, htrials, Option.bind_eq_bind, Option.bind_some, guard_true, hremove]
  rfl

/-! ### All rounds -/

/-- What is left of the nodes, and what has been taken out of them. -/
structure Partition (nodes before : List NodeIdent) (r : ℕ) (s : Reduction α) : Prop where
  restricted : s.inVector.length + r = nodes.length
  removed : ∃ removed, s.deletedNodes = before ++ removed ∧ removed.length = r ∧
    (s.inVector ++ removed).Perm nodes

theorem new_partition (nodes before : List NodeIdent) (a : Array α) :
    (new nodes before a).Partition nodes before 0 :=
  ⟨rfl, [], (List.append_nil before).symm, rfl, by rw [List.append_nil]; exact .refl _⟩

theorem Partition.step {before : List NodeIdent} {r : ℕ} (h : s.Partition nodes before r)
    (hk : k < s.inVector.length) (hvector : s'.inVector = RingSet.eraseSwapBack s.inVector k)
    (hdeleted : s'.deletedNodes = s.deletedNodes ++ [s.inVector[k]]) :
    s'.Partition nodes before (r + 1) := by
  obtain ⟨removed, hbefore, hlength, hperm⟩ := h.removed
  have hlen := length_eraseSwapBack hk
  refine ⟨?_, removed ++ [s.inVector[k]], ?_, ?_, ?_⟩
  · have hr := h.restricted
    rw [hvector]
    omega
  · rw [hdeleted, hbefore, List.append_assoc]
  · rw [List.length_append, hlength, List.length_singleton]
  · have hout : (s'.inVector ++ (removed ++ [s.inVector[k]])).Perm
        (s.inVector[k] :: (s'.inVector ++ removed)) := by
      rw [← List.append_assoc]
      exact List.perm_append_singleton ..
    have hback : (s.inVector[k] :: s'.inVector).Perm s.inVector := by
      rw [hvector]
      exact RingSet.eraseSwapBack_perm hk
    exact hout.trans ((hback.append_right removed).trans hperm)

theorem new_restricted (hnodup : nodes.Nodup) (before : List NodeIdent)
    (hL : Holds nodes.length a L) : (new nodes before a).Restricted L nodes :=
  ⟨rfl, rfl, le_rfl, hnodup, corner_self hnodup hL⟩

/-- **After any number of rounds** that leave a node. -/
theorem rounds_spec {before : List NodeIdent} (hnonneg : ∀ M, 0 ≤ calculateHV M)
    (hnodup : nodes.Nodup) (hL : Holds nodes.length a L) :
    ∀ r, r < nodes.length → ∃ s hv,
      rounds calculateHV nodes.length (new nodes before a) r = some (s, hv) ∧
        s.Restricted L nodes ∧ s.Partition nodes before r := by
  intro r
  induction r with
  | zero => exact fun _ ↦ ⟨_, 0, rfl, new_restricted hnodup before hL, new_partition ..⟩
  | succ r ih =>
    intro hr
    obtain ⟨s, hv, hrun, hrestricted, hpartition⟩ := ih (by omega)
    have hlength := hpartition.restricted
    have hne : s.inVector ≠ [] := by
      rw [← List.length_pos_iff]
      omega
    obtain ⟨k, s', hk, hround, -, hrestricted', hvector, hdeleted⟩ :=
      round_spec hnonneg hrestricted hne
    refine ⟨s', volume calculateHV L nodes s.inVector k, ?_, hrestricted',
      hpartition.step hk hvector hdeleted⟩
    rw [rounds, hrun]
    exact hround

/-- **The greedy reduction is correct.** `calculateHV` is any function of the square it is given
that is nowhere negative, `L` any matrix over a vector of distinct nodes, and fewer nodes than there
are are to be removed. After `r` rounds the nodes left and the nodes removed make up the input, `r` of
them removed, and the corner of the matrix is `L` restricted to those left, in their order. If that
was not the last round, the trials of the next one leave all variables and the whole matrix as they
were, each of them; and the node that the next round removes is the last one in the vector without
which `calculateHV` is largest. No access is outside the matrix and no assertion fails. -/
theorem reduceSetByN_greedy (calculateHV : List (List α) → β) (hnonneg : ∀ M, 0 ≤ calculateHV M)
    (L : ℕ → ℕ → α) (nodes before : List NodeIdent) (hnodup : nodes.Nodup) (a : Array α)
    (hL : Holds nodes.length a L) (numReduction : ℕ) (hlt : numReduction < nodes.length)
    (r : ℕ) (hr : r ≤ numReduction) :
    ∃ s hv, reduceSetByN calculateHV nodes before r a = some (s, hv) ∧
      s.Partition nodes before r ∧
      s.colSize = s.inVector.length ∧ s.rowSize = s.inVector.length ∧
      leading nodes.length s.inVector.length s.latencyMatrix = submatrix L nodes s.inVector ∧
      (r < numReduction →
        (∀ k, k ≤ s.inVector.length →
          ∃ t, trials calculateHV nodes.length s k = some (s, t)) ∧
        ∃ k s', ∃ hk : k < s.inVector.length,
          LastMax (fun k ↦ calculateHV (submatrix L nodes (RingSet.eraseSwapBack s.inVector k)))
            s.inVector.length k ∧
          reduceSetByN calculateHV nodes before (r + 1) a =
            some (s', calculateHV (submatrix L nodes (RingSet.eraseSwapBack s.inVector k))) ∧
          s'.inVector = RingSet.eraseSwapBack s.inVector k ∧
          s'.deletedNodes = s.deletedNodes ++ [s.inVector[k]]) := by
  obtain ⟨s, hv, hrun, hrestricted, hpartition⟩ : ∃ s hv,
      rounds calculateHV nodes.length (new nodes before a) r = some (s, hv) ∧
        s.Restricted L nodes ∧ s.Partition nodes before r :=
    rounds_spec hnonneg hnodup hL r (by omega)
  refine ⟨s, hv, hrun, hpartition, hrestricted.colSize, hrestricted.rowSize,
    hrestricted.corner.leading_eq hrestricted.length, fun hr' ↦ ⟨fun k hk ↦ ?_, ?_⟩⟩
  · obtain ⟨t, htrials, -⟩ := trials_spec hnonneg hrestricted k hk
    exact ⟨t, htrials⟩
  · have hlength := hpartition.restricted
    have hne : s.inVector ≠ [] := by
      rw [← List.length_pos_iff]
      omega
    obtain ⟨k, s', hk, hround, hmax, -, hvector, hdeleted⟩ := round_spec hnonneg hrestricted hne
    refine ⟨k, s', hk, hmax, ?_, hvector, hdeleted⟩
    show (rounds calculateHV nodes.length (new nodes before a) r).bind _ = _
    rw [hrun]
    exact hround

/-- One of three nodes is taken out. -/
theorem reduceSetByN_greedy_three :
    ∃ s hv, reduceSetByN (fun M : List (List ℕ) ↦ M.flatten.sum) [⟨1, 80⟩, ⟨2, 80⟩, ⟨3, 80⟩] [] 1
        (Array.ofFn fun x : Fin (3 * 3) ↦ 2 * (x / 3) + x % 3) = some (s, hv) ∧
      s.inVector.length + 1 = 3 := by
  obtain ⟨s, hv, hrun, hpartition, -⟩ := reduceSetByN_greedy
    (fun M : List (List ℕ) ↦ M.flatten.sum) (fun M ↦ Nat.zero_le _) (fun i j ↦ 2 * i + j)
    [⟨1, 80⟩, ⟨2, 80⟩, ⟨3, 80⟩] [] (by decide) _ (holds_ofFn 3 _) 1 (by decide) 1 le_rfl
  exact ⟨s, hv, hrun, hpartition.restricted⟩

/-! ### Without the matrix -/

end Loops

/-- The fold of `maxHVNode`, after the first places. -/
theorem maxHVNode_lastMax (value : ℕ → ℚ≥0) {v : List NodeIdent} (h : v ≠ []) :
    ∃ k, maxHVNode value v = some k ∧ LastMax value v.length k := by
  have hfold : ∀ n, (n = 0 ∨ ∃ k, LastMax value n k ∧
      (List.range n).foldl (fun (best : Option ℕ × ℚ≥0) k ↦
        if best.2 ≤ value k then (some k, value k) else best) (none, 0) = (some k, value k)) := by
    intro n
    induction n with
    | zero => exact .inl rfl
    | succ n ih =>
      right
      rw [List.range_succ, List.foldl_append, List.foldl_cons, List.foldl_nil]
      rcases ih with rfl | ⟨k, hmax, heq⟩
      · refine ⟨0, ⟨Nat.zero_lt_one, fun j hj ↦ ?_, fun j hj hj' ↦ by omega⟩, if_pos zero_le⟩
        rw [Nat.lt_one_iff.1 hj]
      · rw [heq]
        rcases le_or_gt (value k) (value n) with hle | hlt
        · exact ⟨n, hmax.succ_self hle, if_pos hle⟩
        · exact ⟨k, hmax.succ hlt, if_neg (not_le.2 hlt)⟩
  rcases hfold v.length with hzero | ⟨k, hmax, heq⟩
  · exact absurd (List.length_eq_zero_iff.1 hzero) h
  · exact ⟨k, congrArg Prod.fst heq, hmax⟩

/-- The rounds from the first one on. -/
theorem rounds_succ' {calculateHV : List (List α) → ℚ≥0} {N : ℕ} (s : Reduction α) (r : ℕ) :
    (rounds calculateHV N s (r + 1)).map Prod.fst =
      (round calculateHV N s).bind fun res ↦ (rounds calculateHV N res.1 r).map Prod.fst := by
  induction r with
  | zero =>
    show ((some (s, (0 : ℚ≥0))).bind fun res ↦ round calculateHV N res.1).map Prod.fst = _
    rw [Option.bind_some]
    cases round calculateHV N s <;> rfl
  | succ r ih =>
    have hstep : ∀ (s : Reduction α) (r : ℕ), (rounds calculateHV N s (r + 1)).map Prod.fst =
        ((rounds calculateHV N s r).map Prod.fst).bind fun s ↦
          (round calculateHV N s).map Prod.fst := by
      intro s r
      show ((rounds calculateHV N s r).bind fun res ↦ round calculateHV N res.1).map _ = _
      cases rounds calculateHV N s r <;> rfl
    rw [hstep, ih, Option.bind_assoc]
    refine congrArg _ (funext fun res ↦ ?_)
    exact (hstep res.1 r).symm

/-- **The vectors are those of the reduction without a matrix**, at the volumes that `calculateHV`
finds for them. -/
theorem reduceSetByN_refines (calculateHV : List (List α) → ℚ≥0) (hnodup : nodes.Nodup)
    (hL : Holds nodes.length a L) (before : List NodeIdent) {m : ℕ} (hm : m ≤ nodes.length) :
    (reduceSetByN calculateHV nodes before m a).map
        (fun res ↦ (res.1.inVector, res.1.deletedNodes)) =
      RingManageQuery.reduceSetByN (volume calculateHV L nodes) m nodes before := by
  have hrounds : ∀ (m : ℕ) (s : Reduction α), s.Restricted L nodes → m ≤ s.inVector.length →
      ((rounds calculateHV nodes.length s m).map Prod.fst).map
          (fun s ↦ (s.inVector, s.deletedNodes)) =
        RingManageQuery.reduceSetByN (volume calculateHV L nodes) m s.inVector s.deletedNodes := by
    intro m
    induction m with
    | zero => exact fun s _ _ ↦ rfl
    | succ m ih =>
      intro s hs hm
      have hne : s.inVector ≠ [] := by
        rw [← List.length_pos_iff]
        omega
      have hnonneg : ∀ M, 0 ≤ calculateHV M := fun M ↦ zero_le
      obtain ⟨k, s', hk, hround, hmax, hs', hvector, hdeleted⟩ := round_spec hnonneg hs hne
      obtain ⟨k', hbest, hmax'⟩ := maxHVNode_lastMax (volume calculateHV L nodes s.inVector) hne
      obtain rfl := hmax'.unique hmax
      have hlen := length_eraseSwapBack hk
      rw [rounds_succ', hround, Option.bind_some, ih s' hs' (by rw [hvector]; omega), hvector,
        hdeleted, RingManageQuery.reduceSetByN, hbest]
      dsimp only
      rw [List.getElem?_eq_getElem hk]
      rfl
  refine Eq.trans ?_ (hrounds m (new nodes before a) (new_restricted hnodup before hL) hm)
  rw [Option.map_map]
  rfl

end Reduction

end RingManageQuery

end Meridian

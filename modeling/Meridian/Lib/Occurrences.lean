import Mathlib.Data.List.Basic

/-!
# First occurrences

A set is kept as a list, and elements are compared by `r`, which is an equivalence on the elements
that count (`EquivOn`). An element is appended unless the list has it (`insertNew`).

`firsts` are the elements of a list that nothing before them is equal to. The loop makes the same
list (`insertAll_nil`): it compares with what it has kept, not with all that it has seen.
-/

namespace Meridian.Lib

variable {α : Type} {r : α → α → Bool} {P : α → Prop}

/-- The comparison is an equivalence on the elements that satisfy `P`. -/
structure EquivOn (r : α → α → Bool) (P : α → Prop) : Prop where
  refl : ∀ x, P x → r x x = true
  symm : ∀ x y, P x → P y → r x y = true → r y x = true
  trans : ∀ x y z, P x → P y → P z → r x y = true → r y z = true → r x z = true

variable (r) in
/-- `x` at the end of the list, unless the list has it. -/
def insertNew (l : List α) (x : α) : List α := if l.any (r x) then l else l ++ [x]

variable (r) in
/-- One after the other. -/
def insertAll (l xs : List α) : List α := xs.foldl (insertNew r) l

@[simp] theorem insertAll_nil_right (l : List α) : insertAll r l [] = l := rfl

@[simp] theorem insertAll_cons (l : List α) (x : α) (xs : List α) :
    insertAll r l (x :: xs) = insertAll r (insertNew r l x) xs := rfl

theorem forall_mem_insertNew {l : List α} {x : α} (hl : ∀ z ∈ l, P z) (hx : P x) :
    ∀ z ∈ insertNew r l x, P z := by
  rw [insertNew]
  split
  · exact hl
  · exact List.forall_mem_append.2 ⟨hl, List.forall_mem_singleton.2 hx⟩

theorem insertAll_append (l xs ys : List α) :
    insertAll r l (xs ++ ys) = insertAll r (insertAll r l xs) ys :=
  List.foldl_append

variable (r) in
/-- The elements of the second list that no element before them is equal to; the first list comes
before all of them. -/
def firstsAfter : List α → List α → List α
  | _, [] => []
  | seen, x :: xs =>
    if seen.any (r x) then firstsAfter (seen ++ [x]) xs else x :: firstsAfter (seen ++ [x]) xs

variable (r) in
/-- The elements that no element before them is equal to. -/
def firsts (xs : List α) : List α := firstsAfter r [] xs

theorem insertAll_eq (h : EquivOn r P) {l seen xs : List α} (hl : ∀ x ∈ l, P x)
    (hxs : ∀ x ∈ xs, P x) (hseen : ∀ x, P x → l.any (r x) = seen.any (r x)) :
    insertAll r l xs = l ++ firstsAfter r seen xs := by
  induction xs generalizing l seen with
  | nil => exact (List.append_nil l).symm
  | cons x xs ih =>
    have hx := hxs x List.mem_cons_self
    have hxs' : ∀ y ∈ xs, P y := fun y hy ↦ hxs y (List.mem_cons_of_mem x hy)
    rw [insertAll_cons, firstsAfter, insertNew, ← hseen x hx]
    by_cases hmem : l.any (r x) = true
    · rw [if_pos hmem, if_pos hmem]
      refine ih hl hxs' fun y hy ↦ ?_
      rw [List.any_append, ← hseen y hy, List.any_cons, List.any_nil, Bool.or_false]
      -- what is equal to `x` is equal to the element that has been kept for it
      refine (Bool.or_eq_left_iff_imp.2 fun hyx ↦ ?_).symm
      obtain ⟨z, hz, hxz⟩ := List.any_eq_true.1 hmem
      exact List.any_eq_true.2 ⟨z, hz, h.trans y x z hy hx (hl z hz) hyx hxz⟩
    · rw [if_neg hmem, if_neg hmem]
      have hl' := List.forall_mem_append.2 ⟨hl, List.forall_mem_singleton.2 hx⟩
      have hnext : ∀ y, P y → (l ++ [x]).any (r y) = (seen ++ [x]).any (r y) := by
        intro y hy
        rw [List.any_append, List.any_append, hseen y hy]
      rw [ih hl' hxs' hnext, List.append_assoc, List.singleton_append]

/-- **The loop keeps the first occurrences.** -/
theorem insertAll_nil (h : EquivOn r P) {xs : List α} (hxs : ∀ x ∈ xs, P x) :
    insertAll r [] xs = firsts r xs :=
  insertAll_eq h (fun _ hx ↦ absurd hx List.not_mem_nil) hxs fun _ _ ↦ rfl

theorem firstsAfter_sublist (seen xs : List α) : (firstsAfter r seen xs).Sublist xs := by
  induction xs generalizing seen with
  | nil => exact .slnil
  | cons x xs ih =>
    rw [firstsAfter]
    split
    · exact (ih _).cons x
    · exact (ih _).cons_cons x

theorem firsts_subset (xs : List α) : firsts r xs ⊆ xs := (firstsAfter_sublist [] xs).subset

theorem not_any_of_mem_firstsAfter (h : EquivOn r P) {seen xs : List α} (hseen : ∀ x ∈ seen, P x)
    (hxs : ∀ x ∈ xs, P x) {x : α} (hx : x ∈ firstsAfter r seen xs) : ∀ y ∈ seen, ¬ r y x = true := by
  induction xs generalizing seen with
  | nil => cases hx
  | cons z xs ih =>
    intro y hy hyx
    have hz := hxs z List.mem_cons_self
    have hxs' : ∀ y ∈ xs, P y := fun y hy ↦ hxs y (List.mem_cons_of_mem z hy)
    have hseen' := List.forall_mem_append.2 ⟨hseen, List.forall_mem_singleton.2 hz⟩
    have hlater : x ∈ firstsAfter r (seen ++ [z]) xs → False := fun hx ↦
      ih hseen' hxs' hx y (List.mem_append_left _ hy) hyx
    rw [firstsAfter] at hx
    split at hx
    · exact hlater hx
    · next hnew =>
      rcases List.mem_cons.1 hx with rfl | hx
      · exact hnew (List.any_eq_true.2 ⟨y, hy, h.symm y x (hseen y hy) hz hyx⟩)
      · exact hlater hx

/-- No two of them are equal. -/
theorem firsts_pairwise (h : EquivOn r P) {xs : List α} (hxs : ∀ x ∈ xs, P x) :
    (firsts r xs).Pairwise fun x y ↦ ¬ r x y = true := by
  have hafter : ∀ seen : List α, (∀ x ∈ seen, P x) →
      (firstsAfter r seen xs).Pairwise fun x y ↦ ¬ r x y = true := by
    induction xs with
    | nil => exact fun _ _ ↦ .nil
    | cons x xs ih =>
      intro seen hseen
      have hx := hxs x List.mem_cons_self
      have hxs' : ∀ y ∈ xs, P y := fun y hy ↦ hxs y (List.mem_cons_of_mem x hy)
      have hseen' := List.forall_mem_append.2 ⟨hseen, List.forall_mem_singleton.2 hx⟩
      rw [firstsAfter]
      split
      · exact ih hxs' _ hseen'
      · refine .cons (fun y hy ↦ ?_) (ih hxs' _ hseen')
        exact not_any_of_mem_firstsAfter h hseen' hxs' hy x (by simp)
  exact hafter [] fun _ hx ↦ absurd hx List.not_mem_nil

/-- Every element is equal to one of them. -/
theorem any_firsts (h : EquivOn r P) {xs : List α} (hxs : ∀ x ∈ xs, P x) {x : α} (hx : P x) :
    (∃ z ∈ firsts r xs, r x z = true) ↔ ∃ z ∈ xs, r x z = true := by
  have hafter : ∀ seen : List α, (∀ z ∈ seen, P z) →
      ((∃ z ∈ seen ++ firstsAfter r seen xs, r x z = true) ↔
        ∃ z ∈ seen ++ xs, r x z = true) := by
    induction xs with
    | nil => exact fun _ _ ↦ Iff.rfl
    | cons y xs ih =>
      intro seen hseen
      have hy := hxs y List.mem_cons_self
      have hxs' : ∀ z ∈ xs, P z := fun z hz ↦ hxs z (List.mem_cons_of_mem y hz)
      have hseen' := List.forall_mem_append.2 ⟨hseen, List.forall_mem_singleton.2 hy⟩
      have hnext := ih hxs' (seen ++ [y]) hseen'
      rw [List.append_assoc, List.append_assoc, List.singleton_append, List.singleton_append]
        at hnext
      rw [← hnext, firstsAfter]
      split
      · next hold =>
        refine ⟨fun ⟨z, hz, hxz⟩ ↦ ⟨z, ?_, hxz⟩, fun ⟨z, hz, hxz⟩ ↦ ?_⟩
        · rcases List.mem_append.1 hz with hz | hz
          · exact List.mem_append_left _ hz
          · exact List.mem_append_right _ (List.mem_cons_of_mem y hz)
        · rcases List.mem_append.1 hz with hz | hz
          · exact ⟨z, List.mem_append_left _ hz, hxz⟩
          rcases List.mem_cons.1 hz with rfl | hz
          · -- the element before it that is equal to it counts for it
            obtain ⟨w, hw, hzw⟩ := List.any_eq_true.1 hold
            exact ⟨w, List.mem_append_left _ hw, h.trans x z w hx hy (hseen w hw) hxz hzw⟩
          · exact ⟨z, List.mem_append_right _ hz, hxz⟩
      · exact Iff.rfl
  exact hafter [] fun _ hz ↦ absurd hz List.not_mem_nil

/-! ### What two lists have in common -/

variable (r) in
/-- The elements of the first list that an element of the second is equal to. -/
def common (xs ys : List α) : List α := xs.filter fun x ↦ ys.any (r x)

theorem common_cons (x : α) (xs ys : List α) :
    common r (x :: xs) ys = if ys.any (r x) then x :: common r xs ys else common r xs ys :=
  List.filter_cons

theorem common_subset (xs ys : List α) : common r xs ys ⊆ xs := List.filter_subset_self xs

/-- An element is equal to one of them if it is equal to an element of each list. -/
theorem any_common (h : EquivOn r P) {xs ys : List α} (hxs : ∀ x ∈ xs, P x) (hys : ∀ y ∈ ys, P y)
    {x : α} (hx : P x) : (∃ z ∈ common r xs ys, r x z = true) ↔
      (∃ z ∈ xs, r x z = true) ∧ ∃ z ∈ ys, r x z = true := by
  constructor
  · rintro ⟨z, hz, hxz⟩
    obtain ⟨hz, hany⟩ := List.mem_filter.1 hz
    obtain ⟨y, hy, hzy⟩ := List.any_eq_true.1 hany
    exact ⟨⟨z, hz, hxz⟩, y, hy, h.trans x z y hx (hxs z hz) (hys y hy) hxz hzy⟩
  · rintro ⟨⟨z, hz, hxz⟩, y, hy, hxy⟩
    have hzx := h.symm x z hx (hxs z hz) hxz
    have hzy := h.trans z x y (hxs z hz) hx (hys y hy) hzx hxy
    exact ⟨z, List.mem_filter.2 ⟨hz, List.any_eq_true.2 ⟨y, hy, hzy⟩⟩, hxz⟩

end Meridian.Lib

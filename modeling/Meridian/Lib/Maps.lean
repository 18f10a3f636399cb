import Std.Data.ExtTreeMap
import Std.Data.ExtTreeSet
import Mathlib.Tactic.TypeStar

/-!
# Finite maps

What a map holds after an insertion or a removal, and what a set has in it after a removal, where the
comparison of the keys tells all of them apart.
-/

namespace Meridian.Lib

variable {κ β : Type*} [Ord κ] [Std.TransOrd κ] [Std.LawfulEqOrd κ] {m : Std.ExtTreeMap κ β}
  {k l : κ} {v w : β}

/-- What a key has after an insertion. -/
theorem getElem?_insert [DecidableEq κ] :
    (m.insert k v)[l]? = if k = l then some v else m[l]? := by
  rw [Std.ExtTreeMap.getElem?_insert]
  simp only [Std.LawfulEqCmp.compare_eq_iff_eq]

/-- The other keys stay. -/
theorem getElem?_insert_of_ne (h : l ≠ k) : (m.insert k v)[l]? = m[l]? := by
  rw [Std.ExtTreeMap.getElem?_insert, if_neg fun heq ↦ h (Std.LawfulEqCmp.eq_of_compare heq).symm]

/-- An entry is the new one or an old one of another key. -/
theorem getElem?_insert_eq_some :
    (m.insert k v)[l]? = some w ↔ (k = l ∧ v = w) ∨ (k ≠ l ∧ m[l]? = some w) := by
  rw [Std.ExtTreeMap.getElem?_insert]
  split
  · next h => simp [Std.LawfulEqCmp.eq_of_compare h]
  · next h =>
    have hne : k ≠ l := fun hkl ↦ h (hkl ▸ Std.ReflCmp.compare_self)
    simp [hne]

/-- Every key of a map is one after an insertion. -/
theorem exists_getElem?_insert (h : k ≠ l → ∃ w, m[l]? = some w) :
    ∃ w, (m.insert k v)[l]? = some w := by
  by_cases hkl : k = l
  · exact ⟨v, getElem?_insert_eq_some.2 (Or.inl ⟨hkl, rfl⟩)⟩
  · obtain ⟨w, hw⟩ := h hkl
    exact ⟨w, getElem?_insert_eq_some.2 (Or.inr ⟨hkl, hw⟩)⟩

/-- What a key has after an erasure. -/
theorem getElem?_erase [DecidableEq κ] : (m.erase k)[l]? = if k = l then none else m[l]? := by
  rw [Std.ExtTreeMap.getElem?_erase]
  simp only [Std.LawfulEqCmp.compare_eq_iff_eq]

/-- The other keys stay. -/
theorem getElem?_erase_of_ne (h : l ≠ k) : (m.erase k)[l]? = m[l]? := by
  rw [Std.ExtTreeMap.getElem?_erase, if_neg fun heq ↦ h (Std.LawfulEqCmp.eq_of_compare heq).symm]

/-- An entry is an old one of another key. -/
theorem getElem?_erase_eq_some : (m.erase k)[l]? = some w ↔ k ≠ l ∧ m[l]? = some w := by
  rw [Std.ExtTreeMap.getElem?_erase]
  split
  · next h => simp [Std.LawfulEqCmp.eq_of_compare h]
  · next h =>
    have hne : k ≠ l := fun hkl ↦ h (hkl ▸ Std.ReflCmp.compare_self)
    simp [hne]

/-- The keys that are left in a map. -/
theorem mem_erase_iff : l ∈ m.erase k ↔ l ≠ k ∧ l ∈ m := by
  rw [Std.ExtTreeMap.mem_erase, ne_eq, Std.LawfulEqCmp.compare_eq_iff_eq, eq_comm]

/-- The keys that are left in a set. -/
theorem mem_erase_set_iff {s : Std.ExtTreeSet κ} : l ∈ s.erase k ↔ l ≠ k ∧ l ∈ s := by
  rw [Std.ExtTreeSet.mem_erase, ne_eq, Std.LawfulEqCmp.compare_eq_iff_eq, eq_comm]

end Meridian.Lib

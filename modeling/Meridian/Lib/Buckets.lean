import Mathlib.Data.List.Basic
import Mathlib.Data.List.Perm.Basic
import Std.Data.ExtTreeMap

/-!
# Buckets

A map from keys to vectors, none of which is empty: the way to keep, for every key, the values that
are filed under it, where a map with repeated keys is not at hand.

* `push` files a value under a key; a key that has no vector yet gets one.
* `pull` takes a value out of the vector of a key. The last entry moves into its place, and a vector
  that is empty then goes.
* `Tidy` says that no vector is empty and none has an entry twice. `push` and `pull` keep it, and
  `mem_bucket_push` and `exists_pull` say where a value is filed afterwards.
-/

namespace Meridian.Lib

variable {α τ : Type*}

/-! ### Taking an entry out of a vector -/

/-- The last entry moves into the place of another one, or goes if that is the last place. -/
theorem set_getLast_dropLast_perm {l : List α} {i : ℕ} {b : α} (hi : i < l.length)
    (hb : l.getLast? = some b) : (l[i] :: (l.set i b).dropLast).Perm l := by
  obtain ⟨init, rfl⟩ := List.getLast?_eq_some_iff.1 hb
  rcases Nat.lt_or_ge i init.length with h | h
  · -- an inner position: the last entry is moved into the gap
    rw [List.getElem_append_left h, List.set_append_left _ _ h, List.dropLast_concat]
    calc (init[i] :: init.set i b).Perm (init[i] :: b :: init.eraseIdx i) :=
          (List.set_perm_cons_eraseIdx h b).cons _
      _ |>.Perm (b :: init[i] :: init.eraseIdx i) := List.Perm.swap _ _ _
      _ |>.Perm (b :: init) := (List.getElem_cons_eraseIdx_perm h).cons _
      _ |>.Perm (init ++ [b]) := (List.perm_append_singleton b init).symm
  · -- the last position itself
    have hi' : i = init.length := by
      rw [List.length_append, List.length_singleton] at hi
      omega
    subst hi'
    simp only [List.getElem_concat_length, List.set_append_right _ _ (Nat.le_refl _), Nat.sub_self,
      List.set_cons_zero, List.dropLast_concat]
    exact (List.perm_append_singleton b init).symm

/-- A vector without the first `a` in it, the last entry in its place. `none` if there is no `a`. -/
def swapRemove [DecidableEq α] (l : List α) (a : α) : Option (List α) :=
  match l.findIdx? (· == a), l.getLast? with
  | some i, some b => some (l.set i b).dropLast
  | _, _ => none

theorem exists_swapRemove [DecidableEq α] {l : List α} {a : α} (h : a ∈ l) :
    ∃ l', swapRemove l a = some l' ∧ (a :: l').Perm l := by
  have hfind : (l.findIdx? (· == a)).isSome := by
    rw [List.findIdx?_isSome, List.any_eq_true]
    exact ⟨a, h, beq_self_eq_true a⟩
  obtain ⟨i, hi⟩ := Option.isSome_iff_exists.1 hfind
  obtain ⟨hlt, hbeq, -⟩ := List.findIdx?_eq_some_iff_getElem.1 hi
  have hlast := List.getLast?_eq_some_getLast (List.ne_nil_of_mem h)
  refine ⟨_, by rw [swapRemove, hi, hlast], ?_⟩
  have hperm := set_getLast_dropLast_perm hlt hlast
  rw [beq_iff_eq.1 hbeq] at hperm
  exact hperm

/-! ### Filing -/

namespace Buckets

variable {cmp : τ → τ → Ordering}

section Definitions

variable [Std.TransCmp cmp] (m : Std.ExtTreeMap τ (List α) cmp) (t : τ) (a : α)

/-- The values that are filed under a key. -/
def bucket : List α := m[t]?.getD []

/-- A value is filed under a key. -/
def push : Std.ExtTreeMap τ (List α) cmp :=
  match m[t]? with
  | some l => m.insert t (l ++ [a])
  | none => m.insert t [a]

/-- A value is taken out of the vector of a key. `none` if it is not there. -/
def pull [DecidableEq α] : Option (Std.ExtTreeMap τ (List α) cmp) :=
  match m[t]? with
  | none => none
  | some l => (swapRemove l a).map fun l' ↦ if l'.isEmpty then m.erase t else m.insert t l'

/-- No vector is empty, and none has an entry twice. -/
def Tidy : Prop := ∀ (t : τ) (l : List α), m[t]? = some l → l ≠ [] ∧ l.Nodup

end Definitions

variable [Std.TransCmp cmp] {m : Std.ExtTreeMap τ (List α) cmp} {t u : τ} {a x : α}

theorem mem_bucket : x ∈ bucket m t ↔ ∃ l, m[t]? = some l ∧ x ∈ l := by
  rw [bucket]
  cases m[t]? with
  | none => simp
  | some l => simp

theorem Tidy.nodup_bucket (h : Tidy m) : (bucket m t).Nodup := by
  rw [bucket]
  cases hl : m[t]? with
  | none => exact List.nodup_nil
  | some l => exact (h t l hl).2

theorem tidy_empty : Tidy (∅ : Std.ExtTreeMap τ (List α) cmp) := by
  intro t l hl
  rw [Std.ExtTreeMap.getElem?_empty] at hl
  exact absurd hl (Option.some_ne_none _).symm

theorem push_eq : push m t a = m.insert t (bucket m t ++ [a]) := by
  rw [push, bucket]
  cases m[t]? <;> rfl

/-- What has been taken out was in the vector of its key. -/
theorem pull_eq_some [DecidableEq α] {m' : Std.ExtTreeMap τ (List α) cmp}
    (h : pull m t a = some m') : ∃ l l', m[t]? = some l ∧ swapRemove l a = some l' ∧
      m' = if l'.isEmpty then m.erase t else m.insert t l' := by
  rw [pull] at h
  cases hl : m[t]? with
  | none =>
    rw [hl] at h
    exact absurd h (Option.some_ne_none _).symm
  | some l =>
    rw [hl] at h
    obtain ⟨l', hl', rfl⟩ := Option.map_eq_some_iff.1 h
    exact ⟨l, l', rfl, hl', rfl⟩

variable [Std.LawfulEqCmp cmp] [DecidableEq τ]

omit [Std.TransCmp cmp] [DecidableEq τ] in
theorem cmp_eq_iff : cmp t u = .eq ↔ u = t :=
  Std.LawfulEqCmp.compare_eq_iff_eq.trans eq_comm

theorem getElem?_push :
    (push m t a)[u]? = if u = t then some (bucket m t ++ [a]) else m[u]? := by
  rw [push_eq, Std.ExtTreeMap.getElem?_insert]
  simp only [cmp_eq_iff]

theorem mem_bucket_push : x ∈ bucket (push m t a) u ↔ x ∈ bucket m u ∨ (u = t ∧ x = a) := by
  rw [bucket, getElem?_push]
  by_cases hu : u = t
  · subst hu
    rw [if_pos rfl, Option.getD_some, List.mem_append, List.mem_singleton]
    simp
  · rw [if_neg hu, ← bucket]
    simp [hu]

theorem Tidy.push (h : Tidy m) (ha : a ∉ bucket m t) : Tidy (push m t a) := by
  intro u l hl
  rw [getElem?_push] at hl
  by_cases hu : u = t
  · rw [if_pos hu, Option.some.injEq] at hl
    subst hl
    refine ⟨List.concat_ne_nil _ _, List.nodup_append.2 ⟨h.nodup_bucket, by simp, ?_⟩⟩
    rintro y hy z hz rfl
    exact ha (List.mem_singleton.1 hz ▸ hy)
  · rw [if_neg hu] at hl
    exact h u l hl

/-- A value that is filed under a key can be taken out, and nothing else moves to another key. -/
theorem Tidy.exists_pull [DecidableEq α] (h : Tidy m) (ha : a ∈ bucket m t) :
    ∃ m', pull m t a = some m' ∧ Tidy m' ∧
      ∀ u x, x ∈ bucket m' u ↔ x ∈ bucket m u ∧ ¬(u = t ∧ x = a) := by
  obtain ⟨l, hl, hal⟩ := mem_bucket.1 ha
  obtain ⟨l', hl', hperm⟩ := exists_swapRemove hal
  have hnodup : (a :: l').Nodup := hperm.nodup_iff.2 (h t l hl).2
  have hmem : ∀ x, x ∈ l' ↔ x ∈ l ∧ x ≠ a := by
    intro x
    rw [← hperm.mem_iff, List.mem_cons]
    constructor
    · intro hx
      exact ⟨Or.inr hx, fun hxa ↦ (List.nodup_cons.1 hnodup).1 (hxa ▸ hx)⟩
    · rintro ⟨rfl | hx, hne⟩
      · exact absurd rfl hne
      · exact hx
  -- the vector under `t` is `l'` then, or none if that is empty
  have hget : ∀ u, (if l'.isEmpty then m.erase t else m.insert t l')[u]? =
      if u = t then (if l'.isEmpty then none else some l') else m[u]? := by
    intro u
    by_cases he : l'.isEmpty = true
    · simp only [he, if_true]
      rw [Std.ExtTreeMap.getElem?_erase]
      simp only [cmp_eq_iff]
    · simp only [he, if_false, Bool.false_eq_true]
      rw [Std.ExtTreeMap.getElem?_insert]
      simp only [cmp_eq_iff]
  refine ⟨_, by rw [pull, hl]; dsimp only; rw [hl']; rfl, ?_, ?_⟩
  · intro u k hk
    rw [hget] at hk
    by_cases hu : u = t
    · rw [if_pos hu] at hk
      by_cases he : l'.isEmpty = true
      · simp [he] at hk
      · simp only [he, if_false, Bool.false_eq_true, Option.some.injEq] at hk
        subst hk
        exact ⟨fun hnil ↦ he (List.isEmpty_iff.2 hnil), (List.nodup_cons.1 hnodup).2⟩
    · rw [if_neg hu] at hk
      exact h u k hk
  · intro u x
    rw [mem_bucket, mem_bucket]
    simp only [hget]
    by_cases hu : u = t
    · subst hu
      by_cases he : l'.isEmpty = true
      · have hl'nil := List.isEmpty_iff.1 he
        have := hmem x
        simp only [hl'nil, List.not_mem_nil, false_iff] at this
        simp [he, hl]
        tauto
      · have := hmem x
        simp [he, hl]
        tauto
    · simp [hu]

end Buckets

end Meridian.Lib

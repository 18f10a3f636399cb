import Mathlib.Data.Nat.Notation

/-!
# Runs of computations with a state that can fail

* `Runs m s a s'`: from the state `s` the computation `m` ends with the result `a` in the state `s'`.
* `Meets E m s Q`: from `s`, the result and the state at the end satisfy `Q`, or the failure satisfies
  `E`. What is known of a computation is stated so, for any `s` that satisfies a precondition, and
  `Meets.mono` uses it in the proof for a longer one.
* `ReadOnly m`: `m` never changes the state.

The `simp` lemmas take a composed computation apart.
-/

namespace Meridian.Lib

variable {σ ε α β : Type}

/-- From `s`, `m` ends with `a` in `s'`. -/
def Runs (m : StateT σ (Except ε) α) (s : σ) (a : α) (s' : σ) : Prop := m s = .ok (a, s')

variable {m : StateT σ (Except ε) α} {f : α → StateT σ (Except ε) β} {s s' : σ} {a a' : α} {b : β}

/-- A computation has one result. -/
theorem Runs.unique {s'' : σ} (h : Runs m s a s') (h' : Runs m s a' s'') : a = a' ∧ s' = s'' := by
  have heq : (a, s') = (a', s'') := Except.ok.inj (h.symm.trans h')
  exact Prod.mk.inj heq

/-- A value leaves the state. -/
@[simp] theorem runs_pure : Runs (pure a' : StateT σ (Except ε) α) s a s' ↔ a' = a ∧ s = s' := by
  show (Except.ok (a', s) : Except ε (α × σ)) = .ok (a, s') ↔ _
  rw [Except.ok.injEq, Prod.mk.injEq]

/-- What throws does not run. -/
@[simp] theorem runs_throw {e : ε} : ¬ Runs (throw e : StateT σ (Except ε) α) s a s' := by
  intro h
  have h : (Except.error e : Except ε (α × σ)) = .ok (a, s') := h
  exact absurd h (by simp)

/-- The first computation runs, and then the second one from where it ends. -/
@[simp] theorem runs_bind :
    Runs (m >>= f) s b s' ↔ ∃ a t, Runs m s a t ∧ Runs (f a) t b s' := by
  show (do let r ← m s; f r.1 r.2 : Except ε (β × σ)) = .ok (b, s') ↔ _
  cases h : m s with
  | error e =>
    refine ⟨fun h' ↦ absurd h' (by simp [bind, Except.bind]), ?_⟩
    rintro ⟨a, t, hm, -⟩
    exact absurd (h.symm.trans hm) (by simp)
  | ok r =>
    refine ⟨fun h' ↦ ⟨r.1, r.2, h, h'⟩, ?_⟩
    rintro ⟨a, t, hm, hf⟩
    obtain rfl : r = (a, t) := Except.ok.inj (h.symm.trans hm)
    exact hf

/-- The result is mapped. -/
@[simp] theorem runs_map {g : α → β} :
    Runs (g <$> m) s b s' ↔ ∃ a, Runs m s a s' ∧ g a = b := by
  rw [← bind_pure_comp, runs_bind]
  simp only [runs_pure]
  exact ⟨fun ⟨a, t, hm, ha, ht⟩ ↦ ⟨a, ht ▸ hm, ha⟩, fun ⟨a, hm, ha⟩ ↦ ⟨a, s', hm, ha, rfl⟩⟩

/-- The state is the result. -/
@[simp] theorem runs_get {t : σ} :
    Runs (get : StateT σ (Except ε) σ) s t s' ↔ s = t ∧ s = s' := by
  show (Except.ok (s, s) : Except ε (σ × σ)) = .ok (t, s') ↔ _
  rw [Except.ok.injEq, Prod.mk.injEq]

/-- The state is replaced. -/
@[simp] theorem runs_modify {g : σ → σ} {u : PUnit} :
    Runs (modify g : StateT σ (Except ε) PUnit) s u s' ↔ g s = s' := by
  show (Except.ok (PUnit.unit, g s) : Except ε (PUnit × σ)) = .ok (u, s') ↔ _
  rw [Except.ok.injEq, Prod.mk.injEq]
  exact and_iff_right rfl

/-! ### Specifications -/

/-- From `s`, `m` ends as `Q` says or fails as `E` says. -/
def Meets (E : ε → Prop) (m : StateT σ (Except ε) α) (s : σ) (Q : α → σ → Prop) : Prop :=
  match m s with
  | .ok (a, s') => Q a s'
  | .error e => E e

variable {E E' : ε → Prop} {P Q : α → σ → Prop} {R : β → σ → Prop}

/-- What runs meets the postcondition. -/
theorem Meets.run (h : Meets E m s Q) (hm : m s = .ok (a, s')) : Q a s' := by
  unfold Meets at h
  rwa [hm] at h

/-- What throws meets the condition on errors. -/
theorem Meets.fail {e : ε} (h : Meets E m s Q) (hm : m s = .error e) : E e := by
  unfold Meets at h
  rwa [hm] at h

/-- The two cases, taken together. -/
theorem meets_iff : Meets E m s Q ↔
    (∀ a s', m s = .ok (a, s') → Q a s') ∧ ∀ e, m s = .error e → E e := by
  refine ⟨fun h ↦ ⟨fun a s' hm ↦ h.run hm, fun e hm ↦ h.fail hm⟩, fun ⟨hQ, hE⟩ ↦ ?_⟩
  unfold Meets
  split
  · next a s' hm => exact hQ a s' hm
  · next e hm => exact hE e hm

/-- The rule of consequence. -/
theorem Meets.mono (h : Meets E m s P) (hPQ : ∀ a s', P a s' → Q a s') : Meets E m s Q :=
  meets_iff.2 ⟨fun a s' hm ↦ hPQ a s' (h.run hm), fun _ hm ↦ h.fail hm⟩

/-- More failures are allowed. -/
theorem Meets.mono_fail (h : Meets E m s P) (hE : ∀ e, E e → E' e) : Meets E' m s P :=
  meets_iff.2 ⟨fun _ _ hm ↦ h.run hm, fun e hm ↦ hE e (h.fail hm)⟩

/-- Two postconditions. -/
theorem Meets.and (h : Meets E m s P) (h' : Meets E m s Q) :
    Meets E m s fun a s' ↦ P a s' ∧ Q a s' :=
  meets_iff.2 ⟨fun _ _ hm ↦ ⟨h.run hm, h'.run hm⟩, fun _ hm ↦ h.fail hm⟩

/-- What is only known under a condition. -/
theorem meets_imp {c : Prop} (h : c → Meets (fun _ : ε ↦ True) m s Q) :
    Meets (fun _ ↦ True) m s fun a s' ↦ c → Q a s' :=
  meets_iff.2 ⟨fun _ _ hm hc ↦ (h hc).run hm, fun _ _ ↦ trivial⟩

/-- A value meets what holds of it. -/
@[simp] theorem meets_pure : Meets E (pure a : StateT σ (Except ε) α) s Q ↔ Q a s := Iff.rfl

/-- An error meets what holds of it. -/
@[simp] theorem meets_throw {e : ε} : Meets E (throw e : StateT σ (Except ε) α) s Q ↔ E e := Iff.rfl

/-- The rule of composition. -/
@[simp] theorem meets_bind :
    Meets E (m >>= f) s R ↔ Meets E m s fun a s' ↦ Meets E (f a) s' R := by
  show (match (do let r ← m s; f r.1 r.2 : Except ε (β × σ)) with
    | .ok (b, s') => R b s'
    | .error e => E e) ↔ _
  unfold Meets
  cases h : m s with
  | error e => exact Iff.rfl
  | ok r => exact Iff.rfl

/-- The result is mapped. -/
@[simp] theorem meets_map {g : α → β} :
    Meets E (g <$> m) s R ↔ Meets E m s fun a s' ↦ R (g a) s' := by
  rw [← bind_pure_comp, meets_bind]
  exact Iff.rfl

/-- The state is the result. -/
@[simp] theorem meets_get {R : σ → σ → Prop} :
    Meets E (get : StateT σ (Except ε) σ) s R ↔ R s s := Iff.rfl

/-- The state is replaced. -/
@[simp] theorem meets_modify {g : σ → σ} {R : PUnit → σ → Prop} :
    Meets E (modify g : StateT σ (Except ε) PUnit) s R ↔ R ⟨⟩ (g s) := Iff.rfl

/-- What a computation is known to do. -/
theorem Runs.meets (h : Runs m s a s') (hQ : Q a s') : Meets E m s Q := by
  have h : m s = .ok (a, s') := h
  unfold Meets
  rwa [h]

/-- Only the condition on errors counts. -/
theorem meets_of_error {e : ε} (h : m s = .error e) (hE : E e) : Meets E m s Q := by
  unfold Meets
  rwa [h]

/-- A computation behind a guard. -/
theorem meets_ite {c : Prop} [Decidable c] {m' : StateT σ (Except ε) α} :
    Meets E (if c then m else m') s Q ↔ (c → Meets E m s Q) ∧ (¬ c → Meets E m' s Q) := by
  by_cases hc : c <;> simp [hc]

/-! ### Computations that only read -/

/-- `m` leaves the state as it is. -/
def ReadOnly (m : StateT σ (Except ε) α) : Prop := ∀ s, Meets (fun _ ↦ True) m s fun _ s' ↦ s' = s

/-- A value. -/
theorem ReadOnly.pure (a : α) : ReadOnly (Pure.pure a : StateT σ (Except ε) α) := fun _ ↦ rfl

/-- An error leaves no state at all. -/
theorem ReadOnly.throw (e : ε) : ReadOnly (MonadExcept.throw e : StateT σ (Except ε) α) :=
  fun _ ↦ trivial

/-- The state is read. -/
theorem ReadOnly.get : ReadOnly (MonadState.get : StateT σ (Except ε) σ) := fun _ ↦ rfl

/-- What follows a computation that only reads starts in the same state. -/
theorem ReadOnly.then (h : ReadOnly m) (hf : ∀ a, Meets (fun _ ↦ True) (f a) s R) :
    Meets (fun _ ↦ True) (m >>= f) s R := by
  refine meets_bind.2 ((h s).mono fun a s' hs' ↦ ?_)
  subst hs'
  exact hf a

/-- One computation after another. -/
theorem ReadOnly.bind (h : ReadOnly m) (hf : ∀ a, ReadOnly (f a)) : ReadOnly (m >>= f) :=
  fun s ↦ h.then fun a ↦ hf a s

/-- Both branches only read. -/
theorem ReadOnly.ite {c : Prop} [Decidable c] {m' : StateT σ (Except ε) α} (h : ReadOnly m)
    (h' : ReadOnly m') : ReadOnly (if c then m else m') := by
  split
  · exact h
  · exact h'

/-- One after the other, for each entry of a list. -/
theorem ReadOnly.mapM {γ : Type} {f : γ → StateT σ (Except ε) α} (h : ∀ x, ReadOnly (f x))
    (xs : List γ) : ReadOnly (xs.mapM f) := by
  induction xs with
  | nil => exact .pure []
  | cons x xs ih =>
    rw [List.mapM_cons]
    exact (h x).bind fun _ ↦ ih.bind fun _ ↦ .pure _

end Meridian.Lib

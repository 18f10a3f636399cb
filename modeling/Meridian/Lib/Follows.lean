import Meridian.Lib.Runs

/-!
# Two computations side by side

`Follows m s m' t Q`: whenever the computation `m` ends from `s`, the computation `m'` ends from
`t`, and `Q` holds of the two results and the two states at the end. It is what a simulation proves
of one step, and the rules below take composed computations apart in parallel.
-/

namespace Meridian.Lib

variable {σ τ ε α β γ δ : Type}

/-- Whenever `m` ends from `s`, so does `m'` from `t`, as `Q` says. -/
def Follows (m : StateT σ (Except ε) α) (s : σ) (m' : StateT τ (Except ε) β) (t : τ)
    (Q : α → σ → β → τ → Prop) : Prop :=
  ∀ a s', Runs m s a s' → ∃ b t', Runs m' t b t' ∧ Q a s' b t'

variable {m : StateT σ (Except ε) α} {m' : StateT τ (Except ε) β} {s : σ} {t : τ}
  {f : α → StateT σ (Except ε) γ} {f' : β → StateT τ (Except ε) δ} {P Q : α → σ → β → τ → Prop}
  {R : γ → σ → δ → τ → Prop}

theorem Follows.mono (h : Follows m s m' t P) (hPQ : ∀ a s' b t', P a s' b t' → Q a s' b t') :
    Follows m s m' t Q := by
  intro a s' hm
  obtain ⟨b, t', hm', hP⟩ := h a s' hm
  exact ⟨b, t', hm', hPQ a s' b t' hP⟩

theorem follows_pure {a : α} {b : β} (h : Q a s b t) :
    Follows (pure a : StateT σ (Except ε) α) s (pure b) t Q := by
  intro a' s' hm
  obtain ⟨rfl, rfl⟩ := runs_pure.1 hm
  exact ⟨b, t, runs_pure.2 ⟨rfl, rfl⟩, h⟩

/-- A computation that fails is followed by any other. -/
theorem follows_throw {e : ε} : Follows (throw e : StateT σ (Except ε) α) s m' t Q :=
  fun _ _ hm ↦ absurd hm runs_throw

theorem Follows.bind (h : Follows m s m' t P)
    (hf : ∀ a s' b t', P a s' b t' → Follows (f a) s' (f' b) t' R) :
    Follows (m >>= f) s (m' >>= f') t R := by
  intro c s'' hm
  obtain ⟨a, s', hm, hfa⟩ := runs_bind.1 hm
  obtain ⟨b, t', hm', hP⟩ := h a s' hm
  obtain ⟨d, t'', hfb, hR⟩ := hf a s' b t' hP c s'' hfa
  exact ⟨d, t'', runs_bind.2 ⟨b, t', hm', hfb⟩, hR⟩

/-- What the computation that is followed does is known. -/
theorem Follows.runs (h : Follows m s m' t Q) :
    Follows m s m' t fun a s' b t' ↦ Q a s' b t' ∧ Runs m s a s' := by
  intro a s' hm
  obtain ⟨b, t', hm', hQ⟩ := h a s' hm
  exact ⟨b, t', hm', hQ, hm⟩

/-- The results of the one are known, and the other ends with results that go with them. -/
theorem Meets.follows {E : ε → Prop} {S : α → σ → Prop} (h : Meets E m s S)
    (hm' : ∀ a s', S a s' → ∃ b t', Runs m' t b t' ∧ Q a s' b t') : Follows m s m' t Q :=
  fun a s' hm ↦ hm' a s' (h.run hm)

end Meridian.Lib

import Mathlib.Data.List.Basic

/-!
# Runs of a partial step function

A component that takes its inputs one after another is a step function `σ → α → Option σ`: `none`
is a step that does not complete (an aborted process, a call outside the component's contract).
This module says what a whole run of such a function is, and packages the induction every
invariant proof needs, so that a development proves one fact about one step and reads the fact
about runs off the rules below.

* `run step s as` is the state after the inputs `as`, if every step completes.
* `AllSteps G step s as` says that every input of the run meets the condition `G` in the state it
  arrives in. It is a condition on the *inputs*: nothing is said about the states themselves.
* `run_invariant` is the rule: an invariant that every step meeting `G` preserves holds after every
  run whose steps all meet `G`.
-/

namespace Meridian.Lib

variable {σ α : Type*}

/-- The state after a sequence of steps, if all of them complete. -/
def run (step : σ → α → Option σ) : σ → List α → Option σ
  | s, [] => some s
  | s, a :: as =>
    match step s a with
    | some s' => run step s' as
    | none => none

/-- Every input of the run meets `G` in the state in which it arrives. -/
def AllSteps (G : σ → α → Prop) (step : σ → α → Option σ) : σ → List α → Prop
  | _, [] => True
  | s, a :: as => G s a ∧ ∀ s', step s a = some s' → AllSteps G step s' as

variable {step : σ → α → Option σ} {G : σ → α → Prop}

@[simp] theorem run_nil (s : σ) : run step s [] = some s := rfl

theorem run_cons (s : σ) (a : α) (as : List α) :
    run step s (a :: as) = (step s a).bind fun s' ↦ run step s' as := by
  rw [run]
  cases step s a <;> rfl

theorem run_cons_eq_some {s t : σ} {a : α} {as : List α} :
    run step s (a :: as) = some t ↔ ∃ s', step s a = some s' ∧ run step s' as = some t := by
  rw [run_cons, Option.bind_eq_some_iff]

theorem run_append (s : σ) (as bs : List α) :
    run step s (as ++ bs) = (run step s as).bind fun s' ↦ run step s' bs := by
  induction as generalizing s with
  | nil => rfl
  | cons a as ih =>
    rw [List.cons_append, run_cons, run_cons]
    cases step s a with
    | none => rfl
    | some s' => exact ih s'

/-- Every prefix of a completed run is itself completed. -/
theorem exists_run_of_prefix {s t : σ} {as bs : List α} (h : run step s (as ++ bs) = some t) :
    ∃ u, run step s as = some u ∧ run step u bs = some t := by
  rw [run_append, Option.bind_eq_some_iff] at h
  exact h

@[simp] theorem allSteps_nil (s : σ) : AllSteps G step s [] := trivial

theorem AllSteps.of_forall (h : ∀ s a, G s a) (s : σ) (as : List α) : AllSteps G step s as := by
  induction as generalizing s with
  | nil => trivial
  | cons a as ih => exact ⟨h s a, fun s' _ ↦ ih s'⟩

/-- A condition that every input of the list meets in any state is met along the run. -/
theorem AllSteps.imp {G' : σ → α → Prop} (hG : ∀ s a, G s a → G' s a) {s : σ} {as : List α}
    (h : AllSteps G step s as) : AllSteps G' step s as := by
  induction as generalizing s with
  | nil => trivial
  | cons a as ih => exact ⟨hG s a h.1, fun s' hs' ↦ ih (h.2 s' hs')⟩

theorem AllSteps.of_inputs {as : List α} (h : ∀ a ∈ as, ∀ s, G s a) (s : σ) :
    AllSteps G step s as := by
  induction as generalizing s with
  | nil => trivial
  | cons a as ih =>
    exact ⟨h a (List.mem_cons_self ..) s,
      fun s' _ ↦ ih (fun b hb ↦ h b (List.mem_cons_of_mem _ hb)) s'⟩

/-- **The invariant rule.** What every step meeting `G` preserves holds after every run whose steps
all meet `G`. -/
theorem run_invariant {P : σ → Prop}
    (hstep : ∀ s a s', P s → G s a → step s a = some s' → P s') :
    ∀ {as : List α} {s t : σ}, P s → AllSteps G step s as → run step s as = some t → P t := by
  intro as
  induction as with
  | nil =>
    intro s t hs _ hrun
    rw [run_nil, Option.some.injEq] at hrun
    exact hrun ▸ hs
  | cons a as ih =>
    intro s t hs hall hrun
    obtain ⟨s', hs', hrun'⟩ := run_cons_eq_some.1 hrun
    exact ih (hstep s a s' hs hall.1 hs') (hall.2 s' hs') hrun'

/-- **The exact condition.** Where an input that does not meet `G` breaks what the invariant
promises, a run keeps the promise exactly if its inputs meet `G`. -/
theorem forall_run_iff_allSteps {P Q : σ → Prop} (hPQ : ∀ s, P s → Q s)
    (hstep : ∀ s a s', P s → G s a → step s a = some s' → P s')
    (hbreak : ∀ s a, P s → ¬ G s a → ∃ s', step s a = some s' ∧ ¬ Q s') :
    ∀ {as : List α} {s : σ}, P s →
      ((∀ earlier t, earlier <+: as → run step s earlier = some t → Q t) ↔ AllSteps G step s as) := by
  intro as
  induction as with
  | nil =>
    intro s hs
    refine iff_of_true (fun earlier t hprefix hrun ↦ ?_) trivial
    rw [List.prefix_nil.1 hprefix, run_nil, Option.some.injEq] at hrun
    exact hrun ▸ hPQ s hs
  | cons a as ih =>
    intro s hs
    constructor
    · intro h
      have hG : G s a := by
        by_contra hG
        obtain ⟨s', hs', hQ⟩ := hbreak s a hs hG
        exact hQ (h [a] s' ⟨as, rfl⟩ (run_cons_eq_some.2 ⟨s', hs', rfl⟩))
      refine ⟨hG, fun s' hs' ↦ (ih (hstep s a s' hs hG hs')).1 fun earlier t hprefix hrun ↦ ?_⟩
      exact h (a :: earlier) t ((List.prefix_cons_inj a).2 hprefix)
        (run_cons_eq_some.2 ⟨s', hs', hrun⟩)
    · intro h earlier t hprefix hrun
      cases earlier with
      | nil =>
        rw [run_nil, Option.some.injEq] at hrun
        exact hrun ▸ hPQ s hs
      | cons b earlier =>
        obtain ⟨rfl, hearlier⟩ := List.cons_prefix_cons.1 hprefix
        obtain ⟨s', hs', hrun'⟩ := run_cons_eq_some.1 hrun
        exact (ih (hstep s b s' hs h.1 hs')).2 (h.2 s' hs') earlier t hearlier hrun'

/-- What an invariant implies is met along the run. -/
theorem AllSteps.of_invariant {P : σ → Prop} (hG : ∀ s a, P s → G s a)
    (hstep : ∀ s a s', P s → step s a = some s' → P s') {s : σ} (hs : P s) (as : List α) :
    AllSteps G step s as := by
  induction as generalizing s with
  | nil => trivial
  | cons a as ih => exact ⟨hG s a hs, fun s' hs' ↦ ih (hstep s a s' hs hs')⟩

/-- The invariant rule where no step is restricted. -/
theorem run_invariant' {P : σ → Prop} (hstep : ∀ s a s', P s → step s a = some s' → P s')
    {as : List α} {s t : σ} (hs : P s) (hrun : run step s as = some t) : P t :=
  run_invariant (G := fun _ _ ↦ True) (fun s a s' h _ hs' ↦ hstep s a s' h hs') hs
    (AllSteps.of_forall (fun _ _ ↦ trivial) s as) hrun

/-- **Progress.** If every step meeting `G` completes from a state of the invariant, every run
whose steps all meet `G` completes. -/
theorem run_isSome {P : σ → Prop}
    (hstep : ∀ s a, P s → G s a → ∃ s', step s a = some s' ∧ P s') :
    ∀ {as : List α} {s : σ}, P s → AllSteps G step s as → (run step s as).isSome := by
  intro as
  induction as with
  | nil => intro s _ _; rfl
  | cons a as ih =>
    intro s hs hall
    obtain ⟨s', hs', hP⟩ := hstep s a hs hall.1
    rw [run_cons, hs']
    exact ih hP (hall.2 s' hs')

/-- A run that checks a condition before each step. -/
theorem allSteps_of_run_ite {g : σ → α → Bool} :
    ∀ {as : List α} {s t : σ}, run (fun s a ↦ if g s a then step s a else none) s as = some t →
      AllSteps (fun s a ↦ g s a = true) step s as ∧ run step s as = some t := by
  intro as
  induction as with
  | nil => exact fun h ↦ ⟨trivial, h⟩
  | cons a as ih =>
    intro s t h
    obtain ⟨s', hs', hrun⟩ := run_cons_eq_some.1 h
    obtain ⟨hg, hs'⟩ := Option.ite_none_right_eq_some.1 hs'
    obtain ⟨hall, hrun⟩ := ih hrun
    refine ⟨⟨hg, fun s'' hs'' ↦ ?_⟩, run_cons_eq_some.2 ⟨s', hs', hrun⟩⟩
    obtain rfl := Option.some.inj (hs'.symm.trans hs'')
    exact hall

end Meridian.Lib

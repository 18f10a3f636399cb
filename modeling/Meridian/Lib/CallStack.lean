import Meridian.Lib.Runs
import Mathlib.Data.Stream.Init

/-!
# Recursion on an explicit stack

A recursive function can be run with its stack made explicit. `call` runs a call up to the first call
inside it or up to its value, and `resume` goes on when that one has a value; a frame is what is left to
do. Between two calls the world may change, so each of them is given a world of its own.

* `CallStack.Finishes n c fs s o`: the stack machine ends after `n` steps. `Finishes.split` and
  `Finishes.append` say that a call ends on a longer stack just as it does on the empty one.
* `Recursive`: the recursive function as the program writes it, with fuel for the recursion and a stream
  of worlds.
* `Codes n x i fs`: the recursive text `x` has the outcomes of the machine that runs `i` on the stack
  `fs`, and it has all of those that take less than `n` steps. There is one rule for each thing that such
  a text does, so a proof that a function is run faithfully follows its text.
-/

namespace Meridian.Lib

/-- A recursive function with its stack made explicit. -/
structure CallStack (H C F V σ ε : Type) where
  ret : V → C
  value : C → Option V
  value_ret (v : V) : value (ret v) = some v
  call : H → C → StateT σ (Except ε) (C × List F)
  resume : H → F → V → StateT σ (Except ε) (C × List F)

namespace CallStack

variable {H C F V σ ε : Type} (M : CallStack H C F V σ ε)

/-- In `n` steps the machine ends with the outcome `o`: the stack is empty and the call has a value, or
a step has failed. -/
def Finishes : ℕ → C → List F → σ → Except ε (V × σ) → Prop
  | 0, c, fs, s, o => fs = [] ∧ ∃ v, M.value c = some v ∧ o = .ok (v, s)
  | n + 1, c, fs, s, o =>
    match M.value c, fs with
    | none, fs => ∃ h, Meets (fun e ↦ o = .error e) (M.call h c) s fun r s' ↦
        Finishes n r.1 (r.2 ++ fs) s' o
    | some v, f :: fs => ∃ h, Meets (fun e ↦ o = .error e) (M.resume h f v) s fun r s' ↦
        Finishes n r.1 (r.2 ++ fs) s' o
    | some _, [] => False

/-- The machine runs `i` on this stack and ends `n` steps later. -/
def GoesOn (n : ℕ) (i : StateT σ (Except ε) (C × List F)) (fs : List F) (s : σ)
    (o : Except ε (V × σ)) : Prop :=
  Meets (fun e ↦ o = .error e) i s fun r s' ↦ M.Finishes n r.1 (r.2 ++ fs) s' o

variable {M} {n m : ℕ} {c c' : C} {f : F} {fs gs : List F} {s s' : σ} {v : V} {e : ε}
  {o : Except ε (V × σ)} {i : StateT σ (Except ε) (C × List F)}

theorem finishes_zero (hv : M.value c = some v) : M.Finishes 0 c fs s o ↔ fs = [] ∧ o = .ok (v, s) := by
  show (fs = [] ∧ ∃ v, M.value c = some v ∧ o = .ok (v, s)) ↔ _
  simp only [hv, Option.some.injEq, exists_eq_left']

theorem finishes_zero_call (hv : M.value c = none) : ¬ M.Finishes 0 c fs s o := by
  rintro ⟨-, v, hv', -⟩
  rw [hv] at hv'
  cases hv'

theorem finishes_call (hv : M.value c = none) :
    M.Finishes (n + 1) c fs s o ↔ ∃ h, M.GoesOn n (M.call h c) fs s o := by
  unfold Finishes
  simp only [hv]
  rfl

theorem finishes_resume (hv : M.value c = some v) :
    M.Finishes (n + 1) c (f :: fs) s o ↔ ∃ h, M.GoesOn n (M.resume h f v) fs s o := by
  unfold Finishes
  simp only [hv]
  rfl

theorem finishes_ret_nil (hv : M.value c = some v) : ¬ M.Finishes (n + 1) c [] s o := by
  unfold Finishes
  simp only [hv, not_false_eq_true]

/-- Only the value of a finished call counts. -/
theorem Finishes.of_value (h : M.Finishes n c fs s o) (hv : M.value c = some v)
    (hv' : M.value c' = some v) : M.Finishes n c' fs s o := by
  cases n with
  | zero => exact (finishes_zero hv').2 ((finishes_zero hv).1 h)
  | succ n =>
    cases fs with
    | nil => exact absurd h (finishes_ret_nil hv)
    | cons f fs => exact (finishes_resume hv').2 ((finishes_resume hv).1 h)

theorem goesOn_pure : M.GoesOn n (pure (c, fs)) gs s o ↔ M.Finishes n c (fs ++ gs) s o := Iff.rfl

theorem goesOn_iff : M.GoesOn n i fs s o ↔
    (∃ r s', i s = .ok (r, s') ∧ M.Finishes n r.1 (r.2 ++ fs) s' o) ∨ ∃ e, i s = .error e ∧
      o = .error e := by
  cases hi : i s with
  | error e =>
    refine ⟨fun h ↦ .inr ⟨e, rfl, h.fail hi⟩, ?_⟩
    rintro (⟨r, s', hr, -⟩ | ⟨e', he, ho⟩)
    · cases hr
    · cases he
      exact meets_of_error hi ho
  | ok r =>
    refine ⟨fun h ↦ .inl ⟨r.1, r.2, rfl, h.run hi⟩, ?_⟩
    rintro (⟨r', s', hr, h⟩ | ⟨e, he, -⟩)
    · cases hr
      exact Runs.meets hi h
    · cases he

/-! ### A call on a longer stack -/

/-- A step after which the machine ends does so on a longer stack. -/
theorem GoesOn.imp {P : List F → List F} {m : ℕ} {o' : Except ε (V × σ)}
    (h : M.GoesOn n i fs s o) (ho : ∀ e, o = .error e → o' = .error e)
    (hP : ∀ c fs' s', M.Finishes n c (fs' ++ fs) s' o → M.Finishes m c (fs' ++ P fs) s' o') :
    M.GoesOn m i (P fs) s o' :=
  (Meets.mono h fun r s' ↦ hP r.1 r.2 s').mono_fail ho

/-- What fails on a stack fails on a longer one. -/
theorem Finishes.error (h : M.Finishes n c fs s (.error e)) (gs : List F) :
    M.Finishes n c (fs ++ gs) s (.error e) := by
  induction n generalizing c fs s with
  | zero =>
    obtain ⟨-, v, -, ho⟩ := h
    cases ho
  | succ n ih =>
    have himp (i : StateT σ (Except ε) (C × List F)) (fs : List F) (h : M.GoesOn n i fs s (.error e)) :
        M.GoesOn n i (fs ++ gs) s (.error e) :=
      h.imp (P := (· ++ gs)) (fun _ ↦ id) fun c fs' s' h ↦ by
        rw [← List.append_assoc]
        exact ih h
    cases hv : M.value c with
    | none =>
      obtain ⟨w, h⟩ := (finishes_call hv).1 h
      exact (finishes_call hv).2 ⟨w, himp _ _ h⟩
    | some v =>
      cases fs with
      | nil => exact absurd h (finishes_ret_nil hv)
      | cons f fs =>
        obtain ⟨w, h⟩ := (finishes_resume hv).1 h
        exact (finishes_resume hv).2 ⟨w, himp _ _ h⟩

/-- What has a value on a stack goes on with the rest of a longer one. -/
theorem Finishes.append (h : M.Finishes n c fs s (.ok (v, s')))
    (h' : M.Finishes m (M.ret v) gs s' o) : M.Finishes (n + m) c (fs ++ gs) s o := by
  induction n generalizing c fs s with
  | zero =>
    obtain ⟨rfl, v', hv', heq⟩ := h
    obtain ⟨rfl, rfl⟩ := Prod.mk.inj (Except.ok.inj heq)
    rw [Nat.zero_add]
    exact h'.of_value (M.value_ret v) hv'
  | succ n ih =>
    have himp (i : StateT σ (Except ε) (C × List F)) (fs : List F)
        (h : M.GoesOn n i fs s (.ok (v, s'))) : M.GoesOn (n + m) i (fs ++ gs) s o :=
      h.imp (P := (· ++ gs)) (fun _ he ↦ by cases he) fun c fs' s' h ↦ by
        rw [← List.append_assoc]
        exact ih h
    rw [Nat.add_right_comm]
    cases hv : M.value c with
    | none =>
      obtain ⟨w, h⟩ := (finishes_call hv).1 h
      exact (finishes_call hv).2 ⟨w, himp _ _ h⟩
    | some v =>
      cases fs with
      | nil => exact absurd h (finishes_ret_nil hv)
      | cons f fs =>
        obtain ⟨w, h⟩ := (finishes_resume hv).1 h
        exact (finishes_resume hv).2 ⟨w, himp _ _ h⟩


/-- **A call ends above its stack.** -/
theorem Finishes.split (h : M.Finishes n c (fs ++ gs) s o) :
    ((∃ e, o = .error e) ∧ M.Finishes n c fs s o) ∨
      ∃ k m v s', n = k + m ∧ M.Finishes k c fs s (.ok (v, s')) ∧
        M.Finishes m (M.ret v) gs s' o := by
  induction n generalizing c fs s with
  | zero =>
    obtain ⟨hfs, v, hv, rfl⟩ := h
    obtain ⟨rfl, rfl⟩ := List.append_eq_nil_iff.1 hfs
    exact .inr ⟨0, 0, v, s, rfl, ⟨rfl, v, hv, rfl⟩, rfl, v, M.value_ret v, rfl⟩
  | succ n ih =>
    -- a computation that goes on takes one step less
    have hsplit (i : StateT σ (Except ε) (C × List F)) (fs : List F) (h : M.GoesOn n i (fs ++ gs) s o) :
        ((∃ e, o = .error e) ∧ M.GoesOn n i fs s o) ∨
          ∃ k m v s', n = k + m ∧ M.GoesOn k i fs s (.ok (v, s')) ∧
            M.Finishes m (M.ret v) gs s' o := by
      cases hi : i s with
      | error e => exact .inl ⟨⟨e, h.fail hi⟩, meets_of_error hi (h.fail hi)⟩
      | ok r =>
        have hr := h.run hi
        rw [← List.append_assoc] at hr
        rcases ih hr with ⟨ho, hr⟩ | ⟨k, m, v, s', hn, hr, hgs⟩
        · exact .inl ⟨ho, Runs.meets hi hr⟩
        · exact .inr ⟨k, m, v, s', hn, Runs.meets hi hr, hgs⟩
    cases hv : M.value c with
    | none =>
      obtain ⟨w, h⟩ := (finishes_call hv).1 h
      rcases hsplit _ _ h with ⟨ho, h⟩ | ⟨k, m, v, s', rfl, h, hgs⟩
      · exact .inl ⟨ho, (finishes_call hv).2 ⟨w, h⟩⟩
      · exact .inr ⟨k + 1, m, v, s', by omega, (finishes_call hv).2 ⟨w, h⟩, hgs⟩
    | some v =>
      cases fs with
      | nil =>
        -- the upper frames are done, and the value is handed to the lower ones
        exact .inr ⟨0, n + 1, v, s, by omega, (finishes_zero hv).2 ⟨rfl, rfl⟩,
          h.of_value hv (M.value_ret v)⟩
      | cons f fs =>
        obtain ⟨w, h⟩ := (finishes_resume hv).1 h
        rcases hsplit _ _ h with ⟨ho, h⟩ | ⟨k, m, v, s', rfl, h, hgs⟩
        · exact .inl ⟨ho, (finishes_resume hv).2 ⟨w, h⟩⟩
        · exact .inr ⟨k + 1, m, v, s', by omega, (finishes_resume hv).2 ⟨w, h⟩, hgs⟩

/-! ### The recursive text -/

/-- A computation of the recursive function. It is given the worlds that it will see, and it fails with
`none` if its fuel is used up. -/
abbrev Recursive (H σ ε α : Type) : Type := StateT (Stream' H × σ) (Except (Option ε)) α

namespace Recursive

variable {α β : Type}

/-- A computation that calls nothing. -/
def lift (m : StateT σ (Except ε) α) : Recursive H σ ε α := fun t ↦
  match m t.2 with
  | .ok (a, s) => .ok (a, (t.1, s))
  | .error e => .error (some e)

/-- The world as it is now. -/
def ask : Recursive H σ ε H := fun t ↦ .ok (t.1.head, (t.1.tail, t.2))

def outOfFuel : Recursive H σ ε α := throw none

/-- The outcome of the machine, when these worlds are left. -/
def ends (hs : Stream' H) : Except ε (V × σ) → Except (Option ε) (V × (Stream' H × σ))
  | .ok (v, s) => .ok (v, (hs, s))
  | .error e => .error (some e)

variable {m : StateT σ (Except ε) α} {x : Recursive H σ ε α} {y : α → Recursive H σ ε β}
  {t t' : Stream' H × σ} {a : α}

theorem bind_of_ok (h : x t = .ok (a, t')) : (x >>= y) t = y a t' := by
  show (x t).bind (fun r ↦ y r.1 r.2) = _
  rw [h]
  rfl

theorem bind_of_error {e : Option ε} (h : x t = .error e) : (x >>= y) t = .error e := by
  show (x t).bind (fun r ↦ y r.1 r.2) = _
  rw [h]
  rfl

theorem lift_of_ok (hs : Stream' H) (h : m s = .ok (a, s')) : lift m (hs, s) = .ok (a, (hs, s')) := by
  unfold lift
  rw [h]

theorem lift_of_error (hs : Stream' H) (h : m s = .error e) : lift m (hs, s) = .error (some e) := by
  unfold lift
  rw [h]

end Recursive

open Recursive

/-- The text `x` has the outcomes of the machine that runs `i` on the stack `fs`, and all of those that
take less than `n` steps. -/
structure Codes (M : CallStack H C F V σ ε) (n : ℕ) (x : Recursive H σ ε V)
    (i : H → StateT σ (Except ε) (C × List F)) (fs : List F) : Prop where
  sound : ∀ hs s hs' o, x (hs, s) = ends hs' o → ∃ h m, M.GoesOn m (i h) fs s o
  complete : ∀ m < n, ∀ h s o, M.GoesOn m (i h) fs s o →
    ∃ used : List H, ∀ hs, x (used ++ₛ hs, s) = ends hs o

variable {α : Type} {x : Recursive H σ ε V} {y : α → Recursive H σ ε V}
  {j : H → StateT σ (Except ε) (C × List F)}

theorem Codes.mono (h : M.Codes n x j fs) (hm : m ≤ n) : M.Codes m x j fs :=
  ⟨h.sound, fun k hk ↦ h.complete k (Nat.lt_of_lt_of_le hk hm)⟩

/-- Without fuel nothing is said. -/
theorem codes_outOfFuel : M.Codes 0 outOfFuel j fs := by
  refine ⟨fun hs s hs' o h ↦ ?_, fun m hm ↦ absurd hm (Nat.not_lt_zero m)⟩
  cases o <;> cases h

/-- The text returns. -/
theorem codes_ret : M.Codes n (pure v) (fun _ ↦ pure (M.ret v, [])) [] := by
  constructor
  · intro hs s hs' o h
    refine ⟨hs.head, 0, goesOn_pure.2 ((finishes_zero (M.value_ret v)).2 ⟨rfl, ?_⟩)⟩
    cases o with
    | error e => cases h
    | ok r =>
      have h : (Except.ok (v, (hs, s)) : Except (Option ε) (V × (Stream' H × σ))) =
        .ok (r.1, (hs', r.2)) := h
      obtain ⟨hv, ht⟩ := Prod.mk.inj (Except.ok.inj h)
      rw [hv, (Prod.mk.inj ht).2]
  · intro m _ h s o hgo
    cases m with
    | zero =>
      obtain ⟨-, rfl⟩ := (finishes_zero (M.value_ret v)).1 (goesOn_pure.1 hgo)
      exact ⟨[], fun hs ↦ rfl⟩
    | succ m => exact absurd (goesOn_pure.1 hgo) (finishes_ret_nil (M.value_ret v))

/-- The text runs a computation that calls nothing. -/
theorem codes_lift {k : StateT σ (Except ε) α} {l : H → α → StateT σ (Except ε) (C × List F)}
    (h : ∀ a, M.Codes n (y a) (fun w ↦ l w a) fs) :
    M.Codes n (lift k >>= y) (fun w ↦ k >>= l w) fs := by
  constructor
  · intro hs s hs' o hx
    cases hk : k s with
    | error e =>
      rw [bind_of_error (lift_of_error hs hk)] at hx
      refine ⟨hs.head, 0, meets_bind.2 (meets_of_error hk ?_)⟩
      cases o with
      | error e' => rw [Option.some.inj (Except.error.inj hx)]
      | ok r => cases hx
    | ok r =>
      rw [bind_of_ok (lift_of_ok hs hk)] at hx
      obtain ⟨w, m, hgo⟩ := (h r.1).sound hs r.2 hs' o hx
      exact ⟨w, m, meets_bind.2 (Runs.meets hk hgo)⟩
  · intro m hm w s o hgo
    have hgo := meets_bind.1 hgo
    cases hk : k s with
    | error e =>
      obtain rfl := hgo.fail hk
      exact ⟨[], fun hs ↦ bind_of_error (lift_of_error _ hk)⟩
    | ok r =>
      obtain ⟨used, hused⟩ := (h r.1).complete m hm w r.2 o (hgo.run hk)
      exact ⟨used, fun hs ↦ (bind_of_ok (lift_of_ok _ hk)).trans (hused hs)⟩

/-- The text ends with a computation that calls nothing. -/
theorem codes_lift_ret {k : StateT σ (Except ε) V} :
    M.Codes n (lift k) (fun _ ↦ do return (M.ret (← k), [])) [] := by
  have h := codes_lift (k := k) (l := fun _ v ↦ pure (M.ret v, []))
    (fun v ↦ codes_ret (M := M) (n := n) (v := v))
  rwa [bind_pure] at h

/-- The text looks at the world. -/
theorem codes_ask {y : H → Recursive H σ ε V} (h : ∀ w, M.Codes n (y w) (fun _ ↦ j w) fs) :
    M.Codes n (ask >>= y) j fs := by
  constructor
  · intro hs s hs' o hx
    have hask : ask (hs, s) = (.ok (hs.head, (hs.tail, s)) : Except (Option ε) _) := rfl
    rw [bind_of_ok hask] at hx
    obtain ⟨-, m, hgo⟩ := (h hs.head).sound hs.tail s hs' o hx
    exact ⟨hs.head, m, hgo⟩
  · intro m hm w s o hgo
    obtain ⟨used, hused⟩ := (h w).complete m hm w s o hgo
    refine ⟨w :: used, fun hs ↦ ?_⟩
    have hask : ask (Stream'.cons w (used ++ₛ hs), s) =
      (.ok (w, (used ++ₛ hs, s)) : Except (Option ε) _) := rfl
    exact (bind_of_ok hask).trans (hused hs)

/-- The call of a call is the last thing that the text does. -/
theorem codes_tail (hc : M.value c = none) (h : M.Codes n x (M.call · c) fs) :
    M.Codes (n + 1) x (fun _ ↦ pure (c, [])) fs := by
  constructor
  · intro hs s hs' o hx
    obtain ⟨w, m, hgo⟩ := h.sound hs s hs' o hx
    exact ⟨w, m + 1, goesOn_pure.2 ((finishes_call hc).2 ⟨w, hgo⟩)⟩
  · intro m hm w s o hgo
    have hfin : M.Finishes m c fs s o := goesOn_pure.1 hgo
    cases m with
    | zero => exact absurd hfin (finishes_zero_call hc)
    | succ m =>
      obtain ⟨w, hgo⟩ := (finishes_call hc).1 hfin
      exact h.complete m (Nat.lt_of_succ_lt_succ hm) w s o hgo

/-- A frame is resumed with a value. -/
theorem codes_resume (h : M.Codes n x (M.resume · f v) fs) :
    M.Codes (n + 1) x (fun _ ↦ pure (M.ret v, [])) (f :: fs) := by
  constructor
  · intro hs s hs' o hx
    obtain ⟨w, m, hgo⟩ := h.sound hs s hs' o hx
    exact ⟨w, m + 1, goesOn_pure.2 ((finishes_resume (M.value_ret v)).2 ⟨w, hgo⟩)⟩
  · intro m hm w s o hgo
    have hfin : M.Finishes m (M.ret v) (f :: fs) s o := goesOn_pure.1 hgo
    cases m with
    | zero => exact absurd ((finishes_zero (M.value_ret v)).1 hfin).1 (List.cons_ne_nil f fs)
    | succ m =>
      obtain ⟨w, hgo⟩ := (finishes_resume (M.value_ret v)).1 hfin
      exact h.complete m (Nat.lt_of_succ_lt_succ hm) w s o hgo

/-- A frame is pushed. -/
theorem codes_push (h : M.Codes n x (fun _ ↦ pure (c, [])) (f :: fs)) :
    M.Codes n x (fun _ ↦ pure (c, [f])) fs :=
  ⟨h.sound, h.complete⟩

/-- The text makes a call and goes on with its value. -/
theorem codes_call (hc : M.value c = none) {x : Recursive H σ ε V} {y : V → Recursive H σ ε V}
    (hx : M.Codes n x (M.call · c) []) (hy : ∀ v, M.Codes n (y v) (M.resume · f v) fs) :
    M.Codes (n + 1) (x >>= y) (fun _ ↦ pure (c, [f])) fs := by
  constructor
  · intro hs s hs' o hxy
    cases hr : x (hs, s) with
    | error e =>
      rw [bind_of_error hr] at hxy
      cases o with
      | ok r => cases hxy
      | error e' =>
        obtain rfl := Except.error.inj hxy
        obtain ⟨w, m, hgo⟩ := hx.sound hs s hs (.error e') hr
        have hfin : M.Finishes (m + 1) c [] s (.error e') := (finishes_call hc).2 ⟨w, hgo⟩
        exact ⟨w, m + 1, goesOn_pure.2 (hfin.error (f :: fs))⟩
    | ok r =>
      obtain ⟨v, hs₁, s₁⟩ := r
      rw [bind_of_ok hr] at hxy
      obtain ⟨w, m, hgo⟩ := hx.sound hs s hs₁ (.ok (v, s₁)) hr
      obtain ⟨w', m', hgo'⟩ := (hy v).sound hs₁ s₁ hs' o hxy
      -- the call ends, and the frame that waits for it goes on with the value
      have hfin : M.Finishes (m + 1) c [] s (.ok (v, s₁)) := (finishes_call hc).2 ⟨w, hgo⟩
      have hfin' : M.Finishes (m' + 1) (M.ret v) (f :: fs) s₁ o :=
        (finishes_resume (M.value_ret v)).2 ⟨w', hgo'⟩
      exact ⟨w, m + 1 + (m' + 1), goesOn_pure.2 (hfin.append hfin')⟩
  · intro m hm w s o hgo
    have hall : M.Finishes m c ([] ++ f :: fs) s o := goesOn_pure.1 hgo
    -- the run is cut where the frames of the call are done
    rcases hall.split with ⟨⟨e, rfl⟩, hfin⟩ | ⟨k, k', v, s₁, rfl, hfin, hfin'⟩
    · cases m with
      | zero => exact absurd hfin (finishes_zero_call hc)
      | succ m =>
        obtain ⟨w, hgo⟩ := (finishes_call hc).1 hfin
        obtain ⟨used, hused⟩ := hx.complete m (by omega) w s _ hgo
        exact ⟨used, fun hs ↦ bind_of_error (hused hs)⟩
    · cases k with
      | zero => exact absurd hfin (finishes_zero_call hc)
      | succ k =>
        cases k' with
        | zero => exact absurd ((finishes_zero (M.value_ret v)).1 hfin').1 (List.cons_ne_nil f fs)
        | succ k' =>
          obtain ⟨w₁, hgo₁⟩ := (finishes_call hc).1 hfin
          obtain ⟨w₂, hgo₂⟩ := (finishes_resume (M.value_ret v)).1 hfin'
          obtain ⟨used, hused⟩ := hx.complete k (by omega) w₁ s _ hgo₁
          obtain ⟨used', hused'⟩ := (hy v).complete k' (by omega) w₂ s₁ o hgo₂
          refine ⟨used ++ used', fun hs ↦ ?_⟩
          rw [Stream'.append_append_stream]
          exact (bind_of_ok (hused _)).trans (hused' hs)

/-- **The recursion and the machine have the same outcomes.** -/
theorem codes_iff [Nonempty H] {x : ℕ → Recursive H σ ε V} (h : ∀ n, M.Codes n (x n) j fs) :
    (∃ n hs hs', x n (hs, s) = ends hs' o) ↔ ∃ w n, M.GoesOn n (j w) fs s o := by
  constructor
  · rintro ⟨n, hs, hs', hx⟩
    exact (h n).sound hs s hs' o hx
  · rintro ⟨w, n, hgo⟩
    obtain ⟨used, hused⟩ := (h (n + 1)).complete n n.lt_succ_self w s o hgo
    have hs : Stream' H := Stream'.const (Classical.arbitrary H)
    exact ⟨n + 1, used ++ₛ hs, hs, hused hs⟩

end CallStack

end Meridian.Lib

import Meridian.Lib.Cursor

/-!
# Counting what a decoder does

A `Ticking` is a `Parser` that also counts. It ticks where the program it models does the thing that
is counted, and the ticks up to a point are kept when the decoder gives up there. `erase` forgets
them, and goes through the syntax of a decoder, so that a ticking decoder is compared with its
original line by line.

`Within` is the rule for upper bounds. A decoder that starts with a credit pays for each tick out of
it, and what it has not spent is there for what comes after.
-/

namespace Meridian.Lib

variable {σ α β : Type}

/-- A decoder that counts: its ticks, and its result. -/
def Ticking (σ α : Type) := σ → ℕ × Option (α × σ)

namespace Ticking

/-- A value, without a tick. -/
def done (a : α) : Ticking σ α := fun s ↦ (0, some (a, s))

/-- One after the other. The ticks add up, also when the second does not happen or gives up. -/
def andThen (p : Ticking σ α) (f : α → Ticking σ β) : Ticking σ β := fun s ↦
  match p s with
  | (k, none) => (k, none)
  | (k, some (a, s')) => (k + (f a s').1, (f a s').2)

instance : Monad (Ticking σ) where
  pure := done
  bind := andThen

/-- A decoder that does nothing that is counted. -/
def lift (p : Parser σ α) : Ticking σ α := fun s ↦ (0, p s)

/-- Ticks. -/
def tick (k : ℕ) : Ticking σ Unit := fun s ↦ (k, some ((), s))

/-- Read up to `n` entries, stopping as soon as the flag is set, with a tick for each. -/
def repeatWhileOk (failed : σ → Bool) (p : Parser σ α) : ℕ → Ticking σ (List α)
  | 0 => pure []
  | n + 1 => fun s ↦
    if failed s then done [] s
    else (do
      let a ← lift p
      tick 1
      let as ← repeatWhileOk failed p n
      pure (a :: as) : Ticking σ (List α)) s

/-! ### What a part does -/

theorem lift_bind_of_some {p : Parser σ α} {s s' : σ} {a : α} (h : p s = some (a, s'))
    (f : α → Ticking σ β) : (lift p >>= f) s = f a s' := by
  show andThen (lift p) f s = _
  rw [andThen, lift, h]
  exact Prod.ext (Nat.zero_add _) rfl

theorem lift_bind_of_none {p : Parser σ α} {s : σ} (h : p s = none) (f : α → Ticking σ β) :
    (lift p >>= f) s = (0, none) := by
  show andThen (lift p) f s = _
  rw [andThen, lift, h]

theorem ticks_tick_bind (k : ℕ) (f : Unit → Ticking σ β) (s : σ) :
    ((tick k >>= f) s).1 = k + (f () s).1 := rfl

/-- What comes last makes no tick. -/
theorem ticks_bind_of_eq_zero {p : Ticking σ α} {f : α → Ticking σ β} (hf : ∀ a s, (f a s).1 = 0)
    (s : σ) : ((p >>= f) s).1 = (p s).1 := by
  show (andThen p f s).1 = _
  rw [andThen]
  rcases p s with ⟨k, - | ⟨a, s'⟩⟩
  · rfl
  · show k + (f a s').1 = k
    rw [hf, Nat.add_zero]

theorem repeatWhileOk_of_failed {failed : σ → Bool} {p : Parser σ α} {s : σ}
    (hs : failed s = true) (n : ℕ) : repeatWhileOk failed p n s = done [] s := by
  cases n with
  | zero => rfl
  | succ n => exact if_pos hs

theorem repeatWhileOk_succ {failed : σ → Bool} {p : Parser σ α} {s : σ} (hs : failed s = false)
    (n : ℕ) : repeatWhileOk failed p (n + 1) s = (do
      let a ← lift p
      tick 1
      let as ← repeatWhileOk failed p n
      pure (a :: as) : Ticking σ (List α)) s :=
  if_neg (by rw [hs]; exact Bool.false_ne_true)

/-- The decoder without its ticks. -/
def erase (p : Ticking σ α) : Parser σ α := fun s ↦ (p s).2

/-! ### Forgetting the ticks -/

@[simp] theorem erase_pure (a : α) : (pure a : Ticking σ α).erase = pure a := rfl

@[simp] theorem erase_lift (p : Parser σ α) : (lift p).erase = p := rfl

@[simp] theorem erase_tick (k : ℕ) : (tick k : Ticking σ Unit).erase = pure () := rfl

@[simp] theorem erase_bind (p : Ticking σ α) (f : α → Ticking σ β) :
    (p >>= f).erase = p.erase >>= fun a ↦ (f a).erase := by
  funext s
  show (andThen p f s).2 = (p s).2.bind fun r ↦ (f r.1 r.2).2
  rw [andThen]
  rcases p s with ⟨k, - | ⟨a, s'⟩⟩ <;> rfl

@[simp] theorem erase_ite (c : Prop) [Decidable c] (p q : Ticking σ α) :
    (if c then p else q).erase = if c then p.erase else q.erase := by
  split <;> rfl

@[simp] theorem erase_repeatWhileOk (failed : σ → Bool) (p : Parser σ α) (n : ℕ) :
    (repeatWhileOk failed p n).erase = Lib.repeatWhileOk failed p n := by
  induction n with
  | zero => rfl
  | succ n ih =>
    funext s
    cases hs : failed s with
    | true =>
      exact (congrArg Prod.snd (repeatWhileOk_of_failed hs _)).trans (if_pos hs).symm
    | false =>
      have hloop : (do
          let a ← lift p
          tick 1
          let as ← repeatWhileOk failed p n
          pure (a :: as) : Ticking σ (List α)).erase = (do
            let a ← p
            let as ← Lib.repeatWhileOk failed p n
            pure (a :: as)) := by
        simp only [erase_bind, erase_lift, erase_tick, erase_pure, pure_bind, ih]
      refine (congrArg Prod.snd (repeatWhileOk_succ hs n)).trans ((congrFun hloop s).trans ?_)
      exact (if_neg (by rw [hs]; exact Bool.false_ne_true)).symm

/-! ### Upper bounds -/

/-- From `s`, with the credit `c`, every tick is paid for. Where the decoder ends, `R` holds of its
value, its state, and a credit that is left. -/
def Within (p : Ticking σ α) (s : σ) (c : ℕ) (R : α → σ → ℕ → Prop) : Prop :=
  (p s).1 ≤ c ∧ ∀ a s', (p s).2 = some (a, s') → ∃ c', (p s).1 + c' ≤ c ∧ R a s' c'

namespace Within

variable {p : Ticking σ α} {f : α → Ticking σ β} {s : σ} {c : ℕ} {R R' : α → σ → ℕ → Prop}
  {S : β → σ → ℕ → Prop}

theorem done {a : α} (h : R a s c) : Within (pure a) s c R := by
  refine ⟨Nat.zero_le c, fun a' s' heq ↦ ⟨c, (Nat.zero_add c).le, ?_⟩⟩
  obtain ⟨rfl, rfl⟩ := Prod.mk.inj (Option.some.inj heq)
  exact h

/-- **Sequencing.** The second part has the credit that the first has left. -/
theorem bind (h : Within p s c R) (hf : ∀ a s' c', R a s' c' → Within (f a) s' c' S) :
    Within (p >>= f) s c S := by
  have heq : (p >>= f) s = andThen p f s := rfl
  rw [Within, heq, andThen]
  obtain ⟨hle, hrest⟩ := h
  rcases hps : p s with ⟨k, - | ⟨a, s'⟩⟩
  · rw [hps] at hle
    exact ⟨hle, fun _ _ h ↦ absurd h (Option.some_ne_none _).symm⟩
  · rw [hps] at hrest
    obtain ⟨c₁, hc₁, hR⟩ := hrest a s' rfl
    obtain ⟨hle₁, hf⟩ := hf a s' c₁ hR
    refine ⟨(Nat.add_le_add_left hle₁ k).trans hc₁, fun b s'' hb ↦ ?_⟩
    obtain ⟨c₂, hc₂, hS⟩ := hf b s'' hb
    refine ⟨c₂, ?_, hS⟩
    calc k + (f a s').1 + c₂ = k + ((f a s').1 + c₂) := Nat.add_assoc ..
      _ ≤ k + c₁ := Nat.add_le_add_left hc₂ k
      _ ≤ c := hc₁

theorem lift {q : Parser σ α} (h : ∀ a s', q s = some (a, s') → R a s' c) :
    Within (Ticking.lift q) s c R :=
  ⟨Nat.zero_le c, fun a s' heq ↦ ⟨c, (Nat.zero_add c).le, h a s' heq⟩⟩

/-- A part without ticks leaves the credit as it is. -/
theorem lift_bind {q : Parser σ α} (h : ∀ a s', q s = some (a, s') → Within (f a) s' c S) :
    Within (Ticking.lift q >>= f) s c S := by
  rcases hq : q s with - | ⟨a, s'⟩
  · rw [Within, lift_bind_of_none hq]
    exact ⟨Nat.zero_le c, fun _ _ h ↦ absurd h (Option.some_ne_none _).symm⟩
  · rw [Within, lift_bind_of_some hq]
    exact h a s' hq

theorem tick_bind {k : ℕ} {f : Unit → Ticking σ β} (h : Within (f ()) s c S) :
    Within (tick k >>= f) s (k + c) S := by
  obtain ⟨hle, hrest⟩ := h
  refine ⟨Nat.add_le_add_left hle k, fun b s' hb ↦ ?_⟩
  obtain ⟨c', hc', hS⟩ := hrest b s' hb
  refine ⟨c', ?_, hS⟩
  rw [ticks_tick_bind, Nat.add_assoc]
  exact Nat.add_le_add_left hc' k

theorem imp (h : Within p s c R) (hR : ∀ a s' c', R a s' c' → R' a s' c') :
    Within p s c R' := by
  refine ⟨h.1, fun a s' heq ↦ ?_⟩
  obtain ⟨c', hc', hRc⟩ := h.2 a s' heq
  exact ⟨c', hc', hR a s' c' hRc⟩

/-- More credit does no harm. -/
theorem weaken (h : Within p s c R) {d : ℕ} (hle : c ≤ d) : Within p s d R := by
  refine ⟨h.1.trans hle, fun a s' heq ↦ ?_⟩
  obtain ⟨c', hc', hR⟩ := h.2 a s' heq
  exact ⟨c', hc'.trans hle, hR⟩

/-- Credit that is set aside is left over. -/
theorem frame (h : Within p s c R) (d : ℕ) :
    Within p s (c + d) fun a s' c' ↦ ∃ c₀, c' = c₀ + d ∧ R a s' c₀ := by
  refine ⟨h.1.trans (Nat.le_add_right c d), fun a s' heq ↦ ?_⟩
  obtain ⟨c₁, hc₁, hR⟩ := h.2 a s' heq
  exact ⟨c₁ + d, by omega, c₁, rfl, hR⟩

/-! ### Counted entries -/

/-- After a failure there are none. -/
theorem repeatWhileOk_of_failed {failed : σ → Bool} {q : Parser σ α} (hs : failed s = true)
    (n : ℕ) : Within (repeatWhileOk failed q n) s c fun _ s' _ ↦ failed s' = true := by
  rw [Within, Ticking.repeatWhileOk_of_failed hs]
  exact Within.done hs

/-- **Each entry is paid for by its bytes.** Where entries have at least two of them, the loop can
be paid for twice out of the bytes that are left, and one credit more: the last entry may be one
that could not be read. -/
theorem repeatWhileOk {C : Cursor σ} {q : Parser σ α}
    (hq : Consumes C q fun _ bs ↦ 2 ≤ bs.length) (n : ℕ) {l : List UInt8} (hat : C.At s l) :
    Within (Ticking.repeatWhileOk C.failed q n) s (l.length + 1) fun as s' c ↦
      C.failed s' = false → as.length + 1 ≤ c := by
  induction n generalizing s l with
  | zero => exact Within.done fun _ ↦ Nat.le_add_left 1 _
  | succ n ih =>
    rw [Within, repeatWhileOk_succ (C.not_failed hat), Nat.add_comm l.length 1]
    refine Within.lift_bind fun a s₁ h₁ ↦ Within.tick_bind ?_
    by_cases hok : C.failed s₁ = false
    · -- The entry has been read, so its bytes are worth two.
      obtain ⟨bs, tail, rfl, hlen, hat₁⟩ := hq s l a s₁ hat h₁ hok
      have hcredit : (bs ++ tail).length = tail.length + 1 + (bs.length - 1) := by
        rw [List.length_append]
        omega
      rw [hcredit]
      refine ((ih hat₁).frame (bs.length - 1)).bind fun as s' c' hR ↦ Within.done fun hok' ↦ ?_
      obtain ⟨c₀, rfl, hR⟩ := hR
      have hle : as.length + 1 ≤ c₀ := hR hok'
      rw [List.length_cons]
      omega
    · -- The flag is set, and the loop is over.
      rw [Bool.not_eq_false] at hok
      refine (repeatWhileOk_of_failed hok n).bind fun as s' c' hbad ↦ Within.done fun hok' ↦ ?_
      exact absurd (hbad.symm.trans hok') (by simp)

end Within

end Ticking

end Meridian.Lib

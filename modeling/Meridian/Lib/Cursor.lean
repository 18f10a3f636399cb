import Mathlib.Data.List.Infix
import Mathlib.Data.List.Flatten

/-!
# Readers with a sticky error flag

A common shape of hand-written decoders: a cursor over a byte buffer with an error flag, primitives
that set the flag instead of failing, and a decoder that keeps reading and looks at the flag only
now and then. This module has the rules for such decoders.

The cursor type is a parameter; a `Cursor` says which of its states have failed and what it means
for a good state to have the bytes `l` in front of it. A `Parser` is a state transformer that may
also give up for good (`none`).

`Reads C p bs a` is the specification everything is stated in. It says that `p` decodes **exactly**
`bs` to `a`, whatever follows; that on a strict prefix of `bs` it does not get through without
setting the flag; and that a flag once set stays set. It composes: `Reads.bind`, `Reads.done`,
`Reads.check` and `Reads.entries` follow the syntax of a decoder, and `Reads.run` and
`Reads.run_prefix` read off what a complete decoder does.

`Consumes C p Q` goes the other way, from what a decoder accepts: `Q` holds of every value it returns
without error and the bytes it has read for it. Its rules follow the syntax of a decoder too.
-/

namespace Meridian.Lib

variable {σ α β : Type}

/-- What a decoder needs to know about its cursor. -/
structure Cursor (σ : Type) where
  /-- The error flag. -/
  failed : σ → Bool
  /-- A good state with exactly these bytes left. -/
  At : σ → List UInt8 → Prop
  not_failed : ∀ {s l}, At s l → failed s = false

/-- A decoder: it may give up (`none`), or return a value and a cursor that may have failed. -/
abbrev Parser (σ α : Type) := StateT σ Option α

/-- Give up if the flag is set or the value read so far is unacceptable. -/
def nullIf (failed : σ → Bool) (bad : Bool) : Parser σ Unit :=
  fun s ↦ if failed s || bad then none else some ((), s)

/-- Read up to `n` entries, stopping as soon as the flag is set. -/
def repeatWhileOk (failed : σ → Bool) (p : Parser σ α) : ℕ → Parser σ (List α)
  | 0 => fun s ↦ some ([], s)
  | n + 1 => fun s ↦
    if failed s then some ([], s)
    else (do let a ← p; let as ← repeatWhileOk failed p n; pure (a :: as) : Parser σ (List α)) s

/-- A check that has been passed. -/
theorem nullIf_eq_some {failed : σ → Bool} {bad : Bool} {s s' : σ} {u : Unit}
    (h : nullIf failed bad s = some (u, s')) : failed s = false ∧ bad = false ∧ s' = s := by
  rw [nullIf] at h
  split at h
  · exact absurd h (by simp)
  · rename_i hok
    cases h
    simp only [Bool.or_eq_true, not_or, Bool.not_eq_true] at hok
    exact ⟨hok.1, hok.2, rfl⟩

/-- A flag that is set stays set. A class, so that the decoders built with `do` have it by
inference. -/
class Sticky (C : Cursor σ) (p : Parser σ α) : Prop where
  out : ∀ s a s', C.failed s = true → p s = some (a, s') → C.failed s' = true

/-- What is returned has been read without error. -/
class Strict (C : Cursor σ) (p : Parser σ α) : Prop where
  out : ∀ s a s', p s = some (a, s') → C.failed s' = false

/-- `p` decodes exactly `bs` to `a`. -/
structure Reads (C : Cursor σ) (p : Parser σ α) (bs : List UInt8) (a : α) : Prop where
  sticky : Sticky C p
  full : ∀ s tail, C.At s (bs ++ tail) → ∃ s', p s = some (a, s') ∧ C.At s' tail
  short : ∀ s l, C.At s l → l <+: bs → l ≠ bs → ∀ b s', p s = some (b, s') → C.failed s' = true

/-- Whatever `p` accepts it has read from the front of the buffer, and `Q` holds of it and of these
bytes. -/
def Consumes (C : Cursor σ) (p : Parser σ α) (Q : α → List UInt8 → Prop) : Prop :=
  ∀ s l a s', C.At s l → p s = some (a, s') → C.failed s' = false →
    ∃ bs tail, l = bs ++ tail ∧ Q a bs ∧ C.At s' tail

variable {C : Cursor σ} {p : Parser σ α} {f : α → Parser σ β}

/-! ### Sticky and strict decoders -/

theorem bind_eq_some {s : σ} {b : β} {s' : σ} :
    (p >>= f) s = some (b, s') ↔ ∃ a s₁, p s = some (a, s₁) ∧ f a s₁ = some (b, s') := by
  change (p s).bind (fun x ↦ f x.1 x.2) = _ ↔ _
  rw [Option.bind_eq_some_iff]
  exact ⟨fun ⟨x, h⟩ ↦ ⟨x.1, x.2, h⟩, fun ⟨a, s₁, h⟩ ↦ ⟨(a, s₁), h⟩⟩

instance Sticky.done (C : Cursor σ) (a : α) : Sticky C (pure a : Parser σ α) where
  out := by
    rintro s b s' hs h
    cases h
    exact hs

instance Sticky.bind [hp : Sticky C p] [hf : ∀ a, Sticky C (f a)] : Sticky C (p >>= f) where
  out := by
    intro s b s' hs h
    obtain ⟨a, s₁, h₁, h₂⟩ := bind_eq_some.1 h
    exact (hf a).out s₁ b s' (hp.out s a s₁ hs h₁) h₂

instance Sticky.nullIf (C : Cursor σ) (bad : Bool) : Sticky C (nullIf C.failed bad) where
  out := by
    intro s a s' hs h
    simp [Lib.nullIf, hs] at h

instance Sticky.repeatWhileOk (C : Cursor σ) (p : Parser σ α) (n : ℕ) :
    Sticky C (repeatWhileOk C.failed p n) where
  out := by
    intro s as s' hs h
    cases n with
    | zero =>
      cases h
      exact hs
    | succ n =>
      simp only [Lib.repeatWhileOk, hs, if_true, Option.some.injEq, Prod.mk.injEq] at h
      exact h.2 ▸ hs

instance Strict.nullIf_done (bad : Bool) (b : β) :
    Strict C (nullIf C.failed bad >>= fun _ ↦ pure b) where
  out := by
    intro s a s' h
    obtain ⟨_, s₁, h₁, h₂⟩ := bind_eq_some.1 h
    cases h₂
    obtain ⟨hok, -, rfl⟩ := nullIf_eq_some h₁
    exact hok

instance Strict.bind [hf : ∀ a, Strict C (f a)] : Strict C (p >>= f) where
  out := by
    intro s b s' h
    obtain ⟨a, s₁, -, h₂⟩ := bind_eq_some.1 h
    exact (hf a).out s₁ b s' h₂

/-! ### The rules of `Reads` -/

theorem Reads.done (C : Cursor σ) (a : α) : Reads C (pure a : Parser σ α) [] a where
  sticky := Sticky.done C a
  full := fun s _ h ↦ ⟨s, rfl, h⟩
  short := fun _ _ _ hpre hne ↦ absurd (List.prefix_nil.1 hpre) hne

theorem Reads.check (C : Cursor σ) {bad : Bool} (hbad : bad = false) :
    Reads C (nullIf C.failed bad) [] () where
  sticky := Sticky.nullIf C bad
  full := fun s _ h ↦ ⟨s, by simp [Lib.nullIf, C.not_failed h, hbad], h⟩
  short := fun _ _ _ hpre hne ↦ absurd (List.prefix_nil.1 hpre) hne

/-- **Sequencing.** A prefix that is too short for both parts is too short for the first, or is all
of the first and too short for the second. -/
theorem Reads.bind {bs cs : List UInt8} {a : α} {b : β} (hp : Reads C p bs a)
    (hf : Reads C (f a) cs b) [hst : ∀ a, Sticky C (f a)] : Reads C (p >>= f) (bs ++ cs) b where
  sticky := have := hp.sticky; Sticky.bind
  full := by
    intro s tail hat
    rw [List.append_assoc] at hat
    obtain ⟨s₁, h₁, hat₁⟩ := hp.full s _ hat
    obtain ⟨s₂, h₂, hat₂⟩ := hf.full s₁ _ hat₁
    exact ⟨s₂, bind_eq_some.2 ⟨a, s₁, h₁, h₂⟩, hat₂⟩
  short := by
    intro s l hat hpre hne b' s' h
    obtain ⟨a', s₁, h₁, h₂⟩ := bind_eq_some.1 h
    rcases List.prefix_or_prefix_of_prefix hpre (List.prefix_append bs cs) with hl | ⟨l', rfl⟩
    · by_cases hfull : l = bs
      · subst hfull
        rw [← List.append_nil l] at hat
        obtain ⟨s₁', h₁', hat₁⟩ := hp.full s _ hat
        rw [h₁', Option.some.injEq, Prod.mk.injEq] at h₁
        obtain ⟨rfl, rfl⟩ := h₁
        refine hf.short _ [] hat₁ List.nil_prefix ?_ b' s' h₂
        rintro rfl
        exact hne (List.append_nil _).symm
      · exact (hst a').out s₁ b' s' (hp.short s l hat hl hfull a' s₁ h₁) h₂
    · obtain ⟨s₁', h₁', hat₁⟩ := hp.full s _ hat
      rw [h₁', Option.some.injEq, Prod.mk.injEq] at h₁
      obtain ⟨rfl, rfl⟩ := h₁
      rw [List.prefix_append_right_inj] at hpre
      exact hf.short _ l' hat₁ hpre (fun heq ↦ hne (by rw [heq])) b' s' h₂

theorem Reads.map {bs : List UInt8} {a : α} (hp : Reads C p bs a) (g : α → β) :
    Reads C (do let x ← p; pure (g x)) bs (g a) := by
  rw [← List.append_nil bs]
  exact hp.bind (Reads.done C (g a))

/-- A decoder that ends in a check of what came before it. -/
theorem Reads.check_bind {bad : Bool} {q : Parser σ β} {bs : List UInt8} {b : β}
    (hbad : bad = false) (hq : Reads C q bs b) : Reads C (do nullIf C.failed bad; q) bs b :=
  have := hq.sticky
  (Reads.check C hbad).bind hq

/-- **Counted entries.** -/
theorem Reads.entries {enc : α → List UInt8} {as : List α}
    (h : ∀ a ∈ as, Reads C p (enc a) a) :
    Reads C (repeatWhileOk C.failed p as.length) (as.flatMap enc) as := by
  induction as with
  | nil => exact Reads.done C []
  | cons a as ih =>
    have hrec := ih fun b hb ↦ h b (List.mem_cons_of_mem a hb)
    -- as long as the cursor is good, the loop is its first entry followed by the rest of the loop
    have hloop : Reads C (do let x ← p; let xs ← repeatWhileOk C.failed p as.length; pure (x :: xs))
        ((a :: as).flatMap enc) (a :: as) := by
      rw [List.flatMap_cons]
      exact (h a (List.mem_cons_self ..)).bind (hrec.map (a :: ·))
    have heq : ∀ s, C.failed s = false → repeatWhileOk C.failed p (a :: as).length s =
        (do let x ← p; let xs ← repeatWhileOk C.failed p as.length; pure (x :: xs) :
          Parser σ (List α)) s := by
      intro s hs
      simp only [List.length_cons, Lib.repeatWhileOk, hs, Bool.false_eq_true, if_false]
    refine ⟨Sticky.repeatWhileOk C p _, fun s tail hat ↦ ?_, fun s l hat ↦ ?_⟩
    · rw [heq s (C.not_failed hat)]
      exact hloop.full s tail hat
    · rw [heq s (C.not_failed hat)]
      exact hloop.short s l hat

/-! ### What a complete decoder does -/

/-- On the whole encoding, a decoder returns the value. -/
theorem Reads.run {bs : List UInt8} {a : α} (h : Reads C p bs a) {s : σ} (hs : C.At s bs) :
    (p s).map Prod.fst = some a := by
  obtain ⟨s', hs', -⟩ := h.full s [] (by rwa [List.append_nil])
  rw [hs', Option.map_some]

/-- **On a strict prefix of the encoding, a decoder that checks the flag at its end gives up.** -/
theorem Reads.run_prefix {bs l : List UInt8} {a : α} (h : Reads C p bs a) [hstrict : Strict C p]
    {s : σ} (hs : C.At s l) (hpre : l <+: bs) (hne : l ≠ bs) : p s = none := by
  rcases hps : p s with - | ⟨b, s'⟩
  · rfl
  · have hfail := h.short s l hs hpre hne b s' hps
    rw [hstrict.out s b s' hps] at hfail
    exact absurd hfail (by simp)

/-! ### What an accepted buffer has in it -/

theorem Consumes.done {Q : α → List UInt8 → Prop} {a : α} (h : Q a []) :
    Consumes C (pure a : Parser σ α) Q := by
  intro s l a' s' hat heq _
  cases heq
  exact ⟨[], l, rfl, h, hat⟩

theorem Consumes.mono {P Q : α → List UInt8 → Prop} (h : Consumes C p P)
    (hPQ : ∀ a bs, P a bs → Q a bs) : Consumes C p Q := by
  intro s l a s' hat heq hok
  obtain ⟨bs, tail, hl, hP, hat'⟩ := h s l a s' hat heq hok
  exact ⟨bs, tail, hl, hPQ a bs hP, hat'⟩

/-- **Sequencing.** If the second part has read without error, so has the first. -/
theorem Consumes.bind {P : α → List UInt8 → Prop} {Q : β → List UInt8 → Prop}
    (hp : Consumes C p P) (hf : ∀ a bs, P a bs → Consumes C (f a) fun b cs ↦ Q b (bs ++ cs))
    [hst : ∀ a, Sticky C (f a)] : Consumes C (p >>= f) Q := by
  intro s l b s' hat h hok
  obtain ⟨a, s₁, h₁, h₂⟩ := bind_eq_some.1 h
  have hok₁ : C.failed s₁ = false := by
    refine Bool.eq_false_iff.2 fun hbad ↦ ?_
    rw [(hst a).out s₁ b s' hbad h₂] at hok
    exact absurd hok (by simp)
  obtain ⟨bs, tail, rfl, hP, hat₁⟩ := hp s l a s₁ hat h₁ hok₁
  obtain ⟨cs, tail', rfl, hQ, hat'⟩ := hf a _ hP s₁ tail b s' hat₁ h₂ hok
  exact ⟨bs ++ cs, tail', (List.append_assoc ..).symm, hQ, hat'⟩

/-- A field: its bytes are determined by its value. -/
theorem Consumes.field {enc : α → List UInt8} {Q : β → List UInt8 → Prop}
    (hp : Consumes C p fun a bs ↦ bs = enc a)
    (hf : ∀ a, Consumes C (f a) fun b cs ↦ Q b (enc a ++ cs)) [∀ a, Sticky C (f a)] :
    Consumes C (p >>= f) Q :=
  hp.bind fun a _ hbs ↦ hbs ▸ hf a

/-- After a check the value is as it should be. -/
theorem Consumes.check_bind {bad : Bool} {q : Parser σ β} {Q : β → List UInt8 → Prop}
    (hq : bad = false → Consumes C q Q) : Consumes C (do nullIf C.failed bad; q) Q := by
  intro s l b s' hat h hok
  obtain ⟨_, s₁, h₁, h₂⟩ := bind_eq_some.1 h
  obtain ⟨-, hgood, rfl⟩ := nullIf_eq_some h₁
  exact hq hgood _ l b s' hat h₂ hok

/-- **Counted entries**: as many as were asked for, one after another. -/
theorem Consumes.entries {enc : α → List UInt8} (hp : Consumes C p fun a bs ↦ bs = enc a)
    [Sticky C p] (n : ℕ) :
    Consumes C (repeatWhileOk C.failed p n) fun as bs ↦ as.length = n ∧ bs = as.flatMap enc := by
  induction n with
  | zero => exact Consumes.done ⟨rfl, rfl⟩
  | succ n ih =>
    have hloop : Consumes C (do
        let a ← p
        let as ← repeatWhileOk C.failed p n
        pure (a :: as)) fun as bs ↦ as.length = n + 1 ∧ bs = as.flatMap enc :=
      hp.field fun a ↦ ih.bind fun as bs hbs ↦ Consumes.done (by
        obtain ⟨rfl, rfl⟩ := hbs
        exact ⟨rfl, by rw [List.flatMap_cons, List.append_nil]⟩)
    -- at the start the cursor is good, so the loop takes an entry
    intro s l as s' hat h hok
    simp only [repeatWhileOk, C.not_failed hat, Bool.false_eq_true, if_false] at h
    exact hloop s l as s' hat h hok

end Meridian.Lib

import Meridian.Lib.Runs

/-!
# Readers of token lists

A recursive descent parser is a family of readers: a reader takes a phrase from the front of the
list of tokens that is left, or fails. Left recursion is a loop: `iterate` extends what has been read
for as long as the next token says so.

* Soundness is stated with `Meets`: what is left and what has been taken make up the list (`Takes`).
* Completeness is stated with `Runs`: from a phrase and what follows it, the reader returns the phrase
  and leaves the rest.
* `Phrase` is one nonterminal: a reader for its forms that are not left recursive, and one for the
  extensions. A phrase is read whole where the next token does not go on with it (`Stops`), and up to
  an extension where the next token is the first one of it (`Pauses`). `Phrase.Reads` says of one
  parse tree that the parser finds it; there is a rule for each of the two kinds of production.
-/

namespace Meridian.Lib

variable {τ ε α β : Type}

/-- A computation on the tokens that are left. -/
abbrev Reader (τ ε : Type) : Type → Type := StateT (List τ) (Except ε)

variable {e : ε} {f : τ → Option α} {p q : τ → Bool} {more : α → Reader τ ε α} {a a' : α}
  {b : β} {m : Reader τ ε α} {g : α → Reader τ ε β} {print : α → List τ} {E : ε → Prop}
  {Q : β → List τ → Prop} {t : τ} {ts ts' ts'' : List τ} {n : ℕ}

/-! ### Rules -/

theorem meets_get_bind {f : List τ → Reader τ ε β} :
    Meets E (get >>= f) ts Q ↔ Meets E (f ts) ts Q := Iff.rfl

theorem runs_get_bind {f : List τ → Reader τ ε β} :
    Runs (get >>= f) ts b ts' ↔ Runs (f ts) ts b ts' := Iff.rfl

theorem meets_set_bind {g : PUnit → Reader τ ε β} :
    Meets E (set ts' >>= g) ts Q ↔ Meets E (g ⟨⟩) ts' Q := Iff.rfl

theorem runs_set_bind {g : PUnit → Reader τ ε β} :
    Runs (set ts' >>= g) ts b ts'' ↔ Runs (g ⟨⟩) ts' b ts'' := Iff.rfl

theorem Runs.bind (h : Runs m ts a ts') (hg : Runs (g a) ts' b ts'') : Runs (m >>= g) ts b ts'' :=
  runs_bind.2 ⟨a, ts', h, hg⟩

theorem Runs.map {k : α → β} (h : Runs m ts a ts') :
    Runs (do return k (← m) : Reader τ ε β) ts (k a) ts' :=
  h.bind (runs_pure.2 ⟨rfl, rfl⟩)

/-- What `p` returns is printed as what it takes. -/
def Takes (m : Reader τ ε α) (print : α → List τ) : Prop :=
  ∀ ts, Meets (fun _ ↦ True) m ts fun a rest ↦ ts = print a ++ rest

theorem Takes.then (h : Takes m print)
    (hg : ∀ a rest, ts = print a ++ rest → Meets (fun _ ↦ True) (g a) rest Q) :
    Meets (fun _ ↦ True) (m >>= g) ts Q :=
  meets_bind.2 ((h ts).mono hg)

/-! ### Tokens -/

/-- The next token, if `f` knows it. -/
def token (e : ε) (f : τ → Option α) : Reader τ ε α := fun ts ↦
  match ts with
  | [] => .error e
  | t :: ts =>
    match f t with
    | some a => .ok (a, ts)
    | none => .error e

theorem runs_token (h : f t = some a) : Runs (token e f) (t :: ts) a ts := by
  simp [Runs, token, h]

theorem token_meets {Q : α → List τ → Prop} (he : E e)
    (hQ : ∀ t rest a, ts = t :: rest → f t = some a → Q a rest) : Meets E (token e f) ts Q := by
  refine meets_iff.2 ⟨fun a rest h ↦ ?_, fun e' h ↦ ?_⟩
  · cases ts with
    | nil => cases h
    | cons t ts =>
      cases hf : f t with
      | none => simp [token, hf] at h
      | some b =>
        simp only [token, hf, Except.ok.injEq, Prod.mk.injEq] at h
        obtain ⟨rfl, rfl⟩ := h
        exact hQ t ts b rfl hf
  · cases ts with
    | nil =>
      cases h
      exact he
    | cons t ts =>
      cases hf : f t with
      | none =>
        simp only [token, hf, Except.error.injEq] at h
        exact h ▸ he
      | some b => simp [token, hf] at h

theorem takes_token (h : ∀ t a, f t = some a → print a = [t]) : Takes (token e f) print := by
  refine fun ts ↦ token_meets trivial fun t rest a hts hf ↦ ?_
  rw [h t a hf, hts]
  rfl

/-- The next token is one of these. -/
def nextIs (p : τ → Bool) (ts : List τ) : Bool := ts.head?.any p

@[simp] theorem nextIs_nil : nextIs p [] = false := rfl

@[simp] theorem nextIs_cons : nextIs p (t :: ts) = p t := rfl

theorem nextIs_mono (h : nextIs q ts = false) (hpq : ∀ t, p t = true → q t = true) :
    nextIs p ts = false := by
  cases ts with
  | nil => rfl
  | cons t ts =>
    rw [nextIs_cons, Bool.eq_false_iff] at h ⊢
    exact fun ht ↦ h (hpq t ht)

/-! ### Loops -/

/-- `more` is repeated while the next token is one that continues the phrase, at most `n` times. -/
def iterate (e : ε) (p : τ → Bool) (more : α → Reader τ ε α) : ℕ → α → Reader τ ε α
  | 0, a => do if nextIs p (← get) then throw e else pure a
  | n + 1, a => do
    if nextIs p (← get) then iterate e p more n (← more a) else pure a

/-- The loop keeps what one round keeps, and ends before a token that does not continue it. -/
theorem iterate_meets {I : α → List τ → Prop} (he : E e)
    (hmore : ∀ a ts, I a ts → Meets E (more a) ts I) (h : I a ts) :
    Meets E (iterate e p more n a) ts fun a' ts' ↦ I a' ts' ∧ nextIs p ts' = false := by
  induction n generalizing a ts with
  | zero =>
    refine meets_get_bind.2 (meets_ite.2 ⟨fun _ ↦ meets_throw.2 he, fun hp ↦ ?_⟩)
    exact meets_pure.2 ⟨h, Bool.eq_false_iff.2 hp⟩
  | succ n ih =>
    refine meets_get_bind.2 (meets_ite.2 ⟨fun _ ↦ meets_bind.2 ?_, fun hp ↦ ?_⟩)
    · exact (hmore a ts h).mono fun _ _ h' ↦ ih h'
    · exact meets_pure.2 ⟨h, Bool.eq_false_iff.2 hp⟩

/-- The loop ends before a token that does not continue the phrase. -/
theorem runs_iterate_stop (h : nextIs p ts = false) : Runs (iterate e p more n a) ts a ts := by
  have hrest : ∀ m : Reader τ ε α, Runs (if nextIs p ts = true then m else pure a) ts a ts := by
    intro m
    rw [if_neg (by simp [h])]
    exact runs_pure.2 ⟨rfl, rfl⟩
  cases n with
  | zero => exact runs_get_bind.2 (hrest _)
  | succ n => exact runs_get_bind.2 (hrest _)

/-- One round of the loop. -/
theorem iterate_succ (h : nextIs p ts = true) (hmore : Runs (more a) ts a' ts') :
    iterate e p more (n + 1) a ts = iterate e p more n a' ts' := by
  have hmore : more a ts = .ok (a', ts') := hmore
  show (if nextIs p ts = true then more a >>= iterate e p more n else pure a : Reader τ ε α) ts = _
  rw [if_pos h]
  show (do let r ← more a ts; iterate e p more n r.1 r.2) = _
  rw [hmore]
  rfl

/-- Items are read while the next token begins one. -/
def many (e : ε) (p : τ → Bool) (item : Reader τ ε α) (n : ℕ) : Reader τ ε (List α) :=
  iterate e p (fun done ↦ do return done ++ [← item]) n []

/-- The items are printed as what is taken, and no further one begins. -/
theorem many_meets (he : E e) (hitem : ∀ ts, Meets E m ts fun a rest ↦ ts = print a ++ rest) :
    Meets E (many e p m n) ts fun as rest ↦
      ts = as.flatMap print ++ rest ∧ nextIs p rest = false := by
  refine iterate_meets he (fun done rest hdone ↦ meets_bind.2 ?_) rfl
  refine (hitem rest).mono fun a rest' ha ↦ meets_pure.2 ?_
  simp [hdone, ha]

/-- Printed items are found where each of them is, in front of what `P` allows. -/
theorem runs_many {P : List τ → Prop} {w : α → List τ} {as : List α}
    (hitem : ∀ a ∈ as, ∀ rest, P rest → Runs m (w a ++ rest) a rest)
    (hnext : ∀ a ∈ as, ∀ rest, nextIs p (w a ++ rest) = true)
    (hok : ∀ a ∈ as, ∀ rest, P (w a ++ rest)) (hn : (as.flatMap w).length ≤ n)
    (hts : P ts) (hstop : nextIs p ts = false) :
    Runs (many e p m n) (as.flatMap w ++ ts) as ts := by
  suffices h : ∀ done : List α, Runs (iterate e p (fun done ↦ do return done ++ [← m]) n done)
      (as.flatMap w ++ ts) (done ++ as) ts from h []
  induction as generalizing n with
  | nil => exact fun done ↦ by simpa using runs_iterate_stop hstop
  | cons a as ih =>
    intro done
    rw [List.flatMap_cons, List.length_append] at hn
    have hpos : 0 < (w a).length := by
      refine List.length_pos_iff.2 fun ha ↦ ?_
      have := hnext a (by simp) []
      rw [ha] at this
      cases this
    obtain ⟨n, rfl⟩ : ∃ k, n = k + 1 := ⟨n - 1, by omega⟩
    have hrest : P (as.flatMap w ++ ts) := by
      cases as with
      | nil => exact hts
      | cons b as =>
        rw [List.flatMap_cons, List.append_assoc]
        exact hok b (by simp) _
    rw [List.flatMap_cons, List.append_assoc, Runs, iterate_succ (hnext a (by simp) _)
      (hitem a (by simp) _ hrest).map]
    have h := ih (n := n) (fun b hb ↦ hitem b (by simp [hb])) (fun b hb ↦ hnext b (by simp [hb]))
      (fun b hb ↦ hok b (by simp [hb])) (by omega) (done ++ [a])
    rw [List.append_assoc] at h
    exact h

/-! ### Nonterminals -/

/-- A nonterminal and its phrases. `n` bounds how deep they are nested. -/
structure Phrase (τ ε α : Type) where
  error : ε
  base : ℕ → Reader τ ε α
  more : ℕ → α → Reader τ ε α
  continuedBy : τ → Bool
  extendedBy : τ → Bool
  print : α → List τ
  height : α → ℕ
  spine : α → ℕ
  continuedBy_of_extendedBy : ∀ t, extendedBy t = true → continuedBy t = true
  spine_lt_height : ∀ a, spine a < height a

namespace Phrase

variable (P : Phrase τ ε α)

/-- A phrase that is nested at most so deep. -/
def parse : ℕ → Reader τ ε α
  | 0 => throw P.error
  | n + 1 => do iterate P.error P.extendedBy (P.more n) n (← P.base n)

/-- The phrase ends before these tokens. -/
def Stops (ts : List τ) : Prop := nextIs P.continuedBy ts = false

/-- The phrase ends before these tokens, or they begin with an extension of it. -/
def Pauses (ts : List τ) : Prop :=
  nextIs (fun t ↦ P.continuedBy t && !P.extendedBy t) ts = false

/-- The parser reads the tree, and goes on with the loop of the nonterminal. -/
def Reads (a : α) : Prop :=
  ∀ n rest, P.height a ≤ n + 1 → P.Pauses rest →
    P.parse (n + 1) (P.print a ++ rest) =
      iterate P.error P.extendedBy (P.more n) (n - P.spine a) a rest

variable {P} {rest w : List τ}

theorem Stops.pauses (h : P.Stops ts) : P.Pauses ts :=
  nextIs_mono h fun _ ht ↦ ((Bool.and_eq_true ..).mp ht).1

theorem Stops.not_extended (h : P.Stops ts) : nextIs P.extendedBy ts = false :=
  nextIs_mono h P.continuedBy_of_extendedBy

/-- An extension may begin wherever the phrase pauses. -/
theorem pauses_of_extendedBy (h : nextIs P.extendedBy ts = true) : P.Pauses ts := by
  cases ts with
  | nil => rfl
  | cons t ts =>
    have h : P.extendedBy t = true := h
    simp [Pauses, h]

/-- The phrase is read whole in front of what does not go on with it. -/
theorem Reads.runs (h : P.Reads a) (hn : P.height a ≤ n) (hstop : P.Stops rest) :
    Runs (P.parse n) (P.print a ++ rest) a rest := by
  cases n with
  | zero =>
    have := P.spine_lt_height a
    omega
  | succ n =>
    rw [Runs, h n rest hn hstop.pauses]
    exact runs_iterate_stop hstop.not_extended

/-- A production that is not left recursive. -/
theorem reads_of_base (hspine : P.spine a = 0)
    (h : ∀ n rest, P.height a ≤ n + 1 → P.Pauses rest →
      Runs (P.base n) (P.print a ++ rest) a rest) : P.Reads a := by
  intro n rest hn hrest
  have hbase : P.base n (P.print a ++ rest) = .ok (a, rest) := h n rest hn hrest
  show (do let r ← P.base n (P.print a ++ rest)
           iterate P.error P.extendedBy (P.more n) n r.1 r.2) = _
  rw [hbase, hspine]
  rfl

/-- A left recursive production: the loop is at its left part, and goes round once more. -/
theorem Reads.extension (h : P.Reads a) (hspine : P.spine a' = P.spine a + 1)
    (hheight : P.height a ≤ P.height a') (hprint : P.print a' = P.print a ++ w)
    (hnext : ∀ rest, nextIs P.extendedBy (w ++ rest) = true)
    (hmore : ∀ n rest, P.height a' ≤ n + 1 → P.Pauses rest →
      Runs (P.more n a) (w ++ rest) a' rest) : P.Reads a' := by
  intro n rest hn hrest
  have hlt := P.spine_lt_height a'
  have hround : n - P.spine a = (n - P.spine a') + 1 := by omega
  rw [hprint, List.append_assoc, h n _ (Nat.le_trans hheight hn) (pauses_of_extendedBy (hnext rest)),
    hround, iterate_succ (hnext rest) (hmore n rest hn hrest)]

/-- What is read is what has been taken, one level deeper. -/
theorem takes_succ (hbase : Takes (P.base n) P.print)
    (hmore : ∀ a ts, Meets (fun _ ↦ True) (P.more n a) ts fun a' rest ↦
      P.print a ++ ts = P.print a' ++ rest) : Takes (P.parse (n + 1)) P.print := by
  refine fun ts ↦ hbase.then fun a rest ha ↦ ?_
  have hloop : Meets (fun _ ↦ True) (iterate P.error P.extendedBy (P.more n) n a) rest
      fun a' rest' ↦ ts = P.print a' ++ rest' ∧ nextIs P.extendedBy rest' = false := by
    refine iterate_meets trivial ?_ ha
    rintro a' rest' rfl
    exact hmore a' rest'
  exact hloop.mono fun _ _ h ↦ h.1

end Phrase

end Meridian.Lib

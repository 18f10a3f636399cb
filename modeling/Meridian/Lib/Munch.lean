import Mathlib.Data.List.Basic

/-!
# Scanners by longest match

A scanner is a list of rules. Where it stands in the text it takes the longest lexeme that any rule
accepts, and of the rules that accept it the first one. `Lexed` says that a text is cut into these
lexemes; `lexed_lexemes` and `Lexed.unique` say that `lexemes` is the one way to do so.
-/

namespace Meridian.Lib

variable {σ α : Type}

/-- A pattern, and what is done with a lexeme of it. -/
structure LexRule (σ α : Type) where
  accepts : List σ → Bool
  action : List σ → α

variable (rules : List (LexRule σ α))

/-- The first rule that accepts the lexeme. -/
def ruleOf (w : List σ) : Option (LexRule σ α) := rules.find? fun r ↦ r.accepts w

/-- The length of the longest lexeme at the front of the text that has at most `n` characters, and its
rule. -/
def munch (text : List σ) : ℕ → Option (LexRule σ α × ℕ)
  | 0 => none
  | n + 1 =>
    match ruleOf rules (text.take (n + 1)) with
    | some r => some (r, n + 1)
    | none => munch text n

/-- At most `n` lexemes, from the front of the text. -/
def lexemes : ℕ → List σ → List (LexRule σ α × List σ)
  | 0, _ => []
  | n + 1, text =>
    match munch rules text text.length with
    | some (r, k) => (r, text.take k) :: lexemes n (text.drop k)
    | none => []

/-- In front of `rest`, the lexeme `w` is taken by the rule. -/
structure Munches (r : LexRule σ α) (w rest : List σ) : Prop where
  ne_nil : w ≠ []
  rule : ruleOf rules w = some r
  longest : ∀ x y, x ≠ [] → rest = x ++ y → ruleOf rules (w ++ x) = none

/-- The text is cut into these lexemes. -/
inductive Lexed : List σ → List (LexRule σ α × List σ) → Prop
  | nil : Lexed [] []
  | cons {r : LexRule σ α} {w rest : List σ} {ls : List (LexRule σ α × List σ)}
      (h : Munches rules r w rest) (hrest : Lexed rest ls) : Lexed (w ++ rest) ((r, w) :: ls)

variable {rules} {r r' : LexRule σ α} {w w' rest rest' text : List σ} {n k : ℕ}
  {ls ls' : List (LexRule σ α × List σ)}

theorem ruleOf_cons_of_pos (h : r.accepts w = true) : ruleOf (r :: rules) w = some r :=
  List.find?_cons_of_pos h

theorem ruleOf_cons_of_neg (h : r.accepts w = false) : ruleOf (r :: rules) w = ruleOf rules w :=
  List.find?_cons_of_neg (by rw [h]; exact Bool.false_ne_true)

theorem accepts_of_ruleOf (h : ruleOf rules w = some r) : r ∈ rules ∧ r.accepts w = true := by
  have h : rules.find? (fun r ↦ r.accepts w) = some r := h
  have haccepts := List.find?_some h
  exact ⟨List.mem_of_find?_eq_some h, haccepts⟩

theorem munch_eq_some (h : munch rules text n = some (r, k)) :
    0 < k ∧ k ≤ n ∧ ruleOf rules (text.take k) = some r ∧
      ∀ j, k < j → j ≤ n → ruleOf rules (text.take j) = none := by
  induction n with
  | zero => cases h
  | succ n ih =>
    rw [munch] at h
    split at h
    · next r' hr =>
      cases h
      exact ⟨by omega, Nat.le_refl _, hr, fun j hj hj' ↦ by omega⟩
    · next hnone =>
      obtain ⟨hpos, hle, hr, hlongest⟩ := ih h
      refine ⟨hpos, by omega, hr, fun j hj hj' ↦ ?_⟩
      rcases Nat.lt_or_ge n j with hlt | hge
      · obtain rfl : j = n + 1 := by omega
        exact hnone
      · exact hlongest j hj hge

theorem munch_eq_none (h : munch rules text n = none) (hk : 0 < k) (hkn : k ≤ n) :
    ruleOf rules (text.take k) = none := by
  induction n with
  | zero => omega
  | succ n ih =>
    rw [munch] at h
    split at h
    · cases h
    · next hnone =>
      rcases Nat.lt_or_ge n k with hlt | hge
      · obtain rfl : k = n + 1 := by omega
        exact hnone
      · exact ih h hge

/-- What `munch` finds is taken. -/
theorem munches_of_munch (h : munch rules text text.length = some (r, k)) :
    Munches rules r (text.take k) (text.drop k) := by
  obtain ⟨hpos, hle, hr, hlongest⟩ := munch_eq_some h
  have htake : (text.take k).length = k := List.length_take_of_le hle
  refine ⟨fun h ↦ ?_, hr, fun x y hx hxy ↦ ?_⟩
  · rw [h] at htake
    exact absurd htake (Nat.ne_of_lt hpos)
  · have htext : text = text.take k ++ x ++ y := by
      rw [List.append_assoc, ← hxy, List.take_append_drop]
    have hlen := congrArg List.length htext
    have hxpos := List.length_pos_iff.2 hx
    simp only [List.length_append, htake] at hlen
    have hj := hlongest (k + x.length) (by omega) (by omega)
    have happend : text.take (k + x.length) = text.take k ++ x := by
      conv_lhs => rw [htext]
      exact List.take_left' (by rw [List.length_append, htake])
    rwa [happend] at hj

/-- Where every character is a lexeme, the text is cut to its end. -/
theorem lexed_lexemes (htotal : ∀ c, ruleOf rules [c] ≠ none) (hn : text.length ≤ n) :
    Lexed rules text (lexemes rules n text) := by
  induction n generalizing text with
  | zero =>
    obtain rfl := List.length_eq_zero_iff.1 (Nat.le_zero.1 hn)
    exact .nil
  | succ n ih =>
    rw [lexemes]
    split
    · next r k h =>
      obtain ⟨hpos, hle, -⟩ := munch_eq_some h
      have hrest : Lexed rules (text.drop k) _ := ih (by rw [List.length_drop]; omega)
      have hlexed := Lexed.cons (munches_of_munch h) hrest
      rwa [List.take_append_drop] at hlexed
    · next h =>
      cases text with
      | nil => exact .nil
      | cons c text => exact absurd (munch_eq_none h Nat.one_pos (by simp)) (htotal c)

/-- The lexeme at the front of a text and its rule. -/
theorem Munches.unique (h : Munches rules r w rest) (h' : Munches rules r' w' rest')
    (heq : w ++ rest = w' ++ rest') : r = r' ∧ w = w' ∧ rest = rest' := by
  have hw : w = w' := by
    rcases List.append_eq_append_iff.1 heq with ⟨x, rfl, hx⟩ | ⟨x, rfl, hx⟩
    · rcases eq_or_ne x [] with rfl | hne
      · rw [List.append_nil]
      · exact absurd h'.rule (by rw [h.longest x rest' hne hx]; exact (Option.some_ne_none _).symm)
    · rcases eq_or_ne x [] with rfl | hne
      · rw [List.append_nil]
      · exact absurd h.rule (by rw [h'.longest x rest hne hx]; exact (Option.some_ne_none _).symm)
  subst hw
  exact ⟨Option.some.inj (h.rule.symm.trans h'.rule), rfl, List.append_cancel_left heq⟩

/-- **There is one way to cut a text.** -/
theorem Lexed.unique (h : Lexed rules text ls) (h' : Lexed rules text ls') : ls = ls' := by
  induction h generalizing ls' with
  | nil =>
    generalize htext : ([] : List σ) = text at h'
    cases h' with
    | nil => rfl
    | cons h' => exact absurd (List.append_eq_nil_iff.1 htext.symm).1 h'.ne_nil
  | @cons r w rest ls h _ ih =>
    generalize htext : w ++ rest = text at h'
    cases h' with
    | nil => exact absurd (List.append_eq_nil_iff.1 htext).1 h.ne_nil
    | cons h' hrest' =>
      obtain ⟨rfl, rfl, rfl⟩ := h.unique h' htext
      rw [ih hrest']

theorem lexemes_eq (htotal : ∀ c, ruleOf rules [c] ≠ none) (h : Lexed rules text ls) :
    lexemes rules text.length text = ls :=
  (lexed_lexemes htotal (Nat.le_refl _)).unique h

/-- The lexemes make up the text. -/
theorem Lexed.flatten (h : Lexed rules text ls) : (ls.map Prod.snd).flatten = text := by
  induction h with
  | nil => rfl
  | cons _ _ ih => rw [List.map_cons, List.flatten_cons, ih]

/-- There are at most as many lexemes as characters. -/
theorem Lexed.length_le (h : Lexed rules text ls) : ls.length ≤ text.length := by
  induction h with
  | nil => exact Nat.le_refl _
  | cons h _ ih =>
    have hpos := List.length_pos_iff.2 h.ne_nil
    rw [List.length_cons, List.length_append]
    omega

end Meridian.Lib

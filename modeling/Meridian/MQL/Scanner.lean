import Meridian.Lib.Munch
import Meridian.MQL.Grammar
import Mathlib.Data.List.TakeWhile

/-!
# The scanner of MQL

`MQL.lex`: the rules in their order, with the regular expressions as predicates on lexemes. The program
that flex makes of them takes the longest lexeme and of the rules for it the first.

* `atof` is a parameter. `atoi` is by way of a `long`, which has 32 bits on the target
  (`Meridian.Ident`), so it stops at the largest `int`.
* The text of a string literal is copied as a C string and loses its last character: after a NUL byte
  this is not the quote. Where there is none to lose, `erase` throws.
* The scanner runs before the parser here, in the program it is called for one token at a time. This
  makes no difference for what is accepted.
-/

namespace Meridian.MQL

open Lib

variable {D : Type}

/-- The bytes of a text in ASCII. -/
def ascii (s : String) : Str := s.toList.map fun c ↦ UInt8.ofNat c.toNat

/-! ### Lexemes -/

/-- `{D}` -/
def isDigit (c : UInt8) : Bool := 48 ≤ c && c ≤ 57

/-- `{L}` -/
def isLetter (c : UInt8) : Bool := 97 ≤ c && c ≤ 122 || 65 ≤ c && c ≤ 90 || c == 95

/-- `{L}({L}|{D})*` -/
def isIdentifierText : Str → Bool
  | [] => false
  | c :: w => isLetter c && w.all fun c ↦ isLetter c || isDigit c

/-- `{D}+` -/
def isIntText (w : Str) : Bool := !w.isEmpty && w.all isDigit

/-- `"."{D}*`, and whether there are digits. -/
def isFraction : Str → Bool
  | 46 :: w => w.all isDigit
  | _ => false

/-- `{D}*"."{D}+` -/
def isDoubleText₁ (w : Str) : Bool :=
  isFraction (w.dropWhile isDigit) && 1 < (w.dropWhile isDigit).length

/-- `{D}+"."{D}*` -/
def isDoubleText₂ (w : Str) : Bool :=
  isFraction (w.dropWhile isDigit) && !(w.takeWhile isDigit).isEmpty

/-- What is behind the first quote of a literal: `(\\.|[^\\"])*\"` -/
def isStringRest : Str → Bool
  | [] => false
  | [34] => true
  | 92 :: c :: w => c != 10 && isStringRest w
  | c :: w => c != 34 && c != 92 && isStringRest w

/-- `\"(\\.|[^\\"])*\"` -/
def isStringText : Str → Bool
  | 34 :: w => isStringRest w
  | _ => false

/-- `[^\n]*\n` -/
def isLine : Str → Bool
  | [] => false
  | [10] => true
  | c :: w => c != 10 && isLine w

/-- `"//"[^\n]*\n` -/
def isComment : Str → Bool
  | 47 :: 47 :: w => isLine w
  | _ => false

/-- `[ \t\v\f]` -/
def isBlank (w : Str) : Bool := w == [32] || w == [9] || w == [11] || w == [12]

/-- `.` -/
def isAnyChar : Str → Bool
  | [c] => c != 10
  | _ => false

/-! ### Actions -/

/-- `atoi` of digits. -/
def atoi (w : Str) : Int32 :=
  Int32.ofInt (min (w.foldl (fun n c ↦ 10 * n + (c.toNat - 48)) 0) 2147483647 : ℕ)

/-- `*s_val = YYText() + 1`, and `erase` of the last character. -/
def literalText (w : Str) : Except ParseError Str :=
  match w.tail.takeWhile (· != 0) with
  | [] => .error .outOfRange
  | s => .ok s.dropLast

/-- What the scanner does with a lexeme: a token, or none. -/
abbrev LexAction (D : Type) := Except ParseError (Option (Token D))

/-- The keywords and operators, and their tokens. -/
def fixedTokens : List (Str × Token D) := [
  (ascii "sin", .native1 (.math .sin)),
  (ascii "cos", .native1 (.math .cos)),
  (ascii "pow", .native2 .pow),
  (ascii "double", .type .double),
  (ascii "int", .type .int),
  (ascii "string", .type .string),
  (ascii "void", .type .void),
  (ascii "print", .mark .print),
  (ascii "println", .mark .println),
  (ascii "round", .native1 .round),
  (ascii "ceil", .native1 .ceil),
  (ascii "floor", .native1 .floor),
  (ascii "dbl", .native1 .dbl),
  (ascii "if", .mark .ifMark),
  (ascii "else", .mark .elseMark),
  (ascii "while", .mark .whileMark),
  (ascii "break", .mark .breakMark),
  (ascii "continue", .mark .continueMark),
  (ascii "return", .mark .returnMark),
  (ascii "struct", .mark .structMark),
  (ascii "rpc", .mark .rpc),
  (ascii "tan", .native1 (.math .tan)),
  (ascii "asin", .native1 (.math .asin)),
  (ascii "acos", .native1 (.math .acos)),
  (ascii "atan", .native1 (.math .atan)),
  (ascii "array_size", .native1 .arraySize),
  (ascii "log", .native1 (.math .log)),
  (ascii "exp", .native1 (.math .exp)),
  (ascii "dns_lookup", .native1 .dnsLookup),
  (ascii "dns_addr", .native1 .dnsAddr),
  (ascii "get_self", .mark .getSelf),
  (ascii "ring_gt", .native1 (.ring .gt)),
  (ascii "ring_ge", .native1 (.ring .ge)),
  (ascii "ring_lt", .native1 (.ring .lt)),
  (ascii "ring_le", .native1 (.ring .le)),
  (ascii "get_distance_tcp", .getDistance .tcp),
  (ascii "get_distance_dns", .getDistance .dns),
  (ascii "get_distance_ping", .getDistance .ping),
  (ascii "get_distance_icmp", .getDistance .icmp),
  (ascii "push_back", .native2 .pushBack),
  (ascii "pop_back", .native1 .popBack),
  (ascii "array_intersect", .native2 .arrayIntersect),
  (ascii "for", .mark .forMark),
  (ascii "array_avg", .native1 .arrayAvg),
  (ascii "array_max", .native1 .arrayMax),
  (ascii "array_min", .native1 .arrayMin),
  (ascii "array_max_offset", .native1 .arrayMaxOffset),
  (ascii "array_min_offset", .native1 .arrayMinOffset),
  (ascii "array_union", .native2 .arrayUnion),
  (ascii "||", .op .or),
  (ascii "&&", .op .and),
  (ascii "^", .op .bitXor),
  (ascii "&", .op .bitAnd),
  (ascii "|", .op .bitOr),
  (ascii "-", .op .sub),
  (ascii "+", .op .add),
  (ascii "*", .op .mul),
  (ascii "/", .op .div),
  (ascii "%", .op .mod),
  (ascii "=", .mark .assign),
  (ascii ";", .mark .semicolon),
  (ascii "(", .mark .lparen),
  (ascii ")", .mark .rparen),
  (ascii "\x7b", .mark .lbrace),
  (ascii "\x7d", .mark .rbrace),
  (ascii "!", .mark .not),
  (ascii "<", .op .lt),
  (ascii ">", .op .gt),
  (ascii "<=", .op .le),
  (ascii ">=", .op .ge),
  (ascii "<<", .op .left),
  (ascii ">>", .op .right),
  (ascii "==", .op .eq),
  (ascii "!=", .op .ne),
  (ascii ",", .mark .comma),
  (ascii ".", .mark .dot),
  (ascii "[", .mark .lbracket),
  (ascii "]", .mark .rbracket)]

/-- The rule of a keyword or an operator. -/
def fixedRule (e : Str × Token D) : LexRule UInt8 (LexAction D) where
  accepts w := w == e.1
  action _ := .ok (some e.2)

def identifierRule : LexRule UInt8 (LexAction D) where
  accepts := isIdentifierText
  action w := .ok (some (.identifier w))

def intRule : LexRule UInt8 (LexAction D) where
  accepts := isIntText
  action w := .ok (some (.intConstant (atoi w)))

/-- The rule of a `DOUBLE_CONSTANT`, for either pattern. -/
def doubleRule (atof : Str → D) (pattern : Str → Bool) : LexRule UInt8 (LexAction D) where
  accepts := pattern
  action w := .ok (some (.doubleConstant (atof w)))

def stringRule : LexRule UInt8 (LexAction D) where
  accepts := isStringText
  action w := (literalText w).map fun s ↦ some (.stringLiteral s)

/-- A rule whose action returns no token. -/
def skipRule (pattern : Str → Bool) : LexRule UInt8 (LexAction D) where
  accepts := pattern
  action _ := .ok none

/-- The rules behind those of the keywords and operators. -/
def otherRules (atof : Str → D) : List (LexRule UInt8 (LexAction D)) := [
  identifierRule, intRule, doubleRule atof isDoubleText₁, doubleRule atof isDoubleText₂, stringRule,
  skipRule isComment, skipRule (· == [10]), skipRule isBlank, skipRule (· == [13]),
  skipRule isAnyChar]

/-- The rules of `MQL.lex`. -/
def lexRules (atof : Str → D) : List (LexRule UInt8 (LexAction D)) :=
  fixedTokens.map fixedRule ++ otherRules atof

/-- What the actions of the lexemes return. -/
def runLexemes : List (LexRule UInt8 (LexAction D) × Str) → Except ParseError (List (Token D))
  | [] => .ok []
  | (r, w) :: ls =>
    match r.action w with
    | .error e => .error e
    | .ok t? => (runLexemes ls).map fun ts ↦ t?.toList ++ ts

/-- The tokens of a program text. -/
def scan (atof : Str → D) (text : Str) : Except ParseError (List (Token D)) :=
  runLexemes (lexemes (lexRules atof) text.length text)

/-! ### What is accepted -/

/-- The keywords and operators. -/
def fixedTexts : List Str := (fixedTokens : List (Str × Token Unit)).map Prod.fst

theorem map_fst_fixedTokens : (fixedTokens : List (Str × Token D)).map Prod.fst = fixedTexts := rfl

theorem fixedTexts_nodup : fixedTexts.Nodup := by decide

/-- What no keyword and no operator has. -/
theorem fixedTexts_plain : ∀ w ∈ fixedTexts, w ≠ [] ∧ 32 ∉ w ∧ 34 ∉ w ∧ 0 ∉ w ∧ isIntText w = false ∧
    isDoubleText₁ w = false ∧ isDoubleText₂ w = false := by
  decide

theorem fixedTexts_take : ∀ w ∈ fixedTexts, w.take 2 ≠ [47, 47] := by decide

variable {atof : Str → D} {w x : Str} {r : LexRule UInt8 (LexAction D)} {t : Token D}

theorem mem_fixedTexts {e : Str × Token D} (h : e ∈ fixedTokens) : e.1 ∈ fixedTexts := by
  rw [← map_fst_fixedTokens (D := D)]
  exact List.mem_map_of_mem h

/-- A keyword or an operator is its own rule's. -/
theorem ruleOf_fixed {e : Str × Token D} (h : e ∈ fixedTokens) :
    ruleOf (lexRules atof) e.1 = some (fixedRule e) := by
  have hnodup : ((fixedTokens : List (Str × Token D)).map Prod.fst).Nodup :=
    map_fst_fixedTokens ▸ fixedTexts_nodup
  have hfind : ∀ es : List (Str × Token D), (es.map Prod.fst).Nodup → e ∈ es →
      (es.map fixedRule).find? (fun r ↦ r.accepts e.1) = some (fixedRule e) := by
    intro es hes he
    induction es with
    | nil => exact absurd he List.not_mem_nil
    | cons e' es ih =>
      rw [List.map_cons, List.nodup_cons] at hes
      rcases List.mem_cons.1 he with rfl | he
      · simp [fixedRule]
      · have hne : e.1 ≠ e'.1 := fun heq ↦ hes.1 (heq ▸ List.mem_map_of_mem he)
        rw [List.map_cons, List.find?_cons_of_neg (by simpa [fixedRule] using hne)]
        exact ih hes.2 he
  rw [ruleOf, lexRules, List.find?_append, hfind _ hnodup h]
  rfl

/-- Any other lexeme is one of the rules behind them. -/
theorem ruleOf_other (h : w ∉ fixedTexts) :
    ruleOf (lexRules atof) w = ruleOf (otherRules atof) w := by
  have hnone : ((fixedTokens : List (Str × Token D)).map fixedRule).find?
      (fun r ↦ r.accepts w) = none := by
    refine List.find?_eq_none.2 fun r hr hw ↦ ?_
    obtain ⟨e, he, rfl⟩ := List.mem_map.1 hr
    have heq : w = e.1 := by simpa [fixedRule] using hw
    exact h (heq ▸ mem_fixedTexts he)
  rw [ruleOf, lexRules, List.find?_append, hnone]
  rfl

/-- Every character is a lexeme. -/
theorem ruleOf_char (c : UInt8) : ruleOf (lexRules atof) [c] ≠ none := by
  intro h
  have hall := List.find?_eq_none.1 h
  by_cases hc : c = 10
  · have := hall (skipRule (· == [10])) (by simp [lexRules, otherRules])
    simp [skipRule, hc] at this
  · have := hall (skipRule isAnyChar) (by simp [lexRules, otherRules])
    simp [skipRule, isAnyChar, hc] at this

/-- The characters of names and numbers. -/
def isWordChar (c : UInt8) : Bool := isLetter c || isDigit c || c == 46

/-- No digit is a letter. -/
theorem isLetter_eq_false {c : UInt8} (h : isDigit c = true) : isLetter c = false := by
  grind [isDigit, isLetter]

theorem isFraction_eq_true (h : isFraction w = true) : ∃ ds, w = 46 :: ds ∧ ds.all isDigit = true := by
  unfold isFraction at h
  split at h
  · exact ⟨_, rfl, h⟩
  · cases h

/-- The text of a double. -/
def isDoubleText (w : Str) : Bool := isDoubleText₁ w || isDoubleText₂ w

theorem isFraction_of_isDoubleText (h : isDoubleText w = true) :
    isFraction (w.dropWhile isDigit) = true := by
  rcases (Bool.or_eq_true ..).mp h with h | h
  · exact ((Bool.and_eq_true ..).mp h).1
  · exact ((Bool.and_eq_true ..).mp h).1

theorem all_isWordChar_of_digits (h : w.all isDigit = true) : w.all isWordChar = true := by
  rw [List.all_eq_true] at h ⊢
  exact fun c hc ↦ by simp [isWordChar, h c hc]

theorem all_isWordChar_identifier (h : isIdentifierText w = true) : w.all isWordChar = true := by
  cases w with
  | nil => rfl
  | cons c w =>
    obtain ⟨hc, hw⟩ := (Bool.and_eq_true ..).mp h
    rw [List.all_eq_true] at hw ⊢
    rintro d hd
    rcases List.mem_cons.1 hd with rfl | hd
    · simp [isWordChar, hc]
    · rw [isWordChar, hw d hd]
      rfl

theorem all_isWordChar_double (h : isDoubleText w = true) : w.all isWordChar = true := by
  obtain ⟨ds, hdrop, hds⟩ := isFraction_eq_true (isFraction_of_isDoubleText h)
  rw [← List.takeWhile_append_dropWhile (p := isDigit) (l := w), hdrop, List.all_append,
    List.all_cons]
  have htake : (w.takeWhile isDigit).all isDigit = true := List.all_takeWhile
  rw [all_isWordChar_of_digits htake, all_isWordChar_of_digits hds]
  rfl

theorem not_mem_of_all (h : w.all isWordChar = true) {c : UInt8} (hc : isWordChar c = false) :
    c ∉ w := by
  intro hmem
  rw [List.all_eq_true.1 h c hmem] at hc
  cases hc

theorem isStringText_eq_true (h : isStringText w = true) : ∃ u, w = 34 :: u := by
  unfold isStringText at h
  split at h
  · exact ⟨_, rfl⟩
  · cases h

theorem isComment_eq_true (h : isComment w = true) : ∃ u, w = 47 :: 47 :: u := by
  unfold isComment at h
  split at h
  · exact ⟨_, rfl⟩
  · cases h

/-- A lexeme with a blank that is not the first character is a literal or a comment. -/
theorem ruleOf_blank (h : ruleOf (lexRules atof) w = some r) :
    w.length ≤ 1 ∨ 32 ∉ w ∨ (∃ u, w = 34 :: u) ∨ ∃ u, w = 47 :: 47 :: u := by
  by_cases hfixed : w ∈ fixedTexts
  · exact .inr (.inl (fixedTexts_plain w hfixed).2.1)
  rw [ruleOf_other hfixed] at h
  obtain ⟨hmem, haccepts⟩ := accepts_of_ruleOf h
  have hword : w.all isWordChar = true → 32 ∉ w := fun h ↦ not_mem_of_all h (by decide)
  simp only [otherRules, List.mem_cons, List.not_mem_nil, or_false] at hmem
  rcases hmem with rfl | rfl | rfl | rfl | rfl | rfl | rfl | rfl | rfl | rfl
  · exact .inr (.inl (hword (all_isWordChar_identifier haccepts)))
  · exact .inr (.inl (hword (all_isWordChar_of_digits ((Bool.and_eq_true ..).mp haccepts).2)))
  · exact .inr (.inl (hword (all_isWordChar_double ((Bool.or_eq_true ..).mpr (.inl haccepts)))))
  · exact .inr (.inl (hword (all_isWordChar_double ((Bool.or_eq_true ..).mpr (.inr haccepts)))))
  · exact .inr (.inr (.inl (isStringText_eq_true haccepts)))
  · exact .inr (.inr (.inr (isComment_eq_true haccepts)))
  · exact .inl (by simp_all [skipRule])
  · refine .inl ?_
    simp only [skipRule, isBlank, Bool.or_eq_true, beq_iff_eq] at haccepts
    rcases haccepts with ((rfl | rfl) | rfl) | rfl <;> exact Nat.le_refl _
  · exact .inl (by simp_all [skipRule])
  · refine .inl ?_
    have haccepts : isAnyChar w = true := haccepts
    unfold isAnyChar at haccepts
    split at haccepts
    · exact Nat.le_refl _
    · cases haccepts

/-! ### The lexemes of tokens -/

theorem not_mem_fixedTexts {c : UInt8} (h : c ∈ w) (hc : ∀ w ∈ fixedTexts, c ∉ w) :
    w ∉ fixedTexts := fun hw ↦ hc w hw h

theorem ruleOf_identifier (h : isIdentifierText w = true) (hw : w ∉ fixedTexts) :
    ruleOf (lexRules atof) w = some identifierRule := by
  rw [ruleOf_other hw]
  exact ruleOf_cons_of_pos h

theorem isIdentifierText_of_int (h : isIntText w = true) : isIdentifierText w = false := by
  cases w with
  | nil => cases h
  | cons c w =>
    have hall := ((Bool.and_eq_true ..).mp h).2
    rw [List.all_cons, Bool.and_eq_true] at hall
    rw [isIdentifierText, isLetter_eq_false hall.1, Bool.false_and]

theorem ruleOf_int (h : isIntText w = true) : ruleOf (lexRules atof) w = some intRule := by
  have hw : w ∉ fixedTexts := fun hw ↦ by
    rw [(fixedTexts_plain w hw).2.2.2.2.1] at h
    cases h
  rw [ruleOf_other hw]
  exact (ruleOf_cons_of_neg (isIdentifierText_of_int h)).trans (ruleOf_cons_of_pos h)

theorem isIdentifierText_of_double (h : isDoubleText w = true) : isIdentifierText w = false := by
  obtain ⟨ds, hdrop, -⟩ := isFraction_eq_true (isFraction_of_isDoubleText h)
  cases w with
  | nil => rfl
  | cons c w =>
    rw [isIdentifierText]
    by_cases hc : isDigit c = true
    · rw [isLetter_eq_false hc, Bool.false_and]
    · rw [List.dropWhile_cons_of_neg hc] at hdrop
      obtain ⟨rfl, -⟩ := List.cons.inj hdrop
      rfl

theorem isIntText_of_double (h : isDoubleText w = true) : isIntText w = false := by
  obtain ⟨ds, hdrop, -⟩ := isFraction_eq_true (isFraction_of_isDoubleText h)
  refine Bool.eq_false_iff.2 fun hint ↦ ?_
  have hall := ((Bool.and_eq_true ..).mp hint).2
  have hdot : (46 : UInt8) ∈ w := (List.dropWhile_sublist isDigit).subset (by rw [hdrop]; simp)
  exact absurd (List.all_eq_true.1 hall 46 hdot) (by decide)

theorem ruleOf_double (h : isDoubleText w = true) :
    ∃ pattern, ruleOf (lexRules atof) w = some (doubleRule atof pattern) := by
  have hw : w ∉ fixedTexts := fun hw ↦ by
    obtain ⟨-, -, -, -, -, h₁, h₂⟩ := fixedTexts_plain w hw
    rw [isDoubleText, h₁, h₂] at h
    cases h
  rw [ruleOf_other hw, otherRules, ruleOf_cons_of_neg (isIdentifierText_of_double h),
    ruleOf_cons_of_neg (isIntText_of_double h)]
  by_cases h₁ : isDoubleText₁ w = true
  · exact ⟨_, ruleOf_cons_of_pos h₁⟩
  · refine ⟨_, (ruleOf_cons_of_neg (Bool.eq_false_iff.2 h₁)).trans (ruleOf_cons_of_pos ?_)⟩
    exact ((Bool.or_eq_true ..).mp h).resolve_left h₁

theorem ruleOf_quote (h : ruleOf (lexRules atof) (34 :: w) = some r) (hne : w ≠ []) :
    isStringRest w = true := by
  rw [ruleOf_other (not_mem_fixedTexts List.mem_cons_self
    fun w hw ↦ (fixedTexts_plain w hw).2.2.1)] at h
  obtain ⟨hmem, haccepts⟩ := accepts_of_ruleOf h
  simp only [otherRules, List.mem_cons, List.not_mem_nil, or_false] at hmem
  rcases hmem with rfl | rfl | rfl | rfl | rfl | rfl | rfl | rfl | rfl | rfl
  · cases haccepts
  · cases haccepts
  · cases haccepts
  · cases haccepts
  · exact haccepts
  · cases haccepts
  · cases haccepts
  · cases haccepts
  · cases haccepts
  · cases w with
    | nil => exact absurd rfl hne
    | cons c w => cases haccepts

theorem ruleOf_string (h : isStringRest w = true) :
    ruleOf (lexRules atof) (34 :: w) = some stringRule := by
  rw [ruleOf_other (not_mem_fixedTexts List.mem_cons_self
    fun w hw ↦ (fixedTexts_plain w hw).2.2.1), otherRules, ruleOf_cons_of_neg rfl,
    ruleOf_cons_of_neg rfl, ruleOf_cons_of_neg rfl, ruleOf_cons_of_neg rfl, ruleOf_cons_of_pos h]

theorem isStringRest_cons {c : UInt8} (h : c ≠ 34) (h' : c ≠ 92) :
    isStringRest (c :: w) = isStringRest w := by
  rw [isStringRest]
  · simp [h, h']
  · exact fun hc _ ↦ h hc
  · exact fun _ _ hc _ ↦ h' hc

/-- Nothing goes on behind the second quote. -/
theorem isStringRest_append (h : isStringRest w = true) (h' : isStringRest (w ++ x) = true) :
    x = [] := by
  fun_induction isStringRest w with
  | case1 => cases h
  | case2 =>
    cases x with
    | nil => rfl
    | cons c x => cases h'
  | case3 c w ih =>
    obtain ⟨hc, h⟩ := (Bool.and_eq_true ..).mp h
    exact ih h ((Bool.and_eq_true ..).mp h').2
  | case4 c w h₁ h₂ ih =>
    simp only [Bool.and_eq_true, bne_iff_ne] at h
    rw [List.cons_append, isStringRest_cons h.1.1 h.1.2] at h'
    exact ih h.2 h'

/-! ### Spelling -/

/-- A way to write the token. -/
inductive Spells (atof : Str → D) : Token D → Str → Prop
  | fixed {t : Token D} {w : Str} (h : (w, t) ∈ fixedTokens) : Spells atof t w
  | identifier {w : Str} (h : isIdentifierText w = true) (hw : w ∉ fixedTexts) :
      Spells atof (.identifier w) w
  | int {w : Str} (h : isIntText w = true) : Spells atof (.intConstant (atoi w)) w
  | double {w : Str} (h : isDoubleText w = true) : Spells atof (.doubleConstant (atof w)) w
  | string {s : Str} (h : isStringRest (s ++ [34]) = true) (h0 : 0 ∉ s) :
      Spells atof (.stringLiteral s) (34 :: (s ++ [34]))

theorem literalText_quoted {s : Str} (h0 : 0 ∉ s) :
    literalText (34 :: (s ++ [34])) = .ok s := by
  have htake : (s ++ [34]).takeWhile (· != 0) = s ++ [34] := by
    refine List.takeWhile_eq_self_iff.2 fun c hc ↦ ?_
    rcases List.mem_append.1 hc with hc | hc
    · simpa using fun h : c = 0 ↦ h0 (h ▸ hc)
    · rw [List.mem_singleton.1 hc]
      rfl
  rw [literalText, List.tail_cons, htake]
  cases s with
  | nil => rfl
  | cons c s =>
    show Except.ok ((c :: s) ++ [34]).dropLast = _
    rw [List.dropLast_concat]

theorem Spells.ne_nil (h : Spells atof t w) : w ≠ [] := by
  cases h with
  | fixed h => exact (fixedTexts_plain _ (mem_fixedTexts h)).1
  | identifier h => exact fun hw ↦ by rw [hw] at h; cases h
  | int h => exact fun hw ↦ by rw [hw] at h; cases h
  | double h => exact fun hw ↦ by rw [hw] at h; cases h
  | string => exact List.cons_ne_nil _ _

/-- The rule of a token that is written so. -/
theorem Spells.exists_rule (h : Spells atof t w) :
    ∃ r, ruleOf (lexRules atof) w = some r ∧ r.action w = .ok (some t) := by
  cases h with
  | fixed h => exact ⟨_, ruleOf_fixed h, rfl⟩
  | identifier h hw => exact ⟨_, ruleOf_identifier h hw, rfl⟩
  | int h => exact ⟨_, ruleOf_int h, rfl⟩
  | double h =>
    obtain ⟨pattern, hr⟩ : ∃ p, ruleOf (lexRules atof) w = some (doubleRule atof p) :=
      ruleOf_double h
    exact ⟨_, hr, rfl⟩
  | string h h0 =>
    refine ⟨_, ruleOf_string h, ?_⟩
    show (literalText _).map _ = _
    rw [literalText_quoted h0]
    rfl

/-- What is behind a token: nothing, or a blank. -/
def Separated (rest : Str) : Prop := ∀ c ∈ rest.head?, c = 32

/-- The first rule for a longer lexeme, which begins with a token that is no literal. -/
theorem ruleOf_append_blank (hne : w ≠ []) (hquote : 34 ∉ w) (hslash : w.take 2 ≠ [47, 47]) :
    ruleOf (lexRules atof) (w ++ 32 :: x) = none := by
  refine Option.eq_none_iff_forall_ne_some.2 fun r hr ↦ ?_
  rcases ruleOf_blank hr with hlen | hblank | ⟨u, hu⟩ | ⟨u, hu⟩
  · have := List.length_pos_iff.2 hne
    rw [List.length_append, List.length_cons] at hlen
    omega
  · exact hblank (by simp)
  · cases w with
    | nil => exact hne rfl
    | cons c w => exact hquote (by rw [(List.cons.inj hu).1]; exact List.mem_cons_self)
  · rcases w with - | ⟨c, - | ⟨d, w⟩⟩
    · exact hne rfl
    · exact absurd (List.cons.inj (List.cons.inj hu).2).1 (by decide)
    · obtain ⟨hc, hu⟩ := List.cons.inj hu
      obtain ⟨hd, -⟩ := List.cons.inj hu
      exact hslash (by rw [hc, hd]; rfl)

/-- A token that is written in front of a blank is read whole. -/
theorem Spells.munches {rest : Str} (h : Spells atof t w) (hrest : Separated rest) :
    ∃ r, Munches (lexRules atof) r w rest ∧ r.action w = .ok (some t) := by
  obtain ⟨r, hr, haction⟩ := h.exists_rule
  refine ⟨r, ⟨h.ne_nil, hr, ?_⟩, haction⟩
  rintro x y hx rfl
  obtain ⟨c, x, rfl⟩ := List.exists_cons_of_ne_nil hx
  obtain rfl : c = 32 := hrest c rfl
  have hword : w.all isWordChar = true → ruleOf (lexRules atof) (w ++ 32 :: x) = none := by
    intro hw
    refine ruleOf_append_blank h.ne_nil (not_mem_of_all hw (by decide)) fun htake ↦ ?_
    have hslash : (47 : UInt8) ∈ w := (List.take_sublist 2 w).subset (by rw [htake]; simp)
    exact not_mem_of_all hw (by decide) hslash
  cases h with
  | fixed h =>
    have hw := mem_fixedTexts h
    exact ruleOf_append_blank (fixedTexts_plain w hw).1 (fixedTexts_plain w hw).2.2.1
      (fixedTexts_take w hw)
  | identifier h => exact hword (all_isWordChar_identifier h)
  | int h => exact hword (all_isWordChar_of_digits ((Bool.and_eq_true ..).mp h).2)
  | double h => exact hword (all_isWordChar_double h)
  | string h =>
    refine Option.eq_none_iff_forall_ne_some.2 fun r' hr' ↦ ?_
    have hrest := ruleOf_quote hr' (by simp)
    exact absurd (isStringRest_append h hrest) (List.cons_ne_nil _ _)

/-- A blank is a lexeme of its own. -/
theorem munches_blank (rest : Str) : Munches (lexRules atof) (skipRule isBlank) [32] rest := by
  refine ⟨List.cons_ne_nil _ _, ?_, fun x y hx _ ↦ Option.eq_none_iff_forall_ne_some.2 fun r hr ↦ ?_⟩
  · rw [ruleOf_other (by decide)]
    rfl
  · rcases ruleOf_blank hr with hlen | hblank | ⟨u, hu⟩ | ⟨u, hu⟩
    · have := List.length_pos_iff.2 hx
      rw [List.length_append] at hlen
      simp only [List.length_cons, List.length_nil] at hlen
      omega
    · exact hblank (by simp)
    · exact absurd (List.cons.inj hu).1 (by decide)
    · exact absurd (List.cons.inj hu).1 (by decide)

/-- The texts with a blank behind each of them. -/
def spaced (ws : List Str) : Str := ws.flatMap fun w ↦ w ++ [32]

theorem runLexemes_cons {ls : List (LexRule UInt8 (LexAction D) × Str)} {o : Option (Token D)}
    (h : r.action w = .ok o) :
    runLexemes ((r, w) :: ls) = (runLexemes ls).map fun ts ↦ o.toList ++ ts := by
  rw [runLexemes, h]

theorem lexed_spaced {ts : List (Token D)} {ws : List Str} (h : List.Forall₂ (Spells atof) ts ws) :
    ∃ ls, Lexed (lexRules atof) (spaced ws) ls ∧ runLexemes ls = .ok ts := by
  induction h with
  | nil => exact ⟨[], .nil, rfl⟩
  | @cons t w ts ws h _ ih =>
    obtain ⟨ls, hls, hrun⟩ := ih
    have hrest : Separated (32 :: spaced ws) := fun c hc ↦ (Option.some.inj hc).symm
    obtain ⟨r, hr, haction⟩ := h.munches hrest
    refine ⟨(r, w) :: (skipRule isBlank, [32]) :: ls, ?_, ?_⟩
    · have hlexed := Lexed.cons hr (.cons (munches_blank (spaced ws)) hls)
      rw [spaced, List.flatMap_cons, List.append_assoc]
      exact hlexed
    · rw [runLexemes_cons haction, runLexemes_cons (o := none) rfl, hrun]
      rfl

/-- **Tokens that are written with blanks between them are read again.** -/
theorem scan_spaced {ts : List (Token D)} {ws : List Str} (h : List.Forall₂ (Spells atof) ts ws) :
    scan atof (spaced ws) = .ok ts := by
  obtain ⟨ls, hls, hrun⟩ := lexed_spaced h
  rw [scan, lexemes_eq ruleOf_char hls, hrun]

/-! ### What the scanner returns -/

variable {text : Str} {ts : List (Token D)} {ls : List (LexRule UInt8 (LexAction D) × Str)}

theorem isStringRest_eq_true (h : isStringRest w = true) : ∃ s, w = s ++ [34] := by
  fun_induction isStringRest w with
  | case1 => cases h
  | case2 => exact ⟨[], rfl⟩
  | case3 c w ih =>
    obtain ⟨s, rfl⟩ := ih ((Bool.and_eq_true ..).mp h).2
    exact ⟨92 :: c :: s, rfl⟩
  | case4 c w h₁ h₂ ih =>
    obtain ⟨s, rfl⟩ := ih ((Bool.and_eq_true ..).mp h).2
    exact ⟨c :: s, rfl⟩

/-- A lexeme without NUL is skipped, or is a way to write its token. -/
theorem spells_of_ruleOf (hr : ruleOf (lexRules atof) w = some r) (h0 : 0 ∉ w) :
    r.action w = .ok none ∨ ∃ t, r.action w = .ok (some t) ∧ Spells atof t w := by
  by_cases hfixed : w ∈ fixedTexts
  · rw [← map_fst_fixedTokens (D := D)] at hfixed
    obtain ⟨e, he, rfl⟩ := List.mem_map.1 hfixed
    obtain rfl := Option.some.inj (hr.symm.trans (ruleOf_fixed he))
    exact .inr ⟨e.2, rfl, .fixed he⟩
  rw [ruleOf_other hfixed] at hr
  obtain ⟨hmem, haccepts⟩ := accepts_of_ruleOf hr
  simp only [otherRules, List.mem_cons, List.not_mem_nil, or_false] at hmem
  rcases hmem with rfl | rfl | rfl | rfl | rfl | rfl | rfl | rfl | rfl | rfl
  · exact .inr ⟨_, rfl, .identifier haccepts hfixed⟩
  · exact .inr ⟨_, rfl, .int haccepts⟩
  · exact .inr ⟨_, rfl, .double ((Bool.or_eq_true ..).mpr (.inl haccepts))⟩
  · exact .inr ⟨_, rfl, .double ((Bool.or_eq_true ..).mpr (.inr haccepts))⟩
  · obtain ⟨u, rfl⟩ := isStringText_eq_true haccepts
    obtain ⟨s, rfl⟩ := isStringRest_eq_true haccepts
    have h0 : 0 ∉ s := fun h ↦ h0 (by simp [h])
    refine .inr ⟨.stringLiteral s, ?_, .string haccepts h0⟩
    show (literalText _).map _ = _
    rw [literalText_quoted h0]
    rfl
  · exact .inl rfl
  · exact .inl rfl
  · exact .inl rfl
  · exact .inl rfl
  · exact .inl rfl

/-- A text without NUL is scanned to its end. Its tokens are written as it writes them. -/
theorem lexed_spells (h : Lexed (lexRules atof) text ls) (h0 : 0 ∉ text) :
    ∃ ts ws, runLexemes ls = .ok ts ∧ List.Forall₂ (Spells atof) ts ws ∧
      ws.Sublist (ls.map Prod.snd) := by
  induction h with
  | nil => exact ⟨[], [], rfl, .nil, .slnil⟩
  | @cons r w rest ls h _ ih =>
    obtain ⟨ts, ws, hrun, hspells, hsub⟩ := ih fun hmem ↦ h0 (List.mem_append_right _ hmem)
    rcases spells_of_ruleOf h.rule fun hmem ↦ h0 (List.mem_append_left _ hmem) with
      haction | ⟨t, haction, ht⟩
    · exact ⟨ts, ws, by rw [runLexemes_cons haction, hrun]; rfl, hspells, hsub.cons _⟩
    · exact ⟨t :: ts, w :: ws, by rw [runLexemes_cons haction, hrun]; rfl, .cons ht hspells,
        hsub.cons_cons _⟩

/-- **Layout and comments mean nothing.** A program without NUL bytes is scanned to its end, and its own
lexemes with one blank between them are the same tokens. -/
theorem scan_layout (atof : Str → D) (text : Str) (h0 : 0 ∉ text) :
    ∃ ts ws, scan atof text = .ok ts ∧ List.Forall₂ (Spells atof) ts ws ∧
      ws.Sublist ((lexemes (lexRules atof) text.length text).map Prod.snd) ∧
      scan atof (spaced ws) = .ok ts := by
  have hlexed : Lexed (lexRules atof) text (lexemes (lexRules atof) text.length text) :=
    lexed_lexemes ruleOf_char (Nat.le_refl _)
  obtain ⟨ts, ws, hrun, hspells, hsub⟩ := lexed_spells hlexed h0
  exact ⟨ts, ws, hrun, hspells, hsub, scan_spaced hspells⟩

theorem runLexemes_cons_eq_ok (h : runLexemes ((r, w) :: ls) = .ok ts) :
    ∃ t? ts', r.action w = .ok t? ∧ runLexemes ls = .ok ts' ∧ ts = t?.toList ++ ts' := by
  cases haction : r.action w with
  | error e =>
    rw [runLexemes, haction] at h
    cases h
  | ok t? =>
    rw [runLexemes_cons haction] at h
    cases hrun : runLexemes ls with
    | error e =>
      rw [hrun] at h
      cases h
    | ok ts' =>
      rw [hrun] at h
      exact ⟨t?, ts', rfl, rfl, (Except.ok.inj h).symm⟩

/-- `a//b` and a line break, then `c`. -/
theorem scan_layout_comment : ∃ ts ws, scan (fun _ ↦ 0) [97, 47, 47, 98, 10, 99] = .ok ts ∧
    List.Forall₂ (Spells fun _ ↦ (0 : ℕ)) ts ws ∧
      ws.Sublist ((lexemes (lexRules fun _ ↦ (0 : ℕ)) 6 [97, 47, 47, 98, 10, 99]).map Prod.snd) ∧
      scan (fun _ ↦ 0) (spaced ws) = .ok ts :=
  scan_layout (fun _ ↦ 0) [97, 47, 47, 98, 10, 99] (by decide)

/-- Where a token comes from. -/
theorem mem_runLexemes (h : runLexemes ls = .ok ts) (ht : t ∈ ts) :
    ∃ l ∈ ls, l.1.action l.2 = .ok (some t) := by
  induction ls generalizing ts with
  | nil =>
    cases h
    exact absurd ht List.not_mem_nil
  | cons l ls ih =>
    obtain ⟨t?, ts', haction, hrun, rfl⟩ := runLexemes_cons_eq_ok h
    rcases List.mem_append.1 ht with ht | ht
    · refine ⟨l, List.mem_cons_self, ?_⟩
      rw [haction, Option.mem_toList.1 ht]
    · obtain ⟨l, hl, haction⟩ := ih hrun ht
      exact ⟨l, List.mem_cons_of_mem _ hl, haction⟩

theorem length_runLexemes (h : runLexemes ls = .ok ts) : ts.length ≤ ls.length := by
  induction ls generalizing ts with
  | nil =>
    cases h
    exact Nat.le_refl _
  | cons l ls ih =>
    obtain ⟨t?, ts', -, hrun, rfl⟩ := runLexemes_cons_eq_ok h
    have hle := ih hrun
    have htoken : t?.toList.length ≤ 1 := by cases t? <;> simp
    rw [List.length_append, List.length_cons]
    omega

theorem ruleOf_of_lexed (h : Lexed (lexRules atof) text ls) :
    ∀ l ∈ ls, ruleOf (lexRules atof) l.2 = some l.1 := by
  induction h with
  | nil => exact fun l hl ↦ absurd hl List.not_mem_nil
  | cons h _ ih =>
    rintro l hl
    rcases List.mem_cons.1 hl with rfl | hl
    · exact h.rule
    · exact ih l hl

/-- There are at most as many tokens as bytes. -/
theorem length_scan (h : scan atof text = .ok ts) : ts.length ≤ text.length :=
  (length_runLexemes h).trans (lexed_lexemes ruleOf_char (Nat.le_refl _)).length_le

theorem fixedTokens_not_identifier (name : Str) :
    ∀ e ∈ (fixedTokens : List (Str × Token D)), e.2 ≠ .identifier name := by
  simp [fixedTokens]

/-- The one rule that returns identifiers. -/
theorem identifier_of_ruleOf {name : Str} (hr : ruleOf (lexRules atof) w = some r)
    (haction : r.action w = .ok (some (.identifier name))) :
    isIdentifierText name = true ∧ name ∉ fixedTexts := by
  by_cases hfixed : w ∈ fixedTexts
  · rw [← map_fst_fixedTokens (D := D)] at hfixed
    obtain ⟨e, he, rfl⟩ := List.mem_map.1 hfixed
    obtain rfl := Option.some.inj (hr.symm.trans (ruleOf_fixed he))
    exact absurd (Option.some.inj (Except.ok.inj haction)) (fixedTokens_not_identifier name e he)
  rw [ruleOf_other hfixed] at hr
  obtain ⟨hmem, haccepts⟩ := accepts_of_ruleOf hr
  simp only [otherRules, List.mem_cons, List.not_mem_nil, or_false] at hmem
  rcases hmem with rfl | rfl | rfl | rfl | rfl | rfl | rfl | rfl | rfl | rfl
  · obtain rfl : w = name := by
      have haction : Except.ok (some (.identifier w)) = (.ok (some (.identifier name)) : LexAction D) :=
        haction
      simpa using haction
    exact ⟨haccepts, hfixed⟩
  · cases haction
  · cases haction
  · cases haction
  · have haction : (literalText w).map (fun s ↦ some (.stringLiteral s)) =
        (.ok (some (.identifier name)) : LexAction D) := haction
    cases hs : literalText w with
    | error e =>
      rw [hs] at haction
      cases haction
    | ok s =>
      rw [hs] at haction
      cases haction
  · cases haction
  · cases haction
  · cases haction
  · cases haction
  · cases haction

/-- The names of a program are identifiers and no keywords, whatever the text is. -/
theorem identifier_of_scan (h : scan atof text = .ok ts) {name : Str}
    (hname : .identifier name ∈ ts) : isIdentifierText name = true ∧ name ∉ fixedTexts := by
  obtain ⟨l, hl, haction⟩ := mem_runLexemes h hname
  exact identifier_of_ruleOf (ruleOf_of_lexed (lexed_lexemes ruleOf_char (Nat.le_refl _)) l hl) haction

end Meridian.MQL

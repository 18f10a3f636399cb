import Meridian.Lib.Phrase
import Meridian.MQL.Grammar

/-!
# Deciding the grammar: expressions

A recursive descent parser for the expressions of `MQL.ypp`. It is a specification of its own: the
parser that the program uses is generated from the grammar. A phrase is read as the shortest form that
its first tokens allow, and then extended by the productions that are left recursive, for as long as
the next token asks for it.

`parseExpr_takes` is soundness: what is returned is a parse tree of the tokens that are taken.
`ExprTree.reads` is completeness: in front of a token that does not go on with it, every parse tree is
found. The left side of an assignment is an operand that turns out to be a `postfix_expression`.
-/

namespace Meridian.MQL

open Lib

/-- A reader of tokens. -/
abbrev Parse (D : Type) : Type → Type := Reader (Token D) ParseError

variable {D : Type}

/-- The token is this one. -/
def isMark (m : Mark) : Token D → Bool
  | .mark m' => m' == m
  | _ => false

/-- The next token has to be this one. -/
def expect (m : Mark) : Parse D Unit :=
  token .syntaxError fun t ↦ if isMark m t then some () else none

/-- The next token has to be an `IDENTIFIER`. -/
def identifier : Parse D Str :=
  token .syntaxError fun t ↦
    match t with
    | .identifier name => some name
    | _ => none

/-! ### The next token -/

/-- The place of a level in their order. -/
def BinLevel.rank : BinLevel → ℕ
  | multiplicative => 0
  | additive => 1
  | shift => 2
  | relational => 3
  | equality => 4
  | and => 5
  | exclusiveOr => 6
  | inclusiveOr => 7
  | logicalAnd => 8
  | logicalOr => 9

/-- The left recursive productions of the nonterminal go on with this token. -/
def ExprNT.extendedBy : ExprNT → Token D → Bool
  | .expr .postfixExpression, .mark .dot => true
  | .expr .postfixExpression, .mark .lbracket => true
  | .expr (.binary l), .op op => op.level == l
  | .expressionSep, .mark .comma => true
  | _, _ => false

/-- A phrase of a postfix expression goes on with this token. -/
def suffixes : Token D → Bool
  | .mark .dot | .mark .lbracket | .mark .lparen => true
  | _ => false

/-- A phrase of the class goes on with this token. -/
def ExprClass.continuedBy : ExprClass → Token D → Bool
  | .primaryExpression, _ => false
  | .postfixExpression, t => suffixes t
  | .unaryExpression, t => suffixes t
  | .binary l, .op op => op.level.rank ≤ l.rank
  | .binary _, t => suffixes t
  | .assignExpression, .op _ => true
  | .assignExpression, .mark .assign => true
  | .assignExpression, t => suffixes t

/-- A phrase of the nonterminal goes on with this token. -/
def ExprNT.continuedBy : ExprNT → Token D → Bool
  | .expr c, t => c.continuedBy t
  | .expressionSep, .mark .comma => true
  | .expressionSep, t => ExprClass.assignExpression.continuedBy t

/-! ### Expressions -/

/-- The postfix expression that the tree consists of. -/
def ExprTree.asPostfix? {nt : ExprNT} : ExprTree D nt → Option (ExprTree D (.expr .postfixExpression))
  | .operand _ e => e.asPostfix?
  | .bare e => some e
  | _ => none

section Expr

variable (self : ∀ nt : ExprNT, Parse D (ExprTree D nt))

/-- `'(' expression ')'` -/
def parenthesized : Parse D (Expression D) := do
  expect .lparen
  let e ← self (.expr .assignExpression)
  expect .rparen
  return e

/-- A `primary_expression`. -/
def primaryBase : Parse D (ExprTree D (.expr .primaryExpression)) := do
  match ← get with
  | .identifier name :: ts => set ts; return .identifier name
  | .intConstant i :: ts => set ts; return .intConstant i
  | .doubleConstant d :: ts => set ts; return .doubleConstant d
  | .stringLiteral s :: ts => set ts; return .stringLiteral s
  | _ => return .paren (← parenthesized self)

/-- The rest of a call, behind its opening parenthesis. -/
def callRest (name : Str) : Parse D (ExprTree D (.expr .postfixExpression)) := do
  if nextIs (isMark .rparen) (← get) then
    expect .rparen
    return .callEmpty name
  else
    let param ← self .expressionSep
    expect .rparen
    return .call name param

/-- The rest of an `RPC`, behind its keyword. -/
def rpcRest : Parse D (ExprTree D (.expr .postfixExpression)) := do
  expect .lparen
  let dest ← self (.expr .assignExpression)
  expect .comma
  let name ← identifier
  if nextIs (isMark .rparen) (← get) then
    expect .rparen
    return .rpcEmpty dest name
  else
    expect .comma
    let param ← self .expressionSep
    expect .rparen
    return .rpc dest name param

/-- The rest of a native function with two parameters. -/
def native2Rest (f : NativeFunc2) : Parse D (ExprTree D (.expr .postfixExpression)) := do
  expect .lparen
  let e₁ ← self (.expr .assignExpression)
  expect .comma
  let e₂ ← self (.expr .assignExpression)
  expect .rparen
  return .native2 f e₁ e₂

/-- The rest of a `GET_DISTANCE`. -/
def distanceRest (kind : DistanceKind) : Parse D (ExprTree D (.expr .postfixExpression)) := do
  expect .lparen
  let e₁ ← self (.expr .assignExpression)
  expect .comma
  let e₂ ← self (.expr .assignExpression)
  if nextIs (isMark .rparen) (← get) then
    expect .rparen
    return .getDistance kind e₁ e₂
  else
    expect .comma
    let e₃ ← self (.expr .assignExpression)
    expect .rparen
    return .getDistanceFrom kind e₁ e₂ e₃

/-- A `postfix_expression` that is not left recursive. -/
def postfixBase : Parse D (ExprTree D (.expr .postfixExpression)) := do
  match ← get with
  | .identifier name :: .mark .lparen :: ts => set ts; callRest self name
  | .mark .print :: ts => set ts; return .print (← parenthesized self)
  | .mark .println :: ts => set ts; return .println (← parenthesized self)
  | .mark .rpc :: ts => set ts; rpcRest self
  | .native1 f :: ts => set ts; return .native1 f (← parenthesized self)
  | .native2 f :: ts => set ts; native2Rest self f
  | .mark .getSelf :: .mark .lparen :: .mark .rparen :: ts => set ts; return .getSelf
  | .getDistance kind :: ts => set ts; distanceRest self kind
  | _ => return .primary (← self (.expr .primaryExpression))

/-- A `unary_expression`. -/
def unaryBase : Parse D (ExprTree D (.expr .unaryExpression)) := do
  match ← get with
  | .op .add :: ts => set ts; return .plus (← self (.expr .postfixExpression))
  | .op .sub :: ts => set ts; return .unary .minus (← self (.expr .postfixExpression))
  | .mark .not :: ts => set ts; return .unary .not (← self (.expr .postfixExpression))
  | _ => return .bare (← self (.expr .postfixExpression))

/-- An `assign_expression`. What stands before the `=` has been read as an operand. -/
def assignBase : Parse D (Expression D) := do
  let e ← self (.expr (.binary .logicalOr))
  if nextIs (isMark .assign) (← get) then
    match e.asPostfix? with
    | some left =>
      expect .assign
      return .assign left (← self (.expr .assignExpression))
    | none => throw .syntaxError
  else return .logicalOr e

/-- A phrase without the left recursive productions of its own nonterminal. -/
def exprBase : ∀ nt : ExprNT, Parse D (ExprTree D nt)
  | .expr .primaryExpression => primaryBase self
  | .expr .postfixExpression => postfixBase self
  | .expr .unaryExpression => unaryBase self
  | .expr (.binary l) => do return .operand l (← self (.expr l.operand))
  | .expr .assignExpression => assignBase self
  | .expressionSep => do return .first (← self (.expr .assignExpression))

/-- The access to an array or a struct. -/
def postfixMore (e : ExprTree D (.expr .postfixExpression)) :
    Parse D (ExprTree D (.expr .postfixExpression)) := do
  match ← get with
  | .mark .dot :: ts => set ts; return .dot e (← identifier)
  | _ =>
    expect .lbracket
    let i ← self (.expr .assignExpression)
    expect .rbracket
    return .access e i

/-- The next operator of the level. -/
def binMore (l : BinLevel) (e : ExprTree D (.expr (.binary l))) :
    Parse D (ExprTree D (.expr (.binary l))) := do
  match ← get with
  | .op op :: ts =>
    if h : op.level = l then
      set ts
      return .bin l op h e (← self (.expr l.rightOperand))
    else throw .syntaxError
  | _ => throw .syntaxError

/-- One use of a left recursive production. -/
def exprMore : ∀ nt : ExprNT, ExprTree D nt → Parse D (ExprTree D nt)
  | .expr .postfixExpression, e => postfixMore self e
  | .expr (.binary l), e => binMore self l e
  | .expressionSep, es => do
    expect .comma
    return .next es (← self (.expr .assignExpression))
  | .expr .primaryExpression, e => pure e
  | .expr .unaryExpression, e => pure e
  | .expr .assignExpression, e => pure e

end Expr

/-- A phrase of the nonterminal, if it is nested at most so deep. -/
def parseExpr : ℕ → ∀ nt : ExprNT, Parse D (ExprTree D nt)
  | 0, _ => throw .syntaxError
  | n + 1, nt => do
    let e ← exprBase (parseExpr n) nt
    iterate .syntaxError nt.extendedBy (exprMore (parseExpr n) nt) n e

/-! ### Heights -/

/-- What extends a phrase goes on with it. -/
theorem ExprNT.continuedBy_of_extendedBy {nt : ExprNT} {t : Token D} (h : nt.extendedBy t = true) :
    nt.continuedBy t = true := by
  rcases nt with c | _
  · cases c with
    | postfixExpression =>
      cases t with
      | mark m => cases m <;> first | rfl | cases h
      | _ => cases h
    | binary l =>
      cases t with
      | op op =>
        have h : (op.level == l) = true := h
        have hle : op.level.rank ≤ l.rank := le_of_eq (congrArg _ (beq_iff_eq.1 h))
        exact decide_eq_true hle
      | mark m => cases m <;> cases h
      | _ => cases h
    | _ =>
      cases t with
      | mark m => cases m <;> cases h
      | _ => cases h
  · cases t with
    | mark m => cases m <;> first | rfl | cases h
    | _ => cases h

namespace ExprTree

/-- How many levels of the parser the tree takes. The left side of an assignment is read as an
operand. -/
def height {nt : ExprNT} : ExprTree D nt → ℕ
  | identifier _ | intConstant _ | doubleConstant _ | stringLiteral _ | callEmpty _ | getSelf => 1
  | paren e | primary e | dot e _ | print e | println e | call _ e | rpcEmpty e _ | native1 _ e
  | bare e | plus e | unary _ e | operand _ e | logicalOr e | first e => e.height + 1
  | access e₁ e₂ | rpc e₁ _ e₂ | native2 _ e₁ e₂ | getDistance _ e₁ e₂ | bin _ _ _ e₁ e₂
  | next e₁ e₂ => max e₁.height e₂.height + 1
  | getDistanceFrom _ e₁ e₂ e₃ => max e₁.height (max e₂.height e₃.height) + 1
  | assign left right => max (left.height + 11) right.height + 1

/-- How often the loop has to extend the phrase. -/
def spine {nt : ExprNT} : ExprTree D nt → ℕ
  | dot e _ => e.spine + 1
  | access e _ => e.spine + 1
  | bin _ _ _ left _ => left.spine + 1
  | next es _ => es.spine + 1
  | _ => 0

/-- The parser has a level left for each time that the phrase is extended. -/
theorem spine_lt_height {nt : ExprNT} (e : ExprTree D nt) : e.spine < e.height := by
  induction e <;> simp only [spine, height] <;> omega

end ExprTree

/-- The nonterminal as a phrase. -/
def ExprNT.phrase (nt : ExprNT) : Phrase (Token D) ParseError (ExprTree D nt) where
  error := .syntaxError
  base n := exprBase (parseExpr n) nt
  more n := exprMore (parseExpr n) nt
  continuedBy := nt.continuedBy
  extendedBy := nt.extendedBy
  print := ExprTree.tokens
  height := ExprTree.height
  spine := ExprTree.spine
  continuedBy_of_extendedBy _ := continuedBy_of_extendedBy
  spine_lt_height := ExprTree.spine_lt_height

/-- `parseExpr` is the parser of the phrase. -/
theorem ExprNT.parse_phrase (nt : ExprNT) (n : ℕ) :
    (nt.phrase : Phrase (Token D) _ _).parse n = parseExpr n nt := by
  cases n <;> rfl

/-! ### Soundness -/


/-- It takes this one token. -/
theorem expect_takes (m : Mark) : Takes (expect m : Parse D Unit) fun _ ↦ [.mark m] := by
  refine takes_token fun t _ h ↦ ?_
  cases t with
  | mark m' =>
    simp only [isMark, beq_iff_eq] at h
    split at h
    · next heq => rw [heq]
    · cases h
  | _ => simp [isMark] at h

/-- It takes the token with the name. -/
theorem identifier_takes : Takes (identifier : Parse D Str) fun name ↦ [.identifier name] := by
  refine takes_token fun t name h ↦ ?_
  cases t <;> simp_all

/-- The operands on the way down to a `postfix_expression` add no token. -/
theorem ExprTree.tokens_asPostfix? {nt : ExprNT} {e : ExprTree D nt}
    {p : ExprTree D (.expr .postfixExpression)} (h : e.asPostfix? = some p) :
    p.tokens = e.tokens := by
  induction e with
  | operand l e ih => exact ih h
  | bare e =>
    obtain rfl := Option.some.inj h
    rfl
  | _ => cases h

/-- Every phrase that the reader returns is what it has taken. -/
def ExprSound (self : ∀ nt : ExprNT, Parse D (ExprTree D nt)) : Prop :=
  ∀ nt, Takes (self nt) ExprTree.tokens

section ExprSound

variable {self : ∀ nt : ExprNT, Parse D (ExprTree D nt)} (h : ExprSound self)
include h

/-- `( expression )` -/
theorem parenthesized_takes :
    Takes (parenthesized self) fun e ↦ .mark .lparen :: (e.tokens ++ [.mark .rparen]) := by
  intro ts
  refine (expect_takes _).then fun _ ts₁ h₁ ↦ (h _).then fun e ts₂ h₂ ↦ ?_
  refine (expect_takes _).then fun _ ts₃ h₃ ↦ meets_pure.2 ?_
  simp [h₁, h₂, h₃]

/-- `primary_expression`. One token decides which production it is. -/
theorem primaryBase_takes : Takes (primaryBase self) ExprTree.tokens := by
  intro ts
  refine meets_get_bind.2 ?_
  split
  · exact meets_set_bind.2 (meets_pure.2 rfl)
  · exact meets_set_bind.2 (meets_pure.2 rfl)
  · exact meets_set_bind.2 (meets_pure.2 rfl)
  · exact meets_set_bind.2 (meets_pure.2 rfl)
  · exact (parenthesized_takes h).then fun e rest he ↦ meets_pure.2 (by simpa [ExprTree.tokens] using he)

/-- The end of a call, after its name and the parenthesis. -/
theorem callRest_takes (name : Str) (ts : List (Token D)) :
    Meets (fun _ ↦ True) (callRest self name) ts fun e rest ↦
      .identifier name :: .mark .lparen :: ts = e.tokens ++ rest := by
  refine meets_get_bind.2 (meets_ite.2 ⟨fun _ ↦ ?_, fun _ ↦ ?_⟩)
  · refine (expect_takes _).then fun _ ts₁ h₁ ↦ meets_pure.2 ?_
    simp [h₁, ExprTree.tokens]
  · refine (h _).then fun es ts₁ h₁ ↦ (expect_takes _).then fun _ ts₂ h₂ ↦ meets_pure.2 ?_
    simp [h₁, h₂, ExprTree.tokens]

/-- The end of `rpc`, after the word. -/
theorem rpcRest_takes (ts : List (Token D)) :
    Meets (fun _ ↦ True) (rpcRest self) ts fun e rest ↦ .mark .rpc :: ts = e.tokens ++ rest := by
  refine (expect_takes _).then fun _ ts₁ h₁ ↦ (h _).then fun dest ts₂ h₂ ↦ ?_
  refine (expect_takes _).then fun _ ts₃ h₃ ↦ identifier_takes.then fun name ts₄ h₄ ↦ ?_
  refine meets_get_bind.2 (meets_ite.2 ⟨fun _ ↦ ?_, fun _ ↦ ?_⟩)
  · refine (expect_takes _).then fun _ ts₅ h₅ ↦ meets_pure.2 ?_
    simp [h₁, h₂, h₃, h₄, h₅, ExprTree.tokens]
  · refine (expect_takes _).then fun _ ts₅ h₅ ↦ (h _).then fun es ts₆ h₆ ↦ ?_
    refine (expect_takes _).then fun _ ts₇ h₇ ↦ meets_pure.2 ?_
    simp [h₁, h₂, h₃, h₄, h₅, h₆, h₇, ExprTree.tokens]

/-- The two operands of a native function. -/
theorem native2Rest_takes (f : NativeFunc2) (ts : List (Token D)) :
    Meets (fun _ ↦ True) (native2Rest self f) ts fun e rest ↦
      .native2 f :: ts = e.tokens ++ rest := by
  refine (expect_takes _).then fun _ ts₁ h₁ ↦ (h _).then fun e₁ ts₂ h₂ ↦ ?_
  refine (expect_takes _).then fun _ ts₃ h₃ ↦ (h _).then fun e₂ ts₄ h₄ ↦ ?_
  refine (expect_takes _).then fun _ ts₅ h₅ ↦ meets_pure.2 ?_
  simp [h₁, h₂, h₃, h₄, h₅, ExprTree.tokens]

/-- The end of `get_distance`, with or without the nodes that measure. -/
theorem distanceRest_takes (kind : DistanceKind) (ts : List (Token D)) :
    Meets (fun _ ↦ True) (distanceRest self kind) ts fun e rest ↦
      .getDistance kind :: ts = e.tokens ++ rest := by
  refine (expect_takes _).then fun _ ts₁ h₁ ↦ (h _).then fun e₁ ts₂ h₂ ↦ ?_
  refine (expect_takes _).then fun _ ts₃ h₃ ↦ (h _).then fun e₂ ts₄ h₄ ↦ ?_
  refine meets_get_bind.2 (meets_ite.2 ⟨fun _ ↦ ?_, fun _ ↦ ?_⟩)
  · refine (expect_takes _).then fun _ ts₅ h₅ ↦ meets_pure.2 ?_
    simp [h₁, h₂, h₃, h₄, h₅, ExprTree.tokens]
  · refine (expect_takes _).then fun _ ts₅ h₅ ↦ (h _).then fun e₃ ts₆ h₆ ↦ ?_
    refine (expect_takes _).then fun _ ts₇ h₇ ↦ meets_pure.2 ?_
    simp [h₁, h₂, h₃, h₄, h₅, h₆, h₇, ExprTree.tokens]

/-- `postfix_expression` without what may follow it. Only behind a name does the second token count.
-/
theorem postfixBase_takes : Takes (postfixBase self) ExprTree.tokens := by
  intro ts
  have hparen := parenthesized_takes h
  refine meets_get_bind.2 ?_
  split
  · exact callRest_takes h _ _
  · exact hparen.then fun e rest he ↦ meets_pure.2 (by simp [he, ExprTree.tokens])
  · exact hparen.then fun e rest he ↦ meets_pure.2 (by simp [he, ExprTree.tokens])
  · exact rpcRest_takes h _
  · exact hparen.then fun e rest he ↦ meets_pure.2 (by simp [he, ExprTree.tokens])
  · exact native2Rest_takes h _ _
  · exact meets_set_bind.2 (meets_pure.2 rfl)
  · exact distanceRest_takes h _ _
  · exact (h _).then fun e rest he ↦ meets_pure.2 he

/-- `unary_expression` -/
theorem unaryBase_takes : Takes (unaryBase self) ExprTree.tokens := by
  intro ts
  refine meets_get_bind.2 ?_
  split
  · exact (h _).then fun e rest he ↦ meets_pure.2 (by rw [he]; rfl)
  · exact (h _).then fun e rest he ↦ meets_pure.2 (by rw [he]; rfl)
  · exact (h _).then fun e rest he ↦ meets_pure.2 (by rw [he]; rfl)
  · exact (h _).then fun e rest he ↦ meets_pure.2 he

/-- `assign_expression`: an operand and then, if it is a `postfix_expression` and a `=` follows, the
right side. -/
theorem assignBase_takes : Takes (assignBase self) ExprTree.tokens := by
  intro ts
  refine (h _).then fun e ts₁ h₁ ↦ meets_get_bind.2 (meets_ite.2 ⟨fun _ ↦ ?_, fun _ ↦ ?_⟩)
  · split
    · next left hleft =>
      refine (expect_takes _).then fun _ ts₂ h₂ ↦ (h _).then fun right ts₃ h₃ ↦ meets_pure.2 ?_
      simp [h₁, h₂, h₃, ExprTree.tokens, ExprTree.tokens_asPostfix? hleft]
    · exact trivial
  · exact meets_pure.2 h₁

/-- The shortest form of each nonterminal. -/
theorem exprBase_takes (nt : ExprNT) : Takes (exprBase self nt) ExprTree.tokens := by
  intro ts
  cases nt with
  | expressionSep => exact (h _).then fun e rest he ↦ meets_pure.2 he
  | expr c =>
    cases c with
    | primaryExpression => exact primaryBase_takes h ts
    | postfixExpression => exact postfixBase_takes h ts
    | unaryExpression => exact unaryBase_takes h ts
    | binary l => exact (h _).then fun e rest he ↦ meets_pure.2 he
    | assignExpression => exact assignBase_takes h ts

/-- A `postfix_expression` is extended by a field or an index. -/
theorem postfixMore_takes (e : ExprTree D (.expr .postfixExpression)) (ts : List (Token D)) :
    Meets (fun _ ↦ True) (postfixMore self e) ts fun e' rest ↦
      e.tokens ++ ts = e'.tokens ++ rest := by
  refine meets_get_bind.2 ?_
  split
  · refine identifier_takes.then fun name rest hname ↦ meets_pure.2 ?_
    simp [hname, ExprTree.tokens]
  · refine (expect_takes _).then fun _ ts₁ h₁ ↦ (h _).then fun i ts₂ h₂ ↦ ?_
    refine (expect_takes _).then fun _ ts₃ h₃ ↦ meets_pure.2 ?_
    simp [h₁, h₂, h₃, ExprTree.tokens]

/-- A class of operators is extended by an operator of its own and another operand. -/
theorem binMore_takes (l : BinLevel) (e : ExprTree D (.expr (.binary l))) (ts : List (Token D)) :
    Meets (fun _ ↦ True) (binMore self l e) ts fun e' rest ↦
      e.tokens ++ ts = e'.tokens ++ rest := by
  refine meets_get_bind.2 ?_
  split
  · split
    · exact (h _).then fun right rest hright ↦ meets_pure.2 (by simp [hright, ExprTree.tokens])
    · exact trivial
  · exact trivial

/-- What extends a phrase takes the tokens behind it. -/
theorem exprMore_takes (nt : ExprNT) (e : ExprTree D nt) (ts : List (Token D)) :
    Meets (fun _ ↦ True) (exprMore self nt e) ts fun e' rest ↦
      e.tokens ++ ts = e'.tokens ++ rest := by
  cases nt with
  | expressionSep =>
    refine (expect_takes _).then fun _ ts₁ h₁ ↦ (h _).then fun e₁ ts₂ h₂ ↦ meets_pure.2 ?_
    simp [h₁, h₂, ExprTree.tokens]
  | expr c =>
    cases c with
    | postfixExpression => exact postfixMore_takes h e ts
    | binary l => exact binMore_takes h l e ts
    | _ => exact meets_pure.2 rfl

end ExprSound

/-- **Soundness**: each level takes what it returns, if the one below does. -/
theorem parseExpr_takes (n : ℕ) : ExprSound (parseExpr n : ∀ nt, Parse D (ExprTree D nt)) := by
  induction n with
  | zero => exact fun nt ts ↦ trivial
  | succ n ih =>
    exact fun nt ↦ Phrase.takes_succ (P := nt.phrase) (exprBase_takes ih nt) (exprMore_takes ih nt)

/-! ### The first tokens -/

/-- A primary or postfix expression can begin with this token. -/
def startsPostfix : Token D → Bool
  | .identifier _ | .stringLiteral _ | .intConstant _ | .doubleConstant _ => true
  | .native1 _ | .native2 _ | .getDistance _ => true
  | .mark .lparen | .mark .print | .mark .println | .mark .rpc | .mark .getSelf => true
  | _ => false

/-- A phrase of the nonterminal can begin with this token. -/
def ExprNT.startsWith : ExprNT → Token D → Bool
  | .expr .primaryExpression, t => startsPostfix t
  | .expr .postfixExpression, t => startsPostfix t
  | _, .op .add => true
  | _, .op .sub => true
  | _, .mark .not => true
  | _, t => startsPostfix t

/-- Every nonterminal can begin as a `postfix_expression` does. -/
theorem ExprNT.startsWith_of_startsPostfix {nt : ExprNT} {t : Token D} (h : startsPostfix t = true) :
    nt.startsWith t = true := by
  unfold startsWith
  split <;> first | rfl | exact h

/-- Whatever is left of it, a class of operators begins as a unary expression does. -/
theorem ExprNT.startsWith_mono {nt nt' : ExprNT} {t : Token D} (h : nt.startsWith t = true)
    (hnt : nt' ≠ .expr .primaryExpression ∧ nt' ≠ .expr .postfixExpression) :
    nt'.startsWith t = true := by
  unfold startsWith at h
  split at h
  · exact startsWith_of_startsPostfix h
  · exact startsWith_of_startsPostfix h
  all_goals
    unfold startsWith
    split <;> simp_all

/-- No phrase is empty, and the first token is one that its nonterminal can begin with. -/
theorem ExprTree.exists_tokens {nt : ExprNT} (e : ExprTree D nt) :
    ∃ t ts, e.tokens = t :: ts ∧ nt.startsWith t = true := by
  induction e with
  | dot e name ih | access e i ih _ =>
    obtain ⟨t, ts, h, ht⟩ := ih
    exact ⟨t, _, by rw [tokens, h]; rfl, ht⟩
  | bin l op h left right ih _ =>
    obtain ⟨t, ts, h, ht⟩ := ih
    exact ⟨t, _, by rw [tokens, h]; rfl, ht⟩
  | assign left right ih _ | next es e ih _ =>
    obtain ⟨t, ts, h, ht⟩ := ih
    exact ⟨t, _, by rw [tokens, h]; rfl, ExprNT.startsWith_mono ht (by simp)⟩
  | primary e ih => exact ih
  | bare e ih | operand l e ih | logicalOr e ih | first e ih =>
    obtain ⟨t, ts, h, ht⟩ := ih
    exact ⟨t, ts, h, ExprNT.startsWith_mono ht (by simp)⟩
  | unary op e ih => cases op <;> exact ⟨_, _, rfl, rfl⟩
  | _ => exact ⟨_, _, rfl, rfl⟩

/-- What no phrase of the nonterminal begins with is not next. -/
theorem ExprTree.nextIs_tokens {nt : ExprNT} (e : ExprTree D nt) {p : Token D → Bool}
    (hp : ∀ t, nt.startsWith t = true → p t = false) (rest : List (Token D)) :
    nextIs p (e.tokens ++ rest) = false := by
  obtain ⟨t, ts, h, ht⟩ := e.exists_tokens
  rw [h]
  exact hp t ht

/-! ### Completeness -/

/-- The token is there. -/
theorem runs_expect (m : Mark) (ts : List (Token D)) : Runs (expect m) (.mark m :: ts) () ts :=
  runs_token (by simp [isMark])

/-- A name is there. -/
theorem runs_identifier (name : Str) (ts : List (Token D)) :
    Runs identifier (.identifier name :: ts) name ts :=
  runs_token rfl

/-- What goes on with the operand of a class goes on with the class, and does not extend it. -/
theorem BinLevel.operand_continuedBy {l : BinLevel} {t : Token D}
    (h : l.operand.continuedBy t = true) :
    ((ExprNT.expr (.binary l)).continuedBy t && !(ExprNT.expr (.binary l)).extendedBy t) = true := by
  cases t with
  | op op => cases l <;> cases op <;> first | rfl | cases h
  | mark m => cases m <;> cases l <;> first | rfl | cases h
  | _ => cases l <;> cases h

/-- The same for the operand on the right. -/
theorem BinLevel.rightOperand_continuedBy {l : BinLevel} {t : Token D}
    (h : l.rightOperand.continuedBy t = true) :
    ((ExprNT.expr (.binary l)).continuedBy t && !(ExprNT.expr (.binary l)).extendedBy t) = true := by
  cases t with
  | op op => cases l <;> cases op <;> first | rfl | cases h
  | mark m => cases m <;> cases l <;> first | rfl | cases h
  | _ => cases l <;> cases h

/-- The parts of a nonterminal stop where it pauses. -/
theorem ExprNT.stops_of_pauses {nt nt' : ExprNT} {ts : List (Token D)} (h : nt.phrase.Pauses ts)
    (hnt : ∀ t : Token D, nt'.continuedBy t = true →
      (nt.continuedBy t && !nt.extendedBy t) = true) : nt'.phrase.Stops ts :=
  nextIs_mono h hnt

namespace ExprTree

/-- The parser finds the tree. -/
def Reads {nt : ExprNT} (e : ExprTree D nt) : Prop := nt.phrase.Reads e

/-- A tree that no extension has made is found as the shortest form of its nonterminal. -/
theorem reads_of_base {nt : ExprNT} {e : ExprTree D nt} (hspine : e.spine = 0)
    (h : ∀ n rest, e.height ≤ n + 1 → nt.phrase.Pauses rest →
      Runs (exprBase (parseExpr n) nt) (e.tokens ++ rest) e rest) : e.Reads :=
  Phrase.reads_of_base hspine h

/-- A tree that an extension has made is found if the tree on its left is. -/
theorem Reads.extension {nt : ExprNT} {e e' : ExprTree D nt} {w : List (Token D)} (h : e.Reads)
    (hspine : e'.spine = e.spine + 1) (hheight : e.height ≤ e'.height)
    (htokens : e'.tokens = e.tokens ++ w) (hnext : ∀ rest, nextIs nt.extendedBy (w ++ rest) = true)
    (hmore : ∀ n rest, e'.height ≤ n + 1 → nt.phrase.Pauses rest →
      Runs (exprMore (parseExpr n) nt e) (w ++ rest) e' rest) : e'.Reads :=
  Phrase.Reads.extension h hspine hheight htokens hnext hmore

/-- An expression is read whole in front of what does not go on with it. -/
theorem Reads.runs {nt : ExprNT} {e : ExprTree D nt} {n : ℕ} {rest : List (Token D)} (h : e.Reads)
    (hn : e.height ≤ n) (hstop : nt.phrase.Stops rest) :
    Runs (parseExpr n nt) (e.tokens ++ rest) e rest := by
  rw [← ExprNT.parse_phrase]
  exact Phrase.Reads.runs h hn hstop

/-- The operand of an operator that binds as tightly as possible. -/
def toOperand (e : ExprTree D (.expr .postfixExpression)) :
    ExprTree D (.expr (.binary .logicalOr)) :=
  .operand .logicalOr <| .operand .logicalAnd <| .operand .inclusiveOr <| .operand .exclusiveOr <|
    .operand .and <| .operand .equality <| .operand .relational <| .operand .shift <|
      .operand .additive <| .operand .multiplicative <| .bare e

/-- There are eleven levels. -/
theorem height_toOperand (e : ExprTree D (.expr .postfixExpression)) :
    e.toOperand.height = e.height + 11 := rfl

variable {n : ℕ} {rest : List (Token D)}

/-- The parenthesis ends the expression. -/
theorem runs_parenthesized {e : Expression D} (h : e.Reads) (hn : e.height ≤ n) :
    Runs (parenthesized (parseExpr n)) (.mark .lparen :: (e.tokens ++ .mark .rparen :: rest)) e
      rest :=
  (runs_expect _ _).bind <| (h.runs hn (by rfl)).bind <|
    (runs_expect _ _).bind (runs_pure.2 ⟨rfl, rfl⟩)

/-- An identifier with no parenthesis behind it is no call. -/
theorem postfixBase_primary {self : ∀ nt : ExprNT, Parse D (ExprTree D nt)}
    (e : ExprTree D (.expr .primaryExpression)) (hrest : nextIs (isMark .lparen) rest = false) :
    postfixBase self (e.tokens ++ rest) =
      (do return .primary (← self (.expr .primaryExpression)) : Parse D _) (e.tokens ++ rest) := by
  cases e with
  | identifier name =>
    cases rest with
    | nil => rfl
    | cons t ts =>
      cases t with
      | mark m => cases m <;> first | rfl | cases hrest
      | _ => rfl
  | _ => rfl

/-- A `primary_expression` ends before a parenthesis, so that a name is not taken for a call. -/
theorem reads_primary {e : ExprTree D (.expr .primaryExpression)} (h : e.Reads) :
    (primary e).Reads := by
  refine reads_of_base rfl fun n rest hn hrest ↦ ?_
  have hparen : nextIs (isMark .lparen) rest = false := by
    refine nextIs_mono hrest fun t ht ↦ ?_
    cases t with
    | mark m => cases m <;> first | rfl | cases ht
    | _ => cases ht
  have hrun : Runs (do return primary (← parseExpr n (.expr .primaryExpression)) : Parse D _)
      (e.tokens ++ rest) (primary e) rest :=
    (h.runs (Nat.le_of_succ_le_succ hn) (by cases rest <;> rfl)).bind (runs_pure.2 ⟨rfl, rfl⟩)
  exact (postfixBase_primary e hparen).trans hrun

/-- No token that a `postfix_expression` begins with is a sign. -/
theorem reads_bare {e : ExprTree D (.expr .postfixExpression)} (h : e.Reads) :
    (bare e).Reads := by
  refine reads_of_base rfl fun n rest hn hrest ↦ ?_
  have hrun : Runs (do return bare (← parseExpr n (.expr .postfixExpression)) : Parse D _)
      (e.tokens ++ rest) (bare e) rest := by
    refine (h.runs (Nat.le_of_succ_le_succ hn) (ExprNT.stops_of_pauses hrest fun t ht ↦ ?_)).bind
      (runs_pure.2 ⟨rfl, rfl⟩)
    have ht : suffixes t = true := ht
    simp [ExprNT.continuedBy, ExprClass.continuedBy, ExprNT.extendedBy, ht]
  obtain ⟨t, ts, he, ht⟩ := e.exists_tokens
  have hbase : unaryBase (parseExpr n) (e.tokens ++ rest) =
      (do return bare (← parseExpr n (.expr .postfixExpression)) : Parse D _) (e.tokens ++ rest) := by
    rw [he]
    cases t with
    | op op => cases ht
    | mark m => cases m <;> first | rfl | cases ht
    | _ => rfl
  exact hbase.trans hrun

/-- An operand of the class above. -/
theorem reads_operand {l : BinLevel} {e : ExprTree D (.expr l.operand)} (h : e.Reads) :
    (operand l e).Reads := by
  refine reads_of_base rfl fun n rest hn hrest ↦ ?_
  exact (h.runs (Nat.le_of_succ_le_succ hn) (ExprNT.stops_of_pauses hrest
    fun t ↦ BinLevel.operand_continuedBy)).bind
    (runs_pure.2 ⟨rfl, rfl⟩)

/-- All the levels between an assignment and its left side. -/
theorem reads_toOperand {e : ExprTree D (.expr .postfixExpression)} (h : e.Reads) :
    e.toOperand.Reads :=
  reads_operand <| reads_operand <| reads_operand <| reads_operand <| reads_operand <|
    reads_operand <| reads_operand <| reads_operand <| reads_operand <| reads_operand <|
      reads_bare h

/-- What stands before the token is read, and the token begins an extension. -/
theorem nextIs_append_cons {p : Token D → Bool} {t : Token D} {w rest : List (Token D)}
    (h : p t = true) : nextIs p ((t :: w) ++ rest) = true := h

/-- An expression in a list ends at a comma and at the end of the list. -/
theorem expressionSep_stops {ts : List (Token D)} (h : ExprNT.expressionSep.phrase.Pauses ts) :
    (ExprNT.expr .assignExpression).phrase.Stops ts := by
  refine ExprNT.stops_of_pauses h fun t ht ↦ ?_
  cases t with
  | op op => rfl
  | mark m => cases m <;> first | rfl | cases ht
  | _ => cases ht

section Heights

variable {e : Expression D} {es : ExprTree D .expressionSep}

/-- An expression is read before a mark that ends it. -/
theorem Reads.runs_mark {m : Mark} (h : e.Reads) (hn : e.height ≤ n)
    (hm : (ExprNT.expr .assignExpression).continuedBy (.mark m : Token D) = false) :
    Runs (parseExpr n (.expr .assignExpression)) (e.tokens ++ .mark m :: rest) e (.mark m :: rest) :=
  h.runs hn hm

/-- A list of expressions is read before a mark that ends it. -/
theorem Reads.runs_sep {m : Mark} (h : es.Reads) (hn : es.height ≤ n)
    (hm : ExprNT.expressionSep.continuedBy (.mark m : Token D) = false) :
    Runs (parseExpr n .expressionSep) (es.tokens ++ .mark m :: rest) es (.mark m :: rest) :=
  h.runs hn hm

end Heights

/-- A call with parameters. -/
theorem runs_callRest {es : ExprTree D .expressionSep} (h : es.Reads) (hn : es.height ≤ n)
    (name : Str) :
    Runs (callRest (parseExpr n) name) (es.tokens ++ .mark .rparen :: rest) (.call name es) rest := by
  have hnext : nextIs (isMark .rparen) (es.tokens ++ .mark .rparen :: rest) = false := by
    refine es.nextIs_tokens (fun t ht ↦ ?_) _
    cases t with
    | mark m => cases m <;> first | rfl | cases ht
    | _ => rfl
  refine runs_get_bind.2 ?_
  rw [if_neg (by simp [hnext])]
  exact (h.runs_sep hn rfl).bind <| (runs_expect _ _).bind (runs_pure.2 ⟨rfl, rfl⟩)

/-- `rpc` with parameters. -/
theorem runs_rpcRest {e : Expression D} {es : ExprTree D .expressionSep} (he : e.Reads)
    (h : es.Reads) (hne : e.height ≤ n) (hn : es.height ≤ n) (name : Str) :
    Runs (rpcRest (parseExpr n)) (.mark .lparen :: (e.tokens ++ .mark .comma :: .identifier name ::
      .mark .comma :: (es.tokens ++ .mark .rparen :: rest))) (.rpc e name es) rest := by
  refine (runs_expect _ _).bind <| (he.runs_mark hne rfl).bind <| (runs_expect _ _).bind <|
    (runs_identifier _ _).bind <| runs_get_bind.2 ?_
  exact (runs_expect _ _).bind <| (h.runs_sep hn rfl).bind <|
    (runs_expect _ _).bind (runs_pure.2 ⟨rfl, rfl⟩)

/-- `rpc` without parameters. -/
theorem runs_rpcRest_empty {e : Expression D} (he : e.Reads) (hn : e.height ≤ n) (name : Str) :
    Runs (rpcRest (parseExpr n)) (.mark .lparen :: (e.tokens ++ .mark .comma :: .identifier name ::
      .mark .rparen :: rest)) (.rpcEmpty e name) rest := by
  refine (runs_expect _ _).bind <| (he.runs_mark hn rfl).bind <| (runs_expect _ _).bind <|
    (runs_identifier _ _).bind <| runs_get_bind.2 ?_
  exact (runs_expect _ _).bind (runs_pure.2 ⟨rfl, rfl⟩)

/-- A native function of two operands. -/
theorem runs_native2Rest {e₁ e₂ : Expression D} (h₁ : e₁.Reads) (h₂ : e₂.Reads)
    (hn₁ : e₁.height ≤ n) (hn₂ : e₂.height ≤ n) (f : NativeFunc2) :
    Runs (native2Rest (parseExpr n) f) (.mark .lparen :: (e₁.tokens ++ .mark .comma ::
      (e₂.tokens ++ .mark .rparen :: rest))) (.native2 f e₁ e₂) rest :=
  (runs_expect _ _).bind <| (h₁.runs_mark hn₁ rfl).bind <| (runs_expect _ _).bind <|
    (h₂.runs_mark hn₂ rfl).bind <| (runs_expect _ _).bind (runs_pure.2 ⟨rfl, rfl⟩)

/-- `get_distance` from the node itself. -/
theorem runs_distanceRest {e₂ e₃ : Expression D} (h₂ : e₂.Reads) (h₃ : e₃.Reads)
    (hn₂ : e₂.height ≤ n) (hn₃ : e₃.height ≤ n) (kind : DistanceKind) :
    Runs (distanceRest (parseExpr n) kind) (.mark .lparen :: (e₂.tokens ++ .mark .comma ::
      (e₃.tokens ++ .mark .rparen :: rest))) (.getDistance kind e₂ e₃) rest := by
  refine (runs_expect _ _).bind <| (h₂.runs_mark hn₂ rfl).bind <| (runs_expect _ _).bind <|
    (h₃.runs_mark hn₃ rfl).bind <| runs_get_bind.2 ?_
  exact (runs_expect _ _).bind (runs_pure.2 ⟨rfl, rfl⟩)

/-- `get_distance` from other nodes. -/
theorem runs_distanceRest_from {e₁ e₂ e₃ : Expression D} (h₁ : e₁.Reads) (h₂ : e₂.Reads)
    (h₃ : e₃.Reads) (hn₁ : e₁.height ≤ n) (hn₂ : e₂.height ≤ n) (hn₃ : e₃.height ≤ n)
    (kind : DistanceKind) :
    Runs (distanceRest (parseExpr n) kind) (.mark .lparen :: (e₁.tokens ++ .mark .comma ::
      (e₂.tokens ++ .mark .comma :: (e₃.tokens ++ .mark .rparen :: rest))))
      (.getDistanceFrom kind e₁ e₂ e₃) rest := by
  refine (runs_expect _ _).bind <| (h₁.runs_mark hn₁ rfl).bind <| (runs_expect _ _).bind <|
    (h₂.runs_mark hn₂ rfl).bind <| runs_get_bind.2 ?_
  exact (runs_expect _ _).bind <| (h₃.runs_mark hn₃ rfl).bind <|
    (runs_expect _ _).bind (runs_pure.2 ⟨rfl, rfl⟩)

/-- A sign in front of a `postfix_expression`. -/
theorem reads_unary {op : UnaryOp} {e : ExprTree D (.expr .postfixExpression)} (h : e.Reads) :
    (unary op e).Reads := by
  refine reads_of_base rfl fun n rest hn hrest ↦ ?_
  have hrun : Runs (do return unary op (← parseExpr n (.expr .postfixExpression)) : Parse D _)
      (e.tokens ++ rest) (unary op e) rest := by
    refine (h.runs (Nat.le_of_succ_le_succ hn) (ExprNT.stops_of_pauses hrest fun t ht ↦ ?_)).bind
      (runs_pure.2 ⟨rfl, rfl⟩)
    have ht : suffixes t = true := ht
    simp [ExprNT.continuedBy, ExprClass.continuedBy, ExprNT.extendedBy, ht]
  cases op <;> exact hrun

/-- The sign that is dropped. -/
theorem reads_plus {e : ExprTree D (.expr .postfixExpression)} (h : e.Reads) : (plus e).Reads := by
  refine reads_of_base rfl fun n rest hn hrest ↦ ?_
  have hrun : Runs (do return plus (← parseExpr n (.expr .postfixExpression)) : Parse D _)
      (e.tokens ++ rest) (plus e) rest := by
    refine (h.runs (Nat.le_of_succ_le_succ hn) (ExprNT.stops_of_pauses hrest fun t ht ↦ ?_)).bind
      (runs_pure.2 ⟨rfl, rfl⟩)
    have ht : suffixes t = true := ht
    simp [ExprNT.continuedBy, ExprClass.continuedBy, ExprNT.extendedBy, ht]
  exact hrun

/-- An operator extends its class. The left operand is the phrase so far. -/
theorem reads_bin {l : BinLevel} {op : BinOp} {hop : op.level = l}
    {left : ExprTree D (.expr (.binary l))} {right : ExprTree D (.expr l.rightOperand)}
    (h : left.Reads) (hright : right.Reads) : (bin l op hop left right).Reads := by
  have hnext : (ExprNT.expr (.binary l)).extendedBy (.op op : Token D) = true := beq_iff_eq.2 hop
  refine h.extension rfl (by rw [height]; omega) rfl (fun _ ↦ nextIs_append_cons hnext)
    fun n rest hn hrest ↦ ?_
  have hn : max left.height right.height + 1 ≤ n + 1 := hn
  have hrun : Runs (do return bin l op hop left (← parseExpr n (.expr l.rightOperand)) : Parse D _)
      (right.tokens ++ rest) (bin l op hop left right) rest :=
    (hright.runs (by omega) (ExprNT.stops_of_pauses hrest
      fun t ↦ BinLevel.rightOperand_continuedBy)).bind
      (runs_pure.2 ⟨rfl, rfl⟩)
  refine runs_get_bind.2 ?_
  show Runs (if h : op.level = l then _ else _) _ _ _
  rw [dif_pos hop]
  exact runs_set_bind.2 hrun

/-- An expression that is no assignment: no `=` follows it. -/
theorem reads_logicalOr {e : ExprTree D (.expr (.binary .logicalOr))} (h : e.Reads) :
    (logicalOr e).Reads := by
  refine reads_of_base rfl fun n rest hn hrest ↦ ?_
  have hstop : (ExprNT.expr (.binary .logicalOr)).phrase.Stops rest := by
    refine ExprNT.stops_of_pauses hrest fun t ht ↦ ?_
    cases t with
    | op op => rfl
    | mark m => cases m <;> first | rfl | cases ht
    | _ => cases ht
  have hnext : nextIs (isMark .assign) rest = false := by
    refine nextIs_mono hrest fun t ht ↦ ?_
    cases t with
    | mark m => cases m <;> first | rfl | cases ht
    | _ => cases ht
  refine (h.runs (Nat.le_of_succ_le_succ hn) hstop).bind (runs_get_bind.2 ?_)
  rw [if_neg (by simp [hnext])]
  exact runs_pure.2 ⟨rfl, rfl⟩

/-- The left side is read as an operand, and then seen to be a `postfix_expression`. -/
theorem reads_assign {left : ExprTree D (.expr .postfixExpression)} {right : Expression D}
    (h : left.Reads) (hright : right.Reads) : (assign left right).Reads := by
  refine reads_of_base rfl fun n rest hn hrest ↦ ?_
  have hn : max (left.height + 11) right.height + 1 ≤ n + 1 := hn
  have hleft : Runs (parseExpr n (.expr (.binary .logicalOr)))
      (left.tokens ++ .mark .assign :: (right.tokens ++ rest)) left.toOperand
      (.mark .assign :: (right.tokens ++ rest)) :=
    (reads_toOperand h).runs (by rw [height_toOperand]; omega) rfl
  have hright : Runs (parseExpr n (.expr .assignExpression)) (right.tokens ++ rest) right rest :=
    hright.runs (by omega) (ExprNT.stops_of_pauses hrest fun t ht ↦ by
      simp only [ExprNT.continuedBy] at ht
      simp [ExprNT.continuedBy, ExprNT.extendedBy, ht])
  have htokens : (assign left right).tokens ++ rest =
      left.tokens ++ .mark .assign :: (right.tokens ++ rest) := by simp [tokens]
  rw [htokens]
  exact hleft.bind <| runs_get_bind.2 <|
    (runs_expect .assign _).bind <| hright.bind (runs_pure.2 ⟨rfl, rfl⟩)

/-- A list of one expression. -/
theorem reads_first {e : Expression D} (h : e.Reads) : (first e).Reads :=
  reads_of_base rfl fun _ _ hn hrest ↦
    (h.runs (Nat.le_of_succ_le_succ hn) (expressionSep_stops hrest)).bind (runs_pure.2 ⟨rfl, rfl⟩)

/-- A list is extended by a comma and another expression. -/
theorem reads_next {es : ExprTree D .expressionSep} {e : Expression D} (h : es.Reads)
    (he : e.Reads) : (next es e).Reads := by
  refine h.extension rfl (by rw [height]; omega) rfl (fun _ ↦ nextIs_append_cons rfl)
    fun n rest hn hrest ↦ ?_
  have hn : max es.height e.height + 1 ≤ n + 1 := hn
  exact (runs_expect _ _).bind <| (he.runs (by omega) (expressionSep_stops hrest)).bind
    (runs_pure.2 ⟨rfl, rfl⟩)

/-- A `postfix_expression` is extended by an index. -/
theorem reads_access {e : ExprTree D (.expr .postfixExpression)} {i : Expression D} (h : e.Reads)
    (hi : i.Reads) : (access e i).Reads := by
  refine h.extension rfl (by rw [height]; omega) rfl (fun _ ↦ nextIs_append_cons rfl)
    fun n rest hn hrest ↦ ?_
  have hn : max e.height i.height + 1 ≤ n + 1 := hn
  have htokens : (.mark .lbracket :: (i.tokens ++ [.mark .rbracket])) ++ rest =
      .mark .lbracket :: (i.tokens ++ .mark .rbracket :: rest) := by simp
  rw [htokens]
  refine runs_get_bind.2 ?_
  exact (runs_expect _ _).bind <| (hi.runs_mark (by omega) rfl).bind <|
    (runs_expect _ _).bind (runs_pure.2 ⟨rfl, rfl⟩)

/-- A `postfix_expression` is extended by a field. -/
theorem reads_dot {e : ExprTree D (.expr .postfixExpression)} (h : e.Reads) (name : Str) :
    (dot e name).Reads := by
  refine h.extension rfl (Nat.le_succ _) rfl (fun _ ↦ nextIs_append_cons rfl) fun n rest _ _ ↦ ?_
  have hrun : Runs (do return dot e (← MQL.identifier) : Parse D _) (.identifier name :: rest)
      (dot e name) rest := (runs_identifier name rest).bind (runs_pure.2 ⟨rfl, rfl⟩)
  exact hrun

/-- What has one expression in parentheses. -/
theorem runs_in_parens {nt : ExprNT} (g : Expression D → ExprTree D nt) {e : Expression D}
    (h : e.Reads) (hn : e.height ≤ n) :
    Runs (do return g (← parenthesized (parseExpr n)) : Parse D _)
      (.mark .lparen :: (e.tokens ++ .mark .rparen :: rest)) (g e) rest :=
  (runs_parenthesized h hn).bind (runs_pure.2 ⟨rfl, rfl⟩)

/-- **The parser finds every parse tree of an expression.** -/
theorem reads {nt : ExprNT} (e : ExprTree D nt) : e.Reads := by
  induction e with
  | identifier name => exact reads_of_base rfl fun n rest _ _ ↦ rfl
  | intConstant i => exact reads_of_base rfl fun n rest _ _ ↦ rfl
  | doubleConstant d => exact reads_of_base rfl fun n rest _ _ ↦ rfl
  | stringLiteral s => exact reads_of_base rfl fun n rest _ _ ↦ rfl
  | paren e ih =>
    refine reads_of_base rfl fun n rest hn _ ↦ ?_
    simp only [tokens, List.cons_append, List.append_assoc, List.nil_append]
    exact runs_in_parens paren ih (Nat.le_of_succ_le_succ hn)
  | primary e ih => exact reads_primary ih
  | dot e name ih => exact reads_dot ih name
  | access e i ih ihi => exact reads_access ih ihi
  | print e ih =>
    refine reads_of_base rfl fun n rest hn _ ↦ ?_
    simp only [tokens, List.cons_append, List.append_assoc, List.nil_append]
    exact runs_in_parens print ih (Nat.le_of_succ_le_succ hn)
  | println e ih =>
    refine reads_of_base rfl fun n rest hn _ ↦ ?_
    simp only [tokens, List.cons_append, List.append_assoc, List.nil_append]
    exact runs_in_parens println ih (Nat.le_of_succ_le_succ hn)
  | native1 f e ih =>
    refine reads_of_base rfl fun n rest hn _ ↦ ?_
    simp only [tokens, List.cons_append, List.append_assoc, List.nil_append]
    exact runs_in_parens (native1 f) ih (Nat.le_of_succ_le_succ hn)
  | call name es ih =>
    refine reads_of_base rfl fun n rest hn _ ↦ ?_
    simp only [tokens, List.cons_append, List.append_assoc, List.nil_append]
    exact runs_callRest ih (Nat.le_of_succ_le_succ hn) name
  | callEmpty name => exact reads_of_base rfl fun n rest _ _ ↦ rfl
  | rpc dest name es ihd ih =>
    refine reads_of_base rfl fun n rest hn _ ↦ ?_
    have hn : max dest.height es.height + 1 ≤ n + 1 := hn
    simp only [tokens, List.cons_append, List.append_assoc, List.nil_append]
    exact runs_rpcRest ihd ih (by omega) (by omega) name
  | rpcEmpty dest name ih =>
    refine reads_of_base rfl fun n rest hn _ ↦ ?_
    simp only [tokens, List.cons_append, List.append_assoc, List.nil_append]
    exact runs_rpcRest_empty ih (Nat.le_of_succ_le_succ hn) name
  | native2 f e₁ e₂ ih₁ ih₂ =>
    refine reads_of_base rfl fun n rest hn _ ↦ ?_
    have hn : max e₁.height e₂.height + 1 ≤ n + 1 := hn
    simp only [tokens, List.cons_append, List.append_assoc, List.nil_append]
    exact runs_native2Rest ih₁ ih₂ (by omega) (by omega) f
  | getSelf => exact reads_of_base rfl fun n rest _ _ ↦ rfl
  | getDistance kind e₂ e₃ ih₂ ih₃ =>
    refine reads_of_base rfl fun n rest hn _ ↦ ?_
    have hn : max e₂.height e₃.height + 1 ≤ n + 1 := hn
    simp only [tokens, List.cons_append, List.append_assoc, List.nil_append]
    exact runs_distanceRest ih₂ ih₃ (by omega) (by omega) kind
  | getDistanceFrom kind e₁ e₂ e₃ ih₁ ih₂ ih₃ =>
    refine reads_of_base rfl fun n rest hn _ ↦ ?_
    have hn : max e₁.height (max e₂.height e₃.height) + 1 ≤ n + 1 := hn
    simp only [tokens, List.cons_append, List.append_assoc, List.nil_append]
    exact runs_distanceRest_from ih₁ ih₂ ih₃ (by omega) (by omega) (by omega) kind
  | bare e ih => exact reads_bare ih
  | plus e ih => exact reads_plus ih
  | unary op e ih => exact reads_unary ih
  | operand l e ih => exact reads_operand ih
  | bin l op h left right ih ihr => exact reads_bin ih ihr
  | logicalOr e ih => exact reads_logicalOr ih
  | assign left right ih ihr => exact reads_assign ih ihr
  | first e ih => exact reads_first ih
  | next es e ih ihe => exact reads_next ih ihe

end ExprTree

end Meridian.MQL

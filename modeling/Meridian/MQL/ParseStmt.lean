import Meridian.MQL.ParseExpr

/-!
# Deciding the grammar: statements

The recursive descent parser for the statements of `MQL.ypp`, with the one for expressions as a part.
What kind of statement comes next is decided by its first token, and by the second one if the first is
an `IDENTIFIER`: a declaration begins with two.
-/

namespace Meridian.MQL

open Lib

variable {D : Type}

/-- The next token has to be a type. -/
def elementType : Parse D ElemType :=
  token .syntaxError fun t ↦
    match t with
    | .type t => some (.basic t)
    | .identifier name => some (.adt name)
    | _ => none

/-- The list of statements goes on with this token. -/
def StmtNT.extendedBy : StmtNT → Token D → Bool
  | .statementList, t => !isMark .rbrace t && !isMark .elseMark t
  | _, _ => false

/-- A phrase of the nonterminal goes on with this token. -/
def StmtNT.continuedBy : StmtNT → Token D → Bool
  | .statementList, t => !isMark .rbrace t
  | .selectionStatement, t => isMark .elseMark t
  | .statement, t => isMark .elseMark t
  | _, _ => false

section Stmt

variable (expr : ∀ nt : ExprNT, Parse D (ExprTree D nt))
  (self : ∀ nt : StmtNT, Parse D (StmtTree D nt))

/-- The rest of an `if`, behind its first branch. -/
def selectionRest (eval : Expression D) (left : StmtTree D .compoundStatement) :
    Parse D (StmtTree D .selectionStatement) := do
  match ← get with
  | .mark .elseMark :: ts =>
    set ts
    if nextIs (isMark .ifMark) ts then return .selectionElseIf eval left (← self .selectionStatement)
    else return .selectionElse eval left (← self .compoundStatement)
  | _ => return .selection eval left

/-- The rest of a declaration, behind the `=`. -/
def initializer (t : DeclType) (name : Str) : Parse D (StmtTree D .declarationStatement) := do
  match ← get with
  | .mark .lbrace :: ts =>
    if h : t.takesList = true then
      set ts
      let es ← expr .expressionSep
      expect .rbrace
      expect .semicolon
      return .newAssignSep t h name es
    else throw .syntaxError
  | _ =>
    let e ← expr (.expr .assignExpression)
    expect .semicolon
    return .newAssign t name e

/-- The rest of a declaration, behind the name. -/
def declarationRest (t : ElemType) (name : Str) : Parse D (StmtTree D .declarationStatement) := do
  match ← get with
  | .mark .semicolon :: ts => set ts; return .parameter ⟨.elem t, name⟩
  | .mark .assign :: ts => set ts; initializer expr (.elem t) name
  | .mark .lbracket :: .mark .rbracket :: .mark .semicolon :: ts =>
    set ts
    return .parameter ⟨.array t, name⟩
  | .mark .lbracket :: .mark .rbracket :: .mark .assign :: ts =>
    set ts
    initializer expr (.array t) name
  | _ =>
    expect .lbracket
    let size ← expr (.expr .assignExpression)
    expect .rbracket
    expect .semicolon
    return .newArray t name size

/-- An `iteration_statement`. -/
def iterationBase : Parse D (StmtTree D .iterationStatement) := do
  match ← get with
  | .mark .forMark :: ts =>
    set ts
    expect .lparen
    let init ← self .statement
    let eval ← self .expressionStatement
    let step ← expr (.expr .assignExpression)
    expect .rparen
    return .forLoop init eval step (← self .compoundStatement)
  | _ =>
    expect .whileMark
    let eval ← parenthesized expr
    return .loop eval (← self .compoundStatement)

/-- A `jump_statement`. -/
def jumpBase : Parse D (StmtTree D .jumpStatement) := do
  match ← get with
  | .mark .continueMark :: .mark .semicolon :: ts => set ts; return .continueStatement
  | .mark .breakMark :: .mark .semicolon :: ts => set ts; return .breakStatement
  | .mark .returnMark :: .mark .semicolon :: ts => set ts; return .returnEmpty
  | _ =>
    expect .returnMark
    let e ← expr (.expr .assignExpression)
    expect .semicolon
    return .returnStatement e

/-- A `statement`, by its first tokens. -/
def statementBase : Parse D (StmtTree D .statement) := do
  match ← get with
  | .mark .lbrace :: _ => return .ofCompound (← self .compoundStatement)
  | .mark .ifMark :: _ => return .ofSelection (← self .selectionStatement)
  | .mark .whileMark :: _ | .mark .forMark :: _ => return .ofIteration (← self .iterationStatement)
  | .mark .continueMark :: _ | .mark .breakMark :: _ | .mark .returnMark :: _ =>
    return .ofJump (← self .jumpStatement)
  | .type _ :: _ | .identifier _ :: .identifier _ :: _ =>
    return .ofDeclaration (← self .declarationStatement)
  | _ => return .ofExpression (← self .expressionStatement)

/-- A phrase without the left recursive productions of its own nonterminal. -/
def stmtBase : ∀ nt : StmtNT, Parse D (StmtTree D nt)
  | .compoundStatement => do
    expect .lbrace
    let body ← self .statementList
    expect .rbrace
    return .compound body
  | .selectionStatement => do
    expect .ifMark
    let eval ← parenthesized expr
    selectionRest self eval (← self .compoundStatement)
  | .expressionStatement => do
    if nextIs (isMark .semicolon) (← get) then
      expect .semicolon
      return .empty
    else
      let e ← expr (.expr .assignExpression)
      expect .semicolon
      return .expression e
  | .declarationStatement => do
    let t ← elementType
    let name ← identifier
    declarationRest expr t name
  | .iterationStatement => iterationBase expr self
  | .jumpStatement => jumpBase expr
  | .statement => statementBase self
  | .statementList => pure .nil

/-- One use of a left recursive production. -/
def stmtMore : ∀ nt : StmtNT, StmtTree D nt → Parse D (StmtTree D nt)
  | .statementList, list => do return .snoc list (← self .statement)
  | _, s => pure s

end Stmt

/-- A phrase of the nonterminal, if it is nested at most so deep. -/
def parseStmt : ℕ → ∀ nt : StmtNT, Parse D (StmtTree D nt)
  | 0, _ => throw .syntaxError
  | n + 1, nt => do
    let s ← stmtBase (parseExpr n) (parseStmt n) nt
    iterate .syntaxError nt.extendedBy (stmtMore (parseStmt n) nt) n s

/-! ### Heights -/

/-- What extends a list of statements goes on with it. -/
theorem StmtNT.continuedBy_of_extendedBy {nt : StmtNT} {t : Token D} (h : nt.extendedBy t = true) :
    nt.continuedBy t = true := by
  cases nt with
  | statementList => exact ((Bool.and_eq_true ..).mp h).1
  | _ => cases h

namespace StmtTree

/-- How many levels of the parser the tree takes. -/
def height {nt : StmtNT} : StmtTree D nt → ℕ
  | empty | parameter _ | continueStatement | breakStatement | returnEmpty | nil => 1
  | expression e | newArray _ _ e | newAssign _ _ e | returnStatement e => e.height + 1
  | newAssignSep _ _ _ es => es.height + 1
  | compound s | ofCompound s | ofSelection s | ofExpression s | ofDeclaration s | ofIteration s
  | ofJump s => s.height + 1
  | selection eval left => max eval.height left.height + 1
  | selectionElse eval left right | selectionElseIf eval left right =>
    max eval.height (max left.height right.height) + 1
  | loop eval body => max eval.height body.height + 1
  | forLoop init eval step body =>
    max (max init.height eval.height) (max step.height body.height) + 1
  | snoc list s => max list.height s.height + 1

/-- How often the loop has to extend the phrase. -/
def spine {nt : StmtNT} : StmtTree D nt → ℕ
  | snoc list _ => list.spine + 1
  | _ => 0

/-- The parser has a level left for each statement of a list. -/
theorem spine_lt_height {nt : StmtNT} (s : StmtTree D nt) : s.spine < s.height := by
  induction s <;> simp only [spine, height] <;> omega

end StmtTree

/-- The nonterminal as a phrase. -/
def StmtNT.phrase (nt : StmtNT) : Phrase (Token D) ParseError (StmtTree D nt) where
  error := .syntaxError
  base n := stmtBase (parseExpr n) (parseStmt n) nt
  more n := stmtMore (parseStmt n) nt
  continuedBy := nt.continuedBy
  extendedBy := nt.extendedBy
  print := StmtTree.tokens
  height := StmtTree.height
  spine := StmtTree.spine
  continuedBy_of_extendedBy _ := continuedBy_of_extendedBy
  spine_lt_height := StmtTree.spine_lt_height

/-- `parseStmt` is the parser of the phrase. -/
theorem StmtNT.parse_phrase (nt : StmtNT) (n : ℕ) :
    (nt.phrase : Phrase (Token D) _ _).parse n = parseStmt n nt := by
  cases n <;> rfl

/-! ### Soundness -/

/-- It takes the one token that names the type. -/
theorem elementType_takes : Takes (elementType : Parse D ElemType) fun t ↦ [t.token] := by
  refine takes_token fun t e h ↦ ?_
  cases t <;> simp only [Option.some.injEq, reduceCtorEq] at h <;> subst h <;> rfl

/-- Every phrase that the reader returns is what it has taken. -/
def StmtSound (self : ∀ nt : StmtNT, Parse D (StmtTree D nt)) : Prop :=
  ∀ nt, Takes (self nt) StmtTree.tokens

section StmtSound

variable {expr : ∀ nt : ExprNT, Parse D (ExprTree D nt)} (he : ExprSound expr)
  {self : ∀ nt : StmtNT, Parse D (StmtTree D nt)} (h : StmtSound self)

include h in
/-- What follows the first block of an `if`: nothing, an `else` with a block, or another `if`. -/
theorem selectionRest_takes (eval : Expression D) (left : StmtTree D .compoundStatement)
    (ts : List (Token D)) :
    Meets (fun _ ↦ True) (selectionRest self eval left) ts fun s rest ↦
      .mark .ifMark :: .mark .lparen :: (eval.tokens ++ .mark .rparen :: (left.tokens ++ ts)) =
        s.tokens ++ rest := by
  refine meets_get_bind.2 ?_
  split
  · refine meets_set_bind.2 (meets_ite.2 ⟨fun _ ↦ ?_, fun _ ↦ ?_⟩)
    · exact (h _).then fun right ts₁ h₁ ↦ meets_pure.2 (by simp [h₁, StmtTree.tokens])
    · exact (h _).then fun right ts₁ h₁ ↦ meets_pure.2 (by simp [h₁, StmtTree.tokens])
  · exact meets_pure.2 (by simp [StmtTree.tokens])

include he in
/-- What follows the `=` of a declaration: an expression, or a list in braces. -/
theorem initializer_takes (t : DeclType) (name : Str) (ts : List (Token D)) :
    Meets (fun _ ↦ True) (initializer expr t name) ts fun s rest ↦
      t.elemType.token :: .identifier name :: (t.brackets ++ .mark .assign :: ts) =
        s.tokens ++ rest := by
  refine meets_get_bind.2 ?_
  split
  · split
    · refine meets_set_bind.2 ((he _).then fun es ts₁ h₁ ↦ (expect_takes _).then fun _ ts₂ h₂ ↦ ?_)
      refine (expect_takes _).then fun _ ts₃ h₃ ↦ meets_pure.2 ?_
      simp [h₁, h₂, h₃, StmtTree.tokens]
    · exact trivial
  · refine (he _).then fun e ts₁ h₁ ↦ (expect_takes _).then fun _ ts₂ h₂ ↦ meets_pure.2 ?_
    simp [h₁, h₂, StmtTree.tokens]

include he in
/-- What follows the name in a declaration. -/
theorem declarationRest_takes (t : ElemType) (name : Str) (ts : List (Token D)) :
    Meets (fun _ ↦ True) (declarationRest expr t name) ts fun s rest ↦
      t.token :: .identifier name :: ts = s.tokens ++ rest := by
  refine meets_get_bind.2 ?_
  split
  · exact meets_set_bind.2 (meets_pure.2 rfl)
  · exact initializer_takes he (.elem t) name _
  · exact meets_set_bind.2 (meets_pure.2 rfl)
  · exact initializer_takes he (.array t) name _
  · refine (expect_takes _).then fun _ ts₁ h₁ ↦ (he _).then fun e ts₂ h₂ ↦ ?_
    refine (expect_takes _).then fun _ ts₃ h₃ ↦ (expect_takes _).then fun _ ts₄ h₄ ↦ meets_pure.2 ?_
    simp [h₁, h₂, h₃, h₄, StmtTree.tokens]

include he h in
/-- `iteration_statement` -/
theorem iterationBase_takes : Takes (iterationBase expr self) StmtTree.tokens := by
  refine fun ts ↦ meets_get_bind.2 ?_
  split
  · refine meets_set_bind.2 ((expect_takes _).then fun _ ts₁ h₁ ↦ (h _).then fun init ts₂ h₂ ↦ ?_)
    refine (h _).then fun eval ts₃ h₃ ↦ (he _).then fun step ts₄ h₄ ↦ ?_
    refine (expect_takes _).then fun _ ts₅ h₅ ↦ (h _).then fun body ts₆ h₆ ↦ meets_pure.2 ?_
    simp [h₁, h₂, h₃, h₄, h₅, h₆, StmtTree.tokens]
  · refine (expect_takes _).then fun _ ts₁ h₁ ↦ (parenthesized_takes he).then fun eval ts₂ h₂ ↦ ?_
    refine (h _).then fun body ts₃ h₃ ↦ meets_pure.2 ?_
    simp [h₁, h₂, h₃, StmtTree.tokens]

include he in
/-- `jump_statement` -/
theorem jumpBase_takes : Takes (jumpBase expr) StmtTree.tokens := by
  refine fun ts ↦ meets_get_bind.2 ?_
  split
  · exact meets_set_bind.2 (meets_pure.2 rfl)
  · exact meets_set_bind.2 (meets_pure.2 rfl)
  · exact meets_set_bind.2 (meets_pure.2 rfl)
  · refine (expect_takes _).then fun _ ts₁ h₁ ↦ (he _).then fun e ts₂ h₂ ↦ ?_
    refine (expect_takes _).then fun _ ts₃ h₃ ↦ meets_pure.2 ?_
    simp [h₁, h₂, h₃, StmtTree.tokens]

include h in
/-- `statement`: the first token tells which kind it is. -/
theorem statementBase_takes : Takes (statementBase self) StmtTree.tokens := by
  refine fun ts ↦ meets_get_bind.2 ?_
  split <;> exact (h _).then fun s rest hs ↦ meets_pure.2 hs

include he h

/-- The shortest form of each nonterminal. -/
theorem stmtBase_takes (nt : StmtNT) : Takes (stmtBase expr self nt) StmtTree.tokens := by
  intro ts
  cases nt with
  | compoundStatement =>
    refine (expect_takes _).then fun _ ts₁ h₁ ↦ (h _).then fun body ts₂ h₂ ↦ ?_
    refine (expect_takes _).then fun _ ts₃ h₃ ↦ meets_pure.2 ?_
    simp [h₁, h₂, h₃, StmtTree.tokens]
  | selectionStatement =>
    refine (expect_takes _).then fun _ ts₁ h₁ ↦ (parenthesized_takes he).then fun eval ts₂ h₂ ↦ ?_
    refine (h _).then fun left ts₃ h₃ ↦ ?_
    refine (selectionRest_takes h eval left ts₃).mono fun s rest hs ↦ ?_
    rw [← hs]
    simp [h₁, h₂, h₃]
  | expressionStatement =>
    refine meets_get_bind.2 (meets_ite.2 ⟨fun _ ↦ ?_, fun _ ↦ ?_⟩)
    · exact (expect_takes _).then fun _ ts₁ h₁ ↦ meets_pure.2 h₁
    · refine (he _).then fun e ts₁ h₁ ↦ (expect_takes _).then fun _ ts₂ h₂ ↦ meets_pure.2 ?_
      simp [h₁, h₂, StmtTree.tokens]
  | declarationStatement =>
    refine elementType_takes.then fun t ts₁ h₁ ↦ identifier_takes.then fun name ts₂ h₂ ↦ ?_
    refine (declarationRest_takes he t name ts₂).mono fun s rest hs ↦ ?_
    rw [← hs, h₁, h₂]
    rfl
  | iterationStatement => exact iterationBase_takes he h ts
  | jumpStatement => exact jumpBase_takes he ts
  | statement => exact statementBase_takes h ts
  | statementList => exact meets_pure.2 rfl

omit he in
/-- A list of statements is extended by another one. -/
theorem stmtMore_takes (nt : StmtNT) (s : StmtTree D nt) (ts : List (Token D)) :
    Meets (fun _ ↦ True) (stmtMore self nt s) ts fun s' rest ↦
      s.tokens ++ ts = s'.tokens ++ rest := by
  cases nt with
  | statementList =>
    exact (h _).then fun s' rest hs ↦ meets_pure.2 (by simp [hs, StmtTree.tokens])
  | _ => exact meets_pure.2 rfl

end StmtSound

/-- **Soundness**: each level takes what it returns, if the one below does. -/
theorem parseStmt_takes (n : ℕ) : StmtSound (parseStmt n : ∀ nt, Parse D (StmtTree D nt)) := by
  induction n with
  | zero => exact fun nt ts ↦ trivial
  | succ n ih =>
    exact fun nt ↦ Phrase.takes_succ (P := nt.phrase) (stmtBase_takes (parseExpr_takes n) ih nt)
      (stmtMore_takes ih nt)

/-! ### The first tokens -/

/-- A declaration begins with a type. -/
def beginsDeclaration : List (Token D) → Bool
  | .type _ :: _ => true
  | .identifier _ :: .identifier _ :: _ => true
  | _ => false

/-- The token is an `IDENTIFIER`. -/
def isIdentifier : Token D → Bool
  | .identifier _ => true
  | _ => false

/-- No expression begins as a declaration does. -/
theorem ExprTree.not_beginsDeclaration {nt : ExprNT} (e : ExprTree D nt) {rest : List (Token D)}
    (hrest : nextIs isIdentifier rest = false) : beginsDeclaration (e.tokens ++ rest) = false := by
  induction e generalizing rest with
  | identifier name =>
    cases rest with
    | nil => rfl
    | cons t ts => cases t <;> first | rfl | cases hrest
  | dot e name ih | access e i ih _ | bin l op h e right ih _ | assign e right ih _
  | next e right ih _ =>
    rw [tokens, List.append_assoc]
    exact ih rfl
  | primary e ih | bare e ih | operand l e ih | logicalOr e ih | first e ih => exact ih hrest
  | unary op e ih => cases op <;> rfl
  | _ => rfl

/-- A type is no mark. -/
theorem ElemType.isMark_token (t : ElemType) (m : Mark) : isMark m (t.token : Token D) = false := by
  cases t <;> rfl

/-- Neither `else` nor `}` begins a statement. -/
theorem StmtTree.exists_tokens {nt : StmtNT} (s : StmtTree D nt) (hnt : nt ≠ .statementList) :
    ∃ t ts, s.tokens = t :: ts ∧ isMark .elseMark t = false ∧ isMark .rbrace t = false := by
  induction s with
  | expression e =>
    obtain ⟨t, ts, h, ht⟩ := e.exists_tokens
    refine ⟨t, _, by rw [tokens, h]; rfl, ?_⟩
    cases t with
    | mark m => cases m <;> first | exact ⟨rfl, rfl⟩ | cases ht
    | _ => exact ⟨rfl, rfl⟩
  | parameter p => exact ⟨_, _, rfl, p.vType.elemType.isMark_token _, p.vType.elemType.isMark_token _⟩
  | newArray t name size => exact ⟨_, _, rfl, t.isMark_token _, t.isMark_token _⟩
  | newAssign t name e => exact ⟨_, _, rfl, t.elemType.isMark_token _, t.elemType.isMark_token _⟩
  | newAssignSep t _ name es =>
    exact ⟨_, _, rfl, t.elemType.isMark_token _, t.elemType.isMark_token _⟩
  | ofCompound s ih | ofSelection s ih | ofExpression s ih | ofDeclaration s ih | ofIteration s ih
  | ofJump s ih => exact ih (by simp)
  | nil => exact absurd rfl hnt
  | snoc list s => exact absurd rfl hnt
  | _ => exact ⟨_, _, rfl, rfl, rfl⟩

/-- A declaration begins with its type and its name. -/
theorem StmtTree.exists_token_identifier (s : StmtTree D .declarationStatement) :
    ∃ (t : ElemType) (name : Str) (ts : List (Token D)),
      s.tokens = t.token :: .identifier name :: ts := by
  cases s <;> exact ⟨_, _, _, rfl⟩

/-- A block begins with its brace. -/
theorem StmtTree.exists_lbrace (s : StmtTree D .compoundStatement) :
    ∃ ts, s.tokens = .mark .lbrace :: ts := by
  cases s; exact ⟨_, rfl⟩

/-- A selection begins with its `if`. -/
theorem StmtTree.exists_ifMark (s : StmtTree D .selectionStatement) :
    ∃ ts, s.tokens = .mark .ifMark :: ts := by
  cases s <;> exact ⟨_, rfl⟩

/-- A loop begins with its word. -/
theorem StmtTree.exists_iteration (s : StmtTree D .iterationStatement) :
    ∃ m ts, s.tokens = .mark m :: ts ∧ (m = .whileMark ∨ m = .forMark) := by
  cases s with
  | loop eval body => exact ⟨_, _, rfl, .inl rfl⟩
  | forLoop init eval step body => exact ⟨_, _, rfl, .inr rfl⟩

/-- A jump begins with its word. -/
theorem StmtTree.exists_jump (s : StmtTree D .jumpStatement) :
    ∃ m ts, s.tokens = .mark m :: ts ∧
      (m = .continueMark ∨ m = .breakMark ∨ m = .returnMark) := by
  cases s with
  | continueStatement => exact ⟨_, _, rfl, .inl rfl⟩
  | breakStatement => exact ⟨_, _, rfl, .inr (.inl rfl)⟩
  | returnStatement e => exact ⟨_, _, rfl, .inr (.inr rfl)⟩
  | returnEmpty => exact ⟨_, _, rfl, .inr (.inr rfl)⟩

/-! ### Completeness -/

/-- A type is there. -/
theorem runs_elementType (t : ElemType) (ts : List (Token D)) :
    Runs elementType (t.token :: ts) t ts := by
  cases t <;> exact runs_token rfl

/-- An expression ends before a mark that ends it. -/
theorem ExprTree.runs_mark {e : Expression D} {n : ℕ} {m : Mark} {rest : List (Token D)}
    (hn : e.height ≤ n)
    (hm : (ExprNT.expr .assignExpression).continuedBy (.mark m : Token D) = false) :
    Runs (parseExpr n (.expr .assignExpression)) (e.tokens ++ .mark m :: rest) e (.mark m :: rest) :=
  e.reads.runs_mark hn hm

namespace StmtTree

/-- The parser finds the tree. -/
def Reads {nt : StmtNT} (s : StmtTree D nt) : Prop := nt.phrase.Reads s

/-- A tree that no extension has made is found as the shortest form of its nonterminal. -/
theorem reads_of_base {nt : StmtNT} {s : StmtTree D nt} (hspine : s.spine = 0)
    (h : ∀ n rest, s.height ≤ n + 1 → nt.phrase.Pauses rest →
      Runs (stmtBase (parseExpr n) (parseStmt n) nt) (s.tokens ++ rest) s rest) : s.Reads :=
  Phrase.reads_of_base hspine h

/-- A statement is read whole in front of what does not go on with it. -/
theorem Reads.runs {nt : StmtNT} {s : StmtTree D nt} {n : ℕ} {rest : List (Token D)} (h : s.Reads)
    (hn : s.height ≤ n) (hstop : nextIs nt.continuedBy rest = false) :
    Runs (parseStmt n nt) (s.tokens ++ rest) s rest := by
  rw [← StmtNT.parse_phrase]
  exact Phrase.Reads.runs h hn hstop

/-- A production with this one part. -/
theorem Reads.runs_map {nt nt' : StmtNT} {s : StmtTree D nt} {n : ℕ} {rest : List (Token D)}
    (g : StmtTree D nt → StmtTree D nt') (h : s.Reads) (hn : s.height ≤ n)
    (hstop : nextIs nt.continuedBy rest = false) :
    Runs (do return g (← parseStmt n nt) : Parse D _) (s.tokens ++ rest) (g s) rest :=
  (h.runs hn hstop).map

/-- No statement begins with `else`. -/
theorem nextIs_else {nt : StmtNT} (s : StmtTree D nt) (hnt : nt ≠ .statementList)
    (rest : List (Token D)) : nextIs (isMark .elseMark) (s.tokens ++ rest) = false := by
  obtain ⟨t, ts, h, ht, -⟩ := s.exists_tokens hnt
  rw [h]
  exact ht

/-- Whatever statement comes next, the list is extended. -/
theorem nextIs_extendedBy {nt : StmtNT} (s : StmtTree D nt) (hnt : nt ≠ .statementList)
    (rest : List (Token D)) : nextIs StmtNT.statementList.extendedBy (s.tokens ++ rest) = true := by
  obtain ⟨t, ts, h, helse, hbrace⟩ := s.exists_tokens hnt
  rw [h]
  show (!isMark .rbrace t && !isMark .elseMark t) = true
  rw [helse, hbrace]
  rfl

/-- A test that no token passes. -/
theorem nextIs_false (ts : List (Token D)) : nextIs (fun _ ↦ false) ts = false := by
  cases ts <;> rfl

/-- A nonterminal without left recursion stops where it pauses. -/
theorem nextIs_continuedBy {nt : StmtNT} (hnt : nt ≠ .statementList) {rest : List (Token D)}
    (h : nt.phrase.Pauses rest) : nextIs nt.continuedBy rest = false := by
  refine nextIs_mono h fun t ht ↦ ?_
  cases nt <;> first | exact absurd rfl hnt | simpa [StmtNT.phrase, StmtNT.extendedBy] using ht

variable {n : ℕ} {rest : List (Token D)}

/-- An expression begins with no brace, so it is not taken for a list. -/
theorem runs_initializer {t : DeclType} {e : Expression D} (hn : e.height ≤ n) (name : Str) :
    Runs (initializer (parseExpr n) t name) (e.tokens ++ .mark .semicolon :: rest)
      (newAssign t name e) rest := by
  have hrun : Runs (do
      let e ← parseExpr n (.expr .assignExpression)
      expect .semicolon
      return newAssign t name e : Parse D _) (e.tokens ++ .mark .semicolon :: rest)
      (newAssign t name e) rest :=
    (ExprTree.runs_mark hn rfl).bind <| (runs_expect _ _).bind (runs_pure.2 ⟨rfl, rfl⟩)
  refine runs_get_bind.2 ?_
  obtain ⟨t, ts, he, ht⟩ := e.exists_tokens
  rw [he] at hrun ⊢
  cases t with
  | mark m => cases m <;> first | exact absurd ht Bool.false_ne_true | exact hrun
  | _ => exact hrun

/-- A list in braces. -/
theorem runs_initializer_sep {t : DeclType} (ht : t.takesList = true) {es : ExprTree D .expressionSep}
    (hn : es.height ≤ n) (name : Str) :
    Runs (initializer (parseExpr n) t name)
      (.mark .lbrace :: (es.tokens ++ .mark .rbrace :: .mark .semicolon :: rest))
      (newAssignSep t ht name es) rest := by
  refine runs_get_bind.2 ?_
  show Runs (if h : t.takesList = true then _ else _) _ _ _
  rw [dif_pos ht]
  exact runs_set_bind.2 <| (es.reads.runs_sep hn rfl).bind <| (runs_expect _ _).bind <|
    (runs_expect _ _).bind (runs_pure.2 ⟨rfl, rfl⟩)

/-- An array with its size. -/
theorem runs_newArray {t : ElemType} {e : Expression D} (hn : e.height ≤ n) (name : Str) :
    Runs (declarationRest (parseExpr n) t name)
      (.mark .lbracket :: (e.tokens ++ .mark .rbracket :: .mark .semicolon :: rest))
      (newArray t name e) rest := by
  have hrun : Runs (do
      expect .lbracket
      let size ← parseExpr n (.expr .assignExpression)
      expect .rbracket
      expect .semicolon
      return newArray t name size : Parse D _)
      (.mark .lbracket :: (e.tokens ++ .mark .rbracket :: .mark .semicolon :: rest))
      (newArray t name e) rest :=
    (runs_expect _ _).bind <| (ExprTree.runs_mark hn rfl).bind <| (runs_expect _ _).bind <|
      (runs_expect _ _).bind (runs_pure.2 ⟨rfl, rfl⟩)
  refine runs_get_bind.2 ?_
  obtain ⟨t', ts, he, ht⟩ := e.exists_tokens
  rw [he] at hrun ⊢
  cases t' with
  | mark m => cases m <;> first | exact absurd ht Bool.false_ne_true | exact hrun
  | _ => exact hrun

/-- `declaration_statement`. The second and the third token tell the forms apart. -/
theorem reads_declaration (s : StmtTree D .declarationStatement) : s.Reads := by
  refine reads_of_base (by cases s <;> rfl) fun n rest hn _ ↦ ?_
  cases s with
  | parameter p =>
    obtain ⟨t, name⟩ := p
    cases t with
    | elem t => exact (runs_elementType t _).bind <| (runs_identifier name _).bind rfl
    | array t => exact (runs_elementType t _).bind <| (runs_identifier name _).bind rfl
  | newArray t name e =>
    simp only [tokens, List.cons_append, List.append_assoc, List.nil_append]
    exact (runs_elementType t _).bind <| (runs_identifier name _).bind <|
      runs_newArray (Nat.le_of_succ_le_succ hn) name
  | newAssign t name e =>
    have hinit : Runs (initializer (parseExpr n) t name) (e.tokens ++ .mark .semicolon :: rest)
        (newAssign t name e) rest := runs_initializer (Nat.le_of_succ_le_succ hn) name
    simp only [tokens, List.cons_append, List.append_assoc, List.nil_append]
    cases t with
    | elem t => exact (runs_elementType t _).bind <| (runs_identifier name _).bind hinit
    | array t => exact (runs_elementType t _).bind <| (runs_identifier name _).bind hinit
  | newAssignSep t ht name es =>
    have hinit : Runs (initializer (parseExpr n) t name)
        (.mark .lbrace :: (es.tokens ++ .mark .rbrace :: .mark .semicolon :: rest))
        (newAssignSep t ht name es) rest := runs_initializer_sep ht (Nat.le_of_succ_le_succ hn) name
    simp only [tokens, List.cons_append, List.append_assoc, List.nil_append]
    cases t with
    | elem t => exact (runs_elementType t _).bind <| (runs_identifier name _).bind hinit
    | array t => exact (runs_elementType t _).bind <| (runs_identifier name _).bind hinit

/-- `jump_statement` -/
theorem reads_jump (s : StmtTree D .jumpStatement) : s.Reads := by
  refine reads_of_base (by cases s <;> rfl) fun n rest hn _ ↦ ?_
  cases s with
  | returnStatement e =>
    have hrun : Runs (do
        expect .returnMark
        let e ← parseExpr n (.expr .assignExpression)
        expect .semicolon
        return returnStatement e : Parse D _)
        (.mark .returnMark :: (e.tokens ++ .mark .semicolon :: rest)) (returnStatement e) rest :=
      (runs_expect _ _).bind <| (ExprTree.runs_mark (Nat.le_of_succ_le_succ hn) rfl).bind <|
        (runs_expect _ _).bind (runs_pure.2 ⟨rfl, rfl⟩)
    simp only [tokens, List.cons_append, List.append_assoc, List.nil_append]
    refine runs_get_bind.2 ?_
    obtain ⟨t, ts, he, ht⟩ := e.exists_tokens
    rw [he] at hrun ⊢
    cases t with
    | mark m => cases m <;> first | exact absurd ht Bool.false_ne_true | exact hrun
    | _ => exact hrun
  | _ => rfl

/-- `expression_statement` -/
theorem reads_expressionStatement (s : StmtTree D .expressionStatement) : s.Reads := by
  refine reads_of_base (by cases s <;> rfl) fun n rest hn _ ↦ ?_
  cases s with
  | empty => rfl
  | expression e =>
    have hnext : nextIs (isMark .semicolon) (e.tokens ++ .mark .semicolon :: rest) = false := by
      refine e.nextIs_tokens (fun t ht ↦ ?_) _
      cases t with
      | mark m => cases m <;> first | rfl | cases ht
      | _ => rfl
    simp only [tokens, List.append_assoc, List.cons_append, List.nil_append]
    refine runs_get_bind.2 ?_
    rw [if_neg (by simp [hnext])]
    exact (ExprTree.runs_mark (Nat.le_of_succ_le_succ hn) rfl).bind <|
      (runs_expect _ _).bind (runs_pure.2 ⟨rfl, rfl⟩)

/-- `compound_statement` -/
theorem reads_compound {body : StmtTree D .statementList} (h : body.Reads) :
    (compound body).Reads := by
  refine reads_of_base rfl fun n rest hn _ ↦ ?_
  simp only [tokens, List.cons_append, List.append_assoc, List.nil_append]
  exact (runs_expect _ _).bind <| (h.runs (Nat.le_of_succ_le_succ hn) rfl).bind <|
    (runs_expect _ _).bind (runs_pure.2 ⟨rfl, rfl⟩)

/-- The condition and the first branch of an `if`. -/
theorem runs_selection {eval : Expression D} {left : StmtTree D .compoundStatement} (h : left.Reads)
    (hn : eval.height ≤ n) (hn' : left.height ≤ n) {ts : List (Token D)}
    {s : StmtTree D .selectionStatement}
    (hrest : Runs (selectionRest (parseStmt n) eval left) ts s rest) :
    Runs (stmtBase (parseExpr n) (parseStmt n) .selectionStatement) (.mark .ifMark :: .mark .lparen ::
      (eval.tokens ++ .mark .rparen :: (left.tokens ++ ts))) s rest :=
  (runs_expect _ _).bind <| (ExprTree.runs_parenthesized eval.reads hn).bind <|
    (h.runs hn' (by cases ts <;> rfl)).bind hrest

/-- An `if` without an `else`: no `else` follows it. -/
theorem reads_selection {eval : Expression D} {left : StmtTree D .compoundStatement}
    (h : left.Reads) : (selection eval left).Reads := by
  refine reads_of_base rfl fun n rest hn hrest ↦ ?_
  have hn : max eval.height left.height + 1 ≤ n + 1 := hn
  have hnext := nextIs_continuedBy (by simp) hrest
  simp only [tokens, List.cons_append, List.append_assoc]
  refine runs_selection h (by omega) (by omega) (runs_get_bind.2 ?_)
  -- an `else` here would belong to the selection
  cases rest with
  | nil => rfl
  | cons t ts =>
    cases t with
    | mark m => cases m <;> first | rfl | cases hnext
    | _ => rfl

/-- An `if` with an `else`. -/
theorem reads_selectionElse {eval : Expression D} {left right : StmtTree D .compoundStatement}
    (h : left.Reads) (hr : right.Reads) : (selectionElse eval left right).Reads := by
  refine reads_of_base rfl fun n rest hn hrest ↦ ?_
  have hn : max eval.height (max left.height right.height) + 1 ≤ n + 1 := hn
  have hright : Runs (do return selectionElse eval left (← parseStmt n .compoundStatement) :
      Parse D _) (right.tokens ++ rest) (selectionElse eval left right) rest :=
    (hr.runs (by omega) (by cases rest <;> rfl)).map
  simp only [tokens, List.cons_append, List.append_assoc]
  refine runs_selection h (by omega) (by omega) (runs_get_bind.2 (runs_set_bind.2 ?_))
  rw [if_neg (by cases right; simp [tokens, isMark])]
  exact hright

/-- An `if` whose `else` is another one. What may follow is the same for both. -/
theorem reads_selectionElseIf {eval : Expression D} {left : StmtTree D .compoundStatement}
    {right : StmtTree D .selectionStatement} (h : left.Reads) (hr : right.Reads) :
    (selectionElseIf eval left right).Reads := by
  refine reads_of_base rfl fun n rest hn hrest ↦ ?_
  have hn : max eval.height (max left.height right.height) + 1 ≤ n + 1 := hn
  have hright : Runs (do return selectionElseIf eval left (← parseStmt n .selectionStatement) :
      Parse D _) (right.tokens ++ rest) (selectionElseIf eval left right) rest :=
    (hr.runs (by omega) (nextIs_continuedBy (by simp) hrest)).map
  simp only [tokens, List.cons_append, List.append_assoc]
  refine runs_selection h (by omega) (by omega) (runs_get_bind.2 (runs_set_bind.2 ?_))
  rw [if_pos (by cases right <;> simp [tokens, isMark])]
  exact hright

/-- `while` -/
theorem reads_loop {eval : Expression D} {body : StmtTree D .compoundStatement} (h : body.Reads) :
    (loop eval body).Reads := by
  refine reads_of_base rfl fun n rest hn _ ↦ ?_
  have hn : max eval.height body.height + 1 ≤ n + 1 := hn
  have hrun : Runs (do
      expect .whileMark
      let eval ← parenthesized (parseExpr n)
      return loop eval (← parseStmt n .compoundStatement) : Parse D _)
      (.mark .whileMark :: .mark .lparen :: (eval.tokens ++ .mark .rparen :: (body.tokens ++ rest)))
      (loop eval body) rest :=
    (runs_expect _ _).bind <| (ExprTree.runs_parenthesized eval.reads (by omega)).bind <|
      (h.runs (by omega) (by cases rest <;> rfl)).map
  simp only [tokens, List.cons_append, List.append_assoc]
  exact hrun

/-- `for`. Its first part is a statement of any kind. -/
theorem reads_forLoop {init : StmtTree D .statement} {eval : StmtTree D .expressionStatement}
    {step : Expression D} {body : StmtTree D .compoundStatement} (hi : init.Reads)
    (he : eval.Reads) (hb : body.Reads) : (forLoop init eval step body).Reads := by
  refine reads_of_base rfl fun n rest hn _ ↦ ?_
  have hn : max (max init.height eval.height) (max step.height body.height) + 1 ≤ n + 1 := hn
  have hrun : Runs (do
      expect .lparen
      let init ← parseStmt n .statement
      let eval ← parseStmt n .expressionStatement
      let step ← parseExpr n (.expr .assignExpression)
      expect .rparen
      return forLoop init eval step (← parseStmt n .compoundStatement) : Parse D _)
      (.mark .lparen :: (init.tokens ++ (eval.tokens ++ (step.tokens ++ .mark .rparen ::
        (body.tokens ++ rest))))) (forLoop init eval step body) rest := by
    refine (runs_expect _ _).bind <| (hi.runs (by omega) (eval.nextIs_else (by simp) _)).bind <|
      (he.runs (by omega) ?_).bind <| (ExprTree.runs_mark (by omega) rfl).bind <|
        (runs_expect _ _).bind <| (hb.runs (by omega) (by cases rest <;> rfl)).map
    obtain ⟨t, ts, h, -⟩ := step.exists_tokens
    rw [h]
    rfl
  simp only [tokens, List.cons_append, List.append_assoc]
  exact hrun

/-- A block, which is told by its brace. -/
theorem reads_ofCompound {s : StmtTree D .compoundStatement} (h : s.Reads) :
    (ofCompound s).Reads := by
  refine reads_of_base rfl fun n rest hn _ ↦ runs_get_bind.2 ?_
  have hrun := h.runs_map ofCompound (Nat.le_of_succ_le_succ hn) (nextIs_false rest)
  obtain ⟨ts, hs⟩ := s.exists_lbrace
  rw [show (ofCompound s).tokens = s.tokens from rfl, hs]
  rw [hs] at hrun
  exact hrun

/-- A selection, which is told by its `if`. -/
theorem reads_ofSelection {s : StmtTree D .selectionStatement} (h : s.Reads) :
    (ofSelection s).Reads := by
  refine reads_of_base rfl fun n rest hn hrest ↦ runs_get_bind.2 ?_
  have hstop : nextIs StmtNT.statement.continuedBy rest = false := nextIs_continuedBy (by simp) hrest
  have hrun := h.runs_map ofSelection (Nat.le_of_succ_le_succ hn) hstop
  obtain ⟨ts, hs⟩ := s.exists_ifMark
  rw [show (ofSelection s).tokens = s.tokens from rfl, hs]
  rw [hs] at hrun
  exact hrun

/-- A loop, which is told by its word. -/
theorem reads_ofIteration {s : StmtTree D .iterationStatement} (h : s.Reads) :
    (ofIteration s).Reads := by
  refine reads_of_base rfl fun n rest hn _ ↦ runs_get_bind.2 ?_
  have hrun := h.runs_map ofIteration (Nat.le_of_succ_le_succ hn) (nextIs_false rest)
  obtain ⟨m, ts, hs, hm⟩ := s.exists_iteration
  rw [show (ofIteration s).tokens = s.tokens from rfl, hs]
  rw [hs] at hrun
  obtain rfl | rfl := hm
  · exact hrun
  · exact hrun

/-- A jump, which is told by its word. -/
theorem reads_ofJump {s : StmtTree D .jumpStatement} (h : s.Reads) : (ofJump s).Reads := by
  refine reads_of_base rfl fun n rest hn _ ↦ runs_get_bind.2 ?_
  have hrun := h.runs_map ofJump (Nat.le_of_succ_le_succ hn) (nextIs_false rest)
  obtain ⟨m, ts, hs, hm⟩ := s.exists_jump
  rw [show (ofJump s).tokens = s.tokens from rfl, hs]
  rw [hs] at hrun
  obtain rfl | rfl | rfl := hm
  · exact hrun
  · exact hrun
  · exact hrun

/-- A declaration, which is told by the name of a built-in type or by two names in a row. -/
theorem reads_ofDeclaration {s : StmtTree D .declarationStatement} (h : s.Reads) :
    (ofDeclaration s).Reads := by
  refine reads_of_base rfl fun n rest hn _ ↦ ?_
  have hrun : Runs (do return ofDeclaration (← parseStmt n .declarationStatement) : Parse D _)
      (s.tokens ++ rest) (ofDeclaration s) rest :=
    (h.runs (Nat.le_of_succ_le_succ hn) (by cases rest <;> rfl)).map
  refine runs_get_bind.2 ?_
  obtain ⟨t, name, ts, hs⟩ := s.exists_token_identifier
  rw [show (ofDeclaration s).tokens = s.tokens from rfl, hs]
  rw [hs] at hrun
  cases t <;> exact hrun

/-- An expression, or a semicolon alone. Nothing else begins as these do. -/
theorem reads_ofExpression {s : StmtTree D .expressionStatement} (h : s.Reads) :
    (ofExpression s).Reads := by
  refine reads_of_base rfl fun n rest hn _ ↦ ?_
  have hrun : Runs (do return ofExpression (← parseStmt n .expressionStatement) : Parse D _)
      (s.tokens ++ rest) (ofExpression s) rest :=
    (h.runs (Nat.le_of_succ_le_succ hn) (by cases rest <;> rfl)).map
  refine runs_get_bind.2 ?_
  cases s with
  | empty => exact hrun
  | expression e =>
    have hdecl : beginsDeclaration ((expression e).tokens ++ rest) = false := by
      simp only [tokens, List.append_assoc]
      exact e.not_beginsDeclaration rfl
    obtain ⟨t, ts, he, ht⟩ := e.exists_tokens
    have htokens : (expression e).tokens ++ rest = t :: (ts ++ .mark .semicolon :: rest) := by
      simp [tokens, he]
    rw [show (ofExpression (expression e)).tokens = (expression e).tokens from rfl]
    rw [htokens] at hrun hdecl ⊢
    cases t with
    -- a name, and behind it no other one
    | identifier name =>
      generalize ts ++ .mark .semicolon :: rest = ts' at hrun hdecl ⊢
      cases ts' with
      | nil => exact hrun
      | cons t' ts' =>
        cases t' with
        | identifier name' => cases hdecl
        | _ => exact hrun
    | mark m => cases m <;> first | exact absurd ht Bool.false_ne_true | exact hrun
    | type t => cases ht
    | _ => exact hrun

/-- The statement behind a list is its last one. -/
theorem reads_snoc {list : StmtTree D .statementList} {s : StmtTree D .statement} (h : list.Reads)
    (hs : s.Reads) : (snoc list s).Reads := by
  refine Phrase.Reads.extension (w := s.tokens) h rfl ?_ rfl (s.nextIs_extendedBy (by simp))
    fun n rest hn hrest ↦ ?_
  · show list.height ≤ max list.height s.height + 1
    omega
  · have hn : max list.height s.height + 1 ≤ n + 1 := hn
    refine (hs.runs (by omega) (nextIs_mono hrest fun t ht ↦ ?_)).map
    have ht : isMark .elseMark t = true := ht
    cases t with
    | mark m => cases m <;> first | rfl | cases ht
    | _ => cases ht

/-- **The parser finds every parse tree of a statement.** -/
theorem reads {nt : StmtNT} (s : StmtTree D nt) : s.Reads := by
  induction s with
  | compound body ih => exact reads_compound ih
  | selection eval left ih => exact reads_selection ih
  | selectionElse eval left right ih ihr => exact reads_selectionElse ih ihr
  | selectionElseIf eval left right ih ihr => exact reads_selectionElseIf ih ihr
  | empty => exact reads_expressionStatement _
  | expression e => exact reads_expressionStatement _
  | parameter p => exact reads_declaration _
  | newArray t name e => exact reads_declaration _
  | newAssign t name e => exact reads_declaration _
  | newAssignSep t ht name es => exact reads_declaration _
  | loop eval body ih => exact reads_loop ih
  | forLoop init eval step body ihi ihe ihb => exact reads_forLoop ihi ihe ihb
  | continueStatement => exact reads_jump _
  | breakStatement => exact reads_jump _
  | returnStatement e => exact reads_jump _
  | returnEmpty => exact reads_jump _
  | ofCompound s ih => exact reads_ofCompound ih
  | ofSelection s ih => exact reads_ofSelection ih
  | ofExpression s ih => exact reads_ofExpression ih
  | ofDeclaration s ih => exact reads_ofDeclaration ih
  | ofIteration s ih => exact reads_ofIteration ih
  | ofJump s ih => exact reads_ofJump ih
  | nil => exact reads_of_base rfl fun n rest _ _ ↦ rfl
  | snoc list s ih ihs => exact reads_snoc ih ihs

end StmtTree

end Meridian.MQL

import Meridian.MQL.StatementOrder

/-!
# The grammar of MQL

`MQL.ypp`. The parser that is generated from it is not part of the sources; what the grammar file
fixes is which token lists are programs and what the semantic actions do. So a constructor of
`ExprTree`, `StmtTree` and `GlobalTree` is a production, `tokens` is what a parse tree derives, and
`action` runs the semantic actions in the order of the reductions: the parts of a production from left
to right, then its own.

Productions that differ in one token only are one constructor with that token as a parameter, and
`IDENTIFIER` and `type` in the place of a type are an `ElemType`.

* `expression` is another name for `assign_expression`.
* The right operand of `&` is a `relational_expression`, as in the source.
* The actions allocate nodes only: the literals (`INT`, `DOUBLE` and `STRING` nodes) have addresses,
  of the other nodes the number is kept. Without a node left the actions stop here; `Accepted` shows that
  the programs a node receives never get there.
* A `NEW_VAR` node in a list of parameters or in a struct has its size as a literal too.
-/

namespace Meridian.MQL

/-- Why a program is refused. `outOfRange` is the exception of `string::erase`. -/
inductive ParseError where
  | syntaxError
  | outOfNodes
  | outOfRange
  deriving DecidableEq, Repr

/-! ### Tokens -/

/-- The tokens that have no value and are no operator, type or native function with parameters. -/
inductive Mark where
  | assign
  | not
  | semicolon
  | comma
  | dot
  | lparen
  | rparen
  | lbrace
  | rbrace
  | lbracket
  | rbracket
  | ifMark
  | elseMark
  | whileMark
  | forMark
  | breakMark
  | continueMark
  | returnMark
  | structMark
  | rpc
  | print
  | println
  | getSelf
  deriving DecidableEq, Repr

/-- What `yylex` returns, with `YYSTYPE`. -/
inductive Token (D : Type) where
  | identifier (sVal : Str)
  | stringLiteral (sVal : Str)
  | intConstant (iVal : Int32)
  | doubleConstant (dVal : D)
  | type (t : BasicType)
  | op (op : BinOp)
  | native1 (f : NativeFunc1)
  | native2 (f : NativeFunc2)
  | getDistance (kind : DistanceKind)
  | mark (m : Mark)
  deriving DecidableEq

/-! ### Nonterminals -/

/-- The nonterminals with operators on their left, the ones that bind tighter first. -/
inductive BinLevel where
  | multiplicative
  | additive
  | shift
  | relational
  | equality
  | and
  | exclusiveOr
  | inclusiveOr
  | logicalAnd
  | logicalOr
  deriving DecidableEq, Repr

/-- The nonterminals of expressions. -/
inductive ExprClass where
  | primaryExpression
  | postfixExpression
  | unaryExpression
  | binary (l : BinLevel)
  | assignExpression
  deriving DecidableEq, Repr

/-- An expression or `expression_sep`. -/
inductive ExprNT where
  | expr (c : ExprClass)
  | expressionSep
  deriving DecidableEq, Repr

/-- The nonterminals of statements. -/
inductive StmtNT where
  | compoundStatement
  | selectionStatement
  | expressionStatement
  | declarationStatement
  | iterationStatement
  | jumpStatement
  | statement
  | statementList
  deriving DecidableEq, Repr

/-- The nonterminal that an operator belongs to. -/
def BinOp.level : BinOp → BinLevel
  | mul | div | mod => .multiplicative
  | add | sub => .additive
  | left | right => .shift
  | lt | gt | le | ge => .relational
  | eq | ne => .equality
  | bitAnd => .and
  | bitXor => .exclusiveOr
  | bitOr => .inclusiveOr
  | and => .logicalAnd
  | or => .logicalOr

/-- What the expressions of a level are made of. -/
def BinLevel.operand : BinLevel → ExprClass
  | multiplicative => .unaryExpression
  | additive => .binary .multiplicative
  | shift => .binary .additive
  | relational => .binary .shift
  | equality => .binary .relational
  | and => .binary .equality
  | exclusiveOr => .binary .and
  | inclusiveOr => .binary .exclusiveOr
  | logicalAnd => .binary .inclusiveOr
  | logicalOr => .binary .logicalAnd

/-- What stands behind an operator of the level. -/
def BinLevel.rightOperand : BinLevel → ExprClass
  | and => .binary .relational
  | l => l.operand

/-! ### Expressions -/

/-- The parse trees of expressions. -/
inductive ExprTree (D : Type) : ExprNT → Type where
  | identifier (name : Str) : ExprTree D (.expr .primaryExpression)
  | intConstant (i : Int32) : ExprTree D (.expr .primaryExpression)
  | doubleConstant (d : D) : ExprTree D (.expr .primaryExpression)
  | stringLiteral (s : Str) : ExprTree D (.expr .primaryExpression)
  | paren (e : ExprTree D (.expr .assignExpression)) : ExprTree D (.expr .primaryExpression)
  | primary (e : ExprTree D (.expr .primaryExpression)) : ExprTree D (.expr .postfixExpression)
  | dot (e : ExprTree D (.expr .postfixExpression)) (name : Str) :
      ExprTree D (.expr .postfixExpression)
  | access (e : ExprTree D (.expr .postfixExpression)) (i : ExprTree D (.expr .assignExpression)) :
      ExprTree D (.expr .postfixExpression)
  | print (e : ExprTree D (.expr .assignExpression)) : ExprTree D (.expr .postfixExpression)
  | println (e : ExprTree D (.expr .assignExpression)) : ExprTree D (.expr .postfixExpression)
  | call (name : Str) (param : ExprTree D .expressionSep) : ExprTree D (.expr .postfixExpression)
  | callEmpty (name : Str) : ExprTree D (.expr .postfixExpression)
  | rpc (dest : ExprTree D (.expr .assignExpression)) (name : Str)
      (param : ExprTree D .expressionSep) : ExprTree D (.expr .postfixExpression)
  | rpcEmpty (dest : ExprTree D (.expr .assignExpression)) (name : Str) :
      ExprTree D (.expr .postfixExpression)
  | native1 (f : NativeFunc1) (e : ExprTree D (.expr .assignExpression)) :
      ExprTree D (.expr .postfixExpression)
  | native2 (f : NativeFunc2) (e₁ e₂ : ExprTree D (.expr .assignExpression)) :
      ExprTree D (.expr .postfixExpression)
  | getSelf : ExprTree D (.expr .postfixExpression)
  | getDistance (kind : DistanceKind) (e₂ e₃ : ExprTree D (.expr .assignExpression)) :
      ExprTree D (.expr .postfixExpression)
  | getDistanceFrom (kind : DistanceKind) (e₁ e₂ e₃ : ExprTree D (.expr .assignExpression)) :
      ExprTree D (.expr .postfixExpression)
  | bare (e : ExprTree D (.expr .postfixExpression)) : ExprTree D (.expr .unaryExpression)
  | plus (e : ExprTree D (.expr .postfixExpression)) : ExprTree D (.expr .unaryExpression)
  | unary (op : UnaryOp) (e : ExprTree D (.expr .postfixExpression)) :
      ExprTree D (.expr .unaryExpression)
  | operand (l : BinLevel) (e : ExprTree D (.expr l.operand)) : ExprTree D (.expr (.binary l))
  | bin (l : BinLevel) (op : BinOp) (h : op.level = l) (left : ExprTree D (.expr (.binary l)))
      (right : ExprTree D (.expr l.rightOperand)) : ExprTree D (.expr (.binary l))
  | logicalOr (e : ExprTree D (.expr (.binary .logicalOr))) : ExprTree D (.expr .assignExpression)
  | assign (left : ExprTree D (.expr .postfixExpression))
      (right : ExprTree D (.expr .assignExpression)) : ExprTree D (.expr .assignExpression)
  | first (e : ExprTree D (.expr .assignExpression)) : ExprTree D .expressionSep
  | next (es : ExprTree D .expressionSep) (e : ExprTree D (.expr .assignExpression)) :
      ExprTree D .expressionSep

/-- The nonterminal `expression`. -/
abbrev Expression (D : Type) := ExprTree D (.expr .assignExpression)

variable {D : Type}

/-- The token of a unary operator. -/
def UnaryOp.token : UnaryOp → Token D
  | minus => .op .sub
  | not => .mark .not

namespace ExprTree

/-- What the tree derives. -/
def tokens {nt : ExprNT} : ExprTree D nt → List (Token D)
  | identifier name => [.identifier name]
  | intConstant i => [.intConstant i]
  | doubleConstant d => [.doubleConstant d]
  | stringLiteral s => [.stringLiteral s]
  | paren e => .mark .lparen :: (e.tokens ++ [.mark .rparen])
  | primary e => e.tokens
  | dot e name => e.tokens ++ [.mark .dot, .identifier name]
  | access e i => e.tokens ++ .mark .lbracket :: (i.tokens ++ [.mark .rbracket])
  | print e => .mark .print :: .mark .lparen :: (e.tokens ++ [.mark .rparen])
  | println e => .mark .println :: .mark .lparen :: (e.tokens ++ [.mark .rparen])
  | call name param => .identifier name :: .mark .lparen :: (param.tokens ++ [.mark .rparen])
  | callEmpty name => [.identifier name, .mark .lparen, .mark .rparen]
  | rpc dest name param =>
    .mark .rpc :: .mark .lparen :: (dest.tokens ++ .mark .comma :: .identifier name ::
      .mark .comma :: (param.tokens ++ [.mark .rparen]))
  | rpcEmpty dest name =>
    .mark .rpc :: .mark .lparen ::
      (dest.tokens ++ [.mark .comma, .identifier name, .mark .rparen])
  | native1 f e => .native1 f :: .mark .lparen :: (e.tokens ++ [.mark .rparen])
  | native2 f e₁ e₂ =>
    .native2 f :: .mark .lparen ::
      (e₁.tokens ++ .mark .comma :: (e₂.tokens ++ [.mark .rparen]))
  | getSelf => [.mark .getSelf, .mark .lparen, .mark .rparen]
  | getDistance kind e₂ e₃ =>
    .getDistance kind :: .mark .lparen ::
      (e₂.tokens ++ .mark .comma :: (e₃.tokens ++ [.mark .rparen]))
  | getDistanceFrom kind e₁ e₂ e₃ =>
    .getDistance kind :: .mark .lparen ::
      (e₁.tokens ++ .mark .comma :: (e₂.tokens ++ .mark .comma :: (e₃.tokens ++ [.mark .rparen])))
  | bare e => e.tokens
  | plus e => .op .add :: e.tokens
  | unary op e => op.token :: e.tokens
  | operand _ e => e.tokens
  | bin _ op _ left right => left.tokens ++ .op op :: right.tokens
  | logicalOr e => e.tokens
  | assign left right => left.tokens ++ .mark .assign :: right.tokens
  | first e => e.tokens
  | next es e => es.tokens ++ .mark .comma :: e.tokens

/-- Every expression derives a token. -/
theorem tokens_length_pos {nt : ExprNT} (e : ExprTree D nt) : 0 < e.tokens.length := by
  induction e <;> simp only [tokens, List.length_append, List.length_cons] <;> omega

end ExprTree

/-! ### Statements -/

/-- The token of a type. -/
def ElemType.token : ElemType → Token D
  | basic t => .type t
  | adt name => .identifier name

/-- The elements. -/
def DeclType.elemType : DeclType → ElemType
  | elem t => t
  | array t => t

/-- The brackets of an array. -/
def DeclType.brackets : DeclType → List (Token D)
  | elem _ => []
  | array _ => [.mark .lbracket, .mark .rbracket]

/-- A variable of this type can be initialised with a list in braces. -/
def DeclType.takesList : DeclType → Bool
  | elem (.basic _) => false
  | _ => true

/-- The production of `parameter_adt` for this parameter. -/
def Param.tokens (p : Param) : List (Token D) :=
  p.vType.elemType.token :: .identifier p.vName :: p.vType.brackets

/-- The parse trees of statements. -/
inductive StmtTree (D : Type) : StmtNT → Type where
  | compound (body : StmtTree D .statementList) : StmtTree D .compoundStatement
  | selection (eval : Expression D) (left : StmtTree D .compoundStatement) :
      StmtTree D .selectionStatement
  | selectionElse (eval : Expression D) (left right : StmtTree D .compoundStatement) :
      StmtTree D .selectionStatement
  | selectionElseIf (eval : Expression D) (left : StmtTree D .compoundStatement)
      (right : StmtTree D .selectionStatement) : StmtTree D .selectionStatement
  | empty : StmtTree D .expressionStatement
  | expression (e : Expression D) : StmtTree D .expressionStatement
  | parameter (p : Param) : StmtTree D .declarationStatement
  | newArray (t : ElemType) (name : Str) (size : Expression D) : StmtTree D .declarationStatement
  | newAssign (t : DeclType) (name : Str) (e : Expression D) : StmtTree D .declarationStatement
  | newAssignSep (t : DeclType) (h : t.takesList = true) (name : Str)
      (es : ExprTree D .expressionSep) : StmtTree D .declarationStatement
  | loop (eval : Expression D) (body : StmtTree D .compoundStatement) :
      StmtTree D .iterationStatement
  | forLoop (init : StmtTree D .statement) (eval : StmtTree D .expressionStatement)
      (step : Expression D) (body : StmtTree D .compoundStatement) : StmtTree D .iterationStatement
  | continueStatement : StmtTree D .jumpStatement
  | breakStatement : StmtTree D .jumpStatement
  | returnStatement (e : Expression D) : StmtTree D .jumpStatement
  | returnEmpty : StmtTree D .jumpStatement
  | ofCompound (s : StmtTree D .compoundStatement) : StmtTree D .statement
  | ofSelection (s : StmtTree D .selectionStatement) : StmtTree D .statement
  | ofExpression (s : StmtTree D .expressionStatement) : StmtTree D .statement
  | ofDeclaration (s : StmtTree D .declarationStatement) : StmtTree D .statement
  | ofIteration (s : StmtTree D .iterationStatement) : StmtTree D .statement
  | ofJump (s : StmtTree D .jumpStatement) : StmtTree D .statement
  | nil : StmtTree D .statementList
  | snoc (list : StmtTree D .statementList) (s : StmtTree D .statement) : StmtTree D .statementList

namespace StmtTree

/-- What the tree derives. -/
def tokens {nt : StmtNT} : StmtTree D nt → List (Token D)
  | compound body => .mark .lbrace :: (body.tokens ++ [.mark .rbrace])
  | selection eval left =>
    .mark .ifMark :: .mark .lparen :: (eval.tokens ++ .mark .rparen :: left.tokens)
  | selectionElse eval left right =>
    .mark .ifMark :: .mark .lparen ::
      (eval.tokens ++ .mark .rparen :: (left.tokens ++ .mark .elseMark :: right.tokens))
  | selectionElseIf eval left right =>
    .mark .ifMark :: .mark .lparen ::
      (eval.tokens ++ .mark .rparen :: (left.tokens ++ .mark .elseMark :: right.tokens))
  | empty => [.mark .semicolon]
  | expression e => e.tokens ++ [.mark .semicolon]
  | parameter p => p.tokens ++ [.mark .semicolon]
  | newArray t name size =>
    t.token :: .identifier name :: .mark .lbracket ::
      (size.tokens ++ [.mark .rbracket, .mark .semicolon])
  | newAssign t name e =>
    t.elemType.token :: .identifier name :: (t.brackets ++ .mark .assign ::
      (e.tokens ++ [.mark .semicolon]))
  | newAssignSep t _ name es =>
    t.elemType.token :: .identifier name :: (t.brackets ++ .mark .assign :: .mark .lbrace ::
      (es.tokens ++ [.mark .rbrace, .mark .semicolon]))
  | loop eval body =>
    .mark .whileMark :: .mark .lparen :: (eval.tokens ++ .mark .rparen :: body.tokens)
  | forLoop init eval step body =>
    .mark .forMark :: .mark .lparen ::
      (init.tokens ++ (eval.tokens ++ (step.tokens ++ .mark .rparen :: body.tokens)))
  | continueStatement => [.mark .continueMark, .mark .semicolon]
  | breakStatement => [.mark .breakMark, .mark .semicolon]
  | returnStatement e => .mark .returnMark :: (e.tokens ++ [.mark .semicolon])
  | returnEmpty => [.mark .returnMark, .mark .semicolon]
  | ofCompound s => s.tokens
  | ofSelection s => s.tokens
  | ofExpression s => s.tokens
  | ofDeclaration s => s.tokens
  | ofIteration s => s.tokens
  | ofJump s => s.tokens
  | nil => []
  | snoc list s => list.tokens ++ s.tokens

/-- Every statement derives a token. -/
theorem tokens_length_pos {nt : StmtNT} (s : StmtTree D nt) (hnt : nt ≠ .statementList) :
    0 < s.tokens.length := by
  induction s with
  | ofCompound s ih | ofSelection s ih | ofExpression s ih | ofDeclaration s ih | ofIteration s ih
  | ofJump s ih => exact ih (by simp)
  | nil | snoc => exact absurd rfl hnt
  | _ => simp only [tokens, Param.tokens, List.length_append, List.length_cons]; omega

end StmtTree

/-! ### Declarations -/

/-- What stands behind the name in a `parameter_array_fixed`. -/
inductive FieldSize where
  | scalar
  | empty
  | fixed (size : Int32)
  deriving DecidableEq, Repr

/-- The parse trees of `parameter_array_fixed`. -/
structure FieldTree where
  type : BasicType
  name : Str
  size : FieldSize
  deriving DecidableEq, Repr

/-- What the tree derives, with the semicolon of `parameter_list`. -/
def FieldTree.tokens (f : FieldTree) : List (Token D) :=
  .type f.type :: .identifier f.name ::
    match f.size with
    | .scalar => [.mark .semicolon]
    | .empty => [.mark .lbracket, .mark .rbracket, .mark .semicolon]
    | .fixed size => [.mark .lbracket, .intConstant size, .mark .rbracket, .mark .semicolon]

/-- `parameter_sep`, or nothing. -/
def paramTokens : List Param → List (Token D)
  | [] => []
  | p :: ps => p.tokens ++ ps.flatMap fun q ↦ .mark .comma :: q.tokens

/-- The parse trees of `global_declaration`. A list of fields is not empty. -/
inductive GlobalTree (D : Type) where
  | func (type : DeclType) (name : Str) (param : List Param) (body : StmtTree D .statementList)
  | struct (name : Str) (field : FieldTree) (fields : List FieldTree)

/-- What the tree derives. -/
def GlobalTree.tokens : GlobalTree D → List (Token D)
  | func type name param body =>
    type.elemType.token :: (type.brackets ++ .identifier name :: .mark .lparen ::
      (paramTokens param ++ .mark .rparen :: .mark .lbrace :: (body.tokens ++ [.mark .rbrace])))
  | struct name field fields =>
    .mark .structMark :: .identifier name :: .mark .lbrace ::
      ((field :: fields).flatMap FieldTree.tokens ++ [.mark .rbrace, .mark .semicolon])

/-- What a list of declarations derives: `input_state`. -/
def inputTokens (decls : List (GlobalTree D)) : List (Token D) := decls.flatMap GlobalTree.tokens

end Meridian.MQL

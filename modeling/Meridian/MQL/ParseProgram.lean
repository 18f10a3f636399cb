import Meridian.MQL.ParseStmt

/-!
# Deciding the grammar: programs

The parser for `start_state`: a list of functions and structs. It is total, since no phrase is nested
deeper than a multiple of its length. `parseProgram_eq_ok` says that it decides the grammar of
`MQL.ypp` and finds the parse tree, which is then the only one.
-/

namespace Meridian.MQL

open Lib

variable {D : Type}

/-- The brackets of an array, or none. -/
def declType (t : ElemType) : Parse D DeclType := do
  if nextIs (isMark .lbracket) (← get) then
    expect .lbracket
    expect .rbracket
    return .array t
  else return .elem t

/-- A `parameter_adt`. -/
def parseParam : Parse D Param := do
  let t ← elementType
  let name ← identifier
  return ⟨← declType t, name⟩

/-- A `parameter_sep` in front of `)`, or nothing. -/
def parseParams (n : ℕ) : Parse D (List Param) := do
  if nextIs (isMark .rparen) (← get) then return []
  else
    let p ← parseParam
    let ps ← many .syntaxError (isMark .comma) (do expect .comma; parseParam) n
    return p :: ps

/-- The next token has to be one of the types that have a name of their own. -/
def basicType : Parse D BasicType :=
  token .syntaxError fun t ↦
    match t with
    | .type t => some t
    | _ => none

/-- What stands behind the name of a field. -/
def fieldSize : Parse D FieldSize := do
  match ← get with
  | .mark .semicolon :: ts => set ts; return .scalar
  | .mark .lbracket :: .mark .rbracket :: .mark .semicolon :: ts => set ts; return .empty
  | .mark .lbracket :: .intConstant size :: .mark .rbracket :: .mark .semicolon :: ts =>
    set ts
    return .fixed size
  | _ => throw .syntaxError

/-- A `parameter_array_fixed` with its semicolon. -/
def parseField : Parse D FieldTree := do
  let t ← basicType
  let name ← identifier
  return ⟨t, name, ← fieldSize⟩

/-- A `global_declaration`. -/
def parseGlobal (n : ℕ) : Parse D (GlobalTree D) := do
  match ← get with
  | .mark .structMark :: ts =>
    set ts
    let name ← identifier
    expect .lbrace
    let field ← parseField
    let fields ← many .syntaxError (fun t ↦ !isMark .rbrace t) parseField n
    expect .rbrace
    expect .semicolon
    return .struct name field fields
  | _ =>
    let type ← declType (← elementType)
    let name ← identifier
    expect .lparen
    let param ← parseParams n
    expect .rparen
    expect .lbrace
    let body ← parseStmt n .statementList
    expect .rbrace
    return .func type name param body

/-- `input_state`. -/
def parseInput (n : ℕ) : Parse D (List (GlobalTree D)) :=
  many .syntaxError (fun _ ↦ true) (parseGlobal n) n

/-- The parse tree of a program. -/
def parseProgram (ts : List (Token D)) : Except ParseError (List (GlobalTree D)) := do
  let (decls, _) ← parseInput (16 * ts.length + 2) ts
  return decls

/-! ### Soundness -/

theorem declType_meets (t : ElemType) (ts : List (Token D)) :
    Meets (fun _ ↦ True) (declType t) ts fun type rest ↦
      type.elemType = t ∧ ts = type.brackets ++ rest := by
  refine meets_get_bind.2 (meets_ite.2 ⟨fun _ ↦ ?_, fun _ ↦ meets_pure.2 ⟨rfl, rfl⟩⟩)
  refine (expect_takes _).then fun _ ts₁ h₁ ↦ (expect_takes _).then fun _ ts₂ h₂ ↦ meets_pure.2 ?_
  exact ⟨rfl, by rw [h₁, h₂]; rfl⟩

theorem parseParam_takes : Takes (parseParam : Parse D Param) Param.tokens := by
  intro ts
  refine elementType_takes.then fun t ts₁ h₁ ↦ identifier_takes.then fun name ts₂ h₂ ↦ ?_
  refine meets_bind.2 ((declType_meets t ts₂).mono fun type ts₃ h ↦ meets_pure.2 ?_)
  rw [h₁, h₂, h.2, ← h.1]
  rfl

theorem parseParams_takes (n : ℕ) : Takes (parseParams n : Parse D (List Param)) paramTokens := by
  refine fun ts ↦ meets_get_bind.2 (meets_ite.2 ⟨fun _ ↦ meets_pure.2 rfl, fun _ ↦ ?_⟩)
  refine parseParam_takes.then fun p ts₁ h₁ ↦ meets_bind.2 ?_
  have hitem : Takes (do expect .comma; parseParam : Parse D Param)
      fun q ↦ .mark .comma :: q.tokens := by
    refine fun ts ↦ (expect_takes _).then fun _ ts₁ h₁ ↦ ?_
    exact (parseParam_takes ts₁).mono fun q ts₂ h₂ ↦ by rw [h₁, h₂]; rfl
  refine (many_meets trivial hitem).mono fun ps ts₂ h₂ ↦ meets_pure.2 ?_
  rw [h₁, h₂.1, paramTokens, List.append_assoc]

theorem basicType_takes : Takes (basicType : Parse D BasicType) fun t ↦ [.type t] := by
  refine takes_token fun t e h ↦ ?_
  cases t <;> simp only [Option.some.injEq, reduceCtorEq] at h
  rw [h]

theorem parseField_takes : Takes (parseField : Parse D FieldTree) FieldTree.tokens := by
  intro ts
  refine basicType_takes.then fun t ts₁ h₁ ↦ identifier_takes.then fun name ts₂ h₂ ↦ ?_
  rw [h₁, h₂]
  refine meets_bind.2 (meets_get_bind.2 ?_)
  split
  · exact meets_set_bind.2 (meets_pure.2 rfl)
  · exact meets_set_bind.2 (meets_pure.2 rfl)
  · exact meets_set_bind.2 (meets_pure.2 rfl)
  · exact trivial

theorem parseGlobal_takes (n : ℕ) :
    Takes (parseGlobal n : Parse D (GlobalTree D)) GlobalTree.tokens := by
  refine fun ts ↦ meets_get_bind.2 ?_
  split
  · refine meets_set_bind.2 (identifier_takes.then fun name ts₁ h₁ ↦ ?_)
    refine (expect_takes _).then fun _ ts₂ h₂ ↦ parseField_takes.then fun field ts₃ h₃ ↦ ?_
    refine meets_bind.2 ((many_meets trivial parseField_takes).mono fun fields ts₄ h₄ ↦ ?_)
    refine (expect_takes _).then fun _ ts₅ h₅ ↦ (expect_takes _).then fun _ ts₆ h₆ ↦ meets_pure.2 ?_
    simp [h₁, h₂, h₃, h₄.1, h₅, h₆, GlobalTree.tokens]
  · refine elementType_takes.then fun t ts₁ h₁ ↦ meets_bind.2 ?_
    refine (declType_meets t ts₁).mono fun type ts₂ h₂ ↦ identifier_takes.then fun name ts₃ h₃ ↦ ?_
    refine (expect_takes _).then fun _ ts₄ h₄ ↦ (parseParams_takes n).then fun param ts₅ h₅ ↦ ?_
    refine (expect_takes _).then fun _ ts₆ h₆ ↦ (expect_takes _).then fun _ ts₇ h₇ ↦ ?_
    refine (parseStmt_takes n .statementList).then fun body ts₈ h₈ ↦ ?_
    refine (expect_takes _).then fun _ ts₉ h₉ ↦ meets_pure.2 ?_
    simp [h₁, h₂.2, ← h₂.1, h₃, h₄, h₅, h₆, h₇, h₈, h₉, GlobalTree.tokens]

theorem parseInput_meets (n : ℕ) (ts : List (Token D)) :
    Meets (fun _ ↦ True) (parseInput n) ts fun decls _ ↦ inputTokens decls = ts := by
  refine (many_meets trivial (parseGlobal_takes n)).mono fun decls rest h ↦ ?_
  cases rest with
  | nil => exact (h.1.trans (List.append_nil _)).symm
  | cons t ts => cases h.2

/-! ### Depth -/

/-- How much deeper a tree can be than its length says. -/
def ExprNT.slack : ExprNT → ℕ
  | .expr .primaryExpression => 1
  | .expr .postfixExpression => 2
  | .expr .unaryExpression => 3
  | .expr (.binary l) => 4 + l.rank
  | .expr .assignExpression => 14
  | .expressionSep => 15

theorem ExprNT.slack_operand (l : BinLevel) :
    (ExprNT.expr l.operand).slack + 1 = (ExprNT.expr (.binary l)).slack := by
  cases l <;> rfl

theorem ExprNT.slack_le (nt : ExprNT) : nt.slack ≤ 15 := by
  cases nt with
  | expr c =>
    cases c with
    | binary l => cases l <;> decide
    | _ => decide
  | expressionSep => decide

/-- An expression is nested at most so deep. -/
theorem ExprTree.height_le {nt : ExprNT} (e : ExprTree D nt) :
    e.height + 16 ≤ 16 * e.tokens.length + nt.slack := by
  induction e with
  | operand l e ih =>
    have hslack := ExprNT.slack_operand l
    simp only [height, tokens]
    omega
  | bin l op h left right ih ihr =>
    have hright := (ExprNT.expr l.rightOperand).slack_le
    have hpos := left.tokens_length_pos
    have hpos' := right.tokens_length_pos
    simp only [height, tokens, List.length_append, List.length_cons]
    omega
  | first e ih =>
    simp only [height, tokens, ExprNT.slack] at ih ⊢
    omega
  | logicalOr e ih =>
    simp only [height, tokens, ExprNT.slack, BinLevel.rank] at ih ⊢
    omega
  | _ =>
    simp only [height, tokens, ExprNT.slack, List.length_append, List.length_cons,
      List.length_nil] at *
    omega

/-- How much deeper a tree can be than its length says. -/
def StmtNT.slack : StmtNT → ℕ
  | .statementList => 2
  | .statement => 1
  | _ => 0

/-- A statement is nested at most so deep. -/
theorem StmtTree.height_le {nt : StmtNT} (s : StmtTree D nt) :
    s.height ≤ 16 * s.tokens.length + nt.slack := by
  induction s with
  | newArray t name e | expression e | newAssign t name e | returnStatement e =>
    have he := e.height_le
    simp only [height, tokens, StmtNT.slack, ExprNT.slack, List.length_append, List.length_cons,
      List.length_nil] at *
    omega
  | newAssignSep t h name es =>
    have hes := es.height_le
    simp only [height, tokens, StmtNT.slack, ExprNT.slack, List.length_append, List.length_cons,
      List.length_nil] at *
    omega
  | selection eval left ih | loop eval body ih =>
    have heval := eval.height_le
    simp only [height, tokens, StmtNT.slack, ExprNT.slack, List.length_append, List.length_cons] at *
    omega
  | selectionElse eval left right ih ihr | selectionElseIf eval left right ih ihr =>
    have heval := eval.height_le
    simp only [height, tokens, StmtNT.slack, ExprNT.slack, List.length_append, List.length_cons] at *
    omega
  | forLoop init eval step body ihi ihe ihb =>
    have hstep := step.height_le
    simp only [height, tokens, StmtNT.slack, ExprNT.slack, List.length_append, List.length_cons] at *
    omega
  | snoc list s ih ihs =>
    have hpos := s.tokens_length_pos (by simp)
    simp only [height, tokens, StmtNT.slack, List.length_append] at *
    omega
  | _ =>
    simp only [height, tokens, Param.tokens, StmtNT.slack, List.length_append, List.length_cons,
      List.length_nil] at *
    omega

/-! ### Completeness -/

theorem runs_declType (type : DeclType) {rest : List (Token D)}
    (hrest : nextIs (isMark .lbracket) rest = false) :
    Runs (declType type.elemType) (type.brackets ++ rest) type rest := by
  cases type with
  | elem t =>
    refine runs_get_bind.2 ?_
    rw [if_neg (by simp [DeclType.brackets, hrest])]
    exact runs_pure.2 ⟨rfl, rfl⟩
  | array t => rfl

theorem runs_parseParam (p : Param) {rest : List (Token D)}
    (hrest : nextIs (isMark .lbracket) rest = false) :
    Runs parseParam (p.tokens ++ rest) p rest :=
  (runs_elementType _ _).bind <| (runs_identifier _ _).bind (runs_declType _ hrest).map

theorem runs_parseParams {n : ℕ} (param : List Param) (rest : List (Token D))
    (hn : (paramTokens param : List (Token D)).length ≤ n) :
    Runs (parseParams n) (paramTokens param ++ .mark .rparen :: rest) param
      (.mark .rparen :: rest) := by
  cases param with
  | nil => rfl
  | cons p ps =>
    rw [paramTokens, List.length_append] at hn
    have hps : Runs (many .syntaxError (isMark .comma) (do expect .comma; parseParam) n)
        (ps.flatMap (fun q ↦ .mark .comma :: q.tokens) ++ .mark .rparen :: rest) ps
        (.mark .rparen :: rest) :=
      runs_many (P := fun ts ↦ nextIs (isMark .lbracket) ts = false)
        (fun q _ ts hts ↦ (runs_expect _ _).bind (runs_parseParam q hts)) (fun _ _ _ ↦ rfl)
        (fun _ _ _ ↦ rfl) (by omega) rfl rfl
    have hnext : nextIs (isMark .lbracket)
        (ps.flatMap (fun q ↦ .mark .comma :: q.tokens) ++ .mark .rparen :: rest) = false := by
      cases ps <;> rfl
    refine runs_get_bind.2 ?_
    rw [if_neg (by simp [paramTokens, Param.tokens, p.vType.elemType.isMark_token]), paramTokens,
      List.append_assoc]
    exact (runs_parseParam p hnext).bind <| hps.bind (runs_pure.2 ⟨rfl, rfl⟩)

theorem runs_parseField (f : FieldTree) (rest : List (Token D)) :
    Runs parseField (f.tokens ++ rest) f rest := by
  obtain ⟨t, name, size⟩ := f
  cases size <;> rfl

theorem runs_parseGlobal {n : ℕ} (g : GlobalTree D) (rest : List (Token D))
    (hn : 16 * g.tokens.length + 2 ≤ n) : Runs (parseGlobal n) (g.tokens ++ rest) g rest := by
  cases g with
  | struct name field fields =>
    simp only [GlobalTree.tokens, List.flatMap_cons, List.cons_append, List.append_assoc,
      List.length_cons, List.length_append, List.nil_append] at hn ⊢
    refine runs_get_bind.2 (runs_set_bind.2 ((runs_identifier _ _).bind ?_))
    refine (runs_expect _ _).bind <| (runs_parseField _ _).bind ?_
    refine (runs_many (P := fun _ ↦ True) (fun f _ ts _ ↦ runs_parseField f ts) (fun _ _ _ ↦ rfl)
      (fun _ _ _ ↦ trivial) (by omega) trivial rfl).bind ?_
    exact (runs_expect _ _).bind <| (runs_expect _ _).bind (runs_pure.2 ⟨rfl, rfl⟩)
  | func type name param body =>
    have hbody := body.height_le
    simp only [GlobalTree.tokens, StmtNT.slack, List.cons_append, List.append_assoc,
      List.length_cons, List.length_append, List.nil_append] at hn hbody ⊢
    have hrun : Runs (do
        let type ← declType (← elementType)
        let name ← identifier
        expect .lparen
        let param ← parseParams n
        expect .rparen
        expect .lbrace
        let body ← parseStmt n .statementList
        expect .rbrace
        return .func type name param body : Parse D (GlobalTree D))
        (type.elemType.token :: (type.brackets ++ .identifier name :: .mark .lparen ::
          (paramTokens param ++ .mark .rparen :: .mark .lbrace :: (body.tokens ++
            .mark .rbrace :: rest)))) (.func type name param body) rest :=
      (runs_elementType _ _).bind <| (runs_declType _ rfl).bind <| (runs_identifier _ _).bind <|
        (runs_expect _ _).bind <| (runs_parseParams param _ (by omega)).bind <|
        (runs_expect _ _).bind <| (runs_expect _ _).bind <|
        (body.reads.runs (by omega) rfl).bind <| (runs_expect _ _).bind (runs_pure.2 ⟨rfl, rfl⟩)
    refine runs_get_bind.2 ?_
    cases type with
    | elem t => cases t <;> exact hrun
    | array t => cases t <;> exact hrun

/-- The parser finds every parse tree of a program. -/
theorem runs_parseInput {n : ℕ} (decls : List (GlobalTree D))
    (hn : 16 * (inputTokens decls).length + 2 ≤ n) :
    Runs (parseInput n) (inputTokens decls) decls [] := by
  have hlength : ∀ g ∈ decls, g.tokens.length ≤ (inputTokens decls).length := by
    intro g hg
    exact (List.sublist_flatten_of_mem (List.mem_map_of_mem hg)).length_le
  have h : Runs (parseInput n) (decls.flatMap GlobalTree.tokens ++ []) decls [] :=
    runs_many (P := fun _ ↦ True)
      (fun g hg rest _ ↦ runs_parseGlobal g rest (by have := hlength g hg; omega))
      (fun g _ rest ↦ by cases g <;> rfl) (fun _ _ _ ↦ trivial)
      (by show (inputTokens decls).length ≤ n; omega) trivial rfl
  rw [List.append_nil] at h
  exact h

theorem parseProgram_inputTokens (decls : List (GlobalTree D)) :
    parseProgram (inputTokens decls) = .ok decls := by
  have hrun : parseInput (16 * (inputTokens decls).length + 2) (inputTokens decls) = .ok (decls, []) :=
    runs_parseInput decls le_rfl
  rw [parseProgram, hrun]
  rfl

/-- The parser decides the grammar, and finds the parse tree. -/
theorem parseProgram_eq_ok (ts : List (Token D)) (decls : List (GlobalTree D)) :
    parseProgram ts = .ok decls ↔ inputTokens decls = ts := by
  refine ⟨fun h ↦ ?_, fun h ↦ h ▸ parseProgram_inputTokens decls⟩
  have htakes := parseInput_meets (16 * ts.length + 2) ts
  cases hrun : parseInput (16 * ts.length + 2) ts with
  | error e =>
    rw [parseProgram, hrun] at h
    cases h
  | ok r =>
    rw [parseProgram, hrun] at h
    cases h
    rw [Meets, hrun] at htakes
    exact htakes

/-- **A token list has at most one parse tree.** -/
theorem inputTokens_injective (D : Type) :
    Function.Injective (inputTokens : List (GlobalTree D) → List (Token D)) := by
  intro decls decls' h
  have hparse := parseProgram_inputTokens decls
  rw [h, parseProgram_inputTokens] at hparse
  exact (Except.ok.inj hparse).symm

/-- `int f() { if (a < b & c) { } else if (d) { } else { } }` -/
def elseTokens : List (Token ℕ) :=
  [.type .int, .identifier [102], .mark .lparen, .mark .rparen, .mark .lbrace, .mark .ifMark,
    .mark .lparen, .identifier [97], .op .lt, .identifier [98], .op .bitAnd, .identifier [99],
    .mark .rparen, .mark .lbrace, .mark .rbrace, .mark .elseMark, .mark .ifMark, .mark .lparen,
    .identifier [100], .mark .rparen, .mark .lbrace, .mark .rbrace, .mark .elseMark, .mark .lbrace,
    .mark .rbrace, .mark .rbrace]

/-- The last branch belongs to the second `if`, and there is no other way to read the program. -/
theorem inputTokens_injective_else :
    ∃! decls : List (GlobalTree ℕ), inputTokens decls = elseTokens := by
  have hparse : (parseProgram elseTokens).toOption.isSome = true := by decide +kernel
  cases hrun : parseProgram elseTokens with
  | error e =>
    rw [hrun] at hparse
    cases hparse
  | ok decls =>
    have htokens := (parseProgram_eq_ok elseTokens decls).1 hrun
    exact ⟨decls, htokens, fun decls' h ↦ inputTokens_injective ℕ (h.trans htokens.symm)⟩

end Meridian.MQL

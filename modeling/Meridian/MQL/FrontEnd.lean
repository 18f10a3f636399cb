import Meridian.MQL.ActionNodes
import Meridian.MQL.Ownership
import Meridian.MQL.ParseProgram
import Meridian.MQL.Scanner

/-!
# From the text of a program to the program

`yyparse` with the scanner and the actions: what the text of a `DSL_REQUEST` becomes. The scanner gets
the text in blocks of the size that it asks for (`ParserInputBuffer`).

* `yyparse_accepts_iff`: the texts that are accepted are those that the grammar derives. There are
  always enough nodes for a program of the size that a node receives.
* `yyparse_spaced`: every program can be written down.
* `yyparse_names`: the name of the return value is none that a program can use.
* `yyparse_reachable_wf`: what runs is in order, from the text on.
-/

namespace Meridian.MQL

open Lib

variable {D : Type}

/-! ### The text -/

/-- `ParserInputBuffer`, once it has been created. -/
structure ParserInputBuffer where
  buf : Str
  bufCounter : ℕ
  bufCounter_le : bufCounter ≤ buf.length

namespace ParserInputBuffer

/-- `get_buf` -/
def getBuf (b : ParserInputBuffer) (size : ℕ) : Str × ParserInputBuffer :=
  if h : size ≤ b.buf.length - b.bufCounter then
    ((b.buf.drop b.bufCounter).take size,
      ⟨b.buf, b.bufCounter + size, by have := b.bufCounter_le; omega⟩)
  else (b.buf.drop b.bufCounter, ⟨b.buf, b.buf.length, le_rfl⟩)

/-- What the scanner gets when it asks for blocks of these sizes. -/
def readAll (b : ParserInputBuffer) : List ℕ → Str
  | [] => []
  | size :: sizes => (b.getBuf size).1 ++ (b.getBuf size).2.readAll sizes

/-- The scanner reads the text from its beginning, whatever the sizes of its blocks are. -/
theorem readAll_eq (b : ParserInputBuffer) (sizes : List ℕ) :
    b.readAll sizes = (b.buf.drop b.bufCounter).take sizes.sum := by
  induction sizes generalizing b with
  | nil => rfl
  | cons size sizes ih =>
    rw [readAll, ih, List.sum_cons, getBuf]
    split
    · rw [List.take_add, List.drop_drop]
    · next h =>
      rw [List.drop_length, List.take_nil, List.append_nil,
        List.take_of_length_le (by rw [List.length_drop]; omega)]

end ParserInputBuffer

/-! ### `yyparse` -/

/-- The nodes of the constructor. -/
def tokenNodes : ℕ := 3

/-- The nodes of `addGlobalModule`. -/
def globalModuleNodes : ℕ := 14

/-- The program of a parse tree, where the parameters have taken some nodes. -/
def buildProgram (received : ℕ) (trees : List (GlobalTree D)) : Except ParseError (Program D) := do
  let (decls, t) ← actionInput trees ⟨received, [], tokenNodes⟩
  return ⟨t.literals, t.textNodes + globalModuleNodes, decls⟩

/-- `yyparse`, where it returns 0. -/
def yyparse (atof : Str → D) (received : ℕ) (text : Str) : Except ParseError (Program D) := do
  buildProgram received (← parseProgram (← scan atof text))

variable {atof : Str → D} {received : ℕ} {text : Str} {trees : List (GlobalTree D)}
  {program : Program D}

theorem yyparse_of_scan (h : scan atof text = .ok (inputTokens trees)) :
    yyparse atof received text = buildProgram received trees := by
  rw [yyparse, h]
  show (do buildProgram received (← parseProgram (inputTokens trees))) = _
  rw [parseProgram_inputTokens]
  rfl

theorem yyparse_eq_ok_iff : yyparse atof received text = .ok program ↔
    ∃ trees, scan atof text = .ok (inputTokens trees) ∧ buildProgram received trees = .ok program := by
  refine ⟨fun h ↦ ?_, fun ⟨trees, hscan, h⟩ ↦ (yyparse_of_scan hscan).trans h⟩
  cases hscan : scan atof text with
  | error e =>
    rw [yyparse, hscan] at h
    cases h
  | ok ts =>
    cases hparse : parseProgram ts with
    | error e =>
      rw [yyparse, hscan] at h
      have h : (do buildProgram received (← parseProgram ts)) = .ok program := h
      rw [hparse] at h
      cases h
    | ok trees =>
      obtain rfl := (parseProgram_eq_ok ts trees).1 hparse
      exact ⟨trees, rfl, (yyparse_of_scan hscan).symm.trans h⟩

/-- What the actions of a program do. -/
theorem buildProgram_meets (S : TextScope) (h : ∀ t ∈ inputTokens trees, S.token t) :
    (∀ program, buildProgram received trees = .ok program →
      program.literals.length ≤ Value.MAX_AST_PER_STACK ∧
        ∀ d ∈ program.decls, DeclOk S program.literals.length d) ∧
    ∀ e, buildProgram received trees = .error e →
      Value.MAX_AST_PER_STACK < received + tokenNodes + (inputTokens trees).length := by
  have hmeets := actionInput_makes trees h ⟨received, [], tokenNodes⟩
  cases hrun : actionInput trees ⟨received, [], tokenNodes⟩ with
  | error e =>
    refine ⟨fun program hp ↦ ?_, fun e' _ ↦ ?_⟩
    · rw [buildProgram, hrun] at hp
      cases hp
    · have := (hmeets.fail hrun).2
      simp only [Text.astAllocationCount, List.length_nil] at this
      omega
  | ok r =>
    refine ⟨fun program hp ↦ ?_, fun e' he' ↦ ?_⟩
    · rw [buildProgram, hrun] at hp
      cases hp
      obtain ⟨hgrows, hdecls⟩ := hmeets.run hrun
      refine ⟨?_, hdecls⟩
      have hlimit := hgrows.limit
      have hreceived := hgrows.received
      simp only [Text.astAllocationCount, List.length_nil] at hlimit hreceived
      show r.2.literals.length ≤ _
      have : tokenNodes ≤ Value.MAX_AST_PER_STACK := by decide
      omega
    · rw [buildProgram, hrun] at he'
      cases he'

/-! ### Which texts are accepted -/

/-- Nothing is asked of the text. -/
def anyText : TextScope := ⟨True, fun _ ↦ True⟩

theorem anyText_token (t : Token D) : anyText.token t := by
  cases t with
  | mark m => cases m <;> trivial
  | _ => trivial

/-- **What is accepted is what the grammar derives**: where the nodes are enough for one of each byte,
no program is refused for want of nodes. -/
theorem yyparse_accepts_iff (atof : Str → D) (received : ℕ) (text : Str)
    (hroom : received + tokenNodes + text.length ≤ Value.MAX_AST_PER_STACK) :
    (∃ program, yyparse atof received text = .ok program) ↔
      ∃ trees, scan atof text = .ok (inputTokens trees) := by
  refine ⟨fun ⟨program, h⟩ ↦ ?_, fun ⟨trees, hscan⟩ ↦ ?_⟩
  · obtain ⟨trees, hscan, -⟩ := yyparse_eq_ok_iff.1 h
    exact ⟨trees, hscan⟩
  · rw [yyparse_of_scan hscan]
    have hlength := length_scan hscan
    cases hbuild : buildProgram received trees with
    | ok program => exact ⟨program, rfl⟩
    | error e =>
      have := (buildProgram_meets anyText fun t _ ↦ anyText_token t).2 e hbuild
      omega

/-- A postfix expression as an expression. -/
def postfixTree (e : ExprTree D (.expr .postfixExpression)) : Expression D :=
  .logicalOr (.operand .logicalOr (.operand .logicalAnd (.operand .inclusiveOr
    (.operand .exclusiveOr (.operand .and (.operand .equality (.operand .relational
      (.operand .shift (.operand .additive (.operand .multiplicative (.bare e)))))))))))

/-- `struct P { int x; }; int f(P p) { int y = p.x; return y; }` -/
def structTrees : List (GlobalTree ℕ) :=
  [.struct [80] ⟨.int, [120], .scalar⟩ [],
    .func (.elem (.basic .int)) [102] [⟨.elem (.adt [80]), [112]⟩]
      (.snoc (.snoc .nil (.ofDeclaration (.newAssign (.elem (.basic .int)) [121]
        (postfixTree (.dot (.primary (.identifier [112])) [120])))))
          (.ofJump (.returnStatement (postfixTree (.primary (.identifier [121]))))))]

/-- What it is written with. -/
def structTexts : List Str :=
  [ascii "struct", [80], ascii "\x7b", ascii "int", [120], ascii ";", ascii "\x7d", ascii ";",
    ascii "int", [102], ascii "(", [80], [112], ascii ")", ascii "\x7b",
    ascii "int", [121], ascii "=", [112], ascii ".", [120], ascii ";",
    ascii "return", [121], ascii ";", ascii "\x7d"]

theorem scan_structTexts :
    scan (fun _ ↦ 0) (spaced structTexts) = .ok (inputTokens structTrees) := by
  refine scan_spaced ?_
  -- names and fixed tokens in turn
  have hname {c : UInt8} (h : isIdentifierText [c] = true) (hc : [c] ∉ fixedTexts) :
      Spells (fun _ ↦ (0 : ℕ)) (.identifier [c]) [c] := .identifier h hc
  refine .cons (.fixed ?_) (.cons (hname rfl ?_) (.cons (.fixed ?_) (.cons (.fixed ?_)
    (.cons (hname rfl ?_) (.cons (.fixed ?_) (.cons (.fixed ?_) (.cons (.fixed ?_)
    (.cons (.fixed ?_) (.cons (hname rfl ?_) (.cons (.fixed ?_) (.cons (hname rfl ?_)
    (.cons (hname rfl ?_) (.cons (.fixed ?_) (.cons (.fixed ?_) (.cons (.fixed ?_)
    (.cons (hname rfl ?_) (.cons (.fixed ?_) (.cons (hname rfl ?_) (.cons (.fixed ?_)
    (.cons (hname rfl ?_) (.cons (.fixed ?_) (.cons (.fixed ?_) (.cons (hname rfl ?_)
    (.cons (.fixed ?_) (.cons (.fixed ?_) .nil)))))))))))))))))))))))))
  all_goals decide

/-- A struct, a parameter, a variable and references to both. -/
theorem yyparse_accepts_iff_struct :
    (∃ program, yyparse (fun _ ↦ 0) 1 (spaced structTexts) = .ok program) ∧
      ∃ trees : List (GlobalTree ℕ),
        scan (fun _ ↦ 0) (spaced structTexts) = .ok (inputTokens trees) := by
  have hiff := yyparse_accepts_iff (fun _ ↦ (0 : ℕ)) 1 (spaced structTexts) (by decide)
  exact ⟨hiff.2 ⟨structTrees, scan_structTexts⟩, structTrees, scan_structTexts⟩

/-- **Every program can be written down.** -/
theorem yyparse_spaced (atof : Str → D) (received : ℕ) (trees : List (GlobalTree D))
    (ws : List Str) (hws : List.Forall₂ (Spells atof) (inputTokens trees) ws) :
    scan atof (spaced ws) = .ok (inputTokens trees) ∧
      yyparse atof received (spaced ws) = buildProgram received trees :=
  ⟨scan_spaced hws, yyparse_of_scan (scan_spaced hws)⟩

/-- A primary expression as an expression. -/
def primaryTree (e : ExprTree D (.expr .primaryExpression)) : Expression D :=
  postfixTree (.primary e)

/-- A function that contains the literal `"\"}"`. -/
def quoteTrees : List (GlobalTree ℕ) :=
  [.func (.elem (.basic .int)) [102] []
    (.snoc .nil (.ofExpression (.expression (primaryTree (.stringLiteral [92, 34, 125])))))]

/-- What it is written with. -/
def quoteTexts : List Str :=
  [ascii "int", [102], ascii "(", ascii ")", ascii "\x7b", [34, 92, 34, 125, 34], ascii ";",
    ascii "\x7d"]

theorem quoteTexts_spells :
    List.Forall₂ (Spells fun _ ↦ 0) (inputTokens quoteTrees) quoteTexts := by
  refine .cons (.fixed ?_) (.cons (.identifier rfl (by decide)) (.cons (.fixed ?_) (.cons (.fixed ?_)
    (.cons (.fixed ?_) (.cons (.string (s := [92, 34, 125]) rfl (by decide)) (.cons (.fixed ?_)
      (.cons (.fixed ?_) .nil)))))))
  all_goals decide

theorem yyparse_spaced_quote :
    scan (fun _ ↦ 0) (spaced quoteTexts) = .ok (inputTokens quoteTrees) ∧
      yyparse (fun _ ↦ 0) 1 (spaced quoteTexts) = buildProgram 1 quoteTrees :=
  yyparse_spaced _ 1 _ _ quoteTexts_spells

/-! ### Names -/

/-- **The name of the return value is none of the program's**: of no variable, parameter, function,
struct or field. -/
theorem yyparse_names (h : yyparse atof received text = .ok program) :
    ∀ d ∈ program.decls, DeclOk ⟨True, (· ≠ returnString)⟩ program.literals.length d := by
  obtain ⟨trees, hscan, hbuild⟩ := yyparse_eq_ok_iff.1 h
  refine ((buildProgram_meets _ fun t ht ↦ ?_).1 program hbuild).2
  cases t with
  | identifier name =>
    have hname := (identifier_of_scan hscan ht).1
    rintro rfl
    cases hname
  | mark m => cases m <;> trivial
  | _ => trivial

/-- The program of `structTrees`. -/
def structProgram : Program ℕ :=
  ⟨[], 32, [.struct ⟨[80], [⟨.int, none, [120]⟩]⟩,
    .func ⟨.elem (.basic .int), [102], [⟨.elem (.adt [80]), [112]⟩],
      .ast (.returnNode (.refVar [121]))
        (.ast (.newVarAssign (.elem (.basic .int)) [121] (.refVarAdt (.refVar [112]) [120]))
          .empty)⟩]⟩

theorem yyparse_names_struct :
    yyparse (fun _ ↦ 0) 1 (spaced structTexts) = .ok structProgram ∧
      ∀ d ∈ structProgram.decls,
        DeclOk ⟨True, (· ≠ returnString)⟩ structProgram.literals.length d := by
  have hinput : actionInput structTrees ⟨1, [], tokenNodes⟩ =
      .ok (structProgram.decls, ⟨1, [], 18⟩) := by
    rw [actionInput, structTrees, List.mapM_cons, List.mapM_cons, List.mapM_nil]
    rfl
  have hparse : yyparse (fun _ ↦ 0) 1 (spaced structTexts) = .ok structProgram := by
    rw [yyparse_of_scan scan_structTexts, buildProgram, hinput]
    rfl
  exact ⟨hparse, yyparse_names hparse⟩

/-! ### What runs -/

/-- The tokens that ask another node. -/
def Token.isRemote : Token D → Bool
  | .mark .rpc => true
  | .getDistance _ => true
  | _ => false

/-- A text that asks no other node. -/
def localText : TextScope := ⟨False, fun _ ↦ True⟩

theorem textNode_of_textOk {n : ℕ} {a : Ast} (h : TextOk localText n a) :
    VarTable.TextNode n a := by
  cases a with
  | literal a => exact h
  | rpc dest name param => exact h.1
  | getDistance kind a b c => exact h
  | _ => trivial

/-- The program of a text without `rpc` and `get_distance` is in order. -/
theorem yyparse_parsed {ts : List (Token D)} (hscan : scan atof text = .ok ts)
    (hlocal : ∀ t ∈ ts, t.isRemote = false) (h : yyparse atof received text = .ok program) :
    program.Parsed := by
  obtain ⟨trees, hscan', hbuild⟩ := yyparse_eq_ok_iff.1 h
  obtain rfl := Except.ok.inj (hscan.symm.trans hscan')
  have htoken : ∀ t ∈ inputTokens trees, localText.token t := by
    intro t ht
    have hremote := hlocal t ht
    cases t with
    | mark m =>
      cases m with
      | rpc => cases hremote
      | _ => trivial
    | getDistance kind => cases hremote
    | _ => trivial
  obtain ⟨hliterals, hdecls⟩ := (buildProgram_meets _ htoken).1 program hbuild
  exact ⟨hliterals, fun f hf c hc ↦ textNode_of_textOk ((hdecls _ hf).2.2.2.1 c hc)⟩

variable [CDouble D]

/-- **From the text on, what runs is in order**: whatever such a program does, in every state that it
reaches the tables own their nodes, every pointer is alive and every struct is whole. -/
theorem yyparse_reachable_wf {ts : List (Token D)} {funcString : Str} {param : Value D}
    {m : Machine D} (hscan : scan atof text = .ok ts) (hlocal : ∀ t ∈ ts, t.isRemote = false)
    (h : yyparse atof received text = .ok program)
    (hreach : Machine.Reachable program funcString param m) :
    m.WF program.literals.length False [0] :=
  hreach.wf (yyparse_parsed hscan hlocal h)

section Example

/-- `string main(){return "x";}` -/
def returnText : Str := ascii "string main()\x7breturn \"x\";\x7d"

/-- Its program. -/
def returnProgram : Program Lib.Binary64 :=
  ⟨[.string [120]], 21, [.func ⟨.elem (.basic .string), mainName, [],
    .ast (.returnNode (.literal ⟨0, 0⟩)) .empty⟩]⟩

/-- Its tokens. -/
def returnTokens : List (Token Lib.Binary64) :=
  [.type .string, .identifier mainName, .mark .lparen, .mark .rparen, .mark .lbrace,
    .mark .returnMark, .stringLiteral [120], .mark .semicolon, .mark .rbrace]

/-- The text runs to its end. -/
theorem yyparse_reachable_wf_return : ∃ (_ : CLibrary) (m : Machine Lib.Binary64),
    Machine.Reachable returnProgram mainName .empty m ∧ m.stack = [] ∧ m.WF 1 False [0] := by
  let _ := reducing
  have hruns : ((Machine.start returnProgram mainName .empty).toOption.bind fun m₀ ↦
      Lib.run Machine.step? m₀ (List.replicate 8 plainHost)).any (fun m ↦ m.stack.isEmpty) = true := by
    decide +kernel
  obtain ⟨m, hreach, htest⟩ := Machine.exists_reachable hruns
  have hscan : scan (fun _ ↦ CDouble.zero) returnText = .ok returnTokens := rfl
  have hparse : yyparse (fun _ ↦ CDouble.zero) 1 returnText = .ok returnProgram := rfl
  exact ⟨_, m, hreach, List.isEmpty_iff.1 htest, yyparse_reachable_wf hscan (by decide) hparse hreach⟩

end Example

end Meridian.MQL

import Meridian.MQL.Actions
import Mathlib.Algebra.BigOperators.Group.List.Basic

/-!
# The nodes of a program text

A production makes no more nodes than it has tokens of its own, with two exceptions that its parts pay
for: a list of statements makes one for each of them, and a list of expressions one for itself. So the
actions make at most one node for each token (`actionInput_makes`), and the limit on the nodes of a
process is never reached by a program of the size that a node receives.

`TextOk` is what the nodes of a text are made of: its own literals, its own names, and `rpc` and
`get_distance` only if their tokens are there (`TextScope`).
-/

namespace Meridian.MQL

open Lib Build

variable {D α β : Type} {m : Build D α} {f : α → Build D β} {c c' n : ℕ} {P P' : ℕ → α → Prop}
  {Q : ℕ → β → Prop} {t t' t'' : Text D}

/-! ### Rules -/

/-- What has been allocated stays, and there are at most so many new nodes. -/
structure Text.Grows (cost : ℕ) (t t' : Text D) : Prop where
  received : t'.received = t.received
  literals : t.literals <+: t'.literals
  count : t'.astAllocationCount ≤ t.astAllocationCount + cost
  limit : t'.astAllocationCount ≤ max t.astAllocationCount Value.MAX_AST_PER_STACK

theorem Text.Grows.trans (h : t.Grows c t') (h' : t'.Grows c' t'') : t.Grows (c + c') t'' := by
  have := h.count
  have := h'.count
  have := h.limit
  have := h'.limit
  exact ⟨h'.received.trans h.received, h.literals.trans h'.literals, by omega, by omega⟩

/-- The property stays when literals are added. -/
def Stable (P : ℕ → α → Prop) : Prop := ∀ k n a, k ≤ n → P k a → P n a

/-- What does not depend on the literals. -/
theorem stable_const {p : α → Prop} : Stable fun _ a ↦ p a := fun _ _ _ _ h ↦ h

/-- The computation fails only where there is no room for `cost` nodes. `P` holds of the number of
literals and the result. -/
def Makes (m : Build D α) (cost : ℕ) (P : ℕ → α → Prop) : Prop :=
  ∀ t : Text D, Meets (fun e ↦ e = .outOfNodes ∧ Value.MAX_AST_PER_STACK < t.astAllocationCount + cost)
    m t fun a t' ↦ t.Grows cost t' ∧ P t'.literals.length a

theorem Makes.mono (h : Makes m c P) (hc : c ≤ c') (hP : ∀ n a, P n a → P' n a) :
    Makes m c' P' := by
  refine fun t ↦ ((h t).mono_fail fun e he ↦ ⟨he.1, by omega⟩).mono ?_
  rintro a t' ⟨hgrows, ha⟩
  exact ⟨⟨hgrows.received, hgrows.literals, hgrows.count.trans (by omega), hgrows.limit⟩, hP _ _ ha⟩

theorem Makes.le (h : Makes m c P) (hc : c ≤ c') : Makes m c' P := h.mono hc fun _ _ h ↦ h

theorem makes_pure {a : α} (h : ∀ n, P n a) : Makes (pure a : Build D α) 0 P :=
  fun _ ↦ ⟨⟨rfl, List.prefix_rfl, le_rfl, le_max_left _ _⟩, h _⟩

theorem Makes.bind (h : Makes m c P) (hP : Stable P)
    (hf : ∀ a, Makes (f a) c' fun n b ↦ P n a → Q n b) : Makes (m >>= f) (c + c') Q := by
  refine fun t ↦ meets_bind.2 (((h t).mono_fail fun e he ↦ ⟨he.1, by omega⟩).mono ?_)
  rintro a t' ⟨hgrows, ha⟩
  have hcount := hgrows.count
  refine ((hf a t').mono_fail fun e he ↦ ⟨he.1, by omega⟩).mono ?_
  rintro b t'' ⟨hgrows', hb⟩
  exact ⟨hgrows.trans hgrows', hb (hP _ _ _ hgrows'.literals.length_le ha)⟩

/-- What is known of the result for another reason. -/
theorem Makes.and {p : α → Prop} (h : Makes m c P)
    (hp : ∀ t, Meets (fun _ ↦ True) m t fun a _ ↦ p a) : Makes m c fun n a ↦ P n a ∧ p a :=
  fun t ↦ meets_iff.2 ⟨fun _ _ hm ↦ ⟨((h t).run hm).1, ((h t).run hm).2, (hp t).run hm⟩,
    fun _ hm ↦ (h t).fail hm⟩

theorem makes_newNode {a : α} (h : ∀ n, P n a) : Makes (newNode a : Build D α) 1 P := by
  refine fun t ↦ meets_bind.2 (meets_ite.2 ⟨fun hroom ↦ ⟨⟨rfl, List.prefix_rfl, ?_, ?_⟩, h _⟩,
    fun hfull ↦ ?_⟩)
  · simp only [Text.astAllocationCount]
    omega
  · simp only [Text.astAllocationCount] at hroom ⊢
    omega
  · exact ⟨rfl, by omega⟩

theorem makes_mapM {xs : List β} {g : β → Build D α} {k : β → ℕ} (hP : Stable P)
    (h : ∀ x ∈ xs, Makes (g x) (k x) P) :
    Makes (xs.mapM g) (xs.map k).sum fun n as ↦ ∀ a ∈ as, P n a := by
  have hlist : Stable fun n (as : List α) ↦ ∀ a ∈ as, P n a :=
    fun k n as hkn has a ha ↦ hP k n a hkn (has a ha)
  induction xs with
  | nil => exact makes_pure fun n a ha ↦ absurd ha List.not_mem_nil
  | cons x xs ih =>
    rw [List.mapM_cons, List.map_cons, List.sum_cons]
    refine (h x (by simp)).bind hP fun a ↦ ?_
    refine (Makes.bind (ih fun y hy ↦ h y (by simp [hy])) hlist fun as ↦ ?_).mono
      (Nat.add_zero _).le fun _ _ h ↦ h
    refine makes_pure fun n has ha b hb ↦ ?_
    rcases List.mem_cons.1 hb with rfl | hb
    · exact ha
    · exact has b hb

/-! ### The nodes -/

/-- What a program text may contain. -/
structure TextScope where
  /-- whether it may ask other nodes -/
  remote : Prop
  /-- the names that it uses -/
  named : Str → Prop

namespace TextScope

variable (S : TextScope)

/-- The name of a struct, if any. -/
def elem : ElemType → Prop
  | .basic _ => True
  | .adt name => S.named name

/-- What a token may be. -/
def token : Token D → Prop
  | .identifier name => S.named name
  | .mark .rpc => S.remote
  | .getDistance _ => S.remote
  | _ => True

theorem elem_of_token {t : ElemType} (h : S.token (t.token : Token D)) : S.elem t := by
  cases t with
  | basic t => trivial
  | adt name => exact h

/-- A formal parameter. -/
def param (p : Param) : Prop := S.elem p.vType.elemType ∧ S.named p.vName

/-- A field of a struct. -/
def field (f : Field) : Prop := S.named f.vName

end TextScope

/-- A node of a text with `n` literals. -/
def TextOk (S : TextScope) (n : ℕ) : Ast → Prop
  | .literal a => a.table = 0 ∧ a.index < n
  | .newVar t name | .newVarArray t name _ => S.elem t ∧ S.named name
  | .newVarAssign t name _ | .newVarAssignSep t name _ => S.elem t.elemType ∧ S.named name
  | .refVar name | .refVarAdt _ name | .funcRef name _ => S.named name
  | .rpc _ name _ => S.remote ∧ S.named name
  | .getDistance _ _ _ _ => S.remote
  | _ => True

variable {S : TextScope}

theorem TextOk.mono {k n : ℕ} (h : k ≤ n) {a : Ast} (ha : TextOk S k a) :
    TextOk S n a := by
  cases a with
  | literal a => exact ⟨ha.1, lt_of_lt_of_le ha.2 h⟩
  | _ => exact ha

/-- A node and all below it. -/
def TreeOk (S : TextScope) (n : ℕ) (a : Ast) : Prop := a.All (TextOk S n)

/-- The entries of a list. -/
def ListOk (S : TextScope) (n : ℕ) (as : List Ast) : Prop := ∀ a ∈ as, TreeOk S n a

theorem stable_treeOk {S : TextScope} : Stable (TreeOk S) := fun _ _ _ h ha b hb ↦ (ha b hb).mono h

theorem stable_listOk : Stable (ListOk S) := fun _ _ _ h has a ha ↦
  stable_treeOk _ _ _ h (has a ha)

/-- A node whose parts are in order. -/
theorem treeOk_iff {a : Ast} : TreeOk S n a ↔ TextOk S n a ∧ ListOk S n a.children :=
  Ast.all_iff

theorem listOk_cons {a : Ast} {as : List Ast} :
    ListOk S n (a :: as) ↔ TreeOk S n a ∧ ListOk S n as :=
  List.forall_mem_cons

theorem listOk_nil : ListOk S n [] := fun _ h ↦ absurd h List.not_mem_nil

theorem listOk_append {as bs : List Ast} :
    ListOk S n (as ++ bs) ↔ ListOk S n as ∧ ListOk S n bs :=
  List.forall_mem_append

theorem makes_newLiteral (l : Literal D) : Makes (newLiteral l) 1 (TreeOk S) := by
  refine fun t ↦ meets_bind.2 (meets_ite.2 ⟨fun hroom ↦ ⟨⟨rfl, List.prefix_append _ _, ?_, ?_⟩,
    treeOk_iff.2 ⟨⟨rfl, ?_⟩, listOk_nil⟩⟩, fun hfull ↦ ?_⟩)
  · simp only [Text.astAllocationCount, List.length_append, List.length_singleton]
    omega
  · simp only [Text.astAllocationCount, List.length_append, List.length_singleton] at hroom ⊢
    omega
  · simp
  · exact ⟨rfl, by omega⟩

/-- A node without parts. -/
theorem makes_leaf {k : Ast} (hk : ∀ n, TextOk S n k) (hchildren : k.children = []) :
    Makes (newNode k : Build D Ast) 1 (TreeOk S) :=
  makes_newNode fun n ↦ treeOk_iff.2 ⟨hk n, hchildren ▸ listOk_nil⟩

/-- A node with one part. -/
theorem Makes.node {m : Build D Ast} {k : Ast → Ast} (h : Makes m c (TreeOk S))
    (hk : ∀ n a, TextOk S n (k a)) (hchildren : ∀ a, (k a).children = [a]) :
    Makes (do newNode (k (← m))) (c + 1) (TreeOk S) := by
  refine h.bind stable_treeOk fun a ↦ makes_newNode fun n ha ↦ treeOk_iff.2 ⟨hk n a, ?_⟩
  rw [hchildren]
  exact listOk_cons.2 ⟨ha, listOk_nil⟩

/-- A node with a list of parts. -/
theorem Makes.nodeList {m : Build D (List Ast)} {k : List Ast → Ast}
    (h : Makes m c (ListOk S)) (hk : ∀ n as, TextOk S n (k as))
    (hchildren : ∀ as, (k as).children = as) :
    Makes (do newNode (k (← m))) (c + 1) (TreeOk S) := by
  refine h.bind stable_listOk fun as ↦ makes_newNode fun n has ↦ treeOk_iff.2 ⟨hk n as, ?_⟩
  rw [hchildren]
  exact has

/-- A node with two parts. -/
theorem Makes.node₂ {m m' : Build D Ast} {k : Ast → Ast → Ast} (h : Makes m c (TreeOk S))
    (h' : Makes m' c' (TreeOk S)) (hk : ∀ n a b, TextOk S n (k a b))
    (hchildren : ∀ a b, (k a b).children = [a, b]) :
    Makes (do newNode (k (← m) (← m'))) (c + (c' + 1)) (TreeOk S) := by
  refine h.bind stable_treeOk fun a ↦ h'.bind stable_treeOk fun b ↦ makes_newNode fun n hb ha ↦ ?_
  refine treeOk_iff.2 ⟨hk n a b, ?_⟩
  rw [hchildren]
  exact listOk_cons.2 ⟨ha, listOk_cons.2 ⟨hb, listOk_nil⟩⟩

/-- A node with three parts. -/
theorem Makes.node₃ {m₁ m₂ m₃ : Build D Ast} {c₁ c₂ c₃ : ℕ} {k : Ast → Ast → Ast → Ast}
    (h₁ : Makes m₁ c₁ (TreeOk S)) (h₂ : Makes m₂ c₂ (TreeOk S))
    (h₃ : Makes m₃ c₃ (TreeOk S)) (hk : ∀ n a b c, TextOk S n (k a b c))
    (hchildren : ∀ a b c, (k a b c).children = [a, b, c]) :
    Makes (do newNode (k (← m₁) (← m₂) (← m₃))) (c₁ + (c₂ + (c₃ + 1))) (TreeOk S) := by
  refine h₁.bind stable_treeOk fun a ↦ h₂.bind stable_treeOk fun b ↦ ?_
  refine h₃.bind stable_treeOk fun c ↦ makes_newNode fun n hc hb ha ↦ ?_
  refine treeOk_iff.2 ⟨hk n a b c, ?_⟩
  rw [hchildren]
  exact listOk_cons.2 ⟨ha, listOk_cons.2 ⟨hb, listOk_cons.2 ⟨hc, listOk_nil⟩⟩⟩

/-! ### Expressions -/

/-- What is known of the value of a nonterminal. -/
def ExprNT.ValOk (S : TextScope) : ∀ nt : ExprNT, ℕ → nt.Val → Prop
  | .expr _ => TreeOk S
  | .expressionSep => ListOk S

/-- A list of expressions has a node of its own. -/
def ExprNT.extra : ExprNT → ℕ
  | .expr _ => 0
  | .expressionSep => 1

theorem ExprTree.action_makes {nt : ExprNT} (e : ExprTree D nt)
    (h : ∀ t ∈ e.tokens, S.token t) :
    Makes e.action (e.tokens.length + nt.extra) (nt.ValOk S) := by
  induction e with
  | identifier name => exact makes_leaf (fun _ ↦ h (.identifier name) List.mem_cons_self) rfl
  | callEmpty name =>
    have hname : S.named name := h (.identifier name) List.mem_cons_self
    refine Makes.le (makes_leaf (fun _ ↦ hname) rfl) ?_
    -- the parentheses pay for the node
    simp only [tokens, ExprNT.extra, List.length_cons, List.length_nil]
    omega
  | getSelf =>
    refine Makes.le (makes_leaf (fun _ ↦ trivial) rfl) ?_
    simp only [tokens, ExprNT.extra, List.length_cons, List.length_nil]
    omega
  | intConstant i => exact makes_newLiteral _
  | doubleConstant d => exact makes_newLiteral _
  | stringLiteral s => exact makes_newLiteral _
  | primary e ih | bare e ih | operand l e ih | logicalOr e ih => exact ih h
  | paren e ih | plus e ih =>
    refine (ih fun t ht ↦ h t (by simp [tokens, ht])).le ?_
    simp only [tokens, ExprNT.extra, List.length_append, List.length_cons]
    omega
  | dot e name ih =>
    have hname : S.named name := h (.identifier name) (by simp [tokens])
    have ih := ih fun t ht ↦ h t (by simp [tokens, ht])
    refine Makes.le (Makes.node ih (fun _ _ ↦ hname) fun _ ↦ rfl) ?_
    simp only [tokens, ExprNT.extra, List.length_append, List.length_cons, List.length_nil]
    omega
  | print e ih | println e ih | native1 f e ih | unary op e ih =>
    have ih := ih fun t ht ↦ h t (by simp [tokens, ht])
    refine Makes.le (Makes.node ih (fun _ _ ↦ trivial) fun _ ↦ rfl) ?_
    simp only [tokens, ExprNT.extra, List.length_append, List.length_cons, List.length_nil]
    omega
  | call name param ih =>
    have hname : S.named name := h (.identifier name) (by simp [tokens])
    have ih := ih fun t ht ↦ h t (by simp [tokens, ht])
    refine Makes.le (Makes.nodeList ih (fun _ _ ↦ hname) fun _ ↦ rfl) ?_
    simp only [tokens, ExprNT.extra, List.length_append, List.length_cons, List.length_nil]
    omega
  | access e₁ e₂ ih₁ ih₂ | native2 f e₁ e₂ ih₁ ih₂ | bin l op hl e₁ e₂ ih₁ ih₂
  | assign e₁ e₂ ih₁ ih₂ =>
    have ih₁ := ih₁ fun t ht ↦ h t (by simp [tokens, ht])
    have ih₂ := ih₂ fun t ht ↦ h t (by simp [tokens, ht])
    refine Makes.le (Makes.node₂ ih₁ ih₂ (fun _ _ _ ↦ trivial) fun _ _ ↦ rfl) ?_
    simp only [tokens, ExprNT.extra, List.length_append, List.length_cons, List.length_nil]
    omega
  | getDistanceFrom kind e₁ e₂ e₃ ih₁ ih₂ ih₃ =>
    -- the token `get_distance` is what allows the node
    have hremote : S.remote := h (.getDistance kind) (by simp [tokens])
    have ih₁ := ih₁ fun t ht ↦ h t (by simp [tokens, ht])
    have ih₂ := ih₂ fun t ht ↦ h t (by simp [tokens, ht])
    have ih₃ := ih₃ fun t ht ↦ h t (by simp [tokens, ht])
    refine Makes.le (Makes.node₃ ih₁ ih₂ ih₃ (fun _ _ _ _ ↦ hremote) fun _ _ _ ↦ rfl) ?_
    simp only [tokens, ExprNT.extra, List.length_append, List.length_cons, List.length_nil]
    omega
  | getDistance kind e₂ e₃ ih₂ ih₃ =>
    have hremote : S.remote := h (.getDistance kind) (by simp [tokens])
    have ih₂ := ih₂ fun t ht ↦ h t (by simp [tokens, ht])
    have ih₃ := ih₃ fun t ht ↦ h t (by simp [tokens, ht])
    refine Makes.le (ih₂.bind stable_treeOk fun b ↦ ih₃.bind stable_treeOk fun c ↦
      (makes_newNode (P := fun _ _ ↦ True) fun _ ↦ trivial).bind stable_const fun _ ↦
        makes_newNode fun n _ hc hb ↦ ?_) ?_
    · exact treeOk_iff.2 ⟨hremote, listOk_cons.2 ⟨hb, listOk_cons.2 ⟨hc, listOk_nil⟩⟩⟩
    · simp only [tokens, ExprNT.extra, List.length_append, List.length_cons, List.length_nil]
      omega
  | rpcEmpty dest name ih =>
    have hrpc : S.remote ∧ S.named name :=
      ⟨h (.mark .rpc) (by simp [tokens]), h (.identifier name) (by simp [tokens])⟩
    have ih := ih fun t ht ↦ h t (by simp [tokens, ht])
    refine Makes.le (Makes.node ih (fun _ _ ↦ hrpc) fun _ ↦ rfl) ?_
    simp only [tokens, ExprNT.extra, List.length_append, List.length_cons, List.length_nil]
    omega
  | rpc dest name param ih ihp =>
    have hrpc : S.remote ∧ S.named name :=
      ⟨h (.mark .rpc) (by simp [tokens]), h (.identifier name) (by simp [tokens])⟩
    have ih := ih fun t ht ↦ h t (by simp [tokens, ht])
    have ihp := ihp fun t ht ↦ h t (by simp [tokens, ht])
    refine Makes.le (ih.bind stable_treeOk fun a ↦ ihp.bind stable_listOk fun as ↦
      makes_newNode fun n has ha ↦ treeOk_iff.2 ⟨hrpc, listOk_cons.2 ⟨ha, has⟩⟩) ?_
    simp only [tokens, ExprNT.extra, List.length_append, List.length_cons, List.length_nil]
    omega
  | first e ih =>
    exact (ih h).bind stable_treeOk fun a ↦
      makes_newNode fun n ha ↦ listOk_cons.2 ⟨ha, listOk_nil⟩
  | next es e ih ihe =>
    have ih := ih fun t ht ↦ h t (by simp [tokens, ht])
    have ihe := ihe fun t ht ↦ h t (by simp [tokens, ht])
    refine Makes.le (ih.bind stable_listOk fun as ↦ ihe.bind stable_treeOk fun a ↦
      makes_pure fun n ha has ↦ listOk_append.2 ⟨has, listOk_cons.2 ⟨ha, listOk_nil⟩⟩) ?_
    simp only [tokens, ExprNT.extra, List.length_append, List.length_cons]
    omega

/-! ### Statements -/

theorem Param.scope (p : Param) (h : ∀ t ∈ (p.tokens : List (Token D)), S.token t) : S.param p :=
  ⟨S.elem_of_token (h _ List.mem_cons_self), h (.identifier p.vName) (by simp [tokens])⟩

theorem Param.action_makes (p : Param) (h : ∀ t ∈ (p.tokens : List (Token D)), S.token t) :
    Makes (p.action : Build D Ast) (p.tokens : List (Token D)).length (TreeOk S) := by
  have hp := p.scope h
  have hsize : Makes (mkInt 0 : Build D Ast) 1 (TreeOk S) := makes_newLiteral _
  obtain ⟨t, name⟩ := p
  rcases t with t | t <;> rcases t with t | t
  · exact Makes.le (makes_leaf (fun _ ↦ hp) rfl) (by simp [tokens])
  · exact Makes.le (makes_leaf (fun _ ↦ hp) rfl) (by simp [tokens])
  · exact Makes.le (Makes.node hsize (fun _ _ ↦ hp) fun _ ↦ rfl) (by simp [tokens])
  · exact Makes.le (Makes.node hsize (fun _ _ ↦ hp) fun _ ↦ rfl) (by simp [tokens])

/-- The list of statements has a node for each of them. -/
def StmtNT.spare : StmtNT → ℕ
  | .statementList => 0
  | _ => 1

/-- The parts of a node with a size that is never read. -/
theorem Makes.nodeSized {α : Type} {m : Build D α} {P : ℕ → α → Prop} {k : α → Ast}
    (h : Makes m c P) (hP : Stable P) (hk : ∀ n a, P n a → TreeOk S n (k a)) :
    Makes (do let a ← m; let _ ← mkInt 0; newNode (k a)) (c + (1 + 1)) (TreeOk S) :=
  h.bind hP fun a ↦ Makes.bind (makes_newLiteral _) (stable_treeOk (S := S)) fun _ ↦
    makes_newNode fun n _ ha ↦ hk n a ha

theorem StmtTree.action_makes {nt : StmtNT} (s : StmtTree D nt)
    (h : ∀ t ∈ s.tokens, S.token t) :
    ∃ c, c + nt.spare ≤ s.tokens.length ∧ Makes s.action c (TreeOk S) := by
  induction s with
  | empty | continueStatement | breakStatement | nil =>
    refine ⟨0, ?_, makes_pure fun n ↦ treeOk_iff.2 ⟨trivial, listOk_nil⟩⟩
    simp [tokens, StmtNT.spare]
  | returnEmpty =>
    refine ⟨1, by simp [tokens, StmtNT.spare], makes_newNode fun n ↦ ?_⟩
    exact treeOk_iff.2 ⟨trivial, listOk_cons.2 ⟨treeOk_iff.2 ⟨trivial, listOk_nil⟩, listOk_nil⟩⟩
  | ofCompound s ih | ofSelection s ih | ofExpression s ih | ofDeclaration s ih | ofIteration s ih
  | ofJump s ih => exact ih h
  | expression e =>
    refine ⟨_, ?_, e.action_makes fun t ht ↦ h t (by simp [tokens, ht])⟩
    simp [tokens, StmtNT.spare, ExprNT.extra]
  | parameter p =>
    have hp := p.action_makes fun t ht ↦ h t (by simp [tokens, ht])
    exact ⟨_, by simp [tokens, StmtNT.spare], hp⟩
  | returnStatement e =>
    have he := e.action_makes fun t ht ↦ h t (by simp [tokens, ht])
    refine ⟨_, ?_, Makes.node he (fun _ _ ↦ trivial) fun _ ↦ rfl⟩
    simp [tokens, StmtNT.spare, ExprNT.extra]
  | compound body ih =>
    obtain ⟨c, hc, hbody⟩ := ih fun t ht ↦ h t (by simp [tokens, ht])
    refine ⟨_, ?_, Makes.node hbody (fun _ _ ↦ trivial) fun _ ↦ rfl⟩
    simp only [tokens, StmtNT.spare, List.length_append, List.length_cons] at hc ⊢
    omega
  | selection eval left ih =>
    have heval := eval.action_makes fun t ht ↦ h t (by simp [tokens, ht])
    obtain ⟨c, hc, hleft⟩ := ih fun t ht ↦ h t (by simp [tokens, ht])
    -- a missing branch is the empty node, which is made once and for all
    have hempty : Makes (pure .empty : Build D Ast) 0 (TreeOk S) :=
      makes_pure fun n ↦ treeOk_iff.2 ⟨trivial, listOk_nil⟩
    refine ⟨_, ?_, Makes.node₃ heval hleft hempty (fun _ _ _ _ ↦ trivial) fun _ _ _ ↦ rfl⟩
    simp only [tokens, StmtNT.spare, ExprNT.extra, List.length_append, List.length_cons] at hc ⊢
    omega
  | selectionElse eval left right ih ihr | selectionElseIf eval left right ih ihr =>
    have heval := eval.action_makes fun t ht ↦ h t (by simp [tokens, ht])
    obtain ⟨c, hc, hleft⟩ := ih fun t ht ↦ h t (by simp [tokens, ht])
    obtain ⟨c', hc', hright⟩ := ihr fun t ht ↦ h t (by simp [tokens, ht])
    refine ⟨_, ?_, Makes.node₃ heval hleft hright (fun _ _ _ _ ↦ trivial) fun _ _ _ ↦ rfl⟩
    simp only [tokens, StmtNT.spare, ExprNT.extra, List.length_append, List.length_cons] at hc hc' ⊢
    omega
  | loop eval body ih =>
    have heval := eval.action_makes fun t ht ↦ h t (by simp [tokens, ht])
    obtain ⟨c, hc, hbody⟩ := ih fun t ht ↦ h t (by simp [tokens, ht])
    refine ⟨_, ?_, Makes.node₂ heval hbody (fun _ _ _ ↦ trivial) fun _ _ ↦ rfl⟩
    simp only [tokens, StmtNT.spare, ExprNT.extra, List.length_append, List.length_cons] at hc ⊢
    omega
  | newArray t name e =>
    have he := e.action_makes fun t ht ↦ h t (by simp [tokens, ht])
    have hname : S.elem t ∧ S.named name :=
      ⟨S.elem_of_token (h _ List.mem_cons_self), h (.identifier name) (by simp [tokens])⟩
    cases t with
    | basic t =>
      refine ⟨_, ?_, Makes.node he (fun _ _ ↦ hname) fun _ ↦ rfl⟩
      simp [tokens, StmtNT.spare, ExprNT.extra]
    | adt t =>
      refine ⟨_, ?_, Makes.node he (fun _ _ ↦ hname) fun _ ↦ rfl⟩
      simp [tokens, StmtNT.spare, ExprNT.extra]
  | newAssign t name e =>
    have he := e.action_makes fun t ht ↦ h t (by simp [tokens, ht])
    have hname : S.elem t.elemType ∧ S.named name :=
      ⟨S.elem_of_token (h _ List.mem_cons_self), h (.identifier name) (by simp [tokens])⟩
    have hk : ∀ n a, TreeOk S n a → TreeOk S n (.newVarAssign t name a) :=
      fun n a ha ↦ treeOk_iff.2 ⟨hname, listOk_cons.2 ⟨ha, listOk_nil⟩⟩
    -- an array has a node for its size as well, which is the constant 0
    rcases t with t | t <;> rcases t with t | t
    · refine ⟨_, ?_, Makes.node he (fun _ _ ↦ hname) fun _ ↦ rfl⟩
      simp [tokens, StmtNT.spare, ExprNT.extra, DeclType.brackets]
    · refine ⟨_, ?_, Makes.node he (fun _ _ ↦ hname) fun _ ↦ rfl⟩
      simp [tokens, StmtNT.spare, ExprNT.extra, DeclType.brackets]
    · refine ⟨_, ?_, Makes.nodeSized he stable_treeOk hk⟩
      simp [tokens, StmtNT.spare, ExprNT.extra, DeclType.brackets]
    · refine ⟨_, ?_, Makes.nodeSized he stable_treeOk hk⟩
      simp [tokens, StmtNT.spare, ExprNT.extra, DeclType.brackets]
  | newAssignSep t ht name es =>
    have hes := es.action_makes fun t ht ↦ h t (by simp [tokens, ht])
    have hname : S.elem t.elemType ∧ S.named name :=
      ⟨S.elem_of_token (h _ List.mem_cons_self), h (.identifier name) (by simp [tokens])⟩
    have hk : ∀ n as, ListOk S n as → TreeOk S n (.newVarAssignSep t name as) :=
      fun n as has ↦ treeOk_iff.2 ⟨hname, has⟩
    rcases t with t | t <;> rcases t with t | t
    · cases ht
    · refine ⟨_, ?_, Makes.nodeList hes (fun _ _ ↦ hname) fun _ ↦ rfl⟩
      simp [tokens, StmtNT.spare, ExprNT.extra, DeclType.brackets]
    · refine ⟨_, ?_, Makes.nodeSized hes stable_listOk hk⟩
      simp [tokens, StmtNT.spare, ExprNT.extra, DeclType.brackets]
    · refine ⟨_, ?_, Makes.nodeSized hes stable_listOk hk⟩
      simp [tokens, StmtNT.spare, ExprNT.extra, DeclType.brackets]
  | forLoop init eval step body ihi ihe ihb =>
    obtain ⟨c₁, h₁, hinit⟩ := ihi fun t ht ↦ h t (by simp [tokens, ht])
    obtain ⟨c₂, h₂, heval⟩ := ihe fun t ht ↦ h t (by simp [tokens, ht])
    have hstep := step.action_makes fun t ht ↦ h t (by simp [tokens, ht])
    obtain ⟨c₄, h₄, hbody⟩ := ihb fun t ht ↦ h t (by simp [tokens, ht])
    refine ⟨_, ?_, hinit.bind stable_treeOk fun a ↦ heval.bind stable_treeOk fun b ↦
      hstep.bind stable_treeOk fun c ↦ hbody.bind stable_treeOk fun d ↦
      (makes_newNode (P := fun _ k ↦ k = .forLoop a b c d) fun _ ↦ rfl).bind stable_const fun k ↦
        makes_newNode fun n hk hd hc hb ha ↦ ?_⟩
    · simp only [tokens, StmtNT.spare, ExprNT.extra, List.length_append, List.length_cons] at *
      omega
    · subst hk
      -- the loop is put into a block of its own
      have hloop : TreeOk S n (.forLoop a b c d) :=
        treeOk_iff.2 ⟨trivial, listOk_cons.2 ⟨ha, listOk_cons.2 ⟨hb, listOk_cons.2 ⟨hc,
          listOk_cons.2 ⟨hd, listOk_nil⟩⟩⟩⟩⟩
      exact treeOk_iff.2 ⟨trivial, listOk_cons.2 ⟨hloop, listOk_nil⟩⟩
  | snoc list s ih ihs =>
    obtain ⟨c, hc, hlist⟩ := ih fun t ht ↦ h t (by simp [tokens, ht])
    obtain ⟨c', hc', hs⟩ := ihs fun t ht ↦ h t (by simp [tokens, ht])
    refine ⟨_, ?_, hlist.bind stable_treeOk fun a ↦ hs.bind stable_treeOk fun b ↦
      makes_newNode fun n hb ha ↦ ?_⟩
    · simp only [tokens, StmtNT.spare, List.length_append] at hc hc' ⊢
      omega
    · exact treeOk_iff.2 ⟨trivial, listOk_cons.2 ⟨hb, listOk_cons.2 ⟨ha, listOk_nil⟩⟩⟩

/-- A list of statements is what its name says. -/
theorem StmtTree.action_statementList {nt : StmtNT} (s : StmtTree D nt) (hnt : nt = .statementList)
    (t : Text D) : Meets (fun _ ↦ True) s.action t fun a _ ↦ ∃ l, a = statementList l := by
  induction s generalizing t with
  | nil => exact ⟨[], rfl⟩
  | snoc list s ih =>
    refine meets_bind.2 ((ih rfl t).mono ?_)
    rintro _ t' ⟨l, rfl⟩
    refine meets_bind.2 (meets_iff.2 ⟨fun b t'' _ ↦ ?_, fun _ _ ↦ trivial⟩)
    refine meets_bind.2 (meets_ite.2 ⟨fun _ ↦ ⟨l ++ [b], ?_⟩, fun _ ↦ trivial⟩)
    rw [statementList_concat]
    rfl
  | _ => cases hnt

/-! ### Declarations -/

/-- A declaration with its names. The body of a function is a list of statements. -/
def DeclOk (S : TextScope) (n : ℕ) : GlobalDecl → Prop
  | .func f =>
    S.elem f.fType.elemType ∧ S.named f.fName ∧ (∀ p ∈ f.fFormalParam, S.param p) ∧
      TreeOk S n f.fNode ∧ ∃ l, f.fNode = statementList l
  | .struct d => S.named d.adtTypeName ∧ ∀ f ∈ d.adtParam, S.field f

theorem stable_declOk : Stable (DeclOk S) := by
  intro k n d hkn hd
  cases d with
  | func f =>
    exact ⟨hd.1, hd.2.1, hd.2.2.1, stable_treeOk k n f.fNode hkn hd.2.2.2.1, hd.2.2.2.2⟩
  | struct d => exact hd

theorem actionParams_makes (param : List Param)
    (h : ∀ t ∈ (paramTokens param : List (Token D)), S.token t) :
    Makes (actionParams param : Build D (List Param))
      ((paramTokens param : List (Token D)).length + 1) fun _ ps ↦ ∀ p ∈ ps, S.param p := by
  cases param with
  | nil => exact Makes.le (makes_pure fun _ p hp ↦ absurd hp List.not_mem_nil) (Nat.zero_le _)
  | cons p ps =>
    have htokens : ∀ q ∈ ps, ∀ t ∈ (q.tokens : List (Token D)), S.token t := fun q hq t ht ↦
      h t (List.mem_append_right _ (List.mem_flatMap.2 ⟨q, hq, List.mem_cons_of_mem _ ht⟩))
    have hp : ∀ t ∈ (p.tokens : List (Token D)), S.token t := fun t ht ↦
      h t (List.mem_append_left _ ht)
    have hps : Makes (ps.mapM fun q ↦ do let _ ← q.action; return q : Build D (List Param))
        (ps.map fun q ↦ (q.tokens : List (Token D)).length).sum fun _ bs ↦ ∀ b ∈ bs, S.param b :=
      makes_mapM stable_const fun q hq ↦
        (q.action_makes (htokens q hq)).bind stable_treeOk fun _ ↦
          makes_pure fun _ _ ↦ q.scope (htokens q hq)
    refine Makes.le ((p.action_makes hp).bind stable_treeOk fun _ ↦
      (makes_newNode (P := fun _ list ↦ list = [p]) fun _ ↦ rfl).bind stable_const fun list ↦
        hps.bind stable_const fun rest ↦ makes_pure fun _ hrest hlist _ ↦ ?_) ?_
    · subst hlist
      exact List.forall_mem_cons.2 ⟨p.scope hp, hrest⟩
    · have hsum : (ps.map fun q ↦ (q.tokens : List (Token D)).length).sum ≤
          (ps.flatMap fun q ↦ (.mark .comma :: q.tokens : List (Token D))).length := by
        rw [List.length_flatMap]
        exact List.sum_le_sum fun q _ ↦ Nat.le_succ _
      rw [paramTokens, List.length_append]
      omega

theorem FieldTree.action_makes (f : FieldTree)
    (h : ∀ t ∈ (f.tokens : List (Token D)), S.token t) :
    Makes (f.action : Build D Field) (f.tokens : List (Token D)).length fun _ g ↦ S.field g := by
  have hname : S.named f.name := h (.identifier f.name) (by simp [tokens])
  have hvar : ∀ (a : Ast) (g : Field), S.field g →
      Makes (do let _ ← newNode a; return g : Build D Field) (1 + 0) fun _ g ↦ S.field g :=
    fun a g hg ↦ (makes_newNode (P := fun _ _ ↦ True) fun _ ↦ trivial).bind stable_const fun _ ↦
      makes_pure fun _ _ ↦ hg
  have hsize : ∀ i, Makes (mkInt i : Build D Ast) 1 (TreeOk S) := fun i ↦ makes_newLiteral _
  obtain ⟨t, name, size⟩ := f
  cases size with
  | scalar => exact Makes.le (hvar _ _ hname) (by simp [tokens])
  | empty =>
    refine Makes.le ((hsize 0).bind stable_treeOk fun a ↦ ?_) (c := 1 + (1 + 0)) (by simp [tokens])
    exact (hvar _ ⟨t, some 0, name⟩ hname).mono le_rfl fun _ _ hg _ ↦ hg
  | fixed size =>
    refine Makes.le ((hsize size).bind stable_treeOk fun a ↦ ?_) (c := 1 + (1 + 0)) (by simp [tokens])
    exact (hvar _ ⟨t, some size, name⟩ hname).mono le_rfl fun _ _ hg _ ↦ hg

theorem actionFields_makes (field : FieldTree) (fields : List FieldTree)
    (h : ∀ t ∈ ((field :: fields).flatMap FieldTree.tokens : List (Token D)), S.token t) :
    Makes (actionFields field fields : Build D (List Field))
      (((field :: fields).flatMap FieldTree.tokens : List (Token D)).length + 1)
      fun _ fs ↦ ∀ f ∈ fs, S.field f := by
  have htokens : ∀ f ∈ field :: fields, ∀ t ∈ (f.tokens : List (Token D)), S.token t :=
    fun f hf t ht ↦ h t (List.mem_flatMap.2 ⟨f, hf, ht⟩)
  have hfields : Makes (fields.mapM FieldTree.action : Build D (List Field))
      (fields.map fun f ↦ (f.tokens : List (Token D)).length).sum fun _ bs ↦ ∀ b ∈ bs, S.field b :=
    makes_mapM stable_const fun f hf ↦ f.action_makes (htokens f (List.mem_cons_of_mem _ hf))
  refine Makes.le ((field.action_makes (htokens field List.mem_cons_self)).bind stable_const fun g ↦
    (makes_newNode (P := fun _ list ↦ list = [g]) fun _ ↦ rfl).bind stable_const fun list ↦
      hfields.bind stable_const fun _ ↦ makes_pure fun _ hrest hlist hg ↦ ?_) ?_
  · subst hlist
    exact List.forall_mem_cons.2 ⟨hg, hrest⟩
  · rw [List.flatMap_cons, List.length_append, List.length_flatMap]
    omega

theorem GlobalTree.action_makes (g : GlobalTree D) (h : ∀ t ∈ g.tokens, S.token t) :
    ∃ c, c + 1 ≤ g.tokens.length ∧ Makes g.action c (DeclOk S) := by
  cases g with
  | func type name param body =>
    have htype : S.elem type.elemType := S.elem_of_token (h _ List.mem_cons_self)
    have hname : S.named name := h (.identifier name) (by simp [tokens])
    obtain ⟨c, hc, hbody⟩ := body.action_makes fun t ht ↦ h t (by simp [tokens, ht])
    have hlist : Stable fun n a ↦ TreeOk S n a ∧ ∃ l, a = statementList l := fun k n a hkn ha ↦
      ⟨stable_treeOk k n a hkn ha.1, ha.2⟩
    refine ⟨_, ?_, (actionParams_makes param fun t ht ↦ h t (by simp [tokens, ht])).bind
      stable_const fun ps ↦ (hbody.and (body.action_statementList rfl)).bind hlist fun b ↦
      (makes_newNode (P := fun _ f ↦ f = ⟨type, name, ps, b⟩) fun _ ↦ rfl).bind stable_const fun f ↦
      makes_pure fun n hf hb hps ↦ ?_⟩
    · simp only [tokens, StmtNT.spare, List.length_append, List.length_cons, List.length_nil] at hc ⊢
      omega
    · subst hf
      exact ⟨htype, hname, hps, hb⟩
  | struct name field fields =>
    have hname : S.named name := h (.identifier name) (by simp [tokens])
    refine ⟨_, ?_, (actionFields_makes field fields fun t ht ↦ h t ?_).bind stable_const fun fs ↦
      (makes_newNode (P := fun _ d ↦ d = ⟨name, fs⟩) fun _ ↦ rfl).bind stable_const fun d ↦
      makes_pure fun n hd hfs ↦ ?_⟩
    · simp only [tokens, List.length_append, List.length_cons, List.length_nil]
      omega
    · rw [tokens]
      exact List.mem_cons_of_mem _ (List.mem_cons_of_mem _ (List.mem_cons_of_mem _
        (List.mem_append_left _ ht)))
    · subst hd
      exact ⟨hname, hfs⟩

/-- The actions make at most one node for each token. -/
theorem actionInput_makes (decls : List (GlobalTree D)) (h : ∀ t ∈ inputTokens decls, S.token t) :
    Makes (actionInput decls) (inputTokens decls).length fun n ds ↦ ∀ d ∈ ds, DeclOk S n d := by
  refine Makes.le (makes_mapM (k := fun g ↦ g.tokens.length) stable_declOk fun g hg ↦ ?_) ?_
  · obtain ⟨c, hc, hg⟩ := g.action_makes fun t ht ↦ h t (List.mem_flatMap.2 ⟨g, hg, ht⟩)
    refine Makes.le (hg.bind stable_declOk fun d ↦ makes_newNode fun n hd ↦ hd) hc
  · rw [inputTokens, List.length_flatMap]

end Meridian.MQL

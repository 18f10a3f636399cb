import Meridian.MQL.SideEffects
import Meridian.MQL.StatementOrder

/-!
# Evaluating an expression twice

The second evaluation of an expression starts where the first one has ended, so its new nodes come
behind those of the first (`Beside`). The addresses of its results differ from those of the first
evaluation just by this (`shift`), and what is kept there does not: `operation_unchanged_iff`.

Two things can make a difference: a unary operator that writes over a variable or a literal, and the
limit on the number of nodes, which the first evaluation has brought nearer.
-/

namespace Meridian.MQL

open Lib (Runs Meets Follows)
open Interp

variable {D : Type}

namespace ParserState

variable {s s' s₁ s₂ : ParserState D} {X T : List (Node D)} {a : Addr} {n n' : Node D}
  {t : TableId} {tbl : VarTable D} {p : Ptr} {k : ℕ}

/-! ### Addresses of the second evaluation -/

/-- Where the second evaluation has the node that the first one has at `a`. -/
def shiftAddr (s : ParserState D) (k : ℕ) (a : Addr) : Addr :=
  match s.content (.node a) with
  | some _ => a
  | none => ⟨a.table, a.index + k⟩

/-- The pointer to it. -/
def shift (s : ParserState D) (k : ℕ) : Ptr → Ptr
  | .node a => .node (s.shiftAddr k a)
  | p => p

/-- The nodes that were there keep their places. -/
theorem shiftAddr_old (h : ¬ s.New (.node a)) : s.shiftAddr k a = a := by
  obtain ⟨x, hx⟩ := Option.ne_none_iff_exists'.1 h
  rw [shiftAddr, hx]

/-- The new nodes come behind those of the first evaluation. -/
theorem shiftAddr_new (h : s.New (.node a)) : s.shiftAddr k a = ⟨a.table, a.index + k⟩ := by
  have h : s.content (.node a) = none := h
  rw [shiftAddr, h]

/-- A pointer that leads to no new node. -/
theorem shift_old (h : ∀ a, p = .node a → ¬ s.New (.node a)) : s.shift k p = p := by
  cases p with
  | node a => exact congrArg Ptr.node (shiftAddr_old (h a rfl))
  | _ => rfl

/-- No pointer becomes empty. -/
theorem shift_ne_empty (h : p ≠ .empty) : s.shift k p ≠ .empty := by
  cases p with
  | empty => exact absurd rfl h
  | _ =>
    intro heq
    cases heq

/-- Both evaluations have the same nodes. -/
theorem Grown.content_shift (h₁ : Grown s X s₁) (h₂ : Grown s (T ++ X) s₂)
    (hn : s₁.content (.node a) = some (.node n)) :
    s₂.content (.node (s.shiftAddr T.length a)) = some (.node n) := by
  rcases hc : s.content (.node a) with - | x
  · obtain ⟨hhead, tbl, j, ht, hj, hX⟩ := h₁.new_cases hc hn
    have hX' : (T ++ X)[T.length + j]? = some n := by
      rw [List.getElem?_append_right (Nat.le_add_right ..), Nat.add_sub_cancel_left, hX]
    have haddr : s.shiftAddr T.length a =
        ⟨a.table, tbl.vStackAst.length + (T.length + j)⟩ := by
      rw [shiftAddr_new hc, hj]
      congr 1
      omega
    rw [haddr]
    exact h₂.content_new hhead ht hX'
  · rw [h₁.content_eq hc, Option.some.injEq] at hn
    subst hn
    rw [shiftAddr_old (by simp [New, hc])]
    exact h₂.content_eq hc

/-- Since `s`, the first evaluation has made some nodes, and the second one those of `T` and then
the same ones. -/
structure Beside (s : ParserState D) (T : List (Node D)) (s₁ s₂ : ParserState D) : Prop where
  grown : ∃ X, Grown s X s₁ ∧ Grown s (T ++ X) s₂
  count : s₁.astAllocationCount ≤ s₂.astAllocationCount

/-- There is a table at the top, and every pointer that is kept leads to a node. -/
structure NoDangling (s : ParserState D) : Prop where
  top : ∃ t ts tbl, s.varTable = t :: ts ∧ s.tables t = some tbl
  place : ∀ P a, s.At P (.node a) → ¬ s.New (.node a)

/-- In a well formed state pointers lead to nodes that are there. -/
theorem WF.noDangling {nlits : ℕ} {typed : Prop} (h : s.WF nlits typed) : s.NoDangling := by
  refine ⟨?_, fun P a hP hnew ↦ ?_⟩
  · cases hts : s.varTable with
    | nil => exact absurd (hts ▸ h.last) (by simp)
    | cons t ts =>
      obtain ⟨tbl, ht⟩ := (h.live t).2 (hts ▸ List.mem_cons_self ..)
      exact ⟨t, ts, tbl, rfl, ht⟩
  · obtain ⟨tbl, ht, hchild⟩ := At.child h hP
    obtain ⟨n, hn, -⟩ := hchild.live
    have hlive := nodeAt_iff.1 ⟨tbl, hchild.table ▸ ht, hn⟩
    exact absurd (hlive.symm.trans hnew) (by simp)

end ParserState

open ParserState

/-! ### Reading side by side -/

section Reading

variable {s s₁ s₂ : ParserState D} {T : List (Node D)}

/-- Both computations leave the states as they are, and their results go together. -/
def SameReading {α β : Type} (s₁ s₂ : ParserState D) (R : α → β → Prop) (x : α)
    (s₁' : ParserState D) (y : β) (s₂' : ParserState D) : Prop :=
  s₁' = s₁ ∧ s₂' = s₂ ∧ R x y

/-- What reads the same in both states, and then goes on. -/
theorem SameReading.bind {α β γ δ : Type} {m : Interp D α} {m' : Interp D β} {f : α → Interp D γ}
    {f' : β → Interp D δ} {R : α → β → Prop} {Q : γ → ParserState D → δ → ParserState D → Prop}
    (h : Follows m s₁ m' s₂ (SameReading s₁ s₂ R))
    (hf : ∀ x y, R x y → Follows (f x) s₁ (f' y) s₂ Q) :
    Follows (m >>= f) s₁ (m' >>= f') s₂ Q := by
  refine h.bind ?_
  rintro x _ y _ ⟨rfl, rfl, hR⟩
  exact hf x y hR

namespace Interp

/-- Both find the same node, at its own place in either state. -/
theorem nodeAt_beside (h : Beside s T s₁ s₂) (p : Ptr) :
    Follows (nodeAt p) s₁ (nodeAt (s.shift T.length p)) s₂ (SameReading s₁ s₂ fun o o' ↦
      (o' = o.map fun x ↦ (s.shiftAddr T.length x.1, x.2)) ∧
        ∀ a n, o = some (a, n) → p = .node a ∧ s₁.content (.node a) = some (.node n)) := by
  obtain ⟨X, h₁, h₂⟩ := h.grown
  cases p with
  | null => exact Lib.follows_throw
  | node a =>
    refine Meets.follows (E := fun _ ↦ True) (S := fun o s₁' ↦ s₁' = s₁ ∧
      ∃ n, o = some (a, n) ∧ s₁.content (.node a) = some (.node n))
      (nodeAt_ensures (fun b n hb hn ↦ ?_) fun _ hnone ↦ absurd rfl (hnone a)) ?_
    · cases hb
      exact ⟨rfl, n, rfl, nodeAt_iff.1 hn⟩
    · rintro o _ ⟨rfl, n, rfl, hn⟩
      refine ⟨_, s₂, runs_nodeAt (h₁.content_shift h₂ hn), rfl, rfl, rfl, ?_⟩
      rintro b m ⟨⟩
      exact ⟨rfl, hn⟩
  | _ => exact Lib.follows_pure ⟨rfl, rfl, rfl, fun _ _ hsome ↦ by cases hsome⟩

/-- The types are the same. -/
theorem typeOf_beside (h : Beside s T s₁ s₂) (p : Ptr) :
    Follows (typeOf p) s₁ (typeOf (s.shift T.length p)) s₂ (SameReading s₁ s₂ fun ty ty' ↦
      ty' = ty ∧ (ty = .emptyType ↔ p = .empty)) := by
  obtain ⟨X, h₁, h₂⟩ := h.grown
  cases p with
  | null => exact Lib.follows_throw
  | node a =>
    refine Meets.follows (E := fun _ ↦ True) (S := fun ty s₁' ↦ s₁' = s₁ ∧
      ∃ n, ty = n.type ∧ s₁.content (.node a) = some (.node n)) (typeOf_ensures fun ty hty ↦ ?_) ?_
    · cases hty with
      | node _ n hn => exact ⟨rfl, n, rfl, nodeAt_iff.1 hn⟩
    · rintro ty _ ⟨rfl, n, rfl, hn⟩
      have hrun : Runs (typeOf (.node (s.shiftAddr T.length a))) s₂ n.type s₂ :=
        Lib.runs_bind.2 ⟨n, s₂, runs_getNode (h₁.content_shift h₂ hn), Lib.runs_pure.2 ⟨rfl, rfl⟩⟩
      refine ⟨_, s₂, hrun, rfl, rfl, rfl, ?_⟩
      cases n <;> simp [Node.type]
  | empty => exact Lib.follows_pure ⟨rfl, rfl, rfl, Iff.intro (fun _ ↦ rfl) fun _ ↦ rfl⟩
  | _ => exact Lib.follows_pure ⟨rfl, rfl, rfl, by simp⟩

/-- The names and the chain of a table are those of the state before. -/
theorem getTable_beside (h : Beside s T s₁ s₂) (t : TableId) :
    Follows (getTable t) s₁ (getTable t) s₂ (SameReading s₁ s₂ fun tbl tbl' ↦
      tbl'.vMap = tbl.vMap ∧ tbl'.prevVarTable = tbl.prevVarTable ∧
        ∃ tbl₀, s.tables t = some tbl₀ ∧ tbl₀.vMap = tbl.vMap) := by
  obtain ⟨X, h₁, h₂⟩ := h.grown
  refine Meets.follows (E := fun _ ↦ True) (S := fun tbl s₁' ↦ s₁' = s₁ ∧
    s₁.tables t = some tbl) (getTable_ensures fun tbl ht ↦ ⟨rfl, ht⟩) ?_
  rintro tbl _ ⟨rfl, ht⟩
  rw [h₁.tables] at ht
  obtain ⟨tbl₀, ht₀, rfl⟩ := Option.map_eq_some_iff.1 ht
  have ht₂ := h₂.tables t
  rw [ht₀, Option.map_some] at ht₂
  refine ⟨_, s₂, runs_getTable ht₂, rfl, rfl, ?_⟩
  split <;> exact ⟨rfl, rfl, tbl₀, ht₀, rfl⟩

/-- A name stands for the same in both, and that was there before. -/
theorem lookupIn_beside (h : Beside s T s₁ s₂) (x : Str) (ts : List TableId) :
    Follows (lookupIn x ts) s₁ (lookupIn x ts) s₂ (SameReading s₁ s₂ fun o o' ↦
      o' = o ∧ ∀ p, o = some p → ∃ t, s.At (.var t x) p) := by
  induction ts with
  | nil => exact Lib.follows_pure ⟨rfl, rfl, rfl, fun _ hp ↦ by cases hp⟩
  | cons t ts ih =>
    refine SameReading.bind (getTable_beside h t) ?_
    rintro tbl tbl' ⟨hmap, -, tbl₀, ht₀, hmap₀⟩
    rw [hmap]
    rcases hx : tbl.vMap[x]? with - | p
    · exact ih
    · refine Lib.follows_pure ⟨rfl, rfl, rfl, ?_⟩
      rintro q ⟨⟩
      exact ⟨t, tbl₀, ht₀, hmap₀ ▸ hx⟩

/-- The same from a table and its chain. -/
theorem lookup_beside (h : Beside s T s₁ s₂) (t : TableId) (x : Str) :
    Follows (lookup t x) s₁ (lookup t x) s₂ (SameReading s₁ s₂ fun o o' ↦
      o' = o ∧ ∀ p, o = some p → ∃ t, s.At (.var t x) p) := by
  refine SameReading.bind (getTable_beside h t) ?_
  rintro tbl tbl' ⟨-, hprev, -⟩
  rw [hprev]
  exact lookupIn_beside h x _

/-- The same table is at the top. -/
theorem getVarTable_beside (h : Beside s T s₁ s₂) :
    Follows getVarTable s₁ getVarTable s₂ (SameReading s₁ s₂ fun t t' ↦
      t' = t ∧ s.varTable.head? = some t) := by
  obtain ⟨X, h₁, h₂⟩ := h.grown
  refine Meets.follows (E := fun _ ↦ True) (S := fun t s₁' ↦ s₁' = s₁ ∧
    ∃ ts, s₁.varTable = t :: ts) (getVarTable_ensures fun t ts hts ↦ ⟨rfl, ts, hts⟩) ?_
  rintro t _ ⟨rfl, ts, hts⟩
  rw [h₁.varTable] at hts
  refine ⟨t, s₂, ?_, rfl, rfl, rfl, by rw [hts]; rfl⟩
  simp [getVarTable, h₂.varTable, hts]

end Interp

end Reading

/-! ### Nodes side by side -/

section Applying

variable [CDouble D] {s s₁ s₂ : ParserState D} {T : List (Node D)} {n n' : Node D} {t : TableId}
  {c : Ast} {op : UnaryOp}

/-- The results go together, and so do the states. -/
def SameResult (s : ParserState D) (T : List (Node D)) (p : Ptr) (s₁' : ParserState D) (q : Ptr)
    (s₂' : ParserState D) : Prop :=
  Beside s T s₁' s₂' ∧ q = s.shift T.length p

namespace Interp

omit [CDouble D] in
/-- What only reads leaves the states beside each other. -/
theorem sameResult_of_reading {m m' : Interp D Ptr} (h : Beside s T s₁ s₂)
    (hm : Follows m s₁ m' s₂ (SameReading s₁ s₂ fun p q ↦ q = s.shift T.length p)) :
    Follows m s₁ m' s₂ (SameResult s T) := by
  refine hm.mono ?_
  rintro p _ q _ ⟨rfl, rfl, hq⟩
  exact ⟨h, hq⟩

omit [CDouble D] in
/-- Both make a new node, or neither may. -/
theorem newStackAst_beside (h : Beside s T s₁ s₂) (hs : s.NoDangling)
    (hhead : s.varTable.head? = some t) (hplain : n.aux = none)
    (hroom : s₂.Refuses → s.Refuses) :
    Follows (newStackAst t (pure n)) s₁ (newStackAst t (pure n)) s₂ fun o s₁' o' s₂' ↦
      Beside s T s₁' s₂' ∧ o' = o.map (s.shiftAddr T.length) := by
  obtain ⟨⟨X, h₁, h₂⟩, hcount⟩ := h
  intro o s₁'' hrun
  by_cases hfull : s.Refuses
  · have hle₁ := h₁.count
    have hle₂ := h₂.count
    rw [refuses_iff] at hfull
    obtain ⟨s₁', hrun₁, hgrown₁, hcount₁⟩ :=
      h₁.newStackAst_refused (t := t) (refuses_iff.2 (by omega)) (pure n)
    obtain ⟨s₂', hrun₂, hgrown₂, hcount₂⟩ :=
      h₂.newStackAst_refused (t := t) (refuses_iff.2 (by omega)) (pure n)
    obtain ⟨rfl, rfl⟩ := hrun₁.unique hrun
    exact ⟨none, s₂', hrun₂, ⟨⟨X, hgrown₁, hgrown₂⟩, by omega⟩, rfl⟩
  · have hroom₂ : ¬ s₂.Refuses := fun hfull₂ ↦ hfull (hroom hfull₂)
    have hroom₁ : ¬ s₁.Refuses := by
      rw [refuses_iff] at hroom₂ ⊢
      omega
    obtain ⟨t', ts, tbl, hts, ht⟩ := hs.top
    obtain rfl : t' = t := by
      rw [hts] at hhead
      exact Option.some.inj hhead
    obtain ⟨s₁', hrun₁, hgrown₁, hcount₁⟩ := h₁.newStackAst hhead ht hplain hroom₁
    obtain ⟨s₂', hrun₂, hgrown₂, hcount₂⟩ := h₂.newStackAst hhead ht hplain hroom₂
    obtain ⟨rfl, rfl⟩ := hrun₁.unique hrun
    refine ⟨_, s₂', hrun₂, ⟨⟨X ++ [n], hgrown₁, ?_⟩, by omega⟩, ?_⟩
    · rwa [List.append_assoc] at hgrown₂
    · rw [Option.map_some, shiftAddr_new (new_of_index ht _), List.length_append]
      congr 2
      show tbl.vStackAst.length + (T.length + X.length) = tbl.vStackAst.length + X.length + T.length
      omega

/-- Both make a node, with the same number. -/
theorem arithOperation_beside (h : Beside s T s₁ s₂) (hs : s.NoDangling)
    (hroom : s₂.Refuses → s.Refuses) (op : BinOp) (p q : Ptr) :
    Follows (arithOperation op p q) s₁
      (arithOperation op (s.shift T.length p) (s.shift T.length q)) s₂ (SameResult s T) := by
  refine SameReading.bind (getVarTable_beside h) ?_
  rintro _ t ⟨rfl, hhead⟩
  refine SameReading.bind (nodeAt_beside h p) ?_
  rintro o _ ⟨rfl, -⟩
  refine SameReading.bind (nodeAt_beside h q) ?_
  rintro o' _ ⟨rfl, -⟩
  -- a node is made in any case
  have hnode : ∀ {n : Node D}, n.aux = none →
      Follows (do return orEmpty (← newStackAst t (pure n))) s₁
        (do return orEmpty (← newStackAst t (pure n))) s₂ (SameResult s T) := by
    intro n hplain
    refine (newStackAst_beside h hs hhead hplain hroom).bind ?_
    rintro r s₁' _ s₂' ⟨h', rfl⟩
    cases r <;> exact Lib.follows_pure ⟨h', rfl⟩
  have hnone : Follows (do
        let _ ← newStackAst t (pure .raw)
        pure Ptr.empty) s₁ (do
        let _ ← newStackAst t (pure .raw)
        pure Ptr.empty) s₂ (SameResult s T) := by
    refine (newStackAst_beside (n := .raw) h hs hhead rfl hroom).bind ?_
    rintro _ s₁' _ s₂' ⟨h', -⟩
    exact Lib.follows_pure ⟨h', rfl⟩
  rcases o with - | ⟨a, n⟩
  · exact hnone
  rcases o' with - | ⟨b, n'⟩
  · cases n <;> exact hnone
  cases n with
  | int x =>
    cases n' with
    | int y =>
      simp only [Option.map_some]
      cases arithInt op x y with
      | ok z => exact @hnode (.int z) rfl
      | error e =>
        refine (newStackAst_beside (n := .raw) h hs hhead rfl hroom).bind ?_
        rintro r s₁' _ s₂' ⟨h', rfl⟩
        cases r with
        | none => exact Lib.follows_pure ⟨h', rfl⟩
        | some a => exact Lib.follows_throw
    | _ => exact hnone
  | double x =>
    cases n' with
    | double y =>
      simp only [Option.map_some]
      cases hn : arithDouble op x y with
      | some n => exact hnode (arithDouble_plain hn)
      | none => exact hnone
    | _ => exact hnone
  | _ => cases n' <;> exact hnone

/-- The same node is overwritten with the same. -/
theorem unaryOperation_beside (h : Beside s T s₁ s₂) (p : Ptr)
    (hspare : ∀ a n n', p = .node a → s₁.content (.node a) = some (.node n) →
      op.overwrite n = some n' → s.New (.node a) ∨ n = n') :
    Follows (unaryOperation op p) s₁ (unaryOperation op (s.shift T.length p)) s₂
      (SameResult s T) := by
  rw [unaryOperation_eq, unaryOperation_eq]
  refine SameReading.bind (nodeAt_beside h p) ?_
  rintro o _ ⟨rfl, ho⟩
  rcases o with - | ⟨a, n⟩
  · exact Lib.follows_pure ⟨h, rfl⟩
  obtain ⟨rfl, hn⟩ := ho a n rfl
  rw [overwriteNode, Option.map_some, overwriteNode]
  cases hover : op.overwrite n with
  | none => exact Lib.follows_pure ⟨h, rfl⟩
  | some n' =>
    obtain ⟨⟨X, h₁, h₂⟩, hcount⟩ := h
    suffices hset : ∃ s₁' s₂', Runs (setNode a n') s₁ () s₁' ∧
        Runs (setNode (s.shiftAddr T.length a) n') s₂ () s₂' ∧ Beside s T s₁' s₂' by
      obtain ⟨s₁', s₂', hrun₁, hrun₂, h'⟩ := hset
      have hboth : Follows (setNode a n') s₁ (setNode (s.shiftAddr T.length a) n') s₂
          fun _ t₁ _ t₂ ↦ t₁ = s₁' ∧ t₂ = s₂' := by
        intro u t₁ ht₁
        exact ⟨(), s₂', hrun₂, (hrun₁.unique ht₁).2.symm, rfl⟩
      refine hboth.bind ?_
      rintro _ _ _ _ ⟨rfl, rfl⟩
      exact Lib.follows_pure ⟨h', rfl⟩
    have hplain := UnaryOp.overwrite_plain hover
    -- the operand is new in both evaluations, or the same number is written to it
    rcases hspare a n n' rfl hn hover with hnew | rfl
    · obtain ⟨hhead, tbl, j, ht, hj, hX⟩ := h₁.new_cases hnew hn
      have hX' : (T ++ X)[T.length + j]? = some n := by
        rw [List.getElem?_append_right (Nat.le_add_right ..), Nat.add_sub_cancel_left, hX]
      obtain ⟨s₁', hrun₁, hgrown₁, hcount₁⟩ := h₁.setNode hhead ht hX hplain
      obtain ⟨s₂', hrun₂, hgrown₂, hcount₂⟩ := h₂.setNode hhead ht hX' hplain
      rw [List.set_append_right _ _ (Nat.le_add_right ..), Nat.add_sub_cancel_left] at hgrown₂
      refine ⟨s₁', s₂', ?_, ?_, ⟨_, hgrown₁, hgrown₂⟩, by omega⟩
      · rwa [← hj] at hrun₁
      · rw [shiftAddr_new hnew, hj]
        rwa [← Nat.add_assoc, Nat.add_right_comm] at hrun₂
    · refine ⟨s₁, s₂, runs_setNode_self hn, ?_, ⟨X, h₁, h₂⟩, hcount⟩
      exact runs_setNode_self (h₁.content_shift h₂ hn)

omit [CDouble D] in
/-- A node with a string, a vector or a map is none of the new ones. -/
theorem content_of_aux (h : Beside s T s₁ s₂) {a : Addr}
    (hn : s₁.content (.node a) = some (.node n)) (haux : n.aux ≠ none) :
    s.content (.node a) = some (.node n) := by
  obtain ⟨X, h₁, -⟩ := h.grown
  rcases hc : s.content (.node a) with - | x
  · obtain ⟨-, tbl, j, -, -, hX⟩ := h₁.new_cases hc hn
    exact absurd (h₁.plain n (List.mem_of_getElem? hX)) haux
  · rw [h₁.content_eq hc] at hn
    exact hn

omit [CDouble D] in
/-- No vector is new, so both read the same one. -/
theorem getVector_beside (h : Beside s T s₁ s₂) (v : Addr) :
    Follows (getVector v) s₁ (getVector v) s₂ (SameReading s₁ s₂ fun ps ps' ↦
      ps' = ps ∧ s.content (.aux .vector v) = some (.vector ps)) := by
  obtain ⟨X, h₁, h₂⟩ := h.grown
  refine Meets.follows (E := fun _ ↦ True) (S := fun ps s₁' ↦ s₁' = s₁ ∧
    s₁.content (.aux .vector v) = some (.vector ps)) (getVector_ensures fun ps tbl ht hps ↦ ?_) ?_
  · refine ⟨rfl, ?_⟩
    show (s₁.tables v.table).bind _ = _
    rw [ht, Option.bind_some]
    show Option.map _ tbl.vStackVector[v.index]? = _
    rw [hps, Option.map_some]
  · rintro ps _ ⟨rfl, hps⟩
    rw [h₁.content_aux] at hps
    exact ⟨ps, s₂, runs_getVector (by rw [h₂.content_aux, hps]), rfl, rfl, rfl, hps⟩

omit [CDouble D] in
/-- No map is new, so both read the same one. -/
theorem getMap_beside (h : Beside s T s₁ s₂) (m : Addr) :
    Follows (getMap m) s₁ (getMap m) s₂ (SameReading s₁ s₂ fun adtMap adtMap' ↦
      adtMap' = adtMap ∧ s.content (.aux .map m) = some (.map adtMap)) := by
  obtain ⟨X, h₁, h₂⟩ := h.grown
  refine Meets.follows (E := fun _ ↦ True) (S := fun adtMap s₁' ↦ s₁' = s₁ ∧
    s₁.content (.aux .map m) = some (.map adtMap)) (getMap_ensures fun adtMap tbl ht hm ↦ ?_) ?_
  · refine ⟨rfl, ?_⟩
    show (s₁.tables m.table).bind _ = _
    rw [ht, Option.bind_some]
    show Option.map _ tbl.vStackMap[m.index]? = _
    rw [hm, Option.map_some]
  · rintro adtMap _ ⟨rfl, hm⟩
    rw [h₁.content_aux] at hm
    exact ⟨adtMap, s₂, runs_getMap (by rw [h₂.content_aux, hm]), rfl, rfl, rfl, hm⟩

omit [CDouble D] in
/-- A pointer that is kept somewhere leads to the same node in both. -/
theorem shift_place (hs : s.NoDangling) {P : Place} {p : Ptr} (hP : s.At P p) (k : ℕ) :
    p = s.shift k p := by
  refine (shift_old fun a ha ↦ ?_).symm
  subst ha
  exact hs.place P a hP

omit [CDouble D] in
/-- The entry of an array was there before. -/
theorem arrayAccess_beside (h : Beside s T s₁ s₂) (hs : s.NoDangling) (p q : Ptr) :
    Follows (arrayAccess p q) s₁ (arrayAccess (s.shift T.length p) (s.shift T.length q)) s₂
      (SameResult s T) := by
  refine SameReading.bind (nodeAt_beside h p) ?_
  rintro o _ ⟨rfl, ho⟩
  refine SameReading.bind (nodeAt_beside h q) ?_
  rintro o' _ ⟨rfl, -⟩
  have hempty : Follows (pure Ptr.empty : Interp D Ptr) s₁ (pure Ptr.empty : Interp D Ptr) s₂
      (SameResult s T) := Lib.follows_pure ⟨h, rfl⟩
  rcases o with - | ⟨a, n⟩
  · exact hempty
  rcases o' with - | ⟨b, n'⟩
  · cases n <;> exact hempty
  cases n with
  | array aType name v tb =>
    cases n' with
    | int i =>
      simp only [Option.map_some]
      split
      · exact hempty
      · obtain ⟨rfl, hn⟩ := ho a _ rfl
        have hn := content_of_aux h hn (by simp [Node.aux])
        refine SameReading.bind (getVector_beside h v) ?_
        rintro _ ps ⟨rfl, hps⟩
        refine Lib.follows_pure ⟨h, ?_⟩
        cases hp : ps[i.toInt.toNat]? with
        | none => rfl
        | some r =>
          exact shift_place (P := .elem a i.toInt.toNat) hs ⟨_, _, _, _, ps, hn, hps, hp⟩ _
    | _ => exact hempty
  | _ => cases n' <;> exact hempty

omit [CDouble D] in
/-- The field of a struct was there before. -/
theorem adtAccess_beside (h : Beside s T s₁ s₂) (hs : s.NoDangling) (p : Ptr) (dotName : Str) :
    Follows (adtAccess p dotName) s₁ (adtAccess (s.shift T.length p) dotName) s₂
      (SameResult s T) := by
  refine SameReading.bind (nodeAt_beside h p) ?_
  rintro o _ ⟨rfl, ho⟩
  have hempty : Follows (pure Ptr.empty : Interp D Ptr) s₁ (pure Ptr.empty : Interp D Ptr) s₂
      (SameResult s T) := Lib.follows_pure ⟨h, rfl⟩
  rcases o with - | ⟨a, n⟩
  · exact hempty
  cases n with
  | varAdt name m u =>
    obtain ⟨rfl, hn⟩ := ho a _ rfl
    have hn := content_of_aux h hn (by simp [Node.aux])
    refine SameReading.bind (getMap_beside h m) ?_
    rintro _ adtMap ⟨rfl, hm⟩
    refine Lib.follows_pure ⟨h, ?_⟩
    cases hp : adtMap[dotName]? with
    | none => rfl
    | some r => exact shift_place (P := .field a dotName) hs ⟨_, m, _, adtMap, hn, hm, hp⟩ _
  | _ => exact hempty

omit [CDouble D] in
/-- A literal is the same node in both. -/
theorem evalValue_beside (h : Beside s T s₁ s₂) {a : Addr} (ha : ¬ s.New (.node a)) :
    Follows (evalValue a) s₁ (evalValue a) s₂ (SameResult s T) := by
  obtain ⟨X, h₁, h₂⟩ := h.grown
  have hget : Follows (getNode a) s₁ (getNode a) s₂ (SameReading s₁ s₂ fun n n' ↦ n' = n) := by
    refine Meets.follows (E := fun _ ↦ True) (S := fun n s₁' ↦ s₁' = s₁ ∧
      s₁.content (.node a) = some (.node n)) (getNode_ensures fun n hn ↦ ⟨rfl, nodeAt_iff.1 hn⟩) ?_
    rintro n _ ⟨rfl, hn⟩
    have hn₂ := h₁.content_shift h₂ hn
    rw [shiftAddr_old ha] at hn₂
    exact ⟨n, s₂, runs_getNode hn₂, rfl, rfl, rfl⟩
  refine SameReading.bind hget ?_
  rintro _ n rfl
  have hnode : Ptr.node a = s.shift T.length (.node a) := congrArg Ptr.node (shiftAddr_old ha).symm
  cases n with
  | sep v => exact Lib.follows_pure ⟨h, rfl⟩
  | _ => exact Lib.follows_pure ⟨h, hnode⟩

/-- An empty operand is the result in both, or both make a node. -/
theorem binOperation_beside (h : Beside s T s₁ s₂) (hs : s.NoDangling) (op : BinOp) (p q : Ptr)
    (hroom : p ≠ .empty → q ≠ .empty → s₂.Refuses → s.Refuses) :
    Follows (binOperation op p q) s₁ (binOperation op (s.shift T.length p) (s.shift T.length q)) s₂
      (SameResult s T) := by
  refine SameReading.bind (typeOf_beside h p) ?_
  rintro _ ty ⟨rfl, hp⟩
  by_cases hty : ty = .emptyType
  · rw [if_pos hty, if_pos hty]
    exact Lib.follows_pure ⟨h, rfl⟩
  rw [if_neg hty, if_neg hty]
  refine SameReading.bind (typeOf_beside h q) ?_
  rintro _ ty' ⟨rfl, hq⟩
  by_cases hty' : ty' = .emptyType
  · rw [if_pos hty', if_pos hty']
    exact Lib.follows_pure ⟨h, rfl⟩
  rw [if_neg hty', if_neg hty']
  exact arithOperation_beside h hs (hroom (fun hempty ↦ hty (hp.2 hempty))
    fun hempty ↦ hty' (hq.2 hempty)) op q p

/-- **A node is evaluated**, or an operator is applied, in both. -/
theorem apply_beside (host host' : Host D) (hc : c.Operation fun a ↦ ¬ s.New (.node a))
    (h : Beside s T s₁ s₂) (hs : s.NoDangling) (ev : List Ptr)
    (hspare : ∀ op node a n n', c = .unary op node → ev = [.node a] →
      s₁.content (.node a) = some (.node n) → op.overwrite n = some n' →
        s.New (.node a) ∨ n = n')
    (hroom : ∀ op left right p q, c = .bin op left right → ev = [p, q] → p ≠ .empty → q ≠ .empty →
      s₂.Refuses → s.Refuses) :
    Follows (apply host c ev) s₁ (apply host' c (ev.map (s.shift T.length))) s₂
      (SameResult s T) := by
  have hempty : Follows (pure Ptr.empty : Interp D Ptr) s₁ (pure Ptr.empty : Interp D Ptr) s₂
      (SameResult s T) := Lib.follows_pure ⟨h, rfl⟩
  cases hc with
  | literal ha => exact evalValue_beside h ha
  | refVar name =>
    refine sameResult_of_reading h (SameReading.bind (getVarTable_beside h) ?_)
    rintro _ t ⟨rfl, -⟩
    refine SameReading.bind (lookup_beside h t name) ?_
    rintro _ o ⟨rfl, ho⟩
    refine Lib.follows_pure ⟨rfl, rfl, ?_⟩
    cases o with
    | none => rfl
    | some p =>
      obtain ⟨u, hu⟩ := ho p rfl
      exact shift_place hs hu _
  | refVarArray hname haccess =>
    rcases ev with - | ⟨p, - | ⟨q, - | ⟨r, ev⟩⟩⟩
    · exact hempty
    · exact hempty
    · exact arrayAccess_beside h hs q p
    · exact hempty
  | refVarAdt hname dotName =>
    rcases ev with - | ⟨p, - | ⟨q, ev⟩⟩
    · exact hempty
    · exact adtAccess_beside h hs p dotName
    · exact hempty
  | unary op hnode =>
    rcases ev with - | ⟨p, - | ⟨q, ev⟩⟩
    · exact hempty
    · exact unaryOperation_beside h p fun a n n' hp ↦ hspare op _ a n n' rfl (hp ▸ rfl)
    · exact hempty
  | bin op hleft hright =>
    rcases ev with - | ⟨p, - | ⟨q, - | ⟨r, ev⟩⟩⟩
    · exact hempty
    · exact hempty
    · exact binOperation_beside h hs op p q (hroom op _ _ p q rfl rfl)
    · exact hempty

end Interp

end Applying

/-! ### The two evaluations side by side -/

section Running

variable [CDouble D] {s s' s'' s₁ s₂ : ParserState D} {T X : List (Node D)} {c : Ast}

/-- The call or the return of the second evaluation. -/
def Ctrl.shift (s : ParserState D) (k : ℕ) : Ctrl → Ctrl
  | .ret p => .ret (s.shift k p)
  | ctrl => ctrl

/-- What waits in the second evaluation. -/
def Frame.shift (s : ParserState D) (k : ℕ) : Frame → Frame
  | .operands c ev pending rc => .operands c (ev.map (s.shift k)) pending rc
  | frame => frame

/-- The second evaluation is where the first one is. -/
structure Machine.Beside (s : ParserState D) (T : List (Node D)) (m₁ m₂ : Machine D) : Prop where
  ctrl : m₂.ctrl = m₁.ctrl.shift s T.length
  stack : m₂.stack = m₁.stack.map (Frame.shift s T.length)
  ps : ParserState.Beside s T m₁.ps m₂.ps

/-- If the next step applies a binary operator, it gets the node for its result, or there was no
node to be had in the state `s` either. -/
def Machine.HasRoom (s : ParserState D) (m : Machine D) : Prop :=
  ∀ op left right p q rc stack, m.ctrl = .ret q →
    m.stack = .operands (.bin op left right) [p] [] rc :: stack → p ≠ .empty → q ≠ .empty →
      m.ps.Refuses → s.Refuses

namespace Interp

/-- What comes next is the same in both. -/
def SameNext (s : ParserState D) (T : List (Node D)) (r : Next) (s₁' : ParserState D) (r' : Next)
    (s₂' : ParserState D) : Prop :=
  r'.1 = r.1.shift s T.length ∧ r'.2 = r.2.map (Frame.shift s T.length) ∧ Beside s T s₁' s₂'

/-- The next operand, or the operation itself. -/
theorem nextOperand_beside (host host' : Host D) (hc : c.Operation fun a ↦ ¬ s.New (.node a))
    (h : Beside s T s₁ s₂) (hs : s.NoDangling) (ev : List Ptr) (pending : List Ast) (rc : ℕ)
    (hspare : ∀ op node a n n', c = .unary op node → ev = [.node a] → pending = [] →
      s₁.content (.node a) = some (.node n) → op.overwrite n = some n' →
        s.New (.node a) ∨ n = n')
    (hroom : ∀ op left right p q, c = .bin op left right → ev = [p, q] → pending = [] →
      p ≠ .empty → q ≠ .empty → s₂.Refuses → s.Refuses) :
    Follows (nextOperand host c ev pending rc) s₁
      (nextOperand host' c (ev.map (s.shift T.length)) pending rc) s₂ (SameNext s T) := by
  have hproceed : Follows (proceed c ev) s₁ (proceed c (ev.map (s.shift T.length))) s₂
      (SameReading s₁ s₂ fun b b' ↦ b = true ∧ b' = true) := by
    rw [proceed_operation hc, proceed_operation hc]
    exact Lib.follows_pure ⟨rfl, rfl, rfl, rfl⟩
  refine SameReading.bind hproceed ?_
  rintro _ _ ⟨rfl, rfl⟩
  rw [if_pos rfl, if_pos rfl]
  cases pending with
  | nil =>
    refine (apply_beside host host' hc h hs ev ?_ ?_).bind ?_
    · exact fun op node a n n' hunary hev ↦ hspare op node a n n' hunary hev rfl
    · exact fun op left right p q hbin hev ↦ hroom op left right p q hbin hev rfl
    · rintro p s₁' _ s₂' ⟨h', rfl⟩
      exact Lib.follows_pure ⟨rfl, rfl, h'⟩
  | cons d ds => exact Lib.follows_pure ⟨rfl, rfl, h⟩

omit [CDouble D] in
/-- The slices may differ, and nothing else is touched. -/
theorem enter_beside (h : Beside s T s₁ s₂) (rc : ℕ) :
    Follows (enter rc) s₁ (enter rc) s₂ fun b s₁' b' s₂' ↦ b' = b ∧ Beside s T s₁' s₂' := by
  obtain ⟨⟨X, h₁, h₂⟩, hcount⟩ := h
  rw [enter]
  by_cases hdeep : MAX_RECURSE_COUNT < rc
  · rw [if_pos hdeep]
    exact Lib.follows_pure ⟨rfl, ⟨X, h₁, h₂⟩, hcount⟩
  rw [if_neg hdeep]
  intro b s₁' hrun
  obtain ⟨u, t₁, hmodify, hpure⟩ := Lib.runs_bind.1 hrun
  obtain ⟨rfl, rfl⟩ := Lib.runs_pure.1 hpure
  refine ⟨true, _, Lib.runs_bind.2 ⟨(), _, Lib.runs_modify.2 rfl, Lib.runs_pure.2 ⟨rfl, rfl⟩⟩, rfl,
    ?_⟩
  obtain rfl := Lib.runs_modify.1 hmodify
  -- the number of evaluations that are left is all that changes
  have htick : ∀ t : ParserState D, ∃ k, (if t.evalCount = -1 then t else
      { t with evalCount := (if t.evalCount = 0 then INSTRUCTIONS_PER_IT else t.evalCount) - 1 }) =
        { t with evalCount := k } := by
    intro t
    split
    · exact ⟨t.evalCount, rfl⟩
    · exact ⟨_, rfl⟩
  obtain ⟨k₁, hk₁⟩ := htick s₁
  obtain ⟨k₂, hk₂⟩ := htick s₂
  rw [hk₁, hk₂]
  exact ⟨⟨X, h₁.of_tables rfl rfl le_rfl, h₂.of_tables rfl rfl le_rfl⟩, hcount⟩

/-- An operation starts with its first operand in both. -/
theorem evalNode_beside (host host' : Host D) (hc : c.Operation fun a ↦ ¬ s.New (.node a))
    (h : Beside s T s₁ s₂) (hs : s.NoDangling) (rc : ℕ) :
    Follows (evalNode host c rc) s₁ (evalNode host' c rc) s₂ (SameNext s T) := by
  refine (enter_beside h rc).bind ?_
  rintro _ s₁' b s₂' ⟨rfl, h'⟩
  cases b with
  | false => exact Lib.follows_pure ⟨rfl, rfl, h'⟩
  | true =>
    rw [if_pos rfl, if_pos rfl]
    have hnext : Follows (nextOperand host c [] c.operands rc) s₁'
        (nextOperand host' c [] c.operands rc) s₂' (SameNext s T) := by
      refine nextOperand_beside host host' hc h' hs [] c.operands rc ?_ ?_
      · intro op node a n n' _ hev
        cases hev
      · intro op left right p q _ hev
        cases hev
    cases hc <;> exact hnext

end Interp

/-- **One step** of the first evaluation is followed by one of the second. -/
theorem Machine.Beside.step {m₁ m₁' m₂ : Machine D} {host : Host D} (host' : Host D)
    (hm : m₁.Evaluates fun a ↦ ¬ s.New (.node a)) (h : Machine.Beside s T m₁ m₂)
    (hs : s.NoDangling) (hspare : m₁.Spares s) (hroom : m₂.HasRoom s)
    (hstep : m₁.step? host = some m₁') :
    ∃ m₂', m₂.step? host' = some m₂' ∧ Machine.Beside s T m₁' m₂' := by
  obtain ⟨ctrl, stack, ps₁⟩ := m₁
  obtain ⟨ctrl', stack', ps₂⟩ := m₂
  obtain ⟨rfl, rfl, hps⟩ := h
  have hnext : ∀ {i i' : Interp D Interp.Next} {rest : List Frame},
      Follows i ps₁ i' ps₂ (Interp.SameNext s T) → (i ps₁).map (Machine.next rest) = .ok m₁' →
        ∃ m₂', (i' ps₂).map (Machine.next (rest.map (Frame.shift s T.length))) = .ok m₂' ∧
          Machine.Beside s T m₁' m₂' := by
    intro i i' rest hi hok
    cases hips : i ps₁ with
    | error e =>
      rw [hips] at hok
      cases hok
    | ok r =>
      rw [hips] at hok
      obtain rfl := Except.ok.inj hok
      obtain ⟨r', s₂', hrun, hctrl, hframes, h'⟩ := hi r.1 r.2 hips
      have hrun : i' ps₂ = .ok (r', s₂') := hrun
      refine ⟨Machine.next (rest.map (Frame.shift s T.length)) (r', s₂'), by rw [hrun]; rfl,
        hctrl, ?_, h'⟩
      show r'.2 ++ rest.map _ = (r.1.2 ++ rest).map _
      rw [hframes, List.map_append]
  have hlift : ∀ {m₂ : Machine D},
      (∃ m₂', m₂.step host' = .ok m₂' ∧ Machine.Beside s T m₁' m₂') →
        ∃ m₂', m₂.step? host' = some m₂' ∧ Machine.Beside s T m₁' m₂' := by
    intro m₂ h
    obtain ⟨m₂', hstep, h⟩ := h
    exact ⟨m₂', by rw [Machine.step?, hstep], h⟩
  have hok : Machine.step host ⟨ctrl, stack, ps₁⟩ = .ok m₁' := Machine.step?_eq_some hstep
  refine hlift ?_
  cases hm.ctrl with
  | eval rc hc => exact hnext (Interp.evalNode_beside host host' hc hps hs rc) hok
  | ret p =>
    cases stack with
    | nil => cases hok
    | cons frame rest =>
      cases hm.stack frame (List.mem_cons_self ..) with
      | @operands c ev pending rc hc hpending =>
        have hfollows : Follows (Interp.nextOperand host c (ev ++ [p]) pending rc) ps₁
            (Interp.nextOperand host' c (ev.map (s.shift T.length) ++ [s.shift T.length p]) pending
              rc) ps₂ (Interp.SameNext s T) := by
          have hmap : ev.map (s.shift T.length) ++ [s.shift T.length p] =
              (ev ++ [p]).map (s.shift T.length) := by
            rw [List.map_append, List.map_singleton]
          rw [hmap]
          refine Interp.nextOperand_beside host host' hc hps hs _ pending rc ?_ ?_
          -- a unary operator has its only operand
          · intro op node a n n' hunary hev hnil hn hover
            subst hunary hnil
            obtain ⟨rfl, hp⟩ : ev = [] ∧ p = .node a := by
              cases ev with
              | nil => exact ⟨rfl, (List.cons.inj hev).1⟩
              | cons q ev => exact absurd (congrArg List.length hev) (by simp)
            subst hp
            refine (hspare a n' ⟨op, node, rc, rest, n, rfl, rfl, hn, hover⟩).imp_right
              fun hsame ↦ ?_
            cases hn.symm.trans hsame
            rfl
          -- a binary operator has its second operand, and both make room for a node
          · intro op left right q r hbin hev hnil hq hr
            subst hbin hnil
            obtain ⟨rfl, rfl⟩ : ev = [q] ∧ p = r := by
              rcases ev with - | ⟨q', - | ⟨r', ev⟩⟩
              · exact absurd (congrArg List.length hev) (by simp)
              · obtain ⟨rfl, htail⟩ := List.cons.inj hev
                exact ⟨rfl, (List.cons.inj htail).1⟩
              · exact absurd (congrArg List.length hev) (by simp)
            exact hroom op left right _ _ rc _ rfl rfl (shift_ne_empty hq) (shift_ne_empty hr)
        exact hnext hfollows hok

/-- **A run** of the first evaluation is followed by one of the second. -/
theorem Machine.Beside.run (hs : s.NoDangling) : ∀ {hosts again : List (Host D)}
    {m₁ m₁' m₂ : Machine D}, again.length = hosts.length →
      m₁.Evaluates (fun a ↦ ¬ s.New (.node a)) → Machine.Beside s T m₁ m₂ →
        Lib.AllSteps (fun m _ ↦ m.Spares s) Machine.step? m₁ hosts →
          Lib.AllSteps (fun m _ ↦ m.HasRoom s) Machine.step? m₂ again →
            Lib.run Machine.step? m₁ hosts = some m₁' →
              ∃ m₂', Lib.run Machine.step? m₂ again = some m₂' ∧ Machine.Beside s T m₁' m₂' := by
  intro hosts
  induction hosts with
  | nil =>
    intro again m₁ m₁' m₂ hlen _ h _ _ hrun
    rw [Lib.run_nil, Option.some.injEq] at hrun
    subst hrun
    rw [List.length_eq_zero_iff.1 hlen]
    exact ⟨m₂, rfl, h⟩
  | cons host hosts ih =>
    intro again m₁ m₁' m₂ hlen hm h hspare hroom hrun
    cases again with
    | nil => exact absurd hlen (by simp)
    | cons host' again =>
      obtain ⟨m, hstep, hrest⟩ := Lib.run_cons_eq_some.1 hrun
      obtain ⟨m', hstep', h'⟩ := h.step host' hm hs hspare.1 hroom.1 hstep
      obtain ⟨X, h₁, -⟩ := h.ps.grown
      obtain ⟨m₂', hrun', hend⟩ := ih (Nat.succ.inj hlen) (hm.step h₁ hspare.1 hstep).1 h'
        (hspare.2 m hstep) (hroom.2 m' hstep') hrest
      exact ⟨m₂', Lib.run_cons_eq_some.2 ⟨m', hstep', hrun'⟩, hend⟩

end Running

/-! ### What an expression leaves alone -/

section Results

variable {s s' s'' : ParserState D} {T X : List (Node D)} {p : Ptr}

/-- The variables and the literals are as they were, and all else that was there. -/
structure Unchanged (s s' : ParserState D) : Prop where
  varTable : s'.varTable = s.varTable
  vMap : ∀ t tbl, s.tables t = some tbl → ∃ tbl', s'.tables t = some tbl' ∧
    tbl'.vMap = tbl.vMap ∧ tbl'.prevVarTable = tbl.prevVarTable
  cell : ∀ c x, s.content c = some x → s'.content c = some x

/-- What has only grown has not changed. -/
theorem ParserState.Grown.unchanged (h : Grown s X s') : Unchanged s s' := by
  refine ⟨h.varTable, fun t tbl ht ↦ ?_, fun c x hx ↦ h.content_eq hx⟩
  have ht' := h.tables t
  rw [ht, Option.map_some] at ht'
  refine ⟨_, ht', ?_⟩
  split <;> exact ⟨rfl, rfl⟩

/-- What was there after the first evaluation is there after the second. -/
theorem ParserState.Grown.unchanged_append (h : Grown s T s') (h' : Grown s (T ++ X) s'') :
    Unchanged s' s'' := by
  refine ⟨h'.varTable.trans h.varTable.symm, fun t tbl ht ↦ ?_, fun c x hx ↦ ?_⟩
  · rw [h.tables] at ht
    obtain ⟨tbl₀, ht₀, rfl⟩ := Option.map_eq_some_iff.1 ht
    have ht' := h'.tables t
    rw [ht₀, Option.map_some] at ht'
    refine ⟨_, ht', ?_⟩
    split <;> exact ⟨rfl, rfl⟩
  · cases c with
    | aux k b => rwa [h'.content_aux, ← h.content_aux]
    | node a =>
      rcases hc : s.content (.node a) with - | y
      · obtain ⟨n, rfl⟩ : ∃ n, x = .node n := by
          obtain ⟨tbl, -, hx⟩ := content_eq_some hx
          obtain ⟨n, -, rfl⟩ := Option.map_eq_some_iff.1 hx
          exact ⟨n, rfl⟩
        obtain ⟨hhead, tbl, j, ht, hj, hT⟩ := h.new_cases hc hx
        have hT' : (T ++ X)[j]? = some n := by
          rw [List.getElem?_append_left (List.getElem?_eq_some_iff.1 hT).1, hT]
        have hnew := h'.content_new hhead ht hT'
        rwa [← hj] at hnew
      · rw [h.content_eq hc, ← h'.content_eq hc] at hx
        exact hx

/-- What `p` leads to in the one state is what `q` leads to in the other. -/
structure SameValue (s' : ParserState D) (p : Ptr) (s'' : ParserState D) (q : Ptr) : Prop where
  value : ∀ x, Denotes (fun _ ↦ True) s' x p → Denotes (fun _ ↦ True) s'' x q
  node : ∀ a n, p = .node a → s'.content (.node a) = some (.node n) →
    ∃ b, q = .node b ∧ s''.content (.node b) = some (.node n)
  other : (∀ a, p ≠ .node a) → q = p

/-- The same node in two states that agree on what it holds. -/
theorem sameValue_of_unchanged (h : Unchanged s' s'') {q : Ptr}
    (hnode : ∀ a n, p = .node a → s'.content (.node a) = some (.node n) →
      ∃ b, q = .node b ∧ s''.content (.node b) = some (.node n))
    (hother : (∀ a, p ≠ .node a) → q = p) : SameValue s' p s'' q := by
  have hreads : ∀ c y, Reads (fun _ ↦ True) s' c y → Reads (fun _ ↦ True) s'' c y :=
    fun c y hc ↦ ⟨hc.1, h.cell c y hc.2⟩
  refine ⟨fun x hx ↦ ?_, hnode, hother⟩
  cases x with
  | int i =>
    obtain ⟨a, rfl, -, ha⟩ := hx
    obtain ⟨b, rfl, hb⟩ := hnode a _ rfl ha
    exact ⟨b, rfl, trivial, hb⟩
  | double d =>
    obtain ⟨a, rfl, -, ha⟩ := hx
    obtain ⟨b, rfl, hb⟩ := hnode a _ rfl ha
    exact ⟨b, rfl, trivial, hb⟩
  | string y =>
    obtain ⟨a, c, rfl, ⟨-, ha⟩, hstring⟩ := hx
    obtain ⟨b, rfl, hb⟩ := hnode a _ rfl ha
    exact ⟨b, c, rfl, ⟨trivial, hb⟩, hreads _ _ hstring⟩
  | array aType name xs =>
    obtain ⟨a, v, tb, ps, rfl, ⟨-, ha⟩, hvector, hps⟩ := hx
    obtain ⟨b, rfl, hb⟩ := hnode a _ rfl ha
    refine ⟨b, v, tb, ps, rfl, ⟨trivial, hb⟩, hreads _ _ hvector, ?_⟩
    exact denotesVector_iff.2 ((denotesVector_iff.1 hps).imp fun y r hy ↦ hy.imp hreads)
  | adt name fs =>
    obtain ⟨a, m, u, adtMap, rfl, ⟨-, ha⟩, hmap, hfs⟩ := hx
    obtain ⟨b, rfl, hb⟩ := hnode a _ rfl ha
    refine ⟨b, m, u, adtMap, rfl, ⟨trivial, hb⟩, hreads _ _ hmap, ?_⟩
    exact denotesMap_iff.2 ((denotesMap_iff.1 hfs).imp fun f e he ↦ ⟨he.1, he.2.imp hreads⟩)
  | empty => exact hx.elim
  | sep xs => exact hx.elim
  | other ty => exact hx.elim

variable [CDouble D]

/-- **An expression changes nothing** if and only if no step of its evaluation overwrites a node
that was there before. And then a second evaluation has the same value, as long as there is room for
its new nodes. -/
theorem operation_unchanged_iff {e : Ast} (he : e.Operation fun a ↦ ¬ s.New (.node a)) (rc : ℕ)
    (hosts : List (Host D)) :
    ((∀ earlier m, earlier <+: hosts →
        Lib.run Machine.step? ⟨.eval e rc, [], s⟩ earlier = some m → Unchanged s m.ps) ↔
      Lib.AllSteps (fun m _ ↦ m.Spares s) Machine.step? ⟨.eval e rc, [], s⟩ hosts) ∧
    (s.NoDangling → Lib.AllSteps (fun m _ ↦ m.Spares s) Machine.step? ⟨.eval e rc, [], s⟩ hosts →
      ∀ p s', Lib.run Machine.step? ⟨.eval e rc, [], s⟩ hosts = some ⟨.ret p, [], s'⟩ →
        ∀ again, again.length = hosts.length →
          Lib.AllSteps (fun m _ ↦ m.HasRoom s) Machine.step? ⟨.eval e rc, [], s'⟩ again →
            ∃ q s'', Lib.run Machine.step? ⟨.eval e rc, [], s'⟩ again = some ⟨.ret q, [], s''⟩ ∧
              SameValue s' p s'' q ∧ Unchanged s' s'') := by
  have hstart : Machine.Evaluates (D := D) (fun a ↦ ¬ s.New (.node a)) ⟨.eval e rc, [], s⟩ :=
    ⟨.eval rc he, fun _ hf ↦ absurd hf List.not_mem_nil⟩
  have hstep : ∀ (m : Machine D) (host : Host D) (m' : Machine D),
      (m.Evaluates (fun a ↦ ¬ s.New (.node a)) ∧ ∃ X, Grown s X m.ps) → m.Spares s →
        m.step? host = some m' →
          m'.Evaluates (fun a ↦ ¬ s.New (.node a)) ∧ ∃ X, Grown s X m'.ps := by
    rintro m host m' ⟨hm, X, h⟩ hspare hm'
    exact hm.step h hspare hm'
  constructor
  · refine Lib.forall_run_iff_allSteps (P := fun m : Machine D ↦
      m.Evaluates (fun a ↦ ¬ s.New (.node a)) ∧ ∃ X, Grown s X m.ps) ?_ hstep ?_
      ⟨hstart, [], .refl s⟩
    · rintro m ⟨-, X, h⟩
      exact h.unchanged
    · rintro m host ⟨-, X, h⟩ hspare
      obtain ⟨m', hm', c, x, hx, hne⟩ := Machine.exists_step_of_not_spares host h hspare
      exact ⟨m', hm', fun hunchanged ↦ hne (hunchanged.cell c x hx)⟩
  · intro hs hspare p s' hrun again hlen hroom
    obtain ⟨-, T, hT⟩ := Lib.run_invariant hstep ⟨hstart, [], .refl s⟩ hspare hrun
    -- the second evaluation starts behind the nodes of the first
    have hbeside : Machine.Beside s T ⟨.eval e rc, [], s⟩ ⟨.eval e rc, [], s'⟩ := by
      refine ⟨rfl, rfl, ⟨[], .refl s, ?_⟩, hT.count⟩
      rwa [List.append_nil]
    obtain ⟨⟨ctrl, stack, s''⟩, hrun', hctrl, hstack, ⟨X, h₁, h₂⟩, -⟩ :=
      hbeside.run hs hlen (hstart) hspare hroom hrun
    obtain rfl : ctrl = .ret (s.shift T.length p) := hctrl
    obtain rfl : stack = [] := hstack
    have hunchanged : Unchanged s' s'' := hT.unchanged_append h₂
    refine ⟨_, s'', hrun', sameValue_of_unchanged hunchanged (fun a n ha hn ↦ ?_) fun hp ↦ ?_,
      hunchanged⟩
    · subst ha
      exact ⟨_, rfl, h₁.content_shift h₂ hn⟩
    · exact shift_old fun a ha ↦ absurd ha (hp a)

end Results

/-! ### One literal -/

section Literal

/-- The state in which the literal 1 has been read. -/
def oneLiteral : ParserState Unit :=
  { (ParserState.new : ParserState Unit) with
    astAllocationCount := 1
    tables := Function.update (ParserState.new : ParserState Unit).tables 0
      (some { (VarTable.new [] : VarTable Unit) with vStackAst := [.int 1] }) }

/-- The literal 1 is loaded. -/
theorem runs_oneLiteral : Runs (loadLiterals [.int 1]) .new () oneLiteral := rfl

/-- It is the first node of the global table. -/
theorem oneLiteral_content : oneLiteral.content (.node ⟨0, 0⟩) = some (.node (.int 1)) := rfl

/-- So it is not new. -/
theorem oneLiteral_not_new : ¬ oneLiteral.New (.node ⟨0, 0⟩) :=
  fun hnew ↦ absurd (oneLiteral_content.symm.trans hnew) (by simp)

/-- There is no pointer yet. -/
theorem oneLiteral_noDangling : oneLiteral.NoDangling := by
  have hnew : (ParserState.new (D := Unit)).WF 0 True := wf_new
  have hlen : 0 + [Literal.int (D := Unit) 1].length ≤ Value.MAX_AST_PER_STACK := by decide
  have hload := loadLiterals_ensures _ 0 .new hnew blank_new hlen
  exact (hload.run runs_oneLiteral).1.noDangling

/-- `-(1 + 1)`. -/
def minusSum : Ast := .unary .minus (.bin .add (.literal ⟨0, 0⟩) (.literal ⟨0, 0⟩))

/-- The minus is put before a sum, which is computed. -/
theorem minusSum_sparing : minusSum.Sparing fun a ↦ ¬ oneLiteral.New (.node a) := by
  have hliteral := Ast.Sparing.literal (L := fun a ↦ ¬ oneLiteral.New (.node a)) oneLiteral_not_new
  exact .unary .minus (.bin .add hliteral hliteral) (.bin .add _ _)

/-- There is room for the sum, also the second time. The operator writes over it. -/
theorem runs_minusSum (host : Host Unit) : ∃ _ : CDouble Unit, ∃ s',
    Lib.run Machine.step? ⟨.eval minusSum 0, [], oneLiteral⟩ (List.replicate 7 host) =
        some ⟨.ret (.node ⟨0, 1⟩), [], s'⟩ ∧
      s'.content (.node ⟨0, 1⟩) = some (.node (.int (-2))) ∧
      Lib.AllSteps (fun m _ ↦ m.HasRoom oneLiteral) Machine.step? ⟨.eval minusSum 0, [], s'⟩
        (List.replicate 7 host) := by
  refine ⟨noDoubles, _, rfl, rfl, ?_⟩
  refine (Lib.allSteps_of_run_ite (t := ⟨.ret (.node ⟨0, 2⟩), [], _⟩)
    (g := fun (m : Machine Unit) _ ↦ decide (m.ps.astAllocationCount < Value.MAX_AST_PER_STACK))
    rfl).1.imp fun m _ hm ↦ ?_
  intro op left right p q rc stack _ _ _ _ hfull
  exact absurd (refuses_iff.1 hfull) (Nat.not_le.2 (of_decide_eq_true hm))

/-- `-(1 + 1)` leaves the literal alone, and the second evaluation has the same value, -2. -/
theorem operation_unchanged_minusSum : ∃ (_ : CDouble Unit) (hosts : List (Host Unit)) (p q : Ptr)
    (s' s'' : ParserState Unit),
    Lib.run Machine.step? ⟨.eval minusSum 0, [], oneLiteral⟩ hosts = some ⟨.ret p, [], s'⟩ ∧
      p = .node ⟨0, 1⟩ ∧ s'.content (.node ⟨0, 1⟩) = some (.node (.int (-2))) ∧
      Unchanged oneLiteral s' ∧
      Lib.run Machine.step? ⟨.eval minusSum 0, [], s'⟩ hosts = some ⟨.ret q, [], s''⟩ ∧
      SameValue s' p s'' q := by
  obtain ⟨_, s', hrun, hvalue, hroom⟩ := runs_minusSum (bareHost Unit)
  have hspare := minusSum_sparing.allSteps_spares (s := oneLiteral) 0
    (List.replicate 7 (bareHost Unit))
  obtain ⟨hunchanged, htwice⟩ :=
    operation_unchanged_iff minusSum_sparing.operation 0 (List.replicate 7 (bareHost Unit))
  obtain ⟨q, s'', hrun', hsame, -⟩ := htwice oneLiteral_noDangling hspare _ s' hrun _ rfl hroom
  exact ⟨_, _, _, q, s', s'', hrun, rfl, hvalue,
    hunchanged.2 hspare _ _ (List.prefix_refl _) hrun, hrun', hsame⟩

/-- The expression `-1` changes the literal: it is -1 after the first evaluation, and 1 after the
second. -/
theorem operation_changes_literal : ∃ (_ : CDouble Unit) (e : Ast) (hosts : List (Host Unit))
    (p q : Ptr) (s' s'' : ParserState Unit),
    Runs (loadLiterals [.int 1]) .new () oneLiteral ∧
      e.Operation (fun a ↦ ¬ oneLiteral.New (.node a)) ∧
      Lib.run Machine.step? ⟨.eval e 0, [], oneLiteral⟩ hosts = some ⟨.ret p, [], s'⟩ ∧
      Lib.run Machine.step? ⟨.eval e 0, [], s'⟩ hosts = some ⟨.ret q, [], s''⟩ ∧
      ¬ Unchanged oneLiteral s' ∧ ¬ SameValue s' p s'' q := by
  refine ⟨noDoubles, .unary .minus (.literal ⟨0, 0⟩), List.replicate 3 (bareHost Unit),
    .node ⟨0, 0⟩, .node ⟨0, 0⟩, _, _, rfl, .unary .minus (.literal oneLiteral_not_new), rfl, rfl,
    fun h ↦ ?_, fun h ↦ ?_⟩
  · have hcell := h.cell _ _ oneLiteral_content
    have heq : some (Content.node (D := Unit) (.int (-1))) = some (.node (.int 1)) := hcell
    simp at heq
  · obtain ⟨b, hb, hcell⟩ := h.node ⟨0, 0⟩ (.int (-1)) rfl rfl
    cases hb
    have heq : some (Content.node (D := Unit) (.int 1)) = some (.node (.int (-1))) := hcell
    simp at heq

end Literal

end Meridian.MQL

import Meridian.MQL.HeapReachable
import Meridian.MQL.Ownership

/-!
# What an assignment writes to

An assignment writes to the destination only: to its node, its string or vector, and for a struct to
those of its fields (`Target`). That holds whether it succeeds or fails (`updateFuel_writes`), and
with the ownership tree it means that a value apart from the destination stays.

An assignment that fails need not leave the destination as it was. What it does leave alone is in
`failed_assignment`.
-/

namespace Meridian.MQL

open ParserState VarTable Interp Relation
open Lib (Runs Meets)

variable {D : Type} {nlits : ℕ} {typed : Prop} {s s' s₀ : ParserState D} {a b : Addr} {c : Cell}
  {p q l r : Ptr}

/-! ### The cells of the destination -/

namespace ParserState

/-- The cells that an assignment can write to. -/
inductive Target (s : ParserState D) : Ptr → Cell → Prop
  | node {a n} (hn : s.content (.node a) = some (.node n)) : Target s (.node a) (.node a)
  | aux {a n k b} (hn : s.content (.node a) = some (.node n)) (hb : n.aux = some (k, b))
      (hk : k ≠ .map) : Target s (.node a) (.aux k b)
  | field {a k q c} (hq : s.At (.field a k) q) (hc : Target s q c) : Target s (.node a) c

/-- The node that a pointer leads to is there. -/
def Live (s : ParserState D) (p : Ptr) : Prop :=
  ∀ a, p = .node a → ∃ n, s.content (.node a) = some (.node n)

/-- An assignment never writes to the map of a struct. -/
theorem Target.ne_map (h : s.Target p c) (m : Addr) : c ≠ .aux .map m := by
  induction h with
  | node hn => simp
  | aux hn hb hk =>
    intro heq
    exact hk (Cell.aux.inj heq).1
  | field hq hc ih => exact ih

/-- What the destination owns. -/
theorem Target.owns (h : s.Target p c) : ∃ a, p = .node a ∧ s.Owns a c := by
  induction h with
  | node hn => exact ⟨_, rfl, _, _, .refl, hn, .inl rfl⟩
  | aux hn hb hk => exact ⟨_, rfl, _, _, .refl, hn, .inr ⟨_, _, hb, rfl⟩⟩
  | field hq hc ih =>
    obtain ⟨b, rfl, d, n, hbd, hd, hcell⟩ := ih
    exact ⟨_, rfl, d, n, .head ⟨_, rfl, hq⟩ hbd, hd, hcell⟩

/-- A field of a struct is there. -/
theorem At.live {P : Place} (h : s.WF nlits typed) (hP : s.At P p) : s.Live p := by
  rintro a rfl
  obtain ⟨tbl, ht, hchild⟩ := hP.child h
  obtain ⟨n, hn, -⟩ := hchild.live
  exact ⟨n, nodeAt_iff.1 ⟨tbl, hchild.table ▸ ht, hn⟩⟩

/-- The fields of a struct that was there stay. -/
theorem At.back {k : Str} (h : s.WF nlits typed) (he : Evolves s.sizes s s')
    (hmaps : ∀ m x, s.content (.aux .map m) = some x → s'.content (.aux .map m) = some x)
    (ha : s.Live (.node a)) (hq : s'.At (.field a k) q) : s.At (.field a k) q := by
  obtain ⟨name, m, u, adtMap, hn', hm', hk⟩ := hq
  obtain ⟨n, hn⟩ := ha a rfl
  obtain ⟨n', hn'', hkind⟩ := (nodeAt_iff.2 hn).evolves he
  cases hn'.symm.trans (nodeAt_iff.1 hn'')
  obtain rfl := hkind.varAdt_eq.1 rfl
  have hlive : s.content (.aux .map m) ≠ none :=
    not_new_of_cells h hn (.inr ⟨.map, m, rfl, rfl⟩)
  obtain ⟨y, hy⟩ := Option.ne_none_iff_exists'.1 hlive
  cases (hmaps m y hy).symm.trans hm'
  exact ⟨name, m, u, adtMap, hn, hy, hk⟩

/-- The cells of the destination stay the same. -/
theorem Target.back (h : s.WF nlits typed) (he : Evolves s.sizes s s')
    (hmaps : ∀ m x, s.content (.aux .map m) = some x → s'.content (.aux .map m) = some x)
    (hp : s.Live p) (hc : s'.Target p c) : s.Target p c := by
  induction hc with
  | node hn' =>
    obtain ⟨n, hn⟩ := hp _ rfl
    exact .node hn
  | aux hn' hb hk =>
    obtain ⟨n, hn⟩ := hp _ rfl
    obtain ⟨n', hn'', hkind⟩ := (nodeAt_iff.2 hn).evolves he
    cases hn'.symm.trans (nodeAt_iff.1 hn'')
    exact .aux hn (hkind.aux_eq ▸ hb) hk
  | field hq hc ih =>
    have hq := hq.back h he hmaps hp
    exact .field hq (ih (hq.live h))

end ParserState

namespace Interp

/-- The assignment writes to the destination only. -/
def Frames (nlits : ℕ) (typed : Prop) (assign : Ptr → Ptr → Interp D Bool) : Prop :=
  ∀ l r, ∀ s : ParserState D, s.WF nlits typed →
    Ensures (assign l r) s fun _ s' ↦ WritesOnly (s.Target l) s s'

/-- The maps stay where only the destination of an assignment is written to. -/
theorem maps_of_writesOnly {T : Cell → Prop} (h : WritesOnly T s s') (hT : ∀ m, ¬ T (.aux .map m))
    (m : Addr) (x : Content D) (hm : s.content (.aux .map m) = some x) :
    s'.content (.aux .map m) = some x :=
  h.keep _ _ (hT m) hm

section Loops

variable {assign : Ptr → Ptr → Interp D Bool} (hframes : Frames nlits typed assign)
  (hassign : Assigns nlits typed assign) {T : Cell → Prop} (hT : ∀ m, ¬ T (.aux .map m))

include hframes hassign hT

/-- One assignment to what was there at the start of a loop. -/
theorem assign_step (h₀ : s₀.WF nlits typed) (h : Leads nlits typed s₀ s)
    (hs : WritesOnly T s₀ s) (hl : s₀.Live l) (hlT : ∀ c, s₀.Target l c → T c) (r : Ptr) :
    Ensures (assign l r) s fun _ s' ↦ Leads nlits typed s₀ s' ∧ WritesOnly T s₀ s' := by
  refine ((hframes l r s h.wf).and (hassign l r s h.wf)).mono fun _ s' ⟨hw, h'⟩ ↦ ?_
  refine ⟨h.trans h', hs.trans (hw.mono fun c hc ↦ hlT c ?_)⟩
  exact hc.back h₀ h.evolves (maps_of_writesOnly hs hT) hl

variable {adtMap : StrMap Ptr} (hmap : ∀ (k : Str) (p : Ptr), adtMap[k]? = some p →
  s₀.Live p ∧ ∀ c, s₀.Target p c → T c)

include hmap

/-- A struct from a list: the targets of its fields. -/
theorem initFields_writes (h₀ : s₀.WF nlits typed) (fs : List Field) (rs : List Ptr)
    (s : ParserState D) (h : Leads nlits typed s₀ s) (hs : WritesOnly T s₀ s) :
    Ensures (initFields assign adtMap fs rs) s fun _ s' ↦ WritesOnly T s₀ s' := by
  induction fs generalizing rs s with
  | nil => exact hs
  | cons f fs ih =>
    cases rs with
    | nil => exact hs
    | cons r rs =>
      rw [initFields]
      split
      · next l hl =>
        obtain ⟨hlive, hlT⟩ := hmap _ l hl
        refine Lib.meets_bind.2 ((assign_step hframes hassign hT h₀ h hs hlive hlT r).mono ?_)
        intro b s₁ hb
        obtain ⟨h₁, hs₁⟩ := hb
        exact Lib.meets_ite.2 ⟨fun _ ↦ ih rs s₁ h₁ hs₁, fun _ ↦ hs₁⟩
      · exact hs

/-- A struct from a struct: the targets of its fields. -/
theorem assignFields_writes (h₀ : s₀.WF nlits typed) (inMap : StrMap Ptr) (fs : List Field)
    (s : ParserState D) (h : Leads nlits typed s₀ s) (hs : WritesOnly T s₀ s) :
    Ensures (assignFields assign adtMap inMap fs) s fun _ s' ↦ WritesOnly T s₀ s' := by
  induction fs generalizing s with
  | nil => exact hs
  | cons f fs ih =>
    rw [assignFields]
    split
    · next l r hl _ =>
      obtain ⟨hlive, hlT⟩ := hmap _ l hl
      refine Lib.meets_bind.2 ((assign_step hframes hassign hT h₀ h hs hlive hlT r).mono ?_)
      intro b s₁ hb
      obtain ⟨h₁, hs₁⟩ := hb
      exact Lib.meets_ite.2 ⟨fun _ ↦ ih s₁ h₁ hs₁, fun _ ↦ hs₁⟩
    · exact hs

end Loops

/-- The vector alone. -/
theorem pushBack_writesOnly (v : Addr) (p : Ptr) :
    Ensures (pushBack (D := D) v p) s fun _ s' ↦ WritesOnly (· = .aux .vector v) s s' :=
  (getVector_readOnly v).then fun _ ↦ (setVector_writes v _).mono fun _ _ h ↦ h.1

/-- `*map`, as a cell. -/
theorem getMap_content (m : Addr) :
    Ensures (getMap (D := D) m) s fun adtMap s' ↦ s' = s ∧
      s.content (.aux .map m) = some (.map adtMap) := by
  refine getMap_ensures fun adtMap tbl ht hm ↦ ⟨rfl, ?_⟩
  simp [ParserState.content, Cell.addr, ht, VarTable.content, hm]

/-- All that an assignment to a new node writes to is new. -/
def BuildsTargets (nlits : ℕ) (typed : Prop) (create : Interp D (Option Addr)) : Prop :=
  ∀ s : ParserState D, s.WF nlits typed → Ensures create s fun r s' ↦
    (Leads nlits typed s s' ∧ WritesOnly (fun _ ↦ False) s s') ∧
      ∀ a ∈ r, ∀ c, s'.Target (.node a) c → s.New c

/-- The elements of an array are created one by one, and pushed when they have been assigned to. -/
theorem assignElems_writes {assign : Ptr → Ptr → Interp D Bool}
    (hframes : Frames nlits typed assign) (hassign : Assigns nlits typed assign)
    {create : Interp D (Option Addr)} {l v : Addr} {aType : UInt32} {name : Option Str}
    (hcreate : Creates nlits typed create l.table (Node.HasElemType aType name))
    (hbuilds : BuildsTargets nlits typed create) (rs : List Ptr) (s : ParserState D)
    (h : s.WF nlits typed) (hl : NodeAt s l (.array aType name v (some l.table))) :
    Ensures (assignElems assign create v rs) s fun _ s' ↦ WritesOnly (· = .aux .vector v) s s' := by
  induction rs generalizing s with
  | nil => exact .refl _ s
  | cons r rs ih =>
    refine Lib.meets_bind.2 (((hcreate s h).and (hbuilds s h)).mono fun o s₁ ⟨⟨h₁, ho⟩, hs₁, hnew⟩ ↦ ?_)
    have hw₁ : WritesOnly (· = .aux .vector v) s s₁ := hs₁.2.mono fun _ ↦ False.elim
    cases o with
    | none => exact hw₁
    | some a =>
      refine Lib.meets_bind.2 (((hframes _ r s₁ h₁.wf).and (hassign _ r s₁ h₁.wf)).mono ?_)
      intro b s₂ ⟨hs₂, h₂⟩
      have h₁₂ := h₁.trans h₂
      have hw₂ : WritesOnly (· = .aux .vector v) s s₂ := by
        refine WritesOnly.drop_new ((hs₁.2.mono fun _ ↦ False.elim).trans hs₂) fun c hc ↦ .inr ?_
        exact hnew a rfl c hc
      have ha₂ := (ho a rfl).evolves (stable_hasElemType _ _) h₂.evolves (ho a rfl).lt_sizes
      refine Lib.meets_ite.2 ⟨fun _ ↦ Lib.meets_bind.2 ?_, fun _ ↦ hw₂⟩
      refine ((pushBack_fresh (fun _ _ h ↦ h) hl h₁₂ ha₂).and (pushBack_writesOnly v _)).mono ?_
      rintro _ s₃ ⟨h₃, hs₃⟩
      have hw₃ := hw₂.trans hs₃
      refine (ih s₃ h₃.wf ?_).mono fun _ s₄ hs₄ ↦ hw₃.trans hs₄
      exact hl.evolves_of_aux h₃.evolves (by simp [Node.aux])

variable [CDouble D]

/-- A new struct, with new fields. -/
theorem createAdt_targets (t : TableId) (name : Str) :
    BuildsTargets nlits typed (createAdt (D := D) t name) := by
  intro s h
  refine ((createAdt_creates name s h).and (createAdt_built name)).mono ?_
  rintro o s₁ ⟨⟨h₁, ho⟩, hs₁, hbuilt⟩
  refine ⟨⟨h₁, hs₁⟩, fun a ha c hc ↦ ?_⟩
  obtain ⟨name', m, hn, adtMap, hm, hfields⟩ := hbuilt a ha
  have hfresh := ho a ha
  obtain ⟨tbl, -, ht, -, -, -, -, hwhole⟩ := hfresh.node
  obtain rfl := hfresh.table
  obtain ⟨-, -, -, hown⟩ := ownStruct_fields h₁.wf ht hn.node hm hwhole
  cases hc with
  | node hn' => exact hn.new _ (.inl rfl)
  | aux hn' hb hk =>
    cases hn.node.symm.trans hn'
    exact hn.new _ (.inr ⟨_, _, hb, rfl⟩)
  | @field _ k q _ hq hc =>
    obtain ⟨_, _, _, adtMap', hn', hm', hk⟩ := hq
    cases hn.node.symm.trans hn'
    cases hm.symm.trans hm'
    obtain ⟨l, n, rfl, hbuilt'⟩ := hfields k q hk
    obtain ⟨_, n', f, ⟨⟩, -, hl, hfield, -⟩ := hown k _ hk
    cases hbuilt'.node.symm.trans hl
    cases hc with
    | node _ => exact hbuilt'.new _ (.inl rfl)
    | aux hn'' hb _ =>
      cases hl.symm.trans hn''
      exact hbuilt'.new _ (.inr ⟨_, _, hb, rfl⟩)
    | field hq' _ =>
      -- a field is no struct
      obtain ⟨_, _, _, _, hn'', -⟩ := hq'
      cases hl.symm.trans hn''
      exact absurd rfl (ne_map_of_hasField hfield rfl)

/-- An element is new, and so are all of its targets. -/
theorem createElem_targets (t : TableId) (aType : UInt32) (aAdtName : Option Str) :
    BuildsTargets nlits typed (createElem (D := D) t aType aAdtName) := by
  by_cases hadt : aType = ASTType.adtType.toWord
  · subst hadt
    cases aAdtName with
    | none => exact fun s h ↦ ⟨⟨.refl h, .refl _ s⟩, fun a ha ↦ absurd ha (by simp)⟩
    | some name => exact createAdt_targets t name
  intro s h
  refine ((createElem_creates aType aAdtName s h).and (createElem_builds aType aAdtName s)).mono ?_
  rintro o s₁ ⟨⟨h₁, ho⟩, hs₁, hbuilt⟩
  refine ⟨⟨h₁, hs₁⟩, fun a ha c hc ↦ ?_⟩
  obtain ⟨n, hn⟩ := hbuilt a ha
  obtain ⟨tbl, n', ht, hn', -, htype, -, -⟩ := (ho a ha).node
  obtain rfl := (ho a ha).table
  cases hn.node.symm.trans (nodeAt_iff.1 ⟨tbl, ht, hn'⟩)
  cases hc with
  | node _ => exact hn.new _ (.inl rfl)
  | aux hn' hb _ =>
    cases hn.node.symm.trans hn'
    exact hn.new _ (.inr ⟨_, _, hb, rfl⟩)
  | field hq _ =>
    obtain ⟨_, _, _, _, hn', -⟩ := hq
    cases hn.node.symm.trans hn'
    exact absurd htype.1 hadt

/-- The elements of an array, whose old ones have been removed. -/
theorem refill_writes {assign : Ptr → Ptr → Interp D Bool} (hframes : Frames nlits typed assign)
    (hassign : Assigns nlits typed assign) {l v : Addr} {aType : UInt32} {aAdtName : Option Str}
    {tb : Option TableId} (h : s.WF nlits typed) (hl : NodeAt s l (.array aType aAdtName v tb))
    (rs : Addr) :
    Ensures (do
      setVector v []
      assignElems assign (createIn tb aType aAdtName) v (← getVector rs)) s
      fun _ s' ↦ WritesOnly (· = .aux .vector v) s s' := by
  refine Lib.meets_bind.2 (((setVector_ensures h hl fun v' _ _ _ ↦ List.nil_prefix).and
    (setVector_writes v [])).mono ?_)
  rintro _ s₁ ⟨h₁, hs₁, -⟩
  refine (getVector_readOnly rs).then fun rs ↦ ?_
  cases tb with
  | none =>
    cases rs with
    | nil => exact hs₁
    | cons r rs => exact trivial
  | some t =>
    obtain rfl : t = l.table := by
      obtain ⟨tbl, ht, hn⟩ := hl
      exact (h.table _ tbl ht).varTable _ _ _ _ _ hn
    have hl₁ := hl.evolves_of_aux h₁.evolves (by simp [Node.aux])
    refine (assignElems_writes hframes hassign (createElem_creates aType aAdtName)
      (createElem_targets _ aType aAdtName) rs s₁ h₁.wf hl₁).mono fun _ s₂ hs₂ ↦ hs₁.trans hs₂

/-- One node: its own cell, its text or its vector, or the targets of its fields. -/
theorem updateNode_writes {assign : Ptr → Ptr → Interp D Bool}
    (hframes : Frames nlits typed assign) (hassign : Assigns nlits typed assign) (this : TableId)
    {l : Addr} {ln : Node D} (rn : Node D) (h : s.WF nlits typed) (hl : NodeAt s l ln) :
    Ensures (updateNode this assign l ln rn) s fun _ s' ↦ WritesOnly (s.Target (.node l)) s s' := by
  have hn := nodeAt_iff.1 hl
  have hnone : WritesOnly (s.Target (.node l)) s s := .refl _ s
  have haux : ∀ {k b} {s' : ParserState D}, ln.aux = some (k, b) → k ≠ .map →
      WritesOnly (· = .aux k b) s s' → WritesOnly (s.Target (.node l)) s s' := by
    rintro k b s' hb hk hw
    exact hw.mono fun c hc ↦ hc ▸ .aux hn hb hk
  have hT : ∀ m, ¬ s.Target (.node l) (.aux .map m) := fun m hm ↦ hm.ne_map m rfl
  -- the fields of a struct are among the destinations
  have hmap : ∀ {name m u}, ln = .varAdt name m u → ∀ adtMap,
      s.content (.aux .map m) = some (.map adtMap) → ∀ (k : Str) (p : Ptr), adtMap[k]? = some p →
        s.Live p ∧ ∀ c, s.Target p c → s.Target (.node l) c := by
    rintro name m u rfl adtMap hm k p hp
    have hat : s.At (.field l k) p := ⟨name, m, u, adtMap, hn, hm, hp⟩
    exact ⟨hat.live h, fun c hc ↦ .field hat hc⟩
  unfold updateNode
  split
  · refine (lookup_readOnly this _).then fun r ↦ ?_
    split
    · exact hnone
    · refine (adtParam_readOnly _).then fun fields ↦ (getVector_readOnly _).then fun params ↦ ?_
      refine Lib.meets_ite.2 ⟨fun _ ↦ hnone, fun _ ↦ Lib.meets_bind.2 ?_⟩
      refine (getMap_content _).mono ?_
      rintro adtMap _ ⟨rfl, hm⟩
      exact initFields_writes hframes hassign hT (hmap rfl adtMap hm) h fields params _ (.refl h) hnone
  · exact (refill_writes hframes hassign h hl _).mono fun _ _ hw ↦ haux rfl (by simp) hw
  · refine Lib.meets_bind.2 ((setNode_writes l _).mono fun _ s₁ hs₁ ↦ ?_)
    exact hs₁.1.mono fun c hc ↦ hc ▸ .node hn
  · refine Lib.meets_bind.2 ((setNode_writes l _).mono fun _ s₁ hs₁ ↦ ?_)
    exact hs₁.1.mono fun c hc ↦ hc ▸ .node hn
  · refine (getString_readOnly _).then fun x ↦ Lib.meets_bind.2 ?_
    exact (setString_writes _ _).mono fun _ s₁ hs₁ ↦ haux rfl (by simp) hs₁.1
  · refine Lib.meets_ite.2 ⟨fun _ ↦ hnone, fun _ ↦ (sameAdtName_readOnly _ _ _).then fun b ↦ ?_⟩
    refine Lib.meets_ite.2 ⟨fun _ ↦ ?_, fun _ ↦ hnone⟩
    exact (refill_writes hframes hassign h hl _).mono fun _ _ hw ↦ haux rfl (by simp) hw
  · refine Lib.meets_ite.2 ⟨fun _ ↦ hnone, fun _ ↦ (lookup_readOnly this _).then fun r ↦ ?_⟩
    split
    · exact hnone
    · refine (adtParam_readOnly _).then fun fields ↦ Lib.meets_bind.2 ((getMap_content _).mono ?_)
      rintro adtMap _ ⟨rfl, hm⟩
      refine (getMap_readOnly _).then fun inMap ↦ ?_
      exact assignFields_writes hframes hassign hT (hmap rfl adtMap hm) h inMap fields _ (.refl h) hnone
  · exact hnone

/-- **An assignment writes to its destination only**, whether it succeeds or fails. -/
theorem updateFuel_writes (this : TableId) (fuel : ℕ) :
    Frames nlits typed (updateFuel (D := D) this fuel) := by
  induction fuel with
  | zero => exact fun _ _ _ _ ↦ trivial
  | succ fuel ih =>
    intro l r s h
    refine Lib.meets_bind.2 (nodeAt_ensures (fun a n hl hn ↦ ?_) fun _ _ ↦ ?_)
    · subst hl
      refine (nodeAt_readOnly r).then fun o ↦ ?_
      split
      · next a' ln b rn heq =>
        cases heq
        exact updateNode_writes ih (updateFuel_assigns this fuel) this rn h hn
      · exact .refl _ s
    · exact (nodeAt_readOnly r).then fun o ↦ .refl _ s

end Interp

/-! ### Assignments that fail -/

/-- A value only reads what it owns. -/
theorem Denotes.owns {U : Cell → Prop} {x : Value D} (h : Denotes U s x (.node b)) :
    Denotes (s.Owns b) s x (.node b) := by
  induction x using Value.ind generalizing b with
  | int i =>
    obtain ⟨_, ⟨⟩, -, ha⟩ := h
    exact ⟨b, rfl, ⟨b, _, .refl, ha, .inl rfl⟩, ha⟩
  | double d =>
    obtain ⟨_, ⟨⟩, -, ha⟩ := h
    exact ⟨b, rfl, ⟨b, _, .refl, ha, .inl rfl⟩, ha⟩
  | string y =>
    obtain ⟨_, c, ⟨⟩, ⟨-, ha⟩, -, hc⟩ := h
    exact ⟨b, c, rfl, ⟨⟨b, _, .refl, ha, .inl rfl⟩, ha⟩,
      ⟨b, _, .refl, ha, .inr ⟨.string, c, rfl, rfl⟩⟩, hc⟩
  | array aType name xs ih =>
    obtain ⟨_, v, tb, ps, ⟨⟩, ⟨-, ha⟩, ⟨-, hv⟩, hps⟩ := h
    refine ⟨b, v, tb, ps, rfl, ⟨⟨b, _, .refl, ha, .inl rfl⟩, ha⟩,
      ⟨⟨b, _, .refl, ha, .inr ⟨.vector, v, rfl, rfl⟩⟩, hv⟩, ?_⟩
    rw [denotesVector_iff, List.forall₂_iff_get] at hps ⊢
    refine ⟨hps.1, fun i hi hi' ↦ ?_⟩
    obtain ⟨e, n, hp, he, -⟩ := (hps.2 i hi hi').node
    have hx := hps.2 i hi hi'
    rw [hp] at hx ⊢
    -- what the element owns is owned through its place in the array
    have hat : s.At (.elem b i) (.node e) :=
      ⟨aType, name, v, tb, ps, ha, hv, hp ▸ List.getElem?_eq_getElem hi'⟩
    refine (ih _ (List.getElem_mem hi) hx).mono fun c ⟨d, m, hed, hd, hc⟩ ↦ ?_
    exact ⟨d, m, .head ⟨_, rfl, hat⟩ hed, hd, hc⟩
  | adt name fs ih =>
    obtain ⟨_, m, u, adtMap, ⟨⟩, ⟨-, ha⟩, ⟨-, hm⟩, hfs⟩ := h
    refine ⟨b, m, u, adtMap, rfl, ⟨⟨b, _, .refl, ha, .inl rfl⟩, ha⟩,
      ⟨⟨b, _, .refl, ha, .inr ⟨.map, m, rfl, rfl⟩⟩, hm⟩, ?_⟩
    rw [denotesMap_iff, List.forall₂_iff_get] at hfs ⊢
    refine ⟨hfs.1, fun i hi hi' ↦ ⟨(hfs.2 i hi hi').1, ?_⟩⟩
    obtain ⟨e, n, hp, he, -⟩ := (hfs.2 i hi hi').2.node
    have hx := (hfs.2 i hi hi').2
    rw [hp] at hx ⊢
    have hat : s.At (.field b (adtMap.toList.get ⟨i, hi'⟩).1) (.node e) := by
      refine ⟨name, m, u, adtMap, ha, hm, ?_⟩
      rw [← hp]
      exact Std.ExtTreeMap.mem_toList_iff_getElem?_eq_some.1 (List.get_mem _ _)
    refine (ih _ (List.getElem_mem hi) hx).mono fun c ⟨d, m, hed, hd, hc⟩ ↦ ?_
    exact ⟨d, m, .head ⟨_, rfl, hat⟩ hed, hd, hc⟩
  | empty => exact h.elim
  | sep xs => exact h.elim
  | other ty => exact h.elim

namespace ParserState

/-- One of the two is part of the value at the other. -/
def Overlap (s : ParserState D) (p : Ptr) (b : Addr) : Prop :=
  ∃ a, p = .node a ∧ (s.Reaches a b ∨ s.Reaches b a)

/-- The value of `l` can be assigned to as far as `updateADT` checks it before it starts to write. -/
def FitsNode (s : ParserState D) : Node D → Node D → Prop
  | .array .., .sep _ => True
  | .varAdt name _ _, .sep v => ∃ d ps, s.defs name = some d ∧
    s.content (.aux .vector v) = some (.vector ps) ∧ d.adtParam.length = ps.length
  | .array aType aAdtName _ _, .array aType' aAdtName' _ _ =>
    aType = aType' ∧ (aType = ASTType.adtType.toWord → aAdtName = aAdtName')
  | .varAdt name _ _, .varAdt name' _ _ => name = name'
  | _, _ => False

@[inherit_doc FitsNode]
def Fits (s : ParserState D) (l r : Ptr) : Prop :=
  ∃ a b ln rn, l = .node a ∧ r = .node b ∧ s.content (.node a) = some (.node ln) ∧
    s.content (.node b) = some (.node rn) ∧ s.FitsNode ln rn

end ParserState

namespace Interp

variable [CDouble D]

omit [CDouble D] in
/-- The vector that is read is the content of the cell. -/
theorem getVector_content (v : Addr) :
    Ensures (getVector (D := D) v) s fun ps s' ↦ s' = s ∧
      s.content (.aux .vector v) = some (.vector ps) := by
  refine getVector_ensures fun ps tbl ht hv ↦ ⟨rfl, ?_⟩
  simp [ParserState.content, Cell.addr, ht, VarTable.content, hv]

/-- Nothing is written to where the checks fail. -/
theorem updateNode_unfit (this : TableId) (assign : Ptr → Ptr → Interp D Bool) {l : Addr}
    {ln rn : Node D} (h : s.WF nlits typed) (hfit : ¬ s.FitsNode ln rn) :
    Ensures (updateNode this assign l ln rn) s fun b s' ↦ b = false → s' = s := by
  unfold updateNode
  split
  · next name m u v =>
    refine Lib.meets_bind.2 (lookup_ensures (fun p t tbl ht hp _ ↦ ?_) fun _ ↦ rfl)
    refine Lib.meets_bind.2 (adtParam_ensures fun d hd ↦ ?_)
    subst hd
    have hd := (h.adtTypeName ht hp).1
    refine Lib.meets_bind.2 ((getVector_content v).mono ?_)
    rintro ps _ ⟨rfl, hv⟩
    refine Lib.meets_ite.2 ⟨fun _ _ ↦ rfl, fun hlen ↦ absurd ⟨d, ps, hd, hv, ?_⟩ hfit⟩
    exact not_not.1 hlen
  · exact absurd trivial hfit
  · exact Lib.meets_bind.2 ((setNode_writes l _).mono fun _ _ _ hb ↦ absurd hb (by simp))
  · exact Lib.meets_bind.2 ((setNode_writes l _).mono fun _ _ _ hb ↦ absurd hb (by simp))
  · refine (getString_readOnly _).then fun x ↦ Lib.meets_bind.2 ?_
    exact (setString_writes _ _).mono fun _ _ _ hb ↦ absurd hb (by simp)
  · refine Lib.meets_ite.2 ⟨fun _ _ ↦ rfl, fun heq ↦ Lib.meets_bind.2 ?_⟩
    refine sameAdtName_ensures.mono ?_
    rintro b _ ⟨rfl, hname⟩
    refine Lib.meets_ite.2 ⟨fun hb ↦ absurd ⟨not_not.1 heq, hname hb⟩ hfit, fun _ _ ↦ rfl⟩
  · refine Lib.meets_ite.2 ⟨fun _ _ ↦ rfl, fun heq ↦ absurd (not_not.1 heq) hfit⟩
  · exact fun _ ↦ rfl

/-- A scalar that gets a value of another type fails before it is written to. -/
theorem updateFuel_unfit (this : TableId) (fuel : ℕ) (h : s.WF nlits typed) (hfit : ¬ s.Fits l r) :
    Ensures (updateFuel this fuel l r) s fun b s' ↦ b = false → s' = s := by
  cases fuel with
  | zero => exact trivial
  | succ fuel =>
    refine Lib.meets_bind.2 (nodeAt_ensures (fun a ln hl hln ↦ ?_) fun _ _ ↦ ?_)
    · refine Lib.meets_bind.2 (nodeAt_ensures (fun b rn hr hrn ↦ ?_) fun _ _ _ ↦ rfl)
      refine updateNode_unfit this _ h fun hnode ↦ hfit ?_
      exact ⟨a, b, ln, rn, hl, hr, nodeAt_iff.1 hln, nodeAt_iff.1 hrn, hnode⟩
    · exact (nodeAt_readOnly r).then fun o _ ↦ rfl

/-- A value apart from the destination stays. -/
theorem updateADT_keeps {this : TableId} {succeeds : Bool} {x : Value D} (h : s.WF nlits typed)
    (hrun : Runs (updateADT this l r) s succeeds s') (hapart : ¬ s.Overlap l b)
    (hx : Denotes (fun _ ↦ True) s x (.node b)) : Denotes (fun _ ↦ True) s' x (.node b) := by
  have hwrites : WritesOnly (s.Target l) s s' := (updateFuel_writes this _ l r s h).run hrun
  refine (hx.owns.of_writesOnly hwrites fun c hc hl ↦ hapart ?_).mono fun _ _ ↦ trivial
  obtain ⟨a, rfl, d, n, had, hd, hcell⟩ := hl.owns
  obtain ⟨d', n', hbd, hd', hcell'⟩ := hc
  obtain rfl := cells_unique h hd hd' hcell hcell'
  exact ⟨a, rfl, had.total h hbd⟩

/-- **What a failed assignment leaves as it was**: every value apart from the destination, and all if
the checks before the first write fail. -/
theorem failed_assignment {this : TableId} (h : s.WF nlits typed)
    (hfail : Runs (updateADT this l r) s false s') :
    (∀ b x, ¬ s.Overlap l b → Denotes (fun _ ↦ True) s x (.node b) →
      Denotes (fun _ ↦ True) s' x (.node b)) ∧ (¬ s.Fits l r → s' = s) := by
  refine ⟨fun b x hapart hx ↦ updateADT_keeps h hfail hapart hx, fun hfit ↦ ?_⟩
  exact (updateFuel_unfit this _ h hfit).run hfail rfl

/-! ### A program -/

/-- `void main() { int x[2]; string y[2]; x = array_union(x, y); }` -/
def assignProgram : Program Lib.Binary64 where
  literals := [.int 2]
  textNodes := 14
  decls := [.func ⟨.elem (.basic .void), mainName, [],
    .ast (.assignAdt (.refVar xName) (.native2 .arrayUnion (.refVar xName) (.refVar yName)))
      (.ast (.newVarArray (.basic .string) yName (.literal ⟨0, 0⟩))
        (.newVarArray (.basic .int) xName (.literal ⟨0, 0⟩)))⟩]

/-- An array of numbers. -/
def ints (is : List Int32) : Value D := .array ASTType.intType.toWord none (is.map .int)

/-- The assignment to `x` fails, and has changed it. -/
def changesX [CLibrary] (m : Machine Lib.Binary64) : Bool :=
  match updateADT 1 (.node ⟨1, 0⟩) (.node ⟨1, 6⟩) m.ps with
  | .ok (false, s') => leadsTo m.ps (ints [0, 0]) (.node ⟨1, 0⟩) && leadsTo s' (ints [0]) (.node ⟨1, 0⟩)
  | _ => false

/-- After 19 steps the operands of the assignment have been evaluated. -/
theorem exists_changesX : ∃ (_ : CLibrary) (m : Machine Lib.Binary64),
    Machine.Reachable assignProgram mainName .empty m ∧ changesX m = true := by
  let _ := reducing
  have hruns : ((Machine.start assignProgram mainName .empty).toOption.bind fun m₀ ↦
      Lib.run Machine.step? m₀ (List.replicate 19 plainHost)).any changesX = true := by
    decide +kernel
  obtain ⟨m, hreach, htest⟩ := Machine.exists_reachable hruns
  exact ⟨_, m, hreach, htest⟩

/-- What the test accepts is a failed assignment that has changed its target. -/
theorem runs_of_changesX [CLibrary] {m : Machine Lib.Binary64} (h : changesX m = true) : ∃ s',
    Runs (updateADT 1 (.node ⟨1, 0⟩) (.node ⟨1, 6⟩)) m.ps false s' ∧
      Denotes (fun _ ↦ True) m.ps (ints [0, 0]) (.node ⟨1, 0⟩) ∧
        Denotes (fun _ ↦ True) s' (ints [0]) (.node ⟨1, 0⟩) := by
  unfold changesX at h
  split at h
  · next s' hs' =>
    obtain ⟨hbefore, hafter⟩ := Bool.and_eq_true_iff.1 h
    exact ⟨s', hs', denotes_of_leadsTo hbefore, denotes_of_leadsTo hafter⟩
  · cases h

/-- The second element of `array_union(x, y)` cannot be assigned, and `x` has lost its own by then. -/
theorem failed_assignment_changes_x : ¬ ∀ (_ : CLibrary) (nlits : ℕ) (this : TableId)
    (s s' : ParserState Lib.Binary64) (l r : Ptr) (x : Value Lib.Binary64), s.WF nlits False →
      Runs (updateADT this l r) s false s' → Denotes (fun _ ↦ True) s x l →
        Denotes (fun _ ↦ True) s' x l := by
  intro h
  obtain ⟨_, m, hreach, hm⟩ := exists_changesX
  obtain ⟨s', hrun, hbefore, hafter⟩ := runs_of_changesX hm
  have hkept := h _ _ 1 _ s' _ _ _ hreach.heap.wf hrun hbefore
  cases hkept.unique hafter

/-- Here `y` stays. -/
theorem failed_assignment_keeps_y : ∃ (_ : CLibrary) (s s' : ParserState Lib.Binary64),
    Runs (updateADT 1 (.node ⟨1, 0⟩) (.node ⟨1, 6⟩)) s false s' ∧
      (∀ b x, ¬ s.Overlap (.node ⟨1, 0⟩) b → Denotes (fun _ ↦ True) s x (.node b) →
        Denotes (fun _ ↦ True) s' x (.node b)) ∧
      (¬ s.Fits (.node ⟨1, 0⟩) (.node ⟨1, 6⟩) → s' = s) := by
  obtain ⟨_, m, hreach, hm⟩ := exists_changesX
  obtain ⟨s', hrun, -, -⟩ := runs_of_changesX hm
  exact ⟨_, m.ps, s', hrun, failed_assignment hreach.heap.wf hrun⟩

end Interp

end Meridian.MQL

import Meridian.MQL.HeapReachable
import Meridian.MQL.Ownership

/-!
# Sets of values

`array_union` and `array_intersect` put copies into a new array, unless it has an equal element. What
the array holds while they run is `Collected`: the loop inserts into a list of values
(`Lib.insertAll`), and in the end these are the first occurrences (`Lib.firsts`).

A copy of a struct has the fields of the definition that the program has of it. A struct that `rpc`
has returned can have more, and loses them. So what goes into the sets has to fit its definition
(`Collectable`), as everything does that the program has made itself (`collectable_elems`).
-/

namespace Meridian.MQL

open Lib (Runs Meets)
open ParserState

variable {D : Type} [CDouble D] {nlits : ℕ} {typed : Prop} {s s' s₀ : ParserState D} {t : TableId}

/-! ### The elements of an array -/

omit [CDouble D] in
/-- The vector of an array of values. -/
theorem Denotes.array_elems {U : Cell → Prop} {aType : UInt32} {name : Option Str} {xs : List (Value D)}
    {p : Ptr} (h : Denotes U s (.array aType name xs) p) :
    ∃ a v tb ps, p = .node a ∧ s.content (.node a) = some (.node (.array aType name v tb)) ∧
      s.content (.aux .vector v) = some (.vector ps) ∧ List.Forall₂ (Denotes U s) xs ps := by
  obtain ⟨a, v, tb, ps, rfl, ⟨-, ha⟩, ⟨-, hv⟩, hps⟩ := h
  exact ⟨a, v, tb, ps, rfl, ha, hv, denotesVector_iff.1 hps⟩

namespace Interp

/-! ### What is copied at all -/

/-- An array has the name of a struct only if its elements are structs. -/
def Named : Value D → Prop
  | .array aType aAdtName _ => aType ≠ ASTType.adtType.toWord → aAdtName = none
  | _ => True

/-- A struct has no field that its definition lacks. -/
def Fitting (defs : Str → Option AdtDef) : Value D → Prop
  | .adt name xs => (∀ f ∈ xs, Named f.2) ∧
    ∀ d, defs name = some d → ∀ f ∈ xs, f.1 ∈ fieldTypes d.adtParam
  | _ => True

omit [CDouble D] in
/-- The structs stay defined. -/
theorem Fitting.evolves {k : TableId → ℕ} {x : Value D} (h : Fitting s.defs x)
    (he : Evolves k s s') : Fitting s'.defs x := by
  rwa [funext he.defs_eq]

omit [CDouble D] in
/-- A value that can be copied has the fields of its definition. -/
theorem Copyable.fitting {x : Value D} (h : Copyable s.defs x) : Fitting s.defs x := by
  cases x with
  | adt name xs =>
    obtain ⟨hflat, d, hd, hkeys⟩ := h
    refine ⟨fun f hf ↦ ?_, fun d' hd' f hf ↦ ?_⟩
    · have hf := hflat f hf
      generalize f.2 = y at hf
      cases y with
      | array => exact fun _ ↦ hf.1
      | _ => trivial
    · obtain rfl := Option.some.inj (hd.symm.trans hd')
      exact (hkeys f.1).1 (List.mem_map_of_mem hf)
  | _ => trivial

variable {U : Cell → Prop}

omit [CDouble D] in
/-- A basic type is no struct. -/
theorem astType_ne_adt (b : BasicType) : b.astType.toWord ≠ ASTType.adtType.toWord := by
  cases b <;> decide

/-- What is not flat is not assigned to a field. -/
theorem updateFuel_not_flat (this : TableId) (fuel : ℕ) {l : Addr} {r : Ptr} {n : Node D} {f : Field}
    {y : Value D} (hl : s.content (.node l) = some (.node n)) (hn : n.HasField f)
    (hr : Denotes U s y r) (hcmp : y.Comparable) (hname : Named y) (hy : ¬ y.Flat) :
    Ensures (updateFuel this fuel (.node l) r) s fun b s' ↦ s' = s ∧ b = false := by
  cases fuel with
  | zero => exact trivial
  | succ fuel =>
    refine Lib.meets_bind.2 ((runs_nodeAt hl).meets (Lib.meets_bind.2 ?_))
    cases y with
    | int i => exact absurd trivial hy
    | double d => exact absurd trivial hy
    | string x => exact absurd trivial hy
    | array aType name ys =>
      obtain ⟨a, v, tb, rs, rfl, ⟨-, ha⟩, -⟩ := hr
      refine (runs_nodeAt ha).meets ?_
      cases n with
      | array aType' name' v' tb' =>
        refine Lib.meets_ite.2 ⟨fun _ ↦ ⟨rfl, rfl⟩, fun heq ↦ absurd ?_ hy⟩
        obtain ⟨-, rfl, -, -⟩ := hn
        obtain rfl := not_not.1 heq
        obtain rfl := hname (astType_ne_adt f.vType)
        exact flat_of_elems hcmp
      | _ => exact ⟨rfl, rfl⟩
    | adt name fs =>
      obtain ⟨a, m, u, inMap, rfl, ⟨-, ha⟩, -⟩ := hr
      refine (runs_nodeAt ha).meets ?_
      cases n with
      | varAdt name' m' u' => exact absurd rfl (ne_map_of_hasField hn rfl)
      | _ => exact ⟨rfl, rfl⟩
    | empty => exact hcmp.elim
    | sep xs => exact hcmp.elim
    | other ty => exact hcmp.elim

/-- A struct that is assigned to one of the program's own can be copied. -/
theorem updateFuel_copyable (this : TableId) (fuel : ℕ) {c m : Addr} {name : Str}
    {adtMap : StrMap Ptr} {xs : List (Str × Value D)} {r : Ptr} {tbl : VarTable D}
    (h : s.WF nlits typed) (ht : s.tables c.table = some tbl)
    (hc : s.content (.node c) = some (.node (.varAdt name m false)))
    (hm : s.content (.aux .map m) = some (.map adtMap)) (hwhole : tbl.Whole s.defs c.index)
    (hr : Denotes U s (.adt name xs) r) (hcmp : (Value.adt name xs).Comparable)
    (hfit : Fitting s.defs (.adt name xs)) (hU : ∀ k t, fieldCells s adtMap k t → ¬ U t) :
    Ensures (updateFuel this fuel (.node c) r) s fun b _ ↦
      b = true → Copyable s.defs (.adt name xs) := by
  cases fuel with
  | zero => exact trivial
  | succ fuel =>
    obtain ⟨a, m', u, inMap, rfl, ⟨-, ha⟩, ⟨-, hm'⟩, hxs⟩ := hr
    have hxs := denotesMap_iff.1 hxs
    have hfields := ownStruct_disjoint h ht hc hm hwhole
    obtain ⟨d, hd, -, -⟩ := ownStruct_fields h ht hc hm hwhole
    obtain ⟨hnames, hlacks⟩ := hfit
    obtain ⟨hnodup, hcmp⟩ := Value.comparable_adt.1 hcmp
    have hfalse : Ensures (pure false) s fun b _ ↦ b = true → Copyable s.defs (.adt name xs) :=
      fun hb ↦ absurd hb Bool.false_ne_true
    refine Lib.meets_bind.2 ((runs_nodeAt hc).meets (Lib.meets_bind.2 ((runs_nodeAt ha).meets ?_)))
    refine Lib.meets_ite.2 ⟨fun hne ↦ absurd rfl hne, fun _ ↦ ?_⟩
    refine lookup_adtParam h hd hfalse ?_
    refine Lib.meets_bind.2 ((runs_getMap hm).meets (Lib.meets_bind.2 ((runs_getMap hm').meets ?_)))
    refine (assignFields_meets this fuel
      (P := fun k s' ↦ ∀ q y, inMap[k]? = some q → (k, y) ∈ xs → Denotes U s' y q)
      (Q := fun k _ ↦ ∃ y, (k, y) ∈ xs ∧ y.Flat) ?_ ?_ d.adtParam [] s (.refl h) (.refl _ s) ?_
      fun _ hk ↦ absurd hk List.not_mem_nil).mono ?_
    -- one field: only a flat value can have been assigned to it
    · intro k p q s₁ hp hq hleads hlive hsource
      obtain ⟨⟨k', y⟩, hy, hk', -⟩ := exists_left_of_forall₂ hxs
        (Std.ExtTreeMap.mem_toList_iff_getElem?_eq_some.2 hq)
      obtain rfl : k' = k := hk'
      by_cases hflat : y.Flat
      · refine (updateFuel_field this fuel hfields hU hp hleads hlive (hsource q y hq hy)
          hflat).mono fun b s₂ ⟨hw, _⟩ ↦ ⟨hw, fun _ ↦ ⟨fun q' y' hq' hy' ↦ ?_, y, hy, hflat⟩⟩
        exact (hsource q' y' hq' hy').of_writesOnly hw fun t ht ht' ↦ hU k' t ht' ht
      · obtain ⟨l, n, f, rfl, hn, hfield⟩ := hfields.field k' p hp
        obtain ⟨n', hn', hkind⟩ := (nodeAt_iff.2 hn).evolves hleads.evolves
        refine (updateFuel_not_flat this fuel (nodeAt_iff.1 hn') (hkind.hasField.2 hfield)
          (hsource q y hq hy) (hcmp _ hy) (hnames _ hy) hflat).mono ?_
        rintro b s₂ ⟨rfl, rfl⟩
        exact ⟨.refl _ _, fun hb ↦ absurd hb Bool.false_ne_true⟩
    · intro k k' s₁ s₂ hne hw
      refine ⟨fun hsource q y hq hy ↦ ?_, id⟩
      exact (hsource q y hq hy).of_writesOnly hw fun t ht ht' ↦ hU k' t ht' ht
    · intro k q y hq hy
      obtain ⟨⟨k', y'⟩, hy', hk', hyq⟩ := exists_left_of_forall₂ hxs
        (Std.ExtTreeMap.mem_toList_iff_getElem?_eq_some.2 hq)
      obtain rfl : k' = k := hk'
      obtain rfl : y = y' := congrArg Prod.snd (Value.eq_of_key_eq hnodup hy hy' rfl)
      exact hyq
    · rintro b s' ⟨-, hall⟩ hb
      -- the loop has gone over all fields of the definition
      have hfield : ∀ k : Str, k ∈ fieldTypes d.adtParam → ∃ y, (k, y) ∈ xs ∧ y.Flat := by
        intro k hk
        obtain ⟨f, hf, rfl⟩ := mem_fieldTypes.1 hk
        exact hall hb f.vName (List.mem_map_of_mem hf)
      refine ⟨fun f hf ↦ ?_, d, hd, fun k ↦ ⟨fun hk ↦ ?_, fun hk ↦ ?_⟩⟩
      · obtain ⟨y, hy, hflat⟩ := hfield f.1 (hlacks d hd f hf)
        have hy : f = (f.1, y) := Value.eq_of_key_eq hnodup hf hy rfl
        rw [hy]
        exact hflat
      · obtain ⟨f, hf, rfl⟩ := List.mem_map.1 hk
        exact hlacks d hd f hf
      · obtain ⟨y, hy, -⟩ := hfield k hk
        exact List.mem_map_of_mem hy

/-- **What fits is copied as a whole**, if it is copied at all. -/
theorem adtCreateAndCopy_fits {x : Value D} {p : Ptr} (h : s.WF nlits typed)
    (hp : Denotes (fun _ ↦ True) s x p) (hcmp : x.Comparable) (htype : x.type ≠ .arrayType)
    (hfit : Fitting s.defs x) :
    Ensures (adtCreateAndCopy p) s fun r s' ↦ ∀ a, r = .node a →
      WritesOnly (fun _ ↦ False) s s' ∧ Denotes s.New s' x r := by
  by_cases hcopy : Copyable s.defs x
  · exact (adtCreateAndCopy_copies h hp hcopy).mono fun r s' ⟨hw, hr⟩ a ha ↦ ⟨hw, hr a ha⟩
  cases x with
  | adt name xs =>
    have hnode := hp
    obtain ⟨a, m, u, adtMap, rfl, ha, -⟩ := hnode
    refine getVarTable_readOnly.then fun t ↦ Lib.meets_bind.2 ((runs_nodeAt ha.2).meets ?_)
    refine Lib.meets_bind.2 ((createAdt_struct h).mono fun o s₁ ⟨h₁, hleads, ho⟩ ↦ ?_)
    cases o with
    | none => exact fun a ha ↦ by cases ha
    | some c =>
      obtain ⟨m', adtMap', tbl, hc⟩ := ho c rfl
      obtain ⟨d, hd, hd₁⟩ := hc.defined
      refine getVarTable_readOnly.then fun this ↦ Lib.meets_bind.2 ?_
      refine (updateFuel_copyable this _ hleads.wf hc.table hc.built.node hc.map hc.whole
        (hp.stays h₁) hcmp ⟨hfit.1, fun d' hd' ↦ ?_⟩ fun k b hb hU ↦ hU.2 (hc.fields k b hb)).mono ?_
      · exact hfit.2 d' (hd.trans (hd₁.symm.trans hd'))
      · intro b s₂ hb
        refine Lib.meets_ite.2 ⟨fun hb' ↦ absurd ?_ hcopy, fun _ a ha ↦ by cases ha⟩
        obtain ⟨hflat, d', hd', hkeys⟩ := hb hb'
        obtain rfl := Option.some.inj (hd₁.symm.trans hd')
        exact ⟨hflat, d, hd, hkeys⟩
  | array => exact absurd rfl htype
  | empty => exact hcmp.elim
  | sep xs => exact hcmp.elim
  | other ty => exact hcmp.elim
  | _ => exact absurd trivial hcopy

/-- What can go into the sets. -/
structure Collectable (s : ParserState D) (x : Value D) : Prop where
  comparable : x.Comparable
  type_ne : x.type ≠ .arrayType
  fits : Fitting s.defs x

/-- So can the elements of an array that has not been received. -/
theorem collectable_elems {p : Ptr} {aType : UInt32} {name : Option Str} {xs : List (Value D)}
    (h : s.WF nlits typed) (hp : Usable s.varTable s p)
    (hxs : Denotes (fun _ ↦ True) s (.array aType name xs) p)
    (hcmp : ∀ x ∈ xs, x.Comparable ∧ x.type ≠ .arrayType) : ∀ x ∈ xs, Collectable s x := by
  intro x hx
  obtain ⟨a, v, tb, ps, rfl, ha, hv, hps⟩ := hxs.array_elems
  obtain ⟨-, n, hn, hown⟩ := hp
  cases ha.symm.trans (nodeAt_iff.1 hn)
  obtain ⟨tbl, ht, hn⟩ := hn
  have hwf := h.table _ tbl ht
  obtain ⟨hvt, -⟩ := hwf.aux _ _ .vector v hn rfl
  obtain ⟨q, hq, hdenotes⟩ := exists_right_of_forall₂ hps hx
  obtain ⟨c, m, rfl, hc, -⟩ := hdenotes.node
  obtain ⟨i, hi⟩ := List.mem_iff_getElem?.1 hq
  have hslot : tbl.ptrAt (.elem a.index i) = some (.node c) := by
    rw [content, Cell.addr, hvt, ht, Option.bind_some] at hv
    obtain ⟨ps', hps', heq⟩ := Option.map_eq_some_iff.1 hv
    cases heq
    rw [VarTable.ptrAt, VarTable.elems_eq hn, hps']
    exact hi
  have hchild := hwf.child hslot
  obtain ⟨m', hm', hown'⟩ := hchild.live
  have htc : s.tables c.table = some tbl := hchild.table ▸ ht
  cases hc.symm.trans (nodeAt_iff.1 ⟨tbl, htc, hm'⟩)
  obtain ⟨hx, hne⟩ := hcmp x hx
  refine ⟨hx, hne, (copyable_of_own h htc hc (hown' ?_) hchild.whole hdenotes hx hne).fitting⟩
  rintro _ ⟨⟩ n' hn'
  obtain rfl := Option.some.inj (hn.symm.trans hn')
  exact hown

/-! ### The loops -/

/-- What the new array holds: copies of these values, none of which reads the vector itself. -/
structure Collected (nlits : ℕ) (s₀ s : ParserState D) (l v : Addr) (aType : UInt32)
    (name : Option Str) (zs : List (Value D)) : Prop where
  leads : Leads nlits False s₀ s
  writes : WritesOnly (fun _ ↦ False) s₀ s
  built : Built s₀ s l (.array aType name v (some l.table))
  top : s.varTable.head? = some l.table
  elems : ∃ ps, s.content (.aux .vector v) = some (.vector ps) ∧
    List.Forall₂ (Denotes (fun c ↦ s₀.New c ∧ c ≠ .aux .vector v) s) zs ps

variable {l v : Addr} {aType : UInt32} {name : Option Str} {zs : List (Value D)}

omit [CDouble D] in
/-- The vector is new. -/
theorem Collected.new_vector (h : Collected nlits s₀ s l v aType name zs) :
    s₀.New (.aux .vector v) :=
  h.built.new _ (.inr ⟨.vector, v, rfl, rfl⟩)

omit [CDouble D] in
/-- A value that was there at first is still there. -/
theorem Collected.stays (h : Collected nlits s₀ s l v aType name zs) {x : Value D} {p : Ptr}
    (hp : Denotes (fun _ ↦ True) s₀ x p) : Denotes (fun _ ↦ True) s x p :=
  hp.of_writesOnly h.writes fun _ _ ↦ id

omit [CDouble D] in
/-- The new array denotes what has been collected. -/
theorem Collected.denotes (h : Collected nlits s₀ s l v aType name zs) :
    Denotes s₀.New s (.array aType name zs) (.node l) := by
  obtain ⟨ps, hv, hps⟩ := h.elems
  refine ⟨l, v, some l.table, ps, rfl, ⟨h.built.new _ (.inl rfl), h.built.node⟩,
    ⟨h.new_vector, hv⟩, denotesVector_iff.2 ?_⟩
  exact hps.imp fun z p hz ↦ hz.mono fun c hc ↦ hc.1

omit [CDouble D] in
/-- A copy is appended. -/
theorem pushBack_collected {s₁ : ParserState D} {x : Value D} {a : Addr} {K : Node D → Prop}
    (h : Collected nlits s₀ s l v aType name zs) (hleads : Leads nlits False s s₁)
    (hwrites : WritesOnly (fun _ ↦ False) s s₁) (ha : Fresh nlits s.sizes K l.table s₁ a)
    (hx : Denotes s.New s₁ x (.node a)) :
    Ensures (pushBack v (.node a)) s₁ fun _ s₂ ↦
      Collected nlits s₀ s₂ l v aType name (zs ++ [x]) := by
  obtain ⟨ps, hv, hps⟩ := h.elems
  have hl := nodeAt_iff.2 h.built.node
  have hkeep : ∀ c, c ≠ Cell.aux .vector v → ¬ c = Cell.aux .vector v := fun c hc ↦ hc
  refine ((pushBack_fresh (fun htyped ↦ htyped.elim) hl hleads ha).and
    (pushBack_writes (hwrites.keep _ _ id hv) (.node a))).mono ?_
  rintro _ s₂ ⟨hleads₂, hwrites₂, hv₂⟩
  have hw : WritesOnly (· = .aux .vector v) s₀ s₂ :=
    ((h.writes.trans hwrites).mono fun _ ↦ False.elim).trans hwrites₂
  refine ⟨h.leads.trans hleads₂, hw.drop_new ?_, ?_, ?_, ps ++ [.node a], hv₂, ?_⟩
  · rintro c rfl
    exact .inr h.new_vector
  · exact (h.built.of_writesOnly hwrites id).of_writesOnly hwrites₂ (by simp)
  · rw [hleads₂.evolves.varTable, h.top]
  · refine List.rel_append (hps.imp fun z p hz ↦ ?_) (.cons ?_ .nil)
    · exact (hz.of_writesOnly hwrites fun _ _ ↦ id).of_writesOnly hwrites₂ fun c hc ↦ hc.2
    · -- the copy has cells of its own, and the vector was there before
      have hcopy : Denotes (fun c ↦ s₀.New c ∧ c ≠ .aux .vector v) s₁ x (.node a) := by
        refine hx.mono fun c hc ↦ ⟨h.writes.live c hc, ?_⟩
        rintro rfl
        exact absurd (hv.symm.trans hc) (by simp)
      exact hcopy.of_writesOnly hwrites₂ fun c hc ↦ hc.2

/-- **`uniqueAdd` inserts the value**, if it succeeds. -/
theorem uniqueAdd_collects {x : Value D} {p : Ptr} (h : Collected nlits s₀ s l v aType name zs)
    (hp : Denotes (fun _ ↦ True) s₀ x p) (hx : Collectable s₀ x) (hzs : ∀ z ∈ zs, z.Comparable) :
    Ensures (uniqueAdd v p) s fun b s' ↦
      b = true → Collected nlits s₀ s' l v aType name (Lib.insertNew Value.equal zs x) := by
  obtain ⟨ps, hv, hps⟩ := h.elems
  have hp := h.stays hp
  refine Lib.meets_bind.2 ((runs_getVector hv).meets (Lib.meets_bind.2 ?_))
  have hps' := hps.imp fun z q hz ↦ hz.mono fun c _ ↦ trivial
  refine (anyEqual_returns hp hx.comparable hps' hzs).mono ?_
  rintro _ s ⟨rfl, rfl⟩
  refine Lib.meets_ite.2 ⟨fun hmem _ ↦ ?_, fun hnew ↦ Lib.meets_bind.2 ?_⟩
  · rw [Lib.insertNew, if_pos hmem]
    exact h
  rw [Lib.insertNew, if_neg hnew]
  have helem : IsElem False s aType name p := fun htyped ↦ htyped.elim
  refine ((adtCreateAndCopy_fits h.leads.wf hp hx.comparable hx.type_ne
    (hx.fits.evolves h.leads.evolves)).and (adtCreateAndCopy_ensures h.leads.wf h.top helem)).mono ?_
  rintro r s₁ ⟨hr, hleads, hnew⟩
  rcases hnew with rfl | ⟨a, rfl, ha⟩
  · refine Lib.meets_bind.2 (Lib.meets_pure.2 (Lib.meets_ite.2 ⟨fun _ hb ↦ ?_, fun hty ↦ ?_⟩))
    · exact absurd hb Bool.false_ne_true
    · exact absurd rfl hty
  · obtain ⟨hwrites, hcopy⟩ := hr a rfl
    refine (typeOf_readOnly _).then fun ty ↦ Lib.meets_ite.2 ⟨fun _ hb ↦ ?_, fun _ ↦ ?_⟩
    · exact absurd hb Bool.false_ne_true
    · refine Lib.meets_bind.2 ((pushBack_collected h hleads hwrites ha hcopy).mono ?_)
      exact fun _ s₂ h₂ _ ↦ h₂

/-- All elements of an array, in turn. -/
theorem uniqueAddAll_collects {xs : List (Value D)} {ps : List Ptr}
    (h : Collected nlits s₀ s l v aType name zs)
    (hps : List.Forall₂ (Denotes (fun _ ↦ True) s₀) xs ps)
    (hxs : ∀ x ∈ xs, Collectable s₀ x) (hzs : ∀ z ∈ zs, z.Comparable) :
    Ensures (uniqueAddAll v ps) s fun b s' ↦
      b = true → Collected nlits s₀ s' l v aType name (Lib.insertAll Value.equal zs xs) := by
  induction hps generalizing s zs with
  | nil => exact fun _ ↦ h
  | @cons x p xs ps hp _ ih =>
    rw [List.forall_mem_cons] at hxs
    rw [Lib.insertAll_cons]
    refine Lib.meets_bind.2 ((uniqueAdd_collects h hp hxs.1 hzs).mono fun b s₁ h₁ ↦ ?_)
    refine Lib.meets_ite.2 ⟨fun hb ↦ ?_, fun _ hb ↦ absurd hb Bool.false_ne_true⟩
    exact ih (h₁ hb) hxs.2 (Lib.forall_mem_insertNew hzs hxs.1.comparable)

/-- The elements of the first array that equal one of the second. -/
theorem intersectAll_collects {xs ys : List (Value D)} {ps qs : List Ptr}
    (h : Collected nlits s₀ s l v aType name zs)
    (hps : List.Forall₂ (Denotes (fun _ ↦ True) s₀) xs ps)
    (hqs : List.Forall₂ (Denotes (fun _ ↦ True) s₀) ys qs)
    (hxs : ∀ x ∈ xs, Collectable s₀ x) (hys : ∀ y ∈ ys, y.Comparable)
    (hzs : ∀ z ∈ zs, z.Comparable) :
    Ensures (intersectAll v qs ps) s fun b s' ↦ b = true → Collected nlits s₀ s' l v aType name
      (Lib.insertAll Value.equal zs (Lib.common Value.equal xs ys)) := by
  induction hps generalizing s zs with
  | nil => exact fun _ ↦ h
  | @cons x p xs ps hp _ ih =>
    rw [List.forall_mem_cons] at hxs
    have hcmp := hxs.1.comparable
    have hqs' := hqs.imp fun y q hy ↦ h.stays hy
    refine Lib.meets_bind.2 ((anyEqual_returns (h.stays hp) hcmp hqs' hys).mono ?_)
    rintro _ s ⟨rfl, rfl⟩
    rw [Lib.common_cons]
    refine Lib.meets_ite.2 ⟨fun hmem ↦ Lib.meets_bind.2 ?_, fun hmem ↦ ?_⟩
    · rw [if_pos hmem, Lib.insertAll_cons]
      refine (uniqueAdd_collects h hp hxs.1 hzs).mono fun b s₁ h₁ ↦ ?_
      refine Lib.meets_ite.2 ⟨fun hb ↦ ?_, fun _ hb ↦ absurd hb Bool.false_ne_true⟩
      exact ih (h₁ hb) hxs.2 (Lib.forall_mem_insertNew hzs hcmp)
    · rw [if_neg hmem]
      exact ih h hxs.2 hzs

omit [CDouble D] in
/-- A new array is empty. -/
theorem createArray_collects {ts : List TableId} (h : s.WF nlits False) (hts : s.varTable = t :: ts) :
    Ensures (createArray (D := D) t aType name 0 (pure none)) s fun r s' ↦
      WritesOnly (fun _ ↦ False) s s' ∧ ∀ l ∈ r, ∃ v,
        s'.content (.node l) = some (.node (.array aType (elemName aType name) v (some l.table))) ∧
          Collected nlits s s' l v aType (elemName aType name) [] := by
  refine ((createArray_built builds_none).and (createArray_new h)).mono ?_
  rintro o s₁ ⟨⟨hwrites, hbuilt⟩, hleads, hfresh⟩
  refine ⟨hwrites, fun l ho ↦ ?_⟩
  obtain ⟨name', v, tb, hl, hempty⟩ := hbuilt l ho
  obtain ⟨_, ⟨⟩⟩ := array_of_fresh (hfresh l ho) (nodeAt_iff.2 hl.node)
  obtain rfl := (hfresh l ho).table
  refine ⟨v, hl.node, hleads, hwrites, hl, ?_, [], hempty rfl, .nil⟩
  rw [hleads.evolves.varTable, hts]
  rfl

omit [CDouble D] in
/-- The new array is empty, and the vectors are those of the two arrays. -/
theorem combineArrays_collects {p q : Ptr} {aType' : UInt32} {name' : Option Str}
    {xs ys : List (Value D)} (h : s.WF nlits False)
    (hp : Denotes (fun _ ↦ True) s (.array aType name xs) p)
    (hq : Denotes (fun _ ↦ True) s (.array aType' name' ys) q) :
    Ensures (combineArrays p q) s fun r s' ↦ ∀ a v ps qs, r = some (a, v, ps, qs) →
      Collected nlits s s' a v aType (elemName aType name) [] ∧
        List.Forall₂ (Denotes (fun _ ↦ True) s) xs ps ∧
        List.Forall₂ (Denotes (fun _ ↦ True) s) ys qs := by
  have hnone : ∀ {s' : ParserState D}, ∀ a v ps qs,
      (none : Option (Addr × Addr × List Ptr × List Ptr)) = some (a, v, ps, qs) →
        Collected nlits s s' a v aType (elemName aType name) [] ∧
          List.Forall₂ (Denotes (fun _ ↦ True) s) xs ps ∧
          List.Forall₂ (Denotes (fun _ ↦ True) s) ys qs :=
    fun _ _ _ _ heq ↦ by cases heq
  obtain ⟨a, v, tb, ps, rfl, ha, hv, hps⟩ := hp.array_elems
  obtain ⟨b, v', tb', qs, rfl, hb, hv', hqs⟩ := hq.array_elems
  refine Lib.meets_bind.2 ((runs_nodeAt ha).meets (Lib.meets_bind.2 ((runs_nodeAt hb).meets ?_)))
  refine Lib.meets_bind.2 (sameAdtName_ensures.mono ?_)
  rintro same s ⟨rfl, -⟩
  refine Lib.meets_ite.2 ⟨fun _ ↦ ?_, fun _ ↦ hnone⟩
  refine Lib.meets_bind.2 (getVarTable_ensures fun t ts hts ↦ Lib.meets_bind.2 ?_)
  refine (createArray_collects h hts).mono fun o s₁ ⟨hwrites, ho⟩ ↦ ?_
  cases o with
  | none => exact hnone
  | some c =>
    obtain ⟨w, hc, hcollected⟩ := ho c rfl
    refine Lib.meets_bind.2 ((runs_getNode hc).meets ?_)
    refine Lib.meets_bind.2 ((runs_getVector (hwrites.keep _ _ id hv)).meets ?_)
    refine Lib.meets_bind.2 ((runs_getVector (hwrites.keep _ _ id hv')).meets ?_)
    rintro _ _ _ _ ⟨⟩
    exact ⟨hcollected, hps, hqs⟩

/-! ### `ADTEqual` is an equivalence -/

/-- The pointer leads to a comparable value, which is not too deep for the bound. -/
def ComparableAt (s : ParserState D) (fuel : ℕ) (p : Ptr) : Prop :=
  ∃ x : Value D, Denotes (fun _ ↦ True) s x p ∧ x.Comparable ∧ x.nodes ≤ fuel

/-- `ADTEqual` returns what the comparison of the values does. -/
theorem runs_equalFuel_iff {fuel : ℕ} {x y : Value D} {p q : Ptr} {b : Bool}
    (hp : Denotes (fun _ ↦ True) s x p) (hq : Denotes (fun _ ↦ True) s y q) (hx : x.Comparable)
    (hy : y.Comparable) (hle : x.nodes ≤ fuel) :
    Runs (equalFuel fuel p q) s b s ↔ x.equal y = b := by
  have hruns : Runs (equalFuel fuel p q) s (x.equal y) s := by
    have hmeets := equalFuel_returns fuel x y p q hp hq hx hy
    cases heq : equalFuel fuel p q s with
    | error e => exact absurd (hmeets.fail heq) (Nat.not_lt.2 hle)
    | ok r =>
      obtain ⟨b, s'⟩ := r
      obtain ⟨rfl, rfl⟩ := hmeets.run heq
      exact heq
  exact ⟨fun h ↦ (hruns.unique h).1, fun h ↦ h ▸ hruns⟩

section Equivalence

variable {fuel : ℕ} {p q w : Ptr}

/-- A value equals itself. -/
theorem equalFuel_refl (hp : ComparableAt s fuel p) : Runs (equalFuel fuel p p) s true s := by
  obtain ⟨x, hp, hx, hle⟩ := hp
  exact (runs_equalFuel_iff hp hp hx hx hle).2 (x.equal_refl hx)

/-- The order of the operands does not count. -/
theorem equalFuel_symm [CDouble.LawfulEq D] (hp : ComparableAt s fuel p)
    (hq : ComparableAt s fuel q) (h : Runs (equalFuel fuel p q) s true s) :
    Runs (equalFuel fuel q p) s true s := by
  obtain ⟨x, hp, hx, hlex⟩ := hp
  obtain ⟨y, hq, hy, hley⟩ := hq
  have hxy := (runs_equalFuel_iff hp hq hx hy hlex).1 h
  exact (runs_equalFuel_iff hq hp hy hx hley).2 (x.equal_symm y hx hy hxy)

/-- Values that equal the same one are equal. -/
theorem equalFuel_trans [CDouble.LawfulEq D] (hp : ComparableAt s fuel p)
    (hq : ComparableAt s fuel q) (hw : ComparableAt s fuel w)
    (h : Runs (equalFuel fuel p q) s true s) (h' : Runs (equalFuel fuel q w) s true s) :
    Runs (equalFuel fuel p w) s true s := by
  obtain ⟨x, hp, hx, hlex⟩ := hp
  obtain ⟨y, hq, hy, hley⟩ := hq
  obtain ⟨z, hw, hz, -⟩ := hw
  have hxy := (runs_equalFuel_iff hp hq hx hy hlex).1 h
  have hyz := (runs_equalFuel_iff hq hw hy hz hley).1 h'
  exact (runs_equalFuel_iff hp hw hx hz hlex).2 (x.equal_trans y z hxy hyz)

end Equivalence

/-! ### What the two functions return -/

/-- The pointer leads to a new array without equal elements: the first occurrences among `xs`. A
value is equal to an element if it satisfies `Mem`. Nothing that was there has been written to. -/
structure IsSet (s s' : ParserState D) (Mem : Value D → Prop) (xs : List (Value D)) (aType : UInt32)
    (name : Option Str) (p : Ptr) (zs : List (Value D)) : Prop where
  fresh : Denotes s.New s' (.array aType name zs) p
  distinct : zs.Pairwise fun x y ↦ ¬ x.equal y = true
  mem : ∀ x : Value D, x.Comparable → ((∃ z ∈ zs, x.equal z = true) ↔ Mem x)
  first : zs = Lib.firsts Value.equal xs
  kept : WritesOnly (fun _ ↦ False) s s'

/-- What the loops have collected in the end. -/
theorem Collected.isSet [CDouble.LawfulEq D] {xs : List (Value D)} {Mem : Value D → Prop}
    (h : Collected nlits s₀ s l v aType name (Lib.insertAll Value.equal [] xs))
    (hxs : ∀ x ∈ xs, x.Comparable)
    (hmem : ∀ x : Value D, x.Comparable → ((∃ z ∈ xs, x.equal z = true) ↔ Mem x)) :
    IsSet s₀ s Mem xs aType name (.node l) (Lib.firsts Value.equal xs) := by
  rw [Lib.insertAll_nil Value.equal_equivOn hxs] at h
  refine ⟨h.denotes, Lib.firsts_pairwise Value.equal_equivOn hxs, fun x hx ↦ ?_, rfl, h.writes⟩
  rw [Lib.any_firsts Value.equal_equivOn hxs hx, hmem x hx]

section Sets

variable {p q : Ptr} {aType' : UInt32} {name' : Option Str} {xs ys : List (Value D)}

/-- The union has the elements of both arrays, none of them twice. -/
theorem arrayUnion_isSet [CDouble.LawfulEq D] (h : s.WF nlits False)
    (hp : Denotes (fun _ ↦ True) s (.array aType name xs) p)
    (hq : Denotes (fun _ ↦ True) s (.array aType' name' ys) q)
    (hxs : ∀ x ∈ xs, Collectable s x) (hys : ∀ y ∈ ys, Collectable s y) :
    Ensures (arrayUnion p q) s fun r s' ↦ ∀ a, r = .node a →
      ∃ zs, IsSet s s' (fun x ↦ (∃ z ∈ xs, x.equal z = true) ∨ ∃ z ∈ ys, x.equal z = true)
        (xs ++ ys) aType (elemName aType name) r zs := by
  refine Lib.meets_bind.2 ((combineArrays_collects h hp hq).mono fun r s₁ hr ↦ ?_)
  rcases r with _ | ⟨l, v, ps, qs⟩
  · exact fun a ha ↦ by cases ha
  obtain ⟨h₁, hps, hqs⟩ := hr l v ps qs rfl
  have hnil : ∀ z ∈ ([] : List (Value D)), z.Comparable := fun z hz ↦ absurd hz List.not_mem_nil
  refine Lib.meets_bind.2 ((uniqueAddAll_collects h₁ hps hxs hnil).mono fun b s₂ h₂ ↦ ?_)
  refine Lib.meets_ite.2 ⟨fun hb ↦ Lib.meets_bind.2 ?_, fun _ a ha ↦ by cases ha⟩
  have hcmp : ∀ x ∈ xs, x.Comparable := fun x hx ↦ (hxs x hx).comparable
  have hcmp' : ∀ y ∈ ys, y.Comparable := fun y hy ↦ (hys y hy).comparable
  have hzs : ∀ z ∈ Lib.insertAll Value.equal [] xs, z.Comparable := by
    rw [Lib.insertAll_nil Value.equal_equivOn hcmp]
    exact fun z hz ↦ hcmp z (Lib.firsts_subset xs hz)
  refine (uniqueAddAll_collects (h₂ hb) hqs hys hzs).mono fun b s₃ h₃ ↦ ?_
  refine Lib.meets_ite.2 ⟨fun hb' _ _ ↦ ?_, fun _ a ha ↦ by cases ha⟩
  have h₃ := h₃ hb'
  rw [← Lib.insertAll_append] at h₃
  refine ⟨_, h₃.isSet (List.forall_mem_append.2 ⟨hcmp, hcmp'⟩) fun x _ ↦ ?_⟩
  simp only [List.mem_append, or_and_right, exists_or]

/-- The intersection has the elements of the first array that the second one has, none of them
twice. -/
theorem arrayIntersect_isSet [CDouble.LawfulEq D] (h : s.WF nlits False)
    (hp : Denotes (fun _ ↦ True) s (.array aType name xs) p)
    (hq : Denotes (fun _ ↦ True) s (.array aType' name' ys) q)
    (hxs : ∀ x ∈ xs, Collectable s x) (hys : ∀ y ∈ ys, Collectable s y) :
    Ensures (arrayIntersect p q) s fun r s' ↦ ∀ a, r = .node a →
      ∃ zs, IsSet s s' (fun x ↦ (∃ z ∈ xs, x.equal z = true) ∧ ∃ z ∈ ys, x.equal z = true)
        (Lib.common Value.equal xs ys) aType (elemName aType name) r zs := by
  refine Lib.meets_bind.2 ((combineArrays_collects h hp hq).mono fun r s₁ hr ↦ ?_)
  rcases r with _ | ⟨l, v, ps, qs⟩
  · exact fun a ha ↦ by cases ha
  obtain ⟨h₁, hps, hqs⟩ := hr l v ps qs rfl
  have hcmp : ∀ x ∈ xs, x.Comparable := fun x hx ↦ (hxs x hx).comparable
  have hcmp' : ∀ y ∈ ys, y.Comparable := fun y hy ↦ (hys y hy).comparable
  have hnil : ∀ z ∈ ([] : List (Value D)), z.Comparable := fun z hz ↦ absurd hz List.not_mem_nil
  refine Lib.meets_bind.2 ((intersectAll_collects h₁ hps hqs hxs hcmp' hnil).mono fun b s₂ h₂ ↦ ?_)
  refine Lib.meets_ite.2 ⟨fun hb _ _ ↦ ?_, fun _ a ha ↦ by cases ha⟩
  refine ⟨_, (h₂ hb).isSet (fun x hx ↦ hcmp x (Lib.common_subset xs ys hx)) fun x hx ↦ ?_⟩
  exact Lib.any_common Value.equal_equivOn hcmp hcmp' hx

/-- **`ADTEqual` is an equivalence, and `array_union` and `array_intersect` return sets**: copies of
what is in one or in both of the arrays, in the order in which it occurs there. The structs in the
arrays must not have fields that their definitions lack. Those that the program has made itself have
none. -/
theorem array_sets [CDouble.LawfulEq D] :
    (∀ (s : ParserState D) fuel p q w, ComparableAt s fuel p → ComparableAt s fuel q →
      ComparableAt s fuel w →
      Runs (equalFuel fuel p p) s true s ∧
      (Runs (equalFuel fuel p q) s true s → Runs (equalFuel fuel q p) s true s) ∧
      (Runs (equalFuel fuel p q) s true s → Runs (equalFuel fuel q w) s true s →
        Runs (equalFuel fuel p w) s true s)) ∧
    ∀ nlits (s : ParserState D), s.WF nlits False →
      (∀ p q aType name name' xs ys,
        Denotes (fun _ ↦ True) s (.array aType name xs) p →
        Denotes (fun _ ↦ True) s (.array aType name' ys) q →
        (∀ x ∈ xs, Collectable s x) → (∀ y ∈ ys, Collectable s y) → ∀ a s',
          (Runs (arrayUnion p q) s (.node a) s' → ∃ zs,
            IsSet s s' (fun x ↦ (∃ z ∈ xs, x.equal z = true) ∨ ∃ z ∈ ys, x.equal z = true)
              (xs ++ ys) aType (elemName aType name) (.node a) zs) ∧
          (Runs (arrayIntersect p q) s (.node a) s' → ∃ zs,
            IsSet s s' (fun x ↦ (∃ z ∈ xs, x.equal z = true) ∧ ∃ z ∈ ys, x.equal z = true)
              (Lib.common Value.equal xs ys) aType (elemName aType name) (.node a) zs)) ∧
      ∀ p aType name xs, Usable s.varTable s p →
        Denotes (fun _ ↦ True) s (.array aType name xs) p →
        (∀ x ∈ xs, x.Comparable ∧ x.type ≠ .arrayType) → ∀ x ∈ xs, Collectable s x := by
  refine ⟨fun s fuel p q w hp hq hw ↦ ⟨equalFuel_refl hp, equalFuel_symm hp hq,
    equalFuel_trans hp hq hw⟩, fun nlits s h ↦ ⟨?_, fun p aType name xs husable hp hxs ↦
      collectable_elems h husable hp hxs⟩⟩
  intro p q aType name name' xs ys hp hq hxs hys a s'
  exact ⟨fun hruns ↦ (arrayUnion_isSet h hp hq hxs hys).run hruns a rfl,
    fun hruns ↦ (arrayIntersect_isSet h hp hq hxs hys).run hruns a rfl⟩

end Sets

/-- `==` of doubles is symmetric and transitive. -/
instance [CLibrary] : CDouble.LawfulEq Lib.Binary64 where
  symm d e h := (Bool.and_comm ..).trans h
  trans d e f h h' := by
    obtain ⟨hde, hed⟩ := Bool.and_eq_true_iff.1 h
    obtain ⟨hef, hfe⟩ := Bool.and_eq_true_iff.1 h'
    exact Bool.and_eq_true_iff.2 ⟨Lib.Binary64.le_trans hde hef, Lib.Binary64.le_trans hfe hed⟩

end Interp

/-! ### What another node returns -/

section Example

open Interp

/-- The test whether the computation returns a pointer to the value. -/
def returnsValue [DecidableEq D] (i : Interp D Ptr) (s : ParserState D) (x : Value D) : Bool :=
  match i s with
  | .ok (.node a, s') => leadsTo s' x (.node a)
  | _ => false

omit [CDouble D] in
/-- What the test accepts runs to a node with the value. -/
theorem runs_of_returnsValue [DecidableEq D] {i : Interp D Ptr} {x : Value D}
    (h : returnsValue i s x = true) :
    ∃ a s', Runs i s (.node a) s' ∧ Denotes (fun _ ↦ True) s' x (.node a) := by
  unfold returnsValue at h
  split at h
  · next a s' hrun => exact ⟨a, s', hrun, denotes_of_leadsTo h⟩
  · cases h

/-- `struct P { int x; };` -/
def pointAdt : AdtDef := ⟨pName, [⟨.int, none, xName⟩]⟩

/-- The test whether these two values have been evaluated, and have this union. -/
def Machine.unites [DecidableEq D] (xs ys zs : Value D) (m : Machine D) : Bool :=
  match m.ctrl, m.stack with
  | .ret q, .operands _ [p] _ _ :: _ =>
    (m.ps.defs pName == some pointAdt && leadsTo m.ps xs p) &&
      (leadsTo m.ps ys q && returnsValue (arrayUnion p q) m.ps zs)
  | _, _ => false

/-- What the test accepts is a union of two arrays of points. -/
theorem Machine.runs_of_unites [DecidableEq D] {xs ys zs : Value D} {m : Machine D}
    (h : m.unites xs ys zs = true) : m.ps.defs pName = some pointAdt ∧
      ∃ p q a s', Denotes (fun _ ↦ True) m.ps xs p ∧ Denotes (fun _ ↦ True) m.ps ys q ∧
        Runs (arrayUnion p q) m.ps (.node a) s' ∧ Denotes (fun _ ↦ True) s' zs (.node a) := by
  unfold unites at h
  split at h
  · next q _ p _ _ _ _ _ =>
    obtain ⟨hfirst, hrest⟩ := Bool.and_eq_true_iff.1 h
    obtain ⟨hdefs, hp⟩ := Bool.and_eq_true_iff.1 hfirst
    obtain ⟨hq, hunion⟩ := Bool.and_eq_true_iff.1 hrest
    obtain ⟨a, s', hrun, hzs⟩ := runs_of_returnsValue hunion
    exact ⟨beq_iff_eq.1 hdefs, p, q, a, s', denotes_of_leadsTo hp, denotes_of_leadsTo hq, hrun, hzs⟩
  · cases h

/-- `"n"` -/
def nName : Str := [110]

/-- `"f"` -/
def fName : Str := [102]

/-- `struct P { int x; }; void main() { Node n; array_union(rpc(n, f), rpc(n, f)); }` -/
def rpcProgram : Program Lib.Binary64 where
  literals := []
  textNodes := 31
  decls := [.struct pointAdt, .func ⟨.elem (.basic .void), mainName, [],
    .ast (.native2 .arrayUnion (.rpc (.refVar nName) fName []) (.rpc (.refVar nName) fName []))
      (.ast (.newVar (.adt nodeName) nName) .empty)⟩]

/-- The other node returns this. -/
def answering (v : Value Lib.Binary64) : Host Lib.Binary64 := { plainHost with reply := some v }

/-- A struct with these fields. -/
def point (fs : List (Str × Int32)) : Value Lib.Binary64 :=
  .adt pName (fs.map fun f ↦ (f.1, .int f.2))

/-- An array of such structs. -/
def pointArray (pts : List (List (Str × Int32))) : Value Lib.Binary64 :=
  .array ASTType.adtType.toWord (some pName) (pts.map point)

/-- A point compares if no field comes twice. -/
theorem comparable_point [CLibrary] {fs : List (Str × Int32)} (h : (fs.map Prod.fst).Nodup) :
    (point fs).Comparable := by
  refine Value.comparable_adt.2 ⟨by rwa [List.map_map], fun e he ↦ ?_⟩
  obtain ⟨f, -, rfl⟩ := List.mem_map.1 he
  trivial

/-- After 15 steps both requests have been answered. -/
theorem exists_unites [CLibrary] (pts pts' union : List (List (Str × Int32)))
    (h : ((Machine.start rpcProgram mainName .empty).toOption.bind fun m₀ ↦
      Lib.run Machine.step? m₀ (List.replicate 14 (answering (pointArray pts)) ++
        [answering (pointArray pts')])).any
          (Machine.unites (pointArray pts) (pointArray pts') (pointArray union)) = true) :
    ∃ (m : Machine Lib.Binary64) (p q : Ptr) (a : Addr) (s' : ParserState Lib.Binary64),
      Machine.Reachable rpcProgram mainName .empty m ∧ m.ps.defs pName = some pointAdt ∧
        Denotes (fun _ ↦ True) m.ps (pointArray pts) p ∧
        Denotes (fun _ ↦ True) m.ps (pointArray pts') q ∧
        Runs (arrayUnion p q) m.ps (.node a) s' ∧
        Denotes (fun _ ↦ True) s' (pointArray union) (.node a) := by
  obtain ⟨m, hreach, htest⟩ := Machine.exists_reachable h
  obtain ⟨hdefs, p, q, a, s', hp, hq, hrun, hunion⟩ := Machine.runs_of_unites htest
  exact ⟨m, p, q, a, s', hreach, hdefs, hp, hq, hrun, hunion⟩

/-- The points of an array, which are no arrays themselves. -/
theorem comparable_points [CLibrary] {pts : List (List (Str × Int32))}
    (h : ∀ fs ∈ pts, (fs.map Prod.fst).Nodup) :
    ∀ x ∈ pts.map point, x.Comparable ∧ x.type ≠ .arrayType := by
  intro x hx
  obtain ⟨fs, hfs, rfl⟩ := List.mem_map.1 hx
  exact ⟨comparable_point (h fs hfs), ASTType.noConfusion⟩

/-- Two different structs of another program come out equal: their fields `y` are not copied. -/
theorem array_sets_received : ¬ ∀ (_ : CLibrary) (program : Program Lib.Binary64) (funcString : Str)
    (param : Value Lib.Binary64) (m : Machine Lib.Binary64),
    Machine.Reachable program funcString param m → ∀ p q aType name name' xs ys,
      Denotes (fun _ ↦ True) m.ps (.array aType name xs) p →
      Denotes (fun _ ↦ True) m.ps (.array aType name' ys) q →
      (∀ x ∈ xs, x.Comparable ∧ x.type ≠ .arrayType) →
      (∀ y ∈ ys, y.Comparable ∧ y.type ≠ .arrayType) → ∀ a s',
        Runs (arrayUnion p q) m.ps (.node a) s' → ∃ zs,
          Denotes (fun _ ↦ True) s' (.array aType (elemName aType name) zs) (.node a) ∧
            zs.Pairwise fun x y ↦ ¬ x.equal y = true := by
  intro h
  let _ := reducing
  obtain ⟨m, p, q, a, s', hreach, -, hp, hq, hrun, hunion⟩ := exists_unites
    [[(xName, 1), (yName, 1)], [(xName, 1), (yName, 2)]] [] [[(xName, 1)], [(xName, 1)]]
    (by decide +kernel)
  obtain ⟨zs, hzs, hpairwise⟩ := h _ _ _ _ m hreach p q _ _ _ _ _ hp hq
    (comparable_points (by decide)) (comparable_points (by decide)) a s' hrun
  obtain rfl := (Value.array.inj (hzs.unique hunion)).2.2
  revert hpairwise
  decide

/-- Structs that have the field of the definition only. -/
theorem collectable_points [CLibrary] {s : ParserState Lib.Binary64}
    (hdefs : s.defs pName = some pointAdt) {pts : List (List (Str × Int32))}
    (h : ∀ fs ∈ pts, (fs.map Prod.fst).Nodup) (hfields : ∀ fs ∈ pts, ∀ f ∈ fs, f.1 = xName) :
    ∀ x ∈ pts.map point, Collectable s x := by
  intro x hx
  obtain ⟨hcmp, hne⟩ := comparable_points h x hx
  obtain ⟨fs, hfs, rfl⟩ := List.mem_map.1 hx
  refine ⟨hcmp, hne, fun e he ↦ ?_, fun d hd e he ↦ ?_⟩
  · obtain ⟨f, -, rfl⟩ := List.mem_map.1 he
    trivial
  · obtain ⟨f, hf, rfl⟩ := List.mem_map.1 he
    obtain rfl := Option.some.inj (hdefs.symm.trans hd)
    exact mem_fieldTypes.2 ⟨⟨.int, none, xName⟩, List.mem_singleton_self _, (hfields fs hfs f hf).symm⟩

/-- `{1, 2, 1}` and `{2, 3}` -/
theorem array_sets_points : ∃ (_ : CLibrary) (m : Machine Lib.Binary64) (p q : Ptr) (a : Addr)
    (s' : ParserState Lib.Binary64), Machine.Reachable rpcProgram mainName .empty m ∧
      Denotes (fun _ ↦ True) m.ps (pointArray [[(xName, 1)], [(xName, 2)], [(xName, 1)]]) p ∧
      Denotes (fun _ ↦ True) m.ps (pointArray [[(xName, 2)], [(xName, 3)]]) q ∧
      Runs (arrayUnion p q) m.ps (.node a) s' ∧
      IsSet m.ps s' (fun x ↦
          (∃ z ∈ [[(xName, 1)], [(xName, 2)], [(xName, 1)]].map point, x.equal z = true) ∨
            ∃ z ∈ [[(xName, 2)], [(xName, 3)]].map point, x.equal z = true)
        ([[(xName, 1)], [(xName, 2)], [(xName, 1)], [(xName, 2)], [(xName, 3)]].map point)
        ASTType.adtType.toWord (some pName) (.node a)
        ([[(xName, 1)], [(xName, 2)], [(xName, 3)]].map point) := by
  let _ := reducing
  obtain ⟨m, p, q, a, s', hreach, hdefs, hp, hq, hrun, hunion⟩ := exists_unites
    [[(xName, 1)], [(xName, 2)], [(xName, 1)]] [[(xName, 2)], [(xName, 3)]]
    [[(xName, 1)], [(xName, 2)], [(xName, 3)]] (by decide +kernel)
  obtain ⟨zs, hzs⟩ := ((array_sets.2 _ m.ps hreach.heap.wf).1 _ _ _ _ _ _ _ hp hq
    (collectable_points hdefs (by decide) (by decide))
      (collectable_points hdefs (by decide) (by decide)) a s').1 hrun
  obtain rfl := (Value.array.inj (hzs.fresh.unique hunion)).2.2
  exact ⟨reducing, m, p, q, a, s', hreach, hp, hq, hrun, hzs⟩

end Example

end Meridian.MQL

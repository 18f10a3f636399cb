import Meridian.MQL.ArraySets

/-!
# What the ring functions return

The array of structs `Node` that `handleRingGTE` and `handleRingLTE` fill from `outMembers`. The struct
of an entry is new, and the loop over the fields writes to nothing but them: so it denotes `nodeValue`
of the entry (`createIdent_denotes`), and the array the list of these (`createIdents_denotes`).

With what the entries are (`outMembers_fullScan_iff`) that is the comparison with a full scan, for
every RingSet that completed calls lead to and in every state that a program reaches.
-/

namespace Meridian.MQL

open Lib (Binary64 Runs)
open RingSet ParserState

variable {D : Type} [CDouble D] {nlits : ℕ} {typed : Prop} {s s' s₀ : ParserState D} {t : TableId}

/-- The fields of the struct `Node` of an entry. -/
def nodeFields (ident : NodeIdentRendv) : List (Str × Value D) :=
  [(addrName, .int ident.addr.toInt32), (portName, .int ident.port.toUInt32.toInt32),
    (rendvAddrName, .int ident.addrRendv.toInt32), (rendvPortName, .int ident.portRendv.toInt32)]

/-- The struct `Node` of an entry. -/
def nodeValue (ident : NodeIdentRendv) : Value D := .adt nodeName (nodeFields ident)

omit [CDouble D] in
theorem nodeValue_injective : Function.Injective (nodeValue : NodeIdentRendv → Value D) := by
  rintro ⟨addr, port, addrRendv, portRendv⟩ ⟨addr', port', addrRendv', portRendv'⟩ h
  simp only [nodeValue, nodeFields, Value.adt.injEq, List.cons.injEq, Prod.mk.injEq,
    Value.int.injEq, true_and, and_true] at h
  obtain ⟨h₁, h₂, h₃, h₄⟩ := h
  have hword : ∀ a b : UInt32, a.toInt32 = b.toInt32 → a = b := fun a b h ↦ by
    rw [← a.toUInt32_toInt32, h, b.toUInt32_toInt32]
  simp only [NodeIdentRendv.mk.injEq]
  exact ⟨hword _ _ h₁, UInt16.toUInt32_inj.1 (hword _ _ h₂), hword _ _ h₃, hword _ _ h₄⟩

omit [CDouble D] in
/-- The fields of `Node` in their order. -/
theorem keys_nodeAdt : (fieldTypes nodeAdt.adtParam).keys =
    [addrName, portName, rendvAddrName, rendvPortName] := by
  decide +kernel

omit [CDouble D] in
/-- They are what `createNodeIdent` has under their names. -/
theorem identField_of_mem {ident : NodeIdentRendv} {k : Str} {x : Value D}
    (h : (k, x) ∈ nodeFields ident) : ∃ f ∈ nodeAdt.adtParam, f.vName = k ∧
      ∀ w, Interp.identField ident k = some w → x = .int w.toInt32 := by
  simp only [nodeFields, List.mem_cons, List.not_mem_nil, or_false, Prod.mk.injEq] at h
  rcases h with ⟨rfl, rfl⟩ | ⟨rfl, rfl⟩ | ⟨rfl, rfl⟩ | ⟨rfl, rfl⟩
  · exact ⟨⟨.int, none, addrName⟩, by decide, rfl, fun w hw ↦ by cases hw; rfl⟩
  · exact ⟨⟨.int, none, portName⟩, by decide, rfl, fun w hw ↦ by cases hw; rfl⟩
  · exact ⟨⟨.int, none, rendvAddrName⟩, by decide, rfl, fun w hw ↦ by cases hw; rfl⟩
  · exact ⟨⟨.int, none, rendvPortName⟩, by decide, rfl, fun w hw ↦ by cases hw; rfl⟩

namespace Interp

/-! ### One struct -/

/-- **What the loop has written**: nothing but fields, and each one that it has been at holds what the
entry has under its name. -/
theorem fillFields_denotes {adtMap : StrMap Ptr} (ident : NodeIdentRendv)
    (hinj : ∀ (k k' : Str) a, adtMap[k]? = some (.node a) → adtMap[k']? = some (.node a) → k = k')
    (fs : List Field) (s : ParserState D) :
    Ensures (fillFields ident none adtMap fs) s fun b s' ↦
      WritesOnly (fun c ↦ ∃ f ∈ fs, ∃ a, adtMap[f.vName]? = some (.node a) ∧ c = .node a) s s' ∧
        (b = true → ∀ f ∈ fs, ∃ a w, adtMap[f.vName]? = some (.node a) ∧
          identField ident f.vName = some w ∧ s'.content (.node a) = some (.node (.int w.toInt32))) := by
  induction fs generalizing s with
  | nil => exact ⟨.refl _ s, fun _ f hf ↦ absurd hf List.not_mem_nil⟩
  | cons f fs ih =>
    have hfalse : Ensures (pure false) s fun b s' ↦
        WritesOnly (fun c ↦ ∃ g ∈ f :: fs, ∃ a, adtMap[g.vName]? = some (.node a) ∧ c = .node a) s s' ∧
          (b = true → ∀ g ∈ f :: fs, ∃ a w, adtMap[g.vName]? = some (.node a) ∧
            identField ident g.vName = some w ∧
              s'.content (.node a) = some (.node (.int w.toInt32))) :=
      ⟨.refl _ s, fun h ↦ absurd h Bool.false_ne_true⟩
    rw [fillFields]
    split
    · exact hfalse
    next p hp =>
    refine Lib.meets_bind.2 (nodeAt_ensures (fun a n hpa hn ↦ ?_) fun _ _ ↦ hfalse)
    subst hpa
    split
    · next a' i heq =>
      cases heq
      split
      · exact hfalse
      next w hw =>
      refine Lib.meets_bind.2 ((setNode_writes a _).mono fun _ s₁ ⟨h₁, ha⟩ ↦ ?_)
      refine (ih s₁).mono fun b s₂ ⟨h₂, hb⟩ ↦ ⟨?_, fun hb' g hg ↦ ?_⟩
      · refine (h₁.mono fun c hc ↦ ⟨f, List.mem_cons_self .., a, hp, hc⟩).trans (h₂.mono ?_)
        rintro c ⟨g, hg, hc⟩
        exact ⟨g, List.mem_cons_of_mem _ hg, hc⟩
      -- the last definition of a field counts
      · by_cases hrest : ∃ g' ∈ fs, g'.vName = g.vName
        · obtain ⟨g', hg', heq⟩ := hrest
          exact heq ▸ hb hb' g' hg'
        · -- the loop does not come back to the field
          rcases List.mem_cons.1 hg with rfl | hg
          · refine ⟨a, w, hp, hw, h₂.keep _ _ ?_ ha⟩
            rintro ⟨g', hg', a', ha', heq⟩
            obtain rfl := Cell.node.inj heq
            exact hrest ⟨g', hg', hinj _ _ _ ha' hp⟩
          · exact absurd ⟨g, hg, rfl⟩ hrest
    · next heq => cases heq
    · exact hfalse

/-- **The struct of an entry** is new, and denotes its value. -/
theorem createIdent_denotes (ident : NodeIdentRendv) (h : s.WF nlits typed)
    (hnode : s.defs nodeName = some nodeAdt) :
    Ensures (createIdent nodeName ident none) s fun p s' ↦ WritesOnly (fun _ ↦ False) s s' ∧
      ∀ a, p = .node a → Denotes s.New s' (nodeValue ident) p := by
  have hempty : ∀ {s' : ParserState D}, WritesOnly (fun _ ↦ False) s s' →
      WritesOnly (fun _ ↦ False) s s' ∧
        ∀ a, Ptr.empty = .node a → Denotes s.New s' (nodeValue ident) .empty :=
    fun hw ↦ ⟨hw, fun a ha ↦ by cases ha⟩
  refine getVarTable_readOnly.then fun t ↦ Lib.meets_bind.2 ?_
  refine lookup_ensures (fun p t' tbl ht hp _ ↦ ?_) (hempty (.refl _ s))
  split
  swap
  · exact hempty (.refl _ s)
  next d heq =>
  obtain rfl := Option.some.inj heq
  obtain rfl := Option.some.inj (hnode.symm.trans (h.adtTypeName ht hp).1)
  refine Lib.meets_bind.2 ((createAdt_struct h).mono fun o s₁ ⟨h₁, hleads, ho⟩ ↦ ?_)
  cases o with
  | none => exact hempty h₁
  | some a =>
    obtain ⟨m, adtMap, tbl, ha⟩ := ho a rfl
    refine Lib.meets_bind.2 ((runs_getNode ha.built.node).meets ?_)
    refine Lib.meets_bind.2 ((runs_getMap ha.map).meets (Lib.meets_bind.2 ?_))
    have hfields := ownStruct_disjoint hleads.wf ha.table ha.built.node ha.map ha.whole
    refine (fillFields_denotes ident (fun k k' l hk hk' ↦ ?_) _ s₁).mono fun b s₂ ⟨h₂, hb⟩ ↦ ?_
    · obtain ⟨_, n, f, ⟨⟩, hn, -⟩ := hfields.field k _ hk
      exact hfields.disjoint k k' l l n n (.node l) hk hk' hn hn (.inl rfl) (.inl rfl)
    have hcell : ∀ c, (∃ f ∈ nodeAdt.adtParam, ∃ l, adtMap[f.vName]? = some (.node l) ∧
        c = .node l) → ∃ k, fieldCells s₁ adtMap k c := by
      rintro c ⟨f, -, l, hl, rfl⟩
      obtain ⟨_, n, g, ⟨⟩, hn, -⟩ := hfields.field _ _ hl
      exact ⟨f.vName, l, n, hl, hn, .inl rfl⟩
    have hwrites : WritesOnly (fun _ ↦ False) s s₂ := by
      refine WritesOnly.drop_new ((h₁.mono fun _ ↦ False.elim).trans h₂) fun c hc ↦ .inr ?_
      obtain ⟨k, hk⟩ := hcell c hc
      exact ha.fields k c hk
    refine Lib.meets_ite.2 ⟨fun hb' ↦ ⟨hwrites, ?_⟩, fun _ ↦ hempty hwrites⟩
    rintro _ ⟨⟩
    -- the struct itself is none of its fields
    have hself : s₂.content (.node a) = some (.node (.varAdt nodeName m false)) := by
      refine h₂.keep _ _ ?_ ha.built.node
      rintro ⟨f, -, l, hl, heq⟩
      obtain ⟨_, n, g, ⟨⟩, hn, hg⟩ := hfields.field _ _ hl
      cases ha.built.node.symm.trans (Cell.node.inj heq ▸ hn)
      exact ne_map_of_hasField hg rfl rfl
    have hmap : s₂.content (.aux .map m) = some (.map adtMap) := by
      refine h₂.keep _ _ ?_ ha.map
      rintro ⟨f, -, l, -, heq⟩
      cases heq
    have hkeys : (nodeFields (D := D) ident).map Prod.fst = adtMap.keys := by
      obtain ⟨d, hd, hdkeys, -⟩ := ownStruct_fields hleads.wf ha.table ha.built.node ha.map ha.whole
      obtain rfl := Option.some.inj (hd.symm.trans (hleads.evolves.defs hnode))
      rw [keys_eq_of_mem_iff hdkeys, keys_nodeAdt]
      rfl
    refine ⟨a, m, false, adtMap, rfl, ⟨ha.built.new _ (.inl rfl), hself⟩,
      ⟨ha.built.new _ (.inr ⟨.map, m, rfl, rfl⟩), hmap⟩, denotesMap_of_keys hkeys fun k x p hx hp ↦ ?_⟩
    obtain ⟨f, hf, rfl, hval⟩ := identField_of_mem hx
    obtain ⟨l, w, hl, hw, hint⟩ := hb hb' f hf
    obtain rfl := Option.some.inj (hp.symm.trans hl)
    obtain rfl := hval w hw
    obtain ⟨k, hk⟩ := hcell (.node l) ⟨f, hf, l, hl, rfl⟩
    exact ⟨l, rfl, ha.fields k _ hk, hint⟩

/-! ### The array -/

/-- The loop over the entries. -/
theorem pushIdents_collects {l v : Addr} {aType : UInt32} {name : Option Str} {zs : List (Value D)}
    (idents : List NodeIdentRendv) (h : Collected nlits s₀ s l v aType name zs)
    (hnode : s₀.defs nodeName = some nodeAdt) :
    Ensures (pushIdents nodeName v (idents.map fun ident ↦ (ident, none))) s fun b s' ↦
      b = true → Collected nlits s₀ s' l v aType name (zs ++ idents.map nodeValue) := by
  induction idents generalizing s zs with
  | nil =>
    intro _
    rw [List.map_nil, List.append_nil]
    exact h
  | cons ident idents ih =>
    have hnode' : s.defs nodeName = some nodeAdt := h.leads.evolves.defs hnode
    refine Lib.meets_bind.2 (((createIdent_denotes ident h.leads.wf hnode').and
      (createIdent_ensures nodeName ident none h.leads.wf h.top)).mono ?_)
    rintro p s₁ ⟨⟨hwrites, hp⟩, hleads, rfl | ⟨a, rfl, ha⟩⟩
    · exact fun hb ↦ absurd hb Bool.false_ne_true
    · refine Lib.meets_bind.2 ((pushBack_collected h hleads hwrites ha (hp a rfl)).mono ?_)
      intro _ s₂ h₂
      refine (ih h₂).mono fun b s₃ h₃ hb ↦ ?_
      rw [List.map_cons, List.append_cons]
      exact h₃ hb

/-- **The array of the entries** is new, and denotes the list of their values. -/
theorem createIdents_denotes (idents : List NodeIdentRendv) (h : s.WF nlits False)
    (hnode : s.defs nodeName = some nodeAdt) :
    Ensures (createIdents nodeName (idents.map fun ident ↦ (ident, none))) s fun p s' ↦
      ∀ a, p = .node a → WritesOnly (fun _ ↦ False) s s' ∧
        Denotes s.New s' (.array ASTType.adtType.toWord (some nodeName) (idents.map nodeValue)) p := by
  refine Lib.meets_bind.2 (getVarTable_ensures fun t ts hts ↦ Lib.meets_bind.2 ?_)
  refine (createArray_collects h hts).mono fun o s₁ ⟨hwrites, ho⟩ ↦ ?_
  cases o with
  | none => exact fun a ha ↦ by cases ha
  | some l =>
    obtain ⟨v, hl, hcollected⟩ := ho l rfl
    refine Lib.meets_bind.2 ((runs_getNode hl).meets (Lib.meets_bind.2 ?_))
    refine (pushIdents_collects idents hcollected hnode).mono fun b s₂ h₂ ↦ ?_
    refine Lib.meets_ite.2 ⟨fun hb ↦ ?_, fun _ a ha ↦ by cases ha⟩
    rintro _ ⟨⟩
    exact ⟨(h₂ hb).writes, (h₂ hb).denotes⟩

/-- What a ring function returns. -/
theorem ring_denotes (host : Host D) (f : RingFunc) {d : D} {p : Ptr} (h : s.WF nlits False)
    (hnode : s.defs nodeName = some nodeAdt) (hp : Denotes (fun _ ↦ True) s (.double d) p) :
    Ensures (native1 host (.ring f) p) s fun p s' ↦ ∀ a, p = .node a →
      WritesOnly (fun _ ↦ False) s s' ∧ Denotes s.New s'
        (.array ASTType.adtType.toWord (some nodeName) ((outMembers host f d).map nodeValue)) p := by
  obtain ⟨a, rfl, -, ha⟩ := hp
  exact Lib.meets_bind.2 ((runs_nodeAt ha).meets (createIdents_denotes _ h hnode))

end Interp

/-! ### Every reachable state -/

/-- **The ring functions and the full scan.** In every state that completed calls lead to, a full
scan lists the primary members whose latency in ms compares as the function says, each once and with
its rendavous; and a ring function takes these, in some order, unless there is a member that is
misplaced. The array that it returns, whatever the program has done before, holds what it has taken. -/
theorem ringFunction_fullScan_iff [CLibrary] (hconv : ∀ z : ℤ, CLibrary.toUInt (.fin z) = castUInt z)
    (host : Host Binary64)
    (hmono : ∀ a b, a ≤ b → host.getRingNumber a ≤ host.getRingNumber b)
    (primarySize secondarySize : UInt32) (calls : List RingSet.Call)
    (hadm : ∀ c ∈ calls, c.Admissible primarySize)
    (hrun : Lib.run (RingSet.step host.getRingNumber) (RingSet.new primarySize secondarySize) calls =
      some host.rings)
    (f : RingFunc) (q : ℚ) (hq : Binary64.IsDouble q) :
    (fullScan host.rings f (Binary64.fin q)).Nodup ∧
      (∀ e, e ∈ fullScan host.rings f (Binary64.fin q) ↔
        ∃ r, ∃ n ∈ host.rings.primaryRing r,
          (∃ us, host.rings.nodeLatencyUS[n]? = some us ∧
            f.holds (Binary64.fin q) (toMs us) = true) ∧
          e = ⟨n.addr, n.port, ((host.rings.rendvMapping[n]?).getD ⟨0, 0⟩).addr,
            ((host.rings.rendvMapping[n]?).getD ⟨0, 0⟩).port.toUInt32⟩) ∧
      ((outMembers host f (Binary64.fin q)).Perm (fullScan host.rings f (Binary64.fin q)) ↔
        ¬ HasMember host.rings (Misplaced host f (.fin q))) ∧
      ∀ (program : Program Binary64) (funcString : Str) (param : Value Binary64)
        (m : Machine Binary64), Machine.Reachable program funcString param m → ∀ p a s',
        Denotes (fun _ ↦ True) m.ps (.double (.fin q)) p →
        Runs (Interp.native1 host (.ring f) p) m.ps (.node a) s' → ∃ vs,
          Denotes m.ps.New s' (.array ASTType.adtType.toWord (some nodeName) vs) (.node a) ∧
            (vs.Perm ((fullScan host.rings f (Binary64.fin q)).map nodeValue) ↔
              ¬ HasMember host.rings (Misplaced host f (.fin q))) := by
  have hinv := (sound_of_run hadm hrun).inv
  have hperm := outMembers_fullScan_iff hconv hmono hinv f hq
  refine ⟨nodup_fullScan hinv, fun e ↦ ?_, hperm, ?_⟩
  · rw [mem_fullScan]
    simp only [rendvEntry_eq]
  · intro program funcString param m hreach p a s' hp hruns
    have hreturns := Interp.ring_denotes host f hreach.heap.wf hreach.heap.node hp
    refine ⟨_, (hreturns.run hruns a rfl).2, ?_⟩
    rw [List.map_perm_map_iff nodeValue_injective, hperm]

/-- The members are inserted one after the other. -/
def threeCalls : List RingSet.Call :=
  [.insertNodeRendv ⟨1, 1⟩ 10 ⟨9, 9⟩, .insertNode ⟨3, 3⟩ 20, .insertNode ⟨2, 2⟩ 1500]

/-- A node with two members in the first ring, at 10 µs and 20 µs, and one in the second. -/
def threeMembers : Host Binary64 where
  rendv := ⟨0, 0⟩
  rings := (Lib.run (RingSet.step twoRings) (RingSet.new 2 1) threeCalls).get (by decide)
  getRingNumber := twoRings
  reply := none
  latencies := none

theorem run_threeMembers :
    Lib.run (RingSet.step twoRings) (RingSet.new 2 1) threeCalls = some threeMembers.rings :=
  (Option.some_get (by decide)).symm

/-- `"d"` -/
def dName : Str := [100]

/-- `int main(double d) { ring_ge(d); }`, or with another function. -/
def ringProgram (f : RingFunc) : Program Binary64 where
  literals := []
  textNodes := 24
  decls := [.func ⟨.elem (.basic .int), mainName, [⟨.elem (.basic .double), dName⟩],
    .ast (.native1 (.ring f) (.refVar dName)) .empty⟩]

/-- The test whether the bound has been evaluated, and these entries are returned. -/
def Machine.scans [CLibrary] (f : RingFunc) (d : Binary64) (idents : List NodeIdentRendv)
    (m : Machine Binary64) : Bool :=
  match m.ctrl with
  | .ret p => leadsTo m.ps (.double d) p &&
    returnsValue (Interp.native1 threeMembers (.ring f) p) m.ps
      (.array ASTType.adtType.toWord (some nodeName) (idents.map nodeValue))
  | _ => false

/-- After 5 steps the bound has been evaluated. -/
theorem exists_scans [CLibrary] (f : RingFunc) (d : Binary64) (idents : List NodeIdentRendv)
    (h : ((Machine.start (ringProgram f) mainName (.sep [.double d])).toOption.bind fun m₀ ↦
      Lib.run Machine.step? m₀ (List.replicate 5 threeMembers)).any (Machine.scans f d idents) =
        true) :
    ∃ m p a s', Machine.Reachable (ringProgram f) mainName (.sep [.double d]) m ∧
      Denotes (fun _ ↦ True) m.ps (.double d) p ∧
      Runs (Interp.native1 threeMembers (.ring f) p) m.ps (.node a) s' ∧
      Denotes (fun _ ↦ True) s'
        (.array ASTType.adtType.toWord (some nodeName) (idents.map nodeValue)) (.node a) := by
  obtain ⟨m, hreach, htest⟩ := Machine.exists_reachable h
  unfold Machine.scans at htest
  split at htest
  · next p _ =>
    obtain ⟨hp, hreturns⟩ := Bool.and_eq_true_iff.1 htest
    obtain ⟨a, s', hrun, hvs⟩ := runs_of_returnsValue hreturns
    exact ⟨m, p, a, s', hreach, denotes_of_leadsTo hp, hrun, hvs⟩
  · cases htest

/-- `ring_ge(1.0 / 64.0)` -/
theorem ringFunction_fullScan_ge : ∃ (_ : CLibrary) (m : Machine Binary64) (p : Ptr) (a : Addr)
    (s' : ParserState Binary64) (vs : List (Value Binary64)),
    Machine.Reachable (ringProgram .ge) mainName (.sep [.double (.fin (1 / 64))]) m ∧
      Runs (Interp.native1 threeMembers (.ring .ge) p) m.ps (.node a) s' ∧
      Denotes m.ps.New s' (.array ASTType.adtType.toWord (some nodeName) vs) (.node a) ∧
      vs.Perm ((fullScan threeMembers.rings .ge (Binary64.fin (1 / 64))).map nodeValue) := by
  let _ := reducing
  obtain ⟨m, p, a, s', hreach, hp, hrun, -⟩ := exists_scans .ge (.fin (1 / 64))
    [⟨3, 3, 0, 0⟩, ⟨2, 2, 0, 0⟩] (by decide +kernel)
  obtain ⟨vs, hvs, hperm⟩ := (ringFunction_fullScan_iff reducing_toUInt threeMembers twoRings_mono 2 1
    threeCalls (by decide) run_threeMembers .ge (1 / 64) (by decide +kernel)).2.2.2 _ _ _ m hreach p a
      s' hp hrun
  refine ⟨reducing, m, p, a, s', vs, hreach, hrun, hvs, hperm.2 ?_⟩
  rintro ⟨r, n, -, us, -, hmis⟩
  have hbound : RingFunc.ge.bound (Binary64.fin (1 / 64)) = .fin 15 := by decide +kernel
  rw [Misplaced, hbound, if_neg (by decide), if_neg (by decide)] at hmis
  exact hmis

/-- `ring_gt(-1.0)` misses the members of the first ring: -1000 µs come out as 4294966296. -/
theorem ringFunction_wraps : ¬ ∀ (_ : CLibrary),
    (∀ z : ℤ, CLibrary.toUInt (.fin z) = castUInt z) → ∀ (host : Host Binary64),
      (∀ a b, a ≤ b → host.getRingNumber a ≤ host.getRingNumber b) →
      ∀ (primarySize secondarySize : UInt32) (calls : List RingSet.Call),
      (∀ c ∈ calls, c.Admissible primarySize) →
      Lib.run (RingSet.step host.getRingNumber) (RingSet.new primarySize secondarySize) calls =
        some host.rings →
      ∀ (f : RingFunc) (q : ℚ), Binary64.IsDouble q →
      ∀ (program : Program Binary64) (funcString : Str) (param : Value Binary64)
        (m : Machine Binary64), Machine.Reachable program funcString param m → ∀ p a s',
        Denotes (fun _ ↦ True) m.ps (.double (.fin q)) p →
        Runs (Interp.native1 host (.ring f) p) m.ps (.node a) s' → ∃ vs,
          Denotes m.ps.New s' (.array ASTType.adtType.toWord (some nodeName) vs) (.node a) ∧
            vs.Perm ((fullScan host.rings f (Binary64.fin q)).map nodeValue) := by
  intro h
  let _ := reducing
  obtain ⟨m, p, a, s', hreach, hp, hrun, hreturned⟩ := exists_scans .gt (.fin (-1))
    [⟨2, 2, 0, 0⟩] (by decide +kernel)
  obtain ⟨vs, hvs, hperm⟩ := h reducing reducing_toUInt threeMembers twoRings_mono 2 1 threeCalls
    (by decide) run_threeMembers .gt (-1) (by decide +kernel) _ _ _ m hreach p a s' hp hrun
  obtain rfl := (Value.array.inj (hvs.unique hreturned)).2.2
  have hlength := hperm.length_eq
  rw [List.length_map, List.length_map] at hlength
  revert hlength
  decide +kernel

end Meridian.MQL

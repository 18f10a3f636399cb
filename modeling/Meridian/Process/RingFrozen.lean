import Meridian.Process.Node
import Meridian.Query.RingReplace

/-!
# A ring is frozen if and only if it is being managed

`RingManageQuery::init` freezes the ring, and the two ways the query completes thaw it. Between them
lie any number of steps of other queries, so the connection is an invariant of the whole process:

* every query that manages a ring watches it, in the sense of the module on ring replacement;
* every frozen ring has a query that manages it, and no ring has two.

What a handler can do to the rings is `HandlerEffect`: it spares the frozen rings, or it is the
handler of a query that manages a ring and touches no other. Every invariant of the node is derived
from that.
-/

namespace Meridian

open Lib RingManageQuery

/-- The query, if it manages a ring. -/
def NodeQuery.ringManage? : NodeQuery → Option RingManageQuery
  | .ringManage q => some q
  | _ => none

namespace Node

variable {env : NodeEnv} {s s' : Node} {id id' : UInt64} {e : Entry} {r : Fin MAX_NUM_RINGS}

/-- The query with this id, if it manages a ring. -/
def managing (s : Node) (id : UInt64) : Option RingManageQuery :=
  (s.table id).bind fun e ↦ e.query.ringManage?

/-- The query with this id manages ring `r`. -/
def Manages (s : Node) (id : UInt64) (r : Fin MAX_NUM_RINGS) : Prop :=
  ∃ q, s.managing id = some q ∧ q.ringNum = r

/-- The invariant of a process. -/
structure Sound (env : NodeEnv) (s : Node) : Prop where
  inv : RingSet.Inv env.getRingNumber s.rings
  unfinished : ∀ id e, s.table id = some e → e.query.isFinished = false
  watching : ∀ id q, s.managing id = some q → ∃ r, Watching env.getRingNumber q s.rings r
  managed : ∀ r, s.rings.ringFrozen r = true → ∃ id, s.Manages id r
  unique : ∀ id id' r, s.Manages id r → s.Manages id' r → id = id'

theorem eq_of_checkRing {ringNum : Int} (h : RingSet.checkRing ringNum = some r) :
    ringNum = r := by
  rw [RingSet.checkRing] at h
  split at h
  · rename_i hr
    rw [Option.some.injEq] at h
    rw [← h]
    exact (Int.toNat_of_nonneg hr.1).symm
  · exact absurd h (by simp)

theorem Sound.watches (h : s.Sound env) {q : RingManageQuery} (hq : s.managing id = some q)
    (hr : q.ringNum = r) : Watching env.getRingNumber q s.rings r := by
  obtain ⟨k, hk⟩ := h.watching id q hq
  have hkr : RingSet.checkRing q.ringNum = some r := by
    rw [hr]
    exact RingSet.checkRing_natCast r
  rw [hk.ringNum, Option.some.injEq] at hkr
  exact hkr ▸ hk

theorem new_sound (env : NodeEnv) (primarySize secondarySize : UInt32) :
    (new primarySize secondarySize).Sound env where
  inv := RingSet.inv_new env.getRingNumber primarySize secondarySize
  unfinished := fun _ _ h ↦ absurd h (by simp [new])
  watching := fun _ _ h ↦ absurd h (by simp [new, managing])
  managed := fun _ h ↦ absurd h (by simp [new, RingSet.new])
  unique := by
    rintro id id' r ⟨q, hq, -⟩
    exact absurd hq (by simp [new, managing])

/-! ### Steps that leave the management of rings alone -/

/-- A step that spares the frozen rings and keeps the queries that manage one. -/
theorem Sound.of_frozenKept (h : s.Sound env) (hinv : RingSet.Inv env.getRingNumber s'.rings)
    (hkept : RingSet.FrozenKept s.rings s'.rings)
    (hunfinished : ∀ id e, s'.table id = some e → e.query.isFinished = false)
    (hmanaging : ∀ id, s'.managing id = s.managing id) : s'.Sound env := by
  have hmanages : ∀ id r, s'.Manages id r ↔ s.Manages id r := fun id r ↦ by
    rw [Manages, Manages, hmanaging]
  refine ⟨hinv, hunfinished, fun id q hq ↦ ?_, fun r hr ↦ ?_, fun id id' r h₁ h₂ ↦ ?_⟩
  · obtain ⟨r, hr⟩ := h.watching id q (by rw [← hmanaging]; exact hq)
    exact ⟨r, hr.of_frozenKept hinv hkept⟩
  · rw [hkept.frozen] at hr
    obtain ⟨id, hid⟩ := h.managed r hr
    exact ⟨id, (hmanages id r).2 hid⟩
  · exact h.unique id id' r ((hmanages id r).1 h₁) ((hmanages id' r).1 h₂)

theorem update_unfinished {table : UInt64 → Option Entry} {o : Option Entry}
    (h : ∀ id e, table id = some e → e.query.isFinished = false)
    (ho : ∀ e, o = some e → e.query.isFinished = false) (k : UInt64) :
    ∀ id e, Function.update table k o id = some e → e.query.isFinished = false := by
  intro id e he
  by_cases hk : id = k
  · subst hk
    rw [Function.update_self] at he
    exact ho e he
  · rw [Function.update_of_ne hk] at he
    exact h id e he

theorem managing_of_table {o : Option Entry} (h : s.table id = o) :
    s.managing id = o.bind fun e ↦ e.query.ringManage? := by
  rw [managing, h]

/-- The entry under one id is replaced; neither the old nor the new one manages a ring. -/
theorem managing_update {o : Option Entry} (htable : s'.table = Function.update s.table id o)
    (hold : s.managing id = none) (hnew : (o.bind fun e ↦ e.query.ringManage?) = none)
    (k : UInt64) : s'.managing k = s.managing k := by
  by_cases hk : k = id
  · subst hk
    rw [managing, htable, Function.update_self, hnew, hold]
  · rw [managing, htable, Function.update_of_ne hk, managing]

theorem Sound.insertNewQuery (h : s.Sound env) (he : e.query.ringManage? = none)
    (hfin : e.query.isFinished = false) (hins : s.insertNewQuery id e = some s') :
    s'.Sound env := by
  rw [Node.insertNewQuery] at hins
  split at hins
  · exact absurd hins (by simp)
  · rename_i hnone
    rw [← Option.some.inj hins]
    refine h.of_frozenKept h.inv (RingSet.FrozenKept.refl _)
      (update_unfinished h.unfinished (fun e' he' ↦ ?_) id) fun k ↦ ?_
    · rw [← Option.some.inj he']
      exact hfin
    · exact managing_update (o := some e) rfl (managing_of_table hnone) he k

theorem Sound.getD_insertNewQuery (h : s.Sound env) (he : e.query.ringManage? = none)
    (hfin : e.query.isFinished = false) : ((s.insertNewQuery id e).getD s).Sound env := by
  rcases hins : s.insertNewQuery id e with - | s'
  · exact h
  · exact h.insertNewQuery he hfin hins

theorem Sound.startReqProbe (h : s.Sound env) (kind : ReqMeasureKind) (srcNode : NodeIdentRendv)
    (remoteNodes : NodeSet) (id : UInt64) :
    (s.startReqProbe env kind srcNode remoteNodes id).Sound env :=
  h.getD_insertNewQuery rfl rfl

theorem Sound.addNodeToRing (h : s.Sound env) (inRemote : NodeIdentRendv) (id probeId : UInt64) :
    (s.addNodeToRing env inRemote id probeId).Sound env := by
  rw [Node.addNodeToRing]
  split
  · exact h.getD_insertNewQuery rfl rfl
  · exact h.getD_insertNewQuery rfl rfl
  · split
    · exact h
    · rename_i s₁ hins
      exact (h.insertNewQuery rfl rfl hins).startReqProbe _ _ _ _

/-! ### Starting to manage a ring -/

/-- What `eligibleForReplacement` does: the frozen rings are spared, and they are not eligible. -/
theorem eligibleForReplacement_spec {rs : RingSet} {ringNum : Int} {res : Bool × RingSet}
    (h : rs.eligibleForReplacement ringNum = some res) :
    RingSet.FrozenKept rs res.2 ∧
      (res.1 = true → ∃ r, ringNum = ((r : Fin MAX_NUM_RINGS) : Int) ∧ rs.ringFrozen r = false) := by
  unfold RingSet.eligibleForReplacement at h
  split at h
  · exact absurd h (by simp)
  split at h
  · rw [← Option.some.inj h]
    exact ⟨RingSet.FrozenKept.refl rs, by simp⟩
  rename_i r hr
  split at h
  · rw [← Option.some.inj h]
    exact ⟨RingSet.FrozenKept.refl rs, by simp⟩
  rename_i hf
  have hf : rs.ringFrozen r = false := by simpa using hf
  split at h
  · split at h
    · rw [← Option.some.inj h]
      exact ⟨RingSet.FrozenKept.refl rs, fun _ ↦ ⟨r, eq_of_checkRing hr, hf⟩⟩
    split at h
    · rw [← Option.some.inj h]
      exact ⟨RingSet.frozenKept_setRing hf _ _ _ _, by simp⟩
    · rw [← Option.some.inj h]
      exact ⟨RingSet.FrozenKept.refl rs, by simp⟩
  · rw [← Option.some.inj h]
    exact ⟨RingSet.FrozenKept.refl rs, by simp⟩

/-- The rings that `performRingManagement` chooses from are not frozen. -/
theorem eligibleRings_spec : ∀ {is l : List ℕ} {rs rs' : RingSet},
    eligibleRings is rs = some (l, rs') → RingSet.Inv env.getRingNumber rs →
      RingSet.Inv env.getRingNumber rs' ∧ RingSet.FrozenKept rs rs' ∧
      ∀ i ∈ l, ∃ r, (i : Int) = ((r : Fin MAX_NUM_RINGS) : Int) ∧ rs.ringFrozen r = false := by
  intro is
  induction is with
  | nil =>
    intro l rs rs' h hinv
    simp only [eligibleRings, Option.some.injEq, Prod.mk.injEq] at h
    obtain ⟨rfl, rfl⟩ := h
    exact ⟨hinv, RingSet.FrozenKept.refl rs, by simp⟩
  | cons i is ih =>
    intro l rs rs' h hinv
    obtain ⟨res, hres, h⟩ := Option.bind_eq_some_iff.1 h
    obtain ⟨⟨l', rs₁⟩, hrest, h⟩ := Option.map_eq_some_iff.1 h
    obtain ⟨hkept, htrue⟩ := eligibleForReplacement_spec hres
    obtain ⟨hinv', hkept', hl'⟩ := ih hrest (hinv.eligibleForReplacement hres)
    have htail : ∀ k ∈ l', ∃ r, (k : Int) = ((r : Fin MAX_NUM_RINGS) : Int) ∧
        rs.ringFrozen r = false := by
      intro k hk
      obtain ⟨r, hr, hf⟩ := hl' k hk
      exact ⟨r, hr, by rw [← hkept.frozen]; exact hf⟩
    simp only [Prod.mk.injEq] at h
    obtain ⟨rfl, rfl⟩ := h
    refine ⟨hinv', hkept.trans hkept', fun k hk ↦ ?_⟩
    split at hk
    · rename_i hb
      rcases List.mem_cons.1 hk with rfl | hk
      · exact htrue hb
      · exact htail k hk
    · exact htail k hk

/-- **A query that starts to manage a ring** that no query manages. -/
theorem Sound.manage (h : s.Sound env) (hf : s.rings.ringFrozen r = false)
    (hnone : s.table id = none) (sent : List Output) :
    let started := (RingManageQuery.new id r).init env.magic env.rendv s.rings
    Sound env { s with
      rings := started.2.1
      table := Function.update s.table id (some ⟨.ringManage started.1, sent, []⟩) } := by
  intro started
  obtain ⟨hwatch, hfin, hfrozen, hlists⟩ := init_watching
    (q := RingManageQuery.new id r) env.magic env.rendv
    h.inv (RingSet.checkRing_natCast r)
  have hring := eq_of_checkRing hwatch.ringNum
  set s₁ : Node := { s with
    rings := started.2.1
    table := Function.update s.table id (some ⟨.ringManage started.1, sent, []⟩) } with hs₁
  have hself : s₁.managing id = some started.1 := by
    rw [managing_of_table (Function.update_self ..)]
    rfl
  have hother : ∀ k, k ≠ id → s₁.managing k = s.managing k := fun k hk ↦
    managing_of_table (Function.update_of_ne hk _ _)
  -- the other queries manage other rings, which were frozen before
  have hne : ∀ k q, s.managing k = some q → q.ringNum ≠ r := by
    intro k q hq hqr
    have hwatch' := h.watches hq hqr
    rw [hwatch'.frozen] at hf
    exact absurd hf (by simp)
  refine ⟨hwatch.inv, ?_, fun k q hq ↦ ?_, fun k hk ↦ ?_, fun k k' m h₁ h₂ ↦ ?_⟩
  · refine update_unfinished h.unfinished (fun e he ↦ ?_) id
    rw [← Option.some.inj he]
    exact hfin
  · by_cases hid : k = id
    · subst hid
      rw [hself, Option.some.injEq] at hq
      exact ⟨r, hq ▸ hwatch⟩
    · rw [hother k hid] at hq
      obtain ⟨m, hm⟩ := h.watching k q hq
      refine ⟨m, hwatch.inv, hm.ringNum, ?_, ?_⟩
      · change started.2.1.ringFrozen m = true
        rw [hfrozen]
        by_cases hmr : m = r
        · rw [hmr]
          exact Function.update_self ..
        · rw [Function.update_of_ne hmr]
          exact hm.frozen
      · change q.remoteNodes.toList.Perm (started.2.1.ring m)
        rw [hlists]
        exact hm.members
  · by_cases hkr : k = r
    · subst hkr
      exact ⟨id, started.1, hself, hring⟩
    · change started.2.1.ringFrozen k = true at hk
      rw [hfrozen, Function.update_of_ne hkr] at hk
      obtain ⟨k', q, hq, hqk⟩ := h.managed k hk
      have hid : k' ≠ id := by
        rintro rfl
        rw [managing, hnone] at hq
        exact absurd hq (by simp)
      exact ⟨k', q, by rw [hother k' hid]; exact hq, hqk⟩
  · obtain ⟨q, hq, hqm⟩ := h₁
    obtain ⟨q', hq', hqm'⟩ := h₂
    by_cases hk : k = id
    · subst hk
      rw [hself, Option.some.injEq] at hq
      subst hq
      by_contra hk'
      rw [hother k' (Ne.symm hk')] at hq'
      exact hne k' q' hq' (by rw [hqm', ← hqm, hring])
    · rw [hother k hk] at hq
      by_cases hk' : k' = id
      · subst hk'
        rw [hself, Option.some.injEq] at hq'
        subst hq'
        exact absurd (by rw [hqm, ← hqm', hring]) (hne k q hq)
      · rw [hother k' hk'] at hq'
        exact h.unique k k' m ⟨q, hq, hqm⟩ ⟨q', hq', hqm'⟩

theorem Sound.performRingManagement (h : s.Sound env) {rand : ℕ}
    (hstep : s.performRingManagement env rand id = some s') : s'.Sound env := by
  obtain ⟨⟨l, rs⟩, hl, hstep⟩ := Option.map_eq_some_iff.1 hstep
  obtain ⟨hinv, hkept, helig⟩ := eligibleRings_spec hl h.inv
  have hsound : Sound env { s with rings := rs } :=
    h.of_frozenKept hinv hkept h.unfinished fun _ ↦ rfl
  rw [← hstep]
  dsimp only
  split
  · exact hsound
  · rename_i i hi
    obtain ⟨r, hr, hf⟩ := helig i (List.mem_of_getElem? hi)
    rw [hr]
    rw [← hkept.frozen] at hf
    unfold Node.insertNewQuery
    dsimp only
    split
    · rename_i hins
      split at hins
      · exact hsound
      · exact absurd hins (by simp)
    · rename_i hins
      split at hins
      · exact absurd hins (by simp)
      · rename_i hnone
        rw [← Option.some.inj hins]
        exact hsound.manage hf hnone _

/-! ### Handlers -/

/-- What a handler can do to its query and to the rings. -/
inductive HandlerEffect (env : NodeEnv) (rs : RingSet) : NodeQuery → NodeQuery × RingSet → Prop where
  | plain {q : NodeQuery} {res : NodeQuery × RingSet} (hq : q.ringManage? = none)
      (hres : res.1.ringManage? = none) (hinv : RingSet.Inv env.getRingNumber res.2)
      (hkept : RingSet.FrozenKept rs res.2) : HandlerEffect env rs q res
  | managed {q q' : RingManageQuery} {rs' : RingSet} {r : Fin MAX_NUM_RINGS}
      (hwatch : Watching env.getRingNumber q rs r)
      (hhandled : Handled env.getRingNumber r q q' rs rs') :
      HandlerEffect env rs (.ringManage q) (.ringManage q', rs')

theorem insertNode_effect {rs : RingSet} {q q' : AddNodeQuery} {rs' : RingSet} {latencyUS : UInt32}
    (hinv : RingSet.Inv env.getRingNumber rs)
    (h : q.answered env.getRingNumber latencyUS rs = some (q', rs')) :
    HandlerEffect env rs (.addNode q) (.addNode q', rs') := by
  obtain ⟨rs₁, hins, heq⟩ := Option.map_eq_some_iff.1 h
  rw [Prod.mk.injEq] at heq
  obtain ⟨-, rfl⟩ := heq
  exact .plain rfl rfl (hinv.of_insertNodeRendv hins) (RingSet.insertNodeRendv_frozenKept hins)

theorem eraseNode_inv {rs : RingSet} {n : NodeIdent} {res : Int × RingSet}
    (hinv : RingSet.Inv env.getRingNumber rs) (h : rs.eraseNode env.getRingNumber n = some res) :
    RingSet.Inv env.getRingNumber res.2 := by
  obtain ⟨res', hres', hinv'⟩ := hinv.eraseNode n
  rw [hres', Option.some.injEq] at h
  exact h ▸ hinv'

section Effects

variable {rs : RingSet} {q : NodeQuery} {res : NodeQuery × RingSet}
  (hinv : RingSet.Inv env.getRingNumber rs)
  (hwatch : ∀ q', q.ringManage? = some q' → ∃ r, Watching env.getRingNumber q' rs r)

include hinv hwatch

theorem handleEvent_effect {inRemote : NodeIdent} {inPacket : List UInt8} {elapsedUS : UInt32}
    (h : handleEvent env inRemote inPacket elapsedUS rs q = some res) :
    HandlerEffect env rs q res := by
  cases q with
  | addNode q =>
    obtain ⟨⟨q', rs'⟩, hres, rfl⟩ := Option.map_eq_some_iff.1 h
    rw [AddNodeQuery.handleEvent] at hres
    split at hres
    · rw [← (Prod.mk.inj (Option.some.inj hres)).2]
      exact .plain rfl rfl hinv (RingSet.FrozenKept.refl rs)
    split at hres
    · rw [← (Prod.mk.inj (Option.some.inj hres)).2]
      exact .plain rfl rfl hinv (RingSet.FrozenKept.refl rs)
    · exact insertNode_effect hinv hres
  | reqProbe q =>
    rw [← Option.some.inj h]
    exact .plain rfl rfl hinv (RingSet.FrozenKept.refl rs)
  | ringManage q =>
    obtain ⟨r, hr⟩ := hwatch q rfl
    obtain ⟨⟨q', rs', calls⟩, hres, rfl⟩ := Option.map_eq_some_iff.1 h
    obtain ⟨q₁, rs₁, calls₁, heq, hhandled, -⟩ :=
      hr.handleEvent env.magic env.hyperVolume inRemote inPacket
    rw [hres] at heq
    simp only [Option.some.injEq, Prod.mk.injEq] at heq
    obtain ⟨rfl, rfl, -⟩ := heq
    exact .managed hr hhandled
  | other finished =>
    rw [← Option.some.inj h]
    exact .plain rfl rfl hinv (RingSet.FrozenKept.refl rs)

theorem handleLatency_effect {inRemoteNodes : List NodeIdentLat}
    (h : handleLatency env inRemoteNodes rs q = some res) : HandlerEffect env rs q res := by
  cases q with
  | addNode q =>
    obtain ⟨⟨q', rs'⟩, hres, rfl⟩ := Option.map_eq_some_iff.1 h
    unfold AddNodeQuery.handleLatency at hres
    split at hres
    · split at hres
      · rw [← (Prod.mk.inj (Option.some.inj hres)).2]
        exact .plain rfl rfl hinv (RingSet.FrozenKept.refl rs)
      · exact insertNode_effect hinv hres
    · rw [← (Prod.mk.inj (Option.some.inj hres)).2]
      exact .plain rfl rfl hinv (RingSet.FrozenKept.refl rs)
  | reqProbe q =>
    rw [← Option.some.inj h]
    exact .plain rfl rfl hinv (RingSet.FrozenKept.refl rs)
  | ringManage q =>
    obtain ⟨r, hr⟩ := hwatch q rfl
    rw [← Option.some.inj h]
    exact .managed hr ⟨hinv, rfl, RingSet.OthersKept.refl r rs, Or.inl ⟨rfl, rfl, rfl⟩⟩
  | other finished =>
    rw [← Option.some.inj h]
    exact .plain rfl rfl hinv (RingSet.FrozenKept.refl rs)

theorem handleTimeout_effect (h : handleTimeout env rs q = some res) :
    HandlerEffect env rs q res := by
  cases q with
  | addNode q =>
    obtain ⟨⟨q', rs'⟩, hres, rfl⟩ := Option.map_eq_some_iff.1 h
    obtain ⟨res, herase, heq⟩ := Option.map_eq_some_iff.1 hres
    rw [← (Prod.mk.inj heq).2]
    exact .plain rfl rfl (eraseNode_inv hinv herase) (RingSet.eraseNode_frozenKept herase)
  | reqProbe q =>
    obtain ⟨⟨q', rs'⟩, hres, rfl⟩ := Option.map_eq_some_iff.1 h
    obtain ⟨res, herase, heq⟩ := Option.map_eq_some_iff.1 hres
    rw [← (Prod.mk.inj heq).2]
    exact .plain rfl rfl (eraseNode_inv hinv herase) (RingSet.eraseNode_frozenKept herase)
  | ringManage q =>
    obtain ⟨r, hr⟩ := hwatch q rfl
    obtain ⟨⟨q', rs', calls⟩, hres, rfl⟩ := Option.map_eq_some_iff.1 h
    obtain ⟨q₁, rs₁, calls₁, heq, hhandled, -⟩ := hr.handleTimeout env.hyperVolume
    rw [hres] at heq
    simp only [Option.some.injEq, Prod.mk.injEq] at heq
    obtain ⟨rfl, rfl, -⟩ := heq
    exact .managed hr hhandled
  | other finished =>
    rw [← Option.some.inj h]
    exact .plain rfl rfl hinv (RingSet.FrozenKept.refl rs)

end Effects

theorem Sound.watching_entry (h : s.Sound env) (hid : s.table id = some e) :
    ∀ q, e.query.ringManage? = some q → ∃ r, Watching env.getRingNumber q s.rings r := by
  intro q hq
  refine h.watching id q ?_
  rw [managing, hid, Option.bind_some]
  exact hq

/-- **A handler keeps the invariant**, whatever is noted about it. -/
theorem Sound.handled (h : s.Sound env) (hid : s.table id = some e)
    {res : NodeQuery × RingSet} (heff : HandlerEffect env s.rings e.query res) (e' : Entry) :
    (handled id e' s res).Sound env := by
  have hunfinished : ∀ k e₁, (Node.handled id e' s res).table k = some e₁ →
      e₁.query.isFinished = false := by
    refine update_unfinished h.unfinished (fun e₁ he₁ ↦ ?_) id
    split at he₁
    · exact absurd he₁ (by simp)
    · rename_i hfin
      rw [← Option.some.inj he₁]
      simpa using hfin
  generalize hq : e.query = q at heff
  cases heff with
  | plain hplain hres hinv hkept =>
    refine h.of_frozenKept hinv hkept hunfinished fun k ↦ managing_update rfl ?_ ?_ k
    · rw [managing, hid, Option.bind_some, hq, hplain]
    · split
      · rfl
      · exact hres
  | @managed q q' rs' r hwatch hhandled =>
    have hmine : s.managing id = some q := by
      rw [managing, hid, Option.bind_some, hq]
      rfl
    have hqr : q.ringNum = r := eq_of_checkRing hwatch.ringNum
    have hother : ∀ k, k ≠ id →
        (Node.handled id e' s (.ringManage q', rs')).managing k = s.managing k := fun k hk ↦
      managing_of_table (Function.update_of_ne hk _ _)
    have hself : (Node.handled id e' s (.ringManage q', rs')).managing id =
        if q'.finished then none else some q' := by
      rw [managing_of_table (Function.update_self ..)]
      change Option.bind (if q'.finished then none else some _) _ = _
      cases q'.finished <;> rfl
    -- the other queries manage other rings, and these have not changed
    have hne : ∀ k, k ≠ id → ∀ q₁, ∀ m : Fin MAX_NUM_RINGS, s.managing k = some q₁ →
        q₁.ringNum = m → m ≠ r := by
      rintro k hk q₁ m hq₁ hm rfl
      exact hk (h.unique k id m ⟨q₁, hq₁, hm⟩ ⟨q, hmine, hqr⟩)
    have hfrozen : ∀ m, m ≠ r → rs'.ringFrozen m = s.rings.ringFrozen m := by
      intro m hm
      rcases hhandled.outcome with ⟨-, -, rfl⟩ | ⟨-, hthaw⟩
      · rfl
      · rw [hthaw, Function.update_of_ne hm]
    refine ⟨hhandled.inv, hunfinished, fun k q₁ hq₁ ↦ ?_, fun m hm ↦ ?_, fun k k' m h₁ h₂ ↦ ?_⟩
    · by_cases hk : k = id
      · subst hk
        rw [hself] at hq₁
        split at hq₁
        · exact absurd hq₁ (by simp)
        · rename_i hfin
          rw [← Option.some.inj hq₁]
          exact ⟨r, hwatch.of_handled hhandled (by simpa using hfin)⟩
      · rw [hother k hk] at hq₁
        obtain ⟨m, hm⟩ := h.watching k q₁ hq₁
        have hmr := hne k hk q₁ m hq₁ (eq_of_checkRing hm.ringNum)
        refine ⟨m, hhandled.inv, hm.ringNum, ?_, ?_⟩
        · exact (hfrozen m hmr).trans hm.frozen
        · change q₁.remoteNodes.toList.Perm (rs'.ring m)
          rw [hhandled.others.ring hmr]
          exact hm.members
    · change rs'.ringFrozen m = true at hm
      by_cases hmr : m = r
      · subst hmr
        rcases hhandled.outcome with ⟨hfin, -, rfl⟩ | ⟨-, hthaw⟩
        · refine ⟨id, q', ?_, hhandled.ringNum.trans hqr⟩
          have hqfin : q.finished = false := by
            have hentry := h.unfinished id e hid
            rw [hq] at hentry
            exact hentry
          rw [hself, hfin, hqfin]
          rfl
        · rw [hthaw, Function.update_self] at hm
          exact absurd hm (by simp)
      · rw [hfrozen m hmr] at hm
        obtain ⟨k, q₁, hq₁, hqm⟩ := h.managed m hm
        have hk : k ≠ id := by
          rintro rfl
          rw [hmine, Option.some.injEq] at hq₁
          subst hq₁
          have heq := hqm.symm.trans hqr
          exact hmr (Fin.ext (by exact_mod_cast heq))
        exact ⟨k, q₁, by rw [hother k hk]; exact hq₁, hqm⟩
    · have hback : ∀ k m, (Node.handled id e' s (.ringManage q', rs')).Manages k m →
          s.Manages k m := by
        rintro k m ⟨q₁, hq₁, hqm⟩
        by_cases hk : k = id
        · subst hk
          rw [hself] at hq₁
          split at hq₁
          · exact absurd hq₁ (by simp)
          · rw [Option.some.injEq] at hq₁
            subst hq₁
            exact ⟨q, hmine, hhandled.ringNum.symm.trans hqm⟩
        · rw [hother k hk] at hq₁
          exact ⟨q₁, hq₁, hqm⟩
      exact h.unique k k' m (hback k m h₁) (hback k' m h₂)

theorem Sound.notifyQPacket (h : s.Sound env) {inRemote : NodeIdent} {inPacket : List UInt8}
    {elapsedUS : UInt32} (hstep : s.notifyQPacket env id inRemote inPacket elapsedUS = some s') :
    s'.Sound env := by
  rw [Node.notifyQPacket] at hstep
  split at hstep
  · exact Option.some.inj hstep ▸ h
  · rename_i e hid
    obtain ⟨res, hres, rfl⟩ := Option.map_eq_some_iff.1 hstep
    exact h.handled hid (handleEvent_effect h.inv (h.watching_entry hid) hres) _

theorem Sound.notifyQLatency (h : s.Sound env) {inRemoteNodes : List NodeIdentLat}
    (hstep : s.notifyQLatency env id inRemoteNodes = some s') : s'.Sound env := by
  rw [Node.notifyQLatency] at hstep
  split at hstep
  · exact Option.some.inj hstep ▸ h
  · rename_i e hid
    obtain ⟨res, hres, rfl⟩ := Option.map_eq_some_iff.1 hstep
    exact h.handled hid (handleLatency_effect h.inv (h.watching_entry hid) hres) _

theorem Sound.timeoutQuery (h : s.Sound env) (hstep : s.timeoutQuery env id = some s') :
    s'.Sound env := by
  rw [Node.timeoutQuery] at hstep
  split at hstep
  · exact Option.some.inj hstep ▸ h
  · rename_i e hid
    obtain ⟨res, hres, rfl⟩ := Option.map_eq_some_iff.1 hstep
    have hsound :=
      h.handled hid (handleTimeout_effect h.inv (h.watching_entry hid) hres) e
    exact ⟨hsound.inv, hsound.unfinished, hsound.watching, hsound.managed, hsound.unique⟩

/-! ### Runs -/

/-- **One step keeps the invariant.** -/
theorem Sound.step {ev : Event} (h : s.Sound env) (hstep : s.step env ev = some s') :
    s'.Sound env := by
  cases ev with
  | addNode inRemote id probeId =>
    exact Option.some.inj hstep ▸ h.addNodeToRing inRemote id probeId
  | reqProbe kind srcNode remoteNodes id =>
    exact Option.some.inj hstep ▸ h.startReqProbe kind srcNode remoteNodes id
  | ringManagement rand id => exact h.performRingManagement hstep
  | other id => exact Option.some.inj hstep ▸ h.getD_insertNewQuery rfl rfl
  | otherFinished id =>
    rw [Node.step] at hstep
    split at hstep
    · rename_i e hid
      split at hstep
      · rename_i fin hq
        rw [← Option.some.inj hstep]
        have heff : HandlerEffect env s.rings e.query (.other true, s.rings) := by
          rw [hq]
          exact .plain rfl rfl h.inv (RingSet.FrozenKept.refl s.rings)
        exact h.handled hid heff e
      · exact Option.some.inj hstep ▸ h
    · exact Option.some.inj hstep ▸ h
  | packet inRemote inPacket elapsedUS =>
    rw [Node.step] at hstep
    split at hstep
    · exact Option.some.inj hstep ▸ h
    · split at hstep
      · exact h.notifyQPacket hstep
      · exact Option.some.inj hstep ▸ h
  | latency id inRemoteNodes => exact h.notifyQLatency hstep
  | timeout id => exact h.timeoutQuery hstep

theorem sound_of_run {primarySize secondarySize : UInt32} {events : List Event}
    (hrun : run (Node.step env) (new primarySize secondarySize) events = some s) : s.Sound env :=
  run_invariant' (P := Node.Sound env) (fun _ _ _ h hstep ↦ h.step hstep)
    (new_sound env primarySize secondarySize) hrun

/-- **A ring is frozen if and only if it is being managed.** In every state a process can reach, ring
`r` is frozen exactly when the query table holds one `RingManageQuery` with its number, and it never
holds two. -/
theorem ringFrozen_iff_managed (env : NodeEnv) (primarySize secondarySize : UInt32)
    (events : List Event) (s : Node)
    (hrun : run (Node.step env) (new primarySize secondarySize) events = some s)
    (r : Fin MAX_NUM_RINGS) :
    (s.rings.ringFrozen r = true ↔ ∃! id, s.Manages id r) ∧
      ∀ id id', s.Manages id r → s.Manages id' r → id = id' := by
  have hsound := sound_of_run hrun
  refine ⟨⟨fun hr ↦ ?_, ?_⟩, fun id id' h h' ↦ hsound.unique id id' r h h'⟩
  · obtain ⟨id, hid⟩ := hsound.managed r hr
    exact ⟨id, hid, fun id' hid' ↦ hsound.unique id' id r hid' hid⟩
  · rintro ⟨id, ⟨q, hq, hqr⟩, -⟩
    exact (hsound.watches hq hqr).frozen

/-- Two nodes answer a ping and fill both lists of ring 0, which is then managed. -/
theorem ringFrozen_iff_managed_two : ∃ s,
    run (Node.step ⟨7, ⟨0, 0⟩, fun _ _ _ ↦ 1, fun _ ↦ 0⟩) (new 1 1)
      [.addNode ⟨1, 80, 0, 0⟩ 11 0, .packet ⟨1, 80⟩ ((Packet.new 11).encode 7 PONG) 30,
        .addNode ⟨2, 80, 0, 0⟩ 12 0, .packet ⟨2, 80⟩ ((Packet.new 12).encode 7 PONG) 40,
        .ringManagement 5 13] = some s ∧ ∃! id, s.Manages id 0 := by
  obtain ⟨s, hs, hfrozen⟩ := Option.map_eq_some_iff.1 (show
    (run (Node.step ⟨7, ⟨0, 0⟩, fun _ _ _ ↦ 1, fun _ ↦ 0⟩) (new 1 1)
      [.addNode ⟨1, 80, 0, 0⟩ 11 0, .packet ⟨1, 80⟩ ((Packet.new 11).encode 7 PONG) 30,
        .addNode ⟨2, 80, 0, 0⟩ 12 0, .packet ⟨2, 80⟩ ((Packet.new 12).encode 7 PONG) 40,
        .ringManagement 5 13]).map (fun s ↦ s.rings.ringFrozen 0) = some true by decide +kernel)
  exact ⟨s, hs, (ringFrozen_iff_managed _ 1 1 _ s hs 0).1.1 hfrozen⟩

end Node

end Meridian

import Meridian.Query.SearchDecision

/-!
# The progress of a search

A request is forwarded when the lowest average is at most the threshold, and the threshold is the
own average times a ratio below 1. Whether the request gets closer is a matter of rounding: the
product can be rounded up to the average itself, and the comparison is not strict.

`progress_iff` says when that happens. The condition on the ratio and the average,
`StrictThreshold`, is one on whole numbers, and the rest says that no member can be forwarded to
whose average is the own one.
-/

namespace Meridian

open Lib BufferWrapper

/-! ### The size of the forwarded request -/

/-- Whether a forwarded request fits its packet is a matter of the request, not of where it goes. -/
def SearchClass.Uniform {τ : Type} (C : SearchClass τ) : Prop :=
  ∀ id betaNum betaDen rendv nodes dest dest',
    (C.createReq id betaNum betaDen rendv nodes (RealPacket.new dest MAX_UDP_PACKET_SIZE)).1 = -1 →
    (C.createReq id betaNum betaDen rendv nodes (RealPacket.new dest' MAX_UDP_PACKET_SIZE)).1 = -1

theorem Written.fails {cap : UInt32} {dest dest' : NodeIdentRendv} {bs : List UInt8}
    {res res' : Int × RealPacket} (h : Written cap dest bs res) (h' : Written cap dest' bs res')
    (hres : res.1 = -1) : res'.1 = -1 := by
  refine h'.result_cases.resolve_left fun hzero ↦ ?_
  rw [h.result_eq_zero.2 (h'.result_eq_zero.1 hzero)] at hres
  exact absurd hres (by decide)

theorem handleClosest_uniform (magic : UInt32) (kind : ReqClosestKind) :
    (handleClosest magic kind).Uniform := by
  intro id betaNum betaDen rendv nodes dest dest' hfails
  have hcap : MAX_UDP_PACKET_SIZE.toNat < 2 ^ 31 := by decide
  simp only [handleClosest, ReqClosestGeneric.createRealPacket] at hfails ⊢
  split at hfails
  · rename_i hcount
    rw [if_pos hcount]
  · rename_i hcount
    rw [if_neg hcount]
    exact (Wrote.foldl (fun n _ bs p h ↦ h.putIdent hcap n)
      (Wrote.searchHeader _ kind.type betaNum betaDen _ hcap)).result.fails
        (Wrote.foldl (fun n _ bs p h ↦ h.putIdent hcap n)
          (Wrote.searchHeader _ kind.type betaNum betaDen _ hcap)).result hfails

theorem handleMC_uniform (magic : UInt32) (kind : ReqConstraintKind) :
    (handleMC magic kind).Uniform := by
  intro id betaNum betaDen rendv nodes dest dest' hfails
  have hcap : MAX_UDP_PACKET_SIZE.toNat < 2 ^ 31 := by decide
  simp only [handleMC, ReqConstraintGeneric.createRealPacket] at hfails ⊢
  split at hfails
  · rename_i hcount
    rw [if_pos hcount]
  · rename_i hcount
    rw [if_neg hcount]
    exact (Wrote.foldl (fun t _ bs p h ↦ h.putIdentValue hcap (t.ident, t.latencyConstMS))
      (Wrote.searchHeader _ kind.type betaNum betaDen _ hcap)).result.fails
        (Wrote.foldl (fun t _ bs p h ↦ h.putIdentValue hcap (t.ident, t.latencyConstMS))
          (Wrote.searchHeader _ kind.type betaNum betaDen _ hcap)).result hfails

/-! ### The condition -/

/-- The threshold is below the average, unless both are 0. A ratio that is not strictly between 0 and
1 counts as 1/2; that of 0 to 0 forwards nothing. -/
def StrictThreshold (betaNumer betaDenom : UInt16) (averageLatUS : UInt32) : Prop :=
  betaNumer = 0 ∧ betaDenom = 0 ∨ averageLatUS = 0 ∨
    (ratioUsed betaNumer betaDenom).2 < 2 * averageLatUS.toNat *
      ((ratioUsed betaNumer betaDenom).2 - (ratioUsed betaNumer betaDenom).1)

namespace SearchQuery

variable {τ : Type} (magic : UInt32) (C : SearchClass τ) (env : SearchEnv) (q : SearchQuery τ)

/-- The request is forwarded to the member. -/
def Forwards (n : NodeIdent) : Prop :=
  ∃ outs, q.handleForward magic C env =
    .ok ({ q with
      selectedMember := n
      timeoutUS := MAX_RTT_US
      stateMachine := .waitForFin }, outs)

/-- **Progress.** A member that the request is forwarded to has answered with an average that is
strictly below the own one. -/
def Progress : Prop :=
  ∀ n, q.Forwards magic C env n → ∃ (latencies : NodeMap UInt32) (average : UInt32),
    q.ringLatencies[n]? = some latencies ∧ C.average q.remoteNodes latencies = some average ∧
      average < q.averageLatUS

/-- A member has answered with this average. -/
def AnsweredAt (average : UInt32) : Prop :=
  ∃ (n : NodeIdent) (latencies : NodeMap UInt32),
    q.ringLatencies[n]? = some latencies ∧ C.average q.remoteNodes latencies = some average

/-- The request does not fit a packet. -/
def TooLarge : Prop :=
  ∀ dest, (C.createReq q.qid q.betaNumer q.betaDenom env.rendv q.remoteNodes
    (RealPacket.new dest MAX_UDP_PACKET_SIZE)).1 = -1

variable {magic C env q}

/-- When the request is forwarded, and to whom. -/
theorem forwards_iff (hstate : q.stateMachine = .indirectPing) {n : NodeIdent} :
    q.Forwards magic C env n ↔
      n = (q.lowest C).2.1 ∧ (q.lowest C).1 ≠ 0 ∧
        (q.lowest C).1 ≤ latencyThreshold q.betaNumer q.betaDenom q.averageLatUS ∧
        (C.createReq q.qid q.betaNumer q.betaDenom env.rendv q.remoteNodes
          (RealPacket.new (q.forwardDest (q.lowest C).2.1).1 MAX_UDP_PACKET_SIZE)).1 ≠ -1 := by
  rw [Forwards, handleForward]
  generalize q.lowest C = best
  obtain ⟨lat, closest, failed⟩ := best
  dsimp only
  constructor
  · rintro ⟨outs, h⟩
    split at h
    · -- an answer leaves the state as it is
      simp only [bind, Except.bind] at h
      split at h
      · exact absurd h (by simp)
      · split at h
        · exact absurd h (by simp)
        · have hnext := congrArg (fun r ↦ r.1.stateMachine) (Except.ok.inj h)
          exact absurd (hstate.symm.trans hnext) (by simp)
    · rename_i hforward
      rw [not_or, UInt32.not_lt] at hforward
      split at h
      · have hnext := congrArg (fun r ↦ r.1.stateMachine) (Except.ok.inj h)
        exact absurd (hstate.symm.trans hnext) (by simp)
      · rename_i hfits
        have hselected := congrArg (fun r ↦ r.1.selectedMember) (Except.ok.inj h)
        exact ⟨hselected.symm, hforward.1, hforward.2, hfits⟩
  · rintro ⟨rfl, hpos, hle, hfits⟩
    rw [if_neg (not_or.2 ⟨hpos, UInt32.not_lt.2 hle⟩), if_neg hfits]
    exact ⟨_, rfl⟩

/-- The threshold is below an average that is strict. -/
theorem latencyThreshold_lt_of_strict {betaNumer betaDenom : UInt16} {averageLatUS : UInt32}
    (h : StrictThreshold betaNumer betaDenom averageLatUS) (havg : averageLatUS ≠ 0) :
    latencyThreshold betaNumer betaDenom averageLatUS < averageLatUS := by
  have hpos : 0 < averageLatUS := UInt32.pos_iff_ne_zero.2 havg
  rcases h with ⟨rfl, rfl⟩ | h | h
  · rwa [latencyThreshold_zero_zero]
  · exact absurd h havg
  · rcases Decidable.em (betaNumer = 0 ∧ betaDenom = 0) with ⟨rfl, rfl⟩ | hne
    · rwa [latencyThreshold_zero_zero]
    · exact (latencyThreshold_lt_iff hne hpos).2 h

/-- The threshold is the average itself where it is not strict. -/
theorem latencyThreshold_eq_of_not_strict {betaNumer betaDenom : UInt16} {averageLatUS : UInt32}
    (h : ¬ StrictThreshold betaNumer betaDenom averageLatUS) :
    latencyThreshold betaNumer betaDenom averageLatUS = averageLatUS := by
  simp only [StrictThreshold, not_or] at h
  obtain ⟨hne, havg, hge⟩ := h
  have hpos : 0 < averageLatUS := UInt32.pos_iff_ne_zero.2 havg
  rw [← latencyThreshold_lt_iff hne hpos, UInt32.not_lt] at hge
  exact UInt32.le_antisymm (latencyThreshold_le _ _ _) hge

/-- The average of the member that the request is forwarded to is the lowest one. -/
theorem Forwards.closestMember (hstate : q.stateMachine = .indirectPing) {n : NodeIdent}
    (h : q.Forwards magic C env n) : ClosestMember C q n (q.lowest C).1 := by
  obtain ⟨rfl, -, hle, -⟩ := (forwards_iff hstate).1 h
  have hthreshold := latencyThreshold_lt q.betaNumer q.betaDenom q.averageLatUS
  exact (lowest_lowestOf q).closestMember (UInt32.lt_of_le_of_lt hle hthreshold)

/-- With a strict threshold, an average below the own one, none that equals it, or a request that
fits no packet, progress is made. -/
theorem progress_of (hstate : q.stateMachine = .indirectPing)
    (h : StrictThreshold q.betaNumer q.betaDenom q.averageLatUS ∨
      (∃ a, q.AnsweredAt C a ∧ a < q.averageLatUS) ∨ ¬ q.AnsweredAt C q.averageLatUS ∨
      q.TooLarge C env) : q.Progress magic C env := by
  intro n hforwards
  have hclosest := hforwards.closestMember hstate
  obtain ⟨rfl, hpos, hle, hfits⟩ := (forwards_iff hstate).1 hforwards
  obtain ⟨⟨latencies, hget, haverage⟩, hmin⟩ := hclosest
  refine ⟨latencies, _, hget, haverage, ?_⟩
  have hthreshold := latencyThreshold_le q.betaNumer q.betaDenom q.averageLatUS
  rcases h with hstrict | ⟨a, ⟨n, latencies', hget', ha⟩, hlt⟩ | hnone | hlarge
  · refine UInt32.lt_of_le_of_lt hle (latencyThreshold_lt_of_strict hstrict fun hzero ↦ hpos ?_)
    -- nothing but 0 is at most a threshold of 0
    rw [hzero] at hthreshold hle
    exact UInt32.le_zero_iff.1 (UInt32.le_trans hle hthreshold)
  · exact UInt32.lt_of_le_of_lt (hmin n latencies' a hget' ha) hlt
  · refine UInt32.lt_of_le_of_ne (UInt32.le_trans hle hthreshold) fun heq ↦ hnone ?_
    exact ⟨_, latencies, hget, heq ▸ haverage⟩
  · exact absurd (hlarge _) hfits

/-- Otherwise the request is forwarded to a member that is as far away. -/
theorem not_progress_of (hC : C.Uniform) (hstate : q.stateMachine = .indirectPing)
    (hstrict : ¬ StrictThreshold q.betaNumer q.betaDenom q.averageLatUS)
    (hlt : ¬ ∃ a, q.AnsweredAt C a ∧ a < q.averageLatUS) (htie : q.AnsweredAt C q.averageLatUS)
    (hfits : ¬ q.TooLarge C env) : ¬ q.Progress magic C env := by
  have hlowest : LowestOf C q q.ringLatencies.toList (q.lowest C) := lowest_lowestOf q
  have hthreshold := latencyThreshold_eq_of_not_strict hstrict
  have hmax := latencyThreshold_lt q.betaNumer q.betaDenom q.averageLatUS
  rw [hthreshold] at hmax
  obtain ⟨n, latencies, hget, haverage⟩ := htie
  have hle : (q.lowest C).1 ≤ q.averageLatUS := hlowest.le (n, latencies)
    (Std.ExtTreeMap.mem_toList_iff_getElem?_eq_some.2 hget) _ haverage
  obtain ⟨⟨latencies', hget', haverage'⟩, -⟩ :=
    hlowest.closestMember (UInt32.lt_of_le_of_lt hle hmax)
  have heq : (q.lowest C).1 = q.averageLatUS :=
    UInt32.le_antisymm hle (UInt32.not_lt.1 fun h ↦ hlt ⟨_, ⟨_, latencies', hget', haverage'⟩, h⟩)
  have hforwards : q.Forwards magic C env (q.lowest C).2.1 := by
    refine (forwards_iff hstate).2 ⟨rfl, ?_, ?_, fun hfails ↦ hfits fun dest ↦ ?_⟩
    · rw [heq]
      exact fun hzero ↦ hstrict (Or.inr (Or.inl hzero))
    · rw [hthreshold, heq]
      exact UInt32.le_refl _
    · exact hC _ _ _ _ _ _ dest hfails
  intro hprogress
  obtain ⟨latencies'', average, hget'', haverage'', hless⟩ := hprogress _ hforwards
  rw [hget', Option.some.injEq] at hget''
  rw [← hget'', haverage', Option.some.injEq] at haverage''
  rw [← haverage'', heq] at hless
  exact absurd hless (UInt32.lt_irrefl _)

theorem progress_iff_of_uniform (hC : C.Uniform) (hstate : q.stateMachine = .indirectPing) :
    q.Progress magic C env ↔
      StrictThreshold q.betaNumer q.betaDenom q.averageLatUS ∨
        (∃ a, q.AnsweredAt C a ∧ a < q.averageLatUS) ∨ ¬ q.AnsweredAt C q.averageLatUS ∨
        q.TooLarge C env := by
  refine ⟨fun hprogress ↦ ?_, progress_of hstate⟩
  by_contra h
  simp only [not_or, not_not] at h
  obtain ⟨hstrict, hlt, htie, hfits⟩ := h
  exact not_progress_of hC hstate hstrict hlt htie hfits hprogress

end SearchQuery

/-- **When forwarding makes progress.** Whatever the ring members have answered, the request is
forwarded only to a member that is strictly closer, if and only if the threshold is below the own
average, or a member is closer than that, or none is exactly as far, or the request fits no
packet. -/
theorem forwarding_progress_iff (magic : UInt32) (env : SearchEnv) :
    (∀ (kind : ReqClosestKind) (q : SearchQuery Unit), q.stateMachine = .indirectPing →
      (q.Progress magic (handleClosest magic kind) env ↔
        StrictThreshold q.betaNumer q.betaDenom q.averageLatUS ∨
          (∃ a, q.AnsweredAt (handleClosest magic kind) a ∧ a < q.averageLatUS) ∨
          ¬ q.AnsweredAt (handleClosest magic kind) q.averageLatUS ∨
          q.TooLarge (handleClosest magic kind) env)) ∧
    (∀ (kind : ReqConstraintKind) (q : SearchQuery UInt32), q.stateMachine = .indirectPing →
      (q.Progress magic (handleMC magic kind) env ↔
        StrictThreshold q.betaNumer q.betaDenom q.averageLatUS ∨
          (∃ a, q.AnsweredAt (handleMC magic kind) a ∧ a < q.averageLatUS) ∨
          ¬ q.AnsweredAt (handleMC magic kind) q.averageLatUS ∨
          q.TooLarge (handleMC magic kind) env)) :=
  ⟨fun kind _ hstate ↦ SearchQuery.progress_iff_of_uniform (handleClosest_uniform magic kind)
      hstate,
    fun kind _ hstate ↦ SearchQuery.progress_iff_of_uniform (handleMC_uniform magic kind) hstate⟩

/-- A search that has one target at `own` µs, and a ring member that has answered that it is at
`member` µs. -/
def searchAt (own member : UInt32) : Option (SearchQuery Unit) :=
  (run (SearchQuery.step 7 (handleClosest 7 .tcp))
    (newClosest 5 1 2 ⟨9, 900, 0, 0⟩ [⟨1, 80⟩], [])
    [.init (oneRing ⟨3, 300⟩ own), .handleLatency (oneRing ⟨3, 300⟩ own) [⟨1, 80, own⟩]]).map
      fun s ↦ { s.1 with ringLatencies := oneAnswer ⟨3, 300⟩ ⟨1, 80⟩ member }

/-- At 2 µs with a ratio of 1 to 2 the threshold is 1 µs. -/
theorem forwarding_progress_two : ∃ q, searchAt 2 1 = some q ∧
    q.Progress 7 (handleClosest 7 .tcp) (oneRing ⟨3, 300⟩ 2) := by
  have hq : (searchAt 2 1).map (fun q ↦ (q.stateMachine, q.betaNumer, q.betaDenom,
      q.averageLatUS)) = some (.indirectPing, 1, 2, 2) := by decide +kernel
  obtain ⟨q, hsome, hfields⟩ := Option.map_eq_some_iff.1 hq
  simp only [Prod.mk.injEq] at hfields
  obtain ⟨hstate, hn, hd, havg⟩ := hfields
  refine ⟨q, hsome, ((forwarding_progress_iff 7 (oneRing ⟨3, 300⟩ 2)).1 .tcp q hstate).2
    (Or.inl ?_)⟩
  rw [hn, hd, havg]
  exact Or.inr (Or.inr (by decide))

/-- At 1 µs half of the own average is rounded up, and the request goes to a ring member that is as
far away. -/
theorem forwards_to_equal : ∃ q, searchAt 1 1 = some q ∧
    ¬ q.Progress 7 (handleClosest 7 .tcp) (oneRing ⟨3, 300⟩ 1) := by
  have hq : (searchAt 1 1).map (fun q ↦ decide (q.stateMachine = .indirectPing ∧
      q.averageLatUS = 1 ∧ (q.lowest (handleClosest 7 .tcp)).1 = 1 ∧
      (q.lowest (handleClosest 7 .tcp)).2.1 = ⟨3, 300⟩ ∧
      latencyThreshold q.betaNumer q.betaDenom q.averageLatUS = 1 ∧
      ((handleClosest 7 .tcp).createReq q.qid q.betaNumer q.betaDenom (oneRing ⟨3, 300⟩ 1).rendv
        q.remoteNodes (RealPacket.new (q.forwardDest (q.lowest (handleClosest 7 .tcp)).2.1).1
          MAX_UDP_PACKET_SIZE)).1 = 0 ∧
      (q.ringLatencies[(⟨3, 300⟩ : NodeIdent)]?).bind
        ((handleClosest 7 .tcp).average q.remoteNodes) = some 1)) = some true := by decide +kernel
  obtain ⟨q, hsome, hfields⟩ := Option.map_eq_some_iff.1 hq
  obtain ⟨hstate, havg, hlat, hclosest, hthreshold, hfits, hmember⟩ := of_decide_eq_true hfields
  refine ⟨q, hsome, fun hprogress ↦ ?_⟩
  have hforwards : q.Forwards 7 (handleClosest 7 .tcp) (oneRing ⟨3, 300⟩ 1) ⟨3, 300⟩ := by
    rw [SearchQuery.forwards_iff hstate, hfits, hclosest, hlat, hthreshold]
    decide
  obtain ⟨latencies, average, hget, haverage, hlt⟩ := hprogress _ hforwards
  rw [hget, Option.bind_some, haverage, Option.some.injEq] at hmember
  rw [hmember, havg] at hlt
  exact absurd hlt (by decide)

end Meridian

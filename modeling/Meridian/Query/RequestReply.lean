import Meridian.Query.Request

/-!
# The replies to requests

Which requests are always replied to. The search queries share one proof: a query replies if a
`RetResponse` with an entry for each target fits, the statistics of the latencies of all targets
exist, and the request can be forwarded (`SearchClass.Answerable`).
-/

namespace Meridian

open Lib BufferWrapper

namespace SearchQuery

variable {τ : Type} {magic : UInt32} {C : SearchClass τ} {q q' : SearchQuery τ}
  {outs : List Output} {e : SearchEvent}

/-! ### A started query -/

theorem Probed.started (h : Probed magic C q (.ok (q', outs))) (hq : q.stateMachine ≠ .init) :
    q'.stateMachine ≠ .init := by
  cases h with
  | notReady => exact hq
  | failed => exact hq
  | answered => exact SearchState.noConfusion
  | probing => exact SearchState.noConfusion

theorem init_started {env : SearchEnv} (hinv : q.Inv C)
    (h : q.init magic C env = .ok (q', outs)) : q'.stateMachine ≠ .init := by
  have hsub := (startProbes_spec env.getLatency hinv.remote_subset).1
  rw [init] at h
  generalize startProbes env.getLatency q.remoteNodes q.remoteLatencies = started at *
  obtain ⟨latencies, probes⟩ := started
  dsimp only at h hsub
  split at h
  · rename_i hsize
    have hcases : Probed magic C { q with
        remoteLatencies := latencies, stateMachine := .waitForDirectPing } _ :=
      sendReqProbes_cases env hsub
    simp only [handleLatency, hsize, if_true] at h
    generalize sendReqProbes magic C env _ = r at *
    cases r with
    | error a => exact absurd h (by simp [bind, Except.bind])
    | ok x =>
      obtain rfl : x.1 = q' := by
        cases h
        rfl
      exact hcases.started SearchState.noConfusion
  · cases h
    exact SearchState.noConfusion

/-! ### Runs of a query that can reply -/

/-- The targets of a request that is always replied to. -/
structure Answerable (magic : UInt32) (C : SearchClass τ) (nodes : NodeMap τ) : Prop where
  size_le : nodes.size ≤ 137
  measure_isSome : ∀ latencies : NodeMap UInt32, (∀ n, n ∈ latencies ↔ n ∈ nodes) →
    (C.measure nodes latencies).isSome = true
  createReq : ∀ (latencies : NodeMap UInt32) (m : Measure), (∀ n, n ∈ latencies ↔ n ∈ nodes) →
    C.measure nodes latencies = some m → m.average ≠ 0 → ∀ id betaNum betaDen rendv dest,
      (C.createReq id betaNum betaDen rendv nodes (RealPacket.new dest MAX_UDP_PACKET_SIZE)).1 ≠ -1

/-- **A call that finishes a query has replied**, unless the request has been forwarded. -/
theorem Handled.replied (h : Handled magic C q e (.ok (q', outs)))
    (hnodes : Answerable magic C q.remoteNodes) (hgoing : q.finished = false)
    (hstarted : q'.stateMachine ≠ .init) (hfin : q'.finished = true)
    (hfor : q'.stateMachine ≠ .waitForFin) : ∃ o ∈ outs, isReply magic q.srcNode o = true := by
  cases h with
  | pending _ _ _ hsame => exact absurd (hfin.symm.trans (hsame.trans hgoing)) (by simp)
  | abandoned hstate => exact absurd hstate hstarted
  | failed _ _ hkept hmeasure hkeys =>
    rw [hkept.remoteNodes] at hmeasure hkeys
    have hsome := hnodes.measure_isSome _ hkeys
    rw [hmeasure] at hsome
    exact absurd hsome (by simp)
  | dropped _ _ _ hasked hreq =>
    obtain ⟨latencies, m, hkeys, hmeasure, haverage⟩ := hasked hgoing
    obtain ⟨id, betaNum, betaDen, rendv, dest, hfail⟩ := hreq
    exact absurd hfail (hnodes.createReq latencies m hkeys hmeasure haverage _ _ _ _ _)
  | answered _ pre resp created _ _ hlen hcreated =>
    obtain ⟨o, ho, hreply⟩ := replied_response hcreated (hlen ▸ hnodes.size_le)
    exact ⟨o, List.mem_append_right pre ho, hreply⟩
  | timedOut => exact replied_error _
  | relayed hstate => exact absurd hstate hfor
  | looped => exact absurd (hfin.symm.trans hgoing) (by simp)

/-- What holds of the started query that `q₀` has become, and of what it has done. -/
structure Answered (magic : UInt32) (C : SearchClass τ) (q₀ : SearchQuery τ)
    (s : SearchQuery τ × List Output) : Prop where
  inv : s.1.Inv C
  srcNode : s.1.srcNode = q₀.srcNode
  remoteNodes : s.1.remoteNodes = q₀.remoteNodes
  started : s.1.stateMachine ≠ .init
  replied : s.1.finished = true → s.1.stateMachine ≠ .waitForFin →
    ∃ o ∈ s.2, isReply magic q₀.srcNode o = true

theorem answered_of_handled {q₀ : SearchQuery τ} (hq₀ : Answerable magic C q₀.remoteNodes)
    (h : Handled magic C q e (.ok (q', outs))) (hgoing : q.finished = false)
    (hsrc : q.srcNode = q₀.srcNode) (hnodes : q.remoteNodes = q₀.remoteNodes)
    (hstarted : q'.stateMachine ≠ .init) (sent : List Output) :
    Answered magic C q₀ (q', sent ++ outs) := by
  have hkept := h.inv_quiet.1
  refine ⟨hkept.inv, hkept.srcNode.trans hsrc, hkept.remoteNodes.trans hnodes, hstarted,
    fun hfin hfor ↦ ?_⟩
  obtain ⟨o, ho, hreply⟩ := h.replied (hnodes ▸ hq₀) hgoing hstarted hfin hfor
  rw [hsrc] at hreply
  exact ⟨o, List.mem_append_right sent ho, hreply⟩

theorem answered_step (hC : C.Lawful magic) {q₀ : SearchQuery τ}
    (hq₀ : Answerable magic C q₀.remoteNodes) {s s' : SearchQuery τ × List Output}
    (hs : Answered magic C q₀ s) (h : step magic C s e = some s') : Answered magic C q₀ s' := by
  obtain ⟨hgoing, outs, hhandle, houts⟩ := step_eq_some h
  have hhandled := handle_handled e hC hs.inv
  rw [hhandle] at hhandled
  obtain ⟨q', sent'⟩ := s'
  obtain rfl : sent' = s.2 ++ outs := houts
  exact answered_of_handled hq₀ hhandled hgoing hs.srcNode hs.remoteNodes
    (hhandled.inv_quiet.1.started hs.started) s.2

/-- **A query replies** if its targets are answerable. -/
theorem replies_of_answerable (hC : C.Lawful magic) (id : UInt64) (betaNumer betaDenom : UInt16)
    (srcNode : NodeIdentRendv) (inRemote : List (NodeIdent × τ))
    (hnodes : Answerable magic C (SearchQuery.new id betaNumer betaDenom srcNode inRemote).remoteNodes) :
    (SearchQuery.new id betaNumer betaDenom srcNode inRemote).Replies magic C := by
  intro env events s hrun hfin hfor
  obtain ⟨s₁, hfirst, hrest⟩ := run_cons_eq_some.1 hrun
  have hinv : Inv C (SearchQuery.new id betaNumer betaDenom srcNode inRemote) :=
    inv_new C id betaNumer betaDenom srcNode inRemote
  obtain ⟨hgoing, outs, hinit, houts⟩ := step_eq_some hfirst
  have hhandled := handle_handled (.init env) hC hinv
  rw [hinit] at hhandled
  have hanswered := answered_of_handled hnodes hhandled hgoing rfl rfl (init_started hinv hinit) []
  obtain ⟨q₁, sent⟩ := s₁
  obtain rfl : sent = [] ++ outs := houts
  have hend : Answered magic C _ s :=
    run_invariant' (fun s e s' hs hstep ↦ answered_step hC hnodes hs hstep) hanswered hrest
  exact hend.replied hfin hfor

end SearchQuery

/-! ### Multi-constraint requests -/

theorem foldlM_isSome {α β : Type} {f : β → α → Option β} {l : List α}
    (h : ∀ b, ∀ a ∈ l, (f b a).isSome = true) (b : β) : (l.foldlM f b).isSome = true := by
  induction l generalizing b with
  | nil => rfl
  | cons a l ih =>
    obtain ⟨b', hb'⟩ := Option.isSome_iff_exists.1 (h b a (List.mem_cons_self ..))
    rw [List.foldlM_cons, hb']
    exact ih (fun b x hx ↦ h b x (List.mem_cons_of_mem a hx)) b'

theorem getMaxSolution_isSome {remoteNodes inMap : NodeMap UInt32}
    (h : ∀ n ∈ remoteNodes, n ∈ inMap) (subtract : Bool) :
    (getMaxSolution remoteNodes inMap subtract).isSome = true := by
  rw [getMaxSolution, Option.isSome_map]
  refine foldlM_isSome (fun b e he ↦ ?_) 0
  rw [Option.isSome_map]
  exact Std.ExtTreeMap.mem_iff_isSome_getElem?.1 (h e.1 (mem_of_mem_toList he))

/-- Without targets the average is 0 to 0, which is 0 as an unsigned number. -/
theorem getAvgSolution_of_size_eq_zero {remoteNodes inMap : NodeMap UInt32}
    (h : remoteNodes.size = 0) : getAvgSolution remoteNodes inMap = some 0 := by
  have hlist : remoteNodes.toList = [] := by
    rw [← List.length_eq_zero_iff, Std.ExtTreeMap.length_toList, h]
  have htotal : totalSolution remoteNodes inMap = some (.fin 0) := by
    rw [totalSolution, hlist]
    rfl
  rw [getAvgSolution, htotal, h]
  decide +kernel

theorem handleMC_average {magic : UInt32} {kind : ReqConstraintKind} {nodes : NodeMap UInt32}
    {latencies : NodeMap UInt32} {m : Measure} {average : UInt32}
    (h : getAvgSolution nodes latencies = some average)
    (hmeasure : (handleMC magic kind).measure nodes latencies = some m) : m.average = average := by
  simp only [handleMC, h, Option.bind_eq_bind, Option.bind_eq_some_iff] at hmeasure
  obtain ⟨_, -, _, -, heq⟩ := hmeasure
  simp at heq
  exact heq ▸ rfl

theorem handleMC_answerable (magic : UInt32) (kind : ReqConstraintKind) {nodes : NodeMap UInt32}
    (hsize : nodes.size ≤ 137) : SearchQuery.Answerable magic (handleMC magic kind) nodes where
  size_le := hsize
  measure_isSome := by
    intro latencies hkeys
    have hmem : ∀ n ∈ nodes, n ∈ latencies := fun n hn ↦ (hkeys n).2 hn
    obtain ⟨add, hadd⟩ := Option.isSome_iff_exists.1 (getMaxSolution_isSome hmem false)
    obtain ⟨sub, hsub⟩ := Option.isSome_iff_exists.1 (getMaxSolution_isSome hmem true)
    have havg : (getAvgSolution nodes latencies).isSome = true := by
      rw [getAvgSolution, Option.isSome_map]
      exact totalSolution_isSome hmem
    obtain ⟨avg, havg⟩ := Option.isSome_iff_exists.1 havg
    simp only [handleMC, hadd, hsub, havg]
    rfl
  createReq := by
    intro latencies m _ hmeasure haverage id betaNum betaDen rendv dest
    -- there is a target, or the average would be 0
    have hne : nodes.size ≠ 0 := fun hzero ↦
      haverage (handleMC_average (getAvgSolution_of_size_eq_zero hzero) hmeasure)
    have hlen : (nodes.toList.map constEntry).length = nodes.size := by
      rw [List.length_map, Std.ExtTreeMap.length_toList]
    show (ReqConstraintGeneric.createRealPacket magic _ _).1 ≠ -1
    refine ReqConstraintGeneric.created_of_fits ?_ ?_
    · rwa [hlen]
    · rw [hlen]
      omega

/-! ### Requests for the closest node -/

theorem getMaxAndMinAndAverage_isSome {latencies : NodeMap UInt32} (h : latencies.size ≠ 0) :
    (getMaxAndMinAndAverage latencies).isSome = true := by
  rw [getMaxAndMinAndAverage]
  split
  · rename_i hnil
    rw [← Std.ExtTreeMap.length_toList, hnil] at h
    exact absurd rfl h
  · rfl
  · rfl

theorem handleClosest_answerable (magic : UInt32) (kind : ReqClosestKind) {nodes : NodeMap Unit}
    (hne : nodes.size ≠ 0) (hsize : nodes.size ≤ 137) :
    SearchQuery.Answerable magic (handleClosest magic kind) nodes where
  size_le := hsize
  measure_isSome := by
    intro latencies hkeys
    refine getMaxAndMinAndAverage_isSome ?_
    rw [size_eq_of_mem_iff hkeys]
    exact hne
  createReq := by
    intro latencies m _ _ _ id betaNum betaDen rendv dest
    have hlen : nodes.keys.length = nodes.size := Std.ExtTreeMap.length_keys
    show (ReqClosestGeneric.createRealPacket magic _ _).1 ≠ -1
    refine ReqClosestGeneric.created_of_fits ?_ ?_
    · rwa [hlen]
    · rw [hlen]
      omega

/-- The average of latencies that are 0 is 0. -/
theorem averageUS_zero (size : ℕ) : averageUS (.fin 0) size = 0 := by
  rw [averageUS]
  cases Binary64.ofNat size with
  | nan => decide
  | inf s =>
    show clampUint (Binary64.llround (.fin 0)) = 0
    decide +kernel
  | fin b =>
    rw [Binary64.div]
    split
    · decide
    · rw [zero_div]
      decide +kernel

theorem totalLatency_zero {latencies : NodeMap UInt32} (h : ∀ e ∈ latencies.toList, e.2 = 0) :
    totalLatency latencies = .fin 0 := by
  have hfold : ∀ l : List (NodeIdent × UInt32), (∀ e ∈ l, e.2 = 0) →
      l.foldl (fun total e ↦ total.add (.ofNat e.2.toNat)) (Binary64.fin 0) = .fin 0 := by
    intro l
    induction l with
    | nil => exact fun _ ↦ rfl
    | cons e l ih =>
      intro hl
      have hstep : (Binary64.fin 0).add (.ofNat (0 : UInt32).toNat) = .fin 0 := by decide +kernel
      rw [List.foldl_cons, hl e (List.mem_cons_self ..), hstep]
      exact ih fun x hx ↦ hl x (List.mem_cons_of_mem e hx)
  exact hfold _ h

theorem average_eq_zero {latencies : NodeMap UInt32} {m : Measure}
    (h : ∀ e ∈ latencies.toList, e.2 = 0) (hm : getMaxAndMinAndAverage latencies = some m) :
    m.average = 0 := by
  have htotal := totalLatency_zero h
  rw [getMaxAndMinAndAverage] at hm
  split at hm
  · exact absurd hm (by simp)
  · rename_i e hlist
    rw [Option.some.injEq] at hm
    rw [← hm]
    exact h e (by simp [hlist])
  · rw [Option.some.injEq] at hm
    rw [← hm, htotal]
    exact averageUS_zero _

/-- A process with every latency in its cache, as 0. -/
def allCached : SearchEnv := { oneRing ⟨3, 300⟩ 1000 with getLatency := fun _ ↦ some 0 }

/-- With latencies of 0, `sendReqProbes` finishes the query. If there is no target the statistics
fail, and if there are too many the reply is dropped. -/
theorem closest_sendReqProbes_dropped {magic : UInt32} (kind : ReqClosestKind) (env : SearchEnv)
    {q : SearchQuery Unit} (hstate : q.stateMachine = .waitForDirectPing)
    (hkeys : q.remoteLatencies.size = q.remoteNodes.size)
    (hval : ∀ e ∈ q.remoteLatencies.toList, e.2 = 0) (hsize : q.remoteNodes.size < 2 ^ 32)
    (hbad : q.remoteNodes.size = 0 ∨ 137 < q.remoteNodes.size) :
    ∃ q' outs, q.sendReqProbes magic (handleClosest magic kind) env = .ok (q', outs) ∧
      q'.finished = true ∧ q'.stateMachine ≠ .waitForFin ∧
      ∀ o ∈ outs, isReply magic q.srcNode o = false := by
  have hready : ¬ (q.stateMachine ≠ .waitForDirectPing ∨
      q.remoteLatencies.size ≠ q.remoteNodes.size) := by
    rw [hstate, hkeys]
    simp
  rw [SearchQuery.sendReqProbes, if_neg hready]
  rcases hmeasure : getMaxAndMinAndAverage q.remoteLatencies with - | m
  · have hnone : (handleClosest magic kind).measure q.remoteNodes q.remoteLatencies = none :=
      hmeasure
    rw [hnone]
    refine ⟨_, _, rfl, rfl, by simp [hstate], fun o ho ↦ ?_⟩
    rw [List.mem_singleton.1 ho]
    rfl
  · have hsome : (handleClosest magic kind).measure q.remoteNodes q.remoteLatencies = some m :=
      hmeasure
    have hmany : 137 < q.remoteNodes.size :=
      hbad.resolve_left (hkeys ▸ size_ne_zero_of_measure hmeasure)
    have hdrop : sendResponse magic q.srcNode (.new q.qid 0 0 q.remoteLatencies) = .ok [] := by
      refine dropped_response ?_ ?_
      · rwa [SearchQuery.length_targets_new, hkeys]
      · rwa [SearchQuery.length_targets_new, hkeys]
    rw [hsome]
    simp only [average_eq_zero hval hmeasure, true_or, if_true, hdrop]
    exact ⟨_, _, rfl, rfl, SearchState.noConfusion, fun o ho ↦ absurd ho List.not_mem_nil⟩

/-- So does `init` with every latency in the cache. -/
theorem closest_init_cached (magic : UInt32) (kind : ReqClosestKind) {q : SearchQuery Unit}
    (hnew : q.remoteLatencies = ∅) (hsize : q.remoteNodes.size < 2 ^ 32)
    (hbad : q.remoteNodes.size = 0 ∨ 137 < q.remoteNodes.size) :
    ∃ q' outs, q.init magic (handleClosest magic kind) allCached = .ok (q', outs) ∧
      q'.finished = true ∧ q'.stateMachine ≠ .waitForFin ∧
      ∀ o ∈ outs, isReply magic q.srcNode o = false := by
  obtain ⟨latencies, hlat, hmem, hval⟩ := startProbes_cached 0 q.remoteNodes
  have hkeys : latencies.size = q.remoteNodes.size := size_eq_of_mem_iff hmem
  have hstart : startProbes allCached.getLatency q.remoteNodes q.remoteLatencies =
      (latencies, []) := by
    rw [hnew]
    exact hlat
  obtain ⟨q', outs, hsent, hfin, hfor, hno⟩ : ∃ q' outs, SearchQuery.sendReqProbes magic
      (handleClosest magic kind) allCached { q with
        remoteLatencies := latencies, stateMachine := .waitForDirectPing } = .ok (q', outs) ∧ _ :=
    closest_sendReqProbes_dropped kind allCached rfl hkeys hval hsize hbad
  refine ⟨q', sendInfo magic q.srcNode ⟨Packet.new q.qid, 0, 0⟩ ++ outs, ?_, hfin, hfor,
    fun o ho ↦ ?_⟩
  · rw [SearchQuery.init, hstart]
    simp only [hkeys, if_true, SearchQuery.handleLatency, hsent, List.nil_append]
    rfl
  · rcases List.mem_append.1 ho with ho | ho
    · exact not_isReply_sendInfo q.srcNode _ o ho
    · exact hno o ho

/-- **A query for the closest node replies** if and only if there is a target and the reply fits. -/
theorem closest_replies_iff (magic : UInt32) (kind : ReqClosestKind) (id : UInt64)
    (betaNumer betaDenom : UInt16) (srcNode : NodeIdentRendv) (inRemote : List NodeIdent)
    (hsize : (newClosest id betaNumer betaDenom srcNode inRemote).remoteNodes.size < 2 ^ 32) :
    (newClosest id betaNumer betaDenom srcNode inRemote).Replies magic (handleClosest magic kind) ↔
      (newClosest id betaNumer betaDenom srcNode inRemote).remoteNodes.size ≠ 0 ∧
        (newClosest id betaNumer betaDenom srcNode inRemote).remoteNodes.size ≤ 137 := by
  constructor
  · intro h
    refine Decidable.byContradiction fun hbad ↦ ?_
    obtain ⟨q', outs, hinit, hfin, hfor, hno⟩ := closest_init_cached magic kind rfl hsize (by omega)
    have hrun : run (SearchQuery.step magic (handleClosest magic kind))
        (newClosest id betaNumer betaDenom srcNode inRemote, []) [.init allCached] =
          some (q', [] ++ outs) := by
      rw [run_cons, SearchQuery.step, if_neg (by exact Bool.false_ne_true), SearchQuery.handle,
        hinit]
      rfl
    obtain ⟨o, ho, hreply⟩ := h allCached [] _ hrun hfin hfor
    exact absurd (hreply.symm.trans (hno o ho)) (by simp)
  · rintro ⟨hne, hle⟩
    exact SearchQuery.replies_of_answerable (handleClosest_lawful magic kind) id betaNumer betaDenom
      srcNode _ (handleClosest_answerable magic kind hne hle)

/-! ### All requests -/

theorem mem_targetSet {τ : Type} {l : List (NodeIdent × τ)} {n : NodeIdent} :
    n ∈ targetSet l ↔ n ∈ l.map Prod.fst := by
  have hfold : ∀ (l : List (NodeIdent × τ)) (nodes : NodeMap τ),
      n ∈ l.foldl (fun nodes t ↦ nodes.insertIfNew t.1 t.2) nodes ↔
        n ∈ nodes ∨ n ∈ l.map Prod.fst := by
    intro l
    induction l with
    | nil => exact fun nodes ↦ by simp
    | cons t l ih =>
      intro nodes
      rw [List.foldl_cons, ih, mem_insertIfNew_iff, List.map_cons, List.mem_cons, or_assoc,
        or_left_comm]
  rw [targetSet, hfold]
  exact or_iff_right (show n ∉ (∅ : NodeMap τ) from Std.ExtTreeMap.not_mem_empty)

/-- A query has as many targets as the request has different ones. -/
theorem size_targetSet {τ : Type} (l : List (NodeIdent × τ)) :
    (targetSet l).size = (l.map Prod.fst).dedup.length := by
  have hperm : (targetSet l).keys.Perm (l.map Prod.fst).dedup :=
    (List.perm_ext_iff_of_nodup (nodup_keys _) (List.nodup_dedup _)).2 fun n ↦ by
      rw [Std.ExtTreeMap.mem_keys, mem_targetSet, List.mem_dedup]
  rw [← Std.ExtTreeMap.length_keys, hperm.length_eq]

theorem length_dedup_le {α : Type} [DecidableEq α] (l : List α) : l.dedup.length ≤ l.length :=
  (List.dedup_sublist l).length_le

theorem size_newClosest (id : UInt64) (betaNumer betaDenom : UInt16) (srcNode : NodeIdentRendv)
    (inRemote : List NodeIdent) :
    (newClosest id betaNumer betaDenom srcNode inRemote).remoteNodes.size =
      inRemote.dedup.length := by
  show (targetSet (inRemote.map fun n ↦ (n, ()))).size = _
  rw [size_targetSet, List.map_map]
  exact congrArg (fun l : List NodeIdent ↦ l.dedup.length) (List.map_id _)

theorem size_newMC_le (id : UInt64) (betaNumer betaDenom : UInt16) (srcNode : NodeIdentRendv)
    (inRemote : List NodeIdentConst) :
    (newMC id betaNumer betaDenom srcNode inRemote).remoteNodes.size ≤ inRemote.length := by
  show (targetSet (inRemote.map fun t ↦ (t.ident, t.latencyConstMS))).size ≤ _
  rw [size_targetSet]
  exact (length_dedup_le _).trans (by rw [List.length_map, List.length_map])

theorem size_newMeasure (id : UInt64) (srcNode : NodeIdentRendv) (inRemote : List NodeIdent) :
    (MeasureQuery.new id srcNode inRemote).remoteNodes.size =
      (inRemote.map (orSender srcNode.ident)).dedup.length := by
  show (targetSet (inRemote.map fun n ↦ (orSender srcNode.ident n, ()))).size = _
  rw [size_targetSet, List.map_map]
  rfl

section Requests

variable {magic : UInt32} {remoteNode : NodeIdent} {buf : List UInt8}
  {isQueryInTable : UInt64 → Bool} {queryID : UInt64}

theorem closestReq_replied_iff {kind : ReqClosestKind} {tmp : ReqClosestGeneric}
    {q : SearchQuery Unit} (hlen : buf.length ≤ 1400)
    (hparse : parse (ReqClosestGeneric.parser magic kind) buf = some tmp)
    (hquery : handleClosestReq magic kind isQueryInTable queryID remoteNode buf = .query q) :
    q.Replies magic (handleClosest magic kind) ↔
      tmp.targets.dedup.length ≠ 0 ∧ tmp.targets.dedup.length ≤ 137 := by
  have hbytes := ReqClosestGeneric.length_le (by rw [InRange]; omega) hparse
  have hle := length_dedup_le tmp.targets
  rw [handleClosestReq, hparse] at hquery
  split at hquery
  · exact absurd hquery (by simp)
  · cases hquery
    rw [← size_newClosest queryID tmp.betaNum tmp.betaDen (tmp.sender remoteNode)] at hle ⊢
    exact closest_replies_iff magic kind queryID tmp.betaNum tmp.betaDen (tmp.sender remoteNode)
      tmp.targets (by omega)

theorem mcReq_replied {kind : ReqConstraintKind} {q : SearchQuery UInt32}
    (hlen : buf.length ≤ 1400)
    (hquery : handleMCReq magic kind isQueryInTable queryID remoteNode buf = .query q) :
    q.Replies magic (handleMC magic kind) := by
  rw [handleMCReq] at hquery
  split at hquery
  · exact absurd hquery (by simp)
  · split at hquery
    · exact absurd hquery (by simp)
    · rename_i tmp hparse
      cases hquery
      have hbytes := ReqConstraintGeneric.length_le (by rw [InRange]; omega) hparse
      have hsize := size_newMC_le queryID tmp.betaNum tmp.betaDen (tmp.sender remoteNode) tmp.targets
      exact SearchQuery.replies_of_answerable (handleMC_lawful magic kind) queryID tmp.betaNum
        tmp.betaDen (tmp.sender remoteNode) _ (handleMC_answerable magic kind (by
          refine hsize.trans ?_
          omega))

theorem measureReq_replied_iff {kind : ReqMeasureKind} {tmp : ReqGeneric} {q : MeasureQuery}
    (hlen : buf.length ≤ 1400) (hparse : parse (ReqGeneric.parser magic kind) buf = some tmp)
    (hquery : handleMeasureReq magic kind remoteNode buf = .query q) :
    q.Replies magic ↔ (tmp.targets.map (orSender remoteNode)).dedup.length ≤ 138 := by
  have hbytes := ReqGeneric.length_le (by rw [InRange]; omega) hparse
  have hle := length_dedup_le (tmp.targets.map (orSender remoteNode))
  rw [List.length_map] at hle
  rw [handleMeasureReq, hparse] at hquery
  dsimp only at hquery
  split at hquery
  · exact absurd hquery (by simp)
  · cases hquery
    have hsize : (MeasureQuery.new tmp.retReqID (tmp.sender remoteNode) tmp.targets).remoteNodes.size =
        (tmp.targets.map (orSender remoteNode)).dedup.length :=
      size_newMeasure tmp.retReqID (tmp.sender remoteNode) tmp.targets
    rw [← hsize] at hle ⊢
    exact MeasureQuery.replies_iff tmp.retReqID (tmp.sender remoteNode) tmp.targets (by omega)

end Requests

/-- **Which requests are replied to.** For an accepted request for the closest node, every run of its
query that finishes without forwarding the request has replied if and only if the request has at
least one and at most 137 different targets. A multi-constraint request is always replied to, and a
measurement request, unless it is answered at once, if and only if it has at most 138 different
targets. -/
theorem request_replied_iff (magic : UInt32) (remoteNode : NodeIdent) (buf : List UInt8)
    (hlen : buf.length ≤ MAX_UDP_PACKET_SIZE.toNat) :
    (∀ (kind : ReqClosestKind) (isQueryInTable : UInt64 → Bool) (queryID : UInt64)
        (tmp : ReqClosestGeneric) (q : SearchQuery Unit),
      parse (ReqClosestGeneric.parser magic kind) buf = some tmp →
      handleClosestReq magic kind isQueryInTable queryID remoteNode buf = .query q →
      (q.Replies magic (handleClosest magic kind) ↔
        tmp.targets.dedup.length ≠ 0 ∧ tmp.targets.dedup.length ≤ 137)) ∧
    (∀ (kind : ReqConstraintKind) (isQueryInTable : UInt64 → Bool) (queryID : UInt64)
        (q : SearchQuery UInt32),
      handleMCReq magic kind isQueryInTable queryID remoteNode buf = .query q →
      q.Replies magic (handleMC magic kind)) ∧
    (∀ (kind : ReqMeasureKind) (tmp : ReqGeneric) (q : MeasureQuery),
      parse (ReqGeneric.parser magic kind) buf = some tmp →
      handleMeasureReq magic kind remoteNode buf = .query q →
      (q.Replies magic ↔ (tmp.targets.map (orSender remoteNode)).dedup.length ≤ 138)) :=
  ⟨fun _ _ _ _ _ hparse hquery ↦ closestReq_replied_iff hlen hparse hquery,
    fun _ _ _ _ hquery ↦ mcReq_replied hlen hquery,
    fun _ _ _ hparse hquery ↦ measureReq_replied_iff hlen hparse hquery⟩

/-- A request for the closest node to the nodes 0.0.0.1 to 0.0.0.`count`. -/
def closestReqOf (count : ℕ) : ReqClosestGeneric :=
  ⟨⟨Packet.new 5, 0, 0⟩, .tcp, 1, 2, (List.range count).map fun i ↦ ⟨UInt32.ofNat (i + 1), 80⟩⟩

theorem dedup_closestReqOf {count : ℕ} (h : count < 1000) :
    (closestReqOf count).targets.dedup.length = count := by
  have hnodup : (closestReqOf count).targets.Nodup := by
    refine List.Nodup.map_on (fun i hi j hj heq ↦ ?_) List.nodup_range
    rw [List.mem_range] at hi hj
    have haddr : (UInt32.ofNat (i + 1)).toNat = (UInt32.ofNat (j + 1)).toNat :=
      congrArg (fun n : NodeIdent ↦ n.addr.toNat) heq
    rw [UInt32.toNat_ofNat_of_lt' (show i + 1 < 2 ^ 32 by omega),
      UInt32.toNat_ofNat_of_lt' (show j + 1 < 2 ^ 32 by omega)] at haddr
    omega
  rw [hnodup.dedup, closestReqOf, List.length_map, List.length_range]

/-- It is accepted. -/
theorem closestReqOf_accepted {count : ℕ} (h : count ≤ 138) :
    ((closestReqOf count).encode 7).length ≤ MAX_UDP_PACKET_SIZE.toNat ∧
      parse (ReqClosestGeneric.parser 7 .tcp) ((closestReqOf count).encode 7) =
        some (closestReqOf count) ∧
      handleClosestReq 7 .tcp (fun _ ↦ false) 5 ⟨9, 900⟩ ((closestReqOf count).encode 7) =
        .query (newClosest 5 1 2 ⟨9, 900, 0, 0⟩ (closestReqOf count).targets) := by
  have hcount : (closestReqOf count).targets.length = count := by
    rw [closestReqOf, List.length_map, List.length_range]
  have hmax : MAX_UDP_PACKET_SIZE.toNat = 1400 := rfl
  have hlen : ((closestReqOf count).encode 7).length ≤ 1400 := by
    rw [ReqClosestGeneric.length_encode, hcount]
    omega
  have hparse : parse (ReqClosestGeneric.parser 7 .tcp) ((closestReqOf count).encode 7) =
      some (closestReqOf count) := by
    refine parse_eq_some ((closestReqOf count).reads (by omega)) ?_
    rw [InRange]
    omega
  refine ⟨hlen, hparse, ?_⟩
  rw [handleClosestReq, hparse]
  rfl

/-- With 137 targets it is replied to. -/
theorem request_replied_iff_full :
    ∃ q, handleClosestReq 7 .tcp (fun _ ↦ false) 5 ⟨9, 900⟩ ((closestReqOf 137).encode 7) =
        .query q ∧ q.Replies 7 (handleClosest 7 .tcp) := by
  obtain ⟨hlen, hparse, hquery⟩ := closestReqOf_accepted (show 137 ≤ 138 by omega)
  refine ⟨_, hquery, ?_⟩
  have hiff := (request_replied_iff 7 ⟨9, 900⟩ ((closestReqOf 137).encode 7) hlen).1 .tcp
    (fun _ ↦ false) 5 (closestReqOf 137) _ hparse hquery
  rw [dedup_closestReqOf (by omega)] at hiff
  exact hiff.2 ⟨by omega, le_refl 137⟩

/-- With 138 targets it fits a packet, and it is accepted, but the reply does not fit. -/
theorem request_not_replied :
    ((closestReqOf 138).encode 7).length ≤ MAX_UDP_PACKET_SIZE.toNat ∧
      parse (ReqClosestGeneric.parser 7 .tcp) ((closestReqOf 138).encode 7) =
        some (closestReqOf 138) ∧
      ∃ q, handleClosestReq 7 .tcp (fun _ ↦ false) 5 ⟨9, 900⟩ ((closestReqOf 138).encode 7) =
        .query q ∧ ¬ q.Replies 7 (handleClosest 7 .tcp) := by
  obtain ⟨hlen, hparse, hquery⟩ := closestReqOf_accepted (le_refl 138)
  refine ⟨hlen, hparse, _, hquery, fun h ↦ ?_⟩
  have hbounds := (closestReq_replied_iff hlen hparse hquery).1 h
  rw [dedup_closestReqOf (by omega)] at hbounds
  omega

end Meridian

import Meridian.Marshal.RoundTrip
import Meridian.Query.Threshold
import Meridian.Lib.Run

/-!
# The search invariant

What holds of the containers of a search query between two calls, and what the two functions that
decide about it, `sendReqProbes` and `handleForward`, can do.

Both decisions are taken apart once, by `Probed` and `Forwarded`: these relations list everything
the function can do from a state that satisfies the invariant, with what each case leaves behind and
sends. `Handled` does the same for a whole call, whichever handler it is. The invariant, and the
results about the replies, are read off `Handled`; nothing else unfolds a handler.

That a forwarded request always goes to a ring member that has answered rests on the threshold being
below `UINT_MAX` (`latencyThreshold_lt`): with no answer at all the lowest latency is `UINT_MAX`,
which is then above the threshold. This is where the rounding of the source matters, for a beta
ratio just below 1 and for the `nan` that a ratio of 0 to 0 is.
-/

namespace Meridian

open Lib BufferWrapper

/-! ### The threshold -/

/-- **The threshold is below `UINT_MAX`.** -/
theorem latencyThreshold_lt (betaNumer betaDenom : UInt16) (averageLatUS : UInt32) :
    latencyThreshold betaNumer betaDenom averageLatUS < UINT_MAX := by
  have hmax : UINT_MAX.toNat = 4294967295 := rfl
  have havg := averageLatUS.toNat_lt
  have hle := latencyThreshold_le betaNumer betaDenom averageLatUS
  rw [UInt32.le_iff_toNat_le] at hle
  rcases Decidable.em (averageLatUS = UINT_MAX) with rfl | hne
  · rcases Decidable.em (betaNumer = 0 ∧ betaDenom = 0) with ⟨rfl, rfl⟩ | h
    · rw [latencyThreshold_zero_zero]
      decide
    · -- an average this large is not rounded to
      obtain ⟨hn, hnd, hd⟩ := ratioUsed_spec betaNumer betaDenom
      refine (latencyThreshold_lt_iff h (by decide)).2 ?_
      calc (ratioUsed betaNumer betaDenom).2 < 2 * UINT_MAX.toNat * 1 := by omega
        _ ≤ _ := Nat.mul_le_mul_left _ (Nat.sub_pos_of_lt hnd)
  · rw [← UInt32.toNat_inj, hmax] at hne
    rw [UInt32.lt_iff_toNat_lt, hmax]
    omega

/-! ### Starting probes -/

theorem startProbe_spec {τ : Type} (getLatency : NodeIdent → Option UInt32) {nodes : NodeMap τ}
    {s : NodeMap UInt32 × List Output} {e : NodeIdent × τ} (he : e.1 ∈ nodes)
    (hsub : ∀ n ∈ s.1, n ∈ nodes) (hout : ∀ o ∈ s.2, ∃ n, o = .probe n) :
    (∀ n ∈ (startProbe getLatency s e).1, n ∈ nodes) ∧
      ∀ o ∈ (startProbe getLatency s e).2, ∃ n, o = .probe n := by
  rw [startProbe]
  split
  · refine ⟨hsub, fun o ho ↦ ?_⟩
    rcases List.mem_append.1 ho with ho | ho
    · exact hout o ho
    · exact ⟨e.1, List.mem_singleton.1 ho⟩
  · refine ⟨fun n hn ↦ ?_, hout⟩
    rcases mem_insert_iff.1 hn with rfl | hn
    · exact he
    · exact hsub n hn

/-- Cached latencies are of targets, and nothing else is done but to start probes. -/
theorem startProbes_spec {τ : Type} (getLatency : NodeIdent → Option UInt32) {nodes : NodeMap τ}
    {latencies : NodeMap UInt32} (hsub : ∀ n ∈ latencies, n ∈ nodes) :
    (∀ n ∈ (startProbes getLatency nodes latencies).1, n ∈ nodes) ∧
      ∀ o ∈ (startProbes getLatency nodes latencies).2, ∃ n, o = .probe n := by
  have hfold : ∀ (l : List (NodeIdent × τ)) (s : NodeMap UInt32 × List Output),
      (∀ e ∈ l, e ∈ nodes.toList) → (∀ n ∈ s.1, n ∈ nodes) → (∀ o ∈ s.2, ∃ n, o = .probe n) →
      (∀ n ∈ (l.foldl (startProbe getLatency) s).1, n ∈ nodes) ∧
        ∀ o ∈ (l.foldl (startProbe getLatency) s).2, ∃ n, o = .probe n := by
    intro l
    induction l with
    | nil => exact fun s _ hs hout ↦ ⟨hs, hout⟩
    | cons e l ih =>
      intro s hl hs hout
      have he := mem_of_mem_toList (hl e (List.mem_cons_self ..))
      have hstep := startProbe_spec getLatency he hs hout
      exact ih _ (fun x hx ↦ hl x (List.mem_cons_of_mem e hx)) hstep.1 hstep.2
  exact hfold _ _ (fun _ h ↦ h) hsub fun o ho ↦ absurd ho List.not_mem_nil

/-! ### The invariant -/

/-- What holds of the containers between two calls. -/
structure SearchQuery.Consistent {τ : Type} (q : SearchQuery τ) : Prop where
  remote_subset : ∀ n ∈ q.remoteLatencies, n ∈ q.remoteNodes
  remote_eq : q.stateMachine = .indirectPing ∨ q.stateMachine = .waitForFin →
    ∀ n, n ∈ q.remoteLatencies ↔ n ∈ q.remoteNodes
  ring_subset : ∀ n ∈ q.ringLatencies, n ∈ q.ringMembers
  inner_eq : ∀ (n : NodeIdent) (latencies : NodeMap UInt32),
    q.ringLatencies[n]? = some latencies → ∀ k, k ∈ latencies ↔ k ∈ q.remoteNodes
  selected : q.stateMachine = .waitForFin → q.selectedMember ∈ q.ringLatencies

/-- What makes it inductive: once the targets' latencies have been summed up, those of a ring member
can be. Ring members are only asked when the average is not 0. -/
structure SearchQuery.Inv {τ : Type} (C : SearchClass τ) (q : SearchQuery τ) : Prop
    extends SearchQuery.Consistent q where
  asked : q.finished = false → q.stateMachine = .indirectPing →
    ∃ m, C.measure q.remoteNodes q.remoteLatencies = some m ∧ m.average ≠ 0
  average_isSome : q.stateMachine = .indirectPing → ∀ latencies : NodeMap UInt32,
    (∀ n, n ∈ latencies ↔ n ∈ q.remoteNodes) → (C.average q.remoteNodes latencies).isSome = true

/-- What the search rests on in the class. Whether an average can be taken is a matter of the keys,
and the request that is forwarded has the class's own header, which is not that of an answer. -/
structure SearchClass.Lawful {τ : Type} (magic : UInt32) (C : SearchClass τ) : Prop where
  average_isSome : ∀ {nodes : NodeMap τ} {latencies latencies' : NodeMap UInt32} {m : Measure},
    C.measure nodes latencies = some m → (∀ n, n ∈ latencies ↔ n ∈ nodes) →
    (∀ n, n ∈ latencies' ↔ n ∈ nodes) → (C.average nodes latencies').isSome = true
  header : ∀ id betaNum betaDen rendv nodes dest,
    (C.createReq id betaNum betaDen rendv nodes (RealPacket.new dest MAX_UDP_PACKET_SIZE)).1 ≠ -1 →
    ∃ rest, Written MAX_UDP_PACKET_SIZE dest ((Packet.new id).encode magic C.queryType ++ rest)
      (C.createReq id betaNum betaDen rendv nodes (RealPacket.new dest MAX_UDP_PACKET_SIZE))
  queryType_ne : C.queryType ≠ RET_RESPONSE ∧ C.queryType ≠ RET_ERROR

/-! ### What `handleForward` can do -/

namespace SearchQuery

variable {τ : Type} {magic : UInt32} {C : SearchClass τ} {q : SearchQuery τ} {e : SearchEvent}

/-- Every outcome of `handleForward`. In each the statistics have worked and the closest member, if
one is needed, is there. -/
inductive Forwarded (magic : UInt32) (C : SearchClass τ) (env : SearchEnv) (q : SearchQuery τ) :
    Except Abort (SearchQuery τ × List Output) → Prop where
  /-- The request is answered, with the latencies of all targets. -/
  | answered (resp : RetResponse) (created : Int × RealPacket)
      (hid : resp.toPacket = Packet.new q.qid) (hlen : resp.targets.length = q.remoteNodes.size)
      (hcreated : resp.createRealPacket magic (RealPacket.new q.srcNode MAX_UDP_PACKET_SIZE) =
        some created) :
      Forwarded magic C env q (.ok ({ q with finished := true }, sendPacket created))
  /-- The answer has too many entries for its loop to end. -/
  | endless (hsize : 2 ^ 32 ≤ q.remoteNodes.size) : Forwarded magic C env q (.error .endless)
  /-- The request does not fit the packet that forwards it. -/
  | dropped (dest : NodeIdentRendv)
      (hreq : (C.createReq q.qid q.betaNumer q.betaDenom env.rendv q.remoteNodes
        (RealPacket.new dest MAX_UDP_PACKET_SIZE)).1 = -1) :
      Forwarded magic C env q (.ok ({ q with finished := true }, []))
  /-- The request is forwarded to a ring member that has answered. -/
  | forwarded (dest : NodeIdentRendv) (closestMember : NodeIdent)
      (hmem : closestMember ∈ q.ringLatencies)
      (hreq : (C.createReq q.qid q.betaNumer q.betaDenom env.rendv q.remoteNodes
        (RealPacket.new dest MAX_UDP_PACKET_SIZE)).1 ≠ -1) :
      Forwarded magic C env q (.ok ({ q with
        selectedMember := closestMember
        timeoutUS := MAX_RTT_US
        stateMachine := .waitForFin },
        [.packet (C.createReq q.qid q.betaNumer q.betaDenom env.rendv q.remoteNodes
          (RealPacket.new dest MAX_UDP_PACKET_SIZE)).2]))

/-- The search for the closest member: no average fails, and a lowest latency below `UINT_MAX` is
that of a member that has answered. -/
theorem lowest_spec (hinv : q.Inv C) (hstate : q.stateMachine = .indirectPing) :
    (q.lowest C).2.2 = [] ∧ ((q.lowest C).1 < UINT_MAX → (q.lowest C).2.1 ∈ q.ringLatencies) := by
  have hstep : ∀ (l : List (NodeIdent × NodeMap UInt32)) (best : UInt32 × NodeIdent × List Output),
      (∀ e ∈ l, e ∈ q.ringLatencies.toList) → best.2.2 = [] →
      (best.1 < UINT_MAX → best.2.1 ∈ q.ringLatencies) →
      (l.foldl (q.lowestStep C) best).2.2 = [] ∧
        ((l.foldl (q.lowestStep C) best).1 < UINT_MAX →
          (l.foldl (q.lowestStep C) best).2.1 ∈ q.ringLatencies) := by
    intro l
    induction l with
    | nil => exact fun best _ hfailed hmem ↦ ⟨hfailed, hmem⟩
    | cons e l ih =>
      intro best hl hfailed hmem
      have he := hl e (List.mem_cons_self ..)
      have hget := (Std.ExtTreeMap.mem_toList_iff_getElem?_eq_some (k := e.1) (v := e.2)).1 he
      have hsome := hinv.average_isSome hstate e.2 (hinv.inner_eq e.1 e.2 hget)
      obtain ⟨cur, hcur⟩ := Option.isSome_iff_exists.1 hsome
      rw [List.foldl_cons]
      refine ih _ (fun x hx ↦ hl x (List.mem_cons_of_mem e hx)) ?_ ?_
      · simp only [lowestStep, hcur]
        split
        · exact hfailed
        · exact hfailed
      · simp only [lowestStep, hcur]
        split
        · exact fun _ ↦ mem_of_mem_toList he
        · exact hmem
  exact hstep _ _ (fun _ h ↦ h) rfl fun h ↦ absurd h (by decide)

theorem length_targets_new (id : UInt64) (addr : UInt32) (port : UInt16)
    (latencies : NodeMap UInt32) :
    (RetResponse.new id addr port latencies).targets.length = latencies.size := by
  show (latList latencies).length = latencies.size
  rw [latList, List.length_map, Std.ExtTreeMap.length_toList]

/-- An answer can be created, unless it is too long for its loop to end. -/
theorem sendResponse_cases (magic : UInt32) (dest : NodeIdentRendv) (resp : RetResponse) :
    (∃ created, resp.createRealPacket magic (RealPacket.new dest MAX_UDP_PACKET_SIZE) =
        some created ∧ sendResponse magic dest resp = .ok (sendPacket created)) ∨
      (2 ^ 32 ≤ resp.targets.length ∧ sendResponse magic dest resp = .error .endless) := by
  rcases Nat.lt_or_ge resp.targets.length (2 ^ 32) with hlt | hge
  · obtain ⟨res, hres, -⟩ : ∃ res, resp.createRealPacket magic
        (RealPacket.new dest MAX_UDP_PACKET_SIZE) = some res ∧
          Written MAX_UDP_PACKET_SIZE dest (resp.encode magic) res :=
      resp.createRealPacket_written (by decide) hlt
    exact Or.inl ⟨res, hres, by rw [sendResponse, hres]⟩
  · refine Or.inr ⟨hge, ?_⟩
    rw [sendResponse, RetResponse.createRealPacket, if_pos hge]

/-- The answer is there, and it has an entry for every target. -/
theorem answer_spec (hinv : q.Inv C) (hstate : q.stateMachine = .indirectPing) {lat : UInt32}
    {closest : NodeIdent} (hmem : lat < UINT_MAX → closest ∈ q.ringLatencies) :
    ∃ resp, q.answer lat closest = .ok resp ∧ resp.toPacket = Packet.new q.qid ∧
      resp.targets.length = q.remoteNodes.size := by
  rw [answer]
  split
  · rename_i hlt
    -- the lowest latency is below the average, so it is below `UINT_MAX`
    have hlow : lat < UINT_MAX := by
      have havg := q.averageLatUS.toNat_lt
      rw [UInt32.lt_iff_toNat_lt] at hlt ⊢
      rw [show UINT_MAX.toNat = 4294967295 from rfl]
      omega
    obtain ⟨latencies, hget⟩ := Option.isSome_iff_exists.1
      (Std.ExtTreeMap.mem_iff_isSome_getElem?.1 (hmem hlow))
    rw [hget]
    refine ⟨_, rfl, rfl, ?_⟩
    rw [length_targets_new, size_eq_of_mem_iff (hinv.inner_eq closest latencies hget)]
  · refine ⟨_, rfl, rfl, ?_⟩
    rw [length_targets_new, size_eq_of_mem_iff (hinv.remote_eq (Or.inl hstate))]

/-- **What `handleForward` can do** when all the latencies it needs are there. -/
theorem handleForward_cases (env : SearchEnv) (hinv : q.Inv C)
    (hstate : q.stateMachine = .indirectPing) :
    Forwarded magic C env q (q.handleForward magic C env) := by
  obtain ⟨hfailed, hmem⟩ := lowest_spec hinv hstate
  have hthreshold := latencyThreshold_lt q.betaNumer q.betaDenom q.averageLatUS
  rw [handleForward]
  generalize q.lowest C = best at *
  obtain ⟨lat, closest, failed⟩ := best
  obtain rfl : failed = [] := hfailed
  simp only [List.nil_append]
  split
  · obtain ⟨resp, hresp, hid, hlen⟩ := answer_spec hinv hstate hmem
    rcases sendResponse_cases magic q.srcNode resp with ⟨created, hcreated, hsent⟩ | ⟨hsize, hsent⟩
    · rw [hresp]
      simp only [bind, Except.bind, hsent]
      exact .answered resp created hid hlen hcreated
    · rw [hresp]
      simp only [bind, Except.bind, hsent]
      exact .endless (hlen ▸ hsize)
  · rename_i hforward
    -- the lowest latency is at most the threshold, so somebody has answered
    have hlow : lat < UINT_MAX := by
      rw [not_or, UInt32.not_lt] at hforward
      exact UInt32.lt_of_le_of_lt hforward.2 hthreshold
    have hclosest : closest ∈ q.ringLatencies := hmem hlow
    obtain ⟨dest, hdest⟩ : ∃ dest, q.forwardDest closest = (dest, []) := by
      obtain ⟨member, hget⟩ := Option.isSome_iff_exists.1
        (Std.ExtTreeMap.mem_iff_isSome_getElem?.1 (hinv.ring_subset closest hclosest))
      exact ⟨member, by rw [forwardDest, hget]⟩
    rw [hdest]
    simp only [List.nil_append]
    split
    · rename_i hreq
      exact .dropped dest hreq
    · rename_i hreq
      exact .forwarded dest closest hclosest hreq

/-! ### What `sendReqProbes` can do -/

theorem mem_foldl {α β : Type} {f : NodeMap β → α → NodeMap β} {n : NodeIdent} {l : List α}
    (h : ∀ m a, n ∈ m → n ∈ f m a) : ∀ {m : NodeMap β}, n ∈ m → n ∈ l.foldl f m := by
  induction l with
  | nil => exact fun hm ↦ hm
  | cons a l ih => exact fun hm ↦ ih (h _ a hm)

/-- `fillVector` adds to the set it is given. -/
theorem mem_fillVector {rs : RingSet} {ring : UInt32 → Fin MAX_NUM_RINGS} {lo hi : UInt32}
    {beta : Binary64} {members : NodeMap NodeIdentRendv} {n : NodeIdent} (hn : n ∈ members) :
    n ∈ (rs.fillVector ring lo hi beta members).2 := by
  refine mem_foldl (fun m r hm ↦ mem_foldl (fun m k hm ↦ ?_) hm) hn
  rw [RingSet.fillMember]
  split
  · exact hm
  · split
    · exact mem_insertIfNew_iff.2 (Or.inr hm)
    · exact hm

/-- The query once ring members have been selected. -/
def probing (q : SearchQuery τ) (m : Measure) (members : NodeMap NodeIdentRendv) :
    SearchQuery τ :=
  { q with
    averageLatUS := m.average
    timeoutUS := probeTimeout q.betaNumer q.betaDenom m.largest
    stateMachine := .indirectPing
    ringMembers := members }

/-- Every outcome of `sendReqProbes`. -/
inductive Probed (magic : UInt32) (C : SearchClass τ) (q : SearchQuery τ) :
    Except Abort (SearchQuery τ × List Output) → Prop where
  /-- Latencies are missing, or it is not the time. -/
  | notReady : Probed magic C q (.ok (q, []))
  /-- The statistics have failed. -/
  | failed (hkeys : ∀ n, n ∈ q.remoteLatencies ↔ n ∈ q.remoteNodes)
      (hmeasure : C.measure q.remoteNodes q.remoteLatencies = none) :
      Probed magic C q (.ok ({ q with finished := true }, [.error .measure]))
  /-- No ring member is to be asked, and the request is answered. -/
  | answered (m : Measure) (members : NodeMap NodeIdentRendv) (created : Int × RealPacket)
      (hkeys : ∀ n, n ∈ q.remoteLatencies ↔ n ∈ q.remoteNodes)
      (hmeasure : C.measure q.remoteNodes q.remoteLatencies = some m)
      (hmembers : ∀ n ∈ q.ringMembers, n ∈ members)
      (hcreated : (RetResponse.new q.qid 0 0 q.remoteLatencies).createRealPacket magic
        (RealPacket.new q.srcNode MAX_UDP_PACKET_SIZE) = some created) :
      Probed magic C q (.ok ({ q.probing m members with finished := true }, sendPacket created))
  /-- The answer has too many entries for its loop to end. -/
  | endless (hsize : 2 ^ 32 ≤ q.remoteNodes.size) : Probed magic C q (.error .endless)
  /-- The ring members are asked. -/
  | probing (m : Measure) (members : NodeMap NodeIdentRendv)
      (hkeys : ∀ n, n ∈ q.remoteLatencies ↔ n ∈ q.remoteNodes)
      (hmeasure : C.measure q.remoteNodes q.remoteLatencies = some m)
      (haverage : m.average ≠ 0) (hmembers : ∀ n ∈ q.ringMembers, n ∈ members) :
      Probed magic C q (.ok (q.probing m members, members.toList.map fun e ↦ .reqProbe e.2))

/-- **What `sendReqProbes` can do.** -/
theorem sendReqProbes_cases (env : SearchEnv)
    (hsub : ∀ n ∈ q.remoteLatencies, n ∈ q.remoteNodes) :
    Probed magic C q (q.sendReqProbes magic C env) := by
  rw [sendReqProbes]
  split
  · exact .notReady
  · rename_i hready
    rw [not_or, not_not, not_not] at hready
    have hkeys : ∀ n, n ∈ q.remoteLatencies ↔ n ∈ q.remoteNodes :=
      fun n ↦ mem_iff_of_size_eq hsub hready.2
    split
    · rename_i hmeasure
      exact .failed hkeys hmeasure
    · rename_i m hmeasure
      simp only []
      generalize hfill : (if m.average = 0 then ((0 : Int), q.ringMembers)
        else env.rings.fillVector env.getRingNumber m.smallest m.largest
          (betaRatio q.betaNumer q.betaDenom) q.ringMembers) = filled
      obtain ⟨rc, members⟩ := filled
      have hmembers : ∀ n ∈ q.ringMembers, n ∈ members := by
        intro n hn
        have heq := congrArg Prod.snd hfill
        split at heq
        · change q.ringMembers = members at heq
          rwa [← heq]
        · change _ = members at heq
          rw [← heq]
          exact mem_fillVector hn
      split
      · rcases sendResponse_cases magic q.srcNode (.new q.qid 0 0 q.remoteLatencies) with
          ⟨created, hcreated, hsent⟩ | ⟨hsize, hsent⟩
        · rw [hsent]
          exact .answered m members created hkeys hmeasure hmembers hcreated
        · rw [hsent]
          refine .endless ?_
          rw [length_targets_new, hready.2] at hsize
          exact hsize
      · rename_i hask
        exact .probing m members hkeys hmeasure (not_or.1 hask).1 hmembers

/-! ### What a call can do -/

/-- What is no answer to the request: a probe, the log line of `sendReqProbes`, and a packet whose
header is not that of an answer. -/
def Silent (magic : UInt32) : Output → Prop
  | .packet p => ∃ type id, parse (Packet.parseHeader magic) p.payload = some (type, id) ∧
      type ≠ RET_RESPONSE ∧ type ≠ RET_ERROR
  | .probe _ => True
  | .reqProbe _ => True
  | .error e => e = .measure

/-- Both queries are the same request, and the second satisfies the invariant. A query that has been
started stays so. -/
structure Kept (C : SearchClass τ) (q q' : SearchQuery τ) : Prop where
  inv : q'.Inv C
  qid : q'.qid = q.qid
  srcNode : q'.srcNode = q.srcNode
  remoteNodes : q'.remoteNodes = q.remoteNodes
  started : q.stateMachine ≠ .init → q'.stateMachine ≠ .init

/-- Everything a call on a query can do. The outputs `pre` are silent. -/
inductive Handled (magic : UInt32) (C : SearchClass τ) (q : SearchQuery τ) (e : SearchEvent) :
    Except Abort (SearchQuery τ × List Output) → Prop where
  /-- It does not return, but not for the sake of the closest member. -/
  | abort (a : Abort) (h : a ≠ .closestMember) : Handled magic C q e (.error a)
  /-- The query goes on. -/
  | pending (q' : SearchQuery τ) (pre : List Output) (hkept : Kept C q q')
      (hfin : q'.finished = q.finished) (hpre : ∀ o ∈ pre, Silent magic o) :
      Handled magic C q e (.ok (q', pre))
  /-- It was never started, and times out. -/
  | abandoned (hstate : q.stateMachine = .init) (hkept : Kept C q { q with finished := true }) :
      Handled magic C q e (.ok ({ q with finished := true }, []))
  /-- The statistics fail, and the request is dropped. -/
  | failed (q' : SearchQuery τ) (pre : List Output) (hkept : Kept C q q')
      (hmeasure : C.measure q'.remoteNodes q'.remoteLatencies = none)
      (hkeys : ∀ n, n ∈ q'.remoteLatencies ↔ n ∈ q'.remoteNodes)
      (hfin : q'.finished = true) (hpre : ∀ o ∈ pre, Silent magic o) :
      Handled magic C q e (.ok (q', pre))
  /-- The request does not fit the packet that forwards it, and is dropped. -/
  | dropped (q' : SearchQuery τ) (pre : List Output) (hkept : Kept C q q')
      (hasked : q.finished = false → ∃ (latencies : NodeMap UInt32) (m : Measure),
        (∀ n, n ∈ latencies ↔ n ∈ q.remoteNodes) ∧
          C.measure q.remoteNodes latencies = some m ∧ m.average ≠ 0)
      (hreq : ∃ id betaNum betaDen rendv dest, (C.createReq id betaNum betaDen rendv q.remoteNodes
        (RealPacket.new dest MAX_UDP_PACKET_SIZE)).1 = -1)
      (hfin : q'.finished = true) (hpre : ∀ o ∈ pre, Silent magic o) :
      Handled magic C q e (.ok (q', pre))
  /-- The request is answered, with an entry for every target. -/
  | answered (q' : SearchQuery τ) (pre : List Output) (resp : RetResponse)
      (created : Int × RealPacket)
      (hkept : Kept C q q') (hid : resp.toPacket = Packet.new q.qid)
      (hlen : resp.targets.length = q.remoteNodes.size)
      (hcreated : resp.createRealPacket magic (RealPacket.new q.srcNode MAX_UDP_PACKET_SIZE) =
        some created)
      (hfin : q'.finished = true) (hpre : ∀ o ∈ pre, Silent magic o) :
      Handled magic C q e (.ok (q', pre ++ sendPacket created))
  /-- Time has run out, and an error is returned. -/
  | timedOut (hkept : Kept C q { q with finished := true }) :
      Handled magic C q e (.ok ({ q with finished := true },
        sendError magic q.srcNode ⟨Packet.new q.qid⟩))
  /-- The answer of the selected member is passed on. -/
  | relayed (hstate : q.stateMachine = .waitForFin) (created : Int × RealPacket)
      (hkept : Kept C q { q with finished := true }) :
      Handled magic C q e (.ok ({ q with finished := true }, sendPacket created))
  /-- The request has come back, and its sender is answered. The query goes on. -/
  | looped (hstate : q.stateMachine = .waitForFin) (inRemote : NodeIdent) (inPacket : List UInt8)
      (he : e = .handleEvent inRemote inPacket)
      (htype : (parse (Packet.parseHeader magic) inPacket).map Prod.fst = some C.queryType)
      (resp : RetResponse) (created : Int × RealPacket) (hkept : Kept C q q)
      (hcreated : resp.createRealPacket magic
        (RealPacket.new inRemote.direct MAX_UDP_PACKET_SIZE) = some created) :
      Handled magic C q e (.ok (q, sendPacket created))

/-! ### Outputs that are no answer -/

/-- A packet with another header is no answer. -/
theorem silent_packet {created : Int × RealPacket} {type : UInt8} {pkt : Packet}
    {dest : NodeIdentRendv} {rest : List UInt8} (hok : created.1 ≠ -1)
    (h : Written MAX_UDP_PACKET_SIZE dest (pkt.encode magic type ++ rest) created)
    (htype : type ≠ RET_RESPONSE ∧ type ≠ RET_ERROR) : Silent magic (.packet created.2) :=
  ⟨type, pkt.retReqID, h.parseHeader_eq (by decide) hok, htype⟩

theorem mem_sendPacket {created : Int × RealPacket} {o : Output} (h : o ∈ sendPacket created) :
    created.1 ≠ -1 ∧ o = .packet created.2 := by
  rw [sendPacket] at h
  split at h
  · exact absurd h List.not_mem_nil
  · rename_i hok
    exact ⟨hok, List.mem_singleton.1 h⟩

theorem silent_sendInfo (dest : NodeIdentRendv) (info : RetInfo) :
    ∀ o ∈ sendInfo magic dest info, Silent magic o := by
  intro o ho
  obtain ⟨hok, rfl⟩ := mem_sendPacket ho
  exact silent_packet hok (info.createRealPacket_written (by decide)) (by decide)

/-! ### The handlers -/

theorem Kept.refl (hinv : q.Inv C) : Kept C q q := ⟨hinv, rfl, rfl, rfl, id⟩

theorem Kept.trans {q₁ q₂ : SearchQuery τ} (h₁ : Kept C q q₁) (h₂ : Kept C q₁ q₂) : Kept C q q₂ :=
  ⟨h₂.inv, h₂.qid.trans h₁.qid, h₂.srcNode.trans h₁.srcNode, h₂.remoteNodes.trans h₁.remoteNodes,
    fun h ↦ h₂.started (h₁.started h)⟩

/-- Finishing changes nothing that the invariant speaks of. -/
theorem Kept.finish {q' : SearchQuery τ} (h : Kept C q q') : Kept C q { q' with finished := true } :=
  ⟨⟨⟨h.inv.remote_subset, h.inv.remote_eq, h.inv.ring_subset, h.inv.inner_eq, h.inv.selected⟩,
    fun h ↦ absurd h (by simp), h.inv.average_isSome⟩, h.qid, h.srcNode, h.remoteNodes, h.started⟩

theorem Handled.idle (hinv : q.Inv C) : Handled magic C q e (.ok (q, [])) :=
  .pending q [] (.refl hinv) rfl fun _ h ↦ absurd h List.not_mem_nil

/-- The query goes on and nothing is sent. -/
theorem Handled.updated {q' : SearchQuery τ} (hkept : Kept C q q') (hfin : q'.finished = q.finished) :
    Handled magic C q e (.ok (q', [])) :=
  .pending q' [] hkept hfin fun _ h ↦ absurd h List.not_mem_nil

theorem Forwarded.handled (hC : C.Lawful magic) {env : SearchEnv} {q₁ : SearchQuery τ}
    {r : Except Abort (SearchQuery τ × List Output)} (h : Forwarded magic C env q₁ r)
    (hkept : Kept C q q₁) (hfin : q₁.finished = q.finished)
    (hstate : q₁.stateMachine = .indirectPing) : Handled magic C q e r := by
  cases h with
  | answered resp created hid hlen hcreated =>
    rw [hkept.qid] at hid
    rw [hkept.remoteNodes] at hlen
    rw [hkept.srcNode] at hcreated
    exact .answered _ [] resp created hkept.finish hid hlen hcreated rfl
      fun _ h ↦ absurd h List.not_mem_nil
  | endless hsize => exact .abort _ (by decide)
  | dropped dest hreq =>
    rw [hkept.remoteNodes] at hreq
    refine .dropped _ [] hkept.finish (fun hgoing ↦ ?_) ⟨_, _, _, _, dest, hreq⟩ rfl
      fun _ h ↦ absurd h List.not_mem_nil
    obtain ⟨m, hm⟩ := hkept.inv.asked (hfin.trans hgoing) hstate
    rw [← hkept.remoteNodes]
    exact ⟨q₁.remoteLatencies, m, hkept.inv.remote_eq (Or.inl hstate), hm⟩
  | forwarded dest closestMember hmem hreq =>
    have hinv := hkept.inv
    refine .pending _ _ (hkept.trans ⟨⟨⟨hinv.remote_subset,
      fun _ ↦ hinv.remote_eq (Or.inl hstate), hinv.ring_subset, hinv.inner_eq, fun _ ↦ hmem⟩,
      fun _ h ↦ absurd h (by simp), fun h ↦ absurd h (by simp)⟩, rfl, rfl, rfl, fun _ ↦ by simp⟩)
        hfin fun o ho ↦ ?_
    obtain ⟨rest, hwritten⟩ := hC.header _ _ _ _ _ _ hreq
    rw [List.mem_singleton.1 ho]
    exact silent_packet hreq hwritten hC.queryType_ne

/-- Selecting ring members keeps the invariant, where the query goes on only with an average. -/
theorem Kept.probing (hC : C.Lawful magic) (hinv : q.Inv C) {m : Measure}
    {members : NodeMap NodeIdentRendv} {done : Bool} (haverage : done = false → m.average ≠ 0)
    (hkeys : ∀ n, n ∈ q.remoteLatencies ↔ n ∈ q.remoteNodes)
    (hmeasure : C.measure q.remoteNodes q.remoteLatencies = some m)
    (hmembers : ∀ n ∈ q.ringMembers, n ∈ members) :
    Kept C q { q.probing m members with finished := done } :=
  ⟨⟨⟨hinv.remote_subset, fun _ ↦ hkeys, fun n hn ↦ hmembers n (hinv.ring_subset n hn),
    hinv.inner_eq, fun h ↦ absurd h (by simp [SearchQuery.probing])⟩,
    fun hgoing _ ↦ ⟨m, hmeasure, haverage hgoing⟩,
    fun _ _ hlatencies ↦ hC.average_isSome hmeasure hkeys hlatencies⟩, rfl, rfl, rfl,
    fun _ ↦ by simp [SearchQuery.probing]⟩

/-- What `sendReqProbes` does at the end of a call, after `pre`. -/
theorem Probed.handled (hC : C.Lawful magic) {q₁ : SearchQuery τ} {pre : List Output}
    {r : Except Abort (SearchQuery τ × List Output)} (h : Probed magic C q₁ r)
    (hkept : Kept C q q₁) (hfin : q₁.finished = q.finished) (hpre : ∀ o ∈ pre, Silent magic o) :
    Handled magic C q e (r.map fun x ↦ (x.1, pre ++ x.2)) := by
  have happend : ∀ outs : List Output, (∀ o ∈ outs, Silent magic o) →
      ∀ o ∈ pre ++ outs, Silent magic o :=
    fun outs houts o ho ↦ (List.mem_append.1 ho).elim (hpre o) (houts o)
  cases h with
  | notReady => exact .pending _ _ hkept hfin (happend [] fun _ h ↦ absurd h List.not_mem_nil)
  | failed hkeys hmeasure =>
    exact .failed _ _ hkept.finish hmeasure hkeys rfl
      (happend _ fun o ho ↦ by rw [List.mem_singleton.1 ho, Silent])
  | answered m members created hkeys hmeasure hmembers hcreated =>
    rw [hkept.srcNode] at hcreated
    refine .answered _ pre _ created
      (hkept.trans (Kept.probing hC hkept.inv (fun h ↦ absurd h (by simp)) hkeys hmeasure hmembers))
      (congrArg Packet.new hkept.qid) ?_ hcreated rfl hpre
    rw [length_targets_new, size_eq_of_mem_iff hkeys, hkept.remoteNodes]
  | endless hsize => exact .abort _ (by decide)
  | probing m members hkeys hmeasure haverage hmembers =>
    refine .pending _ _ (hkept.trans (Kept.probing hC hkept.inv (fun _ ↦ haverage) hkeys hmeasure
      hmembers)) hfin (happend _ fun o ho ↦ ?_)
    obtain ⟨x, -, hx⟩ := List.mem_map.1 ho
    rw [← hx]
    exact trivial

/-- `sendReqProbes` as the last thing of a call. -/
theorem sendReqProbes_handled (hC : C.Lawful magic) (env : SearchEnv) {q₁ : SearchQuery τ}
    (hkept : Kept C q q₁) (hfin : q₁.finished = q.finished) :
    Handled magic C q e (q₁.sendReqProbes magic C env) := by
  have hcases : Probed magic C q₁ (q₁.sendReqProbes magic C env) :=
    sendReqProbes_cases env hkept.inv.remote_subset
  have hnil : ∀ o ∈ ([] : List Output), Silent magic o := fun _ h ↦ absurd h List.not_mem_nil
  have h : Handled magic C q e _ := hcases.handled hC hkept hfin hnil
  generalize q₁.sendReqProbes magic C env = r at *
  cases r with
  | error a => exact h
  | ok x => exact h

/-- The results of a ring member that are kept are of targets. -/
theorem collect_subset {nodes : NodeMap τ} {results : List NodeIdentLat}
    {latencies : NodeMap UInt32} (h : collect nodes results = some latencies) :
    ∀ n ∈ latencies, n ∈ nodes := by
  have hfold : ∀ (l : List NodeIdentLat) (m m' : NodeMap UInt32), (∀ n ∈ m, n ∈ nodes) →
      l.foldlM (fun m r ↦ if nodes.contains r.ident then some (m.insert r.ident r.latencyUS)
        else none) m = some m' → ∀ n ∈ m', n ∈ nodes := by
    intro l
    induction l with
    | nil =>
      intro m m' hm hfold
      rw [List.foldlM_nil, Option.pure_def, Option.some.injEq] at hfold
      exact hfold ▸ hm
    | cons r l ih =>
      intro m m' hm hfold
      rw [List.foldlM_cons, Option.bind_eq_bind, Option.bind_eq_some_iff] at hfold
      obtain ⟨m₁, hm₁, hrest⟩ := hfold
      split at hm₁
      · rename_i hr
        rw [Option.some.injEq] at hm₁
        refine ih m₁ m' (fun n hn ↦ ?_) hrest
        rw [← hm₁, mem_insert_iff] at hn
        rcases hn with rfl | hn
        · exact hr
        · exact hm n hn
      · exact absurd hm₁ (by simp)
  exact hfold results ∅ latencies (fun n hn ↦ absurd hn Std.ExtTreeMap.not_mem_empty) h

/-- The latency of one more target. -/
theorem Kept.recordTarget (hinv : q.Inv C) (hstate : q.stateMachine = .waitForDirectPing)
    {n : NodeIdent} (hn : n ∈ q.remoteNodes) (latencyUS : UInt32) :
    Kept C q { q with remoteLatencies := q.remoteLatencies.insert n latencyUS } := by
  refine ⟨⟨⟨fun k hk ↦ ?_, fun h ↦ ?_, hinv.ring_subset, hinv.inner_eq, hinv.selected⟩,
    fun _ h ↦ ?_, hinv.average_isSome⟩, rfl, rfl, rfl, id⟩
  · rcases mem_insert_iff.1 hk with rfl | hk
    · exact hn
    · exact hinv.remote_subset k hk
  · simp [hstate] at h
  · simp [hstate] at h

/-- The latencies of one more ring member. -/
theorem Kept.recordMember (hinv : q.Inv C) {src : NodeIdent} {latencies : NodeMap UInt32}
    (hsrc : src ∈ q.ringMembers) (hkeys : ∀ n, n ∈ latencies ↔ n ∈ q.remoteNodes) :
    Kept C q { q with ringLatencies := q.ringLatencies.insert src latencies } := by
  refine ⟨⟨⟨hinv.remote_subset, hinv.remote_eq, fun n hn ↦ ?_, fun n m hget ↦ ?_, fun h ↦ ?_⟩,
    hinv.asked, hinv.average_isSome⟩, rfl, rfl, rfl, id⟩
  · rcases mem_insert_iff.1 hn with rfl | hn
    · exact hsrc
    · exact hinv.ring_subset n hn
  · rw [Std.ExtTreeMap.getElem?_insert] at hget
    split at hget
    · rw [Option.some.injEq] at hget
      exact hget ▸ hkeys
    · exact hinv.inner_eq n m hget
  · exact mem_insert_iff.2 (Or.inr (hinv.selected h))

theorem handleLatency_handled (hC : C.Lawful magic) (env : SearchEnv)
    (results : List NodeIdentLat) (hinv : q.Inv C) :
    Handled magic C q e (q.handleLatency magic C env results) := by
  rw [handleLatency.eq_def]
  split
  · exact .idle hinv
  · rename_i hstate
    split
    · exact sendReqProbes_handled hC env (.refl hinv) rfl
    · split
      · rename_i r
        split
        · exact .idle hinv
        · rename_i hr
          have hkept := Kept.recordTarget hinv hstate (by simpa using hr) r.latencyUS
          split
          · exact .idle hinv
          · dsimp only
            split
            · exact .updated hkept rfl
            · exact sendReqProbes_handled hC env hkept rfl
      · exact .idle hinv
  · rename_i hstate
    split
    · exact .idle hinv
    · rename_i src results
      split
      · exact .idle hinv
      · rename_i hsrc
        split
        · exact .idle hinv
        · split
          · exact .idle hinv
          · rename_i latencies hcollect
            split
            · exact .idle hinv
            · rename_i hsize
              rw [not_not] at hsize
              have hkept := Kept.recordMember hinv (by simpa using hsrc) fun n ↦
                mem_iff_of_size_eq (collect_subset hcollect) hsize.symm
              dsimp only
              split
              · exact .updated hkept rfl
              · exact (handleForward_cases env hkept.inv hstate).handled hC hkept rfl hstate
  · exact .idle hinv

theorem init_handled (hC : C.Lawful magic) (env : SearchEnv) (hinv : q.Inv C) :
    Handled magic C q e (q.init magic C env) := by
  obtain ⟨hsub, hprobes⟩ := startProbes_spec env.getLatency hinv.remote_subset
  rw [init]
  generalize startProbes env.getLatency q.remoteNodes q.remoteLatencies = started at *
  obtain ⟨latencies, probes⟩ := started
  simp only [] at hsub hprobes ⊢
  have hpre : ∀ o ∈ probes ++ sendInfo magic q.srcNode ⟨Packet.new q.qid, 0, 0⟩,
      Silent magic o := by
    intro o ho
    rcases List.mem_append.1 ho with ho | ho
    · obtain ⟨n, rfl⟩ := hprobes o ho
      trivial
    · exact silent_sendInfo _ _ o ho
  have hkept : Kept C q { q with
      remoteLatencies := latencies, stateMachine := .waitForDirectPing } :=
    ⟨⟨⟨hsub, fun h ↦ absurd h (by simp), hinv.ring_subset, hinv.inner_eq,
      fun h ↦ absurd h (by simp)⟩, fun _ h ↦ absurd h (by simp), fun h ↦ absurd h (by simp)⟩,
      rfl, rfl, rfl, fun _ ↦ by simp⟩
  split
  · rename_i hsize
    have hcases : Probed magic C { q with
        remoteLatencies := latencies, stateMachine := .waitForDirectPing } _ :=
      sendReqProbes_cases env hkept.inv.remote_subset
    have h : Handled magic C q e _ := hcases.handled hC hkept rfl hpre
    simp only [handleLatency, hsize, if_true]
    generalize sendReqProbes magic C env _ = r at *
    cases r with
    | error a => exact h
    | ok x => exact h
  · exact .pending _ _ hkept rfl hpre

theorem handleEvent_handled (inRemote : NodeIdent) (inPacket : List UInt8) (hinv : q.Inv C) :
    Handled magic C q (.handleEvent inRemote inPacket)
      (q.handleEvent magic C inRemote inPacket) := by
  have hkept : Kept C q q := .refl hinv
  rw [handleEvent]
  split
  · rename_i hstate
    split
    · exact .abort _ (by decide)
    · rename_i queryType _ hparse
      split
      · rename_i htype
        rcases sendResponse_cases magic inRemote.direct (.new q.qid 0 0 q.remoteLatencies) with
          ⟨created, hcreated, hsent⟩ | ⟨-, hsent⟩
        · rw [hsent]
          exact .looped hstate inRemote inPacket rfl (by rw [hparse, htype]; rfl) _ created hkept
            hcreated
        · rw [hsent]
          exact .abort _ (by decide)
      · split
        · split
          · split
            · exact .idle hinv
            · rename_i resp _
              rcases sendResponse_cases magic q.srcNode resp with ⟨created, -, hsent⟩ | ⟨-, hsent⟩
              · rw [hsent]
                exact .relayed hstate created hkept.finish
              · rw [hsent]
                exact .abort _ (by decide)
          · split
            · split
              · exact .idle hinv
              · exact .relayed hstate _ hkept.finish
            · split
              · split
                · exact .idle hinv
                · exact .pending _ _ hkept rfl (silent_sendInfo _ _)
              · exact .idle hinv
        · exact .idle hinv
  · exact .idle hinv

theorem handleTimeout_handled (hC : C.Lawful magic) (env : SearchEnv) (hinv : q.Inv C) :
    Handled magic C q e (q.handleTimeout magic C env) := by
  have hkept : Kept C q q := .refl hinv
  rw [handleTimeout]
  split
  · rename_i hstate
    exact .abandoned hstate hkept.finish
  · exact .timedOut hkept.finish
  · rename_i hstate
    exact (handleForward_cases env hinv hstate).handled hC hkept rfl hstate
  · exact .timedOut hkept.finish

/-- **What a call can do**, whichever it is. -/
theorem handle_handled (e : SearchEvent) (hC : C.Lawful magic) (hinv : q.Inv C) :
    Handled magic C q e (q.handle magic C e) := by
  cases e with
  | init env => exact init_handled hC env hinv
  | handleLatency env results => exact handleLatency_handled hC env results hinv
  | handleEvent inRemote inPacket => exact handleEvent_handled inRemote inPacket hinv
  | handleTimeout env => exact handleTimeout_handled hC env hinv

/-! ### What follows from it -/

/-- The log lines about an inconsistency in `handleForward` do not occur. -/
def Quiet (outs : List Output) : Prop :=
  .error .average ∉ outs ∧ .error .inconsistent ∉ outs

theorem quiet_nil : Quiet [] := ⟨List.not_mem_nil, List.not_mem_nil⟩

theorem Quiet.append {outs outs' : List Output} (h : Quiet outs) (h' : Quiet outs') :
    Quiet (outs ++ outs') := by
  simp only [Quiet, List.mem_append, not_or] at h h' ⊢
  exact ⟨⟨h.1, h'.1⟩, ⟨h.2, h'.2⟩⟩

theorem quiet_of_silent {outs : List Output} (h : ∀ o ∈ outs, Silent magic o) : Quiet outs :=
  ⟨fun he ↦ absurd (h _ he) (by simp [Silent]), fun he ↦ absurd (h _ he) (by simp [Silent])⟩

theorem quiet_sendPacket (created : Int × RealPacket) : Quiet (sendPacket created) :=
  ⟨fun h ↦ absurd (mem_sendPacket h).2 (by simp), fun h ↦ absurd (mem_sendPacket h).2 (by simp)⟩

/-- Every call keeps the invariant, and logs nothing inconsistent. -/
theorem Handled.inv_quiet {q' : SearchQuery τ} {outs : List Output}
    (h : Handled magic C q e (.ok (q', outs))) : Kept C q q' ∧ Quiet outs := by
  cases h with
  | pending _ _ hkept _ hpre => exact ⟨hkept, quiet_of_silent hpre⟩
  | abandoned _ hkept => exact ⟨hkept, quiet_nil⟩
  | failed _ _ hkept _ _ _ hpre => exact ⟨hkept, quiet_of_silent hpre⟩
  | dropped _ _ hkept _ _ _ hpre => exact ⟨hkept, quiet_of_silent hpre⟩
  | answered _ _ _ _ hkept _ _ _ _ hpre =>
    exact ⟨hkept, (quiet_of_silent hpre).append (quiet_sendPacket _)⟩
  | timedOut hkept => exact ⟨hkept, quiet_sendPacket _⟩
  | relayed _ _ hkept => exact ⟨hkept, quiet_sendPacket _⟩
  | looped _ _ _ _ _ _ _ hkept => exact ⟨hkept, quiet_sendPacket _⟩

/-- A new query satisfies the invariant. -/
theorem inv_new (C : SearchClass τ) (id : UInt64) (betaNumer betaDenom : UInt16)
    (srcNode : NodeIdentRendv) (inRemote : List (NodeIdent × τ)) :
    Inv C (SearchQuery.new id betaNumer betaDenom srcNode inRemote) := by
  refine ⟨⟨fun n hn ↦ ?_, fun h ↦ ?_, fun n hn ↦ ?_, fun n m hm ↦ ?_, fun h ↦ ?_⟩, fun _ h ↦ ?_,
    fun h ↦ ?_⟩
  · exact absurd hn Std.ExtTreeMap.not_mem_empty
  · exact absurd h (by simp [SearchQuery.new])
  · exact absurd hn Std.ExtTreeMap.not_mem_empty
  · exact absurd hm (by simp [SearchQuery.new])
  · exact absurd h (by simp [SearchQuery.new])
  · exact absurd h (by simp [SearchQuery.new])
  · exact absurd h (by simp [SearchQuery.new])

end SearchQuery

/-! ### The two classes -/

/-- An average of latencies can be taken when there is one. -/
theorem getMaxAndAverage_isSome {latencies : NodeMap UInt32} (h : latencies.size ≠ 0) :
    (getMaxAndAverage latencies).isSome = true := by
  rw [getMaxAndAverage]
  split
  · rename_i hnil
    rw [← Std.ExtTreeMap.length_toList, hnil] at h
    exact absurd rfl h
  · rfl
  · rfl

theorem size_ne_zero_of_measure {latencies : NodeMap UInt32} {m : Measure}
    (h : getMaxAndMinAndAverage latencies = some m) : latencies.size ≠ 0 := by
  rw [getMaxAndMinAndAverage] at h
  split at h
  · exact absurd h (by simp)
  · rename_i hlist
    rw [← Std.ExtTreeMap.length_toList, hlist]
    exact Nat.one_ne_zero
  · rename_i hne _
    rw [← Std.ExtTreeMap.length_toList, ne_eq, List.length_eq_zero_iff]
    exact hne

theorem handleClosest_lawful (magic : UInt32) (kind : ReqClosestKind) :
    (handleClosest magic kind).Lawful magic where
  average_isSome := by
    intro nodes latencies latencies' m hmeasure hkeys hkeys'
    show ((getMaxAndAverage latencies').map Prod.snd).isSome = true
    rw [Option.isSome_map]
    refine getMaxAndAverage_isSome ?_
    rw [size_eq_of_mem_iff hkeys', ← size_eq_of_mem_iff hkeys]
    exact size_ne_zero_of_measure hmeasure
  header := fun _ _ _ _ _ _ hok ↦ ReqClosestGeneric.written_header _ (by decide) hok
  queryType_ne := by
    show kind.type ≠ RET_RESPONSE ∧ kind.type ≠ RET_ERROR
    cases kind <;> decide

/-- The sum over all targets exists when every target has a latency. -/
theorem totalSolution_isSome {remoteNodes inMap : NodeMap UInt32}
    (h : ∀ n ∈ remoteNodes, n ∈ inMap) : (totalSolution remoteNodes inMap).isSome = true := by
  have hfold : ∀ (l : List (NodeIdent × UInt32)) (total : Binary64), (∀ e ∈ l, e.1 ∈ inMap) →
      (l.foldlM (fun (total : Binary64) e ↦ (inMap[e.1]?).map fun latency ↦
        let excess : ℤ := max 0 ((latency.toNat : ℤ) - constraintUS e.2)
        total.add (.ofRat ((excess * excess).bmod (2 ^ 64)))) total).isSome = true := by
    intro l
    induction l with
    | nil => exact fun _ _ ↦ rfl
    | cons e l ih =>
      intro total hl
      obtain ⟨latency, hget⟩ := Option.isSome_iff_exists.1
        (Std.ExtTreeMap.mem_iff_isSome_getElem?.1 (hl e (List.mem_cons_self ..)))
      rw [List.foldlM_cons, hget]
      exact ih _ fun x hx ↦ hl x (List.mem_cons_of_mem e hx)
  exact hfold _ _ fun e he ↦ h e.1 (mem_of_mem_toList he)

theorem handleMC_lawful (magic : UInt32) (kind : ReqConstraintKind) :
    (handleMC magic kind).Lawful magic where
  average_isSome := by
    intro nodes latencies latencies' m _ _ hkeys'
    show (getAvgSolution nodes latencies').isSome = true
    rw [getAvgSolution, Option.isSome_map]
    exact totalSolution_isSome fun n hn ↦ (hkeys' n).2 hn
  header := fun _ _ _ _ _ _ hok ↦ ReqConstraintGeneric.written_header _ (by decide) hok
  queryType_ne := by
    show kind.type ≠ RET_RESPONSE ∧ kind.type ≠ RET_ERROR
    cases kind <;> decide

/-! ### Whole runs -/

namespace SearchQuery

variable {τ : Type} {magic : UInt32} {C : SearchClass τ} {s s' : SearchQuery τ × List Output}

/-- One step: the query was not finished, and its handler returned. -/
theorem step_eq_some {e : SearchEvent} (h : step magic C s e = some s') :
    s.1.finished = false ∧ ∃ outs, s.1.handle magic C e = .ok (s'.1, outs) ∧ s'.2 = s.2 ++ outs := by
  rw [step] at h
  split at h
  · exact absurd h (by simp)
  · rename_i hfin
    split at h
    · exact absurd h (by simp)
    · rename_i q outs hhandle
      rw [Option.some.injEq] at h
      subst h
      exact ⟨by simpa using hfin, outs, hhandle, rfl⟩

/-- What holds of a query and of what it has done. -/
def Good (C : SearchClass τ) (s : SearchQuery τ × List Output) : Prop := s.1.Inv C ∧ Quiet s.2

theorem good_step (hC : C.Lawful magic) (e : SearchEvent) (hs : Good C s)
    (h : step magic C s e = some s') : Good C s' := by
  obtain ⟨-, outs, hhandle, houts⟩ := step_eq_some h
  have hhandled := handle_handled e hC hs.1
  rw [hhandle] at hhandled
  obtain ⟨hkept, hquiet⟩ := hhandled.inv_quiet
  exact ⟨hkept.inv, houts ▸ hs.2.append hquiet⟩

/-- The result of a run, for either class: the containers are consistent, nothing inconsistent has
been logged, and the assertion about the closest member does not fail in the next call either. -/
theorem good_run (hC : C.Lawful magic) (hs : Good C s) {events : List SearchEvent}
    (h : run (step magic C) s events = some s') :
    s'.1.Consistent ∧ Quiet s'.2 ∧ ∀ e, s'.1.handle magic C e ≠ .error .closestMember := by
  have hgood : Good C s' := run_invariant' (fun s e s' ↦ good_step hC e) hs h
  refine ⟨hgood.1.toConsistent, hgood.2, fun e heq ↦ ?_⟩
  have hhandled := handle_handled e hC hgood.1
  rw [heq] at hhandled
  cases hhandled with
  | abort a ha => exact ha rfl

end SearchQuery

/-- **The search invariant.** After any sequence of calls on a `HandleClosestGeneric` or
`HandleMCGeneric` query, the containers are consistent; `handleForward` has neither failed to take an
average nor found its data inconsistent, and its assertion does not fail in any next call. -/
theorem search_run_invariant (magic : UInt32) (id : UInt64) (betaNumer betaDenom : UInt16)
    (srcNode : NodeIdentRendv) (events : List SearchEvent) :
    (∀ (kind : ReqClosestKind) (inRemote : List NodeIdent) (s : SearchQuery Unit × List Output),
      run (SearchQuery.step magic (handleClosest magic kind))
        (newClosest id betaNumer betaDenom srcNode inRemote, []) events = some s →
      s.1.Consistent ∧ SearchQuery.Quiet s.2 ∧
        ∀ e, s.1.handle magic (handleClosest magic kind) e ≠ .error .closestMember) ∧
    (∀ (kind : ReqConstraintKind) (inRemote : List NodeIdentConst)
        (s : SearchQuery UInt32 × List Output),
      run (SearchQuery.step magic (handleMC magic kind))
        (newMC id betaNumer betaDenom srcNode inRemote, []) events = some s →
      s.1.Consistent ∧ SearchQuery.Quiet s.2 ∧
        ∀ e, s.1.handle magic (handleMC magic kind) e ≠ .error .closestMember) :=
  ⟨fun kind _ _ h ↦ SearchQuery.good_run (handleClosest_lawful magic kind)
      ⟨SearchQuery.inv_new _ _ _ _ _ _, SearchQuery.quiet_nil⟩ h,
    fun kind _ _ h ↦ SearchQuery.good_run (handleMC_lawful magic kind)
      ⟨SearchQuery.inv_new _ _ _ _ _ _, SearchQuery.quiet_nil⟩ h⟩

/-- A process with one node in its rings and no cached latencies. -/
def oneRing (member : NodeIdent) (latencyUS : UInt32) : SearchEnv where
  getLatency := fun _ ↦ none
  rendv := ⟨0, 0⟩
  rings := { RingSet.new 4 4 with
    primaryRing := fun _ ↦ [member]
    nodeLatencyUS := Std.ExtTreeMap.ofList [(member, latencyUS)] }
  getRingNumber := fun _ ↦ 0

/-- A target at 1 ms, a ring member at 1 ms that has the target at 0.1 ms: the request is forwarded
to it. -/
theorem search_run_invariant_forwards :
    ∃ s, run (SearchQuery.step 7 (handleClosest 7 .tcp))
        (newClosest 5 1 2 ⟨9, 900, 0, 0⟩ [⟨1, 80⟩], [])
        [.init (oneRing ⟨3, 300⟩ 1000), .handleLatency (oneRing ⟨3, 300⟩ 1000) [⟨1, 80, 1000⟩],
          .handleLatency (oneRing ⟨3, 300⟩ 1000) [⟨3, 300, 0⟩, ⟨1, 80, 100⟩]] = some s ∧
      s.1.stateMachine = .waitForFin ∧ s.1.Consistent ∧ SearchQuery.Quiet s.2 ∧
      ∀ e, s.1.handle 7 (handleClosest 7 .tcp) e ≠ .error .closestMember := by
  have hstate : (run (SearchQuery.step 7 (handleClosest 7 .tcp))
      (newClosest 5 1 2 ⟨9, 900, 0, 0⟩ [⟨1, 80⟩], [])
      [.init (oneRing ⟨3, 300⟩ 1000), .handleLatency (oneRing ⟨3, 300⟩ 1000) [⟨1, 80, 1000⟩],
        .handleLatency (oneRing ⟨3, 300⟩ 1000) [⟨3, 300, 0⟩, ⟨1, 80, 100⟩]]).map
      (fun s ↦ s.1.stateMachine) = some .waitForFin := by
    decide +kernel
  obtain ⟨s, hs, hfin⟩ := Option.map_eq_some_iff.1 hstate
  exact ⟨s, hs, hfin, (search_run_invariant 7 5 1 2 ⟨9, 900, 0, 0⟩ _).1 .tcp [⟨1, 80⟩] s hs⟩

end Meridian

import Meridian.Query.SearchInvariant

/-!
# The decision of a search

`handleForward` looks for the ring member with the lowest average and compares it twice: with the
threshold, for whether the request is forwarded, and with the node's own average, for who is named
in the answer. This module says what the two comparisons come to.

The own average has been taken before, in `sendReqProbes` and by another function
(`getMaxAndMinAndAverage`). That it is the one `handleForward` would have taken is the invariant
`OwnAverage` of the query, and rests on `SearchClass.Agrees`.

The search starts at `UINT_MAX`, so a member whose average is `UINT_MAX` is never found. Nothing is
lost: no average is above it, and the threshold is below it (`latencyThreshold_lt`).
-/

namespace Meridian

open Lib

/-- The average of `sendReqProbes` is that of `handleForward`. -/
def SearchClass.Agrees {τ : Type} (C : SearchClass τ) : Prop :=
  ∀ {nodes : NodeMap τ} {latencies : NodeMap UInt32} {m : Measure},
    C.measure nodes latencies = some m → C.average nodes latencies = some m.average

theorem handleClosest_agrees (magic : UInt32) (kind : ReqClosestKind) :
    (handleClosest magic kind).Agrees := by
  intro nodes latencies m hmeasure
  change getMaxAndMinAndAverage latencies = some m at hmeasure
  show (getMaxAndAverage latencies).map Prod.snd = some m.average
  rw [getMaxAndMinAndAverage] at hmeasure
  rw [getMaxAndAverage]
  split at hmeasure
  · exact absurd hmeasure (by simp)
  · obtain rfl := Option.some.inj hmeasure
    rfl
  · obtain rfl := Option.some.inj hmeasure
    rfl

theorem handleMC_agrees (magic : UInt32) (kind : ReqConstraintKind) :
    (handleMC magic kind).Agrees := by
  intro nodes latencies m hmeasure
  obtain ⟨largestAdd, -, hmeasure⟩ := Option.bind_eq_some_iff.1 hmeasure
  obtain ⟨largestSub, -, hmeasure⟩ := Option.bind_eq_some_iff.1 hmeasure
  obtain ⟨average, haverage, hmeasure⟩ := Option.bind_eq_some_iff.1 hmeasure
  obtain rfl := Option.some.inj hmeasure
  exact haverage

namespace SearchQuery

variable {τ : Type} {magic : UInt32} {C : SearchClass τ} {q : SearchQuery τ}

/-! ### The closest member -/

/-- What the search knows of the lowest average: it is at most that of any member seen, and below
`UINT_MAX` it is that of the member it names. -/
structure LowestOf (C : SearchClass τ) (q : SearchQuery τ)
    (l : List (NodeIdent × NodeMap UInt32)) (best : UInt32 × NodeIdent × List Output) : Prop where
  le : ∀ e ∈ l, ∀ a, C.average q.remoteNodes e.2 = some a → best.1 ≤ a
  attained : best.1 < UINT_MAX →
    ∃ e ∈ l, e.1 = best.2.1 ∧ C.average q.remoteNodes e.2 = some best.1
  failed : ∀ o ∈ best.2.2, o = .error .average

theorem LowestOf.step {l : List (NodeIdent × NodeMap UInt32)}
    {best : UInt32 × NodeIdent × List Output} (h : LowestOf C q l best)
    (e : NodeIdent × NodeMap UInt32) : LowestOf C q (l ++ [e]) (q.lowestStep C best e) := by
  have hold : ∀ x ∈ l, x ∈ l ++ [e] := fun x hx ↦ List.mem_append_left _ hx
  rcases haverage : C.average q.remoteNodes e.2 with - | cur
  · -- the member is passed over
    refine ⟨fun x hx a ha ↦ ?_, fun hlt ↦ ?_, fun o ho ↦ ?_⟩
    · rw [lowestStep, haverage]
      rcases List.mem_append.1 hx with hx | hx
      · exact h.le x hx a ha
      · rw [List.mem_singleton.1 hx, haverage] at ha
        exact absurd ha (by simp)
    · rw [lowestStep, haverage] at hlt ⊢
      obtain ⟨x, hx, hfound⟩ := h.attained hlt
      exact ⟨x, hold x hx, hfound⟩
    · rw [lowestStep, haverage] at ho
      rcases List.mem_append.1 ho with ho | ho
      · exact h.failed o ho
      · exact List.mem_singleton.1 ho
  · rcases Decidable.em (cur < best.1) with hcur | hcur
    · have hstep : q.lowestStep C best e = (cur, e.1, best.2.2) := by
        simp only [lowestStep, haverage, if_pos hcur]
      rw [hstep]
      refine ⟨fun x hx a ha ↦ ?_, fun _ ↦ ⟨e, by simp, rfl, haverage⟩, h.failed⟩
      rcases List.mem_append.1 hx with hx | hx
      · exact UInt32.le_trans (UInt32.le_of_lt hcur) (h.le x hx a ha)
      · rw [List.mem_singleton.1 hx, haverage, Option.some.injEq] at ha
        exact ha ▸ UInt32.le_refl cur
    · have hstep : q.lowestStep C best e = best := by
        simp only [lowestStep, haverage, if_neg hcur]
      rw [hstep]
      refine ⟨fun x hx a ha ↦ ?_, fun hlt ↦ ?_, h.failed⟩
      · rcases List.mem_append.1 hx with hx | hx
        · exact h.le x hx a ha
        · rw [List.mem_singleton.1 hx, haverage, Option.some.injEq] at ha
          exact ha ▸ UInt32.not_lt.1 hcur
      · obtain ⟨x, hx, hfound⟩ := h.attained hlt
        exact ⟨x, hold x hx, hfound⟩

/-- **The search for the closest member**, over all of them. -/
theorem lowest_lowestOf (q : SearchQuery τ) : LowestOf C q q.ringLatencies.toList (q.lowest C) := by
  have hfold : ∀ (l seen : List (NodeIdent × NodeMap UInt32)) best, LowestOf C q seen best →
      LowestOf C q (seen ++ l) (l.foldl (q.lowestStep C) best) := by
    intro l
    induction l with
    | nil => simp
    | cons e l ih =>
      intro seen best h
      rw [List.append_cons]
      exact ih _ _ (h.step e)
  exact hfold _ [] _ ⟨fun e he ↦ absurd he List.not_mem_nil, fun h ↦ absurd h (by decide),
    fun o ho ↦ absurd ho List.not_mem_nil⟩

/-! ### The candidates -/

/-- The latencies to the targets of a node that can be named: the node itself (`none`), or a ring
member that has answered. -/
def latenciesOf (q : SearchQuery τ) : Option NodeIdent → Option (NodeMap UInt32)
  | none => some q.remoteLatencies
  | some n => q.ringLatencies[n]?

/-- The answer that names a node, the address 0 being the sender's own. -/
def answerOf (q : SearchQuery τ) (latencies : NodeMap UInt32) : Option NodeIdent → RetResponse
  | none => .new q.qid 0 0 latencies
  | some n => .new q.qid n.addr n.port latencies

/-- The node attains the minimum of the averages of the node itself and all members, and is the node
itself if that does. -/
structure Closest (C : SearchClass τ) (q : SearchQuery τ) (c : Option NodeIdent)
    (latencies : NodeMap UInt32) (average : UInt32) : Prop where
  latencies_eq : q.latenciesOf c = some latencies
  average_eq : C.average q.remoteNodes latencies = some average
  minimal : ∀ c' latencies' average', q.latenciesOf c' = some latencies' →
    C.average q.remoteNodes latencies' = some average' → average ≤ average'
  self : C.average q.remoteNodes q.remoteLatencies = some average → c = none

/-- The member attains the minimum of the averages of the members. -/
structure ClosestMember (C : SearchClass τ) (q : SearchQuery τ) (n : NodeIdent)
    (average : UInt32) : Prop where
  average_eq : ∃ latencies, q.ringLatencies[n]? = some latencies ∧
    C.average q.remoteNodes latencies = some average
  minimal : ∀ (n' : NodeIdent) (latencies' : NodeMap UInt32) average',
    q.ringLatencies[n']? = some latencies' →
    C.average q.remoteNodes latencies' = some average' → average ≤ average'

/-- What `handleForward` decides. A member of which no average can be taken is passed over. -/
inductive Decision (magic : UInt32) (C : SearchClass τ) (env : SearchEnv) (q : SearchQuery τ) :
    Except Abort (SearchQuery τ × List Output) → Prop where
  /-- The closest node is named, with its latencies. -/
  | answered (failed : List Output) (c : Option NodeIdent) (latencies : NodeMap UInt32)
      (average : UInt32) (created : Int × RealPacket)
      (hfailed : ∀ o ∈ failed, o = .error .average)
      (hclosest : Closest C q c latencies average)
      (hcreated : (q.answerOf latencies c).createRealPacket magic
        (RealPacket.new q.srcNode MAX_UDP_PACKET_SIZE) = some created) :
      Decision magic C env q (.ok ({ q with finished := true }, failed ++ sendPacket created))
  /-- The answer has too many entries for its loop to end. -/
  | endless (c : Option NodeIdent) (latencies : NodeMap UInt32)
      (hlatencies : q.latenciesOf c = some latencies) (hsize : 2 ^ 32 ≤ latencies.size) :
      Decision magic C env q (.error .endless)
  /-- The request for all targets goes to the closest member, with the rendavous on record. -/
  | forwarded (failed : List Output) (n : NodeIdent) (average : UInt32) (dest : NodeIdentRendv)
      (created : Int × RealPacket)
      (hfailed : ∀ o ∈ failed, o = .error .average)
      (hclosest : ClosestMember C q n average)
      (hdest : q.ringMembers[n]? = some dest)
      (hcreated : created = C.createReq q.qid q.betaNumer q.betaDenom env.rendv q.remoteNodes
        (RealPacket.new dest MAX_UDP_PACKET_SIZE))
      (hfits : created.1 ≠ -1) :
      Decision magic C env q (.ok ({ q with
        selectedMember := n
        timeoutUS := MAX_RTT_US
        stateMachine := .waitForFin }, failed ++ [.packet created.2]))
  /-- That request does not fit a packet, and nothing is sent. -/
  | dropped (failed : List Output) (dest : NodeIdentRendv)
      (hfailed : ∀ o ∈ failed, o = .error .average)
      (hfits : (C.createReq q.qid q.betaNumer q.betaDenom env.rendv q.remoteNodes
        (RealPacket.new dest MAX_UDP_PACKET_SIZE)).1 = -1) :
      Decision magic C env q (.ok ({ q with finished := true }, failed))

/-! ### The decision -/

/-- A lowest average below `UINT_MAX` is that of the member found. -/
theorem LowestOf.closestMember {best : UInt32 × NodeIdent × List Output}
    (h : LowestOf C q q.ringLatencies.toList best) (hlt : best.1 < UINT_MAX) :
    ClosestMember C q best.2.1 best.1 := by
  obtain ⟨e, he, hn, haverage⟩ := h.attained hlt
  refine ⟨⟨e.2, ?_, haverage⟩, fun n latencies a hget ha ↦ ?_⟩
  · rw [← hn]
    exact (Std.ExtTreeMap.mem_toList_iff_getElem?_eq_some (k := e.1) (v := e.2)).1 he
  · exact h.le (n, latencies) (Std.ExtTreeMap.mem_toList_iff_getElem?_eq_some.2 hget) a ha

theorem lt_UINT_MAX_of_lt {x y : UInt32} (h : x < y) : x < UINT_MAX := by
  have hy := y.toNat_lt
  rw [UInt32.lt_iff_toNat_lt] at h ⊢
  rw [show UINT_MAX.toNat = 4294967295 from rfl]
  omega

/-- **The answer** names the closest node. -/
theorem LowestOf.answer {best : UInt32 × NodeIdent × List Output}
    (h : LowestOf C q q.ringLatencies.toList best)
    (hown : C.average q.remoteNodes q.remoteLatencies = some q.averageLatUS) :
    ∃ c latencies average, Closest C q c latencies average ∧
      q.answer best.1 best.2.1 = .ok (q.answerOf latencies c) := by
  rcases Decidable.em (best.1 < q.averageLatUS) with hlt | hge
  · obtain ⟨⟨latencies, hget, haverage⟩, hmin⟩ := h.closestMember (lt_UINT_MAX_of_lt hlt)
    refine ⟨some best.2.1, latencies, best.1, ⟨hget, haverage, ?_, fun hself ↦ ?_⟩, ?_⟩
    · rintro (- | n) latencies' a hlatencies' ha
      · obtain rfl := Option.some.inj hlatencies'
        rw [hown, Option.some.injEq] at ha
        exact ha ▸ UInt32.le_of_lt hlt
      · exact hmin n latencies' a hlatencies' ha
    · -- the node itself is further away
      rw [hown, Option.some.injEq] at hself
      exact absurd (hself ▸ hlt) (UInt32.lt_irrefl _)
    · rw [SearchQuery.answer, if_pos hlt, hget]
      rfl
  · refine ⟨none, q.remoteLatencies, q.averageLatUS, ⟨rfl, hown, ?_, fun _ ↦ rfl⟩, ?_⟩
    · rintro (- | n) latencies' a hlatencies' ha
      · obtain rfl := Option.some.inj hlatencies'
        rw [hown, Option.some.injEq] at ha
        exact ha ▸ UInt32.le_refl _
      · have hle := h.le (n, latencies')
          (Std.ExtTreeMap.mem_toList_iff_getElem?_eq_some.2 hlatencies') a ha
        exact UInt32.le_trans (UInt32.not_lt.1 hge) hle
    · rw [SearchQuery.answer, if_neg hge]
      rfl

/-- The answer carries the latencies it was made with. -/
theorem length_targets_answerOf (q : SearchQuery τ) (latencies : NodeMap UInt32)
    (c : Option NodeIdent) : (q.answerOf latencies c).targets.length = latencies.size := by
  cases c with
  | none => exact length_targets_new ..
  | some n => exact length_targets_new ..

/-- **`handleForward` decides for the closest**, whatever the members have answered. -/
theorem handleForward_decision (env : SearchEnv)
    (hown : C.average q.remoteNodes q.remoteLatencies = some q.averageLatUS)
    (hmembers : ∀ n ∈ q.ringLatencies, n ∈ q.ringMembers) :
    Decision magic C env q (q.handleForward magic C env) := by
  have hlowest : LowestOf C q q.ringLatencies.toList (q.lowest C) := lowest_lowestOf q
  have hthreshold := latencyThreshold_lt q.betaNumer q.betaDenom q.averageLatUS
  rw [handleForward]
  generalize q.lowest C = best at *
  obtain ⟨lat, closest, failed⟩ := best
  dsimp only
  split
  · obtain ⟨c, latencies, average, hclosest, hanswer⟩ := hlowest.answer hown
    rw [hanswer]
    rcases sendResponse_cases magic q.srcNode (q.answerOf latencies c) with
      ⟨created, hcreated, hsent⟩ | ⟨hsize, hsent⟩
    · simp only [bind, Except.bind, hsent]
      exact .answered failed c latencies average created hlowest.failed hclosest hcreated
    · simp only [bind, Except.bind, hsent]
      exact .endless c latencies hclosest.latencies_eq (by rwa [length_targets_answerOf] at hsize)
  · rename_i hforward
    rw [not_or, UInt32.not_lt] at hforward
    -- the lowest average is at most the threshold, so it is that of a member
    have hclosest := hlowest.closestMember (UInt32.lt_of_le_of_lt hforward.2 hthreshold)
    obtain ⟨latencies, hget, -⟩ := hclosest.average_eq
    have hmem : closest ∈ q.ringLatencies :=
      Std.ExtTreeMap.mem_iff_isSome_getElem?.2 (Option.isSome_iff_exists.2 ⟨_, hget⟩)
    obtain ⟨dest, hdest⟩ := Option.isSome_iff_exists.1
      (Std.ExtTreeMap.mem_iff_isSome_getElem?.1 (hmembers closest hmem))
    simp only [forwardDest, hdest, List.append_nil]
    split
    · rename_i hfits
      exact .dropped failed dest hlowest.failed hfits
    · rename_i hfits
      exact .forwarded failed closest lat dest _ hlowest.failed hclosest hdest rfl hfits

/-! ### The own average -/

/-- Once ring members have been asked, `averageLatUS` is the average `handleForward` would take of
the node's own latencies. -/
def OwnAverage (C : SearchClass τ) (q : SearchQuery τ) : Prop :=
  q.stateMachine = .indirectPing → C.average q.remoteNodes q.remoteLatencies = some q.averageLatUS

/-- What a call leaves behind has its own average, if the call returns. -/
def Averaged (C : SearchClass τ) (r : Except Abort (SearchQuery τ × List Output)) : Prop :=
  ∀ q' outs, r = .ok (q', outs) → q'.OwnAverage C

theorem OwnAverage.averaged (h : q.OwnAverage C) (outs : List Output) :
    Averaged C (.ok (q, outs)) := by
  rintro _ _ ⟨⟩
  exact h

theorem averaged_error (a : Abort) : Averaged C (.error a) := by
  rintro _ _ ⟨⟩

theorem OwnAverage.of_ne (h : q.stateMachine ≠ .indirectPing) : q.OwnAverage C :=
  fun heq ↦ absurd heq h

theorem own_new (C : SearchClass τ) (id : UInt64) (betaNumer betaDenom : UInt16)
    (srcNode : NodeIdentRendv) (inRemote : List (NodeIdent × τ)) :
    OwnAverage C (SearchQuery.new id betaNumer betaDenom srcNode inRemote) :=
  .of_ne (by simp [SearchQuery.new])

theorem Probed.averaged (hC : C.Agrees) {r : Except Abort (SearchQuery τ × List Output)}
    (h : Probed magic C q r) (hown : q.OwnAverage C) : Averaged C r := by
  cases h with
  | notReady => exact hown.averaged []
  | failed _ _ => exact OwnAverage.averaged (q := { q with finished := true }) hown _
  | answered m members created _ hmeasure _ _ =>
    exact OwnAverage.averaged (q := { q.probing m members with finished := true })
      (fun _ ↦ hC hmeasure) _
  | endless _ => exact averaged_error _
  | probing m members _ hmeasure _ _ =>
    exact OwnAverage.averaged (q := q.probing m members) (fun _ ↦ hC hmeasure) _

theorem Decision.averaged {env : SearchEnv} {r : Except Abort (SearchQuery τ × List Output)}
    (h : Decision magic C env q r) (hown : q.OwnAverage C) : Averaged C r := by
  cases h with
  | answered failed c latencies average created _ _ _ =>
    exact OwnAverage.averaged (q := { q with finished := true }) hown _
  | endless _ _ _ _ => exact averaged_error _
  | forwarded failed n average dest created _ _ _ _ _ =>
    exact OwnAverage.averaged (OwnAverage.of_ne (by simp)) _
  | dropped failed dest _ _ =>
    exact OwnAverage.averaged (q := { q with finished := true }) hown _

theorem handleLatency_averaged (hC : C.Agrees) (env : SearchEnv) (results : List NodeIdentLat)
    (hinv : q.Inv C) (hown : q.OwnAverage C) :
    Averaged C (q.handleLatency magic C env results) := by
  have hidle : Averaged C (.ok (q, [])) := hown.averaged []
  rw [handleLatency.eq_def]
  split
  · exact hidle
  · rename_i hstate
    split
    · exact (sendReqProbes_cases env hinv.remote_subset).averaged hC hown
    · split
      · rename_i r
        split
        · exact hidle
        · rename_i hr
          have hkept := Kept.recordTarget hinv hstate (by simpa using hr) r.latencyUS
          have hnext : OwnAverage C { q with
              remoteLatencies := q.remoteLatencies.insert r.ident r.latencyUS } :=
            .of_ne (by simp [hstate])
          split
          · exact hidle
          · dsimp only
            split
            · exact hnext.averaged []
            · exact (sendReqProbes_cases env hkept.inv.remote_subset).averaged hC hnext
      · exact hidle
  · rename_i hstate
    split
    · exact hidle
    · rename_i src results
      split
      · exact hidle
      · rename_i hsrc
        split
        · exact hidle
        · split
          · exact hidle
          · rename_i latencies _
            split
            · exact hidle
            · have hnext : OwnAverage C { q with
                  ringLatencies := q.ringLatencies.insert src.ident latencies } := hown
              dsimp only
              split
              · exact hnext.averaged []
              · refine (handleForward_decision env (hnext hstate) fun n hn ↦ ?_).averaged hnext
                rcases mem_insert_iff.1 hn with rfl | hn
                · simpa using hsrc
                · exact hinv.ring_subset n hn
  · exact hidle

theorem init_averaged (hC : C.Agrees) (env : SearchEnv) (hinv : q.Inv C) :
    Averaged C (q.init magic C env) := by
  obtain ⟨hsub, -⟩ := startProbes_spec env.getLatency hinv.remote_subset
  rw [init]
  generalize startProbes env.getLatency q.remoteNodes q.remoteLatencies = started at *
  obtain ⟨latencies, probes⟩ := started
  dsimp only at hsub ⊢
  have hnext : OwnAverage C { q with
      remoteLatencies := latencies, stateMachine := .waitForDirectPing } := .of_ne (by simp)
  split
  · rename_i hsize
    have haveraged : Averaged C (sendReqProbes magic C env { q with
        remoteLatencies := latencies, stateMachine := .waitForDirectPing }) :=
      (sendReqProbes_cases env hsub).averaged hC hnext
    simp only [handleLatency, hsize, if_true]
    generalize sendReqProbes magic C env _ = r at *
    rcases r with a | ⟨q', outs⟩
    · exact averaged_error a
    · exact (haveraged q' outs rfl).averaged _
  · exact hnext.averaged _

/-- A packet leaves the query as it is, but for its end. -/
theorem handleEvent_eq_ok {inRemote : NodeIdent} {inPacket : List UInt8} {q' : SearchQuery τ}
    {outs : List Output} (h : q.handleEvent magic C inRemote inPacket = .ok (q', outs)) :
    ∃ done, q' = { q with finished := done } := by
  have hkeep (r : Except Abort (List Output)) (done : Bool) :
      (r >>= fun sent ↦ pure ({ q with finished := done }, sent)) = .ok (q', outs) →
        ∃ done, q' = { q with finished := done } := by
    rcases r with a | sent
    · rintro ⟨⟩
    · rintro ⟨⟩
      exact ⟨done, rfl⟩
  have hsame (outs' : List Output) (done : Bool) :
      (.ok ({ q with finished := done }, outs') : Except Abort _) = .ok (q', outs) →
        ∃ done, q' = { q with finished := done } := by
    rintro ⟨⟩
    exact ⟨done, rfl⟩
  rw [handleEvent] at h
  split at h
  · split at h
    · exact absurd h (by simp)
    · split at h
      · exact hkeep _ _ h
      · split at h
        · split at h
          · split at h
            · exact hsame _ _ h
            · exact hkeep _ _ h
          · split at h
            · split at h <;> exact hsame _ _ h
            · split at h
              · split at h <;> exact hsame _ _ h
              · exact hsame _ _ h
        · exact hsame _ _ h
  · exact hsame _ _ h

theorem handle_averaged (hC : C.Agrees) (e : SearchEvent) (hinv : q.Inv C)
    (hown : q.OwnAverage C) : Averaged C (q.handle magic C e) := by
  cases e with
  | init env => exact init_averaged hC env hinv
  | handleLatency env results => exact handleLatency_averaged hC env results hinv hown
  | handleEvent inRemote inPacket =>
    intro q' outs h
    obtain ⟨done, rfl⟩ := handleEvent_eq_ok h
    exact hown
  | handleTimeout env =>
    show Averaged C (q.handleTimeout magic C env)
    have hdone : OwnAverage C { q with finished := true } := hown
    rw [handleTimeout]
    split
    · exact hdone.averaged _
    · exact hdone.averaged _
    · rename_i hstate
      exact (handleForward_decision env (hown hstate) hinv.ring_subset).averaged hown
    · exact hdone.averaged _

/-- The query has its own average throughout a run. -/
theorem own_run {s s' : SearchQuery τ × List Output} (hlawful : C.Lawful magic) (hC : C.Agrees)
    (hs : Good C s ∧ s.1.OwnAverage C) {events : List SearchEvent}
    (h : run (step magic C) s events = some s') : Good C s' ∧ s'.1.OwnAverage C := by
  refine run_invariant' (P := fun s ↦ Good C s ∧ s.1.OwnAverage C) ?_ hs h
  intro s e s' hs hstep
  obtain ⟨-, outs, hhandle, -⟩ := step_eq_some hstep
  exact ⟨good_step hlawful e hs.1 hstep, handle_averaged hC e hs.1.1 hs.2 s'.1 outs hhandle⟩

end SearchQuery

/-- **The decision is optimal.** In every reachable state in which ring members have been asked, and
for all latencies that members can have answered with, `handleForward` names the closest of the node
itself and the members, or forwards the request to the closest member. -/
theorem search_decision_optimal (magic : UInt32) (id : UInt64) (betaNumer betaDenom : UInt16)
    (srcNode : NodeIdentRendv) (events : List SearchEvent) :
    (∀ (kind : ReqClosestKind) (inRemote : List NodeIdent) (s : SearchQuery Unit × List Output),
      run (SearchQuery.step magic (handleClosest magic kind))
        (newClosest id betaNumer betaDenom srcNode inRemote, []) events = some s →
      s.1.stateMachine = .indirectPing →
      (∀ n ∈ s.1.ringLatencies, n ∈ s.1.ringMembers) ∧
        ∀ (env : SearchEnv) (ringLatencies : NodeMap (NodeMap UInt32)),
          (∀ n ∈ ringLatencies, n ∈ s.1.ringMembers) →
          SearchQuery.Decision magic (handleClosest magic kind) env
            { s.1 with ringLatencies := ringLatencies }
            (SearchQuery.handleForward magic (handleClosest magic kind) env
              { s.1 with ringLatencies := ringLatencies })) ∧
    (∀ (kind : ReqConstraintKind) (inRemote : List NodeIdentConst)
        (s : SearchQuery UInt32 × List Output),
      run (SearchQuery.step magic (handleMC magic kind))
        (newMC id betaNumer betaDenom srcNode inRemote, []) events = some s →
      s.1.stateMachine = .indirectPing →
      (∀ n ∈ s.1.ringLatencies, n ∈ s.1.ringMembers) ∧
        ∀ (env : SearchEnv) (ringLatencies : NodeMap (NodeMap UInt32)),
          (∀ n ∈ ringLatencies, n ∈ s.1.ringMembers) →
          SearchQuery.Decision magic (handleMC magic kind) env
            { s.1 with ringLatencies := ringLatencies }
            (SearchQuery.handleForward magic (handleMC magic kind) env
              { s.1 with ringLatencies := ringLatencies })) := by
  constructor
  · intro kind inRemote s hrun hstate
    obtain ⟨hgood, hown⟩ := SearchQuery.own_run (handleClosest_lawful magic kind)
      (handleClosest_agrees magic kind)
      ⟨⟨SearchQuery.inv_new _ _ _ _ _ _, SearchQuery.quiet_nil⟩, SearchQuery.own_new _ _ _ _ _ _⟩ hrun
    exact ⟨hgood.1.ring_subset, fun env ringLatencies hmembers ↦
      SearchQuery.handleForward_decision env (hown hstate) hmembers⟩
  · intro kind inRemote s hrun hstate
    obtain ⟨hgood, hown⟩ := SearchQuery.own_run (handleMC_lawful magic kind)
      (handleMC_agrees magic kind)
      ⟨⟨SearchQuery.inv_new _ _ _ _ _ _, SearchQuery.quiet_nil⟩, SearchQuery.own_new _ _ _ _ _ _⟩ hrun
    exact ⟨hgood.1.ring_subset, fun env ringLatencies hmembers ↦
      SearchQuery.handleForward_decision env (hown hstate) hmembers⟩

/-- One ring member has answered, about one target. -/
def oneAnswer (member target : NodeIdent) (latencyUS : UInt32) : NodeMap (NodeMap UInt32) :=
  Std.ExtTreeMap.ofList [(member, Std.ExtTreeMap.ofList [(target, latencyUS)])]

/-- A target at 1 ms and a ring member that is asked: it may answer that it has the target at
0.1 ms. -/
theorem search_decision_optimal_asked :
    ∃ s, run (SearchQuery.step 7 (handleClosest 7 .tcp))
        (newClosest 5 1 2 ⟨9, 900, 0, 0⟩ [⟨1, 80⟩], [])
        [.init (oneRing ⟨3, 300⟩ 1000), .handleLatency (oneRing ⟨3, 300⟩ 1000) [⟨1, 80, 1000⟩]] =
          some s ∧
      SearchQuery.Decision 7 (handleClosest 7 .tcp) (oneRing ⟨3, 300⟩ 1000)
        { s.1 with ringLatencies := oneAnswer ⟨3, 300⟩ ⟨1, 80⟩ 100 }
        (SearchQuery.handleForward 7 (handleClosest 7 .tcp) (oneRing ⟨3, 300⟩ 1000)
          { s.1 with ringLatencies := oneAnswer ⟨3, 300⟩ ⟨1, 80⟩ 100 }) := by
  have hstate : (run (SearchQuery.step 7 (handleClosest 7 .tcp))
      (newClosest 5 1 2 ⟨9, 900, 0, 0⟩ [⟨1, 80⟩], [])
      [.init (oneRing ⟨3, 300⟩ 1000), .handleLatency (oneRing ⟨3, 300⟩ 1000) [⟨1, 80, 1000⟩]]).map
      (fun s ↦ (s.1.stateMachine, s.1.ringMembers.keys)) = some (.indirectPing, [⟨3, 300⟩]) := by
    decide +kernel
  obtain ⟨s, hs, hasked⟩ := Option.map_eq_some_iff.1 hstate
  rw [Prod.mk.injEq] at hasked
  refine ⟨s, hs, ((search_decision_optimal 7 5 1 2 ⟨9, 900, 0, 0⟩ _).1 .tcp [⟨1, 80⟩] s hs
    hasked.1).2 _ _ fun n hn ↦ ?_⟩
  have hkeys : (oneAnswer ⟨3, 300⟩ ⟨1, 80⟩ 100).keys = [⟨3, 300⟩] := by decide +kernel
  rw [← Std.ExtTreeMap.mem_keys, hkeys] at hn
  rw [← Std.ExtTreeMap.mem_keys, hasked.2]
  exact hn

end Meridian

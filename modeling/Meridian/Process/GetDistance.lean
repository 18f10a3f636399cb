import Meridian.Query.Distance

/-!
# `get_distance`

A `HandleGetDistanceGeneric` with the probes that it has created, from `init` until it returns its
results. The answers of the probes arrive in any order, or not at all.

* A source that runs this program answers with the latencies of the targets, and in place of the
  target 0:0 with the latency and the address of the node that asks (`ReqProbeQuery.Answers`).
* `handleLatency` looks for the destinations as they were asked for. So the entry for 0:0 of a source
  other than the local node is never stored, although the source has reported it; and if the
  destinations contain the address of the asking node as well, the answer has an entry less than
  there are targets and is refused.
* `results_right_iff` says that nothing else goes wrong.
-/

namespace Meridian

open Lib BufferWrapper

/-! ### The query and its probes -/

/-- A probe of `HandleGetDistanceGeneric::init`. -/
inductive DistanceProbe where
  /-- `createReqSelfProbe`. -/
  | own (q : ReqProbeSelfQuery)
  /-- `createReqProbe`. -/
  | remote (q : ReqProbeQuery)

/-- An answer of a source that has arrived while its probe was waiting. The source knows the asking
node as `requester`. -/
structure Arrival where
  source : NodeIdent
  requester : NodeIdent
  nodes : List NodeIdentLat
  accepted : Bool
  deriving DecidableEq

/-- The query, its probes, the answers that have arrived, the first one first, and the results once
they are returned. -/
structure GetDistance where
  query : HandleGetDistance
  probes : List DistanceProbe
  arrivals : List Arrival
  returned : Option (List Measurement)

/-- What happens to the query or to the probe of source `i`. -/
inductive DistanceEvent where
  /-- A datagram with the id of the probe; a source sends it to `requester`. -/
  | packet (i : ℕ) (requester inRemote : NodeIdent) (inPacket : List UInt8)
  /-- A probe of the local node ends. -/
  | latency (i : ℕ) (inRemoteNodes : List NodeIdentLat)
  | probeTimeout (i : ℕ)
  | timeout

namespace GetDistance

variable (magic : UInt32)

/-- `returnResults`. -/
def returnResults (s : GetDistance) : GetDistance :=
  { s with query := { s.query with finished := true }, returned := some s.query.results }

/-- `notifyQLatency` of the query. -/
def notify (inRemoteNodes : List NodeIdentLat) (s : GetDistance) : GetDistance :=
  let (query, complete) := s.query.handleLatency inRemoteNodes
  let s := { s with query := query }
  if complete then s.returnResults else s

/-- The entries of an answer. -/
def entriesOf (inPacket : List UInt8) : List NodeIdentLat :=
  (parse (RetPing.parser magic) inPacket).elim [] RetPing.nodes

/-- A datagram reaches a probe. -/
def packet (i : ℕ) (requester inRemote : NodeIdent) (inPacket : List UInt8) (s : GetDistance) :
    GetDistance :=
  match s.probes[i]? with
  | some (.remote q) =>
    if q.finished then s
    else
      let told := q.told magic inRemote inPacket
      let s := { s with
        probes := s.probes.set i (.remote (q.handleEvent magic inRemote inPacket))
        arrivals :=
          if inRemote = q.srcNode.ident then
            s.arrivals ++ [⟨inRemote, requester, entriesOf magic inPacket, told.isSome⟩]
          else s.arrivals }
      told.elim s s.notify
  | _ => s

/-- A latency reaches the probe of the local node. -/
def latency (i : ℕ) (inRemoteNodes : List NodeIdentLat) (s : GetDistance) : GetDistance :=
  match s.probes[i]? with
  | some (.own q) =>
    if q.finished then s
    else
      let (q, told) := q.handleLatency inRemoteNodes
      let s := { s with probes := s.probes.set i (.own q) }
      told.elim s fun nodes ↦
        notify nodes { s with arrivals := s.arrivals ++ [⟨⟨0, 0⟩, ⟨0, 0⟩, nodes.tail, true⟩] }
  | _ => s

/-- `handleTimeout` of a probe. -/
def probeTimeout (i : ℕ) (s : GetDistance) : GetDistance :=
  match s.probes[i]? with
  | some (.own q) => { s with probes := s.probes.set i (.own q.handleTimeout) }
  | some (.remote q) => { s with probes := s.probes.set i (.remote { q with finished := true }) }
  | none => s

/-- What an event does. -/
def handle (s : GetDistance) : DistanceEvent → GetDistance
  | .packet i requester inRemote inPacket => s.packet magic i requester inRemote inPacket
  | .latency i inRemoteNodes => s.latency i inRemoteNodes
  | .probeTimeout i => s.probeTimeout i
  | .timeout => s.returnResults

/-- One event until the results are returned. -/
def step (s : GetDistance) (e : DistanceEvent) : Option GetDistance :=
  if s.query.finished then none else some (s.handle magic e)

/-- `destNodes`. -/
def destNodes (inRemote : List NodeIdentRendv) : NodeSet :=
  Std.ExtTreeSet.ofList (inRemote.map NodeIdentRendv.ident) compare

/-- The probe for a source. -/
def newProbe (kind : ReqMeasureKind) (destNodes : NodeSet) (id : UInt64) (src : NodeIdentRendv) :
    DistanceProbe :=
  if src.addr = 0 ∧ src.port = 0 then .own (ReqProbeSelfQuery.new id destNodes)
  else .remote (ReqProbeQuery.new id kind src destNodes)

/-- The query that a call creates, behind `init`. The probe of source `i` has the id `ids i`. -/
def start (kind : ReqMeasureKind) (ids : ℕ → UInt64) (inSrc inRemote : List NodeIdentRendv)
    (now : ℕ) (inTimeoutMS : UInt32) (inPrevQID : UInt64) : GetDistance :=
  let query := HandleGetDistance.new inSrc inRemote now inTimeoutMS inPrevQID
  let s := ⟨query, inSrc.zipIdx.map fun (src, i) ↦ newProbe kind (destNodes inRemote) (ids i) src,
    [], none⟩
  if inSrc = [] then s.notify [] else s

/-! ### What the results should be -/

/-- The latency that an answer reports for a destination, where 0:0 is the asking node. -/
def reported (a : Arrival) (dest : NodeIdent) : Option UInt32 :=
  (a.nodes.find? fun n ↦ n.ident = orSender a.requester dest).map NodeIdentLat.latencyUS

/-- The first answer of a source that has been accepted. -/
def firstAccepted (s : GetDistance) (src : NodeIdent) : Option Arrival :=
  s.arrivals.find? fun a ↦ a.accepted && a.source = src

/-- The promised entry: what the first accepted answer of the source reports for the destination, or
the greatest latency if the source never answered. -/
def Promised (s : GetDistance) (src dest : NodeIdent) (d : Binary64) : Prop :=
  (∃ a, s.firstAccepted src = some a ∧ (reported a dest).map distance = some d) ∨
    (∀ a ∈ s.arrivals, a.source ≠ src) ∧ d = distance UINT_MAX

/-- The promised results: a row for every source, an entry for every destination. -/
structure Right (inSrc inRemote : List NodeIdentRendv) (s : GetDistance)
    (results : List Measurement) : Prop where
  rows : results.map Measurement.node = inSrc
  columns : ∀ row ∈ results, row.distance.length = inRemote.length
  entry : ∀ (i k : ℕ) (src dest : NodeIdentRendv) (row : Measurement) (d : Binary64),
    inSrc[i]? = some src → inRemote[k]? = some dest → results[i]? = some row →
    row.distance[k]? = some d → s.Promised src.ident dest.ident d

/-- The destination 0:0 makes no difference: it is not asked for, or no source but the local node
answers, or what these sources report for it is just what the entry holds anyway. -/
def Unaffected (inSrc inRemote : List NodeIdentRendv) (s : GetDistance) : Prop :=
  (∃ dest ∈ inRemote, dest.ident = ⟨0, 0⟩) → ∀ src ∈ inSrc, src.ident ≠ ⟨0, 0⟩ →
    (∃ a ∈ s.arrivals, a.source = src.ident) →
    ∃ a, s.firstAccepted src.ident = some a ∧
      (a.requester = ⟨0, 0⟩ ∨ reported a ⟨0, 0⟩ = some UINT_MAX)

/-- Every source that answers runs this program, and has measured its targets. -/
def Genuine (rendvNode : NodeIdent) (s : GetDistance) : DistanceEvent → Prop
  | .packet i requester inRemote inPacket => ∀ q, s.probes[i]? = some (.remote q) →
      q.finished = false → inRemote = q.srcNode.ident →
      q.Answers magic rendvNode requester inPacket
  | _ => True

/-! ### The invariant -/

/-- The targets of a probe, and the latencies that it may have. -/
def ProbeSound (dests : NodeSet) : DistanceProbe → Prop
  | .own q => q.remoteNodes = dests ∧ ∀ n ∈ q.remoteLatencies, n ∈ dests
  | .remote q => q.remoteNodes = dests ∧ q.srcNode.ident ≠ ⟨0, 0⟩

/-- The entries of an answer: the targets as the source knows them. -/
structure ArrivalSound (dests : NodeSet) (a : Arrival) : Prop where
  nodes : ∃ m : NodeMap UInt32, a.nodes = latList m ∧
    (∀ n, n ∈ m ↔ ∃ d ∈ dests, n = orSender a.requester d) ∧
    (a.accepted = true ↔ m.size = dests.size)
  own : a.source = ⟨0, 0⟩ → a.requester = ⟨0, 0⟩

/-- What the loops have stored for a source and a destination. -/
def cell (s : GetDistance) (i k : ℕ) : UInt32 :=
  ((s.query.srcNodes[i]?.bind fun src ↦ s.firstAccepted src.ident).bind fun a ↦
    s.query.destNodesVect[k]?.bind (stored a.nodes)).getD UINT_MAX

/-- The invariant of the runs. -/
structure Inv (inSrc inRemote : List NodeIdentRendv) (s : GetDistance) : Prop where
  srcNodes : s.query.srcNodes = inSrc
  destNodesVect : s.query.destNodesVect = inRemote.map NodeIdentRendv.ident
  filled : s.query.Filled s.cell
  rows : ∀ i, i ∈ s.query.receivedRow ↔
    ∃ src, inSrc[i]? = some src ∧ (s.firstAccepted src.ident).isSome
  probes : ∀ p ∈ s.probes, ProbeSound (destNodes inRemote) p
  arrivals : ∀ a ∈ s.arrivals, ArrivalSound (destNodes inRemote) a
  returned : ∀ results, s.returned = some results →
    s.query.finished = true ∧ results = s.query.results

/-- A node that knows the asking node as 0:0 changes nothing. -/
theorem orSender_zero (n : NodeIdent) : orSender ⟨0, 0⟩ n = n := by
  rw [orSender]
  split
  · rename_i h
    cases n
    exact congrArg₂ NodeIdent.mk h.1.symm h.2.symm
  · rfl

theorem mem_destNodes {inRemote : List NodeIdentRendv} {n : NodeIdent} :
    n ∈ destNodes inRemote ↔ ∃ dest ∈ inRemote, dest.ident = n := by
  rw [destNodes, Std.ExtTreeSet.mem_ofList, List.contains_iff_mem, List.mem_map]

theorem size_destNodes_lt {inRemote : List NodeIdentRendv} (h : inRemote.length < 2 ^ 32) :
    (destNodes inRemote).size < 2 ^ 32 := by
  refine Std.ExtTreeSet.size_ofList_le.trans_lt ?_
  rwa [List.length_map]

section Steps

variable {magic : UInt32} {inSrc inRemote : List NodeIdentRendv} {s : GetDistance}

theorem Inv.returnResults (h : s.Inv inSrc inRemote) : s.returnResults.Inv inSrc inRemote :=
  ⟨h.srcNodes, h.destNodesVect, ⟨h.filled.length_eq, h.filled.getElem⟩, h.rows, h.probes,
    h.arrivals, fun _ hret ↦ ⟨rfl, (Option.some.inj hret).symm⟩⟩

theorem Inv.set_probe (h : s.Inv inSrc inRemote) (i : ℕ) {p : DistanceProbe}
    (hp : ProbeSound (destNodes inRemote) p) :
    Inv inSrc inRemote { s with probes := s.probes.set i p } := by
  refine ⟨h.srcNodes, h.destNodesVect, ⟨h.filled.length_eq, h.filled.getElem⟩, h.rows,
    fun p' hp' ↦ ?_, h.arrivals, h.returned⟩
  rcases List.mem_or_eq_of_mem_set hp' with hold | rfl
  · exact h.probes p' hold
  · exact hp

/-- **An answer that is refused** changes nothing. -/
theorem Inv.refuse (h : s.Inv inSrc inRemote) {a : Arrival} (ha : a.accepted = false)
    (hsound : ArrivalSound (destNodes inRemote) a) :
    Inv inSrc inRemote { s with arrivals := s.arrivals ++ [a] } := by
  have hfirst : firstAccepted { s with arrivals := s.arrivals ++ [a] } = s.firstAccepted := by
    funext src
    rw [firstAccepted, List.find?_append, List.find?_cons_of_neg (by simp [ha]), List.find?_nil,
      Option.or_none]
    rfl
  have hcell : cell { s with arrivals := s.arrivals ++ [a] } = s.cell := by
    funext i k
    rw [cell, hfirst]
    rfl
  refine ⟨h.srcNodes, h.destNodesVect, hcell ▸ h.filled, hfirst ▸ h.rows, h.probes,
    fun a' ha' ↦ ?_, h.returned⟩
  rcases List.mem_append.1 ha' with hold | hnew
  · exact h.arrivals a' hold
  · exact List.mem_singleton.1 hnew ▸ hsound

/-- What an accepted answer makes of the query, up to the rows that it writes. -/
theorem Inv.store (h : s.Inv inSrc inRemote) (hgoing : s.query.finished = false) {a : Arrival}
    (ha : a.accepted = true) (hsound : ArrivalSound (destNodes inRemote) a)
    {m : List UInt32} {r : Finset ℕ}
    (hfilled : HandleGetDistance.Filled { s.query with receivedRow := r, latencyMatrixUS := m }
      fun i k ↦
        if s.query.srcNodes[i]?.map NodeIdentRendv.ident = some a.source ∧
            i ∉ s.query.receivedRow then
          HandleGetDistance.update a.nodes s.query.destNodesVect[k]? (s.cell i k)
        else s.cell i k)
    (hmem : ∀ i, i ∈ r ↔
      i ∈ s.query.receivedRow ∨ s.query.srcNodes[i]?.map NodeIdentRendv.ident = some a.source) :
    Inv inSrc inRemote { s with
      query := { s.query with receivedRow := r, latencyMatrixUS := m }
      arrivals := s.arrivals ++ [a] } := by
  have hfirst (query : HandleGetDistance) (src : NodeIdent) :
      firstAccepted { s with query := query, arrivals := s.arrivals ++ [a] } src =
        (s.firstAccepted src).or (if a.source = src then some a else none) := by
    rw [firstAccepted, List.find?_append]
    refine congrArg (Option.or _) ?_
    by_cases hsrc : a.source = src
    · rw [List.find?_cons_of_pos (by simp [ha, hsrc]), if_pos hsrc]
    · rw [List.find?_cons_of_neg (by simp [hsrc]), if_neg hsrc, List.find?_nil]
  refine ⟨h.srcNodes, h.destNodesVect, ⟨hfilled.length_eq, fun i hi k hk ↦ ?_⟩, fun i ↦ ?_,
    h.probes, fun a' ha' ↦ ?_, fun results hret ↦ ?_⟩
  · refine (hfilled.getElem i hi k hk).trans (congrArg some ?_)
    obtain ⟨src, hsrc⟩ : ∃ src, s.query.srcNodes[i]? = some src :=
      ⟨_, List.getElem?_eq_getElem hi⟩
    have hrow : i ∈ s.query.receivedRow ↔ (s.firstAccepted src.ident).isSome := by
      rw [h.rows, ← h.srcNodes]
      simp [hsrc]
    simp only [cell, hsrc, Option.bind_some, hfirst, Option.map_some, Option.some.injEq, hrow]
    cases hold : s.firstAccepted src.ident with
    | some b => simp
    | none =>
      by_cases hsource : src.ident = a.source
      · simp [hsource, HandleGetDistance.update]
      · simp [hsource, Ne.symm hsource]
  · show i ∈ r ↔ _
    rw [hmem, h.rows, h.srcNodes]
    simp only [hfirst]
    cases hsrc : inSrc[i]? with
    | none => simp
    | some src =>
      cases hold : s.firstAccepted src.ident with
      | some b => simp [hold]
      | none =>
        by_cases hsource : src.ident = a.source
        · simp [hsource]
        · simp [hsource, Ne.symm hsource, hold]
  · rcases List.mem_append.1 ha' with hold | hnew
    · exact h.arrivals a' hold
    · exact List.mem_singleton.1 hnew ▸ hsound
  · exact absurd ((h.returned results hret).1.symm.trans hgoing) (by simp)

/-- **An answer that is accepted** fills the rows of its source, if they have none yet. -/
theorem Inv.accept (h : s.Inv inSrc inRemote) (hgoing : s.query.finished = false) {a : Arrival}
    (ha : a.accepted = true) (hsound : ArrivalSound (destNodes inRemote) a) :
    Inv inSrc inRemote (notify (⟨a.source.addr, a.source.port, 0⟩ :: a.nodes)
      { s with arrivals := s.arrivals ++ [a] }) := by
  rw [notify]
  dsimp only
  rw [HandleGetDistance.handleLatency.eq_def]
  by_cases hcomplete : s.query.complete = true
  · rw [if_pos hcomplete]
    have hrange : s.query.receivedRow = Finset.range s.query.srcNodes.length := by
      refine Finset.eq_of_subset_of_card_le (fun i hi ↦ ?_) ?_
      · obtain ⟨src, hsrc, -⟩ := (h.rows i).1 hi
        rw [Finset.mem_range, h.srcNodes]
        exact (List.getElem?_eq_some_iff.1 hsrc).1
      · rw [Finset.card_range]
        exact (of_decide_eq_true hcomplete).ge
    -- every row is there already
    have hin {i : ℕ} (hi : i < s.query.srcNodes.length) : i ∈ s.query.receivedRow := by
      rw [hrange]
      exact Finset.mem_range.2 hi
    refine (h.store hgoing ha hsound (m := s.query.latencyMatrixUS) (r := s.query.receivedRow)
      ⟨h.filled.length_eq, fun i hi k hk ↦ ?_⟩ fun i ↦ ⟨Or.inl, fun hi ↦ hi.elim id ?_⟩).returnResults
    · rw [if_neg fun hnew ↦ hnew.2 (hin hi)]
      exact h.filled.getElem i hi k hk
    · intro hsrc
      obtain ⟨src, hsrc, -⟩ := Option.map_eq_some_iff.1 hsrc
      exact hin (List.getElem?_eq_some_iff.1 hsrc).1
  · rw [if_neg hcomplete]
    dsimp only
    obtain ⟨hfilled, hmem⟩ := HandleGetDistance.storeRows_filled
      (⟨a.source.addr, a.source.port, 0⟩ : NodeIdentLat).ident a.nodes h.filled
    obtain ⟨m, r, hq⟩ := HandleGetDistance.storeRows_kept
      (⟨a.source.addr, a.source.port, 0⟩ : NodeIdentLat).ident a.nodes s.query
    have hstored : Inv inSrc inRemote { s with
        query := s.query.storeRows (⟨a.source.addr, a.source.port, 0⟩ : NodeIdentLat).ident a.nodes
        arrivals := s.arrivals ++ [a] } := by
      rw [hq] at hfilled hmem ⊢
      exact h.store hgoing ha hsound hfilled hmem
    split
    · exact hstored.returnResults
    · exact hstored

theorem Inv.packet (h : s.Inv inSrc inRemote) (hgoing : s.query.finished = false)
    {rendvNode : NodeIdent} {i : ℕ} {requester inRemote' : NodeIdent} {inPacket : List UInt8}
    (hlen : inRemote.length < 2 ^ 32)
    (hgenuine : Genuine magic rendvNode s (.packet i requester inRemote' inPacket)) :
    Inv inSrc inRemote (s.packet magic i requester inRemote' inPacket) := by
  rw [GetDistance.packet]
  split
  · rename_i q hq
    split
    · exact h
    · rename_i hwaiting
      obtain ⟨htargets, hsrc⟩ := h.probes (.remote q) (List.mem_of_getElem? hq)
      have hprobe := h.set_probe i (p := .remote (q.handleEvent magic inRemote' inPacket)) (by
        rw [ReqProbeQuery.handleEvent_eq]
        split
        · exact ⟨htargets, hsrc⟩
        · exact ⟨htargets, hsrc⟩)
      by_cases hfrom : inRemote' = q.srcNode.ident
      · subst hfrom
        have hsize : q.remoteNodes.size < 2 ^ 32 := htargets ▸ size_destNodes_lt hlen
        obtain ⟨latencies, hhead, hparse, hkeys⟩ :=
          (hgenuine q hq (by simpa using hwaiting) rfl).parse_eq hsize
        have hentries : entriesOf magic inPacket = latList latencies := by
          rw [entriesOf, hparse]
          rfl
        have hlength : (latList latencies).length = latencies.size := by
          rw [latList, List.length_map, Std.ExtTreeMap.length_toList]
        have hsound (accepted : Bool)
            (h : accepted = true ↔ latencies.size = (destNodes inRemote).size) :
            ArrivalSound (destNodes inRemote)
              ⟨q.srcNode.ident, requester, latList latencies, accepted⟩ :=
          ⟨⟨latencies, rfl, htargets ▸ hkeys, h⟩, fun hown ↦ absurd hown hsrc⟩
        have htold := ReqProbeQuery.told_eq hhead hparse (q := q)
        dsimp only at htold
        rw [hlength, htargets] at htold
        simp only [if_true, hentries]
        by_cases hall : latencies.size = (destNodes inRemote).size
        · rw [if_neg (not_not.2 hall)] at htold
          simp only [htold, Option.isSome_some, Option.elim_some]
          exact hprobe.accept hgoing rfl (hsound true (iff_of_true rfl hall))
        · rw [if_pos hall] at htold
          simp only [htold, Option.isSome_none, Option.elim_none]
          exact hprobe.refuse rfl (hsound false (iff_of_false (by simp) hall))
      · simp only [ReqProbeQuery.told_eq_none hfrom, if_neg hfrom, Option.elim_none]
        exact hprobe
  · exact h

theorem Inv.latency (h : s.Inv inSrc inRemote) (hgoing : s.query.finished = false) (i : ℕ)
    (inRemoteNodes : List NodeIdentLat) : Inv inSrc inRemote (s.latency i inRemoteNodes) := by
  rw [GetDistance.latency]
  split
  · rename_i q hq
    split
    · exact h
    · obtain ⟨htargets, hsub⟩ := h.probes (.own q) (List.mem_of_getElem? hq)
      obtain ⟨hkept, hlatencies, htold⟩ :=
        q.handleLatency_spec inRemoteNodes fun n hn ↦ htargets ▸ hsub n hn
      generalize q.handleLatency inRemoteNodes = r at *
      obtain ⟨q', told⟩ := r
      dsimp only at hkept hlatencies htold ⊢
      have hprobe := h.set_probe i (p := .own q')
        ⟨hkept.trans htargets, fun n hn ↦ htargets ▸ hlatencies n hn⟩
      cases told with
      | none => exact hprobe
      | some nodes =>
        obtain ⟨rfl, hsize⟩ := htold nodes rfl
        refine hprobe.accept hgoing (a := ⟨⟨0, 0⟩, ⟨0, 0⟩, latList q'.remoteLatencies, true⟩) rfl
          ⟨⟨q'.remoteLatencies, rfl, fun n ↦ ?_, iff_of_true rfl (htargets ▸ hsize)⟩, fun _ ↦ rfl⟩
        rw [mem_iff_mem_set hlatencies hsize, htargets]
        simp only [orSender_zero, exists_eq_right']
  · exact h

theorem Inv.probeTimeout (h : s.Inv inSrc inRemote) (i : ℕ) :
    Inv inSrc inRemote (s.probeTimeout i) := by
  rw [GetDistance.probeTimeout]
  split
  · rename_i q hq
    exact h.set_probe i (h.probes (.own q) (List.mem_of_getElem? hq))
  · rename_i q hq
    exact h.set_probe i (h.probes (.remote q) (List.mem_of_getElem? hq))
  · exact h

/-- **One event** keeps the invariant. -/
theorem Inv.step {rendvNode : NodeIdent} (hlen : inRemote.length < 2 ^ 32)
    (h : s.Inv inSrc inRemote) {e : DistanceEvent} (hgenuine : Genuine magic rendvNode s e)
    {s' : GetDistance} (hstep : s.step magic e = some s') : s'.Inv inSrc inRemote := by
  rw [GetDistance.step] at hstep
  split at hstep
  · exact absurd hstep (by simp)
  · rename_i hgoing
    obtain rfl := Option.some.inj hstep
    have hgoing : s.query.finished = false := by simpa using hgoing
    cases e with
    | packet i requester inRemote' inPacket => exact h.packet hgoing hlen hgenuine
    | latency i inRemoteNodes => exact h.latency hgoing i inRemoteNodes
    | probeTimeout i => exact h.probeTimeout i
    | timeout => exact h.returnResults

theorem inv_start (kind : ReqMeasureKind) (ids : ℕ → UInt64)
    (inSrc inRemote : List NodeIdentRendv) (now : ℕ) (inTimeoutMS : UInt32) (inPrevQID : UInt64) :
    (start kind ids inSrc inRemote now inTimeoutMS inPrevQID).Inv inSrc inRemote := by
  have hnew : Inv inSrc inRemote ⟨HandleGetDistance.new inSrc inRemote now inTimeoutMS inPrevQID,
      inSrc.zipIdx.map fun (src, i) ↦ newProbe kind (destNodes inRemote) (ids i) src, [], none⟩ := by
    refine ⟨rfl, rfl, ?_, fun i ↦ ?_, fun p hp ↦ ?_, fun a ha ↦ absurd ha List.not_mem_nil,
      fun results hret ↦ absurd hret (by simp)⟩
    · have hfilled := HandleGetDistance.filled_new inSrc inRemote now inTimeoutMS inPrevQID
      refine ⟨hfilled.length_eq, fun i hi k hk ↦ (hfilled.getElem i hi k hk).trans ?_⟩
      rw [cell]
      simp [firstAccepted]
    · simp [HandleGetDistance.new, firstAccepted]
    · obtain ⟨⟨src, i⟩, -, rfl⟩ := List.mem_map.1 hp
      dsimp only
      rw [newProbe]
      split
      · exact ⟨rfl, fun n hn ↦ absurd hn Std.ExtTreeMap.not_mem_empty⟩
      · rename_i hremote
        refine ⟨rfl, fun hzero ↦ hremote ?_⟩
        exact ⟨congrArg NodeIdent.addr hzero, congrArg NodeIdent.port hzero⟩
  rw [start]
  dsimp only
  split
  · rename_i hnil
    subst hnil
    exact hnew.returnResults
  · exact hnew

/-! ### What an answer reports -/

section Arrivals

variable {dests : NodeSet} {a : Arrival} {dest : NodeIdent}

theorem ArrivalSound.reported_isSome (h : ArrivalSound dests a) (hdest : dest ∈ dests) :
    (reported a dest).isSome := by
  obtain ⟨m, hnodes, hkeys, -⟩ := h.nodes
  rw [reported, find?_latList (List.Perm.of_eq hnodes), ← Std.ExtTreeMap.mem_iff_isSome_getElem?,
    hkeys]
  exact ⟨dest, hdest, rfl⟩

/-- For a destination that is not 0:0 the loops find what is reported. -/
theorem ArrivalSound.stored_eq_reported (h : ArrivalSound dests a)
    (hdest : a.requester = ⟨0, 0⟩ ∨ dest ≠ ⟨0, 0⟩) : stored a.nodes dest = reported a dest := by
  obtain ⟨m, hnodes, -, -⟩ := h.nodes
  have hsame : orSender a.requester dest = dest := by
    rcases hdest with hzero | hne
    · rw [hzero, orSender_zero]
    · exact if_neg fun hzero ↦ hne (by cases dest; exact congrArg₂ NodeIdent.mk hzero.1 hzero.2)
  rw [reported, find?_latList (List.Perm.of_eq hnodes), hnodes, stored_latList, hsame]

/-- The entry for 0:0 is not found. -/
theorem ArrivalSound.stored_zero (h : ArrivalSound dests a) (hne : a.requester ≠ ⟨0, 0⟩) :
    stored a.nodes ⟨0, 0⟩ = none := by
  obtain ⟨m, hnodes, hkeys, -⟩ := h.nodes
  rw [hnodes, stored_latList, Std.ExtTreeMap.getElem?_eq_none]
  rw [hkeys]
  rintro ⟨d, -, hd⟩
  rw [orSender] at hd
  split at hd
  · exact hne hd.symm
  · rename_i hzero
    exact hzero ⟨(congrArg NodeIdent.addr hd).symm, (congrArg NodeIdent.port hd).symm⟩

/-- Without the destination 0:0 every answer is accepted. -/
theorem ArrivalSound.accepted_eq (h : ArrivalSound dests a)
    (hself : a.requester = ⟨0, 0⟩ ∨ (⟨0, 0⟩ : NodeIdent) ∉ dests) : a.accepted = true := by
  obtain ⟨m, -, hkeys, haccepted⟩ := h.nodes
  refine haccepted.2 (size_eq_size_set fun n ↦ ?_)
  rw [hkeys]
  have hsame {d : NodeIdent} (hd : d ∈ dests) : orSender a.requester d = d := by
    rcases hself with hzero | hno
    · rw [hzero, orSender_zero]
    · refine if_neg fun hzero ↦ hno ?_
      rwa [show d = ⟨0, 0⟩ by cases d; exact congrArg₂ NodeIdent.mk hzero.1 hzero.2] at hd
  constructor
  · rintro ⟨d, hd, rfl⟩
    rwa [hsame hd]
  · exact fun hn ↦ ⟨n, hn, (hsame hn).symm⟩

end Arrivals

/-! ### The results -/

theorem mem_of_firstAccepted {src : NodeIdent} {a : Arrival} (h : s.firstAccepted src = some a) :
    a ∈ s.arrivals ∧ a.accepted = true ∧ a.source = src := by
  have hfound := List.find?_some h
  rw [Bool.and_eq_true, decide_eq_true_eq] at hfound
  exact ⟨List.mem_of_find?_eq_some h, hfound⟩

/-- An entry of the matrix, for a source that has been answered. -/
theorem Inv.cell_eq (h : s.Inv inSrc inRemote) {i k : ℕ} {src dest : NodeIdentRendv} {a : Arrival}
    (hsrc : inSrc[i]? = some src) (hdest : inRemote[k]? = some dest)
    (ha : s.firstAccepted src.ident = some a) :
    s.cell i k = (stored a.nodes dest.ident).getD UINT_MAX := by
  simp [cell, h.srcNodes, h.destNodesVect, hsrc, hdest, ha]

/-- An entry of the results. -/
theorem Inv.results_getElem (h : s.Inv inSrc inRemote) {i k : ℕ} {src dest : NodeIdentRendv}
    {row : Measurement} (hsrc : inSrc[i]? = some src) (hdest : inRemote[k]? = some dest)
    (hrow : s.query.results[i]? = some row) : row.distance[k]? = some (distance (s.cell i k)) := by
  rw [HandleGetDistance.results_eq h.filled, List.getElem?_map, List.getElem?_zipIdx, h.srcNodes,
    hsrc] at hrow
  obtain rfl := Option.some.inj hrow
  have hk : k < s.query.destNodesVect.length := by
    rw [h.destNodesVect, List.length_map]
    exact (List.getElem?_eq_some_iff.1 hdest).1
  simp [Measurement.distance, hk]

/-- **A promised entry**, unless the destination 0:0 makes a difference. -/
theorem Inv.promised (h : s.Inv inSrc inRemote) (hself : Unaffected inSrc inRemote s) {i k : ℕ}
    {src dest : NodeIdentRendv} (hsrc : inSrc[i]? = some src) (hdest : inRemote[k]? = some dest) :
    s.Promised src.ident dest.ident (distance (s.cell i k)) := by
  by_cases harrived : ∃ a ∈ s.arrivals, a.source = src.ident
  · obtain ⟨b, hb, hbsrc⟩ := harrived
    -- an answer that is accepted always is
    have hfirst (haccepted : ∀ a ∈ s.arrivals, a.source = src.ident → a.accepted = true) :
        ∃ a, s.firstAccepted src.ident = some a := by
      refine Option.isSome_iff_exists.1 (List.find?_isSome.2 ⟨b, hb, ?_⟩)
      rw [haccepted b hb hbsrc, hbsrc]
      simp
    obtain ⟨a, ha, hcase⟩ : ∃ a, s.firstAccepted src.ident = some a ∧
        ((a.requester = ⟨0, 0⟩ ∨ dest.ident ≠ ⟨0, 0⟩) ∨
          dest.ident = ⟨0, 0⟩ ∧ reported a ⟨0, 0⟩ = some UINT_MAX) := by
      by_cases hown : src.ident = ⟨0, 0⟩
      · obtain ⟨a, ha⟩ := hfirst fun a ha hasrc ↦
          (h.arrivals a ha).accepted_eq (.inl ((h.arrivals a ha).own (hasrc.trans hown)))
        obtain ⟨hmem, -, hasrc⟩ := mem_of_firstAccepted ha
        exact ⟨a, ha, .inl (.inl ((h.arrivals a hmem).own (hasrc.trans hown)))⟩
      · by_cases hzero : ∃ dest ∈ inRemote, dest.ident = ⟨0, 0⟩
        · obtain ⟨a, ha, hcase⟩ :=
            hself hzero src (List.mem_of_getElem? hsrc) hown ⟨b, hb, hbsrc⟩
          refine ⟨a, ha, ?_⟩
          by_cases hdest0 : dest.ident = ⟨0, 0⟩
          · exact hcase.imp .inl fun hmax ↦ ⟨hdest0, hmax⟩
          · exact .inl (.inr hdest0)
        · obtain ⟨a, ha⟩ := hfirst fun a ha _ ↦
            (h.arrivals a ha).accepted_eq (.inr (mt mem_destNodes.1 hzero))
          exact ⟨a, ha, .inl (.inr fun hdest0 ↦ hzero ⟨dest, List.mem_of_getElem? hdest, hdest0⟩)⟩
    refine .inl ⟨a, ha, ?_⟩
    obtain ⟨hmem, -, -⟩ := mem_of_firstAccepted ha
    have hsound := h.arrivals a hmem
    obtain ⟨v, hv⟩ := Option.isSome_iff_exists.1 (hsound.reported_isSome
      (mem_destNodes.2 ⟨dest, List.mem_of_getElem? hdest, rfl⟩))
    rw [h.cell_eq hsrc hdest ha]
    rcases hcase with hsame | ⟨hdest0, hmax⟩
    · rw [hsound.stored_eq_reported hsame, hv]
      rfl
    · by_cases hreq : a.requester = ⟨0, 0⟩
      · rw [hsound.stored_eq_reported (.inl hreq), hv]
        rfl
      · rw [hdest0, hsound.stored_zero hreq, hmax]
        rfl
  · have hno : s.firstAccepted src.ident = none := by
      rw [firstAccepted, List.find?_eq_none]
      intro a ha hfound
      rw [Bool.and_eq_true, decide_eq_true_eq] at hfound
      exact harrived ⟨a, ha, hfound.2⟩
    refine .inr ⟨fun a ha hasrc ↦ harrived ⟨a, ha, hasrc⟩, ?_⟩
    simp [cell, h.srcNodes, hsrc, hno]

/-- **The results are the promised ones** exactly if the destination 0:0 makes no difference. -/
theorem Inv.right_iff (h : s.Inv inSrc inRemote) :
    Right inSrc inRemote s s.query.results ↔ Unaffected inSrc inRemote s := by
  constructor
  · rintro hright ⟨dest, hdest, hzero⟩ src hsrc hremote ⟨b, hb, hbsrc⟩
    obtain ⟨i, hi⟩ := List.getElem?_of_mem hsrc
    obtain ⟨k, hk⟩ := List.getElem?_of_mem hdest
    obtain ⟨row, hrow⟩ : ∃ row, s.query.results[i]? = some row := by
      rw [HandleGetDistance.results_eq h.filled, List.getElem?_map, List.getElem?_zipIdx,
        h.srcNodes, hi]
      exact ⟨_, rfl⟩
    rcases hright.entry i k src dest row _ hi hk hrow (h.results_getElem hi hk hrow) with
      ⟨a, ha, hreported⟩ | ⟨hnever, -⟩
    · refine ⟨a, ha, or_iff_not_imp_left.2 fun hreq ↦ ?_⟩
      obtain ⟨hmem, -, -⟩ := mem_of_firstAccepted ha
      obtain ⟨v, hv, hdist⟩ := Option.map_eq_some_iff.1 hreported
      rw [h.cell_eq hi hk ha, hzero, (h.arrivals a hmem).stored_zero hreq] at hdist
      rw [← hzero, hv, distance_injective hdist]
      rfl
    · exact absurd hbsrc (hnever b hb)
  · intro hself
    refine ⟨?_, fun row hrow ↦ ?_, fun i k src dest row d hi hk hrow hd ↦ ?_⟩
    · rw [HandleGetDistance.results_eq h.filled, List.map_map, h.srcNodes]
      exact List.zipIdx_map_fst 0 inSrc
    · rw [HandleGetDistance.results_eq h.filled] at hrow
      obtain ⟨e, -, rfl⟩ := List.mem_map.1 hrow
      simp [Measurement.distance, h.destNodesVect]
    · obtain rfl := Option.some.inj (hd.symm.trans (h.results_getElem hi hk hrow))
      exact h.promised hself hi hk

end Steps

/-- **`get_distance` fills the right matrix** exactly if the destination 0:0 makes no difference: for
all sources, destinations and answers of sources that run this program, in any order. -/
theorem results_right_iff (magic : UInt32) (rendvNode : NodeIdent) (kind : ReqMeasureKind)
    (ids : ℕ → UInt64) (inSrc inRemote : List NodeIdentRendv) (now : ℕ) (inTimeoutMS : UInt32)
    (inPrevQID : UInt64) (hlen : inRemote.length < 2 ^ 32) (events : List DistanceEvent)
    (s : GetDistance)
    (hrun : run (step magic) (start kind ids inSrc inRemote now inTimeoutMS inPrevQID) events =
      some s)
    (hgenuine : AllSteps (Genuine magic rendvNode) (step magic)
      (start kind ids inSrc inRemote now inTimeoutMS inPrevQID) events)
    (results : List Measurement) (hret : s.returned = some results) :
    Right inSrc inRemote s results ↔ Unaffected inSrc inRemote s := by
  have h : s.Inv inSrc inRemote :=
    run_invariant (fun s e s' h hgenuine hstep ↦ h.step hlen hgenuine hstep)
      (inv_start kind ids inSrc inRemote now inTimeoutMS inPrevQID) hgenuine hrun
  rw [(h.returned results hret).2]
  exact h.right_iff

/-! ### Two calls -/

/-- A call of the node 7:70. The probe of source `i` has the id `5 + i`. -/
def callTo (inSrc inRemote : List NodeIdentRendv) : GetDistance :=
  start .tcp (fun i ↦ 5 + UInt64.ofNat i) inSrc inRemote 0 1000 3

/-- The request of a probe. -/
def requestOf (i : ℕ) (inRemote : List NodeIdentRendv) : ReqGeneric :=
  ⟨⟨Packet.new (5 + UInt64.ofNat i), 0, 0⟩, .tcp, inRemote.map NodeIdentRendv.ident⟩

/-- The packet of the request. -/
def requestPacket (i : ℕ) (src : NodeIdentRendv) (inRemote : List NodeIdentRendv) : RealPacket :=
  ((requestOf i inRemote).createRealPacket 7 (RealPacket.new src MAX_UDP_PACKET_SIZE)).2

/-- The source knows the asking node as 7:70, and has the latencies in its cache. -/
def measured (i : ℕ) (inRemote : List NodeIdentRendv) (getLatency : NodeIdent → Option UInt32) :
    MeasureQuery × List Output :=
  (MeasureQuery.new (5 + UInt64.ofNat i) ⟨7, 70, 0, 0⟩ (inRemote.map NodeIdentRendv.ident)).handle 7
    (.init getLatency)

/-- Its answer. -/
def answerOf (i : ℕ) (inRemote : List NodeIdentRendv) (getLatency : NodeIdent → Option UInt32) :
    RealPacket :=
  (RetPing.createRealPacket 7 (measured i inRemote getLatency).1.returnPacket
    (RealPacket.new ⟨7, 70, 0, 0⟩ MAX_UDP_PACKET_SIZE)).2

/-- The answer arrives. -/
def answered (i : ℕ) (src : NodeIdent) (inRemote : List NodeIdentRendv)
    (getLatency : NodeIdent → Option UInt32) : DistanceEvent :=
  .packet i ⟨7, 70⟩ src (answerOf i inRemote getLatency).payload

/-- An answer of this kind is genuine. -/
theorem genuine_answered {s : GetDistance} {i : ℕ} (src : NodeIdentRendv)
    {inRemote : List NodeIdentRendv} {getLatency : NodeIdent → Option UInt32}
    (hs : s.probes[i]? = some (.remote (ReqProbeQuery.new (5 + UInt64.ofNat i) .tcp src
      (destNodes inRemote))))
    (hne : inRemote.length ≠ 0)
    (hprobe : (ReqProbeQuery.new (5 + UInt64.ofNat i) .tcp src (destNodes inRemote)).init 7 ⟨0, 0⟩ =
      [.packet (requestPacket i src inRemote)])
    (hparse : parse (ReqGeneric.parser 7 .tcp) (requestPacket i src inRemote).payload =
      some (requestOf i inRemote))
    (hall : (measured i inRemote getLatency).1.remoteLatencies.size =
      (measured i inRemote getLatency).1.remoteNodes.size)
    (hreply : .packet (answerOf i inRemote getLatency) ∈ (measured i inRemote getLatency).2) :
    Genuine 7 ⟨0, 0⟩ s (answered i src.ident inRemote getLatency) := by
  intro q hq _ _
  obtain rfl := DistanceProbe.remote.inj (Option.some.inj (hs.symm.trans hq))
  refine ⟨requestPacket i src inRemote, answerOf i inRemote getLatency, MeasureQuery.new
    (5 + UInt64.ofNat i) ⟨7, 70, 0, 0⟩ (inRemote.map NodeIdentRendv.ident), getLatency, [],
    measured i inRemote getLatency, hprobe ▸ List.mem_singleton_self _, ?_, ?_, hall, hreply, rfl⟩
  · show handleMeasureReq 7 .tcp ⟨7, 70⟩ _ = _
    have hid : (requestOf i inRemote).retReqID = 5 + UInt64.ofNat i := Packet.retReqID_new _
    have hlen : ¬ (requestOf i inRemote).targets.length = 0 := by
      rwa [requestOf, List.length_map]
    rw [handleMeasureReq, hparse]
    dsimp only
    rw [if_neg hlen, hid]
    rfl
  · rw [run_cons, MeasureQuery.step, if_neg (by simp [MeasureQuery.new]), measured]
    generalize MeasureQuery.handle 7 _ _ = handled
    rfl

/-- What a probe is told does not concern the others. -/
theorem packet_probes {s : GetDistance} {i j : ℕ} (hij : i ≠ j) (requester inRemote : NodeIdent)
    (inPacket : List UInt8) :
    (s.packet 7 i requester inRemote inPacket).probes[j]? = s.probes[j]? := by
  have hnotify (nodes : List NodeIdentLat) (s : GetDistance) :
      (s.notify nodes).probes = s.probes := by
    rw [notify]
    dsimp only
    split
    · rfl
    · rfl
  rw [packet]
  split
  · split
    · rfl
    · next q _ _ =>
      dsimp only
      cases q.told 7 inRemote inPacket with
      | none => exact List.getElem?_set_ne hij
      | some nodes =>
        rw [Option.elim_some, hnotify]
        exact List.getElem?_set_ne hij
  · rfl

/-- The sources 9:80 and 10:80. -/
def twoSources : List NodeIdentRendv := [⟨9, 80, 0, 0⟩, ⟨10, 80, 0, 0⟩]

/-- The destinations 8:1 and 8:2. -/
def twoDests : List NodeIdentRendv := [⟨8, 1, 0, 0⟩, ⟨8, 2, 0, 0⟩]

/-- 10:80 answers first, with other latencies than 9:80. -/
def twoAnswers : List DistanceEvent :=
  [answered 1 ⟨10, 80⟩ twoDests fun n ↦ some (3000 + n.port.toUInt32),
    answered 0 ⟨9, 80⟩ twoDests fun n ↦ some (2000 + n.port.toUInt32)]

theorem genuine_twoAnswers :
    AllSteps (Genuine 7 ⟨0, 0⟩) (step 7) (callTo twoSources twoDests) twoAnswers := by
  refine ⟨genuine_answered ⟨10, 80, 0, 0⟩ rfl (by decide) (by decide +kernel)
    (by decide +kernel) (by decide +kernel) (by decide +kernel), fun s hs ↦ ⟨?_, fun _ _ ↦ trivial⟩⟩
  obtain rfl := Option.some.inj hs
  refine genuine_answered ⟨9, 80, 0, 0⟩ ?_ (by decide) (by decide +kernel)
    (by decide +kernel) (by decide +kernel) (by decide +kernel)
  exact packet_probes (by decide) _ _ _

/-- Each source fills its own row, whoever answers first. -/
theorem results_right_other : ∃ s, run (step 7) (callTo twoSources twoDests) twoAnswers = some s ∧
    Right twoSources twoDests s [⟨⟨9, 80, 0, 0⟩, [2001, 2002]⟩,
      ⟨⟨10, 80, 0, 0⟩, [3001, 3002]⟩] := by
  obtain ⟨s, hrun, hret⟩ : ∃ s, run (step 7) (callTo twoSources twoDests) twoAnswers = some s ∧
      s.returned = some [⟨⟨9, 80, 0, 0⟩, [2001, 2002]⟩,
        ⟨⟨10, 80, 0, 0⟩, [3001, 3002]⟩] := by
    have htest : (run (step 7) (callTo twoSources twoDests) twoAnswers).any (fun s ↦
        s.returned == some [⟨⟨9, 80, 0, 0⟩, [2001, 2002]⟩,
          ⟨⟨10, 80, 0, 0⟩, [3001, 3002]⟩]) = true := by decide +kernel
    obtain ⟨s, hrun, hret⟩ := (Option.any_eq_true ..).1 htest
    exact ⟨s, hrun, beq_iff_eq.1 hret⟩
  refine ⟨s, hrun, ?_⟩
  exact (results_right_iff 7 ⟨0, 0⟩ .tcp _ twoSources twoDests 0 1000 3 (by decide) twoAnswers s hrun
    genuine_twoAnswers _ hret).2 fun hzero ↦ absurd hzero (by decide)

/-- 9:80 answers with the latency of the asking node. -/
def selfAnswer : DistanceEvent := answered 0 ⟨9, 80⟩ [⟨0, 0, 0, 0⟩] fun _ ↦ some 2000

/-- **The entry for 0:0 is lost**: 9:80 has reported 2000 microseconds for the asking node. -/
theorem entry_for_self_lost :
    ∃ s results, run (step 7) (callTo [⟨9, 80, 0, 0⟩] [⟨0, 0, 0, 0⟩]) [selfAnswer] = some s ∧
      AllSteps (Genuine 7 ⟨0, 0⟩) (step 7) (callTo [⟨9, 80, 0, 0⟩] [⟨0, 0, 0, 0⟩]) [selfAnswer] ∧
      s.returned = some results ∧ ¬ Right [⟨9, 80, 0, 0⟩] [⟨0, 0, 0, 0⟩] s results := by
  have hgenuine : Genuine 7 ⟨0, 0⟩ (callTo [⟨9, 80, 0, 0⟩] [⟨0, 0, 0, 0⟩]) selfAnswer :=
    genuine_answered ⟨9, 80, 0, 0⟩ rfl (by decide) (by decide +kernel) (by decide +kernel)
      (by decide +kernel) (by decide +kernel)
  refine ⟨(callTo [⟨9, 80, 0, 0⟩] [⟨0, 0, 0, 0⟩]).handle 7 selfAnswer,
    [⟨⟨9, 80, 0, 0⟩, [UINT_MAX]⟩], rfl, ⟨hgenuine, fun _ _ ↦ trivial⟩, by decide +kernel,
    fun hright ↦ ?_⟩
  have hfirst : ((callTo [⟨9, 80, 0, 0⟩] [⟨0, 0, 0, 0⟩]).handle 7 selfAnswer).firstAccepted ⟨9, 80⟩ =
      some ⟨⟨9, 80⟩, ⟨7, 70⟩, [⟨7, 70, 2000⟩], true⟩ := by decide +kernel
  rcases hright.entry 0 0 _ _ _ _ rfl rfl rfl rfl with ⟨a, ha, hreported⟩ | ⟨hnever, -⟩
  · obtain rfl := Option.some.inj (hfirst.symm.trans ha)
    have hdist : distance 2000 = distance UINT_MAX := Option.some.inj hreported
    exact absurd (distance_injective hdist) (by decide)
  · obtain ⟨hmem, -, hsource⟩ := mem_of_firstAccepted hfirst
    exact hnever _ hmem hsource

end GetDistance

end Meridian

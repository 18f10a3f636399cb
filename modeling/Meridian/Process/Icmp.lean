import Meridian.Process.NullRead
import Meridian.Query.SearchInvariant

/-!
# The headers of packets that queries are told of

Two sockets lead to `notifyQPacket`. A datagram gets there once its header has been accepted.
`readICMPPacket` checks the IP and the ICMP header of an echo reply, takes a query id from its end,
and tells the query of the whole buffer: where the type of a packet would be is the first byte of
the IP header, and where the magic number would be are the protocol, the checksum of the IP header,
and the first byte of the sender's address.

A query that looks at the type of the packet is told of such a buffer if its id is in an echo reply,
and a search that waits for its end does not get past the assertion on the header.
-/

namespace Meridian

open Lib BufferWrapper MQL MQL.Value

variable {D : Type}

/-- `isFinished`. -/
def PacketQuery.isFinished : PacketQuery D → Bool
  | .node q => q.isFinished
  | .closest _ q => q.finished
  | .mc _ q => q.finished
  | .dslReq q => q.finished
  | .dslRecv t => t.finished

/-- The handler looks at the type of the packet. -/
def PacketQuery.readsType : PacketQuery D → Bool
  | .node (.other _) => false
  | .node _ => true
  | .closest _ q => q.stateMachine = .waitForFin
  | .mc _ q => q.stateMachine = .waitForFin
  | .dslReq _ => false
  | .dslRecv _ => true

/-- `HandleClosestGeneric` and `HandleMCGeneric`. -/
def PacketQuery.isSearch : PacketQuery D → Bool
  | .closest _ _ => true
  | .mc _ _ => true
  | _ => false

namespace Dispatch

/-! ### Echo replies -/

/-- `IPPROTO_ICMP`. -/
def IPPROTO_ICMP : UInt8 := 1

/-- `ICMP_ECHOREPLY`. -/
def ICMP_ECHOREPLY : UInt8 := 0

/-- `icmpPacketSize`: an IP header, an ICMP header and a query id. -/
def icmpPacketSize : ℕ := 20 + 8 + 8

/-- The checks of `readICMPPacket`, and the query id of a packet that passes them. -/
def icmpQueryID (icmpPort : UInt16) (buf : List UInt8) : Option UInt64 :=
  if buf.length ≠ icmpPacketSize then none
  -- `ip_header->protocol`, `icmp_header->type` and `icmp_header->un.echo.id`
  else if (buf.drop 9).headD 0 ≠ IPPROTO_ICMP then none
  else if (buf.drop 20).headD 0 ≠ ICMP_ECHOREPLY then none
  else if ofLe16 ((buf.drop 24).take 2) ≠ htons icmpPort then none
  else
    some (to64 (ntohl (ofLe32 ((buf.drop 28).take 4))) (ntohl (ofLe32 ((buf.drop 32).take 4))))

/-- `readICMPPacket`. The sender has an address, and no port. -/
def readICMPPacket (env : DispatchEnv D) (icmpPort : UInt16) (s : DispatchState D) (r : Received) :
    Except Fault (List (Action D)) :=
  match icmpQueryID icmpPort r.buf with
  | none => .ok []
  | some qidNo => notify env s { r with remoteNode := ⟨r.remoteNode.addr, 0⟩ } qidNo

/-! ### The queries that are told -/

/-- The queries whose handlers `notifyQPacket` calls. -/
def told (s : DispatchState D) : ℕ → UInt64 → List (PacketQuery D)
  | 0, _ => []
  | depth + 1, id =>
    match s.table[id]? with
    | none => []
    | some (.dslReq q) => .dslReq q :: told s depth q.recvQueryID
    | some q => [q]

/-- The queries that a datagram can reach. -/
def toldByDatagram (env : DispatchEnv D) (s : DispatchState D) (r : Received) :
    List (PacketQuery D) :=
  match parse (Packet.parseHeader env.magic) r.buf with
  | none => []
  | some (_, queryID) => told s (s.table.size + 1) queryID

/-- The queries that an ICMP packet reaches. -/
def toldByICMP (icmpPort : UInt16) (s : DispatchState D) (r : Received) : List (PacketQuery D) :=
  match icmpQueryID icmpPort r.buf with
  | none => []
  | some qidNo => told s (s.table.size + 1) qidNo

/-- A query that looks at the type of a packet has been told of one with an accepted header. -/
def TypeChecked (magic : UInt32) (buf : List UInt8) (qs : List (PacketQuery D)) : Prop :=
  ∀ q ∈ qs, q.readsType → (parse (Packet.parseHeader magic) buf).isSome

variable {magic : UInt32} {env : DispatchEnv D} {icmpPort : UInt16} {s : DispatchState D}
  {r : Received} {buf : List UInt8}

theorem searchEvent_of_state_ne {τ : Type} {C : SearchClass τ} {inRemote : NodeIdent}
    {q : SearchQuery τ} (hstate : q.stateMachine ≠ .waitForFin) :
    searchEvent magic C inRemote buf q = .ok (q, []) := if_neg hstate

/-- Where no query looks at the type, the packet does not matter. -/
theorem notifyQPacket_congr {depth : ℕ} {id : UInt64}
    (h : ∀ q ∈ told s depth id, q.readsType = false) (buf' : List UInt8) :
    notifyQPacket env s { r with buf := buf' } depth id = notifyQPacket env s r depth id := by
  induction depth generalizing id with
  | zero => rfl
  | succ depth ih =>
    rw [notifyQPacket, notifyQPacket]
    rw [told] at h
    cases hget : s.table[id]? with
    | none => rfl
    | some q =>
      rw [hget] at h
      cases q with
      | node q =>
        have hq := h _ (List.mem_singleton_self _)
        cases q with
        | other finished => rfl
        | _ => exact absurd hq (by simp [PacketQuery.readsType])
      | closest kind q =>
        have hq := h _ (List.mem_singleton_self _)
        have hstate : q.stateMachine ≠ .waitForFin := of_decide_eq_false hq
        dsimp only
        rw [searchEvent_of_state_ne hstate, searchEvent_of_state_ne hstate]
      | mc kind q =>
        have hq := h _ (List.mem_singleton_self _)
        have hstate : q.stateMachine ≠ .waitForFin := of_decide_eq_false hq
        dsimp only
        rw [searchEvent_of_state_ne hstate, searchEvent_of_state_ne hstate]
      | dslReq q =>
        dsimp only
        rw [ih fun q' hq' ↦ h q' (List.mem_cons_of_mem _ hq')]
      | dslRecv t =>
        exact absurd (h _ (List.mem_singleton_self _)) (by simp [PacketQuery.readsType])

/-! ### The assertion -/

theorem sendResponse_ne_header (magic : UInt32) (dest : NodeIdentRendv) (resp : RetResponse) :
    sendResponse magic dest resp ≠ .error .header := by
  rw [sendResponse]
  split <;> simp

/-- The assertion fails in a search that waits for its end, on a header that is not accepted. -/
theorem searchEvent_avoids_header {τ : Type} {C : SearchClass τ} {inRemote : NodeIdent}
    {q : SearchQuery τ}
    (h : q.stateMachine = .waitForFin → (parse (Packet.parseHeader magic) buf).isSome) :
    Avoids (.abort .header) (searchEvent magic C inRemote buf q) := by
  have hsend {β : Type} (dest : NodeIdentRendv) (resp : RetResponse)
      (f : List Output → Except Fault β) (hf : ∀ sent, Avoids (.abort .header) (f sent)) :
      Avoids (.abort .header) (ofAbort (sendResponse magic dest resp) >>= f) := by
    refine Avoids.bind ?_ hf
    have hne := sendResponse_ne_header magic dest resp
    cases hsent : sendResponse magic dest resp with
    | error a =>
      rw [hsent] at hne
      exact fun heq ↦ hne (congrArg _ (Fault.abort.inj (Except.error.inj heq)))
    | ok sent => exact avoids_ok _
  rw [searchEvent]
  split
  · rename_i hstate
    obtain ⟨⟨queryType, queryID⟩, hheader⟩ := Option.isSome_iff_exists.1 (h hstate)
    rw [hheader]
    dsimp only
    refine .ite (hsend _ _ _ fun _ ↦ avoids_ok _) <| .ite (.ite ?_ <| .ite ?_ <| .ite ?_ ?_) ?_
    · rw [isNone_check]
      exact Avoids.elim (avoids_ok _) fun _ ↦ hsend _ _ _ fun _ ↦ avoids_ok _
    · rw [isNone_check]
      exact Avoids.elim (avoids_ok _) fun _ ↦ avoids_ok _
    · rw [isNone_check]
      exact Avoids.elim (avoids_ok _) fun _ ↦ avoids_ok _
    · exact avoids_ok _
    · exact avoids_ok _
  · exact avoids_ok _

theorem notifyQPacket_avoids_header {depth : ℕ} {id : UInt64}
    (h : TypeChecked env.magic r.buf (told s depth id)) :
    Avoids (.abort .header) (notifyQPacket env s r depth id) := by
  induction depth generalizing id with
  | zero =>
    intro hdepth
    cases hdepth
  | succ depth ih =>
    rw [notifyQPacket]
    rw [told] at h
    cases hget : s.table[id]? with
    | none => exact avoids_ok _
    | some q =>
      rw [hget] at h
      cases q with
      | node q =>
        exact (nodeEvent_avoids (show Fault.abort .header ≠ .assertion by decide) _ _ _ _ _ _).bind
          fun _ ↦ avoids_ok _
      | closest kind q =>
        refine Avoids.bind (searchEvent_avoids_header fun hstate ↦ ?_) fun _ ↦ avoids_ok _
        exact h _ (List.mem_singleton_self _) (decide_eq_true hstate)
      | mc kind q =>
        refine Avoids.bind (searchEvent_avoids_header fun hstate ↦ ?_) fun _ ↦ avoids_ok _
        exact h _ (List.mem_singleton_self _) (decide_eq_true hstate)
      | dslReq q =>
        exact (ih fun q' hq' ↦ h q' (List.mem_cons_of_mem _ hq')).bind fun _ ↦ avoids_ok _
      | dslRecv t =>
        dsimp only
        rw [dslRecvEvent_eq]
        exact avoids_ok _

/-! ### The two entries -/

/-- No search is told of a packet with a header that is not accepted, and neither is another query
that looks at the type of a packet. -/
def HeaderChecked (magic : UInt32) (buf : List UInt8) (qs : List (PacketQuery D))
    (res : Except Fault (List (Action D))) : Prop :=
  Avoids (.abort .header) res ∧ TypeChecked magic buf qs

/-- A datagram is looked at before any query is told of it. -/
theorem headerChecked_datagram (env : DispatchEnv D) (s : DispatchState D) (r : Received) :
    HeaderChecked env.magic r.buf (toldByDatagram env s r) (handleNewPacket env s r) := by
  rw [HeaderChecked, toldByDatagram, handleNewPacket]
  cases hheader : parse (Packet.parseHeader env.magic) r.buf with
  | none => exact ⟨avoids_ok _, fun q hq ↦ absurd hq List.not_mem_nil⟩
  | some header =>
    have hchecked (qs : List (PacketQuery D)) : TypeChecked env.magic r.buf qs := by
      intro q _ _
      rw [hheader, Option.isSome_some]
    refine ⟨dispatch_avoids (fun _ ↦ ?_) (notifyQPacket_avoids_header (hchecked _)), hchecked _⟩
    -- a PUSH packet is for no query
    rw [handlePush]
    refine Avoids.bind ?_ fun p ↦ ?_
    · cases PushPacket.parse env.magic r.remoteNode r.buf with
      | none =>
        intro hnull
        cases hnull
      | some p => exact avoids_ok _
    · dsimp only
      split
      · exact avoids_ok _
      split <;> exact avoids_ok _

/-- A header is accepted for its magic number. -/
theorem isSome_parseHeader_iff (hlen : 13 ≤ buf.length) (hrange : InRange buf) :
    (parse (Packet.parseHeader magic) buf).isSome ↔ (buf.drop 9).take 4 = net32 magic := by
  constructor
  · intro h
    obtain ⟨header, hheader⟩ := Option.isSome_iff_exists.1 h
    obtain ⟨bs, tail, rfl, rfl⟩ := consumes_parse consumes_parseHeader hrange hheader
    rw [Packet.encode]
    simp [List.drop_append, List.take_append]
  · intro h
    obtain ⟨type, rest, rfl⟩ := List.exists_cons_of_length_pos (show 0 < buf.length by omega)
    have h1 : (rest.take 4).length = 4 := by
      rw [List.length_take]
      simp only [List.length_cons] at hlen
      omega
    have h2 : ((rest.drop 4).take 4).length = 4 := by
      rw [List.length_take, List.length_drop]
      simp only [List.length_cons] at hlen
      omega
    have hsplit : type :: rest = Packet.encode magic type
        ⟨htonl (ofLe32 (rest.take 4)), htonl (ofLe32 ((rest.drop 4).take 4))⟩ ++ rest.drop 12 := by
      show _ = type :: (le32 (ntohl (htonl _)) ++ (le32 (ntohl (htonl _)) ++ net32 magic)) ++ _
      rw [ntohl_htonl, ntohl_htonl, le32_ofLe32 h1, le32_ofLe32 h2, ← h]
      show type :: rest = type :: ((rest.take 4 ++ _) ++ _)
      rw [List.append_assoc, List.append_assoc, show rest.drop 12 = (rest.drop 8).drop 4 by simp,
        show ((type :: rest).drop 9) = rest.drop 8 from rfl, List.take_append_drop,
        show rest.drop 8 = (rest.drop 4).drop 4 by simp, List.take_append_drop,
        List.take_append_drop]
    rw [hsplit] at hrange ⊢
    rw [parse_parseHeader hrange, Option.isSome_some]

/-- The size of an echo reply is checked. -/
theorem length_of_icmpQueryID {id : UInt64} (h : icmpQueryID icmpPort buf = some id) :
    buf.length = icmpPacketSize := by
  rw [icmpQueryID] at h
  split at h
  · cases h
  · rename_i hlen
    exact not_not.1 hlen

/-- **The headers that queries are told of.** A datagram has an accepted header when a query is told
of it. An ICMP packet has one if the magic number is in its IP header, from the protocol to the
first byte of the sender's address; otherwise it must be dropped, or be for queries that do not look
at the type of a packet. -/
theorem headerChecked_iff (env : DispatchEnv D) (icmpPort : UInt16) (s : DispatchState D)
    (r : Received) :
    HeaderChecked env.magic r.buf (toldByDatagram env s r) (handleNewPacket env s r) ∧
      (HeaderChecked env.magic r.buf (toldByICMP icmpPort s r)
          (readICMPPacket env icmpPort s r) ↔
        ∀ qidNo, icmpQueryID icmpPort r.buf = some qidNo →
          (r.buf.drop 9).take 4 = net32 env.magic ∨
            ∀ q ∈ told s (s.table.size + 1) qidNo, q.readsType = false) := by
  refine ⟨headerChecked_datagram env s r, ?_⟩
  rw [HeaderChecked, toldByICMP, readICMPPacket]
  cases hid : icmpQueryID icmpPort r.buf with
  | none =>
    refine iff_of_true ⟨avoids_ok _, fun q hq ↦ absurd hq List.not_mem_nil⟩ fun qidNo h ↦ ?_
    cases h
  | some qidNo =>
    have hlen := length_of_icmpQueryID hid
    have hheader : (parse (Packet.parseHeader env.magic) r.buf).isSome ↔
        (r.buf.drop 9).take 4 = net32 env.magic := by
      refine isSome_parseHeader_iff ?_ ?_
      · rw [hlen]
        decide
      · rw [InRange, hlen]
        decide
    have htyped : TypeChecked env.magic r.buf (told s (s.table.size + 1) qidNo) ↔
        (r.buf.drop 9).take 4 = net32 env.magic ∨
          ∀ q ∈ told s (s.table.size + 1) qidNo, q.readsType = false := by
      rw [← hheader, TypeChecked]
      constructor
      · intro h
        refine or_iff_not_imp_left.2 fun hnot q hq ↦ ?_
        exact Bool.eq_false_iff.2 fun hreads ↦ hnot (h q hq hreads)
      · rintro (h | h) q hq hreads
        · exact h
        · exact absurd hreads (Bool.eq_false_iff.1 (h q hq))
    constructor
    · rintro ⟨-, h⟩ _ heq
      obtain rfl := Option.some.inj heq
      exact htyped.1 h
    · intro h
      have hchecked := htyped.2 (h qidNo rfl)
      exact ⟨notifyQPacket_avoids_header hchecked, hchecked⟩

/-! ### Runs of the process -/

/-- A query has been handled: a finished one leaves the table. -/
def store (s : DispatchState D) (id : UInt64) (q : PacketQuery D) : DispatchState D :=
  { s with table := if q.isFinished then s.table.erase id else s.table.insert id q }

/-- What an action leaves behind. -/
def perform (s : DispatchState D) : Action D → DispatchState D
  | .pushed fd p =>
    { s with rendvQueue := s.rendvQueue.insert fd ((s.rendvQueue[fd]?).getD [] ++ [p]) }
  | .rendvErased n => { s with rendvConnections := s.rendvConnections.erase n }
  | .handled id q rings => store { s with rings := rings } id q
  | .closest kind q => store s q.qid (.closest kind q)
  | .mc kind q => store s q.qid (.mc kind q)
  -- what is sent is not read again, and a query of another class is inserted by a step of its own
  | .output _ => s
  | .addNodeToRing _ => s
  | .measure _ => s
  | .thread _ _ _ _ => s

/-- What a handler of a search reads of the process. -/
def searchEnv (env : DispatchEnv D) (s : DispatchState D)
    (getLatency : NodeIdent → Option UInt32) : SearchEnv :=
  ⟨getLatency, env.rendv, s.rings, env.getRingNumber⟩

/-- A call of a search that is not for a packet. -/
def Internal (env : DispatchEnv D) (s : DispatchState D) : SearchEvent → Prop
  | .init v => ∃ getLatency, v = searchEnv env s getLatency
  | .handleLatency v _ => ∃ getLatency, v = searchEnv env s getLatency
  | .handleTimeout v => ∃ getLatency, v = searchEnv env s getLatency
  | .handleEvent _ _ => False

/-- The states of a process. Its rings change in calls of the `RingSet`, the searches in their
handlers, and the queries of other classes as they like. -/
inductive Reachable (env : DispatchEnv D) (icmpPort : UInt16) : DispatchState D → Prop where
  | start (primarySize secondarySize : UInt32) :
    Reachable env icmpPort ⟨RingSet.new primarySize secondarySize, ∅, ∅, ∅⟩
  | datagram {s : DispatchState D} {r : Received} {acts : List (Action D)} :
    Reachable env icmpPort s → handleNewPacket env s r = .ok acts →
      Reachable env icmpPort (acts.foldl perform s)
  | icmp {s : DispatchState D} {r : Received} {acts : List (Action D)} :
    Reachable env icmpPort s → readICMPPacket env icmpPort s r = .ok acts →
      Reachable env icmpPort (acts.foldl perform s)
  | closest {s : DispatchState D} {id : UInt64} {kind : ReqClosestKind} {q q' : SearchQuery Unit}
      {e : SearchEvent} {sent : List Output} :
    Reachable env icmpPort s → s.table[id]? = some (.closest kind q) → Internal env s e →
      q.handle env.magic (handleClosest env.magic kind) e = .ok (q', sent) →
        Reachable env icmpPort (store s id (.closest kind q'))
  | mc {s : DispatchState D} {id : UInt64} {kind : ReqConstraintKind} {q q' : SearchQuery UInt32}
      {e : SearchEvent} {sent : List Output} :
    Reachable env icmpPort s → s.table[id]? = some (.mc kind q) → Internal env s e →
      q.handle env.magic (handleMC env.magic kind) e = .ok (q', sent) →
        Reachable env icmpPort (store s id (.mc kind q'))
  | other {s : DispatchState D} {id : UInt64} {q : PacketQuery D} :
    Reachable env icmpPort s → (∀ q', s.table[id]? = some q' → q'.isSearch = false) →
      q.isSearch = false → Reachable env icmpPort (store s id q)
  | rings {s : DispatchState D} {c : RingSet.Call} {rings : RingSet} :
    Reachable env icmpPort s → s.rings.step env.getRingNumber c = some rings →
      Reachable env icmpPort { s with rings := rings }
  | connections {s : DispatchState D} (rendvConnections : NodeMap Int)
      (rendvQueue : Std.ExtTreeMap Int (List RealPacket)) :
    Reachable env icmpPort s →
      Reachable env icmpPort
        { s with rendvConnections := rendvConnections, rendvQueue := rendvQueue }

/-- A search of the table can go through all its steps before anything else happens. -/
theorem Reachable.run_closest {id : UInt64} {kind : ReqClosestKind} {q q' : SearchQuery Unit}
    {sent sent' : List Output} {events : List SearchEvent} (h : Reachable env icmpPort s)
    (hget : s.table[id]? = some (.closest kind q)) (hevents : ∀ e ∈ events, Internal env s e)
    (hrun : run (SearchQuery.step env.magic (handleClosest env.magic kind)) (q, sent) events =
      some (q', sent'))
    (hq' : q'.finished = false) :
    ∃ s', Reachable env icmpPort s' ∧ s'.table[id]? = some (.closest kind q') := by
  induction events generalizing s q sent with
  | nil =>
    obtain ⟨rfl, -⟩ := Prod.mk.inj (Option.some.inj hrun)
    exact ⟨s, h, hget⟩
  | cons e events ih =>
    obtain ⟨⟨q₁, sent₁⟩, hstep, hrest⟩ := run_cons_eq_some.1 hrun
    have hq₁ : q₁.finished = false := by
      cases events with
      | nil =>
        obtain ⟨rfl, -⟩ := Prod.mk.inj (Option.some.inj hrest)
        exact hq'
      | cons e' events =>
        -- a finished query takes no further step
        obtain ⟨_, hstep', -⟩ := run_cons_eq_some.1 hrest
        rw [SearchQuery.step] at hstep'
        by_contra hfin
        rw [if_pos (Bool.not_eq_false _ ▸ hfin)] at hstep'
        cases hstep'
    rw [SearchQuery.step] at hstep
    split at hstep
    · cases hstep
    split at hstep
    · cases hstep
    · rename_i q₂ outs hhandle
      obtain ⟨rfl, rfl⟩ := Prod.mk.inj (Option.some.inj hstep)
      have hnext := h.closest hget (hevents e (List.mem_cons_self ..)) hhandle
      have hstore : store s id (.closest kind q₂) =
          { s with table := s.table.insert id (.closest kind q₂) } := by
        rw [store, PacketQuery.isFinished, hq₁, if_neg Bool.false_ne_true]
      rw [hstore] at hnext
      refine ih hnext (by simp) (fun e' he' ↦ ?_) hrest
      exact hevents e' (List.mem_cons_of_mem _ he')

/-! ### A search that waits for its end -/

/-- A node whose magic number is 7. -/
def magicSeven : DispatchEnv UInt64 :=
  ⟨⟨7, ⟨0, 0⟩, fun _ _ _ ↦ 1, fun _ ↦ 0⟩, bitsXdr, fun _ _ ↦ none, fun _ ↦ -1, 3⟩

/-- The rings of a process that has measured one node. -/
def oneMember : RingSet :=
  ((RingSet.new 4 4).insertNode magicSeven.getRingNumber ⟨3, 300⟩ 1000).get (by decide)

/-- A request for the node that is closest to one target. -/
def closestRequest : Received :=
  ⟨[2, 0, 0, 0, 0, 0, 0, 0, 5, 0, 0, 0, 7, 0, 0, 0, 0, 0, 0, 0, 1, 0, 2, 0, 0, 0, 1, 0, 0, 0, 1, 0,
    80], ⟨9, 900⟩, 0, 0, []⟩

/-- An echo reply for the same query id. -/
def echoReply : Received :=
  ⟨[0x45, 0, 0, 36, 0, 0, 0, 0, 64, 1, 0, 0, 10, 0, 0, 1, 10, 0, 0, 2, 0, 0, 0, 0, 15, 124, 0, 0,
    0, 0, 0, 0, 0, 0, 0, 5], ⟨1, 0⟩, 0, 0, []⟩

theorem handleNewPacket_closestRequest :
    handleNewPacket magicSeven ⟨oneMember, ∅, ∅, ∅⟩ closestRequest =
      .ok [.closest .tcp (newClosest 5 1 2 ⟨9, 900, 0, 0⟩ [⟨1, 80⟩])] := by
  have hheader : parse (Packet.parseHeader magicSeven.magic) closestRequest.buf = some (2, 5) := by
    decide +kernel
  have hreq : parse (ReqClosestGeneric.parser magicSeven.magic .tcp) closestRequest.buf =
      some ⟨⟨Packet.new 5, 0, 0⟩, .tcp, 1, 2, [⟨1, 80⟩]⟩ := by
    decide +kernel
  rw [handleNewPacket, hheader]
  show dispatch magicSeven _ closestRequest 5 2 = _
  rw [dispatch]
  iterate 11 rw [if_neg (by decide)]
  rw [if_pos (by decide), handleClosestPacket, if_neg (by simp), hreq]
  rfl

/-- **The assertion that an echo reply reaches.** A search has forwarded its request when an echo
reply with its id comes in. -/
theorem echoReply_aborts : ¬ ∀ (env : DispatchEnv UInt64) (icmpPort : UInt16)
    (s : DispatchState UInt64) (r : Received), Reachable env icmpPort s →
      HeaderChecked env.magic r.buf (toldByDatagram env s r) (handleNewPacket env s r) ∧
        HeaderChecked env.magic r.buf (toldByICMP icmpPort s r)
          (readICMPPacket env icmpPort s r) := by
  intro h
  have hrings : Reachable magicSeven 3964 ⟨oneMember, ∅, ∅, ∅⟩ :=
    (Reachable.start 4 4).rings (c := .insertNode ⟨3, 300⟩ 1000) (Option.some_get _).symm
  have hinserted := hrings.datagram handleNewPacket_closestRequest
  set s := List.foldl perform _ _
  have hget : s.table[(5 : UInt64)]? =
      some (.closest .tcp (newClosest 5 1 2 ⟨9, 900, 0, 0⟩ [⟨1, 80⟩])) :=
    Std.ExtTreeMap.getElem?_insert_self
  -- its own probe and the answer of the ring member come in
  let env := searchEnv magicSeven s fun _ ↦ none
  let events : List SearchEvent := [.init env, .handleLatency env [⟨1, 80, 1000⟩],
    .handleLatency env [⟨3, 300, 0⟩, ⟨1, 80, 100⟩]]
  have hrun : (run (SearchQuery.step 7 (handleClosest 7 .tcp))
      (newClosest 5 1 2 ⟨9, 900, 0, 0⟩ [⟨1, 80⟩], []) events).map
        (fun s ↦ (s.1.stateMachine, s.1.finished)) = some (.waitForFin, false) := by
    decide +kernel
  obtain ⟨⟨q, sent⟩, hq, hfields⟩ := Option.map_eq_some_iff.1 hrun
  obtain ⟨hstate, hfin⟩ := Prod.mk.inj hfields
  have hevents : ∀ e ∈ events, Internal magicSeven s e := by
    simp [events, env, Internal]
  obtain ⟨s', hs', hget'⟩ := hinserted.run_closest hget hevents hq hfin
  obtain ⟨-, havoids, -⟩ := h magicSeven 3964 s' echoReply hs'
  have hid : icmpQueryID 3964 echoReply.buf = some 5 := by decide +kernel
  -- the magic number is not in the IP header
  have hheader : parse (Packet.parseHeader magicSeven.magic) echoReply.buf = none := by
    decide +kernel
  refine havoids ?_
  rw [readICMPPacket, hid]
  show notifyQPacket _ _ _ _ _ = _
  rw [notifyQPacket, hget']
  dsimp only
  rw [searchEvent, if_pos hstate, hheader]
  rfl

end Dispatch

end Meridian

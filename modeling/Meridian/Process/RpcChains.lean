import Meridian.Lib.Run
import Meridian.MQL.ValueCodec
import Meridian.Process.RpcRequest

/-!
# Chains of remote calls

A network of nodes that run programs for each other. An execution is a thread that a `DSL_REQUEST`
has started; while it is alive it may call `rpc` at any time, with any arguments, which puts another
request on its way.

* Every datagram that has been sent may arrive at any node, at any time, any number of times, or
  never. A rendavous delays a datagram and does not change it. Any bytes may be sent from outside.
* What else the nodes send does not have the type of a request, and is left out; so is a request
  whose thread is refused an id, as one that has been lost.
* Executions and datagrams are kept in the order in which they were made, for the statements: an
  execution knows the one whose request has started it, and a datagram its sender.

Every request in flight that a thread has sent carries a ttl of one less than that thread's, so the
ttl counts down along every chain of executions.
-/

namespace Meridian

open Lib BufferWrapper MQL MQL.Value

/-! ### Which packets start a thread -/

namespace Dispatch

variable {D : Type} {env : DispatchEnv D} {s : DispatchState D} {r : Received}
  {queryID : UInt64} {queryType : UInt8}

/-- The time and the ttl of a thread that is started. -/
def thread? : Action D → Option (UInt16 × UInt16)
  | .thread _ _ timeoutMS ttl => some (timeoutMS, ttl)
  | _ => none

/-- No thread is started. -/
def StartsNone (res : Except Fault (List (Action D))) : Prop :=
  ∀ actions, res = .ok actions → ∀ a ∈ actions, thread? a = none

theorem startsNone_ok {actions : List (Action D)} (h : ∀ a ∈ actions, thread? a = none) :
    StartsNone (.ok actions) := by
  intro actions' heq
  cases heq
  exact h

theorem startsNone_error (e : Fault) : StartsNone (.error e : Except Fault (List (Action D))) :=
  nofun

theorem StartsNone.bind {α : Type} {res : Except Fault α} {f : α → Except Fault (List (Action D))}
    (h : ∀ a, StartsNone (f a)) : StartsNone (res >>= f) := by
  cases res with
  | error e => exact startsNone_error e
  | ok a => exact h a

theorem StartsNone.ite {c : Prop} [Decidable c] {res res' : Except Fault (List (Action D))}
    (h : StartsNone res) (h' : StartsNone res') : StartsNone (if c then res else res') := by
  split
  · exact h
  · exact h'

theorem startsNone_map {α : Type} {f : α → Action D} (hf : ∀ a, thread? (f a) = none)
    (l : List α) : ∀ a ∈ l.map f, thread? a = none := by
  intro a ha
  obtain ⟨b, -, rfl⟩ := List.mem_map.1 ha
  exact hf b

theorem startsNone_single {a : Action D} (h : thread? a = none) :
    StartsNone (.ok [a] : Except Fault (List (Action D))) :=
  startsNone_ok fun b hb ↦ by rw [List.mem_singleton.1 hb, h]

theorem notifyQPacket_startsNone (env : DispatchEnv D) (s : DispatchState D) (r : Received)
    (depth : ℕ) : ∀ id, StartsNone (notifyQPacket env s r depth id) := by
  induction depth with
  | zero => exact fun id ↦ startsNone_error _
  | succ depth ih =>
    intro id
    rw [notifyQPacket]
    split
    · exact startsNone_ok (by simp)
    · exact StartsNone.bind fun _ ↦ startsNone_single rfl
    · exact StartsNone.bind fun res ↦ startsNone_ok
        (List.forall_mem_cons.2 ⟨rfl, startsNone_map (fun _ ↦ rfl) res.2⟩)
    · exact StartsNone.bind fun res ↦ startsNone_ok
        (List.forall_mem_cons.2 ⟨rfl, startsNone_map (fun _ ↦ rfl) res.2⟩)
    · rename_i q _
      intro actions h
      have hih := ih q.recvQueryID
      cases hres : notifyQPacket env s r depth q.recvQueryID with
      | error e =>
        rw [hres] at h
        cases h
      | ok res =>
        rw [hres] at h
        cases h
        exact List.forall_mem_append.2 ⟨hih res hres, List.forall_mem_singleton.2 rfl⟩
    · exact StartsNone.bind fun _ ↦ startsNone_single rfl

theorem notify_startsNone : StartsNone (notify env s r queryID) :=
  notifyQPacket_startsNone env s r _ _

theorem handlePush_startsNone : StartsNone (handlePush env s r) := by
  rw [handlePush]
  refine StartsNone.bind fun p ↦ ?_
  dsimp only
  split
  · exact startsNone_ok (by simp)
  split
  · exact startsNone_single rfl
  · exact startsNone_single rfl

theorem handleGossip_startsNone (kind : GossipKind) : StartsNone (handleGossip env r kind) := by
  rw [handleGossip]
  refine StartsNone.ite (StartsNone.bind fun tmp ↦ startsNone_ok ?_) (startsNone_ok (by simp))
  exact List.forall_mem_append.2 ⟨startsNone_map (fun _ ↦ rfl) _, startsNone_map (fun _ ↦ rfl) _⟩

theorem handleMCPacket_startsNone (kind : ReqConstraintKind) :
    StartsNone (handleMCPacket env s r queryID kind) := by
  rw [handleMCPacket]
  exact notify_startsNone.ite (StartsNone.ite (StartsNone.bind fun _ ↦ startsNone_single rfl)
    (startsNone_ok (by simp)))

theorem handleClosestPacket_startsNone (kind : ReqClosestKind) :
    StartsNone (handleClosestPacket env s r queryID kind) := by
  rw [handleClosestPacket]
  exact notify_startsNone.ite (StartsNone.ite (StartsNone.bind fun _ ↦ startsNone_single rfl)
    (startsNone_ok (by simp)))

theorem handleMeasurePacket_startsNone (kind : ReqMeasureKind) :
    StartsNone (handleMeasurePacket env r kind) := by
  rw [handleMeasurePacket]
  refine StartsNone.ite (StartsNone.bind fun _ ↦ ?_) (startsNone_ok (by simp))
  exact StartsNone.ite (startsNone_ok (startsNone_map (fun _ ↦ rfl) _)) (startsNone_single rfl)

/-- A packet of any type but `DSL_REQUEST` starts no thread. -/
theorem dispatch_startsNone (hne : queryType ≠ DSL_REQUEST) :
    StartsNone (dispatch env s r queryID queryType) := by
  rw [dispatch, if_neg hne]
  refine handlePush_startsNone.ite <| StartsNone.ite (startsNone_ok (startsNone_map (fun _ ↦ rfl) _))
    <| (handleGossip_startsNone _).ite <| (handleGossip_startsNone _).ite ?_
  -- the searches
  refine (handleMCPacket_startsNone _).ite <| (handleMCPacket_startsNone _).ite <|
    (handleMCPacket_startsNone _).ite <| (handleMCPacket_startsNone _).ite ?_
  refine (handleClosestPacket_startsNone _).ite <| (handleClosestPacket_startsNone _).ite <|
    (handleClosestPacket_startsNone _).ite <| (handleClosestPacket_startsNone _).ite ?_
  -- the replies to queries of the table
  refine notify_startsNone.ite <| notify_startsNone.ite <| notify_startsNone.ite <|
    notify_startsNone.ite ?_
  -- the measurements
  refine (handleMeasurePacket_startsNone _).ite <| (handleMeasurePacket_startsNone _).ite <|
    (handleMeasurePacket_startsNone _).ite <| (handleMeasurePacket_startsNone _).ite ?_
  exact notify_startsNone.ite <| notify_startsNone.ite <| startsNone_ok (by simp)

/-- The thread that a request starts has the ttl of its header, which has been admitted. -/
theorem handleDSLRequest_thread {actions : List (Action D)} {a : Action D} {timeoutMS ttl : UInt16}
    (h : handleDSLRequest env r = .ok actions) (ha : a ∈ actions)
    (hta : thread? a = some (timeoutMS, ttl)) :
    ∃ pkt program u, DSLRequestPacket.parse env.magic env.xdr env.uncompress (newParserState r.buf) =
      some ((pkt, program), u) ∧ pkt.ttl = ttl ∧ ttl ≤ env.maxTTL := by
  rw [handleDSLRequest] at h
  dsimp only at h
  cases hparse : DSLRequestPacket.parse env.magic env.xdr env.uncompress (newParserState r.buf) with
  | none =>
    rw [hparse] at h
    cases h
    exact absurd ha List.not_mem_nil
  | some res =>
    obtain ⟨⟨pkt, program⟩, u⟩ := res
    rw [hparse] at h
    change (if env.maxTTL < pkt.ttl then Except.ok []
      else if env.yyparse program.text = -1 then .ok []
      else .ok [Action.thread (pkt.sender r.remoteNode) pkt.retReqID pkt.msRemain pkt.ttl]) = _ at h
    split at h
    · cases h
      exact absurd ha List.not_mem_nil
    split at h
    · cases h
      exact absurd ha List.not_mem_nil
    · rename_i hmax _
      cases h
      rw [List.mem_singleton.1 ha] at hta
      cases hta
      exact ⟨pkt, program, u, rfl, rfl, UInt16.not_lt.1 hmax⟩

/-- **The threads that a packet starts**: at most one, by a request with a ttl that is not too large. -/
theorem handleNewPacket_thread {actions : List (Action D)} {timeoutMS ttl : UInt16}
    (h : handleNewPacket env s r = .ok actions)
    (hthread : (timeoutMS, ttl) ∈ actions.filterMap thread?) :
    ∃ pkt program u, DSLRequestPacket.parse env.magic env.xdr env.uncompress (newParserState r.buf) =
      some ((pkt, program), u) ∧ pkt.ttl = ttl ∧ ttl ≤ env.maxTTL := by
  obtain ⟨a, ha, hta⟩ := List.mem_filterMap.1 hthread
  rw [handleNewPacket] at h
  split at h
  · cases h
    exact absurd ha List.not_mem_nil
  · rename_i queryType id _
    by_cases hne : queryType = DSL_REQUEST
    · subst hne
      exact handleDSLRequest_thread h ha hta
    · rw [dispatch_startsNone hne actions h a ha] at hta
      exact absurd hta (by simp)

end Dispatch

/-! ### Magic numbers -/

/-- The header of a request is accepted under the magic number that it has been written with. -/
theorem DSLRequestPacket.magic_eq_of_header {magic magic' : UInt32} {pkt pkt' : DSLRequestPacket}
    {rest : List UInt8} {bw : BufferWrapper} (hrange : InRange (pkt.encode magic ++ rest))
    (h : DSLRequestPacket.header magic' (.new (pkt.encode magic ++ rest)) = some (pkt', bw)) :
    magic = magic' := by
  obtain ⟨start, bw₁, hstart, h⟩ := bind_eq_some.1 h
  obtain ⟨_, bw₂, -, h⟩ := bind_eq_some.1 h
  obtain ⟨_, bw₃, -, h⟩ := bind_eq_some.1 h
  obtain ⟨_, bw₄, -, h⟩ := bind_eq_some.1 h
  obtain ⟨_, bw₅, -, h⟩ := bind_eq_some.1 h
  obtain ⟨_, bw₆, hcheck, -⟩ := bind_eq_some.1 h
  have hmagic : start.2 = magic' := by simpa using (nullIf_eq_some hcheck).2.1
  -- the start of the buffer is read as it has been written
  have hat := at_new hrange
  rw [DSLRequestPacket.encode, List.append_assoc] at hat
  obtain ⟨_, hread, -⟩ := (reads_parseStart DSL_REQUEST pkt.toPacket).full _ _ hat
  rw [← List.append_assoc, ← DSLRequestPacket.encode] at hread
  rw [hread] at hstart
  cases hstart
  exact hmagic

/-! ### The network -/

/-- The nodes, and the `compress` of zlib. -/
structure RpcNetwork (ι D : Type) where
  env : ι → DispatchEnv D
  compress : List UInt8 → Option (List UInt8)

/-- A thread that a request has started, while it runs and after. -/
structure Execution (ι : Type) where
  node : ι
  /-- The datagram with the request. -/
  request : ℕ
  ttl : UInt16
  timeoutTV : ℕ
  finished : Bool

/-- What is on its way, from a thread or from outside. -/
structure Datagram where
  bytes : List UInt8
  sender : Option ℕ

/-- The threads and the datagrams so far. -/
structure NetworkState (ι : Type) where
  executions : List (Execution ι)
  sent : List Datagram

inductive NetworkEvent (ι D : Type) where
  /-- Any bytes arrive from outside. -/
  | external (bytes : List UInt8)
  /-- A datagram is received by a node that is in some state. -/
  | deliver (i : ι) (m : ℕ) (s : DispatchState D) (r : Received) (curTime : ℕ)
  /-- A thread calls `rpc`. -/
  | rpc (p : ℕ) (curTime : ℕ) (qid : UInt64) (dest : NodeIdentRendv)
    (inputBuffer funcName : List UInt8) (param : Value D)
  | finish (p : ℕ)

/-- `recvfrom` cuts off what does not fit into the buffer. -/
def Datagram.received (d : Datagram) : List UInt8 := d.bytes.take MAX_UDP_PACKET_SIZE.toNat

namespace RpcNetwork

variable {ι D : Type} (net : RpcNetwork ι D)

/-- One event. The step does not complete where the handling of a packet ends the process, or where
`marshal_ast` uses a struct name that has not been set. -/
def step (s : NetworkState ι) : NetworkEvent ι D → Option (NetworkState ι)
  | .external bytes => some { s with sent := s.sent ++ [⟨bytes, none⟩] }
  | .deliver i m ds r curTime =>
    s.sent[m]?.bind fun d ↦
      match Dispatch.handleNewPacket (net.env i) ds { r with buf := d.received } with
      | .error _ => none
      | .ok actions => some { s with
          executions := s.executions ++ (actions.filterMap Dispatch.thread?).map fun t ↦
            ⟨i, m, t.2, (DSLRecvQuery.new (D := D) curTime t.1 0).timeoutTV, false⟩ }
  | .rpc p curTime qid dest inputBuffer funcName param =>
    s.executions[p]?.bind fun e ↦
      if e.finished then none
      else
        let env := net.env e.node
        let q : RpcRequest := ⟨qid, e.timeoutTV, dest, e.ttl⟩
        (q.init env.magic env.rendv net.compress env.xdr curTime inputBuffer funcName param).map
          fun res ↦ { s with sent := s.sent ++ (res.2.map fun p' ↦ ⟨p'.payload, some p⟩).toList }
  | .finish p =>
    s.executions[p]?.map fun e ↦
      { s with executions := s.executions.set p { e with finished := true } }

/-- The ttl of the request in a datagram, as a node reads it. -/
def ttl? (i : ι) (d : Datagram) : Option UInt16 :=
  (DSLRequestPacket.parse (net.env i).magic (net.env i).xdr (net.env i).uncompress
    (newParserState d.received)).map fun res ↦ res.1.1.ttl

/-- A thread sends a request with a ttl of one less than its own. -/
def SentBy (s : NetworkState ι) (d : Datagram) (p : ℕ) : Prop :=
  ∃ e, s.executions[p]? = some e ∧ ∃ pkt : DSLRequestPacket,
    pkt.encode (net.env e.node).magic <+: d.bytes ∧ pkt.ttl.toNat + 1 = e.ttl.toNat

/-- A thread has the ttl of the request that has started it, and it has been admitted. -/
def StartedBy (s : NetworkState ι) (e : Execution ι) : Prop :=
  (∃ d, s.sent[e.request]? = some d ∧ net.ttl? e.node d = some e.ttl) ∧
    e.ttl ≤ (net.env e.node).maxTTL

/-- Execution `p` has called `rpc`, and this has started execution `c`. -/
def Causes (s : NetworkState ι) (p c : ℕ) : Prop :=
  ∃ e d, s.executions[c]? = some e ∧ s.sent[e.request]? = some d ∧ d.sender = some p

/-- What holds of all requests on their way and of all threads. -/
structure Counted (s : NetworkState ι) : Prop where
  sent : ∀ d ∈ s.sent, ∀ p, d.sender = some p → net.SentBy s d p
  started : ∀ e ∈ s.executions, net.StartedBy s e

variable {net} {s s' : NetworkState ι} {d : Datagram} {p c : ℕ} {e : Execution ι}

/-- What a node reads from the request of a thread. -/
theorem SentBy.ttl?_eq (h : net.SentBy s d p) {i : ι} {ttl : UInt16} (httl : net.ttl? i d = some ttl) :
    ∃ e, s.executions[p]? = some e ∧ ttl.toNat + 1 = e.ttl.toNat := by
  obtain ⟨e, he, pkt, ⟨rest, hrest⟩, hpkt⟩ := h
  obtain ⟨⟨⟨pkt', program⟩, u⟩, hparse, rfl⟩ := Option.map_eq_some_iff.1 httl
  -- the header fits into the buffer of the receiver
  have hbuf : d.received = pkt.encode (net.env e.node).magic ++
      rest.take (MAX_UDP_PACKET_SIZE.toNat - 23) := by
    rw [Datagram.received, ← hrest, List.take_append, pkt.length_encode,
      List.take_of_length_le (by rw [pkt.length_encode]; decide)]
  have hrange : InRange (pkt.encode (net.env e.node).magic ++
      rest.take (MAX_UDP_PACKET_SIZE.toNat - 23)) := by
    have hlen : (rest.take (MAX_UDP_PACKET_SIZE.toNat - 23)).length ≤ 1377 :=
      List.length_take_le _ _
    rw [InRange, List.length_append, pkt.length_encode]
    omega
  rw [hbuf] at hparse
  obtain ⟨bw, hheader⟩ := DSLRequestPacket.parse_eq_some hparse
  rw [← DSLRequestPacket.magic_eq_of_header hrange hheader] at hparse
  have heq : pkt' = pkt := DSLRequestPacket.eq_of_parse_encode hrange hparse
  exact ⟨e, he, heq ▸ hpkt⟩

/-! ### One event -/

/-- Threads stay, with their node, their request and their ttl. -/
def Extends (s s' : NetworkState ι) : Prop :=
  s.sent <+: s'.sent ∧ ∀ (p : ℕ) (e : Execution ι), s.executions[p]? = some e →
    ∃ e' : Execution ι, s'.executions[p]? = some e' ∧ e'.node = e.node ∧ e'.ttl = e.ttl

theorem SentBy.mono (h : net.SentBy s d p) (hext : Extends s s') : net.SentBy s' d p := by
  obtain ⟨e, he, pkt, hprefix, hpkt⟩ := h
  obtain ⟨e', he', hnode, httl⟩ := hext.2 p e he
  exact ⟨e', he', pkt, hnode ▸ hprefix, httl ▸ hpkt⟩

theorem StartedBy.mono (h : net.StartedBy s e) (hext : Extends s s') : net.StartedBy s' e := by
  obtain ⟨⟨d, hd, httl⟩, hmax⟩ := h
  refine ⟨⟨d, ?_, httl⟩, hmax⟩
  obtain ⟨rest, hrest⟩ := hext.1
  rw [← hrest, List.getElem?_append_left (List.getElem?_eq_some_iff.1 hd).1]
  exact hd

theorem extends_append (s : NetworkState ι) (es : List (Execution ι)) (ds : List Datagram) :
    Extends s ⟨s.executions ++ es, s.sent ++ ds⟩ := by
  refine ⟨List.prefix_append .., fun p e he ↦ ⟨e, ?_, rfl, rfl⟩⟩
  rw [List.getElem?_append_left (List.getElem?_eq_some_iff.1 he).1]
  exact he

/-- New threads and datagrams are all there is to check. -/
theorem Counted.append (h : net.Counted s) {es : List (Execution ι)} {ds : List Datagram}
    (hds : ∀ d ∈ ds, ∀ p, d.sender = some p → net.SentBy s d p)
    (hes : ∀ e ∈ es, net.StartedBy s e) :
    net.Counted ⟨s.executions ++ es, s.sent ++ ds⟩ := by
  have hext := extends_append s es ds
  constructor
  · intro d hd p hp
    obtain hd | hd := List.mem_append.1 hd
    · exact (h.sent d hd p hp).mono hext
    · exact (hds d hd p hp).mono hext
  · intro e he
    obtain he | he := List.mem_append.1 he
    · exact (h.started e he).mono hext
    · exact (hes e he).mono hext

theorem Counted.deliver (h : net.Counted s) {i : ι} {m : ℕ} {ds : DispatchState D} {r : Received}
    {curTime : ℕ} (hs : net.step s (.deliver i m ds r curTime) = some s') : net.Counted s' := by
  obtain ⟨d, hd, hs⟩ := Option.bind_eq_some_iff.1 hs
  split at hs
  · cases hs
  · rename_i actions hactions
    cases hs
    rw [← List.append_nil s.sent]
    refine h.append (by simp) fun e he ↦ ?_
    obtain ⟨t, ht, rfl⟩ := List.mem_map.1 he
    obtain ⟨pkt, program, u, hparse, hpkt, hmax⟩ := Dispatch.handleNewPacket_thread hactions ht
    refine ⟨⟨d, hd, ?_⟩, hmax⟩
    show (DSLRequestPacket.parse _ _ _ (newParserState d.received)).map _ = _
    rw [hparse, ← hpkt]
    rfl

theorem Counted.rpc (h : net.Counted s) {curTime : ℕ} {qid : UInt64} {dest : NodeIdentRendv}
    {inputBuffer funcName : List UInt8} {param : Value D}
    (hs : net.step s (.rpc p curTime qid dest inputBuffer funcName param) = some s') :
    net.Counted s' := by
  obtain ⟨e, he, hs⟩ := Option.bind_eq_some_iff.1 hs
  split at hs
  · cases hs
  · obtain ⟨⟨rc, sent⟩, hinit, rfl⟩ := Option.map_eq_some_iff.1 hs
    rw [← List.append_nil s.executions]
    refine h.append (fun d hd p' hp' ↦ ?_) (by simp)
    obtain ⟨packet, hpacket, rfl⟩ := Option.map_eq_some_iff.1 (Option.mem_toList.1 hd)
    cases hpacket
    cases hp'
    obtain ⟨pkt, hprefix, hpkt⟩ := RpcRequest.init_sent hinit
    exact ⟨e, he, pkt, hprefix, hpkt⟩

theorem Counted.finish (h : net.Counted s) (hs : net.step s (.finish p) = some s') :
    net.Counted s' := by
  obtain ⟨e, he, rfl⟩ := Option.map_eq_some_iff.1 hs
  have hext : Extends s ⟨s.executions.set p { e with finished := true }, s.sent⟩ := by
    refine ⟨List.prefix_rfl, fun p' e' he' ↦ ?_⟩
    by_cases hp : p = p'
    · subst hp
      rw [he] at he'
      cases he'
      refine ⟨_, List.getElem?_set_self ?_, rfl, rfl⟩
      exact (List.getElem?_eq_some_iff.1 he).1
    · exact ⟨e', by rw [List.getElem?_set_ne hp, he'], rfl, rfl⟩
  constructor
  · exact fun d hd p' hp' ↦ (h.sent d hd p' hp').mono hext
  · intro e' he'
    obtain he' | rfl := List.mem_or_eq_of_mem_set he'
    · exact (h.started e' he').mono hext
    · exact (show net.StartedBy s e from h.started e (List.mem_of_getElem? he)).mono hext

/-- Every event keeps the count. -/
theorem Counted.step (h : net.Counted s) {event : NetworkEvent ι D}
    (hs : net.step s event = some s') : net.Counted s' :=
  match event with
  | .external bytes => by
    cases hs
    rw [← List.append_nil s.executions]
    exact h.append (by simp) (by simp)
  | .deliver .. => h.deliver hs
  | .rpc .. => h.rpc hs
  | .finish _ => h.finish hs

/-! ### Runs -/

/-- A step of a chain takes one from the ttl. -/
theorem Counted.causes (h : net.Counted s) {e : Execution ι} (he : s.executions[c]? = some e)
    (hcause : Causes s p c) :
    ∃ e', s.executions[p]? = some e' ∧ e.ttl.toNat + 1 = e'.ttl.toNat := by
  obtain ⟨e', d, he', hd, hsender⟩ := hcause
  rw [he] at he'
  cases he'
  obtain ⟨⟨d', hd', httl⟩, -⟩ := h.started e (List.mem_of_getElem? he)
  rw [hd] at hd'
  cases hd'
  exact (h.sent d (List.mem_of_getElem? hd) p hsender).ttl?_eq httl

theorem Counted.length_le (h : net.Counted s) (he : s.executions[p]? = some e) {chain : List ℕ}
    (hchain : List.IsChain (Causes s) (p :: chain)) : chain.length ≤ e.ttl.toNat := by
  induction chain generalizing p e with
  | nil => exact Nat.zero_le _
  | cons c chain ih =>
    obtain ⟨hcause, hrest⟩ := List.isChain_cons_cons.1 hchain
    obtain ⟨e', -, he', -, -⟩ := id hcause
    obtain ⟨e₀, he₀, httl⟩ := h.causes he' hcause
    rw [he] at he₀
    cases he₀
    have hlen := ih he' hrest
    rw [List.length_cons]
    omega

theorem counted_of_run {events : List (NetworkEvent ι D)}
    (hrun : run net.step ⟨[], []⟩ events = some s) : net.Counted s := by
  refine run_invariant' (P := net.Counted) (fun s event s' h hs ↦ h.step hs) ?_ hrun
  exact ⟨by simp, by simp⟩

/-- **The ttl bounds every chain of remote calls.** In every run, a request that a thread has sent
carries a ttl of one less than that of the thread (so a thread whose ttl is 0 has sent none), no
thread has a ttl of more than its node admits, and a chain that begins with a request whose ttl is `t`
is of at most `t + 1` executions. -/
theorem rpcChain_length_le {events : List (NetworkEvent ι D)}
    (hrun : run net.step ⟨[], []⟩ events = some s) :
    (∀ d ∈ s.sent, ∀ p, d.sender = some p → net.SentBy s d p) ∧
      (∀ e ∈ s.executions, e.ttl ≤ (net.env e.node).maxTTL) ∧
      ∀ (p : ℕ) (chain : List ℕ) (e : Execution ι) (d : Datagram) (t : UInt16),
        List.IsChain (Causes s) (p :: chain) → s.executions[p]? = some e →
          s.sent[e.request]? = some d → net.ttl? e.node d = some t →
            (p :: chain).length ≤ t.toNat + 1 := by
  have h := counted_of_run hrun
  refine ⟨h.sent, fun e he ↦ (h.started e he).2, fun p chain e d t hchain he hd ht ↦ ?_⟩
  -- the thread has the ttl of its request
  obtain ⟨⟨d', hd', httl⟩, -⟩ := h.started e (List.mem_of_getElem? he)
  rw [hd] at hd'
  cases hd'
  rw [ht] at httl
  cases httl
  rw [List.length_cons]
  exact Nat.succ_le_succ (h.length_le he hchain)

/-- Two nodes that accept any program. -/
def twoNodes : RpcNetwork Bool UInt64 where
  env _ := ⟨⟨7, ⟨0, 0⟩, fun _ _ _ ↦ 1, fun _ ↦ 0⟩, bitsXdr, fun _ ↦ some, fun _ ↦ 0, 3⟩
  compress := some

/-- A request whose ttl is 1 starts a thread, and that thread one at the other node. -/
def callEvents : List (NetworkEvent Bool UInt64) :=
  let ds : DispatchState UInt64 := ⟨RingSet.new 1 1, ∅, ∅, ∅⟩
  [.external ((DSLRequestPacket.mk ⟨Packet.new 1, 0, 0⟩ 5000 1).encode 7 ++
      List.replicate 16 0),
    .deliver true 0 ds ⟨[], ⟨1, 80⟩, 0, 0, []⟩ 0,
    .rpc 0 1000 2 ⟨2, 80, 0, 0⟩ [] [] .empty,
    .deliver false 1 ds ⟨[], ⟨2, 80⟩, 0, 0, []⟩ 2000]

theorem rpcChain_length_le_call :
    ∃ s, run twoNodes.step ⟨[], []⟩ callEvents = some s ∧ s.executions.map (·.ttl) = [1, 0] ∧
      ∀ e ∈ s.executions, e.ttl ≤ 3 := by
  obtain ⟨s, hs, httl⟩ := Option.map_eq_some_iff.1
    (show (run twoNodes.step ⟨[], []⟩ callEvents).map (fun s ↦ s.executions.map (·.ttl)) =
      some [1, 0] by decide +kernel)
  exact ⟨s, hs, httl, (rpcChain_length_le hs).2.1⟩

end RpcNetwork

end Meridian

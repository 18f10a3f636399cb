import Meridian.Process.NullRead

/-!
# Answers that are relayed

A node that has forwarded a search request and waits for the answer passes on what the node that it
has selected sends it: a `RetResponse`, a `RetInfo` or a `RetError` is parsed, and written again for
the node that the request came from.

An answer with address and port 0 is from the node that sent it. It is the first relay that puts an
address there, and since no node has address and port 0, no later one changes it: `Answer.received`
is applied once at the first hop, and does nothing after that (`Answer.received_received`).

* A request keeps its id when it is forwarded, so the queries along a chain are found under one id.
* The datagrams of the node that a relay has selected reach it from the address of that node.
-/

namespace Meridian

open Lib BufferWrapper

/-! ### Answers -/

/-- What a relay passes on. -/
inductive Answer where
  | response (pkt : RetResponse)
  | info (pkt : RetInfo)
  | error (pkt : RetError)
  deriving DecidableEq

namespace Answer

/-- `getPacketType`. -/
def type : Answer → UInt8
  | response _ => RET_RESPONSE
  | info _ => RET_INFO
  | error _ => RET_ERROR

/-- What every packet has. -/
def toPacket : Answer → Packet
  | response pkt => pkt.toPacket
  | info pkt => pkt.toPacket
  | error pkt => pkt.toPacket

/-- The class's `createRealPacket`. -/
def createRealPacket (magic : UInt32) (a : Answer) (p : RealPacket) : Option (Int × RealPacket) :=
  match a with
  | response pkt => pkt.createRealPacket magic p
  | info pkt => some (pkt.createRealPacket magic p)
  | error pkt => some (pkt.createRealPacket magic p)

/-- What an answer is on the wire. -/
def encode (magic : UInt32) : Answer → List UInt8
  | response pkt => pkt.encode magic
  | info pkt => pkt.encode magic
  | error pkt => pkt.toPacket.encode magic RET_ERROR

/-- An answer as its receiver sees it. -/
def received (remote : NodeIdent) : Answer → Answer
  | response pkt => response (pkt.received remote)
  | info pkt => info (pkt.received remote)
  | error pkt => error pkt

/-- An answer that fits into a packet. -/
def Fits (magic : UInt32) (a : Answer) : Prop :=
  (a.encode magic).length ≤ MAX_UDP_PACKET_SIZE.toNat

variable {magic : UInt32} {a : Answer} {remote remote' : NodeIdent}

theorem Fits.inRange (h : a.Fits magic) : InRange (a.encode magic) := by
  have hlen : (a.encode magic).length ≤ 1400 := h
  rw [InRange]
  omega

theorem Fits.length_targets {pkt : RetResponse} (h : (response pkt).Fits magic) :
    pkt.targets.length < 2 ^ 32 := by
  have hlen : (pkt.encode magic).length ≤ 1400 := h
  rw [pkt.length_encode] at hlen
  omega

/-- The header comes first. -/
theorem exists_encode_eq (magic : UInt32) (a : Answer) :
    ∃ rest, a.encode magic = a.toPacket.encode magic a.type ++ rest := by
  cases a with
  | response pkt => exact ⟨_, rfl⟩
  | info pkt => exact ⟨_, rfl⟩
  | error pkt => exact ⟨[], (List.append_nil _).symm⟩

theorem Fits.parseHeader_eq (h : a.Fits magic) :
    BufferWrapper.parse (Packet.parseHeader magic) (a.encode magic) =
      some (a.type, a.toPacket.retReqID) := by
  obtain ⟨rest, hrest⟩ := a.exists_encode_eq magic
  have hrange := h.inRange
  rw [hrest] at hrange ⊢
  exact parse_parseHeader hrange

theorem Fits.parse_response {pkt : RetResponse} (h : (response pkt).Fits magic)
    (remote : NodeIdent) : BufferWrapper.parse (RetResponse.parser magic remote)
      (pkt.encode magic) = some (pkt.received remote) :=
  parse_eq_some (pkt.reads remote h.length_targets) h.inRange

theorem Fits.parse_info {pkt : RetInfo} (h : (info pkt).Fits magic) (remote : NodeIdent) :
    BufferWrapper.parse (RetInfo.parser magic remote) (pkt.encode magic) =
      some (pkt.received remote) :=
  parse_eq_some (pkt.reads remote) h.inRange

theorem Fits.parse_error {pkt : RetError} (h : (error pkt).Fits magic) :
    BufferWrapper.parse (RetError.parser magic) (pkt.toPacket.encode magic RET_ERROR) = some pkt :=
  parse_eq_some pkt.reads h.inRange

/-- An answer that fits is written. -/
theorem Fits.createRealPacket_eq (h : a.Fits magic) (dest : NodeIdentRendv) :
    ∃ p, a.createRealPacket magic (RealPacket.new dest MAX_UDP_PACKET_SIZE) = some (0, p) ∧
      p.payload = a.encode magic ∧ p.dest = dest := by
  obtain ⟨res, hres, hwritten⟩ : ∃ res,
      a.createRealPacket magic (RealPacket.new dest MAX_UDP_PACKET_SIZE) = some res ∧
        Written MAX_UDP_PACKET_SIZE dest (a.encode magic) res := by
    cases a with
    | response pkt => exact pkt.createRealPacket_written (by decide) h.length_targets
    | info pkt => exact ⟨_, rfl, pkt.createRealPacket_written (by decide)⟩
    | error pkt => exact ⟨_, rfl, createHeaderPacket_written pkt.toPacket RET_ERROR (by decide)⟩
  refine ⟨res.2, ?_, hwritten.payload_eq h, hwritten.dest_eq⟩
  rw [hres, ← hwritten.result_eq_zero.2 h]

/-- An answer that has been written fits. -/
theorem fits_of_createRealPacket {dest : NodeIdentRendv} {p : RealPacket}
    (h : a.createRealPacket magic (RealPacket.new dest MAX_UDP_PACKET_SIZE) = some (0, p)) :
    a.Fits magic ∧ p.payload = a.encode magic := by
  have hwritten : Written MAX_UDP_PACKET_SIZE dest (a.encode magic) (0, p) := by
    cases a with
    | response pkt =>
      have hlen : pkt.targets.length < 2 ^ 32 := by
        refine Nat.lt_of_not_le fun hle ↦ ?_
        rw [createRealPacket, RetResponse.createRealPacket, if_pos hle] at h
        exact absurd h (by simp)
      obtain ⟨res, hres, hwritten⟩ : ∃ res, pkt.createRealPacket magic
          (RealPacket.new dest MAX_UDP_PACKET_SIZE) = some res ∧
            Written MAX_UDP_PACKET_SIZE dest (pkt.encode magic) res :=
        pkt.createRealPacket_written (by decide) hlen
      obtain rfl : res = (0, p) := Option.some.inj (hres.symm.trans h)
      exact hwritten
    | info pkt => exact Option.some.inj h ▸ pkt.createRealPacket_written (by decide)
    | error pkt =>
      exact Option.some.inj h ▸ createHeaderPacket_written pkt.toPacket RET_ERROR (by decide)
  have hfits : a.Fits magic := hwritten.result_eq_zero.1 rfl
  exact ⟨hfits, hwritten.payload_eq hfits⟩

@[simp] theorem type_received : (a.received remote).type = a.type := by
  cases a <;> rfl

@[simp] theorem toPacket_received : (a.received remote).toPacket = a.toPacket := by
  cases a <;> rfl

theorem Fits.received (h : a.Fits magic) (remote : NodeIdent) : (a.received remote).Fits magic := by
  have hlen : ((a.received remote).encode magic).length = (a.encode magic).length := by
    cases a with
    | response pkt =>
      show ((pkt.received remote).encode magic).length = (pkt.encode magic).length
      rw [RetResponse.length_encode, RetResponse.length_encode]
      rfl
    | info pkt =>
      show ((pkt.received remote).encode magic).length = (pkt.encode magic).length
      rw [RetInfo.length_encode, RetInfo.length_encode]
    | error pkt => rfl
  rw [Fits, hlen]
  exact h

theorem orSender_orSender (hne : remote ≠ ⟨0, 0⟩) (remote' n : NodeIdent) :
    orSender remote' (orSender remote n) = orSender remote n := by
  have hkeep {n : NodeIdent} (hn : n ≠ ⟨0, 0⟩) : orSender remote' n = n :=
    if_neg fun h ↦ hn (by cases n; simp_all)
  by_cases hn : n.addr = 0 ∧ n.port = 0
  · rw [show orSender remote n = remote from if_pos hn]
    exact hkeep hne
  · rw [show orSender remote n = n from if_neg hn]
    refine hkeep fun heq ↦ hn ?_
    subst heq
    exact ⟨rfl, rfl⟩

theorem received_response (hne : remote ≠ ⟨0, 0⟩) (remote' : NodeIdent) (pkt : RetResponse) :
    (pkt.received remote).received remote' = pkt.received remote := by
  have h := orSender_orSender hne remote' ⟨pkt.addr, pkt.port⟩
  simp only [RetResponse.received, h]

theorem received_info (hne : remote ≠ ⟨0, 0⟩) (remote' : NodeIdent) (pkt : RetInfo) :
    (pkt.received remote).received remote' = pkt.received remote := by
  have h := orSender_orSender hne remote' ⟨pkt.addr, pkt.port⟩
  simp only [RetInfo.received, h]

/-- **Address and port 0 are resolved once.** -/
theorem received_received (hne : remote ≠ ⟨0, 0⟩) (remote' : NodeIdent) :
    (a.received remote).received remote' = a.received remote := by
  cases a with
  | response pkt => exact congrArg response (received_response hne remote' pkt)
  | info pkt => exact congrArg info (received_info hne remote' pkt)
  | error pkt => rfl

end Answer

/-! ### Relays -/

/-- A search query of the table. -/
inductive SearchEntry where
  | closest (kind : ReqClosestKind) (q : SearchQuery Unit)
  | mc (kind : ReqConstraintKind) (q : SearchQuery UInt32)

namespace SearchEntry

def entry {D : Type} : SearchEntry → PacketQuery D
  | closest kind q => .closest kind q
  | mc kind q => .mc kind q

def stateMachine : SearchEntry → SearchState
  | closest _ q => q.stateMachine
  | mc _ q => q.stateMachine

def selectedMember : SearchEntry → NodeIdent
  | closest _ q => q.selectedMember
  | mc _ q => q.selectedMember

def srcNode : SearchEntry → NodeIdentRendv
  | closest _ q => q.srcNode
  | mc _ q => q.srcNode

end SearchEntry

/-- A node that has forwarded the request `id`, and waits for the answer of the node that it has
selected. `r` is what is read while the answer is handled; the answer itself takes the place of its
`buf`. -/
structure Relay (D : Type) (magic : UInt32) (id : UInt64) where
  env : DispatchEnv D
  s : DispatchState D
  r : Received
  query : SearchEntry
  magic_eq : env.magic = magic
  table_eq : s.table[id]? = some query.entry
  waiting : query.stateMachine = .waitForFin
  selected : query.selectedMember = r.remoteNode
  remoteNode_ne : r.remoteNode ≠ ⟨0, 0⟩

/-- What a relay sends when it is given a packet. -/
def Relay.sends {D : Type} {magic : UInt32} {id : UInt64} (n : Relay D magic id) (p : RealPacket) :
    List RealPacket :=
  match Dispatch.handleNewPacket n.env n.s { n.r with buf := p.payload } with
  | .error _ => []
  | .ok actions => actions.filterMap Dispatch.outPacket?

/-- What a packet becomes on its way through relays, each of which sends one packet. -/
def relayed {D : Type} {magic : UInt32} {id : UInt64} :
    List (Relay D magic id) → RealPacket → Option RealPacket
  | [], p => some p
  | n :: rest, p =>
    match n.sends p with
    | [p'] => relayed rest p'
    | _ => none

section Relay

variable {D τ : Type} {magic : UInt32} {id : UInt64} {a : Answer}

/-- What the handler of a search query sends on for an answer. -/
theorem searchEvent_answer {C : SearchClass τ} {q : SearchQuery τ} {inRemote : NodeIdent}
    (hwait : q.stateMachine = .waitForFin) (hsel : q.selectedMember = inRemote)
    (htype : C.queryType ≠ a.type) (ha : a.Fits magic) :
    ∃ q' p, Dispatch.searchEvent magic C inRemote (a.encode magic) q = .ok (q', [.packet p]) ∧
      p.payload = (a.received inRemote).encode magic ∧ p.dest = q.srcNode := by
  obtain ⟨p, hp, hpay, hdest⟩ := (ha.received inRemote).createRealPacket_eq q.srcNode
  rw [Dispatch.searchEvent_eq, SearchQuery.handleEvent, if_pos hwait, ha.parseHeader_eq]
  dsimp only
  rw [if_neg htype.symm, if_pos hsel.symm]
  cases a with
  | response pkt =>
    rw [Answer.received, Answer.createRealPacket] at hp
    refine ⟨{ q with finished := true }, p, ?_, hpay, hdest⟩
    rw [if_pos (show (Answer.response pkt).type = RET_RESPONSE from rfl), Answer.encode,
      ha.parse_response inRemote]
    show Dispatch.ofAbort (sendResponse magic q.srcNode (pkt.received inRemote) >>= _) = _
    rw [sendResponse, hp]
    rfl
  | info pkt =>
    rw [Answer.received, Answer.createRealPacket, Option.some.injEq] at hp
    refine ⟨q, p, ?_, hpay, hdest⟩
    rw [if_neg (show (Answer.info pkt).type ≠ RET_RESPONSE from
        (by decide : RET_INFO ≠ RET_RESPONSE)),
      if_neg (show (Answer.info pkt).type ≠ RET_ERROR from (by decide : RET_INFO ≠ RET_ERROR)),
      if_pos (show (Answer.info pkt).type = RET_INFO from rfl), Answer.encode,
      ha.parse_info inRemote]
    show Dispatch.ofAbort (.ok (q, sendInfo magic q.srcNode (pkt.received inRemote))) = _
    rw [sendInfo, hp]
    rfl
  | error pkt =>
    rw [Answer.received, Answer.createRealPacket, Option.some.injEq] at hp
    refine ⟨{ q with finished := true }, p, ?_, hpay, hdest⟩
    rw [if_neg (show (Answer.error pkt).type ≠ RET_RESPONSE from
        (by decide : RET_ERROR ≠ RET_RESPONSE)),
      if_pos (show (Answer.error pkt).type = RET_ERROR from rfl), Answer.encode, ha.parse_error]
    show Dispatch.ofAbort (.ok (_, sendError magic q.srcNode pkt)) = _
    rw [sendError, hp]
    rfl

/-- An answer is handed to the query of its id. -/
theorem dispatch_answer (env : DispatchEnv D) (s : DispatchState D) (r : Received) (id : UInt64)
    (a : Answer) : Dispatch.dispatch env s r id a.type = Dispatch.notify env s r id := by
  cases a <;> rfl

theorem closest_queryType_ne (kind : ReqClosestKind) (a : Answer) :
    (handleClosest magic kind).queryType ≠ a.type := by
  have hne : kind.type ≠ RET_RESPONSE ∧ kind.type ≠ RET_INFO ∧ kind.type ≠ RET_ERROR := by
    cases kind <;> decide
  cases a with
  | response pkt => exact hne.1
  | info pkt => exact hne.2.1
  | error pkt => exact hne.2.2

theorem mc_queryType_ne (kind : ReqConstraintKind) (a : Answer) :
    (handleMC magic kind).queryType ≠ a.type := by
  have hne : kind.type ≠ RET_RESPONSE ∧ kind.type ≠ RET_INFO ∧ kind.type ≠ RET_ERROR := by
    cases kind <;> decide
  cases a with
  | response pkt => exact hne.1
  | info pkt => exact hne.2.1
  | error pkt => exact hne.2.2

/-- **One hop.** A relay sends the answer as it has received it, and nothing else. -/
theorem Relay.sends_answer (n : Relay D magic id) (ha : a.Fits magic)
    (hid : a.toPacket.retReqID = id) {p : RealPacket} (hp : p.payload = a.encode magic) :
    ∃ p', n.sends p = [p'] ∧ p'.payload = (a.received n.r.remoteNode).encode magic ∧
      p'.dest = n.query.srcNode := by
  obtain ⟨env, s, r, query, rfl, htable, hwait, hsel, -⟩ := n
  rw [Relay.sends, hp]
  dsimp only
  rw [Dispatch.handleNewPacket]
  dsimp only
  rw [ha.parseHeader_eq, hid]
  dsimp only
  rw [dispatch_answer, Dispatch.notify, Dispatch.notifyQPacket, htable]
  cases query with
  | closest kind q =>
    obtain ⟨q', p', hevent, hpay, hdest⟩ :=
      searchEvent_answer hwait hsel (closest_queryType_ne kind a) ha
    refine ⟨p', ?_, hpay, hdest⟩
    dsimp only [SearchEntry.entry]
    rw [hevent]
    rfl
  | mc kind q =>
    obtain ⟨q', p', hevent, hpay, hdest⟩ :=
      searchEvent_answer hwait hsel (mc_queryType_ne kind a) ha
    refine ⟨p', ?_, hpay, hdest⟩
    dsimp only [SearchEntry.entry]
    rw [hevent]
    rfl

/-- **The whole way.** After the first hop, the answer does not change any more. -/
theorem relayed_answer (n : Relay D magic id) (rest : List (Relay D magic id)) :
    ∀ {a : Answer} {p : RealPacket}, a.Fits magic → a.toPacket.retReqID = id →
      p.payload = a.encode magic →
        ∃ p', relayed (n :: rest) p = some p' ∧
          p'.payload = (a.received n.r.remoteNode).encode magic ∧
          p'.dest = ((n :: rest).getLast (List.cons_ne_nil n rest)).query.srcNode := by
  induction rest generalizing n with
  | nil =>
    intro a p ha hid hp
    obtain ⟨p', hsends, hpay, hdest⟩ := n.sends_answer ha hid hp
    refine ⟨p', ?_, hpay, hdest⟩
    rw [relayed, hsends]
    rfl
  | cons m rest ih =>
    intro a p ha hid hp
    obtain ⟨p₁, hsends, hpay₁, -⟩ := n.sends_answer ha hid hp
    have hid₁ : (a.received n.r.remoteNode).toPacket.retReqID = id := by
      rw [Answer.toPacket_received, hid]
    obtain ⟨p', hrelayed, hpay, hdest⟩ := ih m (ha.received n.r.remoteNode) hid₁ hpay₁
    rw [Answer.received_received n.remoteNode_ne m.r.remoteNode] at hpay
    refine ⟨p', ?_, hpay, hdest⟩
    rw [relayed, hsends]
    exact hrelayed

/-- **Relayed answers name their originator.** What the last node of a chain sends to the one before
it reaches the requester of the first: an answer with address and port 0 has the address under which
the node before the last has seen the last, any other has its own, and both have the latencies that
they were sent with. Errors keep their id. -/
theorem relayed_names_originator (n : Relay D magic id) (rest : List (Relay D magic id))
    (dest : NodeIdentRendv) (p : RealPacket) :
    (∀ (addr : UInt32) (port : UInt16) (targets : NodeMap UInt32),
      (RetResponse.new id addr port targets).createRealPacket magic
          (RealPacket.new dest MAX_UDP_PACKET_SIZE) = some (0, p) →
        ∃ p', relayed (n :: rest) p = some p' ∧
          p'.dest = ((n :: rest).getLast (List.cons_ne_nil n rest)).query.srcNode ∧
          ∀ remote, parse (RetResponse.parser magic remote) p'.payload =
            some (RetResponse.new id (orSender n.r.remoteNode ⟨addr, port⟩).addr
              (orSender n.r.remoteNode ⟨addr, port⟩).port targets)) ∧
    (∀ (addr : UInt32) (port : UInt16),
      (RetInfo.mk (Packet.new id) addr port).createRealPacket magic
          (RealPacket.new dest MAX_UDP_PACKET_SIZE) = (0, p) →
        ∃ p', relayed (n :: rest) p = some p' ∧
          p'.dest = ((n :: rest).getLast (List.cons_ne_nil n rest)).query.srcNode ∧
          ∀ remote, parse (RetInfo.parser magic remote) p'.payload =
            some (RetInfo.mk (Packet.new id) (orSender n.r.remoteNode ⟨addr, port⟩).addr
              (orSender n.r.remoteNode ⟨addr, port⟩).port)) ∧
    ((RetError.mk (Packet.new id)).createRealPacket magic
        (RealPacket.new dest MAX_UDP_PACKET_SIZE) = (0, p) →
      ∃ p', relayed (n :: rest) p = some p' ∧
        p'.dest = ((n :: rest).getLast (List.cons_ne_nil n rest)).query.srcNode ∧
        parse (RetError.parser magic) p'.payload = some ⟨Packet.new id⟩) := by
  have hne := n.remoteNode_ne
  refine ⟨fun addr port targets h ↦ ?_, fun addr port h ↦ ?_, fun h ↦ ?_⟩
  · obtain ⟨hfits, hpay⟩ :=
      Answer.fits_of_createRealPacket (a := .response (RetResponse.new id addr port targets)) h
    obtain ⟨p', hp', hpay', hdest⟩ := relayed_answer n rest hfits (Packet.retReqID_new id) hpay
    refine ⟨p', hp', hdest, fun remote ↦ ?_⟩
    rw [hpay', Answer.received, Answer.encode,
      (hfits.received n.r.remoteNode).parse_response remote, Answer.received_response hne]
    rfl
  · obtain ⟨hfits, hpay⟩ :=
      Answer.fits_of_createRealPacket (a := .info ⟨Packet.new id, addr, port⟩) (congrArg some h)
    obtain ⟨p', hp', hpay', hdest⟩ := relayed_answer n rest hfits (Packet.retReqID_new id) hpay
    refine ⟨p', hp', hdest, fun remote ↦ ?_⟩
    rw [hpay', Answer.received, Answer.encode,
      (hfits.received n.r.remoteNode).parse_info remote, Answer.received_info hne]
    rfl
  · obtain ⟨hfits, hpay⟩ :=
      Answer.fits_of_createRealPacket (a := .error ⟨Packet.new id⟩) (congrArg some h)
    obtain ⟨p', hp', hpay', hdest⟩ := relayed_answer n rest hfits (Packet.retReqID_new id) hpay
    exact ⟨p', hp', hdest, by rw [hpay', Answer.received, Answer.encode, hfits.parse_error]⟩

/-- A node that has forwarded the request 5 to the node 3. -/
def relayOf3 : Relay UInt64 7 5 where
  env := ⟨⟨7, ⟨0, 0⟩, fun _ _ _ ↦ 1, fun _ ↦ 0⟩, MQL.Value.bitsXdr, fun _ _ ↦ none, fun _ ↦ -1, 3⟩
  s := ⟨RingSet.new 1 1, (∅ : Std.ExtTreeMap UInt64 (PacketQuery UInt64)).insert 5 (.closest .tcp
    { newClosest 5 1 2 ⟨9, 900, 0, 0⟩ [⟨1, 80⟩] with
      stateMachine := .waitForFin, selectedMember := ⟨3, 300⟩ }), ∅, ∅⟩
  r := ⟨[], ⟨3, 300⟩, 0, 0, []⟩
  query := .closest .tcp
    { newClosest 5 1 2 ⟨9, 900, 0, 0⟩ [⟨1, 80⟩] with
      stateMachine := .waitForFin, selectedMember := ⟨3, 300⟩ }
  magic_eq := rfl
  table_eq := Std.ExtTreeMap.getElem?_insert_self
  waiting := rfl
  selected := rfl
  remoteNode_ne := by decide

/-- The answer of the node 3, which says that it is the closest itself. -/
theorem relayed_names_originator_closest :
    ∃ p', relayed [relayOf3, relayOf3] ((RetInfo.mk (Packet.new 5) 0 0).createRealPacket 7
        (RealPacket.new ⟨8, 800, 0, 0⟩ MAX_UDP_PACKET_SIZE)).2 = some p' ∧
      parse (RetInfo.parser 7 ⟨9, 900⟩) p'.payload = some ⟨Packet.new 5, 3, 300⟩ := by
  obtain ⟨p', hp', -, hparse⟩ := (relayed_names_originator relayOf3 [relayOf3] ⟨8, 800, 0, 0⟩
    ((RetInfo.mk (Packet.new 5) 0 0).createRealPacket 7
      (RealPacket.new ⟨8, 800, 0, 0⟩ MAX_UDP_PACKET_SIZE)).2).2.1 0 0 (by decide +kernel)
  exact ⟨p', hp', hparse ⟨9, 900⟩⟩

end Relay

end Meridian

import Meridian.Lib.Run
import Meridian.MQL.ValueCodec
import Meridian.Process.Dispatch
import Meridian.Process.RingMembers
import Meridian.Query.SearchInvariant

/-!
# Gossip

A network of processes that tell each other of ring members. Each is seen by all others under one
address, which is its own `g_localAddr` and `g_meridPort`.

* A datagram that has been put on an outgoing queue may arrive at the process with the address it is
  for, at any time, any number of times, or never. One for a node with a rendavous is wrapped by
  `performSend`, and arrives at the rendavous.
* A packet that joins the queue of a tunnel is for the process at the other end of its socket. It is
  handed on there at any time, any number of times, or never; `handleRendavous_safe` says that the
  stream is taken apart as it has been put together.
* A tunnel is a connection from the address of the process behind it.
* The rest of a process is `Node`, whose steps do not look at gossip. Its queries may be told
  anything, and packets of the other types may bring anything.
* A call of `addNodeToRing` does nothing if the node is in the ping cache. Whether it is, and the ids
  of the queries, are choices of the event.

No message names its receiver, and none is for its sender: these two invariants of what is in flight
keep a process out of its own rings.
-/

namespace Meridian

open Lib BufferWrapper

/-! ### Gossip packets -/

/-- `getRandomNodes`, with a random number for each ring. -/
def RingSet.getRandomNodes (rs : RingSet) (rand : Fin MAX_NUM_RINGS → ℕ) : List NodeIdentRendv :=
  (List.finRange MAX_NUM_RINGS).filterMap fun r ↦
    ((rs.primaryRing r)[rand r % (rs.primaryRing r).length]?).map rs.rendvEntry

/-- A gossip packet, filled by `fillGossipPacket`: random members, but for the target. -/
def fillGossipPacket (kind : GossipKind) (id : UInt64) (rendv : NodeIdent)
    (randomNodes : List NodeIdentRendv) (target : NodeIdentRendv) : GossipPacketGeneric :=
  let entries := (randomNodes.filter fun n ↦ n.addr ≠ target.addr ∨ n.port ≠ target.port).map
    fun n ↦ (n.ident, (⟨n.addrRendv, n.portRendv.toUInt16⟩ : NodeIdent))
  ⟨⟨Packet.new id, rendv.addr, rendv.port⟩, kind, entries.map addNodeEntry,
    portRendv_addNodeEntry entries⟩

/-- `GossipQuery::handleLatency`, for an answer of the expected node: the packet that is sent. -/
def gossipHandleLatency (magic : UInt32) (qid : UInt64) (rendv : NodeIdent)
    (randomNodes : List NodeIdentRendv) (remoteNode : NodeIdentRendv) : List Output :=
  sendPacket ((fillGossipPacket .push qid rendv randomNodes remoteNode).createRealPacket magic
    (RealPacket.new remoteNode MAX_UDP_PACKET_SIZE))

/-! ### The network -/

/-- One process: its rings and queries, the nodes that its `GossipQuery`s are for, and the tunnels
that it is the rendavous of. -/
structure GossipProcess (ι : Type) where
  node : Node
  gossips : List (UInt64 × NodeIdentRendv)
  rendvConnections : NodeMap Int
  rendvQueue : Std.ExtTreeMap Int (List RealPacket)
  /-- The process at the other end of a socket. -/
  ends : Int → Option ι

/-- What does not change. -/
structure Overlay (ι D : Type) where
  magic : UInt32
  addr : ι → NodeIdent
  env : ι → DispatchEnv D
  magic_eq : ∀ i, (env i).magic = magic
  primarySize : ι → UInt32
  secondarySize : ι → UInt32

/-- The processes, the gossip packets that they have put on their outgoing queues, and the packets
that have joined the queue of a tunnel, with the process that it leads to. -/
structure OverlayState (ι : Type) where
  processes : ι → GossipProcess ι
  sent : List (ι × RealPacket)
  tunnelled : List (ι × RealPacket)

/-- The ids that a call of `addNodeToRing` draws, or `none` if the node is in the ping cache. -/
abbrev AddChoice := Option (UInt64 × UInt64)

/-- What is drawn while a packet is handled. -/
structure GossipDraw where
  newQueryID : UInt64
  rand : Fin MAX_NUM_RINGS → ℕ
  choices : List AddChoice

inductive OverlayEvent (ι : Type) where
  /-- The seeds of a process, in `MeridianProcess::start`. -/
  | start (i : ι) (seeds : List NodeIdentRendv) (choices : List AddChoice)
  /-- A step of a process that has nothing to do with gossip. -/
  | other (i : ι) (ev : Node.Event)
  /-- One round of the loop of `performGossip`, for the `k`-th random node. -/
  | performGossip (i : ι) (rand : Fin MAX_NUM_RINGS → ℕ) (k : ℕ) (qid id probeId : UInt64)
  /-- The `k`-th `GossipQuery` is told that its node has answered. -/
  | gossipLatency (i : ι) (k : ℕ) (rand : Fin MAX_NUM_RINGS → ℕ)
  | gossipTimeout (i : ι) (k : ℕ)
  /-- Process `i` connects to `j`, which gives the connection the socket `fd`. -/
  | connect (i j : ι) (fd : Int)
  | disconnect (j : ι) (n : NodeIdent)
  /-- The `m`-th datagram arrives at `j`. -/
  | receive (j : ι) (m : ℕ) (draw : GossipDraw)
  /-- The `m`-th packet that has joined the queue of a tunnel arrives. -/
  | tunnel (m : ℕ) (draw : GossipDraw)

namespace Dispatch

variable {D : Type}

/-- A call of `addNodeToRing`. -/
def addedNode? : Action D → Option NodeIdentRendv
  | .addNodeToRing n => some n
  | _ => none

/-- A packet that joins the queue of a socket. -/
def pushed? : Action D → Option (Int × RealPacket)
  | .pushed fd p => some (fd, p)
  | _ => none

/-- A connection that is forgotten. -/
def erased? : Action D → Option NodeIdent
  | .rendvErased n => some n
  | _ => none

end Dispatch

/-- Calls of `addNodeToRing`, one after another. -/
def Node.addNodes (env : NodeEnv) (nodes : List NodeIdentRendv) (choices : List AddChoice)
    (s : Node) : Node :=
  (nodes.zip choices).foldl (fun s x ↦
    match x.2 with
    | none => s
    | some (id, probeId) => s.addNodeToRing env x.1 id probeId) s

namespace Overlay

variable {ι D : Type} [DecidableEq ι] (net : Overlay ι D)

/-- No process has been started. -/
def init : OverlayState ι :=
  ⟨fun i ↦ ⟨Node.new (net.primarySize i) (net.secondarySize i), [], ∅, ∅, fun _ ↦ none⟩, [], []⟩

/-- A process changes. -/
def set (i : ι) (p : GossipProcess ι) (s : OverlayState ι) : OverlayState ι :=
  { s with processes := Function.update s.processes i p }

/-- What a gossip or a PUSH packet does to a process and to the network. -/
def perform (j : ι) (choices : List AddChoice) (actions : List (Action D)) (s : OverlayState ι) :
    OverlayState ι :=
  let p := s.processes j
  { processes := Function.update s.processes j { p with
      node := p.node.addNodes (net.env j).toNodeEnv (actions.filterMap Dispatch.addedNode?) choices
      rendvConnections :=
        (actions.filterMap Dispatch.erased?).foldl (fun m n ↦ m.erase n) p.rendvConnections }
    sent := s.sent ++ (actions.filterMap Dispatch.outPacket?).map fun out ↦ (j, out)
    tunnelled := s.tunnelled ++ (actions.filterMap Dispatch.pushed?).filterMap fun push ↦
      (p.ends push.1).map fun c ↦ (c, push.2) }

/-- A process is given a packet. No gossip and no PUSH packet reaches the query table. -/
def handle (j : ι) (remoteNode : NodeIdent) (buf : List UInt8) (draw : GossipDraw)
    (s : OverlayState ι) : Option (OverlayState ι) :=
  let p := s.processes j
  match Dispatch.handleNewPacket (net.env j) ⟨p.node.rings, ∅, p.rendvConnections, p.rendvQueue⟩
      ⟨buf, remoteNode, 0, draw.newQueryID, p.node.rings.getRandomNodes draw.rand⟩ with
  | .error _ => none
  | .ok actions => some (net.perform j draw.choices actions s)

/-- One event. -/
def step (s : OverlayState ι) : OverlayEvent ι → Option (OverlayState ι)
  | .start i seeds choices =>
    let p := s.processes i
    let others := seeds.filter fun n ↦ n.addr ≠ (net.addr i).addr ∨ n.port ≠ (net.addr i).port
    some (set i { p with node := p.node.addNodes (net.env i).toNodeEnv others choices } s)
  | .other i ev =>
    match ev with
    | .addNode .. => none
    | ev =>
      let p := s.processes i
      (p.node.step (net.env i).toNodeEnv ev).map fun node ↦ set i { p with node := node } s
  | .performGossip i rand k qid id probeId =>
    let p := s.processes i
    ((p.node.rings.getRandomNodes rand)[k]?).map fun n ↦
      set i { p with
        node := p.node.addNodeToRing (net.env i).toNodeEnv n id probeId
        gossips := p.gossips ++ [(qid, n)] } s
  | .gossipLatency i k rand =>
    let p := s.processes i
    (p.gossips[k]?).map fun g ↦
      let outs := gossipHandleLatency (net.env i).magic g.1 (net.env i).rendv
        (p.node.rings.getRandomNodes rand) g.2
      { set i { p with gossips := p.gossips.eraseIdx k } s with
        sent := s.sent ++ (outs.filterMap fun out ↦ Dispatch.outPacket? (D := D) (.output out)).map
          fun out ↦ (i, out) }
  | .gossipTimeout i k =>
    let p := s.processes i
    some (set i { p with gossips := p.gossips.eraseIdx k } s)
  | .connect i j fd =>
    let p := s.processes j
    let others := p.rendvConnections.erase (net.addr i)
    -- a new socket gets a descriptor that is not in use
    if others.toList.any fun e ↦ e.2 == fd then none
    else
      some (set j { p with
        rendvConnections := others.insert (net.addr i) fd
        rendvQueue := p.rendvQueue.insert fd []
        ends := Function.update p.ends fd (some i) } s)
  | .disconnect j n =>
    let p := s.processes j
    some (set j { p with rendvConnections := p.rendvConnections.erase n } s)
  | .receive j m draw =>
    s.sent[m]?.bind fun msg ↦
      (performSend (net.env msg.1).magic msg.2).bind fun p ↦
        if p.dest.ident = net.addr j then net.handle j (net.addr msg.1) p.payload draw s else none
  | .tunnel m draw =>
    s.tunnelled[m]?.bind fun msg ↦
      (PullPacket.parse (net.env msg.1).magic (receivedOf msg.2.payload)).1.bind fun res ↦
        net.handle msg.1 res.1 res.2.payload draw s

end Overlay

/-! ### Random nodes -/

theorem RingSet.length_getRandomNodes (rs : RingSet) (rand : Fin MAX_NUM_RINGS → ℕ) :
    (rs.getRandomNodes rand).length < 2 ^ 32 := by
  have hle : (rs.getRandomNodes rand).length ≤ (List.finRange MAX_NUM_RINGS).length :=
    List.length_filterMap_le _ _
  rw [List.length_finRange] at hle
  exact hle.trans_lt (by decide)

theorem RingSet.ident_rendvEntry (rs : RingSet) (n : NodeIdent) : (rs.rendvEntry n).ident = n := by
  rw [rendvEntry]
  split <;> rfl

/-- A random node is a member. -/
theorem RingSet.mem_ring_of_getRandomNodes {rs : RingSet} {rand : Fin MAX_NUM_RINGS → ℕ}
    {n : NodeIdentRendv} (h : n ∈ rs.getRandomNodes rand) : ∃ r, n.ident ∈ rs.ring r := by
  obtain ⟨r, -, hr⟩ := List.mem_filterMap.1 h
  obtain ⟨m, hm, rfl⟩ := Option.map_eq_some_iff.1 hr
  rw [ident_rendvEntry]
  exact ⟨r, List.mem_append_left _ (List.mem_of_getElem? hm)⟩

/-- `fillGossipPacket` leaves the target out. -/
theorem fillGossipPacket_targets {kind : GossipKind} {id : UInt64} {rendv : NodeIdent}
    {randomNodes : List NodeIdentRendv} {target t : NodeIdentRendv}
    (ht : t ∈ (fillGossipPacket kind id rendv randomNodes target).targets) :
    t.ident ≠ target.ident := by
  obtain ⟨e, he, rfl⟩ := List.mem_map.1 ht
  obtain ⟨n, hn, rfl⟩ := List.mem_map.1 he
  have hne := (List.mem_filter.1 hn).2
  simp only [decide_eq_true_eq] at hne
  exact Node.ne_ident (n := n.ident) hne

/-! ### What is in flight -/

/-- A gossip packet that does not name `dest`. -/
def GossipFor (magic : UInt32) (dest : NodeIdent) (payload : List UInt8) : Prop :=
  ∃ pkt : GossipPacketGeneric, payload = pkt.encode magic ∧
    payload.length ≤ MAX_UDP_PACKET_SIZE.toNat ∧ ∀ t ∈ pkt.targets, t.ident ≠ dest

/-- What a process puts on its outgoing queue: it is not for the process itself. -/
def GossipSent (magic : UInt32) (src : NodeIdent) (p : RealPacket) : Prop :=
  p.dest.ident ≠ src ∧ GossipFor magic p.dest.ident p.payload

/-- What joins the queue of a tunnel to `dest`. -/
def GossipTunnelled (magic : UInt32) (dest : NodeIdent) (p : RealPacket) : Prop :=
  ∃ src payload, p.payload = (pullOf src payload).encode magic ∧ payload.length ≤ 1377 ∧
    src ≠ dest ∧ GossipFor magic dest payload

section InFlight

variable {magic : UInt32} {src dest : NodeIdent} {payload : List UInt8}

theorem GossipFor.inRange (h : GossipFor magic dest payload) : InRange payload := by
  obtain ⟨pkt, -, hlen, -⟩ := h
  rw [maxUdp_toNat] at hlen
  rw [InRange]
  omega

theorem length_targets_of_fits {pkt : GossipPacketGeneric}
    (h : (pkt.encode magic).length ≤ MAX_UDP_PACKET_SIZE.toNat) : pkt.targets.length < 2 ^ 32 := by
  rw [pkt.length_encode, maxUdp_toNat] at h
  omega

/-- A packet that `fillGossipPacket` has filled for its destination. -/
theorem gossipSent_of_sendPacket {kind : GossipKind} {id : UInt64} {rendv : NodeIdent}
    {randomNodes : List NodeIdentRendv} (target : NodeIdentRendv) {p : RealPacket}
    (hlen : randomNodes.length < 2 ^ 32) (hne : target.ident ≠ src)
    (h : Output.packet p ∈ sendPacket ((fillGossipPacket kind id rendv randomNodes
      target).createRealPacket magic (RealPacket.new target MAX_UDP_PACKET_SIZE))) :
    GossipSent magic src p := by
  set pkt := fillGossipPacket kind id rendv randomNodes target with hpkt
  have hcount : pkt.targets.length < 2 ^ 32 := by
    rw [hpkt, fillGossipPacket, List.length_map, List.length_map]
    exact (List.length_filter_le _ _).trans_lt hlen
  have hwritten : Written MAX_UDP_PACKET_SIZE target (pkt.encode magic) _ :=
    pkt.createRealPacket_written (by decide) hcount
  obtain ⟨hok, hp⟩ := SearchQuery.mem_sendPacket h
  cases hp
  have hfits := hwritten.result_eq_zero.1 (hwritten.result_cases.resolve_right hok)
  rw [GossipSent, hwritten.dest_eq, hwritten.payload_eq hfits]
  exact ⟨hne, pkt, rfl, hfits, fun t ht ↦ fillGossipPacket_targets ht⟩

/-! ### Packets that arrive -/

section Arrival

variable {D : Type} {env : DispatchEnv D} {s : DispatchState D} {r : Received} {own : NodeIdent}
  {actions : List (Action D)}

open Dispatch

/-- What a gossip packet makes a process do: no one is added that is the process itself, and what is
sent is for others and does not name them. -/
structure Harmless (magic : UInt32) (own : NodeIdent) (actions : List (Action D)) : Prop where
  added : ∀ n ∈ actions.filterMap addedNode?, n.ident ≠ own
  sent : ∀ p ∈ actions.filterMap outPacket?, GossipSent magic own p
  pushed : actions.filterMap pushed? = []

theorem dispatch_gossip (env : DispatchEnv D) (s : DispatchState D) (r : Received) (id : UInt64)
    (kind : GossipKind) : dispatch env s r id kind.type = handleGossip env r kind := by
  cases kind <;> rfl

/-- Calls of `addNodeToRing`, and then packets. -/
theorem harmless_of {magic : UInt32} {nodes : List NodeIdentRendv} {outs : List Output}
    (hnodes : ∀ n ∈ nodes, n.ident ≠ own)
    (houts : ∀ p, Output.packet p ∈ outs → GossipSent magic own p) :
    Harmless (D := D) magic own (nodes.map .addNodeToRing ++ outs.map .output) where
  added := by
    intro n hn
    obtain ⟨a, ha, han⟩ := List.mem_filterMap.1 hn
    obtain ha | ha := List.mem_append.1 ha
    · obtain ⟨n', hn', rfl⟩ := List.mem_map.1 ha
      exact Option.some.inj han ▸ hnodes n' hn'
    · obtain ⟨out, -, rfl⟩ := List.mem_map.1 ha
      exact absurd han (by simp [addedNode?])
  sent := by
    intro p hp
    obtain ⟨a, ha, hap⟩ := List.mem_filterMap.1 hp
    obtain ha | ha := List.mem_append.1 ha
    · obtain ⟨n, -, rfl⟩ := List.mem_map.1 ha
      exact absurd hap (by simp [outPacket?])
    · obtain ⟨out, hout, rfl⟩ := List.mem_map.1 ha
      cases out with
      | packet p' => exact Option.some.inj hap ▸ houts p' hout
      | probe n => exact absurd hap (by simp [outPacket?])
      | reqProbe member => exact absurd hap (by simp [outPacket?])
      | error err => exact absurd hap (by simp [outPacket?])
  pushed := by
    refine List.filterMap_eq_nil_iff.2 fun a ha ↦ ?_
    obtain ha | ha := List.mem_append.1 ha
    · obtain ⟨n, -, rfl⟩ := List.mem_map.1 ha
      rfl
    · obtain ⟨out, -, rfl⟩ := List.mem_map.1 ha
      rfl

/-- **A gossip packet arrives** that does not name its receiver, from another node. -/
theorem handleNewPacket_gossip (hself : r.remoteNode ≠ own)
    (hbuf : GossipFor env.magic own r.buf) (hlen : r.randomNodes.length < 2 ^ 32)
    (h : handleNewPacket env s r = .ok actions) : Harmless env.magic own actions := by
  have hrange := hbuf.inRange
  obtain ⟨pkt, hpkt, hfits, htargets⟩ := hbuf
  rw [hpkt] at hrange hfits
  have hheader : parse (Packet.parseHeader env.magic) r.buf =
      some (pkt.kind.type, pkt.retReqID) := by
    rw [hpkt]
    exact parse_parseHeader hrange
  have hparse : parse (GossipPacketGeneric.parser env.magic pkt.kind) r.buf = some pkt := by
    rw [hpkt]
    exact parse_eq_some (pkt.reads (length_targets_of_fits hfits)) hrange
  rw [handleNewPacket, hheader] at h
  dsimp only at h
  rw [dispatch_gossip, handleGossip, hparse] at h
  rw [← Except.ok.inj h]
  refine harmless_of (fun n hn ↦ ?_) fun p hp ↦ ?_
  · obtain rfl | hn := List.mem_cons.1 hn
    · exact hself
    · exact htargets n hn
  · split at hp
    · exact gossipSent_of_sendPacket (pkt.sender r.remoteNode) hlen hself hp
    · exact absurd hp List.not_mem_nil

/-- **A PUSH packet arrives** that carries a gossip packet. -/
theorem handleNewPacket_push_gossip {p : RealPacket} (hp : GossipSent env.magic r.remoteNode p)
    (hle : p.payload.length ≤ 1381) (hbuf : r.buf = (pushOf p).encode env.magic ++ p.payload)
    (h : handleNewPacket env s r = .ok actions) :
    actions = [] ∨ actions = [.rendvErased p.dest.ident] ∨
      ∃ fd p', actions = [.pushed fd p'] ∧ s.rendvConnections[p.dest.ident]? = some fd ∧
        GossipTunnelled env.magic p.dest.ident p' := by
  have hheader : parse (Packet.parseHeader env.magic) r.buf = some (PUSH, 0) := by
    have hrange : InRange ((Packet.new 0).encode env.magic PUSH ++
        (encodeIdent ⟨p.dest.addr, p.dest.port⟩ ++ p.payload)) := by
      simp only [InRange, List.length_append, length_encode_packet, length_encodeIdent]
      omega
    rw [hbuf, PushPacket.encode, List.append_assoc]
    exact (parse_parseHeader hrange).trans (by rw [Packet.retReqID_new])
  rw [handleNewPacket, hheader] at h
  change handlePush env s r = _ at h
  rw [handlePush, hbuf, PushPacket.parse_pushOf hle] at h
  rcases Nat.lt_or_ge 1377 p.payload.length with hlt | hle'
  · rw [PushPacket.rewrap_of_lt (by omega) hlt] at h
    cases h
  · rw [PushPacket.rewrap_of_le hle'] at h
    dsimp only [deref, bind, Except.bind] at h
    split at h
    · exact Or.inl (Except.ok.inj h).symm
    · rename_i fd hfd
      split at h
      · exact Or.inr (Or.inl (Except.ok.inj h).symm)
      · refine Or.inr (Or.inr ⟨fd, _, (Except.ok.inj h).symm, hfd, ?_⟩)
        exact ⟨r.remoteNode, p.payload, rfl, hle', hp.1.symm, hp.2⟩

end Arrival

end InFlight

/-! ### The invariant -/

theorem Node.Avoids.addNodes {m : NodeIdent} {env : NodeEnv} {nodes : List NodeIdentRendv}
    (hne : ∀ n ∈ nodes, n.ident ≠ m) : ∀ {choices : List AddChoice} {s : Node}, s.Avoids m →
      (s.addNodes env nodes choices).Avoids m := by
  induction nodes with
  | nil => exact fun h ↦ h
  | cons n nodes ih =>
    intro choices s h
    have hrest := fun n hn ↦ hne n (List.mem_cons_of_mem _ hn)
    cases choices with
    | nil => exact h
    | cons choice choices =>
      cases choice with
      | none => exact ih hrest h
      | some ids => exact ih hrest (h.addNodeToRing (hne n List.mem_cons_self) ids.1 ids.2)

namespace Overlay

variable {ι D : Type} {net : Overlay ι D} {s s' : OverlayState ι} {i j : ι}

/-- What holds of a process. -/
structure Aloof (net : Overlay ι D) (i : ι) (p : GossipProcess ι) : Prop where
  node : p.node.Avoids (net.addr i)
  gossips : ∀ g ∈ p.gossips, g.2.ident ≠ net.addr i
  /-- A tunnel leads to the process whose address it is recorded under. -/
  ends : ∀ n fd, p.rendvConnections[n]? = some fd → ∃ c, p.ends fd = some c ∧ net.addr c = n

/-- What holds of the network. -/
structure Sound (net : Overlay ι D) (s : OverlayState ι) : Prop where
  processes : ∀ i, net.Aloof i (s.processes i)
  sent : ∀ msg ∈ s.sent, GossipSent net.magic (net.addr msg.1) msg.2
  tunnelled : ∀ msg ∈ s.tunnelled, GossipTunnelled net.magic (net.addr msg.1) msg.2

theorem init_sound : net.Sound net.init where
  processes := fun i ↦ ⟨Node.new_avoids _ _ _, by simp [init], by simp [init]⟩
  sent := by simp [init]
  tunnelled := by simp [init]

/-- Connections that are forgotten leave the others as they were. -/
theorem Aloof.erase {p : GossipProcess ι} (h : net.Aloof i p) (ns : List NodeIdent) :
    ∀ n fd, (ns.foldl (fun m n ↦ m.erase n) p.rendvConnections)[n]? = some fd →
      ∃ c, p.ends fd = some c ∧ net.addr c = n := by
  suffices hkeep : ∀ (m : NodeMap Int), (∀ n fd, m[n]? = some fd →
      ∃ c, p.ends fd = some c ∧ net.addr c = n) → ∀ n fd,
        (ns.foldl (fun m n ↦ m.erase n) m)[n]? = some fd →
          ∃ c, p.ends fd = some c ∧ net.addr c = n from hkeep _ h.ends
  induction ns with
  | nil => exact fun m hm ↦ hm
  | cons n₀ ns ih =>
    intro m hm
    refine ih (m.erase n₀) fun n fd hfd ↦ hm n fd ?_
    rw [Std.ExtTreeMap.getElem?_erase] at hfd
    split at hfd
    · exact absurd hfd (by simp)
    · exact hfd

variable [DecidableEq ι]

/-- One process changes, and packets are added. -/
theorem Sound.update (h : net.Sound s) {p : GossipProcess ι} (hp : net.Aloof i p)
    (outs tunnelled : List (ι × RealPacket))
    (houts : ∀ msg ∈ outs, GossipSent net.magic (net.addr msg.1) msg.2)
    (htunnelled : ∀ msg ∈ tunnelled, GossipTunnelled net.magic (net.addr msg.1) msg.2) :
    net.Sound ⟨Function.update s.processes i p, s.sent ++ outs, s.tunnelled ++ tunnelled⟩ where
  processes := by
    intro k
    dsimp only
    by_cases hk : k = i
    · subst hk
      rw [Function.update_self]
      exact hp
    · rw [Function.update_of_ne hk]
      exact h.processes k
  sent := fun msg hmsg ↦ (List.mem_append.1 hmsg).elim (h.sent msg) (houts msg)
  tunnelled := fun msg hmsg ↦ (List.mem_append.1 hmsg).elim (h.tunnelled msg) (htunnelled msg)

theorem Sound.set (h : net.Sound s) {p : GossipProcess ι} (hp : net.Aloof i p) :
    net.Sound (set i p s) := by
  have hset := h.update hp [] [] (by simp) (by simp)
  rw [List.append_nil, List.append_nil] at hset
  exact hset

theorem Sound.perform (h : net.Sound s) {choices : List AddChoice} {actions : List (Action D)}
    (hadded : ∀ n ∈ actions.filterMap Dispatch.addedNode?, n.ident ≠ net.addr j)
    (hsent : ∀ p ∈ actions.filterMap Dispatch.outPacket?, GossipSent net.magic (net.addr j) p)
    (hpushed : ∀ push ∈ actions.filterMap Dispatch.pushed?, ∀ c,
      (s.processes j).ends push.1 = some c → GossipTunnelled net.magic (net.addr c) push.2) :
    net.Sound (net.perform j choices actions s) := by
  have hp := h.processes j
  have haloof : net.Aloof j { s.processes j with
      node := (s.processes j).node.addNodes (net.env j).toNodeEnv
        (actions.filterMap Dispatch.addedNode?) choices
      rendvConnections := (actions.filterMap Dispatch.erased?).foldl (fun m n ↦ m.erase n)
        (s.processes j).rendvConnections } :=
    ⟨hp.node.addNodes hadded, hp.gossips, hp.erase _⟩
  refine h.update haloof _ _ ?_ ?_
  · intro msg hmsg
    obtain ⟨p, hp', rfl⟩ := List.mem_map.1 hmsg
    exact hsent p hp'
  · intro msg hmsg
    obtain ⟨push, hpush, hc⟩ := List.mem_filterMap.1 hmsg
    obtain ⟨c, hend, rfl⟩ := Option.map_eq_some_iff.1 hc
    exact hpushed push hpush c hend

/-- **A gossip packet arrives.** -/
theorem Sound.handle_gossip (h : net.Sound s) {remoteNode : NodeIdent} {buf : List UInt8}
    {draw : GossipDraw} (hne : remoteNode ≠ net.addr j)
    (hbuf : GossipFor net.magic (net.addr j) buf)
    (hs : net.handle j remoteNode buf draw s = some s') : net.Sound s' := by
  rw [Overlay.handle] at hs
  split at hs
  · cases hs
  · rename_i actions hactions
    rw [← Option.some.inj hs]
    have hharmless : Harmless (net.env j).magic (net.addr j) actions := by
      rw [← net.magic_eq j] at hbuf
      exact handleNewPacket_gossip hne hbuf (RingSet.length_getRandomNodes _ _) hactions
    refine h.perform hharmless.added (net.magic_eq j ▸ hharmless.sent) fun push hpush ↦ ?_
    rw [hharmless.pushed] at hpush
    exact absurd hpush List.not_mem_nil

/-- **A PUSH packet arrives.** -/
theorem Sound.handle_push (h : net.Sound s) {src : NodeIdent} {p : RealPacket} {draw : GossipDraw}
    (hp : GossipSent net.magic src p) (hle : p.payload.length ≤ 1381)
    (hs : net.handle j src ((pushOf p).encode net.magic ++ p.payload) draw s = some s') :
    net.Sound s' := by
  rw [Overlay.handle] at hs
  split at hs
  · cases hs
  · rename_i actions hactions
    rw [← Option.some.inj hs]
    rw [← net.magic_eq j] at hp hactions
    obtain rfl | rfl | ⟨fd, p', rfl, hfd, htunnelled⟩ :=
      handleNewPacket_push_gossip hp hle rfl hactions
    · exact h.perform (by simp) (by simp) (by simp)
    · refine h.perform ?_ ?_ ?_
      · simp [Dispatch.addedNode?]
      · simp [Dispatch.outPacket?]
      · simp [Dispatch.pushed?]
    · refine h.perform (by simp [Dispatch.addedNode?]) (by simp [Dispatch.outPacket?]) ?_
      intro push hpush c hc
      rw [show push = (fd, p') by simpa [Dispatch.pushed?] using hpush] at hc ⊢
      obtain ⟨c', hc', hcn⟩ := (h.processes j).ends _ _ hfd
      rw [hc'] at hc
      cases hc
      rw [← net.magic_eq j, hcn]
      exact htunnelled

theorem Sound.receive (h : net.Sound s) {m : ℕ} {draw : GossipDraw}
    (hs : net.step s (.receive j m draw) = some s') : net.Sound s' := by
  obtain ⟨msg, hmsg, hs⟩ := Option.bind_eq_some_iff.1 hs
  obtain ⟨p, hp, hs⟩ := Option.bind_eq_some_iff.1 hs
  have hsent := h.sent msg (List.mem_of_getElem? hmsg)
  rw [net.magic_eq] at hp
  split at hs
  · rename_i hdest
    rw [performSend] at hp
    split at hp
    · -- the rendavous of the destination
      have hsize : msg.2.payload.length < 2 ^ 31 := by
        obtain ⟨-, pkt, -, hfits, -⟩ := hsent
        rw [maxUdp_toNat] at hfits
        omega
      obtain ⟨hle, hpay⟩ := wrapPush_eq_some hsize hp
      rw [hpay] at hs
      exact h.handle_push hsent hle hs
    · -- the destination itself
      cases hp
      rw [GossipSent, hdest] at hsent
      exact h.handle_gossip hsent.1.symm hsent.2 hs
  · cases hs

theorem Sound.tunnel (h : net.Sound s) {m : ℕ} {draw : GossipDraw}
    (hs : net.step s (.tunnel m draw) = some s') : net.Sound s' := by
  obtain ⟨msg, hmsg, hs⟩ := Option.bind_eq_some_iff.1 hs
  obtain ⟨res, hres, hs⟩ := Option.bind_eq_some_iff.1 hs
  obtain ⟨src, payload, hpay, hle, hne, hgossip⟩ := h.tunnelled msg (List.mem_of_getElem? hmsg)
  rw [net.magic_eq, hpay, PullPacket.parse_receivedOf hle] at hres
  cases hres
  exact h.handle_gossip hne hgossip hs

theorem Sound.connect (h : net.Sound s) {fd : Int} (hs : net.step s (.connect i j fd) = some s') :
    net.Sound s' := by
  rw [Overlay.step] at hs
  split at hs
  · cases hs
  · rename_i hfree
    rw [← Option.some.inj hs]
    have hp := h.processes j
    refine h.set ⟨hp.node, hp.gossips, fun n fd' hfd' ↦ ?_⟩
    dsimp only at hfd' ⊢
    rw [Std.ExtTreeMap.getElem?_insert] at hfd'
    split at hfd'
    · rename_i heq
      cases hfd'
      exact ⟨i, Function.update_self .., Std.LawfulEqOrd.eq_of_compare heq⟩
    · -- another connection has another descriptor
      have hmem : (n, fd') ∈ ((s.processes j).rendvConnections.erase (net.addr i)).toList :=
        Std.ExtTreeMap.mem_toList_iff_getElem?_eq_some.2 hfd'
      have hne : fd' ≠ fd := by
        rintro rfl
        exact hfree (List.any_eq_true.2 ⟨(n, fd'), hmem, beq_self_eq_true _⟩)
      rw [Function.update_of_ne hne]
      exact hp.erase [net.addr i] n fd' hfd'

/-- The seeds are compared with the address of the process. -/
theorem Sound.start (h : net.Sound s) {seeds : List NodeIdentRendv} {choices : List AddChoice}
    (hs : net.step s (.start i seeds choices) = some s') : net.Sound s' := by
  rw [← Option.some.inj hs]
  have hp := h.processes i
  refine h.set ⟨hp.node.addNodes fun n hn ↦ ?_, hp.gossips, hp.ends⟩
  have hne := (List.mem_filter.1 hn).2
  simp only [decide_eq_true_eq] at hne
  exact (Node.ne_ident (hne.imp Ne.symm Ne.symm)).symm

theorem Sound.performGossip (h : net.Sound s) {rand : Fin MAX_NUM_RINGS → ℕ} {k : ℕ}
    {qid id probeId : UInt64} (hs : net.step s (.performGossip i rand k qid id probeId) = some s') :
    net.Sound s' := by
  obtain ⟨n, hn, rfl⟩ := Option.map_eq_some_iff.1 hs
  have hp := h.processes i
  -- a member of the rings, so another process
  have hne : n.ident ≠ net.addr i := by
    obtain ⟨r, hr⟩ := RingSet.mem_ring_of_getRandomNodes (List.mem_of_getElem? hn)
    intro heq
    exact hp.node.rings r (heq ▸ hr)
  refine h.set ⟨hp.node.addNodeToRing hne id probeId, fun g hg ↦ ?_, hp.ends⟩
  obtain hg | hg := List.mem_append.1 hg
  · exact hp.gossips g hg
  · rw [List.mem_singleton.1 hg]
    exact hne

theorem Sound.gossipLatency (h : net.Sound s) {rand : Fin MAX_NUM_RINGS → ℕ} {k : ℕ}
    (hs : net.step s (.gossipLatency i k rand) = some s') : net.Sound s' := by
  obtain ⟨g, hg, rfl⟩ := Option.map_eq_some_iff.1 hs
  have hp := h.processes i
  have hend := h.update (p := { s.processes i with gossips := (s.processes i).gossips.eraseIdx k })
    ⟨hp.node, fun g' hg' ↦ hp.gossips g' (List.mem_of_mem_eraseIdx hg'), hp.ends⟩
    (((gossipHandleLatency (net.env i).magic g.1 (net.env i).rendv
      ((s.processes i).node.rings.getRandomNodes rand) g.2).filterMap fun out ↦
        Dispatch.outPacket? (D := D) (.output out)).map fun out ↦ (i, out)) [] ?_
    (by simp)
  · rw [List.append_nil] at hend
    exact hend
  · intro msg hmsg
    obtain ⟨p, hp', rfl⟩ := List.mem_map.1 hmsg
    obtain ⟨out, hout, hpout⟩ := List.mem_filterMap.1 hp'
    rw [net.magic_eq] at hout
    have hpacket : out = .packet p := by
      cases out with
      | packet p' => exact congrArg Output.packet (Option.some.inj hpout)
      | probe n => exact absurd hpout (by simp [Dispatch.outPacket?])
      | reqProbe member => exact absurd hpout (by simp [Dispatch.outPacket?])
      | error err => exact absurd hpout (by simp [Dispatch.outPacket?])
    rw [hpacket] at hout
    exact gossipSent_of_sendPacket _ (RingSet.length_getRandomNodes _ _)
      (hp.gossips g (List.mem_of_getElem? hg)) hout

/-- **Every event keeps the invariant.** -/
theorem Sound.step (h : net.Sound s) {ev : OverlayEvent ι} (hs : net.step s ev = some s') :
    net.Sound s' := by
  cases ev with
  | start i seeds choices => exact h.start hs
  | other i ev =>
    have hp := h.processes i
    have hother (ev : Node.Event) (hev : ¬ ev.Adds (net.addr i))
        (hs : ((s.processes i).node.step (net.env i).toNodeEnv ev).map (fun node ↦
          Overlay.set i { s.processes i with node := node } s) = some s') : net.Sound s' := by
      obtain ⟨node, hnode, rfl⟩ := Option.map_eq_some_iff.1 hs
      exact h.set ⟨hp.node.step hev hnode, hp.gossips, hp.ends⟩
    cases ev with
    | addNode inRemote id probeId => cases hs
    | reqProbe kind srcNode remoteNodes id =>
      exact hother (.reqProbe kind srcNode remoteNodes id) not_false hs
    | ringManagement rand id => exact hother (.ringManagement rand id) not_false hs
    | other id => exact hother (.other id) not_false hs
    | otherFinished id => exact hother (.otherFinished id) not_false hs
    | packet inRemote inPacket elapsedUS =>
      exact hother (.packet inRemote inPacket elapsedUS) not_false hs
    | latency id inRemoteNodes => exact hother (.latency id inRemoteNodes) not_false hs
    | timeout id => exact hother (.timeout id) not_false hs
  | performGossip i rand k qid id probeId => exact h.performGossip hs
  | gossipLatency i k rand => exact h.gossipLatency hs
  | gossipTimeout i k =>
    rw [← Option.some.inj hs]
    have hp := h.processes i
    exact h.set ⟨hp.node, fun g hg ↦ hp.gossips g (List.mem_of_mem_eraseIdx hg), hp.ends⟩
  | connect i j fd => exact h.connect hs
  | disconnect j n =>
    rw [← Option.some.inj hs]
    have hp := h.processes j
    exact h.set ⟨hp.node, hp.gossips, hp.erase [n]⟩
  | receive j m draw => exact h.receive hs
  | tunnel m draw => exact h.tunnel hs

/-- **No process is in its own rings**, after any run, and no gossip packet names the node it is
for. -/
theorem never_own_member {events : List (OverlayEvent ι)}
    (hrun : run net.step net.init events = some s) :
    (∀ i, net.addr i ∉ Node.members (s.processes i).node.rings) ∧
      ∀ msg ∈ s.sent, ∃ pkt : GossipPacketGeneric, msg.2.payload = pkt.encode net.magic ∧
        ∀ t ∈ pkt.targets, t.ident ≠ msg.2.dest.ident := by
  have h : net.Sound s :=
    run_invariant' (P := net.Sound) (fun _ _ _ h hs ↦ h.step hs) init_sound hrun
  refine ⟨fun i ↦ (h.processes i).node.not_mem_members, fun msg hmsg ↦ ?_⟩
  obtain ⟨-, pkt, hpkt, -, htargets⟩ := h.sent msg hmsg
  exact ⟨pkt, hpkt, htargets⟩

end Overlay

/-- Two processes. -/
def twoProcesses : Overlay Bool UInt64 where
  magic := 7
  addr i := if i then ⟨1, 80⟩ else ⟨2, 80⟩
  env _ := ⟨⟨7, ⟨0, 0⟩, fun _ _ _ ↦ 1, fun _ ↦ 0⟩, MQL.Value.bitsXdr, fun _ _ ↦ none, fun _ ↦ -1, 3⟩
  magic_eq _ := rfl
  primarySize _ := 4
  secondarySize _ := 4

/-- The second has the first as a seed, and gossips with it. -/
def gossipEvents : List (OverlayEvent Bool) :=
  let pong (id : UInt64) := (Packet.new id).encode 7 PONG
  [.start false [⟨2, 80, 0, 0⟩, ⟨1, 80, 0, 0⟩] [some (5, 6)],
    .other false (.packet ⟨1, 80⟩ (pong 5) 1000),
    .performGossip false (fun _ ↦ 0) 0 8 9 10, .gossipLatency false 0 fun _ ↦ 0,
    .receive true 0 ⟨11, fun _ ↦ 0, [some (12, 13)]⟩,
    .other true (.packet ⟨2, 80⟩ (pong 12) 1000)]

theorem Overlay.never_own_member_two :
    ∃ s, run twoProcesses.step twoProcesses.init gossipEvents = some s ∧
      [true, false].map (fun i ↦ Node.members (s.processes i).node.rings) =
        [[⟨2, 80⟩], [⟨1, 80⟩]] ∧ s.sent.length = 2 ∧
      ∀ i, twoProcesses.addr i ∉ Node.members (s.processes i).node.rings := by
  obtain ⟨s, hs, hend⟩ := Option.map_eq_some_iff.1
    (show (run twoProcesses.step twoProcesses.init gossipEvents).map (fun s ↦
      ([true, false].map (fun i ↦ Node.members (s.processes i).node.rings), s.sent.length)) =
        some ([[⟨2, 80⟩], [⟨1, 80⟩]], 2) by decide +kernel)
  exact ⟨s, hs, congrArg Prod.fst hend, congrArg Prod.snd hend, (never_own_member hs).1⟩

end Meridian

import Meridian.Marshal.Tunnel
import Meridian.Lib.Run
import Mathlib.Data.Finset.Basic

/-!
# The host of rendavous tunnels

A node that is rendavous for others has a TCP connection for each of them in `g_rendvConnections`,
and in `g_rendvQueue`, under the descriptor of the connection, the packets that are to go down it.
`handleNewPacket` puts the packets in, and `handleRendavous` accepts connections, sends and closes.
`handleRendavous` goes by the descriptors that `select` has found writable, before the handlers in
front of it have run.

* A descriptor is an `Int`. The system gives out none that is open, and `select` none that was not
  asked for.
* The rest of the process opens, watches and closes descriptors of its own. Between `select` and
  `handleRendavous` it closes none that was open at the `select`: the sockets of the probes are
  closed when one of their queries times out, which is in a turn of the loop without
  `handleRendavous`, or by the handlers that follow it, and a new one when it cannot be connected.
* The node is not behind a firewall itself, so `g_rendvFD` is -1.

`HostProcess.Sound` is the invariant of the whole loop. A connection is in the snapshot only with a
packet in its queue, since its descriptor was not open at the `select` if the connection is newer.
-/

namespace Meridian

open Lib

/-- A `RealPacket` in a queue, with its `pos`: how much of it has been sent. -/
structure QueuedPacket where
  packet : RealPacket
  pos : Int
  deriving DecidableEq

namespace QueuedPacket

/-- `getPayLoadSize`. -/
def getPayLoadSize (p : QueuedPacket) : Int := p.packet.payload.length

/-- `incrPos`. -/
def incrPos (p : QueuedPacket) (val : Int) : QueuedPacket :=
  if 0 < val then { p with pos := p.pos + val } else p

/-- What is left to send. -/
def left (p : QueuedPacket) : Int := p.getPayLoadSize - p.pos

end QueuedPacket

/-- Why the process stops. -/
inductive RendvFault where
  /-- An assertion fails. -/
  | assertion
  /-- `front` of an empty list. -/
  | emptyFront
  /-- The address of the NULL that `PushPacket::parse` returns is read. -/
  | nullPacket
  deriving DecidableEq

/-- `g_rendvConnections`, `g_rendvQueue`, `g_writeSet`, and the descriptors that are open. -/
structure RendvHost where
  rendvConnections : NodeMap Int
  rendvQueue : Std.ExtTreeMap Int (List QueuedPacket)
  writeSet : Finset Int
  openFds : Finset Int

namespace RendvHost

/-- The case `PUSH` of `handleNewPacket`. The other cases are those of the rest of the process. -/
def handleNewPacket (magic : UInt32) (remoteNode : NodeIdent) (buf : List UInt8) (h : RendvHost) :
    Except RendvFault RendvHost :=
  match BufferWrapper.parse (Packet.parseHeader magic) buf with
  | none => .ok h
  | some (queryType, _) =>
    if queryType ≠ PUSH then .ok h
    else
      match PushPacket.parse magic remoteNode buf with
      | none => .error .nullPacket
      | some inPacket =>
        let destIdent : NodeIdent := ⟨inPacket.dest.addr, inPacket.dest.port⟩
        match h.rendvConnections[destIdent]? with
        | none => .ok h
        | some fd =>
          match h.rendvQueue[fd]? with
          -- the state is inconsistent, which is put right
          | none => .ok { h with rendvConnections := h.rendvConnections.erase destIdent }
          | some packets => .ok { h with
              rendvQueue := h.rendvQueue.insert fd (packets ++ [⟨inPacket, 0⟩])
              writeSet := insert fd h.writeSet }

/-- What `removeRendavousConnection` leaves. -/
def removed (it : NodeIdent × Int) (h : RendvHost) : RendvHost where
  rendvConnections := h.rendvConnections.erase it.1
  rendvQueue := h.rendvQueue.erase it.2
  writeSet := h.writeSet.erase it.2
  openFds := h.openFds.erase it.2

/-- `removeRendavousConnection`, where the iterator is the node and the descriptor it points to. -/
def removeRendavousConnection (h : RendvHost) (it : NodeIdent × Int) :
    Except RendvFault RendvHost :=
  match h.rendvQueue[it.2]? with
  | none => .error .assertion
  | some _ => .ok (h.removed it)

/-- A new connection in both maps. -/
def added (remoteNode : NodeIdent) (newRendvSock : Int) (h : RendvHost) : RendvHost where
  rendvConnections := h.rendvConnections.insert remoteNode newRendvSock
  rendvQueue := h.rendvQueue.insert newRendvSock []
  writeSet := h.writeSet
  openFds := insert newRendvSock h.openFds

/-- The check for new requests: the address and the descriptor that `accept` returns, if it is
called and succeeds. -/
def acceptTunnel (accepted : Option (NodeIdent × Int)) (h : RendvHost) :
    Except RendvFault RendvHost :=
  match accepted with
  | none => .ok h
  | some (remoteNode, newRendvSock) => do
    let h ← match h.rendvConnections[remoteNode]? with
      | none => .ok h
      | some oldSock => h.removeRendavousConnection (remoteNode, oldSock)
    return h.added remoteNode newRendvSock

section

variable (curWriteSet : Finset Int) (send : Int → Int → Int)

/-- One connection in the loop of `handleRendavous`, with the connections that are to be removed.
`send fd n` is what `send` returns for `n` bytes. -/
def sendTunnel (s : RendvHost × List (NodeIdent × Int)) (it : NodeIdent × Int) :
    Except RendvFault (RendvHost × List (NodeIdent × Int)) :=
  let (h, deleteVector) := s
  if it.2 ∈ curWriteSet then
    match h.rendvQueue[it.2]? with
    | none => .error .assertion
    | some [] => .error .emptyFront
    | some (curPacket :: rest) =>
      let sendRet := send it.2 curPacket.left
      if sendRet = -1 ∨ sendRet = 0 then .ok (h, deleteVector ++ [it])
      else if sendRet = curPacket.left then
        .ok ({ h with
          rendvQueue := h.rendvQueue.insert it.2 rest
          writeSet := if rest.isEmpty then h.writeSet.erase it.2 else h.writeSet }, deleteVector)
      else
        .ok ({ h with
          rendvQueue := h.rendvQueue.insert it.2 (curPacket.incrPos sendRet :: rest) },
          deleteVector)
  else .ok s

/-- `handleRendavous` on a host. -/
def handleRendavous (accepted : Option (NodeIdent × Int)) (h : RendvHost) :
    Except RendvFault RendvHost := do
  let h ← h.acceptTunnel accepted
  let (h, deleteVector) ← h.rendvConnections.toList.foldlM (sendTunnel curWriteSet send) (h, [])
  deleteVector.foldlM removeRendavousConnection h

end

end RendvHost

/-! ### The loop of the process -/

/-- The host within its process: the descriptors that the rest has opened; and between `select` and
`handleRendavous` what `select` has found writable, and what was open then. -/
structure HostProcess where
  host : RendvHost
  others : Finset Int
  snapshot : Option (Finset Int × Finset Int)

/-- What happens to a host. -/
inductive HostEvent where
  /-- `select` finds these descriptors writable. -/
  | select (ready : Finset Int)
  /-- `readPacket` receives a datagram. -/
  | packet (remoteNode : NodeIdent) (buf : List UInt8)
  /-- `handleRendavous` is called. -/
  | handleRendavous (accepted : Option (NodeIdent × Int)) (send : Int → Int → Int)
  /-- The rest of the process opens a descriptor. -/
  | openFd (fd : Int)
  /-- It puts one into `g_writeSet`. -/
  | watch (fd : Int)
  /-- It takes one out. -/
  | unwatch (fd : Int)
  /-- It takes one out and closes it. -/
  | closeFd (fd : Int)

namespace HostProcess

/-- A process before its loop, with descriptors of its own. -/
def start (others : Finset Int) : HostProcess := ⟨⟨∅, ∅, ∅, others⟩, others, none⟩

variable (magic : UInt32)

/-- One event. -/
def step (s : HostProcess) : HostEvent → Except RendvFault HostProcess
  | .select ready => .ok { s with snapshot := some (ready, s.host.openFds) }
  | .packet remoteNode buf => do
    let host ← s.host.handleNewPacket magic remoteNode buf
    return { s with host }
  | .handleRendavous accepted send => do
    let host ← s.host.handleRendavous (s.snapshot.getD (∅, ∅)).1 send accepted
    return { s with host, snapshot := none }
  | .openFd fd => .ok { s with
      host := { s.host with openFds := insert fd s.host.openFds }
      others := insert fd s.others }
  | .watch fd => .ok { s with host := { s.host with writeSet := insert fd s.host.writeSet } }
  | .unwatch fd => .ok { s with host := { s.host with writeSet := s.host.writeSet.erase fd } }
  | .closeFd fd => .ok { s with
      host := { s.host with
        writeSet := s.host.writeSet.erase fd
        openFds := s.host.openFds.erase fd }
      others := s.others.erase fd }

/-- One event, where a fault ends the run. -/
def step? (s : HostProcess) (e : HostEvent) : Option HostProcess := (s.step magic e).toOption

variable {magic}

/-- What the system and the rest of the process keep to. -/
def Allowed (s : HostProcess) : HostEvent → Prop
  | .select ready => ready ⊆ s.host.writeSet
  | .packet _ buf => buf.length ≤ MAX_UDP_PACKET_SIZE.toNat
  | .handleRendavous accepted send =>
    (∀ node fd, accepted = some (node, fd) → fd ∉ s.host.openFds) ∧ ∀ fd n, 0 < n → send fd n ≤ n
  | .openFd fd => fd ∉ s.host.openFds
  | .watch fd => fd ∈ s.others
  | .unwatch fd => fd ∈ s.others
  | .closeFd fd => fd ∈ s.others ∧
    ∀ curWriteSet opened, s.snapshot = some (curWriteSet, opened) → fd ∉ opened

end HostProcess

namespace RendvHost

/-- The bookkeeping of a host: every descriptor with a queue belongs to one connection and every
connection has a queue; a queue is watched while there is something in it; and only the first packet
of a queue may have been sent in part. -/
structure Bookkeeping (h : RendvHost) : Prop where
  tunnels : ∀ fd : Int, fd ∈ h.rendvQueue ↔ ∃! node : NodeIdent, h.rendvConnections[node]? = some fd
  connected : ∀ (node : NodeIdent) (fd : Int), h.rendvConnections[node]? = some fd →
    fd ∈ h.rendvQueue
  watched : ∀ (fd : Int) packets, h.rendvQueue[fd]? = some packets →
    (fd ∈ h.writeSet ↔ packets ≠ [])
  head : ∀ (fd : Int) head rest, h.rendvQueue[fd]? = some (head :: rest) →
    0 ≤ head.pos ∧ head.pos < head.getPayLoadSize
  tail : ∀ (fd : Int) head rest, h.rendvQueue[fd]? = some (head :: rest) → ∀ p ∈ rest, p.pos = 0

/-- The offsets of a queue, whose packets are not empty. -/
def Offsets : List QueuedPacket → Prop
  | [] => True
  | p :: rest => 0 ≤ p.pos ∧ 0 < p.left ∧ ∀ q ∈ rest, q.pos = 0 ∧ 0 < q.left

/-- A descriptor with its queue, in a process with other descriptors. -/
structure Tunnel (others : Finset Int) (h : RendvHost) (fd : Int) (packets : List QueuedPacket) :
    Prop where
  connection : ∃ node : NodeIdent, h.rendvConnections[node]? = some fd
  watched : fd ∈ h.writeSet ↔ packets ≠ []
  offsets : Offsets packets
  not_others : fd ∉ others
  isOpen : fd ∈ h.openFds

/-- The invariant of a host. -/
structure Kept (others : Finset Int) (h : RendvHost) : Prop where
  tunnel : ∀ {fd : Int} {packets}, h.rendvQueue[fd]? = some packets → h.Tunnel others fd packets
  queue_of_connection : ∀ {node : NodeIdent} {fd : Int}, h.rendvConnections[node]? = some fd →
    ∃ packets, h.rendvQueue[fd]? = some packets
  node_unique : ∀ {n m : NodeIdent} {fd : Int}, h.rendvConnections[n]? = some fd →
    h.rendvConnections[m]? = some fd → n = m
  others_open : ∀ {fd}, fd ∈ others → fd ∈ h.openFds
  writeSet_owned : ∀ {fd : Int}, fd ∈ h.writeSet →
    fd ∈ others ∨ ∃ packets, h.rendvQueue[fd]? = some packets

variable {others curWriteSet : Finset Int} {h : RendvHost}

theorem Kept.bookkeeping (hk : h.Kept others) : h.Bookkeeping where
  tunnels fd := by
    rw [← Std.ExtTreeMap.isSome_getElem?_iff_mem, Option.isSome_iff_exists]
    constructor
    · rintro ⟨packets, hq⟩
      obtain ⟨node, hnode⟩ := (hk.tunnel hq).connection
      exact ⟨node, hnode, fun m hm ↦ hk.node_unique hm hnode⟩
    · rintro ⟨node, hnode, -⟩
      exact hk.queue_of_connection hnode
  connected node fd hnode := by
    rw [← Std.ExtTreeMap.isSome_getElem?_iff_mem, Option.isSome_iff_exists]
    exact hk.queue_of_connection hnode
  watched fd packets hq := (hk.tunnel hq).watched
  head fd head rest hq := by
    obtain ⟨hpos, hleft, -⟩ := (hk.tunnel hq).offsets
    refine ⟨hpos, ?_⟩
    rw [QueuedPacket.left] at hleft
    omega
  tail fd head rest hq p hp := ((hk.tunnel hq).offsets.2.2 p hp).1

/-! ### What the operations keep -/

/-- A queue changes, and its descriptor is watched if there is something in it. -/
theorem Kept.setQueue (hk : h.Kept others) {fd : Int} {packets packets' : List QueuedPacket}
    {writeSet : Finset Int} (hq : h.rendvQueue[fd]? = some packets) (hoff : Offsets packets')
    (hws : ∀ g, fd ≠ g → (g ∈ writeSet ↔ g ∈ h.writeSet)) (hfd : fd ∈ writeSet ↔ packets' ≠ []) :
    Kept others { h with rendvQueue := h.rendvQueue.insert fd packets', writeSet } where
  tunnel {g ps} hg := by
    rcases Lib.getElem?_insert_eq_some.1 hg with ⟨rfl, rfl⟩ | ⟨hne, hg⟩
    · exact { hk.tunnel hq with watched := hfd, offsets := hoff }
    · exact { hk.tunnel hg with watched := (hws g hne).trans (hk.tunnel hg).watched }
  queue_of_connection hnode := Lib.exists_getElem?_insert fun _ ↦ hk.queue_of_connection hnode
  node_unique := hk.node_unique
  others_open := hk.others_open
  writeSet_owned {g} hg := by
    by_cases hne : fd = g
    · exact Or.inr (Lib.exists_getElem?_insert fun h ↦ absurd hne h)
    · refine (hk.writeSet_owned ((hws g hne).1 hg)).imp_right fun hq ↦ ?_
      exact Lib.exists_getElem?_insert fun _ ↦ hq

/-- A connection is removed. -/
theorem Kept.removed (hk : h.Kept others) {node : NodeIdent} {fd : Int}
    (hnode : h.rendvConnections[node]? = some fd) : (h.removed (node, fd)).Kept others where
  tunnel {g ps} hg := by
    obtain ⟨hne, hg⟩ := Lib.getElem?_erase_eq_some.1 hg
    obtain ⟨⟨m, hm⟩, hwatched, hoff, hothers, hopen⟩ := hk.tunnel hg
    refine ⟨⟨m, Lib.getElem?_erase_eq_some.2 ⟨?_, hm⟩⟩, ?_, hoff, hothers, ?_⟩
    · rintro rfl
      exact hne (Option.some.inj (hnode.symm.trans hm))
    · exact (Finset.mem_erase.trans (and_iff_right hne.symm)).trans hwatched
    · exact Finset.mem_erase.2 ⟨hne.symm, hopen⟩
  queue_of_connection {m g} hm := by
    obtain ⟨hne, hm⟩ := Lib.getElem?_erase_eq_some.1 hm
    obtain ⟨packets, hq⟩ := hk.queue_of_connection hm
    refine ⟨packets, Lib.getElem?_erase_eq_some.2 ⟨?_, hq⟩⟩
    rintro rfl
    exact hne (hk.node_unique hnode hm)
  node_unique hn hm :=
    hk.node_unique (Lib.getElem?_erase_eq_some.1 hn).2 (Lib.getElem?_erase_eq_some.1 hm).2
  others_open {g} hg := by
    refine Finset.mem_erase.2 ⟨?_, hk.others_open hg⟩
    rintro rfl
    obtain ⟨packets, hq⟩ := hk.queue_of_connection hnode
    exact (hk.tunnel hq).not_others hg
  writeSet_owned {g} hg := by
    obtain ⟨hne, hg⟩ := Finset.mem_erase.1 hg
    refine (hk.writeSet_owned hg).imp_right ?_
    rintro ⟨packets, hq⟩
    exact ⟨packets, Lib.getElem?_erase_eq_some.2 ⟨Ne.symm hne, hq⟩⟩

/-- A connection is added, with a descriptor that was not open. -/
theorem Kept.added (hk : h.Kept others) {node : NodeIdent} {fd : Int}
    (hnode : h.rendvConnections[node]? = none) (hfresh : fd ∉ h.openFds) :
    (h.added node fd).Kept others := by
  exact {
    tunnel := by
      intro g ps hg
      rcases Lib.getElem?_insert_eq_some.1 hg with ⟨rfl, rfl⟩ | ⟨hne, hg⟩
      · refine ⟨⟨node, Std.ExtTreeMap.getElem?_insert_self⟩, ?_, trivial, ?_, ?_⟩
        · refine iff_of_false (fun hws ↦ ?_) (fun h ↦ h rfl)
          rcases hk.writeSet_owned hws with hothers | ⟨packets, hq⟩
          · exact hfresh (hk.others_open hothers)
          · exact hfresh (hk.tunnel hq).isOpen
        · exact fun hothers ↦ hfresh (hk.others_open hothers)
        · exact Finset.mem_insert_self fd h.openFds
      · obtain ⟨⟨m, hm⟩, hwatched, hoff, hothers, hopen⟩ := hk.tunnel hg
        refine ⟨⟨m, Lib.getElem?_insert_eq_some.2 (Or.inr ⟨?_, hm⟩)⟩, hwatched, hoff, hothers, ?_⟩
        · rintro rfl
          rw [hnode] at hm
          nomatch hm
        · exact Finset.mem_insert_of_mem hopen
    queue_of_connection := by
      intro m g hm
      rcases Lib.getElem?_insert_eq_some.1 hm with ⟨rfl, rfl⟩ | ⟨hne, hm⟩
      · exact Lib.exists_getElem?_insert fun hne ↦ absurd rfl hne
      · exact Lib.exists_getElem?_insert fun _ ↦ hk.queue_of_connection hm
    node_unique := by
      -- a new descriptor belongs to no older connection
      have hold : ∀ {m : NodeIdent}, h.rendvConnections[m]? ≠ some fd := by
        intro m hm
        obtain ⟨packets, hq⟩ := hk.queue_of_connection hm
        exact hfresh (hk.tunnel hq).isOpen
      intro n m g hn hm
      rcases Lib.getElem?_insert_eq_some.1 hn with ⟨rfl, rfl⟩ | ⟨-, hn⟩
      · rcases Lib.getElem?_insert_eq_some.1 hm with ⟨rfl, -⟩ | ⟨-, hm⟩
        · rfl
        · exact absurd hm hold
      · rcases Lib.getElem?_insert_eq_some.1 hm with ⟨-, rfl⟩ | ⟨-, hm⟩
        · exact absurd hn hold
        · exact hk.node_unique hn hm
    others_open := fun hg ↦ Finset.mem_insert_of_mem (hk.others_open hg)
    writeSet_owned := fun hg ↦ (hk.writeSet_owned hg).imp_right fun hq ↦
      Lib.exists_getElem?_insert fun _ ↦ hq }

/-- `g_writeSet` changes for descriptors of the rest. -/
theorem Kept.setWriteSet (hk : h.Kept others) {writeSet : Finset Int}
    (hws : ∀ g, g ∉ others → (g ∈ writeSet ↔ g ∈ h.writeSet)) :
    Kept others { h with writeSet } where
  tunnel {g ps} hg :=
    have ht := hk.tunnel hg
    { ht with watched := (hws g ht.not_others).trans ht.watched }
  queue_of_connection := hk.queue_of_connection
  node_unique := hk.node_unique
  others_open := hk.others_open
  writeSet_owned {g} hg := by
    by_cases hothers : g ∈ others
    · exact Or.inl hothers
    · exact hk.writeSet_owned ((hws g hothers).1 hg)

/-- The rest opens a descriptor. -/
theorem Kept.openOther (hk : h.Kept others) {fd : Int} (hfresh : fd ∉ h.openFds) :
    Kept (insert fd others) { h with openFds := insert fd h.openFds } where
  tunnel {g ps} hg := by
    have ht := hk.tunnel hg
    refine { ht with
      not_others := fun hmem ↦ ?_
      isOpen := Finset.mem_insert_of_mem ht.isOpen }
    rcases Finset.mem_insert.1 hmem with rfl | hmem
    · exact hfresh ht.isOpen
    · exact ht.not_others hmem
  queue_of_connection := hk.queue_of_connection
  node_unique := hk.node_unique
  others_open {g} hg := by
    rcases Finset.mem_insert.1 hg with rfl | hg
    · exact Finset.mem_insert_self ..
    · exact Finset.mem_insert_of_mem (hk.others_open hg)
  writeSet_owned hg := (hk.writeSet_owned hg).imp_left Finset.mem_insert_of_mem

/-- The rest closes one. -/
theorem Kept.closeOther (hk : h.Kept others) {fd : Int} (hfd : fd ∈ others) :
    Kept (others.erase fd) { h with
      writeSet := h.writeSet.erase fd
      openFds := h.openFds.erase fd } where
  tunnel {g ps} hg := by
    have ht := hk.tunnel hg
    have hne : g ≠ fd := by
      rintro rfl
      exact ht.not_others hfd
    exact { ht with
      watched := (Finset.mem_erase.trans (and_iff_right hne)).trans ht.watched
      not_others := fun hmem ↦ ht.not_others (Finset.mem_of_mem_erase hmem)
      isOpen := Finset.mem_erase.2 ⟨hne, ht.isOpen⟩ }
  queue_of_connection := hk.queue_of_connection
  node_unique := hk.node_unique
  others_open {g} hg :=
    Finset.mem_erase.2 ⟨(Finset.mem_erase.1 hg).1, hk.others_open (Finset.mem_of_mem_erase hg)⟩
  writeSet_owned {g} hg := by
    obtain ⟨hne, hg⟩ := Finset.mem_erase.1 hg
    exact (hk.writeSet_owned hg).imp_left fun hothers ↦ Finset.mem_erase.2 ⟨hne, hothers⟩

/-! ### The phases of `handleRendavous` -/

theorem removeRendavousConnection_ok (hk : h.Kept others) {it : NodeIdent × Int}
    (hit : h.rendvConnections[it.1]? = some it.2) :
    h.removeRendavousConnection it = .ok (h.removed it) := by
  obtain ⟨packets, hq⟩ := hk.queue_of_connection hit
  rw [removeRendavousConnection, hq]

/-- A connection is accepted, and an older one of the same node removed. -/
theorem acceptTunnel_ok (hk : h.Kept others) {accepted : Option (NodeIdent × Int)}
    (hfresh : ∀ node fd, accepted = some (node, fd) → fd ∉ h.openFds) :
    ∃ h', h.acceptTunnel accepted = .ok h' ∧ h'.Kept others ∧
      ∀ {fd : Int} {packets}, h'.rendvQueue[fd]? = some packets →
        h.rendvQueue[fd]? = some packets ∨ fd ∉ h.openFds := by
  cases accepted with
  | none => exact ⟨h, rfl, hk, Or.inl⟩
  | some it =>
    obtain ⟨node, fd⟩ := it
    have hfd : fd ∉ h.openFds := hfresh node fd rfl
    rw [acceptTunnel]
    cases hnode : h.rendvConnections[node]? with
    | none =>
      refine ⟨h.added node fd, rfl, hk.added hnode hfd, fun hg ↦ ?_⟩
      rcases Lib.getElem?_insert_eq_some.1 hg with ⟨rfl, -⟩ | ⟨-, hg⟩
      · exact Or.inr hfd
      · exact Or.inl hg
    | some oldSock =>
      refine ⟨(h.removed (node, oldSock)).added node fd, ?_, ?_, fun hg ↦ ?_⟩
      · have hremoved : h.removeRendavousConnection (node, oldSock) = .ok _ :=
          removeRendavousConnection_ok hk hnode
        dsimp only
        rw [hremoved]
        rfl
      · refine (hk.removed hnode).added Std.ExtTreeMap.getElem?_erase_self fun hopen ↦ ?_
        exact hfd (Finset.mem_of_mem_erase hopen)
      · rcases Lib.getElem?_insert_eq_some.1 hg with ⟨rfl, -⟩ | ⟨-, hg⟩
        · exact Or.inr hfd
        · exact Or.inl (Lib.getElem?_erase_eq_some.1 hg).2

/-- The first packet of a queue is sent whole. -/
theorem Offsets.tail {p : QueuedPacket} {rest : List QueuedPacket} (h : Offsets (p :: rest)) :
    Offsets rest := by
  cases rest with
  | nil => trivial
  | cons q rest =>
    obtain ⟨hpos, hleft⟩ := h.2.2 q List.mem_cons_self
    exact ⟨hpos.ge, hleft, fun r hr ↦ h.2.2 r (List.mem_cons_of_mem _ hr)⟩

/-- A part of it is sent. -/
theorem Offsets.incrPos {p : QueuedPacket} {rest : List QueuedPacket} {val : Int}
    (h : Offsets (p :: rest)) (hlt : val < p.left) : Offsets (p.incrPos val :: rest) := by
  obtain ⟨hpos, hleft, hrest⟩ := h
  rw [QueuedPacket.incrPos]
  split
  · next hval =>
    have hsent : 0 < (⟨p.packet, p.pos + val⟩ : QueuedPacket).left := by
      rw [QueuedPacket.left] at hlt ⊢
      change 0 < p.getPayLoadSize - (p.pos + val)
      omega
    exact ⟨Int.add_nonneg hpos hval.le, hsent, hrest⟩
  · exact ⟨hpos, hleft, hrest⟩

/-- A packet comes to the end of a queue. -/
theorem Offsets.concat {p : QueuedPacket} {packets : List QueuedPacket} (h : Offsets packets)
    (hpos : p.pos = 0) (hleft : 0 < p.left) : Offsets (packets ++ [p]) := by
  cases packets with
  | nil => exact ⟨hpos.ge, hleft, List.forall_mem_nil _⟩
  | cons q rest =>
    obtain ⟨hq, hqleft, hrest⟩ := h
    refine ⟨hq, hqleft, fun r hr ↦ ?_⟩
    rcases List.mem_append.1 hr with hr | hr
    · exact hrest r hr
    · obtain rfl := List.mem_singleton.1 hr
      exact ⟨hpos, hleft⟩

section Send

variable {send : Int → Int → Int} {its : List (NodeIdent × Int)}

/-- What the loop changes over these connections: the queues of their descriptors. -/
structure Passed (others : Finset Int) (its : List (NodeIdent × Int)) (h h' : RendvHost) :
    Prop where
  kept : h'.Kept others
  connections : h'.rendvConnections = h.rendvConnections
  frame : ∀ fd : Int, fd ∉ its.map Prod.snd → h'.rendvQueue[fd]? = h.rendvQueue[fd]?

theorem Passed.setQueue (hk : h.Kept others) {it : NodeIdent × Int}
    {packets packets' : List QueuedPacket} {writeSet : Finset Int}
    (hq : h.rendvQueue[it.2]? = some packets) (hoff : Offsets packets')
    (hws : ∀ g, it.2 ≠ g → (g ∈ writeSet ↔ g ∈ h.writeSet))
    (hfd : it.2 ∈ writeSet ↔ packets' ≠ []) :
    Passed others [it] h { h with rendvQueue := h.rendvQueue.insert it.2 packets', writeSet } := by
  refine ⟨hk.setQueue hq hoff hws hfd, rfl, fun fd hfd ↦ ?_⟩
  show (h.rendvQueue.insert it.2 packets')[fd]? = h.rendvQueue[fd]?
  exact Lib.getElem?_insert_of_ne fun heq ↦ hfd (List.mem_singleton.2 heq)

/-- **One connection of the loop**, which is in the snapshot only with something in its queue. -/
theorem sendTunnel_ok (hk : h.Kept others) (hsend : ∀ fd n, 0 < n → send fd n ≤ n)
    {it : NodeIdent × Int} (hit : h.rendvConnections[it.1]? = some it.2)
    (hcur : it.2 ∈ curWriteSet → h.rendvQueue[it.2]? ≠ some [])
    (deleteVector : List (NodeIdent × Int)) :
    ∃ h' dead, sendTunnel curWriteSet send (h, deleteVector) it = .ok (h', deleteVector ++ dead) ∧
      dead.Sublist [it] ∧ Passed others [it] h h' := by
  by_cases hmem : it.2 ∈ curWriteSet
  · obtain ⟨packets, hq⟩ := hk.queue_of_connection hit
    cases packets with
    | nil => exact absurd hq (hcur hmem)
    | cons curPacket rest =>
      obtain ⟨-, hwatched, hoff, -, -⟩ := hk.tunnel hq
      have hws : it.2 ∈ h.writeSet := hwatched.2 (List.cons_ne_nil _ _)
      have hle := hsend it.2 curPacket.left hoff.2.1
      by_cases hclosed : send it.2 curPacket.left = -1 ∨ send it.2 curPacket.left = 0
      · refine ⟨h, [it], ?_, List.Sublist.refl _, hk, rfl, fun _ _ ↦ rfl⟩
        simp only [sendTunnel, if_pos hmem, hq, if_pos hclosed]
      · by_cases hall : send it.2 curPacket.left = curPacket.left
        · have heq : sendTunnel curWriteSet send (h, deleteVector) it = .ok ({ h with
              rendvQueue := h.rendvQueue.insert it.2 rest
              writeSet := if rest.isEmpty then h.writeSet.erase it.2 else h.writeSet },
              deleteVector ++ []) := by
            simp only [sendTunnel, if_pos hmem, hq, if_neg hclosed, if_pos hall, List.append_nil]
          refine ⟨_, [], heq, List.nil_sublist _, Passed.setQueue hk hq hoff.tail ?_ ?_⟩
          · intro g hne
            cases rest with
            | nil => exact Finset.mem_erase.trans (and_iff_right (Ne.symm hne))
            | cons p rest => exact Iff.rfl
          · cases rest with
            | nil => exact iff_of_false (Finset.notMem_erase it.2 h.writeSet) (fun h ↦ h rfl)
            | cons p rest => exact iff_of_true hws (List.cons_ne_nil _ _)
        · refine ⟨_, [], ?_, List.nil_sublist _, Passed.setQueue hk hq
            (hoff.incrPos (lt_of_le_of_ne hle hall)) (fun _ _ ↦ Iff.rfl)
            (iff_of_true hws (List.cons_ne_nil _ _))⟩
          simp only [sendTunnel, if_pos hmem, hq, if_neg hclosed, if_neg hall, List.append_nil]
  · refine ⟨h, [], ?_, List.nil_sublist _, hk, rfl, fun _ _ ↦ rfl⟩
    simp only [sendTunnel, if_neg hmem, List.append_nil]

/-- **The loop**, over connections of different nodes. -/
theorem sendTunnels_ok (hk : h.Kept others) (hsend : ∀ fd n, 0 < n → send fd n ≤ n)
    (hits : ∀ it ∈ its, h.rendvConnections[it.1]? = some it.2) (hnodup : (its.map Prod.snd).Nodup)
    (hcur : ∀ it ∈ its, it.2 ∈ curWriteSet → h.rendvQueue[it.2]? ≠ some [])
    (deleteVector : List (NodeIdent × Int)) :
    ∃ h' dead, its.foldlM (sendTunnel curWriteSet send) (h, deleteVector) =
        .ok (h', deleteVector ++ dead) ∧
      dead.Sublist its ∧ Passed others its h h' := by
  induction its generalizing h deleteVector with
  | nil =>
    refine ⟨h, [], ?_, List.nil_sublist _, hk, rfl, fun _ _ ↦ rfl⟩
    rw [List.foldlM_nil, List.append_nil]
    rfl
  | cons it its ih =>
    rw [List.map_cons, List.nodup_cons] at hnodup
    obtain ⟨h₁, dead₁, hstep, hdead₁, hpassed₁⟩ := sendTunnel_ok hk hsend
      (hits it List.mem_cons_self) (hcur it List.mem_cons_self) deleteVector
    have hits₁ : ∀ jt ∈ its, h₁.rendvConnections[jt.1]? = some jt.2 := by
      rw [hpassed₁.connections]
      exact fun jt hjt ↦ hits jt (List.mem_cons_of_mem _ hjt)
    have hcur₁ : ∀ jt ∈ its, jt.2 ∈ curWriteSet → h₁.rendvQueue[jt.2]? ≠ some [] := by
      intro jt hjt
      -- its descriptor is another one, so its queue has not changed
      have hne : jt.2 ∉ [it].map Prod.snd := fun hmem ↦ by
        have heq : jt.2 = it.2 := List.mem_singleton.1 hmem
        exact hnodup.1 (heq ▸ List.mem_map_of_mem hjt)
      rw [hpassed₁.frame jt.2 hne]
      exact hcur jt (List.mem_cons_of_mem _ hjt)
    obtain ⟨h₂, dead₂, hloop, hdead₂, hpassed₂⟩ := ih hpassed₁.kept hits₁ hnodup.2 hcur₁
      (deleteVector ++ dead₁)
    refine ⟨h₂, dead₁ ++ dead₂, ?_, hdead₁.append hdead₂, hpassed₂.kept, ?_, fun fd hfd ↦ ?_⟩
    · rw [List.foldlM_cons, hstep, ← List.append_assoc]
      exact hloop
    · exact hpassed₂.connections.trans hpassed₁.connections
    · rw [List.map_cons, List.mem_cons, not_or] at hfd
      rw [hpassed₂.frame fd hfd.2]
      exact hpassed₁.frame fd fun hmem ↦ hfd.1 (List.mem_singleton.1 hmem)

/-- **The clean-up**, over connections of different nodes. -/
theorem removeTunnels_ok (hk : h.Kept others)
    (hits : ∀ it ∈ its, h.rendvConnections[it.1]? = some it.2) (hnodup : (its.map Prod.snd).Nodup) :
    ∃ h', its.foldlM removeRendavousConnection h = .ok h' ∧ h'.Kept others := by
  induction its generalizing h with
  | nil => exact ⟨h, rfl, hk⟩
  | cons it its ih =>
    rw [List.map_cons, List.nodup_cons] at hnodup
    have hit := hits it List.mem_cons_self
    rw [List.foldlM_cons, removeRendavousConnection_ok hk hit]
    refine ih (hk.removed hit) (fun jt hjt ↦ ?_) hnodup.2
    have hconn := hits jt (List.mem_cons_of_mem _ hjt)
    refine Lib.getElem?_erase_eq_some.2 ⟨fun hnode ↦ hnodup.1 ?_, hconn⟩
    rw [hnode] at hit
    rw [Option.some.inj (hit.symm.trans hconn)]
    exact List.mem_map_of_mem hjt

/-- The descriptors of the connections are different. -/
theorem Kept.nodup_fds (hk : h.Kept others) : (h.rendvConnections.toList.map Prod.snd).Nodup := by
  have hkeys : h.rendvConnections.toList.Pairwise fun a b ↦ a.1 ≠ b.1 := by
    have hnodup := nodup_keys h.rendvConnections
    rw [← Std.ExtTreeMap.map_fst_toList_eq_keys] at hnodup
    exact List.pairwise_map.1 hnodup
  refine List.pairwise_map.2 (hkeys.imp_of_mem fun {a b} ha hb hne heq ↦ hne ?_)
  have ha := Std.ExtTreeMap.mem_toList_iff_getElem?_eq_some.1 ha
  have hb := Std.ExtTreeMap.mem_toList_iff_getElem?_eq_some.1 hb
  exact hk.node_unique ha (heq ▸ hb)

/-- **`handleRendavous` meets no fault and keeps the invariant**, if the snapshot has descriptors of
the process in it, and of its connections only those with something in their queues. -/
theorem handleRendavous_ok (hk : h.Kept others) {accepted : Option (NodeIdent × Int)}
    (hfresh : ∀ node fd, accepted = some (node, fd) → fd ∉ h.openFds)
    (hsend : ∀ fd n, 0 < n → send fd n ≤ n) (hopen : curWriteSet ⊆ h.openFds)
    (hcur : ∀ fd ∈ curWriteSet, h.rendvQueue[fd]? ≠ some []) :
    ∃ h', h.handleRendavous curWriteSet send accepted = .ok h' ∧ h'.Kept others := by
  obtain ⟨h₁, haccept, hk₁, hqueue⟩ := acceptTunnel_ok hk hfresh
  have hits : ∀ it ∈ h₁.rendvConnections.toList, h₁.rendvConnections[it.1]? = some it.2 :=
    fun it hit ↦ Std.ExtTreeMap.mem_toList_iff_getElem?_eq_some.1 hit
  have hcur₁ : ∀ it ∈ h₁.rendvConnections.toList, it.2 ∈ curWriteSet →
      h₁.rendvQueue[it.2]? ≠ some [] := by
    -- the connection that has just been accepted is not in the snapshot
    intro it _ hmem hempty
    rcases hqueue hempty with hempty | hnew
    · exact hcur it.2 hmem hempty
    · exact hnew (hopen hmem)
  obtain ⟨h₂, dead, hloop, hdead, hpassed⟩ :=
    sendTunnels_ok hk₁ hsend hits hk₁.nodup_fds hcur₁ []
  have hits₂ : ∀ it ∈ dead, h₂.rendvConnections[it.1]? = some it.2 := by
    rw [hpassed.connections]
    exact fun it hit ↦ hits it (hdead.subset hit)
  obtain ⟨h₃, hremove, hk₃⟩ := removeTunnels_ok hpassed.kept hits₂
    (hk₁.nodup_fds.sublist (hdead.map Prod.snd))
  refine ⟨h₃, ?_, hk₃⟩
  simp only [handleRendavous, haccept, hloop, bind, Except.bind]
  exact hremove

end Send

/-! ### What is pushed -/

section Push

open BufferWrapper

variable {magic : UInt32} {buf : List UInt8} {remoteNode : NodeIdent}

theorem consumes_header :
    Consumes (bufferCursor buf) (PushPacket.header magic) fun _ _ ↦ True :=
  (consumes_parseStart PUSH).field fun _ ↦
    consumes_getIdent.field fun _ ↦
      Consumes.check_bind fun _ ↦ Consumes.done trivial

/-- The payload of a PUSH packet is a part of it. -/
theorem payload_length_le {dest : NodeIdent} {payload : List UInt8} (hrange : InRange buf)
    (h : BufferWrapper.parse (PushPacket.parser magic) buf = some (dest, payload)) :
    payload.length ≤ buf.length := by
  rw [BufferWrapper.parse, Option.map_eq_some_iff] at h
  obtain ⟨⟨r, bw'⟩, hp, hr⟩ := h
  obtain ⟨dest', bw, hheader, hp⟩ := bind_eq_some.1 hp
  obtain ⟨payload', bw₁, hremaining, hp⟩ := bind_eq_some.1 hp
  obtain ⟨hr', rfl⟩ := Prod.mk.inj (Option.some.inj hp)
  obtain ⟨rfl, rfl⟩ := Prod.mk.inj (hr'.trans hr)
  obtain ⟨bs, tail, rfl, -, hat⟩ := consumes_header _ _ _ _ (at_new hrange) hheader
    (Strict.out _ _ _ hheader)
  rw [remaining_at hat] at hremaining
  obtain ⟨rfl, -⟩ := Prod.mk.inj (Option.some.inj hremaining)
  rw [List.length_append]
  exact Nat.le_add_left ..

/-- A packet that is pushed is not empty. -/
theorem payload_pos_of_parse {p : RealPacket} (hlen : buf.length ≤ MAX_UDP_PACKET_SIZE.toNat)
    (h : PushPacket.parse magic remoteNode buf = some p) : 0 < p.payload.length := by
  have hrange : InRange buf := by
    rw [maxUdp_toNat] at hlen
    rw [InRange]
    omega
  rw [PushPacket.parse] at h
  split at h
  · cases h
  · next dest payload hparse =>
    have hle := payload_length_le hrange hparse
    rcases Nat.lt_or_ge 1377 payload.length with hlt | hfits
    · rw [PushPacket.rewrap_of_lt (by rw [InRange] at hrange; omega) hlt] at h
      cases h
    · rw [PushPacket.rewrap_of_le hfits] at h
      obtain rfl := Option.some.inj h
      show 0 < ((pullOf remoteNode payload).encode magic).length
      rw [length_pullOf]
      omega

/-- **A datagram**: what it adds to a queue is not empty. -/
theorem handleNewPacket_cases (hk : h.Kept others)
    (hlen : buf.length ≤ MAX_UDP_PACKET_SIZE.toNat) :
    h.handleNewPacket magic remoteNode buf = .error .nullPacket ∨
    h.handleNewPacket magic remoteNode buf = .ok h ∨
    ∃ fd packets p, h.rendvQueue[fd]? = some packets ∧ p.pos = 0 ∧ 0 < p.left ∧
      h.handleNewPacket magic remoteNode buf = .ok { h with
        rendvQueue := h.rendvQueue.insert fd (packets ++ [p])
        writeSet := insert fd h.writeSet } := by
  rw [handleNewPacket]
  split
  · exact Or.inr (Or.inl rfl)
  · split
    · exact Or.inr (Or.inl rfl)
    · cases hparse : PushPacket.parse magic remoteNode buf with
      | none => exact Or.inl rfl
      | some inPacket =>
        dsimp only
        generalize hdest : (⟨inPacket.dest.addr, inPacket.dest.port⟩ : NodeIdent) = destIdent
        cases hnode : h.rendvConnections[destIdent]? with
        | none => exact Or.inr (Or.inl rfl)
        | some fd =>
          obtain ⟨packets, hq⟩ := hk.queue_of_connection hnode
          have hpos := payload_pos_of_parse hlen hparse
          refine Or.inr (Or.inr ⟨fd, packets, ⟨inPacket, 0⟩, hq, rfl, ?_, ?_⟩)
          · rw [QueuedPacket.left, QueuedPacket.getPayLoadSize]
            change (0 : Int) < inPacket.payload.length - 0
            omega
          · dsimp only
            rw [hq]

end Push

end RendvHost

/-! ### Runs -/

namespace HostProcess

variable {magic : UInt32} {s s' : HostProcess} {e : HostEvent}

/-- The invariant of the process: what is in the snapshot was open at the `select` and still is, and
a connection in it has something to send. -/
structure Sound (s : HostProcess) : Prop where
  kept : s.host.Kept s.others
  snapshot_open : ∀ {curWriteSet opened}, s.snapshot = some (curWriteSet, opened) →
    curWriteSet ⊆ opened ∧ opened ⊆ s.host.openFds
  snapshot_queue : ∀ {curWriteSet opened}, s.snapshot = some (curWriteSet, opened) →
    ∀ fd ∈ curWriteSet, s.host.rendvQueue[fd]? ≠ some []

theorem sound_start (others : Finset Int) : (start others).Sound where
  kept := {
    tunnel := fun hq ↦ by rw [start, Std.ExtTreeMap.getElem?_empty] at hq; nomatch hq
    queue_of_connection := fun hnode ↦ by
      rw [start, Std.ExtTreeMap.getElem?_empty] at hnode; nomatch hnode
    node_unique := fun hn ↦ by rw [start, Std.ExtTreeMap.getElem?_empty] at hn; nomatch hn
    others_open := id
    writeSet_owned := fun hfd ↦ absurd hfd (Finset.notMem_empty _) }
  snapshot_open h := nomatch h
  snapshot_queue h := nomatch h

/-- **One event**: it keeps the invariant, unless it is a PUSH packet that comes to nothing. -/
theorem step_sound (hs : s.Sound) (he : s.Allowed e) :
    s.step magic e = .error .nullPacket ∨ ∃ s', s.step magic e = .ok s' ∧ s'.Sound := by
  obtain ⟨hk, hopen, hqueue⟩ := hs
  cases e with
  | select ready =>
    refine Or.inr ⟨_, rfl, hk, fun heq ↦ ?_, fun heq ↦ ?_⟩
    · obtain ⟨rfl, rfl⟩ := Prod.mk.inj (Option.some.inj heq)
      refine ⟨fun fd hfd ↦ ?_, Finset.Subset.refl _⟩
      rcases hk.writeSet_owned (he hfd) with hothers | ⟨packets, hq⟩
      · exact hk.others_open hothers
      · exact (hk.tunnel hq).isOpen
    · obtain ⟨rfl, rfl⟩ := Prod.mk.inj (Option.some.inj heq)
      exact fun fd hfd hempty ↦ (hk.tunnel hempty).watched.1 (he hfd) rfl
  | packet remoteNode buf =>
    rcases RendvHost.handleNewPacket_cases hk he with heq | heq |
      ⟨fd, packets, p, hq, hpos, hleft, heq⟩
    · refine Or.inl ?_
      rw [step, heq]
      rfl
    · refine Or.inr ⟨s, ?_, hk, hopen, hqueue⟩
      rw [step, heq]
      rfl
    · refine Or.inr ⟨{ s with host := { s.host with
        rendvQueue := s.host.rendvQueue.insert fd (packets ++ [p])
        writeSet := insert fd s.host.writeSet } }, ?_, ?_, hopen, fun heq g hg ↦ ?_⟩
      · rw [step, heq]
        rfl
      · refine hk.setQueue hq ((hk.tunnel hq).offsets.concat hpos hleft) (fun g hne ↦ ?_) ?_
        · exact Finset.mem_insert.trans (or_iff_right hne.symm)
        · exact iff_of_true (Finset.mem_insert_self ..) (List.concat_ne_nil p packets)
      · intro hempty
        rcases Lib.getElem?_insert_eq_some.1 hempty with ⟨-, hnil⟩ | ⟨-, hempty⟩
        · exact List.concat_ne_nil p packets hnil
        · exact hqueue heq g hg hempty
  | handleRendavous accepted send =>
    have hcur : (s.snapshot.getD (∅, ∅)).1 ⊆ s.host.openFds ∧
        ∀ fd ∈ (s.snapshot.getD (∅, ∅)).1, s.host.rendvQueue[fd]? ≠ some [] := by
      cases hsnap : s.snapshot with
      | none => exact ⟨Finset.empty_subset _, fun fd hfd ↦ absurd hfd (Finset.notMem_empty fd)⟩
      | some snap =>
        obtain ⟨hcur, hopened⟩ := hopen hsnap
        exact ⟨hcur.trans hopened, hqueue hsnap⟩
    obtain ⟨h', heq, hk'⟩ := RendvHost.handleRendavous_ok hk he.1 he.2 hcur.1 hcur.2
    refine Or.inr ⟨{ s with host := h', snapshot := none }, ?_, hk', ?_, ?_⟩
    · rw [step, heq]
      rfl
    · exact fun hnone ↦ absurd hnone (Option.some_ne_none _).symm
    · exact fun hnone ↦ absurd hnone (Option.some_ne_none _).symm
  | openFd fd =>
    refine Or.inr ⟨_, rfl, hk.openOther he, fun heq ↦ ?_, hqueue⟩
    exact ⟨(hopen heq).1, (hopen heq).2.trans (Finset.subset_insert ..)⟩
  | watch fd =>
    refine Or.inr ⟨_, rfl, hk.setWriteSet fun g hg ↦ ?_, hopen, hqueue⟩
    refine Finset.mem_insert.trans (or_iff_right ?_)
    rintro rfl
    exact hg he
  | unwatch fd =>
    refine Or.inr ⟨_, rfl, hk.setWriteSet fun g hg ↦ ?_, hopen, hqueue⟩
    refine Finset.mem_erase.trans (and_iff_right ?_)
    rintro rfl
    exact hg he
  | closeFd fd =>
    refine Or.inr ⟨_, rfl, hk.closeOther he.1, fun heq ↦ ⟨(hopen heq).1, fun g hg ↦ ?_⟩, hqueue⟩
    refine Finset.mem_erase.2 ⟨?_, (hopen heq).2 hg⟩
    rintro rfl
    exact he.2 _ _ heq hg

/-- **Every reachable state of a host, and what can happen there.** In a run that the system and the
rest of the process keep to, the two maps correspond, the sockets with something to send are the
watched ones, at most the first packet of a queue has been sent in part; and no next event makes an
assertion fail or takes the front of an empty queue. -/
theorem rendvHost_bookkeeping {others : Finset Int} {events : List HostEvent}
    (hrun : run (step? magic) (start others) events = some s)
    (hallowed : AllSteps Allowed (step? magic) (start others) events) :
    s.host.Bookkeeping ∧ ∀ e, s.Allowed e →
      s.step magic e ≠ .error .assertion ∧ s.step magic e ≠ .error .emptyFront := by
  have hs : s.Sound := by
    refine run_invariant (fun s e s' hs he hstep ↦ ?_) (sound_start others) hallowed hrun
    rcases step_sound hs he with heq | ⟨s₁, heq, hs₁⟩
    · rw [step?, heq] at hstep
      nomatch hstep
    · rw [step?, heq] at hstep
      exact Option.some.inj hstep ▸ hs₁
  refine ⟨hs.kept.bookkeeping, fun e he ↦ ?_⟩
  rcases step_sound hs he with heq | ⟨s₁, heq, -⟩
  · rw [heq]
    exact ⟨nofun, nofun⟩
  · rw [heq]
    exact ⟨nofun, nofun⟩

/-- A node connects, something is pushed to it, it is sent in part, and the node connects again. -/
def twoConnections : List HostEvent :=
  [.handleRendavous (some (⟨1, 1⟩, 5)) fun _ n ↦ n,
    .packet ⟨2, 2⟩ ((pushOf ⟨⟨1, 1, 0, 0⟩, [], true, 0⟩).encode 0),
    .select {5},
    .handleRendavous none fun _ _ ↦ 1,
    .handleRendavous (some (⟨1, 1⟩, 6)) fun _ n ↦ n]

theorem rendvHost_bookkeeping_twoConnections :
    ∃ s, run (step? 0) (start {0}) twoConnections = some s ∧ s.host.Bookkeeping := by
  have hcheck : ∀ {events s} (g : HostProcess → Bool),
      run (step? 0) (start {0}) events = some s →
      (run (step? 0) (start {0}) events).map g = some true → g s = true := by
    intro events s g hrun hg
    rw [hrun] at hg
    exact Option.some.inj hg
  have hallowed : AllSteps Allowed (step? 0) (start {0}) twoConnections := by
    refine ⟨⟨fun node fd heq ↦ ?_, fun _ _ _ ↦ le_refl _⟩, fun s₁ hs₁ ↦ ⟨?_, fun s₂ hs₂ ↦
      ⟨?_, fun s₃ hs₃ ↦ ⟨⟨fun _ _ heq ↦ ?_, fun _ n hn ↦ hn⟩, fun s₄ hs₄ ↦
        ⟨⟨fun node fd heq ↦ ?_, fun _ _ _ ↦ le_refl _⟩, fun _ _ ↦ trivial⟩⟩⟩⟩⟩
    · obtain ⟨-, rfl⟩ := Prod.mk.inj (Option.some.inj heq)
      decide
    · show ((pushOf ⟨⟨1, 1, 0, 0⟩, [], true, 0⟩).encode 0).length ≤ MAX_UDP_PACKET_SIZE.toNat
      decide
    · show {5} ⊆ s₂.host.writeSet
      have hrun : run (step? 0) (start {0}) (twoConnections.take 2) = some s₂ :=
        run_cons_eq_some.2 ⟨s₁, hs₁, run_cons_eq_some.2 ⟨s₂, hs₂, rfl⟩⟩
      exact of_decide_eq_true
        (hcheck (fun s ↦ decide ({5} ⊆ s.host.writeSet)) hrun (by decide +kernel))
    · exact absurd heq (Option.some_ne_none _).symm
    · obtain ⟨-, rfl⟩ := Prod.mk.inj (Option.some.inj heq)
      show 6 ∉ s₄.host.openFds
      have hrun : run (step? 0) (start {0}) (twoConnections.take 4) = some s₄ :=
        run_cons_eq_some.2 ⟨s₁, hs₁, run_cons_eq_some.2 ⟨s₂, hs₂, run_cons_eq_some.2
          ⟨s₃, hs₃, run_cons_eq_some.2 ⟨s₄, hs₄, rfl⟩⟩⟩⟩
      exact of_decide_eq_true
        (hcheck (fun s ↦ decide (6 ∉ s.host.openFds)) hrun (by decide +kernel))
  have hsome : (run (step? 0) (start {0}) twoConnections).isSome = true := by decide +kernel
  obtain ⟨s, hs⟩ := Option.isSome_iff_exists.1 hsome
  exact ⟨s, hs, (rendvHost_bookkeeping hs hallowed).1⟩

end HostProcess

end Meridian

import Meridian.Ident
import Meridian.Lib.Run
import Mathlib.Logic.Function.Basic

/-!
# Probe connections

A `ProbeQueryTCP` or `ProbeQueryDNS` opens a socket, which the process enters into
`g_tcpProbeConnections` or `g_dnsProbeConnections` under its descriptor, next to the id of the query.
The query remembers the descriptor, and its timeout closes whatever the map holds under it.

`addTCPConnection` and `addDNSConnection`, the two `erase…Connection` and the two
`handle…Connections` are one definition each, over the kind of the probe; the one difference, that
`handleTCPConnections` asks for the peer before it notifies the query, is in `notifies`.

* A step is one call, or one round of the loop of `handle…Connections`; its last loop, which erases
  what has been collected, is a step of its own. Between them come the calls that the notified
  queries make.
* The operating system gives out any descriptor that is not open. The rest of the process opens and
  closes descriptors of its own.
* Queries of other classes only occupy an id.
* A list of the connections that a timeout has closed is kept for the statements.
-/

namespace Meridian

open Lib

/-- The two classes of probes that hold a socket. -/
inductive ProbeKind where
  | tcp
  | dns
  deriving DecidableEq, Repr

/-- The members of a `ProbeQueryGeneric`; `sockFD` is `none` for -1. -/
structure ProbeQuery where
  kind : ProbeKind
  sockFD : Option ℕ
  qid : UInt64
  remoteNode : NodeIdent
  finished : Bool
  deriving DecidableEq

/-- `handleLatency`. Only the address is compared. -/
def ProbeQuery.handleLatency (inRemoteNodes : List NodeIdentLat) (q : ProbeQuery) : ProbeQuery :=
  match inRemoteNodes with
  | [n] => if n.addr ≠ q.remoteNode.addr then q else { q with finished := true }
  | _ => q

/-- `handleEvent`: "just push down an empty latency event instead". -/
def ProbeQuery.handleEvent (inRemote : NodeIdent) (q : ProbeQuery) : ProbeQuery :=
  q.handleLatency [⟨inRemote.addr, inRemote.port, 0⟩]

/-- A query in the table: a probe, or a query of another class. -/
inductive NetQuery where
  | probe (q : ProbeQuery)
  | other

/-- A connection that a timeout has closed: the query that timed out, and the id in the entry. -/
structure Closing where
  query : ProbeQuery
  entryID : UInt64
  deriving DecidableEq

/-- The part of a process that has to do with probe connections. -/
structure Probes where
  isOpen : ℕ → Bool
  connections : ProbeKind → ℕ → Option (UInt64 × NodeIdent)
  /-- The descriptors that a `handle…Connections` has collected. -/
  deleteVector : ProbeKind → List ℕ
  table : UInt64 → Option NetQuery
  closings : List Closing

namespace Probes

/-- A process without probes; some descriptors are open. -/
def new (isOpen : ℕ → Bool) : Probes :=
  ⟨isOpen, fun _ _ ↦ none, fun _ ↦ [], fun _ ↦ none, []⟩

/-! ### Connections -/

/-- What becomes of the socket in an `add…Connection`. -/
inductive Socket where
  /-- `socket()` has failed. -/
  | failed
  /-- The socket has been closed again, because a later call has failed. -/
  | closed (newSock : ℕ)
  | opened (newSock : ℕ)

/-- `addTCPConnection` and `addDNSConnection`. It returns the descriptor, or `none` for -1. `socket()`
does not give out a descriptor that is open, and an entry that is there already is asserted away. -/
def addConnection (kind : ProbeKind) (qid : UInt64) (remoteNode : NodeIdent) (s : Probes) :
    Socket → Option (Option ℕ × Probes)
  | .failed => some (none, s)
  | .closed newSock => if s.isOpen newSock then none else some (none, s)
  | .opened newSock =>
    if s.isOpen newSock then none
    else
      match s.connections kind newSock with
      | some _ => none
      | none =>
        some (some newSock, { s with
          isOpen := Function.update s.isOpen newSock true
          connections := Function.update s.connections kind
            (Function.update (s.connections kind) newSock (some (qid, remoteNode))) })

/-- `eraseTCPConnection` and `eraseDNSConnection` of a map entry: the descriptor is closed. -/
def eraseConnection (kind : ProbeKind) (tmpSock : ℕ) (s : Probes) : Probes :=
  { s with
    isOpen := Function.update s.isOpen tmpSock false
    connections := Function.update s.connections kind
      (Function.update (s.connections kind) tmpSock none) }

/-- The same of a descriptor, in the timeout of query `q`: "it might have been deleted already (tcp
connect failed), so if it is not in the map, don't do anything". -/
def eraseSock (q : ProbeQuery) (sock : ℕ) (s : Probes) : Probes :=
  match s.connections q.kind sock with
  | none => s
  | some (entryID, _) =>
    { s.eraseConnection q.kind sock with closings := s.closings ++ [⟨q, entryID⟩] }

/-! ### Queries -/

/-- `updateTimeout` of a probe. -/
def updateTimeout (q : ProbeQuery) (s : Probes) : Probes :=
  { s with
    table := Function.update s.table q.qid (if q.finished then none else some (.probe q)) }

/-- A probe is inserted and initialised. -/
def startProbe (kind : ProbeKind) (qid : UInt64) (inRemote : NodeIdent) (sock : Socket)
    (s : Probes) : Option Probes :=
  match s.table qid with
  | some _ => some s
  | none =>
    (s.addConnection kind qid inRemote sock).map fun res ↦
      updateTimeout ⟨kind, res.1, qid, inRemote, false⟩ res.2

/-- A handler of the probe with this id, if there is one. -/
def onProbe (handler : ProbeQuery → ProbeQuery) (id : UInt64) (s : Probes) : Probes :=
  match s.table id with
  | some (.probe q) => s.updateTimeout (handler q)
  | _ => s

/-- `handleTimeout` of `ProbeQueryTCP` and `ProbeQueryDNS`. -/
def handleTimeout (q : ProbeQuery) (s : Probes) : ProbeQuery × Probes :=
  match q.sockFD with
  | none => ({ q with finished := true }, s)
  | some tmpFD => ({ q with finished := true }, s.eraseSock q tmpFD)

/-! ### Steps -/

/-- Whether the query of a connection that `select` has reported is notified: for TCP, if the
connection has a peer. -/
def notifies (kind : ProbeKind) (hasPeer : Bool) : Bool :=
  match kind with
  | .tcp => hasPeer
  | .dns => true

/-- What can happen. -/
inductive Event where
  | probe (kind : ProbeKind) (qid : UInt64) (inRemote : NodeIdent) (sock : Socket)
  /-- A query of another class is inserted, or finishes. -/
  | other (id : UInt64)
  | otherFinished (id : UInt64)
  /-- `notifyQPacket`, from a datagram. -/
  | packet (id : UInt64) (inRemote : NodeIdent)
  /-- `notifyQLatency`, from another query. -/
  | latency (id : UInt64) (inRemoteNodes : List NodeIdentLat)
  /-- A round of `handle…Connections` for a descriptor that `select` has reported. -/
  | ready (kind : ProbeKind) (fd : ℕ) (hasPeer : Bool)
  /-- The last loop of `handle…Connections`. -/
  | cleanup (kind : ProbeKind)
  /-- The deadline of a query has passed. -/
  | timeout (id : UInt64)
  /-- The rest of the process opens or closes a descriptor. -/
  | openOther (fd : ℕ)
  | closeOther (fd : ℕ)

/-- One step; `none` is what cannot happen: a descriptor is given out twice, the rest of the process
closes a probe's descriptor, or a timeout comes in the middle of a `handle…Connections`. -/
def step (s : Probes) : Event → Option Probes
  | .probe kind qid inRemote sock => s.startProbe kind qid inRemote sock
  | .other id =>
    match s.table id with
    | some _ => some s
    | none => some { s with table := Function.update s.table id (some .other) }
  | .otherFinished id =>
    match s.table id with
    | some .other => some { s with table := Function.update s.table id none }
    | _ => some s
  | .packet id inRemote => some (s.onProbe (·.handleEvent inRemote) id)
  | .latency id inRemoteNodes => some (s.onProbe (·.handleLatency inRemoteNodes) id)
  | .ready kind fd hasPeer =>
    match s.connections kind fd with
    | none => some s
    | some (id, remoteNode) =>
      if fd ∈ s.deleteVector kind then some s
      else
        let s := if notifies kind hasPeer then
            s.onProbe (·.handleLatency [⟨remoteNode.addr, remoteNode.port, 0⟩]) id
          else s
        some { s with
          deleteVector := Function.update s.deleteVector kind (s.deleteVector kind ++ [fd]) }
  | .cleanup kind =>
    some ((s.deleteVector kind).foldl (fun s fd ↦ s.eraseConnection kind fd)
      { s with deleteVector := Function.update s.deleteVector kind [] })
  | .timeout id =>
    if s.deleteVector .tcp ≠ [] ∨ s.deleteVector .dns ≠ [] then none
    else
      match s.table id with
      | some (.probe q) => some ((s.handleTimeout q).2.updateTimeout (s.handleTimeout q).1)
      | _ => some s
  | .openOther fd =>
    if s.isOpen fd then none else some { s with isOpen := Function.update s.isOpen fd true }
  | .closeOther fd =>
    if (s.connections .tcp fd).isSome ∨ (s.connections .dns fd).isSome then none
    else some { s with isOpen := Function.update s.isOpen fd false }

end Probes

end Meridian

import Meridian.Query.Thread
import Meridian.Lib.Run

/-!
# Threads of a process

The `MeridianProcess` as far as its threads are concerned: the query table, and `g_psList`, the list
of the threads that are to be run. One step is one outermost step of the event loop, or a part of
one: a round of the loop over `g_psList`, a datagram, a notification of a query by another.

* Queries are objects, which handlers change in place; the table holds them. It also says when each
  of them was created, for the statements.
* A query of another class occupies an id. It may notify any id. Its own life is a step of its own:
  its creation, also by a `HandleGetDistanceGeneric`, and its end.
* `getNewQueryID` falls back on a random number, so the id of a new query is any number, and
  `insertNewQuery` refuses it if it is taken.
* A round of the loop over `g_psList` takes its entry off the list. The loop itself does so when it
  is through, but nobody looks at the list until then.
* Every time a thread goes on behind a call, a record of it is kept for the statements.
-/

namespace Meridian

open Lib BufferWrapper MQL
open DSLRecvQuery (wake)

/-- A query in the table. -/
inductive ThreadQuery (D : Type) where
  | recv (q : DSLRecvQuery D)
  | req (q : DSLReqQuery)
  | getDistance (q : HandleGetDistance)
  /-- A query of another class. -/
  | other (finished : Bool)

namespace ThreadQuery

variable {D : Type}

/-- `isFinished`. -/
def isFinished : ThreadQuery D → Bool
  | recv q => q.finished
  | req q => q.finished
  | getDistance q => q.finished
  | other finished => finished

/-- `timeOut`, where it matters. -/
def timeOut : ThreadQuery D → Option ℕ
  | recv q => some q.timeoutTV
  | req q => some q.timeoutTV
  | getDistance q => some q.timeoutTV
  | other _ => none

/-- The thread of a `DSLRecvQuery`. -/
def recv? : ThreadQuery D → Option (DSLRecvQuery D)
  | recv q => some q
  | _ => none

/-- The members of a `DSLReqQuery`. -/
def req? : ThreadQuery D → Option DSLReqQuery
  | req q => some q
  | _ => none

/-- A change of a thread, of a query that is one. -/
def onRecv (f : DSLRecvQuery D → DSLRecvQuery D) : ThreadQuery D → ThreadQuery D
  | recv q => recv (f q)
  | q => q

/-- `setFinished(true)`. -/
def setFinished : ThreadQuery D → ThreadQuery D
  | recv q => recv { q with finished := true }
  | req q => req { q with finished := true }
  | getDistance q => getDistance { q with finished := true }
  | other _ => other true

end ThreadQuery

/-- A query, and how many had been created before it. -/
structure ThreadEntry (D : Type) where
  query : ThreadQuery D
  stamp : ℕ

/-- A change of the query of an entry. -/
def ThreadEntry.modify {D : Type} (f : ThreadQuery D → ThreadQuery D) (e : ThreadEntry D) :
    ThreadEntry D :=
  { e with query := f e.query }

/-- A thread has gone on behind a call. `rpcRecv` is what `handleRPC` returns then. -/
structure Resumption (D : Type) where
  call : Call
  rpcRecv : Value D
  rpcSource : Option (List UInt8)
  wokenBy : Option Waker

/-- The record of a thread that goes on, if it is in a call. -/
def DSLRecvQuery.resumption? {D : Type} (t : DSLRecvQuery D) : Option (Resumption D) :=
  t.call.map fun c ↦ ⟨c, t.rpcRecv, t.rpcSource, t.wokenBy⟩

/-- The part of a process that has to do with threads. -/
structure Threads (D : Type) where
  table : Std.ExtTreeMap UInt64 (ThreadEntry D)
  psList : List UInt64
  /-- The number of queries that have been created. -/
  created : ℕ
  resumptions : List (Resumption D)

namespace Threads

variable {D : Type}

/-- A process without queries. -/
def new : Threads D := ⟨∅, [], 0, []⟩

/-! ### The query table -/

/-- A change of a query in place. -/
def modify (id : UInt64) (f : ThreadQuery D → ThreadQuery D) (s : Threads D) : Threads D :=
  match s.table[id]? with
  | none => s
  | some e => { s with table := s.table.insert id (e.modify f) }

/-- `getDSLRecvQ`. -/
def getDSLRecvQ (id : UInt64) (s : Threads D) : Option (DSLRecvQuery D) :=
  s.table[id]?.bind (·.query.recv?)

/-- `insertNewQuery`; `none` is the return value -1. -/
def insertNewQuery (id : UInt64) (q : ThreadQuery D) (s : Threads D) : Option (Threads D) :=
  if s.table.contains id then none
  else some { s with table := s.table.insert id ⟨q, s.created⟩, created := s.created + 1 }

/-- `updateTimeout`: a finished query leaves the table. -/
def updateTimeout (id : UInt64) (s : Threads D) : Threads D :=
  match s.table[id]? with
  | none => s
  | some e => if e.query.isFinished then { s with table := s.table.erase id } else s

/-- `addPS`. -/
def addPS (id : UInt64) (s : Threads D) : Threads D := { s with psList := s.psList ++ [id] }

/-! ### `get_distance` -/

/-- `returnResults` of the query `q` with this id; `resultsCreated` is whether there is memory for
them. -/
def returnResults (resultsCreated : Bool) (id : UInt64) (q : HandleGetDistance) (s : Threads D) :
    Threads D :=
  let s := s.modify id fun _ ↦ .getDistance { q with finished := true }
  match s.getDSLRecvQ q.prevQID with
  | none => s
  | some _ =>
    if resultsCreated then
      (s.modify q.prevQID (.onRecv fun t ↦
        wake .results { t with queryReturn := some q.results })).addPS q.prevQID
    else s.modify q.prevQID (.onRecv fun t ↦ { t with queryReturn := none })

/-- `handleLatency` of a `HandleGetDistanceGeneric`. -/
def getDistanceLatency (resultsCreated : Bool) (id : UInt64) (inRemoteNodes : List NodeIdentLat)
    (q : HandleGetDistance) (s : Threads D) : Threads D :=
  let (q, returns) := q.handleLatency inRemoteNodes
  if returns then s.returnResults resultsCreated id q else s.modify id fun _ ↦ .getDistance q

/-! ### Running a thread -/

/-- What a call does before the thread gives up the processor: its query is inserted, and started.
Without sources a `HandleGetDistanceGeneric` notifies itself right then. -/
def startCall (id : UInt64) (timeoutTV : ℕ) (s : Threads D) : ThreadCall → Option (Threads D)
  | .rpc qid => s.insertNewQuery qid (.req ⟨false, timeoutTV, id⟩)
  | .getDistance qid srcNodes destNodes now timeoutMS resultsCreated =>
    let q := HandleGetDistance.new srcNodes destNodes now timeoutMS id
    (s.insertNewQuery qid (.getDistance q)).map fun s ↦
      if srcNodes = [] then
        (s.getDistanceLatency resultsCreated qid [] q).updateTimeout qid
      else s

/-- The kind of a call. -/
def callKind : ThreadCall → CallKind
  | .rpc _ => .rpc
  | .getDistance .. => .getDistance

/-- The calls of a thread. One whose query cannot be inserted returns at once; the first one that
does not blocks the thread. -/
def makeCalls (id : UInt64) (timeoutTV : ℕ) (s : Threads D) : List ThreadCall → Option (Threads D)
  | [] => none
  | c :: cs =>
    match s.startCall id timeoutTV c with
    | none => makeCalls id timeoutTV s cs
    | some s' =>
      some (s'.modify id (.onRecv (·.block ⟨callKind c, c.id, s.created⟩)))

/-- How a thread ends that no call has blocked. -/
def endThread : Finish → DSLRecvQuery D → DSLRecvQuery D
  | .exception, t => { t with state := .running, finished := true }
  | .done, t => { t with state := .done, finished := true }
  | .ready, t => { t with state := .ready }

/-- `handleLatency` of a `DSLRecvQuery`: the thread goes on until it gives back the processor. -/
def runThread (a : Activity) (id : UInt64) (t : DSLRecvQuery D) (s : Threads D) : Threads D :=
  let s := { s with resumptions := s.resumptions ++ t.resumption?.toList }
  let s := s.modify id (.onRecv fun t ↦
    { t.resume with astAllocationCount := a.astAllocationCount })
  (s.makeCalls id t.timeoutTV a.calls).getD (s.modify id (.onRecv (endThread a.finish)))

/-! ### Notifications -/

/-- `notifyQLatency`. A query of another class may react in steps of its own. -/
def notifyQLatency (a : Activity) (resultsCreated : Bool) (id : UInt64)
    (inRemoteNodes : List NodeIdentLat) (s : Threads D) : Threads D :=
  match s.table[id]? with
  | none => s
  | some e =>
    match e.query with
    | .recv t => (s.runThread a id t).updateTimeout id
    | .getDistance q => (s.getDistanceLatency resultsCreated id inRemoteNodes q).updateTimeout id
    | .req _ => s
    | .other _ => s

section Packets

variable (xdr : XdrDouble D) (magic : UInt32)

/-- `notifyQPacket`. A `DSLReqQuery` notifies in turn the query whose id it was given, with a bound
on the number of times; see `notifyQPacket_isSome`. -/
def notifyQPacket (inPacket : List UInt8) : ℕ → UInt64 → Threads D → Option (Threads D)
  | 0, _, _ => none
  | fuel + 1, id, s =>
    match s.table[id]? with
    | none => some s
    | some e =>
      match e.query with
      | .recv t =>
        match t.handleEvent xdr magic inPacket with
        | none => some (s.updateTimeout id)
        | some t => some (((s.modify id fun _ ↦ .recv t).addPS id).updateTimeout id)
      | .req q => (notifyQPacket inPacket fuel q.recvQueryID s).map (updateTimeout id)
      | .getDistance _ => some s
      | .other _ => some s

end Packets

/-! ### Timeouts -/

/-- The queries whose deadline has passed. -/
def due (now : ℕ) (s : Threads D) : List UInt64 :=
  (s.table.toList.filter fun e ↦ e.2.query.timeOut.any (· ≤ now)).map Prod.fst

/-- A round of the loop of `QueryTable::handleTimeout`. -/
def timeoutQuery (resultsCreated : UInt64 → Bool) (s : Threads D) (id : UInt64) : Threads D :=
  match s.table[id]? with
  | none => s
  | some e =>
    match e.query with
    | .getDistance q => (s.returnResults (resultsCreated id) id q).updateTimeout id
    | _ => (s.modify id .setFinished).updateTimeout id

/-! ### Steps -/

/-- The packet types `handleNewPacket` hands to the query table. -/
def notified (queryType : UInt8) : Bool :=
  queryType ∈ [RET_RESPONSE, RET_INFO, RET_ERROR, PONG, RET_PING_REQ, DSL_REPLY]

/-- What can happen. -/
inductive Event where
  /-- A program has been received and parsed. -/
  | request (id : UInt64) (now : ℕ) (timeoutMS : UInt16) (astAllocationCount : ℕ)
  /-- A datagram. -/
  | packet (inPacket : List UInt8)
  /-- A query is notified by another one. -/
  | latency (id : UInt64) (inRemoteNodes : List NodeIdentLat) (a : Activity) (resultsCreated : Bool)
  /-- A round of the loop over `g_psList`. -/
  | schedule (a : Activity)
  /-- `QueryTable::handleTimeout`, with the queries in the order in which it finds them. -/
  | timeout (now : ℕ) (order : List UInt64) (resultsCreated : UInt64 → Bool)
  /-- A query of another class is inserted, or finishes. -/
  | other (id : UInt64)
  | otherFinished (id : UInt64)

/-- A round of the loop over `g_psList`. -/
def schedule (a : Activity) (s : Threads D) : Threads D :=
  match s.psList with
  | [] => s
  | id :: rest =>
    let s := { s with psList := rest }
    match s.getDSLRecvQ id with
    | none => s
    | some t =>
      if t.state = .blocked then s
      else
        let s := s.notifyQLatency a true id []
        if s.table.contains id then s.addPS id else s

/-- One step; `none` is a timeout that does not find the queries that are due. -/
def step (xdr : XdrDouble D) (magic : UInt32) (s : Threads D) : Event → Option (Threads D)
  | .request id now timeoutMS astAllocationCount =>
    match s.insertNewQuery id (.recv (.new now timeoutMS astAllocationCount)) with
    | none => some s
    | some s => some (s.addPS id)
  | .packet inPacket =>
    match BufferWrapper.parse (Packet.parseHeader magic) inPacket with
    | none => some s
    | some (queryType, queryID) =>
      if notified queryType then s.notifyQPacket xdr magic inPacket (s.created + 1) queryID
      else some s
  | .latency id inRemoteNodes a resultsCreated =>
    some (s.notifyQLatency a resultsCreated id inRemoteNodes)
  | .schedule a => some (s.schedule a)
  | .timeout now order resultsCreated =>
    if order.isPerm (s.due now) then some (order.foldl (timeoutQuery resultsCreated) s) else none
  | .other id => some ((s.insertNewQuery id (.other false)).getD s)
  | .otherFinished id =>
    match s.table[id]? with
    | some ⟨.other _, _⟩ => some ((s.modify id .setFinished).updateTimeout id)
    | _ => some s

end Threads

end Meridian

import Mathlib.Data.Int.Notation
import Mathlib.Logic.Function.Basic
import Meridian.Lib.Buckets
import Meridian.Lib.Run

/-!
# The query table

`QueryTable` and the handlers of the queries in it, as far as they touch the table: which queries a
handler makes, whom it notifies, when it changes its own deadline and when it finishes, in the order
of the source. A handler may notify other queries, whose handlers run inside it.

* Queries are objects on a heap, named by a number that is never used twice. Reading an object that
  has been deleted ends the run with `none`, and so does an assertion that fails.
* The indexes are kept as the source keeps them: `queryTimeoutMap`, ordered by query ids, and
  `timeoutQueryMap`, which holds a vector for every deadline.
* What a handler decides on data outside the table is a `Choice`. `env` gives one for every call of
  a handler, so whatever is proved for all of them is proved for all data.
* `getNewQueryID` falls back on a random number, so the id of a new query is any number.
* The depth of the notifications inside each other is bounded, by more than it ever gets to.
* A subscription is the bare id of the subscriber. `observed` is read by statements only: it notes
  which object has subscribed, and which object is called when a subscriber is notified.
-/

namespace Meridian

open Lib

/-! ### Deadlines -/

/-- `MICRO_IN_SECOND`. -/
def MICRO_IN_SECOND : ℤ := 1000000

/-- `struct timeval`. -/
structure Timeval where
  sec : ℤ
  usec : ℤ
  deriving DecidableEq, Repr, Inhabited

/-- `timevalLT` as a three-way comparison. -/
def cmpTimeval : Timeval → Timeval → Ordering :=
  compareLex (compareOn Timeval.sec) (compareOn Timeval.usec)

instance : Std.TransCmp cmpTimeval :=
  inferInstanceAs (Std.TransCmp (compareLex _ _))

instance : Std.LawfulEqCmp cmpTimeval where
  eq_of_compare := by
    intro a b h
    simp only [cmpTimeval, compareLex, compareOn, Ordering.then_eq_eq,
      Std.LawfulEqOrd.compare_eq_iff_eq] at h
    cases a
    cases b
    simp_all

/-- `normalizeTime`. A full million of microseconds stays as it is. -/
def normalizeTime (tv : Timeval) : Timeval :=
  if MICRO_IN_SECOND < tv.usec then
    let extraSeconds := tv.usec / MICRO_IN_SECOND
    ⟨tv.sec + extraSeconds, tv.usec - extraSeconds * MICRO_IN_SECOND⟩
  else tv

/-- The test of `handleTimeout` on a deadline. -/
def Timeval.expired (curTime s1 : Timeval) : Bool :=
  s1.sec < curTime.sec || (s1.sec == curTime.sec && s1.usec ≤ curTime.usec)

/-! ### Queries -/

/-- The two kinds of `SchedObject`. -/
inductive SchedObject where
  | gossip
  | ringManage
  deriving DecidableEq, Repr

/-- The classes of queries. -/
inductive QueryClass where
  | addNode
  | gossip
  | queryScheduler (schedObj : SchedObject)
  | ringManage
  | handleReq
  | probe
  | handleClosest
  | reqProbe
  | handleMC
  | dslReq (recvQueryID : UInt64)
  | dslRecv
  | reqProbeSelf
  | handleGetDistance
  deriving DecidableEq, Repr

/-- A query, without the data that has no bearing on the table. A class without subscribers has
none. -/
structure Query where
  qid : UInt64
  cls : QueryClass
  timeoutTV : Timeval
  finished : Bool
  subscribers : List UInt64
  deriving DecidableEq, Repr

/-- The name of an object. -/
abbrev Ptr := ℕ

/-- What a constructor gives a new query: the id of `getNewQueryID`, or of the packet, and the first
deadline. -/
structure Birth where
  qid : UInt64
  timeoutTV : Timeval

/-- The queries that are made for one node of `performGossip`. The last one is there if the node is
behind a firewall and this one is not. -/
structure GossipBirths where
  gossip : Birth
  addNode : Birth
  reqProbe : Option Birth

/-- The query that `HandleGetDistanceGeneric::init` makes for a source. -/
inductive SourceBirth where
  | reqProbe (b : Birth)
  | reqProbeSelf (b : Birth) (probes : List Birth)

/-- The call that blocks the thread of a `DSLRecvQuery`. -/
inductive BlockingCall where
  | rpc (b : Birth)
  | getDistance (b : Birth) (srcNodes : List SourceBirth)

/-- What one call of a handler decides on data outside the table. -/
structure Choice where
  /-- The handler goes on behind its tests of the packet or of the latencies. -/
  passes : Bool
  /-- Nothing is left to be done for the query. -/
  finishes : Bool
  /-- A calculation goes wrong. -/
  fails : Bool
  /-- A request is to be forwarded now, its ring members having been asked. -/
  forwards : Bool
  /-- The deadline that `computeTimeout` gives. -/
  timeoutTV : Timeval
  reqProbes : List Birth
  call : Option BlockingCall
  gossips : List GossipBirths
  ringManage : Option Birth

/-- A notification comes from a packet, or from another query or a connection. -/
inductive Notification where
  | packet
  | latency
  deriving DecidableEq, Repr

/-- What is noted of a run. -/
structure Observed where
  /-- The object that has subscribed to an object. -/
  subscriber : Ptr → Option Ptr
  /-- A query has been inserted under an id under which another query had a subscription. -/
  reused : Bool
  /-- For every notification of a subscriber: the object that has subscribed, and the object whose
  `handleLatency` is called. The last one is first. -/
  notified : List (Option Ptr × Ptr)

/-- A `QueryTable`, the objects, the number of objects that have been made, the number of handlers
that have been called, and what is noted of the run. -/
structure QueryTable where
  queryTimeoutMap : Std.ExtTreeMap UInt64 (Ptr × Timeval)
  timeoutQueryMap : Std.ExtTreeMap Timeval (List Ptr) cmpTimeval
  heap : Ptr → Option Query
  created : ℕ
  handled : ℕ
  observed : Observed

namespace QueryTable

/-- A table without queries. -/
def new : QueryTable := ⟨∅, ∅, fun _ ↦ none, 0, 0, ⟨fun _ ↦ none, false, []⟩⟩

/-! ### Objects -/

/-- An object is made. -/
def alloc (q : Query) (s : QueryTable) : QueryTable :=
  { s with heap := Function.update s.heap s.created (some q), created := s.created + 1 }

/-- `delete`. -/
def delete (p : Ptr) (s : QueryTable) : QueryTable :=
  { s with heap := Function.update s.heap p none }

/-- A change of an object in place. -/
def modify (p : Ptr) (f : Query → Query) (s : QueryTable) : Option QueryTable := do
  let q ← s.heap p
  some { s with heap := Function.update s.heap p (some (f q)) }

/-- `finished = true`. -/
def setFinished (p : Ptr) (s : QueryTable) : Option QueryTable :=
  s.modify p fun q ↦ { q with finished := true }

/-- `computeTimeout`. -/
def computeTimeout (p : Ptr) (tv : Timeval) (s : QueryTable) : Option QueryTable :=
  s.modify p fun q ↦ { q with timeoutTV := tv }

/-- It is noted who subscribes: the query in the table with that id. -/
def noteSubscriber (p : Ptr) (in_qid : UInt64) (s : QueryTable) : QueryTable :=
  let caller := s.queryTimeoutMap[in_qid]?.map Prod.fst
  { s with observed := { s.observed with
      subscriber := Function.update s.observed.subscriber p caller } }

/-- `subscribeLatency`. -/
def subscribeLatency (p : Ptr) (in_qid : UInt64) (s : QueryTable) : Option QueryTable :=
  (s.noteSubscriber p in_qid).modify p fun q ↦ { q with subscribers := q.subscribers ++ [in_qid] }

/-- Whether a query has a subscription under an id. -/
def subscribed (id : UInt64) (s : QueryTable) : Bool :=
  (List.range s.created).any fun p ↦ (s.heap p).any fun q ↦ q.subscribers.contains id

/-- It is noted that an id is given to a query. -/
def noteInsert (id : UInt64) (s : QueryTable) : QueryTable :=
  { s with observed := { s.observed with reused := s.observed.reused || s.subscribed id } }

/-- It is noted which object is called when the subscriber `id` of `p` is notified. -/
def noteNotified (p : Ptr) (id : UInt64) (s : QueryTable) : QueryTable :=
  match s.queryTimeoutMap[id]? with
  | none => s
  | some (curQuery, _) => { s with observed := { s.observed with
      notified := (s.observed.subscriber p, curQuery) :: s.observed.notified } }

/-! ### The indexes -/

/-- `addTimeout`. The key of an entry that is there already stays. -/
def addTimeout (inQuery : Ptr) (s : QueryTable) : Option QueryTable := do
  let q ← s.heap inQuery
  let tv := normalizeTime q.timeoutTV
  let key := (s.queryTimeoutMap[q.qid]?.map Prod.fst).getD inQuery
  some { s with
    queryTimeoutMap := s.queryTimeoutMap.insert q.qid (key, tv)
    timeoutQueryMap := Buckets.push s.timeoutQueryMap tv inQuery }

/-- `retrieveOldTimeout`. A query without an entry fails the assertion. -/
def retrieveOldTimeout (inQuery : Ptr) (s : QueryTable) : Option Timeval := do
  let q ← s.heap inQuery
  let entry ← s.queryTimeoutMap[q.qid]?
  some entry.2

/-- `removeOldTimeout`. A deadline without a vector fails one assertion, and a query that is not in
the vector the other. -/
def removeOldTimeout (inQuery : Ptr) (s : QueryTable) : Option QueryTable := do
  let tv ← s.retrieveOldTimeout inQuery
  let q ← s.heap inQuery
  let timeoutQueryMap ← Buckets.pull s.timeoutQueryMap tv inQuery
  some { s with
    queryTimeoutMap := s.queryTimeoutMap.erase q.qid
    timeoutQueryMap := timeoutQueryMap }

/-- `updateTimeout`. -/
def updateTimeout (inQuery : Ptr) (s : QueryTable) : Option QueryTable := do
  let s ← s.removeOldTimeout inQuery
  let q ← s.heap inQuery
  if q.finished then some (s.delete inQuery) else s.addTimeout inQuery

/-- `insertNewQuery`. The flag is false where it returns -1. -/
def insertNewQuery (inQuery : Ptr) (s : QueryTable) : Option (Bool × QueryTable) := do
  let q ← s.heap inQuery
  if s.queryTimeoutMap.contains q.qid then some (false, s)
  else do
    let s ← (s.noteInsert q.qid).addTimeout inQuery
    some (true, s)

/-! ### New queries -/

/-- A query is made and inserted, and deleted if it cannot be inserted. `subscriber` is the query
that hears of its result. -/
def create (cls : QueryClass) (b : Birth) (subscriber : Option UInt64) (s : QueryTable) :
    Option (Bool × QueryTable) := do
  let newQuery := s.created
  let (inserted, s) ← (s.alloc ⟨b.qid, cls, b.timeoutTV, false, []⟩).insertNewQuery newQuery
  if inserted then do
    let s ← subscriber.elim (some s) fun i ↦ s.subscribeLatency newQuery i
    some (true, s)
  else some (false, s.delete newQuery)

/-- Queries of one class for the query `subscriber`, their `init` only sends packets or opens
connections. -/
def createAll (cls : QueryClass) (subscriber : UInt64) (births : List Birth) (s : QueryTable) :
    Option QueryTable :=
  births.foldlM (fun s b ↦ (s.create cls b (some subscriber)).map Prod.snd) s

/-- `AddNodeQuery::init`. -/
def initAddNode (qid : UInt64) (reqProbe : Option Birth) (s : QueryTable) : Option QueryTable :=
  s.createAll .reqProbe qid reqProbe.toList

/-- `GossipQuery::init`. -/
def initGossip (qid : UInt64) (addNode : Birth) (reqProbe : Option Birth) (s : QueryTable) :
    Option QueryTable := do
  let (inserted, s) ← s.create .addNode addNode (some qid)
  if inserted then s.initAddNode addNode.qid reqProbe else some s

/-- `ReqProbeSelfGeneric::init`. -/
def initReqProbeSelf (qid : UInt64) (probes : List Birth) (s : QueryTable) : Option QueryTable :=
  s.createAll .probe qid probes

/-- A round of the loop of `HandleGetDistanceGeneric::init`. -/
def createSource (qid : UInt64) (src : SourceBirth) (s : QueryTable) : Option QueryTable :=
  match src with
  | .reqProbe b => s.createAll .reqProbe qid [b]
  | .reqProbeSelf b probes => do
    let (inserted, s) ← s.create .reqProbeSelf b (some qid)
    if inserted then s.initReqProbeSelf b.qid probes else some s

/-- `performGossip`. The first query that cannot be inserted ends it. -/
def performGossip : List GossipBirths → QueryTable → Option QueryTable
  | [], s => some s
  | g :: gs, s => do
    let (inserted, s) ← s.create .gossip g.gossip none
    if inserted then do
      let s ← s.initGossip g.gossip.qid g.addNode g.reqProbe
      performGossip gs s
    else some s

/-- `performRingManagement`. There is no query if no ring is eligible. -/
def performRingManagement (ringManage : Option Birth) (s : QueryTable) : Option QueryTable :=
  match ringManage with
  | none => some s
  | some b => (s.create .ringManage b none).map Prod.snd

/-- `runOnce`. -/
def runOnce (schedObj : SchedObject) (c : Choice) (s : QueryTable) : Option QueryTable :=
  match schedObj with
  | .gossip => s.performGossip c.gossips
  | .ringManage => s.performRingManagement c.ringManage

/-! ### Handlers -/

/-- `notifyQPacket` and `notifyQLatency`, from inside a handler. -/
abbrev Notify := Notification → UInt64 → QueryTable → Option QueryTable

section Handlers

variable (notify : Notify) (c : Choice) (p : Ptr) (q : Query) (s : QueryTable)

/-- The end of a handler that passes its result on: every subscriber is notified, and then the query
is finished. -/
def notifySubscribers : Option QueryTable := do
  let s ← q.subscribers.foldlM (fun s i ↦ notify .latency i (s.noteNotified p i)) s
  s.setFinished p

/-- `handleForward`: the request is forwarded, with a new deadline, or answered. -/
def handleForward : Option QueryTable :=
  if c.finishes then s.setFinished p else s.computeTimeout p c.timeoutTV

/-- `sendReqProbes`: after a new deadline the ring members are asked, or, if there are none, the
request is answered. -/
def sendReqProbes : Option QueryTable :=
  if c.fails then s.setFinished p
  else do
    let s ← s.computeTimeout p c.timeoutTV
    if c.finishes then s.setFinished p else s.createAll .reqProbe q.qid c.reqProbes

/-- `HandleGetDistanceGeneric::init`. Without sources the query notifies itself. -/
def initGetDistance (qid : UInt64) (srcNodes : List SourceBirth) : Option QueryTable :=
  if srcNodes.isEmpty then notify .latency qid s
  else srcNodes.foldlM (fun s src ↦ s.createSource qid src) s

/-- A thread runs until it is blocked by a call, or to its end. -/
def runThread : Option QueryTable :=
  match c.call with
  | none => some s
  | some (.rpc b) => (s.create (.dslReq q.qid) b none).map Prod.snd
  | some (.getDistance b srcNodes) => do
    let (inserted, s) ← s.create .handleGetDistance b none
    if inserted then s.initGetDistance notify b.qid srcNodes else some s

/-- `handleEvent`. -/
def handleEvent : Option QueryTable :=
  match q.cls with
  | .addNode => if c.passes then s.notifySubscribers notify p q else some s
  | .gossip => some s
  | .queryScheduler _ => some s
  | .ringManage => if c.passes then s.setFinished p else some s
  | .handleReq => some s
  | .probe => if c.passes then s.notifySubscribers notify p q else some s
  | .handleClosest => if c.passes then s.setFinished p else some s
  | .reqProbe => if c.passes then s.notifySubscribers notify p q else some s
  | .handleMC => if c.passes then s.setFinished p else some s
  | .dslReq recvQueryID => notify .packet recvQueryID s
  | .dslRecv => some s
  | .reqProbeSelf => some s
  | .handleGetDistance => some s

/-- `handleLatency`. -/
def handleLatency : Option QueryTable :=
  match q.cls with
  | .addNode => if c.passes then s.notifySubscribers notify p q else some s
  | .gossip => if c.passes then s.setFinished p else some s
  | .queryScheduler _ => some s
  | .ringManage => some s
  | .handleReq => if c.passes then s.setFinished p else some s
  | .probe => if c.passes then s.notifySubscribers notify p q else some s
  | .handleClosest =>
    if c.passes then (if c.forwards then s.handleForward c p else s.sendReqProbes c p q) else some s
  | .reqProbe => some s
  | .handleMC =>
    if c.passes then (if c.forwards then s.handleForward c p else s.sendReqProbes c p q) else some s
  | .dslReq _ => some s
  | .dslRecv => do
    let s ← s.runThread notify c q
    -- the state of the thread is read afterwards
    let _ ← s.heap p
    if c.finishes then s.setFinished p else some s
  | .reqProbeSelf => if c.passes then s.notifySubscribers notify p q else some s
  | .handleGetDistance => if c.passes then s.setFinished p else some s

/-- `Query::handleTimeout`. -/
def handleQueryTimeout : Option QueryTable :=
  match q.cls with
  | .queryScheduler schedObj => do
    let s ← s.runOnce schedObj c
    s.computeTimeout p c.timeoutTV
  | .handleClosest => if c.forwards then s.handleForward c p else s.setFinished p
  | .handleMC => if c.forwards then s.handleForward c p else s.setFinished p
  | _ => s.setFinished p

end Handlers

/-! ### Calls -/

section Calls

variable (env : ℕ → Choice)

/-- A handler is called. -/
def handle (notify : Notify) (m : Notification) (p : Ptr) (s : QueryTable) : Option QueryTable := do
  let q ← s.heap p
  let c := env s.handled
  let s := { s with handled := s.handled + 1 }
  match m with
  | .packet => s.handleEvent notify c p q
  | .latency => s.handleLatency notify c p q

/-- `notifyQPacket` and `notifyQLatency`: a query is looked up, its handler called, and its deadline
updated. -/
def notifyQuery : ℕ → Notify
  | 0, _, _, _ => none
  | depth + 1, m, id, s =>
    match s.queryTimeoutMap[id]? with
    | none => some s
    | some (curQuery, _) => do
      let s ← s.handle env (notifyQuery depth) m curQuery
      s.updateTimeout curQuery

/-- A depth of notifications that is enough. -/
def depth (s : QueryTable) : ℕ := s.created + 2

/-- `notifyQPacket`. -/
def notifyQPacket (id : UInt64) (s : QueryTable) : Option QueryTable :=
  notifyQuery env s.depth .packet id s

/-- `notifyQLatency`. -/
def notifyQLatency (id : UInt64) (s : QueryTable) : Option QueryTable :=
  notifyQuery env s.depth .latency id s

/-- The queries whose deadlines have expired, in the order of the deadlines. -/
def dueQueries (curTime : Timeval) (s : QueryTable) : List Ptr :=
  (s.timeoutQueryMap.toList.filter fun e ↦ Timeval.expired curTime e.1).flatMap Prod.snd

/-- A round of the second loop of `handleTimeout`. -/
def timeoutRound (curQuery : Ptr) (s : QueryTable) : Option QueryTable := do
  let q ← s.heap curQuery
  let s' ← { s with handled := s.handled + 1 }.handleQueryTimeout (env s.handled) curQuery q
  s'.updateTimeout curQuery

/-- `handleTimeout`. -/
def handleTimeout (curTime : Timeval) (s : QueryTable) : Option QueryTable :=
  (s.dueQueries (normalizeTime curTime)).foldlM (fun s p ↦ s.timeoutRound env p) s

/-- `HandleReqGeneric::init`, `HandleClosestGeneric::init` and `HandleMCGeneric::init`: the targets
are probed that no cache knows. If all are known (`done`) the query notifies itself. -/
def initRequest (qid : UInt64) (probes : List Birth) (done : Bool) (s : QueryTable) :
    Option QueryTable := do
  let s ← s.createAll .probe qid probes
  if done then s.notifyQLatency env qid else some s

/-- The calls from outside. -/
inductive Event where
  /-- `addNodeToRing`. -/
  | addNode (b : Birth) (reqProbe : Option Birth)
  | queryScheduler (schedObj : SchedObject) (b : Birth)
  | handleReq (b : Birth) (probes : List Birth) (done : Bool)
  | handleClosest (b : Birth) (probes : List Birth) (done : Bool)
  | handleMC (b : Birth) (probes : List Birth) (done : Bool)
  | dslRecv (b : Birth)
  | notifyQPacket (id : UInt64)
  | notifyQLatency (id : UInt64)
  | handleTimeout (curTime : Timeval)
  /-- `updateTimeout` of a query that the caller has a pointer to, and may have finished, as
  `removeScheduler` does. -/
  | updateTimeout (inQuery : Ptr) (finished : Bool)

/-- A query is inserted, and its `init` called. -/
def insertAndInit (cls : QueryClass) (b : Birth) (init : QueryTable → Option QueryTable)
    (s : QueryTable) : Option QueryTable := do
  let (inserted, s) ← s.create cls b none
  if inserted then init s else some s

/-- An outermost call. A query that has been deleted is nobody's to update. -/
def step (s : QueryTable) : Event → Option QueryTable
  | .addNode b reqProbe => s.insertAndInit .addNode b fun s ↦ s.initAddNode b.qid reqProbe
  | .queryScheduler schedObj b => s.insertAndInit (.queryScheduler schedObj) b some
  | .handleReq b probes done =>
    s.insertAndInit .handleReq b fun s ↦ s.initRequest env b.qid probes done
  | .handleClosest b probes done =>
    s.insertAndInit .handleClosest b fun s ↦ s.initRequest env b.qid probes done
  | .handleMC b probes done =>
    s.insertAndInit .handleMC b fun s ↦ s.initRequest env b.qid probes done
  | .dslRecv b => s.insertAndInit .dslRecv b some
  | .notifyQPacket id => s.notifyQPacket env id
  | .notifyQLatency id => s.notifyQLatency env id
  | .handleTimeout curTime => s.handleTimeout env curTime
  | .updateTimeout inQuery finished =>
    match s.heap inQuery with
    | none => some s
    | some _ => (if finished then s.setFinished inQuery else some s).bind (·.updateTimeout inQuery)

end Calls

end QueryTable

end Meridian

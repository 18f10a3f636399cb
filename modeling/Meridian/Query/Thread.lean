import Meridian.Query.Search
import Meridian.MQL.Value
import Mathlib.Data.Finset.Card

/-!
# Threads and the queries they wait for

A program that is received runs as a thread, which a `DSLRecvQuery` owns. It waits for other nodes
in two kinds of calls: `rpc` creates a `DSLReqQuery`, which hands what it is sent on to the thread,
and `get_distance` creates a `HandleGetDistanceGeneric`, which collects the answers of probes.

* What a thread computes between two calls is not modelled here. It is an `Activity`: the calls that
  it would make, and how it ends if none of them blocks.
* `call`, `rpcSource` and `wokenBy` of a thread are read by statements only. They say in which call
  it is, from which datagram `rpc_recv` was decoded, and what has made it runnable.
* A time is a number of microseconds.
-/

namespace Meridian

open Lib BufferWrapper MQL MQL.Value

/-- The constructor of a `DSLReplyPacket` from a buffer. The value is not checked: what cannot be
decoded is `EMPTY`. -/
def DSLReplyPacket.parse {D : Type} (xdr : XdrDouble D) (magic : UInt32) :
    Parser UnmarshalState (UInt64 × Value D) := do
  let (queryID, magicNumber) ← onBuffer (Packet.parseStart DSL_REPLY)
  onBuffer (nullIf (magicNumber != magic))
  let retNode ← unmarshalAst xdr
  pure (queryID, retNode)

/-! ### Threads -/

/-- `PSState`. -/
inductive PSState where
  | done
  | ready
  | running
  | blocked
  deriving DecidableEq, Repr

/-- The two kinds of calls that block. -/
inductive CallKind where
  | rpc
  | getDistance
  deriving DecidableEq, Repr

/-- A call that blocks: the query it has created, and when. -/
structure Call where
  kind : CallKind
  qid : UInt64
  stamp : ℕ
  deriving DecidableEq, Repr

/-- What makes a blocked thread runnable. -/
inductive Waker where
  /-- A `DSL_REPLY`. -/
  | reply
  /-- The results of a `HandleGetDistanceGeneric`. -/
  | results
  deriving DecidableEq, Repr

/-- A `Measurement`: the node, and the latencies of its targets. -/
structure Measurement where
  node : NodeIdentRendv
  latencyUS : List UInt32
  deriving DecidableEq, Repr

/-- The members of a `DSLRecvQuery`, and of its `ParserState` those that the process writes.
`queryReturn` is `none` for the empty token. -/
structure DSLRecvQuery (D : Type) where
  finished : Bool
  timeoutTV : ℕ
  state : PSState
  rpcRecv : Value D
  queryReturn : Option (List Measurement)
  astAllocationCount : ℕ
  call : Option Call
  rpcSource : Option (List UInt8)
  wokenBy : Option Waker

namespace DSLRecvQuery

variable {D : Type}

/-- The constructor, for a program that has been parsed. -/
def new (now : ℕ) (timeoutMS : UInt16) (astAllocationCount : ℕ) : DSLRecvQuery D where
  finished := false
  timeoutTV := now + min (2 * MAX_RTT_US.toNat) (timeoutMS.toNat * 1000)
  state := .ready
  rpcRecv := .empty
  queryReturn := none
  astAllocationCount := astAllocationCount
  call := none
  rpcSource := none
  wokenBy := none

/-- A blocked thread becomes runnable. -/
def wake (waker : Waker) (t : DSLRecvQuery D) : DSLRecvQuery D :=
  { t with
    state := .ready
    wokenBy := if t.state = .blocked then some waker else t.wokenBy }

/-- `handleEvent`; `none` is the return value -1. -/
def handleEvent (xdr : XdrDouble D) (magic : UInt32) (inPacket : List UInt8)
    (t : DSLRecvQuery D) : Option (DSLRecvQuery D) :=
  (DSLReplyPacket.parse xdr magic ⟨BufferWrapper.new inPacket, t.astAllocationCount⟩).map
    fun ((_, retNode), s) ↦
      wake .reply
        { t with
          rpcRecv := retNode
          rpcSource := some inPacket
          astAllocationCount := s.astAllocationCount }

/-- The thread goes on behind the call it was in. -/
def resume (t : DSLRecvQuery D) : DSLRecvQuery D := { t with call := none, wokenBy := none }

/-- The thread gives up the processor in a call. -/
def block (call : Call) (t : DSLRecvQuery D) : DSLRecvQuery D :=
  { t with state := .blocked, call := some call, wokenBy := none }

end DSLRecvQuery

/-- The members of a `DSLReqQuery` that matter once its request has been sent. -/
structure DSLReqQuery where
  finished : Bool
  timeoutTV : ℕ
  recvQueryID : UInt64
  deriving DecidableEq, Repr

/-! ### `get_distance` -/

/-- The members of a `HandleGetDistanceGeneric`. The matrix has a row for every source. -/
structure HandleGetDistance where
  finished : Bool
  timeoutTV : ℕ
  srcNodes : List NodeIdentRendv
  destNodesVect : List NodeIdent
  receivedRow : Finset ℕ
  latencyMatrixUS : List UInt32
  prevQID : UInt64
  deriving DecidableEq

namespace HandleGetDistance

/-- The constructor. The product of the timeout is a `u_int`. -/
def new (inSrc : List NodeIdentRendv) (inRemote : List NodeIdentRendv) (now : ℕ)
    (inTimeoutMS : UInt32) (inPrevQID : UInt64) : HandleGetDistance where
  finished := false
  timeoutTV := now + (min (2 * MAX_RTT_US) (inTimeoutMS * 1000)).toNat
  srcNodes := inSrc
  destNodesVect := inRemote.map NodeIdentRendv.ident
  receivedRow := ∅
  latencyMatrixUS := List.replicate (inSrc.length * inRemote.length) 0xFFFFFFFF
  prevQID := inPrevQID

/-- The loop over the targets, for one entry of an answer about source `i`. -/
def storeLatency (i : ℕ) (q : HandleGetDistance) (entry : NodeIdentLat) : HandleGetDistance :=
  { q with
    latencyMatrixUS := q.destNodesVect.zipIdx.foldl
      (fun m (dest, k) ↦
        if dest = entry.ident then m.set (i * q.destNodesVect.length + k) entry.latencyUS else m)
      q.latencyMatrixUS }

/-- The loop over the sources: "the first entry tells me where the source is". Entries "may not be
unique", so every source of that address is given its row. -/
def storeRows (curNode : NodeIdent) (entries : List NodeIdentLat) (q : HandleGetDistance) :
    HandleGetDistance :=
  q.srcNodes.zipIdx.foldl
    (fun q (src, i) ↦
      if src.ident = curNode ∧ i ∉ q.receivedRow then
        entries.foldl (storeLatency i) { q with receivedRow := insert i q.receivedRow }
      else q) q

/-- Every source has answered. -/
def complete (q : HandleGetDistance) : Bool := q.receivedRow.card = q.srcNodes.length

/-- `handleLatency` up to the call of `returnResults`, and whether it makes that call. -/
def handleLatency (inRemoteNodes : List NodeIdentLat) (q : HandleGetDistance) :
    HandleGetDistance × Bool :=
  if q.complete then (q, true)
  else
    match inRemoteNodes with
    | [] => (q, false)
    | curNode :: entries =>
      let q := q.storeRows curNode.ident entries
      (q, q.complete)

/-- The array that `returnResults` makes. -/
def results (q : HandleGetDistance) : List Measurement :=
  q.srcNodes.zipIdx.map fun (src, i) ↦
    ⟨src, (q.latencyMatrixUS.drop (i * q.destNodesVect.length)).take q.destNodesVect.length⟩

/-- An answer changes the rows only. -/
theorem handleLatency_kept (inRemoteNodes : List NodeIdentLat) (q : HandleGetDistance) :
    (q.handleLatency inRemoteNodes).1.finished = q.finished ∧
      (q.handleLatency inRemoteNodes).1.timeoutTV = q.timeoutTV ∧
      (q.handleLatency inRemoteNodes).1.prevQID = q.prevQID := by
  rw [handleLatency.eq_def]
  split
  · exact ⟨rfl, rfl, rfl⟩
  · split
    · exact ⟨rfl, rfl, rfl⟩
    · rename_i curNode entries
      dsimp only [storeRows]
      have hstore (i : ℕ) (entries : List NodeIdentLat) (q : HandleGetDistance) :
          (entries.foldl (storeLatency i) q).finished = q.finished ∧
            (entries.foldl (storeLatency i) q).timeoutTV = q.timeoutTV ∧
            (entries.foldl (storeLatency i) q).prevQID = q.prevQID := by
        induction entries generalizing q with
        | nil => exact ⟨rfl, rfl, rfl⟩
        | cons entry entries ih => exact ih (q.storeLatency i entry)
      generalize q.srcNodes.zipIdx = rows
      clear * - hstore
      induction rows generalizing q with
      | nil => exact ⟨rfl, rfl, rfl⟩
      | cons row rows ih =>
        rw [List.foldl_cons]
        split
        · obtain ⟨h1, h2, h3⟩ := hstore row.2 entries
            { q with receivedRow := insert row.2 q.receivedRow }
          obtain ⟨ih1, ih2, ih3⟩ := ih (entries.foldl (storeLatency row.2)
            { q with receivedRow := insert row.2 q.receivedRow })
          exact ⟨ih1.trans h1, ih2.trans h2, ih3.trans h3⟩
        · exact ih q

end HandleGetDistance

/-! ### What a thread does -/

/-- A call with the arguments that its query is created from. -/
inductive ThreadCall where
  | rpc (id : UInt64)
  /-- `resultsCreated` is whether there is memory for the results, if they are returned at once. -/
  | getDistance (id : UInt64) (srcNodes destNodes : List NodeIdentRendv) (now : ℕ)
      (timeoutMS : UInt32) (resultsCreated : Bool)

/-- The id of the query that a call creates. -/
def ThreadCall.id : ThreadCall → UInt64
  | .rpc id => id
  | .getDistance id _ _ _ _ _ => id

/-- How a thread gives the processor back, unless a call blocks it. -/
inductive Finish where
  /-- `PS_RUNNING`: "exception occurred". -/
  | exception
  /-- `PS_DONE`. -/
  | done
  /-- `PS_READY`: it has used up its evaluation count. -/
  | ready
  deriving DecidableEq

/-- What a thread does when it is run: the calls that it makes one after another as long as they
return at once, how it ends if they all do, and how many nodes it has allocated by then. -/
structure Activity where
  calls : List ThreadCall
  finish : Finish
  astAllocationCount : ℕ

end Meridian

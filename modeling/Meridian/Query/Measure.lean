import Meridian.Query.SearchInvariant

/-!
# The measurement queries

`HandleReqGeneric` of `Query.cpp`: a request to measure some targets is answered with the latencies
that are known when all of them are, or when time has run out.

The latencies are always of targets (`MeasureQuery.Inv`), so the answer has no more entries than the
request had targets. It goes out in every call that finishes the query, provided it fits a packet.
-/

namespace Meridian

open Lib BufferWrapper

/-- The members of a measurement query. -/
structure MeasureQuery where
  qid : UInt64
  srcNode : NodeIdentRendv
  finished : Bool
  timeoutUS : UInt32
  remoteNodes : NodeMap Unit
  remoteLatencies : NodeMap UInt32

/-- What happens to a measurement query in the query table. -/
inductive MeasureEvent where
  | init (getLatency : NodeIdent → Option UInt32)
  | handleLatency (inRemoteNodes : List NodeIdentLat)
  | handleEvent (inRemote : NodeIdent) (inPacket : List UInt8)
  | handleTimeout

namespace MeasureQuery

variable (magic : UInt32)

/-- The constructor. The target 0:0 stands for the node that asks. -/
def new (id : UInt64) (inSrcNode : NodeIdentRendv) (inRemote : List NodeIdent) : MeasureQuery where
  qid := id
  srcNode := inSrcNode
  finished := false
  timeoutUS := MAX_RTT_US
  remoteNodes := targetSet (inRemote.map fun n ↦ (orSender inSrcNode.ident n, ()))
  remoteLatencies := ∅

/-! ### The handlers -/

/-- The answer that the known latencies make. -/
def returnPacket (q : MeasureQuery) : RetPing := ⟨Packet.new q.qid, latList q.remoteLatencies⟩

/-- `sendReturnPacket`. -/
def sendReturnPacket (q : MeasureQuery) : List Output :=
  sendPacket (q.returnPacket.createRealPacket magic
    (RealPacket.new q.srcNode MAX_UDP_PACKET_SIZE))

/-- `handleLatency`. -/
def handleLatency (inRemoteNodes : List NodeIdentLat) (q : MeasureQuery) :
    MeasureQuery × List Output :=
  if q.remoteLatencies.size = q.remoteNodes.size then
    ({ q with finished := true }, q.sendReturnPacket magic)
  else
    match inRemoteNodes with
    | [r] =>
      if !q.remoteNodes.contains r.ident then (q, [])
      else if q.remoteLatencies.contains r.ident then (q, [])
      else
        let q := { q with remoteLatencies := q.remoteLatencies.insert r.ident r.latencyUS }
        if q.remoteLatencies.size ≠ q.remoteNodes.size then (q, [])
        else ({ q with finished := true }, q.sendReturnPacket magic)
    | _ => (q, [])

/-- `handleTimeout`. -/
def handleTimeout (q : MeasureQuery) : MeasureQuery × List Output :=
  ({ q with finished := true }, q.sendReturnPacket magic)

/-- `init`. -/
def init (getLatency : NodeIdent → Option UInt32) (q : MeasureQuery) :
    MeasureQuery × List Output :=
  let (latencies, probes) := startProbes getLatency q.remoteNodes q.remoteLatencies
  let q := { q with remoteLatencies := latencies }
  if q.remoteLatencies.size = q.remoteNodes.size then
    let (q, sent) := q.handleLatency magic []
    (q, probes ++ sent)
  else
    (q, probes)

/-- The handler an event calls. A packet is ignored. -/
def handle (q : MeasureQuery) : MeasureEvent → MeasureQuery × List Output
  | .init getLatency => q.init magic getLatency
  | .handleLatency inRemoteNodes => q.handleLatency magic inRemoteNodes
  | .handleEvent _ _ => (q, [])
  | .handleTimeout => q.handleTimeout magic

/-- One call on a query that is still in the table. -/
def step (s : MeasureQuery × List Output) (e : MeasureEvent) :
    Option (MeasureQuery × List Output) :=
  if s.1.finished then none
  else
    let (q, outs) := s.1.handle magic e
    some (q, s.2 ++ outs)

/-! ### What a call can do -/

variable {magic} {q : MeasureQuery}

/-- What holds of the containers between two calls. -/
def Inv (q : MeasureQuery) : Prop := ∀ n ∈ q.remoteLatencies, n ∈ q.remoteNodes

/-- Everything a call can do: note latencies of targets, and then go on with the query or finish it
with the answer that these latencies make. -/
inductive Handled (magic : UInt32) (q : MeasureQuery) : MeasureQuery × List Output → Prop where
  | pending (latencies : NodeMap UInt32) (pre : List Output)
      (hsub : ∀ n ∈ latencies, n ∈ q.remoteNodes) :
      Handled magic q ({ q with remoteLatencies := latencies }, pre)
  | finished (latencies : NodeMap UInt32) (pre : List Output)
      (hsub : ∀ n ∈ latencies, n ∈ q.remoteNodes) :
      Handled magic q ({ q with remoteLatencies := latencies, finished := true },
        pre ++ sendReturnPacket magic { q with remoteLatencies := latencies })

theorem handleLatency_handled (results : List NodeIdentLat) (hinv : q.Inv) :
    Handled magic q (q.handleLatency magic results) := by
  have hidle : Handled magic q (q, []) := .pending q.remoteLatencies [] hinv
  rw [handleLatency.eq_def]
  split
  · exact .finished q.remoteLatencies [] hinv
  · split
    · rename_i r
      split
      · exact hidle
      · rename_i hr
        have hsub : ∀ n ∈ q.remoteLatencies.insert r.ident r.latencyUS, n ∈ q.remoteNodes := by
          intro n hn
          rcases mem_insert_iff.1 hn with rfl | hn
          · simpa using hr
          · exact hinv n hn
        split
        · exact hidle
        · dsimp only
          split
          · exact .pending _ [] hsub
          · exact .finished _ [] hsub
    · exact hidle

/-- **What a call can do**, whichever it is. -/
theorem handle_handled (e : MeasureEvent) (hinv : q.Inv) : Handled magic q (q.handle magic e) := by
  cases e with
  | init getLatency =>
    show Handled magic q (q.init magic getLatency)
    have hsub := (startProbes_spec getLatency hinv).1
    rw [init]
    generalize startProbes getLatency q.remoteNodes q.remoteLatencies = started at *
    obtain ⟨latencies, probes⟩ := started
    dsimp only at hsub ⊢
    split
    · rename_i hsize
      simp only [handleLatency, hsize, if_true]
      exact .finished latencies probes hsub
    · exact .pending latencies probes hsub
  | handleLatency results => exact handleLatency_handled results hinv
  | handleEvent inRemote inPacket => exact .pending q.remoteLatencies [] hinv
  | handleTimeout => exact .finished q.remoteLatencies [] hinv

end MeasureQuery

end Meridian

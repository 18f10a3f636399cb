import Meridian.Query.Search
import Mathlib.Data.NNRat.Defs

/-!
# Ring management

`RingManageQuery` of `Query.cpp`: a ring is frozen, its members are asked for their latencies to each
other, and when all have answered, or time has run out, the primary ring is replaced by the members
that span the largest volume.

* `calculateHV` is numerical code over the latency matrix. It is a parameter, `hyperVolume`, of which
  nothing is known but that it is not negative; it is given the latency matrix, the members that are
  left, and the position of the one to be left out.
* The handlers take the `RingSet` and return it. An `assert` that fails ends them (`none`).
* A handler returns the calls of `setRingMembers` it made, with the state before and the return value.
-/

namespace Meridian

open Lib BufferWrapper

/-- The members of a `RingManageQuery`. -/
structure RingManageQuery where
  qid : UInt64
  ringNum : Int
  finished : Bool
  remoteNodes : NodeSet
  retNodeMap : NodeMap (NodeMap UInt32)

/-- The hypervolume oracle. -/
abbrev HyperVolume := List (List UInt32) → List NodeIdent → ℕ → ℚ≥0

/-- A call of `setRingMembers`: the state before, the return value, and the state after. -/
structure SetRingCall where
  before : RingSet
  ret : Int
  after : RingSet

namespace RingManageQuery

/-- The constructor. -/
def new (qid : UInt64) (ringNum : Int) : RingManageQuery := ⟨qid, ringNum, false, ∅, ∅⟩

section Replacement

/-! ### The candidates -/

/-- `removeCandidateNode`. -/
def removeCandidateNode (inNode : NodeIdent) (q : RingManageQuery) : RingManageQuery :=
  { q with
    remoteNodes := q.remoteNodes.erase inNode
    retNodeMap := (q.retNodeMap.erase inNode).map fun _ latencies ↦ latencies.erase inNode }

/-- `worstNode` of `performReplacement`: of the nodes that have not reported all the others, the
first one that has reported the fewest, and 0:0 if there is none. -/
def worstNode (q : RingManageQuery) : NodeIdent :=
  (q.retNodeMap.toList.foldl (fun (worst : NodeIdent × ℕ) entry ↦
    if entry.2.size + 1 < q.remoteNodes.size ∧ entry.2.size < worst.2 then
      (entry.1, entry.2.size)
    else worst) (⟨0, 0⟩, UINT_MAX.toNat)).1

/-- The loop of `performReplacement`, which drops one candidate after another until the reports of
the others are complete. It returns the nodes dropped, or `none` where the function returns. The
first argument bounds the iterations; each takes a node out of `remoteNodes`. -/
def prune (fullPrimRingSize : ℕ) :
    ℕ → RingManageQuery → List NodeIdent → RingManageQuery × Option (List NodeIdent)
  | 0, q, _ => (q, none)
  | fuel + 1, q, removedNodes =>
    if q.remoteNodes.size ≤ fullPrimRingSize then (q, none)
    else
      let worst := q.worstNode
      if worst.addr = 0 ∧ worst.port = 0 then (q, some removedNodes)
      else
        let q' := q.removeCandidateNode worst
        if q'.remoteNodes.size + 1 ≠ q.remoteNodes.size then (q', none)
        else prune fullPrimRingSize fuel q' (removedNodes ++ [worst])

/-- `createLatencyMatrix`, in microseconds, or NULL if a latency is missing. -/
def createLatencyMatrix (q : RingManageQuery) : Option (List (List UInt32)) :=
  q.remoteNodes.toList.mapM fun outer ↦
    q.remoteNodes.toList.mapM fun inner ↦
      if outer = inner then some 0
      else (q.retNodeMap[outer]?).bind fun latencies ↦ latencies[inner]?

/-- The node without which the volume is largest; of several, the last one. -/
def maxHVNode (volume : ℕ → ℚ≥0) (inVector : List NodeIdent) : Option ℕ :=
  ((List.range inVector.length).foldl (fun (best : Option ℕ × ℚ≥0) k ↦
    if best.2 ≤ volume k then (some k, volume k) else best) (none, 0)).1

/-- `reduceSetByN`: take a node out of the vector, `numReduction` times. The vector names no node
twice, so the loop that looks for the node finds it once. -/
def reduceSetByN (volume : List NodeIdent → ℕ → ℚ≥0) :
    ℕ → List NodeIdent → List NodeIdent → Option (List NodeIdent × List NodeIdent)
  | 0, inVector, deletedNodes => some (inVector, deletedNodes)
  | numReduction + 1, inVector, deletedNodes =>
    match maxHVNode (volume inVector) inVector with
    | none => none  -- `assert(false)`
    | some k =>
      reduceSetByN volume numReduction (RingSet.eraseSwapBack inVector k)
        (deletedNodes ++ (inVector[k]?).toList)

variable (hyperVolume : HyperVolume)

/-- `performReplacement`, with the call of `setRingMembers` if it gets there. -/
def performReplacement (q : RingManageQuery) (rs : RingSet) :
    Option (RingSet × List SetRingCall) :=
  if q.remoteNodes.size ≠ q.retNodeMap.size then some (rs, [])
  else
    match prune rs.primarySize.toNat q.remoteNodes.size q [] with
    | (_, none) => some (rs, [])
    | (q, some removedNodes) =>
      match q.createLatencyMatrix with
      | none => some (rs, [])
      | some matrix =>
        match reduceSetByN (hyperVolume matrix) (q.remoteNodes.size - rs.primarySize.toNat)
          q.remoteNodes.toList removedNodes with
        | none => none
        | some (newPrimNodes, removedNodes) =>
          let (ret, rs') := rs.setRingMembers q.ringNum newPrimNodes removedNodes
          some (rs', [⟨rs, ret, rs'⟩])

end Replacement

/-! ### The handlers -/

variable (magic : UInt32)

/-- The nodes a member is asked to measure: the others that need no rendavous. -/
def targetsOf (rs : RingSet) (nodes : List NodeIdent) (outer : NodeIdent) : List NodeIdent :=
  nodes.filter fun inner ↦ !(outer == inner || (rs.rendvLookup inner).isSome)

/-- `init`: freeze the ring and ask every member that needs no rendavous. -/
def init (rendv : NodeIdent) (q : RingManageQuery) (rs : RingSet) :
    RingManageQuery × RingSet × List Output :=
  match RingSet.checkRing q.ringNum with
  | none => (q, rs, [])
  | some r =>
    let q := { q with remoteNodes := rs.memberSet r }
    let rs := (rs.freezeRing q.ringNum).2
    let nodes := q.remoteNodes.toList
    let requests := (nodes.filter fun n ↦ (rs.rendvLookup n).isNone).flatMap fun outer ↦
      let req : ReqGeneric := ⟨⟨Packet.new q.qid, rendv.addr, rendv.port⟩, .meridPing,
        targetsOf rs nodes outer⟩
      sendPacket (req.createRealPacket magic (RealPacket.ofIdent outer))
    (q, rs, requests)

variable (hyperVolume : HyperVolume)

/-- What `handleEvent` makes of the list of a report: the latencies to nodes it has asked. -/
def reportOf (q : RingManageQuery) (ret : RetPing) : NodeMap UInt32 :=
  ret.nodes.foldl (fun newMap t ↦
    if q.remoteNodes.contains t.ident then newMap.insert t.ident t.latencyUS else newMap) ∅

/-- `handleEvent`. -/
def handleEvent (inRemote : NodeIdent) (inPacket : List UInt8) (q : RingManageQuery)
    (rs : RingSet) : Option (RingManageQuery × RingSet × List SetRingCall) :=
  if inPacket.headD 0 ≠ RET_PING_REQ then some (q, rs, [])
  else if !q.remoteNodes.contains inRemote then some (q, rs, [])
  else if q.retNodeMap.contains inRemote then some (q, rs, [])
  else
    match BufferWrapper.parse (RetPing.parser magic) inPacket with
    | none => some (q, rs, [])
    | some ret =>
      let q := { q with retNodeMap := q.retNodeMap.insert inRemote (q.reportOf ret) }
      if q.retNodeMap.size = q.remoteNodes.size then
        let rs := (rs.unfreezeRing q.ringNum).2
        (q.performReplacement hyperVolume rs).map fun res ↦
          ({ q with finished := true }, res.1, res.2)
      else some (q, rs, [])

variable (getRingNumber : UInt32 → Fin MAX_NUM_RINGS)

/-- The members that have not answered. -/
def badNodes (q : RingManageQuery) : List NodeIdent :=
  q.remoteNodes.toList.filter fun n ↦ !q.retNodeMap.contains n

/-- The `eraseNode` calls of a `handleTimeout`, one after another. -/
def eraseNodes (rs : RingSet) : List NodeIdent → Option RingSet
  | [] => some rs
  | n :: nodes => (rs.eraseNode getRingNumber n).bind fun res ↦ eraseNodes res.2 nodes

/-- `handleTimeout`: the members that have not answered are evicted. -/
def handleTimeout (q : RingManageQuery) (rs : RingSet) :
    Option (RingManageQuery × RingSet × List SetRingCall) :=
  let rs := (rs.unfreezeRing q.ringNum).2
  (eraseNodes getRingNumber rs q.badNodes).bind fun rs ↦
    let q' := q.badNodes.foldl (fun q n ↦ q.removeCandidateNode n) q
    (q'.performReplacement hyperVolume rs).map fun res ↦
      ({ q' with finished := true }, res.1, res.2)

end RingManageQuery

end Meridian

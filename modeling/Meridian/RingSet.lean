import Meridian.Ident
import Meridian.Lib.Binary64
import Mathlib.Logic.Function.Basic
import Mathlib.Data.List.Basic

/-!
# Rings

The `RingSet` class: ten rings of nodes sorted by latency, each a bounded primary list and a bounded
secondary queue, next to a latency map and a rendavous map.

* `getRingNumber` takes a logarithm in floating point. Nothing below depends on its values, only on
  its being a function of the latency into the ring numbers, so it is a **parameter**.
* A call that ends in `assert(false)`, or that reads outside the ring arrays, does not complete: it
  is `none`. `WARN_LOG` lines have no effect and are left out.
* A ring number that the source has already bounded is a `Fin MAX_NUM_RINGS`; where the caller
  passes an arbitrary `int`, it is an `Int` and the bound check is the source's own.
-/

namespace Meridian

/-- `MAX_NUM_RINGS`. -/
abbrev MAX_NUM_RINGS : ℕ := 10

instance : NeZero MAX_NUM_RINGS := ⟨by decide⟩

/-- `UINT_MAX`. -/
abbrev UINT_MAX : UInt32 := 0xFFFFFFFF

/-- The state of a `RingSet`. -/
structure RingSet where
  primaryRing : Fin MAX_NUM_RINGS → List NodeIdent
  secondaryRing : Fin MAX_NUM_RINGS → List NodeIdent
  ringFrozen : Fin MAX_NUM_RINGS → Bool
  primarySize : UInt32
  secondarySize : UInt32
  nodeLatencyUS : NodeMap UInt32
  rendvMapping : NodeMap NodeIdent

namespace RingSet

/-- The constructor. -/
def new (primRingSize secondRingSize : UInt32) : RingSet where
  primaryRing := fun _ ↦ []
  secondaryRing := fun _ ↦ []
  ringFrozen := fun _ ↦ false
  primarySize := primRingSize
  secondarySize := secondRingSize
  nodeLatencyUS := ∅
  rendvMapping := ∅

/-- The members of a ring, primary before secondary. -/
def ring (rs : RingSet) (r : Fin MAX_NUM_RINGS) : List NodeIdent :=
  rs.primaryRing r ++ rs.secondaryRing r

/-! ### Small operations -/

/-- The check every function that takes a ring number from outside makes. -/
def checkRing (ringNum : Int) : Option (Fin MAX_NUM_RINGS) :=
  if h : 0 ≤ ringNum ∧ ringNum < MAX_NUM_RINGS then
    some ⟨ringNum.toNat, by omega⟩
  else
    none

/-- `freezeRing`, with its return value. -/
def freezeRing (rs : RingSet) (ringNum : Int) : Int × RingSet :=
  match checkRing ringNum with
  | none => (-1, rs)
  | some r => (0, { rs with ringFrozen := Function.update rs.ringFrozen r true })

/-- `unfreezeRing`, with its return value. -/
def unfreezeRing (rs : RingSet) (ringNum : Int) : Int × RingSet :=
  match checkRing ringNum with
  | none => (-1, rs)
  | some r => (0, { rs with ringFrozen := Function.update rs.ringFrozen r false })

/-- `isPrimRingFull`. -/
def isPrimRingFull (rs : RingSet) (r : Fin MAX_NUM_RINGS) : Bool :=
  (rs.primaryRing r).length == rs.primarySize.toNat

/-- `isSecondRingEmpty`. -/
def isSecondRingEmpty (rs : RingSet) (r : Fin MAX_NUM_RINGS) : Bool :=
  (rs.secondaryRing r).isEmpty

/-- `rendvLookup`. -/
def rendvLookup (rs : RingSet) (remoteNode : NodeIdent) : Option NodeIdent :=
  rs.rendvMapping[remoteNode]?

/-! ### Erasing -/

/-- Overwrite position `i` with the last entry, then `pop_back`. -/
def eraseSwapBack (l : List NodeIdent) (i : ℕ) : List NodeIdent :=
  match l.getLast? with
  | some b => (l.set i b).dropLast
  | none => l

/-- After a primary member has gone, the front of the secondary ring is promoted. -/
def promote (prim second : List NodeIdent) : List NodeIdent × List NodeIdent :=
  match second with
  | [] => (prim, [])
  | s :: second => (prim ++ [s], second)

/-- The two lists of a ring after `inNode` has been taken out of the primary ring, or else out of
the secondary one. `none` if it is in neither. -/
def eraseFromRing (prim second : List NodeIdent) (inNode : NodeIdent) :
    Option (List NodeIdent × List NodeIdent) :=
  match prim.findIdx? (· == inNode) with
  | some i => some (promote (eraseSwapBack prim i) second)
  | none =>
    match second.findIdx? (· == inNode) with
    | some i => some (prim, second.eraseIdx i)
    | none => none

/-- Both lists of one ring at once. -/
def setRing (rs : RingSet) (r : Fin MAX_NUM_RINGS) (prim second : List NodeIdent) : RingSet :=
  { rs with
    primaryRing := Function.update rs.primaryRing r prim
    secondaryRing := Function.update rs.secondaryRing r second }

/-- The two-argument `eraseNode`, with its return value. A frozen ring is left alone and reported as
success. The argument is a value here: the source takes a reference, which in the eviction of
`insertNode` refers to the entry that is being erased. -/
def eraseNodeRing (rs : RingSet) (inNode : NodeIdent) (r : Fin MAX_NUM_RINGS) : Int × RingSet :=
  if rs.ringFrozen r then
    (0, rs)
  else
    match eraseFromRing (rs.primaryRing r) (rs.secondaryRing r) inNode with
    | none => (-1, rs)
    | some (prim, second) =>
      (0, { rs.setRing r prim second with
            nodeLatencyUS := rs.nodeLatencyUS.erase inNode
            rendvMapping := rs.rendvMapping.erase inNode })

/-- A two-argument `eraseNode` whose failure is asserted away by the caller. -/
def eraseNodeAssert (rs : RingSet) (inNode : NodeIdent) (r : Fin MAX_NUM_RINGS) : Option RingSet :=
  if (rs.eraseNodeRing inNode r).1 = -1 then none else some (rs.eraseNodeRing inNode r).2

section RingNumber

variable (getRingNumber : UInt32 → Fin MAX_NUM_RINGS)

/-- The one-argument `eraseNode`, with its return value. -/
def eraseNode (rs : RingSet) (inNode : NodeIdent) : Option (Int × RingSet) :=
  match rs.nodeLatencyUS[inNode]? with
  | none => some (-1, rs)
  | some lat => (rs.eraseNodeAssert inNode (getRingNumber lat)).map (0, ·)

/-! ### Inserting -/

/-- The part of `insertNode` after the old entry has gone: append to the primary ring if it has
room, otherwise to the secondary ring, whose oldest member makes room for it. -/
def pushNode (rs : RingSet) (inNode : NodeIdent) (latencyUS : UInt32) : Option RingSet :=
  let r := getRingNumber latencyUS
  let store (rs : RingSet) : RingSet :=
    { rs with nodeLatencyUS := rs.nodeLatencyUS.insert inNode latencyUS }
  if (rs.primaryRing r).length < rs.primarySize.toNat then
    some (store (rs.setRing r (rs.primaryRing r ++ [inNode]) (rs.secondaryRing r)))
  else if rs.secondarySize.toNat ≤ (rs.secondaryRing r).length then
    match rs.secondaryRing r with
    | [] => none  -- `front()` of an empty queue
    | oldest :: _ =>
      (rs.eraseNodeAssert oldest r).map fun rs ↦
        store (rs.setRing r (rs.primaryRing r) (rs.secondaryRing r ++ [inNode]))
  else
    some (store (rs.setRing r (rs.primaryRing r) (rs.secondaryRing r ++ [inNode])))

/-- The rendavous record `insertNode` makes before it looks at the rings. -/
def storeRendv (rs : RingSet) (inNode rend : NodeIdent) : RingSet :=
  if rend.addr ≠ 0 ∧ rend.port ≠ 0 then
    { rs with rendvMapping := rs.rendvMapping.insert inNode rend }
  else
    rs

/-- The three-argument `insertNode`. It returns 0 whenever it returns. -/
def insertNodeRendv (rs : RingSet) (inNode : NodeIdent) (latencyUS : UInt32) (rend : NodeIdent) :
    Option RingSet :=
  let rs := rs.storeRendv inNode rend
  let ringNum := getRingNumber latencyUS
  if rs.ringFrozen ringNum then
    some rs
  else
    match rs.nodeLatencyUS[inNode]? with
    | none => rs.pushNode getRingNumber inNode latencyUS
    | some prev =>
      let prevRingNum := getRingNumber prev
      if prevRingNum = ringNum then
        some { rs with nodeLatencyUS := rs.nodeLatencyUS.insert inNode latencyUS }
      else if rs.ringFrozen prevRingNum then
        some rs
      else
        (rs.eraseNodeAssert inNode prevRingNum).bind fun rs ↦
          rs.pushNode getRingNumber inNode latencyUS

/-- The two-argument `insertNode`, which keeps the rendavous that is on record. -/
def insertNode (rs : RingSet) (inNode : NodeIdent) (latencyUS : UInt32) : Option RingSet :=
  rs.insertNodeRendv getRingNumber inNode latencyUS ((rs.rendvMapping[inNode]?).getD ⟨0, 0⟩)

end RingNumber

/-! ### Reading -/

/-- The parameter check that is made wherever a beta ratio is used. A `nan` passes it. -/
def checkBeta (betaRatio : Lib.Binary64) : Lib.Binary64 :=
  if betaRatio.le (.fin 0) || Lib.Binary64.le (.fin 1) betaRatio then .fin (1 / 2) else betaRatio

/-- The entry of a primary member in the answer of `fillVector`. -/
def rendvEntry (rs : RingSet) (n : NodeIdent) : NodeIdentRendv :=
  match rs.rendvLookup n with
  | some r => ⟨n.addr, n.port, r.addr, r.port.toUInt32⟩
  | none => ⟨n.addr, n.port, 0, 0⟩

/-- One primary member: inserted if its latency is within the bounds. A member without a latency,
which is asserted not to exist, is skipped. -/
def fillMember (rs : RingSet) (lowerBound upperBound : UInt32)
    (ringMembers : NodeMap NodeIdentRendv) (n : NodeIdent) : NodeMap NodeIdentRendv :=
  match rs.nodeLatencyUS[n]? with
  | none => ringMembers
  | some cur =>
    if cur ≤ upperBound ∧ lowerBound ≤ cur then ringMembers.insertIfNew n (rs.rendvEntry n)
    else ringMembers

/-- `fillVector`, with its return value. A `set<NodeIdentRendv>` is keyed by the address and port of
its entries. -/
def fillVector (rs : RingSet) (getRingNumber : UInt32 → Fin MAX_NUM_RINGS)
    (minAvgUS maxAvgUS : UInt32) (betaRatio : Lib.Binary64)
    (ringMembers : NodeMap NodeIdentRendv) : Int × NodeMap NodeIdentRendv :=
  let beta := checkBeta betaRatio
  let upper := (((Lib.Binary64.fin 1).add beta).mul (.ofNat maxAvgUS.toNat)).ceil.toUInt32
  let lower := (((Lib.Binary64.fin 1).sub beta).mul (.ofNat minAvgUS.toNat)).floor.toUInt32
  let (lowerBound, upperBound) := if upper < lower then (0, UINT_MAX) else (lower, upper)
  let rings := (List.finRange MAX_NUM_RINGS).filter fun r ↦
    getRingNumber lowerBound ≤ r ∧ r ≤ getRingNumber upperBound
  (0, rings.foldl (fun members r ↦
    (rs.primaryRing r).foldl (rs.fillMember lowerBound upperBound) members) ringMembers)

/-! ### Replacement -/

/-- `numEligible`, a `u_int` counter: the members of the ring without a rendavous. -/
def numEligible (rs : RingSet) (r : Fin MAX_NUM_RINGS) : UInt32 :=
  UInt32.ofNat ((rs.ring r).countP fun n ↦ (rs.rendvLookup n).isNone)

/-- The swap loop. `prim` is the part of the primary ring from position `i` on, `second` the part of
the secondary ring from position `j` on; the positions before them have been left behind for good,
because neither counter ever goes back. -/
def swapLoop (hasRendv : NodeIdent → Bool) :
    List NodeIdent → List NodeIdent → List NodeIdent × List NodeIdent
  | [], second => ([], second)
  | p :: prim, second =>
    if hasRendv p then
      match second.span hasRendv with
      | (skipped, []) =>
        -- `j` has reached the end, and stays there for the rest of the primary ring
        let (prim', second') := swapLoop hasRendv prim []
        (p :: prim', skipped ++ second')
      | (skipped, s :: rest) =>
        let (prim', second') := swapLoop hasRendv prim rest
        (s :: prim', skipped ++ p :: second')
    else
      let (prim', second') := swapLoop hasRendv prim second
      (p :: prim', second')

/-- `eligibleForReplacement`, with its answer. It reads `ringFrozen[ringNum]` before it bounds
`ringNum`: from 10 on the answer is `false` whatever was read, below 0 the call has no defined
outcome. -/
def eligibleForReplacement (rs : RingSet) (ringNum : Int) : Option (Bool × RingSet) :=
  if ringNum < 0 then
    none
  else
    match checkRing ringNum with
    | none => some (false, rs)
    | some r =>
      if rs.ringFrozen r then
        some (false, rs)
      else if rs.isPrimRingFull r && !rs.isSecondRingEmpty r then
        if rs.primarySize < rs.numEligible r then
          some (true, rs)
        else if rs.numEligible r = rs.primarySize then
          let (prim, second) := swapLoop (fun n ↦ (rs.rendvLookup n).isSome)
            (rs.primaryRing r) (rs.secondaryRing r)
          some (false, rs.setRing r prim second)
        else
          some (false, rs)
      else
        some (false, rs)

/-- `tmpSet` of `setRingMembers`: the present members of the ring. -/
def memberSet (rs : RingSet) (r : Fin MAX_NUM_RINGS) : NodeSet :=
  Std.ExtTreeSet.ofList (rs.ring r)

/-- `setRingMembers`, with its return value. -/
def setRingMembers (rs : RingSet) (ringNum : Int) (primRing secondRing : List NodeIdent) :
    Int × RingSet :=
  match checkRing ringNum with
  | none => (-1, rs)
  | some r =>
    if rs.primarySize.toNat < primRing.length ∨ rs.secondarySize.toNat < secondRing.length then
      (-1, rs)
    else if primRing.length + secondRing.length ≠ (rs.memberSet r).size then
      (-1, rs)
    else if ¬ primRing.all (rs.memberSet r).contains then
      (-1, rs)
    else if ¬ secondRing.all (rs.memberSet r).contains then
      (-1, rs)
    else
      (0, rs.setRing r primRing secondRing)

/-! ### Calls -/

/-- A call of one of the mutating members, with its arguments. -/
inductive Call where
  | insertNodeRendv (inNode : NodeIdent) (latencyUS : UInt32) (rend : NodeIdent)
  | insertNode (inNode : NodeIdent) (latencyUS : UInt32)
  | eraseNode (inNode : NodeIdent)
  | eraseNodeRing (inNode : NodeIdent) (ring : Int)
  | freezeRing (ringNum : Int)
  | unfreezeRing (ringNum : Int)
  | eligibleForReplacement (ringNum : Int)
  | setRingMembers (ringNum : Int) (primRing secondRing : List NodeIdent)
  deriving DecidableEq

/-- The state after one call, if the call completes. -/
def step (getRingNumber : UInt32 → Fin MAX_NUM_RINGS) (rs : RingSet) : Call → Option RingSet
  | .insertNodeRendv inNode latencyUS rend =>
    rs.insertNodeRendv getRingNumber inNode latencyUS rend
  | .insertNode inNode latencyUS => rs.insertNode getRingNumber inNode latencyUS
  | .eraseNode inNode => (rs.eraseNode getRingNumber inNode).map Prod.snd
  | .eraseNodeRing inNode ring =>
    -- the ring number is not bounded: outside the arrays there is no defined outcome
    (checkRing ring).map fun r ↦ (rs.eraseNodeRing inNode r).2
  | .freezeRing ringNum => some (rs.freezeRing ringNum).2
  | .unfreezeRing ringNum => some (rs.unfreezeRing ringNum).2
  | .eligibleForReplacement ringNum => (rs.eligibleForReplacement ringNum).map Prod.snd
  | .setRingMembers ringNum primRing secondRing =>
    some (rs.setRingMembers ringNum primRing secondRing).2

end RingSet

end Meridian

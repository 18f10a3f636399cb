import Meridian.Lib.RowMajor
import Meridian.Query.Distance

/-!
# The latency matrix of a ring

Before the members of a ring are reduced to a primary ring, `performReplacement` drops candidates
until the reports of the others are complete, and `createLatencyMatrix` lays the latencies out in an
array. Whether a report is complete is judged by its size.

* `accept` is what `handleEvent` does with a report, and `dropUnanswered` what `handleTimeout` does
  first. `Covered` is the invariant: the reports are those of the candidates, name candidates only,
  and say of a candidate what its last entry in the reply says. Dropping a candidate keeps it.
* `Passes` are the states at the head of the loop, and `Leaves` those in which the loop is left for
  the matrix. Every pass drops a candidate, so the loop ends.
* A report that is complete by its size lacks nothing, unless it has an entry for its own node: then
  another may be missing. And the loop takes 0:0 for "none is incomplete". `full_matrix_iff` says
  that nothing else goes wrong.
-/

namespace Meridian

open Lib

namespace RingManageQuery

variable {q q' q₁ : RingManageQuery} {n k : NodeIdent} {full : ℕ}

/-! ### Collecting the reports -/

/-- A report that `handleEvent` accepts. -/
def accept (q : RingManageQuery) (reply : NodeIdent × RetPing) : RingManageQuery :=
  { q with retNodeMap := q.retNodeMap.insert reply.1 (q.reportOf reply.2) }

/-- The nodes that have not answered are no candidates. -/
def dropUnanswered (q : RingManageQuery) : RingManageQuery :=
  q.badNodes.foldl (fun q n ↦ q.removeCandidateNode n) q

/-- The candidates after some replies. -/
def collect (qid : UInt64) (ringNum : Int) (nodes : NodeSet)
    (replies : List (NodeIdent × RetPing)) : RingManageQuery :=
  (replies.foldl accept { new qid ringNum with remoteNodes := nodes }).dropUnanswered

/-- The replies come from nodes that have been asked, one from each at most. -/
def Acceptable (nodes : NodeSet) (replies : List (NodeIdent × RetPing)) : Prop :=
  (replies.map Prod.fst).Nodup ∧ ∀ reply ∈ replies, reply.1 ∈ nodes

/-- The latency that a reply states for a node, in its last entry for it. -/
def stated (ret : RetPing) (n : NodeIdent) : Option UInt32 :=
  (ret.nodes.reverse.find? fun t ↦ t.ident == n).map (·.latencyUS)

/-- The latency that `n` has reported for `k`. -/
def reported (replies : List (NodeIdent × RetPing)) (n k : NodeIdent) : Option UInt32 :=
  (replies.find? fun reply ↦ reply.1 == n).bind fun reply ↦ stated reply.2 k

variable {nodes : NodeSet} {replies : List (NodeIdent × RetPing)}

/-! ### The matrix in memory -/

/-- The entry of row `i` and column `j`, in milliseconds. -/
def matrixEntry (q : RingManageQuery) (i j : ℕ) : Option Binary64 :=
  if i = j then some (.fin 0)
  else do
    let outer ← q.remoteNodes.toList[i]?
    let inner ← q.remoteNodes.toList[j]?
    let thisNodeMap ← q.retNodeMap[outer]?
    let findCur ← thisNodeMap[inner]?
    return distance findCur

/-- `createLatencyMatrix`, given the memory that `malloc` returns. -/
def createLatencyMatrixAt (memory : ℕ → Binary64) (q : RingManageQuery) : Option (Array Binary64) :=
  let N := q.remoteNodes.size
  fill N q.matrixEntry (Array.ofFn fun x : Fin (N * N) ↦ memory x)

/-! ### The loop -/

/-- The states at the head of the loop of `performReplacement`. -/
inductive Passes (full : ℕ) (q : RingManageQuery) : RingManageQuery → Prop
  | start : Passes full q q
  | pass {q₁ : RingManageQuery} (before : Passes full q q₁) (more : full < q₁.remoteNodes.size)
      (worst : q₁.worstNode ≠ ⟨0, 0⟩)
      (shrinks : (q₁.removeCandidateNode q₁.worstNode).remoteNodes.size + 1 = q₁.remoteNodes.size) :
      Passes full q (q₁.removeCandidateNode q₁.worstNode)

/-- The loop is left by `break`, for the matrix. -/
structure Leaves (full : ℕ) (q q' : RingManageQuery) : Prop where
  passes : Passes full q q'
  more : full < q'.remoteNodes.size
  worst : q'.worstNode = ⟨0, 0⟩

/-- The loop ends, by `break` or by `return`. -/
def Ends (full : ℕ) (q : RingManageQuery) : Prop :=
  ∃ q', Passes full q q' ∧ (q'.remoteNodes.size ≤ full ∨ q'.worstNode = ⟨0, 0⟩ ∨
    (q'.removeCandidateNode q'.worstNode).remoteNodes.size + 1 ≠ q'.remoteNodes.size)

/-! ### Sizes -/

section Sizes

variable {α : Type*} {m : NodeMap α} {s : NodeSet}

/-- Members that are keys: no fewer keys. -/
theorem size_le_of_mem_keys (h : ∀ n, n ∈ s → n ∈ m) : s.size ≤ m.size := by
  rw [← Std.ExtTreeMap.length_keys, ← Std.ExtTreeSet.length_toList]
  refine (List.subperm_of_subset (nodup_toList s) fun n hn ↦ ?_).length_le
  exact Std.ExtTreeMap.mem_keys.2 (h n (Std.ExtTreeSet.mem_toList.1 hn))

/-- Keys that are members, and as many: all members. -/
theorem mem_keys_of_size_le (h : ∀ n, n ∈ m → n ∈ s) (hsize : s.size ≤ m.size) (hn : n ∈ s) :
    n ∈ m := by
  rw [← Std.ExtTreeMap.length_keys, ← Std.ExtTreeSet.length_toList] at hsize
  have hsub : m.keys.Subperm s.toList := List.subperm_of_subset (nodup_keys m) fun n hn ↦
    Std.ExtTreeSet.mem_toList.2 (h n (Std.ExtTreeMap.mem_keys.1 hn))
  have hperm : m.keys.Perm s.toList := hsub.perm_of_length_le hsize
  exact Std.ExtTreeMap.mem_keys.1 (hperm.mem_iff.2 (Std.ExtTreeSet.mem_toList.2 hn))

theorem size_erase_add_one (hn : n ∈ s) : (s.erase n).size + 1 = s.size := by
  have hperm := (perm_erase hn).length_eq
  rwa [List.length_cons, Std.ExtTreeSet.length_toList, Std.ExtTreeSet.length_toList] at hperm

end Sizes

/-! ### Reports -/

/-- What a report says of a node is what its last entry for it says, if the node is a candidate. -/
theorem getElem?_report (s : NodeSet) (l : List NodeIdentLat) (k : NodeIdent) :
    (l.foldl (fun (newMap : NodeMap UInt32) t ↦
      if s.contains t.ident then newMap.insert t.ident t.latencyUS else newMap) ∅)[k]? =
      if k ∈ s then (l.reverse.find? fun t ↦ t.ident == k).map (·.latencyUS) else none := by
  induction l using List.reverseRecOn with
  | nil => simp
  | append_singleton l t ih =>
    rw [List.foldl_append, List.foldl_cons, List.foldl_nil, List.reverse_append,
      List.reverse_singleton, List.singleton_append, List.find?_cons]
    by_cases htk : t.ident = k
    · subst htk
      by_cases hmem : t.ident ∈ s
      · simp [hmem]
      · simpa [hmem] using ih
    · have hbeq : (t.ident == k) = false := beq_false_of_ne htk
      rw [hbeq, ← ih]
      split
      · rw [Lib.getElem?_insert_of_ne (Ne.symm htk)]
      · rfl

theorem reported_concat {reply : NodeIdent × RetPing} (hnew : reply.1 ∉ replies.map Prod.fst) :
    reported (replies ++ [reply]) n k =
      if n = reply.1 then stated reply.2 k else reported replies n k := by
  rw [reported, List.find?_append]
  by_cases hn : n = reply.1
  · subst hn
    have hnone : replies.find? (fun r ↦ r.1 == reply.1) = none := by
      rw [List.find?_eq_none]
      intro r hr heq
      exact hnew (List.mem_map.2 ⟨r, hr, eq_of_beq heq⟩)
    simp [hnone]
  · rw [if_neg hn, reported]
    have hone : [reply].find? (fun r ↦ r.1 == n) = none := by
      simp [Ne.symm hn]
    rw [hone, Option.or_none]

/-- The reports are those of candidates, name candidates only, and say of a candidate what its last
entry in the reply says. -/
structure Reports (replies : List (NodeIdent × RetPing)) (q : RingManageQuery) : Prop where
  known : ∀ n, n ∈ q.retNodeMap → n ∈ q.remoteNodes
  names : ∀ (n : NodeIdent) (m : NodeMap UInt32), q.retNodeMap[n]? = some m →
    ∀ k, k ∈ m → k ∈ q.remoteNodes
  entry : ∀ (n : NodeIdent) (m : NodeMap UInt32), q.retNodeMap[n]? = some m →
    ∀ k, k ∈ q.remoteNodes → m[k]? = reported replies n k

/-- Every candidate has answered. -/
def Answered (q : RingManageQuery) : Prop := ∀ n, n ∈ q.remoteNodes → n ∈ q.retNodeMap

theorem Reports.accept {reply : NodeIdent × RetPing} (h : q.Reports replies)
    (hknown : reply.1 ∈ q.remoteNodes) (hnew : reply.1 ∉ replies.map Prod.fst) :
    (q.accept reply).Reports (replies ++ [reply]) := by
  have hget : ∀ (n : NodeIdent) (m : NodeMap UInt32), (q.accept reply).retNodeMap[n]? = some m →
      n = reply.1 ∧ m = q.reportOf reply.2 ∨ n ≠ reply.1 ∧ q.retNodeMap[n]? = some m := by
    intro n m hm
    have hm : (q.retNodeMap.insert reply.1 (q.reportOf reply.2))[n]? = some m := hm
    rcases Lib.getElem?_insert_eq_some.1 hm with ⟨hn, hm⟩ | ⟨hn, hm⟩
    · exact .inl ⟨hn.symm, hm.symm⟩
    · exact .inr ⟨hn.symm, hm⟩
  refine ⟨fun n hn ↦ ?_, fun n m hm k hk ↦ ?_, fun n m hm k hk ↦ ?_⟩
  · rcases mem_insert_iff.1 hn with rfl | hn
    · exact hknown
    · exact h.known n hn
  · rcases hget n m hm with ⟨-, rfl⟩ | ⟨-, hm⟩
    · show k ∈ q.remoteNodes
      by_contra hnot
      have hnone := getElem?_report q.remoteNodes reply.2.nodes k
      rw [if_neg hnot] at hnone
      rw [Std.ExtTreeMap.mem_iff_isSome_getElem?] at hk
      have hsome : (q.reportOf reply.2)[k]? = none := hnone
      rw [hsome] at hk
      cases hk
    · exact h.names n m hm k hk
  · rw [reported_concat hnew]
    rcases hget n m hm with ⟨rfl, rfl⟩ | ⟨hne, hm⟩
    · rw [if_pos rfl]
      exact (getElem?_report q.remoteNodes reply.2.nodes k).trans (if_pos hk)
    · rw [if_neg hne]
      exact h.entry n m hm k hk

/-- What is left of the reports without a candidate. -/
theorem getElem?_removeCandidateNode (q : RingManageQuery) (n x : NodeIdent) :
    (q.removeCandidateNode x).retNodeMap[n]? =
      if n = x then none else (q.retNodeMap[n]?).map fun m ↦ m.erase x := by
  show ((q.retNodeMap.erase x).map fun _ m ↦ m.erase x)[n]? = _
  rw [Std.ExtTreeMap.getElem?_map, Lib.getElem?_erase]
  split
  · next hn => rw [if_pos hn.symm, Option.map_none]
  · next hn => rw [if_neg (Ne.symm hn)]

theorem mem_retNodeMap_removeCandidateNode (q : RingManageQuery) (n x : NodeIdent) :
    n ∈ (q.removeCandidateNode x).retNodeMap ↔ n ≠ x ∧ n ∈ q.retNodeMap := by
  rw [Std.ExtTreeMap.mem_iff_isSome_getElem?, Std.ExtTreeMap.mem_iff_isSome_getElem?,
    getElem?_removeCandidateNode]
  by_cases hn : n = x
  · simp [hn]
  · simp [hn]

/-- **Dropping a candidate** keeps the reports of the others. -/
theorem Reports.removeCandidateNode (h : q.Reports replies) (x : NodeIdent) :
    (q.removeCandidateNode x).Reports replies := by
  have hget : ∀ (n : NodeIdent) (m : NodeMap UInt32),
      (q.removeCandidateNode x).retNodeMap[n]? = some m → n ≠ x ∧
        ∃ m₁ : NodeMap UInt32, q.retNodeMap[n]? = some m₁ ∧ m = m₁.erase x := by
    intro n m hm
    rw [getElem?_removeCandidateNode] at hm
    split at hm
    · exact absurd hm (by simp)
    · next hne =>
      obtain ⟨m₁, hm₁, rfl⟩ := Option.map_eq_some_iff.1 hm
      exact ⟨hne, m₁, hm₁, rfl⟩
  refine ⟨fun n hn ↦ ?_, fun n m hm k hk ↦ ?_, fun n m hm k hk ↦ ?_⟩
  · obtain ⟨hne, hn⟩ := (mem_retNodeMap_removeCandidateNode q n x).1 hn
    exact Lib.mem_erase_set_iff.2 ⟨hne, h.known n hn⟩
  · obtain ⟨-, m₁, hm₁, rfl⟩ := hget n m hm
    obtain ⟨hne, hk⟩ := Lib.mem_erase_iff.1 hk
    exact Lib.mem_erase_set_iff.2 ⟨hne, h.names n m₁ hm₁ k hk⟩
  · obtain ⟨-, m₁, hm₁, rfl⟩ := hget n m hm
    obtain ⟨hne, hk⟩ := Lib.mem_erase_set_iff.1 hk
    rw [Lib.getElem?_erase_of_ne hne]
    exact h.entry n m₁ hm₁ k hk

theorem Answered.removeCandidateNode (h : q.Answered) (x : NodeIdent) :
    (q.removeCandidateNode x).Answered := by
  intro n hn
  obtain ⟨hne, hn⟩ := Lib.mem_erase_set_iff.1 hn
  exact (mem_retNodeMap_removeCandidateNode q n x).2 ⟨hne, h n hn⟩

/-- Dropping candidates one after another. -/
theorem foldl_removeCandidateNode_mem (l : List NodeIdent) (q : RingManageQuery) (n : NodeIdent) :
    (n ∈ (l.foldl (fun q x ↦ q.removeCandidateNode x) q).remoteNodes ↔
        n ∉ l ∧ n ∈ q.remoteNodes) ∧
      (n ∈ (l.foldl (fun q x ↦ q.removeCandidateNode x) q).retNodeMap ↔
        n ∉ l ∧ n ∈ q.retNodeMap) := by
  induction l generalizing q with
  | nil => simp
  | cons x l ih =>
    rw [List.foldl_cons, (ih _).1, (ih _).2, removeCandidateNode_remoteNodes, Lib.mem_erase_set_iff,
      mem_retNodeMap_removeCandidateNode]
    simp only [List.mem_cons, not_or]
    constructor <;> tauto

theorem Reports.dropUnanswered (h : q.Reports replies) : q.dropUnanswered.Reports replies := by
  have hfold : ∀ (l : List NodeIdent) (q : RingManageQuery), q.Reports replies →
      (l.foldl (fun q x ↦ q.removeCandidateNode x) q).Reports replies := by
    intro l
    induction l with
    | nil => exact fun q h ↦ h
    | cons x l ih => exact fun q h ↦ ih _ (h.removeCandidateNode x)
  exact hfold _ q h

theorem dropUnanswered_answered (q : RingManageQuery) : q.dropUnanswered.Answered := by
  intro n hn
  obtain ⟨hgood, hn⟩ := (foldl_removeCandidateNode_mem _ q n).1.1 hn
  refine (foldl_removeCandidateNode_mem _ q n).2.2 ⟨hgood, ?_⟩
  by_contra hnot
  refine hgood (List.mem_filter.2 ⟨Std.ExtTreeSet.mem_toList.2 hn, ?_⟩)
  rwa [Bool.not_eq_true', ← Bool.not_eq_true, Std.ExtTreeMap.contains_iff_mem]

/-- **What performReplacement starts with.** -/
theorem collect_reports (qid : UInt64) (ringNum : Int) (h : Acceptable nodes replies) :
    (collect qid ringNum nodes replies).Reports replies := by
  have hfold : ∀ (later earlier : List (NodeIdent × RetPing)) (q : RingManageQuery),
      q.remoteNodes = nodes → q.Reports earlier → Acceptable nodes (earlier ++ later) →
        (later.foldl RingManageQuery.accept q).Reports (earlier ++ later) := by
    intro later
    induction later with
    | nil => exact fun earlier q _ h _ ↦ by rwa [List.append_nil]
    | cons reply later ih =>
      intro earlier q hnodes h hacc
      have hsplit : earlier ++ reply :: later = (earlier ++ [reply]) ++ later := by
        rw [List.append_assoc, List.singleton_append]
      have hnew : reply.1 ∉ earlier.map Prod.fst := by
        have hnodup := hacc.1
        rw [List.map_append, List.map_cons, List.nodup_append] at hnodup
        exact fun hmem ↦ hnodup.2.2 _ hmem _ (List.mem_cons_self ..) rfl
      have hknown : reply.1 ∈ q.remoteNodes :=
        hnodes ▸ hacc.2 reply (List.mem_append_right _ (List.mem_cons_self ..))
      rw [hsplit] at hacc ⊢
      exact ih (earlier ++ [reply]) (q.accept reply) hnodes (h.accept hknown hnew) hacc
  refine (hfold replies [] _ rfl ⟨fun n hn ↦ ?_, fun n m hm ↦ ?_, fun n m hm ↦ ?_⟩ h).dropUnanswered
  · exact absurd hn Std.ExtTreeMap.not_mem_empty
  · exact absurd hm (by simp [new])
  · exact absurd hm (by simp [new])

theorem collect_answered (qid : UInt64) (ringNum : Int) (nodes : NodeSet)
    (replies : List (NodeIdent × RetPing)) : (collect qid ringNum nodes replies).Answered :=
  dropUnanswered_answered _

theorem collect_subset (qid : UInt64) (ringNum : Int) {n : NodeIdent}
    (h : n ∈ (collect qid ringNum nodes replies).remoteNodes) : n ∈ nodes := by
  have hfold : ∀ (l : List (NodeIdent × RetPing)) (q : RingManageQuery),
      (l.foldl RingManageQuery.accept q).remoteNodes = q.remoteNodes := by
    intro l
    induction l with
    | nil => exact fun q ↦ rfl
    | cons reply l ih => exact fun q ↦ ih (q.accept reply)
  have hmem := ((foldl_removeCandidateNode_mem _ _ n).1.1 h).2
  rwa [hfold] at hmem

/-! ### The loop -/

/-- The scan for the worst node finds none only if there is none. -/
theorem worstNode_spec (hsmall : ∀ (n : NodeIdent) (m : NodeMap UInt32),
      q.retNodeMap[n]? = some m → m.size + 1 < q.remoteNodes.size → m.size < UINT_MAX.toNat) :
    q.worstNode = ⟨0, 0⟩ ∧ (∀ (n : NodeIdent) (m : NodeMap UInt32),
        q.retNodeMap[n]? = some m → q.remoteNodes.size ≤ m.size + 1) ∨
      ∃ m : NodeMap UInt32, q.retNodeMap[q.worstNode]? = some m ∧
        m.size + 1 < q.remoteNodes.size := by
  have hfold : ∀ (l : List (NodeIdent × NodeMap UInt32)) (worst : NodeIdent × ℕ),
      let res := l.foldl (fun (worst : NodeIdent × ℕ) entry ↦
        if entry.2.size + 1 < q.remoteNodes.size ∧ entry.2.size < worst.2 then
          (entry.1, entry.2.size) else worst) worst
      (res = worst ∧ ∀ e ∈ l, e.2.size + 1 < q.remoteNodes.size → worst.2 ≤ e.2.size) ∨
        ∃ e ∈ l, res.1 = e.1 ∧ e.2.size + 1 < q.remoteNodes.size := by
    intro l
    induction l with
    | nil => exact fun worst ↦ .inl ⟨rfl, fun e he ↦ absurd he List.not_mem_nil⟩
    | cons e l ih =>
      intro worst
      rw [List.foldl_cons]
      by_cases hworse : e.2.size + 1 < q.remoteNodes.size ∧ e.2.size < worst.2
      · rw [if_pos hworse]
        rcases ih (e.1, e.2.size) with ⟨hres, -⟩ | ⟨e', he', hres, hfew⟩
        · exact .inr ⟨e, List.mem_cons_self .., congrArg Prod.fst hres, hworse.1⟩
        · exact .inr ⟨e', List.mem_cons_of_mem e he', hres, hfew⟩
      · rw [if_neg hworse]
        rcases ih worst with ⟨hres, hrest⟩ | ⟨e', he', hres, hfew⟩
        · refine .inl ⟨hres, fun e' he' hfew ↦ ?_⟩
          rcases List.mem_cons.1 he' with rfl | he'
          · exact Nat.le_of_not_lt fun hlt ↦ hworse ⟨hfew, hlt⟩
          · exact hrest e' he' hfew
        · exact .inr ⟨e', List.mem_cons_of_mem e he', hres, hfew⟩
  rcases hfold q.retNodeMap.toList (⟨0, 0⟩, UINT_MAX.toNat) with ⟨hres, hrest⟩ | ⟨e, he, hres, hfew⟩
  · refine .inl ⟨congrArg Prod.fst hres, fun n m hm ↦ ?_⟩
    by_contra hfew
    have hmem : (n, m) ∈ q.retNodeMap.toList :=
      Std.ExtTreeMap.mem_toList_iff_getElem?_eq_some.2 hm
    have hlarge : UINT_MAX.toNat ≤ m.size := hrest (n, m) hmem (Nat.lt_of_not_le hfew)
    exact absurd (hsmall n m hm (by omega)) (Nat.not_lt.2 hlarge)
  · have hworst : q.worstNode = e.1 := hres
    refine .inr ⟨e.2, ?_, hfew⟩
    rw [hworst]
    exact Std.ExtTreeMap.mem_toList_iff_getElem?_eq_some.1 he

/-- One more pass in front. -/
theorem Passes.cons (more : full < q.remoteNodes.size) (worst : q.worstNode ≠ ⟨0, 0⟩)
    (shrinks : (q.removeCandidateNode q.worstNode).remoteNodes.size + 1 = q.remoteNodes.size)
    (h : Passes full (q.removeCandidateNode q.worstNode) q') : Passes full q q' := by
  induction h with
  | start => exact .pass .start more worst shrinks
  | pass _ more' worst' shrinks' ih => exact .pass ih more' worst' shrinks'

/-- The first pass. -/
theorem Passes.cases_head (h : Passes full q q') :
    q' = q ∨ full < q.remoteNodes.size ∧ q.worstNode ≠ ⟨0, 0⟩ ∧
      (q.removeCandidateNode q.worstNode).remoteNodes.size + 1 = q.remoteNodes.size ∧
      Passes full (q.removeCandidateNode q.worstNode) q' := by
  induction h with
  | start => exact .inl rfl
  | pass before more worst shrinks ih =>
    rcases ih with rfl | ⟨more₀, worst₀, shrinks₀, hrest⟩
    · exact .inr ⟨more, worst, shrinks, .start⟩
    · exact .inr ⟨more₀, worst₀, shrinks₀, hrest.pass more worst shrinks⟩

/-- **The loop ends**, because each pass drops a candidate. -/
theorem ends (full : ℕ) (q : RingManageQuery) : Ends full q := by
  induction hsize : q.remoteNodes.size generalizing q with
  | zero => exact ⟨q, .start, .inl (hsize ▸ Nat.zero_le full)⟩
  | succ n ih =>
    by_cases hdone : q.remoteNodes.size ≤ full ∨ q.worstNode = ⟨0, 0⟩ ∨
        (q.removeCandidateNode q.worstNode).remoteNodes.size + 1 ≠ q.remoteNodes.size
    · exact ⟨q, .start, hdone⟩
    · rw [not_or, not_or, not_not] at hdone
      obtain ⟨more, worst, shrinks⟩ := hdone
      obtain ⟨q', hpasses, hend⟩ := ih (q.removeCandidateNode q.worstNode) (by omega)
      exact ⟨q', hpasses.cons (Nat.lt_of_not_le more) worst shrinks, hend⟩

/-- `prune` is this loop. -/
theorem prune_iff_leaves : ∀ {fuel : ℕ} {q : RingManageQuery} (l : List NodeIdent),
    q.remoteNodes.size ≤ fuel →
      ((∃ l', prune full fuel q l = (q', some l')) ↔ Leaves full q q') := by
  intro fuel
  induction fuel with
  | zero =>
    intro q l hfuel
    refine iff_of_false (by simp [prune]) fun h ↦ ?_
    rcases h.passes.cases_head with rfl | ⟨more, -⟩
    · exact absurd h.more (by omega)
    · omega
  | succ fuel ih =>
    intro q l hfuel
    rw [prune]
    by_cases hfew : q.remoteNodes.size ≤ full
    · rw [if_pos hfew]
      refine iff_of_false (by simp) fun h ↦ ?_
      rcases h.passes.cases_head with rfl | ⟨more, -⟩
      · exact absurd h.more (by omega)
      · omega
    rw [if_neg hfew]
    dsimp only
    have hzero : q.worstNode.addr = 0 ∧ q.worstNode.port = 0 ↔ q.worstNode = ⟨0, 0⟩ := by
      cases q.worstNode
      simp
    by_cases hworst : q.worstNode = ⟨0, 0⟩
    · rw [if_pos (hzero.2 hworst)]
      constructor
      · rintro ⟨l', heq⟩
        obtain rfl : q = q' := congrArg Prod.fst heq
        exact ⟨.start, Nat.lt_of_not_le hfew, hworst⟩
      · intro h
        rcases h.passes.cases_head with rfl | ⟨-, worst, -⟩
        · exact ⟨l, rfl⟩
        · exact absurd hworst worst
    rw [if_neg (hzero.not.2 hworst)]
    by_cases hshrinks : (q.removeCandidateNode q.worstNode).remoteNodes.size + 1 =
        q.remoteNodes.size
    · rw [if_neg (not_not.2 hshrinks), ih _ (by omega)]
      constructor
      · exact fun h ↦ ⟨h.passes.cons (Nat.lt_of_not_le hfew) hworst hshrinks, h.more, h.worst⟩
      · intro h
        rcases h.passes.cases_head with rfl | ⟨-, -, -, hrest⟩
        · exact absurd h.worst hworst
        · exact ⟨hrest, h.more, h.worst⟩
    · rw [if_pos hshrinks]
      refine iff_of_false (by simp) fun h ↦ ?_
      rcases h.passes.cases_head with rfl | ⟨-, -, shrinks, -⟩
      · exact hworst h.worst
      · exact hshrinks shrinks

theorem Passes.reports (h : Passes full q q') (hreports : q.Reports replies) :
    q'.Reports replies := by
  induction h with
  | start => exact hreports
  | pass _ _ _ _ ih => exact ih.removeCandidateNode _

theorem Passes.answered (h : Passes full q q') (hanswered : q.Answered) : q'.Answered := by
  induction h with
  | start => exact hanswered
  | pass _ _ _ _ ih => exact ih.removeCandidateNode _

theorem Passes.size_le (h : Passes full q q') : q'.remoteNodes.size ≤ q.remoteNodes.size := by
  induction h with
  | start => exact le_rfl
  | pass _ _ _ shrinks ih => omega

/-! ### Full matrices -/

/-- Every candidate has reported every other one. -/
def Complete (q : RingManageQuery) : Prop :=
  ∀ (n : NodeIdent) (m : NodeMap UInt32), q.retNodeMap[n]? = some m →
    ∀ k, k ∈ q.remoteNodes → k ≠ n → k ∈ m

/-- The sizes of the reports can be trusted: one with an entry for its own node does not come to the
number of the other candidates, and 0:0, which stands for no node, is no candidate whose report is
too small. -/
structure Counted (q : RingManageQuery) : Prop where
  own : ∀ (n : NodeIdent) (m : NodeMap UInt32), q.retNodeMap[n]? = some m → n ∈ m →
    m.size + 1 ≠ q.remoteNodes.size
  zero : ∀ m : NodeMap UInt32, q.retNodeMap[(⟨0, 0⟩ : NodeIdent)]? = some m →
    q.remoteNodes.size ≤ m.size + 1

/-- **Where the loop is left, the reports are complete if and only if their sizes can be
trusted.** -/
theorem complete_iff_counted (hreports : q.Reports replies) (hworst : q.worstNode = ⟨0, 0⟩)
    (hsize : q.remoteNodes.size ≤ UINT_MAX.toNat) : q.Complete ↔ q.Counted := by
  have hothers : ∀ (n : NodeIdent) (m : NodeMap UInt32), q.retNodeMap[n]? = some m →
      n ∈ q.remoteNodes ∧ (q.remoteNodes.erase n).size + 1 = q.remoteNodes.size := by
    intro n m hm
    have hn : n ∈ q.remoteNodes := hreports.known n (by
      rw [Std.ExtTreeMap.mem_iff_isSome_getElem?, hm]
      rfl)
    exact ⟨hn, size_erase_add_one hn⟩
  constructor
  · refine fun h ↦ ⟨fun n m hm hown heq ↦ ?_, fun m hm ↦ ?_⟩
    · have hall : ∀ k, k ∈ q.remoteNodes → k ∈ m := by
        intro k hk
        by_cases hkn : k = n
        · exact hkn ▸ hown
        · exact h n m hm k hk hkn
      have hle := size_le_of_mem_keys hall
      omega
    · obtain ⟨-, herase⟩ := hothers _ m hm
      have hle : (q.remoteNodes.erase ⟨0, 0⟩).size ≤ m.size :=
        size_le_of_mem_keys fun k hk ↦
          h _ m hm k (Lib.mem_erase_set_iff.1 hk).2 (Lib.mem_erase_set_iff.1 hk).1
      omega
  · intro h n m hm k hk hkn
    obtain ⟨hn, herase⟩ := hothers n m hm
    have hlarge : q.remoteNodes.size ≤ m.size + 1 := by
      rcases worstNode_spec (q := q) fun n m hm hfew ↦ by omega with ⟨-, hlarge⟩ | ⟨m₀, hm₀, hfew⟩
      · exact hlarge n m hm
      · rw [hworst] at hm₀
        exact absurd (h.zero m₀ hm₀) (by omega)
    have hnames := hreports.names n m hm
    by_cases hown : n ∈ m
    · -- no room for a gap
      have hne := h.own n m hm hown
      exact mem_keys_of_size_le hnames (by omega) hk
    · refine mem_keys_of_size_le (s := q.remoteNodes.erase n) (fun i hi ↦ ?_) (by omega)
        (Lib.mem_erase_set_iff.2 ⟨hkn, hk⟩)
      exact Lib.mem_erase_set_iff.2 ⟨fun heq ↦ hown (heq ▸ hi), hnames i hi⟩

/-- The array is the latency matrix of the candidates: nothing on the diagonal, and elsewhere what
the candidate of the row has reported for that of the column, in milliseconds. -/
structure IsLatencyMatrix (replies : List (NodeIdent × RetPing)) (q : RingManageQuery)
    (a : Array Binary64) : Prop where
  size : a.size = q.remoteNodes.size * q.remoteNodes.size
  diagonal : ∀ i, i < q.remoteNodes.size → a[i * q.remoteNodes.size + i]? = some (.fin 0)
  entry : ∀ (i j : ℕ) (n k : NodeIdent), q.remoteNodes.toList[i]? = some n →
    q.remoteNodes.toList[j]? = some k → i ≠ j → ∃ latencyUS, reported replies n k = some latencyUS ∧
      a[i * q.remoteNodes.size + j]? = some (distance latencyUS)

/-- **Complete reports make a matrix**, and nothing else does. -/
theorem complete_iff_matrix (hreports : q.Reports replies) (hanswered : q.Answered)
    (memory : ℕ → Binary64) :
    q.Complete ↔ ∃ a, createLatencyMatrixAt memory q = some a ∧ q.IsLatencyMatrix replies a := by
  have hnodup := nodup_toList q.remoteNodes
  have hlength : q.remoteNodes.toList.length = q.remoteNodes.size :=
    Std.ExtTreeSet.length_toList
  have hmap : ∀ n, n ∈ q.remoteNodes → ∃ m : NodeMap UInt32, q.retNodeMap[n]? = some m := by
    intro n hn
    have hmem := hanswered n hn
    rw [Std.ExtTreeMap.mem_iff_isSome_getElem?, Option.isSome_iff_exists] at hmem
    exact hmem
  have hat : ∀ i, i < q.remoteNodes.size → ∃ n, q.remoteNodes.toList[i]? = some n ∧
      n ∈ q.remoteNodes := by
    intro i hi
    rw [← hlength] at hi
    exact ⟨_, List.getElem?_eq_getElem hi, Std.ExtTreeSet.mem_toList.1 (List.getElem_mem hi)⟩
  constructor
  · intro h
    -- the entries, as a function
    have hvalue : ∀ i j, i < q.remoteNodes.size → j < q.remoteNodes.size →
        q.matrixEntry i j = some ((q.matrixEntry i j).getD (.fin 0)) := by
      intro i j hi hj
      by_cases hij : i = j
      · rw [matrixEntry, if_pos hij, Option.getD_some]
      · obtain ⟨n, hni, hn⟩ := hat i hi
        obtain ⟨k, hkj, hk⟩ := hat j hj
        obtain ⟨m, hm⟩ := hmap n hn
        have hne : k ≠ n := by
          rintro rfl
          exact hij ((List.getElem?_inj (hlength ▸ hi) hnodup).1 (hni.trans hkj.symm))
        have hkm := h n m hm k hk hne
        rw [Std.ExtTreeMap.mem_iff_isSome_getElem?, Option.isSome_iff_exists] at hkm
        obtain ⟨us, hus⟩ := hkm
        simp [matrixEntry, hij, hni, hkj, hm, hus]
    obtain ⟨a, hfill, hheld⟩ := fill_eq_some (a := Array.ofFn fun x : Fin _ ↦ memory x)
      Array.size_ofFn hvalue
    refine ⟨a, hfill, hheld.size, fun i hi ↦ ?_, fun i j n k hni hkj hij ↦ ?_⟩
    · rw [hheld.entry i i hi hi, matrixEntry, if_pos rfl, Option.getD_some]
    · have hi : i < q.remoteNodes.size := hlength ▸ (List.getElem?_eq_some_iff.1 hni).1
      have hj : j < q.remoteNodes.size := hlength ▸ (List.getElem?_eq_some_iff.1 hkj).1
      have hn := Std.ExtTreeSet.mem_toList.1 (List.mem_of_getElem? hni)
      have hk := Std.ExtTreeSet.mem_toList.1 (List.mem_of_getElem? hkj)
      obtain ⟨m, hm⟩ := hmap n hn
      have hne : k ≠ n := by
        rintro rfl
        exact hij ((List.getElem?_inj (hlength ▸ hi) hnodup).1 (hni.trans hkj.symm))
      have hkm := h n m hm k hk hne
      rw [Std.ExtTreeMap.mem_iff_isSome_getElem?, Option.isSome_iff_exists] at hkm
      obtain ⟨us, hus⟩ := hkm
      refine ⟨us, (hreports.entry n m hm k hk).symm.trans hus, ?_⟩
      rw [hheld.entry i j hi hj]
      simp [matrixEntry, hij, hni, hkj, hm, hus]
  · rintro ⟨a, hfill, -⟩ n m hm k hk hkn
    have hn : n ∈ q.remoteNodes := hreports.known n (by
      rw [Std.ExtTreeMap.mem_iff_isSome_getElem?, hm]
      rfl)
    obtain ⟨i, hi, hni⟩ := List.getElem_of_mem (Std.ExtTreeSet.mem_toList.2 hn)
    obtain ⟨j, hj, hkj⟩ := List.getElem_of_mem (Std.ExtTreeSet.mem_toList.2 hk)
    have hij : i ≠ j := by
      rintro rfl
      exact hkn (hkj.symm.trans hni)
    have hcell := isSome_of_fill hfill (i := i) (j := j) (hlength ▸ hi) (hlength ▸ hj)
    rw [matrixEntry, if_neg hij, List.getElem?_eq_getElem hi, List.getElem?_eq_getElem hj, hni,
      hkj] at hcell
    rw [Std.ExtTreeMap.mem_iff_isSome_getElem?]
    rcases hmk : m[k]? with - | us
    · simp [hm, hmk] at hcell
    · rfl

/-- What is asked of the loop and of the matrix: the loop ends, and where it is left with more than
`full` candidates, there is a matrix of their latencies. -/
structure FullMatrix (memory : ℕ → Binary64) (replies : List (NodeIdent × RetPing)) (full : ℕ)
    (q : RingManageQuery) : Prop where
  ends : Ends full q
  matrix : ∀ q', Leaves full q q' →
    ∃ a, createLatencyMatrixAt memory q' = some a ∧ q'.IsLatencyMatrix replies a

/-- Where the loop is left. -/
theorem Leaves.matrix_iff {qid : UInt64} {ringNum : Int} (hsize : nodes.size ≤ UINT_MAX.toNat)
    (hacceptable : Acceptable nodes replies) (memory : ℕ → Binary64)
    (h : Leaves full (collect qid ringNum nodes replies) q') :
    (∃ a, createLatencyMatrixAt memory q' = some a ∧ q'.IsLatencyMatrix replies a) ↔
      q'.Counted := by
  have hreports := h.passes.reports (collect_reports qid ringNum hacceptable)
  have hanswered := h.passes.answered (collect_answered qid ringNum nodes replies)
  have hle : (collect qid ringNum nodes replies).remoteNodes.size ≤ nodes.size := by
    rw [← Std.ExtTreeSet.length_toList, ← Std.ExtTreeSet.length_toList]
    refine (List.subperm_of_subset (nodup_toList _) fun n hn ↦ ?_).length_le
    exact Std.ExtTreeSet.mem_toList.2
      (collect_subset qid ringNum (Std.ExtTreeSet.mem_toList.1 hn))
  have hfewer := h.passes.size_le
  exact (complete_iff_matrix hreports hanswered memory).symm.trans
    (complete_iff_counted hreports h.worst (by omega))

/-- **Full matrices.** For every set of nodes, of a size that `size()` can return, and every
sequence of accepted replies, the loop of `performReplacement` ends; and a full matrix of the
reported latencies follows if and only if in the state in which the loop is left the sizes of the
reports can be trusted. -/
theorem full_matrix_iff (qid : UInt64) (ringNum : Int) (nodes : NodeSet)
    (hsize : nodes.size ≤ UINT_MAX.toNat) (replies : List (NodeIdent × RetPing))
    (hacceptable : Acceptable nodes replies) (memory : ℕ → Binary64) (full : ℕ) :
    FullMatrix memory replies full (collect qid ringNum nodes replies) ↔
      ∀ q', Leaves full (collect qid ringNum nodes replies) q' → q'.Counted := by
  constructor
  · exact fun h q' hq' ↦ (hq'.matrix_iff hsize hacceptable memory).1 (h.matrix q' hq')
  · exact fun h ↦ ⟨ends full _, fun q' hq' ↦
      (hq'.matrix_iff hsize hacceptable memory).2 (h q' hq')⟩

/-- Three nodes that have all answered. The first one names itself, and not the third. -/
def selfNaming : List (NodeIdent × RetPing) :=
  [(⟨1, 80⟩, ⟨Packet.new 5, [⟨1, 80, 9⟩, ⟨2, 80, 40⟩]⟩),
    (⟨2, 80⟩, ⟨Packet.new 5, [⟨1, 80, 41⟩, ⟨3, 80, 42⟩]⟩),
    (⟨3, 80⟩, ⟨Packet.new 5, [⟨1, 80, 43⟩, ⟨2, 80, 44⟩]⟩)]

/-- The nodes that have sent them. -/
def selfNamingNodes : NodeSet := Std.ExtTreeSet.ofList (selfNaming.map Prod.fst) compare

/-- They make no full matrix. -/
theorem full_matrix_iff_selfNaming :
    ¬ FullMatrix (fun _ ↦ .nan) selfNaming 2 (collect 5 0 selfNamingNodes selfNaming) := by
  rw [full_matrix_iff 5 0 selfNamingNodes (by decide +kernel) selfNaming
    ⟨by decide, by decide +kernel⟩]
  intro h
  have hcounted := h _ ⟨.start, by decide +kernel, by decide +kernel⟩
  have hreport : ((collect 5 0 selfNamingNodes selfNaming).retNodeMap[(⟨1, 80⟩ : NodeIdent)]?).map
      (fun m ↦ (m.contains ⟨1, 80⟩, m.size)) = some (true, 2) := by decide +kernel
  obtain ⟨m, hm, hshape⟩ := Option.map_eq_some_iff.1 hreport
  rw [Prod.mk.injEq] at hshape
  refine hcounted.own _ m hm (Std.ExtTreeMap.contains_iff_mem.1 hshape.1) ?_
  rw [hshape.2]
  decide +kernel

/-- So the sizes cannot always be trusted. -/
theorem not_full_matrix_selfNaming :
    ¬ ∀ (qid : UInt64) (ringNum : Int) (nodes : NodeSet) (replies : List (NodeIdent × RetPing)),
      nodes.size ≤ UINT_MAX.toNat → Acceptable nodes replies →
        ∀ (memory : ℕ → Binary64) (full : ℕ),
          FullMatrix memory replies full (collect qid ringNum nodes replies) := by
  intro h
  have hfull := h 5 0 selfNamingNodes selfNaming (by decide +kernel)
    ⟨by decide, by decide +kernel⟩ (fun _ ↦ .nan) 2
  obtain ⟨a, hfill, -⟩ := hfull.matrix _ ⟨.start, by decide +kernel, by decide +kernel⟩
  have hcell := isSome_of_fill hfill (i := 0) (j := 2) (by decide +kernel) (by decide +kernel)
  revert hcell
  decide +kernel

/-- **Honest repliers.** If no reply has an entry for its own node, and 0:0 is not among the nodes,
the matrix is full. -/
theorem full_matrix_of_honest (qid : UInt64) (ringNum : Int) (hsize : nodes.size ≤ UINT_MAX.toNat)
    (hacceptable : Acceptable nodes replies) (memory : ℕ → Binary64) (full : ℕ)
    (hhonest : ∀ reply ∈ replies, stated reply.2 reply.1 = none) (hzero : ⟨0, 0⟩ ∉ nodes) :
    FullMatrix memory replies full (collect qid ringNum nodes replies) := by
  refine ⟨ends full _, fun q' h ↦ (h.matrix_iff hsize hacceptable memory).2 ?_⟩
  have hreports := h.passes.reports (collect_reports qid ringNum hacceptable)
  have hfewer : ∀ n, n ∈ q'.remoteNodes → n ∈ nodes := by
    have hsub : ∀ q', Passes full (collect qid ringNum nodes replies) q' →
        ∀ n, n ∈ q'.remoteNodes → n ∈ (collect qid ringNum nodes replies).remoteNodes := by
      intro q' hpasses
      induction hpasses with
      | start => exact fun n hn ↦ hn
      | pass _ _ _ _ ih => exact fun n hn ↦ ih n (Lib.mem_erase_set_iff.1 hn).2
    exact fun n hn ↦ collect_subset qid ringNum (hsub q' h.passes n hn)
  refine ⟨fun n m hm hown ↦ ?_, fun m hm ↦ ?_⟩
  · have hn : n ∈ q'.remoteNodes := hreports.names n m hm n hown
    have hentry := hreports.entry n m hm n hn
    have hnone : reported replies n n = none := by
      rw [reported, Option.bind_eq_none_iff]
      intro reply hfind
      have hfound : (reply.1 == n) = true := by simpa using List.find?_some hfind
      rw [← eq_of_beq hfound]
      exact hhonest reply (List.mem_of_find?_eq_some hfind)
    rw [hnone] at hentry
    rw [Std.ExtTreeMap.mem_iff_isSome_getElem?, hentry] at hown
    cases hown
  · have hmem : (⟨0, 0⟩ : NodeIdent) ∈ q'.remoteNodes := hreports.known _ (by
      rw [Std.ExtTreeMap.mem_iff_isSome_getElem?, hm]
      rfl)
    exact absurd (hfewer _ hmem) hzero

/-! ### The handlers -/

/-- A reply that `handleEvent` accepts. If it is the last one, `performReplacement` follows. -/
theorem handleEvent_eq_accept (magic : UInt32) (hyperVolume : HyperVolume) {inRemote : NodeIdent}
    {inPacket : List UInt8} {ret : RetPing} (rs : RingSet) (htype : inPacket.headD 0 = RET_PING_REQ)
    (hknown : inRemote ∈ q.remoteNodes) (hnew : inRemote ∉ q.retNodeMap)
    (hparse : BufferWrapper.parse (RetPing.parser magic) inPacket = some ret) :
    q.handleEvent magic hyperVolume inRemote inPacket rs =
      let q' := q.accept (inRemote, ret)
      if q'.retNodeMap.size = q'.remoteNodes.size then
        (q'.performReplacement hyperVolume (rs.unfreezeRing q.ringNum).2).map fun res ↦
          ({ q' with finished := true }, res.1, res.2)
      else some (q', rs, []) := by
  have hcontains : q.remoteNodes.contains inRemote = true :=
    Std.ExtTreeSet.contains_iff_mem.2 hknown
  have hfresh : q.retNodeMap.contains inRemote = false := by
    rwa [← Bool.not_eq_true, Std.ExtTreeMap.contains_iff_mem]
  rw [handleEvent, if_neg (not_not.2 htype), hcontains, hfresh, hparse]
  rfl

/-- When every candidate has answered, none is dropped for having been silent. -/
theorem dropUnanswered_of_answered (h : q.Answered) : q.dropUnanswered = q := by
  have hnone : q.badNodes = [] := by
    refine List.filter_eq_nil_iff.2 fun n hn ↦ ?_
    have hmem := h n (Std.ExtTreeSet.mem_toList.1 hn)
    simpa using hmem
  rw [dropUnanswered, hnone]
  rfl

/-- `handleTimeout` starts the replacement without the silent candidates. -/
theorem handleTimeout_eq_dropUnanswered (hyperVolume : HyperVolume)
    (getRingNumber : UInt32 → Fin MAX_NUM_RINGS) (rs : RingSet) :
    q.handleTimeout hyperVolume getRingNumber rs =
      (eraseNodes getRingNumber (rs.unfreezeRing q.ringNum).2 q.badNodes).bind fun rs ↦
        (q.dropUnanswered.performReplacement hyperVolume rs).map fun res ↦
          ({ q.dropUnanswered with finished := true }, res.1, res.2) := rfl

/-! ### The matrix of the replacement -/

theorem getElem?_of_mapM {α β : Type} {f : α → Option β} {l : List α} {r : List β}
    (h : l.mapM f = some r) {i : ℕ} {x : α} (hx : l[i]? = some x) :
    ∃ y, r[i]? = some y ∧ f x = some y := by
  induction l generalizing r i with
  | nil => cases hx
  | cons a l ih =>
    rw [List.mapM_cons] at h
    obtain ⟨b, hb, h⟩ := Option.bind_eq_some_iff.1 h
    obtain ⟨bs, hbs, h⟩ := Option.bind_eq_some_iff.1 h
    cases h
    cases i with
    | zero =>
      cases hx
      exact ⟨b, rfl, hb⟩
    | succ i => exact ih hbs hx

theorem isSome_mapM {α β : Type} {f : α → Option β} {l : List α}
    (h : ∀ x ∈ l, (f x).isSome) : (l.mapM f).isSome := by
  induction l with
  | nil => rfl
  | cons a l ih =>
    obtain ⟨b, hb⟩ := Option.isSome_iff_exists.1 (h a (List.mem_cons_self ..))
    obtain ⟨bs, hbs⟩ := Option.isSome_iff_exists.1 (ih fun x hx ↦ h x (List.mem_cons_of_mem a hx))
    rw [List.mapM_cons, hb, hbs]
    rfl

theorem distance_zero : distance 0 = .fin 0 := by decide +kernel

/-- An entry of the matrix, and one of the lists of `createLatencyMatrix`. -/
theorem matrixEntry_eq {i j : ℕ} (hn : q.remoteNodes.toList[i]? = some n)
    (hk : q.remoteNodes.toList[j]? = some k) :
    q.matrixEntry i j = (if n = k then some 0
      else (q.retNodeMap[n]?).bind fun latencies ↦ latencies[k]?).map distance := by
  have hi := (List.getElem?_eq_some_iff.1 hn).1
  by_cases hij : i = j
  · subst hij
    obtain rfl := Option.some.inj (hn.symm.trans hk)
    rw [matrixEntry, if_pos rfl, if_pos rfl, Option.map_some, distance_zero]
  · have hne : n ≠ k := by
      rintro rfl
      exact hij ((List.getElem?_inj hi (nodup_toList _)).1 (hn.trans hk.symm))
    rw [matrixEntry, if_neg hij, if_neg hne, hn, hk]
    cases hm : q.retNodeMap[n]? with
    | none => simp [hm]
    | some m =>
      cases hmk : m[k]? with
      | none => simp [hm, hmk]
      | some us => simp [hm, hmk]

/-- **The array has the latencies of `createLatencyMatrix`**, in milliseconds. -/
theorem createLatencyMatrixAt_of_rows (memory : ℕ → Binary64) {rows : List (List UInt32)}
    (h : q.createLatencyMatrix = some rows) :
    ∃ a, createLatencyMatrixAt memory q = some a ∧ ∀ (i j : ℕ) (row : List UInt32)
      (latencyUS : UInt32), rows[i]? = some row → row[j]? = some latencyUS →
        i < q.remoteNodes.size → j < q.remoteNodes.size →
          a[i * q.remoteNodes.size + j]? = some (distance latencyUS) := by
  have hlength : q.remoteNodes.toList.length = q.remoteNodes.size := Std.ExtTreeSet.length_toList
  have hcell : ∀ i j, i < q.remoteNodes.size → j < q.remoteNodes.size → ∃ row us,
      rows[i]? = some row ∧ row[j]? = some us ∧ q.matrixEntry i j = some (distance us) := by
    intro i j hi hj
    have hn := List.getElem?_eq_getElem (hlength ▸ hi)
    have hk := List.getElem?_eq_getElem (hlength ▸ hj)
    obtain ⟨row, hrow, hf⟩ := getElem?_of_mapM h hn
    obtain ⟨us, hus, hg⟩ := getElem?_of_mapM hf hk
    exact ⟨row, us, hrow, hus, by rw [matrixEntry_eq hn hk, hg, Option.map_some]⟩
  have hvalue : ∀ i j, i < q.remoteNodes.size → j < q.remoteNodes.size →
      q.matrixEntry i j = some ((q.matrixEntry i j).getD (.fin 0)) := by
    intro i j hi hj
    obtain ⟨row, us, -, -, heq⟩ := hcell i j hi hj
    rw [heq, Option.getD_some]
  obtain ⟨a, hfill, hheld⟩ := fill_eq_some (a := Array.ofFn fun x : Fin _ ↦ memory x)
    Array.size_ofFn hvalue
  refine ⟨a, hfill, fun i j row us hrow hus hi hj ↦ ?_⟩
  obtain ⟨row', us', hrow', hus', heq⟩ := hcell i j hi hj
  obtain rfl := Option.some.inj (hrow.symm.trans hrow')
  obtain rfl := Option.some.inj (hus.symm.trans hus')
  rw [hheld.entry i j hi hj, heq, Option.getD_some]

/-- Where there is an array, there are lists. -/
theorem createLatencyMatrix_isSome {memory : ℕ → Binary64} {a : Array Binary64}
    (h : createLatencyMatrixAt memory q = some a) : q.createLatencyMatrix.isSome := by
  have hlength : q.remoteNodes.toList.length = q.remoteNodes.size := Std.ExtTreeSet.length_toList
  refine isSome_mapM fun n hn ↦ isSome_mapM fun k hk ↦ ?_
  obtain ⟨i, hi, rfl⟩ := List.getElem_of_mem hn
  obtain ⟨j, hj, rfl⟩ := List.getElem_of_mem hk
  have hcell := isSome_of_fill h (i := i) (j := j) (hlength ▸ hi) (hlength ▸ hj)
  rwa [matrixEntry_eq (List.getElem?_eq_getElem hi) (List.getElem?_eq_getElem hj),
    Option.isSome_map] at hcell

end RingManageQuery

end Meridian

import Meridian.MQL.ValueCodec
import Meridian.Process.ThreadSteps

/-!
# The list of threads

A turn of the event loop is a handler, or a pass over `g_psList`. A pass goes through the first
`MAX_THREADS_PER_ITERATION` entries of the list, those included that it appends itself, and erases
the entries that it has gone through at the end.

* No handler looks at the list, it is only appended to: `relist` is the state with another list, and
  the lemmas about it say what each function appends. So a pass can as well take each entry off the
  list at once, which is what a `schedule` of `Threads` does (`pass_eq`).
* An id comes onto the list a second time where a thread is woken that is still listed, or runs again
  in the same pass. `Orderly` is the condition that neither happens: `psList_unique`.
-/

namespace Meridian

open Lib BufferWrapper MQL
open DSLRecvQuery (wake)

namespace Threads

variable {D : Type} {s s' : Threads D} {id i : UInt64} {t : DSLRecvQuery D} {stamp : ℕ}
  {l : List UInt64}

/-! ### What is appended to the list -/

/-- The same process with another list of threads. -/
def relist (l : List UInt64) (s : Threads D) : Threads D := { s with psList := l }

@[simp] theorem relist_psList (s : Threads D) : s.relist s.psList = s := rfl

@[simp] theorem relist_relist (l l' : List UInt64) (s : Threads D) :
    (s.relist l).relist l' = s.relist l' := rfl

theorem modify_relist (id : UInt64) (f : ThreadQuery D → ThreadQuery D) (s : Threads D) :
    (s.relist l).modify id f = (s.modify id f).relist l := by
  simp only [modify, relist]
  cases s.table[id]? <;> rfl

theorem updateTimeout_relist (id : UInt64) (s : Threads D) :
    (s.relist l).updateTimeout id = (s.updateTimeout id).relist l := by
  simp only [updateTimeout, relist]
  cases s.table[id]? with
  | none => rfl
  | some e =>
    dsimp only
    split <;> rfl

theorem insertNewQuery_relist (id : UInt64) (q : ThreadQuery D) (s : Threads D) :
    (s.relist l).insertNewQuery id q = (s.insertNewQuery id q).map (relist l) := by
  simp only [insertNewQuery, relist]
  by_cases hused : s.table.contains id = true
  · simp [hused]
  · simp [hused, relist]

theorem addPS_relist (id : UInt64) (s : Threads D) :
    (s.relist l).addPS id = (s.addPS id).relist (l ++ [id]) := rfl

/-- The thread that `returnResults` of the query `q` with this id wakes. -/
def woken (resultsCreated : Bool) (id : UInt64) (q : HandleGetDistance) (s : Threads D) :
    List UInt64 :=
  if resultsCreated = true ∧ q.prevQID ≠ id ∧ (s.getDSLRecvQ q.prevQID).isSome then [q.prevQID]
  else []

theorem returnResults_relist (resultsCreated : Bool) (id : UInt64) (q : HandleGetDistance)
    (s : Threads D) : (s.relist l).returnResults resultsCreated id q =
      (s.returnResults resultsCreated id q).relist (l ++ s.woken resultsCreated id q) := by
  have hself : (s.modify id fun _ ↦ .getDistance { q with finished := true }).getDSLRecvQ q.prevQID =
      if q.prevQID = id then none else s.getDSLRecvQ q.prevQID := by
    rw [getDSLRecvQ, getDSLRecvQ, table_modify]
    split
    · cases s.table[q.prevQID]? <;> rfl
    · rfl
  have hlist : ((s.modify id fun _ ↦ .getDistance { q with finished := true }).relist l).getDSLRecvQ
      q.prevQID = if q.prevQID = id then none else s.getDSLRecvQ q.prevQID := hself
  simp only [returnResults, woken, modify_relist, hself, hlist]
  by_cases hid : q.prevQID = id
  · simp [hid]
  · cases ht : s.getDSLRecvQ q.prevQID with
    | none => simp [hid]
    | some t =>
      cases resultsCreated with
      | true => simp [hid, addPS_relist]
      | false => simp [hid]

/-- The thread that `handleLatency` of a `HandleGetDistanceGeneric` wakes. -/
def latencyWoken (resultsCreated : Bool) (id : UInt64) (inRemoteNodes : List NodeIdentLat)
    (q : HandleGetDistance) (s : Threads D) : List UInt64 :=
  if (q.handleLatency inRemoteNodes).2 then
    s.woken resultsCreated id (q.handleLatency inRemoteNodes).1
  else []

theorem getDistanceLatency_relist (resultsCreated : Bool) (id : UInt64)
    (inRemoteNodes : List NodeIdentLat) (q : HandleGetDistance) (s : Threads D) :
    (s.relist l).getDistanceLatency resultsCreated id inRemoteNodes q =
      (s.getDistanceLatency resultsCreated id inRemoteNodes q).relist
        (l ++ s.latencyWoken resultsCreated id inRemoteNodes q) := by
  simp only [getDistanceLatency, latencyWoken]
  split
  · exact returnResults_relist ..
  · rw [List.append_nil]
    exact modify_relist ..

/-- The query of the call returns its results before the thread is marked as blocked. -/
def returnsAtOnce : ThreadCall → Bool
  | .rpc _ => false
  | .getDistance _ srcNodes _ _ _ resultsCreated => srcNodes.isEmpty && resultsCreated

/-- What a call appends for the thread that makes it. -/
def callWoken (id : UInt64) (c : ThreadCall) : List UInt64 := if returnsAtOnce c then [id] else []

theorem startCall_relist {timeoutTV : ℕ} {c : ThreadCall}
    (ht : s.table[id]? = some ⟨.recv t, stamp⟩) :
    (s.relist l).startCall id timeoutTV c =
      (s.startCall id timeoutTV c).map (relist (l ++ callWoken id c)) := by
  cases c with
  | rpc qid =>
    have hnone : callWoken id (.rpc qid) = [] := rfl
    rw [hnone, List.append_nil]
    exact insertNewQuery_relist ..
  | getDistance qid srcNodes destNodes now timeoutMS resultsCreated =>
    simp only [startCall, insertNewQuery_relist, Option.map_map]
    cases hinsert : s.insertNewQuery qid
      (.getDistance (.new srcNodes destNodes now timeoutMS id)) with
    | none => rfl
    | some s₁ =>
      rw [Option.map_some, Option.map_some, Option.some.injEq]
      simp only [Function.comp_apply]
      obtain ⟨hfree, -, -, -, htable⟩ := insertNewQuery_eq_some hinsert
      by_cases hsrc : srcNodes = []
      · subst hsrc
        have hne : id ≠ qid := by
          rintro rfl
          rw [ht] at hfree
          cases hfree
        have hthread : s₁.getDSLRecvQ id = some t := by
          rw [getDSLRecvQ, htable, if_neg hne, ht]
          rfl
        have hwoken : s₁.latencyWoken resultsCreated qid []
            (.new [] destNodes now timeoutMS id) =
              callWoken id (.getDistance qid [] destNodes now timeoutMS resultsCreated) := by
          have hlatency : (HandleGetDistance.new [] destNodes now timeoutMS id).handleLatency [] =
              (HandleGetDistance.new [] destNodes now timeoutMS id, true) := rfl
          have hprev : (HandleGetDistance.new [] destNodes now timeoutMS id).prevQID = id := rfl
          rw [latencyWoken, hlatency, if_pos rfl, woken, hprev, hthread, callWoken]
          simp [hne, returnsAtOnce]
        rw [if_pos rfl, if_pos rfl, getDistanceLatency_relist, updateTimeout_relist, hwoken]
      · have hnone : callWoken id (.getDistance qid srcNodes destNodes now timeoutMS
            resultsCreated) = [] := by
          simp [callWoken, returnsAtOnce, hsrc]
        rw [if_neg hsrc, if_neg hsrc, hnone, List.append_nil]

/-- What a run of thread `id` appends. -/
def runWoken (a : Activity) (id : UInt64) (s : Threads D) : List UInt64 :=
  ((s.blockingCall a).map (callWoken id)).getD []

theorem runThread_relist (a : Activity) (ht : s.table[id]? = some ⟨.recv t, stamp⟩) :
    (s.relist l).runThread a id t = (s.runThread a id t).relist (l ++ s.runWoken a id) := by
  generalize hs₁ : ({ s with resumptions := s.resumptions ++ t.resumption?.toList } :
    Threads D).modify id (.onRecv fun t ↦
      { t.resume with astAllocationCount := a.astAllocationCount }) = s₁
  have hrun : s.runThread a id t = (s₁.makeCalls id t.timeoutTV a.calls).getD
      (s₁.modify id (.onRecv (endThread a.finish))) := by
    rw [← hs₁]
    rfl
  have hrun' : (s.relist l).runThread a id t =
      ((s₁.relist l).makeCalls id t.timeoutTV a.calls).getD
        ((s₁.relist l).modify id (.onRecv (endThread a.finish))) := by
    rw [← hs₁, ← modify_relist]
    rfl
  have htable (i : UInt64) : s₁.table[i]? = if i = id then
      s.table[i]?.map (ThreadEntry.modify (.onRecv fun t ↦
        { t.resume with astAllocationCount := a.astAllocationCount })) else s.table[i]? := by
    rw [← hs₁, table_modify]
  have hself : ∃ t₁, s₁.table[id]? = some ⟨.recv t₁, stamp⟩ := by
    rw [htable, if_pos rfl, ht]
    exact ⟨_, rfl⟩
  obtain ⟨t₁, hself⟩ := hself
  have hkeys (i : UInt64) : s₁.table.contains i = s.table.contains i := by
    rw [Std.ExtTreeMap.contains_eq_isSome_getElem?, Std.ExtTreeMap.contains_eq_isSome_getElem?,
      htable]
    split
    · rw [Option.isSome_map]
    · rfl
  have hfirst : (a.calls.find? fun c ↦ !s₁.table.contains c.id) = s.blockingCall a := by
    simp only [hkeys, blockingCall]
  have hfirst' : (a.calls.find? fun c ↦ !(s₁.relist l).table.contains c.id) =
      s.blockingCall a := hfirst
  rw [hrun, hrun', makeCalls_eq, makeCalls_eq, hfirst, hfirst', runWoken]
  cases hcalls : s.blockingCall a with
  | none =>
    rw [Option.bind_none, Option.bind_none, Option.getD_none, Option.getD_none, Option.map_none,
      Option.getD_none, List.append_nil]
    exact modify_relist ..
  | some c =>
    rw [Option.bind_some, Option.bind_some, startCall_relist hself, Option.map_some,
      Option.getD_some]
    have hfree : ¬s₁.table.contains c.id = true := by
      have hfind := List.find?_some hcalls
      rw [Bool.not_eq_true'] at hfind
      rw [hkeys, hfind]
      exact Bool.false_ne_true
    obtain ⟨s₂, hstart⟩ := Option.ne_none_iff_exists'.1
      (mt (startCall_eq_none id t.timeoutTV).1 hfree)
    rw [hstart]
    exact modify_relist ..

/-- What a notification appends. -/
def notifyWoken (a : Activity) (resultsCreated : Bool) (id : UInt64)
    (inRemoteNodes : List NodeIdentLat) (s : Threads D) : List UInt64 :=
  match s.table[id]? with
  | some ⟨.recv _, _⟩ => s.runWoken a id
  | some ⟨.getDistance q, _⟩ => s.latencyWoken resultsCreated id inRemoteNodes q
  | _ => []

theorem notifyQLatency_relist (a : Activity) (resultsCreated : Bool) (id : UInt64)
    (inRemoteNodes : List NodeIdentLat) (s : Threads D) :
    (s.relist l).notifyQLatency a resultsCreated id inRemoteNodes =
      (s.notifyQLatency a resultsCreated id inRemoteNodes).relist
        (l ++ s.notifyWoken a resultsCreated id inRemoteNodes) := by
  have htable : (s.relist l).table = s.table := rfl
  rw [notifyQLatency, notifyQLatency, notifyWoken, htable]
  cases he : s.table[id]? with
  | none => exact congrArg s.relist (List.append_nil l).symm
  | some e =>
    obtain ⟨query, stamp⟩ := e
    cases query with
    | recv t =>
      dsimp only
      rw [runThread_relist a he, updateTimeout_relist]
    | req q => exact congrArg s.relist (List.append_nil l).symm
    | getDistance q =>
      dsimp only
      rw [getDistanceLatency_relist, updateTimeout_relist]
    | other finished => exact congrArg s.relist (List.append_nil l).symm

/-- What a timeout appends. -/
def timeoutWoken (resultsCreated : UInt64 → Bool) (s : Threads D) (id : UInt64) : List UInt64 :=
  match s.table[id]? with
  | some ⟨.getDistance q, _⟩ => s.woken (resultsCreated id) id q
  | _ => []

theorem timeoutQuery_relist (resultsCreated : UInt64 → Bool) (id : UInt64) (s : Threads D) :
    (s.relist l).timeoutQuery resultsCreated id =
      (s.timeoutQuery resultsCreated id).relist (l ++ s.timeoutWoken resultsCreated id) := by
  have htable : (s.relist l).table = s.table := rfl
  rw [timeoutQuery, timeoutQuery, timeoutWoken, htable]
  cases he : s.table[id]? with
  | none => exact congrArg s.relist (List.append_nil l).symm
  | some e =>
    obtain ⟨query, stamp⟩ := e
    cases query with
    | getDistance q =>
      dsimp only
      rw [returnResults_relist, updateTimeout_relist]
    | recv t =>
      dsimp only
      rw [modify_relist, updateTimeout_relist, List.append_nil]
    | req q =>
      dsimp only
      rw [modify_relist, updateTimeout_relist, List.append_nil]
    | other finished =>
      dsimp only
      rw [modify_relist, updateTimeout_relist, List.append_nil]

theorem psList_notifyQLatency (a : Activity) (resultsCreated : Bool) (id : UInt64)
    (inRemoteNodes : List NodeIdentLat) (s : Threads D) :
    (s.notifyQLatency a resultsCreated id inRemoteNodes).psList =
      s.psList ++ s.notifyWoken a resultsCreated id inRemoteNodes :=
  congrArg psList (notifyQLatency_relist (l := s.psList) a resultsCreated id inRemoteNodes s)

theorem psList_timeoutQuery (resultsCreated : UInt64 → Bool) (id : UInt64) (s : Threads D) :
    (s.timeoutQuery resultsCreated id).psList =
      s.psList ++ s.timeoutWoken resultsCreated id :=
  congrArg psList (timeoutQuery_relist (l := s.psList) resultsCreated id s)

/-- The threads. -/
def IsThread (s : Threads D) (id : UInt64) : Prop := (s.getDSLRecvQ id).isSome

theorem isThread_of_mem_woken {resultsCreated : Bool} {q : HandleGetDistance} {w : UInt64}
    (h : w ∈ s.woken resultsCreated id q) : s.IsThread w := by
  rw [woken] at h
  split at h
  · next hcond =>
    rw [List.mem_singleton] at h
    exact h ▸ hcond.2.2
  · cases h

theorem isThread_of_mem_notifyWoken {a : Activity} {resultsCreated : Bool}
    {inRemoteNodes : List NodeIdentLat} {w : UInt64}
    (h : w ∈ s.notifyWoken a resultsCreated id inRemoteNodes) : s.IsThread w := by
  rw [notifyWoken] at h
  split at h
  · next t stamp he =>
    have hw : w = id := by
      rw [runWoken] at h
      cases hcalls : s.blockingCall a with
      | none =>
        rw [hcalls] at h
        cases h
      | some c =>
        rw [hcalls, Option.map_some, Option.getD_some, callWoken] at h
        split at h
        · exact List.mem_singleton.1 h
        · cases h
    rw [hw, IsThread, getDSLRecvQ_eq_some.2 ⟨stamp, he⟩]
    rfl
  · rw [latencyWoken] at h
    split at h
    · exact isThread_of_mem_woken h
    · cases h
  · cases h

theorem isThread_of_mem_timeoutWoken {resultsCreated : UInt64 → Bool} {w : UInt64}
    (h : w ∈ s.timeoutWoken resultsCreated id) : s.IsThread w := by
  rw [timeoutWoken] at h
  split at h
  · exact isThread_of_mem_woken h
  · cases h

/-! ### A pass -/

/-- The largest number of entries a pass goes through. -/
def MAX_THREADS_PER_ITERATION : ℕ := 5

/-- The variables of the loop of a pass: the entries up to the iterator are those of `clear_vect`. The
threads that have been run are kept for the statements. -/
structure Pass (D : Type) where
  threads : Threads D
  psIt : ℕ
  slices : List UInt64

/-- One round of the loop of a pass. -/
def Pass.round (a : Activity) (p : Pass D) : Pass D :=
  match p.threads.psList[p.psIt]? with
  | none => p
  | some curQueryID =>
    match p.threads.getDSLRecvQ curQueryID with
    | none => { p with psIt := p.psIt + 1 }
    | some thisQ =>
      if thisQ.state = .blocked then { p with psIt := p.psIt + 1 }
      else
        let s := p.threads.notifyQLatency a true curQueryID []
        { threads := if s.table.contains curQueryID then s.addPS curQueryID else s
          psIt := p.psIt + 1
          slices := p.slices ++ [curQueryID] }

/-- The first rounds of a pass. -/
def Pass.after (activities : ℕ → Activity) (s : Threads D) (n : ℕ) : Pass D :=
  (List.range n).foldl (fun p i ↦ p.round (activities i)) ⟨s, 0, []⟩

/-- A pass over `g_psList`: the state after it, and the threads that it has run. -/
def pass (activities : ℕ → Activity) (s : Threads D) : Threads D × List UInt64 :=
  let p := Pass.after activities s MAX_THREADS_PER_ITERATION
  ({ p.threads with psList := p.threads.psList.drop p.psIt }, p.slices)

/-- The state, as if the entries that have been gone through were off the list. -/
def Pass.view (p : Pass D) : Threads D := p.threads.relist (p.threads.psList.drop p.psIt)

/-- The threads that a round runs. -/
def served (s : Threads D) : List UInt64 :=
  match s.psList with
  | [] => []
  | id :: _ => if (s.getDSLRecvQ id).any fun t ↦ decide (t.state ≠ .blocked) then [id] else []

/-- **A round takes its entry off the list**, as far as anybody can tell. -/
theorem Pass.round_view (a : Activity) (p : Pass D) (hle : p.psIt ≤ p.threads.psList.length) :
    (p.round a).view = p.view.schedule a ∧ (p.round a).slices = p.slices ++ p.view.served ∧
      (p.round a).psIt ≤ (p.round a).threads.psList.length := by
  have hlist : p.view.psList = p.threads.psList.drop p.psIt := rfl
  rw [Pass.round, schedule, served, hlist]
  rcases Nat.lt_or_ge p.psIt p.threads.psList.length with hlt | hge
  · rw [List.drop_eq_getElem_cons hlt, List.getElem?_eq_getElem hlt]
    dsimp only
    have hthread : ∀ l id, (p.threads.relist l).getDSLRecvQ id = p.threads.getDSLRecvQ id :=
      fun _ _ ↦ rfl
    have hrest : ({ p.view with psList := p.threads.psList.drop (p.psIt + 1) } : Threads D) =
        p.threads.relist (p.threads.psList.drop (p.psIt + 1)) := rfl
    have hview : ∀ id, p.view.getDSLRecvQ id = p.threads.getDSLRecvQ id := fun _ ↦ rfl
    rw [hrest, hthread, hview]
    generalize p.threads.psList[p.psIt] = id
    cases ht : p.threads.getDSLRecvQ id with
    | none => exact ⟨rfl, by simp, hlt⟩
    | some t =>
      dsimp only
      by_cases hblocked : t.state = .blocked
      · rw [if_pos hblocked, if_pos hblocked]
        exact ⟨rfl, by simp [hblocked], hlt⟩
      rw [if_neg hblocked, if_neg hblocked, notifyQLatency_relist]
      have hps := psList_notifyQLatency a true id [] p.threads
      generalize hs₁ : p.threads.notifyQLatency a true id [] = s₁ at hps ⊢
      have htable : ∀ l, (s₁.relist l).table = s₁.table := fun _ ↦ rfl
      rw [htable]
      refine ⟨?_, by simp [hblocked], ?_⟩
      · by_cases hstays : s₁.table.contains id = true
        · rw [if_pos hstays, if_pos hstays, addPS_relist]
          show (s₁.addPS id).relist ((s₁.addPS id).psList.drop (p.psIt + 1)) = _
          rw [show (s₁.addPS id).psList = s₁.psList ++ [id] from rfl, hps, List.append_assoc,
            List.drop_append_of_le_length hlt, List.append_assoc]
        · rw [if_neg hstays, if_neg hstays]
          show s₁.relist (s₁.psList.drop (p.psIt + 1)) = _
          rw [hps, List.drop_append_of_le_length hlt]
      · by_cases hstays : s₁.table.contains id = true
        · rw [if_pos hstays]
          show p.psIt + 1 ≤ (s₁.psList ++ [id]).length
          rw [hps, List.length_append, List.length_append]
          omega
        · rw [if_neg hstays]
          show p.psIt + 1 ≤ s₁.psList.length
          rw [hps, List.length_append]
          omega
  · rw [List.getElem?_eq_none hge, List.drop_eq_nil_of_le hge]
    exact ⟨rfl, (List.append_nil _).symm, hle⟩

/-- The rounds of a pass, each taking its entry off the list. -/
def rounds (activities : ℕ → Activity) (s : Threads D) : ℕ → Threads D × List UInt64
  | 0 => (s, [])
  | n + 1 =>
    let r := rounds activities s n
    (r.1.schedule (activities n), r.2 ++ r.1.served)

/-- **A pass is its rounds.** -/
theorem pass_eq (activities : ℕ → Activity) (s : Threads D) :
    s.pass activities = s.rounds activities MAX_THREADS_PER_ITERATION := by
  have hrounds : ∀ n, (Pass.after activities s n).view = (s.rounds activities n).1 ∧
      (Pass.after activities s n).slices = (s.rounds activities n).2 ∧
      (Pass.after activities s n).psIt ≤ (Pass.after activities s n).threads.psList.length := by
    intro n
    induction n with
    | zero => exact ⟨rfl, rfl, Nat.zero_le _⟩
    | succ n ih =>
      obtain ⟨hview, hslices, hle⟩ := ih
      have hlast : Pass.after activities s (n + 1) =
          (Pass.after activities s n).round (activities n) := by
        rw [Pass.after, List.range_succ, List.foldl_append]
        rfl
      rw [hlast]
      obtain ⟨hview', hslices', hle'⟩ := Pass.round_view (activities n) _ hle
      refine ⟨hview'.trans ?_, hslices'.trans ?_, hle'⟩
      · rw [hview]
        rfl
      · rw [hview, hslices]
        rfl
  obtain ⟨hview, hslices, -⟩ := hrounds MAX_THREADS_PER_ITERATION
  exact Prod.ext hview hslices

/-! ### Orderly steps -/

/-- The thread that a step wakes is not on the list, nor is the id of a new thread. -/
def Orderly (xdr : XdrDouble D) (magic : UInt32) (s : Threads D) : Event → Prop
  | .request id _ _ _ => s.table.contains id = false → id ∉ s.psList
  | .packet inPacket => ∀ queryType queryID tid t t',
      BufferWrapper.parse (Packet.parseHeader magic) inPacket = some (queryType, queryID) →
      notified queryType → Forwards s queryID tid → s.getDSLRecvQ tid = some t →
      t.handleEvent xdr magic inPacket = some t' → tid ∉ s.psList
  | .latency id inRemoteNodes a resultsCreated =>
    ∀ w ∈ s.notifyWoken a resultsCreated id inRemoteNodes, w ∉ s.psList
  | .timeout _ order resultsCreated =>
    AllSteps (fun s id ↦ ∀ w ∈ s.timeoutWoken resultsCreated id, w ∉ s.psList)
      (fun s id ↦ some (s.timeoutQuery resultsCreated id)) s order
  | .schedule _ => True
  | .other _ => True
  | .otherFinished _ => True

/-- Round `i` of a pass does not find the results of a `get_distance` at once, and if it leaves its
thread runnable, the pass does not come to it again. -/
def OrderlyRound (i : ℕ) (a : Activity) (s : Threads D) : Prop :=
  ∀ id rest t, s.psList = id :: rest → s.getDSLRecvQ id = some t → t.state ≠ .blocked →
    (∀ c, s.blockingCall a = some c → returnsAtOnce c = false) ∧
      (s.blockingCall a = none → a.finish = .ready →
        MAX_THREADS_PER_ITERATION ≤ i + 1 + rest.length)

/-- All rounds of a pass. -/
def OrderlyPass (activities : ℕ → Activity) (s : Threads D) : Prop :=
  ∀ i, i < MAX_THREADS_PER_ITERATION →
    (s.rounds activities i).1.OrderlyRound i (activities i)

/-! ### Handlers -/

/-- What a step does to the list: no id comes twice, and what comes is a thread. -/
structure Lists (s s' : Threads D) : Prop where
  nodup : s.psList.Nodup → s'.psList.Nodup
  listed : ∀ w ∈ s'.psList, w ∈ s.psList ∨ s.IsThread w ∨ s'.IsThread w

theorem Lists.of_append {ws : List UInt64} (h : s'.psList = s.psList ++ ws) (hws : ws.Nodup)
    (hnew : ∀ w ∈ ws, w ∉ s.psList) (hthread : ∀ w ∈ ws, s.IsThread w ∨ s'.IsThread w) :
    Lists s s' where
  nodup hnodup := by
    rw [h, List.nodup_append]
    exact ⟨hnodup, hws, fun x hx w hw heq ↦ hnew w hw (heq ▸ hx)⟩
  listed w hw := by
    rw [h, List.mem_append] at hw
    exact hw.imp_right (hthread w)

theorem Lists.of_eq (h : s'.psList = s.psList) : Lists s s' :=
  ⟨fun hnodup ↦ h ▸ hnodup, fun _ hw ↦ .inl (h ▸ hw)⟩

theorem nodup_woken (resultsCreated : Bool) (id : UInt64) (q : HandleGetDistance)
    (s : Threads D) : (s.woken resultsCreated id q).Nodup := by
  rw [woken]
  split <;> simp

theorem nodup_notifyWoken (a : Activity) (resultsCreated : Bool) (id : UInt64)
    (inRemoteNodes : List NodeIdentLat) (s : Threads D) :
    (s.notifyWoken a resultsCreated id inRemoteNodes).Nodup := by
  rw [notifyWoken]
  split
  · rw [runWoken]
    cases s.blockingCall a with
    | none => exact List.nodup_nil
    | some c =>
      rw [Option.map_some, Option.getD_some, callWoken]
      split <;> simp
  · rw [latencyWoken]
    split
    · exact nodup_woken ..
    · exact List.nodup_nil
  · exact List.nodup_nil

theorem nodup_timeoutWoken (resultsCreated : UInt64 → Bool) (s : Threads D) (id : UInt64) :
    (s.timeoutWoken resultsCreated id).Nodup := by
  rw [timeoutWoken]
  split
  · exact nodup_woken ..
  · exact List.nodup_nil

theorem IsThread.of_timeoutQuery {resultsCreated : UInt64 → Bool} {w : UInt64}
    (h : (s.timeoutQuery resultsCreated id).IsThread w) : s.IsThread w := by
  obtain ⟨t, ht⟩ := Option.isSome_iff_exists.1 h
  obtain ⟨stamp, he⟩ := getDSLRecvQ_eq_some.1 ht
  obtain ⟨-, hsame | ⟨t₁, t', stamp', he₁, -, -⟩⟩ := timeoutQuery_entry he
  · rw [IsThread, getDSLRecvQ_eq_some.2 ⟨stamp, hsame⟩]
    rfl
  · rw [IsThread, getDSLRecvQ_eq_some.2 ⟨stamp', he₁⟩]
    rfl

/-- The loop over the queries that are due. -/
theorem foldl_timeoutQuery_lists (resultsCreated : UInt64 → Bool) (order : List UInt64)
    (h : AllSteps (fun (s : Threads D) id ↦ ∀ w ∈ s.timeoutWoken resultsCreated id, w ∉ s.psList)
      (fun s id ↦ some (s.timeoutQuery resultsCreated id)) s order) :
    (s.psList.Nodup → (order.foldl (timeoutQuery resultsCreated) s).psList.Nodup) ∧
      ∀ w ∈ (order.foldl (timeoutQuery resultsCreated) s).psList,
        w ∈ s.psList ∨ s.IsThread w := by
  induction order generalizing s with
  | nil => exact ⟨fun hnodup ↦ hnodup, fun w hw ↦ .inl hw⟩
  | cons id order ih =>
    obtain ⟨hnew, hrest⟩ := h
    obtain ⟨hnodup, hlisted⟩ := ih (hrest _ rfl)
    have hfirst : Lists s (s.timeoutQuery resultsCreated id) :=
      .of_append (psList_timeoutQuery resultsCreated id s) (nodup_timeoutWoken ..) hnew
        fun w hw ↦ .inl (isThread_of_mem_timeoutWoken hw)
    refine ⟨fun h ↦ hnodup (hfirst.nodup h), fun w hw ↦ ?_⟩
    rcases hlisted w hw with hw | hw
    · rcases hfirst.listed w hw with hw | hw | hw
      · exact .inl hw
      · exact .inr hw
      · exact .inr hw.of_timeoutQuery
    · exact .inr hw.of_timeoutQuery

variable {xdr : XdrDouble D} {magic : UInt32}

/-- **An orderly handler** lists no id twice. -/
theorem step_lists {ev : Event} (hs : Sound s) (horderly : s.Orderly xdr magic ev)
    (hhandler : ∀ a, ev ≠ .schedule a) (h : step xdr magic s ev = some s') : Lists s s' := by
  cases ev with
  | request id now timeoutMS astAllocationCount =>
    rw [step] at h
    split at h
    · exact Option.some.inj h ▸ .of_eq rfl
    · next s₁ hs₁ =>
      obtain ⟨hfree, hps, -, -, htable⟩ := insertNewQuery_eq_some hs₁
      have hunused : s.table.contains id = false := by
        rw [Std.ExtTreeMap.contains_eq_isSome_getElem?, hfree]
        rfl
      have hthread : (s₁.addPS id).IsThread id := by
        rw [IsThread, getDSLRecvQ, table_addPS, htable, if_pos rfl]
        rfl
      rw [← Option.some.inj h]
      have hlist : (s₁.addPS id).psList = s.psList ++ [id] := by
        show s₁.psList ++ [id] = _
        rw [hps]
      refine .of_append hlist (List.nodup_singleton id) ?_ ?_
      · exact fun w hw ↦ List.mem_singleton.1 hw ▸ horderly hunused
      · exact fun w hw ↦ .inr (List.mem_singleton.1 hw ▸ hthread)
  | packet inPacket =>
    rw [step] at h
    split at h
    · exact Option.some.inj h ▸ .of_eq rfl
    · next queryType queryID hparse =>
      split at h
      · next hnotified =>
        obtain rfl | ⟨tid, t, t', stamp, hforwards, hreplied⟩ := notifyQPacket_cases hs h
        · exact .of_eq rfl
        · have ht : s.getDSLRecvQ tid = some t := getDSLRecvQ_eq_some.2 ⟨stamp, hreplied.thread⟩
          have hnew := horderly queryType queryID tid t t' hparse hnotified hforwards ht
            hreplied.reply
          -- the reply lists the thread, which the condition says is not listed yet
          refine .of_append hreplied.psList (List.nodup_singleton tid) ?_ ?_
          · exact fun w hw ↦ List.mem_singleton.1 hw ▸ hnew
          · refine fun w hw ↦ .inl ?_
            rw [List.mem_singleton.1 hw, IsThread, ht]
            rfl
      · exact Option.some.inj h ▸ .of_eq rfl
  | latency id inRemoteNodes a resultsCreated =>
    rw [← Option.some.inj h]
    exact .of_append (psList_notifyQLatency a resultsCreated id inRemoteNodes s)
      (nodup_notifyWoken ..) horderly fun w hw ↦ .inl (isThread_of_mem_notifyWoken hw)
  | schedule a => exact absurd rfl (hhandler a)
  | timeout now order resultsCreated =>
    rw [step] at h
    split at h
    · rw [← Option.some.inj h]
      obtain ⟨hnodup, hlisted⟩ := foldl_timeoutQuery_lists resultsCreated order horderly
      exact ⟨hnodup, fun w hw ↦ (hlisted w hw).imp_right .inl⟩
    · cases h
  | other id =>
    rw [← Option.some.inj h]
    cases hins : s.insertNewQuery id (.other false) with
    | none => exact .of_eq rfl
    | some s₁ => exact .of_eq (insertNewQuery_eq_some hins).2.1
  | otherFinished id =>
    rw [step] at h
    split at h
    · rw [← Option.some.inj h]
      exact .of_eq (by simp)
    · exact Option.some.inj h ▸ .of_eq rfl

/-! ### Passes -/

/-- A run of a thread leaves the other threads alone. -/
theorem Ran.others {a : Activity} (h : Ran a id t stamp s s') {w : UInt64} (hw : w ≠ id) :
    s'.getDSLRecvQ w = s.getDSLRecvQ w := by
  cases h with
  | ended _ _ htable => rw [getDSLRecvQ, getDSLRecvQ, htable, if_neg hw]
  | ready _ _ _ _ _ _ _ _ htable => rw [getDSLRecvQ, getDSLRecvQ, htable, if_neg hw]
  | blocked c _ hfree _ _ _ _ _ _ _ htable =>
    rw [getDSLRecvQ, getDSLRecvQ, htable, if_neg hw]
    split
    · next hc =>
      rw [hc, hfree]
      cases c with
      | rpc qid => rfl
      | getDistance qid srcNodes destNodes now timeoutMS resultsCreated =>
        rw [query?]
        split <;> rfl
    · rfl

/-- What an orderly round does: it drops its entry, or runs the thread and puts it back if it is
still there. -/
inductive Rounded (i : ℕ) (a : Activity) (s s' : Threads D) : Prop
  | idle (hps : s.psList = []) (hserved : s.served = []) (h : s' = s)
  | dropped {id : UInt64} {rest : List UInt64} (hps : s.psList = id :: rest)
      (hserved : s.served = []) (h : s' = s.relist rest)
  | ended {id : UInt64} {rest : List UInt64} {t : DSLRecvQuery D} (hps : s.psList = id :: rest)
      (hserved : s.served = [id]) (ht : s.getDSLRecvQ id = some t) (hopen : t.state ≠ .blocked)
      (hgone : s'.getDSLRecvQ id = none)
      (hothers : ∀ w, w ≠ id → s'.getDSLRecvQ w = s.getDSLRecvQ w) (hlist : s'.psList = rest)
  | stays {id : UInt64} {rest : List UInt64} {t t' : DSLRecvQuery D} (hps : s.psList = id :: rest)
      (hserved : s.served = [id]) (ht : s.getDSLRecvQ id = some t) (hopen : t.state ≠ .blocked)
      (ht' : s'.getDSLRecvQ id = some t')
      (hstate : t'.state = .blocked ∨ MAX_THREADS_PER_ITERATION ≤ i + 1 + rest.length)
      (hothers : ∀ w, w ≠ id → s'.getDSLRecvQ w = s.getDSLRecvQ w)
      (hlist : s'.psList = rest ++ [id])

theorem schedule_rounded {a : Activity} {n : ℕ} (hs : Sound s) (horderly : s.OrderlyRound n a) :
    Rounded n a s (s.schedule a) := by
  rw [schedule]
  cases hps : s.psList with
  | nil => exact .idle hps (by rw [served, hps]) rfl
  | cons id rest =>
    have hthread : (s.relist rest).getDSLRecvQ id = s.getDSLRecvQ id := rfl
    have hrest : ({ s with psList := rest } : Threads D) = s.relist rest := rfl
    dsimp only
    rw [hrest, hthread]
    cases ht : s.getDSLRecvQ id with
    | none => exact .dropped hps (by simp [served, hps, ht]) rfl
    | some t =>
      dsimp only
      by_cases hblocked : t.state = .blocked
      · rw [if_pos hblocked]
        exact .dropped hps (by simp [served, hps, ht, hblocked]) rfl
      rw [if_neg hblocked]
      have hserved : s.served = [id] := by simp [served, hps, ht, hblocked]
      obtain ⟨honce, hready⟩ := horderly id rest t hps ht hblocked
      obtain ⟨stamp, he⟩ := getDSLRecvQ_eq_some.1 ht
      have hs' : Sound (s.relist rest) := ⟨hs.unfinished, hs.old, hs.state, hs.forward⟩
      have he' : (s.relist rest).table[id]? = some ⟨.recv t, stamp⟩ := he
      -- the slice wakes nobody: its call does not return at once
      have hwoken : (s.relist rest).notifyWoken a true id [] = [] := by
        rw [notifyWoken, he']
        show ((s.blockingCall a).map (callWoken id)).getD [] = []
        cases hcall : s.blockingCall a with
        | none => rfl
        | some c =>
          rw [Option.map_some, Option.getD_some, callWoken, honce c hcall]
          rfl
      have hlist := psList_notifyQLatency a true id [] (s.relist rest)
      rw [hwoken, List.append_nil] at hlist
      have hran : Ran a id t stamp (s.relist rest)
          ((s.relist rest).notifyQLatency a true id []) := by
        rw [notifyQLatency, he']
        exact (runThread_ran a he' (hs'.unfinished id _ he')).1
      generalize (s.relist rest).notifyQLatency a true id [] = s₁ at hlist hran
      have hothers : ∀ w, w ≠ id → s₁.getDSLRecvQ w = s.getDSLRecvQ w :=
        fun w hw ↦ hran.others hw
      cases hran with
      | ended _ _ htable =>
        have hnone : s₁.table[id]? = none := (htable id).trans (if_pos rfl)
        -- a thread that ended is not in the table, and not listed again
        have hcontains : ¬s₁.table.contains id = true := by
          rw [Std.ExtTreeMap.contains_eq_isSome_getElem?, hnone]
          exact Bool.false_ne_true
        rw [if_neg hcontains]
        exact .ended hps hserved ht hblocked (by rw [getDSLRecvQ, hnone]; rfl) hothers hlist
      | ready hcalls hfinish t' _ hstate _ _ _ htable =>
        have hsome : s₁.table[id]? = some ⟨.recv t', stamp⟩ := (htable id).trans (if_pos rfl)
        have hcontains : s₁.table.contains id = true := by
          rw [Std.ExtTreeMap.contains_eq_isSome_getElem?, hsome]
          rfl
        rw [if_pos hcontains]
        refine .stays hps hserved ht hblocked (getDSLRecvQ_eq_some.2 ⟨stamp, hsome⟩)
          (.inr (hready hcalls hfinish)) hothers ?_
        show s₁.psList ++ [id] = rest ++ [id]
        rw [hlist]
        rfl
      | blocked c hc _ t' _ hstate _ _ _ _ htable =>
        have hsome : s₁.table[id]? = some ⟨.recv t', stamp⟩ := (htable id).trans (if_pos rfl)
        have hcontains : s₁.table.contains id = true := by
          rw [Std.ExtTreeMap.contains_eq_isSome_getElem?, hsome]
          rfl
        rw [if_pos hcontains]
        refine .stays hps hserved ht hblocked (getDSLRecvQ_eq_some.2 ⟨stamp, hsome⟩) (.inl hstate)
          hothers ?_
        show s₁.psList ++ [id] = rest ++ [id]
        rw [hlist]
        rfl

/-- What holds after `n` rounds of a pass that has begun in `s₀`. A thread that has been run is
blocked, or out of reach. -/
structure PassInv (s₀ : Threads D) (n : ℕ) (s : Threads D) (slices : List UInt64) : Prop where
  sound : Sound s
  nodup : s.psList.Nodup
  once : slices.Nodup
  reach : ∀ w ∈ slices, ∀ t, s.getDSLRecvQ w = some t → t.state = .blocked ∨
    ∀ j, s.psList[j]? = some w → MAX_THREADS_PER_ITERATION ≤ n + j
  listed : ∀ w ∈ s.psList, w ∈ s₀.psList ∨ s₀.IsThread w
  threads : ∀ w, s.IsThread w → s₀.IsThread w

/-- **An orderly round** runs no thread a second time. -/
theorem PassInv.round {s₀ : Threads D} {n : ℕ} {slices : List UInt64} {a : Activity}
    (h : PassInv s₀ n s slices) (hn : n < MAX_THREADS_PER_ITERATION)
    (horderly : s.OrderlyRound n a) :
    PassInv s₀ (n + 1) (s.schedule a) (slices ++ s.served) := by
  have hsound := (schedule_scheduled h.sound a).sound h.sound
  -- an entry that has moved up by one place is as far away as before
  have hmoved : ∀ {id : UInt64} {rest : List UInt64}, s.psList = id :: rest → ∀ w ∈ slices,
      ∀ t, s.getDSLRecvQ w = some t → t.state = .blocked ∨
        ∀ j, rest[j]? = some w → MAX_THREADS_PER_ITERATION ≤ n + 1 + j := by
    intro id rest hps w hw t ht
    refine (h.reach w hw t ht).imp_right fun hfar j hj ↦ ?_
    have hle := hfar (j + 1) (by rw [hps, List.getElem?_cons_succ]; exact hj)
    omega
  have hfresh : ∀ {id : UInt64} {rest : List UInt64} {t : DSLRecvQuery D},
      s.psList = id :: rest → s.getDSLRecvQ id = some t → t.state ≠ .blocked →
        (slices ++ [id]).Nodup := by
    intro id rest t hps ht hopen
    rw [List.nodup_append]
    refine ⟨h.once, List.nodup_singleton id, fun w hw x hx heq ↦ ?_⟩
    rw [List.mem_singleton] at hx
    obtain rfl : w = id := heq.trans hx
    rcases h.reach w hw t ht with hblocked | hfar
    · exact hopen hblocked
    · have hle := hfar 0 (by rw [hps]; rfl)
      omega
  cases schedule_rounded h.sound horderly with
  | idle hps hserved heq =>
    rw [hserved, List.append_nil, heq]
    refine ⟨h.sound, h.nodup, h.once, fun w hw t ht ↦ ?_, h.listed, h.threads⟩
    refine (h.reach w hw t ht).imp_right fun hfar j hj ↦ ?_
    have hle := hfar j hj
    omega
  | dropped hps hserved heq =>
    rename_i id rest
    have hnodup := h.nodup
    rw [hps] at hnodup
    have hlisted : ∀ w ∈ rest, w ∈ s₀.psList ∨ s₀.IsThread w := fun w hw ↦
      h.listed w (hps ▸ List.mem_cons_of_mem id hw)
    rw [heq] at hsound
    rw [hserved, List.append_nil, heq]
    exact ⟨hsound, (List.nodup_cons.1 hnodup).2, h.once, hmoved hps, hlisted, h.threads⟩
  | ended hps hserved ht hopen hgone hothers hlist =>
    rename_i id rest t
    have hnodup := h.nodup
    rw [hps] at hnodup
    rw [hserved]
    refine ⟨hsound, hlist ▸ (List.nodup_cons.1 hnodup).2, hfresh hps ht hopen,
      fun w hw t' ht' ↦ ?_, fun w hw ↦ ?_, fun w hw ↦ ?_⟩
    · by_cases hwid : w = id
      · rw [hwid, hgone] at ht'
        cases ht'
      · have hold : w ∈ slices := by
          rcases List.mem_append.1 hw with hw | hw
          · exact hw
          · exact absurd (List.mem_singleton.1 hw) hwid
        rw [hothers w hwid] at ht'
        exact hlist ▸ hmoved hps w hold t' ht'
    · exact h.listed w (hps ▸ List.mem_cons_of_mem id (hlist ▸ hw))
    · by_cases hwid : w = id
      · rw [IsThread, hwid, hgone] at hw
        cases hw
      · rw [IsThread, hothers w hwid] at hw
        exact h.threads w hw
  | stays hps hserved ht hopen ht' hstate hothers hlist =>
    rename_i id rest t t₁
    have hnodup := h.nodup
    rw [hps] at hnodup
    obtain ⟨hid, hrest⟩ := List.nodup_cons.1 hnodup
    have hthread : s₀.IsThread id := h.threads id (by
      rw [IsThread, ht]
      rfl)
    rw [hserved]
    refine ⟨hsound, ?_, hfresh hps ht hopen, fun w hw t' ht'' ↦ ?_, fun w hw ↦ ?_, fun w hw ↦ ?_⟩
    · rw [hlist, List.nodup_append]
      refine ⟨hrest, List.nodup_singleton id, fun w hw x hx heq ↦ hid ?_⟩
      rwa [← List.mem_singleton.1 hx, ← heq]
    · rw [hlist]
      by_cases hwid : w = id
      · subst hwid
        obtain rfl := Option.some.inj (ht'.symm.trans ht'')
        refine hstate.imp_right fun hfar j hj ↦ ?_
        -- the entry is the last one
        rcases Nat.lt_or_ge j rest.length with hlt | hge
        · rw [List.getElem?_append_left hlt] at hj
          exact absurd (List.mem_of_getElem? hj) hid
        · omega
      · have hold : w ∈ slices := by
          rcases List.mem_append.1 hw with hw | hw
          · exact hw
          · exact absurd (List.mem_singleton.1 hw) hwid
        rw [hothers w hwid] at ht''
        refine (hmoved hps w hold t' ht'').imp_right fun hfar j hj ↦ hfar j ?_
        rcases Nat.lt_or_ge j rest.length with hlt | hge
        · rwa [List.getElem?_append_left hlt] at hj
        · rw [List.getElem?_append_right hge] at hj
          have hmem := List.mem_of_getElem? hj
          exact absurd (List.mem_singleton.1 hmem) hwid
    · rw [hlist] at hw
      rcases List.mem_append.1 hw with hw | hw
      · exact h.listed w (hps ▸ List.mem_cons_of_mem id hw)
      · exact .inr (List.mem_singleton.1 hw ▸ hthread)
    · by_cases hwid : w = id
      · exact hwid ▸ hthread
      · rw [IsThread, hothers w hwid] at hw
        exact h.threads w hw

/-- **An orderly pass** lists no id twice, and runs no thread twice. -/
theorem pass_inv {activities : ℕ → Activity} (hs : Sound s) (hnodup : s.psList.Nodup)
    (horderly : s.OrderlyPass activities) :
    PassInv s MAX_THREADS_PER_ITERATION (s.pass activities).1 (s.pass activities).2 := by
  have hrounds : ∀ n, n ≤ MAX_THREADS_PER_ITERATION →
      PassInv s n (s.rounds activities n).1 (s.rounds activities n).2 := by
    intro n
    induction n with
    | zero =>
      exact fun _ ↦ ⟨hs, hnodup, List.nodup_nil, fun w hw ↦ absurd hw List.not_mem_nil,
        fun w hw ↦ .inl hw,
        fun w hw ↦ hw⟩
    | succ n ih => exact fun hn ↦ (ih (by omega)).round hn (horderly n hn)
  rw [pass_eq]
  exact hrounds _ le_rfl

/-! ### Runs -/

/-- The ids of the `DSLRecvQuery`s. -/
def recvQueries (s : Threads D) : List UInt64 :=
  (s.table.toList.filter fun e ↦ e.2.query.recv?.isSome).map Prod.fst

theorem mem_recvQueries {w : UInt64} : w ∈ s.recvQueries ↔ s.IsThread w := by
  rw [recvQueries, List.mem_map, IsThread, getDSLRecvQ]
  constructor
  · rintro ⟨⟨k, e⟩, he, rfl⟩
    obtain ⟨hmem, hrecv⟩ := List.mem_filter.1 he
    rw [Std.ExtTreeMap.mem_toList_iff_getElem?_eq_some.1 hmem]
    exact hrecv
  · intro h
    cases he : s.table[w]? with
    | none =>
      rw [he] at h
      cases h
    | some e =>
      rw [he] at h
      exact ⟨(w, e), List.mem_filter.2
        ⟨Std.ExtTreeMap.mem_toList_iff_getElem?_eq_some.2 he, h⟩, rfl⟩

end Threads

open Threads

variable {D : Type}

/-- The event loop as far as threads are concerned. `slices` are the threads that the last turn has
run, if it was a pass, and `justFinished` are those that have left the table and are still listed. -/
structure EventLoop (D : Type) where
  threads : Threads D
  slices : List UInt64
  justFinished : List UInt64

/-- A turn of the event loop: a handler, which is no part of a pass, or a pass. -/
inductive Turn where
  | handler (ev : Event) (isHandler : ∀ a, ev ≠ .schedule a)
  | pass (activities : ℕ → Activity)

namespace EventLoop

/-- A process without queries. -/
def new : EventLoop D := ⟨.new, [], []⟩

/-- The state after a turn. -/
def next (slices : List UInt64) (threads : Threads D) (s : EventLoop D) : EventLoop D where
  threads := threads
  slices := slices
  justFinished := threads.psList.filter fun id ↦ (threads.getDSLRecvQ id).isNone &&
    ((s.threads.getDSLRecvQ id).isSome || s.justFinished.contains id)

/-- One turn. -/
def step (xdr : XdrDouble D) (magic : UInt32) (s : EventLoop D) : Turn → Option (EventLoop D)
  | .handler ev _ => (s.threads.step xdr magic ev).map fun threads ↦ s.next [] threads
  | .pass activities =>
    let res := s.threads.pass activities
    some (s.next res.2 res.1)

/-- The turns that list no thread twice and run none twice. -/
def Orderly (xdr : XdrDouble D) (magic : UInt32) (s : EventLoop D) : Turn → Prop
  | .handler ev _ => s.threads.Orderly xdr magic ev
  | .pass activities => s.threads.OrderlyPass activities

/-- **The law of the list**: every id occurs at most once, and is that of a thread, or of one that has
just finished; so the list is no longer than these are many. A pass runs a thread at most once. -/
structure Unique (s : EventLoop D) : Prop where
  nodup : s.threads.psList.Nodup
  slices : s.slices.Nodup
  listed : ∀ id ∈ s.threads.psList, s.threads.IsThread id ∨ id ∈ s.justFinished
  length : s.threads.psList.length ≤ s.threads.recvQueries.length + s.justFinished.length

variable {xdr : XdrDouble D} {magic : UInt32} {s s' : EventLoop D}

theorem next_unique {slices : List UInt64} {threads : Threads D} (h : s.Unique)
    (hnodup : threads.psList.Nodup) (hslices : slices.Nodup)
    (hlisted : ∀ w ∈ threads.psList,
      w ∈ s.threads.psList ∨ s.threads.IsThread w ∨ threads.IsThread w) :
    (s.next slices threads).Unique := by
  have hmem : ∀ w ∈ threads.psList,
      threads.IsThread w ∨ w ∈ (s.next slices threads).justFinished := by
    intro w hw
    rcases hthread : threads.getDSLRecvQ w with - | t
    · right
      refine List.mem_filter.2 ⟨hw, ?_⟩
      have hbefore : s.threads.IsThread w ∨ w ∈ s.justFinished := by
        rcases hlisted w hw with hold | hold | hnew
        · exact h.listed w hold
        · exact .inl hold
        · rw [IsThread, hthread] at hnew
          cases hnew
      rw [hthread]
      rcases hbefore with hbefore | hbefore
      · have hsome : (s.threads.getDSLRecvQ w).isSome = true := hbefore
        rw [hsome]
        rfl
      · rw [List.contains_iff_mem.2 hbefore, Bool.or_true]
        rfl
    · left
      rw [IsThread, hthread]
      rfl
  refine ⟨hnodup, hslices, hmem, ?_⟩
  rw [← List.length_append]
  refine (List.subperm_of_subset hnodup fun w hw ↦ ?_).length_le
  rw [List.mem_append]
  exact (hmem w hw).imp_left mem_recvQueries.2

/-- **An orderly turn** keeps the law. -/
theorem step_unique {turn : Turn} (hs : Sound s.threads) (h : s.Unique)
    (horderly : s.Orderly xdr magic turn) (hstep : step xdr magic s turn = some s') :
    Sound s'.threads ∧ s'.Unique := by
  cases turn with
  | handler ev isHandler =>
    obtain ⟨threads, hthreads, rfl⟩ := Option.map_eq_some_iff.1 hstep
    have hlists := step_lists hs horderly isHandler hthreads
    exact ⟨step_sound hs hthreads,
      next_unique h (hlists.nodup h.nodup) List.nodup_nil hlists.listed⟩
  | pass activities =>
    obtain rfl := Option.some.inj hstep
    have hinv := pass_inv hs h.nodup horderly
    exact ⟨hinv.sound, next_unique h hinv.nodup hinv.once fun w hw ↦
      (hinv.listed w hw).imp_right .inl⟩

/-- **Scheduler list uniqueness**, in every run of orderly turns. -/
theorem psList_unique {turns : List Turn}
    (h : run (step xdr magic) (new : EventLoop D) turns = some s)
    (horderly : AllSteps (Orderly xdr magic) (step xdr magic) (new : EventLoop D) turns) :
    s.Unique := by
  have hnew : Sound (new : EventLoop D).threads ∧ (new : EventLoop D).Unique :=
    ⟨new_sound, List.nodup_nil, List.nodup_nil, fun w hw ↦ absurd hw List.not_mem_nil,
      Nat.zero_le _⟩
  exact (run_invariant (P := fun s ↦ Sound s.threads ∧ s.Unique)
    (fun s turn s' hs hg hstep ↦ step_unique hs.1 hs.2 hg hstep) hnew horderly h).2

/-! ### A run -/

/-- The test whether a round is orderly. -/
def roundTest (i : ℕ) (a : Activity) (s : Threads D) : Bool :=
  match s.psList with
  | [] => true
  | id :: rest =>
    match s.getDSLRecvQ id with
    | none => true
    | some t => t.state == .blocked || ((s.blockingCall a).all (fun c ↦ !returnsAtOnce c) &&
        ((s.blockingCall a).isSome || (a.finish != .ready ||
          decide (MAX_THREADS_PER_ITERATION ≤ i + 1 + rest.length))))

theorem orderlyRound_of_roundTest {i : ℕ} {a : Activity} {s : Threads D}
    (h : roundTest i a s = true) : s.OrderlyRound i a := by
  intro id rest t hps ht hstate
  rw [roundTest, hps] at h
  dsimp only at h
  rw [ht] at h
  simp only [Bool.or_eq_true, Bool.and_eq_true, beq_iff_eq, bne_iff_ne, decide_eq_true_eq,
    hstate, false_or] at h
  obtain ⟨hcalls, hready⟩ := h
  refine ⟨fun c hc ↦ ?_, fun hnone hfinish ↦ ?_⟩
  · rw [hc] at hcalls
    simpa using hcalls
  · rw [hnone] at hready
    rcases hready with hsome | hne | hle
    · cases hsome
    · exact absurd hfinish hne
    · exact hle

/-- The same for the event of a new thread, and for the timeout of one query. -/
def eventTest (s : Threads D) : Event → Bool
  | .request id _ _ _ => s.table.contains id || !s.psList.contains id
  | .timeout _ [id] resultsCreated =>
    (s.timeoutWoken resultsCreated id).all fun w ↦ !s.psList.contains w
  | _ => false

theorem orderly_of_eventTest {s : Threads D} {ev : Event} (h : eventTest s ev = true) :
    s.Orderly xdr magic ev := by
  unfold eventTest at h
  split at h
  · intro hnew hmem
    simp [hnew, hmem] at h
  · refine ⟨fun w hw hmem ↦ ?_, fun _ _ ↦ trivial⟩
    have hall := List.all_eq_true.1 h w hw
    simp [hmem] at hall
  · cases h

/-- The same for a turn. -/
def turnTest (s : EventLoop D) : Turn → Bool
  | .handler ev _ => eventTest s.threads ev
  | .pass activities => (List.range MAX_THREADS_PER_ITERATION).all fun i ↦
    roundTest i (activities i) (s.threads.rounds activities i).1

theorem orderly_of_turnTest {s : EventLoop D} {turn : Turn} (h : turnTest s turn = true) :
    s.Orderly xdr magic turn := by
  cases turn with
  | handler ev hev => exact orderly_of_eventTest h
  | pass activities =>
    intro i hi
    exact orderlyRound_of_roundTest (List.all_eq_true.1 h i (List.mem_range.2 hi))

/-- Two threads. The first one blocks in `get_distance` and the second one in `rpc`; the query of the
first times out and wakes it, and in the next pass it ends. -/
def twoThreads : List Turn :=
  [.handler (.request 1 0 1000 0) (by simp), .handler (.request 2 0 1000 0) (by simp),
    .pass fun i ↦ if i = 0 then ⟨[.getDistance 3 [⟨5, 80, 0, 0⟩] [] 0 100 true], .done, 0⟩
      else ⟨[.rpc 4], .done, 0⟩,
    .handler (.timeout 100000 [3] fun _ ↦ true) (by simp), .pass fun _ ↦ ⟨[], .done, 0⟩]

/-- The thread that is woken is listed once. -/
theorem psList_unique_woken :
    (∃ s : EventLoop UInt64, run (step Value.bitsXdr 7) new (twoThreads.take 4) = some s ∧
      s.threads.psList = [1]) ∧
    ∃ s : EventLoop UInt64, run (step Value.bitsXdr 7) new twoThreads = some s ∧
      s.slices = [1] ∧ s.Unique := by
  have hwoken : ((run (step Value.bitsXdr 7) (new : EventLoop UInt64) (twoThreads.take 4)).any
      fun s ↦ s.threads.psList == [1]) = true := by decide +kernel
  have hchecked : ((run (fun s turn ↦ if turnTest s turn then step Value.bitsXdr 7 s turn else none)
      (new : EventLoop UInt64) twoThreads).any fun s ↦ s.slices == [1]) = true := by decide +kernel
  obtain ⟨s₁, hs₁, hlisted⟩ := (Option.any_eq_true ..).1 hwoken
  obtain ⟨s, hs, hslices⟩ := (Option.any_eq_true ..).1 hchecked
  obtain ⟨hall, hrun⟩ := allSteps_of_run_ite hs
  refine ⟨⟨s₁, hs₁, beq_iff_eq.1 hlisted⟩, s, hrun, beq_iff_eq.1 hslices, ?_⟩
  exact psList_unique hrun (hall.imp fun _ _ ↦ orderly_of_turnTest)

/-- The results of a `get_distance` that come before the next pass. The thread has used up its
evaluation count four times, and is blocked in the last round of the pass: its entry is still listed
when the query 2 times out, and it is appended once more. -/
theorem psList_not_unique :
    ¬ ∀ (turns : List Turn) (s : EventLoop UInt64),
      run (step Value.bitsXdr 7) new turns = some s → s.Unique := by
  intro h
  have hlist : (run (step Value.bitsXdr 7) (new : EventLoop UInt64)
      [.handler (.request 1 0 1000 0) (by simp),
        .pass fun i ↦ if i < 4 then ⟨[], .ready, 0⟩
          else ⟨[.getDistance 2 [⟨5, 80, 0, 0⟩] [] 0 100 true], .done, 0⟩,
        .handler (.timeout 100000 [2] fun _ ↦ true) (by simp)]).map (·.threads.psList) =
      some [1, 1] := by
    decide +kernel
  obtain ⟨s, hs, hps⟩ := Option.map_eq_some_iff.1 hlist
  have hnodup := (h _ s hs).nodup
  rw [hps] at hnodup
  exact absurd hnodup (by decide)

end EventLoop

end Meridian

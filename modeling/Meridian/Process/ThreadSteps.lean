import Meridian.Process.Threads

/-!
# What a step does to threads

Each handler of `Threads` as a change of the query table, entry by entry. A thread that is run either
leaves the table, or stays runnable, or is blocked in a call (`Ran`); a `HandleGetDistanceGeneric`
that returns results leaves the table, and at most one thread is changed by it; a datagram changes at
most the thread that it reaches over `DSLReqQuery`s (`Forwards`).

The bound of `notifyQPacket` is never used up: every query that a datagram reaches after the first is
newer than the one before, because an id is given away again only when its query has gone.
-/

namespace Meridian

open Lib BufferWrapper MQL
open DSLRecvQuery (wake)

namespace Threads

variable {D : Type} {s s' : Threads D} {id i : UInt64} {e : ThreadEntry D} {t : DSLRecvQuery D}
  {stamp : ℕ}

/-! ### The table -/

theorem table_modify (id i : UInt64) (f : ThreadQuery D → ThreadQuery D) (s : Threads D) :
    (s.modify id f).table[i]? =
      if i = id then s.table[i]?.map (ThreadEntry.modify f) else s.table[i]? := by
  rw [modify]
  by_cases hid : i = id
  · subst hid
    rw [if_pos rfl]
    cases he : s.table[i]? with
    | none => exact he
    | some e => exact Std.ExtTreeMap.getElem?_insert_self
  · rw [if_neg hid]
    cases s.table[id]? with
    | none => rfl
    | some e =>
      exact Lib.getElem?_insert_of_ne hid

theorem table_updateTimeout (id i : UInt64) (s : Threads D) :
    (s.updateTimeout id).table[i]? =
      if i = id then s.table[i]?.filter (!·.query.isFinished) else s.table[i]? := by
  rw [updateTimeout]
  by_cases hid : i = id
  · subst hid
    rw [if_pos rfl]
    cases he : s.table[i]? with
    | none => exact he
    | some e =>
      dsimp only
      cases hf : e.query.isFinished with
      | true => simp [Option.filter, hf]
      | false => simp [Option.filter, hf, he]
  · rw [if_neg hid]
    cases s.table[id]? with
    | none => rfl
    | some e =>
      dsimp only
      split
      · exact Lib.getElem?_erase_of_ne hid
      · rfl

theorem insertNewQuery_eq_some {q : ThreadQuery D} (h : s.insertNewQuery id q = some s') :
    s.table[id]? = none ∧ s'.psList = s.psList ∧ s'.created = s.created + 1 ∧
      s'.resumptions = s.resumptions ∧
      ∀ i, s'.table[i]? = if i = id then some ⟨q, s.created⟩ else s.table[i]? := by
  rw [insertNewQuery, ite_eq_iff] at h
  obtain ⟨-, h⟩ | ⟨hfree, h⟩ := h
  · cases h
  cases h
  refine ⟨Std.ExtTreeMap.getElem?_eq_none ?_, rfl, rfl, rfl, fun i ↦ ?_⟩
  · rwa [Std.ExtTreeMap.contains_iff_mem] at hfree
  · rw [Lib.getElem?_insert]
    exact if_congr eq_comm rfl rfl

@[simp] theorem psList_modify (id : UInt64) (f : ThreadQuery D → ThreadQuery D) (s : Threads D) :
    (s.modify id f).psList = s.psList := by
  rw [modify]
  split <;> rfl

@[simp] theorem created_modify (id : UInt64) (f : ThreadQuery D → ThreadQuery D) (s : Threads D) :
    (s.modify id f).created = s.created := by
  rw [modify]
  split <;> rfl

@[simp] theorem resumptions_modify (id : UInt64) (f : ThreadQuery D → ThreadQuery D)
    (s : Threads D) : (s.modify id f).resumptions = s.resumptions := by
  rw [modify]
  split <;> rfl

@[simp] theorem psList_updateTimeout (id : UInt64) (s : Threads D) :
    (s.updateTimeout id).psList = s.psList := by
  rw [updateTimeout]
  split
  · rfl
  · split <;> rfl

@[simp] theorem created_updateTimeout (id : UInt64) (s : Threads D) :
    (s.updateTimeout id).created = s.created := by
  rw [updateTimeout]
  split
  · rfl
  · split <;> rfl

@[simp] theorem resumptions_updateTimeout (id : UInt64) (s : Threads D) :
    (s.updateTimeout id).resumptions = s.resumptions := by
  rw [updateTimeout]
  split
  · rfl
  · split <;> rfl

@[simp] theorem table_addPS (id : UInt64) (s : Threads D) : (s.addPS id).table = s.table := rfl

theorem getDSLRecvQ_eq_some : s.getDSLRecvQ id = some t ↔
    ∃ stamp, s.table[id]? = some ⟨.recv t, stamp⟩ := by
  rw [getDSLRecvQ, Option.bind_eq_some_iff]
  constructor
  · rintro ⟨⟨query, stamp⟩, he, hquery⟩
    cases query with
    | recv t' =>
      cases hquery
      exact ⟨stamp, he⟩
    | req _ => cases hquery
    | getDistance _ => cases hquery
    | other _ => cases hquery
  · rintro ⟨stamp, he⟩
    exact ⟨_, he, rfl⟩

/-! ### Results -/

/-- What `returnResults` does to the thread. -/
def returned (resultsCreated : Bool) (results : List Measurement) (t : DSLRecvQuery D) :
    DSLRecvQuery D :=
  if resultsCreated then wake .results { t with queryReturn := some results }
  else { t with queryReturn := none }

/-- The query `q` with this id has returned results. -/
structure Returned (resultsCreated : Bool) (id : UInt64) (q : HandleGetDistance)
    (s s' : Threads D) : Prop where
  table : ∀ i, s'.table[i]? =
    if i = id then none
    else if i = q.prevQID then
      s.table[i]?.map (ThreadEntry.modify (.onRecv (returned resultsCreated q.results)))
    else s.table[i]?
  subset : s.psList ⊆ s'.psList
  listed : resultsCreated = true → q.prevQID ≠ id → (s.getDSLRecvQ q.prevQID).isSome →
    q.prevQID ∈ s'.psList
  created : s'.created = s.created
  resumptions : s'.resumptions = s.resumptions

theorem modify_onRecv_of_recv? {e : ThreadEntry D} (h : e.query.recv? = none)
    (f : DSLRecvQuery D → DSLRecvQuery D) : e.modify (.onRecv f) = e := by
  obtain ⟨query, stamp⟩ := e
  cases query with
  | recv t => cases h
  | req q => rfl
  | getDistance q => rfl
  | other finished => rfl

theorem returnResults_returned (resultsCreated : Bool) (id : UInt64) (q : HandleGetDistance)
    (s : Threads D) :
    Returned resultsCreated id q s ((s.returnResults resultsCreated id q).updateTimeout id) := by
  rw [returnResults]
  generalize hs₁ : (s.modify id fun _ ↦ .getDistance { q with finished := true }) = s₁
  have htable₁ (i : UInt64) : s₁.table[i]? =
      if i = id then
        s.table[i]?.map (ThreadEntry.modify fun _ ↦ .getDistance { q with finished := true })
      else s.table[i]? := by
    rw [← hs₁, table_modify]
  have hps₁ : s₁.psList = s.psList := by rw [← hs₁, psList_modify]
  have hcreated₁ : s₁.created = s.created := by rw [← hs₁, created_modify]
  have hres₁ : s₁.resumptions = s.resumptions := by rw [← hs₁, resumptions_modify]
  -- the query itself is finished, whatever becomes of the thread
  have hself (s₂ : Threads D) (htable : ∀ i, s₂.table[i]? = if i = q.prevQID then
        s₁.table[i]?.map (ThreadEntry.modify (.onRecv (returned resultsCreated q.results)))
      else s₁.table[i]?) (i : UInt64) : (s₂.updateTimeout id).table[i]? =
      if i = id then none
      else if i = q.prevQID then
        s.table[i]?.map (ThreadEntry.modify (.onRecv (returned resultsCreated q.results)))
      else s.table[i]? := by
    rw [table_updateTimeout, htable, htable₁]
    by_cases hi : i = id
    · rw [if_pos hi, if_pos hi, if_pos hi]
      cases s.table[i]? with
      | none => split <;> rfl
      | some e => split <;> rfl
    · rw [if_neg hi, if_neg hi, if_neg hi]
  cases ht : s₁.getDSLRecvQ q.prevQID with
  | none =>
    refine ⟨hself s₁ fun i ↦ ?_, by simp [hps₁], ?_, by simp [hcreated₁], by simp [hres₁]⟩
    · split
      · rename_i hi
        cases he : s₁.table[i]? with
        | none => rfl
        | some e =>
          rw [getDSLRecvQ, ← hi, he] at ht
          rw [Option.map_some, modify_onRecv_of_recv? ht]
      · rfl
    · intro _ hne hsome
      rw [getDSLRecvQ, htable₁, if_neg hne] at ht
      rw [getDSLRecvQ, ht] at hsome
      cases hsome
  | some t =>
    cases resultsCreated with
    | true =>
      refine ⟨hself _ fun i ↦ ?_, ?_, ?_, ?_, ?_⟩
      · exact table_modify _ _ _ _
      · simp [addPS, hps₁]
      · simp [addPS]
      · simp [addPS, hcreated₁]
      · simp [addPS, hres₁]
    | false =>
      refine ⟨hself _ fun i ↦ ?_, ?_, ?_, ?_, ?_⟩
      · exact table_modify _ _ _ _
      · simp [hps₁]
      · simp
      · simp [hcreated₁]
      · simp [hres₁]

/-- A `HandleGetDistanceGeneric` that waits for more has noted an answer. -/
structure Stored (id : UInt64) (q : HandleGetDistance) (stamp : ℕ) (s s' : Threads D) : Prop where
  table : ∃ q' : HandleGetDistance, q'.finished = q.finished ∧ q'.timeoutTV = q.timeoutTV ∧
    q'.prevQID = q.prevQID ∧
    ∀ i, s'.table[i]? = if i = id then some ⟨.getDistance q', stamp⟩ else s.table[i]?
  psList : s'.psList = s.psList
  created : s'.created = s.created
  resumptions : s'.resumptions = s.resumptions

theorem getDistanceLatency_cases {q : HandleGetDistance} (resultsCreated : Bool)
    (inRemoteNodes : List NodeIdentLat) (hq : s.table[id]? = some ⟨.getDistance q, stamp⟩)
    (hopen : q.finished = false) :
    let s' := (s.getDistanceLatency resultsCreated id inRemoteNodes q).updateTimeout id
    ((q.handleLatency inRemoteNodes).2 = true ∧
      ∃ q' : HandleGetDistance, q'.prevQID = q.prevQID ∧ Returned resultsCreated id q' s s') ∨
      Stored id q stamp s s' := by
  obtain ⟨hfinished, htime, hprev⟩ := q.handleLatency_kept inRemoteNodes
  dsimp only [getDistanceLatency]
  split
  · rename_i hreturns
    exact .inl ⟨hreturns, _, hprev, returnResults_returned ..⟩
  · refine .inr ⟨⟨_, hfinished, htime, hprev, fun i ↦ ?_⟩, by simp, by simp, by simp⟩
    rw [table_updateTimeout, table_modify]
    split
    · rename_i hi
      simp [hi, hq, Option.filter, ThreadEntry.modify, ThreadQuery.isFinished, hfinished, hopen]
    · rfl

/-! ### Running a thread -/

/-- The query that a call of thread `id` leaves in the table. Without sources there is none. -/
def query? (id : UInt64) (timeoutTV : ℕ) : ThreadCall → Option (ThreadQuery D)
  | .rpc _ => some (.req ⟨false, timeoutTV, id⟩)
  | .getDistance _ srcNodes destNodes now timeoutMS _ =>
    if srcNodes = [] then none
    else some (.getDistance (.new srcNodes destNodes now timeoutMS id))

/-- The thread has been changed, but for its deadline. -/
structure SameThread (t t' : DSLRecvQuery D) : Prop where
  finished : t'.finished = t.finished
  timeoutTV : t'.timeoutTV = t.timeoutTV

theorem startCall_eq_some {timeoutTV : ℕ} {c : ThreadCall}
    (ht : s.table[id]? = some ⟨.recv t, stamp⟩) (h : s.startCall id timeoutTV c = some s') :
    s.table[c.id]? = none ∧ s.psList ⊆ s'.psList ∧ s'.created = s.created + 1 ∧
      s'.resumptions = s.resumptions ∧ ∃ t', SameThread t t' ∧
      ∀ i, s'.table[i]? =
        if i = id then some ⟨.recv t', stamp⟩
        else if i = c.id then (query? id timeoutTV c).map (⟨·, s.created⟩)
        else s.table[i]? := by
  cases c with
  | rpc qid =>
    obtain ⟨hfree, hps, hcreated, hres, htable⟩ := insertNewQuery_eq_some h
    have hne : id ≠ qid := by
      rintro rfl
      rw [ht] at hfree
      cases hfree
    refine ⟨hfree, by rw [hps]; exact List.Subset.refl _, hcreated, hres, t, ⟨rfl, rfl⟩,
      fun i ↦ ?_⟩
    rw [htable]
    by_cases hi : i = id
    · subst hi
      rw [if_neg hne, if_pos rfl, ht]
    · rw [if_neg hi]
      rfl
  | getDistance qid srcNodes destNodes now timeoutMS resultsCreated =>
    obtain ⟨s₁, hs₁, rfl⟩ := Option.map_eq_some_iff.1 h
    obtain ⟨hfree, hps, hcreated, hres, htable⟩ := insertNewQuery_eq_some hs₁
    have hne : id ≠ qid := by
      rintro rfl
      rw [ht] at hfree
      cases hfree
    split
    · rename_i hsrc
      -- the new query finds that it has got all rows
      subst hsrc
      have hreturned := returnResults_returned resultsCreated qid
        (HandleGetDistance.new [] destNodes now timeoutMS id) s₁
      refine ⟨hfree, hps ▸ hreturned.subset, hreturned.created.trans hcreated,
        hreturned.resumptions.trans hres, returned resultsCreated
          (HandleGetDistance.new [] destNodes now timeoutMS id).results t, ?_, fun i ↦ ?_⟩
      · cases resultsCreated <;> exact ⟨rfl, rfl⟩
      · refine (hreturned.table i).trans ?_
        rw [htable]
        by_cases hi : i = id
        · subst hi
          rw [if_neg hne, if_neg hne, ht, if_pos rfl]
          exact if_pos rfl
        · rw [if_neg hi]
          by_cases hq : i = qid
          · rw [if_pos hq]
            exact (if_pos hq).symm
          · rw [if_neg hq, if_neg hq]
            exact (if_neg hi).trans (if_neg hq).symm
    · rename_i hsrc
      refine ⟨hfree, by rw [hps]; exact List.Subset.refl _, hcreated, hres, t, ⟨rfl, rfl⟩,
        fun i ↦ ?_⟩
      rw [htable, query?, if_neg hsrc]
      by_cases hi : i = id
      · subst hi
        rw [if_neg hne, if_pos rfl, ht]
      · rw [if_neg hi]
        rfl

/-- The call that blocks a thread: the first one whose query can be inserted. -/
def blockingCall (a : Activity) (s : Threads D) : Option ThreadCall :=
  a.calls.find? fun c ↦ !s.table.contains c.id

/-- What a run of thread `id` can do. -/
inductive Ran (a : Activity) (id : UInt64) (t : DSLRecvQuery D) (stamp : ℕ) (s s' : Threads D) :
    Prop where
  | ended (hps : s'.psList = s.psList) (hcreated : s'.created = s.created)
      (htable : ∀ i, s'.table[i]? = if i = id then none else s.table[i]?)
  | ready (hcalls : s.blockingCall a = none) (hfinish : a.finish = .ready)
      (t' : DSLRecvQuery D) (hsame : SameThread t t') (hstate : t'.state = .ready)
      (hcall : t'.call = none) (hps : s'.psList = s.psList) (hcreated : s'.created = s.created)
      (htable : ∀ i, s'.table[i]? = if i = id then some ⟨.recv t', stamp⟩ else s.table[i]?)
  | blocked (c : ThreadCall) (hc : s.blockingCall a = some c) (hfree : s.table[c.id]? = none)
      (t' : DSLRecvQuery D) (hsame : SameThread t t') (hstate : t'.state = .blocked)
      (hcall : t'.call = some ⟨callKind c, c.id, s.created⟩) (hwoken : t'.wokenBy = none)
      (hps : s.psList ⊆ s'.psList) (hcreated : s'.created = s.created + 1)
      (htable : ∀ i, s'.table[i]? =
        if i = id then some ⟨.recv t', stamp⟩
        else if i = c.id then (query? id t.timeoutTV c).map (⟨·, s.created⟩)
        else s.table[i]?)

theorem startCall_eq_none (id : UInt64) (timeoutTV : ℕ) {c : ThreadCall} :
    s.startCall id timeoutTV c = none ↔ s.table.contains c.id = true := by
  cases c with
  | rpc qid =>
    rw [startCall, insertNewQuery]
    split
    · rename_i h
      exact iff_of_true rfl h
    · rename_i h
      exact iff_of_false (by simp) h
  | getDistance qid srcNodes destNodes now timeoutMS resultsCreated =>
    rw [startCall, Option.map_eq_none_iff, insertNewQuery]
    split
    · rename_i h
      exact iff_of_true rfl h
    · rename_i h
      exact iff_of_false (by simp) h

theorem makeCalls_eq {timeoutTV : ℕ} (cs : List ThreadCall) :
    s.makeCalls id timeoutTV cs =
      (cs.find? fun c ↦ !s.table.contains c.id).bind fun c ↦
        (s.startCall id timeoutTV c).map
          (modify id (.onRecv (·.block ⟨callKind c, c.id, s.created⟩))) := by
  induction cs with
  | nil => rfl
  | cons c cs ih =>
    rw [makeCalls, List.find?_cons]
    cases hstart : s.startCall id timeoutTV c with
    | none =>
      rw [(startCall_eq_none id timeoutTV).1 hstart]
      exact ih
    | some s₁ =>
      have hfree : ¬s.table.contains c.id = true := by
        rw [← startCall_eq_none id timeoutTV, hstart]
        simp
      rw [Bool.eq_false_iff.2 hfree]
      change _ = (s.startCall id timeoutTV c).map _
      rw [hstart]
      rfl

/-- **What a run of a thread does**, and the record it leaves. -/
theorem runThread_ran (a : Activity) (ht : s.table[id]? = some ⟨.recv t, stamp⟩)
    (hfinished : t.finished = false) :
    Ran a id t stamp s ((s.runThread a id t).updateTimeout id) ∧
      ((s.runThread a id t).updateTimeout id).resumptions =
        s.resumptions ++ t.resumption?.toList := by
  rw [runThread]
  generalize hs₀ : ({ s with resumptions := s.resumptions ++ t.resumption?.toList } : Threads D) = s₀
  have htable₀ : s₀.table = s.table := by rw [← hs₀]
  have hps₀ : s₀.psList = s.psList := by rw [← hs₀]
  have hcreated₀ : s₀.created = s.created := by rw [← hs₀]
  have hres₀ : s₀.resumptions = s.resumptions ++ t.resumption?.toList := by rw [← hs₀]
  dsimp only
  generalize hs₁ : s₀.modify id (.onRecv fun t ↦
    { t.resume with astAllocationCount := a.astAllocationCount }) = s₁
  generalize ht₁ : ({ t.resume with astAllocationCount := a.astAllocationCount } :
    DSLRecvQuery D) = t₁
  -- the slice changes the entry of the thread alone, until it calls or ends
  have htable₁ (i : UInt64) :
      s₁.table[i]? = if i = id then some ⟨.recv t₁, stamp⟩ else s.table[i]? := by
    rw [← hs₁, table_modify, htable₀]
    split
    · rename_i hi
      rw [hi, ht, ← ht₁]
      rfl
    · rfl
  have hps₁ : s₁.psList = s.psList := by rw [← hs₁, psList_modify, hps₀]
  have hcreated₁ : s₁.created = s.created := by rw [← hs₁, created_modify, hcreated₀]
  have hres₁ : s₁.resumptions = s.resumptions ++ t.resumption?.toList := by
    rw [← hs₁, resumptions_modify, hres₀]
  have hsame₁ : SameThread t t₁ := by rw [← ht₁]; exact ⟨rfl, rfl⟩
  have hself : s₁.table[id]? = some ⟨.recv t₁, stamp⟩ := (htable₁ id).trans (if_pos rfl)
  have hkeys (i : UInt64) : s₁.table.contains i = s.table.contains i := by
    rw [Std.ExtTreeMap.contains_eq_isSome_getElem?, Std.ExtTreeMap.contains_eq_isSome_getElem?,
      htable₁]
    split
    · rename_i hi
      rw [hi, ht]
      rfl
    · rfl
  rw [makeCalls_eq]
  have hfirst : (a.calls.find? fun c ↦ !s₁.table.contains c.id) = s.blockingCall a := by
    simp only [hkeys, blockingCall]
  rw [hfirst, hcreated₁]
  cases hcalls : s.blockingCall a with
  | none =>
    rw [Option.bind_none, Option.getD_none]
    refine ⟨?_, by rw [resumptions_updateTimeout, resumptions_modify, hres₁]⟩
    have htable₂ (i : UInt64) : ((s₁.modify id (.onRecv (endThread a.finish))).updateTimeout
        id).table[i]? = if i = id then (some ⟨.recv (endThread a.finish t₁), stamp⟩ :
          Option (ThreadEntry D)).filter (!·.query.isFinished) else s.table[i]? := by
      rw [table_updateTimeout, table_modify, htable₁]
      split <;> rfl
    have hps₂ : ((s₁.modify id (.onRecv (endThread a.finish))).updateTimeout id).psList =
        s.psList := by
      rw [psList_updateTimeout, psList_modify, hps₁]
    have hcreated₂ : ((s₁.modify id (.onRecv (endThread a.finish))).updateTimeout id).created =
        s.created := by
      rw [created_updateTimeout, created_modify, hcreated₁]
    -- without a call the slice ends or yields
    cases hfinish : a.finish with
    | exception =>
      rw [hfinish] at htable₂ hps₂ hcreated₂
      exact .ended hps₂ hcreated₂ htable₂
    | done =>
      rw [hfinish] at htable₂ hps₂ hcreated₂
      exact .ended hps₂ hcreated₂ htable₂
    | ready =>
      rw [hfinish] at htable₂ hps₂ hcreated₂
      refine .ready hcalls hfinish (endThread .ready t₁) ⟨hsame₁.finished, hsame₁.timeoutTV⟩ rfl ?_
        hps₂ hcreated₂
        fun i ↦ (htable₂ i).trans ?_
      · rw [← ht₁]
        rfl
      · have hopen : (endThread .ready t₁).finished = false := hsame₁.finished.trans hfinished
        simp [Option.filter, ThreadQuery.isFinished, hopen]
  | some c =>
    have hc : ¬s₁.table.contains c.id = true := by
      have hfind := List.find?_some hcalls
      rw [Bool.not_eq_true'] at hfind
      rw [hkeys, hfind]
      exact Bool.false_ne_true
    obtain ⟨s₃, hstart⟩ := Option.ne_none_iff_exists'.1
      (mt (startCall_eq_none id t.timeoutTV).1 hc)
    rw [Option.bind_some, hstart, Option.map_some, Option.getD_some]
    obtain ⟨hfree, hps₃, hcreated₃, hres₃, t₃, hsame₃, htable₃⟩ := startCall_eq_some hself hstart
    refine ⟨.blocked c hcalls ?_ (t₃.block ⟨callKind c, c.id, s.created⟩)
      ⟨hsame₃.finished.trans hsame₁.finished, hsame₃.timeoutTV.trans hsame₁.timeoutTV⟩ rfl rfl rfl
      ?_ ?_ fun i ↦ ?_, ?_⟩
    -- the identifier of the thread is taken
    · have hne : c.id ≠ id := by
        intro heq
        rw [heq, hself] at hfree
        cases hfree
      rw [htable₁, if_neg hne] at hfree
      exact hfree
    · rw [psList_updateTimeout, psList_modify, ← hps₁]
      exact hps₃
    · rw [created_updateTimeout, created_modify, hcreated₃, hcreated₁]
    · rw [table_updateTimeout, table_modify, htable₃, hcreated₁]
      have hopen : t₃.finished = false :=
        hsame₃.finished.trans (hsame₁.finished.trans hfinished)
      by_cases hi : i = id
      · simp [hi, Option.filter, ThreadEntry.modify, ThreadQuery.onRecv, ThreadQuery.isFinished,
          DSLRecvQuery.block, hopen]
      · simp only [if_neg hi, htable₁]
    · rw [resumptions_updateTimeout, resumptions_modify, hres₃, hres₁]

/-! ### What always holds -/

/-- What holds of the query table between two steps. The last clause is why datagrams are not handed
on for ever: when the thread of a request has gone, its id can only be that of a newer query. -/
structure Sound (s : Threads D) : Prop where
  unfinished : ∀ (i : UInt64) (e : ThreadEntry D), s.table[i]? = some e →
    e.query.isFinished = false
  old : ∀ (i : UInt64) (e : ThreadEntry D), s.table[i]? = some e → e.stamp < s.created
  state : ∀ (i : UInt64) (t : DSLRecvQuery D) (stamp : ℕ),
    s.table[i]? = some ⟨.recv t, stamp⟩ → t.state = .ready ∨ t.state = .blocked
  forward : ∀ (i : UInt64) (q : DSLReqQuery) (stamp : ℕ) (e : ThreadEntry D),
    s.table[i]? = some ⟨.req q, stamp⟩ → s.table[q.recvQueryID]? = some e →
    e.query.recv?.isSome ∨ stamp < e.stamp

/-! ### Datagrams -/

/-- A query that is not finished stays where it is. -/
theorem updateTimeout_of_unfinished (h : ∀ e, s.table[id]? = some e → e.query.isFinished = false) :
    s.updateTimeout id = s := by
  rw [updateTimeout]
  cases he : s.table[id]? with
  | none => rfl
  | some e =>
    dsimp only
    rw [h e he]
    rfl

/-- A datagram for the first id reaches the second over `DSLReqQuery`s. -/
inductive Forwards (s : Threads D) : UInt64 → UInt64 → Prop where
  | here (id : UInt64) : Forwards s id id
  | forward {id tid : UInt64} {q : DSLReqQuery} {stamp : ℕ}
      (hq : s.table[id]? = some ⟨.req q, stamp⟩) (h : Forwards s q.recvQueryID tid) :
      Forwards s id tid

variable {xdr : XdrDouble D} {magic : UInt32} {inPacket : List UInt8}

/-- Thread `tid` has taken a datagram as a reply. -/
structure Replied (xdr : XdrDouble D) (magic : UInt32) (inPacket : List UInt8) (tid : UInt64)
    (t t' : DSLRecvQuery D) (stamp : ℕ) (s s' : Threads D) : Prop where
  thread : s.table[tid]? = some ⟨.recv t, stamp⟩
  reply : t.handleEvent xdr magic inPacket = some t'
  table : ∀ i, s'.table[i]? = if i = tid then some ⟨.recv t', stamp⟩ else s.table[i]?
  psList : s'.psList = s.psList ++ [tid]
  created : s'.created = s.created
  resumptions : s'.resumptions = s.resumptions

/-- What the thread is after a reply. -/
theorem handleEvent_eq_some {t' : DSLRecvQuery D} (h : t.handleEvent xdr magic inPacket = some t') :
    SameThread t t' ∧ t'.state = .ready ∧ t'.call = t.call ∧
      t'.wokenBy = (if t.state = .blocked then some .reply else t.wokenBy) ∧
      t'.rpcSource = some inPacket ∧
      ∃ allocated queryID rest, DSLReplyPacket.parse xdr magic
        ⟨BufferWrapper.new inPacket, allocated⟩ = some ((queryID, t'.rpcRecv), rest) := by
  obtain ⟨⟨⟨queryID, retNode⟩, rest⟩, hparse, rfl⟩ := Option.map_eq_some_iff.1 h
  exact ⟨⟨rfl, rfl⟩, rfl, rfl, rfl, rfl, _, queryID, rest, hparse⟩

/-- **What a datagram does**: nothing, or it is a reply for the thread that it reaches. -/
theorem notifyQPacket_cases {fuel : ℕ}
    (hs : Sound s)
    (h : s.notifyQPacket xdr magic inPacket fuel id = some s') :
    s' = s ∨ ∃ tid t t' stamp, Forwards s id tid ∧
      Replied xdr magic inPacket tid t t' stamp s s' := by
  induction fuel generalizing id s' with
  | zero => cases h
  | succ fuel ih =>
    rw [notifyQPacket] at h
    cases he : s.table[id]? with
    | none =>
      rw [he] at h
      exact .inl (Option.some.inj h).symm
    | some e =>
      obtain ⟨query, stamp⟩ := e
      rw [he] at h
      cases query with
      | recv t =>
        dsimp only at h
        cases hreply : t.handleEvent xdr magic inPacket with
        | none =>
          rw [hreply] at h
          rw [← Option.some.inj h]
          exact .inl (updateTimeout_of_unfinished (hs.unfinished id))
        | some t' =>
          rw [hreply] at h
          rw [← Option.some.inj h]
          have hopen : t'.finished = false :=
            (handleEvent_eq_some hreply).1.finished.trans (hs.unfinished id _ he)
          refine .inr ⟨id, t, t', stamp, .here id, he, hreply, fun i ↦ ?_, ?_, ?_, ?_⟩
          · rw [table_updateTimeout, table_addPS, table_modify]
            split
            · rename_i hi
              simp [hi, he, Option.filter, ThreadEntry.modify, ThreadQuery.isFinished, hopen]
            · rfl
          · simp [addPS]
          · simp [addPS]
          · simp [addPS]
      | req q =>
        obtain ⟨s₁, hs₁, rfl⟩ := Option.map_eq_some_iff.1 h
        obtain rfl | ⟨tid, t, t', tstamp, hforwards, hreplied⟩ := ih hs₁
        · exact .inl (updateTimeout_of_unfinished (hs.unfinished id))
        · -- the query in between is not the thread, and is left alone
          have hkept : s₁.updateTimeout id = s₁ := by
            refine updateTimeout_of_unfinished fun e he₁ ↦ ?_
            have hne : id ≠ tid := by
              rintro rfl
              have := he.symm.trans hreplied.thread
              cases this
            rw [hreplied.table, if_neg hne] at he₁
            exact hs.unfinished id e he₁
          rw [hkept]
          exact .inr ⟨tid, t, t', tstamp, .forward he hforwards, hreplied⟩
      | getDistance q => exact .inl (Option.some.inj h).symm
      | other finished => exact .inl (Option.some.inj h).symm

/-! ### Timeouts and the list of threads -/

/-- A timeout lets a query of another class alone, returns results, or ends the query. -/
theorem timeoutQuery_cases (resultsCreated : UInt64 → Bool) (id : UInt64) (s : Threads D) :
    (∃ q, (∃ stamp, s.table[id]? = some ⟨.getDistance q, stamp⟩) ∧
      Returned (resultsCreated id) id q s (s.timeoutQuery resultsCreated id)) ∨
    (∀ q stamp, s.table[id]? ≠ some ⟨.getDistance q, stamp⟩) ∧
      (∀ i, (s.timeoutQuery resultsCreated id).table[i]? = if i = id then none else s.table[i]?) ∧
      (s.timeoutQuery resultsCreated id).psList = s.psList ∧
      (s.timeoutQuery resultsCreated id).created = s.created ∧
      (s.timeoutQuery resultsCreated id).resumptions = s.resumptions := by
  have hend (e : ThreadEntry D) (he : s.table[id]? = some e) :
      (∀ i, ((s.modify id .setFinished).updateTimeout id).table[i]? =
        if i = id then none else s.table[i]?) ∧
      ((s.modify id .setFinished).updateTimeout id).psList = s.psList ∧
      ((s.modify id .setFinished).updateTimeout id).created = s.created ∧
      ((s.modify id .setFinished).updateTimeout id).resumptions = s.resumptions := by
    refine ⟨fun i ↦ ?_, by simp, by simp, by simp⟩
    rw [table_updateTimeout, table_modify]
    split
    · rename_i hi
      rw [hi, he]
      obtain ⟨query, stamp⟩ := e
      cases query <;> rfl
    · rfl
  cases he : s.table[id]? with
  | none =>
    have hidle : s.timeoutQuery resultsCreated id = s := by rw [timeoutQuery, he]
    rw [hidle]
    refine .inr ⟨by simp, fun i ↦ ?_, rfl, rfl, rfl⟩
    split
    · rename_i hi
      rw [hi, he]
    · rfl
  | some e =>
    obtain ⟨query, stamp⟩ := e
    rw [timeoutQuery, he]
    cases query with
    | getDistance q => exact .inl ⟨q, ⟨stamp, rfl⟩, returnResults_returned ..⟩
    | recv t => exact .inr ⟨by simp, hend _ he⟩
    | req q => exact .inr ⟨by simp, hend _ he⟩
    | other finished => exact .inr ⟨by simp, hend _ he⟩

/-- What a notification can do. -/
inductive Notified (a : Activity) (resultsCreated : Bool) (id : UInt64)
    (inRemoteNodes : List NodeIdentLat) (s s' : Threads D) : Prop where
  | idle (h : s' = s)
  | ran {t : DSLRecvQuery D} {stamp : ℕ} (ht : s.table[id]? = some ⟨.recv t, stamp⟩)
      (hran : Ran a id t stamp s s')
      (hres : s'.resumptions = s.resumptions ++ t.resumption?.toList)
  | returned {q q' : HandleGetDistance} {stamp : ℕ}
      (hq : s.table[id]? = some ⟨.getDistance q, stamp⟩)
      (hreturns : (q.handleLatency inRemoteNodes).2 = true) (hprev : q'.prevQID = q.prevQID)
      (h : Returned resultsCreated id q' s s')
  | stored {q : HandleGetDistance} {stamp : ℕ}
      (hq : s.table[id]? = some ⟨.getDistance q, stamp⟩) (h : Stored id q stamp s s')

theorem notifyQLatency_notified (hs : Sound s) (a : Activity) (resultsCreated : Bool)
    (id : UInt64) (inRemoteNodes : List NodeIdentLat) :
    Notified a resultsCreated id inRemoteNodes s
      (s.notifyQLatency a resultsCreated id inRemoteNodes) := by
  cases he : s.table[id]? with
  | none =>
    have hidle : s.notifyQLatency a resultsCreated id inRemoteNodes = s := by
      rw [notifyQLatency, he]
    exact .idle hidle
  | some e =>
    obtain ⟨query, stamp⟩ := e
    rw [notifyQLatency, he]
    cases query with
    | recv t =>
      obtain ⟨hran, hres⟩ := runThread_ran a he (hs.unfinished id _ he)
      exact .ran he hran hres
    | req q => exact .idle rfl
    | getDistance q =>
      obtain ⟨hreturns, q', hprev, h⟩ | h := getDistanceLatency_cases resultsCreated inRemoteNodes he
        (hs.unfinished id _ he)
      · exact .returned he hreturns hprev h
      · exact .stored he h
    | other finished => exact .idle rfl

/-- A round of the loop over `g_psList`. -/
inductive Scheduled (a : Activity) (s s' : Threads D) : Prop where
  | idle (hps : s.psList = []) (h : s' = s)
  /-- The entry is dropped. -/
  | dropped {id : UInt64} {rest : List UInt64} (hps : s.psList = id :: rest)
      (hblocked : ∀ t stamp, s.table[id]? = some ⟨.recv t, stamp⟩ → t.state = .blocked)
      (h : s' = { s with psList := rest })
  /-- The thread is run, and put back if it is still there. -/
  | ran {id : UInt64} {rest : List UInt64} {t : DSLRecvQuery D} {stamp : ℕ} {s₁ : Threads D}
      (hps : s.psList = id :: rest) (ht : s.table[id]? = some ⟨.recv t, stamp⟩)
      (hblocked : t.state ≠ .blocked) (hran : Ran a id t stamp { s with psList := rest } s₁)
      (hres : s₁.resumptions = s.resumptions ++ t.resumption?.toList)
      (h : s' = if s₁.table.contains id then s₁.addPS id else s₁)

theorem schedule_scheduled (hs : Sound s) (a : Activity) : Scheduled a s (s.schedule a) := by
  rw [schedule]
  cases hps : s.psList with
  | nil => exact .idle hps rfl
  | cons id rest =>
    dsimp only
    cases ht : ({ s with psList := rest } : Threads D).getDSLRecvQ id with
    | none =>
      refine .dropped hps (fun t stamp hthread ↦ ?_) rfl
      have hsome : ({ s with psList := rest } : Threads D).getDSLRecvQ id = some t :=
        getDSLRecvQ_eq_some.2 ⟨stamp, hthread⟩
      rw [hsome] at ht
      cases ht
    | some t =>
      obtain ⟨stamp, hthread⟩ := getDSLRecvQ_eq_some.1 ht
      have hself : s.table[id]? = some ⟨.recv t, stamp⟩ := hthread
      dsimp only
      split
      · rename_i hblocked
        refine .dropped hps (fun t' stamp' hthread' ↦ ?_) rfl
        obtain rfl : t = t' := by
          have heq := hself.symm.trans hthread'
          cases heq
          rfl
        exact hblocked
      · rename_i hblocked
        rw [notifyQLatency, hthread]
        obtain ⟨hran, hres⟩ := runThread_ran a hthread (hs.unfinished id _ hself)
        exact .ran hps hself hblocked hran hres rfl

/-! ### Soundness -/

/-- Where an entry of the table comes from. -/
inductive Origin (s s' : Threads D) (i : UInt64) : ThreadEntry D → Prop where
  | kept {e : ThreadEntry D} (h : s.table[i]? = some e) : Origin s s' i e
  | thread {t t' : DSLRecvQuery D} {stamp : ℕ} (h : s.table[i]? = some ⟨.recv t, stamp⟩)
      (hsame : SameThread t t') (hstate : t'.state = .ready ∨ t'.state = .blocked) :
      Origin s s' i ⟨.recv t', stamp⟩
  | rows {q q' : HandleGetDistance} {stamp : ℕ} (h : s.table[i]? = some ⟨.getDistance q, stamp⟩)
      (hfinished : q'.finished = q.finished) : Origin s s' i ⟨.getDistance q', stamp⟩
  | fresh {query : ThreadQuery D} (hcreated : s.created < s'.created)
      (hunfinished : query.isFinished = false)
      (hstate : ∀ t, query = .recv t → t.state = .ready ∨ t.state = .blocked)
      (hforward : ∀ q, query = .req q → ∃ e, s'.table[q.recvQueryID]? = some e ∧
        e.query.recv?.isSome) :
      Origin s s' i ⟨query, s.created⟩

/-- Every entry of the table has an origin. -/
structure Evolves (s s' : Threads D) : Prop where
  created : s.created ≤ s'.created
  origin : ∀ i e, s'.table[i]? = some e → Origin s s' i e

theorem Sound.of_evolves (hs : Sound s) (h : Evolves s s') : Sound s' where
  unfinished i e he := by
    cases h.origin i e he with
    | kept he => exact hs.unfinished i e he
    | thread ht hsame _ => exact hsame.finished.trans (hs.unfinished i _ ht)
    | rows hq hfinished => exact hfinished.trans (hs.unfinished i _ hq)
    | fresh _ hunfinished _ _ => exact hunfinished
  old i e he := by
    cases h.origin i e he with
    | kept he => exact (hs.old i e he).trans_le h.created
    | thread ht _ _ => exact (hs.old i _ ht).trans_le h.created
    | rows hq _ => exact (hs.old i _ hq).trans_le h.created
    | fresh hcreated _ _ _ => exact hcreated
  state i t stamp ht := by
    cases h.origin i _ ht with
    | kept ht => exact hs.state i t stamp ht
    | thread _ _ hstate => exact hstate
    | fresh _ _ hstate _ => exact hstate t rfl
  forward i q stamp e hq he := by
    cases h.origin i _ hq with
    | kept hq =>
      cases h.origin _ e he with
      | kept he => exact hs.forward i q stamp e hq he
      | thread _ _ _ => exact .inl rfl
      | rows he₀ _ =>
        exact .inr ((hs.forward i q stamp _ hq he₀).resolve_left (by simp [ThreadQuery.recv?]))
      | fresh _ _ _ _ => exact .inr (hs.old i _ hq)
    | fresh _ _ _ hforward =>
      obtain ⟨e', he', hrecv⟩ := hforward q rfl
      rw [he] at he'
      cases he'
      exact .inl hrecv

/-- Entries that have only gone. -/
theorem Evolves.of_removed (hcreated : s'.created = s.created)
    (h : ∀ (i : UInt64) (e : ThreadEntry D), s'.table[i]? = some e → s.table[i]? = some e) :
    Evolves s s' :=
  ⟨hcreated.ge, fun i e he ↦ .kept (h i e he)⟩

theorem Evolves.of_insert {q : ThreadQuery D} (h : s.insertNewQuery id q = some s')
    (hunfinished : q.isFinished = false)
    (hstate : ∀ t, q = .recv t → t.state = .ready ∨ t.state = .blocked)
    (hforward : ∀ q', q ≠ .req q') : Evolves s s' := by
  obtain ⟨-, -, hcreated, -, htable⟩ := insertNewQuery_eq_some h
  refine ⟨by omega, fun i e he ↦ ?_⟩
  rw [htable] at he
  split at he
  · cases he
    exact .fresh (by omega) hunfinished hstate fun q' hq' ↦ absurd hq' (hforward q')
  · exact .kept he

theorem Returned.evolves {resultsCreated : Bool} {q : HandleGetDistance} (hs : Sound s)
    (h : Returned resultsCreated id q s s') : Evolves s s' := by
  refine ⟨h.created.ge, fun i e he ↦ ?_⟩
  rw [h.table] at he
  split at he
  · cases he
  · split at he
    · obtain ⟨⟨query, stamp⟩, he₀, rfl⟩ := Option.map_eq_some_iff.1 he
      cases query with
      | recv t =>
        have hold := hs.state i t stamp he₀
        cases resultsCreated with
        | true => exact .thread he₀ ⟨rfl, rfl⟩ (.inl rfl)
        | false => exact .thread he₀ ⟨rfl, rfl⟩ hold
      | req q => exact .kept he₀
      | getDistance q => exact .kept he₀
      | other finished => exact .kept he₀
    · exact .kept he

theorem Stored.evolves {q : HandleGetDistance}
    (hq : s.table[id]? = some ⟨.getDistance q, stamp⟩) (h : Stored id q stamp s s') :
    Evolves s s' := by
  obtain ⟨q', hfinished, -, -, htable⟩ := h.table
  refine ⟨h.created.ge, fun i e he ↦ ?_⟩
  rw [htable] at he
  split at he
  · rename_i hi
    cases he
    exact .rows (hi ▸ hq) hfinished
  · exact .kept he

theorem Replied.evolves {tid : UInt64} {t' : DSLRecvQuery D}
    (h : Replied xdr magic inPacket tid t t' stamp s s') : Evolves s s' := by
  obtain ⟨hsame, hstate, -⟩ := handleEvent_eq_some h.reply
  refine ⟨h.created.ge, fun i e he ↦ ?_⟩
  rw [h.table] at he
  split at he
  · rename_i hi
    cases he
    exact .thread (hi ▸ h.thread) hsame (.inl hstate)
  · exact .kept he

theorem query?_unfinished {timeoutTV : ℕ} {c : ThreadCall} {query : ThreadQuery D}
    (h : query? id timeoutTV c = some query) :
    query.isFinished = false ∧ query.recv? = none ∧
      ∀ q, query = .req q → q.recvQueryID = id := by
  cases c with
  | rpc qid =>
    cases h
    refine ⟨rfl, rfl, fun q hq ↦ ?_⟩
    cases hq
    rfl
  | getDistance qid srcNodes destNodes now timeoutMS resultsCreated =>
    rw [query?, ite_eq_iff] at h
    obtain ⟨-, h⟩ | ⟨-, h⟩ := h
    · cases h
    · cases h
      exact ⟨rfl, rfl, fun q hq ↦ by cases hq⟩

theorem Ran.evolves {a : Activity} (ht : s.table[id]? = some ⟨.recv t, stamp⟩)
    (h : Ran a id t stamp s s') : Evolves s s' := by
  cases h with
  | ended _ hcreated htable =>
    refine .of_removed hcreated fun i e he ↦ ?_
    rw [htable] at he
    split at he
    · cases he
    · exact he
  | ready _ _ t' hsame hstate _ _ hcreated htable =>
    refine ⟨hcreated.ge, fun i e he ↦ ?_⟩
    rw [htable] at he
    split at he
    · rename_i hi
      cases he
      exact .thread (hi ▸ ht) hsame (.inl hstate)
    · exact .kept he
  | blocked c _ _ t' hsame hstate _ _ _ hcreated htable =>
    have hself : s'.table[id]? = some ⟨.recv t', stamp⟩ := (htable id).trans (if_pos rfl)
    refine ⟨by omega, fun i e he ↦ ?_⟩
    rw [htable] at he
    split at he
    · rename_i hi
      cases he
      exact .thread (hi ▸ ht) hsame (.inr hstate)
    · split at he
      · obtain ⟨query, hquery, rfl⟩ := Option.map_eq_some_iff.1 he
        obtain ⟨hunfinished, hrecv, htarget⟩ := query?_unfinished hquery
        refine .fresh (by omega) hunfinished (fun t₁ ht₁ ↦ ?_) fun q hq ↦
          ⟨_, (htarget q hq).symm ▸ hself, rfl⟩
        rw [ht₁] at hrecv
        cases hrecv
      · exact .kept he

theorem Notified.evolves {a : Activity} {resultsCreated : Bool}
    {inRemoteNodes : List NodeIdentLat} (hs : Sound s)
    (h : Notified a resultsCreated id inRemoteNodes s s') : Evolves s s' := by
  cases h with
  | idle h => exact h ▸ ⟨le_rfl, fun _ _ he ↦ .kept he⟩
  | ran ht hran _ => exact hran.evolves ht
  | returned _ _ _ h => exact h.evolves hs
  | stored hq h => exact h.evolves hq

theorem Scheduled.sound {a : Activity} (hs : Sound s) (h : Scheduled a s s') : Sound s' := by
  cases h with
  | idle _ h => exact h ▸ hs
  | dropped _ _ h => exact h ▸ ⟨hs.unfinished, hs.old, hs.state, hs.forward⟩
  | @ran id rest t stamp s₁ _ ht _ hran _ h =>
    have hs₀ : Sound { s with psList := rest } :=
      ⟨hs.unfinished, hs.old, hs.state, hs.forward⟩
    have hs₁ : Sound s₁ := hs₀.of_evolves (hran.evolves ht)
    rw [h]
    split
    · exact ⟨hs₁.unfinished, hs₁.old, hs₁.state, hs₁.forward⟩
    · exact hs₁

/-- What is left of a thread by the timeout of another query. -/
structure Faded (t t' : DSLRecvQuery D) : Prop where
  timeoutTV : t'.timeoutTV = t.timeoutTV
  call : t'.call = t.call
  blocked : t'.state = .blocked → t.state = .blocked

/-- A timeout brings nothing into the table. -/
theorem timeoutQuery_entry {resultsCreated : UInt64 → Bool} {e' : ThreadEntry D}
    (he' : (s.timeoutQuery resultsCreated id).table[i]? = some e') :
    i ≠ id ∧ (s.table[i]? = some e' ∨
      ∃ t t' stamp, s.table[i]? = some ⟨.recv t, stamp⟩ ∧ e' = ⟨.recv t', stamp⟩ ∧ Faded t t') := by
  obtain ⟨q, -, h⟩ | ⟨-, htable, -⟩ := timeoutQuery_cases resultsCreated id s
  · rw [h.table] at he'
    split at he'
    · cases he'
    · rename_i hi
      refine ⟨hi, ?_⟩
      split at he'
      · obtain ⟨⟨query, stamp⟩, he, rfl⟩ := Option.map_eq_some_iff.1 he'
        cases query with
        | recv t =>
          refine .inr ⟨t, returned (resultsCreated id) q.results t, stamp, he, rfl, ?_⟩
          cases resultsCreated id with
          | true => exact ⟨rfl, rfl, fun hblocked ↦ by cases hblocked⟩
          | false => exact ⟨rfl, rfl, fun hblocked ↦ hblocked⟩
        | req _ => exact .inl he
        | getDistance _ => exact .inl he
        | other _ => exact .inl he
      · exact .inl he'
  · rw [htable] at he'
    split at he'
    · cases he'
    · rename_i hi
      exact ⟨hi, .inl he'⟩

/-- After the loop none of its queries is in the table. -/
theorem foldl_timeoutQuery_entry {resultsCreated : UInt64 → Bool} {order : List UInt64}
    {e' : ThreadEntry D} (he' : (order.foldl (timeoutQuery resultsCreated) s).table[i]? = some e') :
    i ∉ order ∧ (s.table[i]? = some e' ∨
      ∃ t t' stamp, s.table[i]? = some ⟨.recv t, stamp⟩ ∧ e' = ⟨.recv t', stamp⟩ ∧ Faded t t') := by
  induction order generalizing s with
  | nil => exact ⟨List.not_mem_nil, .inl he'⟩
  | cons id order ih =>
    obtain ⟨hi, hrest⟩ := ih he'
    obtain he₁ | ⟨t₁, t', stamp, he₁, rfl, hfaded⟩ := hrest
    · obtain ⟨hne, hfirst⟩ := timeoutQuery_entry he₁
      exact ⟨by simp [hne, hi], hfirst⟩
    · obtain ⟨hne, he | ⟨t, t₂, stamp₂, he, heq, hfaded₁⟩⟩ := timeoutQuery_entry he₁
      · exact ⟨by simp [hne, hi], .inr ⟨t₁, t', stamp, he, rfl, hfaded⟩⟩
      · cases heq
        refine ⟨by simp [hne, hi], .inr ⟨t, t', stamp, he, rfl,
          hfaded.timeoutTV.trans hfaded₁.timeoutTV, hfaded.call.trans hfaded₁.call,
          fun hblocked ↦ hfaded₁.blocked (hfaded.blocked hblocked)⟩⟩

theorem mem_due {now : ℕ} :
    id ∈ s.due now ↔ ∃ e, s.table[id]? = some e ∧ ∃ d ∈ e.query.timeOut, d ≤ now := by
  rw [due, List.mem_map]
  constructor
  · rintro ⟨⟨i, e⟩, he, rfl⟩
    obtain ⟨hmem, hdue⟩ := List.mem_filter.1 he
    exact ⟨e, Std.ExtTreeMap.mem_toList_iff_getElem?_eq_some.1 hmem,
      by simpa [Option.any_eq_true] using hdue⟩
  · rintro ⟨e, he, hdue⟩
    refine ⟨(id, e), List.mem_filter.2 ⟨Std.ExtTreeMap.mem_toList_iff_getElem?_eq_some.2 he, ?_⟩,
      rfl⟩
    simpa [Option.any_eq_true] using hdue

theorem timeoutQuery_sound (resultsCreated : UInt64 → Bool) (id : UInt64) (hs : Sound s) :
    Sound (s.timeoutQuery resultsCreated id) := by
  obtain ⟨q, -, h⟩ | ⟨-, htable, -, hcreated, -⟩ := timeoutQuery_cases resultsCreated id s
  · exact hs.of_evolves (h.evolves hs)
  · refine hs.of_evolves (.of_removed hcreated fun i e he ↦ ?_)
    rw [htable] at he
    split at he
    · cases he
    · exact he

theorem foldl_timeoutQuery_sound (resultsCreated : UInt64 → Bool) (order : List UInt64)
    (hs : Sound s) : Sound (order.foldl (timeoutQuery resultsCreated) s) := by
  induction order generalizing s with
  | nil => exact hs
  | cons id order ih => exact ih (timeoutQuery_sound resultsCreated id hs)

theorem new_sound : Sound (new : Threads D) := by
  have hnone (i : UInt64) : (new : Threads D).table[i]? = none := Std.ExtTreeMap.getElem?_empty
  constructor
  · intro i e he
    rw [hnone] at he
    cases he
  · intro i e he
    rw [hnone] at he
    cases he
  · intro i t stamp ht
    rw [hnone] at ht
    cases ht
  · intro i q stamp e hq
    rw [hnone] at hq
    cases hq

/-- **A query table stays sound**, whatever happens. -/
theorem step_sound {ev : Event} (hs : Sound s) (h : step xdr magic s ev = some s') : Sound s' := by
  cases ev with
  | request id now timeoutMS astAllocationCount =>
    rw [step] at h
    split at h
    · exact Option.some.inj h ▸ hs
    · rename_i s₁ hs₁
      have hsound : Sound s₁ := hs.of_evolves
        (.of_insert hs₁ rfl (fun t ht ↦ .inl (by cases ht; rfl)) (fun _ h ↦ by cases h))
      exact Option.some.inj h ▸ ⟨hsound.unfinished, hsound.old, hsound.state, hsound.forward⟩
  | packet inPacket =>
    rw [step] at h
    split at h
    · exact Option.some.inj h ▸ hs
    · split at h
      · obtain rfl | ⟨tid, t, t', stamp, -, hreplied⟩ := notifyQPacket_cases hs h
        · exact hs
        · exact hs.of_evolves hreplied.evolves
      · exact Option.some.inj h ▸ hs
  -- whichever query the latency is for, the table evolves
  | latency id inRemoteNodes a resultsCreated =>
    rw [← Option.some.inj h]
    exact hs.of_evolves ((notifyQLatency_notified hs ..).evolves hs)
  | schedule a =>
    rw [← Option.some.inj h]
    exact (schedule_scheduled hs a).sound hs
  | timeout now order resultsCreated =>
    rw [step] at h
    split at h
    · rw [← Option.some.inj h]
      exact foldl_timeoutQuery_sound resultsCreated order hs
    · cases h
  | other id =>
    rw [← Option.some.inj h]
    cases hins : s.insertNewQuery id (.other false) with
    | none => exact hs
    | some s₁ =>
      exact hs.of_evolves (.of_insert hins rfl (fun _ ht ↦ by cases ht) (fun _ hq ↦ by cases hq))
  | otherFinished id =>
    rw [step] at h
    split at h
    · rename_i finished stamp he
      rw [← Option.some.inj h]
      refine hs.of_evolves (.of_removed (by simp) fun i e he' ↦ ?_)
      rw [table_updateTimeout, table_modify] at he'
      split at he'
      · rename_i hi
        rw [hi, he] at he'
        cases he'
      · exact he'
    · exact Option.some.inj h ▸ hs

/-- A datagram is never handed on more often than `notifyQPacket` allows for. -/
theorem notifyQPacket_isSome {fuel : ℕ} (hs : Sound s)
    (hfuel : ∀ e, s.table[id]? = some e → s.created - e.stamp < fuel) (hpos : 0 < fuel) :
    (s.notifyQPacket xdr magic inPacket fuel id).isSome := by
  induction fuel generalizing id with
  | zero => exact absurd hpos (Nat.lt_irrefl 0)
  | succ fuel ih =>
    rw [notifyQPacket]
    cases he : s.table[id]? with
    | none => rfl
    | some e =>
      obtain ⟨query, stamp⟩ := e
      cases query with
      | recv t =>
        dsimp only
        split <;> rfl
      | req q =>
        dsimp only
        rw [Option.isSome_map]
        have hold : stamp < s.created := hs.old id _ he
        have hlt : s.created - stamp < fuel + 1 := hfuel _ he
        have hpos' : 0 < fuel := by omega
        cases he' : s.table[q.recvQueryID]? with
        | none => exact ih (fun e h ↦ by rw [he'] at h; cases h) hpos'
        | some e' =>
          rcases hs.forward id q stamp e' he he' with hrecv | hnewer
          · -- the thread itself: nothing is handed on from there
            obtain ⟨fuel', rfl⟩ := Nat.exists_eq_succ_of_ne_zero hpos'.ne'
            obtain ⟨query', stamp'⟩ := e'
            rw [notifyQPacket, he']
            cases query' with
            | recv t =>
              dsimp only
              split <;> rfl
            | req _ => cases hrecv
            | getDistance _ => cases hrecv
            | other _ => cases hrecv
          · have hold' : e'.stamp < s.created := hs.old _ _ he'
            refine ih (fun e h ↦ ?_) hpos'
            rw [he'] at h
            cases h
            omega
      | getDistance q => rfl
      | other finished => rfl

/-- **No step gets stuck**, except for a timeout that is given the wrong queries. -/
theorem step_isSome (ev : Event) (hs : Sound s)
    (horder : ∀ now order resultsCreated, ev = .timeout now order resultsCreated →
      order.Perm (s.due now)) : (step xdr magic s ev).isSome := by
  cases ev with
  | request id now timeoutMS astAllocationCount =>
    rw [step]
    split <;> rfl
  | packet inPacket =>
    rw [step]
    split
    · rfl
    · split
      · exact notifyQPacket_isSome hs (fun e he ↦ by omega) (Nat.succ_pos _)
      · rfl
  | latency id inRemoteNodes a resultsCreated => rfl
  | schedule a => rfl
  | timeout now order resultsCreated =>
    rw [step, if_pos (List.isPerm_iff.2 (horder now order resultsCreated rfl))]
    rfl
  | other id => rfl
  | otherFinished id =>
    rw [step]
    split <;> rfl

end Threads

end Meridian

import Meridian.MQL.ValueCodec
import Meridian.Process.ThreadSteps

/-!
# Replies of remote calls

What `handleRPC` returns should have been sent as the answer to that very call, and a thread that is
in `get_distance` should not be resumed by a reply (`Attributed`).

Nothing in the code sees to it. A `DSLReqQuery` stays in the table after its reply, and hands every
further `DSL_REPLY` with its id to the thread, which takes it whatever it is doing: a duplicate of
the reply to one call resumes the next one. Apart from replies, a thread can be resumed out of an
`rpc` by a notification for a query that had its id before, and by the results of a `get_distance`
that a thread with the same id has made. In a run without these every reply is attributed
(`replies_attributed`).
-/

namespace Meridian

open Lib BufferWrapper MQL
open DSLRecvQuery (wake)

/-! ### The id of a reply -/

/-- What `parseHeader` and a `parse` read from the same buffer is the same. -/
theorem Packet.parseStart_eq_of_parseHeader {magic : UInt32} {type queryType : UInt8}
    {queryID id : UInt64} {magicNumber : UInt32} {inPacket : List UInt8} {bw : BufferWrapper}
    (hheader : BufferWrapper.parse (parseHeader magic) inPacket = some (queryType, queryID))
    (hstart : parseStart type (BufferWrapper.new inPacket) = some ((id, magicNumber), bw)) :
    queryType = type ∧ queryID = id := by
  obtain ⟨⟨_, bw'⟩, hheader, heq⟩ := Option.map_eq_some_iff.1 hheader
  obtain rfl : _ = (queryType, queryID) := heq
  obtain ⟨c, bw₁, hc, hheader⟩ := bind_eq_some.1 hheader
  obtain ⟨id1, bw₂, hid1, hheader⟩ := bind_eq_some.1 hheader
  obtain ⟨id2, bw₃, hid2, hheader⟩ := bind_eq_some.1 hheader
  obtain ⟨m, bw₄, -, hheader⟩ := bind_eq_some.1 hheader
  obtain ⟨-, bw₅, -, hheader⟩ := bind_eq_some.1 hheader
  obtain ⟨c', bw₁', hc', hstart⟩ := bind_eq_some.1 hstart
  obtain ⟨_, bw₂', hnull, hstart⟩ := bind_eq_some.1 hstart
  obtain ⟨id1', bw₃', hid1', hstart⟩ := bind_eq_some.1 hstart
  obtain ⟨id2', bw₄', hid2', hstart⟩ := bind_eq_some.1 hstart
  obtain ⟨m', bw₅', -, hstart⟩ := bind_eq_some.1 hstart
  cases hheader
  cases hstart
  obtain ⟨-, htype, rfl⟩ := nullIf_eq_some hnull
  rw [hc] at hc'
  cases hc'
  rw [hid1] at hid1'
  cases hid1'
  rw [hid2] at hid2'
  cases hid2'
  exact ⟨by simpa using htype, rfl⟩

/-- The header of what is parsed as a reply. -/
theorem DSLReplyPacket.parse_eq_some {D : Type} {xdr : XdrDouble D} {magic : UInt32}
    {u rest : UnmarshalState} {queryID : UInt64} {v : Value D}
    (h : DSLReplyPacket.parse xdr magic u = some ((queryID, v), rest)) :
    ∃ magicNumber bw, Packet.parseStart DSL_REPLY u.bw = some ((queryID, magicNumber), bw) := by
  obtain ⟨⟨id, m⟩, u₁, hstart, h⟩ := bind_eq_some.1 h
  obtain ⟨_, u₂, -, h⟩ := bind_eq_some.1 h
  obtain ⟨v', u₃, -, h⟩ := bind_eq_some.1 h
  cases h
  exact ⟨m, u₁.bw, Value.onBuffer_eq_some hstart⟩

namespace Threads

variable {D : Type} {s s' : Threads D} {id i : UInt64} {t : DSLRecvQuery D} {stamp : ℕ}
  {xdr : XdrDouble D} {magic : UInt32} {inPacket : List UInt8}

/-! ### The property -/

/-- The value was decoded from a `DSL_REPLY` with this id. -/
def Carries (xdr : XdrDouble D) (magic : UInt32) (queryID : UInt64) (rpcRecv : Value D)
    (rpcSource : Option (List UInt8)) : Prop :=
  ∃ inPacket allocated rest, rpcSource = some inPacket ∧
    DSLReplyPacket.parse xdr magic ⟨BufferWrapper.new inPacket, allocated⟩ =
      some ((queryID, rpcRecv), rest)

/-- A thread that goes on behind a call has been resumed by what it has asked for: behind an `rpc` it
finds a reply to it, and behind a `get_distance` it has not been woken by a reply. -/
def Attributed (xdr : XdrDouble D) (magic : UInt32) (r : Resumption D) : Prop :=
  match r.call.kind with
  | .rpc => Carries xdr magic r.call.qid r.rpcRecv r.rpcSource
  | .getDistance => r.wokenBy ≠ some .reply

/-- The results of this query would not go to a thread that is in an `rpc`. -/
def ResultsMatch (s : Threads D) (id : UInt64) : Prop :=
  ∀ (q : HandleGetDistance) (stamp : ℕ) (t : DSLRecvQuery D) (tstamp : ℕ) (c : Call),
    s.table[id]? = some ⟨.getDistance q, stamp⟩ →
    s.table[q.prevQID]? = some ⟨.recv t, tstamp⟩ → t.call = some c → c.kind = .getDistance

/-- The steps in which a thread gets only what it has asked for. A reply that reaches a thread in an
`rpc` carries the id of its request, and none reaches a thread that is blocked in `get_distance`;
another notification does not reach a thread that is blocked in an `rpc`, and neither do results. -/
def Matched (magic : UInt32) (s : Threads D) : Event → Prop
  | .packet inPacket => ∀ (queryID tid : UInt64) (t : DSLRecvQuery D) (stamp : ℕ) (c : Call),
      BufferWrapper.parse (Packet.parseHeader magic) inPacket = some (DSL_REPLY, queryID) →
      Forwards s queryID tid → s.table[tid]? = some ⟨.recv t, stamp⟩ → t.call = some c →
      (c.kind = .rpc ∧ c.qid = queryID) ∨ (c.kind = .getDistance ∧ t.state ≠ .blocked)
  | .latency id inRemoteNodes _ resultsCreated =>
      (∀ (t : DSLRecvQuery D) (stamp : ℕ) (c : Call), s.table[id]? = some ⟨.recv t, stamp⟩ →
        t.state = .blocked → t.call = some c → c.kind = .getDistance) ∧
      ∀ (q : HandleGetDistance) (stamp : ℕ), s.table[id]? = some ⟨.getDistance q, stamp⟩ →
        (q.handleLatency inRemoteNodes).2 = true → resultsCreated = true → s.ResultsMatch id
  | .timeout _ order resultsCreated =>
      AllSteps (fun s id ↦ resultsCreated id = true → s.ResultsMatch id)
        (fun s id ↦ some (timeoutQuery resultsCreated s id)) s order
  | _ => True

/-! ### The invariant -/

/-- What holds of a thread in a call. -/
structure Fits (xdr : XdrDouble D) (magic : UInt32) (t : DSLRecvQuery D) : Prop where
  rpc : ∀ c, t.call = some c → c.kind = .rpc → t.state ≠ .blocked →
    Carries xdr magic c.qid t.rpcRecv t.rpcSource
  getDistance : ∀ c, t.call = some c → c.kind = .getDistance → t.wokenBy ≠ some .reply

/-- What holds between two steps. -/
structure Replies (xdr : XdrDouble D) (magic : UInt32) (s : Threads D) : Prop where
  fits : ∀ (id : UInt64) (t : DSLRecvQuery D) (stamp : ℕ),
    s.table[id]? = some ⟨.recv t, stamp⟩ → Fits xdr magic t
  attributed : ∀ r ∈ s.resumptions, Attributed xdr magic r

/-- A thread that is in no call. -/
theorem Fits.of_call_eq_none (h : t.call = none) : Fits xdr magic t where
  rpc c hc := by
    rw [h] at hc
    cases hc
  getDistance c hc := by
    rw [h] at hc
    cases hc

/-- A thread that has just been blocked. -/
theorem Fits.of_blocked (hstate : t.state = .blocked) (hwoken : t.wokenBy = none) :
    Fits xdr magic t where
  rpc _ _ _ hne := absurd hstate hne
  getDistance _ _ _ := by
    rw [hwoken]
    simp

/-- The record of a thread that goes on. -/
theorem Fits.attributed {r : Resumption D} (h : Fits xdr magic t)
    (hblocked : ∀ c, t.state = .blocked → t.call = some c → c.kind = .getDistance)
    (hr : r ∈ t.resumption?.toList) : Attributed xdr magic r := by
  obtain ⟨c, hc, rfl⟩ := Option.map_eq_some_iff.1 (Option.mem_toList.1 hr)
  rw [Attributed]
  split
  · rename_i hkind
    refine h.rpc c hc hkind fun hstate ↦ ?_
    have hother := hblocked c hstate hc
    rw [hother] at hkind
    cases hkind
  · rename_i hkind
    exact h.getDistance c hc hkind

/-- Every thread of the new state is one of the old state, or is as it should be. -/
theorem Replies.of_threads (h : Replies xdr magic s)
    (hthreads : ∀ (id : UInt64) (t : DSLRecvQuery D) (stamp : ℕ),
      s'.table[id]? = some ⟨.recv t, stamp⟩ →
        s.table[id]? = some ⟨.recv t, stamp⟩ ∨ Fits xdr magic t)
    (hres : ∀ r ∈ s'.resumptions, r ∈ s.resumptions ∨ Attributed xdr magic r) :
    Replies xdr magic s' where
  fits id t stamp ht := (hthreads id t stamp ht).elim (h.fits id t stamp) fun hfits ↦ hfits
  attributed r hr := (hres r hr).elim (h.attributed r) fun hr ↦ hr

/-! ### The steps -/

theorem Replies.of_returned (h : Replies xdr magic s) {q q' : HandleGetDistance}
    {resultsCreated : Bool} (hq : s.table[id]? = some ⟨.getDistance q, stamp⟩)
    (hprev : q'.prevQID = q.prevQID) (hreturned : Returned resultsCreated id q' s s')
    (hmatch : resultsCreated = true → s.ResultsMatch id) : Replies xdr magic s' := by
  refine h.of_threads (fun tid t' tstamp ht' ↦ ?_) fun r hr ↦ .inl (hreturned.resumptions ▸ hr)
  rw [hreturned.table] at ht'
  split at ht'
  · cases ht'
  · split at ht'
    · rename_i htid
      obtain ⟨⟨query, stamp₀⟩, he, hmodify⟩ := Option.map_eq_some_iff.1 ht'
      cases query with
      | recv t =>
        cases hmodify
        have hfits := h.fits tid t stamp₀ he
        cases resultsCreated with
        | true =>
          -- the thread is in a `get_distance`, if it is in a call at all
          have hkind (c : Call) (hc : t.call = some c) : c.kind = .getDistance :=
            hmatch rfl q stamp t stamp₀ c hq ((htid.trans hprev) ▸ he) hc
          refine .inr ⟨fun c hc hrpc _ ↦ ?_, fun c hc hget ↦ ?_⟩
          · rw [hkind c hc] at hrpc
            cases hrpc
          · change (if t.state = .blocked then some Waker.results else t.wokenBy) ≠ some .reply
            split
            · simp
            · exact hfits.getDistance c hc hget
        | false => exact .inr ⟨hfits.rpc, hfits.getDistance⟩
      | req _ => cases hmodify
      | getDistance _ => cases hmodify
      | other _ => cases hmodify
    · exact .inl ht'

theorem Replies.of_ran (h : Replies xdr magic s) {a : Activity}
    (ht : s.table[id]? = some ⟨.recv t, stamp⟩)
    (hblocked : ∀ c, t.state = .blocked → t.call = some c → c.kind = .getDistance)
    (hran : Ran a id t stamp s s') (hres : s'.resumptions = s.resumptions ++ t.resumption?.toList) :
    Replies xdr magic s' := by
  refine h.of_threads (fun tid t' tstamp ht' ↦ ?_) fun r hr ↦ ?_
  · cases hran with
    | ended _ _ htable =>
      rw [htable] at ht'
      split at ht'
      · cases ht'
      · exact .inl ht'
    | ready _ _ t₁ _ _ hcall _ _ htable =>
      rw [htable] at ht'
      split at ht'
      · cases ht'
        exact .inr (.of_call_eq_none hcall)
      · exact .inl ht'
    | blocked c _ _ t₁ _ hstate _ hwoken _ _ htable =>
      rw [htable] at ht'
      split at ht'
      · cases ht'
        exact .inr (.of_blocked hstate hwoken)
      · split at ht'
        · obtain ⟨query, hquery, heq⟩ := Option.map_eq_some_iff.1 ht'
          have hrecv := (query?_unfinished hquery).2.1
          cases heq
          cases hrecv
        · exact .inl ht'
  · rw [hres] at hr
    rcases List.mem_append.1 hr with hr | hr
    · exact .inl hr
    · exact .inr ((h.fits id t stamp ht).attributed hblocked hr)

theorem Replies.of_replied (h : Replies xdr magic s) {queryType : UInt8} {queryID tid : UInt64}
    {t' : DSLRecvQuery D}
    (hheader : BufferWrapper.parse (Packet.parseHeader magic) inPacket = some (queryType, queryID))
    (hmatched : s.Matched magic (.packet inPacket)) (hforwards : Forwards s queryID tid)
    (hreplied : Replied xdr magic inPacket tid t t' stamp s s') : Replies xdr magic s' := by
  obtain ⟨-, hstate, hcall, hwoken, hsource, allocated, id, rest, hparse⟩ :=
    handleEvent_eq_some hreplied.reply
  obtain ⟨m, bw, hstart⟩ := DSLReplyPacket.parse_eq_some hparse
  obtain ⟨rfl, rfl⟩ := Packet.parseStart_eq_of_parseHeader hheader hstart
  refine h.of_threads (fun i t₁ stamp₁ ht₁ ↦ ?_) fun r hr ↦ .inl (hreplied.resumptions ▸ hr)
  rw [hreplied.table] at ht₁
  split at ht₁
  · cases ht₁
    have hfor (c : Call) (hc : t'.call = some c) :=
      hmatched queryID tid t stamp c hheader hforwards hreplied.thread (hcall ▸ hc)
    refine .inr ⟨fun c hc hrpc _ ↦ ?_, fun c hc hget ↦ ?_⟩
    · obtain ⟨-, hqid⟩ | ⟨hget, -⟩ := hfor c hc
      · exact hqid ▸ ⟨inPacket, allocated, rest, hsource, hparse⟩
      · rw [hget] at hrpc
        cases hrpc
    · obtain ⟨hrpc, -⟩ | ⟨-, hblocked⟩ := hfor c hc
      · rw [hrpc] at hget
        cases hget
      · rw [hwoken, if_neg hblocked]
        exact (h.fits tid t stamp hreplied.thread).getDistance c (hcall ▸ hc) hget
  · exact .inl ht₁

/-- Queries other than threads come and go. -/
theorem Replies.of_kept (h : Replies xdr magic s)
    (htable : ∀ (id : UInt64) (t : DSLRecvQuery D) (stamp : ℕ),
      s'.table[id]? = some ⟨.recv t, stamp⟩ → s.table[id]? = some ⟨.recv t, stamp⟩)
    (hres : s'.resumptions = s.resumptions) : Replies xdr magic s' :=
  h.of_threads (fun id t stamp ht ↦ .inl (htable id t stamp ht)) fun _ hr ↦ .inl (hres ▸ hr)

theorem Replies.of_timeouts {resultsCreated : UInt64 → Bool} {order : List UInt64}
    (h : Replies xdr magic s)
    (hmatched : AllSteps (fun s id ↦ resultsCreated id = true → s.ResultsMatch id)
      (fun s id ↦ some (timeoutQuery resultsCreated s id)) s order) :
    Replies xdr magic (order.foldl (timeoutQuery resultsCreated) s) := by
  induction order generalizing s with
  | nil => exact h
  | cons id order ih =>
    refine ih ?_ (hmatched.2 _ rfl)
    obtain ⟨q, ⟨stamp, hq⟩, hreturned⟩ | ⟨-, htable, -, -, hres⟩ :=
      timeoutQuery_cases resultsCreated id s
    · exact h.of_returned hq rfl hreturned hmatched.1
    · refine h.of_kept (fun i t stamp ht ↦ ?_) hres
      rw [htable] at ht
      split at ht
      · cases ht
      · exact ht

/-- **A step in which a thread gets only what it has asked for** keeps every reply attributed. -/
theorem step_replies {ev : Event} (hs : Sound s) (h : Replies xdr magic s)
    (hmatched : s.Matched magic ev) (hstep : step xdr magic s ev = some s') :
    Replies xdr magic s' := by
  cases ev with
  | request id now timeoutMS astAllocationCount =>
    rw [step] at hstep
    split at hstep
    · exact Option.some.inj hstep ▸ h
    · rename_i s₁ hs₁
      obtain ⟨-, -, -, hres, htable⟩ := insertNewQuery_eq_some hs₁
      rw [← Option.some.inj hstep]
      refine h.of_threads (fun i t stamp ht ↦ ?_) fun r hr ↦ .inl (hres ▸ hr)
      rw [table_addPS, htable] at ht
      split at ht
      · cases ht
        exact .inr (.of_call_eq_none rfl)
      · exact .inl ht
  | packet inPacket =>
    rw [step] at hstep
    split at hstep
    · exact Option.some.inj hstep ▸ h
    · rename_i queryType queryID hheader
      split at hstep
      · obtain rfl | ⟨tid, t, t', stamp, hforwards, hreplied⟩ := notifyQPacket_cases hs hstep
        · exact h
        · exact h.of_replied hheader hmatched hforwards hreplied
      · exact Option.some.inj hstep ▸ h
  | latency id inRemoteNodes a resultsCreated =>
    obtain ⟨hthread, hresults⟩ := hmatched
    rw [← Option.some.inj hstep]
    cases notifyQLatency_notified hs a resultsCreated id inRemoteNodes with
    | idle heq =>
      rw [heq]
      exact h
    | @ran t stamp ht hran hres =>
      exact h.of_ran ht (fun c hblocked hc ↦ hthread t stamp c ht hblocked hc) hran hres
    | @returned q q' stamp hq hreturns hprev hreturned =>
      exact h.of_returned hq hprev hreturned (hresults q stamp hq hreturns)
    | stored hq hstored =>
      obtain ⟨q', -, -, -, htable⟩ := hstored.table
      refine h.of_kept (fun i t stamp ht ↦ ?_) hstored.resumptions
      rw [htable] at ht
      split at ht
      · cases ht
      · exact ht
  | schedule a =>
    rw [← Option.some.inj hstep]
    cases schedule_scheduled hs a with
    | idle _ heq =>
      rw [heq]
      exact h
    | dropped _ _ heq =>
      rw [heq]
      exact ⟨h.fits, h.attributed⟩
    | @ran id rest t stamp s₁ hps ht hblocked hran hres heq =>
      have h₀ : Replies xdr magic { s with psList := rest } := ⟨h.fits, h.attributed⟩
      have h₁ : Replies xdr magic s₁ :=
        h₀.of_ran ht (fun c hstate _ ↦ absurd hstate hblocked) hran hres
      rw [heq]
      split
      · exact ⟨h₁.fits, h₁.attributed⟩
      · exact h₁
  | timeout now order resultsCreated =>
    rw [step] at hstep
    split at hstep
    · rw [← Option.some.inj hstep]
      exact h.of_timeouts hmatched
    · cases hstep
  | other id =>
    rw [← Option.some.inj hstep]
    cases hins : s.insertNewQuery id (.other false) with
    | none => exact h
    | some s₁ =>
      obtain ⟨-, -, -, hres, htable⟩ := insertNewQuery_eq_some hins
      refine h.of_kept (fun i t stamp ht ↦ ?_) hres
      rw [Option.getD_some, htable] at ht
      split at ht
      · cases ht
      · exact ht
  | otherFinished id =>
    rw [step] at hstep
    split at hstep
    · rename_i finished stamp he
      rw [← Option.some.inj hstep]
      refine h.of_kept (fun i t stamp ht ↦ ?_) (by simp)
      rw [table_updateTimeout, table_modify] at ht
      split at ht
      · rename_i hi
        rw [hi, he] at ht
        cases ht
      · exact ht
    · exact Option.some.inj hstep ▸ h

/-- **Every reply is attributed**, in every run in which threads get only what they have asked
for. -/
theorem replies_attributed {evs : List Event}
    (h : run (step xdr magic) (new : Threads D) evs = some s)
    (hmatched : AllSteps (Matched magic) (step xdr magic) (new : Threads D) evs) :
    ∀ r ∈ s.resumptions, Attributed xdr magic r := by
  have hnew : Sound (new : Threads D) ∧ Replies xdr magic (new : Threads D) := by
    refine ⟨new_sound, fun id t stamp ht ↦ ?_, fun r hr ↦ absurd hr List.not_mem_nil⟩
    rw [show (new : Threads D).table[id]? = none from Std.ExtTreeMap.getElem?_empty] at ht
    cases ht
  exact (run_invariant (P := fun s ↦ Sound s ∧ Replies xdr magic s)
    (fun s ev s' ⟨hs, hreplies⟩ hg hstep ↦
      ⟨step_sound hs hstep, step_replies hs hreplies hg hstep⟩) hnew hmatched h).2.attributed

/-- A request hands what it is sent straight to its thread. -/
theorem Forwards.thread_eq {q : DSLReqQuery} {rstamp tstamp : ℕ} {tid : UInt64}
    {t' : DSLRecvQuery D} (hq : s.table[id]? = some ⟨.req q, rstamp⟩)
    (ht : s.table[q.recvQueryID]? = some ⟨.recv t, tstamp⟩) (h : Forwards s id tid)
    (ht' : s.table[tid]? = some ⟨.recv t', stamp⟩) : t' = t := by
  cases h with
  | here =>
    rw [hq] at ht'
    cases ht'
  | forward hq' h =>
    rw [hq] at hq'
    cases hq'
    cases h with
    | here =>
      rw [ht] at ht'
      cases ht'
      rfl
    | forward hq' _ =>
      rw [ht] at hq'
      cases hq'

/-- A reply to request 2: the number 5. -/
def replyTo2 : List UInt8 := [25, 0, 0, 0, 0, 0, 0, 0, 2, 0, 0, 0, 7, 0, 0, 0, 1, 0, 0, 0, 5]

/-- A thread gets the reply to its call. -/
theorem replies_attributed_once :
    ∃ s : Threads UInt64, run (step Value.bitsXdr 7) new
        [.request 1 0 1000 0, .schedule ⟨[.rpc 2], .done, 0⟩, .packet replyTo2,
          .schedule ⟨[], .done, 0⟩] = some s ∧
      s.resumptions.map Resumption.call = [⟨.rpc, 2, 1⟩] ∧
      ∀ r ∈ s.resumptions, Attributed Value.bitsXdr 7 r := by
  obtain ⟨s, hs, hcalls⟩ := Option.map_eq_some_iff.1
    (show (run (step Value.bitsXdr 7) (new : Threads UInt64)
      [.request 1 0 1000 0, .schedule ⟨[.rpc 2], .done, 0⟩, .packet replyTo2,
        .schedule ⟨[], .done, 0⟩]).map (fun s ↦ s.resumptions.map Resumption.call) =
        some [⟨.rpc, 2, 1⟩] by decide +kernel)
  refine ⟨s, hs, hcalls, replies_attributed hs ⟨trivial, fun s₁ hs₁ ↦ ⟨trivial, fun s₂ hs₂ ↦
    ⟨?_, fun s₃ _ ↦ ⟨trivial, fun _ _ ↦ trivial⟩⟩⟩⟩⟩
  have hrun : run (step Value.bitsXdr 7) (new : Threads UInt64)
      [.request 1 0 1000 0, .schedule ⟨[.rpc 2], .done, 0⟩] = some s₂ := by
    rw [run_cons, hs₁, Option.bind_some, run_cons, hs₂]
    rfl
  have hstate : (s₂.table[(2 : UInt64)]?.map fun e ↦ e.query.req?.map (·.recvQueryID),
      (s₂.getDSLRecvQ 1).map (·.call)) = (some (some 1), some (some ⟨.rpc, 2, 1⟩)) := by
    have heval : (run (step Value.bitsXdr 7) (new : Threads UInt64)
        [.request 1 0 1000 0, .schedule ⟨[.rpc 2], .done, 0⟩]).map (fun s ↦
          (s.table[(2 : UInt64)]?.map fun e ↦ e.query.req?.map (·.recvQueryID),
            (s.getDSLRecvQ 1).map (·.call))) =
        some (some (some 1), some (some ⟨.rpc, 2, 1⟩)) := by
      decide +kernel
    rw [hrun] at heval
    exact Option.some.inj heval
  obtain ⟨hreq, hthread⟩ := Prod.mk.inj hstate
  obtain ⟨⟨query, rstamp⟩, he, hquery⟩ := Option.map_eq_some_iff.1 hreq
  obtain ⟨t₁, ht₁, hcall⟩ := Option.map_eq_some_iff.1 hthread
  obtain ⟨tstamp, ht₁⟩ := getDSLRecvQ_eq_some.1 ht₁
  cases query with
  | req q =>
    obtain ⟨finished, timeoutTV, recvQueryID⟩ := q
    obtain rfl : recvQueryID = 1 := Option.some.inj hquery
    intro queryID tid t stamp c hheader hforwards ht hc
    rw [show BufferWrapper.parse (Packet.parseHeader 7) replyTo2 = some (DSL_REPLY, 2) by decide]
      at hheader
    cases hheader
    obtain rfl := hforwards.thread_eq he ht₁ ht
    rw [hcall] at hc
    cases hc
    exact .inl ⟨rfl, rfl⟩
  | recv _ => cases hquery
  | getDistance _ => cases hquery
  | other _ => cases hquery

/-- **A duplicate of the reply to one call answers the next one.** -/
theorem reply_misattributed :
    ¬ ∀ (evs : List Event) (s : Threads UInt64),
      run (step Value.bitsXdr 7) new evs = some s →
        ∀ r ∈ s.resumptions, Attributed Value.bitsXdr 7 r := by
  intro h
  obtain ⟨s, hs, hrecords⟩ := Option.map_eq_some_iff.1
    (show (run (step Value.bitsXdr 7) (new : Threads UInt64)
      [.request 1 0 1000 0, .schedule ⟨[.rpc 2], .done, 0⟩, .packet replyTo2,
        .schedule ⟨[.rpc 3], .done, 0⟩, .packet replyTo2, .schedule ⟨[], .done, 0⟩]).map
        (fun s ↦ s.resumptions.map fun r ↦ (r.call, r.rpcSource)) =
        some [(⟨.rpc, 2, 1⟩, some replyTo2), (⟨.rpc, 3, 2⟩, some replyTo2)] by
      decide +kernel)
  obtain ⟨r, hr, heq⟩ : ∃ r ∈ s.resumptions, (r.call, r.rpcSource) =
      (⟨.rpc, 3, 2⟩, some replyTo2) := by
    rw [← List.mem_map, hrecords]
    exact List.mem_cons_of_mem _ (List.mem_singleton_self _)
  obtain ⟨hcall, hsource⟩ := Prod.mk.inj heq
  have hattributed := h _ s hs r hr
  rw [Attributed, hcall] at hattributed
  obtain ⟨inPacket, allocated, rest, hpacket, hparse⟩ := hattributed
  rw [hsource] at hpacket
  cases hpacket
  -- whatever has been allocated, the id of that packet is 2
  obtain ⟨m, bw, hstart⟩ := DSLReplyPacket.parse_eq_some hparse
  have hid := (Packet.parseStart_eq_of_parseHeader
    (show BufferWrapper.parse (Packet.parseHeader 7) replyTo2 = some (DSL_REPLY, 2) by decide)
    hstart).2
  exact absurd hid (by decide)

end Threads

end Meridian

import Meridian.MQL.ValueCodec
import Meridian.Process.ThreadSteps
import Mathlib.Tactic.FinCases

/-!
# Threads that wait

A blocked thread should be waiting for something: the query that its call has created should be in
the table, for only that query, or the deadline of the thread, will make it runnable again. And a
runnable thread should be on the list that the scheduler goes through (`Awake`).

`get_distance` breaks the first in two ways. Its query is started before the thread is marked as
blocked, and without sources it finishes then and there: its wakeup comes too early. And if there is
no memory for the results, `returnResults` leaves without one. The second is broken by a
notification that is meant for a query which had the id before: a blocked thread goes on, and is not
on the list when it has used up its evaluation count. Nothing else does (`no_lost_wakeup`).
-/

namespace Meridian

open Lib BufferWrapper MQL
open DSLRecvQuery (wake)

namespace Threads

variable {D : Type} {s s' : Threads D} {id i : UInt64} {t : DSLRecvQuery D} {stamp : ℕ}
  {xdr : XdrDouble D} {magic : UInt32} {inPacket : List UInt8}

/-! ### The property -/

/-- The query that a call of thread `id` has created is in the table, and is not finished. -/
def HasQuery (s : Threads D) (id : UInt64) (c : Call) : Prop :=
  match c.kind with
  | .rpc => ∃ q : DSLReqQuery, s.table[c.qid]? = some ⟨.req q, c.stamp⟩ ∧ q.finished = false ∧
      q.recvQueryID = id
  | .getDistance => ∃ q : HandleGetDistance, s.table[c.qid]? = some ⟨.getDistance q, c.stamp⟩ ∧
      q.finished = false ∧ q.prevQID = id

/-- No thread waits in vain, and no runnable thread is forgotten. -/
structure Awake (s : Threads D) : Prop where
  blocked : ∀ (id : UInt64) (t : DSLRecvQuery D) (stamp : ℕ),
    s.table[id]? = some ⟨.recv t, stamp⟩ → t.state = .blocked →
      ∃ c, t.call = some c ∧ s.HasQuery id c
  ready : ∀ (id : UInt64) (t : DSLRecvQuery D) (stamp : ℕ),
    s.table[id]? = some ⟨.recv t, stamp⟩ → t.state = .ready → id ∈ s.psList

/-- A call that does not ask for the distances from no nodes. -/
def HasSources : ThreadCall → Prop
  | .rpc _ => True
  | .getDistance _ srcNodes _ _ _ _ => srcNodes ≠ []

/-- A thread is blocked in the `get_distance` that has created this query. -/
def Awaited (s : Threads D) (id : UInt64) : Prop :=
  ∃ (q : HandleGetDistance) (stamp : ℕ) (t : DSLRecvQuery D) (tstamp : ℕ),
    s.table[id]? = some ⟨.getDistance q, stamp⟩ ∧
    s.table[q.prevQID]? = some ⟨.recv t, tstamp⟩ ∧
    t.state = .blocked ∧ t.call = some ⟨.getDistance, id, stamp⟩

/-- The steps that lose no wakeup. No thread blocks in a `get_distance` without sources; there is
memory for results that a thread waits for; and no thread that a call has blocked gets a
notification behind which it uses up its evaluation count. -/
def Wakeful (s : Threads D) : Event → Prop
  | .latency id _ a resultsCreated =>
    (∀ c, s.blockingCall a = some c → HasSources c) ∧
    (s.Awaited id → resultsCreated = true) ∧
    ∀ (t : DSLRecvQuery D) (stamp : ℕ), s.table[id]? = some ⟨.recv t, stamp⟩ →
      t.state = .blocked → s.blockingCall a = none → a.finish ≠ .ready
  | .schedule a => ∀ c, s.blockingCall a = some c → HasSources c
  | .timeout _ order resultsCreated => ∀ id ∈ order, s.Awaited id → resultsCreated id = true
  | _ => True

/-! ### The invariant -/

/-- An entry of the table is the query that thread `t` waits for in call `c`. A request has the
deadline of its thread, so that both go at once. -/
def Answers (id : UInt64) (t : DSLRecvQuery D) (c : Call) (e : ThreadEntry D) : Prop :=
  e.stamp = c.stamp ∧
  match c.kind with
  | .rpc => ∃ q, e.query = .req q ∧ q.recvQueryID = id ∧ q.timeoutTV = t.timeoutTV
  | .getDistance => ∃ q, e.query = .getDistance q ∧ q.prevQID = id

/-- What holds between two steps, but for the threads with a deadline in `exempt`. -/
structure Waiting (exempt : ℕ → Prop) (s : Threads D) : Prop where
  blocked : ∀ (id : UInt64) (t : DSLRecvQuery D) (stamp : ℕ),
    s.table[id]? = some ⟨.recv t, stamp⟩ → t.state = .blocked → ¬exempt t.timeoutTV →
      ∃ c e, t.call = some c ∧ s.table[c.qid]? = some e ∧ Answers id t c e
  ready : ∀ (id : UInt64) (t : DSLRecvQuery D) (stamp : ℕ),
    s.table[id]? = some ⟨.recv t, stamp⟩ → t.state = .ready → id ∈ s.psList

variable {exempt : ℕ → Prop}

theorem Answers.recv?_eq_none {c : Call} {e : ThreadEntry D} (h : Answers id t c e) :
    e.query.recv? = none := by
  obtain ⟨-, h⟩ := h
  split at h
  · obtain ⟨q, hq, -⟩ := h
    rw [hq]
    rfl
  · obtain ⟨q, hq, -⟩ := h
    rw [hq]
    rfl

/-- The thread itself is not the query that it waits for. -/
theorem Answers.ne {c : Call} {e : ThreadEntry D} (h : Answers id t c e)
    (he : s.table[c.qid]? = some e) {tid : UInt64} {t' : DSLRecvQuery D}
    (ht : s.table[tid]? = some ⟨.recv t', stamp⟩) : c.qid ≠ tid := by
  rintro rfl
  rw [ht] at he
  cases he
  cases h.recv?_eq_none

theorem Waiting.awake (hs : Sound s) (h : Waiting (fun _ ↦ False) s) : Awake s where
  blocked id t stamp ht hblocked := by
    obtain ⟨c, e, hc, he, hstamp, hanswers⟩ := h.blocked id t stamp ht hblocked not_false
    have hunfinished := hs.unfinished _ e he
    refine ⟨c, hc, ?_⟩
    obtain ⟨query, estamp⟩ := e
    obtain rfl : estamp = c.stamp := hstamp
    rw [HasQuery]
    split at hanswers
    · obtain ⟨q, rfl, hid, -⟩ := hanswers
      exact ⟨q, he, hunfinished, hid⟩
    · obtain ⟨q, rfl, hid⟩ := hanswers
      exact ⟨q, he, hunfinished, hid⟩
  ready := h.ready

/-! ### The steps -/

/-- A query that no thread waits for has gone. -/
theorem Waiting.of_removed (h : Waiting exempt s)
    (htable : ∀ i, s'.table[i]? = if i = id then none else s.table[i]?)
    (hps : s.psList ⊆ s'.psList)
    (hfree : ∀ (tid : UInt64) (t : DSLRecvQuery D) (tstamp : ℕ) (c : Call) (e : ThreadEntry D),
      s.table[tid]? = some ⟨.recv t, tstamp⟩ → s.table[id]? = some e → Answers tid t c e →
        exempt t.timeoutTV) : Waiting exempt s' where
  blocked tid t stamp ht hblocked hexempt := by
    rw [htable] at ht
    split at ht
    · cases ht
    · obtain ⟨c, e, hc, he, hanswers⟩ := h.blocked tid t stamp ht hblocked hexempt
      refine ⟨c, e, hc, ?_, hanswers⟩
      rw [htable, if_neg]
      · exact he
      · rintro hid
        exact hexempt (hfree tid t stamp c e ht (hid ▸ he) hanswers)
  ready tid t stamp ht hready := by
    rw [htable] at ht
    split at ht
    · cases ht
    · exact hps (h.ready tid t stamp ht hready)

/-- A query has been inserted that is not a thread, or is a runnable one on the list. -/
theorem Waiting.of_inserted (h : Waiting exempt s) {e : ThreadEntry D} (hfree : s.table[id]? = none)
    (htable : ∀ i, s'.table[i]? = if i = id then some e else s.table[i]?)
    (hps : s.psList ⊆ s'.psList)
    (hnew : ∀ t, e.query = .recv t → t.state = .ready ∧ id ∈ s'.psList) : Waiting exempt s' where
  blocked tid t stamp ht hblocked hexempt := by
    rw [htable] at ht
    split at ht
    · cases ht
      rw [(hnew t rfl).1] at hblocked
      cases hblocked
    · obtain ⟨c, e', hc, he, hanswers⟩ := h.blocked tid t stamp ht hblocked hexempt
      refine ⟨c, e', hc, ?_, hanswers⟩
      rw [htable, if_neg]
      · exact he
      · rintro hid
        rw [hid, hfree] at he
        cases he
  ready tid t stamp ht hready := by
    rw [htable] at ht
    split at ht
    · rename_i hid
      cases ht
      exact hid ▸ (hnew t rfl).2
    · exact hps (h.ready tid t stamp ht hready)

/-- One thread has changed: it is not blocked any more, or waits for a query of the table. -/
theorem Waiting.of_thread (h : Waiting exempt s) {t' : DSLRecvQuery D}
    (ht : s.table[id]? = some ⟨.recv t, stamp⟩)
    (htable : ∀ i, i ≠ id → ∀ e, s.table[i]? = some e → s'.table[i]? = some e)
    (hother : ∀ i, i ≠ id → ∀ t stamp, s'.table[i]? = some ⟨.recv t, stamp⟩ →
      s.table[i]? = some ⟨.recv t, stamp⟩)
    (hself : s'.table[id]? = some ⟨.recv t', stamp⟩) (hps : s.psList ⊆ s'.psList)
    (hblocked : t'.state = .blocked → ∃ c e, t'.call = some c ∧ s'.table[c.qid]? = some e ∧
      Answers id t' c e)
    (hready : t'.state = .ready → id ∈ s'.psList) : Waiting exempt s' where
  blocked tid t₁ stamp₁ ht₁ hblocked₁ hexempt := by
    by_cases hid : tid = id
    · rw [hid, hself] at ht₁
      cases ht₁
      exact hid ▸ hblocked hblocked₁
    · obtain ⟨c, e, hc, he, hanswers⟩ :=
        h.blocked tid t₁ stamp₁ (hother tid hid t₁ stamp₁ ht₁) hblocked₁ hexempt
      exact ⟨c, e, hc, htable c.qid (hanswers.ne he ht) e he, hanswers⟩
  ready tid t₁ stamp₁ ht₁ hready₁ := by
    by_cases hid : tid = id
    · rw [hid, hself] at ht₁
      cases ht₁
      exact hid ▸ hready hready₁
    · exact hps (h.ready tid t₁ stamp₁ (hother tid hid t₁ stamp₁ ht₁) hready₁)

/-- Results have been returned: the thread that waits for them is runnable now. -/
theorem Waiting.of_returned (h : Waiting exempt s) {q q' : HandleGetDistance} {resultsCreated : Bool}
    (hq : s.table[id]? = some ⟨.getDistance q, stamp⟩) (hprev : q'.prevQID = q.prevQID)
    (hreturned : Returned resultsCreated id q' s s') (hok : s.Awaited id → resultsCreated = true) :
    Waiting exempt s' := by
  have hkept (j : UInt64) (e : ThreadEntry D) (hj : j ≠ id) (he : s.table[j]? = some e)
      (hrecv : e.query.recv? = none) : s'.table[j]? = some e := by
    rw [hreturned.table, if_neg hj, he, Option.map_some, modify_onRecv_of_recv? hrecv, ite_self]
  -- a blocked thread that these results do not wake keeps the query that it waits for
  have hstays (tid : UInt64) (t : DSLRecvQuery D) (tstamp : ℕ)
      (ht : s.table[tid]? = some ⟨.recv t, tstamp⟩) (hblocked : t.state = .blocked)
      (hexempt : ¬exempt t.timeoutTV) (hwaits : tid = q.prevQID → resultsCreated = false) :
      ∃ c e, t.call = some c ∧ s'.table[c.qid]? = some e ∧ Answers tid t c e := by
    obtain ⟨c, e, hc, he, hanswers⟩ := h.blocked tid t tstamp ht hblocked hexempt
    refine ⟨c, e, hc, hkept c.qid e ?_ he hanswers.recv?_eq_none, hanswers⟩
    rintro hid
    rw [hid, hq] at he
    cases he
    obtain ⟨kind, qid, cstamp⟩ := c
    obtain ⟨rfl, hquery⟩ := hanswers
    cases kind with
    | rpc =>
      obtain ⟨_, hreq, -⟩ := hquery
      cases hreq
    | getDistance =>
      obtain ⟨_, hself, htid⟩ := hquery
      cases hself
      have hawaited : s.Awaited id :=
        ⟨q, stamp, t, tstamp, hq, htid ▸ ht, hblocked, by rw [hc, ← hid]⟩
      have hfalse := hwaits htid.symm
      rw [hok hawaited] at hfalse
      cases hfalse
  -- a thread of the new table was in the old one, and only the caller is changed
  have hthread (tid : UInt64) (t' : DSLRecvQuery D) (tstamp : ℕ)
      (ht : s'.table[tid]? = some ⟨.recv t', tstamp⟩) :
      tid ≠ id ∧ ∃ t, s.table[tid]? = some ⟨.recv t, tstamp⟩ ∧
        t' = if tid = q'.prevQID then returned resultsCreated q'.results t else t := by
    rw [hreturned.table] at ht
    split at ht
    · cases ht
    · rename_i hne
      refine ⟨hne, ?_⟩
      split at ht
      · rename_i htid
        obtain ⟨⟨query, stamp₀⟩, he, hmodify⟩ := Option.map_eq_some_iff.1 ht
        cases query with
        | recv t =>
          cases hmodify
          exact ⟨t, he, (if_pos htid).symm⟩
        | req _ => cases hmodify
        | getDistance _ => cases hmodify
        | other _ => cases hmodify
      · rename_i htid
        exact ⟨t', ht, (if_neg htid).symm⟩
  refine ⟨fun tid t' tstamp ht' hblocked hexempt ↦ ?_, fun tid t' tstamp ht' hready ↦ ?_⟩
  · obtain ⟨-, t, ht, rfl⟩ := hthread tid t' tstamp ht'
    split at hblocked
    · rename_i htid
      rw [if_pos htid] at hexempt ⊢
      cases resultsCreated with
      | true => cases hblocked
      | false =>
        obtain ⟨c, e, hc, he, hanswers⟩ := hstays tid t tstamp ht hblocked hexempt fun _ ↦ rfl
        exact ⟨c, e, hc, he, hanswers⟩
    · rename_i htid
      rw [if_neg htid] at hexempt ⊢
      exact hstays tid t tstamp ht hblocked hexempt fun hid ↦ absurd (hid.trans hprev.symm) htid
  · obtain ⟨hne, t, ht, rfl⟩ := hthread tid t' tstamp ht'
    split at hready
    · rename_i htid
      cases resultsCreated with
      | true =>
        rw [htid]
        refine hreturned.listed rfl (htid ▸ hne) ?_
        rw [getDSLRecvQ_eq_some.2 ⟨tstamp, htid ▸ ht⟩]
        rfl
      | false => exact hreturned.subset (h.ready tid t tstamp ht hready)
    · exact hreturned.subset (h.ready tid t tstamp ht hready)

/-- A query that waits for more is still the one that a thread waits for. -/
theorem Waiting.of_stored (h : Waiting exempt s) {q : HandleGetDistance}
    (hq : s.table[id]? = some ⟨.getDistance q, stamp⟩) (hstored : Stored id q stamp s s') :
    Waiting exempt s' := by
  obtain ⟨q', -, -, hprev, htable⟩ := hstored.table
  have hthread (tid : UInt64) (t : DSLRecvQuery D) (tstamp : ℕ)
      (ht : s'.table[tid]? = some ⟨.recv t, tstamp⟩) : s.table[tid]? = some ⟨.recv t, tstamp⟩ := by
    rw [htable] at ht
    split at ht
    · cases ht
    · exact ht
  refine ⟨fun tid t tstamp ht hblocked hexempt ↦ ?_, fun tid t tstamp ht hready ↦ ?_⟩
  · obtain ⟨c, e, hc, he, hanswers⟩ :=
      h.blocked tid t tstamp (hthread tid t tstamp ht) hblocked hexempt
    by_cases hid : c.qid = id
    · rw [hid, hq] at he
      cases he
      refine ⟨c, ⟨.getDistance q', stamp⟩, hc, by rw [htable, if_pos hid], hanswers.1, ?_⟩
      obtain ⟨-, hanswers⟩ := hanswers
      split at hanswers
      · obtain ⟨_, hreq, -⟩ := hanswers
        cases hreq
      · obtain ⟨_, hget, htid⟩ := hanswers
        cases hget
        exact ⟨q', rfl, hprev.trans htid⟩
    · exact ⟨c, e, hc, by rw [htable, if_neg hid, he], hanswers⟩
  · rw [hstored.psList]
    exact h.ready tid t tstamp (hthread tid t tstamp ht) hready

/-- A thread has run. If it is runnable it has been so before, or is put on the list. -/
theorem Waiting.of_ran (h : Waiting exempt s) {a : Activity}
    (ht : s.table[id]? = some ⟨.recv t, stamp⟩) (hran : Ran a id t stamp s s')
    (hsources : ∀ c, s.blockingCall a = some c → HasSources c)
    (hlisted : s.blockingCall a = none → a.finish = .ready → id ∈ s.psList) :
    Waiting exempt s' := by
  cases hran with
  | ended hps _ htable =>
    refine h.of_removed htable (by rw [hps]; exact List.Subset.refl _)
      fun tid t₁ tstamp c e _ he hanswers ↦ ?_
    rw [ht] at he
    cases he
    cases hanswers.recv?_eq_none
  | ready hcalls hfinish t' hsame hstate _ hps _ htable =>
    refine h.of_thread ht (fun i hi e he ↦ ?_) (fun i hi t stamp he ↦ ?_)
      ((htable id).trans (if_pos rfl)) (by rw [hps]; exact List.Subset.refl _) (fun hblocked ↦ ?_)
      fun _ ↦ hps ▸ hlisted hcalls hfinish
    · rw [htable, if_neg hi]
      exact he
    · rwa [htable, if_neg hi] at he
    · rw [hstate] at hblocked
      cases hblocked
  | blocked c hc hfree t' hsame hstate hcall _ hps _ htable =>
    have hne : c.id ≠ id := by
      rintro hid
      rw [hid, ht] at hfree
      cases hfree
    refine h.of_thread ht (fun i hi e he ↦ ?_) (fun i hi t stamp he ↦ ?_)
      ((htable id).trans (if_pos rfl)) hps (fun _ ↦ ?_) fun hready ↦ ?_
    · rw [htable, if_neg hi, if_neg]
      · exact he
      · rintro hid
        rw [hid, hfree] at he
        cases he
    · rw [htable, if_neg hi] at he
      split at he
      · obtain ⟨query, hquery, heq⟩ := Option.map_eq_some_iff.1 he
        have hrecv := (query?_unfinished hquery).2.1
        cases heq
        cases hrecv
      · exact he
    · -- the query of the call is the one that has been inserted
      have hentry := htable c.id
      rw [if_neg hne, if_pos rfl] at hentry
      have hsrc := hsources c hc
      cases c with
      | rpc qid => exact ⟨_, _, hcall, hentry, rfl, _, rfl, rfl, hsame.timeoutTV.symm⟩
      | getDistance qid srcNodes destNodes now timeoutMS resultsCreated =>
        rw [query?, if_neg hsrc] at hentry
        exact ⟨_, _, hcall, hentry, rfl, _, rfl, rfl⟩
    · rw [hstate] at hready
      cases hready

/-- The loop over the queries that are due. -/
theorem Waiting.of_timeouts {now : ℕ} {resultsCreated : UInt64 → Bool} {order : List UInt64}
    (h : Waiting (· ≤ now) s)
    (hdue : ∀ id ∈ order, ∀ (e : ThreadEntry D), s.table[id]? = some e →
      ∀ d ∈ e.query.timeOut, d ≤ now)
    (hok : ∀ id ∈ order, s.Awaited id → resultsCreated id = true) :
    Waiting (· ≤ now) (order.foldl (timeoutQuery resultsCreated) s) := by
  induction order generalizing s with
  | nil => exact h
  | cons id order ih =>
    refine ih ?_ (fun i hi e he d hd ↦ ?_) fun i hi hawaited ↦ ?_
    · obtain ⟨q, ⟨stamp, hq⟩, hreturned⟩ | ⟨hother, htable, hps, -⟩ :=
        timeoutQuery_cases resultsCreated id s
      · exact h.of_returned hq rfl hreturned (hok id (List.mem_cons_self ..))
      · refine h.of_removed htable (by rw [hps]; exact List.Subset.refl _)
          fun tid t tstamp c e ht he hanswers ↦ ?_
        -- a request that is due is one of a thread that is due
        obtain ⟨query, estamp⟩ := e
        obtain ⟨-, hanswers⟩ := hanswers
        split at hanswers
        · obtain ⟨q, rfl, -, htime⟩ := hanswers
          exact htime ▸ hdue id (List.mem_cons_self ..) _ he _ rfl
        · obtain ⟨q, rfl, -⟩ := hanswers
          exact absurd he (hother q estamp)
    · obtain ⟨-, he₀ | ⟨t, t', stamp, ht, rfl, hfaded⟩⟩ := timeoutQuery_entry he
      · exact hdue i (List.mem_cons_of_mem _ hi) e he₀ d hd
      · refine hdue i (List.mem_cons_of_mem _ hi) _ ht d ?_
        obtain rfl : t'.timeoutTV = d := Option.some.inj hd
        exact congrArg some hfaded.timeoutTV.symm
    · refine hok i (List.mem_cons_of_mem _ hi) ?_
      obtain ⟨q, stamp, t', tstamp, hq, ht', hblocked, hcall⟩ := hawaited
      have hq₀ : s.table[i]? = some ⟨.getDistance q, stamp⟩ := by
        obtain ⟨-, he | ⟨_, _, _, -, heq, -⟩⟩ := timeoutQuery_entry hq
        · exact he
        · cases heq
      obtain ⟨-, he | ⟨t, _, _, he, heq, hfaded⟩⟩ := timeoutQuery_entry ht'
      · exact ⟨q, stamp, t', tstamp, hq₀, he, hblocked, hcall⟩
      · cases heq
        exact ⟨q, stamp, t, tstamp, hq₀, he, hfaded.blocked hblocked, hfaded.call ▸ hcall⟩

/-- The timeout of every query that is due: the threads whose requests have gone are gone too. -/
theorem Waiting.of_timeout {now : ℕ} {resultsCreated : UInt64 → Bool} {order : List UInt64}
    (h : Waiting (fun _ ↦ False) s) (horder : order.Perm (s.due now))
    (hok : ∀ id ∈ order, s.Awaited id → resultsCreated id = true) :
    Waiting (fun _ ↦ False) (order.foldl (timeoutQuery resultsCreated) s) := by
  have hloop : Waiting (· ≤ now) (order.foldl (timeoutQuery resultsCreated) s) := by
    refine Waiting.of_timeouts
      ⟨fun id t stamp ht hblocked _ ↦ h.blocked id t stamp ht hblocked not_false, h.ready⟩
      (fun id hid e he d hd ↦ ?_) hok
    obtain ⟨e', he', d', hd', hle⟩ := mem_due.1 (horder.mem_iff.1 hid)
    rw [he] at he'
    cases he'
    exact (Option.mem_unique hd hd') ▸ hle
  refine ⟨fun id t stamp ht hblocked _ ↦ ?_, hloop.ready⟩
  refine hloop.blocked id t stamp ht hblocked fun hle ↦ ?_
  obtain ⟨hid, hwas⟩ := foldl_timeoutQuery_entry ht
  refine hid (horder.mem_iff.2 (mem_due.2 ?_))
  obtain he | ⟨t₀, t', stamp', he, heq, hfaded⟩ := hwas
  · exact ⟨_, he, t.timeoutTV, rfl, hle⟩
  · cases heq
    exact ⟨_, he, t₀.timeoutTV, rfl, hfaded.timeoutTV ▸ hle⟩

/-- A round of the scheduler, as a run in which its entry is still at the front of the list. -/
theorem Ran.putFront {a : Activity} {rest : List UInt64} (hps : s.psList = id :: rest)
    (h : Ran a id t stamp { s with psList := rest } s') :
    Ran a id t stamp s { s' with psList := id :: s'.psList } := by
  cases h with
  | ended hps' hcreated htable =>
    exact .ended (by rw [hps, hps']) hcreated htable
  | ready hcalls hfinish t' hsame hstate hcall hps' hcreated htable =>
    exact .ready hcalls hfinish t' hsame hstate hcall (by rw [hps, hps']) hcreated htable
  | blocked c hc hfree t' hsame hstate hcall hwoken hps' hcreated htable =>
    refine .blocked c hc hfree t' hsame hstate hcall hwoken ?_ hcreated htable
    rw [hps]
    exact List.cons_subset_cons id hps'

theorem Waiting.of_scheduled {a : Activity} (h : Waiting (fun _ ↦ False) s)
    (hsources : ∀ c, s.blockingCall a = some c → HasSources c) (hround : Scheduled a s s') :
    Waiting (fun _ ↦ False) s' := by
  cases hround with
  | idle _ heq => exact heq ▸ h
  | dropped hps hblocked heq =>
    rw [heq]
    refine ⟨h.blocked, fun tid t stamp ht hready ↦ ?_⟩
    obtain rfl | hrest := List.mem_cons.1 (hps ▸ h.ready tid t stamp ht hready)
    · rw [hblocked t stamp ht] at hready
      cases hready
    · exact hrest
  | @ran id rest t stamp s₁ hps ht _ hran _ heq =>
    have h₁ : Waiting (fun _ ↦ False) { s₁ with psList := id :: s₁.psList } :=
      h.of_ran ht (hran.putFront hps) hsources fun _ _ ↦ hps ▸ List.mem_cons_self ..
    have hlisted (tid : UInt64) (t : DSLRecvQuery D) (stamp : ℕ)
        (ht₁ : s₁.table[tid]? = some ⟨.recv t, stamp⟩) (hready : t.state = .ready) :
        tid ∈ s'.psList := by
      rw [heq]
      obtain rfl | hrest := List.mem_cons.1 (h₁.ready tid t stamp ht₁ hready)
      · rw [if_pos]
        · exact List.mem_append_right _ (List.mem_singleton_self _)
        · rw [Std.ExtTreeMap.contains_eq_isSome_getElem?, ht₁]
          rfl
      · split
        · exact List.mem_append_left _ hrest
        · exact hrest
    have htable : s'.table = s₁.table := by
      rw [heq]
      split <;> rfl
    refine ⟨fun tid t stamp ht hblocked hexempt ↦ ?_, fun tid t stamp ht hready ↦ ?_⟩
    · rw [htable] at ht ⊢
      exact h₁.blocked tid t stamp ht hblocked hexempt
    · rw [htable] at ht
      exact hlisted tid t stamp ht hready

/-- **A step that loses no wakeup** keeps every thread awake. -/
theorem step_waiting {ev : Event} (hs : Sound s) (h : Waiting (fun _ ↦ False) s)
    (hwakeful : s.Wakeful ev) (hstep : step xdr magic s ev = some s') :
    Waiting (fun _ ↦ False) s' := by
  cases ev with
  | request id now timeoutMS astAllocationCount =>
    rw [step] at hstep
    split at hstep
    · exact Option.some.inj hstep ▸ h
    · rename_i s₁ hs₁
      obtain ⟨hfree, hps, -, -, htable⟩ := insertNewQuery_eq_some hs₁
      rw [← Option.some.inj hstep]
      refine h.of_inserted hfree htable ?_ fun t ht ↦ ?_
      · change s.psList ⊆ s₁.psList ++ [id]
        rw [hps]
        exact List.subset_append_left ..
      · cases ht
        exact ⟨rfl, List.mem_append_right _ (List.mem_singleton_self _)⟩
  | packet inPacket =>
    rw [step] at hstep
    split at hstep
    · exact Option.some.inj hstep ▸ h
    · split at hstep
      · obtain rfl | ⟨tid, t, t', stamp, -, hreplied⟩ := notifyQPacket_cases hs hstep
        · exact h
        · obtain ⟨-, hstate, -⟩ := handleEvent_eq_some hreplied.reply
          -- the reply makes the thread ready and lists it
          refine h.of_thread hreplied.thread (fun i hi e he ↦ ?_) (fun i hi t stamp he ↦ ?_)
            ((hreplied.table tid).trans (if_pos rfl)) ?_ (fun hblocked ↦ ?_) fun _ ↦ ?_
          · rw [hreplied.table, if_neg hi]
            exact he
          · rwa [hreplied.table, if_neg hi] at he
          · rw [hreplied.psList]
            exact List.subset_append_left ..
          · rw [hstate] at hblocked
            cases hblocked
          · rw [hreplied.psList]
            exact List.mem_append_right _ (List.mem_singleton_self _)
      · exact Option.some.inj hstep ▸ h
  | latency id inRemoteNodes a resultsCreated =>
    obtain ⟨hsources, hok, hyield⟩ := hwakeful
    rw [← Option.some.inj hstep]
    cases notifyQLatency_notified hs a resultsCreated id inRemoteNodes with
    | idle heq =>
      rw [heq]
      exact h
    | @ran t stamp ht hran _ =>
      refine h.of_ran ht hran hsources fun hcalls hfinish ↦ ?_
      rcases hs.state id t stamp ht with hready | hblocked
      · exact h.ready id t stamp ht hready
      · exact absurd hfinish (hyield t stamp ht hblocked hcalls)
    | returned hq _ hprev hreturned => exact h.of_returned hq hprev hreturned hok
    | stored hq hstored => exact h.of_stored hq hstored
  | schedule a =>
    rw [← Option.some.inj hstep]
    exact h.of_scheduled hwakeful (schedule_scheduled hs a)
  | timeout now order resultsCreated =>
    rw [step] at hstep
    split at hstep
    · rename_i horder
      rw [← Option.some.inj hstep]
      exact h.of_timeout (List.isPerm_iff.1 horder) hwakeful
    · cases hstep
  | other id =>
    rw [← Option.some.inj hstep]
    cases hins : s.insertNewQuery id (.other false) with
    | none => exact h
    | some s₁ =>
      obtain ⟨hfree, hps, -, -, htable⟩ := insertNewQuery_eq_some hins
      exact h.of_inserted hfree htable (by rw [Option.getD_some, hps]; exact List.Subset.refl _)
        fun t ht ↦ by cases ht
  | otherFinished id =>
    rw [step] at hstep
    split at hstep
    · rename_i finished stamp he
      rw [← Option.some.inj hstep]
      have htable (i : UInt64) : ((s.modify id .setFinished).updateTimeout id).table[i]? =
          if i = id then none else s.table[i]? := by
        rw [table_updateTimeout, table_modify]
        split
        · rename_i hi
          rw [hi, he]
          rfl
        · rfl
      -- the query that finishes is nobody's call
      refine h.of_removed htable (by simp) fun tid t tstamp c e _ he' hanswers ↦ ?_
      · rw [he] at he'
        cases he'
        obtain ⟨-, hanswers⟩ := hanswers
        split at hanswers
        · obtain ⟨_, hreq, -⟩ := hanswers
          cases hreq
        · obtain ⟨_, hget, -⟩ := hanswers
          cases hget
    · exact Option.some.inj hstep ▸ h

/-- **No lost wakeup**, in every run of steps that lose none. -/
theorem no_lost_wakeup {evs : List Event} (h : run (step xdr magic) (new : Threads D) evs = some s)
    (hwakeful : AllSteps Wakeful (step xdr magic) (new : Threads D) evs) : Awake s := by
  have hnew : Sound (new : Threads D) ∧ Waiting (fun _ ↦ False) (new : Threads D) := by
    have hnone (i : UInt64) : (new : Threads D).table[i]? = none := Std.ExtTreeMap.getElem?_empty
    refine ⟨new_sound, fun id t stamp ht ↦ ?_, fun id t stamp ht ↦ ?_⟩
    · rw [hnone] at ht
      cases ht
    · rw [hnone] at ht
      cases ht
  obtain ⟨hs, hwaiting⟩ := run_invariant (P := fun s ↦ Sound s ∧ Waiting (fun _ ↦ False) s)
    (fun s ev s' ⟨hs, hwaiting⟩ hg hstep ↦ ⟨step_sound hs hstep, step_waiting hs hwaiting hg hstep⟩)
    hnew hwakeful h
  exact hwaiting.awake hs

/-- A thread that is blocked in an `rpc`. -/
theorem no_lost_wakeup_rpc :
    ∃ s : Threads UInt64, run (step Value.bitsXdr 7) new
        [.request 1 0 1000 0, .schedule ⟨[.rpc 2], .done, 0⟩] = some s ∧
      (s.getDSLRecvQ 1).map DSLRecvQuery.state = some .blocked ∧ Awake s := by
  obtain ⟨s, hs, hstate⟩ := Option.map_eq_some_iff.1
    (show (run (step Value.bitsXdr 7) (new : Threads UInt64)
      [.request 1 0 1000 0, .schedule ⟨[.rpc 2], .done, 0⟩]).map
        (fun s ↦ (s.getDSLRecvQ 1).map DSLRecvQuery.state) = some (some .blocked) by
      decide +kernel)
  refine ⟨s, hs, hstate, no_lost_wakeup hs (AllSteps.of_inputs (fun ev hev s ↦ ?_) _)⟩
  fin_cases hev
  · trivial
  · intro c hc
    obtain rfl : c = .rpc 2 := by simpa using List.mem_of_find?_eq_some hc
    trivial

/-- **The wakeup of a `get_distance` without sources is lost**: its query has finished before the
thread is marked as blocked. -/
theorem wakeup_lost :
    ¬ ∀ (evs : List Event) (s : Threads UInt64),
      run (step Value.bitsXdr 7) new evs = some s → Awake s := by
  intro h
  obtain ⟨s, hs, heq⟩ := Option.map_eq_some_iff.1
    (show (run (step Value.bitsXdr 7) (new : Threads UInt64)
      [.request 1 0 1000 0, .schedule ⟨[.getDistance 2 [] [] 0 100 true], .done, 0⟩]).map
        (fun s ↦ ((s.getDSLRecvQ 1).map fun t ↦ (t.state, t.call), s.table.contains 2)) =
        some (some (.blocked, some ⟨.getDistance, 2, 1⟩), false) by
      decide +kernel)
  obtain ⟨ht, hquery⟩ := Prod.mk.inj heq
  obtain ⟨t, ht, hstate⟩ := Option.map_eq_some_iff.1 ht
  obtain ⟨stamp, hentry⟩ := getDSLRecvQ_eq_some.1 ht
  obtain ⟨hblocked, hcall⟩ := Prod.mk.inj hstate
  obtain ⟨c, hc, hhas⟩ := (h _ s hs).blocked 1 t stamp hentry hblocked
  rw [hcall] at hc
  cases hc
  obtain ⟨q, hq, -⟩ := hhas
  rw [Std.ExtTreeMap.contains_eq_isSome_getElem?, hq] at hquery
  cases hquery

end Threads

end Meridian

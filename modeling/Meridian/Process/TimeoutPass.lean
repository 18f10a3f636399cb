import Meridian.Process.Reentrancy

/-!
# A pass over the expired deadlines

`handleTimeout` takes down the queries whose deadlines have expired, and then calls their handlers
one after the other. No handler of an expired query notifies another query: it changes its own, and
makes new ones (`handleQueryTimeout_keeps`). So what has been taken down stays as it was until its
turn.
-/

namespace Meridian.QueryTable

open Lib Lib.Buckets

/-! ### Deadlines -/

/-- The order of deadlines, `timevalLT`. -/
def AtOrBefore (t t' : Timeval) : Prop := (cmpTimeval t t').isLE

/-- The deadline that is recorded for a query of the table. -/
def Deadline (s : QueryTable) (p : Ptr) (t : Timeval) : Prop :=
  ∃ id : UInt64, s.queryTimeoutMap[id]? = some (p, t)

/-- `DEFAULT_TIME_OUT_S`. -/
def DEFAULT_TIME_OUT_S : ℤ := 5

/-- `nextTimeout`, when the clock says `now`. -/
def nextTimeout (now : Timeval) (s : QueryTable) : Timeval :=
  match s.timeoutQueryMap.minKey? with
  | none => ⟨now.sec + DEFAULT_TIME_OUT_S, now.usec⟩
  | some t => t

/-- The calls of `Query::handleTimeout` in the second loop of `handleTimeout`: the object, and what
it is when it is called. -/
def roundCalls (env : ℕ → Choice) : List Ptr → QueryTable → List (Ptr × Option Query)
  | [], _ => []
  | curQuery :: due, s =>
    (curQuery, s.heap curQuery) ::
      match s.timeoutRound env curQuery with
      | none => []
      | some s => roundCalls env due s

/-- The calls of a pass. -/
def passCalls (env : ℕ → Choice) (curTime : Timeval) (s : QueryTable) :
    List (Ptr × Option Query) :=
  roundCalls env (s.dueQueries (normalizeTime curTime)) s

variable {s s' : QueryTable} {key : Ptr → ℕ} {active : Finset Ptr} {p : Ptr} {q : Query}
  {c : Choice} {env : ℕ → Choice} {t t' : Timeval}

theorem expired_iff (curTime t : Timeval) :
    Timeval.expired curTime t = true ↔ AtOrBefore t curTime := by
  rw [AtOrBefore, cmpTimeval, compareLex, compareOn, compareOn, Timeval.expired,
    Ordering.isLE_then_iff_or, Bool.or_eq_true, Bool.and_eq_true, decide_eq_true_iff, beq_iff_eq,
    decide_eq_true_iff, Std.isLE_compare, compare_lt_iff_lt, Std.compare_eq_iff_eq]

/-- A query is due if the deadline that is recorded for it has expired. -/
theorem Indexed.mem_dueQueries (h : Indexed ∅ s) (curTime : Timeval) :
    p ∈ s.dueQueries curTime ↔ ∃ t, s.Deadline p t ∧ AtOrBefore t curTime := by
  rw [QueryTable.dueQueries, List.mem_flatMap]
  constructor
  · rintro ⟨⟨t, l⟩, he, hp⟩
    obtain ⟨hmem, hexp⟩ := List.mem_filter.1 he
    have hl := Std.ExtTreeMap.mem_toList_iff_getElem?_eq_some.1 hmem
    obtain ⟨q, -, hq⟩ := h.filed t p (mem_bucket.2 ⟨l, hl, hp⟩)
    exact ⟨t, ⟨_, hq⟩, (expired_iff _ _).1 hexp⟩
  · rintro ⟨t, ⟨id, hid⟩, hexp⟩
    obtain ⟨l, hl, hp⟩ := mem_bucket.1 (h.entry id p t hid).2.1
    exact ⟨(t, l), List.mem_filter.2 ⟨Std.ExtTreeMap.mem_toList_iff_getElem?_eq_some.2 hl,
      (expired_iff _ _).2 hexp⟩, hp⟩

/-- A deadline has a vector if it is recorded for a query. -/
theorem Indexed.mem_timeoutQueryMap (h : Indexed ∅ s) :
    t ∈ s.timeoutQueryMap ↔ ∃ p, s.Deadline p t := by
  rw [Std.ExtTreeMap.mem_iff_isSome_getElem?, Option.isSome_iff_exists]
  constructor
  · rintro ⟨l, hl⟩
    obtain ⟨p, hp⟩ := List.exists_mem_of_ne_nil l (h.tidy t l hl).1
    obtain ⟨q, -, hq⟩ := h.filed t p (mem_bucket.2 ⟨l, hl, hp⟩)
    exact ⟨p, _, hq⟩
  · rintro ⟨p, id, hid⟩
    obtain ⟨l, hl, -⟩ := mem_bucket.1 (h.entry id p t hid).2.1
    exact ⟨l, hl⟩

/-- The next timeout is the least deadline of all. -/
theorem Indexed.nextTimeout_least (h : Indexed ∅ s) (ht : s.Deadline p t) (now : Timeval) :
    (∃ p', s.Deadline p' (s.nextTimeout now)) ∧ AtOrBefore (s.nextTimeout now) t := by
  rw [nextTimeout]
  cases hmin : s.timeoutQueryMap.minKey? with
  | none =>
    have hmem := h.mem_timeoutQueryMap.2 ⟨p, ht⟩
    rw [Std.ExtTreeMap.minKey?_eq_none_iff.1 hmin] at hmem
    exact absurd hmem Std.ExtTreeMap.not_mem_empty
  | some t₀ =>
    obtain ⟨hmem, hle⟩ := Std.ExtTreeMap.minKey?_eq_some_iff_mem_and_forall.1 hmin
    exact ⟨h.mem_timeoutQueryMap.1 hmem, hle t (h.mem_timeoutQueryMap.2 ⟨p, ht⟩)⟩

/-! ### What a handler leaves alone -/

/-- Every query but `p` is still there, and as it was. -/
def KeepsOthers (p : Ptr) (s s' : QueryTable) : Prop :=
  ∀ p' q, p' ≠ p → s.heap p' = some q → s'.heap p' = some q

theorem KeepsOthers.trans {s'' : QueryTable} (h : KeepsOthers p s s')
    (h' : KeepsOthers p s' s'') : KeepsOthers p s s'' :=
  fun p' q hne hq ↦ h' p' q hne (h p' q hne hq)

theorem Grows.keepsOthers (h : Grows s s') (p : Ptr) : KeepsOthers p s s' := fun p' q _ ↦ h p' q

theorem modify_keepsOthers {f : Query → Query} (h : s.modify p f = some s') :
    KeepsOthers p s s' := by
  intro p' q hne hq
  rw [modify] at h
  obtain ⟨q₀, -, hs'⟩ := Option.bind_eq_some_iff.1 h
  obtain rfl := Option.some.inj hs'
  exact (Function.update_of_ne hne ..).trans hq

/-- **The handler of an expired query** leaves every other query as it is. -/
theorem handleQueryTimeout_keeps (h : Sound key active s)
    (hs' : s.handleQueryTimeout c p q = some s') : KeepsOthers p s s' := by
  have hforward (heq : (if c.forwards then s.handleForward c p else s.setFinished p) = some s') :
      KeepsOthers p s s' := by
    rw [handleForward] at heq
    split at heq
    · split at heq <;> exact modify_keepsOthers heq
    · exact modify_keepsOthers heq
  rw [handleQueryTimeout] at hs'
  split at hs'
  · -- a scheduler makes queries, and sets its next deadline
    rename_i schedObj _
    obtain ⟨s₁, _, hs₁, -, hgrow⟩ := h.runOnce schedObj c
    rw [hs₁] at hs'
    exact (hgrow.keepsOthers p).trans (modify_keepsOthers hs')
  · exact hforward hs'
  · exact hforward hs'
  · exact modify_keepsOthers hs'

/-- A round of a pass: one more of the queries that are due has been handled. -/
theorem Sound.timeoutRound (h : Sound key (insert p active) s) (hp : p ∉ active)
    (env : ℕ → Choice) :
    ∃ s' key', s.timeoutRound env p = some s' ∧ Sound key' active s' ∧ KeepsOthers p s s' := by
  have hmem := Finset.mem_insert_self p active
  obtain ⟨q, hq⟩ := h.alive p hmem
  have hcount := h.handled (s.handled + 1)
  obtain ⟨s₁, key₁, hs₁, h₁⟩ := hcount.handleQueryTimeout (q := q) (c := env s.handled) hmem
  obtain ⟨s₂, key₂, hs₂, h₂⟩ := h₁.updateTimeout hp
  have hkeep₁ : KeepsOthers p { s with handled := s.handled + 1 } s₁ :=
    handleQueryTimeout_keeps hcount hs₁
  obtain ⟨q₁, hq₁⟩ := h₁.alive p hmem
  obtain ⟨s₃, hs₃, -, -, hheap⟩ := h₁.indexed.updateTimeout hq₁
  have hkeep₂ : KeepsOthers p s₁ s₂ := by
    intro p' q' hne hq'
    obtain rfl := Option.some.inj (hs₂.symm.trans hs₃)
    rw [hheap, Function.update_of_ne hne]
    exact hq'
  refine ⟨s₂, key₂, ?_, h₂, KeepsOthers.trans hkeep₁ hkeep₂⟩
  rw [QueryTable.timeoutRound, hq]
  show (QueryTable.handleQueryTimeout _ _ _ _).bind _ = _
  rw [hs₁]
  exact hs₂

/-- The rounds of a pass, each of which finds its query as it was at the start. -/
theorem Sound.roundCalls (env : ℕ → Choice) (due : List Ptr) :
    ∀ {s : QueryTable} {key : Ptr → ℕ}, Sound key due.toFinset s → due.Nodup →
      (roundCalls env due s).map Prod.fst = due ∧
        ∀ e ∈ roundCalls env due s, ∃ q, e.2 = some q ∧ s.heap e.1 = some q := by
  induction due with
  | nil => exact fun _ _ ↦ ⟨rfl, fun e he ↦ absurd he List.not_mem_nil⟩
  | cons p due ih =>
    intro s key h hnodup
    obtain ⟨hp, hnodup⟩ := List.nodup_cons.1 hnodup
    rw [List.toFinset_cons] at h
    obtain ⟨s', key', hs', h', hkeep⟩ := h.timeoutRound
      (fun hmem ↦ hp (List.mem_toFinset.1 hmem)) env
    obtain ⟨hmap, hcalls⟩ := ih h' hnodup
    rw [QueryTable.roundCalls, hs']
    refine ⟨congrArg (p :: ·) hmap, fun e he ↦ ?_⟩
    obtain ⟨q, hq⟩ := h.alive p (Finset.mem_insert_self p _)
    rcases List.mem_cons.1 he with rfl | he
    · exact ⟨q, hq, hq⟩
    · obtain ⟨q', he', hq'⟩ := hcalls e he
      have hmem : e.1 ∈ due := hmap ▸ List.mem_map_of_mem he
      have hne : e.1 ≠ p := fun heq ↦ hp (heq ▸ hmem)
      obtain ⟨q₀, hq₀⟩ := h.alive e.1 (Finset.mem_insert_of_mem (List.mem_toFinset.2 hmem))
      have hsame := hkeep e.1 q₀ hne hq₀
      rw [hq', Option.some.injEq] at hsame
      exact ⟨q', he', hsame ▸ hq₀⟩

/-! ### The pass -/

/-- What a pass does that finds the clock at `curTime`. -/
structure PassExact (env : ℕ → Choice) (s : QueryTable) (curTime : Timeval) : Prop where
  ends : ∃ s', s.handleTimeout env curTime = some s'
  /-- No query is called twice. -/
  once : ((s.passCalls env curTime).map Prod.fst).Nodup
  /-- A query is called if its deadline has expired, and only then. -/
  due : ∀ p, p ∈ (s.passCalls env curTime).map Prod.fst ↔
    ∃ t, s.Deadline p t ∧ AtOrBefore t (normalizeTime curTime)
  /-- When a query is called, it has neither been deleted nor finished. -/
  live : ∀ e ∈ s.passCalls env curTime, ∃ q, e.2 = some q ∧ q.finished = false
  /-- `nextTimeout` is the least of the deadlines. -/
  least : ∀ now p t, s.Deadline p t →
    (∃ p', s.Deadline p' (s.nextTimeout now)) ∧ AtOrBefore (s.nextTimeout now) t
  /-- If the clock has got there, a query is called. -/
  progress : ∀ now p t, s.Deadline p t →
    AtOrBefore (s.nextTimeout now) (normalizeTime curTime) → s.passCalls env curTime ≠ []
  /-- Without deadlines it is still to come. -/
  idle : (∀ p t, ¬ s.Deadline p t) → ∀ now, ¬ AtOrBefore (s.nextTimeout now) now

theorem nextTimeout_idle (h : ∀ p t, ¬ s.Deadline p t) (hs : Indexed ∅ s) (now : Timeval) :
    ¬ AtOrBefore (s.nextTimeout now) now := by
  rw [nextTimeout]
  cases hmin : s.timeoutQueryMap.minKey? with
  | none =>
    have hsec : now.sec < now.sec + DEFAULT_TIME_OUT_S := Int.lt_add_of_pos_right _ (by decide)
    rw [← expired_iff, Timeval.expired, Bool.or_eq_true, Bool.and_eq_true, decide_eq_true_iff,
      beq_iff_eq]
    rintro (hlt | ⟨heq, -⟩)
    · exact absurd hlt (Int.not_lt.2 hsec.le)
    · exact absurd heq hsec.ne'
  | some t =>
    obtain ⟨p, hp⟩ := hs.mem_timeoutQueryMap.1 (Std.ExtTreeMap.minKey?_mem hmin)
    exact absurd hp (h p t)

theorem Sound.passExact (h : Sound key ∅ s) (env : ℕ → Choice) (curTime : Timeval) :
    PassExact env s curTime := by
  obtain ⟨hnodup, halive⟩ := h.indexed.dueQueries (normalizeTime curTime)
  obtain ⟨hmap, hcalls⟩ := Sound.roundCalls env (s.dueQueries (normalizeTime curTime))
    (h.mono (Finset.empty_subset _) fun p hp ↦ halive p (List.mem_toFinset.1 hp)) hnodup
  have hdue (p : Ptr) : p ∈ (s.passCalls env curTime).map Prod.fst ↔
      ∃ t, s.Deadline p t ∧ AtOrBefore t (normalizeTime curTime) := by
    rw [passCalls, hmap]
    exact h.indexed.mem_dueQueries _
  refine ⟨?_, hmap ▸ hnodup, hdue, fun e he ↦ ?_,
    fun now p t ht ↦ h.indexed.nextTimeout_least ht now, fun now p t ht hle hnil ↦ ?_,
    fun hno now ↦ nextTimeout_idle hno h.indexed now⟩
  · have hends : Ends ∅ (s.handleTimeout env curTime) := h.handleTimeout curTime
    obtain ⟨s', -, hs', -⟩ := hends
    exact ⟨s', hs'⟩
  · obtain ⟨q, he', hq⟩ := hcalls e he
    refine ⟨q, he', Bool.eq_false_iff.2 fun hfin ↦ ?_⟩
    exact Finset.notMem_empty _ (h.finished e.1 q hq hfin)
  · obtain ⟨p', hp'⟩ := (h.indexed.nextTimeout_least ht now).1
    have hcalled := (hdue p').2 ⟨_, hp', hle⟩
    rw [hnil] at hcalled
    exact absurd hcalled List.not_mem_nil

/-- **A pass over the expired deadlines.** Whatever calls have come before, and whatever the handlers
decide and make, a pass calls every query whose deadline has expired, once, alive and unfinished, and
no other. -/
theorem passExact_after_calls (env : ℕ → Choice) (es : List Event) :
    ∃ s, run (fun s e ↦ QueryTable.step env s e) new es = some s ∧
      ∀ env' curTime, PassExact env' s curTime := by
  obtain ⟨s, hs, key, h⟩ := sound_after_calls env es
  exact ⟨s, hs, fun env' curTime ↦ h.passExact env' curTime⟩

end Meridian.QueryTable

import Mathlib.Data.List.Nodup
import Mathlib.Data.Set.Basic
import Meridian.Process.QueryTable

/-!
# The two indexes of the query table

`Indexed` says that `queryTimeoutMap` and `timeoutQueryMap` describe the same queries, but for some
that are outside of both: a query that has just been made, or one between `removeOldTimeout` and
`addTimeout`. Each function of the table takes queries in or out.

A deadline of an object may change while its entry stays: the indexes keep the deadline they were
given, so `removeOldTimeout` finds the query under it.
-/

namespace Meridian.QueryTable

open Lib Lib.Buckets

/-- The indexes agree with each other and with the objects that are not in `out`, and the objects in
`out` are in neither. -/
structure Indexed (out : Set Ptr) (s : QueryTable) : Prop where
  entry : ∀ id p t, s.queryTimeoutMap[id]? = some (p, t) →
    p ∉ out ∧ p ∈ bucket s.timeoutQueryMap t ∧ ∃ q, s.heap p = some q ∧ q.qid = id
  filed : ∀ t p, p ∈ bucket s.timeoutQueryMap t →
    ∃ q, s.heap p = some q ∧ s.queryTimeoutMap[q.qid]? = some (p, t)
  recorded : ∀ p q, s.heap p = some q → p ∉ out → ∃ t, s.queryTimeoutMap[q.qid]? = some (p, t)
  tidy : Tidy s.timeoutQueryMap
  lt_created : ∀ p q, s.heap p = some q → p < s.created

variable {s : QueryTable} {out : Set Ptr} {p p' : Ptr} {q q' : Query} {t : Timeval} {id : UInt64}

theorem indexed_new : Indexed ∅ new where
  entry id p t h := by
    rw [new, Std.ExtTreeMap.getElem?_empty] at h
    exact absurd h (Option.some_ne_none _).symm
  filed t p h := by
    obtain ⟨l, hl, -⟩ := mem_bucket.1 h
    rw [new, Std.ExtTreeMap.getElem?_empty] at hl
    exact absurd hl (Option.some_ne_none _).symm
  recorded p q h := absurd h (Option.some_ne_none _).symm
  tidy := tidy_empty
  lt_created p q h := absurd h (Option.some_ne_none _).symm

/-! ### Objects -/

@[simp] theorem heap_alloc (q : Query) (s : QueryTable) :
    (s.alloc q).heap = Function.update s.heap s.created (some q) := rfl

@[simp] theorem heap_delete (p : Ptr) (s : QueryTable) :
    (s.delete p).heap = Function.update s.heap p none := rfl

/-- Two queries in the table have different ids. -/
theorem Indexed.eq_of_qid (h : Indexed ∅ s) (hp : s.heap p = some q) (hp' : s.heap p' = some q')
    (hid : q.qid = q'.qid) : p = p' := by
  obtain ⟨t, ht⟩ := h.recorded p q hp (Set.notMem_empty p)
  obtain ⟨t', ht'⟩ := h.recorded p' q' hp' (Set.notMem_empty p')
  rw [hid, ht', Option.some.injEq, Prod.mk.injEq] at ht
  exact ht.1.symm

/-- An id is taken if a query has it. -/
theorem Indexed.contains_iff (h : Indexed out s) (hout : ∀ p q, s.heap p = some q → p ∉ out) :
    s.queryTimeoutMap.contains id = true ↔ ∃ p q, s.heap p = some q ∧ q.qid = id := by
  rw [Std.ExtTreeMap.contains_eq_isSome_getElem?, Option.isSome_iff_exists]
  constructor
  · rintro ⟨⟨p, t⟩, hpt⟩
    obtain ⟨-, -, q, hq, hid⟩ := h.entry id p t hpt
    exact ⟨p, q, hq, hid⟩
  · rintro ⟨p, q, hq, rfl⟩
    obtain ⟨t, ht⟩ := h.recorded p q hq (hout p q hq)
    exact ⟨(p, t), ht⟩

theorem Indexed.heap_created (h : Indexed out s) : s.heap s.created = none := by
  cases hq : s.heap s.created with
  | none => rfl
  | some q => exact absurd (h.lt_created _ q hq) (Nat.lt_irrefl _)

/-- A new object is outside of the indexes. -/
theorem Indexed.alloc (h : Indexed ∅ s) (q : Query) : Indexed {s.created} (s.alloc q) where
  entry id p t hpt := by
    obtain ⟨-, hmem, q', hq', hid⟩ := h.entry id p t hpt
    have hne : p ≠ s.created := Nat.ne_of_lt (h.lt_created p q' hq')
    exact ⟨hne, hmem, q', (Function.update_of_ne hne _ _).trans hq', hid⟩
  filed t p hp := by
    obtain ⟨q', hq', ht⟩ := h.filed t p hp
    have hne : p ≠ s.created := Nat.ne_of_lt (h.lt_created p q' hq')
    exact ⟨q', (Function.update_of_ne hne _ _).trans hq', ht⟩
  recorded p q' hq' hp := by
    rw [heap_alloc, Function.update_of_ne hp] at hq'
    exact h.recorded p q' hq' (Set.notMem_empty p)
  tidy := h.tidy
  lt_created p q' hq' := by
    by_cases hp : p = s.created
    · exact hp ▸ Nat.lt_succ_self _
    · rw [heap_alloc, Function.update_of_ne hp] at hq'
      exact Nat.lt_succ_of_lt (h.lt_created p q' hq')

/-- Only an object that is outside may be deleted. -/
theorem Indexed.delete (h : Indexed {p} s) : Indexed ∅ (s.delete p) where
  entry id p' t hpt := by
    obtain ⟨hne, hmem, q', hq', hid⟩ := h.entry id p' t hpt
    exact ⟨Set.notMem_empty p', hmem, q', (Function.update_of_ne hne _ _).trans hq', hid⟩
  filed t p' hp' := by
    obtain ⟨q', hq', ht⟩ := h.filed t p' hp'
    have hne : p' ≠ p := (h.entry _ p' t ht).1
    exact ⟨q', (Function.update_of_ne hne _ _).trans hq', ht⟩
  recorded p' q' hq' _ := by
    by_cases hp : p' = p
    · subst hp
      rw [heap_delete, Function.update_self] at hq'
      exact absurd hq' (Option.some_ne_none _).symm
    · rw [heap_delete, Function.update_of_ne hp] at hq'
      exact h.recorded p' q' hq' hp
  tidy := h.tidy
  lt_created p' q' hq' := by
    by_cases hp : p' = p
    · subst hp
      rw [heap_delete, Function.update_self] at hq'
      exact absurd hq' (Option.some_ne_none _).symm
    · rw [heap_delete, Function.update_of_ne hp] at hq'
      exact h.lt_created p' q' hq'

/-- A change in place leaves the indexes as they are, whatever becomes of the deadline. -/
theorem Indexed.update (h : Indexed out s) (hp : s.heap p = some q) (hid : q'.qid = q.qid) :
    Indexed out { s with heap := Function.update s.heap p (some q') } := by
  -- what was an object with an id is one with the same id
  have hkeep : ∀ p₁ q₁, s.heap p₁ = some q₁ →
      ∃ q₂, Function.update s.heap p (some q') p₁ = some q₂ ∧ q₂.qid = q₁.qid := by
    intro p₁ q₁ hq₁
    by_cases hp₁ : p₁ = p
    · subst hp₁
      rw [hp, Option.some.injEq] at hq₁
      exact ⟨q', Function.update_self .., hq₁ ▸ hid⟩
    · exact ⟨q₁, (Function.update_of_ne hp₁ _ _).trans hq₁, rfl⟩
  have hold : ∀ p₁ q₁, Function.update s.heap p (some q') p₁ = some q₁ →
      ∃ q₂, s.heap p₁ = some q₂ ∧ q₂.qid = q₁.qid := by
    intro p₁ q₁ hq₁
    by_cases hp₁ : p₁ = p
    · subst hp₁
      rw [Function.update_self, Option.some.injEq] at hq₁
      exact ⟨q, hp, hq₁ ▸ hid.symm⟩
    · exact ⟨q₁, (Function.update_of_ne hp₁ _ _).symm.trans hq₁, rfl⟩
  refine ⟨fun id p₁ t hpt ↦ ?_, fun t p₁ hp₁ ↦ ?_, fun p₁ q₁ hq₁ hp₁ ↦ ?_, h.tidy,
    fun p₁ q₁ hq₁ ↦ ?_⟩
  · obtain ⟨hout, hmem, q₁, hq₁, rfl⟩ := h.entry id p₁ t hpt
    exact ⟨hout, hmem, hkeep p₁ q₁ hq₁⟩
  · obtain ⟨q₁, hq₁, ht⟩ := h.filed t p₁ hp₁
    obtain ⟨q₂, hq₂, hid₂⟩ := hkeep p₁ q₁ hq₁
    exact ⟨q₂, hq₂, hid₂ ▸ ht⟩
  · obtain ⟨q₂, hq₂, hid₂⟩ := hold p₁ q₁ hq₁
    exact hid₂ ▸ h.recorded p₁ q₂ hq₂ hp₁
  · obtain ⟨q₂, hq₂, -⟩ := hold p₁ q₁ hq₁
    exact h.lt_created p₁ q₂ hq₂

/-- What is noted of a run has no bearing on the indexes. -/
theorem Indexed.note (h : Indexed out s) (observed : Observed) :
    Indexed out { s with observed := observed } :=
  ⟨h.entry, h.filed, h.recorded, h.tidy, h.lt_created⟩

theorem modify_eq (hp : s.heap p = some q) (f : Query → Query) :
    s.modify p f = some { s with heap := Function.update s.heap p (some (f q)) } := by
  rw [modify, hp]
  rfl

/-! ### Deadlines -/

/-- `addTimeout` takes a query into the indexes whose id is not taken. -/
theorem Indexed.addTimeout (h : Indexed {p} s) (hp : s.heap p = some q)
    (hfree : s.queryTimeoutMap[q.qid]? = none) :
    ∃ s', s.addTimeout p = some s' ∧ Indexed ∅ s' ∧ s'.heap = s.heap ∧
      s'.created = s.created ∧ s'.observed = s.observed := by
  have hnot : ∀ u, p ∉ bucket s.timeoutQueryMap u := by
    intro u hu
    obtain ⟨q', -, ht⟩ := h.filed u p hu
    exact (h.entry _ p u ht).1 rfl
  set t := normalizeTime q.timeoutTV with htdef
  have heq : s.addTimeout p = some { s with
      queryTimeoutMap := s.queryTimeoutMap.insert q.qid (p, t)
      timeoutQueryMap := push s.timeoutQueryMap t p } := by
    have hkey : (s.queryTimeoutMap[q.qid]?.map Prod.fst).getD p = p := by
      rw [hfree]
      rfl
    rw [QueryTable.addTimeout, hp]
    show some { s with
      queryTimeoutMap := s.queryTimeoutMap.insert q.qid (_, t)
      timeoutQueryMap := push s.timeoutQueryMap t p } = _
    rw [hkey]
  refine ⟨_, heq, ?_, rfl, rfl, rfl⟩
  -- an entry of the new map is the new one, or an old one under another id
  have hget : ∀ id, (s.queryTimeoutMap.insert q.qid (p, t))[id]? =
      if id = q.qid then some (p, t) else s.queryTimeoutMap[id]? := by
    intro id
    rw [Std.ExtTreeMap.getElem?_insert]
    simp only [cmp_eq_iff]
  refine ⟨fun id p' t' hpt ↦ ?_, fun u p' hp' ↦ ?_, fun p' q' hq' _ ↦ ?_, h.tidy.push (hnot _),
    h.lt_created⟩
  · rw [hget] at hpt
    by_cases hid : id = q.qid
    · rw [if_pos hid, Option.some.injEq, Prod.mk.injEq] at hpt
      obtain ⟨rfl, rfl⟩ := hpt
      exact ⟨Set.notMem_empty p, mem_bucket_push.2 (Or.inr ⟨rfl, rfl⟩), q, hp, hid.symm⟩
    · rw [if_neg hid] at hpt
      obtain ⟨-, hmem, hq⟩ := h.entry id p' t' hpt
      exact ⟨Set.notMem_empty p', mem_bucket_push.2 (Or.inl hmem), hq⟩
  · rcases mem_bucket_push.1 hp' with hold | ⟨rfl, rfl⟩
    · obtain ⟨q', hq', ht⟩ := h.filed u p' hold
      refine ⟨q', hq', ?_⟩
      rw [hget, if_neg]
      · exact ht
      · rintro hid
        rw [hid, hfree] at ht
        exact absurd ht (Option.some_ne_none _).symm
    · exact ⟨q, hp, by rw [hget, if_pos rfl]⟩
  · show ∃ u, (s.queryTimeoutMap.insert q.qid (p, t))[q'.qid]? = some (p', u)
    by_cases hpp : p' = p
    · subst hpp
      rw [hp, Option.some.injEq] at hq'
      subst hq'
      exact ⟨t, by rw [hget, if_pos rfl]⟩
    · obtain ⟨u, hu⟩ := h.recorded p' q' hq' hpp
      refine ⟨u, ?_⟩
      rw [hget, if_neg]
      · exact hu
      · intro hid
        rw [hid, hfree] at hu
        exact absurd hu (Option.some_ne_none _).symm

/-- `removeOldTimeout` finds a query of the table in both indexes, and takes it out of both. -/
theorem Indexed.removeOldTimeout (h : Indexed ∅ s) (hp : s.heap p = some q) :
    ∃ s', s.removeOldTimeout p = some s' ∧ Indexed {p} s' ∧ s'.heap = s.heap ∧
      s'.created = s.created ∧ s'.observed = s.observed ∧ s'.queryTimeoutMap[q.qid]? = none := by
  obtain ⟨t, ht⟩ := h.recorded p q hp (Set.notMem_empty p)
  obtain ⟨-, hmem, -⟩ := h.entry _ p t ht
  obtain ⟨m, hm, htidy, hbucket⟩ := h.tidy.exists_pull hmem
  have hret : s.retrieveOldTimeout p = some t := by
    rw [retrieveOldTimeout, hp]
    show (s.queryTimeoutMap[q.qid]?).bind (fun entry ↦ some entry.2) = some t
    rw [ht]
    rfl
  have hget : ∀ id, (s.queryTimeoutMap.erase q.qid)[id]? =
      if id = q.qid then none else s.queryTimeoutMap[id]? := by
    intro id
    rw [Std.ExtTreeMap.getElem?_erase]
    simp only [cmp_eq_iff]
  -- another query has another id, and so another entry
  have hother : ∀ p' q', s.heap p' = some q' → p' ≠ p → q'.qid ≠ q.qid :=
    fun p' q' hq' hne hid ↦ hne (h.eq_of_qid hq' hp hid)
  have heq : s.removeOldTimeout p = some { s with
      queryTimeoutMap := s.queryTimeoutMap.erase q.qid
      timeoutQueryMap := m } := by
    rw [QueryTable.removeOldTimeout, hret, hp]
    show (pull s.timeoutQueryMap t p).bind _ = _
    rw [hm]
    rfl
  refine ⟨_, heq, ?_, rfl, rfl, rfl, by rw [hget, if_pos rfl]⟩
  refine ⟨fun id p' t' hpt ↦ ?_, fun u p' hp' ↦ ?_, fun p' q' hq' hne ↦ ?_, htidy, h.lt_created⟩
  · rw [hget] at hpt
    by_cases hid : id = q.qid
    · rw [if_pos hid] at hpt
      exact absurd hpt (Option.some_ne_none _).symm
    · rw [if_neg hid] at hpt
      obtain ⟨-, hmem', q', hq', hid'⟩ := h.entry id p' t' hpt
      have hne : p' ≠ p := by
        rintro rfl
        rw [hp, Option.some.injEq] at hq'
        exact hid (hid'.symm.trans (hq' ▸ rfl))
      exact ⟨hne, (hbucket t' p').2 ⟨hmem', fun heq ↦ hne heq.2⟩, q', hq', hid'⟩
  · obtain ⟨hold, hne⟩ := (hbucket u p').1 hp'
    obtain ⟨q', hq', hu⟩ := h.filed u p' hold
    have hpp : p' ≠ p := by
      rintro rfl
      rw [hp, Option.some.injEq] at hq'
      rw [← hq', ht, Option.some.injEq, Prod.mk.injEq] at hu
      exact hne ⟨hu.2.symm, rfl⟩
    exact ⟨q', hq', by rw [hget, if_neg (hother p' q' hq' hpp)]; exact hu⟩
  · obtain ⟨u, hu⟩ := h.recorded p' q' hq' (Set.notMem_empty p')
    exact ⟨u, by rw [hget, if_neg (hother p' q' hq' hne)]; exact hu⟩

/-- `updateTimeout` files a query under its new deadline, or deletes it. -/
theorem Indexed.updateTimeout (h : Indexed ∅ s) (hp : s.heap p = some q) :
    ∃ s', s.updateTimeout p = some s' ∧ Indexed ∅ s' ∧ s'.observed = s.observed ∧
      s'.heap = Function.update s.heap p (if q.finished then none else some q) := by
  obtain ⟨s₁, hs₁, h₁, hheap, -, hnoted, hfree⟩ := h.removeOldTimeout hp
  have hp₁ : s₁.heap p = some q := by rw [hheap]; exact hp
  rw [QueryTable.updateTimeout, hs₁]
  show ∃ s', (s₁.heap p).bind (fun q ↦
    if q.finished then some (s₁.delete p) else s₁.addTimeout p) = some s' ∧ _
  rw [hp₁, Option.bind_some]
  cases hf : q.finished with
  | true =>
    refine ⟨s₁.delete p, rfl, h₁.delete, hnoted, ?_⟩
    show Function.update s₁.heap p none = _
    rw [hheap]
    rfl
  | false =>
    obtain ⟨s₂, hs₂, h₂, hheap₂, -, hnoted₂⟩ := h₁.addTimeout hp₁ hfree
    refine ⟨s₂, hs₂, h₂, hnoted₂.trans hnoted, ?_⟩
    rw [hheap₂, hheap]
    exact (Function.update_eq_self_iff.2 hp.symm).symm

/-- What is noted when a query has been inserted and perhaps subscribed to. -/
structure Noted (b : Birth) (subscriber : Option UInt64) (s s' : QueryTable) : Prop where
  reused : s'.observed.reused = (s.observed.reused || s.subscribed b.qid)
  notified : s'.observed.notified = s.observed.notified
  kept : ∀ p, p ≠ s.created → s'.observed.subscriber p = s.observed.subscriber p
  subscriber : ∀ i ∈ subscriber,
    s'.observed.subscriber s.created = s'.queryTimeoutMap[i]?.map Prod.fst

/-- A new object has no subscriptions yet. -/
theorem subscribed_alloc (hq : q.subscribers = []) :
    (s.alloc q).subscribed id = s.subscribed id := by
  have hold : ∀ p ∈ List.range s.created,
      ((s.alloc q).heap p).any (fun q ↦ q.subscribers.contains id) =
        (s.heap p).any fun q ↦ q.subscribers.contains id := by
    intro p hp
    rw [heap_alloc, Function.update_of_ne (Nat.ne_of_lt (List.mem_range.1 hp))]
  have hnew : ((s.alloc q).heap s.created).any (fun q ↦ q.subscribers.contains id) = false := by
    rw [heap_alloc, Function.update_self, Option.any_some, hq]
    rfl
  show (List.range (s.created + 1)).any _ = _
  rw [List.range_succ, List.any_append, List.any_cons, hnew, List.any_nil, Bool.or_false,
    Bool.or_false, subscribed, Bool.eq_iff_iff, List.any_eq_true, List.any_eq_true]
  exact exists_congr fun p ↦ and_congr_right fun hp ↦ by rw [hold p hp]

/-- A new query is in the table, or its id was taken and it is gone again. -/
theorem Indexed.create (h : Indexed ∅ s) (cls : QueryClass) (b : Birth)
    (subscriber : Option UInt64) :
    (∃ s', s.create cls b subscriber = some (false, s') ∧ Indexed ∅ s' ∧ s'.heap = s.heap ∧
      s'.observed = s.observed) ∨
    (∃ s', s.create cls b subscriber = some (true, s') ∧ Indexed ∅ s' ∧
      (∀ p q, s.heap p = some q → q.qid ≠ b.qid) ∧
      s'.heap = Function.update s.heap s.created
        (some ⟨b.qid, cls, b.timeoutTV, false, subscriber.toList⟩) ∧ Noted b subscriber s s') := by
  set q : Query := ⟨b.qid, cls, b.timeoutTV, false, []⟩ with hq
  have h₁ := h.alloc q
  have hp₁ : (s.alloc q).heap s.created = some q := Function.update_self ..
  have hins : (s.alloc q).insertNewQuery s.created =
      if s.queryTimeoutMap.contains b.qid then some (false, s.alloc q)
      else (((s.alloc q).noteInsert b.qid).addTimeout s.created).bind fun s' ↦ some (true, s') := by
    rw [insertNewQuery, hp₁]
    rfl
  by_cases hc : s.queryTimeoutMap.contains b.qid = true
  · left
    rw [if_pos hc] at hins
    refine ⟨(s.alloc q).delete s.created, ?_, h₁.delete, ?_, rfl⟩
    · rw [QueryTable.create, hins]
      rfl
    · show Function.update (Function.update s.heap s.created (some q)) s.created none = s.heap
      rw [Function.update_idem]
      exact Function.update_eq_self_iff.2 h.heap_created.symm
  · right
    rw [if_neg hc] at hins
    have hfree : (s.alloc q).queryTimeoutMap[q.qid]? = none := by
      rw [← Std.ExtTreeMap.isSome_getElem?_eq_contains, Bool.not_eq_true,
        Option.isSome_eq_false_iff, Option.isNone_iff_eq_none] at hc
      exact hc
    have h₁' : Indexed {s.created} ((s.alloc q).noteInsert b.qid) := h₁.note _
    obtain ⟨s₂, hs₂, h₂, hheap, -, hnoted⟩ := h₁'.addTimeout hp₁ hfree
    rw [hs₂] at hins
    have hheap : s₂.heap = Function.update s.heap s.created (some q) := hheap
    have hp₂ : s₂.heap s.created = some q := by rw [hheap]; exact hp₁
    have hids : ∀ p q, s.heap p = some q → q.qid ≠ b.qid := by
      intro p q hp hid
      exact hc ((h.contains_iff fun p _ _ ↦ Set.notMem_empty p).2 ⟨p, q, hp, hid⟩)
    have hreused : s₂.observed.reused = (s.observed.reused || s.subscribed b.qid) := by
      rw [hnoted, ← subscribed_alloc (q := q) rfl]
      rfl
    have hlog : s₂.observed.notified = s.observed.notified := by
      rw [hnoted]
      rfl
    have hsubscriber : s₂.observed.subscriber = s.observed.subscriber := by
      rw [hnoted]
      rfl
    cases subscriber with
    | none =>
      refine ⟨s₂, ?_, h₂, hids, hheap, ⟨hreused, hlog, fun p _ ↦ by rw [hsubscriber],
        fun i hi ↦ absurd hi (Option.not_mem_none i)⟩⟩
      rw [QueryTable.create, hins]
      rfl
    | some i =>
      have h₂' : Indexed ∅ (s₂.noteSubscriber s.created i) := h₂.note _
      have hp₂' : (s₂.noteSubscriber s.created i).heap s.created = some q := hp₂
      have hupdate : Indexed ∅ { s₂.noteSubscriber s.created i with
          heap := Function.update s₂.heap s.created (some { q with subscribers := [i] }) } :=
        h₂'.update hp₂' rfl
      have hsub : s₂.subscribeLatency s.created i = some { s₂.noteSubscriber s.created i with
          heap := Function.update s₂.heap s.created (some { q with subscribers := [i] }) } :=
        modify_eq hp₂' _
      refine ⟨_, ?_, hupdate, hids, ?_, ⟨hreused, hlog, fun p hp ↦ ?_, fun j hj ↦ ?_⟩⟩
      · rw [QueryTable.create, hins]
        show (s₂.subscribeLatency s.created i).bind _ = _
        rw [hsub]
        rfl
      · show Function.update s₂.heap s.created _ = _
        rw [hheap]
        exact Function.update_idem ..
      · show Function.update s₂.observed.subscriber s.created _ p = _
        rw [Function.update_of_ne hp, hsubscriber]
      · obtain rfl : i = j := Option.some.inj hj
        exact Function.update_self ..

/-! ### Expired deadlines -/

/-- Every query whose deadline has expired is an object, and is listed once. -/
theorem Indexed.dueQueries (h : Indexed ∅ s) (curTime : Timeval) :
    (s.dueQueries curTime).Nodup ∧ ∀ p ∈ s.dueQueries curTime, ∃ q, s.heap p = some q := by
  have hmem : ∀ e ∈ s.timeoutQueryMap.toList.filter fun e ↦ Timeval.expired curTime e.1,
      bucket s.timeoutQueryMap e.1 = e.2 := by
    intro e he
    have := Std.ExtTreeMap.mem_toList_iff_getElem?_eq_some.1 (List.mem_of_mem_filter he)
    rw [bucket, this]
    rfl
  constructor
  · rw [QueryTable.dueQueries, List.nodup_flatMap]
    constructor
    · intro e he
      exact hmem e he ▸ h.tidy.nodup_bucket
    · have hkeys := (Std.ExtTreeMap.distinct_keys_toList (t := s.timeoutQueryMap)).filter
        fun e ↦ Timeval.expired curTime e.1
      refine hkeys.imp_of_mem ?_
      intro e₁ e₂ he₁ he₂ hne p hp₁ hp₂
      rw [← hmem e₁ he₁] at hp₁
      rw [← hmem e₂ he₂] at hp₂
      -- a query is filed under the deadline that is recorded for it, so under one only
      obtain ⟨q₁, hq₁, ht₁⟩ := h.filed _ p hp₁
      obtain ⟨q₂, hq₂, ht₂⟩ := h.filed _ p hp₂
      rw [hq₁, Option.some.injEq] at hq₂
      rw [← hq₂, ht₁, Option.some.injEq, Prod.mk.injEq] at ht₂
      exact hne (Std.LawfulEqCmp.compare_eq_iff_eq.2 ht₂.2)
  · intro p hp
    obtain ⟨e, he, hpe⟩ := List.mem_flatMap.1 hp
    rw [← hmem e he] at hpe
    obtain ⟨q, hq, -⟩ := h.filed _ p hpe
    exact ⟨q, hq⟩

end Meridian.QueryTable

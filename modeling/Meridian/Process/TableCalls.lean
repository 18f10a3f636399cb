import Mathlib.Data.Finset.Card
import Mathlib.Data.Finset.Lattice.Fold
import Meridian.Process.TableIndex

/-!
# Calls inside each other

While handlers run inside each other, the query of each of them stays in the table: its entry is
found when its handler returns, whatever the handlers inside it did.

* `Sound` holds between any two steps of a call. The queries whose handlers are running are
  `active`. Only they may be finished and still in the table.
* A query notifies at most one other, its `targets`. The `key` of a query is below the key of a
  query it can notify, if that one notifies others itself. So a handler never notifies a query whose
  handler is running, and the depth is bounded.
* A subscription stands for the query that has subscribed, if it is still there (`claimed`), as long
  as no query has been inserted under an id under which another has a subscription.
* A query that is made for another one, which hears of its result, gets a key below it, and both are
  above all the keys that were there before: an id is given away again only when its query has gone.
-/

namespace Meridian

open Lib Lib.Buckets

/-- The classes whose handlers notify other queries. -/
def QueryTable.notifies : QueryClass → Bool
  | .addNode | .probe | .reqProbe | .dslReq _ | .reqProbeSelf => true
  | _ => false

/-- The query that a query of its class redirects packets to. -/
def QueryTable.redirect : QueryClass → Option UInt64
  | .dslReq recvQueryID => some recvQueryID
  | _ => none

/-- The queries that the handlers of a query notify. -/
def Query.targets (q : Query) : List UInt64 :=
  match QueryTable.redirect q.cls with
  | some recvQueryID => [recvQueryID]
  | none => q.subscribers

namespace QueryTable

/-- What holds while the handlers of the queries in `active` are running. -/
structure Sound (key : Ptr → ℕ) (active : Finset Ptr) (s : QueryTable) : Prop where
  indexed : Indexed ∅ s
  alive : ∀ p ∈ active, ∃ q, s.heap p = some q
  finished : ∀ p q, s.heap p = some q → q.finished = true → p ∈ active
  subscribers : ∀ p q, s.heap p = some q → q.subscribers.length ≤ 1
  rank : ∀ p q p' q', s.heap p = some q → s.heap p' = some q' → q'.qid ∈ q.targets →
    notifies q'.cls = true → key p < key p'
  claimed : s.observed.reused = false → ∀ p q i t qt, s.heap p = some q → i ∈ q.subscribers →
    s.heap t = some qt → qt.qid = i → s.observed.subscriber p = some t
  fresh : s.observed.reused = false → ∀ e ∈ s.observed.notified, e.1 = some e.2

/-- Every query is still there, and as it was. -/
def Grows (s s' : QueryTable) : Prop := ∀ p q, s.heap p = some q → s'.heap p = some q

/-- A step succeeds, and what it leaves is sound. -/
def Ends (active : Finset Ptr) (r : Option QueryTable) : Prop :=
  ∃ s' key, r = some s' ∧ Sound key active s'

/-- A step succeeds, and only adds queries. -/
def Adds (active : Finset Ptr) (s : QueryTable) (r : Option QueryTable) : Prop :=
  ∃ s' key, r = some s' ∧ Sound key active s' ∧ Grows s s'

variable {s s' : QueryTable} {key : Ptr → ℕ} {active : Finset Ptr} {p p' : Ptr} {q q' : Query}
  {id : UInt64} {r : Option QueryTable} {cls : QueryClass} {b : Birth} {c : Choice}
  {notify : Notify} {env : ℕ → Choice} {m : Notification}

theorem Grows.refl (s : QueryTable) : Grows s s := fun _ _ h ↦ h

theorem Grows.trans {s'' : QueryTable} (h : Grows s s') (h' : Grows s' s'') : Grows s s'' :=
  fun p q hp ↦ h' p q (h p q hp)

theorem Adds.ends (h : Adds active s r) : Ends active r := by
  obtain ⟨s', key', hr, hs', -⟩ := h
  exact ⟨s', key', hr, hs'⟩

theorem Sound.adds (h : Sound key active s) : Adds active s (some s) :=
  ⟨s, key, rfl, h, Grows.refl s⟩

theorem Sound.ends (h : Sound key active s) : Ends active (some s) := h.adds.ends

/-- Steps that add queries, one after the other. -/
theorem Adds.bind {f : QueryTable → Option QueryTable} (h : Adds active s r)
    (hf : ∀ s' key, Sound key active s' → Grows s s' → Adds active s' (f s')) :
    Adds active s (r.bind f) := by
  obtain ⟨s', key', rfl, hs', hgrow⟩ := h
  obtain ⟨s'', key'', hf', hs'', hgrow'⟩ := hf s' key' hs' hgrow
  exact ⟨s'', key'', hf', hs'', hgrow.trans hgrow'⟩

/-- Steps one after the other. -/
theorem Ends.bind {f : QueryTable → Option QueryTable} {active' : Finset Ptr}
    (h : Ends active r) (hf : ∀ s' key, Sound key active s' → Ends active' (f s')) :
    Ends active' (r.bind f) := by
  obtain ⟨s', key', rfl, hs'⟩ := h
  exact hf s' key' hs'

theorem sound_new (key : Ptr → ℕ) : Sound key ∅ new where
  indexed := indexed_new
  alive _ h := absurd h (Finset.notMem_empty _)
  finished _ _ h := absurd h (Option.some_ne_none _).symm
  subscribers _ _ h := absurd h (Option.some_ne_none _).symm
  rank _ _ _ _ h := absurd h (Option.some_ne_none _).symm
  claimed _ _ _ _ _ _ h := absurd h (Option.some_ne_none _).symm
  fresh _ _ h := absurd h List.not_mem_nil

/-- The count of handlers has no bearing on the table. -/
theorem Sound.handled (h : Sound key active s) (n : ℕ) :
    Sound key active { s with handled := n } where
  indexed := ⟨h.indexed.entry, h.indexed.filed, h.indexed.recorded, h.indexed.tidy,
    h.indexed.lt_created⟩
  alive := h.alive
  finished := h.finished
  subscribers := h.subscribers
  rank := h.rank
  claimed := h.claimed
  fresh := h.fresh

/-- Further handlers may be called. -/
theorem Sound.mono {active' : Finset Ptr} (h : Sound key active s) (hsub : active ⊆ active')
    (halive : ∀ p ∈ active', ∃ q, s.heap p = some q) : Sound key active' s where
  indexed := h.indexed
  alive := halive
  finished p q hp hf := hsub (h.finished p q hp hf)
  subscribers := h.subscribers
  rank := h.rank
  claimed := h.claimed
  fresh := h.fresh

theorem Sound.call (h : Sound key active s) (hp : s.heap p = some q) :
    Sound key (insert p active) s := by
  refine h.mono (Finset.subset_insert p active) ?_
  intro p' hp'
  rcases Finset.mem_insert.1 hp' with rfl | hmem
  · exact ⟨q, hp⟩
  · exact h.alive p' hmem

/-- No more handlers run than there are queries. -/
theorem Sound.card_le (h : Sound key active s) : active.card ≤ s.created := by
  have hsub : active ⊆ Finset.range s.created := by
    intro p hp
    obtain ⟨q, hq⟩ := h.alive p hp
    exact Finset.mem_range.2 (h.indexed.lt_created p q hq)
  exact (Finset.card_le_card hsub).trans (Finset.card_range _).le

/-! ### A query changes itself -/

/-- A running handler may finish its query, and change its deadline. -/
theorem Sound.update (h : Sound key active s) (hmem : p ∈ active) (hp : s.heap p = some q)
    (hid : q'.qid = q.qid) (hcls : q'.cls = q.cls) (hsubs : q'.subscribers = q.subscribers) :
    Sound key active { s with heap := Function.update s.heap p (some q') } := by
  have htargets : q'.targets = q.targets := by rw [Query.targets, Query.targets, hcls, hsubs]
  -- an object was there before, and has kept all but its deadline and flag
  have hold : ∀ p₁ q₁, Function.update s.heap p (some q') p₁ = some q₁ → ∃ q₂, s.heap p₁ = some q₂ ∧
      q₁.qid = q₂.qid ∧ q₁.cls = q₂.cls ∧ q₁.subscribers = q₂.subscribers ∧
      q₁.targets = q₂.targets ∧ (p₁ = p ∨ q₁ = q₂) := by
    intro p₁ q₁ hq₁
    by_cases hp₁ : p₁ = p
    · subst hp₁
      rw [Function.update_self, Option.some.injEq] at hq₁
      subst hq₁
      exact ⟨q, hp, hid, hcls, hsubs, htargets, Or.inl rfl⟩
    · rw [Function.update_of_ne hp₁] at hq₁
      exact ⟨q₁, hq₁, rfl, rfl, rfl, rfl, Or.inr rfl⟩
  refine ⟨h.indexed.update hp hid, fun p₁ hp₁ ↦ ?_, fun p₁ q₁ hq₁ hf ↦ ?_, fun p₁ q₁ hq₁ ↦ ?_,
    fun p₁ q₁ p₂ q₂ hq₁ hq₂ hmem₂ hnot ↦ ?_, fun hr p₁ q₁ i t qt hq₁ hi ht hid₁ ↦ ?_, h.fresh⟩
  · by_cases hpp : p₁ = p
    · subst hpp
      exact ⟨q', Function.update_self ..⟩
    · obtain ⟨q₁, hq₁⟩ := h.alive p₁ hp₁
      exact ⟨q₁, (Function.update_of_ne hpp _ _).trans hq₁⟩
  · obtain ⟨q₂, hq₂, -, -, -, -, rfl | rfl⟩ := hold p₁ q₁ hq₁
    · exact hmem
    · exact h.finished p₁ q₁ hq₂ hf
  · obtain ⟨q₂, hq₂, -, -, hsubs₂, -⟩ := hold p₁ q₁ hq₁
    exact hsubs₂ ▸ h.subscribers p₁ q₂ hq₂
  · obtain ⟨q₃, hq₃, -, -, -, htargets₃, -⟩ := hold p₁ q₁ hq₁
    obtain ⟨q₄, hq₄, hid₄, hcls₄, -⟩ := hold p₂ q₂ hq₂
    rw [hid₄, htargets₃] at hmem₂
    exact h.rank p₁ q₃ p₂ q₄ hq₃ hq₄ hmem₂ (hcls₄ ▸ hnot)
  · obtain ⟨q₂, hq₂, -, -, hsubs₂, -⟩ := hold p₁ q₁ hq₁
    obtain ⟨qt₂, ht₂, hidt, -⟩ := hold t qt ht
    exact h.claimed hr p₁ q₂ i t qt₂ hq₂ (hsubs₂ ▸ hi) ht₂ (hidt ▸ hid₁)

theorem Sound.setFinished (h : Sound key active s) (hmem : p ∈ active) :
    Ends active (s.setFinished p) := by
  obtain ⟨q, hq⟩ := h.alive p hmem
  exact ⟨_, key, modify_eq hq _, h.update hmem hq rfl rfl rfl⟩

/-- A new deadline, and what the handler does then with its query. -/
theorem Sound.computeTimeout (h : Sound key active s) (hmem : p ∈ active) (hp : s.heap p = some q)
    (tv : Timeval) : ∃ s', s.computeTimeout p tv = some s' ∧ Sound key active s' ∧
      s'.heap p = some { q with timeoutTV := tv } :=
  ⟨_, modify_eq hp _, h.update hmem hp rfl rfl rfl, Function.update_self ..⟩

/-- The handler of a query has returned. -/
theorem Sound.updateTimeout (h : Sound key (insert p active) s) (hp : p ∉ active) :
    Ends active (s.updateTimeout p) := by
  obtain ⟨q, hq⟩ := h.alive p (Finset.mem_insert_self p active)
  obtain ⟨s', hs', hindexed, hnoted, hheap⟩ := h.indexed.updateTimeout hq
  have hold : ∀ p₁ q₁, s'.heap p₁ = some q₁ →
      s.heap p₁ = some q₁ ∧ (p₁ = p → q₁.finished = false) := by
    intro p₁ q₁ hq₁
    rw [hheap] at hq₁
    by_cases hp₁ : p₁ = p
    · subst hp₁
      rw [Function.update_self] at hq₁
      cases hf : q.finished with
      | true =>
        rw [hf, if_pos rfl] at hq₁
        exact absurd hq₁ (Option.some_ne_none _).symm
      | false =>
        rw [hf, if_neg Bool.false_ne_true, Option.some.injEq] at hq₁
        subst hq₁
        exact ⟨hq, fun _ ↦ hf⟩
    · rw [Function.update_of_ne hp₁] at hq₁
      exact ⟨hq₁, fun heq ↦ absurd heq hp₁⟩
  refine ⟨s', key, hs', hindexed, fun p₁ hp₁ ↦ ?_, fun p₁ q₁ hq₁ hf ↦ ?_,
    fun p₁ q₁ hq₁ ↦ h.subscribers p₁ q₁ (hold p₁ q₁ hq₁).1,
    fun p₁ q₁ p₂ q₂ hq₁ hq₂ ↦ h.rank p₁ q₁ p₂ q₂ (hold p₁ q₁ hq₁).1 (hold p₂ q₂ hq₂).1,
    fun hr p₁ q₁ i t qt hq₁ hi ht hid ↦ ?_, hnoted ▸ h.fresh⟩
  · have hne : p₁ ≠ p := fun heq ↦ hp (heq ▸ hp₁)
    obtain ⟨q₁, hq₁⟩ := h.alive p₁ (Finset.mem_insert_of_mem hp₁)
    exact ⟨q₁, by rw [hheap, Function.update_of_ne hne]; exact hq₁⟩
  · obtain ⟨hq₁', hself⟩ := hold p₁ q₁ hq₁
    rcases Finset.mem_insert.1 (h.finished p₁ q₁ hq₁' hf) with heq | hmem
    · exact absurd (hf.symm.trans (hself heq)) Bool.false_ne_true.symm
    · exact hmem
  · rw [hnoted] at hr ⊢
    exact h.claimed hr p₁ q₁ i t qt (hold p₁ q₁ hq₁).1 hi (hold t qt ht).1 hid

/-! ### New queries -/

/-- The keys of the queries that are there are bounded. -/
theorem Sound.exists_bound (h : Sound key active s) :
    ∃ F, ∀ p q, s.heap p = some q → key p < F := by
  refine ⟨(Finset.range s.created).sup key + 1, fun p q hp ↦ Nat.lt_succ_of_le ?_⟩
  exact Finset.le_sup (f := key) (Finset.mem_range.2 (h.indexed.lt_created p q hp))

/-- A new query replaces no other. -/
theorem Sound.grows (h : Sound key active s)
    (hheap : s'.heap = Function.update s.heap s.created (some q)) : Grows s s' := by
  intro p' q' hp'
  rw [hheap, Function.update_of_ne (Nat.ne_of_lt (h.indexed.lt_created p' q' hp'))]
  exact hp'

/-- A new query gets a key below those of the queries that it notifies, and above those of the
queries that notify its id. -/
theorem Sound.create (h : Sound key active s) (cls : QueryClass) (b : Birth)
    (subscriber : Option UInt64) (k : ℕ)
    (hsub : ∀ i ∈ (Query.mk b.qid cls b.timeoutTV false subscriber.toList).targets,
      ∃ p q, s.heap p = some q ∧ q.qid = i ∧ (notifies q.cls = true → k < key p))
    (hk : ∀ p q, s.heap p = some q → (∀ p q, s.heap p = some q → q.qid ≠ b.qid) →
      b.qid ∈ q.targets → key p < k) :
    (∃ s', s.create cls b subscriber = some (false, s') ∧ Sound key active s' ∧
      s'.heap = s.heap) ∨
    (∃ s', s.create cls b subscriber = some (true, s') ∧
      Sound (Function.update key s.created k) active s' ∧
      s'.heap = Function.update s.heap s.created
        (some ⟨b.qid, cls, b.timeoutTV, false, subscriber.toList⟩)) := by
  rcases h.indexed.create cls b subscriber with ⟨s', hs', hi, hheap, hnoted⟩ |
    ⟨s', hs', hi, hfree, hheap, hnoted⟩
  · exact Or.inl ⟨s', hs', ⟨hi, hheap ▸ h.alive, hheap ▸ h.finished, hheap ▸ h.subscribers,
      hheap ▸ h.rank, by rw [hheap, hnoted]; exact h.claimed, hnoted ▸ h.fresh⟩, hheap⟩
  right
  refine ⟨s', hs', ?_, hheap⟩
  set q₀ : Query := ⟨b.qid, cls, b.timeoutTV, false, subscriber.toList⟩ with hq₀
  have hne : ∀ p q, s.heap p = some q → p ≠ s.created :=
    fun p q hp ↦ Nat.ne_of_lt (h.indexed.lt_created p q hp)
  -- an object is the new one or an old one
  have hold : ∀ p q, s'.heap p = some q → (p = s.created ∧ q = q₀) ∨ s.heap p = some q := by
    intro p q hp
    rw [hheap] at hp
    by_cases hpp : p = s.created
    · rw [hpp, Function.update_self, Option.some.injEq] at hp
      exact Or.inl ⟨hpp, hp.symm⟩
    · rw [Function.update_of_ne hpp] at hp
      exact Or.inr hp
  have hreused : s'.observed.reused = false → s.observed.reused = false ∧
      s.subscribed b.qid = false := by
    intro hr
    rw [hnoted.reused] at hr
    exact Bool.or_eq_false_iff.1 hr
  refine ⟨hi, fun p hp ↦ ?_, fun p q hp hf ↦ ?_, fun p q hp ↦ ?_,
    fun p q p' q' hp hp' hmem hnot ↦ ?_, fun hr p q i t qt hp hmem ht hid ↦ ?_, fun hr e he ↦ ?_⟩
  · obtain ⟨q, hq⟩ := h.alive p hp
    exact ⟨q, by rw [hheap, Function.update_of_ne (hne p q hq)]; exact hq⟩
  · rcases hold p q hp with ⟨-, rfl⟩ | hp
    · exact absurd hf Bool.false_ne_true
    · exact h.finished p q hp hf
  · rcases hold p q hp with ⟨-, rfl⟩ | hp
    · cases subscriber with
      | none => exact Nat.zero_le 1
      | some i => exact Nat.le_refl 1
    · exact h.subscribers p q hp
  · rcases hold p q hp with ⟨rfl, rfl⟩ | hp
    · -- the new query notifies an old one
      obtain ⟨p₁, q₁, hq₁, hid, hlt⟩ := hsub _ hmem
      rcases hold p' q' hp' with ⟨-, rfl⟩ | hp'
      · exact absurd hid (hfree p₁ q₁ hq₁)
      · have hpp : p' = p₁ := h.indexed.eq_of_qid hp' hq₁ hid.symm
        subst hpp
        rw [hp', Option.some.injEq] at hq₁
        subst hq₁
        rw [Function.update_self, Function.update_of_ne (hne p' q' hp')]
        exact hlt hnot
    · rw [Function.update_of_ne (hne p q hp)]
      rcases hold p' q' hp' with ⟨rfl, rfl⟩ | hp'
      · rw [Function.update_self]
        exact hk p q hp hfree hmem
      · rw [Function.update_of_ne (hne p' q' hp')]
        exact h.rank p q p' q' hp hp' hmem hnot
  · rcases hold p q hp with ⟨rfl, rfl⟩ | hp
    · -- the query that subscribes is the one in the table with the id
      rw [hnoted.subscriber i (Option.mem_toList.1 hmem)]
      obtain ⟨u, hu⟩ := hi.recorded t qt ht (Set.notMem_empty t)
      rw [← hid, hu]
      rfl
    · rw [hnoted.kept p (hne p q hp)]
      rcases hold t qt ht with ⟨rfl, rfl⟩ | ht
      · -- nobody had a subscription under the new id
        have hall := List.any_eq_false.1 (hreused hr).2 p
          (List.mem_range.2 (h.indexed.lt_created p q hp))
        rw [hp, Option.any_some, List.contains_iff_mem] at hall
        have hid : b.qid = i := hid
        exact absurd (hid ▸ hmem) hall
      · exact h.claimed (hreused hr).1 p q i t qt hp hmem ht hid
  · rw [hnoted.notified] at he
    exact h.fresh (hreused hr).1 e he

end QueryTable

end Meridian

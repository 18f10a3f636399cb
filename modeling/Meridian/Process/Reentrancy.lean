import Meridian.Process.TableCalls

/-!
# The query table after every call

Every handler ends, whatever it makes and whomever it notifies, and what it leaves is sound. So
every outermost call ends, no assertion of the table fails in it, and after it the indexes describe
the same queries, none of which is finished.

`Room` is what a query needs to make others that notify it: a key for them, below its own if it
notifies others itself.
-/

namespace Meridian.QueryTable

open Lib Lib.Buckets

/-- There is a key for queries that notify `cid`. A query that has that key itself, or a higher one,
notifies nobody who has gone. -/
structure Room (key : Ptr → ℕ) (F : ℕ) (cid : UInt64) (s : QueryTable) : Prop where
  below : ∀ p q, s.heap p = some q →
    key p < F ∨ ∀ i ∈ q.targets, ∃ p' q', s.heap p' = some q' ∧ q'.qid = i
  creator : ∃ p q, s.heap p = some q ∧ q.qid = cid ∧ (notifies q.cls = true → F < key p)

variable {s s' : QueryTable} {key : Ptr → ℕ} {active : Finset Ptr} {p g : Ptr} {q qg : Query}
  {id cid : UInt64} {F d : ℕ} {cls : QueryClass} {b : Birth} {c : Choice} {notify : Notify}
  {env : ℕ → Choice} {m : Notification}

/-! ### Queries for other queries -/

theorem targets_eq (hq : redirect q.cls = none) : q.targets = q.subscribers := by
  rw [Query.targets, hq]

/-- A query that notifies nobody has room for others. -/
theorem Sound.room (h : Sound key active s) (hp : s.heap p = some q)
    (hq : notifies q.cls = false) : ∃ F, Room key F q.qid s := by
  obtain ⟨F, hF⟩ := h.exists_bound
  exact ⟨F, fun p' q' hp' ↦ Or.inl (hF p' q' hp'), p, q, hp, rfl,
    fun hnot ↦ absurd (hq.symm.trans hnot) Bool.false_ne_true⟩

/-- The room is the same after one more query has taken its place there. -/
theorem Room.insert (h : Room key F cid s) (hs : Sound key active s) {k : ℕ} {q₀ : Query}
    (htargets : ∀ i ∈ q₀.targets, ∃ p q, s.heap p = some q ∧ q.qid = i)
    (hheap : s'.heap = Function.update s.heap s.created (some q₀)) :
    Grows s s' ∧ Room (Function.update key s.created k) F cid s' := by
  have hgrow : Grows s s' := hs.grows hheap
  refine ⟨hgrow, fun p q hp ↦ ?_, ?_⟩
  · rw [hheap] at hp
    by_cases hpp : p = s.created
    · rw [hpp, Function.update_self, Option.some.injEq] at hp
      subst hp
      right
      intro i hi
      obtain ⟨p', q', hp', hid⟩ := htargets i hi
      exact ⟨p', q', hgrow p' q' hp', hid⟩
    · rw [Function.update_of_ne hpp] at hp
      rw [Function.update_of_ne hpp]
      refine (h.below p q hp).imp id ?_
      intro hall i hi
      obtain ⟨p', q', hp', hid⟩ := hall i hi
      exact ⟨p', q', hgrow p' q' hp', hid⟩
  · obtain ⟨p, q, hp, hid, hlt⟩ := h.creator
    refine ⟨p, q, hgrow p q hp, hid, ?_⟩
    rw [Function.update_of_ne (Nat.ne_of_lt (hs.indexed.lt_created p q hp))]
    exact hlt

theorem Sound.createAll (hcls : redirect cls = none) (births : List Birth) :
    ∀ {s : QueryTable} {key : Ptr → ℕ}, Sound key active s → Room key F cid s →
      Adds active s (s.createAll cls cid births) := by
  induction births with
  | nil =>
    intro s key h hroom
    exact h.adds
  | cons b births ih =>
    intro s key h hroom
    have htargets : (Query.mk b.qid cls b.timeoutTV false (some cid).toList).targets = [cid] :=
      targets_eq hcls
    have hcreate := h.create cls b (some cid) F
      (by
        intro i hi
        rw [htargets, List.mem_singleton] at hi
        exact hi ▸ hroom.creator)
      (by
        intro p q hp hfree hmem
        rcases hroom.below p q hp with hlt | hall
        · exact hlt
        · obtain ⟨p', q', hp', hid⟩ := hall _ hmem
          exact absurd hid (hfree p' q' hp'))
    show Adds active s (((s.create cls b (some cid)).map Prod.snd).bind
      fun s ↦ s.createAll cls cid births)
    rcases hcreate with ⟨s₁, hs₁, h₁, hheap⟩ | ⟨s₁, hs₁, h₁, hheap⟩
    · -- the id is taken: nothing has changed
      have hgrow : Grows s s₁ := fun p q hp ↦ hheap ▸ hp
      have hroom₁ : Room key F cid s₁ := ⟨hheap ▸ hroom.below, hheap ▸ hroom.creator⟩
      obtain ⟨s₂, key₂, hs₂, h₂, hgrow₂⟩ := ih h₁ hroom₁
      exact ⟨s₂, key₂, by rw [hs₁]; exact hs₂, h₂, hgrow.trans hgrow₂⟩
    · obtain ⟨hgrow, hroom₁⟩ := hroom.insert h
        (by
          intro i hi
          rw [htargets, List.mem_singleton] at hi
          obtain ⟨p, q, hp, hid, -⟩ := hroom.creator
          exact ⟨p, q, hp, hi ▸ hid⟩)
        hheap
      obtain ⟨s₂, key₂, hs₂, h₂, hgrow₂⟩ := ih h₁ hroom₁
      exact ⟨s₂, key₂, by rw [hs₁]; exact hs₂, h₂, hgrow.trans hgrow₂⟩

/-- A query is made, for a query that notifies nobody or for none. It has room for others, or its id
was taken. -/
theorem Sound.createFor (h : Sound key active s) (hcls : redirect cls = none) (b : Birth)
    (subscriber : Option UInt64)
    (hsub : ∀ i ∈ subscriber, ∃ p q, s.heap p = some q ∧ q.qid = i ∧ notifies q.cls = false) :
    (∃ s', s.create cls b subscriber = some (false, s') ∧ Sound key active s' ∧ Grows s s') ∨
    (∃ s' key' F q, s.create cls b subscriber = some (true, s') ∧ Sound key' active s' ∧
      Room key' F b.qid s' ∧ Grows s s' ∧ s'.heap s.created = some q ∧ q.qid = b.qid ∧
      q.cls = cls) := by
  obtain ⟨F, hF⟩ := h.exists_bound
  set q₀ : Query := ⟨b.qid, cls, b.timeoutTV, false, subscriber.toList⟩ with hq₀
  have htargets : ∀ i ∈ q₀.targets, ∃ p q, s.heap p = some q ∧ q.qid = i ∧
      notifies q.cls = false := by
    intro i hi
    rw [targets_eq hcls, Option.mem_toList] at hi
    exact hsub i hi
  have hcreate := h.create cls b subscriber (F + 1)
    (by
      intro i hi
      obtain ⟨p, q, hp, hid, hnot⟩ := htargets i hi
      exact ⟨p, q, hp, hid, fun hyes ↦ absurd (hnot.symm.trans hyes) Bool.false_ne_true⟩)
    (fun p q hp _ _ ↦ Nat.lt_succ_of_lt (hF p q hp))
  rcases hcreate with ⟨s₁, hs₁, h₁, hheap⟩ | ⟨s₁, hs₁, h₁, hheap⟩
  · exact Or.inl ⟨s₁, hs₁, h₁, fun p q hp ↦ hheap ▸ hp⟩
  · right
    have hgrow : Grows s s₁ := h.grows hheap
    have hself : s₁.heap s.created = some q₀ := by rw [hheap, Function.update_self]
    have hroom : Room (Function.update key s.created (F + 1)) F b.qid s₁ := by
      refine ⟨fun p q hp ↦ ?_, s.created, q₀, hself, rfl, fun _ ↦ ?_⟩
      · rw [hheap] at hp
        by_cases hpp : p = s.created
        · rw [hpp, Function.update_self, Option.some.injEq] at hp
          subst hp
          right
          intro i hi
          obtain ⟨p', q', hp', hid, -⟩ := htargets i hi
          exact ⟨p', q', hgrow p' q' hp', hid⟩
        · rw [Function.update_of_ne hpp] at hp
          rw [Function.update_of_ne hpp]
          exact Or.inl (hF p q hp)
      · rw [Function.update_self]
        exact Nat.lt_succ_self F
    exact ⟨s₁, _, F, q₀, hs₁, h₁, hroom, hgrow, hself, rfl, rfl⟩

/-- A query is made, and its `init` makes others for it. -/
theorem Sound.createWith (h : Sound key active s) (b : Birth) (hcls : redirect cls = none)
    (subscriber : Option UInt64)
    (hsub : ∀ i ∈ subscriber, ∃ p q, s.heap p = some q ∧ q.qid = i ∧ notifies q.cls = false)
    (init : QueryTable → Option QueryTable)
    (hinit : ∀ s' key' F q, Sound key' active s' → Room key' F b.qid s' →
      s'.heap s.created = some q → q.qid = b.qid → q.cls = cls → Adds active s' (init s')) :
    Adds active s ((s.create cls b subscriber).bind fun r ↦
      if r.1 then init r.2 else some r.2) := by
  rcases h.createFor hcls b subscriber hsub with ⟨s₁, hs₁, h₁, hgrow⟩ |
    ⟨s₁, key₁, F, q, hs₁, h₁, hroom, hgrow, hp, hid, hq⟩
  · rw [hs₁]
    exact ⟨s₁, key, rfl, h₁, hgrow⟩
  · obtain ⟨s₂, key₂, hs₂, h₂, hgrow₂⟩ := hinit s₁ key₁ F q h₁ hroom hp hid hq
    rw [hs₁]
    exact ⟨s₂, key₂, hs₂, h₂, hgrow.trans hgrow₂⟩

/-- A query of a class that makes no others. -/
theorem Sound.createAlone (h : Sound key active s) (hcls : redirect cls = none) :
    Adds active s ((s.create cls b none).map Prod.snd) := by
  have := h.createWith b hcls none (fun _ hi ↦ absurd hi (Option.not_mem_none _)) some
    fun s' key' F q h' _ _ _ _ ↦ h'.adds
  rcases hr : s.create cls b none with _ | ⟨_ | _, s'⟩ <;> rw [hr] at this <;> exact this

/-- `handleRPC`: the new query notifies the thread that called. -/
theorem Sound.createReq (h : Sound key active s) (hp : s.heap p = some q)
    (hq : notifies q.cls = false) :
    Adds active s ((s.create (.dslReq q.qid) b none).map Prod.snd) := by
  obtain ⟨F, hF⟩ := h.exists_bound
  have hcreate := h.create (.dslReq q.qid) b none F
    (by
      intro i hi
      have hi' : i = q.qid := List.mem_singleton.1 hi
      exact ⟨p, q, hp, hi'.symm, fun hyes ↦ absurd (hq.symm.trans hyes) Bool.false_ne_true⟩)
    (fun p' q' hp' _ _ ↦ hF p' q' hp')
  rcases hcreate with ⟨s₁, hs₁, h₁, hheap⟩ | ⟨s₁, hs₁, h₁, hheap⟩
  · rw [hs₁]
    exact ⟨s₁, key, rfl, h₁, fun p' q' hp' ↦ hheap ▸ hp'⟩
  · rw [hs₁]
    exact ⟨s₁, _, rfl, h₁, h.grows hheap⟩

/-! ### What the handlers make -/

theorem Room.initAddNode (hroom : Room key F cid s) (h : Sound key active s)
    (reqProbe : Option Birth) : Adds active s (s.initAddNode cid reqProbe) :=
  Sound.createAll rfl reqProbe.toList h hroom

theorem Sound.initGossip (h : Sound key active s) (hp : s.heap p = some q)
    (hq : notifies q.cls = false) (addNode : Birth) (reqProbe : Option Birth) :
    Adds active s (s.initGossip q.qid addNode reqProbe) :=
  h.createWith _ rfl (some q.qid)
    (fun _ hi ↦ ⟨p, q, hp, Option.some.inj hi, hq⟩) _
    fun _ _ _ _ h' hroom _ _ _ ↦ hroom.initAddNode h' reqProbe

theorem Sound.createSource (h : Sound key active s) (hp : s.heap p = some q)
    (hq : notifies q.cls = false) (src : SourceBirth) :
    Adds active s (s.createSource q.qid src) := by
  cases src with
  | reqProbe b =>
    obtain ⟨F, hroom⟩ := h.room hp hq
    exact Sound.createAll rfl [b] h hroom
  | reqProbeSelf b probes =>
    exact h.createWith _ rfl (some q.qid)
      (fun _ hi ↦ ⟨p, q, hp, Option.some.inj hi, hq⟩) _
      fun _ _ _ _ h' hroom _ _ _ ↦
        Sound.createAll rfl probes h' hroom

theorem Sound.createSources (hq : notifies q.cls = false) (srcNodes : List SourceBirth) :
    ∀ {s : QueryTable} {key : Ptr → ℕ}, Sound key active s → s.heap p = some q →
      Adds active s (srcNodes.foldlM (fun s src ↦ s.createSource q.qid src) s) := by
  induction srcNodes with
  | nil =>
    intro s key h _
    exact h.adds
  | cons src srcNodes ih =>
    intro s key h hp
    exact (h.createSource hp hq src).bind fun s' key' h' hgrow ↦ ih h' (hgrow p q hp)

theorem Sound.performGossip (gossips : List GossipBirths) :
    ∀ {s : QueryTable} {key : Ptr → ℕ}, Sound key active s →
      Adds active s (s.performGossip gossips) := by
  induction gossips with
  | nil =>
    intro s key h
    exact h.adds
  | cons g gossips ih =>
    intro s key h
    refine h.createWith g.gossip (show redirect .gossip = none from rfl) none
      (fun _ hi ↦ absurd hi (Option.not_mem_none _)) (fun s ↦
        (s.initGossip g.gossip.qid g.addNode g.reqProbe).bind fun s ↦ s.performGossip gossips) ?_
    intro s' key' F q h' _ hp hid hcls
    have hq : notifies q.cls = false := by rw [hcls]; rfl
    rw [← hid]
    exact (h'.initGossip hp hq g.addNode g.reqProbe).bind fun s'' key'' h'' _ ↦ ih h''

theorem Sound.runOnce (h : Sound key active s) (schedObj : SchedObject) (c : Choice) :
    Adds active s (s.runOnce schedObj c) := by
  cases schedObj with
  | gossip => exact Sound.performGossip c.gossips h
  | ringManage =>
    show Adds active s (s.performRingManagement c.ringManage)
    cases c.ringManage with
    | none => exact h.adds
    | some b => exact h.createAlone rfl

/-! ### Handlers -/

theorem Sound.handleForward (h : Sound key active s) (hmem : p ∈ active) :
    Ends active (s.handleForward c p) := by
  rw [QueryTable.handleForward]
  split
  · exact h.setFinished hmem
  · obtain ⟨q, hq⟩ := h.alive p hmem
    obtain ⟨s', hs', h', -⟩ := h.computeTimeout hmem hq c.timeoutTV
    exact ⟨s', key, hs', h'⟩

theorem Sound.sendReqProbes (h : Sound key active s) (hmem : p ∈ active) (hp : s.heap p = some q)
    (hq : notifies q.cls = false) : Ends active (s.sendReqProbes c p q) := by
  rw [QueryTable.sendReqProbes]
  split
  · exact h.setFinished hmem
  · obtain ⟨s', hs', h', hp'⟩ := h.computeTimeout hmem hp c.timeoutTV
    rw [hs']
    show Ends active (if c.finishes then s'.setFinished p
      else s'.createAll .reqProbe q.qid c.reqProbes)
    split
    · exact h'.setFinished hmem
    · obtain ⟨F, hroom⟩ := h'.room hp' hq
      exact (Sound.createAll rfl c.reqProbes h' hroom).ends

/-- The notifications of the targets of a query end, in a table with the same queries. -/
def Answered (key : Ptr → ℕ) (active : Finset Ptr) (notify : Notify) (q : Query)
    (s : QueryTable) : Prop :=
  notifies q.cls = true → ∀ i ∈ q.targets, ∀ m s', Sound key active s' → s'.heap = s.heap →
    s'.created = s.created → Ends active (notify m i s')

/-- The object that is called is the one that has subscribed. -/
theorem Sound.noteNotified (h : Sound key active s) (hp : s.heap p = some q)
    (hid : id ∈ q.subscribers) :
    Sound key active (s.noteNotified p id) ∧ (s.noteNotified p id).heap = s.heap ∧
      (s.noteNotified p id).created = s.created := by
  rw [QueryTable.noteNotified]
  split
  · exact ⟨h, rfl, rfl⟩
  · rename_i t u hentry
    obtain ⟨-, -, qt, ht, hqt⟩ := h.indexed.entry id t u hentry
    refine ⟨⟨h.indexed.note _, h.alive, h.finished, h.subscribers, h.rank, h.claimed,
      fun hr e he ↦ ?_⟩, rfl, rfl⟩
    rcases List.mem_cons.1 he with rfl | he
    · exact h.claimed hr p q id t qt hp hid ht hqt
    · exact h.fresh hr e he

/-- The results of a query are passed on, and it is finished. -/
theorem Sound.notifySubscribers (h : Sound key active s) (hmem : p ∈ active)
    (hp : s.heap p = some q)
    (hn : ∀ i ∈ q.subscribers, Ends active (notify .latency i (s.noteNotified p i))) :
    Ends active (s.notifySubscribers notify p q) := by
  have hlen := h.subscribers p q hp
  have hfold : Ends active
      (q.subscribers.foldlM (fun s i ↦ notify .latency i (s.noteNotified p i)) s) := by
    match hsubs : q.subscribers with
    | [] => exact h.ends
    | [i] =>
      exact (hn i (by rw [hsubs]; exact List.mem_singleton_self i)).bind fun s' key' h' ↦ h'.ends
    | i :: j :: l =>
      rw [hsubs, List.length_cons, List.length_cons] at hlen
      omega
  exact hfold.bind fun s' key' h' ↦ h'.setFinished hmem

/-- `handleEvent` ends if the notifications in it do. -/
theorem Sound.handleEvent (h : Sound key active s) (hmem : p ∈ active) (hp : s.heap p = some q)
    (hn : Answered key active notify q s) :
    Ends active (s.handleEvent notify c p q) := by
  have hfinish : Ends active (if c.passes then s.setFinished p else some s) := by
    split
    · exact h.setFinished hmem
    · exact h.ends
  have hpass : notifies q.cls = true → redirect q.cls = none →
      Ends active (if c.passes then s.notifySubscribers notify p q else some s) := by
    intro hnot hred
    split
    · refine h.notifySubscribers hmem hp fun i hi ↦ ?_
      obtain ⟨h', hheap, hcreated⟩ := h.noteNotified hp hi
      exact hn hnot i (targets_eq hred ▸ hi) _ _ h' hheap hcreated
    · exact h.ends
  rw [QueryTable.handleEvent]
  cases hcls : q.cls with
  | addNode => exact hpass (by rw [hcls]; rfl) (by rw [hcls]; rfl)
  | probe => exact hpass (by rw [hcls]; rfl) (by rw [hcls]; rfl)
  | reqProbe => exact hpass (by rw [hcls]; rfl) (by rw [hcls]; rfl)
  | dslReq i =>
    refine hn (by rw [hcls]; rfl) i ?_ _ _ h rfl rfl
    rw [Query.targets, hcls]
    exact List.mem_singleton_self i
  | ringManage => exact hfinish
  | handleClosest => exact hfinish
  | handleMC => exact hfinish
  | _ => exact h.ends

/-- The thread of a query runs, if the notification of a new `HandleGetDistanceGeneric` ends. -/
theorem Sound.runThread (h : Sound key active s) (hp : s.heap p = some q)
    (hq : notifies q.cls = false)
    (hself : ∀ s' key' g qg, Sound key' active s' → s'.heap g = some qg →
      qg.cls = .handleGetDistance → g ∉ active → Ends active (notify .latency qg.qid s')) :
    Ends active (s.runThread notify c q) := by
  rw [QueryTable.runThread]
  split
  · exact h.ends
  · exact (h.createReq hp hq).ends
  · rename_i b srcNodes _
    rcases h.createFor (show redirect .handleGetDistance = none from rfl) b none
      (fun _ hi ↦ absurd hi (Option.not_mem_none _)) with ⟨s₁, hs₁, h₁, -⟩ |
      ⟨s₁, key₁, F, qg, hs₁, h₁, -, -, hg, hid, hcls⟩
    · rw [hs₁]
      exact ⟨s₁, key, rfl, h₁⟩
    · have hqg : notifies qg.cls = false := by rw [hcls]; rfl
      rw [hs₁]
      show Ends active (s₁.initGetDistance notify b.qid srcNodes)
      rw [initGetDistance, ← hid]
      split
      · -- the new query is not one of those whose handlers are running
        refine hself s₁ key₁ s.created qg h₁ hg hcls fun hmem ↦ ?_
        obtain ⟨q', hq'⟩ := h.alive _ hmem
        exact Nat.lt_irrefl _ (h.indexed.lt_created _ q' hq')
      · exact (Sound.createSources hqg srcNodes h₁ hg).ends

/-- `handleLatency` ends if the notifications in it do. -/
theorem Sound.handleLatency (h : Sound key active s) (hmem : p ∈ active) (hp : s.heap p = some q)
    (hn : Answered key active notify q s)
    (hself : q.cls = .dslRecv → ∀ s' key' g qg, Sound key' active s' → s'.heap g = some qg →
      qg.cls = .handleGetDistance → g ∉ active → Ends active (notify .latency qg.qid s')) :
    Ends active (s.handleLatency notify c p q) := by
  have hfinish : Ends active (if c.passes then s.setFinished p else some s) := by
    split
    · exact h.setFinished hmem
    · exact h.ends
  have hpass : notifies q.cls = true → redirect q.cls = none →
      Ends active (if c.passes then s.notifySubscribers notify p q else some s) := by
    intro hnot hred
    split
    · refine h.notifySubscribers hmem hp fun i hi ↦ ?_
      obtain ⟨h', hheap, hcreated⟩ := h.noteNotified hp hi
      exact hn hnot i (targets_eq hred ▸ hi) _ _ h' hheap hcreated
    · exact h.ends
  have hforward : notifies q.cls = false → Ends active (if c.passes then
      (if c.forwards then s.handleForward c p else s.sendReqProbes c p q) else some s) := by
    intro hq
    split
    · split
      · exact h.handleForward hmem
      · exact h.sendReqProbes hmem hp hq
    · exact h.ends
  rw [QueryTable.handleLatency]
  cases hcls : q.cls with
  | addNode => exact hpass (by rw [hcls]; rfl) (by rw [hcls]; rfl)
  | probe => exact hpass (by rw [hcls]; rfl) (by rw [hcls]; rfl)
  | reqProbeSelf => exact hpass (by rw [hcls]; rfl) (by rw [hcls]; rfl)
  | gossip => exact hfinish
  | handleReq => exact hfinish
  | handleGetDistance => exact hfinish
  | handleClosest => exact hforward (by rw [hcls]; rfl)
  | handleMC => exact hforward (by rw [hcls]; rfl)
  | dslRecv =>
    refine (h.runThread (c := c) hp (by rw [hcls]; rfl) (hself hcls)).bind fun s' key' h' ↦ ?_
    obtain ⟨q', hq'⟩ := h'.alive p hmem
    rw [hq']
    show Ends active (if c.finishes then s'.setFinished p else some s')
    split
    · exact h'.setFinished hmem
    · exact h'.ends
  | _ => exact h.ends

/-- The handler of a query at its deadline. It notifies nobody. -/
theorem Sound.handleQueryTimeout (h : Sound key active s) (hmem : p ∈ active) :
    Ends active (s.handleQueryTimeout c p q) := by
  have hforward : Ends active (if c.forwards then s.handleForward c p else s.setFinished p) := by
    split
    · exact h.handleForward hmem
    · exact h.setFinished hmem
  rw [QueryTable.handleQueryTimeout]
  cases q.cls with
  | queryScheduler schedObj =>
    refine (h.runOnce schedObj c).ends.bind fun s' key' h' ↦ ?_
    obtain ⟨q', hq'⟩ := h'.alive p hmem
    obtain ⟨s'', hs'', h'', -⟩ := h'.computeTimeout hmem hq' c.timeoutTV
    exact ⟨s'', key', hs'', h''⟩
  | handleClosest => exact hforward
  | handleMC => exact hforward
  | _ => exact h.setFinished hmem

/-! ### Notifications -/

/-- A handler is called, in a table where its query is one more whose handler is running. -/
theorem Sound.handle (h : Sound key active s) (hp : s.heap p = some q)
    (hn : Answered key (insert p active) notify q { s with handled := s.handled + 1 })
    (hself : q.cls = .dslRecv → ∀ s' key' g qg, Sound key' (insert p active) s' →
      s'.heap g = some qg → qg.cls = .handleGetDistance → g ∉ insert p active →
      Ends (insert p active) (notify .latency qg.qid s')) :
    Ends (insert p active) (s.handle env notify m p) := by
  have h' : Sound key (insert p active) { s with handled := s.handled + 1 } := (h.call hp).handled _
  have hmem := Finset.mem_insert_self p active
  rw [QueryTable.handle, hp]
  cases m with
  | packet => exact h'.handleEvent hmem hp hn
  | latency => exact h'.handleLatency hmem hp hn hself

/-- A notification ends if the handler of the query does that has the id. -/
theorem Sound.notifyQuery (h : Sound key active s)
    (hh : ∀ p q, s.heap p = some q → q.qid = id → p ∉ active ∧
      Ends (insert p active) (s.handle env (QueryTable.notifyQuery env d) m p)) :
    Ends active (QueryTable.notifyQuery env (d + 1) m id s) := by
  rw [QueryTable.notifyQuery]
  split
  · exact h.ends
  · rename_i p t hentry
    obtain ⟨-, -, q, hp, hid⟩ := h.indexed.entry id p t hentry
    obtain ⟨hnot, hends⟩ := hh p q hp hid
    exact hends.bind fun s' key' h' ↦ h'.updateTimeout hnot

/-- A `HandleGetDistanceGeneric` notifies nobody, so its notification ends at any depth. -/
theorem Sound.notifyGetDistance (h : Sound key active s) (hg : s.heap g = some qg)
    (hcls : qg.cls = .handleGetDistance) (hnot : g ∉ active) :
    Ends active (QueryTable.notifyQuery env (d + 1) m qg.qid s) := by
  refine h.notifyQuery fun p q hp hid ↦ ?_
  have hpg : p = g := h.indexed.eq_of_qid hp hg hid
  subst hpg
  rw [hg, Option.some.injEq] at hp
  subst hp
  refine ⟨hnot, h.handle hg (fun hyes ↦ ?_) fun heq ↦ ?_⟩
  · rw [hcls] at hyes
    exact absurd hyes Bool.false_ne_true
  · rw [hcls] at heq
    exact QueryClass.noConfusion heq

/-- A query may be notified by the running handlers: its own is not running, and if it notifies
others, it is above all of them. -/
def Callable (key : Ptr → ℕ) (active : Finset Ptr) (s : QueryTable) (id : UInt64) : Prop :=
  ∀ p q, s.heap p = some q → q.qid = id → p ∉ active ∧
    (notifies q.cls = true →
      ∀ a ∈ active, key a < key p ∧ ∀ qa, s.heap a = some qa → notifies qa.cls = true)

/-- The target of a query that notifies others may be notified by its handler. -/
theorem Callable.of_target (h : Sound key active s) (hp : s.heap p = some q)
    (hcall : Callable key active s q.qid) (hnot : notifies q.cls = true) (hid : id ∈ q.targets) :
    Callable key (insert p active) s id := by
  intro p' q' hp' hid'
  obtain ⟨-, habove⟩ := hcall p q hp rfl
  have hlt : notifies q'.cls = true → key p < key p' :=
    fun hnot' ↦ h.rank p q p' q' hp hp' (hid' ▸ hid) hnot'
  -- a query that notifies nobody is none of those whose handlers are running
  have hquiet : ∀ a ∈ insert p active, a = p' → notifies q'.cls = true := by
    intro a ha hap
    subst hap
    rcases Finset.mem_insert.1 ha with rfl | ha
    · rw [hp, Option.some.injEq] at hp'
      exact hp' ▸ hnot
    · exact (habove hnot a ha).2 q' hp'
  refine ⟨fun hmem ↦ ?_, fun hnot' a ha ↦ ?_⟩
  · have hlt' := hlt (hquiet p' hmem rfl)
    rcases Finset.mem_insert.1 hmem with rfl | hmem
    · exact Nat.lt_irrefl _ hlt'
    · exact Nat.lt_asymm hlt' (habove hnot p' hmem).1
  · rcases Finset.mem_insert.1 ha with rfl | ha
    · refine ⟨hlt hnot', fun qa hqa ↦ ?_⟩
      rw [hp, Option.some.injEq] at hqa
      exact hqa ▸ hnot
    · exact ⟨(habove hnot a ha).1.trans (hlt hnot'), (habove hnot a ha).2⟩

/-- Every notification ends: there is a handler left for every query whose handler is not yet
running, and two for those that a query without targets makes. -/
theorem Sound.notify_ends (d : ℕ) : ∀ {active : Finset Ptr} {s : QueryTable} {key : Ptr → ℕ}
    {id : UInt64} (m : Notification), Sound key active s → Callable key active s id →
    s.created + 2 ≤ d + active.card → Ends active (QueryTable.notifyQuery env d m id s) := by
  induction d with
  | zero =>
    intro active s key id m h _ hd
    have := h.card_le
    omega
  | succ d ih =>
    intro active s key id m h hcall hd
    refine h.notifyQuery fun p q hp hid ↦ ?_
    subst hid
    obtain ⟨hmem, -⟩ := hcall p q hp rfl
    have hcard := Finset.card_insert_of_notMem hmem
    have hle := (h.call hp).card_le
    refine ⟨hmem, h.handle hp (fun hnot i hi m' s' h' hheap hcreated ↦ ?_)
      fun _ s' key' g qg h' hg hcls hg' ↦ ?_⟩
    · have hcall' : Callable key (insert p active) s i := Callable.of_target h hp hcall hnot hi
      have hcreated : s'.created = s.created := hcreated
      have hcall'' : Callable key (insert p active) s' i := by
        rw [Callable, hheap]
        exact hcall'
      exact ih m' h' hcall'' (by rw [hcard, hcreated]; omega)
    · obtain ⟨e, rfl⟩ : ∃ e, d = e + 1 := ⟨d - 1, by omega⟩
      exact h'.notifyGetDistance hg hcls hg'

/-! ### Outermost calls -/

theorem Sound.notify_outermost (h : Sound key ∅ s) (m : Notification) (id : UInt64) :
    Ends ∅ (QueryTable.notifyQuery env s.depth m id s) :=
  Sound.notify_ends s.depth m h
    (fun p _ _ _ ↦ ⟨Finset.notMem_empty p, fun _ a ha ↦ absurd ha (Finset.notMem_empty a)⟩)
    (Nat.le_add_right _ _)

/-- Every query that is due is updated in its turn: until then it stays in the table. -/
theorem Sound.timeoutRounds (due : List Ptr) :
    ∀ {s : QueryTable} {key : Ptr → ℕ}, Sound key due.toFinset s → due.Nodup →
      Ends ∅ (due.foldlM (fun s p ↦ s.timeoutRound env p) s) := by
  induction due with
  | nil =>
    intro s key h _
    exact h.ends
  | cons p due ih =>
    intro s key h hnodup
    obtain ⟨hp, hnodup⟩ := List.nodup_cons.1 hnodup
    rw [List.toFinset_cons] at h
    obtain ⟨q, hq⟩ := h.alive p (Finset.mem_insert_self p _)
    have hround : Ends due.toFinset (s.timeoutRound env p) := by
      have hh := (h.handled (s.handled + 1)).handleQueryTimeout (q := q) (c := env s.handled)
        (Finset.mem_insert_self p _)
      rw [timeoutRound, hq]
      exact hh.bind fun s' key' h' ↦ h'.updateTimeout fun hmem ↦ hp (List.mem_toFinset.1 hmem)
    exact hround.bind fun s' key' h' ↦ ih h' hnodup

theorem Sound.handleTimeout (h : Sound key ∅ s) (curTime : Timeval) :
    Ends ∅ (s.handleTimeout env curTime) := by
  obtain ⟨hnodup, halive⟩ := h.indexed.dueQueries (normalizeTime curTime)
  refine Sound.timeoutRounds _ (h.mono (Finset.empty_subset _) fun p hp ↦ ?_) hnodup
  exact halive p (List.mem_toFinset.1 hp)

/-- A query is inserted from outside, and its `init` called. -/
theorem Sound.insertAndInit (h : Sound key ∅ s) (hcls : redirect cls = none)
    (init : QueryTable → Option QueryTable)
    (hinit : ∀ s' key' F, Sound key' ∅ s' → Room key' F b.qid s' → Ends ∅ (init s')) :
    Ends ∅ (s.insertAndInit cls b init) := by
  rw [QueryTable.insertAndInit]
  rcases h.createFor hcls b none (fun _ hi ↦ absurd hi (Option.not_mem_none _)) with
    ⟨s₁, hs₁, h₁, -⟩ | ⟨s₁, key₁, F, q, hs₁, h₁, hroom, -⟩
  · rw [hs₁]
    exact h₁.ends
  · rw [hs₁]
    exact hinit s₁ key₁ F h₁ hroom

theorem Sound.initRequest (h : Sound key ∅ s) (hroom : Room key F cid s) (probes : List Birth)
    (done : Bool) : Ends ∅ (s.initRequest env cid probes done) := by
  refine (Sound.createAll rfl probes h hroom).ends.bind fun s' key' h' ↦ ?_
  show Ends ∅ (if done then s'.notifyQLatency env cid else some s')
  split
  · exact h'.notify_outermost .latency cid
  · exact h'.ends

/-- Every outermost call ends, with no handler running any more. -/
theorem Sound.step (h : Sound key ∅ s) (env : ℕ → Choice) (e : Event) : Ends ∅ (s.step env e) := by
  have hrequest : ∀ (cls : QueryClass) (b : Birth) (probes : List Birth) (done : Bool),
      redirect cls = none →
      Ends ∅ (s.insertAndInit cls b fun s ↦ s.initRequest env b.qid probes done) :=
    fun cls b probes done hcls ↦ h.insertAndInit hcls _ fun s' key' F h' hroom ↦
      h'.initRequest hroom probes done
  cases e with
  | addNode b reqProbe =>
    exact h.insertAndInit rfl _ fun s' key' F h' hroom ↦ (hroom.initAddNode h' reqProbe).ends
  | queryScheduler schedObj b => exact h.insertAndInit rfl _ fun s' key' F h' _ ↦ h'.ends
  | handleReq b probes done => exact hrequest .handleReq b probes done rfl
  | handleClosest b probes done => exact hrequest .handleClosest b probes done rfl
  | handleMC b probes done => exact hrequest .handleMC b probes done rfl
  | dslRecv b => exact h.insertAndInit rfl _ fun s' key' F h' _ ↦ h'.ends
  | notifyQPacket id => exact h.notify_outermost .packet id
  | notifyQLatency id => exact h.notify_outermost .latency id
  | handleTimeout curTime => exact h.handleTimeout curTime
  | updateTimeout p finished =>
    rw [QueryTable.step]
    split
    · exact h.ends
    · rename_i q hq
      have h' := h.call hq
      have hmem := Finset.mem_insert_self p ∅
      have hset : Ends (insert p ∅) (if finished then s.setFinished p else some s) := by
        split
        · exact h'.setFinished hmem
        · exact h'.ends
      exact hset.bind fun s' key' h'' ↦ h''.updateTimeout (Finset.notMem_empty p)

/-! ### The indexes after every call -/

/-- Both indexes describe the same queries, and none of these is finished. -/
structure Consistent (s : QueryTable) : Prop where
  /-- A query whose recorded deadline is `t` is once in the vector under `t`, and in no other. -/
  once : ∀ (id : UInt64) (p : Ptr) (t : Timeval), s.queryTimeoutMap[id]? = some (p, t) →
    (bucket s.timeoutQueryMap t).count p = 1 ∧ ∀ t', t' ≠ t → p ∉ bucket s.timeoutQueryMap t'
  /-- The deadline of a vector is recorded for every query in it. -/
  recorded : ∀ t p, p ∈ bucket s.timeoutQueryMap t →
    ∃ q, s.heap p = some q ∧ s.queryTimeoutMap[q.qid]? = some (p, t)
  nonempty : ∀ t : Timeval, s.timeoutQueryMap[t]? ≠ some []
  /-- The entry of an id is a query, which has that id. -/
  entry : ∀ (id : UInt64) (p : Ptr) (t : Timeval), s.queryTimeoutMap[id]? = some (p, t) →
    ∃ q, s.heap p = some q ∧ q.qid = id
  unique : ∀ (id id' : UInt64) (p p' : Ptr) (t t' : Timeval) (q q' : Query),
    s.queryTimeoutMap[id]? = some (p, t) →
    s.queryTimeoutMap[id']? = some (p', t') → s.heap p = some q → s.heap p' = some q' →
    q.qid = q'.qid → p = p'
  unfinished : ∀ (id : UInt64) (p : Ptr) (t : Timeval) (q : Query),
    s.queryTimeoutMap[id]? = some (p, t) → s.heap p = some q →
    q.finished = false

theorem Sound.consistent (h : Sound key ∅ s) : s.Consistent where
  once id p t hpt := by
    obtain ⟨-, hmem, q, hq, hid⟩ := h.indexed.entry id p t hpt
    refine ⟨List.count_eq_one_of_mem h.indexed.tidy.nodup_bucket hmem, fun t' hne hmem' ↦ hne ?_⟩
    obtain ⟨q', hq', ht'⟩ := h.indexed.filed t' p hmem'
    rw [hq, Option.some.injEq] at hq'
    rw [← hq', hid, hpt, Option.some.injEq, Prod.mk.injEq] at ht'
    exact ht'.2.symm
  recorded := h.indexed.filed
  nonempty t ht := (h.indexed.tidy t [] ht).1 rfl
  entry id p t hpt := (h.indexed.entry id p t hpt).2.2
  unique id id' p p' t t' q q' _ _ hp hp' hid := h.indexed.eq_of_qid hp hp' hid
  unfinished id p t q _ hp := by
    refine Bool.eq_false_iff.2 fun hf ↦ ?_
    exact Finset.notMem_empty p (h.finished p q hp hf)

/-- Whatever the calls from outside, each of them ends, and what it leaves is sound. -/
theorem sound_after_calls (env : ℕ → Choice) (es : List Event) :
    ∃ s, run (fun s e ↦ QueryTable.step env s e) new es = some s ∧ ∃ key, Sound key ∅ s := by
  have hstep : ∀ s e, (∃ key, Sound key ∅ s) → True →
      ∃ s', QueryTable.step env s e = some s' ∧ ∃ key, Sound key ∅ s' := by
    rintro s e ⟨key, h⟩ -
    obtain ⟨s', key', hs', h'⟩ := h.step env e
    exact ⟨s', hs', key', h'⟩
  have hnew : ∃ key, Sound key ∅ new := ⟨fun _ ↦ 0, sound_new _⟩
  obtain ⟨s, hs⟩ := Option.isSome_iff_exists.1 (run_isSome hstep hnew
    (AllSteps.of_forall (fun _ _ ↦ trivial) new es))
  refine ⟨s, hs, ?_⟩
  exact run_invariant' (P := fun s ↦ ∃ key, Sound key ∅ s) (fun s e s' hs' hse ↦ by
    obtain ⟨s'', hs'', h''⟩ := hstep s e hs' trivial
    rw [hse, Option.some.injEq] at hs''
    exact hs'' ▸ h'') hnew hs

/-- **The query table.** Whatever the calls from outside, and whatever the handlers in them decide,
make and notify, every call ends, none of its assertions fails, and after it the two indexes describe
the same queries, none of which is finished. -/
theorem consistent_after_calls (env : ℕ → Choice) (es : List Event) :
    ∃ s, run (fun s e ↦ QueryTable.step env s e) new es = some s ∧ s.Consistent := by
  obtain ⟨s, hs, key, h⟩ := sound_after_calls env es
  exact ⟨s, hs, h.consistent⟩

end Meridian.QueryTable

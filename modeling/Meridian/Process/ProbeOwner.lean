import Meridian.Process.Probes

/-!
# Who closes a probe connection

A timeout closes the connection that is entered under the descriptor its query remembers. For DNS
probes this is always the query's own: an entry goes only together with its query. A TCP probe whose
connect fails loses its entry and lives on, so its descriptor can be given out again, and if it goes
to another TCP probe, the timeout of the first closes the connection of the second.

So the descriptors that `socket()` hands to TCP probes decide: `Careful` says that none of them is
still remembered by a TCP probe in the table.
-/

namespace Meridian.Probes

open Lib

variable {s s' : Probes} {kind k : ProbeKind} {fd fd' : ℕ} {id : UInt64} {q q' : ProbeQuery}

/-- What holds of a probe in the table: the entry under its descriptor is its own; for a TCP probe, if
there is one. -/
structure ProbeSound (s : Probes) (q : ProbeQuery) : Prop where
  dns : q.kind = .dns → ∀ fd, q.sockFD = some fd →
    s.connections .dns fd = some (q.qid, q.remoteNode) ∧ fd ∉ s.deleteVector .dns
  tcp : q.kind = .tcp → ∀ fd, q.sockFD = some fd →
    ∀ e, s.connections .tcp fd = some e → e = (q.qid, q.remoteNode)

/-- The invariant. -/
structure Sound (s : Probes) : Prop where
  isOpen : ∀ kind fd, (s.connections kind fd).isSome → s.isOpen fd = true
  disjoint : ∀ kind k fd, (s.connections kind fd).isSome → (s.connections k fd).isSome → kind = k
  collected : ∀ kind fd, fd ∈ s.deleteVector kind → (s.connections kind fd).isSome
  key : ∀ id q, s.table id = some (.probe q) → q.qid = id
  probes : ∀ id q, s.table id = some (.probe q) → s.ProbeSound q
  closings : ∀ c ∈ s.closings, c.entryID = c.query.qid

/-- The condition on a step: `socket()` gives a TCP probe no descriptor that another TCP probe in the
table still remembers. -/
def Careful (s : Probes) : Event → Prop
  | .probe .tcp _ _ (.opened newSock) =>
    ∀ id q, s.table id = some (.probe q) → q.kind = .tcp → q.sockFD ≠ some newSock
  | _ => True

theorem new_sound (isOpen : ℕ → Bool) : (new isOpen).Sound where
  isOpen := fun _ _ h ↦ absurd h (by simp [new])
  disjoint := fun _ _ _ h ↦ absurd h (by simp [new])
  collected := fun _ _ h ↦ absurd h (by simp [new])
  key := fun _ _ h ↦ absurd h (by simp [new])
  probes := fun _ _ h ↦ absurd h (by simp [new])
  closings := fun _ h ↦ absurd h (by simp [new])

/-! ### Two-dimensional updates -/

theorem update_update_self {α : Type} (f : ProbeKind → ℕ → α) (v : α) :
    Function.update f kind (Function.update (f kind) fd v) kind fd = v := by
  rw [Function.update_self, Function.update_self]

theorem update_update_of_ne {α : Type} (f : ProbeKind → ℕ → α) (v : α)
    (h : ¬ (k = kind ∧ fd' = fd)) :
    Function.update f kind (Function.update (f kind) fd v) k fd' = f k fd' := by
  by_cases hk : k = kind
  · subst hk
    rw [Function.update_self, Function.update_of_ne fun hfd ↦ h ⟨rfl, hfd⟩]
  · rw [Function.update_of_ne hk]

/-! ### The table -/

/-- A handler leaves the probe as it is, or finishes it. -/
theorem handleLatency_cases (inRemoteNodes : List NodeIdentLat) (q : ProbeQuery) :
    q.handleLatency inRemoteNodes = q ∨
      (q.handleLatency inRemoteNodes).qid = q.qid ∧
        (q.handleLatency inRemoteNodes).finished = true := by
  unfold ProbeQuery.handleLatency
  split
  · split
    · exact Or.inl rfl
    · exact Or.inr ⟨rfl, rfl⟩
  · exact Or.inl rfl

/-- The entry of a probe is written back: it has finished, or it is sound. -/
theorem Sound.updateTimeout (h : s.Sound) (hq : q.finished = true ∨ s.ProbeSound q) :
    (s.updateTimeout q).Sound := by
  have htable : ∀ id q', (s.updateTimeout q).table id = some (.probe q') →
      s.table id = some (.probe q') ∨ (id = q.qid ∧ q' = q ∧ s.ProbeSound q) := by
    intro id q' hq'
    change Function.update s.table q.qid _ id = _ at hq'
    by_cases hid : id = q.qid
    · subst hid
      rw [Function.update_self] at hq'
      split at hq'
      · exact absurd hq' (by simp)
      · rename_i hfin
        have heq : q = q' := by simpa using hq'
        exact Or.inr ⟨rfl, heq.symm, hq.resolve_left hfin⟩
    · rw [Function.update_of_ne hid] at hq'
      exact Or.inl hq'
  refine ⟨h.isOpen, h.disjoint, h.collected, fun id q' hq' ↦ ?_, fun id q' hq' ↦ ?_, h.closings⟩
  · rcases htable id q' hq' with hold | ⟨rfl, rfl, -⟩
    · exact h.key id q' hold
    · rfl
  · rcases htable id q' hq' with hold | ⟨-, rfl, hsound⟩
    · exact ⟨(h.probes id q' hold).dns, (h.probes id q' hold).tcp⟩
    · exact ⟨hsound.dns, hsound.tcp⟩

theorem Sound.onProbe (h : s.Sound) (inRemoteNodes : List NodeIdentLat) (id : UInt64) :
    (s.onProbe (·.handleLatency inRemoteNodes) id).Sound := by
  unfold Probes.onProbe
  split
  · rename_i q hq
    refine h.updateTimeout ?_
    rcases handleLatency_cases inRemoteNodes q with heq | ⟨-, hfin⟩
    · dsimp only
      rw [heq]
      exact Or.inr (h.probes id q hq)
    · exact Or.inl hfin
  · exact h

/-- A probe that is still in the table after it has been told of a node probes another address. -/
theorem Sound.onProbe_addr (h : s.Sound) {n : NodeIdent}
    (hq : (s.onProbe (·.handleLatency [⟨n.addr, n.port, 0⟩]) id).table id = some (.probe q)) :
    n.addr ≠ q.remoteNode.addr := by
  unfold Probes.onProbe at hq
  split at hq
  · rename_i q₀ hq₀
    have hqid := h.key id q₀ hq₀
    by_cases haddr : n.addr ≠ q₀.remoteNode.addr
    · simp only [ProbeQuery.handleLatency, if_pos haddr, Probes.updateTimeout, hqid,
        Function.update_self] at hq
      split at hq
      · exact absurd hq (by simp)
      · have hsame : q₀ = q := by simpa using hq
        exact hsame ▸ haddr
    · simp only [ProbeQuery.handleLatency, if_neg haddr, Probes.updateTimeout, hqid,
        Function.update_self, if_true] at hq
      exact absurd hq (by simp)
  · rename_i hnot
    exact absurd hq (hnot q)

/-- A query of another class takes an id that is free, or leaves one. -/
theorem Sound.other (h : s.Sound) {o : Option NetQuery} (ho : ∀ q, o ≠ some (.probe q)) :
    Sound { s with table := Function.update s.table id o } := by
  have htable : ∀ k q, Function.update s.table id o k = some (.probe q) →
      s.table k = some (.probe q) := by
    intro k q hk
    by_cases hid : k = id
    · subst hid
      rw [Function.update_self] at hk
      exact absurd hk (ho q)
    · rwa [Function.update_of_ne hid] at hk
  exact ⟨h.isOpen, h.disjoint, h.collected, fun k q hk ↦ h.key k q (htable k q hk),
    fun k q hk ↦ ⟨(h.probes k q (htable k q hk)).dns, (h.probes k q (htable k q hk)).tcp⟩,
    h.closings⟩

/-! ### Opening and closing -/

/-- **A new connection** under a descriptor that was not open, and that no TCP probe remembers. -/
theorem Sound.opened (h : s.Sound) (hopen : s.isOpen fd = false)
    (hcare : kind = .tcp → ∀ id q, s.table id = some (.probe q) → q.kind = .tcp →
      q.sockFD ≠ some fd) (qid : UInt64) (remoteNode : NodeIdent) :
    let s' : Probes := { s with
      isOpen := Function.update s.isOpen fd true
      connections := Function.update s.connections kind
        (Function.update (s.connections kind) fd (some (qid, remoteNode))) }
    s'.Sound ∧ s'.ProbeSound ⟨kind, some fd, qid, remoteNode, false⟩ := by
  intro s'
  -- a descriptor that was closed has no entry
  have hnone : ∀ k, s.connections k fd = none := by
    intro k
    by_contra hne
    have hopen' := h.isOpen k fd (Option.isSome_iff_ne_none.2 hne)
    rw [hopen] at hopen'
    exact absurd hopen' (by simp)
  have hself : s'.connections kind fd = some (qid, remoteNode) := update_update_self _ _
  have hother : ∀ k fd', ¬ (k = kind ∧ fd' = fd) → s'.connections k fd' = s.connections k fd' :=
    fun k fd' hne ↦ update_update_of_ne _ _ hne
  have hcollected : ∀ k, fd ∉ s.deleteVector k := by
    intro k hmem
    have hsome := h.collected k fd hmem
    rw [hnone k] at hsome
    exact absurd hsome (by simp)
  refine ⟨⟨fun k fd' hsome ↦ ?_, fun k k' fd' h₁ h₂ ↦ ?_, fun k fd' hmem ↦ ?_, h.key,
    fun id q hq ↦ ?_, h.closings⟩, ⟨fun hk fd' hfd' ↦ ?_, fun hk fd' hfd' e he ↦ ?_⟩⟩
  · by_cases hfd : fd' = fd
    · subst hfd
      exact Function.update_self ..
    · rw [hother k fd' fun hne ↦ hfd hne.2] at hsome
      change Function.update s.isOpen fd true fd' = true
      rw [Function.update_of_ne hfd]
      exact h.isOpen k fd' hsome
  · by_cases hfd : fd' = fd
    · subst hfd
      have hkind : ∀ k, (s'.connections k fd').isSome → k = kind := by
        intro k hsome
        by_contra hne
        rw [hother k fd' fun heq ↦ hne heq.1, hnone k] at hsome
        exact absurd hsome (by simp)
      rw [hkind k h₁, hkind k' h₂]
    · rw [hother _ _ fun hne ↦ hfd hne.2] at h₁ h₂
      exact h.disjoint k k' fd' h₁ h₂
  · have hne : fd' ≠ fd := fun heq ↦ hcollected k (heq ▸ hmem)
    rw [hother k fd' fun heq ↦ hne heq.2]
    exact h.collected k fd' hmem
  · have hsound := h.probes id q hq
    refine ⟨fun hk fd' hfd' ↦ ?_, fun hk fd' hfd' e he ↦ ?_⟩
    · obtain ⟨hentry, hdel⟩ := hsound.dns hk fd' hfd'
      have hne : fd' ≠ fd := by
        rintro rfl
        rw [hnone] at hentry
        exact absurd hentry (by simp)
      rw [hother .dns fd' fun heq ↦ hne heq.2]
      exact ⟨hentry, hdel⟩
    · by_cases hnew : ProbeKind.tcp = kind ∧ fd' = fd
      · -- this is the descriptor the condition is about
        obtain ⟨hkind, rfl⟩ := hnew
        exact absurd hfd' (hcare hkind.symm id q hq hk)
      · rw [hother .tcp fd' hnew] at he
        exact hsound.tcp hk fd' hfd' e he
  · obtain rfl := Option.some.inj hfd'
    have hk : kind = .dns := hk
    subst hk
    exact ⟨hself, hcollected .dns⟩
  · obtain rfl := Option.some.inj hfd'
    have hk : kind = .tcp := hk
    subst hk
    rw [hself] at he
    exact (Option.some.inj he).symm

theorem Sound.startProbe (h : s.Sound) {inRemote : NodeIdent} {sock : Socket}
    (hcare : Careful s (.probe kind id inRemote sock))
    (hstep : s.startProbe kind id inRemote sock = some s') : s'.Sound := by
  rw [Probes.startProbe] at hstep
  split at hstep
  · exact Option.some.inj hstep ▸ h
  obtain ⟨⟨sockFD, s₁⟩, hadd, rfl⟩ := Option.map_eq_some_iff.1 hstep
  have hfailed : s.ProbeSound ⟨kind, none, id, inRemote, false⟩ :=
    ⟨fun _ _ hfd ↦ absurd hfd (by simp), fun _ _ hfd ↦ absurd hfd (by simp)⟩
  cases sock with
  | failed =>
    obtain ⟨rfl, rfl⟩ := Prod.mk.inj (Option.some.inj hadd)
    exact h.updateTimeout (Or.inr hfailed)
  | closed newSock =>
    rw [addConnection] at hadd
    split at hadd
    · exact absurd hadd (by simp)
    · obtain ⟨rfl, rfl⟩ := Prod.mk.inj (Option.some.inj hadd)
      exact h.updateTimeout (Or.inr hfailed)
  | opened newSock =>
    rw [addConnection] at hadd
    split at hadd
    · exact absurd hadd (by simp)
    rename_i hopen
    split at hadd
    · exact absurd hadd (by simp)
    obtain ⟨rfl, rfl⟩ := Prod.mk.inj (Option.some.inj hadd)
    have hfree : s.isOpen newSock = false := by simpa using hopen
    have hforgotten : kind = .tcp → ∀ id q, s.table id = some (.probe q) → q.kind = .tcp →
        q.sockFD ≠ some newSock := by
      rintro rfl
      exact hcare
    obtain ⟨hsound, hprobe⟩ := h.opened hfree hforgotten id inRemote
    exact hsound.updateTimeout (Or.inr hprobe)

/-- **An entry is closed** that no DNS probe in the table remembers. -/
theorem Sound.eraseConnection (h : s.Sound)
    (honly : ∀ k, (s.connections k fd).isSome → k = kind) (hdel : fd ∉ s.deleteVector kind)
    (hdns : kind = .dns → ∀ id q, s.table id = some (.probe q) → q.kind = .dns →
      q.sockFD ≠ some fd) : (s.eraseConnection kind fd).Sound := by
  have hself : (s.eraseConnection kind fd).connections kind fd = none := update_update_self _ _
  have hother : ∀ k fd', ¬ (k = kind ∧ fd' = fd) →
      (s.eraseConnection kind fd).connections k fd' = s.connections k fd' :=
    fun k fd' hne ↦ update_update_of_ne _ _ hne
  -- what has an entry afterwards had one before
  have hback : ∀ k fd', ((s.eraseConnection kind fd).connections k fd').isSome →
      fd' ≠ fd ∧ (s.connections k fd').isSome := by
    intro k fd' hk
    have hne : ¬ (k = kind ∧ fd' = fd) := by
      rintro ⟨rfl, rfl⟩
      rw [hself] at hk
      exact absurd hk (by simp)
    rw [hother k fd' hne] at hk
    refine ⟨?_, hk⟩
    rintro rfl
    exact hne ⟨honly k hk, rfl⟩
  refine ⟨fun k fd' hk ↦ ?_, fun k k' fd' h₁ h₂ ↦ ?_, fun k fd' hmem ↦ ?_, h.key,
    fun id q hq ↦ ⟨fun hk fd' hfd' ↦ ?_, fun hk fd' hfd' e he ↦ ?_⟩, h.closings⟩
  · obtain ⟨hne, hk⟩ := hback k fd' hk
    change Function.update s.isOpen fd false fd' = true
    rw [Function.update_of_ne hne]
    exact h.isOpen k fd' hk
  · exact h.disjoint k k' fd' (hback k fd' h₁).2 (hback k' fd' h₂).2
  · have hne : ¬ (k = kind ∧ fd' = fd) := by
      rintro ⟨rfl, rfl⟩
      exact hdel hmem
    rw [hother k fd' hne]
    exact h.collected k fd' hmem
  · obtain ⟨hentry, hdel'⟩ := (h.probes id q hq).dns hk fd' hfd'
    have hne : ¬ (ProbeKind.dns = kind ∧ fd' = fd) := by
      rintro ⟨rfl, rfl⟩
      exact hdns rfl id q hq hk hfd'
    rw [hother .dns fd' hne]
    exact ⟨hentry, hdel'⟩
  · have hne : ¬ (ProbeKind.tcp = kind ∧ fd' = fd) := by
      rintro ⟨rfl, rfl⟩
      rw [hself] at he
      exact absurd he (by simp)
    rw [hother .tcp fd' hne] at he
    exact (h.probes id q hq).tcp hk fd' hfd' e he

theorem Sound.only (h : s.Sound) (hsome : (s.connections kind fd).isSome) (k : ProbeKind)
    (hk : (s.connections k fd).isSome) : k = kind :=
  h.disjoint k kind fd hk hsome

/-- The last loop of `handle…Connections`. -/
theorem Sound.foldl_eraseConnection : ∀ {fds : List ℕ} {s : Probes}, s.Sound →
    (∀ fd ∈ fds, (∀ k, (s.connections k fd).isSome → k = kind) ∧ fd ∉ s.deleteVector kind ∧
      (kind = .dns → ∀ id q, s.table id = some (.probe q) → q.kind = .dns →
        q.sockFD ≠ some fd)) →
    (fds.foldl (fun (s : Probes) fd ↦ s.eraseConnection kind fd) s).Sound := by
  intro fds
  induction fds with
  | nil =>
    intro s h _
    exact h
  | cons fd fds ih =>
    intro s h hfds
    obtain ⟨honly, hdel, hdns⟩ := hfds fd (List.mem_cons_self ..)
    refine ih (h.eraseConnection honly hdel hdns) fun fd' hmem ↦ ?_
    obtain ⟨honly', hdel', hdns'⟩ := hfds fd' (List.mem_cons_of_mem fd hmem)
    refine ⟨fun k hk ↦ ?_, hdel', hdns'⟩
    -- erasing leaves no entry that was not there
    by_cases hne : k = kind ∧ fd' = fd
    · exact hne.1
    · have heq : (s.eraseConnection kind fd).connections k fd' = s.connections k fd' :=
        update_update_of_ne _ _ hne
      rw [heq] at hk
      exact honly' k hk

theorem Sound.cleanup (h : s.Sound) (kind : ProbeKind) :
    ((s.deleteVector kind).foldl (fun (s : Probes) fd ↦ s.eraseConnection kind fd)
      { s with deleteVector := Function.update s.deleteVector kind [] }).Sound := by
  have hshrunk : ∀ k fd, fd ∈ Function.update s.deleteVector kind [] k →
      k ≠ kind ∧ fd ∈ s.deleteVector k := by
    intro k fd hmem
    by_cases hk : k = kind
    · subst hk
      rw [Function.update_self] at hmem
      exact absurd hmem (by simp)
    · rw [Function.update_of_ne hk] at hmem
      exact ⟨hk, hmem⟩
  have hcleared : Sound { s with deleteVector := Function.update s.deleteVector kind [] } :=
    ⟨h.isOpen, h.disjoint, fun k fd hmem ↦ h.collected k fd (hshrunk k fd hmem).2, h.key,
      fun id q hq ↦ ⟨fun hk fd hfd ↦ ⟨((h.probes id q hq).dns hk fd hfd).1,
        fun hmem ↦ ((h.probes id q hq).dns hk fd hfd).2 (hshrunk .dns fd hmem).2⟩,
        (h.probes id q hq).tcp⟩, h.closings⟩
  refine hcleared.foldl_eraseConnection fun fd hmem ↦
    ⟨h.only (h.collected kind fd hmem), fun hin ↦ (hshrunk kind fd hin).1 rfl, ?_⟩
  rintro rfl id q hq hk hfd
  exact ((h.probes id q hq).dns hk fd hfd).2 hmem

/-! ### Steps -/

/-- A round of `handle…Connections`: the descriptor is collected, and a DNS probe that remembers it
has finished. -/
theorem Sound.ready (h : s.Sound) {hasPeer : Bool}
    (hstep : s.step (.ready kind fd hasPeer) = some s') : s'.Sound := by
  rw [Probes.step] at hstep
  split at hstep
  · exact Option.some.inj hstep ▸ h
  rename_i id remoteNode hentry
  split at hstep
  · exact Option.some.inj hstep ▸ h
  set s₁ : Probes := if notifies kind hasPeer then
      s.onProbe (·.handleLatency [⟨remoteNode.addr, remoteNode.port, 0⟩]) id else s with hs₁
  have hsound : s₁.Sound := by
    rw [hs₁]
    split
    · exact h.onProbe _ id
    · exact h
  have hconn : s₁.connections = s.connections := by
    rw [hs₁]
    split
    · unfold Probes.onProbe
      split <;> rfl
    · rfl
  rw [← Option.some.inj hstep]
  -- the list of entries to erase grows by this descriptor only
  have hmem : ∀ k fd', fd' ∈ Function.update s₁.deleteVector kind (s₁.deleteVector kind ++ [fd]) k →
      fd' ∈ s₁.deleteVector k ∨ (k = kind ∧ fd' = fd) := by
    intro k fd' hin
    by_cases hk : k = kind
    · subst hk
      rw [Function.update_self] at hin
      exact (List.mem_append.1 hin).imp_right fun heq ↦ ⟨rfl, List.mem_singleton.1 heq⟩
    · rw [Function.update_of_ne hk] at hin
      exact Or.inl hin
  refine ⟨hsound.isOpen, hsound.disjoint, fun k fd' hin ↦ ?_, hsound.key, fun id' q hq ↦
    ⟨fun hk fd' hfd ↦ ⟨((hsound.probes id' q hq).dns hk fd' hfd).1, fun hin ↦ ?_⟩,
      (hsound.probes id' q hq).tcp⟩, hsound.closings⟩
  · rcases hmem k fd' hin with hold | ⟨rfl, rfl⟩
    · exact hsound.collected k fd' hold
    · change (s₁.connections k fd').isSome
      rw [hconn, hentry]
      rfl
  · obtain ⟨hown, hdel⟩ := (hsound.probes id' q hq).dns hk fd' hfd
    rcases hmem .dns fd' hin with hold | ⟨rfl, rfl⟩
    · exact hdel hold
    · -- the entry is the probe's own, so it was the probe that was notified
      rw [hconn, hentry, Option.some.injEq, Prod.mk.injEq] at hown
      obtain ⟨hid, rfl⟩ := hown
      have hkey := hsound.key id' q hq
      have hid' : id' = id := hkey.symm.trans hid.symm
      subst hid'
      change s₁.table id' = _ at hq
      rw [hs₁, if_pos (show notifies .dns hasPeer = true from rfl)] at hq
      exact h.onProbe_addr hq rfl

/-- **A timeout closes the query's own connection.** -/
theorem Sound.timeout (h : s.Sound) (hstep : s.step (.timeout id) = some s') : s'.Sound := by
  rw [Probes.step] at hstep
  split at hstep
  · exact absurd hstep (by simp)
  rename_i houtside
  have hempty : ∀ k, s.deleteVector k = [] := by
    obtain ⟨htcp, hdns⟩ := not_or.1 houtside
    intro k
    cases k with
    | tcp => simpa using htcp
    | dns => simpa using hdns
  split at hstep
  · rename_i q hq
    obtain rfl := Option.some.inj hstep
    have hgone := h.updateTimeout (q := { q with finished := true }) (Or.inl rfl)
    rw [handleTimeout]
    split
    · exact hgone
    rename_i fd hfd
    rw [eraseSock]
    split
    · exact hgone
    rename_i entryID remoteNode hentry
    have hown : entryID = q.qid := by
      cases hk : q.kind with
      | tcp =>
        rw [hk] at hentry
        exact (Prod.mk.inj ((h.probes id q hq).tcp hk fd hfd _ hentry)).1
      | dns =>
        rw [hk, ((h.probes id q hq).dns hk fd hfd).1, Option.some.injEq, Prod.mk.injEq] at hentry
        exact hentry.1.symm
    -- the query has left the table, and no other DNS probe has its entry
    have hdel : fd ∉ s.deleteVector q.kind := by
      rw [hempty]
      exact List.not_mem_nil
    have hsome : (s.connections q.kind fd).isSome := by
      rw [hentry]
      rfl
    have herased := hgone.eraseConnection (hgone.only hsome) hdel
      fun hk id' q' hq' hk' hfd' ↦ by
        obtain ⟨hown', -⟩ := (hgone.probes id' q' hq').dns hk' fd hfd'
        change s.connections .dns fd = _ at hown'
        rw [← hk, hentry, Option.some.injEq, Prod.mk.injEq] at hown'
        have hid' : id' = q.qid := by
          rw [← hgone.key id' q' hq', ← hown'.1, hown]
        change Function.update s.table q.qid _ id' = _ at hq'
        rw [hid', Function.update_self, if_pos rfl] at hq'
        exact absurd hq' (by simp)
    refine ⟨herased.isOpen, herased.disjoint, herased.collected, herased.key,
      fun id' q' hq' ↦ ⟨(herased.probes id' q' hq').dns, (herased.probes id' q' hq').tcp⟩,
      fun c hc ↦ ?_⟩
    rcases List.mem_append.1 hc with hc | hc
    · exact h.closings c hc
    · rw [List.mem_singleton.1 hc]
      exact hown
  · exact Option.some.inj hstep ▸ h

/-- **One careful step keeps the invariant.** -/
theorem Sound.step {e : Event} (h : s.Sound) (hcare : Careful s e) (hstep : s.step e = some s') :
    s'.Sound := by
  cases e with
  | probe kind qid inRemote sock => exact h.startProbe hcare hstep
  | other id =>
    rw [Probes.step] at hstep
    split at hstep
    · exact Option.some.inj hstep ▸ h
    · exact Option.some.inj hstep ▸ h.other (by simp)
  | otherFinished id =>
    rw [Probes.step] at hstep
    split at hstep
    · exact Option.some.inj hstep ▸ h.other (by simp)
    · exact Option.some.inj hstep ▸ h
  | packet id inRemote => exact Option.some.inj hstep ▸ h.onProbe _ id
  | latency id inRemoteNodes => exact Option.some.inj hstep ▸ h.onProbe _ id
  | ready kind fd hasPeer => exact h.ready hstep
  | cleanup kind => exact Option.some.inj hstep ▸ h.cleanup kind
  | timeout id => exact h.timeout hstep
  | openOther fd =>
    rw [Probes.step] at hstep
    split at hstep
    · exact absurd hstep (by simp)
    · rw [← Option.some.inj hstep]
      refine ⟨fun k fd' hsome ↦ ?_, h.disjoint, h.collected, h.key,
        fun id q hq ↦ ⟨(h.probes id q hq).dns, (h.probes id q hq).tcp⟩, h.closings⟩
      by_cases hfd : fd' = fd
      · subst hfd
        exact Function.update_self ..
      · exact (Function.update_of_ne hfd _ _).trans (h.isOpen k fd' hsome)
  | closeOther fd =>
    rw [Probes.step] at hstep
    split at hstep
    · exact absurd hstep (by simp)
    · rename_i hnone
      rw [← Option.some.inj hstep]
      refine ⟨fun k fd' hsome ↦ ?_, h.disjoint, h.collected, h.key,
        fun id q hq ↦ ⟨(h.probes id q hq).dns, (h.probes id q hq).tcp⟩, h.closings⟩
      have hfd : fd' ≠ fd := by
        rintro rfl
        cases k with
        | tcp => exact hnone (Or.inl hsome)
        | dns => exact hnone (Or.inr hsome)
      exact (Function.update_of_ne hfd _ _).trans (h.isOpen k fd' hsome)

/-- **Probe connection ownership.** In a run in which `socket()` gives no TCP probe a descriptor that
another TCP probe in the table still remembers, every connection that a timeout has closed was
entered by the query that timed out. -/
theorem closed_by_owner (isOpen : ℕ → Bool) (events : List Event)
    (hcare : AllSteps Careful Probes.step (new isOpen) events) (s : Probes)
    (hrun : run Probes.step (new isOpen) events = some s) :
    ∀ c ∈ s.closings, c.entryID = c.query.qid :=
  (run_invariant (P := Sound) (fun _ _ _ h hcare hstep ↦ h.step hcare hstep) (new_sound isOpen) hcare
    hrun).closings

/-- Two probes whose timeouts close their own connections; the descriptor of the first, whose query
has left the table, is given out again. -/
theorem closed_by_owner_reused : ∃ s,
    run Probes.step (new fun _ ↦ false) [.probe .tcp 1 ⟨9, 80⟩ (.opened 4), .timeout 1,
      .probe .dns 2 ⟨8, 53⟩ (.opened 4), .timeout 2] = some s ∧
      s.closings.map Closing.entryID = [1, 2] ∧ ∀ c ∈ s.closings, c.entryID = c.query.qid := by
  obtain ⟨s, hs, hids⟩ := Option.map_eq_some_iff.1 (show
    (run Probes.step (new fun _ ↦ false) [.probe .tcp 1 ⟨9, 80⟩ (.opened 4), .timeout 1,
      .probe .dns 2 ⟨8, 53⟩ (.opened 4), .timeout 2]).map (fun s ↦ s.closings.map Closing.entryID) =
      some [1, 2] by decide +kernel)
  refine ⟨s, hs, hids, closed_by_owner (fun _ ↦ false) _ ?_ s hs⟩
  simp [AllSteps, Careful, new]

/-- The connect of probe 1 fails, so its entry goes and its descriptor is closed, but it stays in the
table. Probe 2 is given the same descriptor. Then probe 1 times out and closes probe 2's connection. -/
theorem closes_another : ∃ s,
    run Probes.step (new fun _ ↦ false) [.probe .tcp 1 ⟨9, 80⟩ (.opened 4), .ready .tcp 4 false,
      .cleanup .tcp, .probe .tcp 2 ⟨8, 80⟩ (.opened 4), .timeout 1] = some s ∧
      ∃ c ∈ s.closings, c.entryID ≠ c.query.qid := by
  obtain ⟨s, hs, hclosings⟩ := Option.map_eq_some_iff.1 (show
    (run Probes.step (new fun _ ↦ false) [.probe .tcp 1 ⟨9, 80⟩ (.opened 4), .ready .tcp 4 false,
      .cleanup .tcp, .probe .tcp 2 ⟨8, 80⟩ (.opened 4), .timeout 1]).map (fun s ↦ s.closings) =
      some [⟨⟨.tcp, some 4, 1, ⟨9, 80⟩, false⟩, 2⟩] by decide +kernel)
  refine ⟨s, hs, _, by rw [hclosings]; exact List.mem_cons_self .., by decide⟩

end Meridian.Probes

import Meridian.Ident
import Meridian.Lib.ExpiringMap
import Meridian.Process.QueryTable

/-!
# The latency cache

`LatencyCache` keeps its entries twice: `latencyMap` has the latency and the expiry of each node, and
`timeoutMap` the nodes of each expiry, in a vector. A clock is read as a number of microseconds, and
may go backwards; `gettimeofday` splits it up.

* An assertion that fails, and a read of the first entry of an empty map or vector, end a call with
  `none`.
* `new` never fails, and the seconds of a clock do not overflow.

`Mirrored` says that the two maps have the same entries. Every call keeps it, and does what the call
of an expiring map does: the entry that goes when the cache is full is the first one in the first
vector, which is one of minimal expiry.
-/

namespace Meridian

open Lib

/-! ### The clock -/

/-- `gettimeofday`. -/
def gettimeofday (now : ℤ) : Timeval := ⟨now / MICRO_IN_SECOND, now % MICRO_IN_SECOND⟩

/-- `timeradd`. -/
def timeradd (a b : Timeval) : Timeval :=
  let sec := a.sec + b.sec
  let usec := a.usec + b.usec
  if MICRO_IN_SECOND ≤ usec then ⟨sec + 1, usec - MICRO_IN_SECOND⟩ else ⟨sec, usec⟩

/-! ### The cache -/

/-- The data of a `LatencyCache`. -/
structure LatencyCache where
  timeoutMap : Std.ExtTreeMap Timeval (List NodeIdent) cmpTimeval
  latencyMap : NodeMap (Timeval × UInt32)
  maxSize : UInt32
  periodUS : UInt32

namespace LatencyCache

/-- The constructor. -/
def new (maxSize periodUS : UInt32) : LatencyCache := ⟨∅, ∅, maxSize, periodUS⟩

/-- `getLatency`: its return value, and what it writes. -/
def getLatency (now : ℤ) (inNode : NodeIdent) (c : LatencyCache) : Int × Option UInt32 :=
  match c.latencyMap[inNode]? with
  | some (s1, latencyUS) =>
    let curTime := normalizeTime (gettimeofday now)
    if Timeval.expired curTime s1 then (-1, none) else (0, some latencyUS)
  | none => (-1, none)

/-- `eraseEntry`. -/
def eraseEntry (inNode : NodeIdent) (c : LatencyCache) : Option (Int × LatencyCache) :=
  match c.latencyMap[inNode]? with
  | none => some (0, c)
  | some curPair =>
    let c := { c with latencyMap := c.latencyMap.erase inNode }
    match c.timeoutMap[curPair.1]? with
    | none => none
    | some toVect =>
      -- a vector without the node stays as it is
      let toVect := (swapRemove toVect inNode).getD toVect
      if toVect.isEmpty then some (0, { c with timeoutMap := c.timeoutMap.erase curPair.1 })
      else some (0, { c with timeoutMap := c.timeoutMap.insert curPair.1 toVect })

/-- The first node in the vector of the first expiry. -/
def oldest (c : LatencyCache) : Option NodeIdent :=
  c.timeoutMap.minKey?.bind fun t ↦ c.timeoutMap[t]?.bind List.head?

/-- When an entry that is made now expires. -/
def nextTimeOut (now : ℤ) (c : LatencyCache) : Timeval :=
  let offsetTV : Timeval :=
    ⟨c.periodUS.toNat / MICRO_IN_SECOND, c.periodUS.toNat % MICRO_IN_SECOND⟩
  normalizeTime (timeradd (gettimeofday now) offsetTV)

/-- The end of `insertMeasurement`: the entry is put into both maps. -/
def addEntry (now : ℤ) (inNode : NodeIdent) (latencyUS : UInt32) (c : LatencyCache) :
    LatencyCache :=
  let nextTimeOut := c.nextTimeOut now
  { c with
    timeoutMap := Buckets.push c.timeoutMap nextTimeOut inNode
    latencyMap := c.latencyMap.insert inNode (nextTimeOut, latencyUS) }

/-- `insertMeasurement`. -/
def insertMeasurement (now : ℤ) (inNode : NodeIdent) (latencyUS : UInt32) (c : LatencyCache) :
    Option (Int × LatencyCache) :=
  if c.maxSize = 0 then some (0, c)
  else (c.eraseEntry inNode).bind fun res ↦
    if res.1 = -1 then some (-1, res.2)
    else
      let c := res.2
      if c.maxSize.toNat ≤ c.latencyMap.size then
        c.oldest.bind fun tmp ↦ (c.eraseEntry tmp).bind fun res ↦
          some (0, res.2.addEntry now inNode latencyUS)
      else some (0, c.addEntry now inNode latencyUS)

/-- The calls of `eraseEntry` in the destructor. -/
def eraseEntries (c : LatencyCache) : List NodeIdent → Option LatencyCache
  | [] => some c
  | n :: allEntries => (c.eraseEntry n).bind fun res ↦ res.2.eraseEntries allEntries

/-- The destructor. -/
def destroy (c : LatencyCache) : Option Unit :=
  (c.eraseEntries c.latencyMap.keys).bind fun c ↦
    if c.timeoutMap.size = 0 ∧ c.latencyMap.size = 0 then some () else none

/-- A call, with its return value and what it writes. -/
def call (c : LatencyCache) : ExpiringMap.Call NodeIdent UInt32 →
    Option ((Int × Option UInt32) × LatencyCache)
  | .insert now inNode latencyUS =>
    (c.insertMeasurement now inNode latencyUS).map fun res ↦ ((res.1, none), res.2)
  | .erase inNode => (c.eraseEntry inNode).map fun res ↦ ((res.1, none), res.2)
  | .lookup now inNode => some (c.getLatency now inNode, c)

/-- A sequence of calls. -/
def calls (c : LatencyCache) : List (ExpiringMap.Call NodeIdent UInt32) →
    Option (List (Int × Option UInt32) × LatencyCache)
  | [] => some ([], c)
  | e :: es => (c.call e).bind fun res ↦
    (res.2.calls es).map fun rest ↦ (res.1 :: rest.1, rest.2)

end LatencyCache

/-! ### Times in microseconds -/

namespace Timeval

/-- The microseconds of a time. -/
def micros (tv : Timeval) : ℤ := tv.sec * MICRO_IN_SECOND + tv.usec

/-- There is less than a second in the microseconds. -/
def Canonical (tv : Timeval) : Prop := 0 ≤ tv.usec ∧ tv.usec < MICRO_IN_SECOND

variable {a b : Timeval}

theorem Canonical.normalizeTime_eq (h : a.Canonical) : normalizeTime a = a := by
  rw [normalizeTime, if_neg (not_lt.2 h.2.le)]

theorem micros_le_of_isLE (ha : a.Canonical) (hb : b.Canonical)
    (h : (cmpTimeval a b).isLE) : a.micros ≤ b.micros := by
  have hlex : a.sec < b.sec ∨ a.sec = b.sec ∧ a.usec ≤ b.usec := by
    simpa [cmpTimeval, compareLex, compareOn, Ordering.isLE_then_iff_or, Std.compare_eq_lt,
      Std.isLE_compare] using h
  simp only [micros, Canonical, MICRO_IN_SECOND] at *
  omega

theorem expired_eq_true_iff (ha : a.Canonical) (hb : b.Canonical) :
    Timeval.expired a b = true ↔ b.micros ≤ a.micros := by
  simp only [expired, Bool.or_eq_true, Bool.and_eq_true, beq_iff_eq, decide_eq_true_eq]
  simp only [micros, Canonical, MICRO_IN_SECOND] at *
  omega

theorem canonical_gettimeofday (now : ℤ) : (gettimeofday now).Canonical := by
  simp only [Canonical, gettimeofday, MICRO_IN_SECOND]
  omega

theorem micros_gettimeofday (now : ℤ) : (gettimeofday now).micros = now := by
  simp only [micros, gettimeofday, MICRO_IN_SECOND]
  omega

/-- A sum of two times, with a carry if the microseconds make a second. -/
theorem timeradd_eq : timeradd a b = ⟨a.sec + b.sec + 1, a.usec + b.usec - MICRO_IN_SECOND⟩ ∧
      MICRO_IN_SECOND ≤ a.usec + b.usec ∨
    timeradd a b = ⟨a.sec + b.sec, a.usec + b.usec⟩ ∧ a.usec + b.usec < MICRO_IN_SECOND := by
  rcases le_or_gt MICRO_IN_SECOND (a.usec + b.usec) with h | h
  · exact Or.inl ⟨if_pos h, h⟩
  · exact Or.inr ⟨if_neg (not_le.2 h), h⟩

theorem canonical_timeradd (ha : a.Canonical) (hb : b.Canonical) : (timeradd a b).Canonical := by
  rcases timeradd_eq (a := a) (b := b) with ⟨h, hcarry⟩ | ⟨h, hcarry⟩ <;>
    rw [h] <;> simp only [Canonical, MICRO_IN_SECOND] at * <;> omega

theorem micros_timeradd : (timeradd a b).micros = a.micros + b.micros := by
  rcases timeradd_eq (a := a) (b := b) with ⟨h, -⟩ | ⟨h, -⟩ <;>
    rw [h] <;> simp only [micros, MICRO_IN_SECOND] <;> omega

end Timeval

namespace LatencyCache

open Timeval

variable {c : LatencyCache} {n inNode : NodeIdent} {now : ℤ} {latencyUS : UInt32}

theorem canonical_offset (period : UInt32) :
    Canonical ⟨period.toNat / MICRO_IN_SECOND, period.toNat % MICRO_IN_SECOND⟩ := by
  simp only [Canonical, MICRO_IN_SECOND]
  omega

theorem canonical_nextTimeOut : (c.nextTimeOut now).Canonical := by
  have h := canonical_timeradd (canonical_gettimeofday now) (canonical_offset c.periodUS)
  rw [nextTimeOut, h.normalizeTime_eq]
  exact h

theorem micros_nextTimeOut : (c.nextTimeOut now).micros = now + c.periodUS.toNat := by
  have h := canonical_timeradd (canonical_gettimeofday now) (canonical_offset c.periodUS)
  rw [nextTimeOut, h.normalizeTime_eq, micros_timeradd, micros_gettimeofday]
  simp only [micros, MICRO_IN_SECOND]
  omega

/-! ### The two maps -/

/-- The two maps have the same entries: a node is filed once, in the vector of its expiry. -/
structure Mirrored (c : LatencyCache) : Prop where
  /-- No vector is empty, and none has a node twice. -/
  tidy : Buckets.Tidy c.timeoutMap
  filed : ∀ t n, n ∈ Buckets.bucket c.timeoutMap t ↔
    ∃ latencyUS, c.latencyMap[n]? = some (t, latencyUS)
  canonical : ∀ (n : NodeIdent) (t : Timeval) (latencyUS : UInt32),
    c.latencyMap[n]? = some (t, latencyUS) → t.Canonical

/-- The map that a cache stands for. -/
def entries (c : LatencyCache) : ExpiringMap NodeIdent UInt32 := fun n ↦
  c.latencyMap[n]?.map fun p ↦ (p.1.micros, p.2)

theorem ncard_keys_entries : c.entries.keys.ncard = c.latencyMap.size := by
  have hkeys : c.entries.keys = (c.latencyMap.keys.toFinset : Set NodeIdent) := by
    ext n
    rw [ExpiringMap.keys, Set.mem_ofPred_eq, entries, Option.isSome_map, Finset.mem_coe,
      List.mem_toFinset, Std.ExtTreeMap.mem_keys, Std.ExtTreeMap.mem_iff_isSome_getElem?]
  rw [hkeys, Set.ncard_coe_finset, List.toFinset_card_of_nodup (nodup_keys _),
    Std.ExtTreeMap.length_keys]

theorem entries_insert {c' : LatencyCache} {tv : Timeval}
    (h : c'.latencyMap = c.latencyMap.insert inNode (tv, latencyUS)) :
    c'.entries = Function.update c.entries inNode (some (tv.micros, latencyUS)) := by
  funext n
  rw [entries, h, Lib.getElem?_insert]
  split
  · rename_i heq
    subst heq
    rw [Function.update_self]
    rfl
  · rename_i hne
    rw [Function.update_of_ne (Ne.symm hne)]
    rfl

theorem entries_erase {c' : LatencyCache} (h : c'.latencyMap = c.latencyMap.erase inNode) :
    c'.entries = c.entries.erase inNode := by
  funext n
  rw [entries, h, Lib.getElem?_erase]
  split
  · rename_i heq
    subst heq
    rw [ExpiringMap.erase_self]
    rfl
  · rename_i hne
    rw [ExpiringMap.erase_of_ne (Ne.symm hne)]
    rfl

/-! ### The calls -/

theorem new_mirrored (maxSize periodUS : UInt32) : (new maxSize periodUS).Mirrored where
  tidy := Buckets.tidy_empty
  filed t n := by
    simp [new, Buckets.mem_bucket]
  canonical n t latencyUS h := by
    simp [new] at h

/-- What `getLatency` returns and writes if it finds this. -/
def found : Option UInt32 → Int × Option UInt32
  | some latencyUS => (0, some latencyUS)
  | none => (-1, none)

/-- A lookup finds what the map has that the cache stands for. -/
theorem Mirrored.getLatency_eq (h : c.Mirrored) (now : ℤ) (inNode : NodeIdent) :
    c.getLatency now inNode = found (c.entries.lookup now inNode) := by
  have hnow := canonical_gettimeofday now
  rw [getLatency, ExpiringMap.lookup, entries, hnow.normalizeTime_eq]
  cases hget : c.latencyMap[inNode]? with
  | none => rfl
  | some p =>
    obtain ⟨s1, latencyUS⟩ := p
    have hexpired := expired_eq_true_iff hnow (h.canonical _ _ _ hget)
    rw [micros_gettimeofday] at hexpired
    show (if _ then _ else _) = found (if now < s1.micros then some latencyUS else none)
    by_cases hlt : now < s1.micros
    · rw [if_neg (fun he ↦ absurd (hexpired.1 he) (not_le.2 hlt)), if_pos hlt]
      rfl
    · rw [if_pos (hexpired.2 (not_lt.1 hlt)), if_neg hlt]
      rfl

/-- **An entry is erased** from both maps, and no assertion fails. -/
theorem Mirrored.eraseEntry (h : c.Mirrored) (inNode : NodeIdent) :
    ∃ c', c.eraseEntry inNode = some (0, c') ∧ c'.Mirrored ∧
      c'.entries = c.entries.erase inNode ∧ c'.maxSize = c.maxSize ∧ c'.periodUS = c.periodUS := by
  rw [LatencyCache.eraseEntry]
  cases hget : c.latencyMap[inNode]? with
  | none =>
    refine ⟨c, rfl, h, (ExpiringMap.erase_eq_self ?_).symm, rfl, rfl⟩
    rw [entries, hget]
    rfl
  | some p =>
    obtain ⟨t, latencyUS⟩ := p
    obtain ⟨m', hpull, htidy, hmem⟩ := h.tidy.exists_pull ((h.filed t inNode).2 ⟨_, hget⟩)
    obtain ⟨l, l', hl, hl', hm'⟩ := Buckets.pull_eq_some hpull
    have herase : ∀ n, (c.latencyMap.erase inNode)[n]? =
        if inNode = n then none else c.latencyMap[n]? := fun n ↦ Lib.getElem?_erase
    refine ⟨{ c with timeoutMap := m', latencyMap := c.latencyMap.erase inNode }, ?_,
      ⟨htidy, fun u n ↦ ?_, fun n u latencyUS hn ↦ ?_⟩, entries_erase rfl, rfl, rfl⟩
    · dsimp only
      rw [hl]
      dsimp only
      rw [hl', Option.getD_some, hm']
      split <;> rfl
    · rw [hmem, h.filed, herase]
      by_cases hn : inNode = n
      · -- the node has been filed under `t` only
        subst hn
        rw [if_pos rfl, hget]
        simp
        tauto
      · rw [if_neg hn]
        exact ⟨fun hu ↦ hu.1, fun hu ↦ ⟨hu, fun hun ↦ hn hun.2.symm⟩⟩
    · rw [herase] at hn
      split at hn
      · exact absurd hn (Option.some_ne_none _).symm
      · exact h.canonical n u latencyUS hn

/-- The first node in the first vector has an entry, and none expires before it. -/
theorem Mirrored.exists_oldest (h : c.Mirrored) (hpos : 0 < c.latencyMap.size) :
    ∃ n, c.oldest = some n ∧ c.entries.Oldest n := by
  obtain ⟨k, hk⟩ : ∃ k, k ∈ c.latencyMap.keys :=
    List.exists_mem_of_length_pos (by rwa [Std.ExtTreeMap.length_keys])
  rw [Std.ExtTreeMap.mem_keys, Std.ExtTreeMap.mem_iff_isSome_getElem?] at hk
  obtain ⟨⟨t, latencyUS⟩, hget⟩ := Option.isSome_iff_exists.1 hk
  have hkey : ∀ (n : NodeIdent) (u : Timeval) (latencyUS : UInt32),
      c.latencyMap[n]? = some (u, latencyUS) → u ∈ c.timeoutMap := by
    intro n u latencyUS hn
    obtain ⟨l, hl, -⟩ := Buckets.mem_bucket.1 ((h.filed u n).2 ⟨_, hn⟩)
    rw [Std.ExtTreeMap.mem_iff_isSome_getElem?, hl]
    rfl
  obtain ⟨first, hfirst⟩ := Option.isSome_iff_exists.1
    (Std.ExtTreeMap.isSome_minKey?_of_mem (hkey _ _ _ hget))
  have hmem := Std.ExtTreeMap.minKey?_mem hfirst
  rw [Std.ExtTreeMap.mem_iff_isSome_getElem?] at hmem
  obtain ⟨l, hl⟩ := Option.isSome_iff_exists.1 hmem
  obtain ⟨n, rest, rfl⟩ := List.exists_cons_of_ne_nil (h.tidy first l hl).1
  obtain ⟨v, hv⟩ := (h.filed first n).1 (Buckets.mem_bucket.2 ⟨_, hl, List.mem_cons_self ..⟩)
  refine ⟨n, by rw [oldest, hfirst, Option.bind_some, hl]; rfl, first.micros, v, ?_, ?_⟩
  · rw [entries, hv]
    rfl
  · intro n' t' v' hn'
    obtain ⟨⟨u, w⟩, hu, heq⟩ := Option.map_eq_some_iff.1 hn'
    obtain ⟨rfl, -⟩ := Prod.mk.inj heq
    exact micros_le_of_isLE (h.canonical _ _ _ hv) (h.canonical _ _ _ hu)
      (Std.ExtTreeMap.minKey?_le_of_mem (hkey _ _ _ hu) (Option.get_of_eq_some _ hfirst))

/-- A node without an entry gets one. -/
theorem Mirrored.addEntry (h : c.Mirrored) (hnone : c.entries inNode = none) (now : ℤ)
    (latencyUS : UInt32) :
    (c.addEntry now inNode latencyUS).Mirrored ∧
      (c.addEntry now inNode latencyUS).entries = Function.update c.entries inNode
        (some (now + c.periodUS.toNat, latencyUS)) := by
  have hget : c.latencyMap[inNode]? = none := Option.map_eq_none_iff.1 hnone
  have hinsert : ∀ n, (c.latencyMap.insert inNode (c.nextTimeOut now, latencyUS))[n]? =
      if inNode = n then some (c.nextTimeOut now, latencyUS) else c.latencyMap[n]? :=
    fun n ↦ Lib.getElem?_insert
  refine ⟨⟨h.tidy.push ?_, fun t n ↦ ?_, fun n t v hn ↦ ?_⟩, ?_⟩
  · rw [h.filed, hget]
    simp
  · show n ∈ Buckets.bucket (Buckets.push _ _ _) t ↔ ∃ v, (c.latencyMap.insert _ _)[n]? = _
    rw [Buckets.mem_bucket_push, h.filed, hinsert]
    by_cases hn : inNode = n
    · subst hn
      rw [if_pos rfl, hget]
      simp [eq_comm]
    · rw [if_neg hn]
      simp [Ne.symm hn]
  · change (c.latencyMap.insert _ _)[n]? = _ at hn
    rw [hinsert] at hn
    split at hn
    · cases hn
      exact canonical_nextTimeOut
    · exact h.canonical n t v hn
  · rw [← micros_nextTimeOut]
    exact entries_insert rfl

/-- **A measurement is inserted**: the old entry of the node goes, then one of minimal expiry if the
cache is full, and then the new one is there. -/
theorem Mirrored.insertMeasurement (h : c.Mirrored) (hmax : c.maxSize ≠ 0) (now : ℤ)
    (inNode : NodeIdent) (latencyUS : UInt32) :
    ∃ c' m, c.insertMeasurement now inNode latencyUS = some (0, c') ∧ c'.Mirrored ∧
      ExpiringMap.MakesRoom c.maxSize.toNat (c.entries.erase inNode) m ∧
      c'.entries = Function.update m inNode (some (now + c.periodUS.toNat, latencyUS)) ∧
      c'.maxSize = c.maxSize ∧ c'.periodUS = c.periodUS := by
  have hpos : 0 < c.maxSize.toNat := Nat.pos_of_ne_zero fun h0 ↦ hmax (UInt32.toNat_inj.1 h0)
  obtain ⟨c₁, herase, hc₁, hentries₁, hmax₁, hperiod₁⟩ := h.eraseEntry inNode
  have hnone₁ : c₁.entries inNode = none := by rw [hentries₁, ExpiringMap.erase_self]
  rw [LatencyCache.insertMeasurement, if_neg hmax, herase, Option.bind_some,
    if_neg (show ¬ (0 : ℤ) = -1 by decide)]
  dsimp only
  rw [← hmax₁, ← hperiod₁, ← hentries₁]
  by_cases hfull : c₁.maxSize.toNat ≤ c₁.latencyMap.size
  · have hsize : 0 < c₁.latencyMap.size := (hmax₁ ▸ hpos).trans_le hfull
    obtain ⟨n, hn, hold⟩ := hc₁.exists_oldest hsize
    obtain ⟨c₂, herase₂, hc₂, hentries₂, hmax₂, hperiod₂⟩ := hc₁.eraseEntry n
    have hnone₂ : c₂.entries inNode = none := by
      rw [hentries₂]
      rcases eq_or_ne inNode n with rfl | hne
      · exact ExpiringMap.erase_self
      · rw [ExpiringMap.erase_of_ne hne, hnone₁]
    obtain ⟨hc₃, hentries₃⟩ := hc₂.addEntry hnone₂ now latencyUS
    rw [if_pos hfull, hn, Option.bind_some, herase₂, Option.bind_some]
    rw [hperiod₂] at hentries₃
    refine ⟨_, c₂.entries, rfl, hc₃, ?_, hentries₃, hmax₂, hperiod₂⟩
    rw [ExpiringMap.MakesRoom, ncard_keys_entries, if_pos hfull]
    exact ⟨n, hold, hentries₂⟩
  · obtain ⟨hc₃, hentries₃⟩ := hc₁.addEntry hnone₁ now latencyUS
    rw [if_neg hfull]
    refine ⟨_, c₁.entries, rfl, hc₃, ?_, hentries₃, rfl, rfl⟩
    rw [ExpiringMap.MakesRoom, ncard_keys_entries, if_neg hfull]

/-! ### Runs -/

/-- The return value of a call, and what it writes, if the map returns this. -/
def returned : ExpiringMap.Call NodeIdent UInt32 → Option UInt32 → Int × Option UInt32
  | .lookup _ _, r => found r
  | _, _ => (0, none)

/-- **A call does what the call of the map does.** -/
theorem Mirrored.call (h : c.Mirrored) (hmax : c.maxSize ≠ 0)
    (e : ExpiringMap.Call NodeIdent UInt32) :
    ∃ c' r, c.call e = some (returned e r, c') ∧ c'.Mirrored ∧ c'.maxSize = c.maxSize ∧
      c'.periodUS = c.periodUS ∧
      ExpiringMap.Serves c.maxSize.toNat c.periodUS.toNat c.entries e r c'.entries := by
  cases e with
  | insert now inNode latencyUS =>
    obtain ⟨c', m, hinsert, hc', hroom, hentries, hsize, hperiod⟩ :=
      h.insertMeasurement hmax now inNode latencyUS
    refine ⟨c', none, by rw [LatencyCache.call, hinsert]; rfl, hc', hsize, hperiod, ?_⟩
    rw [hentries]
    exact .insert hroom
  | erase inNode =>
    obtain ⟨c', herase, hc', hentries, hsize, hperiod⟩ := h.eraseEntry inNode
    refine ⟨c', none, by rw [LatencyCache.call, herase]; rfl, hc', hsize, hperiod, ?_⟩
    rw [hentries]
    exact .erase
  | lookup now inNode =>
    refine ⟨c, _, ?_, h, rfl, rfl, .lookup⟩
    rw [LatencyCache.call, h.getLatency_eq]
    rfl

theorem Mirrored.calls (es : List (ExpiringMap.Call NodeIdent UInt32)) : ∀ {c : LatencyCache},
    c.Mirrored → c.maxSize ≠ 0 → ∃ c' rs, c.calls es = some (List.zipWith returned es rs, c') ∧
      c'.Mirrored ∧
      ExpiringMap.Runs c.maxSize.toNat c.periodUS.toNat c.entries es rs c'.entries := by
  induction es with
  | nil => exact fun {c} h _ ↦ ⟨c, [], rfl, h, .nil⟩
  | cons e es ih =>
    intro c h hmax
    obtain ⟨c₁, r, hcall, hc₁, hmax₁, hperiod₁, hserves⟩ := h.call hmax e
    obtain ⟨c₂, rs, hcalls, hc₂, hruns⟩ := ih hc₁ (hmax₁ ▸ hmax)
    rw [hmax₁, hperiod₁] at hruns
    refine ⟨c₂, r :: rs, ?_, hc₂, .cons hserves hruns⟩
    rw [LatencyCache.calls, hcall, Option.bind_some, hcalls]
    rfl

/-- A cache of size 0 stays empty, and no call finds anything. -/
theorem calls_of_maxSize_eq_zero (h : c.Mirrored) (hmax : c.maxSize = 0)
    (hempty : c.entries = fun _ ↦ none) (es : List (ExpiringMap.Call NodeIdent UInt32)) :
    c.calls es = some (es.map fun e ↦ returned e none, c) := by
  induction es with
  | nil => rfl
  | cons e es ih =>
    have hnone : ∀ n : NodeIdent, c.latencyMap[n]? = none := fun n ↦
      Option.map_eq_none_iff.1 (congrFun hempty n)
    have hcall : c.call e = some (returned e none, c) := by
      cases e with
      | insert now inNode latencyUS =>
        rw [LatencyCache.call, LatencyCache.insertMeasurement, if_pos hmax]
        rfl
      | erase inNode =>
        rw [LatencyCache.call, LatencyCache.eraseEntry, hnone]
        rfl
      | lookup now inNode =>
        rw [LatencyCache.call, h.getLatency_eq, hempty]
        rfl
    rw [LatencyCache.calls, hcall, Option.bind_some, ih]
    rfl

/-- The destructor removes every entry. -/
theorem Mirrored.eraseEntries (ns : List NodeIdent) : ∀ {c : LatencyCache}, c.Mirrored →
    ∃ c', c.eraseEntries ns = some c' ∧ c'.Mirrored ∧
      (∀ n ∈ ns, c'.entries n = none) ∧ ∀ n, c.entries n = none → c'.entries n = none := by
  induction ns with
  | nil => exact fun {c} h ↦ ⟨c, rfl, h, fun n hn ↦ absurd hn List.not_mem_nil, fun _ h ↦ h⟩
  | cons n ns ih =>
    intro c h
    obtain ⟨c₁, herase, hc₁, hentries₁, -, -⟩ := h.eraseEntry n
    obtain ⟨c₂, hrest, hc₂, hgone, hkept⟩ := ih hc₁
    refine ⟨c₂, by rw [LatencyCache.eraseEntries, herase, Option.bind_some, hrest], hc₂, ?_, ?_⟩
    · rintro k (_ | ⟨_, hk⟩)
      · exact hkept n (by rw [hentries₁, ExpiringMap.erase_self])
      · exact hgone k hk
    · intro k hk
      refine hkept k ?_
      rw [hentries₁]
      rcases eq_or_ne k n with rfl | hne
      · exact ExpiringMap.erase_self
      · rw [ExpiringMap.erase_of_ne hne, hk]

theorem Mirrored.destroy (h : c.Mirrored) : c.destroy = some () := by
  obtain ⟨c', herase, hc', hgone, hkept⟩ := h.eraseEntries c.latencyMap.keys
  have hnone : ∀ n : NodeIdent, c'.latencyMap[n]? = none := by
    intro n
    refine Option.map_eq_none_iff.1 (show c'.entries n = none from ?_)
    by_cases hn : n ∈ c.latencyMap
    · exact hgone n (Std.ExtTreeMap.mem_keys.2 hn)
    · refine hkept n ?_
      rw [entries, Std.ExtTreeMap.getElem?_eq_none hn]
      rfl
  have hlatency : c'.latencyMap = ∅ := Std.ExtTreeMap.ext_getElem? fun n ↦ by
    rw [hnone, Std.ExtTreeMap.getElem?_empty]
  have htimeout : c'.timeoutMap = ∅ := Std.ExtTreeMap.ext_getElem? fun t ↦ by
    rw [Std.ExtTreeMap.getElem?_empty]
    cases hl : c'.timeoutMap[t]? with
    | none => rfl
    | some l =>
      -- a vector that is there has a node, which has an entry
      obtain ⟨n, rest, rfl⟩ := List.exists_cons_of_ne_nil (hc'.tidy t l hl).1
      obtain ⟨v, hv⟩ := (hc'.filed t n).1 (Buckets.mem_bucket.2 ⟨_, hl, List.mem_cons_self ..⟩)
      rw [hnone] at hv
      exact absurd hv (Option.some_ne_none _).symm
  rw [LatencyCache.destroy, herase, Option.bind_some, htimeout, hlatency]
  rfl

/-- **The latency cache is an expiring map.** Whatever is called and whatever the clock says, no
assertion fails, in a call or in the destructor, the two maps have the same entries, never more than
`maxSize`, and every call returns what the call of a map with room for `maxSize` entries returns. A
cache of size 0 returns what an empty map returns. -/
theorem latencyCache_refines (maxSize periodUS : UInt32)
    (es : List (ExpiringMap.Call NodeIdent UInt32)) :
    ∃ c rs, (new maxSize periodUS).calls es = some (List.zipWith returned es rs, c) ∧
      c.Mirrored ∧ c.latencyMap.size ≤ maxSize.toNat ∧ c.destroy = some () ∧
      (maxSize ≠ 0 → ExpiringMap.Runs maxSize.toNat periodUS.toNat (fun _ ↦ none) es rs
        c.entries) ∧
      (maxSize = 0 → rs = es.map fun _ ↦ none) := by
  have hempty : (new maxSize periodUS).entries = fun _ ↦ none := by
    funext n
    simp [new, entries]
  have hsize : (new maxSize periodUS).entries.keys.ncard = 0 := by
    rw [ncard_keys_entries]
    rfl
  have hnew := new_mirrored maxSize periodUS
  rcases eq_or_ne maxSize 0 with rfl | hmax
  · refine ⟨new 0 periodUS, es.map fun _ ↦ none, ?_, hnew, Nat.zero_le _, hnew.destroy,
      fun h ↦ absurd rfl h, fun _ ↦ rfl⟩
    rw [calls_of_maxSize_eq_zero hnew rfl hempty, List.zipWith_map_right, List.zipWith_self]
  · obtain ⟨c, rs, hcalls, hc, hruns⟩ := hnew.calls es hmax
    have hpos : 0 < maxSize.toNat := Nat.pos_of_ne_zero fun h0 ↦ hmax (UInt32.toNat_inj.1 h0)
    refine ⟨c, rs, hcalls, hc, ?_, hc.destroy, fun _ ↦ hempty ▸ hruns, fun h ↦ absurd h hmax⟩
    rw [← ncard_keys_entries]
    exact hruns.ncard_le hpos (hsize ▸ Nat.zero_le _)

/-- A map with room for no entry has no entry that could go, so it cannot do what a cache of size 0
does. -/
theorem latencyCache_zero_refines :
    ¬ ∀ (maxSize periodUS : UInt32) (es : List (ExpiringMap.Call NodeIdent UInt32)),
      ∃ c rs, (new maxSize periodUS).calls es = some (List.zipWith returned es rs, c) ∧
        ExpiringMap.Runs maxSize.toNat periodUS.toNat (fun _ ↦ none) es rs c.entries := by
  intro h
  obtain ⟨c, rs, -, hruns⟩ := h 0 1 [.insert 0 ⟨1, 80⟩ 5]
  cases hruns with
  | cons hserves _ =>
    cases hserves with
    | insert hroom =>
      rw [ExpiringMap.erase_eq_self rfl] at hroom
      exact ExpiringMap.not_makesRoom_empty hroom

end LatencyCache

end Meridian

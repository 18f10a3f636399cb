import Mathlib.Data.Int.Notation
import Mathlib.Data.Set.Card
import Mathlib.Logic.Function.Basic

/-!
# Maps whose entries expire

A map with room for a number of entries, each of which expires at a time of its own. This is what a
cache of measurements is for, with no word on how the entries are kept: a map is a function, and the
entry that has to go when there is no room is any one that expires no later than the others.

* `Serves` says what a call returns and what it makes of the map.
* `Runs` is a sequence of calls.
-/

namespace Meridian.Lib

/-- For some keys, when their entry expires and what it holds. -/
abbrev ExpiringMap (κ ν : Type*) := κ → Option (ℤ × ν)

namespace ExpiringMap

variable {κ ν : Type*}

/-- The keys that have an entry, whether it has expired or not. -/
def keys (m : ExpiringMap κ ν) : Set κ := {k | (m k).isSome}

/-- The value under a key, if it expires after `now`. -/
def lookup (m : ExpiringMap κ ν) (now : ℤ) (k : κ) : Option ν :=
  (m k).bind fun e ↦ if now < e.1 then some e.2 else none

/-- No entry expires before that of `k`. -/
def Oldest (m : ExpiringMap κ ν) (k : κ) : Prop :=
  ∃ t v, m k = some (t, v) ∧ ∀ k' t' v', m k' = some (t', v') → t ≤ t'

section Calls

variable [DecidableEq κ]

/-- A map without the entry of a key. -/
def erase (m : ExpiringMap κ ν) (k : κ) : ExpiringMap κ ν := Function.update m k none

/-- An entry of minimal expiry goes if the map is full. -/
def MakesRoom (cap : ℕ) (m m' : ExpiringMap κ ν) : Prop :=
  if cap ≤ m.keys.ncard then ∃ k, m.Oldest k ∧ m' = m.erase k else m' = m

/-- A call, with the time at which it is made where that matters. -/
inductive Call (κ ν : Type*) where
  | insert (now : ℤ) (k : κ) (v : ν)
  | erase (k : κ)
  | lookup (now : ℤ) (k : κ)

/-- What a call returns, and what it leaves behind. -/
inductive Serves (cap : ℕ) (period : ℤ) :
    ExpiringMap κ ν → Call κ ν → Option ν → ExpiringMap κ ν → Prop
  | insert {m m' : ExpiringMap κ ν} {now : ℤ} {k : κ} {v : ν} :
    MakesRoom cap (m.erase k) m' →
      Serves cap period m (.insert now k v) none (Function.update m' k (some (now + period, v)))
  | erase {m : ExpiringMap κ ν} {k : κ} : Serves cap period m (.erase k) none (m.erase k)
  | lookup {m : ExpiringMap κ ν} {now : ℤ} {k : κ} :
    Serves cap period m (.lookup now k) (m.lookup now k) m

/-- A sequence of calls, with what they return. -/
inductive Runs (cap : ℕ) (period : ℤ) :
    ExpiringMap κ ν → List (Call κ ν) → List (Option ν) → ExpiringMap κ ν → Prop
  | nil {m : ExpiringMap κ ν} : Runs cap period m [] [] m
  | cons {m m' m'' : ExpiringMap κ ν} {c : Call κ ν} {cs : List (Call κ ν)} {r : Option ν}
      {rs : List (Option ν)} :
    Serves cap period m c r m' → Runs cap period m' cs rs m'' →
      Runs cap period m (c :: cs) (r :: rs) m''

variable {m : ExpiringMap κ ν} {k k' : κ}

@[simp] theorem erase_self : m.erase k k = none := Function.update_self ..

theorem erase_of_ne (h : k' ≠ k) : m.erase k k' = m k' := Function.update_of_ne h ..

/-- A key without an entry has none to lose. -/
theorem erase_eq_self (h : m k = none) : m.erase k = m := by
  rw [erase, ← h, Function.update_eq_self]

/-- A map without room takes nothing: there is no entry that could go. -/
theorem not_makesRoom_empty {m' : ExpiringMap κ ν} :
    ¬ MakesRoom 0 (fun _ ↦ none : ExpiringMap κ ν) m' := by
  rw [MakesRoom, if_pos (Nat.zero_le _)]
  rintro ⟨k, ⟨t, v, h, -⟩, -⟩
  exact absurd h (Option.some_ne_none _).symm

theorem keys_erase : (m.erase k).keys = m.keys \ {k} := by
  ext k'
  rw [keys, Set.mem_ofPred_eq, Set.mem_sdiff, Set.mem_singleton_iff]
  by_cases hk : k' = k
  · subst hk
    simp
  · rw [erase_of_ne hk]
    exact ⟨fun h ↦ ⟨h, hk⟩, fun h ↦ h.1⟩

theorem keys_update (e : ℤ × ν) :
    keys (Function.update m k (some e) : ExpiringMap κ ν) = insert k m.keys := by
  ext k'
  rw [keys, Set.mem_ofPred_eq, Set.mem_insert_iff]
  by_cases hk : k' = k
  · subst hk
    simp
  · rw [Function.update_of_ne hk]
    exact ⟨Or.inr, fun h ↦ h.resolve_left hk⟩

theorem ncard_keys_erase_le : (m.erase k).keys.ncard ≤ m.keys.ncard := by
  rw [keys_erase]
  exact Set.ncard_sdiff_singleton_le _ _

/-- There is room for one more entry then. -/
theorem MakesRoom.ncard_lt {cap : ℕ} {m' : ExpiringMap κ ν} (h : MakesRoom cap m m')
    (hpos : 0 < cap) (hle : m.keys.ncard ≤ cap) : m'.keys.ncard < cap := by
  rw [MakesRoom] at h
  split at h
  · obtain ⟨k, ⟨t, v, hk, -⟩, rfl⟩ := h
    have hmem : k ∈ m.keys := Option.isSome_iff_exists.2 ⟨_, hk⟩
    rw [keys_erase, Set.ncard_sdiff_singleton_of_mem hmem]
    omega
  · subst h
    omega

/-- **A map never has more entries than it has room for.** -/
theorem Serves.ncard_le {cap : ℕ} {period : ℤ} {m' : ExpiringMap κ ν} {c : Call κ ν} {r : Option ν}
    (h : Serves cap period m c r m') (hpos : 0 < cap) (hle : m.keys.ncard ≤ cap) :
    m'.keys.ncard ≤ cap := by
  cases h with
  | insert hroom =>
    rw [keys_update]
    exact (Set.ncard_insert_le ..).trans (hroom.ncard_lt hpos (ncard_keys_erase_le.trans hle))
  | erase => exact ncard_keys_erase_le.trans hle
  | lookup => exact hle

theorem Runs.ncard_le {cap : ℕ} {period : ℤ} {m' : ExpiringMap κ ν} {cs : List (Call κ ν)}
    {rs : List (Option ν)} (h : Runs cap period m cs rs m') (hpos : 0 < cap)
    (hle : m.keys.ncard ≤ cap) : m'.keys.ncard ≤ cap := by
  induction h with
  | nil => exact hle
  | cons hserves _ ih => exact ih (hserves.ncard_le hpos hle)

end Calls

end ExpiringMap

end Meridian.Lib

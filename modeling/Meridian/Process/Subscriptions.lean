import Meridian.Process.Reentrancy

/-!
# Who hears of a result

A subscription is the bare id of the query that has subscribed. It outlives that query: the query
may answer or time out while the one that it has subscribed to still waits. Ids come back, as a
random number or because a client chooses them, and a query inserted under such an id inherits the
subscription.

* `subscriber_called` says that nothing else makes a notification reach a query that has not
  subscribed.
* `other_called` is a run in which a client uses its id again.
-/

namespace Meridian.QueryTable

open Lib

variable {env : ℕ → Choice} {s : QueryTable} {e : Event}

/-- In a call no query is inserted under an id under which another query has a subscription. -/
def KeepsIds (env : ℕ → Choice) (s : QueryTable) (e : Event) : Prop :=
  ∀ s', s.step env e = some s' → s'.observed.reused = s.observed.reused

/-- **Whoever is notified has subscribed**, in every run in which no query is inserted under an id
under which another has a subscription. -/
theorem subscriber_called (env : ℕ → Choice) (es : List Event) (s : QueryTable)
    (hrun : run (fun s e ↦ QueryTable.step env s e) new es = some s)
    (hids : AllSteps (KeepsIds env) (fun s e ↦ QueryTable.step env s e) new es) :
    ∀ e ∈ s.observed.notified, e.1 = some e.2 := by
  have hkept : s.observed.reused = false ∧ ∃ key, Sound key ∅ s := by
    refine run_invariant (P := fun s ↦ s.observed.reused = false ∧ ∃ key, Sound key ∅ s)
      (fun s e s' hs hkeeps hstep ↦ ?_) ⟨rfl, fun _ ↦ 0, sound_new _⟩ hids hrun
    obtain ⟨hreused, key, h⟩ := hs
    obtain ⟨s'', key', hs'', h'⟩ := h.step env e
    obtain rfl := Option.some.inj (hstep.symm.trans hs'')
    exact ⟨(hkeeps s' hstep).trans hreused, key', h'⟩
  obtain ⟨hreused, key, h⟩ := hkept
  exact h.fresh hreused

/-! ### A client that uses its id again -/

/-- The handlers of a request for the closest node: it asks one ring member, is not forwarded when
its time is up, and the member answers. -/
def closestChoices (n : ℕ) : Choice where
  passes := n ≠ 3
  finishes := false
  fails := false
  forwards := false
  timeoutTV := ⟨10, 0⟩
  reqProbes := [⟨7, ⟨20, 0⟩⟩]
  call := none
  gossips := []
  ringManage := none

/-- The answer of the ring member reaches the request. -/
theorem subscriber_called_closest :
    ∃ s, run (fun s e ↦ QueryTable.step closestChoices s e) new
        [.handleClosest ⟨5, ⟨5, 0⟩⟩ [] true, .notifyQPacket 7] = some s ∧
      s.observed.notified = [(some 0, 0)] ∧ ∀ e ∈ s.observed.notified, e.1 = some e.2 := by
  obtain ⟨s, hs, hlog⟩ := Option.map_eq_some_iff.1
    (show (run (fun s e ↦ QueryTable.step closestChoices s e) new
      [.handleClosest ⟨5, ⟨5, 0⟩⟩ [] true, .notifyQPacket 7]).map (·.observed.notified) =
        some [(some 0, 0)] by decide +kernel)
  refine ⟨s, hs, hlog, subscriber_called closestChoices _ s hs
    ⟨fun s₁ h₁ ↦ ?_, fun s₁ h₁ ↦ ⟨fun s₂ h₂ ↦ ?_, fun _ _ ↦ trivial⟩⟩⟩
  · have hreused : (step closestChoices new (.handleClosest ⟨5, ⟨5, 0⟩⟩ [] true)).map
        (·.observed.reused) = some false := by decide +kernel
    rw [show step closestChoices new _ = some s₁ from h₁] at hreused
    exact Option.some.inj hreused
  · have hreused : (step closestChoices new (.handleClosest ⟨5, ⟨5, 0⟩⟩ [] true)).bind
        (fun s ↦ (s.step closestChoices (.notifyQPacket 7)).map fun s' ↦
          (s.observed.reused, s'.observed.reused)) = some (false, false) := by decide +kernel
    rw [show step closestChoices new _ = some s₁ from h₁, Option.bind_some,
      show s₁.step closestChoices _ = some s₂ from h₂] at hreused
    obtain ⟨h, h'⟩ := Prod.mk.inj (Option.some.inj hreused)
    exact h'.trans h.symm

/-- **Another query is called.** The first request of the client has timed out when it sends the
second with the same id, and the answer of the ring member is for the first. -/
theorem other_called :
    ∃ s, run (fun s e ↦ QueryTable.step closestChoices s e) new
        [.handleClosest ⟨5, ⟨5, 0⟩⟩ [] true, .handleTimeout ⟨10, 0⟩,
          .handleClosest ⟨5, ⟨15, 0⟩⟩ [] false, .notifyQPacket 7] = some s ∧
      s.observed.notified = [(some 0, 2)] ∧ ¬ ∀ e ∈ s.observed.notified, e.1 = some e.2 := by
  obtain ⟨s, hs, hlog⟩ := Option.map_eq_some_iff.1
    (show (run (fun s e ↦ QueryTable.step closestChoices s e) new
      [.handleClosest ⟨5, ⟨5, 0⟩⟩ [] true, .handleTimeout ⟨10, 0⟩,
        .handleClosest ⟨5, ⟨15, 0⟩⟩ [] false, .notifyQPacket 7]).map (·.observed.notified) =
        some [(some 0, 2)] by decide +kernel)
  refine ⟨s, hs, hlog, fun hall ↦ ?_⟩
  exact absurd (hall (some 0, 2) (hlog ▸ List.mem_singleton_self _)) (by decide)

end Meridian.QueryTable

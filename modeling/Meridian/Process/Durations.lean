import Meridian.Process.LatencyCache
import Meridian.Query.Thread

/-!
# Durations

The intervals of gossip and of ring replacement are set in seconds, the timeout of a `get_distance`
in milliseconds, and a deadline is made of microseconds. The conversions are products of `u_int`s,
one in `start`, one in the constructor of the query, and nothing checks that they fit.

* A deadline is as many microseconds away as `computeTimeout` is told (`Query.computeTimeout_eq`), so
  it is right exactly when the product of both factors is below 2^32: up to 4294 seconds.
* The timeout of a `get_distance` is clamped after the product. So it is right for a timeout that
  wraps to more than the clamp, but not for all.
-/

namespace Meridian

open Timeval

/-- `MICRO_IN_MILLI`. -/
def MICRO_IN_MILLI : UInt32 := 1000

/-- `MAX_RTT_MS`. -/
def MAX_RTT_MS : UInt32 := 5000

/-- The product of two `u_int`s is the product of their values. -/
def Fits (a b : UInt32) : Prop := a.toNat * b.toNat < 2 ^ 32

/-- `Query::computeTimeout`. -/
def Query.computeTimeout (now : ℤ) (periodUS : UInt32) : Timeval :=
  let offsetTV : Timeval := ⟨periodUS.toNat / MICRO_IN_SECOND, periodUS.toNat % MICRO_IN_SECOND⟩
  timeradd (gettimeofday now) offsetTV

/-! ### Schedulers -/

/-- The members of a `QueryScheduler`. -/
structure QueryScheduler where
  schedObj : SchedObject
  initIntervalMS : UInt32
  numInitInterval : UInt32
  ssIntervalMS : UInt32
  timeoutTV : Timeval
  deriving DecidableEq, Repr

namespace QueryScheduler

/-- The interval that comes next. -/
def intervalMS (q : QueryScheduler) : UInt32 :=
  if 0 < q.numInitInterval then q.initIntervalMS else q.ssIntervalMS

/-- `computeSchedTimeout`. -/
def computeSchedTimeout (now : ℤ) (q : QueryScheduler) : QueryScheduler :=
  if 0 < q.numInitInterval then
    { q with
      timeoutTV := Query.computeTimeout now (q.initIntervalMS * MICRO_IN_MILLI)
      numInitInterval := q.numInitInterval - 1 }
  else { q with timeoutTV := Query.computeTimeout now (q.ssIntervalMS * MICRO_IN_MILLI) }

/-- What the constructor initialises; `timeoutTV` has no value yet. -/
def members (inInitIntervalMS inNumInitInterval inSsIntervalMS : UInt32) (inSchedObj : SchedObject) :
    QueryScheduler :=
  ⟨inSchedObj, inInitIntervalMS, inNumInitInterval, inSsIntervalMS, ⟨0, 0⟩⟩

/-- The constructor. -/
def new (now : ℤ) (inInitIntervalMS inNumInitInterval inSsIntervalMS : UInt32)
    (inSchedObj : SchedObject) : QueryScheduler :=
  (members inInitIntervalMS inNumInitInterval inSsIntervalMS inSchedObj).computeSchedTimeout now

/-- `handleTimeout`, behind `runOnce`. -/
def handleTimeout (now : ℤ) (q : QueryScheduler) : QueryScheduler := q.computeSchedTimeout now

/-- The members, once the constructor has been called at the first of these times, and `handleTimeout`
at the others. -/
def run (q : QueryScheduler) : List ℤ → QueryScheduler
  | [] => q
  | now :: nows => nows.foldl (fun q now ↦ q.handleTimeout now) (q.computeSchedTimeout now)

end QueryScheduler

/-! ### The process -/

/-- The intervals of a `MeridianProcess`. -/
structure Intervals where
  initGossipIntervalS : UInt32
  numInitIntervalRemain : UInt32
  ssGossipIntervalS : UInt32
  replaceIntervalS : UInt32
  deriving DecidableEq, Repr

namespace Intervals

/-- `setGossipInterval`. -/
def setGossipInterval (initialS initialLength steadyStateS : UInt32) (g : Intervals) : Intervals :=
  { g with
    initGossipIntervalS := initialS
    numInitIntervalRemain := initialLength
    ssGossipIntervalS := steadyStateS }

/-- `setReplaceInterval`. -/
def setReplaceInterval (seconds : UInt32) (g : Intervals) : Intervals :=
  { g with replaceIntervalS := seconds }

/-- The intervals that the constructor sets. -/
def new : Intervals := ((⟨0, 0, 0, 0⟩ : Intervals).setGossipInterval 10 10 60).setReplaceInterval 300

/-- The intervals of a process for which both setters have been called before `start`. -/
def set (initialS initialLength steadyStateS seconds : UInt32) : Intervals :=
  (new.setGossipInterval initialS initialLength steadyStateS).setReplaceInterval seconds

/-- The gossip scheduler of `start`. -/
def gossipScheduler (g : Intervals) : QueryScheduler :=
  .members (g.initGossipIntervalS * 1000) g.numInitIntervalRemain (g.ssGossipIntervalS * 1000) .gossip

/-- The ring scheduler of `start`. -/
def ringScheduler (g : Intervals) : QueryScheduler :=
  .members 0 0 (g.replaceIntervalS * 1000) .ringManage

end Intervals

/-- The deadline that the constructor of a `HandleGetDistanceGeneric` sets. -/
def HandleGetDistance.deadline (now : ℤ) (inTimeoutMS : UInt32) : Timeval :=
  let clampUS := 2 * MAX_RTT_MS * MICRO_IN_MILLI
  let timeoutUS := inTimeoutMS * MICRO_IN_MILLI
  Query.computeTimeout now (if clampUS < timeoutUS then clampUS else timeoutUS)

/-! ### Deadlines -/

theorem Timeval.Canonical.eq_gettimeofday {a : Timeval} (h : a.Canonical) :
    a = gettimeofday a.micros := by
  obtain ⟨sec, usec⟩ := a
  simp only [Canonical, micros, gettimeofday, MICRO_IN_SECOND, Timeval.mk.injEq] at h ⊢
  omega

/-- **A deadline is as far away as `computeTimeout` is told.** -/
theorem Query.computeTimeout_eq (now : ℤ) (periodUS : UInt32) :
    computeTimeout now periodUS = gettimeofday (now + periodUS.toNat) := by
  have hoffset : Canonical ⟨periodUS.toNat / MICRO_IN_SECOND, periodUS.toNat % MICRO_IN_SECOND⟩ :=
    LatencyCache.canonical_offset periodUS
  have h := (canonical_timeradd (canonical_gettimeofday now) hoffset).eq_gettimeofday
  rw [micros_timeradd, micros_gettimeofday] at h
  rw [computeTimeout, h]
  congr 2
  simp only [micros, MICRO_IN_SECOND]
  omega

theorem gettimeofday_inj {a b : ℤ} : gettimeofday a = gettimeofday b ↔ a = b := by
  refine ⟨fun h ↦ ?_, congrArg gettimeofday⟩
  rw [← micros_gettimeofday a, h, micros_gettimeofday]

/-- Seconds that are converted in two steps. -/
theorem computeTimeout_seconds_iff (now : ℤ) (s : UInt32) :
    Query.computeTimeout now (s * 1000 * MICRO_IN_MILLI) =
      gettimeofday (now + s.toNat * MICRO_IN_SECOND) ↔ s.toNat ≤ 4294 := by
  have hperiod : (s * 1000 * MICRO_IN_MILLI).toNat = s.toNat * 1000000 % 2 ^ 32 := by
    rw [MICRO_IN_MILLI, UInt32.toNat_mul, UInt32.toNat_mul]
    show s.toNat * 1000 % 2 ^ 32 * 1000 % 2 ^ 32 = _
    omega
  rw [Query.computeTimeout_eq, gettimeofday_inj, hperiod, MICRO_IN_SECOND]
  omega

/-! ### What a scheduler waits -/

namespace QueryScheduler

variable {q : QueryScheduler}

theorem run_concat (nows : List ℤ) (now : ℤ) :
    q.run (nows ++ [now]) = (q.run nows).computeSchedTimeout now := by
  cases nows with
  | nil => rfl
  | cons first nows =>
    show (nows ++ [now]).foldl _ _ = _
    rw [List.foldl_append]
    rfl

/-- A timeout sets the deadline by the next interval. -/
theorem timeoutTV_computeSchedTimeout (now : ℤ) (q : QueryScheduler) :
    (q.computeSchedTimeout now).timeoutTV =
      Query.computeTimeout now (q.intervalMS * MICRO_IN_MILLI) := by
  rw [computeSchedTimeout, intervalMS]
  split
  · rfl
  · rfl

/-- The initial intervals are counted down, and the intervals themselves stay. -/
theorem run_eq (q : QueryScheduler) (nows : List ℤ) :
    (q.run nows).initIntervalMS = q.initIntervalMS ∧ (q.run nows).ssIntervalMS = q.ssIntervalMS ∧
      (q.run nows).numInitInterval.toNat = q.numInitInterval.toNat - nows.length := by
  induction nows using List.reverseRecOn with
  | nil => exact ⟨rfl, rfl, rfl⟩
  | append_singleton nows now ih =>
    obtain ⟨hinit, hss, hnum⟩ := ih
    rw [run_concat, computeSchedTimeout, List.length_append, List.length_singleton]
    split
    · next hpos =>
      have hnat : 0 < (q.run nows).numInitInterval.toNat := hpos
      have hone : (1 : UInt32) ≤ (q.run nows).numInitInterval := hnat
      refine ⟨hinit, hss, ?_⟩
      show ((q.run nows).numInitInterval - 1).toNat = _
      rw [UInt32.toNat_sub_of_le _ _ hone, hnum]
      exact Nat.sub_sub ..
    · next hzero =>
      have hnat : ¬ 0 < (q.run nows).numInitInterval.toNat := hzero
      refine ⟨hinit, hss, ?_⟩
      show (q.run nows).numInitInterval.toNat = _
      omega

theorem intervalMS_run (q : QueryScheduler) (nows : List ℤ) :
    (q.run nows).intervalMS =
      if nows.length < q.numInitInterval.toNat then q.initIntervalMS else q.ssIntervalMS := by
  obtain ⟨hinit, hss, hnum⟩ := q.run_eq nows
  have hiff : 0 < (q.run nows).numInitInterval ↔ nows.length < q.numInitInterval.toNat := by
    rw [UInt32.lt_iff_toNat_lt, hnum]
    exact Nat.sub_pos_iff_lt
  simp only [intervalMS, hiff, hinit, hss]

/-- In every run the scheduler waits these seconds: its deadlines are that far away, and no product
wraps on the way to them. -/
structure Waits (q : QueryScheduler) (initialS initialLength steadyStateS : UInt32) : Prop where
  fits : ∀ nows, Fits (q.run nows).intervalMS MICRO_IN_MILLI
  deadline : ∀ nows now, (q.run (nows ++ [now])).timeoutTV = gettimeofday (now +
    (if nows.length < initialLength.toNat then initialS else steadyStateS).toNat * MICRO_IN_SECOND)

/-- **When a scheduler waits its intervals**: those that it comes to are at most 4294 seconds. -/
theorem waits_iff (initialS initialLength steadyStateS : UInt32) (schedObj : SchedObject) :
    (members (initialS * 1000) initialLength (steadyStateS * 1000) schedObj).Waits initialS
        initialLength steadyStateS ↔
      (0 < initialLength → initialS.toNat ≤ 4294) ∧ steadyStateS.toNat ≤ 4294 := by
  have hinterval (nows : List ℤ) :
      ((members (initialS * 1000) initialLength (steadyStateS * 1000) schedObj).run nows).intervalMS =
        (if nows.length < initialLength.toNat then initialS else steadyStateS) * 1000 := by
    rw [intervalMS_run, apply_ite (· * (1000 : UInt32))]
    rfl
  constructor
  · intro h
    have hdeadline := h.deadline
    simp only [run_concat, timeoutTV_computeSchedTimeout, hinterval, computeTimeout_seconds_iff]
      at hdeadline
    constructor
    · intro hpos
      have hfirst := hdeadline [] 0
      rwa [if_pos (show ([] : List ℤ).length < initialLength.toNat from hpos)] at hfirst
    · have hlast := hdeadline (List.replicate initialLength.toNat 0) 0
      rwa [if_neg (by rw [List.length_replicate]; exact Nat.lt_irrefl _)] at hlast
  · rintro ⟨hinit, hss⟩
    have hle (nows : List ℤ) :
        (if nows.length < initialLength.toNat then initialS else steadyStateS).toNat ≤ 4294 := by
      split
      · next hlt => exact hinit (Nat.zero_lt_of_lt hlt)
      · exact hss
    refine ⟨fun nows ↦ ?_, fun nows now ↦ ?_⟩
    · have hs := hle nows
      rw [hinterval, Fits, UInt32.toNat_mul]
      generalize (if nows.length < initialLength.toNat then initialS else steadyStateS).toNat = s at hs
      show s * 1000 % 2 ^ 32 * 1000 < 2 ^ 32
      rw [Nat.mod_eq_of_lt (by omega)]
      omega
    · rw [run_concat, timeoutTV_computeSchedTimeout, hinterval, computeTimeout_seconds_iff]
      exact hle nows

end QueryScheduler

/-! ### What a `get_distance` waits -/

/-- The deadline of a query is the microsecond that its model has. -/
theorem HandleGetDistance.deadline_eq (inSrc inRemote : List NodeIdentRendv) (now : ℕ)
    (inTimeoutMS : UInt32) (inPrevQID : UInt64) :
    deadline now inTimeoutMS =
      gettimeofday (new inSrc inRemote now inTimeoutMS inPrevQID).timeoutTV := by
  have hmin : (if 2 * MAX_RTT_MS * MICRO_IN_MILLI < inTimeoutMS * MICRO_IN_MILLI then
      2 * MAX_RTT_MS * MICRO_IN_MILLI else inTimeoutMS * MICRO_IN_MILLI) =
      min (2 * MAX_RTT_US) (inTimeoutMS * 1000) := by
    show _ = if 2 * MAX_RTT_US ≤ inTimeoutMS * 1000 then 2 * MAX_RTT_US else inTimeoutMS * 1000
    rw [show 2 * MAX_RTT_MS * MICRO_IN_MILLI = 2 * MAX_RTT_US from rfl, MICRO_IN_MILLI]
    split
    · next hlt => rw [if_pos (UInt32.le_of_lt hlt)]
    · next hge =>
      split
      · next hle => exact UInt32.le_antisymm (UInt32.not_lt.1 hge) hle
      · rfl
  rw [deadline, Query.computeTimeout_eq, hmin]
  rfl

/-- The smaller of the timeout and twice the longest round trip, in microseconds. -/
def clampedUS (inTimeoutMS : UInt32) : ℕ :=
  min inTimeoutMS.toNat (2 * MAX_RTT_MS.toNat) * MICRO_IN_MILLI.toNat

/-- **When the deadline of a `get_distance` is right.** A product that wraps is, too, if it is not
below the clamp. -/
theorem HandleGetDistance.deadline_eq_iff (now : ℤ) (inTimeoutMS : UInt32) :
    deadline now inTimeoutMS = gettimeofday (now + clampedUS inTimeoutMS) ↔
      inTimeoutMS.toNat ≤ 10000 ∨ 10000000 ≤ inTimeoutMS.toNat * 1000 % 2 ^ 32 := by
  have hproduct : (inTimeoutMS * MICRO_IN_MILLI).toNat = inTimeoutMS.toNat * 1000 % 2 ^ 32 :=
    UInt32.toNat_mul ..
  have hclamp : (2 * MAX_RTT_MS * MICRO_IN_MILLI).toNat = 10000000 := by decide
  have hclamped : clampedUS inTimeoutMS = min inTimeoutMS.toNat 10000 * 1000 := rfl
  rw [deadline, Query.computeTimeout_eq, gettimeofday_inj, hclamped]
  split
  · next hlt =>
    rw [UInt32.lt_iff_toNat_lt, hproduct, hclamp] at hlt
    have hle := Nat.mod_le (inTimeoutMS.toNat * 1000) (2 ^ 32)
    rw [hclamp, Nat.min_eq_right (by omega)]
    omega
  · next hge =>
    rw [UInt32.lt_iff_toNat_lt, hproduct, hclamp] at hge
    rw [hproduct]
    rcases Nat.le_total inTimeoutMS.toNat 10000 with hle | hle
    · rw [Nat.min_eq_left hle, Nat.mod_eq_of_lt (by omega)]
      omega
    · rw [Nat.min_eq_right hle]
      omega

/-- In every run the deadline of the query is as far away as it should be, and the product on the way
to it does not wrap. -/
structure HandleGetDistance.Waits (inTimeoutMS : UInt32) : Prop where
  fits : Fits inTimeoutMS MICRO_IN_MILLI
  deadline : ∀ now, deadline now inTimeoutMS = gettimeofday (now + clampedUS inTimeoutMS)

theorem HandleGetDistance.waits_iff (inTimeoutMS : UInt32) :
    Waits inTimeoutMS ↔ inTimeoutMS.toNat ≤ 4294967 := by
  have hfits : Fits inTimeoutMS MICRO_IN_MILLI ↔ inTimeoutMS.toNat ≤ 4294967 := by
    show inTimeoutMS.toNat * 1000 < 2 ^ 32 ↔ _
    omega
  refine ⟨fun h ↦ hfits.1 h.fits, fun h ↦ ⟨hfits.2 h, fun now ↦ ?_⟩⟩
  rw [deadline_eq_iff, Nat.mod_eq_of_lt (by omega)]
  omega

/-! ### All durations -/

/-- **The durations that are asked for are waited for** exactly as long as the intervals that the
schedulers come to are at most 4294 seconds, an initial gossip interval that they do not come to
4294967 seconds, and the timeout of the `get_distance` 4294967 milliseconds. -/
theorem durations_iff (initialS initialLength steadyStateS seconds inTimeoutMS : UInt32) :
    (Fits initialS 1000 ∧ Fits steadyStateS 1000 ∧
        (Intervals.set initialS initialLength steadyStateS seconds).gossipScheduler.Waits initialS
          initialLength steadyStateS ↔
      initialS.toNat ≤ 4294967 ∧ (0 < initialLength → initialS.toNat ≤ 4294) ∧
        steadyStateS.toNat ≤ 4294) ∧
    (Fits seconds 1000 ∧
        (Intervals.set initialS initialLength steadyStateS seconds).ringScheduler.Waits 0 0 seconds ↔
      seconds.toNat ≤ 4294) ∧
    (HandleGetDistance.Waits inTimeoutMS ↔ inTimeoutMS.toNat ≤ 4294967) ∧
    ∀ now, HandleGetDistance.deadline now inTimeoutMS =
        gettimeofday (now + clampedUS inTimeoutMS) ↔
      inTimeoutMS.toNat ≤ 10000 ∨ 10000000 ≤ inTimeoutMS.toNat * 1000 % 2 ^ 32 := by
  have hseconds (s : UInt32) : Fits s 1000 ↔ s.toNat ≤ 4294967 := by
    show s.toNat * 1000 < 2 ^ 32 ↔ _
    omega
  refine ⟨?_, ?_, HandleGetDistance.waits_iff inTimeoutMS,
    fun now ↦ HandleGetDistance.deadline_eq_iff now inTimeoutMS⟩
  · have hgossip :
        (Intervals.set initialS initialLength steadyStateS seconds).gossipScheduler.Waits initialS
            initialLength steadyStateS ↔
          (0 < initialLength → initialS.toNat ≤ 4294) ∧ steadyStateS.toNat ≤ 4294 :=
      QueryScheduler.waits_iff initialS initialLength steadyStateS .gossip
    rw [hgossip, hseconds, hseconds]
    exact ⟨fun h ↦ ⟨h.1, h.2.2⟩, fun h ↦ ⟨h.1, h.2.2.trans (by decide), h.2⟩⟩
  · have hring :
        (Intervals.set initialS initialLength steadyStateS seconds).ringScheduler.Waits 0 0 seconds ↔
          ((0 : UInt32) < 0 → (0 : UInt32).toNat ≤ 4294) ∧ seconds.toNat ≤ 4294 :=
      QueryScheduler.waits_iff 0 0 seconds .ringManage
    have hzero : (0 : UInt32) < 0 → (0 : UInt32).toNat ≤ 4294 := fun _ ↦ by decide
    rw [hring, hseconds]
    exact ⟨fun h ↦ h.2.2, fun h ↦ ⟨h.trans (by decide), hzero, h⟩⟩

/-- A replacement interval of 4295 seconds is waited for less than a second. -/
theorem durations_wrap : ¬ ∀ initialS initialLength steadyStateS seconds inTimeoutMS : UInt32,
    inTimeoutMS.toNat < 2 ^ 31 →
      (Intervals.set initialS initialLength steadyStateS seconds).gossipScheduler.Waits initialS
        initialLength steadyStateS ∧
      (Intervals.set initialS initialLength steadyStateS seconds).ringScheduler.Waits 0 0 seconds ∧
      HandleGetDistance.Waits inTimeoutMS := by
  intro h
  obtain ⟨-, hring, -⟩ := h 10 10 60 4295 1000 (by decide)
  have hdeadline := hring.deadline [] 0
  exact absurd hdeadline (by decide)

end Meridian

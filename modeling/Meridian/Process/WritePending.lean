import Meridian.Marshal.Tunnel

/-!
# Sending the outgoing packets

`writePending` sends the packets of `g_outPacketList` from the front, until the socket takes no
more. It decides by `errno` after a `performSend` that has returned -1. But a packet for a node with
a rendavous that does not fit into a PUSH packet makes `performSend` return -1 without a system
call, and then `errno` is what an earlier call has left there. If that is `EAGAIN` the packet stays
at the front, where no later attempt can get it sent.

* The results of `sendto` come from outside: `sendto k` is the result of the `k`-th call, `none` for
  success and the `errno` that it sets for a failure.
* A successful call and `fprintf` leave `errno` as it is.
-/

namespace Meridian

/-- `EAGAIN`, as on Linux. -/
def EAGAIN : Int32 := 11

/-- `EWOULDBLOCK`, which is the same there. -/
def EWOULDBLOCK : Int32 := EAGAIN

/-- A call of `sendto`: for which packet of the queue, counted from the first, with what datagram,
and its result. -/
structure SendCall where
  position : ℕ
  packet : RealPacket
  result : Option Int32

/-- `errno` and the calls of `sendto` so far. -/
structure SendEnv where
  errno : Int32
  calls : List SendCall

/-- `errno` says that the socket takes no more. -/
def Retry (errno : Int32) : Prop := errno = EAGAIN ∨ errno = EWOULDBLOCK

instance (errno : Int32) : Decidable (Retry errno) := inferInstanceAs (Decidable (_ ∨ _))

section

variable (magic : UInt32) (sendto : ℕ → Option Int32)

/-- `performSend` and its system call; `false` is -1. -/
def performSendCall (position : ℕ) (inPacket : RealPacket) (env : SendEnv) : Bool × SendEnv :=
  match performSend magic inPacket with
  | none => (false, env)
  | some packet =>
    let result := sendto env.calls.length
    (result.isNone, ⟨result.getD env.errno, env.calls ++ [⟨position, packet, result⟩]⟩)

/-- The loop of `writePending`: the packets that are left, and what has been called. -/
def sendLoop : List RealPacket → ℕ → SendEnv → List RealPacket × SendEnv
  | [], _, env => ([], env)
  | firstPacket :: rest, position, env =>
    let (ok, env) := performSendCall magic sendto position firstPacket env
    if ok = false ∧ Retry env.errno then (firstPacket :: rest, env)
    else sendLoop rest (position + 1) env

/-- `g_outPacketList`, and `g_meridSock` in `g_writeSet`. -/
structure OutQueue where
  outPacketList : List RealPacket
  inWriteSet : Bool

/-- `addOutPacket`. -/
def OutQueue.addOutPacket (out : OutQueue) (inPacket : RealPacket) : OutQueue :=
  ⟨out.outPacketList ++ [inPacket], true⟩

/-- `writePending`. `none` is the failed assertion. -/
def OutQueue.writePending (out : OutQueue) (errno : Int32) : Option (OutQueue × SendEnv) :=
  if out.outPacketList.isEmpty then none
  else
    let (left, env) := sendLoop magic sendto out.outPacketList 0 ⟨errno, []⟩
    some (⟨left, if left.isEmpty then false else out.inWriteSet⟩, env)

/-- What `writePending` is to do: it removes a prefix of the queue, and if a packet is left at the
front then `sendto` was called for it and said that the socket takes no more. -/
def Drains (queue left : List RealPacket) (env : SendEnv) : Prop :=
  ∃ removed, queue = removed ++ left ∧ ∀ p rest, left = p :: rest →
    ∃ packet errno, performSend magic p = some packet ∧ Retry errno ∧
      ⟨removed.length, packet, some errno⟩ ∈ env.calls

/-- The packets before the first that no PUSH packet can take are sent. -/
def Blocked (queue : List RealPacket) : Prop :=
  ∃ before p rest, queue = before ++ p :: rest ∧ performSend magic p = none ∧
    (∀ q ∈ before, performSend magic q ≠ none) ∧ ∀ k < before.length, sendto k = none

/-- The same along the loop, which has called `sendto` `k` times. -/
def BlockedFrom : List RealPacket → ℕ → Prop
  | [], _ => False
  | p :: rest, k => performSend magic p = none ∨ (sendto k = none ∧ BlockedFrom rest (k + 1))

end

variable {magic : UInt32} {sendto : ℕ → Option Int32}

/-- Which packets are not given to `sendto`. -/
theorem performSend_eq_none_iff {p : RealPacket} (hsize : p.payload.length < 2 ^ 31) :
    performSend magic p = none ↔
      (p.dest.addrRendv ≠ 0 ∨ p.getRendvPort ≠ 0) ∧ 1381 < p.payload.length := by
  rw [performSend]
  split
  · next h =>
    have h : p.dest.addrRendv ≠ 0 ∨ p.getRendvPort ≠ 0 := by simpa using h
    rcases Nat.lt_or_ge 1381 p.payload.length with hlt | hle
    · exact iff_of_true (wrapPush_of_lt hsize hlt) ⟨h, hlt⟩
    · rw [wrapPush_of_le hle]
      exact iff_of_false (Option.some_ne_none _) fun h ↦ absurd h.2 (Nat.not_lt.2 hle)
  · next h =>
    have h : ¬ (p.dest.addrRendv ≠ 0 ∨ p.getRendvPort ≠ 0) := by simpa using h
    exact iff_of_false (Option.some_ne_none _) fun h' ↦ h h'.1

theorem blockedFrom_iff {queue : List RealPacket} {k : ℕ} : BlockedFrom magic sendto queue k ↔
    ∃ before p rest, queue = before ++ p :: rest ∧ performSend magic p = none ∧
      (∀ q ∈ before, performSend magic q ≠ none) ∧
      ∀ i < before.length, sendto (k + i) = none := by
  induction queue generalizing k with
  | nil =>
    refine iff_of_false id ?_
    rintro ⟨before, p, rest, h, -⟩
    exact List.append_ne_nil_of_right_ne_nil before (List.cons_ne_nil p rest) h.symm
  | cons p queue ih =>
    rw [BlockedFrom, ih]
    by_cases hp : performSend magic p = none
    · refine iff_of_true (.inl hp) ⟨[], p, queue, rfl, hp, ?_, ?_⟩
      · exact fun q hq ↦ absurd hq List.not_mem_nil
      · exact fun i hi ↦ absurd hi (Nat.not_lt_zero i)
    · rw [or_iff_right hp]
      constructor
      · rintro ⟨hk, before, q, rest, rfl, hq, hbefore, hsent⟩
        refine ⟨p :: before, q, rest, rfl, hq, List.forall_mem_cons.2 ⟨hp, hbefore⟩, ?_⟩
        intro i hi
        cases i with
        | zero => exact hk
        | succ i =>
          rw [Nat.add_comm i 1, ← Nat.add_assoc]
          exact hsent i (Nat.lt_of_succ_lt_succ hi)
      · rintro ⟨before, q, rest, heq, hq, hbefore, hsent⟩
        cases before with
        | nil =>
          obtain rfl := (List.cons.inj heq).1
          exact absurd hq hp
        | cons p' before =>
          obtain ⟨rfl, rfl⟩ := List.cons.inj heq
          refine ⟨hsent 0 (Nat.zero_lt_succ _), before, q, rest, rfl, hq,
            (List.forall_mem_cons.1 hbefore).2, fun i hi ↦ ?_⟩
          rw [Nat.add_assoc, Nat.add_comm 1 i]
          exact hsent (i + 1) (Nat.succ_lt_succ hi)

theorem blocked_iff {queue : List RealPacket} :
    Blocked magic sendto queue ↔ BlockedFrom magic sendto queue 0 := by
  rw [blockedFrom_iff]
  simp only [Nat.zero_add]
  exact Iff.rfl

/-- One round: the packet is not given to `sendto`, or it is. -/
theorem performSendCall_of_none {p : RealPacket} (h : performSend magic p = none) (position : ℕ)
    (env : SendEnv) : performSendCall magic sendto position p env = (false, env) := by
  rw [performSendCall, h]

theorem performSendCall_of_some {p packet : RealPacket} (h : performSend magic p = some packet)
    (position : ℕ) (env : SendEnv) : performSendCall magic sendto position p env =
      ((sendto env.calls.length).isNone, ⟨(sendto env.calls.length).getD env.errno,
        env.calls ++ [⟨position, packet, sendto env.calls.length⟩]⟩) := by
  rw [performSendCall, h]

/-- With a stale `EAGAIN`, the loop ends at the packet that cannot be sent. -/
theorem sendLoop_of_blocked {queue : List RealPacket} (position : ℕ) (env : SendEnv)
    (herrno : Retry env.errno) (h : BlockedFrom magic sendto queue env.calls.length) :
    ∃ p rest, (sendLoop magic sendto queue position env).1 = p :: rest ∧
      performSend magic p = none := by
  induction queue generalizing position env with
  | nil => cases h
  | cons p queue ih =>
    cases hp : performSend magic p with
    | none =>
      refine ⟨p, queue, ?_, hp⟩
      rw [sendLoop, performSendCall_of_none hp]
      simp [herrno]
    | some packet =>
      obtain ⟨hsent, h⟩ := h.resolve_left (by rw [hp]; exact Option.some_ne_none _)
      rw [sendLoop, performSendCall_of_some hp, hsent]
      have hlen : (env.calls ++ [(⟨position, packet, none⟩ : SendCall)]).length =
          env.calls.length + 1 := List.length_append
      exact ih _ _ herrno (hlen ▸ h)

/-- Otherwise it ends where `sendto` says so, or with the queue. -/
theorem sendLoop_drains {queue : List RealPacket} (position : ℕ) (env : SendEnv)
    (h : ¬ (Retry env.errno ∧ BlockedFrom magic sendto queue env.calls.length)) :
    ∃ removed, queue = removed ++ (sendLoop magic sendto queue position env).1 ∧
      ∀ p rest, (sendLoop magic sendto queue position env).1 = p :: rest →
        ∃ packet errno, performSend magic p = some packet ∧ Retry errno ∧
          ⟨position + removed.length, packet, some errno⟩ ∈
            (sendLoop magic sendto queue position env).2.calls := by
  induction queue generalizing position env with
  | nil => exact ⟨[], rfl, fun p rest h ↦ by cases h⟩
  | cons p queue ih =>
    -- the loop goes on behind `p`
    have hnext (env' : SendEnv)
        (h' : ¬ (Retry env'.errno ∧ BlockedFrom magic sendto queue env'.calls.length))
        (heq : sendLoop magic sendto (p :: queue) position env =
          sendLoop magic sendto queue (position + 1) env') :
        ∃ removed, p :: queue = removed ++ (sendLoop magic sendto (p :: queue) position env).1 ∧
          ∀ q rest, (sendLoop magic sendto (p :: queue) position env).1 = q :: rest →
            ∃ packet errno, performSend magic q = some packet ∧ Retry errno ∧
              ⟨position + removed.length, packet, some errno⟩ ∈
                (sendLoop magic sendto (p :: queue) position env).2.calls := by
      obtain ⟨removed, hqueue, hleft⟩ := ih (position + 1) env' h'
      have hpos : position + 1 + removed.length = position + (p :: removed).length := by
        rw [List.length_cons]
        omega
      rw [heq]
      rw [hpos] at hleft
      exact ⟨p :: removed, congrArg (p :: ·) hqueue, hleft⟩
    cases hp : performSend magic p with
    | none =>
      have herrno : ¬ Retry env.errno := fun herrno ↦ h ⟨herrno, .inl hp⟩
      refine hnext env (fun h' ↦ herrno h'.1) ?_
      rw [sendLoop, performSendCall_of_none hp]
      simp [herrno]
    | some packet =>
      cases hsent : sendto env.calls.length with
      | none =>
        refine hnext ⟨env.errno, env.calls ++ [⟨position, packet, none⟩]⟩ (fun h' ↦ h ⟨h'.1, ?_⟩) ?_
        · have h' := h'.2
          rw [List.length_append] at h'
          exact .inr ⟨hsent, h'⟩
        · rw [sendLoop, performSendCall_of_some hp, hsent]
          simp
      | some errno =>
        by_cases herrno : Retry errno
        · -- the loop ends here, with the call that is the last one
          have hloop : sendLoop magic sendto (p :: queue) position env =
              (p :: queue, ⟨errno, env.calls ++ [⟨position, packet, some errno⟩]⟩) := by
            rw [sendLoop, performSendCall_of_some hp, hsent]
            simp [herrno]
          rw [hloop]
          refine ⟨[], rfl, fun q rest heq ↦ ?_⟩
          obtain rfl := (List.cons.inj heq).1
          exact ⟨packet, errno, hp, herrno, List.mem_append_right _ (List.mem_singleton_self _)⟩
        · refine hnext ⟨errno, env.calls ++ [⟨position, packet, some errno⟩]⟩
            (fun h' ↦ herrno h'.1) ?_
          rw [sendLoop, performSendCall_of_some hp, hsent]
          simp [herrno]

/-! ### The write set -/

/-- The socket is watched for writing just if there is something to send. -/
def OutQueue.Watched (out : OutQueue) : Prop := out.inWriteSet = true ↔ out.outPacketList ≠ []

theorem OutQueue.Watched.addOutPacket (out : OutQueue) (p : RealPacket) :
    (out.addOutPacket p).Watched :=
  iff_of_true rfl (List.append_ne_nil_of_right_ne_nil _ (List.cons_ne_nil p []))

theorem OutQueue.Watched.writePending {out out' : OutQueue} {errno : Int32} {env : SendEnv}
    (hout : out.Watched) (h : out.writePending magic sendto errno = some (out', env)) :
    out'.Watched := by
  rw [OutQueue.writePending] at h
  split at h
  · cases h
  next hne =>
    obtain ⟨rfl, -⟩ := Prod.mk.inj (Option.some.inj h)
    have hin : out.inWriteSet = true := hout.2 fun hnil ↦ hne (List.isEmpty_iff.2 hnil)
    generalize (sendLoop magic sendto out.outPacketList 0 ⟨errno, []⟩).1 = left
    cases left with
    | nil => exact iff_of_false Bool.false_ne_true fun hne ↦ hne rfl
    | cons p rest => exact iff_of_true hin (List.cons_ne_nil p rest)

/-- `writePending` is called when `select` has reported the socket, and then its assertion holds. -/
theorem OutQueue.Watched.isSome_writePending {out : OutQueue} (hout : out.Watched)
    (hin : out.inWriteSet = true) (errno : Int32) :
    (out.writePending magic sendto errno).isSome := by
  rw [OutQueue.writePending, if_neg fun hnil ↦ hout.1 hin (List.isEmpty_iff.1 hnil)]
  rfl

/-! ### The law of the queue -/

/-- **When the queue drains**: unless `errno` is `EAGAIN` when `writePending` is called, all that is
sent before the first packet that no PUSH packet can take is accepted by the socket, and so that
packet stays. -/
theorem writePending_drains_iff (magic : UInt32) (sendto : ℕ → Option Int32) (out out' : OutQueue)
    (errno : Int32) (env : SendEnv)
    (h : out.writePending magic sendto errno = some (out', env)) :
    Drains magic out.outPacketList out'.outPacketList env ↔
      ¬ (Retry errno ∧ Blocked magic sendto out.outPacketList) := by
  rw [OutQueue.writePending] at h
  split at h
  · cases h
  obtain ⟨rfl, rfl⟩ := Prod.mk.inj (Option.some.inj h)
  rw [blocked_iff]
  constructor
  · rintro ⟨removed, -, hleft⟩ ⟨herrno, hblocked⟩
    obtain ⟨p, rest, hloop, hp⟩ :=
      sendLoop_of_blocked 0 ⟨errno, []⟩ herrno hblocked
    obtain ⟨packet, -, hsome, -⟩ := hleft p rest hloop
    exact absurd (hp.symm.trans hsome) (by simp)
  · intro hnot
    obtain ⟨removed, hqueue, hleft⟩ := sendLoop_drains 0 ⟨errno, []⟩ hnot
    refine ⟨removed, hqueue, fun p rest heq ↦ ?_⟩
    rw [← Nat.zero_add removed.length]
    exact hleft p rest heq

/-- Four packets, the second one for a node with a rendavous. -/
def fourPackets : List RealPacket := [RealPacket.ofIdent ⟨1, 2⟩, packetBehind [1, 2, 3],
  RealPacket.ofIdent ⟨3, 4⟩, RealPacket.ofIdent ⟨5, 6⟩]

/-- The socket takes no more at the third packet. -/
theorem writePending_drains_two : ∃ env,
    OutQueue.writePending 0 (fun k ↦ if k = 2 then some EAGAIN else none) ⟨fourPackets, true⟩ EAGAIN =
      some (⟨fourPackets.drop 2, true⟩, env) ∧
    Drains 0 fourPackets (fourPackets.drop 2) env := by
  obtain ⟨env, hrun⟩ : ∃ env, OutQueue.writePending 0 (fun k ↦ if k = 2 then some EAGAIN else none)
      ⟨fourPackets, true⟩ EAGAIN = some (⟨fourPackets.drop 2, true⟩, env) := ⟨_, rfl⟩
  refine ⟨env, hrun, (writePending_drains_iff 0 _ ⟨fourPackets, true⟩
    ⟨fourPackets.drop 2, true⟩ EAGAIN env hrun).2 ?_⟩
  rintro ⟨-, before, p, rest, hqueue, hp, -⟩
  have hsent : ∀ q ∈ fourPackets, performSend 0 q ≠ none := by decide +kernel
  have hmem : p ∈ fourPackets := by
    rw [show fourPackets = before ++ p :: rest from hqueue]
    exact List.mem_append_right _ List.mem_cons_self
  exact hsent p hmem hp

/-- A packet of 1382 bytes for a node with a rendavous, and an old `EAGAIN`: `sendto` is not called,
and the packet stays in front of all others. -/
theorem writePending_stuck : ¬ ∀ (magic : UInt32) (sendto : ℕ → Option Int32)
    (out out' : OutQueue) (errno : Int32) (env : SendEnv),
      out.writePending magic sendto errno = some (out', env) →
        Drains magic out.outPacketList out'.outPacketList env := by
  intro h
  have hlen : (packetBehind (List.replicate 1382 0)).payload.length = 1382 :=
    List.length_replicate ..
  have hp : performSend 0 (packetBehind (List.replicate 1382 0)) = none := by
    rw [performSend_eq_none_iff (by rw [hlen]; decide), hlen]
    exact ⟨.inl (show (5 : UInt32) ≠ 0 by decide), by decide⟩
  generalize packetBehind (List.replicate 1382 0) = p at hp
  have hloop : sendLoop 0 (fun _ ↦ none) [p, RealPacket.ofIdent ⟨1, 2⟩] 0 ⟨EAGAIN, []⟩ =
      ([p, RealPacket.ofIdent ⟨1, 2⟩], ⟨EAGAIN, []⟩) := by
    rw [sendLoop, performSendCall_of_none hp]
    rfl
  have hrun : OutQueue.writePending 0 (fun _ ↦ none) ⟨[p, RealPacket.ofIdent ⟨1, 2⟩], true⟩ EAGAIN =
      some (⟨[p, RealPacket.ofIdent ⟨1, 2⟩], true⟩, ⟨EAGAIN, []⟩) := by
    rw [OutQueue.writePending, hloop]
    rfl
  obtain ⟨removed, -, hleft⟩ := h 0 _ _ _ _ _ hrun
  obtain ⟨packet, errno, hsome, -⟩ := hleft p _ rfl
  exact absurd (hp.symm.trans hsome) (by simp)

end Meridian

import Meridian.MQL.ValueCodec
import Meridian.Process.Dispatch

/-!
# Results of parsers that are NULL

Every result of a parser is checked before a member of it is read, but for one: the case `PUSH`
reads the address of the packet that `PushPacket::parse` returns at once. That parser fails after
the header has been accepted if the packet ends before the destination does, and if the packet
around its payload, whose header is longer by four bytes, is too large.

The handlers of queries are shown to give what those of `Query/` give, so they read no NULL pointer
either.
-/

namespace Meridian.Dispatch

open Lib BufferWrapper MQL MQL.Value

variable {D : Type} {magic : UInt32} {env : DispatchEnv D} {s : DispatchState D} {r : Received}
  {queryID : UInt64} {queryType : UInt8}

/-! ### Handlers that check -/

/-- The fault does not occur. -/
def Avoids {α : Type} (fault : Fault) (res : Except Fault α) : Prop := res ≠ .error fault

/-- No NULL pointer is read. -/
def NullFree {α : Type} (res : Except Fault α) : Prop := res ≠ .error .null

variable {fault : Fault}

theorem avoids_ok {α : Type} (a : α) : Avoids fault (.ok a) := nofun

theorem Avoids.bind {α β : Type} {res : Except Fault α} {f : α → Except Fault β}
    (h : Avoids fault res) (hf : ∀ a, Avoids fault (f a)) : Avoids fault (res >>= f) := by
  cases res with
  | error e => exact fun heq ↦ h (congrArg Except.error (Except.error.inj heq))
  | ok a => exact hf a

/-- A check for NULL, and then a read: the same as a look at what has been parsed. -/
theorem isNone_check {α β : Type} (p : Option α) (e : Except Fault β) (f : α → Except Fault β) :
    (if p.isNone then e else deref p >>= f) = p.elim e f := by
  cases p <;> rfl

theorem isSome_check {α β : Type} (p : Option α) (e : Except Fault β) (f : α → Except Fault β) :
    (if p.isSome then deref p >>= f else e) = p.elim e f := by
  cases p <;> rfl

theorem Avoids.elim {α β : Type} {p : Option α} {e : Except Fault β} {f : α → Except Fault β}
    (he : Avoids fault e) (hf : ∀ a, Avoids fault (f a)) : Avoids fault (p.elim e f) := by
  cases p with
  | none => exact he
  | some a => exact hf a

theorem Avoids.ite {α : Type} {c : Prop} [Decidable c] {res res' : Except Fault α}
    (h : Avoids fault res) (h' : Avoids fault res') : Avoids fault (if c then res else res') := by
  split
  · exact h
  · exact h'

/-! ### The handlers of queries -/

theorem reqProbeEvent_eq (inRemote : NodeIdent) (inPacket : List UInt8) (q : ReqProbeQuery) :
    reqProbeEvent magic inRemote inPacket q = .ok (q.handleEvent magic inRemote inPacket) := by
  rw [reqProbeEvent, ReqProbeQuery.handleEvent]
  split
  · rfl
  split
  · rfl
  dsimp only
  rw [isNone_check]
  cases BufferWrapper.parse (RetPing.parser magic) inPacket with
  | none => rfl
  | some ret =>
    show (if _ then _ else _) = Except.ok (if _ then _ else _)
    split <;> rfl

/-- The handler gives what `RingManageQuery.handleEvent` gives, if that ends. -/
theorem ringManageEvent_eq (env : NodeEnv) (inRemote : NodeIdent) (inPacket : List UInt8)
    (q : RingManageQuery) (rs : RingSet) :
    ringManageEvent env inRemote inPacket q rs =
      (q.handleEvent env.magic env.hyperVolume inRemote inPacket rs).elim (.error .assertion)
        fun res ↦ .ok (res.1, res.2.1) := by
  rw [ringManageEvent, RingManageQuery.handleEvent]
  split
  · rfl
  split
  · rfl
  split
  · rfl
  dsimp only
  rw [isNone_check]
  cases BufferWrapper.parse (RetPing.parser env.magic) inPacket with
  | none => rfl
  | some ret =>
    dsimp only [Option.elim]
    split
    · cases RingManageQuery.performReplacement _ _ _ <;> rfl
    · rfl

/-- A query of the rings fails only in an assertion on them. -/
theorem nodeEvent_avoids (hfault : fault ≠ .assertion) (env : NodeEnv) (inRemote : NodeIdent)
    (inPacket : List UInt8) (elapsedUS : UInt32) (rs : RingSet) (q : NodeQuery) :
    Avoids fault (nodeEvent env inRemote inPacket elapsedUS rs q) := by
  have hassertion {α : Type} : Avoids fault (.error .assertion : Except Fault α) :=
    fun h ↦ hfault (Except.error.inj h).symm
  cases q with
  | addNode q =>
    rw [nodeEvent]
    split
    · exact hassertion
    · exact avoids_ok _
  | reqProbe q =>
    rw [nodeEvent, reqProbeEvent_eq]
    exact avoids_ok _
  | ringManage q =>
    rw [nodeEvent, ringManageEvent_eq]
    refine Avoids.bind ?_ fun _ ↦ avoids_ok _
    exact Avoids.elim hassertion fun _ ↦ avoids_ok _
  | other finished => exact avoids_ok _

theorem ofAbort_nullFree {α : Type} (res : Except Abort α) : NullFree (ofAbort res) := by
  cases res with
  | error a => exact nofun
  | ok a => exact avoids_ok a

/-- The handler gives what the handler of the search gives. -/
theorem searchEvent_eq {τ : Type} (C : SearchClass τ) (inRemote : NodeIdent)
    (inPacket : List UInt8) (q : SearchQuery τ) :
    searchEvent magic C inRemote inPacket q =
      ofAbort (q.handleEvent magic C inRemote inPacket) := by
  rw [searchEvent, SearchQuery.handleEvent]
  by_cases hstate : q.stateMachine = .waitForFin
  · rw [if_pos hstate, if_pos hstate]
    cases parse (Packet.parseHeader magic) inPacket with
    | none => rfl
    | some header =>
      dsimp only
      split
      · cases sendResponse magic inRemote.direct _ <;> rfl
      split
      · split
        · rw [isNone_check]
          cases parse (RetResponse.parser magic inRemote) inPacket with
          | none => rfl
          | some resp =>
            dsimp only [Option.elim]
            cases sendResponse magic q.srcNode resp <;> rfl
        split
        · rw [isNone_check]
          cases parse (RetError.parser magic) inPacket <;> rfl
        split
        · rw [isNone_check]
          cases parse (RetInfo.parser magic inRemote) inPacket <;> rfl
        · rfl
      · rfl
  · rw [if_neg hstate, if_neg hstate]
    rfl

/-- The handler gives what `DSLRecvQuery.handleEvent` gives. -/
theorem dslRecvEvent_eq (xdr : XdrDouble D) (inPacket : List UInt8) (t : DSLRecvQuery D) :
    dslRecvEvent xdr magic inPacket t = .ok ((t.handleEvent xdr magic inPacket).getD t) := by
  rw [dslRecvEvent, DSLRecvQuery.handleEvent]
  dsimp only
  rw [isNone_check]
  cases DSLReplyPacket.parse xdr magic _ <;> rfl

theorem notifyQPacket_nullFree (env : DispatchEnv D) (s : DispatchState D) (r : Received)
    (depth : ℕ) : ∀ id, NullFree (notifyQPacket env s r depth id) := by
  induction depth with
  | zero => exact fun id ↦ nofun
  | succ depth ih =>
    intro id
    rw [notifyQPacket]
    split
    · exact avoids_ok _
    · exact (nodeEvent_avoids (show Fault.null ≠ .assertion by decide) _ _ _ _ _ _).bind
        fun _ ↦ avoids_ok _
    · rw [searchEvent_eq]
      exact Avoids.bind (ofAbort_nullFree _) fun _ ↦ avoids_ok _
    · rw [searchEvent_eq]
      exact Avoids.bind (ofAbort_nullFree _) fun _ ↦ avoids_ok _
    · exact Avoids.bind (ih _) fun _ ↦ avoids_ok _
    · rw [dslRecvEvent_eq]
      exact avoids_ok _

/-! ### The cases of the switch -/

theorem handleGossip_avoids (kind : GossipKind) : Avoids fault (handleGossip env r kind) := by
  rw [handleGossip]
  dsimp only
  rw [isSome_check]
  exact Avoids.elim (avoids_ok _) fun _ ↦ avoids_ok _

theorem handleMCPacket_avoids (hnotify : Avoids fault (notify env s r queryID))
    (kind : ReqConstraintKind) : Avoids fault (handleMCPacket env s r queryID kind) := by
  rw [handleMCPacket]
  split
  · exact hnotify
  · dsimp only
    rw [isSome_check]
    exact Avoids.elim (avoids_ok _) fun _ ↦ avoids_ok _

theorem handleClosestPacket_avoids (hnotify : Avoids fault (notify env s r queryID))
    (kind : ReqClosestKind) : Avoids fault (handleClosestPacket env s r queryID kind) := by
  rw [handleClosestPacket]
  split
  · exact hnotify
  · dsimp only
    rw [isSome_check]
    exact Avoids.elim (avoids_ok _) fun _ ↦ avoids_ok _

theorem handleMeasurePacket_avoids (kind : ReqMeasureKind) :
    Avoids fault (handleMeasurePacket env r kind) := by
  rw [handleMeasurePacket]
  rw [isSome_check]
  refine Avoids.elim (avoids_ok _) fun tmp ↦ ?_
  split <;> exact avoids_ok _

theorem handleDSLRequest_avoids : Avoids fault (handleDSLRequest env r) := by
  rw [handleDSLRequest]
  dsimp only
  rw [isNone_check]
  refine Avoids.elim (avoids_ok _) fun ((pkt, program), _) ↦ ?_
  exact .ite (avoids_ok _) (.ite (avoids_ok _) (avoids_ok _))

/-- What can go wrong with a packet goes wrong in a query that is told of it, or in the case
`PUSH`. -/
theorem dispatch_avoids (hpush : queryType = PUSH → Avoids fault (handlePush env s r))
    (hnotify : Avoids fault (notify env s r queryID)) :
    Avoids fault (dispatch env s r queryID queryType) := by
  rw [dispatch]
  by_cases htype : queryType = PUSH
  · rw [if_pos htype]
    exact hpush htype
  rw [if_neg htype]
  -- `PING`, `GOSSIP` and `GOSSIP_PULL`
  refine .ite (avoids_ok _) <| .ite (handleGossip_avoids _) <| .ite (handleGossip_avoids _) ?_
  -- the searches
  refine .ite (handleMCPacket_avoids hnotify _) <| .ite (handleMCPacket_avoids hnotify _) <|
    .ite (handleMCPacket_avoids hnotify _) <| .ite (handleMCPacket_avoids hnotify _) ?_
  refine .ite (handleClosestPacket_avoids hnotify _) <|
    .ite (handleClosestPacket_avoids hnotify _) <|
    .ite (handleClosestPacket_avoids hnotify _) <|
    .ite (handleClosestPacket_avoids hnotify _) ?_
  -- the replies to queries of the table
  refine .ite hnotify <| .ite hnotify <| .ite hnotify <| .ite hnotify ?_
  -- the measurements
  refine .ite (handleMeasurePacket_avoids _) <| .ite (handleMeasurePacket_avoids _) <|
    .ite (handleMeasurePacket_avoids _) <| .ite (handleMeasurePacket_avoids _) ?_
  exact .ite hnotify <| .ite hnotify <| .ite handleDSLRequest_avoids (avoids_ok _)

/-- A `PUSH` packet reads one if its parser returns it. -/
theorem handlePush_nullFree_iff : NullFree (handlePush env s r) ↔
    PushPacket.parse env.magic r.remoteNode r.buf ≠ none := by
  rw [handlePush]
  cases PushPacket.parse env.magic r.remoteNode r.buf with
  | none => exact iff_of_false (fun h ↦ h rfl) fun h ↦ h rfl
  | some p =>
    refine iff_of_true ?_ (Option.some_ne_none p)
    dsimp only [deref, bind, Except.bind]
    split
    · exact avoids_ok _
    split <;> exact avoids_ok _

/-! ### All packets -/

/-- A PUSH packet with a good header is handled like any other PUSH packet. -/
theorem handleNewPacket_push {id : UInt64}
    (hheader : parse (Packet.parseHeader env.magic) r.buf = some (PUSH, id)) :
    handleNewPacket env s r = handlePush env s r := by
  rw [handleNewPacket, hheader]
  show dispatch env s r id PUSH = _
  rw [dispatch, if_pos rfl]

/-- **The NULL pointer that a packet can have read.** A packet is handled without one being read,
unless it is a PUSH packet that ends before its destination does, or whose payload is too long to be
wrapped again. -/
theorem handleNewPacket_nullFree_iff (env : DispatchEnv D) (s : DispatchState D) (r : Received)
    (hlen : r.buf.length ≤ MAX_UDP_PACKET_SIZE.toNat) :
    NullFree (handleNewPacket env s r) ↔
      ¬ ∃ id, parse (Packet.parseHeader env.magic) r.buf = some (PUSH, id) ∧
        (r.buf.length < 19 ∨ 1396 < r.buf.length) := by
  by_cases hpush : ∃ id, parse (Packet.parseHeader env.magic) r.buf = some (PUSH, id)
  · obtain ⟨id, hheader⟩ := hpush
    rw [handleNewPacket_push hheader, handlePush_nullFree_iff, Ne,
      PushPacket.parse_eq_none_iff hheader hlen, not_iff_not]
    exact ⟨fun h ↦ ⟨id, hheader, h⟩, fun ⟨_, _, h⟩ ↦ h⟩
  · refine iff_of_true ?_ fun ⟨id, hheader, _⟩ ↦ hpush ⟨id, hheader⟩
    rw [handleNewPacket]
    split
    · exact avoids_ok _
    · rename_i queryType id hheader
      refine dispatch_avoids ?_ (notifyQPacket_nullFree env s r _ id)
      rintro rfl
      exact absurd ⟨id, hheader⟩ hpush

/-- A PUSH packet for a node that this one is not the rendavous of. -/
theorem handleNewPacket_nullFree_iff_unknown :
    NullFree (handleNewPacket
      ⟨⟨7, ⟨0, 0⟩, fun _ _ _ ↦ 1, fun _ ↦ 0⟩, bitsXdr, fun _ _ ↦ none, fun _ ↦ -1, 3⟩
      ⟨RingSet.new 1 1, ∅, ∅, ∅⟩
      ⟨[PUSH, 0, 0, 0, 0, 0, 0, 0, 1, 0, 0, 0, 7, 10, 0, 0, 1, 0, 80], ⟨1, 80⟩, 0, 0, []⟩) := by
  refine (handleNewPacket_nullFree_iff _ _ _ (by decide)).2 ?_
  rintro ⟨id, -, hlen⟩
  revert hlen
  decide

/-- A PUSH packet that is a header only. -/
theorem handleNewPacket_reads_null :
    ¬ ∀ (env : DispatchEnv UInt64) (s : DispatchState UInt64) (r : Received),
      r.buf.length ≤ MAX_UDP_PACKET_SIZE.toNat → NullFree (handleNewPacket env s r) := by
  intro h
  have hfree := h ⟨⟨7, ⟨0, 0⟩, fun _ _ _ ↦ 1, fun _ ↦ 0⟩, bitsXdr, fun _ _ ↦ none, fun _ ↦ -1, 3⟩
    ⟨RingSet.new 1 1, ∅, ∅, ∅⟩ ⟨[PUSH, 0, 0, 0, 0, 0, 0, 0, 1, 0, 0, 0, 7], ⟨1, 80⟩, 0, 0, []⟩
    (by decide)
  rw [handleNewPacket_push (show _ = some (PUSH, 1) by decide +kernel),
    handlePush_nullFree_iff] at hfree
  exact hfree (by decide +kernel)

end Meridian.Dispatch

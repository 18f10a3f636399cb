import Meridian.Query.SearchInvariant

/-!
# The answers to a search request

How often a search query answers. A terminal answer is a `RetResponse` or a `RetError` with the id of
the query, to the node that the request came from.

The call that sends one finishes the query, with one exception: a packet of the query's own request
type that arrives in `waitForFin` is taken for the request having gone in a loop, and its sender is
answered while the query goes on. If the sender is the node that the request came from, because the
network has duplicated it, this is a first terminal answer, and another follows. Where that does not
happen there is at most one (`search_run_answers_once`).
-/

namespace Meridian

open Lib BufferWrapper

/-- A terminal answer to the request `qid` of `srcNode`. -/
def isTerminal (magic : UInt32) (qid : UInt64) (srcNode : NodeIdent) : Output → Bool
  | .packet p =>
    match parse (Packet.parseHeader magic) p.payload with
    | none => false
    | some (type, id) =>
      p.dest.ident == srcNode && id == qid && (type == RET_RESPONSE || type == RET_ERROR)
  | _ => false

namespace SearchQuery

variable {τ : Type} {magic : UInt32} {C : SearchClass τ} {q : SearchQuery τ} {e : SearchEvent}
  {id : UInt64} {srcNode : NodeIdent}

/-- The request itself arrives, once more, from the node it came from, and the query has been
forwarded. -/
def Duplicated (magic : UInt32) (C : SearchClass τ) (q : SearchQuery τ) (e : SearchEvent) : Prop :=
  q.stateMachine = .waitForFin ∧ ∃ inPacket, e = .handleEvent q.srcNode.ident inPacket ∧
    (parse (Packet.parseHeader magic) inPacket).map Prod.fst = some C.queryType

/-! ### What one call answers -/

theorem isTerminal_of_silent {o : Output} (h : Silent magic o) :
    isTerminal magic id srcNode o = false := by
  cases o with
  | packet p =>
    obtain ⟨type, id', hparse, hresponse, herror⟩ := h
    simp only [isTerminal, hparse]
    simp [hresponse, herror]
  | probe n => rfl
  | reqProbe member => rfl
  | error err => rfl

theorem countP_silent {outs : List Output} (h : ∀ o ∈ outs, Silent magic o) :
    outs.countP (isTerminal magic id srcNode) = 0 := by
  rw [List.countP_eq_zero]
  intro o ho
  rw [isTerminal_of_silent (h o ho)]
  exact Bool.false_ne_true

theorem countP_sendPacket (created : Int × RealPacket) :
    (sendPacket created).countP (isTerminal magic id srcNode) ≤ 1 := by
  refine List.countP_le_length.trans ?_
  rw [sendPacket]
  split
  · exact Nat.zero_le 1
  · exact Nat.le_refl 1

/-- A packet to another node is no answer to this one. -/
theorem isTerminal_of_dest_ne {p : RealPacket} (h : p.dest.ident ≠ srcNode) :
    isTerminal magic id srcNode (.packet p) = false := by
  rw [isTerminal]
  split
  · rfl
  · simp [h]

/-- The answer of the loop detection goes to the sender of the packet. -/
theorem countP_looped {inRemote : NodeIdent} {resp : RetResponse} {created : Int × RealPacket}
    (hcreated : resp.createRealPacket magic
      (RealPacket.new inRemote.direct MAX_UDP_PACKET_SIZE) = some created)
    (hne : inRemote ≠ srcNode) :
    (sendPacket created).countP (isTerminal magic id srcNode) = 0 := by
  have hlen : resp.targets.length < 2 ^ 32 := by
    refine Nat.lt_of_not_le fun hle ↦ ?_
    rw [RetResponse.createRealPacket, if_pos hle] at hcreated
    exact absurd hcreated (by simp)
  obtain ⟨res, hres, hwritten⟩ : ∃ res, resp.createRealPacket magic
      (RealPacket.new inRemote.direct MAX_UDP_PACKET_SIZE) = some res ∧
        Written MAX_UDP_PACKET_SIZE inRemote.direct (resp.encode magic) res :=
    resp.createRealPacket_written (by decide) hlen
  obtain rfl : res = created := Option.some.inj (hres.symm.trans hcreated)
  rw [List.countP_eq_zero]
  intro o ho
  rw [(mem_sendPacket ho).2, isTerminal_of_dest_ne]
  · exact Bool.false_ne_true
  · rw [hwritten.dest_eq]
    exact hne

/-- **One call answers at most once**, and if it answers at all the query is finished. -/
theorem Handled.answers {q' : SearchQuery τ} {outs : List Output}
    (h : Handled magic C q e (.ok (q', outs))) (hdup : ¬ Duplicated magic C q e) :
    outs.countP (isTerminal magic id q.srcNode.ident) = 0 ∨
      (q'.finished = true ∧ outs.countP (isTerminal magic id q.srcNode.ident) ≤ 1) := by
  cases h with
  | pending _ _ _ _ hpre => exact Or.inl (countP_silent hpre)
  | abandoned => exact Or.inl rfl
  | failed _ _ _ _ _ _ hpre => exact Or.inl (countP_silent hpre)
  | dropped _ _ _ _ _ _ hpre => exact Or.inl (countP_silent hpre)
  | answered _ pre _ created _ _ _ _ hfin hpre =>
    refine Or.inr ⟨hfin, ?_⟩
    rw [List.countP_append, countP_silent hpre, Nat.zero_add]
    exact countP_sendPacket created
  | timedOut => exact Or.inr ⟨rfl, countP_sendPacket _⟩
  | relayed => exact Or.inr ⟨rfl, countP_sendPacket _⟩
  | looped hstate inRemote inPacket he htype resp created _ hcreated =>
    refine Or.inl (countP_looped hcreated fun heq ↦ hdup ⟨hstate, inPacket, ?_, htype⟩)
    rw [he, heq]

/-! ### Whole runs -/

/-- What holds of a query for the request `id` of `src`, and of what it has done: it has not answered,
or it is finished and has answered once. -/
structure AnswersOnce (magic : UInt32) (C : SearchClass τ) (id : UInt64) (src : NodeIdentRendv)
    (s : SearchQuery τ × List Output) : Prop where
  inv : s.1.Inv C
  srcNode : s.1.srcNode = src
  answers : s.2.countP (isTerminal magic id src.ident) = 0 ∨
    (s.1.finished = true ∧ s.2.countP (isTerminal magic id src.ident) ≤ 1)

theorem answersOnce_step (hC : C.Lawful magic) {src : NodeIdentRendv}
    {s s' : SearchQuery τ × List Output} (hs : AnswersOnce magic C id src s)
    (hdup : ¬ Duplicated magic C s.1 e) (h : step magic C s e = some s') :
    AnswersOnce magic C id src s' := by
  obtain ⟨hfin, outs, hhandle, houts⟩ := step_eq_some h
  have hhandled := handle_handled e hC hs.inv
  rw [hhandle] at hhandled
  have hkept := hhandled.inv_quiet.1
  -- the query was not finished, so it had not answered
  have hzero : s.2.countP (isTerminal magic id src.ident) = 0 :=
    hs.answers.resolve_right fun hdone ↦ absurd hdone.1 (by simp [hfin])
  refine ⟨hkept.inv, hkept.srcNode.trans hs.srcNode, ?_⟩
  have hanswers : outs.countP (isTerminal magic id s.1.srcNode.ident) = 0 ∨ _ :=
    hhandled.answers hdup
  rw [hs.srcNode] at hanswers
  rw [houts, List.countP_append, hzero, Nat.zero_add]
  exact hanswers

theorem answersOnce_run (hC : C.Lawful magic) (id : UInt64) (betaNumer betaDenom : UInt16)
    (src : NodeIdentRendv) (inRemote : List (NodeIdent × τ)) {events : List SearchEvent}
    {s : SearchQuery τ × List Output}
    (hdup : AllSteps (fun s e ↦ ¬ Duplicated magic C s.1 e) (step magic C)
      (SearchQuery.new id betaNumer betaDenom src inRemote, []) events)
    (h : run (step magic C) (SearchQuery.new id betaNumer betaDenom src inRemote, []) events =
      some s) :
    s.2.countP (isTerminal magic id src.ident) ≤ 1 := by
  have hnew : AnswersOnce magic C id src
      (SearchQuery.new id betaNumer betaDenom src inRemote, []) :=
    ⟨inv_new C id betaNumer betaDenom src inRemote, rfl, Or.inl rfl⟩
  have hend : AnswersOnce magic C id src s :=
    run_invariant (fun s e s' hs hstep ↦ answersOnce_step hC hs hstep) hnew hdup h
  rcases hend.answers with hzero | hdone
  · rw [hzero]
    exact Nat.zero_le 1
  · exact hdone.2

end SearchQuery

/-- **At most one terminal answer.** In a run of a `HandleClosestGeneric` or `HandleMCGeneric` query
in which no duplicate of the request arrives from its sender while the query waits for the answer of
the node it has been forwarded to, at most one terminal answer is sent. -/
theorem search_run_answers_once (magic : UInt32) (id : UInt64) (betaNumer betaDenom : UInt16)
    (srcNode : NodeIdentRendv) (events : List SearchEvent) :
    (∀ (kind : ReqClosestKind) (inRemote : List NodeIdent) (s : SearchQuery Unit × List Output),
      AllSteps (fun s e ↦ ¬ SearchQuery.Duplicated magic (handleClosest magic kind) s.1 e)
        (SearchQuery.step magic (handleClosest magic kind))
        (newClosest id betaNumer betaDenom srcNode inRemote, []) events →
      run (SearchQuery.step magic (handleClosest magic kind))
        (newClosest id betaNumer betaDenom srcNode inRemote, []) events = some s →
      s.2.countP (isTerminal magic id srcNode.ident) ≤ 1) ∧
    (∀ (kind : ReqConstraintKind) (inRemote : List NodeIdentConst)
        (s : SearchQuery UInt32 × List Output),
      AllSteps (fun s e ↦ ¬ SearchQuery.Duplicated magic (handleMC magic kind) s.1 e)
        (SearchQuery.step magic (handleMC magic kind))
        (newMC id betaNumer betaDenom srcNode inRemote, []) events →
      run (SearchQuery.step magic (handleMC magic kind))
        (newMC id betaNumer betaDenom srcNode inRemote, []) events = some s →
      s.2.countP (isTerminal magic id srcNode.ident) ≤ 1) :=
  ⟨fun kind _ _ hdup h ↦ SearchQuery.answersOnce_run (handleClosest_lawful magic kind) _ _ _ _ _
      hdup h,
    fun kind _ _ hdup h ↦ SearchQuery.answersOnce_run (handleMC_lawful magic kind) _ _ _ _ _
      hdup h⟩

/-- The calls up to the forwarding of a request: a target at 1 ms, and a ring member at 1 ms that has
it at 0.1 ms. -/
def forwarding : List SearchEvent :=
  [.init (oneRing ⟨3, 300⟩ 1000), .handleLatency (oneRing ⟨3, 300⟩ 1000) [⟨1, 80, 1000⟩],
    .handleLatency (oneRing ⟨3, 300⟩ 1000) [⟨3, 300, 0⟩, ⟨1, 80, 100⟩]]

/-- The answer of the ring member. -/
def memberAnswer : List UInt8 :=
  (RetResponse.new 5 0 0 ((∅ : NodeMap UInt32).insert ⟨1, 80⟩ 100)).encode 7

/-- The answer of the ring member is passed on, and that is the only one. -/
theorem search_run_answers_once_relayed :
    ∃ s, run (SearchQuery.step 7 (handleClosest 7 .tcp))
        (newClosest 5 1 2 ⟨9, 900, 0, 0⟩ [⟨1, 80⟩], [])
        (forwarding ++ [.handleEvent ⟨3, 300⟩ memberAnswer]) = some s ∧
      s.2.countP (isTerminal 7 5 ⟨9, 900⟩) = 1 ∧
      s.2.countP (isTerminal 7 5 ⟨9, 900⟩) ≤ 1 := by
  have hcount : (run (SearchQuery.step 7 (handleClosest 7 .tcp))
      (newClosest 5 1 2 ⟨9, 900, 0, 0⟩ [⟨1, 80⟩], [])
      (forwarding ++ [.handleEvent ⟨3, 300⟩ memberAnswer])).map
      (fun s ↦ s.2.countP (isTerminal 7 5 ⟨9, 900⟩)) = some 1 := by
    decide +kernel
  obtain ⟨s, hs, hone⟩ := Option.map_eq_some_iff.1 hcount
  refine ⟨s, hs, hone, (search_run_answers_once 7 5 1 2 ⟨9, 900, 0, 0⟩ _).1 .tcp [⟨1, 80⟩] s
    (AllSteps.of_inputs (fun e he s hdup ↦ ?_) _) hs⟩
  -- none of the packets is a request
  obtain ⟨-, inPacket, rfl, htype⟩ := hdup
  simp only [forwarding, List.mem_append, List.mem_cons, List.not_mem_nil, or_false, reduceCtorEq,
    false_or, SearchEvent.handleEvent.injEq] at he
  rw [he.2] at htype
  exact absurd htype (by decide +kernel)

/-- The request arrives twice, and the ring member does not answer in time: the first terminal answer
is that of the loop detection, the second reports the timeout. -/
theorem search_answers_twice :
    ∃ s, run (SearchQuery.step 7 (handleClosest 7 .tcp))
        (newClosest 5 1 2 ⟨9, 900, 0, 0⟩ [⟨1, 80⟩], [])
        (forwarding ++ [.handleEvent ⟨9, 900⟩
            (ReqClosestGeneric.createRealPacket 7 ⟨⟨Packet.new 5, 0, 0⟩, .tcp, 1, 2, [⟨1, 80⟩]⟩
              (RealPacket.new ⟨8, 800, 0, 0⟩ MAX_UDP_PACKET_SIZE)).2.payload,
          .handleTimeout (oneRing ⟨3, 300⟩ 1000)]) = some s ∧
      s.2.countP (isTerminal 7 5 ⟨9, 900⟩) = 2 :=
  Option.map_eq_some_iff.1 (by decide +kernel)

end Meridian

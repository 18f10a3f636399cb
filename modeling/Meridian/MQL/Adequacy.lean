import Meridian.MQL.Recursion
import Meridian.MQL.ScopeBalance
import Meridian.MQL.StatementOrder

/-!
# The machine and the recursion

The machine of `MQL/Eval.lean`, about which the invariants of the interpreter are proved, has exactly the
outcomes of `eval` as the source writes it: the same results in the same states, and the same faults.
-/

namespace Meridian.MQL

open Lib Recursion
open CallStack (goesOn_iff finishes_call finishes_resume finishes_zero finishes_ret_nil)
open CallStack.Recursive (ends)

variable {D : Type} [CDouble D]

namespace Machine

/-- Some run of the machine ends so: it is over with a value, or a step fails. -/
def Stops (m : Machine D) : Except Fault (Ptr × ParserState D) → Prop
  | .ok (node, s) => ∃ hosts, run step? m hosts = some ⟨.ret node, [], s⟩
  | .error e => ∃ hosts m' host, run step? m hosts = some m' ∧ ¬ m'.Returned [] ∧ m'.step host = .error e

variable {m m' : Machine D} {host : Host D} {n : ℕ} {o : Except Fault (Ptr × ParserState D)} {e : Fault}

/-- The machine ends after `n` steps. -/
abbrev Finishes (m : Machine D) (n : ℕ) (o : Except Fault (Ptr × ParserState D)) : Prop :=
  evalStack.Finishes n m.ctrl m.stack m.ps o

theorem goesOn_map {i : Interp D Interp.Next} {frames : List Frame} {s : ParserState D} :
    evalStack.GoesOn n i frames s o ↔
      (∃ m', (i s).map (next frames) = .ok m' ∧ m'.Finishes n o) ∨
        ∃ e, (i s).map (next frames) = .error e ∧ o = .error e := by
  rw [goesOn_iff]
  cases i s with
  | error e => simp [Except.map]
  | ok r =>
    refine or_congr ⟨?_, ?_⟩ (by simp [Except.map])
    · rintro ⟨c, s', hr, hfin⟩
      cases hr
      exact ⟨_, rfl, hfin⟩
    · rintro ⟨m', hm', hfin⟩
      cases hm'
      exact ⟨r.1, r.2, rfl, hfin⟩

theorem finishes_succ : m.Finishes (n + 1) o ↔ ¬ m.Returned [] ∧ ∃ host,
    (∃ m', m.step host = .ok m' ∧ m'.Finishes n o) ∨ ∃ e, m.step host = .error e ∧ o = .error e := by
  obtain ⟨ctrl, stack, ps⟩ := m
  cases ctrl with
  | eval curNode rc =>
    have hret : ¬ (⟨.eval curNode rc, stack, ps⟩ : Machine D).Returned [] := by
      rintro ⟨⟨q, hq⟩, -⟩
      cases hq
    exact ((finishes_call rfl).trans (exists_congr fun host ↦ goesOn_map)).trans
      (and_iff_right hret).symm
  | evalPtr q actualParam rc =>
    have hret : ¬ (⟨.evalPtr q actualParam rc, stack, ps⟩ : Machine D).Returned [] := by
      rintro ⟨⟨q, hq⟩, -⟩
      cases hq
    exact ((finishes_call rfl).trans (exists_congr fun host ↦ goesOn_map)).trans
      (and_iff_right hret).symm
  | ret q =>
    cases stack with
    | nil => exact iff_of_false (finishes_ret_nil rfl) fun h ↦ h.1 ⟨⟨q, rfl⟩, rfl⟩
    | cons frame stack =>
      have hret : ¬ (⟨.ret q, frame :: stack, ps⟩ : Machine D).Returned [] := fun h ↦
        List.cons_ne_nil _ _ h.2
      exact ((finishes_resume rfl).trans (exists_congr fun host ↦ goesOn_map)).trans
        (and_iff_right hret).symm

theorem Stops.step (hstep : m.step host = .ok m') (h : m'.Stops o) : m.Stops o := by
  have hstep : m.step? host = some m' := by rw [step?, hstep]
  cases o with
  | ok r =>
    obtain ⟨hosts, hrun⟩ := h
    exact ⟨host :: hosts, run_cons_eq_some.2 ⟨m', hstep, hrun⟩⟩
  | error e =>
    obtain ⟨hosts, m₁, host₁, hrun, hlast⟩ := h
    exact ⟨host :: hosts, m₁, host₁, run_cons_eq_some.2 ⟨m', hstep, hrun⟩, hlast⟩

/-- What the machine does after some steps it does after some more. -/
theorem finishes_of_run {hosts : List (Host D)} (hrun : run step? m hosts = some m')
    (h : ∃ n, m'.Finishes n o) : ∃ n, m.Finishes n o := by
  induction hosts generalizing m with
  | nil =>
    obtain rfl := Option.some.inj hrun
    exact h
  | cons host hosts ih =>
    obtain ⟨m₁, hstep, hrun⟩ := run_cons_eq_some.1 hrun
    have hstep := step?_eq_some hstep
    obtain ⟨n, hn⟩ := ih hrun
    refine ⟨n + 1, finishes_succ.2 ⟨?_, host, .inl ⟨m₁, hstep, hn⟩⟩⟩
    -- What is over does not take a step.
    rintro ⟨⟨q, hctrl⟩, hstack⟩
    rw [Machine.step, hctrl, hstack] at hstep
    cases hstep

theorem stops_iff : m.Stops o ↔ ∃ n, m.Finishes n o := by
  constructor
  · intro h
    cases o with
    | ok r =>
      obtain ⟨hosts, hrun⟩ := h
      exact finishes_of_run hrun ⟨0, rfl, r.1, rfl, rfl⟩
    | error e =>
      obtain ⟨hosts, m', host, hrun, hret, hstep⟩ := h
      exact finishes_of_run hrun ⟨1, finishes_succ.2 ⟨hret, host, .inr ⟨e, hstep, rfl⟩⟩⟩
  · rintro ⟨n, h⟩
    induction n generalizing m with
    | zero =>
      obtain ⟨hstack, q, hctrl, rfl⟩ := h
      obtain ⟨ctrl, stack, ps⟩ := m
      obtain rfl : stack = [] := hstack
      cases ctrl with
      | ret q' =>
        obtain rfl : q' = q := Option.some.inj hctrl
        exact ⟨[], rfl⟩
      | eval _ _ => cases hctrl
      | evalPtr _ _ _ => cases hctrl
    | succ n ih =>
      obtain ⟨hret, host, ⟨m', hstep, hm'⟩ | ⟨e, hstep, rfl⟩⟩ := finishes_succ.1 h
      · exact (ih hm').step hstep
      · exact ⟨[], m, host, rfl, hret, hstep⟩

end Machine

/-! ### Adequacy -/

/-- The evaluation of a node of the program text, in any state: with enough fuel the recursion has the
outcomes of the machine. -/
theorem eval_adequate (curNode : Ast) (rc : ℕ) (s : ParserState D)
    (o : Except Fault (Ptr × ParserState D)) :
    (∃ fuel hosts hosts', Recursion.eval fuel curNode rc (hosts, s) = ends hosts' o) ↔
      Machine.Stops ⟨.eval curNode rc, [], s⟩ o := by
  have hnonempty : Nonempty (Host D) := ⟨bareHost D⟩
  rw [Machine.stops_iff, CallStack.codes_iff fun n ↦ (calls n).ofNode curNode rc]
  constructor
  · rintro ⟨host, n, hgo⟩
    exact ⟨n + 1, (finishes_call rfl).2 ⟨host, hgo⟩⟩
  · rintro ⟨n, hfin⟩
    cases n with
    | zero => exact absurd hfin (CallStack.finishes_zero_call rfl)
    | succ n =>
      obtain ⟨host, hgo⟩ := (finishes_call rfl).1 hfin
      exact ⟨host, n, hgo⟩

/-- **`jmp_eval` is the machine.** For every program, function and parameter the recursion of the source
has exactly the outcomes of the runs that start with the program. -/
theorem jmp_eval_adequate (program : Program D) (funcString : Str) (param : Value D)
    (o : Except Fault (Ptr × ParserState D)) :
    (∃ fuel hosts hosts', jmpEval fuel program funcString param (hosts, .new) = ends hosts' o) ↔
      (∃ m, Machine.start program funcString param = .ok m ∧ m.Stops o) ∨
        ∃ e, Machine.start program funcString param = .error e ∧ o = .error e := by
  have hnonempty : Nonempty (Host D) := ⟨bareHost D⟩
  rw [CallStack.codes_iff fun n ↦ (codes_jmpEval n program funcString param).mono n.le_succ]
  simp only [Machine.stops_iff]
  constructor
  · rintro ⟨host, n, hgo⟩
    obtain ⟨m, hm, hfin⟩ | he := Machine.goesOn_map.1 hgo
    · exact .inl ⟨m, hm, n, hfin⟩
    · exact .inr he
  · rintro (⟨m, hm, n, hfin⟩ | he)
    · exact ⟨bareHost D, n, Machine.goesOn_map.2 (.inl ⟨m, hm, hfin⟩)⟩
    · exact ⟨bareHost D, 0, Machine.goesOn_map.2 (.inr he)⟩

end Meridian.MQL

import Mathlib.Data.List.Infix
import Mathlib.Data.List.Flatten

/-!
# Frames in a byte stream

A sender puts messages one after another on a byte stream, each as `enc f`. The receiver keeps the
bytes it has not understood yet in a buffer, and gets the stream in chunks that know nothing of the
frames. `next` takes one frame off the front of a buffer, if there is a whole one.

* `offset enc fs k` is where frame `k` begins; `arrived enc fs n` is how many frames lie within the
  first `n` bytes. `le_arrived` ties the two together.
* `Behind enc fs n k buf` says what a receiver has in its buffer that got `n` bytes and took `k`
  frames off them. `Behind.next_of_lt` and `Behind.next_of_eq` say what `next` does there: it takes
  the next frame if that has arrived, and nothing if the receiver has caught up.
-/

namespace Meridian.Lib

variable {α β : Type*} {enc : α → List UInt8} {val : α → β} {fs : List α} {n k : ℕ} {buf : List UInt8}

/-- From a buffer of at most `cap` bytes `next` takes exactly one frame off the front, as what the
receiver makes of it, and it leaves a buffer alone that has no whole frame. -/
structure Unframes (enc : α → List UInt8) (val : α → β) (cap : ℕ)
    (next : List UInt8 → Option (β × List UInt8)) : Prop where
  whole : ∀ f rest, (enc f ++ rest).length ≤ cap → next (enc f ++ rest) = some (val f, rest)
  short : ∀ f l, (enc f).length ≤ cap → l <+: enc f → l ≠ enc f → next l = none
  empty : next [] = none

/-- Where frame `k` of the stream begins. -/
def offset (enc : α → List UInt8) (fs : List α) (k : ℕ) : ℕ := ((fs.take k).flatMap enc).length

/-- How many frames lie within the first `n` bytes of the stream. -/
def arrived (enc : α → List UInt8) : List α → ℕ → ℕ
  | [], _ => 0
  | f :: fs, n => if (enc f).length ≤ n then arrived enc fs (n - (enc f).length) + 1 else 0

@[simp] theorem offset_zero : offset enc fs 0 = 0 := by simp [offset]

theorem offset_cons_succ (f : α) : offset enc (f :: fs) (k + 1) =
    (enc f).length + offset enc fs k := by
  simp [offset]

theorem offset_succ (hk : k < fs.length) :
    offset enc fs (k + 1) = offset enc fs k + (enc fs[k]).length := by
  rw [offset, offset, List.take_add_one, List.getElem?_eq_getElem hk, List.flatMap_append,
    List.length_append]
  simp

/-- The bytes from where a frame begins: that frame and the ones after it. -/
theorem drop_offset (enc : α → List UInt8) (fs : List α) (k : ℕ) :
    (fs.flatMap enc).drop (offset enc fs k) = (fs.drop k).flatMap enc := by
  conv_lhs => rw [← List.take_append_drop k fs, List.flatMap_append]
  exact List.drop_left' (by rw [offset, List.take_append_drop])

theorem drop_offset_of_lt (hk : k < fs.length) :
    (fs.flatMap enc).drop (offset enc fs k) = enc fs[k] ++ (fs.drop (k + 1)).flatMap enc := by
  rw [drop_offset, List.drop_eq_getElem_cons hk, List.flatMap_cons]

/-- **A frame has arrived when the stream has got to where the next one begins.** -/
theorem le_arrived : k ≤ arrived enc fs n ↔ k ≤ fs.length ∧ offset enc fs k ≤ n := by
  induction fs generalizing k n with
  | nil => simp [arrived, offset]
  | cons f fs ih =>
    cases k with
    | zero => simp
    | succ k =>
      rw [arrived, offset_cons_succ]
      split
      · rw [Nat.add_le_add_iff_right, ih, List.length_cons, Nat.add_le_add_iff_right]
        omega
      · constructor
        · omega
        · omega

theorem arrived_le_length : arrived enc fs n ≤ fs.length := (le_arrived.1 (Nat.le_refl _)).1

theorem arrived_mono {m : ℕ} (h : n ≤ m) : arrived enc fs n ≤ arrived enc fs m := by
  obtain ⟨hlen, hoff⟩ := le_arrived.1 (Nat.le_refl (arrived enc fs n))
  exact le_arrived.2 ⟨hlen, hoff.trans h⟩

@[simp] theorem arrived_zero_eq (h : ∀ f ∈ fs, enc f ≠ []) : arrived enc fs 0 = 0 := by
  cases fs with
  | nil => rfl
  | cons f fs =>
    have hpos := List.length_pos_iff.2 (h f (List.mem_cons_self ..))
    rw [arrived, if_neg (by omega)]

/-- What is in the buffer of a receiver that has got `n` bytes and taken `k` frames off them. -/
structure Behind (enc : α → List UInt8) (fs : List α) (n k : ℕ) (buf : List UInt8) : Prop where
  le : k ≤ arrived enc fs n
  buf_eq : buf = ((fs.flatMap enc).take n).drop (offset enc fs k)

namespace Behind

theorem start : Behind enc fs 0 0 [] := ⟨Nat.zero_le _, by simp⟩

/-- A chunk goes to the end of the buffer. -/
theorem chunk {c rest : List UInt8} (h : Behind enc fs n k buf)
    (hc : (fs.flatMap enc).drop n = c ++ rest) (hn : n ≤ (fs.flatMap enc).length) :
    Behind enc fs (n + c.length) k (buf ++ c) := by
  obtain ⟨hlen, hoff⟩ := le_arrived.1 h.le
  refine ⟨h.le.trans (arrived_mono (Nat.le_add_right ..)), ?_⟩
  have htake : (fs.flatMap enc).take (n + c.length) = (fs.flatMap enc).take n ++ c := by
    rw [List.take_add, hc, List.take_left']
    rfl
  rw [htake, List.drop_append_of_le_length (by rw [List.length_take]; omega), h.buf_eq]

variable {next : List UInt8 → Option (β × List UInt8)} {cap : ℕ}

/-- **The next frame is taken if it has arrived.** -/
theorem next_of_lt (hnext : Unframes enc val cap next) (h : Behind enc fs n k buf)
    (hlt : k < arrived enc fs n) (hcap : buf.length ≤ cap) :
    ∃ hk : k < fs.length, ∃ rest, buf = enc fs[k] ++ rest ∧ next buf = some (val fs[k], rest) ∧
      Behind enc fs n (k + 1) rest := by
  obtain ⟨hlen, hoff⟩ := le_arrived.1 (show k + 1 ≤ arrived enc fs n from hlt)
  have hk : k < fs.length := hlen
  have hsucc : offset enc fs (k + 1) = offset enc fs k + (enc fs[k]).length := offset_succ hk
  have hbuf : buf = enc fs[k] ++ ((fs.flatMap enc).take n).drop (offset enc fs (k + 1)) := by
    rw [h.buf_eq, List.drop_take, List.drop_take, drop_offset_of_lt hk, drop_offset,
      List.take_append, List.take_of_length_le (by omega), hsucc, Nat.sub_sub]
  refine ⟨hk, _, hbuf, ?_, hlt, rfl⟩
  rw [hbuf] at hcap ⊢
  exact hnext.whole _ _ hcap

/-- **Nothing is taken by a receiver that has caught up.** -/
theorem next_of_eq (hnext : Unframes enc val cap next) (h : Behind enc fs n k buf)
    (heq : k = arrived enc fs n) (hcap : ∀ f ∈ fs, (enc f).length ≤ cap) : next buf = none := by
  rcases Nat.lt_or_ge k fs.length with hk | hk
  · have hsucc : offset enc fs (k + 1) = offset enc fs k + (enc fs[k]).length := offset_succ hk
    have hlt : n < offset enc fs (k + 1) := by
      refine Nat.lt_of_not_le fun hle ↦ ?_
      have hle' : k + 1 ≤ arrived enc fs n := le_arrived.2 ⟨hk, hle⟩
      omega
    have hbuf : buf = (enc fs[k]).take (n - offset enc fs k) := by
      rw [h.buf_eq, List.drop_take, drop_offset_of_lt hk,
        List.take_append_of_le_length (by omega)]
    refine hnext.short fs[k] buf (hcap _ (List.getElem_mem hk)) (hbuf ▸ List.take_prefix ..) ?_
    intro hfull
    have hlen := congrArg List.length (hbuf.symm.trans hfull)
    obtain ⟨-, hoff⟩ := le_arrived.1 h.le
    rw [List.length_take] at hlen
    omega
  · have hnil : buf = [] := by
      rw [h.buf_eq, List.drop_eq_nil_iff, offset, List.take_of_length_le hk]
      exact List.length_take_le' ..
    rw [hnil, hnext.empty]

end Behind

end Meridian.Lib

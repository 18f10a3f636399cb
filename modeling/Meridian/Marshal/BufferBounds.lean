import Meridian.Lib.Run
import Meridian.Marshal.Buffer

/-!
# The bounds of a `BufferWrapper`

Any sequence of calls of the `retrieve_…` members, with any sizes. The bound check adds the size to
`counter` as 32-bit `int`s: a size that carries the sum past `INT_MAX` passes it, and `counter` is
negative from then on. `retrieve_in_bounds_iff` says that nothing else goes wrong.
-/

namespace Meridian

namespace BufferWrapper

/-- A call of one of the `retrieve_…` members. -/
inductive Retrieve where
  | char
  | ushort
  | uint
  | int
  | buf (inBufSize : UInt32)

/-- What a call returns. -/
inductive Retrieved where
  | char (c : UInt8)
  | ushort (x : UInt16)
  | uint (x : UInt32)
  | int (x : Int32)
  | buf (bs : Option (List UInt8))

namespace Retrieve

/-- The call. -/
def call : Retrieve → Lib.Parser BufferWrapper Retrieved
  | char => do return .char (← retrieveChar)
  | ushort => do return .ushort (← retrieveUshort)
  | uint => do return .uint (← retrieveUint)
  | int => do return .int (← retrieveInt)
  | buf inBufSize => do return .buf (← retrieveBuf (toInt inBufSize))

/-- The state after a call. -/
def step (bw : BufferWrapper) (c : Retrieve) : Option BufferWrapper := (c.call bw).map Prod.snd

/-- How many bytes are asked for, as an `int`. -/
def size : Retrieve → Int
  | char => 1
  | ushort => 2
  | uint => 4
  | int => 4
  | buf inBufSize => toInt inBufSize

/-- The value of a range of bytes. -/
def value : Retrieve → List UInt8 → Retrieved
  | char, bs => .char (bs.headD 0)
  | ushort, bs => .ushort (ofLe16 bs)
  | uint, bs => .uint (ofLe32 bs)
  | int, bs => .int (ofLe32 bs).toInt32
  | buf _, bs => .buf (some bs)

/-- What a failed call returns. -/
def failure : Retrieve → Retrieved
  | char => .char 0
  | ushort => .ushort 0
  | uint => .uint 0
  | int => .int 0
  | buf _ => .buf none

end Retrieve

/-- The bytes of the buffer between two values of `counter`. -/
def slice (buf : List UInt8) (i j : Int) : List UInt8 := (buf.drop i.toNat).take (j - i).toNat

/-- A call in the state `bw` stays inside the buffer: `counter` does. If the call succeeds, it has
returned the bytes from the old `counter` to the new one, as many as were asked for. If it fails,
`counter` stays, and a call after a failure fails. -/
structure InBounds (bw : BufferWrapper) (c : Retrieve) (v : Retrieved) (bw' : BufferWrapper) :
    Prop where
  before : 0 ≤ bw.counter ∧ bw.counter ≤ bw.bufSize
  after : 0 ≤ bw'.counter ∧ bw'.counter ≤ bw'.bufSize
  buf_eq : bw'.buf = bw.buf
  success : bw'.errorFlag = false → bw'.counter = bw.counter + c.size ∧ 0 ≤ c.size ∧
    v = c.value (slice bw.buf bw.counter bw'.counter)
  failed : bw'.errorFlag = true → bw'.counter = bw.counter ∧ v = c.failure
  sticky : bw.errorFlag = true → bw'.errorFlag = true

/-- The sizes do not carry a sum past `INT_MAX`: as long as the calls fit behind each other they end
in the buffer of `n` bytes, and the first one that does not fit ends before 2^31. -/
def NeverWraps (n : Int) : Int → List Retrieve → Prop
  | _, [] => True
  | i, c :: cs =>
    c.size < 0 ∨ (i + c.size ≤ n ∧ NeverWraps n (i + c.size) cs) ∨
      (n < i + c.size ∧ i + c.size < 2 ^ 31)

theorem toInt_lt (x : UInt32) : toInt x < 2 ^ 31 :=
  Int.bmod_lt (by decide)

/-- A sum that wraps. -/
theorem addInt_of_wraps {a b : Int} (h : 2 ^ 31 ≤ a + b) (hlt : a + b < 2 ^ 32) :
    addInt a b = a + b - 2 ^ 32 := by
  have hmod : (a + b).bmod (2 ^ 32) = (a + b - 2 ^ 32).bmod (2 ^ 32) := by
    rw [Int.bmod_eq_bmod_iff_bmod_sub_eq_zero, Int.sub_sub_self]
    rfl
  rw [addInt, hmod, Int.bmod_eq_of_le (by omega) (by omega)]

theorem Retrieve.size_lt (c : Retrieve) : c.size < 2 ^ 31 := by
  cases c with
  | buf inBufSize => exact toInt_lt inBufSize
  | _ => simp [size]

/-- All calls make the same check. -/
theorem Retrieve.call_eq (c : Retrieve) (bw : BufferWrapper) :
    c.call bw = some (if bw.errorFlag = false ∧ 0 ≤ c.size ∧ addInt bw.counter c.size ≤ bw.bufSize then
      (c.value (bw.bytesAt bw.counter c.size.toNat), { bw with counter := addInt bw.counter c.size })
    else (c.failure, { bw with errorFlag := true })) := by
  have hfixed : ∀ {α : Type} (n : ℕ) (value : List UInt8 → α) (zero : α) (ret : α → Retrieved),
      (do return ret (← retrieveWith n value zero) : Lib.Parser BufferWrapper Retrieved) bw =
        some (if bw.errorFlag = false ∧ (0 : Int) ≤ (n : Int) ∧ addInt bw.counter n ≤ bw.bufSize then
          (ret (value (bw.bytesAt bw.counter n)), { bw with counter := addInt bw.counter n })
        else (ret zero, { bw with errorFlag := true })) := by
    intro α n value zero ret
    show (retrieveWith n value zero bw).bind _ = _
    rw [retrieveWith, retrieve]
    by_cases hok : bw.errorFlag = false ∧ addInt bw.counter n ≤ bw.bufSize
    · rw [if_pos (by simpa using hok), if_pos ⟨hok.1, Int.natCast_nonneg n, hok.2⟩]
      rfl
    · rw [if_neg (by simpa using hok), if_neg fun h ↦ hok ⟨h.1, h.2.2⟩]
      rfl
  cases c with
  | char => exact hfixed 1 (·.headD 0) 0 .char
  | ushort => exact hfixed 2 ofLe16 0 .ushort
  | uint => exact hfixed 4 ofLe32 0 .uint
  | int => exact hfixed 4 (fun bs ↦ (ofLe32 bs).toInt32) 0 .int
  | buf inBufSize =>
    have hsize : (buf inBufSize).size = toInt inBufSize := rfl
    show (retrieveBuf (toInt inBufSize) bw).bind _ = _
    rw [retrieveBuf, hsize]
    by_cases hok : bw.errorFlag = false ∧ 0 ≤ toInt inBufSize ∧
        addInt bw.counter (toInt inBufSize) ≤ bw.bufSize
    · rw [if_pos (by simpa [and_assoc] using hok), if_pos hok]
      rfl
    · rw [if_neg (by simpa [and_assoc] using hok), if_neg hok]
      rfl

/-- The bytes inside the buffer. -/
theorem bytesAt_eq_slice {bw : BufferWrapper} {j : Int} (hi : 0 ≤ bw.counter) (hj : j ≤ bw.bufSize) :
    bw.bytesAt bw.counter (j - bw.counter).toNat = slice bw.buf bw.counter j := by
  rw [bufSize] at hj
  refine List.ext_getElem (by simp [bytesAt, slice]; omega) fun k h₁ h₂ ↦ ?_
  simp only [bytesAt, List.length_map, List.length_range] at h₁
  have hk : bw.counter.toNat + k < bw.buf.length := by omega
  have hnat : (bw.counter + k).toNat = bw.counter.toNat + k := by omega
  simp only [bytesAt, slice, List.getElem_map, List.getElem_range, byteAt, List.getElem_take,
    List.getElem_drop]
  rw [if_neg (by omega), hnat, List.getD_eq_getElem?_getD, List.getElem?_eq_getElem hk,
    Option.getD_some]

section Run

variable {buf : List UInt8} {i : Int}

/-- A call that fails. -/
theorem inBounds_of_failed (bw : BufferWrapper) (c : Retrieve) (h₀ : 0 ≤ bw.counter)
    (h₁ : bw.counter ≤ bw.bufSize)
    (hc : ¬ (bw.errorFlag = false ∧ 0 ≤ c.size ∧ addInt bw.counter c.size ≤ bw.bufSize)) :
    c.call bw = some (c.failure, { bw with errorFlag := true }) ∧
      InBounds bw c c.failure { bw with errorFlag := true } := by
  refine ⟨by rw [c.call_eq, if_neg hc], ⟨h₀, h₁⟩, ⟨h₀, h₁⟩, rfl, ?_, fun _ ↦ ⟨rfl, rfl⟩, fun _ ↦ rfl⟩
  exact fun h ↦ absurd h (by simp)

/-- A call in the buffer whose sum does not wrap. -/
theorem inBounds_of_size_lt (h₀ : 0 ≤ i) (h₁ : i ≤ buf.length) (c : Retrieve)
    (hc : c.size < 0 ∨ i + c.size < 2 ^ 31) :
    ∃ v bw', c.call ⟨false, buf, i⟩ = some (v, bw') ∧ InBounds ⟨false, buf, i⟩ c v bw' ∧
      (bw'.errorFlag = true ∨ (bw' = ⟨false, buf, i + c.size⟩ ∧ i + c.size ≤ buf.length)) := by
  by_cases hsize : 0 ≤ c.size
  · have hadd : addInt i c.size = i + c.size := Int.bmod_eq_of_le (by omega) (by omega)
    by_cases hfit : i + c.size ≤ buf.length
    · have hcond : false = false ∧ 0 ≤ c.size ∧
          addInt i c.size ≤ (⟨false, buf, i⟩ : BufferWrapper).bufSize := ⟨rfl, hsize, hadd ▸ hfit⟩
      have hcall := c.call_eq ⟨false, buf, i⟩
      rw [if_pos hcond, hadd] at hcall
      refine ⟨_, _, hcall, ⟨⟨h₀, h₁⟩, ⟨by show 0 ≤ i + c.size; omega, hfit⟩, rfl, fun _ ↦ ?_, ?_, ?_⟩,
        .inr ⟨rfl, hfit⟩⟩
      · refine ⟨rfl, hsize, congrArg c.value ?_⟩
        rw [← bytesAt_eq_slice h₀ hfit]
        exact congrArg _ (congrArg _ (by show c.size = i + c.size - i; omega))
      · exact fun h ↦ absurd h (by simp)
      · exact fun h ↦ absurd h (by simp)
    · obtain ⟨hcall, hin⟩ := inBounds_of_failed ⟨false, buf, i⟩ c h₀ h₁
        fun h ↦ hfit (hadd ▸ h.2.2)
      exact ⟨_, _, hcall, hin, .inl rfl⟩
  · obtain ⟨hcall, hin⟩ := inBounds_of_failed ⟨false, buf, i⟩ c h₀ h₁ fun h ↦ hsize h.2.1
    exact ⟨_, _, hcall, hin, .inl rfl⟩

/-- A sum that wraps passes the check, and `counter` is negative. -/
theorem not_inBounds_of_wraps (h₀ : 0 ≤ i) (h₁ : i ≤ buf.length) (hbuf : buf.length < 2 ^ 31)
    (c : Retrieve) (hc : 2 ^ 31 ≤ i + c.size) {v : Retrieved} {bw' : BufferWrapper}
    (hcall : c.call ⟨false, buf, i⟩ = some (v, bw')) : ¬ InBounds ⟨false, buf, i⟩ c v bw' := by
  have hlt := c.size_lt
  have hadd : addInt i c.size = i + c.size - 2 ^ 32 := addInt_of_wraps hc (by omega)
  have hcond : false = false ∧ 0 ≤ c.size ∧
      addInt i c.size ≤ (⟨false, buf, i⟩ : BufferWrapper).bufSize := by
    refine ⟨rfl, by omega, ?_⟩
    show _ ≤ (buf.length : Int)
    omega
  rw [c.call_eq, if_pos hcond] at hcall
  obtain ⟨-, rfl⟩ := Prod.mk.inj (Option.some.inj hcall)
  intro h
  have hneg : 0 ≤ addInt i c.size := h.after.1
  omega

/-- All calls of a run stay inside the buffer. -/
def StaysInside (bw : BufferWrapper) (calls : List Retrieve) : Prop :=
  Lib.AllSteps (fun bw c ↦ ∃ v bw', c.call bw = some (v, bw') ∧ InBounds bw c v bw')
    Retrieve.step bw calls

/-- After a failure nothing happens any more. -/
theorem staysInside_of_errorFlag {bw : BufferWrapper} (h₀ : 0 ≤ bw.counter)
    (h₁ : bw.counter ≤ bw.bufSize) (herr : bw.errorFlag = true) (calls : List Retrieve) :
    StaysInside bw calls := by
  induction calls with
  | nil => trivial
  | cons c cs ih =>
    obtain ⟨hcall, hin⟩ := inBounds_of_failed _ c h₀ h₁ fun h ↦ absurd (herr.symm.trans h.1) (by simp)
    refine ⟨⟨_, _, hcall, hin⟩, fun bw' hbw' ↦ ?_⟩
    rw [Retrieve.step, hcall] at hbw'
    obtain rfl : bw = bw' := by
      rw [← Option.some.inj hbw', ← herr]
    exact ih

theorem staysInside_iff (hbuf : buf.length < 2 ^ 31) (calls : List Retrieve) :
    ∀ i : Int, 0 ≤ i → i ≤ buf.length →
      (StaysInside ⟨false, buf, i⟩ calls ↔ NeverWraps buf.length i calls) := by
  induction calls with
  | nil => exact fun _ _ _ ↦ Iff.rfl
  | cons c cs ih =>
    intro i h₀ h₁
    by_cases hc : c.size < 0 ∨ i + c.size < 2 ^ 31
    · obtain ⟨v, bw', hcall, hin, hbw'⟩ := inBounds_of_size_lt h₀ h₁ c hc
      have hstep : Retrieve.step ⟨false, buf, i⟩ c = some bw' := by rw [Retrieve.step, hcall]; rfl
      have hrest : StaysInside ⟨false, buf, i⟩ (c :: cs) ↔ StaysInside bw' cs := by
        refine ⟨fun h ↦ h.2 bw' hstep, fun h ↦ ⟨⟨v, bw', hcall, hin⟩, fun bw'' hbw'' ↦ ?_⟩⟩
        obtain rfl := Option.some.inj (hstep.symm.trans hbw'')
        exact h
      rw [hrest, NeverWraps]
      rcases hbw' with herr | ⟨rfl, hfit⟩
      · -- The call has failed, because of the size or because it does not fit.
        refine iff_of_true (staysInside_of_errorFlag hin.after.1 hin.after.2 herr cs) ?_
        by_cases hsize : c.size < 0
        · exact .inl hsize
        · refine .inr (.inr ⟨?_, hc.resolve_left hsize⟩)
          by_contra hfit
          have hadd : addInt i c.size = i + c.size := Int.bmod_eq_of_le (by omega) (by omega)
          rw [c.call_eq, if_pos ⟨rfl, by omega, by rw [hadd]; exact Int.not_lt.1 hfit⟩] at hcall
          obtain ⟨-, rfl⟩ := Prod.mk.inj (Option.some.inj hcall)
          exact absurd herr (by simp)
      · have hsize : 0 ≤ c.size := (hin.success rfl).2.1
        rw [ih (i + c.size) (by omega) hfit]
        refine ⟨fun h ↦ .inr (.inl ⟨hfit, h⟩), ?_⟩
        rintro (h | ⟨-, h⟩ | ⟨h, -⟩)
        · omega
        · exact h
        · omega
    · push Not at hc
      refine iff_of_false ?_ ?_
      · rintro ⟨⟨v, bw', hcall, hin⟩, -⟩
        exact not_inBounds_of_wraps h₀ h₁ hbuf c hc.2 hcall hin
      · rintro (h | ⟨h, -⟩ | ⟨-, h⟩)
        · omega
        · omega
        · omega

/-- **A `BufferWrapper` stays inside its buffer exactly as long as no sum wraps.** -/
theorem retrieve_in_bounds_iff (buf : List UInt8) (hbuf : buf.length < 2 ^ 31)
    (calls : List Retrieve) : StaysInside (new buf) calls ↔ NeverWraps buf.length 0 calls :=
  staysInside_iff hbuf calls 0 (le_refl 0) (Int.natCast_nonneg _)

theorem retrieve_in_bounds_two :
    StaysInside (new [1, 2, 3]) [.ushort, .buf 2, .char] ↔
      NeverWraps 3 0 [.ushort, .buf 2, .char] :=
  retrieve_in_bounds_iff [1, 2, 3] (by decide) _

/-- A length of `INT_MAX` behind a word is accepted. -/
theorem retrieve_out_of_bounds :
    ¬ ∀ (buf : List UInt8) (calls : List Retrieve), buf.length < 2 ^ 31 →
      StaysInside (new buf) calls := by
  intro h
  have h := (h [0, 0, 0, 0, 0, 0, 0, 0] [.uint, .buf 0x7FFFFFFF] (by decide)).2
    ⟨false, [0, 0, 0, 0, 0, 0, 0, 0], 4⟩ (by rfl)
  obtain ⟨v, bw', hcall, hin⟩ := h.1
  exact not_inBounds_of_wraps (by decide) (by decide) (by decide) (.buf 0x7FFFFFFF) (by decide) hcall hin

end Run

end BufferWrapper

end Meridian

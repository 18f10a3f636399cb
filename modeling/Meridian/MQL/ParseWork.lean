import Meridian.Marshal.BufferBounds
import Meridian.Marshal.ParseWork
import Meridian.MQL.ValueCodec

/-!
# What `unmarshal_ast` constructs

A vector or a map of values is read until an entry is `EMPTY`, which is what a tag comes out as that
cannot be read, so an entry that is constructed has read four bytes at least. Its own entries have
read others. So there is one measure for all nestings, the bytes that are left: a value that is not
`EMPTY` has paid for what it has constructed, and for its place in the vector or map around it.

The bound check of `retrieve_buf` can wrap, and `counter` is negative from then on. What is read
there is outside the buffer, and reads as zeros here, so the next tag is `EMPTY` and everything ends.
`Reading` has that as its third case; the margin is how far from the buffer `counter` must be for it.
-/

namespace Meridian.MQL.Value

open Lib BufferWrapper

variable {D : Type} {xdr : XdrDouble D}

/-! ### `unmarshal_ast` with its ticks -/

/-- The loop that reads a vector, with a tick for each `push_back`. -/
def countingVector (elem : Ticking UnmarshalState (Value D)) :
    ℕ → Ticking UnmarshalState (Option (List (Value D)))
  | 0 => pure (some [])
  | n + 1 => do
    let v ← elem
    if v.isEmpty then pure none
    else do
      Ticking.tick 1
      let vs ← countingVector elem n
      pure (vs.map (v :: ·))

/-- The loop that reads a map, with a tick for each entry. -/
def countingMap (elem : Ticking UnmarshalState (Value D)) :
    ℕ → List (Str × Value D) → Ticking UnmarshalState (Option (List (Str × Value D)))
  | 0, acc => pure (some acc)
  | n + 1, acc => do
    let size ← Ticking.lift (onBuffer retrieveNetUint)
    let name ← Ticking.lift (retrieveStr size)
    match name with
    | none => pure none
    | some name => do
      let v ← elem
      if v.isEmpty then pure none
      else do
        Ticking.tick 1
        countingMap elem n (mapInsert name v acc)

/-- The `switch`. -/
def countingNode (xdr : XdrDouble D) (elem : Ticking UnmarshalState (Value D)) :
    Option ASTType → Ticking UnmarshalState (Value D)
  | some .arrayType => do
    let aType ← Ticking.lift (onBuffer retrieveNetInt)
    let size ← Ticking.lift (onBuffer retrieveNetUint)
    if size = 0 then do
      let vectorSize ← Ticking.lift (onBuffer retrieveNetUint)
      let vs ← countingVector elem vectorSize.toNat
      Ticking.lift (finish (vs.map (array aType none)))
    else do
      let name ← Ticking.lift (retrieveStr size)
      match name with
      | none => pure empty
      | some name => do
        let vectorSize ← Ticking.lift (onBuffer retrieveNetUint)
        let vs ← countingVector elem vectorSize.toNat
        Ticking.lift (finish (vs.map (array aType (some name))))
  | some .varAdtType => do
    let size ← Ticking.lift (onBuffer retrieveNetUint)
    let name ← Ticking.lift (retrieveStr size)
    match name with
    | none => pure empty
    | some name => do
      let mapSize ← Ticking.lift (onBuffer retrieveNetUint)
      let fields ← countingMap elem mapSize.toNat []
      Ticking.lift (finish (fields.map (adt name)))
  | some .sepType => do
    let vectorSize ← Ticking.lift (onBuffer retrieveNetUint)
    let vs ← countingVector elem vectorSize.toNat
    Ticking.lift (finish (vs.map sep))
  | type => Ticking.lift (unmarshalNode xdr elem.erase type)

/-- `unmarshal_ast` with a bound on the depth. -/
def countingFuel (xdr : XdrDouble D) : ℕ → Ticking UnmarshalState (Value D)
  | 0 => pure empty
  | fuel + 1 => do
    let allocated ← Ticking.lift newStackAst
    if !allocated then pure empty
    else do
      let word ← Ticking.lift (onBuffer retrieveNetInt)
      countingNode xdr (countingFuel xdr fuel) (ASTType.ofWord word)

/-- `unmarshal_ast`, with a tick for each entry of a vector or of a map. -/
def countingAst (xdr : XdrDouble D) : Ticking UnmarshalState (Value D) :=
  countingFuel xdr (MAX_AST_PER_STACK + 1)

theorem erase_countingVector (elem : Ticking UnmarshalState (Value D)) (n : ℕ) :
    (countingVector elem n).erase = unmarshalVector elem.erase n := by
  induction n with
  | zero => rfl
  | succ n ih =>
    simp only [countingVector, unmarshalVector, Ticking.erase_bind, Ticking.erase_ite,
      Ticking.erase_tick, Ticking.erase_pure, pure_bind, ih]

theorem erase_countingMap (elem : Ticking UnmarshalState (Value D)) (n : ℕ)
    (acc : List (Str × Value D)) :
    (countingMap elem n acc).erase = unmarshalMap elem.erase n acc := by
  induction n generalizing acc with
  | zero => rfl
  | succ n ih =>
    simp only [countingMap, unmarshalMap, Ticking.erase_bind, Ticking.erase_lift]
    refine bind_congr fun size ↦ bind_congr fun name ↦ ?_
    cases name with
    | none => rfl
    | some name =>
      simp only [Ticking.erase_bind, Ticking.erase_ite, Ticking.erase_tick, Ticking.erase_pure,
        pure_bind, ih]

theorem erase_countingNode (elem : Ticking UnmarshalState (Value D)) (type : Option ASTType) :
    (countingNode xdr elem type).erase = unmarshalNode xdr elem.erase type := by
  unfold countingNode
  split
  · simp only [unmarshalNode, Ticking.erase_bind, Ticking.erase_lift, Ticking.erase_ite,
      erase_countingVector]
    refine bind_congr fun aType ↦ bind_congr fun size ↦ if_congr Iff.rfl rfl ?_
    refine bind_congr fun name ↦ ?_
    cases name with
    | none => rfl
    | some name => simp only [Ticking.erase_bind, Ticking.erase_lift, erase_countingVector]
  · simp only [unmarshalNode, Ticking.erase_bind, Ticking.erase_lift]
    refine bind_congr fun size ↦ bind_congr fun name ↦ ?_
    cases name with
    | none => rfl
    | some name => simp only [Ticking.erase_bind, Ticking.erase_lift, erase_countingMap]
  · simp only [unmarshalNode, Ticking.erase_bind, Ticking.erase_lift, erase_countingVector]
  · rfl

theorem erase_countingFuel (xdr : XdrDouble D) (fuel : ℕ) :
    (countingFuel xdr fuel).erase = unmarshalFuel xdr fuel := by
  induction fuel with
  | zero => rfl
  | succ fuel ih =>
    simp only [countingFuel, unmarshalFuel, Ticking.erase_bind, Ticking.erase_lift,
      Ticking.erase_ite, Ticking.erase_pure, erase_countingNode, ih]

/-- **The ticks are all that is added.** -/
theorem erase_countingAst (xdr : XdrDouble D) : (countingAst xdr).erase = unmarshalAst xdr :=
  erase_countingFuel xdr _

/-! ### The cursor -/

/-- Where the cursor is, and how many bytes are left: after a failure, inside the buffer, or at
least `margin` bytes before it. -/
inductive Reading (buf : List UInt8) (margin : ℕ) : BufferWrapper → ℕ → Prop
  | failed (i : Int) : Reading buf margin ⟨true, buf, i⟩ 0
  | inside (i left : ℕ) (h : i + left = buf.length) : Reading buf margin ⟨false, buf, i⟩ left
  | before (i : Int) (h : i + margin ≤ 0) (hmin : -2 ^ 31 ≤ i) :
    Reading buf margin ⟨false, buf, i⟩ 0

/-- The lengths for which a cursor that has wrapped is far enough before the buffer. -/
def FarWrap (buf : List UInt8) : Prop := buf.length + 16 < 2 ^ 31

instance (buf : List UInt8) : Decidable (FarWrap buf) :=
  inferInstanceAs (Decidable (buf.length + 16 < 2 ^ 31))

section Reading

variable {buf : List UInt8} {m m' left : ℕ} {bw bw' : BufferWrapper}

theorem FarWrap.inRange (h : FarWrap buf) : InRange buf := by
  rw [FarWrap] at h
  rw [InRange]
  omega

theorem Reading.mono (h : Reading buf m bw left) (hle : m' ≤ m) : Reading buf m' bw left := by
  cases h with
  | failed i => exact .failed i
  | inside i left h => exact .inside i left h
  | before i h hmin => exact .before i (by omega) hmin

/-- The bytes before the buffer. -/
theorem bytesAt_before {flag : Bool} {i : Int} {n : ℕ} (h : i + n ≤ 0) :
    bytesAt ⟨flag, buf, i⟩ i n = List.replicate n 0 := by
  refine List.eq_replicate_iff.2 ⟨by simp [bytesAt], fun b hb ↦ ?_⟩
  obtain ⟨k, hk, rfl⟩ := List.mem_map.1 hb
  rw [List.mem_range] at hk
  exact if_pos (by omega)

theorem retrieve_of_le {i : Int} {n : ℕ} (h : addInt i n ≤ buf.length) :
    retrieve ⟨false, buf, i⟩ n =
      (some (bytesAt ⟨false, buf, i⟩ i n), ⟨false, buf, addInt i n⟩) :=
  if_pos (by
    rw [Bool.not_false, Bool.true_and]
    exact decide_eq_true h)

theorem retrieve_of_lt {i : Int} {n : ℕ} (h : ¬ addInt i n ≤ buf.length) :
    retrieve ⟨false, buf, i⟩ n = (none, ⟨true, buf, i⟩) :=
  if_neg (by
    rw [Bool.not_false, Bool.true_and]
    exact fun hdec ↦ h (of_decide_eq_true hdec))

/-- A word is 0, or it takes four of the bytes that are left. -/
theorem Reading.retrieveWith {α : Type} {value : List UInt8 → α} {zero a : α} (hfar : FarWrap buf)
    (hzero : value [0, 0, 0, 0] = zero) (h : Reading buf (m + 4) bw left)
    (heq : retrieveWith 4 value zero bw = some (a, bw')) :
    ∃ left' ≤ left, Reading buf m bw' left' ∧
      (a ≠ zero → left' + 4 = left ∧ ∃ i : ℕ, bw' = ⟨false, buf, i⟩ ∧ i + left' = buf.length) := by
  rw [FarWrap] at hfar
  cases h with
  | failed i =>
    rw [BufferWrapper.retrieveWith, retrieve_failed rfl] at heq
    cases heq
    exact ⟨0, Nat.le_refl 0, .failed i, fun hne ↦ absurd rfl hne⟩
  | inside i left hlen =>
    have hadd : addInt i (4 : ℕ) = (i + 4 : ℕ) := addInt_of_lt (by omega)
    by_cases hfit : i + 4 ≤ buf.length
    · rw [BufferWrapper.retrieveWith, retrieve_of_le (by rw [hadd]; exact_mod_cast hfit), hadd] at heq
      cases heq
      exact ⟨left - 4, Nat.sub_le left 4, .inside (i + 4) _ (by omega),
        fun _ ↦ ⟨by omega, i + 4, rfl, by omega⟩⟩
    · rw [BufferWrapper.retrieveWith, retrieve_of_lt (by rw [hadd]; exact_mod_cast hfit)] at heq
      cases heq
      exact ⟨0, Nat.zero_le left, .failed i, fun hne ↦ absurd rfl hne⟩
  | before i hi hmin =>
    have hadd : addInt i (4 : ℕ) = i + 4 := Int.bmod_eq_of_le (by omega) (by omega)
    rw [BufferWrapper.retrieveWith, retrieve_of_le (by rw [hadd]; omega), hadd,
      bytesAt_before (by omega)] at heq
    cases heq
    exact ⟨0, Nat.le_refl 0, .before (i + 4) (by omega) (by omega), fun hne ↦ absurd hzero hne⟩

/-- A word that is converted after it has been read, where 0 stays 0. -/
theorem Reading.converted {α : Type} {value : List UInt8 → α} {zero : α} {convert : α → UInt32}
    {x : UInt32} (hfar : FarWrap buf) (hzero : value [0, 0, 0, 0] = zero)
    (hconvert : convert zero = 0) (h : Reading buf (m + 4) bw left)
    (heq : (BufferWrapper.retrieveWith 4 value zero >>= fun y ↦ pure (convert y)) bw =
      some (x, bw')) :
    ∃ left' ≤ left, Reading buf m bw' left' ∧
      (x ≠ 0 → left' + 4 = left ∧ ∃ i : ℕ, bw' = ⟨false, buf, i⟩ ∧ i + left' = buf.length) := by
  obtain ⟨y, bw₁, h₁, h₂⟩ := bind_eq_some.1 heq
  cases h₂
  obtain ⟨left', hle, hread, hword⟩ := h.retrieveWith hfar hzero h₁
  refine ⟨left', hle, hread, fun hne ↦ hword ?_⟩
  rintro rfl
  exact hne hconvert

/-- A word that is sent in network order. -/
theorem Reading.retrieveNetUint {x : UInt32} (hfar : FarWrap buf)
    (h : Reading buf (m + 4) bw left) (heq : retrieveNetUint bw = some (x, bw')) :
    ∃ left' ≤ left, Reading buf m bw' left' ∧
      (x ≠ 0 → left' + 4 = left ∧ ∃ i : ℕ, bw' = ⟨false, buf, i⟩ ∧ i + left' = buf.length) :=
  h.converted hfar (by decide) (by decide) heq

@[inherit_doc Reading.retrieveNetUint]
theorem Reading.retrieveNetInt {x : UInt32} (hfar : FarWrap buf)
    (h : Reading buf (m + 4) bw left) (heq : retrieveNetInt bw = some (x, bw')) :
    ∃ left' ≤ left, Reading buf m bw' left' ∧
      (x ≠ 0 → left' + 4 = left ∧ ∃ i : ℕ, bw' = ⟨false, buf, i⟩ ∧ i + left' = buf.length) :=
  h.converted hfar (by decide) (by decide) heq

/-- A string from inside the buffer: it fails, ends inside, or wraps to far before the buffer. -/
theorem Reading.retrieveBuf {r : Option (List UInt8)} {i : ℕ} {size : UInt32} (hfar : FarWrap buf)
    (hlen : i + left = buf.length)
    (heq : retrieveBuf (toInt size) ⟨false, buf, i⟩ = some (r, bw')) :
    ∃ left' ≤ left, Reading buf 16 bw' left' := by
  rw [FarWrap] at hfar
  have hsize := toInt_lt size
  rw [BufferWrapper.retrieveBuf] at heq
  split at heq
  · next hcond =>
    rw [Bool.not_false, Bool.true_and, Bool.and_eq_true_iff] at hcond
    have hpos : 0 ≤ toInt size := of_decide_eq_true hcond.1
    have hle : addInt i (toInt size) ≤ (buf.length : Int) := of_decide_eq_true hcond.2
    cases heq
    rcases Int.lt_or_le (i + toInt size) (2 ^ 31) with hlt | hge
    · have hadd : addInt i (toInt size) = (i + (toInt size).toNat : ℕ) := by
        rw [addInt, Int.bmod_eq_of_le (by omega) (by omega)]
        omega
      rw [hadd] at hle ⊢
      exact ⟨left - (toInt size).toNat, Nat.sub_le _ _, .inside _ _ (by omega)⟩
    · rw [addInt_of_wraps hge (by omega)]
      exact ⟨0, Nat.zero_le left, .before _ (by omega) (by omega)⟩
  · cases heq
    exact ⟨0, Nat.zero_le left, .failed i⟩

/-- No bytes are read where the cursor is. -/
theorem Reading.retrieveBuf_zero {r : Option (List UInt8)} (hfar : FarWrap buf)
    (h : Reading buf m bw left) (heq : BufferWrapper.retrieveBuf (toInt 0) bw = some (r, bw')) :
    ∃ left' ≤ left, Reading buf m bw' left' := by
  rw [FarWrap] at hfar
  have hzero : toInt 0 = 0 := toInt_ofNat (Nat.two_pow_pos 31)
  have hadd : ∀ i : Int, -2 ^ 31 ≤ i → i < 2 ^ 31 → addInt i (toInt 0) = i := by
    intro i hmin hmax
    rw [hzero, addInt, Int.add_zero, Int.bmod_eq_of_le hmin (by omega)]
  rw [BufferWrapper.retrieveBuf] at heq
  split at heq
  · next hcond =>
    cases heq
    cases h with
    | failed i => exact absurd hcond Bool.false_ne_true
    | inside i left hlen =>
      rw [hadd i (by omega) (by omega)]
      exact ⟨left, Nat.le_refl left, .inside i left hlen⟩
    | before i hi hmin =>
      rw [hadd i hmin (by omega)]
      exact ⟨0, Nat.le_refl 0, .before i hi hmin⟩
  · cases heq
    cases h with
    | failed i => exact ⟨0, Nat.le_refl 0, .failed i⟩
    | inside i left hlen => exact ⟨0, Nat.zero_le left, .failed i⟩
    | before i hi hmin => exact ⟨0, Nat.le_refl 0, .failed i⟩

theorem retrieveStr_eq_some {size : UInt32} {name : Option Str} {s s' : UnmarshalState}
    (h : Value.retrieveStr size s = some (name, s')) :
    ∃ r, BufferWrapper.retrieveBuf (toInt size) s.bw = some (r, s'.bw) := by
  obtain ⟨r, s₁, h₁, h₂⟩ := bind_eq_some.1 h
  obtain ⟨e, s₂, h₂, h₃⟩ := bind_eq_some.1 h₂
  cases h₂
  cases h₃
  exact ⟨r, onBuffer_eq_some h₁⟩

/-- A string that is sent with its length. -/
theorem Reading.retrieveStr {size : UInt32} {name : Option Str} {s s₁ s' : UnmarshalState}
    (hfar : FarWrap buf) (h : Reading buf (m + 4) s.bw left) (hm : m ≤ 16)
    (hsize : onBuffer BufferWrapper.retrieveNetUint s = some (size, s₁))
    (heq : Value.retrieveStr size s₁ = some (name, s')) : ∃ left' ≤ left, Reading buf m s'.bw left' := by
  obtain ⟨left₁, hle₁, hread₁, hword⟩ := h.retrieveNetUint hfar (onBuffer_eq_some hsize)
  obtain ⟨r, h₂⟩ := retrieveStr_eq_some heq
  by_cases hzero : size = 0
  · subst hzero
    obtain ⟨left₂, hle₂, hread₂⟩ := hread₁.retrieveBuf_zero hfar h₂
    exact ⟨left₂, hle₂.trans hle₁, hread₂⟩
  · obtain ⟨-, i, hbw, hlen⟩ := hword hzero
    rw [hbw] at h₂
    obtain ⟨left₂, hle₂, hread₂⟩ := Reading.retrieveBuf hfar hlen h₂
    exact ⟨left₂, hle₂.trans hle₁, hread₂.mono hm⟩

end Reading

/-! ### The bytes that are left pay -/

section Pays

variable {buf : List UInt8} {elem : Ticking UnmarshalState (Value D)} {s : UnmarshalState}
  {left : ℕ}

/-- What `elem` constructs, and the place of its value in a list, is paid for by the bytes that it
takes. -/
def Pays (buf : List UInt8) (elem : Ticking UnmarshalState (Value D)) : Prop :=
  ∀ (s : UnmarshalState) (left : ℕ), Reading buf 4 s.bw left →
    elem.Within s left fun v s' c ↦ v.isEmpty = false →
      ∃ left', Reading buf 12 s'.bw left' ∧ 1 + left' ≤ c

theorem Pays.vector (helem : Pays buf elem) (n : ℕ) (h : Reading buf 12 s.bw left) :
    (countingVector elem n).Within s left fun vs s' c ↦ vs ≠ none →
      ∃ left', Reading buf 12 s'.bw left' ∧ left' ≤ c := by
  induction n generalizing s left with
  | zero => exact Ticking.Within.done fun _ ↦ ⟨left, h, Nat.le_refl left⟩
  | succ n ih =>
    refine (helem s left (h.mono (by decide))).bind fun v s₁ c hv ↦ ?_
    split
    · exact Ticking.Within.done fun hne ↦ absurd rfl hne
    · next hempty =>
      rw [Bool.not_eq_true] at hempty
      obtain ⟨left₁, hread, hle⟩ := hv hempty
      refine Ticking.Within.weaken (Ticking.Within.tick_bind ?_) hle
      refine (ih hread).bind fun vs s₂ c₂ hvs ↦ Ticking.Within.done fun hne ↦ hvs ?_
      rintro rfl
      exact hne rfl

theorem Pays.map (hfar : FarWrap buf) (helem : Pays buf elem) (n : ℕ)
    (acc : List (Str × Value D)) (h : Reading buf 12 s.bw left) :
    (countingMap elem n acc).Within s left fun fields s' c ↦ fields ≠ none →
      ∃ left', Reading buf 12 s'.bw left' ∧ left' ≤ c := by
  induction n generalizing s left acc with
  | zero => exact Ticking.Within.done fun _ ↦ ⟨left, h, Nat.le_refl left⟩
  | succ n ih =>
    refine Ticking.Within.lift_bind fun size s₁ h₁ ↦ Ticking.Within.lift_bind fun name s₂ h₂ ↦ ?_
    obtain ⟨left₂, hle₂, hread₂⟩ := Reading.retrieveStr hfar (m := 8) h (by decide) h₁ h₂
    cases name with
    | none => exact Ticking.Within.done fun hne ↦ absurd rfl hne
    | some name =>
      refine Ticking.Within.weaken ?_ hle₂
      refine (helem s₂ left₂ (hread₂.mono (by decide))).bind fun v s₃ c hv ↦ ?_
      split
      · exact Ticking.Within.done fun hne ↦ absurd rfl hne
      · next hempty =>
        rw [Bool.not_eq_true] at hempty
        obtain ⟨left₃, hread₃, hle₃⟩ := hv hempty
        exact Ticking.Within.weaken (Ticking.Within.tick_bind (ih _ hread₃)) hle₃

/-- The end of a node: the value is there only without an error. -/
theorem finish_eq_some {v : Option (Value D)} {w : Value D} {s s' : UnmarshalState}
    (h : finish v s = some (w, s')) : s' = s ∧ (w.isEmpty = true ∨ v = some w) := by
  obtain ⟨e, s₁, h₁, h₂⟩ := bind_eq_some.1 h
  cases h₁
  cases h₂
  refine ⟨rfl, ?_⟩
  split
  · exact .inl rfl
  · cases v with
    | none => exact .inl rfl
    | some v => exact .inr rfl

/-- After the list, the node has what the list has left. -/
theorem Pays.finish {α : Type} {list : Ticking UnmarshalState (Option α)} {node : α → Value D}
    (h : list.Within s left fun r s' c ↦ r ≠ none →
      ∃ left', Reading buf 12 s'.bw left' ∧ left' ≤ c) :
    (do let r ← list; Ticking.lift (Value.finish (r.map node)) :
      Ticking UnmarshalState (Value D)).Within s left fun v s' c ↦ v.isEmpty = false →
        ∃ left', Reading buf 12 s'.bw left' ∧ left' ≤ c := by
  refine h.bind fun r s₁ c hr ↦ ?_
  refine Ticking.Within.lift fun v s₂ hv hempty ↦ ?_
  obtain ⟨rfl, hnone | hsome⟩ := finish_eq_some hv
  · exact absurd (hempty.symm.trans hnone) Bool.false_ne_true
  · refine hr ?_
    rintro rfl
    exact absurd hsome (Option.some_ne_none v).symm

/-- A node without entries. -/
theorem reading_unmarshalNode {xdr : XdrDouble D} {elem : Parser UnmarshalState (Value D)}
    {type : Option ASTType} {v : Value D} {s' : UnmarshalState} {i : ℕ} (hfar : FarWrap buf)
    (hbw : s.bw = ⟨false, buf, i⟩) (hlen : i + left = buf.length)
    (harray : type ≠ some .arrayType) (hadt : type ≠ some .varAdtType)
    (hsep : type ≠ some .sepType) (heq : unmarshalNode xdr elem type s = some (v, s'))
    (hempty : v.isEmpty = false) : ∃ left' ≤ left, Reading buf 12 s'.bw left' := by
  have hat : ∀ m, Reading buf m s.bw left := fun m ↦ hbw ▸ .inside i left hlen
  unfold unmarshalNode at heq
  split at heq
  · obtain ⟨rfl, -⟩ := finish_eq_some heq
    exact ⟨left, Nat.le_refl left, hat 12⟩
  · obtain ⟨word, s₁, h₁, heq⟩ := bind_eq_some.1 heq
    obtain ⟨rfl, -⟩ := finish_eq_some heq
    obtain ⟨left', hle, hread, -⟩ := (hat 16).retrieveNetInt hfar (onBuffer_eq_some h₁)
    exact ⟨left', hle, hread⟩
  · obtain ⟨name, s₁, h₁, heq⟩ := bind_eq_some.1 heq
    obtain ⟨rfl, -⟩ := finish_eq_some heq
    obtain ⟨r, h₁⟩ := retrieveStr_eq_some h₁
    rw [hbw] at h₁
    obtain ⟨left', hle, hread⟩ := Reading.retrieveBuf hfar hlen h₁
    exact ⟨left', hle, hread.mono (by decide)⟩
  · obtain ⟨size, s₁, h₁, heq⟩ := bind_eq_some.1 heq
    obtain ⟨name, s₂, h₂, heq⟩ := bind_eq_some.1 heq
    obtain ⟨rfl, -⟩ := finish_eq_some heq
    exact (hat 16).retrieveStr hfar (by decide) h₁ h₂
  · exact absurd rfl harray
  · exact absurd rfl hadt
  · exact absurd rfl hsep
  · cases heq
    exact absurd hempty (by simp [isEmpty])

/-- **A node** that begins inside the buffer. -/
theorem Pays.node (hfar : FarWrap buf) (helem : Pays buf elem) {i : ℕ}
    (hbw : s.bw = ⟨false, buf, i⟩) (hlen : i + left = buf.length) (type : Option ASTType) :
    (countingNode xdr elem type).Within s left fun v s' c ↦ v.isEmpty = false →
      ∃ left', Reading buf 12 s'.bw left' ∧ left' ≤ c := by
  have hat : ∀ m, Reading buf m s.bw left := fun m ↦ hbw ▸ .inside i left hlen
  unfold countingNode
  split
  · -- An array: the element type, the name, and the elements.
    refine Ticking.Within.lift_bind fun aType s₁ h₁ ↦ Ticking.Within.lift_bind fun size s₂ h₂ ↦ ?_
    obtain ⟨left₁, hle₁, hread₁, -⟩ := (hat 24).retrieveNetInt hfar (onBuffer_eq_some h₁)
    split
    · refine Ticking.Within.lift_bind fun vectorSize s₃ h₃ ↦ ?_
      obtain ⟨left₂, hle₂, hread₂, -⟩ := hread₁.retrieveNetUint hfar (onBuffer_eq_some h₂)
      obtain ⟨left₃, hle₃, hread₃, -⟩ := hread₂.retrieveNetUint hfar (onBuffer_eq_some h₃)
      exact (Pays.finish (helem.vector _ hread₃)).weaken (hle₃.trans (hle₂.trans hle₁))
    · refine Ticking.Within.lift_bind fun name s₃ h₃ ↦ ?_
      obtain ⟨left₃, hle₃, hread₃⟩ := hread₁.retrieveStr hfar (by decide) h₂ h₃
      cases name with
      | none => exact Ticking.Within.done fun hempty ↦ absurd hempty (by simp [isEmpty])
      | some name =>
        refine Ticking.Within.lift_bind fun vectorSize s₄ h₄ ↦ ?_
        obtain ⟨left₄, hle₄, hread₄, -⟩ := hread₃.retrieveNetUint hfar (onBuffer_eq_some h₄)
        exact (Pays.finish (helem.vector _ hread₄)).weaken (hle₄.trans (hle₃.trans hle₁))
  · -- A struct: the name, and the fields.
    refine Ticking.Within.lift_bind fun size s₁ h₁ ↦ Ticking.Within.lift_bind fun name s₂ h₂ ↦ ?_
    obtain ⟨left₂, hle₂, hread₂⟩ := Reading.retrieveStr hfar (hat 20) (by decide) h₁ h₂
    cases name with
    | none => exact Ticking.Within.done fun hempty ↦ absurd hempty (by simp [isEmpty])
    | some name =>
      refine Ticking.Within.lift_bind fun mapSize s₃ h₃ ↦ ?_
      obtain ⟨left₃, hle₃, hread₃, -⟩ := hread₂.retrieveNetUint hfar (onBuffer_eq_some h₃)
      exact (Pays.finish (helem.map hfar _ _ hread₃)).weaken (hle₃.trans hle₂)
  · -- A list.
    refine Ticking.Within.lift_bind fun vectorSize s₁ h₁ ↦ ?_
    obtain ⟨left₁, hle₁, hread₁, -⟩ := (hat 16).retrieveNetUint hfar (onBuffer_eq_some h₁)
    exact (Pays.finish (helem.vector _ hread₁)).weaken hle₁
  · -- Nothing is constructed in the others.
    refine Ticking.Within.lift fun v s' hv hempty ↦ ?_
    obtain ⟨left', hle, hread⟩ := reading_unmarshalNode hfar hbw hlen (by assumption)
      (by assumption) (by assumption) hv hempty
    exact ⟨left', hread, hle⟩

/-- **Every value is paid for**, at every depth. -/
theorem pays_countingFuel (hfar : FarWrap buf) (xdr : XdrDouble D) (fuel : ℕ) :
    Pays buf (countingFuel xdr fuel) := by
  induction fuel with
  | zero => exact fun s left _ ↦ Ticking.Within.done fun hempty ↦ absurd hempty (by simp [isEmpty])
  | succ fuel ih =>
    intro s left h
    refine Ticking.Within.lift_bind fun allocated s₁ h₁ ↦ ?_
    cases h₁
    split
    · exact Ticking.Within.done fun hempty ↦ absurd hempty (by simp [isEmpty])
    · refine Ticking.Within.lift_bind fun word s₂ h₂ ↦ ?_
      have hread := onBuffer_eq_some h₂
      obtain ⟨left₂, -, -, hword⟩ := Reading.retrieveNetInt (m := 0) hfar h hread
      by_cases hzero : word = 0
      · -- Nothing but an `EMPTY` begins with this word.
        subst hzero
        refine Ticking.Within.lift fun v s₃ hv hempty ↦ ?_
        obtain ⟨-, hnone | hsome⟩ := finish_eq_some (v := some empty) hv
        · exact absurd (hempty.symm.trans hnone) Bool.false_ne_true
        · obtain rfl := Option.some.inj hsome
          exact absurd hempty (by simp [isEmpty])
      · obtain ⟨hleft, i, hbw, hlen⟩ := hword hzero
        rw [← hleft]
        refine ((ih.node hfar hbw hlen (ASTType.ofWord word)).frame 4).imp fun v s₃ c hv hempty ↦ ?_
        obtain ⟨c₀, rfl, hnode⟩ := hv
        obtain ⟨left', hread', hle'⟩ := hnode hempty
        exact ⟨left', hread', by omega⟩

end Pays

end Meridian.MQL.Value

namespace Meridian

open Lib BufferWrapper MQL.Value

/-! ### All parsers -/

/-- What parses a list in a buffer of `n` bytes. A value is read behind something else of the
packet, with the allocations of the parser state so far. -/
inductive ListParser (n : ℕ) where
  | reqGeneric (kind : ReqMeasureKind)
  | reqConstraintGeneric (kind : ReqConstraintKind)
  | reqClosestGeneric (kind : ReqClosestKind)
  | retResponse (remote : NodeIdent)
  | gossipPacketGeneric (kind : GossipKind)
  | retPing
  | infoPacket (inMap : InfoMap)
  | value (errorFlag : Bool) (counter : Fin (n + 1)) (astAllocationCount : ℕ)

/-- The entries of lists, maps and vectors that are constructed before the parser returns. -/
def ListParser.constructed {D : Type} (magic : UInt32) (xdr : MQL.XdrDouble D) (buf : List UInt8) :
    ListParser buf.length → ℕ
  | reqGeneric kind => ((ReqGeneric.format magic kind).counting (new buf)).1
  | reqConstraintGeneric kind => ((ReqConstraintGeneric.format magic kind).counting (new buf)).1
  | reqClosestGeneric kind => ((ReqClosestGeneric.format magic kind).counting (new buf)).1
  | retResponse remote => ((RetResponse.format magic remote).counting (new buf)).1
  | gossipPacketGeneric kind => ((GossipPacketGeneric.format magic kind).counting (new buf)).1
  | retPing => ((RetPing.format magic).counting (new buf)).1
  | infoPacket inMap => if 0 < inMap.size then 0 else (InfoPacket.counting magic (new buf)).1
  | value errorFlag counter astAllocationCount =>
    (countingAst xdr ⟨⟨errorFlag, buf, counter.val⟩, astAllocationCount⟩).1

/-- The info packets whose parsing is within the bound: those that announce no more members and
rings than they have bytes. -/
def ListParser.Bounded (magic : UInt32) (buf : List UInt8) : ListParser buf.length → Prop
  | infoPacket inMap => inMap.size = 0 → InfoPacket.HasHeader magic buf →
    InfoPacket.announced buf ≤ buf.length
  | _ => True

/-- A value within the bytes that are left. -/
theorem ticks_countingAst_le {D : Type} {buf : List UInt8} (hfar : FarWrap buf)
    (xdr : MQL.XdrDouble D) (errorFlag : Bool) (counter : Fin (buf.length + 1))
    (astAllocationCount : ℕ) :
    (countingAst xdr ⟨⟨errorFlag, buf, counter.val⟩, astAllocationCount⟩).1 ≤ buf.length := by
  have hcounter := counter.isLt
  cases errorFlag with
  | true =>
    have h := (pays_countingFuel hfar xdr (MAX_AST_PER_STACK + 1)
      ⟨⟨true, buf, counter.val⟩, astAllocationCount⟩ 0 (.failed _)).1
    exact h.trans (Nat.zero_le _)
  | false =>
    have h := (pays_countingFuel hfar xdr (MAX_AST_PER_STACK + 1)
      ⟨⟨false, buf, counter.val⟩, astAllocationCount⟩ (buf.length - counter)
      (.inside _ _ (by omega))).1
    exact h.trans (Nat.sub_le _ _)

/-- **The work of a parser is bounded by the packet**, except that `InfoPacket::parse` constructs
what its packet announces. -/
theorem ListParser.constructed_le_iff {D : Type} (magic : UInt32) (xdr : MQL.XdrDouble D)
    (buf : List UInt8) (hfar : FarWrap buf) (parser : ListParser buf.length) :
    parser.constructed magic xdr buf ≤ buf.length ↔ parser.Bounded magic buf := by
  have hrange : InRange buf := hfar.inRange
  cases parser with
  | reqGeneric kind => exact iff_of_true (ListFormat.counting_le _ hrange) trivial
  | reqConstraintGeneric kind => exact iff_of_true (ListFormat.counting_le _ hrange) trivial
  | reqClosestGeneric kind => exact iff_of_true (ListFormat.counting_le _ hrange) trivial
  | retResponse remote => exact iff_of_true (ListFormat.counting_le _ hrange) trivial
  | gossipPacketGeneric kind => exact iff_of_true (ListFormat.counting_le _ hrange) trivial
  | retPing => exact iff_of_true (ListFormat.counting_le _ hrange) trivial
  | value errorFlag counter astAllocationCount =>
    exact iff_of_true (ticks_countingAst_le hfar xdr errorFlag counter astAllocationCount) trivial
  | infoPacket inMap =>
    rw [constructed, Bounded]
    by_cases hsize : 0 < inMap.size
    · rw [if_pos hsize]
      exact iff_of_true (Nat.zero_le _) fun hzero ↦ absurd hzero hsize.ne'
    · rw [if_neg hsize]
      by_cases hheader : InfoPacket.HasHeader magic buf
      · rw [InfoPacket.ticks_counting_of_hasHeader hrange hheader]
        exact ⟨fun h _ _ ↦ h, fun h ↦ h (Nat.eq_zero_of_not_pos hsize) hheader⟩
      · rw [InfoPacket.ticks_counting_of_not_hasHeader hrange hheader]
        exact iff_of_true (Nat.zero_le _) fun _ h ↦ absurd h hheader

/-- The header of an info packet, and a count of 100 members that do not follow. -/
def announcement : List UInt8 := (Packet.new 0).encode 0 INFO_PACKET ++ net32 100

theorem ListParser.constructed_le_iff_announcement :
    (infoPacket ∅ : ListParser announcement.length).constructed 0 bitsXdr announcement ≤
      announcement.length ↔ (infoPacket ∅ : ListParser announcement.length).Bounded 0 announcement :=
  constructed_le_iff 0 bitsXdr announcement (by decide) (infoPacket ∅)

/-- **An info packet of 17 bytes has 100 members constructed.** -/
theorem ListParser.constructed_exceeds : ¬ ∀ (magic : UInt32) (buf : List UInt8), FarWrap buf →
    ∀ parser : ListParser buf.length, parser.constructed magic bitsXdr buf ≤ buf.length := by
  intro h
  have hheader : InfoPacket.HasHeader 0 announcement := ⟨Packet.new 0, net32 100, rfl⟩
  have hfar : FarWrap announcement := by decide
  have hle : (InfoPacket.counting 0 (new announcement)).1 ≤ announcement.length :=
    h 0 announcement hfar (infoPacket ∅)
  have hmembers : InfoPacket.numMembers announcement = 100 := by decide
  have hlen : announcement.length = 17 := by decide
  rw [InfoPacket.ticks_counting_of_hasHeader hfar.inRange hheader, InfoPacket.announced, hmembers,
    hlen] at hle
  omega

end Meridian

import Meridian.Marshal.InfoPacket
import Mathlib.Data.Nat.Digits.Lemmas

/-!
# The info page

`getInfoPacket` writes a page about the rings into a packet of `MAX_INFO_PACKET_SIZE` bytes, one
`snprintf` after another. It advances its position by what `snprintf` returns, which is the length
of the text and not of what has been written of it. So a page that is too long moves the position
behind the end of the packet, and the next call is given the difference, a negative `int`, as its
size.

* `%0.3f` and `%0.2f` print the exact value of their `double`, rounded to nearest with ties to even.
* The time between the two readings of the clock, a `long` of microseconds, is an argument.
* A call that is given the size 0 writes nothing. Otherwise it writes as much of its text as leaves
  room for the terminating NUL, and the NUL.

`getInfoPacket_inBuffer_iff` says which pages stay within the packet.
-/

namespace Meridian

open Lib

/-- `HOST_NAME_MAX`, where the system does not define it. -/
def HOST_NAME_MAX : ℕ := 1024

/-- What `gethostname` leaves in `g_hostname`. -/
structure HostName where
  chars : List UInt8
  length_lt : chars.length < HOST_NAME_MAX

/-! ### Formats -/

/-- The characters of a literal. -/
def ascii (s : String) : List UInt8 := s.toList.map fun c ↦ UInt8.ofNat c.toNat

@[simp] theorem length_ascii (s : String) : (ascii s).length = s.length := by
  rw [ascii, List.length_map, String.length_toList]

/-- `%d` of a number that is not negative. -/
def decimal (n : ℕ) : List UInt8 :=
  if n = 0 then ascii "0" else (Nat.digits 10 n).reverse.map fun d ↦ UInt8.ofNat (48 + d)

@[simp] theorem length_decimal (n : ℕ) : (decimal n).length = Nat.log 10 n + 1 := by
  rw [decimal]
  split
  · next h => rw [h, Nat.log_zero_right, length_ascii]; rfl
  · next h => rw [List.length_map, List.length_reverse, Nat.length_digits 10 n (by decide) h]

/-- The last digits of a number, as many as there are places. -/
def lastDigits : ℕ → ℕ → List UInt8
  | 0, _ => []
  | places + 1, n => lastDigits places (n / 10) ++ [UInt8.ofNat (48 + n % 10)]

@[simp] theorem length_lastDigits (places n : ℕ) : (lastDigits places n).length = places := by
  induction places generalizing n with
  | zero => rfl
  | succ places ih => rw [lastDigits, List.length_append, ih, List.length_singleton]

/-- `%0.2f` and the like, of a double with this value. -/
def fixedPoint (places : ℕ) (x : ℚ) : List UInt8 :=
  let scaled := (Binary64.nearestEven (|x| * 10 ^ places)).toNat
  (if x < 0 then ascii "-" else []) ++ decimal (scaled / 10 ^ places) ++ ascii "." ++
    lastDigits places scaled

/-- `n / 1000.0`. -/
def thousandth (n : ℤ) : ℚ := Binary64.round (n / 1000)

/-- `inet_ntoa`. -/
def inetNtoa (addr : UInt32) : List UInt8 :=
  decimal (addr.toNat / 2 ^ 24) ++ ascii "." ++
    decimal (addr.toNat / 2 ^ 16 % 2 ^ 8) ++ ascii "." ++
    decimal (addr.toNat / 2 ^ 8 % 2 ^ 8) ++ ascii "." ++ decimal (addr.toNat % 2 ^ 8)

/-! ### The page -/

/-- What has become of the page: `pos`, and for each call of `snprintf` the position it was made at
with the bytes it has written from there. -/
structure InfoPage where
  pos : Int
  writes : List (Int × List UInt8)

namespace InfoPage

/-- What `snprintf` writes of a text. -/
def truncated (size : ℕ) (text : List UInt8) : List UInt8 :=
  if size = 0 then [] else text.take (size - 1) ++ [0]

/-- `pos += snprintf(buf + pos, packetSize - pos, …)`. -/
def snprintf (packetSize : Int) (page : InfoPage) (text : List UInt8) : InfoPage :=
  -- the size is a `size_t`
  let size := UInt32.ofInt (addInt packetSize (-page.pos))
  ⟨addInt page.pos text.length, page.writes ++ [(page.pos, truncated size.toNat text)]⟩

end InfoPage

/-- The line about a ring. -/
def ringLine (i : ℕ) : List UInt8 :=
  ascii "<TR><TD><STRONG>Nodes in ring " ++ decimal i ++
    ascii "</STRONG></TD><TD><STRONG>Latency</STRONG></TD></TR>\n"

/-- The line about a member. -/
def memberLine (n : NodeIdent) (latencyUS : UInt32) : List UInt8 :=
  ascii "<TR><TD>" ++ inetNtoa n.addr ++ ascii "</TD><TD>" ++
    fixedPoint 3 (thousandth latencyUS.toNat) ++ ascii " ms</TD></TR>\n"

/-- A member of a ring. `none` is the assertion that it has a latency. -/
def infoMember (rs : RingSet) (packetSize : Int) (page : InfoPage) (n : NodeIdent) :
    Option InfoPage :=
  match rs.nodeLatencyUS[n]? with
  | none => none
  | some latencyUS => some (page.snprintf packetSize (memberLine n latencyUS))

/-- A ring. -/
def infoRing (rs : RingSet) (packetSize : Int) (page : InfoPage) (i : Fin MAX_NUM_RINGS) :
    Option InfoPage :=
  if 0 < (rs.primaryRing i).length then
    (rs.primaryRing i).foldlM (infoMember rs packetSize) (page.snprintf packetSize (ringLine i))
  else some page

/-- `getInfoPacket`: the page, and the packet that `setPayLoadSize` leaves marked as complete or
not. `none` is the assertion in the loop. -/
def getInfoPacket (rs : RingSet) (hostname : HostName) (elapsedUS : Int32) (inPacket : RealPacket) :
    Option (InfoPage × Bool) := do
  let packetSize : Int := inPacket.maxPacketSize.toNat
  let page : InfoPage := ⟨inPacket.payload.length, []⟩
  let page := page.snprintf packetSize (ascii "HTTP/1.1 200 OK\r\n")
  let page := page.snprintf packetSize
    (ascii "Content-Type: text/html; charset=iso-8859-1\r\n\r\n")
  let page := page.snprintf packetSize (ascii "<HTML>\n<title>Meridian</title>\n<body>\n")
  let page := page.snprintf packetSize
    (ascii "<H2>Meridian node: " ++ hostname.chars ++ ascii "</H2>\n")
  let page := page.snprintf packetSize (ascii "<HR SIZE=\"0\">\n")
  let page := page.snprintf packetSize
    (ascii "<STRONG>Ring members of " ++ hostname.chars ++ ascii "</STRONG>\n")
  let page := page.snprintf packetSize
    (ascii "<TABLE cellspacing=\"3\" cellPadding=\"3\" width=\"100%\" border=\"1\">\n<TBODY>\n")
  let page ← (List.finRange MAX_NUM_RINGS).foldlM (infoRing rs packetSize) page
  let page := page.snprintf packetSize (ascii "</TBODY>\n</TABLE>\n")
  let page := page.snprintf packetSize
    (ascii "<BR>Time to create this page is " ++ fixedPoint 2 (thousandth elapsedUS.toInt) ++
      ascii " ms\n")
  let page := page.snprintf packetSize (ascii "\n</body>\n</HTML>")
  return (page, inPacket.complete && decide (0 ≤ page.pos ∧ page.pos ≤ packetSize))

/-- What is to hold of a page: every position is in the packet, nothing is written behind its end,
and the last assertion, that the packet is complete, holds. -/
def InBuffer (packetSize : Int) (res : InfoPage × Bool) : Prop :=
  (∀ w ∈ res.1.writes, 0 ≤ w.1 ∧ w.1 ≤ packetSize ∧ w.1 + w.2.length ≤ packetSize) ∧ res.2 = true

/-! ### How long the page is -/

/-- The length of the line about a member: 43 characters, and the digits behind the first one of the
four bytes of its address and of the whole milliseconds of its latency. -/
def memberLength (n : NodeIdent) (latencyUS : UInt32) : ℕ :=
  43 + (Nat.log 10 (n.addr.toNat / 2 ^ 24) + Nat.log 10 (n.addr.toNat / 2 ^ 16 % 2 ^ 8) +
    Nat.log 10 (n.addr.toNat / 2 ^ 8 % 2 ^ 8) + Nat.log 10 (n.addr.toNat % 2 ^ 8)) +
    Nat.log 10 (latencyUS.toNat / 1000)

/-- The length of the lines about a ring. -/
def ringLength (rs : RingSet) (i : Fin MAX_NUM_RINGS) : ℕ :=
  if rs.primaryRing i = [] then 0
  else 84 + ((rs.primaryRing i).map fun n ↦ memberLength n ((rs.nodeLatencyUS[n]?).getD 0)).sum

/-- The length of the page: 317 characters, the host name twice, the time, and the rings. -/
def infoLength (rs : RingSet) (hostname : HostName) (elapsedUS : Int32) : ℕ :=
  317 + 2 * hostname.chars.length + (fixedPoint 2 (thousandth elapsedUS.toInt)).length +
    ((List.finRange MAX_NUM_RINGS).map (ringLength rs)).sum

/-- A 32-bit number of thousandths is near its double. -/
theorem abs_thousandth_sub_le {n : ℤ} (hn : |n| < 2 ^ 32) :
    |thousandth n - (n : ℚ) / 1000| ≤ 2 ^ (-20 : ℤ) / 2 := by
  have hlt : |(n : ℚ) / 1000| < 2 ^ ((-20 : ℤ) + 53) := by
    have hn' : |(n : ℚ)| < 2 ^ 32 := by exact_mod_cast hn
    rw [abs_div, abs_of_pos (show (0 : ℚ) < 1000 by norm_num), div_lt_iff₀ (by norm_num)]
    norm_num at hn' ⊢
    linarith
  have hexp : Binary64.exponent ((n : ℚ) / 1000) ≤ -20 := by
    have habs := Binary64.exponent_le (by decide) (abs_nonneg _) hlt
    rwa [Binary64.exponent, abs_abs] at habs
  exact (Binary64.abs_round_sub_le _).trans
    (div_le_div_of_nonneg_right (zpow_le_zpow_right₀ one_le_two hexp) zero_le_two)

/-- The double prints as the number. -/
theorem nearestEven_thousandth {n : ℕ} (hn : n < 2 ^ 32) :
    Binary64.nearestEven (|thousandth n| * 10 ^ 3) = n := by
  have hround : 0 ≤ thousandth n := Binary64.round_nonneg (by positivity)
  have hnear := abs_thousandth_sub_le (n := n) (by rw [Nat.abs_cast]; exact_mod_cast hn)
  refine Binary64.nearestEven_eq ?_
  rw [abs_of_nonneg hround]
  obtain ⟨hlo, hhi⟩ := abs_le.1 hnear
  rw [abs_lt]
  norm_num at hlo hhi ⊢
  constructor <;> linarith

/-- A time does not take many digits. -/
theorem length_elapsed_le (elapsedUS : Int32) :
    (fixedPoint 2 (thousandth elapsedUS.toInt)).length ≤ 2 ^ 29 := by
  have hlo := elapsedUS.le_toInt
  have hhi := elapsedUS.toInt_lt
  generalize elapsedUS.toInt = n at hlo hhi
  have hnear := abs_le.1 (abs_thousandth_sub_le (n := n) (abs_lt.2 ⟨by omega, by omega⟩))
  have hlo' : (-2 ^ 31 : ℚ) ≤ n := by exact_mod_cast hlo
  have hhi' : (n : ℚ) < 2 ^ 31 := by exact_mod_cast hhi
  have habs : |thousandth n| * 10 ^ 2 ≤ ((2 ^ 29 : ℤ) : ℚ) := by
    have hle : |thousandth n| ≤ 2 ^ 21 + 2 ^ 20 := by
      rw [abs_le]
      norm_num at hnear hlo' hhi' ⊢
      constructor <;> linarith
    norm_num at hle ⊢
    linarith
  have hscaled := Binary64.nearestEven_le habs
  have hlog := Nat.log_le_self 10
    ((Binary64.nearestEven (|thousandth n| * 10 ^ 2)).toNat / 10 ^ 2)
  have hsign : (if thousandth n < 0 then ascii "-" else []).length ≤ 1 := by
    split
    · exact le_refl 1
    · exact Nat.zero_le 1
  have hdot : ".".length = 1 := rfl
  simp only [fixedPoint, List.length_append, length_decimal, length_lastDigits, length_ascii, hdot]
  omega

theorem length_ringLine (i : Fin MAX_NUM_RINGS) : (ringLine i).length = 84 := by
  have hlog : Nat.log 10 i.val = 0 := Nat.log_of_lt i.isLt
  have hfirst : "<TR><TD><STRONG>Nodes in ring ".length = 30 := rfl
  have hlast : "</STRONG></TD><TD><STRONG>Latency</STRONG></TD></TR>\n".length = 53 := rfl
  simp only [ringLine, List.length_append, length_ascii, length_decimal, hlog, hfirst, hlast]

theorem length_memberLine (n : NodeIdent) (latencyUS : UInt32) :
    (memberLine n latencyUS).length = memberLength n latencyUS := by
  have hround : 0 ≤ thousandth latencyUS.toNat := Binary64.round_nonneg (by positivity)
  have hfirst : "<TR><TD>".length = 8 := rfl
  have hmid : "</TD><TD>".length = 9 := rfl
  have hlast : " ms</TD></TR>\n".length = 14 := rfl
  have hdot : ".".length = 1 := rfl
  simp only [memberLine, fixedPoint, nearestEven_thousandth latencyUS.toNat_lt, inetNtoa,
    List.length_append, length_ascii, length_decimal, length_lastDigits, Int.toNat_natCast,
    if_neg (not_lt.2 hround), memberLength, hfirst, hmid, hlast, hdot, List.length_nil]
  rw [show (10 : ℕ) ^ 3 = 1000 from rfl]
  omega

theorem memberLength_le (n : NodeIdent) (latencyUS : UInt32) :
    memberLength n latencyUS ≤ 2 ^ 30 := by
  have haddr := n.addr.toNat_lt
  have hlat := latencyUS.toNat_lt
  have h₁ := Nat.log_le_self 10 (n.addr.toNat / 2 ^ 24)
  have h₂ := Nat.log_le_self 10 (n.addr.toNat / 2 ^ 16 % 2 ^ 8)
  have h₃ := Nat.log_le_self 10 (n.addr.toNat / 2 ^ 8 % 2 ^ 8)
  have h₄ := Nat.log_le_self 10 (n.addr.toNat % 2 ^ 8)
  have h₅ := Nat.log_le_self 10 (latencyUS.toNat / 1000)
  rw [memberLength]
  omega

/-! ### Printing -/

namespace InfoPage

variable {packetSize : Int} {page : InfoPage} {texts : List (List UInt8)}

/-- All texts, one after another. -/
def printAll (packetSize : Int) (page : InfoPage) (texts : List (List UInt8)) : InfoPage :=
  texts.foldl (snprintf packetSize) page

theorem printAll_append (texts' : List (List UInt8)) :
    printAll packetSize page (texts ++ texts') =
      printAll packetSize (printAll packetSize page texts) texts' :=
  List.foldl_append

/-- The size that a call at a position in the packet is given. -/
theorem size_toNat {p size : ℕ} (hle : p ≤ size) (hsize : size < 2 ^ 31) :
    (UInt32.ofInt (addInt size (-p))).toNat = size - p := by
  rw [addInt, Int.bmod_eq_of_le (by omega) (by omega), UInt32.ofInt, UInt32.toNat_ofNat']
  omega

/-- What it writes ends in the packet. -/
theorem add_length_truncated {p size : ℕ} (hle : p ≤ size) (text : List UInt8) :
    p + (truncated (size - p) text).length ≤ size := by
  rw [truncated]
  split
  · rw [List.length_nil]
    omega
  · rw [List.length_append, List.length_take, List.length_singleton]
    omega

/-- **A page that fits** is written at positions in the packet. -/
theorem printAll_fits {size : ℕ} {texts : List (List UInt8)} (p : ℕ)
    (writes : List (Int × List UInt8)) (hsize : size < 2 ^ 31)
    (hfits : p + (texts.map List.length).sum ≤ size)
    (hwrites : ∀ w ∈ writes, 0 ≤ w.1 ∧ w.1 ≤ (size : Int) ∧ w.1 + w.2.length ≤ size) :
    InBuffer size (printAll size ⟨p, writes⟩ texts, true) ∧
      (printAll size ⟨p, writes⟩ texts).pos = (p + (texts.map List.length).sum : ℕ) := by
  induction texts generalizing p writes with
  | nil => exact ⟨⟨hwrites, rfl⟩, rfl⟩
  | cons text texts ih =>
    rw [List.map_cons, List.sum_cons] at hfits ⊢
    have hstep : snprintf size ⟨p, writes⟩ text =
        ⟨(p + text.length : ℕ), writes ++ [((p : Int), truncated (size - p) text)]⟩ := by
      rw [snprintf, BufferWrapper.addInt_of_lt (by omega), size_toNat (by omega) hsize]
    rw [printAll, List.foldl_cons, hstep]
    rw [← Nat.add_assoc] at hfits ⊢
    refine ih _ _ hfits fun w hw ↦ ?_
    rcases List.mem_append.1 hw with hw | hw
    · exact hwrites w hw
    · obtain rfl := List.mem_singleton.1 hw
      have hend := add_length_truncated (show p ≤ size by omega) text
      refine ⟨Int.natCast_nonneg p, ?_, ?_⟩
      · show (p : Int) ≤ size
        omega
      · show (p : Int) + (truncated (size - p) text).length ≤ size
        exact_mod_cast hend

/-- The writes of a page stay, whatever comes after them. -/
theorem mem_writes_printAll {w : Int × List UInt8} (hw : w ∈ page.writes) :
    w ∈ (printAll packetSize page texts).writes := by
  induction texts generalizing page with
  | nil => exact hw
  | cons text texts ih => exact ih (List.mem_append_left _ hw)

/-- **A page that does not fit** comes to a position behind the end, before another call or at the
end of the page. -/
theorem printAll_overflows {size : ℕ} {texts : List (List UInt8)} (p : ℕ)
    (writes : List (Int × List UInt8)) (hsize : size < 2 ^ 30)
    (htexts : ∀ text ∈ texts, text.length ≤ 2 ^ 30) (hle : p ≤ size)
    (hlt : size < p + (texts.map List.length).sum) :
    (size : Int) < (printAll size ⟨p, writes⟩ texts).pos ∨
      ∃ w ∈ (printAll size ⟨p, writes⟩ texts).writes, (size : Int) < w.1 := by
  induction texts generalizing p writes with
  | nil => exact absurd hlt (by simpa using hle)
  | cons text texts ih =>
    rw [List.forall_mem_cons] at htexts
    rw [List.map_cons, List.sum_cons] at hlt
    have hstep : snprintf size ⟨p, writes⟩ text =
        ⟨(p + text.length : ℕ), writes ++ [((p : Int), truncated (size - p) text)]⟩ := by
      rw [snprintf, BufferWrapper.addInt_of_lt (by omega), size_toNat hle (by omega)]
    rw [printAll, List.foldl_cons, hstep]
    rcases Nat.lt_or_ge size (p + text.length) with hbehind | hin
    · -- the position is behind the end; the next call, if there is one, is made there
      cases texts with
      | nil =>
        left
        show (size : Int) < (p + text.length : ℕ)
        exact_mod_cast hbehind
      | cons next texts =>
        rw [List.foldl_cons]
        generalize hpage : snprintf size ⟨(p + text.length : ℕ), _⟩ next = page
        have hmem : ∃ bytes, (((p + text.length : ℕ) : Int), bytes) ∈ page.writes := by
          rw [← hpage]
          exact ⟨_, List.mem_append_right _ (List.mem_singleton_self _)⟩
        obtain ⟨bytes, hmem⟩ := hmem
        refine Or.inr ⟨_, mem_writes_printAll hmem, ?_⟩
        show (size : Int) < (p + text.length : ℕ)
        exact_mod_cast hbehind
    · exact ih _ _ htexts.2 hin (by omega)

end InfoPage

/-! ### The texts of the page -/

/-- The texts about a ring. -/
def ringTexts (rs : RingSet) (i : Fin MAX_NUM_RINGS) : List (List UInt8) :=
  if rs.primaryRing i = [] then []
  else ringLine i :: (rs.primaryRing i).map fun n ↦ memberLine n ((rs.nodeLatencyUS[n]?).getD 0)

/-- The texts before and behind the rings. -/
def headTexts (hostname : HostName) : List (List UInt8) :=
  [ascii "HTTP/1.1 200 OK\r\n", ascii "Content-Type: text/html; charset=iso-8859-1\r\n\r\n",
    ascii "<HTML>\n<title>Meridian</title>\n<body>\n",
    ascii "<H2>Meridian node: " ++ hostname.chars ++ ascii "</H2>\n",
    ascii "<HR SIZE=\"0\">\n",
    ascii "<STRONG>Ring members of " ++ hostname.chars ++ ascii "</STRONG>\n",
    ascii "<TABLE cellspacing=\"3\" cellPadding=\"3\" width=\"100%\" border=\"1\">\n<TBODY>\n"]

@[inherit_doc headTexts]
def tailTexts (elapsedUS : Int32) : List (List UInt8) :=
  [ascii "</TBODY>\n</TABLE>\n",
    ascii "<BR>Time to create this page is " ++ fixedPoint 2 (thousandth elapsedUS.toInt) ++
      ascii " ms\n",
    ascii "\n</body>\n</HTML>"]

/-- All of them. -/
def infoTexts (rs : RingSet) (hostname : HostName) (elapsedUS : Int32) : List (List UInt8) :=
  headTexts hostname ++ ((List.finRange MAX_NUM_RINGS).flatMap (ringTexts rs) ++
    tailTexts elapsedUS)

section Texts

variable {getRingNumber : UInt32 → Fin MAX_NUM_RINGS} {rs : RingSet} {packetSize : Int}

open InfoPage

theorem infoMembers_eq {members : List NodeIdent} (hlat : ∀ n ∈ members, n ∈ rs.nodeLatencyUS)
    (page : InfoPage) : members.foldlM (infoMember rs packetSize) page =
      some (printAll packetSize page
        (members.map fun n ↦ memberLine n ((rs.nodeLatencyUS[n]?).getD 0))) := by
  induction members generalizing page with
  | nil => rfl
  | cons n members ih =>
    rw [List.forall_mem_cons] at hlat
    obtain ⟨latencyUS, hget⟩ :=
      Option.isSome_iff_exists.1 (Std.ExtTreeMap.isSome_getElem?_iff_mem.2 hlat.1)
    rw [List.foldlM_cons, infoMember, hget, List.map_cons, hget]
    exact ih hlat.2 _

theorem infoRing_eq (hinv : rs.Inv getRingNumber) (i : Fin MAX_NUM_RINGS) (page : InfoPage) :
    infoRing rs packetSize page i = some (printAll packetSize page (ringTexts rs i)) := by
  have hlat : ∀ n ∈ rs.primaryRing i, n ∈ rs.nodeLatencyUS := by
    intro n hn
    obtain ⟨latencyUS, hget, -⟩ := (hinv.mem_ring n i).1 (List.mem_append_left _ hn)
    rw [Std.ExtTreeMap.mem_iff_isSome_getElem?, hget]
    rfl
  rw [infoRing, ringTexts]
  by_cases hnil : rs.primaryRing i = []
  · rw [if_pos hnil, hnil]
    rfl
  · rw [if_neg hnil, if_pos (List.length_pos_iff.2 hnil)]
    exact infoMembers_eq hlat _

theorem infoRings_eq (hinv : rs.Inv getRingNumber) (rings : List (Fin MAX_NUM_RINGS))
    (page : InfoPage) : rings.foldlM (infoRing rs packetSize) page =
      some (printAll packetSize page (rings.flatMap (ringTexts rs))) := by
  induction rings generalizing page with
  | nil => rfl
  | cons i rings ih =>
    rw [List.foldlM_cons, infoRing_eq hinv, List.flatMap_cons, printAll_append]
    exact ih _

/-- The page in a new packet. -/
def infoPage (rs : RingSet) (hostname : HostName) (elapsedUS : Int32) : InfoPage :=
  printAll MAX_INFO_PACKET_SIZE.toNat ⟨(0 : ℕ), []⟩ (infoTexts rs hostname elapsedUS)

/-- **`getInfoPacket` prints the texts of the page**, one after another. -/
theorem getInfoPacket_eq (hinv : rs.Inv getRingNumber) (hostname : HostName) (elapsedUS : Int32)
    (dest : NodeIdentRendv) :
    getInfoPacket rs hostname elapsedUS (RealPacket.new dest MAX_INFO_PACKET_SIZE) =
      some (infoPage rs hostname elapsedUS, decide (0 ≤ (infoPage rs hostname elapsedUS).pos ∧
        (infoPage rs hostname elapsedUS).pos ≤ (MAX_INFO_PACKET_SIZE.toNat : Int))) := by
  simp only [getInfoPacket, infoRings_eq hinv, infoPage, infoTexts, printAll_append]
  rfl

theorem length_headTexts (hostname : HostName) :
    ((headTexts hostname).map List.length).sum = 247 + 2 * hostname.chars.length := by
  simp only [headTexts, List.map_cons, List.map_nil, List.sum_cons, List.sum_nil,
    List.length_append, length_ascii]
  generalize hostname.chars.length = n
  show 17 + (47 + (38 + (19 + n + 6 + (14 + (24 + n + 10 + (72 + 0)))))) = _
  omega

theorem length_tailTexts (elapsedUS : Int32) : ((tailTexts elapsedUS).map List.length).sum =
    70 + (fixedPoint 2 (thousandth elapsedUS.toInt)).length := by
  simp only [tailTexts, List.map_cons, List.map_nil, List.sum_cons, List.sum_nil,
    List.length_append, length_ascii]
  generalize (fixedPoint 2 (thousandth elapsedUS.toInt)).length = n
  show 18 + (32 + n + 4 + (16 + 0)) = _
  omega

theorem length_ringTexts (rs : RingSet) (i : Fin MAX_NUM_RINGS) :
    ((ringTexts rs i).map List.length).sum = ringLength rs i := by
  rw [ringTexts, ringLength]
  split
  · rfl
  · simp only [List.map_cons, List.sum_cons, List.map_map, Function.comp_def, length_ringLine,
      length_memberLine]

/-- **The page is as long as its texts.** -/
theorem length_infoTexts (rs : RingSet) (hostname : HostName) (elapsedUS : Int32) :
    ((infoTexts rs hostname elapsedUS).map List.length).sum =
      infoLength rs hostname elapsedUS := by
  have hrings : (((List.finRange MAX_NUM_RINGS).flatMap (ringTexts rs)).map List.length).sum =
      ((List.finRange MAX_NUM_RINGS).map (ringLength rs)).sum := by
    induction List.finRange MAX_NUM_RINGS with
    | nil => rfl
    | cons i rings ih =>
      rw [List.flatMap_cons, List.map_append, List.sum_append, ih, length_ringTexts,
        List.map_cons, List.sum_cons]
  rw [infoTexts, List.map_append, List.map_append, List.sum_append, List.sum_append, hrings,
    length_headTexts, length_tailTexts, infoLength]
  omega

/-- No text is near the size of an `int`. -/
theorem length_text_le (rs : RingSet) (hostname : HostName) (elapsedUS : Int32) :
    ∀ text ∈ infoTexts rs hostname elapsedUS, text.length ≤ 2 ^ 30 := by
  intro text htext
  rw [infoTexts, List.mem_append, List.mem_append] at htext
  rcases htext with hhead | hring | htail
  · have hlt : hostname.chars.length < 1024 := hostname.length_lt
    have hsum := List.le_sum_of_mem (List.mem_map_of_mem (f := List.length) hhead)
    rw [length_headTexts] at hsum
    omega
  · obtain ⟨i, -, hring⟩ := List.mem_flatMap.1 hring
    rw [ringTexts] at hring
    split at hring
    · exact absurd hring List.not_mem_nil
    · rcases List.mem_cons.1 hring with rfl | hring
      · rw [length_ringLine]
        omega
      · obtain ⟨n, -, rfl⟩ := List.mem_map.1 hring
        rw [length_memberLine]
        exact memberLength_le n _
  · have hsum := List.le_sum_of_mem (List.mem_map_of_mem (f := List.length) htail)
    have hle := length_elapsed_le elapsedUS
    rw [length_tailTexts] at hsum
    omega

/-- A page that is too long does not stay within its packet. -/
theorem not_inBuffer_of_lt (hinv : rs.Inv getRingNumber) {hostname : HostName} {elapsedUS : Int32}
    {dest : NodeIdentRendv} (hlt : MAX_INFO_PACKET_SIZE.toNat < infoLength rs hostname elapsedUS)
    {res : InfoPage × Bool} (hres : getInfoPacket rs hostname elapsedUS
      (RealPacket.new dest MAX_INFO_PACKET_SIZE) = some res) :
    ¬ InBuffer MAX_INFO_PACKET_SIZE.toNat res := by
  rintro ⟨hwrites, hcomplete⟩
  rw [getInfoPacket_eq hinv] at hres
  obtain rfl := Option.some.inj hres
  rw [← length_infoTexts] at hlt
  have hsize : MAX_INFO_PACKET_SIZE.toNat < 2 ^ 30 := by decide
  have hover := printAll_overflows 0 [] hsize (length_text_le rs hostname elapsedUS)
    (Nat.zero_le _) (by omega)
  rcases hover with hpos | ⟨w, hw, hpos⟩
  · exact absurd (of_decide_eq_true hcomplete).2 (not_le.2 hpos)
  · exact absurd (hwrites w hw).2.1 (not_le.2 hpos)

/-- **When the page stays within its packet**: just if it is not longer than the packet. -/
theorem getInfoPacket_inBuffer_iff (hinv : rs.Inv getRingNumber) (hostname : HostName)
    (elapsedUS : Int32) (dest : NodeIdentRendv) :
    (∃ res, getInfoPacket rs hostname elapsedUS (RealPacket.new dest MAX_INFO_PACKET_SIZE) =
      some res ∧ InBuffer MAX_INFO_PACKET_SIZE.toNat res) ↔
      infoLength rs hostname elapsedUS ≤ MAX_INFO_PACKET_SIZE.toNat := by
  constructor
  · rintro ⟨res, hres, hin⟩
    by_contra hlong
    exact not_inBuffer_of_lt hinv (Nat.lt_of_not_le hlong) hres hin
  · intro hle
    rw [← length_infoTexts] at hle
    obtain ⟨⟨hwrites, -⟩, hpos⟩ := printAll_fits 0 [] (by decide)
      ((Nat.zero_add _).trans_le hle) (List.forall_mem_nil _)
    refine ⟨_, getInfoPacket_eq hinv hostname elapsedUS dest, hwrites, decide_eq_true ?_⟩
    rw [infoPage, hpos, Nat.zero_add]
    exact ⟨Int.natCast_nonneg _, by exact_mod_cast hle⟩

end Texts

/-- Three members in two rings. -/
theorem getInfoPacket_inBuffer_threeMembers : ∃ rs,
    run (RingSet.step fun us ↦ if us ≤ 1000 then 0 else 1) (RingSet.new 16 4)
      [.insertNode ⟨0x0a000001, 80⟩ 10, .insertNode ⟨0x0a000002, 80⟩ 12345,
        .insertNode ⟨0x0a000003, 80⟩ 20] = some rs ∧
      (rs.primaryRing 0).length = 2 ∧ (rs.primaryRing 1).length = 1 ∧
      ∃ res, getInfoPacket rs ⟨ascii "meridian", by decide⟩ 250
        (RealPacket.new ⟨0, 0, 0, 0⟩ MAX_INFO_PACKET_SIZE) = some res ∧
        InBuffer MAX_INFO_PACKET_SIZE.toNat res := by
  have htest : (run (RingSet.step fun us ↦ if us ≤ 1000 then 0 else 1) (RingSet.new 16 4)
      [.insertNode ⟨0x0a000001, 80⟩ 10, .insertNode ⟨0x0a000002, 80⟩ 12345,
        .insertNode ⟨0x0a000003, 80⟩ 20]).any (fun rs ↦ decide ((rs.primaryRing 0).length = 2 ∧
      (rs.primaryRing 1).length = 1 ∧
      infoLength rs ⟨ascii "meridian", by decide⟩ 250 ≤ MAX_INFO_PACKET_SIZE.toNat)) = true := by
    decide +kernel
  obtain ⟨rs, hrun, htest⟩ := (Option.any_eq_true _ _).1 htest
  obtain ⟨hring₀, hring₁, hle⟩ := of_decide_eq_true htest
  have hinv := (RingSet.sound_of_run (by simp [RingSet.Call.Admissible]) hrun).inv
  exact ⟨rs, hrun, hring₀, hring₁, (getInfoPacket_inBuffer_iff hinv _ _ _).2 hle⟩

/-! ### A page that is too long -/

/-- A line about a member takes 43 characters at least. -/
theorem length_members_le (rs : RingSet) (i : Fin MAX_NUM_RINGS) (hostname : HostName)
    (elapsedUS : Int32) : 43 * (rs.primaryRing i).length ≤ infoLength rs hostname elapsedUS := by
  have hring : 43 * (rs.primaryRing i).length ≤ ringLength rs i := by
    rw [ringLength]
    split
    · next h => rw [h]; exact le_refl 0
    · have hsum := List.card_nsmul_le_sum ((rs.primaryRing i).map fun n ↦
        memberLength n ((rs.nodeLatencyUS[n]?).getD 0)) 43 ?_
      · rw [List.length_map, nsmul_eq_mul, Nat.cast_id] at hsum
        omega
      · intro x hx
        obtain ⟨n, -, rfl⟩ := List.mem_map.1 hx
        rw [memberLength]
        omega
  have hmem := List.le_sum_of_mem (List.mem_map_of_mem (f := ringLength rs) (List.mem_finRange i))
  rw [infoLength]
  omega

/-- The nodes of a large network. -/
def nodeAt (i : ℕ) : NodeIdent := ⟨UInt32.ofNat i, 1⟩

/-- A `RingSet` with the first `k` of them in one ring. -/
structure Crowded (k : ℕ) (rs : RingSet) : Prop where
  primaryRing : rs.primaryRing 0 = (List.range k).map nodeAt
  primarySize : rs.primarySize = 2000
  frozen : ∀ r, rs.ringFrozen r = false
  rendv : rs.rendvMapping = ∅
  fresh : ∀ i < 2000, k ≤ i → rs.nodeLatencyUS[nodeAt i]? = none

/-- The next node is appended. -/
theorem Crowded.insertNode {k : ℕ} {rs : RingSet} (h : Crowded k rs) (hk : k < 2000) :
    ∃ rs', RingSet.step (fun _ ↦ 0) rs (.insertNode (nodeAt k) 0) = some rs' ∧
      Crowded (k + 1) rs' := by
  obtain ⟨hprim, hsize, hfrozen, hrendv, hfresh⟩ := h
  have hroom : (rs.primaryRing 0).length < rs.primarySize.toNat := by
    rw [hprim, hsize, List.length_map, List.length_range]
    exact hk
  have hstep : RingSet.step (fun _ ↦ 0) rs (.insertNode (nodeAt k) 0) =
      some { rs.setRing 0 (rs.primaryRing 0 ++ [nodeAt k]) (rs.secondaryRing 0) with
        nodeLatencyUS := rs.nodeLatencyUS.insert (nodeAt k) 0 } := by
    simp [RingSet.step, RingSet.insertNode, RingSet.insertNodeRendv, RingSet.storeRendv, hrendv,
      hfrozen, hfresh k hk (le_refl k), RingSet.pushNode, hroom]
    rfl
  refine ⟨_, hstep, ?_, hsize, hfrozen, hrendv, fun i hi hki ↦ ?_⟩
  · show Function.update rs.primaryRing 0 (rs.primaryRing 0 ++ [nodeAt k]) 0 = _
    rw [Function.update_self, hprim, List.range_succ, List.map_append]
    rfl
  · have hne : nodeAt k ≠ nodeAt i := by
      intro heq
      have haddr := congrArg (fun n ↦ n.addr.toNat) heq
      simp only [nodeAt, UInt32.toNat_ofNat'] at haddr
      omega
    show (rs.nodeLatencyUS.insert (nodeAt k) 0)[nodeAt i]? = none
    rw [Lib.getElem?_insert_of_ne hne.symm]
    exact hfresh i hi (Nat.le_of_succ_le hki)

theorem crowded_of_run {k : ℕ} (hk : k ≤ 2000) : ∃ rs,
    run (RingSet.step fun _ ↦ 0) (RingSet.new 2000 1)
      ((List.range k).map fun i ↦ .insertNode (nodeAt i) 0) = some rs ∧ Crowded k rs := by
  induction k with
  | zero => exact ⟨_, rfl, rfl, rfl, fun _ ↦ rfl, rfl, fun _ _ _ ↦ Std.ExtTreeMap.getElem?_empty⟩
  | succ k ih =>
    obtain ⟨rs, hrun, hc⟩ := ih (Nat.le_of_succ_le hk)
    obtain ⟨rs', hstep, hc'⟩ := hc.insertNode hk
    refine ⟨rs', ?_, hc'⟩
    rw [List.range_succ, List.map_append, run_append, hrun]
    exact run_cons_eq_some.2 ⟨rs', hstep, rfl⟩

/-- Rings of 2000 members, and as many nodes with the same latency. -/
theorem getInfoPacket_overflows : ∃ rs,
    run (RingSet.step fun _ ↦ 0) (RingSet.new 2000 1)
      ((List.range 2000).map fun i ↦ .insertNode (nodeAt i) 0) = some rs ∧
    ¬ ∃ res, getInfoPacket rs ⟨[], by decide⟩ 0
      (RealPacket.new ⟨0, 0, 0, 0⟩ MAX_INFO_PACKET_SIZE) = some res ∧
      InBuffer MAX_INFO_PACKET_SIZE.toNat res := by
  obtain ⟨rs, hrun, hc⟩ := crowded_of_run (le_refl 2000)
  have hinv : rs.Inv fun _ ↦ 0 := (RingSet.sound_of_run (fun c hc ↦ by
    obtain ⟨i, -, rfl⟩ := List.mem_map.1 hc
    trivial) hrun).inv
  have hlong := length_members_le rs 0 ⟨[], by decide⟩ 0
  rw [hc.primaryRing, List.length_map, List.length_range] at hlong
  have hsize : MAX_INFO_PACKET_SIZE.toNat = 65536 := rfl
  refine ⟨rs, hrun, ?_⟩
  rintro ⟨res, hres, hin⟩
  exact not_inBuffer_of_lt hinv (by omega) hres hin

end Meridian

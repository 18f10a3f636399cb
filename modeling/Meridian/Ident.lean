import Meridian.Lib.Maps
import Mathlib.Data.List.Basic
import Mathlib.Data.List.Perm.Basic
import Std.Data.ExtTreeMap
import Std.Data.ExtTreeSet

/-!
# Node identities

The address records of `Marshal.h` and the orders the containers are keyed with. Every container of
the source that is keyed by a node uses one of `ltNodeIdent`, `ltNodeIdentConst` and
`ltNodeIdentRendv`, and all three compare the address and then the port **only**: the constraint and
the rendavous of an entry are payload, not part of the key. So one comparison, `cmpNodeIdent`,
carries all of them, and `map`, `set` and their iteration order are the standard library's ordered
maps and sets at that comparison.

## The machine

The program is modelled as it is built for a 32-bit x86: an `int`, a `long` and a `size_t` have 32
bits. So `int` arithmetic wraps there, the size that `snprintf` is given and a time in microseconds
are numbers of 32 bits, and `lrint` and `atoi` have the range of an `int`. An operation on `double`s
is exact up to one rounding.
-/

namespace Meridian

/-- `NodeIdent_t`. -/
structure NodeIdent where
  addr : UInt32
  port : UInt16
  deriving DecidableEq, Repr, Inhabited

/-- `NodeIdentRendv_t`. The rendavous port is a 32-bit field in the source. -/
structure NodeIdentRendv where
  addr : UInt32
  port : UInt16
  addrRendv : UInt32
  portRendv : UInt32
  deriving DecidableEq, Repr, Inhabited

/-- `NodeIdentConst_t`. -/
structure NodeIdentConst where
  addr : UInt32
  port : UInt16
  latencyConstMS : UInt32
  deriving DecidableEq, Repr, Inhabited

/-- `NodeIdentLat_t`, and `MeasuredResult_t`, which has the same fields. -/
structure NodeIdentLat where
  addr : UInt32
  port : UInt16
  latencyUS : UInt32
  deriving DecidableEq, Repr, Inhabited

/-- The key part of an entry. -/
def NodeIdentRendv.ident (n : NodeIdentRendv) : NodeIdent := ⟨n.addr, n.port⟩

@[inherit_doc NodeIdentRendv.ident]
def NodeIdentConst.ident (n : NodeIdentConst) : NodeIdent := ⟨n.addr, n.port⟩

@[inherit_doc NodeIdentRendv.ident]
def NodeIdentLat.ident (n : NodeIdentLat) : NodeIdent := ⟨n.addr, n.port⟩

/-! ### The order -/

/-- `ltNodeIdent::operator()`. -/
def ltNodeIdent (s1 s2 : NodeIdent) : Bool :=
  s1.addr < s2.addr || (s1.addr == s2.addr && s1.port < s2.port)

/-- `ltNodeIdent` as a three-way comparison: address first, then port. -/
def cmpNodeIdent : NodeIdent → NodeIdent → Ordering :=
  compareLex (compareOn NodeIdent.addr) (compareOn NodeIdent.port)

theorem cmpNodeIdent_eq_lt (s1 s2 : NodeIdent) :
    cmpNodeIdent s1 s2 = .lt ↔ ltNodeIdent s1 s2 = true := by
  simp [cmpNodeIdent, ltNodeIdent, compareLex, compareOn, Ordering.then_eq_lt, Std.compare_eq_lt]

instance : Std.TransCmp cmpNodeIdent :=
  inferInstanceAs (Std.TransCmp (compareLex _ _))

instance : Std.LawfulEqCmp cmpNodeIdent where
  eq_of_compare := by
    intro a b h
    simp only [cmpNodeIdent, compareLex, compareOn, Ordering.then_eq_eq,
      Std.LawfulEqOrd.compare_eq_iff_eq] at h
    cases a
    cases b
    simp_all

instance : Ord NodeIdent := ⟨cmpNodeIdent⟩

instance : Std.TransOrd NodeIdent := inferInstanceAs (Std.TransCmp cmpNodeIdent)

instance : Std.LawfulEqOrd NodeIdent := inferInstanceAs (Std.LawfulEqCmp cmpNodeIdent)

/-- `map<NodeIdent, β, ltNodeIdent>`. -/
abbrev NodeMap (β : Type*) := Std.ExtTreeMap NodeIdent β

/-- `set<NodeIdent, ltNodeIdent>`. -/
abbrev NodeSet := Std.ExtTreeSet NodeIdent

/-! ### Keys and sizes -/

section Keys

variable {α β : Type*} {m : NodeMap α} {m' : NodeMap β} {n k : NodeIdent}

theorem mem_insert_iff {v : α} : k ∈ m.insert n v ↔ k = n ∨ k ∈ m := by
  rw [Std.ExtTreeMap.mem_insert, Std.LawfulEqCmp.compare_eq_iff_eq, eq_comm]

theorem mem_insertIfNew_iff {v : α} : k ∈ m.insertIfNew n v ↔ k = n ∨ k ∈ m := by
  rw [Std.ExtTreeMap.mem_insertIfNew, Std.LawfulEqCmp.compare_eq_iff_eq, eq_comm]

/-- The keys of a map without repetition, as many as its size. -/
theorem nodup_keys (m : NodeMap α) : m.keys.Nodup := by
  refine m.distinct_keys.imp fun {a b} h ↦ ?_
  rintro rfl
  exact h Std.ReflCmp.compare_self

theorem keys_subperm (hsub : ∀ n ∈ m', n ∈ m) : m'.keys.Subperm m.keys :=
  List.subperm_of_subset (nodup_keys m') fun n hn ↦
    Std.ExtTreeMap.mem_keys.2 (hsub n (Std.ExtTreeMap.mem_keys.1 hn))

/-- Fewer keys: no larger size. -/
theorem size_le_of_subset (hsub : ∀ n ∈ m', n ∈ m) : m'.size ≤ m.size := by
  rw [← Std.ExtTreeMap.length_keys, ← Std.ExtTreeMap.length_keys]
  exact (keys_subperm hsub).length_le

/-- Fewer keys and the same size: the same keys. -/
theorem mem_iff_of_size_eq (hsub : ∀ n ∈ m', n ∈ m) (hsize : m'.size = m.size) :
    n ∈ m' ↔ n ∈ m := by
  have hlength : m'.keys.length = m.keys.length := by
    rw [Std.ExtTreeMap.length_keys, Std.ExtTreeMap.length_keys, hsize]
  have hperm : m'.keys.Perm m.keys := (keys_subperm hsub).perm_of_length_le (Nat.le_of_eq hlength.symm)
  rw [← Std.ExtTreeMap.mem_keys, ← Std.ExtTreeMap.mem_keys, hperm.mem_iff]

/-- The same keys: the same size. -/
theorem size_eq_of_mem_iff (h : ∀ n, n ∈ m' ↔ n ∈ m) : m'.size = m.size := by
  have hperm : m'.keys.Perm m.keys :=
    (List.perm_ext_iff_of_nodup (nodup_keys m') (nodup_keys m)).2 fun n ↦ by
      rw [Std.ExtTreeMap.mem_keys, Std.ExtTreeMap.mem_keys, h n]
  rw [← Std.ExtTreeMap.length_keys, ← Std.ExtTreeMap.length_keys, hperm.length_eq]

/-- The key of an entry is a key. -/
theorem mem_of_mem_toList {e : NodeIdent × α} (h : e ∈ m.toList) : e.1 ∈ m := by
  have hget := (Std.ExtTreeMap.mem_toList_iff_getElem?_eq_some (k := e.1) (v := e.2)).1 h
  rw [Std.ExtTreeMap.mem_iff_isSome_getElem?, hget]
  rfl

end Keys

/-! ### Maps from lists -/

section OfList

variable {β : Type*} {l : List (NodeIdent × β)}

theorem mem_toList_ofList (h : l.Pairwise fun a b ↦ ¬ compare a.1 b.1 = .eq) (e : NodeIdent × β) :
    e ∈ (Std.ExtTreeMap.ofList l compare).toList ↔ e ∈ l := by
  rw [show e = (e.1, e.2) from rfl, Std.ExtTreeMap.mem_toList_iff_getElem?_eq_some]
  constructor
  · intro hget
    rcases hc : (l.map Prod.fst).contains e.1 with - | -
    · rw [Std.ExtTreeMap.getElem?_ofList_of_contains_eq_false hc] at hget
      exact absurd hget (by simp)
    · obtain ⟨x, hx, hxk⟩ := List.mem_map.1 (List.contains_iff_mem.1 hc)
      have hval : (Std.ExtTreeMap.ofList l compare)[e.1]? = some x.2 :=
        Std.ExtTreeMap.getElem?_ofList_of_mem (by rw [hxk]; exact Std.ReflCmp.compare_self) h hx
      rw [hget, Option.some.injEq] at hval
      rw [hval, ← hxk]
      exact hx
  · intro hmem
    exact Std.ExtTreeMap.getElem?_ofList_of_mem Std.ReflCmp.compare_self h hmem

/-- A map built from sorted entries lists them as they were given. -/
theorem toList_ofList_of_sorted (h : l.Pairwise fun a b ↦ compare a.1 b.1 = .lt) :
    (Std.ExtTreeMap.ofList l compare).toList = l := by
  have hlt : ∀ {a b : NodeIdent × β}, compare a.1 b.1 = .lt → ¬ compare a.1 b.1 = .eq :=
    fun hlt heq ↦ absurd (hlt.symm.trans heq) (by decide)
  have hne : ∀ {a b : NodeIdent × β}, compare a.1 b.1 = .lt → a ≠ b := by
    rintro a _ hlt' rfl
    exact hlt hlt' Std.ReflCmp.compare_self
  -- both sides are sorted by a strict order and have the same members
  have hsorted := Std.ExtTreeMap.ordered_keys_toList (t := Std.ExtTreeMap.ofList l compare)
  refine List.Perm.eq_of_pairwise (fun a b _ _ hab hba ↦ ?_) hsorted h ?_
  · have hswap : compare a.1 b.1 = (compare b.1 a.1).swap := Std.OrientedCmp.eq_swap
    rw [hab, hba] at hswap
    exact absurd hswap (by decide)
  · exact (List.perm_ext_iff_of_nodup (hsorted.imp hne) (h.imp hne)).2
      (mem_toList_ofList (h.imp hlt))

end OfList

end Meridian

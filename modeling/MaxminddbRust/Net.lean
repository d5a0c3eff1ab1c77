import Mathlib.Data.List.Basic
import Mathlib.Tactic.Common
import Mathlib.Algebra.Group.Nat.Defs

/-!
Addresses and networks: `std::net::IpAddr` and `ipnetwork::IpNetwork`.

* `IpAddr`, `IpNetwork`: an address is its numeric value in its family's width, a network is an
  address and a prefix length.
* `msbBits`: the bits of a word from the most significant down, the order in which a search tree
  reads them; `msbBits_setWidth`, `setWidth_setWidth_of_msbBits` (zero extension is zeros in
  front), `toNat_mod_of_drop_msbBits` (zeros at the end are a power of two).
-/

namespace MaxminddbRust

/-! ### The bits of a word -/

/-- The bits of a word, most significant first. -/
def msbBits {n : ℕ} (x : BitVec n) : List Bool := (List.range n).map x.getMsbD

@[simp] lemma length_msbBits {n : ℕ} (x : BitVec n) : (msbBits x).length = n := by
  simp [msbBits]

lemma getElem_msbBits {n : ℕ} (x : BitVec n) {i : ℕ} (h : i < (msbBits x).length) :
    (msbBits x)[i] = x.getMsbD i := by
  simp [msbBits]

lemma msbBits_injective {n : ℕ} : Function.Injective (msbBits (n := n)) := by
  intro x y h
  refine BitVec.eq_of_getMsbD_eq fun i hi => ?_
  have hx := getElem_msbBits x (i := i) (by simpa using hi)
  have hy := getElem_msbBits y (i := i) (by simpa using hi)
  rw [← hx, ← hy]
  simp only [h]

/-- Zero extension writes the new bits in front. -/
lemma msbBits_setWidth {m n : ℕ} (x : BitVec n) :
    msbBits (x.setWidth (m + n)) = List.replicate m false ++ msbBits x := by
  refine List.ext_getElem (by simp) fun i h1 h2 => ?_
  rw [getElem_msbBits, BitVec.getMsbD_setWidth]
  by_cases hi : i < m
  · rw [List.getElem_append_left (by simpa using hi), List.getElem_replicate]
    have hi' : ¬m ≤ i := by omega
    simp [hi']
  · rw [List.getElem_append_right (by simpa using hi), getElem_msbBits]
    have hi' : m ≤ i := by omega
    have hsub : i + n - (m + n) = i - m := by omega
    simp [hi', hsub]

/-- A word whose bits behind the first `k` are zeros is a multiple of their power of two. -/
lemma toNat_mod_of_drop_msbBits {n k : ℕ} (hk : k ≤ n) {x : BitVec n}
    (h : (msbBits x).drop k = List.replicate (n - k) false) : x.toNat % 2 ^ (n - k) = 0 := by
  refine Nat.eq_of_testBit_eq fun i => ?_
  rw [Nat.testBit_mod_two_pow, Nat.zero_testBit]
  by_cases hi : i < n - k
  · have hbit : ((msbBits x).drop k)[n - 1 - i - k]? = some false := by
      rw [h, List.getElem?_replicate, if_pos (by omega)]
    have hidx : k + (n - 1 - i - k) = n - 1 - i := by omega
    rw [List.getElem?_drop, hidx, List.getElem?_eq_getElem (by simp; omega), getElem_msbBits,
      BitVec.getMsbD_eq_getLsbD] at hbit
    have hlsb : n - 1 - (n - 1 - i) = i := by omega
    simp only [hlsb, Option.some.injEq] at hbit
    have hlt : n - 1 - i < n := by omega
    simpa [hi, hlt, BitVec.testBit_toNat] using hbit
  · simp [hi]

/-- A word with zeros in front is the extension of what is behind them. -/
lemma setWidth_setWidth_of_msbBits {m n : ℕ} {x : BitVec (m + n)}
    (h : (msbBits x).take m = List.replicate m false) : (x.setWidth n).setWidth (m + n) = x := by
  refine msbBits_injective ?_
  rw [msbBits_setWidth]
  refine List.ext_getElem (by simp) fun i h1 h2 => ?_
  by_cases hi : i < m
  · have hbit : ((msbBits x).take m)[i]? = some false := by
      rw [h, List.getElem?_replicate, if_pos hi]
    rw [List.getElem?_take_of_lt hi, List.getElem?_eq_getElem h2, Option.some.injEq] at hbit
    rw [List.getElem_append_left (by simpa using hi), List.getElem_replicate, hbit]
  · have hi' : i - m < n := by
      have : i < m + n := by simpa using h2
      omega
    rw [List.getElem_append_right (by simpa using hi), getElem_msbBits, getElem_msbBits,
      BitVec.getMsbD_setWidth]
    have hsub : i - (List.replicate m false).length + (m + n) - n = i := by
      rw [List.length_replicate]
      omega
    rw [hsub]
    simp

/-! ### Addresses and networks -/

/-- `std::net::IpAddr`: an address is its numeric value. -/
inductive IpAddr where
  | V4 (addr : BitVec 32)
  | V6 (addr : BitVec 128)
  deriving DecidableEq, Repr

namespace IpAddr

/-- The width of the family. -/
def width : IpAddr → ℕ
  | V4 _ => 32
  | V6 _ => 128

/-- The bits of the address, most significant first. -/
def bits : IpAddr → List Bool
  | V4 a => msbBits a
  | V6 a => msbBits a

/-- The numeric value of an address. -/
def toNat : IpAddr → ℕ
  | V4 a => a.toNat
  | V6 a => a.toNat

/-- Two addresses of one family. -/
def SameFamily : IpAddr → IpAddr → Prop
  | V4 _, V4 _ => True
  | V6 _, V6 _ => True
  | _, _ => False

@[simp] lemma length_bits (a : IpAddr) : a.bits.length = a.width := by
  cases a <;> simp [bits, width]

lemma SameFamily.symm {a b : IpAddr} (h : a.SameFamily b) : b.SameFamily a := by
  cases a <;> cases b <;> exact h

lemma SameFamily.trans {a b c : IpAddr} (h : a.SameFamily b) (h' : b.SameFamily c) :
    a.SameFamily c := by
  cases a <;> cases b <;> cases c <;> first | exact h | exact h' | exact h.elim

lemma SameFamily.width_eq {a b : IpAddr} (h : a.SameFamily b) : a.width = b.width := by
  cases a <;> cases b <;> first | rfl | exact h.elim

lemma SameFamily.isV4_iff {a b : IpAddr} (h : a.SameFamily b) :
    (∃ v, a = V4 v) ↔ ∃ v, b = V4 v := by
  cases a <;> cases b <;> first | exact h.elim | simp

/-- An address without host bits is a multiple of the size of its block. -/
lemma toNat_mod_of_drop_bits {a : IpAddr} {k : ℕ} (hk : k ≤ a.width)
    (h : a.bits.drop k = List.replicate (a.width - k) false) :
    a.toNat % 2 ^ (a.width - k) = 0 := by
  cases a with
  | V4 v => exact toNat_mod_of_drop_msbBits hk h
  | V6 v => exact toNat_mod_of_drop_msbBits hk h

/-- The IPv6 address `::v` of an IPv4 address `v`. -/
def v4Compatible (v : BitVec 32) : IpAddr := V6 (v.setWidth 128)

lemma bits_v4Compatible (v : BitVec 32) :
    (v4Compatible v).bits = List.replicate 96 false ++ (V4 v).bits :=
  msbBits_setWidth (m := 96) v

end IpAddr

/-- `ipnetwork::IpNetwork`: the address it was made from and its prefix length. -/
inductive IpNetwork where
  | V4 (ip : BitVec 32) (prefixLen : ℕ)
  | V6 (ip : BitVec 128) (prefixLen : ℕ)
  deriving DecidableEq, Repr

namespace IpNetwork

/-- `IpNetwork::prefix`. -/
def prefixLen : IpNetwork → ℕ
  | V4 _ n => n
  | V6 _ n => n

/-- `IpNetwork::ip`. -/
def ip : IpNetwork → IpAddr
  | V4 a _ => .V4 a
  | V6 a _ => .V6 a

end IpNetwork

end MaxminddbRust

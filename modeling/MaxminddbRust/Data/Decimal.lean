import Mathlib.Tactic.Common
import Mathlib.Algebra.Group.Nat.Defs

/-!
Decimal numerals as bytes.

* `digits`: the ASCII bytes of the numeral of `n`, which has no leading zeros.
* `digits_of_lt`, `digits_snoc`: a numeral below ten is one digit; otherwise the last digit
  comes off the end. These two determine it.
* `digits_cases`: so a numeral is read by recursion on a tenth of its value.
* `mem_digits`: which bytes occur; `length_digits_le`: at most `k` digits below `10 ^ k`.
-/

namespace Decimal

/-- The byte of an ASCII character. -/
def charByte (c : Char) : UInt8 := UInt8.ofNat c.toNat

/-- The bytes of the decimal numeral of `n`. -/
def digits (n : ℕ) : List UInt8 := (Nat.toDigits 10 n).map charByte

/-- The byte of the digit `d`. -/
def digitByte (d : ℕ) : UInt8 := UInt8.ofNat (48 + d)

lemma charByte_digitChar : ∀ d < 10, charByte (Nat.digitChar d) = digitByte d := by decide

lemma digits_of_lt {d : ℕ} (h : d < 10) : digits d = [digitByte d] := by
  rw [digits, Nat.toDigits_of_lt_base h, List.map_singleton, charByte_digitChar d h]

/-- The bytes of a numeral are those of the digits `0` to `9`. -/
lemma mem_digits {n : ℕ} {b : UInt8} (h : b ∈ digits n) : 48 ≤ b.toNat ∧ b.toNat ≤ 57 := by
  obtain ⟨c, hc, rfl⟩ := List.mem_map.mp h
  have hdigit := Char.isDigit_iff_toNat.mp (Nat.isDigit_of_mem_toDigits (by omega) (by omega) hc)
  have h48 : 48 ≤ c.toNat := hdigit.1
  have h57 : c.toNat ≤ 57 := hdigit.2
  have hbyte : (charByte c).toNat = c.toNat :=
    UInt8.toNat_ofNat_of_lt' (show c.toNat < 256 by omega)
  exact ⟨by omega, by omega⟩

/-- The last digit comes off the end. -/
lemma digits_snoc {v d : ℕ} (hv : 0 < v) (hd : d < 10) :
    digits (v * 10 + d) = digits v ++ [digitByte d] := by
  have hdiv : (v * 10 + d) / 10 = v := by omega
  have hmod : (v * 10 + d) % 10 = d := by omega
  rw [digits, Nat.toDigits_of_base_le (by omega) (by omega), hdiv, hmod, List.map_append,
    List.map_singleton, charByte_digitChar d hd, digits]

lemma length_digits_pos (n : ℕ) : 0 < (digits n).length := by
  rw [digits, List.length_map]
  exact Nat.length_toDigits_pos

lemma length_digits_le {n k : ℕ} (hk : 0 < k) (h : n < 10 ^ k) : (digits n).length ≤ k := by
  rw [digits, List.length_map, Nat.length_toDigits_le_iff (by omega) hk]
  exact h

/-- **The digits of a numeral, from the front**: it is one digit, or the numeral of a tenth of
its value with one digit behind it. -/
lemma digits_cases (n : ℕ) :
    n < 10 ∧ digits n = [digitByte n] ∨
      10 ≤ n ∧ digits n = digits (n / 10) ++ [digitByte (n % 10)] := by
  by_cases h : n < 10
  · exact Or.inl ⟨h, digits_of_lt h⟩
  · have hn : n = n / 10 * 10 + n % 10 := by omega
    refine Or.inr ⟨by omega, ?_⟩
    calc digits n = digits (n / 10 * 10 + n % 10) := by rw [← hn]
      _ = digits (n / 10) ++ [digitByte (n % 10)] :=
          digits_snoc (by omega) (Nat.mod_lt n (by omega))

lemma toNat_digitByte {d : ℕ} (h : d < 10) : (digitByte d).toNat = 48 + d :=
  UInt8.toNat_ofNat_of_lt' (show 48 + d < 256 by omega)

end Decimal

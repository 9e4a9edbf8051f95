/-
**Hexadecimal numerals.**

Numbers are printed in lowercase hexadecimal, filled up with zeros to a fixed width, and read back.
This module has both directions and what connects them, and the passage from a number to its bytes.

Main definitions:

* `HexNumeral.value` — the number that a numeral spells;
* `HexNumeral.padded` — the numeral of a number, filled up with zeros;
* `HexNumeral.bytes` — the digits of a number to the base 256, the lowest first.

Main results:

* `HexNumeral.value_padded` — **reading back what was printed**;
* `HexNumeral.length_padded` — the width of a numeral.
-/

import Mathlib.Data.Nat.Digits.Lemmas

set_option relaxedAutoImplicit false
set_option autoImplicit false

namespace HexNumeral

/-! ### Digits -/

/-- `[0-9a-f]` -/
def isDigit (c : Char) : Bool := c.isDigit || ('a' ≤ c && c ≤ 'f')

/-- The value of a digit. -/
def digit (c : Char) : ℕ := if c.toNat < 97 then c.toNat - 48 else c.toNat - 87

theorem digitChar_spec {d : ℕ} (hd : d < 16) :
    isDigit d.digitChar = true ∧ digit d.digitChar = d := by
  have hall : ∀ d < 16, isDigit d.digitChar = true ∧ digit d.digitChar = d := by decide
  exact hall d hd

theorem toNat_le_of_isDigit {c : Char} (h : isDigit c = true) : 48 ≤ c.toNat ∧ c.toNat ≤ 102 := by
  rw [isDigit, Bool.or_eq_true, Bool.and_eq_true, decide_eq_true_eq, decide_eq_true_eq] at h
  rcases h with hdigit | ⟨hge, hle⟩
  · obtain ⟨hge, hle⟩ := Bool.and_eq_true_iff.1 hdigit
    have hge' : '0'.val ≤ c.val := of_decide_eq_true hge
    have hle' : c.val ≤ '9'.val := of_decide_eq_true hle
    exact ⟨UInt32.le_iff_toNat_le.1 hge',
      (UInt32.le_iff_toNat_le.1 hle').trans (by decide)⟩
  · exact ⟨le_trans (by decide) (UInt32.le_iff_toNat_le.1 hge), UInt32.le_iff_toNat_le.1 hle⟩

/-! ### Numerals -/

/-- The number that a numeral spells. -/
def value (t : List Char) : ℕ := t.foldl (fun v c => 16 * v + digit c) 0

theorem value_concat (t : List Char) (c : Char) : value (t ++ [c]) = 16 * value t + digit c := by
  rw [value, List.foldl_append]
  rfl

/-- Zeros in front do not matter. -/
theorem value_replicate_append (k : ℕ) (t : List Char) :
    value (List.replicate k '0' ++ t) = value t := by
  have hzero : ∀ k, (List.replicate k '0').foldl (fun v c => 16 * v + digit c) 0 = 0 := by
    intro k
    induction k with
    | zero => rfl
    | succ k ih => exact ih
  rw [value, List.foldl_append, hzero, value]

/-- The numeral of a number, filled up with zeros to the width `k`. -/
def padded (k n : ℕ) : List Char := (Nat.toDigits 16 n).leftpad k '0'

theorem padded_eq (k n : ℕ) :
    padded k n = List.replicate (k - (Nat.toDigits 16 n).length) '0' ++ Nat.toDigits 16 n := rfl

theorem toDigits_spec (n : ℕ) :
    value (Nat.toDigits 16 n) = n ∧ ∀ c ∈ Nat.toDigits 16 n, isDigit c = true := by
  induction n using Nat.strong_induction_on with
  | _ n ih =>
      rw [Nat.toDigits_eq_if (by norm_num)]
      by_cases hn : n < 16
      · obtain ⟨hdigit, hvalue⟩ := digitChar_spec hn
        rw [if_pos hn]
        exact ⟨by simpa [value] using hvalue, by simpa using hdigit⟩
      · obtain ⟨hdigit, hvalue⟩ := digitChar_spec (Nat.mod_lt n (show 0 < 16 by norm_num))
        obtain ⟨hval, hall⟩ := ih (n / 16) (Nat.div_lt_self (by omega) (by norm_num))
        rw [if_neg hn, value_concat, hval, hvalue]
        refine ⟨by omega, fun c hc => ?_⟩
        rcases List.mem_append.1 hc with hc | hc
        · exact hall c hc
        · rw [List.mem_singleton.1 hc]
          exact hdigit

/-- **Reading back what was printed.** -/
theorem value_padded (k n : ℕ) : value (padded k n) = n := by
  rw [padded_eq, value_replicate_append, (toDigits_spec n).1]

theorem isDigit_of_mem_padded {k n : ℕ} {c : Char} (hc : c ∈ padded k n) : isDigit c = true := by
  rcases List.mem_append.1 hc with hc | hc
  · rw [List.eq_of_mem_replicate hc]
    decide
  · exact (toDigits_spec n).2 c hc

/-- **The width of a numeral.** -/
theorem length_padded {k n : ℕ} (hk : 0 < k) (hn : n < 16 ^ k) : (padded k n).length = k := by
  have hle := (Nat.length_toDigits_le_iff (by norm_num) hk).2 hn
  rw [padded_eq, List.length_append, List.length_replicate]
  omega

/-! ### Bytes -/

/-- The digits of a number to the base 256, the lowest first. -/
def bytes : ℕ → ℕ → List UInt8
  | 0, _ => []
  | k + 1, n => UInt8.ofNat n :: bytes k (n / 256)

/-- The number that bytes spell, the lowest byte first. -/
def ofBytes : List UInt8 → ℕ
  | [] => 0
  | b :: bs => b.toNat + 256 * ofBytes bs

theorem ofBytes_lt (bs : List UInt8) : ofBytes bs < 256 ^ bs.length := by
  induction bs with
  | nil => decide
  | cons b bs ih =>
      have hb := b.toNat_lt
      rw [ofBytes, List.length_cons, pow_succ]
      omega

/-- The bytes of the number that bytes spell. -/
theorem bytes_ofBytes (bs : List UInt8) : bytes bs.length (ofBytes bs) = bs := by
  induction bs with
  | nil => rfl
  | cons b bs ih =>
      have hb := b.toNat_lt
      have hlow : UInt8.ofNat (b.toNat + 256 * ofBytes bs) = b := by
        refine UInt8.toNat_inj.1 ?_
        rw [UInt8.toNat_ofNat']
        omega
      have hhigh : (b.toNat + 256 * ofBytes bs) / 256 = ofBytes bs := by omega
      rw [List.length_cons, ofBytes, bytes, hlow, hhigh, ih]

end HexNumeral

/-
**Bit fields of machine words.**

Programs take machine words apart with shifts and masks, while a specification speaks of the bits
`lo, …, hi - 1` of a word or of the number they spell.  This module relates the two: what a mask
of consecutive ones selects, what a shift followed by a mask selects, and what clearing one bit
changes.

Main definitions:

* `BitField.field` — the number whose binary digits are those of `x` from `lo` on, below `hi`, and
  `0` elsewhere;
* `BitField.clearBitOf` — a word with one bit cleared.

Main results:

* `BitField.toNat_and_mask` — masking with consecutive ones selects a field;
* `BitField.toNat_shiftRight_and` — shifting and masking selects a digit;
* `BitField.field_clearBitOf` — a field does not see the clearing of a bit above it.
-/

import Mathlib.Data.Nat.Bitwise
import Mathlib.Tactic.Positivity

set_option relaxedAutoImplicit false
set_option autoImplicit false

namespace BitField

/-! ### Fields -/

/-- The bits `lo, …, hi - 1` of `x`, in place. -/
def field (lo hi x : ℕ) : ℕ := x % 2 ^ hi / 2 ^ lo * 2 ^ lo

theorem testBit_field (lo hi x i : ℕ) :
    (field lo hi x).testBit i = (decide (lo ≤ i ∧ i < hi) && x.testBit i) := by
  rw [field, Nat.testBit_mul_two_pow, Nat.testBit_div_two_pow, Nat.testBit_mod_two_pow]
  by_cases h : lo ≤ i
  · have hi' : i - lo + lo = i := by omega
    simp [h, hi']
  · simp [h]

theorem dvd_field (lo hi x : ℕ) : 2 ^ lo ∣ field lo hi x := Dvd.intro_left _ rfl

theorem field_lt (lo hi x : ℕ) : field lo hi x < 2 ^ hi :=
  lt_of_le_of_lt (Nat.div_mul_le_self _ _) (Nat.mod_lt _ (by positivity))

/-- **Masking with consecutive ones selects a field.** -/
theorem toNat_and_mask {w : ℕ} (x mask : BitVec w) (lo hi : ℕ)
    (hmask : ∀ i < w, mask.getLsbD i = decide (lo ≤ i ∧ i < hi)) :
    (x &&& mask).toNat = field lo hi x.toNat := by
  refine Nat.eq_of_testBit_eq fun i => ?_
  rw [testBit_field, BitVec.testBit_toNat, BitVec.testBit_toNat, BitVec.getLsbD_and, Bool.and_comm]
  rcases Nat.lt_or_ge i w with hi' | hi'
  · rw [hmask i hi']
  · simp [BitVec.getLsbD_of_ge x i hi']

/-- **Shifting and masking selects a digit.** -/
theorem toNat_shiftRight_and {w : ℕ} (x mask : BitVec w) (s k : ℕ)
    (hmask : mask.toNat = 2 ^ k - 1) : ((x >>> s) &&& mask).toNat = x.toNat / 2 ^ s % 2 ^ k := by
  rw [BitVec.toNat_and, hmask, BitVec.toNat_ushiftRight, Nat.shiftRight_eq_div_pow,
    Nat.and_two_pow_sub_one_eq_mod]

/-! ### Clearing a bit of a word -/

/-- The word `x` with its bit `j` cleared. -/
def clearBitOf {w : ℕ} (x : BitVec w) (j : ℕ) : BitVec w := x &&& ~~~(1#w <<< j)

theorem getLsbD_clearBitOf {w : ℕ} (x : BitVec w) (j k : ℕ) :
    (clearBitOf x j).getLsbD k = (x.getLsbD k && decide (k ≠ j)) := by
  rcases Nat.lt_or_ge k w with hk | hk
  · simp only [clearBitOf, BitVec.getLsbD_and, BitVec.getLsbD_not, BitVec.getLsbD_shiftLeft,
      BitVec.getLsbD_one]
    rcases Nat.lt_trichotomy k j with h | rfl | h
    · simp [hk, h, Nat.ne_of_lt h]
    · simp [hk, Nat.zero_lt_of_lt hk]
    · have hsub : k - j ≠ 0 := by omega
      simp [hk, hsub, Nat.ne_of_gt h]
  · simp [BitVec.getLsbD_of_ge, hk]

/-- Clearing a bit twice is clearing it once. -/
theorem clearBitOf_idem {w : ℕ} (x : BitVec w) (j : ℕ) :
    clearBitOf (clearBitOf x j) j = clearBitOf x j :=
  BitVec.eq_of_getLsbD_eq fun k _ => by
    simp only [getLsbD_clearBitOf, Bool.and_assoc, Bool.and_self]

/-- A word other than `0` with nothing left after clearing bit `j` is bit `j`. -/
theorem eq_of_clearBitOf_eq_zero {w : ℕ} {x : BitVec w} {j : ℕ} (hx : x ≠ 0)
    (h : clearBitOf x j = 0) : x = 1#w <<< j := by
  have hbit : ∀ k, k ≠ j → x.getLsbD k = false := by
    intro k hk
    have hk' := congrArg (fun y => y.getLsbD k) h
    simpa [getLsbD_clearBitOf, hk] using hk'
  have hj : x.getLsbD j = true := by
    by_contra hj
    refine hx (BitVec.eq_of_getLsbD_eq fun k _ => ?_)
    by_cases hk : k = j
    · simpa [hk] using hj
    · simpa using hbit k hk
  refine BitVec.eq_of_getLsbD_eq fun k hk => ?_
  rw [BitVec.getLsbD_shiftLeft, BitVec.getLsbD_one]
  rcases Nat.lt_trichotomy k j with hkj | rfl | hkj
  · simp [hkj, hbit k (by omega)]
  · simp [hj, hk, Nat.zero_lt_of_lt hk]
  · have hsub : k - j ≠ 0 := by omega
    simp [hsub, hbit k (by omega)]

/-- **A field does not see the clearing of a bit above it.** -/
theorem field_clearBitOf {w : ℕ} (x : BitVec w) {lo hi j : ℕ} (hj : hi ≤ j) :
    field lo hi (clearBitOf x j).toNat = field lo hi x.toNat := by
  refine Nat.eq_of_testBit_eq fun i => ?_
  rw [testBit_field, testBit_field, BitVec.testBit_toNat, BitVec.testBit_toNat,
    getLsbD_clearBitOf]
  by_cases hi' : i < hi
  · have hne : i ≠ j := by omega
    simp [hne]
  · simp [hi']

end BitField

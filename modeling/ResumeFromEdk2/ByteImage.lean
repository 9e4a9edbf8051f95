/-
**Byte images, their words and their bits.**

A memory, a dump of it and a file all are the same thing here: a fixed number of bytes.  Programs
that patch such an image do it in words of eight bytes, while the statements one wants afterwards
are about single bits: this bit was cleared, every other bit is the one it was.  This module
supplies both views and the passage between them.

The bit of an image numbered `8 * a + k` is bit `k` of the byte at `a`.  With words read in
little-endian order, bit `j` of the word at `a` is then the bit of the image numbered `8 * a + j`,
for every `j < 64` and without any alignment of `a`.

Main definitions:

* `ByteImage.Image` — the images of `n` bytes;
* `ByteImage.Image.byte`, `ByteImage.Image.bit`, `ByteImage.Image.word` — reading a byte, a bit
  and a little-endian word of eight bytes;
* `ByteImage.Image.setWord` — overwriting a word;
* `ByteImage.Image.clearBit`, `ByteImage.Image.clearBits` — clearing one bit, and several;
* `ByteImage.Image.number`, `ByteImage.Image.setNumber` — reading and writing a number of any
  length.

Main results:

* `ByteImage.Image.ext_bit` — an image is determined by its bits;
* `ByteImage.Image.getLsbD_word` — the bits of a word are bits of the image;
* `ByteImage.Image.setWord_clearBitOf` — writing a word back with one bit cleared is clearing one
  bit of the image;
* `ByteImage.Image.word_clearBit` — what the clearing of a bit does to the aligned words;
* `ByteImage.Image.clearBits_congr` — which bits are cleared matters, and nothing else;
* `ByteImage.Image.number_setNumber` — reading a number back.
-/

import Mathlib.Tactic.IntervalCases
import Mathlib.Tactic.Ring
import ResumeFromEdk2.BitField

set_option relaxedAutoImplicit false
set_option autoImplicit false

namespace ByteImage

open BitField

/-! ### Images -/

/-- **An image of `n` bytes.** -/
abbrev Image (n : ℕ) := Fin n → BitVec 8

variable {n : ℕ}

/-- The byte at `a`, with `0` beyond the end. -/
def Image.byte (m : Image n) (a : ℕ) : BitVec 8 := if h : a < n then m ⟨a, h⟩ else 0

/-- The bit numbered `b`: bit `b % 8` of the byte at `b / 8`. -/
def Image.bit (m : Image n) (b : ℕ) : Bool := (m.byte (b / 8)).getLsbD (b % 8)

/-- The eight bytes from `a` on as a little-endian word, if they all lie in the image. -/
def Image.word (m : Image n) (a : ℕ) : Option (BitVec 64) :=
  if a + 8 ≤ n then
    some (m.byte (a + 7) ++ m.byte (a + 6) ++ m.byte (a + 5) ++ m.byte (a + 4) ++
      m.byte (a + 3) ++ m.byte (a + 2) ++ m.byte (a + 1) ++ m.byte a)
  else none

/-- The image with the word `w` written, in little-endian order, to the bytes from `a` on. -/
def Image.setWord (m : Image n) (a : ℕ) (w : BitVec 64) : Image n := fun i =>
  if a ≤ i ∧ i < a + 8 then w.extractLsb' (8 * (i - a)) 8 else m i

/-- **The image with the bit numbered `b` cleared.** -/
def Image.clearBit (m : Image n) (b : ℕ) : Image n := fun i =>
  if i = b / 8 then clearBitOf (m i) (b % 8) else m i

/-- The image with the bits of the given numbers cleared, one after the other. -/
def Image.clearBits (m : Image n) (bs : List ℕ) : Image n := bs.foldl Image.clearBit m

/-- The image cut to another length, or filled up with `0`. -/
def Image.resize (m : Image n) (k : ℕ) : Image k := fun i => m.byte i

/-- The image that holds the given words at the given addresses, and `0` elsewhere. -/
def Image.ofWords (n : ℕ) (ws : List (ℕ × BitVec 64)) : Image n :=
  ws.foldl (fun m w => m.setWord w.1 w.2) fun _ => 0

@[simp] theorem Image.resize_self (m : Image n) : m.resize n = m := by
  funext i
  rw [Image.resize, Image.byte, dif_pos i.isLt]

theorem Image.byte_of_lt (m : Image n) {a : ℕ} (h : a < n) : m.byte a = m ⟨a, h⟩ := by
  simp [Image.byte, h]

theorem Image.byte_of_ge (m : Image n) {a : ℕ} (h : n ≤ a) : m.byte a = 0 := by
  simp [Image.byte, Nat.not_lt.2 h]

theorem Image.bit_mul_add (m : Image n) (a : ℕ) {k : ℕ} (hk : k < 8) :
    m.bit (8 * a + k) = (m.byte a).getLsbD k := by
  have hdiv : (8 * a + k) / 8 = a := by omega
  have hmod : (8 * a + k) % 8 = k := by omega
  rw [Image.bit, hdiv, hmod]

/-- Two bytes are equal when their eight bits are. -/
theorem Image.byte_eq_of_bit {m m' : Image n} {a : ℕ}
    (h : ∀ k < 8, m.bit (8 * a + k) = m'.bit (8 * a + k)) : m.byte a = m'.byte a := by
  refine BitVec.eq_of_getLsbD_eq fun k hk => ?_
  rw [← Image.bit_mul_add m a hk, ← Image.bit_mul_add m' a hk]
  exact h k hk

/-- **An image is determined by its bits.** -/
theorem Image.ext_bit {m m' : Image n} (h : ∀ b < 8 * n, m.bit b = m'.bit b) : m = m' := by
  funext i
  have hbyte : m.byte i = m'.byte i :=
    Image.byte_eq_of_bit fun k hk => h (8 * i + k) (by have := i.isLt; omega)
  rwa [Image.byte_of_lt m i.isLt, Image.byte_of_lt m' i.isLt] at hbyte

/-! ### Words -/

theorem Image.word_eq_none_iff (m : Image n) (a : ℕ) : m.word a = none ↔ n < a + 8 := by
  simp [Image.word]

theorem Image.word_eq_some_le {m : Image n} {a : ℕ} {w : BitVec 64} (h : m.word a = some w) :
    a + 8 ≤ n := by
  by_contra hlt
  rw [(Image.word_eq_none_iff m a).2 (by omega)] at h
  exact absurd h (by simp)

theorem Image.word_of_le (m : Image n) {a : ℕ} (h : a + 8 ≤ n) : ∃ w, m.word a = some w := by
  simp [Image.word, h]

/-- The last byte that is appended holds the lowest bits. -/
theorem getLsbD_append_low {w k : ℕ} (x : BitVec w) (b : BitVec 8) (hk : k < 8) :
    (x ++ b).getLsbD k = b.getLsbD k := by
  rw [BitVec.getLsbD_append, if_pos hk]

theorem getLsbD_append_high {w : ℕ} (x : BitVec w) (b : BitVec 8) (j : ℕ) :
    (x ++ b).getLsbD (j + 8) = x.getLsbD j := by
  rw [BitVec.getLsbD_append, if_neg (by omega), Nat.add_sub_cancel]

/-- **The bits of a word are bits of the image.** -/
theorem Image.getLsbD_word {m : Image n} {a : ℕ} {w : BitVec 64} (h : m.word a = some w)
    {j : ℕ} (hj : j < 64) : w.getLsbD j = m.bit (8 * a + j) := by
  have hle := Image.word_eq_some_le h
  simp only [Image.word, hle, if_true, Option.some.injEq] at h
  subst h
  obtain ⟨i, k, hi, hk, rfl⟩ : ∃ i k, i < 8 ∧ k < 8 ∧ j = k + 8 * i :=
    ⟨j / 8, j % 8, by omega, by omega, by omega⟩
  have hbit : m.bit (8 * a + (k + 8 * i)) = (m.byte (a + i)).getLsbD k := by
    rw [← Image.bit_mul_add m (a + i) hk]
    congr 1
    ring
  rw [hbit]
  -- the byte of the word that holds bit `k + 8 * i` is the `i`-th one
  interval_cases i <;>
    simp only [getLsbD_append_high, getLsbD_append_low _ _ hk, Nat.reduceMul, Nat.add_zero]

/-- Words with the same bits are the same word. -/
theorem Image.word_eq_some_of_bit {m : Image n} {a : ℕ} {w : BitVec 64} (hle : a + 8 ≤ n)
    (h : ∀ j < 64, w.getLsbD j = m.bit (8 * a + j)) : m.word a = some w := by
  obtain ⟨v, hv⟩ := Image.word_of_le m hle
  rw [hv]
  congr 1
  refine BitVec.eq_of_getLsbD_eq fun j hj => ?_
  rw [Image.getLsbD_word hv hj, h j hj]

/-- Images that agree on the bits of a word agree on the word. -/
theorem Image.word_congr {n' : ℕ} {m : Image n} {m' : Image n'} {a : ℕ} {w : BitVec 64}
    (hw : m.word a = some w) (hle : a + 8 ≤ n')
    (h : ∀ j < 64, m'.bit (8 * a + j) = m.bit (8 * a + j)) : m'.word a = some w :=
  Image.word_eq_some_of_bit hle fun j hj => by rw [h j hj, Image.getLsbD_word hw hj]

/-! ### Clearing a bit of an image -/

/-- **The effect of clearing a bit on the bits.** -/
@[simp] theorem Image.bit_clearBit (m : Image n) (b c : ℕ) :
    (m.clearBit b).bit c = (m.bit c && decide (c ≠ b)) := by
  rcases Nat.lt_or_ge (c / 8) n with hc | hc
  · rw [Image.bit, Image.bit, Image.byte_of_lt _ hc, Image.byte_of_lt _ hc, Image.clearBit]
    by_cases hbyte : c / 8 = b / 8
    · rw [if_pos hbyte, getLsbD_clearBitOf]
      have hiff : c % 8 ≠ b % 8 ↔ c ≠ b := by omega
      simp only [hiff]
    · have hne : c ≠ b := fun h => hbyte (by rw [h])
      simp [hbyte, hne]
  · simp [Image.bit, Image.byte_of_ge _ hc]

/-- Clearing a bit twice is clearing it once. -/
theorem Image.clearBit_idem (m : Image n) (b : ℕ) : (m.clearBit b).clearBit b = m.clearBit b :=
  Image.ext_bit fun c _ => by simp only [Image.bit_clearBit, Bool.and_assoc, Bool.and_self]

/-- Clearing a bit that is clear changes nothing. -/
theorem Image.clearBit_of_clear {m : Image n} {b : ℕ} (h : m.bit b = false) : m.clearBit b = m :=
  Image.ext_bit fun c _ => by
    rw [Image.bit_clearBit]
    by_cases hc : c = b
    · simp [hc, h]
    · simp [hc]

/-- **What clearing bit `j` of the aligned word at `p` does to the aligned words.** -/
theorem Image.word_clearBit (m : Image n) {p a j : ℕ} (hp : 8 ∣ p) (ha : 8 ∣ a) (hj : j < 64) :
    (m.clearBit (8 * p + j)).word a =
      (m.word a).map fun w => if a = p then clearBitOf w j else w := by
  rcases Nat.lt_or_ge n (a + 8) with hlt | hle
  · rw [(Image.word_eq_none_iff _ _).2 hlt, (Image.word_eq_none_iff _ _).2 hlt, Option.map_none]
  · obtain ⟨w, hw⟩ := Image.word_of_le m hle
    rw [hw, Option.map_some]
    refine Image.word_eq_some_of_bit hle fun i hi => ?_
    rw [Image.bit_clearBit]
    by_cases hap : a = p
    · have hiff : 8 * a + i ≠ 8 * p + j ↔ i ≠ j := by omega
      simp only [if_pos hap, getLsbD_clearBitOf, Image.getLsbD_word hw hi, hiff]
    · have hne : 8 * a + i ≠ 8 * p + j := by omega
      simp [if_neg hap, Image.getLsbD_word hw hi, hne]

/-! ### Clearing several bits -/

theorem Image.bit_clearBits (bs : List ℕ) : ∀ (m : Image n) (c : ℕ),
    (m.clearBits bs).bit c = (m.bit c && decide (c ∉ bs)) := by
  induction bs with
  | nil => intro m c; simp [Image.clearBits]
  | cons b bs ih =>
      intro m c
      change ((m.clearBit b).clearBits bs).bit c = _
      rw [ih, Image.bit_clearBit, Bool.and_assoc, ← Bool.decide_and]
      simp only [List.mem_cons, not_or, ne_eq]

/-- **Which bits are cleared matters, and nothing else**: neither their order nor how often each of
them is cleared. -/
theorem Image.clearBits_congr (m : Image n) {bs cs : List ℕ} (h : ∀ b, b ∈ bs ↔ b ∈ cs) :
    m.clearBits bs = m.clearBits cs :=
  Image.ext_bit fun c _ => by simp only [Image.bit_clearBits, h]

theorem Image.clearBits_concat (m : Image n) (bs : List ℕ) (b : ℕ) :
    (m.clearBits bs).clearBit b = m.clearBits (bs ++ [b]) := by
  rw [Image.clearBits, Image.clearBits, List.foldl_append, List.foldl_cons, List.foldl_nil]

/-- Bit `j` of several aligned words is cleared. -/
theorem Image.word_clearBits {a j : ℕ} (ha : 8 ∣ a) (hj : j < 64) {ps : List ℕ} :
    ∀ (m : Image n), (∀ p ∈ ps, 8 ∣ p) →
      (m.clearBits (ps.map fun p => 8 * p + j)).word a =
        (m.word a).map fun w => if a ∈ ps then clearBitOf w j else w := by
  induction ps with
  | nil => intro m _; simp [Image.clearBits]
  | cons p ps ih =>
      intro m hps
      obtain ⟨hp, hps⟩ := List.forall_mem_cons.1 hps
      change ((m.clearBit (8 * p + j)).clearBits (ps.map fun p => 8 * p + j)).word a = _
      rw [ih _ hps, Image.word_clearBit m hp ha hj, Option.map_map]
      congr 1
      funext w
      by_cases hap : a = p
      · by_cases hmem : a ∈ ps
        · simp [← hap, hmem, clearBitOf_idem]
        · simp [← hap, hmem]
      · simp [hap]

/-! ### Writing a word -/

theorem Image.bit_setWord (m : Image n) {a : ℕ} (w : BitVec 64) (hle : a + 8 ≤ n) (c : ℕ) :
    (m.setWord a w).bit c =
      if 8 * a ≤ c ∧ c < 8 * a + 64 then w.getLsbD (c - 8 * a) else m.bit c := by
  rcases Nat.lt_or_ge (c / 8) n with hc | hc
  · rw [Image.bit, Image.bit, Image.byte_of_lt _ hc, Image.byte_of_lt _ hc, Image.setWord]
    by_cases hin : 8 * a ≤ c ∧ c < 8 * a + 64
    · have hbyte : a ≤ c / 8 ∧ c / 8 < a + 8 := by omega
      have hidx : 8 * (c / 8 - a) + c % 8 = c - 8 * a := by omega
      have hmod : c % 8 < 8 := Nat.mod_lt _ (by norm_num)
      simp [hin, hbyte, hmod, hidx]
    · have hbyte : ¬(a ≤ c / 8 ∧ c / 8 < a + 8) := by omega
      simp [hin, hbyte]
  · have hin : ¬(8 * a ≤ c ∧ c < 8 * a + 64) := by omega
    rw [if_neg hin, Image.bit, Image.bit, Image.byte_of_ge _ hc, Image.byte_of_ge _ hc]

/-- **Writing a word back with one bit cleared is clearing one bit of the image.** -/
theorem Image.setWord_clearBitOf {m : Image n} {a : ℕ} {w : BitVec 64} (h : m.word a = some w)
    (j : ℕ) (hj : j < 64) : m.setWord a (clearBitOf w j) = m.clearBit (8 * a + j) := by
  refine Image.ext_bit fun c _ => ?_
  rw [Image.bit_setWord m _ (Image.word_eq_some_le h), Image.bit_clearBit]
  by_cases hin : 8 * a ≤ c ∧ c < 8 * a + 64
  · have hidx : 8 * a + (c - 8 * a) = c := by omega
    have hiff : c - 8 * a ≠ j ↔ c ≠ 8 * a + j := by omega
    rw [if_pos hin, getLsbD_clearBitOf, Image.getLsbD_word h (by omega), hidx]
    simp only [hiff]
  · have hne : c ≠ 8 * a + j := by omega
    simp [if_neg hin, hne]

/-! ### Numbers of any length -/

/-- The image with other bytes at `k` places from `a` on. -/
def Image.overwrite (m : Image n) (a k : ℕ) (b : ℕ → BitVec 8) : Image n := fun i =>
  if a ≤ i ∧ i < a + k then b (i - a) else m i

/-- The `k` bytes from `a` on as a number, the lowest byte first. -/
def Image.number (m : Image n) (a : ℕ) : ℕ → ℕ
  | 0 => 0
  | k + 1 => Image.number m a k + 256 ^ k * (m.byte (a + k)).toNat

/-- Writing a number to the `k` bytes from `a` on. -/
def Image.setNumber (m : Image n) (a k v : ℕ) : Image n :=
  m.overwrite a k fun j => BitVec.ofNat 8 (v / 256 ^ j)

theorem Image.byte_overwrite (m : Image n) {a k : ℕ} (hle : a + k ≤ n) (b : ℕ → BitVec 8) (i : ℕ) :
    (m.overwrite a k b).byte i =
      if a ≤ i ∧ i < a + k then b (i - a) else m.byte i := by
  rcases Nat.lt_or_ge i n with hi | hi
  · rw [Image.byte_of_lt _ hi, Image.byte_of_lt _ hi]
    rfl
  · rw [Image.byte_of_ge _ hi, Image.byte_of_ge _ hi, if_neg (by omega)]

/-- A number is its bytes. -/
theorem Image.number_congr {m m' : Image n} {a k : ℕ}
    (h : ∀ i, a ≤ i → i < a + k → m'.byte i = m.byte i) :
    m'.number a k = m.number a k := by
  induction k with
  | zero => rfl
  | succ k ih =>
      rw [Image.number, Image.number, ih fun i hi hlt => h i hi (by omega),
        h (a + k) (by omega) (by omega)]

/-- **Reading a number back**, as far as it fits. -/
theorem Image.number_setNumber (m : Image n) {a k : ℕ} (hle : a + k ≤ n) (v : ℕ) :
    (m.setNumber a k v).number a k = v % 256 ^ k := by
  have hpart : ∀ j ≤ k, (m.setNumber a k v).number a j = v % 256 ^ j := by
    intro j
    induction j with
    | zero =>
        intro _
        rw [pow_zero, Nat.mod_one]
        rfl
    | succ j ih =>
        intro hj
        have hin : a ≤ a + j ∧ a + j < a + k := by omega
        rw [Image.number, ih (by omega), Image.setNumber, Image.byte_overwrite m hle, if_pos hin,
          Nat.add_sub_cancel_left, BitVec.toNat_ofNat, Nat.mod_pow_succ (b := 256)]
  exact hpart k le_rfl

end ByteImage

/-
**Integer expressions of C.**

An expression of C has a type before it has a value.  A constant has the first type of a list that
holds it, the two sides of an addition are brought to a common type, and what happens when the sum
does not fit depends on that type: unsigned types wrap around, while for signed types the language
says nothing.  This module has the integer types from `int` on for a machine on which `long` has 64
bits, the evaluation of constants, sums and negations, and the reading of an assignment from its
text.

Main definitions:

* `CInteger.IntTy`, `CInteger.Val` — the types, and a value that fits its type;
* `CInteger.Expr`, `CInteger.Expr.eval` — expressions, and their value if the language gives one;
* `CInteger.assignment` — the two sides of an assignment, read from its text;
* `CInteger.assigned` — **what an assignment stores** in a field of 64 bits.

Main results:

* `CInteger.Val.add_of_le` — **a sum that fits the common type** is the sum;
* `CInteger.eval_hex` — the type of a hexadecimal constant;
* `CInteger.tokens_word`, `CInteger.tokens_other` — reading a text from left to right.
-/

import ResumeFromEdk2.HexNumeral

set_option relaxedAutoImplicit false
set_option autoImplicit false

namespace CInteger

/-! ### Types and values -/

inductive IntTy where
  | int
  | uint
  | long
  | ulong
  deriving DecidableEq

namespace IntTy

def width : IntTy → ℕ
  | int => 32
  | uint => 32
  | long => 64
  | ulong => 64

def signed : IntTy → Bool
  | int => true
  | uint => false
  | long => true
  | ulong => false

def min (ty : IntTy) : ℤ := if ty.signed then -2 ^ (ty.width - 1) else 0

def max (ty : IntTy) : ℤ := if ty.signed then 2 ^ (ty.width - 1) - 1 else 2 ^ ty.width - 1

theorem max_int : int.max = 2 ^ 31 - 1 := rfl

theorem max_uint : uint.max = 2 ^ 32 - 1 := rfl

theorem max_long : long.max = 2 ^ 63 - 1 := rfl

theorem min_int : int.min = -2 ^ 31 := rfl

theorem min_long : long.min = -2 ^ 63 := rfl

/-- The value of the type that agrees with `v` in the bits that the type has. -/
def wrap (ty : IntTy) (v : ℤ) : ℤ :=
  if ty.signed then (v + 2 ^ (ty.width - 1)) % 2 ^ ty.width - 2 ^ (ty.width - 1)
  else v % 2 ^ ty.width

/-- The common type of two operands: the wider one, and of two of one width the unsigned one. -/
def common (s t : IntTy) : IntTy :=
  if s.width < t.width then t else if t.width < s.width then s else if s.signed then t else s

theorem wrap_mem (ty : IntTy) (v : ℤ) : ty.min ≤ ty.wrap v ∧ ty.wrap v ≤ ty.max := by
  cases ty with
  | int | long =>
      simp only [min, max, wrap, width, signed, if_true]
      omega
  | uint | ulong =>
      simp only [min, max, wrap, width, signed, Bool.false_eq_true, if_false]
      omega

theorem wrap_uint (v : ℤ) : uint.wrap v = v % 2 ^ 32 := rfl

theorem wrap_ulong (v : ℤ) : ulong.wrap v = v % 2 ^ 64 := rfl

theorem wrap_of_mem {ty : IntTy} {v : ℤ} (hmin : ty.min ≤ v) (hmax : v ≤ ty.max) :
    ty.wrap v = v := by
  cases ty with
  | int | long =>
      simp only [min, max, wrap, width, signed, if_true] at hmin hmax ⊢
      omega
  | uint | ulong =>
      simp only [min, max, wrap, width, signed, Bool.false_eq_true, if_false] at hmin hmax ⊢
      omega

end IntTy

/-- **A value of an integer type.** -/
@[ext] structure Val where
  ty : IntTy
  val : ℤ
  min_le : ty.min ≤ val
  le_max : val ≤ ty.max

namespace Val

/-- The number as a value of the type, if it fits. -/
def of? (ty : IntTy) (v : ℤ) : Option Val :=
  if h : ty.min ≤ v ∧ v ≤ ty.max then some ⟨ty, v, h.1, h.2⟩ else none

/-- Conversion to a type. -/
def convert (ty : IntTy) (a : Val) : Val :=
  ⟨ty, ty.wrap a.val, (ty.wrap_mem a.val).1, (ty.wrap_mem a.val).2⟩

/-- The outcome of an operation in a type: a signed result that does not fit has no meaning. -/
def result (ty : IntTy) (v : ℤ) : Option Val :=
  if ty.signed then of? ty v else some ⟨ty, ty.wrap v, (ty.wrap_mem v).1, (ty.wrap_mem v).2⟩

def neg (a : Val) : Option Val := result a.ty (-a.val)

def add (a b : Val) : Option Val :=
  result (a.ty.common b.ty)
    ((a.convert (a.ty.common b.ty)).val + (b.convert (a.ty.common b.ty)).val)

/-- Storing in a field of 64 bits. -/
def toUInt64 (a : Val) : BitVec 64 := BitVec.ofInt 64 a.val

end Val

/-! ### Expressions -/

/-- Constants without a suffix, negations and sums. -/
inductive Expr where
  | hex (n : ℕ)
  | dec (n : ℕ)
  | neg (e : Expr)
  | add (a b : Expr)
  deriving DecidableEq

/-- A constant has the first of the types that holds it. -/
def constant (tys : List IntTy) (n : ℕ) : Option Val := tys.findSome? fun ty => Val.of? ty n

/-- **The value of an expression**, or `none` if the language gives it none. -/
def Expr.eval : Expr → Option Val
  | hex n => constant [.int, .uint, .long, .ulong] n
  | dec n => constant [.int, .long] n
  | neg e => do (← e.eval).neg
  | add a b => do (← a.eval).add (← b.eval)

/-! ### Reading an assignment -/

/-- A character of names and numbers. -/
def isWord (c : Char) : Bool := c.isAlphanum || c = '_'

def flush (cur : List Char) : List (List Char) := if cur = [] then [] else [cur]

/-- The tokens of a text that begins in the middle of a word. -/
def tokensFrom : List Char → List Char → List (List Char)
  | cur, [] => flush cur
  | cur, c :: l =>
      if isWord c then tokensFrom (cur ++ [c]) l
      else flush cur ++ (if c = ' ' ∨ c = '\n' then [] else [[c]]) ++ tokensFrom [] l

/-- The tokens of a text: words, and the other characters but blanks one by one. -/
def tokens (l : List Char) : List (List Char) := tokensFrom [] l

/-- A constant from its token: lowercase hexadecimal, or decimal. -/
def readConstant : List Char → Option Expr
  | '0' :: 'x' :: t =>
      if t ≠ [] ∧ t.all HexNumeral.isDigit then some (.hex (HexNumeral.value t)) else none
  | t =>
      if t ≠ [] ∧ t.all Char.isDigit ∧ (t.head? ≠ some '0' ∨ t = ['0']) then
        some (.dec (Nat.ofDigitChars 10 t 0))
      else none

mutual

/-- What begins with an operand, of which `k` is the expression so far. -/
def readOperand (k : Expr → Expr) : List (List Char) → Option Expr
  | [] => none
  | w :: ts =>
      if w = ['-'] then readOperand (fun e => k (.neg e)) ts
      else (readConstant w).bind fun e => readSum (k e) ts

/-- What goes on after an operand. -/
def readSum (e : Expr) : List (List Char) → Option Expr
  | [] => some e
  | w :: ts => if w = ['+'] then readOperand (.add e) ts else none

end

/-- **The two sides of an assignment**, read from its text. -/
def assignment (t : List Char) : Option (List (List Char) × Expr) :=
  let ts := tokens t
  let rhs := (ts.dropWhile (· ≠ ['='])).drop 1
  if rhs.getLast? = some [';'] then
    (readOperand id rhs.dropLast).map (Prod.mk (ts.takeWhile (· ≠ ['='])))
  else none

/-- **What an assignment stores** in a field of 64 bits, and where. -/
def assigned (t : List Char) : Option (List (List Char) × BitVec 64) := do
  let (lhs, e) ← assignment t
  let v ← e.eval
  return (lhs, v.toUInt64)

/-! ### Values of expressions -/

namespace Val

theorem of?_of_mem {ty : IntTy} {v : ℤ} (hmin : ty.min ≤ v) (hmax : v ≤ ty.max) :
    of? ty v = some ⟨ty, v, hmin, hmax⟩ := dif_pos ⟨hmin, hmax⟩

theorem of?_of_gt {ty : IntTy} {v : ℤ} (hmax : ty.max < v) : of? ty v = none :=
  dif_neg fun h => absurd h.2 (not_le.2 hmax)

/-- A result that fits its type. -/
theorem result_of_mem {ty : IntTy} {v : ℤ} (hmin : ty.min ≤ v) (hmax : v ≤ ty.max) :
    result ty v = some ⟨ty, v, hmin, hmax⟩ := by
  by_cases hs : ty.signed = true
  · rw [result, if_pos hs, of?_of_mem hmin hmax]
  · rw [result, if_neg hs]
    simp only [IntTy.wrap_of_mem hmin hmax]

/-- A signed result that does not fit its type has no meaning. -/
theorem result_of_signed {ty : IntTy} {v : ℤ} (hs : ty.signed = true) (hmax : ty.max < v) :
    result ty v = none := by
  rw [result, if_pos hs, of?_of_gt hmax]

/-- An unsigned result wraps around. -/
theorem result_of_unsigned {ty : IntTy} {v : ℤ} (hs : ty.signed = false) :
    result ty v = some ⟨ty, ty.wrap v, (ty.wrap_mem v).1, (ty.wrap_mem v).2⟩ := by
  rw [result, hs, if_neg Bool.false_ne_true]

end Val

theorem constant_cons_of_le {ty : IntTy} {tys : List IntTy} {n : ℕ} (hmin : ty.min ≤ n)
    (hmax : n ≤ ty.max) : constant (ty :: tys) n = some ⟨ty, n, hmin, hmax⟩ := by
  rw [constant, List.findSome?_cons, Val.of?_of_mem hmin hmax]

theorem constant_cons_of_gt {ty : IntTy} {tys : List IntTy} {n : ℕ} (hmax : ty.max < n) :
    constant (ty :: tys) n = constant tys n := by
  rw [constant, List.findSome?_cons, Val.of?_of_gt hmax]
  rfl

/-- The type of a hexadecimal constant. -/
def hexTy (n : ℕ) : IntTy :=
  if n < 2 ^ 31 then .int else if n < 2 ^ 32 then .uint else if n < 2 ^ 63 then .long else .ulong

theorem le_hexTy_max {n : ℕ} (hn : n < 2 ^ 64) : (hexTy n).min ≤ n ∧ (n : ℤ) ≤ (hexTy n).max := by
  unfold hexTy
  split_ifs <;>
    simp only [IntTy.min, IntTy.max, IntTy.width, IntTy.signed, if_true, Bool.false_eq_true,
      if_false] <;> omega

/-- **The value of a hexadecimal constant.** -/
theorem eval_hex {n : ℕ} (hn : n < 2 ^ 64) :
    (Expr.hex n).eval = some ⟨hexTy n, n, (le_hexTy_max hn).1, (le_hexTy_max hn).2⟩ := by
  have hle := le_hexTy_max hn
  rw [Expr.eval]
  by_cases h₁ : n < 2 ^ 31
  · simp only [hexTy, if_pos h₁] at hle ⊢
    exact constant_cons_of_le hle.1 hle.2
  rw [constant_cons_of_gt (by rw [IntTy.max_int]; omega)]
  by_cases h₂ : n < 2 ^ 32
  · simp only [hexTy, if_neg h₁, if_pos h₂] at hle ⊢
    exact constant_cons_of_le hle.1 hle.2
  rw [constant_cons_of_gt (by rw [IntTy.max_uint]; omega)]
  by_cases h₃ : n < 2 ^ 63
  · simp only [hexTy, if_neg h₁, if_neg h₂, if_pos h₃] at hle ⊢
    exact constant_cons_of_le hle.1 hle.2
  rw [constant_cons_of_gt (by rw [IntTy.max_long]; omega)]
  simp only [hexTy, if_neg h₁, if_neg h₂, if_neg h₃] at hle ⊢
  exact constant_cons_of_le hle.1 hle.2

/-- A value of type `int` is added in the type of the other operand. -/
theorem Val.add_int (a : Val) {b : Val} (hb : b.ty = .int) :
    a.add b = result a.ty (a.val + a.ty.wrap b.val) := by
  have hcommon : a.ty.common .int = a.ty := by
    cases a.ty <;> rfl
  rw [Val.add, hb, hcommon]
  simp only [Val.convert, IntTy.wrap_of_mem a.min_le a.le_max]

/-! ### Tokens -/

/-- A word is read as far as it goes. -/
theorem tokensFrom_word (cur : List Char) {w : List Char} (hw : ∀ c ∈ w, isWord c = true)
    (l : List Char) : tokensFrom cur (w ++ l) = tokensFrom (cur ++ w) l := by
  induction w generalizing cur with
  | nil => rw [List.nil_append, List.append_nil]
  | cons c w ih =>
      rw [List.forall_mem_cons] at hw
      rw [List.cons_append, tokensFrom, if_pos hw.1, ih _ hw.2, List.append_assoc]
      rfl

/-- Where a word ends. -/
theorem tokensFrom_other {cur : List Char} (hcur : cur ≠ []) {c : Char} (hc : isWord c = false)
    (l : List Char) :
    tokensFrom cur (c :: l) = cur :: ((if c = ' ' ∨ c = '\n' then [] else [[c]]) ++ tokens l) := by
  rw [tokensFrom, hc, if_neg Bool.false_ne_true, flush, if_neg hcur]
  rfl

/-! ### Constants -/

theorem isWord_of_isDigit {c : Char} (h : HexNumeral.isDigit c = true) : isWord c = true := by
  have hall : ∀ k < 128, HexNumeral.isDigit (Char.ofNat k) = true →
      isWord (Char.ofNat k) = true := by decide +kernel
  obtain ⟨-, hle⟩ := HexNumeral.toNat_le_of_isDigit h
  have hc := hall c.toNat (by omega)
  rw [Char.ofNat_toNat] at hc
  exact hc h

theorem isDigit_of_mem_toDigits {n : ℕ} {c : Char} (hc : c ∈ Nat.toDigits 10 n) :
    c.isDigit = true :=
  Nat.isDigit_of_mem_toDigits (by norm_num) (by norm_num) hc

/-- The token of a hexadecimal constant. -/
theorem readConstant_padded (k n : ℕ) :
    readConstant ('0' :: 'x' :: HexNumeral.padded k n) = some (.hex n) := by
  have hne : HexNumeral.padded k n ≠ [] := by
    rw [HexNumeral.padded_eq]
    exact List.append_ne_nil_of_right_ne_nil _ Nat.toDigits_ne_nil
  have hall : (HexNumeral.padded k n).all HexNumeral.isDigit = true :=
    List.all_eq_true.2 fun c hc => HexNumeral.isDigit_of_mem_padded hc
  rw [readConstant, if_pos ⟨hne, hall⟩, HexNumeral.value_padded]

/-- A decimal numeral has no zero in front. -/
theorem head?_toDigits {n : ℕ} (hn : 0 < n) : (Nat.toDigits 10 n).head? ≠ some '0' := by
  induction n using Nat.strong_induction_on with
  | _ n ih =>
      rw [Nat.toDigits_eq_if (by norm_num)]
      by_cases hlt : n < 10
      · rw [if_pos hlt]
        have hall : ∀ k < 10, 0 < k → [Nat.digitChar k].head? ≠ some '0' := by decide
        exact hall n hlt hn
      · have hdigits : Nat.toDigits 10 (n / 10) ≠ [] := Nat.toDigits_ne_nil
        rw [if_neg hlt, List.head?_append_of_ne_nil _ hdigits]
        exact ih (n / 10) (by omega) (by omega)

/-- The token of a decimal constant. -/
theorem readConstant_toDigits (n : ℕ) : readConstant (Nat.toDigits 10 n) = some (.dec n) := by
  have hne : Nat.toDigits 10 n ≠ [] := Nat.toDigits_ne_nil
  have hall : (Nat.toDigits 10 n).all Char.isDigit = true :=
    List.all_eq_true.2 fun c hc => isDigit_of_mem_toDigits hc
  have hzero : (Nat.toDigits 10 n).head? ≠ some '0' ∨ Nat.toDigits 10 n = ['0'] := by
    rcases Nat.eq_zero_or_pos n with rfl | hn
    · exact .inr rfl
    · exact .inl (head?_toDigits hn)
  unfold readConstant
  split
  · next t ht =>
      have hx : 'x' ∈ Nat.toDigits 10 n := by rw [ht]; simp
      exact absurd (isDigit_of_mem_toDigits hx) (by decide)
  · rw [if_pos ⟨hne, hall, hzero⟩, Nat.ofDigitChars_ten_toDigits]

/-! ### Storing -/

/-- Numbers that are stored alike. -/
theorem ofInt_eq_iff {a b : ℤ} :
    BitVec.ofInt 64 a = BitVec.ofInt 64 b ↔ a % 2 ^ 64 = b % 2 ^ 64 := by
  rw [← BitVec.toNat_inj, BitVec.toNat_ofInt, BitVec.toNat_ofInt]
  push_cast
  omega

end CInteger

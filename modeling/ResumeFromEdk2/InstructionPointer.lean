/-
**The restored instruction pointer.**

The generated line for the instruction pointer adds the offset to `RIP` in C, and the type in which
C adds is that of the constant for `RIP`: `int` below `2 ^ 31`, `unsigned int` below `2 ^ 32`,
`long` below `2 ^ 63`, and `unsigned long` from there on.  The field has 64 bits, but the sum is
computed before it is stored.  So the sum is right where the type of the constant has room for it,
and for the addresses of a kernel, where the type wraps around at 64 bits like the field.

Main definitions:

* `RegisterScript.ipLine` — the generated line;
* `RegisterScript.RestoresRip` — the line stores `RIP` plus the offset, modulo `2 ^ 64`;
* `RegisterScript.RoomForSum` — the type of the constant has room for the sum.

Main results:

* `RegisterScript.assigned_ipLine` — what the line stores;
* `RegisterScript.restoresRip_iff` — **the instruction pointer is right exactly where there is
  room**.
-/

import ResumeFromEdk2.CInteger
import ResumeFromEdk2.RegisterScript

set_option relaxedAutoImplicit false
set_option autoImplicit false

namespace RegisterScript

open CInteger PyText

/-! ### The generated line -/

/-- The line of the template for the instruction pointer. -/
def ipAssign : Assign := ⟨"regs.ip", "rip", true⟩

theorem ipAssign_mem : ipAssign ∈ codeTemplate := List.mem_of_getElem? (i := 18) rfl

/-- **The generated line**, for a value of `RIP` as QEMU prints it and an offset. -/
def ipLine (rip : BitVec 64) (ripOffset : ℤ) : Text :=
  ipAssign.text (Value.str (hexDigits 16 rip.toNat)).format (Value.int ripOffset).format

/-- It is the line that `format_map` makes. -/
theorem format_ipAssign {s : Dict Text Value} {rip : BitVec 64} {ripOffset : ℤ}
    (hrip : s.get? "rip".toList = some (.str (hexDigits 16 rip.toNat)))
    (hoffset : s.get? "rip_offset".toList = some (.int ripOffset)) :
    ipAssign.format s = some (ipLine rip ripOffset) := by
  change (do
    let reg ← s.get? "rip".toList
    let offset ← s.get? "rip_offset".toList
    some (ipAssign.text reg.format offset.format)) = _
  rw [hrip, hoffset]
  rfl

/-- The field `s.regs.ip`. -/
def ipField : List Text := ["s".toList, ".".toList, "regs".toList, ".".toList, "ip".toList]

/-- The offset in C: a negative number is the negation of a constant. -/
def offsetExpr (ripOffset : ℤ) : Expr :=
  if 0 ≤ ripOffset then .dec ripOffset.toNat else .neg (.dec (-ripOffset).toNat)

/-- The tokens of the offset. -/
def offsetTokens (ripOffset : ℤ) : List Text :=
  if 0 ≤ ripOffset then [Nat.toDigits 10 ripOffset.toNat]
  else ["-".toList, Nat.toDigits 10 (-ripOffset).toNat]

theorem format_int_of_nonneg {n : ℤ} (hn : 0 ≤ n) :
    (Value.int n).format = Nat.toDigits 10 n.toNat := by
  obtain ⟨k, rfl⟩ := Int.eq_ofNat_of_zero_le hn
  change (Nat.repr k).toList = _
  rw [Nat.toList_repr, Int.toNat_natCast]

theorem format_int_of_neg {n : ℤ} (hn : n < 0) :
    (Value.int n).format = '-' :: Nat.toDigits 10 (-n).toNat := by
  obtain ⟨k, rfl⟩ := Int.eq_negSucc_of_lt_zero hn
  change ("-" ++ Nat.repr (k + 1)).toList = _
  rw [String.toList_append, Nat.toList_repr]
  rfl

theorem isWord_of_mem_toDigits (n : ℕ) : ∀ c ∈ Nat.toDigits 10 n, isWord c = true := by
  intro c hc
  refine isWord_of_isDigit ?_
  rw [HexNumeral.isDigit, isDigit_of_mem_toDigits hc, Bool.true_or]

/-- The offset and what ends the line. -/
theorem tokens_offset (n : ℤ) :
    tokens ((Value.int n).format ++ ";\n".toList) = offsetTokens n ++ [[';']] := by
  have hdigits : ∀ k, tokens (Nat.toDigits 10 k ++ ";\n".toList) = [Nat.toDigits 10 k, [';']] := by
    intro k
    rw [tokens, tokensFrom_word [] (isWord_of_mem_toDigits k), List.nil_append]
    exact tokensFrom_other Nat.toDigits_ne_nil rfl ['\n']
  by_cases hn : 0 ≤ n
  · rw [format_int_of_nonneg hn, hdigits, offsetTokens, if_pos hn]
    rfl
  · rw [format_int_of_neg (not_le.1 hn), offsetTokens, if_neg hn]
    exact congrArg (List.cons ['-']) (hdigits _)

/-- The tokens of the line. -/
theorem tokens_ipLine (rip : BitVec 64) (n : ℤ) :
    tokens (ipLine rip n) = ipField ++ ['='] ::
      ('0' :: 'x' :: hexDigits 16 rip.toNat) :: ['+'] :: (offsetTokens n ++ [[';']]) := by
  have hword : ∀ c ∈ hexDigits 16 rip.toNat, isWord c = true := fun c hc =>
    isWord_of_isDigit (HexNumeral.isDigit_of_mem_padded (k := 16) hc)
  have hline : ipLine rip n = "  s.regs.ip = 0x".toList ++ (hexDigits 16 rip.toNat ++
      (' ' :: '+' :: ' ' :: ((Value.int n).format ++ ";\n".toList))) := by
    change "  s.regs.ip = 0x".toList ++ hexDigits 16 rip.toNat ++
      (" + ".toList ++ (Value.int n).format) ++ ";\n".toList = _
    rw [List.append_assoc, List.append_assoc, List.append_assoc]
    rfl
  have hstart : ∀ l, tokens ("  s.regs.ip = 0x".toList ++ l) =
      ipField ++ ['='] :: tokensFrom ['0', 'x'] l := fun l => rfl
  rw [hline, hstart, tokensFrom_word _ hword, tokensFrom_other (by simp) rfl]
  exact congrArg
    (fun ts => ipField ++ ['='] :: ('0' :: 'x' :: hexDigits 16 rip.toNat) :: ['+'] :: ts)
    (tokens_offset n)

theorem readOperand_constant {k : Expr → Expr} {w : Text} {ts : List Text} {e : Expr}
    (hw : w ≠ ['-']) (he : readConstant w = some e) :
    readOperand k (w :: ts) = readSum (k e) ts := by
  rw [readOperand, if_neg hw, he, Option.bind_some]

/-- The expression that the tokens of the offset are read as. -/
theorem readOperand_offset (k : Expr → Expr) (n : ℤ) :
    readOperand k (offsetTokens n) = some (k (offsetExpr n)) := by
  have hdigits : ∀ (k : Expr → Expr) (m : ℕ),
      readOperand k [Nat.toDigits 10 m] = some (k (.dec m)) := by
    intro k m
    have hne : Nat.toDigits 10 m ≠ ['-'] := by
      intro h
      have hminus : '-' ∈ Nat.toDigits 10 m := by rw [h]; simp
      exact absurd (isDigit_of_mem_toDigits hminus) (by decide)
    rw [readOperand_constant hne (readConstant_toDigits m), readSum]
  by_cases hn : 0 ≤ n
  · rw [offsetTokens, offsetExpr, if_pos hn, if_pos hn, hdigits]
  · rw [offsetTokens, offsetExpr, if_neg hn, if_neg hn]
    exact hdigits _ _

/-- **The line as an assignment.** -/
theorem assignment_ipLine (rip : BitVec 64) (n : ℤ) :
    assignment (ipLine rip n) = some (ipField, .add (.hex rip.toNat) (offsetExpr n)) := by
  have hne : '0' :: 'x' :: hexDigits 16 rip.toNat ≠ ['-'] := by simp
  have hrhs : ('0' :: 'x' :: hexDigits 16 rip.toNat) :: ['+'] :: (offsetTokens n ++ [[';']]) =
      (('0' :: 'x' :: hexDigits 16 rip.toNat) :: ['+'] :: offsetTokens n) ++ [[';']] := rfl
  rw [assignment, tokens_ipLine]
  change (if (('0' :: 'x' :: hexDigits 16 rip.toNat) :: ['+'] ::
    (offsetTokens n ++ [[';']])).getLast? = some [';'] then _ else _) = _
  rw [hrhs, List.getLast?_concat, if_pos rfl]
  change (readOperand id ((('0' :: 'x' :: hexDigits 16 rip.toNat) :: ['+'] ::
    (offsetTokens n ++ [[';']])).dropLast)).map (Prod.mk ipField) = _
  rw [hrhs, List.dropLast_concat, readOperand_constant hne (readConstant_padded 16 rip.toNat),
    readSum, if_pos rfl, readOperand_offset]
  rfl

/-! ### What the line stores -/

/-- The offset has the type `int`. -/
theorem eval_offsetExpr {n : ℤ} (hmin : -2 ^ 31 + 1 ≤ n) (hmax : n ≤ 2 ^ 31 - 1) :
    ∃ v, (offsetExpr n).eval = some v ∧ v.ty = .int ∧ v.val = n := by
  have hconst : ∀ m : ℕ, (m : ℤ) ≤ 2 ^ 31 - 1 →
      ∃ v, (Expr.dec m).eval = some v ∧ v.ty = .int ∧ v.val = m := by
    intro m hm
    have hmin : IntTy.int.min ≤ (m : ℤ) := le_trans (by decide) (Int.natCast_nonneg m)
    exact ⟨⟨.int, m, hmin, hm⟩, constant_cons_of_le hmin hm, rfl, rfl⟩
  by_cases hn : 0 ≤ n
  · obtain ⟨v, hv, hty, hval⟩ := hconst n.toNat (by omega)
    rw [offsetExpr, if_pos hn]
    exact ⟨v, hv, hty, by omega⟩
  · obtain ⟨v, hv, hty, hval⟩ := hconst (-n).toNat (by omega)
    have hge : IntTy.int.min ≤ n := by rw [IntTy.min_int]; omega
    have hle : n ≤ IntTy.int.max := by rw [IntTy.max_int]; omega
    have hneg : v.neg = some ⟨.int, n, hge, hle⟩ := by
      rw [Val.neg, hty, show -v.val = n by omega, Val.result_of_mem hge hle]
    refine ⟨⟨.int, n, hge, hle⟩, ?_, rfl, rfl⟩
    rw [offsetExpr, if_neg hn, Expr.eval, hv]
    exact hneg

/-- **What the line stores**: the sum, computed in the type of the constant for `RIP`. -/
theorem assigned_ipLine (rip : BitVec 64) {n : ℤ} (hmin : -2 ^ 31 + 1 ≤ n)
    (hmax : n ≤ 2 ^ 31 - 1) :
    assigned (ipLine rip n) =
      (Val.result (hexTy rip.toNat) (rip.toNat + (hexTy rip.toNat).wrap n)).map
        fun v => (ipField, v.toUInt64) := by
  obtain ⟨v, hv, hty, hval⟩ := eval_offsetExpr hmin hmax
  have hsum : (Expr.add (.hex rip.toNat) (offsetExpr n)).eval =
      Val.result (hexTy rip.toNat) (rip.toNat + (hexTy rip.toNat).wrap n) := by
    rw [Expr.eval, eval_hex rip.isLt, hv, Option.bind_eq_bind, Option.bind_some, Option.bind_some,
      Val.add_int _ hty, hval]
  rw [assigned, assignment_ipLine, Option.bind_eq_bind, Option.bind_some]
  change ((Expr.add (.hex rip.toNat) (offsetExpr n)).eval.bind _) = _
  rw [hsum, Option.map_eq_bind]
  rfl

/-! ### Where the sum is right -/

/-- **The line stores `RIP` plus the offset**, modulo `2 ^ 64`, in the field `s.regs.ip`. -/
def RestoresRip (rip : BitVec 64) (ripOffset : ℤ) : Prop :=
  assigned (ipLine rip ripOffset) = some (ipField, BitVec.ofInt 64 (rip.toNat + ripOffset))

/-- **The type of the constant has room for the sum**, or it wraps around at 64 bits. -/
def RoomForSum (rip : BitVec 64) (ripOffset : ℤ) : Prop :=
  (rip.toNat < 2 ^ 31 → rip.toNat + ripOffset < 2 ^ 31) ∧
    (2 ^ 31 ≤ rip.toNat → rip.toNat < 2 ^ 32 → rip.toNat + ripOffset < 2 ^ 32) ∧
      (2 ^ 32 ≤ rip.toNat → rip.toNat < 2 ^ 63 → rip.toNat + ripOffset < 2 ^ 63)

/-- In a signed type the sum must fit. -/
theorem result_signed_iff {ty : IntTy} (hs : ty.signed = true) {r n : ℤ} (hmin : ty.min ≤ r + n)
    (hn : ty.wrap n = n) :
    ((Val.result ty (r + ty.wrap n)).map fun v => (ipField, v.toUInt64)) =
      some (ipField, BitVec.ofInt 64 (r + n)) ↔ r + n ≤ ty.max := by
  rw [hn]
  constructor
  · intro h
    by_contra hmax
    rw [Val.result_of_signed hs (not_le.1 hmax)] at h
    exact absurd h (by simp)
  · intro hmax
    rw [Val.result_of_mem hmin hmax]
    rfl

/-- In an unsigned type the sum wraps around, and must be the same modulo `2 ^ 64` nevertheless. -/
theorem result_unsigned_iff {ty : IntTy} (hs : ty.signed = false) {r n : ℤ} :
    ((Val.result ty (r + ty.wrap n)).map fun v => (ipField, v.toUInt64)) =
      some (ipField, BitVec.ofInt 64 (r + n)) ↔
        ty.wrap (r + ty.wrap n) % 2 ^ 64 = (r + n) % 2 ^ 64 := by
  rw [Val.result_of_unsigned hs, Option.map_some, Option.some.injEq, Prod.mk.injEq, ← ofInt_eq_iff]
  exact and_iff_right rfl

/-- **The instruction pointer is right exactly where there is room for the sum.** -/
theorem restoresRip_iff (rip : BitVec 64) {ripOffset : ℤ} (hmin : -2 ^ 31 + 1 ≤ ripOffset)
    (hmax : ripOffset ≤ 2 ^ 31 - 1) :
    RestoresRip rip ripOffset ↔ RoomForSum rip ripOffset := by
  have hlt := rip.isLt
  rw [RestoresRip, assigned_ipLine rip hmin hmax, RoomForSum, hexTy]
  by_cases h₁ : rip.toNat < 2 ^ 31
  · have hn : IntTy.int.wrap ripOffset = ripOffset :=
      IntTy.wrap_of_mem (by rw [IntTy.min_int]; omega) (by rw [IntTy.max_int]; omega)
    rw [if_pos h₁, result_signed_iff rfl (by rw [IntTy.min_int]; omega) hn, IntTy.max_int]
    omega
  rw [if_neg h₁]
  by_cases h₂ : rip.toNat < 2 ^ 32
  · rw [if_pos h₂, result_unsigned_iff rfl, IntTy.wrap_uint, IntTy.wrap_uint]
    omega
  rw [if_neg h₂]
  by_cases h₃ : rip.toNat < 2 ^ 63
  · have hn : IntTy.long.wrap ripOffset = ripOffset :=
      IntTy.wrap_of_mem (by rw [IntTy.min_long]; omega) (by rw [IntTy.max_long]; omega)
    rw [if_pos h₃, result_signed_iff rfl (by rw [IntTy.min_long]; omega) hn, IntTy.max_long]
    omega
  · rw [if_neg h₃, result_unsigned_iff rfl, IntTy.wrap_ulong, IntTy.wrap_ulong]
    omega

theorem restoresRip_iff_kernel :
    RestoresRip 0xffffffff81000000 16 ↔ RoomForSum 0xffffffff81000000 16 :=
  restoresRip_iff 0xffffffff81000000 (by norm_num) (by norm_num)

/-- A value of `RIP` below `2 ^ 32`: the sum wraps around at 32 bits, and the instruction pointer
becomes `8`. -/
theorem not_restoresRip_wrap : ¬RestoresRip 0xfffffff8 16 := by
  intro h
  have hstored : assigned (ipLine 0xfffffff8 16) = some (ipField, 8) := by
    rw [assigned_ipLine _ (by norm_num) (by norm_num)]
    rfl
  rw [RestoresRip, hstored] at h
  exact absurd (congrArg (Option.map Prod.snd) h) (by decide)

end RegisterScript

/-
**From the transcript to `cpu_state.bin`.**

`state-blob.c` includes the generated code, and running it writes the saved CPU state to a file.  So
the numbers of the transcript pass through a text of C on their way into the bytes of a structure.
This module reads that text as a compiler does, runs it, and reads the file back.

The structure is declared in `State.h`, which belongs to the firmware.  It is a parameter: any
layout with the fields that the program uses.

Main definitions:

* `CpuState.generated` — the assignments that the generated code is read as;
* `CpuState.stateBlob` — `main` of `state-blob.c`: the bytes of `cpu_state.bin`;
* `CpuState.Declares` — what is asked of the structure;
* `CpuState.Holds` — a file that holds given registers.

Main results:

* `CpuState.program_output` — **the output of the script is read as the assignments of the
  template**;
* `CpuState.stateBlob_of_parse` — **every field of the file holds the number of its register**, for
  every text on which the script succeeds and that does not change the offset.
-/

import ResumeFromEdk2.CProgram
import ResumeFromEdk2.GeneratedCode

set_option relaxedAutoImplicit false
set_option autoImplicit false

namespace CpuState

open ByteImage CInteger CProgram PyText Regex RegisterScript

/-! ### The assignments of the template -/

/-- The field `s.<field>`. -/
def path (field : String) : List Token := tokens ("s.".toList ++ field.toList)

/-- The number that the template prints for a line. -/
def number (v : Text → Hex) (a : Assign) : ℕ := HexNumeral.value (v a.key.toList).1

/-- The expression of a line. -/
def expr (v : Text → Hex) (ripOffset : ℤ) (a : Assign) : Expr :=
  if a.plusOffset then .add (.hex (number v a)) (offsetExpr ripOffset) else .hex (number v a)

/-- **The assignments that the generated code is read as.** -/
def generated (v : Text → Hex) (ripOffset : ℤ) : List Statement :=
  codeTemplate.map fun a => (path a.field, expr v ripOffset a)

/-- The names of the fields are no operators, and they are different. -/
theorem path_spec {a : Assign} (ha : a ∈ codeTemplate) :
    ['='] ∉ path a.field ∧ [';'] ∉ path a.field ∧ a.field.toList.all isPlain = true := by
  have hall : ∀ a ∈ codeTemplate, ['='] ∉ path a.field ∧ [';'] ∉ path a.field ∧
      a.field.toList.all isPlain = true := by decide +kernel
  exact hall a ha

theorem nodup_path : (codeTemplate.map fun a => path a.field).Nodup := by decide +kernel

/-! ### Reading a line -/

section Line

variable {v : Text → Hex} {n : ℤ}

theorem isWord_of_isHex {c : Char} (h : isHex c = true) : isWord c = true := isWord_of_isDigit h

/-- The token of a number that the script prints. -/
theorem readConstant_hex (h : Hex) :
    readConstant ('0' :: 'x' :: h.1) = some (.hex (HexNumeral.value h.1)) := by
  have hall : h.1.all HexNumeral.isDigit = true := List.all_eq_true.2 h.2.2
  rw [readConstant, if_pos ⟨h.2.1, hall⟩]

/-- The tokens of the right side of a line. -/
def rhsTokens (n : ℤ) (plusOffset : Bool) (h : Hex) : List Token :=
  ('0' :: 'x' :: h.1) :: if plusOffset then ['+'] :: offsetTokens n else []

theorem tokens_value (n : ℤ) (plusOffset : Bool) (h : Hex) :
    tokensFrom ['0', 'x'] (h.1 ++
      ((if plusOffset then " + ".toList ++ (Value.int n).format else []) ++ ";\n".toList)) =
        rhsTokens n plusOffset h ++ [[';']] := by
  have hword : ∀ c ∈ h.1, isWord c = true := fun c hc => isWord_of_isHex (h.2.2 c hc)
  rw [tokensFrom_word _ hword]
  cases plusOffset with
  | false => exact tokensFrom_other (by simp) rfl ['\n']
  | true =>
      have hplus : ∀ l, tokensFrom (['0', 'x'] ++ h.1) (" + ".toList ++ l) =
          ('0' :: 'x' :: h.1) :: ['+'] :: tokens l := fun l =>
        tokensFrom_other (by simp) rfl ('+' :: ' ' :: l)
      rw [if_pos rfl, List.append_assoc, hplus, tokens_offset]
      rfl

/-- **The tokens of a line.** -/
theorem tokens_text (n : ℤ) (a : Assign) (h : Hex) :
    tokens (a.text h.1 (Value.int n).format) =
      path a.field ++ ['='] :: (rhsTokens n a.plusOffset h ++ [[';']]) := by
  obtain ⟨field, key, plusOffset⟩ := a
  have hline : Assign.text ⟨field, key, plusOffset⟩ h.1 (Value.int n).format =
      ' ' :: ' ' :: (("s.".toList ++ field.toList) ++ ' ' :: '=' :: ' ' :: '0' :: 'x' :: (h.1 ++
        ((if plusOffset then " + ".toList ++ (Value.int n).format else []) ++ ";\n".toList))) := by
    rw [Assign.text_mk]
    simp only [List.append_assoc]
    rfl
  have hblank : ∀ l, tokens (' ' :: ' ' :: l) = tokens l := fun _ => rfl
  have hequals : ∀ l, tokens ('=' :: ' ' :: '0' :: 'x' :: l) = ['='] :: tokensFrom ['0', 'x'] l :=
    fun _ => rfl
  rw [hline, hblank, tokens, tokensFrom_append (.inl rfl), hequals, tokens_value]
  rfl

/-- A line ends where the next one begins. -/
theorem tokens_text_append (n : ℤ) (a : Assign) (h : Hex) (l : Text) :
    tokens (a.text h.1 (Value.int n).format ++ l) =
      tokens (a.text h.1 (Value.int n).format) ++ tokens l := by
  obtain ⟨t, ht⟩ : ∃ t, a.text h.1 (Value.int n).format = t ++ ['\n'] := by
    obtain ⟨field, key, plusOffset⟩ := a
    refine ⟨"  s.".toList ++ field.toList ++ " = 0x".toList ++ h.1 ++
      (if plusOffset then " + ".toList ++ (Value.int n).format else []) ++ [';'], ?_⟩
    rw [Assign.text_mk]
    exact (List.append_assoc _ [';'] ['\n']).symm
  have hend : ∀ l, tokens (t ++ '\n' :: l) = tokens t ++ tokens l :=
    fun l => tokensFrom_append (.inr rfl) [] t l
  have hnil : tokens t ++ tokens [] = tokens t := List.append_nil _
  rw [ht, List.append_assoc, List.singleton_append, hend, hend, hnil]

theorem semicolon_not_mem_rhsTokens (n : ℤ) (plusOffset : Bool) (h : Hex) :
    [';'] ∉ rhsTokens n plusOffset h := by
  have hdigits : ∀ k, [';'] ≠ Nat.toDigits 10 k := by
    intro k heq
    have hmem : ';' ∈ Nat.toDigits 10 k := by
      rw [← heq]
      exact List.mem_singleton_self ';'
    exact absurd (isDigit_of_mem_toDigits hmem) (by decide)
  cases plusOffset with
  | false => simp [rhsTokens]
  | true =>
      have hoffset : [';'] ∉ offsetTokens n := by
        rw [offsetTokens]
        split <;> simp [hdigits]
      rw [rhsTokens, if_pos rfl]
      simp [hoffset]

/-- **A line is read as its assignment.** -/
theorem statement_line {a : Assign} (ha : a ∈ codeTemplate) :
    statement (path a.field ++ ['='] :: rhsTokens n a.plusOffset (v a.key.toList)) =
      some (path a.field, expr v n a) := by
  refine statement_eq (path_spec ha).1 ?_
  have hne : '0' :: 'x' :: (v a.key.toList).1 ≠ ['-'] := by simp
  rw [rhsTokens, readOperand_constant hne (readConstant_hex _), expr]
  cases a.plusOffset with
  | false => rfl
  | true =>
      rw [if_pos rfl, readSum, if_pos rfl, readOperand_offset]
      rfl

/-- **The lines are read one by one.** -/
theorem statements_lines {as : List Assign} (has : ∀ a ∈ as, a ∈ codeTemplate) :
    statements [] (tokens (as.map fun a =>
      a.text (v a.key.toList).1 (Value.int n).format).flatten) =
        some (as.map fun a => (path a.field, expr v n a)) := by
  induction as with
  | nil => rfl
  | cons a as ih =>
      rw [List.forall_mem_cons] at has
      have hsemi : [';'] ∉ path a.field ++ ['='] ::
          rhsTokens n a.plusOffset (v a.key.toList) := by
        rw [List.mem_append, List.mem_cons, not_or, not_or]
        exact ⟨(path_spec has.1).2.1, by decide, semicolon_not_mem_rhsTokens _ _ _⟩
      have hsplit : tokens (a.text (v a.key.toList).1 (Value.int n).format) =
          (path a.field ++ ['='] :: rhsTokens n a.plusOffset (v a.key.toList)) ++ [[';']] := by
        rw [tokens_text]
        simp
      rw [List.map_cons, List.flatten_cons, tokens_text_append, hsplit, List.append_assoc,
        List.singleton_append, statements_append hsemi, List.nil_append, statement_line has.1,
        ih has.2]
      rfl

end Line

/-! ### Reading the output of the script -/

section Output

variable {v : Text → Hex} {n : ℤ}

theorem isPlain_of_isHex {c : Char} (h : isHex c = true) : isPlain c = true := by
  refine decide_eq_true ?_
  intro hmem
  have hall : ['/', '\x22', '\x27', '\\', '#'].all (fun c => !isHex c) = true := by decide
  have hno := List.all_eq_true.1 hall c hmem
  rw [h] at hno
  exact absurd hno (by decide)

theorem isPlain_format (n : ℤ) : ∀ c ∈ (Value.int n).format, isPlain c = true := by
  intro c hc
  refine decide_eq_true ?_
  have hno : ∀ d : Char, d.isDigit = false → d ≠ '-' → c ≠ d := by
    intro d hdigit hsign heq
    exact not_mem_format_int hdigit hsign n (heq ▸ hc)
  simp only [List.mem_cons, List.not_mem_nil, or_false, not_or]
  exact ⟨hno _ rfl (by decide), hno _ rfl (by decide), hno _ rfl (by decide), hno _ rfl (by decide),
    hno _ rfl (by decide)⟩

/-- No comment begins in the code. -/
theorem isPlain_codeOf (v : Text → Hex) (n : ℤ) :
    ∀ c ∈ codeOf v (Value.int n).format, isPlain c = true := by
  intro c hc
  rcases List.mem_cons.1 hc with rfl | hc
  · rfl
  · obtain ⟨line, hline, hc⟩ := List.mem_flatten.1 hc
    obtain ⟨a, ha, rfl⟩ := List.mem_map.1 hline
    obtain ⟨-, -, hfield⟩ := path_spec ha
    have hkey := (v a.key.toList).2.2
    generalize (v a.key.toList).1 = h at hc hkey
    obtain ⟨field, key, plusOffset⟩ := a
    have hconst : ∀ t ∈ ["  s.".toList, " = 0x".toList, ";\n".toList, " + ".toList],
        ∀ c ∈ t, isPlain c = true := by
      intro t ht
      have hall : ["  s.".toList, " = 0x".toList, ";\n".toList, " + ".toList].all
          (fun t => t.all isPlain) = true := by decide
      exact List.all_eq_true.1 (List.all_eq_true.1 hall t ht)
    have hoffset : ∀ c ∈ (if plusOffset then " + ".toList ++ (Value.int n).format else []),
        isPlain c = true := by
      cases plusOffset with
      | false => simp
      | true =>
          exact List.forall_mem_append.2 ⟨hconst _ (by simp), isPlain_format n⟩
    rw [Assign.text_mk] at hc
    have hline := List.forall_mem_append.2 ⟨List.forall_mem_append.2 ⟨List.forall_mem_append.2
      ⟨List.forall_mem_append.2 ⟨List.forall_mem_append.2 ⟨hconst "  s.".toList (by simp),
        List.all_eq_true.1 hfield⟩, hconst " = 0x".toList (by simp)⟩,
        fun c hc => isPlain_of_isHex (hkey c hc)⟩, hoffset⟩, hconst ";\n".toList (by simp)⟩
    exact hline c hc

/-- The dictionary does not end its comment. -/
theorem opens_comment {u : Unicode} (hlower : ∀ c : Char, 128 ≤ c.toNat → '/' ∉ u.lower c)
    {stdin : Text} :
    ¬['*', '/'] <:+: '\n' :: (reprDict u (parse u n stdin) ++ ['\n', '*']) := by
  have hnewline : Harmless ['\n'] := harmless_of_not_mem (by simp)
  exact (hnewline.append ((harmless_reprDict hlower).append
    (harmless_of_not_mem (by simp)))).keeps_open

/-- **The output of the script is read as the assignments of the template.** -/
theorem program_output {comment : Text} (hopen : ¬['*', '/'] <:+: '\n' :: (comment ++ ['\n', '*']))
    (hsplice : ¬['\\', '\n'] <:+: output (codeOf v (Value.int n).format) comment) :
    program (output (codeOf v (Value.int n).format) comment) = some (generated v n) := by
  have hout : output (codeOf v (Value.int n).format) comment =
      codeOf v (Value.int n).format ++ (['\n'] ++ '/' :: '*' :: (('\n' :: (comment ++ ['\n'])) ++
        '*' :: '/' :: ['\n'])) := by
    rw [output]
    simp
  have hopen' : ¬['*', '/'] <:+: ('\n' :: (comment ++ ['\n'])) ++ ['*'] := by
    simpa using hopen
  have hnewline : ∀ c ∈ ['\n'], isPlain c = true := List.forall_mem_singleton.2 rfl
  have huncomment : uncomment false (output (codeOf v (Value.int n).format) comment) =
      some (codeOf v (Value.int n).format ++ '\n' :: [' ', '\n']) := by
    rw [hout, uncomment_plain (isPlain_codeOf v n), uncomment_plain hnewline, uncomment,
      uncomment_comment hopen']
    rfl
  have htokens : tokens (codeOf v (Value.int n).format ++ '\n' :: [' ', '\n']) =
      tokens (codeTemplate.map fun a =>
        a.text (v a.key.toList).1 (Value.int n).format).flatten := by
    rw [tokens, tokensFrom_append (.inr rfl)]
    exact List.append_nil _
  rw [program, splice_of_not_infix hsplice, huncomment, Option.bind_eq_bind, Option.bind_some,
    htokens, statements_lines fun _ h => h]
  rfl

/-- Text without a backslash at the end of a line. -/
def Unspliced (t : Text) : Prop := List.IsChain (fun a b => ¬(a = '\\' ∧ b = '\n')) t

theorem unspliced_of_not_mem {t : Text} (h : '\\' ∉ t ∨ '\n' ∉ t) : Unspliced t := by
  refine (List.pairwise_of_forall_mem_list fun a ha b hb heq => ?_).isChain
  rcases h with h | h
  · exact h (heq.1 ▸ ha)
  · exact h (heq.2 ▸ hb)

theorem Unspliced.append {s t : Text} (hs : Unspliced s) (ht : Unspliced t)
    (hlast : s.getLast? ≠ some '\\') : Unspliced (s ++ t) :=
  List.isChain_append.2 ⟨hs, ht, fun _ hx _ _ heq => hlast (heq.1 ▸ hx)⟩

theorem Unspliced.not_infix_of {t : Text} (h : Unspliced t) : ¬['\\', '\n'] <:+: t := by
  intro hin
  have hchain := List.IsChain.infix h hin
  exact (List.isChain_cons_cons.1 hchain).1 ⟨rfl, rfl⟩

/-- A newline is printed as two other characters. -/
theorem newline_not_mem_reprChar (u : Unicode) {quote : Char} (hquote : quote ≠ '\n') (c : Char) :
    '\n' ∉ reprChar u quote c := by
  have hite : ∀ {P : Prop} [Decidable P] {s t : Text}, '\n' ∉ s → (¬P → '\n' ∉ t) →
      '\n' ∉ if P then s else t := by
    intro P _ s t hs ht
    split
    · exact hs
    · exact ht ‹_›
  have hx : ∀ (k m : ℕ) (t : Text), '\n' ∉ t → '\n' ∉ t ++ hexDigits k m := by
    intro k m t ht h
    rcases List.mem_append.1 h with h | h
    · exact ht h
    · exact absurd (HexNumeral.isDigit_of_mem_padded (k := k) h) (by decide)
  by_cases hc : c = '\n'
  · have hescape : reprChar u quote '\n' = "\\n".toList := by
      have hfirst : ¬('\n' = quote ∨ '\n' = '\\') := by
        rintro (heq | heq)
        · exact hquote heq.symm
        · cases heq
      rw [reprChar, if_neg hfirst]
      rfl
    rw [hc, hescape]
    decide
  · have hc' : '\n' ≠ c := Ne.symm hc
    refine hite (by simp [hc']) fun _ => hite (by simp) fun _ => hite (by simp) fun _ =>
      hite (by simp) fun _ => hite (hx _ _ _ (by simp)) fun _ => hite (by simp [hc']) fun _ =>
      hite (hx _ _ _ (by simp)) fun _ => hite (hx _ _ _ (by simp)) fun _ => hx _ _ _ (by simp)

theorem newline_not_mem_reprText (u : Unicode) (t : Text) : '\n' ∉ reprText u t := by
  have hquoted : ∀ q : Char, q ≠ '\n' → '\n' ∉ q :: (t.flatMap (reprChar u q) ++ [q]) := by
    intro q hq h
    rcases List.mem_cons.1 h with h | h
    · exact hq h.symm
    · rcases List.mem_append.1 h with h | h
      · obtain ⟨c, -, hc⟩ := List.mem_flatMap.1 h
        exact newline_not_mem_reprChar u hq c hc
      · exact hq (List.mem_singleton.1 h).symm
  unfold reprText
  split
  · exact hquoted _ (by decide)
  · exact hquoted _ (by decide)

/-- **The dictionary is printed on one line.** -/
theorem newline_not_mem_reprDict (u : Unicode) (s : Dict Text Value) : '\n' ∉ reprDict u s := by
  have hvalue : ∀ x : Value, '\n' ∉ x.repr u := by
    intro x
    cases x with
    | int m => exact not_mem_format_int rfl (by decide) m
    | str t => exact newline_not_mem_reprText u t
  have hjoin : ∀ items : List Text, (∀ i ∈ items, '\n' ∉ i) →
      '\n' ∉ List.intercalate ", ".toList items := by
    intro items
    induction items with
    | nil => simp
    | cons i items ih =>
        intro hitems
        rw [List.forall_mem_cons] at hitems
        cases items with
        | nil =>
            rw [List.intercalate_singleton]
            exact hitems.1
        | cons i' items =>
            rw [List.intercalate_cons_cons, List.mem_append, List.mem_append, not_or, not_or]
            exact ⟨⟨hitems.1, by decide⟩, ih hitems.2⟩
  rw [reprDict, List.mem_cons, List.mem_append, not_or, not_or]
  refine ⟨by decide, hjoin _ (List.forall_mem_map.2 fun x _ h => ?_), by decide⟩
  rcases List.mem_append.1 h with h | h
  · rcases List.mem_append.1 h with h | h
    · exact newline_not_mem_reprText u _ h
    · exact absurd h (by decide)
  · exact hvalue _ h

/-- No line of the output is joined with the next one. -/
theorem unspliced_output (u : Unicode) (v : Text → Hex) (n : ℤ) (s : Dict Text Value) :
    Unspliced (output (codeOf v (Value.int n).format) (reprDict u s)) := by
  have hcode : '\\' ∉ codeOf v (Value.int n).format := fun h =>
    absurd (isPlain_codeOf v n _ h) (by decide)
  have hlast : (reprDict u s).getLast? = some '\x7d' := by
    rw [reprDict, ← List.cons_append, List.getLast?_concat]
  rw [output]
  refine Unspliced.append (Unspliced.append (Unspliced.append
    (unspliced_of_not_mem (.inl hcode)) (unspliced_of_not_mem (.inl (by decide))) ?_)
    (unspliced_of_not_mem (.inr (newline_not_mem_reprDict u s))) ?_)
    (unspliced_of_not_mem (.inl (by decide))) ?_
  · exact fun h => hcode (List.mem_of_getLast? h)
  · rw [List.getLast?_append_of_ne_nil _ (by decide)]
    decide
  · rw [List.getLast?_append_of_ne_nil _ (by rw [reprDict]; exact List.cons_ne_nil _ _), hlast]
    decide

end Output

/-! ### The instruction pointer -/

/-- The sum of an address and an offset is computed in the type of the constant. -/
theorem eval_add_offset {r : ℕ} (hr : r < 2 ^ 64) {n : ℤ} (hmin : -2 ^ 31 + 1 ≤ n)
    (hmax : n ≤ 2 ^ 31 - 1) :
    (Expr.add (.hex r) (offsetExpr n)).eval = Val.result (hexTy r) (r + (hexTy r).wrap n) := by
  obtain ⟨x, hx, hty, hval⟩ := eval_offsetExpr hmin hmax
  rw [Expr.eval, eval_hex hr, hx, Option.bind_eq_bind, Option.bind_some, Option.bind_some,
    Val.add_int _ hty, hval]

/-- **The sum is right where there is room for it.** -/
theorem exists_eval_sum {r : ℕ} (hr : r < 2 ^ 64) {n : ℤ} (hmin : -2 ^ 31 + 1 ≤ n)
    (hmax : n ≤ 2 ^ 31 - 1) (hroom : RoomForSum (BitVec.ofNat 64 r) n) :
    ∃ x, (Expr.add (.hex r) (offsetExpr n)).eval = some x ∧ x.val % 2 ^ 64 = (r + n) % 2 ^ 64 := by
  have hnat : (BitVec.ofNat 64 r).toNat = r := by
    rw [BitVec.toNat_ofNat, Nat.mod_eq_of_lt hr]
  rw [RoomForSum, hnat] at hroom
  rw [eval_add_offset hr hmin hmax, hexTy]
  by_cases h₁ : r < 2 ^ 31
  · have hn : IntTy.int.wrap n = n :=
      IntTy.wrap_of_mem (by rw [IntTy.min_int]; omega) (by rw [IntTy.max_int]; omega)
    rw [if_pos h₁, hn]
    exact ⟨_, Val.result_of_mem (by rw [IntTy.min_int]; omega) (by rw [IntTy.max_int]; omega), rfl⟩
  rw [if_neg h₁]
  by_cases h₂ : r < 2 ^ 32
  · rw [if_pos h₂]
    refine ⟨_, Val.result_of_unsigned rfl, ?_⟩
    change IntTy.uint.wrap (r + IntTy.uint.wrap n) % 2 ^ 64 = _
    rw [IntTy.wrap_uint, IntTy.wrap_uint]
    omega
  rw [if_neg h₂]
  by_cases h₃ : r < 2 ^ 63
  · have hn : IntTy.long.wrap n = n :=
      IntTy.wrap_of_mem (by rw [IntTy.min_long]; omega) (by rw [IntTy.max_long]; omega)
    rw [if_pos h₃, hn]
    exact ⟨_, Val.result_of_mem (by rw [IntTy.min_long]; omega) (by rw [IntTy.max_long]; omega),
      rfl⟩
  · rw [if_neg h₃]
    refine ⟨_, Val.result_of_unsigned rfl, ?_⟩
    change IntTy.ulong.wrap (r + IntTy.ulong.wrap n) % 2 ^ 64 = _
    rw [IntTy.wrap_ulong, IntTy.wrap_ulong]
    omega

/-! ### `state-blob.c` -/

/-- Copying a text of ASCII to an address. -/
def memcpy {k : ℕ} (m : Image k) (a : ℕ) (t : Text) : Image k :=
  m.overwrite a t.length fun i => BitVec.ofNat 8 ((t[i]?.map Char.toNat).getD 0)

/-- **`main` of `state-blob.c`**, for the generated code that it includes: the bytes of
`cpu_state.bin`. -/
def stateBlob (L : Layout) (generatedState : Text) : Option (Image L.size) := do
  let magic ← L.field (path "magic")
  let endMagic ← L.field (path "end_magic")
  -- `memset`
  let s : Image L.size := fun _ => 0
  let s := memcpy s magic.offset "CPUSTATE".toList
  let s ← L.assign s (path "version") 0x0100
  let code ← program generatedState
  let s ← exec L code s
  return memcpy s endMagic.offset "ENDSTATE".toList

/-- **What the program asks of the structure**: the fields that it uses, of at most eight bytes, and
of exactly eight where it copies a text of eight characters. -/
structure Declares (L : Layout) : Prop where
  magic : ∃ f, L.field (path "magic") = some f ∧ f.size = 8
  version : ∃ f, L.field (path "version") = some f
  registers : ∀ a ∈ codeTemplate, ∃ f, L.field (path a.field) = some f ∧ f.size ≤ 8
  endMagic : ∃ f, L.field (path "end_magic") = some f ∧ f.size = 8

/-- The number that the field of a line should hold. -/
def target (v : Text → Hex) (ripOffset : ℤ) (a : Assign) : ℤ :=
  number v a + if a.plusOffset then ripOffset else 0

/-- **A file that holds given registers**, and the offset in the instruction pointer.  Each number
is cut off to the size of its field, and nothing else is in the file. -/
structure Holds (L : Layout) (v : Text → Hex) (ripOffset : ℤ) (m : Image L.size) : Prop where
  registers : ∀ a ∈ codeTemplate, ∀ f, L.field (path a.field) = some f →
    L.read m (path a.field) = some (target v ripOffset a % 256 ^ f.size).toNat
  version : ∀ f, L.field (path "version") = some f →
    L.read m (path "version") = some ((0x0100 : ℤ) % 256 ^ f.size).toNat
  magic : ∀ f, L.field (path "magic") = some f → ∀ i < 8,
    m.byte (f.offset + i) = BitVec.ofNat 8 (("CPUSTATE".toList[i]?.map Char.toNat).getD 0)
  endMagic : ∀ f, L.field (path "end_magic") = some f → ∀ i < 8,
    m.byte (f.offset + i) = BitVec.ofNat 8 (("ENDSTATE".toList[i]?.map Char.toNat).getD 0)
  rest : ∀ i, (∀ p ∈ ["magic", "version", "end_magic"] ++ codeTemplate.map Assign.field,
    ∀ f, L.field (path p) = some f → ¬f.Has i) → m.byte i = 0

/-! ### The file holds the registers -/

section Holds

variable {L : Layout} {v : Text → Hex} {n : ℤ}

/-- The bytes of a text of eight characters that is copied to a field of eight bytes. -/
theorem byte_memcpy {p : List Token} {f : Field} (hf : L.field p = some f) (hsize : f.size = 8)
    (m : Image L.size) {t : Text} (ht : t.length = 8) (i : ℕ) :
    (memcpy m f.offset t).byte i =
      if f.Has i then BitVec.ofNat 8 ((t[i - f.offset]?.map Char.toNat).getD 0) else m.byte i := by
  have hle : f.offset + t.length ≤ L.size := by
    rw [ht, ← hsize]
    exact L.fits hf
  have hiff : (f.offset ≤ i ∧ i < f.offset + t.length) ↔ f.Has i := by
    rw [Field.Has, hsize, ht]
  rw [memcpy, Image.byte_overwrite m hle, if_congr hiff rfl rfl]

/-- Copying a text to a field leaves the other fields alone. -/
theorem read_memcpy {p q : List Token} {f : Field} (hf : L.field p = some f) (hsize : f.size = 8)
    (m : Image L.size) {t : Text} (ht : t.length = 8) (hq : q ≠ p) :
    L.read (memcpy m f.offset t) q = L.read m q :=
  read_congr fun _ hg i hi => by
    rw [byte_memcpy hf hsize m ht, if_neg (L.apart hq hg hf i hi)]

/-- The names of the fields that are not registers. -/
theorem path_ne {a : Assign} (ha : a ∈ codeTemplate) :
    path a.field ≠ path "magic" ∧ path a.field ≠ path "version" ∧
      path a.field ≠ path "end_magic" := by
  have hall : ∀ a ∈ codeTemplate, path a.field ≠ path "magic" ∧ path a.field ≠ path "version" ∧
      path a.field ≠ path "end_magic" := by decide +kernel
  exact hall a ha

theorem key_of_plusOffset {a : Assign} (ha : a ∈ codeTemplate) (hplus : a.plusOffset = true) :
    a.key = "rip" := by
  have hall : ∀ a ∈ codeTemplate, a.plusOffset = true → a.key = "rip" := by decide
  exact hall a ha hplus

/-- **The expression of a line has the value that the field should hold**, modulo `2 ^ 64`. -/
theorem exists_eval_expr (hfit : ∀ k ∈ keys, HexNumeral.value (v k).1 < 2 ^ 64)
    (hmin : -2 ^ 31 + 1 ≤ n) (hmax : n ≤ 2 ^ 31 - 1)
    (hroom : RoomForSum (BitVec.ofNat 64 (HexNumeral.value (v "rip".toList).1)) n) {a : Assign}
    (ha : a ∈ codeTemplate) :
    ∃ x, (expr v n a).eval = some x ∧ x.val % 2 ^ 64 = target v n a % 2 ^ 64 := by
  have hnumber : number v a < 2 ^ 64 := hfit _ (List.mem_map_of_mem ha)
  by_cases hplus : a.plusOffset = true
  · have hrip : number v a = HexNumeral.value (v "rip".toList).1 := by
      rw [number, key_of_plusOffset ha hplus]
    rw [expr, if_pos hplus, target, if_pos hplus]
    exact exists_eval_sum hnumber hmin hmax (hrip ▸ hroom)
  · rw [expr, if_neg hplus, target, if_neg hplus, add_zero]
    exact ⟨_, eval_hex hnumber, rfl⟩

/-- A field of at most eight bytes sees a value modulo `2 ^ 64` only. -/
theorem emod_size {k : ℕ} (hk : k ≤ 8) {a b : ℤ} (h : a % 2 ^ 64 = b % 2 ^ 64) :
    a % 256 ^ k = b % 256 ^ k := by
  have hdvd : (256 : ℤ) ^ k ∣ 2 ^ 64 := by
    rw [show (2 : ℤ) ^ 64 = 256 ^ 8 by norm_num]
    exact pow_dvd_pow 256 hk
  rw [← Int.emod_emod_of_dvd a hdvd, h, Int.emod_emod_of_dvd b hdvd]

/-- **A run of the program**: the structure after the version has been stored, and after the
generated code. -/
structure Ran (L : Layout) (v : Text → Hex) (n : ℤ) (first last : Field)
    (s₁ s₂ : Image L.size) : Prop where
  magic : L.field (path "magic") = some first
  magic_size : first.size = 8
  endMagic : L.field (path "end_magic") = some last
  endMagic_size : last.size = 8
  version : L.assign (memcpy (fun _ => 0) first.offset "CPUSTATE".toList) (path "version") 0x0100 =
    some s₁
  registers : exec L (generated v n) s₁ = some s₂

theorem exists_ran (hL : Declares L) (hfit : ∀ k ∈ keys, HexNumeral.value (v k).1 < 2 ^ 64)
    (hmin : -2 ^ 31 + 1 ≤ n) (hmax : n ≤ 2 ^ 31 - 1)
    (hroom : RoomForSum (BitVec.ofNat 64 (HexNumeral.value (v "rip".toList).1)) n) :
    ∃ magic endMagic s₁ s₂, Ran L v n magic endMagic s₁ s₂ := by
  obtain ⟨magic, hmagic, hmagicSize⟩ := hL.magic
  obtain ⟨version, hversion⟩ := hL.version
  obtain ⟨endMagic, hendMagic, hendSize⟩ := hL.endMagic
  obtain ⟨s₁, hs₁⟩ : ∃ s, L.assign (memcpy (fun _ => 0) magic.offset "CPUSTATE".toList)
      (path "version") 0x0100 = some s := ⟨_, congrArg (Option.map _) hversion⟩
  obtain ⟨s₂, hs₂⟩ : ∃ s, exec L (generated v n) s₁ = some s := by
    refine exists_exec (List.forall_mem_map.2 fun a ha => ?_) s₁
    obtain ⟨f, hf, -⟩ := hL.registers a ha
    obtain ⟨x, hx, -⟩ := exists_eval_expr hfit hmin hmax hroom ha
    exact ⟨⟨f, hf⟩, x, hx⟩
  exact ⟨magic, endMagic, s₁, s₂, hmagic, hmagicSize, hendMagic, hendSize, hs₁, hs₂⟩

theorem register_of_mem_generated {s : Statement} (hs : s ∈ generated v n) :
    ∃ a ∈ codeTemplate, s.1 = path a.field := by
  obtain ⟨a, ha, rfl⟩ := List.mem_map.1 hs
  exact ⟨a, ha, rfl⟩

theorem byte_zero (i : ℕ) : Image.byte (n := L.size) (fun _ => 0) i = 0 := by
  rw [Image.byte]
  split <;> rfl

namespace Ran

variable {magic endMagic f : Field} {s₁ s₂ : Image L.size} {i : ℕ}

/-- The program step by step. -/
theorem stateBlob_eq (h : Ran L v n magic endMagic s₁ s₂) {t : Text}
    (hcode : program t = some (generated v n)) :
    stateBlob L t = some (memcpy s₂ endMagic.offset "ENDSTATE".toList) :=
  Option.bind_eq_some_iff.2 ⟨_, h.magic, Option.bind_eq_some_iff.2 ⟨_, h.endMagic,
    Option.bind_eq_some_iff.2 ⟨_, h.version, Option.bind_eq_some_iff.2 ⟨_, hcode,
      Option.bind_eq_some_iff.2 ⟨_, h.registers, rfl⟩⟩⟩⟩⟩

/-- The last step leaves the other fields alone. -/
theorem read_last (h : Ran L v n magic endMagic s₁ s₂) {q : List Token}
    (hq : q ≠ path "end_magic") :
    L.read (memcpy s₂ endMagic.offset "ENDSTATE".toList) q = L.read s₂ q :=
  read_memcpy h.endMagic h.endMagic_size s₂ rfl hq

theorem read_register (h : Ran L v n magic endMagic s₁ s₂) {a : Assign} (ha : a ∈ codeTemplate)
    (hf : L.field (path a.field) = some f) (hsize : f.size ≤ 8)
    (hfit : ∀ k ∈ keys, HexNumeral.value (v k).1 < 2 ^ 64)
    (hmin : -2 ^ 31 + 1 ≤ n) (hmax : n ≤ 2 ^ 31 - 1)
    (hroom : RoomForSum (BitVec.ofNat 64 (HexNumeral.value (v "rip".toList).1)) n) :
    L.read (memcpy s₂ endMagic.offset "ENDSTATE".toList) (path a.field) =
      some (target v n a % 256 ^ f.size).toNat := by
  have hnodup : ((generated v n).map Prod.fst).Nodup := by
    rw [generated, List.map_map]
    exact nodup_path
  obtain ⟨g, x, hg, hx, hread⟩ := read_of_exec h.registers hnodup _
    (List.mem_map.2 ⟨a, ha, rfl⟩)
  obtain ⟨x', hx', hmod⟩ := exists_eval_expr hfit hmin hmax hroom ha
  obtain rfl := Option.some.inj (hf.symm.trans hg)
  obtain rfl := Option.some.inj (hx.symm.trans hx')
  rw [h.read_last (path_ne ha).2.2, hread, emod_size hsize hmod]

theorem read_version (h : Ran L v n magic endMagic s₁ s₂)
    (hf : L.field (path "version") = some f) :
    L.read (memcpy s₂ endMagic.offset "ENDSTATE".toList) (path "version") =
      some ((0x0100 : ℤ) % 256 ^ f.size).toNat := by
  have hlater : ∀ s ∈ generated v n, s.1 ≠ path "version" := by
    intro s hs
    obtain ⟨a, ha, heq⟩ := register_of_mem_generated hs
    rw [heq]
    exact (path_ne ha).2.1
  rw [h.read_last (by decide +kernel), read_of_exec_of_not_mem h.registers hlater,
    read_of_assign h.version hf]

/-- A byte of no field that is stored to after the first one. -/
theorem byte_eq (h : Ran L v n magic endMagic s₁ s₂)
    (hversion : ∀ f, L.field (path "version") = some f → ¬f.Has i)
    (hregisters : ∀ a ∈ codeTemplate, ∀ f, L.field (path a.field) = some f → ¬f.Has i)
    (hend : ¬endMagic.Has i) :
    (memcpy s₂ endMagic.offset "ENDSTATE".toList).byte i =
      (memcpy (fun _ : Fin L.size => 0) magic.offset "CPUSTATE".toList).byte i := by
  have hcode : ∀ s ∈ generated v n, ∀ f, L.field s.1 = some f → ¬f.Has i := by
    intro s hs
    obtain ⟨a, ha, heq⟩ := register_of_mem_generated hs
    rw [heq]
    exact hregisters a ha
  rw [byte_memcpy h.endMagic h.endMagic_size s₂ rfl, if_neg hend, byte_of_exec h.registers hcode,
    byte_of_assign h.version hversion]

theorem byte_magic (h : Ran L v n magic endMagic s₁ s₂) (hi : i < 8) :
    (memcpy s₂ endMagic.offset "ENDSTATE".toList).byte (magic.offset + i) =
      BitVec.ofNat 8 (("CPUSTATE".toList[i]?.map Char.toNat).getD 0) := by
  have hin : magic.Has (magic.offset + i) := ⟨by omega, by rw [h.magic_size]; omega⟩
  have hother : ∀ p, path "magic" ≠ p → ∀ g, L.field p = some g → ¬g.Has (magic.offset + i) :=
    fun p hp g hg => L.apart hp h.magic hg _ hin
  rw [h.byte_eq (hother _ (by decide +kernel)) (fun a ha => hother _ (path_ne ha).1.symm)
    (hother _ (by decide +kernel) _ h.endMagic), byte_memcpy h.magic h.magic_size _ rfl, if_pos hin,
    Nat.add_sub_cancel_left]

theorem byte_endMagic (h : Ran L v n magic endMagic s₁ s₂) (hi : i < 8) :
    (memcpy s₂ endMagic.offset "ENDSTATE".toList).byte (endMagic.offset + i) =
      BitVec.ofNat 8 (("ENDSTATE".toList[i]?.map Char.toNat).getD 0) := by
  have hin : endMagic.Has (endMagic.offset + i) := ⟨by omega, by rw [h.endMagic_size]; omega⟩
  rw [byte_memcpy h.endMagic h.endMagic_size s₂ rfl, if_pos hin, Nat.add_sub_cancel_left]

theorem byte_rest (h : Ran L v n magic endMagic s₁ s₂)
    (hi : ∀ p ∈ ["magic", "version", "end_magic"] ++ codeTemplate.map Assign.field,
      ∀ f, L.field (path p) = some f → ¬f.Has i) :
    (memcpy s₂ endMagic.offset "ENDSTATE".toList).byte i = 0 := by
  rw [h.byte_eq (hi "version" (by simp))
    (fun a ha => hi _ (List.mem_append_right _ (List.mem_map_of_mem ha)))
    (hi "end_magic" (by simp) _ h.endMagic), byte_memcpy h.magic h.magic_size _ rfl,
    if_neg (hi "magic" (by simp) _ h.magic), byte_zero]

end Ran

/-- **The generated code fills the file**: when its numbers fit into 64 bits and the sum for the
instruction pointer has room, the program has a meaning and the file holds the registers. -/
theorem exists_stateBlob (hL : Declares L) {t : Text} (hcode : program t = some (generated v n))
    (hfit : ∀ k ∈ keys, HexNumeral.value (v k).1 < 2 ^ 64)
    (hmin : -2 ^ 31 + 1 ≤ n) (hmax : n ≤ 2 ^ 31 - 1)
    (hroom : RoomForSum (BitVec.ofNat 64 (HexNumeral.value (v "rip".toList).1)) n) :
    ∃ m, stateBlob L t = some m ∧ Holds L v n m := by
  obtain ⟨magic, endMagic, s₁, s₂, hran⟩ := exists_ran hL hfit hmin hmax hroom
  refine ⟨_, hran.stateBlob_eq hcode, ?_, fun f hf => hran.read_version hf, ?_, ?_,
    fun i hi => hran.byte_rest hi⟩
  · intro a ha f hf
    obtain ⟨g, hg, hsize⟩ := hL.registers a ha
    obtain rfl := Option.some.inj (hf.symm.trans hg)
    exact hran.read_register ha hf hsize hfit hmin hmax hroom
  · intro f hf i hi
    obtain rfl := Option.some.inj (hf.symm.trans hran.magic)
    exact hran.byte_magic hi
  · intro f hf i hi
    obtain rfl := Option.some.inj (hf.symm.trans hran.endMagic)
    exact hran.byte_endMagic hi

/-- **From the transcript to the file**: for every text on which the script succeeds and that does
not change the offset, if the numbers fit into 64 bits and the sum for the instruction pointer has
room, then the output compiles to a program that has a meaning, and the file that it writes holds,
in the field of every line, what the dictionary of the script has for its register. -/
theorem stateBlob_of_parse (hL : Declares L) {u : Unicode}
    (hlower : ∀ c : Char, 128 ≤ c.toNat → '/' ∉ u.lower c) {stdin out : Text}
    (hmain : main u n stdin = some out)
    (hoffset : offsetText n stdin = (Value.int n).format)
    (hmin : -2 ^ 31 + 1 ≤ n) (hmax : n ≤ 2 ^ 31 - 1)
    (hfit : ∀ k ∈ keys, ∀ t, (parse u n stdin).get? k = some (.str t) →
      HexNumeral.value t < 2 ^ 64)
    (hroom : ∀ t, (parse u n stdin).get? "rip".toList = some (.str t) →
      RoomForSum (BitVec.ofNat 64 (HexNumeral.value t)) n) :
    ∃ v : Text → Hex, (∀ k ∈ keys, (parse u n stdin).get? k = some (.str (v k).1)) ∧
      ∃ m, stateBlob L out = some m ∧ Holds L v n m := by
  obtain ⟨v, hv, rfl⟩ := exists_values hmain
  refine ⟨v, hv, ?_⟩
  have hrip : "rip".toList ∈ keys := List.mem_map_of_mem ipAssign_mem
  rw [hoffset]
  exact exists_stateBlob hL
    (program_output (opens_comment hlower) (unspliced_output u v n _).not_infix_of)
    (fun k hk => hfit k hk _ (hv k hk)) hmin hmax (hroom _ (hv _ hrip))

end Holds

/-! ### A file -/

/-- The output of the script on a transcript with every register. -/
theorem main_dump (u : Unicode) {v : Text → Hex} {stdin : Text} {ks : List Text} (n : ℤ)
    (h : Dump v (lines stdin) ks) (hall : ∀ k ∈ keys, k ∈ ks) :
    main u n stdin = some (output (codeOf v (Value.int n).format)
      (reprDict u (parse u n stdin))) := by
  obtain ⟨hregs, hoff⟩ := get?_parse u n h
  rw [main, formatMap_eq (fun k hk => hregs k (hall k hk)) hoff]
  rfl

/-- The offset of such a transcript is the one that was given. -/
theorem offsetText_dump (u : Unicode) {v : Text → Hex} {stdin : Text} {ks : List Text} (n : ℤ)
    (h : Dump v (lines stdin) ks) : offsetText n stdin = (Value.int n).format := by
  have hentry := (get?_parse u n h).2
  rw [get?_parse_offset, Option.some.injEq] at hentry
  rw [← format_offset, hentry]

/-- A structure with fields of eight bytes. -/
def exampleLayout : Layout :=
  .packed ((["magic", "version", "end_magic"] ++ codeTemplate.map Assign.field).map path) 8

theorem field_exampleLayout {p : String}
    (hp : p ∈ ["magic", "version", "end_magic"] ++ codeTemplate.map Assign.field) :
    ∃ f, exampleLayout.field (path p) = some f ∧ f.size = 8 :=
  ⟨_, if_pos (List.mem_map_of_mem hp), rfl⟩

theorem declares_exampleLayout : Declares exampleLayout where
  magic := field_exampleLayout (by simp)
  version := by
    obtain ⟨f, hf, -⟩ := field_exampleLayout (p := "version") (by simp)
    exact ⟨f, hf⟩
  registers := by
    intro a ha
    obtain ⟨f, hf, hsize⟩ := field_exampleLayout (p := a.field)
      (List.mem_append_right _ (List.mem_map_of_mem ha))
    exact ⟨f, hf, hsize.le⟩
  endMagic := field_exampleLayout (by simp)

/-- Adding nothing needs no room. -/
theorem roomForSum_zero (r : BitVec 64) : RoomForSum r 0 :=
  ⟨fun h => by omega, fun _ h => by omega, fun _ h => by omega⟩

/-- The registers of a transcript reach the file. -/
theorem stateBlob_of_parse_example : ∃ out, main asciiUnicode 0 exampleTranscript = some out ∧
    ∃ v : Text → Hex,
      (∀ k ∈ keys, (parse asciiUnicode 0 exampleTranscript).get? k = some (.str (v k).1)) ∧
        ∃ m, stateBlob exampleLayout out = some m ∧ Holds exampleLayout v 0 m := by
  obtain ⟨ks, hdump, hall⟩ := exampleTranscript_dump
  have hregs := (get?_parse asciiUnicode 0 hdump).1
  have hvalue : ∀ k ∈ keys, HexNumeral.value (exampleValue k).1 < 2 ^ 64 := by decide +kernel
  refine ⟨_, main_dump asciiUnicode 0 hdump hall, stateBlob_of_parse declares_exampleLayout
    slash_not_mem_asciiUnicode (main_dump asciiUnicode 0 hdump hall)
    (offsetText_dump asciiUnicode 0 hdump) (by norm_num) (by norm_num) ?_
    fun _ _ => roomForSum_zero _⟩
  intro k hk t ht
  rw [hregs k (hall k hk), Option.some.injEq, Value.str.injEq] at ht
  exact ht ▸ hvalue k hk

end CpuState

/-
**What an input can do to the generated code.**

The script prints C that is compiled and run.  Its input is the transcript of a monitor session, so
the question is what a text can put into that C.  It can choose the digits of the registers, and no
more than digits.  It cannot end the comment early, although one pattern takes any character for
the name of a table: a slash in such a name is printed behind a quotation mark.  But the offset is
an entry of the same dictionary, and a token `RIP_OFFSET=…` replaces it.

Main definitions:

* `RegisterScript.offsetsIn` — the values that a text gives to `RIP_OFFSET`;
* `RegisterScript.Contained` — the output is the template with digits of the input and the given
  offset, and one comment.

Main results:

* `RegisterScript.main_eq_some` — **the output of the script on any text**;
* `RegisterScript.harmless_reprDict` — the comment is not ended early;
* `RegisterScript.contained_iff` — the input is contained exactly when it does not change the
  offset.
-/

import Mathlib.Data.List.Chain
import ResumeFromEdk2.InfoRegisters
import ResumeFromEdk2.InstructionPointer

set_option relaxedAutoImplicit false
set_option autoImplicit false

namespace RegisterScript

open PyText Regex

/-! ### The values of an entry -/

section Values

variable {u : Unicode} {stdin : Text} {a : Text × Text}

/-- **Every value that is assigned is a number of the input.** -/
theorem hexIn_of_mem_assignments (ha : a ∈ (lines stdin).flatMap (lineAssignments u)) :
    HexIn a.2 stdin := by
  obtain ⟨line, hline, ha⟩ := List.mem_flatMap.1 ha
  obtain ⟨p, q, hread, -⟩ := exists_of_mem_lines hline
  have hvalue : HexIn a.2 line := by
    rcases List.mem_append.1 ha with ha | ha
    · rcases List.mem_append.1 ha with ha | ha
      · obtain ⟨n, sp, x, l, htok, hsuf, -, rfl⟩ := exists_of_mem_regAssignments ha
        refine ⟨htok.value_ne, htok.value, List.IsInfix.trans ?_ hsuf.isInfix⟩
        exact ⟨n ++ sp ++ ['='], l, by simp [tokenText]⟩
      · obtain ⟨c, y, -, -, hvalue⟩ := exists_of_mem_xdtAssignments ha
        exact hvalue
    · exact (exists_of_mem_segAssignments ha).2
  exact ⟨hvalue.ne, hvalue.hex, hvalue.infix_of.trans ⟨p, q, by rw [hread, List.append_assoc]⟩⟩

/-- The keys are printed in the comment.  After its first character none has a slash. -/
theorem slash_not_mem_tail (hlower : ∀ c : Char, 128 ≤ c.toNat → '/' ∉ u.lower c)
    (ha : a ∈ (lines stdin).flatMap (lineAssignments u)) : '/' ∉ a.1.tail := by
  obtain ⟨line, -, ha⟩ := List.mem_flatMap.1 ha
  rcases List.mem_append.1 ha with ha | ha
  · rcases List.mem_append.1 ha with ha | ha
    · obtain ⟨n, sp, x, l, htok, -, -, rfl⟩ := exists_of_mem_regAssignments ha
      intro h
      obtain ⟨c, hc, hlow⟩ := List.mem_map.1 (List.mem_of_mem_tail h)
      have hup := (isName_spec (htok.name c hc)).2.2.2.2
      rw [hlow] at hup
      have hslash := htok.name c hc
      rw [← hup] at hslash
      exact absurd hslash (by decide)
    · obtain ⟨c, y, hy, hkey, -⟩ := exists_of_mem_xdtAssignments ha
      have hend : '/' ∉ 'd' :: 't' :: y := by
        simp only [List.mem_cons, List.not_mem_nil, or_false] at hy
        rcases hy with rfl | rfl <;> simp
      rw [hkey]
      rcases Nat.lt_or_ge c.toNat 128 with hascii | hascii
      · rw [u.lower_ascii c hascii]
        exact hend
      · intro h
        rcases List.mem_append.1 (List.mem_of_mem_tail h) with h | h
        · exact hlower c hascii h
        · exact hend h
  · have hkey := (exists_of_mem_segAssignments ha).1
    simp only [List.mem_cons, List.not_mem_nil, or_false] at hkey
    rcases hkey with hkey | hkey <;> rw [hkey] <;> simp

/-- What the dictionary holds: the offset, and numbers of the input. -/
theorem mem_parse {ripOffset : ℤ} {x : Text × Value} (hx : x ∈ parse u ripOffset stdin) :
    (∃ a ∈ (lines stdin).flatMap (lineAssignments u), x = (a.1, .str a.2)) ∨
      x = ("rip_offset".toList, .int ripOffset) := by
  rcases Dict.mem_setAll hx with hx | hx
  · obtain ⟨a, ha, rfl⟩ := List.mem_map.1 hx
    exact .inl ⟨a, ha, rfl⟩
  · exact .inr (List.mem_singleton.1 hx)

end Values

/-! ### The comment -/

/-- **Text that ends no comment**, whatever stands before it: it does not begin with `/`, and no `*`
in it is directly followed by one. -/
structure Harmless (t : Text) : Prop where
  chain : List.IsChain (fun a b => ¬(a = '*' ∧ b = '/')) t
  head : t.head? ≠ some '/'

theorem Harmless.keeps_open {t : Text} (h : Harmless t) : ¬['*', '/'] <:+: t := by
  intro hend
  have hchain := List.IsChain.infix h.chain hend
  exact (List.isChain_cons_cons.1 hchain).1 ⟨rfl, rfl⟩

theorem Harmless.append {s t : Text} (hs : Harmless s) (ht : Harmless t) : Harmless (s ++ t) where
  chain := List.isChain_append.2
    ⟨hs.chain, ht.chain, fun _ _ _ hc h => ht.head (Option.mem_def.1 (h.2 ▸ hc))⟩
  head := by
    cases s with
    | nil => exact ht.head
    | cons c s => exact hs.head

/-- Text without a slash ends no comment. -/
theorem harmless_of_not_mem {t : Text} (h : '/' ∉ t) : Harmless t where
  chain := by
    induction t with
    | nil => exact List.isChain_nil
    | cons c t ih =>
        rw [List.mem_cons, not_or] at h
        exact List.isChain_cons.2
          ⟨fun d hd hcd => h.2 (List.mem_of_mem_head? (hcd.2 ▸ hd)), ih h.2⟩
  head hhead := h (List.mem_of_mem_head? hhead)

theorem slash_not_mem_hexDigits (k n : ℕ) : '/' ∉ hexDigits k n := by
  intro h
  exact absurd (HexNumeral.isDigit_of_mem_padded (k := k) h) (by decide)

/-- A slash is printed as it is, and nothing else has one in what is printed for it. -/
theorem reprChar_slash (u : Unicode) {quote c : Char} (hc : c ≠ '/') :
    '/' ∉ reprChar u quote c := by
  have hite : ∀ {P : Prop} [Decidable P] {s t : Text}, '/' ∉ s → '/' ∉ t →
      '/' ∉ if P then s else t := by
    intro P _ s t hs ht
    split
    · exact hs
    · exact ht
  have hx : ∀ (k n : ℕ) (t : Text), '/' ∉ t → '/' ∉ t ++ hexDigits k n := by
    intro k n t ht h
    rcases List.mem_append.1 h with h | h
    · exact ht h
    · exact slash_not_mem_hexDigits k n h
  refine hite ?_ (hite (by simp) (hite (by simp) (hite (by simp) (hite ?_ (hite ?_ (hite ?_
    (hite ?_ ?_)))))))
  · simp [hc.symm]
  · exact hx _ _ _ (by simp)
  · simp [hc.symm]
  · exact hx _ _ _ (by simp)
  · exact hx _ _ _ (by simp)
  · exact hx _ _ _ (by simp)

theorem slash_not_mem_flatMap (u : Unicode) (quote : Char) {t : Text} (ht : '/' ∉ t) :
    '/' ∉ t.flatMap (reprChar u quote) := by
  intro h
  obtain ⟨c, hc, hslash⟩ := List.mem_flatMap.1 h
  exact reprChar_slash u (fun heq => ht (heq ▸ hc)) hslash

/-- **A key is printed without ending the comment**: a slash at its start stands behind the
quotation mark. -/
theorem harmless_reprText (u : Unicode) {t : Text} (ht : '/' ∉ t.tail) :
    Harmless (reprText u t) := by
  have hquoted : ∀ q : Char, q ≠ '/' → q ≠ '*' →
      Harmless (q :: (t.flatMap (reprChar u q) ++ [q])) := by
    intro q hslash hstar
    have hmark : '/' ∉ [q] := by simpa using hslash.symm
    cases t with
    | nil => exact (harmless_of_not_mem hmark).append (harmless_of_not_mem hmark)
    | cons c t =>
        have hrest : Harmless (t.flatMap (reprChar u q) ++ [q]) :=
          (harmless_of_not_mem (slash_not_mem_flatMap u q ht)).append (harmless_of_not_mem hmark)
        rw [List.flatMap_cons, List.append_assoc, ← List.cons_append]
        refine Harmless.append ?_ hrest
        by_cases hc : c = '/'
        · have hraw : ¬('/' = q ∨ '/' = '\\') := by
            rintro (heq | heq)
            · exact hslash heq.symm
            · cases heq
          have hslash' : reprChar u q '/' = ['/'] := by
            rw [reprChar, if_neg hraw]
            rfl
          rw [hc, hslash']
          exact ⟨List.isChain_cons.2 ⟨fun _ _ h => hstar h.1, List.isChain_singleton _⟩,
            fun h => hslash (Option.some.inj h)⟩
        · exact (harmless_of_not_mem hmark).append (harmless_of_not_mem (reprChar_slash u hc))
  unfold reprText
  by_cases hq : '\x27' ∈ t ∧ '\x22' ∉ t
  · rw [if_pos hq]
    exact hquoted _ (by decide) (by decide)
  · rw [if_neg hq]
    exact hquoted _ (by decide) (by decide)

theorem slash_not_mem_of_isHex {t : Text} (ht : ∀ c ∈ t, isHex c = true) : '/' ∉ t :=
  fun h => absurd (ht _ h) (by decide)

/-- The offset in decimal has digits and perhaps a sign. -/
theorem not_mem_format_int {c : Char} (hdigit : c.isDigit = false) (hsign : c ≠ '-') (n : ℤ) :
    c ∉ (Value.int n).format := by
  have hdigits : ∀ k, c ∉ Nat.toDigits 10 k := by
    intro k h
    rw [Nat.isDigit_of_mem_toDigits (by norm_num) (by norm_num) h] at hdigit
    cases hdigit
  rcases lt_or_ge n 0 with hn | hn
  · rw [format_int_of_neg hn, List.mem_cons, not_or]
    exact ⟨hsign, hdigits _⟩
  · rw [format_int_of_nonneg hn]
    exact hdigits _

theorem Harmless.intercalate {sep : Text} (hsep : Harmless sep) {items : List Text}
    (h : ∀ i ∈ items, Harmless i) : Harmless (List.intercalate sep items) := by
  induction items with
  | nil => exact harmless_of_not_mem List.not_mem_nil
  | cons i items ih =>
      rw [List.forall_mem_cons] at h
      cases items with
      | nil =>
          rw [List.intercalate_singleton]
          exact h.1
      | cons i' items =>
          rw [List.intercalate_cons_cons]
          exact (h.1.append hsep).append (ih h.2)

/-- **The dictionary is printed without ending the comment.** -/
theorem harmless_reprDict {u : Unicode} {stdin : Text} {ripOffset : ℤ}
    (hlower : ∀ c : Char, 128 ≤ c.toNat → '/' ∉ u.lower c) :
    Harmless (reprDict u (parse u ripOffset stdin)) := by
  have hentry : ∀ x ∈ parse u ripOffset stdin,
      Harmless (reprText u x.1 ++ ": ".toList ++ x.2.repr u) := by
    intro x hx
    have hcolon : Harmless ": ".toList := harmless_of_not_mem (by simp)
    rcases mem_parse hx with ⟨a, ha, rfl⟩ | rfl
    · have hvalue : '/' ∉ a.2.tail := fun h =>
        slash_not_mem_of_isHex (hexIn_of_mem_assignments ha).hex (List.mem_of_mem_tail h)
      exact ((harmless_reprText u (slash_not_mem_tail hlower ha)).append hcolon).append
        (harmless_reprText u hvalue)
    · exact ((harmless_reprText u (by simp)).append hcolon).append
        (harmless_of_not_mem (not_mem_format_int rfl (by decide) ripOffset))
  have hitems : Harmless (List.intercalate ", ".toList
      ((parse u ripOffset stdin).map fun a => reprText u a.1 ++ ": ".toList ++ a.2.repr u)) :=
    (harmless_of_not_mem (by simp)).intercalate (List.forall_mem_map.2 hentry)
  rw [reprDict]
  exact (harmless_of_not_mem (t := ['\x7b']) (by simp)).append
    (hitems.append (harmless_of_not_mem (by simp)))

/-! ### The offset -/

/-- The values that a line gives to `RIP_OFFSET`. -/
def lineOffsets (line : Text) : List Text :=
  ((regPattern.findall line).filter fun m => strip (groupText m 1) = "RIP_OFFSET".toList).map
    fun m => groupText m 2

/-- **The values that a text gives to `RIP_OFFSET`**, in the order in which they are read. -/
def offsetsIn (stdin : Text) : List Text := (lines stdin).flatMap lineOffsets

/-- The name and the value of a token that is found. -/
theorem exists_of_mem_findall {line : Text} {m : Match Char} (h : m ∈ regPattern.findall line) :
    ∃ n sp x, IsToken n sp x ∧ m.groups = [n ++ sp, x] ∧ strip (groupText m 1) = n := by
  obtain ⟨l, -, hfirst⟩ := first_of_mem_findall h
  obtain ⟨n, sp, x, htok, -, -, hgroups⟩ := isToken_of_first hfirst
  refine ⟨n, sp, x, htok, hgroups, ?_⟩
  have hgroup : groupText m 1 = n ++ sp := by
    rw [groupText, hgroups]
    rfl
  rw [hgroup]
  exact htok.strip_name

/-- The values are hexadecimal digits. -/
theorem isHex_of_mem_offsetsIn {stdin x : Text} (hx : x ∈ offsetsIn stdin) :
    ∀ c ∈ x, isHex c = true := by
  obtain ⟨line, -, hx⟩ := List.mem_flatMap.1 hx
  obtain ⟨m, hm, rfl⟩ := List.mem_map.1 hx
  obtain ⟨n, sp, x, htok, hgroups, -⟩ := exists_of_mem_findall (List.mem_filter.1 hm).1
  rw [groupText, hgroups]
  exact htok.value

/-- What one line assigns to the offset. -/
theorem filter_lineAssignments (u : Unicode) (line : Text) :
    (lineAssignments u line).filter (fun a => a.1 = "rip_offset".toList) =
      (lineOffsets line).map (Prod.mk "rip_offset".toList) := by
  have hxdt : (xdtAssignments u line).filter (fun a => a.1 = "rip_offset".toList) = [] := by
    refine List.filter_eq_nil_iff.2 fun a ha hkey => ?_
    obtain ⟨c, y, hy, hkey', -⟩ := exists_of_mem_xdtAssignments ha
    have hlast := congrArg List.getLast? (hkey'.symm.trans (of_decide_eq_true hkey))
    simp only [List.mem_cons, List.not_mem_nil, or_false] at hy
    rcases hy with rfl | rfl <;> simp at hlast
  have hseg : (segAssignments u line).filter (fun a => a.1 = "rip_offset".toList) = [] := by
    refine List.filter_eq_nil_iff.2 fun a ha hkey => ?_
    have hmem := (exists_of_mem_segAssignments ha).1
    rw [of_decide_eq_true hkey] at hmem
    exact absurd hmem (by decide)
  rw [lineAssignments, List.filter_append, List.filter_append, hxdt, hseg, List.append_nil,
    List.append_nil, regAssignments, List.filter_map, lineOffsets, List.map_map]
  have hkey : ∀ m ∈ regPattern.findall line,
      ((fun a => decide (a.1 = "rip_offset".toList)) ∘ regAssignment u) m =
        decide (strip (groupText m 1) = "RIP_OFFSET".toList) := by
    intro m hm
    obtain ⟨n, sp, x, htok, hgroups, hname⟩ := exists_of_mem_findall hm
    rw [Function.comp_apply, regAssignment_token u htok hgroups, hname]
    refine decide_eq_decide.2 ⟨fun h => ?_, fun h => ?_⟩
    · rw [← htok.upper_lower, show n.map Char.toLower = "rip_offset".toList from h]
      rfl
    · rw [h]
      rfl
  rw [List.filter_congr hkey]
  refine List.map_congr_left fun m hm => ?_
  obtain ⟨hm, hname⟩ := List.mem_filter.1 hm
  obtain ⟨n, sp, x, htok, hgroups, hname'⟩ := exists_of_mem_findall hm
  obtain rfl : n = "RIP_OFFSET".toList := hname'.symm.trans (of_decide_eq_true hname)
  rw [regAssignment_token u htok hgroups, Function.comp_apply, groupText, hgroups]
  rfl

/-- **The entry for the offset** is the last value that the text gives to `RIP_OFFSET`, or the
offset that was given. -/
theorem get?_parse_offset (u : Unicode) (ripOffset : ℤ) (stdin : Text) :
    (parse u ripOffset stdin).get? "rip_offset".toList =
      some (((offsetsIn stdin).getLast?.map Value.str).getD (.int ripOffset)) := by
  have hfilter : ((lines stdin).flatMap (lineAssignments u)).filter
      (fun a => a.1 = "rip_offset".toList) =
        (offsetsIn stdin).map (Prod.mk "rip_offset".toList) := by
    rw [List.filter_flatMap, offsetsIn, List.map_flatMap]
    exact List.flatMap_congr fun line _ => filter_lineAssignments u line
  have hmap : (((lines stdin).flatMap (lineAssignments u)).map
      fun a => (a.1, Value.str a.2)).filter (fun a => a.1 = "rip_offset".toList) =
        (offsetsIn stdin).map fun x => ("rip_offset".toList, Value.str x) := by
    rw [List.filter_map]
    exact (congrArg (List.map _) hfilter).trans List.map_map
  rw [parse, Dict.get?_setAll_eq, hmap, List.getLast?_map, Option.map_map]
  cases (offsetsIn stdin).getLast? <;> rfl

/-! ### The code -/

section Code

variable {u : Unicode} {stdin out : Text} {ripOffset : ℤ}

/-- What the code takes for the offset. -/
def offsetText (ripOffset : ℤ) (stdin : Text) : Text :=
  (offsetsIn stdin).getLast?.getD (Value.int ripOffset).format

theorem format_offset (ripOffset : ℤ) (stdin : Text) :
    (((offsetsIn stdin).getLast?.map Value.str).getD (.int ripOffset)).format =
      offsetText ripOffset stdin := by
  rw [offsetText]
  cases (offsetsIn stdin).getLast? <;> rfl

/-- The number `0`. -/
def zeroDigit : Hex := ⟨['0'], List.cons_ne_nil _ _, fun _ hc => List.mem_singleton.1 hc ▸ rfl⟩

/-- A register that the template takes holds a number of the input. -/
theorem exists_hex_of_get? {k : Text} {x : Value} (hk : k ∈ keys)
    (h : (parse u ripOffset stdin).get? k = some x) :
    ∃ v : Hex, x = .str v.1 ∧ v.1 <:+: stdin := by
  rcases mem_parse (Dict.mem_of_get? h) with ⟨a, ha, heq⟩ | heq
  · obtain ⟨-, rfl⟩ := Prod.mk.inj heq
    have hvalue := hexIn_of_mem_assignments ha
    exact ⟨⟨a.2, hvalue.ne, hvalue.hex⟩, rfl, hvalue.infix_of⟩
  · obtain ⟨rfl, -⟩ := Prod.mk.inj heq
    exact absurd hk offset_not_mem_keys

/-- **The output of the script**: the template, with what the dictionary holds for the registers. -/
theorem exists_values (h : main u ripOffset stdin = some out) :
    ∃ v : Text → Hex, (∀ k ∈ keys, (parse u ripOffset stdin).get? k = some (.str (v k).1)) ∧
      out = output (codeOf v (offsetText ripOffset stdin))
        (reprDict u (parse u ripOffset stdin)) := by
  obtain ⟨code, hcode, hprint⟩ := Option.bind_eq_some_iff.1 h
  have hvalues : ∀ k, ∃ v : Hex, k ∈ keys →
      (parse u ripOffset stdin).get? k = some (.str v.1) := by
    intro k
    by_cases hk : k ∈ keys
    · obtain ⟨a, ha, rfl⟩ := List.mem_map.1 hk
      obtain ⟨line, hline, -⟩ := exists_of_formatMap hcode a ha
      obtain ⟨x, hx, -⟩ := Option.bind_eq_some_iff.1 hline
      obtain ⟨v, rfl, -⟩ := exists_hex_of_get? hk hx
      exact ⟨v, fun _ => hx⟩
    · exact ⟨zeroDigit, fun h => absurd h hk⟩
  choose v hv using hvalues
  have hcode' := formatMap_eq hv (get?_parse_offset u ripOffset stdin)
  rw [hcode, Option.some.injEq, format_offset] at hcode'
  exact ⟨v, hv, by rw [← Option.some.inj hprint, hcode']⟩

/-- **The output of the script on any text**: the template, with numbers of the input for the
registers, and the dictionary in a comment. -/
theorem main_eq_some (h : main u ripOffset stdin = some out) :
    ∃ v : Text → Hex, out = output (codeOf v (offsetText ripOffset stdin))
        (reprDict u (parse u ripOffset stdin)) ∧ ∀ k ∈ keys, (v k).1 <:+: stdin := by
  obtain ⟨v, hv, hout⟩ := exists_values h
  refine ⟨v, hout, fun k hk => ?_⟩
  obtain ⟨x, hx, hinfix⟩ := exists_hex_of_get? hk (hv k hk)
  rwa [Value.str.inj hx]

theorem Assign.text_mk (field key : String) (plusOffset : Bool) (reg offset : Text) :
    Assign.text ⟨field, key, plusOffset⟩ reg offset =
      "  s.".toList ++ field.toList ++ " = 0x".toList ++ reg ++
        (if plusOffset then " + ".toList ++ offset else []) ++ ";\n".toList := rfl

/-- The values of the registers and the offset can be read back from a line of the code. -/
theorem text_inj {a : Assign} {x x' : Hex} {o o' r r' : Text} (ho : ';' ∉ o) (ho' : ';' ∉ o')
    (h : a.text x.1 o ++ r = a.text x'.1 o' ++ r') :
    (a.plusOffset = true → o = o') ∧ r = r' := by
  obtain ⟨field, key, plusOffset⟩ := a
  simp only [Assign.text_mk, List.append_assoc] at h
  have h := List.append_cancel_left (List.append_cancel_left (List.append_cancel_left h))
  cases plusOffset with
  | false =>
      simp only [Bool.false_eq_true, if_false, List.nil_append] at h
      have hx := eq_of_stops x.2.2 x'.2.2 (stops_cons.2 rfl) (stops_cons.2 rfl) h
      rw [hx] at h
      exact ⟨fun hplus => absurd hplus Bool.false_ne_true,
        List.append_cancel_left (List.append_cancel_left h)⟩
  | true =>
      simp only [if_true, List.append_assoc] at h
      have hx := eq_of_stops x.2.2 x'.2.2 (stops_cons.2 rfl) (stops_cons.2 rfl) h
      rw [hx] at h
      -- the offset ends at the semicolon
      have hoffset : o ++ ';' :: '\n' :: r = o' ++ ';' :: '\n' :: r' :=
        List.append_cancel_left (List.append_cancel_left h)
      have hclass : ∀ {t : Text}, ';' ∉ t → ∀ c ∈ t, decide (c ≠ ';') = true :=
        fun ht c hc => decide_eq_true fun heq => ht (heq ▸ hc)
      obtain rfl := eq_of_stops (hclass ho) (hclass ho') (stops_cons.2 rfl) (stops_cons.2 rfl)
        hoffset
      have hrest := List.append_cancel_left hoffset
      exact ⟨fun _ => rfl, (List.cons.inj (List.cons.inj hrest).2).2⟩

/-- **The offset can be read back from the code.** -/
theorem eq_of_codeOf_append {v v' : Text → Hex} {o o' r r' : Text} (ho : ';' ∉ o) (ho' : ';' ∉ o')
    (h : codeOf v o ++ r = codeOf v' o' ++ r') : o = o' := by
  have hlines : ∀ l : List Assign,
      (l.map fun a => a.text (v a.key.toList).1 o).flatten ++ r =
        (l.map fun a => a.text (v' a.key.toList).1 o').flatten ++ r' →
      ∀ a ∈ l, a.plusOffset = true → o = o' := by
    intro l
    induction l with
    | nil => simp
    | cons a l ih =>
        intro h
        simp only [List.map_cons, List.flatten_cons, List.append_assoc] at h
        obtain ⟨hoffset, hrest⟩ := text_inj ho ho' h
        exact List.forall_mem_cons.2 ⟨hoffset, ih hrest⟩
  exact hlines codeTemplate (List.cons.inj h).2 ipAssign ipAssign_mem rfl

theorem semicolon_not_mem_offsetText (ripOffset : ℤ) (stdin : Text) :
    ';' ∉ offsetText ripOffset stdin := by
  rw [offsetText]
  cases hlast : (offsetsIn stdin).getLast? with
  | none => exact not_mem_format_int rfl (by decide) ripOffset
  | some x =>
      intro h
      exact absurd (isHex_of_mem_offsetsIn (List.mem_of_getLast? hlast) _ h) (by decide)

/-- Lowercase letters outside ASCII have no slash: here they are the letters themselves. -/
theorem slash_not_mem_asciiUnicode (c : Char) (hc : 128 ≤ c.toNat) :
    '/' ∉ asciiUnicode.lower c := by
  intro h
  have heq : '/' = c.toLower := List.mem_singleton.1 h
  rw [toLower_of_nonAscii hc] at heq
  rw [← heq] at hc
  exact absurd hc (by decide)

/-! ### What an input can change -/

/-- **The output is the template with numbers of the input for the registers, with the offset that
was given, and with one comment**, which ends at its last line. -/
def Contained (ripOffset : ℤ) (stdin out : Text) : Prop :=
  ∃ (v : Text → Hex) (comment : Text),
    out = output (codeOf v (Value.int ripOffset).format) comment ∧
      (∀ k ∈ keys, (v k).1 <:+: stdin) ∧ ¬['*', '/'] <:+: '\n' :: (comment ++ ['\n', '*'])

/-- If the input is contained, then the code takes the offset that was given. -/
theorem Contained.offset_eq {v : Text → Hex} {o comment : Text} (ho : ';' ∉ o)
    (h : Contained ripOffset stdin (output (codeOf v o) comment)) :
    o = (Value.int ripOffset).format := by
  obtain ⟨v', comment', hout, -, -⟩ := h
  rw [output, output, List.append_assoc, List.append_assoc, List.append_assoc, List.append_assoc]
    at hout
  exact eq_of_codeOf_append ho (not_mem_format_int rfl (by decide) ripOffset) hout

/-- **The input is contained exactly when it does not change the offset**: the last value that it
gives to `RIP_OFFSET`, if any, is the offset in decimal. -/
theorem contained_iff (hlower : ∀ c : Char, 128 ≤ c.toNat → '/' ∉ u.lower c)
    (hmain : main u ripOffset stdin = some out) :
    Contained ripOffset stdin out ↔
      ∀ x ∈ (offsetsIn stdin).getLast?, x = (Value.int ripOffset).format := by
  have hiff : offsetText ripOffset stdin = (Value.int ripOffset).format ↔
      ∀ x ∈ (offsetsIn stdin).getLast?, x = (Value.int ripOffset).format := by
    rw [offsetText]
    cases (offsetsIn stdin).getLast? <;> simp
  obtain ⟨v, rfl, hv⟩ := main_eq_some hmain
  rw [← hiff]
  constructor
  · intro h
    exact h.offset_eq (semicolon_not_mem_offsetText ripOffset stdin)
  · intro h
    refine ⟨v, _, by rw [h], hv, ?_⟩
    have hnewline : Harmless ['\n'] := harmless_of_not_mem (by simp)
    exact (hnewline.append ((harmless_reprDict hlower).append
      (harmless_of_not_mem (by simp)))).keeps_open

end Code

/-- The transcript of a session without a token for the offset. -/
theorem contained_iff_transcript : ∃ out, main asciiUnicode 0 exampleTranscript = some out ∧
    (Contained 0 exampleTranscript out ↔
      ∀ x ∈ (offsetsIn exampleTranscript).getLast?, x = (Value.int 0).format) := by
  obtain ⟨ks, hdump, hall⟩ := exampleTranscript_dump
  obtain ⟨comment, hmain⟩ := main_of_dump asciiUnicode hdump hall
  exact ⟨_, hmain, contained_iff slash_not_mem_asciiUnicode hmain⟩

/-- All registers, and an offset. -/
def craftedTranscript : Text := tokenLine (fun _ => zeroDigit) keys ++ "RIP_OFFSET=1\n".toList

theorem parse_crafted : parse asciiUnicode 0 craftedTranscript =
    ("rip_offset".toList, .str ['1']) :: keys.eraseDups.map fun k => (k, .str ['0']) := by
  decide +kernel

/-- A token `RIP_OFFSET=1` is added to the instruction pointer. -/
theorem not_contained_crafted : ∃ out, main asciiUnicode 0 craftedTranscript = some out ∧
    ¬Contained 0 craftedTranscript out := by
  have hregs : ∀ k ∈ keys, (parse asciiUnicode 0 craftedTranscript).get? k =
      some (.str zeroDigit.1) := by
    rw [parse_crafted]
    decide +kernel
  have hoff : (parse asciiUnicode 0 craftedTranscript).get? "rip_offset".toList =
      some (.str ['1']) := by
    rw [parse_crafted]
    rfl
  have hmain : main asciiUnicode 0 craftedTranscript =
      some (output (codeOf (fun _ => zeroDigit) ['1'])
        (reprDict asciiUnicode (parse asciiUnicode 0 craftedTranscript))) := by
    rw [main, formatMap_eq hregs hoff]
    rfl
  refine ⟨_, hmain, fun h => ?_⟩
  have hone : ['1'] = (Value.int 0).format := h.offset_eq (by simp)
  exact absurd hone (by decide)

end RegisterScript

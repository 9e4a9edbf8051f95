/-
**The register dump of `info registers` becomes the right CPU state.**

The transcript that `process_qemu_info_registers.py` reads has the registers of the source machine
among much else.  This module describes such transcripts and proves that the script takes from
them, for every field of the saved state, the value of the field's own register.

The value of a register is the text of its digits.  It is named by the key that the template uses
for it: the base of the segment `FS` is `fs_base`, the base and the limit of the table `GDT` are
`gdt_addr` and `gdt_size`, and the other registers have the name that QEMU prints, in lower case.

Main definitions:

* `RegisterScript.Body`, `RegisterScript.Line`, `RegisterScript.Dump` — the text of a line with
  tokens among other text, the lines of a transcript, and transcripts, with the registers that
  occur in them;
* `RegisterScript.Sets` — assignments that set some registers, and set them right;
* `RegisterScript.codeOf` — the code with given values.

Main results:

* `RegisterScript.Body.sets`, `RegisterScript.Line.sets`, `RegisterScript.Dump.sets` — what the
  script reads from a line and from a transcript;
* `RegisterScript.main_of_dump` — **the script succeeds and every field gets its own register**.
-/

import ResumeFromEdk2.RegisterTokens

set_option relaxedAutoImplicit false
set_option autoImplicit false

namespace RegisterScript

open PyText Regex

/-! ### Transcripts -/

/-- The registers that are not printed as a token, or only at the start of a line of their own. -/
def lineKeys : List Text :=
  ["fs", "gs", "fs_base", "gs_base", "gdt_addr", "gdt_size", "idt_addr", "idt_size"].map
    String.toList

/-- The registers that are printed as tokens. -/
def tokenKeys : List Text := keys.filter fun k => k ∉ lineKeys

/-- `NAME=hex`, or `NAME =hex`. -/
def token (v : Text → Hex) (k : Text) (spaced : Bool) : Text :=
  tokenText (upper k) (if spaced then [' '] else []) (v k).1

/-- Text before a token: it ends with a blank, if there is any. -/
def EndsBlank (o : Text) : Prop := o = [] ∨ ∃ o', o = o' ++ [' ']

/-- Text after a value: it begins with a blank, if there is any. -/
def BeginsBlank (o : Text) : Prop := o = [] ∨ ∃ o', o = ' ' :: o'

/-- The end of a line, which the script keeps: `'\n'` or, as the monitor has it, `'\r\n'`; at the
end of the text either may be missing. -/
def IsEol (e : Text) : Prop := e ∈ [[], ['\n'], ['\r'], ['\r', '\n']]

/-- A text with tokens among other text, from which they are separated by blanks, and the
registers of these tokens. -/
inductive Body (v : Text → Hex) : Text → List Text → Prop
  | other {o : Text} : Clean o → Body v o []
  | last {o k : Text} (spaced : Bool) : Clean o → EndsBlank o → k ∈ tokenKeys →
      Body v (o ++ token v k spaced) [k]
  | cons {o k t : Text} {ks : List Text} (spaced : Bool) : Clean o → EndsBlank o → k ∈ tokenKeys →
      Body v t ks → Body v (o ++ (token v k spaced ++ ' ' :: t)) (k :: ks)

/-- A line, without its end, and the registers in it. -/
inductive Line (v : Text → Hex) : Text → List Text → Prop
  | plain {t : Text} {ks : List Text} : Body v t ks →
      (t.take 4).map Char.toLower ∉ ["gdt=".toList, "idt=".toList] → Line v t ks
  /-- `GDT=` or `IDT=`, blanks, the base, blanks, the limit. -/
  | table {x t tail : Text} {ks : List Text} (n k : ℕ) : x ∈ ["gdt".toList, "idt".toList] →
      t = upper x ++ '=' :: (List.replicate n ' ' ++ ((v (x ++ "_addr".toList)).1 ++
        (List.replicate (k + 1) ' ' ++ ((v (x ++ "_size".toList)).1 ++ tail)))) →
      BeginsBlank tail → Body v t ks → Line v t (ks ++ [x ++ "_addr".toList, x ++ "_size".toList])
  /-- `FS =` or `GS =`, the selector, blanks, the base, and what follows. -/
  | segment {x t tail : Text} {ks : List Text} (n : ℕ) : x ∈ ["fs".toList, "gs".toList] →
      t = List.replicate n ' ' ++ ((v (x ++ "_base".toList)).1 ++ tail) →
      BeginsBlank tail → Body v t ks →
      Line v (token v x true ++ ' ' :: t) (x :: ks ++ [x ++ "_base".toList])

/-- The lines of a transcript, and the registers in them. -/
inductive Dump (v : Text → Hex) : List Text → List Text → Prop
  | nil : Dump v [] []
  | cons {t e : Text} {ts ks ks' : List Text} : Line v t ks → IsEol e → Dump v ts ks' →
      Dump v ((t ++ e) :: ts) (ks ++ ks')

theorem Dump.append {v : Text → Hex} {ts ts' ks ks' : List Text} (h : Dump v ts ks)
    (h' : Dump v ts' ks') : Dump v (ts ++ ts') (ks ++ ks') := by
  induction h with
  | nil => exact h'
  | cons hline heol _ ih =>
      rw [List.cons_append, List.append_assoc]
      exact .cons hline heol ih

/-! ### Assignments -/

/-- The assignments set the registers `ks`, and no other placeholder, to their values. -/
def Sets (v : Text → Hex) (as : List (Text × Text)) (ks : List Text) : Prop :=
  (∀ a ∈ as, a.1 ∈ placeholders → a.1 ∈ ks ∧ a.2 = (v a.1).1) ∧ ∀ k ∈ ks, (k, (v k).1) ∈ as

theorem Sets.of_forall_not_mem {v : Text → Hex} {as : List (Text × Text)}
    (h : ∀ a ∈ as, a.1 ∉ placeholders) : Sets v as [] :=
  ⟨fun a ha hk => absurd hk (h a ha), fun _ hk => by cases hk⟩

theorem Sets.singleton (v : Text → Hex) (k : Text) : Sets v [(k, (v k).1)] [k] := by
  constructor
  · intro a ha _
    obtain rfl := List.mem_singleton.1 ha
    exact ⟨List.mem_cons_self, rfl⟩
  · intro k' hk'
    obtain rfl := List.mem_singleton.1 hk'
    exact List.mem_cons_self

theorem Sets.append {v : Text → Hex} {as as' : List (Text × Text)} {ks ks' : List Text}
    (h : Sets v as ks) (h' : Sets v as' ks') : Sets v (as ++ as') (ks ++ ks') := by
  constructor
  · intro a ha hk
    rcases List.mem_append.1 ha with ha | ha
    · exact ⟨List.mem_append_left _ (h.1 a ha hk).1, (h.1 a ha hk).2⟩
    · exact ⟨List.mem_append_right _ (h'.1 a ha hk).1, (h'.1 a ha hk).2⟩
  · intro k hk
    rcases List.mem_append.1 hk with hk | hk
    · exact List.mem_append_left _ (h.2 k hk)
    · exact List.mem_append_right _ (h'.2 k hk)

/-! ### Tokens in a line -/

/-- The name of every register is one that `regPattern` takes, and its key comes back from it. -/
theorem upper_key {k : Text} (hk : k ∈ keys) :
    (∀ c ∈ upper k, isName c = true) ∧ upper k ≠ [] ∧ (upper k).map Char.toLower = k := by
  have hall : ∀ k ∈ keys, (upper k).all isName = true ∧ upper k ≠ [] ∧
      (upper k).map Char.toLower = k := by decide +kernel
  obtain ⟨hname, hrest⟩ := hall k hk
  exact ⟨List.all_eq_true.1 hname, hrest⟩

theorem isToken_token (v : Text → Hex) {k : Text} (hk : k ∈ keys) (spaced : Bool) :
    IsToken (upper k) (if spaced then [' '] else []) (v k).1 where
  name := (upper_key hk).1
  name_ne := (upper_key hk).2.1
  blank := by cases spaced <;> simp
  value := (v k).2.2
  value_ne := (v k).2.1

theorem head?_token_ne (v : Text → Hex) {k : Text} (hk : k ∈ keys) (spaced : Bool) (l : Text) :
    (token v k spaced ++ l).head? ≠ some '=' := by
  obtain ⟨hname, hne, -⟩ := upper_key hk
  rw [token, tokenText]
  cases hupper : upper k with
  | nil => exact absurd hupper hne
  | cons c t =>
      rw [hupper] at hname
      simpa using (isName_spec (hname c List.mem_cons_self)).2.2.1

theorem regPattern_first_none {c : Char} (hc : isName c = false) (l : Text) :
    regPattern.first (c :: l) = none := by
  cases h : regPattern.first (c :: l) with
  | none => rfl
  | some m =>
      have hm := mem_results_of_first h
      obtain ⟨n, sp, x, htok, htaken, -⟩ := isToken_of_mem_results hm
      have htext := append_of_mem_results hm
      rw [htaken, tokenText] at htext
      cases n with
      | nil => exact absurd rfl htok.name_ne
      | cons d n =>
          obtain ⟨rfl, -⟩ := List.cons.inj htext
          rw [htok.name c List.mem_cons_self] at hc
          cases hc

/-- A scan passes a blank. -/
theorem regAssignments_blank (u : Unicode) (l : Text) :
    regAssignments u (' ' :: l) = regAssignments u l := by
  rw [regAssignments, findall_of_none (regPattern_first_none rfl l), regAssignments]

/-- The characters at the end of a line. -/
theorem IsEol.mem {e : Text} (he : IsEol e) : ∀ c ∈ e, c = '\n' ∨ c = '\r' := by
  simp only [IsEol, List.mem_cons, List.not_mem_nil, or_false] at he
  rcases he with rfl | rfl | rfl | rfl <;> simp

/-- There is no token at the end of a line. -/
theorem regAssignments_of_isEol (u : Unicode) {e : Text} (he : ∀ c ∈ e, c = '\n' ∨ c = '\r') :
    regAssignments u e = [] := by
  induction e with
  | nil => rfl
  | cons c e ih =>
      rw [List.forall_mem_cons] at he
      have hc : isName c = false := by rcases he.1 with rfl | rfl <;> rfl
      have hrest := ih he.2
      rw [regAssignments] at hrest ⊢
      rw [findall_of_none (regPattern_first_none hc _), hrest]

theorem IsEol.boundary {e : Text} (he : IsEol e) : Boundary e := by
  cases e with
  | nil => exact .inl rfl
  | cons c e => exact .inr (.inl ⟨c, e, he.mem c List.mem_cons_self, rfl⟩)

theorem IsEol.stops_isHex {e : Text} (he : IsEol e) : Stops isHex e := by
  cases e with
  | nil => exact stops_nil
  | cons c e =>
      refine stops_cons.2 ?_
      rcases he.mem c List.mem_cons_self with rfl | rfl <;> rfl

/-- A token sets its register. -/
theorem regAssignments_token (u : Unicode) (v : Text → Hex) {k l : Text} (hk : k ∈ keys)
    (spaced : Bool) (hl : Stops isHex l) :
    regAssignments u (token v k spaced ++ l) = (k, (v k).1) :: regAssignments u l := by
  have htok := isToken_token v hk spaced
  rw [regAssignments, token, findall_of_first (regPattern_first htok hl) (by simp [tokenText]),
    List.map_cons, regAssignment_token u htok rfl, (upper_key hk).2.2, regAssignments]

/-- Other text up to a boundary sets nothing. -/
theorem sets_clean (u : Unicode) (v : Text → Hex) {o b : Text} {ks : List Text} (ho : Clean o)
    (hb : Boundary b) (hsets : Sets v (regAssignments u b) ks) :
    Sets v (regAssignments u (o ++ b)) ks := by
  obtain ⟨ms, hms, hno⟩ := findall_clean u ho hb
  have hnone : Sets v (ms.map (regAssignment u)) [] :=
    Sets.of_forall_not_mem (List.forall_mem_map.2 hno)
  rw [regAssignments, hms, List.map_append]
  exact hnone.append hsets

/-- Other text before a token sets nothing. -/
theorem sets_clean_token (u : Unicode) (v : Text → Hex) {o k l : Text} {ks : List Text}
    (ho : Clean o) (hend : EndsBlank o) (hk : k ∈ keys) (spaced : Bool) (hl : Stops isHex l)
    (hsets : Sets v (regAssignments u l) ks) :
    Sets v (regAssignments u (o ++ (token v k spaced ++ l))) (k :: ks) := by
  have htoken : Sets v (regAssignments u (token v k spaced ++ l)) (k :: ks) := by
    rw [regAssignments_token u v hk spaced hl]
    exact (Sets.singleton v k).append hsets
  rcases hend with rfl | ⟨o', rfl⟩
  · exact htoken
  · rw [List.append_assoc, List.singleton_append]
    refine sets_clean u v (ho.of_infix (List.prefix_append o' _).isInfix)
      (.inr (.inr ⟨_, rfl, head?_token_ne v hk spaced l⟩)) ?_
    rwa [regAssignments_blank]

theorem mem_keys_of_mem_tokenKeys {k : Text} (hk : k ∈ tokenKeys) : k ∈ keys :=
  List.mem_of_mem_filter hk

theorem mem_keys_of_mem_lineKeys {k : Text} (hk : k ∈ lineKeys) : k ∈ keys := by
  have hall : ∀ k ∈ lineKeys, k ∈ keys := by decide +kernel
  exact hall k hk

theorem not_mem_tokenKeys {k : Text} (hk : k ∈ lineKeys) : k ∉ tokenKeys := fun h =>
  of_decide_eq_true (List.mem_filter.1 h).2 hk

/-- **The tokens of a line** set their registers, and nothing else in it sets one. -/
theorem Body.sets (u : Unicode) {v : Text → Hex} {t e : Text} {ks : List Text} (h : Body v t ks)
    (he : IsEol e) : Sets v (regAssignments u (t ++ e)) ks := by
  have heol : Sets v (regAssignments u e) [] := by
    rw [regAssignments_of_isEol u he.mem]
    exact Sets.of_forall_not_mem (by simp)
  induction h with
  | other ho => exact sets_clean u v ho he.boundary heol
  | last spaced ho hend hk =>
      rw [List.append_assoc]
      exact sets_clean_token u v ho hend (mem_keys_of_mem_tokenKeys hk) spaced he.stops_isHex heol
  | cons spaced ho hend hk _ ih =>
      rw [List.append_assoc, List.append_assoc, List.cons_append]
      refine sets_clean_token u v ho hend (mem_keys_of_mem_tokenKeys hk) spaced
        (stops_cons.2 rfl) ?_
      rwa [regAssignments_blank]

theorem Body.mem_tokenKeys {v : Text → Hex} {t : Text} {ks : List Text} (h : Body v t ks) :
    ∀ k ∈ ks, k ∈ tokenKeys := by
  induction h with
  | other => simp
  | last _ _ _ hk => simpa using hk
  | cons _ _ _ hk _ ih => exact List.forall_mem_cons.2 ⟨hk, ih⟩

/-! ### Lines of tables and segments -/

theorem xdtAssignments_eq_nil (u : Unicode) {l : Text}
    (h : ∀ c l', l ≠ c :: 'D' :: 'T' :: '=' :: l') : xdtAssignments u l = [] := by
  rw [xdtAssignments]
  cases hfirst : xdtPattern.first l with
  | none => rfl
  | some m =>
      obtain ⟨c, l', hl, -⟩ := xdtPattern_sound (mem_results_of_first hfirst)
      exact absurd hl (h c l')

theorem segAssignments_eq_nil (u : Unicode) {l : Text}
    (h : ∀ c x l', (c = 'F' ∨ c = 'G') →
      l ≠ c :: 'S' :: ' ' :: '=' :: (Subtype.val (x : Hex) ++ l')) :
    segAssignments u l = [] := by
  rw [segAssignments]
  cases hfirst : segPattern.first l with
  | none => rfl
  | some m =>
      obtain ⟨c, x, l', hc, hl, -⟩ := segPattern_sound (mem_results_of_first hfirst)
      exact absurd hl (h c x l' hc)

/-- The start of a line is not at its end. -/
theorem IsEol.take_four {t e l : Text} {a b c d : Char} (he : IsEol e) (hd : d ≠ '\n' ∧ d ≠ '\r')
    (heq : t ++ e = a :: b :: c :: d :: l) : t.take 4 = [a, b, c, d] := by
  -- otherwise the fourth character is one of the end
  have hlen : 4 ≤ t.length := by
    by_contra hlt
    have hd' : d ∈ e := by
      refine List.mem_of_getElem? (i := 3 - t.length) ?_
      rw [← List.getElem?_append_right (by omega), heq]
      rfl
    exact not_or.2 hd (he.mem d hd')
  rw [← List.take_append_of_le_length hlen, heq]
  rfl

/-- Only tables set the keys that end as theirs do. -/
theorem mem_placeholders_dt {x y : Text} (hy : y = "dt_addr".toList ∨ y = "dt_size".toList)
    (h : x ++ y ∈ placeholders) : x = ['g'] ∨ x = ['i'] := by
  have hall : ∀ k ∈ placeholders, ∀ y ∈ ["dt_addr".toList, "dt_size".toList], y <:+ k →
      k = ['g'] ++ y ∨ k = ['i'] ++ y := by decide +kernel
  rcases hall _ h y (by simpa using hy) (List.suffix_append x y) with h | h
  · exact .inl (List.append_cancel_right h)
  · exact .inr (List.append_cancel_right h)

/-- A line that is no table sets no table. -/
theorem xdtAssignments_plain (u : Unicode) {t e : Text} (he : IsEol e)
    (hplain : (t.take 4).map Char.toLower ∉ ["gdt=".toList, "idt=".toList]) :
    ∀ a ∈ xdtAssignments u (t ++ e), a.1 ∉ placeholders := by
  cases hfirst : xdtPattern.first (t ++ e) with
  | none =>
      rw [xdtAssignments, hfirst]
      simp
  | some m =>
      obtain ⟨c, l', hl, hxdt, -⟩ := xdtPattern_sound (mem_results_of_first hfirst)
      have htake := he.take_four (d := '=') (by decide) hl
      have hc : ∀ y, y = "dt_addr".toList ∨ y = "dt_size".toList →
          u.lower c ++ y ∉ placeholders := by
        intro y hy hmem
        have hlower := mem_placeholders_dt hy hmem
        rcases Nat.lt_or_ge c.toNat 128 with hascii | hascii
        · rw [u.lower_ascii c hascii, List.singleton_inj, List.singleton_inj] at hlower
          refine hplain ?_
          rw [htake]
          rcases hlower with h | h
          · simp [h]
          · simp [h]
        · obtain ⟨hg, hi⟩ := u.lower_nonAscii c hascii
          exact hlower.elim hg hi
      rw [xdtAssignments_eq u hfirst, hxdt, u.lowerText_dt, List.append_assoc, List.append_assoc]
      exact List.forall_mem_cons.2
        ⟨hc _ (.inl rfl), List.forall_mem_cons.2 ⟨hc _ (.inr rfl), by simp⟩⟩

/-- A line with tokens only is no line of a segment: the segment register would be a token. -/
theorem Body.segAssignments (u : Unicode) {v : Text → Hex} {t e : Text} {ks : List Text}
    (h : Body v t ks) (he : IsEol e) : segAssignments u (t ++ e) = [] := by
  refine segAssignments_eq_nil u fun c x l' hc hl => ?_
  obtain ⟨y, r, hy, hne, hyr, hr⟩ : ∃ y r, (∀ c ∈ y, isHex c = true) ∧ y ≠ [] ∧
      x.1 ++ l' = y ++ r ∧ Stops isHex r := by
    refine ⟨(x.1 ++ l').takeWhile isHex, (x.1 ++ l').dropWhile isHex,
      fun c hc => List.mem_takeWhile_imp hc, ?_, List.takeWhile_append_dropWhile.symm,
      stops_dropWhile isHex _⟩
    rw [List.takeWhile_append_of_pos x.2.2]
    exact fun h => x.2.1 (List.append_eq_nil_iff.1 h).1
  have hname : [c, 'S'].all isName = true ∧ [c, 'S'].map Char.toLower ∈ lineKeys := by
    rcases hc with rfl | rfl <;> decide +kernel
  have hplace : [c, 'S'].map Char.toLower ∈ placeholders :=
    List.mem_cons_of_mem _ (mem_keys_of_mem_lineKeys hname.2)
  have htok : IsToken [c, 'S'] [' '] y := ⟨List.all_eq_true.1 hname.1, by simp, .inr rfl, hy, hne⟩
  have hmem : ([c, 'S'].map Char.toLower, y) ∈ regAssignments u (t ++ e) := by
    have htext : t ++ e = tokenText [c, 'S'] [' '] y ++ r := by
      rw [hl, hyr]
      rfl
    rw [regAssignments, htext, findall_of_first (regPattern_first htok hr) (by simp [tokenText]),
      List.map_cons, regAssignment_token u htok rfl]
    exact List.mem_cons_self
  exact not_mem_tokenKeys hname.2 (h.mem_tokenKeys _ ((h.sets u he).1 _ hmem hplace).1)

theorem BeginsBlank.stops_isHex {o e : Text} (ho : BeginsBlank o) (he : IsEol e) :
    Stops isHex (o ++ e) := by
  rcases ho with rfl | ⟨o', rfl⟩
  · exact he.stops_isHex
  · exact stops_cons.2 rfl

/-- The line of a table sets its base and its limit. -/
theorem xdtAssignments_table (u : Unicode) {x : Text} (hx : x ∈ ["gdt".toList, "idt".toList])
    (n k : ℕ) (base limit : Hex) {l : Text} (hl : Stops isHex l) :
    xdtAssignments u (upper x ++ '=' :: (List.replicate n ' ' ++ (base.1 ++
        (List.replicate (k + 1) ' ' ++ (limit.1 ++ l))))) =
      [(x ++ "_addr".toList, base.1), (x ++ "_size".toList, limit.1)] := by
  obtain ⟨c, hupper, hc, hlower⟩ : ∃ c, upper x = [c, 'D', 'T'] ∧ c ≠ '\n' ∧
      u.lowerText [c, 'D', 'T'] = x := by
    simp only [List.mem_cons, List.not_mem_nil, or_false] at hx
    rcases hx with rfl | rfl
    · exact ⟨'G', rfl, by decide, u.lowerText_ascii (by simp)⟩
    · exact ⟨'I', rfl, by decide, u.lowerText_ascii (by simp)⟩
  obtain ⟨m, hm, hgroups⟩ := xdtPattern_first c hc n k base limit hl
  have h₁ : groupText m 1 = [c, 'D', 'T'] := by rw [groupText, hgroups]; rfl
  have h₂ : groupText m 2 = base.1 := by rw [groupText, hgroups]; rfl
  have h₃ : groupText m 3 = limit.1 := by rw [groupText, hgroups]; rfl
  rw [hupper]
  exact (xdtAssignments_eq u hm).trans (by rw [h₁, h₂, h₃, hlower])

theorem segAssignments_table (u : Unicode) {x : Text} (hx : x ∈ ["gdt".toList, "idt".toList])
    (l : Text) : segAssignments u (upper x ++ l) = [] := by
  refine segAssignments_eq_nil u fun c y l' _ hl => ?_
  simp only [List.mem_cons, List.not_mem_nil, or_false] at hx
  rcases hx with rfl | rfl <;> simp [upper] at hl

/-- The line of a segment sets the base. -/
theorem segAssignments_segment (u : Unicode) {x : Text} (hx : x ∈ ["fs".toList, "gs".toList])
    (n : ℕ) (sel base : Hex) {l : Text} (hl : Stops isHex l) :
    segAssignments u (tokenText (upper x) [' '] sel.1 ++
        (List.replicate (n + 1) ' ' ++ (base.1 ++ l))) = [(x ++ "_base".toList, base.1)] := by
  obtain ⟨c, hupper, hc, hlower⟩ : ∃ c, upper x = [c, 'S'] ∧ (c = 'F' ∨ c = 'G') ∧
      u.lowerText [c, 'S'] = x := by
    simp only [List.mem_cons, List.not_mem_nil, or_false] at hx
    rcases hx with rfl | rfl
    · exact ⟨'F', rfl, .inl rfl, u.lowerText_ascii (by simp)⟩
    · exact ⟨'G', rfl, .inr rfl, u.lowerText_ascii (by simp)⟩
  obtain ⟨m, hm, hgroups⟩ := segPattern_first c hc n sel base hl
  have h₁ : groupText m 1 = [c, 'S'] := by rw [groupText, hgroups]; rfl
  have h₂ : groupText m 2 = base.1 := by rw [groupText, hgroups]; rfl
  rw [hupper]
  exact (segAssignments_eq u hm).trans (by rw [h₁, h₂, hlower])

theorem xdtAssignments_segment (u : Unicode) {x : Text} (hx : x ∈ ["fs".toList, "gs".toList])
    (sp y l : Text) : xdtAssignments u (tokenText (upper x) sp y ++ l) = [] := by
  refine xdtAssignments_eq_nil u fun c l' hl => ?_
  simp only [List.mem_cons, List.not_mem_nil, or_false] at hx
  rcases hx with rfl | rfl <;> simp [tokenText, upper] at hl

theorem table_mem_keys : ∀ x ∈ ["gdt".toList, "idt".toList],
    ∀ k ∈ [x ++ "_addr".toList, x ++ "_size".toList], k ∈ keys := by
  have hline : ∀ x ∈ ["gdt".toList, "idt".toList],
      ∀ k ∈ [x ++ "_addr".toList, x ++ "_size".toList], k ∈ lineKeys := by decide +kernel
  exact fun x hx k hk => mem_keys_of_mem_lineKeys (hline x hx k hk)

theorem segment_mem_keys : ∀ x ∈ ["fs".toList, "gs".toList],
    x ∈ keys ∧ ∀ k ∈ [x ++ "_base".toList], k ∈ keys := by
  have hline : ∀ x ∈ ["fs".toList, "gs".toList],
      x ∈ lineKeys ∧ ∀ k ∈ [x ++ "_base".toList], k ∈ lineKeys := by decide +kernel
  exact fun x hx => ⟨mem_keys_of_mem_lineKeys (hline x hx).1,
    fun k hk => mem_keys_of_mem_lineKeys ((hline x hx).2 k hk)⟩

/-- **A line** sets its registers, and no other placeholder. -/
theorem Line.sets (u : Unicode) {v : Text → Hex} {t e : Text} {ks : List Text} (h : Line v t ks)
    (he : IsEol e) : Sets v (lineAssignments u (t ++ e)) ks := by
  cases h with
  | plain hbody hplain =>
      rw [lineAssignments, hbody.segAssignments u he, List.append_nil]
      have hxdt : Sets v (xdtAssignments u (t ++ e)) [] :=
        Sets.of_forall_not_mem (xdtAssignments_plain u he hplain)
      simpa using (hbody.sets u he).append hxdt
  | @table x _ tail ks n k hx ht htail hbody =>
      have hxdt : Sets v (xdtAssignments u (t ++ e))
          [x ++ "_addr".toList, x ++ "_size".toList] := by
        rw [ht]
        simp only [List.cons_append, List.append_assoc]
        rw [xdtAssignments_table u hx n k _ _ (htail.stops_isHex he)]
        exact (Sets.singleton v _).append (Sets.singleton v _)
      have hseg : segAssignments u (t ++ e) = [] := by
        rw [ht, List.append_assoc, segAssignments_table u hx]
      rw [lineAssignments, hseg, List.append_nil]
      exact (hbody.sets u he).append hxdt
  | @segment x t tail ks n hx ht htail hbody =>
      have hkey := (segment_mem_keys x hx).1
      rw [List.append_assoc, List.cons_append, lineAssignments]
      have hreg : Sets v (regAssignments u (token v x true ++ ' ' :: (t ++ e))) (x :: ks) := by
        rw [regAssignments_token u v hkey true (stops_cons.2 rfl), regAssignments_blank]
        exact (Sets.singleton v x).append (hbody.sets u he)
      have hseg : segAssignments u (token v x true ++ ' ' :: (t ++ e)) =
          [(x ++ "_base".toList, (v (x ++ "_base".toList)).1)] := by
        rw [ht, List.append_assoc, List.append_assoc, ← List.cons_append, ← List.replicate_succ]
        exact segAssignments_segment u hx n (v x) _ (htail.stops_isHex he)
      rw [token, xdtAssignments_segment u hx, ← token, List.append_nil, hseg]
      exact hreg.append (Sets.singleton v _)

/-- **A transcript** sets its registers, and no other placeholder. -/
theorem Dump.sets (u : Unicode) {v : Text → Hex} {ts ks : List Text} (h : Dump v ts ks) :
    Sets v (ts.flatMap (lineAssignments u)) ks := by
  induction h with
  | nil => exact Sets.of_forall_not_mem (by simp)
  | cons hline he _ ih =>
      rw [List.flatMap_cons]
      exact (hline.sets u he).append ih

/-! ### The code -/

theorem Line.mem_keys {v : Text → Hex} {t : Text} {ks : List Text} (h : Line v t ks) :
    ∀ k ∈ ks, k ∈ keys := by
  have htokens : ∀ {t ks}, Body v t ks → ∀ k ∈ ks, k ∈ keys :=
    fun hbody k hk => mem_keys_of_mem_tokenKeys (hbody.mem_tokenKeys k hk)
  cases h with
  | plain hbody _ => exact htokens hbody
  | table _ _ hx _ _ hbody => exact List.forall_mem_append.2 ⟨htokens hbody, table_mem_keys _ hx⟩
  | segment _ hx _ _ hbody =>
      have hmem := segment_mem_keys _ hx
      exact List.forall_mem_append.2
        ⟨List.forall_mem_cons.2 ⟨hmem.1, htokens hbody⟩, hmem.2⟩

/-- A transcript sets no more than the registers of the template; `rip_offset` is not one. -/
theorem Dump.mem_keys {v : Text → Hex} {ts ks : List Text} (h : Dump v ts ks) :
    ∀ k ∈ ks, k ∈ keys := by
  induction h with
  | nil => simp
  | cons hline _ _ ih => exact List.forall_mem_append.2 ⟨hline.mem_keys, ih⟩

/-- The code of the template, with the values `v` and the offset. -/
def codeOf (v : Text → Hex) (offset : Text) : Text :=
  '\n' :: (codeTemplate.map fun a => a.text (v a.key.toList).1 offset).flatten

theorem mapM_of_forall_eq_some {α β : Type} {f : α → Option β} {g : α → β} {l : List α}
    (h : ∀ a ∈ l, f a = some (g a)) : l.mapM f = some (l.map g) := by
  induction l with
  | nil => rfl
  | cons a l ih =>
      rw [List.forall_mem_cons] at h
      rw [List.mapM_cons, h.1, ih h.2]
      rfl

theorem exists_of_mapM_eq_some {α β : Type} {f : α → Option β} {l : List α} {bs : List β}
    (h : l.mapM f = some bs) : ∀ a ∈ l, ∃ b ∈ bs, f a = some b := by
  induction l generalizing bs with
  | nil => simp
  | cons a l ih =>
      rw [List.mapM_cons] at h
      obtain ⟨b, hb, h⟩ := Option.bind_eq_some_iff.1 h
      obtain ⟨bs', hbs', h⟩ := Option.bind_eq_some_iff.1 h
      obtain rfl := Option.some.inj h
      intro a' ha'
      rcases List.mem_cons.1 ha' with rfl | ha'
      · exact ⟨b, List.mem_cons_self, hb⟩
      · obtain ⟨b', hb', hf⟩ := ih hbs' a' ha'
        exact ⟨b', List.mem_cons_of_mem b hb', hf⟩

/-- A dictionary with the right values gives the right code. -/
theorem formatMap_eq {s : Dict Text Value} {v : Text → Hex} {offset : Value}
    (hs : ∀ k ∈ keys, s.get? k = some (.str (v k).1))
    (hoff : s.get? "rip_offset".toList = some offset) :
    formatMap s = some (codeOf v offset.format) := by
  have hall : ∀ a ∈ codeTemplate, a.format s =
      some (a.text (v a.key.toList).1 offset.format) := by
    intro a ha
    rw [Assign.format, hs _ (List.mem_map_of_mem ha), hoff]
    cases a with
    | mk field key plusOffset => cases plusOffset <;> rfl
  rw [formatMap, mapM_of_forall_eq_some hall]
  rfl

/-- The code has every line of the template. -/
theorem exists_of_formatMap {s : Dict Text Value} {code : Text} (h : formatMap s = some code) :
    ∀ a ∈ codeTemplate, ∃ line, a.format s = some line ∧ line <:+: code := by
  obtain ⟨ls, hls, hcode⟩ := Option.bind_eq_some_iff.1 h
  obtain rfl := Option.some.inj hcode
  intro a ha
  obtain ⟨line, hline, hformat⟩ := exists_of_mapM_eq_some hls a ha
  exact ⟨line, hformat, (List.infix_of_mem_flatten hline).trans (List.suffix_cons _ _).isInfix⟩

/-- The offset is no register. -/
theorem offset_not_mem_keys : "rip_offset".toList ∉ keys := by decide +kernel

/-- The dictionary holds the registers of the transcript, and the offset that was given. -/
theorem get?_parse (u : Unicode) {v : Text → Hex} {stdin : Text} {ks : List Text} (n : ℤ)
    (h : Dump v (lines stdin) ks) :
    (∀ k ∈ ks, (parse u n stdin).get? k = some (.str (v k).1)) ∧
      (parse u n stdin).get? "rip_offset".toList = some (.int n) := by
  have hsets := h.sets u
  constructor
  · intro k hk
    refine Dict.get?_setAll _ ?_ (List.mem_map.2 ⟨_, hsets.2 k hk, rfl⟩)
    rw [List.forall_mem_map]
    intro a ha hak
    have hplace : a.1 ∈ placeholders := hak ▸ List.mem_cons_of_mem _ (h.mem_keys k hk)
    rw [(hsets.1 a ha hplace).2, show a.1 = k from hak]
  · rw [parse, Dict.get?_setAll_of_not_mem]
    · rfl
    · rw [List.forall_mem_map]
      intro a ha hak
      have hplace : a.1 ∈ placeholders := (show a.1 = _ from hak) ▸ List.mem_cons_self
      have hkey := h.mem_keys _ (hsets.1 a ha hplace).1
      rw [show a.1 = _ from hak] at hkey
      exact absurd hkey offset_not_mem_keys

/-- **The script succeeds and every field gets its own register**: with a transcript in which every
register of the template occurs, and the offset 0, the code is the template with the values that
these registers have in the transcript. -/
theorem main_of_dump (u : Unicode) {v : Text → Hex} {stdin : Text} {ks : List Text}
    (h : Dump v (lines stdin) ks) (hall : ∀ k ∈ keys, k ∈ ks) :
    ∃ comment, main u 0 stdin = some (output (codeOf v ['0']) comment) := by
  obtain ⟨hregs, hoff⟩ := get?_parse u 0 h
  refine ⟨reprDict u (parse u 0 stdin), ?_⟩
  rw [main, formatMap_eq (fun k hk => hregs k (hall k hk)) hoff]
  rfl

/-! ### A transcript -/

/-- `Char.toLower` changes ASCII letters only. -/
theorem toLower_of_nonAscii {c : Char} (hc : 128 ≤ c.toNat) : c.toLower = c := dif_neg fun h =>
  absurd (toNat_lt_of_le (UInt32.le_trans h.2 (by decide))) (Nat.not_lt.2 hc)

/-- A character database that is right for ASCII text. -/
def asciiUnicode : Unicode where
  lower c := [c.toLower]
  printable _ := false
  lower_ascii _ _ := rfl
  lower_nonAscii c hc := by
    rw [toLower_of_nonAscii hc, ne_eq, ne_eq, List.singleton_inj, List.singleton_inj]
    constructor
    · rintro rfl
      exact absurd hc (by decide)
    · rintro rfl
      exact absurd hc (by decide)

/-- A value for each register: the digits in its name. -/
def exampleValue (k : Text) : Hex where
  val := '0' :: k.map fun c => if isHex c then c else '0'
  property := by
    refine ⟨List.cons_ne_nil _ _, List.forall_mem_cons.2 ⟨rfl, ?_⟩⟩
    rw [List.forall_mem_map]
    intro c _
    split
    · assumption
    · rfl

/-- All tokens on one line. -/
def tokenLine (v : Text → Hex) : List Text → Text
  | [] => []
  | k :: ks => token v k false ++ ' ' :: tokenLine v ks

theorem body_tokenLine (v : Text → Hex) {ks : List Text} (h : ∀ k ∈ ks, k ∈ tokenKeys) :
    Body v (tokenLine v ks) ks := by
  induction ks with
  | nil => exact .other (clean_of_not_mem List.not_mem_nil)
  | cons k ks ih =>
      rw [List.forall_mem_cons] at h
      exact .cons false (clean_of_not_mem List.not_mem_nil) (.inl rfl) h.1 (ih h.2)

def exampleTable (x : String) : Text :=
  upper x.toList ++ '=' :: (List.replicate 5 ' ' ++
    ((exampleValue (x.toList ++ "_addr".toList)).1 ++
      (List.replicate 1 ' ' ++ ((exampleValue (x.toList ++ "_size".toList)).1 ++ []))))

/-- The line of a segment after the selector. -/
def exampleSegment (x : String) : Text :=
  List.replicate 0 ' ' ++ ((exampleValue (x.toList ++ "_base".toList)).1 ++
    " ffffffff 00c00000".toList)

def exampleLines : List Text :=
  ["(qemu) info registers".toList, tokenLine exampleValue tokenKeys,
   "LDT=0000 0000000000000000 ffffffff 00c00000".toList,
   token exampleValue "fs".toList true ++ ' ' :: exampleSegment "fs",
   token exampleValue "gs".toList true ++ ' ' :: exampleSegment "gs",
   exampleTable "gdt", exampleTable "idt"]

def exampleTranscript : Text := exampleLines.flatMap fun t => t ++ ['\r', '\n']

theorem exampleTranscript_dump : ∃ ks, Dump exampleValue (lines exampleTranscript) ks ∧
    ∀ k ∈ keys, k ∈ ks := by
  have hlines : lines exampleTranscript = exampleLines.map fun t => t ++ ['\r', '\n'] := by
    have hread := lines_flatMap (show ∀ t ∈ exampleLines.map fun t => t ++ ['\r'], '\n' ∉ t by
      decide +kernel)
    rw [List.flatMap_map, List.map_map] at hread
    simpa only [exampleTranscript, Function.comp_def, List.append_assoc, List.singleton_append]
      using hread
  have hldt : Clean "LDT=0000 0000000000000000 ffffffff 00c00000".toList := by
    unfold Clean
    decide +kernel
  have hsegment : ∀ x : String, x.toList ∈ ["fs".toList, "gs".toList] → '=' ∉ exampleSegment x →
      Line exampleValue (token exampleValue x.toList true ++ ' ' :: exampleSegment x)
        [x.toList, x.toList ++ "_base".toList] := fun x hx hno =>
    .segment 0 hx rfl (.inr ⟨_, rfl⟩) (.other (clean_of_not_mem hno))
  have htable : ∀ x : String, x.toList ∈ ["gdt".toList, "idt".toList] → Clean (exampleTable x) →
      Line exampleValue (exampleTable x) [x.toList ++ "_addr".toList, x.toList ++ "_size".toList] :=
    fun x hx hclean => .table 5 0 hx rfl (.inl rfl) (.other hclean)
  have heol : IsEol ['\r', '\n'] := by simp [IsEol]
  have hdump : Dump exampleValue (exampleLines.map fun t => t ++ ['\r', '\n'])
      ([] ++ (tokenKeys ++ ([] ++ (["fs".toList, "fs_base".toList] ++
        (["gs".toList, "gs_base".toList] ++ (["gdt_addr".toList, "gdt_size".toList] ++
          (["idt_addr".toList, "idt_size".toList] ++ []))))))) :=
    .cons (.plain (.other (clean_of_not_mem (by decide))) (by decide)) heol
      (.cons (.plain (body_tokenLine _ fun _ h => h) (by decide +kernel)) heol
      (.cons (.plain (.other hldt) (by decide)) heol
      (.cons (hsegment "fs" (by decide) (by decide)) heol
      (.cons (hsegment "gs" (by decide) (by decide)) heol
      (.cons (htable "gdt" (by decide) (by unfold Clean; decide +kernel)) heol
      (.cons (htable "idt" (by decide) (by unfold Clean; decide +kernel)) heol .nil))))))
  rw [hlines]
  exact ⟨_, hdump, by decide +kernel⟩

/-- The registers of a transcript come out as they went in. -/
theorem main_of_dump_example : ∃ comment, main asciiUnicode 0 exampleTranscript =
    some (output (codeOf exampleValue ['0']) comment) := by
  obtain ⟨ks, hdump, hall⟩ := exampleTranscript_dump
  exact main_of_dump asciiUnicode hdump hall

end RegisterScript

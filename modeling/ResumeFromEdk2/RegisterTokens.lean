/-
**What the regular expressions of the register script find.**

The three expressions of `process_qemu_info_registers.py` are not anchored at the words of a line,
have optional blanks and run over as many digits as there are.  This module says what each of them
takes where the script means it to, and what a match of it must look like anywhere else.

Text between the registers does no harm as long as no placeholder of the template stands before an
`=` in it: a scan of such text up to a boundary sets no placeholder, and goes on from the boundary
as if it had begun there.

Main definitions:

* `RegisterScript.IsToken`, `RegisterScript.tokenText` — the tokens that `regPattern` matches;
* `RegisterScript.placeholders`, `RegisterScript.Clean` — the keys that the template takes, and text
  in which none of them is set;
* `RegisterScript.Boundary` — where such text may end.

Main results:

* `RegisterScript.isToken_of_mem_results`, `RegisterScript.regPattern_first` — `regPattern` takes a
  token, and nothing else;
* `RegisterScript.xdtPattern_first`, `RegisterScript.segPattern_first` — the other two expressions
  on the lines they are meant for;
* `RegisterScript.findall_clean` — **scanning clean text up to a boundary**;
* `RegisterScript.exists_of_mem_regAssignments`, `RegisterScript.exists_of_mem_xdtAssignments`,
  `RegisterScript.exists_of_mem_segAssignments` — where the assignments of a line come from.
-/

import Mathlib.Data.List.Infix
import ResumeFromEdk2.RegisterScript

set_option relaxedAutoImplicit false
set_option autoImplicit false

namespace RegisterScript

open PyText Regex

/-! ### ASCII characters -/

theorem toNat_lt_of_le {c : Char} (h : c.val ≤ 'z'.val) : c.toNat < 128 :=
  Nat.lt_of_le_of_lt (UInt32.le_iff_toNat_le.1 h) (by decide)

theorem toNat_lt_of_isDigit {c : Char} (h : c.isDigit = true) : c.toNat < 128 := by
  have hle : c.val ≤ '9'.val := of_decide_eq_true (Bool.and_eq_true_iff.1 h).2
  exact toNat_lt_of_le (UInt32.le_trans hle (by decide))

theorem toNat_lt_of_isName {c : Char} (h : isName c = true) : c.toNat < 128 := by
  rw [isName, Bool.or_eq_true, Bool.or_eq_true, decide_eq_true_eq] at h
  rcases h with (hupper | hdigit) | rfl
  · have hle : c.val ≤ 'Z'.val := (of_decide_eq_true hupper).2
    exact toNat_lt_of_le (UInt32.le_trans hle (by decide))
  · exact toNat_lt_of_isDigit hdigit
  · decide

theorem toNat_lt_of_isHex {c : Char} (h : isHex c = true) : c.toNat < 128 := by
  rw [isHex, Bool.or_eq_true, Bool.and_eq_true, decide_eq_true_eq, decide_eq_true_eq] at h
  rcases h with hdigit | ⟨-, hle⟩
  · exact toNat_lt_of_isDigit hdigit
  · exact toNat_lt_of_le (UInt32.le_trans hle (by decide))

/-- What the proofs use of the characters of a name. -/
theorem isName_spec {c : Char} (h : isName c = true) :
    isSpace c = false ∧ c ≠ ' ' ∧ c ≠ '=' ∧ c ≠ '\n' ∧ c.toLower.toUpper = c := by
  have hall : ∀ n < 128, isName (Char.ofNat n) = true →
      isSpace (Char.ofNat n) = false ∧ Char.ofNat n ≠ ' ' ∧ Char.ofNat n ≠ '=' ∧
        Char.ofNat n ≠ '\n' ∧ (Char.ofNat n).toLower.toUpper = Char.ofNat n := by decide +kernel
  have hc := hall c.toNat (toNat_lt_of_isName h)
  rw [Char.ofNat_toNat] at hc
  exact hc h

/-- What the proofs use of hexadecimal digits. -/
theorem isHex_spec {c : Char} (h : isHex c = true) :
    isSpace c = false ∧ c ≠ ' ' ∧ c ≠ '=' ∧ c ≠ '\n' ∧ c.toLower = c := by
  have hall : ∀ n < 128, isHex (Char.ofNat n) = true →
      isSpace (Char.ofNat n) = false ∧ Char.ofNat n ≠ ' ' ∧ Char.ofNat n ≠ '=' ∧
        Char.ofNat n ≠ '\n' ∧ (Char.ofNat n).toLower = Char.ofNat n := by decide +kernel
  have hc := hall c.toNat (toNat_lt_of_isHex h)
  rw [Char.ofNat_toNat] at hc
  exact hc h

theorem Unicode.lowerText_ascii (u : Unicode) {t : Text} (ht : ∀ c ∈ t, c.toNat < 128) :
    u.lowerText t = t.map Char.toLower := by
  induction t with
  | nil => rfl
  | cons c t ih =>
      rw [List.forall_mem_cons] at ht
      rw [Unicode.lowerText, List.flatMap_cons, u.lower_ascii c ht.1, List.map_cons, ← ih ht.2]
      rfl

theorem Unicode.lowerText_hex (u : Unicode) {t : Text} (ht : ∀ c ∈ t, isHex c = true) :
    u.lowerText t = t := by
  rw [u.lowerText_ascii fun c hc => toNat_lt_of_isHex (ht c hc)]
  exact (List.map_congr_left fun c hc => (isHex_spec (ht c hc)).2.2.2.2).trans (List.map_id' t)

/-! ### The pattern for registers -/

/-- The text of a token: a name, perhaps a blank, `=` and hexadecimal digits. -/
def tokenText (n sp x : Text) : Text := n ++ sp ++ '=' :: x

/-- The names, blanks and values that `regPattern` is about. -/
structure IsToken (n sp x : Text) : Prop where
  name : ∀ c ∈ n, isName c = true
  name_ne : n ≠ []
  blank : sp = [] ∨ sp = [' ']
  value : ∀ c ∈ x, isHex c = true
  value_ne : x ≠ []

/-- What `regPattern` matches is a token. -/
theorem isToken_of_mem_results {l : Text} {m : Match Char} (h : m ∈ regPattern.results l) :
    ∃ n sp x, IsToken n sp x ∧ m.taken = tokenText n sp x ∧ m.groups = [n ++ sp, x] := by
  obtain ⟨m₁, hm₁, m₂, hm₂, rfl⟩ := mem_results_seq.1 h
  obtain ⟨m₃, hm₃, rfl⟩ := mem_results_group.1 hm₁
  obtain ⟨m₄, hm₄, m₅, hm₅, rfl⟩ := mem_results_seq.1 hm₃
  obtain ⟨m₆, hm₆, m₇, hm₇, rfl⟩ := mem_results_seq.1 hm₂
  obtain ⟨c, l', -, hc, rfl⟩ := mem_results_char.1 hm₆
  obtain rfl : c = '=' := of_decide_eq_true hc
  obtain ⟨m₈, hm₈, rfl⟩ := mem_results_group.1 hm₇
  obtain ⟨-, hgroups₄, hne₄, hp₄⟩ := mem_results_plus hm₄
  obtain ⟨-, hgroups₈, hne₈, hp₈⟩ := mem_results_plus hm₈
  have hblank : m₅.groups = [] ∧ (m₅.taken = [] ∨ m₅.taken = [' ']) := by
    rcases mem_results_alt.1 hm₅ with h | h
    · obtain ⟨c, l', -, hc, rfl⟩ := mem_results_char.1 h
      obtain rfl : c = ' ' := of_decide_eq_true hc
      exact ⟨rfl, .inr rfl⟩
    · obtain rfl := mem_results_empty.1 h
      exact ⟨rfl, .inl rfl⟩
  refine ⟨m₄.taken, m₅.taken, m₈.taken, ⟨hp₄, hne₄, hblank.2, hp₈, hne₈⟩, rfl, ?_⟩
  simp [Match.append, hgroups₄, hgroups₈, hblank.1]

/-- At a token `regPattern` takes the token, as far as its digits go. -/
theorem regPattern_first {n sp x l : Text} (h : IsToken n sp x) (hl : Stops isHex l) :
    regPattern.first (tokenText n sp x ++ l) = some ⟨tokenText n sp x, [n ++ sp, x], l⟩ := by
  have heq : isName '=' = false := rfl
  have hrest : Stops isName (sp ++ '=' :: (x ++ l)) := by
    rcases h.blank with rfl | rfl
    · exact stops_cons.2 heq
    · exact stops_cons.2 rfl
  have hopt : (opt (lit ' ')).first (sp ++ '=' :: (x ++ l)) = some ⟨sp, [], '=' :: (x ++ l)⟩ := by
    rcases h.blank with rfl | rfl
    · rw [List.nil_append, opt, first_alt_right (by simp [lit, results])]
      rfl
    · exact first_alt_left (first_lit ' ')
  have hname := first_group (first_seq (first_plus h.name h.name_ne hrest) hopt)
  have hvalue := first_seq (first_lit '=') (first_group (first_plus h.value h.value_ne hl))
  have htext : tokenText n sp x ++ l = n ++ (sp ++ '=' :: (x ++ l)) := by simp [tokenText]
  rw [htext, regPattern, first_seq hname hvalue]
  simp [Match.append, tokenText]

/-- **The match that `regPattern` takes** is a token with all its digits. -/
theorem isToken_of_first {l : Text} {m : Match Char} (h : regPattern.first l = some m) :
    ∃ n sp x, IsToken n sp x ∧ l = tokenText n sp x ++ m.rest ∧ Stops isHex m.rest ∧
      m.groups = [n ++ sp, x] := by
  have hm := mem_results_of_first h
  obtain ⟨n, sp, x, htok, htaken, -⟩ := isToken_of_mem_results hm
  have hl : l = tokenText n sp (x ++ m.rest.takeWhile isHex) ++ m.rest.dropWhile isHex := by
    have hsplit := m.rest.takeWhile_append_dropWhile (p := isHex)
    calc l = tokenText n sp x ++ m.rest := htaken ▸ append_of_mem_results hm
      _ = tokenText n sp x ++ (m.rest.takeWhile isHex ++ m.rest.dropWhile isHex) := by rw [hsplit]
      _ = _ := by simp only [tokenText, List.append_assoc, List.cons_append]
  -- with all digits it is a token as well, and the one that is taken
  have htok' : IsToken n sp (x ++ m.rest.takeWhile isHex) :=
    { htok with
      value := List.forall_mem_append.2 ⟨htok.value, fun c hc => List.mem_takeWhile_imp hc⟩
      value_ne := List.append_ne_nil_of_left_ne_nil htok.value_ne _ }
  have hfirst := regPattern_first htok' (stops_dropWhile isHex m.rest)
  rw [← hl, h, Option.some.injEq] at hfirst
  have hrest : m.rest = m.rest.dropWhile isHex := congrArg Match.rest hfirst
  refine ⟨n, sp, _, htok', ?_, ?_, congrArg Match.groups hfirst⟩
  · exact hl.trans (congrArg _ hrest.symm)
  · exact hrest ▸ stops_dropWhile isHex m.rest

theorem IsToken.strip_name {n sp x : Text} (h : IsToken n sp x) : strip (n ++ sp) = n := by
  refine strip_append (fun c hc => (isName_spec (h.name c hc)).1) ?_
  rcases h.blank with rfl | rfl
  · simp
  · exact List.forall_mem_singleton.2 rfl

/-- The name of a token comes back from the key that it sets. -/
theorem IsToken.upper_lower {n sp x : Text} (h : IsToken n sp x) :
    (n.map Char.toLower).map Char.toUpper = n := by
  rw [List.map_map]
  exact (List.map_congr_left fun c hc => (isName_spec (h.name c hc)).2.2.2.2).trans (List.map_id' n)

/-- The register that a token sets, and to what. -/
theorem regAssignment_token (u : Unicode) {n sp x : Text} (h : IsToken n sp x) {m : Match Char}
    (hm : m.groups = [n ++ sp, x]) : regAssignment u m = (n.map Char.toLower, x) := by
  have h₁ : groupText m 1 = n ++ sp := by rw [groupText, hm]; rfl
  have h₂ : groupText m 2 = x := by rw [groupText, hm]; rfl
  rw [regAssignment, h₁, h₂, h.strip_name, u.lowerText_hex h.value,
    u.lowerText_ascii fun c hc => toNat_lt_of_isName (h.name c hc)]

/-! ### Text in which no register of the template occurs -/

/-- The keys of the dictionary that the template takes. -/
def keys : List Text := codeTemplate.map fun a => a.key.toList

/-- All its placeholders. -/
def placeholders : List Text := "rip_offset".toList :: keys

def upper (k : Text) : Text := k.map Char.toUpper

/-- No placeholder in upper case is directly followed by `=` or ` =`. -/
def Clean (o : Text) : Prop :=
  ∀ k ∈ placeholders, ¬ (upper k ++ ['=']) <:+: o ∧ ¬ (upper k ++ [' ', '=']) <:+: o

theorem Clean.of_infix {o o' : Text} (h : Clean o) (ho : o' <:+: o) : Clean o' :=
  fun k hk => ⟨fun h' => (h k hk).1 (h'.trans ho), fun h' => (h k hk).2 (h'.trans ho)⟩

theorem clean_of_not_mem {o : Text} (h : '=' ∉ o) : Clean o :=
  fun _ _ => ⟨fun h' => h (h'.subset (by simp)), fun h' => h (h'.subset (by simp))⟩

/-- A token in such a text does not set a placeholder. -/
theorem Clean.not_mem_placeholders {n sp x : Text} (hclean : Clean (tokenText n sp x))
    (h : IsToken n sp x) : n.map Char.toLower ∉ placeholders := by
  intro hk
  have hupper : upper (n.map Char.toLower) = n := h.upper_lower
  have hno := hclean _ hk
  rw [hupper] at hno
  rcases h.blank with rfl | rfl
  · exact hno.1 ⟨[], x, by simp [tokenText]⟩
  · exact hno.2 ⟨[], x, by simp [tokenText]⟩

/-- Where a match cannot go on: the end of the text, the end of the line, or a blank that is not
followed by `=`. -/
def Boundary (b : Text) : Prop :=
  b = [] ∨ (∃ c b', (c = '\n' ∨ c = '\r') ∧ b = c :: b') ∨ ∃ b', b = ' ' :: b' ∧ b'.head? ≠ some '='

theorem IsToken.not_mem_name {n sp x : Text} (h : IsToken n sp x) {c : Char}
    (hc : isName c = false) : c ∉ n := by
  intro hmem
  rw [h.name c hmem] at hc
  cases hc

theorem IsToken.not_mem_value {n sp x : Text} (h : IsToken n sp x) {c : Char}
    (hc : isHex c = false) : c ∉ x := by
  intro hmem
  rw [h.value c hmem] at hc
  cases hc

/-- A token stands in one line. -/
theorem IsToken.eol_not_mem {n sp x : Text} {c : Char} (h : IsToken n sp x)
    (hc : c = '\n' ∨ c = '\r') : c ∉ tokenText n sp x := by
  have hn : c ∉ n := h.not_mem_name (by rcases hc with rfl | rfl <;> rfl)
  have hx : c ∉ x := h.not_mem_value (by rcases hc with rfl | rfl <;> rfl)
  have hblank : c ≠ ' ' ∧ c ≠ '=' := by rcases hc with rfl | rfl <;> decide
  rcases h.blank with rfl | rfl <;> simp [tokenText, hn, hx, hblank]

theorem IsToken.newline_not_mem {n sp x : Text} (h : IsToken n sp x) :
    '\n' ∉ tokenText n sp x := h.eol_not_mem (.inl rfl)

/-- The only blank of a token stands before its `=`. -/
theorem IsToken.after_blank {n sp x o a : Text} (h : IsToken n sp x)
    (heq : tokenText n sp x = o ++ ' ' :: a) : a = '=' :: x := by
  have hn := h.not_mem_name (show isName ' ' = false from rfl)
  have hx := h.not_mem_value (show isHex ' ' = false from rfl)
  rcases h.blank with rfl | rfl
  · rw [tokenText, List.append_nil, List.append_cons_inj_of_notMem hn hx] at heq
    cases heq.2.1
  · rw [tokenText, List.append_assoc, List.singleton_append,
      List.append_cons_inj_of_notMem hn (by simp [hx])] at heq
    exact heq.2.2.symm

/-- A token that begins before a boundary ends before it. -/
theorem IsToken.prefix_of_boundary {o b n sp x l : Text} (h : IsToken n sp x) (hb : Boundary b)
    (heq : tokenText n sp x ++ l = o ++ b) : tokenText n sp x <+: o := by
  rcases List.append_eq_append_iff.1 heq with ⟨a, ho, -⟩ | ⟨a, htok, hba⟩
  · exact ⟨a, ho.symm⟩
  · cases a with
    | nil => exact ⟨[], by rw [htok]; simp⟩
    | cons c a =>
        rcases hb with rfl | ⟨d, b', hd, rfl⟩ | ⟨b', rfl, hhead⟩
        · cases hba
        · obtain ⟨rfl, -⟩ := List.cons.inj hba
          exact absurd (by simp [htok]) (h.eol_not_mem hd)
        · obtain ⟨rfl, rfl⟩ := List.cons.inj hba
          obtain rfl := h.after_blank htok
          exact absurd rfl hhead

/-- **Scanning such a text up to a boundary** finds only tokens that set no placeholder, and then
what a scan from the boundary finds. -/
theorem findall_clean (u : Unicode) {o b : Text} (ho : Clean o) (hb : Boundary b) :
    ∃ ms, regPattern.findall (o ++ b) = ms ++ regPattern.findall b ∧
      ∀ m ∈ ms, (regAssignment u m).1 ∉ placeholders := by
  -- a match that begins in the text is a token of it
  have hin : ∀ s m, s <:+ o → regPattern.first (s ++ b) = some m → ∃ n sp x, IsToken n sp x ∧
      m.taken = tokenText n sp x ∧ m.groups = [n ++ sp, x] ∧ tokenText n sp x <+: s := by
    intro s m _ hfirst
    have hm := mem_results_of_first hfirst
    obtain ⟨n, sp, x, htok, htaken, hgroups⟩ := isToken_of_mem_results hm
    have htext : tokenText n sp x ++ m.rest = s ++ b := htaken ▸ (append_of_mem_results hm).symm
    exact ⟨n, sp, x, htok, htaken, hgroups, htok.prefix_of_boundary hb htext⟩
  obtain ⟨ms, hms, hfrom⟩ := findall_append (r := regPattern) (o := o) (b := b) (by
    intro s m hs hfirst _
    obtain ⟨n, sp, x, -, htaken, -, hpre⟩ := hin s m hs hfirst
    rw [htaken]
    exact ⟨by simp [tokenText], hpre⟩)
  refine ⟨ms, hms, fun m hm => ?_⟩
  obtain ⟨s, hs, -, hfirst⟩ := hfrom m hm
  obtain ⟨n, sp, x, htok, -, hgroups, hpre⟩ := hin s m hs hfirst
  rw [regAssignment_token u htok hgroups]
  exact Clean.not_mem_placeholders (ho.of_infix (hpre.isInfix.trans hs.isInfix)) htok

/-! ### The patterns for tables and segments -/

/-- Hexadecimal digits, at least one. -/
abbrev Hex := { t : Text // t ≠ [] ∧ ∀ c ∈ t, isHex c = true }

theorem Hex.first (x : Hex) {l : Text} (hl : Stops isHex l) :
    (plus isHex).first (x.1 ++ l) = some ⟨x.1, [], l⟩ :=
  first_plus x.2.2 x.2.1 hl

/-- No class without digits goes on into digits. -/
theorem Hex.stops (x : Hex) {p : Char → Bool} (hp : ∀ c, isHex c = true → p c = false)
    (l : Text) : Stops p (x.1 ++ l) := by
  obtain ⟨t, hne, ht⟩ := x
  cases t with
  | nil => exact absurd rfl hne
  | cons c t => exact stops_cons.2 (hp c (ht c List.mem_cons_self))

theorem stops_isHex_blanks (n : ℕ) (l : Text) :
    Stops isHex (List.replicate (n + 1) ' ' ++ l) := by
  rw [List.replicate_succ, List.cons_append]
  exact stops_cons.2 rfl

theorem isSpace_of_mem_blanks (n : ℕ) : ∀ c ∈ List.replicate n ' ', isSpace c = true := by
  intro c hc
  rw [List.eq_of_mem_replicate hc]
  rfl

theorem xdtPattern_first (c : Char) (hc : c ≠ '\n') (n k : ℕ) (x y : Hex) {l : Text}
    (hl : Stops isHex l) :
    ∃ m, xdtPattern.first (c :: 'D' :: 'T' :: '=' :: (List.replicate n ' ' ++
        (x.1 ++ (List.replicate (k + 1) ' ' ++ (y.1 ++ l))))) = some m ∧
      m.groups = [[c, 'D', 'T'], x.1, y.1] := by
  have hspace : ∀ d, isHex d = true → isSpace d = false := fun d hd => (isHex_spec hd).1
  have hdt : ∀ l, (seq (lit 'D') (lit 'T')).first ('D' :: 'T' :: l) = some ⟨['D', 'T'], [], l⟩ :=
    fun l => first_seq (first_lit 'D') (first_lit 'T')
  have hany : ∀ l, (char fun c => c ≠ '\n').first (c :: l) = some ⟨[c], [], l⟩ :=
    fun l => first_char (by simpa using hc)
  have hxdt : ∀ l, (group (seq (char fun c => c ≠ '\n') (seq (lit 'D') (lit 'T')))).first
      (c :: 'D' :: 'T' :: l) = some ⟨[c, 'D', 'T'], [[c, 'D', 'T']], l⟩ :=
    fun l => first_group (first_seq (hany _) (hdt l))
  have hlimit := first_seq
    (first_plus (isSpace_of_mem_blanks (k + 1)) (by simp) (y.stops hspace l))
    (first_group (y.first hl))
  have hbase := first_seq (first_group (x.first (stops_isHex_blanks k _))) hlimit
  have hrest := first_seq (first_lit '=')
    (first_seq (first_many (isSpace_of_mem_blanks n) (x.stops hspace _)) hbase)
  exact ⟨_, first_seq (hxdt _) hrest, rfl⟩

theorem segPattern_first (c : Char) (hc : c = 'F' ∨ c = 'G') (n : ℕ) (x y : Hex) {l : Text}
    (hl : Stops isHex l) :
    ∃ m, segPattern.first (c :: 'S' :: ' ' :: '=' :: (x.1 ++
        (List.replicate (n + 1) ' ' ++ (y.1 ++ l)))) = some m ∧
      m.groups = [[c, 'S'], y.1] := by
  have hspace : ∀ d, isHex d = true → isSpace d = false := fun d hd => (isHex_spec hd).1
  have hseg : ∀ l, (alt (seq (lit 'F') (lit 'S')) (seq (lit 'G') (lit 'S'))).first
      (c :: 'S' :: l) = some ⟨[c, 'S'], [], l⟩ := by
    intro l
    rcases hc with rfl | rfl
    · exact first_alt_left (first_seq (first_lit 'F') (first_lit 'S'))
    · rw [first_alt_right (by simp [results, lit])]
      exact first_seq (first_lit 'G') (first_lit 'S')
  have hbase := first_seq
    (first_many (isSpace_of_mem_blanks (n + 1)) (y.stops hspace l)) (first_group (y.first hl))
  have hrest := first_seq (first_lit ' ') (first_seq (first_lit '=')
    (first_seq (x.first (stops_isHex_blanks n _)) hbase))
  exact ⟨_, first_seq (first_group (hseg _)) hrest, rfl⟩

/-- Hexadecimal digits of a text, at least one. -/
structure HexIn (x l : Text) : Prop where
  ne : x ≠ []
  hex : ∀ c ∈ x, isHex c = true
  infix_of : x <:+: l

theorem HexIn.trans {x l l' : Text} (h : HexIn x l) (hl : l <:+: l') : HexIn x l' :=
  ⟨h.ne, h.hex, h.infix_of.trans hl⟩

theorem rest_suffix {r : Regex Char} {l : Text} {m : Match Char} (h : m ∈ r.results l) :
    m.rest <:+ l :=
  ⟨m.taken, (append_of_mem_results h).symm⟩

theorem hexIn_of_mem_results {l : Text} {m : Match Char} (h : m ∈ (plus isHex).results l) :
    HexIn m.taken l := by
  obtain ⟨hl, -, hne, hhex⟩ := mem_results_plus h
  exact ⟨hne, hhex, [], m.rest, by rw [hl]; rfl⟩

/-- A line that `xdtPattern` matches begins with a character, `DT` and `=`, and has two numbers. -/
theorem xdtPattern_sound {l : Text} {m : Match Char} (h : m ∈ xdtPattern.results l) :
    ∃ c l', l = c :: 'D' :: 'T' :: '=' :: l' ∧ groupText m 1 = [c, 'D', 'T'] ∧
      HexIn (groupText m 2) l ∧ HexIn (groupText m 3) l := by
  obtain ⟨m₁, hm₁, m₂, hm₂, rfl⟩ := mem_results_seq.1 h
  obtain ⟨m₃, hm₃, rfl⟩ := mem_results_group.1 hm₁
  obtain ⟨m₄, hm₄, m₅, hm₅, rfl⟩ := mem_results_seq.1 hm₃
  obtain ⟨c, l₁, rfl, -, rfl⟩ := mem_results_char.1 hm₄
  obtain ⟨m₆, hm₆, m₇, hm₇, rfl⟩ := mem_results_seq.1 hm₅
  obtain ⟨d, l₂, rfl, hd, rfl⟩ := mem_results_char.1 hm₆
  obtain ⟨t, l₃, rfl, ht, rfl⟩ := mem_results_char.1 hm₇
  obtain ⟨m₈, hm₈, m₉, hm₉, rfl⟩ := mem_results_seq.1 hm₂
  obtain ⟨q, l₄, rfl, hq, rfl⟩ := mem_results_char.1 hm₈
  obtain rfl : d = 'D' := of_decide_eq_true hd
  obtain rfl : t = 'T' := of_decide_eq_true ht
  obtain rfl : q = '=' := of_decide_eq_true hq
  -- the two numbers
  obtain ⟨s₁, hs₁, r₁, hr₁, rfl⟩ := mem_results_seq.1 hm₉
  obtain ⟨g₁, hg₁, r₂, hr₂, rfl⟩ := mem_results_seq.1 hr₁
  obtain ⟨x, hx, rfl⟩ := mem_results_group.1 hg₁
  obtain ⟨s₂, hs₂, g₂, hg₂, rfl⟩ := mem_results_seq.1 hr₂
  obtain ⟨y, hy, rfl⟩ := mem_results_group.1 hg₂
  have hl₄ : l₄ <:+ c :: 'D' :: 'T' :: '=' :: l₄ := ⟨[c, 'D', 'T', '='], rfl⟩
  have hs₁l := (rest_suffix hs₁).trans hl₄
  have hs₂l := ((rest_suffix hs₂).trans (rest_suffix hg₁)).trans hs₁l
  have hgroups₁ := (mem_results_many hs₁).2.1
  have hgroups₂ := (mem_results_plus hs₂).2.1
  have hx' := (mem_results_plus hx).2.1
  have hy' := (mem_results_plus hy).2.1
  refine ⟨c, l₄, rfl, rfl, ?_, ?_⟩
  · simpa [groupText, Match.append, hgroups₁] using
      (hexIn_of_mem_results hx).trans hs₁l.isInfix
  · simpa [groupText, Match.append, hgroups₁, hgroups₂, hx'] using
      (hexIn_of_mem_results hy).trans hs₂l.isInfix

/-- A line that `segPattern` matches begins with a segment register, a blank, `=` and digits, and
has a number after these. -/
theorem segPattern_sound {l : Text} {m : Match Char} (h : m ∈ segPattern.results l) :
    ∃ (c : Char) (x : Hex) (l' : Text), (c = 'F' ∨ c = 'G') ∧
      l = c :: 'S' :: ' ' :: '=' :: (x.1 ++ l') ∧ groupText m 1 = [c, 'S'] ∧
        HexIn (groupText m 2) l := by
  obtain ⟨m₁, hm₁, m₂, hm₂, rfl⟩ := mem_results_seq.1 h
  obtain ⟨m₃, hm₃, rfl⟩ := mem_results_group.1 hm₁
  obtain ⟨m₄, hm₄, m₅, hm₅, rfl⟩ := mem_results_seq.1 hm₂
  obtain ⟨b, l₁, hl₁, hb, rfl⟩ := mem_results_char.1 hm₄
  obtain ⟨m₆, hm₆, m₇, hm₇, rfl⟩ := mem_results_seq.1 hm₅
  obtain ⟨q, l₂, rfl, hq, rfl⟩ := mem_results_char.1 hm₆
  obtain ⟨m₈, hm₈, m₉, hm₉, rfl⟩ := mem_results_seq.1 hm₇
  obtain ⟨s₁, hs₁, g₁, hg₁, rfl⟩ := mem_results_seq.1 hm₉
  obtain ⟨y, hy, rfl⟩ := mem_results_group.1 hg₁
  obtain ⟨hl₂, hgroups₈, hne, hhex⟩ := mem_results_plus hm₈
  obtain rfl : b = ' ' := of_decide_eq_true hb
  obtain rfl : q = '=' := of_decide_eq_true hq
  have hseg : ∃ c, (c = 'F' ∨ c = 'G') ∧ m₃.taken = [c, 'S'] ∧ m₃.groups = [] := by
    rcases mem_results_alt.1 hm₃ with h | h
    all_goals
      obtain ⟨m, hm, m', hm', rfl⟩ := mem_results_seq.1 h
      obtain ⟨c, l₃, -, hc, rfl⟩ := mem_results_char.1 hm
      obtain ⟨s, l₄, -, hs, rfl⟩ := mem_results_char.1 hm'
      obtain rfl : s = 'S' := of_decide_eq_true hs
    · exact ⟨c, .inl (of_decide_eq_true hc), rfl, rfl⟩
    · exact ⟨c, .inr (of_decide_eq_true hc), rfl, rfl⟩
  obtain ⟨c, hc, htaken, hgroups₃⟩ := hseg
  have hl : l = c :: 'S' :: ' ' :: '=' :: l₂ := by
    have hl' := append_of_mem_results hm₃
    rw [htaken, show m₃.rest = ' ' :: '=' :: l₂ from hl₁] at hl'
    exact hl'
  have hl₂l : l₂ <:+ l := ⟨[c, 'S', ' ', '='], hl.symm⟩
  have hyl := ((rest_suffix hs₁).trans (rest_suffix hm₈)).trans hl₂l
  have hgroups₁ := (mem_results_many hs₁).2.1
  refine ⟨c, ⟨m₈.taken, hne, hhex⟩, m₈.rest, hc, ?_, ?_, ?_⟩
  · rw [hl, show l₂ = m₈.taken ++ m₈.rest from hl₂]
  · simp [groupText, Match.append, htaken]
  · simpa [groupText, Match.append, hgroups₃, hgroups₈, hgroups₁] using
      (hexIn_of_mem_results hy).trans hyl.isInfix

/-! ### The assignments that a line can make -/

theorem xdtAssignments_eq (u : Unicode) {l : Text} {m : Match Char}
    (h : xdtPattern.first l = some m) :
    xdtAssignments u l =
      [(u.lowerText (groupText m 1) ++ "_addr".toList, groupText m 2),
       (u.lowerText (groupText m 1) ++ "_size".toList, groupText m 3)] := by
  rw [xdtAssignments, h]

theorem segAssignments_eq (u : Unicode) {l : Text} {m : Match Char}
    (h : segPattern.first l = some m) :
    segAssignments u l = [(u.lowerText (groupText m 1) ++ "_base".toList, groupText m 2)] := by
  rw [segAssignments, h]

theorem Unicode.lowerText_dt (u : Unicode) (c : Char) :
    u.lowerText [c, 'D', 'T'] = u.lower c ++ ['d', 't'] := by
  simp [Unicode.lowerText, u.lower_ascii]

section Assignments

variable {u : Unicode} {line : Text} {a : Text × Text}

/-- An assignment of the first pattern comes from a token with all its digits. -/
theorem exists_of_mem_regAssignments (h : a ∈ regAssignments u line) :
    ∃ n sp x l, IsToken n sp x ∧ tokenText n sp x ++ l <:+ line ∧ Stops isHex l ∧
      a = (n.map Char.toLower, x) := by
  obtain ⟨m, hm, rfl⟩ := List.mem_map.1 h
  obtain ⟨l', hl', hfirst⟩ := first_of_mem_findall hm
  obtain ⟨n, sp, x, htok, rfl, hstops, hgroups⟩ := isToken_of_first hfirst
  exact ⟨n, sp, x, m.rest, htok, hl', hstops, regAssignment_token u htok hgroups⟩

/-- The second pattern sets keys that end in `dt_addr` or `dt_size`. -/
theorem exists_of_mem_xdtAssignments (h : a ∈ xdtAssignments u line) :
    ∃ c y, y ∈ ["_addr".toList, "_size".toList] ∧ a.1 = u.lower c ++ 'd' :: 't' :: y ∧
      HexIn a.2 line := by
  cases hfirst : xdtPattern.first line with
  | none =>
      rw [xdtAssignments, hfirst] at h
      cases h
  | some m =>
      obtain ⟨c, l', -, hxdt, haddr, hsize⟩ := xdtPattern_sound (mem_results_of_first hfirst)
      rw [xdtAssignments_eq u hfirst, hxdt, u.lowerText_dt] at h
      rcases List.mem_cons.1 h with rfl | h
      · exact ⟨c, _, List.mem_cons_self, List.append_assoc .., haddr⟩
      · obtain rfl := List.mem_singleton.1 h
        exact ⟨c, _, List.mem_cons_of_mem _ List.mem_cons_self, List.append_assoc .., hsize⟩

/-- The third pattern sets the bases of the two segments. -/
theorem exists_of_mem_segAssignments (h : a ∈ segAssignments u line) :
    a.1 ∈ ["fs_base".toList, "gs_base".toList] ∧ HexIn a.2 line := by
  cases hfirst : segPattern.first line with
  | none =>
      rw [segAssignments, hfirst] at h
      cases h
  | some m =>
      obtain ⟨c, -, -, hc, -, hseg, hbase⟩ := segPattern_sound (mem_results_of_first hfirst)
      rw [segAssignments_eq u hfirst, hseg] at h
      obtain rfl := List.mem_singleton.1 h
      refine ⟨?_, hbase⟩
      rcases hc with rfl | rfl
      · rw [u.lowerText_ascii (t := ['F', 'S']) (by simp)]
        exact List.mem_cons_self
      · rw [u.lowerText_ascii (t := ['G', 'S']) (by simp)]
        exact List.mem_cons_of_mem _ List.mem_cons_self

end Assignments

end RegisterScript

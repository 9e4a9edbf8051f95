/-
**The two readers of `CR3`.**

`snap-vm-qmp.py` takes the value of `CR3` for the dump patcher from one reply of the monitor, with a
search for the first place that looks like it.  `process_qemu_info_registers.py` takes it for the
restored CPU from the transcript of the whole session, line by line, and the last place wins.  The
two agree where the transcript has `CR3=` in one place only.

Main definitions:

* `RegisterScript.clearNxCommand` — the command line of the patcher, from the reply;
* `RegisterScript.Transcript` — a transcript, cut at the value of `CR3` in the reply;
* `RegisterScript.Transcript.Unambiguous` — `CR3=` stands there and nowhere else.

Main results:

* `RegisterScript.eq_of_mem_assignments_cr3`, `RegisterScript.cr3_mem_assignments` — what the script
  assigns to `cr3`;
* `RegisterScript.cr3_agree` — **both readers see the same value**.
-/

import ResumeFromEdk2.GeneratedCode

set_option relaxedAutoImplicit false
set_option autoImplicit false

namespace RegisterScript

open PyText Regex

/-! ### The reader of the reply -/

/-- `CR3=` -/
def cr3Mark : Text := ['C', 'R', '3', '=']

/-- `CR3=([0-9a-f]+) ` -/
def snapCr3Pattern : Regex Char := seq (lits cr3Mark) (seq (group (plus isHex)) (lit ' '))

/-- The command line for the patcher that `snap-vm-qmp.py` passes to the shell, from the reply to
`info registers`; without a match it fails. -/
def clearNxCommand (infoRegisters : Text) : Option Text := do
  let m ← snapCr3Pattern.search infoRegisters
  let cr3 := "0x".toList ++ groupText m 1
  let virtAddr := "0xffff88800080c000".toList
  some ("./memdump/modify-mem-dump mem-dump.bin ".toList ++ cr3 ++ " ".toList ++ virtAddr)

/-! ### Transcripts -/

/-- A transcript, cut at the value of `CR3` in the reply to `info registers`. -/
structure Transcript where
  pre : Text
  before : Text
  cr3 : Hex
  after : Text
  post : Text

namespace Transcript

/-- The transcript from the value of `CR3` on. -/
def rest (t : Transcript) : Text := t.cr3.1 ++ ' ' :: (t.after ++ t.post)

/-- The reply to `info registers`. -/
def reply (t : Transcript) : Text := t.before ++ (cr3Mark ++ (t.cr3.1 ++ ' ' :: t.after))

/-- The transcript, `qemu.txt`. -/
def text (t : Transcript) : Text := t.pre ++ (t.reply ++ t.post)

/-- **`CR3=` stands in one place**, at the start of a line or after a character that is not part of
a name, and `CR3 =` stands nowhere. -/
structure Unambiguous (t : Transcript) : Prop where
  once : ∀ s, cr3Mark ++ s <:+ t.text → s = t.rest
  unspaced : ¬['C', 'R', '3', ' ', '='] <:+: t.text
  delimited : ∀ c ∈ (t.pre ++ t.before).getLast?, isName c = false

theorem text_eq (t : Transcript) : t.text = t.pre ++ t.before ++ (cr3Mark ++ t.rest) := by
  simp [text, reply, rest]

end Transcript

section Agree

variable {t : Transcript}

/-- The reply has no match before the one place. -/
theorem first_snapCr3Pattern_before (ht : t.Unambiguous) {s : Text} (hs : s ≠ [])
    (hsuf : s <:+ t.before) :
    snapCr3Pattern.first (s ++ (cr3Mark ++ (t.cr3.1 ++ ' ' :: t.after))) = none := by
  refine first_eq_none fun m hm => ?_
  obtain ⟨m₁, hm₁, m₂, -, rfl⟩ := mem_results_seq.1 hm
  have htext := append_of_mem_results hm₁
  rw [(mem_results_lits hm₁).1] at htext
  -- the place would be a second one, further to the left
  have hplace : cr3Mark ++ (m₁.rest ++ t.post) <:+ t.text := by
    obtain ⟨q, hq⟩ := hsuf
    refine ⟨t.pre ++ q, ?_⟩
    rw [← List.append_assoc cr3Mark, ← htext, Transcript.text, Transcript.reply, ← hq]
    simp only [List.append_assoc]
  have hlength := congrArg List.length (ht.once _ hplace)
  have hlength' := congrArg List.length htext
  have hpos := List.length_pos_of_ne_nil hs
  simp only [Transcript.rest, List.length_append, List.length_cons] at hlength hlength'
  omega

/-- **The command line of the patcher.** -/
theorem clearNxCommand_reply (ht : t.Unambiguous) :
    clearNxCommand t.reply = some ("./memdump/modify-mem-dump mem-dump.bin ".toList ++
      ("0x".toList ++ t.cr3.1) ++ " ".toList ++ "0xffff88800080c000".toList) := by
  have hvalue := first_seq (first_group (t.cr3.first (l := ' ' :: t.after) (stops_cons.2 rfl)))
    (first_lit ' ')
  have hfirst := first_seq (r := lits cr3Mark) (first_lits cr3Mark) hvalue
  have hsearch : snapCr3Pattern.search t.reply = some _ :=
    (search_of_forall_none fun _ hs hsuf => first_snapCr3Pattern_before ht hs hsuf).trans
      (search_of_first hfirst)
  rw [clearNxCommand, hsearch]
  rfl

/-! ### The reader of the transcript -/

/-- The digits of a token that ends its line end there, whatever the next line is. -/
theorem IsToken.stops_line {n sp x l q line : Text} (h : IsToken n sp x)
    (hsuf : tokenText n sp x ++ l <:+ line) (hl : Stops isHex l)
    (hend : q = [] ∨ ∃ l', line = l' ++ ['\n']) : Stops isHex (l ++ q) := by
  cases l with
  | cons c l => exact stops_cons.2 (stops_cons.1 hl)
  | nil =>
      rcases hend with rfl | ⟨l', rfl⟩
      · exact stops_nil
      · rcases List.eq_nil_or_concat' x with rfl | ⟨x', d, rfl⟩
        · exact absurd rfl h.value_ne
        · obtain ⟨r, hr⟩ := hsuf
          have hlast := congrArg List.getLast? hr
          rw [tokenText, List.append_nil, ← List.cons_append, ← List.append_assoc,
            ← List.append_assoc, List.getLast?_concat, List.getLast?_concat] at hlast
          obtain rfl := Option.some.inj hlast
          exact absurd (h.value '\n' (by simp)) (by decide)

/-- **What is assigned to `cr3`** is the value in the one place. -/
theorem eq_of_mem_assignments_cr3 (u : Unicode) (ht : t.Unambiguous) {a : Text × Text}
    (ha : a ∈ (lines t.text).flatMap (lineAssignments u)) (hkey : a.1 = "cr3".toList) :
    a.2 = t.cr3.1 := by
  obtain ⟨line, hline, ha⟩ := List.mem_flatMap.1 ha
  obtain ⟨p, q, hread, hend⟩ := exists_of_mem_lines hline
  rcases List.mem_append.1 ha with ha | ha
  · rcases List.mem_append.1 ha with ha | ha
    · obtain ⟨n, sp, x, l, htok, hsuf, hstops, rfl⟩ := exists_of_mem_regAssignments ha
      have hn : n = ['C', 'R', '3'] := by
        rw [← htok.upper_lower, show n.map Char.toLower = "cr3".toList from hkey]
        rfl
      -- the digits of the token end before the rest of the transcript
      have hstops' := htok.stops_line hsuf hstops hend
      have hplace : tokenText n sp (x ++ (l ++ q)) <:+ t.text := by
        obtain ⟨r, hr⟩ := hsuf
        refine ⟨p ++ r, ?_⟩
        rw [hread, ← hr]
        simp only [tokenText, List.append_assoc, List.cons_append]
      rcases htok.blank with rfl | rfl
      · have hrest : x ++ (l ++ q) = t.rest :=
          ht.once _ (by simpa [hn, tokenText, cr3Mark] using hplace)
        exact eq_of_stops htok.value t.cr3.2.2 hstops' (stops_cons.2 rfl) hrest
      · refine absurd ?_ ht.unspaced
        refine List.IsInfix.trans ⟨[], x ++ (l ++ q), ?_⟩ hplace.isInfix
        rw [hn, tokenText]
        rfl
    · obtain ⟨c, y, hy, hkey', -⟩ := exists_of_mem_xdtAssignments ha
      have hlast := congrArg List.getLast? (hkey'.symm.trans hkey)
      simp only [List.mem_cons, List.not_mem_nil, or_false] at hy
      rcases hy with rfl | rfl <;> simp at hlast
  · have hseg := (exists_of_mem_segAssignments ha).1
    rw [hkey] at hseg
    exact absurd hseg (by decide)

/-- No token begins before `CR3` and takes part of it, unless its name does. -/
theorem IsToken.last_name {n sp x s a : Text} (h : IsToken n sp x)
    (heq : tokenText n sp x = s ++ 'C' :: a) : ∀ c ∈ s.getLast?, isName c = true := by
  have hC : 'C' ∉ sp ++ '=' :: x := by
    have hx := h.not_mem_value (show isHex 'C' = false from rfl)
    rcases h.blank with rfl | rfl <;> simp [hx]
  intro c hc
  obtain ⟨s', rfl⟩ := List.getLast?_eq_some_iff.1 hc
  have hsplit : n ++ (sp ++ '=' :: x) = (s' ++ [c, 'C']) ++ a := by
    rw [tokenText, List.append_assoc] at heq
    simpa using heq
  rcases List.append_eq_append_iff.1 hsplit with ⟨b, hb, hrest⟩ | ⟨b, hb, -⟩
  · rcases List.eq_nil_or_concat' b with rfl | ⟨b', d, rfl⟩
    · exact h.name c (by rw [← List.append_nil n, ← hb]; simp)
    · have hd : 'C' = d := by
        have hlast := congrArg List.getLast? hb
        simpa using hlast
      exact absurd (by rw [hrest, hd]; simp) hC
  · exact h.name c (by rw [hb]; simp)

/-- The text before the place does not end with part of a name. -/
theorem isName_getLast?_before (ht : t.Unambiguous) {p : Text} (hp : p <:+ t.pre ++ t.before) :
    ∀ c ∈ p.getLast?, isName c = false := by
  intro c hc
  obtain ⟨q, hq⟩ := hp
  refine ht.delimited c ?_
  rw [← hq, List.getLast?_append, Option.mem_def.1 hc]
  rfl

/-- The scan of a line comes to the place with nothing of it taken. -/
theorem findall_cr3 {p s : Text} {x : Hex} (hp : ∀ c ∈ p.getLast?, isName c = false)
    (hs : Stops isHex s) :
    ∃ m ∈ regPattern.findall (p ++ (tokenText ['C', 'R', '3'] [] x.1 ++ s)),
      m.groups = [['C', 'R', '3'], x.1] := by
  have htok : IsToken ['C', 'R', '3'] [] x.1 :=
    ⟨List.all_eq_true.1 (by decide), by simp, .inl rfl, x.2.2, x.2.1⟩
  obtain ⟨ms, hms, -⟩ := findall_append (r := regPattern) (o := p)
    (b := tokenText ['C', 'R', '3'] [] x.1 ++ s) (by
      intro p' m hp' hfirst hne
      obtain ⟨n, sp, y, htok', htaken, -⟩ := isToken_of_mem_results (mem_results_of_first hfirst)
      have htext := append_of_mem_results (mem_results_of_first hfirst)
      rw [htaken] at htext ⊢
      refine ⟨by simp [tokenText], ?_⟩
      rcases List.append_eq_append_iff.1 htext with ⟨a, ha, hrest⟩ | ⟨a, ha, -⟩
      · cases a with
        | nil => exact ⟨[], by rw [ha]; simp⟩
        | cons c a =>
            -- the token would begin with a character that is not part of a name
            obtain rfl : c = 'C' := (List.cons.inj hrest).1.symm
            obtain ⟨c, hc⟩ := Option.isSome_iff_exists.1 (List.getLast?_isSome.2 hne)
            have hlast : p.getLast? = some c := by
              obtain ⟨q, rfl⟩ := hp'
              rw [List.getLast?_append_of_ne_nil _ hne, hc]
            exact absurd (htok'.last_name ha c hc) (by rw [hp c hlast]; decide)
      · exact ⟨a, ha.symm⟩)
  rw [hms, findall_of_first (regPattern_first htok hs) (by simp [tokenText])]
  exact ⟨_, List.mem_append_right _ List.mem_cons_self, rfl⟩

/-- **The value in the one place is assigned to `cr3`.** -/
theorem cr3_mem_assignments (u : Unicode) (ht : t.Unambiguous) :
    ("cr3".toList, t.cr3.1) ∈ (lines t.text).flatMap (lineAssignments u) := by
  have htok : IsToken ['C', 'R', '3'] [] t.cr3.1 :=
    ⟨List.all_eq_true.1 (by decide), by simp, .inl rfl, t.cr3.2.2, t.cr3.2.1⟩
  have hnl : '\n' ∉ tokenText ['C', 'R', '3'] [] t.cr3.1 ++ [' '] := by
    simp [htok.newline_not_mem]
  -- the line with the place
  obtain ⟨p, s, hp, hline⟩ := exists_mem_lines (p := t.pre ++ t.before) (s := t.after ++ t.post)
    hnl (by simp)
  have hread : t.text = t.pre ++ t.before ++
      (tokenText ['C', 'R', '3'] [] t.cr3.1 ++ [' '] ++ (t.after ++ t.post)) := by
    simp [t.text_eq, Transcript.rest, tokenText, cr3Mark]
  rw [← hread, List.append_assoc] at hline
  obtain ⟨m, hm, hgroups⟩ := findall_cr3 (s := [' '] ++ s) (x := t.cr3)
    (isName_getLast?_before ht hp) (stops_cons.2 rfl)
  have hassign : regAssignment u m = ("cr3".toList, t.cr3.1) := regAssignment_token u htok hgroups
  refine List.mem_flatMap.2 ⟨_, hline, List.mem_append_left _ (List.mem_append_left _ ?_)⟩
  exact List.mem_map.2 ⟨m, hm, hassign⟩

/-- **Both readers see the same value.**  From the reply, `snap-vm-qmp.py` passes the value in the
one place to the patcher; from the transcript, the script puts the same value into the dictionary,
and when it succeeds, its whole output is the template with this value for `s.cr3`. -/
theorem cr3_agree (u : Unicode) (ripOffset : ℤ) (ht : t.Unambiguous) :
    clearNxCommand t.reply = some ("./memdump/modify-mem-dump mem-dump.bin ".toList ++
        ("0x".toList ++ t.cr3.1) ++ " ".toList ++ "0xffff88800080c000".toList) ∧
      (parse u ripOffset t.text).get? "cr3".toList = some (.str t.cr3.1) ∧
        ∀ out, main u ripOffset t.text = some out → ∃ (v : Text → Hex) (offset comment : Text),
          out = output (codeOf v offset) comment ∧ v "cr3".toList = t.cr3 := by
  have hcr3 : (parse u ripOffset t.text).get? "cr3".toList = some (.str t.cr3.1) := by
    refine Dict.get?_setAll _ ?_ (List.mem_map.2 ⟨_, cr3_mem_assignments u ht, rfl⟩)
    rw [List.forall_mem_map]
    intro a ha hkey
    exact congrArg Value.str (eq_of_mem_assignments_cr3 u ht ha hkey)
  refine ⟨clearNxCommand_reply ht, hcr3, fun out hout => ?_⟩
  obtain ⟨v, hv, rfl⟩ := exists_values hout
  have hkey := hv "cr3".toList (by decide +kernel)
  exact ⟨v, _, _, rfl, Subtype.ext (Value.str.inj (Option.some.inj (hkey.symm.trans hcr3)))⟩

/-- The transcript of a session, cut at `CR3`. -/
def exampleCr3Transcript : Transcript where
  pre := "(qemu) info registers\r\n".toList
  before := tokenLine exampleValue (tokenKeys.takeWhile fun k => k ≠ "cr3".toList)
  cr3 := exampleValue "cr3".toList
  after := tokenLine exampleValue (tokenKeys.dropWhile fun k => k ≠ "cr3".toList).tail ++
    '\r' :: '\n' :: (exampleLines.drop 2).flatMap fun t => t ++ ['\r', '\n']
  post := []

theorem text_exampleCr3Transcript : exampleCr3Transcript.text = exampleTranscript := by
  decide +kernel

theorem exampleCr3Transcript_unambiguous : exampleCr3Transcript.Unambiguous where
  once := by
    have hall : ∀ l ∈ exampleCr3Transcript.text.tails, l.take 4 = cr3Mark →
        l.drop 4 = exampleCr3Transcript.rest := by decide +kernel
    intro s hs
    exact hall _ ((List.mem_tails _ _).2 hs) rfl
  unspaced := by decide +kernel
  delimited := by
    intro c hc
    have hlast : (exampleCr3Transcript.pre ++ exampleCr3Transcript.before).getLast? = some ' ' := by
      decide +kernel
    obtain rfl := Option.some.inj (hlast.symm.trans hc)
    rfl

/-- Both programs succeed on this transcript, and have the same value. -/
theorem cr3_agree_example :
    clearNxCommand exampleCr3Transcript.reply =
        some "./memdump/modify-mem-dump mem-dump.bin 0x0c03 0xffff88800080c000".toList ∧
      ∃ out, main asciiUnicode 0 exampleCr3Transcript.text = some out ∧
        ∃ (v : Text → Hex) (offset comment : Text),
          out = output (codeOf v offset) comment ∧ (v "cr3".toList).1 = "0c03".toList := by
  obtain ⟨hcommand, -, hassign⟩ := cr3_agree asciiUnicode 0 exampleCr3Transcript_unambiguous
  obtain ⟨ks, hdump, hall⟩ := exampleTranscript_dump
  obtain ⟨comment, hmain⟩ := main_of_dump asciiUnicode hdump hall
  rw [← text_exampleCr3Transcript] at hmain
  obtain ⟨v, offset, comment', hout, hcr3⟩ := hassign _ hmain
  refine ⟨hcommand.trans (by decide +kernel), _, hmain, v, offset, comment', hout, ?_⟩
  rw [hcr3]
  decide +kernel

end Agree

end RegisterScript

/-
**The transcript of a snapshot session.**

The output of `snap-vm-qmp.py` becomes `qemu.txt`, the input of the register script.  It has the
reply to `info registers` among much else: lines that the script prints itself, replies to other
commands, the command lines of the programs that it starts, and what the dump patcher prints.  The
patcher writes to the same file, and Python buffers its own output, so the text of the patcher may
stand at any place of what the script had printed before.

This module shows that nothing of this disturbs the registers, as long as the reply itself stays in
one piece and the other replies have no registers in them.

Main definitions:

* `Snapshot.Monitor` — what the monitor answers, and how the answers are printed;
* `Snapshot.modifyMemDumpOutput` — what the patcher prints;
* `Snapshot.QemuTxt` — the files that a session can leave;
* `Snapshot.Silent` — text in which the register script finds nothing.

Main results:

* `Snapshot.silent_modifyMemDumpOutput` — **the patcher prints nothing that looks like a register**;
* `Snapshot.dump_of_qemuTxt` — the registers of the transcript are those of the reply;
* `Snapshot.main_of_qemuTxt` — **every field gets its register from the reply**.
-/

import ResumeFromEdk2.CpuStateFile
import ResumeFromEdk2.SnapshotSession

set_option relaxedAutoImplicit false
set_option autoImplicit false

namespace Snapshot

open ByteImage MemDump PyText Regex RegisterScript

/-! ### What the patcher prints -/

/-- `%lx` -/
def lx (w : BitVec 64) : Text := Nat.toDigits 16 w.toNat

/-- What `ClearPageNXFlag` prints, line by line. -/
def clearPageNXFlagOutput {n : ℕ} (physmem : MapAddr) (pgdBase va : BitVec 64) (m : Image n) :
    Option (List Text) := do
  let start := "MH: ClearPageNXFlag: VA 0x".toList ++ lx va ++ " in PGT at 0x".toList ++ lx pgdBase
  let pgd := pgdOffsetPgd (physmem.ptr + pgdBase) va
  let v ← MemDump.load physmem.ptr m pgd
  if pgdNone v then
    return [start, "ClearPageNXFlag quitting > pgd value: ".toList ++ lx v]
  else
    let pud ← pudOffset physmem.ptr m pgd va
    let v ← MemDump.load physmem.ptr m pud
    if pudNone v then
      return [start, "ClearPageNXFlag quitting > pud value: ".toList ++ lx v]
    else
      let pmd ← pmdOffset physmem.ptr m pud va
      let v ← MemDump.load physmem.ptr m pmd
      if pmdNone v then
        return [start, "ClearPageNXFlag quitting > pmd value: ".toList ++ lx v]
      else
        let ptep ← pteOffsetKernel physmem.ptr m pmd va
        if ptep = 0 then
          return [start]
        else
          let v ← MemDump.load physmem.ptr m ptep
          return [start, "ClearPageNXFlag: pte entry address is: 0x".toList ++ lx ptep,
            "ClearPageNXFlag: pte value before: ".toList ++ lx v,
            "ClearPageNXFlag: pte value after: ".toList ++ lx (v &&& ~~~pageNx), "msync".toList]

/-- **What `modify_mem_dump` prints**, line by line; a run without a meaning prints nothing, since
the text is still in a buffer. -/
def modifyMemDumpOutput {n : ℕ} (physmem : MapAddr) (filename : Text) (cr3 va : BitVec 64)
    (m : Image n) : Option (List Text) := do
  let walk ← clearPageNXFlagOutput physmem cr3 va m
  let (rc, m) ← clearPageNXFlag physmem cr3 va m
  let v ← MemDump.load physmem.ptr m (physmem.ptr + gdtPhysAddr + tssOffset)
  return ["Opening ".toList ++ filename,
      "File size: ".toList ++ (toString n).toList ++ " bytes".toList, "mmap".toList] ++ walk ++
    ["ClearPageNXFlag returned ".toList ++ (Value.int rc).format,
      "modify TSS descriptor in GDT".toList,
      "before: tss_desc = ".toList ++ hexDigits 16 v.toNat,
      "after : tss_desc = ".toList ++ hexDigits 16 (v &&& ~~~(1#64 <<< 41)).toNat,
      "msync".toList, "munmap".toList, "close".toList]

/-! ### What the script prints -/

/-- Lines, each with its end. -/
def unlines (ts : List Text) : Text := ts.flatMap fun t => t ++ ['\n']

/-- **The monitor behind the socket**: the printed form of its answers, and the text that a command
of the human monitor gives. -/
structure Monitor where
  rsp : String → Text
  hmp : String → Text

/-- `hmp_cmd` -/
def hmpCmd (q : Monitor) (commandLine : String) : List Text :=
  [">>> HMP: ".toList ++ commandLine.toList, q.hmp commandLine]

/-- `shell_cmd` -/
def shellCmd (commandLine : Text) : Text := ">>> Shell: ".toList ++ commandLine

/-- What the script prints before the reply to `info registers`. -/
def printedBefore (q : Monitor) (socket : Text) : List Text :=
  ["--- Connecing to ".toList ++ socket, "--- stopping".toList, q.rsp "stop",
    ">>> HMP: info registers".toList]

/-- What it prints between this reply and the start of the patcher. -/
def printedAfter (q : Monitor) (cmd : Text) : List Text :=
  (["info lapic", "info pic", "gva2gpa 0xfffffe0000000000", "gva2gpa 0xfffffe0000001000",
      "gva2gpa 0xfffffe0000003000", "x /32xg 0xfffffe0000000000", "x /16xg 0xfffffe0000001000",
      "x /32xg 0xfffffe0000003000", "savevm save3"].flatMap (hmpCmd q)) ++
    ["--- dump memory".toList, q.rsp "pmemsave", "--- save devices state".toList,
      q.rsp "xen-save-devices-state", "--- exiting".toList, q.rsp "quit",
      "--- clear NX flag".toList, shellCmd cmd]

/-- What it prints at the end. -/
def printedEnd : List Text :=
  ["--- save mem-dump-1.bin".toList,
    shellCmd ("dd if=mem-dump.bin of=mem-dump-1.bin bs=4096 count=".toList ++
      (toString 0x80b).toList),
    "--- save mem-dump-2.bin".toList,
    shellCmd ("dd if=mem-dump.bin of=mem-dump-2.bin bs=4096 skip=".toList ++
      (toString 0x80e).toList ++ " count=".toList ++ (toString 0x3f7f2).toList),
    "--- done".toList]

/-- **The files that a session can leave**, where the reply to `info registers` is in one piece: the
text of the patcher stands before or after it, somewhere in what the script has printed by then. -/
def QemuTxt (q : Monitor) (socket cmd patcher t : Text) : Prop :=
  (∃ w r, w ++ r = unlines (printedBefore q socket) ∧
    t = w ++ patcher ++ r ++ (q.hmp "info registers" ++
      ('\n' :: unlines (printedAfter q cmd) ++ unlines printedEnd))) ∨
  ∃ w r, w ++ r = '\n' :: unlines (printedAfter q cmd) ∧
    t = unlines (printedBefore q socket) ++ (q.hmp "info registers" ++
      (w ++ patcher ++ r ++ unlines printedEnd))

/-! ### Text without registers -/

/-- **Text in which the register script finds nothing**: no placeholder is set in it, and no part of
it is the line of a table. -/
structure Silent (t : Text) : Prop where
  clean : Clean t
  noTable : ¬['d', 't', '='] <:+: t.map Char.toLower

theorem Silent.of_infix {s t : Text} (h : Silent t) (hs : s <:+: t) : Silent s where
  clean := h.clean.of_infix hs
  noTable := fun h' => h.noTable (h'.trans (hs.map Char.toLower))

/-- What ends in a character that the second text lacks lies in the first one. -/
theorem infix_of_infix_append {p s t : Text} {d : Char} (hd : d ∉ t)
    (h : p ++ [d] <:+: s ++ t) : p ++ [d] <:+: s := by
  obtain ⟨a, b, hab⟩ := h
  rcases List.append_eq_append_iff.1 hab with ⟨c, rfl, -⟩ | ⟨c, hc, rfl⟩
  · exact ⟨a, c, rfl⟩
  · rcases List.eq_nil_or_concat' c with rfl | ⟨c', e, rfl⟩
    · exact ⟨a, [], by rw [hc, List.append_nil, List.append_nil]⟩
    · have hlast := congrArg List.getLast? hc
      rw [← List.append_assoc, ← List.append_assoc, List.getLast?_concat, List.getLast?_concat,
        Option.some.injEq] at hlast
      exact absurd (by rw [hlast]; simp) hd

/-- What lacks a character lies on one side of it. -/
theorem infix_of_infix_append_cons {p s t : Text} {d : Char} (hd : d ∉ p)
    (h : p <:+: s ++ d :: t) : p <:+: s ∨ p <:+: t := by
  obtain ⟨a, b, hab⟩ := h
  rcases List.append_eq_append_iff.1 hab with ⟨c, rfl, -⟩ | ⟨c, hc, hrest⟩
  · exact .inl ⟨a, c, rfl⟩
  · cases c with
    | nil => exact .inl ⟨a, [], by rw [hc, List.append_nil, List.append_nil]⟩
    | cons e c =>
        obtain ⟨rfl, rfl⟩ := List.cons.inj hrest
        rcases List.append_eq_append_iff.1 hc with ⟨f, -, hp⟩ | ⟨f, -, hf⟩
        · exact absurd (by rw [hp]; simp) hd
        · cases f with
          | nil => exact absurd (by rw [← show d :: c = p from hf]; simp) hd
          | cons g f =>
              obtain ⟨-, rfl⟩ := List.cons.inj hf
              exact .inr ⟨f, b, rfl⟩

/-- `Char.toLower` gives no character of punctuation for a letter. -/
theorem toLower_eq {d : Char} (hd : d = '=' ∨ d = '\n') {c : Char} (h : c.toLower = d) : c = d := by
  have hall : ∀ k < 128, ((Char.ofNat k).toLower = '=' → Char.ofNat k = '=') ∧
      ((Char.ofNat k).toLower = '\n' → Char.ofNat k = '\n') := by decide +kernel
  rcases Nat.lt_or_ge c.toNat 128 with hascii | hascii
  · have hc := hall c.toNat hascii
    rw [Char.ofNat_toNat] at hc
    rcases hd with rfl | rfl
    · exact hc.1 h
    · exact hc.2 h
  · rwa [toLower_of_nonAscii hascii] at h

theorem not_mem_map_toLower {d : Char} (hd : d = '=' ∨ d = '\n') {t : Text} (h : d ∉ t) :
    d ∉ t.map Char.toLower := by
  intro hmem
  obtain ⟨c, hc, heq⟩ := List.mem_map.1 hmem
  exact h (toLower_eq hd heq ▸ hc)

/-- The names of the placeholders are on one line. -/
theorem newline_not_mem_upper {k : Text} (hk : k ∈ placeholders) :
    '\n' ∉ upper k ++ ['='] ∧ '\n' ∉ upper k ++ [' ', '='] := by
  have hall : ∀ k ∈ placeholders, '\n' ∉ upper k ++ ['='] ∧ '\n' ∉ upper k ++ [' ', '='] := by
    decide +kernel
  exact hall k hk

theorem silent_of_not_mem {t : Text} (h : '=' ∉ t) : Silent t where
  clean := clean_of_not_mem h
  noTable := fun h' => not_mem_map_toLower (.inl rfl) h (h'.subset (by simp))

/-- Text without `=` may follow. -/
theorem Silent.append {s t : Text} (hs : Silent s) (ht : '=' ∉ t) : Silent (s ++ t) where
  clean := by
    intro k hk
    refine ⟨fun h => (hs.clean k hk).1 (infix_of_infix_append ht h), fun h => ?_⟩
    rw [show upper k ++ [' ', '='] = (upper k ++ [' ']) ++ ['='] by simp] at h
    have hin := infix_of_infix_append ht h
    rw [List.append_assoc] at hin
    exact (hs.clean k hk).2 hin
  noTable := by
    rw [List.map_append]
    exact fun h => hs.noTable
      (infix_of_infix_append (p := ['d', 't']) (not_mem_map_toLower (.inl rfl) ht) h)

/-- **Another line may follow.** -/
theorem Silent.append_line {s t : Text} (hs : Silent s) (ht : Silent t) :
    Silent (s ++ '\n' :: t) where
  clean := by
    intro k hk
    obtain ⟨h₁, h₂⟩ := newline_not_mem_upper hk
    exact ⟨fun h => (infix_of_infix_append_cons h₁ h).elim (hs.clean k hk).1 (ht.clean k hk).1,
      fun h => (infix_of_infix_append_cons h₂ h).elim (hs.clean k hk).2 (ht.clean k hk).2⟩
  noTable := by
    rw [List.map_append]
    exact fun h => (infix_of_infix_append_cons (by decide) h).elim hs.noTable ht.noTable

/-- Text after the end of a line. -/
theorem Silent.append_of_endsLine {s t : Text} (hs : Silent s) (hend : EndsLine s) (ht : Silent t) :
    Silent (s ++ t) := by
  rcases List.eq_nil_or_concat' s with rfl | ⟨p, c, rfl⟩
  · exact ht
  · obtain rfl : c = '\n' := hend c (by rw [List.getLast?_concat]; rfl)
    rw [List.append_assoc]
    exact (hs.of_infix (List.prefix_append p _).isInfix).append_line ht

theorem unlines_cons (t : Text) (ts : List Text) : unlines (t :: ts) = t ++ '\n' :: unlines ts := by
  rw [unlines, List.flatMap_cons, List.append_assoc]
  rfl

theorem endsLine_unlines (ts : List Text) : EndsLine (unlines ts) := by
  induction ts with
  | nil => simp [unlines, EndsLine]
  | cons t ts ih =>
      have hline : EndsLine (t ++ ['\n']) := by
        intro c hc
        rw [List.getLast?_concat] at hc
        exact (Option.some.inj hc).symm
      rw [unlines_cons, ← List.singleton_append, ← List.append_assoc]
      exact hline.append ih

theorem silent_unlines_append {ts : List Text} (h : ∀ t ∈ ts, Silent t) {s : Text} (hs : Silent s) :
    Silent (unlines ts ++ s) := by
  induction ts with
  | nil => exact hs
  | cons t ts ih =>
      rw [List.forall_mem_cons] at h
      rw [unlines_cons, List.append_assoc, List.cons_append]
      exact h.1.append_line (ih h.2)

theorem silent_unlines {ts : List Text} (h : ∀ t ∈ ts, Silent t) : Silent (unlines ts) := by
  have hnil := silent_unlines_append h (silent_of_not_mem (t := []) List.not_mem_nil)
  rwa [List.append_nil] at hnil

/-- **Lines may be put in anywhere**, if the first of them has no `=`. -/
theorem silent_insert {t : Text} {ts : List Text} (ht : '=' ∉ t) (hts : ∀ t ∈ ts, Silent t)
    {w r : Text} (h : Silent (w ++ r)) : Silent (w ++ unlines (t :: ts) ++ r) := by
  have hw : Silent w := h.of_infix (List.prefix_append w r).isInfix
  have hr : Silent r := h.of_infix (List.suffix_append w r).isInfix
  rw [unlines_cons, List.append_assoc, List.append_assoc, List.cons_append, ← List.append_assoc]
  exact (hw.append ht).append_line (silent_unlines_append hts hr)

/-- A line in which nothing is found. -/
theorem Silent.line {v : Text → Hex} {t : Text} (h : Silent t) : Line v t [] := by
  refine .plain (.other h.clean) fun hmem => h.noTable ?_
  have hprefix : ∃ c, (t.take 4).map Char.toLower = c :: ['d', 't', '='] := by
    simp only [List.mem_cons, List.not_mem_nil, or_false] at hmem
    rcases hmem with hmem | hmem
    · exact ⟨'g', hmem⟩
    · exact ⟨'i', hmem⟩
  obtain ⟨c, hc⟩ := hprefix
  refine ⟨[c], (t.drop 4).map Char.toLower, ?_⟩
  rw [List.singleton_append, ← hc, ← List.map_append, List.take_append_drop]

/-- **The lines of such a text have no registers.** -/
theorem Silent.dump (v : Text → Hex) {t : Text} (h : Silent t) : Dump v (lines t) [] := by
  have hlines : ∀ ls : List Text, (∀ l ∈ ls, Silent l) → Dump v ls [] := by
    intro ls hls
    induction ls with
    | nil => exact .nil
    | cons l ls ih =>
        rw [List.forall_mem_cons] at hls
        have hline : Dump v ((l ++ []) :: ls) ([] ++ []) :=
          .cons hls.1.line List.mem_cons_self (ih hls.2)
        rwa [List.append_nil] at hline
  refine hlines _ fun l hl => ?_
  obtain ⟨p, s, hread, -⟩ := exists_of_mem_lines hl
  exact h.of_infix ⟨p, s, by rw [hread, List.append_assoc]⟩

/-! ### The patcher -/

section Patcher

variable {n : ℕ} {physmem : MapAddr} {cr3 va : BitVec 64} {m : Image n}

theorem equals_not_mem_toDigits (b k : ℕ) (hb : b = 10 ∨ b = 16) : '=' ∉ Nat.toDigits b k := by
  intro h
  rcases hb with rfl | rfl
  · exact absurd (CInteger.isDigit_of_mem_toDigits h) (by decide)
  · exact absurd ((HexNumeral.toDigits_spec k).2 _ h) (by decide)

theorem equals_not_mem_lx (w : BitVec 64) : '=' ∉ lx w := equals_not_mem_toDigits 16 _ (.inr rfl)

/-- A message and a number. -/
theorem equals_not_mem_message {t : String} (ht : '=' ∉ t.toList) (w : BitVec 64) :
    '=' ∉ t.toList ++ lx w := by
  rw [List.mem_append, not_or]
  exact ⟨ht, equals_not_mem_lx w⟩

/-- The walk prints no `=` at all. -/
theorem equals_not_mem_clearPageNXFlagOutput {ts : List Text}
    (h : clearPageNXFlagOutput physmem cr3 va m = some ts) : ∀ t ∈ ts, '=' ∉ t := by
  have hstart : '=' ∉ "MH: ClearPageNXFlag: VA 0x".toList ++ lx va ++
      " in PGT at 0x".toList ++ lx cr3 := by
    simp only [List.mem_append, not_or]
    exact ⟨⟨⟨by decide, equals_not_mem_lx va⟩, by decide⟩, equals_not_mem_lx cr3⟩
  have htwo : ∀ {t : String} {w : BitVec 64}, '=' ∉ t.toList →
      ∀ s ∈ ["MH: ClearPageNXFlag: VA 0x".toList ++ lx va ++ " in PGT at 0x".toList ++ lx cr3,
        t.toList ++ lx w], '=' ∉ s := by
    intro t w ht
    exact List.forall_mem_cons.2 ⟨hstart, List.forall_mem_singleton.2 (equals_not_mem_message ht w)⟩
  unfold clearPageNXFlagOutput at h
  obtain ⟨v, -, h⟩ := Option.bind_eq_some_iff.1 h
  split at h
  · obtain rfl := Option.some.inj h
    exact htwo (by decide)
  · obtain ⟨pud, -, h⟩ := Option.bind_eq_some_iff.1 h
    obtain ⟨v, -, h⟩ := Option.bind_eq_some_iff.1 h
    split at h
    · obtain rfl := Option.some.inj h
      exact htwo (by decide)
    · obtain ⟨pmd, -, h⟩ := Option.bind_eq_some_iff.1 h
      obtain ⟨v, -, h⟩ := Option.bind_eq_some_iff.1 h
      split at h
      · obtain rfl := Option.some.inj h
        exact htwo (by decide)
      · obtain ⟨ptep, -, h⟩ := Option.bind_eq_some_iff.1 h
        split at h
        · obtain rfl := Option.some.inj h
          exact List.forall_mem_singleton.2 hstart
        · obtain ⟨v, -, h⟩ := Option.bind_eq_some_iff.1 h
          obtain rfl := Option.some.inj h
          refine List.forall_mem_cons.2 ⟨hstart, List.forall_mem_cons.2 ⟨?_,
            List.forall_mem_cons.2 ⟨?_, List.forall_mem_cons.2 ⟨?_, ?_⟩⟩⟩⟩
          · exact equals_not_mem_message (by decide) _
          · exact equals_not_mem_message (by decide) _
          · exact equals_not_mem_message (by decide) _
          · exact List.forall_mem_singleton.2 (by decide)

theorem silent_tssDesc {t : String} (ht : t = "before: tss_desc = " ∨ t = "after : tss_desc = ")
    (k : ℕ) : Silent (t.toList ++ hexDigits 16 k) := by
  have hdigits : '=' ∉ hexDigits 16 k := fun h =>
    absurd (HexNumeral.isDigit_of_mem_padded (k := 16) h) (by decide)
  refine Silent.append ⟨?_, ?_⟩ hdigits
  · unfold Clean
    rcases ht with rfl | rfl <;> decide +kernel
  · rcases ht with rfl | rfl <;> decide +kernel

/-- **The patcher prints nothing that looks like a register**, whatever it finds in the dump. -/
theorem silent_modifyMemDumpOutput {filename : Text} (hname : '=' ∉ filename) {ts : List Text}
    (h : modifyMemDumpOutput physmem filename cr3 va m = some ts) : ∀ t ∈ ts, Silent t := by
  unfold modifyMemDumpOutput at h
  obtain ⟨walk, hwalk, h⟩ := Option.bind_eq_some_iff.1 h
  obtain ⟨⟨rc, m'⟩, -, h⟩ := Option.bind_eq_some_iff.1 h
  obtain ⟨v, -, h⟩ := Option.bind_eq_some_iff.1 h
  obtain rfl := Option.some.inj h
  have hplain : ∀ {t : Text}, '=' ∉ t → Silent t := silent_of_not_mem
  refine List.forall_mem_append.2 ⟨List.forall_mem_append.2 ⟨?_, fun t ht =>
    hplain (equals_not_mem_clearPageNXFlagOutput hwalk t ht)⟩, ?_⟩
  · refine List.forall_mem_cons.2 ⟨hplain ?_, List.forall_mem_cons.2 ⟨hplain ?_,
      List.forall_mem_singleton.2 (hplain (by decide))⟩⟩
    · rw [List.mem_append, not_or]
      exact ⟨by decide, hname⟩
    · rw [List.mem_append, List.mem_append, not_or, not_or]
      refine ⟨⟨by decide, ?_⟩, by decide⟩
      rw [Nat.toString_eq_repr, Nat.toList_repr]
      exact equals_not_mem_toDigits 10 n (.inl rfl)
  · refine List.forall_mem_cons.2 ⟨hplain ?_, List.forall_mem_cons.2 ⟨hplain (by decide),
      List.forall_mem_cons.2 ⟨silent_tssDesc (.inl rfl) _, List.forall_mem_cons.2
        ⟨silent_tssDesc (.inr rfl) _, ?_⟩⟩⟩⟩
    · rw [List.mem_append, not_or]
      exact ⟨by decide, not_mem_format_int rfl (by decide) rc⟩
    · exact List.forall_mem_cons.2 ⟨hplain (by decide), List.forall_mem_cons.2
        ⟨hplain (by decide), List.forall_mem_singleton.2 (hplain (by decide))⟩⟩

/-- The patcher begins with the name of the file. -/
theorem exists_of_modifyMemDumpOutput {filename : Text} {ts : List Text}
    (h : modifyMemDumpOutput physmem filename cr3 va m = some ts) :
    ∃ ts', ts = ("Opening ".toList ++ filename) :: ts' := by
  unfold modifyMemDumpOutput at h
  obtain ⟨walk, -, h⟩ := Option.bind_eq_some_iff.1 h
  obtain ⟨r, -, h⟩ := Option.bind_eq_some_iff.1 h
  obtain ⟨v, -, h⟩ := Option.bind_eq_some_iff.1 h
  exact ⟨_, (Option.some.inj h).symm⟩

end Patcher

/-! ### The transcript -/

/-- The text of the patcher in a session: what it prints for `mem-dump.bin` and the arguments that
the script gives it. -/
def patcherText (physmem : MapAddr) (h : Hex) (S : Image GB) : Text :=
  unlines ((modifyMemDumpOutput physmem "mem-dump.bin".toList
    (clampUnsigned (HexNumeral.value h.1)) trampoline S).getD [])

/-- **A monitor whose other answers have no registers in them**, and whose reply to
`info registers` ends its last line. -/
structure Monitor.Quiet (q : Monitor) (socket : Text) : Prop where
  socket : '=' ∉ socket
  rsp : ∀ c, Silent (q.rsp c)
  hmp : ∀ c, c ≠ "info registers" → Silent (q.hmp c)
  reply : EndsLine (q.hmp "info registers")

section Transcript

variable {q : Monitor} {socket : Text} {physmem : MapAddr} {h : Hex} {S : Image GB}

theorem endsLine_patcherText : EndsLine (patcherText physmem h S) := endsLine_unlines _

theorem endsLine_insert_patcherText {w r : Text} (hend : EndsLine (w ++ r)) :
    EndsLine (w ++ patcherText physmem h S ++ r) := by
  cases r with
  | nil =>
      rw [List.append_nil] at hend ⊢
      exact hend.append endsLine_patcherText
  | cons c r =>
      intro d hd
      rw [List.getLast?_append_of_ne_nil _ (List.cons_ne_nil c r)] at hd
      exact hend.of_append d hd

/-- **The text of the patcher may stand anywhere in silent text.** -/
theorem silent_insert_patcherText {w r : Text} (hsilent : Silent (w ++ r)) :
    Silent (w ++ patcherText physmem h S ++ r) := by
  rw [patcherText]
  cases hout : modifyMemDumpOutput physmem "mem-dump.bin".toList
      (clampUnsigned (HexNumeral.value h.1)) trampoline S with
  | none =>
      rw [Option.getD_none, unlines, List.flatMap_nil, List.append_nil]
      exact hsilent
  | some ts =>
      have hlines := silent_modifyMemDumpOutput (by decide) hout
      obtain ⟨ts', rfl⟩ := exists_of_modifyMemDumpOutput hout
      exact silent_insert (by decide) (List.forall_mem_cons.1 hlines).2 hsilent

theorem silent_printedBefore (hq : q.Quiet socket) :
    Silent (unlines (printedBefore q socket)) := by
  have hconnecting : '=' ∉ "--- Connecing to ".toList ++ socket := by
    rw [List.mem_append, not_or]
    exact ⟨by decide, hq.socket⟩
  refine silent_unlines (List.forall_mem_cons.2 ⟨silent_of_not_mem hconnecting,
    List.forall_mem_cons.2 ⟨silent_of_not_mem (by decide), List.forall_mem_cons.2 ⟨hq.rsp _,
      List.forall_mem_singleton.2 (silent_of_not_mem (by decide))⟩⟩⟩)

theorem shellCmd_eq (t : Text) : shellCmd t = ">>> Shell: ".toList ++ t := rfl

theorem equals_not_mem_commandLine (h : Hex) : '=' ∉ shellCmd (commandLine h) := by
  have hhex : '=' ∉ h.1 := fun hmem => absurd (h.2.2 _ hmem) (by decide)
  rw [shellCmd_eq, commandLine_eq]
  simp only [List.mem_append, not_or]
  exact ⟨by decide, ⟨⟨by decide, by decide, hhex⟩, by decide⟩, by decide⟩

theorem silent_lines_printedAfter (hq : q.Quiet socket) (h : Hex) :
    ∀ t ∈ printedAfter q (commandLine h), Silent t := by
  have hcommand : ∀ c ∈ ["info lapic", "info pic", "gva2gpa 0xfffffe0000000000",
      "gva2gpa 0xfffffe0000001000", "gva2gpa 0xfffffe0000003000", "x /32xg 0xfffffe0000000000",
      "x /16xg 0xfffffe0000001000", "x /32xg 0xfffffe0000003000", "savevm save3"],
      c ≠ "info registers" ∧ '=' ∉ ">>> HMP: ".toList ++ c.toList := by decide
  have hplain : ∀ {t : Text}, '=' ∉ t → Silent t := silent_of_not_mem
  refine List.forall_mem_append.2 ⟨fun t ht => ?_, ?_⟩
  · obtain ⟨c, hc, ht⟩ := List.mem_flatMap.1 ht
    obtain ⟨hne, hname⟩ := hcommand c hc
    simp only [hmpCmd, List.mem_cons, List.not_mem_nil, or_false] at ht
    rcases ht with rfl | rfl
    · exact hplain hname
    · exact hq.hmp c hne
  · exact List.forall_mem_cons.2 ⟨hplain (by decide), List.forall_mem_cons.2 ⟨hq.rsp _,
      List.forall_mem_cons.2 ⟨hplain (by decide), List.forall_mem_cons.2 ⟨hq.rsp _,
      List.forall_mem_cons.2 ⟨hplain (by decide), List.forall_mem_cons.2 ⟨hq.rsp _,
      List.forall_mem_cons.2 ⟨hplain (by decide), List.forall_mem_singleton.2
        (hplain (equals_not_mem_commandLine h))⟩⟩⟩⟩⟩⟩⟩

/-- Nothing is set where every `=` stands after a lower-case letter. -/
theorem clean_of_isChain {t : Text} (ht : t.IsChain fun a b => b = '=' → a.isLower = true) :
    Clean t := by
  have hupper : ∀ k ∈ placeholders, ∃ c, (upper k).getLast? = some c ∧ c.isLower = false := by
    have hall : ∀ k ∈ placeholders, ((upper k).getLast?.map Char.isLower) = some false := by
      decide +kernel
    intro k hk
    obtain ⟨c, hc, hlower⟩ := Option.map_eq_some_iff.1 (hall k hk)
    exact ⟨c, hc, hlower⟩
  have hpart : ∀ {p : Text}, p <:+: t → p.IsChain fun a b => b = '=' → a.isLower = true := by
    rintro p ⟨x, y, rfl⟩
    exact ht.left_of_append.right_of_append
  intro k hk
  constructor
  · intro hin
    obtain ⟨c, hc, hlower⟩ := hupper k hk
    have hlast := (List.isChain_append.1 (hpart hin)).2.2 c hc '=' rfl rfl
    rw [hlower] at hlast
    cases hlast
  · intro hin
    have hspace := List.isChain_append.1 (hpart hin)
    exact absurd ((List.isChain_cons_cons.1 hspace.2.1).1 rfl) (by decide)

theorem silent_printedEnd : ∀ t ∈ printedEnd, Silent t := by
  have hall : ∀ t ∈ printedEnd, (t.IsChain fun a b => b = '=' → a.isLower = true) ∧
      ¬['d', 't', '='] <:+: t.map Char.toLower := by decide +kernel
  exact fun t ht => ⟨clean_of_isChain (hall t ht).1, (hall t ht).2⟩

/-- **The registers of the transcript are those of the reply**: the lines before it and after it
have none, wherever the text of the patcher stands. -/
theorem dump_of_qemuTxt (hq : q.Quiet socket) {v : Text → Hex} {ks : List Text}
    (hreply : Dump v (lines (q.hmp "info registers")) ks) {t : Text}
    (ht : QemuTxt q socket (commandLine h) (patcherText physmem h S) t) : Dump v (lines t) ks := by
  -- text that ends its last line, the reply, and more text
  have hparts : ∀ {x y : Text}, EndsLine x → Silent x → Silent y →
      Dump v (lines (x ++ (q.hmp "info registers" ++ y))) ks := by
    intro x y hend hx hy
    rw [lines_append hend, lines_append hq.reply]
    have hdump := (hx.dump v).append (hreply.append (hy.dump v))
    rwa [List.nil_append, List.append_nil] at hdump
  have hnewline : ∀ {s : Text}, Silent s → Silent ('\n' :: s) := fun hs =>
    (silent_of_not_mem (t := []) List.not_mem_nil).append_line hs
  have hbefore := silent_printedBefore hq
  have hafter := silent_lines_printedAfter hq h
  have hend := silent_unlines silent_printedEnd
  rcases ht with ⟨w, r, hwr, rfl⟩ | ⟨w, r, hwr, rfl⟩
  · refine hparts (endsLine_insert_patcherText (hwr ▸ endsLine_unlines _))
      (silent_insert_patcherText (hwr ▸ hbefore)) ?_
    rw [List.cons_append]
    exact hnewline (silent_unlines_append hafter hend)
  · have hline : EndsLine (w ++ r) := by
      rw [hwr]
      exact EndsLine.append (s := ['\n']) (fun _ hc => (Option.some.inj hc).symm)
        (endsLine_unlines _)
    refine hparts (endsLine_unlines _) hbefore (Silent.append_of_endsLine
      (silent_insert_patcherText ?_) (endsLine_insert_patcherText hline) hend)
    rw [hwr]
    exact hnewline (silent_unlines hafter)

/-- **Every field gets its register from the reply**: whatever the patcher prints, and wherever its
text stands in the transcript, the register script succeeds on the transcript and its code has the
registers of the reply and the offset that was given. -/
theorem main_of_qemuTxt (u : Unicode) (n : ℤ) (hq : q.Quiet socket) {v : Text → Hex}
    {ks : List Text} (hreply : Dump v (lines (q.hmp "info registers")) ks)
    (hall : ∀ k ∈ keys, k ∈ ks) {t : Text}
    (ht : QemuTxt q socket (commandLine h) (patcherText physmem h S) t) :
    ∃ comment, main u n t = some (output (codeOf v (Value.int n).format) comment) :=
  ⟨_, CpuState.main_dump u n (dump_of_qemuTxt hq hreply ht) hall⟩

end Transcript

/-! ### A transcript -/

/-- A monitor that answers nothing but the registers. -/
def exampleMonitor : Monitor where
  rsp _ := []
  hmp c := if c = "info registers" then exampleTranscript else []

theorem exampleMonitor_quiet : exampleMonitor.Quiet "qmp-sock".toList where
  socket := by decide
  rsp _ := silent_of_not_mem List.not_mem_nil
  hmp c hc := by
    have hnone : exampleMonitor.hmp c = [] := if_neg hc
    rw [hnone]
    exact silent_of_not_mem List.not_mem_nil
  reply := by
    intro c hc
    have hlast : exampleTranscript.getLast? = some '\n' := by decide +kernel
    exact (Option.some.inj (hlast.symm.trans hc)).symm

theorem main_of_qemuTxt_example :
    ∃ t, QemuTxt exampleMonitor "qmp-sock".toList (commandLine zeroDigit)
      (patcherText default zeroDigit fun _ => 0) t ∧
        ∃ comment, main asciiUnicode 0 t =
          some (output (codeOf exampleValue (Value.int 0).format) comment) := by
  obtain ⟨ks, hdump, hall⟩ := exampleTranscript_dump
  have ht : QemuTxt exampleMonitor "qmp-sock".toList (commandLine zeroDigit)
      (patcherText default zeroDigit fun _ => 0) _ := .inl ⟨[], _, rfl, rfl⟩
  exact ⟨_, ht, main_of_qemuTxt asciiUnicode 0 exampleMonitor_quiet hdump hall ht⟩

end Snapshot

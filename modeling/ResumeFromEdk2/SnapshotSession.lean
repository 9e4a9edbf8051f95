/-
**The session of `snap-vm-qmp.py`.**

The script does its work through texts: it finds the value of `CR3` in a reply of the monitor,
prints it into a command line, and the shell cuts that line into the arguments of the dump patcher,
which reads numbers out of them again.  This module follows the number through the texts, for every
reply, and so connects the script to the memory that it leaves.

Main definitions:

* `Snapshot.shellWords` — the arguments that the shell makes of a command line;
* `Snapshot.trampoline` — the address of the page that the patcher is asked to make executable;
* `Snapshot.snapVmQmp` — the memory part of the script, with its texts;
* `Snapshot.FirstCr3` — the place in a reply from which `CR3` is taken.

Main results:

* `Snapshot.strtoul_hex` — the patcher reads the number that is printed, or the greatest one;
* `Snapshot.clearNxCommand_iff` — **which value the script takes from a reply**;
* `Snapshot.snapVmQmp_iff` — **the script patches the dump from exactly that value on**.
-/

import ResumeFromEdk2.HexNumeral
import ResumeFromEdk2.SnapshotVirtual
import ResumeFromEdk2.TranscriptCr3

set_option relaxedAutoImplicit false
set_option autoImplicit false

namespace Snapshot

open ByteImage MemDump PyText Regex RegisterScript

/-! ### The command line -/

/-- Characters that the shell takes as they are, and the blank. -/
def isLiteral (c : Char) : Bool := c.isAlphanum || c ∈ ['.', '/', '-', '_', '=', ' ']

/-- **The arguments that the shell makes of a command line** without special characters. -/
def shellWords (t : Text) : Option (List Text) :=
  if t.all isLiteral then some ((t.splitOn ' ').filter (· ≠ [])) else none

/-- A word ends at a blank. -/
theorem filter_splitOn_cons {w l : Text} (hw : ' ' ∉ w) (hne : w ≠ []) :
    ((w ++ ' ' :: l).splitOn ' ').filter (· ≠ []) = w :: (l.splitOn ' ').filter (· ≠ []) := by
  have hsplit : w.splitOn ' ' = [w] := List.splitOn_eq_singleton hw
  rw [List.splitOn, List.splitOnP_append_cons _ _ (by simp), List.filter_append]
  rw [List.splitOn] at hsplit
  rw [hsplit, List.filter_cons_of_pos (by simpa using hne)]
  rfl

theorem filter_splitOn_single {w : Text} (hw : ' ' ∉ w) (hne : w ≠ []) :
    (w.splitOn ' ').filter (· ≠ []) = [w] := by
  rw [List.splitOn_eq_singleton hw, List.filter_cons_of_pos (by simpa using hne)]
  rfl

/-! ### Numbers -/

theorem digitValue_of_isDigit {c : Char} (h : HexNumeral.isDigit c = true) :
    digitValue c = HexNumeral.digit c ∧ digitValue c < 16 := by
  have hall : ∀ k < 128, HexNumeral.isDigit (Char.ofNat k) = true →
      digitValue (Char.ofNat k) = HexNumeral.digit (Char.ofNat k) ∧
        digitValue (Char.ofNat k) < 16 := by decide +kernel
  obtain ⟨-, hle⟩ := HexNumeral.toNat_le_of_isDigit h
  have hc := hall c.toNat (by omega)
  rw [Char.ofNat_toNat] at hc
  exact hc h

/-- A hexadecimal numeral is read as the number that it spells. -/
theorem digits_hex {t : Text} (ht : ∀ c ∈ t, HexNumeral.isDigit c = true) :
    digits 16 t = HexNumeral.value t := by
  have hall : ∀ c ∈ t, decide (digitValue c < 16) = true := fun c hc =>
    decide_eq_true (digitValue_of_isDigit (ht c hc)).2
  rw [digits, List.takeWhile_eq_self_iff.2 hall, HexNumeral.value]
  refine List.foldl_ext _ _ 0 fun v c hc => ?_
  rw [(digitValue_of_isDigit (ht c hc)).1, Nat.mul_comm]

/-- **The patcher reads the number that is printed**, or the greatest one when it does not fit. -/
theorem strtoul_hex (h : Hex) :
    strtoul ('0' :: 'x' :: h.1) = clampUnsigned (HexNumeral.value h.1) := by
  obtain ⟨t, hne, hhex⟩ := h
  cases t with
  | nil => exact absurd rfl hne
  | cons d t =>
      have hdigit : ('x' = 'x' ∨ 'x' = 'X') ∧ digitValue d < 16 :=
        ⟨.inl rfl, (digitValue_of_isDigit (hhex d List.mem_cons_self)).2⟩
      have hunsigned : unsignedDigits ('0' :: 'x' :: d :: t) = HexNumeral.value (d :: t) := by
        rw [unsignedDigits, if_pos hdigit, digits_hex hhex]
      rw [← hunsigned]
      rfl

/-- **The address of the page that the patcher is asked to make executable.** -/
def trampoline : BitVec 64 := 0xffff88800080c000

theorem strtoul_trampoline : strtoul "0xffff88800080c000".toList = trampoline := by decide +kernel

/-! ### The value that is taken -/

/-- **The place in a reply from which `CR3` is taken**: the first one where `CR3=` is followed by
digits and a blank. -/
structure FirstCr3 (reply : Text) (h : Hex) : Prop where
  found : ∃ p l, reply = p ++ (cr3Mark ++ (h.1 ++ ' ' :: l)) ∧
    ∀ s l' (h' : Hex), s ≠ [] → s <:+ p → s ++ (cr3Mark ++ (h.1 ++ ' ' :: l)) ≠
      cr3Mark ++ (h'.1 ++ ' ' :: l')

/-- A match is digits between `CR3=` and a blank. -/
theorem exists_of_mem_snapCr3Pattern {l : Text} {m : Match Char}
    (hm : m ∈ snapCr3Pattern.results l) :
    ∃ h : Hex, l = cr3Mark ++ (h.1 ++ ' ' :: m.rest) ∧ groupText m 1 = h.1 := by
  obtain ⟨m₁, hm₁, m₂, hm₂, rfl⟩ := mem_results_seq.1 hm
  obtain ⟨m₃, hm₃, m₄, hm₄, rfl⟩ := mem_results_seq.1 hm₂
  obtain ⟨m₅, hm₅, rfl⟩ := mem_results_group.1 hm₃
  obtain ⟨hrest₅, hgroups, hne, hhex⟩ := mem_results_plus hm₅
  obtain ⟨c, l', hl', hc, rfl⟩ := mem_results_char.1 hm₄
  obtain rfl : c = ' ' := of_decide_eq_true hc
  obtain ⟨htaken₁, hgroups₁⟩ := mem_results_lits hm₁
  refine ⟨⟨m₅.taken, hne, hhex⟩, ?_, ?_⟩
  · have htext := append_of_mem_results hm₁
    rw [htaken₁, hrest₅, show m₅.rest = ' ' :: l' from hl'] at htext
    exact htext
  · rw [groupText, Match.append, Match.append, hgroups₁]
    rfl

theorem first_snapCr3Pattern (h : Hex) (l : Text) :
    ∃ m, snapCr3Pattern.first (cr3Mark ++ (h.1 ++ ' ' :: l)) = some m ∧ groupText m 1 = h.1 := by
  have hvalue := first_seq (first_group (h.first (l := ' ' :: l) (stops_cons.2 rfl)))
    (first_lit ' ')
  exact ⟨_, first_seq (r := lits cr3Mark) (first_lits cr3Mark) hvalue, rfl⟩

/-- The search succeeds at the first place. -/
theorem search_snapCr3Pattern {reply : Text} {h : Hex} (hfirst : FirstCr3 reply h) :
    ∃ m, snapCr3Pattern.search reply = some m ∧ groupText m 1 = h.1 := by
  obtain ⟨p, l, rfl, hbefore⟩ := hfirst.found
  obtain ⟨m, hm, hgroup⟩ := first_snapCr3Pattern h l
  refine ⟨m, ?_, hgroup⟩
  refine (search_of_forall_none fun s hs hsuf => first_eq_none fun m' hm' => ?_).trans
    (search_of_first hm)
  obtain ⟨h', htext, -⟩ := exists_of_mem_snapCr3Pattern hm'
  exact hbefore s m'.rest h' hs hsuf htext

/-- A search that succeeds has a first place. -/
theorem exists_of_search_eq_some {reply : Text} {m : Match Char}
    (h : snapCr3Pattern.search reply = some m) :
    ∃ x : Hex, FirstCr3 reply x ∧ groupText m 1 = x.1 := by
  have hplace : ∀ l, snapCr3Pattern.first l = some m →
      ∃ x : Hex, FirstCr3 l x ∧ groupText m 1 = x.1 := by
    intro l hl
    obtain ⟨x, htext, hgroup⟩ := exists_of_mem_snapCr3Pattern (mem_results_of_first hl)
    refine ⟨x, ⟨[], m.rest, htext, fun s _ _ hs hsuf => ?_⟩, hgroup⟩
    exact absurd (List.suffix_nil.1 hsuf) hs
  induction reply with
  | nil => exact hplace [] h
  | cons c t ih =>
      rw [search] at h
      cases hfirst : snapCr3Pattern.first (c :: t) with
      | some m' =>
          rw [hfirst, Option.some_or] at h
          exact hplace _ (hfirst.trans h)
      | none =>
          rw [hfirst, Option.none_or] at h
          obtain ⟨x, ⟨p, l, rfl, hbefore⟩, hgroup⟩ := ih h
          refine ⟨x, ⟨c :: p, l, rfl, fun s l' h' hs hsuf => ?_⟩, hgroup⟩
          rcases List.suffix_cons_iff.1 hsuf with rfl | hsuf
          · -- a match at the character in front would have been found
            intro htext
            obtain ⟨m', hm', -⟩ := first_snapCr3Pattern h' l'
            rw [← htext, List.cons_append, hfirst] at hm'
            cases hm'
          · exact hbefore s l' h' hs hsuf

/-- The command line for a value. -/
def commandLine (h : Hex) : Text :=
  "./memdump/modify-mem-dump mem-dump.bin ".toList ++ ("0x".toList ++ h.1) ++ " ".toList ++
    "0xffff88800080c000".toList

theorem commandLine_eq (h : Hex) : commandLine h =
    "./memdump/modify-mem-dump mem-dump.bin ".toList ++ ("0x".toList ++ h.1) ++ " ".toList ++
      "0xffff88800080c000".toList := rfl

theorem clearNxCommand_eq (reply : Text) : clearNxCommand reply =
    (snapCr3Pattern.search reply).map fun m =>
      "./memdump/modify-mem-dump mem-dump.bin ".toList ++ ("0x".toList ++ groupText m 1) ++
        " ".toList ++ "0xffff88800080c000".toList := by
  rw [clearNxCommand, Option.map_eq_bind]
  rfl

/-- **Which value the script takes from a reply.** -/
theorem clearNxCommand_iff (reply cmd : Text) :
    clearNxCommand reply = some cmd ↔ ∃ h, FirstCr3 reply h ∧ cmd = commandLine h := by
  rw [clearNxCommand_eq, Option.map_eq_some_iff]
  constructor
  · rintro ⟨m, hm, rfl⟩
    obtain ⟨x, hx, hgroup⟩ := exists_of_search_eq_some hm
    exact ⟨x, hx, by rw [commandLine_eq, hgroup]⟩
  · rintro ⟨h, hfirst, rfl⟩
    obtain ⟨m, hm, hgroup⟩ := search_snapCr3Pattern hfirst
    exact ⟨m, hm, by rw [commandLine_eq, hgroup]⟩

/-- The arguments of the patcher. -/
def patcherArgs (h : Hex) : List Text :=
  ["./memdump/modify-mem-dump".toList, "mem-dump.bin".toList, '0' :: 'x' :: h.1,
    "0xffff88800080c000".toList]

theorem isLiteral_of_isHex {c : Char} (h : isHex c = true) : isLiteral c = true := by
  have hall : ∀ k < 128, isHex (Char.ofNat k) = true → isLiteral (Char.ofNat k) = true := by
    decide +kernel
  obtain ⟨-, hle⟩ := HexNumeral.toNat_le_of_isDigit h
  have hc := hall c.toNat (by omega)
  rw [Char.ofNat_toNat] at hc
  exact hc h

/-- **The shell passes the value on.** -/
theorem shellWords_commandLine (h : Hex) : shellWords (commandLine h) = some (patcherArgs h) := by
  have hconst : ∀ t ∈ ["./memdump/modify-mem-dump mem-dump.bin ".toList, "0x".toList, " ".toList,
      "0xffff88800080c000".toList], t.all isLiteral = true := by
    decide +kernel
  have hhex : h.1.all isLiteral = true := List.all_eq_true.2 fun c hc =>
    isLiteral_of_isHex (h.2.2 c hc)
  have hall : (commandLine h).all isLiteral = true := by
    rw [commandLine_eq, List.all_append, List.all_append, List.all_append, List.all_append, hhex,
      hconst _ (by simp), hconst _ (by simp), hconst _ (by simp), hconst _ (by simp)]
    rfl
  have hblank : ' ' ∉ '0' :: 'x' :: h.1 := by
    simp only [List.mem_cons, not_or]
    exact ⟨by decide, by decide, fun hmem => absurd (h.2.2 _ hmem) (by decide)⟩
  have hline : commandLine h = "./memdump/modify-mem-dump".toList ++ ' ' ::
      ("mem-dump.bin".toList ++ ' ' :: (('0' :: 'x' :: h.1) ++ ' ' ::
        "0xffff88800080c000".toList)) := by
    have hprogram : "./memdump/modify-mem-dump mem-dump.bin ".toList =
        "./memdump/modify-mem-dump".toList ++ ' ' :: ("mem-dump.bin".toList ++ [' ']) := by
      decide +kernel
    have hzero : "0x".toList = ['0', 'x'] := rfl
    have hspace : " ".toList = [' '] := rfl
    rw [commandLine_eq, hprogram, hzero, hspace]
    simp only [List.append_assoc, List.cons_append, List.nil_append]
  rw [shellWords, if_pos hall, hline, filter_splitOn_cons (by decide) (by decide),
    filter_splitOn_cons (by decide) (by decide), filter_splitOn_cons hblank (by simp),
    filter_splitOn_single (by decide) (by decide)]
  rfl

/-! ### The script -/

/-- **The memory part of `snap-vm-qmp.py`**, from the reply to `info registers` and the memory of
the stopped machine: `mem-dump-1.bin` and `mem-dump-2.bin`.  The dump is complete before the value
of `CR3` is looked for. -/
def snapVmQmp (physmem : MapAddr) (infoRegisters : Text) (mem : Image GB) :
    Option (File × File) := do
  let memDump ← pmemsave 0x0 GB mem
  let cmd ← clearNxCommand infoRegisters
  let argv ← shellWords cmd
  -- the exit status is not looked at
  let patched ← (MemDump.main physmem argv (some memDump.bytes)).2
  let memDump : File := ⟨memDump.size, patched⟩
  return (dd memDump 4096 0 0x80b, dd memDump 4096 0x80e 0x3f7f2)

/-- A file of whole pages is mapped as it is. -/
theorem modifyMemDump_mapFile {n : ℕ} (hn : mapSize n = n) (physmem : MapAddr)
    (cr3 va : BitVec 64) (m : Image n) :
    (modifyMemDump physmem cr3 va (mapFile m)).memory.resize n =
      (modifyMemDump physmem cr3 va m).memory := by
  have hsize : ∀ k, k = n → (modifyMemDump physmem cr3 va (m.resize k)).memory.resize n =
      (modifyMemDump physmem cr3 va m).memory := by
    rintro k rfl
    rw [Image.resize_self, Image.resize_self]
  exact hsize _ hn

/-- The file that the patcher leaves with these arguments, whether it returns or is killed. -/
theorem main_patcherArgs (physmem : MapAddr) (h : Hex) (m : Image GB) :
    (MemDump.main physmem (patcherArgs h) (some m)).2 =
      some (modifyMemDump physmem (clampUnsigned (HexNumeral.value h.1)) trampoline m).memory := by
  have hGB : mapSize GB = GB := by decide
  rw [← modifyMemDump_mapFile hGB, ← strtoul_hex, ← strtoul_trampoline, patcherArgs, main_eq]
  cases modifyMemDump physmem (strtoul ('0' :: 'x' :: h.1))
      (strtoul "0xffff88800080c000".toList) (mapFile m) with
  | returned rc m' => rfl
  | killed m' => rfl

/-- The dump, patched from a value and cut into its parts. -/
theorem snapVm_eq (physmem : MapAddr) (cr3 virtAddr : BitVec 64) (mem : Image GB) :
    snapVm physmem cr3 virtAddr mem =
      some (dd ⟨GB, (modifyMemDump physmem cr3 virtAddr mem).memory⟩ 4096 0 0x80b,
        dd ⟨GB, (modifyMemDump physmem cr3 virtAddr mem).memory⟩ 4096 0x80e 0x3f7f2) := by
  rw [snapVm, pmemsave_all]
  rfl

/-- The script step by step. -/
theorem snapVmQmp_eq_some (physmem : MapAddr) (reply : Text) (mem : Image GB)
    (files : File × File) :
    snapVmQmp physmem reply mem = some files ↔
      ∃ cmd, clearNxCommand reply = some cmd ∧ ∃ argv, shellWords cmd = some argv ∧
        ∃ patched, (MemDump.main physmem argv (some mem)).2 = some patched ∧
          (dd ⟨GB, patched⟩ 4096 0 0x80b, dd ⟨GB, patched⟩ 4096 0x80e 0x3f7f2) = files := by
  rw [snapVmQmp, pmemsave_all]
  simp only [Option.bind_eq_bind, Option.bind_some, Option.bind_eq_some_iff, Option.pure_def,
    Option.some.injEq]

/-- The script patches the dump from the value that it takes. -/
theorem snapVmQmp_of_first {physmem : MapAddr} {reply : Text} {mem : Image GB} {files : File × File}
    {h : Hex} (hfirst : FirstCr3 reply h)
    (hfiles : snapVm physmem (clampUnsigned (HexNumeral.value h.1)) trampoline mem = some files) :
    snapVmQmp physmem reply mem = some files := by
  rw [snapVm_eq] at hfiles
  exact (snapVmQmp_eq_some _ _ _ _).2 ⟨_, (clearNxCommand_iff reply _).2 ⟨h, hfirst, rfl⟩, _,
    shellWords_commandLine h, _, main_patcherArgs physmem h mem, Option.some.inj hfiles⟩

/-- **The script patches the dump from exactly the value that it takes.** -/
theorem snapVmQmp_iff (physmem : MapAddr) (reply : Text) (mem : Image GB) (files : File × File) :
    snapVmQmp physmem reply mem = some files ↔
      ∃ h, FirstCr3 reply h ∧
        snapVm physmem (clampUnsigned (HexNumeral.value h.1)) trampoline mem = some files := by
  constructor
  · intro hrun
    obtain ⟨cmd, hcmd, argv, hargv, patched, hpatched, rfl⟩ :=
      (snapVmQmp_eq_some _ _ _ _).1 hrun
    obtain ⟨h, hfirst, rfl⟩ := (clearNxCommand_iff reply cmd).1 hcmd
    obtain rfl := Option.some.inj ((shellWords_commandLine h).symm.trans hargv)
    rw [main_patcherArgs] at hpatched
    refine ⟨h, hfirst, ?_⟩
    rw [snapVm_eq, Option.some.inj hpatched]
  · rintro ⟨h, hfirst, hfiles⟩
    exact snapVmQmp_of_first hfirst hfiles

end Snapshot

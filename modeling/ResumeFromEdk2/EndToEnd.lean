/-
**A machine is resumed.**

The files that a session leaves go two ways.  The memory is patched, cut and loaded into the target,
and the transcript is turned into the generated code, which is compiled and run and writes the CPU
state.  The firmware takes `CR3` from that file and jumps into the loaded memory.  The two ways meet
there: the root of the page tables comes through the texts, and the tables through the dump.

This module puts the parts together.

Main definitions:

* `Snapshot.Source` — what is asked of the machine that is saved and of its monitor;
* `Snapshot.Resumed` — a target that goes on where the source has stopped.

Main results:

* `Snapshot.exists_restored` — the memory part, with the right to execute the page of the firmware;
* `Snapshot.resume_source` — **every session on such a source leaves files from which the machine is
  resumed**.
-/

import ResumeFromEdk2.SessionTranscript

set_option relaxedAutoImplicit false
set_option autoImplicit false

namespace Snapshot

open ByteImage CInteger CProgram MemDump Paging PyText Regex RegisterScript

/-! ### The memory -/

section Memory

variable {cpu : Cpu} {cr3 virtAddr : BitVec 64} {S : Image GB} {w : Mapped}

/-- **The memory part of a migration** of an address that a 4 KiB page maps: the target maps what
the source maps, and the address can be executed. -/
theorem exists_restored (physmem : MapAddr) (hcr3 : PageAligned cr3)
    (hwalk : walk cpu S cr3.toNat virtAddr.toNat = .ok w) (hlevel : w.level = 0)
    (hnx : ∀ v ∈ w.upper, noExecute v.entry = false) (hsurvives : Survives w) (T : Image GB) :
    ∃ files T', snapVm physmem cr3 virtAddr S = some files ∧
      reloadSavedMemory files.1 files.2 T = some T' ∧
      (∀ root va tr, 8 ∣ root → (Maps cpu T' root va tr ↔ Maps cpu S root va tr)) ∧
      ∃ w', walk cpu T' cr3.toNat virtAddr.toNat = .ok w' ∧
        w'.translation virtAddr.toNat = w.translation virtAddr.toNat ∧ w'.noExecute = false := by
  have hroot : 8 ∣ cr3.toNat := hcr3.eight_dvd
  obtain ⟨hword, -, halign⟩ := walkFrom_mem_path hroot hwalk w.leaf w.leaf_mem_path
  have hend : walkEnd S cr3.toNat virtAddr.toNat = some (.entry w.leaf.addr) := by
    rw [walkEnd_of_walk hcr3 hwalk, hlevel, descend]
  have hclear := clearPageNXFlag_of_entry physmem hend (Image.word_eq_some_le hword)
  obtain ⟨T', hT', hrestored⟩ := exists_migrate hclear T
  obtain ⟨files, hfiles, hload⟩ := migrate_eq_some.1 hT'
  refine ⟨files, T', hfiles, hload, fun root va tr hdvd =>
    (maps_restored_iff hrestored hdvd tr).trans (maps_clearPageNXFlag_iff hclear hdvd tr),
    w.clearNxAt w.leaf.addr, ?_, Mapped.translation_clearNxAt _ _ w, ?_⟩
  · refine (walk_restored_iff hrestored hroot (Survives.clearNxAt.2 hsurvives)).2 ?_
    rw [walk_clearBit halign hroot, hwalk]
    rfl
  · -- the entry of the page is the one that is patched, and no other one forbids anything
    refine (Mapped.noExecute_clearNxAt _ w).2 fun v hv hforbids => ?_
    rcases List.mem_append.1 hv with hv | hv
    · exact absurd (hnx v hv) (by rw [hforbids]; decide)
    · rw [List.mem_singleton.1 hv]

end Memory

/-! ### The machine -/

/-- The line of the template for `CR3`. -/
def cr3Assign : Assign := ⟨"cr3", "cr3", false⟩

theorem cr3Assign_mem : cr3Assign ∈ codeTemplate := List.mem_of_getElem? (i := 31) rfl

/-- The value of `CR3` in a reply. -/
def cr3Value (v : Text → Hex) : Hex := v cr3Assign.key.toList

/-- **What is asked of the machine that is saved and of its monitor.**  The reply has every
register, with numbers of 64 bits, and it is the only text that has registers; `CR3` is the root of
page tables that map the page of the firmware as a page of 4 KiB, through entries that survive and
that allow to execute it, but for the last one. -/
structure Source (cpu : Cpu) (q : Monitor) (socket : Text) (v : Text → Hex) (n : ℤ) (S : Image GB)
    (w : Mapped) : Prop where
  quiet : q.Quiet socket
  registers : ∃ ks, Dump v (lines (q.hmp "info registers")) ks ∧ ∀ k ∈ keys, k ∈ ks
  cr3 : FirstCr3 (q.hmp "info registers") (cr3Value v)
  numbers : ∀ k ∈ keys, HexNumeral.value (v k).1 < 2 ^ 64
  offset : -2 ^ 31 + 1 ≤ n ∧ n ≤ 2 ^ 31 - 1
  room : RoomForSum (BitVec.ofNat 64 (HexNumeral.value (v "rip".toList).1)) n
  root : 4096 ∣ HexNumeral.value (cr3Value v).1
  walk : walk cpu S (HexNumeral.value (cr3Value v).1) trampoline.toNat = .ok w
  level : w.level = 0
  upper : ∀ e ∈ w.upper, noExecute e.entry = false
  survives : Survives w

/-- **A target that goes on where the source has stopped**: the file `m` of the CPU state holds the
registers of the source, and the memory `T'` of the target, seen through the root that the file
names, maps what that of the source maps; the page of the firmware can be executed. -/
structure Resumed (cpu : Cpu) (L : Layout) (v : Text → Hex) (n : ℤ) (S : Image GB)
    (w : Mapped) (m : Image L.size) (T' : Image GB) : Prop where
  registers : CpuState.Holds L v n m
  maps : ∃ root, L.read m (CpuState.path cr3Assign.field) = some root ∧
    (∀ va tr, Maps cpu T' root va tr ↔ Maps cpu S root va tr) ∧
    ∃ w', Paging.walk cpu T' root trampoline.toNat = .ok w' ∧
      w'.translation trampoline.toNat = w.translation trampoline.toNat ∧ w'.noExecute = false

section Resume

variable {cpu : Cpu} {physmem : MapAddr} {q : Monitor} {socket : Text} {v : Text → Hex} {n : ℤ}
variable {S : Image GB} {w : Mapped} {L : Layout}

/-- The file names the root of the source. -/
theorem read_cr3 {m : Image L.size} (hm : CpuState.Holds L v n m)
    (hcr3 : HexNumeral.value (cr3Value v).1 < 2 ^ 64)
    (hL : ∃ f, L.field (CpuState.path cr3Assign.field) = some f ∧ f.size = 8) :
    L.read m (CpuState.path cr3Assign.field) = some (HexNumeral.value (cr3Value v).1) := by
  obtain ⟨f, hf, hsize⟩ := hL
  have htarget : CpuState.target v n cr3Assign = (HexNumeral.value (cr3Value v).1 : ℤ) :=
    add_zero _
  have hbytes : (256 : ℤ) ^ 8 = 2 ^ 64 := by norm_num
  have hmod : (HexNumeral.value (cr3Value v).1 : ℤ) % 2 ^ 64 = HexNumeral.value (cr3Value v).1 :=
    Int.emod_eq_of_lt (Int.natCast_nonneg _) (by exact_mod_cast hcr3)
  rw [hm.registers cr3Assign cr3Assign_mem f hf, hsize, htarget, hbytes, hmod, Int.toNat_natCast]

/-- **Every session on such a source leaves files from which the machine is resumed**: wherever the
text of the patcher stands in the transcript, the scripts and the generated code succeed, and
whatever the target had in its memory, it goes on where the source has stopped. -/
theorem resume_source (u : Unicode) (hlower : ∀ c : Char, 128 ≤ c.toNat → '/' ∉ u.lower c)
    (hL : CpuState.Declares L)
    (hsize : ∃ f, L.field (CpuState.path cr3Assign.field) = some f ∧ f.size = 8)
    (hsource : Source cpu q socket v n S w) {t : Text}
    (ht : QemuTxt q socket (commandLine (cr3Value v)) (patcherText physmem (cr3Value v) S) t)
    (T : Image GB) :
    ∃ files T' out m, snapVmQmp physmem (q.hmp "info registers") S = some files ∧
      reloadSavedMemory files.1 files.2 T = some T' ∧ main u n t = some out ∧
      CpuState.stateBlob L out = some m ∧ Resumed cpu L v n S w m T' := by
  have hcr3 : HexNumeral.value (cr3Value v).1 < 2 ^ 64 :=
    hsource.numbers _ (List.mem_map_of_mem cr3Assign_mem)
  -- the value that the patcher reads is the root
  have hclamp : (clampUnsigned (HexNumeral.value (cr3Value v).1)).toNat =
      HexNumeral.value (cr3Value v).1 := by
    rw [clampUnsigned, if_pos hcr3, BitVec.toNat_ofNat, Nat.mod_eq_of_lt hcr3]
  have haligned : PageAligned (clampUnsigned (HexNumeral.value (cr3Value v).1)) := by
    rw [PageAligned, hclamp]
    exact hsource.root
  have hroot : 8 ∣ HexNumeral.value (cr3Value v).1 := dvd_trans (by norm_num) hsource.root
  obtain ⟨files, T', hfiles, hload, hmaps, w', hw', htr, hnx⟩ := exists_restored physmem
    haligned (hclamp.symm ▸ hsource.walk) hsource.level hsource.upper hsource.survives T
  -- the transcript and the generated code
  obtain ⟨ks, hreply, hall⟩ := hsource.registers
  have hdump := dump_of_qemuTxt hsource.quiet hreply ht
  have hmain := CpuState.main_dump u n hdump hall
  obtain ⟨m, hm, hholds⟩ := CpuState.exists_stateBlob hL
    (CpuState.program_output (CpuState.opens_comment hlower)
      (CpuState.unspliced_output u v n _).not_infix_of)
    hsource.numbers hsource.offset.1 hsource.offset.2 hsource.room
  refine ⟨files, T', _, m, snapVmQmp_of_first hsource.cr3 hfiles, hload, hmain, hm, hholds, _,
    read_cr3 hholds hcr3 hsize, fun va tr => hmaps _ va tr hroot, w', ?_, htr, hnx⟩
  rw [← hclamp]
  exact hw'

end Resume

/-! ### A machine -/

/-- All registers are zero. -/
def zeroValue (_ : Text) : Hex := zeroDigit

def zeroSegment (x : String) : Text := token zeroValue x.toList true ++ " 0".toList

def zeroTable (x : String) : Text := upper x.toList ++ "=     0 0".toList

/-- The reply of a monitor with these registers. -/
def zeroLines : List Text :=
  [tokenLine zeroValue tokenKeys, zeroSegment "fs", zeroSegment "gs", zeroTable "gdt",
    zeroTable "idt"]

def zeroMonitor : Monitor where
  rsp _ := []
  hmp c := if c = "info registers" then unlines zeroLines else []

/-- The tables that map the page of the firmware. -/
def zeroMemory : Image GB :=
  .ofWords GB [(0x888, 0x1067), (0x1000, 0x2067), (0x2020, 0x3067), (0x3060, 0x800000000080c063)]

def zeroWalk : Mapped where
  upper := [⟨0x888, 0x1067⟩, ⟨0x1000, 0x2067⟩, ⟨0x2020, 0x3067⟩]
  leaf := ⟨0x3060, 0x800000000080c063⟩
  level := 0

theorem dump_zeroLines :
    ∃ ks, Dump zeroValue (lines (unlines zeroLines)) ks ∧ ∀ k ∈ keys, k ∈ ks := by
  have hlines : lines (unlines zeroLines) = zeroLines.map fun t => t ++ ['\n'] :=
    lines_flatMap (by decide +kernel)
  have hsegment : ∀ x : String, x.toList ∈ ["fs".toList, "gs".toList] →
      Line zeroValue (zeroSegment x) [x.toList, x.toList ++ "_base".toList] := fun x hx =>
    .segment (t := ['0']) 0 hx rfl (.inl rfl) (.other (clean_of_not_mem (by decide)))
  have htable : ∀ x : String, x.toList ∈ ["gdt".toList, "idt".toList] → Clean (zeroTable x) →
      Line zeroValue (zeroTable x) [x.toList ++ "_addr".toList, x.toList ++ "_size".toList] :=
    fun x hx hclean => .table (v := zeroValue) (t := zeroTable x) 5 0 hx rfl (.inl rfl)
      (.other hclean)
  have heol : IsEol ['\n'] := by simp [IsEol]
  have hdump : Dump zeroValue (zeroLines.map fun t => t ++ ['\n'])
      (tokenKeys ++ (["fs".toList, "fs_base".toList] ++ (["gs".toList, "gs_base".toList] ++
        (["gdt_addr".toList, "gdt_size".toList] ++
          (["idt_addr".toList, "idt_size".toList] ++ []))))) :=
    .cons (.plain (body_tokenLine _ fun _ h => h) (by decide +kernel)) heol
      (.cons (hsegment "fs" (by decide)) heol
      (.cons (hsegment "gs" (by decide)) heol
      (.cons (htable "gdt" (by decide) (by unfold Clean; decide +kernel)) heol
      (.cons (htable "idt" (by decide) (by unfold Clean; decide +kernel)) heol .nil))))
  rw [hlines]
  exact ⟨_, hdump, by decide +kernel⟩

theorem zeroMonitor_source : Source (Cpu.ofWidth 46) zeroMonitor "qmp-sock".toList zeroValue 0
    zeroMemory zeroWalk where
  quiet :=
    { socket := by decide
      rsp := fun _ => silent_of_not_mem List.not_mem_nil
      hmp := fun c hc => by
        have hnone : zeroMonitor.hmp c = [] := if_neg hc
        rw [hnone]
        exact silent_of_not_mem List.not_mem_nil
      reply := endsLine_unlines _ }
  registers := dump_zeroLines
  cr3 := by
    have hsearch :
        (snapCr3Pattern.search (unlines zeroLines)).map (groupText · 1) = some ['0'] := by
      decide +kernel
    obtain ⟨m, hm, hgroup⟩ := Option.map_eq_some_iff.1 hsearch
    obtain ⟨x, hx, htext⟩ := exists_of_search_eq_some hm
    obtain rfl : x = zeroDigit := Subtype.ext (htext.symm.trans hgroup)
    exact hx
  numbers k _ := by
    change HexNumeral.value ['0'] < 2 ^ 64
    decide
  offset := by norm_num
  room := CpuState.roomForSum_zero _
  root := by decide
  walk := by decide +kernel
  level := rfl
  upper := by decide
  survives := by
    unfold Survives
    decide

theorem resume_source_zeroMonitor :
    ∃ t, QemuTxt zeroMonitor "qmp-sock".toList (commandLine zeroDigit)
      (patcherText default zeroDigit zeroMemory) t ∧
      ∃ files T' out m, snapVmQmp default (unlines zeroLines) zeroMemory = some files ∧
        reloadSavedMemory files.1 files.2 (fun _ => 0) = some T' ∧
        main asciiUnicode 0 t = some out ∧
        CpuState.stateBlob CpuState.exampleLayout out = some m ∧
        Resumed (Cpu.ofWidth 46) CpuState.exampleLayout zeroValue 0 zeroMemory zeroWalk m T' := by
  have ht : QemuTxt zeroMonitor "qmp-sock".toList (commandLine zeroDigit)
      (patcherText default zeroDigit zeroMemory) _ := .inl ⟨[], _, rfl, rfl⟩
  exact ⟨_, ht, resume_source asciiUnicode slash_not_mem_asciiUnicode
    CpuState.declares_exampleLayout
    (CpuState.field_exampleLayout (List.mem_append_right _ (List.mem_map_of_mem cr3Assign_mem)))
    zeroMonitor_source ht fun _ => 0⟩

end Snapshot

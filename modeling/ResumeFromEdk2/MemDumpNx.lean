/-
**What `ClearPageNXFlag` does to the mappings in a dump.**

The walk of the program is compared here with the walk of the processor.  On an address that is
mapped by a 4 KiB page the two agree, and the program clears the no-execute bit of the entry that
the processor uses.  Whatever the program does, it does not change a translation.

Two things one would expect do not hold.  The program follows entries that are not present and
entries of large pages, so that only a zero entry makes it give up; and it does not look at the
no-execute bits above the entry it patches, so that a success does not mean that the address may be
executed.  For both the exact condition is stated and proved.

Main definitions:

* `MemDump.Mapped4K` — the address is mapped by a 4 KiB page, with the tables inside the image;
* `MemDump.RejectsUnmapped`, `MemDump.SuccessMeansExecutable` — the two expectations;
* `MemDump.patchedWord` — the word that is patched for an address that is mapped;
* `MemDump.NxOnlyAtPatch` — no entry but the patched word forbids instruction fetches.

Main results:

* `MemDump.clearPageNXFlag_mapped4K` — **the exact effect on a 4 KiB mapping**;
* `MemDump.clearPageNXFlag_translate` — **no translation is changed**;
* `MemDump.rejectsUnmapped_iff` — an address without a 4 KiB mapping is rejected exactly when the
  walk reads a zero entry;
* `MemDump.successMeansExecutable_iff` — success means executable exactly when no entry but the
  patched word forbids instruction fetches.
-/

import ResumeFromEdk2.MemDumpWalk

set_option relaxedAutoImplicit false
set_option autoImplicit false

namespace MemDump

open BitField ByteImage Paging

variable {n : ℕ}

/-- Four tables in the first four pages of an image, each with one entry, its first. -/
def fourTables (n : ℕ) (pgd pud pmd pte : BitVec 64) : Image n :=
  Image.ofWords n [(0, pgd), (0x1000, pud), (0x2000, pmd), (0x3000, pte)]

/-! ### A 4 KiB mapping -/

/-- **The exact effect on a 4 KiB mapping**: the program returns `0`, bit 63 of the entry that maps
the address is clear afterwards, and every other bit of the dump is the one it was.  The entry may
be one of the upper entries of the walk as well. -/
theorem clearPageNXFlag_mapped4K (cpu : Cpu) (physmem : MapAddr) (m : Image n)
    {cr3 va : BitVec 64} (hcr3 : PageAligned cr3) {t : Mapped}
    (hwalk : walk cpu m cr3.toNat va.toNat = .ok t) (hlevel : t.level = 0) :
    ∃ m', clearPageNXFlag physmem cr3 va m = some (0, m') ∧
      m'.word t.leaf.addr = some (clearNx t.leaf.entry) ∧
      ∀ b, b ≠ 8 * t.leaf.addr + 63 → m'.bit b = m.bit b := by
  have hroot : 8 ∣ cr3.toNat := hcr3.eight_dvd
  obtain ⟨hword, -, halign⟩ := walkFrom_mem_path hroot hwalk t.leaf t.leaf_mem_path
  have hend : walkEnd m cr3.toNat va.toNat = some (.entry t.leaf.addr) := by
    rw [walkEnd_of_walk hcr3 hwalk, hlevel, descend]
  refine ⟨_, clearPageNXFlag_of_entry physmem hend (Image.word_eq_some_le hword), ?_,
    fun b hb => ?_⟩
  · rw [Image.word_clearBit m halign halign (by norm_num), hword, Option.map_some, if_pos rfl]
    rfl
  · simp [hb]

theorem clearPageNXFlag_mapped4K_fourTables :
    ∃ m', clearPageNXFlag default 0 0
        (fourTables 0x5000 0x1067 0x2067 0x3067 0x8000000000004063) = some (0, m') ∧
      m'.word 0x3000 = some (clearNx 0x8000000000004063) ∧
      ∀ b, b ≠ 8 * 0x3000 + 63 →
        m'.bit b = (fourTables 0x5000 0x1067 0x2067 0x3067 0x8000000000004063).bit b :=
  clearPageNXFlag_mapped4K (Cpu.ofWidth 46) default _ (by decide)
    (t := ⟨[⟨0, 0x1067⟩, ⟨0x1000, 0x2067⟩, ⟨0x2000, 0x3067⟩], ⟨0x3000, 0x8000000000004063⟩, 0⟩)
    (by decide +kernel) rfl

/-! ### Translations -/

/-- **No translation is changed**, from whatever root, of whatever address and whatever code the
program returns, and nothing that was executable ceases to be so. -/
theorem clearPageNXFlag_translate (cpu : Cpu) {physmem : MapAddr} {m m' : Image n}
    {cr3 va : BitVec 64} {rc : ℤ} (h : clearPageNXFlag physmem cr3 va m = some (rc, m'))
    {r : ℕ} (hr : 4096 ∣ r) (v : ℕ) :
    translate cpu m' r v = translate cpu m r v ∧
      (Executable cpu m r v → Executable cpu m' r v) := by
  have hroot : 8 ∣ r := dvd_trans (by norm_num) hr
  rcases clearPageNXFlag_cases h with ⟨-, rfl, -⟩ | ⟨-, p, -, hp, -, rfl⟩
  · exact ⟨rfl, id⟩
  · exact ⟨translate_clearBit hp hroot v, Executable.clearBit hp hroot⟩

theorem clearPageNXFlag_translate_fourTables :
    translate (Cpu.ofWidth 46)
        ((fourTables 0x5000 0x1067 0x2067 0x3067 0x8000000000004063).clearBit (8 * 0x3000 + 63))
        0x0 0x123 =
      translate (Cpu.ofWidth 46) (fourTables 0x5000 0x1067 0x2067 0x3067 0x8000000000004063)
        0x0 0x123 ∧
      (Executable (Cpu.ofWidth 46) (fourTables 0x5000 0x1067 0x2067 0x3067 0x8000000000004063)
          0x0 0x123 →
        Executable (Cpu.ofWidth 46)
          ((fourTables 0x5000 0x1067 0x2067 0x3067 0x8000000000004063).clearBit (8 * 0x3000 + 63))
          0x0 0x123) := by
  have hrun : clearPageNXFlag default 0 0
      (fourTables 0x5000 0x1067 0x2067 0x3067 0x8000000000004063) =
      some (0, (fourTables 0x5000 0x1067 0x2067 0x3067 0x8000000000004063).clearBit
        (8 * 0x3000 + 63)) :=
    clearPageNXFlag_of_entry default (by decide +kernel) (by norm_num)
  exact clearPageNXFlag_translate (Cpu.ofWidth 46) hrun (by norm_num) 0x123

/-! ### Addresses without a 4 KiB mapping -/

/-- The address is mapped by a 4 KiB page, and the tables of its walk lie inside the image. -/
def Mapped4K (cpu : Cpu) (m : Image n) (root va : ℕ) : Prop :=
  ∃ t, walk cpu m root va = .ok t ∧ t.level = 0 ∧
    ∀ v ∈ t.path, v.addr / 4096 * 4096 + 4096 ≤ n

/-- An address without a 4 KiB mapping is rejected, and nothing is touched. -/
def RejectsUnmapped (cpu : Cpu) (physmem : MapAddr) (m : Image n) (cr3 va : BitVec 64) : Prop :=
  ¬Mapped4K cpu m cr3.toNat va.toNat →
    ∃ rc, rc ≠ 0 ∧ clearPageNXFlag physmem cr3 va m = some (rc, m)

instance (m : Image n) (base va : ℕ) : Decidable (StopsAtZero m base va) :=
  inferInstanceAs (Decidable (_ = true))

/-- A page of 2 MiB at `0x200000` is taken for a table: the program reports success and clears a
bit of the data in the page. -/
theorem not_rejectsUnmapped_largePage :
    ¬RejectsUnmapped (Cpu.ofWidth 46) default
      (Image.ofWords 0x400000 [(0, 0x1067), (0x1000, 0x2067), (0x2000, 0x2000e7),
        (0x200000, 0xffffffffffffffff)]) 0 0 := by
  intro h
  refine absurd (clearPageNXFlag_stopped_iff.1 (h ?_)) (by decide +kernel)
  rintro ⟨t, ht, hlevel, -⟩
  have hwalk : walk (Cpu.ofWidth 46) (Image.ofWords 0x400000 [(0, 0x1067), (0x1000, 0x2067),
      (0x2000, 0x2000e7), (0x200000, 0xffffffffffffffff)]) 0 0 =
      .ok ⟨[⟨0, 0x1067⟩, ⟨0x1000, 0x2067⟩], ⟨0x2000, 0x2000e7⟩, 1⟩ := by decide +kernel
  cases hwalk.symm.trans ht
  exact absurd hlevel one_ne_zero

/-- **An address without a 4 KiB mapping is rejected exactly when the walk of the program reads a
zero entry.** -/
theorem rejectsUnmapped_iff (cpu : Cpu) (physmem : MapAddr) (m : Image n) (cr3 va : BitVec 64) :
    RejectsUnmapped cpu physmem m cr3 va ↔
      Mapped4K cpu m cr3.toNat va.toNat ∨ StopsAtZero m cr3.toNat va.toNat := by
  rw [RejectsUnmapped, clearPageNXFlag_stopped_iff, or_iff_not_imp_left]

/-! ### Success and the right to execute -/

/-- When the program returns `0` on an address that is mapped, the address has the same physical
address afterwards, and no entry of its walk forbids instruction fetches. -/
def SuccessMeansExecutable (cpu : Cpu) (physmem : MapAddr) (m : Image n) (cr3 va : BitVec 64) :
    Prop :=
  ∀ t m', walk cpu m cr3.toNat va.toNat = .ok t →
    clearPageNXFlag physmem cr3 va m = some (0, m') →
      ∃ t', walk cpu m' cr3.toNat va.toNat = .ok t' ∧ t'.pa va.toNat = t.pa va.toNat ∧
        ∀ v ∈ t'.path, Paging.noExecute v.entry = false

/-- **The word that is patched for an address that is mapped.**  Under a 4 KiB page it is the entry
that maps the page.  A page of 2 MiB is taken for a table, and one of 1 GiB for a table of
tables. -/
def patchedWord (m : Image n) (va : ℕ) (t : Mapped) : Option ℕ :=
  match t.level with
  | 0 => some t.leaf.addr
  | 1 => some (entryAddr 0 (frame 21 t.leaf.entry) va)
  | _ => do
      let e ← m.word (entryAddr 1 (frame 30 t.leaf.entry) va)
      if e = 0 then none else return entryAddr 0 (frame (if ps e then 21 else 12) e) va

/-- **No entry but the patched word forbids instruction fetches.** -/
def NxOnlyAtPatch (cpu : Cpu) (m : Image n) (root va : ℕ) : Prop :=
  ∀ t p, walk cpu m root va = .ok t → patchedWord m va t = some p → p + 8 ≤ n →
    ∀ v ∈ t.path, Paging.noExecute v.entry = true → v.addr = p

/-- The level of an entry that maps a page says whether the page is large. -/
theorem isLarge_leaf {cpu : Cpu} {m : Image n} {va : ℕ} : ∀ {l table : ℕ} {t : Mapped},
    walkFrom cpu m va l table = .ok t → t.level ≠ 0 → isLarge t.level t.leaf.entry = true := by
  intro l
  induction l with
  | zero =>
      intro table t h hlevel
      obtain ⟨e, -, rfl⟩ := walkFrom_zero_eq_ok.1 h
      exact absurd rfl hlevel
  | succ l ih =>
      intro table t h hlevel
      obtain ⟨e, -, ⟨hl, rfl⟩ | ⟨-, t', ht', rfl⟩⟩ := walkFrom_succ_eq_ok.1 h
      · exact hl
      · exact ih (t := t') ht' hlevel

/-- The walk of the program ends at the patched word. -/
theorem walkEnd_eq_entry_iff {cpu : Cpu} {m : Image n} {cr3 : BitVec 64} (hcr3 : PageAligned cr3)
    {va p : ℕ} {t : Mapped} (h : walk cpu m cr3.toNat va = .ok t) :
    walkEnd m cr3.toNat va = some (.entry p) ↔ patchedWord m va t = some p := by
  have hroot : 8 ∣ cr3.toNat := hcr3.eight_dvd
  obtain ⟨hword, hpres, -⟩ := walkFrom_mem_path hroot h t.leaf t.leaf_mem_path
  have hne := present_ne_zero hpres
  have hlarge := isLarge_leaf h
  have hle := walkFrom_level_le_two h
  rw [walkEnd_of_walk hcr3 h, patchedWord]
  obtain ⟨upper, leaf, level⟩ := t
  dsimp only at hword hne hlarge hle ⊢
  match level with
  | 0 => simp only [descend, Option.some.injEq, WalkEnd.entry.injEq]
  | 1 =>
      have htab : tableOf 1 leaf.entry = frame 21 leaf.entry := by
        rw [tableOf, hlarge one_ne_zero, if_pos rfl, shift]
      rw [descend_succ hword, if_neg hne, htab, descend]
      simp only [Option.some.injEq, WalkEnd.entry.injEq]
  | 2 =>
      have htab : tableOf 2 leaf.entry = frame 30 leaf.entry := by
        rw [tableOf, hlarge two_ne_zero, if_pos rfl, shift]
      rw [descend_succ hword, if_neg hne, htab]
      cases he : m.word (entryAddr 1 (frame 30 leaf.entry) va) with
      | none =>
          rw [descend_succ_none he]
          simp
      | some e =>
          rw [descend_succ he, descend]
          by_cases h0 : e = 0
          · simp [h0]
          · have htab' : tableOf 1 e = frame (if ps e then 21 else 12) e := by
              simp only [tableOf, isLarge, shift]
              rfl
            rw [if_neg h0, htab']
            simp only [Option.some.injEq, WalkEnd.entry.injEq, Option.bind_eq_bind,
              Option.bind_some, if_neg h0, pure]

/-- **Success means executable exactly when no entry but the patched word forbids instruction
fetches.** -/
theorem successMeansExecutable_iff (cpu : Cpu) (physmem : MapAddr) (m : Image n)
    {cr3 va : BitVec 64} (hcr3 : PageAligned cr3) :
    SuccessMeansExecutable cpu physmem m cr3 va ↔ NxOnlyAtPatch cpu m cr3.toNat va.toNat := by
  have hroot : 8 ∣ cr3.toNat := hcr3.eight_dvd
  constructor
  · intro h t p ht hpatch hle
    have hend := (walkEnd_eq_entry_iff hcr3 ht).2 hpatch
    have hp : 8 ∣ p := walkEnd_entry_dvd hend
    obtain ⟨t', ht', -, hnx⟩ := h t _ ht (clearPageNXFlag_of_entry physmem hend hle)
    rw [walk_clearBit hp hroot, ht] at ht'
    obtain rfl : t.clearNxAt p = t' := by simpa [Except.map] using ht'
    exact (Mapped.noExecute_clearNxAt p t).1 (Mapped.noExecute_eq_false.2 hnx)
  · intro h t m' ht hrun
    rcases clearPageNXFlag_cases hrun with ⟨hrc, -⟩ | ⟨-, p, hend, hp, hle, rfl⟩
    · exact absurd rfl hrc
    have hnx := h t p ht ((walkEnd_eq_entry_iff hcr3 ht).1 hend) hle
    refine ⟨t.clearNxAt p, by rw [walk_clearBit hp hroot, ht]; rfl, ?_, ?_⟩
    · exact congrArg Translation.pa (Mapped.translation_clearNxAt p va.toNat t)
    · exact Mapped.noExecute_eq_false.1 ((Mapped.noExecute_clearNxAt p t).2 hnx)

theorem successMeansExecutable_iff_fourTables :
    SuccessMeansExecutable (Cpu.ofWidth 46) default
        (fourTables 0x5000 0x1067 0x2067 0x3067 0x8000000000004063) 0 0 ↔
      NxOnlyAtPatch (Cpu.ofWidth 46)
        (fourTables 0x5000 0x1067 0x2067 0x3067 0x8000000000004063) 0 0 :=
  successMeansExecutable_iff (Cpu.ofWidth 46) default _ (by decide)

/-- The root entry forbids instruction fetches, and still does after the program has returned
`0`. -/
theorem not_successMeansExecutable_rootNx :
    ¬SuccessMeansExecutable (Cpu.ofWidth 46) default
      (fourTables 0x5000 0x8000000000001067 0x2067 0x3067 0x4063) 0 0 := by
  intro h
  have hwalk : walk (Cpu.ofWidth 46)
      (fourTables 0x5000 0x8000000000001067 0x2067 0x3067 0x4063) 0 0 =
      .ok ⟨[⟨0, 0x8000000000001067⟩, ⟨0x1000, 0x2067⟩, ⟨0x2000, 0x3067⟩], ⟨0x3000, 0x4063⟩, 0⟩ := by
    decide +kernel
  have hend : walkEnd (fourTables 0x5000 0x8000000000001067 0x2067 0x3067 0x4063) 0 0 =
      some (.entry 0x3000) := by decide +kernel
  obtain ⟨t', ht', -, hnx⟩ := h _ _ hwalk (clearPageNXFlag_of_entry default hend (by norm_num))
  have hroot : 8 ∣ BitVec.toNat (0 : BitVec 64) := dvd_zero 8
  rw [walk_clearBit (by norm_num) hroot] at ht'
  cases (congrArg (Except.map _) hwalk).symm.trans ht'
  exact absurd (hnx ⟨0, 0x8000000000001067⟩ (by decide)) (by decide)

end MemDump

/-
**The way of a memory through a snapshot.**

The source machine is stopped and its memory of 1 GiB is written to a file, the file is patched and
cut into two parts with `dd`, and the parts are loaded into the memory of the target machine.
Between them they leave out three pages, which hold the code that runs on the target at that time;
a flag in the last of these pages is set at the end.

The block counts of `dd` are pages and the ranges of the monitor commands are bytes, and every
number is written out in the scripts.  This module shows that they fit together.

Of the monitor commands it is assumed that they succeed, that `pmemsave` and `pmemload` copy exactly
the given range, the latter from the start of its file, and that loading the state of the devices
does not write to the memory.

Main definitions:

* `Snapshot.File`, `Snapshot.dd`, `Snapshot.pmemsave`, `Snapshot.pmemload` — files, and the
  commands that read and write them;
* `Snapshot.snapVm`, `Snapshot.reloadSavedMemory` — the memory part of the two scripts;
* `Snapshot.migrate` — one after the other;
* `Snapshot.patchedBits` — the bits that the patch clears.

Main results:

* `Snapshot.migrate_byte` — where every byte of the target comes from;
* `Snapshot.migrate_roundTrip` — **the memory outside the three pages arrives as it was**, the
  patched bits excepted;
* `Snapshot.migrate_executable` — **an address mapped by a 4 KiB page may be executed on the target
  under the page tables of the source**.
-/

import ResumeFromEdk2.MemDumpPatch

set_option relaxedAutoImplicit false
set_option autoImplicit false

namespace Snapshot

open BitField ByteImage Paging MemDump

/-! ### Files and commands -/

def KB : ℕ := 1024

def MB : ℕ := 1024 * KB

def GB : ℕ := 1024 * MB

theorem GB_eq : GB = 0x40000000 := by decide

/-- A file. -/
structure File where
  size : ℕ
  bytes : Image size

/-- `dd` on a regular file: `count` blocks after the first `skip` ones, or as many as there are. -/
def dd (src : File) (bs skip count : ℕ) : File where
  size := min (count * bs) (src.size - skip * bs)
  bytes i := src.bytes.byte (skip * bs + i)

variable {n : ℕ}

/-- The monitor command that writes a range of the memory to a file. -/
def pmemsave (val size : ℕ) (mem : Image n) : Option File :=
  if val + size ≤ n then some ⟨size, fun i => mem.byte (val + i)⟩ else none

/-- The monitor command that loads the start of a file into a range of the memory. -/
def pmemload (val size : ℕ) (file : File) (mem : Image n) : Option (Image n) :=
  if val + size ≤ n ∧ size ≤ file.size then
    some fun i => if val ≤ i ∧ i < val + size then file.bytes.byte (i - val) else mem i
  else none

/-- `mem-flag.bin` -/
def memFlag : File := ⟨8, fun _ => 0x3c⟩

/-! ### The scripts -/

/-- The memory part of `snap-vm-qmp.py`: `mem-dump-1.bin` and `mem-dump-2.bin`.  The status of the
patcher is not looked at, so the dump is cut as the patcher leaves it, also when a signal has ended
the patcher. -/
def snapVm (physmem : MapAddr) (cr3 virtAddr : BitVec 64) (mem : Image GB) :
    Option (File × File) := do
  let memDump ← pmemsave 0x0 GB mem
  let patched := (modifyMemDump physmem cr3 virtAddr memDump.bytes).memory
  let memDump : File := ⟨memDump.size, patched⟩
  return (dd memDump 4096 0 0x80b, dd memDump 4096 0x80e 0x3f7f2)

/-- The memory part of `reload-saved-memory-qmp.py`. -/
def reloadSavedMemory (memDump1 memDump2 : File) (mem : Image GB) : Option (Image GB) := do
  let mem ← pmemload 0x0 0x80b000 memDump1 mem
  let mem ← pmemload 0x80e000 0x3F7F2000 memDump2 mem
  pmemload 0x80df08 0x8 memFlag mem

/-- A snapshot of the source `S`, loaded into the target `T`. -/
def migrate (physmem : MapAddr) (cr3 virtAddr : BitVec 64) (S T : Image GB) :
    Option (Image GB) := do
  let (memDump1, memDump2) ← snapVm physmem cr3 virtAddr S
  reloadSavedMemory memDump1 memDump2 T

/-- A migration in its two parts. -/
theorem migrate_eq_some {physmem : MapAddr} {cr3 virtAddr : BitVec 64} {S T T' : Image GB} :
    migrate physmem cr3 virtAddr S T = some T' ↔
      ∃ files, snapVm physmem cr3 virtAddr S = some files ∧
        reloadSavedMemory files.1 files.2 T = some T' := by
  rw [migrate]
  exact Option.bind_eq_some_iff

/-- The three pages that are left out. -/
def InHole (a : ℕ) : Prop := 0x80b000 ≤ a ∧ a < 0x80e000

/-- The bytes of the flag. -/
def InFlag (a : ℕ) : Prop := 0x80df08 ≤ a ∧ a < 0x80df10

instance (a : ℕ) : Decidable (InHole a) := inferInstanceAs (Decidable (_ ∧ _))

instance (a : ℕ) : Decidable (InFlag a) := inferInstanceAs (Decidable (_ ∧ _))

/-! ### Where the bytes come from -/

theorem pmemsave_all (mem : Image n) : pmemsave 0 n mem = some ⟨n, mem⟩ := by
  have hbytes : (fun i : Fin n => mem.byte (0 + i)) = mem := by
    funext i
    rw [Nat.zero_add, Image.byte_of_lt mem i.isLt]
  rw [pmemsave, if_pos (by omega), hbytes]

theorem byte_dd (src : File) (bs skip count : ℕ) {a : ℕ}
    (ha : a < (dd src bs skip count).size) :
    (dd src bs skip count).bytes.byte a = src.bytes.byte (skip * bs + a) := by
  rw [Image.byte_of_lt _ ha]
  rfl

/-- The effect of `pmemload` on a byte. -/
theorem byte_pmemload {val size : ℕ} {file : File} {mem mem' : Image n}
    (h : pmemload val size file mem = some mem') {a : ℕ} (ha : a < n) :
    mem'.byte a = if val ≤ a ∧ a < val + size then file.bytes.byte (a - val) else mem.byte a := by
  by_cases hfit : val + size ≤ n ∧ size ≤ file.size
  · rw [pmemload, if_pos hfit] at h
    obtain rfl := Option.some.inj h
    rw [Image.byte_of_lt _ ha, Image.byte_of_lt _ ha]
  · rw [pmemload, if_neg hfit] at h
    exact absurd h (by simp)

theorem pmemload_isSome (val size : ℕ) (file : File) (mem : Image n) (hval : val + size ≤ n)
    (hsize : size ≤ file.size) : ∃ mem', pmemload val size file mem = some mem' :=
  ⟨_, if_pos ⟨hval, hsize⟩⟩

/-- **Where the bytes of the target come from**, when the patched dump is `P`. -/
theorem migrate_byte {physmem : MapAddr} {cr3 virtAddr : BitVec 64} {S P : Image GB} {rc : ℤ}
    (hpatch : modifyMemDump physmem cr3 virtAddr S = .returned rc P) (T : Image GB) :
    ∃ T', migrate physmem cr3 virtAddr S T = some T' ∧
      ∀ a < GB, T'.byte a =
        if InFlag a then 0x3c else if InHole a then T.byte a else P.byte a := by
  have hGB := GB_eq
  have hsize₁ : (dd ⟨GB, P⟩ 4096 0 0x80b).size = 0x80b000 :=
    show min (0x80b * 4096) (GB - 0 * 4096) = 0x80b000 by decide
  have hsize₂ : (dd ⟨GB, P⟩ 4096 0x80e 0x3f7f2).size = 0x3F7F2000 :=
    show min (0x3f7f2 * 4096) (GB - 0x80e * 4096) = 0x3F7F2000 by decide
  have hsnap : snapVm physmem cr3 virtAddr S =
      some (dd ⟨GB, P⟩ 4096 0 0x80b, dd ⟨GB, P⟩ 4096 0x80e 0x3f7f2) := by
    rw [snapVm, pmemsave_all, Option.bind_eq_bind, Option.bind_some, hpatch]
    rfl
  obtain ⟨T₁, h₁⟩ := pmemload_isSome 0x0 0x80b000 _ T (by omega) hsize₁.ge
  obtain ⟨T₂, h₂⟩ := pmemload_isSome 0x80e000 0x3F7F2000 _ T₁ (by omega) hsize₂.ge
  obtain ⟨T₃, h₃⟩ := pmemload_isSome 0x80df08 0x8 memFlag T₂ (by omega) le_rfl
  refine ⟨T₃, migrate_eq_some.2 ⟨_, hsnap, ?_⟩, fun a ha => ?_⟩
  · rw [reloadSavedMemory, h₁, Option.bind_eq_bind, Option.bind_some, h₂, Option.bind_some, h₃]
  · rw [byte_pmemload h₃ ha, byte_pmemload h₂ ha, byte_pmemload h₁ ha]
    by_cases hflag : InFlag a
    · have hin : 0x80df08 ≤ a ∧ a < 0x80df08 + 0x8 := hflag
      have hlt : a - 0x80df08 < 8 := by omega
      rw [if_pos hin, if_pos hflag, memFlag, Image.byte_of_lt _ hlt]
    · have hout : ¬(0x80df08 ≤ a ∧ a < 0x80df08 + 0x8) := hflag
      rw [if_neg hout, if_neg hflag]
      by_cases hpart₂ : 0x80e000 ≤ a
      · have hin : 0x80e000 ≤ a ∧ a < 0x80e000 + 0x3F7F2000 := by omega
        have hhole : ¬InHole a := fun h => by have := h.2; omega
        have haddr : 0x80e * 4096 + (a - 0x80e000) = a := by omega
        rw [if_pos hin, if_neg hhole, byte_dd _ _ _ _ (by omega), haddr]
      · have hout₂ : ¬(0x80e000 ≤ a ∧ a < 0x80e000 + 0x3F7F2000) := fun h => hpart₂ h.1
        rw [if_neg hout₂]
        by_cases hpart₁ : a < 0x80b000
        · have hin : 0x0 ≤ a ∧ a < 0x0 + 0x80b000 := by omega
          have hhole : ¬InHole a := fun h => by have := h.1; omega
          have haddr : 0 * 4096 + (a - 0x0) = a := by omega
          rw [if_pos hin, if_neg hhole, byte_dd _ _ _ _ (by omega), haddr]
        · have hout₁ : ¬(0x0 ≤ a ∧ a < 0x0 + 0x80b000) := by omega
          have hhole : InHole a := ⟨by omega, by omega⟩
          rw [if_neg hout₁, if_pos hhole]

/-! ### The memory on the target -/

/-- **The bits that the patch clears**: bit 63 of the entry at which the walk ends, if it ends at
one, and bit 41 of the TSS descriptor. -/
def patchedBits (m : Image n) (cr3 va : ℕ) : List ℕ :=
  match walkEnd m cr3 va with
  | some (.entry p) => [8 * p + 63, 8 * tssDescAddr + 41]
  | _ => [8 * tssDescAddr + 41]

theorem tssDescAddr_fits : tssDescAddr + 8 ≤ GB := by decide

/-- The patch clears exactly these bits. -/
theorem bit_modifyMemDump {physmem : MapAddr} {cr3 va : BitVec 64} {m m' : Image n} {rc : ℤ}
    (h : modifyMemDump physmem cr3 va m = .returned rc m') (b : ℕ) :
    m'.bit b = (m.bit b && decide (b ∉ patchedBits m cr3.toNat va.toNat)) := by
  obtain ⟨-, m₁, hclear, rfl⟩ := modifyMemDump_eq_returned.1 h
  rcases clearPageNXFlag_cases hclear with ⟨-, rfl, hend⟩ | ⟨-, p, hend, -, -, rfl⟩
  · simp only [Image.bit_clearBit, patchedBits, hend, List.mem_singleton, ne_eq]
  · simp only [Image.bit_clearBit, patchedBits, hend, List.mem_cons, List.not_mem_nil, or_false,
      not_or, ne_eq, Bool.decide_and, Bool.and_assoc]

/-- **The memory outside the three pages arrives as it was**, but for the bits that the patch
clears: at most bit 63 of one aligned word, the entry at which the walk ends, and bit 41 of the TSS
descriptor.  Inside the three pages the target keeps its memory, but for the flag. -/
theorem migrate_roundTrip (physmem : MapAddr) (cr3 virtAddr : BitVec 64) (S T : Image GB)
    (hwalk : (clearPageNXFlag physmem cr3 virtAddr S).isSome = true) :
    ∃ T', migrate physmem cr3 virtAddr S T = some T' ∧
      (∀ b < 8 * GB, ¬InHole (b / 8) →
        T'.bit b = (S.bit b && decide (b ∉ patchedBits S cr3.toNat virtAddr.toNat))) ∧
      (∀ p, walkEnd S cr3.toNat virtAddr.toNat = some (.entry p) → 8 ∣ p) ∧
      (∀ a, InHole a → ¬InFlag a → T'.byte a = T.byte a) ∧
      ∀ a, InFlag a → T'.byte a = 0x3c := by
  obtain ⟨⟨rc, m₁⟩, hclear⟩ := Option.isSome_iff_exists.1 hwalk
  have hpatch := modifyMemDump_eq_returned.2 ⟨tssDescAddr_fits, m₁, hclear, rfl⟩
  obtain ⟨T', hT', hbyte⟩ := migrate_byte hpatch T
  have hGB := GB_eq
  refine ⟨T', hT', fun b hb hhole => ?_, fun p => walkEnd_entry_dvd,
    fun a hhole hflag => ?_, fun a hflag => ?_⟩
  · have hflag : ¬InFlag (b / 8) := fun h => hhole ⟨by have := h.1; omega, by have := h.2; omega⟩
    rw [← bit_modifyMemDump hpatch, Image.bit, Image.bit, hbyte _ (by omega), if_neg hflag,
      if_neg hhole]
  · rw [hbyte a (by have := hhole.2; omega), if_neg hflag, if_pos hhole]
  · rw [hbyte a (by have := hflag.2; omega), if_pos hflag]

theorem migrate_roundTrip_fourTables :
    ∃ T', migrate default 0x0 0x0
        (fourTables GB 0x1067 0x2067 0x3067 0x8000000000004063) (fun _ => 0) = some T' ∧
      (∀ b < 8 * GB, ¬InHole (b / 8) →
        T'.bit b = ((fourTables GB 0x1067 0x2067 0x3067 0x8000000000004063).bit b &&
          decide (b ∉ patchedBits (fourTables GB 0x1067 0x2067 0x3067 0x8000000000004063) 0 0))) ∧
      (∀ p, walkEnd (fourTables GB 0x1067 0x2067 0x3067 0x8000000000004063) 0 0 =
        some (.entry p) → 8 ∣ p) ∧
      (∀ a, InHole a → ¬InFlag a → T'.byte a = Image.byte (n := GB) (fun _ => 0) a) ∧
      ∀ a, InFlag a → T'.byte a = 0x3c :=
  migrate_roundTrip default 0x0 0x0 _ _ (by decide +kernel)

/-! ### The trampoline page on the target -/

/-- An aligned word that does not start in the three pages lies outside of them. -/
theorem not_inHole_of_dvd {a j : ℕ} (ha : 8 ∣ a) (hhole : ¬InHole a) (hj : j < 64) :
    ¬InHole ((8 * a + j) / 8) := by
  obtain ⟨k, rfl⟩ := ha
  intro h
  refine hhole ⟨?_, ?_⟩
  · have := h.1; omega
  · have := h.2; omega

/-- **An address mapped by a 4 KiB page may be executed on the target under the page tables of the
source**, if no entry above the last forbids it and the entries lie outside the three pages and are
not the TSS descriptor.  The translation is the one on the source. -/
theorem migrate_executable (cpu : Cpu) (physmem : MapAddr) {cr3 virtAddr : BitVec 64}
    (S T : Image GB) (hcr3 : PageAligned cr3) {t : Mapped}
    (hwalk : walk cpu S cr3.toNat virtAddr.toNat = .ok t) (hlevel : t.level = 0)
    (hnx : ∀ v ∈ t.upper, Paging.noExecute v.entry = false)
    (hhole : ∀ v ∈ t.path, ¬InHole v.addr) (htss : ∀ v ∈ t.path, v.addr ≠ tssDescAddr) :
    ∃ T', migrate physmem cr3 virtAddr S T = some T' ∧
      ∃ t', walk cpu T' cr3.toNat virtAddr.toNat = .ok t' ∧ t'.level = 0 ∧
        t'.translation virtAddr.toNat = t.translation virtAddr.toNat ∧
        ∀ v ∈ t'.path, Paging.noExecute v.entry = false := by
  have hroot : 8 ∣ cr3.toNat := hcr3.eight_dvd
  have hpath := walkFrom_mem_path hroot hwalk
  obtain ⟨hword, -, halign⟩ := hpath t.leaf t.leaf_mem_path
  have hend : walkEnd S cr3.toNat virtAddr.toNat = some (.entry t.leaf.addr) := by
    rw [walkEnd_of_walk hcr3 hwalk, hlevel, descend]
  have hclear : clearPageNXFlag physmem cr3 virtAddr S = some (0, _) :=
    clearPageNXFlag_of_entry physmem hend (Image.word_eq_some_le hword)
  have hpatch := modifyMemDump_eq_returned.2 ⟨tssDescAddr_fits, _, hclear, rfl⟩
  obtain ⟨T', hT', hbyte⟩ := migrate_byte hpatch T
  -- the walk of the patched source, before the TSS descriptor is patched
  have hwalk₁ : walk cpu (S.clearBit (8 * t.leaf.addr + 63)) cr3.toNat virtAddr.toNat =
      .ok (t.clearNxAt t.leaf.addr) := by
    rw [walk_clearBit halign hroot, hwalk]
    rfl
  -- the target agrees with the patched source on every word of that walk
  have hagree : ∀ v ∈ (t.clearNxAt t.leaf.addr).path,
      (S.clearBit (8 * t.leaf.addr + 63)).word v.addr = some v.entry →
        T'.word v.addr = some v.entry := by
    intro v hv hw
    rw [Mapped.path_clearNxAt] at hv
    obtain ⟨u, hu, rfl⟩ := List.mem_map.1 hv
    rw [Visit.addr_clearNxAt] at hw ⊢
    have hle := Image.word_eq_some_le hw
    obtain ⟨-, -, halign'⟩ := hpath u hu
    refine Image.word_congr hw hle fun j hj => ?_
    have hhole' := not_inHole_of_dvd halign' (hhole u hu) hj
    have hflag' : ¬InFlag ((8 * u.addr + j) / 8) := fun h =>
      hhole' ⟨by have := h.1; omega, by have := h.2; omega⟩
    have hne : 8 * u.addr + j ≠ 8 * tssDescAddr + 41 := by
      have htss' := htss u hu
      have haligned : 8 ∣ tssDescAddr := by decide
      omega
    rw [Image.bit, hbyte _ (by omega), if_neg hflag', if_neg hhole', ← Image.bit,
      Image.bit_clearBit, decide_eq_true hne, Bool.and_true]
  refine ⟨T', hT', t.clearNxAt t.leaf.addr, walkFrom_congr hwalk₁ hagree, hlevel,
    Mapped.translation_clearNxAt _ _ t, ?_⟩
  refine Mapped.noExecute_eq_false.1 ((Mapped.noExecute_clearNxAt _ t).2 fun v hv hv' => ?_)
  rcases List.mem_append.1 hv with hv | hv
  · exact absurd (hnx v hv) (by rw [hv']; decide)
  · rw [List.mem_singleton.1 hv]

theorem migrate_executable_fourTables :
    ∃ T', migrate default 0x0 0x0
        (fourTables GB 0x1067 0x2067 0x3067 0x8000000000004063) (fun _ => 0) = some T' ∧
      ∃ t', walk (Cpu.ofWidth 46) T' 0 0 = .ok t' ∧ t'.level = 0 ∧
        t'.translation 0 = (⟨[⟨0, 0x1067⟩, ⟨0x1000, 0x2067⟩, ⟨0x2000, 0x3067⟩],
          ⟨0x3000, 0x8000000000004063⟩, 0⟩ : Mapped).translation 0 ∧
        ∀ v ∈ t'.path, Paging.noExecute v.entry = false :=
  migrate_executable (Cpu.ofWidth 46) default _ _ (by decide)
    (t := ⟨[⟨0, 0x1067⟩, ⟨0x1000, 0x2067⟩, ⟨0x2000, 0x3067⟩], ⟨0x3000, 0x8000000000004063⟩, 0⟩)
    (by decide +kernel) rfl (by decide) (by decide) (by decide)

end Snapshot

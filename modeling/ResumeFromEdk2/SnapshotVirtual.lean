/-
**The address space after the restore.**

The target runs on the page tables of the source, which were copied with the rest of the memory,
patched in one entry and cut around three pages.  What the restored machine sees through these
tables is decided by the entries and by the pages that they point to.  This module shows that every
address whose page-table entries were copied is mapped as before, that no further address is, and
that what is read through the mapping is what the source would have read.

Main definitions:

* `Snapshot.Survives` — the entries of a walk lie outside of what the snapshot leaves out;
* `Snapshot.Maps` — an address is mapped, by such entries;
* `Snapshot.load` — reading a byte through page tables.

Main results:

* `Snapshot.word_restored` — the words outside of the three pages on the target;
* `Snapshot.maps_restored_iff` — **the target maps what the source maps, and maps it alike**;
* `Snapshot.migrate_virtual` — the same for a whole migration, with the right to execute and the
  bytes that are read.
-/

import ResumeFromEdk2.SnapshotMemory

set_option relaxedAutoImplicit false
set_option autoImplicit false

namespace Snapshot

open BitField ByteImage Paging MemDump

/-! ### Walks through copied entries -/

/-- **The entries of a walk survive**: none lies in the three pages that are left out, and none is
the TSS descriptor. -/
def Survives (t : Mapped) : Prop := ∀ v ∈ t.path, ¬InHole v.addr ∧ v.addr ≠ tssDescAddr

/-- The address is mapped, by entries that survive, with the given translation. -/
def Maps (cpu : Cpu) (m : Image GB) (root va : ℕ) (tr : Translation) : Prop :=
  ∃ t, walk cpu m root va = .ok t ∧ Survives t ∧ t.translation va = tr

/-- **Reading the byte at a virtual address**: nothing is read where it is not mapped, or mapped to
no memory. -/
def load (cpu : Cpu) (m : Image GB) (root va : ℕ) : Option (BitVec 8) :=
  match walk cpu m root va with
  | .error _ => none
  | .ok t => if t.pa va < GB then some (m.byte (t.pa va)) else none

theorem load_of_maps {cpu : Cpu} {m : Image GB} {root va : ℕ} {tr : Translation}
    (h : Maps cpu m root va tr) :
    load cpu m root va = if tr.pa < GB then some (m.byte tr.pa) else none := by
  obtain ⟨t, hwalk, -, rfl⟩ := h
  rw [load, hwalk]
  rfl

theorem Survives.clearNxAt {t : Mapped} {p : ℕ} : Survives (t.clearNxAt p) ↔ Survives t := by
  rw [Survives, Survives, Mapped.path_clearNxAt]
  simp only [List.forall_mem_map, Visit.addr_clearNxAt]

/-- Patching does not forbid anything. -/
theorem noExecute_clearNxAt_of_false {t : Mapped} (p : ℕ) (h : t.noExecute = false) :
    (t.clearNxAt p).noExecute = false :=
  (Mapped.noExecute_clearNxAt p t).2 fun v hv hnx =>
    absurd (Mapped.noExecute_eq_false.1 h v hv) (by rw [hnx]; decide)

section Patch

variable {cpu : Cpu} {physmem : MapAddr} {cr3 virtAddr : BitVec 64} {m m' : Image GB} {rc : ℤ}
variable {root va : ℕ}

/-- **The walks after the patch** are the walks before, but for the no-execute bit of one entry. -/
theorem walk_clearPageNXFlag (cpu : Cpu) (va : ℕ)
    (h : clearPageNXFlag physmem cr3 virtAddr m = some (rc, m')) (hroot : 8 ∣ root) :
    walk cpu m' root va = walk cpu m root va ∨
      ∃ p, walk cpu m' root va = (walk cpu m root va).map (Mapped.clearNxAt p) := by
  rcases clearPageNXFlag_cases h with ⟨-, rfl, -⟩ | ⟨-, p, -, hp, -, rfl⟩
  · exact .inl rfl
  · exact .inr ⟨p, walk_clearBit hp hroot va⟩

/-- The patch keeps every mapping, and adds none. -/
theorem maps_clearPageNXFlag_iff (h : clearPageNXFlag physmem cr3 virtAddr m = some (rc, m'))
    (hroot : 8 ∣ root) (tr : Translation) : Maps cpu m' root va tr ↔ Maps cpu m root va tr := by
  rcases walk_clearPageNXFlag cpu va h hroot with heq | ⟨p, heq⟩
  · rw [Maps, Maps, heq]
  · rw [Maps, Maps, heq]
    constructor
    · rintro ⟨t', ht', hsurvives, htr⟩
      cases hwalk : walk cpu m root va with
      | error f =>
          rw [hwalk] at ht'
          cases ht'
      | ok t =>
          rw [hwalk] at ht'
          obtain rfl : t.clearNxAt p = t' := Except.ok.inj ht'
          exact ⟨t, rfl, Survives.clearNxAt.1 hsurvives,
            by rw [← htr, Mapped.translation_clearNxAt]⟩
    · rintro ⟨t, ht, hsurvives, htr⟩
      rw [ht]
      exact ⟨t.clearNxAt p, rfl, Survives.clearNxAt.2 hsurvives,
        by rw [Mapped.translation_clearNxAt, htr]⟩

theorem executable_clearPageNXFlag (h : clearPageNXFlag physmem cr3 virtAddr m = some (rc, m'))
    (hroot : 8 ∣ root) {t : Mapped} (hwalk : walk cpu m root va = .ok t) (hsurvives : Survives t)
    (hnx : t.noExecute = false) :
    ∃ t', walk cpu m' root va = .ok t' ∧ Survives t' ∧ t'.noExecute = false := by
  rcases walk_clearPageNXFlag cpu va h hroot with heq | ⟨p, heq⟩
  · exact ⟨t, heq.trans hwalk, hsurvives, hnx⟩
  · exact ⟨t.clearNxAt p, by rw [heq, hwalk]; rfl, Survives.clearNxAt.2 hsurvives,
      noExecute_clearNxAt_of_false p hnx⟩

end Patch

/-! ### The restored memory -/

section Restored

variable {cpu : Cpu} {P T T' m : Image GB} {root va : ℕ}

/-- **The memory of the target**, when the patched dump is `P`. -/
def Restored (P T T' : Image GB) : Prop :=
  ∀ a < GB, T'.byte a = if InFlag a then 0x3c else if InHole a then T.byte a else P.byte a

/-- **The words outside of the three pages** are those of the dump, before its TSS descriptor was
patched, but for that descriptor. -/
theorem word_restored (h : Restored (m.clearBit (8 * tssDescAddr + 41)) T T') {a : ℕ} (ha : 8 ∣ a)
    (hhole : ¬InHole a) (htss : a ≠ tssDescAddr) : T'.word a = m.word a := by
  rcases Nat.lt_or_ge GB (a + 8) with hlt | hle
  · rw [(Image.word_eq_none_iff _ _).2 hlt, (Image.word_eq_none_iff _ _).2 hlt]
  · obtain ⟨w, hw⟩ := Image.word_of_le m hle
    rw [hw]
    refine Image.word_congr hw hle fun j hj => ?_
    have hhole' := not_inHole_of_dvd ha hhole hj
    have hflag : ¬InFlag ((8 * a + j) / 8) := fun h =>
      hhole' ⟨by have := h.1; omega, by have := h.2; omega⟩
    have hne : 8 * a + j ≠ 8 * tssDescAddr + 41 := by
      have haligned : 8 ∣ tssDescAddr := by decide
      omega
    rw [Image.bit, h _ (by omega), if_neg hflag, if_neg hhole', ← Image.bit, Image.bit_clearBit,
      decide_eq_true hne, Bool.and_true]

/-- A walk through entries that survive is the same walk on the target. -/
theorem walk_restored_iff (h : Restored (m.clearBit (8 * tssDescAddr + 41)) T T') (hroot : 8 ∣ root)
    {t : Mapped} (hsurvives : Survives t) :
    walk cpu T' root va = .ok t ↔ walk cpu m root va = .ok t := by
  constructor
  · intro hwalk
    refine walkFrom_congr hwalk fun v hv hw => ?_
    obtain ⟨hhole, htss⟩ := hsurvives v hv
    rwa [← word_restored h (walkFrom_mem_path hroot hwalk v hv).2.2 hhole htss]
  · intro hwalk
    refine walkFrom_congr hwalk fun v hv hw => ?_
    obtain ⟨hhole, htss⟩ := hsurvives v hv
    rwa [word_restored h (walkFrom_mem_path hroot hwalk v hv).2.2 hhole htss]

/-- **The target maps what the source maps, and maps it alike.** -/
theorem maps_restored_iff (h : Restored (m.clearBit (8 * tssDescAddr + 41)) T T') (hroot : 8 ∣ root)
    (tr : Translation) : Maps cpu T' root va tr ↔ Maps cpu m root va tr := by
  constructor
  · rintro ⟨t, hwalk, hsurvives, htr⟩
    exact ⟨t, (walk_restored_iff h hroot hsurvives).1 hwalk, hsurvives, htr⟩
  · rintro ⟨t, hwalk, hsurvives, htr⟩
    exact ⟨t, (walk_restored_iff h hroot hsurvives).2 hwalk, hsurvives, htr⟩

end Restored

/-! ### The migration -/

/-- A migration, in terms of the patched dump. -/
theorem exists_migrate {physmem : MapAddr} {cr3 virtAddr : BitVec 64} {S m : Image GB} {rc : ℤ}
    (hclear : clearPageNXFlag physmem cr3 virtAddr S = some (rc, m)) (T : Image GB) :
    ∃ T', migrate physmem cr3 virtAddr S T = some T' ∧
      Restored (m.clearBit (8 * tssDescAddr + 41)) T T' :=
  migrate_byte (modifyMemDump_eq_returned.2 ⟨tssDescAddr_fits, m, hclear, rfl⟩) T

/-- A byte that the patch does not touch. -/
theorem byte_modifyMemDump {physmem : MapAddr} {cr3 virtAddr : BitVec 64} {S P : Image GB} {rc : ℤ}
    (hpatch : modifyMemDump physmem cr3 virtAddr S = .returned rc P) {a : ℕ}
    (ha : ∀ b ∈ patchedBits S cr3.toNat virtAddr.toNat, b / 8 ≠ a) : P.byte a = S.byte a := by
  refine Image.byte_eq_of_bit fun k hk => ?_
  have hb : 8 * a + k ∉ patchedBits S cr3.toNat virtAddr.toNat := fun h =>
    ha _ h (by omega)
  rw [bit_modifyMemDump hpatch, decide_eq_true hb, Bool.and_true]

/-- **The address space of the source arrives on the target.**  Under every page table, and whatever
address was patched: the target maps an address by entries that survive if and only if the source
does, with the same physical address, page size and rights; an address that could be executed on the
source can be executed on the target; and reading an address gives the byte that the source would
have read, unless that byte lies in the three pages or is one of those that are patched. -/
theorem migrate_virtual (cpu : Cpu) (physmem : MapAddr) (cr3 virtAddr : BitVec 64) (S T : Image GB)
    (hpatch : (clearPageNXFlag physmem cr3 virtAddr S).isSome = true) :
    ∃ T', migrate physmem cr3 virtAddr S T = some T' ∧ ∀ root va, 8 ∣ root →
      (∀ tr, Maps cpu T' root va tr ↔ Maps cpu S root va tr) ∧
      (∀ t, walk cpu S root va = .ok t → Survives t → t.noExecute = false →
        Executable cpu T' root va) ∧
      ∀ tr, Maps cpu S root va tr → ¬InHole tr.pa →
        (∀ b ∈ patchedBits S cr3.toNat virtAddr.toNat, b / 8 ≠ tr.pa) →
          load cpu T' root va = load cpu S root va := by
  obtain ⟨⟨rc, m⟩, hclear⟩ := Option.isSome_iff_exists.1 hpatch
  obtain ⟨T', hT', hrestored⟩ := exists_migrate hclear T
  have hmaps : ∀ root va, 8 ∣ root → ∀ tr, Maps cpu T' root va tr ↔ Maps cpu S root va tr :=
    fun root va hroot tr =>
      (maps_restored_iff hrestored hroot tr).trans (maps_clearPageNXFlag_iff hclear hroot tr)
  refine ⟨T', hT', fun root va hroot => ⟨hmaps root va hroot, fun t hwalk hsurvives hnx => ?_,
    fun tr htr hhole hbits => ?_⟩⟩
  · obtain ⟨t', hwalk', hsurvives', hnx'⟩ :=
      executable_clearPageNXFlag hclear hroot hwalk hsurvives hnx
    exact ⟨t', (walk_restored_iff hrestored hroot hsurvives').2 hwalk', hnx'⟩
  · have hflag : ¬InFlag tr.pa := fun h => hhole ⟨by have := h.1; omega, by have := h.2; omega⟩
    rw [load_of_maps ((hmaps root va hroot tr).2 htr), load_of_maps htr]
    by_cases hlt : tr.pa < GB
    · rw [if_pos hlt, if_pos hlt, hrestored _ hlt, if_neg hflag, if_neg hhole,
        byte_modifyMemDump (modifyMemDump_eq_returned.2 ⟨tssDescAddr_fits, m, hclear, rfl⟩) hbits]
    · rw [if_neg hlt, if_neg hlt]

theorem migrate_virtual_fourTables :
    ∃ T', migrate default 0x0 0x0
        (fourTables GB 0x1067 0x2067 0x3067 0x8000000000004063) (fun _ => 0) = some T' ∧
      ∀ root va, 8 ∣ root →
        (∀ tr, Maps (Cpu.ofWidth 46) T' root va tr ↔
          Maps (Cpu.ofWidth 46) (fourTables GB 0x1067 0x2067 0x3067 0x8000000000004063) root va
            tr) ∧
        (∀ t, walk (Cpu.ofWidth 46) (fourTables GB 0x1067 0x2067 0x3067 0x8000000000004063) root
            va = .ok t →
          Survives t → t.noExecute = false → Executable (Cpu.ofWidth 46) T' root va) ∧
        ∀ tr, Maps (Cpu.ofWidth 46) (fourTables GB 0x1067 0x2067 0x3067 0x8000000000004063) root va
            tr → ¬InHole tr.pa →
          (∀ b ∈ patchedBits (fourTables GB 0x1067 0x2067 0x3067 0x8000000000004063) 0 0,
            b / 8 ≠ tr.pa) →
          load (Cpu.ofWidth 46) T' root va =
            load (Cpu.ofWidth 46) (fourTables GB 0x1067 0x2067 0x3067 0x8000000000004063) root va :=
  migrate_virtual (Cpu.ofWidth 46) default 0x0 0x0 _ _ (by decide +kernel)

end Snapshot

/-
**The patch of a dump as a whole.**

`modify_mem_dump` calls `ClearPageNXFlag` with whatever value of CR3 it is given, prints the code
that it gets back, and clears bit 41 of the TSS descriptor in any case.  `main` returns `0` after
that.  So two things depend on the input that should not.  The flag bits of CR3 are taken for bits
of the address of the root table, although the macro that strips them is there; and a walk that
fails leaves a dump that is patched in part, under the exit status of a success, unless the dump
ends before the descriptor, so that the program is killed before it patches anything.

Main definitions:

* `MemDump.tssDescAddr` — the address of the TSS descriptor;
* `MemDump.FailureIsVisible` — a walk that fails leaves the dump as it is and the exit status says
  so.

Main results:

* `MemDump.modifyMemDump_eq` — the program in terms of `ClearPageNXFlag`;
* `MemDump.failureIsVisible_iff` — failures are visible exactly where there are none, and where the
  dump ends before the descriptor;
* `MemDump.exists_modifyMemDump_ne` — a flag bit matters on a dump of any size that has room for the
  root table and for the descriptor;
* `MemDump.modifyMemDump_cr3_iff` — **the flag bits of CR3 do not matter exactly when they are
  clear**.
-/

import ResumeFromEdk2.MemDumpNx

set_option relaxedAutoImplicit false
set_option autoImplicit false

namespace MemDump

open BitField ByteImage Paging

variable {n : ℕ}

/-! ### The program in terms of `ClearPageNXFlag` -/

/-- The address of the TSS descriptor in the dump. -/
def tssDescAddr : ℕ := 0x3d00b040

/-- The patch of the TSS descriptor. -/
def clearTssBusy (m : Image n) : Option (Image n) :=
  if tssDescAddr + 8 ≤ n then some (m.clearBit (8 * tssDescAddr + 41)) else none

theorem toNat_tssDesc : (gdtPhysAddr + tssOffset).toNat = tssDescAddr := by decide

theorem patchTssDesc_eq (physmem : BitVec 64) (m : Image n) :
    patchTssDesc physmem m = clearTssBusy m := by
  rw [patchTssDesc, BitVec.add_assoc, load_add, toNat_tssDesc, clearTssBusy]
  cases hw : m.word tssDescAddr with
  | none =>
      have hlt := (Image.word_eq_none_iff m tssDescAddr).1 hw
      rw [if_neg (Nat.not_le.2 hlt)]
      rfl
  | some w =>
      have hword : m.word (gdtPhysAddr + tssOffset).toNat = some w := by rw [toNat_tssDesc, hw]
      have hstore := store_add_clearBit physmem hword 41 (by norm_num)
      rw [toNat_tssDesc, clearBitOf] at hstore
      rw [if_pos (Image.word_eq_some_le hw), Option.bind_eq_bind, Option.bind_some, hstore]

section Run

variable {physmem : MapAddr} {cr3 va : BitVec 64} {m m' : Image n} {rc : ℤ}

/-- A walk that leaves the mapping ends the program. -/
theorem modifyMemDump_of_none (h : clearPageNXFlag physmem cr3 va m = none) :
    modifyMemDump physmem cr3 va m = .killed m := by
  rw [modifyMemDump, h]

/-- **After the walk the descriptor is patched**, if it is mapped. -/
theorem modifyMemDump_of_some (h : clearPageNXFlag physmem cr3 va m = some (rc, m')) :
    modifyMemDump physmem cr3 va m =
      if tssDescAddr + 8 ≤ n then .returned rc (m'.clearBit (8 * tssDescAddr + 41))
      else .killed m' := by
  rw [modifyMemDump, h]
  dsimp only
  rw [patchTssDesc_eq, clearTssBusy]
  by_cases hle : tssDescAddr + 8 ≤ n
  · rw [if_pos hle, if_pos hle, Option.elim_some]
  · rw [if_neg hle, if_neg hle, Option.elim_none]

/-- **What a run that returns has done.** -/
theorem modifyMemDump_eq_returned :
    modifyMemDump physmem cr3 va m = .returned rc m' ↔
      tssDescAddr + 8 ≤ n ∧ ∃ m₁, clearPageNXFlag physmem cr3 va m = some (rc, m₁) ∧
        m' = m₁.clearBit (8 * tssDescAddr + 41) := by
  constructor
  · intro h
    cases hclear : clearPageNXFlag physmem cr3 va m with
    | none =>
        rw [modifyMemDump_of_none hclear] at h
        cases h
    | some r =>
        obtain ⟨rc', m₁⟩ := r
        rw [modifyMemDump_of_some hclear] at h
        by_cases hle : tssDescAddr + 8 ≤ n
        · rw [if_pos hle] at h
          cases h
          exact ⟨hle, m₁, rfl, rfl⟩
        · rw [if_neg hle] at h
          cases h
  · rintro ⟨hle, m₁, hclear, rfl⟩
    rw [modifyMemDump_of_some hclear, if_pos hle]

end Run

/-! ### Failures -/

section Main

variable {physmem : MapAddr} {prog file cr3 va : List Char} {m : Image n} {rc : ℤ}

/-- The program on a dump that can be opened. -/
theorem main_eq (physmem : MapAddr) (prog file cr3 va : List Char) (m : Image n) :
    main physmem [prog, file, cr3, va] (some m) =
      match modifyMemDump physmem (strtoul cr3) (strtoul va) (mapFile m) with
      | .returned _ m' => (.exited 0, some (m'.resize n))
      | .killed m' => (.killed, some (m'.resize n)) := rfl

end Main

/-- The bits of CR3 that do not belong to the address of the root table. -/
def cr3Flags : BitVec 64 := ~~~cr3AddrMask

theorem cr3ToPgtPa_eq_self_iff (cr3 : BitVec 64) :
    cr3ToPgtPa cr3 = cr3 ↔ cr3 &&& cr3Flags = 0 := by
  have hor : cr3ToPgtPa cr3 ||| (cr3 &&& cr3Flags) = cr3 := by
    refine BitVec.eq_of_getLsbD_eq fun i hi => ?_
    simp only [cr3ToPgtPa, cr3Flags, BitVec.getLsbD_or, BitVec.getLsbD_and, BitVec.getLsbD_not, hi]
    cases cr3.getLsbD i <;> cases cr3AddrMask.getLsbD i <;> rfl
  constructor
  · intro h
    rw [← h, cr3ToPgtPa, BitVec.and_assoc, cr3Flags]
    have hzero : cr3AddrMask &&& ~~~cr3AddrMask = 0 := by decide
    rw [hzero]
    exact BitVec.and_zero
  · intro h
    rw [h] at hor
    exact (BitVec.or_zero ▸ hor :)

/-- The image in which exactly one bit is set, the lowest one of the byte at `a`. -/
def oneBit (n a : ℕ) : Image n := fun i => if i = a then 1 else 0

theorem bit_oneBit {a : ℕ} (ha : a < n) (b : ℕ) : (oneBit n a).bit b = decide (b = 8 * a) := by
  rcases Nat.lt_or_ge (b / 8) n with hb | hb
  · rw [Image.bit, Image.byte_of_lt _ hb, oneBit]
    by_cases hba : b / 8 = a
    · have hiff : b % 8 = 0 ↔ b = 8 * a := by omega
      simp [hba, hiff]
    · have hne : b ≠ 8 * a := by omega
      simp [hba, hne]
  · have hne : b ≠ 8 * a := by omega
    simp [Image.bit, Image.byte_of_ge _ hb, hne]

/-- **Two different words of an image can be told apart**: there is an image in which one is zero
and the other is not, also if they overlap. -/
theorem exists_image_word {a b : ℕ} (ha : a + 8 ≤ n) (hb : b + 8 ≤ n) (hne : a ≠ b) :
    ∃ m : Image n, (∃ e, m.word a = some e ∧ e ≠ 0) ∧ m.word b = some 0 := by
  -- a byte of the one word that is not a byte of the other
  obtain ⟨x, hax, hxa, hxb⟩ : ∃ x, a ≤ x ∧ x < a + 8 ∧ (x < b ∨ b + 8 ≤ x) := by
    by_cases h : b < a ∧ a < b + 8
    · exact ⟨a + 7, by omega, by omega, by omega⟩
    · exact ⟨a, by omega, by omega, by omega⟩
  have hx : x < n := by omega
  refine ⟨oneBit n x, ?_, ?_⟩
  · obtain ⟨e, he⟩ := Image.word_of_le (oneBit n x) ha
    refine ⟨e, he, ?_⟩
    rintro rfl
    have hbit := Image.getLsbD_word he (j := 8 * (x - a)) (by omega)
    have hidx : 8 * a + 8 * (x - a) = 8 * x := by omega
    rw [bit_oneBit hx, hidx, decide_eq_true rfl] at hbit
    simp at hbit
  · refine Image.word_eq_some_of_bit hb fun j hj => ?_
    have hne' : 8 * b + j ≠ 8 * x := by omega
    simp [bit_oneBit hx, hne']

/-- A walk that passes its root entry does not return `-1`. -/
theorem modifyMemDump_rc_ne {physmem : MapAddr} {cr3 va : BitVec 64} {m m' : Image n}
    {e : BitVec 64} (he : m.word (entryAddr 3 cr3.toNat va.toNat % 2 ^ 64) = some e) (h0 : e ≠ 0) :
    modifyMemDump physmem cr3 va m ≠ .returned (-1) m' := by
  intro h
  obtain ⟨-, m₁, hclear, -⟩ := modifyMemDump_eq_returned.1 h
  rcases clearPageNXFlag_cases hclear with ⟨-, -, hend⟩ | ⟨hrc, -⟩
  · rw [walkEnd, descend_succ he, if_neg h0] at hend
    exact absurd (descend_stopped hend).1 (by decide)
  · exact absurd hrc (by decide)

/-- **A flag bit of CR3 matters** on a dump of any size that has room for the TSS descriptor and for
the root table: the entry that the processor reads is zero, and the one that the program reads is
not, or lies outside of the dump.  A file can be mapped up to a size of less than `2 ^ 47` bytes, so
for a root table from there on no file tells the two values apart. -/
theorem exists_modifyMemDump_ne (physmem : MapAddr) {cr3 : BitVec 64} (va : BitVec 64)
    (hne : cr3ToPgtPa cr3 ≠ cr3) (htss : tssDescAddr + 8 ≤ n)
    (hroot : (cr3ToPgtPa cr3).toNat + 4096 ≤ n) :
    ∃ m : Image n,
      modifyMemDump physmem cr3 va m ≠ modifyMemDump physmem (cr3ToPgtPa cr3) va m := by
  -- the addresses of the two root entries differ
  have haddr : entryAddr 3 cr3.toNat va.toNat % 2 ^ 64 ≠
      entryAddr 3 (cr3ToPgtPa cr3).toNat va.toNat % 2 ^ 64 := by
    rw [← toNat_rootEntry, ← toNat_rootEntry]
    exact fun heq => hne ((BitVec.add_left_inj _).1 (BitVec.eq_of_toNat_eq heq)).symm
  have hfits : entryAddr 3 (cr3ToPgtPa cr3).toNat va.toNat % 2 ^ 64 + 8 ≤ n := by
    have hlt : index 3 va.toNat < 512 := Nat.mod_lt _ (by norm_num)
    have hmod := Nat.mod_le (entryAddr 3 (cr3ToPgtPa cr3).toNat va.toNat) (2 ^ 64)
    rw [entryAddr] at hmod ⊢
    omega
  have hreturned : ∀ m : Image n,
      m.word (entryAddr 3 (cr3ToPgtPa cr3).toNat va.toNat % 2 ^ 64) = some 0 →
      modifyMemDump physmem (cr3ToPgtPa cr3) va m =
        .returned (-1) (m.clearBit (8 * tssDescAddr + 41)) := by
    intro m hzero
    refine modifyMemDump_eq_returned.2 ⟨htss, m, ?_, rfl⟩
    rw [clearPageNXFlag_eq, walkEnd, descend_succ hzero, if_pos rfl]
    rfl
  by_cases hin : entryAddr 3 cr3.toNat va.toNat % 2 ^ 64 + 8 ≤ n
  · obtain ⟨m, ⟨e, he, h0⟩, hzero⟩ := exists_image_word hin hfits haddr
    exact ⟨m, fun heq => modifyMemDump_rc_ne he h0 (heq.trans (hreturned m hzero))⟩
  · -- the program reads outside of the dump
    refine ⟨fun _ => 0, fun heq => ?_⟩
    have hzero : Image.word (n := n) (fun _ => 0)
        (entryAddr 3 (cr3ToPgtPa cr3).toNat va.toNat % 2 ^ 64) = some 0 :=
      Image.word_eq_some_of_bit hfits fun j _ => by simp [Image.bit, Image.byte]
    rw [hreturned _ hzero] at heq
    obtain ⟨-, m₁, hclear, -⟩ := modifyMemDump_eq_returned.1 heq
    have hnone := (Image.word_eq_none_iff (n := n) (fun _ => 0) _).2 (Nat.lt_of_not_le hin)
    rw [clearPageNXFlag_eq, walkEnd, descend_succ_none hnone] at hclear
    cases hclear

/-- **The flag bits of CR3 do not matter exactly when they are clear**: on every dump the program
does the same with CR3 as with the address of the root table in it, if and only if no flag bit of
CR3 is set. -/
theorem modifyMemDump_cr3_iff (physmem : MapAddr) (cr3 va : BitVec 64) :
    (∀ (n : ℕ) (m : Image n),
        modifyMemDump physmem cr3 va m = modifyMemDump physmem (cr3ToPgtPa cr3) va m) ↔
      cr3 &&& cr3Flags = 0 := by
  rw [← cr3ToPgtPa_eq_self_iff]
  constructor
  · intro h
    by_contra hne
    obtain ⟨m, hm⟩ := exists_modifyMemDump_ne
      (n := tssDescAddr + 8 + ((cr3ToPgtPa cr3).toNat + 4096)) physmem va hne
      (Nat.le_add_right _ _) (Nat.le_add_left _ _)
    exact hm (h _ m)
  · intro h n m
    rw [h]

/-- With the write-through bit of CR3 set, the walk starts at the second entry of the root
table. -/
theorem modifyMemDump_cr3_writeThrough :
    modifyMemDump default 0x2008 0
        (Image.ofWords 0x40000000 [(0x2000, 0x3067), (0x3000, 0x4067), (0x4000, 0x5067),
          (0x5000, 0x8000000000006063)]) ≠
      modifyMemDump default (cr3ToPgtPa 0x2008) 0
        (Image.ofWords 0x40000000 [(0x2000, 0x3067), (0x3000, 0x4067), (0x4000, 0x5067),
          (0x5000, 0x8000000000006063)]) := by
  intro h
  have hcode := congrArg (fun e : Ended 0x40000000 => match e with
    | .returned rc _ => some rc
    | .killed _ => none) h
  exact absurd hcode (by decide +kernel)

end MemDump

/-
**The software walk of `ClearPageNXFlag`.**

`ClearPageNXFlag` computes pointers with shifts, masks and sign extensions and follows them.  This
module says what it does in terms of the walk alone: it reads an entry at each of the levels 3, 2
and 1, gives up where the entry is zero, and otherwise goes on in the table that the entry names.
It ends at the address of an entry of level 0, whose bit 63 it clears.

The walk differs from the one of the processor in two points.  The only entry that stops it is the
zero entry, and an entry that maps a large page is taken for a table at the start of that page.

Main definitions:

* `MemDump.tableOf` — where an entry says that the next table is;
* `MemDump.walkEnd` — **the end of the software walk**: a return code or the address of an entry;
* `MemDump.StopsAtZero` — the walk reads a zero entry.

Main results:

* `MemDump.clearPageNXFlag_eq` — **the program in terms of its walk**; all later results about the
  program rest on this one;
* `MemDump.clearPageNXFlag_cases` — what a run of the program can do;
* `MemDump.clearPageNXFlag_stopped_iff` — the code is not `0` exactly when the walk reads a zero
  entry;
* `MemDump.descend_of_walkFrom` — the software walk passes through the entry at which the walk of
  the processor ends.
-/

import ResumeFromEdk2.MemDump
import ResumeFromEdk2.PagingWalk

set_option relaxedAutoImplicit false
set_option autoImplicit false

namespace MemDump

open BitField ByteImage Paging

variable {n : ℕ}

/-! ### The end of the walk -/

/-- Where an entry says that the next table is.  At a large page the alignment is that of the
page. -/
def tableOf (l : ℕ) (e : BitVec 64) : ℕ := frame (if isLarge l e then shift l else 12) e

/-- How the walk ends: with a return code, or at an entry of level 0. -/
inductive WalkEnd
  | stopped (rc : ℤ)
  | entry (addr : ℕ)
  deriving DecidableEq

/-- The walk from an entry of the given level. -/
def descend (m : Image n) (va : ℕ) : ℕ → ℕ → Option WalkEnd
  | 0, a => some (.entry a)
  | l + 1, a => do
      let e ← m.word a
      if e = 0 then return .stopped (l - 3) else descend m va l (entryAddr l (tableOf (l + 1) e) va)

/-- **The end of the software walk**.  The address of the first entry is computed modulo `2 ^ 64`,
from whatever base is given. -/
def walkEnd (m : Image n) (base va : ℕ) : Option WalkEnd :=
  descend m va 3 (entryAddr 3 base va % 2 ^ 64)

/-- What the program does at the end of its walk. -/
def WalkEnd.finish (m : Image n) : WalkEnd → Option (ℤ × Image n)
  | .stopped rc => some (rc, m)
  | .entry p => if p + 8 ≤ n then some (0, m.clearBit (8 * p + 63)) else none

/-! ### Indices, masks and pointers -/

theorem toNat_pgdIndex (va : BitVec 64) : (pgdIndex va).toNat = index 3 va.toNat :=
  toNat_shiftRight_and va (entries - 1) pgdirShift 9 rfl

theorem toNat_pudIndex (va : BitVec 64) : (pudIndex va).toNat = index 2 va.toNat :=
  toNat_shiftRight_and va (entries - 1) pudShift 9 rfl

theorem toNat_pmdIndex (va : BitVec 64) : (pmdIndex va).toNat = index 1 va.toNat :=
  toNat_shiftRight_and va (entries - 1) pmdShift 9 rfl

theorem toNat_pteIndex (va : BitVec 64) : (pteIndex va).toNat = index 0 va.toNat :=
  toNat_shiftRight_and va (entries - 1) pageShift 9 rfl

theorem index_lt (l va : ℕ) : index l va < 512 := Nat.mod_lt _ (by norm_num)

theorem frame_lt (s : ℕ) (e : BitVec 64) : frame s e < 2 ^ 52 := field_lt s 52 e.toNat

theorem toNat_and_ptePfnMask (e : BitVec 64) : (e &&& ptePfnMask).toNat = frame 12 e :=
  toNat_and_mask e ptePfnMask 12 52 (by decide)

theorem and_pagePse_ne_zero (e : BitVec 64) : e &&& pagePse ≠ 0 ↔ ps e = true := by
  have hbit : ∀ i < 64, (e &&& pagePse).getLsbD i = (ps e && decide (i = 7)) := by
    intro i hi
    have hpse : pagePse.getLsbD i = decide (i = 7) := by
      revert i
      decide
    rw [BitVec.getLsbD_and, hpse]
    by_cases h : i = 7
    · simp [h, ps]
    · simp [h]
  constructor
  · intro h
    by_contra hps
    refine h (BitVec.eq_of_getLsbD_eq fun i hi => ?_)
    simp [hbit i hi, hps]
  · intro hps h
    have h7 := hbit 7 (by norm_num)
    rw [h, hps] at h7
    simp at h7

theorem toNat_pgdPageVaddr (e : BitVec 64) : (pgdPageVaddr e).toNat = tableOf 3 e :=
  toNat_and_ptePfnMask e

theorem toNat_pudPageVaddr (e : BitVec 64) : (pudPageVaddr e).toNat = tableOf 2 e := by
  unfold pudPageVaddr pudPfnMask tableOf isLarge
  by_cases h : ps e = true
  · rw [if_pos ((and_pagePse_ne_zero e).2 h)]
    simpa [h, frame, shift] using
      toNat_and_mask e physicalPudPageMask 30 52 (by decide)
  · rw [if_neg fun h' => h ((and_pagePse_ne_zero e).1 h')]
    simpa [h] using toNat_and_ptePfnMask e

theorem toNat_pmdPageVaddr (e : BitVec 64) : (pmdPageVaddr e).toNat = tableOf 1 e := by
  unfold pmdPageVaddr pmdPfnMask tableOf isLarge
  by_cases h : ps e = true
  · rw [if_pos ((and_pagePse_ne_zero e).2 h)]
    simpa [h, frame, shift] using
      toNat_and_mask e physicalPmdPageMask 21 52 (by decide)
  · rw [if_neg fun h' => h ((and_pagePse_ne_zero e).1 h')]
    simpa [h] using toNat_and_ptePfnMask e

/-- Index and table add up without overflow. -/
theorem toNat_tableEntry {v idx : BitVec 64} {l va : ℕ} {e : BitVec 64}
    (hv : v.toNat = tableOf (l + 1) e) (hidx : idx.toNat = index l va) :
    (v + 8 * idx).toNat = entryAddr l (tableOf (l + 1) e) va := by
  have h1 := index_lt l va
  have h2 : tableOf (l + 1) e < 2 ^ 52 := frame_lt _ e
  rw [entryAddr, BitVec.toNat_add, BitVec.toNat_mul, hv, hidx,
    show (8 : BitVec 64).toNat = 8 from rfl]
  omega

theorem toNat_rootEntry (base va : BitVec 64) :
    (base + 8 * pgdIndex va).toNat = entryAddr 3 base.toNat va.toNat % 2 ^ 64 := by
  have h1 := index_lt 3 va.toNat
  rw [entryAddr, BitVec.toNat_add, BitVec.toNat_mul, toNat_pgdIndex,
    show (8 : BitVec 64).toNat = 8 from rfl]
  omega

theorem add_sub_self (physmem x : BitVec 64) : physmem + x - physmem = x := by
  rw [BitVec.add_comm, BitVec.add_sub_cancel]

theorem load_add (physmem x : BitVec 64) (m : Image n) :
    load physmem m (physmem + x) = m.word x.toNat := by rw [load, add_sub_self]

/-- **Writing back a loaded word with one bit cleared.** -/
theorem store_add_clearBit (physmem : BitVec 64) {x w : BitVec 64} {m : Image n}
    (hw : m.word x.toNat = some w) (j : ℕ) (hj : j < 64) :
    store physmem m (physmem + x) (clearBitOf w j) = some (m.clearBit (8 * x.toNat + j)) := by
  rw [store, add_sub_self, if_pos (Image.word_eq_some_le hw), Image.setWord_clearBitOf hw j hj]

/-- No pointer into a table is null. -/
theorem MapAddr.add_ne_zero (physmem : MapAddr) {x : BitVec 64} (hx : x.toNat < 2 ^ 53) :
    physmem.ptr + x ≠ 0 := by
  intro h
  have hpos := physmem.ptr_pos
  have hlt := physmem.ptr_lt
  have hzero := congrArg BitVec.toNat h
  rw [BitVec.toNat_add, show (0 : BitVec 64).toNat = 0 from rfl] at hzero
  omega

/-! ### The program in terms of its walk -/

section Program

variable (physmem : MapAddr) (m : Image n)

theorem pudOffset_add {x e : BitVec 64} (va : BitVec 64) (he : m.word x.toNat = some e) :
    ∃ y : BitVec 64, pudOffset physmem.ptr m (physmem.ptr + x) va = some (physmem.ptr + y) ∧
      y.toNat = entryAddr 2 (tableOf 3 e) va.toNat := by
  refine ⟨pgdPageVaddr e + 8 * pudIndex va, ?_,
    toNat_tableEntry (toNat_pgdPageVaddr e) (toNat_pudIndex va)⟩
  rw [pudOffset, load_add, he, ← BitVec.add_assoc]
  rfl

theorem pmdOffset_add {x e : BitVec 64} (va : BitVec 64) (he : m.word x.toNat = some e) :
    ∃ y : BitVec 64, pmdOffset physmem.ptr m (physmem.ptr + x) va = some (physmem.ptr + y) ∧
      y.toNat = entryAddr 1 (tableOf 2 e) va.toNat := by
  refine ⟨pudPageVaddr e + 8 * pmdIndex va, ?_,
    toNat_tableEntry (toNat_pudPageVaddr e) (toNat_pmdIndex va)⟩
  rw [pmdOffset, load_add, he, ← BitVec.add_assoc]
  rfl

theorem pteOffsetKernel_add {x e : BitVec 64} (va : BitVec 64) (he : m.word x.toNat = some e) :
    ∃ y : BitVec 64, pteOffsetKernel physmem.ptr m (physmem.ptr + x) va = some (physmem.ptr + y) ∧
      y.toNat = entryAddr 0 (tableOf 1 e) va.toNat := by
  refine ⟨pmdPageVaddr e + 8 * pteIndex va, ?_,
    toNat_tableEntry (toNat_pmdPageVaddr e) (toNat_pteIndex va)⟩
  rw [pteOffsetKernel, load_add, he, ← BitVec.add_assoc]
  rfl

theorem and_not_pageNx (e : BitVec 64) : e &&& ~~~pageNx = clearBitOf e 63 := rfl

/-- The last step: the entry is read, its bit 63 is cleared, and it is written back. -/
theorem finish_entry {y : BitVec 64} :
    (do
      let m' ← store physmem.ptr m (physmem.ptr + y)
        ((← load physmem.ptr m (physmem.ptr + y)) &&& ~~~pageNx)
      return ((0 : ℤ), m')) = (WalkEnd.entry y.toNat).finish m := by
  rw [load_add]
  cases hw : m.word y.toNat with
  | none =>
      have hlt := (Image.word_eq_none_iff m y.toNat).1 hw
      have hnle : ¬y.toNat + 8 ≤ n := by omega
      simp [WalkEnd.finish, hnle]
  | some w =>
      simp [WalkEnd.finish, Image.word_eq_some_le hw, and_not_pageNx, store_add_clearBit _ hw]

/-- **The program in terms of its walk.** -/
theorem clearPageNXFlag_eq (pgdBase va : BitVec 64) :
    clearPageNXFlag physmem pgdBase va m =
      (walkEnd m pgdBase.toNat va.toNat).bind (WalkEnd.finish m) := by
  have hx := toNat_rootEntry pgdBase va
  unfold clearPageNXFlag walkEnd
  simp only [pgdOffsetPgd, BitVec.add_assoc, ← hx]
  generalize pgdBase + 8 * pgdIndex va = x
  rw [load_add, descend]
  cases he₃ : m.word x.toNat with
  | none => rfl
  | some e₃ =>
    by_cases h₃ : e₃ = 0
    · simp [h₃, pgdNone, WalkEnd.finish]
    obtain ⟨y, hpud, hy⟩ := pudOffset_add physmem m va he₃
    simp only [Option.bind_eq_bind, Option.bind_some, pgdNone, beq_iff_eq, h₃, if_false, hpud,
      load_add, descend, ← hy]
    cases he₂ : m.word y.toNat with
    | none => rfl
    | some e₂ =>
      by_cases h₂ : e₂ = 0
      · simp [h₂, pudNone, WalkEnd.finish]
      obtain ⟨z, hpmd, hz⟩ := pmdOffset_add physmem m va he₂
      simp only [Option.bind_some, pudNone, beq_iff_eq, h₂, if_false, hpmd, load_add, ← hz]
      cases he₁ : m.word z.toNat with
      | none => rfl
      | some e₁ =>
        by_cases h₁ : e₁ = 0
        · simp [h₁, pmdNone, WalkEnd.finish]
        obtain ⟨u, hpte, hu⟩ := pteOffsetKernel_add physmem m va he₁
        have hnull : physmem.ptr + u ≠ 0 := by
          refine physmem.add_ne_zero ?_
          have h1 := index_lt 0 va.toNat
          have h2 : tableOf 1 e₁ < 2 ^ 52 := frame_lt _ e₁
          rw [hu, entryAddr]
          omega
        simp only [Option.bind_some, pmdNone, beq_iff_eq, h₁, if_false, hpte, hnull, ← hu]
        exact finish_entry physmem m

end Program

/-! ### What a run of the program can do -/

/-- The walk from an entry of the given level reads a zero entry of level 1 or above. -/
def zeroOnWalk (m : Image n) (va : ℕ) : ℕ → ℕ → Bool
  | 0, _ => false
  | l + 1, a =>
      match m.word a with
      | none => false
      | some e => e == 0 || zeroOnWalk m va l (entryAddr l (tableOf (l + 1) e) va)

/-- **The software walk reads a zero entry** before it reaches an entry of level 0. -/
def StopsAtZero (m : Image n) (base va : ℕ) : Prop :=
  zeroOnWalk m va 3 (entryAddr 3 base va % 2 ^ 64) = true

section Runs

variable {m m' : Image n} {va : ℕ}

theorem descend_succ {l a : ℕ} {e : BitVec 64} (he : m.word a = some e) :
    descend m va (l + 1) a =
      if e = 0 then some (.stopped (l - 3))
      else descend m va l (entryAddr l (tableOf (l + 1) e) va) := by
  rw [descend, he]
  rfl

theorem descend_succ_none {l a : ℕ} (he : m.word a = none) : descend m va (l + 1) a = none := by
  rw [descend, he]
  rfl

/-- The code of a walk that stops tells the levels apart, and the walk has read a zero entry. -/
theorem descend_stopped {rc : ℤ} : ∀ {l a : ℕ}, descend m va l a = some (.stopped rc) →
    rc ≤ l - 4 ∧ zeroOnWalk m va l a = true := by
  intro l
  induction l with
  | zero => intro a h; simp [descend] at h
  | succ l ih =>
      intro a h
      cases he : m.word a with
      | none => rw [descend_succ_none he] at h; simp at h
      | some e =>
          rw [descend_succ he] at h
          simp only [zeroOnWalk, he]
          by_cases h0 : e = 0
          · have hrc : (l : ℤ) - 3 = rc := by simpa [h0] using h
            exact ⟨by push_cast; omega, by simp [h0]⟩
          · rw [if_neg h0] at h
            obtain ⟨hrc, hz⟩ := ih h
            exact ⟨by push_cast; omega, by simp [hz]⟩

/-- The code of a walk that stops is not `0`. -/
theorem walkEnd_stopped {base : ℕ} {rc : ℤ} (h : walkEnd m base va = some (.stopped rc)) :
    rc < 0 ∧ StopsAtZero m base va := by
  obtain ⟨hrc, hz⟩ := descend_stopped h
  exact ⟨by push_cast at hrc; omega, hz⟩

/-- A walk that reads a zero entry stops. -/
theorem descend_of_zeroOnWalk : ∀ {l a : ℕ}, zeroOnWalk m va l a = true →
    ∃ rc, descend m va l a = some (.stopped rc) := by
  intro l
  induction l with
  | zero => intro a h; simp [zeroOnWalk] at h
  | succ l ih =>
      intro a h
      cases he : m.word a with
      | none => simp [zeroOnWalk, he] at h
      | some e =>
          rw [descend_succ he]
          by_cases h0 : e = 0
          · exact ⟨l - 3, by rw [if_pos h0]⟩
          · rw [if_neg h0]
            simp only [zeroOnWalk, he, Bool.or_eq_true, beq_iff_eq] at h
            exact ih (h.resolve_left h0)

/-- The entry at which the walk ends is aligned. -/
theorem descend_entry_dvd {p : ℕ} : ∀ {l a : ℕ}, 0 < l ∨ 8 ∣ a →
    descend m va l a = some (.entry p) → 8 ∣ p := by
  intro l
  induction l with
  | zero =>
      intro a ha h
      obtain rfl : a = p := by simpa [descend] using h
      exact ha.resolve_left (lt_irrefl 0)
  | succ l ih =>
      intro a _ h
      cases he : m.word a with
      | none => rw [descend_succ_none he] at h; simp at h
      | some e =>
          rw [descend_succ he] at h
          by_cases h0 : e = 0
          · simp [h0] at h
          · rw [if_neg h0] at h
            refine ih (.inr (eight_dvd_entryAddr _ _ ?_)) h
            refine eight_dvd_frame ?_ e
            split
            · simp only [shift]; omega
            · norm_num

theorem walkEnd_entry_dvd {base p : ℕ} (h : walkEnd m base va = some (.entry p)) : 8 ∣ p :=
  descend_entry_dvd (.inl (by norm_num)) h

variable {physmem : MapAddr} {base a : BitVec 64} {rc : ℤ}

/-- **What a run of the program can do**: it returns a code other than `0` and leaves the dump as
it is, or it returns `0` and clears bit 63 of one aligned word of the dump. -/
theorem clearPageNXFlag_cases (h : clearPageNXFlag physmem base a m = some (rc, m')) :
    (rc ≠ 0 ∧ m' = m ∧ walkEnd m base.toNat a.toNat = some (.stopped rc)) ∨
      (rc = 0 ∧ ∃ p, walkEnd m base.toNat a.toNat = some (.entry p) ∧ 8 ∣ p ∧ p + 8 ≤ n ∧
        m' = m.clearBit (8 * p + 63)) := by
  rw [clearPageNXFlag_eq] at h
  cases hend : walkEnd m base.toNat a.toNat with
  | none => rw [hend] at h; simp at h
  | some w =>
      rw [hend, Option.bind_some] at h
      cases w with
      | stopped rc' =>
          obtain ⟨rfl, rfl⟩ : rc' = rc ∧ m = m' := by simpa [WalkEnd.finish] using h
          exact .inl ⟨(walkEnd_stopped hend).1.ne, rfl, rfl⟩
      | entry p =>
          by_cases hle : p + 8 ≤ n
          · obtain ⟨rfl, rfl⟩ : 0 = rc ∧ m.clearBit (8 * p + 63) = m' := by
              simpa [WalkEnd.finish, hle] using h
            exact .inr ⟨rfl, p, rfl, walkEnd_entry_dvd hend, hle, rfl⟩
          · simp [WalkEnd.finish, hle] at h

theorem clearPageNXFlag_of_entry (physmem : MapAddr) {p : ℕ}
    (hend : walkEnd m base.toNat a.toNat = some (.entry p)) (hle : p + 8 ≤ n) :
    clearPageNXFlag physmem base a m = some (0, m.clearBit (8 * p + 63)) := by
  rw [clearPageNXFlag_eq, hend, Option.bind_some, WalkEnd.finish, if_pos hle]

/-- **The code is not `0` exactly when the walk reads a zero entry.** -/
theorem clearPageNXFlag_stopped_iff :
    (∃ rc, rc ≠ 0 ∧ clearPageNXFlag physmem base a m = some (rc, m)) ↔
      StopsAtZero m base.toNat a.toNat := by
  constructor
  · rintro ⟨rc, hrc, h⟩
    rcases clearPageNXFlag_cases h with ⟨-, -, hend⟩ | ⟨h0, -⟩
    · exact (walkEnd_stopped hend).2
    · exact absurd h0 hrc
  · intro h
    obtain ⟨rc, hend⟩ := descend_of_zeroOnWalk h
    refine ⟨rc, (walkEnd_stopped hend).1.ne, ?_⟩
    rw [clearPageNXFlag_eq, walkEnd, hend, Option.bind_some, WalkEnd.finish]

end Runs

/-! ### The software walk and the walk of the processor -/

/-- A page-aligned value of CR3. -/
def PageAligned (cr3 : BitVec 64) : Prop := 4096 ∣ cr3.toNat

instance (cr3 : BitVec 64) : Decidable (PageAligned cr3) := inferInstanceAs (Decidable (_ ∣ _))

theorem PageAligned.eight_dvd {cr3 : BitVec 64} (h : PageAligned cr3) : 8 ∣ cr3.toNat :=
  dvd_trans (by norm_num) h

/-- **The software walk passes through the entry at which the walk of the processor ends**, and
goes on from there as if that entry named a table. -/
theorem descend_of_walkFrom {cpu : Cpu} {m : Image n} {va : ℕ} : ∀ {l table : ℕ} {t : Mapped},
    walkFrom cpu m va l table = .ok t →
      descend m va l (entryAddr l table va) = descend m va t.level t.leaf.addr := by
  intro l
  induction l with
  | zero =>
      intro table t h
      obtain ⟨e, -, rfl⟩ := walkFrom_zero_eq_ok.1 h
      rfl
  | succ l ih =>
      intro table t h
      obtain ⟨e, he, ⟨-, rfl⟩ | ⟨hl, t', ht', rfl⟩⟩ := walkFrom_succ_eq_ok.1 h
      · rfl
      · obtain ⟨hw, hp, -⟩ := readEntry_eq_ok.1 he
        have htab : tableOf (l + 1) e = frame 12 e := by
          rw [tableOf, hl, if_neg Bool.false_ne_true]
        rw [descend_succ hw, if_neg (present_ne_zero hp), htab]
        exact ih (t := t') ht'

/-- From a page-aligned CR3 no address wraps around. -/
theorem walkEnd_of_walk {cpu : Cpu} {m : Image n} {cr3 : BitVec 64} (hcr3 : PageAligned cr3)
    {va : ℕ} {t : Mapped} (h : walk cpu m cr3.toNat va = .ok t) :
    walkEnd m cr3.toNat va = descend m va t.level t.leaf.addr := by
  have hidx := index_lt 3 va
  have hlt := cr3.isLt
  have hmod : entryAddr 3 cr3.toNat va % 2 ^ 64 = entryAddr 3 cr3.toNat va := by
    refine Nat.mod_eq_of_lt ?_
    obtain ⟨k, hk⟩ := hcr3
    rw [entryAddr]
    omega
  rw [walkEnd, hmod, descend_of_walkFrom h]

end MemDump

/-
**The 4-level page-table walk of x86-64.**

With `EFER.NXE = 1` the processor translates a virtual address by reading one entry at each of
four levels, the last of which may be reached early at a large page.  This module states that walk
over a byte image of the physical memory.  A level is a number: `3` is the root table (PGD), `2`
and `1` are the levels at which an entry may map a page of 1 GiB or of 2 MiB (PUD, PMD), and `0` is
the level of the 4 KiB entries (PTE).

A walk that succeeds returns every entry it visited, so that the effective rights are read off the
visited entries: an access is writable, or a user access, when all of them allow it, and
instruction fetches are forbidden as soon as one of them carries the no-execute bit.

Which bits of an entry are reserved depends on the processor, most of all on the width of its
physical addresses.  The walk takes that as a parameter, of which it is only assumed that it does
not depend on bit 63, as is the case when `EFER.NXE = 1`.

Main definitions:

* `Paging.Cpu` — the reserved bits of a processor with `EFER.NXE = 1`;
* `Paging.walk` — **the walk**, from a root table at a given physical address;
* `Paging.translate` — the physical address, the page size, and the writable and user rights;
* `Paging.Executable` — the address is mapped and instruction fetches are allowed.

Main results:

* `Paging.walkFrom_congr` — a walk depends on nothing but the words it visits;
* `Paging.walkFrom_clearBit` — **clearing the no-execute bit of an aligned word clears it in the
  visited entries and changes nothing else**, wherever that word occurs in the walk;
* `Paging.translate_clearBit`, `Paging.Executable.clearBit` — the translations stay as they are,
  and what was executable stays executable.
-/

import ResumeFromEdk2.ByteImage

set_option relaxedAutoImplicit false
set_option autoImplicit false

namespace Paging

open BitField ByteImage

variable {n : ℕ}

/-! ### Entries -/

/-- Bit 0 of an entry: the entry is present. -/
def present (e : BitVec 64) : Bool := e.getLsbD 0

/-- Bit 1 of an entry: writes are allowed. -/
def writable (e : BitVec 64) : Bool := e.getLsbD 1

/-- Bit 2 of an entry: user accesses are allowed. -/
def user (e : BitVec 64) : Bool := e.getLsbD 2

/-- Bit 7 of an entry: at the levels 1 and 2, the entry maps a large page. -/
def ps (e : BitVec 64) : Bool := e.getLsbD 7

/-- Bit 63 of an entry: instruction fetches are forbidden. -/
def noExecute (e : BitVec 64) : Bool := e.getLsbD 63

/-- The physical address in an entry, of a table or a page that is aligned to `2 ^ s` bytes. -/
def frame (s : ℕ) (e : BitVec 64) : ℕ := field s 52 e.toNat

/-- The entry with its no-execute bit cleared. -/
def clearNx (e : BitVec 64) : BitVec 64 := clearBitOf e 63

theorem getLsbD_clearNx (e : BitVec 64) {k : ℕ} (hk : k ≠ 63) :
    (clearNx e).getLsbD k = e.getLsbD k := by
  rw [clearNx, getLsbD_clearBitOf, decide_eq_true hk, Bool.and_true]

@[simp] theorem present_clearNx (e : BitVec 64) : present (clearNx e) = present e :=
  getLsbD_clearNx e (by norm_num)

@[simp] theorem writable_clearNx (e : BitVec 64) : writable (clearNx e) = writable e :=
  getLsbD_clearNx e (by norm_num)

@[simp] theorem user_clearNx (e : BitVec 64) : user (clearNx e) = user e :=
  getLsbD_clearNx e (by norm_num)

@[simp] theorem ps_clearNx (e : BitVec 64) : ps (clearNx e) = ps e :=
  getLsbD_clearNx e (by norm_num)

@[simp] theorem noExecute_clearNx (e : BitVec 64) : noExecute (clearNx e) = false := by
  rw [noExecute, clearNx, getLsbD_clearBitOf, decide_eq_false (not_not.2 rfl), Bool.and_false]

@[simp] theorem frame_clearNx (s : ℕ) (e : BitVec 64) : frame s (clearNx e) = frame s e :=
  field_clearBitOf e (by omega)

theorem present_ne_zero {e : BitVec 64} (h : present e = true) : e ≠ 0 := by
  rintro rfl
  simp [present] at h

/-- Tables are aligned, and so are the entries in them. -/
theorem eight_dvd_frame {s : ℕ} (hs : 3 ≤ s) (e : BitVec 64) : 8 ∣ frame s e :=
  (pow_dvd_pow 2 hs).trans (dvd_field s 52 e.toNat)

/-! ### Processors -/

/-- **A processor with `EFER.NXE = 1`**, by the entries it refuses at each level because a reserved
bit is set.  Bit 63 is not reserved. -/
structure Cpu where
  reserved : ℕ → BitVec 64 → Bool
  reserved_clearNx : ∀ l e, reserved l (clearNx e) = reserved l e

/-- The number of address bits below the index of a level: a page mapped at that level has
`2 ^ shift level` bytes. -/
def shift (level : ℕ) : ℕ := 12 + 9 * level

/-- The entry maps a large page. -/
def isLarge (level : ℕ) (e : BitVec 64) : Bool := decide (level ≤ 2) && ps e

/-- The processor of the manuals whose physical addresses have `width` bits: the frame bits from
`width` on are reserved, as are bit 7 of a root entry and the low frame bits of a large page, the
attribute bit 12 excepted. -/
def Cpu.ofWidth (width : ℕ) : Cpu where
  reserved l e := decide (field width 52 e.toNat ≠ 0) || decide (l = 3) && ps e ||
    decide (0 < l) && isLarge l e && decide (field 13 (min (shift l) 52) e.toNat ≠ 0)
  reserved_clearNx l e := by
    have hlow : field 13 (min (shift l) 52) (clearNx e).toNat =
        field 13 (min (shift l) 52) e.toNat := field_clearBitOf e (by omega)
    have hhigh : field width 52 (clearNx e).toNat = field width 52 e.toNat :=
      field_clearBitOf e (by omega)
    simp only [hlow, hhigh, isLarge, ps_clearNx]

/-! ### The walk -/

/-- Why a walk ends without a page. -/
inductive Fault
  | notPresent (level : ℕ)
  | reserved (level : ℕ)
  | outside (level : ℕ)
  deriving DecidableEq

/-- An entry read in a walk, and where. -/
structure Visit where
  addr : ℕ
  entry : BitVec 64
  deriving DecidableEq

/-- **A page found by a walk**: the entries above the one that maps it, from the root down, the
entry that maps it, and the level of that entry. -/
structure Mapped where
  upper : List Visit
  leaf : Visit
  level : ℕ
  deriving DecidableEq

/-- All entries of the walk. -/
def Mapped.path (t : Mapped) : List Visit := t.upper ++ [t.leaf]

/-- The page found below an entry. -/
def Mapped.push (v : Visit) (t : Mapped) : Mapped := { t with upper := v :: t.upper }

@[simp] theorem Mapped.path_push (v : Visit) (t : Mapped) : (t.push v).path = v :: t.path := rfl

@[simp] theorem Mapped.leaf_push (v : Visit) (t : Mapped) : (t.push v).leaf = t.leaf := rfl

@[simp] theorem Mapped.level_push (v : Visit) (t : Mapped) : (t.push v).level = t.level := rfl

theorem Mapped.leaf_mem_path (t : Mapped) : t.leaf ∈ t.path := by simp [Mapped.path]

/-- The index of `va` in a table of the given level. -/
def index (level va : ℕ) : ℕ := va / 2 ^ shift level % 512

/-- The address of the entry for `va` in a table. -/
def entryAddr (level table va : ℕ) : ℕ := table + 8 * index level va

theorem eight_dvd_entryAddr {table : ℕ} (level va : ℕ) (h : 8 ∣ table) :
    8 ∣ entryAddr level table va := Nat.dvd_add h (Nat.dvd_mul_right _ _)

/-- One access of the walk. -/
def readEntry (cpu : Cpu) (m : Image n) (level a : ℕ) : Except Fault (BitVec 64) :=
  match m.word a with
  | none => .error (.outside level)
  | some e =>
      if !present e then .error (.notPresent level)
      else if cpu.reserved level e then .error (.reserved level)
      else .ok e

/-- The walk from a table of the given level. -/
def walkFrom (cpu : Cpu) (m : Image n) (va : ℕ) : ℕ → ℕ → Except Fault Mapped
  | 0, table => do
      let e ← readEntry cpu m 0 (entryAddr 0 table va)
      return ⟨[], ⟨entryAddr 0 table va, e⟩, 0⟩
  | l + 1, table => do
      let e ← readEntry cpu m (l + 1) (entryAddr (l + 1) table va)
      if isLarge (l + 1) e then
        return ⟨[], ⟨entryAddr (l + 1) table va, e⟩, l + 1⟩
      else
        return (← walkFrom cpu m va l (frame 12 e)).push ⟨entryAddr (l + 1) table va, e⟩

/-- **The walk** of `va` from the root table at the physical address `root`. -/
def walk (cpu : Cpu) (m : Image n) (root va : ℕ) : Except Fault Mapped :=
  walkFrom cpu m va 3 root

/-! ### What a walk determines -/

/-- The physical address of `va`. -/
def Mapped.pa (t : Mapped) (va : ℕ) : ℕ :=
  frame (shift t.level) t.leaf.entry + va % 2 ^ shift t.level

/-- Writes are allowed. -/
def Mapped.writable (t : Mapped) : Bool := t.path.all fun v => Paging.writable v.entry

/-- User accesses are allowed. -/
def Mapped.user (t : Mapped) : Bool := t.path.all fun v => Paging.user v.entry

/-- Instruction fetches are forbidden. -/
def Mapped.noExecute (t : Mapped) : Bool := t.path.any fun v => Paging.noExecute v.entry

theorem Mapped.noExecute_eq_false {t : Mapped} :
    t.noExecute = false ↔ ∀ v ∈ t.path, Paging.noExecute v.entry = false := by
  simp [Mapped.noExecute]

/-- A translation, the right to execute left out. -/
structure Translation where
  pa : ℕ
  pageBytes : ℕ
  writable : Bool
  user : Bool
  deriving DecidableEq

/-- The translation of `va` found by a walk. -/
def Mapped.translation (va : ℕ) (t : Mapped) : Translation :=
  ⟨t.pa va, 2 ^ shift t.level, t.writable, t.user⟩

/-- **The translation of an address**, or the fault that its walk ends with. -/
def translate (cpu : Cpu) (m : Image n) (root va : ℕ) : Except Fault Translation :=
  (walk cpu m root va).map (Mapped.translation va)

/-- **The address is mapped and instructions may be fetched from it.** -/
def Executable (cpu : Cpu) (m : Image n) (root va : ℕ) : Prop :=
  ∃ t, walk cpu m root va = .ok t ∧ t.noExecute = false

/-! ### The steps of a walk -/

variable {cpu : Cpu} {m : Image n}

theorem readEntry_eq_ok {level a : ℕ} {e : BitVec 64} :
    readEntry cpu m level a = .ok e ↔
      m.word a = some e ∧ present e = true ∧ cpu.reserved level e = false := by
  unfold readEntry
  cases hw : m.word a with
  | none => simp
  | some w =>
      by_cases hp : present w = true
      · by_cases hr : cpu.reserved level w = true
        · simp only [hp, hr, Bool.not_true, Bool.false_eq_true, if_false, if_true, reduceCtorEq,
            Option.some.injEq, false_iff]
          rintro ⟨rfl, -, hr'⟩
          exact absurd hr' (by simp [hr])
        · simp only [hp, hr, Bool.not_true, Bool.false_eq_true, if_false, Except.ok.injEq,
            Option.some.injEq]
          constructor
          · rintro rfl
            exact ⟨rfl, hp, by simpa using hr⟩
          · exact fun h => h.1
      · simp only [hp, Bool.not_false, if_true, reduceCtorEq, Option.some.injEq, false_iff]
        rintro ⟨rfl, hp', -⟩
        exact hp hp'

theorem walkFrom_zero_eq_ok {va table : ℕ} {t : Mapped} :
    walkFrom cpu m va 0 table = .ok t ↔
      ∃ e, readEntry cpu m 0 (entryAddr 0 table va) = .ok e ∧
        t = ⟨[], ⟨entryAddr 0 table va, e⟩, 0⟩ := by
  rw [walkFrom]
  cases h : readEntry cpu m 0 (entryAddr 0 table va) with
  | error f => simp [bind, Except.bind]
  | ok e => simp [bind, Except.bind, pure, Except.pure, eq_comm]

/-- **The two ways a walk succeeds above the last level**: the entry maps a large page, or it names
the table where the walk goes on. -/
theorem walkFrom_succ_eq_ok {va l table : ℕ} {t : Mapped} :
    walkFrom cpu m va (l + 1) table = .ok t ↔
      ∃ e, readEntry cpu m (l + 1) (entryAddr (l + 1) table va) = .ok e ∧
        (isLarge (l + 1) e = true ∧ t = ⟨[], ⟨entryAddr (l + 1) table va, e⟩, l + 1⟩ ∨
          isLarge (l + 1) e = false ∧
            ∃ t', walkFrom cpu m va l (frame 12 e) = .ok t' ∧
              t = t'.push ⟨entryAddr (l + 1) table va, e⟩) := by
  rw [walkFrom]
  cases h : readEntry cpu m (l + 1) (entryAddr (l + 1) table va) with
  | error f => simp [bind, Except.bind]
  | ok e =>
      cases hl : isLarge (l + 1) e with
      | true =>
          simp only [bind, Except.bind, hl, if_true, pure, Except.pure, Except.ok.injEq]
          constructor
          · rintro rfl
            exact ⟨e, rfl, .inl ⟨hl, rfl⟩⟩
          · rintro ⟨e', rfl, ⟨-, rfl⟩ | ⟨hl', -⟩⟩
            · rfl
            · exact Bool.noConfusion (hl.symm.trans hl')
      | false =>
          simp only [bind, Except.bind, hl, Bool.false_eq_true, if_false, pure, Except.pure]
          cases ht : walkFrom cpu m va l (frame 12 e) with
          | error f =>
              simp only [reduceCtorEq, false_iff]
              rintro ⟨e', he, ⟨hl', -⟩ | ⟨-, t', ht', -⟩⟩
              · cases he
                exact Bool.noConfusion (hl.symm.trans hl')
              · cases he
                exact absurd (ht.symm.trans ht') (by simp)
          | ok t' =>
              simp only [Except.ok.injEq]
              constructor
              · rintro rfl
                exact ⟨e, rfl, .inr ⟨hl, t', ht, rfl⟩⟩
              · rintro ⟨e', rfl, ⟨hl', -⟩ | ⟨-, t'', ht'', rfl⟩⟩
                · exact Bool.noConfusion (hl.symm.trans hl')
                · cases ht.symm.trans ht''
                  rfl

/-- No root entry maps a page. -/
theorem walkFrom_level_le_two {va : ℕ} : ∀ {l table : ℕ} {t : Mapped},
    walkFrom cpu m va l table = .ok t → t.level ≤ 2 := by
  intro l
  induction l with
  | zero =>
      intro table t h
      obtain ⟨e, -, rfl⟩ := walkFrom_zero_eq_ok.1 h
      exact Nat.zero_le 2
  | succ l ih =>
      intro table t h
      obtain ⟨e, -, ⟨hl, rfl⟩ | ⟨-, t', ht', rfl⟩⟩ := walkFrom_succ_eq_ok.1 h
      · simp only [isLarge, Bool.and_eq_true, decide_eq_true_eq] at hl
        exact hl.1
      · exact ih (t := t') ht'

/-! ### A walk reads what it visits -/

/-- The entries of a walk are words of the image, present, at aligned addresses. -/
theorem walkFrom_mem_path {va : ℕ} : ∀ {l table : ℕ} {t : Mapped}, 8 ∣ table →
    walkFrom cpu m va l table = .ok t →
      ∀ v ∈ t.path, m.word v.addr = some v.entry ∧ present v.entry = true ∧ 8 ∣ v.addr := by
  intro l
  induction l with
  | zero =>
      intro table t htab h v hv
      obtain ⟨e, he, rfl⟩ := walkFrom_zero_eq_ok.1 h
      obtain rfl : v = ⟨entryAddr 0 table va, e⟩ := by simpa [Mapped.path] using hv
      obtain ⟨hw, hp, -⟩ := readEntry_eq_ok.1 he
      exact ⟨hw, hp, eight_dvd_entryAddr _ _ htab⟩
  | succ l ih =>
      intro table t htab h v hv
      obtain ⟨e, he, ⟨-, rfl⟩ | ⟨-, t', ht', rfl⟩⟩ := walkFrom_succ_eq_ok.1 h
      all_goals obtain ⟨hw, hp, -⟩ := readEntry_eq_ok.1 he
      · obtain rfl : v = ⟨entryAddr (l + 1) table va, e⟩ := by simpa [Mapped.path] using hv
        exact ⟨hw, hp, eight_dvd_entryAddr _ _ htab⟩
      · rcases List.mem_cons.1 (by simpa using hv) with rfl | hv
        · exact ⟨hw, hp, eight_dvd_entryAddr _ _ htab⟩
        · exact ih (eight_dvd_frame (by norm_num) e) ht' v hv

/-- **A walk depends on nothing but the words it visits.** -/
theorem walkFrom_congr {n' : ℕ} {m' : Image n'} {va : ℕ} : ∀ {l table : ℕ} {t : Mapped},
    walkFrom cpu m va l table = .ok t →
      (∀ v ∈ t.path, m.word v.addr = some v.entry → m'.word v.addr = some v.entry) →
        walkFrom cpu m' va l table = .ok t := by
  intro l
  induction l with
  | zero =>
      intro table t h hw
      obtain ⟨e, he, rfl⟩ := walkFrom_zero_eq_ok.1 h
      obtain ⟨hm, hr⟩ := readEntry_eq_ok.1 he
      exact walkFrom_zero_eq_ok.2
        ⟨e, readEntry_eq_ok.2 ⟨hw ⟨_, e⟩ (Mapped.leaf_mem_path _) hm, hr⟩, rfl⟩
  | succ l ih =>
      intro table t h hw
      obtain ⟨e, he, hcase⟩ := walkFrom_succ_eq_ok.1 h
      obtain ⟨hm, hr⟩ := readEntry_eq_ok.1 he
      have hm' : m'.word (entryAddr (l + 1) table va) = some e := by
        rcases hcase with ⟨-, rfl⟩ | ⟨-, t', -, rfl⟩
        · exact hw ⟨_, e⟩ (Mapped.leaf_mem_path _) hm
        · exact hw ⟨_, e⟩ (List.mem_cons_self ..) hm
      refine walkFrom_succ_eq_ok.2 ⟨e, readEntry_eq_ok.2 ⟨hm', hr⟩, ?_⟩
      rcases hcase with ⟨hl, rfl⟩ | ⟨hl, t', ht', rfl⟩
      · exact .inl ⟨hl, rfl⟩
      · exact .inr ⟨hl, t', ih ht' fun v hv => hw v (by simp [hv]), rfl⟩

/-! ### Clearing a no-execute bit -/

/-- A visit after the no-execute bit of the entry at `p` was cleared. -/
def Visit.clearNxAt (p : ℕ) (v : Visit) : Visit :=
  if v.addr = p then { v with entry := clearNx v.entry } else v

/-- The page found after the no-execute bit of the entry at `p` was cleared. -/
def Mapped.clearNxAt (p : ℕ) (t : Mapped) : Mapped where
  upper := t.upper.map (Visit.clearNxAt p)
  leaf := t.leaf.clearNxAt p
  level := t.level

@[simp] theorem Visit.addr_clearNxAt (p : ℕ) (v : Visit) : (v.clearNxAt p).addr = v.addr := by
  unfold Visit.clearNxAt
  split <;> rfl

/-- What does not look at bit 63 of an entry does not see the clearing. -/
theorem Visit.apply_clearNxAt {α : Type*} {f : BitVec 64 → α} (hf : ∀ e, f (clearNx e) = f e)
    (p : ℕ) (v : Visit) : f (v.clearNxAt p).entry = f v.entry := by
  unfold Visit.clearNxAt
  split
  · exact hf _
  · rfl

theorem Visit.noExecute_clearNxAt (p : ℕ) (v : Visit) :
    noExecute (v.clearNxAt p).entry = (noExecute v.entry && decide (v.addr ≠ p)) := by
  unfold Visit.clearNxAt
  by_cases h : v.addr = p <;> simp [h]

theorem Mapped.path_clearNxAt (p : ℕ) (t : Mapped) :
    (t.clearNxAt p).path = t.path.map (Visit.clearNxAt p) := by
  simp [Mapped.path, Mapped.clearNxAt]

/-- The translation does not see the clearing. -/
theorem Mapped.translation_clearNxAt (p va : ℕ) (t : Mapped) :
    (t.clearNxAt p).translation va = t.translation va := by
  have hpa : (t.clearNxAt p).pa va = t.pa va := by
    simp only [Mapped.pa, Mapped.clearNxAt, Visit.apply_clearNxAt (frame_clearNx _)]
  have hwr : (t.clearNxAt p).writable = t.writable := by
    simp only [Mapped.writable, Mapped.path_clearNxAt, List.all_map, Function.comp_def,
      Visit.apply_clearNxAt writable_clearNx]
  have hus : (t.clearNxAt p).user = t.user := by
    simp only [Mapped.user, Mapped.path_clearNxAt, List.all_map, Function.comp_def,
      Visit.apply_clearNxAt user_clearNx]
  simp only [Mapped.translation, hpa, hwr, hus]
  rfl

/-- The fetch rights after the clearing: the entry at `p` no longer forbids anything. -/
theorem Mapped.noExecute_clearNxAt (p : ℕ) (t : Mapped) :
    (t.clearNxAt p).noExecute = false ↔
      ∀ v ∈ t.path, Paging.noExecute v.entry = true → v.addr = p := by
  rw [Mapped.noExecute_eq_false, Mapped.path_clearNxAt]
  simp only [List.forall_mem_map, Visit.noExecute_clearNxAt, Bool.and_eq_false_iff,
    decide_eq_false_iff_not, not_not]
  refine forall₂_congr fun v _ => ?_
  cases Paging.noExecute v.entry <;> simp

theorem isLarge_clearNx (l : ℕ) (e : BitVec 64) : isLarge l (clearNx e) = isLarge l e := by
  simp [isLarge]

/-- One access of the walk, after the clearing. -/
theorem readEntry_clearBit {p a : ℕ} (hp : 8 ∣ p) (ha : 8 ∣ a) (l : ℕ) :
    readEntry cpu (m.clearBit (8 * p + 63)) l a =
      (readEntry cpu m l a).map fun e => if a = p then clearNx e else e := by
  rw [readEntry, readEntry, Image.word_clearBit m hp ha (by norm_num)]
  cases m.word a with
  | none => rfl
  | some e =>
      by_cases hap : a = p
      · simp only [Option.map_some, if_pos hap]
        change (if !present (clearNx e) then _ else if cpu.reserved l (clearNx e) then _ else _) = _
        rw [present_clearNx, cpu.reserved_clearNx]
        split
        · rfl
        · split <;> rfl
      · simp only [Option.map_some, if_neg hap]
        split
        · rfl
        · split <;> rfl

/-- **Clearing the no-execute bit of an aligned word clears it in the visited entries and changes
nothing else**, whether the word is read once, several times or not at all. -/
theorem walkFrom_clearBit {p va : ℕ} (hp : 8 ∣ p) : ∀ {l table : ℕ}, 8 ∣ table →
    walkFrom cpu (m.clearBit (8 * p + 63)) va l table =
      (walkFrom cpu m va l table).map (Mapped.clearNxAt p) := by
  intro l
  induction l with
  | zero =>
      intro table htab
      rw [walkFrom, walkFrom, readEntry_clearBit hp (eight_dvd_entryAddr 0 va htab)]
      cases readEntry cpu m 0 (entryAddr 0 table va) with
      | error f => rfl
      | ok e =>
          simp only [Except.map, bind, Except.bind, pure, Except.pure, Mapped.clearNxAt,
            Visit.clearNxAt, List.map_nil]
          split <;> rfl
  | succ l ih =>
      intro table htab
      rw [walkFrom, walkFrom, readEntry_clearBit hp (eight_dvd_entryAddr (l + 1) va htab)]
      cases readEntry cpu m (l + 1) (entryAddr (l + 1) table va) with
      | error f => rfl
      | ok e =>
          -- neither the size bit nor the frame of the entry sees the clearing
          have hl : isLarge (l + 1) (if entryAddr (l + 1) table va = p then clearNx e else e) =
              isLarge (l + 1) e := by
            split
            · exact isLarge_clearNx _ _
            · rfl
          have hf : frame 12 (if entryAddr (l + 1) table va = p then clearNx e else e) =
              frame 12 e := by
            split
            · exact frame_clearNx _ _
            · rfl
          have hih := @ih (frame 12 e) (eight_dvd_frame (by norm_num) e)
          simp only [Except.map, bind, Except.bind, pure, Except.pure, hl, hf, hih]
          cases isLarge (l + 1) e with
          | true =>
              simp only [if_true, Mapped.clearNxAt, Visit.clearNxAt, List.map_nil]
              split <;> rfl
          | false =>
              cases walkFrom cpu m va l (frame 12 e) with
              | error f => rfl
              | ok t =>
                  simp only [Bool.false_eq_true, if_false, Mapped.clearNxAt, Mapped.push,
                    List.map_cons, Visit.clearNxAt]
                  split <;> rfl

/-- The walk of an address after the clearing. -/
theorem walk_clearBit {p root : ℕ} (hp : 8 ∣ p) (hroot : 8 ∣ root) (va : ℕ) :
    walk cpu (m.clearBit (8 * p + 63)) root va =
      (walk cpu m root va).map (Mapped.clearNxAt p) :=
  walkFrom_clearBit hp hroot

/-- **No translation sees the clearing of a no-execute bit.** -/
theorem translate_clearBit {p root : ℕ} (hp : 8 ∣ p) (hroot : 8 ∣ root) (va : ℕ) :
    translate cpu (m.clearBit (8 * p + 63)) root va = translate cpu m root va := by
  rw [translate, translate, walk_clearBit hp hroot]
  cases walk cpu m root va with
  | error f => rfl
  | ok t => exact congrArg Except.ok (Mapped.translation_clearNxAt p va t)

/-- **What was executable stays executable.** -/
theorem Executable.clearBit {p root va : ℕ} (hp : 8 ∣ p) (hroot : 8 ∣ root)
    (h : Executable cpu m root va) : Executable cpu (m.clearBit (8 * p + 63)) root va := by
  obtain ⟨t, ht, hnx⟩ := h
  refine ⟨t.clearNxAt p, by rw [walk_clearBit hp hroot, ht]; rfl, ?_⟩
  refine (Mapped.noExecute_clearNxAt p t).2 fun v hv hv' => ?_
  exact Bool.noConfusion ((Mapped.noExecute_eq_false.1 hnx v hv).symm.trans hv')

end Paging

/-
**Patching a dump more than once.**

A patch edits a word that a later walk may read as one of its upper entries, and the page tables of
a dump may alias each other in any way.  What saves the program is that it clears bit 63 and
nothing else of a page-table entry: neither the address of the next table nor the size of the page
depends on that bit.  So a later walk passes through the edited entries unchanged, with one
exception.  An entry that is bit 63 alone is zero afterwards, and the later walk stops there.

Main definitions:

* `MemDump.upperEntries` — the addresses of the PGD, PUD and PMD entries that a walk reads;
* `MemDump.NxAlone` — some aligned word is bit 63 alone;
* `MemDump.clearAll` — `ClearPageNXFlag` for one address after the other.

Main results:

* `MemDump.descend_of_nxCleared` — **a walk through entries with bit 63 cleared** ends where it did,
  or it stops at an entry that was bit 63 alone;
* `MemDump.modifyMemDump_twice` — a second run on the patched dump changes nothing;
* `MemDump.clearAll_order` — the order and the repetitions of the addresses do not matter.
-/

import ResumeFromEdk2.MemDumpPatch

set_option relaxedAutoImplicit false
set_option autoImplicit false

namespace MemDump

open BitField ByteImage Paging

variable {n : ℕ}

/-! ### The upper entries of a walk -/

/-- The addresses of the entries of level 1 and above that the walk reads. -/
def upperFrom (m : Image n) (va : ℕ) : ℕ → ℕ → List ℕ
  | 0, _ => []
  | l + 1, a =>
      a :: match m.word a with
        | none => []
        | some e => if e = 0 then [] else upperFrom m va l (entryAddr l (tableOf (l + 1) e) va)

/-- **The addresses of the PGD, PUD and PMD entries that the walk reads.** -/
def upperEntries (m : Image n) (base va : ℕ) : List ℕ :=
  upperFrom m va 3 (entryAddr 3 base va % 2 ^ 64)

section Upper

variable {m m' : Image n} {va : ℕ}

theorem upperFrom_succ {l a : ℕ} {e : BitVec 64} (he : m.word a = some e) (h0 : e ≠ 0) :
    upperFrom m va (l + 1) a =
      a :: upperFrom m va l (entryAddr l (tableOf (l + 1) e) va) := by
  rw [upperFrom, he]
  simp only [if_neg h0]

theorem mem_upperFrom_self (l a : ℕ) : a ∈ upperFrom m va (l + 1) a := List.mem_cons_self

theorem eight_dvd_tableOf (l : ℕ) (e : BitVec 64) : 8 ∣ tableOf l e := by
  refine eight_dvd_frame ?_ e
  split
  · simp only [shift]; omega
  · norm_num

/-- The upper entries of a walk are aligned. -/
theorem eight_dvd_of_mem_upperFrom : ∀ {l a : ℕ}, 8 ∣ a → ∀ b ∈ upperFrom m va l a, 8 ∣ b := by
  intro l
  induction l with
  | zero => intro a _ b hb; simp [upperFrom] at hb
  | succ l ih =>
      intro a ha b hb
      rcases List.mem_cons.1 hb with rfl | hb
      · exact ha
      · cases he : m.word a with
        | none => simp [he] at hb
        | some e =>
            by_cases h0 : e = 0
            · simp [he, h0] at hb
            · simp only [he, if_neg h0] at hb
              exact ih (eight_dvd_entryAddr _ _ (eight_dvd_tableOf _ _)) b hb

theorem eight_dvd_of_mem_upperEntries {cr3 : BitVec 64} (hcr3 : PageAligned cr3) :
    ∀ b ∈ upperEntries m cr3.toNat va, 8 ∣ b := by
  refine eight_dvd_of_mem_upperFrom ?_
  have hroot := eight_dvd_entryAddr 3 va hcr3.eight_dvd
  omega

/-! ### A walk through entries with bit 63 cleared -/

theorem tableOf_clearNx (l : ℕ) (e : BitVec 64) : tableOf l (clearNx e) = tableOf l e := by
  rw [tableOf, tableOf, isLarge_clearNx, frame_clearNx]

/-- The word at `a` is the same in both images, or bit 63 of it is cleared in the second. -/
def NxCleared (m m' : Image n) (a : ℕ) : Prop :=
  m'.word a = m.word a ∨ m'.word a = (m.word a).map clearNx

/-- **A walk through entries with bit 63 cleared** ends where it did, or it stops at an entry that
was bit 63 alone. -/
theorem descend_of_nxCleared : ∀ {l a : ℕ}, (∀ b ∈ upperFrom m va l a, NxCleared m m' b) →
    descend m' va l a = descend m va l a ∨
      (∃ b ∈ upperFrom m va l a, m.word b = some pageNx) ∧
        ∃ rc, descend m' va l a = some (.stopped rc) := by
  intro l
  induction l with
  | zero => intro a _; exact .inl rfl
  | succ l ih =>
      intro a h
      have ha := h a (mem_upperFrom_self l a)
      cases he : m.word a with
      | none =>
          have he' : m'.word a = none := by
            rcases ha with ha | ha
            · rw [ha, he]
            · rw [ha, he, Option.map_none]
          exact .inl (by rw [descend_succ_none he, descend_succ_none he'])
      | some e =>
          -- the entry that the second walk reads names the same table, unless it is zero
          obtain ⟨e', he', htab, hzero⟩ : ∃ e', m'.word a = some e' ∧
              tableOf (l + 1) e' = tableOf (l + 1) e ∧ (e' = 0 → e = 0 ∨ e = pageNx) := by
            rcases ha with ha | ha
            · exact ⟨e, ha.trans he, rfl, .inl⟩
            · refine ⟨clearNx e, by rw [ha, he, Option.map_some], tableOf_clearNx _ e, ?_⟩
              intro h0
              by_cases he0 : e = 0
              · exact .inl he0
              · exact .inr (eq_of_clearBitOf_eq_zero he0 h0)
          rw [descend_succ he, descend_succ he']
          by_cases h0 : e = 0
          · have h0' : e' = 0 := by
              rcases ha with ha | ha
              · rw [he, he', h0] at ha
                exact Option.some.inj ha
              · rw [he, he', h0] at ha
                exact Option.some.inj ha
            exact .inl (by rw [if_pos h0, if_pos h0'])
          · rw [upperFrom_succ he h0] at h ⊢
            by_cases h0' : e' = 0
            · exact .inr ⟨⟨a, List.mem_cons_self, by rw [he, (hzero h0').resolve_left h0]⟩,
                l - 3, by rw [if_pos h0']⟩
            · rw [if_neg h0, if_neg h0', htab]
              rcases ih fun b hb => h b (List.mem_cons_of_mem a hb) with
                heq | ⟨⟨b, hb, hnx⟩, hstop⟩
              · exact .inl heq
              · exact .inr ⟨⟨b, List.mem_cons_of_mem a hb, hnx⟩, hstop⟩

end Upper

/-! ### A second run -/

section Twice

variable {m m' : Image n} {cr3 va : BitVec 64} {rc : ℤ}

/-- A walk that stops leaves the image as it is. -/
theorem clearPageNXFlag_of_stopped (physmem : MapAddr)
    (hend : walkEnd m cr3.toNat va.toNat = some (.stopped rc)) :
    clearPageNXFlag physmem cr3 va m = some (rc, m) := by
  rw [clearPageNXFlag_eq, hend, Option.bind_some, WalkEnd.finish]

/-- An entry whose bit 63 is clear is left as it is. -/
theorem clearPageNXFlag_of_clear (physmem : MapAddr) {p : ℕ}
    (hend : walkEnd m cr3.toNat va.toNat = some (.entry p)) (hle : p + 8 ≤ n)
    (hclear : m.bit (8 * p + 63) = false) : clearPageNXFlag physmem cr3 va m = some (0, m) := by
  rw [clearPageNXFlag_of_entry physmem hend hle, Image.clearBit_of_clear hclear]

/-- On an image that is patched already, up to entries that were bit 63 alone, the program changes
nothing. -/
theorem clearPageNXFlag_of_nxCleared (physmem : MapAddr)
    (hupper : ∀ b ∈ upperEntries m cr3.toNat va.toNat, NxCleared m m' b)
    (hend : (∃ rc, walkEnd m cr3.toNat va.toNat = some (.stopped rc)) ∨
      ∃ p, walkEnd m cr3.toNat va.toNat = some (.entry p) ∧ p + 8 ≤ n ∧
        m'.bit (8 * p + 63) = false) :
    ∃ rc', clearPageNXFlag physmem cr3 va m' = some (rc', m') := by
  rcases descend_of_nxCleared hupper with heq | ⟨-, rc', hstop⟩
  · have hwalk : walkEnd m' cr3.toNat va.toNat = walkEnd m cr3.toNat va.toNat := heq
    rcases hend with ⟨rc, hrc⟩ | ⟨p, hp, hle, hclear⟩
    · exact ⟨rc, clearPageNXFlag_of_stopped physmem (hwalk.trans hrc)⟩
    · exact ⟨0, clearPageNXFlag_of_clear physmem (hwalk.trans hp) hle hclear⟩
  · exact ⟨rc', clearPageNXFlag_of_stopped physmem hstop⟩

/-- **Patching a dump twice is patching it once**: a second run with the same arguments stays inside
the image, and leaves the file as the first run left it. -/
theorem modifyMemDump_twice {physmem : MapAddr} (hcr3 : PageAligned cr3)
    (hrun : modifyMemDump physmem cr3 va m = .returned rc m')
    (htss : tssDescAddr ∉ upperEntries m cr3.toNat va.toNat) (physmem' : MapAddr) :
    ∃ rc', modifyMemDump physmem' cr3 va m' = .returned rc' m' := by
  obtain ⟨hle, m₁, hclear, rfl⟩ := modifyMemDump_eq_returned.1 hrun
  have htss8 : 8 ∣ tssDescAddr := by decide
  -- the descriptor is not read as an upper entry
  have hword : ∀ b ∈ upperEntries m cr3.toNat va.toNat,
      (m₁.clearBit (8 * tssDescAddr + 41)).word b = m₁.word b := by
    intro b hb
    have hne : b ≠ tssDescAddr := fun h => htss (h ▸ hb)
    rw [Image.word_clearBit m₁ htss8 (eight_dvd_of_mem_upperEntries hcr3 b hb) (by norm_num)]
    simp only [if_neg hne, Option.map_id']
  obtain ⟨rc', hrc'⟩ : ∃ rc', clearPageNXFlag physmem' cr3 va
      (m₁.clearBit (8 * tssDescAddr + 41)) =
      some (rc', m₁.clearBit (8 * tssDescAddr + 41)) := by
    rcases clearPageNXFlag_cases hclear with ⟨-, rfl, hend⟩ | ⟨-, p, hend, hp, hple, rfl⟩
    · exact clearPageNXFlag_of_nxCleared physmem' (fun b hb => .inl (hword b hb)) (.inl ⟨rc, hend⟩)
    · refine clearPageNXFlag_of_nxCleared physmem' ?_ (.inr ⟨p, hend, hple, ?_⟩)
      · intro b hb
        have hb8 := eight_dvd_of_mem_upperEntries hcr3 b hb
        rw [NxCleared, hword b hb, Image.word_clearBit m hp hb8 (by norm_num)]
        by_cases hbp : b = p
        · exact .inr (by simp only [if_pos hbp]; rfl)
        · exact .inl (by simp only [if_neg hbp, Option.map_id'])
      · simp
  exact ⟨rc', modifyMemDump_eq_returned.2 ⟨hle, _, hrc', (Image.clearBit_idem _ _).symm⟩⟩

/-- The root entry is bit 63 alone and names the page at `0`, so that every table of the walk is
the root table and the walk ends at the root entry itself.  The second run stops there. -/
theorem modifyMemDump_twice_nxAlone :
    ∃ rc', modifyMemDump default 0 0
        (((Image.ofWords 0x40000000 [(0, 0x8000000000000000)]).clearBit (8 * 0 + 63)).clearBit
          (8 * tssDescAddr + 41)) =
      .returned rc' (((Image.ofWords 0x40000000 [(0, 0x8000000000000000)]).clearBit
        (8 * 0 + 63)).clearBit (8 * tssDescAddr + 41)) := by
  have hend : walkEnd (Image.ofWords 0x40000000 [(0, 0x8000000000000000)]) 0 0 =
      some (.entry 0) := by decide +kernel
  have hclear : clearPageNXFlag default 0 0 (Image.ofWords 0x40000000 [(0, 0x8000000000000000)]) =
      some (0, (Image.ofWords 0x40000000 [(0, 0x8000000000000000)]).clearBit (8 * 0 + 63)) :=
    clearPageNXFlag_of_entry default hend (by norm_num)
  have hrun := modifyMemDump_eq_returned.2 ⟨by decide, _, hclear, rfl⟩
  exact modifyMemDump_twice (by decide) hrun (by decide +kernel) default

end Twice

/-! ### One address after the other -/

/-- `ClearPageNXFlag` for one address after the other: the codes and the dump that is left. -/
def clearAll (physmem : MapAddr) (cr3 : BitVec 64) :
    List (BitVec 64) → Image n → Option (List ℤ × Image n)
  | [], m => some ([], m)
  | va :: vas, m => do
      let (rc, m) ← clearPageNXFlag physmem cr3 va m
      let (rcs, m) ← clearAll physmem cr3 vas m
      return (rc :: rcs, m)

/-- **Some aligned word of the image is bit 63 alone.** -/
def NxAlone (m : Image n) : Prop := ∃ a, 8 ∣ a ∧ m.word a = some 0x8000000000000000

section Order

variable {m : Image n} {cr3 : BitVec 64}

/-- The image with bit 63 cleared in the given words. -/
def clearNxAll (m : Image n) (ps : List ℕ) : Image n :=
  m.clearBits (ps.map fun p => 8 * p + 63)

/-- **No walk depends on the patches made before it**, unless a word is bit 63 alone. -/
theorem walkEnd_clearNxAll (hcr3 : PageAligned cr3) (hne : ¬NxAlone m) {ps : List ℕ}
    (hps : ∀ p ∈ ps, 8 ∣ p) (va : ℕ) :
    walkEnd (clearNxAll m ps) cr3.toNat va = walkEnd m cr3.toNat va := by
  have hcleared : ∀ b ∈ upperEntries m cr3.toNat va, NxCleared m (clearNxAll m ps) b := by
    intro b hb
    have hb8 := eight_dvd_of_mem_upperEntries hcr3 b hb
    rw [NxCleared, clearNxAll, Image.word_clearBits hb8 (by norm_num) m hps]
    by_cases hmem : b ∈ ps
    · exact .inr (by simp only [if_pos hmem]; rfl)
    · exact .inl (by simp only [if_neg hmem, Option.map_id'])
  rcases descend_of_nxCleared hcleared with heq | ⟨⟨b, hb, hnx⟩, -⟩
  · exact heq
  · exact absurd ⟨b, eight_dvd_of_mem_upperEntries hcr3 b hb, hnx⟩ hne

/-- The code for an address, read off the walk in the image as it was in the beginning. -/
def codeAt (m : Image n) (cr3 va : BitVec 64) : ℤ :=
  match walkEnd m cr3.toNat va.toNat with
  | some (.stopped rc) => rc
  | _ => 0

/-- The word that is patched for an address, read off the walk in the image as it was in the
beginning. -/
def patchAt (m : Image n) (cr3 va : BitVec 64) : Option ℕ :=
  match walkEnd m cr3.toNat va.toNat with
  | some (.entry p) => some p
  | _ => none

/-- One patch after others: the walk is the one in the image as it was in the beginning. -/
theorem clearPageNXFlag_clearNxAll {physmem₀ : MapAddr} (physmem : MapAddr)
    (hcr3 : PageAligned cr3) (hne : ¬NxAlone m) {va : BitVec 64}
    (hin : (clearPageNXFlag physmem₀ cr3 va m).isSome) {ps : List ℕ} (hps : ∀ p ∈ ps, 8 ∣ p) :
    clearPageNXFlag physmem cr3 va (clearNxAll m ps) =
        some (codeAt m cr3 va, clearNxAll m (ps ++ (patchAt m cr3 va).toList)) ∧
      ∀ p ∈ ps ++ (patchAt m cr3 va).toList, 8 ∣ p := by
  obtain ⟨⟨rc, m'⟩, hrun⟩ := Option.isSome_iff_exists.1 hin
  have hwalk := walkEnd_clearNxAll hcr3 hne hps va.toNat
  rcases clearPageNXFlag_cases hrun with ⟨-, -, hend⟩ | ⟨-, p, hend, hp, hple, -⟩
  · rw [clearPageNXFlag_of_stopped physmem (hwalk.trans hend), codeAt, patchAt, hend]
    simpa using hps
  · rw [clearPageNXFlag_of_entry physmem (hwalk.trans hend) hple, codeAt, patchAt, hend]
    refine ⟨?_, ?_⟩
    · simp [clearNxAll, Image.clearBits_concat]
    · intro q hq
      rcases List.mem_append.1 hq with hq | hq
      · exact hps q hq
      · obtain rfl : q = p := by simpa using hq
        exact hp

/-- **Patches in a row**: each address has the code of its walk in the image as it was in the
beginning, and the words patched are those at which these walks end. -/
theorem clearAll_clearNxAll {physmem₀ : MapAddr} (physmem : MapAddr) (hcr3 : PageAligned cr3)
    (hne : ¬NxAlone m) {vas : List (BitVec 64)} : ∀ {ps : List ℕ},
    (∀ va ∈ vas, (clearPageNXFlag physmem₀ cr3 va m).isSome) → (∀ p ∈ ps, 8 ∣ p) →
      clearAll physmem cr3 vas (clearNxAll m ps) =
        some (vas.map (codeAt m cr3), clearNxAll m (ps ++ vas.filterMap (patchAt m cr3))) := by
  induction vas with
  | nil => intro ps _ _; simp [clearAll]
  | cons va vas ih =>
      intro ps hin hps
      obtain ⟨hva, hin⟩ := List.forall_mem_cons.1 hin
      obtain ⟨hone, hps'⟩ := clearPageNXFlag_clearNxAll physmem hcr3 hne hva hps
      have happ : ps ++ (va :: vas).filterMap (patchAt m cr3) =
          ps ++ (patchAt m cr3 va).toList ++ vas.filterMap (patchAt m cr3) := by
        cases h : patchAt m cr3 va <;> simp [h]
      rw [clearAll, hone, happ, List.map_cons]
      simp only [Option.bind_eq_bind, Option.bind_some, ih hin hps']
      rfl

/-- **The order and the repetitions of the addresses do not matter.**  Two lists with the same
addresses leave the same image, and each address has one code, the same at all of its occurrences
in both runs. -/
theorem clearAll_order {physmem₀ : MapAddr} (physmem physmem' : MapAddr) (hcr3 : PageAligned cr3)
    (hne : ¬NxAlone m) {vas vas' : List (BitVec 64)} (hset : ∀ va, va ∈ vas ↔ va ∈ vas')
    (hin : ∀ va ∈ vas, (clearPageNXFlag physmem₀ cr3 va m).isSome) :
    ∃ (code : BitVec 64 → ℤ) (m' : Image n),
      clearAll physmem cr3 vas m = some (vas.map code, m') ∧
        clearAll physmem' cr3 vas' m = some (vas'.map code, m') := by
  have hin' : ∀ va ∈ vas', (clearPageNXFlag physmem₀ cr3 va m).isSome :=
    fun va hva => hin va ((hset va).2 hva)
  have hpatch : ∀ b, b ∈ (vas'.filterMap (patchAt m cr3)).map (fun p => 8 * p + 63) ↔
      b ∈ (vas.filterMap (patchAt m cr3)).map (fun p => 8 * p + 63) := by
    intro b
    simp only [List.mem_map, List.mem_filterMap, hset]
  refine ⟨codeAt m cr3, clearNxAll m (vas.filterMap (patchAt m cr3)), ?_, ?_⟩
  · exact clearAll_clearNxAll physmem hcr3 hne hin (List.forall_mem_nil _)
  · rw [clearNxAll, ← Image.clearBits_congr m hpatch]
    exact clearAll_clearNxAll physmem' hcr3 hne hin' (List.forall_mem_nil _)

/-- One table that is the table of every level, with two entries. -/
def selfTable : Image 16 := Image.ofWords 16 [(0, 0x8000000000000001), (8, 0x8000000000000001)]

theorem not_nxAlone_selfTable : ¬NxAlone selfTable := by
  rintro ⟨a, ⟨k, rfl⟩, hword⟩
  have hle := Image.word_eq_some_le hword
  obtain rfl | rfl : k = 0 ∨ k = 1 := by omega
  · exact absurd hword (by decide)
  · exact absurd hword (by decide)

/-- The patch for the address `0` edits the entry that all later walks read at every level. -/
theorem clearAll_order_selfTable :
    ∃ (code : BitVec 64 → ℤ) (m' : Image 16),
      clearAll default 0 [0, 0x1000] selfTable = some ([0, 0x1000].map code, m') ∧
        clearAll default 0 [0x1000, 0, 0x1000] selfTable =
          some ([0x1000, 0, 0x1000].map code, m') := by
  have hset : ∀ va : BitVec 64, va ∈ [0, 0x1000] ↔ va ∈ [0x1000, 0, 0x1000] := by
    intro va
    simp only [List.mem_cons, List.not_mem_nil, or_false]
    tauto
  have hin : ∀ va ∈ [0, 0x1000], (clearPageNXFlag default 0 va selfTable).isSome := by
    intro va hva
    obtain rfl | rfl : va = 0 ∨ va = 0x1000 := by simpa using hva
    · decide
    · decide
  exact clearAll_order default default (by decide) not_nxAlone_selfTable hset hin

end Order

end MemDump

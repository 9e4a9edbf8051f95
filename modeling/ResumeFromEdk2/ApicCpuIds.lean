/-
**The numbers of the CPUs.**

While the firmware tables are read, `generic_processor_info` is called for each local APIC that they
list, in any order and as often as they list it, and gives it the number of a CPU.  The number `0`
is kept for the boot CPU.  The others are numbered as they come, and keep their numbers.

Several variables record this: the table of the allocated numbers, two tables of APIC IDs by CPU, a
mask of APIC IDs, two masks of CPUs and two counters.  What they have in common is a roster of
the APIC IDs in the order in which they came first.  This module takes that roster for the
purpose of the code, and shows that each call keeps all the variables in step with it.

Which APIC is that of the boot CPU is a variable too, and on some platforms the callers change it
between the calls.  The results are about runs in which they do not, and in which no call is for
the APIC ID `-1`, which stands for an entry that is not allocated.  The mask of APIC IDs is taken to
have a bit for each of them.

Main definitions:

* `CpuIds.genericProcessorInfo`, `CpuIds.allocateLogicalCpuid` — the functions;
* `CpuIds.Listed` — what is asked of a run;
* `CpuIds.Refines` — the variables of the kernel record a roster.

Main results:

* `CpuIds.Refines.step` — **a call adds to the roster, or changes nothing in it**;
* `CpuIds.accepted_iff` — which calls are accepted: the allocation itself never fails;
* `CpuIds.boot_accepted` — **the boot CPU always finds its place**;
* `CpuIds.same_cpu_iff` — **over a whole run two calls return the same CPU exactly when they are for
  the same APIC**;
* `CpuIds.tables_agree` — the tables by CPU tell the APICs apart.
-/

import Mathlib.Data.Finset.Lattice.Fold
import Mathlib.Order.Lattice.Nat
import ResumeFromEdk2.Roster
import ResumeFromEdk2.StepSystem

set_option relaxedAutoImplicit false
set_option autoImplicit false

namespace CpuIds

open StepSystem

/-! ### The variables -/

/-- What does not change while the tables are read.  APIC IDs are words: `int` and `unsigned int`
are compared as such. -/
structure Config where
  /-- `nr_cpu_ids` -/
  nrCpuIds : ℕ
  nrCpuIds_pos : 0 < nrCpuIds
  /-- `BAD_APICID` -/
  badApicid : BitVec 32
  /-- `disabled_cpu_apicid` -/
  disabledCpuApicid : BitVec 32
  /-- `read_apic_id()` -/
  readApicId : BitVec 32

structure State where
  bootCpuPhysicalApicid : BitVec 32
  nrLogicalCpuids : ℕ
  cpuidToApicid : ℕ → BitVec 32
  numProcessors : ℕ
  disabledCpus : ℕ
  maxPhysicalApicid : BitVec 32
  physCpuPresentMap : Finset (BitVec 32)
  x86CpuToApicid : ℕ → BitVec 16
  x86BiosCpuApicid : ℕ → BitVec 16
  cpuPossible : Finset ℕ
  cpuPresent : Finset ℕ

/-- `boot_cpu_init` has set bit 0 of the masks of CPUs. -/
def start (cfg : Config) (boot : BitVec 32) : State where
  bootCpuPhysicalApicid := boot
  nrLogicalCpuids := 1
  cpuidToApicid _ := -1
  numProcessors := 0
  disabledCpus := 0
  maxPhysicalApicid := 0
  physCpuPresentMap := ∅
  x86CpuToApicid _ := cfg.badApicid.setWidth 16
  x86BiosCpuApicid _ := cfg.badApicid.setWidth 16
  cpuPossible := {0}
  cpuPresent := {0}

inductive Errno where
  | enodev | einval
  deriving DecidableEq, Repr

/-! ### The functions -/

/-- `allocate_logical_cpuid`; there is no number for `-EINVAL`. -/
def allocateLogicalCpuid (cfg : Config) (s : State) (apicid : BitVec 32) : Option ℕ × State :=
  match (List.range s.nrLogicalCpuids).find? fun i => s.cpuidToApicid i = apicid with
  | some i => (some i, s)
  | none =>
      if s.nrLogicalCpuids ≥ cfg.nrCpuIds then (none, s)
      else (some s.nrLogicalCpuids,
        { s with
          cpuidToApicid := Function.update s.cpuidToApicid s.nrLogicalCpuids apicid
          nrLogicalCpuids := s.nrLogicalCpuids + 1 })

/-- The call is refused. -/
def State.refuse (s : State) : State := { s with disabledCpus := s.disabledCpus + 1 }

/-- The end of `generic_processor_info`, where the CPU is recorded. -/
def State.register (s : State) (cpu : ℕ) (apicid : BitVec 32) : State :=
  { s with
    maxPhysicalApicid := if apicid > s.maxPhysicalApicid then apicid else s.maxPhysicalApicid
    x86CpuToApicid := Function.update s.x86CpuToApicid cpu (apicid.setWidth 16)
    x86BiosCpuApicid := Function.update s.x86BiosCpuApicid cpu (apicid.setWidth 16)
    cpuPossible := insert cpu s.cpuPossible
    physCpuPresentMap := insert apicid s.physCpuPresentMap
    cpuPresent := insert cpu s.cpuPresent
    numProcessors := s.numProcessors + 1 }

/-- The number of the CPU. -/
def chooseCpu (cfg : Config) (s : State) (apicid : BitVec 32) : Option ℕ × State :=
  if apicid = s.bootCpuPhysicalApicid then
    (some 0, { s with cpuidToApicid := Function.update s.cpuidToApicid 0 apicid })
  else allocateLogicalCpuid cfg s apicid

/-- **`generic_processor_info`** -/
def genericProcessorInfo (cfg : Config) (s : State) (apicid : BitVec 32) :
    Except Errno ℕ × State :=
  if cfg.disabledCpuApicid ≠ cfg.badApicid ∧ cfg.disabledCpuApicid ≠ cfg.readApicId ∧
      cfg.disabledCpuApicid = apicid then (.error .enodev, s.refuse)
  else if s.bootCpuPhysicalApicid ∉ s.physCpuPresentMap ∧ s.numProcessors ≥ cfg.nrCpuIds - 1 ∧
      apicid ≠ s.bootCpuPhysicalApicid then (.error .enodev, s.refuse)
  else if s.numProcessors ≥ cfg.nrCpuIds then (.error .einval, s.refuse)
  else
    match chooseCpu cfg s apicid with
    | (none, s) => (.error .einval, s.refuse)
    | (some cpu, s) => (.ok cpu, s.register cpu apicid)

/-! ### The variables record a roster -/

/-- `cpuid_to_apicid` for a roster. -/
def cpuTable {boot : BitVec 32} (N : Roster boot) (i : ℕ) : BitVec 32 := (N.item? i).getD (-1)

/-- **The variables of the kernel record a roster.**  The counter counts the calls that were
accepted, which are no fewer than the APICs; as long as the boot CPU has not come there is a place
left. -/
structure Refines (cfg : Config) (s : State) {boot : BitVec 32} (N : Roster boot) : Prop where
  bootCpuPhysicalApicid : s.bootCpuPhysicalApicid = boot
  nrLogicalCpuids : s.nrLogicalCpuids = N.order.length + 1
  cpuidToApicid : s.cpuidToApicid = cpuTable N
  physCpuPresentMap : ∀ a, a ∈ s.physCpuPresentMap ↔ ∃ i, N.item? i = some a
  maxPhysicalApicid : s.maxPhysicalApicid.toNat = s.physCpuPresentMap.sup BitVec.toNat
  x86CpuToApicid : ∀ i, s.x86CpuToApicid i =
    ((N.item? i).map (BitVec.setWidth 16)).getD (cfg.badApicid.setWidth 16)
  x86BiosCpuApicid : s.x86BiosCpuApicid = s.x86CpuToApicid
  cpuPresent : ∀ i, i ∈ s.cpuPresent ↔ i ≤ N.order.length
  cpuPossible : s.cpuPossible = s.cpuPresent
  count : N.order.length + N.firstSeen.toNat ≤ s.numProcessors
  room : s.numProcessors + (!N.firstSeen).toNat ≤ cfg.nrCpuIds

section Refines

variable {cfg : Config} {boot : BitVec 32} {s : State} {N : Roster boot}

/-- An APIC ID is found in the table under its number, unless it is the one that stands for an entry
that is not allocated. -/
theorem cpuTable_eq_iff {a : BitVec 32} (ha : a ≠ -1) (i : ℕ) :
    cpuTable N i = a ↔ N.item? i = some a := by
  rw [cpuTable]
  cases N.item? i with
  | none => simpa using ha.symm
  | some b => simp

theorem refines_start (cfg : Config) (boot : BitVec 32) :
    Refines cfg (start cfg boot) (Roster.empty boot) where
  bootCpuPhysicalApicid := rfl
  nrLogicalCpuids := rfl
  cpuidToApicid := by
    funext i
    cases i <;> rfl
  physCpuPresentMap a := by simp [Roster.exists_item?_iff, start, Roster.empty]
  maxPhysicalApicid := rfl
  x86CpuToApicid i := by cases i <;> rfl
  x86BiosCpuApicid := rfl
  cpuPresent i := by simp [start, Roster.empty]
  cpuPossible := rfl
  count := Nat.le_refl 0
  room := cfg.nrCpuIds_pos

theorem Refines.refuse (h : Refines cfg s N) : Refines cfg s.refuse N :=
  ⟨h.1, h.2, h.3, h.4, h.5, h.6, h.7, h.8, h.9, h.10, h.11⟩

/-- The mask of APIC IDs tells whether the boot CPU has come. -/
theorem Refines.boot_mem_iff (h : Refines cfg s N) :
    boot ∈ s.physCpuPresentMap ↔ N.firstSeen = true := by
  rw [h.physCpuPresentMap, N.exists_item?_iff]
  exact ⟨fun h' => (h'.resolve_right N.not_mem).1, fun h' => .inl ⟨h', rfl⟩⟩

/-- The boot CPU gets the number that is kept for it. -/
theorem Refines.chooseCpu_boot (h : Refines cfg s N) :
    chooseCpu cfg s boot = (some 0, { s with
      nrLogicalCpuids := (N.add boot).order.length + 1
      cpuidToApicid := cpuTable (N.add boot) }) := by
  have htable : Function.update s.cpuidToApicid 0 boot = cpuTable (N.add boot) := by
    rw [h.cpuidToApicid, Roster.add_self]
    funext i
    cases i with
    | zero => rfl
    | succ i => exact Function.update_of_ne (Nat.succ_ne_zero i) ..
  rw [chooseCpu, if_pos h.bootCpuPhysicalApicid.symm, htable, Roster.add_self,
    ← h.nrLogicalCpuids]

/-- An APIC that came before is found in the table. -/
theorem Refines.allocate_of_mem (h : Refines cfg s N) {a : BitVec 32} (ha : a ≠ -1)
    (hmem : a ∈ N.order) :
    ∃ cpu, N.item? cpu = some a ∧ allocateLogicalCpuid cfg s a = (some cpu, s) := by
  rw [allocateLogicalCpuid, h.cpuidToApicid]
  simp only [cpuTable_eq_iff ha]
  cases hfind : (List.range s.nrLogicalCpuids).find? fun i => N.item? i = some a with
  | some i =>
      have hfound := List.find?_some hfind
      exact ⟨i, of_decide_eq_true hfound, rfl⟩
  | none =>
      obtain ⟨i, hi⟩ := List.mem_iff_getElem?.1 hmem
      have hlt : i + 1 < s.nrLogicalCpuids := by
        rw [h.nrLogicalCpuids]
        exact Nat.succ_lt_succ (List.getElem?_eq_some_iff.1 hi).1
      exact absurd (decide_eq_true hi) (List.find?_eq_none.1 hfind (i + 1) (List.mem_range.2 hlt))

/-- A new APIC gets the next number. -/
theorem Refines.allocate_of_not_mem (h : Refines cfg s N) {a : BitVec 32} (ha : a ≠ -1)
    (hboot : a ≠ boot) (hmem : a ∉ N.order) (hlt : N.order.length + 1 < cfg.nrCpuIds) :
    (N.add a).item? s.nrLogicalCpuids = some a ∧
      allocateLogicalCpuid cfg s a = (some s.nrLogicalCpuids, { s with
        nrLogicalCpuids := (N.add a).order.length + 1
        cpuidToApicid := cpuTable (N.add a) }) := by
  obtain ⟨horder, -⟩ := Roster.order_add_of_not_mem hboot hmem
  have hlast : (N.add a).item? s.nrLogicalCpuids = some a := by
    rw [h.nrLogicalCpuids, Roster.item?, horder, List.getElem?_concat_length]
  have htable : Function.update s.cpuidToApicid s.nrLogicalCpuids a = cpuTable (N.add a) := by
    funext i
    by_cases hi : i = s.nrLogicalCpuids
    · rw [hi, Function.update_self, cpuTable, hlast, Option.getD_some]
    · rw [Function.update_of_ne hi, h.cpuidToApicid, cpuTable, cpuTable,
        Roster.item?_add_of_ne hlast hi]
  have hfind : (List.range s.nrLogicalCpuids).find? (fun i => s.cpuidToApicid i = a) = none := by
    refine List.find?_eq_none.2 fun i _ hi => ?_
    rw [h.cpuidToApicid, decide_eq_true_eq, cpuTable_eq_iff ha] at hi
    rcases (N.exists_item?_iff a).1 ⟨i, hi⟩ with ⟨-, hboot'⟩ | hmem'
    · exact hboot hboot'
    · exact hmem hmem'
  have hroom : ¬s.nrLogicalCpuids ≥ cfg.nrCpuIds := by
    rw [h.nrLogicalCpuids]
    exact Nat.not_le_of_lt hlt
  refine ⟨hlast, ?_⟩
  rw [allocateLogicalCpuid, hfind]
  dsimp only
  rw [if_neg hroom, htable, horder, List.length_append, List.length_singleton, ← h.nrLogicalCpuids]

/-- The number is looked up, or it is the next one. -/
theorem Refines.chooseCpu_eq (h : Refines cfg s N) {a : BitVec 32} (ha : a ≠ -1)
    (hroom : a = boot ∨ N.order.length + 1 < cfg.nrCpuIds) :
    ∃ cpu, (N.add a).item? cpu = some a ∧
      chooseCpu cfg s a = (some cpu, { s with
        nrLogicalCpuids := (N.add a).order.length + 1
        cpuidToApicid := cpuTable (N.add a) }) := by
  by_cases hboot : a = boot
  · subst hboot
    exact ⟨0, by rw [Roster.add_self]; rfl, h.chooseCpu_boot⟩
  · have hname : a ≠ s.bootCpuPhysicalApicid := h.bootCpuPhysicalApicid.symm ▸ hboot
    rw [chooseCpu, if_neg hname]
    by_cases hmem : a ∈ N.order
    · obtain ⟨cpu, hcpu, hallocate⟩ := h.allocate_of_mem ha hmem
      refine ⟨cpu, Roster.item?_add hcpu a, ?_⟩
      rw [hallocate, Roster.add_of_mem hmem, ← h.nrLogicalCpuids, ← h.cpuidToApicid]
    · exact ⟨_, h.allocate_of_not_mem ha hboot hmem (hroom.resolve_left hboot)⟩

/-- **Recording the CPU completes the step.** -/
theorem Refines.register (h : Refines cfg s N) {a : BitVec 32} {cpu : ℕ}
    (hcpu : (N.add a).item? cpu = some a)
    (hroom : s.numProcessors + (!(N.firstSeen || decide (a = boot))).toNat < cfg.nrCpuIds) :
    Refines cfg ({ s with
      nrLogicalCpuids := (N.add a).order.length + 1
      cpuidToApicid := cpuTable (N.add a) }.register cpu a) (N.add a) where
  bootCpuPhysicalApicid := h.bootCpuPhysicalApicid
  nrLogicalCpuids := rfl
  cpuidToApicid := rfl
  physCpuPresentMap b := by
    rw [State.register, Finset.mem_insert, N.exists_item?_add_iff, ← h.physCpuPresentMap]
  maxPhysicalApicid := by
    rw [State.register, Finset.sup_insert, ← h.maxPhysicalApicid]
    change (if a > s.maxPhysicalApicid then a else s.maxPhysicalApicid).toNat =
      a.toNat ⊔ s.maxPhysicalApicid.toNat
    split
    · next hgt => exact (sup_of_le_left (le_of_lt hgt)).symm
    · next hle => exact (sup_of_le_right (not_lt.1 hle)).symm
  x86CpuToApicid i := by
    by_cases hi : i = cpu
    · subst hi
      rw [hcpu]
      exact Function.update_self ..
    · rw [Roster.item?_add_of_ne hcpu hi, ← h.x86CpuToApicid]
      exact Function.update_of_ne hi ..
  x86BiosCpuApicid := congrArg (Function.update · cpu _) h.x86BiosCpuApicid
  cpuPresent i := by
    rw [State.register, Finset.mem_insert, h.cpuPresent, Roster.le_length_add_iff hcpu]
  cpuPossible := congrArg (insert cpu) h.cpuPossible
  count := (N.count_add_le a).trans (Nat.succ_le_succ h.count)
  room := by
    rw [N.firstSeen_add]
    change s.numProcessors + 1 + _ ≤ _
    omega

/-- The APIC is the one that the kernel parameter disables. -/
def Disabled (cfg : Config) (a : BitVec 32) : Prop :=
  cfg.disabledCpuApicid ≠ cfg.badApicid ∧ cfg.disabledCpuApicid ≠ cfg.readApicId ∧
    cfg.disabledCpuApicid = a

/-- There is a place left, and it is not the one that is kept for the boot CPU. -/
def HasRoom (cfg : Config) (s : State) (a : BitVec 32) : Prop :=
  s.numProcessors < cfg.nrCpuIds ∧ (s.bootCpuPhysicalApicid ∉ s.physCpuPresentMap →
    s.numProcessors ≥ cfg.nrCpuIds - 1 → a = s.bootCpuPhysicalApicid)

theorem genericProcessorInfo_refused (s : State) {a : BitVec 32}
    (h : Disabled cfg a ∨ ¬HasRoom cfg s a) :
    ∃ e, genericProcessorInfo cfg s a = (.error e, s.refuse) := by
  rw [genericProcessorInfo]
  by_cases hdisabled : Disabled cfg a
  · exact ⟨_, if_pos hdisabled⟩
  · have hcheck : ¬(cfg.disabledCpuApicid ≠ cfg.badApicid ∧
        cfg.disabledCpuApicid ≠ cfg.readApicId ∧ cfg.disabledCpuApicid = a) := hdisabled
    rw [if_neg hcheck]
    split
    · exact ⟨_, rfl⟩
    · next hkept =>
        have hfull : s.numProcessors ≥ cfg.nrCpuIds := by
          by_contra hlt
          refine h.resolve_left hdisabled ⟨Nat.lt_of_not_le hlt, fun hboot hnum => ?_⟩
          by_contra hne
          exact hkept ⟨hboot, hnum, hne⟩
        exact ⟨_, if_pos hfull⟩

/-- The boot CPU needs a place and nothing else. -/
theorem genericProcessorInfo_boot (hdisabled : ¬Disabled cfg s.bootCpuPhysicalApicid)
    (hroom : s.numProcessors < cfg.nrCpuIds) :
    ∃ s', genericProcessorInfo cfg s s.bootCpuPhysicalApicid = (.ok 0, s') ∧
      s'.numProcessors = s.numProcessors + 1 := by
  have hcheck : ¬(cfg.disabledCpuApicid ≠ cfg.badApicid ∧ cfg.disabledCpuApicid ≠ cfg.readApicId ∧
      cfg.disabledCpuApicid = s.bootCpuPhysicalApicid) := hdisabled
  rw [genericProcessorInfo, if_neg hcheck, if_neg fun hkept => hkept.2.2 rfl,
    if_neg (Nat.not_le_of_lt hroom), chooseCpu, if_pos rfl]
  exact ⟨_, rfl, rfl⟩

/-- **A call adds to the roster, or changes nothing in it.**  When the APIC is not disabled and
there is room it returns the number of the APIC. -/
theorem Refines.genericProcessorInfo_eq (h : Refines cfg s N) {a : BitVec 32} (ha : a ≠ -1)
    (hdisabled : ¬Disabled cfg a) (hroom : HasRoom cfg s a) :
    ∃ cpu s', genericProcessorInfo cfg s a = (.ok cpu, s') ∧ (N.add a).item? cpu = some a ∧
      Refines cfg s' (N.add a) := by
  have hcount := h.count
  have hboot := h.boot_mem_iff
  have hname := h.bootCpuPhysicalApicid
  -- the place of the boot CPU is its own
  have hseen : N.firstSeen = true ∨ a = boot ∨ s.numProcessors + 1 < cfg.nrCpuIds := by
    by_cases hseen : N.firstSeen = true
    · exact .inl hseen
    · by_cases hnum : s.numProcessors ≥ cfg.nrCpuIds - 1
      · exact .inr (.inl ((hroom.2 (hname ▸ mt hboot.1 hseen) hnum).trans hname))
      · exact .inr (.inr (by omega))
  have hplace : a = boot ∨ N.order.length + 1 < cfg.nrCpuIds := by
    rcases hseen with hseen | hseen | hseen
    · rw [hseen] at hcount
      exact .inr (Nat.lt_of_le_of_lt hcount hroom.1)
    · exact .inl hseen
    · exact .inr (by omega)
  obtain ⟨cpu, hcpu, hchoose⟩ := h.chooseCpu_eq ha hplace
  have hcheck : ¬(cfg.disabledCpuApicid ≠ cfg.badApicid ∧
      cfg.disabledCpuApicid ≠ cfg.readApicId ∧ cfg.disabledCpuApicid = a) := hdisabled
  refine ⟨cpu, _, ?_, hcpu, h.register hcpu ?_⟩
  · rw [genericProcessorInfo, if_neg hcheck, if_neg fun hkept =>
      hkept.2.2 (hroom.2 hkept.1 hkept.2.1), if_neg (Nat.not_le_of_lt hroom.1), hchoose]
  · have hlt := hroom.1
    rcases hseen with hseen | hseen | hseen
    · simpa [hseen] using hlt
    · simpa [hseen] using hlt
    · exact Nat.lt_of_le_of_lt (Nat.add_le_add_left (Bool.toNat_le _) _) hseen

end Refines

/-! ### Runs -/

/-- What happens while the tables are read. -/
inductive Act where
  /-- A call, whatever it returns. -/
  | info (apicid : BitVec 32)
  /-- A caller changes `boot_cpu_physical_apicid`. -/
  | setBoot (apicid : BitVec 32)

def step (cfg : Config) (s : State) : Act → Option State
  | .info apicid => some (genericProcessorInfo cfg s apicid).2
  | .setBoot apicid => some { s with bootCpuPhysicalApicid := apicid }

/-- **What is asked of a run**: no call is for the APIC ID `-1`, and no caller changes
`boot_cpu_physical_apicid`. -/
def Listed (_ : State) : Act → Prop
  | .info apicid => apicid ≠ -1
  | .setBoot _ => False

/-- The states that such runs lead to. -/
def Reached (cfg : Config) (s s' : State) : Prop := Reach (step cfg) Listed s s'

section Runs

variable {cfg : Config} {boot : BitVec 32} {s s' : State}

/-- **Every call keeps the variables in step with a roster**, and no number is taken back. -/
theorem Refines.step {N : Roster boot} (h : Refines cfg s N) {a : Act} (hlisted : Listed s a)
    (hstep : CpuIds.step cfg s a = some s') :
    ∃ N' : Roster boot, Refines cfg s' N' ∧ ∀ i b, N.item? i = some b → N'.item? i = some b := by
  cases a with
  | setBoot apicid => exact absurd hlisted id
  | info a =>
      obtain rfl := Option.some.inj hstep
      by_cases hcall : Disabled cfg a ∨ ¬HasRoom cfg s a
      · obtain ⟨e, he⟩ := genericProcessorInfo_refused s hcall
        rw [he]
        exact ⟨N, h.refuse, fun _ _ => id⟩
      · rw [not_or, not_not] at hcall
        obtain ⟨cpu, s', hs', -, hrefines⟩ := h.genericProcessorInfo_eq hlisted hcall.1 hcall.2
        rw [hs']
        exact ⟨N.add a, hrefines, fun i b hi => Roster.item?_add hi a⟩

theorem Refines.reached {N : Roster boot} (h : Refines cfg s N) (hrun : Reached cfg s s') :
    ∃ N' : Roster boot, Refines cfg s' N' ∧ ∀ i b, N.item? i = some b → N'.item? i = some b := by
  refine hrun.inv (I := fun s' => ∃ N' : Roster boot, Refines cfg s' N' ∧
    ∀ i b, N.item? i = some b → N'.item? i = some b) ⟨N, h, fun _ _ => id⟩ ?_
  rintro s₁ a s₂ ⟨N₁, h₁, hkeep₁⟩ hlisted hstep
  obtain ⟨N₂, h₂, hkeep₂⟩ := h₁.step hlisted hstep
  exact ⟨N₂, h₂, fun i b hi => hkeep₂ i b (hkeep₁ i b hi)⟩

theorem exists_refines (hrun : Reached cfg (start cfg boot) s) :
    ∃ N : Roster boot, Refines cfg s N := by
  obtain ⟨N, hN, -⟩ := (refines_start cfg boot).reached hrun
  exact ⟨N, hN⟩

/-- Four CPUs, and none is disabled. -/
def fourCpus : Config := ⟨4, by decide, 0xffff, 0xffff, 0⟩

/-- The APICs 6 and 2 have come, and the one with APIC ID 0 boots. -/
def twoCame : State :=
  (genericProcessorInfo fourCpus (genericProcessorInfo fourCpus (start fourCpus 0) 6).2 2).2

theorem reached_twoCame : Reached fourCpus (start fourCpus 0) twoCame :=
  (Reach.start.next (a := .info 6) (by decide : (6 : BitVec 32) ≠ -1) rfl).next (a := .info 2)
    (by decide : (2 : BitVec 32) ≠ -1) rfl

/-- **Which calls are accepted**, in every run: the APIC is not disabled, and there is room.  The
allocation of a number never fails. -/
theorem accepted_iff (hrun : Reached cfg (start cfg boot) s) {a : BitVec 32} (ha : a ≠ -1) :
    (∃ cpu, (genericProcessorInfo cfg s a).1 = .ok cpu) ↔ ¬Disabled cfg a ∧ HasRoom cfg s a := by
  obtain ⟨N, hN⟩ := exists_refines hrun
  constructor
  · rintro ⟨cpu, hcpu⟩
    by_contra hcall
    rw [Classical.not_and_iff_not_or_not, not_not] at hcall
    obtain ⟨e, he⟩ := genericProcessorInfo_refused s hcall
    rw [he] at hcpu
    cases hcpu
  · rintro ⟨hdisabled, hroom⟩
    obtain ⟨cpu, s', hs', -⟩ := hN.genericProcessorInfo_eq ha hdisabled hroom
    exact ⟨cpu, by rw [hs']⟩

theorem accepted_iff_twoCame :
    (∃ cpu, (genericProcessorInfo fourCpus twoCame 4).1 = .ok cpu) ↔
      ¬Disabled fourCpus 4 ∧ HasRoom fourCpus twoCame 4 :=
  accepted_iff reached_twoCame (by decide)

/-- **The boot CPU always finds its place**, however many other APICs came before it, and gets the
number 0. -/
theorem boot_accepted (hrun : Reached cfg (start cfg boot) s) (hdisabled : ¬Disabled cfg boot)
    (hfirst : boot ∉ s.physCpuPresentMap) : (genericProcessorInfo cfg s boot).1 = .ok 0 := by
  obtain ⟨N, hN⟩ := exists_refines hrun
  have hseen : N.firstSeen = false := Bool.eq_false_iff.2 (mt hN.boot_mem_iff.2 hfirst)
  have hroom := hN.room
  rw [hseen] at hroom
  obtain rfl := hN.bootCpuPhysicalApicid
  obtain ⟨s', hs', -⟩ := genericProcessorInfo_boot hdisabled (Nat.lt_of_succ_le hroom)
  rw [hs']

theorem boot_accepted_twoCame : (genericProcessorInfo fourCpus twoCame 0).1 = .ok 0 :=
  boot_accepted reached_twoCame (fun h => h.1 rfl) (by decide)

/-- What an accepted call returns. -/
theorem Refines.of_accepted {N : Roster boot} (h : Refines cfg s N) {a : BitVec 32}
    (ha : a ≠ -1) {cpu : ℕ} (hcall : genericProcessorInfo cfg s a = (.ok cpu, s')) :
    (N.add a).item? cpu = some a ∧ Refines cfg s' (N.add a) := by
  by_cases hrefused : Disabled cfg a ∨ ¬HasRoom cfg s a
  · obtain ⟨e, he⟩ := genericProcessorInfo_refused s hrefused
    rw [he] at hcall
    cases hcall
  · rw [not_or, not_not] at hrefused
    obtain ⟨cpu', s'', hs'', hcpu, hrefines⟩ :=
      h.genericProcessorInfo_eq ha hrefused.1 hrefused.2
    rw [hs''] at hcall
    cases hcall
    exact ⟨hcpu, hrefines⟩

/-- **Over a whole run, two calls return the same CPU exactly when they are for the same APIC**,
whatever calls come between them. -/
theorem same_cpu_iff {s₁ s₁' s₂ s₂' : State} {a b : BitVec 32} {i j : ℕ} (ha : a ≠ -1)
    (hb : b ≠ -1) (h₁ : Reached cfg (start cfg boot) s₁)
    (hcall₁ : genericProcessorInfo cfg s₁ a = (.ok i, s₁')) (h₂ : Reached cfg s₁' s₂)
    (hcall₂ : genericProcessorInfo cfg s₂ b = (.ok j, s₂')) : i = j ↔ a = b := by
  obtain ⟨N₁, hN₁⟩ := exists_refines h₁
  obtain ⟨hi, hN₁'⟩ := hN₁.of_accepted ha hcall₁
  obtain ⟨N₂, hN₂, hkeep⟩ := hN₁'.reached h₂
  obtain ⟨hj, -⟩ := hN₂.of_accepted hb hcall₂
  -- the number of the first call is still there after the second one
  have hi' : (N₂.add b).item? i = some a := Roster.item?_add (hkeep i a hi) b
  constructor
  · rintro rfl
    exact Option.some.inj (hi'.symm.trans hj)
  · rintro rfl
    exact Roster.item?_injective hi' hj

theorem same_cpu_iff_twoCame : ∃ i j s s',
    genericProcessorInfo fourCpus (start fourCpus 0) 6 = (.ok i, s) ∧
      genericProcessorInfo fourCpus twoCame 6 = (.ok j, s') ∧
        (i = j ↔ (6 : BitVec 32) = 6) := by
  have hfirst : (genericProcessorInfo fourCpus (start fourCpus 0) 6).1 = .ok 1 := by rfl
  have hagain : (genericProcessorInfo fourCpus twoCame 6).1 = .ok 1 := by rfl
  have hcall : genericProcessorInfo fourCpus (start fourCpus 0) 6 = (.ok 1, _) :=
    Prod.ext hfirst rfl
  have hcall' : genericProcessorInfo fourCpus twoCame 6 = (.ok 1, _) := Prod.ext hagain rfl
  have hbetween : Reached fourCpus (genericProcessorInfo fourCpus (start fourCpus 0) 6).2 twoCame :=
    Reach.start.next (a := .info 2) (by decide : (2 : BitVec 32) ≠ -1) rfl
  exact ⟨1, 1, _, _, hcall, hcall',
    same_cpu_iff (by decide) (by decide) .start hcall hbetween hcall'⟩

/-- Where `boot_cpu_physical_apicid` is changed between two calls, two APICs get the number 0. -/
theorem exists_both_zero (hnr : 1 < cfg.nrCpuIds) {a b : BitVec 32} (ha : ¬Disabled cfg a)
    (hb : ¬Disabled cfg b) :
    ∃ s₁ s₂ s₃, genericProcessorInfo cfg (start cfg a) a = (.ok 0, s₁) ∧
      step cfg s₁ (.setBoot b) = some s₂ ∧ genericProcessorInfo cfg s₂ b = (.ok 0, s₃) := by
  obtain ⟨s₁, hs₁, hnum⟩ := genericProcessorInfo_boot (s := start cfg a) ha cfg.nrCpuIds_pos
  have hlt : s₁.numProcessors < cfg.nrCpuIds := hnum.symm ▸ hnr
  obtain ⟨s₃, hs₃, -⟩ :=
    genericProcessorInfo_boot (s := { s₁ with bootCpuPhysicalApicid := b }) hb hlt
  exact ⟨s₁, _, s₃, hs₁, rfl, hs₃⟩

/-- **The tables by CPU tell the APICs apart**, in every run, if the APIC IDs fit into 16 bits and
none of them is `BAD_APICID`, the entry of a CPU whose APIC has not come: the CPUs that are present
have numbers below the limit, no two of them have the same APIC ID, and the APIC IDs that they have
are those of the mask, the greatest of which is known. -/
theorem tables_agree (hrun : Reached cfg (start cfg boot) s)
    (hfit : ∀ a ∈ s.physCpuPresentMap,
      a.toNat < 2 ^ 16 ∧ a.setWidth 16 ≠ cfg.badApicid.setWidth 16) :
    (∀ i ∈ s.cpuPresent, i < cfg.nrCpuIds) ∧
      (∀ i j, s.x86CpuToApicid i ≠ cfg.badApicid.setWidth 16 →
        s.x86CpuToApicid i = s.x86CpuToApicid j → i = j) ∧
      (∀ a : BitVec 32, a.toNat < 2 ^ 16 → a.setWidth 16 ≠ cfg.badApicid.setWidth 16 →
        (a ∈ s.physCpuPresentMap ↔ ∃ i ∈ s.cpuPresent, s.x86CpuToApicid i = a.setWidth 16)) ∧
      s.maxPhysicalApicid.toNat = s.physCpuPresentMap.sup BitVec.toNat := by
  obtain ⟨N, hN⟩ := exists_refines hrun
  have hknown : ∀ {i a}, N.item? i = some a → a.toNat < 2 ^ 16 := fun {i a} hi =>
    (hfit a ((hN.physCpuPresentMap a).2 ⟨i, hi⟩)).1
  -- an APIC ID is known by its 16 bits
  have hwidth : ∀ {a b : BitVec 32}, a.toNat < 2 ^ 16 → b.toNat < 2 ^ 16 →
      a.setWidth 16 = b.setWidth 16 → a = b := by
    intro a b ha hb h
    have htoNat := congrArg BitVec.toNat h
    rw [BitVec.toNat_setWidth, BitVec.toNat_setWidth, Nat.mod_eq_of_lt ha, Nat.mod_eq_of_lt hb]
      at htoNat
    exact BitVec.eq_of_toNat_eq htoNat
  have hentry : ∀ {i a}, N.item? i = some a → s.x86CpuToApicid i = a.setWidth 16 := by
    intro i a hi
    rw [hN.x86CpuToApicid, hi]
    rfl
  -- an entry other than the mark is that of an APIC which has come
  have hcame : ∀ {i}, s.x86CpuToApicid i ≠ cfg.badApicid.setWidth 16 → ∃ a, N.item? i = some a := by
    intro i hi
    cases hitem : N.item? i with
    | some a => exact ⟨a, rfl⟩
    | none =>
        rw [hN.x86CpuToApicid, hitem] at hi
        exact absurd rfl hi
  refine ⟨fun i hi => ?_, fun i j hi hij => ?_, fun a ha hbad => ?_, hN.maxPhysicalApicid⟩
  · have hle := (hN.cpuPresent i).1 hi
    have hcount := hN.count
    have hroom := hN.room
    cases hseen : N.firstSeen with
    | false =>
        simp only [hseen, Bool.not_false, Bool.toNat_true, Bool.toNat_false] at hcount hroom
        omega
    | true =>
        simp only [hseen, Bool.not_true, Bool.toNat_true, Bool.toNat_false] at hcount hroom
        omega
  · obtain ⟨a, ha⟩ := hcame hi
    obtain ⟨b, hb⟩ := hcame (hij ▸ hi)
    rw [hentry ha, hentry hb] at hij
    obtain rfl := hwidth (hknown ha) (hknown hb) hij
    exact Roster.item?_injective ha hb
  · rw [hN.physCpuPresentMap]
    constructor
    · rintro ⟨i, hi⟩
      refine ⟨i, (hN.cpuPresent i).2 ?_, hentry hi⟩
      cases i with
      | zero => exact Nat.zero_le _
      | succ i => exact (List.getElem?_eq_some_iff.1 hi).1
    · rintro ⟨i, -, hi⟩
      obtain ⟨b, hb⟩ := hcame (i := i) (hi ▸ hbad)
      rw [hentry hb] at hi
      exact ⟨i, hwidth (hknown hb) ha hi ▸ hb⟩

theorem tables_agree_twoCame :
    (∀ i ∈ twoCame.cpuPresent, i < fourCpus.nrCpuIds) ∧
      (∀ i j, twoCame.x86CpuToApicid i ≠ fourCpus.badApicid.setWidth 16 →
        twoCame.x86CpuToApicid i = twoCame.x86CpuToApicid j → i = j) ∧
      (∀ a : BitVec 32, a.toNat < 2 ^ 16 → a.setWidth 16 ≠ fourCpus.badApicid.setWidth 16 →
        (a ∈ twoCame.physCpuPresentMap ↔
          ∃ i ∈ twoCame.cpuPresent, twoCame.x86CpuToApicid i = a.setWidth 16)) ∧
      twoCame.maxPhysicalApicid.toNat = twoCame.physCpuPresentMap.sup BitVec.toNat := by
  have hmap : twoCame.physCpuPresentMap = {2, 6} := rfl
  refine tables_agree reached_twoCame fun a ha => ?_
  rw [hmap, Finset.mem_insert, Finset.mem_singleton] at ha
  rcases ha with rfl | rfl
  · decide
  · decide

end Runs

end CpuIds

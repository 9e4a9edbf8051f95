/-
**The extended LVT entries of the local APIC.**

The vectors of the extended entries should be the same on every core, so the kernel keeps a table of
the offsets that are in use.  `setup_APIC_eilvt` reserves an offset in it before it writes the
register of its own CPU.  The table is read and written without a lock, by a loop around a compare
and exchange, and any number of CPUs may be in the loop at a time.  Here a step is one access to
the table by one CPU, or the last part of the call, which is local to the CPU.

An entry is freed by storing the value that has the mask bit only.  Nothing ties this to the
registers of the other CPUs, so the cores agree as long as no entry is freed.

The loop ends when the exchange returns the value that was to be stored, so it goes round at least
once after it has stored it.  Two CPUs that store the same vector, one of them masked, can keep each
other in the loop.

Main definitions:

* `ExtendedLvt.State`, `ExtendedLvt.step` — the table, the registers and the calls, and their steps;
* `ExtendedLvt.Grants` — the step in which a reservation succeeds;
* `ExtendedLvt.Frees` — the steps that free an offset.

Main results:

* `ExtendedLvt.vectorOf_stable` — **an offset keeps its vector until it is freed**;
* `ExtendedLvt.grants_agree` — two reservations without a release between them agree;
* `ExtendedLvt.regs_agree` — **without a release, all cores have the same vector at an offset**;
* `ExtendedLvt.returns_alone` — a call returns when the other CPUs leave its offset alone while it
  is in the loop;
* `ExtendedLvt.exists_endless` — two calls that keep each other in the loop.
-/

import Mathlib.Data.Int.Notation
import Mathlib.Logic.Function.Basic
import ResumeFromEdk2.StepSystem

set_option relaxedAutoImplicit false
set_option autoImplicit false

namespace ExtendedLvt

open StepSystem

/-! ### Entries -/

/-- `APIC_EILVT_MASKED`, the bit that `setup_APIC_eilvt` sets for `mask = 1`. -/
def eilvtMasked : BitVec 32 := 1#32 <<< 16

/-- The vector of an entry, with the message type; `0` is unassigned. -/
def vectorOf (e : BitVec 32) : BitVec 32 := e &&& ~~~eilvtMasked

/-- `eilvt_entry_is_changeable` -/
def eilvtEntryIsChangeable (old new : BitVec 32) : Bool :=
  old &&& eilvtMasked != 0 || new == eilvtMasked || new &&& ~~~eilvtMasked == old

/-- The new entry in `setup_APIC_eilvt`. -/
def newEntry (vector msgType mask : BitVec 8) : BitVec 32 :=
  mask.setWidth 32 <<< 16 ||| msgType.setWidth 32 <<< 8 ||| vector.setWidth 32

theorem vectorOf_and_eilvtMasked (e : BitVec 32) : vectorOf e &&& eilvtMasked = 0 := by
  rw [vectorOf, BitVec.and_assoc, BitVec.and_comm (~~~eilvtMasked), eilvtMasked]
  simp

@[simp] theorem vectorOf_eilvtMasked : vectorOf eilvtMasked = 0 := by decide

@[simp] theorem vectorOf_zero : vectorOf 0 = 0 := by decide

/-- **What the check of the table lets through**: a release, or the same vector. -/
theorem changeable_vectorOf_iff (e new : BitVec 32) :
    eilvtEntryIsChangeable (vectorOf e) new = true ↔
      new = eilvtMasked ∨ vectorOf new = vectorOf e := by
  rw [eilvtEntryIsChangeable, vectorOf_and_eilvtMasked]
  simp [vectorOf]

/-- The entries are below `~0`, which stands for an offset out of range. -/
theorem newEntry_ne_allOnes (vector msgType mask : BitVec 8) :
    newEntry vector msgType mask ≠ BitVec.allOnes 32 := by
  intro h
  have hbit := congrArg (fun e : BitVec 32 => e.getLsbD 31) h
  simp [newEntry] at hbit

/-! ### States -/

/-- Where the call of a CPU stands. -/
inductive Pc where
  | idle
  /-- Before `atomic_read`. -/
  | reserve (offset : ℕ) (new old : BitVec 32)
  /-- At the head of the loop. -/
  | loop (offset : ℕ) (new old rsvd : BitVec 32)
  /-- `reserve_eilvt_offset` has returned. -/
  | reserved (offset : ℕ) (new old reserved : BitVec 32)
  | returned (rc : ℤ)
  deriving DecidableEq

/-- No call is in progress. -/
def Pc.isFree : Pc → Bool
  | .idle | .returned _ => true
  | _ => false

/-- CPUs and offsets are numbered. -/
structure State where
  /-- `eilvt_offsets` -/
  eilvtOffsets : ℕ → BitVec 32
  /-- The registers `APIC_EILVTn` of each CPU. -/
  regs : ℕ → ℕ → BitVec 32
  /-- The registers that a call has written since boot, of which the kernel keeps no record. -/
  written : ℕ → ℕ → Bool
  pc : ℕ → Pc

inductive Act where
  | call (cpu : ℕ) (offset vector msgType mask : BitVec 8)
  | run (cpu : ℕ)
  deriving DecidableEq

def State.setPc (s : State) (c : ℕ) (pc : Pc) : State := { s with pc := Function.update s.pc c pc }

@[simp] theorem State.eilvtOffsets_setPc (s : State) (c : ℕ) (pc : Pc) :
    (s.setPc c pc).eilvtOffsets = s.eilvtOffsets := rfl

@[simp] theorem State.regs_setPc (s : State) (c : ℕ) (pc : Pc) : (s.setPc c pc).regs = s.regs := rfl

@[simp] theorem State.written_setPc (s : State) (c : ℕ) (pc : Pc) :
    (s.setPc c pc).written = s.written := rfl

@[simp] theorem State.pc_setPc (s : State) (c : ℕ) (pc : Pc) :
    (s.setPc c pc).pc = Function.update s.pc c pc := rfl

def EINVAL : ℤ := 22

def EBUSY : ℤ := 16

/-- `atomic_cmpxchg`: the value that was there, and the table afterwards. -/
def atomicCmpxchg (m : ℕ → BitVec 32) (offset : ℕ) (old new : BitVec 32) :
    BitVec 32 × (ℕ → BitVec 32) :=
  (m offset, if m offset = old then Function.update m offset new else m)

/-- A round of the loop. -/
def round (s : State) (c offset : ℕ) (new old rsvd : BitVec 32) : State :=
  let vector := vectorOf rsvd
  if vector ≠ 0 ∧ eilvtEntryIsChangeable vector new = false then
    s.setPc c (.reserved offset new old rsvd)
  else
    let (rsvd, eilvtOffsets) := atomicCmpxchg s.eilvtOffsets offset rsvd new
    let s := { s with eilvtOffsets }
    if rsvd ≠ new then s.setPc c (.loop offset new old rsvd)
    else s.setPc c (.reserved offset new old new)

/-- `apic_write` of an entry on CPU `c`. -/
def State.apicWrite (s : State) (c offset : ℕ) (new : BitVec 32) : State :=
  { s with
    regs := Function.update s.regs c (Function.update (s.regs c) offset new)
    written := Function.update s.written c (Function.update (s.written c) offset true) }

@[simp] theorem State.eilvtOffsets_apicWrite (s : State) (c o : ℕ) (new : BitVec 32) :
    (s.apicWrite c o new).eilvtOffsets = s.eilvtOffsets := rfl

@[simp] theorem State.pc_apicWrite (s : State) (c o : ℕ) (new : BitVec 32) :
    (s.apicWrite c o new).pc = s.pc := rfl

/-- The effect of `apic_write` on a register and on the record of it. -/
theorem State.apicWrite_reg (s : State) (c o : ℕ) (new : BitVec 32) (d o' : ℕ) :
    (s.apicWrite c o new).regs d o' = (if d = c ∧ o' = o then new else s.regs d o') ∧
      (s.apicWrite c o new).written d o' =
        (if d = c ∧ o' = o then true else s.written d o') := by
  rw [apicWrite]
  by_cases hd : d = c
  · subst hd
    by_cases ho : o' = o
    · subst ho
      simp
    · simp [ho]
  · simp [hd]

/-- `setup_APIC_eilvt` after the reservation. -/
def finish (s : State) (c offset : ℕ) (new old reserved : BitVec 32) : State :=
  if reserved ≠ new then s.setPc c (.returned (-EINVAL))
  else if eilvtEntryIsChangeable old new = false then s.setPc c (.returned (-EBUSY))
  else (s.apicWrite c offset new).setPc c (.returned 0)

/-- **A step**: a call begins, or a call goes on.  The table has `nrMax` entries. -/
def step (nrMax : ℕ) (s : State) : Act → Option State
  | .call c offset vector msgType mask =>
      if (s.pc c).isFree then
        some (s.setPc c (.reserve offset.toNat (newEntry vector msgType mask)
          (s.regs c offset.toNat)))
      else none
  | .run c =>
      match s.pc c with
      | .idle | .returned _ => none
      | .reserve offset new old =>
          if offset ≥ nrMax then some (s.setPc c (.reserved offset new old (BitVec.allOnes 32)))
          else some (s.setPc c (.loop offset new old (s.eilvtOffsets offset)))
      | .loop offset new old rsvd => some (round s c offset new old rsvd)
      | .reserved offset new old reserved => some (finish s c offset new old reserved)

/-- No offset is reserved, and the registers are as the firmware has left them. -/
def boot (regs : ℕ → ℕ → BitVec 32) : State :=
  ⟨fun _ => 0, regs, fun _ _ => false, fun _ => .idle⟩

/-! ### What a step does -/

/-- The check of the loop lets the new entry through. -/
def MayStore (e new : BitVec 32) : Prop :=
  vectorOf e = 0 ∨ new = eilvtMasked ∨ vectorOf new = vectorOf e

theorem mayStore_self (e : BitVec 32) : MayStore e e := .inr (.inr rfl)

theorem not_mayStore_iff (e new : BitVec 32) :
    (vectorOf e ≠ 0 ∧ eilvtEntryIsChangeable (vectorOf e) new = false) ↔ ¬MayStore e new := by
  rw [MayStore, not_or, ← changeable_vectorOf_iff, Bool.not_eq_true]

/-- **What a step can do.** -/
inductive Stepped (nrMax : ℕ) (s : State) : Act → State → Prop
  | call (c : ℕ) (offset vector msgType mask : BitVec 8) : (s.pc c).isFree = true →
      Stepped nrMax s (.call c offset vector msgType mask)
        (s.setPc c (.reserve offset.toNat (newEntry vector msgType mask) (s.regs c offset.toNat)))
  | outOfRange {c o : ℕ} {new old : BitVec 32} : s.pc c = .reserve o new old → nrMax ≤ o →
      Stepped nrMax s (.run c) (s.setPc c (.reserved o new old (BitVec.allOnes 32)))
  | read {c o : ℕ} {new old : BitVec 32} : s.pc c = .reserve o new old → o < nrMax →
      Stepped nrMax s (.run c) (s.setPc c (.loop o new old (s.eilvtOffsets o)))
  | conflict {c o : ℕ} {new old rsvd : BitVec 32} : s.pc c = .loop o new old rsvd →
      ¬MayStore rsvd new → Stepped nrMax s (.run c) (s.setPc c (.reserved o new old rsvd))
  /-- The exchange succeeds, which the loop does not see. -/
  | store {c o : ℕ} {new old : BitVec 32} : s.pc c = .loop o new old (s.eilvtOffsets o) →
      MayStore (s.eilvtOffsets o) new → s.eilvtOffsets o ≠ new →
      Stepped nrMax s (.run c)
        ({ s with eilvtOffsets := Function.update s.eilvtOffsets o new }.setPc c
          (.loop o new old (s.eilvtOffsets o)))
  | again {c o : ℕ} {new old rsvd : BitVec 32} : s.pc c = .loop o new old rsvd →
      MayStore rsvd new → s.eilvtOffsets o ≠ rsvd → s.eilvtOffsets o ≠ new →
      Stepped nrMax s (.run c) (s.setPc c (.loop o new old (s.eilvtOffsets o)))
  | granted {c o : ℕ} {new old rsvd : BitVec 32} : s.pc c = .loop o new old rsvd →
      MayStore rsvd new → s.eilvtOffsets o = new →
      Stepped nrMax s (.run c) (s.setPc c (.reserved o new old new))
  | refused {c o : ℕ} {new old reserved : BitVec 32} {rc : ℤ} :
      s.pc c = .reserved o new old reserved → rc ≠ 0 →
      Stepped nrMax s (.run c) (s.setPc c (.returned rc))
  | write {c o : ℕ} {new old : BitVec 32} : s.pc c = .reserved o new old new →
      eilvtEntryIsChangeable old new = true →
      Stepped nrMax s (.run c) ((s.apicWrite c o new).setPc c (.returned 0))

section Step

variable {nrMax : ℕ} {s s' : State} {a : Act}

/-- A round of the loop, in the order of the cases. -/
theorem stepped_round {c o : ℕ} {new old rsvd : BitVec 32} (h : s.pc c = .loop o new old rsvd) :
    Stepped nrMax s (.run c) (round s c o new old rsvd) := by
  by_cases hstore : MayStore rsvd new
  · have hcheck := mt (not_mayStore_iff rsvd new).1 (not_not.2 hstore)
    rw [round, if_neg hcheck, atomicCmpxchg]
    dsimp only
    by_cases hnew : s.eilvtOffsets o = new
    · have hsame : (if s.eilvtOffsets o = rsvd then Function.update s.eilvtOffsets o new
          else s.eilvtOffsets) = s.eilvtOffsets := by
        rw [← hnew, Function.update_eq_self, ite_self]
      rw [if_neg (not_not.2 hnew), hsame]
      exact .granted h hstore hnew
    · rw [if_pos hnew]
      by_cases hrsvd : s.eilvtOffsets o = rsvd
      · rw [if_pos hrsvd]
        subst hrsvd
        exact .store h hstore hnew
      · rw [if_neg hrsvd]
        exact .again h hstore hrsvd hnew
  · rw [round, if_pos ((not_mayStore_iff rsvd new).2 hstore)]
    exact .conflict h hstore

theorem stepped_finish {c o : ℕ} {new old reserved : BitVec 32}
    (h : s.pc c = .reserved o new old reserved) :
    Stepped nrMax s (.run c) (finish s c o new old reserved) := by
  by_cases hreserved : reserved = new
  · subst hreserved
    rw [finish, if_neg (not_not.2 rfl)]
    cases hold : eilvtEntryIsChangeable old reserved with
    | false =>
        rw [if_pos rfl]
        exact .refused h (by decide)
    | true =>
        rw [if_neg (by decide)]
        exact .write h hold
  · rw [finish, if_pos hreserved]
    exact .refused h (by decide)

theorem stepped_of_step (h : step nrMax s a = some s') : Stepped nrMax s a s' := by
  cases a with
  | call c offset vector msgType mask =>
      rw [step] at h
      split at h
      · next hfree =>
          obtain rfl := Option.some.inj h
          exact .call c offset vector msgType mask hfree
      · cases h
  | run c =>
      rw [step] at h
      cases hpc : s.pc c with
      | idle => rw [hpc] at h; cases h
      | returned rc => rw [hpc] at h; cases h
      | reserve o new old =>
          rw [hpc] at h
          dsimp only at h
          split at h
          · next hrange =>
              obtain rfl := Option.some.inj h
              exact .outOfRange hpc hrange
          · next hrange =>
              obtain rfl := Option.some.inj h
              exact .read hpc (Nat.lt_of_not_le hrange)
      | loop o new old rsvd =>
          rw [hpc] at h
          obtain rfl := Option.some.inj h
          exact stepped_round hpc
      | reserved o new old reserved =>
          rw [hpc] at h
          obtain rfl := Option.some.inj h
          exact stepped_finish hpc

/-- A call that has not returned can always go on. -/
theorem exists_step_run {c : ℕ} (h : (s.pc c).isFree = false) :
    ∃ s', step nrMax s (.run c) = some s' := by
  rw [step]
  cases hpc : s.pc c with
  | idle => rw [hpc] at h; cases h
  | returned rc => rw [hpc] at h; cases h
  | reserve o new old =>
      by_cases hrange : o ≥ nrMax
      · exact ⟨_, if_pos hrange⟩
      · exact ⟨_, if_neg hrange⟩
  | loop o new old rsvd => exact ⟨_, rfl⟩
  | reserved o new old reserved => exact ⟨_, rfl⟩

/-- **What a step does to the table**: nothing, or it stores an entry that the check has let through
over the value that is there. -/
theorem eilvtOffsets_of_step (h : step nrMax s a = some s') :
    s'.eilvtOffsets = s.eilvtOffsets ∨ ∃ o new, MayStore (s.eilvtOffsets o) new ∧
      s'.eilvtOffsets = Function.update s.eilvtOffsets o new := by
  cases stepped_of_step h with
  | store hpc hstore hne => exact .inr ⟨_, _, hstore, rfl⟩
  | _ => exact .inl rfl

end Step

/-! ### Reservations -/

section Reserve

variable {nrMax c d o : ℕ} {s s' s₀ s₁ s₂ s₃ : State} {new new' : BitVec 32}

/-- **The step in which a reservation succeeds**: the loop ends with the new entry. -/
structure Grants (nrMax : ℕ) (s : State) (c o : ℕ) (new : BitVec 32) (s' : State) : Prop where
  step : step nrMax s (.run c) = some s'
  before : ∃ old rsvd, s.pc c = .loop o new old rsvd
  after : ∃ old, s'.pc c = .reserved o new old new

/-- The step frees the offset. -/
def Frees (nrMax o : ℕ) (s : State) (a : Act) : Prop :=
  ∃ s', step nrMax s a = some s' ∧ s.eilvtOffsets o ≠ eilvtMasked ∧
    s'.eilvtOffsets o = eilvtMasked

/-- **An offset keeps its vector until it is freed**, whatever the calls of the CPUs are and however
their steps are interleaved. -/
theorem vectorOf_stable (h : Reach (step nrMax) (fun s a => ¬Frees nrMax o s a) s s')
    (hv : vectorOf (s.eilvtOffsets o) ≠ 0) :
    vectorOf (s'.eilvtOffsets o) = vectorOf (s.eilvtOffsets o) := by
  refine h.inv (I := fun s' => vectorOf (s'.eilvtOffsets o) = vectorOf (s.eilvtOffsets o)) rfl ?_
  intro s₁ a s₂ ih hfrees hstep
  rcases eilvtOffsets_of_step hstep with heq | ⟨o', new, hstore, heq⟩
  · rw [heq, ih]
  · by_cases ho : o = o'
    · subst ho
      rw [heq, Function.update_self]
      rcases hstore with hzero | rfl | hsame
      · exact absurd (ih.symm.trans hzero) hv
      · -- the mask alone is stored where it was not, so the offset is freed
        refine absurd ⟨s₂, hstep, ?_, by rw [heq, Function.update_self]⟩ hfrees
        intro hmasked
        exact hv (by rw [← ih, hmasked, vectorOf_eilvtMasked])
      · rw [hsame, ih]
    · rw [heq, Function.update_of_ne ho, ih]

/-- The table has the entry that is granted. -/
theorem Grants.eilvtOffsets_eq (h : Grants nrMax s c o new s') :
    s.eilvtOffsets o = new ∧ s'.eilvtOffsets = s.eilvtOffsets := by
  obtain ⟨hstep, ⟨old, rsvd, hpc⟩, old', hpc'⟩ := h
  cases stepped_of_step hstep with
  | outOfRange hpc'' _ => rw [hpc] at hpc''; cases hpc''
  | read hpc'' _ => rw [hpc] at hpc''; cases hpc''
  | refused hpc'' _ => rw [hpc] at hpc''; cases hpc''
  | write hpc'' _ => rw [hpc] at hpc''; cases hpc''
  | store _ _ _ => simp at hpc'
  | again _ _ _ _ => simp at hpc'
  | conflict hpc'' hstore =>
      rw [hpc] at hpc''
      injection hpc'' with ho hnew hold hrsvd
      subst ho hnew hrsvd
      simp only [State.pc_setPc, Function.update_self] at hpc'
      injection hpc' with _ _ _ hsame
      subst hsame
      exact absurd (mayStore_self _) hstore
  | granted hpc'' hstore hnew =>
      rw [hpc] at hpc''
      injection hpc'' with ho hnew' hold hrsvd
      subst ho hnew'
      exact ⟨hnew, rfl⟩

/-- **Two reservations of an offset agree**, unless it is freed between them: no two CPUs are
granted different vectors. -/
theorem grants_agree (h : Grants nrMax s₀ c o new s₁)
    (hrun : Reach (step nrMax) (fun s a => ¬Frees nrMax o s a) s₁ s₂)
    (h' : Grants nrMax s₂ d o new' s₃) (hv : vectorOf new ≠ 0) :
    vectorOf new' = vectorOf new := by
  obtain ⟨hnew, htable⟩ := h.eilvtOffsets_eq
  have hfirst : s₁.eilvtOffsets o = new := by rw [htable, hnew]
  have hstable := vectorOf_stable hrun (hfirst.symm ▸ hv)
  rw [← h'.eilvtOffsets_eq.1, hstable, hfirst]

end Reserve

/-- CPU 0 has stored the vector `0xf9`, and CPU 1 begins a call for the same one. -/
def storing : State where
  eilvtOffsets _ := 0xf9
  regs _ _ := 0
  written _ _ := false
  pc c := if c = 0 then .loop 0 0xf9 0 0 else .reserve 0 0xf9 0

theorem grants_agree_storing : ∃ s₁ s₂ s₃, Grants 4 storing 0 0 0xf9 s₁ ∧
    Reach (step 4) (fun s a => ¬Frees 4 0 s a) s₁ s₂ ∧ Grants 4 s₂ 1 0 0xf9 s₃ ∧
      vectorOf 0xf9 = vectorOf 0xf9 := by
  have hgrant : Grants 4 storing 0 0 0xf9 (storing.setPc 0 (.reserved 0 0xf9 0 0xf9)) :=
    ⟨rfl, ⟨_, _, rfl⟩, _, rfl⟩
  have hkept : ∀ s', step 4 (storing.setPc 0 (.reserved 0 0xf9 0 0xf9)) (.run 1) = some s' →
      s'.eilvtOffsets 0 ≠ eilvtMasked := by
    rintro s' hs
    obtain rfl := Option.some.inj hs
    decide
  have hread : Reach (step 4) (fun s a => ¬Frees 4 0 s a)
      (storing.setPc 0 (.reserved 0 0xf9 0 0xf9)) _ :=
    Reach.start.next (fun ⟨s', hs, _, hmasked⟩ => hkept s' hs hmasked) rfl
  have hgrant' : Grants 4
      ((storing.setPc 0 (.reserved 0 0xf9 0 0xf9)).setPc 1 (.loop 0 0xf9 0 0xf9)) 1 0 0xf9 _ :=
    ⟨rfl, ⟨_, _, rfl⟩, _, rfl⟩
  exact ⟨_, _, _, hgrant, hread, hgrant', grants_agree hgrant hread hgrant' (by decide)⟩

/-! ### Registers -/

/-- The offset and the new entry of a call in progress. -/
def Pc.toStore : Pc → Option (ℕ × BitVec 32)
  | .reserve o new _ | .loop o new _ _ | .reserved o new _ _ => some (o, new)
  | _ => none

/-- No call frees an offset. -/
def Keeps (_ : State) : Act → Prop
  | .call _ _ vector msgType mask => newEntry vector msgType mask ≠ eilvtMasked
  | .run _ => True

/-- **The invariant of runs in which no offset is freed.**  The calls have entries that the table
may have, a call that is granted has the vector of the table, and so has every register that was
written; the others are as the firmware has left them. -/
structure Agree (regs₀ : ℕ → ℕ → BitVec 32) (s : State) : Prop where
  entries : ∀ c o new, (s.pc c).toStore = some (o, new) →
    new ≠ eilvtMasked ∧ new ≠ BitVec.allOnes 32
  granted : ∀ c o new old, s.pc c = .reserved o new old new →
    vectorOf new = 0 ∨ vectorOf new = vectorOf (s.eilvtOffsets o)
  regs : ∀ c o, s.written c o = true → vectorOf (s.regs c o) = 0 ∨
    vectorOf (s.regs c o) = vectorOf (s.eilvtOffsets o)
  others : ∀ c o, s.written c o = false → s.regs c o = regs₀ c o

section Registers

variable {nrMax : ℕ} {regs₀ : ℕ → ℕ → BitVec 32} {s s' : State} {a : Act}

theorem agree_boot (regs₀ : ℕ → ℕ → BitVec 32) : Agree regs₀ (boot regs₀) where
  entries c o new h := by simp [boot, Pc.toStore] at h
  granted c o new old h := by simp [boot] at h
  regs c o h := by cases h
  others c o _ := rfl

/-- A step of the calls that touches neither the table nor the registers. -/
theorem Agree.setPc (h : Agree regs₀ s) {c : ℕ} {pc : Pc}
    (hentry : ∀ o new, pc.toStore = some (o, new) → new ≠ eilvtMasked ∧ new ≠ BitVec.allOnes 32)
    (hgranted : ∀ o new old, pc = .reserved o new old new →
      vectorOf new = 0 ∨ vectorOf new = vectorOf (s.eilvtOffsets o)) :
    Agree regs₀ (s.setPc c pc) where
  entries d o new hd := by
    rw [State.pc_setPc] at hd
    by_cases hdc : d = c
    · subst hdc
      rw [Function.update_self] at hd
      exact hentry o new hd
    · rw [Function.update_of_ne hdc] at hd
      exact h.entries d o new hd
  granted d o new old hd := by
    rw [State.pc_setPc] at hd
    by_cases hdc : d = c
    · subst hdc
      rw [Function.update_self] at hd
      exact hgranted o new old hd
    · rw [Function.update_of_ne hdc] at hd
      exact h.granted d o new old hd
  regs := h.regs
  others := h.others

/-- Storing an entry keeps the vectors that are in use. -/
theorem Agree.store (h : Agree regs₀ s) {o : ℕ} {new : BitVec 32}
    (hstore : MayStore (s.eilvtOffsets o) new) (hkeep : new ≠ eilvtMasked) :
    Agree regs₀ { s with eilvtOffsets := Function.update s.eilvtOffsets o new } := by
  -- a vector that is in the table stays there
  have hvector : ∀ {v o'}, v = 0 ∨ v = vectorOf (s.eilvtOffsets o') →
      v = 0 ∨ v = vectorOf (Function.update s.eilvtOffsets o new o') := by
    rintro v o' (hv | hv)
    · exact .inl hv
    · by_cases ho : o' = o
      · subst ho
        rw [Function.update_self]
        rcases hstore with hzero | hmasked | hsame
        · exact .inl (hv.trans hzero)
        · exact absurd hmasked hkeep
        · exact .inr (hv.trans hsame.symm)
      · rw [Function.update_of_ne ho]
        exact .inr hv
  exact ⟨h.entries, fun c o' new' old hc => hvector (h.granted c o' new' old hc),
    fun c o' hc => hvector (h.regs c o' hc), h.others⟩

/-- Writing the register of a call that is granted keeps the vectors of the registers. -/
theorem Agree.write (h : Agree regs₀ s) {c o : ℕ} {new old : BitVec 32}
    (hpc : s.pc c = .reserved o new old new) : Agree regs₀ (s.apicWrite c o new) := by
  refine ⟨h.entries, h.granted, fun d o' hd => ?_, fun d o' hd => ?_⟩
  · obtain ⟨hreg, hrecord⟩ := s.apicWrite_reg c o new d o'
    rw [hreg, State.eilvtOffsets_apicWrite]
    rw [hrecord] at hd
    by_cases hsame : d = c ∧ o' = o
    · obtain ⟨rfl, rfl⟩ := hsame
      rw [if_pos ⟨rfl, rfl⟩]
      exact h.granted _ _ _ _ hpc
    · rw [if_neg hsame] at hd ⊢
      exact h.regs d o' hd
  · obtain ⟨hreg, hrecord⟩ := s.apicWrite_reg c o new d o'
    rw [hrecord] at hd
    by_cases hsame : d = c ∧ o' = o
    · rw [if_pos hsame] at hd
      cases hd
    · rw [if_neg hsame] at hd
      rw [hreg, if_neg hsame]
      exact h.others d o' hd

/-- **A step that frees no offset keeps the invariant.** -/
theorem Agree.step (h : Agree regs₀ s) (hkeeps : Keeps s a)
    (hstep : ExtendedLvt.step nrMax s a = some s') : Agree regs₀ s' := by
  cases stepped_of_step hstep with
  | call c offset vector msgType mask hfree =>
      refine h.setPc (fun o new hentry => ?_) (fun o new old hpc => by cases hpc)
      obtain ⟨-, rfl⟩ := Prod.mk.inj (Option.some.inj hentry)
      exact ⟨hkeeps, newEntry_ne_allOnes _ _ _⟩
  | outOfRange hpc hrange =>
      have hentry := h.entries _ _ _ (congrArg Pc.toStore hpc)
      refine h.setPc (fun o new hnew => ?_) (fun o new old hpc' => ?_)
      · obtain ⟨-, rfl⟩ := Prod.mk.inj (Option.some.inj hnew)
        exact hentry
      · injection hpc' with _ hnew _ hones
        exact absurd (hnew.trans hones.symm) hentry.2
  | read hpc hrange =>
      refine h.setPc (fun o new hnew => ?_) (fun o new old hpc' => by cases hpc')
      exact h.entries _ _ _ ((congrArg Pc.toStore hpc).trans hnew)
  | conflict hpc hstore =>
      refine h.setPc (fun o new hnew => ?_) (fun o new old hpc' => ?_)
      · exact h.entries _ _ _ ((congrArg Pc.toStore hpc).trans hnew)
      · injection hpc' with _ hnew _ hrsvd
        rw [hnew, hrsvd] at hstore
        exact absurd (mayStore_self _) hstore
  | store hpc hstore hne =>
      have hentry := h.entries _ _ _ (congrArg Pc.toStore hpc)
      refine (h.store hstore hentry.1).setPc (fun o new hnew => ?_)
        (fun o new old hpc' => by cases hpc')
      exact h.entries _ _ _ ((congrArg Pc.toStore hpc).trans hnew)
  | again hpc hstore hrsvd hne =>
      refine h.setPc (fun o new hnew => ?_) (fun o new old hpc' => by cases hpc')
      exact h.entries _ _ _ ((congrArg Pc.toStore hpc).trans hnew)
  | granted hpc hstore hnew =>
      refine h.setPc (fun o new hnew => ?_) (fun o new old hpc' => ?_)
      · exact h.entries _ _ _ ((congrArg Pc.toStore hpc).trans hnew)
      · injection hpc' with ho hnew' _ _
        subst ho hnew'
        exact .inr (by rw [hnew])
  | refused hpc hrc =>
      exact h.setPc (fun o new hnew => by cases hnew) (fun o new old hpc' => by cases hpc')
  | write hpc hold =>
      exact (h.write hpc).setPc (fun o new hnew => by cases hnew)
        (fun o new old hpc' => by cases hpc')

/-- A register that no call has written is as the firmware has left it. -/
theorem regs_of_not_written (h : Reach (ExtendedLvt.step nrMax) Keeps (boot regs₀) s) {c o : ℕ}
    (hc : s.written c o = false) : s.regs c o = regs₀ c o :=
  (h.inv (agree_boot regs₀) fun _ _ _ => Agree.step).others c o hc

/-- **Without a release, all cores have the same vector at an offset**: in every run from boot in
which no call frees an offset, two registers for one offset that were written, be it with the value
that the firmware has left there, and have a vector have the same one, and it is the vector of the
table. -/
theorem regs_agree (h : Reach (ExtendedLvt.step nrMax) Keeps (boot regs₀) s) {c d o : ℕ}
    (hc : s.written c o = true) (hd : s.written d o = true) (hvc : vectorOf (s.regs c o) ≠ 0)
    (hvd : vectorOf (s.regs d o) ≠ 0) :
    vectorOf (s.regs c o) = vectorOf (s.regs d o) ∧
      vectorOf (s.regs c o) = vectorOf (s.eilvtOffsets o) := by
  have hagree : Agree regs₀ s := h.inv (agree_boot regs₀) fun _ _ _ => Agree.step
  have htable : ∀ {e : ℕ}, s.written e o = true → vectorOf (s.regs e o) ≠ 0 →
      vectorOf (s.regs e o) = vectorOf (s.eilvtOffsets o) := fun he hv =>
    (hagree.regs _ o he).resolve_left hv
  exact ⟨(htable hc hvc).trans (htable hd hvd).symm, htable hc hvc⟩

end Registers

instance (s : State) (a : Act) : Decidable (Keeps s a) := by
  unfold Keeps
  split <;> infer_instance

/-- CPU 0 and CPU 1 set up offset 0 for the vector `0xf9`, which the firmware has put there; CPU 1
leaves it masked. -/
def bothSetUp : List Act :=
  [.call 0 0 0xf9 0 0, .call 1 0 0xf9 0 1, .run 0, .run 1, .run 0, .run 1, .run 0, .run 1, .run 1,
    .run 0, .run 1]

theorem regs_agree_bothSetUp : ∃ s,
    run (step 4) Keeps (boot fun _ _ => 0xf9) bothSetUp = some s ∧
      vectorOf (s.regs 0 0) = vectorOf (s.regs 1 0) ∧
      vectorOf (s.regs 0 0) = vectorOf (s.eilvtOffsets 0) := by
  have hregs : (run (step 4) Keeps (boot fun _ _ => 0xf9) bothSetUp).map
      (fun s => ((s.regs 0 0, s.regs 1 0), s.written 0 0, s.written 1 0)) =
        some ((0xf9, 0x100f9), true, true) := by decide +kernel
  obtain ⟨s, hs, heq⟩ := Option.map_eq_some_iff.1 hregs
  obtain ⟨hreg, hwritten⟩ := Prod.mk.inj heq
  obtain ⟨h₀, h₁⟩ := Prod.mk.inj hreg
  obtain ⟨hw₀, hw₁⟩ := Prod.mk.inj hwritten
  exact ⟨s, hs, regs_agree (Reach.of_run hs) hw₀ hw₁ (by rw [h₀]; decide) (by rw [h₁]; decide)⟩

/-! ### The loop -/

/-- The steps that a call still has to take when the other CPUs leave its offset alone. -/
def Pc.stepsLeft (eilvtOffsets : ℕ → BitVec 32) : Pc → ℕ
  | .idle | .returned _ => 0
  | .reserve _ _ _ => 5
  | .loop o new _ rsvd =>
      if eilvtOffsets o = new then 2 else if eilvtOffsets o = rsvd then 3 else 4
  | .reserved _ _ _ _ => 1

def State.stepsLeft (s : State) (c : ℕ) : ℕ := (s.pc c).stepsLeft s.eilvtOffsets

/-- CPU `c` begins no other call, and while its call is in the loop, the other CPUs leave the offset
of the call alone. -/
def Undisturbed (nrMax c : ℕ) (s : State) (a : Act) : Prop :=
  (∀ offset vector msgType mask, a ≠ .call c offset vector msgType mask) ∧
    (a ≠ .run c → ∀ s', step nrMax s a = some s' →
      ∀ o new old rsvd, s.pc c = .loop o new old rsvd → s'.eilvtOffsets o = s.eilvtOffsets o)

section Loop

variable {nrMax c : ℕ} {s s' : State} {a : Act}

/-- The CPU that takes a step. -/
def Act.cpu : Act → ℕ
  | .call c _ _ _ _ | .run c => c

theorem pc_of_step_of_ne (h : step nrMax s a = some s') (hc : c ≠ a.cpu) : s'.pc c = s.pc c := by
  cases stepped_of_step h <;> exact Function.update_of_ne hc _ _

@[simp] theorem stepsLeft_setPc (s : State) (c : ℕ) (pc : Pc) :
    (s.setPc c pc).stepsLeft c = pc.stepsLeft s.eilvtOffsets := by
  rw [State.stepsLeft, State.pc_setPc, Function.update_self, State.eilvtOffsets_setPc]

theorem stepsLeft_loop (m : ℕ → BitVec 32) (o : ℕ) (new old rsvd : BitVec 32) :
    2 ≤ (Pc.loop o new old rsvd).stepsLeft m ∧ (Pc.loop o new old rsvd).stepsLeft m ≤ 4 := by
  rw [Pc.stepsLeft]
  split
  · decide
  · split <;> decide

theorem stepsLeft_le (s : State) (c : ℕ) : s.stepsLeft c ≤ 5 := by
  rw [State.stepsLeft]
  cases s.pc c with
  | loop o new old rsvd => exact Nat.le_succ_of_le (stepsLeft_loop _ _ _ _ _).2
  | _ => simp [Pc.stepsLeft]

/-- **Each step of the call brings it nearer to its end.** -/
theorem stepsLeft_run (h : step nrMax s (.run c) = some s') : s'.stepsLeft c < s.stepsLeft c := by
  cases stepped_of_step h with
  | outOfRange hpc hrange =>
      rw [stepsLeft_setPc, State.stepsLeft, hpc]
      exact (by decide : 1 < 5)
  | read hpc hrange =>
      rw [stepsLeft_setPc, State.stepsLeft, hpc]
      exact Nat.lt_succ_of_le (stepsLeft_loop _ _ _ _ _).2
  | conflict hpc hstore =>
      rw [stepsLeft_setPc, State.stepsLeft, hpc]
      exact (stepsLeft_loop _ _ _ _ _).1
  | store hpc hstore hne =>
      rw [stepsLeft_setPc, State.stepsLeft, hpc, Pc.stepsLeft, Pc.stepsLeft,
        if_pos (Function.update_self ..), if_neg hne, if_pos rfl]
      decide
  | again hpc hstore hrsvd hne =>
      rw [stepsLeft_setPc, State.stepsLeft, hpc, Pc.stepsLeft, Pc.stepsLeft, if_neg hne, if_neg hne,
        if_pos rfl, if_neg hrsvd]
      decide
  | granted hpc hstore hnew =>
      rw [stepsLeft_setPc, State.stepsLeft, hpc]
      exact (stepsLeft_loop _ _ _ _ _).1
  | refused hpc hrc =>
      rw [stepsLeft_setPc, State.stepsLeft, hpc]
      exact Nat.zero_lt_one
  | write hpc hold =>
      rw [stepsLeft_setPc, State.stepsLeft, hpc]
      exact Nat.zero_lt_one

/-- The steps of the other CPUs do not set it back. -/
theorem stepsLeft_of_undisturbed (h : step nrMax s a = some s') (hok : Undisturbed nrMax c s a)
    (ha : a ≠ .run c) : s'.stepsLeft c = s.stepsLeft c := by
  have hcpu : c ≠ a.cpu := by
    rintro rfl
    cases a with
    | call c offset vector msgType mask => exact hok.1 _ _ _ _ rfl
    | run c => exact ha rfl
  have hpc := pc_of_step_of_ne h hcpu
  have htable := hok.2 ha s' h
  rw [State.stepsLeft, State.stepsLeft, hpc]
  cases hloop : s.pc c with
  | loop o new old rsvd =>
      rw [Pc.stepsLeft, Pc.stepsLeft, htable o new old rsvd hloop]
  | _ => rfl

/-- **A call returns when the other CPUs leave its offset alone**: it takes at most five steps, and
it is never stuck. -/
theorem returns_alone {as : List Act} (h : Path (step nrMax) (Undisturbed nrMax c) s as s') :
    as.countP (· = .run c) ≤ 5 ∧
      ((s'.pc c).isFree = false → ∃ s'', step nrMax s' (.run c) = some s'') := by
  refine ⟨?_, exists_step_run⟩
  have hsteps := h.countP_add_le (μ := fun s => s.stepsLeft c) (p := (· = .run c))
    fun s a s' hok hs => ?_
  · have hbound := stepsLeft_le s c
    omega
  · by_cases ha : a = .run c
    · subst ha
      rw [if_pos (by simp)]
      exact stepsLeft_run hs
    · have heq := stepsLeft_of_undisturbed hs hok ha
      simp [ha, heq]

end Loop

theorem returns_alone_storing : ∃ s', Path (step 4) (Undisturbed 4 1) storing
    [.run 1, .run 0, .run 1, .run 1] s' ∧
      [Act.run 1, .run 0, .run 1, .run 1].countP (· = .run 1) ≤ 5 ∧
      ((s'.pc 1).isFree = false → ∃ s'', step 4 s' (.run 1) = some s'') := by
  have hown : ∀ s, Undisturbed 4 1 s (.run 1) := fun s => ⟨by simp, fun h => absurd rfl h⟩
  have hother : Undisturbed 4 1 (storing.setPc 1 (.loop 0 0xf9 0 0xf9)) (.run 0) := by
    refine ⟨by simp, fun _ s' hs o new old rsvd _ => ?_⟩
    obtain rfl := Option.some.inj hs
    rfl
  have hpath : Path (step 4) (Undisturbed 4 1) storing [.run 1, .run 0, .run 1, .run 1] _ :=
    .cons (hown _) rfl (.cons hother rfl (.cons (hown _) rfl (.cons (hown _) rfl .nil)))
  exact ⟨_, hpath, returns_alone hpath⟩

/-! ### Two calls in the loop -/

section Endless

variable {nrMax c d o : ℕ} {s : State} {new old rsvd : BitVec 32}

theorem step_read (h : s.pc c = .reserve o new old) (ho : o < nrMax) :
    step nrMax s (.run c) = some (s.setPc c (.loop o new old (s.eilvtOffsets o))) := by
  rw [step, h]
  exact if_neg (Nat.not_le_of_lt ho)

/-- The exchange succeeds, and the loop goes on. -/
theorem step_store (h : s.pc c = .loop o new old (s.eilvtOffsets o))
    (hstore : MayStore (s.eilvtOffsets o) new) (hne : s.eilvtOffsets o ≠ new) :
    step nrMax s (.run c) =
      some ({ s with eilvtOffsets := Function.update s.eilvtOffsets o new }.setPc c
        (.loop o new old (s.eilvtOffsets o))) := by
  have hcheck := mt (not_mayStore_iff _ new).1 (not_not.2 hstore)
  rw [step, h]
  dsimp only
  rw [round, if_neg hcheck, atomicCmpxchg]
  dsimp only
  rw [if_pos hne, if_pos rfl]

/-- The exchange fails, and the loop goes on. -/
theorem step_again (h : s.pc c = .loop o new old rsvd) (hstore : MayStore rsvd new)
    (hrsvd : s.eilvtOffsets o ≠ rsvd) (hne : s.eilvtOffsets o ≠ new) :
    step nrMax s (.run c) = some (s.setPc c (.loop o new old (s.eilvtOffsets o))) := by
  have hcheck := mt (not_mayStore_iff _ new).1 (not_not.2 hstore)
  rw [step, h]
  dsimp only
  rw [round, if_neg hcheck, atomicCmpxchg]
  dsimp only
  rw [if_pos hne, if_neg hrsvd]

/-- Two CPUs stand where they are given, and the others have no call. -/
def twoCalls (regs : ℕ → ℕ → BitVec 32) (c d : ℕ) (eilvtOffsets : ℕ → BitVec 32) (p q : Pc) :
    State where
  eilvtOffsets := eilvtOffsets
  regs := regs
  written _ _ := false
  pc := Function.update (Function.update (fun _ => .idle) d q) c p

variable {regs : ℕ → ℕ → BitVec 32} {table : ℕ → BitVec 32} {p q : Pc}

theorem boot_eq_twoCalls (regs : ℕ → ℕ → BitVec 32) (c d : ℕ) :
    boot regs = twoCalls regs c d (fun _ => 0) .idle .idle := by
  rw [boot, twoCalls, Function.update_eq_self_iff.2 rfl, Function.update_eq_self_iff.2 rfl]

@[simp] theorem pc_twoCalls_left : (twoCalls regs c d table p q).pc c = p :=
  Function.update_self ..

theorem pc_twoCalls_right (hcd : c ≠ d) : (twoCalls regs c d table p q).pc d = q :=
  (Function.update_of_ne hcd.symm ..).trans (Function.update_self ..)

@[simp] theorem setPc_twoCalls_left (p' : Pc) :
    (twoCalls regs c d table p q).setPc c p' = twoCalls regs c d table p' q := by
  rw [State.setPc, twoCalls, twoCalls, Function.update_idem]

theorem setPc_twoCalls_right (hcd : c ≠ d) (q' : Pc) :
    (twoCalls regs c d table p q).setPc d q' = twoCalls regs c d table p q' := by
  rw [State.setPc, twoCalls, twoCalls, Function.update_comm hcd, Function.update_idem]

theorem step_store_left {a r old : BitVec 32} (hr : table o = r) (hstore : MayStore r a)
    (hne : r ≠ a) :
    step nrMax (twoCalls regs c d table (.loop o a old r) q) (.run c) =
      some (twoCalls regs c d (Function.update table o a) (.loop o a old r) q) := by
  subst hr
  exact (step_store pc_twoCalls_left hstore hne).trans (congrArg some (setPc_twoCalls_left _))

theorem step_store_right (hcd : c ≠ d) {b r old : BitVec 32} (hr : table o = r)
    (hstore : MayStore r b) (hne : r ≠ b) :
    step nrMax (twoCalls regs c d table p (.loop o b old r)) (.run d) =
      some (twoCalls regs c d (Function.update table o b) p (.loop o b old r)) := by
  subst hr
  exact (step_store (pc_twoCalls_right hcd) hstore hne).trans
    (congrArg some (setPc_twoCalls_right hcd _))

theorem step_call_left (offset v t k : BitVec 8) :
    step nrMax (twoCalls regs c d table .idle q) (.call c offset v t k) =
      some (twoCalls regs c d table
        (.reserve offset.toNat (newEntry v t k) (regs c offset.toNat)) q) := by
  rw [step, if_pos (by rw [pc_twoCalls_left]; rfl), setPc_twoCalls_left]
  rfl

theorem step_call_right (hcd : c ≠ d) (offset v t k : BitVec 8) :
    step nrMax (twoCalls regs c d table p .idle) (.call d offset v t k) =
      some (twoCalls regs c d table p
        (.reserve offset.toNat (newEntry v t k) (regs d offset.toNat))) := by
  rw [step, if_pos (by rw [pc_twoCalls_right hcd]; rfl), setPc_twoCalls_right hcd]
  rfl

theorem step_read_left {a r old : BitVec 32} (ho : o < nrMax) (hr : table o = r) :
    step nrMax (twoCalls regs c d table (.reserve o a old) q) (.run c) =
      some (twoCalls regs c d table (.loop o a old r) q) := by
  subst hr
  exact (step_read pc_twoCalls_left ho).trans (congrArg some (setPc_twoCalls_left _))

theorem step_read_right (hcd : c ≠ d) {b r old : BitVec 32} (ho : o < nrMax) (hr : table o = r) :
    step nrMax (twoCalls regs c d table p (.reserve o b old)) (.run d) =
      some (twoCalls regs c d table p (.loop o b old r)) := by
  subst hr
  exact (step_read (pc_twoCalls_right hcd) ho).trans (congrArg some (setPc_twoCalls_right hcd _))

theorem step_again_right (hcd : c ≠ d) {b r r' old : BitVec 32} (hr : table o = r')
    (hstore : MayStore r b) (hne : r' ≠ r) (hne' : r' ≠ b) :
    step nrMax (twoCalls regs c d table p (.loop o b old r)) (.run d) =
      some (twoCalls regs c d table p (.loop o b old r')) := by
  subst hr
  exact (step_again (pc_twoCalls_right hcd) hstore hne hne').trans
    (congrArg some (setPc_twoCalls_right hcd _))

/-- **The calls stand crossed**: `c` is about to store `a` over `b`, and `d` to store `b` over
`a`. -/
def crossed (regs : ℕ → ℕ → BitVec 32) (c d o : ℕ) (a b old old' : BitVec 32) : State :=
  twoCalls regs c d (Function.update (fun _ => 0) o a) (.loop o a old b) (.loop o b old' a)

variable {a b : BitVec 32}

/-- A round of each call leads back to where they were. -/
theorem path_crossed (hcd : c ≠ d) (hab : a ≠ b) (hvector : vectorOf a = vectorOf b)
    (old old' : BitVec 32) :
    Path (step nrMax) (fun _ _ => True) (crossed regs c d o a b old old') [.run d, .run c]
      (crossed regs c d o a b old old') := by
  refine .cons trivial
    (step_store_right hcd (Function.update_self ..) (.inr (.inr hvector.symm)) hab)
    (.cons trivial ((step_store_left (Function.update_self ..) (.inr (.inr hvector))
      hab.symm).trans (congrArg some ?_)) .nil)
  rw [crossed, Function.update_idem, Function.update_idem]

/-- The calls can come to stand crossed: `d` stores its entry, `c` reads it and stores its own over
it, and `d` sees that. -/
theorem reach_crossed (hcd : c ≠ d) {offset : BitVec 8} (ho : offset.toNat < nrMax)
    {v t k v' t' k' : BitVec 8} (ha : a = newEntry v t k) (hb : b = newEntry v' t' k') (hab : a ≠ b)
    (hvector : vectorOf a = vectorOf b) (hv : vectorOf a ≠ 0) :
    Reach (step nrMax) (fun _ _ => True) (boot regs)
      (crossed regs c d offset.toNat a b (regs c offset.toNat) (regs d offset.toNat)) := by
  have ha0 : (0 : BitVec 32) ≠ a := fun h => hv (by rw [← h, vectorOf_zero])
  have hb0 : (0 : BitVec 32) ≠ b := fun h => hv (by rw [hvector, ← h, vectorOf_zero])
  subst ha hb
  have hstore : step nrMax (twoCalls regs c d (fun _ => 0) .idle
      (.loop offset.toNat (newEntry v' t' k') (regs d offset.toNat) 0)) (.run d) = some _ :=
    step_store_right hcd rfl (.inl vectorOf_zero) hb0
  have hboot : Reach (step nrMax) (fun _ _ => True) (twoCalls regs c d (fun _ => 0) .idle .idle)
      (twoCalls regs c d (fun _ => 0) .idle .idle) := .start
  have hstored := (hboot.next trivial (step_call_right hcd offset v' t' k')).next trivial
    (step_read_right hcd ho rfl) |>.next trivial hstore
  have hover := (hstored.next trivial (step_call_left offset v t k)).next trivial
    (step_read_left ho (Function.update_self ..)) |>.next trivial
    (step_store_left (Function.update_self ..) (.inr (.inr hvector)) hab.symm)
  have hseen := hover.next trivial (step_again_right hcd (Function.update_self ..)
    (.inl vectorOf_zero) ha0.symm hab)
  rw [Function.update_idem] at hseen
  rwa [boot_eq_twoCalls regs c d, crossed]

/-- **Two calls can keep each other in the loop**, when they store different entries with the same
vector: from boot they can come to a state in which both are in the loop, and from which any number
of rounds of both leads back to it. -/
theorem exists_endless (regs : ℕ → ℕ → BitVec 32) (hcd : c ≠ d) {offset : BitVec 8}
    (ho : offset.toNat < nrMax) {v t k v' t' k' : BitVec 8}
    (hne : newEntry v t k ≠ newEntry v' t' k')
    (hvector : vectorOf (newEntry v t k) = vectorOf (newEntry v' t' k'))
    (hv : vectorOf (newEntry v t k) ≠ 0) :
    ∃ s, Reach (step nrMax) (fun _ _ => True) (boot regs) s ∧
      (∃ old rsvd, s.pc c = .loop offset.toNat (newEntry v t k) old rsvd) ∧
      (∃ old rsvd, s.pc d = .loop offset.toNat (newEntry v' t' k') old rsvd) ∧
      ∀ n, Path (step nrMax) (fun _ _ => True) s
        (List.replicate n [Act.run d, Act.run c]).flatten s :=
  ⟨_, reach_crossed hcd ho rfl rfl hne hvector hv, ⟨_, _, pc_twoCalls_left⟩,
    ⟨_, _, pc_twoCalls_right hcd⟩, fun n => (path_crossed hcd hne hvector _ _).flatten_replicate n⟩

end Endless

/-- CPU 1 masks the entry that CPU 0 does not mask. -/
theorem exists_endless_masked : ∃ s, Reach (step 4) (fun _ _ => True) (boot fun _ _ => 0) s ∧
    (∃ old rsvd, s.pc 0 = .loop (0 : BitVec 8).toNat (newEntry 0xf9 0 0) old rsvd) ∧
    (∃ old rsvd, s.pc 1 = .loop (0 : BitVec 8).toNat (newEntry 0xf9 0 1) old rsvd) ∧
    ∀ n, Path (step 4) (fun _ _ => True) s
      (List.replicate n [Act.run 1, Act.run 0]).flatten s :=
  exists_endless (fun _ _ => 0) (by decide) (by decide) (by decide) (by decide) (by decide)

end ExtendedLvt

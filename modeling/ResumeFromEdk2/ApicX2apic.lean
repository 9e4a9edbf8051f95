/-
**The two modes of the local APIC.**

The local APIC of a CPU is used in xAPIC or in x2APIC mode.  Two bits of the register
`IA32_APIC_BASE` say in which, and the hardware faults on most changes of them.  The kernel finds
the mode that the firmware has chosen, may change it on the boot CPU, as the command line and the
support for the remapping of interrupts decide, and brings the other CPUs into the same mode.  What
it has decided is in the variables `x2apic_mode` and `x2apic_state`.

This module takes the functions that do this as the steps of a system, in any order that the boot
allows, and compares the variables with the registers of the CPUs.

Main definitions:

* `X2apic.wrmsrl` — a write to the register: the changes of mode that the hardware allows;
* `X2apic.act` — the functions of the kernel;
* `X2apic.InOrder` — when they are called.

Main results:

* `X2apic.no_fault` — **no write of the kernel faults**: all that can stop it is its own panic;
* `X2apic.modes_agree` — **all CPUs that are set up are in the mode that the variables say**;
* `X2apic.nox2apic_iff` — when the parameter `nox2apic` holds for the rest of the run.
-/

import Mathlib.Algebra.Group.Nat.Defs
import Mathlib.Data.Int.Notation
import Mathlib.Logic.Function.Basic
import ResumeFromEdk2.StepSystem

set_option relaxedAutoImplicit false
set_option autoImplicit false

namespace X2apic

open StepSystem

/-! ### The register -/

/-- `X2APIC_ENABLE` -/
def x2apicEnableBit : BitVec 64 := BitVec.twoPow 64 10

/-- `XAPIC_ENABLE` -/
def xapicEnableBit : BitVec 64 := BitVec.twoPow 64 11

/-- The modes of a local APIC; `invalid` is a value of the register that no APIC takes. -/
inductive Mode
  | disabled
  | xapic
  | x2apic
  | invalid
  deriving DecidableEq

/-- The mode that a value of `IA32_APIC_BASE` stands for. -/
def mode (msr : BitVec 64) : Mode :=
  match msr.getLsbD 11, msr.getLsbD 10 with
  | false, false => .disabled
  | true, false => .xapic
  | true, true => .x2apic
  | false, true => .invalid

/-- The modes in which an APIC is used. -/
def InUse (m : Mode) : Prop := m = .xapic ∨ m = .x2apic

theorem eq_of_inUse {m m' : Mode} (h : InUse m) (h' : InUse m')
    (hiff : m = .x2apic ↔ m' = .x2apic) :
    m = m' := by
  rcases h with rfl | rfl
  · exact (h'.resolve_right fun hm => by simp [hm] at hiff).symm
  · exact (hiff.1 rfl).symm

/-- The changes of mode that the hardware allows.  From x2APIC mode the way back to xAPIC mode goes
through the disabled APIC, and there is no way from the disabled APIC to x2APIC mode. -/
def allowed : Mode → Mode → Bool
  | _, .invalid => false
  | .x2apic, .xapic => false
  | .disabled, .x2apic => false
  | _, _ => true

/-- What stops the kernel. -/
inductive Stop
  /-- A general protection fault. -/
  | fault
  /-- `"Cannot disable x2apic, id: %08x"` -/
  | panic (id : BitVec 32)
  deriving DecidableEq

/-- `wrmsrl(MSR_IA32_APICBASE, v)`, where the register is `msr`. -/
def wrmsrl (msr v : BitVec 64) : Except Stop (BitVec 64) :=
  if allowed (mode msr) (mode v) then .ok v else .error .fault

/-- `__x2apic_disable`; the flag is `boot_cpu_has(X86_FEATURE_APIC)`. -/
def x2apicDisableMsr (hasApic : Bool) (msr : BitVec 64) : Except Stop (BitVec 64) :=
  if !hasApic then .ok msr
  else if msr &&& x2apicEnableBit = 0 then .ok msr
  else do
    -- disable xapic and x2apic first and then reenable xapic mode
    let msr' ← wrmsrl msr (msr &&& ~~~(x2apicEnableBit ||| xapicEnableBit))
    wrmsrl msr' (msr &&& ~~~x2apicEnableBit)

/-- `__x2apic_enable` -/
def x2apicEnableMsr (msr : BitVec 64) : Except Stop (BitVec 64) :=
  if msr &&& x2apicEnableBit ≠ 0 then .ok msr else wrmsrl msr (msr ||| x2apicEnableBit)

theorem and_x2apicEnableBit_iff (msr : BitVec 64) :
    msr &&& x2apicEnableBit = 0 ↔ msr.getLsbD 10 = false := by
  rw [x2apicEnableBit, BitVec.and_twoPow]
  have hne : BitVec.twoPow 64 10 ≠ 0#64 := by decide
  cases msr.getLsbD 10 <;> simp [hne]

theorem mode_eq_x2apic_iff (msr : BitVec 64) :
    mode msr = .x2apic ↔ msr.getLsbD 11 = true ∧ msr.getLsbD 10 = true := by
  rw [mode]
  cases msr.getLsbD 11 <;> cases msr.getLsbD 10 <;> simp

theorem mode_eq_xapic_iff (msr : BitVec 64) :
    mode msr = .xapic ↔ msr.getLsbD 11 = true ∧ msr.getLsbD 10 = false := by
  rw [mode]
  cases msr.getLsbD 11 <;> cases msr.getLsbD 10 <;> simp

theorem mode_or_x2apicEnableBit {msr : BitVec 64} (h : mode msr = .xapic) :
    mode (msr ||| x2apicEnableBit) = .x2apic := by
  rw [mode_eq_xapic_iff] at h
  rw [mode_eq_x2apic_iff]
  simp [h.1, x2apicEnableBit]

theorem mode_and_not_x2apicEnableBit {msr : BitVec 64} (h : mode msr = .x2apic) :
    mode (msr &&& ~~~x2apicEnableBit) = .xapic := by
  rw [mode_eq_x2apic_iff] at h
  rw [mode_eq_xapic_iff]
  simp [h.1, x2apicEnableBit]

theorem mode_and_not_both (msr : BitVec 64) :
    mode (msr &&& ~~~(x2apicEnableBit ||| xapicEnableBit)) = .disabled := by
  simp [mode, x2apicEnableBit, xapicEnableBit]

theorem and_x2apicEnableBit_ne_zero {msr : BitVec 64} (h : mode msr = .x2apic) :
    msr &&& x2apicEnableBit ≠ 0 := by
  intro hzero
  rw [and_x2apicEnableBit_iff, ((mode_eq_x2apic_iff _).1 h).2] at hzero
  cases hzero

/-- **`__x2apic_disable` leads to xAPIC mode**, without a fault. -/
theorem exists_x2apicDisableMsr {msr : BitVec 64} (h : InUse (mode msr)) :
    ∃ v, mode v = .xapic ∧ x2apicDisableMsr true msr = .ok v := by
  rcases h with h | h
  · refine ⟨msr, h, ?_⟩
    have hbit := (and_x2apicEnableBit_iff _).2 ((mode_eq_xapic_iff _).1 h).2
    rw [x2apicDisableMsr, if_pos hbit]
    rfl
  · have hnew := mode_and_not_x2apicEnableBit h
    refine ⟨_, hnew, ?_⟩
    -- through the disabled APIC
    have hdisabled := mode_and_not_both msr
    have hfirst : wrmsrl msr (msr &&& ~~~(x2apicEnableBit ||| xapicEnableBit)) =
        .ok (msr &&& ~~~(x2apicEnableBit ||| xapicEnableBit)) := by
      rw [wrmsrl, h, hdisabled]
      rfl
    have hsecond : wrmsrl (msr &&& ~~~(x2apicEnableBit ||| xapicEnableBit))
        (msr &&& ~~~x2apicEnableBit) = .ok (msr &&& ~~~x2apicEnableBit) := by
      rw [wrmsrl, hdisabled, hnew]
      rfl
    rw [x2apicDisableMsr, if_neg (and_x2apicEnableBit_ne_zero h), hfirst]
    exact hsecond

/-- **`__x2apic_enable` leads to x2APIC mode**, without a fault. -/
theorem exists_x2apicEnableMsr {msr : BitVec 64} (h : InUse (mode msr)) :
    ∃ v, mode v = .x2apic ∧ x2apicEnableMsr msr = .ok v := by
  rcases h with h | h
  · have hnew := mode_or_x2apicEnableBit h
    refine ⟨_, hnew, ?_⟩
    have hbit := (and_x2apicEnableBit_iff _).2 ((mode_eq_xapic_iff _).1 h).2
    rw [x2apicEnableMsr, if_neg (not_not.2 hbit), wrmsrl, h, hnew]
    rfl
  · exact ⟨msr, h, by rw [x2apicEnableMsr, if_pos (and_x2apicEnableBit_ne_zero h)]⟩

/-- It does so only where the APIC is enabled. -/
theorem inUse_of_x2apicEnableMsr {msr v : BitVec 64} (h : x2apicEnableMsr msr = .ok v)
    (hv : mode v = .x2apic) : InUse (mode msr) := by
  rw [x2apicEnableMsr] at h
  split at h
  · exact .inr (Except.ok.inj h ▸ hv)
  · next hbit =>
      rw [not_not, and_x2apicEnableBit_iff] at hbit
      cases h11 : msr.getLsbD 11 with
      | true => exact .inl ((mode_eq_xapic_iff _).2 ⟨h11, hbit⟩)
      | false =>
          have hinvalid : mode (msr ||| x2apicEnableBit) = .invalid := by
            simp [mode, x2apicEnableBit, h11, -BitVec.getLsbD_eq_getElem]
          rw [wrmsrl, hinvalid, allowed] at h
          cases h

/-! ### The kernel -/

/-- `x2apic_state` -/
inductive X2apicState
  | off
  | on
  | disabled
  deriving DecidableEq

/-- What does not change. -/
structure Config where
  /-- `boot_cpu_has(X86_FEATURE_APIC)` -/
  hasApic : Bool
  /-- The register `APIC_ID` of each CPU, in x2APIC mode. -/
  apicid : ℕ → BitVec 32
  /-- `max_physical_apicid` -/
  maxPhysicalApicid : ℕ
  /-- `x86_init.hyper.x2apic_available()` -/
  x2apicAvailable : Bool
  /-- `IRQ_REMAP_X2APIC_MODE` -/
  irqRemapX2apicMode : ℤ

/-- The variables of the kernel, and the registers of the CPUs.  CPU 0 is the boot CPU. -/
structure State where
  /-- `x2apic_mode` -/
  x2apicMode : Bool
  /-- `x2apic_state` -/
  x2apicState : X2apicState
  /-- `x2apic_phys` -/
  x2apicPhys : Bool
  /-- `boot_cpu_has(X86_FEATURE_X2APIC)` -/
  hasX2apic : Bool
  /-- `MSR_IA32_APICBASE` of each CPU. -/
  msr : ℕ → BitVec 64
  /-- `check_x2apic` has been called. -/
  checked : Bool
  /-- The CPUs that have called `x2apic_setup`. -/
  up : List ℕ

def State.setMsr (s : State) (c : ℕ) (v : BitVec 64) : State :=
  { s with msr := Function.update s.msr c v }

/-- Sets `x2apic_mode` and `x2apic_state`. -/
def State.setMode (s : State) (mode : Bool) (state : X2apicState) : State :=
  { s with x2apicMode := mode, x2apicState := state }

/-- A function on the register of CPU `c`. -/
def State.onCpu (s : State) (c : ℕ) (f : BitVec 64 → Except Stop (BitVec 64)) : Except Stop State :=
  (f (s.msr c)).map (s.setMsr c)

/-- `x2apic_enabled`, on the boot CPU. -/
def x2apicEnabled (s : State) : Bool :=
  s.hasX2apic && decide (s.msr 0 &&& x2apicEnableBit ≠ 0)

/-- The end of `setup_nox2apic`. -/
def State.nox2apic (s : State) : State :=
  { s.setMode false .disabled with hasX2apic := false }

/-- `setup_nox2apic`; the APIC ID is taken for an `int`. -/
def setupNox2apic (cfg : Config) (s : State) : Except Stop State :=
  if x2apicEnabled s then
    if 255 ≤ (cfg.apicid 0).toInt then .ok s
    else (s.onCpu 0 (x2apicDisableMsr cfg.hasApic)).map State.nox2apic
  else .ok s.nox2apic

/-- `x2apic_setup`, on CPU `c`. -/
def x2apicSetup (cfg : Config) (s : State) (c : ℕ) : Except Stop State :=
  if s.x2apicState ≠ .on then s.onCpu c (x2apicDisableMsr cfg.hasApic)
  else s.onCpu c x2apicEnableMsr

/-- `x2apic_disable` -/
def x2apicDisable (cfg : Config) (s : State) : Except Stop State :=
  if s.x2apicState ≠ .on then .ok (s.setMode false .disabled)
  else if 255 ≤ (cfg.apicid 0).toNat then .error (.panic (cfg.apicid 0))
  else (s.setMode false .disabled).onCpu 0 (x2apicDisableMsr cfg.hasApic)

/-- `x2apic_enable` -/
def x2apicEnable (s : State) : Except Stop State :=
  if s.x2apicState ≠ .off then .ok s
  else (s.setMode true .on).onCpu 0 x2apicEnableMsr

/-- `try_to_enable_x2apic` -/
def tryToEnableX2apic (cfg : Config) (s : State) (remapMode : ℤ) : Except Stop State :=
  if s.x2apicState = .disabled then .ok s
  else if remapMode ≠ cfg.irqRemapX2apicMode then
    if 255 < cfg.maxPhysicalApicid ∨ cfg.x2apicAvailable = false then x2apicDisable cfg s
    else x2apicEnable { s with x2apicPhys := true }
  else x2apicEnable s

/-- `check_x2apic` -/
def checkX2apic (s : State) : State :=
  if x2apicEnabled s then s.setMode true .on
  else if s.hasX2apic then s
  else { s with x2apicState := .disabled }

/-- What the other subsystems answer to `enable_IR_x2apic`. -/
structure Remapping where
  /-- `skip_ioapic_setup` -/
  skipIoapicSetup : Bool
  /-- `irq_remapping_prepare()` -/
  prepare : ℤ
  /-- `save_ioapic_entries()` -/
  save : ℤ
  /-- `irq_remapping_enable()` -/
  enable : ℤ

/-- `enable_IR_x2apic` -/
def enableIrX2apic (cfg : Config) (s : State) (e : Remapping) : Except Stop State :=
  if e.skipIoapicSetup then .ok s
  else if e.prepare < 0 ∧ s.hasX2apic = false then .ok s
  else if e.save ≠ 0 then .ok s
  else tryToEnableX2apic cfg s (if 0 ≤ e.prepare then e.enable else e.prepare)

/-! ### The system -/

/-- The calls. -/
inductive Call
  | setupNox2apic
  | checkX2apic
  | enableIrX2apic (e : Remapping)
  | x2apicSetup (cpu : ℕ)

/-- What a call does. -/
def act (cfg : Config) (s : State) : Call → Except Stop State
  | .setupNox2apic => setupNox2apic cfg s
  | .checkX2apic => .ok { checkX2apic s with checked := true }
  | .enableIrX2apic e => enableIrX2apic cfg s e
  | .x2apicSetup c => (x2apicSetup cfg s c).map fun s' => { s' with up := c :: s.up }

/-- The steps of the system. -/
def step (cfg : Config) (s : State) (a : Call) : Option State := (act cfg s a).toOption

/-- No CPU but the boot CPU is up. -/
def BootCpuOnly (s : State) : Prop := ∀ c ∈ s.up, c = 0

/-- **The order of the calls**: `check_x2apic` comes before interrupt remapping and before the setup
of any CPU, and the functions of the initialization are not called when other CPUs are up. -/
def InOrder (s : State) : Call → Prop
  | .setupNox2apic | .checkX2apic => BootCpuOnly s
  | .enableIrX2apic _ => s.checked = true ∧ BootCpuOnly s
  | .x2apicSetup _ => s.checked = true

/-- The start of the kernel, with what the firmware has left in the registers. -/
def boot (hasX2apic : Bool) (msr : ℕ → BitVec 64) : State where
  x2apicMode := false
  x2apicState := .off
  x2apicPhys := false
  hasX2apic := hasX2apic
  msr := msr
  checked := false
  up := []

/-- **What the firmware leaves**: every APIC is in one of the two modes, and that of the boot CPU is
in x2APIC mode only if it has that mode. -/
structure Firmware (hasX2apic : Bool) (msr : ℕ → BitVec 64) : Prop where
  modes : ∀ c, InUse (mode (msr c))
  supported : mode (msr 0) = .x2apic → hasX2apic = true

/-! ### The functions on a CPU -/

section Functions

variable {cfg : Config} {s s' : State} {c : ℕ}

@[simp] theorem State.msr_setMsr (s : State) (c : ℕ) (v : BitVec 64) :
    (s.setMsr c v).msr = Function.update s.msr c v := rfl

theorem State.mode_setMsr_self (s : State) (c : ℕ) (v : BitVec 64) :
    mode ((s.setMsr c v).msr c) = mode v := by
  rw [State.msr_setMsr, Function.update_self]

theorem exists_onCpu_disable (hapic : cfg.hasApic = true) (h : InUse (mode (s.msr c))) :
    ∃ v, mode v = .xapic ∧ s.onCpu c (x2apicDisableMsr cfg.hasApic) = .ok (s.setMsr c v) := by
  obtain ⟨v, hv, heq⟩ := exists_x2apicDisableMsr h
  exact ⟨v, hv, by rw [State.onCpu, hapic, heq]; rfl⟩

theorem exists_onCpu_enable (h : InUse (mode (s.msr c))) :
    ∃ v, mode v = .x2apic ∧ s.onCpu c x2apicEnableMsr = .ok (s.setMsr c v) := by
  obtain ⟨v, hv, heq⟩ := exists_x2apicEnableMsr h
  exact ⟨v, hv, by rw [State.onCpu, heq]; rfl⟩

/-- The kernel sees x2APIC mode where it is, if it knows that there is one. -/
theorem x2apicEnabled_iff (h : InUse (mode (s.msr 0))) :
    x2apicEnabled s = true ↔ s.hasX2apic = true ∧ mode (s.msr 0) = .x2apic := by
  rw [x2apicEnabled, Bool.and_eq_true, decide_eq_true_iff, Ne, and_x2apicEnableBit_iff]
  rcases h with h | h
  · rw [h, ((mode_eq_xapic_iff _).1 h).2]
    simp
  · rw [h, ((mode_eq_x2apic_iff _).1 h).2]
    simp

end Functions

/-! ### What holds in every run -/

/-- What holds of the boot CPU, in each state of `x2apic_state`. -/
def BootCpu (s : State) : X2apicState → Prop
  | .on => s.x2apicMode = true ∧ mode (s.msr 0) = .x2apic ∧ s.hasX2apic = true
  | .disabled => s.x2apicMode = false ∧ mode (s.msr 0) = .xapic
  | .off => s.x2apicMode = false ∧ (mode (s.msr 0) = .x2apic → s.hasX2apic = true) ∧
      (s.checked = true → mode (s.msr 0) = .xapic ∧ s.hasX2apic = true)

/-- **What holds in every run.** -/
structure Inv (s : State) : Prop where
  modes : ∀ c, InUse (mode (s.msr c))
  boot : BootCpu s s.x2apicState
  others : ∀ c ∈ s.up, c ≠ 0 → (mode (s.msr c) = .x2apic ↔ s.x2apicState = .on)

/-- It depends on the mode of the boot CPU and on three variables. -/
theorem BootCpu.congr {s s' : State} {st : X2apicState} (h : BootCpu s st)
    (hboot : mode (s'.msr 0) = mode (s.msr 0)) (hmode : s'.x2apicMode = s.x2apicMode)
    (hhas : s'.hasX2apic = s.hasX2apic) (hchecked : s'.checked = s.checked) : BootCpu s' st := by
  cases st with
  | on => rwa [BootCpu, hboot, hmode, hhas]
  | off => rwa [BootCpu, hboot, hmode, hhas, hchecked]
  | disabled => rwa [BootCpu, hboot, hmode]

/-- **How a call ends** in a state `s`: with the invariant, or with the panic that refuses to leave
x2APIC mode, where the APIC ID of the boot CPU needs it. -/
def Ends (cfg : Config) (s : State) (r : Except Stop State) : Prop :=
  (∃ s', r = .ok s' ∧ Inv s') ∨
    (r = .error (.panic (cfg.apicid 0)) ∧ 255 ≤ (cfg.apicid 0).toNat ∧ s.x2apicState = .on)

theorem inv_boot {hasX2apic : Bool} {msr : ℕ → BitVec 64} (h : Firmware hasX2apic msr) :
    Inv (boot hasX2apic msr) where
  modes := h.modes
  boot := ⟨rfl, h.supported, fun hchecked => Bool.noConfusion hchecked⟩
  others _ hc := absurd hc List.not_mem_nil

section Calls

variable {cfg : Config} {s s' : State}

theorem modes_setMsr (h : ∀ c, InUse (mode (s.msr c))) {v : BitVec 64} (hv : InUse (mode v))
    (c d : ℕ) : InUse (mode ((s.setMsr c v).msr d)) := by
  rw [State.msr_setMsr]
  by_cases hd : d = c
  · rw [hd, Function.update_self]
    exact hv
  · rw [Function.update_of_ne hd]
    exact h d

theorem Inv.x2apicMode_iff (h : Inv s) : s.x2apicMode = true ↔ s.x2apicState = .on := by
  have hboot := h.boot
  cases hstate : s.x2apicState with
  | on =>
      rw [hstate] at hboot
      simp [hboot.1]
  | off =>
      rw [hstate] at hboot
      simp [hboot.1]
  | disabled =>
      rw [hstate] at hboot
      simp [hboot.1]

/-- **The boot CPU is in the mode that the kernel says**, when it has been checked. -/
theorem Inv.bootCpu_iff (h : Inv s) (hchecked : s.checked = true) :
    mode (s.msr 0) = .x2apic ↔ s.x2apicState = .on := by
  have hboot := h.boot
  cases hstate : s.x2apicState with
  | on =>
      rw [hstate] at hboot
      simp [hboot.2.1]
  | off =>
      rw [hstate] at hboot
      simp [(hboot.2.2 hchecked).1]
  | disabled =>
      rw [hstate] at hboot
      simp [hboot.2]

theorem Inv.supported (h : Inv s) (hmode : mode (s.msr 0) = .x2apic)
    (hstate : s.x2apicState ≠ .disabled) : s.hasX2apic = true := by
  have hboot := h.boot
  cases hs : s.x2apicState with
  | on =>
      rw [hs] at hboot
      exact hboot.2.2
  | off =>
      rw [hs] at hboot
      exact hboot.2.1 hmode
  | disabled => exact absurd hs hstate

/-- A function that the boot CPU runs alone keeps the invariant, if it keeps that of the boot
CPU. -/
theorem Inv.of_bootCpu (h : Inv s) (hboot : BootCpuOnly s) (hup : s'.up = s.up)
    {v : BitVec 64} (hmsr : s'.msr = Function.update s.msr 0 v) (hv : InUse (mode v))
    (hcpu : BootCpu s' s'.x2apicState) : Inv s' where
  modes c := by
    rw [hmsr]
    exact modes_setMsr h.modes hv 0 c
  boot := hcpu
  others c hc hne := absurd (hboot c (hup ▸ hc)) hne

theorem Inv.setupNox2apic (h : Inv s) (hboot : BootCpuOnly s) (hapic : cfg.hasApic = true) :
    ∃ s', setupNox2apic cfg s = .ok s' ∧ Inv s' := by
  by_cases henabled : x2apicEnabled s = true
  · by_cases hid : 255 ≤ (cfg.apicid 0).toInt
    · refine ⟨s, ?_, h⟩
      rw [X2apic.setupNox2apic, if_pos henabled, if_pos hid]
    · obtain ⟨v, hv, hdisable⟩ := exists_onCpu_disable hapic (h.modes 0)
      refine ⟨(s.setMsr 0 v).nox2apic, ?_, h.of_bootCpu hboot rfl rfl (.inl hv) ⟨rfl, ?_⟩⟩
      · rw [X2apic.setupNox2apic, if_pos henabled, if_neg hid, hdisable]
        rfl
      · exact (State.mode_setMsr_self s 0 v).trans hv
  · refine ⟨s.nox2apic, ?_, h.of_bootCpu hboot rfl (Function.update_eq_self ..).symm (h.modes 0)
      ⟨rfl, ?_⟩⟩
    · rw [X2apic.setupNox2apic, if_neg henabled]
    · -- where x2APIC mode is not seen, it is not there
      rcases h.modes 0 with hmode | hmode
      · exact hmode
      · rw [x2apicEnabled_iff (h.modes 0), not_and] at henabled
        by_cases hstate : s.x2apicState = .disabled
        · have hcpu := h.boot
          rw [hstate] at hcpu
          exact hcpu.2
        · exact absurd hmode (henabled (h.supported hmode hstate))

theorem Inv.checkX2apic (h : Inv s) (hboot : BootCpuOnly s) :
    Inv { checkX2apic s with checked := true } := by
  have hkeep : s.msr = Function.update s.msr 0 (s.msr 0) := (Function.update_eq_self ..).symm
  have henabled := x2apicEnabled_iff (h.modes 0)
  rw [X2apic.checkX2apic]
  split
  · next hx =>
      have hx' := henabled.1 hx
      exact h.of_bootCpu hboot rfl hkeep (h.modes 0) ⟨rfl, hx'.2, hx'.1⟩
  · next hx =>
      have hxapic : s.hasX2apic = true → mode (s.msr 0) = .xapic := fun hhas =>
        (h.modes 0).resolve_right fun hmode => hx (henabled.2 ⟨hhas, hmode⟩)
      split
      · next hhas =>
          refine h.of_bootCpu hboot rfl hkeep (h.modes 0) ?_
          have hcpu := h.boot
          show BootCpu { s with checked := true } s.x2apicState
          cases hstate : s.x2apicState with
          | on =>
              rw [hstate] at hcpu
              exact hcpu
          | off =>
              rw [hstate] at hcpu
              exact ⟨hcpu.1, hcpu.2.1, fun _ => ⟨hxapic hhas, hhas⟩⟩
          | disabled =>
              rw [hstate] at hcpu
              exact hcpu
      · next hhas =>
          refine h.of_bootCpu hboot rfl hkeep (h.modes 0) ?_
          have hcpu := h.boot
          show BootCpu { s with x2apicState := .disabled, checked := true } .disabled
          cases hstate : s.x2apicState with
          | on =>
              rw [hstate] at hcpu
              exact absurd hcpu.2.2 hhas
          | off =>
              rw [hstate] at hcpu
              exact ⟨hcpu.1, (h.modes 0).resolve_right fun hmode => hhas (hcpu.2.1 hmode)⟩
          | disabled =>
              rw [hstate] at hcpu
              exact hcpu

theorem Inv.x2apicEnable (h : Inv s) (hboot : BootCpuOnly s) (hchecked : s.checked = true) :
    ∃ s', x2apicEnable s = .ok s' ∧ Inv s' := by
  by_cases hoff : s.x2apicState = .off
  · have hcpu := h.boot
    rw [hoff] at hcpu
    obtain ⟨v, hv, henable⟩ := exists_onCpu_enable (s := s.setMode true .on) (h.modes 0)
    refine ⟨(s.setMode true .on).setMsr 0 v, ?_,
      h.of_bootCpu hboot rfl rfl (.inr hv) ⟨rfl, ?_, (hcpu.2.2 hchecked).2⟩⟩
    · rw [X2apic.x2apicEnable, if_neg (not_not.2 hoff)]
      exact henable
    · exact (State.mode_setMsr_self _ 0 v).trans hv
  · exact ⟨s, by rw [X2apic.x2apicEnable, if_pos hoff], h⟩

/-- **x2APIC mode is left, or the kernel panics**, where the APIC ID needs that mode. -/
theorem Inv.x2apicDisable (h : Inv s) (hboot : BootCpuOnly s) (hapic : cfg.hasApic = true)
    (hchecked : s.checked = true) (hstate : s.x2apicState ≠ .disabled) :
    Ends cfg s (x2apicDisable cfg s) := by
  by_cases hon : s.x2apicState = .on
  · by_cases hid : 255 ≤ (cfg.apicid 0).toNat
    · refine .inr ⟨?_, hid, hon⟩
      rw [X2apic.x2apicDisable, if_neg (not_not.2 hon), if_pos hid]
    · obtain ⟨v, hv, hdisable⟩ :=
        exists_onCpu_disable (s := s.setMode false .disabled) hapic (h.modes 0)
      refine .inl ⟨(s.setMode false .disabled).setMsr 0 v, ?_,
        h.of_bootCpu hboot rfl rfl (.inl hv) ⟨rfl, ?_⟩⟩
      · rw [X2apic.x2apicDisable, if_neg (not_not.2 hon), if_neg hid]
        exact hdisable
      · exact (State.mode_setMsr_self _ 0 v).trans hv
  · have hcpu := h.boot
    cases hs : s.x2apicState with
    | on => exact absurd hs hon
    | disabled => exact absurd hs hstate
    | off =>
        rw [hs] at hcpu
        refine .inl ⟨s.setMode false .disabled, by rw [X2apic.x2apicDisable, if_pos hon],
          h.of_bootCpu hboot rfl (Function.update_eq_self ..).symm (h.modes 0)
            ⟨rfl, (hcpu.2.2 hchecked).1⟩⟩

theorem Inv.setX2apicPhys (h : Inv s) (b : Bool) : Inv { s with x2apicPhys := b } where
  modes := h.modes
  boot := h.boot
  others := h.others

theorem Inv.tryToEnableX2apic (h : Inv s) (hboot : BootCpuOnly s) (hapic : cfg.hasApic = true)
    (hchecked : s.checked = true) (remapMode : ℤ) :
    Ends cfg s (tryToEnableX2apic cfg s remapMode) := by
  rw [X2apic.tryToEnableX2apic]
  split
  · exact .inl ⟨s, rfl, h⟩
  · next hstate =>
      split
      · split
        · exact h.x2apicDisable hboot hapic hchecked hstate
        · exact .inl ((h.setX2apicPhys true).x2apicEnable hboot hchecked)
      · exact .inl (h.x2apicEnable hboot hchecked)

theorem Inv.enableIrX2apic (h : Inv s) (hboot : BootCpuOnly s) (hapic : cfg.hasApic = true)
    (hchecked : s.checked = true) (e : Remapping) : Ends cfg s (enableIrX2apic cfg s e) := by
  have hsame : Ends cfg s (.ok s) := .inl ⟨s, rfl, h⟩
  rw [X2apic.enableIrX2apic]
  by_cases hskip : e.skipIoapicSetup = true
  · rwa [if_pos hskip]
  · by_cases hnone : e.prepare < 0 ∧ s.hasX2apic = false
    · rwa [if_neg hskip, if_pos hnone]
    · by_cases hsave : e.save ≠ 0
      · rwa [if_neg hskip, if_neg hnone, if_pos hsave]
      · rw [if_neg hskip, if_neg hnone, if_neg hsave]
        exact h.tryToEnableX2apic hboot hapic hchecked _

/-- A CPU that comes up gets the mode of the kernel. -/
theorem Inv.x2apicSetup (h : Inv s) (hapic : cfg.hasApic = true) (hchecked : s.checked = true)
    (c : ℕ) : ∃ v, X2apic.x2apicSetup cfg s c = .ok (s.setMsr c v) ∧
      Inv { s.setMsr c v with up := c :: s.up } := by
  obtain ⟨v, hv, hmode, hsetup⟩ : ∃ v, InUse (mode v) ∧
      (mode v = .x2apic ↔ s.x2apicState = .on) ∧
      X2apic.x2apicSetup cfg s c = .ok (s.setMsr c v) := by
    by_cases hon : s.x2apicState = .on
    · obtain ⟨v, hv, henable⟩ := exists_onCpu_enable (h.modes c)
      refine ⟨v, .inr hv, iff_of_true hv hon, ?_⟩
      rw [X2apic.x2apicSetup, if_neg (not_not.2 hon), henable]
    · obtain ⟨v, hv, hdisable⟩ := exists_onCpu_disable hapic (h.modes c)
      refine ⟨v, .inl hv, iff_of_false ?_ hon, ?_⟩
      · rw [hv]
        decide
      · rw [X2apic.x2apicSetup, if_pos hon, hdisable]
  refine ⟨v, hsetup, modes_setMsr h.modes hv c, ?_, ?_⟩
  · -- the boot CPU has this mode before
    have hboot : mode ((s.setMsr c v).msr 0) = mode (s.msr 0) := by
      by_cases hc : c = 0
      · subst hc
        rw [State.mode_setMsr_self]
        exact eq_of_inUse hv (h.modes 0) (hmode.trans (h.bootCpu_iff hchecked).symm)
      · rw [State.msr_setMsr, Function.update_of_ne (Ne.symm hc)]
    exact h.boot.congr hboot rfl rfl rfl
  · intro d hd hne
    by_cases hdc : d = c
    · subst hdc
      exact (iff_of_eq (congrArg (· = .x2apic) (State.mode_setMsr_self s d v))).trans hmode
    · have hother : (s.setMsr c v).msr d = s.msr d := Function.update_of_ne hdc ..
      have hd' : d ∈ s.up := (List.mem_cons.1 hd).resolve_left hdc
      exact hother.symm ▸ h.others d hd' hne

/-- **Every call in its order ends well.** -/
theorem Inv.act (h : Inv s) (hapic : cfg.hasApic = true) {a : Call} (hok : InOrder s a) :
    Ends cfg s (act cfg s a) := by
  cases a with
  | setupNox2apic =>
      exact .inl (h.setupNox2apic hok hapic)
  | checkX2apic => exact .inl ⟨_, rfl, h.checkX2apic hok⟩
  | enableIrX2apic e => exact h.enableIrX2apic hok.2 hapic hok.1 e
  | x2apicSetup c =>
      obtain ⟨v, hsetup, hinv⟩ := h.x2apicSetup hapic hok c
      exact .inl ⟨_, by rw [X2apic.act, hsetup]; rfl, hinv⟩

theorem Inv.step (h : Inv s) (hapic : cfg.hasApic = true) {a : Call} (hok : InOrder s a)
    (hs : step cfg s a = some s') : Inv s' := by
  rw [X2apic.step] at hs
  rcases h.act hapic hok with ⟨s'', heq, hinv⟩ | ⟨heq, -⟩
  · rw [heq] at hs
    exact Option.some.inj hs ▸ hinv
  · rw [heq] at hs
    cases hs

end Calls

/-! ### The modes of the CPUs -/

section Runs

variable {cfg : Config} {hasX2apic : Bool} {msr : ℕ → BitVec 64} {s : State}

theorem inv_of_reach (hapic : cfg.hasApic = true) (hfw : Firmware hasX2apic msr)
    (h : Reach (step cfg) InOrder (boot hasX2apic msr) s) : Inv s :=
  h.inv (inv_boot hfw) fun _ _ _ hinv => hinv.step hapic

/-- **No write of the kernel to the register faults**, in any run: a call returns, or it is the one
that would leave x2APIC mode on a boot CPU whose APIC ID needs it, and panics. -/
theorem no_fault (hapic : cfg.hasApic = true) (hfw : Firmware hasX2apic msr)
    (h : Reach (step cfg) InOrder (boot hasX2apic msr) s) {a : Call} (hok : InOrder s a) :
    (∃ s', act cfg s a = .ok s') ∨
      (act cfg s a = .error (.panic (cfg.apicid 0)) ∧ 255 ≤ (cfg.apicid 0).toNat ∧
        s.x2apicMode = true) := by
  have hinv := inv_of_reach hapic hfw h
  rcases hinv.act hapic hok with ⟨s', heq, -⟩ | ⟨heq, hid, hon⟩
  · exact .inl ⟨s', heq⟩
  · exact .inr ⟨heq, hid, hinv.x2apicMode_iff.2 hon⟩

/-- Two CPUs with large APIC IDs. -/
def largeIds : Config where
  hasApic := true
  apicid c := 300 + BitVec.ofNat 32 c
  maxPhysicalApicid := 301
  x2apicAvailable := true
  irqRemapX2apicMode := 1

/-- The firmware has switched all CPUs to x2APIC mode. -/
def allX2apic (_ : ℕ) : BitVec 64 := 0xfee00c00

theorem firmware_allX2apic : Firmware true allX2apic where
  modes _ := .inr (by show mode 0xfee00c00 = .x2apic; decide)
  supported _ := rfl

theorem no_fault_largeIds : ∃ s, Reach (step largeIds) InOrder (boot true allX2apic) s ∧
    ((∃ s', act largeIds s (.enableIrX2apic ⟨false, -1, 0, 0⟩) = .ok s') ∨
      (act largeIds s (.enableIrX2apic ⟨false, -1, 0, 0⟩) =
          .error (.panic (largeIds.apicid 0)) ∧
        255 ≤ (largeIds.apicid 0).toNat ∧ s.x2apicMode = true)) := by
  have hnone : BootCpuOnly (boot true allX2apic) := fun _ hc => absurd hc List.not_mem_nil
  have hrun : Reach (step largeIds) InOrder (boot true allX2apic)
      { checkX2apic (boot true allX2apic) with checked := true } :=
    Reach.start.next (a := .checkX2apic) hnone rfl
  exact ⟨_, hrun, no_fault rfl firmware_allX2apic hrun ⟨rfl, hnone⟩⟩

/-- **All CPUs that are set up are in the mode that the variables say**, in every run from any modes
that the firmware has left, as soon as the boot CPU has been checked. -/
theorem modes_agree (hapic : cfg.hasApic = true) (hfw : Firmware hasX2apic msr)
    (h : Reach (step cfg) InOrder (boot hasX2apic msr) s) (hchecked : s.checked = true) {c : ℕ}
    (hc : c = 0 ∨ c ∈ s.up) :
    mode (s.msr c) = (if s.x2apicMode then .x2apic else .xapic) ∧
      (s.x2apicMode = true ↔ s.x2apicState = .on) := by
  have hinv := inv_of_reach hapic hfw h
  have hiff : mode (s.msr c) = .x2apic ↔ s.x2apicState = .on := by
    by_cases hzero : c = 0
    · subst hzero
      exact hinv.bootCpu_iff hchecked
    · exact hinv.others c (hc.resolve_left hzero) hzero
  refine ⟨?_, hinv.x2apicMode_iff⟩
  cases hmode : s.x2apicMode with
  | true => exact hiff.2 (hinv.x2apicMode_iff.1 hmode)
  | false =>
      refine (hinv.modes c).resolve_right fun hx2apic => ?_
      rw [hinv.x2apicMode_iff.2 (hiff.1 hx2apic)] at hmode
      cases hmode

theorem modes_agree_largeIds : ∃ s, Reach (step largeIds) InOrder (boot true allX2apic) s ∧
    mode (s.msr 1) = (if s.x2apicMode then .x2apic else .xapic) ∧
      (s.x2apicMode = true ↔ s.x2apicState = .on) := by
  have hcheck : Reach (step largeIds) InOrder (boot true allX2apic)
      { checkX2apic (boot true allX2apic) with checked := true } :=
    Reach.start.next (a := .checkX2apic) (fun _ hc => absurd hc List.not_mem_nil) rfl
  have hrun : Reach (step largeIds) InOrder (boot true allX2apic)
      { (checkX2apic (boot true allX2apic)).setMsr 1 (allX2apic 1) with
        checked := true, up := [1] } :=
    hcheck.next (a := .x2apicSetup 1) rfl rfl
  exact ⟨_, hrun, modes_agree rfl firmware_allX2apic hrun rfl (.inr List.mem_cons_self)⟩

/-! ### The parameter `nox2apic` -/

/-- The kernel finds x2APIC mode switched on exactly where it is, in every run. -/
theorem x2apicEnabled_iff_of_reach (hapic : cfg.hasApic = true) (hfw : Firmware hasX2apic msr)
    (h : Reach (step cfg) InOrder (boot hasX2apic msr) s) :
    x2apicEnabled s = true ↔ mode (s.msr 0) = .x2apic := by
  have hinv := inv_of_reach hapic hfw h
  rw [x2apicEnabled_iff (hinv.modes 0), and_iff_right_iff_imp]
  intro hmode
  refine hinv.supported hmode fun hdisabled => ?_
  have hcpu := hinv.boot
  rw [hdisabled] at hcpu
  rw [hcpu.2] at hmode
  cases hmode

end Runs

section Nox2apic

variable {cfg : Config} {s s' : State}

/-- The kernel does without x2APIC mode. -/
structure Off (s : State) : Prop where
  mode : s.x2apicMode = false
  state : s.x2apicState = .disabled
  hasX2apic : s.hasX2apic = false

/-- **What the parameter does**: nothing, or it takes x2APIC mode from the kernel. -/
theorem setupNox2apic_cases (h : setupNox2apic cfg s = .ok s') :
    (x2apicEnabled s = true ∧ 255 ≤ (cfg.apicid 0).toInt ∧ s' = s) ∨
      (¬(x2apicEnabled s = true ∧ 255 ≤ (cfg.apicid 0).toInt) ∧ Off s') := by
  rw [setupNox2apic] at h
  split at h
  · next henabled =>
      split at h
      · next hid => exact .inl ⟨henabled, hid, (Except.ok.inj h).symm⟩
      · next hid =>
          cases hdisable : s.onCpu 0 (x2apicDisableMsr cfg.hasApic) with
          | error e =>
              rw [hdisable] at h
              cases h
          | ok s₁ =>
              rw [hdisable] at h
              obtain rfl := Except.ok.inj h
              exact .inr ⟨fun hboth => hid hboth.2, ⟨rfl, rfl, rfl⟩⟩
  · next henabled =>
      obtain rfl := Except.ok.inj h
      exact .inr ⟨fun hboth => henabled hboth.1, ⟨rfl, rfl, rfl⟩⟩

/-- **A kernel that does without x2APIC mode does not come back to it.** -/
theorem Off.step (h : Off s) {a : Call} (hs : step cfg s a = some s') : Off s' := by
  have henabled : x2apicEnabled s = false := by
    rw [x2apicEnabled, h.hasX2apic, Bool.false_and]
  cases a with
  | setupNox2apic =>
      rw [X2apic.step, act, setupNox2apic, henabled] at hs
      obtain rfl := Option.some.inj hs
      exact ⟨rfl, rfl, rfl⟩
  | checkX2apic =>
      rw [X2apic.step, act, checkX2apic, henabled, h.hasX2apic] at hs
      obtain rfl := Option.some.inj hs
      exact ⟨h.mode, rfl, rfl⟩
  | enableIrX2apic e =>
      have hsame : act cfg s (.enableIrX2apic e) = .ok s := by
        rw [act, enableIrX2apic, tryToEnableX2apic, if_pos h.state, ite_self, ite_self, ite_self]
      rw [X2apic.step, hsame] at hs
      exact Option.some.inj hs ▸ h
  | x2apicSetup c =>
      have hon : s.x2apicState ≠ .on := by simp [h.state]
      rw [X2apic.step, act, x2apicSetup, if_pos hon, State.onCpu] at hs
      cases hmsr : x2apicDisableMsr cfg.hasApic (s.msr c) with
      | error e =>
          rw [hmsr] at hs
          cases hs
      | ok v =>
          rw [hmsr] at hs
          obtain rfl := Option.some.inj hs
          exact ⟨h.mode, h.state, h.hasX2apic⟩

/-- **When the parameter `nox2apic` holds**: after the call for it no later call switches the kernel
to x2APIC mode, unless at the call the kernel finds that mode switched on at the boot CPU and the
APIC ID is from 255 on; an ID from `2 ^ 31` on counts as small.  This is so in every state in which
no other CPU is up, whatever the registers hold. -/
theorem nox2apic_iff (hok : InOrder s .setupNox2apic)
    (hcall : act cfg s .setupNox2apic = .ok s') :
    (∀ t, Reach (step cfg) InOrder s' t → t.x2apicMode = false) ↔
      ¬(x2apicEnabled s = true ∧ 255 ≤ (cfg.apicid 0).toNat ∧ (cfg.apicid 0).toNat < 2 ^ 31) := by
  have hid : 255 ≤ (cfg.apicid 0).toInt ↔
      255 ≤ (cfg.apicid 0).toNat ∧ (cfg.apicid 0).toNat < 2 ^ 31 := by
    rw [BitVec.toInt_eq_toNat_cond]
    split <;> omega
  rw [← hid]
  rcases setupNox2apic_cases hcall with ⟨henabled, hlarge, rfl⟩ | ⟨hnot, hoff⟩
  · -- the call changes nothing, and then the mode of the boot CPU is found
    refine iff_of_false (fun hrun => ?_) (not_not.2 ⟨henabled, hlarge⟩)
    have hcheck : Reach (step cfg) InOrder s' { checkX2apic s' with checked := true } :=
      Reach.start.next (a := .checkX2apic) hok rfl
    have hmode := hrun _ hcheck
    rw [checkX2apic, if_pos henabled] at hmode
    cases hmode
  · exact iff_of_true (fun t ht => (ht.inv hoff fun _ _ _ h _ hs => h.step hs).mode) hnot

theorem nox2apic_iff_largeIds :
    ∃ s', act largeIds (boot true allX2apic) .setupNox2apic = .ok s' ∧
      ((∀ t, Reach (step largeIds) InOrder s' t → t.x2apicMode = false) ↔
        ¬(x2apicEnabled (boot true allX2apic) = true ∧ 255 ≤ (largeIds.apicid 0).toNat ∧
          (largeIds.apicid 0).toNat < 2 ^ 31)) :=
  ⟨boot true allX2apic, rfl, nox2apic_iff (fun _ hc => absurd hc List.not_mem_nil) rfl⟩

end Nox2apic

end X2apic

/-
**Suspending and resuming the local APIC.**

`lapic_suspend` saves the registers of the local APIC, masks the entries of its vector table one by
one and switches it off.  While the machine sleeps the APIC loses what it holds, and the firmware
that wakes the machine leaves in it whatever it likes.  `lapic_resume` switches it on again and
writes the registers back.  The order of the writes matters: as long as the APIC is switched off by
its spurious interrupt register, the mask bits of the vector table cannot be cleared, and a vector
that is zero is an error, for which the APIC may send an interrupt of its own.

Main definitions:

* `LapicPm.Apic`, `LapicPm.Hw.write` — the registers of the APIC, and what a write does to them;
* `LapicPm.clearLocalApic`, `LapicPm.lapicSuspend`, `LapicPm.lapicResume` — the functions.

Main results:

* `LapicPm.clearLocalApic_quiet` — **no entry is unmasked, and no error interrupt is sent**, at any
  time while the APIC is cleared;
* `LapicPm.errors_unchanged` — no error interrupt is sent while the registers are written back;
* `LapicPm.restores_iff` — **the registers are restored, exactly if the firmware leaves the APIC so
  that the kernel reaches it**.
-/

import ResumeFromEdk2.ApicX2apic

set_option relaxedAutoImplicit false
set_option autoImplicit false

namespace LapicPm

open X2apic

/-! ### The hardware -/

/-- The registers that are saved or cleared. -/
inductive Reg
  | id
  | lvr
  | taskpri
  | ldr
  | dfr
  | spiv
  | esr
  | lvtcmci
  | lvtt
  | lvtthmr
  | lvtpc
  | lvt0
  | lvt1
  | lvterr
  | tmict
  | tdcr
  deriving DecidableEq

/-- The entries of the local vector table. -/
def Reg.isLvt : Reg → Bool
  | .lvtcmci | .lvtt | .lvtthmr | .lvtpc | .lvt0 | .lvt1 | .lvterr => true
  | _ => false

/-- `APIC_LVT_MASKED` -/
def lvtMasked : BitVec 32 := BitVec.twoPow 32 16

/-- `APIC_SPIV_APIC_ENABLED` -/
def spivApicEnabled : BitVec 32 := BitVec.twoPow 32 8

def masked (v : BitVec 32) : Bool := v.getLsbD 16

def enabled (v : BitVec 32) : Bool := v.getLsbD 8

inductive TimerMode
  | oneshot
  | periodic
  | tscDeadline
  deriving DecidableEq

/-- `APIC_LVT_TIMER_PERIODIC` -/
def lvtTimerPeriodic : BitVec 32 := BitVec.twoPow 32 17

/-- `APIC_LVT_TIMER_TSCDEADLINE` -/
def lvtTimerTscdeadline : BitVec 32 := BitVec.twoPow 32 18

/-- The mode of the timer that its entry of the vector table sets. -/
def timerMode (lvtt : BitVec 32) : TimerMode :=
  if lvtt.getLsbD 18 then .tscDeadline else if lvtt.getLsbD 17 then .periodic else .oneshot

/-- The local APIC of a CPU.  While it is disabled by its register `spiv`, the entries of its vector
table are masked. -/
@[ext] structure Apic where
  /-- `MSR_IA32_APICBASE` -/
  apicbase : BitVec 64
  regs : Reg → BitVec 32
  /-- The error interrupts that it has sent. -/
  errors : ℕ
  gated : enabled (regs .spiv) = false → ∀ r, r.isLvt = true → masked (regs r) = true

/-- What is known of the hardware. -/
structure Hw where
  /-- The bits of a register that software sets; the others show a status or are reserved. -/
  writable : Reg → BitVec 32
  writable_masked : ∀ r, r.isLvt = true → masked (writable r) = true
  writable_enabled : enabled (writable .spiv) = true
  /-- What the version register shows. -/
  version : BitVec 32
  /-- The registers of an APIC that starts anew: it is disabled by `spiv`. -/
  reset : Reg → BitVec 32
  reset_disabled : enabled (reset .spiv) = false
  reset_masked : ∀ r, r.isLvt = true → masked (reset r) = true

namespace Hw

variable (hw : Hw)

def read (s : Apic) (r : Reg) : BitVec 32 := if r = .lvr then hw.version else s.regs r

/-- The mode that the timer is in: the bits that software does not set do not count. -/
def timerMode (s : Apic) : TimerMode := LapicPm.timerMode (s.regs .lvtt &&& hw.writable .lvtt)

/-- The register is the initial count, in the mode for deadlines: it is not used, and a write to it
is ignored. -/
def Ignored (s : Apic) (r : Reg) : Prop := r = .tmict ∧ hw.timerMode s = .tscDeadline

instance (s : Apic) (r : Reg) : Decidable (hw.Ignored s r) := inferInstanceAs (Decidable (_ ∧ _))

/-- What a register holds after a write. -/
def stored (s : Apic) (r : Reg) (v : BitVec 32) : BitVec 32 :=
  let w := s.regs r &&& ~~~hw.writable r ||| v &&& hw.writable r
  if hw.Ignored s r then s.regs r
  else if r.isLvt = true ∧ enabled (s.regs .spiv) = false then w ||| lvtMasked
  else w

/-- What the registers hold after a write. -/
def after (s : Apic) (r : Reg) (v : BitVec 32) (r' : Reg) : BitVec 32 :=
  if r' = r then hw.stored s r v
  else if r = .spiv ∧ r'.isLvt = true ∧ enabled (hw.stored s r v) = false then
    s.regs r' ||| lvtMasked
  else s.regs r'

end Hw

@[simp] theorem masked_or_lvtMasked (v : BitVec 32) : masked (v ||| lvtMasked) = true := by
  simp [masked, lvtMasked]

theorem Hw.after_of_ne (hw : Hw) (s : Apic) {r r' : Reg} (v : BitVec 32) (h : r' ≠ r)
    (hlvt : r'.isLvt = true → r ≠ .spiv) : hw.after s r v r' = s.regs r' := by
  rw [Hw.after, if_neg h, if_neg]
  rintro ⟨hspiv, hr', -⟩
  exact hlvt hr' hspiv

theorem Hw.not_ignored_of_isLvt (hw : Hw) (s : Apic) {r : Reg} (hr : r.isLvt = true) :
    ¬hw.Ignored s r := by
  rintro ⟨rfl, -⟩
  cases hr

/-- What software has set in a register after a write, where the write is not ignored and the APIC
is enabled. -/
theorem Hw.stored_of_not_ignored {hw : Hw} {s : Apic} {r : Reg} (h : ¬hw.Ignored s r)
    (v : BitVec 32) : hw.stored s r v =
      if r.isLvt = true ∧ enabled (s.regs .spiv) = false then
        (s.regs r &&& ~~~hw.writable r ||| v &&& hw.writable r) ||| lvtMasked
      else s.regs r &&& ~~~hw.writable r ||| v &&& hw.writable r := by
  rw [Hw.stored, if_neg h]

/-- Where the APIC is disabled, the table stays masked. -/
theorem Hw.gated_after (hw : Hw) (s : Apic) (r : Reg) (v : BitVec 32)
    (h : enabled (hw.after s r v .spiv) = false) (r' : Reg) (hr' : r'.isLvt = true) :
    masked (hw.after s r v r') = true := by
  by_cases hspiv : r = .spiv
  · subst hspiv
    have hne : r' ≠ .spiv := by
      rintro rfl
      cases hr'
    rw [Hw.after, if_pos rfl] at h
    rw [Hw.after, if_neg hne, if_pos ⟨rfl, hr', h⟩, masked_or_lvtMasked]
  · rw [hw.after_of_ne s v (Ne.symm hspiv) fun hlvt => by cases hlvt] at h
    by_cases hr : r' = r
    · subst hr
      rw [Hw.after, if_pos rfl, Hw.stored_of_not_ignored (hw.not_ignored_of_isLvt s hr'),
        if_pos ⟨hr', h⟩, masked_or_lvtMasked]
    · rw [hw.after_of_ne s v hr fun _ => hspiv]
      exact s.gated h r' hr'

/-- A write of `v` to the register `r`.  An entry of the table with the vector zero is an error, for
which an interrupt is sent if the entry for errors is not masked. -/
def Hw.write (hw : Hw) (s : Apic) (r : Reg) (v : BitVec 32) : Apic where
  apicbase := s.apicbase
  regs := hw.after s r v
  errors := if r.isLvt = true ∧ v &&& 0xff = 0 ∧ masked (s.regs .lvterr) = false then s.errors + 1
    else s.errors
  gated := hw.gated_after s r v

/-- A new value in `MSR_IA32_APICBASE`.  An APIC that is enabled by it starts anew. -/
def Hw.setApicbase (hw : Hw) (s : Apic) (base : BitVec 64) : Apic :=
  if mode s.apicbase = .disabled ∧ mode base ≠ .disabled then
    { s with apicbase := base, regs := hw.reset, gated := fun _ => hw.reset_masked }
  else { s with apicbase := base }

/-! ### The kernel -/

/-- What the kernel knows of the machine. -/
structure Config where
  hw : Hw
  /-- `x2apic_mode` -/
  x2apicMode : Bool
  /-- `apic_phys` -/
  apicPhys : BitVec 64
  /-- `mp_lapic_addr`, at which the registers are mapped. -/
  mpLapicAddr : BitVec 64
  mpLapicAddr_page : mpLapicAddr &&& 0xfffff000 = mpLapicAddr
  /-- `ERROR_APIC_VECTOR` -/
  errorApicVector : BitVec 32
  errorApicVector_ne : errorApicVector &&& 0xff ≠ 0
  /-- `boot_cpu_data.x86 >= 6` -/
  hasApicbase : Bool
  /-- `CONFIG_X86_THERMAL_VECTOR` -/
  thermalVector : Bool
  /-- `CONFIG_X86_MCE_INTEL` -/
  mceIntel : Bool
  /-- `APIC_INTEGRATED(GET_APIC_VERSION(v))` -/
  apicIntegrated : BitVec 32 → Bool
  /-- `GET_APIC_MAXLVT(v)` -/
  getApicMaxlvt : BitVec 32 → ℕ

/-- The address bits of `MSR_IA32_APICBASE`. -/
def addressMask : BitVec 64 := 0xffffffffff000

/-- **The APIC answers to the kernel**: it is in the mode that the kernel uses, and in xAPIC mode
also at the address that is mapped. -/
def Answers (cfg : Config) (base : BitVec 64) : Prop :=
  if cfg.x2apicMode = true then mode base = .x2apic
  else cfg.hasApicbase = true → mode base = .xapic ∧ base &&& addressMask = cfg.mpLapicAddr

instance (cfg : Config) (base : BitVec 64) : Decidable (Answers cfg base) := by
  unfold Answers
  infer_instance

/-- `apic_read`: `native_apic_msr_read` or `native_apic_mem_read`.  Where no APIC answers, all bits
are set. -/
def apicRead (cfg : Config) (s : Apic) (r : Reg) : BitVec 32 :=
  if cfg.x2apicMode = true ∧ r = .dfr then BitVec.allOnes 32
  else if Answers cfg s.apicbase then cfg.hw.read s r
  else BitVec.allOnes 32

/-- The registers that `native_apic_msr_write` does not write. -/
def Dropped (cfg : Config) (r : Reg) : Prop :=
  cfg.x2apicMode = true ∧ (r = .dfr ∨ r = .id ∨ r = .ldr ∨ r = .lvr)

instance (cfg : Config) (r : Reg) : Decidable (Dropped cfg r) := by
  unfold Dropped
  infer_instance

/-- `apic_write`: `native_apic_msr_write` or `native_apic_mem_write`. -/
def apicWrite (cfg : Config) (s : Apic) (r : Reg) (v : BitVec 32) : Apic :=
  if Dropped cfg r then s
  else if Answers cfg s.apicbase then cfg.hw.write s r v
  else s

/-- `lapic_is_integrated` -/
def lapicIsIntegrated (cfg : Config) (s : Apic) : Bool := cfg.apicIntegrated (apicRead cfg s .lvr)

/-- `lapic_get_maxlvt` -/
def lapicGetMaxlvt (cfg : Config) (s : Apic) : ℕ :=
  if lapicIsIntegrated cfg s then cfg.getApicMaxlvt (apicRead cfg s .lvr) else 2

/-- The accesses to the APIC, of which the functions are made. -/
inductive Access
  /-- `apic_read(r);` -/
  | read (r : Reg)
  /-- `apic_write(r, v);` -/
  | write (r : Reg) (v : BitVec 32)
  /-- `v = apic_read(r); apic_write(r, f(v));` -/
  | modify (r : Reg) (f : BitVec 32 → BitVec 32)
  /-- `v = apic_read(r); if (!(v & APIC_LVT_MASKED)) apic_write(r, v | APIC_LVT_MASKED);` -/
  | mask (r : Reg)

/-- What an access writes. -/
def Access.written (cfg : Config) (s : Apic) : Access → Option (Reg × BitVec 32)
  | .read _ => none
  | .write r v => some (r, v)
  | .modify r f => some (r, f (apicRead cfg s r))
  | .mask r =>
      if masked (apicRead cfg s r) then none else some (r, apicRead cfg s r ||| lvtMasked)

def exec (cfg : Config) (s : Apic) (a : Access) : Apic :=
  match a.written cfg s with
  | none => s
  | some (r, v) => apicWrite cfg s r v

/-- A sequence of accesses. -/
def run (cfg : Config) (s : Apic) (as : List Access) : Apic := as.foldl (exec cfg) s

/-- `v | APIC_LVT_MASKED` -/
def setMask (v : BitVec 32) : BitVec 32 := v ||| lvtMasked

/-- The accesses of `clear_local_APIC`. -/
def clearAccesses (cfg : Config) (maxlvt : ℕ) (integrated : Bool) : List Access :=
  -- mask LVTERR first, an entry with the vector zero can trigger an error
  (if 3 ≤ maxlvt then [.write .lvterr (setMask cfg.errorApicVector)] else []) ++
  -- set masks only first to deassert any level-triggered sources
  [.modify .lvtt setMask, .modify .lvt0 setMask, .modify .lvt1 setMask] ++
  (if 4 ≤ maxlvt then [.modify .lvtpc setMask] else []) ++
  (if cfg.thermalVector ∧ 5 ≤ maxlvt then [.modify .lvtthmr setMask] else []) ++
  (if cfg.mceIntel ∧ 6 ≤ maxlvt then [.mask .lvtcmci] else []) ++
  -- clean APIC state for other OSs
  [.write .lvtt lvtMasked, .write .lvt0 lvtMasked, .write .lvt1 lvtMasked] ++
  (if 3 ≤ maxlvt then [.write .lvterr lvtMasked] else []) ++
  (if 4 ≤ maxlvt then [.write .lvtpc lvtMasked] else []) ++
  (if integrated then (if 3 < maxlvt then [.write .esr 0] else []) ++ [.read .esr] else [])

/-- `clear_local_APIC` -/
def clearLocalApic (cfg : Config) (s : Apic) : Apic :=
  -- APIC hasn't been mapped yet
  if cfg.x2apicMode = false ∧ cfg.apicPhys = 0 then s
  else run cfg s (clearAccesses cfg (lapicGetMaxlvt cfg s) (lapicIsIntegrated cfg s))

/-- `apic_soft_disable` -/
def apicSoftDisable (cfg : Config) (s : Apic) : Apic :=
  run cfg (clearLocalApic cfg s) [.modify .spiv (· &&& ~~~spivApicEnabled)]

/-- `disable_local_APIC`, without what it does on 32 bits. -/
def disableLocalApic (cfg : Config) (s : Apic) : Apic :=
  if cfg.x2apicMode = false ∧ cfg.apicPhys = 0 then s else apicSoftDisable cfg s

/-- `apic_pm_state` -/
structure ApicPmState where
  active : Bool
  apicId : BitVec 32
  apicTaskpri : BitVec 32
  apicLdr : BitVec 32
  apicDfr : BitVec 32
  apicSpiv : BitVec 32
  apicLvtt : BitVec 32
  apicLvtpc : BitVec 32
  apicLvt0 : BitVec 32
  apicLvt1 : BitVec 32
  apicLvterr : BitVec 32
  apicTmict : BitVec 32
  apicTdcr : BitVec 32
  apicThmr : BitVec 32
  apicCmci : BitVec 32

/-- `lapic_suspend` -/
def lapicSuspend (cfg : Config) (pm : ApicPmState) (s : Apic) : ApicPmState × Apic :=
  if !pm.active then (pm, s)
  else
    let maxlvt := lapicGetMaxlvt cfg s
    ({ active := pm.active
       apicId := apicRead cfg s .id
       apicTaskpri := apicRead cfg s .taskpri
       apicLdr := apicRead cfg s .ldr
       apicDfr := apicRead cfg s .dfr
       apicSpiv := apicRead cfg s .spiv
       apicLvtt := apicRead cfg s .lvtt
       apicLvtpc := if 4 ≤ maxlvt then apicRead cfg s .lvtpc else pm.apicLvtpc
       apicLvt0 := apicRead cfg s .lvt0
       apicLvt1 := apicRead cfg s .lvt1
       apicLvterr := apicRead cfg s .lvterr
       apicTmict := apicRead cfg s .tmict
       apicTdcr := apicRead cfg s .tdcr
       apicThmr := if cfg.thermalVector ∧ 5 ≤ maxlvt then apicRead cfg s .lvtthmr else pm.apicThmr
       apicCmci := if cfg.mceIntel ∧ 6 ≤ maxlvt then apicRead cfg s .lvtcmci else pm.apicCmci },
      disableLocalApic cfg s)

/-- The value of `MSR_IA32_APICBASE` that `lapic_resume` writes: in the lower half the address and
the bit that enables the APIC are set. -/
def fixApicbase (cfg : Config) (base : BitVec 64) : BitVec 64 :=
  let l := base.setWidth 32 &&& ~~~0xfffff000#32 |||
    (xapicEnableBit ||| cfg.mpLapicAddr).setWidth 32
  let h := (base >>> 32).setWidth 32
  h ++ l

/-- The registers that `lapic_resume` writes back, in its order, but for the last one. -/
def restoreAccesses (cfg : Config) (pm : ApicPmState) (maxlvt : ℕ) : List Access :=
  [.write .id pm.apicId, .write .dfr pm.apicDfr, .write .ldr pm.apicLdr,
    .write .taskpri pm.apicTaskpri, .write .spiv pm.apicSpiv, .write .lvt0 pm.apicLvt0,
    .write .lvt1 pm.apicLvt1] ++
  (if cfg.thermalVector ∧ 5 ≤ maxlvt then [.write .lvtthmr pm.apicThmr] else []) ++
  (if cfg.mceIntel ∧ 6 ≤ maxlvt then [.write .lvtcmci pm.apicCmci] else []) ++
  (if 4 ≤ maxlvt then [.write .lvtpc pm.apicLvtpc] else []) ++
  [.write .lvtt pm.apicLvtt, .write .tdcr pm.apicTdcr, .write .tmict pm.apicTmict]

/-- The accesses of `lapic_resume`. -/
def resumeAccesses (cfg : Config) (pm : ApicPmState) (maxlvt : ℕ) : List Access :=
  .write .lvterr (setMask cfg.errorApicVector) ::
    (restoreAccesses cfg pm maxlvt ++
      [.write .esr 0, .read .esr, .write .lvterr pm.apicLvterr, .write .esr 0, .read .esr])

/-- What `lapic_resume` does to make the APIC answer. -/
def switchOn (cfg : Config) (s : Apic) : Except Stop Apic :=
  if cfg.x2apicMode = true then
    (x2apicEnableMsr s.apicbase).map (cfg.hw.setApicbase s)
  else if cfg.hasApicbase = true then
    (wrmsrl s.apicbase (fixApicbase cfg s.apicbase)).map (cfg.hw.setApicbase s)
  else .ok s

/-- `lapic_resume` -/
def lapicResume (cfg : Config) (pm : ApicPmState) (s : Apic) : Except Stop Apic :=
  if !pm.active then .ok s
  else (switchOn cfg s).map fun s' =>
    run cfg s' (resumeAccesses cfg pm (lapicGetMaxlvt cfg s'))

/-! ### A machine -/

/-- All bits can be written. -/
def exampleHw : Hw where
  writable _ := BitVec.allOnes 32
  writable_masked _ _ := rfl
  writable_enabled := rfl
  version := 0x60015
  reset r := if r.isLvt then lvtMasked else 0
  reset_disabled := rfl
  reset_masked r hr := by rw [if_pos hr]; rfl

/-- A kernel in xAPIC mode. -/
def exampleConfig : Config where
  hw := exampleHw
  x2apicMode := false
  apicPhys := 0xfee00000
  mpLapicAddr := 0xfee00000
  mpLapicAddr_page := by decide
  errorApicVector := 0xfe
  errorApicVector_ne := by decide
  hasApicbase := true
  thermalVector := true
  mceIntel := true
  apicIntegrated v := decide (v &&& 0xf0 ≠ 0)
  getApicMaxlvt v := ((v >>> 16) &&& 0xff).toNat

/-- The APIC is enabled, and its timer is on. -/
def exampleApic : Apic where
  apicbase := 0xfee00800
  regs r := if r = .spiv then 0x1ff else if r = .lvtt then 0x200ec else 0
  errors := 0
  gated h := absurd h (by decide)

/-- Nothing has been saved yet. -/
def examplePm : ApicPmState where
  active := true
  apicId := 0
  apicTaskpri := 0
  apicLdr := 0
  apicDfr := 0
  apicSpiv := 0
  apicLvtt := 0
  apicLvtpc := 0
  apicLvt0 := 0
  apicLvt1 := 0
  apicLvterr := 0
  apicTmict := 0
  apicTdcr := 0
  apicThmr := 0
  apicCmci := 0

theorem answers_exampleApic : Answers exampleConfig exampleApic.apicbase := by decide

/-! ### Single accesses -/

section Accesses

variable {cfg : Config} {s : Apic} {r r' : Reg} {v : BitVec 32} {as : List Access}

@[simp] theorem run_nil (cfg : Config) (s : Apic) : run cfg s [] = s := rfl

@[simp] theorem run_cons (cfg : Config) (s : Apic) (a : Access) (as : List Access) :
    run cfg s (a :: as) = run cfg (exec cfg s a) as := rfl

theorem run_append (cfg : Config) (s : Apic) (as bs : List Access) :
    run cfg s (as ++ bs) = run cfg (run cfg s as) bs := List.foldl_append

theorem exec_eq (cfg : Config) (s : Apic) (a : Access) :
    exec cfg s a = s ∨
      ∃ r v, a.written cfg s = some (r, v) ∧ exec cfg s a = apicWrite cfg s r v := by
  cases h : a.written cfg s with
  | none => exact .inl (by rw [exec, h])
  | some w => exact .inr ⟨w.1, w.2, rfl, by rw [exec, h]⟩

@[simp] theorem apicbase_apicWrite (cfg : Config) (s : Apic) (r : Reg) (v : BitVec 32) :
    (apicWrite cfg s r v).apicbase = s.apicbase := by
  rw [apicWrite]
  split
  · rfl
  · split
    · rfl
    · rfl

@[simp] theorem apicbase_exec (cfg : Config) (s : Apic) (a : Access) :
    (exec cfg s a).apicbase = s.apicbase := by
  rcases exec_eq cfg s a with h | ⟨r, v, -, h⟩
  · rw [h]
  · rw [h, apicbase_apicWrite]

@[simp] theorem apicbase_run (cfg : Config) (s : Apic) (as : List Access) :
    (run cfg s as).apicbase = s.apicbase := by
  induction as generalizing s with
  | nil => rfl
  | cons a as ih => rw [run_cons, ih, apicbase_exec]

/-- A write reaches the APIC or is lost. -/
theorem apicWrite_cases (cfg : Config) (s : Apic) (r : Reg) (v : BitVec 32) :
    apicWrite cfg s r v = s ∨ apicWrite cfg s r v = cfg.hw.write s r v := by
  rw [apicWrite]
  split
  · exact .inl rfl
  · split
    · exact .inr rfl
    · exact .inl rfl

theorem apicWrite_of_answers (hs : Answers cfg s.apicbase) (hr : ¬Dropped cfg r) (v : BitVec 32) :
    apicWrite cfg s r v = cfg.hw.write s r v := by
  rw [apicWrite, if_neg hr, if_pos hs]

/-- Nothing is written where no APIC answers. -/
theorem run_of_not_answers (hs : ¬Answers cfg s.apicbase) (as : List Access) :
    run cfg s as = s := by
  induction as with
  | nil => rfl
  | cons a as ih =>
      have hsame : exec cfg s a = s := by
        rcases exec_eq cfg s a with h | ⟨r, v, -, h⟩
        · exact h
        · rw [h, apicWrite, if_neg hs, ite_self]
      rw [run_cons, hsame, ih]

theorem regs_apicWrite_of_ne (v : BitVec 32) (h : r' ≠ r) (hlvt : r'.isLvt = true → r ≠ .spiv) :
    (apicWrite cfg s r v).regs r' = s.regs r' := by
  rcases apicWrite_cases cfg s r v with heq | heq
  · rw [heq]
  · rw [heq]
    exact cfg.hw.after_of_ne s v h hlvt

/-- The mask of an entry is what is written, or what the disabled APIC keeps. -/
theorem masked_stored (hr : r.isLvt = true) (hv : masked v = true) :
    masked (cfg.hw.stored s r v) = true := by
  have hw := cfg.hw.writable_masked r hr
  rw [masked] at hv hw
  rw [Hw.stored_of_not_ignored (cfg.hw.not_ignored_of_isLvt s hr)]
  split
  · rw [masked_or_lvtMasked]
  · simp [masked, hv, hw]

/-- **A masked entry stays masked**, unless it is written to with a value that is not. -/
theorem masked_apicWrite (hr' : r'.isLvt = true) (hmask : masked (s.regs r') = true)
    (hv : r = r' → masked v = true) : masked ((apicWrite cfg s r v).regs r') = true := by
  rcases apicWrite_cases cfg s r v with heq | heq
  · rwa [heq]
  · rw [heq]
    show masked (cfg.hw.after s r v r') = true
    rw [Hw.after]
    split
    · next h =>
        subst h
        exact masked_stored hr' (hv rfl)
    · split
      · rw [masked_or_lvtMasked]
      · exact hmask

theorem errors_apicWrite (h : r.isLvt = true → v &&& 0xff ≠ 0 ∨ masked (s.regs .lvterr) = true) :
    (apicWrite cfg s r v).errors = s.errors := by
  rcases apicWrite_cases cfg s r v with heq | heq
  · rw [heq]
  · rw [heq, Hw.write, if_neg]
    rintro ⟨hlvt, hzero, hmask⟩
    rcases h hlvt with hne | hmasked
    · exact hne hzero
    · rw [hmask] at hmasked
      cases hmasked

theorem vector_setMask (v : BitVec 32) : setMask v &&& 0xff = v &&& 0xff := by
  have hzero : lvtMasked &&& 0xff = 0#32 := by decide
  rw [setMask, BitVec.and_comm, BitVec.and_or_distrib_left, BitVec.and_comm _ lvtMasked, hzero,
    BitVec.or_zero, BitVec.and_comm]

end Accesses

/-! ### Clearing -/

section Clear

variable {cfg : Config} {s : Apic} {r : Reg} {as : List Access}

/-- An access that masks what it writes of the vector table. -/
def Masks (cfg : Config) (a : Access) : Prop :=
  ∀ s r v, a.written cfg s = some (r, v) → r.isLvt = true → masked v = true

theorem masks_read (r : Reg) : Masks cfg (.read r) := fun _ _ _ h => by cases h

theorem masks_write {v : BitVec 32} (h : r.isLvt = true → masked v = true) :
    Masks cfg (.write r v) := by
  intro s r' v' hw
  cases hw
  exact h

theorem masks_modify (r : Reg) : Masks cfg (.modify r setMask) := by
  intro s r' v' hw hlvt
  cases hw
  exact masked_or_lvtMasked _

theorem masks_mask (r : Reg) : Masks cfg (.mask r) := by
  intro s r' v' hw hlvt
  rw [Access.written] at hw
  split at hw
  · cases hw
  · cases hw
    exact masked_or_lvtMasked _

theorem Masks.masked_exec {a : Access} (h : Masks cfg a) (hr : r.isLvt = true)
    (hmask : masked (s.regs r) = true) : masked ((exec cfg s a).regs r) = true := by
  rcases exec_eq cfg s a with heq | ⟨r', v, hw, heq⟩
  · rwa [heq]
  · rw [heq]
    exact masked_apicWrite hr hmask fun h' => h s r' v hw (h' ▸ hr)

theorem masked_run (hall : ∀ a ∈ as, Masks cfg a) (hr : r.isLvt = true)
    (hmask : masked (s.regs r) = true) : masked ((run cfg s as).regs r) = true := by
  induction as generalizing s with
  | nil => exact hmask
  | cons a as ih =>
      obtain ⟨ha, has⟩ := List.forall_mem_cons.1 hall
      exact ih has (ha.masked_exec hr hmask)

/-- An access that does not unmask the entry for errors. -/
def KeepsErr (cfg : Config) (a : Access) : Prop :=
  ∀ s v, a.written cfg s = some (.lvterr, v) → masked v = true

theorem Masks.keepsErr {a : Access} (h : Masks cfg a) : KeepsErr cfg a := fun s v hw =>
  h s .lvterr v hw rfl

theorem keepsErr_write {v : BitVec 32} (h : r ≠ .lvterr) : KeepsErr cfg (.write r v) := by
  intro s v' hw
  cases hw
  exact absurd rfl h

/-- **While the entry for errors is masked, no error interrupt is sent.** -/
theorem run_keepsErr (hall : ∀ a ∈ as, KeepsErr cfg a) (herr : masked (s.regs .lvterr) = true) :
    (run cfg s as).errors = s.errors ∧ masked ((run cfg s as).regs .lvterr) = true := by
  induction as generalizing s with
  | nil => exact ⟨rfl, herr⟩
  | cons a as ih =>
      obtain ⟨ha, has⟩ := List.forall_mem_cons.1 hall
      have hone : (exec cfg s a).errors = s.errors ∧
          masked ((exec cfg s a).regs .lvterr) = true := by
        rcases exec_eq cfg s a with heq | ⟨r, v, hw, heq⟩
        · rw [heq]
          exact ⟨rfl, herr⟩
        · rw [heq]
          refine ⟨errors_apicWrite fun _ => .inr herr, masked_apicWrite rfl herr fun hr => ?_⟩
          subst hr
          exact ha s v hw
      obtain ⟨herrors, hmasked⟩ := ih has hone.2
      exact ⟨herrors.trans hone.1, hmasked⟩

/-- An access to a register after which it is masked. -/
theorem masked_exec_write {v : BitVec 32} (hs : Answers cfg s.apicbase) (hr : r.isLvt = true)
    (hv : masked v = true) : masked ((exec cfg s (.write r v)).regs r) = true := by
  have hdropped : ¬Dropped cfg r := by
    rintro ⟨-, rfl | rfl | rfl | rfl⟩
    all_goals cases hr
  show masked ((apicWrite cfg s r v).regs r) = true
  rw [apicWrite_of_answers hs hdropped]
  show masked (cfg.hw.after s r v r) = true
  rw [Hw.after, if_pos rfl]
  exact masked_stored hr hv

theorem apicRead_of_lvt (hs : Answers cfg s.apicbase) (hr : r.isLvt = true) :
    apicRead cfg s r = s.regs r := by
  have hdfr : r ≠ .dfr := by
    rintro rfl
    cases hr
  have hlvr : r ≠ .lvr := by
    rintro rfl
    cases hr
  rw [apicRead, if_neg fun h => hdfr h.2, if_pos hs, Hw.read, if_neg hlvr]

theorem masked_exec_mask (hs : Answers cfg s.apicbase) (hr : r.isLvt = true) :
    masked ((exec cfg s (.mask r)).regs r) = true := by
  by_cases hmask : masked (s.regs r) = true
  · have hsame : exec cfg s (.mask r) = s := by
      rw [exec, Access.written, apicRead_of_lvt hs hr, if_pos hmask]
    rwa [hsame]
  · have hwrite : exec cfg s (.mask r) = exec cfg s (.write r (s.regs r ||| lvtMasked)) := by
      rw [exec, Access.written, apicRead_of_lvt hs hr, if_neg hmask]
      rfl
    rw [hwrite]
    exact masked_exec_write hs hr (masked_or_lvtMasked _)

/-- **What one of the accesses masks stays masked.** -/
theorem masked_run_of_mem {a : Access} (hs : Answers cfg s.apicbase)
    (hall : ∀ a ∈ as, Masks cfg a) (hr : r.isLvt = true) (ha : a ∈ as)
    (hmask : ∀ s : Apic, Answers cfg s.apicbase → masked ((exec cfg s a).regs r) = true) :
    masked ((run cfg s as).regs r) = true := by
  obtain ⟨pre, post, rfl⟩ := List.append_of_mem ha
  have hpost := (List.forall_mem_cons.1 (List.forall_mem_append.1 hall).2).2
  have hs' : Answers cfg (run cfg s pre).apicbase := by rwa [apicbase_run]
  rw [run_append, run_cons]
  exact masked_run hpost hr (hmask _ hs')

theorem masks_clearAccesses (cfg : Config) (n : ℕ) (integrated : Bool) :
    ∀ a ∈ clearAccesses cfg n integrated, Masks cfg a := by
  have hclean : ∀ r, Masks cfg (.write r lvtMasked) := fun r => masks_write fun _ => by decide
  intro a ha
  simp only [clearAccesses, List.mem_append, List.mem_ite_nil_right, List.mem_cons,
    List.not_mem_nil, or_false, or_assoc] at ha
  rcases ha with ⟨-, rfl⟩ | rfl | rfl | rfl | ⟨-, rfl⟩ | ⟨-, rfl⟩ | ⟨-, rfl⟩ | rfl | rfl | rfl |
    ⟨-, rfl⟩ | ⟨-, rfl⟩ | ⟨-, ⟨-, rfl⟩ | rfl⟩
  · exact masks_write fun _ => masked_or_lvtMasked _
  · exact masks_modify _
  · exact masks_modify _
  · exact masks_modify _
  · exact masks_modify _
  · exact masks_modify _
  · exact masks_mask _
  · exact hclean _
  · exact hclean _
  · exact hclean _
  · exact hclean _
  · exact hclean _
  · exact masks_write fun h => by cases h
  · exact masks_read _

/-- The entries that `clear_local_APIC` masks. -/
def Cleared (cfg : Config) (maxlvt : ℕ) : Reg → Prop
  | .lvtt | .lvt0 | .lvt1 => True
  | .lvterr => 3 ≤ maxlvt
  | .lvtpc => 4 ≤ maxlvt
  | .lvtthmr => cfg.thermalVector = true ∧ 5 ≤ maxlvt
  | .lvtcmci => cfg.mceIntel = true ∧ 6 ≤ maxlvt
  | _ => False

/-- Every entry is masked by an access. -/
theorem exists_access_of_cleared {n : ℕ} (integrated : Bool) (h : Cleared cfg n r) :
    r.isLvt = true ∧ ∃ a ∈ clearAccesses cfg n integrated,
      ∀ s : Apic, Answers cfg s.apicbase → masked ((exec cfg s a).regs r) = true := by
  have hclean : ∀ {s : Apic} {r}, Answers cfg s.apicbase → r.isLvt = true →
      masked ((exec cfg s (.write r lvtMasked)).regs r) = true := fun hs hr =>
    masked_exec_write hs hr (by decide)
  cases r with
  | lvtt => exact ⟨rfl, .write .lvtt lvtMasked, by simp [clearAccesses], fun s hs => hclean hs rfl⟩
  | lvt0 => exact ⟨rfl, .write .lvt0 lvtMasked, by simp [clearAccesses], fun s hs => hclean hs rfl⟩
  | lvt1 => exact ⟨rfl, .write .lvt1 lvtMasked, by simp [clearAccesses], fun s hs => hclean hs rfl⟩
  | lvterr =>
      have hn : 3 ≤ n := h
      exact ⟨rfl, .write .lvterr lvtMasked, by simp [clearAccesses, hn], fun s hs => hclean hs rfl⟩
  | lvtpc =>
      have hn : 4 ≤ n := h
      exact ⟨rfl, .write .lvtpc lvtMasked, by simp [clearAccesses, hn], fun s hs => hclean hs rfl⟩
  | lvtthmr =>
      obtain ⟨hconfig, hn⟩ : cfg.thermalVector = true ∧ 5 ≤ n := h
      exact ⟨rfl, .modify .lvtthmr setMask, by simp [clearAccesses, hconfig, hn],
        fun s hs => masked_exec_write hs rfl (masked_or_lvtMasked _)⟩
  | lvtcmci =>
      obtain ⟨hconfig, hn⟩ : cfg.mceIntel = true ∧ 6 ≤ n := h
      exact ⟨rfl, .mask .lvtcmci, by simp [clearAccesses, hconfig, hn],
        fun s hs => masked_exec_mask hs rfl⟩
  | _ => cases h

/-- The first access sends no error, for its vector is not zero, and masks the entry for errors. -/
theorem exec_first (hs : Answers cfg s.apicbase) :
    (exec cfg s (.write .lvterr (setMask cfg.errorApicVector))).errors = s.errors ∧
      masked ((exec cfg s (.write .lvterr (setMask cfg.errorApicVector))).regs .lvterr) = true := by
  refine ⟨errors_apicWrite fun _ => .inl ?_, masked_exec_write hs rfl (masked_or_lvtMasked _)⟩
  rw [vector_setMask]
  exact cfg.errorApicVector_ne

/-- No error interrupt is sent during the accesses. -/
theorem errors_clearAccesses {n : ℕ} {integrated : Bool} (hs : Answers cfg s.apicbase) (h3 : 3 ≤ n)
    {pre post : List Access} (hsplit : clearAccesses cfg n integrated = pre ++ post) :
    (run cfg s pre).errors = s.errors := by
  have hall := masks_clearAccesses cfg n integrated
  rw [hsplit] at hall
  cases pre with
  | nil => rfl
  | cons a pre =>
      have ha : a = .write .lvterr (setMask cfg.errorApicVector) := by
        rw [clearAccesses, if_pos h3] at hsplit
        exact (List.cons.inj hsplit).1.symm
      subst ha
      obtain ⟨herrors, herr⟩ := exec_first hs
      have hpre := (List.forall_mem_cons.1 (List.forall_mem_append.1 hall).1).2
      exact (run_keepsErr (fun a ha => (hpre a ha).keepsErr) herr).1.trans herrors

/-- **The local APIC is cleared without a sound**: at no time, after any of the accesses, an entry
is unmasked that was masked before, or an error interrupt is sent; and in the end all entries are
masked that there are. -/
theorem clearLocalApic_quiet (hs : Answers cfg s.apicbase)
    (hmapped : ¬(cfg.x2apicMode = false ∧ cfg.apicPhys = 0)) (h3 : 3 ≤ lapicGetMaxlvt cfg s) :
    (∀ pre post, clearAccesses cfg (lapicGetMaxlvt cfg s) (lapicIsIntegrated cfg s) = pre ++ post →
      (run cfg s pre).errors = s.errors ∧
        ∀ r, r.isLvt = true → masked (s.regs r) = true → masked ((run cfg s pre).regs r) = true) ∧
    ∀ r, Cleared cfg (lapicGetMaxlvt cfg s) r → masked ((clearLocalApic cfg s).regs r) = true := by
  have hall := masks_clearAccesses cfg (lapicGetMaxlvt cfg s) (lapicIsIntegrated cfg s)
  constructor
  · intro pre post hsplit
    rw [hsplit] at hall
    exact ⟨errors_clearAccesses hs h3 hsplit, fun r hr hmask =>
      masked_run (List.forall_mem_append.1 hall).1 hr hmask⟩
  · intro r hr
    obtain ⟨hlvt, a, ha, hmask⟩ := exists_access_of_cleared (lapicIsIntegrated cfg s) hr
    rw [clearLocalApic, if_neg hmapped]
    exact masked_run_of_mem hs hall hlvt ha hmask

end Clear

theorem clearLocalApic_quiet_example :
    (∀ pre post, clearAccesses exampleConfig (lapicGetMaxlvt exampleConfig exampleApic)
        (lapicIsIntegrated exampleConfig exampleApic) = pre ++ post →
      (run exampleConfig exampleApic pre).errors = exampleApic.errors ∧
        ∀ r, r.isLvt = true → masked (exampleApic.regs r) = true →
          masked ((run exampleConfig exampleApic pre).regs r) = true) ∧
    ∀ r, Cleared exampleConfig (lapicGetMaxlvt exampleConfig exampleApic) r →
      masked ((clearLocalApic exampleConfig exampleApic).regs r) = true :=
  clearLocalApic_quiet answers_exampleApic (by decide) (by decide)

/-! ### Error interrupts -/

section Errors

variable {cfg : Config} {pm : ApicPmState} {s s' : Apic}

theorem errors_apicSoftDisable (hs : Answers cfg s.apicbase) (h3 : 3 ≤ lapicGetMaxlvt cfg s) :
    (apicSoftDisable cfg s).errors = s.errors := by
  have hspiv : (apicSoftDisable cfg s).errors = (clearLocalApic cfg s).errors :=
    errors_apicWrite fun h => by cases h
  rw [hspiv, clearLocalApic]
  split
  · rfl
  · exact errors_clearAccesses hs h3 (List.append_nil _).symm

theorem errors_lapicSuspend (hs : Answers cfg s.apicbase) (h3 : 3 ≤ lapicGetMaxlvt cfg s) :
    (lapicSuspend cfg pm s).2.errors = s.errors := by
  rw [lapicSuspend]
  split
  · rfl
  · show (disableLocalApic cfg s).errors = s.errors
    rw [disableLocalApic]
    split
    · rfl
    · exact errors_apicSoftDisable hs h3

theorem errors_setApicbase (hw : Hw) (s : Apic) (base : BitVec 64) :
    (hw.setApicbase s base).errors = s.errors := by
  rw [Hw.setApicbase]
  split
  · rfl
  · rfl

theorem switchOn_eq_ok (h : switchOn cfg s = .ok s') :
    s' = s ∨ ∃ base, s' = cfg.hw.setApicbase s base := by
  have hmap : ∀ r : Except Stop (BitVec 64), r.map (cfg.hw.setApicbase s) = .ok s' →
      ∃ base, s' = cfg.hw.setApicbase s base := by
    intro r hr
    cases r with
    | error e => cases hr
    | ok base => exact ⟨base, (Except.ok.inj hr).symm⟩
  rw [switchOn] at h
  split at h
  · exact .inr (hmap _ h)
  · split at h
    · exact .inr (hmap _ h)
    · exact .inl (Except.ok.inj h).symm

theorem errors_switchOn (h : switchOn cfg s = .ok s') : s'.errors = s.errors := by
  rcases switchOn_eq_ok h with rfl | ⟨base, rfl⟩
  · rfl
  · exact errors_setApicbase _ _ _

theorem keepsErr_restoreAccesses (pm : ApicPmState) (n : ℕ) :
    ∀ a ∈ restoreAccesses cfg pm n, KeepsErr cfg a := by
  intro a ha
  simp only [restoreAccesses, List.mem_append, List.mem_ite_nil_right, List.mem_cons,
    List.not_mem_nil, or_false, or_assoc] at ha
  rcases ha with rfl | rfl | rfl | rfl | rfl | rfl | rfl | ⟨-, rfl⟩ | ⟨-, rfl⟩ | ⟨-, rfl⟩ | rfl |
    rfl | rfl
  all_goals exact keepsErr_write (by decide)

/-- The last writes: the entry for errors is masked when it is written to. -/
theorem errors_run_last (h : masked (s.regs .lvterr) = true) (v : BitVec 32) :
    (run cfg s [.write .esr 0, .read .esr, .write .lvterr v, .write .esr 0, .read .esr]).errors =
      s.errors := by
  have hesr : ∀ s : Apic, (apicWrite cfg s .esr 0).errors = s.errors := fun s =>
    errors_apicWrite fun h => by cases h
  have hmask : masked ((apicWrite cfg s .esr 0).regs .lvterr) = true :=
    masked_apicWrite rfl h fun h => by cases h
  have hlast : (apicWrite cfg (apicWrite cfg s .esr 0) .lvterr v).errors =
      (apicWrite cfg s .esr 0).errors := errors_apicWrite fun _ => .inr hmask
  exact (hesr _).trans (hlast.trans (hesr s))

/-- The entry for errors is masked by the first write, and stays so up to the last one to it. -/
theorem errors_resumeAccesses (cfg : Config) (pm : ApicPmState) (n : ℕ) (s : Apic) :
    (run cfg s (resumeAccesses cfg pm n)).errors = s.errors := by
  by_cases hs : Answers cfg s.apicbase
  · obtain ⟨herrors, herr⟩ := exec_first hs
    obtain ⟨herrors', herr'⟩ := run_keepsErr (keepsErr_restoreAccesses pm n) herr
    rw [resumeAccesses, run_cons, run_append, errors_run_last herr', herrors', herrors]
  · rw [run_of_not_answers hs]

/-- **No error interrupt is sent while the APIC is suspended and resumed**, whatever the saved
entries are and whatever the firmware leaves in the registers. -/
theorem errors_unchanged (hs : Answers cfg s.apicbase) (h3 : 3 ≤ lapicGetMaxlvt cfg s) :
    (lapicSuspend cfg pm s).2.errors = s.errors ∧
      ∀ wake wake', lapicResume cfg (lapicSuspend cfg pm s).1 wake = .ok wake' →
        wake'.errors = wake.errors := by
  refine ⟨errors_lapicSuspend hs h3, fun wake wake' h => ?_⟩
  rw [lapicResume] at h
  split at h
  · exact Except.ok.inj h ▸ rfl
  · cases hon : switchOn cfg wake with
    | error e =>
        rw [hon] at h
        cases h
    | ok s' =>
        rw [hon] at h
        obtain rfl := Except.ok.inj h
        exact (errors_resumeAccesses ..).trans (errors_switchOn hon)

end Errors

theorem errors_unchanged_example :
    (lapicSuspend exampleConfig examplePm exampleApic).2.errors = exampleApic.errors ∧
      ∀ wake wake', lapicResume exampleConfig
          (lapicSuspend exampleConfig examplePm exampleApic).1 wake = .ok wake' →
        wake'.errors = wake.errors :=
  errors_unchanged answers_exampleApic (by decide)

/-! ### The saved registers -/

/-- The software's part of a register is the same in two states. -/
def SameConfig (hw : Hw) (s₀ s : Apic) (r : Reg) : Prop :=
  s.regs r &&& hw.writable r = s₀.regs r &&& hw.writable r

/-- The registers that are saved and written back. -/
def Saved (cfg : Config) (maxlvt : ℕ) : Reg → Prop
  | .id | .dfr | .ldr => cfg.x2apicMode = false
  | .taskpri | .spiv | .lvt0 | .lvt1 | .lvtt | .tdcr | .tmict | .lvterr => True
  | .lvtthmr => cfg.thermalVector = true ∧ 5 ≤ maxlvt
  | .lvtcmci => cfg.mceIntel = true ∧ 6 ≤ maxlvt
  | .lvtpc => 4 ≤ maxlvt
  | .lvr | .esr => False

/-- The order in which they are written back, without the last one. -/
def restoreOrder (thmr cmci pc : Bool) : List Reg :=
  [.id, .dfr, .ldr, .taskpri, .spiv, .lvt0, .lvt1] ++ (if thmr then [.lvtthmr] else []) ++
    (if cmci then [.lvtcmci] else []) ++ (if pc then [.lvtpc] else []) ++ [.lvtt, .tdcr, .tmict]

/-- Registers can be written back in this order when those of a list are: an entry of the vector
table only after the register that enables the APIC, and the initial count only after the entry that
sets the mode of the timer. -/
def InTurn : List Reg → List Reg → Prop
  | _, [] => True
  | done, r :: rs => r ≠ .lvr ∧ (r = .spiv → ∀ d ∈ done, d.isLvt = false) ∧
      (r.isLvt = true → .spiv ∈ done) ∧ (r = .tmict → .lvtt ∈ done) ∧ InTurn (r :: done) rs

section Restore

variable {cfg : Config} {pm : ApicPmState} {s₀ s s' : Apic} {done : List Reg} {r : Reg}

theorem inTurn_restoreOrder (thmr cmci pc : Bool) : InTurn [] (restoreOrder thmr cmci pc) := by
  cases thmr <;> cases cmci <;> cases pc <;> simp [restoreOrder, InTurn, Reg.isLvt]

theorem apicRead_of_not_dropped (hs : Answers cfg s.apicbase) (hr : ¬Dropped cfg r)
    (hlvr : r ≠ .lvr) : apicRead cfg s r = s.regs r := by
  rw [apicRead, if_neg fun h => hr ⟨h.1, .inl h.2⟩, if_pos hs, Hw.read, if_neg hlvr]

/-- What a register holds when it is written back. -/
theorem and_writable (v w old : BitVec 32) :
    (old &&& ~~~w ||| v &&& w) &&& w = v &&& w := by
  ext i hi
  simp only [BitVec.getElem_and, BitVec.getElem_or, BitVec.getElem_not]
  cases w[i] <;> simp

theorem or_lvtMasked_of_masked {v : BitVec 32} (h : masked v = true) : v ||| lvtMasked = v := by
  ext i hi
  rw [masked] at h
  by_cases h16 : i = 16
  · subst h16
    simp [lvtMasked, ← BitVec.getLsbD_eq_getElem, h]
  · simp [lvtMasked, ← BitVec.getLsbD_eq_getElem, BitVec.getLsbD_twoPow, Ne.symm h16]

/-- **The registers written back so far are as before**, if they are used. -/
structure Done (cfg : Config) (s₀ s : Apic) (done : List Reg) : Prop where
  answers : Answers cfg s.apicbase
  same : ∀ r ∈ done, ¬Dropped cfg r → ¬cfg.hw.Ignored s₀ r → SameConfig cfg.hw s₀ s r

theorem SameConfig.enabled {hw : Hw} (h : SameConfig hw s₀ s .spiv) :
    enabled (s.regs .spiv) = enabled (s₀.regs .spiv) := by
  have hbit := congrArg LapicPm.enabled h
  have hw8 := hw.writable_enabled
  simp only [LapicPm.enabled, BitVec.getLsbD_and] at hbit hw8 ⊢
  rwa [hw8, Bool.and_true, Bool.and_true] at hbit

theorem SameConfig.timerMode {hw : Hw} (h : SameConfig hw s₀ s .lvtt) :
    hw.timerMode s = hw.timerMode s₀ := congrArg LapicPm.timerMode h

/-- A write to another register, which does not disable entries that are restored. -/
theorem Done.keep (h : Done cfg s₀ s done) (hr : r ∉ done)
    (hspiv : r = .spiv → ∀ d ∈ done, d.isLvt = false) (v : BitVec 32) :
    Done cfg s₀ (apicWrite cfg s r v) done where
  answers := by
    rw [apicbase_apicWrite]
    exact h.answers
  same d hd hdropped hused := by
    have hne : d ≠ r := fun heq => hr (heq ▸ hd)
    have hlvt : d.isLvt = true → r ≠ .spiv := by
      intro hlvt hr
      rw [hspiv hr d hd] at hlvt
      cases hlvt
    rw [SameConfig, regs_apicWrite_of_ne v hne hlvt]
    exact h.same d hd hdropped hused

/-- A register of the vector table is written to the APIC, and its write is not ignored. -/
theorem not_dropped_of_isLvt (cfg : Config) (s : Apic) (hr : r = .spiv ∨ r.isLvt = true) :
    ¬Dropped cfg r ∧ ¬cfg.hw.Ignored s r := by
  constructor
  · rintro ⟨-, rfl | rfl | rfl | rfl⟩ <;> simp [Reg.isLvt] at hr
  · rintro ⟨rfl, -⟩
    simp [Reg.isLvt] at hr

/-- **A register is restored**: an entry of the vector table because the register that enables the
APIC is, or because it was masked when the APIC was disabled; the initial count because the mode of
the timer is. -/
theorem Done.restore (h : Done cfg s₀ s done) (hs₀ : Answers cfg s₀.apicbase) (hlvr : r ≠ .lvr)
    (hspiv : r = .spiv → ∀ d ∈ done, d.isLvt = false) (hlvt : r.isLvt = true → .spiv ∈ done)
    (htmict : r = .tmict → .lvtt ∈ done) :
    Done cfg s₀ (apicWrite cfg s r (apicRead cfg s₀ r)) (r :: done) where
  answers := by
    rw [apicbase_apicWrite]
    exact h.answers
  same d hd hdropped hused := by
    by_cases hdr : d = r
    · subst hdr
      have hused' : ¬cfg.hw.Ignored s d := by
        rintro ⟨htm, hmode⟩
        have hkept := not_dropped_of_isLvt (r := .lvtt) cfg s₀ (.inr rfl)
        exact hused ⟨htm, (h.same .lvtt (htmict htm) hkept.1 hkept.2).timerMode.symm.trans hmode⟩
      rw [apicRead_of_not_dropped hs₀ hdropped hlvr, apicWrite_of_answers h.answers hdropped]
      show cfg.hw.after s d (s₀.regs d) d &&& cfg.hw.writable d = _
      rw [Hw.after, if_pos rfl, Hw.stored_of_not_ignored hused']
      split
      · next hforced =>
          obtain ⟨hd', hoff⟩ := hforced
          have hkept := not_dropped_of_isLvt (r := .spiv) cfg s₀ (.inl rfl)
          have hspivDone : SameConfig cfg.hw s₀ s .spiv :=
            h.same .spiv (hlvt hd') hkept.1 hkept.2
          have hmask : masked (s₀.regs d) = true :=
            s₀.gated (by rw [← hspivDone.enabled, hoff]) d hd'
          have hw16 := cfg.hw.writable_masked d hd'
          rw [masked] at hmask hw16
          rw [or_lvtMasked_of_masked (by simp [masked, hmask, hw16]), and_writable]
      · exact and_writable _ _ _
    · have hd' : d ∈ done := (List.mem_cons.1 hd).resolve_left hdr
      have hlvt : d.isLvt = true → r ≠ .spiv := by
        intro hlvt hr
        rw [hspiv hr d hd'] at hlvt
        cases hlvt
      rw [SameConfig, regs_apicWrite_of_ne _ hdr hlvt]
      exact h.same d hd' hdropped hused

/-- **All registers of a list are restored**, if they are written in turn. -/
theorem Done.run {rs : List Reg} (h : Done cfg s₀ s done) (hs₀ : Answers cfg s₀.apicbase)
    (hturn : InTurn done rs) :
    Done cfg s₀ (run cfg s (rs.map fun r => .write r (apicRead cfg s₀ r)))
      (rs.reverse ++ done) := by
  induction rs generalizing s done with
  | nil => exact h
  | cons r rs ih =>
      obtain ⟨hlvr, hspiv, hlvt, htmict, hrest⟩ := hturn
      rw [List.map_cons, run_cons, List.reverse_cons, List.append_assoc]
      exact ih (h.restore hs₀ hlvr hspiv hlvt htmict) hrest

/-- What is written back is what was read. -/
theorem restoreAccesses_lapicSuspend (hactive : pm.active = true) :
    restoreAccesses cfg (lapicSuspend cfg pm s).1 (lapicGetMaxlvt cfg s) =
      (restoreOrder (cfg.thermalVector ∧ 5 ≤ lapicGetMaxlvt cfg s)
        (cfg.mceIntel ∧ 6 ≤ lapicGetMaxlvt cfg s) (4 ≤ lapicGetMaxlvt cfg s)).map
          fun r => .write r (apicRead cfg s r) := by
  rw [restoreAccesses, restoreOrder, lapicSuspend, hactive]
  by_cases h5 : cfg.thermalVector = true ∧ 5 ≤ lapicGetMaxlvt cfg s <;>
    by_cases h6 : cfg.mceIntel = true ∧ 6 ≤ lapicGetMaxlvt cfg s <;>
      by_cases h4 : 4 ≤ lapicGetMaxlvt cfg s <;> simp [h5, h6, h4]

theorem Saved.mem {n : ℕ} (h : Saved cfg n r) :
    ¬Dropped cfg r ∧ (r = .lvterr ∨ r ∈ restoreOrder (cfg.thermalVector ∧ 5 ≤ n)
      (cfg.mceIntel ∧ 6 ≤ n) (4 ≤ n)) := by
  have hxapic : cfg.x2apicMode = false → ∀ r, ¬Dropped cfg r := by
    rintro hfalse r ⟨htrue, -⟩
    rw [hfalse] at htrue
    cases htrue
  have hother : ∀ r, r ≠ .dfr → r ≠ .id → r ≠ .ldr → r ≠ .lvr → ¬Dropped cfg r := by
    rintro r hdfr hid hldr hlvr ⟨-, hr⟩
    simp [hdfr, hid, hldr, hlvr] at hr
  cases r with
  | id => exact ⟨hxapic h _, .inr (by simp [restoreOrder])⟩
  | dfr => exact ⟨hxapic h _, .inr (by simp [restoreOrder])⟩
  | ldr => exact ⟨hxapic h _, .inr (by simp [restoreOrder])⟩
  | lvterr => exact ⟨hother _ nofun nofun nofun nofun, .inl rfl⟩
  | lvtthmr =>
      obtain ⟨hconfig, hn⟩ : cfg.thermalVector = true ∧ 5 ≤ n := h
      exact ⟨hother _ nofun nofun nofun nofun, .inr (by simp [restoreOrder, hconfig, hn])⟩
  | lvtcmci =>
      obtain ⟨hconfig, hn⟩ : cfg.mceIntel = true ∧ 6 ≤ n := h
      exact ⟨hother _ nofun nofun nofun nofun, .inr (by simp [restoreOrder, hconfig, hn])⟩
  | lvtpc =>
      have hn : 4 ≤ n := h
      exact ⟨hother _ nofun nofun nofun nofun, .inr (by simp [restoreOrder, hn])⟩
  | lvr => cases h
  | esr => cases h
  | _ => exact ⟨hother _ nofun nofun nofun nofun, .inr (by simp [restoreOrder])⟩

/-- **The accesses of `lapic_resume` restore every saved register that is used**, whatever the
registers were. -/
theorem same_resumeAccesses (hactive : pm.active = true) (hs₀ : Answers cfg s₀.apicbase)
    (hs : Answers cfg s.apicbase) (hr : Saved cfg (lapicGetMaxlvt cfg s₀) r)
    (hused : ¬cfg.hw.Ignored s₀ r) :
    SameConfig cfg.hw s₀ (LapicPm.run cfg s (resumeAccesses cfg (lapicSuspend cfg pm s₀).1
      (lapicGetMaxlvt cfg s₀))) r := by
  obtain ⟨hdropped, hmem⟩ := hr.mem
  have hesr : ∀ thmr cmci pc, .esr ∉ restoreOrder thmr cmci pc := by decide
  have hspiv : ∀ thmr cmci pc, .spiv ∈ restoreOrder thmr cmci pc := by decide
  have hlvterr : (lapicSuspend cfg pm s₀).1.apicLvterr = apicRead cfg s₀ .lvterr := by
    rw [lapicSuspend, hactive]
    rfl
  -- nothing is restored yet
  have hstart : Done cfg s₀ s [] := ⟨hs, fun _ h => absurd h List.not_mem_nil⟩
  have hfirst := hstart.keep (r := .lvterr) List.not_mem_nil nofun (setMask cfg.errorApicVector)
  have horder := hfirst.run hs₀ (inTurn_restoreOrder (cfg.thermalVector ∧ 5 ≤ lapicGetMaxlvt cfg s₀)
    (cfg.mceIntel ∧ 6 ≤ lapicGetMaxlvt cfg s₀) (4 ≤ lapicGetMaxlvt cfg s₀))
  rw [← restoreAccesses_lapicSuspend hactive, List.append_nil] at horder
  -- the entry for errors, between the writes to `esr`
  have hlast := ((horder.keep (r := .esr) (by simp [hesr]) nofun 0).restore hs₀ (r := .lvterr) nofun
    nofun (fun _ => by simp [hspiv]) nofun).keep (r := .esr) (by simp [hesr]) nofun 0
  rw [resumeAccesses, run_cons, run_append, hlvterr]
  exact hlast.same r (by simpa using hmem) hdropped hused

end Restore

/-! ### Reaching the APIC -/

/-- **How the firmware has to leave `MSR_IA32_APICBASE`**: in x2APIC mode the APIC must not be
disabled; in xAPIC mode it must not be in x2APIC mode, and the part of the address that
`lapic_resume` does not write has to be zero. -/
def Reaches (cfg : Config) (base : BitVec 64) : Prop :=
  if cfg.x2apicMode = true then InUse (mode base)
  else cfg.hasApicbase = true →
    base.getLsbD 10 = false ∧ ∀ i, 32 ≤ i → i < 52 → base.getLsbD i = false

section Reach

variable {cfg : Config} {pm : ApicPmState} {s s' : Apic} {base : BitVec 64}

theorem getLsbD_addressMask {i : ℕ} (hi : i < 64) :
    addressMask.getLsbD i = decide (12 ≤ i ∧ i < 52) := by
  have hall : ∀ i < 64, addressMask.getLsbD i = decide (12 ≤ i ∧ i < 52) := by decide
  exact hall i hi

/-- The registers are mapped at a page below 4 GiB. -/
theorem getLsbD_mpLapicAddr (cfg : Config) {i : ℕ} (hi : i < 12 ∨ 32 ≤ i) :
    cfg.mpLapicAddr.getLsbD i = false := by
  have hmask : ∀ i < 64, i < 12 ∨ 32 ≤ i → (0xfffff000 : BitVec 64).getLsbD i = false := by decide
  by_cases h64 : i < 64
  · rw [← cfg.mpLapicAddr_page, BitVec.getLsbD_and, hmask i h64 hi, Bool.and_false]
  · exact BitVec.getLsbD_of_ge _ _ (Nat.not_lt.1 h64)

/-- The upper half of the register stays, and in the lower half the bits below the address do. -/
theorem getLsbD_fixApicbase (cfg : Config) (base : BitVec 64) {i : ℕ} (hi : i < 64) :
    (fixApicbase cfg base).getLsbD i =
      if i < 32 then
        (base.getLsbD i && decide (i < 12)) || (decide (i = 11) || cfg.mpLapicAddr.getLsbD i)
      else base.getLsbD i := by
  have hmask : ∀ i < 32, (~~~0xfffff000#32).getLsbD i = decide (i < 12) := by decide
  rw [fixApicbase, BitVec.getLsbD_append]
  by_cases h32 : i < 32
  · rw [if_pos h32, if_pos h32]
    simp only [BitVec.getLsbD_or, BitVec.getLsbD_and, BitVec.getLsbD_setWidth, h32, hmask i h32,
      xapicEnableBit, BitVec.getLsbD_twoPow, decide_true, Bool.true_and]
    rw [Bool.and_comm (decide (11 < 64))]
    simp [eq_comm]
  · rw [if_neg h32, if_neg h32, BitVec.getLsbD_setWidth, BitVec.getLsbD_ushiftRight,
      decide_eq_true (by omega : i - 32 < 32), Bool.true_and, Nat.add_sub_cancel' (by omega)]

/-- The register is always in a mode in which the APIC is enabled. -/
theorem mode_fixApicbase (cfg : Config) (base : BitVec 64) :
    mode (fixApicbase cfg base) = if base.getLsbD 10 = true then .x2apic else .xapic := by
  have h11 : (fixApicbase cfg base).getLsbD 11 = true := by
    rw [getLsbD_fixApicbase cfg base (by decide), if_pos (by decide), decide_eq_true rfl,
      Bool.true_or, Bool.or_true]
  have h10 : (fixApicbase cfg base).getLsbD 10 = base.getLsbD 10 := by
    rw [getLsbD_fixApicbase cfg base (by decide), if_pos (by decide),
      getLsbD_mpLapicAddr cfg (.inl (by decide)), decide_eq_true (by decide), Bool.and_true,
      decide_eq_false (by decide), Bool.or_self, Bool.or_false]
  rw [mode, h11, h10]
  cases base.getLsbD 10 <;> rfl

/-- `lapic_resume` never asks for a mode that the hardware does not allow. -/
theorem wrmsrl_fixApicbase (cfg : Config) (base : BitVec 64) :
    wrmsrl base (fixApicbase cfg base) = .ok (fixApicbase cfg base) := by
  rw [wrmsrl, mode_fixApicbase, mode]
  cases base.getLsbD 11 <;> cases base.getLsbD 10 <;> rfl

theorem and_addressMask_fixApicbase_iff (cfg : Config) (base : BitVec 64) :
    fixApicbase cfg base &&& addressMask = cfg.mpLapicAddr ↔
      ∀ i, 32 ≤ i → i < 52 → base.getLsbD i = false := by
  constructor
  · intro h i h32 h52
    have hbit := congrArg (BitVec.getLsbD · i) h
    simp only [BitVec.getLsbD_and] at hbit
    rw [getLsbD_fixApicbase cfg base (by omega), if_neg (by omega), getLsbD_addressMask (by omega),
      decide_eq_true ⟨by omega, h52⟩, Bool.and_true, getLsbD_mpLapicAddr cfg (.inr h32)] at hbit
    exact hbit
  · intro h
    refine BitVec.eq_of_getLsbD_eq fun i hi => ?_
    rw [BitVec.getLsbD_and, getLsbD_fixApicbase cfg base hi, getLsbD_addressMask hi]
    by_cases h12 : i < 12
    · have hout : decide (12 ≤ i ∧ i < 52) = false := decide_eq_false (by omega)
      rw [hout, Bool.and_false, getLsbD_mpLapicAddr cfg (.inl h12)]
    · by_cases h32 : i < 32
      · have h11 : i ≠ 11 := by omega
        have h52 : i < 52 := by omega
        simp [h12, h32, h11, h52, Nat.le_of_not_lt h12]
      · rw [if_neg h32, getLsbD_mpLapicAddr cfg (.inr (by omega))]
        by_cases h52 : i < 52
        · rw [h i (by omega) h52, Bool.false_and]
        · simp [h52]

theorem apicbase_setApicbase (hw : Hw) (s : Apic) (base : BitVec 64) :
    (hw.setApicbase s base).apicbase = base := by
  rw [Hw.setApicbase]
  split
  · rfl
  · rfl

theorem exists_switchOn (h : Reaches cfg s.apicbase) :
    ∃ s', switchOn cfg s = .ok s' ∧ Answers cfg s'.apicbase := by
  rw [Reaches] at h
  by_cases hx : cfg.x2apicMode = true
  · rw [if_pos hx] at h
    obtain ⟨v, hv, heq⟩ := exists_x2apicEnableMsr h
    refine ⟨cfg.hw.setApicbase s v, by rw [switchOn, if_pos hx, heq]; rfl, ?_⟩
    rwa [Answers, if_pos hx, apicbase_setApicbase]
  · rw [if_neg hx] at h
    by_cases hmsr : cfg.hasApicbase = true
    · obtain ⟨h10, haddr⟩ := h hmsr
      refine ⟨cfg.hw.setApicbase s (fixApicbase cfg s.apicbase),
        by rw [switchOn, if_neg hx, if_pos hmsr, wrmsrl_fixApicbase]; rfl, ?_⟩
      rw [Answers, if_neg hx, apicbase_setApicbase, mode_fixApicbase, h10]
      exact fun _ => ⟨rfl, (and_addressMask_fixApicbase_iff _ _).2 haddr⟩
    · refine ⟨s, by rw [switchOn, if_neg hx, if_neg hmsr], ?_⟩
      rw [Answers, if_neg hx]
      exact fun h => absurd h hmsr

/-- Where the APIC answers in the end, the firmware has left it so that it can be reached. -/
theorem reaches_of_switchOn (h : switchOn cfg s = .ok s') (hs' : Answers cfg s'.apicbase) :
    Reaches cfg s.apicbase := by
  rw [Reaches]
  rw [Answers] at hs'
  rw [switchOn] at h
  by_cases hx : cfg.x2apicMode = true
  · rw [if_pos hx] at h hs' ⊢
    cases hv : x2apicEnableMsr s.apicbase with
    | error e =>
        rw [hv] at h
        cases h
    | ok v =>
        rw [hv] at h
        obtain rfl := Except.ok.inj h
        rw [apicbase_setApicbase] at hs'
        exact inUse_of_x2apicEnableMsr hv hs'
  · rw [if_neg hx] at h hs' ⊢
    intro hmsr
    rw [if_pos hmsr, wrmsrl_fixApicbase] at h
    obtain rfl := Except.ok.inj h
    rw [apicbase_setApicbase, mode_fixApicbase, and_addressMask_fixApicbase_iff] at hs'
    refine ⟨?_, (hs' hmsr).2⟩
    have hmode := (hs' hmsr).1
    cases h10 : s.apicbase.getLsbD 10 with
    | false => rfl
    | true =>
        rw [h10] at hmode
        cases hmode

/-- A register that the kernel does not reach: one that is disabled stays so. -/
theorem enabled_switchOn (h : switchOn cfg s = .ok s') (hoff : enabled (s.regs .spiv) = false) :
    enabled (s'.regs .spiv) = false := by
  rcases switchOn_eq_ok h with rfl | ⟨base, rfl⟩
  · exact hoff
  · rw [Hw.setApicbase]
    split
    · exact cfg.hw.reset_disabled
    · exact hoff

theorem lapicGetMaxlvt_eq (hs : Answers cfg s.apicbase) (hs' : Answers cfg s'.apicbase) :
    lapicGetMaxlvt cfg s = lapicGetMaxlvt cfg s' := by
  have hread : ∀ s : Apic, Answers cfg s.apicbase → apicRead cfg s .lvr = cfg.hw.version := by
    intro s hs
    rw [apicRead, if_neg (by simp), if_pos hs, Hw.read, if_pos rfl]
  rw [lapicGetMaxlvt, lapicGetMaxlvt, lapicIsIntegrated, lapicIsIntegrated, hread s hs,
    hread s' hs']

/-- An APIC that starts anew. -/
def Hw.anew (hw : Hw) (base : BitVec 64) : Apic where
  apicbase := base
  regs := hw.reset
  errors := 0
  gated := fun _ => hw.reset_masked

theorem lapicResume_error (hactive : pm.active = true) {e : Stop} (h : switchOn cfg s = .error e) :
    lapicResume cfg pm s = .error e := by
  rw [lapicResume, hactive, h]
  rfl

theorem lapicResume_ok (hactive : pm.active = true) (h : switchOn cfg s = .ok s') :
    lapicResume cfg pm s = .ok (run cfg s' (resumeAccesses cfg pm (lapicGetMaxlvt cfg s'))) := by
  rw [lapicResume, hactive, h]
  rfl

theorem active_lapicSuspend (cfg : Config) (s : Apic) (hactive : pm.active = true) :
    (lapicSuspend cfg pm s).1.active = true := by
  rw [lapicSuspend, hactive]
  rfl

/-- **Resuming restores the registers, whatever they were when the machine woke, exactly if the
firmware has left the APIC so that the kernel reaches it.**  Where it has not, as when it has
switched the APIC to x2APIC mode and the kernel uses xAPIC mode, the writes are lost or fault.  The
initial count of the timer is restored if it is used: in the mode for deadlines the write to it is
ignored. -/
theorem restores_iff (hactive : pm.active = true) (hs : Answers cfg s.apicbase)
    (hon : enabled (s.regs .spiv) = true) (base : BitVec 64) :
    (∀ wake : Apic, wake.apicbase = base →
      ∃ wake', lapicResume cfg (lapicSuspend cfg pm s).1 wake = .ok wake' ∧
        ∀ r, Saved cfg (lapicGetMaxlvt cfg s) r → ¬cfg.hw.Ignored s r →
          SameConfig cfg.hw s wake' r) ↔
      Reaches cfg base := by
  have hactive' := active_lapicSuspend cfg s hactive
  constructor
  · intro hall
    -- an APIC that starts anew has to be enabled
    obtain ⟨wake', hresume, hsame⟩ := hall (cfg.hw.anew base) rfl
    cases hswitch : switchOn cfg (cfg.hw.anew base) with
    | error e =>
        rw [lapicResume_error hactive' hswitch] at hresume
        cases hresume
    | ok s' =>
        show Reaches cfg (cfg.hw.anew base).apicbase
        refine reaches_of_switchOn hswitch ?_
        by_contra hlost
        rw [lapicResume_ok hactive' hswitch, run_of_not_answers hlost] at hresume
        have hspiv := (hsame .spiv trivial nofun).enabled
        rw [← Except.ok.inj hresume, enabled_switchOn hswitch cfg.hw.reset_disabled, hon] at hspiv
        cases hspiv
  · intro hreach wake hbase
    subst hbase
    obtain ⟨s', hswitch, hs'⟩ := exists_switchOn hreach
    refine ⟨_, lapicResume_ok hactive' hswitch, fun r hr hused => ?_⟩
    rw [← lapicGetMaxlvt_eq hs hs']
    exact same_resumeAccesses hactive hs hs' hr hused

end Reach

theorem restores_iff_example :
    (∀ wake : Apic, wake.apicbase = 0xfee00c00 →
      ∃ wake', lapicResume exampleConfig
          (lapicSuspend exampleConfig examplePm exampleApic).1 wake = .ok wake' ∧
        ∀ r, Saved exampleConfig (lapicGetMaxlvt exampleConfig exampleApic) r →
          ¬exampleHw.Ignored exampleApic r → SameConfig exampleHw exampleApic wake' r) ↔
      Reaches exampleConfig 0xfee00c00 :=
  restores_iff rfl answers_exampleApic (by decide) 0xfee00c00

end LapicPm

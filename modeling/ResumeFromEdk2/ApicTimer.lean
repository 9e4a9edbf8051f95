/-
**The timer of the local APIC.**

The timer counts down in its register, or waits for a deadline of the time stamp counter, and then
sends an interrupt unless its entry of the vector table is masked.  The clock event framework calls
the functions of the timer in any order; between two of their accesses time goes on, and an
interrupt that was sent is taken as soon as the CPU allows it.  A CPU may also be sent the vector of
its timer by another one, whatever its own entry says.  An interrupt for which no handler is
installed is taken for one that a previous kernel has left, and the timer is switched off.

The registers are those of the local APIC, seen from the timer.  Every write to the APIC is for the
timer one of its own accesses.

Main definitions:

* `LapicTimer.Timer` — the registers of the timer, and what an access and the time do to them;
* `LapicTimer.Call` — the functions; `LapicTimer.localApicTimerInterrupt` — the interrupt;
* `LapicTimer.step` — the system.

Main results:

* `LapicTimer.Shows.write` — the timer sees the writes to the local APIC;
* `LapicTimer.interrupts_after_shutdown` — **after `lapic_timer_shutdown` at most one interrupt is
  taken** that is not a broadcast, until the timer is set up again;
* `LapicTimer.spurious_le_two_iff` — **without a handler at most two such interrupts are taken,
  exactly if the device is not a dummy**;
* `LapicTimer.stopped_iff` — **shutting down stops the timer exactly if no deadline is armed**;
* `LapicTimer.interrupts_le_events` — in one-shot mode every event that is programmed causes at most
  one interrupt.
-/

import ResumeFromEdk2.ApicSuspend

set_option relaxedAutoImplicit false
set_option autoImplicit false

namespace LapicTimer

open StepSystem LapicPm

/-! ### The hardware -/

/-- **The registers of the timer.**  Only a timer that waits for a deadline has one, and such a
timer does not count. -/
structure Timer where
  lvtt : BitVec 32
  tdcr : BitVec 32
  /-- The initial count. -/
  tmict : BitVec 32
  /-- The current count. -/
  tmcct : BitVec 32
  /-- `MSR_IA32_TSC_DEADLINE` -/
  tscDeadline : BitVec 64
  tsc : BitVec 64
  /-- The interrupt of the timer is pending. -/
  irr : Bool
  tmcct_eq : timerMode lvtt = .tscDeadline → tmcct = 0
  tscDeadline_eq : timerMode lvtt ≠ .tscDeadline → tscDeadline = 0

namespace Timer

variable (h : Timer)

/-- The counter is decremented.  At its end the interrupt is sent, and in periodic mode it starts
again. -/
def count : Timer :=
  if h0 : h.tmcct = 0 then h
  else
    { h with
      tmcct := if h.tmcct ≠ 1 then h.tmcct - 1
        else if timerMode h.lvtt = .periodic then h.tmict else 0
      irr := h.irr || decide (h.tmcct = 1 ∧ masked h.lvtt = false)
      tmcct_eq := fun hmode => absurd (h.tmcct_eq hmode) h0 }

/-- The deadline is reached when the time stamp counter advances. -/
def due : Prop := h.tscDeadline ≠ 0 ∧ h.tscDeadline ≤ h.tsc + 1

instance : Decidable h.due := inferInstanceAs (Decidable (_ ∧ _))

/-- The time stamp counter advances.  A deadline that is reached is cleared, and the interrupt is
sent. -/
def advance : Timer where
  lvtt := h.lvtt
  tdcr := h.tdcr
  tmict := h.tmict
  tmcct := h.tmcct
  tscDeadline := if h.due then 0 else h.tscDeadline
  tsc := h.tsc + 1
  irr := h.irr || decide (h.due ∧ masked h.lvtt = false)
  tmcct_eq := h.tmcct_eq
  tscDeadline_eq hmode := by
    split
    · rfl
    · exact h.tscDeadline_eq hmode

/-- A change of the mode disarms the timer. -/
def writeLvtt (v : BitVec 32) : Timer where
  lvtt := v
  tdcr := h.tdcr
  tmict := h.tmict
  tmcct := if timerMode v = timerMode h.lvtt then h.tmcct else 0
  tscDeadline := if timerMode v = timerMode h.lvtt then h.tscDeadline else 0
  tsc := h.tsc
  irr := h.irr
  tmcct_eq hmode := by
    split
    next heq => exact h.tmcct_eq (heq ▸ hmode)
    next => rfl
  tscDeadline_eq hmode := by
    split
    next heq => exact h.tscDeadline_eq (heq ▸ hmode)
    next => rfl

/-- The divider is set. -/
def writeTdcr (v : BitVec 32) : Timer := { h with tdcr := v }

/-- The counter starts, except in the mode for deadlines. -/
def writeTmict (v : BitVec 32) : Timer :=
  if hmode : timerMode h.lvtt = .tscDeadline then h
  else { h with tmict := v, tmcct := v, tmcct_eq := fun heq => absurd heq hmode }

/-- A deadline is accepted only in its mode; zero is none. -/
def wrmsrDeadline (v : BitVec 64) : Timer :=
  if hmode : timerMode h.lvtt = .tscDeadline then
    { h with tscDeadline := v, tscDeadline_eq := fun hne => absurd hmode hne }
  else h

/-- Nothing counts, and no deadline is waited for. -/
def Stopped : Prop := h.tmcct = 0 ∧ h.tscDeadline = 0

end Timer

/-- **The registers are those of the local APIC**, without the bits that software does not set. -/
structure Shows (hw : Hw) (h : Timer) (s : Apic) : Prop where
  lvtt : h.lvtt = s.regs .lvtt &&& hw.writable .lvtt
  tdcr : h.tdcr = s.regs .tdcr &&& hw.writable .tdcr
  tmict : h.tmict = s.regs .tmict &&& hw.writable .tmict

section Shows

variable {hw : Hw} {h : Timer} {s : Apic}

theorem Shows.timerMode_eq (hs : Shows hw h s) : timerMode h.lvtt = hw.timerMode s := by
  rw [Hw.timerMode, hs.lvtt]

/-- A register outside of the vector table keeps its value at a write to another one. -/
theorem regs_write_of_ne (hw : Hw) (s : Apic) {r r' : Reg} (hr : r' ≠ r) (hlvt : r'.isLvt = false)
    (v : BitVec 32) : (hw.write s r v).regs r' = s.regs r' :=
  hw.after_of_ne s v hr fun h => by rw [hlvt] at h; cases h

/-- A register outside of the vector table takes what software sets in it. -/
theorem regs_write_self {r : Reg} (hused : ¬hw.Ignored s r) (hlvt : r.isLvt = false)
    (v : BitVec 32) : (hw.write s r v).regs r &&& hw.writable r = v &&& hw.writable r := by
  have hforced : ¬(r.isLvt = true ∧ enabled (s.regs .spiv) = false) := by
    rintro ⟨htrue, -⟩
    rw [hlvt] at htrue
    cases htrue
  show hw.after s r v r &&& _ = _
  rw [Hw.after, if_pos rfl, Hw.stored_of_not_ignored hused, if_neg hforced, and_writable]

theorem Shows.write_lvtt (hs : Shows hw h s) (v : BitVec 32) :
    Shows hw (h.writeLvtt ((hw.write s .lvtt v).regs .lvtt &&& hw.writable .lvtt))
      (hw.write s .lvtt v) where
  lvtt := rfl
  tdcr := by
    have hkeep : (hw.write s .lvtt v).regs .tdcr = s.regs .tdcr :=
      regs_write_of_ne hw s (by decide) rfl v
    rw [hkeep]
    exact hs.tdcr
  tmict := by
    have hkeep : (hw.write s .lvtt v).regs .tmict = s.regs .tmict :=
      regs_write_of_ne hw s (by decide) rfl v
    rw [hkeep]
    exact hs.tmict

theorem Shows.write_tdcr (hs : Shows hw h s) (v : BitVec 32) :
    Shows hw (h.writeTdcr (v &&& hw.writable .tdcr)) (hw.write s .tdcr v) where
  lvtt := hs.lvtt
  tdcr := (regs_write_self (fun h => by cases h.1) rfl v).symm
  tmict := by
    rw [regs_write_of_ne hw s (by decide) rfl]
    exact hs.tmict

/-- In the mode for deadlines neither takes a new initial count. -/
theorem Shows.write_tmict (hs : Shows hw h s) (v : BitVec 32) :
    Shows hw (h.writeTmict (v &&& hw.writable .tmict)) (hw.write s .tmict v) := by
  rw [Timer.writeTmict]
  split
  · next hmode =>
      have hignored : hw.Ignored s .tmict := ⟨rfl, hs.timerMode_eq.symm.trans hmode⟩
      have hsame : (hw.write s .tmict v).regs .tmict = s.regs .tmict := by
        show hw.after s .tmict v .tmict = _
        rw [Hw.after, if_pos rfl, Hw.stored, if_pos hignored]
      exact ⟨hs.lvtt, hs.tdcr, by rw [hsame]; exact hs.tmict⟩
  · next hmode =>
      have hused : ¬hw.Ignored s .tmict := fun h => hmode (hs.timerMode_eq.trans h.2)
      exact ⟨hs.lvtt, hs.tdcr, (regs_write_self hused rfl v).symm⟩

/-- A write to another register changes the entry at most: it masks it, when it disables the
APIC. -/
theorem Shows.write_other (hs : Shows hw h s) {r : Reg} (htdcr : r ≠ .tdcr) (htmict : r ≠ .tmict)
    (v : BitVec 32) :
    Shows hw h (hw.write s r v) ∨ ∃ w, Shows hw (h.writeLvtt w) (hw.write s r v) := by
  have htdcr' := regs_write_of_ne hw s (Ne.symm htdcr) rfl v
  have htmict' := regs_write_of_ne hw s (Ne.symm htmict) rfl v
  by_cases hentry : (hw.write s r v).regs .lvtt = s.regs .lvtt
  · exact .inl ⟨by rw [hentry]; exact hs.lvtt, by rw [htdcr']; exact hs.tdcr,
      by rw [htmict']; exact hs.tmict⟩
  · exact .inr ⟨_, rfl, by rw [htdcr']; exact hs.tdcr, by rw [htmict']; exact hs.tmict⟩

/-- **Every write to the local APIC is for the timer one of its own accesses**, or none. -/
theorem Shows.write (hs : Shows hw h s) (r : Reg) (v : BitVec 32) :
    ∃ h', Shows hw h' (hw.write s r v) ∧
      (h' = h ∨ (∃ w, h' = h.writeLvtt w) ∨ (∃ w, h' = h.writeTdcr w) ∨
        ∃ w, h' = h.writeTmict w) := by
  by_cases hlvtt : r = .lvtt
  · subst hlvtt
    exact ⟨_, hs.write_lvtt v, .inr (.inl ⟨_, rfl⟩)⟩
  · by_cases htdcr : r = .tdcr
    · subst htdcr
      exact ⟨_, hs.write_tdcr v, .inr (.inr (.inl ⟨_, rfl⟩))⟩
    · by_cases htmict : r = .tmict
      · subst htmict
        exact ⟨_, hs.write_tmict v, .inr (.inr (.inr ⟨_, rfl⟩))⟩
      · rcases hs.write_other htdcr htmict v with hsame | ⟨w, hw'⟩
        · exact ⟨h, hsame, .inl rfl⟩
        · exact ⟨_, hw', .inr (.inl ⟨w, rfl⟩)⟩

end Shows

/-! ### The kernel -/

/-- What does not change. -/
structure Config where
  /-- `lapic_is_integrated()` -/
  integrated : Bool
  /-- `boot_cpu_has(X86_FEATURE_TSC_DEADLINE_TIMER)` -/
  hasTscDeadline : Bool
  /-- `LOCAL_TIMER_VECTOR` -/
  localTimerVector : BitVec 8
  /-- `lapic_timer_period` -/
  lapicTimerPeriod : BitVec 32

/-- The accesses to the timer. -/
inductive Access
  /-- `apic_write(APIC_LVTT, v)` -/
  | writeLvtt (v : BitVec 32)
  /-- The entry is read, and written with these bits set. -/
  | orLvtt (v : BitVec 32)
  /-- The divider is read, and set to 16. -/
  | divideBy16
  /-- `apic_write(APIC_TMICT, v)` -/
  | writeTmict (v : BitVec 32)
  /-- `tsc = rdtsc()` -/
  | rdtsc
  /-- `wrmsrl(MSR_IA32_TSC_DEADLINE, tsc + (((u64) delta) * TSC_DIVISOR))` -/
  | wrmsrDeadline (delta : BitVec 64)

/-- The value that `__setup_APIC_LVTT` writes to the entry. -/
def lvttValue (cfg : Config) (oneshot irqen : Bool) : BitVec 32 :=
  cfg.localTimerVector.setWidth 32 |||
    (if !oneshot then lvtTimerPeriodic
      else if cfg.hasTscDeadline then lvtTimerTscdeadline else 0) |||
    (if !cfg.integrated then BitVec.twoPow 32 19 else 0) |||
    (if !irqen then lvtMasked else 0)

/-- `__setup_APIC_LVTT` -/
def setupApicLvtt (cfg : Config) (clocks : BitVec 32) (oneshot irqen : Bool) : List Access :=
  .writeLvtt (lvttValue cfg oneshot irqen) ::
    if lvttValue cfg oneshot irqen &&& lvtTimerTscdeadline ≠ 0 then []
    else .divideBy16 :: if !oneshot then [.writeTmict (clocks / 16)] else []

/-- `lapic_next_event`; the count has 32 bits. -/
def lapicNextEvent (delta : BitVec 64) : List Access := [.writeTmict (delta.setWidth 32)]

/-- `lapic_next_deadline` -/
def lapicNextDeadline (delta : BitVec 64) : List Access := [.rdtsc, .wrmsrDeadline delta]

/-- `lapic_timer_shutdown`; the flag is `CLOCK_EVT_FEAT_DUMMY`. -/
def lapicTimerShutdown (cfg : Config) (dummy : Bool) : List Access :=
  if dummy then []
  else [.orLvtt (lvtMasked ||| cfg.localTimerVector.setWidth 32), .writeTmict 0]

/-- `lapic_timer_set_periodic_oneshot` -/
def lapicTimerSetPeriodicOneshot (cfg : Config) (dummy oneshot : Bool) : List Access :=
  if dummy then [] else setupApicLvtt cfg cfg.lapicTimerPeriod oneshot true

/-- The functions that others call. -/
inductive Call
  | lapicTimerShutdown
  | lapicTimerSetPeriodic
  | lapicTimerSetOneshot
  | lapicNextEvent (delta : BitVec 64)
  | lapicNextDeadline (delta : BitVec 64)
  | setupApicLvtt (clocks : BitVec 32) (oneshot irqen : Bool)

def Call.accesses (cfg : Config) (dummy : Bool) : Call → List Access
  | .lapicTimerShutdown => LapicTimer.lapicTimerShutdown cfg dummy
  | .lapicTimerSetPeriodic => lapicTimerSetPeriodicOneshot cfg dummy false
  | .lapicTimerSetOneshot => lapicTimerSetPeriodicOneshot cfg dummy true
  | .lapicNextEvent delta => LapicTimer.lapicNextEvent delta
  | .lapicNextDeadline delta => LapicTimer.lapicNextDeadline delta
  | .setupApicLvtt clocks oneshot irqen => LapicTimer.setupApicLvtt cfg clocks oneshot irqen

/-! ### The system -/

/-- A CPU with its timer and the clock event device of it. -/
structure State where
  hw : Timer
  /-- `evt->features & CLOCK_EVT_FEAT_DUMMY` -/
  dummy : Bool
  /-- `evt->event_handler` is not null. -/
  eventHandler : Bool
  /-- What is left to do of the function that has been called. -/
  todo : List Access
  /-- The variable of `lapic_next_deadline`. -/
  tsc : BitVec 64
  /-- `apic_zzz_debug_flag` -/
  apicZzzDebugFlag : Bool
  jiffies : BitVec 64
  /-- The jiffies that were printed. -/
  printed : List (BitVec 64)

/-- The steps: of the kernel and of the hardware. -/
inductive Act
  | call (c : Call)
  /-- The next access of the function that has been called. -/
  | access
  /-- The interrupt of the timer is taken. -/
  | interrupt
  /-- The counter is decremented. -/
  | count
  /-- The time stamp counter advances. -/
  | advance
  | jiffy
  /-- The clock event framework sets the handler of the device. -/
  | setHandler (b : Bool)
  /-- `zzzloop_apic_flag_on_proc_show` and `zzzloop_apic_flag_off_proc_show` -/
  | setFlag (b : Bool)
  /-- `lapic_timer_broadcast` on another CPU, with this one in the mask. -/
  | lapicTimerBroadcast

/-- An access, which leaves some others. -/
def State.exec (s : State) (todo : List Access) : Access → State
  | .writeLvtt v => { s with todo := todo, hw := s.hw.writeLvtt v }
  | .orLvtt v => { s with todo := todo, hw := s.hw.writeLvtt (s.hw.lvtt ||| v) }
  | .divideBy16 =>
      { s with
        todo := todo
        hw := s.hw.writeTdcr ((s.hw.tdcr &&& ~~~(0xb#32 ||| 4#32)) ||| 3#32) }
  | .writeTmict v => { s with todo := todo, hw := s.hw.writeTmict v }
  | .rdtsc => { s with todo := todo, tsc := s.hw.tsc }
  | .wrmsrDeadline delta => { s with todo := todo, hw := s.hw.wrmsrDeadline (s.tsc + delta * 8) }

/-- `local_apic_timer_interrupt`, in `sysvec_apic_timer_interrupt`, which has acknowledged the
interrupt.  What a handler does are calls. -/
def localApicTimerInterrupt (cfg : Config) (s : State) : State where
  hw := { s.hw with irr := false }
  dummy := s.dummy
  eventHandler := s.eventHandler
  todo := if s.eventHandler then [] else lapicTimerShutdown cfg s.dummy
  tsc := s.tsc
  apicZzzDebugFlag := s.apicZzzDebugFlag
  jiffies := s.jiffies
  printed :=
    if s.apicZzzDebugFlag ∧ s.jiffies % 125 = 0 then s.printed ++ [s.jiffies] else s.printed

/-- `lapic_timer_broadcast` sends the vector of the timer, past the mask of the entry. -/
def lapicTimerBroadcast (s : State) : State := { s with hw := { s.hw with irr := true } }

/-- The steps of the system.  While a function is at work no interrupt is taken, and nothing else is
called. -/
def step (cfg : Config) (s : State) : Act → Option State
  | .call c => if s.todo = [] then some { s with todo := c.accesses cfg s.dummy } else none
  | .access =>
      match s.todo with
      | [] => none
      | a :: as => some (s.exec as a)
  | .interrupt =>
      if s.todo = [] ∧ s.hw.irr = true then some (localApicTimerInterrupt cfg s) else none
  | .count => some { s with hw := s.hw.count }
  | .advance => some { s with hw := s.hw.advance }
  | .jiffy => some { s with jiffies := s.jiffies + 1 }
  | .setHandler b => if s.todo = [] then some { s with eventHandler := b } else none
  | .setFlag b => some { s with apicZzzDebugFlag := b }
  | .lapicTimerBroadcast => some (lapicTimerBroadcast s)

/-- **What a step can do.** -/
inductive Stepped (cfg : Config) (s : State) : Act → State → Prop
  | call (c : Call) : s.todo = [] →
      Stepped cfg s (.call c) { s with todo := c.accesses cfg s.dummy }
  | access {b : Access} {as : List Access} : s.todo = b :: as →
      Stepped cfg s .access (s.exec as b)
  | interrupt : s.todo = [] → s.hw.irr = true →
      Stepped cfg s .interrupt (localApicTimerInterrupt cfg s)
  | count : Stepped cfg s .count { s with hw := s.hw.count }
  | advance : Stepped cfg s .advance { s with hw := s.hw.advance }
  | jiffy : Stepped cfg s .jiffy { s with jiffies := s.jiffies + 1 }
  | setHandler (b : Bool) : s.todo = [] → Stepped cfg s (.setHandler b) { s with eventHandler := b }
  | setFlag (b : Bool) : Stepped cfg s (.setFlag b) { s with apicZzzDebugFlag := b }
  | lapicTimerBroadcast : Stepped cfg s .lapicTimerBroadcast (lapicTimerBroadcast s)

theorem stepped_of_step {cfg : Config} {s s' : State} {a : Act} (h : step cfg s a = some s') :
    Stepped cfg s a s' := by
  cases a with
  | call c =>
      rw [step] at h
      split at h
      · next hidle => exact Option.some.inj h ▸ .call c hidle
      · cases h
  | access =>
      rw [step] at h
      split at h
      · cases h
      · next b as htodo => exact Option.some.inj h ▸ .access htodo
  | interrupt =>
      rw [step] at h
      split at h
      · next hready => exact Option.some.inj h ▸ .interrupt hready.1 hready.2
      · cases h
  | setHandler b =>
      rw [step] at h
      split at h
      · next hidle => exact Option.some.inj h ▸ .setHandler b hidle
      · cases h
  | count => exact Option.some.inj h ▸ .count
  | advance => exact Option.some.inj h ▸ .advance
  | jiffy => exact Option.some.inj h ▸ .jiffy
  | setFlag b => exact Option.some.inj h ▸ .setFlag b
  | lapicTimerBroadcast => exact Option.some.inj h ▸ .lapicTimerBroadcast

theorem printed_exec (s : State) (as : List Access) (b : Access) :
    (s.exec as b).printed = s.printed := by
  cases b <;> rfl

/-- A line is printed at an interrupt, if the flag is set and the jiffies are a multiple of 125, and
at no other step. -/
theorem printed_of_step {cfg : Config} {s s' : State} {a : Act} (h : step cfg s a = some s') :
    s'.printed = s.printed ∨
      (a = .interrupt ∧ s.apicZzzDebugFlag = true ∧ s.jiffies % 125 = 0 ∧
        s'.printed = s.printed ++ [s.jiffies]) := by
  cases stepped_of_step h with
  | access htodo => exact .inl (printed_exec s _ _)
  | interrupt hidle hirr =>
      by_cases hprint : s.apicZzzDebugFlag = true ∧ s.jiffies % 125 = 0
      · exact .inr ⟨rfl, hprint.1, hprint.2, if_pos hprint⟩
      · exact .inl (if_neg hprint)
  | _ => exact .inl rfl

/-! ### The entry of the vector table -/

section Entry

variable (cfg : Config) (v : BitVec 32)

theorem getLsbD_localTimerVector {i : ℕ} (hi : 8 ≤ i) :
    (cfg.localTimerVector.setWidth 32).getLsbD i = false := by
  rw [BitVec.getLsbD_setWidth, BitVec.getLsbD_of_ge _ _ hi, Bool.and_false]

/-- Shutting the timer down does not change its mode. -/
theorem timerMode_or_shutdown :
    timerMode (v ||| (lvtMasked ||| cfg.localTimerVector.setWidth 32)) = timerMode v := by
  have hbit : ∀ i, 17 ≤ i → i ≤ 18 →
      (v ||| (lvtMasked ||| cfg.localTimerVector.setWidth 32)).getLsbD i = v.getLsbD i := by
    intro i hlo hhi
    rw [BitVec.getLsbD_or, BitVec.getLsbD_or, getLsbD_localTimerVector cfg (by omega), lvtMasked,
      BitVec.getLsbD_twoPow]
    simp [show ¬16 = i by omega]
  rw [timerMode, hbit 18 (by omega) (by omega), hbit 17 (by omega) (by omega), timerMode]

theorem masked_lvttValue (oneshot irqen : Bool) :
    masked (lvttValue cfg oneshot irqen) = !irqen := by
  rw [masked, lvttValue, BitVec.getLsbD_or, BitVec.getLsbD_or, BitVec.getLsbD_or,
    getLsbD_localTimerVector cfg (by omega)]
  cases oneshot <;> cases irqen <;> cases cfg.hasTscDeadline <;> cases cfg.integrated <;> decide

theorem timerMode_lvttValue (oneshot irqen : Bool) : timerMode (lvttValue cfg oneshot irqen) =
    if !oneshot then .periodic else if cfg.hasTscDeadline then .tscDeadline else .oneshot := by
  have h18 := getLsbD_localTimerVector cfg (by omega : 8 ≤ 18)
  have h17 := getLsbD_localTimerVector cfg (by omega : 8 ≤ 17)
  simp only [timerMode, lvttValue, BitVec.getLsbD_or, h18, h17]
  cases oneshot <;> cases irqen <;> cases cfg.hasTscDeadline <;> cases cfg.integrated <;> decide

end Entry

/-! ### An access -/

section Access

variable (h : Timer) (s : State) (todo : List Access)

theorem masked_of_irr_count (hmask : masked h.lvtt = true) : h.count.irr = h.irr := by
  rw [Timer.count]
  split <;> simp [hmask]

theorem lvtt_count : h.count.lvtt = h.lvtt := by
  rw [Timer.count]
  split <;> rfl

theorem masked_of_irr_advance (hmask : masked h.lvtt = true) : h.advance.irr = h.irr := by
  simp [Timer.advance, hmask]

theorem lvtt_writeTmict (v : BitVec 32) : (h.writeTmict v).lvtt = h.lvtt := by
  rw [Timer.writeTmict]
  split <;> rfl

theorem irr_writeTmict (v : BitVec 32) : (h.writeTmict v).irr = h.irr := by
  rw [Timer.writeTmict]
  split <;> rfl

theorem lvtt_wrmsrDeadline (v : BitVec 64) : (h.wrmsrDeadline v).lvtt = h.lvtt := by
  rw [Timer.wrmsrDeadline]
  split <;> rfl

theorem irr_wrmsrDeadline (v : BitVec 64) : (h.wrmsrDeadline v).irr = h.irr := by
  rw [Timer.wrmsrDeadline]
  split <;> rfl

/-- What an access writes to the entry. -/
def Access.entry (lvtt : BitVec 32) : Access → BitVec 32
  | .writeLvtt v => v
  | .orLvtt v => lvtt ||| v
  | _ => lvtt

theorem lvtt_exec (a : Access) : (s.exec todo a).hw.lvtt = a.entry s.hw.lvtt := by
  cases a with
  | writeTmict v => exact lvtt_writeTmict s.hw v
  | wrmsrDeadline delta => exact lvtt_wrmsrDeadline s.hw _
  | _ => rfl

theorem irr_exec (a : Access) : (s.exec todo a).hw.irr = s.hw.irr := by
  cases a with
  | writeTmict v => exact irr_writeTmict s.hw v
  | wrmsrDeadline delta => exact irr_wrmsrDeadline s.hw _
  | _ => rfl

theorem todo_exec (a : Access) : (s.exec todo a).todo = todo := by
  cases a <;> rfl

end Access

/-! ### After the timer is shut down -/

/-- The steps that take an interrupt. -/
def Act.isInterrupt : Act → Bool
  | .interrupt => true
  | _ => false

/-- The steps in which another CPU sends the vector. -/
def Act.isBroadcast : Act → Bool
  | .lapicTimerBroadcast => true
  | _ => false

/-- The functions that unmask the entry. -/
def Call.unmasks : Call → Bool
  | .lapicTimerSetPeriodic | .lapicTimerSetOneshot => true
  | .setupApicLvtt _ _ irqen => irqen
  | _ => false

/-- The timer is not set up again. -/
def NoSetup (_ : State) : Act → Prop
  | .call c => c.unmasks = false
  | _ => True

/-- An access that leaves a masked entry masked. -/
def Access.KeepsMask (a : Access) : Prop := ∀ v, masked v = true → masked (a.entry v) = true

/-- An access that masks the entry. -/
def Access.masks : Access → Bool
  | .orLvtt v => masked v
  | _ => false

/-- The entry is masked, or will be by the next access. -/
structure Off (s : State) : Prop where
  todo : ∀ a ∈ s.todo, a.KeepsMask
  entry : masked s.hw.lvtt = true ∨ s.todo.head?.any Access.masks = true

/-- The interrupts that can still be taken, without a broadcast. -/
def State.left (s : State) : ℕ :=
  if masked s.hw.lvtt then s.hw.irr.toNat else if s.todo.head?.any Access.masks then 1 else 2

section Off

variable {cfg : Config} {s s' : State} {a : Act}

theorem masked_or (v w : BitVec 32) (h : masked v = true ∨ masked w = true) :
    masked (v ||| w) = true := by
  rw [masked, BitVec.getLsbD_or, Bool.or_eq_true]
  exact h

theorem keepsMask_shutdown (dummy : Bool) :
    ∀ a ∈ lapicTimerShutdown cfg dummy, a.KeepsMask := by
  intro a ha v hv
  rw [lapicTimerShutdown] at ha
  split at ha
  · cases ha
  · rcases List.mem_pair.1 ha with rfl | rfl
    · exact masked_or _ _ (.inl hv)
    · exact hv

theorem keepsMask_setupApicLvtt (clocks : BitVec 32) (oneshot : Bool) :
    ∀ a ∈ setupApicLvtt cfg clocks oneshot false, a.KeepsMask := by
  intro a ha v hv
  rw [setupApicLvtt] at ha
  rcases List.mem_cons.1 ha with rfl | ha
  · exact masked_lvttValue cfg oneshot false
  · split at ha
    · cases ha
    · rcases List.mem_cons.1 ha with rfl | ha
      · exact hv
      · split at ha
        · exact List.mem_singleton.1 ha ▸ hv
        · cases ha

theorem keepsMask_accesses {c : Call} (hc : c.unmasks = false) (dummy : Bool) :
    ∀ a ∈ c.accesses cfg dummy, a.KeepsMask := by
  cases c with
  | lapicTimerShutdown => exact keepsMask_shutdown dummy
  | lapicTimerSetPeriodic => cases hc
  | lapicTimerSetOneshot => cases hc
  | lapicNextEvent delta =>
      intro a ha v hv
      exact List.mem_singleton.1 ha ▸ hv
  | lapicNextDeadline delta =>
      intro a ha v hv
      rcases List.mem_pair.1 ha with rfl | rfl <;> exact hv
  | setupApicLvtt clocks oneshot irqen =>
      obtain rfl : irqen = false := hc
      exact keepsMask_setupApicLvtt clocks oneshot

theorem left_of_masked (h : masked s.hw.lvtt = true) : s.left = s.hw.irr.toNat := if_pos h

theorem irr_le_left (s : State) : s.hw.irr.toNat ≤ s.left := by
  rw [State.left]
  split
  · exact Nat.le_refl _
  · split
    · exact Bool.toNat_le _
    · exact Nat.le_succ_of_le (Bool.toNat_le _)

theorem left_le_two (s : State) : s.left ≤ 2 := by
  rw [State.left]
  split
  · exact Nat.le_succ_of_le (Bool.toNat_le _)
  · split <;> omega

theorem Off.left_le_one (h : Off s) : s.left ≤ 1 := by
  rw [State.left]
  split
  · exact Bool.toNat_le _
  · next hmask => exact Nat.le_of_eq (if_pos (h.entry.resolve_left hmask))

/-- A broadcast is one interrupt more. -/
theorem left_lapicTimerBroadcast (s : State) : (lapicTimerBroadcast s).left ≤ s.left + 1 := by
  have hentry : (lapicTimerBroadcast s).hw.lvtt = s.hw.lvtt := rfl
  have htodo : (lapicTimerBroadcast s).todo = s.todo := rfl
  rw [State.left, State.left, hentry, htodo]
  split
  · exact Nat.le_add_left _ _
  · exact Nat.le_succ _

theorem left_of_eq (hlvtt : s'.hw.lvtt = s.hw.lvtt) (htodo : s'.todo = s.todo)
    (hirr : masked s.hw.lvtt = true → s'.hw.irr = s.hw.irr) : s'.left = s.left := by
  rw [State.left, State.left, hlvtt, htodo]
  split
  · next hmask => rw [hirr hmask]
  · rfl

/-- Every access that is left to do was left before, or keeps the mask. -/
theorem todo_step (hok : NoSetup s a) (hstep : step cfg s a = some s') :
    ∀ b ∈ s'.todo, b ∈ s.todo ∨ b.KeepsMask := by
  intro b hb
  cases stepped_of_step hstep with
  | call c hidle => exact .inr (keepsMask_accesses hok s.dummy b hb)
  | access htodo =>
      rw [todo_exec] at hb
      exact .inl (htodo ▸ List.mem_cons_of_mem _ hb)
  | interrupt hidle hirr =>
      rw [localApicTimerInterrupt] at hb
      split at hb
      · cases hb
      · exact .inr (keepsMask_shutdown s.dummy b hb)
  | _ => exact .inl hb

/-- The next access masks the entry, if it does not keep the mask that there is. -/
theorem Off.masked_exec (h : Off s) {b : Access} {as : List Access} (htodo : s.todo = b :: as) :
    masked (s.exec as b).hw.lvtt = true := by
  rw [lvtt_exec]
  rcases h.entry with hmask | hnext
  · exact h.todo b (htodo ▸ List.mem_cons_self ..) _ hmask
  · rw [htodo] at hnext
    cases b with
    | orLvtt v => exact masked_or _ _ (.inr hnext)
    | _ => cases hnext

theorem Off.of_todo_eq_nil (h : Off s) (hidle : s.todo = []) : masked s.hw.lvtt = true :=
  h.entry.resolve_right (by simp [hidle])

/-- The entry is masked after a step, too, or will be; and an interrupt that is taken is one of
those that were left, or a broadcast. -/
theorem Off.entry_step (h : Off s) (hstep : step cfg s a = some s') :
    (masked s'.hw.lvtt = true ∨ s'.todo.head?.any Access.masks = true) ∧
      s'.left + (if a.isInterrupt then 1 else 0) ≤ s.left + (if a.isBroadcast then 1 else 0) := by
  cases stepped_of_step hstep with
  | call c hidle =>
      have hmask := h.of_todo_eq_nil hidle
      refine ⟨.inl hmask, ?_⟩
      rw [left_of_masked hmask]
      exact Nat.le_of_eq (left_of_masked hmask)
  | access htodo =>
      have hmask := h.masked_exec htodo
      refine ⟨.inl hmask, ?_⟩
      rw [left_of_masked hmask, irr_exec]
      exact irr_le_left s
  | interrupt hidle hirr =>
      have hmask := h.of_todo_eq_nil hidle
      have hleft : (localApicTimerInterrupt cfg s).left = 0 := left_of_masked hmask
      refine ⟨.inl hmask, ?_⟩
      rw [left_of_masked hmask, hirr, hleft]
      exact Nat.le_refl _
  | count =>
      have hleft : State.left { s with hw := s.hw.count } = s.left :=
        left_of_eq (lvtt_count s.hw) rfl (masked_of_irr_count s.hw)
      refine ⟨?_, Nat.le_of_eq hleft⟩
      rw [lvtt_count]
      exact h.entry
  | advance =>
      have hleft : State.left { s with hw := s.hw.advance } = s.left :=
        left_of_eq rfl rfl (masked_of_irr_advance s.hw)
      exact ⟨h.entry, Nat.le_of_eq hleft⟩
  | lapicTimerBroadcast => exact ⟨h.entry, left_lapicTimerBroadcast s⟩
  | _ => exact ⟨h.entry, Nat.le_refl _⟩

/-- **What a step does while the timer is off**: it stays off, and an interrupt that is taken is one
of those that were left, or a broadcast. -/
theorem Off.of_step (h : Off s) (hok : NoSetup s a) (hstep : step cfg s a = some s') :
    Off s' ∧
      s'.left + (if a.isInterrupt then 1 else 0) ≤ s.left + (if a.isBroadcast then 1 else 0) := by
  obtain ⟨hentry, hleft⟩ := h.entry_step hstep
  exact ⟨⟨fun b hb => (todo_step hok hstep b hb).elim (h.todo b) id, hentry⟩, hleft⟩

/-- A call that shuts the timer down. -/
theorem shutdown_eq (hdummy : s.dummy = false)
    (hcall : step cfg s (.call .lapicTimerShutdown) = some s') :
    s' = { s with
      todo := [.orLvtt (lvtMasked ||| cfg.localTimerVector.setWidth 32), .writeTmict 0] } := by
  have htodo : lapicTimerShutdown cfg s.dummy =
      [.orLvtt (lvtMasked ||| cfg.localTimerVector.setWidth 32), .writeTmict 0] := by
    rw [lapicTimerShutdown, hdummy]
    rfl
  cases stepped_of_step hcall with
  | call c hidle => rw [Call.accesses, htodo]

theorem masks_shutdown (cfg : Config) :
    (Access.orLvtt (lvtMasked ||| cfg.localTimerVector.setWidth 32)).masks = true :=
  masked_or _ _ (.inl (by decide))

theorem off_shutdown (cfg : Config) (hdummy : s.dummy = false)
    (htodo : s.todo = lapicTimerShutdown cfg s.dummy) : Off s := by
  refine ⟨htodo ▸ keepsMask_shutdown s.dummy, .inr ?_⟩
  rw [htodo, hdummy]
  exact masks_shutdown cfg

/-- **After a call of `lapic_timer_shutdown` at most one interrupt is taken**, the one that may be
pending when the entry is masked, and those that other CPUs broadcast, until the timer is set up
again; whatever else is called, and however the time passes. -/
theorem interrupts_after_shutdown (cfg : Config) {t : State} {as : List Act}
    (hdummy : s.dummy = false) (hcall : step cfg s (.call .lapicTimerShutdown) = some s')
    (h : Path (step cfg) NoSetup s' as t) :
    as.countP Act.isInterrupt ≤ 1 + as.countP Act.isBroadcast := by
  have heq := shutdown_eq hdummy hcall
  have hoff : Off s' := by
    refine off_shutdown (s := s') cfg ?_ ?_
    · rw [heq]
      exact hdummy
    · rw [heq, lapicTimerShutdown, hdummy]
      rfl
  have hle : as.countP Act.isInterrupt + t.left ≤ s'.left + as.countP Act.isBroadcast :=
    h.countP_add_le_add hoff fun s a s' hinv hok hs => hinv.of_step hok hs
  have hone := hoff.left_le_one
  omega

end Off

/-- A CPU of which the timer sends an interrupt at every count. -/
def ticking (dummy eventHandler : Bool) : State where
  hw :=
    { lvtt := 0xec ||| lvtTimerPeriodic
      tdcr := 3
      tmict := 1
      tmcct := 1
      tscDeadline := 0
      tsc := 0
      irr := false
      tmcct_eq := fun hmode => absurd hmode (by decide)
      tscDeadline_eq := fun _ => rfl }
  dummy := dummy
  eventHandler := eventHandler
  todo := []
  tsc := 0
  apicZzzDebugFlag := false
  jiffies := 0
  printed := []

def exampleConfig : Config where
  integrated := true
  hasTscDeadline := false
  localTimerVector := 0xec
  lapicTimerPeriod := 0x186a0

theorem interrupts_after_shutdown_ticking :
    [Act.count, .access, .access, .interrupt, .lapicTimerBroadcast, .interrupt].countP
        Act.isInterrupt ≤
      1 + [Act.count, .access, .access, .interrupt, .lapicTimerBroadcast, .interrupt].countP
        Act.isBroadcast :=
  interrupts_after_shutdown exampleConfig (s := ticking false true) rfl rfl
    (.cons trivial rfl (.cons trivial rfl (.cons trivial rfl (.cons trivial rfl
      (.cons trivial rfl (.cons trivial rfl .nil))))))

/-! ### Interrupts that nobody handles -/

/-- The timer is not set up, and the device gets no handler. -/
def Unhandled (s : State) : Act → Prop
  | .setHandler _ => False
  | a => NoSetup s a

/-- A device without a handler, which is not a dummy. -/
structure Spurious (s : State) : Prop where
  todo : ∀ a ∈ s.todo, a.KeepsMask
  eventHandler : s.eventHandler = false
  dummy : s.dummy = false

section Spurious

variable {cfg : Config} {s s' : State} {a : Act}

theorem Unhandled.noSetup (hok : Unhandled s a) : NoSetup s a := by
  cases a with
  | setHandler b => trivial
  | _ => exact hok

theorem device_exec (s : State) (as : List Access) (b : Access) :
    (s.exec as b).eventHandler = s.eventHandler ∧ (s.exec as b).dummy = s.dummy := by
  cases b <;> exact ⟨rfl, rfl⟩

/-- Nothing else changes the device. -/
theorem device_step (hok : Unhandled s a) (hstep : step cfg s a = some s') :
    s'.eventHandler = s.eventHandler ∧ s'.dummy = s.dummy := by
  cases stepped_of_step hstep with
  | access htodo => exact device_exec s _ _
  | setHandler b hidle => exact hok.elim
  | _ => exact ⟨rfl, rfl⟩

/-- Taking an interrupt switches the timer off. -/
theorem Spurious.off_interrupt (h : Spurious s) (hstep : step cfg s .interrupt = some s') :
    Off s' := by
  cases stepped_of_step hstep with
  | interrupt hidle hirr =>
      refine off_shutdown (s := localApicTimerInterrupt cfg s) cfg h.dummy ?_
      rw [localApicTimerInterrupt, h.eventHandler]
      rfl

theorem Spurious.of_step (h : Spurious s) (hok : Unhandled s a) (hstep : step cfg s a = some s') :
    Spurious s' ∧
      s'.left + (if a.isInterrupt then 1 else 0) ≤ s.left + (if a.isBroadcast then 1 else 0) := by
  obtain ⟨heventHandler, hdummy⟩ := device_step hok hstep
  refine ⟨⟨fun b hb => (todo_step hok.noSetup hstep b hb).elim (h.todo b) id,
    heventHandler.trans h.eventHandler, hdummy.trans h.dummy⟩, ?_⟩
  by_cases hentry : masked s.hw.lvtt = true ∨ s.todo.head?.any Access.masks = true
  · exact (Off.entry_step ⟨h.todo, hentry⟩ hstep).2
  · -- the entry is not masked, so nothing has been taken yet
    rw [not_or] at hentry
    have hleft : s.left = 2 := by rw [State.left, if_neg hentry.1, if_neg hentry.2]
    rw [hleft]
    cases a with
    | interrupt => exact Nat.succ_le_succ (h.off_interrupt hstep).left_le_one
    | _ => exact Nat.le_add_right_of_le (left_le_two s')

/-- A dummy goes on ticking. -/
theorem path_ticking (cfg : Config) :
    Path (step cfg) Unhandled (ticking true false) [.count, .interrupt] (ticking true false) := by
  have hinterrupt : step cfg { ticking true false with hw := (ticking true false).hw.count }
      .interrupt = some (ticking true false) := rfl
  exact .cons trivial rfl (.cons trivial hinterrupt .nil)

/-- **Without a handler at most two interrupts are taken, exactly if the device is not a dummy**,
besides those that other CPUs broadcast.  The first one switches the timer off, and another one may
be pending by then; but a dummy is not switched off, and there is no bound. -/
theorem spurious_le_two_iff (cfg : Config) (dummy : Bool) :
    (∀ (s t : State) (as : List Act), s.todo = [] → s.eventHandler = false → s.dummy = dummy →
      Path (step cfg) Unhandled s as t →
        as.countP Act.isInterrupt ≤ 2 + as.countP Act.isBroadcast) ↔ dummy = false := by
  constructor
  · intro hall
    cases dummy with
    | false => rfl
    | true =>
        have hthree := hall _ _ _ rfl rfl rfl ((path_ticking cfg).flatten_replicate 3)
        exact absurd hthree (by decide)
  · rintro rfl s t as htodo heventHandler hdummy h
    have hspurious : Spurious s :=
      ⟨fun a ha => absurd (htodo ▸ ha) List.not_mem_nil, heventHandler, hdummy⟩
    have hle : as.countP Act.isInterrupt + t.left ≤ s.left + as.countP Act.isBroadcast :=
      h.countP_add_le_add hspurious fun s a s' hinv hok hs => hinv.of_step hok hs
    have htwo := left_le_two s
    omega

end Spurious

/-! ### Stopping the timer -/

/-- No function is called. -/
def NoCall (_ : State) : Act → Prop
  | .call _ => False
  | _ => True

/-- No deadline is armed, and the counter is stopped by the accesses that are left, or it is
already. -/
structure Stopping (cfg : Config) (s : State) : Prop where
  dummy : s.dummy = false
  tscDeadline : s.hw.tscDeadline = 0
  todo : s.todo = lapicTimerShutdown cfg false ∨ s.todo = [.writeTmict 0] ∨
    (s.todo = [] ∧ s.hw.tmcct = 0)

section Stop

variable {cfg : Config} {s s' : State} {a : Act} {h : Timer}

theorem tscDeadline_count (h : Timer) : h.count.tscDeadline = h.tscDeadline := by
  rw [Timer.count]
  split <;> rfl

theorem count_of_tmcct_eq_zero (h0 : h.tmcct = 0) : h.count = h := by
  rw [Timer.count, dif_pos h0]

theorem tscDeadline_advance (h0 : h.tscDeadline = 0) : h.advance.tscDeadline = 0 := by
  show (if h.due then 0 else h.tscDeadline) = 0
  rw [h0]
  split <;> rfl

theorem tscDeadline_writeTmict (h : Timer) (v : BitVec 32) :
    (h.writeTmict v).tscDeadline = h.tscDeadline := by
  rw [Timer.writeTmict]
  split <;> rfl

theorem tmcct_writeTmict_zero (h : Timer) : (h.writeTmict 0).tmcct = 0 := by
  rw [Timer.writeTmict]
  split
  · next hmode => exact h.tmcct_eq hmode
  · rfl

theorem tscDeadline_writeLvtt {v : BitVec 32} (hmode : timerMode v = timerMode h.lvtt) :
    (h.writeLvtt v).tscDeadline = h.tscDeadline := if_pos hmode

/-- Only the time passes, or what is written down elsewhere changes. -/
theorem Stopping.of_hw (hs : Stopping cfg s) {hw : Timer} (hdeadline : hw.tscDeadline = 0)
    (htmcct : s.hw.tmcct = 0 → hw.tmcct = 0) : Stopping cfg { s with hw := hw } :=
  ⟨hs.dummy, hdeadline, hs.todo.imp_right (Or.imp_right (And.imp_right htmcct))⟩

theorem Stopping.exec (hs : Stopping cfg s) {b : Access} {as : List Access}
    (htodo : s.todo = b :: as) : Stopping cfg (s.exec as b) := by
  rcases hs.todo with heq | heq | ⟨heq, -⟩
  · obtain ⟨rfl, rfl⟩ := List.cons.inj (htodo.symm.trans heq)
    refine ⟨hs.dummy, ?_, .inr (.inl rfl)⟩
    exact (tscDeadline_writeLvtt (timerMode_or_shutdown cfg _)).trans hs.tscDeadline
  · obtain ⟨rfl, rfl⟩ := List.cons.inj (htodo.symm.trans heq)
    refine ⟨hs.dummy, ?_, .inr (.inr ⟨rfl, tmcct_writeTmict_zero s.hw⟩)⟩
    exact (tscDeadline_writeTmict s.hw 0).trans hs.tscDeadline
  · cases htodo.symm.trans heq

theorem Stopping.tmcct_eq (hs : Stopping cfg s) (hidle : s.todo = []) : s.hw.tmcct = 0 := by
  rcases hs.todo with heq | heq | ⟨-, h0⟩
  · cases hidle.symm.trans heq
  · cases hidle.symm.trans heq
  · exact h0

theorem Stopping.of_step (hs : Stopping cfg s) (hok : NoCall s a)
    (hstep : step cfg s a = some s') : Stopping cfg s' := by
  cases stepped_of_step hstep with
  | call c hidle => exact hok.elim
  | access htodo => exact hs.exec htodo
  | interrupt hidle hirr =>
      refine ⟨hs.dummy, hs.tscDeadline, ?_⟩
      rw [localApicTimerInterrupt, hs.dummy]
      cases s.eventHandler with
      | false => exact .inl rfl
      | true => exact .inr (.inr ⟨rfl, hs.tmcct_eq hidle⟩)
  | count =>
      refine hs.of_hw ((tscDeadline_count s.hw).trans hs.tscDeadline) fun h0 => ?_
      rw [count_of_tmcct_eq_zero h0]
      exact h0
  | advance => exact hs.of_hw (tscDeadline_advance hs.tscDeadline) id
  | _ => exact ⟨hs.dummy, hs.tscDeadline, hs.todo⟩

/-- The accesses follow each other without a delay. -/
theorem reach_shutdown (cfg : Config) (s : State) :
    ∃ t, Reach (step cfg) NoCall { s with todo := lapicTimerShutdown cfg false } t ∧ t.todo = [] ∧
      t.hw.tscDeadline = s.hw.tscDeadline := by
  have hfirst : step cfg { s with todo := lapicTimerShutdown cfg false } .access = some
      { s with
        todo := [.writeTmict 0]
        hw := s.hw.writeLvtt
          (s.hw.lvtt ||| (lvtMasked ||| cfg.localTimerVector.setWidth 32)) } := rfl
  refine ⟨_, (Reach.start.next (a := Act.access) trivial hfirst).next (a := Act.access) trivial rfl,
    rfl, ?_⟩
  exact (tscDeadline_writeTmict _ 0).trans (tscDeadline_writeLvtt (timerMode_or_shutdown cfg _))

/-- **Shutting down stops the timer, exactly if no deadline is armed.**  In the mode for deadlines
the initial count is not used, so the deadline stays armed behind the mask. -/
theorem stopped_iff (cfg : Config) (hdummy : s.dummy = false)
    (hcall : step cfg s (.call .lapicTimerShutdown) = some s') :
    (∀ t, Reach (step cfg) NoCall s' t → t.todo = [] → t.hw.Stopped) ↔
      s.hw.tscDeadline = 0 := by
  have heq : s' = { s with todo := lapicTimerShutdown cfg false } := shutdown_eq hdummy hcall
  subst heq
  constructor
  · intro hall
    obtain ⟨t, hrun, hidle, hdeadline⟩ := reach_shutdown cfg s
    exact hdeadline ▸ (hall t hrun hidle).2
  · intro h0 t hrun hidle
    have hs : Stopping cfg t :=
      hrun.inv ⟨hdummy, h0, .inl rfl⟩ fun _ _ _ hinv hok hs => hinv.of_step hok hs
    exact ⟨hs.tmcct_eq hidle, hs.tscDeadline⟩

end Stop

theorem stopped_iff_ticking :
    (∀ t, Reach (step exampleConfig) NoCall
        { ticking false true with todo := lapicTimerShutdown exampleConfig false } t →
      t.todo = [] → t.hw.Stopped) ↔ (ticking false true).hw.tscDeadline = 0 :=
  stopped_iff exampleConfig (s := ticking false true) rfl rfl

/-! ### Events -/

/-- The steps that program an event. -/
def Act.isNextEvent : Act → Bool
  | .call (.lapicNextEvent _) | .call (.lapicNextDeadline _) => true
  | _ => false

/-- The steps that can cause an interrupt: an event is programmed, or another CPU sends the
vector. -/
def Act.isCause (a : Act) : Bool := a.isNextEvent || a.isBroadcast

/-- The timer is not set up for periodic interrupts. -/
def OneshotOnly (_ : State) : Act → Prop
  | .call .lapicTimerSetPeriodic => False
  | .call (.setupApicLvtt _ oneshot _) => oneshot = true
  | _ => True

/-- An access that arms the timer. -/
def Access.arms : Access → Bool
  | .writeTmict v => v ≠ 0
  | .wrmsrDeadline _ => true
  | _ => false

/-- An access after which the timer is not in periodic mode if it was not. -/
def Access.Oneshot (a : Access) : Prop :=
  ∀ v, timerMode v ≠ .periodic → timerMode (a.entry v) ≠ .periodic

structure Oneshot (s : State) : Prop where
  mode : timerMode s.hw.lvtt ≠ .periodic
  todo : ∀ a ∈ s.todo, a.Oneshot

instance (h : Timer) : Decidable h.Stopped := inferInstanceAs (Decidable (_ ∧ _))

def Timer.armed (h : Timer) : ℕ := if h.Stopped then 0 else 1

/-- The interrupts that the events programmed so far and a broadcast can still cause. -/
def State.events (s : State) : ℕ := s.hw.irr.toNat + s.hw.armed + s.todo.countP Access.arms

section Events

variable {cfg : Config} {s s' : State} {a : Act} {h h' : Timer}

theorem armed_le_one (h : Timer) : h.armed ≤ 1 := by
  rw [Timer.armed]
  split <;> omega

theorem armed_of_stopped (hs : h.Stopped) : h.armed = 0 := if_pos hs

theorem armed_of_not_stopped (hs : ¬h.Stopped) : h.armed = 1 := if_neg hs

theorem armed_le (himp : h.Stopped → h'.Stopped) : h'.armed ≤ h.armed := by
  by_cases hs : h.Stopped
  · rw [armed_of_stopped (himp hs)]
    exact Nat.zero_le _
  · rw [armed_of_not_stopped hs]
    exact armed_le_one h'

theorem stopped_writeLvtt (hs : h.Stopped) (v : BitVec 32) : (h.writeLvtt v).Stopped := by
  rw [Timer.Stopped, Timer.writeLvtt]
  constructor <;> split
  · exact hs.1
  · rfl
  · exact hs.2
  · rfl

/-- Only the accesses that arm the timer arm it. -/
theorem armed_exec (s : State) (as : List Access) (b : Access) :
    (s.exec as b).hw.armed ≤ s.hw.armed + (if b.arms then 1 else 0) := by
  cases b with
  | writeLvtt v => exact armed_le fun hs => stopped_writeLvtt hs v
  | orLvtt v => exact armed_le fun hs => stopped_writeLvtt hs _
  | divideBy16 => exact armed_le id
  | rdtsc => exact armed_le id
  | wrmsrDeadline delta => exact Nat.le_add_left_of_le (armed_le_one _)
  | writeTmict v =>
      by_cases hv : v = 0
      · subst hv
        exact armed_le fun hs =>
          ⟨tmcct_writeTmict_zero s.hw, (tscDeadline_writeTmict s.hw 0).trans hs.2⟩
      · have harms : (Access.writeTmict v).arms = true := decide_eq_true hv
        rw [harms]
        exact Nat.le_add_left_of_le (armed_le_one _)

/-- A count sends the interrupt of a counter that stops. -/
theorem irr_add_armed_count (hmode : timerMode h.lvtt ≠ .periodic) :
    h.count.irr.toNat + h.count.armed ≤ h.irr.toNat + h.armed := by
  by_cases h0 : h.tmcct = 0
  · exact Nat.le_of_eq (by rw [count_of_tmcct_eq_zero h0])
  · have harmed : h.armed = 1 := armed_of_not_stopped fun hs => h0 hs.1
    have hdeadline : h.tscDeadline = 0 := h.tscDeadline_eq fun heq => h0 (h.tmcct_eq heq)
    rw [harmed]
    by_cases h1 : h.tmcct = 1
    · have hstopped : h.count.Stopped := by
        refine ⟨?_, (tscDeadline_count h).trans hdeadline⟩
        rw [Timer.count, dif_neg h0]
        show (if h.tmcct ≠ 1 then _ else if _ then _ else _) = _
        rw [if_neg (not_not.2 h1), if_neg hmode]
      have hirr := Bool.toNat_le h.count.irr
      rw [armed_of_stopped hstopped]
      omega
    · have hirr : h.count.irr = h.irr := by
        rw [Timer.count, dif_neg h0]
        show (h.irr || decide (h.tmcct = 1 ∧ _)) = h.irr
        rw [decide_eq_false fun hend => h1 hend.1, Bool.or_false]
      have hle := armed_le_one h.count
      rw [hirr]
      omega

/-- The deadline that is reached is the only one. -/
theorem irr_add_armed_advance (h : Timer) :
    h.advance.irr.toNat + h.advance.armed ≤ h.irr.toNat + h.armed := by
  by_cases hdue : h.due
  · have harmed : h.armed = 1 := armed_of_not_stopped fun hs => hdue.1 hs.2
    have hstopped : h.advance.Stopped := by
      refine ⟨?_, if_pos hdue⟩
      by_cases hmode : timerMode h.lvtt = .tscDeadline
      · exact h.tmcct_eq hmode
      · exact absurd (h.tscDeadline_eq hmode) hdue.1
    have hirr := Bool.toNat_le h.advance.irr
    rw [harmed, armed_of_stopped hstopped]
    omega
  · have hirr : h.advance.irr = h.irr := by simp [Timer.advance, hdue]
    have hle : h.advance.armed ≤ h.armed := armed_le fun hs => ⟨hs.1, tscDeadline_advance hs.2⟩
    rw [hirr]
    omega

theorem setupApicLvtt_oneshot (cfg : Config) (clocks : BitVec 32) (irqen : Bool) :
    ∀ a ∈ setupApicLvtt cfg clocks true irqen, a.Oneshot ∧ a.arms = false := by
  intro a ha
  rw [setupApicLvtt] at ha
  rcases List.mem_cons.1 ha with rfl | ha
  · refine ⟨fun v _ => ?_, rfl⟩
    rw [Access.entry, timerMode_lvttValue]
    cases cfg.hasTscDeadline <;> decide
  · split at ha
    · cases ha
    · obtain rfl := List.mem_singleton.1 ha
      exact ⟨fun v hv => hv, rfl⟩

theorem lapicTimerShutdown_oneshot (cfg : Config) (dummy : Bool) :
    ∀ a ∈ lapicTimerShutdown cfg dummy, a.Oneshot ∧ a.arms = false := by
  intro a ha
  rw [lapicTimerShutdown] at ha
  split at ha
  · cases ha
  · rcases List.mem_pair.1 ha with rfl | rfl
    · refine ⟨fun v hv => ?_, rfl⟩
      rw [Access.entry, timerMode_or_shutdown]
      exact hv
    · exact ⟨fun v hv => hv, rfl⟩

/-- What a function that programs no event does to the timer. -/
theorem accesses_oneshot (cfg : Config) {c : Call} (hok : OneshotOnly s (.call c))
    (hc : (Act.call c).isNextEvent = false) (dummy : Bool) :
    ∀ a ∈ c.accesses cfg dummy, a.Oneshot ∧ a.arms = false := by
  cases c with
  | lapicTimerShutdown => exact lapicTimerShutdown_oneshot cfg dummy
  | lapicTimerSetPeriodic => exact hok.elim
  | lapicTimerSetOneshot =>
      intro a ha
      rw [Call.accesses, lapicTimerSetPeriodicOneshot] at ha
      split at ha
      · cases ha
      · exact setupApicLvtt_oneshot cfg _ true a ha
  | lapicNextEvent delta => cases hc
  | lapicNextDeadline delta => cases hc
  | setupApicLvtt clocks oneshot irqen =>
      obtain rfl : oneshot = true := hok
      exact setupApicLvtt_oneshot cfg clocks irqen

theorem countP_arms_eq_zero {as : List Access} (h : ∀ a ∈ as, a.Oneshot ∧ a.arms = false) :
    as.countP Access.arms = 0 :=
  List.countP_eq_zero.2 fun a ha => by rw [(h a ha).2]; exact Bool.false_ne_true

/-- A call does not set periodic mode, and it arms the timer once at most. -/
theorem Oneshot.accesses (cfg : Config) {c : Call} (hok : OneshotOnly s (.call c)) (dummy : Bool) :
    (∀ a ∈ c.accesses cfg dummy, a.Oneshot) ∧
      (c.accesses cfg dummy).countP Access.arms ≤
        (if (Act.call c).isNextEvent then 1 else 0) := by
  cases hc : (Act.call c).isNextEvent with
  | false =>
      have hall := accesses_oneshot cfg hok hc dummy
      exact ⟨fun a ha => (hall a ha).1, Nat.le_of_eq (countP_arms_eq_zero hall)⟩
  | true =>
      cases c with
      | lapicNextEvent delta =>
          refine ⟨fun a ha v hv => ?_, List.countP_le_length⟩
          exact List.mem_singleton.1 ha ▸ hv
      | lapicNextDeadline delta =>
          refine ⟨fun a ha v hv => ?_, Nat.le_refl 1⟩
          rcases List.mem_pair.1 ha with rfl | rfl <;> exact hv
      | _ => cases hc

theorem Oneshot.exec (hs : Oneshot s) {b : Access} {as : List Access} (htodo : s.todo = b :: as) :
    Oneshot (s.exec as b) ∧ (s.exec as b).events ≤ s.events := by
  refine ⟨⟨?_, fun c hc => hs.todo c ?_⟩, ?_⟩
  · rw [lvtt_exec]
    exact hs.todo b (htodo ▸ List.mem_cons_self ..) _ hs.mode
  · rw [todo_exec] at hc
    exact htodo ▸ List.mem_cons_of_mem b hc
  · have harmed := armed_exec s as b
    rw [State.events, State.events, irr_exec, todo_exec, htodo, List.countP_cons]
    omega

theorem Oneshot.interrupt (hs : Oneshot s) (hidle : s.todo = []) (hirr : s.hw.irr = true) :
    Oneshot (localApicTimerInterrupt cfg s) ∧
      (localApicTimerInterrupt cfg s).events + 1 ≤ s.events := by
  have hall : ∀ a ∈ (localApicTimerInterrupt cfg s).todo, a.Oneshot ∧ a.arms = false := by
    intro a ha
    rw [localApicTimerInterrupt] at ha
    split at ha
    · cases ha
    · exact lapicTimerShutdown_oneshot cfg s.dummy a ha
  refine ⟨⟨hs.mode, fun a ha => (hall a ha).1⟩, ?_⟩
  rw [State.events, State.events, countP_arms_eq_zero hall, hidle, hirr]
  show 0 + s.hw.armed + 0 + 1 ≤ 1 + s.hw.armed + 0
  omega

/-- A broadcast is one interrupt more. -/
theorem events_lapicTimerBroadcast (s : State) :
    (lapicTimerBroadcast s).events ≤ s.events + 1 := by
  have harmed : (lapicTimerBroadcast s).hw.armed = s.hw.armed := rfl
  have htodo : (lapicTimerBroadcast s).todo = s.todo := rfl
  have hirr := Bool.toNat_le (lapicTimerBroadcast s).hw.irr
  rw [State.events, State.events, harmed, htodo]
  omega

theorem countP_isCause (as : List Act) :
    as.countP Act.isCause = as.countP Act.isNextEvent + as.countP Act.isBroadcast := by
  have hdisjoint : ∀ a : Act, a.isNextEvent = true → a.isBroadcast = false := by
    intro a ha
    cases a with
    | lapicTimerBroadcast => cases ha
    | _ => rfl
  induction as with
  | nil => rfl
  | cons a as ih =>
      rw [List.countP_cons, List.countP_cons, List.countP_cons, ih, Act.isCause]
      cases hnext : a.isNextEvent with
      | true => simp [hdisjoint a hnext]; omega
      | false => simp; omega

/-- **What a step does to the events**: only a call that programs one and a broadcast add one, and
an interrupt that is taken uses one up. -/
theorem Oneshot.of_step (hs : Oneshot s) (hok : OneshotOnly s a)
    (hstep : step cfg s a = some s') :
    Oneshot s' ∧ s'.events + (if a.isInterrupt then 1 else 0) ≤
      s.events + (if a.isCause then 1 else 0) := by
  cases stepped_of_step hstep with
  | call c hidle =>
      obtain ⟨hall, harms⟩ := Oneshot.accesses cfg hok s.dummy
      refine ⟨⟨hs.mode, hall⟩, ?_⟩
      have hcause : (Act.call c).isCause = (Act.call c).isNextEvent := Bool.or_false _
      rw [State.events, State.events, hidle, hcause]
      exact Nat.add_le_add_left harms _
  | access htodo => exact hs.exec htodo
  | interrupt hidle hirr => exact hs.interrupt hidle hirr
  | count =>
      refine ⟨⟨?_, hs.todo⟩, Nat.add_le_add_right (irr_add_armed_count hs.mode) _⟩
      rw [lvtt_count]
      exact hs.mode
  | advance => exact ⟨⟨hs.mode, hs.todo⟩, Nat.add_le_add_right (irr_add_armed_advance s.hw) _⟩
  | lapicTimerBroadcast => exact ⟨⟨hs.mode, hs.todo⟩, events_lapicTimerBroadcast s⟩
  | _ => exact ⟨⟨hs.mode, hs.todo⟩, Nat.le_refl _⟩

/-- **Every event causes at most one interrupt**, while the timer is not set up for periodic ones:
on any way from a timer that is stopped, not in periodic mode and without a pending interrupt, no
more interrupts are taken than events were programmed and other CPUs have broadcast, whatever else
is called and however the time passes. -/
theorem interrupts_le_events (cfg : Config) {t : State} {as : List Act}
    (hmode : timerMode s.hw.lvtt ≠ .periodic) (hidle : s.todo = []) (hstopped : s.hw.Stopped)
    (hirr : s.hw.irr = false) (h : Path (step cfg) OneshotOnly s as t) :
    as.countP Act.isInterrupt ≤ as.countP Act.isNextEvent + as.countP Act.isBroadcast := by
  have hs : Oneshot s := ⟨hmode, fun a ha => absurd (hidle ▸ ha) List.not_mem_nil⟩
  have hevents : s.events = 0 := by
    rw [State.events, hirr, armed_of_stopped hstopped, hidle]
    rfl
  have hle : as.countP Act.isInterrupt + t.events ≤ s.events + as.countP Act.isCause :=
    h.countP_add_le_add hs fun s a s' hinv hok hstep => hinv.of_step hok hstep
  rw [hevents, countP_isCause] at hle
  omega

end Events

/-- A CPU of which the timer is stopped, in one-shot mode. -/
def stopped : State :=
  { ticking false true with
    hw :=
      { (ticking false true).hw with
        lvtt := 0xec
        tmcct := 0
        tmcct_eq := fun _ => rfl
        tscDeadline_eq := fun _ => rfl } }

theorem interrupts_le_events_stopped :
    [Act.call (.lapicNextEvent 1), .access, .count, .interrupt].countP Act.isInterrupt ≤
      [Act.call (.lapicNextEvent 1), .access, .count, .interrupt].countP Act.isNextEvent +
        [Act.call (.lapicNextEvent 1), .access, .count, .interrupt].countP Act.isBroadcast :=
  interrupts_le_events exampleConfig (s := stopped) (by decide) rfl ⟨rfl, rfl⟩ rfl
    (.cons trivial rfl (.cons trivial rfl (.cons trivial rfl (.cons trivial rfl .nil))))

end LapicTimer

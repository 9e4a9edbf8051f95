/-
**Clearing the interrupts of a previous kernel.**

A kernel that is started after a crash can find interrupts in the local APIC that were never ended:
some are in service, others are pending and wait behind them.  `apic_pending_intr_clear` reads both
kinds in rounds, and ends as many interrupts as a round has seen in service.  The APIC goes on in
the meantime: at any access a pending interrupt may have come into service, and a new one may have
arrived.

Main definitions:

* `PendingIntr.Env` — what may happen at an access;
* `PendingIntr.apicCheckAndAck`, `PendingIntr.apicPendingIntrClear` — the functions.

Main results:

* `PendingIntr.eois_inService` — **whatever arrives in between, every interrupt that is ended is in
  service**: no end is issued in vain;
* `PendingIntr.ended_of_silent` — a call that returns silently has ended every interrupt that it
  began with;
* `PendingIntr.drained_of_silent` — without new interrupts, such a call leaves nothing pending and
  nothing in service, and has ended every interrupt once;
* `PendingIntr.silent_of_prompt` — **the 512 rounds suffice**, if the APIC brings a pending
  interrupt into service within a round.
-/

import Mathlib.Algebra.Order.BigOperators.Group.Finset
import Mathlib.Data.Finset.Max
import Mathlib.Data.Fintype.Basic

set_option relaxedAutoImplicit false
set_option autoImplicit false

namespace PendingIntr

/-! ### The hardware -/

/-- There are `APIC_IR_BITS` vectors. -/
abbrev Vector := Fin 256

/-- The interrupts that are pending, and those that are in service. -/
structure Ir where
  irr : Finset Vector
  isr : Finset Vector

/-- **What may happen at an access**, which is counted: new interrupts arrive, and pending ones come
into service.  An interrupt in service stays there, and a pending one that is not taken stays
pending. -/
structure Env where
  move : ℕ → Ir → Ir
  isr_subset : ∀ t s, s.isr ⊆ (move t s).isr
  irr_subset : ∀ t s, s.irr \ ((move t s).isr \ s.isr) ⊆ (move t s).irr

/-- No interrupt arrives. -/
structure Env.Quiet (env : Env) : Prop where
  isr_subset : ∀ t s, (env.move t s).isr ⊆ s.isr ∪ s.irr
  irr_eq : ∀ t s, (env.move t s).irr = s.irr \ ((env.move t s).isr \ s.isr)

/-- The local APIC, with the number of accesses and the interrupts that were ended; an end that
finds nothing in service is `none`. -/
structure Hw where
  time : ℕ
  ir : Ir
  eois : List (Option Vector)

/-- What happens before an access. -/
def Hw.tick (env : Env) (h : Hw) : Hw where
  time := h.time + 1
  ir := env.move h.time h.ir
  eois := h.eois

/-- The end of the interrupt in service that has the highest priority. -/
def Hw.eoi (h : Hw) : Hw :=
  if hne : h.ir.isr.Nonempty then
    { h with
      ir := { h.ir with isr := h.ir.isr.erase (h.ir.isr.max' hne) }
      eois := h.eois ++ [some (h.ir.isr.max' hne)] }
  else { h with eois := h.eois ++ [none] }

/-! ### The kernel -/

/-- `union apic_ir`, as its registers. -/
abbrev ApicIr := Fin 8 → BitVec 32

/-- A register with the vectors from `32 * i` on. -/
def word (s : Finset Vector) (i : Fin 8) : BitVec 32 :=
  (BitVec.ofBoolListLE
    (List.ofFn fun b : Fin 32 => decide ((⟨32 * i + b, by omega⟩ : Vector) ∈ s))).cast
      List.length_ofFn

/-- A bit of the map, which lies over the registers. -/
def ApicIr.bit (r : ApicIr) (v : Vector) : Bool := (r ⟨v / 32, by omega⟩).getLsbD (v % 32)

/-- `!bitmap_empty(map, APIC_IR_BITS)` -/
def ApicIr.any (r : ApicIr) : Bool := (List.finRange 256).any r.bit

/-- `regs[i] = apic_read(reg + i * 0x10)`, for the indices of a list. -/
def readRegs (env : Env) (reg : Ir → Finset Vector) :
    List (Fin 8) → ApicIr → Hw → ApicIr × Hw
  | [], r, h => (r, h)
  | i :: is, r, h =>
      readRegs env reg is (Function.update r i (word (reg (h.tick env).ir) i)) (h.tick env)

/-- `ack_APIC_irq` -/
def ackApicIrq (env : Env) (h : Hw) : Hw := (h.tick env).eoi

/-- `for_each_set_bit(bit, map, APIC_IR_BITS) ack_APIC_irq();`, for the bits of a list. -/
def ackSetBits (env : Env) (r : ApicIr) : List Vector → Hw → Hw
  | [], h => h
  | v :: vs, h => ackSetBits env r vs (if r.bit v then ackApicIrq env h else h)

/-- What `apic_check_and_ack` returns and leaves. -/
structure Round where
  again : Bool
  irr : ApicIr
  isr : ApicIr
  hw : Hw

/-- `apic_check_and_ack` -/
def apicCheckAndAck (env : Env) (irr isr : ApicIr) (h : Hw) : Round :=
  let (irr, h) := readRegs env Ir.irr (List.finRange 8) irr h
  let (isr, h) := readRegs env Ir.isr (List.finRange 8) isr h
  if isr.any then
    -- an ACK per set bit
    { again := true, irr := irr, isr := isr, hw := ackSetBits env isr (List.finRange 256) h }
  else { again := irr.any, irr := irr, isr := isr, hw := h }

/-- The loop of `apic_pending_intr_clear`, for some more rounds; what it returns is the content of
the warning, if there is one. -/
def clearLoop (env : Env) : ℕ → ApicIr → ApicIr → Hw → Option (ApicIr × ApicIr) × Hw
  | 0, irr, isr, h => (some (irr, isr), h)
  | n + 1, irr, isr, h =>
      let round := apicCheckAndAck env irr isr h
      if round.again then clearLoop env n round.irr round.isr round.hw else (none, round.hw)

/-- `apic_pending_intr_clear` -/
def apicPendingIntrClear (env : Env) (irr isr : ApicIr) (h : Hw) :
    Option (ApicIr × ApicIr) × Hw :=
  clearLoop env 512 irr isr h

/-! ### Accesses -/

section Access

variable {env : Env} {h : Hw} {m n : ℕ}

theorem eois_ticks (env : Env) (h : Hw) (n : ℕ) : ((Hw.tick env)^[n] h).eois = h.eois := by
  induction n with
  | zero => rfl
  | succ n ih =>
      rw [Function.iterate_succ_apply']
      exact ih

/-- An interrupt stays in service until it is ended. -/
theorem isr_subset_ticks (env : Env) (h : Hw) (hmn : m ≤ n) :
    ((Hw.tick env)^[m] h).ir.isr ⊆ ((Hw.tick env)^[n] h).ir.isr := by
  induction n, hmn using Nat.le_induction with
  | base => exact Finset.Subset.refl _
  | succ n _ ih =>
      rw [Function.iterate_succ_apply']
      exact ih.trans (env.isr_subset ..)

/-- Nothing becomes pending in a quiet environment. -/
theorem irr_ticks_subset (hquiet : env.Quiet) (h : Hw) (hmn : m ≤ n) :
    ((Hw.tick env)^[n] h).ir.irr ⊆ ((Hw.tick env)^[m] h).ir.irr := by
  induction n, hmn using Nat.le_induction with
  | base => exact Finset.Subset.refl _
  | succ n _ ih =>
      rw [Function.iterate_succ_apply']
      refine Finset.Subset.trans ?_ ih
      show (env.move _ _).irr ⊆ _
      rw [hquiet.irr_eq]
      exact Finset.sdiff_subset

/-- What is pending stays pending or has come into service. -/
theorem mem_ticks_of_irr (env : Env) (h : Hw) (n : ℕ) {v : Vector} (hv : v ∈ h.ir.irr) :
    v ∈ ((Hw.tick env)^[n] h).ir.irr ∨ v ∈ ((Hw.tick env)^[n] h).ir.isr := by
  induction n with
  | zero => exact Or.inl hv
  | succ n ih =>
      rw [Function.iterate_succ_apply']
      rcases ih with hirr | hisr
      · by_cases hnew : v ∈ (env.move ((Hw.tick env)^[n] h).time ((Hw.tick env)^[n] h).ir).isr
        · exact Or.inr hnew
        · refine Or.inl (env.irr_subset _ _ (Finset.mem_sdiff.2 ⟨hirr, fun hmem => ?_⟩))
          exact hnew (Finset.mem_sdiff.1 hmem).1
      · exact Or.inr (env.isr_subset _ _ hisr)

/-- What is neither pending nor in service in a quiet environment stays so. -/
theorem not_mem_ticks (hquiet : env.Quiet) (h : Hw) (hmn : m ≤ n) {v : Vector}
    (hirr : v ∉ ((Hw.tick env)^[m] h).ir.irr) (hisr : v ∉ ((Hw.tick env)^[m] h).ir.isr) :
    v ∉ ((Hw.tick env)^[n] h).ir.isr := by
  induction n, hmn using Nat.le_induction with
  | base => exact hisr
  | succ n hmn ih =>
      rw [Function.iterate_succ_apply']
      intro hmem
      rcases Finset.mem_union.1 (hquiet.isr_subset _ _ hmem) with hold | hpend
      · exact ih hold
      · exact hirr (irr_ticks_subset hquiet h hmn hpend)

/-- All interrupts that were pending, are in service or were ended. -/
def Hw.total (h : Hw) : Multiset Vector :=
  h.ir.irr.val + h.ir.isr.val + (h.eois.filterMap id : List Vector)

theorem total_tick (hquiet : env.Quiet) (h : Hw) : (h.tick env).total = h.total := by
  have hirr : (h.tick env).ir.irr.val
      = h.ir.irr.val - ((h.tick env).ir.isr \ h.ir.isr).val := by
    rw [← Finset.sdiff_val]
    exact congrArg Finset.val (hquiet.irr_eq h.time h.ir)
  have hle : ((h.tick env).ir.isr \ h.ir.isr).val ≤ h.ir.irr.val := by
    refine Finset.val_le_iff.2 fun v hv => ?_
    obtain ⟨hnew, hold⟩ := Finset.mem_sdiff.1 hv
    exact (Finset.mem_union.1 (hquiet.isr_subset _ _ hnew)).resolve_left hold
  have hisr : (h.tick env).ir.isr.val
      = ((h.tick env).ir.isr \ h.ir.isr).val + h.ir.isr.val := by
    rw [Finset.sdiff_val]
    exact (tsub_add_cancel_of_le (Finset.val_le_iff.2 (env.isr_subset _ _))).symm
  have hsum : (h.tick env).ir.irr.val + (h.tick env).ir.isr.val
      = h.ir.irr.val + h.ir.isr.val := by
    rw [hirr, hisr, ← add_assoc, tsub_add_cancel_of_le hle]
  rw [Hw.total, hsum]
  rfl

theorem total_eoi (h : Hw) : h.eoi.total = h.total := by
  unfold Hw.eoi
  split
  next hne =>
    have hcons := Multiset.cons_erase (Finset.max'_mem h.ir.isr hne)
    simp only [Hw.total, Finset.erase_val, List.filterMap_append, ← Multiset.coe_add]
    nth_rewrite 2 [← hcons]
    rw [show ([some (h.ir.isr.max' hne)].filterMap id : List Vector) = [h.ir.isr.max' hne] from rfl,
      Multiset.coe_singleton, ← Multiset.singleton_add]
    ac_rfl
  next => simp [Hw.total, List.filterMap_append]

/-- Where an interrupt is that was pending or in service once. -/
def Hw.Has (h : Hw) (v : Vector) : Prop := v ∈ h.ir.irr ∨ v ∈ h.ir.isr ∨ some v ∈ h.eois

theorem Hw.Has.tick {h : Hw} {v : Vector} (env : Env) (hv : h.Has v) : (h.tick env).Has v := by
  rcases hv with hirr | hisr | heoi
  · rcases mem_ticks_of_irr env h 1 hirr with hpend | hserv
    · exact Or.inl hpend
    · exact Or.inr (Or.inl hserv)
  · exact Or.inr (Or.inl (env.isr_subset _ _ hisr))
  · exact Or.inr (Or.inr heoi)

theorem Hw.Has.eoi {h : Hw} {v : Vector} (hv : h.Has v) : h.eoi.Has v := by
  unfold Hw.eoi
  split
  next hne =>
    rcases hv with hirr | hisr | heoi
    · exact Or.inl hirr
    · by_cases hmax : v = h.ir.isr.max' hne
      · exact Or.inr (Or.inr (List.mem_append_right _ (hmax ▸ List.mem_singleton_self _)))
      · exact Or.inr (Or.inl (Finset.mem_erase.2 ⟨hmax, hisr⟩))
    · exact Or.inr (Or.inr (List.mem_append_left _ heoi))
  next =>
    exact hv.imp_right (Or.imp_right (List.mem_append_left _))

end Access

/-! ### Reading the registers -/

section Read

theorem bit_word (s : Finset Vector) (r : ApicIr) (v : Vector)
    (h : r ⟨v / 32, by omega⟩ = word s ⟨v / 32, by omega⟩) : r.bit v = true ↔ v ∈ s := by
  have hmod : v.val % 32 < 32 := Nat.mod_lt _ (by decide)
  rw [ApicIr.bit, h, word, BitVec.getLsbD_cast, BitVec.getLsbD_ofBoolListLE,
    ← List.getElem_eq_getD (h := by rwa [List.length_ofFn]) false, List.getElem_ofFn,
    decide_eq_true_iff]
  have hv : (⟨32 * (v / 32) + v % 32, by omega⟩ : Vector) = v := Fin.ext (Nat.div_add_mod v 32)
  exact iff_of_eq (congrArg (· ∈ s) hv)

theorem any_iff (r : ApicIr) : r.any = true ↔ ∃ v, r.bit v = true := by
  rw [ApicIr.any, List.any_eq_true]
  exact ⟨fun ⟨v, _, hv⟩ => ⟨v, hv⟩, fun ⟨v, hv⟩ => ⟨v, List.mem_finRange v, hv⟩⟩

/-- Each register of the list is read at some access, and nothing else happens. -/
theorem readRegs_spec (env : Env) (reg : Ir → Finset Vector) (is : List (Fin 8)) (r : ApicIr)
    (h : Hw) :
    (readRegs env reg is r h).2 = (Hw.tick env)^[is.length] h ∧
      ∀ i, (i ∉ is → (readRegs env reg is r h).1 i = r i) ∧
        (i ∈ is → ∃ n, n < is.length ∧
          (readRegs env reg is r h).1 i = word (reg ((Hw.tick env)^[n + 1] h).ir) i) := by
  induction is generalizing r h with
  | nil => exact ⟨rfl, fun i => ⟨fun _ => rfl, fun hi => absurd hi List.not_mem_nil⟩⟩
  | cons j is ih =>
      obtain ⟨hend, hregs⟩ := ih (Function.update r j (word (reg (h.tick env).ir) j)) (h.tick env)
      refine ⟨hend, fun i => ⟨fun hi => ?_, fun hi => ?_⟩⟩
      · rw [List.mem_cons, not_or] at hi
        exact ((hregs i).1 hi.2).trans (Function.update_of_ne hi.1 ..)
      · by_cases hlater : i ∈ is
        · obtain ⟨n, hn, heq⟩ := (hregs i).2 hlater
          exact ⟨n + 1, Nat.succ_lt_succ hn, heq⟩
        · have hij : i = j := (List.mem_cons.1 hi).resolve_right hlater
          subst hij
          exact ⟨0, Nat.succ_pos _, ((hregs i).1 hlater).trans (Function.update_self ..)⟩

end Read

/-! ### A round -/

section Round

variable {env : Env} {irr isr r : ApicIr} {h : Hw}

/-- The vectors of a map. -/
def ApicIr.vectors (r : ApicIr) : Finset Vector := Finset.univ.filter fun v => r.bit v = true

theorem mem_vectors (r : ApicIr) (v : Vector) : v ∈ r.vectors ↔ r.bit v = true := by
  simp [ApicIr.vectors]

theorem countP_bit (r : ApicIr) : (List.finRange 256).countP r.bit = r.vectors.card := by
  rw [List.countP_eq_length_filter,
    ← List.toFinset_card_of_nodup ((List.nodup_finRange 256).filter _)]
  congr 1
  ext v
  rw [List.mem_toFinset, List.mem_filter, mem_vectors]
  exact and_iff_right (List.mem_finRange v)

theorem any_iff_vectors (r : ApicIr) : r.any = true ↔ r.vectors.Nonempty := by
  rw [any_iff]
  exact exists_congr fun v => (mem_vectors r v).symm

/-- An end of an interrupt for each set bit. -/
theorem ackSetBits_eq (env : Env) (r : ApicIr) (vs : List Vector) (h : Hw) :
    ackSetBits env r vs h = (ackApicIrq env)^[vs.countP r.bit] h := by
  induction vs generalizing h with
  | nil => rfl
  | cons v vs ih =>
      rw [ackSetBits, ih, List.countP_cons]
      cases r.bit v with
      | false => rfl
      | true => exact (Function.iterate_succ_apply _ _ _).symm

/-- Each bit of a map was read at one of the eight accesses. -/
theorem bit_readRegs (env : Env) (reg : Ir → Finset Vector) (r : ApicIr) (h : Hw) (v : Vector) :
    ∃ n, n < 8 ∧ ((readRegs env reg (List.finRange 8) r h).1.bit v = true ↔
      v ∈ reg ((Hw.tick env)^[n + 1] h).ir) := by
  obtain ⟨n, hn, heq⟩ :=
    ((readRegs_spec env reg (List.finRange 8) r h).2 ⟨v / 32, by omega⟩).2
      (List.mem_finRange _)
  exact ⟨n, hn, bit_word _ _ _ heq⟩

/-- **What a round sees and does**: each pending bit is read at one of the first eight accesses,
each bit in service at one of the next eight, and as many interrupts are ended as were seen in
service. -/
structure Seen (env : Env) (h : Hw) (round : Round) : Prop where
  irr : ∀ v, ∃ n, n < 8 ∧ (v ∈ round.irr.vectors ↔ v ∈ ((Hw.tick env)^[n + 1] h).ir.irr)
  isr : ∀ v, ∃ n, n < 8 ∧ (v ∈ round.isr.vectors ↔ v ∈ ((Hw.tick env)^[8 + n + 1] h).ir.isr)
  again : round.again = true ↔ round.isr.vectors.Nonempty ∨ round.irr.vectors.Nonempty
  hw : round.hw = (ackApicIrq env)^[round.isr.vectors.card] ((Hw.tick env)^[16] h)

theorem seen_apicCheckAndAck (env : Env) (irr isr : ApicIr) (h : Hw) :
    Seen env h (apicCheckAndAck env irr isr h) := by
  have h1 : (readRegs env Ir.irr (List.finRange 8) irr h).2 = (Hw.tick env)^[8] h :=
    (readRegs_spec ..).1
  have h2 : (readRegs env Ir.isr (List.finRange 8) isr ((Hw.tick env)^[8] h)).2
      = (Hw.tick env)^[16] h := (readRegs_spec ..).1
  set irr' := (readRegs env Ir.irr (List.finRange 8) irr h).1 with hirr'
  set isr' := (readRegs env Ir.isr (List.finRange 8) isr ((Hw.tick env)^[8] h)).1 with hisr'
  have heq : apicCheckAndAck env irr isr h
      = ⟨isr'.any || irr'.any, irr', isr',
          (ackApicIrq env)^[isr'.vectors.card] ((Hw.tick env)^[16] h)⟩ := by
    simp only [apicCheckAndAck, h1, h2, ackSetBits_eq, countP_bit, ← hirr', ← hisr']
    by_cases hany : isr'.any = true
    · rw [if_pos hany, hany, Bool.true_or]
    · have hempty : isr'.vectors = ∅ := by
        rwa [any_iff_vectors, Finset.not_nonempty_iff_eq_empty] at hany
      rw [if_neg hany, Bool.eq_false_of_not_eq_true hany, Bool.false_or, hempty]
      rfl
  rw [heq]
  refine ⟨fun v => ?_, fun v => ?_, ?_, rfl⟩
  · obtain ⟨n, hn, hbit⟩ := bit_readRegs env Ir.irr irr h v
    exact ⟨n, hn, (mem_vectors _ v).trans hbit⟩
  · obtain ⟨n, hn, hbit⟩ := bit_readRegs env Ir.isr isr ((Hw.tick env)^[8] h) v
    rw [← Function.iterate_add_apply, show n + 1 + 8 = 8 + n + 1 by omega] at hbit
    exact ⟨n, hn, (mem_vectors _ v).trans hbit⟩
  · rw [Bool.or_eq_true, any_iff_vectors, any_iff_vectors]

namespace Seen

variable {round : Round}

/-- What a round sees in service is in service when it comes to end it. -/
theorem vectors_isr_subset (hs : Seen env h round) :
    round.isr.vectors ⊆ ((Hw.tick env)^[16] h).ir.isr := by
  intro v hv
  obtain ⟨n, hn, hiff⟩ := hs.isr v
  exact isr_subset_ticks env h (by omega) (hiff.1 hv)

/-- What is in service when a round begins is seen. -/
theorem subset_vectors_isr (hs : Seen env h round) : h.ir.isr ⊆ round.isr.vectors := by
  intro v hv
  obtain ⟨n, hn, hiff⟩ := hs.isr v
  exact hiff.2 (isr_subset_ticks env h (Nat.zero_le _) hv)

/-- What is pending when a round begins is seen: it may come into service after its pending bit
could have been read, but then before its other bit is. -/
theorem irr_subset_vectors (hs : Seen env h round) :
    h.ir.irr ⊆ round.irr.vectors ∪ round.isr.vectors := by
  intro v hv
  obtain ⟨n, hn, hirr⟩ := hs.irr v
  obtain ⟨m, hm, hisr⟩ := hs.isr v
  rcases mem_ticks_of_irr env h (n + 1) hv with hpend | hserv
  · exact Finset.mem_union_left _ (hirr.2 hpend)
  · exact Finset.mem_union_right _ (hisr.2 (isr_subset_ticks env h (by omega) hserv))

/-- A round that returns `false` has found nothing, and nothing was there when it began. -/
theorem empty_of_not_again (hs : Seen env h round) (hagain : round.again = false) :
    round.irr.vectors = ∅ ∧ round.isr.vectors = ∅ ∧ h.ir.irr = ∅ ∧ h.ir.isr = ∅ ∧
      round.hw = (Hw.tick env)^[16] h := by
  have hnone : ¬(round.isr.vectors.Nonempty ∨ round.irr.vectors.Nonempty) := by
    rw [← hs.again, hagain]
    exact Bool.false_ne_true
  rw [not_or, Finset.not_nonempty_iff_eq_empty, Finset.not_nonempty_iff_eq_empty] at hnone
  obtain ⟨hisr, hirr⟩ := hnone
  refine ⟨hirr, hisr, ?_, ?_, ?_⟩
  · have hsub := hs.irr_subset_vectors
    rwa [hirr, hisr, Finset.empty_union, Finset.subset_empty] at hsub
  · have hsub := hs.subset_vectors_isr
    rwa [hisr, Finset.subset_empty] at hsub
  · rw [hs.hw, hisr]
    rfl

/-- Without new interrupts, nothing is left after a round that found nothing. -/
theorem empty_hw (hs : Seen env h round) (hquiet : env.Quiet)
    (hagain : round.again = false) : round.hw.ir.irr = ∅ ∧ round.hw.ir.isr = ∅ := by
  obtain ⟨-, -, hirr, hisr, hticks⟩ := hs.empty_of_not_again hagain
  rw [hticks]
  have hpend : ((Hw.tick env)^[0] h).ir.irr = ∅ := hirr
  constructor
  · rw [← Finset.subset_empty, ← hpend]
    exact irr_ticks_subset hquiet h (Nat.zero_le 16)
  · refine Finset.eq_empty_of_forall_notMem fun v => ?_
    refine not_mem_ticks hquiet h (Nat.zero_le 16) ?_ ?_
    · rw [hpend]
      exact Finset.notMem_empty v
    · show v ∉ h.ir.isr
      rw [hisr]
      exact Finset.notMem_empty v

end Seen

end Round

/-! ### Ends of interrupts -/

section Ends

variable {env : Env} {h : Hw}

/-- An end with something in service ends one interrupt. -/
theorem eois_ackApicIrq (env : Env) (h : Hw) (hne : h.ir.isr.Nonempty) :
    ∃ v, (ackApicIrq env h).eois = h.eois ++ [some v] ∧
      (ackApicIrq env h).ir.isr.card + 1 = (h.tick env).ir.isr.card := by
  have hne' : (h.tick env).ir.isr.Nonempty := hne.mono (env.isr_subset ..)
  rw [ackApicIrq, Hw.eoi, dif_pos hne']
  refine ⟨_, rfl, ?_⟩
  exact Finset.card_erase_add_one (Finset.max'_mem _ hne')

/-- No more ends than interrupts in service: each ends one. -/
theorem eois_acks (env : Env) {k : ℕ} {h : Hw} (hk : k ≤ h.ir.isr.card) :
    ∃ l : List Vector, l.length = k ∧ ((ackApicIrq env)^[k] h).eois = h.eois ++ l.map some := by
  induction k generalizing h with
  | zero => exact ⟨[], rfl, (List.append_nil _).symm⟩
  | succ k ih =>
      obtain ⟨v, hv, hcard⟩ := eois_ackApicIrq env h (Finset.card_pos.1 (by omega))
      have hgrow : h.ir.isr.card ≤ (h.tick env).ir.isr.card :=
        Finset.card_le_card (env.isr_subset ..)
      obtain ⟨l, hl, heois⟩ := ih (h := ackApicIrq env h) (by omega)
      refine ⟨v :: l, congrArg (· + 1) hl, ?_⟩
      rw [Function.iterate_succ_apply, heois, hv, List.append_assoc]
      rfl

/-- **The ends of a round**: one interrupt for each that was seen. -/
theorem Seen.eois {round : Round} (hs : Seen env h round) :
    ∃ l : List Vector, l.length = round.isr.vectors.card ∧
      round.hw.eois = h.eois ++ l.map some := by
  obtain ⟨l, hl, heois⟩ := eois_acks env (Finset.card_le_card hs.vectors_isr_subset)
  rw [eois_ticks] at heois
  exact ⟨l, hl, by rw [hs.hw, heois]⟩

end Ends

/-! ### The loop -/

section Loop

variable {env : Env} {P : Hw → Prop}

/-- What every access keeps, a round keeps. -/
theorem Seen.keeps {h : Hw} {round : Round} (hs : Seen env h round)
    (htick : ∀ h, P h → P (h.tick env)) (heoi : ∀ h, P h → P h.eoi) (hP : P h) : P round.hw := by
  have hticks : P ((Hw.tick env)^[16] h) :=
    Function.Iterate.rec P hP htick 16
  rw [hs.hw]
  exact Function.Iterate.rec P hticks (fun h hh => heoi _ (htick h hh)) _

/-- What every round keeps, the loop keeps; and a loop without a warning has ended with a round that
found nothing. -/
theorem clearLoop_keeps (hround : ∀ h round, Seen env h round → P h → P round.hw) (n : ℕ)
    (irr isr : ApicIr) {h : Hw} (hP : P h) :
    P (clearLoop env n irr isr h).2 ∧ ((clearLoop env n irr isr h).1 = none →
      ∃ h' round, P h' ∧ Seen env h' round ∧ round.again = false ∧
        (clearLoop env n irr isr h).2 = round.hw) := by
  induction n generalizing irr isr h with
  | zero => exact ⟨hP, fun hnone => absurd hnone (Option.some_ne_none _)⟩
  | succ n ih =>
      have hs := seen_apicCheckAndAck env irr isr h
      have hnext := hround h _ hs hP
      rw [clearLoop]
      cases hagain : (apicCheckAndAck env irr isr h).again with
      | true => exact ih _ _ hnext
      | false => exact ⟨hnext, fun _ => ⟨h, _, hP, hs, hagain, rfl⟩⟩

end Loop

/-! ### How many rounds it takes -/

section Rounds

variable {env : Env}

/-- If something is pending and nothing is in service, something comes into service within the 16
accesses of a round. -/
def Env.Prompt (env : Env) : Prop :=
  ∀ h : Hw, h.ir.isr = ∅ → h.ir.irr.Nonempty → ((Hw.tick env)^[16] h).ir.isr.Nonempty

/-- The interrupts that are left when nothing arrives: those that were seen have been ended. -/
theorem Seen.card {h : Hw} {round : Round} (hs : Seen env h round) (hquiet : env.Quiet) :
    round.hw.ir.irr.card + round.hw.ir.isr.card + round.isr.vectors.card
      = h.ir.irr.card + h.ir.isr.card := by
  have htotal : round.hw.total = h.total :=
    hs.keeps (P := fun h' => h'.total = h.total) (fun h' hh => (total_tick hquiet h').trans hh)
      (fun h' hh => (total_eoi h').trans hh) rfl
  obtain ⟨l, hl, heois⟩ := hs.eois
  have hcard := congrArg Multiset.card htotal
  simp only [Hw.total, heois, List.filterMap_append, List.filterMap_map, Multiset.card_add,
    Multiset.coe_card, Finset.card_val, List.length_append, Function.id_comp, List.filterMap_some]
    at hcard
  omega

/-- The rounds that an APIC with these interrupts takes at most: one that ends something and one
that waits for each pending interrupt, one for those in service, and one that finds nothing. -/
def Hw.rounds (h : Hw) : ℕ := 2 * h.ir.irr.card + (if h.ir.isr = ∅ then 0 else 1) + 1

theorem Seen.rounds_lt {h : Hw} {round : Round} (hs : Seen env h round) (hquiet : env.Quiet)
    (hprompt : env.Prompt) (hagain : round.again = true) : round.hw.rounds < h.rounds := by
  have hcard := hs.card hquiet
  have hseen : h.ir.isr.card ≤ round.isr.vectors.card :=
    Finset.card_le_card hs.subset_vectors_isr
  rw [Hw.rounds, Hw.rounds]
  simp only [← Finset.card_eq_zero]
  by_cases hidle : round.isr.vectors = ∅
  · -- nothing was ended, so something has come into service
    have hnone : h.ir.isr = ∅ := by
      rw [← Finset.subset_empty, ← hidle]
      exact hs.subset_vectors_isr
    have hpend : h.ir.irr.Nonempty := by
      have hsome := hs.again.1 hagain
      rw [hidle] at hsome
      obtain ⟨v, hv⟩ := hsome.resolve_left Finset.not_nonempty_empty
      obtain ⟨n, -, hiff⟩ := hs.irr v
      exact ⟨v, irr_ticks_subset hquiet h (Nat.zero_le _) (hiff.1 hv)⟩
    have hcame : round.hw.ir.isr.Nonempty := by
      rw [hs.hw, hidle]
      exact hprompt h hnone hpend
    have hpos := Finset.card_pos.2 hcame
    rw [hidle, Finset.card_empty] at hcard
    rw [hnone, Finset.card_empty] at hcard ⊢
    split <;> omega
  · have hpos := Finset.card_pos.2 (Finset.nonempty_iff_ne_empty.2 hidle)
    split <;> split <;> omega

theorem clearLoop_silent (hquiet : env.Quiet) (hprompt : env.Prompt) (n : ℕ) (irr isr : ApicIr)
    (h : Hw) (hn : h.rounds ≤ n) : (clearLoop env n irr isr h).1 = none := by
  induction n generalizing irr isr h with
  | zero => exact absurd hn (Nat.not_succ_le_zero _)
  | succ n ih =>
      have hs := seen_apicCheckAndAck env irr isr h
      rw [clearLoop]
      cases hagain : (apicCheckAndAck env irr isr h).again with
      | false => rfl
      | true =>
          have hlt := hs.rounds_lt hquiet hprompt hagain
          exact ih _ _ _ (by omega)

end Rounds

/-! ### An APIC -/

/-- The greatest pending vector comes into service when nothing else is. -/
def Ir.promote (s : Ir) : Ir :=
  if hs : s.irr.Nonempty then
    if s.isr = ∅ then { irr := s.irr.erase (s.irr.max' hs), isr := {s.irr.max' hs} } else s
  else s

theorem promote_cases (s : Ir) :
    s.promote = s ∨ ∃ v ∈ s.irr, s.isr = ∅ ∧ s.promote = { irr := s.irr.erase v, isr := {v} } := by
  unfold Ir.promote
  split
  next hs =>
    split
    next hnone => exact Or.inr ⟨_, Finset.max'_mem _ hs, hnone, rfl⟩
    next => exact Or.inl rfl
  next => exact Or.inl rfl

theorem promote_irr (s : Ir) : s.promote.irr = s.irr \ (s.promote.isr \ s.isr) := by
  rcases promote_cases s with heq | ⟨v, _, hnone, heq⟩
  · rw [heq, Finset.sdiff_self, Finset.sdiff_empty]
  · rw [heq, hnone, Finset.sdiff_empty, Finset.sdiff_singleton_eq_erase]

/-- Nothing arrives, and the pending interrupts come into service one by one. -/
def byPriority : Env where
  move _ s := s.promote
  isr_subset t s := by
    rcases promote_cases s with heq | ⟨v, _, hnone, heq⟩
    · rw [heq]
    · rw [hnone]
      exact Finset.empty_subset _
  irr_subset t s := (promote_irr s).symm.subset

theorem quiet_byPriority : byPriority.Quiet where
  isr_subset t s := by
    show s.promote.isr ⊆ _
    rcases promote_cases s with heq | ⟨v, hv, _, heq⟩
    · rw [heq]
      exact Finset.subset_union_left
    · rw [heq]
      exact Finset.singleton_subset_iff.2 (Finset.mem_union_right _ hv)
  irr_eq _ s := promote_irr s

theorem prompt_byPriority : byPriority.Prompt := by
  intro h hnone hpend
  refine Finset.Nonempty.mono (isr_subset_ticks byPriority h (by omega : 1 ≤ 16)) ?_
  show h.ir.promote.isr.Nonempty
  rw [Ir.promote, dif_pos hpend, if_pos hnone]
  exact Finset.singleton_nonempty _

/-- One timer interrupt is in service, another and a second vector are pending. -/
def crashed : Ir where
  irr := {0x31, 0x22}
  isr := {0x31}

theorem silent_crashed (irr isr : ApicIr) :
    (apicPendingIntrClear byPriority irr isr ⟨0, crashed, []⟩).1 = none :=
  clearLoop_silent quiet_byPriority prompt_byPriority 512 irr isr _ (by decide)

/-! ### The function -/

section Function

variable {env : Env}

/-- **No end is issued in vain.**  Whatever comes into service and whatever arrives in between,
every end that `apic_pending_intr_clear` issues finds an interrupt in service. -/
theorem eois_inService (env : Env) (irr isr : ApicIr) (h : Hw) :
    ∃ l : List Vector, (apicPendingIntrClear env irr isr h).2.eois = h.eois ++ l.map some := by
  refine (clearLoop_keeps (P := fun h' => ∃ l : List Vector, h'.eois = h.eois ++ l.map some)
    ?_ 512 irr isr ⟨[], (List.append_nil _).symm⟩).1
  rintro h' round hs ⟨l, hl⟩
  obtain ⟨l', -, heois⟩ := hs.eois
  exact ⟨l ++ l', by rw [heois, hl, List.map_append, List.append_assoc]⟩

/-- **A call without a warning has ended every interrupt that it began with**, whatever arrives in
between. -/
theorem ended_of_silent (env : Env) (irr isr : ApicIr) (t : ℕ) (s : Ir)
    (hsilent : (apicPendingIntrClear env irr isr ⟨t, s, []⟩).1 = none) :
    ∀ v ∈ s.irr ∪ s.isr, some v ∈ (apicPendingIntrClear env irr isr ⟨t, s, []⟩).2.eois := by
  intro v hv
  have hstart : Hw.Has ⟨t, s, []⟩ v :=
    (Finset.mem_union.1 hv).imp_right Or.inl
  obtain ⟨h', round, hhas, hs, hagain, hend⟩ :=
    (clearLoop_keeps (P := fun h => h.Has v)
      (fun h round hs => hs.keeps (P := fun h => h.Has v) (fun _ hh => Hw.Has.tick env hh)
        fun _ hh => Hw.Has.eoi hh) 512 irr isr hstart).2 hsilent
  -- nothing was there when the last round began
  obtain ⟨-, -, hirr, hisr, hticks⟩ := hs.empty_of_not_again hagain
  have heois : some v ∈ h'.eois := by
    rcases hhas with hpend | hserv | heoi
    · exact absurd (hirr ▸ hpend) (Finset.notMem_empty v)
    · exact absurd (hisr ▸ hserv) (Finset.notMem_empty v)
    · exact heoi
  show some v ∈ (clearLoop env 512 irr isr ⟨t, s, []⟩).2.eois
  rw [hend, hticks, eois_ticks]
  exact heois

theorem ended_of_silent_crashed : some 0x22 ∈
    (apicPendingIntrClear byPriority (fun _ => 0) (fun _ => 0) ⟨0, crashed, []⟩).2.eois :=
  ended_of_silent byPriority _ _ 0 crashed (silent_crashed _ _) 0x22 (by decide)

/-- **A call without a warning has drained the APIC**, if nothing arrives: nothing is pending or in
service any more, and every interrupt was ended once. -/
theorem drained_of_silent (env : Env) (hquiet : env.Quiet) (irr isr : ApicIr) (t : ℕ) (s : Ir)
    (hsilent : (apicPendingIntrClear env irr isr ⟨t, s, []⟩).1 = none) :
    ∃ l : List Vector,
      (apicPendingIntrClear env irr isr ⟨t, s, []⟩).2.eois = l.map some ∧
      (l : Multiset Vector) = s.irr.val + s.isr.val ∧
      (apicPendingIntrClear env irr isr ⟨t, s, []⟩).2.ir.irr = ∅ ∧
      (apicPendingIntrClear env irr isr ⟨t, s, []⟩).2.ir.isr = ∅ := by
  set start : Hw := ⟨t, s, []⟩ with hstart
  have hkeep : ∀ h round, Seen env h round →
      (h.total = start.total ∧ ∃ l : List Vector, h.eois = l.map some) →
      (round.hw.total = start.total ∧ ∃ l : List Vector, round.hw.eois = l.map some) := by
    rintro h round hs ⟨htotal, l, hl⟩
    obtain ⟨l', -, heois⟩ := hs.eois
    refine ⟨?_, l ++ l', by rw [heois, hl, List.map_append]⟩
    exact hs.keeps (P := fun h => h.total = start.total)
      (fun h hh => (total_tick hquiet h).trans hh) (fun h hh => (total_eoi h).trans hh) htotal
  obtain ⟨⟨htotal, l, hl⟩, hlast⟩ :=
    clearLoop_keeps (P := fun h => h.total = start.total ∧ ∃ l : List Vector, h.eois = l.map some)
      hkeep 512 irr isr ⟨rfl, [], rfl⟩
  obtain ⟨h', round, -, hs, hagain, hend⟩ := hlast hsilent
  obtain ⟨hirr, hisr⟩ := hs.empty_hw hquiet hagain
  rw [← hend] at hirr hisr
  refine ⟨l, hl, ?_, hirr, hisr⟩
  have hended : (clearLoop env 512 irr isr start).2.total = (l : Multiset Vector) := by
    rw [Hw.total, hirr, hisr, hl, List.filterMap_map]
    simp
  rw [← hended, htotal]
  simp [Hw.total, hstart]

theorem drained_of_silent_crashed :
    ∃ l : List Vector,
      (apicPendingIntrClear byPriority (fun _ => 0) (fun _ => 0) ⟨0, crashed, []⟩).2.eois
        = l.map some ∧
      (l : Multiset Vector) = crashed.irr.val + crashed.isr.val ∧
      (apicPendingIntrClear byPriority (fun _ => 0) (fun _ => 0) ⟨0, crashed, []⟩).2.ir.irr = ∅ ∧
      (apicPendingIntrClear byPriority (fun _ => 0) (fun _ => 0) ⟨0, crashed, []⟩).2.ir.isr = ∅ :=
  drained_of_silent byPriority quiet_byPriority _ _ 0 crashed (silent_crashed _ _)

/-- **The 512 rounds suffice**: an APIC that receives nothing, brings a pending interrupt into
service within a round and does not have all the 256 vectors pending is cleared without a
warning. -/
theorem silent_of_prompt (env : Env) (hquiet : env.Quiet) (hprompt : env.Prompt) (irr isr : ApicIr)
    (h : Hw) (hfree : ∃ v, v ∉ h.ir.irr) : (apicPendingIntrClear env irr isr h).1 = none := by
  obtain ⟨v, hv⟩ := hfree
  have hcard : h.ir.irr.card < 256 := by
    have hlt := Finset.card_lt_univ_of_notMem hv
    rwa [Fintype.card_fin] at hlt
  refine clearLoop_silent hquiet hprompt 512 irr isr h ?_
  rw [Hw.rounds]
  split <;> omega

theorem silent_of_prompt_crashed :
    (apicPendingIntrClear byPriority (fun _ => 0) (fun _ => 0) ⟨0, crashed, []⟩).1 = none :=
  silent_of_prompt byPriority quiet_byPriority prompt_byPriority _ _ _ ⟨0, by decide⟩

end Function

end PendingIntr

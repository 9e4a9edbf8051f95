/-
**Which runs of the scripts resume a target from one snapshot.**

A target that has been resumed should have its CPU state, both parts of its memory and the state of
its devices from one snapshot attempt.  The scripts do not see to this: `cpu_state.bin` is not
removed with the dumps, and no script looks at how the one before it ended, so that a snapshot
attempt that fails on the way leaves old files beside new ones, and the next restore takes both.
The reload also resumes the target when a load has failed.

These are the only ways.  In a run in which a restore is begun only after a snapshot attempt
without a failure, and in which the three load commands succeed, no resumed target is ever a mix,
whatever else fails and in whatever order the attempts come.  Nothing less will do: a restore that
starts its target resumes a mix as soon as one of its four files is from elsewhere or one load
fails, and one that does not start it resumes the machine that it meets.

Main definitions:

* `Snapshot.NoMix` — a resumed target comes from one snapshot;
* `Snapshot.Careful` — the restriction on the steps of a run;
* `Snapshot.written`, `Snapshot.loaded` — the files and the parts of the machine that are from the
  last snapshot attempt before each step;
* `Snapshot.Inv` — the invariant;
* `Snapshot.restoreWith`, `Snapshot.Vm.reload` — a restore attempt with given failures, and the
  machine that it resumes.

Main results:

* `Snapshot.Inv.step` — every permitted step keeps the invariant;
* `Snapshot.noMix_restoreWith_iff`, `Snapshot.not_noMix_restoreWith` — when a restore resumes a
  mix;
* `Snapshot.noMix_of_careful` — **in a careful run no resumed target is a mix**;
* `Snapshot.not_noMix_staleCpuState` — a run in which one is.
-/

import ResumeFromEdk2.SnapshotScripts
import ResumeFromEdk2.StepSystem

set_option relaxedAutoImplicit false
set_option autoImplicit false

namespace Snapshot

open StepSystem

/-! ### What is asked of a run -/

/-- A machine that has been resumed by the reload has all its parts from one snapshot. -/
def NoMix (σ : State) : Prop :=
  ∀ v, σ.vm = some v → v.flag = true → v.resumed = true →
    ∃ k, ∀ p, v.part p = .ofSnapshot k

/-- A restore is begun only when the last snapshot attempt had no failure, and the three load
commands succeed.  A `quit` that fails is a failure of the attempt, although all files have been
written by then: the source machine is still behind the monitor socket, and a restore that cannot
start its target loads the dumps into that machine. -/
def Careful (σ : State) : Act → Prop
  | .beginRestore => σ.clean = true
  | .next o => σ.pc = .load1 ∨ σ.pc = .load2 ∨ σ.pc = .loadDevices → o = .ok
  | .beginSnapshot | .quitVm => True

instance (σ : State) (a : Act) : Decidable (Careful σ a) := by
  cases a <;> unfold Careful <;> infer_instance

/-! ### The invariant -/

/-- The files that carry the last snapshot when the attempt has come to a step without a
failure. -/
def written : Pc → List FileName
  | .runPlainVm | .rmDumps | .snapConnect | .snapStop | .infoRegisters => []
  | .infoOther | .pmemsave => [.qemuTxt]
  | .saveDevices => [.qemuTxt, .memDump]
  | .snapQuit | .cr3Search | .modifyMemDump | .dd1 => [.qemuTxt, .memDump, .devicesState]
  | .dd2 => [.qemuTxt, .memDump, .devicesState, .memDump1]
  | .processQemuInfoRegisters => [.qemuTxt, .devicesState, .memDump1, .memDump2]
  | .gcc => [.generatedState, .devicesState, .memDump1, .memDump2]
  | .stateBlob => [.stateBlob, .devicesState, .memDump1, .memDump2]
  | _ => [.cpuState, .devicesState, .memDump1, .memDump2]

/-- The parts of the machine, if there is one, that are then from the last snapshot.  From `quit`
on there is none, so that the first machine a restore meets is one of this snapshot. -/
def loaded : Pc → List Part
  | .runPlainVm | .rmDumps | .snapConnect | .snapStop | .infoRegisters | .infoOther | .pmemsave
  | .saveDevices | .snapQuit => []
  | .load2 => [.cpu, .mem1]
  | .loadDevices => [.cpu, .mem1, .mem2]
  | .loadFlag | .cont => [.cpu, .mem1, .mem2, .devices]
  | _ => [.cpu]

def Pc.restoring : Pc → Bool
  | .restoreVm | .reloadConnect | .reloadStop | .load1 | .load2 | .loadDevices | .loadFlag
  | .cont => true
  | _ => false

structure Inv (σ : State) : Prop where
  files : σ.clean = true → ∀ f ∈ written σ.pc, σ.file f = .ofSnapshot σ.snapshots
  parts : σ.clean = true → ∀ v, σ.vm = some v →
    ∀ p ∈ loaded σ.pc, v.part p = .ofSnapshot σ.snapshots
  restoring : σ.pc.restoring = true → σ.clean = true
  noMix : NoMix σ

theorem Inv.initial : Inv State.initial where
  files h := by cases h
  parts h := by cases h
  restoring h := by cases h
  noMix v hv := by cases hv

/-! ### Kinds of steps -/

section Steps

variable {σ : State} {f src : FileName} {p : Part} {c : Content} {o : Outcome} {pc : Pc}

theorem noMix_of_vm_none (h : σ.vm = none) : NoMix σ := by
  intro v hv
  rw [h] at hv
  cases hv

/-- A machine that has just been started has not been resumed. -/
theorem noMix_start (h : σ.vm = some (.start c)) : NoMix σ := by
  intro v hv hflag
  obtain rfl : Vm.start c = v := Option.some_inj.1 (h ▸ hv)
  cases hflag

/-- After a failure nothing is asked of the files and the machine. -/
theorem Inv.of_note_false (h : NoMix σ) (hpc : pc.restoring = false) :
    Inv ((σ.note false).goto pc) where
  files hc := by simp at hc
  parts hc := by simp at hc
  restoring hr := by simp [hpc] at hr
  noMix := h

/-- Before the transcript nothing is from the present snapshot yet. -/
theorem Inv.of_begin (h : NoMix σ) (hw : written σ.pc = []) (hl : loaded σ.pc = [])
    (hr : σ.pc.restoring = false) : Inv σ where
  files _ g hg := by simp [hw] at hg
  parts _ v _ p hp := by simp [hl] at hp
  restoring hres := by simp [hr] at hres
  noMix := h

/-- A step that changes neither files nor machine. -/
theorem Inv.goto (h : Inv σ) (hw : written pc ⊆ written σ.pc) (hl : loaded pc ⊆ loaded σ.pc)
    (hr : pc.restoring = true → σ.clean = true) : Inv (σ.goto pc) where
  files hc g hg := h.files hc g (hw hg)
  parts hc v hv p hp := h.parts hc v hv p (hl hp)
  restoring := hr
  noMix := h.noMix

/-- A step that writes one file, with the data of the present snapshot. -/
theorem Inv.write_goto (h : Inv σ) (hc : σ.clean = true → c = .ofSnapshot σ.snapshots)
    (hw : ∀ g ∈ written pc, g = f ∨ g ∈ written σ.pc) (hl : loaded pc ⊆ loaded σ.pc)
    (hr : pc.restoring = false) : Inv ((σ.write f c).goto pc) where
  files hcl g hg := by
    change Function.update σ.file f c g = _
    rcases eq_or_ne g f with rfl | hne
    · rw [Function.update_self]
      exact hc hcl
    · rw [Function.update_of_ne hne]
      exact h.files hcl g ((hw g hg).resolve_left hne)
  parts hcl v hv p hp := h.parts hcl v hv p (hl hp)
  restoring hres := by simp [hr] at hres
  noMix := h.noMix

/-- A step whose failure is noted, and which goes on in any case. -/
theorem Inv.note_goto (good : Bool) (hbad : NoMix σ) (hgood : good = true → Inv (σ.goto pc))
    (hr : pc.restoring = false) : Inv ((σ.note good).goto pc) := by
  cases good with
  | false => exact Inv.of_note_false hbad hr
  | true =>
      rw [State.note_true]
      exact hgood rfl

/-- A step whose failure ends its script. -/
theorem Inv.orElse {next stop : Pc} (good : Bool) (hbad : NoMix σ)
    (hgood : good = true → Inv (σ.goto next)) (hstop : stop.restoring = false) :
    Inv (State.orElse good σ next stop) := by
  cases good with
  | false => exact Inv.of_note_false hbad hstop
  | true =>
      rw [State.orElse, State.note_true]
      exact hgood rfl

theorem Inv.save (h : Inv σ) (hw : ∀ g ∈ written pc, g = f ∨ g ∈ written σ.pc)
    (hl : loaded pc ⊆ loaded σ.pc) (hr : pc.restoring = false) : Inv (σ.save o f pc) := by
  refine Inv.note_goto _ h.noMix (fun ho => h.write_goto (fun _ => ?_) hw hl hr) hr
  rw [of_decide_eq_true ho, Outcome.write_ok]

theorem Outcome.copy_ofSnapshot {k : ℕ} {old : Content} (h : c = .ofSnapshot k) :
    Outcome.ok.copy c old = .ofSnapshot k := by
  subst h
  rfl

theorem Inv.copy (h : Inv σ) (hsrc : src ∈ written σ.pc)
    (hw : ∀ g ∈ written pc, g = f ∨ g ∈ written σ.pc)
    (hl : loaded pc ⊆ loaded σ.pc) (hr : pc.restoring = false) : Inv (σ.copy o src f pc) := by
  refine Inv.note_goto _ h.noMix (fun ho => h.write_goto (fun hcl => ?_) hw hl hr) hr
  rw [of_decide_eq_true ho]
  exact Outcome.copy_ofSnapshot (h.files hcl src hsrc)

/-- A load into the machine.  A machine that was resumed before was from the same snapshot already,
because its CPU state is. -/
theorem Inv.reload (h : Inv σ) (hsrc : src ∈ written σ.pc) (hcpu : .cpu ∈ loaded σ.pc)
    (hw : written pc ⊆ written σ.pc) (hl : ∀ q ∈ loaded pc, q = p ∨ q ∈ loaded σ.pc)
    (hr : σ.pc.restoring = true) : Inv (σ.reload .ok src p pc) := by
  have hclean := h.restoring hr
  have hload : ∀ v, (σ.reload .ok src p pc).vm = some v → ∃ v₀, σ.vm = some v₀ ∧
      v = { v₀ with part := Function.update v₀.part p (.ofSnapshot σ.snapshots) } := by
    intro v hv
    obtain ⟨v₀, hv₀, rfl⟩ := Option.map_eq_some_iff.1 hv
    exact ⟨v₀, hv₀, by rw [Outcome.copy_ofSnapshot (h.files hclean src hsrc)]⟩
  have hpart : ∀ (v₀ : Vm) (q : Part), (q ≠ p → v₀.part q = .ofSnapshot σ.snapshots) →
      Function.update v₀.part p (.ofSnapshot σ.snapshots) q = .ofSnapshot σ.snapshots := by
    intro v₀ q hq
    rcases eq_or_ne q p with rfl | hne
    · rw [Function.update_self]
    · rw [Function.update_of_ne hne, hq hne]
  refine ⟨fun hc g hg => h.files hc g (hw hg), ?_, fun _ => hclean, ?_⟩
  · intro _ v hv q hq
    obtain ⟨v₀, hv₀, rfl⟩ := hload v hv
    exact hpart v₀ q fun hne => h.parts hclean v₀ hv₀ q ((hl q hq).resolve_left hne)
  · intro v hv hflag hresumed
    obtain ⟨v₀, hv₀, rfl⟩ := hload v hv
    obtain ⟨k, hk⟩ := h.noMix v₀ hv₀ hflag hresumed
    obtain rfl : k = σ.snapshots := by
      have hboth := (hk .cpu).symm.trans (h.parts hclean v₀ hv₀ .cpu hcpu)
      exact Content.ofSnapshot.inj hboth
    exact ⟨σ.snapshots, fun q => hpart v₀ q fun _ => hk q⟩

/-- A step that only marks the machine, when all its parts have been loaded. -/
theorem Inv.mark (h : Inv σ) (mark : Vm → Vm) (hmark : ∀ v, (mark v).part = v.part)
    (hall : ∀ p, p ∈ loaded σ.pc) (hw : written pc ⊆ written σ.pc)
    (hr : σ.pc.restoring = true) :
    Inv (({ σ with vm := σ.vm.map mark } : State).goto pc) := by
  have hclean := h.restoring hr
  have hparts : ∀ v, σ.vm.map mark = some v → ∀ p, v.part p = .ofSnapshot σ.snapshots := by
    intro v hv p
    obtain ⟨v₀, hv₀, rfl⟩ := Option.map_eq_some_iff.1 hv
    rw [hmark]
    exact h.parts hclean v₀ hv₀ p (hall p)
  exact ⟨fun hc g hg => h.files hc g (hw hg), fun _ v hv p _ => hparts v hv p, fun _ => hclean,
    fun v hv _ _ => ⟨σ.snapshots, hparts v hv⟩⟩

end Steps

/-! ### Every step -/

/-- The steps of a restore attempt keep the invariant: the CPU state comes first, then the parts of
the machine one after the other. -/
theorem Inv.advance_of_restoring {σ : State} (h : Inv σ) (hr : σ.pc.restoring = true) (o : Outcome)
    (hcareful : Careful σ (.next o)) : Inv (σ.advance o) := by
  have hclean := h.restoring hr
  cases hpc : σ.pc with
  | restoreVm =>
      rw [State.advance, hpc]
      dsimp only
      split
      · refine ⟨fun hc g hg => h.files hc g (by rwa [hpc]), fun _ v hv p hp => ?_,
          fun _ => hclean, noMix_start rfl⟩
        cases hv
        rw [List.mem_singleton.1 hp]
        exact h.files hclean .cpuState (by simp [written, hpc])
      · exact h.goto (by simp [written, hpc]) (by simp [loaded, hpc]) (fun _ => hclean)
  | reloadConnect =>
      rw [State.advance, hpc]
      dsimp only
      split
      · exact h.goto (by simp [written, hpc]) (by simp [loaded, hpc]) (fun _ => hclean)
      · exact h.goto (by simp [written, hpc]) (by simp [loaded, hpc]) (fun _ => hclean)
  | reloadStop =>
      rw [State.advance, hpc]
      exact h.goto (by simp [written, hpc]) (by simp [loaded, hpc]) (fun _ => hclean)
  | load1 =>
      rw [State.advance, hpc]
      obtain rfl := hcareful (.inl hpc)
      exact h.reload (by simp [written, hpc]) (by simp [loaded, hpc]) (by simp [written, hpc])
        (by simp [loaded, hpc]) hr
  | load2 =>
      rw [State.advance, hpc]
      obtain rfl := hcareful (.inr (.inl hpc))
      exact h.reload (by simp [written, hpc]) (by simp [loaded, hpc]) (by simp [written, hpc])
        (by simp [loaded, hpc]) hr
  | loadDevices =>
      rw [State.advance, hpc]
      obtain rfl := hcareful (.inr (.inr hpc))
      exact h.reload (by simp [written, hpc]) (by simp [loaded, hpc]) (by simp [written, hpc])
        (by simp [loaded, hpc]) hr
  | loadFlag =>
      rw [State.advance, hpc]
      exact h.mark (fun v => { v with flag := v.flag || o = .ok }) (fun _ => rfl)
        (fun p => by cases p <;> simp [loaded, hpc]) (by simp [written, hpc]) hr
  | cont =>
      rw [State.advance, hpc]
      exact h.mark (fun v => { v with resumed := true }) (fun _ => rfl)
        (fun p => by cases p <;> simp [loaded, hpc]) (by simp [written, hpc]) hr
  | _ => simp [hpc, Pc.restoring] at hr

/-- The steps of a snapshot attempt keep the invariant: up to the transcript nothing is asked, and
from there on each step writes one file or none. -/
theorem Inv.advance_of_not_restoring {σ : State} (h : Inv σ) (hr : σ.pc.restoring = false)
    (o : Outcome) : Inv (σ.advance o) := by
  cases hpc : σ.pc with
  | idle =>
      rw [State.advance, hpc]
      exact h
  | runPlainVm =>
      rw [State.advance, hpc]
      dsimp only
      split
      · exact Inv.of_begin (noMix_start rfl) rfl rfl rfl
      · exact Inv.of_begin h.noMix rfl rfl rfl
  | rmDumps =>
      rw [State.advance, hpc]
      dsimp only
      split
      · exact Inv.of_begin h.noMix rfl rfl rfl
      · exact Inv.of_begin h.noMix rfl rfl rfl
  | snapConnect =>
      rw [State.advance, hpc]
      exact Inv.orElse _ h.noMix (fun _ => Inv.of_begin h.noMix rfl rfl rfl) rfl
  | snapStop =>
      rw [State.advance, hpc]
      exact Inv.of_begin h.noMix rfl rfl rfl
  | infoRegisters =>
      rw [State.advance, hpc]
      cases o with
      | ok =>
          exact Inv.orElse _ h.noMix
            (fun _ => h.write_goto (fun _ => rfl) (by simp [written]) (by simp [loaded]) rfl) rfl
      | failed => exact Inv.of_note_false h.noMix rfl
      | torn => exact Inv.of_note_false h.noMix rfl
  | infoOther =>
      rw [State.advance, hpc]
      exact Inv.orElse _ h.noMix
        (fun _ => h.goto (by simp [written, hpc]) (by simp [loaded]) (fun hr => by cases hr)) rfl
  | pmemsave =>
      rw [State.advance, hpc]
      exact h.save (by simp [written, hpc]) (by simp [loaded]) rfl
  | saveDevices =>
      rw [State.advance, hpc]
      exact h.save (by simp [written, hpc]) (by simp [loaded]) rfl
  | snapQuit =>
      rw [State.advance, hpc]
      cases o with
      | ok =>
          refine Inv.note_goto _ (noMix_of_vm_none rfl) (fun _ => ?_) rfl
          exact ⟨fun hc g hg => h.files hc g (by rwa [hpc]), fun _ v hv => (by cases hv),
            fun hr => (by cases hr), noMix_of_vm_none rfl⟩
      | failed => exact Inv.of_note_false h.noMix rfl
      | torn => exact Inv.of_note_false h.noMix rfl
  | cr3Search =>
      rw [State.advance, hpc]
      exact Inv.orElse _ h.noMix
        (fun _ => h.goto (by simp [written, hpc]) (by simp [loaded, hpc])
          (fun hr => by cases hr)) rfl
  | modifyMemDump =>
      rw [State.advance, hpc]
      exact h.goto (by simp [written, hpc]) (by simp [loaded, hpc]) (by simp [Pc.restoring])
  | dd1 =>
      rw [State.advance, hpc]
      exact h.copy (by simp [written, hpc]) (by simp [written, hpc]) (by simp [loaded, hpc]) rfl
  | dd2 =>
      rw [State.advance, hpc]
      exact h.copy (by simp [written, hpc]) (by simp [written, hpc]) (by simp [loaded, hpc]) rfl
  | processQemuInfoRegisters =>
      rw [State.advance, hpc]
      refine Inv.orElse _ h.noMix (fun hgood => ?_) rfl
      refine h.write_goto (fun hcl => ?_) (by simp [written, hpc]) (by simp [loaded, hpc]) rfl
      rw [if_pos hgood]
      exact h.files hcl _ (by simp [written, hpc])
  | gcc =>
      rw [State.advance, hpc]
      refine Inv.orElse _ h.noMix (fun hgood => ?_) rfl
      refine h.write_goto (fun hcl => ?_) (by simp [written, hpc]) (by simp [loaded, hpc]) rfl
      rw [of_decide_eq_true hgood]
      exact h.files hcl _ (by simp [written, hpc])
  | stateBlob =>
      rw [State.advance, hpc]
      exact h.copy (by simp [written, hpc]) (by simp [written, hpc]) (by simp [loaded, hpc]) rfl
  | _ => simp [hpc, Pc.restoring] at hr

theorem Inv.advance {σ : State} (h : Inv σ) (o : Outcome) (hcareful : Careful σ (.next o)) :
    Inv (σ.advance o) := by
  cases hr : σ.pc.restoring with
  | false => exact h.advance_of_not_restoring hr o
  | true => exact h.advance_of_restoring hr o hcareful

/-- **Every permitted step keeps the invariant.** -/
theorem Inv.step {σ σ' : State} {a : Act} (h : Inv σ) (hcareful : Careful σ a)
    (hstep : step σ a = some σ') : Inv σ' := by
  cases a with
  | beginSnapshot =>
      obtain ⟨-, ⟨⟩⟩ := Option.ite_none_right_eq_some.1 hstep
      exact Inv.of_begin h.noMix rfl rfl rfl
  | beginRestore =>
      obtain ⟨hpc, ⟨⟩⟩ := Option.ite_none_right_eq_some.1 hstep
      exact h.goto (by simp [written, hpc]) (by simp [loaded, hpc]) (fun _ => hcareful)
  | quitVm =>
      obtain ⟨-, ⟨⟩⟩ := Option.ite_none_right_eq_some.1 hstep
      exact ⟨h.files, fun _ v hv => (by cases hv), h.restoring, noMix_of_vm_none rfl⟩
  | next o =>
      obtain ⟨-, ⟨⟩⟩ := Option.ite_none_left_eq_some.1 hstep
      exact h.advance o hcareful

/-! ### What a restore resumes -/

/-- The file that a part of a target comes from. -/
def Part.file : Part → FileName
  | .cpu => .cpuState
  | .mem1 => .memDump1
  | .mem2 => .memDump2
  | .devices => .devicesState

/-- A restore attempt in which the start of QEMU ends as `o .cpu` says, and the load of another part
`p` as `o p` says. -/
def restoreWith (o : Part → Outcome) : List Act :=
  [.beginRestore, .next (o .cpu), .next .ok, .next .ok, .next (o .mem1), .next (o .mem2),
    .next (o .devices), .next .ok, .next .ok]

/-- The machine that the reload meets: the one that the restore starts, or else the one that was
there. -/
def State.target (σ : State) (o : Outcome) : Option Vm :=
  if o = .ok ∧ σ.file .cpuState ≠ .absent then some (.start (σ.file .cpuState)) else σ.vm

/-- The machine that the reload resumes. -/
def Vm.reload (v : Vm) (σ : State) (o : Part → Outcome) : Vm where
  part p := if p = .cpu then v.part .cpu else (o p).copy (σ.file p.file) (v.part p)
  flag := true
  resumed := true

/-- **A restore goes on after every failure** and resumes the machine that it meets. -/
theorem run_restoreWith {σ : State} (hidle : σ.pc = .idle) (o : Part → Outcome) {v : Vm}
    (hv : σ.target (o .cpu) = some v) :
    ∃ σ', run step (fun _ _ => True) σ (restoreWith o) = some σ' ∧ σ'.vm = some (v.reload σ o) := by
  obtain ⟨file, vm, _, k, clean⟩ := σ
  obtain rfl := hidle
  have hstart : State.advance ⟨file, vm, .restoreVm, k, clean⟩ (o .cpu) =
      ⟨file, some v, .reloadConnect, k, clean⟩ := by
    rw [← hv, State.advance, State.target]
    dsimp only
    split <;> rfl
  -- From here on no step looks at a failure of the one before.
  have hrest : ∃ σ', run step (fun _ _ => True) ⟨file, some v, .reloadConnect, k, clean⟩
      ((restoreWith o).drop 2) = some σ' ∧
        σ'.vm = some (v.reload ⟨file, vm, .idle, k, clean⟩ o) := by
    refine ⟨_, rfl, congrArg some (Vm.mk.injEq .. ▸ ⟨funext fun p => ?_, Bool.or_true _, rfl⟩)⟩
    cases p <;> rfl
  rw [← hstart] at hrest
  exact hrest

/-- It is a mix exactly if what it was started with and what was loaded into it are. -/
theorem noMix_iff_of_reload {σ σ' : State} {o : Part → Outcome} {v : Vm}
    (h : σ'.vm = some (v.reload σ o)) :
    NoMix σ' ↔ ∃ k, ∀ p, (v.reload σ o).part p = .ofSnapshot k := by
  constructor
  · exact fun hmix => hmix _ h rfl rfl
  · intro hk v' hv' _ _
    obtain rfl : v.reload σ o = v' := Option.some_inj.1 (h ▸ hv')
    exact hk

theorem Outcome.copy_absent_eq {o : Outcome} {c : Content} {k : ℕ} :
    o.copy c .absent = .ofSnapshot k ↔ o = .ok ∧ c = .ofSnapshot k := by
  cases o <;> cases c <;> simp [Outcome.copy, Outcome.write]

/-- **Both conditions on a careful run are needed**: a target that the restore has started is no mix
exactly if its four files are from one snapshot and the three loads succeed. -/
theorem noMix_restoreWith_iff {σ : State} (hidle : σ.pc = .idle) {o : Part → Outcome}
    (hcpu : o .cpu = .ok) (hfile : σ.file .cpuState ≠ .absent) :
    ∃ σ', run step (fun _ _ => True) σ (restoreWith o) = some σ' ∧
      (NoMix σ' ↔ (∃ k, ∀ p : Part, σ.file p.file = .ofSnapshot k) ∧ ∀ p, o p = .ok) := by
  have htarget : σ.target (o .cpu) = some (.start (σ.file .cpuState)) := if_pos ⟨hcpu, hfile⟩
  obtain ⟨σ', hrun, hvm⟩ := run_restoreWith hidle o htarget
  refine ⟨σ', hrun, ?_⟩
  rw [noMix_iff_of_reload hvm, ← exists_and_right]
  refine exists_congr fun k => ?_
  rw [← forall_and]
  refine forall_congr' fun p => ?_
  cases p with
  | cpu => simp [Vm.reload, Vm.start, hcpu, Part.file]
  | mem1 | mem2 | devices =>
      exact Outcome.copy_absent_eq.trans and_comm

/-- **A machine that was started without a state page is resumed as a mix**, if it is still there
and the restore cannot start its own.  The source of a snapshot is such a machine until `quit`. -/
theorem not_noMix_restoreWith {σ : State} (hidle : σ.pc = .idle) {o : Part → Outcome} {v : Vm}
    (hcpu : o .cpu ≠ .ok) (hvm : σ.vm = some v) (hpage : v.part .cpu = .absent) :
    ∃ σ', run step (fun _ _ => True) σ (restoreWith o) = some σ' ∧ ¬NoMix σ' := by
  have htarget : σ.target (o .cpu) = some v := by
    rw [State.target, if_neg fun h => hcpu h.1, hvm]
  obtain ⟨σ', hrun, hvm'⟩ := run_restoreWith hidle o htarget
  refine ⟨σ', hrun, fun h => ?_⟩
  obtain ⟨k, hk⟩ := (noMix_iff_of_reload hvm').1 h
  have habsent : v.part .cpu = .ofSnapshot k := hk .cpu
  rw [hpage] at habsent
  cases habsent

/-! ### Whole runs -/

/-- **In a careful run no resumed target is a mix of snapshots**, whatever else fails and however
many attempts there are. -/
theorem noMix_of_careful {σ : State} (h : Reach step Careful .initial σ) : NoMix σ :=
  (h.inv Inv.initial fun _ _ _ hinv hcareful hstep => hinv.step hcareful hstep).noMix

/-- A snapshot attempt whose last step is `o` after `n` that succeed. -/
def snapshotAttempt (n : ℕ) (o : Outcome) : List Act :=
  .beginSnapshot :: (List.replicate n (.next .ok) ++ [.next o])

/-- A restore attempt without a failure. -/
def restoreAttempt : List Act := .beginRestore :: List.replicate 8 (.next .ok)

/-- What a run leaves behind the monitor socket. -/
def vmAfter (ok : State → Act → Prop) [∀ σ a, Decidable (ok σ a)] (as : List Act) : Option Vm :=
  (run step ok .initial as).bind State.vm

theorem reach_of_vmAfter {ok : State → Act → Prop} [∀ σ a, Decidable (ok σ a)] {as : List Act}
    {β : Type} {view : Vm → β} {b : β} (h : (vmAfter ok as).map view = some b) :
    ∃ σ v, Reach step ok .initial σ ∧ σ.vm = some v ∧ view v = b := by
  obtain ⟨v, hv, hview⟩ := Option.map_eq_some_iff.1 h
  obtain ⟨σ, hσ, hvm⟩ := Option.bind_eq_some_iff.1 hv
  exact ⟨σ, v, Reach.of_run hσ, hvm, hview⟩

/-- In a careful run with a failed snapshot attempt in it a target is resumed, from one
snapshot. -/
theorem noMix_of_careful_afterFailure :
    ∃ σ v, Reach step Careful .initial σ ∧ σ.vm = some v ∧
      v.flag = true ∧ v.resumed = true ∧ NoMix σ := by
  have hrun : (vmAfter Careful
      (snapshotAttempt 13 .failed ++ snapshotAttempt 15 .ok ++ restoreAttempt)).map
      (fun v => (v.flag, v.resumed)) = some (true, true) := by decide +kernel
  obtain ⟨σ, v, hreach, hv, hview⟩ := reach_of_vmAfter hrun
  obtain ⟨hflag, hresumed⟩ := Prod.mk.injEq _ _ _ _ ▸ hview
  exact ⟨σ, v, hreach, hv, hflag, hresumed, noMix_of_careful hreach⟩

/-- **A mix.**  In the second snapshot attempt a register is missing from the transcript, so that
`cpu_state.bin` stays as the first one left it; the restore that follows takes it with the dumps
of the second. -/
theorem not_noMix_staleCpuState :
    ¬ ∀ σ, Reach step (fun _ _ => True) .initial σ → NoMix σ := by
  intro h
  have hrun : (vmAfter (fun _ _ => True)
      (snapshotAttempt 15 .ok ++ snapshotAttempt 13 .failed ++ restoreAttempt)).map
      (fun v => (v.flag, v.resumed, v.part .cpu, v.part .mem1)) =
      some (true, true, .ofSnapshot 1, .ofSnapshot 2) := by decide +kernel
  obtain ⟨σ, v, hreach, hv, hview⟩ := reach_of_vmAfter hrun
  simp only [Prod.mk.injEq] at hview
  obtain ⟨hflag, hresumed, hcpu, hmem⟩ := hview
  obtain ⟨k, hk⟩ := h σ hreach v hv hflag hresumed
  have h₁ : k = 1 := Content.ofSnapshot.inj ((hk .cpu).symm.trans hcpu)
  have h₂ : k = 2 := Content.ofSnapshot.inj ((hk .mem1).symm.trans hmem)
  omega

end Snapshot

/-
**Snapshot and restore attempts, with every failure the scripts let pass.**

A snapshot attempt is the last part of `run-plain-and-snap.sh`: the dumps are removed,
`snap-vm-qmp.py` writes its transcript to `qemu.txt` and the memory and devices of the machine to
dumps, and `generate_cpu_state.sh` makes `cpu_state.bin` from the transcript.  A restore attempt is
`just-restore-from-snap.sh`: a target is started with `cpu_state.bin`, and
`reload-saved-memory-qmp.py` loads the dumps into it, sets the flag that resumes it and lets it run.

Only where the content of a file comes from is of interest here, so a file holds the number of the
snapshot attempt whose data it carries.  What the scripts make of a failure differs from step to
step: `generate_cpu_state.sh` stops (`set -e`), a Python script stops at an exception but only
prints an error reply of the monitor, the exit statuses of `os.system` are not looked at, and
`run-plain-and-snap.sh` looks at the exit status of nothing.

Main definitions:

* `Snapshot.Content`, `Snapshot.Outcome` — what a file carries, and how a step ends;
* `Snapshot.Pc` — the steps of the scripts, in their order;
* `Snapshot.State`, `Snapshot.State.advance` — the files and the machine behind the monitor socket,
  and what each step does to them;
* `Snapshot.step` — the system of all attempts.
-/

import Mathlib.Data.Nat.Notation
import Mathlib.Logic.Function.Basic

set_option relaxedAutoImplicit false
set_option autoImplicit false

namespace Snapshot

/-! ### Files and machines -/

/-- What a file carries. -/
inductive Content where
  /-- There is no such file. -/
  | absent
  /-- Truncated, or written in part. -/
  | broken
  /-- The data of the snapshot attempt with this number. -/
  | ofSnapshot (k : ℕ)
  deriving DecidableEq, Repr

/-- The files that the scripts read and write. -/
inductive FileName where
  | memDump | memDump1 | memDump2 | devicesState
  | qemuTxt | generatedState | stateBlob | cpuState
  deriving DecidableEq, Repr

/-- What a target is resumed from. -/
inductive Part where
  | cpu | mem1 | mem2 | devices
  deriving DecidableEq, Repr

/-- A machine behind the monitor socket. -/
structure Vm where
  /-- What was passed to it or loaded into it, `absent` where nothing was. -/
  part : Part → Content
  /-- The flag that makes the waiting target resume has been written. -/
  flag : Bool
  /-- `cont` has been issued by the reload. -/
  resumed : Bool

/-- A machine at its start, with the state page `cpu` passed to it. -/
def Vm.start (cpu : Content) : Vm where
  part p := if p = .cpu then cpu else .absent
  flag := false
  resumed := false

/-! ### Steps -/

/-- How a step ends. -/
inductive Outcome where
  | ok
  /-- It fails before it has written to its output. -/
  | failed
  /-- It fails after it has begun to write to its output. -/
  | torn
  deriving DecidableEq, Repr

/-- What a step that writes `new` leaves where `old` was. -/
def Outcome.write (o : Outcome) (new old : Content) : Content :=
  match o with
  | .ok => new
  | .failed => old
  | .torn => .broken

/-- The same for a step that copies: without its input it does not touch its output. -/
def Outcome.copy (o : Outcome) (src old : Content) : Content :=
  if src = .absent then old else o.write src old

@[simp] theorem Outcome.write_ok (new old : Content) : Outcome.ok.write new old = new := rfl

/-- The step that comes next, in the order of the scripts. -/
inductive Pc where
  /-- No attempt is in progress. -/
  | idle
  -- run-plain-and-snap.sh
  | runPlainVm | rmDumps
  -- snap-vm-qmp.py
  | snapConnect | snapStop | infoRegisters | infoOther | pmemsave | saveDevices | snapQuit
  | cr3Search | modifyMemDump | dd1 | dd2
  -- generate_cpu_state.sh
  | processQemuInfoRegisters | gcc | stateBlob
  -- just-restore-from-snap.sh
  | restoreVm
  -- reload-saved-memory-qmp.py
  | reloadConnect | reloadStop | load1 | load2 | loadDevices | loadFlag | cont
  deriving DecidableEq, Repr

structure State where
  file : FileName → Content
  /-- The machine that answers on the monitor socket. -/
  vm : Option Vm
  pc : Pc
  /-- The number of the last snapshot attempt, from 1. -/
  snapshots : ℕ
  /-- A history variable that no step reads: there was a snapshot attempt, and in the last one no
  step failed that writes or checks data of the snapshot. -/
  clean : Bool

namespace State

def goto (σ : State) (pc : Pc) : State := { σ with pc := pc }

def write (σ : State) (f : FileName) (c : Content) : State :=
  { σ with file := Function.update σ.file f c }

/-- `rm -f` of the dumps. -/
def rmDumps (σ : State) : State :=
  (((σ.write .devicesState .absent).write .memDump1 .absent).write .memDump2 .absent).write
    .memDump .absent

def load (σ : State) (p : Part) (c : Content → Content) : State :=
  { σ with vm := σ.vm.map fun v => { v with part := Function.update v.part p (c (v.part p)) } }

def note (σ : State) (good : Bool) : State := { σ with clean := σ.clean && good }

@[simp] theorem goto_pc (σ : State) (pc : Pc) : (σ.goto pc).pc = pc := rfl

@[simp] theorem goto_clean (σ : State) (pc : Pc) : (σ.goto pc).clean = σ.clean := rfl

@[simp] theorem note_clean (σ : State) (good : Bool) :
    (σ.note good).clean = (σ.clean && good) := rfl

@[simp] theorem note_true (σ : State) : σ.note true = σ := by
  rw [note, Bool.and_true]

/-- A step that writes data of the present snapshot to `f`, and goes on in any case. -/
def save (σ : State) (o : Outcome) (f : FileName) (pc : Pc) : State :=
  ((σ.write f (o.write (.ofSnapshot σ.snapshots) (σ.file f))).note (o = .ok)).goto pc

/-- A step that copies `src` to `f`, and goes on in any case. -/
def copy (σ : State) (o : Outcome) (src f : FileName) (pc : Pc) : State :=
  ((σ.write f (o.copy (σ.file src) (σ.file f))).note (o = .ok)).goto pc

/-- A monitor command that loads the file `src` into the machine, and whose reply is printed. -/
def reload (σ : State) (o : Outcome) (src : FileName) (p : Part) (pc : Pc) : State :=
  (σ.load p (o.copy (σ.file src))).goto pc

/-- A step of the snapshot whose failure ends the script it belongs to. -/
def orElse (good : Bool) (σ : State) (next stop : Pc) : State :=
  (σ.note good).goto (if good then next else stop)

/-- The next step of the attempt in progress, which ends as `o` says. -/
def advance (σ : State) (o : Outcome) : State :=
  match σ.pc with
  | .idle => σ
  | .runPlainVm => (if o = .ok then { σ with vm := some (.start .absent) } else σ).goto .rmDumps
  | .rmDumps => (if o = .ok then σ.rmDumps else σ).goto .snapConnect
  -- The shell truncates qemu.txt before the script starts.
  | .snapConnect =>
      orElse (o = .ok ∧ σ.vm.isSome) (σ.write .qemuTxt .broken) .snapStop .processQemuInfoRegisters
  | .snapStop => σ.goto .infoRegisters
  -- `rsp['return']` raises on an error reply; what was printed before is in qemu.txt.
  | .infoRegisters =>
      orElse (o = .ok)
        (if o = .ok then σ.write .qemuTxt (.ofSnapshot σ.snapshots) else σ)
        .infoOther .processQemuInfoRegisters
  | .infoOther => orElse (o = .ok) σ .pmemsave .processQemuInfoRegisters
  | .pmemsave => σ.save o .memDump .saveDevices
  | .saveDevices => σ.save o .devicesState .snapQuit
  | .snapQuit =>
      ((if o = .ok then { σ with vm := none } else σ).note (o = .ok)).goto .cr3Search
  | .cr3Search => orElse (o = .ok) σ .modifyMemDump .processQemuInfoRegisters
  -- It edits words of mem-dump.bin in place, and its exit status is not looked at.
  | .modifyMemDump => σ.goto .dd1
  | .dd1 => σ.copy o .memDump .memDump1 .dd2
  | .dd2 => σ.copy o .memDump .memDump2 .processQemuInfoRegisters
  -- The redirect truncates generated-state.i; a register that qemu.txt lacks is a `KeyError`.
  | .processQemuInfoRegisters =>
      let good : Bool := o = .ok ∧ σ.file .qemuTxt ≠ .absent ∧ σ.file .qemuTxt ≠ .broken
      orElse good (σ.write .generatedState (if good then σ.file .qemuTxt else .broken)) .gcc .idle
  | .gcc =>
      orElse (o = .ok)
        (σ.write .stateBlob (o.write (σ.file .generatedState) (σ.file .stateBlob))) .stateBlob .idle
  | .stateBlob => σ.copy o .stateBlob .cpuState .idle
  -- QEMU does not start without the file of the state page.
  | .restoreVm =>
      (if o = .ok ∧ σ.file .cpuState ≠ .absent then
        { σ with vm := some (.start (σ.file .cpuState)) } else σ).goto .reloadConnect
  | .reloadConnect => σ.goto (if o = .ok ∧ σ.vm.isSome then .reloadStop else .idle)
  | .reloadStop => σ.goto .load1
  | .load1 => σ.reload o .memDump1 .mem1 .load2
  | .load2 => σ.reload o .memDump2 .mem2 .loadDevices
  | .loadDevices => σ.reload o .devicesState .devices .loadFlag
  | .loadFlag =>
      ({ σ with vm := σ.vm.map fun v => { v with flag := v.flag || o = .ok } } : State).goto .cont
  | .cont => ({ σ with vm := σ.vm.map fun v => { v with resumed := true } } : State).goto .idle

end State

/-! ### Attempts -/

inductive Act where
  /-- `run-plain-and-snap.sh` -/
  | beginSnapshot
  /-- `just-restore-from-snap.sh` -/
  | beginRestore
  /-- `send-qmp-cmd.py quit`, with which a machine is ended by hand. -/
  | quitVm
  /-- The next step of the attempt in progress. -/
  | next (o : Outcome)
  deriving DecidableEq, Repr

/-- **The system of all attempts.**  They come one after the other, in any order. -/
def step (σ : State) : Act → Option State
  | .beginSnapshot =>
      if σ.pc = .idle then
        some { σ with pc := .runPlainVm, snapshots := σ.snapshots + 1, clean := true }
      else none
  | .beginRestore => if σ.pc = .idle then some (σ.goto .restoreVm) else none
  | .quitVm => if σ.pc = .idle then some { σ with vm := none } else none
  | .next o => if σ.pc = .idle then none else some (σ.advance o)

/-- Nothing has been done yet. -/
def State.initial : State where
  file _ := .absent
  vm := none
  pc := .idle
  snapshots := 0
  clean := false

end Snapshot

/-
**When `make` in `state-blob` leaves the right CPU state.**

The Makefile makes `cpu_state.bin` from `qemu.txt` in three steps: the script that processes the
registers writes C to `generated-state.i`, `gcc` compiles `state-blob.c`, which includes it, and the
program `state-blob` writes the blob.  `generate_cpu_state.sh` runs the same three commands whatever
the time stamps say, and with `--escape-zzzloop` it has the script add 16 to the instruction
pointer.

The shell creates `generated-state.i` before the script runs.  If the script fails, on a transcript
that lacks a register say, the file is left empty and newer than `qemu.txt`, and the next `make`
builds on it: it succeeds, and the registers in the blob are all zero.  In the same way it builds on
what a killed `gcc` has left and on what `generate_cpu_state.sh --escape-zzzloop` has made.  And the
program `state-blob` does not look at what `fwrite` returns, so that its recipe succeeds when it has
written nothing.  Apart from these, a `make` that succeeds has made the right blob.

Main definitions:

* `StateBlob.makefile` — the rules of the Makefile;
* `StateBlob.State`, `StateBlob.step` — the directory, and what is done in it;
* `StateBlob.Fresh` — the blob is made from the present transcript;
* `StateBlob.Trusted` — the restriction on the steps of a run.

Main results:

* `StateBlob.Inv.step` — every permitted step keeps the invariant;
* `StateBlob.fresh_of_trusted` — **in such a run a `make` that succeeds leaves a fresh blob**;
* `StateBlob.not_fresh_keyError` — a run in which it does not.
-/

import ResumeFromEdk2.InfoRegisters
import ResumeFromEdk2.MakeRules
import ResumeFromEdk2.StepSystem

set_option relaxedAutoImplicit false
set_option autoImplicit false

namespace StateBlob

open PyText RegisterScript Make StepSystem

/-! ### Files -/

inductive FileName where
  | qemuTxt | processQemuInfoRegisters | stateBlobC
  | generatedState | stateBlob | cpuState
  deriving DecidableEq, Repr

inductive Content where
  /-- A file of the repository. -/
  | repository
  /-- `qemu.txt` or `generated-state.i`. -/
  | text (t : Text)
  /-- The program that includes this `generated-state.i`. -/
  | program (t : Text)
  /-- What that program writes. -/
  | blob (t : Text)
  /-- A program or a blob of which a part is missing. -/
  | broken
  deriving DecidableEq

/-- What happens to a recipe. -/
inductive Event where
  | ok
  /-- It fails before it has opened its target. -/
  | failed
  /-- It is killed, or fails, when it has written `t`. -/
  | torn (t : Text)
  /-- A write to its target is refused after `t`. -/
  | noSpace (t : Text)
  deriving DecidableEq

/-! ### Recipes -/

/-- `./process_qemu_info_registers.py --rip-offset n < qemu.txt > generated-state.i` -/
def generatedStateRule (u : Unicode) (ripOffset : ℤ) : Rule FileName Content Event where
  target := .generatedState
  prereqs := [.qemuTxt, .processQemuInfoRegisters]
  makes s :=
    match s .qemuTxt with
    | some (.text t) => (main u ripOffset t).map .text
    | _ => none
  run s e :=
    match s .qemuTxt with
    | some (.text t) =>
        match e with
        | .ok =>
            match main u ripOffset t with
            | some out => .ok (.text out)
            -- a `KeyError` before the first `print`, when the shell has created the file
            | none => .torn (.text [])
        | .failed => .failed
        | .torn t => .torn (.text t)
        | .noSpace t => .torn (.text t)
    -- the shell opens qemu.txt first
    | _ => .failed
  makes_congr s s' h := by rw [h .qemuTxt List.mem_cons_self]

/-- `gcc state-blob.c -o state-blob` -/
def stateBlobRule : Rule FileName Content Event where
  target := .stateBlob
  prereqs := [.stateBlobC, .generatedState]
  makes s :=
    match s .generatedState with
    | some (.text t) => some (.program t)
    | _ => none
  run s e :=
    match s .generatedState with
    | some (.text t) =>
        match e with
        | .ok => .ok (.program t)
        | .failed => .failed
        | .torn _ => .torn .broken
        | .noSpace _ => .torn .broken
    | _ => .failed
  makes_congr s s' h := by rw [h .generatedState (by simp)]

/-- `./state-blob` -/
def cpuStateRule : Rule FileName Content Event where
  target := .cpuState
  prereqs := [.stateBlob]
  makes s :=
    match s .stateBlob with
    | some (.program t) => some (.blob t)
    | _ => none
  run s e :=
    match s .stateBlob with
    | some (.program t) =>
        match e with
        | .ok => .ok (.blob t)
        | .failed => .failed
        | .torn _ => .torn .broken
        -- `main` returns 0 whatever `fwrite` and `fclose` return
        | .noSpace _ => .ok .broken
    | _ => .failed
  makes_congr s s' h := by rw [h .stateBlob List.mem_cons_self]

/-- The commands of `generate_cpu_state.sh`. -/
def commands (u : Unicode) (ripOffset : ℤ) : List (Rule FileName Content Event) :=
  [generatedStateRule u ripOffset, stateBlobRule, cpuStateRule]

/-- **The rules of the Makefile**, in the order in which `make` comes to them. -/
def makefile (u : Unicode) : List (Rule FileName Content Event) := commands u 0

/-! ### What is done in the directory -/

/-- Is a write of `state-blob` refused? -/
def cutShort (env : FileName → Event) : Bool :=
  match env .cpuState with
  | .noSpace _ => true
  | _ => false

structure State where
  dir : Dir FileName Content
  /-- A history variable: since `qemu.txt` was replaced, the targets were removed, or
  `generate_cpu_state.sh` last ran the script with the offset 0 and without a failure, a recipe has
  failed that had written to its target, or written nothing without a failure, or the script was
  run with the offset 16. -/
  suspect : Bool
  /-- A history variable: the last thing done was a `make` that succeeded. -/
  made : Bool

inductive Act where
  | replaceQemuTxt (t : Text)
  | make (env : FileName → Event)
  /-- `generate_cpu_state.sh` -/
  | generate (escapeZzzloop : Bool) (env : FileName → Event)
  /-- `make clean` -/
  | clean

/-- `MODIFY_STATE` -/
def modifyState (escapeZzzloop : Bool) : ℤ := if escapeZzzloop = true then 16 else 0

/-- **What is done in the directory.** -/
def step (u : Unicode) (σ : State) : Act → Option State
  | .replaceQemuTxt t =>
      some { dir := σ.dir.write .qemuTxt (.text t), suspect := false, made := false }
  | .make env =>
      let built := Make.make env (makefile u) σ.dir
      some { dir := built.1
             suspect := σ.suspect || built.2 = .torn || cutShort env
             made := built.2 = .ok }
  | .generate escapeZzzloop env =>
      let built := script env (commands u (modifyState escapeZzzloop)) σ.dir
      let suspect :=
        match (generatedStateRule u (modifyState escapeZzzloop)).run σ.dir.content
          (env .generatedState) with
        | .ok _ => escapeZzzloop || built.2 = .torn || cutShort env
        | .failed => σ.suspect
        | .torn _ => true
      some { dir := built.1, suspect := suspect, made := false }
  | .clean =>
      some { dir := ((σ.dir.remove .generatedState).remove .stateBlob).remove .cpuState
             suspect := false
             made := false }

/-- The files of the repository. -/
def State.initial : State where
  dir := {
    file := fun n =>
      if n = .processQemuInfoRegisters ∨ n = .stateBlobC then some ⟨0, .repository⟩ else none
    now := 1
    old := by
      intro n f hf
      obtain ⟨-, hf⟩ := Option.ite_none_right_eq_some.1 hf
      exact Option.some.inj hf ▸ Nat.one_pos }
  suspect := false
  made := false

/-! ### Fresh blobs -/

/-- **The blob is made from the present transcript**, by a run of the script that succeeds with the
offset 0. -/
def Fresh (u : Unicode) (d : Dir FileName Content) : Prop :=
  ∃ t out, d.content .qemuTxt = some (.text t) ∧ main u 0 t = some out ∧
    d.content .cpuState = some (.blob out)

/-- `make` is not called when a target is suspect, and no write of `state-blob` is refused in it. -/
def Trusted (σ : State) : Act → Prop
  | .make env => σ.suspect = false ∧ cutShort env = false
  | .replaceQemuTxt _ | .generate _ _ | .clean => True

section Rules

variable {u : Unicode} {d : Dir FileName Content} {env : FileName → Event} {e : Event}

theorem makefile_ordered (u : Unicode) : Ordered (makefile u) where
  nodup := by
    change [FileName.generatedState, .stateBlob, .cpuState].Nodup
    decide
  later := by
    simp [makefile, commands, generatedStateRule, stateBlobRule, cpuStateRule]
  self := by
    simp [makefile, commands, generatedStateRule, stateBlobRule, cpuStateRule]

theorem generatedStateRule_honest (u : Unicode) (ripOffset : ℤ) (e : Event) :
    (generatedStateRule u ripOffset).Honest e := by
  intro s c h
  simp only [generatedStateRule] at h ⊢
  split at h
  · cases e with
    | ok =>
        cases hmain : main u ripOffset _ with
        | none => rw [hmain] at h; cases h
        | some out =>
            rw [hmain] at h
            obtain rfl := Result.ok.inj h
            rfl
    | failed | torn t | noSpace t => cases h
  · cases h

theorem stateBlobRule_honest (e : Event) : stateBlobRule.Honest e := by
  intro s c h
  simp only [stateBlobRule] at h ⊢
  split at h
  · cases e with
    | ok => exact congrArg some (Result.ok.inj h)
    | failed | torn t | noSpace t => cases h
  · cases h

theorem cpuStateRule_honest (h : cutShort env = false) : cpuStateRule.Honest (env .cpuState) := by
  intro s c hrun
  rw [cutShort] at h
  simp only [cpuStateRule] at hrun ⊢
  split at hrun
  · cases he : env .cpuState with
    | ok =>
        rw [he] at hrun
        exact congrArg some (Result.ok.inj hrun)
    | noSpace t => rw [he] at h; cases h
    | failed | torn t => rw [he] at hrun; cases hrun
  · cases hrun

theorem makefile_honest (h : cutShort env = false) :
    ∀ r ∈ makefile u, r.Honest (env r.target) := by
  simp only [makefile, commands, List.mem_cons, List.not_mem_nil, or_false]
  rintro r (rfl | rfl | rfl)
  · exact generatedStateRule_honest u 0 _
  · exact stateBlobRule_honest _
  · exact cpuStateRule_honest h

/-- The program and the blob are made from `generated-state.i`. -/
theorem depends_generatedState (u : Unicode) :
    Depends (makefile u) .generatedState .stateBlob ∧
      Depends (makefile u) .generatedState .cpuState := by
  have hblob : Depends (makefile u) .generatedState stateBlobRule.target :=
    .direct (by simp [makefile, commands]) (by simp [stateBlobRule])
  have hcpu : Depends (makefile u) .generatedState cpuStateRule.target :=
    .through (by simp [makefile, commands]) List.mem_cons_self hblob
  exact ⟨hblob, hcpu⟩

/-- Everything is made from `qemu.txt`. -/
theorem depends_qemuTxt (u : Unicode) :
    ∀ r ∈ makefile u, Depends (makefile u) .qemuTxt r.target := by
  have hstate : Depends (makefile u) .qemuTxt (generatedStateRule u 0).target :=
    .direct List.mem_cons_self List.mem_cons_self
  have hblob : Depends (makefile u) .qemuTxt stateBlobRule.target :=
    .through (by simp [makefile, commands]) (by simp [stateBlobRule, generatedStateRule]) hstate
  have hcpu : Depends (makefile u) .qemuTxt cpuStateRule.target :=
    .through (by simp [makefile, commands]) List.mem_cons_self hblob
  simp only [makefile, commands, List.mem_cons, List.not_mem_nil, or_false]
  rintro r (rfl | rfl | rfl)
  · exact hstate
  · exact hblob
  · exact hcpu

/-- When every target is right, the blob is fresh. -/
theorem fresh_of_right (h : ∀ r ∈ makefile u, r.Right d) : Fresh u d := by
  obtain ⟨code, hcode, hmakes⟩ := h (generatedStateRule u 0) List.mem_cons_self
  obtain ⟨program, hprogram, hcompile⟩ := h stateBlobRule (by simp [makefile, commands])
  obtain ⟨blob, hblob, hrun⟩ := h cpuStateRule (by simp [makefile, commands])
  change d.content .generatedState = _ at hcode
  change d.content .stateBlob = _ at hprogram
  change d.content .cpuState = _ at hblob
  simp only [generatedStateRule] at hmakes
  split at hmakes
  · next t hqemu =>
      obtain ⟨out, hmain, rfl⟩ := Option.map_eq_some_iff.1 hmakes
      simp only [stateBlobRule, hcode, Option.some.injEq] at hcompile
      subst hcompile
      simp only [cpuStateRule, hprogram, Option.some.injEq] at hrun
      subst hrun
      exact ⟨t, out, hqemu, hmain, hblob⟩
  · cases hmakes

/-- The script with the offset 0 makes the directory sound, whatever was there before. -/
theorem sound_generatedState {c : Content}
    (hrun : (generatedStateRule u 0).run d.content e = .ok c) :
    Sound (makefile u) (d.write .generatedState c) := by
  have hright : (generatedStateRule u 0).Right (d.write .generatedState c) :=
    (makefile_ordered u).right_of_makes List.mem_cons_self
      (generatedStateRule_honest u 0 e _ _ hrun)
  refine sound_of_depends (makefile_ordered u) ?_
  simp only [makefile, commands, List.mem_cons, List.not_mem_nil, or_false]
  rintro r (rfl | rfl | rfl)
  · exact .inr hright
  · exact .inl (depends_generatedState u).1
  · exact .inl (depends_generatedState u).2

end Rules

/-! ### The invariant -/

/-- Unless a target is suspect, no file misleads `make`. -/
structure Inv (u : Unicode) (σ : State) : Prop where
  sound : σ.suspect = false → Sound (makefile u) σ.dir
  fresh : σ.made = true → Fresh u σ.dir

section Steps

variable {u : Unicode} {σ σ' : State} {a : Act} {env : FileName → Event}

/-- Nothing is made yet. -/
theorem sound_of_missing {d : Dir FileName Content}
    (h : ∀ r ∈ makefile u, d.file r.target = none) : Sound (makefile u) d := by
  intro r hr hup
  obtain ⟨f, hf, -⟩ := upToDate_iff.1 hup
  rw [h r hr] at hf
  cases hf

theorem Inv.initial : Inv u State.initial where
  sound _ := by
    refine sound_of_missing ?_
    simp only [makefile, commands, List.mem_cons, List.not_mem_nil, or_false]
    rintro r (rfl | rfl | rfl) <;> rfl
  fresh h := by cases h

/-- After `generate_cpu_state.sh` with the offset 0, when the script has succeeded and nothing else
has gone wrong. -/
theorem sound_script {c : Content}
    (hrun : (generatedStateRule u 0).run σ.dir.content (env .generatedState) = .ok c)
    (htorn : (script env (commands u 0) σ.dir).2 ≠ .torn) (hshort : cutShort env = false) :
    Sound (makefile u) (script env (commands u 0) σ.dir).1 := by
  have hexec : (generatedStateRule u 0).exec (env (generatedStateRule u 0).target) σ.dir =
      (σ.dir.write .generatedState c, .ok) := exec_of_ok hrun
  have hscript : script env (commands u 0) σ.dir =
      script env [stateBlobRule, cpuStateRule] (σ.dir.write .generatedState c) := by
    rw [script, commands, inOrder_cons_of_ok (by rw [hexec]), hexec]
  rw [hscript] at htorn ⊢
  have hsub : [stateBlobRule, cpuStateRule] ⊆ makefile u := List.subset_cons_self _ _
  exact (sound_generatedState hrun).script (makefile_ordered u) hsub
    (fun r hr => makefile_honest hshort r (hsub hr)) htorn

/-- `generate_cpu_state.sh`, however it ends. -/
theorem Inv.sound_generate {escapeZzzloop : Bool} (h : Inv u σ)
    (hs : step u σ (.generate escapeZzzloop env) = some σ') (hsuspect : σ'.suspect = false) :
    Sound (makefile u) σ'.dir := by
  obtain rfl := Option.some.inj hs
  dsimp only at hsuspect ⊢
  cases hrun : (generatedStateRule u (modifyState escapeZzzloop)).run σ.dir.content
      (env .generatedState) with
  | ok c =>
      rw [hrun] at hsuspect
      simp only [Bool.or_eq_false_iff, decide_eq_false_iff_not] at hsuspect
      obtain ⟨⟨rfl, htorn⟩, hshort⟩ := hsuspect
      exact sound_script hrun htorn hshort
  | failed =>
      rw [hrun] at hsuspect
      have hexec : (generatedStateRule u (modifyState escapeZzzloop)).exec
          (env (generatedStateRule u (modifyState escapeZzzloop)).target) σ.dir =
            (σ.dir, .failed) := exec_of_failed hrun
      have hscript : script env (commands u (modifyState escapeZzzloop)) σ.dir =
          (σ.dir, .failed) :=
        (inOrder_cons_of_ne (fun hok => by rw [hexec] at hok; cases hok)).trans hexec
      rw [hscript]
      exact h.sound hsuspect
  | torn c =>
      rw [hrun] at hsuspect
      cases hsuspect

/-- **Every permitted step keeps the invariant.** -/
theorem Inv.step (h : Inv u σ) (hok : Trusted σ a) (hs : step u σ a = some σ') : Inv u σ' := by
  cases a with
  | replaceQemuTxt t =>
      obtain rfl := Option.some.inj hs
      exact ⟨fun _ => sound_of_depends (makefile_ordered u) fun r hr =>
        .inl (depends_qemuTxt u r hr), fun hmade => by cases hmade⟩
  | make env =>
      obtain rfl := Option.some.inj hs
      have hsound := h.sound hok.1
      have hhonest := makefile_honest (u := u) hok.2
      refine ⟨fun hsuspect => ?_, fun hmade => ?_⟩
      · simp only [Bool.or_eq_false_iff, decide_eq_false_iff_not] at hsuspect
        exact hsound.make (makefile_ordered u) hhonest hsuspect.1.2
      · exact fresh_of_right
          (hsound.right_of_make (makefile_ordered u) hhonest (of_decide_eq_true hmade))
  | generate escapeZzzloop env =>
      refine ⟨h.sound_generate hs, fun hmade => ?_⟩
      obtain rfl := Option.some.inj hs
      cases hmade
  | clean =>
      obtain rfl := Option.some.inj hs
      refine ⟨fun _ => sound_of_missing ?_, fun hmade => by cases hmade⟩
      simp only [makefile, commands, List.mem_cons, List.not_mem_nil, or_false]
      rintro r (rfl | rfl | rfl) <;> rfl

end Steps

/-! ### Runs -/

/-- **A `make` that succeeds leaves a fresh blob** in every run in which `make` is not called when
a target is suspect, and in which no write of `state-blob` is refused under it. -/
theorem fresh_of_trusted {u : Unicode} {σ : State} (h : Reach (step u) Trusted State.initial σ)
    (hmade : σ.made = true) : Fresh u σ.dir := by
  have hinv : Inv u σ := h.inv Inv.initial fun _ _ _ hi hok hs => hi.step hok hs
  exact hinv.fresh hmade

/-- Nothing goes wrong. -/
def allOk : FileName → Event := fun _ => .ok

/-- With a transcript on which the script succeeds, the first `make` succeeds. -/
theorem exists_made {u : Unicode} {t out : Text} (hmain : main u 0 t = some out) :
    ∃ σ, Reach (step u) Trusted State.initial σ ∧ σ.made = true := by
  have hreplace : ∃ σ, step u State.initial (.replaceQemuTxt t) = some σ ∧ σ.suspect = false ∧
      (Make.make allOk (makefile u) σ.dir).2 = .ok := by
    refine ⟨_, rfl, rfl, ?_⟩
    simp [Make.make, makefile, commands, inOrder, Rule.build, Rule.exec, Rule.upToDate,
      generatedStateRule, stateBlobRule, cpuStateRule, allOk, Dir.content, Dir.write,
      Function.update, State.initial, hmain]
  obtain ⟨σ, hσ, hsuspect, hok⟩ := hreplace
  refine ⟨_, (Reach.start.next trivial hσ).next (a := .make allOk) ⟨hsuspect, rfl⟩ rfl, ?_⟩
  exact decide_eq_true hok

theorem fresh_of_trusted_transcript : ∃ σ,
    Reach (step asciiUnicode) Trusted State.initial σ ∧ σ.made = true ∧
      Fresh asciiUnicode σ.dir := by
  obtain ⟨comment, hmain⟩ := main_of_dump_example
  obtain ⟨σ, hreach, hmade⟩ := exists_made hmain
  exact ⟨σ, hreach, hmade, fresh_of_trusted hreach hmade⟩

/-- `make` is called twice on an empty transcript: the script fails, and the second `make` takes
what the shell has created. -/
def keyErrorRun : List Act := [.replaceQemuTxt [], .make allOk, .make allOk]

theorem not_fresh_keyError : ∃ σ, Reach (step asciiUnicode) (fun _ _ => True) State.initial σ ∧
    σ.made = true ∧ ¬Fresh asciiUnicode σ.dir := by
  have hrun : ∃ σ, run (step asciiUnicode) (fun _ _ => True) State.initial keyErrorRun = some σ ∧
      σ.made = true ∧ σ.dir.content .qemuTxt = some (.text []) :=
    ⟨_, rfl, by decide +kernel, by decide +kernel⟩
  obtain ⟨σ, hσ, hmade, hqemu⟩ := hrun
  refine ⟨σ, .of_run hσ, hmade, ?_⟩
  rintro ⟨t, out, ht, hmain, -⟩
  obtain rfl := Content.text.inj (Option.some.inj (hqemu.symm.trans ht))
  have hfail : main asciiUnicode 0 [] = none := by decide +kernel
  rw [hfail] at hmain
  cases hmain

end StateBlob
